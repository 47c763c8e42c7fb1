/-
Threads that hold locks and want others.

* `Waits`: a thread wants a lock that another one holds, and `CyclicWait`: a cycle of threads,
  each of which waits for the next one;
* `InOrder`: whatever a thread wants is above all that it holds;
* `InOrder.not_cyclicWait`: **no cyclic wait** when that order is strict.
-/
import Mathlib.Logic.Relation

namespace Kit

variable {T M : Type} {held wants : T → M → Prop} {lt : M → M → Prop} {t u : T}

/-- The first thread wants a lock that the second one holds. -/
def Waits (held wants : T → M → Prop) (t u : T) : Prop := ∃ m, wants t m ∧ held u m

/-- Some thread waits for itself, on the way of any number of others. -/
def CyclicWait (held wants : T → M → Prop) : Prop :=
  ∃ t, Relation.TransGen (Waits held wants) t t

/-- Every lock that a thread wants is above those it holds. -/
def InOrder (lt : M → M → Prop) (held wants : T → M → Prop) : Prop :=
  ∀ t m m', held t m → wants t m' → lt m m'

/-- Along a chain of waiting threads the locks go up: the first thread wants a lock that is
below all that the last one wants. -/
lemma InOrder.chain (h : InOrder lt held wants) (htrans : ∀ a b c, lt a b → lt b c → lt a c)
    (hchain : Relation.TransGen (Waits held wants) t u) :
    ∃ m, wants t m ∧ ∀ m', wants u m' → lt m m' := by
  induction hchain with
  | single hwait =>
      obtain ⟨m, hwants, hheld⟩ := hwait
      exact ⟨m, hwants, fun m' hm' => h _ m m' hheld hm'⟩
  | tail _ hwait ih =>
      obtain ⟨m, hm, hbelow⟩ := ih
      obtain ⟨m₁, hwants, hheld⟩ := hwait
      refine ⟨m, hm, fun m' hm' => ?_⟩
      have hlast : lt m₁ m' := h _ m₁ m' hheld hm'
      exact htrans _ _ _ (hbelow m₁ hwants) hlast

/-- **No cyclic wait**: in a strict order no thread waits for itself. -/
theorem InOrder.not_cyclicWait (h : InOrder lt held wants) (hirrefl : ∀ a, ¬ lt a a)
    (htrans : ∀ a b c, lt a b → lt b c → lt a c) : ¬ CyclicWait held wants := by
  rintro ⟨t, hcycle⟩
  obtain ⟨m, hm, hbelow⟩ := h.chain htrans hcycle
  exact hirrefl m (hbelow m hm)

end Kit
