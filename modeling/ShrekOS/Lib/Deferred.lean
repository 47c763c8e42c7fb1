/-
Writes that are made at once, and writes that are put off.

The keys of a partial map lie in slots. Before a key is written its slot is opened: the keys
of it that have no value get a default one.

* `opened`, `wrote`: the two changes of a map, and `wroteNow`: one after the other;
* `opened_wrote`: they commute;
* `foldl_wroteNow`: **a list of writes made at once** does what it does when all slots are
  opened first and the writes follow in their order.
-/
import Mathlib.Logic.Function.Basic

namespace Kit

namespace Deferred

variable {K S V : Type} [DecidableEq S] (slot : K → S) (zero : V)

/-- The keys of a slot that have no value get the default one. -/
def opened (i : S) (m : K → Option V) : K → Option V :=
  fun k => if slot k = i ∧ m k = none then some zero else m k

variable {slot zero}

lemma opened_of_ne {i : S} {m : K → Option V} {k : K} (h : slot k ≠ i) :
    opened slot zero i m k = m k := if_neg fun hk => h hk.1

/-- A key that has a value keeps it. -/
lemma opened_of_some {i : S} {m : K → Option V} {k : K} (h : m k ≠ none) :
    opened slot zero i m k = m k := if_neg fun hk => h hk.2

/-- Nothing happens to a slot all of whose keys have values. -/
lemma opened_of_full {i : S} {m : K → Option V} (h : ∀ k, slot k = i → m k ≠ none) :
    opened slot zero i m = m := by
  funext k
  by_cases hk : slot k = i
  · exact opened_of_some (h k hk)
  · exact opened_of_ne hk

variable [DecidableEq K]

/-- A key is written. -/
def wrote (m : K → Option V) (u : K × V) : K → Option V := Function.update m u.1 (some u.2)

/-- A key is written, in a slot that is opened for it. -/
def wroteNow (slot : K → S) (zero : V) (m : K → Option V) (u : K × V) : K → Option V :=
  wrote (opened slot zero (slot u.1) m) u

/-- A slot may be opened before or after a write. -/
lemma opened_wrote (i : S) (m : K → Option V) (u : K × V) :
    opened slot zero i (wrote m u) = wrote (opened slot zero i m) u := by
  funext k
  by_cases hk : k = u.1
  · subst hk
    simp [opened, wrote]
  · simp [opened, wrote, Function.update_of_ne hk]

/-- All slots may be opened before or after a write. -/
lemma foldl_opened_wrote (us : List (K × V)) (m : K → Option V) (u : K × V) :
    us.foldl (fun m u => opened slot zero (slot u.1) m) (wrote m u) =
      wrote (us.foldl (fun m u => opened slot zero (slot u.1) m) m) u := by
  induction us generalizing m with
  | nil => rfl
  | cons v us ih => rw [List.foldl_cons, opened_wrote, ih, List.foldl_cons]

/-- **Writes made at once, and writes that are put off.** -/
theorem foldl_wroteNow (us : List (K × V)) (m : K → Option V) :
    us.foldl (wroteNow slot zero) m =
      us.foldl wrote (us.foldl (fun m u => opened slot zero (slot u.1) m) m) := by
  induction us generalizing m with
  | nil => rfl
  | cons u us ih =>
      calc (u :: us).foldl (wroteNow slot zero) m
          = us.foldl wrote (us.foldl (fun m u => opened slot zero (slot u.1) m)
              (wrote (opened slot zero (slot u.1) m) u)) := ih _
        _ = us.foldl wrote (wrote (us.foldl (fun m u => opened slot zero (slot u.1) m)
              (opened slot zero (slot u.1) m)) u) := by rw [foldl_opened_wrote]
        _ = (u :: us).foldl wrote ((u :: us).foldl (fun m u => opened slot zero (slot u.1) m) m) :=
            rfl

/-- A key that is not written keeps its value, if it had one, and otherwise has none or the
default one. -/
lemma foldl_wroteNow_other (us : List (K × V)) (m : K → Option V) {k : K}
    (hk : ∀ u ∈ us, u.1 ≠ k) :
    us.foldl (wroteNow slot zero) m k = m k ∨
      m k = none ∧ us.foldl (wroteNow slot zero) m k = some zero := by
  induction us generalizing m with
  | nil => exact .inl rfl
  | cons u us ih =>
      have hne : k ≠ u.1 := (hk u (.head _)).symm
      have hstep : wroteNow slot zero m u k = opened slot zero (slot u.1) m k :=
        Function.update_of_ne hne _ _
      have hrest := ih (wroteNow slot zero m u) fun v hv => hk v (.tail _ hv)
      rw [List.foldl_cons]
      rw [hstep] at hrest
      by_cases hopen : slot k = slot u.1 ∧ m k = none
      · have hzero : opened slot zero (slot u.1) m k = some zero := if_pos hopen
        rw [hzero] at hrest
        exact .inr ⟨hopen.2, hrest.resolve_right (by simp)⟩
      · have hsame : opened slot zero (slot u.1) m k = m k := if_neg hopen
        rwa [hsame] at hrest

end Deferred

end Kit
