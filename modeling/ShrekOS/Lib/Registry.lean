/-
Tables and lists that index the records of a store.

A store is a partial map from handles to records. Each record has a class and a
key; each class has a table from keys to handles. Some records are also listed,
each in the one list its selector names.

* `Registered`: the tables hold exactly the records of the store, each in the
  table of its class under its key;
* `Listed`: the lists hold exactly the records they should, each once;
* `Registered.erase`, `Registered.insert`, `Listed.erase`, `Listed.insert`:
  taking a record out of the store and its table or list, and putting one in.
-/
import Mathlib.Tactic

namespace Kit

variable {N R C K I : Type}
variable {cls : R → C} {key : R → K} {sel : R → Option I}
variable {T : C → K → Option N} {L : I → List N} {store : N → Option R} {n : N} {r : R}

/-- The tables hold exactly the records of the store, each under its key. -/
def Registered (cls : R → C) (key : R → K) (T : C → K → Option N) (store : N → Option R) :
    Prop :=
  ∀ c k n, T c k = some n ↔ ∃ r, store n = some r ∧ cls r = c ∧ key r = k

/-- The lists hold exactly the records that `sel` puts into them, each once. -/
structure Listed (sel : R → Option I) (L : I → List N) (store : N → Option R) : Prop where
  nodup : ∀ i, (L i).Nodup
  mem_iff : ∀ i n, n ∈ L i ↔ ∃ r, store n = some r ∧ sel r = some i

namespace Registered

lemma lookup (h : Registered cls key T store) (hn : store n = some r) :
    T (cls r) (key r) = some n :=
  (h _ _ _).mpr ⟨r, hn, rfl, rfl⟩

variable [DecidableEq N] [DecidableEq C] [DecidableEq K]

/-- A record leaves the store and its table. -/
lemma erase (h : Registered cls key T store) (hn : store n = some r) :
    Registered cls key
      (Function.update T (cls r) (Function.update (T (cls r)) (key r) none))
      (Function.update store n none) := by
  have hlook := h.lookup hn
  intro c k m
  by_cases hm : m = n
  · -- the handle itself is found nowhere any more
    subst hm
    simp only [Function.update_self, reduceCtorEq, false_and, exists_false, iff_false]
    intro hT
    by_cases hck : c = cls r ∧ k = key r
    · obtain ⟨rfl, rfl⟩ := hck
      simp at hT
    · have hT' : T c k = some m := by
        by_cases hc : c = cls r
        · subst hc
          have hk : k ≠ key r := fun hk => hck ⟨rfl, hk⟩
          simpa [Function.update_of_ne hk] using hT
        · simpa [Function.update_of_ne hc] using hT
      obtain ⟨s, hs, rfl, rfl⟩ := (h c k m).mp hT'
      exact hck (Option.some.inj (hn.symm.trans hs) ▸ ⟨rfl, rfl⟩)
  · rw [Function.update_of_ne hm, ← h c k m]
    by_cases hc : c = cls r
    · subst hc
      rw [Function.update_self]
      by_cases hk : k = key r
      · subst hk
        rw [Function.update_self, hlook]
        simpa using Ne.symm hm
      · rw [Function.update_of_ne hk]
    · rw [Function.update_of_ne hc]

/-- A record enters the store and its table. -/
lemma insert (h : Registered cls key T store) (hn : store n = none)
    (hk : T (cls r) (key r) = none) :
    Registered cls key
      (Function.update T (cls r) (Function.update (T (cls r)) (key r) (some n)))
      (Function.update store n (some r)) := by
  intro c k m
  by_cases hck : c = cls r ∧ k = key r
  · obtain ⟨rfl, rfl⟩ := hck
    rw [Function.update_self, Function.update_self]
    constructor
    · rintro hm
      obtain rfl := Option.some.inj hm
      exact ⟨r, by simp, rfl, rfl⟩
    · rintro ⟨s, hs, hsc, hsk⟩
      by_cases hm : m = n
      · rw [hm]
      · rw [Function.update_of_ne hm] at hs
        have := (h _ _ m).mpr ⟨s, hs, hsc, hsk⟩
        rw [hk] at this
        exact absurd this (by simp)
  · have hT : Function.update T (cls r) (Function.update (T (cls r)) (key r) (some n)) c k
        = T c k := by
      by_cases hc : c = cls r
      · subst hc
        rw [Function.update_self, Function.update_of_ne fun hk => hck ⟨rfl, hk⟩]
      · rw [Function.update_of_ne hc]
    rw [hT, h c k m]
    by_cases hm : m = n
    · subst hm
      rw [Function.update_self, hn]
      constructor
      · rintro ⟨s, hs, -⟩
        simp at hs
      · rintro ⟨s, hs, rfl, rfl⟩
        exact absurd (Option.some.inj hs ▸ ⟨rfl, rfl⟩) hck
    · rw [Function.update_of_ne hm]

end Registered

namespace Listed

variable [DecidableEq N]

/-- A record that is in no list leaves the store. -/
lemma erase_of_none (h : Listed sel L store) (hn : store n = some r) (hi : sel r = none) :
    Listed sel L (Function.update store n none) := by
  refine ⟨h.nodup, fun j m => ?_⟩
  by_cases hm : m = n
  · subst hm
    simp only [Function.update_self, reduceCtorEq, false_and, exists_false, iff_false]
    rw [h.mem_iff]
    rintro ⟨s, hs, hsj⟩
    obtain rfl := Option.some.inj (hn.symm.trans hs)
    simp [hi] at hsj
  · rw [Function.update_of_ne hm, h.mem_iff]

/-- A record that is in no list enters the store. -/
lemma insert_of_none (h : Listed sel L store) (hn : store n = none) (hi : sel r = none) :
    Listed sel L (Function.update store n (some r)) := by
  refine ⟨h.nodup, fun j m => ?_⟩
  by_cases hm : m = n
  · subst hm
    rw [h.mem_iff, Function.update_self, hn]
    simp [hi]
  · rw [Function.update_of_ne hm, h.mem_iff]

variable [DecidableEq I]

/-- A listed record leaves the store and its list. -/
lemma erase {i : I} (h : Listed sel L store) (hn : store n = some r) (hi : sel r = some i) :
    Listed sel (Function.update L i ((L i).erase n)) (Function.update store n none) := by
  constructor
  · intro j
    by_cases hj : j = i
    · subst hj
      simpa using (h.nodup j).erase n
    · simpa [Function.update_of_ne hj] using h.nodup j
  · intro j m
    by_cases hm : m = n
    · subst hm
      simp only [Function.update_self, reduceCtorEq, false_and, exists_false, iff_false]
      by_cases hj : j = i
      · subst hj
        simpa using (h.nodup j).not_mem_erase
      · rw [Function.update_of_ne hj, h.mem_iff]
        rintro ⟨s, hs, hsj⟩
        obtain rfl := Option.some.inj (hn.symm.trans hs)
        exact hj (Option.some.inj (hsj.symm.trans hi))
    · rw [Function.update_of_ne hm, ← h.mem_iff]
      by_cases hj : j = i
      · subst hj
        rw [Function.update_self, List.mem_erase_of_ne hm]
      · rw [Function.update_of_ne hj]

/-- A record enters the store and goes to the end of its list. -/
lemma insert {i : I} (h : Listed sel L store) (hn : store n = none) (hi : sel r = some i) :
    Listed sel (Function.update L i (L i ++ [n])) (Function.update store n (some r)) := by
  have hnot : ∀ j, n ∉ L j := by
    intro j hj
    obtain ⟨s, hs, -⟩ := (h.mem_iff j n).mp hj
    simp [hn] at hs
  constructor
  · intro j
    by_cases hj : j = i
    · subst hj
      rw [Function.update_self, List.nodup_append]
      exact ⟨h.nodup j, by simp, by simpa using fun a ha => ne_of_mem_of_not_mem ha (hnot j)⟩
    · simpa [Function.update_of_ne hj] using h.nodup j
  · intro j m
    by_cases hm : m = n
    · subst hm
      rw [Function.update_self]
      by_cases hj : j = i
      · subst hj
        simp [hi]
      · rw [Function.update_of_ne hj]
        simpa [hnot j, hi] using Ne.symm hj
    · rw [Function.update_of_ne hm, ← h.mem_iff]
      by_cases hj : j = i
      · subst hj
        simp [hm]
      · rw [Function.update_of_ne hj]

end Listed

end Kit
