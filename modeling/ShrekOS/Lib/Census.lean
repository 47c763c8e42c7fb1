/-
Counting the members of a family that have a property.

* `census`: how many indices of a family lead to a member with the property;
* `Few`: only finitely many do, which an update keeps (`Few.update`);
* `census_update`: **one member of the family changes**, and the count with it; `census_single`:
  a family with one member of its own;
* `census_le`, `census_eq_zero`, `census_pos`: counts of properties that imply each other, and
  when a count is zero.
-/
import Mathlib.Tactic
import Mathlib.Data.Set.Card

namespace Kit

variable {ι π : Type} {f : ι → π} {P Q : π → Prop}

/-- How many indices lead to a member with the property. -/
noncomputable def census (f : ι → π) (P : π → Prop) : ℕ := {i | P (f i)}.ncard

/-- Only finitely many members have the property. -/
def Few (f : ι → π) (P : π → Prop) : Prop := {i | P (f i)}.Finite

/-- A stronger property is less frequent. -/
lemma Few.mono (h : Few f Q) (hPQ : ∀ i, P (f i) → Q (f i)) : Few f P :=
  h.subset fun i hi => hPQ i hi

/-- No member with the property: in particular finitely many. -/
lemma Few.of_none (h : ∀ i, ¬ P (f i)) : Few f P := by
  have hempty : {i | P (f i)} = ∅ := Set.eq_empty_of_forall_notMem h
  rw [Few, hempty]
  exact Set.finite_empty

/-- A count of zero, for a property that few members have. -/
lemma census_eq_zero (h : Few f P) : census f P = 0 ↔ ∀ i, ¬ P (f i) := by
  rw [census, Set.ncard_eq_zero h, Set.eq_empty_iff_forall_notMem]
  rfl

/-- A count of a property that no member has. -/
lemma census_of_none (h : ∀ i, ¬ P (f i)) : census f P = 0 := (census_eq_zero (.of_none h)).mpr h

lemma census_pos (h : Few f P) : 0 < census f P ↔ ∃ i, P (f i) := by
  rw [Nat.pos_iff_ne_zero, Ne, census_eq_zero h]
  push Not
  rfl

/-- A stronger property counts less. -/
lemma census_le (h : Few f Q) (hPQ : ∀ i, P (f i) → Q (f i)) : census f P ≤ census f Q :=
  Set.ncard_le_ncard (fun i hi => hPQ i hi) h

variable [DecidableEq ι]

/-- A change of one member keeps the property infrequent. -/
lemma Few.update (h : Few f P) (i : ι) (p : π) : Few (Function.update f i p) P := by
  refine (h.insert i).subset fun j hj => ?_
  by_cases hji : j = i
  · exact .inl hji
  · change P (Function.update f i p j) at hj
    rw [Function.update_of_ne hji] at hj
    exact .inr hj

/-- The members other than the one at `i` that have the property. -/
private lemma ncard_others (h : Few f P) [DecidablePred P] (i : ι) :
    census f P = {j | j ≠ i ∧ P (f j)}.ncard + if P (f i) then 1 else 0 := by
  have hfin : {j | j ≠ i ∧ P (f j)}.Finite := h.subset fun j hj => hj.2
  by_cases hi : P (f i)
  · have hins : {j | P (f j)} = insert i {j | j ≠ i ∧ P (f j)} := by
      ext j
      by_cases hj : j = i
      · simp [hj, hi]
      · simp [hj]
    rw [census, hins, Set.ncard_insert_of_notMem (by simp) hfin, if_pos hi]
  · have heq : {j | P (f j)} = {j | j ≠ i ∧ P (f j)} := by
      ext j
      by_cases hj : j = i
      · simp [hj, hi]
      · simp [hj]
    rw [census, heq, if_neg hi, add_zero]

/-- **One member changes**: the count loses the old one and gains the new one. -/
theorem census_update (h : Few f P) [DecidablePred P] (i : ι) (p : π) :
    census (Function.update f i p) P + (if P (f i) then 1 else 0) =
      census f P + if P p then 1 else 0 := by
  have hothers : {j | j ≠ i ∧ P (Function.update f i p j)} = {j | j ≠ i ∧ P (f j)} := by
    ext j
    refine and_congr_right fun hj => ?_
    rw [Function.update_of_ne hj]
  rw [ncard_others (h.update i p) i, ncard_others h i, hothers, Function.update_self]
  omega

/-- A change that does not touch the property. -/
lemma census_update_same (h : Few f P) (i : ι) (p : π) (hp : P p ↔ P (f i)) :
    census (Function.update f i p) P = census f P := by
  classical
  have hcount := census_update h i p
  by_cases hi : P (f i)
  · rw [if_pos hi, if_pos (hp.mpr hi)] at hcount
    omega
  · rw [if_neg hi, if_neg (mt hp.mp hi)] at hcount
    omega

/-- A member gets the property. -/
lemma census_update_gain (h : Few f P) (i : ι) {p : π} (hi : ¬ P (f i)) (hp : P p) :
    census (Function.update f i p) P = census f P + 1 := by
  classical
  have hcount := census_update h i p
  rw [if_neg hi, if_pos hp] at hcount
  omega

/-- A member loses the property. -/
lemma census_update_loss (h : Few f P) (i : ι) {p : π} (hi : P (f i)) (hp : ¬ P p) :
    census (Function.update f i p) P + 1 = census f P := by
  classical
  have hcount := census_update h i p
  rw [if_pos hi, if_neg hp] at hcount
  omega

/-- A family with one member of its own: the count is one if that has the property. -/
lemma census_single [DecidablePred P] (i : ι) {p q : π} (hq : ¬ P q) :
    census (Function.update (fun _ => q) i p) P = if P p then 1 else 0 := by
  have hnone : Few (fun _ : ι => q) P := .of_none fun _ => hq
  have hcount := census_update hnone i p
  rw [if_neg hq, census_of_none (f := fun _ : ι => q) fun _ => hq] at hcount
  omega

end Kit
