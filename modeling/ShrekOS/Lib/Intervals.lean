/-
Lists of intervals of natural numbers, and counting by injection into them.

* `cover`: the points of a list of intervals, each given by its start and length;
* `card_cover_le`, `sum_le_of_pairwise`: a list of intervals covers at most as many
  points as its lengths add up to, and as many when the intervals are disjoint;
* `count_le_of_cover`: **counting by injection**: a predicate whose points are sent
  injectively into the intervals holds at most as often.
-/
import Mathlib.Tactic
import Mathlib.Order.Interval.Finset.Nat
import Mathlib.Data.Nat.Count

namespace Kit

/-- The points of a list of intervals `[a, a + n)`. -/
def cover : List (ℕ × ℕ) → Finset ℕ
  | [] => ∅
  | (a, n) :: l => Finset.Ico a (a + n) ∪ cover l

lemma mem_cover {x : ℕ} : ∀ {l : List (ℕ × ℕ)},
    x ∈ cover l ↔ ∃ b ∈ l, b.1 ≤ x ∧ x < b.1 + b.2
  | [] => by simp [cover]
  | (a, n) :: l => by
      rw [cover, Finset.mem_union, Finset.mem_Ico, mem_cover]
      simp

/-- The intervals cover no more points than their lengths say. -/
lemma card_cover_le : ∀ l : List (ℕ × ℕ), (cover l).card ≤ (l.map Prod.snd).sum
  | [] => le_rfl
  | (a, n) :: l => by
      rw [cover, List.map_cons, List.sum_cons]
      refine (Finset.card_union_le _ _).trans (add_le_add ?_ (card_cover_le l))
      rw [Nat.card_Ico, Nat.add_sub_cancel_left]

/-- Two intervals have no point in common. -/
def Separate (b c : ℕ × ℕ) : Prop := ∀ x, b.1 ≤ x → x < b.1 + b.2 → ¬ (c.1 ≤ x ∧ x < c.1 + c.2)

/-- Disjoint intervals below `N` have lengths that add up to at most `N`. -/
lemma sum_le_of_pairwise {N : ℕ} : ∀ {l : List (ℕ × ℕ)}, l.Pairwise Separate →
    (∀ b ∈ l, b.1 + b.2 ≤ N) → (l.map Prod.snd).sum ≤ N := by
  -- the lengths add up to the number of points covered
  have hcard : ∀ {l : List (ℕ × ℕ)}, l.Pairwise Separate →
      (cover l).card = (l.map Prod.snd).sum := by
    intro l
    induction l with
    | nil => exact fun _ => rfl
    | cons b l ih =>
        intro h
        obtain ⟨hb, hl⟩ := List.pairwise_cons.mp h
        have hdis : Disjoint (Finset.Ico b.1 (b.1 + b.2)) (cover l) := by
          rw [Finset.disjoint_left]
          intro x hx hxl
          rw [Finset.mem_Ico] at hx
          obtain ⟨c, hc, hxc⟩ := mem_cover.mp hxl
          exact hb c hc x hx.1 hx.2 hxc
        rw [cover, Finset.card_union_of_disjoint hdis, ih hl, Nat.card_Ico,
          Nat.add_sub_cancel_left, List.map_cons, List.sum_cons]
  intro l h hN
  rw [← hcard h]
  have hsub : cover l ⊆ Finset.range N := by
    intro x hx
    obtain ⟨b, hb, -, hlt⟩ := mem_cover.mp hx
    exact Finset.mem_range.mpr (hlt.trans_le (hN b hb))
  simpa using Finset.card_le_card hsub

/-- **Counting by injection**: where `p` holds below `N`, `f` is injective and takes
values in the intervals. -/
theorem count_le_of_cover {p : ℕ → Prop} [DecidablePred p] {N : ℕ} {l : List (ℕ × ℕ)}
    (f : ℕ → ℕ) (hmem : ∀ w < N, p w → ∃ b ∈ l, b.1 ≤ f w ∧ f w < b.1 + b.2)
    (hinj : ∀ w < N, ∀ w' < N, p w → p w' → f w = f w' → w = w') :
    Nat.count p N ≤ (l.map Prod.snd).sum := by
  rw [Nat.count_eq_card_filter_range]
  refine (Finset.card_le_card_of_injOn f (t := cover l) ?_ ?_).trans (card_cover_le l)
  · intro w hw
    rw [Finset.mem_coe, Finset.mem_filter, Finset.mem_range] at hw
    exact mem_cover.mpr (hmem w hw.1 hw.2)
  · intro w hw w' hw' heq
    rw [Finset.mem_coe, Finset.mem_filter, Finset.mem_range] at hw hw'
    exact hinj w hw.1 w' hw'.1 hw.2 hw'.2 heq

end Kit
