/-
Tenancy: what memory isolation says, apart from page tables.

* `Apart`: the allocated extents are made of pages below `2 ^ 32`, and disjoint;
* `Tenancy`: every mapped page lies inside a record of its own directory, and no page
  is mapped twice;
* `Tenancy.shrink`, `Tenancy.grant`, `Tenancy.fill`, `Tenancy.revoke`,
  `Tenancy.clear`: its moves;
* `Tenancy.count_le`: **a directory has no more mapped pages than its records say**.

The ledger of the frames is `Balanced`; here a map from pages of directories to
physical pages is added to it.
-/
import ShrekOS.Lib.Intervals
import ShrekOS.Mem.Ledger

namespace ShrekOS

open Kit

/-! ### Extents -/

/-- The allocated extents are made of pages below `2 ^ 32`, and are disjoint. -/
structure Apart (extent : ℕ → Option ℕ) : Prop where
  aligned : ∀ {a k}, extent a = some k → a % pageSize = 0
  le : ∀ {a k}, extent a = some k → a + pageSize * k ≤ 2 ^ 32
  disjoint : ∀ {a b k l x}, extent a = some k → extent b = some l →
    a ≤ x → x < a + pageSize * k → b ≤ x → x < b + pageSize * l → a = b

/-- The extents of a frame manager in order are apart. -/
lemma FrameManager.Inv.apart {lim : ℕ} {fm : FrameManager} (h : fm.Inv lim) :
    Apart fm.view.extent where
  aligned ha := by
    obtain ⟨n, p, f, -, hn, hp, hf, rfl, rfl⟩ := View.of_extent h.ok ha
    exact Nat.mod_eq_zero_of_dvd (h.addr_dvd hp)
  le ha := by
    obtain ⟨n, p, f, -, hn, hp, hf, rfl, rfl⟩ := View.of_extent h.ok ha
    rw [h.ok.pages hp]
    exact (h.end_le hp).trans h.lim_le
  disjoint {a b k l x} ha hb h1 h2 h3 h4 := by
    obtain ⟨n, p, f, -, hn, hp, hf, rfl, rfl⟩ := View.of_extent h.ok ha
    obtain ⟨m, q, g, -, hm, hq, hg, rfl, rfl⟩ := View.of_extent h.ok hb
    rw [h.ok.pages hp] at h2
    rw [h.ok.pages hq] at h4
    -- the frame that starts last starts inside the other one
    rcases le_total f.addr g.addr with hle | hle
    · have hpq : p = q := h.leaf_unique hp hq (by simp [hf]) (by simp [hg]) hle (h3.trans_lt h2)
      subst hpq
      rw [Option.some.inj (hp.symm.trans hq)]
    · have hpq : q = p := h.leaf_unique hq hp (by simp [hg]) (by simp [hf]) hle (h1.trans_lt h4)
      subst hpq
      rw [Option.some.inj (hp.symm.trans hq)]

/-! ### Tenancy -/

/-- The page at `p` is one of the `n` pages from `a` on. -/
def Within (a n p : ℕ) : Prop := a ≤ p ∧ p + pageSize ≤ a + pageSize * n

/-- Every mapped page lies inside a record of its own directory, and no page is
mapped twice. -/
structure Tenancy (lists : ℕ → List FrameMetadata) (map : ℕ → ℕ → Option ℕ) : Prop where
  aligned : ∀ {d w p}, map d w = some p → p % pageSize = 0
  inside : ∀ {d w p}, map d w = some p → ∃ m ∈ lists d, Within m.pAddr m.numPages p
  exclusive : ∀ {d e w v p}, map d w = some p → map e v = some p → d = e ∧ w = v

namespace Tenancy

variable {extent : ℕ → Option ℕ} {lists lists' : ℕ → List FrameMetadata}
  {map map' : ℕ → ℕ → Option ℕ} {d a n k : ℕ}

/-- Mappings may go, and records may be added. -/
lemma shrink (h : Tenancy lists map) (hmap : ∀ {e w p}, map' e w = some p → map e w = some p)
    (hlists : ∀ e, lists e ⊆ lists' e) : Tenancy lists' map' where
  aligned hw := h.aligned (hmap hw)
  inside hw := by
    obtain ⟨m, hm, hp⟩ := h.inside (hmap hw)
    exact ⟨m, hlists _ hm, hp⟩
  exclusive hw hv := h.exclusive (hmap hw) (hmap hv)

/-- A new record does not disturb the mappings. -/
lemma grant (h : Tenancy lists map) (d : ℕ) (m : FrameMetadata) :
    Tenancy (Function.update lists d (m :: lists d)) map := by
  refine h.shrink id fun e => ?_
  by_cases he : e = d
  · subst he
    rw [Function.update_self]
    exact List.subset_cons_self _ _
  · rw [Function.update_of_ne he]
    exact List.Subset.refl _

/-- Nothing is mapped to an extent that is new. -/
lemma vacant (h : Tenancy lists map) (hb : Balanced extent lists) (ha : extent a = none)
    (hap : Apart (Function.update extent a (some k))) {e w p : ℕ} (hw : map e w = some p) :
    ¬ (a ≤ p ∧ p < a + pageSize * k) := by
  rintro ⟨h1, h2⟩
  obtain ⟨m, hm, h3, h4⟩ := h.inside hw
  obtain ⟨l, hl, -, hle⟩ := hb.recorded hm
  have hne : m.pAddr ≠ a := by
    rintro rfl
    simp [ha] at hl
  have hl' : Function.update extent a (some k) m.pAddr = some l := by
    rw [Function.update_of_ne hne, hl]
  have hmul : pageSize * m.numPages ≤ pageSize * l := Nat.mul_le_mul_left _ hle
  have hpos := FrameManager.pageSize_pos
  exact hne (hap.disjoint hl' (Function.update_self ..) h3 (by omega) h1 h2)

/-- The pages of a record that nothing is mapped to get mapped, each at most once. -/
lemma fill (h : Tenancy lists map) (hm : ⟨a, n⟩ ∈ lists d) (ha : a % pageSize = 0)
    (hvac : ∀ {e w p}, map e w = some p → ¬ (a ≤ p ∧ p < a + pageSize * n))
    {R : ℕ → ℕ → Prop} (hR : ∀ {w v i}, R w i → R v i → w = v)
    (hmap : ∀ {e w p}, map' e w = some p → map e w = some p ∨
      (e = d ∧ ∃ i < n, R w i ∧ p = a + pageSize * i)) : Tenancy lists map' := by
  -- a new mapping leads into the record
  have hin : ∀ {i}, i < n → a ≤ a + pageSize * i ∧
      a + pageSize * i + pageSize ≤ a + pageSize * n := by
    intro i hi
    have := Nat.mul_le_mul_left pageSize (Nat.succ_le_of_lt hi)
    rw [Nat.mul_succ] at this
    omega
  have hpos := FrameManager.pageSize_pos
  refine ⟨?_, ?_, ?_⟩
  · intro e w p hw
    rcases hmap hw with hw | ⟨-, i, -, -, rfl⟩
    · exact h.aligned hw
    · rw [Nat.add_mul_mod_self_left, ha]
  · intro e w p hw
    rcases hmap hw with hw | ⟨rfl, i, hi, -, rfl⟩
    · exact h.inside hw
    · exact ⟨_, hm, hin hi⟩
  · intro e e' w v p hw hv
    rcases hmap hw with hw | ⟨rfl, i, hi, hwi, rfl⟩
    · rcases hmap hv with hv | ⟨-, i, hi, -, rfl⟩
      · exact h.exclusive hw hv
      · have := hin hi
        exact absurd ⟨this.1, by omega⟩ (hvac hw)
    · rcases hmap hv with hv | ⟨rfl, j, hj, hvj, heq⟩
      · have := hin hi
        exact absurd ⟨this.1, by omega⟩ (hvac hv)
      · have hij : i = j := Nat.eq_of_mul_eq_mul_left hpos (Nat.add_left_cancel heq)
        subst hij
        exact ⟨rfl, hR hwi hvj⟩

/-- A record that nothing is mapped to any more is given up. -/
lemma revoke (h : Tenancy lists map)
    (hmap : ∀ {e w p}, map' e w = some p → map e w = some p)
    (hgone : ∀ {w p m}, map' d w = some p → m ∈ lists d → m.pAddr = a →
      ¬ Within a m.numPages p) :
    Tenancy (Function.update lists d ((lists d).eraseP fun m => m.pAddr = a)) map' where
  aligned hw := h.aligned (hmap hw)
  inside {e w p} hw := by
    obtain ⟨m, hm, hp⟩ := h.inside (hmap hw)
    by_cases he : e = d
    · subst he
      have hne : m.pAddr ≠ a := by
        rintro rfl
        exact hgone hw hm rfl hp
      rw [Function.update_self]
      exact ⟨m, (List.mem_eraseP_of_neg (by simpa using hne)).mpr hm, hp⟩
    · rw [Function.update_of_ne he]
      exact ⟨m, hm, hp⟩
  exclusive hw hv := h.exclusive (hmap hw) (hmap hv)

/-- All records of a directory that maps nothing any more are given up. -/
lemma clear (h : Tenancy lists map) (hmap : ∀ {e w p}, map' e w = some p → map e w = some p)
    (hgone : ∀ w, map' d w = none) : Tenancy (Function.update lists d []) map' where
  aligned hw := h.aligned (hmap hw)
  inside {e w p} hw := by
    have he : e ≠ d := by
      rintro rfl
      simp [hgone] at hw
    rw [Function.update_of_ne he]
    exact h.inside (hmap hw)
  exclusive hw hv := h.exclusive (hmap hw) (hmap hv)

/-- The records of a directory as intervals of pages. -/
def pages (l : List FrameMetadata) : List (ℕ × ℕ) := l.map fun m => (m.pAddr / pageSize, m.numPages)

lemma pages_sum (l : List FrameMetadata) :
    ((pages l).map Prod.snd).sum = (l.map FrameMetadata.numPages).sum := by
  rw [pages, List.map_map]
  rfl

/-- **A directory has no more mapped pages than its records say.** -/
theorem count_le (h : Tenancy lists map) (hb : Balanced extent lists) (hap : Apart extent)
    (d N : ℕ) : Nat.count (fun w => (map d w).isSome = true) N ≤
      ((lists d).map FrameMetadata.numPages).sum := by
  rw [← pages_sum]
  refine count_le_of_cover (fun w => (map d w).getD 0 / pageSize) ?_ ?_
  · intro w _ hw
    obtain ⟨p, hp⟩ := Option.isSome_iff_exists.mp hw
    obtain ⟨m, hm, h1, h2⟩ := h.inside hp
    obtain ⟨l, hl, -⟩ := hb.recorded hm
    have hal := hap.aligned hl
    have hpal := h.aligned hp
    refine ⟨_, List.mem_map_of_mem hm, ?_⟩
    simp only [hp, Option.getD_some, pageSize] at *
    omega
  · intro w _ v _ hw hv heq
    obtain ⟨p, hp⟩ := Option.isSome_iff_exists.mp hw
    obtain ⟨q, hq⟩ := Option.isSome_iff_exists.mp hv
    have hpal := h.aligned hp
    have hqal := h.aligned hq
    simp only [hp, hq, Option.getD_some] at heq
    have hpq : p = q := by
      simp only [pageSize] at *
      omega
    subst hpq
    exact (h.exclusive hp hq).2

end Tenancy

/-- The records of a directory say no more pages than there are. -/
lemma Balanced.sum_le {extent : ℕ → Option ℕ} {lists : ℕ → List FrameMetadata}
    (hb : Balanced extent lists) (hap : Apart extent) (d : ℕ) :
    ((lists d).map FrameMetadata.numPages).sum ≤ 2 ^ 20 := by
  rw [← Tenancy.pages_sum]
  refine sum_le_of_pairwise ?_ ?_
  · rw [Tenancy.pages, List.pairwise_map]
    have hnd := hb.nodup d
    rw [List.Nodup, List.pairwise_map] at hnd
    refine hnd.imp_of_mem fun {m m'} hm hm' hne x h1 h2 ⟨h3, h4⟩ => ?_
    obtain ⟨l, hl, -, hle⟩ := hb.recorded hm
    obtain ⟨l', hl', -, hle'⟩ := hb.recorded hm'
    have hal := hap.aligned hl
    have hal' := hap.aligned hl'
    refine hne (hap.disjoint (x := pageSize * x) hl hl' ?_ ?_ ?_ ?_)
    all_goals simp only [pageSize] at *; omega
  · intro b hmem
    rw [Tenancy.pages, List.mem_map] at hmem
    obtain ⟨m, hm, rfl⟩ := hmem
    obtain ⟨l, hl, -, hle⟩ := hb.recorded hm
    have hend := hap.le hl
    have hal := hap.aligned hl
    simp only [pageSize] at *
    omega

end ShrekOS
