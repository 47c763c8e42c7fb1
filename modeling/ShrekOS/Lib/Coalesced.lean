/-
Coalesced buddy systems, and the blocks that halving gives.

* `CoalescedBut`, `Coalesced`: no two halves of one block are both free, apart from the halves
  of one handle; the moves of a buddy system keep it (`CoalescedBut.split`, `CoalescedBut.take`,
  `Coalesced.release`, `Coalesced.merge`);
* `Cut`: the blocks one gets by halving a set of blocks zero or more times;
* `Forest.cut_of_block`, `Forest.exists_above_cut`: a block is one that halving the roots gives,
  and each of those is a block or lies in a leaf;
* `Forest.free_of_unused`: in a coalesced buddy system a block with nothing used in it is free;
* `Forest.exists_free_iff`: **completeness**: a free block of an order or above is there just when
  halving gives an unused one of that order;
* `Forest.eq_root_of_unused`: **no fragmentation**: when nothing is used, only the roots are left.
-/
import ShrekOS.Lib.Buddy

namespace Kit.Buddy

variable {P : Type}

/-- No two halves of one block are both free, unless one of them is `x`. -/
def CoalescedBut (B : P → Option (Block P)) (x : P) : Prop :=
  ∀ ⦃p q b c⦄, B p = some b → B q = some c → b.mate = some q → p ≠ x → q ≠ x →
    b.st = .free → c.st ≠ .free

/-- **Coalesced**: no two halves of one block are both free. -/
def Coalesced (B : P → Option (Block P)) : Prop :=
  ∀ ⦃p q b c⦄, B p = some b → B q = some c → b.mate = some q → b.st = .free → c.st ≠ .free

/-- The roots: the blocks that are not half of another one. -/
def Root (B : P → Option (Block P)) (lo ord : ℕ) : Prop :=
  ∃ p b, B p = some b ∧ b.up = none ∧ b.lo = lo ∧ b.ord = ord

/-- What one gets by halving the blocks of `R` zero or more times. -/
inductive Cut (unit : ℕ) (R : ℕ → ℕ → Prop) : ℕ → ℕ → Prop
  | whole {lo k : ℕ} : R lo k → Cut unit R lo k
  | left {lo k : ℕ} : Cut unit R lo (k + 1) → Cut unit R lo k
  | right {lo k : ℕ} : Cut unit R lo (k + 1) → Cut unit R (lo + unit * 2 ^ k) k

/-- No used block has the address `x`. -/
def Unused (unit : ℕ) (B : P → Option (Block P)) (x : ℕ) : Prop :=
  ∀ ⦃p b⦄, B p = some b → b.st = .used → ¬ (b.lo ≤ x ∧ x < b.hi unit)

/-- A half at the lowest address, after some halvings. -/
lemma Cut.lower {unit : ℕ} {R : ℕ → ℕ → Prop} {lo k : ℕ} : ∀ {n : ℕ},
    Cut unit R lo (k + n) → Cut unit R lo k := by
  intro n
  induction n with
  | zero => exact fun h => h
  | succ n ih => exact fun h => ih h.left

/-! ### The moves -/

lemma Coalesced.but {B : P → Option (Block P)} (h : Coalesced B) (x : P) : CoalescedBut B x :=
  fun _ _ _ _ hp hq hm _ _ hb => h hp hq hm hb

section Moves

variable {unit base lim top : ℕ} {B B' : P → Option (Block P)} {p : P} {b : Block P}

/-- Nothing is left to coalesce when the excepted block is used. -/
lemma CoalescedBut.take {c : Block P} (h : CoalescedBut B p) (hp' : B' p = some c)
    (hc : c.st ≠ .free) (hB' : ∀ z, z ≠ p → B' z = B z) : Coalesced B' := by
  intro u v d e hu hv hm hd
  by_cases hup : u = p
  · subst hup
    exact absurd (Option.some.inj (hp'.symm.trans hu) ▸ hd) hc
  by_cases hvp : v = p
  · subst hvp
    rwa [← Option.some.inj (hp'.symm.trans hv)]
  rw [hB' u hup] at hu
  rw [hB' v hvp] at hv
  exact h hu hv hm hup hvp hd

/-- A block whose mate is not free becomes free. -/
lemma Coalesced.release {c : Block P} (hf : Forest unit base lim top B) (h : Coalesced B)
    (hp : B p = some b) (hp' : B' p = some c) (hm : c.mate = b.mate)
    (hno : ∀ {q d}, b.mate = some q → B q = some d → d.st ≠ .free)
    (hB' : ∀ z, z ≠ p → B' z = B z) : Coalesced B' := by
  intro u v d e hu hv huv hd
  by_cases hup : u = p
  · subst hup
    obtain rfl := Option.some.inj (hp'.symm.trans hu)
    rw [hm] at huv
    obtain ⟨-, -, -, -, -, -, -, hne, -⟩ := hf.siblings hp huv
    exact hno huv (hB' v hne ▸ hv)
  by_cases hvp : v = p
  · -- the mate of `p` is `u`, which is not free
    subst hvp
    rw [hB' u hup] at hu
    obtain ⟨-, -, b', -, -, -, hb', -, -, hmate, -⟩ := hf.siblings hu huv
    obtain rfl := Option.some.inj (hp.symm.trans hb')
    exact absurd hd (hno hmate hu)
  rw [hB' u hup] at hu
  rw [hB' v hvp] at hv
  exact h hu hv huv hd

/-- A free block is split: only its halves can still be coalesced. -/
lemma CoalescedBut.split {l r : P} {bp br : Block P} (hf : Forest unit base lim top B)
    (h : CoalescedBut B p) (hr : B r = none) (hp' : B' p = some bp) (hbp : bp.st = .split)
    (hr' : B' r = some br) (hrm : br.mate = some l)
    (hB' : ∀ z, z ≠ p → z ≠ l → z ≠ r → B' z = B z) : CoalescedBut B' l := by
  intro u v d e hu hv huv hul hvl hd
  have hup : u ≠ p := by
    rintro rfl
    obtain rfl := Option.some.inj (hp'.symm.trans hu)
    simp [hbp] at hd
  by_cases hvp : v = p
  · subst hvp
    rw [← Option.some.inj (hp'.symm.trans hv), hbp]
    simp
  by_cases hur : u = r
  · subst hur
    obtain rfl := Option.some.inj (hr'.symm.trans hu)
    exact absurd (Option.some.inj (huv.symm.trans hrm)) hvl
  rw [hB' u hup hul hur] at hu
  obtain ⟨-, -, e', -, -, -, he', -⟩ := hf.siblings hu huv
  have hvr : v ≠ r := by
    rintro rfl
    simp [hr] at he'
  rw [hB' v hvp hvl hvr] at hv
  exact h hu hv huv hup hvp hd

/-- Two halves give way to their block, which is used. -/
lemma Coalesced.merge {q l r : P} {c : Block P} (h : Coalesced B) (hq' : B' q = some c)
    (hc : c.st ≠ .free) (hl' : B' l = none) (hr' : B' r = none)
    (hB' : ∀ z, z ≠ q → z ≠ l → z ≠ r → B' z = B z) : Coalesced B' := by
  have hold : ∀ {z d}, B' z = some d → d.st = .free → B z = some d := by
    intro z d hz hd
    have hzq : z ≠ q := by
      rintro rfl
      exact hc (Option.some.inj (hq'.symm.trans hz) ▸ hd)
    have hzl : z ≠ l := by rintro rfl; simp [hl'] at hz
    have hzr : z ≠ r := by rintro rfl; simp [hr'] at hz
    exact (hB' z hzq hzl hzr).symm.trans hz
  intro u v d e hu hv huv hd he
  exact h (hold hu hd) (hold hv he) huv hd he

end Moves

/-! ### What halving gives -/

namespace Forest

variable {unit base lim top : ℕ} {B : P → Option (Block P)} {p : P} {b : Block P}

/-- Every block is one that halving the roots gives. -/
lemma cut_of_block (h : Forest unit base lim top B) : ∀ (n : ℕ) {p : P} {b : Block P},
    B p = some b → top ≤ b.ord + n → Cut unit (Root B) b.lo b.ord := by
  intro n
  induction n with
  | zero =>
      intro p b hp hn
      have := h.ord_lt hp
      omega
  | succ n ih =>
      intro p b hp hn
      cases hup : b.up with
      | none => exact .whole ⟨p, b, hp, hup, rfl, rfl⟩
      | some q =>
          obtain ⟨c, hq, hc⟩ := h.up_split hp hup
          obtain ⟨l, r, bl, br, hh⟩ := h.halves hq hc
          have hl := hh.left_ord
          have hr := hh.right_ord
          have hcut := ih hq (by
            rcases hh.only p b hp hup with rfl | rfl
            · obtain rfl := Option.some.inj (hp.symm.trans hh.left)
              omega
            · obtain rfl := Option.some.inj (hp.symm.trans hh.right)
              omega)
          rcases hh.only p b hp hup with rfl | rfl
          · obtain rfl := Option.some.inj (hp.symm.trans hh.left)
            rw [hh.left_lo]
            exact (hl ▸ hcut).left
          · obtain rfl := Option.some.inj (hp.symm.trans hh.right)
            rw [hh.right_lo, show bl.ord = b.ord by omega]
            exact (hr ▸ hcut).right

/-- What halving the roots gives is a block, or lies in a leaf. -/
lemma exists_above_cut (h : Forest unit base lim top B) {lo k : ℕ}
    (hcut : Cut unit (Root B) lo k) :
    ∃ p b, B p = some b ∧ b.lo ≤ lo ∧ lo + unit * 2 ^ k ≤ b.hi unit ∧ k ≤ b.ord ∧
      (b.st = .split → b.lo = lo ∧ b.ord = k) := by
  induction hcut with
  | whole hroot =>
      obtain ⟨p, b, hp, -, rfl, rfl⟩ := hroot
      exact ⟨p, b, hp, le_rfl, le_rfl, le_rfl, fun _ => ⟨rfl, rfl⟩⟩
  | @left lo k _ ih =>
      obtain ⟨p, b, hp, hlo, hhi, hk, hsplit⟩ := ih
      have hpow : unit * 2 ^ (k + 1) = unit * 2 ^ k + unit * 2 ^ k := by ring
      by_cases hs : b.st = .split
      · obtain ⟨rfl, hord⟩ := hsplit hs
        obtain ⟨l, r, bl, br, hh⟩ := h.halves hp hs
        have hl := hh.left_ord
        refine ⟨l, bl, hh.left, hh.left_lo.le, ?_, by omega, fun _ => ⟨hh.left_lo, by omega⟩⟩
        rw [Block.hi, hh.left_lo, show bl.ord = k by omega]
      · exact ⟨p, b, hp, hlo, by omega, by omega, fun h' => absurd h' hs⟩
  | @right lo k _ ih =>
      obtain ⟨p, b, hp, hlo, hhi, hk, hsplit⟩ := ih
      have hpow : unit * 2 ^ (k + 1) = unit * 2 ^ k + unit * 2 ^ k := by ring
      by_cases hs : b.st = .split
      · obtain ⟨rfl, hord⟩ := hsplit hs
        obtain ⟨l, r, bl, br, hh⟩ := h.halves hp hs
        have hl := hh.left_ord
        have hr := hh.right_ord
        have hrlo := hh.right_lo
        rw [show bl.ord = k by omega] at hrlo
        refine ⟨r, br, hh.right, hrlo.le, ?_, by omega, fun _ => ⟨hrlo, by omega⟩⟩
        rw [Block.hi, hrlo, show br.ord = k by omega]
      · exact ⟨p, b, hp, by omega, by omega, by omega, fun h' => absurd h' hs⟩

/-- **In a coalesced buddy system a block with nothing used in it is free.** -/
theorem free_of_unused (hu : 0 < unit) (h : Forest unit base lim top B) (hc : Coalesced B) :
    ∀ (k : ℕ) {p : P} {b : Block P}, B p = some b → b.ord = k →
      (∀ x, b.lo ≤ x → x < b.hi unit → Unused unit B x) → b.st = .free := by
  intro k
  induction k using Nat.strong_induction_on with
  | _ k ih =>
    intro p b hp hk hun
    cases hst : b.st with
    | free => rfl
    | used => exact absurd ⟨le_rfl, lo_lt_hi hu b⟩ (hun b.lo le_rfl (lo_lt_hi hu b) hp hst)
    | split =>
        -- both halves would be free
        obtain ⟨l, r, bl, br, hh⟩ := h.halves hp hst
        have hl := hh.left_ord
        have hr := hh.right_ord
        have hord : br.ord = bl.ord := by omega
        have hhi : b.hi unit = b.lo + (unit * 2 ^ bl.ord + unit * 2 ^ bl.ord) := by
          rw [Block.hi, ← hl, pow_succ]
          ring
        have hlhi : bl.hi unit = b.lo + unit * 2 ^ bl.ord := by rw [Block.hi, hh.left_lo]
        have hrhi : br.hi unit = b.lo + unit * 2 ^ bl.ord + unit * 2 ^ bl.ord := by
          rw [Block.hi, hh.right_lo, hord]
        have hleft : bl.st = .free := ih bl.ord (by omega) hh.left rfl fun x h1 h2 =>
          hun x (by rw [← hh.left_lo]; exact h1) (by omega)
        have hright : br.st = .free := ih br.ord (by omega) hh.right rfl fun x h1 h2 =>
          hun x (by rw [hh.right_lo] at h1; omega) (by omega)
        exact absurd hright (hc hh.left hh.right hh.left_mate hleft)

/-- No address of a free block is used. -/
lemma unused_of_free (h : Forest unit base lim top B) (hp : B p = some b) (hst : b.st = .free)
    {x : ℕ} (h1 : b.lo ≤ x) (h2 : x < b.hi unit) : Unused unit B x := by
  intro q c hq hc hx
  obtain rfl : p = q := h.leaf_unique hp hq (by simp [hst]) (by simp [hc]) ⟨h1, h2⟩ hx
  obtain rfl := Option.some.inj (hp.symm.trans hq)
  simp [hst] at hc

/-- **Completeness**: there is a free block of order `k` or above just when halving the roots
gives a block of order `k` of which no address is used. -/
theorem exists_free_iff (hu : 0 < unit) (h : Forest unit base lim top B) (hc : Coalesced B)
    (k : ℕ) :
    (∃ p b, B p = some b ∧ b.st = .free ∧ k ≤ b.ord) ↔
      ∃ lo, Cut unit (Root B) lo k ∧ ∀ x, lo ≤ x → x < lo + unit * 2 ^ k → Unused unit B x := by
  constructor
  · rintro ⟨p, b, hp, hst, hk⟩
    obtain ⟨n, hn⟩ := Nat.exists_eq_add_of_le hk
    have hcut := h.cut_of_block top hp (Nat.le_add_left _ _)
    rw [hn] at hcut
    refine ⟨b.lo, hcut.lower, fun x h1 h2 => h.unused_of_free hp hst h1 ?_⟩
    have hpow : unit * 2 ^ k ≤ unit * 2 ^ b.ord :=
      Nat.mul_le_mul_left _ (Nat.pow_le_pow_right two_pos hk)
    rw [Block.hi]
    omega
  · rintro ⟨lo, hcut, hun⟩
    obtain ⟨p, b, hp, hlo, hhi, hk, hsplit⟩ := h.exists_above_cut hcut
    refine ⟨p, b, hp, ?_, hk⟩
    have hpos : 0 < unit * 2 ^ k := by positivity
    cases hst : b.st with
    | free => rfl
    | used => exact absurd ⟨hlo, by omega⟩ (hun lo le_rfl (by omega) hp hst)
    | split =>
        obtain ⟨rfl, rfl⟩ := hsplit hst
        rw [← hst]
        exact h.free_of_unused hu hc _ hp rfl hun

/-- **No fragmentation**: when no block is used, every block is a free root. -/
theorem eq_root_of_unused (hu : 0 < unit) (h : Forest unit base lim top B) (hc : Coalesced B)
    (hun : ∀ {q c}, B q = some c → c.st ≠ .used) (hp : B p = some b) :
    b.st = .free ∧ b.up = none := by
  have hfree : ∀ {q c}, B q = some c → c.st = .free := fun {q c} hq =>
    h.free_of_unused hu hc _ hq rfl fun x _ _ _ _ hq' hst => absurd hst (hun hq')
  refine ⟨hfree hp, ?_⟩
  cases hup : b.up with
  | none => rfl
  | some q =>
      obtain ⟨c, hq, hsp⟩ := h.up_split hp hup
      rw [hfree hq] at hsp
      exact absurd hsp (by simp)

end Forest

end Kit.Buddy
