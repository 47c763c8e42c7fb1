/-
Binary buddy systems over an arbitrary set of handles.

A buddy system is a partial map from handles to blocks. A block covers
`unit * 2 ^ ord` addresses from its lowest one; it is a leaf (used or free), or
it is split and then has two halves, which name it and each other.

* `Forest`: the invariant of a buddy system that manages an interval: the leaves
  partition the interval and the split blocks are exactly the ones with halves;
* `Forest.exists_leaf`, `Forest.unique`: below every block a leaf begins at its
  lowest address, so a block is determined by its lowest address and its order;
* `Forest.recolor`, `Forest.split`, `Forest.merge`, `Forest.grow`: **the moves**
  of a buddy system keep the invariant: changing a leaf between used and free,
  splitting a leaf, merging two leaves that are halves of one block, and taking
  a new block at the end of the interval.
-/
import Mathlib.Tactic

namespace Kit.Buddy

/-- What a block is: a leaf that is used or free, or a split block. -/
inductive State where
  | used
  | free
  | split
  deriving DecidableEq

/-- A block: its lowest address, its order, what it is, the other half of the
block it came from, and that block. -/
structure Block (P : Type) where
  lo : ℕ
  ord : ℕ
  st : State
  mate : Option P
  up : Option P

/-- Where a block ends, for blocks of `unit * 2 ^ ord` addresses. -/
def Block.hi {P : Type} (unit : ℕ) (b : Block P) : ℕ := b.lo + unit * 2 ^ b.ord

variable {P : Type}

/-- The halves of a split block `b` with handle `p`. -/
structure Halves (unit : ℕ) (B : P → Option (Block P)) (p : P) (b : Block P)
    (l r : P) (bl br : Block P) : Prop where
  left : B l = some bl
  right : B r = some br
  ne : l ≠ r
  left_up : bl.up = some p
  right_up : br.up = some p
  left_mate : bl.mate = some r
  right_mate : br.mate = some l
  left_ord : bl.ord + 1 = b.ord
  right_ord : br.ord + 1 = b.ord
  left_lo : bl.lo = b.lo
  right_lo : br.lo = b.lo + unit * 2 ^ bl.ord
  only : ∀ q c, B q = some c → c.up = some p → q = l ∨ q = r

/-- **The invariant of a buddy system** with blocks of orders below `top` that
manages the interval from `base` to `lim`. -/
structure Forest (unit base lim top : ℕ) (B : P → Option (Block P)) : Prop where
  ord_lt : ∀ {p b}, B p = some b → b.ord < top
  aligned : ∀ {p b}, B p = some b → unit ∣ b.lo
  base_le : ∀ {p b}, B p = some b → base ≤ b.lo
  hi_le : ∀ {p b}, B p = some b → b.hi unit ≤ lim
  cover : ∀ x, base ≤ x → x < lim →
    ∃ p b, B p = some b ∧ b.st ≠ .split ∧ b.lo ≤ x ∧ x < b.hi unit
  disjoint : ∀ {p q b c}, B p = some b → B q = some c → b.st ≠ .split → c.st ≠ .split →
    p ≠ q → b.hi unit ≤ c.lo ∨ c.hi unit ≤ b.lo
  halves : ∀ {p b}, B p = some b → b.st = .split → ∃ l r bl br, Halves unit B p b l r bl br
  up_split : ∀ {p b q}, B p = some b → b.up = some q → ∃ c, B q = some c ∧ c.st = .split
  root : ∀ {p b}, B p = some b → b.up = none → b.mate = none

namespace Forest

variable {unit base lim top : ℕ} {B : P → Option (Block P)}

lemma lo_lt_hi (hu : 0 < unit) (b : Block P) : b.lo < b.hi unit := by
  have : 0 < unit * 2 ^ b.ord := by positivity
  rw [Block.hi]
  omega

/-- Two leaves that share an address are one. -/
lemma leaf_unique (h : Forest unit base lim top B) {p q : P} {b c : Block P} {x : ℕ}
    (hp : B p = some b) (hq : B q = some c) (hb : b.st ≠ .split) (hc : c.st ≠ .split)
    (hxb : b.lo ≤ x ∧ x < b.hi unit) (hxc : c.lo ≤ x ∧ x < c.hi unit) : p = q := by
  by_contra hne
  rcases h.disjoint hp hq hb hc hne with hd | hd <;> omega

/-- Below every block a leaf begins at its lowest address; below a split block
it is of a lower order. -/
lemma exists_leaf (h : Forest unit base lim top B) : ∀ (k : ℕ) {p : P} {b : Block P},
    B p = some b → b.ord = k →
    ∃ q c, B q = some c ∧ c.st ≠ .split ∧ c.lo = b.lo ∧ c.ord ≤ b.ord
      ∧ (b.st = .split → c.ord < b.ord) := by
  intro k
  induction k with
  | zero =>
      intro p b hp hk
      refine ⟨p, b, hp, fun hs => ?_, rfl, le_rfl, fun hs => ?_⟩ <;>
      · obtain ⟨l, r, bl, br, hh⟩ := h.halves hp hs
        have := hh.left_ord
        omega
  | succ k ih =>
      intro p b hp hk
      by_cases hs : b.st = .split
      · obtain ⟨l, r, bl, br, hh⟩ := h.halves hp hs
        have hord := hh.left_ord
        obtain ⟨q, c, hq, hc, hlo, hle, -⟩ := ih hh.left (by omega)
        exact ⟨q, c, hq, hc, hlo.trans hh.left_lo, by omega, fun _ => by omega⟩
      · exact ⟨p, b, hp, hs, rfl, le_rfl, fun h' => absurd h' hs⟩

/-- A leaf is the only block with its lowest address and its order. -/
lemma leaf_eq (hu : 0 < unit) (h : Forest unit base lim top B) {p q : P} {b c : Block P}
    (hp : B p = some b) (hq : B q = some c) (hb : b.st ≠ .split) (hlo : b.lo = c.lo)
    (hord : b.ord = c.ord) : p = q := by
  obtain ⟨q', c', hq', hc', hlo', hle, hlt⟩ := h.exists_leaf _ hq rfl
  have hx := lo_lt_hi hu b
  have hx' := lo_lt_hi hu c'
  have heq : p = q' := h.leaf_unique (x := b.lo) hp hq' hb hc' ⟨le_rfl, hx⟩ (by omega)
  subst heq
  obtain rfl : b = c' := Option.some.inj (hp.symm.trans hq')
  by_cases hc : c.st = .split
  · have := hlt hc
    omega
  · exact h.leaf_unique (x := b.lo) hp hq hb hc ⟨le_rfl, hx⟩
      (by have := lo_lt_hi hu c; omega)

/-- **A block is determined by its lowest address and its order.** -/
theorem unique (hu : 0 < unit) (h : Forest unit base lim top B) : ∀ (k : ℕ) {p q : P}
    {b c : Block P}, B p = some b → B q = some c → b.ord = k → b.lo = c.lo → b.ord = c.ord →
    p = q := by
  intro k
  induction k with
  | zero =>
      intro p q b c hp hq hk hlo hord
      refine h.leaf_eq hu hp hq (fun hs => ?_) hlo hord
      obtain ⟨l, r, bl, br, hh⟩ := h.halves hp hs
      have := hh.left_ord
      omega
  | succ k ih =>
      intro p q b c hp hq hk hlo hord
      by_cases hb : b.st = .split
      · by_cases hc : c.st = .split
        · -- both are split: their left halves agree, and so do the blocks these name
          obtain ⟨l, r, bl, br, hh⟩ := h.halves hp hb
          obtain ⟨l', r', bl', br', hh'⟩ := h.halves hq hc
          have h1 := hh.left_ord
          have h2 := hh'.left_ord
          have hll : l = l' := ih hh.left hh'.left (by omega)
            (by rw [hh.left_lo, hh'.left_lo, hlo]) (by omega)
          subst hll
          obtain rfl : bl = bl' := Option.some.inj (hh.left.symm.trans hh'.left)
          exact Option.some.inj (hh.left_up.symm.trans hh'.left_up)
        · exact (h.leaf_eq hu hq hp hc hlo.symm hord.symm).symm
      · exact h.leaf_eq hu hp hq hb hlo hord

/-- The two halves of a block, read from one of them. -/
lemma siblings (h : Forest unit base lim top B) {x : P} {b : Block P} {y : P}
    (hx : B x = some b) (hm : b.mate = some y) :
    ∃ q c cy, b.up = some q ∧ B q = some c ∧ c.st = .split ∧ B y = some cy ∧ y ≠ x ∧
      cy.up = some q ∧ cy.mate = some x ∧ cy.ord = b.ord ∧ b.ord + 1 = c.ord ∧
      ((Halves unit B q c x y b cy) ∨ (Halves unit B q c y x cy b)) := by
  cases hup : b.up with
  | none => exact absurd (h.root hx hup) (by simp [hm])
  | some q =>
      obtain ⟨c, hq, hc⟩ := h.up_split hx hup
      obtain ⟨l, r, bl, br, hh⟩ := h.halves hq hc
      have h1 := hh.left_ord
      have h2 := hh.right_ord
      rcases hh.only x b hx hup with rfl | rfl
      · obtain rfl : b = bl := Option.some.inj (hx.symm.trans hh.left)
        obtain rfl : y = r := Option.some.inj (hm.symm.trans hh.left_mate)
        exact ⟨q, c, br, rfl, hq, hc, hh.right, hh.ne.symm, hh.right_up, hh.right_mate,
          by omega, h1, .inl hh⟩
      · obtain rfl : b = br := Option.some.inj (hx.symm.trans hh.right)
        obtain rfl : y = l := Option.some.inj (hm.symm.trans hh.right_mate)
        exact ⟨q, c, bl, rfl, hq, hc, hh.left, hh.ne, hh.left_up, hh.left_mate,
          by omega, h2, .inr hh⟩

/-! ### The moves -/

/-- Managing nothing. -/
lemma empty : Forest unit base base top (fun _ : P => none) :=
  ⟨by simp, by simp, by simp, by simp, fun _ _ _ => by omega, by simp, by simp, by simp, by simp⟩

/-- **Growing**: a new leaf, half of nothing, takes the addresses from `lim` on. -/
theorem grow (hu : 0 < unit) {B' : P → Option (Block P)} {p : P} {k : ℕ} (st : State)
    (h : Forest unit base lim top B) (hbase : base ≤ lim) (hal : unit ∣ lim) (hk : k < top)
    (hst : st ≠ .split) (hp : B p = none) (hp' : B' p = some ⟨lim, k, st, none, none⟩)
    (hB' : ∀ z, z ≠ p → B' z = B z) : Forest unit base (lim + unit * 2 ^ k) top B' := by
  -- what a block of the new forest is, and that the old ones stay
  have hof : ∀ {z c}, B' z = some c →
      (z = p ∧ c = ⟨lim, k, st, none, none⟩) ∨ (z ≠ p ∧ B z = some c) := by
    intro z c hz
    by_cases h1 : z = p
    · exact .inl ⟨h1, Option.some.inj ((h1 ▸ hz).symm.trans hp')⟩
    · exact .inr ⟨h1, (hB' z h1).symm.trans hz⟩
  have hold : ∀ {z c}, B z = some c → z ≠ p ∧ B' z = some c := by
    intro z c hz
    have h1 : z ≠ p := by rintro rfl; simp [hp] at hz
    exact ⟨h1, (hB' z h1).trans hz⟩
  have hpos : 0 < unit * 2 ^ k := by positivity
  refine ⟨?_, ?_, ?_, ?_, ?_, ?_, ?_, ?_, ?_⟩
  · intro z c hz
    rcases hof hz with ⟨-, rfl⟩ | ⟨-, hz⟩
    · exact hk
    · exact h.ord_lt hz
  · intro z c hz
    rcases hof hz with ⟨-, rfl⟩ | ⟨-, hz⟩
    · exact hal
    · exact h.aligned hz
  · intro z c hz
    rcases hof hz with ⟨-, rfl⟩ | ⟨-, hz⟩
    · exact hbase
    · exact h.base_le hz
  · intro z c hz
    rcases hof hz with ⟨-, rfl⟩ | ⟨-, hz⟩
    · exact le_rfl
    · exact (h.hi_le hz).trans (Nat.le_add_right _ _)
  -- an address is below the old limit or in the new block
  · intro x hx hx'
    by_cases hxl : x < lim
    · obtain ⟨z, c, hz, hc, hlo, hhi⟩ := h.cover x hx hxl
      exact ⟨z, c, (hold hz).2, hc, hlo, hhi⟩
    · exact ⟨p, _, hp', hst, by dsimp only; omega, hx'⟩
  -- the old blocks end at the old limit, where the new one begins
  · intro z w c d hz hw hc hd hne
    rcases hof hz with ⟨rfl, rfl⟩ | ⟨-, hz⟩
    · rcases hof hw with ⟨rfl, rfl⟩ | ⟨-, hw⟩
      · exact absurd rfl hne
      · exact .inr (h.hi_le hw)
    · rcases hof hw with ⟨rfl, rfl⟩ | ⟨-, hw⟩
      · exact .inl (h.hi_le hz)
      · exact h.disjoint hz hw hc hd hne
  · intro z c hz hc
    rcases hof hz with ⟨-, rfl⟩ | ⟨-, hz⟩
    · exact absurd hc hst
    · obtain ⟨l, r, bl, br, hh⟩ := h.halves hz hc
      -- the new block is nobody's half
      refine ⟨l, r, bl, br,
        { hh with left := (hold hh.left).2, right := (hold hh.right).2, only := ?_ }⟩
      intro w d hw hup
      rcases hof hw with ⟨-, rfl⟩ | ⟨-, hw⟩
      · simp at hup
      · exact hh.only w d hw hup
  · intro z c q hz hup
    rcases hof hz with ⟨-, rfl⟩ | ⟨-, hz⟩
    · simp at hup
    · obtain ⟨d, hd, hds⟩ := h.up_split hz hup
      exact ⟨d, (hold hd).2, hds⟩
  · intro z c hz hup
    rcases hof hz with ⟨-, rfl⟩ | ⟨-, hz⟩
    · rfl
    · exact h.root hz hup

/-- The same block up to its being used or free. -/
structure SameShape (b c : Block P) : Prop where
  lo : c.lo = b.lo
  ord : c.ord = b.ord
  mate : c.mate = b.mate
  up : c.up = b.up
  split_iff : c.st = .split ↔ b.st = .split

lemma SameShape.refl (b : Block P) : SameShape b b := ⟨rfl, rfl, rfl, rfl, Iff.rfl⟩

lemma SameShape.hi {b c : Block P} (h : SameShape b c) : c.hi unit = b.hi unit := by
  rw [Block.hi, Block.hi, h.lo, h.ord]

/-- A forest stays one when its blocks keep their shapes. -/
lemma of_sameShape {B' : P → Option (Block P)} (h : Forest unit base lim top B)
    (hto : ∀ {p b}, B p = some b → ∃ c, B' p = some c ∧ SameShape b c)
    (hof : ∀ {p c}, B' p = some c → ∃ b, B p = some b ∧ SameShape b c) :
    Forest unit base lim top B' where
  ord_lt hp := by
    obtain ⟨b, hb, hs⟩ := hof hp
    exact hs.ord ▸ h.ord_lt hb
  aligned hp := by
    obtain ⟨b, hb, hs⟩ := hof hp
    exact hs.lo ▸ h.aligned hb
  base_le hp := by
    obtain ⟨b, hb, hs⟩ := hof hp
    exact hs.lo ▸ h.base_le hb
  hi_le hp := by
    obtain ⟨b, hb, hs⟩ := hof hp
    exact hs.hi ▸ h.hi_le hb
  cover x hx hx' := by
    obtain ⟨p, b, hb, hl, hlo, hhi⟩ := h.cover x hx hx'
    obtain ⟨c, hc, hs⟩ := hto hb
    exact ⟨p, c, hc, by rwa [ne_eq, hs.split_iff], hs.lo ▸ hlo, hs.hi ▸ hhi⟩
  disjoint hp hq hb hc hne := by
    obtain ⟨b, hb', hs⟩ := hof hp
    obtain ⟨c, hc', hs'⟩ := hof hq
    rw [ne_eq, hs.split_iff] at hb
    rw [ne_eq, hs'.split_iff] at hc
    rw [hs.hi, hs'.hi, hs.lo, hs'.lo]
    exact h.disjoint hb' hc' hb hc hne
  halves hp hsp := by
    obtain ⟨b, hb, hs⟩ := hof hp
    obtain ⟨l, r, bl, br, hh⟩ := h.halves hb (hs.split_iff.mp hsp)
    obtain ⟨cl, hcl, hsl⟩ := hto hh.left
    obtain ⟨cr, hcr, hsr⟩ := hto hh.right
    exact ⟨l, r, cl, cr,
      { left := hcl, right := hcr, ne := hh.ne
        left_up := hsl.up.trans hh.left_up, right_up := hsr.up.trans hh.right_up
        left_mate := hsl.mate.trans hh.left_mate, right_mate := hsr.mate.trans hh.right_mate
        left_ord := by rw [hsl.ord, hs.ord, hh.left_ord]
        right_ord := by rw [hsr.ord, hs.ord, hh.right_ord]
        left_lo := by rw [hsl.lo, hs.lo, hh.left_lo]
        right_lo := by rw [hsr.lo, hs.lo, hsl.ord, hh.right_lo]
        only := by
          intro q c hc hup
          obtain ⟨d, hd, hsd⟩ := hof hc
          exact hh.only q d hd (hsd.up ▸ hup) }⟩
  up_split hp hup := by
    obtain ⟨b, hb, hs⟩ := hof hp
    obtain ⟨c, hc, hsp⟩ := h.up_split hb (hs.up ▸ hup)
    obtain ⟨d, hd, hsd⟩ := hto hc
    exact ⟨d, hd, hsd.split_iff.mpr hsp⟩
  root hp hup := by
    obtain ⟨b, hb, hs⟩ := hof hp
    exact hs.mate.trans (h.root hb (hs.up ▸ hup))

/-- **Recolouring**: a leaf becomes used or free. -/
theorem recolor {B' : P → Option (Block P)} {p : P} {b c : Block P}
    (h : Forest unit base lim top B) (hp : B p = some b) (hp' : B' p = some c)
    (hs : SameShape b c) (hB' : ∀ z, z ≠ p → B' z = B z) : Forest unit base lim top B' := by
  refine h.of_sameShape (fun {z d} hz => ?_) (fun {z d} hz => ?_)
  · by_cases hzp : z = p
    · subst hzp
      exact ⟨c, hp', Option.some.inj (hp.symm.trans hz) ▸ hs⟩
    · exact ⟨d, (hB' z hzp).trans hz, .refl d⟩
  · by_cases hzp : z = p
    · subst hzp
      exact ⟨b, hp, Option.some.inj (hp'.symm.trans hz) ▸ hs⟩
    · exact ⟨d, (hB' z hzp).symm.trans hz, .refl d⟩

/-- **Splitting**: a leaf of a positive order gets two new leaves as halves. -/
theorem split {B' : P → Option (Block P)} {p l r : P} {b : Block P} {k : ℕ} (st : State)
    (h : Forest unit base lim top B) (hp : B p = some b) (hleaf : b.st ≠ .split)
    (hk : b.ord = k + 1) (hl : B l = none) (hr : B r = none) (hlr : l ≠ r) (hst : st ≠ .split)
    (hp' : B' p = some { b with st := .split })
    (hl' : B' l = some ⟨b.lo, k, st, some r, some p⟩)
    (hr' : B' r = some ⟨b.lo + unit * 2 ^ k, k, st, some l, some p⟩)
    (hB' : ∀ z, z ≠ p → z ≠ l → z ≠ r → B' z = B z) : Forest unit base lim top B' := by
  have hlp : l ≠ p := by rintro rfl; simp [hl] at hp
  have hrp : r ≠ p := by rintro rfl; simp [hr] at hp
  have hhi : b.hi unit = b.lo + (unit * 2 ^ k + unit * 2 ^ k) := by
    rw [Block.hi, hk, pow_succ]; ring
  -- what a block of the new forest is
  have hof : ∀ {z c}, B' z = some c → (z = p ∧ c = { b with st := .split }) ∨
      (z = l ∧ c = ⟨b.lo, k, st, some r, some p⟩) ∨
      (z = r ∧ c = ⟨b.lo + unit * 2 ^ k, k, st, some l, some p⟩) ∨
      (z ≠ p ∧ z ≠ l ∧ z ≠ r ∧ B z = some c) := by
    intro z c hz
    by_cases h1 : z = p
    · exact .inl ⟨h1, Option.some.inj ((h1 ▸ hz).symm.trans hp')⟩
    by_cases h2 : z = l
    · exact .inr (.inl ⟨h2, Option.some.inj ((h2 ▸ hz).symm.trans hl')⟩)
    by_cases h3 : z = r
    · exact .inr (.inr (.inl ⟨h3, Option.some.inj ((h3 ▸ hz).symm.trans hr')⟩))
    · exact .inr (.inr (.inr ⟨h1, h2, h3, (hB' z h1 h2 h3).symm.trans hz⟩))
  -- the blocks other than `p` are as they were
  have hold : ∀ {z c}, B z = some c → z ≠ p → z ≠ l ∧ z ≠ r ∧ B' z = some c := by
    intro z c hz h1
    have h2 : z ≠ l := by rintro rfl; simp [hl] at hz
    have h3 : z ≠ r := by rintro rfl; simp [hr] at hz
    exact ⟨h2, h3, (hB' z h1 h2 h3).trans hz⟩
  have hlt := h.ord_lt hp
  have hal := h.aligned hp
  have hba := h.base_le hp
  have hli := h.hi_le hp
  refine ⟨?_, ?_, ?_, ?_, ?_, ?_, ?_, ?_, ?_⟩
  · intro z c hz
    rcases hof hz with ⟨-, rfl⟩ | ⟨-, rfl⟩ | ⟨-, rfl⟩ | ⟨-, -, -, hz⟩
    · exact hlt
    · dsimp only; omega
    · dsimp only; omega
    · exact h.ord_lt hz
  · intro z c hz
    rcases hof hz with ⟨-, rfl⟩ | ⟨-, rfl⟩ | ⟨-, rfl⟩ | ⟨-, -, -, hz⟩
    · exact hal
    · exact hal
    · exact (Nat.dvd_add_right hal).mpr (Nat.dvd_mul_right _ _)
    · exact h.aligned hz
  · intro z c hz
    rcases hof hz with ⟨-, rfl⟩ | ⟨-, rfl⟩ | ⟨-, rfl⟩ | ⟨-, -, -, hz⟩
    · exact hba
    · exact hba
    · exact hba.trans (Nat.le_add_right _ _)
    · exact h.base_le hz
  · intro z c hz
    rcases hof hz with ⟨-, rfl⟩ | ⟨-, rfl⟩ | ⟨-, rfl⟩ | ⟨-, -, -, hz⟩
    · exact hli
    · rw [Block.hi]; dsimp only; omega
    · rw [Block.hi]; dsimp only; omega
    · exact h.hi_le hz
  · intro x hx hx'
    obtain ⟨z, c, hz, hc, hlo, hxc⟩ := h.cover x hx hx'
    by_cases hzp : z = p
    · -- the address lies in one of the two halves
      subst hzp
      obtain rfl : b = c := Option.some.inj (hp.symm.trans hz)
      by_cases hxl : x < b.lo + unit * 2 ^ k
      · exact ⟨l, _, hl', hst, hlo, hxl⟩
      · refine ⟨r, _, hr', hst, by dsimp only; omega, ?_⟩
        rw [Block.hi]
        dsimp only
        omega
    · exact ⟨z, c, (hold hz hzp).2.2, hc, hlo, hxc⟩
  · intro z w c d hz hw hc hd hne
    -- two halves are disjoint, and each lies in `p`, which was apart from the old leaves
    rcases hof hz with ⟨rfl, rfl⟩ | ⟨rfl, rfl⟩ | ⟨rfl, rfl⟩ | ⟨hzp, -, -, hz⟩
    · exact absurd rfl hc
    all_goals rcases hof hw with ⟨rfl, rfl⟩ | ⟨rfl, rfl⟩ | ⟨rfl, rfl⟩ | ⟨hwp, -, -, hw⟩
    all_goals first
      | exact absurd rfl hd
      | exact absurd rfl hne
      | skip
    · left; rw [Block.hi]
    · rcases h.disjoint hp hw hleaf hd (Ne.symm hwp) with hh | hh
      · left; rw [Block.hi]; dsimp only; omega
      · exact .inr hh
    · right; rw [Block.hi]
    · rcases h.disjoint hp hw hleaf hd (Ne.symm hwp) with hh | hh
      · left; rw [Block.hi]; dsimp only; omega
      · right; dsimp only; omega
    · rcases h.disjoint hz hp hc hleaf hzp with hh | hh
      · exact .inl hh
      · right; rw [Block.hi]; dsimp only; omega
    · rcases h.disjoint hz hp hc hleaf hzp with hh | hh
      · left; dsimp only; omega
      · right; rw [Block.hi]; dsimp only; omega
    · exact h.disjoint hz hw hc hd hne
  · intro z c hz hc
    rcases hof hz with ⟨rfl, rfl⟩ | ⟨rfl, rfl⟩ | ⟨rfl, rfl⟩ | ⟨hzp, -, -, hz⟩
    · refine ⟨l, r, _, _, ⟨hl', hr', hlr, rfl, rfl, rfl, rfl, hk.symm, hk.symm, rfl, rfl, ?_⟩⟩
      intro w d hw hup
      rcases hof hw with ⟨rfl, rfl⟩ | ⟨rfl, rfl⟩ | ⟨rfl, rfl⟩ | ⟨hwp, -, -, hw⟩
      · -- no block is above itself: `z` was a leaf
        obtain ⟨e, he, hes⟩ := h.up_split hp hup
        exact absurd (Option.some.inj (hp.symm.trans he) ▸ hes) hleaf
      · exact .inl rfl
      · exact .inr rfl
      · obtain ⟨e, he, hes⟩ := h.up_split hw hup
        exact absurd (Option.some.inj (hp.symm.trans he) ▸ hes) hleaf
    · exact absurd hc hst
    · exact absurd hc hst
    · obtain ⟨l', r', bl, br, hh⟩ := h.halves hz hc
      -- the halves of an old block may be the leaf that was split
      have hsub : ∀ {w d}, B w = some d → ∃ d', B' w = some d' ∧ d'.up = d.up ∧
          d'.mate = d.mate ∧ d'.ord = d.ord ∧ d'.lo = d.lo := by
        intro w d hw
        by_cases hwp : w = p
        · subst hwp
          obtain rfl : b = d := Option.some.inj (hp.symm.trans hw)
          exact ⟨_, hp', rfl, rfl, rfl, rfl⟩
        · exact ⟨d, (hold hw hwp).2.2, rfl, rfl, rfl, rfl⟩
      obtain ⟨dl, hdl, e1, e2, e3, e4⟩ := hsub hh.left
      obtain ⟨dr, hdr, f1, f2, f3, f4⟩ := hsub hh.right
      refine ⟨l', r', dl, dr, ⟨hdl, hdr, hh.ne, e1.trans hh.left_up, f1.trans hh.right_up,
        e2.trans hh.left_mate, f2.trans hh.right_mate, by rw [e3, hh.left_ord],
        by rw [f3, hh.right_ord], e4.trans hh.left_lo, by rw [f4, e3, hh.right_lo], ?_⟩⟩
      intro w d hw hup
      rcases hof hw with ⟨rfl, rfl⟩ | ⟨rfl, rfl⟩ | ⟨rfl, rfl⟩ | ⟨-, -, -, hw⟩
      · exact hh.only _ b hp hup
      · exact absurd (Option.some.inj hup).symm hzp
      · exact absurd (Option.some.inj hup).symm hzp
      · exact hh.only w d hw hup
  · intro z c q hz hup
    -- a block that was split before is so still
    have hsp : ∀ {w d}, B w = some d → d.st = .split → ∃ d', B' w = some d' ∧ d'.st = .split := by
      intro w d hw hd
      have hwp : w ≠ p := by
        rintro rfl
        exact hleaf (Option.some.inj (hp.symm.trans hw) ▸ hd)
      exact ⟨d, (hold hw hwp).2.2, hd⟩
    rcases hof hz with ⟨rfl, rfl⟩ | ⟨rfl, rfl⟩ | ⟨rfl, rfl⟩ | ⟨-, -, -, hz⟩
    · obtain ⟨d, hd, hds⟩ := h.up_split hp hup
      exact hsp hd hds
    · exact Option.some.inj hup ▸ ⟨_, hp', rfl⟩
    · exact Option.some.inj hup ▸ ⟨_, hp', rfl⟩
    · obtain ⟨d, hd, hds⟩ := h.up_split hz hup
      exact hsp hd hds
  · intro z c hz hup
    rcases hof hz with ⟨rfl, rfl⟩ | ⟨rfl, rfl⟩ | ⟨rfl, rfl⟩ | ⟨-, -, -, hz⟩
    · exact (h.root hp hup :)
    · simp at hup
    · simp at hup
    · exact h.root hz hup

/-- **Merging**: the two halves of a block, both leaves, give way to it. -/
theorem merge (hu : 0 < unit) {B' : P → Option (Block P)} {q l r : P} {c bl br : Block P}
    (st : State) (h : Forest unit base lim top B) (hq : B q = some c)
    (hh : Halves unit B q c l r bl br) (hl : bl.st ≠ .split) (hr : br.st ≠ .split)
    (hc : c.st = .split) (hst : st ≠ .split) (hq' : B' q = some { c with st := st })
    (hl' : B' l = none) (hr' : B' r = none)
    (hB' : ∀ z, z ≠ q → z ≠ l → z ≠ r → B' z = B z) : Forest unit base lim top B' := by
  have hord := hh.left_ord
  have hord' := hh.right_ord
  have hhi : c.hi unit = c.lo + (unit * 2 ^ bl.ord + unit * 2 ^ bl.ord) := by
    rw [Block.hi, ← hord, pow_succ]; ring
  have hbl : bl.hi unit = c.lo + unit * 2 ^ bl.ord := by rw [Block.hi, hh.left_lo]
  have hbr : br.hi unit = c.hi unit := by
    rw [Block.hi, hh.right_lo, hhi, show br.ord = bl.ord by omega]; ring
  have hpos : 0 < unit * 2 ^ bl.ord := by positivity
  have hof : ∀ {z d}, B' z = some d → (z = q ∧ d = { c with st := st }) ∨
      (z ≠ q ∧ z ≠ l ∧ z ≠ r ∧ B z = some d) := by
    intro z d hz
    by_cases h1 : z = q
    · exact .inl ⟨h1, Option.some.inj ((h1 ▸ hz).symm.trans hq')⟩
    have h2 : z ≠ l := by rintro rfl; simp [hl'] at hz
    have h3 : z ≠ r := by rintro rfl; simp [hr'] at hz
    exact .inr ⟨h1, h2, h3, (hB' z h1 h2 h3).symm.trans hz⟩
  have hsplit : ∀ {z d}, B z = some d → d.st = .split → z ≠ l ∧ z ≠ r := by
    intro z d hz hd
    constructor <;> rintro rfl
    · exact hl (Option.some.inj (hh.left.symm.trans hz) ▸ hd)
    · exact hr (Option.some.inj (hh.right.symm.trans hz) ▸ hd)
  -- a leaf apart from the halves is apart from their block
  have happ : ∀ {z d}, B z = some d → d.st ≠ .split → z ≠ l → z ≠ r →
      c.hi unit ≤ d.lo ∨ d.hi unit ≤ c.lo := by
    intro z d hz hd h2 h3
    have hlo := lo_lt_hi hu d
    have h4 := h.disjoint hz hh.left hd hl h2
    have h5 := h.disjoint hz hh.right hd hr h3
    rw [hbl, hh.left_lo] at h4
    rw [hbr, hh.right_lo] at h5
    omega
  refine ⟨?_, ?_, ?_, ?_, ?_, ?_, ?_, ?_, ?_⟩
  · intro z d hz
    rcases hof hz with ⟨-, rfl⟩ | ⟨-, -, -, hz⟩
    · exact (h.ord_lt hq :)
    · exact h.ord_lt hz
  · intro z d hz
    rcases hof hz with ⟨-, rfl⟩ | ⟨-, -, -, hz⟩
    · exact (h.aligned hq :)
    · exact h.aligned hz
  · intro z d hz
    rcases hof hz with ⟨-, rfl⟩ | ⟨-, -, -, hz⟩
    · exact (h.base_le hq :)
    · exact h.base_le hz
  · intro z d hz
    rcases hof hz with ⟨-, rfl⟩ | ⟨-, -, -, hz⟩
    · exact (h.hi_le hq :)
    · exact h.hi_le hz
  · intro x hx hx'
    obtain ⟨z, d, hz, hd, hlo, hxd⟩ := h.cover x hx hx'
    by_cases h2 : z = l
    · subst h2
      obtain rfl : bl = d := Option.some.inj (hh.left.symm.trans hz)
      refine ⟨q, _, hq', hst, hh.left_lo ▸ hlo, ?_⟩
      change x < c.hi unit
      omega
    by_cases h3 : z = r
    · subst h3
      obtain rfl : br = d := Option.some.inj (hh.right.symm.trans hz)
      have := hh.right_lo
      exact ⟨q, _, hq', hst, by dsimp only; omega, hbr ▸ hxd⟩
    have h1 : z ≠ q := by
      rintro rfl
      exact hd (Option.some.inj (hq.symm.trans hz) ▸ hc)
    exact ⟨z, d, (hB' z h1 h2 h3).trans hz, hd, hlo, hxd⟩
  · intro z w d e hz hw hd he hne
    rcases hof hz with ⟨rfl, rfl⟩ | ⟨-, h2, h3, hz⟩
    · rcases hof hw with ⟨rfl, rfl⟩ | ⟨-, h2, h3, hw⟩
      · exact absurd rfl hne
      · exact happ hw he h2 h3
    · rcases hof hw with ⟨rfl, rfl⟩ | ⟨-, -, -, hw⟩
      · exact (happ hz hd h2 h3).symm
      · exact h.disjoint hz hw hd he hne
  · intro z d hz hd
    rcases hof hz with ⟨-, rfl⟩ | ⟨hzq, -, -, hz⟩
    · exact absurd hd hst
    · obtain ⟨l', r', dl, dr, hk⟩ := h.halves hz hd
      -- a half of an old block may be the block that the merge leaves
      have hsub : ∀ {w e}, B w = some e → e.up = some z → ∃ e', B' w = some e' ∧ e'.up = e.up ∧
          e'.mate = e.mate ∧ e'.ord = e.ord ∧ e'.lo = e.lo := by
        intro w e hw hup
        by_cases h1 : w = q
        · subst h1
          obtain rfl : c = e := Option.some.inj (hq.symm.trans hw)
          exact ⟨_, hq', rfl, rfl, rfl, rfl⟩
        have h2 : w ≠ l := by
          rintro rfl
          obtain rfl : bl = e := Option.some.inj (hh.left.symm.trans hw)
          exact hzq (Option.some.inj (hup.symm.trans hh.left_up))
        have h3 : w ≠ r := by
          rintro rfl
          obtain rfl : br = e := Option.some.inj (hh.right.symm.trans hw)
          exact hzq (Option.some.inj (hup.symm.trans hh.right_up))
        exact ⟨e, (hB' w h1 h2 h3).trans hw, rfl, rfl, rfl, rfl⟩
      obtain ⟨el, hel, e1, e2, e3, e4⟩ := hsub hk.left hk.left_up
      obtain ⟨er, her, f1, f2, f3, f4⟩ := hsub hk.right hk.right_up
      refine ⟨l', r', el, er, ⟨hel, her, hk.ne, e1.trans hk.left_up, f1.trans hk.right_up,
        e2.trans hk.left_mate, f2.trans hk.right_mate, by rw [e3, hk.left_ord],
        by rw [f3, hk.right_ord], e4.trans hk.left_lo, by rw [f4, e3, hk.right_lo], ?_⟩⟩
      intro w e hw hup
      rcases hof hw with ⟨rfl, rfl⟩ | ⟨-, -, -, hw⟩
      · exact hk.only _ c hq hup
      · exact hk.only w e hw hup
  · intro z d w hz hup
    have hw : ∃ e, B w = some e ∧ e.st = .split ∧ w ≠ q := by
      rcases hof hz with ⟨rfl, rfl⟩ | ⟨-, h2, h3, hz⟩
      · obtain ⟨e, he, hes⟩ := h.up_split hq hup
        refine ⟨e, he, hes, ?_⟩
        rintro rfl
        -- no block is above itself: its own half would be it
        rcases hh.only _ c hq hup with rfl | rfl
        · exact hl (Option.some.inj (hh.left.symm.trans hq) ▸ hc)
        · exact hr (Option.some.inj (hh.right.symm.trans hq) ▸ hc)
      · obtain ⟨e, he, hes⟩ := h.up_split hz hup
        refine ⟨e, he, hes, ?_⟩
        rintro rfl
        rcases hh.only z d hz hup with rfl | rfl
        · exact h2 rfl
        · exact h3 rfl
    obtain ⟨e, he, hes, hwq⟩ := hw
    exact ⟨e, (hB' w hwq (hsplit he hes).1 (hsplit he hes).2).trans he, hes⟩
  · intro z d hz hup
    rcases hof hz with ⟨rfl, rfl⟩ | ⟨-, -, -, hz⟩
    · exact (h.root hq hup :)
    · exact h.root hz hup

end Forest

end Kit.Buddy
