/-
Weakest preconditions of the primitive commands on virtual memory, and the
arithmetic of page table entries.
-/
import ShrekOS.Mem.PageDirectory

namespace ShrekOS

open Kit Kit.Cmd

/-! ### Entries -/

lemma addFlags_eq_add {a f : ℕ} (ha : a % pageSize = 0) (hf : f < 2 ^ 12) :
    addFlags a f = a + f := by
  obtain ⟨c, rfl⟩ := Nat.dvd_of_mod_eq_zero ha
  exact (Nat.two_pow_add_eq_or_of_lt hf c).symm

/-- The flags of an entry can be removed again. -/
lemma removeFlags_addFlags {a f : ℕ} (ha : a % pageSize = 0) (hf : f < 2 ^ 12) :
    removeFlags (addFlags a f) = a := by
  rw [addFlags_eq_add ha hf, removeFlags]
  simp only [pageSize] at ha
  omega

/-- The flags of an entry are the ones that were added. -/
lemma extractFlags_addFlags {a f : ℕ} (ha : a % pageSize = 0) (hf : f < 2 ^ 12) :
    extractFlags (addFlags a f) = f := by
  rw [addFlags_eq_add ha hf, extractFlags]
  simp only [pageSize] at ha
  omega

/-- An entry is present when its flags say so. -/
lemma entryPresent_addFlags {a : ℕ} (ha : a % pageSize = 0) (f : ℕ) :
    entryPresent (addFlags a f) = entryPresent f := by
  have h0 : a.testBit 0 = false := by
    simp only [pageSize] at ha
    rw [Nat.testBit_zero, decide_eq_false_iff_not]
    omega
  rw [entryPresent, addFlags, Nat.testBit_or, h0, Bool.false_or, entryPresent]

lemma entryPresent_extractFlags (v : ℕ) : entryPresent (extractFlags v) = entryPresent v := by
  rw [entryPresent, entryPresent, extractFlags, Nat.testBit_zero, Nat.testBit_zero]
  congr 1
  simp only [eq_iff_iff]
  omega

lemma extractFlags_lt (v : ℕ) : extractFlags v < 2 ^ 12 := Nat.mod_lt _ (by decide)

@[simp] lemma entryPresent_zero : entryPresent 0 = false := rfl

lemma pdeIndex_lt (v : ℕ) : pdeIndex v < numEntries := Nat.mod_lt _ (by decide)

namespace Vm

/-! ### Commands -/

variable {s : Vm} {E : Fault → Vm → Prop}

@[simp] lemma wp_malloc {Q : Bool → Vm → Prop} :
    wp malloc Q E s ↔
      match s.heap with
      | [] => E .badHeap s
      | r :: rs => Q r.isSome { s with heap := rs } := by
  unfold wp malloc
  cases s.heap <;> rfl

@[simp] lemma wp_memalign {Q : Option ℕ → Vm → Prop} :
    wp memalign Q E s ↔
      match s.heap with
      | [] => E .badHeap s
      | none :: rs => Q none { s with heap := rs }
      | some a :: rs =>
          if a % pageSize = 0 ∧ 0 < a ∧ a < 2 ^ 32 ∧ s.live a = false then
            Q (some a) { s with heap := rs, live := Function.update s.live a true }
          else E .badHeap s := by
  unfold wp memalign
  rcases s.heap with _ | ⟨_ | a, rs⟩
  · rfl
  · rfl
  · dsimp only
    split_ifs <;> rfl

@[simp] lemma wp_free {Q : Unit → Vm → Prop} (t : Option ℕ) :
    wp (free t) Q E s ↔
      match t with
      | none => Q () s
      | some a => Q () { s with live := Function.update s.live a false } := by
  cases t <;> rfl

@[simp] lemma wp_setPd {Q : Unit → Vm → Prop} (d : ℕ) (pd : PageDirectory) :
    wp (setPd d pd) Q E s ↔ Q () { s with pds := Function.update s.pds d pd } := Iff.rfl

@[simp] lemma wp_entry {Q : ℕ → Vm → Prop} (d i : ℕ) :
    wp (entry d i) Q E s ↔ Q ((s.pds d).directory i) s := Iff.rfl

@[simp] lemma wp_setEntry {Q : Unit → Vm → Prop} (d i v : ℕ) :
    wp (setEntry d i v) Q E s ↔ Q () { s with
      pds := Function.update s.pds d
        ({ s.pds d with directory := Function.update (s.pds d).directory i v }) } := Iff.rfl

@[simp] lemma wp_pte {Q : ℕ → Vm → Prop} (t j : ℕ) :
    wp (pte t j) Q E s ↔ Q (s.pt t j) s := Iff.rfl

@[simp] lemma wp_setPte {Q : Unit → Vm → Prop} (t j v : ℕ) :
    wp (setPte t j v) Q E s ↔ Q () { s with
      pt := Function.update s.pt t (Function.update (s.pt t) j v) } := Iff.rfl

@[simp] lemma wp_clearTable {Q : Unit → Vm → Prop} (t : ℕ) :
    wp (clearTable t) Q E s ↔ Q () { s with pt := Function.update s.pt t fun _ => 0 } := Iff.rfl

@[simp] lemma wp_liftFm {α : Type} {Q : α → Vm → Prop} (c : FmM α) :
    wp (liftFm c) Q E s ↔
      wp c (fun a fm' => Q a { s with fm := fm' })
        (fun e fm' => E e { s with fm := fm' }) s.fm := by
  unfold wp liftFm
  rcases c s.fm with ⟨_ | _, _⟩ <;> rfl

end Vm

end ShrekOS
