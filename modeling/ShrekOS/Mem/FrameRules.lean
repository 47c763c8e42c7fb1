/-
Weakest preconditions of the frame manager's primitive commands.

Each rule reads off what a primitive needs and does; together they run a
straight-line piece of `fm_alloc`, `fm_dealloc` or `request_join` by rewriting.
-/
import ShrekOS.Mem.FrameManager

namespace ShrekOS.FrameManager

open Kit Kit.Cmd

variable {s : FrameManager} {E : Fault → FrameManager → Prop}

@[simp] lemma wp_malloc {Q : Ptr → FrameManager → Prop} :
    wp malloc Q E s ↔ Q s.nextPtr { s with nextPtr := s.nextPtr + 1 } := Iff.rfl

@[simp] lemma wp_deref {Q : Frame → FrameManager → Prop} (p : Ptr) :
    wp (deref p) Q E s ↔
      match s.frames p with
      | some f => Q f s
      | none => E .badPointer s := by
  rw [deref, wp_bind, wp_gets]
  cases s.frames p <;> rfl

@[simp] lemma wp_frameInit {Q : Unit → FrameManager → Prop} (p : Ptr) (f : Frame) :
    wp (frameInit p f) Q E s ↔
      Q () { s with frames := Function.update s.frames p (some f) } := Iff.rfl

@[simp] lemma wp_setStatus {Q : Unit → FrameManager → Prop} (p : Ptr) (st : FrameStatus) :
    wp (setStatus p st) Q E s ↔
      match s.frames p with
      | some f => Q () { s with
          frames := Function.update s.frames p (some { f with status := st }) }
      | none => E .badPointer s := by
  rw [setStatus, wp_bind, wp_deref]
  cases s.frames p <;> rfl

@[simp] lemma wp_freeFrame {Q : Unit → FrameManager → Prop} (p : Ptr) :
    wp (freeFrame p) Q E s ↔
      match s.frames p with
      | some _ => Q () { s with frames := Function.update s.frames p none }
      | none => E .badPointer s := by
  rw [freeFrame, wp_bind, wp_deref]
  cases s.frames p <;> rfl

@[simp] lemma wp_llNodeInit {Q : Unit → FrameManager → Prop} (n p : Ptr) :
    wp (llNodeInit n p) Q E s ↔
      Q () { s with nodes := Function.update s.nodes n (some p) } := Iff.rfl

@[simp] lemma wp_llNodeGetData {Q : Ptr → FrameManager → Prop} (n : Ptr) :
    wp (llNodeGetData n) Q E s ↔
      match s.nodes n with
      | some p => Q p s
      | none => E .badPointer s := by
  rw [llNodeGetData, wp_bind, wp_gets]
  cases s.nodes n <;> rfl

@[simp] lemma wp_freeNode {Q : Unit → FrameManager → Prop} (n : Ptr) :
    wp (freeNode n) Q E s ↔
      match s.nodes n with
      | some _ => Q () { s with nodes := Function.update s.nodes n none }
      | none => E .badPointer s := by
  rw [freeNode, wp_bind, wp_llNodeGetData]
  cases s.nodes n <;> rfl

@[simp] lemma wp_bin {Q : List Ptr → FrameManager → Prop} (i : ℕ) :
    wp (bin i) Q E s ↔
      (i < s.numBins → Q (s.frameBins i) s) ∧ (¬ i < s.numBins → E .badPointer s) := by
  simp [bin]

@[simp] lemma wp_llSize {Q : ℕ → FrameManager → Prop} (i : ℕ) :
    wp (llSize i) Q E s ↔
      (i < s.numBins → Q (s.frameBins i).length s) ∧ (¬ i < s.numBins → E .badPointer s) := by
  simp [llSize]

@[simp] lemma wp_llHead {Q : Ptr → FrameManager → Prop} (i : ℕ) :
    wp (llHead i) Q E s ↔
      (i < s.numBins →
        match (s.frameBins i).head? with
        | some n => Q n s
        | none => E .badPointer s) ∧
      (¬ i < s.numBins → E .badPointer s) := by
  rw [llHead, wp_bind, wp_bin]
  cases (s.frameBins i).head? <;> rfl

@[simp] lemma wp_llLinkNodeLast {Q : Unit → FrameManager → Prop} (i : ℕ) (n : Ptr) :
    wp (llLinkNodeLast i n) Q E s ↔
      (i < s.numBins →
        ((∀ j < s.numBins, n ∉ s.frameBins j) → Q () { s with
          frameBins := Function.update s.frameBins i (s.frameBins i ++ [n]) }) ∧
        (¬ (∀ j < s.numBins, n ∉ s.frameBins j) → E .brokenList s)) ∧
      (¬ i < s.numBins → E .badPointer s) := by
  simp [llLinkNodeLast]

@[simp] lemma wp_llUnlinkNode {Q : Unit → FrameManager → Prop} (i : ℕ) (n : Ptr) :
    wp (llUnlinkNode i n) Q E s ↔
      (i < s.numBins →
        (n ∈ s.frameBins i → Q () { s with
          frameBins := Function.update s.frameBins i ((s.frameBins i).erase n) }) ∧
        (n ∉ s.frameBins i → E .brokenList s)) ∧
      (¬ i < s.numBins → E .badPointer s) := by
  simp [llUnlinkNode]

@[simp] lemma wp_putAllocated {Q : ℤ → FrameManager → Prop} (key : ℕ) (n : Ptr) :
    wp (putAllocated key n) Q E s ↔ Q (htPut s.allocated key n).1
      { s with allocated := (htPut s.allocated key n).2 } := Iff.rfl

@[simp] lemma wp_putDeallocated {Q : ℤ → FrameManager → Prop} (key : ℕ) (n : Ptr) :
    wp (putDeallocated key n) Q E s ↔ Q (htPut s.deallocated key n).1
      { s with deallocated := (htPut s.deallocated key n).2 } := Iff.rfl

@[simp] lemma wp_putParents {Q : ℤ → FrameManager → Prop} (key : ℕ) (n : Ptr) :
    wp (putParents key n) Q E s ↔ Q (htPut s.parents key n).1
      { s with parents := (htPut s.parents key n).2 } := Iff.rfl

@[simp] lemma wp_removeAllocated {Q : Option Ptr → FrameManager → Prop} (key : ℕ) :
    wp (removeAllocated key) Q E s ↔ Q (htRemove s.allocated key).1
      { s with allocated := (htRemove s.allocated key).2 } := Iff.rfl

@[simp] lemma wp_removeDeallocated {Q : Option Ptr → FrameManager → Prop} (key : ℕ) :
    wp (removeDeallocated key) Q E s ↔ Q (htRemove s.deallocated key).1
      { s with deallocated := (htRemove s.deallocated key).2 } := Iff.rfl

@[simp] lemma wp_removeParents {Q : Option Ptr → FrameManager → Prop} (key : ℕ) :
    wp (removeParents key) Q E s ↔ Q (htRemove s.parents key).1
      { s with parents := (htRemove s.parents key).2 } := Iff.rfl

@[simp] lemma wp_orPanic {α : Type} {Q : α → FrameManager → Prop} (msg : String) (o : Option α) :
    wp (orPanic msg o) Q E s ↔
      match o with
      | some a => Q a s
      | none => E (.panic msg) s := by
  cases o <;> rfl

@[simp] lemma wp_deallocBuddy {Q : Option (Ptr × Frame) → FrameManager → Prop} (f : Frame) :
    wp (deallocBuddy f) Q E s ↔
      match f.buddy with
      | none => Q none s
      | some b =>
          match s.frames b with
          | some g => Q (if g.status = .dealloc then some (b, g) else none) s
          | none => E .badPointer s := by
  rw [deallocBuddy]
  cases f.buddy with
  | none => rfl
  | some b =>
      dsimp only
      rw [wp_bind, wp_deref]
      cases s.frames b <;> rfl

end ShrekOS.FrameManager
