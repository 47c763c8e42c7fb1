/-
The frame manager of `kern/virtual_mem_mgmt/frame_manager.c`: a binary buddy
allocator of physical pages.

* `Frame`, `FrameManager`: the frames and list nodes on the kernel heap, the
  three hash tables and the bins; a bin is the sequence of the nodes its links
  describe, and linking a node twice or unlinking it from a list it is not in
  is a fault, as is any failed `ASSERT`, `panic` or use of a bad pointer;
* `requestJoin`, `requestSplit`: coalescing and splitting, recursive as in the
  source, with fuel for the depth;
* `fmAlloc`, `fmDealloc`, `fmInitUserSpace`: the operations.

Kernel `malloc` always succeeds and returns an address not in use. The mutex is
left out: every operation holds it from its first line to its return.
-/
import ShrekOS.Lib.Cmd
import ShrekOS.Data.Heap
import ShrekOS.Data.Ht

namespace ShrekOS

open Kit Kit.Cmd

/-- The size of a page. -/
def pageSize : ℕ := 4096

/-- The first address of user memory. -/
def userMemStart : ℕ := 0x1000000

/-- `FRAME_ALLOC`, `FRAME_DEALLOC` and `FRAME_PARENT`. -/
inductive FrameStatus where
  | alloc
  | dealloc
  | parent
  deriving DecidableEq

/-- `frame_t`. -/
structure Frame where
  addr : ℕ
  numPages : ℕ
  status : FrameStatus
  i : ℕ
  buddy : Option Ptr
  parent : Option Ptr
  deriving DecidableEq

/-- `frame_manager_t`, with the part of the kernel heap it owns: the frames and
the list nodes that point to them. -/
structure FrameManager where
  allocated : Ht ℕ Ptr
  deallocated : Ht ℕ Ptr
  parents : Ht ℕ Ptr
  frameBins : ℕ → List Ptr
  numBins : ℕ
  frames : Ptr → Option Frame
  nodes : Ptr → Option Ptr
  nextPtr : Ptr

/-- `address_hash`. -/
def addressHash (addr : ℕ) : ℤ := toInt32 addr

/-- `address_shift_hash`: the shift of an `int` rounds down. -/
def addressShiftHash (addr : ℕ) : ℤ := toInt32 addr / 4096

/-- Commands on the frame manager. -/
abbrev FmM (α : Type) : Type := Cmd Fault FrameManager α

namespace FrameManager

/-! ### The heap, the tables and the bins -/

/-- `malloc`. -/
def malloc : FmM Ptr := fun s => (.ok s.nextPtr, { s with nextPtr := s.nextPtr + 1 })

/-- `*p` for a frame. -/
def deref (p : Ptr) : FmM Frame := do
  match ← gets fun s => s.frames p with
  | some f => pure f
  | none => fault .badPointer

/-- `frame_init` and every other write to a frame. -/
def frameInit (p : Ptr) (f : Frame) : FmM Unit :=
  modify fun s => { s with frames := Function.update s.frames p (some f) }

/-- `p->status = st`. -/
def setStatus (p : Ptr) (st : FrameStatus) : FmM Unit := do
  let f ← deref p
  frameInit p { f with status := st }

/-- `free` of a frame. -/
def freeFrame (p : Ptr) : FmM Unit := do
  let _ ← deref p
  modify fun s => { s with frames := Function.update s.frames p none }

/-- `ll_node_init`. -/
def llNodeInit (n p : Ptr) : FmM Unit :=
  modify fun s => { s with nodes := Function.update s.nodes n (some p) }

/-- `ll_node_get_data`. -/
def llNodeGetData (n : Ptr) : FmM Ptr := do
  match ← gets fun s => s.nodes n with
  | some p => pure p
  | none => fault .badPointer

/-- `free` of a list node. -/
def freeNode (n : Ptr) : FmM Unit := do
  let _ ← llNodeGetData n
  modify fun s => { s with nodes := Function.update s.nodes n none }

/-- `fm->frame_bins[i]`. -/
def bin (i : ℕ) : FmM (List Ptr) := do
  require (i < (← gets numBins)) .badPointer
  gets fun s => s.frameBins i

/-- `ll_size` of a bin. -/
def llSize (i : ℕ) : FmM ℕ := do return (← bin i).length

/-- `ll_head` of a bin. -/
def llHead (i : ℕ) : FmM Ptr := do
  match (← bin i).head? with
  | some n => pure n
  | none => fault .badPointer

/-- `ll_link_node_last` on a bin. -/
def llLinkNodeLast (i : ℕ) (n : Ptr) : FmM Unit := do
  let l ← bin i
  require (∀ j < (← gets numBins), n ∉ (← gets frameBins) j) .brokenList
  modify fun s => { s with frameBins := Function.update s.frameBins i (l ++ [n]) }

/-- `ll_unlink_node` on a bin. -/
def llUnlinkNode (i : ℕ) (n : Ptr) : FmM Unit := do
  let l ← bin i
  require (n ∈ l) .brokenList
  modify fun s => { s with frameBins := Function.update s.frameBins i (l.erase n) }

/-- `ht_put(fm->allocated, key, n)`. -/
def putAllocated (key : ℕ) (n : Ptr) : FmM ℤ := fun s =>
  (.ok (htPut s.allocated key n).1, { s with allocated := (htPut s.allocated key n).2 })

/-- `ht_put(fm->deallocated, key, n)`. -/
def putDeallocated (key : ℕ) (n : Ptr) : FmM ℤ := fun s =>
  (.ok (htPut s.deallocated key n).1, { s with deallocated := (htPut s.deallocated key n).2 })

/-- `ht_put(fm->parents, key, n)`. -/
def putParents (key : ℕ) (n : Ptr) : FmM ℤ := fun s =>
  (.ok (htPut s.parents key n).1, { s with parents := (htPut s.parents key n).2 })

/-- `ht_remove(fm->allocated, key, &n, NULL)`. -/
def removeAllocated (key : ℕ) : FmM (Option Ptr) := fun s =>
  (.ok (htRemove s.allocated key).1, { s with allocated := (htRemove s.allocated key).2 })

/-- `ht_remove(fm->deallocated, key, &n, NULL)`. -/
def removeDeallocated (key : ℕ) : FmM (Option Ptr) := fun s =>
  (.ok (htRemove s.deallocated key).1, { s with deallocated := (htRemove s.deallocated key).2 })

/-- `ht_remove(fm->parents, key, &n, NULL)`. -/
def removeParents (key : ℕ) : FmM (Option Ptr) := fun s =>
  (.ok (htRemove s.parents key).1, { s with parents := (htRemove s.parents key).2 })

/-- A value that has to be there. -/
def orPanic {α : Type} (msg : String) : Option α → FmM α
  | some a => pure a
  | none => fault (.panic msg)

end FrameManager

open FrameManager

/-! ### Coalescing and splitting -/

/-- The test `frame->buddy != NULL && frame->buddy->status == FRAME_DEALLOC`: the
buddy to coalesce with. -/
def deallocBuddy (f : Frame) : FmM (Option (Ptr × Frame)) :=
  match f.buddy with
  | none => pure none
  | some b => do
      let g ← deref b
      pure (if g.status = .dealloc then some (b, g) else none)

/-- `request_join`; the first argument is fuel. -/
def requestJoin : ℕ → Option Ptr → FmM ℤ
  | 0, _ => fault .outOfFuel
  | _ + 1, none => pure (-1)
  | fuel + 1, some frame => do
      let f ← deref frame
      require (f.status = .parent) .assertFailed
      match ← deallocBuddy f with
      | some (buddy, g) => do
          require (f.parent = g.parent ∧ f.parent ≠ none) .assertFailed
          let currNode ← removeParents (f.addr ||| f.i) >>=
            orPanic "Could not remove frame from parents!"
          let buddyNode ← removeDeallocated g.addr >>=
            orPanic "Could not remove buddy node from dealloc!"
          FrameManager.llUnlinkNode f.i buddyNode
          freeFrame buddy
          freeFrame frame
          freeNode buddyNode
          freeNode currNode
          let r ← requestJoin fuel f.parent
          if r < 0 then fault (.panic "Invalid parent pointer!") else pure 0
      | none => do
          let node ← removeParents (f.addr ||| f.i) >>=
            orPanic "Could not locate parent in parent ht"
          let r ← putDeallocated f.addr node
          if r < 0 then fault (.panic "Could not register parent to deallocated") else do
          setStatus frame .dealloc
          FrameManager.llLinkNodeLast f.i node
          pure 0

/-- The last part of `request_split`: split the first frame of bin `i`. -/
def splitHead (i : ℕ) : FmM ℤ := do
  require (0 < (← llSize i)) .assertFailed
  let parentNode ← llHead i
  FrameManager.llUnlinkNode i parentNode
  let parentFrame ← llNodeGetData parentNode
  let f ← deref parentFrame
  require (f.status = .dealloc) .assertFailed
  let _ ← removeDeallocated f.addr
  let _ ← putParents (f.addr ||| f.i) parentNode
  setStatus parentFrame .parent
  let leftFrame ← malloc
  let rightFrame ← malloc
  let rightAddr := (f.addr + f.numPages / 2 * pageSize) % 2 ^ 32
  frameInit leftFrame
    ⟨f.addr, f.numPages / 2, .dealloc, i - 1, some rightFrame, some parentFrame⟩
  frameInit rightFrame
    ⟨rightAddr, f.numPages / 2, .dealloc, i - 1, some leftFrame, some parentFrame⟩
  let leftNode ← malloc
  let rightNode ← malloc
  llNodeInit leftNode leftFrame
  FrameManager.llLinkNodeLast (i - 1) leftNode
  llNodeInit rightNode rightFrame
  FrameManager.llLinkNodeLast (i - 1) rightNode
  let _ ← putDeallocated f.addr leftNode
  let _ ← putDeallocated rightAddr rightNode
  pure 0

/-- `request_split`; the first argument is fuel. -/
def requestSplit : ℕ → ℕ → FmM ℤ
  | 0, _ => fault .outOfFuel
  | fuel + 1, i => do
      if i ≥ (← gets numBins) ∨ i = 0 then pure (-1) else do
      if (← llSize i) = 0 then do
        let r ← requestSplit fuel (i + 1)
        if r < 0 then pure (-2) else splitHead i
      else splitHead i

/-! ### The operations -/

/-- The loop of `fm_alloc` that finds the bin for `num_pages`, from bin `j` down. -/
def findBin (numPages : ℕ) : ℕ → ℕ
  | 0 => 0
  | j + 1 => if numPages ≤ 2 ^ (j + 1) ∧ numPages > 2 ^ j then j + 1 else findBin numPages j

/-- The last part of `fm_alloc`: allocate the first frame of bin `j`. -/
def takeHead (j : ℕ) : FmM ℕ := do
  require (0 < (← llSize j)) .assertFailed
  let node ← llHead j
  FrameManager.llUnlinkNode j node
  let frame ← llNodeGetData node
  let f ← deref frame
  require (f.status = .dealloc) .assertFailed
  let _ ← removeDeallocated f.addr
  let _ ← putAllocated f.addr node
  setStatus frame .alloc
  pure f.addr

/-- `fm_alloc`: the address of the frame, or a negative code. -/
def fmAlloc (numPages : ℕ) : FmM (Except ℤ ℕ) := do
  let numBins ← gets numBins
  if numPages > 2 ^ (numBins - 1) then pure (.error (-1)) else do
  if numPages = 0 then pure (.error (-1)) else do
  let j := findBin numPages (numBins - 1)
  if (← llSize j) = 0 then do
    let r ← requestSplit (numBins + 1) (j + 1)
    if r < 0 then pure (.error (-2)) else do
    return .ok (← takeHead j)
  else return .ok (← takeHead j)

/-- The `ASSERT` of `fm_dealloc` on the buddy of a frame. -/
def buddyOk (frame : Ptr) (f : Frame) : FmM Unit :=
  match f.buddy with
  | none => pure ()
  | some b => do
      let g ← deref b
      require (g.parent = f.parent ∧ g.i = f.i ∧ g.numPages = f.numPages ∧
        g.buddy = some frame) .assertFailed

/-- `fm_dealloc`. -/
def fmDealloc (pAddr : ℕ) : FmM ℤ := do
  match ← removeAllocated pAddr with
  | none => pure (-2)
  | some node => do
      let frame ← llNodeGetData node
      let f ← deref frame
      require (f.status = .alloc) .assertFailed
      buddyOk frame f
      match ← deallocBuddy f with
      | some (buddy, g) => do
          let buddyNode ← removeDeallocated g.addr >>=
            orPanic "Could not remove buddy from dealloc ht"
          FrameManager.llUnlinkNode g.i buddyNode
          freeFrame frame
          freeFrame buddy
          freeNode buddyNode
          freeNode node
          let _ ← requestJoin ((← gets numBins) + 1) f.parent
          pure 0
      | none => do
          let _ ← putDeallocated f.addr node
          FrameManager.llLinkNodeLast f.i node
          setStatus frame .dealloc
          pure 0

/-- The body of the `while` loop of `fm_init_user_space`: a new frame in bin `i`
at `pAddr`. -/
def newFrame (i pAddr : ℕ) : FmM Unit := do
  let frame ← malloc
  frameInit frame ⟨pAddr, 2 ^ i, .dealloc, i, none, none⟩
  let node ← malloc
  llNodeInit node frame
  FrameManager.llLinkNodeLast i node
  let _ ← putDeallocated pAddr node
  pure ()

/-- The `while` loop of `fm_init_user_space` on bin `i`, with fuel: the pages
remaining and the next address. -/
def initBin : ℕ → ℕ → ℕ → ℕ → FmM (ℕ × ℕ)
  | 0, _, _, _ => fault .outOfFuel
  | fuel + 1, i, remaining, pAddr =>
      if remaining ≥ 2 ^ i then do
        newFrame i pAddr
        initBin fuel i (remaining - 2 ^ i) ((pAddr + pageSize * 2 ^ i) % 2 ^ 32)
      else pure (remaining, pAddr)

/-- The `for` loop of `fm_init_user_space` over the bins below the given one. -/
def initBins (fuel : ℕ) : ℕ → ℕ → ℕ → FmM Unit
  | 0, _, _ => pure ()
  | i + 1, remaining, pAddr => do
      let (remaining', pAddr') ← initBin fuel i remaining pAddr
      initBins fuel i remaining' pAddr'

/-- `fm_init_user_space`. -/
def fmInitUserSpace (numPages : ℕ) : FmM ℤ := do
  if numPages = 0 then pure (-1) else do
  initBins (numPages + 1) (← gets numBins) numPages userMemStart
  pure 0

/-- What `fm_init` sets up before it calls `fm_init_user_space`. -/
def fmEmpty (numBins : ℕ) : FrameManager where
  allocated := htInit Ptr 64 addressShiftHash
  deallocated := htInit Ptr 64 addressShiftHash
  parents := htInit Ptr 64 addressHash
  frameBins := fun _ => []
  numBins := numBins
  frames := fun _ => none
  nodes := fun _ => none
  nextPtr := 1

end ShrekOS
