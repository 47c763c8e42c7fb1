/-
The page directories of `kern/virtual_mem_mgmt/page_directory.c`.

* `PageDirectory`, `Vm`: the directories, the page tables in kernel memory, the
  frame manager and the answers of the kernel heap still to come;
* `pdBeginMapping`, `pdCreateMapping`, `pdRemoveMapping`, `pdAbortMapping`,
  `pdCommitMapping`: mappings, at once or in a batch;
* `pdDeepCopy`, `ptCopy`: copying a user space for `fork`;
* `pdAllocFrame`, `pdDeallocFrame`, `pdDeallocAllFrames`: the frames a directory
  remembers.

A page table is a page of kernel memory and is known by its address. Every heap
request takes the next answer from a script: `none` for a failure, and for a new
page table its address, which has to be a page that is not in use. The contents
of user pages are left out: no operation below depends on them.
-/
import ShrekOS.Mem.FrameManager

namespace ShrekOS

open Kit Kit.Cmd

/-! ### Entries -/

/-- `NUM_KERNEL_PDE`. -/
def numKernelPde : ℕ := 4

/-- `PD_NUM_ENTRIES` and `PT_NUM_ENTRIES`. -/
def numEntries : ℕ := 1024

/-- `entry_present`: the bit `PRESENT_FLAG_BIT`. -/
def entryPresent (v : ℕ) : Bool := v.testBit 0

/-- `ADD_FLAGS`. -/
def addFlags (v f : ℕ) : ℕ := v ||| f

/-- `REMOVE_FLAGS`, which clears the low 12 bits. -/
def removeFlags (v : ℕ) : ℕ := v / 2 ^ 12 * 2 ^ 12

/-- `EXTRACT_FLAGS`, which keeps the low 12 bits. -/
def extractFlags (v : ℕ) : ℕ := v % 2 ^ 12

/-- `IS_USER_START`. -/
def isUserStart (pte : ℕ) : Bool := pte.testBit 9

/-- `IS_USER_END`. -/
def isUserEnd (pte : ℕ) : Bool := pte.testBit 10

/-- `USER_WR`: present, writable, user mode. -/
def userWr : ℕ := 7

/-- `PTE_FLAG_DEFAULT` and `PDE_FLAG_DEFAULT`: present, read only, user mode. -/
def flagDefault : ℕ := 5

/-- `IS_PAGE_ALIGNED`. -/
def isPageAligned (a : ℕ) : Bool := a % pageSize = 0

/-- The page directory index: the top 10 bits of a virtual address. -/
def pdeIndex (vAddr : ℕ) : ℕ := vAddr / 2 ^ 22 % 2 ^ 10

/-- The page table index: the next 10 bits of a virtual address. -/
def pteIndex (vAddr : ℕ) : ℕ := vAddr / 2 ^ 12 % 2 ^ 10

/-! ### Directories and their state -/

/-- `mapping_task_t`. -/
structure MappingTask where
  vAddr : ℕ
  pte : ℕ
  resource : Option ℕ

/-- `pd_frame_metadata_t`. -/
structure FrameMetadata where
  pAddr : ℕ
  numPages : ℕ
  deriving DecidableEq

/-- `page_directory_t`: outside a batch no mapping task is left over. -/
structure PageDirectory where
  directory : ℕ → ℕ
  numPages : ℕ
  pAddrList : List FrameMetadata
  mappingTasks : List MappingTask
  batchEnabled : Bool
  idle : batchEnabled = false → mappingTasks = []

/-- No batch is under way, and no task is left of one. -/
lemma idle_nil : false = false → ([] : List MappingTask) = [] := fun _ => rfl

/-- The state of the virtual memory manager: `live` are the page tables that the
heap has given out, `heap` its answers to come. -/
structure Vm where
  pds : ℕ → PageDirectory
  pt : ℕ → ℕ → ℕ
  live : ℕ → Bool
  fm : FrameManager
  heap : List (Option ℕ)

/-- Commands on the virtual memory. -/
abbrev VmM (α : Type) : Type := Cmd Fault Vm α

namespace Vm

/-- A small `malloc`: whether it succeeds. -/
def malloc : VmM Bool := fun s =>
  match s.heap with
  | [] => (.error .badHeap, s)
  | r :: rs => (.ok r.isSome, { s with heap := rs })

/-- `memalign(PAGE_SIZE, PT_SIZE)`. -/
def memalign : VmM (Option ℕ) := fun s =>
  match s.heap with
  | [] => (.error .badHeap, s)
  | none :: rs => (.ok none, { s with heap := rs })
  | some a :: rs =>
      if a % pageSize = 0 ∧ 0 < a ∧ a < 2 ^ 32 ∧ s.live a = false then
        (.ok (some a), { s with heap := rs, live := Function.update s.live a true })
      else (.error .badHeap, s)

/-- `free` of a page table, or of nothing. -/
def free (table : Option ℕ) : VmM Unit :=
  match table with
  | none => pure ()
  | some a => modify fun s => { s with live := Function.update s.live a false }

/-- Replace a page directory. -/
def setPd (d : ℕ) (pd : PageDirectory) : VmM Unit :=
  modify fun s => { s with pds := Function.update s.pds d pd }

/-- `pd->directory[i]`. -/
def entry (d i : ℕ) : VmM ℕ := gets fun s => (s.pds d).directory i

/-- `pd->directory[i] = v`. -/
def setEntry (d i v : ℕ) : VmM Unit := do
  let pd ← gets fun s => s.pds d
  setPd d { pd with directory := Function.update pd.directory i v }

/-- `page_table[j]`. -/
def pte (table j : ℕ) : VmM ℕ := gets fun s => s.pt table j

/-- `page_table[j] = v`. -/
def setPte (table j v : ℕ) : VmM Unit :=
  modify fun s =>
    { s with pt := Function.update s.pt table (Function.update (s.pt table) j v) }

/-- `memset` of a page table to zero. -/
def clearTable (table : ℕ) : VmM Unit :=
  modify fun s => { s with pt := Function.update s.pt table fun _ => 0 }

/-- A command of the frame manager. -/
def liftFm {α : Type} (c : FmM α) : VmM α := fun s =>
  ((c s.fm).1, { s with fm := (c s.fm).2 })

end Vm

open Vm

/-! ### Mappings -/

/-- `ll_add_last(pd->mapping_tasks, task)`, which happens only in a batch. -/
def PageDirectory.addTask (pd : PageDirectory) (task : MappingTask) : PageDirectory :=
  if h : pd.batchEnabled = true then
    { pd with mappingTasks := pd.mappingTasks ++ [task], idle := by simp [h] }
  else pd

@[simp] lemma PageDirectory.addTask_directory (pd : PageDirectory) (task : MappingTask) :
    (pd.addTask task).directory = pd.directory := by
  rw [addTask]
  split_ifs <;> rfl

@[simp] lemma PageDirectory.addTask_batchEnabled (pd : PageDirectory) (task : MappingTask) :
    (pd.addTask task).batchEnabled = pd.batchEnabled := by
  rw [addTask]
  split_ifs <;> rfl

@[simp] lemma PageDirectory.addTask_pAddrList (pd : PageDirectory) (task : MappingTask) :
    (pd.addTask task).pAddrList = pd.pAddrList := by
  rw [addTask]
  split_ifs <;> rfl

@[simp] lemma PageDirectory.addTask_numPages (pd : PageDirectory) (task : MappingTask) :
    (pd.addTask task).numPages = pd.numPages := by
  rw [addTask]
  split_ifs <;> rfl

lemma PageDirectory.addTask_mappingTasks {pd : PageDirectory} (h : pd.batchEnabled = true)
    (task : MappingTask) : (pd.addTask task).mappingTasks = pd.mappingTasks ++ [task] := by
  rw [addTask, dif_pos h]

/-- `pd_get_mapping`: the page table entry, or a negative code. -/
def pdGetMapping (d vAddr : ℕ) : VmM (Except ℤ ℕ) := do
  let pde ← entry d (pdeIndex vAddr)
  if ¬ entryPresent pde then pure (.error (-2)) else do
  let v ← pte (removeFlags pde) (pteIndex vAddr)
  if ¬ entryPresent v then pure (.error (-3)) else pure (.ok v)

/-- `pd_begin_mapping`. -/
def pdBeginMapping (d : ℕ) : VmM ℤ := do
  let pd ← gets fun s => s.pds d
  if pd.batchEnabled then pure (-2) else do
  setPd d { pd with batchEnabled := true, idle := by simp }
  pure 0

/-- The loop of `pd_abort_mapping`. -/
def freeResources : List MappingTask → VmM Unit
  | [] => pure ()
  | task :: tasks => do free task.resource; freeResources tasks

/-- `pd_abort_mapping`. -/
def pdAbortMapping (d : ℕ) : VmM Unit := do
  freeResources (← gets fun s => (s.pds d).mappingTasks)
  let pd ← gets fun s => s.pds d
  setPd d { pd with mappingTasks := [], batchEnabled := false, idle := fun _ => rfl }

/-- The loop of `pd_commit_mapping`. -/
def commitTasks (d : ℕ) : List MappingTask → VmM Unit
  | [] => pure ()
  | task :: tasks => do
      let pde ← entry d (pdeIndex task.vAddr)
      setPte (removeFlags pde) (pteIndex task.vAddr) task.pte
      commitTasks d tasks

/-- `pd_commit_mapping`. -/
def pdCommitMapping (d : ℕ) : VmM Unit := do
  commitTasks d (← gets fun s => (s.pds d).mappingTasks)
  let pd ← gets fun s => s.pds d
  setPd d { pd with mappingTasks := [], batchEnabled := false, idle := fun _ => rfl }

/-- The first part of `pd_create_mapping`: the directory entry, made with a new
page table when it is not present, and that table. -/
def createTable (d i pdeFlags : ℕ) : VmM (Option (ℕ × Option ℕ)) := do
  let pde ← entry d i
  if entryPresent pde then pure (some (pde, none)) else do
  match ← memalign with
  | none => pure none
  | some a => do
      clearTable a
      setEntry d i (addFlags a pdeFlags)
      pure (some (addFlags a pdeFlags, some a))

/-- The last part of `pd_create_mapping` and of `pd_remove_mapping`: write the page
table entry, or in a batch add a task for it. -/
def recordMapping (d vAddr table v : ℕ) (resource : Option ℕ) : VmM ℤ := do
  if (← gets fun s => (s.pds d).batchEnabled) then do
    if !(← malloc) then pure (-3) else do
    if !(← malloc) then do free resource; pure (-4) else do
    let pd ← gets fun s => s.pds d
    setPd d (pd.addTask ⟨vAddr, v, resource⟩)
    pure 0
  else do
    setPte table (pteIndex vAddr) v
    pure 0

/-- `pd_create_mapping`. -/
def pdCreateMapping (d vAddr pAddr pteFlags pdeFlags : ℕ) : VmM ℤ := do
  if ¬ isPageAligned vAddr ∨ ¬ isPageAligned pAddr then pure (-1) else do
  match ← createTable d (pdeIndex vAddr) pdeFlags with
  | none => pure (-2)
  | some (pdeValue, resource) =>
      recordMapping d vAddr (removeFlags pdeValue) (addFlags pAddr pteFlags) resource

/-- `pd_remove_mapping`. -/
def pdRemoveMapping (d vAddr : ℕ) : VmM ℤ := do
  if ¬ isPageAligned vAddr then pure (-1) else do
  let pde ← entry d (pdeIndex vAddr)
  if ¬ entryPresent pde then pure (-2) else do
  let v ← pte (removeFlags pde) (pteIndex vAddr)
  if ¬ entryPresent v then pure (-3) else
  recordMapping d vAddr (removeFlags pde) 0 none

/-! ### Copying and clearing -/

/-- The loop of `pt_copy` over the last `k` entries, with the next physical page;
`p_copy` fails when there is no memory for its buffer, and the loop stops. -/
def ptCopy (dest src : ℕ) : ℕ → ℕ → VmM ℕ
  | 0, pAddr => pure pAddr
  | k + 1, pAddr => do
      let i := numEntries - (k + 1)
      let v ← pte src i
      if entryPresent v then do
        if !(← malloc) then pure ((pAddr + pageSize) % 2 ^ 32) else do
        setPte dest i (addFlags pAddr (extractFlags v))
        ptCopy dest src k ((pAddr + pageSize) % 2 ^ 32)
      else ptCopy dest src k pAddr

/-- The roll back of `pd_deep_copy` at entry `i`: free the page tables below, and
put the backup in their place. -/
def rollBack (dest i : ℕ) (backup : ℕ → ℕ) : VmM Unit := do
  upTo (i - numKernelPde) fun k => do
    let pde ← entry dest (i - 1 - k)
    if entryPresent pde then free (some (removeFlags pde)) else pure ()
  let pd ← gets fun s => s.pds dest
  setPd dest { pd with
    directory := fun j => if numKernelPde ≤ j ∧ j < i then backup j else pd.directory j }

/-- The loop of `pd_deep_copy` over the last `k` entries. -/
def deepCopyFrom (dest src : ℕ) : ℕ → ℕ → (ℕ → ℕ) → VmM ℤ
  | 0, _, _ => pure 0
  | k + 1, pAddr, backup => do
      let i := numEntries - (k + 1)
      let pde ← entry src i
      if entryPresent pde then do
        match ← memalign with
        | none => do rollBack dest i backup; pure (-2)
        | some newPt => do
            clearTable newPt
            let old ← entry dest i
            setEntry dest i (newPt ||| extractFlags pde)
            let pAddr' ← ptCopy newPt (removeFlags pde) numEntries pAddr
            deepCopyFrom dest src k pAddr' (Function.update backup i old)
      else deepCopyFrom dest src k pAddr backup

/-- `pd_deep_copy`; `garbage` is what the array `backup_directory` holds at first. -/
def pdDeepCopy (dest src pAddrStart : ℕ) (garbage : ℕ → ℕ) : VmM ℤ :=
  deepCopyFrom dest src (numEntries - numKernelPde) pAddrStart garbage

/-- `pd_clear_user_space`. -/
def pdClearUserSpace (d : ℕ) : VmM Unit :=
  upTo (numEntries - numKernelPde) fun k => do
    let pde ← entry d (numKernelPde + k)
    if entryPresent pde then do
      setEntry d (numKernelPde + k) 0
      free (some (removeFlags pde))
    else pure ()

/-! ### Frames -/

/-- `pd_alloc_frame`. -/
def pdAllocFrame (d pAddr numPages : ℕ) : VmM ℤ := do
  let pd ← gets fun s => s.pds d
  setPd d { pd with numPages := (pd.numPages + numPages) % 2 ^ 32 }
  if !(← malloc) then pure (-2) else do
  if !(← malloc) then pure (-3) else do
  let pd ← gets fun s => s.pds d
  setPd d { pd with pAddrList := ⟨pAddr, numPages⟩ :: pd.pAddrList }
  pure 0

/-- `pd_dealloc_frame`: the size of the frame, or `none` for the code `-2`. -/
def pdDeallocFrame (d pAddr : ℕ) : VmM (Option ℕ) := do
  let pd ← gets fun s => s.pds d
  match pd.pAddrList.find? fun m => m.pAddr = pAddr with
  | none => pure none
  | some m => do
      setPd d { pd with
        numPages := (pd.numPages + (2 ^ 32 - m.numPages)) % 2 ^ 32
        pAddrList := pd.pAddrList.eraseP fun m => m.pAddr = pAddr }
      pure (some m.numPages)

/-- `pd_dealloc_all_frames`: the starting addresses. -/
def pdDeallocAllFrames (d : ℕ) : VmM (List ℕ) := do
  let pd ← gets fun s => s.pds d
  setPd d { pd with numPages := 0, pAddrList := [] }
  pure (pd.pAddrList.map FrameMetadata.pAddr)

end ShrekOS
