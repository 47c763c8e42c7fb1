/-
The memory of a pcb in a fork: `pcb_init`, `pcb_copy` and `pcb_destroy_s` of
`kern/scheduler/pcb.c`, with what they call in `kern/virtual_mem_mgmt/` as far as it asks for
memory or frees it.

* `Pcb`, `PcbSpace`, `Procs`: the scheduler with its processes table, the pcbs with their page
  directories, and the page tables in memory;
* `PcbHeap`, `CopyHeap`: what `malloc` and `memalign` answer, and what is in memory that nothing
  has been written to;
* `pcbInit`, `pcbCopy`, `pcbDestroy`: the functions, with the roll back of `pd_deep_copy`, which
  puts `backup_directory` into the new directory, entries that were never saved included;
* `wp_pcbCopy`: how a copy ends;
* `wp_pcbDestroy`, `wlp_pcbDestroy`: **what is freed after it**: the page tables of the copy,
  or what an entry that was never saved leads to.

`pcb_init` takes no notice of what `pd_init`, `queue_init` and `sem_init` return. The list of the
status queue is left out: without it the queue is destroyed as with it. So are the kernel's entries
of a directory and the contents of page tables.
-/
import ShrekOS.Mem.VmRules
import ShrekOS.Sched.PoolInvariant

namespace ShrekOS

open Kit Kit.Cmd

/-- `pcb_t`, what a fork writes of it. -/
structure Pcb where
  pid : ℤ
  ppid : ℤ
  originalTid : ℤ
  numThreads : UInt32
  numChildProc : UInt32
  deriving DecidableEq

/-- The page directory of a pcb, if `pd_init` got all its memory, and the word `lock` of the mutex
of its wait semaphore. -/
structure PcbSpace where
  directory : Option (ℕ → ℕ)
  waitLock : ℕ

/-- The scheduler with its processes table, whose nodes are in the memory of the pools' nodes,
the pcbs in memory, and `tcb->pcb`; and the page tables in memory. -/
structure Procs where
  sched : Sched
  nextPid : ℕ
  processes : Ht ℤ Ptr
  pcbs : Ptr → Option Pcb
  pcbOf : Ptr → Option Ptr
  spaces : Ptr → PcbSpace
  tables : ℕ → Bool

/-- Commands on the processes. -/
abbrev ProcsM (α : Type) : Type := Cmd Fault Procs α

/-- What `pcb_init` gets: memory for the page directory, for its two lists and for the list of the
wait semaphore; and what the memory of the semaphore's lock holds before. -/
structure PcbHeap where
  directory : Bool
  mappingTasks : Bool
  pAddrList : Bool
  waitQueue : Bool
  waitLock : ℕ

/-- What `vmm_deep_copy` gets: frames, memory for the record of them, and for each entry of the
directory a page table; and what the array `backup_directory` holds before. -/
structure CopyHeap where
  frames : Bool
  record : Bool
  table : ℕ → Option ℕ
  backup : ℕ → ℕ

namespace Procs

/-! ### Pcbs, directories and page tables -/

/-- `*pcb`. -/
def readPcb (pcb : Ptr) : ProcsM Pcb := do
  match ← gets fun k => k.pcbs pcb with
  | some b => return b
  | none => fault .badPointer

/-- A write to fields of `*pcb`. -/
def writePcb (pcb : Ptr) (f : Pcb → Pcb) : ProcsM Unit := do
  let b ← readPcb pcb
  modify fun k => { k with pcbs := Function.update k.pcbs pcb (some (f b)) }

/-- `pcb->pd`, whose lists and directory are followed. -/
def readDirectory (pcb : Ptr) : ProcsM (ℕ → ℕ) := do
  match ← gets fun k => (k.spaces pcb).directory with
  | some d => return d
  | none => fault .badPointer

/-- Writes to `pcb->pd.directory`. -/
def writeDirectory (pcb : Ptr) (d : ℕ → ℕ) : ProcsM Unit :=
  modify fun k =>
    { k with spaces := Function.update k.spaces pcb { k.spaces pcb with directory := some d } }

/-- `memalign(PAGE_SIZE, PT_SIZE)`, which does not fail. -/
def newTable (a : ℕ) : ProcsM Unit := do
  require (a % pageSize = 0 ∧ (← gets fun k => k.tables a) = false) .badHeap
  modify fun k => { k with tables := Function.update k.tables a true }

/-- `free` of a page table. -/
def freeTable (a : ℕ) : ProcsM Unit := do
  require ((← gets fun k => k.tables a) = true) .badHeap
  modify fun k => { k with tables := Function.update k.tables a false }

/-! ### `pcb_init` -/

/-- `pd_init`, whose code `pcb_init` does not look at. -/
def pdInit (heap : PcbHeap) : Option (ℕ → ℕ) :=
  if heap.directory ∧ heap.mappingTasks ∧ heap.pAddrList then some fun _ => 0 else none

/-- `sem_init`: it returns before `mutex_init` when its queue gets no memory. -/
def semInit (heap : PcbHeap) : ℕ := if heap.waitQueue then 1 else heap.waitLock

/-- `malloc(sizeof(pcb_t))`, which does not fail, and `pcb_init`. -/
def pcbInit (heap : PcbHeap) (pcb : Ptr) : ProcsM Unit := do
  require ((← gets fun k => k.pcbs pcb) = none) .badHeap
  modify fun k => { k with
    pcbs := Function.update k.pcbs pcb (some ⟨-1, -1, -1, 0, 0⟩)
    spaces := Function.update k.spaces pcb ⟨pdInit heap, semInit heap⟩ }

/-! ### `pcb_copy` -/

/-- The roll back of `pd_deep_copy` at entry `i`: free the page tables below, and put the backup
in their place. -/
def rollBack (dest : Ptr) (i : ℕ) (backup : ℕ → ℕ) : ProcsM Unit := do
  upTo (i - numKernelPde) fun n => do
    let d ← readDirectory dest
    if entryPresent (d (i - 1 - n)) then freeTable (removeFlags (d (i - 1 - n))) else pure ()
  let d ← readDirectory dest
  writeDirectory dest fun j => if numKernelPde ≤ j ∧ j < i then backup j else d j

/-- The loop of `pd_deep_copy` over the last `n` entries of the directory `src`. -/
def deepCopyFrom (heap : CopyHeap) (dest : Ptr) (src : ℕ → ℕ) : ℕ → (ℕ → ℕ) → ProcsM ℤ
  | 0, _ => return 0
  | n + 1, backup => do
      let i := numEntries - (n + 1)
      if entryPresent (src i) then
        match heap.table i with
        | none => do rollBack dest i backup; return -2
        | some newPt => do
            newTable newPt
            let d ← readDirectory dest
            writeDirectory dest (Function.update d i (addFlags newPt (extractFlags (src i))))
            deepCopyFrom heap dest src n (Function.update backup i (d i))
      else deepCopyFrom heap dest src n backup

/-- `vmm_deep_copy`. -/
def vmmDeepCopy (heap : CopyHeap) (dest source : Ptr) : ProcsM ℤ := do
  let src ← readDirectory source
  if heap.frames = false then
    return -3
  -- `pd_alloc_frame` follows `pd->p_addr_list`
  let _ ← readDirectory dest
  if heap.record = false then
    return -4
  if (← deepCopyFrom heap dest src (numEntries - numKernelPde) heap.backup) < 0 then
    return -5
  return 0

/-- `pcb_copy`. -/
def pcbCopy (heap : CopyHeap) (dest source : Ptr) : ProcsM ℤ := do
  let b ← readPcb source
  writePcb dest fun d => { d with ppid := b.pid }
  if (← vmmDeepCopy heap dest source) < 0 then
    return -2
  return 0

/-! ### `pcb_destroy_s` -/

/-- `pd_clear_user_space`. -/
def pdClearUserSpace (pcb : Ptr) : ProcsM Unit :=
  upTo (numEntries - numKernelPde) fun n => do
    let d ← readDirectory pcb
    if entryPresent (d (numKernelPde + n)) then do
      writeDirectory pcb (Function.update d (numKernelPde + n) 0)
      freeTable (removeFlags (d (numKernelPde + n)))
    else pure ()

/-- `pcb_destroy_s` and `free(pcb)`. With a word 0 the lock of the wait semaphore is never got. -/
def pcbDestroy (pcb : Ptr) : ProcsM Unit := do
  let _ ← readPcb pcb
  require ((← gets fun k => (k.spaces pcb).waitLock) ≠ 0) .outOfFuel
  pdClearUserSpace pcb
  modify fun k => { k with pcbs := Function.update k.pcbs pcb none }

end Procs

/-! ### What a copy needs -/

/-- `pd_init` gets all its memory. -/
structure PcbHeap.Enough (heap : PcbHeap) : Prop where
  directory : heap.directory = true
  mappingTasks : heap.mappingTasks = true
  pAddrList : heap.pAddrList = true

namespace CopyHeap

/-- The entries below `i` that are copied. -/
def entries (src : ℕ → ℕ) (i : ℕ) : Set ℕ :=
  {j | numKernelPde ≤ j ∧ j < i ∧ entryPresent (src j) = true}

/-- `vmm_deep_copy` gets all its memory. -/
structure Enough (heap : CopyHeap) (src : ℕ → ℕ) : Prop where
  frames : heap.frames = true
  record : heap.record = true
  table : ∀ i ∈ entries src numEntries, heap.table i ≠ none

/-- `pd_deep_copy` gets no page table for entry `i`, and one for each entry before it. -/
structure Lacks (heap : CopyHeap) (src : ℕ → ℕ) (i : ℕ) : Prop where
  frames : heap.frames = true
  record : heap.record = true
  mem : i ∈ entries src numEntries
  table : heap.table i = none
  before : ∀ j ∈ entries src i, heap.table j ≠ none

/-- An entry that the roll back takes from memory that nothing was written to, and that is
present. -/
def Stray (heap : CopyHeap) (src : ℕ → ℕ) (j : ℕ) : Prop :=
  ∃ i, heap.Lacks src i ∧ numKernelPde ≤ j ∧ j < i ∧ entryPresent (src j) = false ∧
    entryPresent (heap.backup j) = true

/-- The page tables that `memalign` answers with are aligned, not in use, and different. -/
structure Fresh (heap : CopyHeap) (used : ℕ → Bool) : Prop where
  aligned : ∀ i a, heap.table i = some a → a % pageSize = 0
  unused : ∀ i a, heap.table i = some a → used a = false
  apart : ∀ i j a, heap.table i = some a → heap.table j = some a → i = j

/-- The page tables in memory are those of before, and those that were got for the entries. -/
def Holds (heap : CopyHeap) (used : ℕ → Bool) (S : Set ℕ) (tables : ℕ → Bool) : Prop :=
  ∀ a, tables a = true ↔ used a = true ∨ ∃ j ∈ S, heap.table j = some a

/-- The directory leads to the page tables that were got for the entries. -/
structure Leads (heap : CopyHeap) (S : Set ℕ) (d : ℕ → ℕ) : Prop where
  present : ∀ j ∈ S, entryPresent (d j) = true
  table : ∀ j ∈ S, heap.table j = some (removeFlags (d j))
  absent : ∀ j ∉ S, entryPresent (d j) = false

/-- The backup is that of the entries: what was there before the copy. -/
structure Saves (heap : CopyHeap) (S : Set ℕ) (backup : ℕ → ℕ) : Prop where
  saved : ∀ j ∈ S, entryPresent (backup j) = false
  unsaved : ∀ j ∉ S, backup j = heap.backup j

variable {heap : CopyHeap} {src d backup : ℕ → ℕ} {used tables : ℕ → Bool} {S : Set ℕ} {i a : ℕ}

lemma Holds.empty (h : heap.Holds used ∅ tables) : tables = used := by
  funext a
  rw [Bool.eq_iff_iff, h a]
  simp

lemma holds_empty (heap : CopyHeap) (used : ℕ → Bool) : heap.Holds used ∅ used := by
  intro a
  simp

/-- A page table more. -/
lemma Holds.insert (h : heap.Holds used S tables) (ha : heap.table i = some a) :
    heap.Holds used (insert i S) (Function.update tables a true) := by
  intro c
  by_cases hc : c = a
  · subst hc
    rw [Function.update_self]
    exact iff_of_true rfl (.inr ⟨i, Set.mem_insert i S, ha⟩)
  · rw [Function.update_of_ne hc, h c]
    have hi : heap.table i ≠ some c := fun heq => hc (Option.some.inj (heq.symm.trans ha))
    constructor
    · rintro (hold | ⟨j, hj, hjc⟩)
      · exact .inl hold
      · exact .inr ⟨j, .inr hj, hjc⟩
    · rintro (hold | ⟨j, rfl | hj, hjc⟩)
      · exact .inl hold
      · exact absurd hjc hi
      · exact .inr ⟨j, hj, hjc⟩

/-- A page table less. -/
lemma Holds.remove (h : heap.Holds used S tables) (hfresh : heap.Fresh used)
    (ha : heap.table i = some a) : heap.Holds used (S \ {i}) (Function.update tables a false) := by
  intro c
  by_cases hc : c = a
  · subst hc
    rw [Function.update_self]
    refine iff_of_false Bool.false_ne_true ?_
    rintro (hold | ⟨j, hj, hjc⟩)
    · rw [hfresh.unused i c ha] at hold
      cases hold
    · exact hj.2 (hfresh.apart j i c hjc ha)
  · rw [Function.update_of_ne hc, h c]
    constructor
    · rintro (hold | ⟨j, hj, hjc⟩)
      · exact .inl hold
      · refine .inr ⟨j, ⟨hj, ?_⟩, hjc⟩
        rintro rfl
        exact hc (Option.some.inj (hjc.symm.trans ha))
    · rintro (hold | ⟨j, hj, hjc⟩)
      · exact .inl hold
      · exact .inr ⟨j, hj.1, hjc⟩

/-- The page table of an entry is in memory. -/
lemma Holds.mem (h : heap.Holds used S tables) (hd : heap.Leads S d) (hi : i ∈ S) :
    tables (removeFlags (d i)) = true :=
  (h _).mpr (.inr ⟨i, hi, hd.table i hi⟩)

lemma Leads.mem_iff (h : heap.Leads S d) : i ∈ S ↔ entryPresent (d i) = true := by
  refine ⟨h.present i, fun hi => ?_⟩
  by_contra hno
  rw [h.absent i hno] at hi
  cases hi

lemma leads_empty (h : ∀ j, entryPresent (d j) = false) : heap.Leads ∅ d :=
  ⟨fun _ hj => hj.elim, fun _ hj => hj.elim, fun j _ => h j⟩

/-- An entry more. -/
lemma Leads.insert (h : heap.Leads S d) (hfresh : heap.Fresh used) (ha : heap.table i = some a)
    {v : ℕ} (hv : entryPresent v = true) :
    heap.Leads (insert i S) (Function.update d i (addFlags a (extractFlags v))) := by
  have halign := hfresh.aligned i a ha
  have hflags : removeFlags (addFlags a (extractFlags v)) = a :=
    removeFlags_addFlags halign (extractFlags_lt v)
  have hpresent : entryPresent (addFlags a (extractFlags v)) = true := by
    rw [entryPresent_addFlags halign, entryPresent_extractFlags, hv]
  refine ⟨fun j hj => ?_, fun j hj => ?_, fun j hj => ?_⟩
  · by_cases hji : j = i
    · rw [hji, Function.update_self, hpresent]
    · rw [Function.update_of_ne hji]
      exact h.present j (hj.resolve_left hji)
  · by_cases hji : j = i
    · rw [hji, Function.update_self, hflags, ha]
    · rw [Function.update_of_ne hji]
      exact h.table j (hj.resolve_left hji)
  · rw [Set.mem_insert_iff, not_or] at hj
    rw [Function.update_of_ne hj.1]
    exact h.absent j hj.2

/-- An entry less. -/
lemma Leads.remove (h : heap.Leads S d) (i : ℕ) :
    heap.Leads (S \ {i}) (Function.update d i 0) := by
  refine ⟨fun j hj => ?_, fun j hj => ?_, fun j hj => ?_⟩
  · rw [Function.update_of_ne hj.2]
    exact h.present j hj.1
  · rw [Function.update_of_ne hj.2]
    exact h.table j hj.1
  · by_cases hji : j = i
    · rw [hji, Function.update_self]
      rfl
    · rw [Function.update_of_ne hji]
      exact h.absent j fun hS => hj ⟨hS, hji⟩

/-- The next entry is saved. -/
lemma Saves.insert (h : heap.Saves S backup) {v : ℕ} (hv : entryPresent v = false) :
    heap.Saves (insert i S) (Function.update backup i v) := by
  refine ⟨fun j hj => ?_, fun j hj => ?_⟩
  · by_cases hji : j = i
    · rw [hji, Function.update_self, hv]
    · rw [Function.update_of_ne hji]
      exact h.saved j (hj.resolve_left hji)
  · rw [Set.mem_insert_iff, not_or] at hj
    rw [Function.update_of_ne hj.1]
    exact h.unsaved j hj.2

lemma entries_kernel (src : ℕ → ℕ) : entries src numKernelPde = ∅ := by
  ext j
  exact iff_of_false (fun hj => absurd hj.1 (not_le.mpr hj.2.1)) fun hj => hj.elim

/-- The entries below the next one, when that is copied. -/
lemma entries_succ (hi : numKernelPde ≤ i) (hpresent : entryPresent (src i) = true) :
    entries src (i + 1) = insert i (entries src i) := by
  ext j
  constructor
  · rintro ⟨hle, hlt, hj⟩
    rcases Nat.lt_succ_iff_lt_or_eq.mp hlt with hlt | rfl
    · exact .inr ⟨hle, hlt, hj⟩
    · exact .inl rfl
  · rintro (rfl | ⟨hle, hlt, hj⟩)
    · exact ⟨hi, Nat.lt_succ_self _, hpresent⟩
    · exact ⟨hle, Nat.lt_succ_of_lt hlt, hj⟩

/-- And when it is not. -/
lemma entries_succ_of_absent (habsent : ¬ entryPresent (src i) = true) :
    entries src (i + 1) = entries src i := by
  ext j
  constructor
  · rintro ⟨hle, hlt, hj⟩
    refine ⟨hle, lt_of_le_of_ne (Nat.le_of_lt_succ hlt) ?_, hj⟩
    rintro rfl
    exact habsent hj
  · rintro ⟨hle, hlt, hj⟩
    exact ⟨hle, Nat.lt_succ_of_lt hlt, hj⟩

lemma self_notMem_entries (src : ℕ → ℕ) (i : ℕ) : i ∉ entries src i :=
  fun hi => absurd hi.2.1 (lt_irrefl i)

/-- At most one entry is the first for which there is no page table. -/
lemma Lacks.unique {j : ℕ} (hi : heap.Lacks src i) (hj : heap.Lacks src j) : i = j := by
  rcases lt_trichotomy i j with hlt | heq | hlt
  · exact absurd hi.table (hj.before i ⟨hi.mem.1, hlt, hi.mem.2.2⟩)
  · exact heq
  · exact absurd hj.table (hi.before j ⟨hj.mem.1, hlt, hj.mem.2.2⟩)

lemma Stray.lt {j : ℕ} (h : heap.Stray src j) : j < numEntries := by
  obtain ⟨i, hi, -, hlt, -⟩ := h
  exact hlt.trans hi.mem.2.1

lemma Stray.le {j : ℕ} (h : heap.Stray src j) : numKernelPde ≤ j := by
  obtain ⟨i, -, hle, -⟩ := h
  exact hle

/-- What is present in the directory after the roll back. -/
lemma Lacks.present_iff (hi : heap.Lacks src i) (hd : heap.Leads (entries src i) d)
    (hb : heap.Saves (entries src i) backup) (j : ℕ) :
    entryPresent (if numKernelPde ≤ j ∧ j < i then backup j else d j) = true ↔
      heap.Stray src j := by
  by_cases hin : numKernelPde ≤ j ∧ j < i
  · rw [if_pos hin]
    cases hj : entryPresent (src j) with
    | true =>
        refine iff_of_false ?_ ?_
        · rw [hb.saved j ⟨hin.1, hin.2, hj⟩]
          exact Bool.false_ne_true
        · rintro ⟨_, _, _, _, habsent, _⟩
          rw [hj] at habsent
          cases habsent
    | false =>
        have hnot : j ∉ entries src i := fun hmem => by
          rw [hmem.2.2] at hj
          cases hj
        rw [hb.unsaved j hnot]
        constructor
        · exact fun hbackup => ⟨i, hi, hin.1, hin.2, hj, hbackup⟩
        · rintro ⟨_, _, _, _, _, hbackup⟩
          exact hbackup
  · rw [if_neg hin]
    refine iff_of_false ?_ ?_
    · rw [hd.absent j fun hmem => hin ⟨hmem.1, hmem.2.1⟩]
      exact Bool.false_ne_true
    · rintro ⟨i', hi', hle, hlt, -⟩
      exact hin ⟨hle, hi.unique hi' ▸ hlt⟩

end CopyHeap

namespace Procs

variable {k : Procs} {heap : CopyHeap} {p cur : Ptr} {b b₁ : Pcb} {d src backup : ℕ → ℕ}
  {tables : ℕ → Bool} {S : Set ℕ} {i a : ℕ} {E : Fault → Procs → Prop}

/-! ### Rules -/

lemma wp_readPcb {Q : Pcb → Procs → Prop} (hb : k.pcbs p = some b) :
    wp (readPcb p) Q E k ↔ Q b k := by
  rw [readPcb, wp_bind, wp_gets, hb]
  exact wp_pure b

lemma wp_writePcb {Q : Unit → Procs → Prop} (hb : k.pcbs p = some b) (f : Pcb → Pcb) :
    wp (writePcb p f) Q E k ↔ Q () { k with pcbs := Function.update k.pcbs p (some (f b)) } := by
  rw [writePcb, wp_bind]
  exact wp_readPcb hb

lemma wp_readDirectory {Q : (ℕ → ℕ) → Procs → Prop} (hd : (k.spaces p).directory = some d) :
    wp (readDirectory p) Q E k ↔ Q d k := by
  rw [readDirectory, wp_bind, wp_gets, hd]
  exact wp_pure d

section

variable {ρ : Type} {π : Procs → ρ}

lemma keeps_readPcb (p : Ptr) : Keeps π (fun _ => True) (readPcb p) := by
  refine .bind (.gets _) fun o => ?_
  cases o with
  | some b => exact .pure b
  | none => exact .fault trivial

lemma keeps_readDirectory (p : Ptr) : Keeps π (fun _ => True) (readDirectory p) := by
  refine .bind (.gets _) fun o => ?_
  cases o with
  | some d => exact .pure d
  | none => exact .fault trivial

lemma keeps_require (P : Prop) [Decidable P] (e : Fault) :
    Keeps π (fun _ => True) (require P e : ProcsM Unit) :=
  .ite (.pure ()) (.fault trivial)

end

/-- The state with another page directory and other page tables. -/
def withSpace (k : Procs) (p : Ptr) (d : ℕ → ℕ) (tables : ℕ → Bool) : Procs := { k with
  spaces := Function.update k.spaces p { k.spaces p with directory := some d }
  tables := tables }

@[simp] lemma withSpace_directory (k : Procs) (p : Ptr) (d : ℕ → ℕ) (tables : ℕ → Bool) :
    ((k.withSpace p d tables).spaces p).directory = some d := by
  change (Function.update k.spaces p _ p).directory = some d
  rw [Function.update_self]

lemma withSpace_self (hd : (k.spaces p).directory = some d) : k.withSpace p d k.tables = k := by
  have hspace : ({ k.spaces p with directory := some d } : PcbSpace) = k.spaces p := by rw [← hd]
  rw [withSpace, hspace, Function.update_eq_self]

lemma withSpace_idem (k : Procs) (p : Ptr) (d d' : ℕ → ℕ) (tables tables' : ℕ → Bool) :
    (k.withSpace p d tables).withSpace p d' tables' = k.withSpace p d' tables' := by
  simp only [withSpace, Function.update_idem, Function.update_self]

lemma wp_readSpace {Q : (ℕ → ℕ) → Procs → Prop} :
    wp (readDirectory p) Q E (k.withSpace p d tables) ↔ Q d (k.withSpace p d tables) :=
  wp_readDirectory (withSpace_directory ..)

lemma wp_writeSpace {Q : Unit → Procs → Prop} (d' : ℕ → ℕ) :
    wp (writeDirectory p d') Q E (k.withSpace p d tables) ↔ Q () (k.withSpace p d' tables) := by
  have heq := withSpace_idem k p d d' tables tables
  rw [withSpace] at heq
  rw [writeDirectory, wp_modify, ← heq]
  rfl

lemma wp_newTable {Q : Unit → Procs → Prop} (halign : a % pageSize = 0) (ha : tables a = false) :
    wp (newTable a) Q E (k.withSpace p d tables) ↔
      Q () (k.withSpace p d (Function.update tables a true)) := by
  rw [newTable, wp_bind, wp_gets, wp_bind, wp_require]
  exact ⟨fun h => h.1 ⟨halign, ha⟩, fun h => ⟨fun _ => h, fun hno => absurd ⟨halign, ha⟩ hno⟩⟩

lemma wp_freeTable {Q : Unit → Procs → Prop} (ha : tables a = true) :
    wp (freeTable a) Q E (k.withSpace p d tables) ↔
      Q () (k.withSpace p d (Function.update tables a false)) := by
  rw [freeTable, wp_bind, wp_gets, wp_bind, wp_require]
  exact ⟨fun h => h.1 ha, fun h => ⟨fun _ => h, fun hno => absurd ha hno⟩⟩

/-! ### The copy -/

/-- The first entries without the last of them. -/
lemma entries_remove (hi : numKernelPde ≤ i) (hpresent : entryPresent (src i) = true) :
    CopyHeap.entries src (i + 1) \ {i} = CopyHeap.entries src i := by
  rw [CopyHeap.entries_succ hi hpresent]
  exact Set.insert_sdiff_self_of_notMem (CopyHeap.self_notMem_entries src i)

/-- **The roll back** frees the page tables of the copy, and leaves the backup. -/
lemma wp_rollBack (hfresh : heap.Fresh k.tables) (hd : heap.Leads (CopyHeap.entries src i) d)
    (hheld : heap.Holds k.tables (CopyHeap.entries src i) tables) (hi : numKernelPde ≤ i) :
    wp (rollBack p i backup) (fun _ k' => k' = k.withSpace p
      (fun j => if numKernelPde ≤ j ∧ j < i then backup j else d j) k.tables) E
      (k.withSpace p d tables) := by
  rw [rollBack, wp_bind]
  -- after `n` entries the page tables of those below `i - n` are left
  refine wp_imp (wp_upTo _ (fun n k' => ∃ tables', k' = k.withSpace p d tables' ∧
    heap.Holds k.tables (CopyHeap.entries src (i - n)) tables') _ ⟨tables, rfl, hheld⟩ ?step) ?rest
  case step =>
    rintro n _ hn ⟨tables', rfl, hheld'⟩
    have hsucc : i - n = i - 1 - n + 1 := by omega
    have hnext : i - (n + 1) = i - 1 - n := by omega
    have hle : numKernelPde ≤ i - 1 - n := by omega
    have hlt : i - 1 - n < i := by omega
    rw [hsucc] at hheld'
    rw [hnext, wp_bind, wp_readSpace]
    by_cases hpde : entryPresent (d (i - 1 - n)) = true
    · have hmem := hd.mem_iff.mpr hpde
      have hown := hd.table _ hmem
      have hlast : i - 1 - n ∈ CopyHeap.entries src (i - 1 - n + 1) :=
        ⟨hle, Nat.lt_succ_self _, hmem.2.2⟩
      rw [if_pos hpde, wp_freeTable ((hheld' _).mpr (.inr ⟨_, hlast, hown⟩))]
      refine ⟨_, rfl, ?_⟩
      rw [← entries_remove hle hmem.2.2]
      exact hheld'.remove hfresh hown
    · have hnot : ¬ entryPresent (src (i - 1 - n)) = true := fun hsrc =>
        hpde (hd.present _ ⟨hle, hlt, hsrc⟩)
      rw [if_neg hpde]
      rw [CopyHeap.entries_succ_of_absent hnot] at hheld'
      exact ⟨tables', rfl, hheld'⟩
  case rest =>
    rintro _ _ ⟨tables', rfl, hheld'⟩
    rw [Nat.sub_sub_self hi, CopyHeap.entries_kernel] at hheld'
    rw [wp_bind, wp_readSpace, wp_writeSpace, hheld'.empty]

/-- How a copy ends: with a page table for each entry, or without, and then with an entry for each
stray one. -/
inductive CopyOutcome (heap : CopyHeap) (src : ℕ → ℕ) (k : Procs) (p : Ptr) : ℤ → Procs → Prop where
  | copied {d : ℕ → ℕ} {tables : ℕ → Bool} : heap.Enough src →
      heap.Leads (CopyHeap.entries src numEntries) d →
      heap.Holds k.tables (CopyHeap.entries src numEntries) tables →
      CopyOutcome heap src k p 0 (k.withSpace p d tables)
  | failed {r : ℤ} {d : ℕ → ℕ} : ¬ heap.Enough src → r < 0 →
      (∀ j, entryPresent (d j) = true ↔ heap.Stray src j) →
      CopyOutcome heap src k p r (k.withSpace p d k.tables)

/-- **The loop of `pd_deep_copy`**: by induction on the number of entries to come. -/
lemma wp_deepCopyFrom (hfresh : heap.Fresh k.tables) (hframes : heap.frames = true)
    (hrecord : heap.record = true) : ∀ (n : ℕ) {backup d : ℕ → ℕ} {tables : ℕ → Bool},
    n ≤ numEntries - numKernelPde →
    heap.Leads (CopyHeap.entries src (numEntries - n)) d →
    heap.Saves (CopyHeap.entries src (numEntries - n)) backup →
    heap.Holds k.tables (CopyHeap.entries src (numEntries - n)) tables →
    (∀ j ∈ CopyHeap.entries src (numEntries - n), heap.table j ≠ none) →
    wp (deepCopyFrom heap p src n backup) (CopyOutcome heap src k p) E
      (k.withSpace p d tables) := by
  -- by induction on the slots left; `backup` and the new directory are known up to the slot
  intro n
  induction n with
  | zero =>
      intro backup d tables _ hd _ hheld hall
      exact .copied ⟨hframes, hrecord, hall⟩ hd hheld
  | succ n ih =>
      intro backup d tables hn hd hb hheld hall
      set i := numEntries - (n + 1) with hi
      have hkernel : numKernelPde < numEntries := by decide
      have hle : numKernelPde ≤ i := by omega
      have hnext : numEntries - n = i + 1 := by omega
      rw [hnext] at ih
      rw [deepCopyFrom, ← hi]
      by_cases hpresent : entryPresent (src i) = true
      swap
      -- an absent slot is neither saved nor copied
      · rw [if_neg hpresent]
        rw [CopyHeap.entries_succ_of_absent hpresent] at ih
        exact ih (by omega) hd hb hheld hall
      rw [if_pos hpresent]
      cases htable : heap.table i with
      | none =>
          -- no page table for the slot: everything is rolled back
          have hlacks : heap.Lacks src i :=
            ⟨hframes, hrecord, ⟨hle, by omega, hpresent⟩, htable, hall⟩
          rw [wp_bind]
          refine wp_imp (wp_rollBack hfresh hd hheld hle) ?_
          rintro _ _ rfl
          exact .failed (fun henough => henough.table i hlacks.mem htable) (by decide)
            (hlacks.present_iff hd hb)
      | some a =>
          -- the new table is one that is not in use
          have hunused : tables a = false := by
            rw [← Bool.not_eq_true, hheld a]
            rintro (hold | ⟨j, hj, hja⟩)
            · rw [hfresh.unused i a htable] at hold
              cases hold
            · rw [hfresh.apart j i a hja htable] at hj
              exact CopyHeap.self_notMem_entries src i hj
          have hold : entryPresent (d i) = false :=
            hd.absent i (CopyHeap.self_notMem_entries src i)
          rw [wp_bind, wp_newTable (hfresh.aligned i a htable) hunused, wp_bind, wp_readSpace,
            wp_bind, wp_writeSpace]
          rw [CopyHeap.entries_succ hle hpresent] at ih
          refine ih (by omega) (hd.insert hfresh htable hpresent) (hb.insert hold)
            (hheld.insert htable) fun j hj => ?_
          rcases hj with rfl | hj
          · rw [htable]
            exact Option.some_ne_none a
          · exact hall j hj

/-- **`vmm_deep_copy`** into the directory of a new pcb. -/
lemma wp_vmmDeepCopy (hfresh : heap.Fresh k.tables) (hsrc : (k.spaces cur).directory = some src)
    (hnew : (k.spaces p).directory = some fun _ => 0) :
    wp (vmmDeepCopy heap p cur) (CopyOutcome heap src k p) E k := by
  have hself := withSpace_self hnew
  have hfailed : ∀ r < 0, ¬ (heap.frames = true ∧ heap.record = true) →
      CopyOutcome heap src k p r k := by
    intro r hr hno
    have hout : CopyOutcome heap src k p r (k.withSpace p (fun _ => 0) k.tables) := by
      refine .failed (fun henough => hno ⟨henough.frames, henough.record⟩) hr fun j => ?_
      rw [entryPresent_zero]
      refine iff_of_false Bool.false_ne_true ?_
      rintro ⟨i, hi, -⟩
      exact hno ⟨hi.frames, hi.record⟩
    rwa [hself] at hout
  rw [vmmDeepCopy, wp_bind, wp_readDirectory hsrc]
  by_cases hframes : heap.frames = true
  swap
  · rw [if_pos (Bool.not_eq_true _ ▸ hframes)]
    exact hfailed _ (by decide) fun h => hframes h.1
  rw [if_neg (by rw [hframes]; decide), wp_bind, wp_readDirectory hnew]
  by_cases hrecord : heap.record = true
  swap
  · rw [if_pos (Bool.not_eq_true _ ▸ hrecord)]
    exact hfailed _ (by decide) fun h => hrecord h.2
  rw [if_neg (by rw [hrecord]; decide), wp_bind]
  have hstart : CopyHeap.entries src (numEntries - (numEntries - numKernelPde)) = ∅ :=
    CopyHeap.entries_kernel src
  have hcopy : wp (deepCopyFrom heap p src (numEntries - numKernelPde) heap.backup)
      (CopyOutcome heap src k p) E (k.withSpace p (fun _ => 0) k.tables) :=
    wp_deepCopyFrom hfresh hframes hrecord _ le_rfl
      (hstart ▸ CopyHeap.leads_empty fun _ => rfl)
      (hstart ▸ ⟨fun _ hj => hj.elim, fun _ _ => rfl⟩) (hstart ▸ heap.holds_empty k.tables)
      (hstart ▸ fun _ hj => hj.elim)
  rw [hself] at hcopy
  refine wp_imp hcopy fun r k' hout => ?_
  cases hout with
  | copied henough hd hheld => exact .copied henough hd hheld
  | failed hno hr hd =>
      rw [if_pos hr]
      exact .failed hno (by decide) hd

/-- **`pcb_copy`** into a new pcb. -/
theorem wp_pcbCopy (hcur : k.pcbs cur = some b₁) (hp : k.pcbs p = some b)
    (hfresh : heap.Fresh k.tables) (hsrc : (k.spaces cur).directory = some src)
    (hnew : (k.spaces p).directory = some fun _ => 0) :
    wp (pcbCopy heap p cur) (CopyOutcome heap src
      { k with pcbs := Function.update k.pcbs p (some { b with ppid := b₁.pid }) } p) E k := by
  rw [pcbCopy, wp_bind, wp_readPcb hcur, wp_bind, wp_writePcb hp, wp_bind]
  refine wp_imp (wp_vmmDeepCopy hfresh hsrc hnew) fun r k' hout => ?_
  cases hout with
  | copied henough hd hheld => exact .copied henough hd hheld
  | failed hno hr hd =>
      rw [if_pos hr]
      exact .failed hno (by decide) hd

/-- Without a directory of the new pcb nothing is copied. -/
lemma wlp_vmmDeepCopy_lost (hsrc : (k.spaces cur).directory = some src)
    (hnew : (k.spaces p).directory = none) :
    wlp (vmmDeepCopy heap p cur) (fun r k' => r < 0 ∧ k' = k) k := by
  rw [wlp, vmmDeepCopy, wp_bind, wp_readDirectory hsrc]
  by_cases hframes : heap.frames = false
  · rw [if_pos hframes]
    exact ⟨by decide, rfl⟩
  · -- `pd_alloc_frame` follows `p_addr_list`
    rw [if_neg hframes, wp_bind, readDirectory, wp_bind, wp_gets, hnew]
    trivial

lemma wlp_pcbCopy_lost (hcur : k.pcbs cur = some b₁) (hp : k.pcbs p = some b)
    (hsrc : (k.spaces cur).directory = some src) (hnew : (k.spaces p).directory = none) :
    wlp (pcbCopy heap p cur) (fun r k' => r < 0 ∧ k' =
      { k with pcbs := Function.update k.pcbs p (some { b with ppid := b₁.pid }) }) k := by
  rw [wlp, pcbCopy, wp_bind, wp_readPcb hcur, wp_bind, wp_writePcb hp, wp_bind]
  refine wp_imp (wlp_vmmDeepCopy_lost hsrc hnew) fun r k' hout => ?_
  obtain ⟨hr, rfl⟩ := hout
  rw [if_pos hr]
  exact ⟨by decide, rfl⟩

/-! ### The end of a pcb -/

/-- `pd_clear_user_space` frees the page tables that the directory leads to. -/
lemma wp_pdClearUserSpace {used : ℕ → Bool} (hfresh : heap.Fresh used) (hd : heap.Leads S d)
    (hS : ∀ j ∈ S, numKernelPde ≤ j ∧ j < numEntries) (hheld : heap.Holds used S tables) :
    wp (pdClearUserSpace p) (fun _ k' => ∃ d', k' = k.withSpace p d' used) E
      (k.withSpace p d tables) := by
  rw [pdClearUserSpace]
  -- after `n` entries those from the next one on are left
  refine wp_imp (wp_upTo _ (fun n k' => ∃ d' tables', k' = k.withSpace p d' tables' ∧
    heap.Leads {j ∈ S | numKernelPde + n ≤ j} d' ∧
    heap.Holds used {j ∈ S | numKernelPde + n ≤ j} tables') _ ⟨d, tables, rfl, ?first⟩ ?step) ?last
  case first =>
    have hall : {j ∈ S | numKernelPde + 0 ≤ j} = S := by
      ext j
      exact ⟨fun hj => hj.1, fun hj => ⟨hj, (hS j hj).1⟩⟩
    rw [hall]
    exact ⟨hd, hheld⟩
  case step =>
    rintro n _ hn ⟨d', tables', rfl, hd', hheld'⟩
    rw [wp_bind, wp_readSpace]
    have hnext : {j ∈ S | numKernelPde + (n + 1) ≤ j} =
        {j ∈ S | numKernelPde + n ≤ j} \ {numKernelPde + n} := by
      ext j
      constructor
      · rintro ⟨hj, hle⟩
        refine ⟨⟨hj, by omega⟩, ?_⟩
        rintro rfl
        omega
      · rintro ⟨⟨hj, hle⟩, hne⟩
        exact ⟨hj, lt_of_le_of_ne hle (Ne.symm hne)⟩
    rw [hnext]
    by_cases hpde : entryPresent (d' (numKernelPde + n)) = true
    · have hmem := hd'.mem_iff.mpr hpde
      rw [if_pos hpde, wp_bind, wp_writeSpace, wp_freeTable (hheld'.mem hd' hmem)]
      exact ⟨_, _, rfl, hd'.remove _, hheld'.remove hfresh (hd'.table _ hmem)⟩
    · have hnot := mt hd'.mem_iff.mp hpde
      rw [if_neg hpde, Set.sdiff_singleton_eq_self hnot]
      exact ⟨d', tables', rfl, hd', hheld'⟩
  case last =>
    rintro _ _ ⟨d', tables', rfl, -, hheld'⟩
    have hnone : {j ∈ S | numKernelPde + (numEntries - numKernelPde) ≤ j} = ∅ := by
      ext j
      refine iff_of_false ?_ fun hj => hj.elim
      rintro ⟨hj, hle⟩
      exact absurd (hS j hj).2 (not_lt.mpr hle)
    rw [hnone] at hheld'
    exact ⟨d', by rw [hheld'.empty]⟩

/-- **A pcb ends** with the page tables that its directory leads to. -/
theorem wp_pcbDestroy {used : ℕ → Bool} (hp : k.pcbs p = some b) (hlock : (k.spaces p).waitLock ≠ 0)
    (hfresh : heap.Fresh used) (hd : heap.Leads S d)
    (hS : ∀ j ∈ S, numKernelPde ≤ j ∧ j < numEntries) (hheld : heap.Holds used S tables) :
    wp (pcbDestroy p) (fun _ k' => ∃ d', k' = { k.withSpace p d' used with
      pcbs := Function.update k.pcbs p none }) E (k.withSpace p d tables) := by
  have hlive : (k.withSpace p d tables).pcbs p = some b := hp
  have hword : ((k.withSpace p d tables).spaces p).waitLock ≠ 0 := by
    change (Function.update k.spaces p _ p).waitLock ≠ 0
    rw [Function.update_self]
    exact hlock
  rw [pcbDestroy, wp_bind, wp_readPcb hlive, wp_bind, wp_gets, wp_bind, wp_require]
  refine ⟨fun _ => ?_, fun hno => absurd hword hno⟩
  rw [wp_bind]
  refine wp_imp (wp_pdClearUserSpace hfresh hd hS hheld) ?_
  rintro _ _ ⟨d', rfl⟩
  exact ⟨d', rfl⟩

/-- `pd_clear_user_space` frees what an entry leads to, whatever that is. -/
lemma wlp_pdClearUserSpace {j : ℕ} (hd : (k.spaces p).directory = some d)
    (hle : numKernelPde ≤ j) (hlt : j < numEntries) (hj : entryPresent (d j) = true) :
    wlp (pdClearUserSpace p) (fun _ k' => k'.tables ≠ k.tables) k := by
  rw [wlp, pdClearUserSpace]
  -- page tables are only freed, and from entry `j` on one of them has been
  refine wp_imp (wp_upTo _ (fun n k' => ∃ d' tables', k' = k.withSpace p d' tables' ∧
    (∀ i, numKernelPde + n ≤ i → d' i = d i) ∧ (∀ a, tables' a = true → k.tables a = true) ∧
    (j < numKernelPde + n → ∃ a, k.tables a = true ∧ tables' a = false)) _
    ⟨d, k.tables, (withSpace_self hd).symm, fun _ _ => rfl, fun _ ha => ha, ?first⟩ ?step) ?last
  case first =>
    exact fun hno => absurd hle (not_le.mpr hno)
  case step =>
    rintro n _ hn ⟨d', tables', rfl, hd', hless, hfreed⟩
    have hrest : ∀ i, numKernelPde + (n + 1) ≤ i →
        Function.update d' (numKernelPde + n) 0 i = d i := by
      intro i hi
      rw [Function.update_of_ne (by omega)]
      exact hd' i (by omega)
    rw [wp_bind, wp_readSpace]
    by_cases hpde : entryPresent (d' (numKernelPde + n)) = true
    · rw [if_pos hpde, wp_bind, wp_writeSpace, freeTable, wp_bind, wp_gets, wp_bind, wp_require]
      refine ⟨fun hlive => ?_, fun _ => trivial⟩
      refine ⟨_, _, rfl, hrest, fun a ha => ?_, fun _ => ?_⟩
      · by_cases hpt : a = removeFlags (d' (numKernelPde + n))
        · rw [hpt]
          exact hless _ hlive
        · rw [Function.update_of_ne hpt] at ha
          exact hless a ha
      · exact ⟨_, hless _ hlive, Function.update_self ..⟩
    · rw [if_neg hpde]
      refine ⟨d', tables', rfl, fun i hi => hd' i (by omega), hless, fun hjn => ?_⟩
      by_cases hlast : j = numKernelPde + n
      · rw [← hlast, hd' j hlast.ge, hj] at hpde
        exact absurd rfl hpde
      · exact hfreed (by omega)
  case last =>
    rintro _ _ ⟨d', tables', rfl, -, -, hfreed⟩ heq
    obtain ⟨a, hlive, hdead⟩ := hfreed (by omega)
    have hsame : tables' = k.tables := heq
    rw [hsame, hlive] at hdead
    cases hdead

/-- **An entry that is present, and is none of a page table of the pcb's own**: what it leads to is
freed. -/
theorem wlp_pcbDestroy {j : ℕ} (hp : k.pcbs p = some b) (hd : (k.spaces p).directory = some d)
    (hle : numKernelPde ≤ j) (hlt : j < numEntries) (hj : entryPresent (d j) = true) :
    wlp (pcbDestroy p) (fun _ k' => k'.tables ≠ k.tables) k := by
  rw [wlp, pcbDestroy, wp_bind, wp_readPcb hp, wp_bind, wp_gets, wp_bind, wp_require]
  refine ⟨fun _ => ?_, fun _ => trivial⟩
  rw [wp_bind]
  exact wp_imp (wlp_pdClearUserSpace hd hle hlt hj) fun _ _ hne => hne

/-- A pcb does not end when the lock of its wait semaphore is never got. -/
lemma wlp_pcbDestroy_locked (hp : k.pcbs p = some b) (hlock : (k.spaces p).waitLock = 0) :
    wlp (pcbDestroy p) (fun _ _ => False) k := by
  rw [wlp, pcbDestroy, wp_bind, wp_readPcb hp, wp_bind, wp_gets, wp_bind, wp_require]
  exact ⟨fun hno => absurd hlock hno, fun _ => trivial⟩

/-- The end of a pcb leaves the processes table alone. -/
lemma keeps_pcbDestroy (p : Ptr) : Keeps processes (fun _ => True) (pcbDestroy p) := by
  have hclear : Keeps processes (fun _ => True) (pdClearUserSpace p) := by
    refine Keeps.upTo (fun n => ?_) _
    refine .bind (keeps_readDirectory p) fun d => .ite ?_ (.pure ())
    exact .bind (.modify fun _ => rfl) fun _ => .bind (.gets _) fun _ =>
      .bind (keeps_require _ _) fun _ => .modify fun _ => rfl
  exact .bind (keeps_readPcb p) fun _ => .bind (.gets _) fun _ => .bind (keeps_require _ _)
    fun _ => .bind hclear fun _ => .modify fun _ => rfl

/-- Without a directory there is no copy, and no end of the pcb. -/
lemma wlp_pcbDestroy_lost (hp : k.pcbs p = some b) (hd : (k.spaces p).directory = none) :
    wlp (pcbDestroy p) (fun _ _ => False) k := by
  rw [wlp, pcbDestroy, wp_bind, wp_readPcb hp, wp_bind, wp_gets, wp_bind, wp_require]
  refine ⟨fun _ => ?_, fun _ => trivial⟩
  rw [wp_bind, pdClearUserSpace]
  -- the loop does not get past its first entry
  refine wp_imp (wp_upTo _ (fun n k' => n = 0 ∧ k' = k) _ ⟨rfl, rfl⟩ ?step) ?last
  case step =>
    rintro n _ - ⟨rfl, rfl⟩
    rw [wp_bind, readDirectory, wp_bind, wp_gets, hd]
    trivial
  case last =>
    rintro _ _ ⟨hzero, -⟩
    exact absurd hzero (by decide)

end Procs

end ShrekOS
