/-
The fork system call, `syscall_fork_c_handler` in `kern/handlers/life_cycle_handlers.c`, with
every `malloc` on its way.

* `ForkHeap`: what the `malloc`s answer;
* `syscallForkCHandler`: the call, with `schedulerAddProcess`, `tcbPoolAddPcbSafe` and
  `tcbPoolAddRunnableTcbSafe`;
* `ForkClean`: **a failed fork leaves no trace**, and one that returns a tid has added one
  thread and one process;
* `forkClean_iff`: when it is so, and `not_forkClean_of_tcbNode`: a fork that leaves its freed
  pcb in the processes table.

The tests for `NULL` arguments are left out, and the locks: the call runs alone. What becomes of
the page directory of the new pcb is in `Sched/PcbMemory`.
-/
import ShrekOS.Sched.PcbMemory

namespace ShrekOS

open Kit Kit.Cmd

/-- What `malloc` answers to the requests for a table entry: a node with its address, and
whether it gets memory for the entry and for the entry's node. -/
structure EntryHeap where
  node : Option Ptr
  entry : Bool
  entryNode : Bool

/-- What `malloc` answers in a fork, `none` where it fails, and what the tcb's memory holds. -/
structure ForkHeap where
  pcb : Option Ptr
  init : PcbHeap
  copy : CopyHeap
  tcb : Option Ptr
  memory : Tcb
  kStackBot : Option ℕ
  pcbEntry : EntryHeap
  tcbEntry : EntryHeap

namespace Procs

/-! ### The memory of tcbs -/

/-- An operation on the scheduler. -/
def onScheduler {α : Type} (c : SchedM α) : ProcsM α := fun k =>
  match c k.sched with
  | (r, s) => (r, { k with sched := s })

/-- What `tcb_init` makes of the memory of a tcb, with the kernel stack it gets or without. -/
def tcbInit (t : Tcb) (tid : ℤ) : Option ℕ → Tcb
  | none => { t with tid := tid, status := .runnable, kStackBot := 0 }
  | some bot => { t with
      tid := tid
      status := .runnable
      kStackBot := bot
      kStackTop := bot + kStackSize
      origKStack := bot + kStackSize - 18 * 4
      tmpKStack := bot + kStackSize - 18 * 4 }

/-- `malloc(sizeof(tcb_t))`, which does not fail, and `tcb_init`. -/
def newTcb (heap : ForkHeap) (tcb : Ptr) (tid : ℤ) (pcb : Ptr) : ProcsM ℤ := do
  require ((← gets fun k => k.sched.tcbs tcb) = none) .badHeap
  modify fun k => { k with
    sched.tcbs := Function.update k.sched.tcbs tcb (some (tcbInit heap.memory tid heap.kStackBot))
    pcbOf := Function.update k.pcbOf tcb (some pcb) }
  return if heap.kStackBot = none then -2 else 0

/-- `malloc(sizeof(ll_node_t))`, which does not fail, and `ll_node_init`. -/
def llNodeInit (node e : Ptr) : SchedM Unit := do
  require ((← gets fun s => s.nodes.e node) = none) .badHeap
  modify fun s => { s with nodes := {
    next := Function.update s.nodes.next node none
    prev := Function.update s.nodes.prev node none
    e := Function.update s.nodes.e node (some e) } }

/-! ### The tables -/

/-- `ht_put_entry(&(tp->processes), ..)`. -/
def putProcess (pid : ℤ) (node : Ptr) : ProcsM ℤ := fun k =>
  (.ok (htPutEntry k.processes (pid, node)).1,
    { k with processes := (htPutEntry k.processes (pid, node)).2 })

/-- `tcb_pool_add_pcb_safe`. -/
def tcbPoolAddPcbSafe (heap : EntryHeap) (pcb : Ptr) : ProcsM ℤ := do
  match heap.node with
  | none => return -2
  | some node =>
      onScheduler (llNodeInit node pcb)
      if heap.entry = false then
        return -3
      if heap.entryNode = false then
        return -4
      if (← putProcess (← readPcb pcb).pid node) < 0 then
        return -3
      return 0

/-- `tcb_pool_add_runnable_tcb_safe`. -/
def tcbPoolAddRunnableTcbSafe (heap : EntryHeap) (tcb : Ptr) : SchedM ℤ := do
  match heap.node with
  | none => return -2
  | some node =>
      llNodeInit node tcb
      if heap.entry = false then
        return -3
      if heap.entryNode = false then
        return -4
      tcbPoolAddRunnableTcb (← readTcb tcb).tid node

/-! ### The call -/

/-- `sched->next_pid++`. -/
def newPid : ProcsM ℕ := do
  let pid ← gets Procs.nextPid
  require (pid + 1 < 2 ^ 31) .overflow
  modify fun k => { k with nextPid := k.nextPid + 1 }
  return pid

/-- `scheduler_add_process`. -/
def schedulerAddProcess (heap : ForkHeap) (pcb : Ptr) : ProcsM ℤ := do
  let pid ← newPid
  writePcb pcb fun b => { b with pid := pid }
  let tid ← onScheduler newTid
  match heap.tcb with
  | none => return -2
  | some tcb =>
      if (← newTcb heap tcb tid pcb) < 0 then
        return -3
      writePcb pcb fun b => { b with originalTid := tid }
      writePcb pcb fun b => { b with numThreads := b.numThreads + 1 }
      if (← tcbPoolAddPcbSafe heap.pcbEntry pcb) < 0 then
        return -4
      if (← onScheduler (tcbPoolAddRunnableTcbSafe heap.tcbEntry tcb)) < 0 then
        return -3
      return tid

/-- `scheduler_get_current_pcb`, and the pcb is then followed. -/
def schedulerGetCurrentPcb : ProcsM Ptr := do
  let cur ← onScheduler currentTcb
  match ← gets fun k => k.pcbOf cur with
  | some pcb => return pcb
  | none => fault .badPointer

/-- `syscall_fork_c_handler`. -/
def syscallForkCHandler (heap : ForkHeap) : ProcsM ℤ := do
  let cur ← schedulerGetCurrentPcb
  if 1 < (← readPcb cur).numThreads then
    return -3
  match heap.pcb with
  | none => return -4
  | some pcb =>
      pcbInit heap.init pcb
      if (← pcbCopy heap.copy pcb cur) < 0 then
        pcbDestroy pcb
        return -6
      let tid ← schedulerAddProcess heap pcb
      if tid < 0 then
        pcbDestroy pcb
        return -7
      writePcb cur fun b => { b with numChildProc := b.numChildProc + 1 }
      return tid

/-! ### What is asked of the call -/

/-- Every thread and every process of the tables leads to a pcb in memory. -/
structure TablesLive (k : Procs) : Prop where
  threads : ∀ tid n, htGet k.sched.threads tid = some n → ∃ c t p b,
    k.sched.Row tid n c t ∧ k.pcbOf c = some p ∧ k.pcbs p = some b
  processes : ∀ pid n, htGet k.processes pid = some n → ∃ p b,
    k.sched.nodes.e n = some p ∧ k.pcbs p = some b

/-- The fork has been refused: the tables, the pools, the pcbs and the page tables are as they
were, and no table leads to a pcb that has been freed. -/
structure Unforked (L : Pool → List Ptr) (k k' : Procs) : Prop where
  threads : k'.sched.threads = k.sched.threads
  processes : k'.processes = k.processes
  pools : k'.sched.pools = k.sched.pools
  lists : k'.sched.Lists L
  pcbs : k'.pcbs = k.pcbs
  live : k'.TablesLive
  spaces : ∀ q, k.pcbs q ≠ none → k'.spaces q = k.spaces q
  pageTables : k'.tables = k.tables
  tids : k.sched.nextTid ≤ k'.sched.nextTid
  pids : k.nextPid ≤ k'.nextPid

/-- A new thread and its new process: the nodes in the tables, the tcb and the pcb. -/
structure Newcomer where
  node : Ptr
  tcb : Ptr
  t : Tcb
  pcbNode : Ptr
  pcb : Ptr
  b : Pcb

/-- What was in memory is as it was, but for the pcb of the caller. -/
structure Kept (k : Procs) (cur : Ptr) (k' : Procs) : Prop where
  elem : ∀ n, k.sched.nodes.e n ≠ none → k'.sched.nodes.e n = k.sched.nodes.e n
  tcbs : ∀ c, k.sched.tcbs c ≠ none →
    k'.sched.tcbs c = k.sched.tcbs c ∧ k'.pcbOf c = k.pcbOf c
  pcbs : ∀ q ≠ cur, k.pcbs q ≠ none → k'.pcbs q = k.pcbs q
  spaces : ∀ q, k.pcbs q ≠ none → k'.spaces q = k.spaces q
  pageTables : ∀ a, k.tables a = true → k'.tables a = true

/-- The fork has been made: exactly one thread and one process are new, the thread is the last of
the runnable pool, and the caller has one child more. -/
structure Forked (L : Pool → List Ptr) (k : Procs) (cur : Ptr) (tid : ℤ) (k' : Procs)
    (x : Newcomer) : Prop where
  nextTid : tid = k.sched.nextTid
  nextPid : x.b.pid = k.nextPid
  threads : htGet k'.sched.threads = Function.update (htGet k.sched.threads) tid (some x.node)
  row : k'.sched.Row tid x.node x.tcb x.t
  newTcb : k.sched.tcbs x.tcb = none
  ofTid : x.t.tid = tid
  owner : k'.pcbOf x.tcb = some x.pcb
  processes : htGet k'.processes =
    Function.update (htGet k.processes) x.b.pid (some x.pcbNode)
  elem : k'.sched.nodes.e x.pcbNode = some x.pcb
  pcb : k'.pcbs x.pcb = some x.b
  newPcb : k.pcbs x.pcb = none
  directory : (k'.spaces x.pcb).directory ≠ none
  only : ∀ q ≠ x.pcb, k'.pcbs q ≠ none → k.pcbs q ≠ none
  caller : ∀ b, k.pcbs cur = some b →
    k'.pcbs cur = some { b with numChildProc := b.numChildProc + 1 }
  kept : Kept k cur k'
  lists : k'.sched.Lists (Function.update L .runnablePool (L .runnablePool ++ [x.node]))
  tids : k'.sched.nextTid = k.sched.nextTid + 1
  pids : k'.nextPid = k.nextPid + 1

/-- **What is asked of the call**: it returns, with a negative code when the fork has left no
trace, and otherwise with the tid of the one new thread. -/
def ForkClean (L : Pool → List Ptr) (heap : ForkHeap) (k : Procs) (cur : Ptr) : Prop :=
  ∃ r k', syscallForkCHandler heap k = (.ok r, k') ∧ (r < 0 → Unforked L k k') ∧
    (0 ≤ r → ∃ x, Forked L k cur r k' x)

/-- The pools are lists, no tid and no pid is used twice, the tables are live, and every pcb has a
page directory. -/
structure Consistent (L : Pool → List Ptr) (k : Procs) : Prop where
  lists : k.sched.Lists L
  tids : ∀ tid : ℤ, k.sched.nextTid ≤ tid → htGet k.sched.threads tid = none
  pids : ∀ pid : ℤ, k.nextPid ≤ pid → htGet k.processes pid = none
  live : k.TablesLive
  directories : ∀ p, k.pcbs p ≠ none → (k.spaces p).directory ≠ none

/-- The invariant of the pools says what is asked of the scheduler. -/
lemma Consistent.of_poolInv {k : Procs} {L : Pool → List Ptr} {D : Diary} {X : Set Ptr}
    (h : PoolInv D X k.sched L) (hpids : ∀ pid : ℤ, k.nextPid ≤ pid → htGet k.processes pid = none)
    (hlive : k.TablesLive) (hdirs : ∀ p, k.pcbs p ≠ none → (k.spaces p).directory ≠ none) :
    k.Consistent L :=
  ⟨h.lists, h.fresh, hpids, hlive, hdirs⟩

/-- The running thread has the pcb, with the page directory. -/
structure Calls (k : Procs) (cur : Ptr) (b : Pcb) (src : ℕ → ℕ) : Prop where
  thread : ∃ c, k.sched.curTcb = some c ∧ k.pcbOf c = some cur
  pcb : k.pcbs cur = some b
  directory : (k.spaces cur).directory = some src

/-- There is a tid and a pid left. -/
structure HasRoom (k : Procs) : Prop where
  pid : k.nextPid + 1 < 2 ^ 31
  tid : k.sched.nextTid + 1 < 2 ^ 31

end Procs

/-- All three requests for a table entry get memory. -/
structure EntryHeap.Enough (heap : EntryHeap) : Prop where
  node : heap.node ≠ none
  entry : heap.entry = true
  entryNode : heap.entryNode = true

namespace ForkHeap

/-- The memory that `malloc` answers with for the thread and the entries is not in use. -/
structure FreshEntries (heap : ForkHeap) (k : Procs) : Prop where
  tcb : ∀ c, heap.tcb = some c → k.sched.tcbs c = none
  pcbNode : ∀ n, heap.pcbEntry.node = some n → k.sched.nodes.e n = none
  tcbNode : ∀ n, heap.tcbEntry.node = some n → k.sched.nodes.e n = none
  apart : ∀ n, heap.pcbEntry.node = some n → heap.tcbEntry.node ≠ some n

/-- All memory that `malloc` answers with is not in use. -/
structure Fresh (heap : ForkHeap) (k : Procs) : Prop extends FreshEntries heap k where
  pcb : ∀ p, heap.pcb = some p → k.pcbs p = none
  tables : heap.copy.Fresh k.tables

/-- The requests up to the entry of the pcb in the processes table get memory. -/
structure Publishes (heap : ForkHeap) : Prop where
  tcb : heap.tcb ≠ none
  kStack : heap.kStackBot ≠ none
  entry : heap.pcbEntry.Enough

/-- **What a fork needs** of the memory that it gets, when it has got a pcb: a page directory; no
stray entry when there is no page table; the list of the wait semaphore, or a lock whose word is
not 0, when the new pcb is destroyed; and, when the address space is copied, a tid and a pid, and
the entry of the thread once the pcb is in the table. -/
structure Safe (heap : ForkHeap) (src : ℕ → ℕ) (k : Procs) : Prop where
  directory : heap.init.Enough
  stray : ∀ j, ¬ heap.copy.Stray src j
  lock : ¬ (heap.copy.Enough src ∧ heap.Publishes) → Procs.semInit heap.init ≠ 0
  room : heap.copy.Enough src → k.HasRoom
  thread : heap.copy.Enough src → heap.Publishes → heap.tcbEntry.Enough

end ForkHeap

namespace Procs

variable {k k₁ : Procs} {L : Pool → List Ptr} {heap : ForkHeap} {cur p c n : Ptr} {b : Pcb}
  {t : Tcb} {used : List Ptr} {src d : ℕ → ℕ} {tables : ℕ → Bool} {E : Fault → Procs → Prop}

/-! ### Rules -/

lemma wp_onScheduler {α : Type} {Q : α → Procs → Prop} (m : SchedM α) :
    wp (onScheduler m) Q E k ↔ wp m (fun a s => Q a { k with sched := s })
      (fun e s => E e { k with sched := s }) k.sched := by
  unfold wp onScheduler
  rcases m k.sched with ⟨_ | _, _⟩ <;> rfl

lemma wp_llNodeInit {s : Sched} {Q : Unit → Sched → Prop} {E : Fault → Sched → Prop}
    (hn : s.nodes.e n = none) (e : Ptr) :
    wp (llNodeInit n e) Q E s ↔ Q () { s with nodes := {
      next := Function.update s.nodes.next n none
      prev := Function.update s.nodes.prev n none
      e := Function.update s.nodes.e n (some e) } } := by
  rw [llNodeInit, wp_bind, wp_gets, wp_bind, wp_require]
  simp [hn]

/-! ### What the call has done before the pcb is in the table -/

/-- The call has counted and written to memory that it was given: tables and pools are those of
`k`, and of the pcbs only the new one has changed. -/
structure Drafts (k : Procs) (p : Ptr) (b : Option Pcb) (used : List Ptr) (k₁ : Procs) : Prop where
  threads : k₁.sched.threads = k.sched.threads
  pools : k₁.sched.pools = k.sched.pools
  nodes : ∀ n, k.sched.nodes.e n ≠ none → k₁.sched.nodes.next n = k.sched.nodes.next n ∧
    k₁.sched.nodes.prev n = k.sched.nodes.prev n ∧ k₁.sched.nodes.e n = k.sched.nodes.e n
  tcbs : ∀ c, k.sched.tcbs c ≠ none →
    k₁.sched.tcbs c = k.sched.tcbs c ∧ k₁.pcbOf c = k.pcbOf c
  pcbs : k₁.pcbs = Function.update k.pcbs p b
  unused : ∀ n, k.sched.nodes.e n = none → n ∉ used → k₁.sched.nodes.e n = none

namespace Drafts

/-- A write to the new pcb, or its end. -/
lemma write (h : Drafts k p (some b) used k₁) (b' : Option Pcb) :
    Drafts k p b' used { k₁ with pcbs := Function.update k₁.pcbs p b' } := by
  refine ⟨h.threads, h.pools, h.nodes, h.tcbs, ?_, h.unused⟩
  change Function.update k₁.pcbs p b' = _
  rw [h.pcbs, Function.update_idem]

/-- A new node. -/
lemma node (h : Drafts k p (some b) used k₁) (hn : k.sched.nodes.e n = none) (e : Ptr) :
    Drafts k p (some b) (n :: used) { k₁ with sched.nodes := {
      next := Function.update k₁.sched.nodes.next n none
      prev := Function.update k₁.sched.nodes.prev n none
      e := Function.update k₁.sched.nodes.e n (some e) } } := by
  refine ⟨h.threads, h.pools, fun m hm => ?_, h.tcbs, h.pcbs, fun m hm hnot => ?_⟩
  · have hne : m ≠ n := by
      rintro rfl
      exact hm hn
    change Function.update _ _ _ m = _ ∧ Function.update _ _ _ m = _ ∧
      Function.update _ _ _ m = _
    rw [Function.update_of_ne hne, Function.update_of_ne hne, Function.update_of_ne hne]
    exact h.nodes m hm
  · rw [List.mem_cons, not_or] at hnot
    change Function.update _ _ _ m = _
    rw [Function.update_of_ne hnot.1]
    exact h.unused m hm hnot.2

lemma pcb (h : Drafts k p (some b) used k₁) : k₁.pcbs p = some b := by
  rw [h.pcbs, Function.update_self]

/-- The pools are the lists that they were. -/
lemma lists (h : Drafts k p (some b) used k₁) (hL : k.sched.Lists L) : k₁.sched.Lists L := by
  refine ⟨fun i => ?_, hL.apart⟩
  have hlive : ∀ n ∈ L i, k.sched.nodes.e n ≠ none := fun n hn =>
    Option.isSome_iff_ne_none.mp ((hL.isLl i).live n hn)
  rw [h.pools]
  refine ⟨(hL.isLl i).links.congr ?_ ?_, fun n hn => ?_⟩
  · exact fun n hn => (h.nodes n (hlive n hn)).1
  · exact fun n hn => (h.nodes n (hlive n hn)).2.1
  · rw [(h.nodes n (hlive n hn)).2.2]
    exact (hL.isLl i).live n hn

end Drafts

/-- The two states have the same tcbs and the same counters. -/
structure SameTcbs (k₁ k₂ : Procs) : Prop where
  tcbs : k₂.sched.tcbs = k₁.sched.tcbs
  pcbOf : k₂.pcbOf = k₁.pcbOf
  nextTid : k₂.sched.nextTid = k₁.sched.nextTid
  nextPid : k₂.nextPid = k₁.nextPid

/-- The pcb is not put into the table. -/
lemma wp_addPcb_refused {heap : EntryHeap} (h : Drafts k p (some b) used k₁)
    (hproc : k₁.processes = k.processes)
    (hnew : ∀ n, heap.node = some n → k.sched.nodes.e n = none ∧ n ∉ used)
    (hnot : ¬ heap.Enough) :
    wp (tcbPoolAddPcbSafe heap p) (fun r k₂ => r < 0 ∧ k₂.processes = k.processes ∧
      SameTcbs k₁ k₂ ∧ ∃ used, Drafts k p (some b) used k₂) E k₁ := by
  unfold tcbPoolAddPcbSafe
  cases hnode : heap.node with
  | none => exact ⟨by decide, hproc, ⟨rfl, rfl, rfl, rfl⟩, used, h⟩
  | some n =>
      obtain ⟨hfree, hunused⟩ := hnew n hnode
      rw [wp_bind, wp_onScheduler, wp_llNodeInit (h.unused n hfree hunused)]
      by_cases hentry : heap.entry = false
      · rw [if_pos hentry]
        exact ⟨by decide, hproc, ⟨rfl, rfl, rfl, rfl⟩, _, h.node hfree p⟩
      · have hentryNode : heap.entryNode = false := by
          by_contra hne
          exact hnot ⟨by rw [hnode]; nofun, by simpa using hentry, by simpa using hne⟩
        rw [if_neg hentry, if_pos hentryNode]
        exact ⟨by decide, hproc, ⟨rfl, rfl, rfl, rfl⟩, _, h.node hfree p⟩

/-- **The pcb is put into the table.** -/
lemma wp_addPcb {heap : EntryHeap} (h : Drafts k p (some b) used k₁)
    (hproc : k₁.processes = k.processes) (hpid : htGet k.processes b.pid = none)
    (hnew : ∀ n, heap.node = some n → k.sched.nodes.e n = none ∧ n ∉ used)
    (henough : heap.Enough) :
    wp (tcbPoolAddPcbSafe heap p) (fun r k₂ => r = 0 ∧ SameTcbs k₁ k₂ ∧ ∃ n, heap.node = some n ∧
      Drafts k p (some b) (n :: used) k₂ ∧ k₂.sched.nodes.e n = some p ∧
      htGet k₂.processes = Function.update (htGet k.processes) b.pid (some n)) E k₁ := by
  obtain ⟨n, hnode⟩ := Option.ne_none_iff_exists'.mp henough.node
  obtain ⟨hfree, hunused⟩ := hnew n hnode
  have hd := h.node hfree p
  unfold tcbPoolAddPcbSafe
  rw [hnode, wp_bind, wp_onScheduler, wp_llNodeInit (h.unused n hfree hunused),
    if_neg (by simp [henough.entry]), if_neg (by simp [henough.entryNode]), wp_bind,
    wp_readPcb hd.pcb]
  obtain ⟨hput, hget⟩ := htGet_htPut b.pid (hproc ▸ hpid) n
  rw [wp_bind]
  change wp (if (htPut k₁.processes b.pid n).1 < 0 then _ else _) _ _ _
  rw [hput, if_neg (by decide)]
  refine ⟨rfl, ⟨rfl, rfl, rfl, rfl⟩, n, rfl, ⟨hd.threads, hd.pools, hd.nodes, hd.tcbs, hd.pcbs,
    hd.unused⟩, Function.update_self .., ?_⟩
  rw [← hproc]
  exact hget

/-- The tcb is not put into the table. -/
lemma wp_addTcb_refused {heap : EntryHeap} (h : Drafts k p (some b) used k₁)
    (hnew : ∀ n, heap.node = some n → k.sched.nodes.e n = none ∧ n ∉ used)
    (hnot : ¬ heap.Enough) :
    wp (onScheduler (tcbPoolAddRunnableTcbSafe heap c)) (fun r k₂ => r < 0 ∧
      k₂.processes = k₁.processes ∧ (∀ n, k₁.sched.nodes.e n ≠ none →
        k₂.sched.nodes.e n = k₁.sched.nodes.e n) ∧ ∃ used, Drafts k p (some b) used k₂) E k₁ := by
  rw [wp_onScheduler]
  unfold tcbPoolAddRunnableTcbSafe
  cases hnode : heap.node with
  | none => exact ⟨by decide, rfl, fun _ _ => rfl, used, h⟩
  | some n =>
      obtain ⟨hfree, hunused⟩ := hnew n hnode
      have hnone := h.unused n hfree hunused
      have hkeep : ∀ m, k₁.sched.nodes.e m ≠ none →
          Function.update k₁.sched.nodes.e n (some c) m = k₁.sched.nodes.e m := by
        intro m hm
        refine Function.update_of_ne ?_ ..
        rintro rfl
        exact hm hnone
      rw [wp_bind, wp_llNodeInit hnone]
      by_cases hentry : heap.entry = false
      · rw [if_pos hentry]
        exact ⟨by decide, rfl, hkeep, _, h.node hfree c⟩
      · have hentryNode : heap.entryNode = false := by
          by_contra hne
          exact hnot ⟨by rw [hnode]; nofun, by simpa using hentry, by simpa using hne⟩
        rw [if_neg hentry, if_pos hentryNode]
        exact ⟨by decide, rfl, hkeep, _, h.node hfree c⟩

/-- **The tcb is put into the table and at the end of the runnable pool.** -/
lemma wp_addTcb {heap : EntryHeap} (h : Drafts k p (some b) used k₁) (hL : k.sched.Lists L)
    (ht : k₁.sched.tcbs c = some t) (htid : htGet k.sched.threads t.tid = none)
    (hnew : ∀ n, heap.node = some n → k.sched.nodes.e n = none ∧ n ∉ used)
    (henough : heap.Enough) :
    wp (onScheduler (tcbPoolAddRunnableTcbSafe heap c)) (fun r k₂ => r = 0 ∧ ∃ n,
      heap.node = some n ∧ SameTcbs k₁ k₂ ∧ k₂.processes = k₁.processes ∧ k₂.pcbs = k₁.pcbs ∧
      k₂.sched.nodes.e = Function.update k₁.sched.nodes.e n (some c) ∧
      htGet k₂.sched.threads = Function.update (htGet k.sched.threads) t.tid (some n) ∧
      k₂.sched.Lists (Function.update L .runnablePool (L .runnablePool ++ [n]))) E k₁ := by
  obtain ⟨n, hnode⟩ := Option.ne_none_iff_exists'.mp henough.node
  obtain ⟨hfree, hunused⟩ := hnew n hnode
  have hd := h.node hfree c
  have hoff : ∀ i, n ∉ L i := by
    intro i hi
    have hlive := (hL.isLl i).live n hi
    rw [hfree] at hlive
    cases hlive
  obtain ⟨hput, hget⟩ := htGet_htPut t.tid (h.threads ▸ htid) n
  rw [wp_onScheduler]
  unfold tcbPoolAddRunnableTcbSafe
  rw [hnode, wp_bind, wp_llNodeInit (h.unused n hfree hunused),
    if_neg (by simp [henough.entry]), if_neg (by simp [henough.entryNode]), wp_bind]
  refine (wp_readTcb (t := t) ?_).mpr ?_
  · exact ht
  rw [tcbPoolAddRunnableTcb, wp_bind]
  change wp (if (htPut k₁.sched.threads t.tid n).1 < 0 then _ else _) _ _ _
  rw [hput, if_neg (by decide), wp_bind]
  refine wp_linkLast (L := L) ?_ hoff ?_ fun nodes pools he hlists => ?_
  · exact ⟨(hd.lists hL).isLl, hL.apart⟩
  · exact ⟨Function.update_self .., Function.update_self .., by simp⟩
  · rw [if_neg (by decide)]
    refine ⟨rfl, n, rfl, ⟨rfl, rfl, rfl, rfl⟩, rfl, rfl, he, ?_, ⟨hlists.isLl, hlists.apart⟩⟩
    rw [← h.threads]
    exact hget

/-! ### `scheduler_add_process` -/

/-- The new process and its thread, in the memory that `malloc` answers with. -/
structure IsNew (heap : ForkHeap) (k : Procs) (p : Ptr) (b : Pcb) (x : Newcomer) : Prop where
  pcb : x.pcb = p
  b : x.b = { b with
    pid := k.nextPid, originalTid := k.sched.nextTid, numThreads := b.numThreads + 1 }
  tcb : heap.tcb = some x.tcb
  t : x.t = tcbInit heap.memory k.sched.nextTid heap.kStackBot

/-- The thread and the process are in their tables. -/
structure AddDone (L : Pool → List Ptr) (heap : ForkHeap) (k : Procs) (p : Ptr) (b : Pcb)
    (x : Newcomer) (k₂ : Procs) : Prop where
  isNew : IsNew heap k p b x
  elem : ∀ n, k.sched.nodes.e n ≠ none → k₂.sched.nodes.e n = k.sched.nodes.e n
  tcbs : ∀ c, k.sched.tcbs c ≠ none →
    k₂.sched.tcbs c = k.sched.tcbs c ∧ k₂.pcbOf c = k.pcbOf c
  pcbs : k₂.pcbs = Function.update k.pcbs p (some x.b)
  tcb : k₂.sched.tcbs x.tcb = some x.t
  owner : k₂.pcbOf x.tcb = some p
  node : k₂.sched.nodes.e x.node = some x.tcb
  pcbNode : k₂.sched.nodes.e x.pcbNode = some p
  processes : htGet k₂.processes =
    Function.update (htGet k.processes) k.nextPid (some x.pcbNode)
  threads : htGet k₂.sched.threads =
    Function.update (htGet k.sched.threads) k.sched.nextTid (some x.node)
  lists : k₂.sched.Lists (Function.update L .runnablePool (L .runnablePool ++ [x.node]))
  tids : k₂.sched.nextTid = k.sched.nextTid + 1
  pids : k₂.nextPid = k.nextPid + 1

/-- How `scheduler_add_process` ends for a new pcb: before the pcb is in the table, when it is
there and the thread is not, or when both are. -/
inductive AddOutcome (L : Pool → List Ptr) (heap : ForkHeap) (k : Procs) (p : Ptr) (b : Pcb) :
    ℤ → Procs → Prop where
  | refused {r : ℤ} {k₂ : Procs} {b' : Pcb} {used : List Ptr} : ¬ heap.Publishes → r < 0 →
      k₂.processes = k.processes → k.sched.nextTid ≤ k₂.sched.nextTid → k.nextPid ≤ k₂.nextPid →
      Drafts k p (some b') used k₂ → AddOutcome L heap k p b r k₂
  | late {r : ℤ} {k₂ : Procs} {b' : Pcb} {n : Ptr} {used : List Ptr} : heap.Publishes →
      ¬ heap.tcbEntry.Enough → r < 0 → htGet k₂.processes k.nextPid = some n →
      k₂.sched.nodes.e n = some p → Drafts k p (some b') used k₂ → AddOutcome L heap k p b r k₂
  | done {k₂ : Procs} {x : Newcomer} : heap.Publishes → heap.tcbEntry.Enough →
      AddDone L heap k p b x k₂ → AddOutcome L heap k p b k.sched.nextTid k₂

/-- The state with the new pcb, and with tids and pids taken. -/
def draft (k : Procs) (p : Ptr) (b : Pcb) (i j : ℕ) : Procs := { k with
  sched.nextTid := k.sched.nextTid + i
  nextPid := k.nextPid + j
  pcbs := Function.update k.pcbs p (some b) }

/-- The state with a new tcb, of a thread of the pcb. -/
def withTcb (k : Procs) (c : Ptr) (t : Tcb) (p : Ptr) : Procs := { k with
  sched.tcbs := Function.update k.sched.tcbs c (some t)
  pcbOf := Function.update k.pcbOf c (some p) }

section draft

variable {i j : ℕ}

lemma draft_pcb (k : Procs) (p : Ptr) (b : Pcb) (i j : ℕ) : (k.draft p b i j).pcbs p = some b :=
  Function.update_self ..

lemma drafts_draft (k : Procs) (p : Ptr) (b : Pcb) (i j : ℕ) :
    Drafts k p (some b) [] (k.draft p b i j) :=
  ⟨rfl, rfl, fun _ _ => ⟨rfl, rfl, rfl⟩, fun _ _ => ⟨rfl, rfl⟩, rfl, fun _ hn _ => hn⟩

/-- The draft of a state with a new tcb is one of the state without it. -/
lemma drafts_withTcb (hc : k.sched.tcbs c = none) (t : Tcb) (p : Ptr) (b : Pcb) (i j : ℕ) :
    Drafts k p (some b) [] ((k.withTcb c t p).draft p b i j) := by
  refine ⟨rfl, rfl, fun _ _ => ⟨rfl, rfl, rfl⟩, fun c' hc' => ?_, rfl, fun _ hn _ => hn⟩
  have hne : c' ≠ c := by
    rintro rfl
    exact hc' hc
  exact ⟨Function.update_of_ne hne .., Function.update_of_ne hne ..⟩

lemma wp_newPid {Q : ℕ → Procs → Prop} (hroom : k.nextPid + j + 1 < 2 ^ 31) :
    wp newPid Q E (k.draft p b i j) ↔ Q (k.nextPid + j) (k.draft p b i (j + 1)) := by
  rw [newPid, wp_bind, wp_gets, wp_bind, wp_require]
  exact ⟨fun h => h.1 hroom, fun h => ⟨fun _ => h, fun hno => absurd hroom hno⟩⟩

lemma wp_newTid {Q : ℕ → Procs → Prop} (hroom : k.sched.nextTid + i + 1 < 2 ^ 31) :
    wp (onScheduler newTid) Q E (k.draft p b i j) ↔
      Q (k.sched.nextTid + i) (k.draft p b (i + 1) j) := by
  rw [wp_onScheduler, newTid, wp_bind, wp_gets, wp_bind, wp_require]
  exact ⟨fun h => h.1 hroom, fun h => ⟨fun _ => h, fun hno => absurd hroom hno⟩⟩

lemma wp_writeDraft {Q : Unit → Procs → Prop} (f : Pcb → Pcb) :
    wp (writePcb p f) Q E (k.draft p b i j) ↔ Q () (k.draft p (f b) i j) := by
  rw [wp_writePcb (draft_pcb k p b i j)]
  simp only [draft, Function.update_idem]

lemma wp_newTcb {Q : ℤ → Procs → Prop} (hc : k.sched.tcbs c = none) (tid : ℤ) :
    wp (newTcb heap c tid p) Q E (k.draft p b i j) ↔ Q (if heap.kStackBot = none then -2 else 0)
      ((k.withTcb c (tcbInit heap.memory tid heap.kStackBot) p).draft p b i j) := by
  rw [newTcb, wp_bind, wp_gets, wp_bind, wp_require]
  exact ⟨fun h => h.1 hc, fun h => ⟨fun _ => h, fun hno => absurd hc hno⟩⟩

end draft

/-- Without a tid or a pid that is left the call overflows. -/
lemma wp_schedulerAddProcess_overflow (hroom : ¬ k.HasRoom) :
    wp (schedulerAddProcess heap p) (fun _ _ => False) (fun _ _ => True) (k.draft p b 0 0) := by
  rw [schedulerAddProcess, wp_bind]
  by_cases hpid : k.nextPid + 1 < 2 ^ 31
  · rw [wp_newPid hpid, wp_bind, wp_writeDraft, wp_bind, wp_onScheduler, newTid, wp_bind, wp_gets,
      wp_bind, wp_require]
    exact ⟨fun htid => absurd ⟨hpid, htid⟩ hroom, fun _ => trivial⟩
  · rw [newPid, wp_bind, wp_gets, wp_bind, wp_require]
    exact ⟨fun h => absurd h hpid, fun _ => trivial⟩

/-- The two entries of `scheduler_add_process`, when the tcb is there. -/
lemma wp_addEntries (hk : k.Consistent L) (hfresh : heap.FreshEntries k) (hc : heap.tcb = some c)
    (hstack : heap.kStackBot ≠ none) :
    wp (tcbPoolAddPcbSafe heap.pcbEntry p) (fun r k₂ =>
      wp (if r < 0 then pure (-4) else do
          if (← onScheduler (tcbPoolAddRunnableTcbSafe heap.tcbEntry c)) < 0 then
            return -3
          return (k.sched.nextTid : ℤ)) (AddOutcome L heap k p b) E k₂) E
      ((k.withTcb c (tcbInit heap.memory k.sched.nextTid heap.kStackBot) p).draft p { b with
        pid := k.nextPid
        originalTid := k.sched.nextTid
        numThreads := b.numThreads + 1 } 1 1) := by
  set t := tcbInit heap.memory k.sched.nextTid heap.kStackBot with ht
  set b₁ : Pcb := { b with
    pid := k.nextPid, originalTid := k.sched.nextTid, numThreads := b.numThreads + 1 } with hb₁
  -- the child as it is before it is entered: linked nowhere
  have hd : Drafts k p (some b₁) [] ((k.withTcb c t p).draft p b₁ 1 1) :=
    drafts_withTcb (hfresh.tcb c hc) ..
  have htcb : ((k.withTcb c t p).draft p b₁ 1 1).sched.tcbs c = some t := Function.update_self ..
  have howner : ((k.withTcb c t p).draft p b₁ 1 1).pcbOf c = some p := Function.update_self ..
  have htid : t.tid = k.sched.nextTid := by
    rw [ht]
    cases heap.kStackBot <;> rfl
  -- whether the heap has the entry of the pcb, and then that of the tcb
  by_cases henough : heap.pcbEntry.Enough
  · have hpublishes : heap.Publishes := ⟨by rw [hc]; nofun, hstack, henough⟩
    refine wp_imp (wp_addPcb hd rfl (hk.pids _ le_rfl)
      (fun n hn => ⟨hfresh.pcbNode n hn, nofun⟩) henough) ?_
    rintro r k₁ ⟨rfl, hsame, n, hn, hd₁, helem, hprocs⟩
    have hnew : ∀ m, heap.tcbEntry.node = some m → k.sched.nodes.e m = none ∧ m ∉ [n] := by
      intro m hm
      refine ⟨hfresh.tcbNode m hm, fun hmem => ?_⟩
      rw [List.mem_singleton.mp hmem] at hm
      exact hfresh.apart n hn hm
    rw [if_neg (by decide), wp_bind]
    by_cases hthread : heap.tcbEntry.Enough
    · refine wp_imp (wp_addTcb hd₁ hk.lists (hsame.tcbs ▸ htcb) (htid ▸ hk.tids _ le_rfl) hnew
        hthread) ?_
      rintro r k₂ ⟨rfl, m, hm, hsame₂, hprocs₂, hpcbs₂, helem₂, hthreads₂, hlists⟩
      rw [if_neg (by decide)]
      have hne : ∀ a, a ≠ m → k₂.sched.nodes.e a = k₁.sched.nodes.e a := by
        intro a ha
        rw [helem₂, Function.update_of_ne ha]
      refine .done (x := ⟨m, c, t, n, p, b₁⟩) hpublishes hthread ⟨⟨rfl, rfl, hc, rfl⟩,
        fun a ha => ?_, fun d hdold => ?_, hpcbs₂.trans hd₁.pcbs, ?_, ?_, ?_, ?_, hprocs₂ ▸ hprocs,
        htid ▸ hthreads₂, hlists, hsame₂.nextTid.trans hsame.nextTid,
        hsame₂.nextPid.trans hsame.nextPid⟩
      · rw [hne a (by rintro rfl; exact ha (hnew a hm).1)]
        exact (hd₁.nodes a ha).2.2
      · rw [hsame₂.tcbs, hsame₂.pcbOf]
        exact hd₁.tcbs d hdold
      · rw [hsame₂.tcbs, hsame.tcbs]
        exact htcb
      · rw [hsame₂.pcbOf, hsame.pcbOf]
        exact howner
      · rw [helem₂, Function.update_self]
      · rw [hne n (by rintro rfl; exact hfresh.apart n hn hm)]
        exact helem
    -- the process is entered and its thread is not
    · refine wp_imp (wp_addTcb_refused hd₁ hnew hthread) ?_
      rintro r k₂ ⟨hr, hprocs₂, hkeep, used, hd₂⟩
      rw [if_pos hr]
      refine .late hpublishes hthread (by decide) (n := n) ?_ ?_ hd₂
      · rw [hprocs₂, hprocs, Function.update_self]
      · rw [hkeep n (by rw [helem]; nofun), helem]
  -- nothing was entered
  · refine wp_imp (wp_addPcb_refused hd rfl (fun n hn => ⟨hfresh.pcbNode n hn, nofun⟩) henough) ?_
    rintro r k₁ ⟨hr, hprocs, hsame, used, hd₁⟩
    rw [if_pos hr]
    refine .refused (fun hp => henough hp.entry) (by decide) hprocs ?_ ?_ hd₁
    · rw [hsame.nextTid]
      exact Nat.le_succ _
    · rw [hsame.nextPid]
      exact Nat.le_succ _

/-- **`scheduler_add_process` for a new pcb.** -/
theorem wp_schedulerAddProcess (hk : k.Consistent L) (hfresh : heap.FreshEntries k)
    (hroom : k.HasRoom) :
    wp (schedulerAddProcess heap p) (AddOutcome L heap k p b) E (k.draft p b 0 0) := by
  have hpid := hk.pids k.nextPid le_rfl
  have htid := hk.tids k.sched.nextTid le_rfl
  rw [schedulerAddProcess, wp_bind, wp_newPid hroom.pid, wp_bind, wp_writeDraft, wp_bind,
    wp_newTid hroom.tid]
  cases hc : heap.tcb with
  | none =>
      exact .refused (fun hp => hp.tcb hc) (by decide) rfl (Nat.le_succ _) (Nat.le_succ _)
        (drafts_draft ..)
  | some c =>
      have hfree := hfresh.tcb c hc
      rw [wp_bind, wp_newTcb hfree]
      by_cases hstack : heap.kStackBot = none
      · rw [if_pos hstack]
        exact .refused (fun hp => hp.kStack hstack) (by decide) rfl (Nat.le_succ _) (Nat.le_succ _)
          (drafts_withTcb hfree ..)
      · rw [if_neg hstack, if_neg (by decide), wp_bind, wp_writeDraft, wp_bind, wp_writeDraft,
          wp_bind]
        exact wp_addEntries hk hfresh hc hstack

/-! ### The call -/

/-- The state with the memory of a new pcb and other page tables. -/
def respace (k : Procs) (p : Ptr) (x : PcbSpace) (tables : ℕ → Bool) : Procs :=
  { k with spaces := Function.update k.spaces p x, tables := tables }

lemma respace_spaces (k : Procs) (p : Ptr) (x : PcbSpace) (tables : ℕ → Bool) :
    (k.respace p x tables).spaces p = x := Function.update_self ..

/-- Another page directory in it. -/
lemma respace_withSpace (k : Procs) (p : Ptr) (x : PcbSpace) (d : ℕ → ℕ)
    (tables tables' : ℕ → Bool) : (k.respace p x tables).withSpace p d tables' =
      k.respace p ⟨some d, x.waitLock⟩ tables' := by
  simp only [respace, withSpace, Function.update_idem, Function.update_self]

/-- The memory of a new pcb is asked for nothing. -/
lemma Consistent.respace (hk : k.Consistent L) (hp : k.pcbs p = none) (x : PcbSpace)
    (tables : ℕ → Bool) : (k.respace p x tables).Consistent L := by
  refine ⟨⟨hk.lists.isLl, hk.lists.apart⟩, hk.tids, hk.pids,
    ⟨fun tid n hn => ?_, fun pid n hn => ?_⟩, fun q hq => ?_⟩
  · obtain ⟨c, t, q, b', hr, hrest⟩ := hk.live.threads tid n hn
    exact ⟨c, t, q, b', ⟨hr.node, hr.elem, hr.tcb⟩, hrest⟩
  · exact hk.live.processes pid n hn
  · have hqp : q ≠ p := by
      rintro rfl
      exact hq hp
    change (Function.update k.spaces p x q).directory ≠ none
    rw [Function.update_of_ne hqp]
    exact hk.directories q hq

lemma Drafts.of_respace {x : PcbSpace} {o : Option Pcb}
    (h : Drafts (k.respace p x tables) p o used k₁) : Drafts k p o used k₁ :=
  ⟨h.threads, h.pools, h.nodes, h.tcbs, h.pcbs, h.unused⟩

/-- The call has left no trace when it has freed the new pcb again, with its page tables. -/
lemma Drafts.unforked (h : Drafts k p (some b) used k₁) (hk : k.Consistent L)
    (hp : k.pcbs p = none) (hproc : k₁.processes = k.processes)
    (htids : k.sched.nextTid ≤ k₁.sched.nextTid) (hpids : k.nextPid ≤ k₁.nextPid)
    (hspaces : ∀ q ≠ p, k₁.spaces q = k.spaces q) (d : ℕ → ℕ) :
    Unforked L k { k₁.withSpace p d k.tables with pcbs := Function.update k₁.pcbs p none } := by
  have hpcbs : Function.update k₁.pcbs p none = k.pcbs := by
    rw [h.pcbs, Function.update_idem, ← hp, Function.update_eq_self]
  refine ⟨h.threads, hproc, h.pools, ⟨(h.lists hk.lists).isLl, hk.lists.apart⟩, hpcbs,
    ⟨fun tid n hn => ?_, fun pid n hn => ?_⟩, fun q hq => ?_, rfl, htids, hpids⟩
  · change htGet k₁.sched.threads tid = some n at hn
    rw [h.threads] at hn
    obtain ⟨c, t, q, b', hr, hq, hb'⟩ := hk.live.threads tid n hn
    obtain ⟨htcb, howner⟩ := h.tcbs c (by rw [hr.tcb]; nofun)
    have helem := (h.nodes n (by rw [hr.elem]; nofun)).2.2
    refine ⟨c, t, q, b', ⟨?_, helem.trans hr.elem, htcb.trans hr.tcb⟩, howner.trans hq, ?_⟩
    · change htGet k₁.sched.threads tid = some n
      rw [h.threads]
      exact hn
    · change Function.update k₁.pcbs p none q = some b'
      rw [hpcbs]
      exact hb'
  · change htGet k₁.processes pid = some n at hn
    rw [hproc] at hn
    obtain ⟨q, b', hq, hb'⟩ := hk.live.processes pid n hn
    refine ⟨q, b', (h.nodes n (by rw [hq]; nofun)).2.2.trans hq, ?_⟩
    change Function.update k₁.pcbs p none q = some b'
    rw [hpcbs]
    exact hb'
  · have hqp : q ≠ p := by
      rintro rfl
      exact hq hp
    exact (Function.update_of_ne hqp ..).trans (hspaces q hqp)

lemma Unforked.refl (hk : k.Consistent L) : Unforked L k k :=
  ⟨rfl, rfl, rfl, hk.lists, rfl, hk.live, fun _ _ => rfl, rfl, le_rfl, le_rfl⟩

lemma wp_schedulerGetCurrentPcb {Q : Ptr → Procs → Prop} (hcur : k.Calls cur b src) :
    wp schedulerGetCurrentPcb Q E k ↔ Q cur k := by
  obtain ⟨⟨c, hc, howner⟩, -⟩ := hcur
  rw [schedulerGetCurrentPcb, wp_bind, wp_onScheduler, wp_currentTcb hc, wp_bind, wp_gets]
  change wp (match k.pcbOf c with | some pcb => pure pcb | none => fault .badPointer) Q E k ↔ _
  rw [howner]
  exact wp_pure cur

lemma wp_pcbInit {Q : Unit → Procs → Prop} (init : PcbHeap) (hp : k.pcbs p = none) :
    wp (pcbInit init p) Q E k ↔
      Q () ((k.respace p ⟨pdInit init, semInit init⟩ k.tables).draft p ⟨-1, -1, -1, 0, 0⟩ 0 0) := by
  rw [pcbInit, wp_bind, wp_gets, wp_bind, wp_require]
  exact ⟨fun h => h.1 hp, fun h => ⟨fun _ => h, fun hno => absurd hp hno⟩⟩

/-- The new pcb, before it has a pid. -/
def childPcb (b : Pcb) : Pcb := ⟨-1, b.pid, -1, 0, 0⟩

/-- The state in which the new pcb has the page directory `d`. -/
def copied (k : Procs) (p : Ptr) (b : Pcb) (init : PcbHeap) (d : ℕ → ℕ) (tables : ℕ → Bool) :
    Procs := (k.respace p ⟨some d, semInit init⟩ tables).draft p (childPcb b) 0 0

/-- What the call does when the address space is not copied. -/
def giveUp (pcb : Ptr) (code : ℤ) : ProcsM ℤ := do
  pcbDestroy pcb
  return code

/-- The end of the call, once the address space is copied. -/
def finishFork (heap : ForkHeap) (pcb cur : Ptr) : ProcsM ℤ := do
  let tid ← schedulerAddProcess heap pcb
  if tid < 0 then
    giveUp pcb (-7)
  else do
    writePcb cur fun b => { b with numChildProc := b.numChildProc + 1 }
    return tid

/-- The call up to `pcb_copy`. -/
lemma wp_syscallForkCHandler {Q : ℤ → Procs → Prop} (hcur : k.Calls cur b src)
    (hone : b.numThreads ≤ 1) (hheap : heap.pcb = some p) (hp : k.pcbs p = none) :
    wp (syscallForkCHandler heap) Q E k ↔ wp (pcbCopy heap.copy p cur) (fun r =>
      wp (if r < 0 then giveUp p (-6) else finishFork heap p cur) Q E) E
      ((k.respace p ⟨pdInit heap.init, semInit heap.init⟩ k.tables).draft p
        ⟨-1, -1, -1, 0, 0⟩ 0 0) := by
  rw [syscallForkCHandler, wp_bind, wp_schedulerGetCurrentPcb hcur, wp_bind, wp_readPcb hcur.pcb,
    if_neg (UInt32.not_lt.mpr hone), hheap, wp_bind, wp_pcbInit heap.init hp, wp_bind]
  rfl

lemma Calls.ne (hcur : k.Calls cur b src) (hp : k.pcbs p = none) : cur ≠ p := by
  rintro rfl
  rw [hcur.pcb] at hp
  cases hp

lemma respace_directory (hcur : k.Calls cur b src) (hp : k.pcbs p = none) (x : PcbSpace)
    (tables : ℕ → Bool) : ((k.respace p x tables).spaces cur).directory = some src := by
  change (Function.update k.spaces p x cur).directory = some src
  rw [Function.update_of_ne (hcur.ne hp), hcur.directory]

/-- **What is left to show of a call** whose new pcb has a page directory. -/
lemma wp_fork_of_copy {Q : ℤ → Procs → Prop} (hcur : k.Calls cur b src)
    (hone : b.numThreads ≤ 1) (hheap : heap.pcb = some p) (hfresh : heap.Fresh k)
    (hinit : heap.init.Enough)
    (hfailed : ∀ d : ℕ → ℕ, ¬ heap.copy.Enough src →
      (∀ j, entryPresent (d j) = true ↔ heap.copy.Stray src j) →
      wp (giveUp p (-6)) Q E (k.copied p b heap.init d k.tables))
    (hcopied : ∀ (d : ℕ → ℕ) (tables : ℕ → Bool), heap.copy.Enough src →
      heap.copy.Leads (CopyHeap.entries src numEntries) d →
      heap.copy.Holds k.tables (CopyHeap.entries src numEntries) tables →
      wp (finishFork heap p cur) Q E (k.copied p b heap.init d tables)) :
    wp (syscallForkCHandler heap) Q E k := by
  have hp := hfresh.pcb p hheap
  have hdir : pdInit heap.init = some fun _ => 0 :=
    if_pos ⟨hinit.directory, hinit.mappingTasks, hinit.pAddrList⟩
  rw [wp_syscallForkCHandler hcur hone hheap hp]
  refine wp_imp (wp_pcbCopy ((Function.update_of_ne (hcur.ne hp) ..).trans hcur.pcb)
    (draft_pcb ..) hfresh.tables (respace_directory hcur hp _ k.tables)
    ((congrArg PcbSpace.directory (respace_spaces k p _ k.tables)).trans hdir)) fun r k₁ hout => ?_
  have hstate : ∀ (d : ℕ → ℕ) (tables : ℕ → Bool),
      withSpace { (k.respace p ⟨pdInit heap.init, semInit heap.init⟩ k.tables).draft p
          ⟨-1, -1, -1, 0, 0⟩ 0 0 with
        pcbs := Function.update (Function.update k.pcbs p (some ⟨-1, -1, -1, 0, 0⟩)) p
          (some (childPcb b)) } p d tables = k.copied p b heap.init d tables := by
    intro d tables
    rw [copied, ← respace_withSpace k p ⟨pdInit heap.init, semInit heap.init⟩ d k.tables tables]
    rw [Function.update_idem]
    rfl
  cases hout with
  | @copied d tables henough hd hheld =>
      rw [if_neg (by decide)]
      exact (hstate d tables).symm ▸ hcopied d tables henough hd hheld
  | @failed r d hno hr hd =>
      rw [if_pos hr]
      exact (hstate d k.tables).symm ▸ hfailed d hno hd

/-- A call that returns with what is asked of it. -/
lemma forkClean_of_wp (h : wp (syscallForkCHandler heap) (fun r k' => (r < 0 → Unforked L k k') ∧
    (0 ≤ r → ∃ x, Forked L k cur r k' x)) (fun _ _ => False) k) : ForkClean L heap k cur := by
  obtain ⟨r, k', hrun, hclean⟩ := wp_returns h
  exact ⟨r, k', hrun, hclean⟩

/-- A call that does not return, or that returns a negative code and has left a trace. -/
lemma not_forkClean_of_wlp
    (h : wlp (syscallForkCHandler heap) (fun r k' => r < 0 ∧ ¬ Unforked L k k') k) :
    ¬ ForkClean L heap k cur := by
  rintro ⟨r, k', hrun, hneg, -⟩
  obtain ⟨hr, hno⟩ := wp_ok h hrun
  exact hno (hneg hr)

/-! ### A call that is refused early -/

/-- With more threads than one, or without memory for the pcb, the call changes nothing. -/
lemma forkClean_of_early (hk : k.Consistent L) (hcur : k.Calls cur b src)
    (hearly : ¬ (b.numThreads ≤ 1 ∧ heap.pcb ≠ none)) : ForkClean L heap k cur := by
  refine forkClean_of_wp ?_
  have hrefused : ∀ r < 0, (r < 0 → Unforked L k k) ∧ (0 ≤ r → ∃ x, Forked L k cur r k x) :=
    fun r hr => ⟨fun _ => .refl hk, fun hpos => absurd hpos (not_le_of_gt hr)⟩
  rw [syscallForkCHandler, wp_bind, wp_schedulerGetCurrentPcb hcur, wp_bind, wp_readPcb hcur.pcb]
  by_cases hone : 1 < b.numThreads
  · rw [if_pos hone]
    exact hrefused _ (by decide)
  · rw [if_neg hone]
    cases hheap : heap.pcb with
    | none => exact hrefused _ (by decide)
    | some p => exact absurd ⟨UInt32.not_lt.mp hone, by rw [hheap]; nofun⟩ hearly

/-! ### A call without a copy -/

/-- Without a page directory the call does not return. -/
lemma not_forkClean_of_lost (hcur : k.Calls cur b src) (hone : b.numThreads ≤ 1)
    (hheap : heap.pcb = some p) (hp : k.pcbs p = none) (hinit : ¬ heap.init.Enough) :
    ¬ ForkClean L heap k cur := by
  have hdir : pdInit heap.init = none :=
    if_neg fun h => hinit ⟨h.1, h.2.1, h.2.2⟩
  have hnone : ((k.respace p ⟨pdInit heap.init, semInit heap.init⟩ k.tables).spaces p).directory =
      none := (congrArg PcbSpace.directory (respace_spaces k p _ k.tables)).trans hdir
  refine not_forkClean_of_wlp ?_
  rw [wlp, wp_syscallForkCHandler hcur hone hheap hp]
  refine wp_imp (wlp_pcbCopy_lost ((Function.update_of_ne (hcur.ne hp) ..).trans hcur.pcb)
    (draft_pcb ..) (respace_directory hcur hp _ k.tables) hnone) ?_
  rintro r _ ⟨hr, rfl⟩
  rw [if_pos hr, giveUp, wp_bind]
  exact wp_imp (wlp_pcbDestroy_lost (Function.update_self ..) hnone) fun _ _ => False.elim

lemma copied_pcb (k : Procs) (p : Ptr) (b : Pcb) (init : PcbHeap) (d : ℕ → ℕ)
    (tables : ℕ → Bool) : (k.copied p b init d tables).pcbs p = some (childPcb b) := draft_pcb ..

lemma copied_space (k : Procs) (p : Ptr) (b : Pcb) (init : PcbHeap) (d : ℕ → ℕ)
    (tables : ℕ → Bool) : (k.copied p b init d tables).spaces p = ⟨some d, semInit init⟩ :=
  Function.update_self ..

/-- **The address space is not copied, and nothing strays**: the new pcb is destroyed again. -/
lemma forkClean_of_failed (hk : k.Consistent L) (hcur : k.Calls cur b src) (hfresh : heap.Fresh k)
    (hone : b.numThreads ≤ 1) (hheap : heap.pcb = some p) (hinit : heap.init.Enough)
    (hno : ¬ heap.copy.Enough src) (hlock : semInit heap.init ≠ 0)
    (hstray : ∀ j, ¬ heap.copy.Stray src j) : ForkClean L heap k cur := by
  have hp := hfresh.pcb p hheap
  refine forkClean_of_wp (wp_fork_of_copy hcur hone hheap hfresh hinit (fun d _ hd => ?_)
    fun _ _ henough => absurd henough hno)
  have hempty : heap.copy.Leads ∅ d :=
    CopyHeap.leads_empty fun j => Bool.not_eq_true _ ▸ mt (hd j).mp (hstray j)
  have hself := withSpace_self (congrArg PcbSpace.directory
    (copied_space k p b heap.init d k.tables))
  rw [giveUp, wp_bind, ← hself]
  refine wp_imp (wp_pcbDestroy (copied_pcb ..) ?_ hfresh.tables hempty (fun _ hj => hj.elim)
    (CopyHeap.holds_empty heap.copy k.tables)) ?_
  · rw [copied_space]
    exact hlock
  · rintro _ _ ⟨d', rfl⟩
    have hdrafts : Drafts k p (some (childPcb b)) [] (k.copied p b heap.init d k.tables) :=
      Drafts.of_respace (drafts_draft ..)
    refine ⟨fun _ => hdrafts.unforked hk hp rfl le_rfl le_rfl (fun q hq => ?_) d',
      fun hpos => absurd hpos (by decide)⟩
    exact Function.update_of_ne hq ..

/-- The address space is not copied, and the lock of the wait semaphore is never got. -/
lemma not_forkClean_of_locked (hcur : k.Calls cur b src) (hfresh : heap.Fresh k)
    (hone : b.numThreads ≤ 1) (hheap : heap.pcb = some p) (hinit : heap.init.Enough)
    (hno : ¬ heap.copy.Enough src) (hlock : semInit heap.init = 0) : ¬ ForkClean L heap k cur := by
  refine not_forkClean_of_wlp (wp_fork_of_copy hcur hone hheap hfresh hinit (fun d _ _ => ?_)
    fun _ _ henough => absurd henough hno)
  rw [giveUp, wp_bind]
  refine wp_imp (wlp_pcbDestroy_locked (copied_pcb ..) ?_) fun _ _ => False.elim
  rw [copied_space]
  exact hlock

/-- **The address space is not copied, and an entry strays**: what it leads to is freed. -/
lemma not_forkClean_of_stray (hcur : k.Calls cur b src) (hfresh : heap.Fresh k)
    (hone : b.numThreads ≤ 1) (hheap : heap.pcb = some p) (hinit : heap.init.Enough)
    (hno : ¬ heap.copy.Enough src) {j : ℕ} (hj : heap.copy.Stray src j) :
    ¬ ForkClean L heap k cur := by
  refine not_forkClean_of_wlp (wp_fork_of_copy hcur hone hheap hfresh hinit (fun d _ hd => ?_)
    fun _ _ henough => absurd henough hno)
  have hdir := congrArg PcbSpace.directory (copied_space k p b heap.init d k.tables)
  rw [giveUp, wp_bind]
  refine wp_imp (wlp_pcbDestroy (copied_pcb ..) hdir hj.le hj.lt ((hd j).mpr hj)) ?_
  exact fun _ k' hne => ⟨by decide, fun hclean => hne hclean.pageTables⟩

/-! ### A call with a copy -/

/-- The memory of pcbs and the page tables. -/
def memory (k : Procs) : (Ptr → PcbSpace) × (ℕ → Bool) := (k.spaces, k.tables)

lemma keeps_onScheduler {α : Type} (m : SchedM α) :
    Keeps memory (fun _ => True) (onScheduler m) := by
  intro k
  rw [wp_onScheduler]
  exact wp_any m (fun _ _ => rfl) fun _ _ => trivial

lemma keeps_writePcb (p : Ptr) (f : Pcb → Pcb) : Keeps memory (fun _ => True) (writePcb p f) :=
  .bind (keeps_readPcb p) fun _ => .modify fun _ => rfl

/-- `scheduler_add_process` writes to no page directory. -/
lemma keeps_schedulerAddProcess (heap : ForkHeap) (p : Ptr) :
    Keeps memory (fun _ => True) (schedulerAddProcess heap p) := by
  have hpid : Keeps memory (fun _ => True) newPid :=
    .bind (.gets _) fun _ => .bind (keeps_require _ _) fun _ => .bind (.modify fun _ => rfl)
      fun _ => .pure _
  have htcb : ∀ (c : Ptr) (tid : ℤ), Keeps memory (fun _ => True) (newTcb heap c tid p) :=
    fun _ _ => .bind (.gets _) fun _ => .bind (keeps_require _ _) fun _ =>
      .bind (.modify fun _ => rfl) fun _ => .pure _
  have hput : ∀ (pid : ℤ) (node : Ptr), Keeps memory (fun _ => True) (putProcess pid node) :=
    fun _ _ _ => rfl
  have hadd : Keeps memory (fun _ => True) (tcbPoolAddPcbSafe heap.pcbEntry p) := by
    unfold tcbPoolAddPcbSafe
    cases heap.pcbEntry.node with
    | none => exact .pure _
    | some node =>
        refine .bind (keeps_onScheduler _) fun _ => .ite (.pure _) (.ite (.pure _) ?_)
        exact .bind (keeps_readPcb p) fun b => .bind (hput b.pid node) fun _ =>
          .ite (.pure _) (.pure _)
  unfold schedulerAddProcess
  refine .bind hpid fun pid => .bind (keeps_writePcb p _) fun _ => .bind (keeps_onScheduler _)
    fun tid => ?_
  cases heap.tcb with
  | none => exact .pure _
  | some c =>
      refine .bind (htcb c tid) fun _ => .ite (.pure _) (.bind (keeps_writePcb p _) fun _ =>
        .bind (keeps_writePcb p _) fun _ => .bind hadd fun _ => .ite (.pure _) ?_)
      exact .bind (keeps_onScheduler _) fun _ => .ite (.pure _) (.pure _)

/-- The memory for the thread and its entries is not in use in a state with a copy. -/
lemma freshEntries_respace (h : heap.FreshEntries k) (p : Ptr) (x : PcbSpace)
    (tables : ℕ → Bool) : heap.FreshEntries (k.respace p x tables) :=
  ⟨h.tcb, h.pcbNode, h.tcbNode, h.apart⟩

/-- **`scheduler_add_process`** after the copy. -/
lemma wp_addCopied (hk : k.Consistent L) (hfresh : heap.FreshEntries k) (hroom : k.HasRoom)
    (hp : k.pcbs p = none) (init : PcbHeap) (d : ℕ → ℕ) (tables : ℕ → Bool) :
    wp (schedulerAddProcess heap p) (fun r k₁ =>
      AddOutcome L heap (k.respace p ⟨some d, semInit init⟩ tables) p (childPcb b) r k₁ ∧
        k₁.spaces = Function.update k.spaces p ⟨some d, semInit init⟩ ∧ k₁.tables = tables) E
      (k.copied p b init d tables) := by
  have hadd := wp_schedulerAddProcess (p := p) (b := childPcb b) (E := E)
    (hk.respace hp ⟨some d, semInit init⟩ tables) (freshEntries_respace hfresh p _ tables)
    ⟨hroom.pid, hroom.tid⟩
  refine wp_mono (wp_both hadd (keeps_schedulerAddProcess heap p _)) ?_ fun _ _ he => he.1
  rintro r k₁ ⟨hout, hmem⟩
  exact ⟨hout, congrArg Prod.fst hmem, congrArg Prod.snd hmem⟩

/-- The call has made the fork when it has counted the child. -/
lemma AddDone.forked {x : Newcomer} {init : PcbHeap}
    (h : AddDone L heap (k.respace p ⟨some d, semInit init⟩ tables) p (childPcb b) x k₁)
    (hcur : k.Calls cur b src) (hfresh : heap.FreshEntries k) (hp : k.pcbs p = none)
    (hspaces : k₁.spaces = Function.update k.spaces p ⟨some d, semInit init⟩)
    (htables : ∀ a, k.tables a = true → k₁.tables a = true) :
    Forked L k cur k.sched.nextTid { k₁ with
      pcbs := Function.update k₁.pcbs cur (some { b with
        numChildProc := b.numChildProc + 1 }) } x := by
  have hne := hcur.ne hp
  have hxp := h.isNew.pcb
  have hpid : x.b.pid = k.nextPid := by rw [h.isNew.b]; rfl
  have hold : ∀ q, q ≠ cur → q ≠ p → Function.update k₁.pcbs cur
      (some { b with numChildProc := b.numChildProc + 1 }) q = k.pcbs q := by
    intro q hq hqp
    rw [Function.update_of_ne hq, h.pcbs, Function.update_of_ne hqp]
    rfl
  refine ⟨rfl, hpid, h.threads, ⟨?_, h.node, h.tcb⟩, hfresh.tcb _ h.isNew.tcb, ?_, hxp ▸ h.owner,
    hpid ▸ h.processes, hxp ▸ h.pcbNode, ?_, hxp ▸ hp, ?_, fun q hqx hq => ?_, fun b' hb' => ?_,
    ⟨h.elem, h.tcbs, fun q hq hlive => hold q hq ?_, fun q hq => ?_, htables⟩,
    ⟨h.lists.isLl, h.lists.apart⟩, h.tids, h.pids⟩
  · exact (congrFun h.threads _).trans (Function.update_self ..)
  · rw [h.isNew.t]
    cases heap.kStackBot <;> rfl
  · change Function.update k₁.pcbs cur _ x.pcb = _
    rw [hxp, Function.update_of_ne hne.symm, h.pcbs, Function.update_self]
  · change (k₁.spaces x.pcb).directory ≠ none
    rw [hxp, hspaces, Function.update_self]
    nofun
  · by_cases hqc : q = cur
    · rw [hqc, hcur.pcb]
      nofun
    · rw [← hold q hqc (hxp ▸ hqx)]
      exact hq
  · obtain rfl := Option.some.inj (hcur.pcb.symm.trans hb')
    exact Function.update_self ..
  · rintro rfl
    exact hlive hp
  · have hqp : q ≠ p := by
      rintro rfl
      exact hq hp
    change k₁.spaces q = k.spaces q
    rw [hspaces, Function.update_of_ne hqp]

/-- Without a tid or a pid that is left the call does not return. -/
lemma not_forkClean_of_overflow (hcur : k.Calls cur b src) (hfresh : heap.Fresh k)
    (hone : b.numThreads ≤ 1) (hheap : heap.pcb = some p) (hinit : heap.init.Enough)
    (henough : heap.copy.Enough src) (hroom : ¬ k.HasRoom) : ¬ ForkClean L heap k cur := by
  refine not_forkClean_of_wlp (wp_fork_of_copy hcur hone hheap hfresh hinit
    (fun _ hno => absurd henough hno) fun d tables _ _ _ => ?_)
  have hroom' : ¬ (k.respace p ⟨some d, semInit heap.init⟩ tables).HasRoom :=
    fun h => hroom ⟨h.pid, h.tid⟩
  rw [finishFork, wp_bind]
  exact wp_mono (wp_schedulerAddProcess_overflow hroom') (fun _ _ => False.elim)
    fun _ _ _ => trivial

/-- **The thread gets no entry when the pcb has one**: the entry of the pcb is left. -/
lemma not_forkClean_of_late (hk : k.Consistent L) (hcur : k.Calls cur b src)
    (hfresh : heap.Fresh k) (hone : b.numThreads ≤ 1) (hheap : heap.pcb = some p)
    (hinit : heap.init.Enough) (henough : heap.copy.Enough src) (hroom : k.HasRoom)
    (hpub : heap.Publishes) (hlate : ¬ heap.tcbEntry.Enough) : ¬ ForkClean L heap k cur := by
  have hp := hfresh.pcb p hheap
  refine not_forkClean_of_wlp (wp_fork_of_copy hcur hone hheap hfresh hinit
    (fun _ hno => absurd henough hno) fun d tables _ _ _ => ?_)
  rw [finishFork, wp_bind]
  refine wp_imp (wp_addCopied hk hfresh.toFreshEntries hroom hp heap.init d tables) ?_
  rintro r k₁ ⟨hout, -, -⟩
  cases hout with
  | refused hnot => exact absurd hpub hnot
  | done _ hdone => exact absurd hdone hlate
  | @late r _ b' n used _ _ hr hget _ hd =>
      rw [if_pos hr, giveUp, wp_bind]
      refine wp_mono (keeps_pcbDestroy p k₁) (fun _ k₂ hproc => ⟨by decide, fun hclean => ?_⟩)
        fun _ _ _ => trivial
      have hnone := hk.pids k.nextPid le_rfl
      rw [← hclean.processes, hproc] at hnone
      exact Option.some_ne_none n (hget.symm.trans hnone)

/-- The pcb gets no entry, and the lock of the wait semaphore is never got. -/
lemma not_forkClean_of_refused (hk : k.Consistent L) (hcur : k.Calls cur b src)
    (hfresh : heap.Fresh k) (hone : b.numThreads ≤ 1) (hheap : heap.pcb = some p)
    (hinit : heap.init.Enough) (henough : heap.copy.Enough src) (hroom : k.HasRoom)
    (hnot : ¬ heap.Publishes) (hlock : semInit heap.init = 0) : ¬ ForkClean L heap k cur := by
  refine not_forkClean_of_wlp (wp_fork_of_copy hcur hone hheap hfresh hinit
    (fun _ hno => absurd henough hno) fun d tables _ _ _ => ?_)
  rw [finishFork, wp_bind]
  refine wp_imp (wp_addCopied hk hfresh.toFreshEntries hroom (hfresh.pcb p hheap) heap.init d
    tables) ?_
  rintro r k₁ ⟨hout, hspaces, -⟩
  cases hout with
  | late hpub => exact absurd hpub hnot
  | done hpub => exact absurd hpub hnot
  | refused _ hr _ _ _ hdrafts =>
      rw [if_pos hr, giveUp, wp_bind]
      refine wp_imp (wlp_pcbDestroy_locked hdrafts.pcb ?_) fun _ _ => False.elim
      rw [hspaces, Function.update_self]
      exact hlock

/-- **The call with a copy of the address space** that makes the fork, or takes everything back. -/
lemma forkClean_of_copied (hk : k.Consistent L) (hcur : k.Calls cur b src)
    (hfresh : heap.Fresh k) (hone : b.numThreads ≤ 1) (hheap : heap.pcb = some p)
    (hinit : heap.init.Enough) (henough : heap.copy.Enough src) (hroom : k.HasRoom)
    (hthread : heap.Publishes → heap.tcbEntry.Enough)
    (hlock : ¬ heap.Publishes → semInit heap.init ≠ 0) : ForkClean L heap k cur := by
  have hp := hfresh.pcb p hheap
  refine forkClean_of_wp (wp_fork_of_copy hcur hone hheap hfresh hinit
    (fun _ hno => absurd henough hno) fun d tables _ hd hheld => ?_)
  rw [finishFork, wp_bind]
  refine wp_imp (wp_addCopied hk hfresh.toFreshEntries hroom hp heap.init d tables) ?_
  rintro r k₁ ⟨hout, hspaces, htables⟩
  cases hout with
  | late hpub hnot => exact absurd (hthread hpub) hnot
  | @refused r _ b' used hnot hr hproc htids hpids hdrafts =>
      have hspace : k₁.spaces p = ⟨some d, semInit heap.init⟩ := by
        rw [hspaces, Function.update_self]
      have hself := withSpace_self (k := k₁) (congrArg PcbSpace.directory hspace)
      rw [if_pos hr, giveUp, wp_bind, ← hself]
      refine wp_imp (wp_pcbDestroy hdrafts.pcb ?_ hfresh.tables hd (fun j hj => ⟨hj.1, hj.2.1⟩)
        (htables ▸ hheld)) ?_
      · rw [hspace]
        exact hlock hnot
      · rintro _ _ ⟨d', rfl⟩
        refine ⟨fun _ => hdrafts.of_respace.unforked hk hp hproc htids hpids (fun q hq => ?_) d',
          fun hpos => absurd hpos (by decide)⟩
        rw [hspaces, Function.update_of_ne hq]
  | done hpub hthread' hdone =>
      have hcaller : k₁.pcbs cur = some b := by
        rw [hdone.pcbs, Function.update_of_ne (hcur.ne hp)]
        exact hcur.pcb
      have hnew := hdone.forked hcur hfresh.toFreshEntries hp hspaces fun a ha => by
        rw [htables]
        exact (hheld a).mpr (.inl ha)
      rw [if_neg (by omega), wp_bind, wp_writePcb hcaller]
      exact ⟨fun hneg => absurd hneg (by omega), fun _ => ⟨_, hnew⟩⟩

/-- **When a fork is clean**: when it is refused for its threads or for the memory of the pcb, or
when what it gets after that is safe. -/
theorem forkClean_iff (hk : k.Consistent L) (hcur : k.Calls cur b src) (hfresh : heap.Fresh k) :
    ForkClean L heap k cur ↔ (b.numThreads ≤ 1 → heap.pcb ≠ none → heap.Safe src k) := by
  by_cases hearly : b.numThreads ≤ 1 ∧ heap.pcb ≠ none
  swap
  · exact iff_of_true (forkClean_of_early hk hcur hearly) fun h₁ h₂ => absurd ⟨h₁, h₂⟩ hearly
  obtain ⟨hone, hsome⟩ := hearly
  obtain ⟨p, hheap⟩ := Option.ne_none_iff_exists'.mp hsome
  refine Iff.trans ?_ ⟨fun h _ _ => h, fun h => h hone hsome⟩
  by_cases hinit : heap.init.Enough
  swap
  · exact iff_of_false (not_forkClean_of_lost hcur hone hheap (hfresh.pcb p hheap) hinit)
      fun h => hinit h.directory
  by_cases henough : heap.copy.Enough src
  · have hnostray : ∀ j, ¬ heap.copy.Stray src j := by
      rintro j ⟨i, hi, -⟩
      exact henough.table i hi.mem hi.table
    constructor
    · intro hclean
      have hroom : k.HasRoom := by
        by_contra hno
        exact not_forkClean_of_overflow hcur hfresh hone hheap hinit henough hno hclean
      have hthread : heap.Publishes → heap.tcbEntry.Enough := by
        intro hpub
        by_contra hno
        exact not_forkClean_of_late hk hcur hfresh hone hheap hinit henough hroom hpub hno hclean
      refine ⟨hinit, hnostray, fun hboth hlock => ?_, fun _ => hroom, fun _ => hthread⟩
      exact not_forkClean_of_refused hk hcur hfresh hone hheap hinit henough hroom
        (fun hpub => hboth ⟨henough, hpub⟩) hlock hclean
    · intro h
      exact forkClean_of_copied hk hcur hfresh hone hheap hinit henough (h.room henough)
        (h.thread henough) fun hnot => h.lock fun hboth => hnot hboth.2
  · constructor
    · intro hclean
      refine ⟨hinit, fun j hj => ?_, fun _ hlock => ?_, fun h => absurd h henough,
        fun h => absurd h henough⟩
      · exact not_forkClean_of_stray hcur hfresh hone hheap hinit henough hj hclean
      · exact not_forkClean_of_locked hcur hfresh hone hheap hinit henough hlock hclean
    · intro h
      exact forkClean_of_failed hk hcur hfresh hone hheap hinit henough
        (h.lock fun hboth => henough hboth.1) h.stray

/-! ### What holds before the next call -/

/-- A refused fork keeps the state consistent. -/
lemma Unforked.consistent {k' : Procs} (h : Unforked L k k') (hk : k.Consistent L) :
    k'.Consistent L := by
  refine ⟨h.lists, fun tid hle => ?_, fun pid hle => ?_, h.live, fun q hq => ?_⟩
  · rw [h.threads]
    exact hk.tids tid (le_trans (by exact_mod_cast h.tids) hle)
  · rw [h.processes]
    exact hk.pids pid (le_trans (by exact_mod_cast h.pids) hle)
  · rw [h.pcbs] at hq
    rw [h.spaces q hq]
    exact hk.directories q hq

/-- A fork keeps the state consistent. -/
lemma Forked.consistent {k' : Procs} {tid : ℤ} {x : Newcomer} (h : Forked L k cur tid k' x)
    (hk : k.Consistent L) (hcur : k.pcbs cur = some b) :
    k'.Consistent (Function.update L .runnablePool (L .runnablePool ++ [x.node])) := by
  -- a pcb that was in memory still is
  have hlive : ∀ q b', k.pcbs q = some b' → ∃ b'', k'.pcbs q = some b'' := by
    intro q b' hq
    by_cases hqc : q = cur
    · rw [hqc]
      exact ⟨_, h.caller b hcur⟩
    · exact ⟨b', (h.kept.pcbs q hqc (by rw [hq]; nofun)).trans hq⟩
  have hnext := h.nextTid
  have hpid := h.nextPid
  refine ⟨h.lists, fun tid' hle => ?_, fun pid hle => ?_,
    ⟨fun tid' n hn => ?_, fun pid n hn => ?_⟩, fun q hq => ?_⟩
  · rw [h.tids] at hle
    push_cast at hle
    rw [h.threads, Function.update_of_ne (by omega)]
    exact hk.tids tid' (by omega)
  · rw [h.pids] at hle
    push_cast at hle
    rw [h.processes, Function.update_of_ne (by omega)]
    exact hk.pids pid (by omega)
  · by_cases htid : tid' = tid
    · subst htid
      obtain rfl := Option.some.inj (hn.symm.trans h.row.node)
      exact ⟨x.tcb, x.t, x.pcb, x.b, h.row, h.owner, h.pcb⟩
    · have hold := hn
      rw [h.threads, Function.update_of_ne htid] at hold
      obtain ⟨c, t, q, b', hr, hq, hb'⟩ := hk.live.threads tid' n hold
      obtain ⟨htcb, howner⟩ := h.kept.tcbs c (by rw [hr.tcb]; nofun)
      obtain ⟨b'', hb''⟩ := hlive q b' hb'
      refine ⟨c, t, q, b'', ⟨hn, ?_, htcb.trans hr.tcb⟩, howner.trans hq, hb''⟩
      rw [h.kept.elem n (by rw [hr.elem]; nofun), hr.elem]
  · by_cases hpn : pid = x.b.pid
    · rw [hpn, h.processes, Function.update_self] at hn
      obtain rfl := Option.some.inj hn
      exact ⟨x.pcb, x.b, h.elem, h.pcb⟩
    · rw [h.processes, Function.update_of_ne hpn] at hn
      obtain ⟨q, b', hq, hb'⟩ := hk.live.processes pid n hn
      obtain ⟨b'', hb''⟩ := hlive q b' hb'
      refine ⟨q, b'', ?_, hb''⟩
      rw [h.kept.elem n (by rw [hq]; nofun), hq]
  · by_cases hqx : q = x.pcb
    · rw [hqx]
      exact h.directory
    · have hold := h.only q hqx hq
      rw [h.kept.spaces q hold]
      exact hk.directories q hold

/-- **A clean fork keeps the state consistent.** -/
theorem consistent_of_forkClean (hk : k.Consistent L) (hcur : k.Calls cur b src)
    (h : ForkClean L heap k cur) :
    ∃ r k' L', syscallForkCHandler heap k = (.ok r, k') ∧ k'.Consistent L' := by
  obtain ⟨r, k', hrun, hneg, hpos⟩ := h
  rcases lt_or_ge r 0 with hr | hr
  · exact ⟨r, k', L, hrun, (hneg hr).consistent hk⟩
  · obtain ⟨x, hx⟩ := hpos hr
    exact ⟨r, k', _, hrun, hx.consistent hk hcur.pcb⟩

/-- A page directory with a page table at each end of the user space. -/
def twoTables : ℕ → ℕ := fun i => if i = 4 then 0x40007 else if i = 1023 then 0x41007 else 0

/-- A kernel with one process, whose thread 1 runs. -/
def oneProcess : Procs where
  sched := {
    numTicks := 0
    nextTid := 2
    idleTcb := 10
    curTcb := some 20
    threads := (htPut (htInit Ptr tableSize tidHash) 1 21).2
    pools := Function.update (fun _ => llInit) .runnablePool ⟨some 21, some 21, 1⟩
    nodes := ⟨fun _ => none, fun _ => none,
      fun n => if n = 21 then some 20 else if n = 23 then some 22 else none⟩
    tcbs := fun c =>
      if c = 20 then some ⟨1, .running, 0, 0x20000, 0x28000, 0x27fb8, 0x27fb8⟩ else none
    esp0 := 0x27fb8 }
  nextPid := 2
  processes := (htPut (htInit Ptr tableSize pidHash) 1 23).2
  pcbs := fun p => if p = 22 then some ⟨1, 0, 1, 1, 0⟩ else none
  pcbOf := fun c => if c = 20 then some 22 else none
  spaces := fun _ => ⟨some twoTables, 1⟩
  tables := fun a => decide (a = 0x40000 ∨ a = 0x41000)

/-- The pools of that kernel. -/
def onePool : Pool → List Ptr := Function.update (fun _ => []) .runnablePool [21]

/-- A table with one entry. -/
lemma htGet_single (hash : ℤ → ℤ) (key : ℤ) (n : Ptr) :
    htGet (htPut (htInit Ptr tableSize hash) key n).2 =
      Function.update (fun _ => none) key (some n) := by
  have hempty : htGet (htInit Ptr tableSize hash) = fun _ => none :=
    funext fun i => htGet_htInit tableSize hash i
  rw [(htGet_htPut key (htGet_htInit tableSize hash key) n).2, hempty]

lemma oneProcess_consistent : oneProcess.Consistent onePool := by
  refine ⟨⟨fun i => ?_, fun n i l hi hl => ?_⟩, fun tid hle => ?_, fun pid hle => ?_,
    ⟨fun tid n hn => ?_, fun pid n hn => ?_⟩, fun _ _ => Option.some_ne_none _⟩
  · have hempty : IsLl oneProcess.sched.nodes llInit [] := ⟨⟨trivial, .nil, rfl, rfl, rfl⟩, nofun⟩
    cases i with
    | runnablePool =>
        refine ⟨⟨⟨rfl, rfl, trivial⟩, List.nodup_singleton 21, rfl, rfl, rfl⟩, fun n hn => ?_⟩
        rw [List.mem_singleton.mp hn]
        rfl
    | waitingPool | sleepingPool | zombiePool => exact hempty
  · have honly : ∀ i, n ∈ onePool i → i = .runnablePool := by
      intro i hi
      by_contra hne
      rw [onePool, Function.update_of_ne hne] at hi
      cases hi
    rw [honly i hi, honly l hl]
  · change (2 : ℤ) ≤ tid at hle
    change htGet (htPut _ 1 21).2 tid = none
    rw [htGet_single, Function.update_of_ne (by omega)]
  · change (2 : ℤ) ≤ pid at hle
    change htGet (htPut _ 1 23).2 pid = none
    rw [htGet_single, Function.update_of_ne (by omega)]
  · have hget := hn
    change htGet (htPut _ 1 21).2 tid = some n at hget
    rw [htGet_single, Function.update_apply] at hget
    split_ifs at hget with htid
    obtain rfl := Option.some.inj hget
    exact ⟨20, _, 22, _, ⟨hn, rfl, rfl⟩, rfl, rfl⟩
  · change htGet (htPut _ 1 23).2 pid = some n at hn
    rw [htGet_single, Function.update_apply] at hn
    split_ifs at hn with hpid
    obtain rfl := Option.some.inj hn
    exact ⟨22, _, rfl, rfl⟩

lemma oneProcess_calls : oneProcess.Calls 22 ⟨1, 0, 1, 1, 0⟩ twoTables :=
  ⟨⟨20, rfl, rfl⟩, rfl, rfl⟩

/-- Memory for the whole fork, but for the node of the thread, which is the parameter. -/
def nodeHeap (node : Option Ptr) : ForkHeap where
  pcb := some 32
  init := ⟨true, true, true, true, 0⟩
  copy := ⟨true, true,
    fun i => if i = 4 then some 0x50000 else if i = 1023 then some 0x51000 else none, fun _ => 1⟩
  tcb := some 30
  memory := ⟨0, .zombie, 0, 0, 0, 0, 0⟩
  kStackBot := some 0x30000
  pcbEntry := ⟨some 33, true, true⟩
  tcbEntry := ⟨node, true, true⟩

lemma nodeHeap_tables {node : Option Ptr} {i a : ℕ} (h : (nodeHeap node).copy.table i = some a) :
    (i = 4 ∧ a = 0x50000) ∨ (i = 1023 ∧ a = 0x51000) := by
  change (if i = 4 then some 0x50000 else if i = 1023 then some 0x51000 else none) = some a at h
  split_ifs at h with hfirst hlast
  · exact .inl ⟨hfirst, (Option.some.inj h).symm⟩
  · exact .inr ⟨hlast, (Option.some.inj h).symm⟩

lemma nodeHeap_fresh {node : Option Ptr} (h : ∀ n, node = some n → n = 31) :
    (nodeHeap node).Fresh oneProcess := by
  refine ⟨⟨?_, ?_, fun n hn => ?_, ?_⟩, ?_,
    ⟨fun i a ha => ?_, fun i a ha => ?_, fun i j a hi hj => ?_⟩⟩
  · rintro c ⟨⟩
    rfl
  · rintro n ⟨⟩
    rfl
  · rw [h n hn]
    rfl
  · rintro n ⟨⟩ hn
    exact absurd (h 33 hn) (by decide)
  · rintro p ⟨⟩
    rfl
  · rcases nodeHeap_tables ha with ⟨-, rfl⟩ | ⟨-, rfl⟩ <;> decide
  · rcases nodeHeap_tables ha with ⟨-, rfl⟩ | ⟨-, rfl⟩ <;> decide
  · rcases nodeHeap_tables hi with ⟨rfl, rfl⟩ | ⟨rfl, rfl⟩ <;>
      rcases nodeHeap_tables hj with ⟨rfl, heq⟩ | ⟨rfl, heq⟩ <;> first | rfl | cases heq

/-- The address space is copied. -/
lemma nodeHeap_enough (node : Option Ptr) : (nodeHeap node).copy.Enough twoTables := by
  refine ⟨rfl, rfl, fun i hi => ?_⟩
  have hpresent :
      entryPresent (if i = 4 then 0x40007 else if i = 1023 then 0x41007 else 0) = true := hi.2.2
  change (if i = 4 then some 0x50000 else if i = 1023 then some 0x51000 else none) ≠ none
  split_ifs at hpresent ⊢ with hfirst hlast
  · exact Option.some_ne_none _
  · exact Option.some_ne_none _
  · cases hpresent

lemma nodeHeap_publishes (node : Option Ptr) : (nodeHeap node).Publishes :=
  ⟨Option.some_ne_none _, Option.some_ne_none _, Option.some_ne_none _, rfl, rfl⟩

/-- The fork that gets all its memory. -/
theorem forkClean_iff_nodeHeap : ForkClean onePool (nodeHeap (some 31)) oneProcess 22 :=
  (forkClean_iff oneProcess_consistent oneProcess_calls
    (nodeHeap_fresh fun _ hn => (Option.some.inj hn).symm)).mpr fun _ _ => {
      directory := ⟨rfl, rfl, rfl⟩
      stray := by
        rintro j ⟨i, hi, -⟩
        exact (nodeHeap_enough (some 31)).table i hi.mem hi.table
      lock := fun _ => Nat.one_ne_zero
      room := fun _ => ⟨by decide, by decide⟩
      thread := fun _ _ => ⟨Option.some_ne_none _, rfl, rfl⟩ }

/-- **A fork that leaves a freed pcb in the processes table**: there is no memory for the node of
the thread, which is asked for when the pcb is in the table. -/
theorem not_forkClean_of_tcbNode :
    oneProcess.Consistent onePool ∧ oneProcess.Calls 22 ⟨1, 0, 1, 1, 0⟩ twoTables ∧
      (nodeHeap none).Fresh oneProcess ∧ ¬ ForkClean onePool (nodeHeap none) oneProcess 22 := by
  refine ⟨oneProcess_consistent, oneProcess_calls, nodeHeap_fresh nofun, ?_⟩
  exact not_forkClean_of_late oneProcess_consistent oneProcess_calls (nodeHeap_fresh nofun)
    (by decide) rfl ⟨rfl, rfl, rfl⟩ (nodeHeap_enough none) ⟨by decide, by decide⟩
    (nodeHeap_publishes none) fun h => h.node rfl

end Procs

end ShrekOS
