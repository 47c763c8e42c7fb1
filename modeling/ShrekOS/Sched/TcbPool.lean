/-
The thread pool of `kern/scheduler/tcb_pool.c` and the thread control blocks of
`kern/scheduler/tcb.c`.

* `Tcb`, `Pool`, `Sched`: a thread control block, the four pools, and the scheduler
  with its threads table, its pools and the memory of their nodes;
* `tcbPoolAddRunnableTcb`, `tcbPoolMakeWaiting`, `tcbPoolMakeRunnable`,
  `tcbPoolMakeSleeping`, `tcbPoolMakeZombie`, `tcbPoolWakeup`, `tcbPoolRemoveTcb`: the
  operations. A thread's status and the pool its node is on are written by different
  functions, and an operation unlinks from the pool that the status names.

Processes are left out, and with them what `tcb_pool_reap` does to a pcb. The scheduler
lock is left out as well: an operation runs with interrupts disabled.
-/
import ShrekOS.Data.Ht
import ShrekOS.Data.Ll

namespace ShrekOS

open Kit Kit.Cmd

/-- `PAGE_SIZE` words of the kernel stack: `8 * PAGE_SIZE` bytes. -/
def kStackSize : ℕ := 8 * 4096

/-- `TABLE_SIZE`. -/
def tableSize : ℕ := 64

/-- The statuses of a thread; `UNINIT` is never assigned. -/
inductive Status where
  | runnable
  | waiting
  | zombie
  | running
  | sleeping
  deriving DecidableEq

/-- `tcb_t`. -/
structure Tcb where
  tid : ℤ
  status : Status
  tWakeup : ℕ
  kStackBot : ℕ
  kStackTop : ℕ
  origKStack : ℕ
  tmpKStack : ℕ
  deriving DecidableEq

/-- The pools of `tcb_pool_t`. -/
inductive Pool where
  | runnablePool
  | waitingPool
  | sleepingPool
  | zombiePool
  deriving DecidableEq

/-- `scheduler_t` with its `tcb_pool_t`, and the part of the kernel heap they own: the
nodes of the pools and the thread control blocks. -/
structure Sched where
  numTicks : ℕ
  nextTid : ℕ
  idleTcb : Ptr
  curTcb : Option Ptr
  threads : Ht ℤ Ptr
  pools : Pool → Ll
  nodes : Nodes
  tcbs : Ptr → Option Tcb
  esp0 : ℕ

/-- Commands on the scheduler. -/
abbrev SchedM (α : Type) : Type := Cmd Fault Sched α

/-- What `malloc` answers to the requests for a new thread: the addresses of the tcb, of
its node and of its kernel stack, and what the tcb's memory holds where `tcb_init` does
not write. -/
structure HeapAnswer where
  tcb : Ptr
  node : Ptr
  kStackBot : ℕ
  tWakeup : ℕ
  tcb_ne : tcb ≠ 0

/-- Memory for the thread number `k`, apart from that of the others. -/
def HeapAnswer.nth (k : ℕ) : HeapAnswer where
  tcb := 10 * (k + 1)
  node := 10 * (k + 1) + 1
  kStackBot := 0x10000 * (k + 1)
  tWakeup := 0
  tcb_ne := by
    simp only [Ptr]
    omega

/-- `tid_hash`. -/
def tidHash (tid : ℤ) : ℤ := tid

/-- `pid_hash`. -/
def pidHash (pid : ℤ) : ℤ := pid

/-! ### Thread control blocks -/

/-- `*tcb`. -/
def readTcb (tcb : Ptr) : SchedM Tcb := do
  match ← gets fun s => s.tcbs tcb with
  | some t => return t
  | none => fault .badPointer

/-- A write to a field of `*tcb`. -/
def writeTcb (tcb : Ptr) (f : Tcb → Tcb) : SchedM Unit := do
  let t ← readTcb tcb
  modify fun s => { s with tcbs := Function.update s.tcbs tcb (some (f t)) }

/-- `tcb->status = st`. -/
def setStatus (tcb : Ptr) (st : Status) : SchedM Unit :=
  writeTcb tcb fun t => { t with status := st }

/-- `tcb_init`, with `load_kstack`: 18 words are on the new kernel stack. -/
def tcbInit (tid : ℤ) (heap : HeapAnswer) : Tcb where
  tid := tid
  status := .runnable
  tWakeup := heap.tWakeup
  kStackBot := heap.kStackBot
  kStackTop := heap.kStackBot + kStackSize
  origKStack := heap.kStackBot + kStackSize - 18 * 4
  tmpKStack := heap.kStackBot + kStackSize - 18 * 4

/-- `tcb_t_wakeup_cmp`, on the tcbs in memory. -/
def tcbTWakeupCmp (tcbs : Ptr → Option Tcb) (a b : Ptr) : Option ℤ := do
  let t1 := (← tcbs a).tWakeup
  let t2 := (← tcbs b).tWakeup
  return if t1 < t2 then -1 else if t2 < t1 then 1 else 0

/-! ### The threads table and the pools -/

/-- An operation on the list of a pool. -/
def onPool {α : Type} (k : Pool) (c : LlM α) : SchedM α := fun s =>
  match c ⟨s.nodes, s.pools k⟩ with
  | (r, t) => (r, { s with nodes := t.nodes, pools := Function.update s.pools k t.ll })

/-- The first lines of the operations: the node and the tcb of a thread in the table, or
`none` for the code `-2`. -/
def tcbPoolFindNode (tid : ℤ) : SchedM (Option (Ptr × Ptr)) := do
  match ← gets fun s => htGet s.threads tid with
  | none => return none
  | some node =>
      match ← gets fun s => s.nodes.e node with
      | some tcb => return some (node, tcb)
      | none => fault .badPointer

/-- `tcb_pool_find_tcb`. -/
def tcbPoolFindTcb (tid : ℤ) : SchedM (Option Ptr) := do
  return (← tcbPoolFindNode tid).map Prod.snd

/-- The `malloc`s of a new thread; an address it answers with is not in use. -/
def mallocThread (heap : HeapAnswer) (t : Tcb) : SchedM Unit := do
  let s ← get
  require (s.tcbs heap.tcb = none ∧ s.nodes.e heap.node = none) .badHeap
  modify fun s => { s with
    tcbs := Function.update s.tcbs heap.tcb (some t)
    nodes := {
      next := Function.update s.nodes.next heap.node none
      prev := Function.update s.nodes.prev heap.node none
      e := Function.update s.nodes.e heap.node (some heap.tcb) } }

/-- `ht_put_entry(&(tp->threads), ..)`. -/
def putThread (tid : ℤ) (node : Ptr) : SchedM ℤ := fun s =>
  (.ok (htPutEntry s.threads (tid, node)).1,
    { s with threads := (htPutEntry s.threads (tid, node)).2 })

/-- `tcb_pool_add_runnable_tcb_safe`, on a node that is allocated already. -/
def tcbPoolAddRunnableTcb (tid : ℤ) (node : Ptr) : SchedM ℤ := do
  if (← putThread tid node) < 0 then
    return -3
  if (← onPool .runnablePool (llLinkNodeLast node)) < 0 then
    return -4
  return 0

/-- `tcb_pool_get_next_tcb`: `none` stands for its error codes. -/
def tcbPoolGetNextTcb : SchedM (Option Ptr) := do
  if (← onPool .runnablePool llRotate) < 0 then
    return none
  onPool .runnablePool llPeek

/-- `tcb_pool_make_sleeping`. -/
def tcbPoolMakeSleeping (tid : ℤ) : SchedM ℤ := do
  match ← tcbPoolFindNode tid with
  | none => return -2
  | some (node, _) =>
      if (← onPool .runnablePool (llUnlinkNode node)) < 0 then
        return -5
      let tcbs ← gets Sched.tcbs
      if (← onPool .sleepingPool (llLinkNodeSorted node (tcbTWakeupCmp tcbs))) < 0 then
        return -6
      return 0

/-- `tcb_pool_make_waiting`. -/
def tcbPoolMakeWaiting (tid : ℤ) : SchedM ℤ := do
  match ← tcbPoolFindNode tid with
  | none => return -2
  | some (node, tcb) =>
      if (← readTcb tcb).status = .waiting then
        return -4
      if (← onPool .runnablePool (llUnlinkNode node)) < 0 then
        return -5
      if (← onPool .waitingPool (llLinkNodeLast node)) < 0 then
        return -6
      return 0

/-- `tcb_pool_make_runnable`: every thread that is neither `RUNNABLE` nor `WAITING` is
taken off the sleeping pool, and no status is written. -/
def tcbPoolMakeRunnable (tid : ℤ) : SchedM ℤ := do
  match ← tcbPoolFindNode tid with
  | none => return -2
  | some (node, tcb) =>
      let status := (← readTcb tcb).status
      if status = .runnable then
        return -4
      let pool := if status = .waiting then .waitingPool else .sleepingPool
      if (← onPool pool (llUnlinkNode node)) < 0 then
        return -5
      if (← onPool .runnablePool (llLinkNodeLast node)) < 0 then
        return -6
      return 0

/-- The loop of `tcb_pool_wakeup`: it does not look at what `tcb_pool_make_runnable`
returns. -/
def tcbPoolWakeupLoop (currTime : ℕ) : ℕ → SchedM ℤ
  | 0 => fault .outOfFuel
  | fuel + 1 => do
      if (← gets fun s => (s.pools .sleepingPool).size) = 0 then
        return 0
      match ← onPool .sleepingPool llPeek with
      | none => return -1
      | some tcb =>
          let t ← readTcb tcb
          if t.tWakeup = currTime then
            let _ ← tcbPoolMakeRunnable t.tid
            tcbPoolWakeupLoop currTime fuel
          else
            return 0

/-- `tcb_pool_wakeup`; the fuel is enough for every sleeping thread. -/
def tcbPoolWakeup (currTime : ℕ) : SchedM ℤ := do
  tcbPoolWakeupLoop currTime ((← gets fun s => (s.pools .sleepingPool).size) + 1)

/-- The pool the `switch` of `tcb_pool_make_zombie` unlinks from. -/
def zombieSource : Status → Option Pool
  | .runnable | .running => some .runnablePool
  | .waiting => some .waitingPool
  | .sleeping | .zombie => none

/-- The pool the `switch` of `tcb_pool_remove_tcb` unlinks from. -/
def removeSource : Status → Option Pool
  | .runnable | .running => some .runnablePool
  | .waiting => some .waitingPool
  | .zombie => some .zombiePool
  | .sleeping => none

/-- What `tcb_pool_make_zombie` does after its `sem_signal`. -/
def zombieMove (node tcb : Ptr) : SchedM ℤ := do
  match zombieSource (← readTcb tcb).status with
  | none => return -6
  | some pool =>
      if (← onPool pool (llUnlinkNode node)) < 0 then
        return -5
      setStatus tcb .zombie
      if (← onPool .zombiePool (llLinkNodeLast node)) < 0 then
        return -7
      return 0

/-- `tcb_pool_make_zombie`; `signal` is what `sem_signal(&(tp->zombies_sem))` does. -/
def tcbPoolMakeZombie (tid : ℤ) (signal : SchedM Unit) : SchedM ℤ := do
  match ← tcbPoolFindNode tid with
  | none => return -2
  | some (node, tcb) =>
      signal
      zombieMove node tcb

/-- `ht_remove(&(tp->threads), ..)`. -/
def removeThread (tid : ℤ) : SchedM (Option Ptr) := fun s =>
  (.ok (htRemove s.threads tid).1, { s with threads := (htRemove s.threads tid).2 })

/-- `tcb_pool_remove_tcb`: the node, to be freed, or the error code. -/
def tcbPoolRemoveTcb (tid : ℤ) : SchedM (Except ℤ Ptr) := do
  match ← removeThread tid with
  | none => return .error (-2)
  | some node =>
      match ← gets fun s => s.nodes.e node with
      | none => fault .badPointer
      | some tcb =>
          match removeSource (← readTcb tcb).status with
          | none => return .error (-4)
          | some pool =>
              if (← onPool pool (llUnlinkNode node)) < 0 then
                return .error (-5)
              return .ok node

/-- `free` of a tcb and of its node. -/
def freeThread (tcb node : Ptr) : SchedM Unit := do
  let _ ← readTcb tcb
  modify fun s => { s with
    tcbs := Function.update s.tcbs tcb none
    nodes.e := Function.update s.nodes.e node none }

/-- One round of the loop of `tcb_pool_reap`, after its `sem_wait`. -/
def tcbPoolReap : SchedM Unit := do
  match ← onPool .zombiePool llPeek with
  | none => return
  | some tcb =>
      match ← tcbPoolRemoveTcb (← readTcb tcb).tid with
      | .error _ => return
      | .ok node => freeThread tcb node

end ShrekOS
