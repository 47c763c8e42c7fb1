/-
The scheduler of `kern/scheduler/scheduler.c`, the dispatcher of
`kern/dispatcher/dispatcher.c`, and the thread operations of
`kern/scheduler/thr_helpers.c` that use them.

* `schedulerDescheduleCurrent`, `schedulerMakeRunnable`, `schedulerMakeCurrentSleeping`,
  `schedulerMakeCurrentZombie`: the operations that write a thread's status beside the
  pool it is on;
* `contextSwitch`: save the current thread, pick the next one and set it running;
* `SchedOp`, `schedStep`, `schedMachine`: the kernel's operations as atomic steps, and
  their runs from `schedulerInit`.

An operation that gives up the processor includes the context switch. Where an operation
touches a semaphore or a page table, its step has what these answer as a parameter.
-/
import ShrekOS.Lib.Runs
import ShrekOS.Sched.TcbPool

namespace ShrekOS

open Kit Kit.Cmd

/-- `sched->cur_tcb`, which is then followed: a fault if it is `NULL`. -/
def currentTcb : SchedM Ptr := do
  match ← gets Sched.curTcb with
  | some cur => return cur
  | none => fault .badPointer

/-- `sched->next_tid++`. -/
def newTid : SchedM ℕ := do
  let tid ← gets Sched.nextTid
  require (tid + 1 < 2 ^ 31) .overflow
  modify fun s => { s with nextTid := s.nextTid + 1 }
  return tid

/-- `scheduler_check_is_runnable`. -/
def schedulerCheckIsRunnable (targetTid : ℤ) : SchedM ℤ := do
  match ← tcbPoolFindTcb targetTid with
  | none => return -2
  | some tcb => return if (← readTcb tcb).status = .runnable then 1 else 0

/-- `scheduler_deschedule_current`. -/
def schedulerDescheduleCurrent : SchedM ℤ := do
  let cur ← currentTcb
  if (← tcbPoolMakeWaiting (← readTcb cur).tid) < 0 then
    return -3
  setStatus cur .waiting
  return 0

/-- `scheduler_make_runnable`. -/
def schedulerMakeRunnable (tid : ℤ) : SchedM ℤ := do
  if (← tcbPoolMakeRunnable tid) < 0 then
    return -2
  match ← tcbPoolFindTcb tid with
  | none => return -3
  | some tcb =>
      setStatus tcb .runnable
      return 0

/-- `scheduler_make_current_sleeping`. The sum `num_ticks + ticks` is one of `int`s, and the test
whether it is less than `num_ticks` asks for what only an overflow could bring about. -/
def schedulerMakeCurrentSleeping (ticks : ℤ) : SchedM ℤ := do
  if ticks < 0 then
    return -1
  if ticks = 0 then
    return 0
  let cur ← currentTcb
  let t ← readTcb cur
  if t.status = .sleeping then
    return -4
  setStatus cur .sleeping
  let wakeup := (← gets Sched.numTicks) + ticks.toNat
  require (wakeup < 2 ^ 31) .overflow
  writeTcb cur fun t => { t with tWakeup := wakeup }
  if (← tcbPoolMakeSleeping t.tid) < 0 then
    return -2
  return 0

/-- `scheduler_make_current_zombie`. -/
def schedulerMakeCurrentZombie (signal : SchedM Unit) : SchedM ℤ := do
  let cur ← currentTcb
  if (← tcbPoolMakeZombie (← readTcb cur).tid signal) < 0 then
    return -2
  modify fun s => { s with curTcb := none }
  return 0

/-- `scheduler_add_process`, without the pcb; without an answer a `malloc` fails. -/
def schedulerAddProcess (heap : Option HeapAnswer) : SchedM ℤ := do
  let tid ← newTid
  match heap with
  | none => return -2
  | some heap =>
      mallocThread heap (tcbInit tid heap)
      if (← tcbPoolAddRunnableTcb tid heap.node) < 0 then
        return -3
      return tid

/-- `scheduler_add_new_thread`: as above, in the process of the current thread. -/
def schedulerAddNewThread (heap : Option HeapAnswer) : SchedM ℤ := do
  let _ ← readTcb (← currentTcb)
  schedulerAddProcess heap

/-! ### Context switches -/

/-- `scheduler_defer_current_tcb`. -/
def schedulerDeferCurrentTcb (oldEsp : ℕ) : SchedM Unit := do
  match ← gets Sched.curTcb with
  | none => return
  | some cur => writeTcb cur fun t => { t with
      tmpKStack := oldEsp
      status := if t.status = .running then .runnable else t.status }

/-- `scheduler_get_next_tcb`: the idle thread when the runnable pool is empty. -/
def schedulerGetNextTcb : SchedM Ptr := do
  match ← tcbPoolGetNextTcb with
  | some tcb => return tcb
  | none => gets Sched.idleTcb

/-- `scheduler_set_running_tcb`: the saved stack pointer. -/
def schedulerSetRunningTcb (tcb : Ptr) : SchedM ℕ := do
  modify fun s => { s with curTcb := some tcb }
  setStatus tcb .running
  let t ← readTcb tcb
  modify fun s => { s with esp0 := t.origKStack }
  return t.tmpKStack

/-- The thread a context switch goes to. -/
def pickTcb (targetTid : ℤ) : SchedM Ptr := do
  if targetTid < 0 then
    schedulerGetNextTcb
  else
    match ← tcbPoolFindTcb targetTid with
    | some tcb => return tcb
    | none => gets Sched.idleTcb

/-- `context_switch`. -/
def contextSwitch (oldEsp : ℕ) (targetTid : ℤ) : SchedM ℕ := do
  schedulerDeferCurrentTcb oldEsp
  schedulerSetRunningTcb (← pickTcb targetTid)

/-! ### Thread operations -/

/-- `thr_yield`. -/
def thrYield (oldEsp : ℕ) (tid : ℤ) : SchedM ℤ := do
  if 0 ≤ tid then
    let ret ← schedulerCheckIsRunnable tid
    if ret < 0 then
      return -2
    if ret = 0 then
      return -3
    let _ ← contextSwitch oldEsp tid
    return 0
  else
    let _ ← contextSwitch oldEsp tid
    return 0

/-- `thr_deschedule`, on an address that is mapped or not and, if it is, holds the value
`reject`. -/
def thrDeschedule (oldEsp : ℕ) (mapped : Bool) (reject : ℤ) : SchedM ℤ := do
  let _ ← readTcb (← currentTcb)
  if mapped = false then
    return -3
  if reject ≠ 0 then
    return 0
  if (← schedulerDescheduleCurrent) < 0 then
    return -3
  thrYield oldEsp (-1)

/-- `thr_make_runnable`. -/
def thrMakeRunnable (tid : ℤ) : SchedM ℤ := do
  if (← schedulerMakeRunnable tid) < 0 then
    return -2
  return 0

/-- `thr_sleep`. -/
def thrSleep (oldEsp : ℕ) (ticks : ℤ) : SchedM ℤ := do
  if (← schedulerMakeCurrentSleeping ticks) < 0 then
    return -3
  thrYield oldEsp (-1)

/-- What `sem_signal` does to the thread pool: it wakes the waiter that it takes off the
semaphore's queue, if there is one. -/
def wakeWaiter : Option ℤ → SchedM Unit
  | none => pure ()
  | some tid => do let _ ← thrMakeRunnable tid

/-- `thr_vanish`: `parent` waits for an exit status, and `reaper` for a zombie. -/
def thrVanish (parent reaper : Option ℤ) : SchedM ℤ := do
  let _ ← readTcb (← currentTcb)
  wakeWaiter parent
  let _ ← schedulerMakeCurrentZombie (wakeWaiter reaper)
  thrYield 0 (-1)

/-- `c_timer_handler`. -/
def cTimerHandler (oldEsp : ℕ) : SchedM ℕ := do
  let numTicks ← gets Sched.numTicks
  require (numTicks + 1 < 2 ^ 31) .overflow
  modify fun s => { s with numTicks := s.numTicks + 1 }
  let _ ← tcbPoolWakeup (numTicks + 1)
  contextSwitch oldEsp (-1)

/-! ### Runs -/

/-- The scheduler that `scheduler_init` sets up before it adds its processes: the idle
thread is not in the table. -/
def schedulerInit (idle : HeapAnswer) : Sched where
  numTicks := 0
  nextTid := 1
  idleTcb := idle.tcb
  curTcb := none
  threads := htInit Ptr tableSize tidHash
  pools := fun _ => llInit
  nodes := ⟨fun _ => none, fun _ => none, fun _ => none⟩
  tcbs := Function.update (fun _ => none) idle.tcb (some (tcbInit 0 idle))
  esp0 := 0

/-- The atomic steps of the scheduler. -/
inductive SchedOp where
  | addProcess (heap : Option HeapAnswer)
  | addNewThread (heap : Option HeapAnswer)
  | deschedule (oldEsp : ℕ) (mapped : Bool) (reject : ℤ)
  | makeRunnable (tid : ℤ)
  | sleep (oldEsp : ℕ) (ticks : ℤ)
  | yield (oldEsp : ℕ) (tid : ℤ)
  | timer (oldEsp : ℕ)
  | vanish (parent reaper : Option ℤ)
  | reap

/-- The command of a step. -/
def schedStep : SchedOp → SchedM Unit
  | .addProcess heap => do let _ ← schedulerAddProcess heap
  | .addNewThread heap => do let _ ← schedulerAddNewThread heap
  | .deschedule oldEsp mapped reject => do let _ ← thrDeschedule oldEsp mapped reject
  | .makeRunnable tid => do let _ ← thrMakeRunnable tid
  | .sleep oldEsp ticks => do let _ ← thrSleep oldEsp ticks
  | .yield oldEsp tid => do let _ ← thrYield oldEsp tid
  | .timer oldEsp => do let _ ← cTimerHandler oldEsp
  | .vanish parent reaper => do let _ ← thrVanish parent reaper
  | .reap => tcbPoolReap

/-- The state a step leaves, if it does not fault. -/
def schedNext (s : Sched) (op : SchedOp) : Option Sched :=
  match schedStep op s with
  | (.ok _, s') => some s'
  | (.error _, _) => none

/-- The scheduler's runs: any operations in any order. -/
def schedMachine : Machine Sched SchedOp where
  init s := ∃ idle, s = schedulerInit idle
  step s op s' := schedNext s op = some s'

end ShrekOS
