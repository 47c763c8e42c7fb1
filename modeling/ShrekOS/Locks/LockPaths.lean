/-
The kernel mutexes along the paths of `fork`, `thread_fork`, `wait`, `vanish`, `new_pages`,
`remove_pages`, `print`, `readline` and of the reaper, for any number of threads.

* `KMutex`, `KSem`: the mutexes and the semaphores, by the object that they are part of;
* `LockOp`: the steps of a path between two places where another thread may run;
* `World`, `Place`: the data that the paths share, and what a thread holds and has to do;
* the paths, each function of the source as the list of its steps;
* `perform`, `lockThreads`: the steps, and the system of all threads.

Allocations succeed, and `malloc` answers with any address that is not in use. A pcb is named
by its address, which the next process may get when the pcb is freed. `sched_lock` disables
interrupts and nobody waits for it: what it protects is one step. A thread that finds a mutex
locked stays before its `mutex_lock`. Of the keyboard's interrupt handler there are the lines
that it announces alone.
-/
import ShrekOS.Lib.Threads
import ShrekOS.Data.Heap

namespace ShrekOS.Locking

open Kit

/-- The semaphores: `wait_sem` of a pcb, `zombies_sem`, and `sem` of the keyboard. -/
inductive KSem where
  | wait (pcb : Ptr)
  | zombies
  | keyboard
  deriving DecidableEq

/-- The mutexes: `m` of a pcb, of a semaphore, of the keyboard and of the frame manager,
`console_lock` and `heap_lock`. -/
inductive KMutex where
  | pcb (pcb : Ptr)
  | sem (sem : KSem)
  | keyboard
  | fm
  | console
  | heap
  deriving DecidableEq

/-- `pcb_t`; an entry of `status_queue` is the `original_tid` of its metadata. -/
structure Pcb where
  pid : ℤ
  ppid : ℤ
  originalTid : ℤ
  numThreads : ℕ
  numChildProc : ℕ
  statusQueue : List ℤ
  deriving DecidableEq

/-- `sem_t`, with the tids of the threads in its queue. -/
structure Sem where
  count : ℤ
  q : List ℕ
  deriving DecidableEq

/-- Steps that take no mutex and leave open no question. -/
inductive DataOp where
  | mutexInit (m : KMutex)
  | mutexDestroy (m : KMutex)
  | semInit (s : KSem) (count : ℤ)
  | semEnq (s : KSem)
  | semDeq (s : KSem)
  | setOriginalTid (pcb : Ptr) (tid : ℕ)
  | incThreads (pcb : Ptr)
  | incChildren (pcb : Ptr)
  | decChildren (pcb : Ptr)
  | enqStatus (pcb : Ptr) (originalTid : ℤ)
  | queueDestroy (pcb : Ptr)
  | zombify
  deriving DecidableEq

/-- The steps of the paths. -/
inductive LockOp where
  | lock (m : KMutex)
  | unlock (m : KMutex)
  /-- any number of calls of `malloc`, `memalign` and `free` -/
  | heapCalls
  /-- any number of calls of `fm_dealloc` -/
  | fmDeallocs
  /-- a check, after which the handler may return -/
  | mayReturn
  | data (op : DataOp)
  /-- `sem->count--` and what follows from it -/
  | semDec (s : KSem)
  /-- the loop around `thr_kern_deschedule` -/
  | await (s : KSem)
  /-- `sem->count++` and what follows from it -/
  | semInc (s : KSem)
  | checkThreads (pcb : Ptr)
  | mallocPcb (cur : Ptr)
  | setPpid (pcb cur : Ptr)
  | addProcess (pcb cur : Ptr)
  | addThread (cur : Ptr)
  | putPcb (pcb : Ptr)
  | putThread (tid : ℕ) (pcb : Ptr)
  | checkChildren (pcb : Ptr)
  | deqStatus (pcb : Ptr)
  | findParent
  /-- `num_threads--`; the last thread signals the target -/
  | decThreads (pcb target : Ptr)
  | removeZombie
  | reapPcb (pcb : Ptr)
  | freePcb (pcb : Ptr)
  deriving DecidableEq

/-- The data that the threads share. `locked` has the mutexes whose `lock` is 0; `processes` and
`threads` are the tables of `thr_pool`, with the pcb of each thread. -/
structure World where
  locked : List KMutex
  sems : KSem → Sem
  pcbs : Ptr → Option Pcb
  processes : List (ℤ × Ptr)
  threads : List (ℕ × Ptr)
  zombiePool : List ℕ
  initPcb : Ptr
  reaperPcb : Ptr
  nextPid : ℕ
  nextTid : ℕ

/-- The mutexes that a thread holds, the last one first, and the steps of its system call that it
has not taken yet. -/
structure Place where
  held : List KMutex
  todo : List LockOp
  deriving DecidableEq

/-! ### The paths -/

/-- So many calls of `malloc` or `free`. -/
def heapCall : ℕ → List LockOp
  | 0 => []
  | n + 1 => .lock .heap :: .unlock .heap :: heapCall n

/-- `fm_alloc` and `fm_dealloc`. -/
def fmCall : List LockOp := [.lock .fm, .heapCalls, .unlock .fm]

/-- `pcb_inc_threads_s`, `pcb_inc_children_s` and `pcb_dec_children_s`. -/
def pcbUpdate (pcb : Ptr) (op : DataOp) : List LockOp :=
  [.lock (.pcb pcb), .data op, .unlock (.pcb pcb)]

/-- `sem_wait`. -/
def semWait (s : KSem) : List LockOp := [.lock (.sem s), .semDec s]

/-- `sem_wait` after the decrement. -/
def semWaited (s : KSem) (count : ℤ) : List LockOp :=
  if count < 0 then heapCall 1 ++ [.data (.semEnq s), .unlock (.sem s), .await s]
  else [.unlock (.sem s)]

/-- `sem_signal`. -/
def semSignal (s : KSem) : List LockOp := [.lock (.sem s), .semInc s]

/-- `sem_signal` after the increment: `queue_deq` frees the node, and the waiter may go when its
`reject` is written. -/
def semSignalled (s : KSem) (sem : Sem) : List LockOp :=
  if sem.count ≤ 0 ∧ sem.q ≠ [] then heapCall 1 ++ [.data (.semDeq s), .unlock (.sem s)]
  else [.unlock (.sem s)]

/-- `sem_destroy`. -/
def semDestroy (s : KSem) : List LockOp :=
  [.lock (.sem s), .heapCalls, .data (.semInit s (-1)), .unlock (.sem s),
    .data (.mutexDestroy (.sem s))]

/-- `pcb_init`: `pd_init`, `mutex_init`, `queue_init` and `sem_init`. -/
def pcbInit (pcb : Ptr) : List LockOp :=
  [.heapCalls, .data (.mutexInit (.pcb pcb))] ++ heapCall 1 ++ heapCall 1 ++
    [.data (.semInit (.wait pcb) 0), .data (.mutexInit (.sem (.wait pcb)))]

/-- `pcb_copy`, with `vmm_deep_copy`. -/
def pcbCopy (pcb cur : Ptr) : List LockOp := [.setPpid pcb cur] ++ fmCall ++ [.heapCalls]

/-- `pcb_destroy_s`, with `vmm_clear_user_space` and `pd_destroy`. -/
def pcbDestroy (pcb : Ptr) : List LockOp :=
  [.lock (.pcb pcb)] ++ semDestroy (.wait pcb) ++
    [.heapCalls, .data (.queueDestroy pcb), .heapCalls, .fmDeallocs, .heapCalls,
      .unlock (.pcb pcb), .data (.mutexDestroy (.pcb pcb))]

/-- `pcb_signal_status`. -/
def pcbSignalStatus (pcb : Ptr) (originalTid : ℤ) : List LockOp :=
  heapCall 2 ++ [.data (.enqStatus pcb originalTid)] ++ semSignal (.wait pcb)

/-- `scheduler_add_process` after the pid and the tid are assigned, and the end of `fork`:
`tcb_init`, `pcb_inc_threads_s`, `tcb_pool_add_pcb_safe`, `tcb_pool_add_runnable_tcb_safe` and
`pcb_inc_children_s`. -/
def addedProcess (pcb cur : Ptr) (tid : ℕ) : List LockOp :=
  heapCall 2 ++ [.data (.setOriginalTid pcb tid)] ++ pcbUpdate pcb (.incThreads pcb) ++
    heapCall 3 ++ [.putPcb pcb] ++ heapCall 3 ++ [.putThread tid pcb] ++
    pcbUpdate cur (.incChildren cur)

/-- `scheduler_add_new_thread` after the tid is assigned. -/
def addedThread (cur : Ptr) (tid : ℕ) : List LockOp :=
  heapCall 2 ++ pcbUpdate cur (.incThreads cur) ++ heapCall 3 ++ [.putThread tid cur]

/-- The end of `thr_vanish`: `tcb_pool_make_zombie`. -/
def makeZombie : List LockOp := semSignal .zombies ++ [.data .zombify]

/-- `thr_vanish` with the pcb of the parent. -/
def vanishToParent (parent cur : Ptr) : List LockOp :=
  [.lock (.pcb parent), .lock (.pcb cur), .decThreads cur parent, .unlock (.pcb parent)] ++
    makeZombie

/-- `thr_vanish` of an orphan. -/
def vanishToInit (init cur : Ptr) : List LockOp :=
  pcbUpdate init (.incChildren init) ++ [.lock (.pcb cur), .decThreads cur init] ++ makeZombie

/-- `tcb_pool_reap`. -/
def reapLoop : List LockOp := semWait .zombies ++ [.removeZombie]

/-- The end of a round of `tcb_pool_reap`, which frees the tcb and the addresses kept. -/
def reapEnd : List LockOp := heapCall 2 ++ [.heapCalls] ++ reapLoop

/-- The system calls. -/
inductive LockCall where
  | fork
  | threadFork
  | wait
  | vanish
  | newPages
  | removePages
  | print
  | readline
  deriving DecidableEq

/-- The handlers, in a thread of the given process. -/
def LockCall.path (cur : Ptr) : LockCall → List LockOp
  | .fork => [.lock (.pcb cur), .checkThreads cur]
  | .threadFork => [.addThread cur]
  | .wait => [.checkChildren cur]
  | .vanish => [.findParent]
  | .newPages => [.mayReturn] ++ fmCall ++ [.heapCalls]
  | .removePages => [.mayReturn, .heapCalls, .mayReturn] ++ fmCall ++ [.heapCalls]
  | .print => [.mayReturn, .lock .console, .unlock .console]
  | .readline => [.mayReturn] ++ semWait .keyboard ++ [.lock .keyboard, .unlock .keyboard]

/-! ### The steps -/

/-- A write to a pcb; nothing is modelled of memory that is not a pcb. -/
def World.mapPcb (s : World) (pcb : Ptr) (f : Pcb → Pcb) : World :=
  { s with pcbs := Function.update s.pcbs pcb ((s.pcbs pcb).map f) }

/-- A write to a semaphore. -/
def World.setSem (s : World) (sem : KSem) (v : Sem) : World :=
  { s with sems := Function.update s.sems sem v }

/-- `uint32_t` counters. -/
def incCount (n : ℕ) : ℕ := (n + 1) % 2 ^ 32

/-- `uint32_t` counters. -/
def decCount (n : ℕ) : ℕ := (n + (2 ^ 32 - 1)) % 2 ^ 32

/-- The writes, in thread `t`. -/
def DataOp.apply (s : World) (t : ℕ) : DataOp → World
  | .mutexInit m => { s with locked := s.locked.erase m }
  -- `lock` is -1, which `mutex_lock` takes for unlocked
  | .mutexDestroy m => { s with locked := s.locked.erase m }
  | .semInit sem count => s.setSem sem ⟨count, []⟩
  | .semEnq sem => s.setSem sem { s.sems sem with q := (s.sems sem).q ++ [t] }
  | .semDeq sem => s.setSem sem { s.sems sem with q := (s.sems sem).q.tail }
  | .setOriginalTid pcb tid => s.mapPcb pcb fun p => { p with originalTid := tid }
  | .incThreads pcb => s.mapPcb pcb fun p => { p with numThreads := incCount p.numThreads }
  | .incChildren pcb => s.mapPcb pcb fun p => { p with numChildProc := incCount p.numChildProc }
  | .decChildren pcb => s.mapPcb pcb fun p => { p with numChildProc := decCount p.numChildProc }
  | .enqStatus pcb tid => s.mapPcb pcb fun p => { p with statusQueue := p.statusQueue ++ [tid] }
  | .queueDestroy pcb => s.mapPcb pcb fun p => { p with statusQueue := [] }
  | .zombify => { s with zombiePool := s.zombiePool ++ [t] }

/-- What a thread may do: start a system call, take its next step, go on without it where there
is a choice, or take its next step with the address that `malloc` answers; and a line is typed. -/
inductive LockMove where
  | call (c : LockCall)
  | run
  | leave
  | malloc (addr : Ptr)
  | line
  deriving DecidableEq

/-- The tid of `sched->reaper_tcb`. -/
def reaperTid : ℕ := 1

/-- The step of thread `t` with the mutexes `held` and the steps `r` after this one. -/
def perform (s : World) (t : ℕ) (held : List KMutex) (r : List LockOp) :
    LockOp → LockMove → Option (World × Place)
  | .lock m, .run =>
      if m ∈ s.locked then none else some ({ s with locked := m :: s.locked }, ⟨m :: held, r⟩)
  | .unlock m, .run => some ({ s with locked := s.locked.erase m }, ⟨held.erase m, r⟩)
  | .heapCalls, .run => some (s, ⟨held, heapCall 1 ++ .heapCalls :: r⟩)
  | .heapCalls, .leave => some (s, ⟨held, r⟩)
  | .fmDeallocs, .run => some (s, ⟨held, fmCall ++ .fmDeallocs :: r⟩)
  | .fmDeallocs, .leave => some (s, ⟨held, r⟩)
  | .mayReturn, .run => some (s, ⟨held, r⟩)
  | .mayReturn, .leave => some (s, ⟨held, []⟩)
  | .data op, .run => some (op.apply s t, ⟨held, r⟩)
  | .semDec sem, .run =>
      let count := (s.sems sem).count - 1
      some (s.setSem sem { s.sems sem with count := count }, ⟨held, semWaited sem count ++ r⟩)
  | .await sem, .run => if t ∈ (s.sems sem).q then none else some (s, ⟨held, r⟩)
  | .semInc sem, .run =>
      let v : Sem := { s.sems sem with count := (s.sems sem).count + 1 }
      some (s.setSem sem v, ⟨held, semSignalled sem v ++ r⟩)
  -- `fork`, which more than one thread may not do
  | .checkThreads cur, .run => (s.pcbs cur).map fun p =>
      if 1 < p.numThreads then (s, ⟨held, [.unlock (.pcb cur)]⟩)
      else (s, ⟨held, [.unlock (.pcb cur), .lock .heap, .mallocPcb cur]⟩)
  | .mallocPcb cur, .malloc pcb =>
      if (s.pcbs pcb).isSome then none
      else some ({ s with pcbs := Function.update s.pcbs pcb (some ⟨-1, -1, -1, 0, 0, []⟩) },
        ⟨held, [.unlock .heap] ++ pcbInit pcb ++ pcbCopy pcb cur ++ [.addProcess pcb cur]⟩)
  | .setPpid pcb cur, .run => (s.pcbs cur).map fun q =>
      (s.mapPcb pcb fun p => { p with ppid := q.pid }, ⟨held, r⟩)
  | .addProcess pcb cur, .run =>
      let s' := s.mapPcb pcb fun p => { p with pid := s.nextPid }
      some ({ s' with nextPid := s.nextPid + 1, nextTid := s.nextTid + 1 },
        ⟨held, addedProcess pcb cur s.nextTid⟩)
  | .addThread cur, .run =>
      some ({ s with nextTid := s.nextTid + 1 }, ⟨held, addedThread cur s.nextTid⟩)
  | .putPcb pcb, .run => (s.pcbs pcb).map fun p =>
      ({ s with processes := (p.pid, pcb) :: s.processes }, ⟨held, r⟩)
  | .putThread tid pcb, .run => some ({ s with threads := (tid, pcb) :: s.threads }, ⟨held, r⟩)
  -- `wait`, in a process that may have no children
  | .checkChildren cur, .run => (s.pcbs cur).map fun p =>
      if p.numChildProc = 0 then (s, ⟨held, []⟩)
      else (s, ⟨held, semWait (.wait cur) ++ [.lock (.pcb cur), .deqStatus cur]⟩)
  | .deqStatus cur, .run => (s.pcbs cur).map fun p =>
      match p.statusQueue with
      -- the return with the mutex locked
      | [] => (s, ⟨held, []⟩)
      | _ :: statuses => (s.mapPcb cur fun p => { p with statusQueue := statuses },
          ⟨held, heapCall 1 ++ [.unlock (.pcb cur)] ++ heapCall 1 ++
            pcbUpdate cur (.decChildren cur)⟩)
  -- `vanish`
  | .findParent, .run => (s.threads.lookup t).bind fun cur => (s.pcbs cur).map fun p =>
      match s.processes.lookup p.ppid with
      | none => (s, ⟨held, vanishToInit s.initPcb cur⟩)
      | some parent => (s, ⟨held, vanishToParent parent cur⟩)
  | .decThreads cur target, .run => (s.pcbs cur).map fun p =>
      let n := decCount p.numThreads
      (s.mapPcb cur fun p => { p with numThreads := n },
        ⟨held, [.unlock (.pcb cur)] ++
          (if n = 0 then pcbSignalStatus target p.originalTid else []) ++ r⟩)
  -- the reaper
  | .removeZombie, .run =>
      match s.zombiePool with
      | [] => some (s, ⟨held, reapLoop⟩)
      | z :: zombies => (s.threads.lookup z).bind fun pcb => (s.pcbs pcb).map fun p =>
          ({ s with
              threads := s.threads.filter fun e => e.1 ≠ z
              zombiePool := zombies
              processes := if p.numThreads = 0 then s.processes.filter fun e => e.1 ≠ p.pid
                else s.processes },
            ⟨held, [.reapPcb pcb]⟩)
  | .reapPcb pcb, .run => (s.pcbs pcb).map fun p =>
      if p.numThreads = 0 then
        (s, ⟨held, pcbDestroy pcb ++ [.lock .heap, .freePcb pcb, .unlock .heap] ++ reapEnd⟩)
      else (s, ⟨held, reapEnd⟩)
  | .freePcb pcb, .run =>
      some ({ s with pcbs := Function.update s.pcbs pcb none }, ⟨held, r⟩)
  | _, _ => none

/-- A line is typed: `sem_signal` on the keyboard's semaphore. -/
def World.typeLine (s : World) : World :=
  let sem := s.sems .keyboard
  s.setSem .keyboard ⟨sem.count + 1, if sem.count + 1 ≤ 0 then sem.q.tail else sem.q⟩

/-- The step of a thread. The reaper and the zombies make no system calls. -/
def lockStep (s : World) (t : ℕ) (p : Place) : LockMove → Option (World × Place)
  | .line => some (s.typeLine, p)
  | .call c =>
      if p.todo = [] ∧ t ≠ reaperTid ∧ t ∉ s.zombiePool then
        (s.threads.lookup t).map fun cur => (s, { p with todo := c.path cur })
      else none
  | mv =>
      match p.todo with
      | [] => none
      | op :: r => perform s t p.held r op mv

/-- The world that `scheduler_init` sets up, with the pcbs of the idle thread, the reaper and
the init process. -/
def bootWorld (idle reaper init : Ptr) : World where
  locked := []
  sems := fun _ => ⟨0, []⟩
  pcbs := fun a =>
    if a = idle then some ⟨0, -1, -1, 0, 0, []⟩
    else if a = reaper then some ⟨-1, -1, -1, 0, 0, []⟩
    else if a = init then some ⟨1, -1, 2, 1, 0, []⟩
    else none
  processes := [(1, init), (-1, reaper)]
  threads := [(2, init), (1, reaper)]
  zombiePool := []
  initPcb := init
  reaperPcb := reaper
  nextPid := 2
  nextTid := 3

/-- The reaper is about to wait for a zombie; the other threads are in user space. -/
def bootPlaces (t : ℕ) : Place := ⟨[], if t = reaperTid then reapLoop else []⟩

/-- The threads of the kernel. -/
def lockThreads : Threads World Place LockMove where
  init s := ∃ idle reaper init, [idle, reaper, init].Nodup ∧
    s = (bootWorld idle reaper init, bootPlaces)
  step := lockStep

end ShrekOS.Locking
