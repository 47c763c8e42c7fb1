/-
The locks that the functions of the process life cycle take and give back, on every path.

* `PathM`: a path with the locks that it has taken and not given back, which faults when it unlocks
  another one;
* `semWait`, `semSignal`, `pcbSignalStatus`, `pcbDestroyS`, `tcbPoolRemoveTcb`: what the paths call;
* `tcbPoolAddRunnableTcbSafe`, `tcbPoolAddPcbSafe`, `syscallExec`, `syscallWait`, `syscallFork`,
  `thrVanishSignal`, `reapRound`: the functions, each from what it is told of the kernel's state;
* `KernPath.Balanced`: a path that returns has given back all that it took, and nothing else;
* `KernPath.Releases`, `balanced_iff`: **the paths that are balanced** are those that miss the six
  places which return with a lock, or unlock what is not theirs.

Checks that need no lock, and what others do in between, come in as the answers that a function
gets. `panic` and `restore_context` do not come back.
-/
import ShrekOS.Lib.Cmd
import ShrekOS.Locks.LockPaths
import ShrekOS.Sched.TcbPool

namespace ShrekOS.LockBalance

open Kit Kit.Cmd Locking

/-! ### Paths -/

/-- `sched_lock`, and the mutexes. -/
inductive KLock where
  | sched
  | mutex (m : KMutex)
  deriving DecidableEq

/-- Unlocking what is not locked. -/
inductive PathFault where
  | notLocked

/-- A path, over the locks that it has taken and not given back. -/
abbrev PathM (α : Type) : Type := Cmd PathFault (List KLock) α

/-- `mutex_lock` and `sched_mutex_lock`. -/
def lock (l : KLock) : PathM Unit := modify fun held => l :: held

/-- `mutex_unlock` and `sched_mutex_unlock`. -/
def unlock (l : KLock) : PathM Unit := do
  let held ← get
  require (l ∈ held) .notLocked
  modify fun held => held.erase l

/-- So many calls of `malloc`, `memalign` or `free`. -/
def heapCalls : ℕ → PathM Unit
  | 0 => pure ()
  | n + 1 => do
      lock (.mutex .heap)
      unlock (.mutex .heap)
      heapCalls n

/-- A call of the allocator, or one of `fm_alloc` or `fm_dealloc` with so many of them. -/
inductive MemCall where
  | heap
  | fm (heap : ℕ)

/-- The calls of the virtual memory manager. -/
def memCalls : List MemCall → PathM Unit
  | [] => pure ()
  | .heap :: calls => do
      heapCalls 1
      memCalls calls
  | .fm heap :: calls => do
      lock (.mutex .fm)
      heapCalls heap
      unlock (.mutex .fm)
      memCalls calls

/-- A section of the scheduler: `scheduler_deschedule_current_safe`, `context_switch_safe`,
`scheduler_make_runnable_safe`. -/
def schedSection : PathM Unit := do
  lock .sched
  unlock .sched

/-- So many rounds of the loop around `thr_kern_deschedule`. -/
def descheduleRounds : ℕ → PathM Unit
  | 0 => pure ()
  | n + 1 => do
      schedSection
      schedSection
      descheduleRounds n

/-! ### Semaphores and pcbs -/

/-- `sem_wait` on a semaphore with the given count; the thread is woken after some rounds. -/
def semWait (s : KSem) (count : ℤ) (rounds : ℕ) : PathM Unit := do
  lock (.mutex (.sem s))
  if count - 1 < 0 then do
    heapCalls 1
    unlock (.mutex (.sem s))
    descheduleRounds rounds
  else unlock (.mutex (.sem s))

/-- `sem_signal` on a semaphore with the given count, and a waiter in its queue or not. -/
def semSignal (s : KSem) (count : ℤ) (waiter : Bool) : PathM Unit := do
  lock (.mutex (.sem s))
  if count + 1 ≤ 0 then
    if ¬ waiter then unlock (.mutex (.sem s))
    else do
      heapCalls 1
      schedSection
      unlock (.mutex (.sem s))
  else unlock (.mutex (.sem s))

/-- `pcb_inc_threads_s`, `pcb_dec_threads_s`, `pcb_inc_children_s` and `pcb_dec_children_s`. -/
def pcbCount (pcb : Ptr) : PathM Unit := do
  lock (.mutex (.pcb pcb))
  unlock (.mutex (.pcb pcb))

/-- What `pcb_signal_status` is told: `malloc` has the metadata and the node, and the semaphore. -/
structure SignalIn where
  metadata : Bool
  node : Bool
  count : ℤ
  waiter : Bool

/-- `pcb_signal_status`. -/
def pcbSignalStatus (pcb : Ptr) (v : SignalIn) : PathM ℤ := do
  heapCalls 1
  if ¬ v.metadata then pure (-2)
  else do
    heapCalls 1
    if ¬ v.node then do
      unlock (.mutex (.pcb pcb))
      pure (-2)
    else do
      semSignal (.wait pcb) v.count v.waiter
      pure 0

/-- What `pcb_destroy_s` frees: the nodes of the semaphore's queue and of the status queue, and the
user space with the page directory. -/
structure DestroyIn where
  waiters : ℕ
  statuses : ℕ
  mem : List MemCall

/-- `pcb_destroy_s`, with `sem_destroy`. -/
def pcbDestroyS (pcb : Ptr) (d : DestroyIn) : PathM Unit := do
  lock (.mutex (.pcb pcb))
  lock (.mutex (.sem (.wait pcb)))
  heapCalls d.waiters
  unlock (.mutex (.sem (.wait pcb)))
  heapCalls d.statuses
  memCalls d.mem
  unlock (.mutex (.pcb pcb))

/-! ### The functions -/

/-- What adding to the pool is told: the arguments are there, `malloc` has the three structures, and
the key is in the table. -/
structure AddIn where
  args : Bool
  node : Bool
  entry : Bool
  entryNode : Bool
  present : Bool

/-- Adding to a table of the pool, with its structures allocated before `sched_lock` is taken. -/
def addSafe (a : AddIn) : PathM ℤ :=
  if ¬ a.args then pure (-1)
  else do
    heapCalls 1
    if ¬ a.node then pure (-2)
    else do
      heapCalls 1
      if ¬ a.entry then pure (-3)
      else do
        heapCalls 1
        if ¬ a.entryNode then pure (-4)
        else do
          lock .sched
          -- `ht_put_entry`
          if a.present then pure (-3)
          else do
            unlock .sched
            pure 0

/-- `tcb_pool_add_runnable_tcb_safe`; its node is there, so that `ll_link_node_last` links it. -/
def tcbPoolAddRunnableTcbSafe (a : AddIn) : PathM ℤ := addSafe a

/-- `tcb_pool_add_pcb_safe`. -/
def tcbPoolAddPcbSafe (a : AddIn) : PathM ℤ := addSafe a

/-- How the loop over `argvec` ends: at a string without a mapping, at an entry without one, or
after so many arguments. -/
inductive ArgvAnswer where
  | badString
  | badEntry
  | ok (argc : ℕ)

/-- What `syscall_exec_c_handler` is told: `cur` is the pcb of the current tcb, if there is one. -/
structure ExecIn where
  args : Bool
  elf : Bool
  cur : Option Ptr
  numThreads : ℕ
  argv : ArgvAnswer
  clear : List MemCall
  load : List MemCall

/-- `syscall_exec_c_handler`; `none` when it does not come back. -/
def syscallExec (e : ExecIn) : PathM (Option ℤ) :=
  if ¬ e.args then pure (some (-1))
  else if ¬ e.elf then pure (some (-2))
  else
    match e.cur with
    | none => pure (some (-5))
    | some cur => do
        lock (.mutex (.pcb cur))
        if 1 < e.numThreads then pure (some (-3))
        else do
          unlock (.mutex (.pcb cur))
          match e.argv with
          | .badString => pure (some (-7))
          | .badEntry => pure (some (-8))
          | .ok argc => do
              heapCalls argc
              memCalls e.clear
              memCalls e.load
              heapCalls argc
              pure none

/-- What `syscall_wait_c_handler` is told: the counters when it reads them, and the status queue
when it has the pcb's mutex. -/
structure WaitIn where
  cur : Ptr
  numChildProc : ℕ
  count : ℤ
  rounds : ℕ
  statusQueue : List ℤ

/-- `pcb_wait_on_status`, which collects an `original_tid`. -/
def pcbWaitOnStatus (w : WaitIn) : PathM (Option ℤ) :=
  if w.numChildProc = 0 then pure none
  else do
    semWait (.wait w.cur) w.count w.rounds
    lock (.mutex (.pcb w.cur))
    match w.statusQueue with
    | [] => pure none
    | originalTid :: _ => do
        heapCalls 1
        unlock (.mutex (.pcb w.cur))
        heapCalls 1
        pure (some originalTid)

/-- `syscall_wait_c_handler`. -/
def syscallWait (w : WaitIn) : PathM ℤ := do
  match ← pcbWaitOnStatus w with
  | none => pure (-2)
  | some originalPid => do
      pcbCount w.cur
      pure originalPid

/-- What `syscall_fork_c_handler` is told: the threads of the process, the new pcb, the calls of
`pcb_init` and of `pcb_copy`, whether it copies, the tcb and its stack, and the tables. -/
structure ForkIn where
  cur : Ptr
  numThreads : ℕ
  duplicate : Option Ptr
  init : List MemCall
  copy : List MemCall
  copied : Bool
  destroy : DestroyIn
  tcb : Bool
  stack : Bool
  addPcb : AddIn
  addTcb : AddIn
  tid : ℤ

/-- `scheduler_add_process`. -/
def schedulerAddProcess (f : ForkIn) (pcb : Ptr) : PathM ℤ := do
  heapCalls 1
  if ¬ f.tcb then pure (-2)
  else do
    heapCalls 1
    if ¬ f.stack then pure (-3)
    else do
      pcbCount pcb
      if (← tcbPoolAddPcbSafe f.addPcb) < 0 then pure (-4)
      else if (← tcbPoolAddRunnableTcbSafe f.addTcb) < 0 then pure (-3)
      else pure f.tid

/-- `pcb_destroy_s` and `free` of the duplicate. -/
def dropDuplicate (pcb : Ptr) (d : DestroyIn) : PathM Unit := do
  pcbDestroyS pcb d
  heapCalls 1

/-- `syscall_fork_c_handler`. -/
def syscallFork (f : ForkIn) : PathM ℤ := do
  lock (.mutex (.pcb f.cur))
  if 1 < f.numThreads then do
    unlock (.mutex (.pcb f.cur))
    pure (-3)
  else do
    unlock (.mutex (.pcb f.cur))
    heapCalls 1
    match f.duplicate with
    | none => pure (-4)
    | some pcb => do
        memCalls f.init
        memCalls f.copy
        if ¬ f.copied then do
          dropDuplicate pcb f.destroy
          pure (-6)
        else do
          let tid ← schedulerAddProcess f pcb
          if tid < 0 then do
            dropDuplicate pcb f.destroy
            pure (-7)
          else do
            pcbCount f.cur
            pure tid

/-- What the signalling part of `thr_vanish` is told; an orphan has no `parent`. -/
structure VanishIn where
  cur : Ptr
  parent : Option Ptr
  init : Ptr
  numThreads : ℕ
  signal : SignalIn

/-- `thr_vanish` up to its `printf`. -/
def thrVanishSignal (v : VanishIn) : PathM Unit :=
  match v.parent with
  | none => do
      pcbCount v.init
      pcbCount v.cur
      if decCount v.numThreads = 0 then do
        let _ ← pcbSignalStatus v.init v.signal
  | some parent => do
      lock (.mutex (.pcb parent))
      pcbCount v.cur
      if decCount v.numThreads = 0 then do
        let _ ← pcbSignalStatus parent v.signal
      unlock (.mutex (.pcb parent))

/-- `tcb_pool_remove_tcb`, from the status of the tcb in the table and the size of the pool of this
status. It takes no lock. -/
def tcbPoolRemoveTcb (entry : Option Status) (size : Status → ℕ) : ℤ :=
  match entry with
  | none => -2
  | some .sleeping => -4
  | some .running => if size .runnable = 0 then -5 else 0
  | some st => if size st = 0 then -5 else 0

/-- What a round of `tcb_pool_reap` is told of its zombie: its pcb, the entry of its tid, the sizes
of the pools, `num_threads` at both tests, and what it frees. -/
structure ZombieIn where
  pcb : Ptr
  entry : Option Status
  size : Status → ℕ
  numThreads : ℕ
  numThreads' : ℕ
  nodeFreed : Bool
  destroy : DestroyIn
  frees : ℕ

/-- A round of `tcb_pool_reap`, on a semaphore with the given count. -/
def reapRound (count : ℤ) (rounds : ℕ) (zombie : Option ZombieIn) : PathM Unit := do
  semWait .zombies count rounds
  match zombie with
  | none => pure ()
  | some z => do
      lock .sched
      if tcbPoolRemoveTcb z.entry z.size < 0 then pure ()
      else do
        -- `tcb_pool_remove_pcb` frees its node when the buffer is full
        if z.numThreads = 0 ∧ z.nodeFreed then heapCalls 1
        unlock .sched
        if z.numThreads' = 0 then do
          pcbDestroyS z.pcb z.destroy
          heapCalls 1
        heapCalls 2
        heapCalls z.frees

/-! ### Balanced paths -/

/-- The functions with what they are told. -/
inductive KernPath where
  | exec (e : ExecIn)
  | wait (w : WaitIn)
  | fork (f : ForkIn)
  | vanish (v : VanishIn)
  | addTcb (a : AddIn)
  | addPcb (a : AddIn)
  | reap (count : ℤ) (rounds : ℕ) (zombie : Option ZombieIn)

/-- The path of a function, and whether it comes back. -/
def KernPath.run : KernPath → PathM Bool
  | .exec e => do
      let ret ← syscallExec e
      pure ret.isSome
  | .wait w => do
      let _ ← syscallWait w
      pure true
  | .fork f => do
      let _ ← syscallFork f
      pure true
  | .vanish v => do
      thrVanishSignal v
      pure true
  | .addTcb a => do
      let _ ← tcbPoolAddRunnableTcbSafe a
      pure true
  | .addPcb a => do
      let _ ← tcbPoolAddPcbSafe a
      pure true
  | .reap count rounds zombie => do
      reapRound count rounds zombie
      pure true

/-- The path unlocks nothing but what it has locked, and all of that when it comes back. -/
def KernPath.Balanced (p : KernPath) : Prop :=
  wp p.run (fun back held => back → held = []) (fun _ _ => False) []

/-- Everything is there to add, but the key is in the table. -/
def AddIn.Stuck (a : AddIn) : Prop := a.args ∧ a.node ∧ a.entry ∧ a.entryNode ∧ a.present

/-- Everything is there to add, and the key is new. -/
def AddIn.Adds (a : AddIn) : Prop := a.args ∧ a.node ∧ a.entry ∧ a.entryNode ∧ a.present = false

/-- `fork` comes to the tables. -/
def ForkIn.Adds (f : ForkIn) : Prop :=
  f.numThreads ≤ 1 ∧ f.duplicate.isSome ∧ f.copied ∧ f.tcb ∧ f.stack

/-- The tcb of the zombie's tid is in a pool that is not empty. -/
def ZombieIn.Removable (z : ZombieIn) : Prop :=
  ∃ st, z.entry = some st ∧ st ≠ .sleeping ∧ z.size (if st = .running then .runnable else st) ≠ 0

/-- The paths that miss the places where a lock is left or another one is unlocked. -/
def KernPath.Releases : KernPath → Prop
  -- more than one thread: the return before `mutex_unlock`
  | .exec e => e.args → e.elf → e.cur.isSome → e.numThreads ≤ 1
  -- no status: the return before `mutex_unlock`
  | .wait w => w.numChildProc ≠ 0 → w.statusQueue ≠ []
  -- the key is in a table: the return before `sched_mutex_unlock`
  | .fork f => f.Adds → ¬ f.addPcb.Stuck ∧ (f.addPcb.Adds → ¬ f.addTcb.Stuck)
  -- no node: `pcb_signal_status` unlocks the mutex of its caller, or one that nobody locked
  | .vanish v => v.numThreads % 2 ^ 32 = 1 → v.signal.metadata → v.signal.node
  | .addTcb a => ¬ a.Stuck
  | .addPcb a => ¬ a.Stuck
  -- the tcb is not found: the `continue` before `sched_mutex_unlock`
  | .reap _ _ zombie => ∀ z ∈ zombie, z.Removable

/-! ### What the paths call -/

variable {α : Type} {Q : Unit → List KLock → Prop} {E : PathFault → List KLock → Prop}
  {held : List KLock}

@[simp] lemma wp_lock (l : KLock) : wp (lock l) Q E held ↔ Q () (l :: held) := Iff.rfl

/-- The last lock that was taken is given back. -/
@[simp] lemma wp_unlock_last (l : KLock) : wp (unlock l) Q E (l :: held) ↔ Q () held := by
  unfold unlock
  rw [wp_bind, wp_get, wp_bind, wp_require, wp_modify, List.erase_cons_head]
  exact ⟨fun h => h.1 (.head held), fun h => ⟨fun _ => h, fun hn => absurd (.head held) hn⟩⟩

/-- Unlocking with no lock taken. -/
@[simp] lemma wp_unlock_nil (l : KLock) : wp (unlock l) Q E [] ↔ E .notLocked [] := by
  unfold unlock
  rw [wp_bind, wp_get, wp_bind, wp_require]
  exact ⟨fun h => h.2 List.not_mem_nil, fun h => ⟨fun hl => absurd hl List.not_mem_nil, fun _ => h⟩⟩

@[simp] lemma wp_heapCalls (n : ℕ) : wp (heapCalls n) Q E held ↔ Q () held := by
  induction n with
  | zero => rfl
  | succ n ih => rw [heapCalls, wp_bind, wp_lock, wp_bind, wp_unlock_last, ih]

@[simp] lemma wp_memCalls (calls : List MemCall) : wp (memCalls calls) Q E held ↔ Q () held := by
  induction calls with
  | nil => rfl
  | cons call calls ih =>
      cases call with
      | heap => rw [memCalls, wp_bind, wp_heapCalls, ih]
      | fm heap =>
          rw [memCalls, wp_bind, wp_lock, wp_bind, wp_heapCalls, wp_bind, wp_unlock_last, ih]

@[simp] lemma wp_schedSection : wp schedSection Q E held ↔ Q () held := by
  rw [schedSection, wp_bind, wp_lock, wp_unlock_last]

@[simp] lemma wp_descheduleRounds (n : ℕ) : wp (descheduleRounds n) Q E held ↔ Q () held := by
  induction n with
  | zero => rfl
  | succ n ih => rw [descheduleRounds, wp_bind, wp_schedSection, wp_bind, wp_schedSection, ih]

@[simp] lemma wp_semWait (s : KSem) (count : ℤ) (rounds : ℕ) :
    wp (semWait s count rounds) Q E held ↔ Q () held := by
  rw [semWait, wp_bind, wp_lock]
  split_ifs with hneg
  · rw [wp_bind, wp_heapCalls, wp_bind, wp_unlock_last, wp_descheduleRounds]
  · rw [wp_unlock_last]

@[simp] lemma wp_semSignal (s : KSem) (count : ℤ) (waiter : Bool) :
    wp (semSignal s count waiter) Q E held ↔ Q () held := by
  rw [semSignal, wp_bind, wp_lock]
  split_ifs with hle hwaiter
  · rw [wp_bind, wp_heapCalls, wp_bind, wp_schedSection, wp_unlock_last]
  · rw [wp_unlock_last]
  · rw [wp_unlock_last]

@[simp] lemma wp_pcbCount (pcb : Ptr) : wp (pcbCount pcb) Q E held ↔ Q () held := by
  rw [pcbCount, wp_bind, wp_lock, wp_unlock_last]

@[simp] lemma wp_pcbDestroyS (pcb : Ptr) (d : DestroyIn) :
    wp (pcbDestroyS pcb d) Q E held ↔ Q () held := by
  rw [pcbDestroyS, wp_bind, wp_lock, wp_bind, wp_lock, wp_bind, wp_heapCalls, wp_bind,
    wp_unlock_last, wp_bind, wp_heapCalls, wp_bind, wp_memCalls, wp_unlock_last]

@[simp] lemma wp_dropDuplicate (pcb : Ptr) (d : DestroyIn) :
    wp (dropDuplicate pcb d) Q E held ↔ Q () held := by
  rw [dropDuplicate, wp_bind, wp_pcbDestroyS, wp_heapCalls]

/-- **Adding to a table** leaves `sched_lock` when the key is there. -/
lemma addSafe_spec (a : AddIn) : wp (addSafe a)
    (fun r h => (a.Stuck → h = .sched :: held) ∧ (¬ a.Stuck → h = held) ∧ (r < 0 ↔ ¬ a.Adds))
    (fun _ _ => False) held := by
  unfold addSafe AddIn.Stuck AddIn.Adds
  split_ifs <;> simp [*]

/-! ### The functions, one by one -/

/-- `exec` keeps the pcb's mutex when the process has more threads. -/
lemma balanced_exec (e : ExecIn) : (KernPath.exec e).Balanced ↔ (KernPath.exec e).Releases := by
  change wp (syscallExec e >>= fun ret => pure ret.isSome) _ _ [] ↔
    (e.args → e.elf → e.cur.isSome → e.numThreads ≤ 1)
  rw [wp_bind]
  unfold syscallExec
  cases hargs : e.args with
  | false => simp
  | true =>
      cases helf : e.elf with
      | false => simp
      | true =>
          cases hcur : e.cur with
          | none => simp
          | some cur =>
              by_cases hmany : 1 < e.numThreads
              · simp [hmany]
              · cases e.argv <;> simp [hmany, Nat.le_of_not_lt hmany]

/-- `wait` keeps the pcb's mutex when the status queue is empty. -/
lemma balanced_wait (w : WaitIn) : (KernPath.wait w).Balanced ↔ (KernPath.wait w).Releases := by
  change wp (syscallWait w >>= fun _ => pure true) _ _ [] ↔
    (w.numChildProc ≠ 0 → w.statusQueue ≠ [])
  unfold syscallWait pcbWaitOnStatus
  by_cases hzero : w.numChildProc = 0
  · simp [hzero]
  · cases hqueue : w.statusQueue <;> simp [hzero]

/-- `pcb_signal_status` with the mutexes `held`: it gives one back when it has no node. -/
lemma wp_pcbSignalStatus (pcb : Ptr) (v : SignalIn) {Q : ℤ → List KLock → Prop} :
    wp (pcbSignalStatus pcb v) Q E held ↔
      if v.metadata then
        if v.node then Q 0 held
        else wp (unlock (.mutex (.pcb pcb))) (fun _ h => Q (-2) h) E held
      else Q (-2) held := by
  unfold pcbSignalStatus
  cases hmetadata : v.metadata with
  | false => simp
  | true => cases hnode : v.node <;> simp

lemma decCount_eq_zero (n : ℕ) : decCount n = 0 ↔ n % 2 ^ 32 = 1 := by
  unfold decCount
  omega

/-- `thr_vanish` gives back a mutex that it has not, or has no more, when there is no node. -/
lemma balanced_vanish (v : VanishIn) :
    (KernPath.vanish v).Balanced ↔ (KernPath.vanish v).Releases := by
  change wp (thrVanishSignal v >>= fun _ => pure true) _ _ [] ↔
    (v.numThreads % 2 ^ 32 = 1 → v.signal.metadata → v.signal.node)
  rw [← decCount_eq_zero]
  unfold thrVanishSignal
  by_cases hlast : decCount v.numThreads = 0
  · cases hparent : v.parent <;> cases hmetadata : v.signal.metadata <;>
      cases hnode : v.signal.node <;> simp [hlast, hmetadata, hnode, wp_pcbSignalStatus]
  · cases hparent : v.parent <;> simp [hlast]

lemma balanced_addSafe (a : AddIn) :
    wp (addSafe a >>= fun _ => pure true) (fun back held => back → held = [])
      (fun _ _ => False) [] ↔ ¬ a.Stuck := by
  rw [wp_bind]
  refine wp_iff (addSafe_spec a) (fun r h hr => ?_) fun _ _ hf => hf.elim
  by_cases hstuck : a.Stuck
  · rw [hr.1 hstuck]
    simp [hstuck]
  · rw [hr.2.1 hstuck]
    simp [hstuck]

/-- What is added is not stuck. -/
lemma AddIn.Adds.not_stuck {a : AddIn} (h : a.Adds) : ¬ a.Stuck := by
  rintro ⟨-, -, -, -, hpresent⟩
  exact Bool.false_ne_true (h.2.2.2.2.symm.trans hpresent)

/-- `scheduler_add_process` keeps `sched_lock` when the pid or the tid is in its table. -/
lemma schedulerAddProcess_spec (f : ForkIn) (pcb : Ptr) : wp (schedulerAddProcess f pcb)
    (fun _ h => h = [] ↔ (f.tcb → f.stack → ¬ f.addPcb.Stuck ∧ (f.addPcb.Adds → ¬ f.addTcb.Stuck)))
    (fun _ _ => False) [] := by
  unfold schedulerAddProcess
  cases htcb : f.tcb with
  | false => simp
  | true =>
      cases hstack : f.stack with
      | false => simp
      | true =>
          simp only [not_true, if_false, wp_bind, wp_heapCalls, wp_pcbCount, true_imp_iff]
          refine wp_imp (addSafe_spec f.addPcb) fun r h hpcb => ?_
          obtain ⟨hstuck, hfree, hneg⟩ := hpcb
          by_cases hr : r < 0
          · have hnot : ¬ f.addPcb.Adds := hneg.mp hr
            rw [if_pos hr, wp_pure]
            by_cases hpcb : f.addPcb.Stuck
            · simp [hstuck hpcb, hpcb]
            · simp [hfree hpcb, hpcb, hnot]
          · have hadds : f.addPcb.Adds := not_not.mp (mt hneg.mpr hr)
            rw [if_neg hr, wp_bind, hfree hadds.not_stuck]
            refine wp_imp (addSafe_spec f.addTcb) fun r' h' htcb => ?_
            obtain ⟨hstuck', hfree', -⟩ := htcb
            have hheld : h' = [] ↔ ¬ f.addTcb.Stuck := by
              by_cases htid : f.addTcb.Stuck
              · simp [hstuck' htid, htid]
              · simp [hfree' htid, htid]
            split_ifs
            · rw [wp_pure, hheld]
              simp [hadds, hadds.not_stuck]
            · rw [wp_pure, hheld]
              simp [hadds, hadds.not_stuck]

/-- `fork` keeps `sched_lock` when the pid or the tid is in its table. -/
lemma balanced_fork (f : ForkIn) : (KernPath.fork f).Balanced ↔ (KernPath.fork f).Releases := by
  change wp (syscallFork f >>= fun _ => pure true) _ _ [] ↔
    (f.Adds → ¬ f.addPcb.Stuck ∧ (f.addPcb.Adds → ¬ f.addTcb.Stuck))
  unfold syscallFork ForkIn.Adds
  by_cases hmany : 1 < f.numThreads
  · simp [hmany, Nat.not_le_of_lt hmany]
  · cases hdup : f.duplicate with
    | none => simp [hmany]
    | some pcb =>
        cases hcopied : f.copied with
        | false => simp [hmany]
        | true =>
            simp only [hmany, if_false, not_true, wp_bind, wp_lock, wp_unlock_last, wp_heapCalls,
              wp_memCalls]
            refine wp_iff (schedulerAddProcess_spec f pcb) (fun r h hr => ?_) fun _ _ hf => hf.elim
            have hback : (h = [] ↔ (f.numThreads ≤ 1 ∧ (some pcb).isSome ∧ true ∧ f.tcb ∧ f.stack →
                ¬ f.addPcb.Stuck ∧ (f.addPcb.Adds → ¬ f.addTcb.Stuck))) := by
              rw [hr]
              simp [Nat.le_of_not_lt hmany]
            split_ifs <;> simpa using hback

/-- `tcb_pool_remove_tcb` fails when the tcb is not in the table or not in a pool. -/
lemma tcbPoolRemoveTcb_neg (z : ZombieIn) :
    tcbPoolRemoveTcb z.entry z.size < 0 ↔ ¬ z.Removable := by
  have hsize : ∀ n : ℕ, (if n = 0 then (-5 : ℤ) else 0) < 0 ↔ n = 0 := by
    intro n
    split_ifs with hn <;> simp [hn]
  unfold tcbPoolRemoveTcb ZombieIn.Removable
  cases z.entry with
  | none => simp
  | some st => cases st <;> simp [hsize]

/-- A round of `tcb_pool_reap` keeps `sched_lock` when it does not find its tcb. -/
lemma balanced_reap (count : ℤ) (rounds : ℕ) (zombie : Option ZombieIn) :
    (KernPath.reap count rounds zombie).Balanced ↔
      (KernPath.reap count rounds zombie).Releases := by
  change wp (reapRound count rounds zombie >>= fun _ => pure true) _ _ [] ↔
    (∀ z ∈ zombie, z.Removable)
  unfold reapRound
  cases zombie with
  | none => simp
  | some z =>
      have hneg := tcbPoolRemoveTcb_neg z
      by_cases hz : z.Removable
      · have hpos : ¬ tcbPoolRemoveTcb z.entry z.size < 0 := fun h => hneg.mp h hz
        by_cases hfreed : z.numThreads = 0 ∧ z.nodeFreed
        · by_cases hdead : z.numThreads' = 0 <;> simp [hpos, hz, hfreed, hdead]
        · by_cases hdead : z.numThreads' = 0 <;> simp [hpos, hz, hfreed, hdead]
      · simp [hneg.mpr hz, hz]

/-- **The paths that are balanced**: those that miss the places where a lock is left, or another
one is unlocked. -/
theorem balanced_iff (p : KernPath) : p.Balanced ↔ p.Releases := by
  cases p with
  | exec e => exact balanced_exec e
  | wait w => exact balanced_wait w
  | fork f => exact balanced_fork f
  | vanish v => exact balanced_vanish v
  | addTcb a => exact balanced_addSafe a
  | addPcb a => exact balanced_addSafe a
  | reap count rounds zombie => exact balanced_reap count rounds zombie

/-- **A path that is not balanced**: `exec` in a process with two threads. -/
theorem not_balanced_exec : ¬ ∀ p : KernPath, p.Balanced := by
  intro hall
  have hreleases := (balanced_exec ⟨true, true, some 10, 2, .ok 0, [], []⟩).mp (hall _)
  exact absurd (hreleases rfl rfl rfl) (by decide)

end ShrekOS.LockBalance
