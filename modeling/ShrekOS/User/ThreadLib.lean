/-
The thread library: `thr_create`, `thr_exit` and `thr_join` in `user/libthread/thread.c`,
step by step, for any number of threads.

* `ThreadT`, `ThrLib`: the thread pool and the globals of the library;
* `CreatePc`, `ExitPc`, `JoinPc`, `SleepPc`: how far a thread has come with a call;
* `createNext`, `exitNext`, `joinNext`: the steps, one access to shared data each;
* `ThrNext`: what a thread does next as a relation, `thrNext_eq_some`;
* `thrLib`: the threads of a task from the return of `thr_init` on.

`rwlock_lock` and `mutex_lock` are steps that wait until the lock can be taken. The loop of
`cond_wait` and the two lines of `cond_signal` are taken apart: a signal may find the waiter
anywhere in its loop.
-/
import ShrekOS.Lib.Threads

namespace ShrekOS

open Kit

/-- `THR_STATUS_ALIVE`, `THR_STATUS_DEAD` and `THR_STATUS_ZOMBIE`. -/
inductive ThrStatus where
  | alive
  | dead
  | zombie
  deriving DecidableEq

/-- `thread_t`: the mutex with the thread that holds it, the condition variable with the
threads in its queue. -/
structure ThreadT where
  pendingJoin : Bool
  kTid : ℤ
  status : ThrStatus
  exitStatus : ℤ
  joinCv : List ℕ
  m : Option ℕ
  stackTop : BitVec 32

/-- The globals of the library, the flags that the waiting threads have on their stacks, and
the kernel's threads of the task, which of them are descheduled, and the stacks they were
forked on. The last two fields record the statuses passed to `thr_exit` and what the joins
returned with. -/
structure ThrLib where
  parentStackTop : BitVec 32
  threadStackSize : BitVec 32
  stackBottom : BitVec 32
  threadPool : ℕ → ThreadT
  size : ℕ
  readers : ℕ
  writerLocked : Bool
  reject : ℕ → Bool
  waiting : ℕ → Bool
  tids : List ℕ
  top : ℕ → BitVec 32
  exited : ℕ → Option ℤ
  joined : List (ℤ × ℤ)

/-- How far a thread has come with `thr_create`. -/
inductive CreatePc where
  | lock
  | scan (k : ℕ)
  | take (k : ℕ)
  | check (k : ℕ)
  | giveUp (k : ℕ)
  | claimed (k : ℕ) (newEsp : BitVec 32)
  | size
  | release (found : Option ℕ) (newEsp : BitVec 32)
  | page (newEsp : BitVec 32)
  | bottom (newEsp : BitVec 32)
  | fork (found : Option ℕ) (newEsp : BitVec 32)
  | addLock (child : ℕ) (newEsp : BitVec 32)
  | add (child : ℕ) (newEsp : BitVec 32)
  | addUnlock
  | tidTake (k child : ℕ)
  | tidSet (k child : ℕ)
  | tidUnlock (k : ℕ)
  | revertTake (k : ℕ)
  | revert (k : ℕ)
  | revertAgain (k : ℕ)

/-- How far a thread has come with `thr_exit`. -/
inductive ExitPc where
  | lock
  | scan (k : ℕ)
  | retry
  | take (k : ℕ)
  | mark (k : ℕ)
  | save (k : ℕ)
  | signal (k : ℕ)
  | wake (k w : ℕ)
  | unlock (k : ℕ)
  | release
  | vanish

/-- Where a thread is in the loop of `cond_wait`: at the test of `reject`, before the `xchng`
and before the descheduling of `thr_deschedule`, or behind it. -/
inductive SleepPc where
  | test
  | exchange
  | deschedule
  | asleep
  deriving DecidableEq

/-- How far a thread has come with `thr_join`. -/
inductive JoinPc where
  | lock
  | scan (k : ℕ)
  | giveUp
  | release (k : ℕ)
  | take (k : ℕ)
  | enter (k : ℕ)
  | refuse (k : ℕ)
  | test (k : ℕ)
  | wait (k : ℕ) (p : SleepPc)
  | relock (k : ℕ)
  | save (k : ℕ)
  | clear (k : ℕ) (status : ℤ)
  | reap (k : ℕ) (status : ℤ)
  | unname (k : ℕ) (status : ℤ)
  | unlock (k : ℕ) (status : ℤ)

/-- Where a thread is: in its own code, in a call with its arguments, or gone. -/
inductive ThrPc where
  | user
  | create (p : CreatePc)
  | exit (status : ℤ) (p : ExitPc)
  | join (kTid : ℤ) (p : JoinPc)
  | vanished

instance (p : ThrPc) : Decidable (p = .vanished) :=
  match p with
  | .vanished => isTrue rfl
  | .user | .create _ | .exit _ _ | .join _ _ => isFalse nofun

/-- What a thread does: a call, or the next step of the one it is in. A step may fail where a
system call may; the kernel picks the tid of a forked thread, and `malloc` what is in the
fields that `add_to_pool_s` does not set. -/
inductive ThrAct where
  | thrCreate
  | thrExit (status : ℤ)
  | thrJoin (kTid : ℤ)
  | run
  | fail
  | fork (child : ℕ)
  | add (pendingJoin : Bool) (exitStatus : ℤ)
  deriving DecidableEq

namespace ThrLib

/-- A write to the `k`-th node of the thread pool. -/
def setThread (s : ThrLib) (k : ℕ) (c : ThreadT) : ThrLib :=
  { s with threadPool := Function.update s.threadPool k c }

/-- `mutex_lock(&(thr->m))`. -/
def mutexLock (s : ThrLib) (t k : ℕ) : Option ThrLib :=
  if (s.threadPool k).m = none then some (s.setThread k { s.threadPool k with m := some t })
  else none

/-- `mutex_unlock(&(thr->m))`. -/
def mutexUnlock (s : ThrLib) (k : ℕ) : ThrLib :=
  s.setThread k { s.threadPool k with m := none }

/-- `rwlock_lock(&thread_pool_lock, RWLOCK_READ)`. -/
def rwlockRead (s : ThrLib) : Option ThrLib :=
  if s.writerLocked then none else some { s with readers := s.readers + 1 }

/-- `rwlock_lock(&thread_pool_lock, RWLOCK_WRITE)`. -/
def rwlockWrite (s : ThrLib) : Option ThrLib :=
  if s.writerLocked ∨ 0 < s.readers then none else some { s with writerLocked := true }

/-- `rwlock_unlock(&thread_pool_lock)`. -/
def rwlockUnlock (s : ThrLib) : ThrLib :=
  if s.writerLocked then { s with writerLocked := false } else { s with readers := s.readers - 1 }

/-- `parent_stack_top - thread_pool.size * thread_stack_size`, for a pool of the size. -/
def newEsp (s : ThrLib) (size : ℕ) : BitVec 32 :=
  s.parentStackTop - BitVec.ofNat 32 size * s.threadStackSize

/-- `new_thr_page` has to allocate for the stack. -/
def NeedsPage (s : ThrLib) (esp : BitVec 32) : Prop :=
  esp - s.threadStackSize < s.stackBottom

instance (s : ThrLib) (esp : BitVec 32) : Decidable (s.NeedsPage esp) :=
  inferInstanceAs (Decidable (_ < _))

end ThrLib

/-- The steps of `thr_create`. A failed `add_to_pool_s` panics, which stops the machine. -/
def createNext (s : ThrLib) (t : ℕ) : CreatePc → ThrAct → Option (ThrLib × ThrPc)
  | .lock, .run => s.rwlockRead.map fun s => (s, .create (.scan 0))
  -- `ll_find` for a dead thread
  | .scan k, .run =>
      if k < s.size then
        if (s.threadPool k).status = .dead then some (s, .create (.take k))
        else some (s, .create (.scan (k + 1)))
      else some (s, .create .size)
  | .take k, .run => (s.mutexLock t k).map fun s => (s, .create (.check k))
  | .check k, .run =>
      if (s.threadPool k).status = .dead then
        some (s.setThread k { s.threadPool k with joinCv := [], status := .alive },
          .create (.claimed k (s.threadPool k).stackTop))
      else some (s, .create (.giveUp k))
  | .giveUp k, .run => some (s.mutexUnlock k, .create (.scan 0))
  | .claimed k esp, .run => some (s.mutexUnlock k, .create (.release (some k) esp))
  | .size, .run => some (s, .create (.release none (s.newEsp s.size)))
  | .release found esp, .run =>
      some (s.rwlockUnlock, match found with
        | none => .create (.page esp)
        | some k => .create (.fork (some k) esp))
  -- `new_thr_page`
  | .page esp, .run =>
      if s.NeedsPage esp then some (s, .create (.bottom esp))
      else some (s, .create (.fork none esp))
  | .page esp, .fail => if s.NeedsPage esp then some (s, .user) else none
  | .bottom esp, .run =>
      some ({ s with stackBottom := s.stackBottom - s.threadStackSize }, .create (.fork none esp))
  -- `thread_fork`
  | .fork found esp, .fork c =>
      if c ∈ s.tids then none
      else some ({ s with tids := c :: s.tids, top := Function.update s.top c esp },
        match found with
        | none => .create (.addLock c esp)
        | some k => .create (.tidTake k c))
  | .fork found _, .fail =>
      some (s, match found with
        | none => .user
        | some k => .create (.revertTake k))
  -- `add_to_pool_s`
  | .addLock c esp, .run => s.rwlockWrite.map fun s => (s, .create (.add c esp))
  | .add c esp, .add pending status =>
      some ({ s.setThread s.size ⟨pending, c, .alive, status, [], none, esp⟩ with
        size := s.size + 1 }, .create .addUnlock)
  | .addUnlock, .run => some (s.rwlockUnlock, .user)
  -- the new tid of a resurrected thread
  | .tidTake k c, .run => (s.mutexLock t k).map fun s => (s, .create (.tidSet k c))
  | .tidSet k c, .run =>
      some (s.setThread k { s.threadPool k with kTid := c }, .create (.tidUnlock k))
  | .tidUnlock k, .run => some (s.mutexUnlock k, .user)
  -- a failed fork: the second call is `mutex_lock` again
  | .revertTake k, .run => (s.mutexLock t k).map fun s => (s, .create (.revert k))
  | .revert k, .run =>
      some (s.setThread k { s.threadPool k with status := .dead }, .create (.revertAgain k))
  | .revertAgain k, .run => (s.mutexLock t k).map fun s => (s, .user)
  | _, _ => none

/-- The steps of `thr_exit`. -/
def exitNext (s : ThrLib) (t : ℕ) (status : ℤ) : ExitPc → ThrAct → Option (ThrLib × ThrPc)
  | .lock, .run => s.rwlockRead.map fun s => (s, .exit status (.scan 0))
  -- `find_thread_by_k_tid(gettid(), &target_thr)`
  | .scan k, .run =>
      if k < s.size then
        if (s.threadPool k).kTid = t then some (s, .exit status (.take k))
        else some (s, .exit status (.scan (k + 1)))
      else some (s, .exit status .retry)
  | .retry, .run => some (s.rwlockUnlock, .exit status .lock)
  | .take k, .run => (s.mutexLock t k).map fun s => (s, .exit status (.mark k))
  | .mark k, .run =>
      some (s.setThread k { s.threadPool k with status := .zombie }, .exit status (.save k))
  | .save k, .run =>
      some (s.setThread k { s.threadPool k with exitStatus := status }, .exit status (.signal k))
  -- `cond_signal`: `reject = 1` for the head of the queue, and `make_runnable`
  | .signal k, .run =>
      match (s.threadPool k).joinCv with
      | [] => some (s, .exit status (.unlock k))
      | w :: q =>
          some ({ s.setThread k { s.threadPool k with joinCv := q } with
            reject := Function.update s.reject w true }, .exit status (.wake k w))
  | .wake k w, .run =>
      some ({ s with waiting := Function.update s.waiting w false }, .exit status (.unlock k))
  | .unlock k, .run => some (s.mutexUnlock k, .exit status .release)
  | .release, .run => some (s.rwlockUnlock, .exit status .vanish)
  | .vanish, .run => some (s, .vanished)
  | _, _ => none

/-- The steps of the loop `while(!reject) deschedule(&reject)` of `cond_wait`. -/
def sleepNext (s : ThrLib) (t : ℕ) (kTid : ℤ) (k : ℕ) : SleepPc → Option (ThrLib × ThrPc)
  | .test =>
      if s.reject t then some (s, .join kTid (.relock k))
      else some (s, .join kTid (.wait k .exchange))
  -- a flag that has been set since the test is written over
  | .exchange =>
      if s.reject t then
        some ({ s with reject := Function.update s.reject t false }, .join kTid (.wait k .test))
      else some (s, .join kTid (.wait k .deschedule))
  | .deschedule =>
      some ({ s with waiting := Function.update s.waiting t true }, .join kTid (.wait k .asleep))
  | .asleep => if s.waiting t then none else some (s, .join kTid (.wait k .test))

/-- The steps of `thr_join`. -/
def joinNext (s : ThrLib) (t : ℕ) (kTid : ℤ) : JoinPc → ThrAct → Option (ThrLib × ThrPc)
  | .lock, .run => s.rwlockRead.map fun s => (s, .join kTid (.scan 0))
  -- `find_thread_by_k_tid(k_tid, &target_thr)`
  | .scan k, .run =>
      if k < s.size then
        if (s.threadPool k).kTid = kTid then some (s, .join kTid (.release k))
        else some (s, .join kTid (.scan (k + 1)))
      else some (s, .join kTid .giveUp)
  | .giveUp, .run => some (s.rwlockUnlock, .user)
  | .release k, .run => some (s.rwlockUnlock, .join kTid (.take k))
  | .take k, .run => (s.mutexLock t k).map fun s => (s, .join kTid (.enter k))
  | .enter k, .run =>
      if (s.threadPool k).status = .dead then some (s, .join kTid (.refuse k))
      else some (s, .join kTid (.test k))
  | .refuse k, .run => some (s.mutexUnlock k, .user)
  | .test k, .run =>
      if (s.threadPool k).status = .alive then
        if (s.threadPool k).pendingJoin then some (s, .join kTid (.refuse k))
        -- `cond_wait` takes a place in the queue and releases the mutex
        else some ({ s.setThread k { s.threadPool k with
            pendingJoin := true, joinCv := (s.threadPool k).joinCv ++ [t], m := none } with
          reject := Function.update s.reject t false }, .join kTid (.wait k .test))
      else some (s, .join kTid (.save k))
  | .wait k p, .run => sleepNext s t kTid k p
  | .relock k, .run => (s.mutexLock t k).map fun s => (s, .join kTid (.test k))
  | .save k, .run => some (s, .join kTid (.clear k (s.threadPool k).exitStatus))
  | .clear k st, .run =>
      some (s.setThread k { s.threadPool k with pendingJoin := false }, .join kTid (.reap k st))
  -- `reap_zombie`
  | .reap k st, .run =>
      some (s.setThread k { s.threadPool k with status := .dead }, .join kTid (.unname k st))
  | .unname k st, .run =>
      some (s.setThread k { s.threadPool k with kTid := -1 }, .join kTid (.unlock k st))
  -- the call returns 0
  | .unlock k st, .run =>
      some ({ s.mutexUnlock k with joined := (kTid, st) :: s.joined }, .user)
  | _, _ => none

/-- The steps of a thread that has been forked. -/
def thrNext (s : ThrLib) (t : ℕ) (p : ThrPc) (a : ThrAct) : Option (ThrLib × ThrPc) :=
  if t ∈ s.tids then
    match p, a with
    | .user, .thrCreate => some (s, .create .lock)
    | .user, .thrExit status =>
        some ({ s with exited := Function.update s.exited t (some status) }, .exit status .lock)
    | .user, .thrJoin kTid => some (s, .join kTid .lock)
    | .create p, a => createNext s t p a
    | .exit status p, a => exitNext s t status p a
    | .join kTid p, a => joinNext s t kTid p a
    | _, _ => none
  else none

/-- What a step of a thread is: the begin of a call, or a step of the call that it is in. -/
inductive ThrNext (s : ThrLib) (t : ℕ) : ThrPc → ThrAct → ThrLib → ThrPc → Prop where
  | thrCreate : ThrNext s t .user .thrCreate s (.create .lock)
  | thrExit (status : ℤ) : ThrNext s t .user (.thrExit status)
      { s with exited := Function.update s.exited t (some status) } (.exit status .lock)
  | thrJoin (kTid : ℤ) : ThrNext s t .user (.thrJoin kTid) s (.join kTid .lock)
  | create {q : CreatePc} {a : ThrAct} {s' : ThrLib} {p' : ThrPc}
      (hs : createNext s t q a = some (s', p')) : ThrNext s t (.create q) a s' p'
  | exit {status : ℤ} {q : ExitPc} {a : ThrAct} {s' : ThrLib} {p' : ThrPc}
      (hs : exitNext s t status q a = some (s', p')) : ThrNext s t (.exit status q) a s' p'
  | join {kTid : ℤ} {q : JoinPc} {a : ThrAct} {s' : ThrLib} {p' : ThrPc}
      (hs : joinNext s t kTid q a = some (s', p')) : ThrNext s t (.join kTid q) a s' p'

/-- Only a thread that has been forked takes a step. -/
lemma thrNext_eq_some {s s' : ThrLib} {t : ℕ} {p p' : ThrPc} {a : ThrAct}
    (hs : thrNext s t p a = some (s', p')) : t ∈ s.tids ∧ ThrNext s t p a s' p' := by
  unfold thrNext at hs
  split_ifs at hs with ht
  refine ⟨ht, ?_⟩
  cases p with
  | user =>
      -- a thread outside the library begins a call, or does nothing here
      cases a with
      | thrCreate =>
          obtain ⟨rfl, rfl⟩ := Prod.mk.inj (Option.some.inj hs)
          exact .thrCreate
      | thrExit status =>
          obtain ⟨rfl, rfl⟩ := Prod.mk.inj (Option.some.inj hs)
          exact .thrExit status
      | thrJoin kTid =>
          obtain ⟨rfl, rfl⟩ := Prod.mk.inj (Option.some.inj hs)
          exact .thrJoin kTid
      | _ => cases hs
  | create q => exact .create hs
  | exit status q => exact .exit hs
  | join kTid q => exact .join hs
  | vanished => cases a <;> cases hs

/-- What there is when `thr_init` returns: the calling thread, its node in the thread pool,
and both locks free. The nodes beyond the size of the pool are not there yet. -/
structure ThrLib.AfterInit (s : ThrLib) (main : ℕ) : Prop where
  size : s.size = 1
  stackTop : (s.threadPool 0).stackTop = s.parentStackTop
  kTid : (s.threadPool 0).kTid = main
  status : (s.threadPool 0).status = .alive
  mutex : (s.threadPool 0).m = none
  joinCv : (s.threadPool 0).joinCv = []
  beyond : ∀ k, 1 ≤ k → (s.threadPool k).kTid = -1 ∧ (s.threadPool k).status = .alive ∧
    (s.threadPool k).m = none
  readers : s.readers = 0
  writer : s.writerLocked = false
  waiting : ∀ t, s.waiting t = false
  tids : s.tids = [main]
  top : s.top main = s.parentStackTop
  exited : ∀ t, s.exited t = none
  joined : s.joined = []

/-- **The threads of a task** from the return of `thr_init` on. -/
def thrLib : Threads ThrLib ThrPc ThrAct where
  init s := (∃ main, s.1.AfterInit main) ∧ ∀ t, s.2 t = .user
  step := thrNext

end ShrekOS
