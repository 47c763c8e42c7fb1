/-
The scheduler lock of `kern/locks/sched_mutex.c`, and the functions that hold it.

* `Kernel`: the processor's interrupt flag beside the data that the critical sections
  touch, with the nesting depth of the lock and a log of the flag as ghost fields;
* `schedMutexLock`, `schedMutexUnlock`, `mutexLock`, `mutexUnlock`, `semSignalZombies`: the
  locks of `kern/locks`; a contended mutex yields, and what the other threads leave when the
  thread runs again is given by a script;
* `CritCall`, `critCall`: the functions with a critical section;
* `Unbroken`: interrupts were disabled at every nesting depth above 0;
* `unbroken_of_flat`: **in a run of flat sections no critical section is broken**, and
  `not_unbroken_of_makeCurrentZombie`: a section that is.
-/
import ShrekOS.Sched.PoolRules

namespace ShrekOS

open Kit Kit.Cmd

/-- `mutex_t`: the lock is free unless it is 0. -/
structure Mutex where
  lock : ℤ
  owner : ℤ
  deriving DecidableEq

/-- `sem_t`, with the tids of the waiters on its queue. -/
structure Sem where
  count : ℤ
  m : Mutex
  q : List ℤ

/-- What the critical sections read and write, other threads too. -/
structure World where
  sched : Sched
  processes : Ht ℤ Ptr
  zombiesSem : Sem
  heapLock : Mutex

/-- The mutexes a critical section may take. -/
inductive MutexId where
  | zombies
  | heap
  deriving DecidableEq

/-- The kernel on the path of one thread. `depth` counts the `sched_mutex_lock`s without
their `sched_mutex_unlock`; `log` has the depth and the interrupt flag after each change. -/
structure Kernel where
  world : World
  started : Bool
  interrupts : Bool
  depth : ℕ
  log : List (ℕ × Bool)
  resumes : List (World × Bool)
  halted : Bool

/-- Commands on the path of a thread. -/
abbrev PathM (α : Type) : Type := Cmd Fault Kernel α

/-! ### The locks -/

/-- `sched_mutex_lock`: `disable_interrupts`, once the scheduler has started. -/
def schedMutexLock : PathM Unit := do
  if (← gets Kernel.started) then
    modify fun k => { k with
      interrupts := false
      depth := k.depth + 1
      log := (k.depth + 1, false) :: k.log }

/-- `sched_mutex_unlock`: `enable_interrupts`, whatever the depth is. -/
def schedMutexUnlock : PathM Unit := do
  if (← gets Kernel.started) then
    modify fun k => { k with
      interrupts := true
      depth := k.depth - 1
      log := (k.depth - 1, true) :: k.log }

/-- A command on the scheduler's data. -/
def onSched {α : Type} (c : SchedM α) : PathM α := fun k =>
  match c k.world.sched with
  | (r, s) => (r, { k with world := { k.world with sched := s } })

/-- A mutex. -/
def World.mutex (w : World) : MutexId → Mutex
  | .zombies => w.zombiesSem.m
  | .heap => w.heapLock

/-- A write to a mutex. -/
def World.setMutex (w : World) (mp : Mutex) : MutexId → World
  | .zombies => { w with zombiesSem.m := mp }
  | .heap => { w with heapLock := mp }

/-- A write to a mutex, on the path of a thread. -/
def writeMutex (id : MutexId) (f : Mutex → Mutex) : PathM Unit :=
  modify fun k => { k with world := k.world.setMutex (f (k.world.mutex id)) id }

/-- `context_switch_safe`. -/
def contextSwitchSafe (oldEsp : ℕ) (targetTid : ℤ) : PathM ℕ := do
  schedMutexLock
  let newEsp ← onSched (contextSwitch oldEsp targetTid)
  schedMutexUnlock
  return newEsp

/-- Other threads run, until this one does again. -/
def resume : PathM Unit := do
  match ← gets Kernel.resumes with
  | [] => fault .outOfFuel
  | (w, interrupts) :: rest =>
      modify fun k => { k with
        world := w
        interrupts := interrupts
        log := (k.depth, interrupts) :: k.log
        resumes := rest }

/-- `thr_kern_yield`, which is `thr_yield`. -/
def thrKernYield (tid : ℤ) : PathM ℤ := do
  if 0 ≤ tid then
    let ret ← onSched (schedulerCheckIsRunnable tid)
    if ret < 0 then
      return -2
    if ret = 0 then
      return -3
    let _ ← contextSwitchSafe 0 tid
    resume
    return 0
  else
    let _ ← contextSwitchSafe 0 tid
    resume
    return 0

/-- The loop of `mutex_lock`: yield to the owner, or to any thread, until the lock is free. -/
def mutexSpin (id : MutexId) : ℕ → PathM Unit
  | 0 => fault .outOfFuel
  | fuel + 1 => do
      let mp ← gets fun k => k.world.mutex id
      if mp.lock ≠ 0 then
        writeMutex id fun mp => { mp with lock := 0 }
      else if (← thrKernYield mp.owner) < 0 then
        let _ ← thrKernYield (-1)
        mutexSpin id fuel
      else
        mutexSpin id fuel

/-- `scheduler_get_current_tid`, with `-1` for its error. -/
def currentTid (s : Sched) : ℤ := (s.curTcb.bind s.tcbs).elim (-1) Tcb.tid

/-- `mutex_lock`. -/
def mutexLock (id : MutexId) : PathM Unit := do
  if (← gets Kernel.started) then
    let curTid ← gets fun k => currentTid k.world.sched
    mutexSpin id ((← gets Kernel.resumes).length + 1)
    writeMutex id fun mp => { mp with owner := curTid }

/-- `mutex_unlock`. -/
def mutexUnlock (id : MutexId) : PathM Unit := do
  if (← gets Kernel.started) then
    writeMutex id fun _ => { lock := 1, owner := -1 }

/-- `scheduler_make_runnable_safe`. -/
def schedulerMakeRunnableSafe (tid : ℤ) : PathM ℤ := do
  schedMutexLock
  let status ← onSched (schedulerMakeRunnable tid)
  schedMutexUnlock
  return status

/-- A write to `zombies_sem`. -/
def writeSem (f : Sem → Sem) : PathM Unit :=
  modify fun k => { k with world := { k.world with zombiesSem := f k.world.zombiesSem } }

/-- `sem_signal(&(tp->zombies_sem))`; taking the waiter off the queue frees its node. -/
def semSignalZombies : PathM Unit := do
  mutexLock .zombies
  writeSem fun sem => { sem with count := sem.count + 1 }
  let sem ← gets fun k => k.world.zombiesSem
  if sem.count ≤ 0 then
    match sem.q with
    | [] => mutexUnlock .zombies
    | tid :: rest =>
        writeSem fun sem => { sem with q := rest }
        mutexLock .heap
        mutexUnlock .heap
        let _ ← schedulerMakeRunnableSafe tid
        mutexUnlock .zombies
  else
    mutexUnlock .zombies

/-! ### The critical sections -/

/-- `scheduler_make_current_zombie`, with the semaphore. -/
def makeCurrentZombie : PathM ℤ := do
  let cur ← onSched currentTcb
  let t ← onSched (readTcb cur)
  match ← onSched (tcbPoolFindNode t.tid) with
  | none => return -2
  | some (node, tcb) =>
      semSignalZombies
      if (← onSched (zombieMove node tcb)) < 0 then
        return -2
      onSched (modify fun s => { s with curTcb := none })
      return 0

/-- `ht_put_entry(&(tp->processes), ..)`. -/
def putPcb (pid : ℤ) (node : Ptr) : PathM ℤ := fun k =>
  (.ok (htPutEntry k.world.processes (pid, node)).1, { k with
    world := { k.world with processes := (htPutEntry k.world.processes (pid, node)).2 } })

/-- `tcb_pool_remove_pcb`, which keeps what is to be freed for later. -/
def tcbPoolRemovePcb (pid : ℤ) : PathM ℤ := fun k =>
  (.ok (if (htRemove k.world.processes pid).1.isSome then 0 else -2), { k with
    world := { k.world with processes := (htRemove k.world.processes pid).2 } })

/-- The functions that take the scheduler lock. The reaper has the pid of the thread's process
too if no thread of that is left. -/
inductive CritCall where
  | descheduleCurrentSafe
  | makeRunnableSafe (tid : ℤ)
  | makeCurrentSleepingSafe (ticks : ℤ)
  | makeCurrentZombieSafe
  | addRunnableTcbSafe (tid : ℤ) (node : Ptr)
  | addPcbSafe (pid : ℤ) (node : Ptr)
  | reap (tid : ℤ) (pid : Option ℤ)
  | contextSwitchSafe (oldEsp : ℕ) (targetTid : ℤ)

/-- A section that releases the lock on every way out. -/
def locked {α : Type} (body : PathM α) : PathM Unit := do
  schedMutexLock
  let _ ← body
  schedMutexUnlock

/-- The critical sections; where the source returns an error code with the lock held, so
does the model. -/
def critCall : CritCall → PathM Unit
  | .descheduleCurrentSafe => locked (onSched schedulerDescheduleCurrent)
  | .makeRunnableSafe tid => locked (onSched (schedulerMakeRunnable tid))
  | .makeCurrentSleepingSafe ticks => locked (onSched (schedulerMakeCurrentSleeping ticks))
  | .makeCurrentZombieSafe => locked makeCurrentZombie
  | .addRunnableTcbSafe tid node => do
      schedMutexLock
      if (← onSched (tcbPoolAddRunnableTcb tid node)) < 0 then
        return
      schedMutexUnlock
  | .addPcbSafe pid node => do
      schedMutexLock
      if (← putPcb pid node) < 0 then
        return
      schedMutexUnlock
  | .reap tid pid => do
      schedMutexLock
      match ← onSched (tcbPoolRemoveTcb tid) with
      | .error _ => return
      | .ok _ =>
          if let some pid := pid then
            let _ ← tcbPoolRemovePcb pid
          schedMutexUnlock
  | .contextSwitchSafe oldEsp targetTid => locked (onSched (contextSwitch oldEsp targetTid))

/-- Interrupts were disabled at every moment inside a critical section. -/
def Kernel.Unbroken (k : Kernel) : Prop := ∀ p ∈ k.log, 0 < p.1 → p.2 = false

/-- A step of a kernel path: a critical section is entered in some state of the data, with
what the other threads leave each time it gives up the processor. -/
structure CritStep where
  call : CritCall
  world : World
  resumes : List (World × Bool)

/-- The kernel a step leaves; a fault halts it. -/
def critNext (k : Kernel) (a : CritStep) : Option Kernel :=
  if k.halted then none
  else
    match critCall a.call { k with world := a.world, resumes := a.resumes } with
    | (.ok _, k') => some k'
    | (.error _, k') => some { k' with halted := true }

/-- The kernel's paths after the scheduler has started. -/
def critMachine : Machine Kernel CritStep where
  init k := k.started = true ∧ k.depth = 0 ∧ k.log = [] ∧ k.halted = false
  step k a k' := critNext k a = some k'

/-- The removal of a thread finds it on a pool that is not empty. -/
def Sched.Removable (s : Sched) (tid : ℤ) : Prop :=
  ∃ tcb t pool, ((htGet s.threads tid).bind s.nodes.e) = some tcb ∧ s.tcbs tcb = some t ∧
    removeSource t.status = some pool ∧ (s.pools pool).size ≠ 0

/-- The section calls nothing that locks the scheduler again, and returns without the lock. -/
def Flat (a : CritStep) : Prop :=
  match a.call with
  | .makeCurrentZombieSafe =>
      htGet a.world.sched.threads (currentTid a.world.sched) = none ∨
        a.world.zombiesSem.m.lock ≠ 0 ∧
          (0 ≤ a.world.zombiesSem.count ∨ a.world.zombiesSem.q = [])
  | .addRunnableTcbSafe tid _ => htGet a.world.sched.threads tid = none
  | .addPcbSafe pid _ => htGet a.world.processes pid = none
  | .reap tid _ => a.world.sched.Removable tid
  | _ => True

/-! ### Flat sections -/

variable {k k' : Kernel} {α : Type}

lemma wp_onSched {Q : α → Kernel → Prop} {E : Fault → Kernel → Prop} (c : SchedM α) :
    wp (onSched c) Q E k ↔
      wp c (fun a s => Q a { k with world := { k.world with sched := s } })
        (fun e s => E e { k with world := { k.world with sched := s } }) k.world.sched := by
  unfold wp onSched
  rcases c k.world.sched with ⟨_ | _, _⟩ <;> rfl

/-- Inside one critical section. -/
structure Kernel.Inside (k : Kernel) : Prop where
  started : k.started = true
  running : k.halted = false
  depth : k.depth = 1
  unbroken : k.Unbroken

/-- Outside of all critical sections. -/
structure Kernel.Outside (k : Kernel) : Prop where
  started : k.started = true
  running : k.halted = false
  depth : k.depth = 0
  unbroken : k.Unbroken

/-- The lock is taken: interrupts are disabled. -/
lemma wp_schedMutexLock {Q : Unit → Kernel → Prop} {E : Fault → Kernel → Prop} (h : k.Outside)
    (hq : ∀ k', k'.Inside → k'.world = k.world → Q () k') : wp schedMutexLock Q E k := by
  rw [schedMutexLock, wp_bind, wp_gets, if_pos h.started, wp_modify]
  refine hq _ ⟨h.started, h.running, ?_, ?_⟩ rfl
  · rw [h.depth]
  · rintro p (_ | ⟨_, hp⟩) hpos
    · rfl
    · exact h.unbroken p hp hpos

/-- The lock is released where it is held once. -/
lemma wp_schedMutexUnlock {Q : Unit → Kernel → Prop} {E : Fault → Kernel → Prop} (h : k.Inside)
    (hq : ∀ k', k'.Outside → k'.world = k.world → Q () k') : wp schedMutexUnlock Q E k := by
  rw [schedMutexUnlock, wp_bind, wp_gets, if_pos h.started, wp_modify]
  refine hq _ ⟨h.started, h.running, ?_, ?_⟩ rfl
  · rw [h.depth]
  · rintro p (_ | ⟨_, hp⟩) hpos
    · rw [h.depth] at hpos
      cases hpos
    · exact h.unbroken p hp hpos

/-- A command on the data stays inside the section. -/
lemma wp_onSched_inside {Q : α → Kernel → Prop} {E : Fault → Kernel → Prop} {c : SchedM α}
    (h : k.Inside) (hq : ∀ a s, Q a { k with world := { k.world with sched := s } })
    (he : ∀ e k', k'.Inside → E e k') : wp (onSched c) Q E k := by
  rw [wp_onSched]
  exact wp_any c (fun a s => hq a s) fun e s =>
    he e _ ⟨h.started, h.running, h.depth, h.unbroken⟩

/-- The data may change inside a section. -/
lemma Kernel.Inside.withWorld (h : k.Inside) (w : World) :
    ({ k with world := w } : Kernel).Inside :=
  ⟨h.started, h.running, h.depth, h.unbroken⟩

/-- A free mutex is taken at once. -/
lemma wp_mutexLock {Q : Unit → Kernel → Prop} {E : Fault → Kernel → Prop} {id : MutexId}
    (hs : k.started = true) (hfree : (k.world.mutex id).lock ≠ 0)
    (hq : ∀ mp, Q () { k with world := (k.world.setMutex mp id) }) : wp (mutexLock id) Q E k := by
  rw [mutexLock, wp_bind, wp_gets, if_pos hs, wp_bind, wp_gets, wp_bind, wp_gets, wp_bind,
    mutexSpin, wp_bind, wp_gets, if_pos hfree, writeMutex, wp_modify, writeMutex, wp_modify]
  cases id <;> exact hq _

lemma wp_mutexUnlock {Q : Unit → Kernel → Prop} {E : Fault → Kernel → Prop} {id : MutexId}
    (hs : k.started = true) (hq : ∀ mp, Q () { k with world := (k.world.setMutex mp id) }) :
    wp (mutexUnlock id) Q E k := by
  rw [mutexUnlock, wp_bind, wp_gets, if_pos hs, writeMutex, wp_modify]
  exact hq _

/-- A signal that wakes up nobody stays inside the section. -/
lemma wp_semSignalZombies {Q : Unit → Kernel → Prop} {E : Fault → Kernel → Prop} (h : k.Inside)
    (hfree : k.world.zombiesSem.m.lock ≠ 0)
    (hnone : 0 ≤ k.world.zombiesSem.count ∨ k.world.zombiesSem.q = [])
    (hq : ∀ k', k'.Inside → k'.world.sched = k.world.sched → Q () k') :
    wp semSignalZombies Q E k := by
  rw [semSignalZombies, wp_bind]
  refine wp_mutexLock h.started hfree fun mp => ?_
  rw [wp_bind, writeSem, wp_modify, wp_bind, wp_gets]
  have hdone : ∀ w : World, w.sched = k.world.sched →
      wp (mutexUnlock .zombies) Q E { k with world := w } := fun w hw =>
    wp_mutexUnlock h.started fun mp' => hq _ (h.withWorld _) hw
  refine (wp_ite ..).mpr ⟨fun hcount => ?_, fun _ => hdone _ rfl⟩
  change k.world.zombiesSem.count + 1 ≤ 0 at hcount
  have hempty : k.world.zombiesSem.q = [] := hnone.resolve_left (by omega)
  simp only [World.setMutex, hempty]
  exact hdone _ rfl

/-- A command on the data whose answers are known, inside the section. -/
lemma wp_onSched_returns {Q : α → Kernel → Prop} {c : SchedM α} {P : α → Prop} (h : k.Inside)
    (hc : wlp c (fun a _ => P a) k.world.sched)
    (hq : ∀ a s, P a → Q a { k with world := { k.world with sched := s } }) :
    wp (onSched c) Q (fun _ k' => k'.Unbroken) k := by
  rw [wp_onSched]
  exact wp_mono hc (fun a s ha => hq a s ha) fun _ _ _ => h.unbroken

/-- A section whose body stays inside. -/
lemma wp_locked {body : PathM α} (h : k.Outside)
    (hbody : ∀ k', k'.Inside → k'.world = k.world →
      wp body (fun _ k'' => k''.Inside) (fun _ k'' => k''.Unbroken) k') :
    wp (locked body) (fun _ k' => k'.Outside) (fun _ k' => k'.Unbroken) k := by
  rw [locked, wp_bind]
  refine wp_schedMutexLock h fun k' hk' hw => ?_
  rw [wp_bind]
  exact wp_imp (hbody k' hk' hw) fun _ k'' hk'' => wp_schedMutexUnlock hk'' fun _ h' _ => h'

/-- A section whose body is a command on the data. -/
lemma wp_locked_onSched (h : k.Outside) (c : SchedM α) :
    wp (locked (onSched c)) (fun _ k' => k'.Outside) (fun _ k' => k'.Unbroken) k :=
  wp_locked h fun _ hk' _ => wp_onSched_inside hk' (fun _ _ => hk'.withWorld _)
    fun _ _ hk'' => hk''.unbroken

/-- The current thread becomes a zombie and no thread is woken up. -/
lemma wp_makeCurrentZombie (h : k.Inside)
    (hflat : htGet k.world.sched.threads (currentTid k.world.sched) = none ∨
      k.world.zombiesSem.m.lock ≠ 0 ∧
        (0 ≤ k.world.zombiesSem.count ∨ k.world.zombiesSem.q = [])) :
    wp makeCurrentZombie (fun _ k' => k'.Inside) (fun _ k' => k'.Unbroken) k := by
  rw [makeCurrentZombie, wp_bind, wp_onSched, currentTcb, wp_bind, wp_gets]
  cases hcur : k.world.sched.curTcb with
  | none => exact h.unbroken
  | some cur =>
      rw [wp_pure, wp_bind, wp_onSched, readTcb, wp_bind, wp_gets]
      cases ht : k.world.sched.tcbs cur with
      | none => exact h.unbroken
      | some t =>
          have htid : currentTid k.world.sched = t.tid := by
            simp [currentTid, hcur, ht]
          rw [htid] at hflat
          rw [wp_pure, wp_bind, wp_onSched]
          refine wp_mono ((wlp_tcbPoolFindNode t.tid).mpr ?_) (Q := fun r s =>
            s = k.world.sched ∧ (htGet k.world.sched.threads t.tid = none → r = none))
            (fun r s hr => ?_) fun _ _ _ => h.unbroken
          · exact ⟨fun _ => ⟨rfl, fun _ => rfl⟩, fun n tcb hn _ => ⟨rfl, fun hnone =>
              absurd (hn.symm.trans hnone) (Option.some_ne_none _)⟩⟩
          · obtain ⟨rfl, hnone⟩ := hr
            rcases r with _ | ⟨node, tcb⟩
            · exact h.withWorld _
            · obtain ⟨hfree, hquiet⟩ := hflat.resolve_left fun hn => absurd (hnone hn)
                (Option.some_ne_none _)
              dsimp only
              rw [wp_bind]
              refine wp_semSignalZombies h hfree hquiet fun k' hk' _ => ?_
              rw [wp_bind]
              refine wp_onSched_inside hk' (fun r s => ?_) fun _ _ hk'' => hk''.unbroken
              refine (wp_ite ..).mpr ⟨fun _ => hk'.withWorld _, fun _ => ?_⟩
              rw [wp_bind]
              exact wp_onSched_inside (hk'.withWorld _) (fun _ _ => hk'.withWorld _)
                fun _ _ hk'' => hk''.unbroken

/-- Putting a thread under a fresh tid does not fail. -/
lemma tcbPoolAddRunnableTcb_zero {s : Sched} {tid : ℤ} (h : htGet s.threads tid = none)
    (node : Ptr) : wlp (tcbPoolAddRunnableTcb tid node) (fun r _ => r = 0) s := by
  obtain ⟨hput, -⟩ := htGet_htPut tid h node
  rw [wlp, tcbPoolAddRunnableTcb, wp_bind]
  change wp (if (htPut s.threads tid node).1 < 0 then _ else _) _ _ _
  rw [hput, if_neg (by decide), wp_bind, wp_onPool]
  refine wp_imp (llLinkNodeLast_zero _ node) fun r _ hr => ?_
  rw [hr, if_neg (by decide)]
  rfl

/-- Putting a pcb under a fresh pid does not fail. -/
lemma wp_putPcb {Q : ℤ → Kernel → Prop} {E : Fault → Kernel → Prop} {pid : ℤ}
    (hfresh : htGet k.world.processes pid = none) (node : Ptr)
    (hq : ∀ w, Q 0 { k with world := w }) : wp (putPcb pid node) Q E k := by
  obtain ⟨hput, -⟩ := htGet_htPut pid hfresh node
  change Q (htPut k.world.processes pid node).1 _
  rw [hput]
  exact hq _

/-- A removable thread is removed. -/
lemma tcbPoolRemoveTcb_ok {s : Sched} {tid : ℤ} (h : s.Removable tid) :
    wlp (tcbPoolRemoveTcb tid) (fun r _ => ∃ n, r = .ok n) s := by
  obtain ⟨tcb, t, pool, hnode, ht, hpool, hsize⟩ := h
  obtain ⟨n, hn, he⟩ := Option.bind_eq_some_iff.mp hnode
  obtain ⟨hout, -⟩ := htGet_htRemove s.threads tid
  rw [wlp, tcbPoolRemoveTcb, wp_bind, wp_removeThread]
  simp only [hout, hn, wp_bind, wp_gets, he]
  refine (wlp_readTcb tcb).mpr fun u hu => ?_
  obtain rfl := Option.some.inj (ht.symm.trans hu)
  simp only [hpool, wp_bind, wp_onPool]
  refine wp_imp (llUnlinkNode_zero hsize n) fun r _ hr => ?_
  rw [hr, if_neg (by decide)]
  exact ⟨n, rfl⟩

/-- **A flat section is not broken**, and it leaves the lock released. -/
theorem critCall_flat {a : CritStep} (h : k.Outside) (hw : k.world = a.world) (hflat : Flat a) :
    wp (critCall a.call) (fun _ k' => k'.Outside) (fun _ k' => k'.Unbroken) k := by
  obtain ⟨call, w, resumes⟩ := a
  obtain rfl : k.world = w := hw
  cases call with
  | descheduleCurrentSafe => exact wp_locked_onSched h _
  | makeRunnableSafe tid => exact wp_locked_onSched h _
  | makeCurrentSleepingSafe ticks => exact wp_locked_onSched h _
  | makeCurrentZombieSafe =>
      refine wp_locked h fun k' hk' hworld => wp_makeCurrentZombie hk' ?_
      rw [hworld]
      exact hflat
  | addRunnableTcbSafe tid node =>
      rw [critCall, wp_bind]
      refine wp_schedMutexLock h fun k' hk' hworld => ?_
      rw [wp_bind]
      refine wp_onSched_returns hk' (tcbPoolAddRunnableTcb_zero (hworld ▸ hflat) node)
        fun r s hr => ?_
      rw [hr, if_neg (by decide)]
      exact wp_schedMutexUnlock (hk'.withWorld _) fun _ h' _ => h'
  | addPcbSafe pid node =>
      rw [critCall, wp_bind]
      refine wp_schedMutexLock h fun k' hk' hworld => ?_
      rw [wp_bind]
      refine wp_putPcb (hworld ▸ hflat) node fun w => ?_
      rw [if_neg (by decide)]
      exact wp_schedMutexUnlock (hk'.withWorld w) fun _ h' _ => h'
  | reap tid pid =>
      rw [critCall, wp_bind]
      refine wp_schedMutexLock h fun k' hk' hworld => ?_
      rw [wp_bind]
      refine wp_onSched_returns hk' (tcbPoolRemoveTcb_ok (hworld ▸ hflat)) fun r s hr => ?_
      obtain ⟨n, rfl⟩ := hr
      cases pid with
      | none => exact wp_schedMutexUnlock (hk'.withWorld _) fun _ h' _ => h'
      | some pid =>
          -- the lock is released whether the process was in the table or not
          dsimp only
          rw [wp_bind]
          exact wp_schedMutexUnlock (hk'.withWorld _) fun _ h' _ => h'
  | contextSwitchSafe oldEsp targetTid => exact wp_locked_onSched h _

/-- What a flat step leaves: no broken section, and no open one unless the path has ended. -/
def Kernel.Fine (k : Kernel) : Prop := k.Unbroken ∧ (k.halted = false → k.Outside)

/-- **On every kernel path whose critical sections are flat, none of them is broken.** -/
theorem unbroken_of_flat (h : critMachine.Reach (fun _ a => Flat a) k) : k.Unbroken := by
  suffices hinv : k.Fine from hinv.1
  refine Machine.Reach.inv (fun k hk => ?_) (fun k a k' hk hflat hstep => ?_) h
  · obtain ⟨hstarted, hdepth, hlog, hrun⟩ := hk
    have hunbroken : k.Unbroken := by
      intro p hp
      rw [hlog] at hp
      cases hp
    exact ⟨hunbroken, fun _ => ⟨hstarted, hrun, hdepth, hunbroken⟩⟩
  · change critNext k a = some k' at hstep
    unfold critNext at hstep
    split_ifs at hstep with hhalt
    obtain ⟨hs, hr, hd, hu⟩ := hk.2 (by simpa using hhalt)
    have hpost := critCall_flat (k := { k with world := a.world, resumes := a.resumes })
      ⟨hs, hr, hd, hu⟩ rfl hflat
    unfold wp at hpost
    rcases hrun : critCall a.call { k with world := a.world, resumes := a.resumes } with
      ⟨_ | _, k₁⟩ <;> simp only [hrun] at hpost hstep <;> cases hstep
    · exact ⟨hpost, nofun⟩
    · exact ⟨hpost.unbroken, fun _ => hpost⟩

/-! ### Paths -/

/-- The scheduler with thread 1 waiting and thread 2 running. -/
def reaperWaits : Option Sched :=
  Machine.replay schedNext (schedulerInit (.nth 0))
    [.addProcess (some (.nth 1)),
      .addProcess (some (.nth 2)),
      .timer 0x100, .yield 0x200 (-1), .deschedule 0x300 true 0]

/-- Thread 2 runs and thread 1, the reaper, waits; it has waited on `zombies_sem` or not. -/
def reaperWorld (count : ℤ) (q : List ℤ) : World where
  sched := reaperWaits.getD (schedulerInit (.nth 0))
  processes := htInit Ptr tableSize pidHash
  zombiesSem := ⟨count, ⟨1, -1⟩, q⟩
  heapLock := ⟨1, -1⟩

/-- The kernel when the scheduler has just started. -/
def startedKernel : Kernel := ⟨reaperWorld 0 [], true, true, 0, [], [], false⟩

lemma startedKernel_init : critMachine.init startedKernel := ⟨rfl, rfl, rfl, rfl⟩

/-- A thread is woken up, and the current one vanishes while the reaper is at work. -/
def flatSteps : List CritStep :=
  [⟨.makeRunnableSafe 1, reaperWorld (-1) [1], []⟩,
    ⟨.makeCurrentZombieSafe, reaperWorld 0 [], []⟩]

/-- The two sections are not broken. -/
theorem unbroken_of_flat_flatSteps :
    ∃ k, Machine.replay critNext startedKernel flatSteps = some k ∧
      k.log = [(0, true), (1, false), (0, true), (1, false)] ∧ k.Unbroken := by
  have hrun : (Machine.replay critNext startedKernel flatSteps).map Kernel.log =
      some [(0, true), (1, false), (0, true), (1, false)] := by decide +kernel
  rw [Option.map_eq_some_iff] at hrun
  obtain ⟨k, hk, hlog⟩ := hrun
  refine ⟨k, hk, hlog, unbroken_of_flat ?_⟩
  refine Machine.reach_of_replay (fun _ _ _ h => h) flatSteps ?_ (.init startedKernel_init) hk
  intro a ha _
  fin_cases ha
  · trivial
  · exact .inr ⟨by decide, .inl (by decide)⟩

/-- **A broken section**: the reaper waits on `zombies_sem` and the current thread vanishes;
waking the reaper up enables interrupts inside `tcb_pool_make_zombie`. -/
theorem not_unbroken_of_makeCurrentZombie : ∃ k, critMachine.Reachable k ∧ ¬ k.Unbroken := by
  have hrun : (critNext startedKernel ⟨.makeCurrentZombieSafe, reaperWorld (-1) [1], []⟩).map
      Kernel.log = some [(0, true), (1, true), (2, false), (1, false)] := by decide +kernel
  rw [Option.map_eq_some_iff] at hrun
  obtain ⟨k, hk, hlog⟩ := hrun
  refine ⟨k, .step (.init startedKernel_init) trivial hk, fun hunbroken => ?_⟩
  have hinside := hunbroken (1, true) (by rw [hlog]; simp) (by decide)
  cases hinside

end ShrekOS
