/-
The handshake between a thread that waits and the one that wakes it up: the loop
`while(!reject) deschedule(&reject)` of `sem_wait` and `cond_wait`, and the two lines
`reject = 1; make_runnable(tid)` of `sem_signal` and `cond_signal`.

* `Handshake`, `handshakeNext`: the waiter's `reject`, its tcb, and where the two are; a step
  is one access to `reject` or one call of the scheduler;
* `NoLostWakeup`: once the signaler is done, the waiter does not go to sleep any more;
* `Timely`: the flag is not written between the test and the `xchng`, and the waiter is not
  made runnable between the `xchng` and the waiting pool;
* `noLostWakeup_iff`: **no wakeup is lost exactly in the timely runs**;
* `schedulerMakeRunnable_wokenStatus`, `schedulerDescheduleCurrent_waiting`,
  `schedulerDeferCurrentTcb_deferredStatus`: the steps are those of the scheduler.

The scheduler dispatches a thread from the runnable pool only.
-/
import ShrekOS.Lib.Runs
import ShrekOS.Sched.MakeRunnable

namespace ShrekOS

open Kit Kit.Cmd

/-- Where the waiter is: at the test of its loop, before the `xchng` of `thr_deschedule`, before
`scheduler_deschedule_current_safe`, before `thr_yield`, or out of the loop. -/
inductive WaiterPc where
  | test
  | exchange
  | deschedule
  | yield
  | out
  deriving DecidableEq

/-- Where the signaler is: before `reject = 1`, before `make_runnable`, or done. -/
inductive SignalerPc where
  | reject
  | makeRunnable
  | finished
  deriving DecidableEq

/-- The waiter's `reject`, the status of its tcb, whether it is the current thread, and where
the two threads are. -/
structure Handshake where
  reject : ℤ
  status : Status
  current : Bool
  waiter : WaiterPc
  signaler : SignalerPc
  deriving DecidableEq

/-- The steps of the waiter and of the signaler, and the context switches. -/
inductive HandshakeOp where
  | look
  | exchange
  | deschedule
  | yield
  | reject
  | makeRunnable
  | preempt
  | dispatch

/-- What `scheduler_defer_current_tcb` makes of a status. -/
def deferredStatus (status : Status) : Status :=
  if status = .running then .runnable else status

/-- What `scheduler_make_runnable` makes of the status of a thread that is not running. -/
def wokenStatus (status : Status) : Status :=
  if status = .waiting then .runnable else status

/-- The steps. The waiter steps while it is the current thread, the signaler while it is not;
after the `xchng` the waiter goes back to its test if `reject` was set. -/
def handshakeNext (s : Handshake) : HandshakeOp → Option Handshake
  | .look =>
      if s.current = true ∧ s.waiter = .test then
        some { s with waiter := if s.reject = 0 then .exchange else .out }
      else none
  | .exchange =>
      if s.current = true ∧ s.waiter = .exchange then
        some { s with
          reject := 0
          waiter := if s.reject = 0 then .deschedule else .test }
      else none
  | .deschedule =>
      if s.current = true ∧ s.waiter = .deschedule then
        some { s with status := .waiting, waiter := .yield }
      else none
  | .yield =>
      if s.current = true ∧ s.waiter = .yield then
        some { s with status := deferredStatus s.status, current := false, waiter := .test }
      else none
  | .reject =>
      if s.current = false ∧ s.signaler = .reject then
        some { s with reject := 1, signaler := .makeRunnable }
      else none
  | .makeRunnable =>
      if s.current = false ∧ s.signaler = .makeRunnable then
        some { s with status := wokenStatus s.status, signaler := .finished }
      else none
  | .preempt =>
      if s.current = true then
        some { s with status := deferredStatus s.status, current := false }
      else none
  | .dispatch =>
      if s.current = false ∧ s.status = .runnable then
        some { s with status := .running, current := true }
      else none

/-- The waiter comes to its loop, and the signaler has taken it off the queue. -/
def handshakeInit : Handshake where
  reject := 0
  status := .running
  current := true
  waiter := .test
  signaler := .reject

/-- The waiter waits, now or later. -/
def Handshake.CanWait (s : Handshake) : Prop :=
  ∃ ops s', Machine.replay handshakeNext s ops = some s' ∧ s'.status = .waiting

/-- After the only `make_runnable` the waiter does not wait. -/
def Handshake.NoLostWakeup (s : Handshake) : Prop := s.signaler = .finished → ¬ s.CanWait

/-- The signaler does not step into the windows of the waiter. -/
def Timely (s : Handshake) : HandshakeOp → Prop
  | .reject => s.waiter ≠ .exchange
  | .makeRunnable => s.waiter ≠ .deschedule
  | _ => True

instance (s : Handshake) (op : HandshakeOp) : Decidable (Timely s op) :=
  match op with
  | .reject => inferInstanceAs (Decidable (s.waiter ≠ .exchange))
  | .makeRunnable => inferInstanceAs (Decidable (s.waiter ≠ .deschedule))
  | .look | .exchange | .deschedule | .yield | .preempt | .dispatch =>
      inferInstanceAs (Decidable True)

variable {s s' : Handshake} {op : HandshakeOp} {ops : List HandshakeOp} {status : Status}

/-! ### Timely runs -/

@[simp] lemma wokenStatus_ne (status : Status) : wokenStatus status ≠ .waiting := by
  cases status <;> decide

@[simp] lemma deferredStatus_eq_waiting : deferredStatus status = .waiting ↔ status = .waiting := by
  cases status <;> decide

/-- A running or waiting thread is switched out as a runnable or waiting one. -/
lemma deferredStatus_or (h : status = .running ∨ status = .waiting) :
    deferredStatus status = .runnable ∨ deferredStatus status = .waiting := by
  rcases h with rfl | rfl
  · exact .inl rfl
  · exact .inr rfl

/-- A runnable or waiting thread is runnable after `make_runnable`. -/
lemma wokenStatus_eq_runnable (h : status = .runnable ∨ status = .waiting) :
    wokenStatus status = .runnable := by
  rcases h with rfl | rfl
  · rfl
  · rfl

/-- **The invariant of a timely run**: the flag is clear until the signaler sets it, and from
then on the waiter is past its windows. -/
def Handshake.OnTime (s : Handshake) : Prop :=
  match s.signaler with
  | .reject => s.reject = 0 ∧ s.waiter ≠ .out
  | .makeRunnable => s.reject = 1 ∧ s.waiter ≠ .exchange
  | .finished =>
      s.reject = 1 ∧ s.waiter ≠ .exchange ∧ s.waiter ≠ .deschedule ∧ s.status ≠ .waiting

/-- **A timely step keeps the invariant.** -/
theorem Handshake.OnTime.next (h : s.OnTime) (hop : Timely s op)
    (hs : handshakeNext s op = some s') : s'.OnTime := by
  obtain ⟨reject, status, current, waiter, signaler⟩ := s
  cases op with
  | look =>
      -- the waiter leaves if the flag is set
      obtain ⟨⟨-, rfl⟩, rfl⟩ := by simpa [handshakeNext] using hs
      cases signaler <;> simp_all [Handshake.OnTime]
  | exchange =>
      -- only before the signaler has written
      obtain ⟨⟨-, rfl⟩, rfl⟩ := by simpa [handshakeNext] using hs
      cases signaler <;> simp_all [Handshake.OnTime]
  | deschedule =>
      -- not after `make_runnable`
      obtain ⟨⟨-, rfl⟩, rfl⟩ := by simpa [handshakeNext] using hs
      cases signaler <;> simp_all [Handshake.OnTime]
  | yield =>
      obtain ⟨⟨-, rfl⟩, rfl⟩ := by simpa [handshakeNext] using hs
      cases signaler <;> simp_all [Handshake.OnTime]
  | reject =>
      obtain ⟨⟨-, rfl⟩, rfl⟩ := by simpa [handshakeNext] using hs
      exact ⟨rfl, hop⟩
  | makeRunnable =>
      obtain ⟨⟨-, rfl⟩, rfl⟩ := by simpa [handshakeNext] using hs
      exact ⟨h.1, h.2, hop, wokenStatus_ne status⟩
  | preempt =>
      obtain ⟨-, rfl⟩ := by simpa [handshakeNext] using hs
      cases signaler <;> simp_all [Handshake.OnTime]
  | dispatch =>
      obtain ⟨-, rfl⟩ := by simpa [handshakeNext] using hs
      cases signaler <;> simp_all [Handshake.OnTime]

/-- After the signaler is done, there are only steps of the waiter. -/
lemma handshakeNext_finished (hdone : s.signaler = .finished)
    (hs : handshakeNext s op = some s') : s'.signaler = .finished ∧ Timely s op := by
  cases op with
  | reject | makeRunnable => simp [handshakeNext, hdone] at hs
  | look | exchange | deschedule | yield =>
      obtain ⟨-, rfl⟩ := by simpa only [handshakeNext, Option.ite_none_right_eq_some,
        Option.some.injEq] using hs
      exact ⟨hdone, trivial⟩
  | preempt | dispatch =>
      obtain ⟨-, rfl⟩ := by simpa only [handshakeNext, Option.ite_none_right_eq_some,
        Option.some.injEq] using hs
      exact ⟨hdone, trivial⟩

/-- **A timely run loses no wakeup.** -/
theorem Handshake.OnTime.noLostWakeup (h : s.OnTime) : s.NoLostWakeup := by
  rintro hdone ⟨ops, s', hs, hwait⟩
  have hinv : s'.OnTime ∧ s'.signaler = .finished := by
    refine Machine.replay_inv (I := fun s => s.OnTime ∧ s.signaler = .finished) ?_ ops
      ⟨h, hdone⟩ hs
    rintro s op s' ⟨h, hdone⟩ hs
    obtain ⟨hdone', hop⟩ := handshakeNext_finished hdone hs
    exact ⟨h.next hop hs, hdone'⟩
  obtain ⟨hontime, hdone'⟩ := hinv
  rw [Handshake.OnTime, hdone'] at hontime
  exact hontime.2.2.2 hwait

/-! ### Runs that are not timely -/

/-- The tcb agrees with where the waiter is. -/
structure Handshake.Consistent (s : Handshake) : Prop where
  current : s.current = true → s.status = .running ∨ s.status = .waiting ∧ s.waiter = .yield
  away : s.current = false → s.status = .runnable ∨ s.status = .waiting
  asleep : s.status = .waiting → s.waiter = .yield ∨ s.waiter = .test

/-- The wakeup is lost: the waiter finds the flag clear again, or it has missed the only
`make_runnable`. -/
def Handshake.Lost (s : Handshake) : Prop :=
  s.signaler ≠ .reject ∧ s.waiter ≠ .out ∧ (s.reject = 0 ∨ s.waiter = .exchange) ∨
    s.signaler = .finished ∧ (s.waiter = .deschedule ∨ s.status = .waiting)

/-- **Every step leaves the tcb consistent.** -/
lemma Handshake.Consistent.next (h : s.Consistent) (hs : handshakeNext s op = some s') :
    s'.Consistent := by
  obtain ⟨reject, status, current, waiter, signaler⟩ := s
  obtain ⟨hcurrent, haway, hasleep⟩ := h
  cases op with
  | look =>
      obtain ⟨⟨rfl, rfl⟩, rfl⟩ := by simpa [handshakeNext] using hs
      have hrun : status = .running := (hcurrent rfl).resolve_right fun hw => by simp at hw
      exact ⟨fun _ => .inl hrun, nofun, by simp [hrun]⟩
  | exchange =>
      obtain ⟨⟨rfl, rfl⟩, rfl⟩ := by simpa [handshakeNext] using hs
      have hrun : status = .running := (hcurrent rfl).resolve_right fun hw => by simp at hw
      exact ⟨fun _ => .inl hrun, nofun, by simp [hrun]⟩
  | deschedule =>
      obtain ⟨⟨rfl, rfl⟩, rfl⟩ := by simpa [handshakeNext] using hs
      exact ⟨fun _ => .inr ⟨rfl, rfl⟩, nofun, fun _ => .inl rfl⟩
  | yield =>
      obtain ⟨⟨rfl, rfl⟩, rfl⟩ := by simpa [handshakeNext] using hs
      exact ⟨nofun, fun _ => deferredStatus_or ((hcurrent rfl).imp_right And.left),
        fun _ => .inr rfl⟩
  | reject =>
      obtain ⟨-, rfl⟩ := by simpa [handshakeNext] using hs
      exact ⟨hcurrent, haway, hasleep⟩
  | makeRunnable =>
      obtain ⟨⟨rfl, -⟩, rfl⟩ := by simpa [handshakeNext] using hs
      exact ⟨nofun, fun _ => .inl (wokenStatus_eq_runnable (haway rfl)), by simp⟩
  | preempt =>
      obtain ⟨rfl, rfl⟩ := by simpa [handshakeNext] using hs
      exact ⟨nofun, fun _ => deferredStatus_or ((hcurrent rfl).imp_right And.left),
        by simpa using hasleep⟩
  | dispatch =>
      obtain ⟨⟨rfl, rfl⟩, rfl⟩ := by simpa [handshakeNext] using hs
      exact ⟨fun _ => .inl rfl, nofun, nofun⟩

/-- **Every step of a lost run leaves it lost.** -/
lemma Handshake.Lost.next (h : s.Lost) (hc : s.Consistent) (hs : handshakeNext s op = some s') :
    s'.Lost := by
  obtain ⟨reject, status, current, waiter, signaler⟩ := s
  obtain ⟨hcurrent, haway, hasleep⟩ := hc
  cases op with
  | look =>
      -- a waiter that waits is not at its test, so the flag is clear
      obtain ⟨⟨rfl, rfl⟩, rfl⟩ := by simpa [handshakeNext] using hs
      simp_all [Handshake.Lost]
  | exchange =>
      -- the flag is clear afterwards, whatever the waiter has found
      obtain ⟨⟨rfl, rfl⟩, rfl⟩ := by simpa [handshakeNext] using hs
      by_cases hr : reject = 0
      · simp_all [Handshake.Lost]
      · simp_all [Handshake.Lost]
  | deschedule =>
      obtain ⟨⟨rfl, rfl⟩, rfl⟩ := by simpa [handshakeNext] using hs
      simp_all [Handshake.Lost]
  | yield =>
      obtain ⟨⟨rfl, rfl⟩, rfl⟩ := by simpa [handshakeNext] using hs
      simp_all [Handshake.Lost]
  | reject =>
      -- the signaler has written already
      obtain ⟨⟨rfl, rfl⟩, rfl⟩ := by simpa [handshakeNext] using hs
      simp_all [Handshake.Lost]
  | makeRunnable =>
      -- the waiter is woken up, but the flag is clear
      obtain ⟨⟨rfl, rfl⟩, rfl⟩ := by simpa [handshakeNext] using hs
      simp_all [Handshake.Lost]
  | preempt =>
      obtain ⟨rfl, rfl⟩ := by simpa [handshakeNext] using hs
      simp_all [Handshake.Lost]
  | dispatch =>
      obtain ⟨⟨rfl, rfl⟩, rfl⟩ := by simpa [handshakeNext] using hs
      simp_all [Handshake.Lost]

/-- A step that is not timely loses the wakeup. -/
lemma lost_of_not_timely (hop : ¬ Timely s op) (hs : handshakeNext s op = some s') : s'.Lost := by
  cases op with
  | reject =>
      obtain ⟨⟨-, hpc⟩, rfl⟩ := by simpa [handshakeNext] using hs
      have hwaiter : s.waiter = .exchange := not_not.mp hop
      exact .inl ⟨by simp, by simp [hwaiter], .inr hwaiter⟩
  | makeRunnable =>
      obtain ⟨⟨-, hpc⟩, rfl⟩ := by simpa [handshakeNext] using hs
      exact .inr ⟨rfl, .inl (not_not.mp hop)⟩
  | look | exchange | deschedule | yield | preempt | dispatch => exact absurd trivial hop

/-- The way of a waiter on the processor to the waiting pool. -/
def wayToSleep (reject : ℤ) : WaiterPc → List HandshakeOp
  | .test => [.look, .exchange, .deschedule]
  | .exchange =>
      if reject = 0 then [.exchange, .deschedule] else [.exchange, .look, .exchange, .deschedule]
  | .deschedule => [.deschedule]
  | .yield => [.yield, .dispatch, .look, .exchange, .deschedule]
  | .out => []

/-- A waiter on the processor takes that way. -/
lemma Handshake.Lost.canWait_running (h : s.Lost) (hdone : s.signaler = .finished)
    (hcur : s.current = true) (hst : s.status = .running) : s.CanWait := by
  refine ⟨wayToSleep s.reject s.waiter, ?_⟩
  obtain ⟨reject, status, current, waiter, signaler⟩ := s
  by_cases hr : reject = 0
  · cases waiter <;>
      simp_all [Machine.replay_cons, handshakeNext, wayToSleep, Handshake.Lost, deferredStatus]
  · cases waiter <;>
      simp_all [Machine.replay_cons, handshakeNext, wayToSleep, Handshake.Lost]

/-- **Once the wakeup is lost, the waiter goes to sleep.** -/
theorem Handshake.Lost.canWait (h : s.Lost) (hc : s.Consistent) (hdone : s.signaler = .finished) :
    s.CanWait := by
  by_cases hwait : s.status = .waiting
  · exact ⟨[], s, rfl, hwait⟩
  cases hcur : s.current with
  | true =>
      have hrun : s.status = .running := (hc.current hcur).resolve_right fun hw => hwait hw.1
      exact h.canWait_running hdone hcur hrun
  | false =>
      -- the waiter is dispatched first
      have hst : s.status = .runnable := (hc.away hcur).resolve_right hwait
      have hs : handshakeNext s .dispatch =
          some { s with status := .running, current := true } := by
        simp [handshakeNext, hcur, hst]
      obtain ⟨ops, s', hops, hwait'⟩ := (h.next hc hs).canWait_running hdone rfl rfl
      refine ⟨.dispatch :: ops, s', ?_, hwait'⟩
      rw [Machine.replay_cons, hs]
      exact hops

/-! ### The exact condition -/

lemma handshakeInit_onTime : handshakeInit.OnTime := ⟨rfl, nofun⟩

lemma handshakeInit_consistent : handshakeInit.Consistent :=
  ⟨fun _ => .inl rfl, nofun, nofun⟩

/-- The state of a timely run keeps the invariant. -/
lemma onTime_of_timely
    (h : Machine.replay (Machine.guarded Timely handshakeNext) handshakeInit ops = some s) :
    s.OnTime := by
  refine Machine.replay_inv (fun s op s' hinv hs => ?_) ops handshakeInit_onTime h
  obtain ⟨hop, hs⟩ := Machine.guarded_eq_some.mp hs
  exact hinv.next hop hs

/-- **No wakeup is lost exactly in the timely runs**: when the signaler is done, the waiter does
not wait and does not come to wait if and only if `reject = 1` was not written between the
waiter's test and its `xchng`, and `make_runnable` was not called between the `xchng` and
`scheduler_deschedule_current_safe`. -/
theorem noLostWakeup_iff (h : Machine.replay handshakeNext handshakeInit ops = some s)
    (hdone : s.signaler = .finished) :
    s.NoLostWakeup ↔
      Machine.replay (Machine.guarded Timely handshakeNext) handshakeInit ops = some s := by
  refine ⟨fun hgood => ?_, fun htimely => (onTime_of_timely htimely).noLostWakeup⟩
  rcases Machine.replay_guarded_or (G := Timely) ops h with htimely | ⟨l, op, l', s₁, s₂, hrun⟩
  · exact htimely
  obtain ⟨-, hl, hop, hs, hl'⟩ := hrun
  have hc₁ : s₁.Consistent := by
    refine Machine.replay_inv (fun s op s' hinv hs => ?_) l handshakeInit_consistent hl
    exact hinv.next (Machine.guarded_eq_some.mp hs).2
  have hlost : s.Lost ∧ s.Consistent := by
    refine Machine.replay_inv (I := fun s => s.Lost ∧ s.Consistent) ?_ l'
      ⟨lost_of_not_timely hop hs, hc₁.next hs⟩ hl'
    rintro s op s' ⟨h, hc⟩ hs
    exact ⟨h.next hc hs, hc.next hs⟩
  exact absurd (hlost.1.canWait hlost.2 hdone) (hgood hdone)

/-- The waiter finds the flag clear; the signaler is done before the waiter's `xchng`. -/
def lostRun : List HandshakeOp :=
  [.look, .preempt, .reject, .makeRunnable, .dispatch, .exchange, .look, .exchange, .deschedule]

/-- The waiter is in the waiting pool before the signaler writes the flag. -/
def keptRun : List HandshakeOp :=
  [.look, .exchange, .deschedule, .yield, .reject, .makeRunnable, .dispatch, .look]

/-- In one run the wakeup is kept. -/
theorem noLostWakeup_iff_keptRun : ∃ s,
    Machine.replay handshakeNext handshakeInit keptRun = some s ∧ s.signaler = .finished ∧
      s.NoLostWakeup := by
  have hrun : Machine.replay handshakeNext handshakeInit keptRun =
      some ⟨1, .running, true, .out, .finished⟩ := by decide
  exact ⟨_, hrun, rfl, (noLostWakeup_iff hrun rfl).mpr (by decide)⟩

/-- **A lost wakeup**: the `xchng` clears the flag that the signaler has set, and the waiter goes
to sleep for good. -/
theorem not_noLostWakeup_lostRun : ∃ s,
    Machine.replay handshakeNext handshakeInit lostRun = some s ∧ ¬ s.NoLostWakeup := by
  have hrun : Machine.replay handshakeNext handshakeInit lostRun =
      some ⟨0, .waiting, true, .yield, .finished⟩ := by decide
  exact ⟨_, hrun, fun h => h rfl ⟨[], _, rfl, rfl⟩⟩

/-! ### The scheduler's steps -/

section

variable {s s' : Sched} {L : Pool → List Ptr} {tid : ℤ} {n c : Ptr} {t : Tcb}

/-- `scheduler_make_runnable` does that to the status of a runnable or waiting thread. -/
theorem schedulerMakeRunnable_wokenStatus (h : s.Agrees L) (hr : s.Row tid n c t)
    (hst : t.status = .runnable ∨ t.status = .waiting) :
    ∃ r s', schedulerMakeRunnable tid s = (.ok r, s') ∧
      s'.statusOf tid = some (wokenStatus t.status) := by
  have hmay : s.MayWake tid := by
    intro hawake
    rw [hr.statusOf] at hawake
    rcases hst with hst | hst <;> simp [hst] at hawake
  obtain ⟨r, s', hrun, -, hmoved, hsame⟩ := wakesSafely_of_mayWake h hmay
  refine ⟨r, s', hrun, ?_⟩
  rcases hst with hst | hst
  · have hnot : ¬ s.Dormant tid := by
      rw [hr.dormant_iff]
      simp [hst]
    obtain ⟨-, rfl⟩ := hsame hnot
    rw [hr.statusOf, hst]
    rfl
  · obtain ⟨n', c', t', hup⟩ := hmoved (hr.dormant_iff.mpr (.inl hst))
    obtain ⟨rfl, rfl, rfl⟩ := hr.unique hup.row
    obtain ⟨nodes, pools, he, rfl⟩ := hup.rest
    have hr' : Sched.Row { s.withLists nodes pools with
        tcbs := Function.update s.tcbs c (some { t with status := .runnable }) } tid n c
        { t with status := .runnable } :=
      ⟨hr.node, by rw [← hr.elem]; exact congrFun he n, Function.update_self ..⟩
    rw [hr'.statusOf, hst]
    rfl

/-- `scheduler_defer_current_tcb` does that to the status of the current thread. -/
theorem schedulerDeferCurrentTcb_deferredStatus (hcur : s.curTcb = some c) (hr : s.Row tid n c t)
    (oldEsp : ℕ) : ∃ s', schedulerDeferCurrentTcb oldEsp s = (.ok (), s') ∧
      s'.statusOf tid = some (deferredStatus t.status) := by
  have hwp : wp (schedulerDeferCurrentTcb oldEsp)
      (fun _ s' => s'.statusOf tid = some (deferredStatus t.status)) (fun _ _ => False) s := by
    rw [schedulerDeferCurrentTcb, wp_bind, wp_gets, hcur]
    refine (wp_writeTcb hr.tcb _).mpr ?_
    have hr' : Sched.Row { s with tcbs := Function.update s.tcbs c (some (t.deferred oldEsp)) }
        tid n c (t.deferred oldEsp) := ⟨hr.node, hr.elem, Function.update_self ..⟩
    exact hr'.statusOf
  obtain ⟨⟨⟩, s', hrun, hstatus⟩ := wp_returns hwp
  exact ⟨s', hrun, hstatus⟩

/-- `scheduler_deschedule_current` makes the running thread wait. -/
theorem schedulerDescheduleCurrent_waiting (h : s.Agrees L) (hcur : s.curTcb = some c)
    (hr : s.Row tid n c t) (hst : t.status = .running) :
    ∃ s', schedulerDescheduleCurrent s = (.ok 0, s') ∧ s'.statusOf tid = some .waiting := by
  obtain ⟨s', hrun, hmoved⟩ := schedulerDescheduleCurrent_running h hcur hr hst
  exact ⟨s', hrun, hmoved.row.statusOf⟩

end

end ShrekOS
