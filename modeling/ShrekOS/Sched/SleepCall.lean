/-
The `sleep` system call of `kern/handlers/thr_mgmt_handlers.c`.

* `Sched.SleepsSafely`: it returns a negative code, or 0 at once for 0 ticks, or the caller
  sleeps until the given number of ticks has passed;
* `sleepsSafely_iff`: **when `sleep` is safe**: when the time the caller is to be woken up is
  an `int`. The sum overflows otherwise, which after the first timer tick takes no more than the
  greatest argument.
-/
import ShrekOS.Sched.Sleeping

namespace ShrekOS

open Kit Kit.Cmd

/-- `syscall_sleep_c_handler`. -/
def syscallSleepCHandler (oldEsp : ℕ) (ticks : ℤ) : SchedM ℤ := do
  if ticks < 0 then
    return -1
  if ticks = 0 then
    return 0
  thrSleep oldEsp ticks

/-- The current thread of `s`, whose tid is given, sleeps in `s'` until the time `w`, and another
one runs. -/
structure Sched.PutToSleep (s s' : Sched) (tid : ℤ) (w : ℕ) : Prop where
  caller : ∃ n c t, s.Row tid n c t ∧ s.curTcb = some c
  away : ∀ n c t, s'.Row tid n c t → s'.curTcb ≠ some c
  status : s'.statusOf tid = some .sleeping
  pool : s'.OnPool .sleepingPool tid w
  fits : w < 2 ^ 31

/-- **What is asked of `sleep`**, which is not to fault. -/
def Sched.SleepsSafely (s : Sched) (oldEsp : ℕ) (ticks : ℤ) : Prop :=
  ∃ r s', syscallSleepCHandler oldEsp ticks s = (.ok r, s') ∧
    (r < 0 ∨ ticks = 0 ∧ r = 0 ∧ s' = s ∨
      0 < ticks ∧ ∃ tid, s.PutToSleep s' tid (s.numTicks + ticks.toNat))

/-- The status of the current thread is `SLEEPING`, as that of the idle thread is when it has
called `sleep`. -/
def Sched.CallerAsleep (s : Sched) : Prop :=
  ∃ c t, s.curTcb = some c ∧ s.tcbs c = some t ∧ t.status = .sleeping

variable {D : Diary} {X Y : Set Ptr} {s s' : Sched} {L : Pool → List Ptr} {tid : ℤ} {n c : Ptr}
  {t : Tcb} {w : ℕ} {ticks : ℤ}

/-! ### Sleeping until a time that fits -/

/-- A diary with one sleeping thread. -/
def Diary.ofSleeper (D : Diary) (tid : ℤ) (w : ℕ) : Diary :=
  ⟨D.clock, D.bound, fun tid' k w' => tid' = tid ∧ k = .sleepingPool ∧ w' = w⟩

/-- A thread on the sleeping pool is put in the diary. -/
lemma PoolInv.ofSleeper (h : PoolInv D X s L) (hr : s.Row tid n c t) (hn : n ∈ L .sleepingPool) :
    PoolInv (D.ofSleeper tid t.tWakeup) X s L :=
  { h with
    booked := by
      rintro _ _ _ ⟨rfl, rfl, rfl⟩
      exact ⟨n, c, t, hr, hn, rfl⟩ }

/-- A thread on the sleeping pool is `SLEEPING`. -/
lemma Sched.Pooled.statusOf (h : s.Pooled D Y) (hsleep : s.OnPool .sleepingPool tid w) :
    s.statusOf tid = some .sleeping := by
  obtain ⟨⟨X, -, L, hL⟩, -⟩ := h
  obtain ⟨n, c, t, hr, hn, -⟩ := hL.onPool_iff.mp hsleep
  obtain ⟨-, hpool⟩ := notMem_of_home ((hL.mem_iff hr _).mp hn).symm (by decide)
  have hst : t.status = .sleeping := by
    cases hst : t.status <;> rw [hst] at hpool <;> first | rfl | cases hpool
  rw [hr.statusOf, hst]

/-- A sleeping thread is not the current one. -/
lemma Sched.Pooled.ne_current (h : s.Pooled D Y) (hst : s.statusOf tid = some .sleeping)
    (hr : s.Row tid n c t) : s.curTcb ≠ some c := by
  intro hcur
  obtain ⟨⟨X, -, L, hL⟩, hruns⟩ := h
  rcases hruns c hcur with hidle | ⟨tid', n', u, hr', hrunning⟩
  · exact hL.ne_idle hr hidle
  · obtain ⟨rfl, -, rfl⟩ := hL.eq_of_tcb hr hr'
    rw [hr.statusOf, hrunning] at hst
    cases hst

/-- **A running thread is put to sleep.** -/
theorem thrSleep_running {E : Fault → Sched → Prop} (hL : PoolInv D X s L) (hX : X ⊆ Y)
    (hD : D.OfSleepers) (hcur : s.curTcb = some c) (hr : s.Row tid n c t)
    (hst : t.status = .running) (hpos : 0 < ticks) (hfit : s.numTicks + ticks.toNat < 2 ^ 31)
    (oldEsp : ℕ) :
    wp (thrSleep oldEsp ticks)
      (fun _ s' => s.PutToSleep s' tid (s.numTicks + ticks.toNat)) E s := by
  have htid := (hL.row hr).1
  have hlate : D.bound < s.numTicks + ticks.toNat := by
    have hclock := hL.clock
    have hbound := hL.bound_le
    omega
  rw [thrSleep, wp_bind]
  refine wp_makeCurrentSleeping_awake hpos hcur hr.tcb (by simp [hst]) (fun _ => ?_)
    fun hover => absurd hfit (Nat.not_lt_of_le hover)
  rw [htid]
  refine wp_makeSleeping_running hL hD hr hst hlate fun s₁ L₁ hL₁ hr₁ _ hpasses hcur₁ => ?_
  rw [if_neg (by decide)]
  have hn₁ : n ∈ L₁ .sleepingPool := (hpasses.mem n _).mpr (.inl ⟨rfl, rfl⟩)
  have hfault : ∀ c', s₁.curTcb = some c' → s₁.tcbs c' = none → E .badPointer s₁ := by
    intro c' hc' hnone
    obtain rfl := Option.some.inj ((hcur₁.trans hcur).symm.trans hc')
    exact absurd (hr₁.tcb.symm.trans hnone) (Option.some_ne_none _)
  refine wp_imp (wp_thrYield_next (hL₁.ofSleeper hr₁ hn₁) hX hfault oldEsp) ?_
  rintro r s' ⟨-, hs'⟩
  have hpool : s'.OnPool .sleepingPool tid (s.numTicks + ticks.toNat) := hs'.onPool ⟨rfl, rfl, rfl⟩
  have hstatus := hs'.statusOf hpool
  exact ⟨⟨n, c, t, hr, hcur⟩, fun _ _ _ => hs'.ne_current hstatus, hstatus, hpool, hfit⟩

/-- A thread whose status is `SLEEPING` is refused. -/
lemma thrSleep_asleep {E : Fault → Sched → Prop} (hcur : s.curTcb = some c) (ht : s.tcbs c = some t)
    (hst : t.status = .sleeping) (hpos : 0 < ticks) (oldEsp : ℕ) :
    wp (thrSleep oldEsp ticks) (fun r _ => r < 0) E s := by
  rw [thrSleep, wp_bind]
  refine wp_makeCurrentSleeping_asleep hpos hcur ht hst ?_
  rw [if_pos (by decide)]
  exact Int.negSucc_lt_zero 2

/-- A thread that is not in the table, which is the idle one, is refused. -/
lemma thrSleep_idle {E : Fault → Sched → Prop} (hcur : s.curTcb = some c) (ht : s.tcbs c = some t)
    (hst : t.status ≠ .sleeping) (hnone : htGet s.threads t.tid = none) (hpos : 0 < ticks)
    (hfit : s.numTicks + ticks.toNat < 2 ^ 31) (oldEsp : ℕ) :
    wp (thrSleep oldEsp ticks) (fun r _ => r < 0) E s := by
  rw [thrSleep, wp_bind]
  refine wp_makeCurrentSleeping_awake hpos hcur ht hst (fun _ => ?_)
    fun hover => absurd hfit (Nat.not_lt_of_le hover)
  rw [tcbPoolMakeSleeping, wp_bind]
  refine (wp_tcbPoolFindNode_none (s := s.putAsleep c t _) hnone).mpr ?_
  rw [wp_pure, if_pos (by decide)]
  exact Int.negSucc_lt_zero 2

/-! ### When `sleep` is safe -/

/-- For a positive number of ticks the handler is `thr_sleep`. -/
lemma syscallSleepCHandler_pos (hpos : 0 < ticks) (oldEsp : ℕ) :
    syscallSleepCHandler oldEsp ticks = thrSleep oldEsp ticks := by
  rw [syscallSleepCHandler, if_neg (by omega), if_neg (by omega)]

/-- A call that is refused, or puts the caller to sleep, is safe. -/
lemma sleepsSafely_of_wp {oldEsp : ℕ} (hpos : 0 < ticks)
    (h : wp (thrSleep oldEsp ticks)
      (fun r s' => r < 0 ∨ ∃ tid, s.PutToSleep s' tid (s.numTicks + ticks.toNat))
      (fun _ _ => False) s) : s.SleepsSafely oldEsp ticks := by
  obtain ⟨r, s', hrun, hr⟩ := wp_returns h
  refine ⟨r, s', syscallSleepCHandler_pos hpos oldEsp ▸ hrun, ?_⟩
  rcases hr with hneg | hsleep
  · exact .inl hneg
  · exact .inr (.inr ⟨hpos, hsleep⟩)

/-- A call with an argument that is not positive returns at once. -/
lemma sleepsSafely_of_nonpos (h : ticks ≤ 0) (oldEsp : ℕ) : s.SleepsSafely oldEsp ticks := by
  by_cases hneg : ticks < 0
  · refine ⟨-1, s, ?_, .inl (by decide)⟩
    rw [syscallSleepCHandler, if_pos hneg]
    rfl
  · have hzero : ticks = 0 := by omega
    refine ⟨0, s, ?_, .inr (.inl ⟨hzero, rfl, rfl⟩)⟩
    rw [syscallSleepCHandler, if_neg hneg, if_pos hzero]
    rfl

/-- **The sum overflows, whatever the pools look like, when the time does not fit.** -/
lemma not_sleepsSafely_of_overflow (hcur : s.curTcb = some c) (ht : s.tcbs c = some t)
    (hst : t.status ≠ .sleeping) (hpos : 0 < ticks) (hover : 2 ^ 31 ≤ s.numTicks + ticks.toNat)
    (oldEsp : ℕ) : ¬ s.SleepsSafely oldEsp ticks := by
  rintro ⟨r, s', hrun, -⟩
  have hwp : wp (syscallSleepCHandler oldEsp ticks) (fun _ _ => False) (fun _ _ => True) s := by
    rw [syscallSleepCHandler_pos hpos, thrSleep, wp_bind]
    exact wp_makeCurrentSleeping_awake hpos hcur ht hst
      (fun hfit => absurd hfit (Nat.not_lt_of_le hover)) fun _ _ => trivial
  exact wp_ok hwp hrun

/-- The pools are in order, but for threads that were woken up. -/
def Sched.InOrder (s : Sched) : Prop := ∃ D Y, D.OfSleepers ∧ s.Pooled D Y

/-- **When `sleep` is safe in a state whose pools are in order.** -/
theorem Sched.InOrder.sleeps_iff (h : s.InOrder) (hcur : s.curTcb = some c) (oldEsp : ℕ)
    (ticks : ℤ) : s.SleepsSafely oldEsp ticks ↔
      ticks ≤ 0 ∨ s.CallerAsleep ∨ s.numTicks + ticks < 2 ^ 31 := by
  obtain ⟨D, Y, hD, ⟨X, hX, L, hL⟩, hruns⟩ := h
  obtain ⟨t, ht⟩ : ∃ t, s.tcbs c = some t := by
    rcases hruns c hcur with rfl | ⟨_, _, t, hr, -⟩
    · obtain ⟨t, ht, -⟩ := hL.idleTid
      exact ⟨t, ht⟩
    · exact ⟨t, hr.tcb⟩
  by_cases hpos : ticks ≤ 0
  · exact iff_of_true (sleepsSafely_of_nonpos hpos oldEsp) (.inl hpos)
  rw [not_le] at hpos
  by_cases hst : t.status = .sleeping
  · refine iff_of_true (sleepsSafely_of_wp hpos ?_) (.inr (.inl ⟨c, t, hcur, ht, hst⟩))
    exact wp_imp (thrSleep_asleep hcur ht hst hpos oldEsp) fun _ _ => .inl
  by_cases hfit : s.numTicks + ticks.toNat < 2 ^ 31
  · refine iff_of_true (sleepsSafely_of_wp hpos ?_) (.inr (.inr (by omega)))
    rcases hruns.cases hL hcur ht with hnone | ⟨n, hr, hrunning, -⟩
    · exact wp_imp (thrSleep_idle hcur ht hst hnone hpos hfit oldEsp) fun _ _ => .inl
    · exact wp_imp (thrSleep_running hL hX hD hcur hr hrunning hpos hfit oldEsp)
        fun _ _ hsleep => .inr ⟨t.tid, hsleep⟩
  · have hover : 2 ^ 31 ≤ s.numTicks + ticks.toNat := Nat.le_of_not_lt hfit
    refine iff_of_false (not_sleepsSafely_of_overflow hcur ht hst hpos hover oldEsp) ?_
    rintro (hle | ⟨c', u, hc', hu, hsleep⟩ | hlt)
    · omega
    · obtain rfl := Option.some.inj (hcur.symm.trans hc')
      obtain rfl := Option.some.inj (ht.symm.trans hu)
      exact hst hsleep
    · omega

/-- The pools are in order in every run in which `make_runnable` takes threads off the right
pool. -/
lemma inOrder_of_reach (h : schedMachine.Reach LeavesSleepers s ∨ schedMachine.Reach Harmless s) :
    s.InOrder := by
  rcases h with h | h
  · exact ⟨Diary.at s.numTicks, Set.univ, fun _ _ _ he => he.elim, dozing_of_reach h⟩
  · obtain ⟨D, hblank, -, hD⟩ := good_of_harmless h
    exact ⟨D, ∅, hblank.ofSleepers, hD⟩

/-- **When `sleep` is safe**, in every state of a run that keeps the pools in order, for every
argument: exactly when the argument is not positive, or the caller is refused, or the time it is
to be woken up is an `int`. -/
theorem sleepsSafely_iff
    (h : schedMachine.Reach LeavesSleepers s ∨ schedMachine.Reach Harmless s)
    (hcur : s.curTcb = some c) (oldEsp : ℕ) (ticks : ℤ) :
    s.SleepsSafely oldEsp ticks ↔ ticks ≤ 0 ∨ s.CallerAsleep ∨ s.numTicks + ticks < 2 ^ 31 :=
  (inOrder_of_reach h).sleeps_iff hcur oldEsp ticks

/-- A thread starts, and the first tick lets it run. -/
def startRun : List SchedOp := [.addProcess (some (.nth 1)), .timer 0x100]

/-- The scheduler after that run. -/
lemma exists_startRun : ∃ s t, Machine.replay (Machine.guarded LeavesSleepers schedNext)
    (schedulerInit idleMem) startRun = some s ∧ s.numTicks = 1 ∧ s.curTcb = some 20 ∧
      s.tcbs 20 = some t ∧ t.status = .running := by
  have hrun : (Machine.replay (Machine.guarded LeavesSleepers schedNext) (schedulerInit idleMem)
      startRun).map (fun s => (s.numTicks, s.curTcb, (s.tcbs 20).map Tcb.status)) =
        some (1, some 20, some .running) := by decide +kernel
  rw [Option.map_eq_some_iff] at hrun
  obtain ⟨s, hs, heq⟩ := hrun
  simp only [Prod.mk.injEq, Option.map_eq_some_iff] at heq
  obtain ⟨hnow, hcur, t, ht, hst⟩ := heq
  exact ⟨s, t, hs, hnow, hcur, ht, hst⟩

/-- After one tick the thread may sleep for 5 ticks and for `2 ^ 31 - 2`, and not for one more. -/
theorem sleepsSafely_iff_startRun :
    ∃ s, Machine.replay (Machine.guarded LeavesSleepers schedNext)
      (schedulerInit idleMem) startRun =
      some s ∧ s.SleepsSafely 0x200 5 ∧ s.SleepsSafely 0x200 (2 ^ 31 - 2) := by
  obtain ⟨s, t, hs, hnow, hcur, -, -⟩ := exists_startRun
  have hreach : schedMachine.Reach LeavesSleepers s :=
    Machine.reach_of_guarded schedNext_sound startRun (.init ⟨idleMem, rfl⟩) hs
  refine ⟨s, hs, (sleepsSafely_iff (.inl hreach) hcur 0x200 _).mpr (.inr (.inr ?_)),
    (sleepsSafely_iff (.inl hreach) hcur 0x200 _).mpr (.inr (.inr ?_))⟩
  · rw [hnow]
    decide
  · rw [hnow]
    decide

/-- **A thread makes the sum overflow**: it sleeps for `2 ^ 31 - 1` ticks after the first one. -/
theorem not_sleepsSafely_maxTicks :
    ∃ s, schedMachine.Reachable s ∧ s.numTicks = 1 ∧ ¬ s.SleepsSafely 0x200 (2 ^ 31 - 1) := by
  obtain ⟨s, t, hs, hnow, hcur, ht, hst⟩ := exists_startRun
  refine ⟨s, ?_, hnow, not_sleepsSafely_of_overflow hcur ht (by simp [hst]) (by decide) ?_ 0x200⟩
  · exact (Machine.reach_of_guarded schedNext_sound startRun (.init ⟨idleMem, rfl⟩) hs).mono
      fun _ _ _ => trivial
  · rw [hnow]
    decide

end ShrekOS
