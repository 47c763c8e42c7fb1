/-
`scheduler_make_runnable` of `kern/scheduler/scheduler.c` for any tid at all; the tid comes
from user code.

* `Sched.Agrees`: the pools and the statuses agree;
* `Sched.WakesSafely`: a waiting or sleeping thread is moved to the end of the runnable pool
  and becomes `RUNNABLE`; every other tid is refused and nothing changes;
* `wakesSafely_of_mayWake`, `not_wakesSafely`: a running thread or a zombie is refused when
  no thread sleeps, and is taken off the sleeping pool when one does;
* `wakesSafely_iff`: **when `make_runnable` is safe**;
* `schedulerDescheduleCurrent_running`: where `scheduler_deschedule_current` moves the running
  thread.
-/
import ShrekOS.Sched.PoolRuns

namespace ShrekOS

open Kit Kit.Cmd

/-- The pools are well formed lists, and each thread of the table is on the pool that its
status names and on no other. -/
structure Sched.Agrees (s : Sched) (L : Pool → List Ptr) : Prop where
  lists : s.Lists L
  rows : ∀ tid n, htGet s.threads tid = some n →
    ∃ c t, s.Row tid n c t ∧ t.tid = tid ∧ ∀ k, n ∈ L k ↔ k = poolOf t.status

/-- The tid is that of a thread that waits or sleeps. -/
def Sched.Dormant (s : Sched) (tid : ℤ) : Prop :=
  s.statusOf tid = some .waiting ∨ s.statusOf tid = some .sleeping

/-- The thread has moved to the end of the runnable pool and is `RUNNABLE`; every other pool,
status and size is as before, and so is the rest of the scheduler. -/
structure Sched.MovedUp (s s' : Sched) (L : Pool → List Ptr) (tid : ℤ) (n c : Ptr) (t : Tcb) :
    Prop where
  row : s.Row tid n c t
  pools : ∃ l₁ l₂, L (poolOf t.status) = l₁ ++ n :: l₂ ∧
    s'.Lists (Function.update (Function.update L (poolOf t.status) (l₁ ++ l₂)) .runnablePool
      (L .runnablePool ++ [n]))
  rest : ∃ nodes pools, nodes.e = s.nodes.e ∧ s' = { s.withLists nodes pools with
    tcbs := Function.update s.tcbs c (some { t with status := .runnable }) }

/-- **What is asked of `scheduler_make_runnable`**: it returns 0 and moves the thread up if
the thread waits or sleeps, and otherwise it returns a negative code and changes nothing. -/
def Sched.WakesSafely (s : Sched) (L : Pool → List Ptr) (tid : ℤ) : Prop :=
  ∃ r s', schedulerMakeRunnable tid s = (.ok r, s') ∧ (r = 0 ↔ s.Dormant tid) ∧
    (s.Dormant tid → ∃ n c t, s.MovedUp s' L tid n c t) ∧
    (¬ s.Dormant tid → r < 0 ∧ s' = s)

variable {s : Sched} {L : Pool → List Ptr} {tid : ℤ} {n c : Ptr} {t : Tcb} {l₁ l₂ : List Ptr}

namespace Sched.Agrees

/-- A thread of the table is on the pool of its status. -/
lemma split (h : s.Agrees L) (hr : s.Row tid n c t) :
    ∃ l₁ l₂, L (poolOf t.status) = l₁ ++ n :: l₂ := by
  obtain ⟨c', t', hr', -, hmem⟩ := h.rows tid n hr.node
  obtain ⟨-, -, rfl⟩ := hr.unique hr'
  exact List.append_of_mem ((hmem _).mpr rfl)

/-- A tid is unknown or names a thread. -/
lemma row_or (h : s.Agrees L) (tid : ℤ) :
    htGet s.threads tid = none ∨ ∃ n c t, s.Row tid n c t := by
  cases hn : htGet s.threads tid with
  | none => exact .inl rfl
  | some n =>
      obtain ⟨c, t, hr, -⟩ := h.rows tid n hn
      exact .inr ⟨n, c, t, hr⟩

end Sched.Agrees

lemma Sched.Row.dormant_iff (h : s.Row tid n c t) :
    s.Dormant tid ↔ t.status = .waiting ∨ t.status = .sleeping := by
  simp [Sched.Dormant, h.statusOf]

/-! ### The thread is moved -/

/-- A waiting or sleeping thread goes to the end of the runnable pool. -/
lemma wp_tcbPoolMakeRunnable_dormant {Q : ℤ → Sched → Prop} {E : Fault → Sched → Prop}
    (h : s.Lists L) (hr : s.Row tid n c t) (hst : t.status = .waiting ∨ t.status = .sleeping)
    (hL : L (poolOf t.status) = l₁ ++ n :: l₂)
    (hq : ∀ nodes pools, nodes.e = s.nodes.e →
      (s.withLists nodes pools).Lists (Function.update
        (Function.update L (poolOf t.status) (l₁ ++ l₂)) .runnablePool (L .runnablePool ++ [n])) →
      Q 0 (s.withLists nodes pools)) :
    wp (tcbPoolMakeRunnable tid) Q E s := by
  have hrunnable : t.status ≠ .runnable := by
    rcases hst with hst | hst <;> simp [hst]
  have hpool : (if t.status = .waiting then Pool.waitingPool else .sleepingPool) =
      poolOf t.status := by
    rcases hst with hst | hst <;> simp [hst, poolOf]
  have hother : Pool.runnablePool ≠ poolOf t.status := by
    rcases hst with hst | hst <;> simp [hst, poolOf]
  simp only [tcbPoolMakeRunnable, tcbPoolFindNode, readTcb, wp_bind, wp_gets, hr.node, hr.elem,
    hr.tcb, wp_pure]
  rw [if_neg hrunnable, wp_bind, hpool]
  refine wp_unlink h hL fun nodes pools he hd h₁ => ?_
  rw [if_neg (by decide), wp_bind]
  refine wp_linkLast h₁ (h.not_mem_taken hL) hd fun nodes' pools' he' h₂ => ?_
  rw [Function.update_of_ne hother] at h₂
  exact hq nodes' pools' (he'.trans he) h₂

/-- `scheduler_make_runnable` after a `tcb_pool_make_runnable` that refused. -/
lemma wp_schedulerMakeRunnable_refused {Q : ℤ → Sched → Prop} {E : Fault → Sched → Prop} {r : ℤ}
    (hrun : tcbPoolMakeRunnable tid s = (.ok r, s)) (hneg : r < 0) (hq : Q (-2) s) :
    wp (schedulerMakeRunnable tid) Q E s := by
  rw [schedulerMakeRunnable, wp_bind]
  unfold wp
  rw [hrun]
  simp only [if_pos hneg]
  exact hq

/-- A tid without a thread is refused. -/
lemma tcbPoolMakeRunnable_unknown (h : htGet s.threads tid = none) :
    tcbPoolMakeRunnable tid s = (.ok (-2), s) := by
  have hwp : wp (tcbPoolMakeRunnable tid) (fun r s' => r = -2 ∧ s' = s) (fun _ _ => False) s := by
    simp [tcbPoolMakeRunnable, tcbPoolFindNode, h]
  obtain ⟨r, s', hrun, rfl, rfl⟩ := wp_returns hwp
  exact hrun

/-- A runnable thread is refused, and so is a running one or a zombie when no thread sleeps. -/
lemma tcbPoolMakeRunnable_awake (hr : s.Row tid n c t)
    (hst : ¬ (t.status = .waiting ∨ t.status = .sleeping))
    (hmay : t.status ≠ .runnable → (s.pools .sleepingPool).size = 0) :
    ∃ r < 0, tcbPoolMakeRunnable tid s = (.ok r, s) := by
  have hwp : wp (tcbPoolMakeRunnable tid) (fun r s' => r < 0 ∧ s' = s) (fun _ _ => False) s := by
    simp only [tcbPoolMakeRunnable, tcbPoolFindNode, readTcb, wp_bind, wp_gets, hr.node, hr.elem,
      hr.tcb, wp_pure]
    by_cases hrunnable : t.status = .runnable
    · rw [if_pos hrunnable]
      exact ⟨by decide, rfl⟩
    · rw [if_neg hrunnable, wp_bind, if_neg fun hw => hst (.inl hw)]
      refine wp_onEmpty (hmay hrunnable) ?_
      rw [if_pos (by decide)]
      exact ⟨by decide, rfl⟩
  obtain ⟨r, s', hrun, hneg, rfl⟩ := wp_returns hwp
  exact ⟨r, hneg, hrun⟩

/-- **`make_runnable` wakes a waiting or sleeping thread.** -/
lemma wakesSafely_dormant (h : s.Agrees L) (hr : s.Row tid n c t)
    (hst : t.status = .waiting ∨ t.status = .sleeping) : s.WakesSafely L tid := by
  obtain ⟨l₁, l₂, hL⟩ := h.split hr
  have hdormant : s.Dormant tid := hr.dormant_iff.mpr hst
  have hwp : wp (schedulerMakeRunnable tid) (fun r s' => r = 0 ∧ s.MovedUp s' L tid n c t)
      (fun _ _ => False) s := by
    rw [schedulerMakeRunnable, wp_bind]
    refine wp_tcbPoolMakeRunnable_dormant h.lists hr hst hL fun nodes pools he hlists => ?_
    have hr' : (s.withLists nodes pools).Row tid n c t := hr.withLists pools he
    simp only [tcbPoolFindTcb, tcbPoolFindNode, setStatus, writeTcb, readTcb, wp_bind, wp_gets,
      hr'.node, hr'.elem, hr'.tcb, wp_pure, Option.map_some, wp_modify, lt_irrefl, if_false]
    exact ⟨trivial, hr, ⟨l₁, l₂, hL, hlists.isLl, hlists.apart⟩, nodes, pools, he, rfl⟩
  obtain ⟨r, s', hrun, rfl, hmoved⟩ := wp_returns hwp
  exact ⟨0, s', hrun, iff_of_true rfl hdormant, fun _ => ⟨n, c, t, hmoved⟩,
    fun hnot => absurd hdormant hnot⟩

/-- A call that is refused is safe for a thread that neither waits nor sleeps. -/
lemma wakesSafely_refused {r : ℤ} (hrun : tcbPoolMakeRunnable tid s = (.ok r, s)) (hneg : r < 0)
    (hnot : ¬ s.Dormant tid) : s.WakesSafely L tid := by
  have hwp : wp (schedulerMakeRunnable tid) (fun r s' => r = -2 ∧ s' = s) (fun _ _ => False) s :=
    wp_schedulerMakeRunnable_refused hrun hneg ⟨rfl, rfl⟩
  obtain ⟨r', s', hrun', rfl, rfl⟩ := wp_returns hwp
  exact ⟨-2, s', hrun', iff_of_false (by decide) hnot, fun hd => absurd hd hnot,
    fun _ => ⟨by decide, rfl⟩⟩

/-- **`make_runnable` is safe for a tid that may be woken.** -/
theorem wakesSafely_of_mayWake (h : s.Agrees L) (hmay : s.MayWake tid) : s.WakesSafely L tid := by
  rcases h.row_or tid with hnone | ⟨n, c, t, hr⟩
  · exact wakesSafely_refused (tcbPoolMakeRunnable_unknown hnone) (by decide)
      (by simp [Sched.Dormant, Sched.statusOf, hnone])
  by_cases hst : t.status = .waiting ∨ t.status = .sleeping
  · exact wakesSafely_dormant h hr hst
  have hsize : t.status ≠ .runnable → (s.pools .sleepingPool).size = 0 := by
    intro hne
    refine hmay ?_
    rw [hr.statusOf]
    cases hcase : t.status <;> simp_all
  obtain ⟨r, hneg, hrun⟩ := tcbPoolMakeRunnable_awake hr hst hsize
  exact wakesSafely_refused hrun hneg fun hd => hst (hr.dormant_iff.mp hd)

/-! ### A thread that is awake is taken off the sleeping pool -/

/-- A running thread or a zombie is unlinked from the sleeping pool as soon as a thread
sleeps, and the call succeeds. -/
lemma wlp_tcbPoolMakeRunnable_awake (hr : s.Row tid n c t)
    (hst : t.status = .running ∨ t.status = .zombie) (hsize : (s.pools .sleepingPool).size ≠ 0) :
    wlp (tcbPoolMakeRunnable tid) (fun r s' => r = 0 ∧ s'.threads = s.threads) s := by
  have hrunnable : t.status ≠ .runnable := by
    rcases hst with hst | hst <;> simp [hst]
  have hwaiting : t.status ≠ .waiting := by
    rcases hst with hst | hst <;> simp [hst]
  simp only [wlp, tcbPoolMakeRunnable, tcbPoolFindNode, readTcb, wp_bind, wp_gets, hr.node,
    hr.elem, hr.tcb, wp_pure]
  rw [if_neg hrunnable, wp_bind, if_neg hwaiting, wp_onPool]
  refine wp_imp (llUnlinkNode_zero hsize n) fun r u hr0 => ?_
  rw [hr0, if_neg (by decide), wp_bind, wp_onPool]
  refine wp_imp (llLinkNodeLast_zero _ n) fun r u hr0 => ?_
  rw [hr0, if_neg (by decide)]
  exact ⟨rfl, rfl⟩

/-- **`make_runnable` is not safe for a running thread or a zombie while a thread sleeps**: it
does not refuse. -/
theorem not_wakesSafely (hr : s.Row tid n c t) (hst : t.status = .running ∨ t.status = .zombie)
    (hsize : (s.pools .sleepingPool).size ≠ 0) : ¬ s.WakesSafely L tid := by
  rintro ⟨r, s', hrun, -, -, hsame⟩
  have hnot : ¬ s.Dormant tid := by
    rw [hr.dormant_iff]
    rcases hst with hst | hst <;> simp [hst]
  obtain ⟨hneg, rfl⟩ := hsame hnot
  have hwlp : wlp (schedulerMakeRunnable tid) (fun r _ => r = 0) s' := by
    rw [wlp, schedulerMakeRunnable, wp_bind]
    refine wp_imp (wlp_tcbPoolMakeRunnable_awake hr hst hsize) fun r u hpost => ?_
    obtain ⟨hr0, hthreads⟩ := hpost
    rw [hr0, if_neg (by decide), wp_bind, tcbPoolFindTcb, wp_bind]
    refine (wlp_tcbPoolFindNode tid).mpr ⟨fun hnone => ?_, fun n' c' _ _ => ?_⟩
    · rw [hthreads, hr.node] at hnone
      exact absurd hnone (Option.some_ne_none _)
    · exact (wp_bind ..).mpr ((wlp_setStatus c' _).mpr fun _ _ => rfl)
  exact absurd (wp_ok hwlp hrun) (by omega)

/-- **When `make_runnable` is safe**: for every tid but that of a running thread or a zombie
while some thread sleeps. -/
theorem wakesSafely_iff (h : s.Agrees L) : s.WakesSafely L tid ↔ s.MayWake tid := by
  refine ⟨fun hsafe hst => ?_, wakesSafely_of_mayWake h⟩
  by_contra hsize
  rcases h.row_or tid with hnone | ⟨n, c, t, hr⟩
  · simp [Sched.statusOf, hnone] at hst
  · rw [hr.statusOf, Option.some.injEq, Option.some.injEq] at hst
    exact not_wakesSafely hr hst hsize hsafe

/-! ### The running thread is descheduled -/

/-- The running thread has moved from the runnable pool to the end of the waiting pool. -/
structure Sched.MovedDown (s s' : Sched) (L : Pool → List Ptr) (tid : ℤ) (n c : Ptr) (t : Tcb) :
    Prop where
  row : s'.Row tid n c { t with status := .waiting }
  pools : ∃ l₁ l₂, L .runnablePool = l₁ ++ n :: l₂ ∧
    s'.Lists (Function.update (Function.update L .runnablePool (l₁ ++ l₂)) .waitingPool
      (L .waitingPool ++ [n]))
  table : SameTable s s'
  current : s'.curTcb = s.curTcb

/-- **`scheduler_deschedule_current` moves the running thread to the waiting pool.** -/
theorem schedulerDescheduleCurrent_running (h : s.Agrees L) (hcur : s.curTcb = some c)
    (hr : s.Row tid n c t) (hst : t.status = .running) :
    ∃ s', schedulerDescheduleCurrent s = (.ok 0, s') ∧ s.MovedDown s' L tid n c t := by
  obtain ⟨l₁, l₂, hl⟩ := h.split hr
  obtain ⟨c', t', hr', htid, -⟩ := h.rows tid n hr.node
  obtain ⟨-, rfl, rfl⟩ := hr.unique hr'
  have hpool : poolOf t.status = .runnablePool := by rw [hst]; rfl
  rw [hpool] at hl
  have hwp : wp schedulerDescheduleCurrent
      (fun r s' => r = 0 ∧ s.MovedDown s' L tid n c t) (fun _ _ => False) s := by
    rw [schedulerDescheduleCurrent, wp_bind]
    refine (wp_currentTcb hcur).mpr ?_
    rw [wp_bind]
    refine (wp_readTcb hr.tcb).mpr ?_
    rw [htid, wp_bind, tcbPoolMakeWaiting, wp_bind]
    refine (wp_tcbPoolFindNode hr.node hr.elem).mpr ?_
    dsimp only
    rw [wp_bind]
    refine (wp_readTcb hr.tcb).mpr ?_
    rw [if_neg (by rw [hst]; decide), wp_bind]
    refine wp_unlink h.lists hl fun nodes pools he hd h₁ => ?_
    rw [if_neg (by decide), wp_bind]
    refine wp_linkLast h₁ (h.lists.not_mem_taken hl) hd fun nodes' pools' he' h₂ => ?_
    rw [if_neg (by decide), wp_pure, if_neg (by decide), wp_bind]
    have htcb : ((s.withLists nodes pools).withLists nodes' pools').tcbs c = some t := hr.tcb
    refine (wp_setStatus htcb _).mpr ⟨rfl, ?_, ⟨l₁, l₂, hl, ?_⟩, ?_, rfl⟩
    · exact ⟨hr.node, ((congrFun (he'.trans he) n).trans hr.elem), Function.update_self ..⟩
    · rw [Function.update_of_ne (by decide)] at h₂
      exact ⟨h₂.isLl, h₂.apart⟩
    · exact ⟨rfl, he'.trans he, rfl, rfl, rfl⟩
  obtain ⟨r, s', hrun, rfl, hmoved⟩ := wp_returns hwp
  exact ⟨s', hrun, hmoved⟩

/-! ### Runs -/

/-- In a good state the pools and the statuses agree. -/
lemma Sched.Good.agrees (h : s.Good) : ∃ L, s.Agrees L := by
  obtain ⟨D, -, -, ⟨X, hX, L, hL⟩, -⟩ := h
  refine ⟨L, hL.lists, fun tid n hn => ?_⟩
  obtain ⟨c, t, hr, htid, -⟩ := hL.rows tid n hn
  refine ⟨c, t, hr, htid, fun k => ?_⟩
  rw [hL.mem_iff hr k, home_of_notMem fun hin => hX hin]

/-- Two threads start and the second one sleeps; the first one runs. -/
def sleeperRun : List SchedOp :=
  [.addProcess (some (.nth 1)),
    .addProcess (some (.nth 2)),
    .timer 0x100, .sleep 0x200 100]

/-- The run is harmless, and ends with a running and a sleeping thread. -/
lemma sleeperRun_state : ∃ s, Machine.replay (Machine.guarded Harmless schedNext)
    (schedulerInit idleMem) sleeperRun = some s ∧ schedMachine.Reach Harmless s ∧
    s.statusOf 1 = some .running ∧ s.statusOf 2 = some .sleeping ∧
    (s.pools .sleepingPool).size = 1 := by
  have hrun : (Machine.replay (Machine.guarded Harmless schedNext) (schedulerInit idleMem)
      sleeperRun).map (fun s => (s.statusOf 1, s.statusOf 2, (s.pools .sleepingPool).size)) =
        some (some .running, some .sleeping, 1) := by decide +kernel
  rw [Option.map_eq_some_iff] at hrun
  obtain ⟨s, hs, heq⟩ := hrun
  obtain ⟨h1, h2⟩ := Prod.mk.inj heq
  obtain ⟨h2, h3⟩ := Prod.mk.inj h2
  exact ⟨s, hs, Machine.reach_of_guarded schedNext_sound sleeperRun (.init ⟨idleMem, rfl⟩) hs,
    h1, h2, h3⟩

/-- There the sleeping thread is woken safely, and the call on the running one is not safe. -/
theorem wakesSafely_iff_sleeperRun : ∃ s L, Machine.replay (Machine.guarded Harmless schedNext)
    (schedulerInit idleMem) sleeperRun = some s ∧ s.Agrees L ∧ s.WakesSafely L 2 ∧
    ¬ s.WakesSafely L 1 := by
  obtain ⟨s, hs, hreach, h1, h2, hsize⟩ := sleeperRun_state
  obtain ⟨L, hL⟩ := (good_of_harmless hreach).agrees
  refine ⟨s, L, hs, hL, (wakesSafely_iff hL).mpr fun hst => ?_, fun hsafe => ?_⟩
  · rw [h2] at hst
    rcases hst with hst | hst <;> cases hst
  · have hzero := (wakesSafely_iff hL).mp hsafe (.inl h1)
    omega

/-- **A thread that makes itself runnable is not refused while another one sleeps**, in a state
in which the pools and the statuses agree. -/
theorem not_wakesSafely_of_self : ∃ s L, schedMachine.Reachable s ∧ s.Agrees L ∧
    s.statusOf 1 = some .running ∧ ¬ s.WakesSafely L 1 := by
  obtain ⟨s, -, hreach, h1, -, hsize⟩ := sleeperRun_state
  obtain ⟨L, hL⟩ := (good_of_harmless hreach).agrees
  refine ⟨s, L, hreach.mono (fun _ _ _ => trivial), hL, h1, ?_⟩
  rcases hL.row_or 1 with hnone | ⟨n, c, t, hr⟩
  · simp [Sched.statusOf, hnone] at h1
  · have hst : t.status = .running := by
      rw [hr.statusOf] at h1
      exact Option.some.inj h1
    exact not_wakesSafely hr (.inl hst) (by omega)

end ShrekOS
