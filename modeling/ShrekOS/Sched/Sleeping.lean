/-
Sleeping threads wake up on time.

* `Sched.OnPool`: a thread is on a pool, with the time it is to be woken up;
* `Sched.SleepersAhead`: the sleeping pool is in the order of these times, and all of them
  are yet to come;
* `LeavesSleepers`: the steps in which `make_runnable` takes nothing off the sleeping pool;
* `schedStep_sleepers`: what such a step does to the threads that sleep;
* `wakeOnTime`: **in a run of such steps a thread leaves the sleeping pool at the tick it is
  to be woken up, for the runnable pool**, and `tcb_pool_wakeup` always returns.

Threads that were woken up stay `SLEEPING` until they run, so several of them may be on the
runnable pool. They are the exceptions that `PoolInv` allows.
-/
import ShrekOS.Sched.PoolRuns

namespace ShrekOS

open Kit Kit.Cmd

/-- The thread is on the pool, and its wakeup time is `w`. -/
def Sched.OnPool (s : Sched) (k : Pool) (tid : ℤ) (w : ℕ) : Prop :=
  ∃ l n c t, IsDList s.nodes.next s.nodes.prev (s.pools k).head (s.pools k).tail
    (s.pools k).size l ∧
    n ∈ l ∧ s.Row tid n c t ∧ t.tWakeup = w

/-- The sleeping pool is sorted by the wakeup times, which are all greater than the number of
ticks. -/
def Sched.SleepersAhead (s : Sched) : Prop :=
  ∃ l, IsDList s.nodes.next s.nodes.prev (s.pools .sleepingPool).head (s.pools .sleepingPool).tail
      (s.pools .sleepingPool).size l ∧
    (l.Pairwise fun a b => s.wakeAt a ≤ s.wakeAt b) ∧ ∀ n ∈ l, s.numTicks < s.wakeAt n

/-- `tcb_pool_make_runnable` takes nothing off the sleeping pool: it refuses, or takes the
thread off the waiting pool. -/
def Sched.Spares (s : Sched) (tid : ℤ) : Prop :=
  s.statusOf tid ≠ some .sleeping ∧ s.MayWake tid

instance (s : Sched) (tid : ℤ) : Decidable (s.Spares tid) := by
  unfold Sched.Spares
  infer_instance

/-- The steps that take nothing off the sleeping pool but by a timer tick. -/
def LeavesSleepers (s : Sched) : SchedOp → Prop
  | .makeRunnable tid => s.Spares tid
  | .vanish parent reaper => (∀ tid ∈ parent, s.Spares tid) ∧ ∀ tid ∈ reaper, s.Spares tid
  | _ => True

instance (s : Sched) : (op : SchedOp) → Decidable (LeavesSleepers s op)
  | .makeRunnable tid => inferInstanceAs (Decidable (s.Spares tid))
  | .vanish parent reaper => inferInstanceAs
      (Decidable ((∀ tid ∈ parent, s.Spares tid) ∧ ∀ tid ∈ reaper, s.Spares tid))
  | .addProcess _ | .addNewThread _ | .deschedule _ _ _ | .sleep _ _ | .yield _ _ |
    .timer _ | .reap =>
    .isTrue trivial

variable {D : Diary} {X : Set Ptr} {s s' : Sched} {L : Pool → List Ptr} {tid : ℤ} {k : Pool}
  {w : ℕ} {op : SchedOp}

/-- The pools of the invariant are those in memory. -/
lemma PoolInv.onPool_iff (h : PoolInv D X s L) :
    s.OnPool k tid w ↔ ∃ n c t, s.Row tid n c t ∧ n ∈ L k ∧ t.tWakeup = w := by
  constructor
  · rintro ⟨l, n, c, t, hl, hn, hr, hw⟩
    exact ⟨n, c, t, hr, hl.unique (h.lists.isLl k).links ▸ hn, hw⟩
  · rintro ⟨n, c, t, hr, hn, hw⟩
    exact ⟨L k, n, c, t, (h.lists.isLl k).links, hn, hr, hw⟩

/-- A scheduler of which nothing is remembered but the time, which no sleeping thread is to be
woken up before. -/
def Diary.at (now : ℕ) : Diary := ⟨now, now, fun _ _ _ => False⟩

/-- What holds in every state: threads that were woken up may be excepted. -/
def Sched.Dozing (s : Sched) : Prop := s.Pooled (Diary.at s.numTicks) Set.univ

lemma Sched.Dozing.ahead (h : s.Dozing) : s.SleepersAhead := by
  obtain ⟨⟨X, -, L, hL⟩, -⟩ := h
  exact ⟨L .sleepingPool, (hL.lists.isLl .sleepingPool).links, hL.sorted, hL.ahead⟩

/-- The threads of the diary after a tick, which woke up those that were due. -/
def wokenEntries (now : ℕ) (entries : ℤ → Pool → ℕ → Prop) (tid : ℤ) (k : Pool) (w : ℕ) : Prop :=
  entries tid .sleepingPool w ∧ k = if w = now then .runnablePool else .sleepingPool

/-- **What a step does to sleeping threads**: they sleep on, or there was a tick and those that
were due are on the runnable pool. -/
theorem schedStep_sleepers (h : s.Pooled D Set.univ) (hD : D.OfSleepers)
    (hbound : D.bound = D.clock)
    (hop : LeavesSleepers s op) :
    wlp (schedStep op) (fun _ s' => s'.Pooled D Set.univ ∨
      s'.Pooled ⟨D.clock + 1, D.clock + 1, wokenEntries (D.clock + 1) D.entries⟩ Set.univ) s := by
  have hdone : ∀ {α : Type} {c : SchedM α}, wlp c (fun _ s' => s'.Pooled D Set.univ) s →
      wlp (do let _ ← c) (fun _ s' => s'.Pooled D Set.univ ∨
        s'.Pooled ⟨D.clock + 1, D.clock + 1, wokenEntries (D.clock + 1) D.entries⟩ Set.univ) s :=
    fun hc => (wp_bind ..).mpr (wp_imp hc fun _ s' hs' => .inl hs')
  cases op with
  | addProcess heap => exact hdone (schedulerAddProcess_pooled h heap)
  | addNewThread heap => exact hdone (schedulerAddNewThread_pooled h heap)
  | deschedule oldEsp mapped reject => exact hdone (thrDeschedule_pooled h hD oldEsp mapped reject)
  | makeRunnable tid =>
      exact hdone (thrMakeRunnable_pooled h hD hop.2 fun hst => absurd hst hop.1)
  | sleep oldEsp ticks => exact hdone (thrSleep_pooled h hD oldEsp ticks)
  | yield oldEsp tid => exact hdone (thrYield_pooled h oldEsp tid)
  | timer oldEsp =>
      obtain ⟨⟨X, -, L, hL⟩, -⟩ := h
      have hwoken : wlp (cTimerHandler oldEsp) (fun _ s' => s'.Pooled
          ⟨D.clock + 1, D.clock + 1, wokenEntries (D.clock + 1) D.entries⟩ Set.univ) s := by
        refine cTimerHandler_woken hL hbound (fun tid k w hk => ?_) (fun due rest _ _ => ?_) oldEsp
        · obtain ⟨n, c, t, hr, hn, hw⟩ := hL.booked tid _ w hk.1
          exact ⟨n, c, t, hr, hw, hn, hk.2⟩
        · exact nextUp_of_subset s (Set.subset_univ _) _
      exact (wp_bind ..).mpr (wp_imp hwoken fun _ s' hs' => .inr hs')
  | vanish parent reaper =>
      refine hdone (thrVanish_pooled h hD (fun tid htid => (hop.1 tid htid).2)
        (fun _ tid htid => .inl (hop.2 tid htid).2) fun hst => ?_)
      rcases hst with hst | hst
      · obtain ⟨tid, htid, hsleep⟩ := Option.bind_eq_some_iff.mp hst
        exact absurd hsleep (hop.1 tid htid).1
      · obtain ⟨tid, htid, hsleep⟩ := Option.bind_eq_some_iff.mp hst
        exact absurd hsleep (hop.2 tid htid).1
  | reap => exact wp_imp (tcbPoolReap_pooled h hD) fun _ s' hs' => .inl hs'

/-- The same about a step of the machine. -/
lemma step_sleepers (h : s.Pooled D Set.univ) (hD : D.OfSleepers) (hbound : D.bound = D.clock)
    (hop : LeavesSleepers s op) (hstep : schedMachine.step s op s') :
    s'.Pooled D Set.univ ∨
      s'.Pooled ⟨D.clock + 1, D.clock + 1, wokenEntries (D.clock + 1) D.entries⟩ Set.univ := by
  have hpost := schedStep_sleepers h hD hbound hop
  change schedNext s op = some s' at hstep
  rcases hrun : schedStep op s with ⟨_ | _, t⟩ <;> rw [schedNext, hrun] at hstep
  · exact absurd hstep (Option.some_ne_none s').symm
  · obtain rfl := Option.some.inj hstep
    have hwoken := wp_ok hpost hrun
    exact hwoken

/-- The time in a state with the invariant. -/
lemma Sched.Pooled.numTicks {Y : Set Ptr} (h : s.Pooled D Y) : s.numTicks = D.clock := by
  obtain ⟨⟨X, -, L, hL⟩, -⟩ := h
  exact hL.clock

/-- Entries of the diary may be forgotten. -/
lemma Sched.Pooled.forget {Y : Set Ptr} (h : s.Pooled D Y) (hbound : D.bound = D.clock) :
    s.Pooled (Diary.at s.numTicks) Y := by
  have hnow := h.numTicks
  obtain ⟨⟨X, hX, L, hL⟩, hruns⟩ := h
  refine ⟨⟨X, hX, L, { hL with clock := rfl, bound_le := le_rfl, ahead := ?_, booked := ?_ }⟩,
    hruns⟩
  · intro n hn
    have hahead := hL.ahead n hn
    rwa [hbound, ← hnow] at hahead
  · exact fun _ _ _ he => he.elim

/-- A scheduler as `scheduler_init` sets it up has the invariant. -/
lemma dozing_init (idle : HeapAnswer) : (schedulerInit idle).Dozing := by
  obtain ⟨⟨X, -, L, hL⟩, hruns⟩ := schedulerInit_pooled idle
  exact ⟨⟨X, Set.subset_univ X, L, hL⟩, hruns⟩

/-- A step that leaves the sleepers alone keeps the invariant. -/
lemma dozing_step (hs : s.Dozing) (hop : LeavesSleepers s op) (hstep : schedMachine.step s op s') :
    s'.Dozing := by
  rcases step_sleepers hs (fun _ _ _ he => he.elim) rfl hop hstep with hs' | hs'
  · exact hs'.forget rfl
  · exact hs'.forget rfl

/-- **In every state of a run that leaves the sleepers alone** the invariant holds. -/
theorem dozing_of_reach (h : schedMachine.Reach LeavesSleepers s) : s.Dozing := by
  refine Machine.Reach.inv (I := Sched.Dozing) ?_ ?_ h
  · rintro s ⟨idle, rfl⟩
    exact dozing_init idle
  · exact fun s op s' hs hop hstep => dozing_step hs hop hstep

/-- The threads that sleep now are put in the diary. -/
lemma Sched.Dozing.remember (h : s.Dozing) : s.Pooled
    ⟨s.numTicks, s.numTicks, fun tid k w => k = .sleepingPool ∧ s.OnPool .sleepingPool tid w⟩
      Set.univ := by
  obtain ⟨⟨X, hX, L, hL⟩, hruns⟩ := h
  refine ⟨⟨X, hX, L, { hL with booked := ?_ }⟩, hruns⟩
  rintro tid k w ⟨rfl, hsleep⟩
  exact hL.onPool_iff.mp hsleep

/-- A thread in the diary is on its pool. -/
lemma Sched.Pooled.onPool {Y : Set Ptr} (h : s.Pooled D Y) (he : D.entries tid k w) :
    s.OnPool k tid w := by
  obtain ⟨⟨X, -, L, hL⟩, -⟩ := h
  exact hL.onPool_iff.mpr (hL.booked tid k w he)

/-- **Sleeping threads wake up on time.** In a run in which only timer ticks take threads off the
sleeping pool, that pool is sorted and all its threads are to be woken up later;
`tcb_pool_wakeup` returns in the next tick; and a step leaves a sleeping thread on that pool,
or it is the tick at which the number of ticks is the wakeup time of the thread, which then is
on the runnable pool. -/
theorem wakeOnTime (h : schedMachine.Reach LeavesSleepers s) :
    s.SleepersAhead ∧
    (∃ s', tcbPoolWakeup (s.numTicks + 1) { s with numTicks := s.numTicks + 1 } = (.ok 0, s')) ∧
    ∀ op s', LeavesSleepers s op → schedMachine.step s op s' →
      ∀ tid w, s.OnPool .sleepingPool tid w →
        s'.numTicks = w ∧ s'.OnPool .runnablePool tid w ∨
          s'.numTicks < w ∧ s'.OnPool .sleepingPool tid w := by
  have hs := dozing_of_reach h
  refine ⟨hs.ahead, ?_, fun op s' hop hstep tid w hsleep => ?_⟩
  · obtain ⟨⟨X, -, L, hL⟩, -⟩ := hs
    have hwp : wp (tcbPoolWakeup (s.numTicks + 1)) (fun r _ => r = 0) (fun _ _ => False)
        { s with numTicks := s.numTicks + 1 } :=
      wp_wakeup hL.tick le_rfl fun _ _ _ _ _ _ _ _ _ => rfl
    obtain ⟨r, s', hrun, rfl⟩ := wp_returns hwp
    exact ⟨s', hrun⟩
  · have hlate : s.numTicks < w := by
      obtain ⟨⟨X, -, L, hL⟩, -⟩ := hs
      obtain ⟨n, c, t, hr, hn, rfl⟩ := hL.onPool_iff.mp hsleep
      rw [← hr.wakeAt]
      exact hL.ahead n hn
    rcases step_sleepers hs.remember (fun _ _ _ he => he.1) rfl hop hstep with hs' | hs'
    · refine .inr ⟨?_, hs'.onPool ⟨rfl, hsleep⟩⟩
      rw [hs'.numTicks]
      exact hlate
    · have hnow : s'.numTicks = s.numTicks + 1 := hs'.numTicks
      by_cases hw : w = s.numTicks + 1
      · exact .inl ⟨hnow.trans hw.symm, hs'.onPool ⟨⟨rfl, hsleep⟩, (if_pos hw).symm⟩⟩
      · refine .inr ⟨?_, hs'.onPool ⟨⟨rfl, hsleep⟩, (if_neg hw).symm⟩⟩
        omega

/-- Two threads start and both sleep until the same tick, while the idle thread runs. -/
def dozeRun : List SchedOp :=
  [.addProcess (some (.nth 1)),
    .addProcess (some (.nth 2)),
    .timer 0x100, .sleep 0x200 2, .sleep 0x300 2, .timer 0x400]

/-- The second thread is the head of the sleeping pool after this run, and runnable after one
more tick. -/
theorem wakeOnTime_dozeRun :
    ∃ s s', Machine.replay (Machine.guarded LeavesSleepers schedNext) (schedulerInit idleMem)
        dozeRun = some s ∧ schedNext s (.timer 0x500) = some s' ∧
      s.OnPool .sleepingPool 2 3 ∧ s'.numTicks = 3 ∧ s'.OnPool .runnablePool 2 3 := by
  have hrun : ((Machine.replay (Machine.guarded LeavesSleepers schedNext) (schedulerInit idleMem)
      dozeRun).bind fun s => (schedNext s (.timer 0x500)).map fun s' =>
        ((s.pools .sleepingPool).head, htGet s.threads 2, s.nodes.e 31, (s.tcbs 30).map Tcb.tWakeup,
          s'.numTicks)) = some (some 31, some 31, some 30, some 3, 3) := by decide +kernel
  rw [Option.bind_eq_some_iff] at hrun
  obtain ⟨s, hs, hnext⟩ := hrun
  rw [Option.map_eq_some_iff] at hnext
  obtain ⟨s', hs', heq⟩ := hnext
  simp only [Prod.mk.injEq, Option.map_eq_some_iff] at heq
  obtain ⟨hhead, hnode, helem, ⟨t, ht, hw⟩, hnow⟩ := heq
  have hreach : schedMachine.Reach LeavesSleepers s :=
    Machine.reach_of_guarded schedNext_sound dozeRun (.init ⟨idleMem, rfl⟩) hs
  obtain ⟨⟨l, hl, -, -⟩, -, hstep⟩ := wakeOnTime hreach
  have hmem : 31 ∈ l := List.mem_of_mem_head? (hl.head_eq.symm.trans hhead)
  have hsleep : s.OnPool .sleepingPool 2 3 := ⟨l, 31, 30, t, hl, hmem, ⟨hnode, helem, ht⟩, hw⟩
  refine ⟨s, s', hs, hs', hsleep, hnow, ?_⟩
  rcases hstep (.timer 0x500) s' trivial hs' 2 3 hsleep with ⟨-, hrunnable⟩ | ⟨hlate, -⟩
  · exact hrunnable
  · exact absurd hnow hlate.ne

end ShrekOS
