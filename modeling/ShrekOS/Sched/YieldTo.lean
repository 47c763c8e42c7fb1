/-
`thr_yield` to a given thread, whose check and context switch are two steps.

* `YieldState`, `yieldNext`, `yieldMachine`: the scheduler with the targets that threads have
  checked and not switched to yet, its steps, and their runs;
* `Sched.Dispatched`: the current thread is linked in the runnable pool, or is the idle one;
* `Steady`: at the switch the target has still a status of the runnable pool;
* `dispatched_switch_iff`: **when a switch dispatches a thread of the runnable pool**;
* `dispatched_of_steady`: in a run of such switches every thread is dispatched from there;
* `not_dispatched_staleRun`: a run with another switch.

Between its check and its switch a thread can be interrupted, and the others go on. Another
operation that gives up the processor is one step with its context switch.
-/
import ShrekOS.Sched.Sleeping

namespace ShrekOS

open Kit Kit.Cmd

/-- The scheduler, and for each thread the target that it has checked and not switched to. -/
structure YieldState where
  sched : Sched
  target : Ptr → Option ℤ

/-- An operation of the scheduler, and the two steps of `thr_yield` to a given thread. -/
inductive YieldOp where
  | op (o : SchedOp)
  | check (tid : ℤ)
  | switch (oldEsp : ℕ)

namespace YieldState

/-- The target that the current thread goes on to. -/
def pending (s : YieldState) : Option ℤ := s.sched.curTcb.bind s.target

/-- The current thread has another target, or none. -/
def aim (s : YieldState) (tid : Option ℤ) : Ptr → Option ℤ :=
  fun c => if s.sched.curTcb = some c then tid else s.target c

/-- The timer may always interrupt; a thread past its check makes no other call. -/
def Callable (s : YieldState) : SchedOp → Prop
  | .timer _ => True
  | .yield _ tid => tid < 0 ∧ s.pending = none
  | _ => s.pending = none

instance (s : YieldState) : (o : SchedOp) → Decidable (s.Callable o)
  | .timer _ => .isTrue trivial
  | .yield _ tid => inferInstanceAs (Decidable (tid < 0 ∧ s.pending = none))
  | .addProcess _ | .addNewThread _ | .deschedule _ _ _ | .makeRunnable _ | .sleep _ _
  | .vanish _ _ | .reap => inferInstanceAs (Decidable (s.pending = none))

end YieldState

/-- The state that a step leaves, if it does not fault. -/
def yieldNext (s : YieldState) : YieldOp → Option YieldState
  | .op o =>
      if s.Callable o then (schedNext s.sched o).map fun s' => { s with sched := s' } else none
  | .check tid =>
      if 0 ≤ tid ∧ s.pending = none then
        match schedulerCheckIsRunnable tid s.sched with
        -- `thr_yield` goes on if the target is runnable, and returns otherwise
        | (.ok r, s') => some ⟨s', if 0 < r then s.aim (some tid) else s.target⟩
        | (.error _, _) => none
      else none
  | .switch oldEsp =>
      match s.pending with
      | none => none
      | some tid =>
          match contextSwitch oldEsp tid s.sched with
          | (.ok _, s') => some ⟨s', s.aim none⟩
          | (.error _, _) => none

/-- The runs: no thread is past a check at first. -/
def yieldMachine : Machine YieldState YieldOp where
  init s := ∃ idle, s = ⟨schedulerInit idle, fun _ => none⟩
  step s a s' := yieldNext s a = some s'

/-- The current thread is linked in the runnable pool, or it is the idle thread. -/
def Sched.Dispatched (s : Sched) : Prop :=
  ∀ c, s.curTcb = some c → c = s.idleTcb ∨
    ∃ l n, IsDList s.nodes.next s.nodes.prev (s.pools .runnablePool).head
      (s.pools .runnablePool).tail (s.pools .runnablePool).size l ∧ n ∈ l ∧ s.nodes.e n = some c

/-- The thread with the given tid, if there is one, has a status of the runnable pool. -/
def Sched.StillRunnable (s : Sched) (tid : ℤ) : Prop :=
  ∀ st ∈ s.statusOf tid, poolOf st = .runnablePool

instance (s : Sched) (tid : ℤ) : Decidable (s.StillRunnable tid) :=
  inferInstanceAs (Decidable (∀ st ∈ s.statusOf tid, poolOf st = .runnablePool))

/-- The steps of a run in which a thread switches to a target that is still runnable, and the
others meet the condition `H`. -/
def Steady (H : Sched → SchedOp → Prop) (s : YieldState) : YieldOp → Prop
  | .op o => H s.sched o
  | .check _ => True
  | .switch _ => ∀ tid ∈ s.pending, s.sched.StillRunnable tid

instance (H : Sched → SchedOp → Prop) [∀ s o, Decidable (H s o)] (s : YieldState) :
    (a : YieldOp) → Decidable (Steady H s a)
  | .op o => inferInstanceAs (Decidable (H s.sched o))
  | .check _ => .isTrue trivial
  | .switch _ => inferInstanceAs (Decidable (∀ tid ∈ s.pending, s.sched.StillRunnable tid))

variable {D : Diary} {Y X : Set Ptr} {L : Pool → List Ptr} {s : Sched} {tid : ℤ}

/-- With the invariant of the thread pool the current thread is linked. -/
lemma Sched.Pooled.dispatched (h : s.Pooled D Y) : s.Dispatched := by
  obtain ⟨⟨X, -, L, hL⟩, hruns⟩ := h
  intro c hc
  rcases hruns c hc with hidle | ⟨tid, n, t, hr, hst⟩
  · exact .inl hidle
  · have hmem := (hL.row hr).2
    rw [home_runnable (by rw [hst]; rfl)] at hmem
    exact .inr ⟨L .runnablePool, n, (hL.lists.isLl .runnablePool).links, hmem, hr.elem⟩

lemma wlp_checkIsRunnable (tid : ℤ) :
    wlp (schedulerCheckIsRunnable tid) (fun _ s' => s' = s) s := by
  rw [wlp, schedulerCheckIsRunnable, wp_bind, tcbPoolFindTcb, wp_bind]
  refine (wlp_tcbPoolFindNode tid).mpr ⟨fun _ => rfl, fun n c _ _ => ?_⟩
  exact (wp_bind ..).mpr ((wlp_readTcb c).mpr fun _ _ => rfl)

/-- **A switch to a target that is still runnable** keeps the invariant. -/
lemma contextSwitch_pooled (h : s.Pooled D Y) (hst : s.StillRunnable tid) (oldEsp : ℕ) :
    wlp (contextSwitch oldEsp tid) (fun _ s' => s'.Pooled D Y) s := by
  obtain ⟨⟨X, hX, L, hL⟩, -⟩ := h
  refine wlp_contextSwitch hL (nextUp_of_subset s hX _) oldEsp fun _ => ⟨hX, fun n c t hr => ?_⟩
  exact hst t.status hr.statusOf

/-- A tid with a status is that of a thread. -/
lemma PoolInv.exists_row (h : PoolInv D X s L) {st : Status} (hst : s.statusOf tid = some st) :
    ∃ n c t, s.Row tid n c t ∧ t.status = st := by
  cases hn : htGet s.threads tid with
  | none => simp [Sched.statusOf, hn] at hst
  | some n =>
      obtain ⟨c, t, hr, -⟩ := h.rows tid n hn
      rw [hr.statusOf] at hst
      exact ⟨n, c, t, hr, Option.some.inj hst⟩

/-- **A switch to a target that is not**: it runs, linked in another pool. -/
lemma contextSwitch_stale (h : s.Good) (htid : 0 ≤ tid) (hst : ¬ s.StillRunnable tid)
    (oldEsp : ℕ) : wlp (contextSwitch oldEsp tid) (fun _ s' => ¬ s'.Dispatched) s := by
  obtain ⟨D, -, -, ⟨X, hX, L, hL⟩, -⟩ := h
  unfold Sched.StillRunnable at hst
  push Not at hst
  obtain ⟨st, hstatus, hpool⟩ := hst
  obtain ⟨n, c, t, hr, rfl⟩ := hL.exists_row hstatus
  have hmem := (hL.row hr).2
  rw [home_of_notMem fun hin => hX hin] at hmem
  rw [wlp, contextSwitch, wp_bind]
  refine wp_defer hL (fun _ _ _ => trivial) oldEsp fun s₁ h₁ hs₁ => ?_
  obtain ⟨c', t₁, hr₁, -⟩ := h₁.rows tid n (hs₁.threads ▸ hr.node)
  obtain rfl : c' = c := Option.some.inj (hr₁.elem.symm.trans (hs₁.elem ▸ hr.elem))
  rw [wp_bind, pickTcb, if_neg (by omega), wp_bind, tcbPoolFindTcb, wp_bind]
  refine (wp_tcbPoolFindNode hr₁.node hr₁.elem).mpr ?_
  change wp (schedulerSetRunningTcb c') _ _ s₁
  refine wp_imp (wlp_schedulerSetRunningTcb h₁.lists c') fun _ s' hpost => ?_
  obtain ⟨hcur, -, helem, hidle, -, hlists⟩ := hpost
  intro hdispatched
  rcases hdispatched c' hcur with hc | ⟨l, n', hl, hn', he⟩
  · exact h₁.ne_idle hr₁ (hc.trans hidle)
  · rw [hl.unique (hlists.isLl .runnablePool).links] at hn'
    obtain ⟨tid', c₂, t₂, hr₂, -⟩ := h₁.row_of_mem hn'
    obtain rfl : c₂ = c' := Option.some.inj (hr₂.elem.symm.trans (helem ▸ he))
    obtain ⟨-, rfl, -⟩ := h₁.eq_of_tcb hr₂ hr₁
    exact hpool (hlists.apart _ _ _ hmem hn')

/-- **When a switch dispatches a thread of the runnable pool**: when its target is still
runnable, or is no thread any more. -/
theorem dispatched_switch_iff (h : s.Good) (htid : 0 ≤ tid) (oldEsp : ℕ) :
    wlp (contextSwitch oldEsp tid) (fun _ s' => s'.Dispatched ↔ s.StillRunnable tid) s := by
  by_cases hst : s.StillRunnable tid
  · obtain ⟨D, -, -, hD⟩ := h
    exact wp_imp (contextSwitch_pooled hD hst oldEsp) fun _ s' hs' =>
      iff_of_true hs'.dispatched hst
  · exact wp_imp (contextSwitch_stale h htid hst oldEsp) fun _ s' hs' => iff_of_false hs' hst

/-! ### Runs -/

/-- A step keeps an invariant of the scheduler that its operations and its switches keep. -/
lemma yieldNext_keeps {I : Sched → Prop} {H : Sched → SchedOp → Prop}
    (hop : ∀ s o s', I s → H s o → schedNext s o = some s' → I s')
    (hswitch : ∀ s oldEsp tid, I s → s.StillRunnable tid →
      wlp (contextSwitch oldEsp tid) (fun _ s' => I s') s)
    {y y' : YieldState} {a : YieldOp} (hI : I y.sched) (hG : Steady H y a)
    (hstep : yieldNext y a = some y') : I y'.sched := by
  cases a with
  | op o =>
      obtain ⟨-, hmap⟩ := Option.ite_none_right_eq_some.mp hstep
      obtain ⟨s', hs', rfl⟩ := Option.map_eq_some_iff.mp hmap
      exact hop _ o s' hI hG hs'
  | check tid =>
      obtain ⟨-, hcheck⟩ := Option.ite_none_right_eq_some.mp hstep
      split at hcheck
      · next r s' hrun =>
          cases hcheck
          have hpost := wlp_checkIsRunnable (s := y.sched) tid
          have hsame := wp_ok hpost hrun
          change I s'
          rw [hsame]
          exact hI
      · cases hcheck
  | switch oldEsp =>
      simp only [yieldNext] at hstep
      split at hstep
      · cases hstep
      · next tid hpending =>
          split at hstep
          · next r s' hrun =>
              cases hstep
              have hpost := hswitch _ oldEsp tid hI (hG tid hpending)
              have hkept := wp_ok hpost hrun
              exact hkept
          · cases hstep

/-- **Only runnable threads are dispatched**, in the runs in which each target is still runnable at
the switch and the other steps are harmless, or take nothing off the sleeping pool but by a tick. -/
theorem dispatched_of_steady {y : YieldState}
    (h : yieldMachine.Reach (Steady Harmless) y ∨ yieldMachine.Reach (Steady LeavesSleepers) y) :
    y.sched.Dispatched := by
  rcases h with h | h
  · have hgood : y.sched.Good := by
      refine Machine.Reach.inv (I := fun y => y.sched.Good) ?_ ?_ h
      · rintro y ⟨idle, rfl⟩
        exact good_init idle
      · intro y a y' hy hG hstep
        refine yieldNext_keeps (fun s o s' hs ho => schedNext_good hs ho) ?_ hy hG hstep
        rintro s oldEsp tid ⟨D, hblank, hbound, hD⟩ hst
        exact wp_imp (contextSwitch_pooled hD hst oldEsp) fun _ s' hs' => ⟨D, hblank, hbound, hs'⟩
    obtain ⟨D, -, -, hD⟩ := hgood
    exact hD.dispatched
  · have hdozing : y.sched.Dozing := by
      refine Machine.Reach.inv (I := fun y => y.sched.Dozing) ?_ ?_ h
      · rintro y ⟨idle, rfl⟩
        exact dozing_init idle
      · intro y a y' hy hG hstep
        refine yieldNext_keeps (fun s o s' hs ho hnext => dozing_step hs ho hnext) ?_ hy hG hstep
        intro s oldEsp tid hs hst
        exact wp_imp (contextSwitch_pooled hs hst oldEsp) fun _ s' hs' => hs'.forget rfl
    exact hdozing.dispatched

/-- Two threads start. The first one that runs checks the other, which runs between two ticks, and
goes on to it. -/
def steadyRun : List YieldOp :=
  [.op (.addProcess (some (.nth 1))),
    .op (.addProcess (some (.nth 2))),
    .op (.timer 0x100), .check 1, .op (.timer 0x200), .op (.timer 0x300), .switch 0x400]

/-- The other thread runs again at the end. -/
theorem dispatched_of_steady_steadyRun : ∃ y,
    Machine.replay (Machine.guarded (Steady Harmless) yieldNext)
        ⟨schedulerInit idleMem, fun _ => none⟩ steadyRun = some y ∧
      y.sched.curTcb = some 20 ∧ y.sched.Dispatched := by
  have hrun : (Machine.replay (Machine.guarded (Steady Harmless) yieldNext)
      ⟨schedulerInit idleMem, fun _ => none⟩ steadyRun).map (fun y => y.sched.curTcb) =
        some (some 20) := by decide +kernel
  rw [Option.map_eq_some_iff] at hrun
  obtain ⟨y, hy, hcur⟩ := hrun
  refine ⟨y, hy, hcur, dispatched_of_steady (.inl ?_)⟩
  exact Machine.reach_of_guarded (fun _ _ _ h => h) steadyRun (.init ⟨idleMem, rfl⟩) hy

/-- The other thread gives up the processor before the second tick, and waits. -/
def staleRun : List YieldOp :=
  [.op (.addProcess (some (.nth 1))),
    .op (.addProcess (some (.nth 2))),
    .op (.timer 0x100), .check 1, .op (.timer 0x200), .op (.deschedule 0x300 true 0),
    .switch 0x400]

/-- **A waiting thread is dispatched**: it runs, and only the other one is in the runnable pool. -/
theorem not_dispatched_staleRun : ¬ ∀ y, yieldMachine.Reachable y → y.sched.Dispatched := by
  have hrun : (Machine.replay yieldNext ⟨schedulerInit idleMem, fun _ => none⟩ staleRun).map
      (fun y => (y.sched.curTcb, y.sched.idleTcb, (y.sched.pools .runnablePool).head,
        (y.sched.pools .runnablePool).size, y.sched.nodes.e 31)) =
          some (some 20, 10, some 31, 1, some 30) := by decide +kernel
  rw [Option.map_eq_some_iff] at hrun
  obtain ⟨y, hy, hview⟩ := hrun
  simp only [Prod.mk.injEq] at hview
  obtain ⟨hcur, hidle, hhead, hsize, helem⟩ := hview
  have hreach : yieldMachine.Reachable y :=
    Machine.reach_of_replay (fun _ _ _ h => h) staleRun (fun _ _ _ => trivial)
      (.init ⟨idleMem, rfl⟩) hy
  intro hall
  rcases hall y hreach 20 hcur with hc | ⟨l, n, hl, hn, he⟩
  · rw [hidle] at hc
    cases hc
  · -- the pool is one node long
    have hlength := hl.size_eq
    rw [hsize] at hlength
    obtain ⟨m, rfl⟩ := List.length_eq_one_iff.mp hlength.symm
    have hm := hl.head_eq
    rw [hhead] at hm
    obtain rfl : 31 = m := Option.some.inj hm
    obtain rfl : n = 31 := List.mem_singleton.mp hn
    rw [helem] at he
    cases he

end ShrekOS
