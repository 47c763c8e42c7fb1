/-
Runs of the scheduler's operations, and the thread pool along them.

* `WellPooled`: every thread of the table is on the one pool its status names, and the
  pools are well formed lists;
* `Harmless`: a step on which `make_runnable` does not take the wrong pool and a timer
  tick wakes up at most one thread, which runs at once;
* `wellPooled_of_harmless`: **in a run of harmless steps every state is well pooled**;
* `not_wellPooled_of_makeRunnable`: a run that wakes up the running thread while another
  one sleeps.
-/
import ShrekOS.Sched.PoolSteps

namespace ShrekOS

open Kit Kit.Cmd

/-- Each thread of the table is linked in exactly one pool, the one its status names, and
every pool is a well formed doubly linked list whose size field is its length. -/
def Sched.WellPooled (s : Sched) : Prop :=
  ∃ L : Pool → List Ptr,
    (∀ k, IsDList s.nodes.next s.nodes.prev (s.pools k).head (s.pools k).tail (s.pools k).size
      (L k)) ∧
    ∀ tid n, htGet s.threads tid = some n →
      ∃ tcb t, s.Row tid n tcb t ∧ t.tid = tid ∧ ∀ k, n ∈ L k ↔ k = poolOf t.status

/-- The scheduler with a good thread pool: no thread is excepted. -/
def Sched.Good (s : Sched) : Prop := ∃ D : Diary, D.Blank ∧ D.bound = D.clock ∧ s.Pooled D ∅

/-- A good thread pool is well pooled. -/
lemma Sched.Good.wellPooled {s : Sched} (h : s.Good) : s.WellPooled := by
  obtain ⟨D, -, -, ⟨X, hX, L, hL⟩, -⟩ := h
  refine ⟨L, fun k => (hL.lists.isLl k).links, fun tid n hn => ?_⟩
  obtain ⟨tcb, t, hr, htid, -⟩ := hL.rows tid n hn
  refine ⟨tcb, t, hr, htid, fun k => ?_⟩
  rw [hL.mem_iff hr k, home_of_notMem fun hin => hX hin]

/-- The steps that do no harm, in a given state. -/
def Harmless (s : Sched) : SchedOp → Prop
  | .makeRunnable tid => s.MayWake tid
  | .timer _ => s.Quiet
  | .vanish parent reaper =>
      (∀ tid ∈ parent, s.MayWake tid) ∧
        (s.curTcb ≠ some s.idleTcb → ∀ tid ∈ reaper, s.MayWakeAfter parent tid)
  | _ => True

instance (s : Sched) (op : SchedOp) : Decidable (Harmless s op) := by
  cases op <;> unfold Harmless <;> infer_instance

/-- In a quiet state at most one thread is due, and a rotation of the runnable pool brings it
to the head. -/
lemma Sched.Quiet.nextUp {D : Diary} {X : Set Ptr} {s : Sched} {L : Pool → List Ptr}
    (hquiet : s.Quiet) (hL : PoolInv D X s L) (hX : X ⊆ ∅) {due rest : List Ptr}
    (hsplit : L .sleepingPool = due ++ rest) (hdue : ∀ n ∈ due, s.wakeAt n = s.numTicks + 1) :
    s.NextUp ((X ∪ {c | ∃ n ∈ due, s.nodes.e n = some c}) \ ∅) (L .runnablePool ++ due) := by
  rintro c ⟨hin | ⟨n, hn, hnc⟩, -⟩
  · exact absurd (hX hin) (Set.notMem_empty c)
  refine ⟨n, hnc, ?_⟩
  have hsleep := (hL.lists.isLl .sleepingPool).links
  rw [hsplit] at hsleep
  -- the first thread that is due is the only one
  obtain ⟨a, l, rfl⟩ := List.exists_cons_of_ne_nil (List.ne_nil_of_mem hn)
  obtain ⟨hrun, hnext⟩ := hquiet a hsleep.head_eq (hdue a (.head l))
  have hlink : s.nodes.next a = (l ++ rest).head? := by
    have hseg := hsleep.seg.2.1
    rwa [Option.or_none] at hseg
  have hl : l = [] := by
    cases l with
    | nil => rfl
    | cons b l => exact absurd (hdue b (.tail a (.head l))) (hnext b hlink)
  subst hl
  obtain rfl := List.mem_singleton.mp hn
  rw [hL.lists.size_eq] at hrun
  rcases hpool : L .runnablePool with _ | ⟨a, _ | ⟨b, l⟩⟩
  · exact .inl rfl
  · exact .inr ⟨a, rfl⟩
  · rw [hpool] at hrun
    simp at hrun

/-- **A harmless step keeps the thread pool good.** -/
theorem schedStep_good {s : Sched} (h : s.Good) {op : SchedOp} (hop : Harmless s op) :
    wlp (schedStep op) (fun _ s' => s'.Good) s := by
  obtain ⟨D, hblank, hbound, hD⟩ := h
  have hsleep : ∀ P : Prop, P → (∅ : Set Ptr) = ∅ ∧ D.Blank := fun _ _ => ⟨rfl, hblank⟩
  have hdone : ∀ {α : Type} {c : SchedM α}, wlp c (fun _ s' => s'.Pooled D ∅) s →
      wlp (do let _ ← c) (fun _ s' => s'.Good) s := fun hc =>
    (wp_bind ..).mpr (wp_imp hc fun _ s' hs' => ⟨D, hblank, hbound, hs'⟩)
  cases op with
  | addProcess heap => exact hdone (schedulerAddProcess_pooled hD heap)
  | addNewThread heap => exact hdone (schedulerAddNewThread_pooled hD heap)
  | deschedule oldEsp mapped reject =>
      exact hdone (thrDeschedule_pooled hD hblank.ofSleepers oldEsp mapped reject)
  | makeRunnable tid =>
      exact hdone (thrMakeRunnable_pooled hD hblank.ofSleepers hop (hsleep _))
  | sleep oldEsp ticks => exact hdone (thrSleep_pooled hD hblank.ofSleepers oldEsp ticks)
  | yield oldEsp tid => exact hdone (thrYield_pooled hD oldEsp tid)
  | timer oldEsp =>
      obtain ⟨⟨X, hX, L, hL⟩, -⟩ := hD
      have hwoken : wlp (cTimerHandler oldEsp)
          (fun _ s' => s'.Pooled ⟨D.clock + 1, D.clock + 1, fun _ _ _ => False⟩ ∅) s :=
        cTimerHandler_woken hL hbound (fun _ _ _ he => he.elim)
          (fun due rest hsplit hdue => Sched.Quiet.nextUp hop hL hX hsplit hdue) oldEsp
      exact (wp_bind ..).mpr (wp_imp hwoken fun _ s' hs' => ⟨_, fun _ _ _ he => he, rfl, hs'⟩)
  | vanish parent reaper =>
      exact hdone (thrVanish_pooled hD hblank.ofSleepers hop.1 hop.2 (hsleep _))
  | reap => exact wp_imp (tcbPoolReap_pooled hD hblank.ofSleepers) fun _ s' hs' =>
      ⟨D, hblank, hbound, hs'⟩

/-- The scheduler that `scheduler_init` sets up has a good thread pool. -/
lemma schedulerInit_pooled (idle : HeapAnswer) :
    (schedulerInit idle).Pooled ⟨0, 0, fun _ _ _ => False⟩ ∅ := by
  have hget : ∀ tid, htGet (schedulerInit idle).threads tid = none :=
    htGet_htInit tableSize tidHash
  refine ⟨⟨∅, le_rfl, fun _ => [], ⟨fun k => ⟨⟨trivial, List.nodup_nil, rfl, rfl, rfl⟩, by simp⟩,
    by simp⟩, fun tid n hn => ?_, by simp, fun tid _ => hget tid, Nat.one_pos, hget 0, ?_, ?_,
    fun c hc => absurd hc (Set.notMem_empty c), List.Pairwise.nil, rfl, le_rfl, by simp,
    fun _ _ _ he => he.elim⟩, fun c hc => absurd hc (Option.some_ne_none c).symm⟩
  · rw [hget] at hn
    cases hn
  · refine ⟨tcbInit 0 idle, ?_, rfl⟩
    exact Function.update_self idle.tcb (some (tcbInit 0 idle)) fun _ => none
  · exact Function.update_of_ne idle.tcb_ne.symm (some (tcbInit 0 idle)) fun _ => none

/-- A scheduler as `scheduler_init` sets it up is good. -/
lemma good_init (idle : HeapAnswer) : (schedulerInit idle).Good :=
  ⟨_, fun _ _ _ he => he, rfl, schedulerInit_pooled idle⟩

/-- A harmless step of the machine keeps the thread pool good. -/
lemma schedNext_good {s s' : Sched} {op : SchedOp} (hs : s.Good) (hop : Harmless s op)
    (hstep : schedNext s op = some s') : s'.Good := by
  have hpost := schedStep_good hs hop
  unfold schedNext at hstep
  split at hstep
  · next hrun =>
    cases hstep
    have hgood := wp_ok hpost hrun
    exact hgood
  · cases hstep

/-- A run of harmless steps keeps the thread pool good. -/
lemma good_of_harmless {s : Sched} (h : schedMachine.Reach Harmless s) : s.Good := by
  refine Machine.Reach.inv ?_ ?_ h
  · rintro s ⟨idle, rfl⟩
    exact good_init idle
  · exact fun s op s' hs hop hstep => schedNext_good hs hop hstep

/-- **In a run of harmless steps, of any length, every state is well pooled.** -/
theorem wellPooled_of_harmless {s : Sched} (h : schedMachine.Reach Harmless s) : s.WellPooled :=
  (good_of_harmless h).wellPooled

/-- The step function steps the machine. -/
lemma schedNext_sound (s : Sched) (op : SchedOp) (s' : Sched) (h : schedNext s op = some s') :
    schedMachine.step s op s' := h

/-! ### Runs -/

/-- The memory of the idle thread. -/
def idleMem : HeapAnswer := .nth 0

/-- Two threads start and the second one runs. It sleeps, is woken up by the timer, and sleeps
again; the first one wakes it up and waits, until the second one wakes it up by vanishing. -/
def calmRun : List SchedOp :=
  [.addProcess (some (.nth 1)),
    .addProcess (some (.nth 2)),
    .timer 0x100, .addNewThread none, .sleep 0x200 1, .timer 0x300, .sleep 0x400 100,
    .makeRunnable 2, .deschedule 0x500 true 0, .vanish (some 1) none, .reap]

/-- The harmless run ends in a state that is well pooled, with the first thread running. -/
theorem wellPooled_of_harmless_calmRun :
    ∃ s, Machine.replay (Machine.guarded Harmless schedNext) (schedulerInit idleMem) calmRun =
      some s ∧ s.curTcb = some 20 ∧ s.WellPooled := by
  have hrun : (Machine.replay (Machine.guarded Harmless schedNext) (schedulerInit idleMem)
      calmRun).map Sched.curTcb = some (some 20) := by decide +kernel
  rw [Option.map_eq_some_iff] at hrun
  obtain ⟨s, hs, hcur⟩ := hrun
  refine ⟨s, hs, hcur, wellPooled_of_harmless ?_⟩
  exact Machine.reach_of_guarded schedNext_sound calmRun (.init ⟨idleMem, rfl⟩) hs

/-- Two threads start, the second one sleeps and the first one makes itself runnable. -/
def wakeSelfRun : List SchedOp :=
  [.addProcess (some (.nth 1)),
    .addProcess (some (.nth 2)),
    .timer 0x100, .sleep 0x200 100, .makeRunnable 1]

/-- **A run that is not well pooled**: the sleeping pool has a head and size 0. -/
theorem not_wellPooled_of_makeRunnable : ∃ s, schedMachine.Reachable s ∧ ¬ s.WellPooled := by
  have hrun : (Machine.replay schedNext (schedulerInit idleMem) wakeSelfRun).map
      (fun s => ((s.pools .sleepingPool).head, (s.pools .sleepingPool).size)) =
        some (some 31, 0) := by decide +kernel
  rw [Option.map_eq_some_iff] at hrun
  obtain ⟨s, hs, heq⟩ := hrun
  obtain ⟨hhead, hsize⟩ := Prod.mk.inj heq
  refine ⟨s, ?_, ?_⟩
  · exact Machine.reach_of_replay schedNext_sound wakeSelfRun (fun _ _ _ => trivial)
      (.init ⟨idleMem, rfl⟩) hs
  · rintro ⟨L, hL, -⟩
    have hl := hL .sleepingPool
    rw [hl.size_eq, List.length_eq_zero_iff] at hsize
    rw [hl.head_eq, hsize] at hhead
    cases hhead

end ShrekOS
