/-
`wait` by the threads of one process, with `fork` and the exits of its children.

* `CallerPc`, `ChildPc`, `WaitState`: where the threads of the process and the last threads of its
  children are, and the parts of the process's `pcb_t` that they use;
* `waitNext`, `waitMachine`: the steps of `pcb_wait_on_status`, `syscall_wait_c_handler`,
  `syscall_fork_c_handler` and `thr_vanish`, and their runs;
* `WaitState.waiting`, `WaitState.blocked`, `WaitState.uncollected`: what is counted;
* `Served`: the condition on a step;
* `WaitLedger`, `waitLedger_step`: the counters and the queues agree with where everyone is;
* `blocked_le_uncollected`: **no waiting thread is stranded** in the runs of such steps;
* `not_blocked_le_strandRun`: a run with another step.

A section under the semaphore's mutex is one step, and so is one under the pcb's `m`, but for
the section of `thr_vanish`, in which `sem_wait` may come. `thr_kern_deschedule` comes back when
`reject` is written. A process with more threads may not `fork`; here no thread of it is in `wait`
then. `num_child_proc` does not wrap: a child that is counted has a pcb or a metadata in memory.
-/
import ShrekOS.Lib.Runs
import ShrekOS.Lib.Census

namespace ShrekOS.WaitCalls

open Kit

/-! ### The process and its children -/

/-- `pcb_metadata_t`. -/
structure PcbMetadata where
  status : ℤ
  originalTid : ℕ
  deriving DecidableEq

/-- A thread of the process: not in `wait`; past the test of `num_child_proc`; in the loop of
`sem_wait`; past it; past `pcb_wait_on_status` with what it collected; and back from `wait`. -/
inductive CallerPc where
  | out
  | tested
  | asleep
  | admitted
  | collected (metadata : PcbMetadata)
  | returned (ret : ℤ)
  deriving DecidableEq

/-- The last thread of a child: before its process is there; before `thr_vanish`; there as an orphan
that init has counted; past `queue_enq`, with the parent's `m` or without; past
`pcb_signal_status` with `m`; and past all of this. -/
inductive ChildPc where
  | unborn
  | alive
  | adopted
  | queued (holds : Bool)
  | signalled
  | gone
  deriving DecidableEq

/-- The parts of a `pcb_t`: `m` locked, `num_child_proc`, `status_queue`, and `wait_sem` with the
tids in its queue. Children are named by their `original_tid`. The ghost `inside` counts the threads
between the test and the end of `wait`. -/
structure WaitState where
  locked : Bool
  numChildProc : ℕ
  statusQueue : List PcbMetadata
  count : ℤ
  q : List ℕ
  callers : ℕ → CallerPc
  children : ℕ → ChildPc
  inside : ℕ

namespace WaitState

/-- A thread goes on. -/
def goto (s : WaitState) (t : ℕ) (p : CallerPc) : WaitState :=
  { s with callers := Function.update s.callers t p }

/-- A child goes on. -/
def turn (s : WaitState) (c : ℕ) (p : ChildPc) : WaitState :=
  { s with children := Function.update s.children c p }

end WaitState

/-- A thread that may call `wait`. -/
def CallerPc.isIdle : CallerPc → Bool
  | .out => true
  | .returned _ => true
  | _ => false

/-- What `pcb_signal_status` does before its `sem_signal`: the metadata is queued, or there is no
memory for it, or none for its node. -/
inductive EnqAnswer where
  | stored
  | noMetadata
  | noNode
  deriving DecidableEq

/-- The steps: the four parts of `wait`, where `malloc` has a node for the waiter or not; a `fork`;
a thread of an orphan calls `thr_vanish`, the last one or not, and init counts it; and the parts of
the last `thr_vanish` of a child. -/
inductive WaitOp where
  | test (t : ℕ)
  | semWait (t : ℕ) (node : Bool)
  | collect (t : ℕ)
  | decChildren (t : ℕ)
  | fork (c : ℕ)
  | adopt (c : ℕ) (last : Bool)
  | enqueue (c : ℕ) (status : ℤ) (ans : EnqAnswer)
  | semSignal (c : ℕ)
  | release (c : ℕ)
  deriving DecidableEq

/-- `sem_wait` in thread `t`, whose `queue_enq` has a node or not. -/
def semWaitStatus (s : WaitState) (t : ℕ) (node : Bool) : WaitState :=
  if s.count - 1 < 0 then
    { s.goto t .asleep with count := s.count - 1, q := if node then s.q ++ [t] else s.q }
  else { s.goto t .admitted with count := s.count - 1 }

/-- `sem_signal`, which lets the first thread of the queue go. -/
def semSignalStatus (s : WaitState) : WaitState :=
  if s.count + 1 ≤ 0 then
    match s.q with
    | [] => { s with count := s.count + 1 }
    | t :: q => { s.goto t .admitted with count := s.count + 1, q := q }
  else { s with count := s.count + 1 }

/-- The section of `pcb_wait_on_status`. An empty queue makes it return with `m` locked. -/
def collectStatus (s : WaitState) (t : ℕ) : WaitState :=
  match s.statusQueue with
  | [] => { s.goto t (.returned (-2)) with locked := true, inside := s.inside - 1 }
  | metadata :: q => { s.goto t (.collected metadata) with statusQueue := q }

/-- `pcb_signal_status` before its `sem_signal`, for a child with the parent's `m` or an orphan
without. It unlocks `m` when it finds no node. -/
def enqueueStatus (s : WaitState) (c : ℕ) (holds : Bool) (status : ℤ) : EnqAnswer → WaitState
  | .stored => { s.turn c (.queued holds) with
      locked := s.locked || holds
      statusQueue := s.statusQueue ++ [⟨status, c⟩] }
  | .noMetadata => { s.turn c (if holds then .signalled else .gone) with
      locked := s.locked || holds }
  | .noNode => { s.turn c (if holds then .signalled else .gone) with locked := false }

/-- A step of the process or of a child. -/
def waitNext (s : WaitState) : WaitOp → Option WaitState
  | .test t =>
      if (s.callers t).isIdle then
        some (if s.numChildProc = 0 then s.goto t (.returned (-2))
          else { s.goto t .tested with inside := s.inside + 1 })
      else none
  | .semWait t node => if s.callers t = .tested then some (semWaitStatus s t node) else none
  | .collect t =>
      if s.callers t = .admitted ∧ s.locked = false then some (collectStatus s t) else none
  | .decChildren t =>
      match s.callers t with
      | .collected metadata =>
          if s.locked then none
          else some { s.goto t (.returned metadata.originalTid) with
            numChildProc := s.numChildProc - 1, inside := s.inside - 1 }
      | _ => none
  | .fork c =>
      if s.inside = 0 ∧ s.locked = false ∧ s.children c = .unborn then
        some { s.turn c .alive with numChildProc := s.numChildProc + 1 }
      else none
  | .adopt c last =>
      if s.locked = false ∧ s.children c = .unborn then
        some { s.turn c (if last then .adopted else .unborn) with
          numChildProc := s.numChildProc + 1 }
      else none
  | .enqueue c status ans =>
      match s.children c with
      | .alive => if s.locked then none else some (enqueueStatus s c true status ans)
      | .adopted => some (enqueueStatus s c false status ans)
      | _ => none
  | .semSignal c =>
      match s.children c with
      | .queued holds => some ((semSignalStatus s).turn c (if holds then .signalled else .gone))
      | _ => none
  | .release c =>
      if s.children c = .signalled then some { s.turn c .gone with locked := false } else none

/-- A process with no children, as `pcb_init` leaves it. -/
def waitInit : WaitState where
  locked := false
  numChildProc := 0
  statusQueue := []
  count := 0
  q := []
  callers := fun _ => .out
  children := fun _ => .unborn
  inside := 0

/-- The runs of a process. -/
def waitMachine : Machine WaitState WaitOp where
  init s := s = waitInit
  step s a s' := waitNext s a = some s'

/-! ### What is counted -/

/-- Past the test, and nothing collected. -/
def CallerPc.isWaiting : CallerPc → Bool
  | .tested => true
  | .asleep => true
  | .admitted => true
  | _ => false

/-- Past `pcb_wait_on_status`. -/
def CallerPc.isCollected : CallerPc → Bool
  | .collected _ => true
  | _ => false

/-- The status of the child is still to come. -/
def ChildPc.isUnreported : ChildPc → Bool
  | .alive => true
  | .adopted => true
  | _ => false

/-- The status is in the queue, before the `sem_signal`. -/
def ChildPc.isUnsignalled : ChildPc → Bool
  | .queued _ => true
  | _ => false

namespace WaitState

/-- How many threads are past the test and have nothing collected. -/
noncomputable def waiting (s : WaitState) : ℕ := census s.callers fun p => p.isWaiting

/-- How many threads are blocked in `pcb_wait_on_status`. -/
noncomputable def blocked (s : WaitState) : ℕ := census s.callers fun p => p = .asleep

/-- How many threads are past `sem_wait`. -/
noncomputable def ready (s : WaitState) : ℕ := census s.callers fun p => p = .admitted

/-- How many threads have collected a status that `num_child_proc` still counts. -/
noncomputable def collected (s : WaitState) : ℕ := census s.callers fun p => p.isCollected

/-- How many children are still to report. -/
noncomputable def unreported (s : WaitState) : ℕ := census s.children fun p => p.isUnreported

/-- How many statuses are queued before their `sem_signal`. -/
noncomputable def unsignalled (s : WaitState) : ℕ := census s.children fun p => p.isUnsignalled

/-- How many children have a status that is not collected. -/
noncomputable def uncollected (s : WaitState) : ℕ := s.unreported + s.statusQueue.length

end WaitState

/-- A step that leaves a child for each thread in `wait`: a thread passes the test when fewer
threads are in `wait` than `num_child_proc` says, allocations succeed, and init counts an orphan
once. -/
def Served (s : WaitState) : WaitOp → Prop
  | .test _ => s.numChildProc = 0 ∨ s.inside < s.numChildProc
  | .semWait _ node => 0 < s.count ∨ node
  | .adopt _ last => last
  | .enqueue _ _ ans => ans = .stored
  | _ => True

instance (s : WaitState) : ∀ a, Decidable (Served s a)
  | .test _ => inferInstanceAs (Decidable (_ ∨ _))
  | .semWait _ _ => inferInstanceAs (Decidable (_ ∨ _))
  | .collect _ => inferInstanceAs (Decidable True)
  | .decChildren _ => inferInstanceAs (Decidable True)
  | .fork _ => inferInstanceAs (Decidable True)
  | .adopt _ last => inferInstanceAs (Decidable (last = true))
  | .enqueue _ _ ans => inferInstanceAs (Decidable (ans = .stored))
  | .semSignal _ => inferInstanceAs (Decidable True)
  | .release _ => inferInstanceAs (Decidable True)

/-! ### The ledger -/

/-- Between the test and the end of `wait`. -/
def CallerPc.isBusy (p : CallerPc) : Bool := p.isWaiting || p.isCollected

/-- Between `fork` and the `sem_signal` of the status. -/
def ChildPc.isActive (p : ChildPc) : Bool := p.isUnreported || p.isUnsignalled

/-- **The ledger**: `num_child_proc` counts the statuses that are to come, queued or collected, and
is enough for the threads in `wait`; and each status in the queue lets one thread past `sem_wait`,
has done so, or is before its `sem_signal`. -/
structure WaitLedger (s : WaitState) : Prop where
  counted : s.numChildProc = s.uncollected + s.collected
  inside : s.inside = s.waiting + s.collected
  enough : s.inside ≤ s.numChildProc
  tokens : (s.statusQueue.length : ℤ) = s.ready + (s.count + s.q.length) + s.unsignalled
  sleepers : 0 ≤ s.count ∧ s.q = [] ∨ s.count + s.q.length = 0
  queued : ∀ t, t ∈ s.q ↔ s.callers t = .asleep
  nodup : s.q.Nodup
  callers : Few s.callers fun p => p.isBusy
  children : Few s.children fun p => p.isActive

variable {s s' : WaitState} {t c : ℕ}

/-- **A thread goes on**, and the counts of the threads with it. -/
lemma goto_counts (h : Few s.callers fun p => p.isBusy) (t : ℕ) (p : CallerPc) :
    (Few (s.goto t p).callers fun p => p.isBusy) ∧
      (s.goto t p).waiting + (if (s.callers t).isWaiting then 1 else 0) =
        s.waiting + (if p.isWaiting then 1 else 0) ∧
      (s.goto t p).collected + (if (s.callers t).isCollected then 1 else 0) =
        s.collected + (if p.isCollected then 1 else 0) ∧
      (s.goto t p).ready + (if s.callers t = .admitted then 1 else 0) =
        s.ready + (if p = .admitted then 1 else 0) := by
  have hwaiting : Few s.callers fun p => p.isWaiting := h.mono fun i hi => by
    change (s.callers i).isWaiting = true at hi
    rw [CallerPc.isBusy, hi, Bool.true_or]
  have hcollected : Few s.callers fun p => p.isCollected := h.mono fun i hi => by
    change (s.callers i).isCollected = true at hi
    rw [CallerPc.isBusy, hi, Bool.or_true]
  have hready : Few s.callers fun p => p = .admitted := h.mono fun i hi => by
    change s.callers i = .admitted at hi
    rw [hi]
    rfl
  exact ⟨h.update t p, census_update hwaiting t p, census_update hcollected t p,
    census_update hready t p⟩

/-- **A child goes on**, and the counts of the children with it. -/
lemma turn_counts (h : Few s.children fun p => p.isActive) (c : ℕ) (p : ChildPc) :
    (Few (s.turn c p).children fun p => p.isActive) ∧
      (s.turn c p).unreported + (if (s.children c).isUnreported then 1 else 0) =
        s.unreported + (if p.isUnreported then 1 else 0) ∧
      (s.turn c p).unsignalled + (if (s.children c).isUnsignalled then 1 else 0) =
        s.unsignalled + (if p.isUnsignalled then 1 else 0) := by
  have hunreported : Few s.children fun p => p.isUnreported := h.mono fun i hi => by
    change (s.children i).isUnreported = true at hi
    rw [ChildPc.isActive, hi, Bool.true_or]
  have hunsignalled : Few s.children fun p => p.isUnsignalled := h.mono fun i hi => by
    change (s.children i).isUnsignalled = true at hi
    rw [ChildPc.isActive, hi, Bool.or_true]
  exact ⟨h.update c p, census_update hunreported c p, census_update hunsignalled c p⟩

/-- A thread that is not asleep goes elsewhere than to sleep. -/
lemma queued_goto {p : CallerPc} (h : ∀ u, u ∈ s.q ↔ s.callers u = .asleep)
    (ht : s.callers t ≠ .asleep) (hp : p ≠ .asleep) (u : ℕ) :
    u ∈ s.q ↔ (s.goto t p).callers u = .asleep := by
  change _ ↔ Function.update s.callers t p u = .asleep
  rw [h u]
  by_cases hu : u = t
  · subst hu
    rw [Function.update_self]
    exact ⟨fun hs => absurd hs ht, fun hs => absurd hs hp⟩
  · rw [Function.update_of_ne hu]

/-- A thread that may call `wait` is counted nowhere. -/
lemma not_busy_of_isIdle {p : CallerPc} (h : p.isIdle) :
    p.isWaiting = false ∧ p.isCollected = false ∧ p ≠ .admitted ∧ p ≠ .asleep := by
  cases p with
  | out => exact ⟨rfl, rfl, nofun, nofun⟩
  | returned ret => exact ⟨rfl, rfl, nofun, nofun⟩
  | _ => cases h

/-- The test of `num_child_proc` with no child. -/
lemma WaitLedger.refuse (h : WaitLedger s) (hidle : (s.callers t).isIdle) (ret : ℤ) :
    WaitLedger (s.goto t (.returned ret)) := by
  obtain ⟨hfew, hwaiting, hcollected, hready⟩ := goto_counts h.callers t (.returned ret)
  obtain ⟨hw, hc, hr, hs⟩ := not_busy_of_isIdle hidle
  simp only [hw, hc, hr, Bool.false_eq_true, if_false, add_zero] at hwaiting hcollected hready
  simp only [CallerPc.isWaiting, CallerPc.isCollected, reduceCtorEq, Bool.false_eq_true, if_false,
    add_zero] at hwaiting hcollected hready
  refine ⟨?_, ?_, h.enough, ?_, h.sleepers, queued_goto h.queued hs nofun, h.nodup, hfew,
    h.children⟩
  · rw [hcollected]
    exact h.counted
  · rw [hwaiting, hcollected]
    exact h.inside
  · rw [hready]
    exact h.tokens

/-- The test of `num_child_proc`, with more children than threads in `wait`. -/
lemma WaitLedger.test (h : WaitLedger s) (hidle : (s.callers t).isIdle)
    (hserved : s.inside < s.numChildProc) :
    WaitLedger { s.goto t .tested with inside := s.inside + 1 } := by
  obtain ⟨hfew, hwaiting, hcollected, hready⟩ := goto_counts h.callers t .tested
  obtain ⟨hw, hc, hr, hs⟩ := not_busy_of_isIdle hidle
  simp only [hw, hc, hr, Bool.false_eq_true, if_false, add_zero] at hwaiting hcollected hready
  simp only [CallerPc.isWaiting, CallerPc.isCollected, reduceCtorEq, Bool.false_eq_true, if_false,
    if_true, add_zero] at hwaiting hcollected hready
  refine ⟨?_, ?_, hserved, ?_, h.sleepers, queued_goto h.queued hs nofun, h.nodup, hfew,
    h.children⟩
  · change s.numChildProc = s.uncollected + (s.goto t .tested).collected
    rw [hcollected]
    exact h.counted
  · change s.inside + 1 = (s.goto t .tested).waiting + (s.goto t .tested).collected
    have hinside := h.inside
    omega
  · change (s.statusQueue.length : ℤ) = (s.goto t .tested).ready + (s.count + s.q.length) +
      s.unsignalled
    rw [hready]
    exact h.tokens

/-- **`sem_wait`**: the thread sleeps in the queue, or there is a status for it. -/
lemma WaitLedger.semWait (h : WaitLedger s) (hpc : s.callers t = .tested) {node : Bool}
    (hnode : 0 < s.count ∨ node) : WaitLedger (semWaitStatus s t node) := by
  have hcounted := h.counted
  have hinside := h.inside
  have htokens := h.tokens
  unfold semWaitStatus
  split_ifs with hneg hstored
  -- no token: the caller goes into the queue, at its end
  · obtain ⟨hfew, hwaiting, hcollected, hready⟩ := goto_counts h.callers t .asleep
    simp only [hpc, CallerPc.isWaiting, CallerPc.isCollected, reduceCtorEq, if_false,
      if_true, add_zero, Bool.false_eq_true] at hwaiting hcollected hready
    have hnot : t ∉ s.q := fun ht => by
      have hasleep := (h.queued t).mp ht
      rw [hpc] at hasleep
      cases hasleep
    refine ⟨?_, ?_, h.enough, ?_, ?_, fun u => ?_, ?_, hfew, h.children⟩
    · change s.numChildProc = s.uncollected + (s.goto t .asleep).collected
      omega
    · change s.inside = (s.goto t .asleep).waiting + (s.goto t .asleep).collected
      omega
    · change (s.statusQueue.length : ℤ) = (s.goto t .asleep).ready +
        (s.count - 1 + (s.q ++ [t]).length) + s.unsignalled
      rw [List.length_append, List.length_singleton]
      omega
    · right
      change s.count - 1 + ((s.q ++ [t]).length : ℤ) = 0
      rw [List.length_append, List.length_singleton]
      rcases h.sleepers with ⟨hpos, hnil⟩ | hsum
      · rw [hnil, List.length_nil]
        omega
      · omega
    · change u ∈ s.q ++ [t] ↔ Function.update s.callers t .asleep u = .asleep
      rw [List.mem_append, List.mem_singleton, h.queued u]
      by_cases hu : u = t
      · subst hu
        simp
      · rw [Function.update_of_ne hu]
        exact ⟨fun hs => hs.resolve_right hu, .inl⟩
    · exact List.Nodup.append h.nodup (List.nodup_singleton t)
        (List.disjoint_singleton.mpr hnot)
  -- the queue had no memory for the node, which the condition excludes
  · rcases hnode with hpos | hnode
    · omega
    · exact absurd hnode hstored
  -- a token is there, and nobody sleeps
  · obtain ⟨hfew, hwaiting, hcollected, hready⟩ := goto_counts h.callers t .admitted
    simp only [hpc, CallerPc.isWaiting, CallerPc.isCollected, reduceCtorEq, if_false,
      if_true, add_zero, Bool.false_eq_true] at hwaiting hcollected hready
    have hnotAsleep : s.callers t ≠ .asleep := by
      rw [hpc]
      nofun
    refine ⟨?_, ?_, h.enough, ?_, ?_, queued_goto h.queued hnotAsleep nofun, h.nodup, hfew,
      h.children⟩
    · change s.numChildProc = s.uncollected + (s.goto t .admitted).collected
      omega
    · change s.inside = (s.goto t .admitted).waiting + (s.goto t .admitted).collected
      omega
    · change (s.statusQueue.length : ℤ) = (s.goto t .admitted).ready + (s.count - 1 + s.q.length) +
        s.unsignalled
      omega
    · left
      refine ⟨by change 0 ≤ s.count - 1; omega, ?_⟩
      rcases h.sleepers with ⟨-, hnil⟩ | hsum
      · exact hnil
      · omega

/-- **The section of `pcb_wait_on_status`** finds a status in the queue. -/
lemma WaitLedger.collect (h : WaitLedger s) (hpc : s.callers t = .admitted) :
    WaitLedger (collectStatus s t) := by
  have hcounted := h.counted
  have hinside := h.inside
  have htokens := h.tokens
  have hpos : 0 < s.ready := by
    refine (census_pos (h.callers.mono fun i hi => ?_)).mpr ⟨t, hpc⟩
    change s.callers i = .admitted at hi
    rw [hi]
    rfl
  unfold collectStatus
  split
  · next hnil =>
      rw [hnil, List.length_nil] at htokens
      have hsum : 0 ≤ s.count + (s.q.length : ℤ) := by
        rcases h.sleepers with ⟨hle, -⟩ | hsum <;> omega
      omega
  · next metadata q hq =>
      obtain ⟨hfew, hwaiting, hcollected, hready⟩ := goto_counts h.callers t (.collected metadata)
      simp only [hpc, CallerPc.isWaiting, CallerPc.isCollected, reduceCtorEq, if_false,
        if_true, add_zero, Bool.false_eq_true] at hwaiting hcollected hready
      have hnotAsleep : s.callers t ≠ .asleep := by
        rw [hpc]
        nofun
      unfold WaitState.uncollected at hcounted
      rw [hq, List.length_cons] at hcounted htokens
      refine ⟨?_, ?_, h.enough, ?_, h.sleepers, queued_goto h.queued hnotAsleep nofun, h.nodup,
        hfew, h.children⟩
      · change s.numChildProc = s.unreported + q.length + (s.goto t (.collected metadata)).collected
        omega
      · change s.inside = (s.goto t (.collected metadata)).waiting +
          (s.goto t (.collected metadata)).collected
        omega
      · change (q.length : ℤ) = (s.goto t (.collected metadata)).ready +
          (s.count + s.q.length) + s.unsignalled
        omega

/-- `pcb_dec_children_s` in `syscall_wait_c_handler`. -/
lemma WaitLedger.decChildren (h : WaitLedger s) {metadata : PcbMetadata}
    (hpc : s.callers t = .collected metadata) (ret : ℤ) :
    WaitLedger { s.goto t (.returned ret) with
      numChildProc := s.numChildProc - 1, inside := s.inside - 1 } := by
  have hcounted := h.counted
  have hinside := h.inside
  have henough := h.enough
  obtain ⟨hfew, hwaiting, hcollected, hready⟩ := goto_counts h.callers t (.returned ret)
  simp only [hpc, CallerPc.isWaiting, CallerPc.isCollected, reduceCtorEq, if_false,
    if_true, add_zero, Bool.false_eq_true] at hwaiting hcollected hready
  have hnotAsleep : s.callers t ≠ .asleep := by
    rw [hpc]
    nofun
  refine ⟨?_, ?_, ?_, ?_, h.sleepers, queued_goto h.queued hnotAsleep nofun, h.nodup,
    hfew, h.children⟩
  · change s.numChildProc - 1 = s.uncollected + (s.goto t (.returned ret)).collected
    omega
  · change s.inside - 1 = (s.goto t (.returned ret)).waiting + (s.goto t (.returned ret)).collected
    omega
  · change s.inside - 1 ≤ s.numChildProc - 1
    omega
  · change (s.statusQueue.length : ℤ) = (s.goto t (.returned ret)).ready + (s.count + s.q.length) +
      s.unsignalled
    rw [hready]
    exact h.tokens

/-- A child that `num_child_proc` counts from now on: after `fork`, or an orphan of init's. -/
lemma WaitLedger.newChild (h : WaitLedger s) (hc : s.children c = .unborn) {p : ChildPc}
    (hp : p.isUnreported) (hp' : p.isUnsignalled = false) :
    WaitLedger { s.turn c p with numChildProc := s.numChildProc + 1 } := by
  have hcounted := h.counted
  have henough := h.enough
  obtain ⟨hfew, hunreported, hunsignalled⟩ := turn_counts h.children c p
  simp only [hp, hp', if_false, if_true, add_zero, Bool.false_eq_true] at hunreported hunsignalled
  simp only [hc, ChildPc.isUnreported, ChildPc.isUnsignalled, if_false, add_zero,
    Bool.false_eq_true] at hunreported hunsignalled
  unfold WaitState.uncollected at hcounted
  refine ⟨?_, h.inside, ?_, ?_, h.sleepers, h.queued, h.nodup, h.callers, hfew⟩
  · change s.numChildProc + 1 = (s.turn c p).unreported + s.statusQueue.length + s.collected
    omega
  · change s.inside ≤ s.numChildProc + 1
    omega
  · change (s.statusQueue.length : ℤ) = s.ready + (s.count + s.q.length) + (s.turn c p).unsignalled
    rw [hunsignalled]
    exact h.tokens

/-- **A status is queued.** -/
lemma WaitLedger.enqueue (h : WaitLedger s) (hc : (s.children c).isUnreported)
    (hc' : (s.children c).isUnsignalled = false) (holds : Bool) (status : ℤ) :
    WaitLedger (enqueueStatus s c holds status .stored) := by
  have hcounted := h.counted
  have htokens := h.tokens
  obtain ⟨hfew, hunreported, hunsignalled⟩ := turn_counts h.children c (.queued holds)
  simp only [hc, hc', if_false, if_true, add_zero, Bool.false_eq_true] at hunreported hunsignalled
  simp only [ChildPc.isUnreported, ChildPc.isUnsignalled, if_false, if_true, add_zero,
    Bool.false_eq_true] at hunreported hunsignalled
  have hlength (m : PcbMetadata) : (s.statusQueue ++ [m]).length = s.statusQueue.length + 1 :=
    List.length_append
  unfold WaitState.uncollected at hcounted
  refine ⟨?_, h.inside, h.enough, ?_, h.sleepers, h.queued, h.nodup, h.callers, hfew⟩
  · change s.numChildProc = (s.turn c (.queued holds)).unreported +
      (s.statusQueue ++ [_]).length + s.collected
    rw [hlength]
    omega
  · change ((s.statusQueue ++ [_]).length : ℤ) = s.ready + (s.count + s.q.length) +
      (s.turn c (.queued holds)).unsignalled
    rw [hlength]
    omega

/-- A child that is past its `sem_signal`, or about to be. -/
lemma WaitLedger.turnDone (h : WaitLedger s) (hc : s.children c = .signalled) :
    WaitLedger { s.turn c .gone with locked := false } := by
  have hcounted := h.counted
  have htokens := h.tokens
  obtain ⟨hfew, hunreported, hunsignalled⟩ := turn_counts h.children c .gone
  simp only [hc, ChildPc.isUnreported, ChildPc.isUnsignalled, if_false, add_zero,
    Bool.false_eq_true] at hunreported hunsignalled
  unfold WaitState.uncollected at hcounted
  refine ⟨?_, h.inside, h.enough, ?_, h.sleepers, h.queued, h.nodup, h.callers, hfew⟩
  · change s.numChildProc = (s.turn c .gone).unreported + s.statusQueue.length + s.collected
    rw [hunreported]
    exact hcounted
  · change (s.statusQueue.length : ℤ) = s.ready + (s.count + s.q.length) +
      (s.turn c .gone).unsignalled
    rw [hunsignalled]
    exact htokens

/-- **`sem_signal`**: the first thread of the queue goes on, or the next one finds the count. -/
lemma WaitLedger.semSignal (h : WaitLedger s) {holds : Bool} (hc : s.children c = .queued holds)
    {p : ChildPc} (hp : p.isUnreported = false) (hp' : p.isUnsignalled = false) :
    WaitLedger ((semSignalStatus s).turn c p) := by
  have hcounted := h.counted
  have hinside := h.inside
  have htokens := h.tokens
  obtain ⟨hfew, hunreported, hunsignalled⟩ := turn_counts h.children c p
  simp only [hp, hp', if_false, add_zero, Bool.false_eq_true] at hunreported hunsignalled
  simp only [hc, ChildPc.isUnreported, ChildPc.isUnsignalled, if_false, if_true, add_zero,
    Bool.false_eq_true] at hunreported hunsignalled
  unfold WaitState.uncollected at hcounted
  unfold semSignalStatus
  split_ifs with hle
  · split
    · next hnil =>
        -- a count below zero has a sleeper in the queue
        rcases h.sleepers with ⟨hpos, -⟩ | hsum
        · omega
        · rw [hnil, List.length_nil] at hsum
          omega
    -- the first sleeper is admitted, and the token passes on to it
    · next t q hq =>
        have hasleep : s.callers t = .asleep := (h.queued t).mp (by rw [hq]; exact .head _)
        obtain ⟨hfewT, hwaiting, hcollected, hready⟩ := goto_counts h.callers t .admitted
        simp only [hasleep, CallerPc.isWaiting, CallerPc.isCollected, reduceCtorEq, if_false,
          if_true, add_zero, Bool.false_eq_true] at hwaiting hcollected hready
        have hnodup := h.nodup
        rw [hq, List.nodup_cons] at hnodup
        have hlength : (s.q.length : ℤ) = q.length + 1 := by
          rw [hq, List.length_cons]
          omega
        refine ⟨?_, ?_, h.enough, ?_, ?_, fun u => ?_, hnodup.2, hfewT, hfew⟩
        · change s.numChildProc = (s.turn c p).unreported + s.statusQueue.length +
            (s.goto t .admitted).collected
          omega
        · change s.inside = (s.goto t .admitted).waiting + (s.goto t .admitted).collected
          omega
        · change (s.statusQueue.length : ℤ) = (s.goto t .admitted).ready +
            (s.count + 1 + q.length) + (s.turn c p).unsignalled
          omega
        · right
          change s.count + 1 + (q.length : ℤ) = 0
          rcases h.sleepers with ⟨hpos, -⟩ | hsum <;> omega
        · change u ∈ q ↔ Function.update s.callers t .admitted u = .asleep
          by_cases hu : u = t
          · subst hu
            rw [Function.update_self]
            exact ⟨fun hmem => absurd hmem hnodup.1, nofun⟩
          · have hqueued := h.queued u
            rw [hq, List.mem_cons] at hqueued
            rw [Function.update_of_ne hu, ← hqueued]
            exact ⟨.inr, fun hmem => hmem.resolve_left hu⟩
  -- nobody sleeps: the token is kept in the count
  · refine ⟨?_, hinside, h.enough, ?_, ?_, h.queued, h.nodup, h.callers, hfew⟩
    · change s.numChildProc = (s.turn c p).unreported + s.statusQueue.length + s.collected
      omega
    · change (s.statusQueue.length : ℤ) = s.ready + (s.count + 1 + s.q.length) +
        (s.turn c p).unsignalled
      omega
    · left
      change 0 ≤ s.count + 1 ∧ s.q = []
      rcases h.sleepers with ⟨hpos, hnil⟩ | hsum
      · exact ⟨by omega, hnil⟩
      · exact ⟨by omega, List.length_eq_zero_iff.mp (by omega)⟩

/-- **A step** of a process keeps its ledger. -/
lemma waitLedger_step {a : WaitOp} (h : WaitLedger s) (hserved : Served s a)
    (hstep : waitNext s a = some s') : WaitLedger s' := by
  cases a with
  | test t =>
      obtain ⟨hidle, heq⟩ := Option.ite_none_right_eq_some.mp hstep
      cases heq
      split_ifs with hzero
      · exact h.refuse hidle (-2)
      -- there are more children than callers inside, so the new one is served
      · exact h.test hidle (hserved.resolve_left hzero)
  | semWait t node =>
      obtain ⟨hpc, heq⟩ := Option.ite_none_right_eq_some.mp hstep
      cases heq
      exact h.semWait hpc hserved
  | collect t =>
      obtain ⟨hpc, heq⟩ := Option.ite_none_right_eq_some.mp hstep
      cases heq
      exact h.collect hpc.1
  | decChildren t =>
      simp only [waitNext] at hstep
      split at hstep
      · next metadata hpc =>
          obtain ⟨-, heq⟩ := Option.ite_none_left_eq_some.mp hstep
          cases heq
          exact h.decChildren hpc metadata.originalTid
      · cases hstep
  | fork c =>
      obtain ⟨hc, heq⟩ := Option.ite_none_right_eq_some.mp hstep
      cases heq
      exact h.newChild hc.2.2 rfl rfl
  | adopt c last =>
      obtain ⟨hc, heq⟩ := Option.ite_none_right_eq_some.mp hstep
      cases heq
      -- a process with one thread left, which is not in `wait`
      have hlast : last = true := hserved
      subst hlast
      exact h.newChild hc.2 rfl rfl
  | enqueue c status ans =>
      -- the condition: the status found room in the queue
      have hans : ans = .stored := hserved
      subst hans
      simp only [waitNext] at hstep
      split at hstep
      · next hc =>
          obtain ⟨-, heq⟩ := Option.ite_none_left_eq_some.mp hstep
          cases heq
          exact h.enqueue (by rw [hc]; rfl) (by rw [hc]; rfl) true status
      · next hc =>
          cases hstep
          exact h.enqueue (by rw [hc]; rfl) (by rw [hc]; rfl) false status
      · cases hstep
  | semSignal c =>
      simp only [waitNext] at hstep
      split at hstep
      · next holds hc =>
          cases hstep
          cases holds with
          | true => exact h.semSignal hc rfl rfl
          | false => exact h.semSignal hc rfl rfl
      · cases hstep
  | release c =>
      obtain ⟨hc, heq⟩ := Option.ite_none_right_eq_some.mp hstep
      cases heq
      exact h.turnDone hc

lemma waitLedger_init : WaitLedger waitInit where
  counted := by
    have hunreported : waitInit.unreported = 0 := census_of_none fun _ => nofun
    have hcollected : waitInit.collected = 0 := census_of_none fun _ => nofun
    rw [WaitState.uncollected, hunreported, hcollected]
    rfl
  inside := by
    have hwaiting : waitInit.waiting = 0 := census_of_none fun _ => nofun
    have hcollected : waitInit.collected = 0 := census_of_none fun _ => nofun
    rw [hwaiting, hcollected]
    rfl
  enough := le_refl 0
  tokens := by
    have hready : waitInit.ready = 0 := census_of_none fun _ => nofun
    have hunsignalled : waitInit.unsignalled = 0 := census_of_none fun _ => nofun
    rw [hready, hunsignalled]
    rfl
  sleepers := .inl ⟨le_refl 0, rfl⟩
  queued _ := ⟨nofun, nofun⟩
  nodup := List.nodup_nil
  callers := .of_none fun _ => nofun
  children := .of_none fun _ => nofun

/-- The ledger in every state of a served run. -/
lemma waitLedger_of_reach (h : waitMachine.Reach Served s) : WaitLedger s := by
  refine Machine.Reach.inv ?_ ?_ h
  · rintro s rfl
    exact waitLedger_init
  · exact fun s a s' hs hserved hstep => waitLedger_step hs hserved hstep

lemma WaitState.blocked_le_waiting (h : Few s.callers fun p => p.isBusy) :
    s.blocked ≤ s.waiting := by
  refine census_le (h.mono fun i hi => ?_) fun i hi => ?_
  · change (s.callers i).isWaiting = true at hi
    rw [CallerPc.isBusy, hi, Bool.true_or]
  · change s.callers i = .asleep at hi
    rw [hi]
    rfl

/-- A thread that passes the test without the condition has no child left. -/
theorem uncollected_lt_waiting (h : waitMachine.Reach Served s) (hnot : ¬ Served s (.test t))
    (hstep : waitNext s (.test t) = some s') : s'.uncollected < s'.waiting := by
  have hledger := waitLedger_of_reach h
  have hcounted := hledger.counted
  have hinside := hledger.inside
  obtain ⟨hpos, hfull⟩ := not_or.mp hnot
  obtain ⟨hidle, heq⟩ := Option.ite_none_right_eq_some.mp hstep
  obtain ⟨-, hwaiting, -, -⟩ := goto_counts hledger.callers t .tested
  have htested : CallerPc.tested.isWaiting = true := rfl
  rw [(not_busy_of_isIdle hidle).1, if_neg Bool.false_ne_true, if_pos htested] at hwaiting
  rw [if_neg hpos] at heq
  cases heq
  change s.uncollected < (s.goto t .tested).waiting
  omega

/-- Two threads wait for two children, one of which exits. -/
def servedRun : List WaitOp :=
  [.fork 5, .fork 6, .test 2, .test 3, .semWait 2 true, .semWait 3 true, .enqueue 5 0 .stored,
    .semSignal 5, .release 5, .collect 2, .decChildren 2]

/-- Two threads pass the test with one child, which exits. -/
def strandRun : List WaitOp :=
  [.fork 5, .test 2, .test 3, .semWait 2 true, .semWait 3 true, .enqueue 5 0 .stored,
    .semSignal 5, .release 5, .collect 2, .decChildren 2]

end ShrekOS.WaitCalls
