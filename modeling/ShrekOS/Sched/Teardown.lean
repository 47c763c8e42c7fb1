/-
The teardown of processes: the steps of `fork`, `wait`, `vanish` and of the reaper, interleaved.

* `Phase`, `Cell`, `ReaperPc`, `Procs`: where the threads are, the `pcb_t`s, and the reaper;
* `procsNext`, `procsMachine`: the steps and their runs;
* `Procs.view`, `view_step`: the threads and their pcbs as members and the objects that count them;
* `LastAlone`: the condition on a step, that the last thread of a process leaves `num_threads` when
  the reaper is past all others; `Joined`: every thread that `num_threads` counts comes;
* `destroyed_once`: **a pcb is destroyed once, when no other tcb refers to it**, in such runs;
* `not_destroyed_once_twoZombies`: a run with two zombies of one process.

A section under a pcb's `m` or under `sched_lock` is one step, and so are `fork` and `thread_fork`,
with how far they come. A `thread_fork` that fails late leaves `num_threads` one too high.
`thr_vanish` holds the parent's `m` from `enter` to `report`. When the parent has been freed since
it was looked up, nobody sees what `thr_vanish` does to it; the reaper reads what the memory has
then.
-/
import ShrekOS.Lib.Reaper
import ShrekOS.Sched.ProcTree

namespace ShrekOS.Teardown

open Kit
open WaitCalls (EnqAnswer)
open Processes

/-! ### Processes and threads -/

/-- A tid: not given out; a thread of a process that runs, or is in `wait` past the test, past
`sem_wait`, or with a status; one in `thr_vanish`, which knows where to report, has the parent's
`m` or has told init, is past `pcb_dec_threads_s`, and has reported; a zombie; one that the reaper
has removed; and one whose tcb is freed. -/
inductive Phase where
  | unborn
  | running (pid : ℤ)
  | tested (pid : ℤ)
  | admitted (pid : ℤ)
  | collected (pid : ℤ) (metadata : PcbMetadata)
  | found (pid target : ℤ) (parent : Bool)
  | entered (pid target : ℤ) (parent : Bool)
  | left (pid target : ℤ) (parent last : Bool)
  | reported (pid : ℤ)
  | zombie (pid : ℤ)
  | removed (pid : ℤ)
  | reaped
  deriving DecidableEq

/-- A `pcb_t` with its mutex, whether the `processes` table has it, and how often it has been
destroyed and freed. -/
structure Cell where
  pcb : Processes.Pcb
  locked : Bool
  listed : Bool
  destroyed : ℕ
  deriving DecidableEq

/-- The pcbs by their pids, the threads, the zombie pool, the reaper, and the next pid and tid. The
ghosts `taken` and `exits` are what the calls of `wait` have collected, and what the last threads
have reported. -/
structure Procs where
  cells : ℤ → Option Cell
  phases : ℕ → Phase
  zombiePool : List ℕ
  reaper : Hand ℕ
  nextPid : ℤ
  nextTid : ℕ
  taken : List PcbMetadata
  exits : ℤ → Option PcbMetadata

namespace Cell

/-- The pcb changes. -/
def on (f : Processes.Pcb → Processes.Pcb) (c : Cell) : Cell := { c with pcb := f c.pcb }

/-- `mutex_lock` or `mutex_unlock` of `m`. -/
def setLocked (b : Bool) (c : Cell) : Cell := { c with locked := b }

/-- `num_threads`, as the reaper reads it: freed memory has anything. -/
def readThreads (c : Cell) (stale : ℤ) : ℤ := if c.destroyed = 0 then c.pcb.numThreads else stale

end Cell

namespace Procs

/-- A pcb that is not freed. -/
def live (s : Procs) (p : ℤ) : Option Cell :=
  match s.cells p with
  | some c => if c.destroyed = 0 then some c else none
  | none => none

/-- A thread goes on. -/
def goto (s : Procs) (t : ℕ) (ph : Phase) : Procs :=
  { s with phases := Function.update s.phases t ph }

/-- A pcb changes. -/
def put (s : Procs) (p : ℤ) (c : Cell) : Procs :=
  { s with cells := Function.update s.cells p (some c) }

end Procs

/-! ### The steps -/

/-- The steps: `fork` and `thread_fork`; the parts of `wait`; those of `thr_vanish`; and those of
`tcb_pool_reap`. -/
inductive ProcsOp where
  | fork (t : ℕ) (ans : ForkAnswer)
  | threadFork (t : ℕ) (ans : ThreadForkAnswer)
  | test (t : ℕ)
  | semWait (t : ℕ)
  | collect (t : ℕ)
  | decChildren (t : ℕ)
  | lookup (t : ℕ)
  | enter (t : ℕ)
  | decThreads (t : ℕ)
  | report (t : ℕ) (status : ℤ) (ans : EnqAnswer)
  | makeZombie (t : ℕ)
  | remove (stale : ℤ)
  | retest (stale : ℤ)
  | destroy
  | release
  deriving DecidableEq

/-- `syscall_fork_c_handler`, in a process with one thread. -/
def fork (s : Procs) (t : ℕ) (ans : ForkAnswer) : Option Procs :=
  match s.phases t with
  | .running pid => (s.live pid).bind fun c =>
      if c.pcb.numThreads ≤ 1 ∧ c.locked = false then
        match ans with
        | .noCopy => some s
        | .noTcb => some { s with nextPid := s.nextPid + 1, nextTid := s.nextTid + 1 }
        | .made =>
            some { ((s.put pid (c.on pcbIncChildren)).put s.nextPid
                { pcb := pcbIncThreads { Pcb.init with ppid := pid, originalTid := s.nextTid }
                  locked := false, listed := true, destroyed := 0 }).goto s.nextTid
                  (.running s.nextPid) with
              nextPid := s.nextPid + 1, nextTid := s.nextTid + 1 }
      else none
  | _ => none

/-- `scheduler_add_new_thread`. `pcb_inc_threads_s` comes before the nodes are allocated, and is not
taken back. -/
def threadFork (s : Procs) (t : ℕ) (ans : ThreadForkAnswer) : Option Procs :=
  match s.phases t with
  | .running pid => (s.live pid).bind fun c =>
      if c.locked = false then
        match ans with
        | .noTcb => some { s with nextTid := s.nextTid + 1 }
        | .noNode => some { s.put pid (c.on pcbIncThreads) with nextTid := s.nextTid + 1 }
        | .made =>
            some { (s.put pid (c.on pcbIncThreads)).goto s.nextTid (.running pid) with
              nextTid := s.nextTid + 1 }
      else none
  | _ => none

/-- The test of `num_child_proc`. A process without children does not wait. -/
def testChildren (s : Procs) (t : ℕ) : Option Procs :=
  match s.phases t with
  | .running pid => (s.live pid).map fun c =>
      if c.pcb.numChildProc = 0 then s else s.goto t (.tested pid)
  | _ => none

/-- `sem_wait` of `wait_sem`, which goes through when there is a unit. -/
def semWait (s : Procs) (t : ℕ) : Option Procs :=
  match s.phases t with
  | .tested pid => (s.live pid).bind fun c =>
      if 0 < c.pcb.waitSem then
        some ((s.put pid (c.on fun pcb => { pcb with waitSem := pcb.waitSem - 1 })).goto t
          (.admitted pid))
      else none
  | _ => none

/-- The section of `pcb_wait_on_status`. With nothing in the queue it returns with `m` locked. -/
def collect (s : Procs) (t : ℕ) : Option Procs :=
  match s.phases t with
  | .admitted pid => (s.live pid).bind fun c =>
      if c.locked = false then
        match c.pcb.statusQueue with
        | [] => some ((s.put pid (c.setLocked true)).goto t (.running pid))
        | metadata :: q =>
            some { (s.put pid (c.on fun pcb => { pcb with statusQueue := q })).goto t
                (.collected pid metadata) with
              taken := s.taken ++ [metadata] }
      else none
  | _ => none

/-- `pcb_dec_children_s`, and the return from `wait`. -/
def decChildren (s : Procs) (t : ℕ) : Option Procs :=
  match s.phases t with
  | .collected pid _ => (s.live pid).bind fun c =>
      if c.locked = false then
        some ((s.put pid (c.on pcbDecChildren)).goto t (.running pid))
      else none
  | _ => none

/-- `scheduler_get_pcb_by_pid` of the parent, or `scheduler_get_init_pcb`. -/
def lookup (s : Procs) (t : ℕ) : Option Procs :=
  match s.phases t with
  | .running pid => (s.live pid).map fun c =>
      match s.cells c.pcb.ppid with
      | some parent =>
          if parent.listed then s.goto t (.found pid c.pcb.ppid true)
          else s.goto t (.found pid initPid false)
      | none => s.goto t (.found pid initPid false)
  | _ => none

/-- `mutex_lock` of the parent, or `pcb_inc_children_s` of init. -/
def enter (s : Procs) (t : ℕ) : Option Procs :=
  match s.phases t with
  | .found pid target parent => (s.cells target).bind fun c =>
      if c.destroyed = 0 then
        if c.locked = false then
          some ((s.put target (if parent then c.setLocked true else c.on pcbIncChildren)).goto t
            (.entered pid target parent))
        else none
      else some (s.goto t (.entered pid target parent))
  | _ => none

/-- `pcb_dec_threads_s`. -/
def decThreads (s : Procs) (t : ℕ) : Option Procs :=
  match s.phases t with
  | .entered pid target parent => (s.live pid).bind fun c =>
      if c.locked = false then
        some ((s.put pid (c.on pcbDecThreads)).goto t
          (.left pid target parent (c.pcb.numThreads - 1 = 0)))
      else none
  | _ => none

/-- `pcb_signal_status` by the last thread, which unlocks `m` when `queue_enq` has no node; and
`mutex_unlock` of the parent. The `original_tid` has been read before. -/
def report (s : Procs) (t : ℕ) (status : ℤ) (ans : EnqAnswer) : Option Procs :=
  match s.phases t with
  | .left pid target parent last =>
      (s.cells target).bind fun c => (s.cells pid).map fun own =>
        if last then
          let s' := if c.destroyed = 0 then
              s.put target { c with
                pcb := pcbSignalStatus status own.pcb.originalTid ans c.pcb
                locked := c.locked && !parent && decide (ans ≠ .noNode) }
            else s
          { s'.goto t (.reported pid) with
            exits := Function.update s.exits pid (some ⟨status, own.pcb.originalTid⟩) }
        else
          let s' := if c.destroyed = 0 then s.put target { c with locked := c.locked && !parent }
            else s
          s'.goto t (.reported pid)
  | _ => none

/-- `scheduler_make_current_zombie_safe`. -/
def makeZombie (s : Procs) (t : ℕ) : Option Procs :=
  match s.phases t with
  | .reported pid => some { s.goto t (.zombie pid) with zombiePool := s.zombiePool ++ [t] }
  | _ => none

/-- The section of `tcb_pool_reap` under `sched_lock`. -/
def remove (s : Procs) (stale : ℤ) : Option Procs :=
  match s.reaper, s.zombiePool with
  | .idle, t :: z =>
      match s.phases t with
      | .zombie pid => (s.cells pid).map fun c =>
          { (s.put pid { c with listed := c.listed && decide (c.readThreads stale ≠ 0) }).goto t
              (.removed pid) with
            zombiePool := z, reaper := .removed t }
      | _ => none
  | _, _ => none

/-- The second test of `num_threads`. -/
def retest (s : Procs) (stale : ℤ) : Option Procs :=
  match s.reaper with
  | .removed t =>
      match s.phases t with
      | .removed pid => (s.cells pid).map fun c =>
          { s with reaper := if c.readThreads stale = (0 : ℤ) then .doomed t else .cleared t }
      | _ => none
  | _ => none

/-- `pcb_destroy_s`, which takes `m`, and `free` of the pcb. -/
def destroy (s : Procs) : Option Procs :=
  match s.reaper with
  | .doomed t =>
      match s.phases t with
      | .removed pid => (s.cells pid).bind fun c =>
          if c.locked = false then
            some { s.put pid { c with destroyed := c.destroyed + 1 } with reaper := .cleared t }
          else none
      | _ => none
  | _ => none

/-- `tcb_destroy` and `free` of the tcb. -/
def release (s : Procs) : Option Procs :=
  match s.reaper with
  | .cleared t =>
      match s.phases t with
      | .removed _ => some { s.goto t .reaped with reaper := .idle }
      | _ => none
  | _ => none

/-- A step. -/
def procsNext (s : Procs) : ProcsOp → Option Procs
  | .fork t ans => fork s t ans
  | .threadFork t ans => threadFork s t ans
  | .test t => testChildren s t
  | .semWait t => semWait s t
  | .collect t => collect s t
  | .decChildren t => decChildren s t
  | .lookup t => lookup s t
  | .enter t => enter s t
  | .decThreads t => decThreads s t
  | .report t status ans => report s t status ans
  | .makeZombie t => makeZombie s t
  | .remove stale => remove s stale
  | .retest stale => retest s stale
  | .destroy => destroy s
  | .release => release s

/-- What `scheduler_init` leaves: the pcb of the reaper, and init with its thread 2. -/
def procsInit : Procs where
  cells := Function.update (Function.update (fun _ => none) (-1)
    (some ⟨Pcb.init, false, true, 0⟩)) initPid
      (some ⟨pcbIncThreads { Pcb.init with originalTid := 2 }, false, true, 0⟩)
  phases := Function.update (fun _ => .unborn) 2 (.running initPid)
  zombiePool := []
  reaper := .idle
  nextPid := 2
  nextTid := 3
  taken := []
  exits := fun _ => none

/-- The runs of the processes. -/
def procsMachine : Machine Procs ProcsOp where
  init s := s = procsInit
  step s a s' := procsNext s a = some s'

/-! ### Members and objects -/

/-- A thread as a member of its process. -/
def Phase.stage : Phase → Stage ℤ
  | .unborn => .out
  | .running pid => .inside pid
  | .tested pid => .inside pid
  | .admitted pid => .inside pid
  | .collected pid _ => .inside pid
  | .found pid _ _ => .inside pid
  | .entered pid _ _ => .inside pid
  | .left pid _ _ _ => .outgoing pid
  | .reported pid => .outgoing pid
  | .zombie pid => .outgoing pid
  | .removed pid => .held pid
  | .reaped => .out

/-- The process whose pcb the tcb refers to. -/
def Phase.pid (ph : Phase) : Option ℤ := ph.stage.object

/-- A pcb as an object that counts its members. -/
def Cell.shared (c : Cell) : Shared := ⟨c.pcb.numThreads, c.destroyed⟩

/-- **The view**: what matters to the teardown. -/
def Procs.view (s : Procs) : Yard ℕ ℤ where
  stage t := (s.phases t).stage
  object p := (s.cells p).map Cell.shared
  hand := s.reaper

/-- A step in which the last thread of a process leaves `num_threads` only when the reaper is past
the others: they are freed, or it has tested `num_threads` for the second time. -/
def LastAlone (s : Procs) : ProcsOp → Prop
  | .decThreads t => ∀ pid ∈ (s.phases t).pid, ∀ c ∈ s.cells pid, c.pcb.numThreads = 1 →
      ∀ u < s.nextTid, ¬ s.view.Unpassed u pid
  | _ => True

instance (s : Procs) : ∀ a, Decidable (LastAlone s a)
  | .decThreads t => inferInstanceAs (Decidable (∀ pid ∈ (s.phases t).pid, ∀ c ∈ s.cells pid,
      c.pcb.numThreads = 1 → ∀ u < s.nextTid, ¬ s.view.Unpassed u pid))
  | .fork _ _ | .threadFork _ _ | .test _ | .semWait _ | .collect _ | .decChildren _ | .lookup _
  | .enter _ | .report _ _ _ | .makeZombie _ | .remove _ | .retest _ | .destroy | .release =>
      .isTrue trivial

/-- A step in which every thread that `num_threads` counts comes: no `thread_fork` runs out of
memory after `pcb_inc_threads_s`. -/
def Joined : ProcsOp → Prop
  | .threadFork _ ans => ans ≠ .noNode
  | _ => True

/-- The pids and tids that are not given out yet. -/
structure Fresh (s : Procs) : Prop where
  pids : ∀ p, s.nextPid ≤ p → s.cells p = none
  tids : ∀ t, s.nextTid ≤ t → s.phases t = .unborn

variable {s s' : Procs} {t : ℕ} {p pid : ℤ} {c c' : Cell} {ph : Phase}

lemma live_eq_some : s.live p = some c ↔ s.cells p = some c ∧ c.destroyed = 0 := by
  unfold Procs.live
  constructor
  · intro h
    split at h
    · next c₀ hc₀ =>
        obtain ⟨hd, heq⟩ := Option.ite_none_right_eq_some.mp h
        cases heq
        exact ⟨hc₀, hd⟩
    · cases h
  · rintro ⟨hc, hd⟩
    simp only [hc, hd, if_true]

lemma view_goto : (s.goto t ph).view = s.view.goto t ph.stage := by
  refine Yard.ext ?_ rfl rfl
  exact Function.comp_update Phase.stage s.phases t ph

lemma view_put : (s.put p c).view = s.view.put p c.shared := by
  refine Yard.ext rfl ?_ rfl
  funext q
  change (Function.update s.cells p (some c) q).map Cell.shared =
    Function.update (fun q => (s.cells q).map Cell.shared) p (some c.shared) q
  by_cases hq : q = p
  · subst hq
    rw [Function.update_self, Function.update_self, Option.map_some]
  · rw [Function.update_of_ne hq, Function.update_of_ne hq]

/-- A pcb changes, but not what the teardown depends on. -/
lemma view_put_same (hc : s.cells p = some c) (hshared : c'.shared = c.shared) :
    (s.put p c').view = s.view := by
  rw [view_put, hshared]
  refine Yard.ext rfl ?_ rfl
  refine Function.update_eq_self_iff.mpr (Eq.symm ?_)
  change (s.cells p).map Cell.shared = _
  rw [hc, Option.map_some]

/-- A thread goes on inside of its process, or on its way out. -/
lemma view_goto_same (hstage : ph.stage = (s.phases t).stage) : (s.goto t ph).view = s.view := by
  rw [view_goto, hstage]
  exact Yard.ext (Function.update_eq_self t s.view.stage) rfl rfl

/-- Both of these. -/
lemma view_quiet (hc : s.cells p = some c) (hshared : c'.shared = c.shared)
    (hstage : ph.stage = (s.phases t).stage) : ((s.put p c').goto t ph).view = s.view := by
  have hgoto : ((s.put p c').goto t ph).view = (s.put p c').view := view_goto_same hstage
  exact hgoto.trans (view_put_same hc hshared)

lemma view_stage (hph : s.phases t = ph) : s.view.stage t = ph.stage := congrArg Phase.stage hph

lemma view_object (hc : s.cells p = some c) : s.view.object p = some c.shared := by
  change (s.cells p).map Cell.shared = _
  rw [hc, Option.map_some]

/-! ### What a step does -/

lemma fork_eq_some {ans : ForkAnswer} (h : fork s t ans = some s') : ∃ pid c,
    s.phases t = .running pid ∧ s.cells pid = some c ∧ c.destroyed = 0 ∧
    (s' = s ∨ s' = { s with nextPid := s.nextPid + 1, nextTid := s.nextTid + 1 } ∨
    s' = { ((s.put pid (c.on pcbIncChildren)).put s.nextPid
        { pcb := pcbIncThreads { Pcb.init with ppid := pid, originalTid := s.nextTid }
          locked := false, listed := true, destroyed := 0 }).goto s.nextTid
          (.running s.nextPid) with
      nextPid := s.nextPid + 1, nextTid := s.nextTid + 1 }) := by
  unfold fork at h
  split at h
  · next pid hph =>
      obtain ⟨c, hc, h⟩ := Option.bind_eq_some_iff.mp h
      obtain ⟨hc, hd⟩ := live_eq_some.mp hc
      obtain ⟨-, h⟩ := Option.ite_none_right_eq_some.mp h
      refine ⟨pid, c, hph, hc, hd, ?_⟩
      cases ans with
      | noCopy => exact .inl (Option.some.inj h).symm
      | noTcb => exact .inr (.inl (Option.some.inj h).symm)
      | made => exact .inr (.inr (Option.some.inj h).symm)
  · cases h

lemma threadFork_eq_some {ans : ThreadForkAnswer} (h : threadFork s t ans = some s') : ∃ pid c,
    s.phases t = .running pid ∧ s.cells pid = some c ∧ c.destroyed = 0 ∧
    (s' = { s with nextTid := s.nextTid + 1 } ∨
      (ans = .noNode ∧ s' = { s.put pid (c.on pcbIncThreads) with nextTid := s.nextTid + 1 }) ∨
      s' = { (s.put pid (c.on pcbIncThreads)).goto s.nextTid (.running pid) with
        nextTid := s.nextTid + 1 }) := by
  unfold threadFork at h
  split at h
  · next pid hph =>
      obtain ⟨c, hc, h⟩ := Option.bind_eq_some_iff.mp h
      obtain ⟨hc, hd⟩ := live_eq_some.mp hc
      obtain ⟨-, h⟩ := Option.ite_none_right_eq_some.mp h
      refine ⟨pid, c, hph, hc, hd, ?_⟩
      cases ans with
      | noTcb => exact .inl (Option.some.inj h).symm
      | noNode => exact .inr (.inl ⟨rfl, (Option.some.inj h).symm⟩)
      | made => exact .inr (.inr (Option.some.inj h).symm)
  · cases h

lemma testChildren_eq_some (h : testChildren s t = some s') : ∃ pid c, s.phases t = .running pid ∧
    s.cells pid = some c ∧ (s' = s ∨ s' = s.goto t (.tested pid)) := by
  unfold testChildren at h
  split at h
  · next pid hph =>
      obtain ⟨c, hc, h⟩ := Option.map_eq_some_iff.mp h
      obtain ⟨hc, -⟩ := live_eq_some.mp hc
      refine ⟨pid, c, hph, hc, ?_⟩
      split_ifs at h with hzero
      · exact .inl h.symm
      · exact .inr h.symm
  · cases h

lemma semWait_eq_some (h : semWait s t = some s') : ∃ pid c, s.phases t = .tested pid ∧
    s.cells pid = some c ∧
    s' = (s.put pid (c.on fun pcb => { pcb with waitSem := pcb.waitSem - 1 })).goto t
      (.admitted pid) := by
  unfold semWait at h
  split at h
  · next pid hph =>
      obtain ⟨c, hc, h⟩ := Option.bind_eq_some_iff.mp h
      obtain ⟨hc, -⟩ := live_eq_some.mp hc
      obtain ⟨-, h⟩ := Option.ite_none_right_eq_some.mp h
      cases h
      exact ⟨pid, c, hph, hc, rfl⟩
  · cases h

lemma collect_eq_some (h : collect s t = some s') : ∃ pid c, s.phases t = .admitted pid ∧
    s.cells pid = some c ∧
    (s' = (s.put pid (c.setLocked true)).goto t (.running pid) ∨
      ∃ metadata q, c.pcb.statusQueue = metadata :: q ∧
        s' = { (s.put pid (c.on fun pcb => { pcb with statusQueue := q })).goto t
            (.collected pid metadata) with taken := s.taken ++ [metadata] }) := by
  unfold collect at h
  split at h
  · next pid hph =>
      obtain ⟨c, hc, h⟩ := Option.bind_eq_some_iff.mp h
      obtain ⟨hc, -⟩ := live_eq_some.mp hc
      obtain ⟨-, h⟩ := Option.ite_none_right_eq_some.mp h
      refine ⟨pid, c, hph, hc, ?_⟩
      split at h
      · cases h
        exact .inl rfl
      · next metadata q hq =>
          cases h
          exact .inr ⟨metadata, q, hq, rfl⟩
  · cases h

lemma decChildren_eq_some (h : decChildren s t = some s') : ∃ pid metadata c,
    s.phases t = .collected pid metadata ∧ s.cells pid = some c ∧
    s' = (s.put pid (c.on pcbDecChildren)).goto t (.running pid) := by
  unfold decChildren at h
  split at h
  · next pid metadata hph =>
      obtain ⟨c, hc, h⟩ := Option.bind_eq_some_iff.mp h
      obtain ⟨hc, -⟩ := live_eq_some.mp hc
      obtain ⟨-, h⟩ := Option.ite_none_right_eq_some.mp h
      cases h
      exact ⟨pid, metadata, c, hph, hc, rfl⟩
  · cases h

lemma lookup_eq_some (h : lookup s t = some s') : ∃ pid target parent c,
    s.phases t = .running pid ∧ s.cells pid = some c ∧
    (target = c.pcb.ppid ∨ target = initPid) ∧ s' = s.goto t (.found pid target parent) := by
  unfold lookup at h
  split at h
  · next pid hph =>
      obtain ⟨c, hc, h⟩ := Option.map_eq_some_iff.mp h
      obtain ⟨hc, -⟩ := live_eq_some.mp hc
      split at h
      · split_ifs at h with hlisted
        · exact ⟨pid, _, true, c, hph, hc, .inl rfl, h.symm⟩
        · exact ⟨pid, _, false, c, hph, hc, .inr rfl, h.symm⟩
      · exact ⟨pid, _, false, c, hph, hc, .inr rfl, h.symm⟩
  · cases h

lemma enter_eq_some (h : enter s t = some s') : ∃ pid target parent c,
    s.phases t = .found pid target parent ∧ s.cells target = some c ∧
    (s' = (s.put target (if parent then c.setLocked true else c.on pcbIncChildren)).goto t
        (.entered pid target parent) ∨
      s' = s.goto t (.entered pid target parent)) := by
  unfold enter at h
  split at h
  · next pid target parent hph =>
      obtain ⟨c, hc, h⟩ := Option.bind_eq_some_iff.mp h
      refine ⟨pid, target, parent, c, hph, hc, ?_⟩
      by_cases hd : c.destroyed = 0
      · rw [if_pos hd] at h
        obtain ⟨-, h⟩ := Option.ite_none_right_eq_some.mp h
        exact .inl (Option.some.inj h).symm
      · rw [if_neg hd] at h
        exact .inr (Option.some.inj h).symm
  · cases h

lemma decThreads_eq_some (h : decThreads s t = some s') : ∃ pid target parent c,
    s.phases t = .entered pid target parent ∧ s.cells pid = some c ∧
    s' = (s.put pid (c.on pcbDecThreads)).goto t
      (.left pid target parent (c.pcb.numThreads - 1 = 0)) := by
  unfold decThreads at h
  split at h
  · next pid target parent hph =>
      obtain ⟨c, hc, h⟩ := Option.bind_eq_some_iff.mp h
      obtain ⟨hc, -⟩ := live_eq_some.mp hc
      obtain ⟨-, h⟩ := Option.ite_none_right_eq_some.mp h
      cases h
      exact ⟨pid, target, parent, c, hph, hc, rfl⟩
  · cases h

lemma report_eq_some {status : ℤ} {ans : EnqAnswer} (h : report s t status ans = some s') :
    ∃ pid target parent last c own, s.phases t = .left pid target parent last ∧
      s.cells target = some c ∧ s.cells pid = some own ∧
      (c.destroyed = 0 ∧ (s' = if last then
        { (s.put target { c with
              pcb := pcbSignalStatus status own.pcb.originalTid ans c.pcb
              locked := c.locked && !parent && decide (ans ≠ .noNode) }).goto t (.reported pid) with
          exits := Function.update s.exits pid (some ⟨status, own.pcb.originalTid⟩) }
      else (s.put target { c with locked := c.locked && !parent }).goto t (.reported pid)) ∨
      c.destroyed ≠ 0 ∧ s' = if last then
        { s.goto t (.reported pid) with
          exits := Function.update s.exits pid (some ⟨status, own.pcb.originalTid⟩) }
      else s.goto t (.reported pid)) := by
  unfold report at h
  split at h
  · next pid target parent last hph =>
      obtain ⟨c, hc, h⟩ := Option.bind_eq_some_iff.mp h
      obtain ⟨own, hown, rfl⟩ := Option.map_eq_some_iff.mp h
      refine ⟨pid, target, parent, last, c, own, hph, hc, hown, ?_⟩
      by_cases hd : c.destroyed = 0
      · refine .inl ⟨hd, ?_⟩
        simp only [if_pos hd]
      · refine .inr ⟨hd, ?_⟩
        simp only [if_neg hd]
  · cases h

lemma makeZombie_eq_some (h : makeZombie s t = some s') : ∃ pid, s.phases t = .reported pid ∧
    s' = { s.goto t (.zombie pid) with zombiePool := s.zombiePool ++ [t] } := by
  unfold makeZombie at h
  split at h
  · next pid hph =>
      cases h
      exact ⟨pid, hph, rfl⟩
  · cases h

lemma remove_eq_some {stale : ℤ} (h : remove s stale = some s') : ∃ t z pid c,
    s.reaper = .idle ∧ s.phases t = .zombie pid ∧ s.cells pid = some c ∧
    s' = { (s.put pid { c with listed := c.listed && decide (c.readThreads stale ≠ 0) }).goto t
        (.removed pid) with zombiePool := z, reaper := .removed t } := by
  unfold remove at h
  split at h
  · next t z hidle hpool =>
      split at h
      · next pid hph =>
          obtain ⟨c, hc, h⟩ := Option.map_eq_some_iff.mp h
          exact ⟨t, z, pid, c, hidle, hph, hc, h.symm⟩
      · cases h
  · cases h

lemma retest_eq_some {stale : ℤ} (h : retest s stale = some s') : ∃ t pid c,
    s.reaper = .removed t ∧ s.phases t = .removed pid ∧ s.cells pid = some c ∧
    s' = { s with
      reaper := if c.readThreads stale = (0 : ℤ) then .doomed t else .cleared t } := by
  unfold retest at h
  split at h
  · next t hhand =>
      split at h
      · next pid hph =>
          obtain ⟨c, hc, h⟩ := Option.map_eq_some_iff.mp h
          exact ⟨t, pid, c, hhand, hph, hc, h.symm⟩
      · cases h
  · cases h

lemma destroy_eq_some (h : destroy s = some s') : ∃ t pid c,
    s.reaper = .doomed t ∧ s.phases t = .removed pid ∧ s.cells pid = some c ∧
    s' = { s.put pid { c with destroyed := c.destroyed + 1 } with reaper := .cleared t } := by
  unfold destroy at h
  split at h
  · next t hhand =>
      split at h
      · next pid hph =>
          obtain ⟨c, hc, h⟩ := Option.bind_eq_some_iff.mp h
          obtain ⟨-, h⟩ := Option.ite_none_right_eq_some.mp h
          cases h
          exact ⟨t, pid, c, hhand, hph, hc, rfl⟩
      · cases h
  · cases h

lemma release_eq_some (h : release s = some s') : ∃ t pid,
    s.reaper = .cleared t ∧ s.phases t = .removed pid ∧
    s' = { s.goto t .reaped with reaper := .idle } := by
  unfold release at h
  split at h
  · next t hhand =>
      split at h
      · next pid hph =>
          cases h
          exact ⟨t, pid, hhand, hph, rfl⟩
      · cases h
  · cases h

/-! ### New pids and tids -/

namespace Fresh

lemma put (h : Fresh s) (hc : s.cells p = some c) : Fresh (s.put p c') where
  pids q hq := by
    have hne : q ≠ p := by
      rintro rfl
      rw [h.pids q hq] at hc
      cases hc
    exact (Function.update_of_ne hne ..).trans (h.pids q hq)
  tids := h.tids

lemma goto (h : Fresh s) (ht : s.phases t ≠ .unborn) : Fresh (s.goto t ph) where
  pids := h.pids
  tids u hu := by
    have hne : u ≠ t := by
      rintro rfl
      exact ht (h.tids u hu)
    exact (Function.update_of_ne hne ..).trans (h.tids u hu)

/-- The next tid is given out. -/
lemma newThread (h : Fresh s) : Fresh { s.goto s.nextTid ph with nextTid := s.nextTid + 1 } where
  pids := h.pids
  tids u hu := by
    change s.nextTid + 1 ≤ u at hu
    have hne : u ≠ s.nextTid := by omega
    exact (Function.update_of_ne hne ..).trans (h.tids u (by omega))

/-- Pids and tids that nobody gets. -/
lemma skip (h : Fresh s) {m : ℤ} {n : ℕ} (hm : s.nextPid ≤ m) (hn : s.nextTid ≤ n) :
    Fresh { s with nextPid := m, nextTid := n } where
  pids q hq := h.pids q (hm.trans hq)
  tids u hu := h.tids u (hn.trans hu)

/-- The next pid is given out. -/
lemma newProcess (h : Fresh s) : Fresh { s.put s.nextPid c with nextPid := s.nextPid + 1 } where
  pids q hq := by
    change s.nextPid + 1 ≤ q at hq
    have hne : q ≠ s.nextPid := by omega
    exact (Function.update_of_ne hne ..).trans (h.pids q (by omega))
  tids := h.tids

end Fresh

lemma fresh_step (h : Fresh s) {a : ProcsOp} (hstep : procsNext s a = some s') : Fresh s' := by
  -- a step of a thread is one of a tid that was handed out before
  have hborn {t : ℕ} {ph : Phase} (hph : s.phases t = ph) (hne : ph ≠ .unborn) :
      s.phases t ≠ .unborn := hph ▸ hne
  cases a with
  | fork t ans =>
      obtain ⟨pid, c, hph, hc, -, rfl | rfl | rfl⟩ := fork_eq_some hstep
      · exact h
      -- a fork that fails late has taken its numbers
      · exact h.skip (lt_add_one s.nextPid).le (Nat.le_succ s.nextTid)
      -- the child and its thread take the next numbers
      · have hput : Fresh (s.put pid (c.on pcbIncChildren)) := h.put hc
        exact hput.newProcess.newThread
  | threadFork t ans =>
      obtain ⟨pid, c, hph, hc, -, rfl | ⟨-, rfl⟩ | rfl⟩ := threadFork_eq_some hstep
      -- a tid is taken, whatever the answers of the heap
      · exact h.skip le_rfl (Nat.le_succ s.nextTid)
      · have hput : Fresh (s.put pid (c.on pcbIncThreads)) := h.put hc
        exact hput.skip le_rfl (Nat.le_succ s.nextTid)
      · have hput : Fresh (s.put pid (c.on pcbIncThreads)) := h.put hc
        exact hput.newThread
  | test t =>
      obtain ⟨pid, c, hph, hc, rfl | rfl⟩ := testChildren_eq_some hstep
      · exact h
      · exact h.goto (hborn hph nofun)
  | semWait t =>
      obtain ⟨pid, c, hph, hc, rfl⟩ := semWait_eq_some hstep
      exact (h.put hc).goto (hborn hph nofun)
  | collect t =>
      obtain ⟨pid, c, hph, hc, rfl | ⟨metadata, q, -, rfl⟩⟩ := collect_eq_some hstep
      · exact (h.put hc).goto (hborn hph nofun)
      · obtain ⟨hpids, htids⟩ := (h.put hc).goto (hborn hph nofun)
        exact ⟨hpids, htids⟩
  | decChildren t =>
      obtain ⟨pid, metadata, c, hph, hc, rfl⟩ := decChildren_eq_some hstep
      exact (h.put hc).goto (hborn hph nofun)
  | lookup t =>
      obtain ⟨pid, target, parent, c, hph, -, -, rfl⟩ := lookup_eq_some hstep
      exact h.goto (hborn hph nofun)
  | enter t =>
      obtain ⟨pid, target, parent, c, hph, hc, rfl | rfl⟩ := enter_eq_some hstep
      · exact (h.put hc).goto (hborn hph nofun)
      · exact h.goto (hborn hph nofun)
  | decThreads t =>
      obtain ⟨pid, target, parent, c, hph, hc, rfl⟩ := decThreads_eq_some hstep
      exact (h.put hc).goto (hborn hph nofun)
  | report t status ans =>
      obtain ⟨pid, target, parent, last, c, own, hph, hc, -, ⟨-, rfl⟩ | ⟨-, rfl⟩⟩ :=
        report_eq_some hstep
      · split_ifs
        · obtain ⟨hpids, htids⟩ := (h.put hc).goto (hborn hph nofun)
          exact ⟨hpids, htids⟩
        · exact (h.put hc).goto (hborn hph nofun)
      · split_ifs
        · obtain ⟨hpids, htids⟩ := h.goto (hborn hph nofun)
          exact ⟨hpids, htids⟩
        · exact h.goto (hborn hph nofun)
  | makeZombie t =>
      obtain ⟨pid, hph, rfl⟩ := makeZombie_eq_some hstep
      obtain ⟨hpids, htids⟩ := h.goto (hborn hph nofun)
      exact ⟨hpids, htids⟩
  | remove stale =>
      obtain ⟨t, z, pid, c, -, hph, hc, rfl⟩ := remove_eq_some hstep
      obtain ⟨hpids, htids⟩ := (h.put hc).goto (hborn hph nofun)
      exact ⟨hpids, htids⟩
  | retest stale =>
      obtain ⟨t, pid, c, -, -, -, rfl⟩ := retest_eq_some hstep
      exact ⟨h.pids, h.tids⟩
  | destroy =>
      obtain ⟨t, pid, c, -, -, hc, rfl⟩ := destroy_eq_some hstep
      obtain ⟨hpids, htids⟩ := h.put hc
      exact ⟨hpids, htids⟩
  | release =>
      obtain ⟨t, pid, -, hph, rfl⟩ := release_eq_some hstep
      obtain ⟨hpids, htids⟩ := h.goto (hborn hph nofun)
      exact ⟨hpids, htids⟩

/-! ### The view of a step -/

/-- **A step** is one of the members and objects, or changes nothing for them. -/
lemma view_step (h : Fresh s) (hcounted : Counted s.view) {a : ProcsOp}
    (hstep : procsNext s a = some s') :
    s'.view = s.view ∨ ∃ b, (LastAlone s a → AloneLast s.view b) ∧
      (Joined a → ∀ p, b ≠ .charge p) ∧ s.view.next b = some s'.view := by
  cases a with
  | fork t ans =>
      -- a `fork` that fails makes nothing that counts threads
      obtain ⟨pid, c, hph, hc, -, rfl | rfl | rfl⟩ := fork_eq_some hstep
      · exact .inl rfl
      · exact .inl rfl
      right
      refine ⟨.create s.nextTid s.nextPid, fun _ => trivial, fun _ => nofun, ?_⟩
      have hstage : s.view.stage s.nextTid = .out := view_stage (h.tids s.nextTid le_rfl)
      have hobject : s.view.object s.nextPid = none := by
        change (s.cells s.nextPid).map Cell.shared = none
        rw [h.pids s.nextPid le_rfl]
        rfl
      -- the number of children of the parent is not in the view
      have hsame : (s.put pid (c.on pcbIncChildren)).view = s.view := view_put_same hc rfl
      rw [Yard.next_create hstage hobject, ← hsame]
      refine congrArg some (Eq.symm ?_)
      refine view_goto.trans ?_
      exact congrArg (fun y : Yard ℕ ℤ => y.goto s.nextTid (.inside s.nextPid)) view_put
  | threadFork t ans =>
      obtain ⟨pid, c, hph, hc, -, hs⟩ := threadFork_eq_some hstep
      have hpos := Counted.count_pos hcounted (view_stage hph) (view_object hc)
      rcases hs with rfl | ⟨rfl, rfl⟩ | rfl
      · exact .inl rfl
      -- a `thread_fork` that fails late has counted a thread that never comes
      · right
        refine ⟨.charge pid, fun _ => trivial, fun hjoined => absurd rfl hjoined, ?_⟩
        rw [Yard.next_charge (view_object hc) hpos.ne']
        have hput : (s.put pid (c.on pcbIncThreads)).view =
            s.view.put pid (c.on pcbIncThreads).shared := view_put
        exact congrArg some hput.symm
      right
      refine ⟨.join s.nextTid pid, fun _ => trivial, fun _ => nofun, ?_⟩
      have hstage : s.view.stage s.nextTid = .out := view_stage (h.tids s.nextTid le_rfl)
      rw [Yard.next_join hstage (view_object hc) hpos.ne']
      refine congrArg some (Eq.symm (view_goto.trans ?_))
      exact congrArg (fun y : Yard ℕ ℤ => y.goto s.nextTid (.inside pid)) view_put
  | test t =>
      obtain ⟨pid, c, hph, hc, rfl | rfl⟩ := testChildren_eq_some hstep
      · exact .inl rfl
      · exact .inl (view_goto_same (by rw [hph]; rfl))
  | semWait t =>
      obtain ⟨pid, c, hph, hc, rfl⟩ := semWait_eq_some hstep
      exact .inl (view_quiet hc rfl (by rw [hph]; rfl))
  | collect t =>
      obtain ⟨pid, c, hph, hc, rfl | ⟨metadata, q, -, rfl⟩⟩ := collect_eq_some hstep
      · exact .inl (view_quiet hc rfl (by rw [hph]; rfl))
      · exact .inl (view_quiet hc rfl (by rw [hph]; rfl))
  | decChildren t =>
      obtain ⟨pid, metadata, c, hph, hc, rfl⟩ := decChildren_eq_some hstep
      exact .inl (view_quiet hc rfl (by rw [hph]; rfl))
  | lookup t =>
      obtain ⟨pid, target, parent, c, hph, -, -, rfl⟩ := lookup_eq_some hstep
      exact .inl (view_goto_same (by rw [hph]; rfl))
  | enter t =>
      obtain ⟨pid, target, parent, c, hph, hc, rfl | rfl⟩ := enter_eq_some hstep
      · exact .inl (view_quiet hc (by cases parent <;> rfl) (by rw [hph]; rfl))
      · exact .inl (view_goto_same (by rw [hph]; rfl))
  | decThreads t =>
      obtain ⟨pid, target, parent, c, hph, hc, rfl⟩ := decThreads_eq_some hstep
      right
      have hinside : s.view.stage t = .inside pid := view_stage hph
      refine ⟨.leave t, ?_, fun _ => nofun, ?_⟩
      -- the last thread to leave is alone in the pcb, in the terms of the view
      · intro halone p o hi ho hone u hu
        rw [hinside] at hi
        cases hi
        rw [view_object hc, Option.some.injEq] at ho
        subst ho
        have hpid : pid ∈ (s.phases t).pid := by
          rw [hph]
          rfl
        refine halone pid hpid c hc hone u ?_ hu
        -- a thread that does not exist yet has passed nobody
        by_contra hge
        have hout : s.view.stage u = .out := view_stage (h.tids u (not_lt.mp hge))
        unfold Yard.Unpassed at hu
        rw [hout] at hu
        simp only [reduceCtorEq, false_and, or_self] at hu
      · rw [Yard.next_leave hinside (view_object hc)]
        refine congrArg some (Eq.symm (view_goto.trans ?_))
        exact congrArg (fun y : Yard ℕ ℤ => y.goto t (.outgoing pid)) view_put
  | report t status ans =>
      obtain ⟨pid, target, parent, last, c, own, hph, hc, -, ⟨-, rfl⟩ | ⟨-, rfl⟩⟩ :=
        report_eq_some hstep
      · left
        cases last with
        | true => exact view_quiet hc (by cases ans <;> rfl) (by rw [hph]; rfl)
        | false => exact view_quiet hc rfl (by rw [hph]; rfl)
      · left
        cases last with
        | true => exact view_goto_same (by rw [hph]; rfl)
        | false => exact view_goto_same (by rw [hph]; rfl)
  | makeZombie t =>
      obtain ⟨pid, hph, rfl⟩ := makeZombie_eq_some hstep
      exact .inl (view_goto_same (by rw [hph]; rfl))
  | remove stale =>
      obtain ⟨t, z, pid, c, hidle, hph, hc, rfl⟩ := remove_eq_some hstep
      right
      -- taking a zombie off its pool is the reaper's first step; the listing is not in the view
      refine ⟨.take t, fun _ => trivial, fun _ => nofun, ?_⟩
      have hstage : s.view.stage t = .outgoing pid := view_stage hph
      rw [Yard.next_take hstage hidle]
      have hsame : (s.put pid { c with
          listed := c.listed && decide (c.readThreads stale ≠ 0) }).view = s.view :=
        view_put_same hc rfl
      have hgoto : ((s.put pid { c with
          listed := c.listed && decide (c.readThreads stale ≠ 0) }).goto t (.removed pid)).view =
            s.view.goto t (.held pid) := view_goto.trans (by rw [hsame]; rfl)
      refine congrArg some (Yard.ext ?_ ?_ rfl)
      · exact (congrArg Yard.stage hgoto).symm
      · exact (congrArg Yard.object hgoto).symm
  | retest stale =>
      obtain ⟨t, pid, c, hhand, hph, hc, rfl⟩ := retest_eq_some hstep
      right
      refine ⟨.test stale, fun _ => trivial, fun _ => nofun, ?_⟩
      exact Yard.next_test hhand (view_stage hph) (view_object hc) stale
  | destroy =>
      obtain ⟨t, pid, c, hhand, hph, hc, rfl⟩ := destroy_eq_some hstep
      right
      refine ⟨.destroy, fun _ => trivial, fun _ => nofun, ?_⟩
      rw [Yard.next_destroy hhand (view_stage hph) (view_object hc)]
      have hput : (s.put pid { c with destroyed := c.destroyed + 1 }).view =
          s.view.put pid { c.shared with destroyed := c.shared.destroyed + 1 } := view_put
      exact congrArg some (Yard.ext rfl (congrArg Yard.object hput).symm rfl)
  | release =>
      obtain ⟨t, pid, hhand, hph, rfl⟩ := release_eq_some hstep
      right
      refine ⟨.release, fun _ => trivial, fun _ => nofun, ?_⟩
      rw [Yard.next_release hhand (view_stage hph)]
      have hgoto : (s.goto t .reaped).view = s.view.goto t .out := view_goto
      exact congrArg some (Yard.ext (congrArg Yard.stage hgoto).symm rfl rfl)

lemma fresh_init : Fresh procsInit where
  pids p hp := by
    change (2 : ℤ) ≤ p at hp
    have hinit : p ≠ initPid := by
      unfold initPid
      omega
    have hreaper : p ≠ -1 := by omega
    simp only [procsInit, Function.update_of_ne hinit, Function.update_of_ne hreaper]
  tids t ht := by
    change (3 : ℕ) ≤ t at ht
    have hne : t ≠ 2 := by omega
    simp only [procsInit, Function.update_of_ne hne]

/-- The two pcbs of the first state. -/
lemma procsInit_eq_some (h : procsInit.cells p = some c) :
    p = initPid ∧ c = ⟨pcbIncThreads { Pcb.init with originalTid := 2 }, false, true, 0⟩ ∨
      p = -1 ∧ c = ⟨Pcb.init, false, true, 0⟩ := by
  by_cases hinit : p = initPid
  · subst hinit
    cases h
    exact .inl ⟨rfl, rfl⟩
  · by_cases hreaper : p = -1
    · subst hreaper
      cases h
      exact .inr ⟨rfl, rfl⟩
    · simp only [procsInit, Function.update_of_ne hinit, Function.update_of_ne hreaper] at h
      cases h

/-- The thread of the first state. -/
lemma procsInit_phases (t : ℕ) :
    procsInit.phases t = .running initPid ∨ procsInit.phases t = .unborn := by
  by_cases ht : t = 2
  · exact .inl (ht ▸ rfl)
  · right
    simp only [procsInit, Function.update_of_ne ht]

/-- At first there is one thread, which init counts. -/
lemma view_init : (yard ℕ ℤ).init procsInit.view := by
  have hstage : procsInit.view.stage = Function.update (fun _ => .out) 2 (.inside initPid) :=
    Function.comp_update Phase.stage (fun _ => .unborn) 2 (.running initPid)
  refine ⟨rfl, ?_, fun t => ?_, fun p o ho => ?_⟩
  · rw [hstage]
    exact (Few.of_none fun _ h => h rfl).update 2 _
  · rw [hstage]
    by_cases ht : t = 2
    · subst ht
      refine .inr ⟨initPid, Function.update_self .., ?_⟩
      exact Option.some_ne_none _
    · exact .inl (Function.update_of_ne ht ..)
  · obtain ⟨c, hc, rfl⟩ := Option.map_eq_some_iff.mp ho
    rw [hstage]
    rw [census_single 2 nofun]
    rcases procsInit_eq_some hc with ⟨rfl, rfl⟩ | ⟨rfl, rfl⟩
    · exact ⟨rfl, rfl⟩
    · exact ⟨rfl, rfl⟩

lemma fresh_of_reach {G : Procs → ProcsOp → Prop} (h : procsMachine.Reach G s) : Fresh s := by
  refine Machine.Reach.inv ?_ ?_ h
  · rintro s rfl
    exact fresh_init
  · exact fun s a s' hs _ hstep => fresh_step hs hstep

/-- In every run a pcb counts the threads before `pcb_dec_threads_s`. -/
lemma counted_view {G : Procs → ProcsOp → Prop} (h : procsMachine.Reach G s) :
    Counted s.view := by
  have hview : (yard ℕ ℤ).Reach (fun _ _ => True) s.view := by
    refine Machine.Reach.simulate Procs.view ?_ ?_ h
    · rintro s rfl
      exact view_init
    · intro s a s' hs hview _ hstep
      rcases view_step (fresh_of_reach hs) (counted_of_reach hview) hstep with heq | ⟨b, -, -, hb⟩
      · exact .inl heq
      · exact .inr ⟨b, trivial, hb⟩
  exact counted_of_reach hview

/-- **In a run in which all of them come** it counts no others. -/
lemma exact_view {G : Procs → ProcsOp → Prop} (hG : ∀ s a, G s a → Joined a)
    (h : procsMachine.Reach G s) : Exact s.view := by
  have hview : (yard ℕ ℤ).Reach (fun _ b => ∀ p, b ≠ .charge p) s.view := by
    refine Machine.Reach.simulate Procs.view ?_ ?_ h
    · rintro s rfl
      exact view_init
    · intro s a s' hs _ ha hstep
      rcases view_step (fresh_of_reach hs) (counted_view hs) hstep with heq | ⟨b, -, hb, hnext⟩
      · exact .inl heq
      · exact .inr ⟨b, hb (hG s a ha), hnext⟩
  exact exact_of_reach (fun _ p hp => hp p rfl) hview

/-- **The runs of the condition** are runs of the members and objects in which the last member
leaves alone. -/
lemma view_of_reach (h : procsMachine.Reach LastAlone s) : (yard ℕ ℤ).Reach AloneLast s.view := by
  refine Machine.Reach.simulate Procs.view ?_ ?_ h
  · rintro s rfl
    exact view_init
  · intro s a s' hs _ halone hstep
    rcases view_step (fresh_of_reach hs) (counted_view hs) hstep with heq | ⟨b, hb, -, hnext⟩
    · exact .inl heq
    · exact .inr ⟨b, hb halone, hnext⟩

/-- **A pcb is destroyed once**, and then no tcb refers to it but the one that is being reaped. -/
theorem destroyed_once (h : procsMachine.Reach LastAlone s) (hc : s.cells p = some c) :
    c.destroyed ≤ 1 ∧
      (0 < c.destroyed → ∀ t, (s.phases t).pid = some p → s.reaper = .cleared t) := by
  have hview := view_of_reach h
  refine ⟨destroyed_le_one hview (view_object hc), fun hd t ht => ?_⟩
  exact cleared_of_destroyed hview (view_object hc) hd ht

/-- The steps of `vanish` in thread `t`, the last one of its process or not. -/
def vanishSteps (t : ℕ) (status : ℤ) : List ProcsOp :=
  [.lookup t, .enter t, .decThreads t, .report t status .stored, .makeZombie t]

/-- The steps of a round of the reaper that destroys the pcb. -/
def reapSteps : List ProcsOp := [.remove 0, .retest 0, .destroy, .release]

/-- A process with two threads. The reaper is done with the first one when the second one vanishes,
while the process forks no more. -/
def oneByOne : List ProcsOp :=
  [.fork 2 .made, .threadFork 3 .made] ++ vanishSteps 4 0 ++ [.remove 0, .retest 0, .release] ++
    vanishSteps 3 7 ++ reapSteps.take 3

/-- In one run the pcb is destroyed once, for the second thread. -/
theorem destroyed_once_oneByOne : ∃ s c,
    Machine.replay (Machine.guarded LastAlone procsNext) procsInit oneByOne = some s ∧
      s.cells 2 = some c ∧ c.destroyed = 1 ∧
      ∀ t, (s.phases t).pid = some 2 → s.reaper = .cleared t := by
  have hrun : (Machine.replay (Machine.guarded LastAlone procsNext) procsInit oneByOne).map
      (fun s => (s.cells 2).map Cell.destroyed) = some (some 1) := by decide +kernel
  obtain ⟨s, hs, hview⟩ := Option.map_eq_some_iff.mp hrun
  obtain ⟨c, hc, hd⟩ := Option.map_eq_some_iff.mp hview
  refine ⟨s, c, hs, hc, hd, (destroyed_once ?_ hc).2 (by omega)⟩
  exact Machine.reach_of_guarded (fun _ _ _ h => h) oneByOne (.init rfl) hs

/-- Both threads vanish before the reaper sees the first one. -/
def twoZombies : List ProcsOp :=
  [.fork 2 .made, .threadFork 3 .made] ++ vanishSteps 4 0 ++ vanishSteps 3 7 ++ reapSteps

/-- **Two zombies**: the pcb is destroyed with the first one, and the second one refers to it; and
then it is destroyed with the second one, if what was freed still reads as zero. -/
theorem not_destroyed_once_twoZombies :
    ¬ ∀ s, procsMachine.Reachable s → ∀ p c, s.cells p = some c →
      c.destroyed ≤ 1 ∧
        (0 < c.destroyed → ∀ t, (s.phases t).pid = some p → s.reaper = .cleared t) := by
  have hrun : (Machine.replay procsNext procsInit twoZombies).map
      (fun s => ((s.cells 2).map Cell.destroyed, (s.phases 3).pid, s.reaper)) =
        some (some 1, some 2, .idle) := by decide +kernel
  obtain ⟨s, hs, hview⟩ := Option.map_eq_some_iff.mp hrun
  rw [Prod.mk.injEq, Prod.mk.injEq] at hview
  obtain ⟨hdestroyed, hpid, hidle⟩ := hview
  obtain ⟨c, hc, hd⟩ := Option.map_eq_some_iff.mp hdestroyed
  have hreach : procsMachine.Reachable s :=
    Machine.reach_of_replay (fun _ _ _ h => h) twoZombies (fun _ _ _ => trivial) (.init rfl) hs
  intro hall
  have hcleared := (hall s hreach 2 c hc).2 (by omega) 3 hpid
  rw [hidle] at hcleared
  cases hcleared

end ShrekOS.Teardown
