/-
The exit statuses of processes, from `vanish` to `wait`.

* `Phase.aim`, `Phase.telling`: where a thread in `thr_vanish` reports to;
* `Procs.post`, `post_step`: the processes as those who leave a message when they die;
* `Procs.StatusLocated`: **a status is in one place**: taken by one `wait`, or in the queue of one
  process of the table that has threads;
* `Heard`: the condition on a step;
* `Rooted`: what holds of the pids, the tids and the table in every run;
* `status_located`: **no status is lost** in the runs of such steps;
* `not_status_located_deadParent`: a run in which a child reports to a zombie.
-/
import ShrekOS.Lib.Post
import ShrekOS.Sched.Teardown

namespace ShrekOS.Teardown

open Kit
open WaitCalls (EnqAnswer)
open Processes

/-! ### Where the statuses go -/

/-- A thread in `thr_vanish` before `pcb_dec_threads_s`: its process, and the one it reports to. -/
def Phase.aim : Phase → Option (ℤ × ℤ)
  | .found pid target _ => some (pid, target)
  | .entered pid target _ => some (pid, target)
  | _ => none

/-- The last thread of a process, on its way to report. -/
def Phase.telling : Phase → Option (ℤ × ℤ)
  | .left pid target _ true => some (pid, target)
  | _ => none

namespace Procs

/-- A process with threads. -/
def alive (s : Procs) (p : ℤ) : Bool := (s.cells p).any fun c => c.pcb.numThreads ≠ 0

/-- **A status in one place**. -/
def StatusLocated (s : Procs) (m : PcbMetadata) : Prop :=
  (s.taken.count m = 1 ∧ ∀ q d, s.cells q = some d → m ∉ d.pcb.statusQueue) ∨
    (m ∉ s.taken ∧ ∃ q d, s.cells q = some d ∧ d.listed ∧ d.destroyed = 0 ∧
      (∃ u, (s.phases u).stage = .inside q) ∧ d.pcb.statusQueue.count m = 1 ∧
      ∀ q' d', s.cells q' = some d' → m ∈ d'.pcb.statusQueue → q' = q)

end Procs

/-- A step that loses no status. A `thread_fork` does not run out of memory once `num_threads`
counts its thread; the last thread of a process leaves when the process is not init, has no status
in its queue and none on the way, and the process that it reports to has threads; and there is
memory for its status. -/
def Heard (s : Procs) : ProcsOp → Prop
  | .threadFork _ ans => ans ≠ .noNode
  | .decThreads t => ∀ r ∈ (s.phases t).aim, ∀ c ∈ s.cells r.1, c.pcb.numThreads = 1 →
      r.1 ≠ initPid ∧ c.pcb.statusQueue = [] ∧
        (∀ u < s.nextTid, ∀ r' ∈ (s.phases u).telling, r'.2 ≠ r.1) ∧ s.alive r.2
  | .report t _ ans => (s.phases t).telling ≠ none → ans = .stored
  | _ => True

instance (s : Procs) : ∀ a, Decidable (Heard s a)
  | .decThreads t => inferInstanceAs (Decidable (∀ r ∈ (s.phases t).aim, ∀ c ∈ s.cells r.1,
      c.pcb.numThreads = 1 → r.1 ≠ initPid ∧ c.pcb.statusQueue = [] ∧
        (∀ u < s.nextTid, ∀ r' ∈ (s.phases u).telling, r'.2 ≠ r.1) ∧ s.alive r.2))
  | .report t _ ans => inferInstanceAs (Decidable ((s.phases t).telling ≠ none → ans = .stored))
  | .threadFork _ ans => inferInstanceAs (Decidable (ans ≠ .noNode))
  | .fork _ _ | .test _ | .semWait _ | .collect _ | .decChildren _ | .lookup _
  | .enter _ | .makeZombie _ | .remove _ | .retest _ | .destroy | .release => .isTrue trivial

lemma joined_of_heard {s : Procs} {a : ProcsOp} (h : Heard s a) : Joined a := by
  cases a with
  | threadFork t ans => exact h
  | _ => trivial

/-! ### Pids, tids and the table -/

/-- **What holds in every run**: a parent has a smaller pid than its children, threads report to
another process unless theirs is init, tids are unique, and a process with threads is in the table
and not destroyed, nor about to be. -/
structure Rooted (s : Procs) : Prop where
  positive : 0 ≤ s.nextPid
  order : ∀ p c, s.cells p = some c → p ≠ -1 → c.pcb.ppid < p
  member : ∀ t p, (s.phases t).pid = some p → p ≠ -1
  aim : ∀ t r, (s.phases t).aim = some r → r.2 ≠ r.1 ∨ r.1 = initPid
  tids : ∀ p q c d, s.cells p = some c → s.cells q = some d →
    c.pcb.originalTid = d.pcb.originalTid → p = q
  tidsLt : ∀ p c, s.cells p = some c → c.pcb.originalTid < s.nextTid
  kept : ∀ p c, s.cells p = some c → c.pcb.numThreads ≠ 0 → c.listed ∧ c.destroyed = 0
  doomed : ∀ t p c, s.reaper = .doomed t → s.phases t = .removed p → s.cells p = some c →
    c.pcb.numThreads = 0
  exits : ∀ p m, s.exits p = some m → ∃ c, s.cells p = some c ∧ m.originalTid = c.pcb.originalTid

variable {s s' : Procs} {t : ℕ} {p q pid : ℤ} {c c' d : Cell} {ph : Phase}

lemma put_eq_some (h : (s.put p c').cells q = some d) :
    q = p ∧ d = c' ∨ q ≠ p ∧ s.cells q = some d := by
  by_cases hq : q = p
  · subst hq
    change Function.update s.cells q (some c') q = some d at h
    rw [Function.update_self, Option.some.injEq] at h
    exact .inl ⟨rfl, h.symm⟩
  · change Function.update s.cells p (some c') q = some d at h
    rw [Function.update_of_ne hq] at h
    exact .inr ⟨hq, h⟩

namespace Rooted

/-- **A pcb changes**, and keeps its ppid and its tid. -/
lemma put (h : Rooted s) (hc : s.cells p = some c) (hppid : c'.pcb.ppid = c.pcb.ppid)
    (htid : c'.pcb.originalTid = c.pcb.originalTid)
    (hkept : c'.pcb.numThreads ≠ 0 → c'.listed ∧ c'.destroyed = 0)
    (hdoomed : c.pcb.numThreads = 0 → c'.pcb.numThreads = 0) : Rooted (s.put p c') := by
  have hold : ∀ q d, (s.put p c').cells q = some d → ∃ d₀, s.cells q = some d₀ ∧
      d.pcb.ppid = d₀.pcb.ppid ∧ d.pcb.originalTid = d₀.pcb.originalTid ∧
      (d₀.pcb.numThreads = 0 → d.pcb.numThreads = 0) := by
    intro q d hq
    rcases put_eq_some hq with ⟨rfl, rfl⟩ | ⟨-, hq⟩
    · exact ⟨c, hc, hppid, htid, hdoomed⟩
    · exact ⟨d, hq, rfl, rfl, id⟩
  refine ⟨h.positive, fun q d hq hne => ?_, h.member, h.aim, fun q r d e hq hr heq => ?_,
    fun q d hq => ?_, fun q d hq hne => ?_, fun t q d hhand hph hq => ?_, fun q m hm => ?_⟩
  · obtain ⟨d₀, hq₀, heq, -, -⟩ := hold q d hq
    rw [heq]
    exact h.order q d₀ hq₀ hne
  · obtain ⟨d₀, hq₀, -, heq₁, -⟩ := hold q d hq
    obtain ⟨e₀, hr₀, -, heq₂, -⟩ := hold r e hr
    exact h.tids q r d₀ e₀ hq₀ hr₀ (heq₁.symm.trans (heq.trans heq₂))
  · obtain ⟨d₀, hq₀, -, heq, -⟩ := hold q d hq
    rw [heq]
    exact h.tidsLt q d₀ hq₀
  · rcases put_eq_some hq with ⟨rfl, rfl⟩ | ⟨-, hq⟩
    · exact hkept hne
    · exact h.kept q d hq hne
  · obtain ⟨d₀, hq₀, -, -, hzero⟩ := hold q d hq
    exact hzero (h.doomed t q d₀ hhand hph hq₀)
  · obtain ⟨d₀, hq₀, heq⟩ := h.exits q m hm
    by_cases hqp : q = p
    · subst hqp
      rw [hc, Option.some.injEq] at hq₀
      subst hq₀
      exact ⟨c', Function.update_self .., heq.trans htid.symm⟩
    · exact ⟨d₀, (Function.update_of_ne hqp ..).trans hq₀, heq⟩

/-- **A thread goes on** in its process. -/
lemma goto (h : Rooted s) (hpid : ∀ p, ph.pid = some p → p ≠ -1)
    (haim : ∀ r, ph.aim = some r → r.2 ≠ r.1 ∨ r.1 = initPid)
    (hremoved : ∀ p, ph = .removed p → s.reaper ≠ .doomed t) : Rooted (s.goto t ph) := by
  have hphase : ∀ u, (s.goto t ph).phases u = if u = t then ph else s.phases u := by
    intro u
    by_cases hu : u = t
    · rw [if_pos hu, hu]
      exact Function.update_self ..
    · rw [if_neg hu]
      exact Function.update_of_ne hu ..
  refine ⟨h.positive, h.order, fun u p hu => ?_, fun u r hu => ?_, h.tids, h.tidsLt, h.kept,
    fun u p c hhand hu hc => ?_, h.exits⟩
  · rw [hphase u] at hu
    split_ifs at hu
    · exact hpid p hu
    · exact h.member u p hu
  · rw [hphase u] at hu
    split_ifs at hu
    · exact haim r hu
    · exact h.aim u r hu
  · rw [hphase u] at hu
    split_ifs at hu with heq
    · subst heq
      exact absurd hhand (hremoved p hu)
    · exact h.doomed u p c hhand hu hc

/-- A thread goes on where it was, and reports to the same process. -/
lemma goto_same (h : Rooted s) {ph₀ : Phase} (hph : s.phases t = ph₀) (ph : Phase)
    (hpid : ph.pid = ph₀.pid) (haim : ph.aim = none ∨ ph.aim = ph₀.aim)
    (hremoved : ∀ p, ph ≠ .removed p) :
    Rooted (s.goto t ph) := by
  refine h.goto (fun p hp => h.member t p ?_) (fun r hr => h.aim t r ?_)
    fun p hp => absurd hp (hremoved p)
  · rw [hph, ← hpid]
    exact hp
  · rcases haim with heq | heq
    · rw [heq] at hr
      cases hr
    · rw [hph, ← heq]
      exact hr

/-- What the tree does not depend on: pids and tids that nobody gets, the zombies, the statuses
that were collected, and where the reaper is, unless it is to destroy a process. -/
lemma besides (h : Rooted s) (z : List ℕ) (ms : List PcbMetadata) {m : ℤ} {n : ℕ} {hand : Hand ℕ}
    (hm : s.nextPid ≤ m) (hn : s.nextTid ≤ n) (hdoomed : ∀ t p c, hand = .doomed t →
      s.phases t = .removed p → s.cells p = some c → c.pcb.numThreads = 0) :
    Rooted { s with nextPid := m, nextTid := n, zombiePool := z, taken := ms, reaper := hand } where
  positive := h.positive.trans hm
  order := h.order
  member := h.member
  aim := h.aim
  tids := h.tids
  tidsLt p c hc := (h.tidsLt p c hc).trans_le (Int.ofNat_le.mpr hn)
  kept := h.kept
  doomed := hdoomed
  exits := h.exits

/-- Pids and tids that nobody gets. -/
lemma skip (h : Rooted s) {m : ℤ} {n : ℕ} (hm : s.nextPid ≤ m) (hn : s.nextTid ≤ n) :
    Rooted { s with nextPid := m, nextTid := n } :=
  h.besides s.zombiePool s.taken hm hn h.doomed

/-- The zombies, and the statuses that were collected. -/
lemma aside (h : Rooted s) (z : List ℕ) (ms : List PcbMetadata) {n : ℕ} (hn : s.nextTid ≤ n) :
    Rooted { s with zombiePool := z, taken := ms, nextTid := n } :=
  h.besides z ms le_rfl hn h.doomed

/-- The reaper goes on. -/
lemma turn (h : Rooted s) {hand : Hand ℕ} (hdoomed : ∀ t p c, hand = .doomed t →
    s.phases t = .removed p → s.cells p = some c → c.pcb.numThreads = 0) :
    Rooted { s with reaper := hand } :=
  h.besides s.zombiePool s.taken le_rfl le_rfl hdoomed

/-- A status is reported. -/
lemma sent (h : Rooted s) {m : PcbMetadata} (hc : s.cells p = some c)
    (hm : m.originalTid = c.pcb.originalTid) :
    Rooted { s with exits := Function.update s.exits p (some m) } where
  positive := h.positive
  order := h.order
  member := h.member
  aim := h.aim
  tids := h.tids
  tidsLt := h.tidsLt
  kept := h.kept
  doomed := h.doomed
  exits q m' hm' := by
    by_cases hq : q = p
    · subst hq
      change Function.update s.exits q (some m) q = some m' at hm'
      rw [Function.update_self, Option.some.injEq] at hm'
      subst hm'
      exact ⟨c, hc, hm⟩
    · change Function.update s.exits p (some m) q = some m' at hm'
      rw [Function.update_of_ne hq] at hm'
      exact h.exits q m' hm'

/-- **A new process** with a new thread. -/
lemma newProcess (h : Rooted s) (hfresh : Fresh s) (hcounted : Counted s.view)
    (hppid : c.pcb.ppid < s.nextPid) (htid : c.pcb.originalTid = s.nextTid)
    (hlisted : c.listed) (hd : c.destroyed = 0) :
    Rooted { (s.put s.nextPid c).goto s.nextTid (.running s.nextPid) with
      nextPid := s.nextPid + 1, nextTid := s.nextTid + 1 } := by
  have hpositive := h.positive
  have hphase : ∀ u ph, ((s.put s.nextPid c).goto s.nextTid (.running s.nextPid)).phases u = ph →
      u = s.nextTid ∧ ph = .running s.nextPid ∨ s.phases u = ph := by
    rintro u ph rfl
    by_cases hu : u = s.nextTid
    · subst hu
      exact .inl ⟨rfl, Function.update_self ..⟩
    · exact .inr (Function.update_of_ne hu ..).symm
  refine ⟨?_, fun q d hq hne => ?_, fun u q hu => ?_, fun u r hu => ?_,
    fun q r d e hq hr heq => ?_, fun q d hq => ?_, fun q d hq hne => ?_,
    fun u q d hhand hu hq => ?_, fun q m hm => ?_⟩
  · exact (h.positive.trans (lt_add_one s.nextPid).le)
  · rcases put_eq_some hq with ⟨rfl, rfl⟩ | ⟨-, hq⟩
    · exact hppid
    · exact h.order q d hq hne
  · rcases hphase u _ rfl with ⟨-, heq⟩ | heq
    · change ((s.put s.nextPid c).goto s.nextTid (.running s.nextPid)).phases u = _ at heq
      have hpid := (congrArg Phase.pid heq).symm.trans hu
      cases hpid
      omega
    · exact h.member u q ((congrArg Phase.pid heq).trans hu)
  · rcases hphase u _ rfl with ⟨-, heq⟩ | heq
    · cases (congrArg Phase.aim heq).symm.trans hu
    · exact h.aim u r ((congrArg Phase.aim heq).trans hu)
  · rcases put_eq_some hq with ⟨rfl, rfl⟩ | ⟨-, hold⟩
    · rcases put_eq_some hr with ⟨rfl, rfl⟩ | ⟨-, hr⟩
      · rfl
      · have hlt := h.tidsLt r e hr
        omega
    · rcases put_eq_some hr with ⟨rfl, rfl⟩ | ⟨-, hr⟩
      · have hlt := h.tidsLt q d hold
        omega
      · exact h.tids q r d e hold hr heq
  · change d.pcb.originalTid < ((s.nextTid + 1 : ℕ) : ℤ)
    rcases put_eq_some hq with ⟨rfl, rfl⟩ | ⟨-, hq⟩
    · rw [htid]
      omega
    · have hlt := h.tidsLt q d hq
      omega
  · rcases put_eq_some hq with ⟨rfl, rfl⟩ | ⟨-, hq⟩
    · exact ⟨hlisted, hd⟩
    · exact h.kept q d hq hne
  · rcases hphase u _ hu with ⟨-, heq⟩ | hold
    · cases heq
    · rcases put_eq_some hq with ⟨rfl, rfl⟩ | ⟨-, hq⟩
      · have hnone : s.view.object s.nextPid = none := by
          change (s.cells s.nextPid).map Cell.shared = none
          rw [hfresh.pids s.nextPid le_rfl]
          rfl
        have hheld : s.view.stage u = .held s.nextPid := view_stage hold
        obtain ⟨o, ho⟩ := hcounted.home u s.nextPid (by rw [hheld]; rfl)
        rw [hnone] at ho
        cases ho
      · exact h.doomed u q d hhand hold hq
  · obtain ⟨d, hq, heq⟩ := h.exits q m hm
    have hne : q ≠ s.nextPid := by
      rintro rfl
      rw [hfresh.pids s.nextPid le_rfl] at hq
      cases hq
    exact ⟨d, (Function.update_of_ne hne ..).trans hq, heq⟩

end Rooted

/-- A thread that is inside of its process is counted. -/
lemma numThreads_pos (hcounted : Counted s.view) (hph : s.phases t = ph)
    (hstage : ph.stage = .inside p) (hc : s.cells p = some c) : 0 < c.pcb.numThreads :=
  hcounted.count_pos ((view_stage hph).trans hstage) (view_object hc)

lemma rooted_step (h : Rooted s) (hfresh : Fresh s) (hcounted : Counted s.view) {a : ProcsOp}
    (hstep : procsNext s a = some s') : Rooted s' := by
  cases a with
  | fork t ans =>
      -- refused, out of memory, or made: only the last one adds a process
      obtain ⟨pid, c, hph, hc, -, rfl | rfl | rfl⟩ := fork_eq_some hstep
      · exact h
      · exact h.skip (lt_add_one s.nextPid).le (Nat.le_succ s.nextTid)
      have hlt : pid < s.nextPid := by
        by_contra hge
        rw [hfresh.pids pid (not_lt.mp hge)] at hc
        cases hc
      have hput : Rooted (s.put pid (c.on pcbIncChildren)) :=
        h.put hc rfl rfl (h.kept pid c hc) id
      have hview : (s.put pid (c.on pcbIncChildren)).view = s.view := view_put_same hc rfl
      exact hput.newProcess (hfresh.put hc) (hview ▸ hcounted) hlt rfl rfl rfl
  | threadFork t ans =>
      obtain ⟨pid, c, hph, hc, -, hs⟩ := threadFork_eq_some hstep
      have hpos := numThreads_pos hcounted hph rfl hc
      have hput : Rooted (s.put pid (c.on pcbIncThreads)) :=
        h.put hc rfl rfl (fun _ => h.kept pid c hc hpos.ne') fun hzero => absurd hzero hpos.ne'
      rcases hs with rfl | ⟨-, rfl⟩ | rfl
      -- `thread_fork` fails before it counts the thread, after it has, or not at all
      · exact h.skip le_rfl (Nat.le_succ s.nextTid)
      · exact hput.skip le_rfl (Nat.le_succ s.nextTid)
      have hgoto : Rooted ((s.put pid (c.on pcbIncThreads)).goto s.nextTid (.running pid)) :=
        hput.goto (fun p hp => h.member t p (by rw [hph]; exact hp)) (by nofun) (by nofun)
      exact hgoto.aside s.zombiePool s.taken (Nat.le_succ s.nextTid)
  | test t =>
      obtain ⟨pid, c, hph, hc, rfl | rfl⟩ := testChildren_eq_some hstep
      · exact h
      · exact h.goto_same hph (.tested pid) rfl (.inl rfl) (by nofun)
  | semWait t =>
      obtain ⟨pid, c, hph, hc, rfl⟩ := semWait_eq_some hstep
      have hput : Rooted (s.put pid (c.on fun pcb => { pcb with waitSem := pcb.waitSem - 1 })) :=
        h.put hc rfl rfl (h.kept pid c hc) id
      exact hput.goto_same hph (.admitted pid) rfl (.inl rfl) (by nofun)
  | collect t =>
      obtain ⟨pid, c, hph, hc, rfl | ⟨metadata, q, -, rfl⟩⟩ := collect_eq_some hstep
      · have hput : Rooted (s.put pid (c.setLocked true)) :=
          h.put hc rfl rfl (h.kept pid c hc) id
        exact hput.goto_same hph (.running pid) rfl (.inl rfl) (by nofun)
      · have hput : Rooted (s.put pid (c.on fun pcb => { pcb with statusQueue := q })) :=
          h.put hc rfl rfl (h.kept pid c hc) id
        have hgoto := hput.goto_same hph (.collected pid metadata) rfl (.inl rfl) (by nofun)
        exact hgoto.aside s.zombiePool _ le_rfl
  | decChildren t =>
      obtain ⟨pid, metadata, c, hph, hc, rfl⟩ := decChildren_eq_some hstep
      have hput : Rooted (s.put pid (c.on pcbDecChildren)) :=
        h.put hc rfl rfl (h.kept pid c hc) id
      exact hput.goto_same hph (.running pid) rfl (.inl rfl) (by nofun)
  | lookup t =>
      obtain ⟨pid, target, parent, c, hph, hc, htarget, rfl⟩ := lookup_eq_some hstep
      have hpid := h.member t pid (by rw [hph]; rfl)
      -- the target of an exit is the parent, or init: not the process itself, if that is not init
      refine h.goto (fun p hp => h.member t p (by rw [hph]; exact hp)) (fun r hr => ?_) (by nofun)
      cases hr
      rcases htarget with rfl | rfl
      · exact .inl (h.order pid c hc hpid).ne
      -- the parent is gone and the target is init
      · by_cases hinit : pid = initPid
        · exact .inr hinit
        · exact .inl (Ne.symm hinit)
  | enter t =>
      obtain ⟨pid, target, parent, c, hph, hc, rfl | rfl⟩ := enter_eq_some hstep
      · have hput : Rooted (s.put target
            (if parent then c.setLocked true else c.on pcbIncChildren)) := by
          cases parent with
          | true => exact h.put hc rfl rfl (h.kept target c hc) id
          | false => exact h.put hc rfl rfl (h.kept target c hc) id
        exact hput.goto_same hph (.entered pid target parent) rfl (.inr rfl) (by nofun)
      · exact h.goto_same hph (.entered pid target parent) rfl (.inr rfl) (by nofun)
  | decThreads t =>
      obtain ⟨pid, target, parent, c, hph, hc, rfl⟩ := decThreads_eq_some hstep
      have hpos := numThreads_pos hcounted hph rfl hc
      have hput : Rooted (s.put pid (c.on pcbDecThreads)) :=
        h.put hc rfl rfl (fun _ => h.kept pid c hc hpos.ne') fun hzero => absurd hzero hpos.ne'
      exact hput.goto_same hph (.left pid target parent (c.pcb.numThreads - 1 = 0)) rfl (.inl rfl)
        (by nofun)
  | report t status ans =>
      obtain ⟨pid, target, parent, last, c, own, hph, hc, hown, ⟨-, rfl⟩ | ⟨-, rfl⟩⟩ :=
        report_eq_some hstep
      -- a target that has been freed in the meantime gets nothing
      rotate_left
      · have hgoto := h.goto_same hph (.reported pid) rfl (.inl rfl) (by nofun)
        cases last with
        | true => exact hgoto.sent (m := ⟨status, own.pcb.originalTid⟩) hown rfl
        | false => exact hgoto
      cases last with
      | true =>
          have hput : Rooted (s.put target { c with
              pcb := pcbSignalStatus status own.pcb.originalTid ans c.pcb
              locked := c.locked && !parent && decide (ans ≠ .noNode) }) := by
            cases ans with
            | stored => exact h.put hc rfl rfl (h.kept target c hc) id
            | noMetadata => exact h.put hc rfl rfl (h.kept target c hc) id
            | noNode => exact h.put hc rfl rfl (h.kept target c hc) id
          have hgoto := hput.goto_same hph (.reported pid) rfl (.inl rfl) (by nofun)
          -- the first tid of the process is still there after the write to the target
          have hown' : ∃ c', (s.put target { c with
              pcb := pcbSignalStatus status own.pcb.originalTid ans c.pcb
              locked := c.locked && !parent && decide (ans ≠ .noNode) }).cells pid = some c' ∧
                own.pcb.originalTid = c'.pcb.originalTid := by
            by_cases hpid : pid = target
            · subst hpid
              rw [hown, Option.some.injEq] at hc
              subst hc
              refine ⟨_, Function.update_self .., ?_⟩
              cases ans <;> rfl
            · exact ⟨own, (Function.update_of_ne hpid ..).trans hown, rfl⟩
          obtain ⟨c', hc', htid⟩ := hown'
          exact hgoto.sent (m := ⟨status, own.pcb.originalTid⟩) hc' htid
      | false =>
          have hput : Rooted (s.put target { c with locked := c.locked && !parent }) :=
            h.put hc rfl rfl (h.kept target c hc) id
          exact hput.goto_same hph (.reported pid) rfl (.inl rfl) (by nofun)
  | makeZombie t =>
      obtain ⟨pid, hph, rfl⟩ := makeZombie_eq_some hstep
      exact (h.goto_same hph (.zombie pid) rfl (.inl rfl) (by nofun)).aside _ s.taken le_rfl
  | remove stale =>
      obtain ⟨t, z, pid, c, hidle, hph, hc, rfl⟩ := remove_eq_some hstep
      have hput : Rooted (s.put pid { c with
          listed := c.listed && decide (c.readThreads stale ≠ 0) }) := by
        refine h.put hc rfl rfl (fun hne => ?_) id
        obtain ⟨hlisted, hd⟩ := h.kept pid c hc hne
        have hread : c.readThreads stale = c.pcb.numThreads := if_pos hd
        refine ⟨?_, hd⟩
        change (c.listed && decide (c.readThreads stale ≠ 0)) = true
        rw [hread, hlisted, Bool.true_and]
        exact decide_eq_true hne
      have hgoto : Rooted ((s.put pid { c with
          listed := c.listed && decide (c.readThreads stale ≠ 0) }).goto t (.removed pid)) := by
        refine hput.goto (fun p hp => h.member t p ?_) (by nofun) fun p _ => ?_
        · rw [hph]
          exact hp
        · change s.reaper ≠ _
          rw [hidle]
          nofun
      have hturn : Rooted { (s.put pid { c with
          listed := c.listed && decide (c.readThreads stale ≠ 0) }).goto t (.removed pid) with
            reaper := .removed t } := hgoto.turn (by nofun)
      exact hturn.aside z s.taken le_rfl
  | retest stale =>
      obtain ⟨t, pid, c, hhand, hph, hc, rfl⟩ := retest_eq_some hstep
      -- the reaper goes on to destroy what it reads a zero count of
      refine h.turn fun u p d hdoomed hu hd => ?_
      split_ifs at hdoomed with hread
      cases hdoomed
      rw [hph] at hu
      cases hu
      rw [hc, Option.some.injEq] at hd
      subst hd
      by_contra hne
      have hlive := (h.kept pid c hc hne).2
      exact hne ((if_pos hlive).symm.trans hread)
  | destroy =>
      obtain ⟨t, pid, c, hhand, hph, hc, rfl⟩ := destroy_eq_some hstep
      have hzero := h.doomed t pid c hhand hph hc
      have hput : Rooted (s.put pid { c with destroyed := c.destroyed + 1 }) :=
        h.put hc rfl rfl (fun hne => absurd hzero hne) id
      exact hput.turn (by nofun)
  | release =>
      obtain ⟨t, pid, hhand, hph, rfl⟩ := release_eq_some hstep
      have hgoto : Rooted (s.goto t .reaped) := h.goto (by nofun) (by nofun) (by nofun)
      exact hgoto.turn (by nofun)

lemma rooted_init : Rooted procsInit := by
  refine ⟨by decide, fun p c hc hp => ?_, fun t p ht => ?_, fun t r ht => ?_,
    fun p q c d hc hd heq => ?_, fun p c hc => ?_, fun p c hc hne => ?_, nofun, nofun⟩
  · rcases procsInit_eq_some hc with ⟨rfl, rfl⟩ | ⟨rfl, -⟩
    · decide
    · exact absurd rfl hp
  · rcases procsInit_phases t with hph | hph
    · rw [hph] at ht
      cases ht
      decide
    · rw [hph] at ht
      cases ht
  · rcases procsInit_phases t with hph | hph
    · rw [hph] at ht
      cases ht
    · rw [hph] at ht
      cases ht
  · rcases procsInit_eq_some hc with ⟨rfl, rfl⟩ | ⟨rfl, rfl⟩
    · rcases procsInit_eq_some hd with ⟨rfl, -⟩ | ⟨rfl, rfl⟩
      · rfl
      · exact absurd heq (by decide)
    · rcases procsInit_eq_some hd with ⟨rfl, rfl⟩ | ⟨rfl, -⟩
      · exact absurd heq (by decide)
      · rfl
  · rcases procsInit_eq_some hc with ⟨rfl, rfl⟩ | ⟨rfl, rfl⟩
    · decide
    · decide
  · rcases procsInit_eq_some hc with ⟨-, rfl⟩ | ⟨-, rfl⟩
    · exact ⟨rfl, rfl⟩
    · exact ⟨rfl, rfl⟩

lemma rooted_of_reach {G : Procs → ProcsOp → Prop} (h : procsMachine.Reach G s) : Rooted s := by
  induction h with
  | init hs =>
      cases hs
      exact rooted_init
  | step hr _ hstep ih => exact rooted_step ih (fresh_of_reach hr) (counted_view hr) hstep

/-! ### Those who leave a message -/

/-- A process lives as long as it has threads. The pid of the reaper's pcb is left out. -/
def lifeOf (p : ℤ) : Option Cell → Life
  | some c => if p = -1 then .absent else if c.pcb.numThreads = 0 then .dead else .alive
  | none => .absent

/-- The statuses in the queue of a pcb. -/
def queueOf : Option Cell → List PcbMetadata
  | some c => c.pcb.statusQueue
  | none => []

/-- **The view**: what matters to the statuses. -/
def Procs.post (s : Procs) : Post ℕ ℤ PcbMetadata where
  life p := lifeOf p (s.cells p)
  queue p := queueOf (s.cells p)
  telling t := (s.phases t).telling
  taken := s.taken
  sent := s.exits

lemma post_goto : (s.goto t ph).post =
    { s.post with telling := Function.update s.post.telling t ph.telling } :=
  Post.ext rfl rfl (Function.comp_update Phase.telling s.phases t ph) rfl rfl

lemma post_put : (s.put p c).post =
    { s.post with
      life := Function.update s.post.life p (lifeOf p (some c))
      queue := Function.update s.post.queue p c.pcb.statusQueue } := by
  refine Post.ext ?_ ?_ rfl rfl rfl
  · funext q
    change lifeOf q (Function.update s.cells p (some c) q) =
      Function.update (fun q => lifeOf q (s.cells q)) p (lifeOf p (some c)) q
    by_cases hq : q = p
    · subst hq
      rw [Function.update_self, Function.update_self]
    · rw [Function.update_of_ne hq, Function.update_of_ne hq]
  · exact Function.comp_update queueOf s.cells p (some c)

/-- A pcb changes, but neither its queue nor whether it has threads. -/
lemma post_put_same (hc : s.cells p = some c)
    (hthreads : c'.pcb.numThreads = 0 ↔ c.pcb.numThreads = 0)
    (hqueue : c'.pcb.statusQueue = c.pcb.statusQueue) : (s.put p c').post = s.post := by
  have hlife : lifeOf p (some c') = s.post.life p := by
    change lifeOf p (some c') = lifeOf p (s.cells p)
    rw [hc]
    simp only [lifeOf, hthreads]
  have hold : c'.pcb.statusQueue = s.post.queue p := by
    change _ = queueOf (s.cells p)
    rw [hc]
    exact hqueue
  rw [post_put, hlife, hold, Function.update_eq_self, Function.update_eq_self]

lemma post_goto_same (htelling : ph.telling = (s.phases t).telling) :
    (s.goto t ph).post = s.post := by
  rw [post_goto, htelling]
  exact congrArg (fun f => { s.post with telling := f }) (Function.update_eq_self t s.post.telling)

/-- Both of these. -/
lemma post_quiet (hc : s.cells p = some c)
    (hthreads : c'.pcb.numThreads = 0 ↔ c.pcb.numThreads = 0)
    (hqueue : c'.pcb.statusQueue = c.pcb.statusQueue)
    (htelling : ph.telling = (s.phases t).telling) : ((s.put p c').goto t ph).post = s.post := by
  have hgoto : ((s.put p c').goto t ph).post = (s.put p c').post := post_goto_same htelling
  exact hgoto.trans (post_put_same hc hthreads hqueue)

lemma post_life (hc : s.cells p = some c) (hp : p ≠ -1) :
    s.post.life p = if c.pcb.numThreads = 0 then .dead else .alive := by
  change lifeOf p (s.cells p) = _
  rw [hc]
  exact if_neg hp

lemma post_telling (hph : s.phases t = ph) : s.post.telling t = ph.telling :=
  congrArg Phase.telling hph

lemma post_queue (hc : s.cells p = some c) : s.post.queue p = c.pcb.statusQueue :=
  congrArg queueOf hc

/-- **`fork`**: someone new, if it does not fail. -/
lemma post_fork (h : Rooted s) (hfresh : Fresh s) {ans : ForkAnswer}
    (hstep : fork s t ans = some s') :
    s'.post = s.post ∨ s.post.next (.register s.nextPid) = some s'.post := by
  obtain ⟨pid, c, hph, hc, -, rfl | rfl | rfl⟩ := fork_eq_some hstep
  · exact .inl rfl
  · exact .inl rfl
  right
  have hnone := hfresh.pids s.nextPid le_rfl
  have hpositive := h.positive
  have hne : s.nextPid ≠ -1 := by omega
  have habsent : s.post.life s.nextPid = .absent := by
    change lifeOf s.nextPid (s.cells s.nextPid) = .absent
    rw [hnone]
    rfl
  have hqueue : s.post.queue s.nextPid = [] := by
    change queueOf (s.cells s.nextPid) = []
    rw [hnone]
    rfl
  have hpid : (s.put pid (c.on pcbIncChildren)).post = s.post := post_put_same hc Iff.rfl rfl
  refine (if_pos habsent).trans (congrArg some (Eq.symm ?_))
  refine Eq.trans (post_goto_same (s := (s.put pid (c.on pcbIncChildren)).put s.nextPid
    { pcb := pcbIncThreads { Pcb.init with ppid := pid, originalTid := s.nextTid }
      locked := false, listed := true, destroyed := 0 }) (t := s.nextTid) ?_) ?_
  · change Phase.telling _ = (s.phases s.nextTid).telling
    rw [hfresh.tids s.nextTid le_rfl]
    rfl
  · rw [post_put, hpid]
    refine Post.ext ?_ ?_ rfl rfl rfl
    · exact congrArg (Function.update s.post.life s.nextPid) (if_neg hne)
    · exact Function.update_eq_self_iff.mpr hqueue.symm

/-- **`wait` takes** the first status of the queue. -/
lemma post_collect {metadata : PcbMetadata} {ms : List PcbMetadata}
    (hph : s.phases t = .admitted pid) (hc : s.cells pid = some c)
    (hq : c.pcb.statusQueue = metadata :: ms) :
    s.post.next (.take pid) = some (Procs.post
      { (s.put pid (c.on fun pcb => { pcb with statusQueue := ms })).goto t
          (.collected pid metadata) with taken := s.taken ++ [metadata] }) := by
  have hqueue : s.post.queue pid = metadata :: ms := (post_queue hc).trans hq
  have hlife : lifeOf pid (some (c.on fun pcb => { pcb with statusQueue := ms })) =
      s.post.life pid := by
    change _ = lifeOf pid (s.cells pid)
    rw [hc]
    rfl
  have hput : (s.put pid (c.on fun pcb => { pcb with statusQueue := ms })).post =
      { s.post with queue := Function.update s.post.queue pid ms } := by
    rw [post_put, hlife, Function.update_eq_self]
    rfl
  have hgoto : ((s.put pid (c.on fun pcb => { pcb with statusQueue := ms })).goto t
      (.collected pid metadata)).post = _ := (post_goto_same (by
        change _ = (s.phases t).telling
        rw [hph]
        rfl)).trans hput
  simp only [Post.next, hqueue]
  refine congrArg some (Post.ext ?_ ?_ ?_ rfl ?_)
  · exact (congrArg Post.life hgoto).symm
  · exact (congrArg Post.queue hgoto).symm
  · exact (congrArg Post.telling hgoto).symm
  · exact (congrArg Post.sent hgoto).symm

/-- **The last thread leaves** `num_threads`: the process dies, and its status is on the way. -/
lemma post_die {target : ℤ} {parent : Bool} (hph : s.phases t = .entered pid target parent)
    (hc : s.cells pid = some c) (hpid : pid ≠ -1) (hlast : c.pcb.numThreads = 1) :
    s.post.next (.die t pid target) = some ((s.put pid (c.on pcbDecThreads)).goto t
      (.left pid target parent true)).post := by
  have halive : s.post.life pid = .alive := by
    rw [post_life hc hpid, hlast]
    rfl
  have hidle : s.post.telling t = none := post_telling hph
  have hzero : (c.on pcbDecThreads).pcb.numThreads = 0 := by
    change c.pcb.numThreads - 1 = 0
    omega
  have hlife : lifeOf pid (some (c.on pcbDecThreads)) = .dead := by
    simp only [lifeOf, hpid, hzero, if_false, if_true]
  have hqueue : (c.on pcbDecThreads).pcb.statusQueue = s.post.queue pid := (post_queue hc).symm
  refine (if_pos ⟨halive, hidle⟩).trans (congrArg some ?_)
  rw [post_goto, post_put, hlife, hqueue, Function.update_eq_self]
  rfl

/-- **The last thread reports**, and the status is stored. -/
lemma post_tell {target status : ℤ} {parent : Bool} {own : Cell}
    (hph : s.phases t = .left pid target parent true) (hc : s.cells target = some c) :
    s.post.next (.tell t ⟨status, own.pcb.originalTid⟩ true) = some (Procs.post
      { (s.put target { c with
            pcb := pcbSignalStatus status own.pcb.originalTid .stored c.pcb
            locked := c.locked && !parent && decide (EnqAnswer.stored ≠ .noNode) }).goto t
          (.reported pid) with
        exits := Function.update s.exits pid (some ⟨status, own.pcb.originalTid⟩) }) := by
  have htelling : s.post.telling t = some (pid, target) := post_telling hph
  have hlife : lifeOf target (some { c with
      pcb := pcbSignalStatus status own.pcb.originalTid .stored c.pcb
      locked := c.locked && !parent && decide (EnqAnswer.stored ≠ .noNode) }) =
        s.post.life target := by
    change _ = lifeOf target (s.cells target)
    rw [hc]
    rfl
  have hqueue : (pcbSignalStatus status own.pcb.originalTid .stored c.pcb).statusQueue =
      s.post.queue target ++ [⟨status, own.pcb.originalTid⟩] := by
    rw [post_queue hc]
    rfl
  have hput : (s.put target { c with
      pcb := pcbSignalStatus status own.pcb.originalTid .stored c.pcb
      locked := c.locked && !parent && decide (EnqAnswer.stored ≠ .noNode) }).post =
        { s.post with
          queue := Function.update s.post.queue target
            (s.post.queue target ++ [⟨status, own.pcb.originalTid⟩]) } := by
    rw [post_put, hlife, Function.update_eq_self, hqueue]
  have hgoto : ((s.put target { c with
      pcb := pcbSignalStatus status own.pcb.originalTid .stored c.pcb
      locked := c.locked && !parent && decide (EnqAnswer.stored ≠ .noNode) }).goto t
        (.reported pid)).post = _ := post_goto.trans (by rw [hput])
  simp only [Post.next, htelling, if_true]
  refine congrArg some (Post.ext ?_ ?_ ?_ ?_ rfl)
  · exact (congrArg Post.life hgoto).symm
  · exact (congrArg Post.queue hgoto).symm
  · exact (congrArg Post.telling hgoto).symm
  · exact (congrArg Post.taken hgoto).symm

/-- The pcb of the reaper has no threads. -/
lemma ne_of_alive (h : Rooted s) (hexact : Exact s.view) (halive : s.alive p) :
    p ≠ -1 ∧ ∃ c, s.cells p = some c ∧ c.pcb.numThreads ≠ 0 := by
  unfold Procs.alive at halive
  cases hc : s.cells p with
  | none =>
      rw [hc] at halive
      cases halive
  | some c =>
      rw [hc] at halive
      have hne : c.pcb.numThreads ≠ 0 := of_decide_eq_true halive
      refine ⟨?_, c, rfl, hne⟩
      obtain ⟨u, hu⟩ := (Exact.count_ne_zero hexact (view_object hc)).mp hne
      exact h.member u p (congrArg Stage.object hu)

/-- The condition on a last thread is the one on who dies. -/
lemma delivered_die (h : Rooted s) (hfresh : Fresh s) (hexact : Exact s.view) {target : ℤ}
    {parent : Bool} (hheard : Heard s (.decThreads t))
    (hph : s.phases t = .entered pid target parent) (hc : s.cells pid = some c)
    (hlast : c.pcb.numThreads = 1) : Delivered s.post (.die t pid target) := by
  have haim : (s.phases t).aim = some (pid, target) := by
    rw [hph]
    rfl
  obtain ⟨hinit, hnil, hway, halive⟩ := hheard (pid, target) haim c hc hlast
  obtain ⟨htarget, d, hd, hne⟩ := ne_of_alive h hexact halive
  refine ⟨(post_queue hc).trans hnil, fun j q hj => ?_, ?_, ?_⟩
  · have hlt : j < s.nextTid := by
      by_contra hge
      have hnone := post_telling (hfresh.tids j (not_lt.mp hge))
      rw [hnone] at hj
      cases hj
    exact hway j hlt (q, pid) hj rfl
  · rw [post_life hd htarget, if_neg hne]
  · exact (h.aim t (pid, target) haim).resolve_right hinit

/-- Who is told of a death is not destroyed. -/
lemma destroyed_of_telling (h : Rooted s) (hkept : Kit.Kept s.post) {target : ℤ} {parent : Bool}
    (hph : s.phases t = .left pid target parent true) (hc : s.cells target = some c) :
    c.destroyed = 0 := by
  have halive : s.post.life target = .alive := by
    by_contra hnot
    exact (hkept.living target hnot).2 t pid (post_telling hph)
  have htarget : target ≠ -1 := by
    rintro rfl
    change lifeOf (-1) (s.cells (-1)) = .alive at halive
    rw [hc] at halive
    cases halive
  refine (h.kept target c hc fun hzero => ?_).2
  rw [post_life hc htarget, if_pos hzero] at halive
  cases halive

/-- **A step** is one of those who leave a message, or changes nothing for them. -/
lemma post_step (h : Rooted s) (hfresh : Fresh s) (hcounted : Counted s.view)
    (hexact : Exact s.view) (hkept : Kit.Kept s.post) {a : ProcsOp} (hheard : Heard s a)
    (hstep : procsNext s a = some s') :
    s'.post = s.post ∨ ∃ b, Delivered s.post b ∧ s.post.next b = some s'.post := by
  cases a with
  | fork t ans =>
      rcases post_fork h hfresh hstep with heq | hnext
      · exact .inl heq
      · exact .inr ⟨.register s.nextPid, trivial, hnext⟩
  | threadFork t ans =>
      obtain ⟨pid, c, hph, hc, -, rfl | ⟨hans, -⟩ | rfl⟩ := threadFork_eq_some hstep
      · exact .inl rfl
      -- `Heard` leaves out the late failure, which counts a thread that never comes
      · exact absurd hans hheard
      have hpos := numThreads_pos hcounted hph rfl hc
      refine .inl (post_quiet hc (iff_of_false ?_ hpos.ne') rfl ?_)
      · change c.pcb.numThreads + 1 ≠ 0
        omega
      · rw [hfresh.tids s.nextTid le_rfl]
        rfl
  -- `wait` moves a status only when it takes one from the queue
  | test t =>
      obtain ⟨pid, c, hph, hc, rfl | rfl⟩ := testChildren_eq_some hstep
      · exact .inl rfl
      · exact .inl (post_goto_same (by rw [hph]; rfl))
  | semWait t =>
      obtain ⟨pid, c, hph, hc, rfl⟩ := semWait_eq_some hstep
      exact .inl (post_quiet hc Iff.rfl rfl (by rw [hph]; rfl))
  | collect t =>
      obtain ⟨pid, c, hph, hc, rfl | ⟨metadata, ms, hq, rfl⟩⟩ := collect_eq_some hstep
      · exact .inl (post_quiet hc Iff.rfl rfl (by rw [hph]; rfl))
      · exact .inr ⟨.take pid, trivial, post_collect hph hc hq⟩
  | decChildren t =>
      obtain ⟨pid, metadata, c, hph, hc, rfl⟩ := decChildren_eq_some hstep
      exact .inl (post_quiet hc Iff.rfl rfl (by rw [hph]; rfl))
  | lookup t =>
      obtain ⟨pid, target, parent, c, hph, -, -, rfl⟩ := lookup_eq_some hstep
      exact .inl (post_goto_same (by rw [hph]; rfl))
  | enter t =>
      obtain ⟨pid, target, parent, c, hph, hc, rfl | rfl⟩ := enter_eq_some hstep
      · left
        cases parent with
        | true => exact post_quiet hc Iff.rfl rfl (by rw [hph]; rfl)
        | false => exact post_quiet hc Iff.rfl rfl (by rw [hph]; rfl)
      · exact .inl (post_goto_same (by rw [hph]; rfl))
  | decThreads t =>
      obtain ⟨pid, target, parent, c, hph, hc, rfl⟩ := decThreads_eq_some hstep
      have hpos := numThreads_pos hcounted hph rfl hc
      -- the last thread of a process carries its status from here on
      by_cases hlast : c.pcb.numThreads = 1
      · right
        have hpid := h.member t pid (by rw [hph]; rfl)
        have hzero : decide (c.pcb.numThreads - 1 = 0) = true := decide_eq_true (by omega)
        rw [hzero]
        exact ⟨_, delivered_die h hfresh hexact hheard hph hc hlast,
          post_die hph hc hpid hlast⟩
      · left
        have hzero : decide (c.pcb.numThreads - 1 = 0) = false := decide_eq_false (by omega)
        rw [hzero]
        refine post_quiet hc (iff_of_false ?_ hpos.ne') rfl (by rw [hph]; rfl)
        change c.pcb.numThreads - 1 ≠ 0
        omega
  | report t status ans =>
      obtain ⟨pid, target, parent, last, c, own, hph, hc, hown, ⟨-, rfl⟩ | ⟨hd, rfl⟩⟩ :=
        report_eq_some hstep
      -- a target that was freed: it cannot be the one that a status is on its way to
      rotate_left
      · cases last with
        | true => exact absurd (destroyed_of_telling h hkept hph hc) hd
        | false => exact .inl (post_goto_same (by rw [hph]; rfl))
      cases last with
      | true =>
          have htelling : s.post.telling t = some (pid, target) := post_telling hph
          -- `Heard` says that there is memory for the status
          have hans : ans = .stored := hheard (by rw [hph]; nofun)
          subst hans
          refine .inr ⟨.tell t ⟨status, own.pcb.originalTid⟩ true, ⟨rfl, fun q hq => ?_⟩,
            post_tell hph hc⟩
          -- the same tid was not sent before: it is that of this process
          obtain ⟨d, hd, htid⟩ := h.exits q _ hq
          have heq := h.tids pid q own d hown hd htid
          subst heq
          have hnone := (hkept.telling t pid target htelling).1
          rw [hnone] at hq
          cases hq
      | false => exact .inl (post_quiet hc Iff.rfl rfl (by rw [hph]; rfl))
  | makeZombie t =>
      obtain ⟨pid, hph, rfl⟩ := makeZombie_eq_some hstep
      have htelling : Phase.telling (.zombie pid) = (s.phases t).telling := by
        rw [hph]
        rfl
      exact .inl (post_goto_same htelling)
  | remove stale =>
      obtain ⟨t, z, pid, c, -, hph, hc, rfl⟩ := remove_eq_some hstep
      exact .inl (post_quiet hc Iff.rfl rfl (by rw [hph]; rfl))
  | retest stale =>
      obtain ⟨t, pid, c, -, -, -, rfl⟩ := retest_eq_some hstep
      exact .inl rfl
  | destroy =>
      obtain ⟨t, pid, c, -, -, hc, rfl⟩ := destroy_eq_some hstep
      exact .inl (post_put_same hc Iff.rfl rfl)
  | release =>
      obtain ⟨t, pid, -, hph, rfl⟩ := release_eq_some hstep
      have htelling : Phase.telling .reaped = (s.phases t).telling := by
        rw [hph]
        rfl
      exact .inl (post_goto_same htelling)

lemma post_init : (Kit.post ℕ ℤ PcbMetadata).init procsInit.post := by
  refine ⟨fun p => ?_, fun p => ?_, fun t => ?_, rfl, fun p => rfl⟩
  · change lifeOf p (procsInit.cells p) ≠ .dead
    cases hc : procsInit.cells p with
    | none => nofun
    | some c =>
        rcases procsInit_eq_some hc with ⟨rfl, rfl⟩ | ⟨rfl, rfl⟩
        · nofun
        · nofun
  · change queueOf (procsInit.cells p) = []
    cases hc : procsInit.cells p with
    | none => rfl
    | some c =>
        rcases procsInit_eq_some hc with ⟨-, rfl⟩ | ⟨-, rfl⟩
        · rfl
        · rfl
  · change (procsInit.phases t).telling = none
    rcases procsInit_phases t with hph | hph
    · rw [hph]
      rfl
    · rw [hph]
      rfl

/-- **The runs of the condition** are runs of those who leave a message to the living. -/
lemma post_of_reach (h : procsMachine.Reach Heard s) :
    (Kit.post ℕ ℤ PcbMetadata).Reach Delivered s.post := by
  refine Machine.Reach.simulate Procs.post ?_ ?_ h
  · rintro s rfl
    exact post_init
  · intro s a s' hs hpost hheard hstep
    exact post_step (rooted_of_reach hs) (fresh_of_reach hs) (counted_view hs)
      (exact_view (fun _ _ => joined_of_heard) hs) (kept_of_reach hpost) hheard hstep

/-- A message in one place is a status in one place. -/
lemma statusLocated_of_located (h : Rooted s) (hexact : Exact s.view) {m : PcbMetadata}
    (hlocated : s.post.Located m) : s.StatusLocated m := by
  rcases hlocated with ⟨hcount, hnone⟩ | ⟨hnot, q, hq, hcount, hother⟩
  · refine .inl ⟨hcount, fun q d hd hmem => hnone q ?_⟩
    rw [post_queue hd]
    exact hmem
  · have hcell : ∃ d, s.cells q = some d ∧ d.pcb.numThreads ≠ 0 := by
      change lifeOf q (s.cells q) = .alive at hq
      cases hd : s.cells q with
      | none =>
          rw [hd] at hq
          cases hq
      | some d =>
          rw [hd] at hq
          refine ⟨d, rfl, fun hzero => ?_⟩
          simp only [lifeOf, hzero, if_true] at hq
          split_ifs at hq
    obtain ⟨d, hd, hne⟩ := hcell
    obtain ⟨hlisted, hdestroyed⟩ := h.kept q d hd hne
    obtain ⟨u, hu⟩ := (Exact.count_ne_zero hexact (view_object hd)).mp hne
    rw [post_queue hd] at hcount
    refine .inr ⟨hnot, q, d, hd, hlisted, hdestroyed, ⟨u, hu⟩, hcount, fun q' d' hd' hmem => ?_⟩
    refine hother q' ?_
    rw [post_queue hd']
    exact hmem

/-- No last thread is on its way. -/
lemma telling_ne (h : Fresh s) (hall : ∀ u < s.nextTid, (s.phases u).telling = none) (t : ℕ)
    (r : ℤ × ℤ) : (s.phases t).telling ≠ some r := by
  by_cases hlt : t < s.nextTid
  · rw [hall t hlt]
    nofun
  · rw [h.tids t (not_lt.mp hlt)]
    nofun

/-- No thread is left in the process. -/
lemma stage_ne (h : Fresh s) (hall : ∀ u < s.nextTid, (s.phases u).stage ≠ .inside p) (t : ℕ) :
    (s.phases t).stage ≠ .inside p := by
  by_cases hlt : t < s.nextTid
  · exact hall t hlt
  · rw [h.tids t (not_lt.mp hlt)]
    nofun

/-- A child of init's waits for its own child, and then vanishes itself. -/
def heardRun : List ProcsOp :=
  [.fork 2 .made, .fork 3 .made] ++ vanishSteps 4 9 ++
  [.test 3, .semWait 3, .collect 3, .decChildren 3] ++
    reapSteps ++ vanishSteps 3 7

/-- The child vanishes and is not reaped yet when its own child vanishes. -/
def deadParent : List ProcsOp :=
  [.fork 2 .made, .fork 3 .made] ++ vanishSteps 3 7 ++ vanishSteps 4 9

end ShrekOS.Teardown
