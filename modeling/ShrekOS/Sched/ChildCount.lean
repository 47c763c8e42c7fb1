/-
The children that `num_child_proc` counts.

* `ProcTree.livingChildren`: the children of a process whose last thread has not vanished;
* `ProcTree.debt`: by how much `num_child_proc` is over what it should be, and `debt_thrVanish`,
  `debt_addProcess`, `debt_incThreads`, `debt_removePcb`: what is done to it;
* `Reported`: the condition on a step;
* `Settles`: an operation with no debt, which all but `thr_vanish` are;
* `numChildProc_eq`: **the accounts are right** in the runs of such steps, and
  `lt_numChildProc`: after another step they are not;
* `not_numChildProc_eq_orphanRun`: a run with an orphan of two threads.
-/
import ShrekOS.Sched.ProcTree

namespace ShrekOS.Processes

open Kit
open WaitCalls (EnqAnswer)

/-! ### What is counted -/

/-- A child of `p` that has threads. -/
def isPending (p : ℤ) : Option Pcb → Bool
  | some pcb => pcb.ppid = p ∧ pcb.numThreads ≠ 0
  | none => false

namespace ProcTree

/-- **The children of `p` whose last thread has not vanished**. -/
noncomputable def livingChildren (s : ProcTree) (p : ℤ) : ℕ :=
  {q | (∃ pcb, s.processes q = some pcb ∧ pcb.ppid = p) ∧ ∃ t, s.threads t = .alive q}.ncard

/-- The same by `num_threads`. -/
noncomputable def pending (s : ProcTree) (p : ℤ) : ℕ := census s.processes fun o => isPending p o

/-- By how much `num_child_proc` is over the children that are pending and the statuses that are
queued; zero for a pid that is not in the table. -/
noncomputable def debt (s : ProcTree) (p : ℤ) : ℤ :=
  match s.processes p with
  | some pcb => pcb.unqueued - s.pending p
  | none => 0

end ProcTree

/-- A step that `num_child_proc` survives: a `thread_fork` does not run out of memory once
`num_threads` counts its thread; a thread of an orphan that vanishes is the last one of its process;
and there is memory for the status of a last thread. -/
def Reported (s : ProcTree) : ProcOp → Prop
  | .threadFork _ ans => ans ≠ .noNode
  | .vanish t _ ans =>
      match s.curPcb t with
      | some (_, cur) => (s.processes cur.ppid = none → cur.numThreads = 1) ∧
          (cur.numThreads = 1 → ans = .stored)
      | none => True
  | _ => True

instance (s : ProcTree) : ∀ a, Decidable (Reported s a)
  | .fork _ _ => inferInstanceAs (Decidable True)
  | .threadFork _ ans => inferInstanceAs (Decidable (ans ≠ .noNode))
  | .wait _ => inferInstanceAs (Decidable True)
  | .reap _ => inferInstanceAs (Decidable True)
  | .vanish t status ans =>
      match h : s.curPcb t with
      | some (pid, cur) => decidable_of_iff ((s.processes cur.ppid = none → cur.numThreads = 1) ∧
          (cur.numThreads = 1 → ans = .stored)) (by simp only [Reported, h])
      | none => .isTrue (by simp only [Reported, h])

variable {s s' : ProcTree} {p q pid : ℤ} {pcb cur : Pcb} {t : ℕ} {f : Pcb → Pcb}

lemma few_pending (h : Few s.processes fun o => o ≠ none) (p : ℤ) :
    Few s.processes fun o => isPending p o := by
  refine h.mono fun q hq => ?_
  intro hnone
  rw [hnone] at hq
  cases hq

/-- **The two ways to count** the children agree. -/
lemma Grown.livingChildren_eq (h : Grown s) (p : ℤ) : s.livingChildren p = s.pending p := by
  unfold ProcTree.livingChildren ProcTree.pending census
  congr 1
  ext q
  simp only [Set.mem_ofPred_eq]
  constructor
  · rintro ⟨⟨pcb, hpcb, hppid⟩, halive⟩
    rw [hpcb]
    exact decide_eq_true ⟨hppid, (h.numThreads_ne_zero hpcb).mpr halive⟩
  · intro hq
    cases hpcb : s.processes q with
    | none =>
        rw [hpcb] at hq
        cases hq
    | some pcb =>
        rw [hpcb] at hq
        obtain ⟨hppid, hne⟩ := of_decide_eq_true hq
        exact ⟨⟨pcb, rfl, hppid⟩, (h.numThreads_ne_zero hpcb).mp hne⟩

/-! ### The debt -/

/-- The debt after a process changes. -/
lemma debt_modify (h : Few s.processes fun o => o ≠ none) (hq : s.processes q = some cur)
    (hp : s.processes p = some pcb) :
    (s.modify q f).debt p + (if isPending p (some (f cur)) then 1 else 0) =
      s.debt p + (if isPending p (some cur) then 1 else 0) +
        if p = q then (f cur).unqueued - cur.unqueued else 0 := by
  have hpending : (s.modify q f).pending p + (if isPending p (some cur) then 1 else 0) =
      s.pending p + if isPending p (some (f cur)) then 1 else 0 := by
    have hcount := census_update (few_pending h p) q ((s.processes q).map f)
    rw [hq, Option.map_some] at hcount
    unfold ProcTree.pending ProcTree.modify
    rw [hq, Option.map_some]
    exact hcount
  unfold ProcTree.debt
  rw [hp, modify_of_mem hp]
  have hcast : ((s.modify q f).pending p : ℤ) + (if isPending p (some cur) then 1 else 0) =
      s.pending p + if isPending p (some (f cur)) then 1 else 0 := by
    exact_mod_cast hpending
  by_cases hpq : p = q
  · subst hpq
    rw [hq, Option.some.injEq] at hp
    subst hp
    simp only [if_true]
    omega
  · simp only [if_neg hpq]
    omega

/-- The debt after a process changes that is pending, or not, as before. -/
lemma debt_modify_same (h : Few s.processes fun o => o ≠ none) (hq : s.processes q = some cur)
    (hsame : isPending p (some (f cur)) = isPending p (some cur))
    (hp : s.processes p = some pcb) :
    (s.modify q f).debt p = s.debt p + if p = q then (f cur).unqueued - cur.unqueued else 0 := by
  have hdebt := debt_modify (f := f) h hq hp
  rw [hsame] at hdebt
  omega

/-- One child more for `num_child_proc`. -/
lemma debt_incChildren (h : Few s.processes fun o => o ≠ none) (hq : s.processes q = some cur)
    (hp : s.processes p = some pcb) :
    (s.modify q pcbIncChildren).debt p = s.debt p + if p = q then 1 else 0 := by
  have hsame : isPending p (some (pcbIncChildren cur)) = isPending p (some cur) := rfl
  have hgain : (pcbIncChildren cur).unqueued - cur.unqueued = 1 := by
    simp only [pcbIncChildren, Pcb.unqueued]
    omega
  rw [debt_modify_same h hq hsame hp, hgain]

/-- **The last thread leaves**: the parent has one pending child less. -/
lemma debt_decThreads (h : Few s.processes fun o => o ≠ none) (hq : s.processes q = some cur)
    (hpos : 0 < cur.numThreads) (hp : s.processes p = some pcb) :
    (s.modify q pcbDecThreads).debt p =
      s.debt p + if p = cur.ppid ∧ cur.numThreads = 1 then 1 else 0 := by
  have hdebt := debt_modify (f := pcbDecThreads) h hq hp
  have hnew : isPending p (some (pcbDecThreads cur)) = true ↔
      p = cur.ppid ∧ cur.numThreads ≠ 1 := by
    unfold isPending pcbDecThreads
    rw [decide_eq_true_iff, sub_ne_zero]
    exact and_congr_left fun _ => eq_comm
  have hold : isPending p (some cur) = true ↔ p = cur.ppid := by
    unfold isPending
    rw [decide_eq_true_iff]
    exact ⟨fun hc => hc.1.symm, fun hc => ⟨hc.symm, by omega⟩⟩
  have hgain : (pcbDecThreads cur).unqueued - cur.unqueued = 0 := sub_self cur.unqueued
  rw [hgain, ite_self, add_zero] at hdebt
  simp only [hnew, hold] at hdebt
  by_cases hparent : p = cur.ppid
  · by_cases hlast : cur.numThreads = 1
    · simp only [hparent, hlast, true_and, ne_eq, not_true, if_true, if_false] at hdebt ⊢
      omega
    · simp only [hparent, hlast, true_and, ne_eq, not_false_iff, if_true, if_false] at hdebt ⊢
      omega
  · simp only [hparent, false_and, if_false] at hdebt ⊢
    omega

/-- A status is queued, if there is memory for it. -/
lemma debt_signalStatus (h : Few s.processes fun o => o ≠ none) (hq : s.processes q = some cur)
    (status tid : ℤ) (ans : EnqAnswer) (hp : s.processes p = some pcb) :
    (s.modify q (pcbSignalStatus status tid ans)).debt p =
      s.debt p - if p = q ∧ ans = .stored then 1 else 0 := by
  have hsame : isPending p (some (pcbSignalStatus status tid ans cur)) =
      isPending p (some cur) := by
    cases ans <;> rfl
  have hgain : (pcbSignalStatus status tid ans cur).unqueued - cur.unqueued =
      - if ans = .stored then 1 else 0 := by
    cases ans with
    | stored =>
        simp only [pcbSignalStatus, Pcb.unqueued, List.length_append, List.length_singleton,
          if_true]
        push_cast
        omega
    | noMetadata => exact sub_self cur.unqueued
    | noNode => exact sub_self cur.unqueued
  rw [debt_modify_same h hq hsame hp, hgain, ite_and]
  split_ifs <;> omega

/-! ### What an operation does to the debt -/

lemma debt_congr (h : s'.processes = s.processes) (p : ℤ) : s'.debt p = s.debt p := by
  unfold ProcTree.debt ProcTree.pending
  rw [h]

lemma debt_of_none (hp : s.processes p = none) : s.debt p = 0 := by
  unfold ProcTree.debt
  rw [hp]

/-- Where `thr_vanish` reports to. -/
def heir (s : ProcTree) (cur : Pcb) : ℤ :=
  if (s.processes cur.ppid).isSome then cur.ppid else initPid

/-- What `thr_vanish` adds to the debt: `num_child_proc` of init is counted up for an orphan, or the
parent has one pending child less; against this there is the status, if it is queued. -/
def excess (s : ProcTree) (cur : Pcb) (ans : EnqAnswer) : ℤ :=
  (if s.processes cur.ppid = none ∨ cur.numThreads = 1 then 1 else 0) -
    if cur.numThreads = 1 ∧ ans = .stored then 1 else 0

lemma excess_nonneg (s : ProcTree) (cur : Pcb) (ans : EnqAnswer) : 0 ≤ excess s cur ans := by
  unfold excess
  split_ifs with h1 h2
  · omega
  · omega
  · next h2 => exact absurd (.inr h2.1) h1
  · omega

/-- **No debt is made** by the steps of the condition only. -/
lemma excess_eq_zero_iff {ans : EnqAnswer} : excess s cur ans = 0 ↔
    (s.processes cur.ppid = none → cur.numThreads = 1) ∧ (cur.numThreads = 1 → ans = .stored) := by
  unfold excess
  by_cases hlast : cur.numThreads = 1
  · by_cases hans : ans = .stored
    · simp [hlast, hans]
    · simp [hlast, hans]
  · by_cases horphan : s.processes cur.ppid = none
    · simp [hlast, horphan]
    · simp [hlast, horphan]

/-- A thread leaves: a last one is no pending child of its parent any more, and its status goes to
`target`. -/
lemma debt_leave (h : Few s.processes fun o => o ≠ none) (cur : Pcb) {cur₁ pcb₁ : Pcb} {target : ℤ}
    (hpid : s.processes pid = some cur₁) (hppid : cur₁.ppid = cur.ppid)
    (hthreads : cur₁.numThreads = cur.numThreads) (hpos : 0 < cur.numThreads)
    (htarget : s.processes target = some pcb₁) (status : ℤ) (ans : EnqAnswer)
    (hp : s.processes p = some pcb) :
    (leave s pid target cur status ans).debt p =
      s.debt p + (if p = cur.ppid ∧ cur.numThreads = 1 then 1 else 0) -
        if p = target ∧ cur.numThreads = 1 ∧ ans = .stored then 1 else 0 := by
  have hdec := debt_decThreads h hpid (hthreads ▸ hpos) hp
  rw [hppid, hthreads] at hdec
  unfold leave
  by_cases hlast : cur.numThreads = 1
  · have hsignal := debt_signalStatus (h.update pid _) (modify_of_mem htarget) status
      cur.originalTid ans (modify_of_mem (q := pid) (f := pcbDecThreads) hp)
    rw [if_pos (by omega)]
    simp only [hlast, true_and, and_true] at hdec ⊢
    rw [← hdec]
    exact hsignal
  · rw [if_neg (by omega), hdec]
    simp only [hlast, false_and, and_false, if_false, sub_zero]

/-- **`thr_vanish`** adds to the debt of the process that it reports to. -/
lemma debt_thrVanish (h : Grown s) {status : ℤ} {ans : EnqAnswer}
    (hcur : s.curPcb t = some (pid, cur)) (hstep : thrVanish s t status ans = some s')
    (hp : s.processes p = some pcb) :
    s'.debt p = s.debt p + if p = heir s cur then excess s cur ans else 0 := by
  have hpos := h.numThreads_pos hcur
  have hpid := (curPcb_eq_some.mp hcur).2
  unfold thrVanish at hstep
  simp only [hcur] at hstep
  unfold heir excess
  by_cases hparent : (s.processes cur.ppid).isSome
  -- the parent is in the table: it is the heir
  · obtain ⟨pcb₁, hpcb₁⟩ := Option.isSome_iff_exists.mp hparent
    rw [if_pos hparent] at hstep
    cases hstep
    have hleave := debt_leave h.few cur hpid rfl rfl hpos hpcb₁ status ans hp
    rw [if_pos hparent]
    refine (debt_congr rfl p).trans (hleave.trans ?_)
    simp only [hpcb₁, reduceCtorEq, false_or]
    by_cases hpp : p = cur.ppid
    · simp only [hpp, true_and, if_true]
      omega
    · simp only [hpp, false_and, if_false]
      omega
  -- an orphan: init counts it as a child first, and is the heir
  · have hnone : s.processes cur.ppid = none := Option.not_isSome_iff_eq_none.mp hparent
    rw [if_neg hparent] at hstep
    obtain ⟨hinit, heq⟩ := Option.ite_none_right_eq_some.mp hstep
    obtain ⟨pcb₁, hpcb₁⟩ := Option.isSome_iff_exists.mp hinit
    cases heq
    have hinc := debt_incChildren h.few hpcb₁ hp
    have hcur₁ := modify_of_mem (q := initPid) (f := pcbIncChildren) hpid
    have hleave := debt_leave (h.few.update initPid _) cur hcur₁
      (by split_ifs <;> rfl) (by split_ifs <;> rfl) hpos (modify_of_mem hpcb₁) status ans
      (modify_of_mem (q := initPid) (f := pcbIncChildren) hp)
    rw [if_neg hparent]
    have hne : p ≠ cur.ppid := by
      rintro rfl
      rw [hnone] at hp
      cases hp
    refine (debt_congr rfl p).trans (hleave.trans ?_)
    simp only [hne, false_and, if_false, add_zero, hnone, true_or, if_true]
    rw [hinc]
    by_cases hpi : p = initPid
    · simp only [hpi, true_and, if_true]
      omega
    · simp only [hpi, false_and, if_false]
      omega

/-- The children of each process, with one that `fork` makes. -/
lemma pending_addProcess (h : Grown s) (pid p : ℤ) :
    (schedulerAddProcess s { Pcb.init with ppid := pid }).pending p =
      s.pending p + if p = pid then 1 else 0 := by
  have hcount := census_update (few_pending h.few p) s.nextPid
    (some (pcbIncThreads { Pcb.init with ppid := pid, originalTid := s.nextTid }))
  have hnew : isPending p
      (some (pcbIncThreads { Pcb.init with ppid := pid, originalTid := s.nextTid })) = true ↔
        p = pid := by
    unfold isPending pcbIncThreads Pcb.init
    rw [decide_eq_true_iff]
    exact ⟨fun hc => hc.1.symm, fun hc => ⟨hc.symm, (by decide : (0 : ℤ) + 1 ≠ 0)⟩⟩
  have hold : isPending p (s.processes s.nextPid) = false := by
    rw [h.freshPid s.nextPid le_rfl]
    rfl
  simp only [hnew, hold, Bool.false_eq_true, if_false, add_zero] at hcount
  exact hcount

/-- **`fork`** makes no debt: the new process is a pending child. -/
lemma debt_addProcess (h : Grown s) (hpid : s.processes pid = some cur) (p : ℤ) :
    ((schedulerAddProcess s { Pcb.init with ppid := pid }).modify pid pcbIncChildren).debt p =
      s.debt p := by
  have hlt := h.pid_lt hpid
  have hadd : Grown (schedulerAddProcess s { Pcb.init with ppid := pid }) :=
    h.addProcess hlt rfl rfl
  have hpending := pending_addProcess h pid p
  have hother : ∀ q, q ≠ s.nextPid →
      (schedulerAddProcess s { Pcb.init with ppid := pid }).processes q = s.processes q :=
    fun q hq => Function.update_of_ne hq ..
  have hpid₁ := (hother pid (by omega)).trans hpid
  by_cases hnew : p = s.nextPid
  -- the new process: nobody has its pid for a parent yet
  · have hzero : s.pending p = 0 := by
      refine census_of_none fun q hq => ?_
      cases hpcb : s.processes q with
      | none =>
          rw [hpcb] at hq
          cases hq
      | some pcb =>
          rw [hpcb] at hq
          have hppid := (of_decide_eq_true hq).1
          have hparents := h.parents q pcb hpcb
          omega
    have hp₁ : (schedulerAddProcess s { Pcb.init with ppid := pid }).processes p =
        some (pcbIncThreads { Pcb.init with ppid := pid, originalTid := s.nextTid }) := by
      rw [hnew]
      exact Function.update_self ..
    have hdebt : (schedulerAddProcess s { Pcb.init with ppid := pid }).debt p = 0 := by
      unfold ProcTree.debt
      rw [hp₁, hpending, hzero, if_neg (by omega)]
      rfl
    have hold : s.debt p = 0 := by
      unfold ProcTree.debt
      rw [hnew, h.freshPid s.nextPid le_rfl]
    rw [debt_incChildren hadd.few hpid₁ hp₁, hdebt, hold, if_neg (by omega), add_zero]
  -- an old one: its debt changes only if it is the parent, and there not at all
  · cases hp : s.processes p with
    | none =>
        have hnone := modify_eq_none (q := pid) (f := pcbIncChildren).mpr ((hother p hnew).trans hp)
        unfold ProcTree.debt
        rw [hp, hnone]
    | some pcb =>
        have hp₁ := (hother p hnew).trans hp
        rw [debt_incChildren hadd.few hpid₁ hp₁]
        unfold ProcTree.debt
        rw [hp₁, hp, hpending]
        push_cast
        split_ifs <;> omega

/-- A thread that is made makes no debt: its process has one that runs already. -/
lemma debt_incThreads (h : Grown s) (hcur : s.curPcb t = some (pid, cur))
    (hp : s.processes p = some pcb) : (s.modify pid pcbIncThreads).debt p = s.debt p := by
  have hpos := h.numThreads_pos hcur
  have hmore : cur.numThreads + 1 ≠ 0 := by omega
  have hsame : isPending p (some (pcbIncThreads cur)) = isPending p (some cur) := by
    unfold isPending pcbIncThreads
    rw [decide_eq_decide]
    exact and_congr_right fun _ => iff_of_true hmore hpos.ne'
  have hgain : (pcbIncThreads cur).unqueued - cur.unqueued = 0 := sub_self cur.unqueued
  rw [debt_modify_same h.few (curPcb_eq_some.mp hcur).2 hsame hp, hgain, ite_self, add_zero]

/-- A process with no threads that is removed is no pending child of any other one. -/
lemma debt_removePcb (h : Grown s) (hpcb : s.processes pid = some cur) (hzero : cur.numThreads = 0)
    (hp : p ≠ pid) :
    ProcTree.debt { s with processes := Function.update s.processes pid none } p = s.debt p := by
  have hpending : census (Function.update s.processes pid none) (fun o => isPending p o) =
      census s.processes fun o => isPending p o := by
    refine census_update_same (few_pending h.few p) pid none ?_
    rw [hpcb]
    unfold isPending
    rw [decide_eq_true_iff]
    exact ⟨nofun, fun hc => absurd hzero hc.2⟩
  unfold ProcTree.debt ProcTree.pending
  rw [hpending]
  change (match Function.update s.processes pid none p with
    | some pcb => pcb.unqueued - _
    | none => 0) = _
  rw [Function.update_of_ne hp]

/-! ### The operations one by one -/

/-- What an operation with no debt does: the tree is kept, and what `num_child_proc` is over by in
each process that is still there. -/
def Settles (s s' : ProcTree) : Prop :=
  Grown s' ∧ ∀ p pcb, s'.processes p = some pcb → s'.debt p = s.debt p

lemma settles_fork (h : Grown s) {ans : ForkAnswer} (hstep : syscallFork s t ans = some s') :
    Settles s s' := by
  unfold syscallFork at hstep
  split at hstep
  · next pid cur hcur =>
      have hpid := (curPcb_eq_some.mp hcur).2
      split_ifs at hstep with hmany
      · cases hstep
        exact ⟨h, fun _ _ _ => rfl⟩
      · cases ans with
        | noCopy =>
            cases hstep
            exact ⟨h, fun _ _ _ => rfl⟩
        | noTcb =>
            cases hstep
            exact ⟨h.skip (lt_add_one _).le (Nat.le_succ _), fun _ _ _ => rfl⟩
        | made =>
            cases hstep
            have hadd : Grown (schedulerAddProcess s { Pcb.init with ppid := pid }) :=
              h.addProcess (h.pid_lt hpid) rfl rfl
            exact ⟨hadd.modify fun pcb _ => keeps_incChildren pcb,
              fun p _ _ => debt_addProcess h hpid p⟩
  · cases hstep

lemma settles_threadFork (h : Grown s) {ans : ThreadForkAnswer} (hans : ans ≠ .noNode)
    (hstep : syscallThreadFork s t ans = some s') : Settles s s' := by
  unfold syscallThreadFork at hstep
  split at hstep
  · next pid cur hcur =>
      obtain ⟨-, hpid⟩ := curPcb_eq_some.mp hcur
      cases ans with
      | noTcb =>
          cases hstep
          exact ⟨h.skip le_rfl (Nat.le_succ _), fun _ _ _ => rfl⟩
      | noNode => exact absurd rfl hans
      | made =>
          cases hstep
          have hunborn : s.threads s.nextTid = .unborn := h.freshTid s.nextTid le_rfl
          refine ⟨h.move (d := 1) ?_ hpid ?_ ?_, ?_⟩
          · intro p hp
            rw [hunborn]
            exact ⟨nofun, fun heq => absurd (Thread.alive.inj heq).symm hp⟩
          · rw [hunborn, if_pos rfl, if_neg nofun, add_zero]
          · intro u hu
            rw [Function.update_of_ne (by omega)]
            exact h.freshTid u (by omega)
          · intro p pcb hp
            obtain ⟨pcb₀, hp₀, -⟩ := modify_eq_some.mp hp
            exact debt_incThreads h hcur hp₀
  · cases hstep

lemma settles_wait (h : Grown s) (hstep : syscallWait s t = some s') : Settles s s' := by
  unfold syscallWait at hstep
  split at hstep
  · next pid cur hcur =>
      obtain ⟨r, hr, rfl⟩ := Option.map_eq_some_iff.mp hstep
      obtain ⟨-, hpid⟩ := curPcb_eq_some.mp hcur
      have hold := h.tokens pid cur hpid
      obtain ⟨hppid, hthreads, htokens, hunqueued⟩ := pcbWaitOnStatus_spec hr hold
      refine ⟨h.modify fun pcb hpcb => ?_, fun p pcb hp => ?_⟩
      · rw [hpid, Option.some.injEq] at hpcb
        subst hpcb
        refine ⟨hppid, hthreads, ?_⟩
        omega
      · obtain ⟨pcb₀, hp₀, -⟩ := modify_eq_some.mp hp
        have hsame : isPending p (some r.2) = isPending p (some cur) := by
          simp only [isPending, hppid, hthreads]
        have hdebt := debt_modify_same (f := fun _ => r.2) h.few hpid hsame hp₀
        rw [hunqueued, sub_self, ite_self, add_zero] at hdebt
        exact hdebt
  · cases hstep

lemma settles_reap (h : Grown s) {stale : ℤ} (hstep : tcbPoolReap s stale = some s') :
    Settles s s' := by
  unfold tcbPoolReap at hstep
  split at hstep
  · cases hstep
  · next t z hz =>
      split at hstep
      · next pid hth =>
          have hreap := h.reapTcb (z := z) hth
          split at hstep
          · next pcb hpcb =>
              split_ifs at hstep with hzero
              · cases hstep
                refine ⟨hreap.removePcb hpcb hzero, fun p pcb' hp => ?_⟩
                have hne : p ≠ pid := by
                  rintro rfl
                  change Function.update s.processes p none p = some pcb' at hp
                  rw [Function.update_self] at hp
                  cases hp
                exact debt_removePcb h hpcb hzero hne
              · cases hstep
                exact ⟨hreap, fun _ _ _ => rfl⟩
          · split_ifs at hstep
            cases hstep
            exact ⟨hreap, fun _ _ _ => rfl⟩
      · cases hstep

/-! ### Runs -/

/-- The accounts of a state: the tree, and no debt of a process that is not the reaper's. -/
structure Solvent (s : ProcTree) : Prop where
  grown : Grown s
  settled : ∀ p, 0 ≤ p → s.debt p = 0

lemma Settles.solvent (h : Settles s s') (hs : Solvent s) : Solvent s' where
  grown := h.1
  settled p hp := by
    cases hpcb : s'.processes p with
    | none => exact debt_of_none hpcb
    | some pcb => exact (h.2 p pcb hpcb).trans (hs.settled p hp)

/-- **`thr_vanish`** with the condition keeps the accounts. -/
lemma Solvent.vanish (h : Solvent s) {status : ℤ} {ans : EnqAnswer}
    (hreported : Reported s (.vanish t status ans)) (hstep : thrVanish s t status ans = some s') :
    Solvent s' := by
  refine ⟨grown_thrVanish h.grown hstep, fun p hp => ?_⟩
  cases hcur : s.curPcb t with
  | none =>
      unfold thrVanish at hstep
      rw [hcur] at hstep
      cases hstep
  | some r =>
      have hzero : excess s r.2 ans = 0 := by
        simp only [Reported, hcur] at hreported
        exact excess_eq_zero_iff.mpr hreported
      cases hpcb : s.processes p with
      | none => exact debt_of_none ((thrVanish_eq_none hstep).mpr hpcb)
      | some pcb =>
          rw [debt_thrVanish h.grown hcur hstep hpcb, hzero, ite_self, add_zero]
          exact h.settled p hp

/-- **An operation** of the condition keeps the accounts. -/
lemma solvent_step (h : Solvent s) {a : ProcOp} (hreported : Reported s a)
    (hstep : procNext s a = some s') : Solvent s' := by
  cases a with
  | fork t ans => exact (settles_fork h.grown hstep).solvent h
  | threadFork t ans => exact (settles_threadFork h.grown hreported hstep).solvent h
  | vanish t status ans => exact h.vanish hreported hstep
  | wait t => exact (settles_wait h.grown hstep).solvent h
  | reap stale => exact (settles_reap h.grown hstep).solvent h

lemma solvent_init : Solvent procInit where
  grown := grown_init
  settled p hp := by
    have hpending : procInit.pending p = 0 := by
      refine census_of_none fun q hq => ?_
      cases hpcb : procInit.processes q with
      | none =>
          rw [hpcb] at hq
          cases hq
      | some pcb =>
          rw [hpcb] at hq
          have hp' := (of_decide_eq_true hq).1
          rw [procInit_ppid hpcb] at hp'
          omega
    cases hpcb : procInit.processes p with
    | none => exact debt_of_none hpcb
    | some pcb =>
        unfold ProcTree.debt
        rw [hpcb, hpending]
        rcases procInit_eq_some hpcb with ⟨-, rfl⟩ | ⟨-, rfl⟩ <;> rfl

lemma solvent_of_reach (h : procMachine.Reach Reported s) : Solvent s := by
  refine Machine.Reach.inv ?_ ?_ h
  · rintro s rfl
    exact solvent_init
  · exact fun s a s' hs hreported hstep => solvent_step hs hreported hstep

/-- **The accounts are right**: in the runs of the condition, `num_child_proc` of every process is
the number of its children whose last thread has not vanished and of the statuses in its queue. -/
theorem numChildProc_eq (h : procMachine.Reach Reported s) (hp : 0 ≤ p)
    (hpcb : s.processes p = some pcb) :
    pcb.numChildProc = s.livingChildren p + pcb.statusQueue.length := by
  have hsolvent := solvent_of_reach h
  have hdebt := hsolvent.settled p hp
  unfold ProcTree.debt Pcb.unqueued at hdebt
  rw [hpcb] at hdebt
  rw [hsolvent.grown.livingChildren_eq]
  dsimp only at hdebt
  omega

/-- A child and a grandchild of init's; a thread of the grandchild vanishes, then the child, and the
grandchild is an orphan with one thread. -/
def reportedRun : List ProcOp :=
  [.fork 2 .made, .fork 3 .made, .threadFork 4 .made, .vanish 5 0 .stored, .reap 0,
    .vanish 3 7 .stored, .reap 0, .vanish 4 9 .stored, .reap 0, .wait 2]

/-- In one run init has collected the status of the child, and the one of the orphan is queued. -/
theorem numChildProc_eq_reportedRun : ∃ s pcb,
    Machine.replay (Machine.guarded Reported procNext) procInit reportedRun = some s ∧
      s.processes initPid = some pcb ∧ pcb.statusQueue = [⟨9, 4⟩] ∧
      pcb.numChildProc = s.livingChildren initPid + pcb.statusQueue.length := by
  have hrun : (Machine.replay (Machine.guarded Reported procNext) procInit reportedRun).map
      (fun s => (s.processes initPid).map fun pcb => pcb.statusQueue) = some (some [⟨9, 4⟩]) := by
    decide +kernel
  obtain ⟨s, hs, hview⟩ := Option.map_eq_some_iff.mp hrun
  obtain ⟨pcb, hpcb, hqueue⟩ := Option.map_eq_some_iff.mp hview
  refine ⟨s, pcb, hs, hpcb, hqueue, numChildProc_eq ?_ (by decide) hpcb⟩
  exact Machine.reach_of_guarded (fun _ _ _ h => h) reportedRun (.init rfl) hs

/-- **Another step** leaves the process that is reported to with more children than there are. -/
theorem lt_numChildProc (h : procMachine.Reach Reported s) {status : ℤ} {ans : EnqAnswer}
    (hcur : s.curPcb t = some (pid, cur)) (hnot : ¬ Reported s (.vanish t status ans))
    (hstep : thrVanish s t status ans = some s') (hp : 0 ≤ heir s cur)
    (hpcb : s'.processes (heir s cur) = some pcb) :
    s'.livingChildren (heir s cur) + pcb.statusQueue.length < pcb.numChildProc := by
  have hsolvent := solvent_of_reach h
  have hpos : 0 < excess s cur ans := by
    refine lt_of_le_of_ne (excess_nonneg s cur ans) fun hzero => hnot ?_
    simp only [Reported, hcur]
    exact excess_eq_zero_iff.mp hzero.symm
  have hmem : ∃ pcb₀, s.processes (heir s cur) = some pcb₀ := by
    refine Option.ne_none_iff_exists'.mp fun hnone => ?_
    rw [(thrVanish_eq_none hstep).mpr hnone] at hpcb
    cases hpcb
  obtain ⟨pcb₀, hpcb₀⟩ := hmem
  have hdebt := debt_thrVanish hsolvent.grown hcur hstep hpcb₀
  rw [hsolvent.settled _ hp, if_pos rfl] at hdebt
  unfold ProcTree.debt Pcb.unqueued at hdebt
  rw [hpcb] at hdebt
  rw [(grown_thrVanish hsolvent.grown hstep).livingChildren_eq]
  dsimp only at hdebt
  omega

/-- A grandchild of init's with two threads; the child vanishes and is reaped. -/
def orphanRun : List ProcOp :=
  [.fork 2 .made, .fork 3 .made, .threadFork 4 .made, .vanish 3 7 .stored, .reap 0]

/-- **Counted twice**: each thread of an orphan that vanishes is a child more for init. -/
theorem not_numChildProc_eq_orphanRun :
    ¬ ∀ s, procMachine.Reachable s → ∀ p pcb, 0 ≤ p → s.processes p = some pcb →
      pcb.numChildProc = s.livingChildren p + pcb.statusQueue.length := by
  intro hall
  obtain ⟨s, hs, cur, hcur, hheir, s', hstep, hnot, pcb, hpcb⟩ : ∃ s,
      Machine.replay (Machine.guarded Reported procNext) procInit orphanRun = some s ∧
        ∃ cur, s.curPcb 5 = some (3, cur) ∧ heir s cur = initPid ∧
          ∃ s', thrVanish s 5 0 .stored = some s' ∧ ¬ Reported s (.vanish 5 0 .stored) ∧
            ∃ pcb, s'.processes (heir s cur) = some pcb := by
    refine ⟨_, rfl, _, rfl, rfl, _, rfl, ?_, _, rfl⟩
    decide +kernel
  have hreach : procMachine.Reach Reported s :=
    Machine.reach_of_guarded (fun _ _ _ h => h) orphanRun (.init rfl) hs
  have hreach' : procMachine.Reachable s' :=
    .step (a := .vanish 5 0 .stored) (hreach.mono fun _ _ _ => trivial) trivial hstep
  have hinit : 0 ≤ heir s cur := by
    rw [hheir]
    decide
  have hlt := lt_numChildProc hreach hcur hnot hstep hinit hpcb
  have heq := hall s' hreach' (heir s cur) pcb hinit hpcb
  omega

end ShrekOS.Processes
