/-
The runs of the scheduler as runs of the round robin.

* `RoundRobin.Lines`, `RoundRobin.Shows`: the pools of the round robin are those of the
  scheduler, and so is the current thread; a thread that is not there yet is a waiting one;
* `Lines.moves`: **a node passes from one pool to another one**, as a thread blocks, vanishes or
  is woken up; `Lines.wakeAll`: the threads that a tick wakes up;
* `contextSwitch_simulates`: **the scheduler's context switch is that of the round robin**;
* `schedStep_simulates`: each operation is a few steps of the round robin, or none;
* `schedMachine_refines`: **a harmless run, in which every yield is to the next thread, shows a
  run of the round robin**.
-/
import ShrekOS.Sched.RoundRobin
import ShrekOS.Sched.PoolRuns

namespace ShrekOS

open Kit Kit.Cmd

/-- The tids that there are. -/
def allTids : List ℕ := List.range' 1 (2 ^ 31 - 1)

lemma mem_allTids {t : ℕ} : t ∈ allTids ↔ 0 < t ∧ t < 2 ^ 31 := by
  rw [allTids, List.mem_range'_1]
  omega

/-- The node is that of the thread. -/
def Sched.Named (s : Sched) (n : Ptr) (tid : ℕ) : Prop := htGet s.threads tid = some n

/-- The lines of the round robin are those of the scheduler: the runnable pool holds the nodes of
its threads, in order. The threads that do not exist yet are among the waiting ones. -/
structure RoundRobin.Lines (r : RoundRobin) (s : Sched) (L : Pool → List Ptr) : Prop where
  runnable : List.Forall₂ s.Named (L .runnablePool) r.runnable
  waiting : ∀ n tid, s.Named n tid → (tid ∈ r.waiting ↔ n ∈ L .waitingPool)
  sleeping : ∀ n tid, s.Named n tid → (tid ∈ r.sleeping ↔ n ∈ L .sleepingPool)
  unborn : ∀ tid, s.nextTid ≤ tid → tid < 2 ^ 31 → tid ∈ r.waiting
  natural : ∀ tid n, htGet s.threads tid = some n → 0 ≤ tid
  nodup_waiting : r.waiting.Nodup
  nodup_sleeping : r.sleeping.Nodup

/-- The current thread is that of the scheduler: none at first, or for the idle thread. -/
def RoundRobin.Names (r : RoundRobin) (s : Sched) : Prop :=
  match r.current with
  | none => s.curTcb = none ∨ s.curTcb = some s.idleTcb
  | some tid => ∃ n, s.Named n tid ∧ s.nodes.e n = s.curTcb

/-- The scheduler shows what the round robin does. -/
structure RoundRobin.Shows (r : RoundRobin) (s : Sched) (L : Pool → List Ptr) : Prop where
  lists : s.Lists L
  lines : r.Lines s L
  current : r.Names s

/-- The scheduler shows the round robin after some more steps. -/
def RoundRobin.Leads (r : RoundRobin) (s : Sched) : Prop :=
  ∃ ops r' L, Machine.replay rrStep r ops = some r' ∧ r'.Shows s L

variable {D : Diary} {X : Set Ptr} {s s' : Sched} {L L' : Pool → List Ptr} {r r' : RoundRobin}
  {n c : Ptr} {u : Tcb} {tid : ℤ} {t : ℕ} {j k : Pool} {o : RrOp}

lemma RoundRobin.Shows.leads (h : r.Shows s L) : r.Leads s := ⟨[], r, L, rfl, h⟩

lemma RoundRobin.Leads.step (hop : rrStep r o = some r') (h : r'.Leads s) : r.Leads s := by
  obtain ⟨ops, r₁, L, hrun, hshows⟩ := h
  refine ⟨o :: ops, r₁, L, ?_, hshows⟩
  rw [Machine.replay_cons, hop]
  exact hrun

/-- The pools are the lists of nodes in one way. -/
lemma Sched.Lists.unique (h : s.Lists L) (h' : s.Lists L') : L = L' := by
  funext k
  exact (h.isLl k).links.unique (h'.isLl k).links

/-- The names of the nodes are one to one. -/
lemma PoolInv.biUnique (h : PoolInv D X s L) : Relator.BiUnique s.Named := by
  constructor
  · intro n tid n' hn hn'
    exact Option.some.inj (hn.symm.trans hn')
  · intro n tid tid' hn hn'
    obtain ⟨c, u, hr, -⟩ := h.rows tid n hn
    obtain ⟨c', u', hr', -⟩ := h.rows tid' n hn'
    exact_mod_cast (h.eq_of_node hr hr').1

/-- One entry of two related lists is erased. -/
lemma forall₂_erase {R : Ptr → ℕ → Prop} (hR : Relator.BiUnique R) (ht : R n t) {l : List Ptr}
    {l' : List ℕ} (h : List.Forall₂ R l l') : List.Forall₂ R (l.erase n) (l'.erase t) := by
  induction h with
  | nil => exact .nil
  | @cons m v l l' hm hrest ih =>
      by_cases hmn : m = n
      · subst hmn
        obtain rfl := hR.2 ht hm
        rw [List.erase_cons_head, List.erase_cons_head]
        exact hrest
      · have hvt : v ≠ t := by
          rintro rfl
          exact hmn (hR.1 hm ht)
        rw [List.erase_cons_tail (by simpa using hmn), List.erase_cons_tail (by simpa using hvt)]
        exact .cons hm ih

/-! ### A thread passes from one pool to another one -/

/-- The thread passes to another pool, and to the end of the runnable one. -/
structure RoundRobin.Moves (r r' : RoundRobin) (t : ℕ) (k : Pool) : Prop where
  runnable : r'.runnable = r.runnable.erase t ++ if k = .runnablePool then [t] else []
  waiting : ∀ v, v ∈ r'.waiting ↔ v = t ∧ k = .waitingPool ∨ v ∈ r.waiting ∧ v ≠ t
  sleeping : ∀ v, v ∈ r'.sleeping ↔ v = t ∧ k = .sleepingPool ∨ v ∈ r.sleeping ∧ v ≠ t
  nodup_waiting : r'.waiting.Nodup
  nodup_sleeping : r'.sleeping.Nodup

namespace RoundRobin

/-- The threads of the other pools stay when one is erased from a pool. -/
lemma mem_erase_iff {l : List ℕ} (hl : l.Nodup) {P : Prop} (hP : ¬ P) (v : ℕ) :
    v ∈ l.erase t ↔ v = t ∧ P ∨ v ∈ l ∧ v ≠ t := by
  rw [hl.mem_erase_iff]
  tauto

/-- The threads of a pool that the thread is not on. -/
lemma mem_iff_of_notMem {l : List ℕ} (hl : t ∉ l) {P : Prop} (hP : ¬ P) (v : ℕ) :
    v ∈ l ↔ v = t ∧ P ∨ v ∈ l ∧ v ≠ t := by
  constructor
  · intro hv
    exact .inr ⟨hv, ne_of_mem_of_not_mem hv hl⟩
  · rintro (⟨-, h⟩ | ⟨hv, -⟩)
    · exact absurd h hP
    · exact hv

/-- A thread is woken up. -/
lemma moves_wake (hw : r.waiting.Nodup) (hs : r.sleeping.Nodup) (ht : t ∉ r.runnable) :
    r.Moves (r.wake t) t .runnablePool where
  runnable := by
    rw [List.erase_of_not_mem ht, if_pos rfl]
    rfl
  waiting := mem_erase_iff hw (by decide)
  sleeping := mem_erase_iff hs (by decide)
  nodup_waiting := hw.erase t
  nodup_sleeping := hs.erase t

/-- The thread that waits. -/
lemma moves_deschedule (hw : r.waiting.Nodup) (hs : r.sleeping.Nodup) (htw : t ∉ r.waiting)
    (hts : t ∉ r.sleeping) :
    r.Moves { r with runnable := r.runnable.erase t, waiting := r.waiting ++ [t] } t
      .waitingPool where
  runnable := by rw [if_neg (by decide), List.append_nil]
  waiting v := by
    change v ∈ r.waiting ++ [t] ↔ _
    rw [List.mem_append, List.mem_singleton, mem_iff_of_notMem htw (P := False) id]
    tauto
  sleeping := mem_iff_of_notMem hts (by decide)
  nodup_waiting := List.nodup_append.mpr ⟨hw, List.nodup_singleton t, by
    rintro a ha b hb rfl
    exact htw (List.mem_singleton.mp hb ▸ ha)⟩
  nodup_sleeping := hs

/-- The thread that sleeps. -/
lemma moves_sleep (hw : r.waiting.Nodup) (hs : r.sleeping.Nodup) (htw : t ∉ r.waiting)
    (hts : t ∉ r.sleeping) :
    r.Moves { r with runnable := r.runnable.erase t, sleeping := t :: r.sleeping } t
      .sleepingPool where
  runnable := by rw [if_neg (by decide), List.append_nil]
  waiting := mem_iff_of_notMem htw (by decide)
  sleeping v := by
    change v ∈ t :: r.sleeping ↔ _
    rw [List.mem_cons, mem_iff_of_notMem hts (P := False) id]
    tauto
  nodup_waiting := hw
  nodup_sleeping := List.nodup_cons.mpr ⟨hts, hs⟩

/-- The thread that vanishes. -/
lemma moves_vanish (hw : r.waiting.Nodup) (hs : r.sleeping.Nodup) (htw : t ∉ r.waiting)
    (hts : t ∉ r.sleeping) :
    r.Moves { r with runnable := r.runnable.erase t, current := none } t .zombiePool where
  runnable := by rw [if_neg (by decide), List.append_nil]
  waiting := mem_iff_of_notMem htw (by decide)
  sleeping := mem_iff_of_notMem hts (by decide)
  nodup_waiting := hw
  nodup_sleeping := hs

end RoundRobin

namespace RoundRobin.Lines

/-- The lines are about the table and the next tid alone. -/
lemma congr (h : r.Lines s L) (ht : s'.threads = s.threads) (hn : s'.nextTid = s.nextTid) :
    r.Lines s' L := by
  have hnamed : s'.Named = s.Named := by
    funext n tid
    rw [Sched.Named, ht]
    rfl
  exact ⟨hnamed ▸ h.runnable, hnamed ▸ h.waiting, hnamed ▸ h.sleeping, hn ▸ h.unborn,
    ht ▸ h.natural, h.nodup_waiting, h.nodup_sleeping⟩

/-- A thread that is there is a natural number. -/
lemma exists_named (h : r.Lines s L) (hr : s.Row tid n c u) : ∃ t : ℕ, tid = t ∧ s.Named n t := by
  obtain ⟨t, rfl⟩ := Int.eq_ofNat_of_zero_le (h.natural tid n hr.node)
  exact ⟨t, rfl, hr.node⟩

/-- The threads of the runnable pool. -/
lemma mem_runnable (h : r.Lines s L) (hL : PoolInv D X s L) (hn : s.Named n t) :
    t ∈ r.runnable ↔ n ∈ L .runnablePool :=
  (List.rel_mem hL.biUnique hn h.runnable).symm

/-- **A node passes from one pool to another one.** -/
theorem moves (h : r.Lines s L) (hL : PoolInv D X s L) (hn : s.Named n t)
    (htable : SameTable s s') (hp : Passes L L' n j k) (hm : r.Moves r' t k) :
    r'.Lines s' L' := by
  have hname : ∀ m v, s.Named m v → (v = t ↔ m = n) := fun m v hv =>
    ⟨fun heq => hL.biUnique.1 (heq ▸ hv) hn, fun heq => hL.biUnique.2 (heq ▸ hv) hn⟩
  have hlines : r'.Lines s L' := by
    refine ⟨?_, fun m v hv => ?_, fun m v hv => ?_, fun v hle hlt => ?_, h.natural,
      hm.nodup_waiting, hm.nodup_sleeping⟩
    · rw [hp.runnable, hm.runnable]
      refine List.rel_append (forall₂_erase hL.biUnique hn h.runnable) ?_
      split_ifs
      · exact .cons hn .nil
      · exact .nil
    · rw [hm.waiting, hp.mem, h.waiting m v hv, ne_eq, hname m v hv, eq_comm (a := k)]
    · rw [hm.sleeping, hp.mem, h.sleeping m v hv, ne_eq, hname m v hv, eq_comm (a := k)]
    · -- a tid that is not given away is that of no thread
      refine (hm.waiting v).mpr (.inr ⟨h.unborn v hle hlt, ?_⟩)
      rintro rfl
      have hnone := hL.fresh v (by exact_mod_cast hle)
      exact absurd (hn.symm.trans hnone) (Option.some_ne_none n)
  exact hlines.congr htable.threads htable.nextTid

/-- The thread of a node of the runnable pool is on no other pool. -/
lemma notMem_of_runnable (h : r.Lines s L) (hlists : s.Lists L) (hn : s.Named n t)
    (hmem : n ∈ L .runnablePool) : t ∉ r.waiting ∧ t ∉ r.sleeping := by
  constructor
  · intro ht
    have hpool := hlists.apart n _ _ hmem ((h.waiting n t hn).mp ht)
    cases hpool
  · intro ht
    have hpool := hlists.apart n _ _ hmem ((h.sleeping n t hn).mp ht)
    cases hpool

/-- A blocked thread is woken up. -/
lemma wake (h : r.Lines s L) (hL : PoolInv D X s L) {w : Tcb} (hw : Woken s s' tid n c w)
    (hp : Passes L L' n (poolOf w.status) .runnablePool) :
    ∃ r', rrStep r (.makeRunnable tid.toNat) = some r' ∧ r'.Lines s' L' ∧
      r'.current = r.current := by
  obtain ⟨t, rfl, hn⟩ := h.exists_named hw.row
  rw [Int.toNat_natCast]
  have hmem := hp.mem_source
  have hblocked : t ∈ r.waiting ∨ t ∈ r.sleeping := by
    rcases hw.status with hst | hst <;> rw [hst] at hmem
    · exact .inl ((h.waiting n t hn).mpr hmem)
    · exact .inr ((h.sleeping n t hn).mpr hmem)
  have hnot : t ∉ r.runnable := by
    intro ht
    have hpool := hL.lists.apart n _ _ hmem ((h.mem_runnable hL hn).mp ht)
    rcases hw.status with hst | hst <;> rw [hst] at hpool <;> cases hpool
  refine ⟨r.wake t, if_pos hblocked, ?_, rfl⟩
  exact h.moves hL hn hw.table hp (moves_wake h.nodup_waiting h.nodup_sleeping hnot)

end RoundRobin.Lines

/-- The names of the current thread after a step that changes neither that nor the table. -/
lemma RoundRobin.Names.congr (h : r.Names s) (hr : r'.current = r.current) (hs : SameTable s s')
    (hcur : s'.curTcb = s.curTcb) : r'.Names s' := by
  unfold RoundRobin.Names at h ⊢
  rw [hr, hcur, hs.idleTcb, hs.elem]
  unfold Sched.Named at h ⊢
  rw [hs.threads]
  exact h

/-- **A blocked thread is woken up**, and the current one goes on. -/
lemma RoundRobin.Shows.wake (h : r.Shows s L) (hL : PoolInv D X s L) {w : Tcb}
    (hL' : PoolInv D X s' L') (hw : Woken s s' tid n c w)
    (hp : Passes L L' n (poolOf w.status) .runnablePool) :
    ∃ r', rrStep r (.makeRunnable tid.toNat) = some r' ∧ r'.Shows s' L' := by
  obtain ⟨r', hstep, hlines, hcur⟩ := h.lines.wake hL hw hp
  exact ⟨r', hstep, hL'.lists, hlines, h.current.congr hcur hw.table hw.curTcb⟩

/-- The current thread of the scheduler, if it is one of the table, is that of the round robin. -/
lemma RoundRobin.Names.eq_some (h : r.Names s) (hL : PoolInv D X s L) (hn : s.Named n t)
    (hr : s.Row tid n c u) (hcur : s.curTcb = some c) : r.current = some t := by
  unfold RoundRobin.Names at h
  cases hrc : r.current with
  | none =>
      rw [hrc] at h
      rcases h with hnone | hidle
      · exact absurd (hcur.symm.trans hnone) (Option.some_ne_none c)
      · exact absurd (Option.some.inj (hcur.symm.trans hidle)) (hL.ne_idle hr)
  | some v =>
      rw [hrc] at h
      obtain ⟨m, hm, he⟩ := h
      obtain ⟨c', u', hr', -⟩ := hL.rows v m hm
      obtain rfl : c' = c := Option.some.inj (hr'.elem.symm.trans (he.trans hcur))
      obtain ⟨-, rfl, -⟩ := hL.eq_of_tcb hr' hr
      rw [hL.biUnique.2 hm hn]

/-- **The running thread leaves the runnable pool**: what the round robin knows of it. -/
lemma RoundRobin.Shows.leaves (h : r.Shows s L) (hL : PoolInv D X s L)
    (hout : Leaves s s' L L' n c u k) :
    ∃ t, s.Named n t ∧ r.current = some t ∧ t ∈ r.runnable ∧ t ∉ r.waiting ∧ t ∉ r.sleeping := by
  obtain ⟨t, ht, hn⟩ := h.lines.exists_named hout.row
  have hmem := hout.passes.mem_source
  obtain ⟨hw, hs⟩ := h.lines.notMem_of_runnable hL.lists hn hmem
  exact ⟨t, hn, h.current.eq_some hL hn hout.row hout.current,
    (h.lines.mem_runnable hL hn).mpr hmem, hw, hs⟩

/-! ### The scheduler's context switch -/

/-- A context switch moves no thread to another pool. -/
lemma RoundRobin.contextSwitch_waiting (r : RoundRobin) :
    r.contextSwitch.waiting = r.waiting ∧ r.contextSwitch.sleeping = r.sleeping := by
  unfold RoundRobin.contextSwitch
  split <;> exact ⟨rfl, rfl⟩

/-- **The scheduler's context switch is that of the round robin.** -/
theorem contextSwitch_simulates (h : PoolInv D X s L) (hr : r.Lines s L) (oldEsp : ℕ) :
    wlp (contextSwitch oldEsp (-1)) (fun _ s' => r.contextSwitch.Leads s') s := by
  obtain ⟨hwaiting, hsleeping⟩ := r.contextSwitch_waiting
  rw [wlp, contextSwitch, wp_bind]
  refine wp_defer h (fun _ _ _ => trivial) oldEsp fun s₁ h₁ hs₁ => ?_
  rw [wp_bind, pickTcb, if_pos (by decide)]
  have hr₁ := hr.congr hs₁.threads hs₁.nextTid
  refine wp_getNextTcb h₁ (fun hempty => ?_) fun m l n c nodes pools hL hn he hc hlists => ?_
  · -- the pool is empty: the idle thread
    refine wp_imp (wlp_schedulerSetRunningTcb h₁.lists s₁.idleTcb) fun _ s' hpost => ?_
    obtain ⟨hcur, hthreads, -, hidle, hnext, hlists'⟩ := hpost
    have hnil : r.runnable = [] := by
      have hrunnable := hr₁.runnable
      rw [hempty] at hrunnable
      exact List.forall₂_nil_left_iff.mp hrunnable
    rw [RoundRobin.contextSwitch_nil hnil]
    refine RoundRobin.Shows.leads ⟨hlists', ?_, .inr (hidle ▸ hcur)⟩
    have hlines := hr₁.congr hthreads hnext
    exact ⟨hlines.runnable, hlines.waiting, hlines.sleeping, hlines.unborn, hlines.natural,
      hlines.nodup_waiting, hlines.nodup_sleeping⟩
  -- the head goes to the end, and the next one is dispatched
  · refine wp_imp (wlp_schedulerSetRunningTcb hlists c) fun _ s' hpost => ?_
    obtain ⟨hcur, hthreads, helem, hidle, hnext, hlists'⟩ := hpost
    have hrunnable := hr₁.runnable
    rw [hL] at hrunnable
    obtain ⟨y, rest, hy, hrest, hr'⟩ := List.forall₂_cons_left_iff.mp hrunnable
    -- both lists are rotated alike
    have hrotated : List.Forall₂ s₁.Named (l ++ [m]) (rest ++ [y]) :=
      List.rel_append hrest (.cons hy .nil)
    obtain ⟨l', hl'⟩ := List.head?_eq_some_iff.mp hn
    rw [hl'] at hrotated hlists'
    obtain ⟨d, r', hd, hr'', hsplit⟩ := List.forall₂_cons_left_iff.mp hrotated
    have hswitch := RoundRobin.contextSwitch_eq (s := r) (t := d) (l := r')
      (by rw [hr', ← hsplit]; rfl)
    -- nothing but the runnable pool has changed
    have hlines : r.contextSwitch.Lines s₁ (Function.update L .runnablePool (n :: l')) := by
      refine ⟨?_, ?_, ?_, ?_, hr₁.natural, ?_, ?_⟩
      · rw [hswitch, Function.update_self]
        exact .cons hd hr''
      · rw [hwaiting, Function.update_of_ne (by decide)]
        exact hr₁.waiting
      · rw [hsleeping, Function.update_of_ne (by decide)]
        exact hr₁.sleeping
      · rw [hwaiting]
        exact hr₁.unborn
      · rw [hwaiting]
        exact hr₁.nodup_waiting
      · rw [hsleeping]
        exact hr₁.nodup_sleeping
    refine RoundRobin.Shows.leads ⟨hlists', hlines.congr hthreads hnext, ?_⟩
    unfold RoundRobin.Names
    rw [hswitch]
    refine ⟨n, ?_, ?_⟩
    · rw [Sched.Named, hthreads]
      exact hd
    · rw [helem, hcur]
      change nodes.e n = some c
      rw [he, hc]

/-- A yield to the next thread. -/
lemma thrYield_simulates (h : PoolInv D X s L) (hr : r.Lines s L) (oldEsp : ℕ) {target : ℤ}
    (ht : target < 0) : wlp (thrYield oldEsp target) (fun _ s' => r.Leads s') s := by
  have hsame : thrYield oldEsp target = thrYield oldEsp (-1) := by
    unfold thrYield contextSwitch pickTcb
    simp [ht, not_le.mpr ht]
  rw [hsame, wlp, thrYield, if_neg (by decide), wp_bind]
  refine wp_imp (contextSwitch_simulates h hr oldEsp) fun _ s' hs' => ?_
  exact .step (o := .yield) rfl hs'

/-! ### The operations -/

/-- Some more steps of the round robin show the scheduler after an operation. -/
lemma thrMakeRunnable_simulates (h : r.Shows s L) (hL : PoolInv D X s L) (hD : D.Blank)
    (hX : X = ∅) (hmay : s.MayWake tid) :
    wlp (thrMakeRunnable tid) (fun _ s' => r.Leads s') s := by
  rw [wlp, thrMakeRunnable, wp_bind]
  refine wlp_makeRunnable hL hD.ofSleepers hmay (fun _ => ⟨hX, hD⟩) (fun v _ => ?_)
    fun s' L' n c w hL' hw hp => ?_
  · split_ifs <;> exact h.leads
  · obtain ⟨r', hstep, hshows⟩ := h.wake hL hL' hw hp
    exact .step hstep hshows.leads

/-- **A thread that deschedules itself waits**, and the next one is dispatched. -/
lemma thrDeschedule_simulates (h : r.Shows s L) (hL : PoolInv D X s L) (hD : D.OfSleepers)
    (hruns : s.Runs) (oldEsp : ℕ) (mapped : Bool) (reject : ℤ) :
    wlp (thrDeschedule oldEsp mapped reject) (fun _ s' => r.Leads s') s := by
  rw [wlp, thrDeschedule, wp_bind]
  refine wlp_currentTcb.mpr fun cur _ => ?_
  refine (wp_bind ..).mpr ((wlp_readTcb cur).mpr fun _ _ => ?_)
  by_cases hmapped : mapped = false
  · rw [if_pos hmapped]
    exact h.leads
  by_cases hreject : reject ≠ 0
  · rw [if_neg hmapped, if_pos hreject]
    exact h.leads
  rw [if_neg hmapped, if_neg hreject, wp_bind]
  refine wlp_descheduleCurrent hL hD hruns (fun v hv => ?_) fun s' L' n c u hL' hout => ?_
  · rw [if_pos hv]
    exact h.leads
  · obtain ⟨t, hn, hcur, hmem, hw, hs⟩ := h.leaves hL hout
    have hlines := h.lines.moves hL hn hout.table hout.passes
      (RoundRobin.moves_deschedule h.lines.nodup_waiting h.lines.nodup_sleeping hw hs)
    rw [if_neg (by decide)]
    refine wp_imp (thrYield_simulates hL' hlines oldEsp (by decide)) fun _ s₁ hleads => ?_
    refine .step (o := .deschedule) ?_ hleads
    rw [rrStep, hcur]
    exact if_pos hmem

/-- **A thread that sleeps** is off the runnable pool, and the next one is dispatched. -/
lemma thrSleep_simulates (h : r.Shows s L) (hL : PoolInv D X s L) (hD : D.OfSleepers)
    (hruns : s.Runs) (oldEsp : ℕ) (ticks : ℤ) :
    wlp (thrSleep oldEsp ticks) (fun _ s' => r.Leads s') s := by
  rw [wlp, thrSleep, wp_bind]
  refine wlp_makeCurrentSleeping hL hD hruns ticks (fun v s' hL' _ htable hcur => ?_)
    fun s' L' n c u hL' hout => ?_
  · -- nothing has changed for the round robin
    have hlines := h.lines.congr htable.threads htable.nextTid
    split_ifs
    · exact RoundRobin.Shows.leads ⟨hL'.lists, hlines, h.current.congr rfl htable hcur⟩
    · exact thrYield_simulates hL' hlines oldEsp (by decide)
  · obtain ⟨t, hn, hcur, hmem, hw, hs⟩ := h.leaves hL hout
    have hlines := h.lines.moves hL hn hout.table hout.passes
      (RoundRobin.moves_sleep h.lines.nodup_waiting h.lines.nodup_sleeping hw hs)
    rw [if_neg (by decide)]
    refine wp_imp (thrYield_simulates hL' hlines oldEsp (by decide)) fun _ s₁ hleads => ?_
    refine .step (o := .sleep) ?_ hleads
    rw [rrStep, hcur]
    exact if_pos hmem

/-- The current thread becomes a zombie, after its signal to the reaper, and the next one is
dispatched. -/
lemma makeCurrentZombie_simulates {w : Option ℤ} (h : r.Shows s L) (hL : PoolInv D X s L)
    (hD : D.Blank) (hX : X = ∅) (hruns : s.Runs)
    (hmay : s.curTcb ≠ some s.idleTcb → ∀ tid, w = some tid → s.MayWake tid) :
    wlp (do
      let _ ← schedulerMakeCurrentZombie (wakeWaiter w)
      thrYield 0 (-1)) (fun _ s' => r.Leads s') s := by
  rw [wlp, wp_bind]
  refine wlp_makeCurrentZombie hL hD.ofSleepers hruns hmay (fun _ => ⟨hX, hD⟩) (fun v => ?_)
    fun s₁ L₁ s' L' n c u hsignal hL₁ hout hL' => ?_
  · exact thrYield_simulates hL h.lines 0 (by decide)
  · have hgone : ∀ r₁ : RoundRobin, r₁.Shows s₁ L₁ →
        wp (thrYield 0 (-1)) (fun _ s₂ => r₁.Leads s₂) (fun _ _ => True) s' := by
      intro r₁ h₁
      obtain ⟨t, hn, hcur, hmem, hw, hs⟩ := h₁.leaves hL₁ hout
      have hlines := h₁.lines.moves hL₁ hn hout.table hout.passes
        (RoundRobin.moves_vanish h₁.lines.nodup_waiting h₁.lines.nodup_sleeping hw hs)
      refine wp_imp (thrYield_simulates hL' hlines 0 (by decide)) fun _ s₂ hleads => ?_
      refine .step (o := .vanish) ?_ hleads
      rw [rrStep, hcur]
      exact if_pos hmem
    cases hsignal with
    | same => exact hgone r h
    | woken _ hw hp =>
        obtain ⟨r₁, hstep, hshows⟩ := h.wake hL hL₁ hw hp
        exact wp_imp (hgone r₁ hshows) fun _ _ hleads => .step hstep hleads

/-- **A thread that vanishes**, after its signals to the parent and to the reaper. -/
lemma thrVanish_simulates {parent reaper : Option ℤ} (h : r.Shows s L) (hL : PoolInv D X s L)
    (hD : D.Blank) (hX : X = ∅) (hruns : s.Runs)
    (hparent : ∀ tid, parent = some tid → s.MayWake tid)
    (hreaper : s.curTcb ≠ some s.idleTcb →
      ∀ tid, reaper = some tid → s.MayWakeAfter parent tid) :
    wlp (thrVanish parent reaper) (fun _ s' => r.Leads s') s := by
  rw [wlp, thrVanish, wp_bind]
  refine wlp_currentTcb.mpr fun cur _ => ?_
  refine (wp_bind ..).mpr ((wlp_readTcb cur).mpr fun _ _ => ?_)
  rw [wp_bind]
  refine wlp_wakeWaiter hL hD.ofSleepers hparent (fun _ => ⟨hX, hD⟩) (fun hst => ?_)
    fun s' L' tid n c u htid hL' hw hp => ?_
  · refine makeCurrentZombie_simulates h hL hD hX hruns fun hidle tid htid => ?_
    rcases hreaper hidle tid htid with hmay | ⟨-, hsleep⟩
    · exact hmay
    · exact absurd hsleep hst
  · obtain ⟨r', hstep, hshows⟩ := h.wake hL hL' hw hp
    have hrest := makeCurrentZombie_simulates (w := reaper) hshows hL' hD hX (hw.runs hruns)
      fun hidle tid' htid' => hw.mayWake ?_
    · exact wp_imp hrest fun _ _ hleads => .step hstep hleads
    · rw [hw.curTcb, hw.table.idleTcb] at hidle
      exact htid ▸ hreaper hidle tid' htid'

/-! ### New threads and dead ones -/

/-- **A new thread enters the runnable pool**, as one that has waited. -/
lemma RoundRobin.Lines.add {a : HeapAnswer} (h : r.Lines s L) (hL : PoolInv D X s L)
    (ha : Added s s' a u) (hfits : s.nextTid + 1 < 2 ^ 31) :
    rrStep r (.makeRunnable s.nextTid) = some (r.wake s.nextTid) ∧ (r.wake s.nextTid).Lines s'
      (Function.update L .runnablePool (L .runnablePool ++ [a.node])) := by
  have hfresh : ∀ n, ¬ s.Named n s.nextTid := fun n hn =>
    absurd (hn.symm.trans (hL.fresh _ le_rfl)) (Option.some_ne_none n)
  have hnew : s'.Named a.node s.nextTid := by
    rw [Sched.Named, ha.get, Function.update_self]
  have hold : ∀ n v, v ≠ s.nextTid → (s'.Named n v ↔ s.Named n v) := by
    intro n v hv
    rw [Sched.Named, ha.get, Function.update_of_ne (by exact_mod_cast hv)]
    rfl
  -- the new node is on no pool
  have hoff : ∀ k, a.node ∉ L k := by
    intro k hk
    have hlive := (hL.lists.isLl k).live _ hk
    rw [ha.newNode] at hlive
    cases hlive
  have hblocked : ∀ (k : Pool) (l : List ℕ), l.Nodup →
      (∀ n v, s.Named n v → (v ∈ l ↔ n ∈ L k)) →
      ∀ n v, s'.Named n v → (v ∈ l.erase s.nextTid ↔ n ∈ L k) := by
    intro k l hl hiff n v hn
    by_cases hv : v = s.nextTid
    · subst hv
      obtain rfl := Option.some.inj (hn.symm.trans hnew)
      exact iff_of_false hl.not_mem_erase (hoff k)
    · rw [List.mem_erase_of_ne hv]
      exact hiff n v ((hold n v hv).mp hn)
  refine ⟨if_pos (.inl (h.unborn _ le_rfl (by omega))), ⟨?_, ?_, ?_, fun v hle hlt => ?_,
    fun tid n hn => ?_, h.nodup_waiting.erase _, h.nodup_sleeping.erase _⟩⟩
  · rw [Function.update_self]
    refine List.rel_append (h.runnable.imp fun n v hn => (hold n v ?_).mpr hn) (.cons hnew .nil)
    rintro rfl
    exact hfresh n hn
  · rw [Function.update_of_ne (by decide)]
    exact hblocked _ r.waiting h.nodup_waiting h.waiting
  · rw [Function.update_of_ne (by decide)]
    exact hblocked _ r.sleeping h.nodup_sleeping h.sleeping
  · rw [ha.nextTid] at hle
    exact (List.mem_erase_of_ne (by omega)).mpr (h.unborn v (by omega) hlt)
  · rw [ha.get, Function.update_apply] at hn
    split_ifs at hn with htid
    · omega
    · exact h.natural tid n hn

/-- **`scheduler_add_process`**: the new thread is at the end of the runnable pool. -/
lemma schedulerAddProcess_simulates (h : r.Shows s L) (hL : PoolInv D X s L)
    (heap : Option HeapAnswer) : wlp (schedulerAddProcess heap) (fun _ s' => r.Leads s') s := by
  refine wlp_addProcess hL heap ?_ fun s' a u hfits ha hcur hlists => ?_
  · -- the tid is lost
    refine RoundRobin.Shows.leads ⟨hL.spendTid.lists, ?_, h.current⟩
    exact ⟨h.lines.runnable, h.lines.waiting, h.lines.sleeping,
      fun v hle hlt => h.lines.unborn v (Nat.le_of_succ_le hle) hlt, h.lines.natural,
      h.lines.nodup_waiting, h.lines.nodup_sleeping⟩
  · obtain ⟨hstep, hlines⟩ := h.lines.add hL ha hfits
    refine .step hstep (RoundRobin.Shows.leads ⟨hlists, hlines, ?_⟩)
    have hcurrent := h.current
    unfold RoundRobin.Names at hcurrent ⊢
    change match r.current with
      | none => s'.curTcb = none ∨ s'.curTcb = some s'.idleTcb
      | some tid => ∃ n, s'.Named n tid ∧ s'.nodes.e n = s'.curTcb
    rw [hcur, ha.idleTcb]
    cases hrc : r.current with
    | none =>
        rw [hrc] at hcurrent
        exact hcurrent
    | some v =>
        rw [hrc] at hcurrent
        obtain ⟨n, hn, he⟩ := hcurrent
        obtain ⟨c, w, hr, -⟩ := hL.rows v n hn
        exact ⟨n, (ha.row hL hr).node, (ha.row hL hr).elem.trans (hr.elem.symm.trans he)⟩

/-- **The reaper** takes a thread off the table that is in no line. -/
lemma tcbPoolReap_simulates (h : r.Shows s L) (hL : PoolInv D X s L) (hD : D.OfSleepers)
    (hruns : s.Runs) : wlp tcbPoolReap (fun _ s' => r.Leads s') s := by
  refine wlp_reap hL hD h.leads fun s' L' tid n c u hL' hgone => ?_
  -- the other threads keep their names
  have hnamed : ∀ m v, s'.Named m v ↔ s.Named m v ∧ m ≠ n := by
    intro m v
    rw [Sched.Named, hgone.get, Function.update_apply]
    constructor
    · intro hm
      split_ifs at hm with hv
      refine ⟨hm, ?_⟩
      rintro rfl
      obtain ⟨t, rfl, ht⟩ := h.lines.exists_named hgone.row
      exact hv (congrArg Nat.cast (hL.biUnique.2 hm ht))
    · rintro ⟨hm, hne⟩
      rw [if_neg]
      · exact hm
      · rintro rfl
        exact hne (Option.some.inj (hm.symm.trans hgone.row.node))
  refine RoundRobin.Shows.leads ⟨hL'.lists, ⟨?_, fun m v hm => ?_, fun m v hm => ?_,
    hgone.nextTid ▸ h.lines.unborn, fun tid' m hm => ?_, h.lines.nodup_waiting,
    h.lines.nodup_sleeping⟩, ?_⟩
  · rw [hgone.runnable]
    refine (List.forall₂_iff_zip.mpr ⟨h.lines.runnable.length_eq, fun {m v} hmv => ?_⟩)
    refine (hnamed m v).mpr ⟨(List.forall₂_iff_zip.mp h.lines.runnable).2 hmv, ?_⟩
    rintro rfl
    have hpool := hL.lists.apart m _ _ (List.of_mem_zip hmv).1 hgone.mem_source
    cases hpool
  · obtain ⟨hm, hne⟩ := (hnamed m v).mp hm
    rw [h.lines.waiting m v hm, hgone.mem, and_iff_left hne]
  · obtain ⟨hm, hne⟩ := (hnamed m v).mp hm
    rw [h.lines.sleeping m v hm, hgone.mem, and_iff_left hne]
  · rw [hgone.get, Function.update_apply] at hm
    split_ifs at hm
    exact h.lines.natural tid' m hm
  · have hcurrent := h.current
    unfold RoundRobin.Names at hcurrent ⊢
    rw [hgone.curTcb, hgone.idleTcb]
    cases hrc : r.current with
    | none =>
        rw [hrc] at hcurrent
        exact hcurrent
    | some v =>
        rw [hrc] at hcurrent
        obtain ⟨m, hm, he⟩ := hcurrent
        obtain ⟨c', w, hr, -⟩ := hL.rows v m hm
        -- the current thread runs, and is no zombie
        have hne : c' ≠ c := by
          rintro rfl
          rcases hruns c' (he.symm.trans hr.elem) with hidle | ⟨tid', n', w', hr', hst⟩
          · exact hL.ne_idle hr hidle
          · obtain ⟨-, -, rfl⟩ := hL.eq_of_tcb hr' hgone.row
            rw [hgone.status] at hst
            cases hst
        exact ⟨m, (hgone.keeps hr hne).node, (hgone.keeps hr hne).elem.trans
          (hr.elem.symm.trans he)⟩

/-! ### The timer -/

/-- The threads that a tick wakes up enter the runnable pool one after the other. -/
lemma RoundRobin.wakeAll_runnable (woken : List ℕ) (r : RoundRobin) :
    (woken.foldl .wake r).runnable = r.runnable ++ woken := by
  induction woken generalizing r with
  | nil => exact (List.append_nil _).symm
  | cons t woken ih =>
      rw [List.foldl_cons, ih]
      exact List.append_assoc r.runnable [t] woken

/-- They leave the other pools. -/
lemma RoundRobin.mem_wakeAll (woken : List ℕ) {r : RoundRobin} (hw : r.waiting.Nodup)
    (hs : r.sleeping.Nodup) :
    (woken.foldl .wake r).waiting.Nodup ∧ (woken.foldl .wake r).sleeping.Nodup ∧ ∀ v,
      (v ∈ (woken.foldl .wake r).waiting ↔ v ∈ r.waiting ∧ v ∉ woken) ∧
      (v ∈ (woken.foldl .wake r).sleeping ↔ v ∈ r.sleeping ∧ v ∉ woken) := by
  induction woken generalizing r with
  | nil => exact ⟨hw, hs, fun v => by simp⟩
  | cons t woken ih =>
      obtain ⟨hw', hs', hmem⟩ := ih (r := r.wake t) (hw.erase t) (hs.erase t)
      refine ⟨hw', hs', fun v => ?_⟩
      have herase : ∀ {l : List ℕ}, l.Nodup →
          (v ∈ l.erase t ∧ v ∉ woken ↔ v ∈ l ∧ v ∉ t :: woken) := by
        intro l hl
        rw [hl.mem_erase_iff, List.mem_cons]
        tauto
      exact ⟨(hmem v).1.trans (herase hw), (hmem v).2.trans (herase hs)⟩

/-- **The threads that a tick wakes up** enter the runnable pool in the order of the sleeping
one. -/
lemma RoundRobin.Lines.wakeAll (h : r.Lines s L) (hL : PoolInv D X s L) {due rest : List Ptr}
    (hsplit : L .sleepingPool = due ++ rest) :
    ∃ woken : List ℕ, woken.Nodup ∧ woken ⊆ r.sleeping ∧
      (woken.foldl .wake r).Lines s (Function.update (Function.update L .sleepingPool rest)
        .runnablePool (L .runnablePool ++ due)) := by
  have hnodup := (hL.lists.isLl .sleepingPool).links.nodup
  rw [hsplit] at hnodup
  have hdue : ∀ n ∈ due, n ∈ L .sleepingPool := fun n hn => hsplit ▸ List.mem_append_left rest hn
  have hnamed : ∀ n ∈ due, ∃ v, s.Named n v := by
    intro n hn
    obtain ⟨tid, c, u, hr, -⟩ := hL.row_of_mem (hdue n hn)
    obtain ⟨v, -, hv⟩ := h.exists_named hr
    exact ⟨v, hv⟩
  choose! name hname using hnamed
  have hwoken : List.Forall₂ s.Named due (due.map name) := by
    rw [List.forall₂_map_right_iff, List.forall₂_same]
    exact hname
  have hmem : ∀ n v, s.Named n v → (v ∈ due.map name ↔ n ∈ due) := fun n v hn =>
    (List.rel_mem hL.biUnique hn hwoken).symm
  obtain ⟨hw, hs, hiff⟩ := RoundRobin.mem_wakeAll (due.map name) h.nodup_waiting h.nodup_sleeping
  refine ⟨due.map name, ?_, fun v hv => ?_, ⟨?_, fun n v hn => ?_, fun n v hn => ?_,
    fun v hle hlt => ?_, h.natural, hw, hs⟩⟩
  · exact (List.rel_nodup hL.biUnique hwoken).mp (List.nodup_append.mp hnodup).1
  · obtain ⟨n, hn, rfl⟩ := List.mem_map.mp hv
    exact (h.sleeping n _ (hname n hn)).mpr (hdue n hn)
  · rw [RoundRobin.wakeAll_runnable, Function.update_self]
    exact List.rel_append h.runnable hwoken
  · -- no waiting thread is due
    rw [(hiff v).1, h.waiting n v hn, hmem n v hn, Function.update_of_ne (by decide),
      Function.update_of_ne (by decide)]
    refine ⟨And.left, fun hin => ⟨hin, fun hd => ?_⟩⟩
    have hpool := hL.lists.apart n _ _ hin (hdue n hd)
    cases hpool
  · rw [(hiff v).2, h.sleeping n v hn, hmem n v hn, Function.update_of_ne (by decide),
      Function.update_self, hsplit, List.mem_append]
    refine ⟨fun hin => hin.1.resolve_left hin.2, fun hin => ⟨.inr hin, fun hd => ?_⟩⟩
    exact (List.nodup_append.mp hnodup).2.2 n hd n hin rfl
  · refine (hiff v).1.mpr ⟨h.unborn v hle hlt, fun hin => ?_⟩
    obtain ⟨n, hn, rfl⟩ := List.mem_map.mp hin
    have hnone := hL.fresh (name n) (by exact_mod_cast hle)
    exact absurd ((hname n hn).symm.trans hnone) (Option.some_ne_none n)

/-- **A timer tick** wakes up the threads that are due, and dispatches the next one. -/
lemma cTimerHandler_simulates (h : r.Shows s L) (hL : PoolInv D X s L) (hD : D.bound = D.clock)
    (oldEsp : ℕ) : wlp (cTimerHandler oldEsp) (fun _ s' => r.Leads s') s := by
  rw [wlp, cTimerHandler, wp_bind, wp_gets, wp_bind, wp_require]
  refine ⟨fun _ => ?_, fun _ => trivial⟩
  rw [wp_bind, wp_modify, wp_bind]
  have htick := hL.tick
  have hnow : s.numTicks + 1 ≤ D.bound + 1 := by rw [hL.clock, hD]
  refine wlp_of_wp (wp_wakeup htick hnow
    fun due rest nodes pools hsplit hdue hrest he hlists => ?_)
  have hwoken := htick.woken (E := ⟨D.clock + 1, D.clock + 1, fun _ _ _ => False⟩) hsplit he
    hlists rfl le_rfl (fun n hn => ?_) fun _ _ _ hk => hk.elim
  · obtain ⟨woken, hnodup, hsub, hlines⟩ := h.lines.wakeAll hL hsplit
    refine wp_imp (contextSwitch_simulates hwoken (hlines.congr rfl rfl) oldEsp)
      fun _ s' hleads => ?_
    exact .step (o := .tick woken) (if_pos ⟨hnodup, hsub⟩) hleads
  · have hlate := hrest n hn
    rwa [hL.clock] at hlate

/-! ### Runs -/

/-- Whether the step dispatches the next thread, if any: a yield may name another one. -/
def SchedOp.TakesNext : SchedOp → Prop
  | .yield _ tid => tid < 0
  | _ => True

/-- **Every operation is a few steps of the round robin, or none.** -/
theorem schedStep_simulates (h : s.Good) (hr : r.Shows s L) {op : SchedOp} (hop : Harmless s op)
    (hnext : op.TakesNext) : wlp (schedStep op) (fun _ s' => r.Leads s') s := by
  obtain ⟨D, hblank, hbound, ⟨X, hX, L', hL⟩, hruns⟩ := h
  obtain rfl := hr.lists.unique hL.lists
  have hempty : X = ∅ := Set.subset_empty_iff.mp hX
  have hdone : ∀ {α : Type} {c : SchedM α}, wlp c (fun _ s' => r.Leads s') s →
      wlp (do let _ ← c) (fun _ s' => r.Leads s') s := fun hc => (wp_bind ..).mpr hc
  cases op with
  | addProcess heap => exact hdone (schedulerAddProcess_simulates hr hL heap)
  | addNewThread heap =>
      refine hdone ?_
      rw [wlp, schedulerAddNewThread, wp_bind]
      refine wlp_currentTcb.mpr fun cur _ => ?_
      exact (wp_bind ..).mpr ((wlp_readTcb cur).mpr fun _ _ =>
        schedulerAddProcess_simulates hr hL heap)
  | deschedule oldEsp mapped reject =>
      exact hdone (thrDeschedule_simulates hr hL hblank.ofSleepers hruns oldEsp mapped reject)
  | makeRunnable tid => exact hdone (thrMakeRunnable_simulates hr hL hblank hempty hop)
  | sleep oldEsp ticks =>
      exact hdone (thrSleep_simulates hr hL hblank.ofSleepers hruns oldEsp ticks)
  | yield oldEsp tid => exact hdone (thrYield_simulates hL hr.lines oldEsp hnext)
  | timer oldEsp => exact hdone (cTimerHandler_simulates hr hL hbound oldEsp)
  | vanish parent reaper =>
      exact hdone (thrVanish_simulates hr hL hblank hempty hruns hop.1 hop.2)
  | reap => exact tcbPoolReap_simulates hr hL hblank.ofSleepers hruns

/-- The round robin before any thread is there. -/
def emptyRoundRobin : RoundRobin where
  runnable := []
  waiting := allTids
  sleeping := []
  current := none
  dispatched := fun _ _ => 0

lemma emptyRoundRobin_init : rrMachine.init emptyRoundRobin := by
  refine ⟨?_, fun _ _ => rfl⟩
  rw [emptyRoundRobin, List.nil_append, List.append_nil]
  exact List.nodup_range'

/-- The scheduler that `scheduler_init` sets up shows an empty runnable pool. -/
lemma emptyRoundRobin_shows (idle : HeapAnswer) :
    emptyRoundRobin.Shows (schedulerInit idle) fun _ => [] := by
  have hget : ∀ tid, htGet (schedulerInit idle).threads tid = none :=
    htGet_htInit tableSize tidHash
  have hnone : ∀ n tid, ¬ (schedulerInit idle).Named n tid := fun n tid hn =>
    absurd (hn.symm.trans (hget tid)) (Option.some_ne_none n)
  refine ⟨⟨fun k => ⟨⟨trivial, List.nodup_nil, rfl, rfl, rfl⟩, by simp⟩, by simp⟩,
    ⟨.nil, fun n tid hn => absurd hn (hnone n tid), fun n tid hn => absurd hn (hnone n tid),
      fun tid hle hlt => mem_allTids.mpr ⟨hle, hlt⟩, fun tid n hn => ?_, List.nodup_range',
      List.nodup_nil⟩, .inl rfl⟩
  rw [hget] at hn
  cases hn

/-- **The scheduler's runs are those of the round robin**: in a harmless run in which every yield
is to the next thread, the runnable pool, the blocked threads and the current one are those of a
run of the round robin. -/
theorem schedMachine_refines
    (h : schedMachine.Reach (fun s op => Harmless s op ∧ op.TakesNext) s) :
    ∃ r L, rrMachine.Reachable r ∧ r.Shows s L := by
  induction h with
  | @init s hinit =>
      obtain ⟨idle, rfl⟩ := hinit
      exact ⟨emptyRoundRobin, _, .init emptyRoundRobin_init, emptyRoundRobin_shows idle⟩
  | @step s s' op hreach hop hs ih =>
      obtain ⟨r, L, hr, hshows⟩ := ih
      have hgood : s.Good := good_of_harmless (hreach.mono fun _ _ => And.left)
      have hleads := schedStep_simulates hgood hshows hop.1 hop.2
      change schedNext s op = some s' at hs
      unfold schedNext at hs
      split at hs
      · next hrun =>
        cases hs
        obtain ⟨ops, r', L', hreplay, hshows'⟩ := wp_ok hleads hrun
        refine ⟨r', L', ?_, hshows'⟩
        exact Machine.reach_of_replay (fun _ _ _ hstep => hstep) ops (fun _ _ _ => trivial) hr
          hreplay
      · cases hs

end ShrekOS
