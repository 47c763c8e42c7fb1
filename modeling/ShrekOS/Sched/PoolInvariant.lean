/-
The invariant of the thread pool, and what each operation does to it.

* `poolOf`: the pool a status names;
* `Diary`: what is to be remembered of the sleeping threads while others go on;
* `PoolInv`: the pools are well formed lists, every thread of the table is on the pool its
  status names, and nothing else is on a pool; threads that were woken up may be excepted,
  which are on the runnable pool although they are `SLEEPING`;
* `PoolInv.update`: **the one lemma behind every operation**: one tcb is written and the
  pools change;
* `Runs`: the current thread is the idle thread or a running one of the table.
-/
import ShrekOS.Sched.PoolRules

namespace ShrekOS

open Kit Kit.Cmd

/-- The pool that a status names. -/
def poolOf : Status → Pool
  | .runnable | .running => .runnablePool
  | .waiting => .waitingPool
  | .sleeping => .sleepingPool
  | .zombie => .zombiePool

/-- When the thread of a node is to be woken up. -/
def Sched.wakeAt (s : Sched) (n : Ptr) : ℕ := ((s.nodes.e n).bind s.tcbs).elim 0 Tcb.tWakeup

/-- The time, a time after which every sleeping thread is to be woken up, and the pools that
some threads are on with the times they are to be woken up. -/
structure Diary where
  clock : ℕ
  bound : ℕ
  entries : ℤ → Pool → ℕ → Prop

/-- No thread is in the diary. -/
def Diary.Blank (D : Diary) : Prop := ∀ tid k w, ¬ D.entries tid k w

/-- The threads in the diary are sleeping. -/
def Diary.OfSleepers (D : Diary) : Prop := ∀ tid k w, D.entries tid k w → k = .sleepingPool

lemma Diary.Blank.ofSleepers {D : Diary} (h : D.Blank) : D.OfSleepers :=
  fun tid k w he => absurd he (h tid k w)

open Classical in
/-- The pool a thread belongs to, the excepted ones to the runnable pool. -/
noncomputable def home (X : Set Ptr) (tcb : Ptr) (t : Tcb) : Pool :=
  if tcb ∈ X then .runnablePool else poolOf t.status

lemma home_of_mem {X : Set Ptr} {tcb : Ptr} (h : tcb ∈ X) (t : Tcb) :
    home X tcb t = .runnablePool := if_pos h

lemma home_of_notMem {X : Set Ptr} {tcb : Ptr} (h : tcb ∉ X) (t : Tcb) :
    home X tcb t = poolOf t.status := if_neg h

/-- Whether a thread is excepted is all that matters of the exceptions. -/
lemma home_congr {X X' : Set Ptr} {tcb : Ptr} (h : tcb ∈ X' ↔ tcb ∈ X) (t : Tcb) :
    home X' tcb t = home X tcb t := by
  by_cases hX : tcb ∈ X
  · rw [home_of_mem hX, home_of_mem (h.mpr hX)]
  · rw [home_of_notMem hX, home_of_notMem fun hX' => hX (h.mp hX')]

/-- A thread whose status names the runnable pool belongs there in any case. -/
lemma home_runnable {t : Tcb} (h : poolOf t.status = .runnablePool) (X : Set Ptr) (tcb : Ptr) :
    home X tcb t = .runnablePool := by
  by_cases hX : tcb ∈ X
  · exact home_of_mem hX t
  · rw [home_of_notMem hX, h]

/-- A thread that belongs elsewhere is not excepted. -/
lemma notMem_of_home {X : Set Ptr} {tcb : Ptr} {t : Tcb} {k : Pool} (h : home X tcb t = k)
    (hk : k ≠ .runnablePool) : tcb ∉ X ∧ poolOf t.status = k := by
  have hX : tcb ∉ X := fun hX => hk (h.symm.trans (home_of_mem hX t))
  exact ⟨hX, (home_of_notMem hX t).symm.trans h⟩

/-- The invariant of the thread pool. -/
structure PoolInv (D : Diary) (X : Set Ptr) (s : Sched) (L : Pool → List Ptr) : Prop where
  lists : s.Lists L
  rows : ∀ tid n, htGet s.threads tid = some n →
    ∃ tcb t, s.Row tid n tcb t ∧ t.tid = tid ∧ n ∈ L (home X tcb t)
  linked : ∀ k n, n ∈ L k → ∃ tid, htGet s.threads tid = some n
  fresh : ∀ tid : ℤ, s.nextTid ≤ tid → htGet s.threads tid = none
  pos : 0 < s.nextTid
  idle : htGet s.threads 0 = none
  idleTid : ∃ t, s.tcbs s.idleTcb = some t ∧ t.tid = 0
  null : s.tcbs 0 = none
  asleep : ∀ c ∈ X, ∃ t, s.tcbs c = some t ∧ t.status = .sleeping
  sorted : (L .sleepingPool).Pairwise fun a b => s.wakeAt a ≤ s.wakeAt b
  clock : s.numTicks = D.clock
  bound_le : D.bound ≤ D.clock
  ahead : ∀ n ∈ L .sleepingPool, D.bound < s.wakeAt n
  booked : ∀ tid k w, D.entries tid k w → ∃ n c t, s.Row tid n c t ∧ n ∈ L k ∧ t.tWakeup = w

/-- The current thread is the idle one or a running one. -/
def Sched.Runs (s : Sched) : Prop :=
  ∀ c, s.curTcb = some c → c = s.idleTcb ∨ ∃ tid n t, s.Row tid n c t ∧ t.status = .running

variable {D : Diary} {s s' : Sched} {X X' Y : Set Ptr} {L L' : Pool → List Ptr} {tid tid' : ℤ}
  {n n' c c' : Ptr} {t t' : Tcb}

/-- A thread of the table is found in one way. -/
lemma Sched.Row.unique (h : s.Row tid n c t) (h' : s.Row tid n' c' t') :
    n = n' ∧ c = c' ∧ t = t' := by
  obtain rfl := Option.some.inj (h.node.symm.trans h'.node)
  obtain rfl := Option.some.inj (h.elem.symm.trans h'.elem)
  obtain rfl := Option.some.inj (h.tcb.symm.trans h'.tcb)
  exact ⟨rfl, rfl, rfl⟩

lemma Sched.Row.wakeAt (h : s.Row tid n c t) : s.wakeAt n = t.tWakeup := by
  simp [Sched.wakeAt, h.elem, h.tcb]

namespace PoolInv

/-- What the invariant says about a thread of the table. -/
lemma row (h : PoolInv D X s L) (hr : s.Row tid n c t) : t.tid = tid ∧ n ∈ L (home X c t) := by
  obtain ⟨c', t', hr', htid, hmem⟩ := h.rows tid n hr.node
  obtain ⟨-, rfl, rfl⟩ := hr.unique hr'
  exact ⟨htid, hmem⟩

/-- No tcb of the table is at `NULL`. -/
lemma tcb_ne_zero (h : PoolInv D X s L) (hr : s.Row tid n c t) : c ≠ 0 := by
  rintro rfl
  exact absurd (h.null.symm.trans hr.tcb) (Option.some_ne_none t).symm

/-- Threads with one tcb are one thread. -/
lemma eq_of_tcb (h : PoolInv D X s L) (hr : s.Row tid n c t) (hr' : s.Row tid' n' c t') :
    tid = tid' ∧ n = n' ∧ t = t' := by
  obtain rfl := Option.some.inj (hr.tcb.symm.trans hr'.tcb)
  obtain rfl : tid = tid' := (h.row hr).1.symm.trans (h.row hr').1
  exact ⟨rfl, (hr.unique hr').1, rfl⟩

/-- Threads with one node are one thread. -/
lemma eq_of_node (h : PoolInv D X s L) (hr : s.Row tid n c t) (hr' : s.Row tid' n c' t') :
    tid = tid' ∧ c = c' ∧ t = t' := by
  obtain rfl := Option.some.inj (hr.elem.symm.trans hr'.elem)
  obtain ⟨h1, -, h3⟩ := h.eq_of_tcb hr hr'
  exact ⟨h1, rfl, h3⟩

/-- The idle thread is not in the table. -/
lemma ne_idle (h : PoolInv D X s L) (hr : s.Row tid n c t) : c ≠ s.idleTcb := by
  rintro rfl
  obtain ⟨u, hu, h0⟩ := h.idleTid
  obtain rfl := Option.some.inj (hu.symm.trans hr.tcb)
  have hnode := hr.node
  rw [← (h.row hr).1, h0, h.idle] at hnode
  cases hnode

/-- The thread of a node on a pool. -/
lemma row_of_mem (h : PoolInv D X s L) {k : Pool} (hn : n ∈ L k) :
    ∃ tid c t, s.Row tid n c t ∧ k = home X c t := by
  obtain ⟨tid, hget⟩ := h.linked k n hn
  obtain ⟨c, t, hr, -, hmem⟩ := h.rows tid n hget
  exact ⟨tid, c, t, hr, h.lists.apart n k _ hn hmem⟩

/-- A thread is on the one pool it belongs to. -/
lemma mem_iff (h : PoolInv D X s L) (hr : s.Row tid n c t) (k : Pool) :
    n ∈ L k ↔ k = home X c t :=
  ⟨fun hn => h.lists.apart n k _ hn (h.row hr).2, fun hk => hk ▸ (h.row hr).2⟩

end PoolInv

/-- The two schedulers have the same threads table, the same next tid and the same time. -/
structure SameTable (s s' : Sched) : Prop where
  threads : s'.threads = s.threads
  elem : s'.nodes.e = s.nodes.e
  idleTcb : s'.idleTcb = s.idleTcb
  nextTid : s'.nextTid = s.nextTid
  numTicks : s'.numTicks = s.numTicks

/-- The threads of the table after one tcb was written. -/
lemma SameTable.row_update (hs : SameTable s s')
    (htcbs : s'.tcbs = Function.update s.tcbs c (some t'))
    {tcb : Ptr} {u : Tcb} (hr : s.Row tid n tcb u) :
    s'.Row tid n tcb (if tcb = c then t' else u) := by
  refine ⟨hs.threads ▸ hr.node, hs.elem ▸ hr.elem, ?_⟩
  rw [htcbs, Function.update_apply]
  split_ifs
  · rfl
  · exact hr.tcb

/-- **One tcb is written and the pools change**, so that every thread is on the pool it
belongs to then. -/
theorem PoolInv.update (h : PoolInv D X s L) (hs : SameTable s s')
    (htcbs : s'.tcbs = Function.update s.tcbs c (some t')) (hc : s.tcbs c = some t)
    (htid : t'.tid = t.tid) (hlists : s'.Lists L')
    (hmem : ∀ tid n tcb u, s.Row tid n tcb u → n ∈ L' (home X' tcb (if tcb = c then t' else u)))
    (hlinked : ∀ k n, n ∈ L' k → ∃ j, n ∈ L j) (hasleep : c ∈ X' → t'.status = .sleeping)
    (hX : ∀ tcb ≠ c, tcb ∈ X' → tcb ∈ X)
    (hsorted : (L' .sleepingPool).Pairwise fun a b => s'.wakeAt a ≤ s'.wakeAt b)
    (hahead : ∀ n ∈ L' .sleepingPool, D.bound < s'.wakeAt n)
    (hbooked : ∀ tid k w n tcb u, D.entries tid k w → s.Row tid n tcb u → n ∈ L k →
      n ∈ L' k ∧ (tcb = c → t'.tWakeup = t.tWakeup)) :
    PoolInv D X' s' L' where
  lists := hlists
  rows := by
    intro tid n hget
    rw [hs.threads] at hget
    -- a row of before, with the tcb `t'` if it is that of `c`
    obtain ⟨tcb, u, hr, hu, -⟩ := h.rows tid n hget
    refine ⟨tcb, _, hs.row_update htcbs hr, ?_, hmem tid n tcb u hr⟩
    split_ifs with htcb
    · subst htcb
      obtain rfl := Option.some.inj (hc.symm.trans hr.tcb)
      exact htid.trans hu
    · exact hu
  linked := by
    intro k n hn
    obtain ⟨j, hj⟩ := hlinked k n hn
    rw [hs.threads]
    exact h.linked j n hj
  fresh := by
    intro tid hle
    rw [hs.threads]
    exact h.fresh tid (hs.nextTid ▸ hle)
  pos := hs.nextTid ▸ h.pos
  idle := by
    rw [hs.threads]
    exact h.idle
  idleTid := by
    obtain ⟨u, hu, hzero⟩ := h.idleTid
    rw [hs.idleTcb, htcbs, Function.update_apply]
    split_ifs with hidle
    · obtain rfl := Option.some.inj (hu.symm.trans (hidle ▸ hc))
      exact ⟨t', rfl, htid.trans hzero⟩
    · exact ⟨u, hu, hzero⟩
  null := by
    -- `c` is a tcb, and there is none at the null pointer
    have hne : (0 : Ptr) ≠ c := by
      rintro rfl
      exact absurd (h.null.symm.trans hc) (Option.some_ne_none t).symm
    rw [htcbs, Function.update_of_ne hne]
    exact h.null
  asleep := by
    intro tcb htcb
    rw [htcbs, Function.update_apply]
    split_ifs with heq
    · exact ⟨t', rfl, hasleep (heq ▸ htcb)⟩
    · exact h.asleep tcb (hX tcb heq htcb)
  sorted := hsorted
  clock := hs.numTicks.trans h.clock
  bound_le := h.bound_le
  ahead := hahead
  booked := by
    intro tid k w he
    -- an entry of the diary is about the tick of a row of before
    obtain ⟨n, tcb, u, hr, hn, hw⟩ := h.booked tid k w he
    obtain ⟨hn', hsame⟩ := hbooked tid k w n tcb u he hr hn
    refine ⟨n, tcb, _, hs.row_update htcbs hr, hn', ?_⟩
    split_ifs with htcb
    · obtain rfl := Option.some.inj (hc.symm.trans (htcb ▸ hr.tcb))
      exact (hsame htcb).trans hw
    · exact hw

/-- A part of the sleeping pool stays in order when no wakeup time on it changes. -/
lemma PoolInv.sorted_of (h : PoolInv D X s L) {l : List Ptr} (hl : l.Sublist (L .sleepingPool))
    (hw : ∀ a ∈ l, s'.wakeAt a = s.wakeAt a) :
    l.Pairwise fun a b => s'.wakeAt a ≤ s'.wakeAt b := by
  refine (h.sorted.sublist hl).imp_of_mem fun ha hb hab => ?_
  rwa [hw _ ha, hw _ hb]

/-- Writing one tcb changes no wakeup time but that of its node. -/
lemma SameTable.wakeAt (hs : SameTable s s')
    (htcbs : s'.tcbs = Function.update s.tcbs c (some t')) {a : Ptr} (ha : s.nodes.e a ≠ some c) :
    s'.wakeAt a = s.wakeAt a := by
  rw [Sched.wakeAt, Sched.wakeAt, hs.elem, htcbs]
  cases he : s.nodes.e a with
  | none => rfl
  | some b =>
      have hb : b ≠ c := fun hb => ha (hb ▸ he)
      rw [Option.bind_some, Option.bind_some, Function.update_of_ne hb]

/-- **A tcb is written without a change of pool.** -/
theorem PoolInv.retouch (h : PoolInv D X s L) (hs : SameTable s s')
    (htcbs : s'.tcbs = Function.update s.tcbs c (some t')) (hc : s.tcbs c = some t)
    (htid : t'.tid = t.tid) (hlists : s'.Lists L')
    (hmem : ∀ k n, n ∈ L' k ↔ n ∈ L k) (hsleep : L' .sleepingPool = L .sleepingPool)
    (hrow : ∀ tid n, s.Row tid n c t → home X' c t' = home X c t ∧ t'.tWakeup = t.tWakeup)
    (hasleep : c ∈ X' → t'.status = .sleeping) (hother : ∀ tcb ≠ c, tcb ∈ X' ↔ tcb ∈ X) :
    PoolInv D X' s' L' := by
  -- no wakeup time of a thread of the table changes
  have hwake : ∀ a ∈ L .sleepingPool, s'.wakeAt a = s.wakeAt a := by
    intro a ha
    obtain ⟨tid, tcb, u, hr, -⟩ := h.row_of_mem ha
    by_cases htcb : tcb = c
    · subst htcb
      obtain rfl := Option.some.inj (hc.symm.trans hr.tcb)
      have hr' := hs.row_update htcbs hr
      rw [if_pos rfl] at hr'
      rw [hr'.wakeAt, hr.wakeAt]
      exact (hrow tid a hr).2
    · refine hs.wakeAt htcbs fun he => htcb ?_
      exact Option.some.inj (hr.elem.symm.trans he)
  refine h.update hs htcbs hc htid hlists ?_ (fun k n hn => ⟨k, (hmem k n).mp hn⟩) hasleep
    (fun tcb hne => (hother tcb hne).mp) ?_ ?_ ?_
  · intro tid n tcb u hr
    rw [hmem]
    have hu := (h.row hr).2
    by_cases htcb : tcb = c
    · subst htcb
      obtain rfl := Option.some.inj (hc.symm.trans hr.tcb)
      rw [if_pos rfl, (hrow tid n hr).1]
      exact hu
    · rw [if_neg htcb, home_congr (hother tcb htcb)]
      exact hu
  · rw [hsleep]
    exact h.sorted_of (List.Sublist.refl _) hwake
  · intro n hn
    rw [hsleep] at hn
    rw [hwake n hn]
    exact h.ahead n hn
  · intro tid k w n tcb u _ hr hn
    refine ⟨(hmem k n).mpr hn, fun htcb => ?_⟩
    subst htcb
    obtain rfl := Option.some.inj (hc.symm.trans hr.tcb)
    exact (hrow tid n hr).2

/-- Other nodes with the same elements change no wakeup time. -/
lemma wakeAt_withLists {nodes : Nodes} (pools : Pool → Ll) (he : nodes.e = s.nodes.e) (a : Ptr) :
    (s.withLists nodes pools).wakeAt a = s.wakeAt a := by
  rw [Sched.wakeAt, Sched.wakeAt, ← he]
  rfl

lemma Sched.Row.withLists {nodes : Nodes} (pools : Pool → Ll) (he : nodes.e = s.nodes.e)
    (h : s.Row tid n c t) : (s.withLists nodes pools).Row tid n c t :=
  ⟨h.node, he ▸ h.elem, h.tcb⟩

/-- **The pools change their order alone.** -/
theorem PoolInv.reorder {nodes : Nodes} {pools : Pool → Ll} (h : PoolInv D X s L)
    (he : nodes.e = s.nodes.e) (hlists : (s.withLists nodes pools).Lists L')
    (hmem : ∀ k n, n ∈ L' k ↔ n ∈ L k) (hsleep : L' .sleepingPool = L .sleepingPool) :
    PoolInv D X (s.withLists nodes pools) L' where
  lists := hlists
  rows := by
    intro tid n hget
    obtain ⟨tcb, t, hr, htid, hn⟩ := h.rows tid n hget
    exact ⟨tcb, t, hr.withLists pools he, htid, (hmem _ n).mpr hn⟩
  linked := fun k n hn => h.linked k n ((hmem k n).mp hn)
  fresh := h.fresh
  pos := h.pos
  idle := h.idle
  idleTid := h.idleTid
  null := h.null
  asleep := h.asleep
  sorted := by
    rw [hsleep]
    exact h.sorted_of (List.Sublist.refl _) fun a _ => wakeAt_withLists pools he a
  clock := h.clock
  bound_le := h.bound_le
  ahead := by
    intro n hn
    rw [wakeAt_withLists pools he]
    exact h.ahead n (hsleep ▸ hn)
  booked := by
    intro tid k w hk
    obtain ⟨n, c, t, hr, hn, hw⟩ := h.booked tid k w hk
    exact ⟨n, c, t, hr.withLists pools he, (hmem k n).mpr hn, hw⟩

/-! ### Context switches -/

/-- The invariant, with no exceptions but those of `Y`: what every atomic step keeps. -/
def Sched.Pooled (D : Diary) (Y : Set Ptr) (s : Sched) : Prop :=
  (∃ X ⊆ Y, ∃ L, PoolInv D X s L) ∧ s.Runs

/-- The tcb that is deferred. -/
def Tcb.deferred (t : Tcb) (oldEsp : ℕ) : Tcb :=
  { t with
    tmpKStack := oldEsp
    status := if t.status = .running then .runnable else t.status }

lemma home_deferred (X : Set Ptr) (c : Ptr) (t : Tcb) (oldEsp : ℕ) :
    home X c (t.deferred oldEsp) = home X c t := by
  unfold home Tcb.deferred
  cases t.status <;> rfl

lemma deferred_status {t : Tcb} (h : t.status = .sleeping) (oldEsp : ℕ) :
    (t.deferred oldEsp).status = .sleeping := by
  simp [Tcb.deferred, h]

/-- Deferring the current thread keeps the invariant. -/
lemma wp_defer {Q : Unit → Sched → Prop} {E : Fault → Sched → Prop} (h : PoolInv D X s L)
    (hcur : ∀ c, s.curTcb = some c → s.tcbs c = none → E .badPointer s) (oldEsp : ℕ)
    (hq : ∀ s', PoolInv D X s' L → SameTable s s' → Q () s') :
    wp (schedulerDeferCurrentTcb oldEsp) Q E s := by
  rw [schedulerDeferCurrentTcb, wp_bind, wp_gets]
  cases hc : s.curTcb with
  | none => exact hq s h ⟨rfl, rfl, rfl, rfl, rfl⟩
  | some c =>
      cases ht : s.tcbs c with
      | none =>
          have hfault := hcur c hc ht
          simp only [writeTcb, readTcb, wp_bind, wp_gets, ht]
          exact hfault
      | some t =>
          refine (wp_writeTcb ht _).mpr (hq _ ?_ ⟨rfl, rfl, rfl, rfl, rfl⟩)
          refine h.retouch ⟨rfl, rfl, rfl, rfl, rfl⟩ rfl ht rfl ⟨h.lists.isLl, h.lists.apart⟩
            (fun _ _ => Iff.rfl) rfl (fun _ _ _ => ⟨home_deferred X c t oldEsp, rfl⟩) (fun hc => ?_)
            fun _ _ => Iff.rfl
          obtain ⟨u, hu, hst⟩ := h.asleep c hc
          obtain rfl := Option.some.inj (ht.symm.trans hu)
          exact deferred_status hst oldEsp

/-- Setting a thread running changes neither the table nor the pools. -/
lemma wlp_schedulerSetRunningTcb (h : s.Lists L) (c : Ptr) :
    wlp (schedulerSetRunningTcb c) (fun _ s' => s'.curTcb = some c ∧ s'.threads = s.threads ∧
      s'.nodes.e = s.nodes.e ∧ s'.idleTcb = s.idleTcb ∧ s'.nextTid = s.nextTid ∧ s'.Lists L) s := by
  rw [wlp, schedulerSetRunningTcb, wp_bind, wp_modify, wp_bind]
  refine (wlp_setStatus c _).mpr fun t ht => ?_
  rw [wp_bind]
  refine (wlp_readTcb c).mpr fun t' ht' => ?_
  rw [wp_bind, wp_modify, wp_pure]
  exact ⟨rfl, rfl, rfl, rfl, rfl, h.isLl, h.apart⟩

/-- Setting a thread of the runnable pool, or the idle thread, running. -/
lemma wp_setRunning {c : Ptr} {E : Fault → Sched → Prop} (h : PoolInv D X s L)
    (hx : ∀ w ∈ X, w ∉ Y → w = c)
    (hc : c = s.idleTcb ∨ ∃ tid n t, s.Row tid n c t ∧ home X c t = .runnablePool) :
    wp (schedulerSetRunningTcb c) (fun _ s' => s'.Pooled D Y) E s := by
  obtain ⟨t, ht⟩ : ∃ t, s.tcbs c = some t := by
    rcases hc with rfl | ⟨_, _, t, hr, -⟩
    · obtain ⟨t, ht, -⟩ := h.idleTid
      exact ⟨t, ht⟩
    · exact ⟨t, hr.tcb⟩
  rw [schedulerSetRunningTcb, wp_bind, wp_modify, wp_bind]
  refine (wp_setStatus (s := { s with curTcb := some c }) ht _).mpr ?_
  rw [wp_bind]
  refine (wp_readTcb (Function.update_self ..)).mpr ?_
  rw [wp_bind, wp_modify, wp_pure]
  set s' : Sched := { s with
    curTcb := some c
    tcbs := Function.update s.tcbs c (some { t with status := .running })
    esp0 := t.origKStack } with hs'
  have hsame : SameTable s s' := ⟨rfl, rfl, rfl, rfl, rfl⟩
  have hout : c ∉ X \ {c} := fun hin => hin.2 rfl
  have hself : ∀ tid n, s.Row tid n c t →
      home (X \ {c}) c { t with status := .running } = home X c t := by
    intro tid n hr
    rw [home_of_notMem hout]
    rcases hc with rfl | ⟨tid', n', u, hr', hhome⟩
    · exact absurd rfl (h.ne_idle hr)
    · obtain ⟨-, -, rfl⟩ := h.eq_of_tcb hr hr'
      exact hhome.symm
  refine ⟨⟨X \ {c}, fun w hw => ?_, L, h.retouch hsame rfl ht rfl
    ⟨h.lists.isLl, h.lists.apart⟩ (fun _ _ => Iff.rfl) rfl
    (fun tid n hr => ⟨hself tid n hr, rfl⟩) (fun hin => absurd hin hout) fun tcb htcb => ?_⟩, ?_⟩
  · by_contra hwY
    exact hw.2 (hx w hw.1 hwY)
  · exact ⟨fun hin => hin.1, fun hin => ⟨hin, htcb⟩⟩
  · rintro _ ⟨⟩
    rcases hc with hidle | ⟨tid, n, u, hr, -⟩
    · exact .inl hidle
    · obtain rfl := Option.some.inj (ht.symm.trans hr.tcb)
      have hr' := hsame.row_update rfl hr
      rw [if_pos rfl] at hr'
      exact .inr ⟨tid, n, _, hr', rfl⟩

/-- The next thread: the one at the head of the rotated runnable pool, or the idle one. -/
lemma wp_getNextTcb {Q : Ptr → Sched → Prop} {E : Fault → Sched → Prop} (h : PoolInv D X s L)
    (hempty : L .runnablePool = [] → Q s.idleTcb s)
    (hnext : ∀ m l n tcb nodes pools, L .runnablePool = m :: l → (l ++ [m]).head? = some n →
      nodes.e = s.nodes.e → s.nodes.e n = some tcb →
      (s.withLists nodes pools).Lists (Function.update L .runnablePool (l ++ [m])) →
      Q tcb (s.withLists nodes pools)) :
    wp schedulerGetNextTcb Q E s := by
  have hsize := h.lists.size_eq .runnablePool
  rw [schedulerGetNextTcb, wp_bind, tcbPoolGetNextTcb, wp_bind]
  cases hL : L .runnablePool with
  | nil =>
      refine wp_rotate_empty (by rw [hsize, hL]; rfl) ?_
      exact hempty hL
  | cons m l =>
      refine wp_rotate h.lists hL fun nodes pools he hlists => ?_
      rw [if_neg (by decide)]
      obtain ⟨n, hn⟩ : ∃ n, (l ++ [m]).head? = some n := by
        cases l <;> simp
      have hmem : n ∈ L .runnablePool := by
        have hn' := List.mem_of_head? hn
        rw [hL]
        simp only [List.mem_append, List.mem_cons, List.not_mem_nil, or_false] at hn' ⊢
        exact hn'.symm
      obtain ⟨l', hl'⟩ := List.head?_eq_some_iff.mp hn
      obtain ⟨_, tcb, _, hr, -⟩ := h.row_of_mem hmem
      refine wp_peek (n := n) (l := l') hlists ?_ (he ▸ hr.elem) ?_
      · rw [Function.update_self, hl']
      · exact hnext m l n tcb nodes pools hL hn he hr.elem hlists

/-- A thread of `Z` is the one a rotation of the runnable pool brings to its head. -/
def Sched.NextUp (s : Sched) (Z : Set Ptr) (l : List Ptr) : Prop :=
  ∀ w ∈ Z, ∃ n, s.nodes.e n = some w ∧ (l = [n] ∨ ∃ a, l = [a, n])

lemma nextUp_of_subset (s : Sched) (hX : X ⊆ Y) (l : List Ptr) : s.NextUp (X \ Y) l :=
  fun _ hw => absurd (hX hw.1) hw.2

/-- **A context switch to the next thread keeps the invariant**: a thread that is excepted no
longer must be that thread. It returns if the current thread has a tcb. -/
theorem wp_contextSwitch_next {E : Fault → Sched → Prop} (h : PoolInv D X s L)
    (hx : s.NextUp (X \ Y) (L .runnablePool))
    (hcur : ∀ c, s.curTcb = some c → s.tcbs c = none → E .badPointer s) (oldEsp : ℕ) {target : ℤ}
    (htarget : target < 0) :
    wp (contextSwitch oldEsp target) (fun _ s' => s'.Pooled D Y) E s := by
  rw [contextSwitch, wp_bind]
  refine wp_defer h hcur oldEsp fun s₁ h₁ hs₁ => ?_
  rw [wp_bind, pickTcb, if_pos htarget]
  refine wp_getNextTcb h₁ (fun hempty => ?_) fun m l n tcb nodes pools hL hn he hr hlists => ?_
  · refine wp_setRunning h₁ (fun w hw hwY => ?_) (.inl rfl)
    obtain ⟨n, -, hl | ⟨a, hl⟩⟩ := hx w ⟨hw, hwY⟩
    · simp [hl] at hempty
    · simp [hl] at hempty
  · have hmem : ∀ k a, a ∈ Function.update L .runnablePool (l ++ [m]) k ↔ a ∈ L k := by
      intro k a
      by_cases hk : k = .runnablePool
      · subst hk
        rw [Function.update_self, hL, List.mem_append, List.mem_singleton, List.mem_cons, or_comm]
      · rw [Function.update_of_ne hk]
    have h₂ := h₁.reorder he hlists hmem (Function.update_of_ne (by decide) _ _)
    refine wp_setRunning h₂ (fun w hw hwY => ?_) (.inr ?_)
    · obtain ⟨n', hn', hl'⟩ := hx w ⟨hw, hwY⟩
      have hnn : n = n' := by
        rcases hl' with hl' | ⟨a, hl'⟩
        · rw [hL, List.cons.injEq] at hl'
          obtain ⟨rfl, rfl⟩ := hl'
          simpa using hn.symm
        · rw [hL, List.cons.injEq] at hl'
          obtain ⟨rfl, rfl⟩ := hl'
          simpa using hn.symm
      rw [← hs₁.elem, ← hnn, hr] at hn'
      exact (Option.some.inj hn').symm
    · have hmem' : n ∈ L .runnablePool := by
        rw [← hmem, Function.update_self]
        exact List.mem_of_head? hn
      obtain ⟨tid, c, t, hrow, hhome⟩ := h₁.row_of_mem hmem'
      obtain rfl := Option.some.inj (hr.symm.trans hrow.elem)
      exact ⟨tid, n, t, ⟨hrow.node, he ▸ hrow.elem, hrow.tcb⟩, hhome.symm⟩

/-- **A context switch keeps the invariant**, to the next thread or to a thread of the
runnable pool. -/
theorem wlp_contextSwitch (h : PoolInv D X s L) (hx : s.NextUp (X \ Y) (L .runnablePool))
    (oldEsp : ℕ) {target : ℤ} (ht : 0 ≤ target → X ⊆ Y ∧
      ∀ n c t, s.Row target n c t → poolOf t.status = .runnablePool) :
    wlp (contextSwitch oldEsp target) (fun _ s' => s'.Pooled D Y) s := by
  by_cases htarget : target < 0
  · exact wp_contextSwitch_next h hx (fun _ _ _ => trivial) oldEsp htarget
  rw [wlp, contextSwitch, wp_bind]
  refine wp_defer h (fun _ _ _ => trivial) oldEsp fun s₁ h₁ hs₁ => ?_
  obtain ⟨hX, hrow⟩ := ht (by omega)
  have hgone : ∀ w ∈ X, w ∉ Y → ∀ c, w = c := fun w hw hwY => absurd (hX hw) hwY
  rw [wp_bind, pickTcb, if_neg htarget, wp_bind, tcbPoolFindTcb, wp_bind]
  refine (wlp_tcbPoolFindNode target).mpr ⟨fun _ => ?_, fun n c hn hc => ?_⟩
  · exact wp_setRunning h₁ (fun w hw hwY => hgone w hw hwY _) (.inl rfl)
  · refine wp_setRunning h₁ (fun w hw hwY => hgone w hw hwY c) (.inr ?_)
    obtain ⟨c', t₁, hr₁, -, hmem⟩ := h₁.rows target n hn
    obtain rfl := Option.some.inj (hc.symm.trans hr₁.elem)
    obtain ⟨c', t, hr, -, hmem'⟩ := h.rows target n (hs₁.threads ▸ hn)
    have hpool := h₁.lists.apart n _ _ hmem hmem'
    rw [home_runnable (hrow n c' t hr)] at hpool
    exact ⟨target, n, t₁, hr₁, hpool⟩

end ShrekOS
