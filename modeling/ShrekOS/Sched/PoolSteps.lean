/-
What the scheduler's operations do to the thread pool.

* `PoolInv.moved`: **a thread goes from one pool to another** and its status with it; `Passes`,
  `Leaves`, `Signalled`, `Reaped`: what becomes of the nodes then;
* `Sched.MayWake`, `Sched.Quiet`: when `tcb_pool_make_runnable` unlinks from the right
  pool, and when a timer tick wakes up no thread, or one that runs at once;
* `thrMakeRunnable_pooled`, `thrDeschedule_pooled`, `thrSleep_pooled`, `thrVanish_pooled`,
  …: **each operation keeps the invariant**, and the threads in the diary stay asleep;
* `wakeupLoop_spec`: **`tcb_pool_wakeup` moves the threads that are due**, in order, and
  ends; `cTimerHandler_woken`: a timer tick.
-/
import ShrekOS.Sched.PoolInvariant

namespace ShrekOS

open Kit Kit.Cmd

variable {D : Diary} {s s' : Sched} {X X' Y : Set Ptr} {L : Pool → List Ptr} {tid : ℤ} {n c : Ptr}
  {t t' : Tcb} {j k : Pool} {l l₁ l₂ : List Ptr}

/-! ### Moving a thread -/

/-- A pool without one of its nodes. -/
lemma Sched.Lists.mem_taken (h : s.Lists L) (hL : L j = l₁ ++ n :: l₂) (m : Ptr) (i : Pool) :
    m ∈ Function.update L j (l₁ ++ l₂) i ↔ m ∈ L i ∧ m ≠ n := by
  by_cases hi : i = j
  · subst hi
    have hnd := (h.isLl i).links.nodup
    rw [hL, List.nodup_middle, List.nodup_cons] at hnd
    rw [Function.update_self, hL, List.mem_append, List.mem_append, List.mem_cons]
    constructor
    · rintro hm
      refine ⟨by tauto, ?_⟩
      rintro rfl
      exact hnd.1 (List.mem_append.mpr hm)
    · rintro ⟨hm, hne⟩
      tauto
  · rw [Function.update_of_ne hi]
    refine ⟨fun hm => ⟨hm, ?_⟩, And.left⟩
    rintro rfl
    exact hi (h.apart m i j hm (by simp [hL]))

/-- An excepted thread is `SLEEPING`. -/
lemma PoolInv.notMem (h : PoolInv D X s L) (ht : s.tcbs c = some t) (hst : t.status ≠ .sleeping) :
    c ∉ X := by
  intro hc
  obtain ⟨u, hu, hsleep⟩ := h.asleep c hc
  obtain rfl := Option.some.inj (ht.symm.trans hu)
  exact hst hsleep

/-- A thread that is not on the sleeping pool is not in the diary of the sleeping ones. -/
lemma PoolInv.unbooked (h : PoolInv D X s L) (hD : D.OfSleepers) (hr : s.Row tid n c t)
    (hn : n ∈ L k) (hk : k ≠ .sleepingPool) : ∀ i w, ¬ D.entries tid i w := by
  intro i w he
  obtain ⟨m, c', u, hr', hm, -⟩ := h.booked tid i w he
  obtain ⟨rfl, -, -⟩ := hr.unique hr'
  exact hk ((h.lists.apart _ k i hn hm).trans (hD tid i w he))

/-- The node has passed from one pool to another one, and to the end of the runnable one. -/
structure Passes (L L' : Pool → List Ptr) (n : Ptr) (j k : Pool) : Prop where
  mem_source : n ∈ L j
  mem : ∀ m i, m ∈ L' i ↔ m = n ∧ i = k ∨ m ∈ L i ∧ m ≠ n
  runnable : L' .runnablePool = (L .runnablePool).erase n ++ if k = .runnablePool then [n] else []

/-- The pools after a node has passed to another one. -/
lemma Sched.Lists.mem_passed (h : s.Lists L) (hL : L j = l₁ ++ n :: l₂)
    (hl : ∀ m, m ∈ l ↔ m = n ∨ m ∈ Function.update L j (l₁ ++ l₂) k) (m : Ptr) (i : Pool) :
    m ∈ Function.update (Function.update L j (l₁ ++ l₂)) k l i ↔
      m = n ∧ i = k ∨ m ∈ L i ∧ m ≠ n := by
  rw [← h.mem_taken hL m i]
  by_cases hi : i = k
  · subst hi
    rw [Function.update_self, hl]
    tauto
  · rw [Function.update_of_ne hi]
    tauto

/-- A pool without the node. -/
lemma Sched.Lists.erase_eq (h : s.Lists L) (hL : L j = l₁ ++ n :: l₂) (i : Pool) :
    Function.update L j (l₁ ++ l₂) i = (L i).erase n := by
  by_cases hi : i = j
  · subst hi
    have hnodup := (h.isLl i).links.nodup
    rw [hL, List.nodup_middle, List.nodup_cons, List.mem_append, not_or] at hnodup
    rw [Function.update_self, hL, List.erase_append_right _ hnodup.1.1, List.erase_cons_head]
  · have hnot : n ∉ L i := fun hn => hi (h.apart n i j hn (by simp [hL]))
    rw [Function.update_of_ne hi, List.erase_of_not_mem hnot]

/-- A node is linked into another pool. -/
lemma Sched.Lists.passes (h : s.Lists L) (hL : L j = l₁ ++ n :: l₂)
    (hl : ∀ m, m ∈ l ↔ m = n ∨ m ∈ Function.update L j (l₁ ++ l₂) k)
    (hend : k = .runnablePool → l = Function.update L j (l₁ ++ l₂) .runnablePool ++ [n]) :
    Passes L (Function.update (Function.update L j (l₁ ++ l₂)) k l) n j k := by
  refine ⟨by simp [hL], h.mem_passed hL hl, ?_⟩
  rw [← h.erase_eq hL]
  by_cases hk : k = .runnablePool
  · rw [if_pos hk, ← hend hk, hk, Function.update_self]
  · rw [if_neg hk, Function.update_of_ne (Ne.symm hk), List.append_nil]

/-- A node is linked at the end of another pool. -/
lemma Sched.Lists.passes_last (h : s.Lists L) (hL : L j = l₁ ++ n :: l₂) (k : Pool) :
    Passes L (Function.update (Function.update L j (l₁ ++ l₂)) k
      (Function.update L j (l₁ ++ l₂) k ++ [n])) n j k :=
  h.passes hL (fun m => by rw [List.mem_append, List.mem_singleton, or_comm]) fun hk => by rw [hk]

/-- **A thread goes from one pool to another**, and its status with it. -/
theorem PoolInv.moved (h : PoolInv D X s L) (hr : s.Row tid n c t) (hL : L j = l₁ ++ n :: l₂)
    (hl : ∀ m, m ∈ l ↔ m = n ∨ m ∈ Function.update L j (l₁ ++ l₂) k) (hs : SameTable s s')
    (htcbs : s'.tcbs = Function.update s.tcbs c (some t')) (htid : t'.tid = t.tid)
    (hlists : s'.Lists (Function.update (Function.update L j (l₁ ++ l₂)) k l))
    (hc : c ∉ X) (hhome : poolOf t'.status = k) (hfree : ∀ i w, ¬ D.entries tid i w)
    (hsorted : k = .sleepingPool → l.Pairwise fun a b => s'.wakeAt a ≤ s'.wakeAt b)
    (hahead : k = .sleepingPool → D.bound < s'.wakeAt n) :
    PoolInv D X s' (Function.update (Function.update L j (l₁ ++ l₂)) k l) := by
  have hmem := h.lists.mem_passed hL hl
  -- the other threads on the pools keep their wakeup times
  have hwake : ∀ a i, a ∈ L i → a ≠ n → s'.wakeAt a = s.wakeAt a := by
    intro a i ha hne
    refine hs.wakeAt htcbs fun he => hne ?_
    obtain ⟨tid', c', u, hr', -⟩ := h.row_of_mem ha
    obtain rfl := Option.some.inj (he.symm.trans hr'.elem)
    exact (h.eq_of_tcb hr' hr).2.1
  refine h.update hs htcbs hr.tcb htid hlists ?_ ?_ (fun hin => absurd hin hc) (fun _ _ hin => hin)
    ?_ ?_ ?_
  · intro tid' n' tcb u hr'
    rw [hmem]
    by_cases htcb : tcb = c
    · subst htcb
      obtain ⟨-, rfl, rfl⟩ := h.eq_of_tcb hr hr'
      exact .inl ⟨rfl, by rw [if_pos rfl, home_of_notMem hc, hhome]⟩
    · have hn' : n' ≠ n := by
        rintro rfl
        exact htcb (h.eq_of_node hr' hr).2.1
      rw [if_neg htcb]
      exact .inr ⟨(h.row hr').2, hn'⟩
  · intro i m hm
    rcases (hmem m i).mp hm with ⟨rfl, -⟩ | ⟨hm, -⟩
    · exact ⟨j, by simp [hL]⟩
    · exact ⟨i, hm⟩
  · by_cases hk : k = .sleepingPool
    · rw [hk, Function.update_self]
      exact hsorted hk
    · rw [Function.update_of_ne (Ne.symm hk)]
      refine h.sorted_of ?_ fun a ha => ?_
      · by_cases hj : j = .sleepingPool
        · rw [hj, Function.update_self, ← hj, hL]
          exact (List.sublist_cons_self n l₂).append_left l₁
        · rw [Function.update_of_ne (Ne.symm hj)]
      · obtain ⟨hin, hne⟩ := (h.lists.mem_taken hL a _).mp ha
        exact hwake a _ hin hne
  · intro a ha
    rcases (hmem a _).mp ha with ⟨rfl, hk⟩ | ⟨hin, hne⟩
    · exact hahead hk.symm
    · rw [hwake a _ hin hne]
      exact h.ahead a hin
  · intro tid' i w n' tcb u he hr' hn'
    have hne : tid' ≠ tid := by
      rintro rfl
      exact hfree i w he
    refine ⟨(hmem n' i).mpr (.inr ⟨hn', ?_⟩), fun htcb => ?_⟩
    · rintro rfl
      exact hne (h.eq_of_node hr' hr).1
    · subst htcb
      exact absurd (h.eq_of_tcb hr' hr).1 hne

/-- A node that was taken off its pool is on none. -/
lemma Sched.Lists.not_mem_taken (h : s.Lists L) (hL : L j = l₁ ++ n :: l₂) (i : Pool) :
    n ∉ Function.update L j (l₁ ++ l₂) i := fun hm => ((h.mem_taken hL n i).mp hm).2 rfl

/-! ### `make_runnable` -/

/-- The status of the thread with the given tid. -/
def Sched.statusOf (s : Sched) (tid : ℤ) : Option Status :=
  ((htGet s.threads tid).bind s.nodes.e).bind fun tcb => (s.tcbs tcb).map Tcb.status

lemma Sched.Row.statusOf (h : s.Row tid n c t) : s.statusOf tid = some t.status := by
  simp [Sched.statusOf, h.node, h.elem, h.tcb]

/-- A running thread or a zombie is not unlinked from the sleeping pool. -/
def Sched.MayWake (s : Sched) (tid : ℤ) : Prop :=
  s.statusOf tid = some .running ∨ s.statusOf tid = some .zombie →
    (s.pools .sleepingPool).size = 0

instance (s : Sched) (tid : ℤ) : Decidable (s.MayWake tid) := by
  unfold Sched.MayWake
  infer_instance

/-- `tcb_pool_make_runnable` refuses, or moves a waiting or sleeping thread to the runnable
pool. -/
lemma wlp_tcbPoolMakeRunnable {Q : ℤ → Sched → Prop} (h : PoolInv D X s L)
    (hmay : s.MayWake tid) (hX : s.statusOf tid = some .sleeping → X = ∅)
    (hsame : ∀ r < 0, s.statusOf tid ≠ some .sleeping → Q r s)
    (hmoved : ∀ n c t l₁ l₂ nodes pools, s.Row tid n c t → c ∉ X →
      t.status = .waiting ∨ t.status = .sleeping → L (poolOf t.status) = l₁ ++ n :: l₂ →
      nodes.e = s.nodes.e →
      (s.withLists nodes pools).Lists
        (Function.update (Function.update L (poolOf t.status) (l₁ ++ l₂)) .runnablePool
          (Function.update L (poolOf t.status) (l₁ ++ l₂) .runnablePool ++ [n])) →
      Q 0 (s.withLists nodes pools)) :
    wlp (tcbPoolMakeRunnable tid) Q s := by
  rw [wlp, tcbPoolMakeRunnable, wp_bind]
  refine (wlp_tcbPoolFindNode tid).mpr ⟨fun hnone => hsame _ (by decide) ?_, fun n c hn hc => ?_⟩
  · simp [Sched.statusOf, hnone]
  dsimp only
  rw [wp_bind]
  refine (wlp_readTcb c).mpr fun t ht => ?_
  have hr : s.Row tid n c t := ⟨hn, hc, ht⟩
  by_cases hrunnable : t.status = .runnable
  · rw [if_pos hrunnable]
    exact hsame _ (by decide) (by simp [hr.statusOf, hrunnable])
  rw [if_neg hrunnable, wp_bind]
  by_cases hleft : t.status = .waiting ∨ t.status = .sleeping
  · have hpool : (if t.status = .waiting then Pool.waitingPool else .sleepingPool) =
        poolOf t.status := by
      rcases hleft with hst | hst <;> simp [hst, poolOf]
    have hout : c ∉ X := by
      rcases hleft with hst | hst
      · exact h.notMem ht (by simp [hst])
      · rw [hX (by rw [hr.statusOf, hst])]
        exact Set.notMem_empty c
    have hmem := (h.row hr).2
    rw [home_of_notMem hout] at hmem
    obtain ⟨l₁, l₂, hL⟩ := List.append_of_mem hmem
    rw [hpool]
    refine wp_unlink h.lists hL fun nodes pools he hd h₁ => ?_
    rw [if_neg (by decide), wp_bind]
    refine wp_linkLast h₁ (h.lists.not_mem_taken hL) hd fun nodes' pools' he' h₂ => ?_
    exact hmoved n c t l₁ l₂ nodes' pools' hr hout hleft hL (he'.trans he) h₂
  · -- the node is on another pool, and the size of the sleeping pool keeps it there
    have hst : t.status = .running ∨ t.status = .zombie := by
      cases hst : t.status <;> simp [hst] at hrunnable hleft ⊢
    have hsize := hmay (by rw [hr.statusOf]; simpa using hst)
    rw [if_neg fun hw => hleft (.inl hw)]
    refine wp_onEmpty hsize ?_
    rw [if_pos (by decide)]
    refine hsame _ (by decide) ?_
    rcases hst with hst | hst <;> simp [hr.statusOf, hst]

/-- The thread with the given tid has been woken up, and nothing else has changed. -/
structure Woken (s s' : Sched) (tid : ℤ) (n c : Ptr) (t : Tcb) : Prop where
  row : s.Row tid n c t
  status : t.status = .waiting ∨ t.status = .sleeping
  table : SameTable s s'
  tcbs : s'.tcbs = Function.update s.tcbs c (some { t with status := .runnable })
  curTcb : s'.curTcb = s.curTcb
  sleeping : (s'.pools .sleepingPool).size =
    if t.status = .sleeping then (s.pools .sleepingPool).size - 1
    else (s.pools .sleepingPool).size

/-- **`make_runnable` wakes up a waiting or sleeping thread**, or changes nothing. -/
theorem wlp_makeRunnable {Q : ℤ → Sched → Prop} (h : PoolInv D X s L) (hD : D.OfSleepers)
    (hmay : s.MayWake tid) (hsleep : s.statusOf tid = some .sleeping → X = ∅ ∧ D.Blank)
    (hsame : ∀ r, s.statusOf tid ≠ some .sleeping → Q r s)
    (hwoken : ∀ s' L' n c t, PoolInv D X s' L' → Woken s s' tid n c t →
      Passes L L' n (poolOf t.status) .runnablePool → Q 0 s') :
    wlp (schedulerMakeRunnable tid) Q s := by
  rw [wlp, schedulerMakeRunnable, wp_bind]
  refine wlp_tcbPoolMakeRunnable h hmay (fun hst => (hsleep hst).1) (fun r hr hst => ?_) ?_
  · rw [if_pos hr]
    exact hsame _ hst
  intro n c t l₁ l₂ nodes pools hr hout hst hL he hlists
  have hj : poolOf t.status ≠ .runnablePool := by
    rcases hst with hst | hst <;> rw [hst] <;> decide
  have hfree : ∀ i w, ¬ D.entries tid i w := by
    rcases hst with hst | hst
    · refine h.unbooked hD hr (k := .waitingPool) ?_ (by decide)
      have hmem : n ∈ L (poolOf t.status) := by simp [hL]
      rwa [hst] at hmem
    · exact (hsleep (by rw [hr.statusOf, hst])).2 tid
  rw [if_neg (by decide), wp_bind, tcbPoolFindTcb, wp_bind]
  refine (wlp_tcbPoolFindNode tid).mpr ⟨fun hnone => ?_, fun n' c' hn' hc' => ?_⟩
  · exact absurd (hr.node.symm.trans hnone) (Option.some_ne_none _)
  obtain rfl := Option.some.inj (hr.node.symm.trans hn')
  obtain rfl := Option.some.inj (hr.elem.symm.trans (he ▸ hc'))
  refine (wp_bind ..).mpr ((wlp_setStatus c _).mpr fun u hu => ?_)
  obtain rfl := Option.some.inj (hr.tcb.symm.trans hu)
  refine hwoken _ _ n c t (h.moved hr hL (fun m => ?_) ⟨rfl, he, rfl, rfl, rfl⟩ rfl rfl
    ⟨hlists.isLl, hlists.apart⟩ hout rfl hfree (by rintro ⟨⟩) (by rintro ⟨⟩))
    ⟨hr, hst, ⟨rfl, he, rfl, rfl, rfl⟩, rfl, rfl, ?_⟩ (h.lists.passes_last hL _)
  · rw [List.mem_append, List.mem_singleton, or_comm]
  · have hsize := hlists.size_eq .sleepingPool
    rw [Function.update_of_ne (by decide)] at hsize
    change (pools .sleepingPool).size = _ at hsize
    change (pools .sleepingPool).size = _
    rw [hsize, h.lists.size_eq]
    rcases hst with hst | hst <;> rw [hst] at hL ⊢
    · rw [if_neg (by decide), Function.update_of_ne (by decide)]
    · rw [if_pos rfl, show poolOf .sleeping = .sleepingPool from rfl, Function.update_self]
      rw [show poolOf .sleeping = .sleepingPool from rfl] at hL
      rw [hL, List.length_append, List.length_append, List.length_cons]
      omega

namespace Woken

/-- The other threads are as before. -/
lemma row_of_ne (h : Woken s s' tid n c t) {tid' : ℤ} {n' c' : Ptr} {u : Tcb}
    (hr : s.Row tid' n' c' u) (hne : c' ≠ c) : s'.Row tid' n' c' u := by
  have hr' := h.table.row_update h.tcbs hr
  rwa [if_neg hne] at hr'

/-- The current thread goes on running. -/
lemma runs (h : Woken s s' tid n c t) (hruns : s.Runs) : s'.Runs := by
  intro c' hc'
  rw [h.curTcb] at hc'
  rcases hruns c' hc' with hidle | ⟨tid', n', u, hr, hst⟩
  · exact .inl (hidle.trans h.table.idleTcb.symm)
  · refine .inr ⟨tid', n', u, h.row_of_ne hr ?_, hst⟩
    rintro rfl
    obtain rfl := Option.some.inj (h.row.tcb.symm.trans hr.tcb)
    rcases h.status with hs | hs <;> rw [hst] at hs <;> cases hs

end Woken

/-- **`thr_make_runnable` keeps the invariant.** A sleeping thread can be woken up only where
no thread is excepted or in the diary. -/
theorem thrMakeRunnable_pooled (h : s.Pooled D Y) (hD : D.OfSleepers) (hmay : s.MayWake tid)
    (hsleep : s.statusOf tid = some .sleeping → Y = ∅ ∧ D.Blank) :
    wlp (thrMakeRunnable tid) (fun _ s' => s'.Pooled D Y) s := by
  obtain ⟨⟨X, hX, L, hL⟩, hruns⟩ := h
  rw [wlp, thrMakeRunnable, wp_bind]
  refine wlp_makeRunnable hL hD hmay (fun hst => ?_) (fun r _ => ?_) fun s' L' n c t hL' hw _ => ?_
  · exact ⟨Set.subset_eq_empty hX (hsleep hst).1, (hsleep hst).2⟩
  · split_ifs <;> exact ⟨⟨X, hX, L, hL⟩, hruns⟩
  · exact ⟨⟨X, hX, L', hL'⟩, hw.runs hruns⟩

/-! ### The operations that give up the processor -/

/-- The current thread: the idle one, or one of the table that runs. -/
lemma Sched.Runs.cases (h : s.Runs) (hL : PoolInv D X s L) {cur : Ptr} (hcur : s.curTcb = some cur)
    (ht : s.tcbs cur = some t) :
    htGet s.threads t.tid = none ∨
      ∃ n, s.Row t.tid n cur t ∧ t.status = .running ∧ n ∈ L .runnablePool := by
  rcases h cur hcur with rfl | ⟨tid, n, u, hr, hst⟩
  · obtain ⟨u, hu, hzero⟩ := hL.idleTid
    obtain rfl := Option.some.inj (hu.symm.trans ht)
    exact .inl (hzero ▸ hL.idle)
  · obtain rfl := Option.some.inj (ht.symm.trans hr.tcb)
    obtain ⟨htid, hmem⟩ := hL.row hr
    rw [home_runnable (by rw [hst]; rfl)] at hmem
    exact .inr ⟨n, htid ▸ hr, hst, hmem⟩

/-- A yield to the next thread returns if the current thread has a tcb. -/
lemma wp_thrYield_next {E : Fault → Sched → Prop} (h : PoolInv D X s L) (hX : X ⊆ Y)
    (hcur : ∀ c, s.curTcb = some c → s.tcbs c = none → E .badPointer s) (oldEsp : ℕ) :
    wp (thrYield oldEsp (-1)) (fun r s' => r = 0 ∧ s'.Pooled D Y) E s := by
  rw [thrYield, if_neg (by decide), wp_bind]
  refine wp_imp (wp_contextSwitch_next h (nextUp_of_subset s hX _) hcur oldEsp (by decide)) ?_
  exact fun _ s' hs' => ⟨rfl, hs'⟩

/-- A yield to the next thread. -/
lemma thrYield_next (h : PoolInv D X s L) (hX : X ⊆ Y) (oldEsp : ℕ) :
    wlp (thrYield oldEsp (-1)) (fun _ s' => s'.Pooled D Y) s :=
  wp_imp (wp_thrYield_next h hX (fun _ _ _ => trivial) oldEsp) fun _ _ => And.right

/-- **`thr_yield` keeps the invariant.** -/
theorem thrYield_pooled (h : s.Pooled D Y) (oldEsp : ℕ) (tid : ℤ) :
    wlp (thrYield oldEsp tid) (fun _ s' => s'.Pooled D Y) s := by
  obtain ⟨⟨X, hX, L, hL⟩, hruns⟩ := h
  rw [wlp, thrYield]
  by_cases htid : 0 ≤ tid
  · rw [if_pos htid, wp_bind, schedulerCheckIsRunnable, wp_bind, tcbPoolFindTcb, wp_bind]
    refine (wlp_tcbPoolFindNode tid).mpr ⟨fun _ => ⟨⟨X, hX, L, hL⟩, hruns⟩, fun n c hn hc => ?_⟩
    refine (wp_bind ..).mpr ((wlp_readTcb c).mpr fun t ht => ?_)
    have hr : s.Row tid n c t := ⟨hn, hc, ht⟩
    rw [wp_pure]
    by_cases hst : t.status = .runnable
    · rw [if_pos hst, if_neg (by decide), if_neg (by decide), wp_bind]
      refine wlp_contextSwitch hL (nextUp_of_subset s hX _) oldEsp
        fun _ => ⟨hX, fun n' c' u hr' => ?_⟩
      obtain ⟨-, -, rfl⟩ := hr.unique hr'
      rw [hst]
      rfl
    · rw [if_neg hst, if_neg (by decide), if_pos rfl]
      exact ⟨⟨X, hX, L, hL⟩, hruns⟩
  · rw [if_neg htid, wp_bind]
    exact wlp_contextSwitch hL (nextUp_of_subset s hX _) oldEsp fun hc => absurd hc htid

/-- The running thread has left the runnable pool for another one. -/
structure Leaves (s s' : Sched) (L L' : Pool → List Ptr) (n c : Ptr) (t : Tcb) (k : Pool) :
    Prop where
  row : s.Row t.tid n c t
  current : s.curTcb = some c
  table : SameTable s s'
  passes : Passes L L' n .runnablePool k

/-- The current thread goes to the waiting pool, unless it is the idle thread. -/
lemma wlp_descheduleCurrent {Q : ℤ → Sched → Prop} (hL : PoolInv D X s L) (hD : D.OfSleepers)
    (hruns : s.Runs) (hsame : ∀ r < 0, Q r s)
    (hwait : ∀ s' L' n c t, PoolInv D X s' L' → Leaves s s' L L' n c t .waitingPool → Q 0 s') :
    wlp schedulerDescheduleCurrent Q s := by
  rw [wlp, schedulerDescheduleCurrent, wp_bind]
  refine wlp_currentTcb.mpr fun cur hcur => ?_
  refine (wp_bind ..).mpr ((wlp_readTcb cur).mpr fun t ht => ?_)
  rw [wp_bind, tcbPoolMakeWaiting, wp_bind]
  refine (wlp_tcbPoolFindNode t.tid).mpr ⟨fun _ => hsame _ (by decide), fun n c hn hc => ?_⟩
  rcases hruns.cases hL hcur ht with hnone | ⟨n', hr, hst, hmem⟩
  · exact absurd (hn.symm.trans hnone) (Option.some_ne_none _)
  obtain rfl := Option.some.inj (hn.symm.trans hr.node)
  obtain rfl := Option.some.inj (hc.symm.trans hr.elem)
  dsimp only
  refine (wp_bind ..).mpr ((wlp_readTcb c).mpr fun u hu => ?_)
  obtain rfl := Option.some.inj (ht.symm.trans hu)
  obtain ⟨l₁, l₂, hl⟩ := List.append_of_mem hmem
  rw [if_neg (by rw [hst]; decide), wp_bind]
  refine wp_unlink hL.lists hl fun nodes pools he hd h₁ => ?_
  rw [if_neg (by decide), wp_bind]
  refine wp_linkLast h₁ (hL.lists.not_mem_taken hl) hd fun nodes' pools' he' h₂ => ?_
  rw [if_neg (by decide), wp_pure, if_neg (by decide), wp_bind]
  refine (wlp_setStatus c _).mpr fun u hu => ?_
  obtain rfl := Option.some.inj (ht.symm.trans hu)
  refine hwait _ _ n c t (hL.moved hr hl (fun m => ?_) ⟨rfl, he'.trans he, rfl, rfl, rfl⟩ rfl rfl
    ⟨h₂.isLl, h₂.apart⟩ (hL.notMem ht (by simp [hst])) rfl (hL.unbooked hD hr hmem (by decide))
    (by rintro ⟨⟩) (by rintro ⟨⟩))
      ⟨hr, hcur, ⟨rfl, he'.trans he, rfl, rfl, rfl⟩, hL.lists.passes_last hl _⟩
  rw [List.mem_append, List.mem_singleton, or_comm]

/-- **`thr_deschedule` keeps the invariant.** -/
theorem thrDeschedule_pooled (h : s.Pooled D Y) (hD : D.OfSleepers) (oldEsp : ℕ) (mapped : Bool)
    (reject : ℤ) : wlp (thrDeschedule oldEsp mapped reject) (fun _ s' => s'.Pooled D Y) s := by
  have hgood := h
  obtain ⟨⟨X, hX, L, hL⟩, hruns⟩ := h
  rw [wlp, thrDeschedule, wp_bind]
  refine wlp_currentTcb.mpr fun cur hcur => ?_
  refine (wp_bind ..).mpr ((wlp_readTcb cur).mpr fun t ht => ?_)
  by_cases hmapped : mapped = false
  · rw [if_pos hmapped]
    exact hgood
  by_cases hreject : reject ≠ 0
  · rw [if_neg hmapped, if_pos hreject]
    exact hgood
  rw [if_neg hmapped, if_neg hreject, wp_bind]
  refine wlp_descheduleCurrent hL hD hruns (fun r hr => ?_) fun s' L' _ _ _ hL' _ => ?_
  · rw [if_pos hr]
    exact hgood
  · rw [if_neg (by decide)]
    exact thrYield_next hL' hX oldEsp

/-- Comparing tcbs is comparing the wakeup times of their nodes. -/
lemma compares_wakeAt {nodes : Nodes} (he : nodes.e = s.nodes.e)
    (hl : ∀ a ∈ l, ∃ tid c t, s.Row tid a c t) :
    Compares nodes (tcbTWakeupCmp s.tcbs) s.wakeAt l := by
  intro a ha b hb
  obtain ⟨_, ca, ta, hra⟩ := hl a ha
  obtain ⟨_, cb, tb, hrb⟩ := hl b hb
  refine ⟨ca, cb, if ta.tWakeup < tb.tWakeup then -1 else if tb.tWakeup < ta.tWakeup then 1 else 0,
    he ▸ hra.elem, he ▸ hrb.elem, ?_, ?_⟩
  · simp [tcbTWakeupCmp, hra.tcb, hrb.tcb]
  · rw [hra.wakeAt, hrb.wakeAt]
    split_ifs <;> omega

/-- The tcb of a thread that sleeps until the given time. -/
def Tcb.asleep (t : Tcb) (w : ℕ) : Tcb := { t with status := .sleeping, tWakeup := w }

/-- The tcb of the current thread is written, and no pool yet. -/
def Sched.putAsleep (s : Sched) (c : Ptr) (t : Tcb) (w : ℕ) : Sched :=
  { s with tcbs := Function.update s.tcbs c (some (t.asleep w)) }

/-- A thread whose status is `SLEEPING` is refused. -/
lemma wp_makeCurrentSleeping_asleep {Q : ℤ → Sched → Prop} {E : Fault → Sched → Prop} {ticks : ℤ}
    (hpos : 0 < ticks) (hcur : s.curTcb = some c) (ht : s.tcbs c = some t)
    (hst : t.status = .sleeping) (hq : Q (-4) s) :
    wp (schedulerMakeCurrentSleeping ticks) Q E s := by
  rw [schedulerMakeCurrentSleeping, if_neg (by omega), if_neg (by omega), wp_bind]
  refine (wp_currentTcb hcur).mpr ((wp_bind ..).mpr ((wp_readTcb ht).mpr ?_))
  rw [if_pos hst]
  exact hq

/-- A thread that is awake goes to sleep, if the time it is to be woken up fits. -/
lemma wp_makeCurrentSleeping_awake {Q : ℤ → Sched → Prop} {E : Fault → Sched → Prop} {ticks : ℤ}
    (hpos : 0 < ticks) (hcur : s.curTcb = some c) (ht : s.tcbs c = some t)
    (hst : t.status ≠ .sleeping)
    (hfit : s.numTicks + ticks.toNat < 2 ^ 31 → wp (tcbPoolMakeSleeping t.tid)
      (fun r s' => Q (if r < 0 then -2 else 0) s') E (s.putAsleep c t (s.numTicks + ticks.toNat)))
    (hover : 2 ^ 31 ≤ s.numTicks + ticks.toNat → ∀ s', E .overflow s') :
    wp (schedulerMakeCurrentSleeping ticks) Q E s := by
  rw [schedulerMakeCurrentSleeping, if_neg (by omega), if_neg (by omega), wp_bind]
  refine (wp_currentTcb hcur).mpr ?_
  rw [wp_bind]
  refine (wp_readTcb ht).mpr ?_
  rw [if_neg hst, wp_bind]
  refine (wp_setStatus ht _).mpr ?_
  rw [wp_bind, wp_gets, wp_bind, wp_require]
  refine ⟨fun h => ?_, fun h => hover (Nat.le_of_not_lt h) _⟩
  rw [wp_bind]
  refine (wp_writeTcb (Function.update_self ..) _).mpr ?_
  simp only [Function.update_idem]
  rw [wp_bind]
  refine wp_imp (hfit h) fun r s' hr => ?_
  split_ifs at hr ⊢ <;> exact hr

/-- **A running thread goes to the sleeping pool.** -/
theorem wp_makeSleeping_running {Q : ℤ → Sched → Prop} {E : Fault → Sched → Prop} {w : ℕ}
    (hL : PoolInv D X s L) (hD : D.OfSleepers) (hr : s.Row tid n c t) (hst : t.status = .running)
    (hlate : D.bound < w)
    (hsleep : ∀ s' L', PoolInv D X s' L' → s'.Row tid n c (t.asleep w) → SameTable s s' →
      Passes L L' n .runnablePool .sleepingPool → s'.curTcb = s.curTcb → Q 0 s') :
    wp (tcbPoolMakeSleeping tid) Q E (s.putAsleep c t w) := by
  have hmem : n ∈ L .runnablePool := by
    have hn := (hL.row hr).2
    rwa [home_runnable (by rw [hst]; rfl)] at hn
  obtain ⟨l₁, l₂, hl⟩ := List.append_of_mem hmem
  -- the node is that of a runnable thread, outside the sleeping pool
  have hs : SameTable s (s.putAsleep c t w) := ⟨rfl, rfl, rfl, rfl, rfl⟩
  have hout : c ∉ X := hL.notMem hr.tcb (by simp [hst])
  have hr₁ : (s.putAsleep c t w).Row tid n c (t.asleep w) := by
    have hrow := hs.row_update rfl hr
    rwa [if_pos rfl] at hrow
  have hnotin : n ∉ L .sleepingPool := fun hin => by
    have := hL.lists.apart n _ _ hmem hin
    cases this
  -- every node that the insertion compares is the row of a thread with a tcb
  have hrows : ∀ a ∈ n :: L .sleepingPool, ∃ tid c' u, (s.putAsleep c t w).Row tid a c' u := by
    intro a ha
    rcases List.mem_cons.mp ha with rfl | ha
    · exact ⟨_, _, _, hr₁⟩
    · obtain ⟨_, _, _, hra, -⟩ := hL.row_of_mem ha
      exact ⟨_, _, _, hs.row_update rfl hra⟩
  have hnull : ∀ u, (s.putAsleep c t w).tcbs 0 ≠ some u := by
    intro u hu
    change Function.update s.tcbs c (some (t.asleep w)) 0 = some u at hu
    rw [Function.update_of_ne (hL.tcb_ne_zero hr).symm, hL.null] at hu
    cases hu
  -- the sleeping threads keep the ticks they are sorted by
  have hsorted : (L .sleepingPool).Pairwise fun a b =>
      (s.putAsleep c t w).wakeAt a ≤ (s.putAsleep c t w).wakeAt b :=
      hL.sorted_of (List.Sublist.refl _) fun a ha => by
    refine hs.wakeAt rfl fun he => hnotin ?_
    obtain ⟨_, _, _, hra, -⟩ := hL.row_of_mem ha
    obtain rfl := Option.some.inj (he.symm.trans hra.elem)
    exact (hL.eq_of_tcb hra hr).2.1 ▸ ha
  rw [tcbPoolMakeSleeping, wp_bind]
  refine (wp_tcbPoolFindNode hr₁.node hr₁.elem).mpr ?_
  dsimp only
  rw [wp_bind]
  -- the node leaves the runnable pool, and goes into the sleeping pool at its tick
  refine wp_unlink (L := L) (s := s.putAsleep c t w) ⟨hL.lists.isLl, hL.lists.apart⟩ hl
    fun nodes pools he hd h₁ => ?_
  rw [if_neg (by decide), wp_bind, wp_gets, wp_bind]
  have hkeep : Function.update L .runnablePool (l₁ ++ l₂) .sleepingPool = L .sleepingPool :=
    Function.update_of_ne (by decide) _ _
  refine @wp_linkSorted _ _ _ _ _ _ _ (s.putAsleep c t w).wakeAt h₁ (hL.lists.not_mem_taken hl) hd
    ?_ ?_ ?_ fun nodes' pools' k₁ k₂ he' hk hpair h₂ => ?_
  · rw [hkeep]
    intro a ha h0
    obtain ⟨_, c', u, hra⟩ := hrows a ha
    obtain rfl := Option.some.inj (hra.elem.symm.trans ((congrFun he a).symm.trans h0))
    exact absurd hra.tcb (hnull u)
  · rw [hkeep]
    exact compares_wakeAt he hrows
  · rwa [hkeep]
  · rw [if_neg (by decide), wp_pure]
    have hwake : ∀ a,
        Sched.wakeAt (((s.putAsleep c t w).withLists nodes pools).withLists nodes' pools') a =
          (s.putAsleep c t w).wakeAt a := fun a => wakeAt_withLists pools' (he'.trans he) a
    -- so that the lists are those of before with `n` moved
    have hlinked : ∀ m, m ∈ k₁ ++ n :: k₂ ↔
        m = n ∨ m ∈ Function.update L .runnablePool (l₁ ++ l₂) .sleepingPool := by
      intro m
      rw [hk]
      simp only [List.mem_append, List.mem_cons]
      tauto
    refine hsleep _ _ (hL.moved hr hl hlinked ⟨rfl, he'.trans he, rfl, rfl, rfl⟩ rfl rfl
      ⟨h₂.isLl, h₂.apart⟩ hout rfl (hL.unbooked hD hr hmem (by decide)) (fun _ => ?_) fun _ => ?_)
      ((hr₁.withLists pools he).withLists pools' he') ⟨rfl, he'.trans he, rfl, rfl, rfl⟩
      (hL.lists.passes hl hlinked (by rintro ⟨⟩)) rfl
    · refine hpair.imp_of_mem fun {a b} _ _ hab => ?_
      rw [hwake, hwake]
      exact hab
    · rw [hwake, hr₁.wakeAt]
      exact hlate

/-- The current thread goes to the sleeping pool, unless it is the idle thread. -/
lemma wlp_makeCurrentSleeping {Q : ℤ → Sched → Prop} (hL : PoolInv D X s L) (hD : D.OfSleepers)
    (hruns : s.Runs) (ticks : ℤ)
    (hsame : ∀ r s', PoolInv D X s' L → s'.Runs → SameTable s s' → s'.curTcb = s.curTcb → Q r s')
    (hsleep : ∀ s' L' n c t, PoolInv D X s' L' → Leaves s s' L L' n c t .sleepingPool → Q 0 s') :
    wlp (schedulerMakeCurrentSleeping ticks) Q s := by
  have hstays : ∀ r, Q r s := fun r => hsame r s hL hruns ⟨rfl, rfl, rfl, rfl, rfl⟩ rfl
  by_cases hpos : ticks ≤ 0
  · rw [wlp, schedulerMakeCurrentSleeping]
    by_cases hneg : ticks < 0
    · rw [if_pos hneg]
      exact hstays _
    · rw [if_neg hneg, if_pos (by omega)]
      exact hstays _
  rw [not_le] at hpos
  by_cases hcur : ∃ c t, s.curTcb = some c ∧ s.tcbs c = some t
  · obtain ⟨c, t, hcur, ht⟩ := hcur
    by_cases hst : t.status = .sleeping
    · exact wp_makeCurrentSleeping_asleep hpos hcur ht hst (hstays _)
    refine wp_makeCurrentSleeping_awake hpos hcur ht hst (fun _ => ?_) fun _ _ => trivial
    rcases hruns.cases hL hcur ht with hnone | ⟨n, hr, hrunning, -⟩
    · -- the idle thread is on no pool, whatever its status says
      rw [tcbPoolMakeSleeping, wp_bind]
      refine (wp_tcbPoolFindNode_none (s := s.putAsleep c t _) hnone).mpr ?_
      have hrow : ∀ tid n, ¬ s.Row tid n c t := by
        intro tid n hr
        have hnode := hr.node
        rw [← (hL.row hr).1] at hnode
        exact absurd (hnode.symm.trans hnone) (Option.some_ne_none _)
      refine hsame _ _ (hL.retouch ⟨rfl, rfl, rfl, rfl, rfl⟩ rfl ht rfl
        ⟨hL.lists.isLl, hL.lists.apart⟩ (fun _ _ => Iff.rfl) rfl
        (fun tid n hr => absurd hr (hrow tid n)) (fun hin => absurd hin (hL.notMem ht hst))
        fun _ _ => Iff.rfl) ?_ ⟨rfl, rfl, rfl, rfl, rfl⟩ rfl
      intro c' hc'
      rcases hruns c' hc' with hidle | ⟨tid, n, u, hr, -⟩
      · exact .inl hidle
      · obtain rfl := Option.some.inj (hcur.symm.trans hc')
        obtain rfl := Option.some.inj (ht.symm.trans hr.tcb)
        exact absurd hr (hrow tid n)
    · refine wp_makeSleeping_running hL hD hr hrunning ?_ fun s' L' hL' _ htable hpasses _ => ?_
      · have hclock := hL.clock
        have hbound := hL.bound_le
        omega
      · rw [if_neg (by decide)]
        exact hsleep s' L' n c t hL' ⟨hr, hcur, htable, hpasses⟩
  · -- without a current thread the run ends
    rw [wlp, schedulerMakeCurrentSleeping, if_neg (by omega), if_neg (by omega), wp_bind]
    refine wlp_currentTcb.mpr fun c hc => (wp_bind ..).mpr ((wlp_readTcb c).mpr fun t ht => ?_)
    exact absurd ⟨c, t, hc, ht⟩ hcur

/-- **`thr_sleep` keeps the invariant.** -/
theorem thrSleep_pooled (h : s.Pooled D Y) (hD : D.OfSleepers) (oldEsp : ℕ) (ticks : ℤ) :
    wlp (thrSleep oldEsp ticks) (fun _ s' => s'.Pooled D Y) s := by
  obtain ⟨⟨X, hX, L, hL⟩, hruns⟩ := h
  rw [wlp, thrSleep, wp_bind]
  refine wlp_makeCurrentSleeping hL hD hruns ticks (fun r s' hL' hruns' _ _ => ?_)
    fun s' L' _ _ _ hL' _ => ?_
  · split_ifs
    · exact ⟨⟨X, hX, L, hL'⟩, hruns'⟩
    · exact thrYield_next hL' hX oldEsp
  · rw [if_neg (by decide)]
    exact thrYield_next hL' hX oldEsp

/-! ### `vanish` -/

/-- A thread that is not runnable after a wakeup had its status before. -/
lemma Woken.statusOf (h : Woken s s' tid n c t) {tid' : ℤ} {st : Status}
    (hst : s'.statusOf tid' = some st) (hne : st ≠ .runnable) : s.statusOf tid' = some st := by
  rw [Sched.statusOf, h.table.threads, h.table.elem, h.tcbs] at hst
  rw [Sched.statusOf]
  cases htcb : (htGet s.threads tid').bind s.nodes.e with
  | none => simp [htcb] at hst
  | some tcb =>
      rw [htcb, Option.bind_some, Function.update_apply] at hst
      split_ifs at hst with heq
      · exact absurd (Option.some.inj hst).symm hne
      · exact hst

/-- The second of two wakeups does no harm: either it would do none at once, or the first
one empties the sleeping pool. -/
def Sched.MayWakeAfter (s : Sched) (first : Option ℤ) (tid : ℤ) : Prop :=
  s.MayWake tid ∨
    (s.pools .sleepingPool).size = 1 ∧ first.bind s.statusOf = some .sleeping

instance (s : Sched) (first : Option ℤ) (tid : ℤ) : Decidable (s.MayWakeAfter first tid) := by
  unfold Sched.MayWakeAfter
  infer_instance

lemma Woken.mayWake (h : Woken s s' tid n c t) {tid' : ℤ} (hmay : s.MayWakeAfter (some tid) tid') :
    s'.MayWake tid' := by
  intro hst
  have hst' : s.statusOf tid' = some .running ∨ s.statusOf tid' = some .zombie := by
    rcases hst with hst | hst
    · exact .inl (h.statusOf hst (by decide))
    · exact .inr (h.statusOf hst (by decide))
  rw [h.sleeping]
  rcases hmay with hmay | ⟨hone, hsleep⟩
  · rw [hmay hst']
    split_ifs <;> rfl
  · rw [Option.bind_some, h.row.statusOf, Option.some.injEq] at hsleep
    rw [if_pos hsleep, hone]

/-- Waking up the waiter of a semaphore. -/
lemma wlp_wakeWaiter {Q : Unit → Sched → Prop} {w : Option ℤ} (h : PoolInv D X s L)
    (hD : D.OfSleepers) (hmay : ∀ tid, w = some tid → s.MayWake tid)
    (hsleep : w.bind s.statusOf = some .sleeping → X = ∅ ∧ D.Blank)
    (hsame : w.bind s.statusOf ≠ some .sleeping → Q () s)
    (hwoken : ∀ s' L' tid n c t, w = some tid → PoolInv D X s' L' → Woken s s' tid n c t →
      Passes L L' n (poolOf t.status) .runnablePool → Q () s') :
    wlp (wakeWaiter w) Q s := by
  cases w with
  | none => exact hsame nofun
  | some tid =>
      rw [wlp, wakeWaiter, wp_bind, thrMakeRunnable, wp_bind]
      refine wlp_makeRunnable h hD (hmay tid rfl) hsleep (fun r hst => ?_)
        fun s' L' n c t hL' hw hpasses => ?_
      · split_ifs <;> exact hsame hst
      · exact hwoken s' L' tid n c t rfl hL' hw hpasses

/-- After `sem_signal`: the waiter has been woken up, or nothing has changed. -/
inductive Signalled (s : Sched) (L : Pool → List Ptr) (w : Option ℤ) :
    Sched → (Pool → List Ptr) → Prop
  | same : Signalled s L w s L
  | woken {s' : Sched} {L' : Pool → List Ptr} {tid : ℤ} {n c : Ptr} {t : Tcb} : w = some tid →
      Woken s s' tid n c t → Passes L L' n (poolOf t.status) .runnablePool →
      Signalled s L w s' L'

/-- The current thread becomes a zombie, unless it is the idle thread. -/
lemma wlp_makeCurrentZombie {Q : ℤ → Sched → Prop} {w : Option ℤ} (hL : PoolInv D X s L)
    (hD : D.OfSleepers) (hruns : s.Runs)
    (hmay : s.curTcb ≠ some s.idleTcb → ∀ tid, w = some tid → s.MayWake tid)
    (hsleep : w.bind s.statusOf = some .sleeping → X = ∅ ∧ D.Blank)
    (hidle : ∀ r, Q r s)
    (hgone : ∀ s₁ L₁ s' L' n c t, Signalled s L w s₁ L₁ → PoolInv D X s₁ L₁ →
      Leaves s₁ s' L₁ L' n c t .zombiePool → PoolInv D X s' L' → Q 0 s') :
    wlp (schedulerMakeCurrentZombie (wakeWaiter w)) Q s := by
  rw [wlp, schedulerMakeCurrentZombie, wp_bind]
  refine wlp_currentTcb.mpr fun cur hcur => ?_
  refine (wp_bind ..).mpr ((wlp_readTcb cur).mpr fun t ht => ?_)
  rw [wp_bind, tcbPoolMakeZombie, wp_bind]
  refine (wlp_tcbPoolFindNode t.tid).mpr ⟨fun _ => hidle _, fun n c hn hc => ?_⟩
  rcases hruns.cases hL hcur ht with hnone | ⟨n', hr, hst, hmem⟩
  · exact absurd (hn.symm.trans hnone) (Option.some_ne_none _)
  obtain rfl := Option.some.inj (hn.symm.trans hr.node)
  obtain rfl := Option.some.inj (hc.symm.trans hr.elem)
  have hother : s.curTcb ≠ some s.idleTcb := by
    rw [hcur, Ne, Option.some.injEq]
    exact hL.ne_idle hr
  -- the thread still runs once the reaper has been woken up
  have hrest : ∀ s₁ L₁, Signalled s L w s₁ L₁ → PoolInv D X s₁ L₁ → s₁.Row t.tid n c t →
      s₁.curTcb = some c → wp (zombieMove n c)
        (fun (r : ℤ) s' => wp (show SchedM ℤ from do
          if r < 0 then
            return -2
          modify fun s => { s with curTcb := none }
          return 0) Q (fun _ _ => True) s') (fun _ _ => True) s₁ := by
    intro s₁ L₁ hsignal hL₁ hr₁ hcur₁
    have hmem₁ := (hL₁.row hr₁).2
    rw [home_runnable (by rw [hst]; rfl)] at hmem₁
    obtain ⟨l₁, l₂, hl⟩ : ∃ l₁ l₂, L₁ .runnablePool = l₁ ++ n :: l₂ := List.append_of_mem hmem₁
    rw [zombieMove]
    refine (wp_bind ..).mpr ((wlp_readTcb c).mpr fun u hu => ?_)
    obtain rfl := Option.some.inj (hr₁.tcb.symm.trans hu)
    rw [hst]
    dsimp only [zombieSource]
    rw [wp_bind]
    refine wp_unlink hL₁.lists hl fun nodes pools he hd h₁ => ?_
    rw [if_neg (by decide), wp_bind]
    refine (wlp_setStatus c _).mpr fun u hu => ?_
    obtain rfl := Option.some.inj (hr₁.tcb.symm.trans hu)
    rw [wp_bind]
    refine wp_linkLast ⟨h₁.isLl, h₁.apart⟩ (hL₁.lists.not_mem_taken hl) hd
      fun nodes' pools' he' h₂ => ?_
    rw [if_neg (by decide), wp_pure, if_neg (by decide)]
    refine hgone s₁ L₁ _ _ n c t hsignal hL₁
      ⟨hr₁, hcur₁, ⟨rfl, he'.trans he, rfl, rfl, rfl⟩, hL₁.lists.passes_last hl _⟩
      (hL₁.moved hr₁ hl (fun m => ?_) ⟨rfl, he'.trans he, rfl, rfl, rfl⟩ rfl rfl
      ⟨h₂.isLl, h₂.apart⟩ (hL₁.notMem hr₁.tcb (by simp [hst])) rfl
      (hL₁.unbooked hD hr₁ hmem₁ (by decide)) (by rintro ⟨⟩) (by rintro ⟨⟩))
    rw [List.mem_append, List.mem_singleton, or_comm]
  dsimp only
  rw [wp_bind]
  refine wlp_wakeWaiter hL hD (hmay hother) hsleep (fun _ => hrest s L .same hL hr hcur) ?_
  intro s' L' tid n' c' u htid hL' hw hpasses
  refine hrest s' L' (.woken htid hw hpasses) hL' (hw.row_of_ne hr ?_) (hw.curTcb.trans hcur)
  rintro rfl
  obtain rfl := Option.some.inj (hr.tcb.symm.trans hw.row.tcb)
  rcases hw.status with hs | hs <;> rw [hst] at hs <;> cases hs

/-- **`thr_vanish` keeps the invariant.** -/
theorem thrVanish_pooled (h : s.Pooled D Y) (hD : D.OfSleepers) {parent reaper : Option ℤ}
    (hparent : ∀ tid, parent = some tid → s.MayWake tid)
    (hreaper : s.curTcb ≠ some s.idleTcb → ∀ tid, reaper = some tid → s.MayWakeAfter parent tid)
    (hsleep : parent.bind s.statusOf = some .sleeping ∨ reaper.bind s.statusOf = some .sleeping →
      Y = ∅ ∧ D.Blank) :
    wlp (thrVanish parent reaper) (fun _ s' => s'.Pooled D Y) s := by
  obtain ⟨⟨X, hX, L, hL⟩, hruns⟩ := h
  have hblank : parent.bind s.statusOf = some .sleeping ∨
      reaper.bind s.statusOf = some .sleeping → X = ∅ ∧ D.Blank := fun hst =>
    ⟨Set.subset_eq_empty hX (hsleep hst).1, (hsleep hst).2⟩
  have hrest : ∀ s₁ L₁, PoolInv D X s₁ L₁ → s₁.Runs →
      (s₁.curTcb ≠ some s₁.idleTcb → ∀ tid, reaper = some tid → s₁.MayWake tid) →
      (reaper.bind s₁.statusOf = some .sleeping → X = ∅ ∧ D.Blank) →
      wp (do
        let _ ← schedulerMakeCurrentZombie (wakeWaiter reaper)
        thrYield 0 (-1)) (fun _ s' => s'.Pooled D Y) (fun _ _ => True) s₁ := by
    intro s₁ L₁ h₁ hruns₁ hmay hst
    rw [wp_bind]
    refine wlp_makeCurrentZombie h₁ hD hruns₁ hmay hst (fun r => ?_)
      fun _ _ s' L' _ _ _ _ _ _ hL' => ?_
    · exact thrYield_next h₁ hX 0
    · exact thrYield_next hL' hX 0
  rw [wlp, thrVanish, wp_bind]
  refine wlp_currentTcb.mpr fun cur hcur => ?_
  refine (wp_bind ..).mpr ((wlp_readTcb cur).mpr fun t ht => ?_)
  rw [wp_bind]
  refine wlp_wakeWaiter hL hD hparent (fun hst => hblank (.inl hst)) (fun hst => ?_)
    fun s' L' tid n c u htid hL' hw _ => ?_
  · refine hrest s L hL hruns (fun hidle tid htid => ?_) fun hst => hblank (.inr hst)
    rcases hreaper hidle tid htid with hmay | ⟨-, hsleep⟩
    · exact hmay
    · exact absurd hsleep hst
  · refine hrest s' L' hL' (hw.runs hruns) (fun hidle tid' htid' => hw.mayWake ?_) fun hst => ?_
    · rw [hw.curTcb, hw.table.idleTcb] at hidle
      exact htid ▸ hreaper hidle tid' htid'
    · cases reaper with
      | none => cases hst
      | some tid' => exact hblank (.inr (hw.statusOf hst (by decide)))

/-! ### New threads and dead ones -/

/-- A new thread is in memory and in the table. -/
structure Added (s s' : Sched) (a : HeapAnswer) (t : Tcb) : Prop where
  tid : t.tid = s.nextTid
  status : t.status = .runnable
  newTcb : s.tcbs a.tcb = none
  newNode : s.nodes.e a.node = none
  get : htGet s'.threads = Function.update (htGet s.threads) s.nextTid (some a.node)
  elem : s'.nodes.e = Function.update s.nodes.e a.node (some a.tcb)
  tcbs : s'.tcbs = Function.update s.tcbs a.tcb (some t)
  idleTcb : s'.idleTcb = s.idleTcb
  nextTid : s'.nextTid = s.nextTid + 1
  numTicks : s'.numTicks = s.numTicks

/-- The threads of the table stay. -/
lemma Added.row {a : HeapAnswer} (ha : Added s s' a t) (h : PoolInv D X s L) {u : Tcb}
    (hr : s.Row tid n c u) : s'.Row tid n c u := by
  have htne : tid ≠ s.nextTid := by
    rintro rfl
    exact absurd ((h.fresh _ le_rfl).symm.trans hr.node) nofun
  have hnne : n ≠ a.node := by
    rintro rfl
    exact absurd (ha.newNode.symm.trans hr.elem) nofun
  have hcne : c ≠ a.tcb := by
    rintro rfl
    exact absurd (ha.newTcb.symm.trans hr.tcb) nofun
  refine ⟨?_, ?_, ?_⟩
  · rw [ha.get, Function.update_of_ne htne, hr.node]
  · rw [ha.elem, Function.update_of_ne hnne, hr.elem]
  · rw [ha.tcbs, Function.update_of_ne hcne, hr.tcb]

/-- **A new thread of the table is linked into the runnable pool.** -/
theorem PoolInv.add (h : PoolInv D X s L) {a : HeapAnswer} (ha : Added s s' a t)
    (hlists : s'.Lists (Function.update L .runnablePool (L .runnablePool ++ [a.node]))) :
    PoolInv D X s' (Function.update L .runnablePool (L .runnablePool ++ [a.node])) := by
  have hget := ha.get
  have hnext := ha.nextTid
  -- the new thread, at the end of the runnable pool
  have hnew : s'.Row s.nextTid a.node a.tcb t := by
    refine ⟨?_, ?_, ?_⟩
    · rw [hget, Function.update_self]
    · rw [ha.elem, Function.update_self]
    · rw [ha.tcbs, Function.update_self]
  -- nobody leaves a pool, and the sleeping pool is the same
  have hmem : ∀ k n, n ∈ L k → n ∈ Function.update L .runnablePool
    (L .runnablePool ++ [a.node]) k := by
    intro k n hn
    by_cases hk : k = .runnablePool
    · subst hk
      rw [Function.update_self]
      exact List.mem_append_left _ hn
    · rwa [Function.update_of_ne hk]
  have hsleep : Function.update L .runnablePool (L .runnablePool ++ [a.node]) .sleepingPool =
      L .sleepingPool := Function.update_of_ne (by decide) _ _
  have hwake : ∀ b ∈ L .sleepingPool, s'.wakeAt b = s.wakeAt b := by
    intro b hb
    obtain ⟨_, _, _, hr, -⟩ := h.row_of_mem hb
    rw [hr.wakeAt, (ha.row h hr).wakeAt]
  have hold : ∀ c, s.tcbs c ≠ none → s'.tcbs c = s.tcbs c := by
    intro c hc
    rw [ha.tcbs, Function.update_of_ne]
    rintro rfl
    exact hc ha.newTcb
  refine ⟨hlists, ?_, ?_, ?_, by omega, ?_, ?_, ?_, ?_, ?_, ha.numTicks.trans h.clock, h.bound_le,
    ?_, ?_⟩
  -- `rows`: the new thread, and those that were there
  · intro tid n hn
    by_cases htne : tid = s.nextTid
    · subst htne
      obtain rfl := Option.some.inj (hn.symm.trans hnew.node)
      refine ⟨a.tcb, t, hnew, ha.tid, ?_⟩
      rw [home_runnable (by rw [ha.status]; rfl), Function.update_self]
      simp
    · rw [hget, Function.update_of_ne htne] at hn
      obtain ⟨c, u, hr, hu, hin⟩ := h.rows tid n hn
      exact ⟨c, u, ha.row h hr, hu, hmem _ n hin⟩
  -- `linked`
  · intro k n hn
    by_cases hk : k = .runnablePool
    · subst hk
      rw [Function.update_self] at hn
      rcases List.mem_append.mp hn with hn | hn
      · obtain ⟨tid, c, u, hr, -⟩ := h.row_of_mem hn
        exact ⟨tid, (ha.row h hr).node⟩
      · exact ⟨s.nextTid, List.mem_singleton.mp hn ▸ hnew.node⟩
    · rw [Function.update_of_ne hk] at hn
      obtain ⟨tid, c, u, hr, -⟩ := h.row_of_mem hn
      exact ⟨tid, (ha.row h hr).node⟩
  -- `fresh`
  · intro tid hle
    rw [hnext] at hle
    push_cast at hle
    rw [hget, Function.update_of_ne (by omega)]
    exact h.fresh tid (by omega)
  -- `idle`, `idleTid`, `null`: the new tid is not 0, and the new tcb is neither of the two
  · have hpos := h.pos
    rw [hget, Function.update_of_ne (by omega)]
    exact h.idle
  · obtain ⟨u, hu, hzero⟩ := h.idleTid
    rw [ha.idleTcb, hold _ (by simp [hu])]
    exact ⟨u, hu, hzero⟩
  · rw [ha.tcbs, Function.update_of_ne a.tcb_ne.symm]
    exact h.null
  -- `asleep`
  · intro c hc
    obtain ⟨u, hu, hst⟩ := h.asleep c hc
    exact ⟨u, (hold c (by simp [hu])).trans hu, hst⟩
  -- `sorted`, `ahead`: about the sleeping pool alone
  · rw [hsleep]
    exact h.sorted_of (List.Sublist.refl _) hwake
  · intro b hb
    rw [hsleep] at hb
    rw [hwake b hb]
    exact h.ahead b hb
  -- `booked`
  · intro tid k w he
    obtain ⟨n, c, u, hr, hn, hw⟩ := h.booked tid k w he
    exact ⟨n, c, u, ha.row h hr, hmem k n hn, hw⟩

/-- The current thread goes on running when a thread is added. -/
lemma Added.pooled {a : HeapAnswer} (ha : Added s s' a t) (h : PoolInv D X s L) (hX : X ⊆ Y)
    (hruns : s.Runs) (hcur : s'.curTcb = s.curTcb)
    (hlists : s'.Lists (Function.update L .runnablePool (L .runnablePool ++ [a.node]))) :
    s'.Pooled D Y := by
  refine ⟨⟨X, hX, _, h.add ha hlists⟩, fun c hc => ?_⟩
  rcases hruns c (hcur ▸ hc) with hidle | ⟨tid, n, t, hr, hst⟩
  · exact .inl (hidle.trans ha.idleTcb.symm)
  · exact .inr ⟨tid, n, t, ha.row h hr, hst⟩

@[simp] lemma wp_putThread {Q : ℤ → Sched → Prop} {E : Fault → Sched → Prop} (tid : ℤ) (n : Ptr) :
    wp (putThread tid n) Q E s ↔
      Q (htPut s.threads tid n).1 { s with threads := (htPut s.threads tid n).2 } := Iff.rfl

/-- A change to a node on no pool. -/
lemma Sched.Lists.frame (h : s.Lists L) (hoff : ∀ k, n ∉ L k) (hpools : s'.pools = s.pools)
    (hnodes : ∀ m ≠ n, s'.nodes.next m = s.nodes.next m ∧ s'.nodes.prev m = s.nodes.prev m ∧
      s'.nodes.e m = s.nodes.e m) : s'.Lists L := by
  refine ⟨fun k => ?_, h.apart⟩
  have hne : ∀ m ∈ L k, m ≠ n := fun m hm => ne_of_mem_of_not_mem hm (hoff k)
  rw [hpools]
  refine ⟨(h.isLl k).links.congr ?_ ?_, fun m hm => ?_⟩
  · exact fun m hm => (hnodes m (hne m hm)).1
  · exact fun m hm => (hnodes m (hne m hm)).2.1
  · rw [(hnodes m (hne m hm)).2.2]
    exact (h.isLl k).live m hm

/-- A tid was given away. -/
def Sched.spendTid (s : Sched) : Sched := { s with nextTid := s.nextTid + 1 }

lemma PoolInv.spendTid (h : PoolInv D X s L) : PoolInv D X s.spendTid L := by
  refine ⟨⟨h.lists.isLl, h.lists.apart⟩, fun tid n hn => ?_, h.linked, ?_,
    Nat.succ_pos _, h.idle, h.idleTid, h.null, h.asleep, h.sorted, h.clock, h.bound_le, h.ahead,
    fun tid k w he => ?_⟩
  · obtain ⟨tcb, t, hr, hrest⟩ := h.rows tid n hn
    exact ⟨tcb, t, ⟨hr.node, hr.elem, hr.tcb⟩, hrest⟩
  · intro tid hle
    refine h.fresh tid (le_trans ?_ hle)
    change ((s.nextTid : ℕ) : ℤ) ≤ ((s.nextTid + 1 : ℕ) : ℤ)
    omega
  · obtain ⟨n, c, t, hr, hrest⟩ := h.booked tid k w he
    exact ⟨n, c, t, ⟨hr.node, hr.elem, hr.tcb⟩, hrest⟩

lemma Sched.Runs.spendTid (h : s.Runs) : s.spendTid.Runs := by
  intro c hc
  rcases h c hc with hidle | ⟨tid, n, t, hr, hst⟩
  · exact .inl hidle
  · exact .inr ⟨tid, n, t, ⟨hr.node, hr.elem, hr.tcb⟩, hst⟩

/-- **`scheduler_add_process`** links the thread at the end of the runnable pool, or only gives
away a tid. -/
theorem wlp_addProcess {Q : ℤ → Sched → Prop} (hL : PoolInv D X s L) (heap : Option HeapAnswer)
    (hfailed : Q (-2) s.spendTid)
    (hadded : ∀ s' a t, s.nextTid + 1 < 2 ^ 31 → Added s s' a t → s'.curTcb = s.curTcb →
      s'.Lists (Function.update L .runnablePool (L .runnablePool ++ [a.node])) →
      Q s.nextTid s') :
    wlp (schedulerAddProcess heap) Q s := by
  rw [wlp, schedulerAddProcess, wp_bind, newTid, wp_bind, wp_gets, wp_bind, wp_require]
  refine ⟨fun hfits => ?_, fun _ => trivial⟩
  rw [wp_bind, wp_modify, wp_pure]
  cases heap with
  | none => exact hfailed
  | some a =>
      dsimp only
      rw [wp_bind, mallocThread, wp_bind, wp_get, wp_bind, wp_require]
      refine ⟨fun hpost => ?_, fun _ => trivial⟩
      obtain ⟨htcb, hnode⟩ := hpost
      change s.tcbs a.tcb = none at htcb
      change s.nodes.e a.node = none at hnode
      obtain ⟨hput, hget⟩ := htGet_htPut (s.nextTid : ℤ) (hL.fresh _ le_rfl) a.node
      -- the new node is on no pool
      have hoff : ∀ k, a.node ∉ L k := by
        intro k hk
        have hlive := (hL.lists.isLl k).live _ hk
        rw [hnode] at hlive
        cases hlive
      rw [wp_modify, wp_bind, tcbPoolAddRunnableTcb, wp_bind, wp_putThread]
      simp only [hput]
      rw [if_neg (by decide), wp_bind]
      refine wp_linkLast (L := L) (hL.lists.frame hoff rfl fun m hm => ?_) hoff ?_
        fun nodes pools he h₂ => ?_
      · exact ⟨Function.update_of_ne hm .., Function.update_of_ne hm ..,
          Function.update_of_ne hm ..⟩
      · refine ⟨Function.update_self .., Function.update_self .., ?_⟩
        simp
      · rw [if_neg (by decide), wp_pure, if_neg (by decide)]
        exact hadded _ a (tcbInit s.nextTid a) hfits
          ⟨rfl, rfl, htcb, hnode, hget, he, rfl, rfl, rfl, rfl⟩ rfl ⟨h₂.isLl, h₂.apart⟩

/-- **`scheduler_add_process` keeps the invariant.** -/
theorem schedulerAddProcess_pooled (h : s.Pooled D Y) (heap : Option HeapAnswer) :
    wlp (schedulerAddProcess heap) (fun _ s' => s'.Pooled D Y) s := by
  obtain ⟨⟨X, hX, L, hL⟩, hruns⟩ := h
  refine wlp_addProcess hL heap ?_ fun s' a t _ hadded hcur hlists => ?_
  · exact ⟨⟨X, hX, L, hL.spendTid⟩, hruns.spendTid⟩
  · exact hadded.pooled hL hX hruns hcur hlists

/-- `scheduler_add_new_thread` keeps the invariant. -/
lemma schedulerAddNewThread_pooled (h : s.Pooled D Y) (heap : Option HeapAnswer) :
    wlp (schedulerAddNewThread heap) (fun _ s' => s'.Pooled D Y) s := by
  rw [wlp, schedulerAddNewThread, wp_bind]
  refine wlp_currentTcb.mpr fun cur _ => ?_
  exact (wp_bind ..).mpr ((wlp_readTcb cur).mpr fun _ _ => schedulerAddProcess_pooled h heap)

/-- **A thread leaves the table and its pool.** -/
theorem PoolInv.remove (h : PoolInv D X s L) (hr : s.Row tid n c t) (hL : L j = l₁ ++ n :: l₂)
    (hout : c ∉ X) (hfree : ∀ i w, ¬ D.entries tid i w)
    (hget : htGet s'.threads = Function.update (htGet s.threads) tid none)
    (he : s'.nodes.e = Function.update s.nodes.e n none)
    (htcbs : s'.tcbs = Function.update s.tcbs c none) (hidle : s'.idleTcb = s.idleTcb)
    (hnext : s'.nextTid = s.nextTid) (hticks : s'.numTicks = s.numTicks)
    (hlists : s'.Lists (Function.update L j (l₁ ++ l₂))) :
    PoolInv D X s' (Function.update L j (l₁ ++ l₂)) ∧
      ∀ {tid' n' c' u}, s.Row tid' n' c' u → c' ≠ c → s'.Row tid' n' c' u := by
  -- every other thread is found as before
  have hrow : ∀ {tid' n' c' u}, s.Row tid' n' c' u → c' ≠ c → s'.Row tid' n' c' u := by
    intro tid' n' c' u hr' hne
    have htne : tid' ≠ tid := by
      rintro rfl
      exact hne (hr'.unique hr).2.1
    have hnne : n' ≠ n := by
      rintro rfl
      exact hne (h.eq_of_node hr' hr).2.1
    refine ⟨?_, ?_, ?_⟩
    · rw [hget, Function.update_of_ne htne, hr'.node]
    · rw [he, Function.update_of_ne hnne, hr'.elem]
    · rw [htcbs, Function.update_of_ne hne, hr'.tcb]
  -- the ticks of the other nodes are read from tcbs that are still there
  have hwake : ∀ a i, a ∈ L i → a ≠ n → s'.wakeAt a = s.wakeAt a := by
    intro a i ha hne
    obtain ⟨tid', c', u, hr', -⟩ := h.row_of_mem ha
    have hne' : c' ≠ c := by
      rintro rfl
      exact hne (h.eq_of_tcb hr' hr).2.1
    rw [hr'.wakeAt, (hrow hr' hne').wakeAt]
  refine ⟨⟨hlists, ?_, ?_, ?_, hnext ▸ h.pos, ?_, ?_, ?_, ?_, ?_, hticks.trans h.clock, h.bound_le,
    ?_, ?_⟩, hrow⟩
  -- `rows`
  · intro tid' n' hn'
    have htne : tid' ≠ tid := by
      rintro rfl
      simp [hget] at hn'
    rw [hget, Function.update_of_ne htne] at hn'
    obtain ⟨c', u, hr', hu, hin⟩ := h.rows tid' n' hn'
    have hne : c' ≠ c := by
      rintro rfl
      exact htne (h.eq_of_tcb hr' hr).1
    refine ⟨c', u, hrow hr' hne, hu, (h.lists.mem_taken hL _ _).mpr ⟨hin, ?_⟩⟩
    rintro rfl
    exact hne (h.eq_of_node hr' hr).2.1
  -- `linked`
  · intro k m hm
    obtain ⟨hin, hne⟩ := (h.lists.mem_taken hL m k).mp hm
    obtain ⟨tid', c', u, hr', -⟩ := h.row_of_mem hin
    have hne' : c' ≠ c := by
      rintro rfl
      exact hne (h.eq_of_tcb hr' hr).2.1
    exact ⟨tid', (hrow hr' hne').node⟩
  -- `fresh`
  · intro tid' hle
    rw [hget, Function.update_apply]
    split_ifs
    · rfl
    · exact h.fresh tid' (hnext ▸ hle)
  -- `idle`
  · rw [hget, Function.update_apply]
    split_ifs
    · rfl
    · exact h.idle
  -- `idleTid` and `null`: neither the idle tcb nor the null pointer is that of a row
  · rw [hidle, htcbs, Function.update_of_ne (h.ne_idle hr).symm]
    exact h.idleTid
  · rw [htcbs, Function.update_of_ne (h.tcb_ne_zero hr).symm]
    exact h.null
  -- `asleep`
  · intro c' hc'
    rw [htcbs, Function.update_of_ne (ne_of_mem_of_not_mem hc' hout)]
    exact h.asleep c' hc'
  -- `sorted`: a part of a sorted list
  · refine h.sorted_of ?_ fun a ha => ?_
    · by_cases hj : j = .sleepingPool
      · rw [hj, Function.update_self, ← hj, hL]
        exact (List.sublist_cons_self n l₂).append_left l₁
      · rw [Function.update_of_ne (Ne.symm hj)]
    · obtain ⟨hin, hne⟩ := (h.lists.mem_taken hL a _).mp ha
      exact hwake a _ hin hne
  -- `ahead`
  · intro a ha
    obtain ⟨hin, hne⟩ := (h.lists.mem_taken hL a _).mp ha
    rw [hwake a _ hin hne]
    exact h.ahead a hin
  -- `booked`: the thread that goes has no entry in the diary
  · intro tid' i w he
    obtain ⟨m, c', u, hr', hm, hw⟩ := h.booked tid' i w he
    have hne : c' ≠ c := by
      rintro rfl
      exact hfree i w ((h.eq_of_tcb hr' hr).1 ▸ he)
    refine ⟨m, c', u, hrow hr' hne, (h.lists.mem_taken hL m i).mpr ⟨hm, ?_⟩, hw⟩
    rintro rfl
    exact hne (h.eq_of_node hr' hr).2.1

/-- A zombie has left the table and its pool. -/
structure Reaped (s s' : Sched) (L L' : Pool → List Ptr) (tid : ℤ) (n c : Ptr) (t : Tcb) :
    Prop where
  row : s.Row tid n c t
  status : t.status = .zombie
  mem_source : n ∈ L .zombiePool
  get : htGet s'.threads = Function.update (htGet s.threads) tid none
  keeps : ∀ {tid' n' c' u}, s.Row tid' n' c' u → c' ≠ c → s'.Row tid' n' c' u
  mem : ∀ m i, m ∈ L' i ↔ m ∈ L i ∧ m ≠ n
  runnable : L' .runnablePool = L .runnablePool
  idleTcb : s'.idleTcb = s.idleTcb
  nextTid : s'.nextTid = s.nextTid
  curTcb : s'.curTcb = s.curTcb

/-- **A round of the reaper**: the first zombie is gone, if there is one. -/
theorem wlp_reap {Q : Unit → Sched → Prop} (hL : PoolInv D X s L) (hD : D.OfSleepers)
    (hempty : Q () s)
    (hreaped : ∀ s' L' tid n c t, PoolInv D X s' L' → Reaped s s' L L' tid n c t → Q () s') :
    wlp tcbPoolReap Q s := by
  have hsize := hL.lists.size_eq .zombiePool
  rw [wlp, tcbPoolReap, wp_bind]
  cases hz : L .zombiePool with
  | nil =>
      rw [hz] at hsize
      exact wp_peek_empty hsize hempty
  | cons n l =>
      have hmem : n ∈ L .zombiePool := by simp [hz]
      obtain ⟨tid, c, t, hr, hhome⟩ := hL.row_of_mem hmem
      obtain ⟨hout, hpool⟩ := notMem_of_home hhome.symm (by decide)
      have hst : t.status = .zombie := by
        cases hst : t.status <;> simp [hst, poolOf] at hpool ⊢
      obtain ⟨hremoved, hget⟩ := htGet_htRemove s.threads tid
      refine wp_peek hL.lists hz hr.elem ?_
      refine (wp_bind ..).mpr ((wlp_readTcb c).mpr fun u hu => ?_)
      obtain rfl := Option.some.inj (hr.tcb.symm.trans hu)
      rw [(hL.row hr).1, wp_bind, tcbPoolRemoveTcb, wp_bind, wp_removeThread, hremoved, hr.node]
      simp only [wp_bind, wp_gets, hr.elem]
      refine (wlp_readTcb c).mpr fun u hu => ?_
      obtain rfl := Option.some.inj (hr.tcb.symm.trans hu)
      simp only [hst, removeSource, wp_bind]
      have hz' : L .zombiePool = [] ++ n :: l := hz
      refine wp_unlink (L := L) ⟨hL.lists.isLl, hL.lists.apart⟩ hz'
        fun nodes pools he hd h₁ => ?_
      rw [if_neg (by decide), wp_pure]
      dsimp only
      rw [freeThread, wp_bind]
      refine (wlp_readTcb c).mpr fun _ _ => ?_
      rw [wp_modify]
      have hgone := hL.lists.not_mem_taken hz'
      obtain ⟨hinv, hrow⟩ := @PoolInv.remove D s { s with
        threads := (htRemove s.threads tid).2
        pools := pools
        nodes := { nodes with e := Function.update nodes.e n none }
        tcbs := Function.update s.tcbs c none } X _ _ _ _ _ _ _ _ hL hr hz' hout
        (hL.unbooked hD hr hmem (by decide)) hget (by rw [he]) rfl rfl rfl rfl
        (h₁.frame hgone rfl fun m hm => ⟨rfl, rfl, Function.update_of_ne hm ..⟩)
      exact hreaped _ _ tid n c t hinv ⟨hr, hst, hmem, hget, hrow, hL.lists.mem_taken hz',
        Function.update_of_ne (by decide) .., rfl, rfl, rfl⟩

/-- **A round of the reaper keeps the invariant.** -/
theorem tcbPoolReap_pooled (h : s.Pooled D Y) (hD : D.OfSleepers) :
    wlp tcbPoolReap (fun _ s' => s'.Pooled D Y) s := by
  obtain ⟨⟨X, hX, L, hL⟩, hruns⟩ := h
  refine wlp_reap hL hD ⟨⟨X, hX, L, hL⟩, hruns⟩ fun s' L' tid n c t hL' hreaped => ?_
  refine ⟨⟨X, hX, L', hL'⟩, fun c' hc' => ?_⟩
  rcases hruns c' (hreaped.curTcb ▸ hc') with hidle | ⟨tid', n', u, hr', hu⟩
  · exact .inl (hidle.trans hreaped.idleTcb.symm)
  · refine .inr ⟨tid', n', u, hreaped.keeps hr' ?_, hu⟩
    rintro rfl
    obtain rfl := Option.some.inj (hreaped.row.tcb.symm.trans hr'.tcb)
    rw [hreaped.status] at hu
    cases hu

/-! ### Timer ticks -/

/-- The next tick wakes up no thread, or one that runs at once. -/
def Sched.Quiet (s : Sched) : Prop :=
  ∀ h ∈ (s.pools .sleepingPool).head, s.wakeAt h = s.numTicks + 1 →
    (s.pools .runnablePool).size ≤ 1 ∧ ∀ m ∈ s.nodes.next h, s.wakeAt m ≠ s.numTicks + 1

instance (s : Sched) : Decidable s.Quiet := by
  unfold Sched.Quiet
  infer_instance

/-- The node is that of a thread of the table that is `SLEEPING`. -/
def Sched.Sleeper (s : Sched) (n : Ptr) : Prop :=
  ∃ tid c t, s.Row tid n c t ∧ t.tid = tid ∧ t.status = .sleeping

/-- The nodes of the sleeping pool are those of threads that are `SLEEPING`. -/
lemma PoolInv.sleeper (h : PoolInv D X s L) (hn : n ∈ L .sleepingPool) : s.Sleeper n := by
  obtain ⟨tid, c, t, hr, hhome⟩ := h.row_of_mem hn
  obtain ⟨-, hpool⟩ := notMem_of_home hhome.symm (by decide)
  refine ⟨tid, c, t, hr, (h.row hr).1, ?_⟩
  cases hst : t.status <;> simp [hst, poolOf] at hpool ⊢

/-- The thread at the head of the sleeping pool goes to the end of the runnable pool. -/
lemma wp_wakeHead {Q : ℤ → Sched → Prop} {E : Fault → Sched → Prop} (h : s.Lists L)
    (hL : L .sleepingPool = n :: l) (hr : s.Row tid n c t) (hst : t.status = .sleeping)
    (hq : ∀ nodes pools, nodes.e = s.nodes.e →
      (s.withLists nodes pools).Lists (Function.update (Function.update L .sleepingPool l)
        .runnablePool (L .runnablePool ++ [n])) → Q 0 (s.withLists nodes pools)) :
    wp (tcbPoolMakeRunnable tid) Q E s := by
  have hL' : L .sleepingPool = [] ++ n :: l := hL
  simp only [tcbPoolMakeRunnable, tcbPoolFindNode, readTcb, wp_bind, wp_gets, hr.node, hr.elem,
    hr.tcb, hst, wp_pure]
  rw [if_neg (by decide), wp_bind, if_neg (by decide)]
  refine wp_unlink h hL' fun nodes pools he hd h₁ => ?_
  rw [if_neg (by decide), wp_bind]
  refine wp_linkLast h₁ (h.not_mem_taken hL') hd fun nodes' pools' he' h₂ => ?_
  rw [Function.update_of_ne (by decide), List.nil_append] at h₂
  exact hq nodes' pools' (he'.trans he) h₂

/-- **The loop of `tcb_pool_wakeup`** takes the threads that are due off the sleeping pool,
one after the other, and ends at the first one that is not. -/
theorem wakeupLoop_spec {now : ℕ} {rest : List Ptr} : ∀ (due : List Ptr) {fuel : ℕ} {s : Sched}
    {L : Pool → List Ptr}, s.Lists L → L .sleepingPool = due ++ rest →
    (∀ n ∈ due ++ rest, s.Sleeper n) → (∀ n ∈ due, s.wakeAt n = now) →
    (∀ n ∈ rest.head?, s.wakeAt n ≠ now) → due.length < fuel →
    wp (tcbPoolWakeupLoop now fuel) (fun r s' => r = 0 ∧ ∃ nodes pools,
      s' = s.withLists nodes pools ∧ nodes.e = s.nodes.e ∧
      s'.Lists (Function.update (Function.update L .sleepingPool rest) .runnablePool
        (L .runnablePool ++ due))) (fun _ _ => False) s := by
  intro due
  induction due with
  | nil =>
      intro fuel s L h hL hrows _ hrest hfuel
      rw [List.nil_append] at hL hrows
      have hsize := h.size_eq .sleepingPool
      obtain ⟨fuel, rfl⟩ := Nat.exists_eq_succ_of_ne_zero hfuel.ne'
      have hdone : s.Lists (Function.update (Function.update L .sleepingPool rest) .runnablePool
          (L .runnablePool ++ [])) := by
        rw [← hL, Function.update_eq_self, List.append_nil, Function.update_eq_self]
        exact h
      rw [tcbPoolWakeupLoop, wp_bind, wp_gets]
      cases hs : rest with
      | nil =>
          rw [if_pos (by rw [hsize, hL, hs]; rfl)]
          exact ⟨rfl, s.nodes, s.pools, rfl, rfl, hs ▸ hdone⟩
      | cons n l =>
          rw [hs] at hL hrest hrows
          obtain ⟨tid, c, t, hr, -, -⟩ := hrows n (.head l)
          have hne := hrest n rfl
          rw [hr.wakeAt] at hne
          rw [if_neg (by rw [hsize, hL]; simp), wp_bind]
          refine wp_peek h hL hr.elem ?_
          simp only [readTcb, wp_bind, wp_gets, hr.tcb, wp_pure]
          rw [if_neg hne]
          exact ⟨rfl, s.nodes, s.pools, rfl, rfl, hs ▸ hdone⟩
  | cons n due ih =>
      intro fuel s L h hL hrows hdue hrest hfuel
      rw [List.cons_append] at hL
      have hsize := h.size_eq .sleepingPool
      obtain ⟨fuel, rfl⟩ := Nat.exists_eq_succ_of_ne_zero (Nat.zero_lt_of_lt hfuel).ne'
      obtain ⟨tid, c, t, hr, htid, hst⟩ := hrows n (.head _)
      have hnow := hdue n (.head due)
      rw [hr.wakeAt] at hnow
      rw [tcbPoolWakeupLoop, wp_bind, wp_gets, if_neg (by rw [hsize, hL]; simp), wp_bind]
      refine wp_peek h hL hr.elem ?_
      simp only [readTcb, wp_bind, wp_gets, hr.tcb, wp_pure]
      rw [if_pos hnow, wp_bind, htid]
      refine wp_wakeHead h hL hr hst fun nodes pools he h₁ => ?_
      refine wp_imp (ih h₁ ?_ (fun m hm => ?_) (fun m hm => ?_) (fun m hm => ?_)
        (by simpa using hfuel)) fun r s' hpost => ?_
      · rw [Function.update_of_ne (by decide), Function.update_self]
      · obtain ⟨tid', c', u, hr', hrest'⟩ := hrows m (.tail n hm)
        exact ⟨tid', c', u, hr'.withLists pools he, hrest'⟩
      · rw [wakeAt_withLists pools he]
        exact hdue m (.tail n hm)
      · rw [wakeAt_withLists pools he]
        exact hrest m hm
      · obtain ⟨hr0, nodes', pools', hs', he', h'⟩ := hpost
        refine ⟨hr0, nodes', pools', hs', he'.trans he, ?_⟩
        rw [Function.update_comm (by decide), Function.update_idem, Function.update_self,
          Function.update_comm (by decide), Function.update_idem, List.append_assoc] at h'
        exact h'

/-- The threads that are due are at the head of the sleeping pool. -/
lemma PoolInv.due_split (h : PoolInv D X s L) {now : ℕ} (hnow : now ≤ D.bound + 1) :
    ∃ due rest, L .sleepingPool = due ++ rest ∧ (∀ n ∈ due, s.wakeAt n = now) ∧
      ∀ n ∈ rest, now < s.wakeAt n := by
  refine ⟨(L .sleepingPool).takeWhile fun n => s.wakeAt n = now,
    (L .sleepingPool).dropWhile fun n => s.wakeAt n = now, List.takeWhile_append_dropWhile.symm,
    fun n hn => by simpa using List.all_eq_true.mp List.all_takeWhile n hn, fun n hn => ?_⟩
  set rest := (L .sleepingPool).dropWhile fun n => s.wakeAt n = now with hrest
  have hsub : rest.Sublist (L .sleepingPool) := List.dropWhile_sublist _
  have hge : ∀ m ∈ rest, now ≤ s.wakeAt m := fun m hm =>
    hnow.trans (h.ahead m (hsub.mem hm))
  -- the first one of the rest is not due, and the others come after it
  cases hl : rest with
  | nil => simp [hl] at hn
  | cons a l =>
      have hsorted := h.sorted.sublist hsub
      rw [hl, List.pairwise_cons] at hsorted
      have hne : s.wakeAt a ≠ now := by
        have hhead := List.head?_dropWhile_not (fun n => decide (s.wakeAt n = now))
          (L .sleepingPool)
        rw [← hrest, hl] at hhead
        simpa using hhead
      have ha := lt_of_le_of_ne (hge a (by simp [hl])) hne.symm
      rw [hl] at hn
      rcases List.mem_cons.mp hn with rfl | hn
      · exact ha
      · exact ha.trans_le (hsorted.1 n hn)

/-- **After `tcb_pool_wakeup`**: the threads that were due are on the runnable pool, excepted
until they run. -/
theorem PoolInv.woken {E : Diary} {due rest : List Ptr} {nodes : Nodes} {pools : Pool → Ll}
    (h : PoolInv D X s L) (hL : L .sleepingPool = due ++ rest) (he : nodes.e = s.nodes.e)
    (hlists : (s.withLists nodes pools).Lists (Function.update
      (Function.update L .sleepingPool rest) .runnablePool (L .runnablePool ++ due)))
    (hclock : E.clock = D.clock) (hbound : E.bound ≤ E.clock)
    (hahead : ∀ n ∈ rest, E.bound < s.wakeAt n)
    (hbooked : ∀ tid k w, E.entries tid k w → ∃ n c t, s.Row tid n c t ∧
      n ∈ Function.update (Function.update L .sleepingPool rest) .runnablePool
        (L .runnablePool ++ due) k ∧ t.tWakeup = w) :
    PoolInv E (X ∪ {c | ∃ n ∈ due, s.nodes.e n = some c}) (s.withLists nodes pools)
      (Function.update (Function.update L .sleepingPool rest) .runnablePool
        (L .runnablePool ++ due)) := by
  have hmem : ∀ m k, m ∈ Function.update (Function.update L .sleepingPool rest) .runnablePool
      (L .runnablePool ++ due) k ↔
        k = .runnablePool ∧ m ∈ due ∨ m ∈ L k ∧ (k = .sleepingPool → m ∈ rest) := by
    intro m k
    cases k <;> simp [hL]
    · tauto
    · tauto
  have hsleep : Function.update (Function.update L .sleepingPool rest) .runnablePool
      (L .runnablePool ++ due) .sleepingPool = rest := by
    rw [Function.update_of_ne (by decide), Function.update_self]
  have hsub : rest.Sublist (L .sleepingPool) := hL ▸ List.sublist_append_right due rest
  have hnd : ∀ m ∈ due, m ∉ rest := by
    have hnodup := (h.lists.isLl .sleepingPool).links.nodup
    rw [hL] at hnodup
    exact fun m hm hm' => List.disjoint_of_nodup_append hnodup hm hm'
  refine ⟨hlists, fun tid n hget => ?_, fun k m hm => ?_, h.fresh, h.pos, h.idle, h.idleTid,
    h.null, fun c hc => ?_, ?_, h.clock.trans hclock.symm, hbound, fun n hn => ?_,
    fun tid k w hk => ?_⟩
  · obtain ⟨c, t, hr, htid, hn⟩ := h.rows tid n hget
    refine ⟨c, t, hr.withLists pools he, htid, (hmem n _).mpr ?_⟩
    by_cases hX : c ∈ X
    · rw [home_of_mem hX] at hn
      rw [home_of_mem (.inl hX)]
      exact .inr ⟨hn, by rintro ⟨⟩⟩
    by_cases hdue : n ∈ due
    · exact .inl ⟨home_of_mem (.inr ⟨n, hdue, hr.elem⟩) t, hdue⟩
    · have hout : c ∉ X ∪ {c | ∃ n ∈ due, s.nodes.e n = some c} := by
        rintro (hin | ⟨m, hm, hmc⟩)
        · exact hX hin
        · have hmL : m ∈ L .sleepingPool := hL ▸ List.mem_append_left _ hm
          obtain ⟨_, _, _, hr', -⟩ := h.row_of_mem hmL
          obtain rfl := Option.some.inj (hmc.symm.trans hr'.elem)
          exact hdue ((h.eq_of_tcb hr' hr).2.1 ▸ hm)
      rw [home_of_notMem hX] at hn
      rw [home_of_notMem hout]
      refine .inr ⟨hn, fun hk => ?_⟩
      rw [hk, hL] at hn
      exact (List.mem_append.mp hn).resolve_left hdue
  · rcases (hmem m k).mp hm with ⟨-, hdue⟩ | ⟨hin, -⟩
    · exact h.linked .sleepingPool m (hL ▸ List.mem_append_left _ hdue)
    · exact h.linked k m hin
  · rcases hc with hX | ⟨n, hn, hnc⟩
    · exact h.asleep c hX
    · obtain ⟨_, c', t, hr, -, hst⟩ := h.sleeper (n := n) (hL ▸ List.mem_append_left _ hn)
      obtain rfl := Option.some.inj (hnc.symm.trans hr.elem)
      exact ⟨t, hr.tcb, hst⟩
  · rw [hsleep]
    exact h.sorted_of hsub fun a _ => wakeAt_withLists pools he a
  · rw [hsleep] at hn
    rw [wakeAt_withLists pools he]
    exact hahead n hn
  · obtain ⟨n, c, t, hr, hn, hw⟩ := hbooked tid k w hk
    exact ⟨n, c, t, hr.withLists pools he, hn, hw⟩

/-- **`tcb_pool_wakeup`** returns, and has woken up the threads that were due. -/
theorem wp_wakeup {Q : ℤ → Sched → Prop} {now : ℕ} (h : PoolInv D X s L) (hnow : now ≤ D.bound + 1)
    (hq : ∀ due rest nodes pools, L .sleepingPool = due ++ rest → (∀ n ∈ due, s.wakeAt n = now) →
      (∀ n ∈ rest, now < s.wakeAt n) → nodes.e = s.nodes.e →
      (s.withLists nodes pools).Lists (Function.update (Function.update L .sleepingPool rest)
        .runnablePool (L .runnablePool ++ due)) → Q 0 (s.withLists nodes pools)) :
    wp (tcbPoolWakeup now) Q (fun _ _ => False) s := by
  obtain ⟨due, rest, hL, hdue, hrest⟩ := h.due_split hnow
  have hlen : due.length < (s.pools .sleepingPool).size + 1 := by
    rw [h.lists.size_eq, hL, List.length_append]
    omega
  rw [tcbPoolWakeup, wp_bind, wp_gets]
  refine wp_imp (wakeupLoop_spec due h.lists hL (fun n hn => h.sleeper (hL ▸ hn)) hdue
    (fun n hn => (hrest n (List.mem_of_head? hn)).ne') hlen) fun r s' hpost => ?_
  obtain ⟨rfl, nodes, pools, rfl, he, hlists⟩ := hpost
  exact hq due rest nodes pools hL hdue hrest he hlists

/-- The clock goes on by one. -/
lemma PoolInv.tick (h : PoolInv D X s L) :
    PoolInv { D with clock := D.clock + 1 } X { s with numTicks := s.numTicks + 1 } L where
  lists := ⟨h.lists.isLl, h.lists.apart⟩
  rows tid n hn := by
    obtain ⟨c, t, hr, hrest⟩ := h.rows tid n hn
    exact ⟨c, t, ⟨hr.node, hr.elem, hr.tcb⟩, hrest⟩
  linked := h.linked
  fresh := h.fresh
  pos := h.pos
  idle := h.idle
  idleTid := h.idleTid
  null := h.null
  asleep := h.asleep
  sorted := h.sorted
  clock := congrArg (· + 1) h.clock
  bound_le := h.bound_le.trans (Nat.le_succ _)
  ahead := h.ahead
  booked tid k w he := by
    obtain ⟨n, c, t, hr, hrest⟩ := h.booked tid k w he
    exact ⟨n, c, t, ⟨hr.node, hr.elem, hr.tcb⟩, hrest⟩

/-- **A timer tick**: the threads that are due are on the runnable pool after it, the other
sleeping ones still sleep, and all of those are to be woken up later. -/
theorem cTimerHandler_woken (h : PoolInv D X s L) (hD : D.bound = D.clock)
    {entries : ℤ → Pool → ℕ → Prop}
    (hentries : ∀ tid k w, entries tid k w → ∃ n c t, s.Row tid n c t ∧ t.tWakeup = w ∧
      n ∈ L .sleepingPool ∧ k = if w = D.clock + 1 then .runnablePool else .sleepingPool)
    (hup : ∀ due rest, L .sleepingPool = due ++ rest →
      (∀ n ∈ due, s.wakeAt n = s.numTicks + 1) →
      s.NextUp ((X ∪ {c | ∃ n ∈ due, s.nodes.e n = some c}) \ Y) (L .runnablePool ++ due))
    (oldEsp : ℕ) :
    wlp (cTimerHandler oldEsp)
      (fun _ s' => s'.Pooled ⟨D.clock + 1, D.clock + 1, entries⟩ Y) s := by
  rw [wlp, cTimerHandler, wp_bind, wp_gets, wp_bind, wp_require]
  refine ⟨fun _ => ?_, fun _ => trivial⟩
  rw [wp_bind, wp_modify, wp_bind]
  have htick := h.tick
  have hnow : s.numTicks + 1 ≤ D.bound + 1 := by rw [h.clock, hD]
  refine wlp_of_wp (wp_wakeup htick hnow fun due rest nodes pools hL hdue hrest he hlists => ?_)
  have hwoken := htick.woken (E := ⟨D.clock + 1, D.clock + 1, entries⟩) hL he hlists rfl le_rfl
    (fun n hn => ?_) fun tid k w hk => ?_
  · refine wlp_contextSwitch hwoken ?_ oldEsp fun hneg => absurd hneg (by decide)
    intro w hw
    obtain ⟨n, hn, hl⟩ := hup due rest hL hdue w hw
    refine ⟨n, he ▸ hn, ?_⟩
    rw [Function.update_self]
    exact hl
  · have hlate := hrest n hn
    rwa [h.clock] at hlate
  · obtain ⟨n, c, t, hr, hw, hn, hpool⟩ := hentries tid k w hk
    refine ⟨n, c, t, ⟨hr.node, hr.elem, hr.tcb⟩, ?_, hw⟩
    rw [hL] at hn
    have hwake : s.wakeAt n = w := hr.wakeAt.trans hw
    rw [hpool]
    split_ifs with hdue'
    · -- a thread that is due is not in the rest
      rw [Function.update_self]
      refine List.mem_append_right _ ((List.mem_append.mp hn).resolve_right fun hin => ?_)
      have hlate := hrest n hin
      change s.numTicks + 1 < s.wakeAt n at hlate
      rw [hwake, h.clock] at hlate
      exact hlate.ne' hdue'
    · rw [Function.update_of_ne (by decide), Function.update_self]
      refine (List.mem_append.mp hn).resolve_left fun hin => hdue' ?_
      have hnow' : s.wakeAt n = s.numTicks + 1 := hdue n hin
      rw [hwake, h.clock] at hnow'
      exact hnow'

end ShrekOS
