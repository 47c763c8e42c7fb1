/-
The order in which `tcb_pool_get_next_tcb` of `kern/scheduler/tcb_pool.c` dispatches the
threads of the runnable pool.

* `RoundRobin`, `rrStep`: the pools as lists of tids, and the steps of the running thread, of
  the timer and of `make_runnable`; a count of the dispatches since each thread entered the
  runnable pool;
* `Fair`: no thread is dispatched twice while another one waits for its turn in the pool;
* `SkipsNobody`, `Lawful`: **the condition**: the running thread is at the head of the pool
  when it is rotated, or the thread at the head has not been passed yet;
* `fair_of_lawful`: **a lawful run is fair**, and `not_fair_of_unlawful`: a step that is not
  lawful is followed by an unfair dispatch.

A thread is blocked or in the runnable pool, and `make_runnable` is called for blocked ones.
-/
import ShrekOS.Lib.Runs

namespace ShrekOS

open Kit

/-- The runnable pool from its head on, the other pools, and the current thread: none for the
idle thread, and after a thread has become a zombie. For each thread in the pool, how often
every thread was dispatched since it entered. -/
structure RoundRobin where
  runnable : List ℕ
  waiting : List ℕ
  sleeping : List ℕ
  current : Option ℕ
  dispatched : ℕ → ℕ → ℕ

/-- `ll_rotate`. -/
def rotateOnce : List ℕ → List ℕ
  | [] => []
  | t :: l => l ++ [t]

namespace RoundRobin

/-- A thread enters the runnable pool at its tail. -/
def enter (s : RoundRobin) (t : ℕ) : RoundRobin :=
  { s with
    runnable := s.runnable ++ [t]
    dispatched := Function.update s.dispatched t fun _ => 0 }

/-- `tcb_pool_make_runnable`, of a blocked thread. -/
def wake (s : RoundRobin) (t : ℕ) : RoundRobin :=
  { s with waiting := s.waiting.erase t, sleeping := s.sleeping.erase t }.enter t

/-- `scheduler_set_running_tcb`. -/
def dispatch (s : RoundRobin) (t : ℕ) : RoundRobin :=
  { s with
    current := some t
    dispatched := fun w => Function.update (s.dispatched w) t (s.dispatched w t + 1) }

/-- `context_switch` to the next thread: the pool is rotated, and its head dispatched. -/
def contextSwitch (s : RoundRobin) : RoundRobin :=
  match rotateOnce s.runnable with
  | [] => { s with current := none }
  | t :: l => { s with runnable := t :: l }.dispatch t

end RoundRobin

/-- The timer, with the threads whose time has come, and the calls of the running thread;
`make_runnable` may be called by an interrupt as well. -/
inductive RrOp where
  | tick (woken : List ℕ)
  | yield
  | deschedule
  | sleep
  | vanish
  | makeRunnable (t : ℕ)

/-- The steps. A thread that blocks is taken off the runnable pool, and stays the current one
until the next context switch. -/
def rrStep (s : RoundRobin) : RrOp → Option RoundRobin
  | .tick woken =>
      if woken.Nodup ∧ woken ⊆ s.sleeping then some (woken.foldl .wake s).contextSwitch else none
  | .yield => some s.contextSwitch
  | .deschedule =>
      match s.current with
      | some c =>
          if c ∈ s.runnable then
            some { s with runnable := s.runnable.erase c, waiting := s.waiting ++ [c] }
          else none
      | none => none
  | .sleep =>
      match s.current with
      | some c =>
          if c ∈ s.runnable then
            some { s with runnable := s.runnable.erase c, sleeping := c :: s.sleeping }
          else none
      | none => none
  | .vanish =>
      match s.current with
      | some c =>
          if c ∈ s.runnable then
            some { s with runnable := s.runnable.erase c, current := none }
          else none
      | none => none
  | .makeRunnable t => if t ∈ s.waiting ∨ t ∈ s.sleeping then some (s.wake t) else none

/-- The runs, from any pools; the dispatches are counted from the start. -/
def rrMachine : Machine RoundRobin RrOp where
  init s := (s.runnable ++ s.waiting ++ s.sleeping).Nodup ∧ ∀ w t, s.dispatched w t = 0
  step s op s' := rrStep s op = some s'

/-- **Fairness**: a thread of the pool that was not dispatched since it entered has seen no
other one dispatched twice. -/
def RoundRobin.Fair (s : RoundRobin) : Prop :=
  ∀ w ∈ s.runnable, s.dispatched w w = 0 → ∀ t, s.dispatched w t ≤ 1

/-- A rotation skips the head of the pool if that is not the current thread; it has not been
dispatched, and then none of the others may have been. -/
def RoundRobin.SkipsNobody (s : RoundRobin) : Prop :=
  ∀ y ∈ s.runnable.head?, s.current ≠ some y → s.dispatched y y = 0 →
    ∀ t ∈ s.runnable.tail, s.dispatched y t = 0

/-- **The condition**: no context switch skips a thread that was passed already. -/
def Lawful (s : RoundRobin) : RrOp → Prop
  | .tick woken => (woken.foldl .wake s).SkipsNobody
  | .yield => s.SkipsNobody
  | _ => True

instance (s : RoundRobin) : Decidable s.SkipsNobody :=
  inferInstanceAs (Decidable (∀ y ∈ s.runnable.head?, s.current ≠ some y → s.dispatched y y = 0 →
    ∀ t ∈ s.runnable.tail, s.dispatched y t = 0))

instance (s : RoundRobin) (op : RrOp) : Decidable (Lawful s op) :=
  match op with
  | .tick woken => inferInstanceAs (Decidable (woken.foldl .wake s).SkipsNobody)
  | .yield => inferInstanceAs (Decidable s.SkipsNobody)
  | .deschedule | .sleep | .vanish | .makeRunnable _ => inferInstanceAs (Decidable True)

/-! ### The invariant -/

/-- **The invariant of a lawful run**: whoever is ahead of a thread that has its turn to come
was not dispatched since that one entered, except for the current thread at the head. -/
structure RrInv (s : RoundRobin) : Prop where
  runnable : s.runnable.Nodup
  waiting : s.waiting.Nodup
  sleeping : s.sleeping.Nodup
  blocked : ∀ t ∈ s.runnable, t ∉ s.waiting ∧ t ∉ s.sleeping
  order : ∀ A w B, s.runnable = A ++ w :: B → s.dispatched w w = 0 →
    ∀ t ∈ A, s.dispatched w t ≠ 0 → s.current = some t ∧ A.head? = some t
  fair : s.Fair
  /-- a current thread that entered the pool again has seen no dispatch -/
  current : ∀ c, s.current = some c → c ∈ s.runnable → s.dispatched c c = 0 →
    ∀ t, s.dispatched c t = 0

variable {s s' : RoundRobin} {op : RrOp} {t w y c : ℕ} {l rest : List ℕ}

/-- A thread ahead of another one in a longer list is ahead of it in the list, or the other one
is the last. -/
lemma append_singleton_split {A B : List ℕ} (h : l ++ [t] = A ++ w :: B) :
    (w = t ∧ A = l ∧ B = []) ∨ ∃ B', B = B' ++ [t] ∧ l = A ++ w :: B' := by
  rcases List.eq_nil_or_concat B with rfl | ⟨B', x, rfl⟩
  · obtain ⟨hl, ht⟩ := List.append_inj' h rfl
    exact .inl ⟨(List.singleton_inj.mp ht).symm, hl.symm, rfl⟩
  · rw [List.concat_eq_append, ← List.cons_append, ← List.append_assoc] at h
    obtain ⟨hl, ht⟩ := List.append_inj' h rfl
    exact .inr ⟨B', by rw [List.concat_eq_append, List.singleton_inj.mp ht], hl⟩

/-- Those ahead of a thread in a part of a list are ahead of it in the list. -/
lemma ahead_of_sublist {A B : List ℕ} (h : (A ++ w :: B).Sublist l) :
    ∃ A' B', l = A' ++ w :: B' ∧ A ⊆ A' := by
  obtain ⟨r₁, r₂, rfl, hA, hB⟩ := List.append_sublist_iff.mp h
  obtain ⟨r₃, r₄, rfl, hw, -⟩ := List.cons_sublist_iff.mp hB
  obtain ⟨x, z, rfl⟩ := List.append_of_mem hw
  refine ⟨r₁ ++ x, z ++ r₄, by simp, fun a ha => ?_⟩
  exact List.mem_append_left x (hA.subset ha)

/-- **A blocked thread enters the pool**: it is behind all the others, and its count is clear. -/
lemma RrInv.wake (h : RrInv s) (ht : t ∈ s.waiting ∨ t ∈ s.sleeping) : RrInv (s.wake t) := by
  have hnot : t ∉ s.runnable := by
    intro hmem
    obtain ⟨hw, hs⟩ := h.blocked t hmem
    exact ht.elim hw hs
  have hother : ∀ w, w ≠ t → (s.wake t).dispatched w = s.dispatched w := fun w hw =>
    Function.update_of_ne hw ..
  have hzero : (s.wake t).dispatched t = fun _ => 0 := Function.update_self ..
  have hmem : ∀ w, w ∈ (s.wake t).runnable ↔ w ∈ s.runnable ∨ w = t := by
    intro w
    change w ∈ s.runnable ++ [t] ↔ _
    rw [List.mem_append, List.mem_singleton]
  refine ⟨?_, h.waiting.erase t, h.sleeping.erase t, fun w hw => ?_, fun A w B hs hw u hu hne => ?_,
    fun w hw hzw u => ?_, fun c hc hcmem hcc u => ?_⟩
  · refine List.nodup_append.mpr ⟨h.runnable, List.nodup_singleton t, ?_⟩
    rintro a ha b hb rfl
    exact hnot (List.mem_singleton.mp hb ▸ ha)
  · rcases (hmem w).mp hw with hw | rfl
    · obtain ⟨hwait, hsleep⟩ := h.blocked w hw
      exact ⟨fun hin => hwait (List.mem_of_mem_erase hin),
        fun hin => hsleep (List.mem_of_mem_erase hin)⟩
    · exact ⟨h.waiting.not_mem_erase, h.sleeping.not_mem_erase⟩
  · rcases append_singleton_split hs with ⟨rfl, -, -⟩ | ⟨B', -, hold⟩
    · rw [hzero] at hne
      exact absurd rfl hne
    · have hwt : w ≠ t := by
        rintro rfl
        exact hnot (by rw [hold]; simp)
      rw [hother w hwt] at hw hne
      exact h.order A w B' hold hw u hu hne
  · by_cases hwt : w = t
    · subst hwt
      rw [hzero]
      exact zero_le_one
    · rw [hother w hwt] at hzw ⊢
      exact h.fair w (((hmem w).mp hw).resolve_right hwt) hzw u
  · by_cases hct : c = t
    · subst hct
      rw [hzero]
    · rw [hother c hct] at hcc ⊢
      exact h.current c hc (((hmem c).mp hcmem).resolve_right hct) hcc u

/-- Sleeping threads are woken one after the other. -/
lemma RrInv.wakeAll (h : RrInv s) {woken : List ℕ} (hnodup : woken.Nodup)
    (hsub : woken ⊆ s.sleeping) : RrInv (woken.foldl .wake s) := by
  induction woken generalizing s with
  | nil => exact h
  | cons t woken ih =>
      obtain ⟨hnot, hrest⟩ := List.nodup_cons.mp hnodup
      refine ih (h.wake (.inr (hsub (.head _)))) hrest fun u hu => ?_
      have hne : u ≠ t := ne_of_mem_of_not_mem hu hnot
      exact (List.mem_erase_of_ne hne).mpr (hsub (.tail t hu))

/-- **The current thread is taken off the pool.** -/
lemma RrInv.leave (h : RrInv s) (hruns : s'.runnable = s.runnable.erase c)
    (hd : s'.dispatched = s.dispatched) (hc : s.current = some c) (hwaiting : s'.waiting.Nodup)
    (hsleeping : s'.sleeping.Nodup)
    (hblocked : ∀ t ∈ s'.runnable, t ∉ s'.waiting ∧ t ∉ s'.sleeping)
    (hcur : ∀ c', s'.current = some c' → c' = c) : RrInv s' := by
  have hnot : c ∉ s'.runnable := by
    rw [hruns]
    exact h.runnable.not_mem_erase
  refine ⟨?_, hwaiting, hsleeping, hblocked, fun A w B hs hw u hu hne => ?_,
    fun w hw hzw u => ?_, fun c' hc' hmem => ?_⟩
  · rw [hruns]
    exact h.runnable.erase c
  · -- whoever is ahead of a thread was ahead of it before, and is not the current thread
    rw [hd] at hw hne
    rw [hruns] at hs hnot
    obtain ⟨A', B', hold, hsub⟩ := ahead_of_sublist (hs ▸ List.erase_sublist)
    obtain ⟨hcu, -⟩ := h.order A' w B' hold hw u (hsub hu) hne
    obtain rfl := Option.some.inj (hc.symm.trans hcu)
    exact absurd (hs ▸ List.mem_append_left _ hu) hnot
  · rw [hruns] at hw
    rw [hd] at hzw ⊢
    exact h.fair w (List.mem_of_mem_erase hw) hzw u
  · exact absurd (hcur c' hc' ▸ hmem) hnot

/-- The thread at the head of a pool that is rotated, unless it is the only one, has seen no
dispatch of the others if its turn is to come. -/
lemma RrInv.head_unpassed (h : RrInv s) (hskip : s.SkipsNobody) (hs : s.runnable = y :: rest)
    (hy : s.dispatched y y = 0) : ∀ t ∈ rest, s.dispatched y t = 0 := by
  intro t ht
  by_cases hcur : s.current = some y
  · exact h.current y hcur (by rw [hs]; exact .head rest) hy t
  · refine hskip y (by rw [hs]; rfl) hcur hy t ?_
    rw [hs]
    exact ht

/-- A thread behind the head has not seen those between dispatched. -/
lemma RrInv.between (h : RrInv s) (hs : s.runnable = y :: rest) {A B : List ℕ}
    (hrest : rest = A ++ w :: B) (hw : s.dispatched w w = 0) : ∀ t ∈ A, s.dispatched w t = 0 := by
  intro t ht
  by_contra hne
  obtain ⟨-, hhead⟩ := h.order (y :: A) w B (by rw [hs, hrest]; rfl) hw t (.tail y ht) hne
  obtain rfl := Option.some.inj hhead
  have hnodup := h.runnable
  rw [hs, hrest] at hnodup
  exact (List.nodup_cons.mp hnodup).1 (List.mem_append_left _ ht)

lemma RoundRobin.contextSwitch_nil (hs : s.runnable = []) :
    s.contextSwitch = { s with current := none } := by
  rw [RoundRobin.contextSwitch, hs]
  rfl

lemma RoundRobin.contextSwitch_eq (hs : rotateOnce s.runnable = t :: l) :
    s.contextSwitch = { s with runnable := t :: l }.dispatch t := by
  rw [RoundRobin.contextSwitch, hs]

lemma RoundRobin.contextSwitch_single (hs : s.runnable = [y]) :
    s.contextSwitch = { s with runnable := [y] }.dispatch y :=
  RoundRobin.contextSwitch_eq (by rw [hs]; rfl)

lemma RoundRobin.contextSwitch_cons {d : ℕ} {r : List ℕ} (hs : s.runnable = y :: d :: r) :
    s.contextSwitch = { s with runnable := d :: (r ++ [y]) }.dispatch d :=
  RoundRobin.contextSwitch_eq (by rw [hs]; rfl)

/-- Dispatches of one thread are counted, for everybody. -/
lemma RoundRobin.dispatched_dispatch {d u : ℕ} :
    (s.dispatch d).dispatched w u = s.dispatched w u + if u = d then 1 else 0 := by
  change Function.update (s.dispatched w) d (s.dispatched w d + 1) u = _
  by_cases hu : u = d
  · subst hu
    rw [Function.update_self, if_pos rfl]
  · rw [Function.update_of_ne hu, if_neg hu, add_zero]

/-- A thread that is dispatched has had its turn. -/
lemma RoundRobin.dispatched_self_ne (s : RoundRobin) (d : ℕ) :
    (s.dispatch d).dispatched d d ≠ 0 := by
  rw [RoundRobin.dispatched_dispatch, if_pos rfl]
  exact Nat.succ_ne_zero _

/-- **A context switch that skips nobody keeps the invariant.** -/
theorem RrInv.contextSwitch (h : RrInv s) (hskip : s.SkipsNobody) : RrInv s.contextSwitch := by
  match hs : s.runnable with
  | [] =>
      rw [RoundRobin.contextSwitch_nil hs]
      refine ⟨h.runnable, h.waiting, h.sleeping, h.blocked, fun A w B hsplit => ?_, h.fair, nofun⟩
      rw [hs] at hsplit
      simp at hsplit
  | [y] =>
      rw [RoundRobin.contextSwitch_single hs]
      have hblocked := h.blocked
      rw [hs] at hblocked
      refine ⟨List.nodup_singleton y, h.waiting, h.sleeping, hblocked,
        fun A w B hsplit hw u hu => ?_, fun w hw hzero => ?_, fun c hc _ hzero => ?_⟩
      · have hlen : [y].length = (A ++ w :: B).length := congrArg List.length hsplit
        rw [List.length_append, List.length_cons, List.length_cons, List.length_nil] at hlen
        obtain rfl : A = [] := List.length_eq_zero_iff.mp (by omega)
        cases hu
      · obtain rfl := List.mem_singleton.mp hw
        exact absurd hzero (RoundRobin.dispatched_self_ne _ w)
      · obtain rfl := Option.some.inj hc
        exact absurd hzero (RoundRobin.dispatched_self_ne _ y)
  | y :: d :: r =>
      have hnodup := h.runnable
      rw [hs] at hnodup
      have hperm : (d :: (r ++ [y])).Perm s.runnable := by
        rw [hs]
        exact (List.perm_append_singleton y (d :: r))
      rw [RoundRobin.contextSwitch_cons hs]
      -- the threads behind the one that is dispatched have not seen a dispatch of it
      have hbehind : ∀ A w B, r ++ [y] = A ++ w :: B → s.dispatched w w = 0 →
          ∀ t ∈ d :: A, s.dispatched w t = 0 := by
        intro A w B hsplit hw t ht
        rcases append_singleton_split hsplit with ⟨rfl, rfl, -⟩ | ⟨B', -, hr⟩
        · exact h.head_unpassed hskip hs hw t ht
        · exact h.between hs (A := d :: A) (B := B') (by rw [hr]; rfl) hw t ht
      have hcount : ∀ w u, ({ s with runnable := d :: (r ++ [y]) }.dispatch d).dispatched w u =
          s.dispatched w u + if u = d then 1 else 0 := fun w u =>
        RoundRobin.dispatched_dispatch
      refine ⟨hperm.nodup_iff.mpr h.runnable, h.waiting, h.sleeping,
        fun t ht => h.blocked t (hperm.mem_iff.mp ht), fun A w B hsplit hw u hu hne => ?_,
        fun w hw hzero u => ?_, fun c hc _ hzero => ?_⟩
      · cases A with
        | nil => cases hu
        | cons a A =>
            have hsplit' : d :: (r ++ [y]) = a :: (A ++ w :: B) := hsplit
            obtain ⟨rfl, hrest⟩ := List.cons.inj hsplit'
            rw [hcount] at hw hne
            have hzero : s.dispatched w w = 0 := by omega
            have hu0 := hbehind A w B hrest hzero u hu
            rw [hu0] at hne
            have hud : u = d := by
              by_contra hud
              rw [if_neg hud] at hne
              exact hne rfl
            exact ⟨by rw [hud]; rfl, by rw [hud]; rfl⟩
      · rw [hcount] at hzero ⊢
        have hw0 : s.dispatched w w = 0 := by omega
        have hwd : w ≠ d := by
          rintro rfl
          rw [if_pos rfl] at hzero
          omega
        have hfair := h.fair w (hperm.mem_iff.mp hw) hw0 u
        by_cases hud : u = d
        · -- the thread is behind the one that is dispatched
          subst hud
          obtain ⟨A, B, hsplit⟩ := List.append_of_mem (List.mem_of_ne_of_mem hwd hw)
          rw [hbehind A w B hsplit hw0 u (.head A), if_pos rfl]
        · rw [if_neg hud]
          exact hfair
      · obtain rfl := Option.some.inj hc
        exact absurd hzero (RoundRobin.dispatched_self_ne _ d)

/-- **A lawful step keeps the invariant.** -/
theorem RrInv.step (h : RrInv s) (hop : Lawful s op) (hs : rrStep s op = some s') : RrInv s' := by
  have herase : ∀ c t, t ∈ s.runnable.erase c → t ∈ s.runnable ∧ t ≠ c := fun c t ht =>
    ⟨List.mem_of_mem_erase ht, fun heq => h.runnable.not_mem_erase (heq ▸ ht)⟩
  cases op with
  | tick woken =>
      obtain ⟨⟨hnodup, hsub⟩, rfl⟩ := by simpa only [rrStep, Option.ite_none_right_eq_some,
        Option.some.injEq] using hs
      exact (h.wakeAll hnodup hsub).contextSwitch hop
  | yield =>
      cases hs
      exact h.contextSwitch hop
  | deschedule =>
      cases hc : s.current with
      | none => simp [rrStep, hc] at hs
      | some c =>
          obtain ⟨hmem, rfl⟩ := by simpa [rrStep, hc] using hs
          obtain ⟨hnw, -⟩ := h.blocked c hmem
          refine h.leave rfl rfl hc ?_ h.sleeping (fun t ht => ?_) fun c' hc' => ?_
          · refine List.nodup_append.mpr ⟨h.waiting, List.nodup_singleton c, ?_⟩
            rintro a ha b hb rfl
            exact hnw (List.mem_singleton.mp hb ▸ ha)
          · obtain ⟨hold, hne⟩ := herase c t ht
            obtain ⟨hw, hsl⟩ := h.blocked t hold
            exact ⟨fun hin => (List.mem_append.mp hin).elim hw fun hin =>
              hne (List.mem_singleton.mp hin), hsl⟩
          · exact (Option.some.inj hc').symm
  | sleep =>
      cases hc : s.current with
      | none => simp [rrStep, hc] at hs
      | some c =>
          obtain ⟨hmem, rfl⟩ := by simpa [rrStep, hc] using hs
          obtain ⟨-, hns⟩ := h.blocked c hmem
          refine h.leave rfl rfl hc h.waiting (List.nodup_cons.mpr ⟨hns, h.sleeping⟩)
            (fun t ht => ?_) fun c' hc' => ?_
          · obtain ⟨hold, hne⟩ := herase c t ht
            obtain ⟨hw, hsl⟩ := h.blocked t hold
            exact ⟨hw, fun hin => (List.mem_cons.mp hin).elim hne hsl⟩
          · exact (Option.some.inj hc').symm
  | vanish =>
      cases hc : s.current with
      | none => simp [rrStep, hc] at hs
      | some c =>
          obtain ⟨hmem, rfl⟩ := by simpa [rrStep, hc] using hs
          refine h.leave rfl rfl hc h.waiting h.sleeping (fun t ht => ?_) nofun
          exact h.blocked t (herase c t ht).1
  | makeRunnable t =>
      obtain ⟨ht, rfl⟩ := by simpa only [rrStep, Option.ite_none_right_eq_some,
        Option.some.injEq] using hs
      exact h.wake ht

/-- **A lawful run is fair**: in every state of it, a thread of the runnable pool that was not
dispatched since it entered has seen no other thread dispatched twice. -/
theorem fair_of_lawful (h : rrMachine.Reach Lawful s) : s.Fair := by
  have hinv : RrInv s := by
    refine Machine.Reach.inv (fun s hinit => ?_) (fun s op s' hinv hop hs => hinv.step hop hs) h
    obtain ⟨hnodup, hzero⟩ := hinit
    obtain ⟨hfirst, hsleeping, hapart⟩ := List.nodup_append.mp hnodup
    obtain ⟨hrunnable, hwaiting, hapart'⟩ := List.nodup_append.mp hfirst
    refine ⟨hrunnable, hwaiting, hsleeping, fun t ht => ⟨fun hw => ?_, fun hsl => ?_⟩,
      fun A w B _ _ u _ hne => absurd (hzero w u) hne, fun w _ _ u => ?_,
      fun c _ _ _ u => hzero c u⟩
    · exact hapart' t ht t hw rfl
    · exact hapart t (List.mem_append_left _ ht) t hsl rfl
    · rw [hzero]
      exact zero_le_one
  exact hinv.fair

/-! ### Steps that are not lawful -/

/-- A thread is passed when another one is dispatched. -/
lemma RoundRobin.not_fair_of_dispatch (hy : y ∈ s.runnable) (hturn : s.dispatched y y = 0)
    (hpassed : s.dispatched y t ≠ 0) : ¬ (s.dispatch t).Fair := by
  have hyt : y ≠ t := by
    rintro rfl
    exact hpassed hturn
  intro hfair
  have hle := hfair y hy (by rw [RoundRobin.dispatched_dispatch, if_neg hyt, hturn]) t
  rw [RoundRobin.dispatched_dispatch, if_pos rfl] at hle
  omega

/-- A thread that is behind one that has passed it, or at the head of the pool and about to be
rotated, is passed again after some yields. -/
lemma not_fair_of_behind {B : List ℕ} : ∀ (A : List ℕ) {s : RoundRobin} {c : ℕ},
    s.runnable = c :: (A ++ t :: B) → s.runnable.Nodup → y ∈ B ++ [c] → s.dispatched y y = 0 →
    s.dispatched y t ≠ 0 → ∃ n s',
      Machine.replay rrStep s.contextSwitch (List.replicate n .yield) = some s' ∧ ¬ s'.Fair := by
  intro A
  induction A generalizing B with
  | nil =>
      intro s c hs _ hy hturn hpassed
      refine ⟨0, s.contextSwitch, rfl, ?_⟩
      rw [RoundRobin.contextSwitch_cons hs]
      exact RoundRobin.not_fair_of_dispatch (y := y) (.tail t hy) hturn hpassed
  | cons d A ih =>
      intro s c hs hnodup hy hturn hpassed
      have hswitch := RoundRobin.contextSwitch_cons hs
      have hrunnable : s.contextSwitch.runnable = d :: (A ++ t :: (B ++ [c])) := by
        rw [hswitch]
        simp [RoundRobin.dispatch]
      have hperm : s.contextSwitch.runnable.Perm s.runnable := by
        rw [hrunnable, hs]
        simpa using List.perm_append_singleton c (d :: (A ++ t :: B))
      have hnodup' : s.contextSwitch.runnable.Nodup := hperm.nodup_iff.mpr hnodup
      have hyd : y ≠ d := by
        rintro rfl
        rw [hrunnable] at hnodup'
        exact (List.nodup_cons.mp hnodup').1 (List.mem_append_right _ (.tail t hy))
      have hcount : ∀ u, s.contextSwitch.dispatched y u =
          s.dispatched y u + if u = d then 1 else 0 := by
        intro u
        rw [hswitch]
        exact RoundRobin.dispatched_dispatch
      obtain ⟨n, s', hrun, hunfair⟩ := ih hrunnable hnodup' (List.mem_append_left _ hy)
        (by rw [hcount, if_neg hyd, hturn]) (by rw [hcount]; omega)
      exact ⟨n + 1, s', hrun, hunfair⟩

/-- **A context switch that skips a thread which was passed** is followed, after some yields, by
another dispatch of the thread that has passed it. -/
theorem not_fair_of_skip (h : RrInv s) (hskip : ¬ s.SkipsNobody) :
    ∃ n s', Machine.replay rrStep s.contextSwitch (List.replicate n .yield) = some s' ∧
      ¬ s'.Fair := by
  unfold RoundRobin.SkipsNobody at hskip
  push Not at hskip
  obtain ⟨y, hy, -, hturn, t, ht, hpassed⟩ := hskip
  obtain ⟨l, hs⟩ : ∃ l, s.runnable = y :: l := List.head?_eq_some_iff.mp hy
  rw [hs, List.tail_cons] at ht
  obtain ⟨A, B, rfl⟩ := List.append_of_mem ht
  exact not_fair_of_behind A hs h.runnable (List.mem_append_right B (.head _)) hturn hpassed

/-- **A step that is not lawful** is followed by an unfair dispatch. -/
theorem not_fair_of_unlawful (h : RrInv s) (hop : ¬ Lawful s op) (hs : rrStep s op = some s') :
    ∃ n s₁, Machine.replay rrStep s' (List.replicate n .yield) = some s₁ ∧ ¬ s₁.Fair := by
  cases op with
  | tick woken =>
      obtain ⟨⟨hnodup, hsub⟩, rfl⟩ := by simpa only [rrStep, Option.ite_none_right_eq_some,
        Option.some.injEq] using hs
      exact not_fair_of_skip (h.wakeAll hnodup hsub) hop
  | yield =>
      cases hs
      exact not_fair_of_skip h hop
  | deschedule | sleep | vanish | makeRunnable t => exact absurd trivial hop

/-! ### Runs -/

/-- Four threads, of which the first one runs. -/
def fourThreads : RoundRobin where
  runnable := [1, 2, 3, 4]
  waiting := []
  sleeping := []
  current := some 1
  dispatched := fun _ _ => 0

/-- Thread 1 blocks, and the switch skips thread 2, which nobody has passed; 3, 4 and 2 follow. -/
def lawfulRun : List RrOp := [.deschedule, .yield, .yield, .yield]

/-- Threads 1 and 4 block, so that thread 2 is skipped twice, and thread 3 runs again. -/
def skippedRun : List RrOp := [.deschedule, .yield, .yield, .deschedule, .yield]

lemma fourThreads_init : rrMachine.init fourThreads := ⟨by decide, fun _ _ => rfl⟩

/-- A lawful run. -/
theorem fair_of_lawful_lawfulRun : ∃ s,
    Machine.replay (Machine.guarded Lawful rrStep) fourThreads lawfulRun = some s ∧
      s.runnable = [2, 3, 4] ∧ s.Fair := by
  have hrun : (Machine.replay (Machine.guarded Lawful rrStep) fourThreads lawfulRun).map
      RoundRobin.runnable = some [2, 3, 4] := by decide +kernel
  rw [Option.map_eq_some_iff] at hrun
  obtain ⟨s, hs, hrunnable⟩ := hrun
  refine ⟨s, hs, hrunnable, fair_of_lawful ?_⟩
  exact Machine.reach_of_guarded (fun _ _ _ h => h) lawfulRun (.init fourThreads_init) hs

/-- **An unfair run**: thread 3 is dispatched twice while thread 2 is in the pool and waits for
its turn. -/
theorem not_fair_skippedRun : ∃ s, rrMachine.Reachable s ∧ ¬ s.Fair := by
  have hrun : (Machine.replay rrStep fourThreads skippedRun).map
      (fun s => (s.runnable, s.dispatched 2 2, s.dispatched 2 3)) = some ([3, 2], 0, 2) := by
    decide +kernel
  rw [Option.map_eq_some_iff] at hrun
  obtain ⟨s, hs, heq⟩ := hrun
  obtain ⟨hrunnable, heq⟩ := Prod.mk.inj heq
  obtain ⟨hturn, hpassed⟩ := Prod.mk.inj heq
  refine ⟨s, ?_, fun hfair => ?_⟩
  · exact Machine.reach_of_replay (fun _ _ _ h => h) skippedRun (fun _ _ _ => trivial)
      (.init fourThreads_init) hs
  · have hle := hfair 2 (by rw [hrunnable]; decide) hturn 3
    omega

end ShrekOS
