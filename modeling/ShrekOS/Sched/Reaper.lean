/-
Zombies and the reaper: `tcb_pool_make_zombie` and the loop of `tcb_pool_reap` in
`kern/scheduler/tcb_pool.c`, step by step on one processor.

* `ReapState`: who runs, whether interrupts are enabled, the count and the queue of `zombies_sem`,
  the zombie pool, and how far each thread and the reaper have come;
* `reapNext`: a vanishing thread signals, leaves the runnable pool and enters the zombie
  pool, in a critical section that the signal breaks when it wakes up the reaper; the reaper
  waits in the loop of `sem_wait`, one access to `reject` or one call of the scheduler a step;
* `Covered`, `NoneForgotten`: the tokens cover the zombies, and none is left when the
  reaper is blocked;
* `noneForgotten_of_found`: **both hold in every run in which the reaper finds a zombie for
  each of its tokens, and no wakeup of it is lost**, and `not_noneForgotten_of_early`: a run in
  which it looks too early, and one in which the signal comes before its `xchng`.
-/
import ShrekOS.Lib.Runs

namespace ShrekOS

open Kit

/-- Who runs. -/
inductive Agent where
  | idle
  | reaper
  | thread (t : ℕ)
  deriving DecidableEq

/-- How far a thread has come with `scheduler_make_current_zombie_safe`. One that is signalling
has set the flag of the reaper and not made it runnable yet. -/
inductive VanishPc where
  | live
  | locked
  | signalling
  | signalled
  | unlinked
  | linked
  | gone
  deriving DecidableEq

/-- Where the reaper is in its loop: before `sem_wait`, in the loop of `sem_wait`, before
`ll_peek`, or with the zombie that it has found. -/
inductive ReaperPc where
  | wait
  | test
  | exchange
  | deschedule
  | yield
  | peek
  | found (t : ℕ)
  deriving DecidableEq

/-- The state of the vanishing threads and the reaper: whether the reaper is in the queue of the
semaphore, its flag `reject`, and whether its tcb is `WAITING`. -/
structure ReapState where
  interrupts : Bool
  cpu : Agent
  count : ℤ
  queued : Bool
  reject : Bool
  waiting : Bool
  zombiePool : List ℕ
  pc : ℕ → VanishPc
  reaper : ReaperPc

/-- The scheduler may pick the agent: it has to be on the runnable pool. -/
def ReapState.Runnable (s : ReapState) : Agent → Prop
  | .idle => True
  | .reaper => s.waiting = false
  | .thread t =>
      s.pc t = .live ∨ s.pc t = .locked ∨ s.pc t = .signalling ∨ s.pc t = .signalled

instance (s : ReapState) (a : Agent) : Decidable (s.Runnable a) := by
  cases a <;> unfold ReapState.Runnable <;> infer_instance

/-- The steps. A step that gives up the processor names who runs next; the `malloc` of
`queue_enq` may fail. -/
inductive ReapOp where
  | preempt (next : Agent)
  | lock
  | contend
  | signal
  | wake
  | unlink
  | link
  | unlock (next : Agent)
  | wait (enq : Bool)
  | test
  | exchange
  | deschedule
  | yield (next : Agent)
  | peek
  | remove

/-- The agent takes over the processor, with interrupts enabled. -/
def ReapState.switch (s : ReapState) (a : Agent) : Option ReapState :=
  if s.Runnable a then some { s with cpu := a, interrupts := true } else none

/-- The running thread goes on from one place to the next. -/
def ReapState.advance (s : ReapState) (src dst : VanishPc) (f : ℕ → ReapState → ReapState) :
    Option ReapState :=
  match s.cpu with
  | .thread t =>
      if s.pc t = src then some (f t { s with pc := Function.update s.pc t dst }) else none
  | _ => none

/-- The running agent is the reaper, at a place in its loop. -/
def ReapState.At (s : ReapState) (p : ReaperPc) : Prop := s.cpu = .reaper ∧ s.reaper = p

instance (s : ReapState) (p : ReaperPc) : Decidable (s.At p) :=
  inferInstanceAs (Decidable (_ ∧ _))

/-- `sem_signal(&(tp->zombies_sem))` wakes somebody up. -/
def ReapState.Wakes (s : ReapState) : Prop := s.count + 1 ≤ 0 ∧ s.queued = true

instance (s : ReapState) : Decidable s.Wakes := inferInstanceAs (Decidable (_ ∧ _))

/-- `sem_signal(&(tp->zombies_sem))`, up to `thr_make_runnable`: the head of the queue is the
reaper. -/
def ReapState.semSignal (s : ReapState) : ReapState :=
  if s.Wakes then { s with count := s.count + 1, queued := false, reject := true }
  else { s with count := s.count + 1 }

/-- `sem_wait(&(tp->zombies_sem))`, up to its loop. -/
def ReapState.semWait (s : ReapState) (enq : Bool) : ReapState :=
  if s.count - 1 < 0 then
    { s with count := s.count - 1, queued := enq, reject := false, reaper := .test }
  else { s with count := s.count - 1, reaper := .peek }

/-- The steps of `scheduler_make_current_zombie_safe` and of the loop of `tcb_pool_reap`. -/
def reapNext (s : ReapState) : ReapOp → Option ReapState
  -- a timer interrupt
  | .preempt a => if s.interrupts then s.switch a else none
  | .lock => s.advance .live .locked fun _ s => { s with interrupts := false }
  -- the mutex of the semaphore is taken: `mutex_lock` yields, which enables interrupts
  | .contend => s.advance .locked .locked fun _ s => { s with interrupts := true }
  | .signal =>
      s.advance .locked (if s.Wakes then .signalling else .signalled) fun _ s => s.semSignal
  -- `thr_make_runnable` takes and releases the scheduler lock, which enables interrupts
  | .wake =>
      s.advance .signalling .signalled fun _ s => { s with waiting := false, interrupts := true }
  | .unlink => s.advance .signalled .unlinked fun _ s => s
  | .link => s.advance .unlinked .linked fun t s => { s with zombiePool := s.zombiePool ++ [t] }
  | .unlock a => (s.advance .linked .gone fun _ s => s).bind fun s => s.switch a
  | .wait enq => if s.At .wait then some (s.semWait enq) else none
  | .test =>
      if s.At .test then some { s with reaper := if s.reject then .peek else .exchange } else none
  -- a flag that has been set since the test is written over
  | .exchange =>
      if s.At .exchange then
        some { s with reject := false, reaper := if s.reject then .test else .deschedule }
      else none
  | .deschedule =>
      if s.At .deschedule then some { s with waiting := true, reaper := .yield } else none
  | .yield a => if s.At .yield then { s with reaper := .test }.switch a else none
  | .peek =>
      if s.At .peek then
        match s.zombiePool with
        | [] => some { s with reaper := .wait }
        | t :: _ => some { s with reaper := .found t }
      else none
  | .remove =>
      match s.cpu, s.reaper with
      | .reaper, .found t => some { s with zombiePool := s.zombiePool.erase t, reaper := .wait }
      | _, _ => none

/-- Threads may vanish and the reaper has not waited yet. -/
def reapMachine : Machine ReapState ReapOp where
  init s := s.interrupts = true ∧ s.count = 0 ∧ s.queued = false ∧ s.waiting = false ∧
    s.zombiePool = [] ∧ (∀ t, s.pc t = .live) ∧ s.reaper = .wait
  step s a s' := reapNext s a = some s'

/-- The thread is in the middle of `tcb_pool_make_zombie`. -/
def ReapState.InMiddle (s : ReapState) (t : ℕ) : Prop :=
  s.pc t = .locked ∨ s.pc t = .signalling ∨ s.pc t = .signalled ∨ s.pc t = .unlinked

/-- The token that the reaper holds: in the loop of `sem_wait` it has one when its flag is set. -/
def ReapState.held (s : ReapState) : ℕ :=
  match s.reaper with
  | .peek | .found _ => 1
  | .wait => 0
  | .test | .exchange | .deschedule | .yield => if s.reject then 1 else 0

/-- The tokens of the semaphore and of the reaper cover the linked zombies. -/
def ReapState.Covered (s : ReapState) : Prop :=
  s.zombiePool.length ≤ s.count.toNat + s.held

/-- When the reaper is blocked and no thread is becoming a zombie, there is no zombie. -/
def ReapState.NoneForgotten (s : ReapState) : Prop :=
  s.waiting = true → (∀ t, ¬ s.InMiddle t) → s.zombiePool = []

/-- **The condition**: the reaper does not look for a zombie before one is linked, its place in
the queue is allocated, its flag is not set before its `xchng`, and it is not made runnable when
it is about to be descheduled with the flag set. -/
def Found (s : ReapState) : ReapOp → Prop
  | .peek => s.zombiePool ≠ []
  | .wait enq => s.count - 1 < 0 → enq = true
  | .signal => s.reaper ≠ .exchange
  | .wake => s.reaper = .deschedule → s.reject = false
  | _ => True

instance (s : ReapState) (a : ReapOp) : Decidable (Found s a) := by
  cases a <;> unfold Found <;> infer_instance

/-! ### Tokens and zombies -/

/-- The thread has signalled and is not linked yet. -/
def VanishPc.Owes : VanishPc → Prop
  | .signalling | .signalled | .unlinked => True
  | .live | .locked | .linked | .gone => False

/-- The reaper is in the loop of `sem_wait`. -/
def ReaperPc.Loops : ReaperPc → Prop
  | .test | .exchange | .deschedule | .yield => True
  | .wait | .peek | .found _ => False

/-- The threads that have signalled and are not linked yet. -/
def ReapState.Pending (s : ReapState) (m : Finset ℕ) : Prop := ∀ t, t ∈ m ↔ (s.pc t).Owes

/-- **Every token stands for one zombie**, linked or on its way; a reaper in its loop is in the
queue or has its flag set, and one whose flag is set will be made runnable if it is not. -/
structure ReapInv (s : ReapState) (m : Finset ℕ) : Prop where
  pending : s.Pending m
  tokens : s.zombiePool.length + m.card = s.count.toNat + s.held
  queue : s.count < 0 ↔ s.queued = true
  loops : s.queued = true → s.reaper.Loops ∧ s.reject = false
  flag : s.reaper.Loops → s.queued = false → s.reject = true
  bound : -1 ≤ s.count
  waits : s.waiting = true → s.reaper = .yield ∨ s.reaper = .test ∧ s.cpu ≠ .reaper
  exchange : s.reaper = .exchange → s.reject = false
  due : s.reject = true → s.reaper = .deschedule ∨ s.waiting = true → ∃ t, s.pc t = .signalling
  found : ∀ t, s.reaper = .found t → t ∈ s.zombiePool

variable {s s' : ReapState} {m : Finset ℕ} {t : ℕ}

/-- The reaper does not run while it waits. -/
lemma not_reaper_of_runnable {a : Agent} (h : s.Runnable a) (hw : s.waiting = true) :
    a ≠ .reaper := by
  rintro rfl
  change s.waiting = false at h
  rw [hw] at h
  cases h

/-- A switch changes none of it. -/
lemma ReapInv.switch (h : ReapInv s m) {a : Agent} (hs : s.switch a = some s') : ReapInv s' m := by
  unfold ReapState.switch at hs
  split_ifs at hs with hrun
  cases hs
  refine ⟨h.pending, h.tokens, h.queue, h.loops, h.flag, h.bound, fun hw => ?_, h.exchange, h.due,
    h.found⟩
  rcases h.waits hw with hy | ⟨ht, -⟩
  · exact .inl hy
  · exact .inr ⟨ht, not_reaper_of_runnable hrun hw⟩

/-- The running reaper is not descheduled, but at its yield. -/
lemma ReapInv.awake (h : ReapInv s m) {p : ReaperPc} (hat : s.At p) (hp : p ≠ .yield) :
    ¬ s.waiting = true := by
  intro hw
  rcases h.waits hw with hy | ⟨-, hcpu⟩
  · exact hp (hat.2.symm.trans hy)
  · exact hcpu hat.1

/-- The running thread goes on. -/
lemma advance_eq_some {src dst : VanishPc} {f : ℕ → ReapState → ReapState}
    (h : s.advance src dst f = some s') :
    ∃ t, s.cpu = .thread t ∧ s.pc t = src ∧
      s' = f t { s with pc := Function.update s.pc t dst } := by
  unfold ReapState.advance at h
  split at h
  · next t hcpu =>
    split_ifs at h with hpc
    exact ⟨t, hcpu, hpc, (Option.some.inj h).symm⟩
  · cases h

/-- Steps that do not change whether a thread is pending. -/
lemma ReapState.Pending.same (h : s.Pending m) {dst : VanishPc} (hsame : dst.Owes ↔ (s.pc t).Owes) :
    ({ s with pc := Function.update s.pc t dst } : ReapState).Pending m := by
  intro u
  rw [h u]
  by_cases hu : u = t
  · subst hu
    simp only [Function.update_self, hsame]
  · simp only [Function.update_of_ne hu]

lemma ReapState.Pending.insert (h : s.Pending m) {dst : VanishPc} (hpc : s.pc t = .locked)
    (hdst : dst.Owes) :
    ({ s with pc := Function.update s.pc t dst } : ReapState).Pending (Insert.insert t m) ∧
      t ∉ m := by
  have hnot : t ∉ m := by
    rw [h t, hpc]
    exact id
  refine ⟨fun u => ?_, hnot⟩
  rw [Finset.mem_insert, h u]
  by_cases hu : u = t
  · subst hu
    simp only [Function.update_self, true_or, true_iff]
    exact hdst
  · simp only [Function.update_of_ne hu, hu, false_or]

lemma ReapState.Pending.erase (h : s.Pending m) (hpc : s.pc t = .unlinked) :
    ({ s with pc := Function.update s.pc t .linked } : ReapState).Pending (m.erase t) ∧
      t ∈ m := by
  have hin : t ∈ m := by
    rw [h t, hpc]
    trivial
  refine ⟨fun u => ?_, hin⟩
  rw [Finset.mem_erase, h u]
  by_cases hu : u = t
  · subst hu
    simp only [ne_eq, not_true_eq_false, false_and, Function.update_self, false_iff]
    exact id
  · simp only [Function.update_of_ne hu, ne_eq, hu, not_false_eq_true, true_and]

/-- In its loop the reaper has a token when its flag is set. -/
lemma held_of_loops (h : s.reaper.Loops) : s.held = if s.reject then 1 else 0 := by
  unfold ReapState.held
  cases hr : s.reaper with
  | wait | peek | found _ =>
      rw [hr] at h
      exact h.elim
  | _ => rfl

/-- A signalling thread stays one when another place is written. -/
lemma exists_signalling {pc : ℕ → VanishPc} {dst : VanishPc} (hne : pc t ≠ .signalling)
    (h : ∃ u, pc u = .signalling) : ∃ u, Function.update pc t dst u = .signalling := by
  obtain ⟨u, hu⟩ := h
  refine ⟨u, ?_⟩
  rw [Function.update_of_ne, hu]
  rintro rfl
  exact hne hu

/-- A thread goes on that neither signals nor is linked. -/
lemma ReapInv.advance (h : ReapInv s m) {dst : VanishPc} (hsame : dst.Owes ↔ (s.pc t).Owes)
    (hne : s.pc t ≠ .signalling) (b : Bool) :
    ReapInv { s with pc := Function.update s.pc t dst, interrupts := b } m :=
  ⟨h.pending.same hsame, h.tokens, h.queue, h.loops, h.flag, h.bound, h.waits, h.exchange,
    fun hr hd => exists_signalling hne (h.due hr hd), h.found⟩

/-- **A thread signals**: the count goes up, or the reaper gets the token. -/
lemma ReapInv.signal (h : ReapInv s m) (hpc : s.pc t = .locked) (hout : s.reaper ≠ .exchange)
    {dst : VanishPc} (hdst : dst = if s.Wakes then .signalling else .signalled) :
    ∃ m', ReapInv ({ s with pc := Function.update s.pc t dst } : ReapState).semSignal m' := by
  have htokens := h.tokens
  have hbound := h.bound
  have hqueue := h.queue
  have hne : s.pc t ≠ .signalling := by
    rw [hpc]
    decide
  by_cases hwakes : s.Wakes
  · -- the reaper is in its loop, and leaves the queue
    obtain ⟨hpend, hnot⟩ :=
      h.pending.insert hpc (show VanishPc.signalling.Owes from trivial)
    have hw : ({ s with pc := Function.update s.pc t .signalling } : ReapState).Wakes := hwakes
    obtain ⟨hcount, hq⟩ := hwakes
    obtain ⟨hloops, hreject⟩ := h.loops hq
    have hheld : s.held = 0 := by
      rw [held_of_loops hloops, hreject]
      rfl
    have hgets : ∀ r : ReapState, r.reaper = s.reaper → r.reject = true → r.held = 1 := by
      intro r hr hrej
      rw [held_of_loops (hr ▸ hloops), hrej]
      rfl
    rw [hdst, if_pos ⟨hcount, hq⟩, ReapState.semSignal, if_pos hw]
    refine ⟨insert t m, hpend, ?_, ?_, nofun, fun _ _ => rfl, ?_, h.waits,
      fun hex => absurd hex hout, fun _ _ => ⟨t, Function.update_self ..⟩, h.found⟩
    · rw [Finset.card_insert_of_notMem hnot, hgets]
      · change s.zombiePool.length + (m.card + 1) = (s.count + 1).toNat + 1
        omega
      · rfl
      · exact rfl
    · change s.count + 1 < 0 ↔ false = true
      simp only [Bool.false_eq_true, iff_false]
      omega
    · change -1 ≤ s.count + 1
      omega
  · obtain ⟨hpend, hnot⟩ := h.pending.insert hpc (show VanishPc.signalled.Owes from trivial)
    have hw : ¬ ({ s with pc := Function.update s.pc t .signalled } : ReapState).Wakes := hwakes
    have hpos : 0 ≤ s.count := by
      by_contra hneg
      exact hwakes ⟨by omega, hqueue.mp (by omega)⟩
    rw [hdst, if_neg hwakes, ReapState.semSignal, if_neg hw]
    refine ⟨insert t m, hpend, ?_, ?_, h.loops, h.flag, ?_, h.waits, h.exchange,
      fun hr hd => exists_signalling hne (h.due hr hd), h.found⟩
    · rw [Finset.card_insert_of_notMem hnot]
      change s.zombiePool.length + (m.card + 1) = (s.count + 1).toNat + s.held
      omega
    · change s.count + 1 < 0 ↔ s.queued = true
      rw [← hqueue]
      omega
    · change -1 ≤ s.count + 1
      omega

/-- **The reaper waits**: it takes a token, or a place in the queue. -/
lemma ReapInv.semWait (h : ReapInv s m) (hat : s.At .wait) {enq : Bool}
    (henq : s.count - 1 < 0 → enq = true) : ReapInv (s.semWait enq) m := by
  have htokens := h.tokens
  have hbound := h.bound
  have hheld : s.held = 0 := by simp [ReapState.held, hat.2]
  have hnq : ¬ s.queued = true := by
    intro hq
    have hloops := (h.loops hq).1
    rw [hat.2] at hloops
    exact hloops
  have hcount : ¬ s.count < 0 := by
    rw [h.queue]
    exact hnq
  have hnw := h.awake hat nofun
  unfold ReapState.semWait
  split_ifs with hlt
  · obtain rfl := henq hlt
    refine ⟨h.pending, ?_, iff_of_true hlt rfl, fun _ => ⟨trivial, rfl⟩, nofun, ?_,
      fun hw => absurd hw hnw, fun _ => rfl, nofun, nofun⟩
    · simp only [ReapState.held, Bool.false_eq_true, if_false]
      omega
    · change -1 ≤ s.count - 1
      omega
  · refine ⟨h.pending, ?_, ?_, fun hq => absurd hq hnq, False.elim, ?_,
      fun hw => absurd hw hnw, nofun, fun _ hd => ?_, nofun⟩
    · simp only [ReapState.held]
      omega
    · exact iff_of_false hlt hnq
    · change -1 ≤ s.count - 1
      omega
    · rcases hd with hd | hd
      · cases hd
      · exact absurd hd hnw

/-- **The reaper goes on in its loop.** -/
lemma ReapInv.loop (h : ReapInv s m) {p : ReaperPc} {w : Bool} (hat : s.reaper.Loops)
    (hp : p.Loops) (hw : w = true → p = .yield ∨ p = .test ∧ s.cpu ≠ .reaper)
    (hex : p = .exchange → s.reject = false)
    (hdue : s.reject = true → p = .deschedule ∨ w = true →
      s.reaper = .deschedule ∨ s.waiting = true) :
    ReapInv { s with reaper := p, waiting := w } m := by
  refine ⟨h.pending, ?_, h.queue, fun hq => ⟨hp, (h.loops hq).2⟩, fun _ => h.flag hat, h.bound, hw,
    hex, fun hr hd => h.due hr (hdue hr hd), fun t ht => ?_⟩
  · have htokens := h.tokens
    rw [held_of_loops hat] at htokens
    have hp' : ({ s with reaper := p, waiting := w } : ReapState).reaper.Loops := hp
    rw [held_of_loops hp']
    exact htokens
  · change p = .found t at ht
    rw [ht] at hp
    exact hp.elim

/-- **A step keeps the tokens and the zombies even** when the reaper's look is not early and no
wakeup is lost. -/
theorem reapNext_inv (h : ReapInv s m) {a : ReapOp} (hfound : Found s a)
    (hs : reapNext s a = some s') : ∃ m', ReapInv s' m' := by
  cases a with
  | preempt a =>
      simp only [reapNext] at hs
      split_ifs at hs
      exact ⟨m, h.switch hs⟩
  | lock | contend | unlink =>
      simp only [reapNext] at hs
      obtain ⟨t, -, hpc, rfl⟩ := advance_eq_some hs
      exact ⟨m, h.advance (by simp [hpc, VanishPc.Owes]) (by rw [hpc]; decide) _⟩
  | signal =>
      simp only [reapNext] at hs
      obtain ⟨t, -, hpc, rfl⟩ := advance_eq_some hs
      exact h.signal hpc hfound rfl
  | wake =>
      simp only [reapNext] at hs
      obtain ⟨t, -, hpc, rfl⟩ := advance_eq_some hs
      refine ⟨m, h.pending.same ?_, h.tokens, h.queue, h.loops, h.flag, h.bound, nofun, h.exchange,
        fun hr hd => ?_, h.found⟩
      · rw [hpc]
        exact Iff.rfl
      · -- the reaper is not about to be descheduled with its flag set
        rcases hd with hd | hd
        · change s.reject = true at hr
          rw [hfound hd] at hr
          cases hr
        · cases hd
  | link =>
      simp only [reapNext] at hs
      obtain ⟨t, -, hpc, rfl⟩ := advance_eq_some hs
      -- the thread that owed its place in the zombie pool has it now
      obtain ⟨hpend, hin⟩ := h.pending.erase hpc
      refine ⟨m.erase t, hpend, ?_, h.queue, h.loops, h.flag, h.bound, h.waits, h.exchange,
        fun hr hd => exists_signalling (by rw [hpc]; decide) (h.due hr hd), fun u hu => ?_⟩
      · have hcard := Finset.card_erase_add_one hin
        have htokens := h.tokens
        change (s.zombiePool ++ [t]).length + (m.erase t).card = s.count.toNat + s.held
        rw [List.length_append, List.length_singleton]
        omega
      · exact List.mem_append_left _ (h.found u hu)
  | unlock a =>
      simp only [reapNext, Option.bind_eq_some_iff] at hs
      obtain ⟨s₁, h₁, hs⟩ := hs
      obtain ⟨t, -, hpc, rfl⟩ := advance_eq_some h₁
      -- `unlock`, and the switch to the next thread
      exact ⟨m, (h.advance (by rw [hpc]; exact Iff.rfl) (by rw [hpc]; decide) _).switch hs⟩
  | wait enq =>
      simp only [reapNext] at hs
      split_ifs at hs with hat
      cases hs
      exact ⟨m, h.semWait hat hfound⟩
  | test =>
      simp only [reapNext] at hs
      obtain ⟨hat, heq⟩ := Option.ite_none_right_eq_some.mp hs
      cases heq
      have hloops : s.reaper.Loops := by
        rw [hat.2]
        trivial
      have hnw := h.awake hat nofun
      split_ifs with hr
      · -- the reaper has its token
        have htokens := h.tokens
        rw [show s.held = 1 by simp [ReapState.held, hat.2, hr]] at htokens
        refine ⟨m, h.pending, htokens, h.queue, fun hq => ?_, False.elim, h.bound,
          fun hw => absurd hw hnw, nofun, fun _ hd => ?_, nofun⟩
        · rw [(h.loops hq).2] at hr
          cases hr
        · rcases hd with hd | hd
          · cases hd
          · exact absurd hd hnw
      · exact ⟨m, h.loop (p := .exchange) (w := s.waiting) hloops trivial
          (fun hw => absurd hw hnw) (fun _ => by simpa using hr) fun hr' => absurd hr' hr⟩
  | exchange =>
      simp only [reapNext] at hs
      obtain ⟨hat, heq⟩ := Option.ite_none_right_eq_some.mp hs
      cases heq
      have hr := h.exchange hat.2
      have hloops : s.reaper.Loops := by
        rw [hat.2]
        trivial
      have hnw := h.awake hat nofun
      have hinv := h.loop (p := .deschedule) (w := s.waiting) hloops trivial
        (fun hw => absurd hw hnw) nofun fun hr' => by rw [hr] at hr'; cases hr'
      -- the `xchng` writes 0 over 0
      refine ⟨m, ?_⟩
      rw [hr, if_neg Bool.false_ne_true, ← hr]
      exact hinv
  | deschedule =>
      simp only [reapNext] at hs
      split_ifs at hs with hat
      cases hs
      refine ⟨m, h.loop ?_ trivial (fun _ => .inl rfl) nofun fun _ _ => .inl hat.2⟩
      rw [hat.2]
      trivial
  | yield a =>
      simp only [reapNext] at hs
      obtain ⟨hat, hs⟩ := Option.ite_none_right_eq_some.mp hs
      unfold ReapState.switch at hs
      obtain ⟨hrun, heq⟩ := Option.ite_none_right_eq_some.mp hs
      cases heq
      have hloops : s.reaper.Loops := by
        rw [hat.2]
        trivial
      -- away from the processor the reaper is still where it descheduled itself
      have hcpu : ReapInv { s with cpu := a, interrupts := true } m :=
        ⟨h.pending, h.tokens, h.queue, h.loops, h.flag, h.bound, fun _ => .inl hat.2, h.exchange,
          h.due, h.found⟩
      exact ⟨m, hcpu.loop (w := s.waiting) hloops trivial
        (fun hw => .inr ⟨rfl, not_reaper_of_runnable hrun hw⟩) nofun
        fun _ hd => .inr (hd.resolve_left nofun)⟩
  | peek =>
      simp only [reapNext] at hs
      split_ifs at hs with hat
      have htokens := h.tokens
      rw [show s.held = 1 by simp [ReapState.held, hat.2]] at htokens
      have hnw := h.awake hat nofun
      have hnl : ¬ s.reaper.Loops := by
        rw [hat.2]
        exact id
      split at hs
      -- an empty pool: the reaper has come too early
      · next hz => exact absurd hz hfound
      · next t l hz =>
        cases hs
        refine ⟨m, h.pending, htokens, h.queue, fun hq => absurd (h.loops hq).1 hnl, False.elim,
          h.bound, fun hw => absurd hw hnw, nofun, fun hr hd => ?_, ?_⟩
        · rcases hd with hd | hd
          · cases hd
          · exact absurd hd hnw
        · rintro u ⟨⟩
          change t ∈ s.zombiePool
          rw [hz]
          exact .head l
  | remove =>
      simp only [reapNext] at hs
      split at hs
      · next t hcpu hreaper =>
        cases hs
        have hnw := h.awake ⟨hcpu, hreaper⟩ nofun
        have hin := h.found t hreaper
        have hheld : s.held = 1 := by simp [ReapState.held, hreaper]
        have hlen := List.length_erase_of_mem hin
        have hpos := List.length_pos_of_mem hin
        have htokens := h.tokens
        have hnl : ¬ s.reaper.Loops := by
          rw [hreaper]
          exact id
        refine ⟨m, h.pending, ?_, h.queue, fun hq => absurd (h.loops hq).1 hnl, False.elim, h.bound,
          fun hw => absurd hw hnw, nofun, fun hr hd => ?_, nofun⟩
        -- one zombie and one token fewer
        · change (s.zombiePool.erase t).length + m.card = s.count.toNat + 0
          omega
        · rcases hd with hd | hd
          · cases hd
          · exact absurd hd hnw
      · cases hs

/-- **No zombie is forgotten** in a run in which the reaper finds a zombie whenever it looks
for one, and no wakeup is lost. -/
theorem noneForgotten_of_found (h : reapMachine.Reach Found s) : s.NoneForgotten ∧ s.Covered := by
  have hinv : ∃ m, ReapInv s m := by
    refine Machine.Reach.inv (I := fun s => ∃ m, ReapInv s m) ?_ ?_ h
    · rintro s ⟨-, hcount, hqueued, hwaiting, hpool, hpc, hreaper⟩
      refine ⟨∅, fun t => ?_, ?_, ?_, ?_, ?_, ?_, ?_, ?_, ?_, ?_⟩
      · rw [hpc t]
        simp [VanishPc.Owes]
      · simp [hpool, hcount, ReapState.held, hreaper]
      · simp [hcount, hqueued]
      · simp [hqueued]
      · rw [hreaper]
        exact False.elim
      · rw [hcount]
        decide
      · simp [hwaiting]
      · simp [hreaper]
      · simp [hreaper, hwaiting]
      · simp [hreaper]
    · rintro s a s' ⟨m, hm⟩ hfound hstep
      exact reapNext_inv hm hfound hstep
  obtain ⟨m, hm⟩ := hinv
  have htokens := hm.tokens
  refine ⟨fun hblocked hmiddle => ?_, ?_⟩
  · -- its flag is not set, as nobody is about to make it runnable
    have hreject : s.reject = false := by
      by_contra hr
      obtain ⟨t, ht⟩ := hm.due (by simpa using hr) (.inr hblocked)
      exact hmiddle t (.inr (.inl ht))
    have hloops : s.reaper.Loops := by
      rcases hm.waits hblocked with hy | ⟨ht, -⟩
      · rw [hy]
        trivial
      · rw [ht]
        trivial
    have hqueued : s.queued = true := by
      by_contra hq
      rw [hm.flag hloops (by simpa using hq)] at hreject
      cases hreject
    have hneg := hm.queue.mpr hqueued
    have hheld : s.held = 0 := by
      rcases hm.waits hblocked with hy | ⟨ht, -⟩
      · simp [ReapState.held, hy, hreject]
      · simp [ReapState.held, ht, hreject]
    rw [← List.length_eq_zero_iff]
    omega
  · unfold ReapState.Covered
    omega

/-! ### Runs -/

/-- All threads live, with thread 0 running. -/
def allLive : ReapState :=
  ⟨true, .thread 0, 0, false, false, false, [], fun _ => .live, .wait⟩

lemma allLive_init : reapMachine.init allLive :=
  ⟨rfl, rfl, rfl, rfl, rfl, fun _ => rfl, rfl⟩

/-- The reaper waits. -/
def reaperSleeps (next : Agent) : List ReapOp :=
  [.wait true, .test, .exchange, .deschedule, .yield next]

/-- The reaper waits; two threads vanish, and it takes one of them. -/
def foundRun : List ReapOp :=
  .preempt .reaper :: reaperSleeps (.thread 0) ++ [.lock, .signal, .wake, .unlink, .link,
    .unlock (.thread 1), .lock, .signal, .unlink, .link, .unlock .reaper, .test, .peek, .remove]

/-- The run with a zombie left, and a token for it. -/
theorem noneForgotten_of_found_foundRun :
    ∃ s, Machine.replay (Machine.guarded Found reapNext) allLive foundRun = some s ∧
      s.zombiePool = [1] ∧ s.count = 1 ∧ s.NoneForgotten ∧ s.Covered := by
  have hrun : (Machine.replay (Machine.guarded Found reapNext) allLive foundRun).map
      (fun s => (s.zombiePool, s.count)) = some ([1], 1) := by decide +kernel
  rw [Option.map_eq_some_iff] at hrun
  obtain ⟨s, hs, heq⟩ := hrun
  obtain ⟨hpool, hcount⟩ := Prod.mk.inj heq
  refine ⟨s, hs, hpool, hcount, noneForgotten_of_found ?_⟩
  exact Machine.reach_of_guarded (fun _ _ _ h => h) foundRun (.init allLive_init) hs

/-- The reaper waits; a thread wakes it up and is preempted before it is a zombie, and the
reaper, having found none, waits again. -/
def earlyRun : List ReapOp :=
  .preempt .reaper :: reaperSleeps (.thread 0) ++
    [.lock, .signal, .wake, .preempt .reaper, .test, .peek] ++ reaperSleeps (.thread 0) ++
    [.unlink, .link, .unlock .idle]

/-- The reaper is preempted before its `xchng`; a thread signals and becomes a zombie, and the
reaper goes on. -/
def overwriteRun : List ReapOp :=
  [.preempt .reaper, .wait true, .test, .preempt (.thread 0), .lock, .signal, .wake, .unlink, .link,
    .unlock .reaper, .exchange, .test, .exchange, .deschedule, .yield .idle]

/-- A run that leaves the reaper waiting with thread 0 in the zombie pool. -/
lemma forgotten_of_replay {ops : List ReapOp} (hs : Machine.replay reapNext allLive ops = some s)
    (hpool : s.zombiePool = [0]) (hcount : s.count ≤ 0) (hwaits : s.waiting = true)
    (hheld : s.held = 0) (hpc : s.pc = [.locked, .signalling, .signalled, .unlinked, .linked,
      .gone].foldl (fun pc p => Function.update pc 0 p) fun _ => .live) :
    reapMachine.Reachable s ∧ ¬ s.NoneForgotten ∧ ¬ s.Covered := by
  refine ⟨?_, fun h => ?_, fun h => ?_⟩
  · exact Machine.reach_of_replay (fun _ _ _ h => h) ops (fun _ _ _ => trivial)
      (.init allLive_init) hs
  · have hmiddle : ∀ t, ¬ s.InMiddle t := by
      intro t
      simp only [List.foldl_cons, List.foldl_nil, Function.update_idem] at hpc
      by_cases ht : t = 0 <;> simp [ReapState.InMiddle, hpc, ht]
    rw [h hwaits hmiddle] at hpool
    cases hpool
  · unfold ReapState.Covered at h
    rw [hpool, hheld, Int.toNat_of_nonpos hcount] at h
    exact absurd h (by decide)

/-- **Forgotten zombies**: one for which the reaper looks too early, and one whose signal the
reaper writes over. -/
theorem not_noneForgotten_of_early :
    (∃ s, Machine.replay reapNext allLive earlyRun = some s ∧ reapMachine.Reachable s ∧
      ¬ s.NoneForgotten ∧ ¬ s.Covered) ∧
    ∃ s, Machine.replay reapNext allLive overwriteRun = some s ∧ reapMachine.Reachable s ∧
      ¬ s.NoneForgotten ∧ ¬ s.Covered := by
  constructor
  · obtain ⟨s, hs⟩ : ∃ s, Machine.replay reapNext allLive earlyRun = some s := ⟨_, rfl⟩
    have hs' := Option.some.inj hs
    exact ⟨s, hs, forgotten_of_replay hs (hs' ▸ rfl) (hs' ▸ by decide) (hs' ▸ rfl) (hs' ▸ rfl)
      (hs' ▸ rfl)⟩
  · obtain ⟨s, hs⟩ : ∃ s, Machine.replay reapNext allLive overwriteRun = some s := ⟨_, rfl⟩
    have hs' := Option.some.inj hs
    exact ⟨s, hs, forgotten_of_replay hs (hs' ▸ rfl) (hs' ▸ by decide) (hs' ▸ rfl) (hs' ▸ rfl)
      (hs' ▸ rfl)⟩

end ShrekOS
