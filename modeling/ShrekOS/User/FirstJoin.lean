/-
The first join on a thread that `thr_create` has returned.

* `FirstJoined`: the join is never turned away, returns what the thread exited with, and is
  never held up for good;
* `OneJoin`: one thread joins, once, when `thr_create` has returned;
* `FirstUndisturbed`: the new slot's `pending_join` is false, no join for another thread tests
  the slot, and the thread does not signal into the windows of the joiner's loop;
* `FirstInv`, `FirstAssert`: the slot of the thread, from its fork to its join;
* `firstJoined_of_undisturbed`: **the join succeeds in every careful, undisturbed run**, and
  `not_firstJoined_of_garbage`: a `pending_join` that `malloc` has left true.
-/
import ShrekOS.User.ThreadJoins
import ShrekOS.User.ThreadQueues

namespace ShrekOS

open Kit

/-! ### What is asked of the join -/

namespace ThrPc

/-- The thread waits for the mutex of the slot, in `thr_join` or in `thr_exit`. -/
@[simp] def Takes (k : ℕ) : ThrPc → Prop
  | .join _ (.take l) | .join _ (.relock l) | .exit _ (.take l) => l = k
  | _ => False

/-- The thread waits for the lock of the pool. -/
@[simp] def Reads : ThrPc → Prop
  | .join _ .lock | .exit _ .lock => True
  | _ => False

/-- The thread is on its way out of the join with an error. -/
@[simp] def TurnedAway (tid : ℤ) : ThrPc → Prop
  | .join n .giveUp | .join n (.refuse _) => n = tid
  | _ => False

instance (tid : ℤ) (p : ThrPc) : Decidable (p.TurnedAway tid) :=
  decidable_of_bool
    (match p with
      | .join n .giveUp | .join n (.refuse _) => decide (n = tid)
      | _ => false)
    (by unfold TurnedAway; split <;> simp)

/-- The thread has come through `cond_signal`. -/
@[simp] def Signalled : ThrPc → Prop
  | .exit _ (.unlock _) | .exit _ .release | .exit _ .vanish | .vanished => True
  | _ => False

/-- The thread is at the place in the loop of `cond_wait`. -/
@[simp] def SleepsAt (q : SleepPc) : ThrPc → Prop
  | .join _ (.wait _ r) => r = q
  | _ => False

instance (q : SleepPc) (p : ThrPc) : Decidable (p.SleepsAt q) :=
  decidable_of_bool
    (match p with
      | .join _ (.wait _ r) => decide (r = q)
      | _ => false)
    (by unfold SleepsAt; split <;> simp)

end ThrPc

/-- Thread `v` holds the lock that thread `u` waits for. -/
def HoldsUp (c : ThrLib × (ℕ → ThrPc)) (v u : ℕ) : Prop :=
  (∃ k, (c.2 u).Takes k ∧ (c.2 v).holds = some k) ∨ (c.2 u).Reads ∧ (c.2 v).Writes

/-- The thread can take a step, or waits for a lock whose holder can. -/
def GoesOn (c : ThrLib × (ℕ → ThrPc)) (u : ℕ) : Prop :=
  CanStep c u ∨ ∃ v, HoldsUp c v u ∧ CanStep c v

/-- **What is asked of the join** of thread `j` on thread `t₀`: it is not turned away, and what it
returns is what the thread exited with; it goes on, but where it is descheduled and the thread has
not signalled yet, and the exit of the thread goes on. -/
structure FirstJoined (t₀ j : ℕ) (c : ThrLib × (ℕ → ThrPc)) : Prop where
  accepted : ∀ u, ¬ (c.2 u).TurnedAway t₀
  status : ∀ r ∈ c.1.joined, r.1 = t₀ → c.1.exited t₀ = some r.2
  goesOn : ∀ q, c.2 j = .join t₀ q → GoesOn c j ∨ ∃ k, q = .wait k .asleep ∧ ¬ (c.2 t₀).Signalled
  exits : ∀ st q, c.2 t₀ = .exit st q → GoesOn c t₀

/-- **One join**: only thread `j` joins thread `t₀`, once, and only when the `thr_create` that has
forked it has given it a slot. -/
def OneJoin (t₀ j : ℕ) (c : ThrLib × (ℕ → ThrPc)) (a : ℕ × ThrAct) : Prop :=
  match c.2 a.1, a.2 with
  | .user, .thrJoin tid => tid = t₀ → a.1 = j ∧ t₀ ∈ c.1.tids ∧
      (∀ v ∈ c.1.tids, (c.2 v).child ≠ some t₀) ∧ ∀ r ∈ c.1.joined, r.1 ≠ t₀
  | _, _ => True

/-- **The condition**: the memory of a new slot for thread `t₀` has a false `pending_join`; no
join for another thread tests the slot of thread `t₀`, or one that is to be given to a child; and
thread `t₀` does not set the flag of a thread before its `xchng`, nor make one runnable that is
about to be descheduled. -/
def FirstUndisturbed (t₀ : ℕ) (c : ThrLib × (ℕ → ThrPc)) (a : ℕ × ThrAct) : Prop :=
  match c.2 a.1, a.2 with
  | .create (.add d _), .add pending _ => d = t₀ → pending = false
  | .join tid (.test k), .run => tid = t₀ ∨ (c.1.threadPool k).status = .dead ∨
      (c.1.threadPool k).kTid ≠ t₀ ∧ (c.1.threadPool k).kTid ≠ -1
  | .exit _ (.signal k), .run =>
      a.1 = t₀ → ∀ w ∈ (c.1.threadPool k).joinCv.head?, ¬ (c.2 w).SleepsAt .exchange
  | .exit _ (.wake _ w), .run => a.1 = t₀ → ¬ (c.2 w).SleepsAt .deschedule
  | _, _ => True

instance (t₀ j : ℕ) (c : ThrLib × (ℕ → ThrPc)) (a : ℕ × ThrAct) : Decidable (OneJoin t₀ j c a) :=
  decidable_of_bool
    (match c.2 a.1, a.2 with
      | .user, .thrJoin tid => decide (tid = t₀ → a.1 = j ∧ t₀ ∈ c.1.tids ∧
          (∀ v ∈ c.1.tids, (c.2 v).child ≠ some t₀) ∧ ∀ r ∈ c.1.joined, r.1 ≠ t₀)
      | _, _ => true)
    (by unfold OneJoin; split <;> simp only [decide_eq_true_eq])

instance (t₀ : ℕ) (c : ThrLib × (ℕ → ThrPc)) (a : ℕ × ThrAct) :
    Decidable (FirstUndisturbed t₀ c a) :=
  decidable_of_bool
    (match c.2 a.1, a.2 with
      | .create (.add d _), .add pending _ => decide (d = t₀ → pending = false)
      | .join tid (.test k), .run => decide (tid = t₀ ∨ (c.1.threadPool k).status = .dead ∨
          (c.1.threadPool k).kTid ≠ t₀ ∧ (c.1.threadPool k).kTid ≠ -1)
      | .exit _ (.signal k), .run =>
          decide (a.1 = t₀ → ∀ w ∈ (c.1.threadPool k).joinCv.head?, ¬ (c.2 w).SleepsAt .exchange)
      | .exit _ (.wake _ w), .run => decide (a.1 = t₀ → ¬ (c.2 w).SleepsAt .deschedule)
      | _, _ => true)
    (by unfold FirstUndisturbed; split <;> simp only [decide_eq_true_eq])

/-- The threads of a task, in which thread `t₀` is not the first one. -/
def thrLibWithout (t₀ : ℕ) : Threads ThrLib ThrPc ThrAct :=
  { thrLib with init := fun c => thrLib.init c ∧ t₀ ∉ c.1.tids }

/-! ### The slot of the thread -/

/-- How far the thread has come: it is not there, it has been forked by a thread, it has a slot,
the join has taken it out of the slot, or the join has returned. -/
inductive FirstPhase where
  | unborn
  | born (v : ℕ)
  | named (k : ℕ)
  | taken
  | joined

/-- The phase, whether the join has gone to wait, and whether the thread has set the flag of the
joiner and has not made it runnable yet. -/
structure FirstGhost where
  phase : FirstPhase
  waited : Bool
  waking : Bool

variable {t₀ j : ℕ}

/-- **The invariant of the thread's slot.** -/
structure FirstInv (t₀ j : ℕ) (s : ThrLib) (g : FirstGhost) : Prop where
  unborn : g.phase = .unborn ↔ t₀ ∉ s.tids
  slot : ∀ k, (s.threadPool k).kTid = t₀ ↔ g.phase = .named k
  inside : ∀ k, g.phase = .named k → k < s.size
  idle : ∀ k < s.size, (s.threadPool k).kTid = -1 → (s.threadPool k).pendingJoin = false ∧
    ((s.threadPool k).status = .alive → (s.threadPool k).joinCv = [])
  waited : g.waited = true → g.phase ≠ .unborn ∧ ∀ v, g.phase ≠ .born v
  pending : ∀ k, g.phase = .named k → (s.threadPool k).pendingJoin = true → g.waited = true
  queue : ∀ k, g.phase = .named k → (s.threadPool k).joinCv = [] ∨
    g.waited = true ∧ (s.threadPool k).joinCv = [j]
  joined : (∃ r ∈ s.joined, r.1 = t₀) ↔ g.phase = .joined
  status : ∀ r ∈ s.joined, r.1 = t₀ → s.exited t₀ = some r.2

/-- What a joiner whose flag has been set knows: it has not tested it since, or it will be made
runnable when it is descheduled. -/
@[simp] def SleepPc.Due (s : ThrLib) (g : FirstGhost) (t : ℕ) : SleepPc → Prop
  | .test => True
  | .exchange => False
  | .deschedule => g.waking = true
  | .asleep => s.waiting t = true → g.waking = true

/-- What the join on the thread knows. -/
@[simp] def JoinPc.First (t₀ : ℕ) (s : ThrLib) (g : FirstGhost) (t : ℕ) : JoinPc → Prop
  | .lock => g.waited = false ∧ ∃ l, g.phase = .named l
  | .scan i => g.waited = false ∧ ∃ l, g.phase = .named l ∧ i ≤ l
  | .giveUp | .refuse _ => False
  | .release k | .take k | .enter k => g.waited = false ∧ g.phase = .named k
  | .test k => g.phase = .named k ∧ ((s.threadPool k).status = .alive →
      g.waited = false ∧ (s.threadPool k).pendingJoin = false)
  | .wait k q => g.phase = .named k ∧ g.waited = true ∧
      (s.reject t = true → (s.threadPool k).status ≠ .alive ∧ q.Due s g t) ∧
      (s.reject t = false → (s.threadPool k).joinCv = [t])
  | .relock k => g.phase = .named k ∧ (s.threadPool k).status ≠ .alive
  | .save k => g.phase = .named k
  | .clear k st | .reap k st | .unname k st => g.phase = .named k ∧ s.exited t₀ = some st
  | .unlock _ st => g.phase = .taken ∧ s.exited t₀ = some st

/-- A join on another thread leaves the slot of the thread alone. -/
@[simp] def JoinPc.Apart (g : FirstGhost) : JoinPc → Prop
  | .save k | .clear k _ | .reap k _ | .unname k _ => g.phase ≠ .named k
  | _ => True

/-- What a thread in `thr_join` knows of the slot. -/
@[simp] def ThrPc.First (t₀ : ℕ) (s : ThrLib) (g : FirstGhost) (t : ℕ) : ThrPc → Prop
  | .join tid q => (tid = t₀ → q.First t₀ s g t) ∧ (tid ≠ t₀ → q.Apart g)
  | _ => True

/-- The place is in the join on the thread. -/
def ThrPc.JoinsOn (t₀ : ℕ) (p : ThrPc) : Prop := ∃ q, p = .join t₀ q

/-- The slot of a thread that has signalled is no longer alive, and its queue is empty. -/
def FirstPast (s : ThrLib) (g : FirstGhost) : Prop :=
  g.phase ≠ .unborn ∧ (∀ v, g.phase ≠ .born v) ∧
    ∀ k, g.phase = .named k → (s.threadPool k).status ≠ .alive ∧ (s.threadPool k).joinCv = []

/-- **The assertion of a thread** about the slot. -/
structure FirstAssert (t₀ j : ℕ) (s : ThrLib) (g : FirstGhost) (t : ℕ) (p : ThrPc) : Prop where
  child : p.child = some t₀ ↔ g.phase = .born t
  joins : p.JoinsOn t₀ → t = j
  taken : t = j → g.phase = .taken → ∃ k st, p = .join t₀ (.unlock k st)
  waited : t = j → g.waited = true → ∀ k, g.phase = .named k → p.JoinsOn t₀
  place : p.First t₀ s g t
  past : t = t₀ → p.Popped → FirstPast s g
  waking : t = t₀ → g.waking = true → ∃ st k, p = .exit st (.wake k j)

variable {s s' : ThrLib} {g g' : FirstGhost} {w : Option ℕ} {t u k : ℕ} {p p' : ThrPc}
  {pc : ℕ → ThrPc} {a : ThrAct} {c : ThrLib × (ℕ → ThrPc)} {d : ThreadT}

lemma FirstAssert.waking_of (h : FirstAssert t₀ j s g t p) (ht : t = t₀) (hw : g.waking = true) :
    p.Waking := by
  obtain ⟨st, k, rfl⟩ := h.waking ht hw
  trivial

/-- A join on another thread has no slot to leave alone where the thread has none. -/
lemma JoinPc.apart_of_unnamed (h : ∀ k, g.phase ≠ .named k) (q : JoinPc) : q.Apart g := by
  cases q with
  | save k | clear k st | reap k st | unname k st => exact h k
  | lock | scan _ | giveUp | refuse _ | release _ | take _ | enter _ | test _ | wait _ _
  | relock _ | unlock _ _ => trivial

/-- A place that is not in the join on the thread knows of a slot only that it is another one. -/
lemma ThrPc.first_of_not_joinsOn (h : ¬ p.JoinsOn t₀)
    (hapart : ∀ tid q, p = .join tid q → q.Apart g) : p.First t₀ s g t := by
  cases p with
  | user | create _ | exit _ _ | vanished => trivial
  | join tid q =>
      refine ⟨?_, fun _ => hapart tid q rfl⟩
      rintro rfl
      exact absurd ⟨q, rfl⟩ h

lemma ThrPc.not_joinsOn_of_not_joining (h : ¬ p.Joining) : ¬ p.JoinsOn t₀ := by
  rintro ⟨q, rfl⟩
  exact h trivial

/-- A write of a slot that does not change whose it is. -/
lemma FirstInv.slot_update (h : FirstInv t₀ j s g)
    (hkTid : d.kTid = t₀ ↔ (s.threadPool k).kTid = t₀) (l : ℕ) :
    (Function.update s.threadPool k d l).kTid = t₀ ↔ g.phase = .named l := by
  by_cases hlk : l = k
  · subst hlk
    rw [Function.update_self]
    exact hkTid.trans (h.slot l)
  · rw [Function.update_of_ne hlk]
    exact h.slot l

/-- A write of a slot that leaves it fit for a new thread, if it has no tid. -/
lemma FirstInv.idle_update (h : FirstInv t₀ j s g)
    (hidle : k < s.size → d.kTid = -1 →
      d.pendingJoin = false ∧ (d.status = .alive → d.joinCv = []))
    {l : ℕ} (hl : l < s.size) (hnone : (Function.update s.threadPool k d l).kTid = -1) :
    (Function.update s.threadPool k d l).pendingJoin = false ∧
      ((Function.update s.threadPool k d l).status = .alive →
        (Function.update s.threadPool k d l).joinCv = []) := by
  by_cases hlk : l = k
  · subst hlk
    rw [Function.update_self] at hnone ⊢
    exact hidle hl hnone
  · rw [Function.update_of_ne hlk] at hnone ⊢
    exact h.idle l hl hnone

/-- The assertion of a thread that goes on in `thr_exit`, where the phase stays. -/
lemma FirstAssert.exit {st : ℤ} {q q' : ExitPc} (h : FirstAssert t₀ j s g t (.exit st q))
    (hphase : g'.phase = g.phase) (hwaited : g'.waited = g.waited)
    (hpast : t = t₀ → (ThrPc.exit st q').Popped → FirstPast s' g')
    (hwake : t = t₀ → g'.waking = true → ∃ k, q' = .wake k j) :
    FirstAssert t₀ j s' g' t (.exit st q') where
  child := by
    rw [hphase]
    exact h.child
  joins := by
    rintro ⟨r, hr⟩
    cases hr
  taken htj ht := by
    obtain ⟨l, st', hl⟩ := h.taken htj (hphase ▸ ht)
    cases hl
  waited htj hw l hl := by
    obtain ⟨r, hr⟩ := h.waited htj (hwaited ▸ hw) l (hphase ▸ hl)
    cases hr
  place := trivial
  past := hpast
  waking ht hw := by
    obtain ⟨k, rfl⟩ := hwake ht hw
    exact ⟨st, k, rfl⟩

/-! ### Steps that leave the slot as it is -/

/-- The step of thread `t` changes nothing that matters to the thread's slot. -/
structure FirstSame (t₀ j : ℕ) (s : ThrLib) (g : FirstGhost) (t : ℕ) (pc : ℕ → ThrPc)
    (s' : ThrLib) : Prop where
  size : s.size ≤ s'.size
  tids : t₀ ∈ s'.tids ↔ t₀ ∈ s.tids
  kTid : ∀ k, (s'.threadPool k).kTid = t₀ ↔ (s.threadPool k).kTid = t₀
  idle : ∀ k < s'.size, (s'.threadPool k).kTid = -1 → (s'.threadPool k).pendingJoin = false ∧
    ((s'.threadPool k).status = .alive → (s'.threadPool k).joinCv = [])
  slot : ∀ k, g.phase = .named k →
    ((s'.threadPool k).pendingJoin = true → (s.threadPool k).pendingJoin = true) ∧
    (s'.threadPool k).joinCv = (s.threadPool k).joinCv ∧
    ((s.threadPool k).status ≠ .alive → (s'.threadPool k).status ≠ .alive)
  held : ∀ k u, u ≠ t → (s.threadPool k).m = some u → s'.threadPool k = s.threadPool k
  reject : ∀ u l q, u ≠ t → pc u = .join t₀ (.wait l q) → s'.reject u = s.reject u
  waiting : ∀ u, u ≠ t → s'.waiting u = true → s.waiting u = true
  joined : ∀ r : ℤ × ℤ, r.1 = t₀ → (r ∈ s'.joined ↔ r ∈ s.joined)
  exited : s.exited t₀ ≠ none → s'.exited t₀ = s.exited t₀

lemma FirstSame.inv (hs : FirstSame t₀ j s g t pc s') (h : FirstInv t₀ j s g) :
    FirstInv t₀ j s' g where
  unborn := h.unborn.trans (not_congr hs.tids).symm
  slot k := (hs.kTid k).trans (h.slot k)
  inside k hk := (h.inside k hk).trans_le hs.size
  idle := hs.idle
  waited := h.waited
  pending k hk hp := h.pending k hk ((hs.slot k hk).1 hp)
  queue k hk := by
    rw [(hs.slot k hk).2.1]
    exact h.queue k hk
  joined := by
    rw [← h.joined]
    constructor
    · rintro ⟨r, hr, ht⟩
      exact ⟨r, (hs.joined r ht).mp hr, ht⟩
    · rintro ⟨r, hr, ht⟩
      exact ⟨r, (hs.joined r ht).mpr hr, ht⟩
  status r hr ht := by
    have hst := h.status r ((hs.joined r ht).mp hr) ht
    rw [hs.exited (by rw [hst]; nofun), hst]

lemma FirstSame.past (hs : FirstSame t₀ j s g t pc s') (h : FirstPast s g) : FirstPast s' g := by
  obtain ⟨hnot, hborn, hslot⟩ := h
  refine ⟨hnot, hborn, fun k hk => ?_⟩
  obtain ⟨-, hcv, hstatus⟩ := hs.slot k hk
  exact ⟨hstatus (hslot k hk).1, hcv.trans (hslot k hk).2⟩

/-- The assertions of the others are stable. -/
lemma FirstSame.assert (hs : FirstSame t₀ j s g t pc s') (h : FirstAssert t₀ j s g u (pc u))
    (hu : u ≠ t) (hholds : ∀ k, (pc u).holds = some k → (s.threadPool k).m = some u) :
    FirstAssert t₀ j s' g u (pc u) := by
  have hex : ∀ st, s.exited t₀ = some st → s'.exited t₀ = some st := by
    intro st hst
    rw [hs.exited (by rw [hst]; nofun), hst]
  refine ⟨h.child, h.joins, h.taken, h.waited, ?_, fun ht hp => hs.past (h.past ht hp), h.waking⟩
  have hplace := h.place
  cases hpc : pc u with
  | user | create _ | exit _ _ | vanished => trivial
  | join tid q =>
      rw [hpc] at hplace hholds
      refine ⟨fun htid => ?_, hplace.2⟩
      have hfirst := hplace.1 htid
      cases q with
      | lock | scan _ | giveUp | refuse _ | release _ | take _ | enter _ | save _ => exact hfirst
      | test k =>
          simp only [JoinPc.First, hs.held k u hu (hholds k rfl)] at hfirst ⊢
          exact hfirst
      | wait k q =>
          obtain ⟨hnamed, hwaited, hwoken, hqueue⟩ := hfirst
          have hreject := hs.reject u k q hu (by rw [hpc, htid])
          obtain ⟨-, hcv, hstatus⟩ := hs.slot k hnamed
          refine ⟨hnamed, hwaited, fun hr => ?_, fun hr => ?_⟩
          · obtain ⟨hne, hdue⟩ := hwoken (hreject ▸ hr)
            refine ⟨hstatus hne, ?_⟩
            cases q with
            | test | exchange | deschedule => exact hdue
            | asleep => exact fun hw => hdue (hs.waiting u hu hw)
          · rw [hcv]
            exact hqueue (hreject ▸ hr)
      | relock k => exact ⟨hfirst.1, (hs.slot k hfirst.1).2.2 hfirst.2⟩
      | clear k st | reap k st | unname k st | unlock k st => exact ⟨hfirst.1, hex st hfirst.2⟩

/-- So is the assertion of the thread that steps, but for its place. -/
lemma FirstSame.own (hs : FirstSame t₀ j s g t pc s') (h : FirstAssert t₀ j s g t p)
    (hchild : p'.child = some t₀ ↔ p.child = some t₀) (hjoins : p'.JoinsOn t₀ ↔ p.JoinsOn t₀)
    (hnot : ∀ k st, p ≠ .join t₀ (.unlock k st)) (hplace : p'.First t₀ s' g t)
    (hpast : t = t₀ → p'.Popped → p.Popped ∨ FirstPast s g) (hwake : ¬ p.Waking) :
    FirstAssert t₀ j s' g t p' := by
  refine ⟨hchild.trans h.child, fun hp => h.joins (hjoins.mp hp), fun htj htaken => ?_,
    fun htj hw k hk => hjoins.mpr (h.waited htj hw k hk), hplace,
    fun ht hp => hs.past ((hpast ht hp).elim (h.past ht) id), fun ht hw => ?_⟩
  · obtain ⟨k, st, hp⟩ := h.taken htj htaken
    exact absurd hp (hnot k st)
  · exact absurd (h.waking_of ht hw) hwake

/-- What a step of thread `t` establishes. -/
def Firsted (t₀ j : ℕ) (s : ThrLib) (g : FirstGhost) (t : ℕ) (p : ThrPc) (pc : ℕ → ThrPc) : Prop :=
  FirstInv t₀ j s g ∧ FirstAssert t₀ j s g t p ∧ ∀ u, u ≠ t → FirstAssert t₀ j s g u (pc u)

section same

variable (hbase : Threads.Annotated SlotInv SlotAssert (s, pc)) (h : FirstInv t₀ j s g)
  (hA : ∀ u, FirstAssert t₀ j s g u (pc u))

include hbase h hA

/-- **A step that leaves the slot as it is.** -/
lemma Firsted.same (hpc : pc t = p) (hs : FirstSame t₀ j s g t pc s')
    (hchild : p'.child = some t₀ ↔ p.child = some t₀) (hjoins : p'.JoinsOn t₀ ↔ p.JoinsOn t₀)
    (hnot : ∀ k st, p ≠ .join t₀ (.unlock k st)) (hplace : p'.First t₀ s' g t)
    (hpast : t = t₀ → p'.Popped → p.Popped ∨ FirstPast s g) (hwake : ¬ p.Waking) :
    Firsted t₀ j s' g t p' pc :=
  ⟨hs.inv h, hs.own (hpc ▸ hA t) hchild hjoins hnot hplace hpast hwake,
    fun u hu => hs.assert (hA u) hu fun _ hk => mutex_of_holds hbase hk⟩

omit hbase hA in
/-- A step that writes no slot. -/
lemma firstSame_of_pool (hpool : s'.threadPool = s.threadPool) (hsize : s'.size = s.size)
    (htids : t₀ ∈ s'.tids ↔ t₀ ∈ s.tids) (hreject : ∀ u, u ≠ t → s'.reject u = s.reject u)
    (hwaiting : ∀ u, u ≠ t → s'.waiting u = true → s.waiting u = true)
    (hjoined : s'.joined = s.joined) (hexited : s.exited t₀ ≠ none → s'.exited t₀ = s.exited t₀) :
    FirstSame t₀ j s g t pc s' where
  size := hsize.ge
  tids := htids
  kTid k := by rw [hpool]
  idle k hk htid := by
    rw [hsize] at hk
    rw [hpool] at htid ⊢
    exact h.idle k hk htid
  slot k _ := by
    rw [hpool]
    exact ⟨id, rfl, id⟩
  held k _ _ _ := congrFun hpool k
  reject u _ _ hu _ := hreject u hu
  waiting := hwaiting
  joined r _ := by rw [hjoined]
  exited := hexited

omit hbase hA in
lemma firstSame_of_calm (hs : Calm s s') (hwait : s'.waiting = s.waiting) :
    FirstSame t₀ j s g t pc s' :=
  firstSame_of_pool h hs.pool hs.size (by rw [hs.tids]) (fun u _ => congrFun hs.reject u)
    (fun u _ => by rw [hwait]; exact id) hs.joined fun _ => congrFun hs.exited t₀

omit hbase hA in
/-- A step that writes a slot, free or held by the thread. -/
lemma firstSame_of_update (hpool : s'.threadPool = Function.update s.threadPool k d)
    (hm : (s.threadPool k).m = none ∨ (s.threadPool k).m = some t) (hsize : s'.size = s.size)
    (htids : s'.tids = s.tids) (hexited : s'.exited = s.exited) (hwaiting : s'.waiting = s.waiting)
    (hjoined : ∀ r : ℤ × ℤ, r.1 = t₀ → (r ∈ s'.joined ↔ r ∈ s.joined))
    (hreject : ∀ u l q, u ≠ t → pc u = .join t₀ (.wait l q) → s'.reject u = s.reject u)
    (hkTid : d.kTid = t₀ ↔ (s.threadPool k).kTid = t₀)
    (hidle : k < s.size → d.kTid = -1 →
      d.pendingJoin = false ∧ (d.status = .alive → d.joinCv = []))
    (hslot : g.phase = .named k → (d.pendingJoin = true → (s.threadPool k).pendingJoin = true) ∧
      d.joinCv = (s.threadPool k).joinCv ∧ ((s.threadPool k).status ≠ .alive → d.status ≠ .alive)) :
    FirstSame t₀ j s g t pc s' where
  size := hsize.ge
  tids := by rw [htids]
  kTid l := by
    rw [hpool]
    by_cases hlk : l = k
    · subst hlk
      rw [Function.update_self]
      exact hkTid
    · rw [Function.update_of_ne hlk]
  idle l hl htid := by
    rw [hsize] at hl
    rw [hpool] at htid ⊢
    exact h.idle_update hidle hl htid
  slot l hl := by
    rw [hpool]
    by_cases hlk : l = k
    · subst hlk
      rw [Function.update_self]
      exact hslot hl
    · rw [Function.update_of_ne hlk]
      exact ⟨id, rfl, id⟩
  held l u hu hl := by
    rw [hpool, Function.update_of_ne]
    rintro rfl
    rcases hm with hm | hm <;> rw [hm] at hl
    · cases hl
    · exact hu (Option.some.inj hl).symm
  reject := hreject
  waiting u _ hu := hwaiting ▸ hu
  joined := hjoined
  exited _ := congrFun hexited t₀

omit hA in
/-- A step that writes the slot whose mutex the thread holds. -/
lemma firstSame_of_held (hpc : pc t = p) (hp : p.holds = some k)
    (hkTid : d.kTid = t₀ ↔ (s.threadPool k).kTid = t₀)
    (hidle : k < s.size → d.kTid = -1 →
      d.pendingJoin = false ∧ (d.status = .alive → d.joinCv = []))
    (hslot : g.phase = .named k → (d.pendingJoin = true → (s.threadPool k).pendingJoin = true) ∧
      d.joinCv = (s.threadPool k).joinCv ∧ ((s.threadPool k).status ≠ .alive → d.status ≠ .alive)) :
    FirstSame t₀ j s g t pc (s.setThread k d) :=
  firstSame_of_update h rfl (.inr (held_of_pc hbase hpc hp)) rfl rfl rfl rfl (fun _ _ => Iff.rfl)
    (fun _ _ _ _ _ => rfl) hkTid hidle hslot

/-- A step outside of `thr_join`. -/
lemma Firsted.aside (hpc : pc t = p) (hs : FirstSame t₀ j s g t pc s') (hp : ¬ p.Joining)
    (hp' : ¬ p'.Joining) (hchild : p'.child = some t₀ ↔ p.child = some t₀)
    (hpast : t = t₀ → p'.Popped → p.Popped ∨ FirstPast s g) (hwake : ¬ p.Waking) :
    Firsted t₀ j s' g t p' pc := by
  have hnot : ¬ p'.JoinsOn t₀ := ThrPc.not_joinsOn_of_not_joining hp'
  refine Firsted.same hbase h hA hpc hs hchild
    (iff_of_false hnot (ThrPc.not_joinsOn_of_not_joining hp)) ?_
    (ThrPc.first_of_not_joinsOn hnot ?_) hpast hwake
  · rintro k st rfl
    exact hp trivial
  · rintro tid q rfl
    exact absurd trivial hp'

/-- A step inside of `thr_join`. -/
lemma Firsted.inside {tid : ℤ} {q q' : JoinPc} (hpc : pc t = .join tid q)
    (hs : FirstSame t₀ j s g t pc s') (hq : ∀ k st, q ≠ .unlock k st)
    (hfirst : tid = t₀ → q.First t₀ s g t → q'.First t₀ s' g t)
    (hapart : tid ≠ t₀ → q.Apart g → q'.Apart g) :
    Firsted t₀ j s' g t (.join tid q') pc := by
  have hplace := (hA t).place
  rw [hpc] at hplace
  refine Firsted.same hbase h hA hpc hs Iff.rfl ⟨?_, ?_⟩ ?_
    ⟨fun ht => hfirst ht (hplace.1 ht), fun ht => hapart ht (hplace.2 ht)⟩ (fun _ => False.elim)
    id
  · rintro ⟨r, hr⟩
    obtain ⟨rfl, -⟩ := ThrPc.join.inj hr
    exact ⟨q, rfl⟩
  · rintro ⟨r, hr⟩
    obtain ⟨rfl, -⟩ := ThrPc.join.inj hr
    exact ⟨q', rfl⟩
  · rintro k st heq
    exact hq k st (ThrPc.join.inj heq).2

/-- The end of a join on another thread. -/
lemma Firsted.leave {tid : ℤ} {q : JoinPc} (hpc : pc t = .join tid q)
    (hs : FirstSame t₀ j s g t pc s') (htid : tid ≠ t₀) : Firsted t₀ j s' g t .user pc := by
  refine Firsted.same hbase h hA hpc hs Iff.rfl (iff_of_false ?_ ?_) ?_ trivial
    (fun _ => False.elim) id
  · rintro ⟨r, hr⟩
    cases hr
  · rintro ⟨r, hr⟩
    exact htid (ThrPc.join.inj hr).1
  · rintro k st heq
    exact htid (ThrPc.join.inj heq).1

omit hbase in
/-- The join begins when the thread has a slot, and it has not waited yet. -/
lemma named_of_oneJoin (hqueue : Threads.Annotated QueueInv QueueAssert (s, pc))
    (hpc : pc t = .user) (hone : OneJoin t₀ j (s, pc) (t, .thrJoin t₀)) :
    t = j ∧ g.waited = false ∧ ∃ l, g.phase = .named l := by
  simp only [OneJoin, hpc] at hone
  obtain ⟨htj, hin, hchild, hjoined⟩ := hone trivial
  have hnot : ¬ (pc t).JoinsOn t₀ := by
    rw [hpc]
    rintro ⟨q, hq⟩
    cases hq
  have hnamed : ∃ l, g.phase = .named l := by
    cases hphase : g.phase with
    | unborn => exact absurd hin (h.unborn.mp hphase)
    | born v =>
        have hv := (hA v).child.mpr hphase
        refine absurd hv (hchild v (mem_tids_of_pc hqueue ?_))
        intro huser
        change pc v = .user at huser
        rw [huser] at hv
        cases hv
    | named l => exact ⟨l, rfl⟩
    | taken =>
        obtain ⟨k, st, hk⟩ := (hA t).taken htj hphase
        exact absurd ⟨_, hk⟩ hnot
    | joined =>
        obtain ⟨r, hr, htid⟩ := h.joined.mpr hphase
        exact absurd htid (hjoined r hr)
  obtain ⟨l, hl⟩ := hnamed
  refine ⟨htj, ?_, l, hl⟩
  by_contra hw
  exact hnot ((hA t).waited htj (by simpa using hw) l hl)

/-- `thr_join` is called. -/
lemma first_thrJoin (hqueue : Threads.Annotated QueueInv QueueAssert (s, pc)) {tid : ℤ}
    (hpc : pc t = .user) (hone : OneJoin t₀ j (s, pc) (t, .thrJoin tid)) :
    Firsted t₀ j s g t (.join tid .lock) pc := by
  have hs : FirstSame t₀ j s g t pc s := firstSame_of_calm h (.refl s) rfl
  by_cases htid : tid = t₀
  · subst htid
    obtain ⟨htj, hw, l, hl⟩ := named_of_oneJoin h hA hqueue hpc hone
    have hown := hA t
    rw [hpc] at hown
    refine ⟨h, ⟨hown.child, fun _ => htj, fun _ htaken => ?_, fun _ _ _ _ => ⟨.lock, rfl⟩,
      ⟨fun _ => ⟨hw, l, hl⟩, fun _ => trivial⟩, fun _ => False.elim, fun ht hwk => ?_⟩,
      fun u _ => hA u⟩
    · rw [hl] at htaken
      cases htaken
    · obtain ⟨st, k, hk⟩ := hown.waking ht hwk
      cases hk
  · refine Firsted.same hbase h hA hpc hs Iff.rfl (iff_of_false ?_ ?_) nofun
      ⟨fun ht => absurd ht htid, fun _ => trivial⟩ (fun _ => False.elim) id
    · rintro ⟨q, hq⟩
      exact htid (ThrPc.join.inj hq).1
    · rintro ⟨q, hq⟩
      cases hq

omit hbase h in
/-- Nobody is in the join when the thread has no slot. -/
lemma not_joinsOn (hnamed : ∀ k, g.phase ≠ .named k) (htaken : g.phase ≠ .taken) :
    ¬ (pc u).JoinsOn t₀ := by
  rintro ⟨q, hq⟩
  have hplace := (hA u).place
  rw [hq] at hplace
  have hfirst := hplace.1 rfl
  cases q with
  | lock =>
      obtain ⟨-, l, hl⟩ := hfirst
      exact hnamed l hl
  | scan i =>
      obtain ⟨-, l, hl, -⟩ := hfirst
      exact hnamed l hl
  | giveUp | refuse _ => exact hfirst
  | release k | take k | enter k => exact hnamed k hfirst.2
  | test k | wait k _ | relock k | clear k st | reap k st | unname k st => exact hnamed k hfirst.1
  | save k => exact hnamed k hfirst
  | unlock k st => exact htaken hfirst.1

omit hbase in
/-- The thread is forked. -/
lemma first_fork {top : ℕ → BitVec 32} (hnew : t₀ ∉ s.tids) (hjoin : ¬ p'.Joining)
    (hchild : p'.child = some t₀) (hpop : ¬ p'.Popped) (hwake : ¬ (pc t).Waking) :
    Firsted t₀ j { s with tids := t₀ :: s.tids, top := top } { g with phase := .born t } t p'
      pc := by
  have hphase := h.unborn.mpr hnew
  have hslot : ∀ k, (s.threadPool k).kTid ≠ t₀ := by
    intro k hk
    have hk := (h.slot k).mp hk
    rw [hphase] at hk
    cases hk
  have hjoins : ∀ u, ¬ (pc u).JoinsOn t₀ := fun u => not_joinsOn hA (by rw [hphase]; nofun)
    (by rw [hphase]; nofun)
  have hw : ¬ g.waited = true := fun hw => (h.waited hw).1 hphase
  refine ⟨⟨iff_of_false nofun (not_not.mpr (.head _)), fun k => iff_of_false (hslot k) nofun, nofun,
    h.idle, fun hw' => absurd hw' hw, nofun, nofun, ?_, h.status⟩,
    ⟨iff_of_true hchild rfl, ?_, nofun, nofun, ?_, fun _ hs => absurd hs hpop, fun ht hw' => ?_⟩,
    fun u hu => ⟨iff_of_false ?_ ?_, (hA u).joins, nofun, nofun, ?_, fun ht hs => ?_,
      (hA u).waking⟩⟩
  · refine iff_of_false (fun hj => ?_) nofun
    have hj := h.joined.mp hj
    rw [hphase] at hj
    cases hj
  · exact fun hj => absurd hj (ThrPc.not_joinsOn_of_not_joining hjoin)
  · refine ThrPc.first_of_not_joinsOn (ThrPc.not_joinsOn_of_not_joining hjoin) fun _ q _ => ?_
    exact q.apart_of_unnamed fun _ hnamed => by cases hnamed
  · exact absurd ((hA t).waking_of ht hw') hwake
  · intro hc
    have hb := (hA u).child.mp hc
    rw [hphase] at hb
    cases hb
  · rintro heq
    exact hu (FirstPhase.born.inj heq).symm
  · refine ThrPc.first_of_not_joinsOn (hjoins u) fun _ q _ => ?_
    exact q.apart_of_unnamed fun _ hnamed => by cases hnamed
  · exact absurd hphase ((hA u).past ht hs).1

omit hbase in
/-- The thread gets its slot. -/
lemma first_named (hphase : g.phase = .born t) (hk : k < s'.size)
    (hnew : ∀ l < s'.size, l < s.size ∨ l = k)
    (hpool : ∀ l, l ≠ k → s'.threadPool l = s.threadPool l)
    (hslot : (s'.threadPool k).kTid = t₀ ∧ (s'.threadPool k).pendingJoin = false ∧
      (s'.threadPool k).joinCv = []) (htids : s'.tids = s.tids) (hexited : s'.exited = s.exited)
    (hjoined : s'.joined = s.joined) (hholds : ∀ u, u ≠ t → (pc u).holds ≠ some k)
    (hjoin : ¬ p'.Joining) (hchild : p'.child = none) (hpop : ¬ p'.Popped)
    (hwake : ¬ (pc t).Waking) :
    Firsted t₀ j s' { g with phase := .named k } t p' pc := by
  -- the thread has no slot yet, so nobody has found it or waits for it
  have hold : ∀ l, (s.threadPool l).kTid ≠ t₀ := by
    intro l hl
    have hl := (h.slot l).mp hl
    rw [hphase] at hl
    cases hl
  have hjoins : ∀ u, ¬ (pc u).JoinsOn t₀ := fun u => not_joinsOn hA (by rw [hphase]; nofun)
    (by rw [hphase]; nofun)
  have hw : ¬ g.waited = true := fun hw => (h.waited hw).2 t hphase
  have hin : t₀ ∈ s.tids := by
    by_contra hnot
    have hun := h.unborn.mpr hnot
    rw [hphase] at hun
    cases hun
  -- first the invariant, then this thread, then the others
  refine ⟨⟨?_, fun l => ⟨fun hl => ?_, ?_⟩, ?_, fun l hl htid => ?_, fun hw' => absurd hw' hw,
    ?_, ?_, ?_, ?_⟩, ⟨?_, ?_, nofun, fun _ hw' => absurd hw' hw, ?_, fun _ hs => absurd hs hpop,
      fun ht hw' => absurd ((hA t).waking_of ht hw') hwake⟩,
    fun u hu => ⟨iff_of_false ?_ nofun, (hA u).joins, nofun, fun _ hw' => absurd hw' hw, ?_,
      fun ht hs => absurd hphase (((hA u).past ht hs).2.1 t), (hA u).waking⟩⟩
  · rw [htids]
    exact iff_of_false nofun (not_not.mpr hin)
  · by_cases hlk : l = k
    · rw [hlk]
    · rw [hpool l hlk] at hl
      exact absurd hl (hold l)
  -- the slot that got the name is the only one with it
  · rintro ⟨⟩
    exact hslot.1
  · rintro l ⟨⟩
    exact hk
  · by_cases hlk : l = k
    · rw [hlk, hslot.1] at htid
      omega
    · rw [hpool l hlk] at htid ⊢
      exact h.idle l ((hnew l hl).resolve_right hlk) htid
  -- nothing is pending on it and nobody is in its queue
  · rintro l ⟨⟩ hp
    rw [hslot.2.1] at hp
    cases hp
  · rintro l ⟨⟩
    exact .inl hslot.2.2
  -- it was not joined
  · rw [hjoined]
    refine iff_of_false (fun hj => ?_) nofun
    have hj := h.joined.mp hj
    rw [hphase] at hj
    cases hj
  · rw [hjoined, hexited]
    exact h.status
  · rw [hchild]
    exact iff_of_false nofun nofun
  · exact fun hj => absurd hj (ThrPc.not_joinsOn_of_not_joining hjoin)
  · refine ThrPc.first_of_not_joinsOn (ThrPc.not_joinsOn_of_not_joining hjoin) ?_
    rintro tid q rfl
    exact absurd trivial hjoin
  · intro hc
    have hb := (hA u).child.mp hc
    rw [hphase] at hb
    exact hu (FirstPhase.born.inj hb).symm
  -- another thread in a join of some other slot stays apart from this one
  · have hne := hholds u hu
    refine ThrPc.first_of_not_joinsOn (hjoins u) fun tid q hp => ?_
    rw [hp] at hne
    cases q with
    | save l | clear l st | reap l st | unname l st =>
        rintro heq
        exact hne (congrArg some (FirstPhase.named.inj heq).symm)
    | lock | scan _ | giveUp | refuse _ | release _ | take _ | enter _ | test _ | wait _ _
    | relock _ | unlock _ _ => trivial

/-- A new slot is put at the end of the pool. -/
lemma first_add {d : ℕ} {esp : BitVec 32} {pending : Bool} {st : ℤ}
    (hpc : pc t = .create (.add d esp)) (hpend : d = t₀ → pending = false) :
    ∃ g', Firsted t₀ j
      { s.setThread s.size ⟨pending, d, .alive, st, [], none, esp⟩ with size := s.size + 1 } g' t
      (.create .addUnlock) pc := by
  set s' : ThrLib :=
    { s.setThread s.size ⟨pending, d, .alive, st, [], none, esp⟩ with size := s.size + 1 } with hs'
  have hself : s'.threadPool s.size = ⟨pending, d, .alive, st, [], none, esp⟩ :=
    Function.update_self ..
  have hof : ∀ l, l ≠ s.size → s'.threadPool l = s.threadPool l :=
    fun l hl => Function.update_of_ne hl ..
  have hchild := (hA t).child
  rw [hpc] at hchild
  by_cases hd : d = t₀
  · subst hd
    have hslot : (s'.threadPool s.size).kTid = d ∧ (s'.threadPool s.size).pendingJoin = false ∧
        (s'.threadPool s.size).joinCv = [] := by
      rw [hself]
      exact ⟨rfl, hpend rfl, rfl⟩
    refine ⟨_, first_named (k := s.size) h hA (hchild.mp rfl) (Nat.lt_succ_self _)
      (fun l hl => by change l < s.size + 1 at hl; omega) hof hslot rfl rfl rfl
      (fun u _ hu => ?_) id rfl id (by rw [hpc]; exact id)⟩
    exact absurd (found_lt (c := (s, pc)) hbase (found_of_holds hu)) (lt_irrefl s.size)
  · obtain ⟨gs, hI, -⟩ := id hbase
    obtain ⟨hnone, -, hfree⟩ := hI.beyond s.size le_rfl
    have hne : (d : ℤ) ≠ t₀ := fun heq => hd (Int.ofNat_inj.mp heq)
    refine ⟨g, Firsted.aside hbase h hA hpc ⟨Nat.le_succ _, Iff.rfl, fun l => ?_,
      fun l hl htid => ?_, fun l hl => ?_, fun l u _ hl => hof l ?_, fun _ _ _ _ _ => rfl,
      fun _ _ => id, fun _ _ => Iff.rfl, fun _ => rfl⟩ id id
      (iff_of_false nofun fun hc => hd (Option.some.inj hc)) (fun _ => False.elim) id⟩
    · by_cases hls : l = s.size
      · rw [hls, hself, hnone]
        exact iff_of_false hne (by omega)
      · rw [hof l hls]
    · change l < s.size + 1 at hl
      by_cases hls : l = s.size
      · rw [hls, hself] at htid
        change (d : ℤ) = -1 at htid
        omega
      · rw [hof l hls] at htid ⊢
        exact h.idle l (by omega) htid
    · rw [hof l (h.inside l hl).ne]
      exact ⟨id, rfl, id⟩
    · rintro rfl
      rw [hfree] at hl
      cases hl

/-- A resurrected slot is named. -/
lemma first_name {d : ℕ} (hpc : pc t = .create (.tidSet k d)) :
    ∃ g', Firsted t₀ j (s.setThread k { s.threadPool k with kTid := d }) g' t
      (.create (.tidUnlock k)) pc := by
  obtain ⟨halive, hnone⟩ := claimed_of_pc (k := k) hbase hpc rfl
  have hk : k < s.size := size_of_pc hbase hpc rfl
  have hm : (s.threadPool k).m = some t := held_of_pc hbase hpc rfl
  have hchild := (hA t).child
  rw [hpc] at hchild
  by_cases hd : d = t₀
  · subst hd
    obtain ⟨hpend, hcv⟩ := h.idle k hk hnone
    refine ⟨_, first_named (k := k) h hA (hchild.mp rfl) hk (fun l hl => .inl hl)
      (fun l hl => Function.update_of_ne hl ..) ?_ rfl rfl rfl (fun u hu hh => ?_) id rfl id
      (by rw [hpc]; exact id)⟩
    · rw [setThread_self]
      exact ⟨rfl, hpend, hcv halive⟩
    · have hmu := mutex_of_holds (c := (s, pc)) hbase hh
      change (s.threadPool k).m = _ at hmu
      rw [hm] at hmu
      exact hu (Option.some.inj hmu).symm
  · have hne : (d : ℤ) ≠ t₀ := fun heq => hd (Int.ofNat_inj.mp heq)
    refine ⟨g, Firsted.aside hbase h hA hpc (firstSame_of_held hbase h hpc (k := k) rfl
      (iff_of_false hne (by rw [hnone]; omega)) (fun _ htid => ?_) fun hl => ?_) id id
      (iff_of_false nofun fun hc => hd (Option.some.inj hc)) (fun _ => False.elim) id⟩
    · change (d : ℤ) = -1 at htid
      omega
    · have htid := (h.slot k).mpr hl
      rw [hnone] at htid
      omega

/-- The thread that exits sets the flag of the head of the queue. -/
lemma first_signal {st : ℤ} {v : ℕ} {q : List ℕ}
    (hqueue : Threads.Annotated QueueInv QueueAssert (s, pc)) (hpc : pc t = .exit st (.signal k))
    (hund : FirstUndisturbed t₀ (s, pc) (t, .run)) (hq : (s.threadPool k).joinCv = v :: q) :
    ∃ g', Firsted t₀ j { s.setThread k { s.threadPool k with joinCv := q } with
      reject := Function.update s.reject v true } g' t (.exit st (.wake k v)) pc := by
  have hk : k < s.size := size_of_pc hbase hpc rfl
  have hm : (s.threadPool k).m = some t := held_of_pc hbase hpc rfl
  obtain ⟨w, -, hQ⟩ := hqueue
  have hsees := (hQ t).sees
  change ThrPc.Sees s t (pc t) at hsees
  rw [hpc] at hsees
  obtain ⟨htid, hzombie⟩ := hsees
  have hown := hA t
  rw [hpc] at hown
  set s' : ThrLib := { s.setThread k { s.threadPool k with joinCv := q } with
    reject := Function.update s.reject v true } with hs'
  have hpool : s'.threadPool =
      Function.update s.threadPool k { s.threadPool k with joinCv := q } := rfl
  by_cases hnamed : g.phase = .named k
  · -- the thread itself, and the queue is that of the one join
    have htt : t = t₀ := by
      have ht := (h.slot k).mpr hnamed
      rw [htid] at ht
      exact Int.ofNat_inj.mp ht
    obtain ⟨hw, rfl, rfl⟩ : g.waited = true ∧ v = j ∧ q = [] := by
      rcases h.queue k hnamed with hnil | ⟨hw, hcv⟩
      · rw [hq] at hnil
        cases hnil
      · rw [hq] at hcv
        exact ⟨hw, (List.cons.inj hcv).1, (List.cons.inj hcv).2⟩
    have hself : s'.threadPool k = { s.threadPool k with joinCv := [] } := Function.update_self ..
    have hinj : ∀ l, g.phase = .named l → l = k := by
      intro l hl
      rw [hnamed] at hl
      exact (FirstPhase.named.inj hl).symm
    -- the thread has left its status, and nobody is to be woken after the joiner
    have hpast : FirstPast s' g := by
      refine ⟨by rw [hnamed]; nofun, by rw [hnamed]; nofun, fun l hl => ?_⟩
      rw [hinj l hl, hself]
      exact ⟨by rw [hzombie]; nofun, rfl⟩
    -- the joiner is not between its test and its `xchng`, so it sees the flag
    have hout : ¬ (pc v).SleepsAt .exchange := by
      simp only [FirstUndisturbed, hpc] at hund
      exact hund htt v (by rw [hq]; rfl)
    refine ⟨{ g with waking := true }, ⟨h.unborn, h.slot_update Iff.rfl, h.inside,
      fun l => h.idle_update fun _ hnone => ?_, h.waited, fun l hl hp => ?_,
      fun l hl => .inl (hpast.2.2 l hl).2, h.joined, h.status⟩,
      hown.exit rfl rfl (fun _ _ => hpast) fun _ _ => ⟨k, rfl⟩,
      fun u hu => ⟨(hA u).child, (hA u).joins, (hA u).taken, (hA u).waited, ?_,
        fun _ _ => hpast, fun hut => absurd (hut.trans htt.symm) hu⟩⟩
    · change (s.threadPool k).kTid = -1 at hnone
      rw [htid] at hnone
      omega
    · rw [hinj l hl, hself] at hp
      exact h.pending k hnamed hp
    · have hplace := (hA u).place
      cases hp : pc u with
      | user | create _ | exit _ _ | vanished => trivial
      | join tid r =>
          rw [hp] at hplace
          refine ⟨fun hjoin => ?_, hplace.2⟩
          have hfirst := hplace.1 hjoin
          cases r with
          | lock | scan _ | giveUp | refuse _ | release _ | take _ | enter _ | save _
          | clear _ _ | reap _ _ | unname _ _ | unlock _ _ => exact hfirst
          | test l =>
              -- the mutex is held by the thread that exits
              have hmu := held_of_pc hbase hp rfl
              rw [hinj l hfirst.1, hm] at hmu
              exact absurd (Option.some.inj hmu).symm hu
          | wait l r =>
              obtain rfl := (hA u).joins ⟨.wait l r, by rw [hp, hjoin]⟩
              refine ⟨hfirst.1, hfirst.2.1, fun _ => ⟨(hpast.2.2 l hfirst.1).1, ?_⟩, fun hr => ?_⟩
              · -- it has not come to the `xchng` that would write over the flag
                cases r with
                | test => trivial
                | exchange => exact hout (by rw [hp]; rfl)
                | deschedule => rfl
                | asleep => exact fun _ => rfl
              · change Function.update s.reject u true u = false at hr
                rw [Function.update_self] at hr
                cases hr
          | relock l => exact ⟨hfirst.1, (hpast.2.2 l hfirst.1).1⟩
  · have hne : (s.threadPool k).kTid ≠ t₀ := fun heq => hnamed ((h.slot k).mp heq)
    refine ⟨g, Firsted.aside hbase h hA hpc (firstSame_of_update h hpool (.inr hm) rfl rfl rfl rfl
      (fun _ _ => Iff.rfl) (fun u l r hu hp => ?_) Iff.rfl (fun hl hnone => ?_)
      fun hl => absurd hl hnamed) id id Iff.rfl (fun ht _ => ?_) id⟩
    · -- one who waits for the thread is not in this queue
      refine Function.update_of_ne ?_ ..
      rintro rfl
      have hwait := ((hQ u).queued k hk (by rw [hq]; exact .head q)).1
      have hplace := (hA u).place
      change (pc u).Waits k at hwait
      rw [hp] at hwait hplace
      obtain rfl : l = k := hwait
      exact hnamed (hplace.1 rfl).1
    · change (s.threadPool k).kTid = -1 at hnone
      rw [htid] at hnone
      omega
    · rw [htid, ht] at hne
      exact absurd rfl hne

/-- The thread that exits makes the head of the queue runnable. -/
lemma first_wake {st : ℤ} {v : ℕ} (hpc : pc t = .exit st (.wake k v))
    (hund : FirstUndisturbed t₀ (s, pc) (t, .run)) :
    ∃ g', Firsted t₀ j { s with waiting := Function.update s.waiting v false } g' t
      (.exit st (.unlock k)) pc := by
  have hfall : ∀ u, Function.update s.waiting v false u = true → u ≠ v ∧ s.waiting u = true := by
    intro u hu
    by_cases huv : u = v
    · rw [huv, Function.update_self] at hu
      cases hu
    · rw [Function.update_of_ne huv] at hu
      exact ⟨huv, hu⟩
  have hown := hA t
  rw [hpc] at hown
  by_cases htt : t = t₀
  · have hvj : g.waking = true → v = j := by
      intro hw
      obtain ⟨st', l, heq⟩ := hown.waking htt hw
      exact (ExitPc.wake.inj (ThrPc.exit.inj heq).2).2
    have hout : ¬ (pc v).SleepsAt .deschedule := by
      simp only [FirstUndisturbed, hpc] at hund
      exact hund htt
    refine ⟨{ g with waking := false }, ⟨h.unborn, h.slot, h.inside, h.idle, h.waited, h.pending,
      h.queue, h.joined, h.status⟩, hown.exit rfl rfl (fun ht _ => hown.past ht trivial) nofun,
      fun u hu => ⟨(hA u).child, (hA u).joins, (hA u).taken, (hA u).waited, ?_, (hA u).past,
        fun hut => absurd (hut.trans htt.symm) hu⟩⟩
    · have hplace := (hA u).place
      cases hp : pc u with
      | user | create _ | exit _ _ | vanished => trivial
      | join tid r =>
          rw [hp] at hplace
          refine ⟨fun hjoin => ?_, hplace.2⟩
          have hfirst := hplace.1 hjoin
          cases r with
          | wait l r =>
              obtain rfl := (hA u).joins ⟨.wait l r, by rw [hp, hjoin]⟩
              refine ⟨hfirst.1, hfirst.2.1, fun hr => ?_, hfirst.2.2.2⟩
              obtain ⟨hne, hdue⟩ := hfirst.2.2.1 hr
              refine ⟨hne, ?_⟩
              -- it is descheduled, or on its way to the test
              cases r with
              | test => trivial
              | exchange => exact hdue
              | deschedule =>
                  refine absurd ?_ hout
                  rw [hvj hdue, hp]
                  rfl
              | asleep =>
                  intro hw
                  obtain ⟨hne', hw'⟩ := hfall u hw
                  exact absurd (hvj (hdue hw')).symm hne'
          | _ => exact hfirst
  · refine ⟨g, ⟨h.unborn, h.slot, h.inside, h.idle, h.waited, h.pending, h.queue, h.joined,
      h.status⟩, hown.exit rfl rfl (fun ht => absurd ht htt) fun ht => absurd ht htt,
      fun u hu => ?_⟩
    exact FirstSame.assert (firstSame_of_pool h rfl rfl Iff.rfl (fun _ _ => rfl)
      (fun u _ hw => (hfall u hw).2) rfl fun _ => rfl) (hA u) hu
      fun _ hk => mutex_of_holds hbase hk

omit hbase in
/-- The join goes to wait. -/
lemma first_wait (hpc : pc t = .join t₀ (.test k)) (halive : (s.threadPool k).status = .alive) :
    Firsted t₀ j { s.setThread k { s.threadPool k with
        pendingJoin := true, joinCv := (s.threadPool k).joinCv ++ [t], m := none } with
      reject := Function.update s.reject t false } { g with waited := true } t
      (.join t₀ (.wait k .test)) pc := by
  have hown := hA t
  rw [hpc] at hown
  obtain ⟨hnamed, htest⟩ := hown.place.1 rfl
  obtain ⟨hw, hpend⟩ := htest halive
  obtain rfl := hown.joins ⟨_, rfl⟩
  -- nobody else has joined, so the queue of the slot is empty
  have hnil : (s.threadPool k).joinCv = [] := by
    rcases h.queue k hnamed with hnil | ⟨hw', -⟩
    · exact hnil
    · rw [hw] at hw'
      cases hw'
  rw [hnil]
  set s' : ThrLib := { s.setThread k { s.threadPool k with
      pendingJoin := true, joinCv := [] ++ [t], m := none } with
    reject := Function.update s.reject t false } with hs'
  have hself : s'.threadPool k = { s.threadPool k with
      pendingJoin := true, joinCv := [t], m := none } := Function.update_self ..
  have hinj : ∀ l, g.phase = .named l → l = k := by
    intro l hl
    rw [hnamed] at hl
    exact (FirstPhase.named.inj hl).symm
  have htaken : g.phase ≠ .taken := by
    rw [hnamed]
    nofun
  -- the slot now has its waiter, and the rest of the invariant is as before
  refine ⟨⟨h.unborn, h.slot_update Iff.rfl, h.inside, fun l => h.idle_update fun _ hnone => ?_,
    fun _ => ?_, fun _ _ _ => rfl, fun l hl => .inr ⟨rfl, ?_⟩, h.joined, h.status⟩,
    ⟨hown.child, fun _ => rfl, fun _ ht => absurd ht htaken, fun _ _ _ _ => ⟨_, rfl⟩,
      ⟨fun _ => ⟨hnamed, rfl, fun hr => ?_, fun _ => ?_⟩, fun ht => absurd rfl ht⟩,
      fun _ => False.elim, fun ht hw' => (hown.waking_of ht hw').elim⟩,
    fun u hu => ⟨(hA u).child, (hA u).joins, (hA u).taken, fun ht => absurd ht hu, ?_,
      fun ht hp => ?_, (hA u).waking⟩⟩
  · change (s.threadPool k).kTid = -1 at hnone
    rw [(h.slot k).mpr hnamed] at hnone
    omega
  · rw [hnamed]
    exact ⟨nofun, nofun⟩
  · rw [hinj l hl, hself]
  · change Function.update s.reject t false t = true at hr
    rw [Function.update_self] at hr
    cases hr
  · rw [hself]
  · -- another thread joins another one
    have hnot : ¬ (pc u).JoinsOn t₀ := fun hj => hu ((hA u).joins hj)
    refine ThrPc.first_of_not_joinsOn hnot fun tid r hp => ?_
    have hplace := (hA u).place
    rw [hp] at hplace
    refine hplace.2 ?_
    rintro rfl
    exact hnot ⟨r, hp⟩
  · exact absurd halive (((hA u).past ht hp).2.2 k hnamed).1

/-- The join takes the thread out of its slot. -/
lemma first_unname {st : ℤ} (hqueue : Threads.Annotated QueueInv QueueAssert (s, pc))
    (hpc : pc t = .join t₀ (.unname k st)) :
    Firsted t₀ j (s.setThread k { s.threadPool k with kTid := -1 }) { g with phase := .taken } t
      (.join t₀ (.unlock k st)) pc := by
  have hown := hA t
  rw [hpc] at hown
  obtain ⟨hnamed, hexited⟩ := hown.place.1 rfl
  obtain rfl := hown.joins ⟨_, rfl⟩
  -- the slot has been reaped, and nobody waits on it
  have hdead : (s.threadPool k).status = .dead := knows_of_pc hbase hpc
  have hpend : (s.threadPool k).pendingJoin = false := by
    obtain ⟨w, -, hQ⟩ := hqueue
    have hsees := (hQ t).sees
    change ThrPc.Sees s t (pc t) at hsees
    rwa [hpc] at hsees
  refine ⟨⟨iff_of_false nofun (not_not.mpr ?_), fun l => iff_of_false (fun hl => ?_) nofun, nofun,
    fun l => h.idle_update (d := { s.threadPool k with kTid := -1 })
      fun _ _ => ⟨hpend, fun halive => ?_⟩, fun _ => ⟨nofun, nofun⟩, nofun, nofun, iff_of_false (fun hj => ?_) nofun,
    h.status⟩, ⟨iff_of_false nofun nofun, fun _ => rfl, fun _ _ => ⟨k, st, rfl⟩, nofun,
      ⟨fun _ => ⟨rfl, hexited⟩, fun ht => absurd rfl ht⟩, fun _ => False.elim,
      fun ht hw => (hown.waking_of ht hw).elim⟩,
    fun u hu => ⟨iff_of_false (fun hc => ?_) nofun, (hA u).joins, fun ht => absurd ht hu, nofun, ?_,
      fun _ _ => ⟨nofun, nofun, nofun⟩, (hA u).waking⟩⟩
  -- the thread had been created
  · by_contra hnot
    have hun := h.unborn.mpr hnot
    rw [hnamed] at hun
    cases hun
  · by_cases hlk : l = k
    · rw [hlk, setThread_self] at hl
      change (-1 : ℤ) = t₀ at hl
      omega
    · have hof : (s.setThread k { s.threadPool k with kTid := -1 }).threadPool l =
          s.threadPool l := Function.update_of_ne hlk ..
      rw [hof] at hl
      have hl := (h.slot l).mp hl
      rw [hnamed] at hl
      exact hlk (FirstPhase.named.inj hl).symm
  · change (s.threadPool k).status = .alive at halive
    rw [hdead] at halive
    cases halive
  · have hj := h.joined.mp hj
    rw [hnamed] at hj
    cases hj
  · have hb := (hA u).child.mp hc
    rw [hnamed] at hb
    cases hb
  · refine ThrPc.first_of_not_joinsOn (fun hj => hu ((hA u).joins hj)) fun _ r _ => ?_
    exact r.apart_of_unnamed fun _ hnamed => by cases hnamed

/-- The join returns. -/
lemma first_finish {st : ℤ} (hpc : pc t = .join t₀ (.unlock k st)) :
    Firsted t₀ j { s.mutexUnlock k with joined := ((t₀ : ℤ), st) :: s.joined }
      { g with phase := .joined } t .user pc := by
  have hown := hA t
  rw [hpc] at hown
  obtain ⟨htaken, hexited⟩ := hown.place.1 rfl
  obtain rfl := hown.joins ⟨_, rfl⟩
  -- but for the end of the call the step gives the mutex back
  have hs : FirstSame t₀ t s g t pc (s.mutexUnlock k) :=
    firstSame_of_held hbase h hpc (k := k) rfl Iff.rfl (h.idle k) fun _ => ⟨id, rfl, id⟩
  obtain ⟨hun, hkTid, -, hidle, -, -, -, -, hst⟩ := hs.inv h
  refine ⟨⟨iff_of_false nofun ?_, fun l => iff_of_false (fun hl => ?_) nofun, nofun, hidle,
    fun _ => ⟨nofun, nofun⟩, nofun, nofun, iff_of_true ⟨_, .head _, rfl⟩ rfl, fun r hr ht => ?_⟩,
    ⟨iff_of_false nofun nofun, fun hj => ?_, nofun, nofun, trivial, fun _ => False.elim,
      fun ht hw => (hown.waking_of ht hw).elim⟩,
    fun u hu => ⟨iff_of_false (fun hc => ?_) nofun, (hA u).joins, nofun, nofun, ?_,
      fun _ _ => ⟨nofun, nofun, nofun⟩, (hA u).waking⟩⟩
  · intro hnot
    have hphase := hun.mpr hnot
    rw [htaken] at hphase
    cases hphase
  · have hl := (hkTid l).mp hl
    rw [htaken] at hl
    cases hl
  · rcases List.mem_cons.mp hr with rfl | hr
    · exact hexited
    · exact hst r hr ht
  · obtain ⟨r, hr⟩ := hj
    cases hr
  · have hb := (hA u).child.mp hc
    rw [htaken] at hb
    cases hb
  · refine ThrPc.first_of_not_joinsOn (fun hj => hu ((hA u).joins hj)) fun _ r _ => ?_
    exact r.apart_of_unnamed fun _ hnamed => by cases hnamed

omit h in
/-- What the steps of the join that only read learn. -/
lemma first_look (h : FirstInv t₀ j s g) {tid : ℤ} {q : JoinPc} (hpc : pc t = .join tid q)
    (hund : FirstUndisturbed t₀ (s, pc) (t, .run)) (hcalm : Calm s s')
    (hwait : s'.waiting = s.waiting) (hq : ThrPc.Looks s t tid q p') :
    Firsted t₀ j s' g t p' pc := by
  have hs : FirstSame t₀ j s g t pc s' := firstSame_of_calm h hcalm hwait
  have hplace := (hA t).place
  rw [hpc] at hplace
  cases hq with
  | lock =>
      refine Firsted.inside hbase h hA hpc hs nofun (fun _ hf => ?_) fun _ _ => trivial
      obtain ⟨hw, l, hl⟩ := hf
      exact ⟨hw, l, hl, Nat.zero_le l⟩
  | found k hk htid =>
      refine Firsted.inside hbase h hA hpc hs nofun (fun ht hf => ?_) fun _ _ => trivial
      exact ⟨hf.1, (h.slot k).mp (htid.trans ht)⟩
  | next k hk htid =>
      refine Firsted.inside hbase h hA hpc hs nofun (fun ht hf => ?_) fun _ _ => trivial
      obtain ⟨hw, l, hl, hle⟩ := hf
      refine ⟨hw, l, hl, lt_of_le_of_ne hle ?_⟩
      rintro rfl
      exact htid (((h.slot k).mpr hl).trans ht.symm)
  | missed k hk =>
      refine Firsted.inside hbase h hA hpc hs nofun (fun _ hf => ?_) fun _ _ => trivial
      obtain ⟨-, l, hl, hle⟩ := hf
      have hlt := h.inside l hl
      omega
  | giveUp => exact Firsted.leave hbase h hA hpc hs fun ht => hplace.1 ht
  | release k => exact Firsted.inside hbase h hA hpc hs nofun (fun _ => id) fun _ _ => trivial
  | dead k hdead =>
      refine Firsted.inside hbase h hA hpc hs nofun (fun _ hf => ?_) fun _ _ => trivial
      have hnone := (settled_of_pc (k := k) hbase hpc rfl id).dead hdead
      rw [(h.slot k).mpr hf.2] at hnone
      omega
  | enter k hdead =>
      refine Firsted.inside hbase h hA hpc hs nofun (fun _ hf => ?_) fun _ _ => trivial
      obtain ⟨hw, hnamed⟩ := hf
      refine ⟨hnamed, fun _ => ⟨hw, ?_⟩⟩
      rw [hcalm.pool]
      by_contra hp
      have hw' := h.pending k hnamed (by simpa using hp)
      rw [hw] at hw'
      cases hw'
  | pending k halive hpend =>
      refine Firsted.inside hbase h hA hpc hs nofun (fun _ hf => ?_) fun _ _ => trivial
      have hfalse := (hf.2 halive).2
      rw [hpend] at hfalse
      cases hfalse
  | pass k halive =>
      refine Firsted.inside hbase h hA hpc hs nofun (fun _ hf => hf.1) fun ht _ hnamed => ?_
      -- the join for another thread has found another slot
      simp only [FirstUndisturbed, hpc] at hund
      rcases hund with heq | hdead | ⟨hne, -⟩
      · exact ht heq
      · have hnone := (settled_of_pc (k := k) hbase hpc rfl id).dead hdead
        rw [(h.slot k).mpr hnamed] at hnone
        omega
      · exact hne ((h.slot k).mpr hnamed)
  | woken k hreject =>
      refine Firsted.inside hbase h hA hpc hs nofun (fun _ hf => ?_) fun _ _ => trivial
      obtain ⟨hnamed, -, hwoken, -⟩ := hf
      refine ⟨hnamed, ?_⟩
      rw [hcalm.pool]
      exact (hwoken hreject).1
  | unwoken k hreject | exchange k hreject =>
      refine Firsted.inside hbase h hA hpc hs nofun (fun _ hf => ?_) fun _ _ => trivial
      obtain ⟨hnamed, hwaited, -, hqueue⟩ := hf
      refine ⟨hnamed, hwaited, fun hr => ?_, fun _ => ?_⟩
      · rw [hcalm.reject, hreject] at hr
        cases hr
      · rw [hcalm.pool]
        exact hqueue hreject
  | wakes k _ =>
      refine Firsted.inside hbase h hA hpc hs nofun (fun _ hf => ?_) fun _ _ => trivial
      obtain ⟨hnamed, hwaited, hwoken, hqueue⟩ := hf
      rw [← hcalm.reject, ← hcalm.pool] at hwoken hqueue
      exact ⟨hnamed, hwaited, fun hr => ⟨(hwoken hr).1, trivial⟩, hqueue⟩
  | save k =>
      refine Firsted.inside hbase h hA hpc hs nofun (fun _ hf => ?_) fun _ => id
      refine ⟨hf, ?_⟩
      have hsettled := settled_of_pc (k := k) hbase hpc rfl id
      have hne : (s.threadPool k).status ≠ .alive := knows_of_pc hbase hpc
      have htid := (h.slot k).mpr hf
      rw [hcalm.exited]
      cases hst : (s.threadPool k).status with
      | alive => exact absurd hst hne
      | dead =>
          have hnone := hsettled.dead hst
          omega
      | zombie =>
          obtain ⟨v, hv, hexited⟩ := hsettled.zombie hst
          obtain rfl : v = t₀ := Int.ofNat_inj.mp (hv.symm.trans htid)
          exact hexited

/-- **The steps of a thread** in an undisturbed run keep the state annotated. -/
theorem thrMove_first (hqueue : Threads.Annotated QueueInv QueueAssert (s, pc)) (hpc : pc t = p)
    (hone : OneJoin t₀ j (s, pc) (t, a)) (hund : FirstUndisturbed t₀ (s, pc) (t, a))
    (hs : ThrMove s t p a s' p') : ∃ g', Firsted t₀ j s' g' t p' pc := by
  cases hs with
  | thrExit st =>
      refine ⟨g, Firsted.aside hbase h hA hpc (firstSame_of_pool h rfl rfl Iff.rfl
        (fun _ _ => rfl) (fun _ _ => id) rfl fun hex => ?_) id id Iff.rfl (fun _ => False.elim) id⟩
      -- the first joiner has not begun to exit: it would have a status already
      refine Function.update_of_ne ?_ ..
      rintro rfl
      obtain ⟨gs, -, hS⟩ := hbase
      have hnone : (pc t₀).Exited s t₀ := (hS t₀).exited
      rw [hpc] at hnone
      exact hex hnone
  | thrJoin tid =>
      exact ⟨g, first_thrJoin hbase h hA hqueue hpc hone⟩
  | calm hcalm hwait hp =>
      exact ⟨g, Firsted.aside hbase h hA hpc (firstSame_of_calm h hcalm hwait) hp.joining
        hp.joining' (by rw [hp.child]) (fun _ hpop => .inl (hp.popped.mp hpop)) hp.waking⟩
  | addLock d esp hw =>
      exact ⟨g, Firsted.aside hbase h hA hpc (firstSame_of_pool h rfl rfl Iff.rfl (fun _ _ => rfl)
        (fun _ _ => id) rfl fun _ => rfl) id id Iff.rfl (fun _ => False.elim) id⟩
  -- a new slot: what `malloc` leaves in it matters only if it is that of `t₀`
  | add d esp pending st =>
      simp only [FirstUndisturbed, hpc] at hund
      exact first_add hbase h hA hpc hund
  | addUnlock =>
      exact ⟨g, Firsted.aside hbase h hA hpc (firstSame_of_calm h (rwlockUnlock_calm s)
        (rwlockUnlock_waiting s)) id id Iff.rfl (fun _ => False.elim) id⟩
  | fork found esp d hd hp' =>
      -- the kernel may give the tid `t₀` to the child
      by_cases htd : d = t₀
      · subst htd
        refine ⟨_, first_fork h hA hd ?_ ?_ ?_ (by rw [hpc]; exact id)⟩ <;>
          rcases hp' with rfl | ⟨k, rfl⟩
        · exact id
        · exact id
        · rfl
        · rfl
        · exact id
        · exact id
      · have hmem : t₀ ∈ d :: s.tids ↔ t₀ ∈ s.tids :=
          ⟨fun hm => (List.mem_cons.mp hm).resolve_left (Ne.symm htd), .tail d⟩
        refine ⟨g, Firsted.aside hbase h hA hpc
          (firstSame_of_pool h rfl rfl hmem (fun _ _ => rfl) (fun _ _ => id) rfl fun _ => rfl) id ?_
          (iff_of_false ?_ nofun) (fun _ => ?_) id⟩ <;> rcases hp' with rfl | ⟨k, rfl⟩
        · exact id
        · exact id
        · exact fun hc => htd (Option.some.inj hc)
        · exact fun hc => htd (Option.some.inj hc)
        · exact False.elim
        · exact False.elim
  -- the mutex of a slot says nothing about the first join
  | lock k hm hp =>
      have hsame : FirstSame t₀ j s g t pc (s.setThread k { s.threadPool k with m := some t }) :=
        firstSame_of_update h (k := k) rfl (.inl hm) rfl rfl rfl rfl (fun _ _ => Iff.rfl)
          (fun _ _ _ _ _ => rfl) Iff.rfl (h.idle k) fun _ => ⟨id, rfl, id⟩
      cases hp with
      | take | tidTake d | revertTake | exit st =>
          exact ⟨g, Firsted.aside hbase h hA hpc hsame id id Iff.rfl (fun _ => False.elim) id⟩
      | enter tid =>
          exact ⟨g, Firsted.inside hbase h hA hpc hsame nofun (fun _ => id) fun _ _ => trivial⟩
      | relock tid =>
          refine ⟨g, Firsted.inside hbase h hA hpc hsame nofun (fun _ hf => ?_) fun _ _ => trivial⟩
          refine ⟨hf.1, fun halive => ?_⟩
          rw [setThread_self] at halive
          exact absurd halive hf.2
  | again k hm =>
      rw [held_of_pc hbase hpc rfl] at hm
      cases hm
  | unlock k hp =>
      have hsame : FirstSame t₀ j s g t pc (s.mutexUnlock k) :=
        firstSame_of_held hbase h hpc (by cases hp <;> rfl) Iff.rfl (h.idle k)
          fun _ => ⟨id, rfl, id⟩
      cases hp with
      | giveUp | claimed esp | tidUnlock =>
          exact ⟨g, Firsted.aside hbase h hA hpc hsame id id Iff.rfl (fun _ => False.elim) id⟩
      | exit st =>
          exact ⟨g, Firsted.aside hbase h hA hpc hsame id id Iff.rfl (fun _ _ => .inl trivial) id⟩
      | refuse tid =>
          have hplace := (hA t).place
          rw [hpc] at hplace
          exact ⟨g, Firsted.leave hbase h hA hpc hsame fun ht => hplace.1 ht⟩
  | claim k hd =>
      -- a dead slot has no tid, so it is not the slot of `t₀`
      have hnone := (settled_of_pc (k := k) hbase hpc rfl id).dead hd
      refine ⟨g, Firsted.aside hbase h hA hpc (firstSame_of_held hbase h hpc (k := k) rfl Iff.rfl
        (fun hk _ => ⟨(h.idle k hk hnone).1, fun _ => rfl⟩) fun hl => ?_) id id Iff.rfl
        (fun _ => False.elim) id⟩
      rw [(h.slot k).mpr hl] at hnone
      omega
  | revert k =>
      have hnone := (claimed_of_pc (k := k) hbase hpc rfl).2
      exact ⟨g, Firsted.aside hbase h hA hpc (firstSame_of_held hbase h hpc (k := k) rfl Iff.rfl
        (fun hk _ => ⟨(h.idle k hk hnone).1, nofun⟩) fun _ => ⟨id, rfl, fun _ => nofun⟩) id id
        Iff.rfl (fun _ => False.elim) id⟩
  | name k d => exact first_name hbase h hA hpc
  | mark st k =>
      -- an exiting thread has found its own slot
      have htid : (s.threadPool k).kTid = t := knows_of_pc hbase hpc
      refine ⟨g, Firsted.aside hbase h hA hpc (firstSame_of_held hbase h hpc (k := k) rfl Iff.rfl
        (fun _ hnone => ?_) fun _ => ⟨id, rfl, fun _ => nofun⟩) id id Iff.rfl (fun _ => False.elim)
        id⟩
      change (s.threadPool k).kTid = -1 at hnone
      omega
  | save st k =>
      exact ⟨g, Firsted.aside hbase h hA hpc (firstSame_of_held hbase h hpc (k := k) rfl Iff.rfl
        (h.idle k) fun _ => ⟨id, rfl, id⟩) id id Iff.rfl (fun _ => False.elim) id⟩
  | signalNone st k hq =>
      have hsees : (s.threadPool k).kTid = t ∧ (s.threadPool k).status = .zombie := by
        obtain ⟨w, -, hQ⟩ := hqueue
        have hsees : (pc t).Sees s t := (hQ t).sees
        rwa [hpc] at hsees
      refine ⟨g, Firsted.aside hbase h hA hpc (firstSame_of_calm h (.refl s) rfl) id id Iff.rfl
        (fun ht _ => .inr ?_) id⟩
      -- nobody waits in the queue of `t₀` when it exits: it is past the signal
      have hnamed := (h.slot k).mp (by rw [hsees.1, ht])
      refine ⟨by rw [hnamed]; nofun, by rw [hnamed]; nofun, fun l hl => ?_⟩
      rw [hnamed] at hl
      obtain rfl := FirstPhase.named.inj hl
      exact ⟨by rw [hsees.2]; nofun, hq⟩
  | signal st k v q hq => exact first_signal hbase h hA hqueue hpc hund hq
  | wake st k v => exact first_wake hbase h hA hpc hund
  | look tid hcalm hwait hq => exact ⟨g, first_look hbase hA h hpc hund hcalm hwait hq⟩
  | wait tid k halive hpend =>
      -- a thread that waits for another slot keeps away from that of `t₀`
      by_cases ht : tid = t₀
      · subst ht
        exact ⟨_, first_wait h hA hpc halive⟩
      · simp only [FirstUndisturbed, hpc] at hund
        rcases hund with heq | hdead | ⟨hne, hnone⟩
        · exact absurd heq ht
        · rw [halive] at hdead
          cases hdead
        · refine ⟨g, Firsted.inside hbase h hA hpc (firstSame_of_update h (k := k) rfl
            (.inr (held_of_pc hbase hpc rfl)) rfl rfl rfl rfl (fun _ _ => Iff.rfl)
            (fun u _ _ hu _ => Function.update_of_ne hu ..) Iff.rfl (fun _ hid => absurd hid hnone)
            fun hl => absurd ((h.slot k).mpr hl) hne) nofun (fun heq => absurd heq ht)
            fun _ _ => trivial⟩
  | forget tid k hreject =>
      refine ⟨g, Firsted.inside hbase h hA hpc (firstSame_of_pool h rfl rfl Iff.rfl
        (fun u hu => Function.update_of_ne hu ..) (fun _ _ => id) rfl fun _ => rfl) nofun
        (fun _ hf => ?_) fun _ _ => trivial⟩
      -- the flag of the joiner is not set here
      exact ((hf.2.2.1 hreject).2).elim
  | sleep tid k =>
      exact ⟨g, Firsted.inside hbase h hA hpc (firstSame_of_pool h rfl rfl Iff.rfl
        (fun _ _ => rfl) (fun u hu hw => by
          change Function.update s.waiting t true u = true at hw
          rwa [Function.update_of_ne hu] at hw) rfl fun _ => rfl) nofun
        (fun _ hf => ⟨hf.1, hf.2.1, fun hr => ⟨(hf.2.2.1 hr).1, fun _ => (hf.2.2.1 hr).2⟩,
          hf.2.2.2⟩) fun _ _ => trivial⟩
  | clear tid k st =>
      exact ⟨g, Firsted.inside hbase h hA hpc (firstSame_of_held hbase h hpc (k := k) rfl Iff.rfl
        (fun hk hnone => ⟨rfl, (h.idle k hk hnone).2⟩) fun _ => ⟨nofun, rfl, id⟩) nofun
        (fun _ => id) fun _ => id⟩
  | reap tid k st =>
      exact ⟨g, Firsted.inside hbase h hA hpc (firstSame_of_held hbase h hpc (k := k) rfl Iff.rfl
        (fun hk hnone => ⟨(h.idle k hk hnone).1, nofun⟩) fun _ => ⟨id, rfl, fun _ => nofun⟩) nofun
        (fun _ => id) fun _ => id⟩
  | unname tid k st =>
      -- only a join of `t₀` takes the name off its slot
      by_cases ht : tid = t₀
      · subst ht
        exact ⟨_, first_unname hbase h hA hqueue hpc⟩
      · have hplace := (hA t).place
        rw [hpc] at hplace
        have hapart : g.phase ≠ .named k := hplace.2 ht
        have hdead : (s.threadPool k).status = .dead := knows_of_pc hbase hpc
        have hpend : (s.threadPool k).pendingJoin = false := by
          obtain ⟨w, -, hQ⟩ := hqueue
          have hsees : (pc t).Sees s t := (hQ t).sees
          rwa [hpc] at hsees
        refine ⟨g, Firsted.inside hbase h hA hpc (firstSame_of_held hbase h hpc (k := k) rfl
          (iff_of_false (by change (-1 : ℤ) ≠ t₀; omega) fun hl => hapart ((h.slot k).mp hl))
          (fun _ _ => ⟨hpend, fun halive => ?_⟩) fun hl => absurd hl hapart) nofun
          (fun heq => absurd heq ht) fun _ _ => trivial⟩
        change (s.threadPool k).status = .alive at halive
        rw [hdead] at halive
        cases halive
  | finish tid k st =>
      -- what another join returns with is not about `t₀`
      by_cases ht : tid = t₀
      · subst ht
        exact ⟨_, first_finish hbase h hA hpc⟩
      · refine ⟨g, Firsted.leave hbase h hA hpc (firstSame_of_update h (k := k) rfl
          (.inr (held_of_pc hbase hpc rfl)) rfl rfl rfl rfl (fun r hr => ?_)
          (fun _ _ _ _ _ => rfl) Iff.rfl (h.idle k) fun _ => ⟨id, rfl, id⟩) ht⟩
        refine ⟨fun hm => (List.mem_cons.mp hm).resolve_left ?_, .tail _⟩
        rintro rfl
        exact ht hr

end same

/-! ### Runs -/

/-- When `thr_init` returns, the thread is not there. -/
lemma first_init (h : (thrLibWithout t₀).init c) :
    Threads.Annotated (FirstInv t₀ j) (FirstAssert t₀ j) c := by
  obtain ⟨⟨⟨main, h⟩, hpc⟩, hnew⟩ := h
  have hslot : ∀ k, (c.1.threadPool k).kTid ≠ t₀ := by
    intro k hk
    rcases Nat.eq_zero_or_pos k with rfl | hpos
    · rw [h.kTid] at hk
      rw [h.tids, Int.ofNat_inj.mp hk] at hnew
      exact hnew (.head _)
    · rw [(h.beyond k hpos).1] at hk
      omega
  refine ⟨⟨.unborn, false, false⟩,
    ⟨iff_of_true rfl hnew, fun k => iff_of_false (hslot k) nofun, nofun,
    fun k hk hnone => ?_, nofun, nofun, nofun, iff_of_false ?_ nofun, ?_⟩, fun t => ?_⟩
  · rw [h.size] at hk
    obtain rfl : k = 0 := by omega
    rw [h.kTid] at hnone
    omega
  · rw [h.joined]
    nofun
  · rw [h.joined]
    nofun
  · rw [hpc t]
    refine ⟨iff_of_false nofun nofun, ?_, nofun, nofun, trivial, fun _ => False.elim, nofun⟩
    rintro ⟨q, hq⟩
    cases hq

variable {G : ThrLib × (ℕ → ThrPc) → ℕ × ThrAct → Prop}

lemma reach_thrLib (h : (thrLibWithout t₀).machine.Reach G c) : thrLib.machine.Reach G c := by
  induction h with
  | init hs => exact .init hs.1
  | step _ hg hs ih => exact .step ih hg hs

/-- **Every undisturbed run is annotated.** -/
theorem first_of_reach (h : (thrLibWithout t₀).machine.Reach
    (fun c a => OneJoin t₀ j c a ∧ Careful c a ∧ FirstUndisturbed t₀ c a) c) :
    Threads.Annotated (FirstInv t₀ j) (FirstAssert t₀ j) c := by
  have hbase := h.with fun _ hr =>
    And.intro (slotted_of_reach (reach_thrLib hr)) (queued_of_reach (reach_thrLib hr))
  refine Threads.annotated_of_reach (fun _ => first_init) ?_ hbase
  rintro s pc g t a s' p' hI hA ⟨⟨hone, -, hund⟩, hslot, hqueue⟩ hs
  obtain ⟨-, hmove⟩ := thrMove_of_next hs
  exact thrMove_first hslot hI hA hqueue rfl hone hund hmove

section goesOn

variable (hbase : Threads.Annotated SlotInv SlotAssert c)
  (hqueue : Threads.Annotated QueueInv QueueAssert c)

include hbase hqueue

/-- Who waits for the mutex of a slot with a tid goes on. -/
lemma goesOn_of_takes (hu : (c.2 u).Takes k) (hnext : (c.1.threadPool k).m = none → CanStep c u)
    (htid : (c.1.threadPool k).kTid ≠ -1) : GoesOn c u := by
  rcases hm : (c.1.threadPool k).m with - | v
  · exact .inl (hnext hm)
  · have hv := holds_of_mutex hqueue hm
    refine .inr ⟨v, .inl ⟨k, hu, hv⟩, canStep_of_holds hqueue hv fun hpc => htid ?_⟩
    -- one that waits for its own mutex has given back a slot without a tid
    have hdead : (c.1.threadPool k).status = .dead := by
      obtain ⟨w, -, hQ⟩ := hqueue
      have hsees := (hQ v).sees
      rwa [hpc] at hsees
    exact (@settled_of_pc c.1 v k _ c.2 hbase hpc rfl id).dead hdead

omit hbase in
/-- Who waits for the lock of the pool goes on. -/
lemma goesOn_of_reads (hu : (c.2 u).Reads)
    (hnext : c.1.writerLocked = false → CanStep c u) : GoesOn c u := by
  cases hw : c.1.writerLocked with
  | false => exact .inl (hnext hw)
  | true =>
      obtain ⟨v, hv⟩ := exists_writes hqueue hw
      exact .inr ⟨v, .inr ⟨hu, hv⟩, canStep_of_writes hqueue hv⟩

/-- **A thread in `thr_exit` goes on.** -/
lemma goesOn_of_exit {st : ℤ} {q : ExitPc} (hpc : c.2 t = .exit st q) : GoesOn c t := by
  have hin : t ∈ c.1.tids := mem_tids_of_pc hqueue (by rw [hpc]; nofun)
  have hstep : (∃ r, exitNext c.1 t st q .run = some r) → CanStep c t := by
    rintro ⟨r, hr⟩
    refine canStep_of_next (a := .run) (r := r) ?_
    unfold thrNext
    rw [if_pos hin, hpc]
    exact hr
  cases q with
  | lock =>
      refine goesOn_of_reads hqueue (by rw [hpc]; trivial) fun hw => hstep ?_
      simp [exitNext, ThrLib.rwlockRead, hw]
  | scan k =>
      refine .inl (hstep ?_)
      simp only [exitNext]
      split_ifs <;> exact ⟨_, rfl⟩
  | take k =>
      have htid : (c.1.threadPool k).kTid = t := @knows_of_pc c.1 t _ c.2 hbase hpc
      refine goesOn_of_takes hbase hqueue (k := k) (by rw [hpc]; rfl) (fun hm => hstep ?_)
        (by omega)
      simp [exitNext, ThrLib.mutexLock, hm]
  | signal k =>
      refine .inl (hstep ?_)
      simp only [exitNext]
      split <;> exact ⟨_, rfl⟩
  | retry | mark k | save k | wake k w | unlock k | release | vanish =>
      exact .inl (hstep ⟨_, rfl⟩)

omit hbase hqueue in
/-- A thread that has signalled has taken the head off its queue. -/
lemma popped_of_signalled (h : p.Signalled) : p.Popped := by
  cases p with
  | exit st q => cases q <;> trivial
  | vanished => trivial
  | _ => exact h.elim

omit hbase hqueue in
/-- A descheduled joiner that has not been woken up has not been signalled, or will be made
runnable. -/
lemma not_signalled_of_asleep (hA : ∀ u, FirstAssert t₀ j c.1 g u (c.2 u))
    (hfirst : (JoinPc.wait k .asleep).First t₀ c.1 g t) (hwait : c.1.waiting t = true) :
    ¬ (c.2 t₀).Signalled := by
  obtain ⟨hnamed, -, hwoken, hcv⟩ := hfirst
  intro hsig
  cases hr : c.1.reject t with
  | true =>
      obtain ⟨st, l, hl⟩ := (hA t₀).waking rfl ((hwoken hr).2 hwait)
      rw [hl] at hsig
      exact hsig
  | false =>
      -- it is in the queue, which the signal of the thread empties
      have hnil := (((hA t₀).past rfl (popped_of_signalled hsig)).2.2 k hnamed).2
      rw [hcv hr] at hnil
      cases hnil

/-- **A thread in the join on the thread goes on**, but where it sleeps and has no signal. -/
lemma goesOn_of_join (hslot : FirstInv t₀ j c.1 g) (hA : ∀ u, FirstAssert t₀ j c.1 g u (c.2 u))
    {q : JoinPc} (hpc : c.2 t = .join t₀ q) :
    GoesOn c t ∨ ∃ k, q = .wait k .asleep ∧ ¬ (c.2 t₀).Signalled := by
  have hin : t ∈ c.1.tids := mem_tids_of_pc hqueue (by rw [hpc]; nofun)
  have hstep : (∃ r, joinNext c.1 t t₀ q .run = some r) → CanStep c t := by
    rintro ⟨r, hr⟩
    refine canStep_of_next (a := .run) (r := r) ?_
    unfold thrNext
    rw [if_pos hin, hpc]
    exact hr
  have hplace := (hA t).place
  rw [hpc] at hplace
  have hfirst := hplace.1 rfl
  have htid : ∀ k, g.phase = .named k → (c.1.threadPool k).kTid ≠ -1 := by
    intro k hk
    rw [(hslot.slot k).mpr hk]
    omega
  cases q with
  | lock =>
      refine .inl (goesOn_of_reads hqueue (by rw [hpc]; trivial) fun hw => hstep ?_)
      simp [joinNext, ThrLib.rwlockRead, hw]
  | take k =>
      refine .inl (goesOn_of_takes hbase hqueue (k := k) (by rw [hpc]; rfl) (fun hm => hstep ?_)
        (htid k hfirst.2))
      simp [joinNext, ThrLib.mutexLock, hm]
  | relock k =>
      refine .inl (goesOn_of_takes hbase hqueue (k := k) (by rw [hpc]; rfl) (fun hm => hstep ?_)
        (htid k hfirst.1))
      simp [joinNext, ThrLib.mutexLock, hm]
  | wait k q =>
      cases q with
      | test | exchange =>
          refine .inl (.inl (hstep ?_))
          simp only [joinNext, sleepNext]
          split_ifs <;> exact ⟨_, rfl⟩
      | deschedule => exact .inl (.inl (hstep ⟨_, rfl⟩))
      | asleep =>
          cases hw : c.1.waiting t with
          | true => exact .inr ⟨k, rfl, not_signalled_of_asleep hA hfirst hw⟩
          | false =>
              refine .inl (.inl (hstep ?_))
              simp [joinNext, sleepNext, hw]
  | scan k | enter k | test k =>
      refine .inl (.inl (hstep ?_))
      simp only [joinNext]
      split_ifs <;> exact ⟨_, rfl⟩
  | giveUp | refuse k | release k | save k | clear k st | reap k st | unname k st | unlock k st =>
      exact .inl (.inl (hstep ⟨_, rfl⟩))

end goesOn

lemma afterInit_without : (thrLibWithout 1).init afterInit :=
  ⟨afterInit_init, by decide⟩

/-- Thread 0 creates thread 1 in a node whose `pending_join` is what was in the memory, and
joins it. -/
def garbageRun : List (ℕ × ThrAct) :=
  (0, .thrCreate) :: steps 0 7 ++ [(0, .fork 1)] ++ steps 0 1 ++ [(0, .add true 0)] ++ steps 0 1 ++
    (0, .thrJoin 1) :: steps 0 7

/-- Thread 0 joins thread 1 and is preempted before the `xchng`. Thread 1 exits; then thread 0
goes on. -/
def overwrittenRun : List (ℕ × ThrAct) :=
  createRun ++ (0, .thrJoin 1) :: steps 0 8 ++ exitRun ++ steps 1 2 ++ steps 0 4

/-- The thread is descheduled in a join on `tid`. -/
def ThrPc.joinAsleep (tid : ℤ) : ThrPc → Bool
  | .join n (.wait _ .asleep) => decide (n = tid)
  | _ => false

lemma exists_of_joinAsleep {p : ThrPc} {tid : ℤ} (h : p.joinAsleep tid = true) :
    ∃ k, p = .join tid (.wait k .asleep) := by
  unfold ThrPc.joinAsleep at h
  split at h
  · next n k =>
    exact ⟨k, by rw [of_decide_eq_true h]⟩
  · cases h

/-- A descheduled joiner that nobody wakes up does not go on. -/
lemma not_goesOn_of_asleep {tid : ℤ} (hpc : c.2 t = .join tid (.wait k .asleep))
    (hwait : c.1.waiting t = true) : ¬ GoesOn c t := by
  rintro (⟨a, c', hc'⟩ | ⟨v, ⟨l, hl, -⟩ | ⟨hr, -⟩, -⟩)
  · change (thrNext c.1 t (c.2 t) a).map _ = some c' at hc'
    rw [Option.map_eq_some_iff] at hc'
    obtain ⟨r, hr, -⟩ := hc'
    unfold thrNext at hr
    rw [hpc] at hr
    split_ifs at hr
    cases a with
    | run => simp [joinNext, sleepNext, hwait] at hr
    | _ => cases hr
  · rw [hpc] at hl
    exact hl
  · rw [hpc] at hr
    exact hr

/-- A first join that is turned away. -/
lemma firstJoin_turnedAway :
    ∃ c, (thrLibWithout 1).machine.Reach (OneJoin 1 0) c ∧ c.1.joined = [] ∧
      ¬ FirstJoined 1 0 c := by
  have hrun : (Machine.replay (Machine.guarded (OneJoin 1 0) thrLib.next) afterInit garbageRun).map
      (fun c => decide (c.1.joined = [] ∧ (c.2 0).TurnedAway 1)) = some true := by
    decide +kernel
  rw [Option.map_eq_some_iff] at hrun
  obtain ⟨c, hc, heq⟩ := hrun
  obtain ⟨hj, haway⟩ := of_decide_eq_true heq
  refine ⟨c, ?_, hj, fun h => h.accepted 0 haway⟩
  exact Machine.reach_of_guarded (fun _ _ _ h => h) _ (.init afterInit_without) hc

/-- A first join that sleeps for good. -/
lemma firstJoin_overwritten :
    ∃ c, (thrLibWithout 1).machine.Reach (fun c a => OneJoin 1 0 c a ∧ Careful c a) c ∧
      c.2 1 = .vanished ∧ ¬ FirstJoined 1 0 c := by
  have hrun : (Machine.replay (Machine.guarded (fun c a => OneJoin 1 0 c a ∧ Careful c a)
      thrLib.next) afterInit overwrittenRun).map (fun c => decide (c.1.waiting 0 = true ∧
        c.2 1 = .vanished ∧ (c.2 0).joinAsleep 1 = true)) = some true := by
    decide +kernel
  rw [Option.map_eq_some_iff] at hrun
  obtain ⟨c, hc, heq⟩ := hrun
  obtain ⟨hwait, hgone, hplace⟩ := of_decide_eq_true heq
  refine ⟨c, Machine.reach_of_guarded (fun _ _ _ h => h) _ (.init afterInit_without) hc, hgone,
    fun h => ?_⟩
  obtain ⟨k, hpc⟩ := exists_of_joinAsleep hplace
  rcases h.goesOn _ hpc with hgo | ⟨_, -, hsig⟩
  · exact not_goesOn_of_asleep hpc hwait hgo
  · exact hsig (by rw [hgone]; trivial)

end ShrekOS
