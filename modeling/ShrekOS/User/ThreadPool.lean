/-
What holds of the thread pool of the thread library in every run: a slot is changed by the
thread that holds its mutex, a resurrected slot belongs to one `thr_create`, and a tid names
one slot.

* `ThrPc.found`, `ThrPc.holds`, `ThrPc.claims`, `ThrPc.child`: what a thread has in hand;
* `SlotInv`, `SlotAssert`: the invariant and the assertion of a program counter, over the
  ghost state `SlotGhost`;
* `Rely`: what a thread may expect from the steps of the others, `SlotAssert.stable`;
* `Slotted`: what a step of a thread establishes, for a step that writes no slot
  (`Slotted.quiet`), one slot (`Slotted.write`), and for the naming of a slot (`Slotted.name`).
-/
import ShrekOS.User.ThreadLib

namespace ShrekOS

open Kit

namespace ThrPc

/-- The slot that the thread has found. -/
@[simp] def found : ThrPc → Option ℕ
  | .create (.take k) | .create (.check k) | .create (.giveUp k) | .create (.claimed k _)
  | .create (.release (some k) _) | .create (.fork (some k) _) | .create (.tidTake k _)
  | .create (.tidSet k _) | .create (.tidUnlock k) | .create (.revertTake k)
  | .create (.revert k) | .create (.revertAgain k) => some k
  | .exit _ (.take k) | .exit _ (.mark k) | .exit _ (.save k) | .exit _ (.signal k)
  | .exit _ (.wake k _) | .exit _ (.unlock k) => some k
  | .join _ (.release k) | .join _ (.take k) | .join _ (.enter k) | .join _ (.refuse k)
  | .join _ (.test k) | .join _ (.wait k _) | .join _ (.relock k) | .join _ (.save k)
  | .join _ (.clear k _) | .join _ (.reap k _) | .join _ (.unname k _)
  | .join _ (.unlock k _) => some k
  | _ => none

/-- The slot whose mutex the thread holds. -/
@[simp] def holds : ThrPc → Option ℕ
  | .create (.check k) | .create (.giveUp k) | .create (.claimed k _) | .create (.tidSet k _)
  | .create (.tidUnlock k) | .create (.revert k) | .create (.revertAgain k) => some k
  | .exit _ (.mark k) | .exit _ (.save k) | .exit _ (.signal k) | .exit _ (.wake k _)
  | .exit _ (.unlock k) => some k
  | .join _ (.enter k) | .join _ (.refuse k) | .join _ (.test k) | .join _ (.save k)
  | .join _ (.clear k _) | .join _ (.reap k _) | .join _ (.unname k _)
  | .join _ (.unlock k _) => some k
  | _ => none

/-- The thread is between the two writes that make a zombie, or between those that make a
dead thread. -/
@[simp] def Torn : ThrPc → Prop
  | .exit _ (.save _) | .join _ (.unname _ _) => True
  | _ => False

/-- The slot that the thread has resurrected and not named yet. -/
@[simp] def claims : ThrPc → Option ℕ
  | .create (.claimed k _) | .create (.release (some k) _) | .create (.fork (some k) _)
  | .create (.tidTake k _) | .create (.tidSet k _) | .create (.revertTake k)
  | .create (.revert k) => some k
  | _ => none

/-- The child that the thread has forked and that has no slot yet. -/
@[simp] def child : ThrPc → Option ℕ
  | .create (.addLock c _) | .create (.add c _) | .create (.tidTake _ c)
  | .create (.tidSet _ c) => some c
  | _ => none

/-- The thread has made itself a zombie. -/
@[simp] def Past : ThrPc → Prop
  | .exit _ (.save _) | .exit _ (.signal _) | .exit _ (.wake _ _) | .exit _ (.unlock _)
  | .exit _ .release | .exit _ .vanish | .vanished => True
  | _ => False

/-- What the thread knows of the slot that it has found. -/
@[simp] def Knows (s : ThrLib) (t : ℕ) : ThrPc → Prop
  | .exit _ (.take k) | .exit _ (.mark k) => (s.threadPool k).kTid = t
  | .exit _ (.save k) => (s.threadPool k).kTid = t ∧ (s.threadPool k).status = .zombie
  | .join _ (.save k) | .join _ (.clear k _) | .join _ (.reap k _) =>
      (s.threadPool k).status ≠ .alive
  | .join _ (.unname k _) => (s.threadPool k).status = .dead
  | _ => True

/-- The status with which the thread has called `thr_exit`. -/
@[simp] def Exited (s : ThrLib) (t : ℕ) : ThrPc → Prop
  | .exit status _ => s.exited t = some status
  | .vanished => True
  | _ => s.exited t = none

end ThrPc

/-- A dead slot has no tid; a zombie has its tid and the status that it has exited with. -/
structure ThrLib.Settled (s : ThrLib) (c : ThreadT) : Prop where
  dead : c.status = .dead → c.kTid = -1
  zombie : c.status = .zombie → ∃ t : ℕ, c.kTid = t ∧ s.exited t = some c.exitStatus

/-- Which `thr_create` has resurrected a slot, which one has forked a thread, and which
threads have had a slot. -/
structure SlotGhost where
  claimant : ℕ → Option ℕ
  parent : ℕ → Option ℕ
  named : ℕ → Prop

/-- The slot changes hands. -/
def SlotGhost.claim (g : SlotGhost) (k : ℕ) (o : Option ℕ) : SlotGhost :=
  { g with claimant := Function.update g.claimant k o }

lemma SlotGhost.claim_self (g : SlotGhost) (k : ℕ) : g.claim k (g.claimant k) = g := by
  unfold claim
  rw [Function.update_eq_self]

/-- **The invariant of the thread pool.** -/
structure SlotInv (s : ThrLib) (g : SlotGhost) : Prop where
  claimed : ∀ k x, g.claimant k = some x →
    k < s.size ∧ (s.threadPool k).status = .alive ∧ (s.threadPool k).kTid = -1
  free : ∀ k, (s.threadPool k).m = none → s.Settled (s.threadPool k)
  named : ∀ k (c : ℕ), (s.threadPool k).kTid = c → g.named c
  forked : ∀ c, g.named c → c ∈ s.tids
  unique : ∀ k l (c : ℕ), (s.threadPool k).kTid = c → (s.threadPool l).kTid = c → k = l
  beyond : ∀ k, s.size ≤ k → (s.threadPool k).kTid = -1 ∧ (s.threadPool k).status = .alive ∧
    (s.threadPool k).m = none

/-- **The assertion of a thread at its program counter.** -/
structure SlotAssert (s : ThrLib) (g : SlotGhost) (t : ℕ) (p : ThrPc) : Prop where
  found : ∀ k, p.found = some k → k < s.size
  holds : ∀ k, p.holds = some k → (s.threadPool k).m = some t
  settled : ∀ k, p.holds = some k → ¬ p.Torn → s.Settled (s.threadPool k)
  claims : ∀ k, p.claims = some k → g.claimant k = some t
  child : ∀ c, p.child = some c → g.parent c = some t ∧ c ∈ s.tids ∧ ¬ g.named c
  fresh : ¬ p.Past → ∀ k, (s.threadPool k).kTid = t → (s.threadPool k).status = .alive
  knows : p.Knows s t
  exited : p.Exited s t

/-- A thread holds the mutex of the slot that it has found. -/
lemma found_of_holds {p : ThrPc} {k : ℕ} (h : p.holds = some k) : p.found = some k := by
  cases p with
  | user | vanished => cases h
  | create q => cases q <;> first | exact h | cases h
  | exit st q => cases q <;> first | exact h | cases h
  | join tid q => cases q <;> first | exact h | cases h

/-- A thread has found the slot that it has resurrected. -/
lemma found_of_claims {p : ThrPc} {k : ℕ} (h : p.claims = some k) : p.found = some k := by
  cases p with
  | user | vanished | exit _ _ | join _ _ => cases h
  | create q =>
      cases q with
      | release found esp | fork found esp =>
          cases found with
          | none => cases h
          | some l => exact h
      | _ => first | exact h | cases h

/-- A step in the loop of `cond_wait` writes flags only, and stays in the loop or leaves it. -/
lemma sleepNext_writes {s s' : ThrLib} {t k : ℕ} {tid : ℤ} {q : SleepPc} {p' : ThrPc}
    (hs : sleepNext s t tid k q = some (s', p')) :
    ∃ r w, s' = { s with reject := r, waiting := w } ∧
      (p' = .join tid (.relock k) ∨ ∃ q', p' = .join tid (.wait k q')) := by
  cases q with
  | test =>
      simp only [sleepNext] at hs
      split_ifs at hs <;> obtain ⟨rfl, rfl⟩ := Prod.mk.inj (Option.some.inj hs)
      · exact ⟨_, _, rfl, .inl rfl⟩
      · exact ⟨_, _, rfl, .inr ⟨_, rfl⟩⟩
  | exchange =>
      simp only [sleepNext] at hs
      split_ifs at hs <;> obtain ⟨rfl, rfl⟩ := Prod.mk.inj (Option.some.inj hs)
      all_goals exact ⟨_, _, rfl, .inr ⟨_, rfl⟩⟩
  | deschedule =>
      obtain ⟨rfl, rfl⟩ := Prod.mk.inj (Option.some.inj hs)
      exact ⟨_, _, rfl, .inr ⟨_, rfl⟩⟩
  | asleep =>
      simp only [sleepNext] at hs
      split_ifs at hs
      obtain ⟨rfl, rfl⟩ := Prod.mk.inj (Option.some.inj hs)
      exact ⟨_, _, rfl, .inr ⟨_, rfl⟩⟩

/-! ### What the others do -/

/-- What the thread may expect from the steps of the others. -/
structure Rely (s : ThrLib) (g : SlotGhost) (u : ℕ) (s' : ThrLib) (g' : SlotGhost) : Prop where
  size : s.size ≤ s'.size
  held : ∀ k, (s.threadPool k).m = some u → s'.threadPool k = s.threadPool k
  keeps : ∀ k, (s.threadPool k).kTid = u → (s.threadPool k).status = .alive →
    (s'.threadPool k).kTid = u
  fresh : ∀ k, (s'.threadPool k).kTid = u → (s'.threadPool k).status = .alive ∨
    (s.threadPool k).kTid = u ∧ (s.threadPool k).status ≠ .alive
  exited : ∀ t, s.exited t ≠ none ∨ t = u → s'.exited t = s.exited t
  claims : ∀ k, g.claimant k = some u → g'.claimant k = some u
  child : ∀ c, g.parent c = some u → c ∈ s.tids → ¬ g.named c →
    g'.parent c = some u ∧ c ∈ s'.tids ∧ ¬ g'.named c

variable {s s' : ThrLib} {g g' : SlotGhost} {t u k : ℕ} {p p' : ThrPc} {pc : ℕ → ThrPc}

/-- A settled slot stays settled when no thread exits a second time. -/
lemma ThrLib.Settled.mono {c : ThreadT} (h : s.Settled c)
    (hex : ∀ t, s.exited t ≠ none → s'.exited t = s.exited t) : s'.Settled c := by
  refine ⟨h.dead, fun hz => ?_⟩
  obtain ⟨t, ht, hst⟩ := h.zombie hz
  refine ⟨t, ht, ?_⟩
  rw [hex t (by rw [hst]; nofun), hst]

lemma ThrLib.Settled.of_alive {c : ThreadT} (h : c.status = .alive) : s.Settled c := by
  refine ⟨fun hd => ?_, fun hz => ?_⟩
  · rw [h] at hd
    cases hd
  · rw [h] at hz
    cases hz

/-- **The assertions are stable** under the steps of the others. -/
lemma SlotAssert.stable (h : SlotAssert s g u p) (hr : Rely s g u s' g') :
    SlotAssert s' g' u p := by
  have hheld : ∀ k, p.holds = some k → s'.threadPool k = s.threadPool k :=
    fun k hk => hr.held k (h.holds k hk)
  refine ⟨fun k hk => (h.found k hk).trans_le hr.size, fun k hk => ?_, fun k hk ht => ?_,
    fun k hk => hr.claims k (h.claims k hk), fun c hc => ?_, fun hp k hk => ?_, ?_, ?_⟩
  · rw [hheld k hk]
    exact h.holds k hk
  · rw [hheld k hk]
    exact (h.settled k hk ht).mono fun t ht => hr.exited t (.inl ht)
  · obtain ⟨hpar, hin, hnot⟩ := h.child c hc
    exact hr.child c hpar hin hnot
  · rcases hr.fresh k hk with halive | ⟨hold, hne⟩
    · exact halive
    · exact absurd (h.fresh hp k hold) hne
  · have hk := h.knows
    cases p with
    | user | create _ | vanished => trivial
    | exit st q =>
        cases q with
        | take k => exact hr.keeps k hk (h.fresh id k hk)
        | mark k | save k =>
            simp only [ThrPc.Knows] at hk ⊢
            rw [hheld k rfl]
            exact hk
        | lock | scan _ | retry | signal _ | wake _ _ | unlock _ | release | vanish => trivial
    | join tid q =>
        cases q with
        | save k | clear k _ | reap k _ | unname k _ =>
            simp only [ThrPc.Knows] at hk ⊢
            rw [hheld k rfl]
            exact hk
        | lock | scan _ | giveUp | release _ | take _ | enter _ | refuse _ | test _ | wait _ _
        | relock _ | unlock _ _ => trivial
  · have hex := h.exited
    have hsame := hr.exited u (.inr rfl)
    cases p <;> simp only [ThrPc.Exited, hsame] at hex ⊢ <;> exact hex

/-- What a step of thread `t` establishes. -/
def Slotted (s : ThrLib) (g : SlotGhost) (t : ℕ) (p : ThrPc) (pc : ℕ → ThrPc) : Prop :=
  SlotInv s g ∧ SlotAssert s g t p ∧ ∀ u, u ≠ t → SlotAssert s g u (pc u)

/-! ### Steps that write no slot -/

/-- At `p'` the thread has nothing in hand that it has not at `p`, but for a slot found in a
pool of the size. -/
structure ThrPc.Below (size : ℕ) (p' p : ThrPc) : Prop where
  found : ∀ k, p'.found = some k → p.found = some k ∨ k < size
  holds : ∀ k, p'.holds = some k → p.holds = some k
  torn : p.Torn → p'.Torn ∨ p'.holds = none
  claims : ∀ k, p'.claims = some k → p.claims = some k
  child : ∀ c, p'.child = some c → p.child = some c
  past : p.Past → p'.Past

/-- The thread has no slot and no child in hand. -/
lemma below_idle {size : ℕ} {p' p : ThrPc} (hf : p'.found = none) (hd : p'.child = none)
    (hpast : p.Past → p'.Past) : ThrPc.Below size p' p := by
  have hh : p'.holds = none := by
    rcases hp : p'.holds with - | k
    · rfl
    · rw [found_of_holds hp] at hf
      cases hf
  refine ⟨fun k hk => ?_, fun k hk => ?_, fun _ => .inr hh, fun k hk => ?_, fun c hc => ?_, hpast⟩
  · rw [hf] at hk
    cases hk
  · rw [hh] at hk
    cases hk
  · rw [found_of_claims hk] at hf
    cases hf
  · rw [hd] at hc
    cases hc

/-- The thread has found a slot. -/
lemma below_found {size k : ℕ} {p' p : ThrPc} (hk : k < size) (hf : p'.found = some k)
    (hh : p'.holds = none) (hc : p'.claims = none) (hd : p'.child = none)
    (hpast : p.Past → p'.Past) : ThrPc.Below size p' p := by
  refine ⟨fun l hl => .inr ?_, fun l hl => ?_, fun _ => .inr hh, fun l hl => ?_, fun e he => ?_,
    hpast⟩
  · rw [hf] at hl
    exact Option.some.inj hl ▸ hk
  · rw [hh] at hl
    cases hl
  · rw [hc] at hl
    cases hl
  · rw [hd] at he
    cases he

/-- The thread has the same in hand. -/
lemma below_same {size : ℕ} {p' p : ThrPc} (hf : p'.found = p.found) (hh : p'.holds = p.holds)
    (ht : ¬ p.Torn) (hc : p'.claims = p.claims) (hd : p'.child = p.child)
    (hpast : p.Past → p'.Past) : ThrPc.Below size p' p :=
  ⟨fun _ hk => .inl (hf ▸ hk), fun _ hk => hh ▸ hk, fun h => absurd h ht, fun _ hk => hc ▸ hk,
    fun _ hk => hd ▸ hk, hpast⟩

lemma SlotAssert.below (h : SlotAssert s g t p) (hb : ThrPc.Below s.size p' p) (hk : p'.Knows s t)
    (hx : p'.Exited s t) : SlotAssert s g t p' where
  found k hk := (hb.found k hk).elim (h.found k) id
  holds k hk := h.holds k (hb.holds k hk)
  settled k hk ht := h.settled k (hb.holds k hk) fun hp => by
    rcases hb.torn hp with h' | h'
    · exact ht h'
    · rw [h'] at hk
      cases hk
  claims k hk := h.claims k (hb.claims k hk)
  child c hc := h.child c (hb.child c hc)
  fresh hp := h.fresh fun h' => hp (hb.past h')
  knows := hk
  exited := hx

/-- The invariant and the assertions read the pool, its size, the tids and the exits. -/
structure SamePool (s s' : ThrLib) : Prop where
  pool : s'.threadPool = s.threadPool
  size : s'.size = s.size
  tids : s'.tids = s.tids
  exited : s'.exited = s.exited

lemma SamePool.settled (hs : SamePool s s') {c : ThreadT} (h : s.Settled c) : s'.Settled c :=
  h.mono fun t _ => congrFun hs.exited t

lemma SamePool.inv (hs : SamePool s s') (h : SlotInv s g) : SlotInv s' g where
  claimed k x hk := by
    rw [hs.pool, hs.size]
    exact h.claimed k x hk
  free k hk := by
    rw [hs.pool] at hk ⊢
    exact hs.settled (h.free k hk)
  named k c hk := by
    rw [hs.pool] at hk
    exact h.named k c hk
  forked c hc := by rw [hs.tids]; exact h.forked c hc
  unique k l c hk hl := by
    rw [hs.pool] at hk hl
    exact h.unique k l c hk hl
  beyond k hk := by
    rw [hs.size] at hk
    rw [hs.pool]
    exact h.beyond k hk

lemma SamePool.rely (hs : SamePool s s') (u : ℕ) : Rely s g u s' g where
  size := hs.size.ge
  held k _ := congrFun hs.pool k
  keeps k hk _ := by rw [hs.pool]; exact hk
  fresh k hk := by
    rw [hs.pool] at hk ⊢
    by_cases halive : (s.threadPool k).status = .alive
    · exact .inl halive
    · exact .inr ⟨hk, halive⟩
  exited t _ := congrFun hs.exited t
  claims _ hk := hk
  child c hp hc hn := ⟨hp, by rw [hs.tids]; exact hc, hn⟩

lemma SamePool.assert (hs : SamePool s s') (h : SlotAssert s g u p) : SlotAssert s' g u p :=
  h.stable (hs.rely u)

variable (h : SlotInv s g) (hA : ∀ u, SlotAssert s g u (pc u))

include h hA in
/-- **A step that writes no slot.** -/
lemma Slotted.quiet (hpc : pc t = p) (hs : SamePool s s') (hb : ThrPc.Below s.size p' p)
    (hk : p'.Knows s t) (hx : p'.Exited s t) : Slotted s' g t p' pc :=
  ⟨hs.inv h, hs.assert ((hA t).below (hpc ▸ hb) hk hx), fun u _ => hs.assert (hA u)⟩

/-! ### Steps that write one slot -/

/-- The slot is written and nothing else that the invariant and the assertions read. -/
structure WritesSlot (s s' : ThrLib) (k : ℕ) (c : ThreadT) : Prop where
  pool : s'.threadPool = Function.update s.threadPool k c
  size : s'.size = s.size
  tids : s'.tids = s.tids
  exited : s'.exited = s.exited

section write

variable {c : ThreadT} {o : Option ℕ}

omit h hA

lemma WritesSlot.self (hs : WritesSlot s s' k c) : s'.threadPool k = c := by
  rw [hs.pool, Function.update_self]

lemma WritesSlot.of_ne (hs : WritesSlot s s' k c) {l : ℕ} (hl : l ≠ k) :
    s'.threadPool l = s.threadPool l := by
  rw [hs.pool, Function.update_of_ne hl]

lemma WritesSlot.settled (hs : WritesSlot s s' k c) {c' : ThreadT} (h : s.Settled c') :
    s'.Settled c' :=
  h.mono fun t _ => congrFun hs.exited t

/-- The write of a slot that is claimed only if it fits, is free only if it is settled and
gets no new tid. -/
lemma SlotInv.write (h : SlotInv s g) (hs : WritesSlot s s' k c) (hk : k < s.size)
    (hclaimed : ∀ x, o = some x → c.status = .alive ∧ c.kTid = -1)
    (hfree : c.m = none → s.Settled c) (hname : c.kTid = -1 ∨ c.kTid = (s.threadPool k).kTid) :
    SlotInv s' (g.claim k o) := by
  have hold : ∀ l (d : ℕ), (s'.threadPool l).kTid = d → (s.threadPool l).kTid = d := by
    intro l d hd
    by_cases hl : l = k
    · subst hl
      rw [hs.self] at hd
      omega
    · rwa [hs.of_ne hl] at hd
  refine ⟨fun l x hx => ?_, fun l hl => ?_, fun l d hd => h.named l d (hold l d hd),
    fun d hd => ?_, fun l l' d hd hd' => h.unique l l' d (hold l d hd) (hold l' d hd'),
    fun l hl => ?_⟩
  · change Function.update g.claimant k o l = some x at hx
    by_cases hlk : l = k
    · subst hlk
      rw [Function.update_self] at hx
      rw [hs.self, hs.size]
      exact ⟨hk, hclaimed x hx⟩
    · rw [Function.update_of_ne hlk] at hx
      rw [hs.of_ne hlk, hs.size]
      exact h.claimed l x hx
  · by_cases hlk : l = k
    · subst hlk
      rw [hs.self] at hl ⊢
      exact hs.settled (hfree hl)
    · rw [hs.of_ne hlk] at hl ⊢
      exact hs.settled (h.free l hl)
  · rw [hs.tids]
    exact h.forked d hd
  · rw [hs.size] at hl
    rw [hs.of_ne (by omega)]
    exact h.beyond l hl

/-- The write of a slot that the other thread does not hold, and that stays its own. -/
lemma WritesSlot.rely (hs : WritesSlot s s' k c) (hm : (s.threadPool k).m ≠ some u)
    (ho : g.claimant k = some u → o = some u)
    (hkeeps : (s.threadPool k).kTid = u → (s.threadPool k).status = .alive → c.kTid = u)
    (hfresh : c.kTid = u → c.status = .alive ∨
      (s.threadPool k).kTid = u ∧ (s.threadPool k).status ≠ .alive) :
    Rely s g u s' (g.claim k o) := by
  refine ⟨hs.size.ge, fun l hl => hs.of_ne ?_, fun l hl halive => ?_, fun l hl => ?_,
    fun t _ => congrFun hs.exited t, fun l hl => ?_, fun d hp hd hn => ⟨hp, ?_, hn⟩⟩
  · rintro rfl
    exact hm hl
  · by_cases hlk : l = k
    · subst hlk
      rw [hs.self]
      exact hkeeps hl halive
    · rwa [hs.of_ne hlk]
  · by_cases hlk : l = k
    · subst hlk
      rw [hs.self] at hl ⊢
      exact hfresh hl
    · rw [hs.of_ne hlk] at hl ⊢
      by_cases halive : (s.threadPool l).status = .alive
      · exact .inl halive
      · exact .inr ⟨hl, halive⟩
  · change Function.update g.claimant k o l = some u
    by_cases hlk : l = k
    · subst hlk
      rw [Function.update_self]
      exact ho hl
    · rwa [Function.update_of_ne hlk]
  · rw [hs.tids]
    exact hd

/-- The assertion of the thread that writes the slot. -/
lemma SlotAssert.write (h : SlotAssert s g t p) (hs : WritesSlot s s' k c) (hk : k < s.size)
    (hfound : ∀ l, p'.found = some l → l = k)
    (hholds : p'.holds = some k → c.m = some t ∧ (¬ p'.Torn → s.Settled c))
    (hclaims : ∀ l, p'.claims = some l → (g.claim k o).claimant l = some t)
    (hchild : ∀ d, p'.child = some d → p.child = some d)
    (hfresh : ¬ p'.Past → ¬ p.Past ∧ (c.kTid = t → c.status = .alive))
    (hknows : p'.Knows s' t) (hexited : p'.Exited s t) : SlotAssert s' (g.claim k o) t p' := by
  have hhk : ∀ l, p'.holds = some l → l = k := fun l hl => hfound l (found_of_holds hl)
  refine ⟨fun l hl => ?_, fun l hl => ?_, fun l hl ht => ?_, hclaims, fun d hd => ?_,
    fun hp l hl => ?_, hknows, ?_⟩
  · rw [hs.size, hfound l hl]
    exact hk
  · obtain rfl := hhk l hl
    rw [hs.self]
    exact (hholds hl).1
  · obtain rfl := hhk l hl
    rw [hs.self]
    exact hs.settled ((hholds hl).2 ht)
  · rw [hs.tids]
    exact h.child d (hchild d hd)
  · obtain ⟨hpast, hck⟩ := hfresh hp
    by_cases hlk : l = k
    · subst hlk
      rw [hs.self] at hl ⊢
      exact hck hl
    · rw [hs.of_ne hlk] at hl ⊢
      exact h.fresh hpast l hl
  · cases p' <;> simp only [ThrPc.Exited, hs.exited] at hexited ⊢ <;> exact hexited

include h hA in
/-- **A step that writes one slot**, free or held by the thread. -/
lemma Slotted.write (hs : WritesSlot s s' k c) (hk : k < s.size)
    (hm : (s.threadPool k).m = none ∨ (s.threadPool k).m = some t)
    (ho : ∀ u, u ≠ t → g.claimant k = some u → o = some u)
    (hclaimed : ∀ x, o = some x → c.status = .alive ∧ c.kTid = -1)
    (hfree : c.m = none → s.Settled c) (hname : c.kTid = -1 ∨ c.kTid = (s.threadPool k).kTid)
    (hkeeps : ∀ u, u ≠ t → (s.threadPool k).kTid = u → (s.threadPool k).status = .alive →
      c.kTid = u)
    (hfresh : ∀ u, u ≠ t → c.kTid = u → c.status = .alive ∨ (s.threadPool k).status ≠ .alive)
    (hown : SlotAssert s' (g.claim k o) t p') : Slotted s' (g.claim k o) t p' pc := by
  refine ⟨h.write hs hk hclaimed hfree hname, hown, fun u hu => ?_⟩
  refine (hA u).stable (hs.rely ?_ (ho u hu) (hkeeps u hu) fun hcu => ?_)
  · rcases hm with hm | hm <;> rw [hm]
    · nofun
    · exact fun heq => hu (Option.some.inj heq).symm
  · rcases hfresh u hu hcu with halive | hne
    · exact .inl halive
    · refine .inr ⟨?_, hne⟩
      rcases hname with h' | h'
      · omega
      · rw [← h']
        exact hcu

lemma mutexLock_eq_some (hs : s.mutexLock t k = some s') : (s.threadPool k).m = none ∧
    s' = s.setThread k { s.threadPool k with m := some t } := by
  unfold ThrLib.mutexLock at hs
  split_ifs at hs with hm
  exact ⟨hm, (Option.some.inj hs).symm⟩

/-- What a thread knows of a slot is about its tid and its status. -/
lemma knows_of_eq (hp : p.Knows s t)
    (hs : ∀ k, (s'.threadPool k).kTid = (s.threadPool k).kTid ∧
      (s'.threadPool k).status = (s.threadPool k).status) : p.Knows s' t := by
  cases p with
  | user | create _ | vanished => trivial
  | exit st q => cases q <;> simp only [ThrPc.Knows, hs] at hp ⊢ <;> exact hp
  | join tid q => cases q <;> simp only [ThrPc.Knows, hs] at hp ⊢ <;> exact hp

lemma setThread_writes (s : ThrLib) (k : ℕ) (c : ThreadT) : WritesSlot s (s.setThread k c) k c :=
  ⟨rfl, rfl, rfl, rfl⟩

/-- A write that keeps the tid and the status keeps what a thread knows. -/
lemma WritesSlot.knows (hs : WritesSlot s s' k c) (hctid : c.kTid = (s.threadPool k).kTid)
    (hcst : c.status = (s.threadPool k).status) (hp : p.Knows s t) : p.Knows s' t := by
  refine knows_of_eq hp fun l => ?_
  by_cases hl : l = k
  · subst hl
    rw [hs.self]
    exact ⟨hctid, hcst⟩
  · rw [hs.of_ne hl]
    exact ⟨rfl, rfl⟩

include h hA in
/-- **A step on the mutex, or on other fields of a slot**, that keeps the tid, the status and
the exit status of a settled slot. -/
lemma Slotted.touch (hw : WritesSlot s s' k c) (hk : k < s.size)
    (hm : (s.threadPool k).m = none ∨ (s.threadPool k).m = some t)
    (hset : s.Settled (s.threadPool k)) (hctid : c.kTid = (s.threadPool k).kTid)
    (hcst : c.status = (s.threadPool k).status)
    (hcex : c.exitStatus = (s.threadPool k).exitStatus)
    (hp' : ∀ l, p'.found = some l → l = k) (hholds : p'.holds = some k → c.m = some t)
    (hclaims : ∀ l, p'.claims = some l → (pc t).claims = some l)
    (hchild : ∀ d, p'.child = some d → (pc t).child = some d) (hpast : (pc t).Past → p'.Past)
    (hknows : p'.Knows s t) (hexited : p'.Exited s t) : Slotted s' g t p' pc := by
  have hcset : s.Settled c := by
    refine ⟨fun hd => ?_, fun hz => ?_⟩
    · rw [hctid]
      exact hset.dead (hcst ▸ hd)
    · rw [hctid, hcex]
      exact hset.zombie (hcst ▸ hz)
  rw [← g.claim_self k]
  refine Slotted.write h hA hw hk hm (fun _ _ hu => hu) (fun x hx => ?_) (fun _ => hcset)
    (.inr hctid) (fun u _ hu _ => by rw [hctid]; exact hu) (fun u _ _ => ?_) ?_
  · rw [hctid, hcst]
    exact (h.claimed k x hx).2
  · rw [hcst]
    by_cases halive : (s.threadPool k).status = .alive
    · exact .inl halive
    · exact .inr halive
  · refine (hA t).write hw hk hp' (fun hl => ⟨hholds hl, fun _ => hcset⟩) (fun l hl => ?_) hchild
      (fun hp => ⟨fun h' => hp (hpast h'), fun hck => ?_⟩) (hw.knows hctid hcst hknows) hexited
    · rw [g.claim_self]
      exact (hA t).claims l (hclaims l hl)
    · rw [hctid] at hck
      rw [hcst]
      exact (hA t).fresh (fun h' => hp (hpast h')) k hck

include h hA in
/-- **A step that takes the mutex** of the slot that the thread has found. -/
lemma Slotted.lock (hs : s.mutexLock t k = some s') (hfound : (pc t).found = some k)
    (hp' : ∀ l, p'.found = some l → l = k)
    (hclaims : ∀ l, p'.claims = some l → (pc t).claims = some l)
    (hchild : ∀ d, p'.child = some d → (pc t).child = some d) (hpast : (pc t).Past → p'.Past)
    (hknows : p'.Knows s t) (hexited : p'.Exited s t) : Slotted s' g t p' pc := by
  obtain ⟨hm, rfl⟩ := mutexLock_eq_some hs
  exact Slotted.touch h hA (setThread_writes s k _) ((hA t).found k hfound) (.inl hm) (h.free k hm)
    rfl rfl rfl hp' (fun _ => rfl) hclaims hchild hpast hknows hexited

include h hA in
/-- **A step on other fields** of a settled slot that the thread holds, the mutex included. -/
lemma Slotted.held (hw : WritesSlot s s' k c) (hheld : (pc t).holds = some k)
    (htorn : ¬ (pc t).Torn) (hctid : c.kTid = (s.threadPool k).kTid)
    (hcst : c.status = (s.threadPool k).status)
    (hcex : c.exitStatus = (s.threadPool k).exitStatus)
    (hp' : ∀ l, p'.found = some l → l = k) (hholds : p'.holds = some k → c.m = some t)
    (hclaims : ∀ l, p'.claims = some l → (pc t).claims = some l)
    (hchild : ∀ d, p'.child = some d → (pc t).child = some d) (hpast : (pc t).Past → p'.Past)
    (hknows : p'.Knows s t) (hexited : p'.Exited s t) : Slotted s' g t p' pc :=
  Slotted.touch h hA hw ((hA t).found k (found_of_holds hheld)) (.inr ((hA t).holds k hheld))
    ((hA t).settled k hheld htorn) hctid hcst hcex hp' hholds hclaims hchild hpast hknows hexited

/-! ### Naming a slot and forking a thread -/

/-- The child has got its slot. -/
def SlotGhost.name (g : SlotGhost) (k d : ℕ) : SlotGhost :=
  { g.claim k none with named := fun x => g.named x ∨ x = d }

/-- The slot gets the tid of a child: a resurrected slot, or a new one. -/
structure NamesSlot (s s' : ThrLib) (k d : ℕ) (c : ThreadT) : Prop where
  pool : s'.threadPool = Function.update s.threadPool k c
  size : s.size ≤ s'.size
  inside : k < s'.size
  beyond : ∀ l, s'.size ≤ l → s.size ≤ l ∧ l ≠ k
  tids : s'.tids = s.tids
  exited : s'.exited = s.exited
  kTid : c.kTid = d
  status : c.status = .alive
  unnamed : (s.threadPool k).kTid = -1

lemma NamesSlot.self {d : ℕ} (hs : NamesSlot s s' k d c) : s'.threadPool k = c := by
  rw [hs.pool, Function.update_self]

lemma NamesSlot.of_ne {d l : ℕ} (hs : NamesSlot s s' k d c) (hl : l ≠ k) :
    s'.threadPool l = s.threadPool l := by
  rw [hs.pool, Function.update_of_ne hl]

lemma SlotInv.name {d : ℕ} (h : SlotInv s g) (hs : NamesSlot s s' k d c) (hd : d ∈ s.tids)
    (hn : ¬ g.named d) : SlotInv s' (g.name k d) := by
  refine ⟨fun l x hx => ?_, fun l hl => ?_, fun l e he => ?_, fun e he => ?_,
    fun l l' e he he' => ?_, fun l hl => ?_⟩
  · change Function.update g.claimant k none l = some x at hx
    by_cases hlk : l = k
    · subst hlk
      rw [Function.update_self] at hx
      cases hx
    · rw [Function.update_of_ne hlk] at hx
      rw [hs.of_ne hlk]
      obtain ⟨hl, hrest⟩ := h.claimed l x hx
      exact ⟨hl.trans_le hs.size, hrest⟩
  · by_cases hlk : l = k
    · subst hlk
      rw [hs.self]
      exact .of_alive hs.status
    · rw [hs.of_ne hlk] at hl ⊢
      exact (h.free l hl).mono fun t _ => congrFun hs.exited t
  · by_cases hlk : l = k
    · subst hlk
      rw [hs.self, hs.kTid] at he
      exact .inr (by omega)
    · rw [hs.of_ne hlk] at he
      exact .inl (h.named l e he)
  · rw [hs.tids]
    rcases he with he | rfl
    · exact h.forked e he
    · exact hd
  · by_cases hlk : l = k <;> by_cases hlk' : l' = k
    · rw [hlk, hlk']
    · subst hlk
      rw [hs.self, hs.kTid] at he
      rw [hs.of_ne hlk'] at he'
      obtain rfl : d = e := by omega
      exact absurd (h.named l' d he') hn
    · subst hlk'
      rw [hs.self, hs.kTid] at he'
      rw [hs.of_ne hlk] at he
      obtain rfl : d = e := by omega
      exact absurd (h.named l d he) hn
    · rw [hs.of_ne hlk] at he
      rw [hs.of_ne hlk'] at he'
      exact h.unique l l' e he he'
  · obtain ⟨hl', hlk⟩ := hs.beyond l hl
    rw [hs.of_ne hlk]
    exact h.beyond l hl'

lemma NamesSlot.rely {d : ℕ} (hs : NamesSlot s s' k d c) (hm : (s.threadPool k).m ≠ some u)
    (ho : g.claimant k ≠ some u) (hparent : g.parent d ≠ some u) :
    Rely s g u s' (g.name k d) := by
  have hunnamed := hs.unnamed
  refine ⟨hs.size, fun l hl => hs.of_ne ?_, fun l hl _ => ?_, fun l hl => ?_,
    fun t _ => congrFun hs.exited t, fun l hl => ?_, fun e hp he hn => ⟨hp, ?_, ?_⟩⟩
  · rintro rfl
    exact hm hl
  · by_cases hlk : l = k
    · subst hlk
      omega
    · rwa [hs.of_ne hlk]
  · by_cases hlk : l = k
    · subst hlk
      rw [hs.self]
      exact .inl hs.status
    · rw [hs.of_ne hlk] at hl ⊢
      by_cases halive : (s.threadPool l).status = .alive
      · exact .inl halive
      · exact .inr ⟨hl, halive⟩
  · change Function.update g.claimant k none l = some u
    by_cases hlk : l = k
    · subst hlk
      exact absurd hl ho
    · rwa [Function.update_of_ne hlk]
  · rw [hs.tids]
    exact he
  · rintro (h' | rfl)
    · exact hn h'
    · exact hparent hp

include h hA in
/-- **A step that names a slot**, new or claimed by the thread. -/
lemma Slotted.name {d : ℕ} (hs : NamesSlot s s' k d c) (hd : (pc t).child = some d)
    (hm : (s.threadPool k).m = none ∨ (s.threadPool k).m = some t)
    (ho : ∀ x, g.claimant k = some x → x = t) (hp' : ∀ l, p'.found = some l → l = k)
    (hholds : p'.holds = some k → c.m = some t) (hclaims : p'.claims = none)
    (hchild : p'.child = none) (hpast : ¬ (pc t).Past) (hknows : p'.Knows s' t)
    (hexited : p'.Exited s t) : Slotted s' (g.name k d) t p' pc := by
  obtain ⟨hpar, hin, hnot⟩ := (hA t).child d hd
  have hother : ∀ u, u ≠ t → (s.threadPool k).m ≠ some u := by
    intro u hu
    rcases hm with hm | hm <;> rw [hm]
    · nofun
    · exact fun heq => hu (Option.some.inj heq).symm
  refine ⟨h.name hs hin hnot, ?_, fun u hu => (hA u).stable (hs.rely (hother u hu) ?_ ?_)⟩
  · have hhk : ∀ l, p'.holds = some l → l = k := fun l hl => hp' l (found_of_holds hl)
    refine ⟨fun l hl => ?_, fun l hl => ?_, fun l hl _ => ?_, fun l hl => ?_, fun e he => ?_,
      fun _ l hl => ?_, hknows, ?_⟩
    · rw [hp' l hl]
      exact hs.inside
    · obtain rfl := hhk l hl
      rw [hs.self]
      exact hholds hl
    · rw [hhk l hl, hs.self]
      exact .of_alive hs.status
    · rw [hclaims] at hl
      cases hl
    · rw [hchild] at he
      cases he
    · by_cases hlk : l = k
      · subst hlk
        rw [hs.self]
        exact hs.status
      · rw [hs.of_ne hlk] at hl ⊢
        exact (hA t).fresh hpast l hl
    · cases p' <;> simp only [ThrPc.Exited, hs.exited] at hexited ⊢ <;> exact hexited
  · exact fun hx => hu (ho u hx)
  · rw [hpar]
    exact fun heq => hu (Option.some.inj heq).symm

/-- The thread has a child. -/
def SlotGhost.bear (g : SlotGhost) (d t : ℕ) : SlotGhost :=
  { g with parent := Function.update g.parent d (some t) }

include h hA in
/-- **A step that forks a thread.** -/
lemma Slotted.fork {d : ℕ} (hd : d ∉ s.tids) (hpool : s'.threadPool = s.threadPool)
    (hsize : s'.size = s.size) (htids : s'.tids = d :: s.tids) (hexit : s'.exited = s.exited)
    (hfound : ∀ l, p'.found = some l → (pc t).found = some l) (hholds : p'.holds = none)
    (hclaims : ∀ l, p'.claims = some l → (pc t).claims = some l) (hchild : p'.child = some d)
    (hpast : (pc t).Past → p'.Past) (hknows : p'.Knows s' t) (hexited : p'.Exited s t) :
    Slotted s' (g.bear d t) t p' pc := by
  have hn : ¬ g.named d := fun hnd => hd (h.forked d hnd)
  refine ⟨⟨fun k x hx => ?_, fun k hk => ?_, fun k e he => ?_, fun e he => ?_,
    fun k l e he he' => ?_, fun k hk => ?_⟩, ⟨fun l hl => ?_, fun l hl => ?_, fun l hl => ?_,
    fun l hl => (hA t).claims l (hclaims l hl), fun e he => ?_, fun hp l hl => ?_, hknows, ?_⟩,
    fun u hu => (hA u).stable ⟨hsize.ge, fun l _ => congrFun hpool l, fun l hl _ => ?_,
      fun l hl => ?_, fun v _ => congrFun hexit v, fun l hl => hl, fun e hp he hne => ?_⟩⟩
  · rw [hpool, hsize]
    exact h.claimed k x hx
  · rw [hpool] at hk ⊢
    exact (h.free k hk).mono fun v _ => congrFun hexit v
  · rw [hpool] at he
    exact h.named k e he
  · rw [htids]
    exact .tail d (h.forked e he)
  · rw [hpool] at he he'
    exact h.unique k l e he he'
  · rw [hsize] at hk
    rw [hpool]
    exact h.beyond k hk
  · rw [hsize]
    exact (hA t).found l (hfound l hl)
  · rw [hholds] at hl
    cases hl
  · rw [hholds] at hl
    cases hl
  · obtain rfl : d = e := Option.some.inj (hchild.symm.trans he)
    refine ⟨Function.update_self .., ?_, hn⟩
    rw [htids]
    exact .head _
  · rw [hpool] at hl ⊢
    exact (hA t).fresh (fun h' => hp (hpast h')) l hl
  · cases p' <;> simp only [ThrPc.Exited, hexit] at hexited ⊢ <;> exact hexited
  · rw [hpool]
    exact hl
  · rw [hpool] at hl ⊢
    by_cases halive : (s.threadPool l).status = .alive
    · exact .inl halive
    · exact .inr ⟨hl, halive⟩
  · refine ⟨?_, ?_, hne⟩
    · change Function.update g.parent d (some t) e = some u
      rw [Function.update_of_ne]
      · exact hp
      · rintro rfl
        exact hd he
    · rw [htids]
      exact .tail d he

include h hA in
/-- **The call of `thr_exit`.** -/
lemma Slotted.exit {status : ℤ} (hpc : pc t = .user) :
    Slotted { s with exited := Function.update s.exited t (some status) } g t
      (.exit status .lock) pc := by
  have hnone : s.exited t = none := by
    have := (hA t).exited
    rwa [hpc] at this
  have hne : ∀ v, s.exited v ≠ none →
      Function.update s.exited t (some status) v = s.exited v := by
    intro v hv
    refine Function.update_of_ne ?_ ..
    rintro rfl
    exact hv hnone
  refine ⟨⟨h.claimed, fun k hk => (h.free k hk).mono hne, h.named, h.forked, h.unique, h.beyond⟩,
    ⟨nofun, nofun, nofun, nofun, nofun, fun _ => ?_, trivial, Function.update_self ..⟩, ?_⟩
  · refine (hA t).fresh ?_
    rw [hpc]
    exact id
  · refine fun u hu => (hA u).stable ⟨le_rfl, fun _ _ => rfl, fun _ hk _ => hk, fun k hk => ?_,
      fun v hv => ?_, fun _ hk => hk, fun _ hp hd hn => ⟨hp, hd, hn⟩⟩
    · by_cases halive : (s.threadPool k).status = .alive
      · exact .inl halive
      · exact .inr ⟨hk, halive⟩
    · rcases hv with hv | rfl
      · exact hne v hv
      · exact Function.update_of_ne hu ..

end write

end ShrekOS
