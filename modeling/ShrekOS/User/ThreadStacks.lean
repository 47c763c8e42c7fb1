/-
The stacks of the threads of a task: `thr_create` gives each thread the stack of a slot, a new
one or the one of a dead thread.

* `ThrLib.OnStack`, `StacksDisjoint`: the bytes of a stack, and no two threads that have been
  forked and have not vanished share one;
* `Careful`: no `thr_create` reads the size of the pool while another one that has read it
  has not added its slot, and none resurrects a slot on whose stack a thread still runs;
* `Tenancies`, `StackAssert`: each thread is the tenant of one slot;
* `stacksDisjoint_of_careful`: **the stacks are disjoint in every careful run**, and
  `not_stacksDisjoint_of_size`: two threads that get the same stack.
-/
import ShrekOS.User.ThreadSteps

namespace ShrekOS

open Kit

/-- The byte is one of the `thread_stack_size` bytes below the stack top. -/
def ThrLib.OnStack (s : ThrLib) (top a : BitVec 32) : Prop :=
  top - 1 - a < s.threadStackSize

/-- The thread has been forked and has not executed `vanish`. -/
def Lives (c : ThrLib × (ℕ → ThrPc)) (t : ℕ) : Prop :=
  t ∈ c.1.tids ∧ c.2 t ≠ .vanished

instance (c : ThrLib × (ℕ → ThrPc)) (t : ℕ) : Decidable (Lives c t) :=
  inferInstanceAs (Decidable (_ ∧ _))

/-- **Disjoint stacks.** -/
def StacksDisjoint (c : ThrLib × (ℕ → ThrPc)) : Prop :=
  ∀ t u, t ≠ u → Lives c t → Lives c u →
    ∀ a, ¬ (c.1.OnStack (c.1.top t) a ∧ c.1.OnStack (c.1.top u) a)

namespace ThrPc

/-- The thread has read the size of the pool and not added its slot. -/
def Sizing : ThrPc → Prop
  | .create (.release none _) | .create (.page _) | .create (.bottom _)
  | .create (.fork none _) | .create (.addLock _ _) | .create (.add _ _) => True
  | _ => False

instance (p : ThrPc) : Decidable p.Sizing := by
  unfold Sizing
  split <;> infer_instance

end ThrPc

/-- **The condition**: a `thr_create` that reads the size of the pool is the only one between
that and its `add_to_pool_s`, and the address space has room for one more stack; one that
resurrects a slot finds no thread on its stack that has not vanished. -/
def Careful (c : ThrLib × (ℕ → ThrPc)) (a : ℕ × ThrAct) : Prop :=
  match c.2 a.1, a.2 with
  | .create .size, .run =>
      (c.1.size + 1) * c.1.threadStackSize.toNat ≤ 2 ^ 32 ∧ ∀ u ∈ c.1.tids, ¬ (c.2 u).Sizing
  | .create (.check k), .run =>
      (c.1.threadPool k).status = .dead →
        ∀ u ∈ c.1.tids, c.2 u ≠ .vanished → c.1.top u ≠ (c.1.threadPool k).stackTop
  | _, _ => True

instance (c : ThrLib × (ℕ → ThrPc)) (a : ℕ × ThrAct) : Decidable (Careful c a) := by
  unfold Careful
  split <;> infer_instance

/-- Which thread was forked last on the stack of a slot, and which thread is to add a slot. -/
structure StackGhost where
  tenant : ℕ → Option ℕ
  seat : Option ℕ

/-- **Each slot has its own stack**, the slot to be added too. -/
structure Tenancies (s : ThrLib) (g : StackGhost) : Prop where
  stackTop : ∀ k, k < s.size → (s.threadPool k).stackTop = s.newEsp k
  beyond : ∀ k, s.size < k → g.tenant k = none
  empty : g.seat = none → g.tenant s.size = none
  room : s.size * s.threadStackSize.toNat ≤ 2 ^ 32
  roomFor : g.seat ≠ none → (s.size + 1) * s.threadStackSize.toNat ≤ 2 ^ 32

/-- The stack that the thread is going to fork a thread on, or has forked one on. -/
def ThrPc.Esp (s : ThrLib) (g : StackGhost) : ThrPc → Prop
  | .create (.release none esp) | .create (.page esp) | .create (.bottom esp)
  | .create (.fork none esp) => esp = s.newEsp s.size ∧ g.tenant s.size = none
  | .create (.addLock _ esp) | .create (.add _ esp) => esp = s.newEsp s.size
  | .create (.claimed k esp) | .create (.release (some k) esp)
  | .create (.fork (some k) esp) => k < s.size ∧ esp = s.newEsp k ∧ g.tenant k = none
  | _ => True

/-- **The assertion of a thread about its stack.** -/
structure StackAssert (s : ThrLib) (g : StackGhost) (t : ℕ) (p : ThrPc) : Prop where
  inside : p ≠ .user → t ∈ s.tids
  lives : t ∈ s.tids → p ≠ .vanished → ∃ k, g.tenant k = some t ∧ s.top t = s.newEsp k
  seat : g.seat = some t ↔ p.Sizing
  esp : p.Esp s g

/-! ### Addresses -/

/-- A byte of the `k`-th stack has its offset from the top of the first in the `k`-th
block. -/
lemma offset_of_onStack {top S a : BitVec 32} {k : ℕ} (hroom : (k + 1) * S.toNat ≤ 2 ^ 32)
    (h : top - BitVec.ofNat 32 k * S - 1 - a < S) :
    k * S.toNat ≤ (top - 1 - a).toNat ∧ (top - 1 - a).toNat < (k + 1) * S.toNat := by
  have hS : 0 < S.toNat := by
    have := BitVec.lt_def.mp h
    omega
  have hk : k * S.toNat < 2 ^ 32 := by
    have : k * S.toNat + S.toNat ≤ 2 ^ 32 := by linarith
    omega
  have hmul : (BitVec.ofNat 32 k * S).toNat = k * S.toNat := by
    rw [BitVec.toNat_mul, BitVec.toNat_ofNat, Nat.mod_mul_mod]
    exact Nat.mod_eq_of_lt hk
  have hroom' : k * S.toNat + S.toNat ≤ 2 ^ 32 := by linarith
  rw [show (k + 1) * S.toNat = k * S.toNat + S.toNat by ring]
  generalize BitVec.ofNat 32 k * S = x at h hmul
  rw [← hmul] at hroom' ⊢
  have heq : top - x - 1 - a = (top - 1 - a) - x := by
    simp only [BitVec.sub_eq_add_neg]
    ac_rfl
  rw [heq] at h
  generalize top - 1 - a = b at h ⊢
  have hlt := BitVec.lt_def.mp h
  rw [BitVec.toNat_sub] at hlt
  have hb := b.isLt
  have hx := x.isLt
  omega

/-- The stacks of two slots are disjoint. -/
lemma not_onStack_both {s : ThrLib} {k l : ℕ} {a : BitVec 32} (hkl : k ≠ l)
    (hk : (k + 1) * s.threadStackSize.toNat ≤ 2 ^ 32)
    (hl : (l + 1) * s.threadStackSize.toNat ≤ 2 ^ 32) :
    ¬ (s.OnStack (s.newEsp k) a ∧ s.OnStack (s.newEsp l) a) := by
  rintro ⟨h1, h2⟩
  obtain ⟨hk1, hk2⟩ := offset_of_onStack hk h1
  obtain ⟨hl1, hl2⟩ := offset_of_onStack hl h2
  rcases Nat.lt_or_gt_of_ne hkl with hlt | hlt
  · have := Nat.mul_le_mul_right s.threadStackSize.toNat (show k + 1 ≤ l by omega)
    omega
  · have := Nat.mul_le_mul_right s.threadStackSize.toNat (show l + 1 ≤ k by omega)
    omega

variable {s s' : ThrLib} {g g' : StackGhost} {t u k : ℕ} {p p' : ThrPc} {pc : ℕ → ThrPc}
  {a : ThrAct} {c : ThrLib × (ℕ → ThrPc)}

/-- A tenant's slot is in the pool, or is the one to be added. -/
lemma Tenancies.roomOf (h : Tenancies s g) (hk : g.tenant k = some t) :
    (k + 1) * s.threadStackSize.toNat ≤ 2 ^ 32 := by
  rcases Nat.lt_trichotomy k s.size with hlt | rfl | hgt
  · exact (Nat.mul_le_mul_right _ hlt).trans h.room
  · refine h.roomFor fun hseat => ?_
    rw [h.empty hseat] at hk
    cases hk
  · rw [h.beyond k hgt] at hk
    cases hk

/-- **Tenants have disjoint stacks.** -/
theorem stacksDisjoint_of_annotated (h : Threads.Annotated Tenancies StackAssert c) :
    StacksDisjoint c := by
  obtain ⟨g, hI, hA⟩ := h
  rintro t u htu ⟨ht, htv⟩ ⟨hu, huv⟩ a
  obtain ⟨k, hk, htop⟩ := (hA t).lives ht htv
  obtain ⟨l, hl, htop'⟩ := (hA u).lives hu huv
  rw [htop, htop']
  refine not_onStack_both ?_ (hI.roomOf hk) (hI.roomOf hl)
  rintro rfl
  rw [hk] at hl
  exact htu (Option.some.inj hl)

/-! ### Steps that have nothing to do with stacks -/

/-- What the invariant and the assertions read stays. -/
structure SameStacks (s s' : ThrLib) : Prop where
  stackTop : ∀ k, (s'.threadPool k).stackTop = (s.threadPool k).stackTop
  size : s'.size = s.size
  parent : s'.parentStackTop = s.parentStackTop
  stackSize : s'.threadStackSize = s.threadStackSize
  tids : s'.tids = s.tids
  top : s'.top = s.top

lemma SameStacks.refl (s : ThrLib) : SameStacks s s := ⟨fun _ => rfl, rfl, rfl, rfl, rfl, rfl⟩

lemma SameStacks.newEsp (hs : SameStacks s s') : s'.newEsp = s.newEsp := by
  funext n
  unfold ThrLib.newEsp
  rw [hs.parent, hs.stackSize]

lemma SameStacks.inv (hs : SameStacks s s') (h : Tenancies s g) : Tenancies s' g where
  stackTop k hk := by
    rw [hs.stackTop, hs.newEsp]
    rw [hs.size] at hk
    exact h.stackTop k hk
  beyond k hk := h.beyond k (by rw [← hs.size]; exact hk)
  empty hk := by rw [hs.size]; exact h.empty hk
  room := by rw [hs.size, hs.stackSize]; exact h.room
  roomFor hk := by rw [hs.size, hs.stackSize]; exact h.roomFor hk

lemma SameStacks.esp (hs : SameStacks s s') (h : p.Esp s g) : p.Esp s' g := by
  unfold ThrPc.Esp at h ⊢
  rw [hs.size, hs.newEsp]
  exact h

/-- The assertion at another place in the same situation. -/
lemma SameStacks.assert (hs : SameStacks s s') (h : StackAssert s g t p) (ht : t ∈ s.tids)
    (hseat : p'.Sizing ↔ p.Sizing) (hv : p ≠ .vanished) (hesp : p'.Esp s g) :
    StackAssert s' g t p' := by
  refine ⟨fun _ => by rw [hs.tids]; exact ht, fun _ _ => ?_, h.seat.trans hseat.symm,
    hs.esp hesp⟩
  rw [hs.top, hs.newEsp]
  exact h.lives ht hv

lemma SameStacks.other (hs : SameStacks s s') (h : StackAssert s g u p) : StackAssert s' g u p := by
  refine ⟨?_, ?_, h.seat, hs.esp h.esp⟩
  · rw [hs.tids]
    exact h.inside
  · rw [hs.tids, hs.top, hs.newEsp]
    exact h.lives

/-- The write of a slot keeps its stack. -/
lemma sameStacks_of_update {d : ThreadT} (hpool : s'.threadPool = Function.update s.threadPool k d)
    (hd : d.stackTop = (s.threadPool k).stackTop) (hsize : s'.size = s.size)
    (hparent : s'.parentStackTop = s.parentStackTop)
    (hstack : s'.threadStackSize = s.threadStackSize) (htids : s'.tids = s.tids)
    (htop : s'.top = s.top) : SameStacks s s' := by
  refine ⟨fun l => ?_, hsize, hparent, hstack, htids, htop⟩
  rw [hpool]
  by_cases hl : l = k
  · subst hl
    rw [Function.update_self, hd]
  · rw [Function.update_of_ne hl]

lemma setThread_sameStacks {d : ThreadT} (hd : d.stackTop = (s.threadPool k).stackTop) :
    SameStacks s (s.setThread k d) :=
  sameStacks_of_update rfl hd rfl rfl rfl rfl rfl

lemma mutexLock_sameStacks (hs : s.mutexLock t k = some s') : SameStacks s s' := by
  obtain ⟨-, rfl⟩ := mutexLock_eq_some hs
  exact setThread_sameStacks rfl

lemma rwlockRead_sameStacks (hs : s.rwlockRead = some s') : SameStacks s s' := by
  unfold ThrLib.rwlockRead at hs
  split_ifs at hs
  obtain rfl := Option.some.inj hs
  exact ⟨fun _ => rfl, rfl, rfl, rfl, rfl, rfl⟩

lemma rwlockWrite_sameStacks (hs : s.rwlockWrite = some s') : SameStacks s s' := by
  unfold ThrLib.rwlockWrite at hs
  split_ifs at hs
  obtain rfl := Option.some.inj hs
  exact ⟨fun _ => rfl, rfl, rfl, rfl, rfl, rfl⟩

lemma rwlockUnlock_sameStacks (s : ThrLib) : SameStacks s s.rwlockUnlock := by
  unfold ThrLib.rwlockUnlock
  split_ifs <;> exact ⟨fun _ => rfl, rfl, rfl, rfl, rfl, rfl⟩

/-- The steps of `thr_exit` have nothing to do with stacks, but for the end of the thread. -/
lemma exitNext_sameStacks {st : ℤ} {q : ExitPc} (hs : exitNext s t st q a = some (s', p')) :
    SameStacks s s' ∧ ¬ p'.Sizing ∧ p'.Esp s g := by
  cases a with
  | thrCreate | thrExit _ | thrJoin _ | fail | fork _ | add _ _ => cases q <;> cases hs
  | run =>
      cases q with
      | lock =>
          simp only [exitNext, Option.map_eq_some_iff] at hs
          obtain ⟨s₁, h₁, heq⟩ := hs
          obtain ⟨rfl, rfl⟩ := Prod.mk.inj heq
          exact ⟨rwlockRead_sameStacks h₁, id, trivial⟩
      | take k =>
          simp only [exitNext, Option.map_eq_some_iff] at hs
          obtain ⟨s₁, h₁, heq⟩ := hs
          obtain ⟨rfl, rfl⟩ := Prod.mk.inj heq
          exact ⟨mutexLock_sameStacks h₁, id, trivial⟩
      | scan k =>
          simp only [exitNext] at hs
          split_ifs at hs <;> obtain ⟨rfl, rfl⟩ := Prod.mk.inj (Option.some.inj hs)
          all_goals exact ⟨.refl s, id, trivial⟩
      | retry | release =>
          obtain ⟨rfl, rfl⟩ := Prod.mk.inj (Option.some.inj hs)
          exact ⟨rwlockUnlock_sameStacks s, id, trivial⟩
      | mark k | save k | unlock k =>
          obtain ⟨rfl, rfl⟩ := Prod.mk.inj (Option.some.inj hs)
          exact ⟨setThread_sameStacks rfl, id, trivial⟩
      | signal k =>
          simp only [exitNext] at hs
          split at hs <;> obtain ⟨rfl, rfl⟩ := Prod.mk.inj (Option.some.inj hs)
          · exact ⟨.refl s, id, trivial⟩
          · exact ⟨sameStacks_of_update rfl rfl rfl rfl rfl rfl rfl, id, trivial⟩
      | wake k w =>
          obtain ⟨rfl, rfl⟩ := Prod.mk.inj (Option.some.inj hs)
          exact ⟨⟨fun _ => rfl, rfl, rfl, rfl, rfl, rfl⟩, id, trivial⟩
      | vanish =>
          obtain ⟨rfl, rfl⟩ := Prod.mk.inj (Option.some.inj hs)
          exact ⟨.refl s, id, trivial⟩

/-- The steps of `thr_join` have nothing to do with stacks. -/
lemma joinNext_sameStacks {tid : ℤ} {q : JoinPc} (hs : joinNext s t tid q a = some (s', p')) :
    SameStacks s s' ∧ ¬ p'.Sizing ∧ p'.Esp s g := by
  cases a with
  | thrCreate | thrExit _ | thrJoin _ | fail | fork _ | add _ _ => cases q <;> cases hs
  | run =>
      cases q with
      | lock =>
          simp only [joinNext, Option.map_eq_some_iff] at hs
          obtain ⟨s₁, h₁, heq⟩ := hs
          obtain ⟨rfl, rfl⟩ := Prod.mk.inj heq
          exact ⟨rwlockRead_sameStacks h₁, id, trivial⟩
      | take k | relock k =>
          simp only [joinNext, Option.map_eq_some_iff] at hs
          obtain ⟨s₁, h₁, heq⟩ := hs
          obtain ⟨rfl, rfl⟩ := Prod.mk.inj heq
          exact ⟨mutexLock_sameStacks h₁, id, trivial⟩
      | wait k q =>
          obtain ⟨r, w, rfl, rfl | ⟨q', rfl⟩⟩ := sleepNext_writes hs
          all_goals exact ⟨⟨fun _ => rfl, rfl, rfl, rfl, rfl, rfl⟩, id, trivial⟩
      | scan k | enter k =>
          simp only [joinNext] at hs
          split_ifs at hs <;> obtain ⟨rfl, rfl⟩ := Prod.mk.inj (Option.some.inj hs)
          all_goals exact ⟨.refl s, id, trivial⟩
      | giveUp | release k =>
          obtain ⟨rfl, rfl⟩ := Prod.mk.inj (Option.some.inj hs)
          exact ⟨rwlockUnlock_sameStacks s, id, trivial⟩
      | refuse k | clear k st | reap k st | unname k st =>
          obtain ⟨rfl, rfl⟩ := Prod.mk.inj (Option.some.inj hs)
          exact ⟨setThread_sameStacks rfl, id, trivial⟩
      | test k =>
          simp only [joinNext] at hs
          split_ifs at hs <;> obtain ⟨rfl, rfl⟩ := Prod.mk.inj (Option.some.inj hs)
          · exact ⟨.refl s, id, trivial⟩
          · exact ⟨sameStacks_of_update rfl rfl rfl rfl rfl rfl rfl, id, trivial⟩
          · exact ⟨.refl s, id, trivial⟩
      | save k =>
          obtain ⟨rfl, rfl⟩ := Prod.mk.inj (Option.some.inj hs)
          exact ⟨.refl s, id, trivial⟩
      | unlock k st =>
          obtain ⟨rfl, rfl⟩ := Prod.mk.inj (Option.some.inj hs)
          exact ⟨sameStacks_of_update rfl rfl rfl rfl rfl rfl rfl, id, trivial⟩

/-! ### The steps of `thr_create` -/

/-- What a step of thread `t` establishes. -/
def Stacked (s : ThrLib) (g : StackGhost) (t : ℕ) (p : ThrPc) (pc : ℕ → ThrPc) : Prop :=
  Tenancies s g ∧ StackAssert s g t p ∧ ∀ u, u ≠ t → StackAssert s g u (pc u)

section steps

variable (h : Tenancies s g) (hA : ∀ u, StackAssert s g u (pc u)) (ht : t ∈ s.tids)

include h hA ht

/-- A step that has nothing to do with stacks. -/
lemma Stacked.same (hs : SameStacks s s') (hseat : p'.Sizing ↔ (pc t).Sizing)
    (hv : pc t ≠ .vanished) (hesp : p'.Esp s g) : Stacked s' g t p' pc :=
  ⟨hs.inv h, hs.assert (hA t) ht hseat hv hesp, fun u _ => hs.other (hA u)⟩

/-- The thread gives up on adding a slot. -/
lemma stacked_leave (hseat : (pc t).Sizing) (hv : pc t ≠ .vanished)
    (hempty : g.tenant s.size = none) : Stacked s { g with seat := none } t .user pc := by
  have hst := (hA t).seat.mpr hseat
  refine ⟨⟨h.stackTop, h.beyond, fun _ => hempty, h.room, fun hn => absurd rfl hn⟩,
    ⟨fun _ => ht, fun _ _ => (hA t).lives ht hv, ⟨nofun, False.elim⟩, trivial⟩, fun u hu => ?_⟩
  have hu' : ¬ (pc u).Sizing := by
    intro hsz
    rw [← (hA u).seat, hst] at hsz
    exact hu (Option.some.inj hsz).symm
  exact ⟨(hA u).inside, (hA u).lives, ⟨nofun, fun hsz => absurd hsz hu'⟩, (hA u).esp⟩

/-- The thread resurrects a slot whose stack nobody uses. -/
lemma stacked_claim {esp : BitVec 32} (hpc : pc t = .create (.check k)) (hk : k < s.size)
    (hesp : esp = (s.threadPool k).stackTop)
    (hfree : ∀ u ∈ s.tids, pc u ≠ .vanished → s.top u ≠ (s.threadPool k).stackTop)
    (hs : SameStacks s s') :
    Stacked s' { g with tenant := Function.update g.tenant k none } t
      (.create (.claimed k esp)) pc := by
  have htop := h.stackTop k hk
  -- a tenant that still lives has another slot
  have hlives : ∀ u ∈ s.tids, pc u ≠ .vanished →
      ∃ l, Function.update g.tenant k none l = some u ∧ s.top u = s.newEsp l := by
    intro u hu huv
    obtain ⟨l, hl, hlt⟩ := (hA u).lives hu huv
    refine ⟨l, ?_, hlt⟩
    rw [Function.update_of_ne]
    · exact hl
    · rintro rfl
      exact hfree u hu huv (hlt.trans htop.symm)
  have hnone : ∀ l, g.tenant l = none → Function.update g.tenant k none l = none := by
    intro l hl
    by_cases hlk : l = k
    · rw [hlk, Function.update_self]
    · rwa [Function.update_of_ne hlk]
  have hI : Tenancies s { g with tenant := Function.update g.tenant k none } :=
    ⟨h.stackTop, fun l hl => hnone l (h.beyond l hl), fun hn => hnone _ (h.empty hn), h.room,
      h.roomFor⟩
  refine ⟨hs.inv hI, ⟨fun _ => by rw [hs.tids]; exact ht, fun _ _ => ?_, ?_, ?_⟩, fun u hu => ?_⟩
  · rw [hs.top, hs.newEsp]
    exact hlives t ht (by rw [hpc]; rintro ⟨⟩)
  · refine ⟨fun hseat => ?_, False.elim⟩
    have := (hA t).seat.mp hseat
    rw [hpc] at this
    exact this
  · refine hs.esp ⟨hk, ?_, Function.update_self ..⟩
    rw [hesp, htop]
  · refine hs.other ⟨(hA u).inside, hlives u, (hA u).seat, ?_⟩
    have hu' := (hA u).esp
    unfold ThrPc.Esp at hu' ⊢
    split at hu'
    all_goals first
      | exact ⟨hu'.1, hnone _ hu'.2⟩
      | exact ⟨hu'.1, hu'.2.1, hnone _ hu'.2.2⟩
      | exact hu'

/-- The thread reads the size of the pool while nobody else is about to add a slot. -/
lemma stacked_size (hpc : pc t = .create .size)
    (hroom : (s.size + 1) * s.threadStackSize.toNat ≤ 2 ^ 32)
    (hfree : ∀ u ∈ s.tids, ¬ (pc u).Sizing) :
    Stacked s { g with seat := some t } t (.create (.release none (s.newEsp s.size))) pc := by
  have hnot : ∀ u, ¬ (pc u).Sizing := by
    intro u hsz
    refine hfree u ((hA u).inside ?_) hsz
    rintro hu
    rw [hu] at hsz
    exact hsz
  have hseat : g.seat = none := by
    rcases hg : g.seat with - | u
    · rfl
    · exact absurd ((hA u).seat.mp hg) (hnot u)
  refine ⟨⟨h.stackTop, h.beyond, nofun, h.room, fun _ => hroom⟩,
    ⟨fun _ => ht, fun _ _ => (hA t).lives ht (by rw [hpc]; rintro ⟨⟩),
      ⟨fun _ => trivial, fun _ => rfl⟩,
      rfl, h.empty hseat⟩, fun u hu => ?_⟩
  refine ⟨(hA u).inside, (hA u).lives, ⟨fun heq => absurd (Option.some.inj heq).symm hu,
    fun hsz => absurd hsz (hnot u)⟩, (hA u).esp⟩

/-- The thread forks a child on a stack that has no tenant. -/
lemma stacked_fork {d : ℕ} {esp : BitVec 32} (hd : d ∉ s.tids) (hesp : esp = s.newEsp k)
    (hfree : g.tenant k = none) (hk : k < s.size ∨ k = s.size ∧ g.seat ≠ none)
    (hv : pc t ≠ .vanished) (hseat : p'.Sizing ↔ (pc t).Sizing)
    (hother : ∀ u, u ≠ t → (pc u).Esp s g →
      (pc u).Esp s { g with tenant := Function.update g.tenant k (some d) })
    (hp' : p'.Esp s { g with tenant := Function.update g.tenant k (some d) }) :
    Stacked { s with tids := d :: s.tids, top := Function.update s.top d esp }
      { g with tenant := Function.update g.tenant k (some d) } t p' pc := by
  have hlives : ∀ u ∈ s.tids, pc u ≠ .vanished →
      ∃ l, Function.update g.tenant k (some d) l = some u ∧
        Function.update s.top d esp u = s.newEsp l := by
    intro u hu huv
    obtain ⟨l, hl, hlt⟩ := (hA u).lives hu huv
    refine ⟨l, ?_, ?_⟩
    · rw [Function.update_of_ne]
      · exact hl
      · rintro rfl
        rw [hfree] at hl
        cases hl
    · rw [Function.update_of_ne]
      · exact hlt
      · rintro rfl
        exact hd hu
  have hnone : ∀ l, g.tenant l = none → l ≠ k →
      Function.update g.tenant k (some d) l = none := by
    intro l hl hlk
    rwa [Function.update_of_ne hlk]
  refine ⟨⟨h.stackTop, fun l hl => hnone l (h.beyond l hl) ?_, fun hn => hnone _ (h.empty hn) ?_,
    h.room, h.roomFor⟩, ⟨fun _ => .tail d ht, fun _ _ => hlives t ht hv,
      (hA t).seat.trans hseat.symm, ?_⟩, fun u hu => ⟨fun hne => .tail d ((hA u).inside hne),
      fun hu' huv => ?_, (hA u).seat, ?_⟩⟩
  · change s.size < l at hl
    omega
  · rintro heq
    rcases hk with hk | ⟨-, hk⟩
    · change s.size = k at heq
      omega
    · exact hk hn
  · exact hp'
  · rcases List.mem_cons.mp hu' with rfl | hu'
    · refine ⟨k, Function.update_self .., ?_⟩
      change Function.update s.top u esp u = s.newEsp k
      rw [Function.update_self, hesp]
    · exact hlives u hu' huv
  · exact hother u hu (hA u).esp

/-- The thread adds the slot of its child. -/
lemma stacked_add {d : ℕ} {esp : BitVec 32} {pending : Bool} {status : ℤ}
    (hpc : pc t = .create (.add d esp)) :
    Stacked { s.setThread s.size ⟨pending, d, .alive, status, [], none, esp⟩ with
      size := s.size + 1 } { g with seat := none } t (.create .addUnlock) pc := by
  have hst : g.seat = some t := (hA t).seat.mpr (by rw [hpc]; trivial)
  have hesp : esp = s.newEsp s.size := by
    have := (hA t).esp
    rwa [hpc] at this
  have hnot : ∀ u, u ≠ t → ¬ (pc u).Sizing := by
    intro u hu hsz
    rw [← (hA u).seat, hst] at hsz
    exact hu (Option.some.inj hsz).symm
  refine ⟨⟨fun l hl => ?_, fun l hl => h.beyond l ?_, fun _ => h.beyond _ (Nat.lt_succ_self _), ?_,
    fun hn => absurd rfl hn⟩, ⟨fun _ => ht, fun _ _ => (hA t).lives ht (by rw [hpc]; rintro ⟨⟩),
      ⟨nofun, False.elim⟩, trivial⟩, fun u hu => ⟨(hA u).inside, (hA u).lives,
      ⟨nofun, fun hsz => absurd hsz (hnot u hu)⟩, ?_⟩⟩
  · change (Function.update s.threadPool s.size _ l).stackTop = s.newEsp l
    by_cases hls : l = s.size
    · rw [hls, Function.update_self]
      exact hesp
    · rw [Function.update_of_ne hls]
      refine h.stackTop l ?_
      change l < s.size + 1 at hl
      omega
  · change s.size + 1 < l at hl
    omega
  · exact h.roomFor (by rw [hst]; nofun)
  · have hu' := (hA u).esp
    have hsz := hnot u hu
    unfold ThrPc.Esp at hu' ⊢
    split at hu' <;> first
      | exact ⟨hu'.1.trans (Nat.lt_succ_self _), hu'.2⟩
      | exact trivial
      | skip
    all_goals
      next heq =>
        rw [heq] at hsz
        exact absurd trivial hsz

omit h hA ht in
/-- The stack that a thread is about to use is not the one that gets a tenant. -/
lemma esp_update {o : Option ℕ} (hp : p.Esp s g) (hsize : p.Sizing → s.size ≠ k)
    (hclaims : ∀ l, p.claims = some l → l ≠ k) :
    p.Esp s { g with tenant := Function.update g.tenant k o } := by
  unfold ThrPc.Esp at hp ⊢
  split at hp
  -- the stack of a new slot, which is the next one
  case h_1 | h_2 | h_3 | h_4 =>
    exact ⟨hp.1, (Function.update_of_ne (hsize trivial) ..).trans hp.2⟩
  -- a child that is on its stack already
  case h_5 | h_6 => exact hp
  -- the stack of a slot that the thread has claimed
  case h_7 | h_8 | h_9 =>
    exact ⟨hp.1, hp.2.1, (Function.update_of_ne (hclaims _ rfl) ..).trans hp.2.2⟩
  case h_10 => exact hp

/-- **The steps of `thr_create`** give no stack to two threads. -/
theorem createNext_stacked {q : CreatePc} (hbase : Threads.Annotated SlotInv SlotAssert (s, pc))
    (hcareful : Careful (s, pc) (t, a)) (hpc : pc t = .create q)
    (hs : createNext s t q a = some (s', p')) : ∃ g', Stacked s' g' t p' pc := by
  have hv : pc t ≠ .vanished := by
    rw [hpc]
    rintro ⟨⟩
  have hesp := (hA t).esp
  rw [hpc] at hesp
  cases a with
  | thrCreate | thrExit _ | thrJoin _ => cases q <;> cases hs
  | fail =>
      cases q with
      -- no page for the stack, or no thread: the slot that was sized stays without a tenant
      | page esp =>
          simp only [createNext] at hs
          split_ifs at hs
          obtain ⟨rfl, rfl⟩ := Prod.mk.inj (Option.some.inj hs)
          exact ⟨_, stacked_leave h hA ht (by rw [hpc]; trivial) hv hesp.2⟩
      | fork found esp =>
          cases found with
          | none =>
              obtain ⟨rfl, rfl⟩ := Prod.mk.inj (Option.some.inj hs)
              exact ⟨_, stacked_leave h hA ht (by rw [hpc]; trivial) hv hesp.2⟩
          | some k =>
              obtain ⟨rfl, rfl⟩ := Prod.mk.inj (Option.some.inj hs)
              exact ⟨g, Stacked.same h hA ht (.refl s) (by rw [hpc]; exact Iff.rfl) hv trivial⟩
      | _ => cases hs
  | fork d =>
      cases q with
      | fork found esp =>
          cases found with
          -- the child becomes the tenant of the next slot, whose stack was sized under the lock
          | none =>
              simp only [createNext] at hs
              split_ifs at hs with hd
              obtain ⟨rfl, rfl⟩ := Prod.mk.inj (Option.some.inj hs)
              have hseat : g.seat = some t := (hA t).seat.mpr (by rw [hpc]; trivial)
              refine ⟨_, stacked_fork h hA ht hd hesp.1 hesp.2
                (.inr ⟨rfl, by rw [hseat]; rintro ⟨⟩⟩) hv
                (by rw [hpc]; exact Iff.rfl) (fun u hu hE => esp_update hE (fun hsz => ?_) ?_)
                hesp.1⟩
              -- only one thread at a time sizes a stack
              · rw [← (hA u).seat, hseat] at hsz
                exact absurd (Option.some.inj hsz).symm hu
              · intro l hl
                exact (found_lt hbase (found_of_claims hl)).ne
          -- the child becomes the tenant of the slot that was claimed
          | some k =>
              simp only [createNext] at hs
              split_ifs at hs with hd
              obtain ⟨rfl, rfl⟩ := Prod.mk.inj (Option.some.inj hs)
              obtain ⟨hk, heq, hfree⟩ := hesp
              refine ⟨_, stacked_fork h hA ht hd heq hfree (.inl hk) hv
                (by rw [hpc]; exact Iff.rfl) (fun u hu hE => esp_update hE (fun _ => hk.ne') ?_)
                trivial⟩
              rintro l hl rfl
              -- a claim is exclusive
              exact hu (claims_inj hbase hl (show (pc t).claims = some l by rw [hpc]; rfl))
      | _ => cases hs
  | add pending status =>
      cases q with
      | add d esp =>
          obtain ⟨rfl, rfl⟩ := Prod.mk.inj (Option.some.inj hs)
          exact ⟨_, stacked_add h hA ht hpc⟩
      | _ => cases hs
  | run =>
      cases q with
      | lock =>
          simp only [createNext, Option.map_eq_some_iff] at hs
          obtain ⟨s₁, h₁, heq⟩ := hs
          obtain ⟨rfl, rfl⟩ := Prod.mk.inj heq
          exact ⟨g, Stacked.same h hA ht (rwlockRead_sameStacks h₁) (by rw [hpc]; exact Iff.rfl) hv
            trivial⟩
      | scan k =>
          simp only [createNext] at hs
          split_ifs at hs <;> obtain ⟨rfl, rfl⟩ := Prod.mk.inj (Option.some.inj hs)
          all_goals
            exact ⟨g, Stacked.same h hA ht (.refl s) (by rw [hpc]; exact Iff.rfl) hv trivial⟩
      | take k | tidTake k d | revertTake k | revertAgain k =>
          simp only [createNext, Option.map_eq_some_iff] at hs
          obtain ⟨s₁, h₁, heq⟩ := hs
          obtain ⟨rfl, rfl⟩ := Prod.mk.inj heq
          exact ⟨g, Stacked.same h hA ht (mutexLock_sameStacks h₁) (by rw [hpc]; exact Iff.rfl) hv
            trivial⟩
      | check k =>
          have hk : k < s.size := found_lt hbase (show (pc t).found = some k by rw [hpc]; rfl)
          simp only [createNext] at hs
          split_ifs at hs with hd
          · obtain ⟨rfl, rfl⟩ := Prod.mk.inj (Option.some.inj hs)
            -- `Careful`: the thread that was on the slot has left its stack
            unfold Careful at hcareful
            simp only [hpc] at hcareful
            exact ⟨_, stacked_claim h hA ht hpc hk rfl (hcareful hd) (setThread_sameStacks rfl)⟩
          · obtain ⟨rfl, rfl⟩ := Prod.mk.inj (Option.some.inj hs)
            exact ⟨g, Stacked.same h hA ht (.refl s) (by rw [hpc]; exact Iff.rfl) hv trivial⟩
      | giveUp k | tidSet k d | tidUnlock k | revert k =>
          obtain ⟨rfl, rfl⟩ := Prod.mk.inj (Option.some.inj hs)
          exact ⟨g, Stacked.same h hA ht (setThread_sameStacks rfl) (by rw [hpc]; exact Iff.rfl) hv
            trivial⟩
      | claimed k esp =>
          obtain ⟨rfl, rfl⟩ := Prod.mk.inj (Option.some.inj hs)
          exact ⟨g, Stacked.same h hA ht (setThread_sameStacks rfl) (by rw [hpc]; exact Iff.rfl) hv
            hesp⟩
      | size =>
          obtain ⟨rfl, rfl⟩ := Prod.mk.inj (Option.some.inj hs)
          -- `Careful`: nobody else is sizing, and there is room for one more stack
          unfold Careful at hcareful
          simp only [hpc] at hcareful
          exact ⟨_, stacked_size h hA ht hpc hcareful.1 hcareful.2⟩
      | release found esp =>
          cases found <;> obtain ⟨rfl, rfl⟩ := Prod.mk.inj (Option.some.inj hs)
          all_goals
            exact ⟨g, Stacked.same h hA ht (rwlockUnlock_sameStacks s) (by rw [hpc]; exact Iff.rfl)
              hv hesp⟩
      | page esp =>
          simp only [createNext] at hs
          split_ifs at hs <;> obtain ⟨rfl, rfl⟩ := Prod.mk.inj (Option.some.inj hs)
          all_goals
            exact ⟨g, Stacked.same h hA ht (.refl s) (by rw [hpc]; exact Iff.rfl) hv hesp⟩
      | bottom esp =>
          obtain ⟨rfl, rfl⟩ := Prod.mk.inj (Option.some.inj hs)
          exact ⟨g, Stacked.same h hA ht ⟨fun _ => rfl, rfl, rfl, rfl, rfl, rfl⟩
            (by rw [hpc]; exact Iff.rfl) hv hesp⟩
      | addLock d esp =>
          simp only [createNext, Option.map_eq_some_iff] at hs
          obtain ⟨s₁, h₁, heq⟩ := hs
          obtain ⟨rfl, rfl⟩ := Prod.mk.inj heq
          exact ⟨g, Stacked.same h hA ht (rwlockWrite_sameStacks h₁) (by rw [hpc]; exact Iff.rfl) hv
            hesp⟩
      | addUnlock =>
          obtain ⟨rfl, rfl⟩ := Prod.mk.inj (Option.some.inj hs)
          exact ⟨g, Stacked.same h hA ht (rwlockUnlock_sameStacks s) (by rw [hpc]; exact Iff.rfl) hv
            trivial⟩
      | fork _ _ | add _ _ => cases hs

/-- **The steps of a thread** give no stack to two threads. -/
theorem thrNext_stacked (hbase : Threads.Annotated SlotInv SlotAssert (s, pc))
    (hcareful : Careful (s, pc) (t, a)) (hs : thrNext s t (pc t) a = some (s', p')) :
    ∃ g', Stacked s' g' t p' pc := by
  obtain ⟨-, hnext⟩ := thrNext_eq_some hs
  generalize hpc : pc t = p at hnext
  cases hnext with
  | thrCreate =>
      exact ⟨g, Stacked.same h hA ht (.refl s) (by rw [hpc]; exact Iff.rfl)
        (by rw [hpc]; rintro ⟨⟩) trivial⟩
  | thrExit status =>
      exact ⟨g, Stacked.same h hA ht ⟨fun _ => rfl, rfl, rfl, rfl, rfl, rfl⟩
        (by rw [hpc]; exact Iff.rfl) (by rw [hpc]; rintro ⟨⟩) trivial⟩
  | thrJoin kTid =>
      exact ⟨g, Stacked.same h hA ht (.refl s) (by rw [hpc]; exact Iff.rfl)
        (by rw [hpc]; rintro ⟨⟩) trivial⟩
  | create hs => exact createNext_stacked h hA ht hbase hcareful hpc hs
  | exit hs =>
      -- no thread sizes a stack in `thr_exit` or in `thr_join`
      obtain ⟨hsame, hseat, hesp⟩ := exitNext_sameStacks hs
      refine ⟨g, Stacked.same h hA ht hsame ?_ (by rw [hpc]; rintro ⟨⟩) hesp⟩
      rw [hpc]
      exact iff_of_false hseat id
  | join hs =>
      obtain ⟨hsame, hseat, hesp⟩ := joinNext_sameStacks hs
      refine ⟨g, Stacked.same h hA ht hsame ?_ (by rw [hpc]; rintro ⟨⟩) hesp⟩
      rw [hpc]
      exact iff_of_false hseat id

end steps

/-! ### Runs -/

/-- When `thr_init` returns, the caller is the tenant of the first slot. -/
lemma stacked_init (h : thrLib.init c) : Threads.Annotated Tenancies StackAssert c := by
  obtain ⟨⟨main, h⟩, hpc⟩ := h
  have h0 : c.1.newEsp 0 = c.1.parentStackTop := by
    unfold ThrLib.newEsp
    rw [BitVec.zero_mul, BitVec.sub_zero]
  refine ⟨⟨fun k => if k = 0 then some main else none, none⟩, ⟨fun k hk => ?_, fun k hk => ?_,
    fun _ => ?_, ?_, fun hn => absurd rfl hn⟩, fun t => ?_⟩
  · rw [h.size] at hk
    obtain rfl : k = 0 := by omega
    rw [h0]
    exact h.stackTop
  · exact if_neg (by omega)
  · rw [h.size]
    rfl
  · rw [h.size, Nat.one_mul]
    exact c.1.threadStackSize.isLt.le
  · rw [hpc t]
    refine ⟨fun hn => absurd rfl hn, fun ht _ => ⟨0, ?_, ?_⟩, ⟨nofun, False.elim⟩, trivial⟩
    · rw [h.tids, List.mem_singleton] at ht
      rw [ht]
      rfl
    · rw [h.tids, List.mem_singleton] at ht
      rw [ht, h0]
      exact h.top

/-- **Disjoint stacks** in every careful run. -/
theorem stacksDisjoint_of_careful (h : thrLib.machine.Reach Careful c) : StacksDisjoint c := by
  have hbase := h.with fun _ => slotted_of_reach
  refine stacksDisjoint_of_annotated (Threads.annotated_of_reach (fun _ => stacked_init) ?_ hbase)
  intro s pc g t a s' p' hI hA hG hs
  exact thrNext_stacked hI hA (thrNext_eq_some hs).1 hG.2 hG.1 hs

/-- `thr_init` has returned to thread 0. -/
def afterInit : ThrLib × (ℕ → ThrPc) :=
  (⟨0xffff0000, 0x1000, 0xfffef000,
    fun k => ⟨false, if k = 0 then 0 else -1, .alive, 0, [], none, 0xffff0000⟩, 1, 0, false,
    fun _ => false, fun _ => false, [0], fun _ => 0xffff0000, fun _ => none, []⟩, fun _ => .user)

lemma afterInit_init : thrLib.init afterInit := by
  refine ⟨⟨0, rfl, rfl, rfl, rfl, rfl, rfl, fun k hk => ⟨?_, rfl, rfl⟩, rfl, rfl, fun _ => rfl,
    rfl, rfl, fun _ => rfl, rfl⟩, fun _ => rfl⟩
  exact if_neg (by omega)

/-- The thread takes the number of steps. -/
def steps (t n : ℕ) : List (ℕ × ThrAct) := List.replicate n (t, .run)

/-- Thread 0 creates thread 1 on a new stack. -/
def createRun : List (ℕ × ThrAct) :=
  (0, .thrCreate) :: steps 0 7 ++ [(0, .fork 1)] ++ steps 0 1 ++ [(0, .add false 0)] ++ steps 0 1

/-- Thread 1 exits, up to the call of `vanish`. -/
def exitRun : List (ℕ × ThrAct) := (1, .thrExit 7) :: steps 1 9

/-- Thread 0 joins thread 1 and creates thread 2 on its stack. -/
def recycleRun : List (ℕ × ThrAct) :=
  (0, .thrJoin 1) :: steps 0 12 ++ (0, .thrCreate) :: steps 0 7 ++ [(0, .fork 2)] ++ steps 0 3

/-- The run in which thread 1 has vanished before its stack is used again. -/
theorem stacksDisjoint_of_careful_recycleRun :
    ∃ c, Machine.replay (Machine.guarded Careful thrLib.next) afterInit
        (createRun ++ exitRun ++ steps 1 1 ++ recycleRun) = some c ∧
      c.1.tids = [2, 1, 0] ∧ c.1.top 2 = 0xfffef000 ∧ c.1.joined = [(1, 7)] ∧
      StacksDisjoint c := by
  have hrun : (Machine.replay (Machine.guarded Careful thrLib.next) afterInit
      (createRun ++ exitRun ++ steps 1 1 ++ recycleRun)).map
      (fun c => (c.1.tids, c.1.top 2, c.1.joined)) = some ([2, 1, 0], 0xfffef000, [(1, 7)]) := by
    decide +kernel
  rw [Option.map_eq_some_iff] at hrun
  obtain ⟨c, hc, heq⟩ := hrun
  obtain ⟨htids, heq⟩ := Prod.mk.inj heq
  obtain ⟨htop, hjoined⟩ := Prod.mk.inj heq
  refine ⟨c, hc, htids, htop, hjoined, stacksDisjoint_of_careful ?_⟩
  exact Machine.reach_of_guarded (fun _ _ _ h => h) _ (.init afterInit_init) hc

/-- Two threads that live on the same stack. -/
lemma not_stacksDisjoint {t u : ℕ} (htu : t ≠ u) (ht : Lives c t) (hu : Lives c u)
    (htop : c.1.top t = c.1.top u) (hS : 0 < c.1.threadStackSize) : ¬ StacksDisjoint c := by
  intro h
  refine h t u htu ht hu (c.1.top t - 1) ⟨?_, ?_⟩
  · unfold ThrLib.OnStack
    rwa [BitVec.sub_self]
  · unfold ThrLib.OnStack
    rwa [← htop, BitVec.sub_self]

/-- Threads 0 and 1 both read the size of the pool, and each creates a thread. -/
def sizeRun : List (ℕ × ThrAct) :=
  createRun ++ (0, .thrCreate) :: steps 0 5 ++ (1, .thrCreate) :: steps 1 5 ++ steps 0 3 ++
    [(0, .fork 2)] ++ steps 1 2 ++ [(1, .fork 3)]

/-- **Two threads on one stack**: two that were created from the same size of the pool, and
one that was created on the stack of a thread that has not vanished. -/
theorem not_stacksDisjoint_of_size :
    (∃ c, thrLib.machine.Reachable c ∧ ¬ StacksDisjoint c ∧ c.1.joined = []) ∧
      ∃ c, thrLib.machine.Reachable c ∧ ¬ StacksDisjoint c ∧ c.1.size = 2 := by
  have hsize : (Machine.replay thrLib.next afterInit sizeRun).map
      (fun c => decide (Lives c 2 ∧ Lives c 3 ∧ c.1.top 2 = c.1.top 3 ∧
        0 < c.1.threadStackSize ∧ c.1.joined = [])) = some true := by
    decide +kernel
  have hzombie : (Machine.replay thrLib.next afterInit (createRun ++ exitRun ++ recycleRun)).map
      (fun c => decide (Lives c 1 ∧ Lives c 2 ∧ c.1.top 1 = c.1.top 2 ∧
        0 < c.1.threadStackSize ∧ c.1.size = 2)) = some true := by
    decide +kernel
  rw [Option.map_eq_some_iff] at hsize hzombie
  constructor
  · obtain ⟨c, hc, heq⟩ := hsize
    obtain ⟨hl2, hl3, htop, hS, hj⟩ := of_decide_eq_true heq
    refine ⟨c, ?_, not_stacksDisjoint (by decide) hl2 hl3 htop hS, hj⟩
    exact Machine.reach_of_replay (fun _ _ _ h => h) _ (fun _ _ _ => trivial)
      (.init afterInit_init) hc
  · obtain ⟨c, hc, heq⟩ := hzombie
    obtain ⟨hl1, hl2, htop, hS, hz⟩ := of_decide_eq_true heq
    refine ⟨c, ?_, not_stacksDisjoint (by decide) hl1 hl2 htop hS, hz⟩
    exact Machine.reach_of_replay (fun _ _ _ h => h) _ (fun _ _ _ => trivial)
      (.init afterInit_init) hc

end ShrekOS
