/-
The stacks of threads that are created one at a time lie above STACK_BOTTOM.

* `ThrCall`, `thrCalls`: the calls of the library, and the histories of them that begin with a
  `thr_init`;
* `ThrCall.Fits`: as long as all stacks fit above USER_MEM_START, and `new_pages` gives no range
  that runs over the end of the address space (`sound_of_legal`: the kernel's does not);
* `StackLayout.Grown`: the stacks of the slots are counted from the top of the parent's, and all
  of them are above the bottom;
* `thrCalls_aboveBottom`: **the stack of a created thread is above the bottom** after every
  history, and a call moves the bottom by one stack at most.

The tops are counted from the top of the parent's stack and the bottom from where the initial
stack ended. A call of `new_thr_page` closes the gap between the two, since it starts with the
bottom at most at the top of the stack it is for.
-/
import ShrekOS.Lib.Runs
import ShrekOS.Mem.NewPages
import ShrekOS.User.ThreadCalls

namespace ShrekOS

open Kit Kit.Cmd

/-- A call of the library, by the thread `t`. -/
inductive ThrCall where
  | create (ans : CallAnswers) (t : ℕ)
  | exit (t : ℕ) (status : ℤ)
  | join (t : ℕ) (kTid : ℤ)
  | rejoin (t : ℕ) (kTid : ℤ) (k : ℕ)

namespace ThrCall

/-- The call runs alone. -/
def run : ThrCall → ThrM ℤ
  | create ans t => thrCreate ans t
  | exit t status => thrExit t status
  | join t kTid => thrJoin t kTid
  | rejoin t kTid k => thrRejoin t kTid k

end ThrCall

/-- The ranges that `new_pages` allocates do not run over the end of the address space. -/
def CallAnswers.Sound (ans : CallAnswers) : Prop :=
  ∀ base len, 0 ≤ ans.newPages base len → base.toNat + len.toNat ≤ 2 ^ 32

/-- The kernel's `new_pages` allocates legal requests only. -/
lemma sound_of_legal {ans : CallAnswers} (h : ∀ base len, 0 ≤ ans.newPages base len →
    ∃ vm d, LegalNewPages vm d (.ofBitVec base) (.ofBitVec len)) : ans.Sound := by
  intro base len hpages
  obtain ⟨vm, d, hlegal⟩ := h base len hpages
  have hfits : (base.toNat : ℤ) + len.toInt ≤ 2 ^ 32 := hlegal.fits
  have hpos : 0 < len.toInt := hlegal.pos
  rw [BitVec.toInt_eq_toNat_cond] at hfits hpos
  split_ifs at hfits hpos
  · omega
  · have := len.isLt
    omega

/-- **All stacks fit** above USER_MEM_START, the one of the thread that is to be created too. -/
def ThrCall.Fits (s : ThrLib) : ThrCall → Prop
  | .create ans _ => ans.Sound ∧
      (s.size + 1) * s.threadStackSize.toNat + userMemStart ≤ s.parentStackTop.toNat
  | _ => True

/-- **The calls, one at a time**, from the return of `thr_init` on. A call may wait, too: then
its caller has left what it has written. -/
def thrCalls : Machine ThrLib ThrCall where
  init s := ∃ ans main size esp s₀, ans.Sound ∧ size ≠ 0 ∧ s₀.stackBottom.toNat % pageSize = 0 ∧
    s₀.stackBottom ≤ esp ∧ thrInit ans main size esp s₀ = (.ok 0, s)
  step s c s' := (∃ r, c.run s = (.ok r, s')) ∨ c.run s = (.error .waits, s')

/-- Where the stacks of the slots are, and the bottom. -/
structure StackLayout where
  stackTop : ℕ → BitVec 32
  size : ℕ
  parentStackTop : BitVec 32
  threadStackSize : BitVec 32
  stackBottom : BitVec 32

/-- The layout of the library. -/
def ThrLib.layout (s : ThrLib) : StackLayout where
  stackTop k := (s.threadPool k).stackTop
  size := s.size
  parentStackTop := s.parentStackTop
  threadStackSize := s.threadStackSize
  stackBottom := s.stackBottom

namespace StackLayout

/-- The stack top of a new slot. -/
def newEsp (L : StackLayout) (k : ℕ) : BitVec 32 :=
  L.parentStackTop - BitVec.ofNat 32 k * L.threadStackSize

/-- A slot with the stack has been added. -/
def add (L : StackLayout) (esp : BitVec 32) : StackLayout :=
  { L with stackTop := Function.update L.stackTop L.size esp, size := L.size + 1 }

/-- The stack `[top - thread_stack_size, top)` lies at or above the bottom. -/
def AboveBottom (L : StackLayout) (top : BitVec 32) : Prop :=
  L.threadStackSize.toNat ≤ top.toNat ∧
    L.stackBottom.toNat ≤ top.toNat - L.threadStackSize.toNat

instance (L : StackLayout) (top : BitVec 32) : Decidable (L.AboveBottom top) :=
  inferInstanceAs (Decidable (_ ∧ _))

/-- The bottom has stayed, or one stack has been allocated below it. -/
def OneStack (L L' : StackLayout) : Prop :=
  L'.stackBottom = L.stackBottom ∨
    L'.stackBottom.toNat + L.threadStackSize.toNat = L.stackBottom.toNat

/-- **The invariant of the stacks.** -/
structure Grown (L : StackLayout) : Prop where
  stackTop : ∀ k < L.size, L.stackTop k = L.newEsp k
  bottom : L.size * L.threadStackSize.toNat ≤ L.parentStackTop.toNat →
    L.stackBottom.toNat + L.size * L.threadStackSize.toNat ≤ L.parentStackTop.toNat

/-! ### Addresses -/

variable {L : StackLayout} {k : ℕ} {top : BitVec 32}

lemma newEsp_toNat (h : k * L.threadStackSize.toNat ≤ L.parentStackTop.toNat) :
    (L.newEsp k).toNat = L.parentStackTop.toNat - k * L.threadStackSize.toNat := by
  have hlt := h.trans_lt L.parentStackTop.isLt
  have hmul : (BitVec.ofNat 32 k * L.threadStackSize).toNat = k * L.threadStackSize.toNat := by
    rw [BitVec.toNat_mul, BitVec.toNat_ofNat, Nat.mod_mul_mod]
    exact Nat.mod_eq_of_lt hlt
  rw [newEsp, BitVec.toNat_sub_of_le, hmul]
  rw [BitVec.le_def, hmul]
  exact h

/-- **One call of `new_thr_page`** for a stack top that is not below the bottom: then the stack
is above the new bottom. -/
lemma page_aboveBottom {bottom bottom' len : BitVec 32} (hlen : len.toNat ≤ top.toNat)
    (hbottom : bottom.toNat ≤ top.toNat)
    (hneeds : top - len < bottom → bottom' = bottom - len ∧ bottom'.toNat + len.toNat ≤ 2 ^ 32)
    (hroom : ¬ top - len < bottom → bottom' = bottom) :
    bottom'.toNat + len.toNat ≤ top.toNat ∧
      (bottom' = bottom ∨ bottom'.toNat + len.toNat = bottom.toNat) := by
  have htop : (top - len).toNat = top.toNat - len.toNat :=
    BitVec.toNat_sub_of_le (BitVec.le_def.mpr hlen)
  by_cases hlt : top - len < bottom
  · obtain ⟨rfl, hsound⟩ := hneeds hlt
    have hlt := BitVec.lt_def.mp hlt
    -- a bottom below the length of a stack would wrap around
    have hle : len ≤ bottom := by
      by_contra hno
      have hno := BitVec.not_le.mp hno
      have hwrap : (bottom - len).toNat = 2 ^ 32 - (len.toNat - bottom.toNat) :=
        BitVec.toNat_sub_of_lt hno
      have hlen' := BitVec.lt_def.mp hno
      have := len.isLt
      omega
    have hsub : (bottom - len).toNat = bottom.toNat - len.toNat := BitVec.toNat_sub_of_le hle
    have hle' := BitVec.le_def.mp hle
    omega
  · rw [hroom hlt]
    have hge := BitVec.le_def.mp (BitVec.not_lt.mp hlt)
    refine ⟨?_, .inl rfl⟩
    omega

/-- A slot below the top of which one more stack fits. -/
lemma Grown.bottom_le (h : L.Grown)
    (hfits : (L.size + 1) * L.threadStackSize.toNat ≤ L.parentStackTop.toNat) :
    L.threadStackSize.toNat ≤ (L.newEsp L.size).toNat ∧
      L.stackBottom.toNat ≤ (L.newEsp L.size).toNat := by
  rw [Nat.add_mul, Nat.one_mul] at hfits
  have hle : L.size * L.threadStackSize.toNat ≤ L.parentStackTop.toNat := by omega
  have hbottom := h.bottom hle
  rw [newEsp_toNat hle]
  omega

/-- The layout with a new bottom, below a new slot. -/
lemma Grown.page (h : L.Grown)
    (hfits : (L.size + 1) * L.threadStackSize.toNat ≤ L.parentStackTop.toNat) {bottom : BitVec 32}
    (hbottom : bottom.toNat + L.threadStackSize.toNat ≤ (L.newEsp L.size).toNat) :
    ({ L with stackBottom := bottom } : StackLayout).Grown ∧
      ({ L with stackBottom := bottom } : StackLayout).AboveBottom (L.newEsp L.size) := by
  refine ⟨⟨h.stackTop, fun hle => ?_⟩, (h.bottom_le hfits).1, Nat.le_sub_of_add_le hbottom⟩
  change L.size * L.threadStackSize.toNat ≤ L.parentStackTop.toNat at hle
  change bottom.toNat + L.size * L.threadStackSize.toNat ≤ L.parentStackTop.toNat
  rw [newEsp_toNat hle] at hbottom
  omega

/-- The stack of a slot of the pool. -/
lemma Grown.aboveBottom (h : L.Grown)
    (hfits : (L.size + 1) * L.threadStackSize.toNat ≤ L.parentStackTop.toNat) (hk : k < L.size) :
    L.AboveBottom (L.newEsp k) := by
  have hmul := Nat.mul_le_mul_right L.threadStackSize.toNat (show k + 1 ≤ L.size from hk)
  rw [Nat.add_mul, Nat.one_mul] at hfits hmul
  have hle : k * L.threadStackSize.toNat ≤ L.parentStackTop.toNat := by omega
  have hbottom := h.bottom (by omega)
  rw [AboveBottom, newEsp_toNat hle]
  omega

/-- The layout of the first slot. -/
lemma grown_first (hsize : L.size = 0) (htop : top = L.parentStackTop)
    (hbottom : L.threadStackSize.toNat ≤ L.parentStackTop.toNat →
      L.stackBottom.toNat + L.threadStackSize.toNat ≤ L.parentStackTop.toNat) :
    (L.add top).Grown := by
  refine ⟨fun k hk => ?_, ?_⟩
  · change k < L.size + 1 at hk
    obtain rfl : k = L.size := by omega
    change Function.update L.stackTop L.size _ L.size = L.newEsp L.size
    rw [Function.update_self, newEsp, hsize, BitVec.zero_mul, BitVec.sub_zero, htop]
  · change (L.size + 1) * L.threadStackSize.toNat ≤ L.parentStackTop.toNat →
      L.stackBottom.toNat + (L.size + 1) * L.threadStackSize.toNat ≤ L.parentStackTop.toNat
    rw [hsize, Nat.zero_add, Nat.one_mul]
    exact hbottom

end StackLayout

/-! ### What the calls leave alone -/

variable {s s' : ThrLib} {ans : CallAnswers} {t k : ℕ} {esp : BitVec 32} {r : ℤ}
  {lock : ThrLib → Option ThrLib} {α : Type}

/-- A lock that leaves a part of the state alone. -/
lemma takes_conserves {ρ : Type} {π : ThrLib → ρ} (h : ∀ s s', lock s = some s' → π s' = π s) :
    Conserves π (takes lock) := by
  intro s
  rcases hs : lock s with _ | s'
  · rw [takes_held hs]
  · rw [takes_run hs]
    exact h s s' hs

/-- The layout and the stacks of the threads. -/
def ThrLib.stacks (s : ThrLib) : StackLayout × (ℕ → BitVec 32) := (s.layout, s.top)

lemma setThread_stacks {c : ThreadT} (hc : c.stackTop = (s.threadPool k).stackTop) :
    (s.setThread k c).stacks = s.stacks := by
  have htop : (fun l => ((s.setThread k c).threadPool l).stackTop) =
      fun l => (s.threadPool l).stackTop := by
    funext l
    change (Function.update s.threadPool k c l).stackTop = _
    by_cases hl : l = k
    · rw [hl, Function.update_self, hc]
    · rw [Function.update_of_ne hl]
  unfold ThrLib.stacks ThrLib.layout
  rw [htop]
  rfl

lemma rwlockRead_stacks (h : s.rwlockRead = some s') : s'.stacks = s.stacks := by
  unfold ThrLib.rwlockRead at h
  split_ifs at h
  obtain rfl := Option.some.inj h
  rfl

lemma rwlockWrite_stacks (h : s.rwlockWrite = some s') : s'.stacks = s.stacks := by
  unfold ThrLib.rwlockWrite at h
  split_ifs at h
  obtain rfl := Option.some.inj h
  rfl

lemma rwlockUnlock_stacks (s : ThrLib) : s.rwlockUnlock.stacks = s.stacks := by
  unfold ThrLib.rwlockUnlock
  split_ifs <;> rfl

lemma mutexLock_stacks (h : s.mutexLock t k = some s') : s'.stacks = s.stacks := by
  obtain ⟨-, rfl⟩ := mutexLock_eq_some h
  exact setThread_stacks rfl

lemma mutexUnlock_stacks (s : ThrLib) (k : ℕ) : (s.mutexUnlock k).stacks = s.stacks :=
  setThread_stacks rfl

lemma condSignal_stacks (s : ThrLib) (k : ℕ) : (s.condSignal k).stacks = s.stacks := by
  unfold ThrLib.condSignal
  split
  · rfl
  · exact setThread_stacks rfl

lemma condWait_stacks (s : ThrLib) (t k : ℕ) : (s.condWait t k).stacks = s.stacks :=
  setThread_stacks rfl

/-- `thr_exit` has nothing to do with the stacks. -/
lemma thrExit_stacks (t : ℕ) (status : ℤ) : Conserves ThrLib.stacks (thrExit t status) := by
  unfold thrExit
  refine .bind (.modify fun _ => rfl) fun _ => .bind (takes_conserves fun _ _ => rwlockRead_stacks)
    fun _ => .bind .get fun s => ?_
  split
  · exact .fault ThrFault.waits
  · refine .bind (takes_conserves fun _ _ => mutexLock_stacks) fun _ => ?_
    refine .bind (.modify fun _ => setThread_stacks rfl) fun _ => ?_
    refine .bind (.modify fun _ => setThread_stacks rfl) fun _ => ?_
    refine .bind (.modify fun s => condSignal_stacks s _) fun _ => ?_
    refine .bind (.modify fun s => mutexUnlock_stacks s _) fun _ => ?_
    exact .bind (.modify rwlockUnlock_stacks) fun _ => .pure 0

/-- Nor has `thr_join`. -/
lemma joinHeld_stacks (t : ℕ) (kTid : ℤ) (k : ℕ) : Conserves ThrLib.stacks (joinHeld t kTid k) := by
  refine .bind (.gets _) fun c => .ite (.ite ?_ ?_) ?_
  · exact .bind (.modify fun s => mutexUnlock_stacks s k) fun _ => .pure (-1)
  · refine .bind (.modify fun _ => setThread_stacks rfl) fun _ => ?_
    exact .bind (.modify fun s => condWait_stacks s t k) fun _ => .fault ThrFault.waits
  · refine .bind (.modify fun _ => setThread_stacks rfl) fun _ => ?_
    refine .bind (.modify fun _ => setThread_stacks rfl) fun _ => ?_
    refine .bind (.modify fun _ => setThread_stacks rfl) fun _ => ?_
    exact .bind (.modify fun s => mutexUnlock_stacks s k) fun _ => .pure 0

lemma thrJoin_stacks (t : ℕ) (kTid : ℤ) : Conserves ThrLib.stacks (thrJoin t kTid) := by
  unfold thrJoin
  refine .bind (takes_conserves fun _ _ => rwlockRead_stacks) fun _ => .bind .get fun s => ?_
  split
  · exact .bind (.modify rwlockUnlock_stacks) fun _ => .pure (-1)
  · refine .bind (.modify rwlockUnlock_stacks) fun _ => ?_
    refine .bind (takes_conserves fun _ _ => mutexLock_stacks) fun _ => ?_
    refine .bind (.gets _) fun c => .ite ?_ (joinHeld_stacks _ _ _)
    exact .bind (.modify fun s => mutexUnlock_stacks s _) fun _ => .pure (-1)

lemma thrRejoin_stacks (t : ℕ) (kTid : ℤ) (k : ℕ) :
    Conserves ThrLib.stacks (thrRejoin t kTid k) := by
  refine .bind (takes_conserves fun s s' hs => ?_) fun _ =>
    .bind (takes_conserves fun _ _ => mutexLock_stacks) fun _ => joinHeld_stacks t kTid k
  split_ifs at hs
  rw [Option.some.inj hs]

/-! ### The calls that allocate -/

/-- What every call leaves, whether it returns or not. -/
def ThrLib.Settles (s s' : ThrLib) : Prop := s'.layout.Grown ∧ s.layout.OneStack s'.layout

/-- What a `thr_create` leaves that returns: the thread it has created has its stack. -/
def ThrLib.Creates (s : ThrLib) (r : ℤ) (s' : ThrLib) : Prop :=
  s.Settles s' ∧ (0 ≤ r → s'.layout.AboveBottom (s'.top r.toNat))

lemma layout_of_stacks (h : s'.stacks = s.stacks) : s'.layout = s.layout := congrArg Prod.fst h

lemma top_of_stacks (h : s'.stacks = s.stacks) : s'.top = s.top := congrArg Prod.snd h

lemma settles_refl (h : s.layout.Grown) : s.Settles s := ⟨h, .inl rfl⟩

lemma ThrLib.Settles.trans_stacks {s₀ : ThrLib} (h : s₀.Settles s) (hs : s'.stacks = s.stacks) :
    s₀.Settles s' := by
  unfold ThrLib.Settles
  rw [layout_of_stacks hs]
  exact h

/-- The layout of a pool with one slot more. -/
lemma add_layout (s : ThrLib) (c : ThreadT) :
    ({ s.setThread s.size c with size := s.size + 1 } : ThrLib).layout =
      s.layout.add c.stackTop := by
  have htop : (fun l => ((s.setThread s.size c).threadPool l).stackTop) =
      Function.update s.layout.stackTop s.size c.stackTop := by
    funext l
    change (Function.update s.threadPool s.size c l).stackTop = _
    by_cases hl : l = s.size
    · rw [hl, Function.update_self, Function.update_self]
    · rw [Function.update_of_ne hl, Function.update_of_ne hl]
      rfl
  unfold StackLayout.add
  rw [show s.layout.size = s.size from rfl, ← htop]
  rfl

/-- `add_to_pool_s` adds a slot with the stack, or leaves everything as it was. -/
lemma addToPoolS_stacks (ans : CallAnswers) (kTid : ℤ) (esp : BitVec 32) (s : ThrLib) :
    wp (addToPoolS ans kTid esp)
      (fun r s' => (r < 0 ∧ s'.stacks = s.stacks) ∨
        (r = 0 ∧ s'.layout = s.layout.add esp ∧ s'.top = s.top))
      (fun _ s' => s'.stacks = s.stacks) s := by
  have hlock : Conserves ThrLib.stacks (takes ThrLib.rwlockWrite) :=
    takes_conserves fun _ _ => rwlockWrite_stacks
  unfold addToPoolS
  rcases ans.malloc with _ | c
  · exact .inl ⟨by decide, rfl⟩
  · dsimp only
    rw [wp_bind]
    refine wp_mono (hlock.both s) (fun _ s₁ hs₁ => ?_) fun _ _ h => h
    rw [wp_ite]
    constructor
    · intro _
      rw [wp_bind, wp_modify, wp_bind, wp_modify, wp_pure]
      refine .inr ⟨rfl, ?_, ?_⟩
      · rw [layout_of_stacks (rwlockUnlock_stacks _), add_layout, layout_of_stacks hs₁]
      · have htop : s₁.top = s.top := top_of_stacks hs₁
        exact (top_of_stacks (rwlockUnlock_stacks _)).trans htop
    · intro _
      rw [wp_bind, wp_modify, wp_pure]
      exact .inl ⟨by decide, (rwlockUnlock_stacks s₁).trans hs₁⟩

/-- A slot is recycled: its stack is the one of the new thread. -/
lemma forkThread_recycled (ans : CallAnswers) (t k : ℕ) (esp : BitVec 32) (s : ThrLib) :
    wp (forkThread ans t (some k) esp)
      (fun r s' => s'.layout = s.layout ∧ (0 ≤ r → s'.top r.toNat = esp))
      (fun _ s' => s'.layout = s.layout) s := by
  have hlock : Conserves ThrLib.stacks (takes fun s => s.mutexLock t k) :=
    takes_conserves fun _ _ => mutexLock_stacks
  rw [forkThread, wp_ite]
  refine ⟨fun _ => ?_, fun _ => ?_⟩
  · dsimp only
    rw [wp_bind]
    refine wp_mono (hlock.both s) (fun _ s₁ h₁ => ?_) fun _ _ => layout_of_stacks
    rw [wp_bind, wp_modify, wp_bind]
    refine wp_mono (hlock.both _) (fun _ s₂ h₂ => ?_) fun _ s₂ h₂ => ?_
    · have h := (h₂.trans (setThread_stacks rfl)).trans h₁
      exact ⟨layout_of_stacks h, fun h => absurd h (by decide)⟩
    · exact layout_of_stacks ((h₂.trans (setThread_stacks rfl)).trans h₁)
  · rw [wp_bind, wp_modify]
    dsimp only
    rw [wp_bind]
    refine wp_mono (hlock.both _) (fun _ s₁ h₁ => ?_) fun _ _ => layout_of_stacks
    rw [wp_bind, wp_modify, wp_bind, wp_modify, wp_pure]
    have h : ((s₁.setThread k
        { s₁.threadPool k with kTid := ans.threadFork }).mutexUnlock k).stacks =
        (s.forked ans.threadFork.toNat esp).stacks := by
      rw [mutexUnlock_stacks, ← h₁]
      exact setThread_stacks rfl
    have hlayout := layout_of_stacks h
    have htop := congrFun (top_of_stacks h) ans.threadFork.toNat
    exact ⟨hlayout, fun _ => htop.trans (Function.update_self ..)⟩

/-- The invariant with one slot more. -/
lemma StackLayout.Grown.add {L : StackLayout} (h : L.Grown)
    (habove : L.AboveBottom (L.newEsp L.size))
    (hfits : (L.size + 1) * L.threadStackSize.toNat ≤ L.parentStackTop.toNat) :
    (L.add (L.newEsp L.size)).Grown := by
  refine ⟨fun k hk => ?_, fun _ => ?_⟩
  · change Function.update L.stackTop L.size _ k = L.newEsp k
    by_cases hlast : k = L.size
    · rw [hlast, Function.update_self]
    · rw [Function.update_of_ne hlast]
      change k < L.size + 1 at hk
      exact h.stackTop k (by omega)
  · change L.stackBottom.toNat + (L.size + 1) * L.threadStackSize.toNat ≤ L.parentStackTop.toNat
    rw [Nat.add_mul, Nat.one_mul] at hfits ⊢
    have htop := StackLayout.newEsp_toNat (show L.size * L.threadStackSize.toNat ≤ _ by omega)
    obtain ⟨hsize, hbottom⟩ := habove
    rw [htop] at hsize hbottom
    omega

/-- A new slot, with its stack above the bottom. -/
lemma forkThread_fresh (hgrown : s.layout.Grown) (habove : s.layout.AboveBottom (s.newEsp s.size))
    (hfits : (s.size + 1) * s.threadStackSize.toNat ≤ s.parentStackTop.toNat) (ans : CallAnswers)
    (t : ℕ) :
    wp (forkThread ans t none (s.newEsp s.size))
      (fun r s' => s'.layout.Grown ∧ s'.stackBottom = s.stackBottom ∧
        (0 ≤ r → s'.layout.AboveBottom (s'.top r.toNat)))
      (fun _ s' => s'.layout.Grown ∧ s'.stackBottom = s.stackBottom) s := by
  have hleft : ∀ {s' : ThrLib}, s'.layout = s.layout →
      s'.layout.Grown ∧ s'.stackBottom = s.stackBottom := by
    intro s' hs'
    exact ⟨hs' ▸ hgrown, congrArg StackLayout.stackBottom hs'⟩
  rw [forkThread, wp_ite]
  refine ⟨fun hfork => ?_, fun _ => ?_⟩
  · exact ⟨hgrown, rfl, fun h => absurd h (by decide)⟩
  · rw [wp_bind, wp_modify, wp_bind]
    refine wp_mono (addToPoolS_stacks ans _ _ _) (fun r s' hs' => ?_) fun _ s' hs' => ?_
    · rcases hs' with ⟨hr, hs'⟩ | ⟨rfl, hlayout, htop⟩
      · have hlayout := layout_of_stacks hs'
        rw [if_pos hr]
        exact hleft hlayout
      · rw [if_neg (lt_irrefl 0)]
        refine ⟨?_, ?_, fun _ => ?_⟩
        · rw [hlayout]
          exact StackLayout.Grown.add hgrown habove hfits
        · exact congrArg StackLayout.stackBottom hlayout
        · have hesp : s'.top ans.threadFork.toNat = s.newEsp s.size := by
            rw [htop]
            exact Function.update_self ..
          rw [hlayout, hesp]
          exact habove
    · have hlayout := layout_of_stacks hs'
      exact hleft hlayout

/-- `new_thr_page` changes the bottom. -/
lemma paged_layout (s : ThrLib) (esp : BitVec 32) :
    (s.paged esp).layout = { s.layout with stackBottom := (s.paged esp).stackBottom } := by
  unfold ThrLib.paged
  split_ifs <;> rfl

/-- A stack that fits below its top, and `new_thr_page` for it. -/
lemma paged_aboveBottom (hlen : s.threadStackSize.toNat ≤ esp.toNat)
    (hbottom : s.stackBottom.toNat ≤ esp.toNat) (hsound : ans.Sound)
    (hpages : ¬ s.PagesFail ans esp) :
    (s.paged esp).stackBottom.toNat + s.threadStackSize.toNat ≤ esp.toNat ∧
      s.layout.OneStack (s.paged esp).layout := by
  refine StackLayout.page_aboveBottom hlen hbottom (fun hneeds => ?_) fun hroom => ?_
  · have hbase : (s.paged esp).stackBottom = s.stackBottom - s.threadStackSize := by
      rw [ThrLib.paged, if_pos (show s.NeedsPage esp from hneeds)]
    refine ⟨hbase, ?_⟩
    rw [hbase]
    exact hsound _ _ (not_lt.mp fun hfail => hpages ⟨hneeds, hfail⟩)
  · rw [ThrLib.paged, if_neg (show ¬ s.NeedsPage esp from hroom)]
    rfl

/-- `thr_create` after the loop, without a dead slot. -/
lemma startThread_fresh (hgrown : s.layout.Grown) (hsound : ans.Sound)
    (hfits : (s.size + 1) * s.threadStackSize.toNat ≤ s.parentStackTop.toNat) (t : ℕ) :
    wp (startThread ans t none (s.newEsp s.size)) s.Creates (fun _ => s.Settles) s := by
  refine wp_startThread (fun _ => ⟨settles_refl hgrown, fun h => absurd h (by decide)⟩)
    fun hpages => ?_
  obtain ⟨hlen, hbottom⟩ := hgrown.bottom_le hfits
  obtain ⟨hpage, hone⟩ := paged_aboveBottom hlen hbottom hsound hpages
  obtain ⟨hgrown₁, habove⟩ := hgrown.page hfits hpage
  obtain ⟨s₁, hs₁⟩ : ∃ s₁, s₁ = s.paged (s.newEsp s.size) := ⟨_, rfl⟩
  change s.layout.OneStack (s.paged (s.newEsp s.size)).layout at hone
  have hlayout := paged_layout s (s.newEsp s.size)
  rw [← hs₁] at hlayout hone ⊢
  have hesp : s.newEsp s.size = s₁.newEsp s₁.size := by
    change _ = s₁.layout.newEsp s₁.layout.size
    rw [hlayout]
    rfl
  rw [hesp]
  refine wp_mono (forkThread_fresh ?_ ?_ ?_ ans t) ?_ ?_
  · rw [hlayout, hs₁]
    exact hgrown₁
  · rw [← hesp, hlayout, hs₁]
    exact habove
  · change (s₁.layout.size + 1) * s₁.layout.threadStackSize.toNat ≤ s₁.layout.parentStackTop.toNat
    rw [hlayout]
    exact hfits
  · rintro r s' ⟨hgrown', hbottom', habove'⟩
    refine ⟨⟨hgrown', ?_⟩, habove'⟩
    change s'.stackBottom = _ ∨ s'.stackBottom.toNat + _ = _
    rw [hbottom']
    exact hone
  · rintro e s' ⟨hgrown', hbottom'⟩
    refine ⟨hgrown', ?_⟩
    change s'.stackBottom = _ ∨ s'.stackBottom.toNat + _ = _
    rw [hbottom']
    exact hone

/-- The loop of `thr_create` changes no stack, and finds the one of a slot. -/
lemma searchDead_stacks (t n : ℕ) (s : ThrLib) :
    wp (searchDead t (n + 1))
      (fun x s' => s'.stacks = s.stacks ∧ (x = (none, s.newEsp s.size) ∨
        ∃ k < s.size, x = (some k, (s.threadPool k).stackTop)))
      (fun _ s' => s'.stacks = s.stacks) s := by
  unfold wp
  rcases h : s.findDead with _ | k
  · rw [searchDead_none h]
    exact ⟨rfl, .inl rfl⟩
  · by_cases hm : (s.threadPool k).m = none
    · rw [searchDead_some h hm]
      exact ⟨setThread_stacks rfl, .inr ⟨k, (findDead_some h).1, rfl⟩⟩
    · rw [searchDead_held h hm]

/-- **A `thr_create`** that fits: its thread has a stack above the bottom. -/
lemma thrCreate_creates (hgrown : s.layout.Grown) (hsound : ans.Sound)
    (hfits : (s.size + 1) * s.threadStackSize.toNat ≤ s.parentStackTop.toNat) (t : ℕ) :
    wp (thrCreate ans t) s.Creates (fun _ => s.Settles) s := by
  have hleft : ∀ {s' : ThrLib}, s'.stacks = s.stacks → s.Settles s' :=
    fun hs' => (settles_refl hgrown).trans_stacks hs'
  have hlock : Conserves ThrLib.stacks (takes ThrLib.rwlockRead) :=
    takes_conserves fun _ _ => rwlockRead_stacks
  rw [thrCreate, wp_bind]
  refine wp_mono (hlock.both s) (fun _ s₁ h₁ => ?_) fun _ _ => hleft
  rw [wp_bind]
  refine wp_mono (searchDead_stacks t 0 s₁) (fun x s₂ h₂ => ?_) fun _ _ h₂ => hleft (h₂.trans h₁)
  obtain ⟨h₂, hx⟩ := h₂
  rw [wp_bind, wp_modify]
  obtain ⟨s₃, hs₃⟩ : ∃ s₃, s₃ = s₂.rwlockUnlock := ⟨_, rfl⟩
  have h₃ : s₃.stacks = s.stacks := hs₃ ▸ ((rwlockUnlock_stacks s₂).trans h₂).trans h₁
  have hlayout := layout_of_stacks h₃
  have hlayout₁ := layout_of_stacks h₁
  have hgrown₃ : s₃.layout.Grown := hlayout ▸ hgrown
  rw [← hs₃]
  rcases hx with rfl | ⟨k, hk, rfl⟩
  · have hesp : s₁.newEsp s₁.size = s₃.newEsp s₃.size := by
      change s₁.layout.newEsp s₁.layout.size = s₃.layout.newEsp s₃.layout.size
      rw [hlayout, hlayout₁]
    have hfits₃ : (s₃.size + 1) * s₃.threadStackSize.toNat ≤ s₃.parentStackTop.toNat := by
      change (s₃.layout.size + 1) * s₃.layout.threadStackSize.toNat ≤
        s₃.layout.parentStackTop.toNat
      rw [hlayout]
      exact hfits
    dsimp only
    rw [hesp]
    refine wp_mono (startThread_fresh hgrown₃ hsound hfits₃ t) ?_ ?_
    · unfold ThrLib.Creates ThrLib.Settles
      rw [hlayout]
      exact fun _ _ h => h
    · unfold ThrLib.Settles
      rw [hlayout]
      exact fun _ _ h => h
  · dsimp only
    rw [startThread]
    have hsame : ∀ {s' : ThrLib}, s'.layout = s₃.layout → s.Settles s' := by
      intro s' hs'
      rw [hlayout] at hs'
      exact ⟨hs' ▸ hgrown, .inl (congrArg StackLayout.stackBottom hs')⟩
    refine wp_mono (forkThread_recycled ans t k _ s₃) ?_ fun _ _ => hsame
    rintro r s' ⟨hs', htop⟩
    refine ⟨hsame hs', fun hr => ?_⟩
    have hslot : (s₁.threadPool k).stackTop = s.layout.newEsp k := by
      have hk' : k < s.layout.size := hlayout₁ ▸ hk
      rw [← hgrown.stackTop k hk', ← hlayout₁]
      rfl
    rw [htop hr, hslot, hs', hlayout]
    exact hgrown.aboveBottom hfits (hlayout₁ ▸ hk)

/-! ### Histories -/

/-- The top of the parent's stack is not below a page-aligned bottom. -/
lemma bottom_le_pageTop {bottom : BitVec 32} (halign : bottom.toNat % pageSize = 0)
    (hesp : bottom ≤ esp) : bottom.toNat ≤ (esp - esp % 4096).toNat := by
  have hmod : (esp % 4096).toNat = esp.toNat % 4096 := BitVec.toNat_umod
  have hle : esp % 4096 ≤ esp := by
    rw [BitVec.le_def, hmod]
    exact Nat.mod_le _ _
  rw [BitVec.toNat_sub_of_le hle, hmod]
  have hesp := BitVec.le_def.mp hesp
  unfold pageSize at halign
  omega

/-- `thr_init` from a bottom that is page-aligned and not above the stack pointer. -/
lemma thrInit_grown (hsound : ans.Sound) (halign : s.stackBottom.toNat % pageSize = 0)
    (hesp : s.stackBottom ≤ esp) (main : ℕ) (size : BitVec 32) :
    wp (thrInit ans main size esp) (fun r s' => r = 0 → s'.layout.Grown) (fun _ _ => True) s := by
  have hneg : (-1 : ℤ) ≠ 0 := by decide
  have hbottom := bottom_le_pageTop halign hesp
  rw [thrInit, wp_ite]
  refine ⟨fun _ h => absurd h hneg, fun _ => ?_⟩
  dsimp only
  generalize esp - esp % 4096 = top at hbottom ⊢
  generalize ((size - 1) / 4096 + 1) * 4096 = len
  rw [wp_bind, wp_modify, wp_bind]
  obtain ⟨s₁, hs₁⟩ : ∃ s₁ : ThrLib, s₁ = { s with
    threadStackSize := len
    parentStackTop := top
    top := Function.update s.top main top } := ⟨_, rfl⟩
  have hlen : s₁.threadStackSize = len := by rw [hs₁]
  have hbottom₁ : s₁.stackBottom.toNat ≤ top.toNat := by
    rw [hs₁]
    exact hbottom
  have hparent : (s₁.paged top).parentStackTop = top := by
    have h : (s₁.paged top).parentStackTop = s₁.parentStackTop :=
      congrArg StackLayout.parentStackTop (paged_layout s₁ top)
    rw [h, hs₁]
  have hstack : (s₁.paged top).threadStackSize = s₁.threadStackSize :=
    congrArg StackLayout.threadStackSize (paged_layout s₁ top)
  rw [← hs₁, ← hlen]
  refine wp_newThrPage (fun _ r hr => ?_) fun hpages => ?_
  · rw [if_pos hr]
    exact fun h => absurd h hneg
  · rw [if_neg (lt_irrefl 0), wp_bind, wp_modify, wp_bind]
    refine wp_mono (addToPoolS_stacks ans _ _ _) (fun r s' hs' => ?_) fun _ _ _ => trivial
    rcases hs' with ⟨hr, -⟩ | ⟨rfl, hlayout, -⟩
    · rw [if_pos hr]
      exact fun h => absurd h hneg
    · rw [if_neg (lt_irrefl 0)]
      intro _
      rw [hlayout]
      refine StackLayout.grown_first rfl hparent.symm fun hle => ?_
      change (s₁.paged top).threadStackSize.toNat ≤ (s₁.paged top).parentStackTop.toNat at hle
      change (s₁.paged top).stackBottom.toNat + (s₁.paged top).threadStackSize.toNat ≤
        (s₁.paged top).parentStackTop.toNat
      rw [hparent, hstack] at hle ⊢
      exact (paged_aboveBottom hle hbottom₁ hsound hpages).1

/-- What a call of a history leaves. -/
def ThrCall.Leaves (c : ThrCall) (s : ThrLib) (r : ℤ) (s' : ThrLib) : Prop :=
  (∀ ans t, c = .create ans t → 0 ≤ r → s'.layout.AboveBottom (s'.top r.toNat)) ∧
    s.layout.OneStack s'.layout

/-- A call that has nothing to do with stacks. -/
lemma settles_of_conserves {c : ThrM ℤ} (hc : Conserves ThrLib.stacks c) (hgrown : s.layout.Grown) :
    wp c (fun _ => s.Settles) (fun _ => s.Settles) s :=
  wp_mono (hc.both s) (fun _ _ => (settles_refl hgrown).trans_stacks)
    fun _ _ => (settles_refl hgrown).trans_stacks

/-- **Every call that fits** keeps the invariant. -/
lemma run_settles (hgrown : s.layout.Grown) {c : ThrCall} (hfits : c.Fits s) :
    wp c.run (fun r s' => s.Settles s' ∧ c.Leaves s r s') (fun _ => s.Settles) s := by
  cases c with
  | create ans t =>
      obtain ⟨hsound, hfits⟩ := hfits
      refine wp_imp (thrCreate_creates hgrown hsound (by omega) t) fun r s' h => ?_
      exact ⟨h.1, fun _ _ _ => h.2, h.1.2⟩
  | exit t status =>
      exact wp_imp (settles_of_conserves (thrExit_stacks t status) hgrown)
        fun _ _ h => ⟨h, nofun, h.2⟩
  | join t kTid =>
      exact wp_imp (settles_of_conserves (thrJoin_stacks t kTid) hgrown)
        fun _ _ h => ⟨h, nofun, h.2⟩
  | rejoin t kTid k =>
      exact wp_imp (settles_of_conserves (thrRejoin_stacks t kTid k) hgrown)
        fun _ _ h => ⟨h, nofun, h.2⟩

/-- The invariant holds in every state of a history. -/
theorem grown_of_reach (h : thrCalls.Reach (fun s c => c.Fits s) s) : s.layout.Grown := by
  refine Machine.Reach.inv (I := fun s => s.layout.Grown) ?_ ?_ h
  · rintro s ⟨ans, main, size, esp, s₀, hsound, -, halign, hesp, hrun⟩
    exact wp_ok (thrInit_grown hsound halign hesp main size) hrun rfl
  · rintro s c s' hgrown hfits hstep
    have hrun := run_settles hgrown hfits
    rcases hstep with ⟨r, hr⟩ | hr
    · exact (wp_ok hrun hr).1.1
    · rw [wp, hr] at hrun
      exact hrun.1

/-- **The stack of a created thread is above the bottom**, after every history whose stacks fit,
and every call allocates one stack at most. -/
theorem thrCalls_aboveBottom (h : thrCalls.Reach (fun s c => c.Fits s) s) (c : ThrCall)
    (hfits : c.Fits s) :
    wp c.run (c.Leaves s) (fun _ s' => s.layout.OneStack s'.layout) s :=
  wp_mono (run_settles (grown_of_reach h) hfits) (fun _ _ h => h.2) fun _ _ h => h.2

/-- Everything succeeds, with a thread 1, but for ranges that wrap around. -/
def allSucceed : CallAnswers :=
  ⟨fun base len => if base.toNat + len.toNat ≤ 2 ^ 32 then 0 else -1, 1, some (false, 0), true⟩

lemma allSucceed_sound : allSucceed.Sound := by
  intro base len h
  by_contra hno
  rw [show allSucceed.newPages base len = -1 from if_neg hno] at h
  exact absurd h (by decide)

/-- The library after `thr_init` for stacks of one and a half pages. -/
def started : ThrLib := (thrInit allSucceed 0 0x1800 0xfffef123 (twoSlots .alive)).2

/-- A thread is created on a stack of two pages, which have not been allocated before. -/
theorem thrCalls_aboveBottom_started :
    thrCalls.Reach (fun s c => c.Fits s) started ∧
      (thrCreate allSucceed 0 started).1.toOption = some 1 ∧
      started.layout.stackBottom = 0xfffec000 ∧
      wp (thrCreate allSucceed 0) ((ThrCall.create allSucceed 0).Leaves started)
        (fun _ s' => started.layout.OneStack s'.layout) started := by
  have hinit : thrInit allSucceed 0 0x1800 0xfffef123 (twoSlots .alive) = (.ok 0, started) := by
    have hok : (thrInit allSucceed 0 0x1800 0xfffef123 (twoSlots .alive)).1.toOption = some 0 := by
      decide +kernel
    obtain ⟨s', hs'⟩ := run_of_toOption hok
    rw [started, hs']
  have hreach : thrCalls.Reach (fun s c => c.Fits s) started :=
    .init ⟨allSucceed, 0, 0x1800, 0xfffef123, twoSlots .alive, allSucceed_sound, by decide,
      by decide, by decide, hinit⟩
  have hfits : (ThrCall.create allSucceed 0).Fits started := ⟨allSucceed_sound, by decide +kernel⟩
  exact ⟨hreach, by decide +kernel, by decide +kernel, thrCalls_aboveBottom hreach _ hfits⟩

end ShrekOS
