/-
A saved exception frame on its way through a handler of the user's: `ureg_from_stack` and
`swexn_execute` of `handlers/exception_handlers.c`, the code of
`handlers/exception_handler_wrappers.S` before them, and `swexn` with the same `ureg_t`.

* `enterException`, `wrapperCall`: the frame, with and without an error code, and
  `wrapper_frame`;
* `uregFromStack`, `swexnExecute`: the `ureg_t` for the handler;
* `HoldsContext`: a `ureg_t` with the values of a context; `uregFromStack_holds`;
* `FrameApart`, `roundTrips`: **a frame that passes the checks is resumed as it was**, if it does
  not meet the memory that is written for the handler;
* `not_roundTrips_topMem`: a frame that does.
-/
import ShrekOS.Sched.LoadKstack

namespace ShrekOS

open Kit Kit.Ring

/-! ### The frame -/

/-- What the processor loads when it enters a handler. -/
structure Gate where
  esp0 : Word
  ss0 : Selector
  cs : Selector
  eip : Word

/-- The flags that are cleared on the way in: single stepping, nested tasks, resumption and
virtual-8086 mode. -/
def clearedFlags : Word := 0x34100

/-- The registers that are loaded when a context of user mode is left. -/
def Gate.load (g : Gate) (c : Cpu) : Cpu :=
  { c with
    cpl := 0
    esp := g.esp0
    ss := g.ss0
    cs := g.cs
    eip := g.eip
    eflags := c.eflags &&& ~~~clearedFlags }

/-- An exception in a context of user mode, with an error code or without. -/
def enterException (g : Gate) (err : Option Word) (c : Cpu) (m : Word → Word) : Core :=
  (⟨g.load c, m⟩ : Core).pushAll (err.toList ++ [c.eip, c.seg .cs, c.eflags, c.esp, c.seg .ss])

/-- `save_context` of `exception_handler_wrappers.S`. -/
def saveContext : List Instr := [.pusha, .pushSeg .gs, .pushSeg .fs, .pushSeg .es, .pushSeg .ds]

/-- `wrapper` and `wrapper_error_code`, up to the call. -/
def wrapperCall : List Instr := saveContext ++ [.push .esp]

/-- The words of a saved frame; `x` is the `esp` of the kernel that `pusha` pushes. -/
def frameWords (c : Cpu) (err : Option Word) (x : Word) : List Word :=
  [c.seg .ds, c.seg .es, c.seg .fs, c.seg .gs, c.edi, c.esi, c.ebp, x, c.ebx, c.edx, c.ecx,
    c.eax] ++ (err.toList ++ [c.eip, c.seg .cs, c.eflags, c.esp, c.seg .ss])

/-- A saved frame in memory, from the address that the C function is called with. -/
def SavedFrame (m : Word → Word) (sp : Word) (c : Cpu) (err : Option Word) : Prop :=
  ∃ x, Stacked m sp (frameWords c err x)

variable {T : Ring.Tables} {m m' : Word → Word} {sp p : Word} {c c' : Cpu} {err : Option Word}

/-- **What the wrappers save** is a frame, and they call the C function with its address. -/
theorem wrapper_frame (g : Gate) (err : Option Word) (c : Cpu) (m : Word → Word) :
    ∃ k, run T wrapperCall (enterException g err c m) = .ok k ∧
      SavedFrame k.mem (k.mem k.cpu.esp) c err := by
  obtain ⟨k₀, hk₀⟩ : ∃ k₀, k₀ = enterException g err c m := ⟨_, rfl⟩
  have hcpu : k₀.cpu = { g.load c with esp := k₀.cpu.esp } := by
    rw [hk₀, enterException, Core.pushAll_cpu]
  obtain ⟨k₁, hk₁⟩ : ∃ k₁, k₁ = k₀.pushAll ([c.seg .ds, c.seg .es, c.seg .fs, c.seg .gs] ++
      [c.edi, c.esi, c.ebp, k₀.cpu.esp, c.ebx, c.edx, c.ecx, c.eax]) := ⟨_, rfl⟩
  have hsaved : run T saveContext k₀ = .ok k₁ := by
    have hgeneral : exec T k₀ .pusha = .ok (k₀.pushAll
        [c.edi, c.esi, c.ebp, k₀.cpu.esp, c.ebx, c.edx, c.ecx, c.eax]) := by
      rw [exec_pusha, hcpu]
      rfl
    have hsegs : run T [.pushSeg .gs, .pushSeg .fs, .pushSeg .es, .pushSeg .ds]
        (k₀.pushAll [c.edi, c.esi, c.ebp, k₀.cpu.esp, c.ebx, c.edx, c.ecx, c.eax]) =
          .ok ((k₀.pushAll [c.edi, c.esi, c.ebp, k₀.cpu.esp, c.ebx, c.edx, c.ecx, c.eax]).pushAll
            [c.seg .ds, c.seg .es, c.seg .fs, c.seg .gs]) := by
      refine run_pushes ?_
      rw [Core.pushAll_cpu, hcpu]
      rfl
    rw [saveContext, run_cons, hgeneral, ok_bind, hsegs, hk₁, Core.pushAll_append]
  have hlen : (frameWords c err k₀.cpu.esp).length ≤ 18 := by
    cases err <;> exact Nat.le_of_ble_eq_true rfl
  have hpushed : k₁ = (⟨g.load c, m⟩ : Core).pushAll (frameWords c err k₀.cpu.esp) := by
    have happ : (⟨g.load c, m⟩ : Core).pushAll (frameWords c err k₀.cpu.esp) =
        (enterException g err c m).pushAll ([c.seg .ds, c.seg .es, c.seg .fs, c.seg .gs] ++
          [c.edi, c.esi, c.ebp, k₀.cpu.esp, c.ebx, c.edx, c.ecx, c.eax]) :=
      Core.pushAll_append _ _ _
    rw [happ, ← hk₀, hk₁]
  have hframe : Stacked k₁.mem k₁.cpu.esp (frameWords c err k₀.cpu.esp) := by
    rw [hpushed]
    exact stacked_pushAll _ (by omega)
  refine ⟨k₁.push k₁.cpu.esp, ?_, k₀.cpu.esp, ?_⟩
  · rw [wrapperCall, run_append, ← hk₀, hsaved, ok_bind]
    rfl
  · have htop : (k₁.push k₁.cpu.esp).mem (k₁.push k₁.cpu.esp).cpu.esp = k₁.cpu.esp :=
      Function.update_self ..
    rw [htop]
    exact hframe.update (fun i hi => by bv_omega) _

/-! ### The C functions -/

/-- `ureg_from_stack`; `u` is what the memory of the `ureg_t` held before, and `cr2` what
`get_cr2` returns. -/
def uregFromStack (u : Ureg) (cause cr2 : Word) (m : Word → Word) (stack : Word)
    (generatesErrorCode : Bool) : ℤ × Ureg :=
  if stack = 0 then (-1, u) else
  let u := { u with cause := cause, cr2 := cr2 }
  -- `memcpy` of 18 words to `ds` and what follows it
  let u := { u with
    ds := m stack
    es := m (stack + 4)
    fs := m (stack + 8)
    gs := m (stack + 12)
    edi := m (stack + 16)
    esi := m (stack + 20)
    ebp := m (stack + 24)
    zero := m (stack + 28)
    ebx := m (stack + 32)
    edx := m (stack + 36)
    ecx := m (stack + 40)
    eax := m (stack + 44)
    errorCode := m (stack + 48)
    eip := m (stack + 52)
    cs := m (stack + 56)
    eflags := m (stack + 60)
    esp := m (stack + 64)
    ss := m (stack + 68) }
  -- `memmove` of five words from `error_code` to `eip`
  let u := if generatesErrorCode then u else { u with
    eip := u.errorCode
    cs := u.eip
    eflags := u.cs
    esp := u.eflags
    ss := u.esp }
  (0, u)

/-- The words of a `ureg_t`. -/
def Ureg.words (u : Ureg) : List Word :=
  [u.cause, u.cr2, u.ds, u.es, u.fs, u.gs, u.edi, u.esi, u.ebp, u.zero, u.ebx, u.edx, u.ecx,
    u.eax, u.errorCode, u.eip, u.cs, u.eflags, u.esp, u.ss]

/-- `*p = w`. -/
def store (m : Word → Word) (p w : Word) : Word → Word := Function.update m p w

/-- What `swexn_execute` leaves: its return value, the memory, and what is registered. -/
structure Executed where
  ret : ℤ
  mem : Word → Word
  tcb : Option SwexnHandler

/-- `swexn_execute`; `ureg` is uninitialised, `cr2` is what `get_cr2` returns and `userEflags`
what `get_user_eflags` does. -/
def swexnExecute (ureg : Ureg) (cr2 userEflags : Word) (m : Word → Word) (cause stack : Word)
    (generatesErrorCode : Bool) (tcb : Option SwexnHandler) : Executed :=
  let (r, ureg) := uregFromStack ureg cause cr2 m stack generatesErrorCode
  if r < 0 then ⟨-1, m, tcb⟩ else
  if tcb = none then ⟨-2, m, tcb⟩ else
  let (r, h, tcb) := tcbDeregisterSwexnHandler tcb
  if r < 0 then ⟨-3, m, tcb⟩ else
  if h.esp3 ≠ 0 ∧ h.eip ≠ 0 then
    let uregPtr := h.esp3 - 80
    let m := storeWords m uregPtr ureg.words
    let argPtr := uregPtr - 4
    let m := store m argPtr uregPtr
    let m := store m (argPtr - 4) h.arg
    let m := store m (argPtr - 8) 0
    -- without an error code the words of the `iret` are one further down
    let offset : ℕ := if generatesErrorCode then 0 else 1
    let m := store m (stack + 4 * BitVec.ofNat 32 (espIdx - offset)) (argPtr - 8)
    let m := store m (stack + 4 * BitVec.ofNat 32 (ssIdx - offset)) segselUserDs
    let m := store m (stack + 4 * BitVec.ofNat 32 (eflagsIdx - offset)) userEflags
    let m := store m (stack + 4 * BitVec.ofNat 32 (csIdx - offset)) segselUserCs
    let m := store m (stack + 4 * BitVec.ofNat 32 (eipIdx - offset)) h.eip
    ⟨0, m, tcb⟩
  else ⟨-4, m, tcb⟩

/-! ### The `ureg_t` -/

/-- The values of a context, in the fields of a `ureg_t`. -/
structure HoldsContext (u : Ureg) (c : Cpu) : Prop where
  ds : u.ds = c.seg .ds
  es : u.es = c.seg .es
  fs : u.fs = c.seg .fs
  gs : u.gs = c.seg .gs
  edi : u.edi = c.edi
  esi : u.esi = c.esi
  ebp : u.ebp = c.ebp
  ebx : u.ebx = c.ebx
  edx : u.edx = c.edx
  ecx : u.ecx = c.ecx
  eax : u.eax = c.eax
  eip : u.eip = c.eip
  cs : u.cs = c.seg .cs
  eflags : u.eflags = c.eflags
  esp : u.esp = c.esp
  ss : u.ss = c.seg .ss

/-- **A saved frame in a `ureg_t`**, with an error code or without. -/
theorem uregFromStack_holds (hf : SavedFrame m sp c err) (hsp : sp ≠ 0) (u : Ureg)
    (cause cr2 : Word) :
    ∃ v, uregFromStack u cause cr2 m sp err.isSome = (0, v) ∧ HoldsContext v c ∧
      v.cause = cause ∧ v.cr2 = cr2 := by
  obtain ⟨x, hf⟩ := hf
  rw [uregFromStack, if_neg hsp]
  cases err with
  | none =>
      simp only [frameWords, Option.toList_none, List.nil_append, List.cons_append, stacked_cons,
        stacked_nil, and_true, BitVec.add_assoc, BitVec.reduceAdd, BitVec.ofNat_eq_ofNat] at hf
      obtain ⟨h0, h1, h2, h3, h4, h5, h6, -, h8, h9, h10, h11, h12, h13, h14, h15, h16⟩ := hf
      exact ⟨_, rfl, ⟨h0, h1, h2, h3, h4, h5, h6, h8, h9, h10, h11, h12, h13, h14, h15, h16⟩, rfl,
        rfl⟩
  | some w =>
      simp only [frameWords, Option.toList_some, List.nil_append, List.cons_append, stacked_cons,
        stacked_nil, and_true, BitVec.add_assoc, BitVec.reduceAdd, BitVec.ofNat_eq_ofNat] at hf
      obtain ⟨h0, h1, h2, h3, h4, h5, h6, -, h8, h9, h10, h11, -, h13, h14, h15, h16, h17⟩ := hf
      exact ⟨_, rfl, ⟨h0, h1, h2, h3, h4, h5, h6, h8, h9, h10, h11, h13, h14, h15, h16, h17⟩, rfl,
        rfl⟩

/-- The `ureg_t` whose words are in memory. -/
lemma uregAt_of_stacked {u : Ureg} (h : Stacked m p u.words) : uregAt m p = u := by
  simp only [Ureg.words, stacked_cons, stacked_nil, and_true, BitVec.add_assoc, BitVec.reduceAdd,
    BitVec.ofNat_eq_ofNat] at h
  simp only [uregAt, BitVec.ofNat_eq_ofNat, h]

/-- A handler that `swexn` has registered. -/
structure Registered (h : SwexnHandler) : Prop where
  esp3 : checkEspSafety h.esp3 = 0
  eip : checkEipSafety h.eip = 0

/-- The frame does not meet the 92 bytes that `swexn_execute` writes below the `esp3` of the
handler. -/
def FrameApart (sp : Word) (err : Option Word) (esp3 : Word) : Prop :=
  ∀ i < 68 + 4 * err.toList.length, ∀ j < 92,
    sp + BitVec.ofNat 32 i ≠ esp3 - 92 + BitVec.ofNat 32 j

lemma Registered.le (h : SwexnHandler) (hreg : Registered h) : userMemStart ≤ h.esp3.toNat := by
  have hesp := hreg.esp3
  unfold checkEspSafety at hesp
  by_contra hlt
  rw [if_pos (not_le.mp hlt)] at hesp
  exact absurd hesp (by decide)

/-- A register of the frame is written, outside of these 92 bytes. -/
lemma Stacked.store_frame {esp3 : Word} {ws : List Word} (hap : FrameApart sp err esp3)
    (h : Stacked m (esp3 - 92) ws) (hlen : ws.length ≤ 23) {j : ℕ}
    (hj : j < 17 + err.toList.length) (w : Word) :
    Stacked (store m (sp + 4 * BitVec.ofNat 32 j) w) (esp3 - 92) ws := by
  refine h.update (fun i hi => ?_) w
  have hne := hap (4 * j) (by omega) (4 * i) (by omega)
  bv_omega

/-- The memory that the handler of the user's finds: the `ureg_t` and the arguments below `esp3`,
and the frame for the return to it. -/
def handlerMem (h : SwexnHandler) (u : Ureg) (userEflags : Word) (m : Word → Word) (stack : Word)
    (generatesErrorCode : Bool) : Word → Word :=
  let m := storeWords m (h.esp3 - 80) u.words
  let m := store m (h.esp3 - 80 - 4) (h.esp3 - 80)
  let m := store m (h.esp3 - 80 - 4 - 4) h.arg
  let m := store m (h.esp3 - 80 - 4 - 8) 0
  let offset : ℕ := if generatesErrorCode then 0 else 1
  let m := store m (stack + 4 * BitVec.ofNat 32 (espIdx - offset)) (h.esp3 - 80 - 4 - 8)
  let m := store m (stack + 4 * BitVec.ofNat 32 (ssIdx - offset)) segselUserDs
  let m := store m (stack + 4 * BitVec.ofNat 32 (eflagsIdx - offset)) userEflags
  let m := store m (stack + 4 * BitVec.ofNat 32 (csIdx - offset)) segselUserCs
  store m (stack + 4 * BitVec.ofNat 32 (eipIdx - offset)) h.eip

/-- `swexn_execute` with a handler that is registered: it is called, and is not registered any
more. -/
lemma swexnExecute_eq {h : SwexnHandler} (hf : SavedFrame m sp c err) (hsp : sp ≠ 0)
    (hreg : Registered h) (u : Ureg) (cr2 fl cause : Word) :
    ∃ v, HoldsContext v c ∧ v.cause = cause ∧ v.cr2 = cr2 ∧
      swexnExecute u cr2 fl m cause sp err.isSome (some h) =
        ⟨0, handlerMem h v fl m sp err.isSome, some noHandler⟩ := by
  obtain ⟨v, hv, hholds, hcause, hcr2⟩ := uregFromStack_holds hf hsp u cause cr2
  have hlow : (0 : Word).toNat < userMemStart := by decide
  have hesp3 : h.esp3 ≠ 0 := fun hzero => by
    have hle := hreg.le
    rw [hzero] at hle
    omega
  have heip : h.eip ≠ 0 := fun hzero => by
    have heip := hreg.eip
    rw [hzero, checkEipSafety, if_pos hlow] at heip
    exact absurd heip (by decide)
  refine ⟨v, hholds, hcause, hcr2, ?_⟩
  simp only [swexnExecute, hv, tcbDeregisterSwexnHandler, lt_irrefl, if_false, reduceCtorEq, ne_eq,
    hesp3, heip, not_false_eq_true, and_self, if_true]
  rfl

/-- **The handler finds its arguments on its stack**, with the `ureg_t` behind them. -/
lemma stacked_handlerMem {h : SwexnHandler} (hap : FrameApart sp err h.esp3) (u : Ureg) (fl : Word)
    (m : Word → Word) : Stacked (handlerMem h u fl m sp err.isSome) (h.esp3 - 92)
      (0 :: h.arg :: (h.esp3 - 80) :: u.words) := by
  have hwords : u.words.length = 20 := rfl
  have hureg : Stacked (storeWords m (h.esp3 - 80) u.words) (h.esp3 - 80) u.words :=
    stacked_storeWords m (by rw [hwords]; decide)
  have hframe : ∀ {m : Word → Word} {i : ℕ} (w : Word), 13 ≤ i → i < 18 →
      Stacked m (h.esp3 - 92) (0 :: h.arg :: (h.esp3 - 80) :: u.words) →
      Stacked (store m (sp + 4 * BitVec.ofNat 32 (i - if err.isSome = true then 0 else 1)) w)
        (h.esp3 - 92) (0 :: h.arg :: (h.esp3 - 80) :: u.words) := by
    intro m i w hlow hi hm
    refine Stacked.store_frame hap hm (by simp [hwords]) ?_ w
    cases err with
    | none =>
        change i - 1 < 17 + 0
        omega
    | some e =>
        change i - 0 < 17 + 1
        omega
  refine hframe _ (by decide) (by decide) ?_
  refine hframe _ (by decide) (by decide) ?_
  refine hframe _ (by decide) (by decide) ?_
  refine hframe _ (by decide) (by decide) ?_
  refine hframe _ (by decide) (by decide) ?_
  have hbelow : h.esp3 - 92 = h.esp3 - 80 - 4 - 8 := by bv_omega
  rw [hbelow]
  refine Stacked.store (q := h.esp3 - 80 - 4 - 4) ?_ (by bv_omega) (by simp [hwords]) 0
  refine Stacked.store (q := h.esp3 - 80 - 4) ?_ (by bv_omega) (by simp [hwords]) h.arg
  exact Stacked.store hureg (by bv_omega) (by simp [hwords]) (h.esp3 - 80)

/-- The words after the others. -/
lemma Stacked.drop_three {a b w : Word} {ws : List Word} (h : Stacked m p (a :: b :: w :: ws)) :
    Stacked m (p + 12) ws := by
  have hthree : p + 12 = p + 4 + 4 + 4 := by bv_omega
  rw [hthree]
  exact h.2.2.2

/-- **What `swexn_execute` leaves for the handler.** -/
theorem swexnExecute_spec {h : SwexnHandler} (hf : SavedFrame m sp c err) (hsp : sp ≠ 0)
    (hreg : Registered h) (hap : FrameApart sp err h.esp3) (u : Ureg) (cr2 fl cause : Word) :
    (swexnExecute u cr2 fl m cause sp err.isSome (some h)).ret = 0 ∧
      HoldsContext (uregAt (swexnExecute u cr2 fl m cause sp err.isSome (some h)).mem
        (h.esp3 - 80)) c := by
  obtain ⟨v, hholds, -, -, heq⟩ := swexnExecute_eq hf hsp hreg u cr2 fl cause
  have hureg := Stacked.drop_three (stacked_handlerMem hap v fl m)
  rw [show h.esp3 - 92 + 12 = h.esp3 - 80 by bv_omega] at hureg
  rw [heq, uregAt_of_stacked hureg]
  exact ⟨rfl, hholds⟩

/-! ### The way back -/

/-- A context of user mode: the processor has accepted what its data segment registers hold.
In virtual-8086 mode a frame has other words, and 0 for `ds`. -/
structure UserMode (T : Ring.Tables) (c : Cpu) : Prop where
  cpl : c.cpl = 3
  vm : c.flag vmFlag = false
  es : checkData T 3 c.es = .ok ()
  fs : checkData T 3 c.fs = .ok ()
  gs : checkData T 3 c.gs = .ok ()

/-- A data segment that level 3 may use may be used at level 0. -/
lemma checkData_kernel {s : Selector} (h : checkData T 3 s = .ok ()) :
    checkData T 0 s = .ok () := by
  unfold checkData at h ⊢
  split_ifs at h ⊢ with hnull
  · rfl
  rcases hl : lookup T s with _ | d
  · simp [hl] at h
  · rcases hk : d.kind with ⟨_ | _, _ | _⟩ | _ | _ <;> simp only [hl, hk] at h ⊢ <;> grind

/-- A selector that level 3 may use stays in its register, if it is no null selector. -/
lemma keepData_user {s : Selector} (h : checkData T 3 s = .ok ())
    (hnull : s.toNat / 4 = 0 → s = 0) :
    keepData T 3 s = s := by
  by_cases hs : s.toNat / 4 = 0
  · rw [hnull hs]
    rfl
  unfold checkData at h
  rw [if_neg hs] at h
  unfold keepData
  rcases hl : lookup T s with _ | d
  · simp [hl] at h
  · rcases hk : d.kind with ⟨_ | _, _ | _⟩ | _ | _ <;> simp only [hl, hk] at h ⊢ <;> grind

/-- `swexn` with a context that passes the checks. -/
lemma swexn_restores {esp3 eip arg : Word} {old : SwexnHandler}
    (hsafe : checkUregSafety (uregAt m p) = 0) (hp : p ≠ 0)
    (hargs : esp3 ≠ 0 ∧ eip ≠ 0 → checkEspSafety esp3 = 0 ∧ checkEipSafety eip = 0) :
    (syscallSwexnCHandler T m c esp3 eip arg p (some old)).1 =
      .restored (restoreContext T m (p + 8) c) := by
  simp only [syscallSwexnCHandler, tcbDeregisterSwexnHandler, tcbRegisterSwexnHandler]
  grind

/-- **A frame goes through a handler and comes back**: the handler finds the values of the
context in its `ureg_t`, and `swexn` with that `ureg_t` loads the context. -/
structure RoundTrips (T : Ring.Tables) (r : Executed) (newureg : Word) (c : Cpu) : Prop where
  ret : r.ret = 0
  holds : HoldsContext (uregAt r.mem newureg) c
  loaded : ∀ (m' : Word → Word) (c' : Cpu), uregAt m' newureg = uregAt r.mem newureg →
    loadContext m' (newureg + 8) c' = c
  resumed : ∀ (m' : Word → Word) (c' : Cpu) (esp3 eip arg : Word) (old : SwexnHandler),
    uregAt m' newureg = uregAt r.mem newureg → InHandler c' →
    (esp3 ≠ 0 ∧ eip ≠ 0 → checkEspSafety esp3 = 0 ∧ checkEipSafety eip = 0) →
    (syscallSwexnCHandler T m' c' esp3 eip arg newureg (some old)).1 =
      .restored (.ok (keepAll T c))
  kept : (∀ s ∈ [c.es, c.fs, c.gs], s.toNat / 4 = 0 → s = 0) → keepAll T c = c

/-- What is loaded from a `ureg_t` with the values of a context. -/
lemma HoldsContext.loadContext_eq (h : HoldsContext (uregAt m p) c) (hc : UserMode T c)
    (hcs : (uregAt m p).cs = segselUserCs) (c' : Cpu) : loadContext m (p + 8) c' = c := by
  obtain ⟨heip, hcs', hflags, hesp, hss⟩ := beforeIret_reads m p c'
  have hring : rpl (Selector.ofWord (uregAt m p).cs) = c.cpl := by
    rw [hcs, hc.cpl]
    rfl
  rw [ShrekOS.loadContext_eq, loadIret, heip, hcs', hflags, hesp, hss, hring, beforeIret]
  simp only [h.ds, h.es, h.fs, h.gs, h.edi, h.esi, h.ebp, h.ebx, h.edx, h.ecx, h.eax, h.eip, h.cs,
    h.eflags, h.esp, h.ss, Cpu.seg, ofWord_zeroExtend]

/-- The context that `restore_context` ends in. -/
lemma HoldsContext.userContext_eq (h : HoldsContext (uregAt m p) c) (hc : UserMode T c) (c' : Cpu) :
    userContext T m p c' = keepAll T c := by
  rw [userContext, beforeIret, keepAll, hc.cpl]
  simp only [h.ds, h.es, h.fs, h.gs, h.edi, h.esi, h.ebp, h.ebx, h.edx, h.ecx, h.eax, h.eip, h.cs,
    h.eflags, h.esp, h.ss, Cpu.seg, ofWord_zeroExtend]

/-- **A saved frame goes through a handler and comes back**, with an error code or without, if
its values pass `check_ureg_safety`. -/
theorem roundTrips {h : SwexnHandler} (hT : UserSegments T) (hc : UserMode T c)
    (hf : SavedFrame m sp c err) (hsp : sp ≠ 0) (hreg : Registered h)
    (hap : FrameApart sp err h.esp3) (ureg : Ureg) (cr2 userEflags cause : Word)
    (hsafe : checkUregSafety (uregAt
      (swexnExecute ureg cr2 userEflags m cause sp err.isSome (some h)).mem (h.esp3 - 80)) = 0) :
    RoundTrips T (swexnExecute ureg cr2 userEflags m cause sp err.isSome (some h))
      (h.esp3 - 80) c := by
  obtain ⟨hret, hholds⟩ := swexnExecute_spec hf hsp hreg hap ureg cr2 userEflags cause
  obtain ⟨hds, hss, hcs, -⟩ := (checkUregSafety_eq_safe_iff _).mp hsafe
  have hnewureg : h.esp3 - 80 ≠ 0 := by
    have hle := hreg.le
    have hstart : userMemStart = 0x1000000 := rfl
    bv_omega
  have hseg : c.ds = Selector.ofWord segselUserDs := by
    rw [← hds, hholds.ds, Cpu.seg, ofWord_zeroExtend]
  refine ⟨hret, hholds, fun m' c' hm' => ?_, fun m' c' esp3 eip arg old hm' hin hargs => ?_,
    fun hnull => ?_⟩
  · exact HoldsContext.loadContext_eq (hm' ▸ hholds) hc (hm' ▸ hcs) c'
  · have hholds' : HoldsContext (uregAt m' (h.esp3 - 80)) c := hm' ▸ hholds
    rw [swexn_restores (hm' ▸ hsafe) hnewureg hargs]
    refine congrArg SwexnEnd.restored (restoreContext_eq_ok_iff.mpr ?_)
    have hvm : (uregAt m' (h.esp3 - 80)).eflags.getLsbD vmFlag = false := by
      rw [hholds'.eflags]
      exact hc.vm
    have hiret := iret_user hT hin (hm' ▸ hcs) (hm' ▸ hss) hvm
    rw [hholds'.userContext_eq hc c'] at hiret
    simp only [hholds'.ds, hholds'.es, hholds'.fs, hholds'.gs, Cpu.seg, ofWord_zeroExtend, hseg]
    have hdata := hT.checkData hin
    rw [hin.cpl] at hdata ⊢
    exact ⟨hdata, checkData_kernel hc.es, checkData_kernel hc.fs, checkData_kernel hc.gs, hiret⟩
  · rw [keepAll, hc.cpl, hseg, hT.keepData, keepData_user hc.es (hnull c.es (by simp)),
      keepData_user hc.fs (hnull c.fs (by simp)),
      keepData_user hc.gs (hnull c.gs (by simp)), ← hseg,
      ← hc.cpl]

/-! ### A division by zero -/

/-- A user program that divides by zero. -/
def dividing : Cpu :=
  ⟨3, 0x1000120, 0x2000ff0, 0x202, 0x23, 0x2b, 0x2b, 0x2b, 0x2b, 0x2b, 1, 2, 0x2000ff8, 3, 4, 0, 5⟩

/-- The kernel stack with its frame. -/
def dividingMem (err : Option Word) : Word → Word :=
  storeWords (fun _ => 0) 0x200000 (frameWords dividing err 0x200030)

/-- The handler of the program. -/
def divHandler : SwexnHandler := ⟨0x3000000, 0x1000200, 0⟩

lemma userMode_dividing : UserMode flatTables dividing := ⟨rfl, by decide, rfl, rfl, rfl⟩

/-- Its values pass the check. -/
lemma checkUregSafety_dividing {u : Ureg} (hu : HoldsContext u dividing) :
    checkUregSafety u = 0 := by
  refine (checkUregSafety_eq_safe_iff _).mpr
    ⟨hu.ds.trans rfl, hu.ss.trans rfl, hu.cs.trans rfl, ?_, ?_, ?_⟩
  · rw [hu.eip]
    decide
  · rw [hu.esp]
    decide
  · rw [hu.eflags]
    decide

theorem roundTrips_dividing :
    UserSegments flatTables ∧ UserMode flatTables dividing ∧
    (∀ err, err = none ∨ err = some 0 → SavedFrame (dividingMem err) 0x200000 dividing err ∧
      RoundTrips flatTables (swexnExecute (uregAt (fun _ => 0) 0) 0 0x202 (dividingMem err) 0
        0x200000 err.isSome (some divHandler)) (divHandler.esp3 - 80) dividing) := by
  refine ⟨userSegments_flatTables, userMode_dividing, fun err herr => ?_⟩
  have hframe : SavedFrame (dividingMem err) 0x200000 dividing err := by
    refine ⟨0x200030, stacked_storeWords _ ?_⟩
    rcases herr with rfl | rfl <;> decide
  have hapart : FrameApart 0x200000 err divHandler.esp3 := by
    intro i hi j hj
    have hlen : err.toList.length ≤ 1 := by cases err <;> simp
    have hesp3 : divHandler.esp3 = 0x3000000 := rfl
    rw [hesp3]
    bv_omega
  have hreg : Registered divHandler := ⟨by decide, by decide⟩
  obtain ⟨-, hholds⟩ := swexnExecute_spec hframe (by decide) hreg hapart (uregAt (fun _ => 0) 0) 0
    0x202 0
  exact ⟨hframe, roundTrips userSegments_flatTables userMode_dividing hframe (by decide) hreg
    hapart _ 0 0x202 0 (checkUregSafety_dividing hholds)⟩

/-- A handler whose stack begins 52 bytes into the user space. -/
def lowHandler : SwexnHandler := ⟨0x1000034, 0x1000200, 0⟩

/-- The frame of the same program on a kernel stack that ends 8 bytes below the user space. -/
def topMem : Word → Word :=
  storeWords (fun _ => 0) 0xFFFFB4 (frameWords dividing none 0xFFFFE4)

/-- **A frame that meets the `ureg_t`**: the words for the `iret` are written last, and the field
`ds` then holds the flags of the return to the handler. -/
theorem not_roundTrips_topMem :
    ¬ ∀ (T : Ring.Tables) (c : Cpu) (m : Word → Word) (sp : Word) (err : Option Word)
      (h : SwexnHandler), UserSegments T → UserMode T c → SavedFrame m sp c err → sp ≠ 0 →
      Registered h → (∀ u, HoldsContext u c → checkUregSafety u = 0) →
      ∀ (ureg : Ureg) (cr2 userEflags cause : Word),
        RoundTrips T (swexnExecute ureg cr2 userEflags m cause sp err.isSome (some h))
          (h.esp3 - 80) c := by
  intro hall
  have hframe : SavedFrame topMem 0xFFFFB4 dividing none :=
    ⟨0xFFFFE4, stacked_storeWords _ (by decide)⟩
  have htrip := hall flatTables dividing topMem 0xFFFFB4 none lowHandler userSegments_flatTables
    userMode_dividing hframe (by decide) ⟨by decide, by decide⟩
    (fun _ => checkUregSafety_dividing) (uregAt (fun _ => 0) 0) 0 0x202 0
  have hds : (uregAt (swexnExecute (uregAt (fun _ => 0) 0) 0 0x202 topMem 0 0xFFFFB4 false
      (some lowHandler)).mem (lowHandler.esp3 - 80)).ds = 0x202 := by decide +kernel
  exact absurd (hds.symm.trans htrip.holds.ds) (by decide)

end ShrekOS
