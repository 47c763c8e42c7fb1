/-
The system call that loads a context of the user's making: `syscall_swexn_c_handler` of
`handlers/thr_mgmt_handlers.c` with the checks above it, and `restore_context` of
`dispatcher/asm_helpers.S`.

* `checkUregSafety`: the checks of a `ureg_t`, and `checkUregSafety_eq_safe_iff`;
* `restoreContext`: the instructions that load it;
* `OrdinaryUser`: the context of an ordinary user program;
* `ordinaryUser_iff`: **exactly which of the accepted words give such a context**;
* `swexn_restored`, `swexn_failed`: the handler loads a context only if it passes the checks,
  and a call that fails leaves the registered handler as it was.

The descriptor tables are set up outside of this code: `UserSegments` is what they say about
the two selectors of user programs.
-/
import ShrekOS.Lib.Ring
import ShrekOS.Mem.Vmm

namespace ShrekOS

open Kit Kit.Ring

/-! ### The constants of the processor's headers -/

/-- `SEGSEL_USER_CS`. -/
def segselUserCs : Word := 0x23

/-- `SEGSEL_USER_DS`. -/
def segselUserDs : Word := 0x2b

/-- `EFL_RESV1`. -/
def eflResv1 : Word := 0x2

/-- `EFL_RESV2`. -/
def eflResv2 : Word := 0x8

/-- `EFL_RESV3`. -/
def eflResv3 : Word := 0x20

/-- `EFL_IF`. -/
def eflIf : Word := 0x200

/-- `EFL_IOPL_RING1`. -/
def eflIoplRing1 : Word := 0x1000

/-- `EFL_IOPL_RING2`. -/
def eflIoplRing2 : Word := 0x2000

/-- `EFL_IOPL_RING3`. -/
def eflIoplRing3 : Word := 0x3000

/-! ### The checks -/

/-- `ureg_t`. -/
structure Ureg where
  cause : Word
  cr2 : Word
  ds : Word
  es : Word
  fs : Word
  gs : Word
  edi : Word
  esi : Word
  ebp : Word
  zero : Word
  ebx : Word
  edx : Word
  ecx : Word
  eax : Word
  errorCode : Word
  eip : Word
  cs : Word
  eflags : Word
  esp : Word
  ss : Word

/-- The `ureg_t` at an address. -/
def uregAt (m : Word → Word) (p : Word) : Ureg where
  cause := m p
  cr2 := m (p + 4)
  ds := m (p + 8)
  es := m (p + 12)
  fs := m (p + 16)
  gs := m (p + 20)
  edi := m (p + 24)
  esi := m (p + 28)
  ebp := m (p + 32)
  zero := m (p + 36)
  ebx := m (p + 40)
  edx := m (p + 44)
  ecx := m (p + 48)
  eax := m (p + 52)
  errorCode := m (p + 56)
  eip := m (p + 60)
  cs := m (p + 64)
  eflags := m (p + 68)
  esp := m (p + 72)
  ss := m (p + 76)

/-- `check_esp_safety`: `ESP_SAFE` or `ESP_UNSAFE`. -/
def checkEspSafety (esp : Word) : ℕ := if esp.toNat < userMemStart then 1 else 0

/-- `check_eip_safety`: `EIP_SAFE` or `EIP_UNSAFE`. -/
def checkEipSafety (eip : Word) : ℕ := if eip.toNat < userMemStart then 1 else 0

/-- `check_eflags_safety`: `EFLAGS_SAFE`, `EFLAGS_RESV`, `EFLAGS_IF` or `EFLAGS_IOPL`. -/
def checkEflagsSafety (eflags : Word) : ℕ :=
  if eflags &&& eflResv1 = 0 ∨ eflags &&& eflResv2 ≠ 0 ∨ eflags &&& eflResv3 ≠ 0 then 1
  else if eflags &&& eflIf = 0 then 2
  else if eflags &&& eflIoplRing3 ≠ 0 then 3
  else if eflags &&& eflIoplRing2 ≠ 0 then 3
  else if eflags &&& eflIoplRing1 ≠ 0 then 3
  else 0

/-- `check_ureg_safety`: `UREG_SAFE`, `UREG_EFLAGS`, `UREG_SEGMENT`, `UREG_EIP` or
`UREG_ESP`. -/
def checkUregSafety (u : Ureg) : ℕ :=
  if u.ds ≠ segselUserDs then 2
  else if u.ss ≠ segselUserDs then 2
  else if u.cs ≠ segselUserCs then 2
  else if checkEipSafety u.eip ≠ 0 then 3
  else if checkEspSafety u.esp ≠ 0 then 4
  else if checkEflagsSafety u.eflags ≠ 0 then 1
  else 0

/-- `restore_context`: the segment registers, the others, and `iret`. -/
def restoreContext (T : Tables) (m : Word → Word) (sp : Word) (c : Cpu) :
    Except CpuFault Cpu := do
  let c ← popSeg T m .ds { c with esp := sp }
  let c ← popSeg T m .es c
  let c ← popSeg T m .fs c
  let c ← popSeg T m .gs c
  let c := popa m c
  iret T m { c with esp := c.esp + 4 }

/-! ### The handler -/

/-- What `swexn` registers for a thread: the stack, the handler and its argument. -/
structure SwexnHandler where
  esp3 : Word
  eip : Word
  arg : Word
  deriving DecidableEq

/-- Nothing is registered. -/
def noHandler : SwexnHandler := ⟨0, 0, 0⟩

/-- How a call of `swexn` ends: with a return value, or in `restore_context`. -/
inductive SwexnEnd where
  | ret (n : ℤ)
  | restored (r : Except CpuFault Cpu)

/-- `tcb_deregister_swexn_handler`: the values that were registered, and none now. -/
def tcbDeregisterSwexnHandler : Option SwexnHandler →
    ℤ × SwexnHandler × Option SwexnHandler
  | none => (-1, noHandler, none)
  | some h => (0, h, some noHandler)

/-- `tcb_register_swexn_handler`. -/
def tcbRegisterSwexnHandler (h : SwexnHandler) : Option SwexnHandler →
    ℤ × Option SwexnHandler
  | none => (-1, none)
  | some _ => (0, some h)

/-- `syscall_swexn_c_handler`. The thread is the current one (`none` if there is none), given
by what is registered for it; `m` is the memory and `c` the registers of the call. -/
def syscallSwexnCHandler (T : Tables) (m : Word → Word) (c : Cpu) (esp3 eip arg newureg : Word)
    (tcb : Option SwexnHandler) : SwexnEnd × Option SwexnHandler :=
  if tcb = none then (.ret (-1), tcb) else
  let (r, old, tcb') := tcbDeregisterSwexnHandler tcb
  if r < 0 then (.ret (-2), tcb') else
  let installs := esp3 ≠ 0 ∧ eip ≠ 0
  if installs ∧ (checkEspSafety esp3 ≠ 0 ∨ checkEipSafety eip ≠ 0) then
    (.ret (-3), (tcbRegisterSwexnHandler old tcb').2)
  else
  let (r', tcb'') := if installs then tcbRegisterSwexnHandler ⟨esp3, eip, arg⟩ tcb' else (0, tcb')
  if r' < 0 then (.ret (-4), (tcbRegisterSwexnHandler old tcb'').2)
  else if newureg ≠ 0 then
    if checkUregSafety (uregAt m newureg) = 0 then
      (.restored (restoreContext T m (newureg + 8) c), tcb'')
    else (.ret (-5), (tcbRegisterSwexnHandler old tcb'').2)
  else (.ret 0, tcb'')

/-- **A context is loaded only if it passed the checks**, and from the address of its `ds`. -/
theorem swexn_restored {T : Tables} {m : Word → Word} {c : Cpu} {esp3 eip arg newureg : Word}
    {tcb tcb' : Option SwexnHandler} {r : Except CpuFault Cpu}
    (h : syscallSwexnCHandler T m c esp3 eip arg newureg tcb = (.restored r, tcb')) :
    checkUregSafety (uregAt m newureg) = 0 ∧ r = restoreContext T m (newureg + 8) c := by
  unfold syscallSwexnCHandler at h
  grind

/-- **A call that fails leaves the registered handler as it was.** -/
theorem swexn_failed {T : Tables} {m : Word → Word} {c : Cpu} {esp3 eip arg newureg : Word}
    {tcb tcb' : Option SwexnHandler} {n : ℤ} (hn : n < 0)
    (h : syscallSwexnCHandler T m c esp3 eip arg newureg tcb = (.ret n, tcb')) :
    tcb' = tcb := by
  rcases tcb with _ | old
  · simp only [syscallSwexnCHandler] at h
    grind
  · simp only [syscallSwexnCHandler, tcbDeregisterSwexnHandler, tcbRegisterSwexnHandler] at h
    grind

/-- What a call asks to be registered. -/
def requestedHandler (esp3 eip arg : Word) : SwexnHandler :=
  if esp3 ≠ 0 ∧ eip ≠ 0 then ⟨esp3, eip, arg⟩ else noHandler

/-- A call that fails leaves what was registered, and any other end leaves what it asked for. -/
def SwexnAllOrNothing (before : Option SwexnHandler) (want : SwexnHandler) :
    SwexnEnd × Option SwexnHandler → Prop
  | (.ret n, after) => (n < 0 ∧ after = before) ∨ (n = 0 ∧ after = some want)
  | (.restored _, after) => after = some want

/-- **`swexn` is all or nothing.** -/
theorem swexn_allOrNothing (T : Tables) (m : Word → Word) (c : Cpu) (esp3 eip arg newureg : Word)
    (tcb : Option SwexnHandler) : SwexnAllOrNothing tcb (requestedHandler esp3 eip arg)
      (syscallSwexnCHandler T m c esp3 eip arg newureg tcb) := by
  rcases tcb with _ | old
  · exact .inl ⟨by decide, rfl⟩
  by_cases hin : esp3 ≠ 0 ∧ eip ≠ 0
  · -- the handler may be refused, and so may the registers after it was installed
    rw [requestedHandler, if_pos hin]
    simp only [syscallSwexnCHandler, tcbDeregisterSwexnHandler, tcbRegisterSwexnHandler,
      reduceCtorEq, if_pos hin, if_false, lt_irrefl]
    split_ifs
    · exact .inl ⟨by decide, rfl⟩
    · exact rfl
    · exact .inl ⟨by decide, rfl⟩
    · exact .inr ⟨rfl, rfl⟩
  · rw [requestedHandler, if_neg hin]
    simp only [syscallSwexnCHandler, tcbDeregisterSwexnHandler, tcbRegisterSwexnHandler,
      reduceCtorEq, hin, false_and, if_false, lt_irrefl]
    split_ifs
    · exact rfl
    · exact .inl ⟨by decide, rfl⟩
    · exact .inr ⟨rfl, rfl⟩

/-! ### What the checks accept -/

/-- One bit of a word, tested with a mask. -/
lemma and_twoPow_eq_zero_iff (x : Word) (n : ℕ) (hn : n < 32) :
    x &&& BitVec.twoPow 32 n = 0 ↔ x.getLsbD n = false := by
  rw [BitVec.and_twoPow]
  cases x.getLsbD n with
  | false => simp
  | true =>
    have h : BitVec.twoPow 32 n ≠ 0 := by
      intro h0
      have hbit := congrArg (BitVec.getLsbD · n) h0
      simp [hn] at hbit
    simpa using h

/-- Two neighbouring bits of a word, tested with a mask. -/
lemma and_iopl_eq_zero_iff (x : Word) :
    x &&& eflIoplRing3 = 0 ↔ x.getLsbD 12 = false ∧ x.getLsbD 13 = false := by
  have hmask : eflIoplRing3 = BitVec.twoPow 32 12 ||| BitVec.twoPow 32 13 := by decide
  rw [hmask, BitVec.and_or_distrib_left]
  exact BitVec.or_eq_zero_iff.trans (and_congr (and_twoPow_eq_zero_iff x 12 (by omega))
    (and_twoPow_eq_zero_iff x 13 (by omega)))

/-- The flags that are accepted: the reserved bits, interrupts on, and I/O privilege 0. -/
lemma checkEflagsSafety_eq_safe_iff (e : Word) : checkEflagsSafety e = 0 ↔
    e.getLsbD 1 = true ∧ e.getLsbD 3 = false ∧ e.getLsbD 5 = false ∧ e.getLsbD 9 = true ∧
      e.getLsbD 12 = false ∧ e.getLsbD 13 = false := by
  have h1 : e &&& eflResv1 = 0 ↔ _ := and_twoPow_eq_zero_iff e 1 (by omega)
  have h3 : e &&& eflResv2 = 0 ↔ _ := and_twoPow_eq_zero_iff e 3 (by omega)
  have h5 : e &&& eflResv3 = 0 ↔ _ := and_twoPow_eq_zero_iff e 5 (by omega)
  have h9 : e &&& eflIf = 0 ↔ _ := and_twoPow_eq_zero_iff e 9 (by omega)
  have h12 : e &&& eflIoplRing1 = 0 ↔ _ := and_twoPow_eq_zero_iff e 12 (by omega)
  have h13 : e &&& eflIoplRing2 = 0 ↔ _ := and_twoPow_eq_zero_iff e 13 (by omega)
  have hio := and_iopl_eq_zero_iff e
  simp only [checkEflagsSafety, ne_eq, h1, h3, h5, h9, h12, h13, hio]
  grind

/-- **What `check_ureg_safety` accepts**: three of the six selectors, the two addresses and
the flags are looked at. -/
theorem checkUregSafety_eq_safe_iff (u : Ureg) : checkUregSafety u = 0 ↔
    u.ds = segselUserDs ∧ u.ss = segselUserDs ∧ u.cs = segselUserCs ∧
      userMemStart ≤ u.eip.toNat ∧ userMemStart ≤ u.esp.toNat ∧
      checkEflagsSafety u.eflags = 0 := by
  unfold checkUregSafety checkEipSafety checkEspSafety
  grind

/-! ### What is loaded -/

/-- What the descriptor tables say about the two selectors of user programs: flat segments of
privilege level 3. -/
structure UserSegments (T : Tables) : Prop where
  code : ∃ r, T 8 = some ⟨.code false r, 3, true, 0xFFFFFFFF⟩
  data : T 10 = some ⟨.data true, 3, true, 0xFFFFFFFF⟩

/-- The processor in a system call: the most privileged level, and no nested task (the gate
has cleared the flag). -/
structure InHandler (c : Cpu) : Prop where
  cpl : c.cpl = 0
  nt : c.flag ntFlag = false

/-- The context of an ordinary user program. -/
structure OrdinaryUser (c : Cpu) : Prop where
  cpl : c.cpl = 3
  cs : c.cs = Selector.ofWord segselUserCs
  ss : c.ss = Selector.ofWord segselUserDs
  ds : c.ds = Selector.ofWord segselUserDs
  es : c.es = Selector.ofWord segselUserDs
  fs : c.fs = Selector.ofWord segselUserDs
  gs : c.gs = Selector.ofWord segselUserDs
  eip : userMemStart ≤ c.eip.toNat
  esp : userMemStart ≤ c.esp.toNat
  interrupts : c.flag 9 = true
  iopl : c.flag 12 = false ∧ c.flag 13 = false
  vm : c.flag vmFlag = false
  nt : c.flag ntFlag = false

/-- The words that `check_ureg_safety` does not look at: the other three selectors, and the
flags of virtual-8086 mode and of nested tasks. -/
structure PlainRest (u : Ureg) : Prop where
  es : Selector.ofWord u.es = Selector.ofWord segselUserDs
  fs : Selector.ofWord u.fs = Selector.ofWord segselUserDs
  gs : Selector.ofWord u.gs = Selector.ofWord segselUserDs
  vm : u.eflags.getLsbD vmFlag = false
  nt : u.eflags.getLsbD ntFlag = false

/-- The registers when `restore_context` comes to its `iret`. -/
def beforeIret (m : Word → Word) (p : Word) (c : Cpu) : Cpu :=
  let u := uregAt m p
  { c with
    ds := Selector.ofWord u.ds
    es := Selector.ofWord u.es
    fs := Selector.ofWord u.fs
    gs := Selector.ofWord u.gs
    edi := u.edi
    esi := u.esi
    ebp := u.ebp
    ebx := u.ebx
    edx := u.edx
    ecx := u.ecx
    eax := u.eax
    esp := p + 60 }

variable {T : Tables} {m : Word → Word} {p : Word} {c c' : Cpu}

/-- Two computations in a row. -/
lemma bind_eq_ok_iff {ε α β : Type} {x : Except ε α} {f : α → Except ε β} {b : β} :
    (x >>= f) = .ok b ↔ ∃ a, x = .ok a ∧ f a = .ok b := by
  cases x with
  | error e => simp [bind, Except.bind]
  | ok a => simp [bind, Except.bind]

/-- **`restore_context` loads a context** when the processor takes the four data selectors,
and then it is what `iret` makes of the rest. -/
lemma restoreContext_eq_ok_iff : restoreContext T m (p + 8) c = .ok c' ↔
    checkData T c.cpl (Selector.ofWord (uregAt m p).ds) = .ok () ∧
    checkData T c.cpl (Selector.ofWord (uregAt m p).es) = .ok () ∧
    checkData T c.cpl (Selector.ofWord (uregAt m p).fs) = .ok () ∧
    checkData T c.cpl (Selector.ofWord (uregAt m p).gs) = .ok () ∧
    iret T m (beforeIret m p c) = .ok c' := by
  simp only [restoreContext, bind_eq_ok_iff, popSeg_eq_ok_iff, Cpu.setSeg, popa, uregAt,
    beforeIret, and_assoc, exists_and_left, exists_eq_left, BitVec.add_assoc, BitVec.reduceAdd,
    BitVec.ofNat_eq_ofNat]

/-- The user data selector, in the descriptor tables. -/
lemma UserSegments.lookup_data (hT : UserSegments T) :
    lookup T (Selector.ofWord segselUserDs) = some ⟨.data true, 3, true, 0xFFFFFFFF⟩ :=
  hT.data

/-- The processor takes the user data selector, in a handler too. -/
lemma UserSegments.checkData (hT : UserSegments T) (hc : InHandler c) :
    checkData T c.cpl (Selector.ofWord segselUserDs) = .ok () :=
  checkData_ok hT.lookup_data rfl rfl (by rw [hc.cpl]; exact Nat.zero_le 3) (by decide)

/-- A return to a user program keeps the user data selector. -/
lemma UserSegments.keepData (hT : UserSegments T) :
    keepData T 3 (Selector.ofWord segselUserDs) = Selector.ofWord segselUserDs :=
  keepData_of_dpl hT.lookup_data le_rfl

/-- A data segment register that holds the user data selector after a return held it before. -/
lemma eq_userDs_of_keepData {cpl : ℕ} {s : Selector}
    (h : Ring.keepData T cpl s = Selector.ofWord segselUserDs) :
    s = Selector.ofWord segselUserDs := by
  rcases keepData_eq_or T cpl s with hs | hs
  · rw [← hs, h]
  · rw [hs] at h
    exact absurd h (by decide)

/-- The context that `restore_context` ends in, when it is not one of virtual-8086 mode. -/
def userContext (T : Tables) (m : Word → Word) (p : Word) (c : Cpu) : Cpu :=
  let u := uregAt m p
  { beforeIret m p c with
    cpl := 3
    eip := u.eip
    cs := Selector.ofWord u.cs
    eflags := u.eflags
    esp := u.esp
    ss := Selector.ofWord u.ss
    ds := keepData T 3 (Selector.ofWord u.ds)
    es := keepData T 3 (Selector.ofWord u.es)
    fs := keepData T 3 (Selector.ofWord u.fs)
    gs := keepData T 3 (Selector.ofWord u.gs) }

/-- The words that `iret` reads. -/
lemma beforeIret_reads (m : Word → Word) (p : Word) (c : Cpu) :
    m (beforeIret m p c).esp = (uregAt m p).eip ∧
      m ((beforeIret m p c).esp + 4) = (uregAt m p).cs ∧
      m ((beforeIret m p c).esp + 8) = (uregAt m p).eflags ∧
      m ((beforeIret m p c).esp + 12) = (uregAt m p).esp ∧
      m ((beforeIret m p c).esp + 16) = (uregAt m p).ss := by
  simp only [beforeIret, uregAt, BitVec.add_assoc, BitVec.reduceAdd, BitVec.ofNat_eq_ofNat,
    and_self]

/-- `iret` with the selectors of a user program on the stack, outside of virtual-8086 mode,
is a return to the outer level. -/
lemma iret_user (hT : UserSegments T) (hc : InHandler c)
    (hcs : (uregAt m p).cs = segselUserCs) (hss : (uregAt m p).ss = segselUserDs)
    (hvm : (uregAt m p).eflags.getLsbD vmFlag = false) :
    iret T m (beforeIret m p c) = .ok (userContext T m p c) := by
  obtain ⟨r, hcode⟩ := hT.code
  obtain ⟨heip, hcs', hflags, hesp, hss'⟩ := beforeIret_reads m p c
  have hlook : lookup T (Selector.ofWord (uregAt m p).cs) =
      some ⟨.code false r, 3, true, 0xFFFFFFFF⟩ := by
    rw [hcs]
    exact hcode
  have hring : rpl (Selector.ofWord (uregAt m p).cs) = 3 := by
    rw [hcs]
    rfl
  have hstack : checkStack T 3 (Selector.ofWord (uregAt m p).ss) = .ok () := by
    rw [hss]
    exact checkStack_ok hT.lookup_data rfl rfl rfl rfl
  have hout : iret T m (beforeIret m p c) = iretOuter T m (Selector.ofWord (uregAt m p).cs)
      ⟨.code false r, 3, true, 0xFFFFFFFF⟩ (beforeIret m p c) :=
    iret_of_outer hc.nt (by rwa [hflags]) (by rw [hcs']) (checkCode_ok hlook rfl rfl hring.symm)
      (by rw [hring]; decide)
  rw [hout, iretOuter_eq_ok_iff, hring, heip, hflags, hesp, hss']
  exact ⟨hstack, by bv_omega, rfl⟩

/-- A context of virtual-8086 mode is not one of an ordinary program. -/
lemma not_ordinaryUser_of_vm (hc : InHandler c)
    (hvm : (uregAt m p).eflags.getLsbD vmFlag = true)
    (hiret : iret T m (beforeIret m p c) = .ok c') : ¬ OrdinaryUser c' := by
  intro ho
  have hvm' : iret T m (beforeIret m p c) = iretVm m (beforeIret m p c) :=
    iret_of_vm hc.nt (by rwa [(beforeIret_reads m p c).2.2.1])
  rw [hvm'] at hiret
  unfold iretVm at hiret
  split at hiret
  · cases hiret
  · have hflags : c'.eflags = (uregAt m p).eflags := by
      rw [← Except.ok.inj hiret]
      exact (beforeIret_reads m p c).2.2.1
    have hoff := ho.vm
    rw [Cpu.flag, hflags, hvm] at hoff
    exact Bool.noConfusion hoff

/-- The context that is loaded is ordinary when the words that are not looked at are plain. -/
lemma ordinaryUser_userContext_iff (hT : UserSegments T)
    (hsafe : checkUregSafety (uregAt m p) = 0) :
    OrdinaryUser (userContext T m p c) ↔ PlainRest (uregAt m p) := by
  obtain ⟨hds, hss, hcs, heip, hesp, hflags⟩ := (checkUregSafety_eq_safe_iff _).mp hsafe
  obtain ⟨-, -, -, hif, h12, h13⟩ := (checkEflagsSafety_eq_safe_iff _).mp hflags
  constructor
  · intro h
    exact ⟨eq_userDs_of_keepData h.es, eq_userDs_of_keepData h.fs, eq_userDs_of_keepData h.gs,
      h.vm, h.nt⟩
  · intro h
    have keeps : ∀ {w : Word}, Selector.ofWord w = Selector.ofWord segselUserDs →
        keepData T 3 (Selector.ofWord w) = Selector.ofWord segselUserDs := by
      intro w hw
      rw [hw, hT.keepData]
    exact
      { cpl := rfl
        cs := congrArg Selector.ofWord hcs
        ss := congrArg Selector.ofWord hss
        ds := keeps (congrArg Selector.ofWord hds)
        es := keeps h.es
        fs := keeps h.fs
        gs := keeps h.gs
        eip := heip
        esp := hesp
        interrupts := hif
        iopl := ⟨h12, h13⟩
        vm := h.vm
        nt := h.nt }

/-- **Which accepted words give an ordinary user context**: those whose `es`, `fs` and `gs`
name the user data segment and whose flags have neither the virtual-8086 nor the nested-task
bit, that is, whose unchecked words are plain. -/
theorem ordinaryUser_iff (hT : UserSegments T) (hc : InHandler c)
    (hsafe : checkUregSafety (uregAt m p) = 0) :
    (∃ c', restoreContext T m (p + 8) c = .ok c' ∧ OrdinaryUser c') ↔
      PlainRest (uregAt m p) := by
  obtain ⟨hds, hss, hcs, -⟩ := (checkUregSafety_eq_safe_iff _).mp hsafe
  constructor
  · rintro ⟨c', hrun, ho⟩
    obtain ⟨-, -, -, -, hiret⟩ := restoreContext_eq_ok_iff.mp hrun
    cases hvm : (uregAt m p).eflags.getLsbD vmFlag with
    | true => exact absurd ho (not_ordinaryUser_of_vm hc hvm hiret)
    | false =>
      rw [iret_user hT hc hcs hss hvm] at hiret
      rw [← Except.ok.inj hiret] at ho
      exact (ordinaryUser_userContext_iff hT hsafe).mp ho
  · intro h
    refine ⟨userContext T m p c, restoreContext_eq_ok_iff.mpr ?_,
      (ordinaryUser_userContext_iff hT hsafe).mpr h⟩
    rw [hds, h.es, h.fs, h.gs]
    exact ⟨hT.checkData hc, hT.checkData hc, hT.checkData hc, hT.checkData hc,
      iret_user hT hc hcs hss h.vm⟩

/-! ### Two contexts -/

/-- The tables of the headers: the kernel's code and data, and those of user programs. -/
def flatTables : Tables := fun n =>
  if n = 4 then some ⟨.code false true, 0, true, 0xFFFFFFFF⟩
  else if n = 6 then some ⟨.data true, 0, true, 0xFFFFFFFF⟩
  else if n = 8 then some ⟨.code false true, 3, true, 0xFFFFFFFF⟩
  else if n = 10 then some ⟨.data true, 3, true, 0xFFFFFFFF⟩
  else none

/-- The registers in a handler. -/
def handlerCpu : Cpu :=
  ⟨0, 0x100000, 0x200000, 0x202, 0x10, 0x18, 0x2b, 0x2b, 0x2b, 0x2b, 0, 0, 0, 0, 0, 0, 0⟩

/-- A memory with a `ureg_t` at 0x1000000 whose `es` and whose flags are given. -/
def uregMemory (es eflags : Word) : Word → Word := fun a =>
  if a = 0x1000008 then 0x2b
  else if a = 0x100000c then es
  else if a = 0x1000010 ∨ a = 0x1000014 then 0x2b
  else if a = 0x100003c ∨ a = 0x1000048 then 0x1000100
  else if a = 0x1000040 then 0x23
  else if a = 0x1000044 then eflags
  else if a = 0x100004c then 0x2b
  else 0

lemma userSegments_flatTables : UserSegments flatTables := ⟨⟨true, rfl⟩, rfl⟩

lemma inHandler_handlerCpu : InHandler handlerCpu := ⟨rfl, by decide⟩

theorem ordinaryUser_iff_plain :
    UserSegments flatTables ∧ InHandler handlerCpu ∧
      checkUregSafety (uregAt (uregMemory 0x2b 0x202) 0x1000000) = 0 ∧
      ∃ c', restoreContext flatTables (uregMemory 0x2b 0x202) (0x1000000 + 8) handlerCpu = .ok c' ∧
        OrdinaryUser c' :=
  ⟨userSegments_flatTables, inHandler_handlerCpu, by decide,
    (ordinaryUser_iff userSegments_flatTables inHandler_handlerCpu (by decide)).mpr
      ⟨rfl, rfl, rfl, by decide, by decide⟩⟩

/-- With a null `es` and the nested-task flag, which the checks accept, a context is loaded
that is not one of an ordinary program: `es` is null in it, and the flag is set. -/
theorem not_ordinaryUser_nullEs :
    checkUregSafety (uregAt (uregMemory 0 0x4202) 0x1000000) = 0 ∧
      ∃ c', restoreContext flatTables (uregMemory 0 0x4202) (0x1000000 + 8) handlerCpu = .ok c' ∧
        c'.es = 0 ∧ c'.flag ntFlag = true ∧ ¬ OrdinaryUser c' := by
  refine ⟨by decide, userContext flatTables (uregMemory 0 0x4202) 0x1000000 handlerCpu, ?_, ?_, ?_,
    ?_⟩
  · have hdata := userSegments_flatTables.checkData inHandler_handlerCpu
    exact restoreContext_eq_ok_iff.mpr ⟨hdata, rfl, hdata, hdata,
      iret_user userSegments_flatTables inHandler_handlerCpu rfl rfl (by decide)⟩
  · rfl
  · decide
  · intro h
    exact absurd h.nt (by decide)

end ShrekOS
