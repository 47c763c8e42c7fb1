/-
The way out of the kernel of an x86: the registers that its last instructions load, with the
checks that the processor makes.

* `Descriptor`, `Tables`: segments and the tables that a selector looks them up in;
* `popSeg`, `popa`, `iret`: `pop` of a data segment register, `popa`, and `iret` at privilege
  level 0 (back to the same level, to an outer level, or to virtual-8086 mode);
* `popSeg_eq_ok_iff`: a data segment register holds what was popped, or there was a fault;
* `iretOuter_eq_ok_iff`: **when a return to an outer level succeeds**, and with what.

A memory is read by double words; `esp` wraps around at 2^32.
-/
import Mathlib.Tactic

namespace Kit

/-- A double word. -/
abbrev Word := BitVec 32

/-- A segment selector: a requested privilege level, the choice of a table, and an index. -/
abbrev Selector := BitVec 16

namespace Ring

/-- What a segment is. -/
inductive SegKind where
  | code (conforming readable : Bool)
  | data (writable : Bool)
  | system

/-- An entry of a descriptor table; `limit` is the last offset in the segment. -/
structure Descriptor where
  kind : SegKind
  dpl : ℕ
  present : Bool
  limit : Word

/-- The descriptor tables, by the bits of a selector above its requested privilege level. -/
abbrev Tables := ℕ → Option Descriptor

/-- The requested privilege level of a selector. -/
def rpl (s : Selector) : ℕ := s.toNat % 4

/-- The entry that a selector names; none for the null selectors and past the tables. -/
def lookup (T : Tables) (s : Selector) : Option Descriptor :=
  if s.toNat / 4 = 0 then none else T (s.toNat / 4)

/-- What the processor raises instead of going on. -/
inductive CpuFault where
  | generalProtection
  | notPresent
  | stackFault
  | nestedTask
  deriving DecidableEq

/-- The registers that a context consists of. -/
structure Cpu where
  cpl : ℕ
  eip : Word
  esp : Word
  eflags : Word
  cs : Selector
  ss : Selector
  ds : Selector
  es : Selector
  fs : Selector
  gs : Selector
  edi : Word
  esi : Word
  ebp : Word
  ebx : Word
  edx : Word
  ecx : Word
  eax : Word

/-- A bit of the flags. -/
def Cpu.flag (c : Cpu) (n : ℕ) : Bool := c.eflags.getLsbD n

/-- The selector in the lower half of a double word. -/
def Selector.ofWord (w : Word) : Selector := w.truncate 16

/-- A data segment register takes a selector at level `cpl`, or the processor refuses. -/
def checkData (T : Tables) (cpl : ℕ) (s : Selector) : Except CpuFault Unit :=
  if s.toNat / 4 = 0 then .ok () else
  match lookup T s with
  | none => .error .generalProtection
  | some d =>
    match d.kind with
    | .system | .code _ false => .error .generalProtection
    | .code true true => if d.present then .ok () else .error .notPresent
    | .code false true | .data _ =>
      if d.dpl < max cpl (rpl s) then .error .generalProtection
      else if d.present then .ok () else .error .notPresent

/-- The data segment registers that `pop` loads. -/
inductive SegReg where
  | ds | es | fs | gs

/-- A data segment register is written. -/
def Cpu.setSeg (c : Cpu) (s : Selector) : SegReg → Cpu
  | .ds => { c with ds := s }
  | .es => { c with es := s }
  | .fs => { c with fs := s }
  | .gs => { c with gs := s }

/-- `pop` of a data segment register. -/
def popSeg (T : Tables) (m : Word → Word) (r : SegReg) (c : Cpu) : Except CpuFault Cpu := do
  checkData T c.cpl (Selector.ofWord (m c.esp))
  pure { c.setSeg (Selector.ofWord (m c.esp)) r with esp := c.esp + 4 }

/-- `popa`; the word for `esp` is skipped. -/
def popa (m : Word → Word) (c : Cpu) : Cpu :=
  { c with
    edi := m c.esp
    esi := m (c.esp + 4)
    ebp := m (c.esp + 8)
    ebx := m (c.esp + 16)
    edx := m (c.esp + 20)
    ecx := m (c.esp + 24)
    eax := m (c.esp + 28)
    esp := c.esp + 32 }

/-- A code segment that `iret` at level 0 may return to. -/
def checkCode (T : Tables) (s : Selector) : Except CpuFault Descriptor :=
  match lookup T s with
  | none => .error .generalProtection
  | some d =>
    match d.kind with
    | .code conforming _ =>
      if (if conforming then rpl s < d.dpl else d.dpl ≠ rpl s) then .error .generalProtection
      else if d.present then .ok d else .error .notPresent
    | _ => .error .generalProtection

/-- A stack segment for level `cpl`. -/
def checkStack (T : Tables) (cpl : ℕ) (s : Selector) : Except CpuFault Unit :=
  match lookup T s with
  | none => .error .generalProtection
  | some d =>
    match d.kind with
    | .data true =>
      if rpl s ≠ cpl ∨ d.dpl ≠ cpl then .error .generalProtection
      else if d.present then .ok () else .error .stackFault
    | _ => .error .generalProtection

/-- What a data segment register holds after a return to level `cpl`: a segment of a more
privileged level is not left in it. -/
def keepData (T : Tables) (cpl : ℕ) (s : Selector) : Selector :=
  match lookup T s with
  | none => 0
  | some d =>
    match d.kind with
    | .code true _ => s
    | _ => if d.dpl < cpl then 0 else s

/-- The nested-task flag. -/
def ntFlag : ℕ := 14

/-- The virtual-8086 flag. -/
def vmFlag : ℕ := 17

/-- `iret` to virtual-8086 mode: the other segment registers are on the stack too. -/
def iretVm (m : Word → Word) (c : Cpu) : Except CpuFault Cpu :=
  if 0xFFFF < (m c.esp).toNat then .error .generalProtection else
  .ok { c with
    cpl := 3
    eip := m c.esp
    cs := Selector.ofWord (m (c.esp + 4))
    eflags := m (c.esp + 8)
    esp := m (c.esp + 12)
    ss := Selector.ofWord (m (c.esp + 16))
    es := Selector.ofWord (m (c.esp + 20))
    ds := Selector.ofWord (m (c.esp + 24))
    fs := Selector.ofWord (m (c.esp + 28))
    gs := Selector.ofWord (m (c.esp + 32)) }

/-- `iret` to an outer level: the stack is switched, and the data segments are looked at. -/
def iretOuter (T : Tables) (m : Word → Word) (cs : Selector) (d : Descriptor) (c : Cpu) :
    Except CpuFault Cpu := do
  checkStack T (rpl cs) (Selector.ofWord (m (c.esp + 16)))
  if d.limit < m c.esp then throw .generalProtection
  pure { c with
    cpl := rpl cs
    eip := m c.esp
    cs := cs
    eflags := m (c.esp + 8)
    esp := m (c.esp + 12)
    ss := Selector.ofWord (m (c.esp + 16))
    ds := keepData T (rpl cs) c.ds
    es := keepData T (rpl cs) c.es
    fs := keepData T (rpl cs) c.fs
    gs := keepData T (rpl cs) c.gs }

/-- `iret` within level 0. -/
def iretSame (m : Word → Word) (cs : Selector) (d : Descriptor) (c : Cpu) :
    Except CpuFault Cpu := do
  if d.limit < m c.esp then throw .generalProtection
  pure { c with
    eip := m c.esp
    cs := cs
    eflags := m (c.esp + 8)
    esp := c.esp + 12 }

/-- `iret` at level 0. -/
def iret (T : Tables) (m : Word → Word) (c : Cpu) : Except CpuFault Cpu :=
  if c.flag ntFlag then .error .nestedTask
  else if (m (c.esp + 8)).getLsbD vmFlag then iretVm m c
  else do
    let cs := Selector.ofWord (m (c.esp + 4))
    let d ← checkCode T cs
    if rpl cs = 0 then iretSame m cs d c else iretOuter T m cs d c

/-! ### What is loaded -/

variable {T : Tables} {m : Word → Word} {c c' : Cpu} {s : Selector}

/-- `pop` of a data segment register: the processor accepts the selector, and the register
holds it. -/
lemma popSeg_eq_ok_iff {r : SegReg} : popSeg T m r c = .ok c' ↔
    checkData T c.cpl (Selector.ofWord (m c.esp)) = .ok () ∧
      c' = { c.setSeg (Selector.ofWord (m c.esp)) r with esp := c.esp + 4 } := by
  unfold popSeg
  cases checkData T c.cpl (Selector.ofWord (m c.esp)) with
  | error e => simp [bind, Except.bind]
  | ok u => simp [bind, Except.bind, pure, Except.pure, eq_comm]

/-- A data segment register takes a writable or read-only data segment that is present and
not more privileged than the code and the selector. -/
lemma checkData_ok {d : Descriptor} {w : Bool} (hs : lookup T s = some d)
    (hk : d.kind = .data w) (hp : d.present = true) {cpl : ℕ} (hc : cpl ≤ d.dpl)
    (hr : rpl s ≤ d.dpl) : checkData T cpl s = .ok () := by
  unfold checkData
  rw [hs]
  simp [hk, hp, hc, hr]

/-- A return leaves a register alone whose segment the outer level may use. -/
lemma keepData_of_dpl {d : Descriptor} (hs : lookup T s = some d) {cpl : ℕ}
    (hc : cpl ≤ d.dpl) : keepData T cpl s = s := by
  have h : ¬ d.dpl < cpl := not_lt.mpr hc
  unfold keepData
  rw [hs]
  rcases hk : d.kind with ⟨_ | _, _⟩ | _ | _ <;> simp [hk, h]

/-- What a return leaves in a data segment register is what was there, or nothing. -/
lemma keepData_eq_or (T : Tables) (cpl : ℕ) (s : Selector) :
    keepData T cpl s = s ∨ keepData T cpl s = 0 := by
  unfold keepData
  rcases lookup T s with _ | d
  · exact .inr rfl
  · rcases hk : d.kind with ⟨_ | _, _⟩ | _ | _ <;> simp only [hk] <;> grind

/-- A code segment that `iret` may return to: present, and of the level asked for. -/
lemma checkCode_ok {d : Descriptor} {r : Bool} (hs : lookup T s = some d)
    (hk : d.kind = .code false r) (hp : d.present = true) (hr : d.dpl = rpl s) :
    checkCode T s = .ok d := by
  unfold checkCode
  rw [hs]
  simp [hk, hp, hr]

/-- A stack segment: writable, present, and of the level of the code. -/
lemma checkStack_ok {d : Descriptor} {cpl : ℕ} (hs : lookup T s = some d)
    (hk : d.kind = .data true) (hp : d.present = true) (hd : d.dpl = cpl)
    (hr : rpl s = cpl) : checkStack T cpl s = .ok () := by
  unfold checkStack
  rw [hs]
  simp [hk, hp, hd, hr]

/-- `iret` with the virtual-8086 flag on the stack. -/
lemma iret_of_vm (hnt : c.flag ntFlag = false)
    (hvm : (m (c.esp + 8)).getLsbD vmFlag = true) : iret T m c = iretVm m c := by
  unfold iret
  rw [hnt, hvm]
  rfl

/-- `iret` with a code segment of an outer level on the stack. -/
lemma iret_of_outer {d : Descriptor} (hnt : c.flag ntFlag = false)
    (hvm : (m (c.esp + 8)).getLsbD vmFlag = false)
    (hcs : Selector.ofWord (m (c.esp + 4)) = s) (hd : checkCode T s = .ok d)
    (hr : rpl s ≠ 0) : iret T m c = iretOuter T m s d c := by
  unfold iret
  rw [hnt, hvm]
  simp only [hcs, hd, Bool.false_eq_true, if_false, bind, Except.bind, hr]

/-- `iret` with a code segment of level 0 on the stack. -/
lemma iret_of_same {d : Descriptor} (hnt : c.flag ntFlag = false)
    (hvm : (m (c.esp + 8)).getLsbD vmFlag = false)
    (hcs : Selector.ofWord (m (c.esp + 4)) = s) (hd : checkCode T s = .ok d)
    (hr : rpl s = 0) : iret T m c = iretSame m s d c := by
  unfold iret
  rw [hnt, hvm]
  simp only [hcs, hd, Bool.false_eq_true, if_false, bind, Except.bind, hr, if_true]

/-- **A return within level 0**, in a flat code segment: three words are popped. -/
lemma iretSame_flat {d : Descriptor} (hd : d.limit = 0xFFFFFFFF) :
    iretSame m s d c = .ok { c with
      eip := m c.esp
      cs := s
      eflags := m (c.esp + 8)
      esp := c.esp + 12 } := by
  have hle : ¬ d.limit < m c.esp := by
    rw [hd]
    bv_omega
  unfold iretSame
  simp [hle, pure, Except.pure]

/-- **A return to an outer level**: the stack segment is one of that level, the offset is in
the code segment, and the context is the one on the stack. -/
theorem iretOuter_eq_ok_iff {cs : Selector} {d : Descriptor} :
    iretOuter T m cs d c = .ok c' ↔
      checkStack T (rpl cs) (Selector.ofWord (m (c.esp + 16))) = .ok () ∧
      m c.esp ≤ d.limit ∧
      c' = { c with
        cpl := rpl cs
        eip := m c.esp
        cs := cs
        eflags := m (c.esp + 8)
        esp := m (c.esp + 12)
        ss := Selector.ofWord (m (c.esp + 16))
        ds := keepData T (rpl cs) c.ds
        es := keepData T (rpl cs) c.es
        fs := keepData T (rpl cs) c.fs
        gs := keepData T (rpl cs) c.gs } := by
  unfold iretOuter
  cases checkStack T (rpl cs) (Selector.ofWord (m (c.esp + 16))) with
  | error e => simp [bind, Except.bind]
  | ok u =>
    by_cases h : d.limit < m c.esp
    · have hle : ¬ m c.esp ≤ d.limit := by simpa using h
      simp [bind, Except.bind, h, hle, throw, throwThe, MonadExceptOf.throw]
    · have hle : m c.esp ≤ d.limit := by simpa using h
      simp [bind, Except.bind, h, hle, pure, Except.pure, eq_comm]

end Ring

end Kit
