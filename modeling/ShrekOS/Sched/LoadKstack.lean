/-
The stack of a new thread: `load_kstack` of `kern/scheduler/tcb.c`, and what `restore_context`
loads from it.

* `loadKstack`: the 18 words, from the registers of the parent or from the defaults;
* `loadContext`: what `restore_context` takes from a stack when the processor accepts it, and
  `restoreContext_loads`;
* `childContext`: the registers of the parent, with 0 in `eax`;
* `loadKstack_child_iff`: **when the new thread starts with them**.
-/
import ShrekOS.Handlers.Swexn
import ShrekOS.Lib.Asm

namespace ShrekOS

open Kit Kit.Ring

/-! ### The indices of `tcb.h` -/

/-- `SS_IDX`. -/
def ssIdx : ℕ := 17

/-- `ESP_IDX`. -/
def espIdx : ℕ := 16

/-- `EFLAGS_IDX`. -/
def eflagsIdx : ℕ := 15

/-- `CS_IDX`. -/
def csIdx : ℕ := 14

/-- `EIP_IDX`. -/
def eipIdx : ℕ := 13

/-- `ECX_IDX`. -/
def ecxIdx : ℕ := 10

/-- `EDX_IDX`. -/
def edxIdx : ℕ := 9

/-- `EBX_IDX`. -/
def ebxIdx : ℕ := 8

/-- `EBP_IDX`. -/
def ebpIdx : ℕ := 6

/-- `ESI_IDX`. -/
def esiIdx : ℕ := 5

/-- `EDI_IDX`. -/
def ediIdx : ℕ := 4

/-- `GS_IDX`. -/
def gsIdx : ℕ := 3

/-- `FS_IDX`. -/
def fsIdx : ℕ := 2

/-- `ES_IDX`. -/
def esIdx : ℕ := 1

/-- `DS_IDX`. -/
def dsIdx : ℕ := 0

/-! ### The stack -/

/-- What `load_kstack` reads of a pcb, and what `get_user_eflags` returns. -/
structure Start where
  stackTop : Word
  entryPoint : Word
  userEflags : Word

/-- What `load_kstack` writes: the memory, and three fields of the tcb. -/
structure KStack where
  mem : Word → Word
  kStackTop : Word
  origKStack : Word
  tmpKStack : Word

/-- `regs == NULL ? d : regs[i]`. -/
def savedOr (regs : Option (ℕ → Word)) (d : Word) (i : ℕ) : Word :=
  match regs with
  | none => d
  | some r => r i

/-- `k_stack_top[-i] = w`. -/
def storeBelow (top : Word) (i : ℕ) (w : Word) (m : Word → Word) : Word → Word :=
  Function.update m (top - 4 * BitVec.ofNat 32 i) w

/-- `load_kstack`. -/
def loadKstack (s : Start) (kStackTop : Word) (regs : Option (ℕ → Word)) (m : Word → Word) :
    KStack :=
  let m := storeBelow kStackTop 1 (savedOr regs segselUserDs ssIdx) m
  let m := storeBelow kStackTop 2 (savedOr regs s.stackTop espIdx) m
  let m := storeBelow kStackTop 3 (savedOr regs s.userEflags eflagsIdx) m
  let m := storeBelow kStackTop 4 (savedOr regs segselUserCs csIdx) m
  let m := storeBelow kStackTop 5 (savedOr regs s.entryPoint eipIdx) m
  let m := storeBelow kStackTop 6 0 m
  let m := storeBelow kStackTop 7 0 m
  let m := storeBelow kStackTop 8 (savedOr regs 0 ecxIdx) m
  let m := storeBelow kStackTop 9 (savedOr regs 0 edxIdx) m
  let m := storeBelow kStackTop 10 (savedOr regs 0 ebxIdx) m
  let m := storeBelow kStackTop 11 0 m
  let m := storeBelow kStackTop 12 (savedOr regs s.stackTop ebpIdx) m
  let m := storeBelow kStackTop 13 (savedOr regs 0 esiIdx) m
  let m := storeBelow kStackTop 14 (savedOr regs 0 ediIdx) m
  let m := storeBelow kStackTop 15 (savedOr regs segselUserDs dsIdx) m
  let m := storeBelow kStackTop 16 (savedOr regs segselUserDs esIdx) m
  let m := storeBelow kStackTop 17 (savedOr regs segselUserDs fsIdx) m
  let m := storeBelow kStackTop 18 (savedOr regs segselUserDs gsIdx) m
  { mem := m
    kStackTop := kStackTop
    origKStack := kStackTop - 4 * 18
    tmpKStack := kStackTop - 4 * 18 }

/-- The words of a new stack, from its top. -/
lemma loadKstack_stacked (s : Start) (top : Word) (regs : Option (ℕ → Word)) (m : Word → Word) :
    Stacked (loadKstack s top regs m).mem (loadKstack s top regs m).origKStack
      [savedOr regs segselUserDs gsIdx, savedOr regs segselUserDs fsIdx,
        savedOr regs segselUserDs esIdx, savedOr regs segselUserDs dsIdx,
        savedOr regs 0 ediIdx, savedOr regs 0 esiIdx, savedOr regs s.stackTop ebpIdx, 0,
        savedOr regs 0 ebxIdx, savedOr regs 0 edxIdx, savedOr regs 0 ecxIdx, 0, 0,
        savedOr regs s.entryPoint eipIdx, savedOr regs segselUserCs csIdx,
        savedOr regs s.userEflags eflagsIdx, savedOr regs s.stackTop espIdx,
        savedOr regs segselUserDs ssIdx] := by
  have hstore : ∀ (i : ℕ) (w : Word) (m : Word → Word) (ws : List Word),
      Stacked m (top - 4 * BitVec.ofNat 32 i) ws → ws.length = i → i < 18 →
      Stacked (storeBelow top (i + 1) w m) (top - 4 * BitVec.ofNat 32 (i + 1)) (w :: ws) := by
    intro i w m ws h hlen hi
    exact h.store (by bv_omega) (by omega) w
  have h0 : Stacked m (top - 4 * BitVec.ofNat 32 0) [] := trivial
  repeat' refine hstore _ _ _ _ ?_ rfl (by decide)
  exact h0

/-! ### What is loaded from it -/

/-- `pop` of a data segment register that the processor does not refuse. -/
def loadSeg (m : Word → Word) (r : SegReg) (c : Cpu) : Cpu :=
  { c.setSeg (Selector.ofWord (m c.esp)) r with esp := c.esp + 4 }

/-- `iret` to an outer level, when the processor does not refuse it. -/
def loadIret (m : Word → Word) (c : Cpu) : Cpu :=
  { c with
    cpl := rpl (Selector.ofWord (m (c.esp + 4)))
    eip := m c.esp
    cs := Selector.ofWord (m (c.esp + 4))
    eflags := m (c.esp + 8)
    esp := m (c.esp + 12)
    ss := Selector.ofWord (m (c.esp + 16)) }

/-- What the instructions of `restore_context` take from the stack, one after the other. -/
def loadContext (m : Word → Word) (sp : Word) (c : Cpu) : Cpu :=
  let c := loadSeg m .ds { c with esp := sp }
  let c := loadSeg m .es c
  let c := loadSeg m .fs c
  let c := loadSeg m .gs c
  let c := popa m c
  loadIret m { c with esp := c.esp + 4 }

/-- A return to an outer level takes the segments of a more privileged one out of the data
segment registers. -/
def keepAll (T : Ring.Tables) (c : Cpu) : Cpu :=
  { c with
    ds := keepData T c.cpl c.ds
    es := keepData T c.cpl c.es
    fs := keepData T c.cpl c.fs
    gs := keepData T c.cpl c.gs }

/-- An `iret` that succeeds has found a code segment. -/
lemma checkCode_of_iret {T : Ring.Tables} {m : Word → Word} {c c' : Cpu}
    (hnt : c.flag ntFlag = false)
    (hvm : (m (c.esp + 8)).getLsbD vmFlag = false) (h : iret T m c = .ok c') :
    ∃ d, checkCode T (Selector.ofWord (m (c.esp + 4))) = .ok d := by
  unfold iret at h
  rw [hnt, hvm] at h
  cases hd : checkCode T (Selector.ofWord (m (c.esp + 4))) with
  | error e =>
      simp only [hd, Bool.false_eq_true, if_false, bind, Except.bind] at h
      cases h
  | ok d => exact ⟨d, rfl⟩

/-- **A return to an outer level that succeeds** loads what is on the stack. -/
lemma iret_loads {T : Ring.Tables} {m : Word → Word} {c c' : Cpu} (hnt : c.flag ntFlag = false)
    (hvm : (m (c.esp + 8)).getLsbD vmFlag = false)
    (hout : rpl (Selector.ofWord (m (c.esp + 4))) ≠ 0) (h : iret T m c = .ok c') :
    c' = keepAll T (loadIret m c) := by
  obtain ⟨d, hd⟩ := checkCode_of_iret hnt hvm h
  rw [iret_of_outer hnt hvm rfl hd hout] at h
  exact (iretOuter_eq_ok_iff.mp h).2.2

/-- The pops before the `iret`. -/
lemma loadContext_eq (m : Word → Word) (p : Word) (c : Cpu) :
    loadContext m (p + 8) c = loadIret m (beforeIret m p c) := by
  simp only [loadContext, loadSeg, popa, Cpu.setSeg, beforeIret, uregAt, BitVec.add_assoc,
    BitVec.reduceAdd, BitVec.ofNat_eq_ofNat]

/-- **What `restore_context` loads**: if the processor goes through with it, and it is a
return to an outer level, the registers hold what was taken from the stack. -/
theorem restoreContext_loads {T : Ring.Tables} {m : Word → Word} {sp : Word} {c c' : Cpu}
    (hnt : c.flag ntFlag = false) (hvm : (loadContext m sp c).flag vmFlag = false)
    (hout : (loadContext m sp c).cpl ≠ 0) (h : restoreContext T m sp c = .ok c') :
    c' = keepAll T (loadContext m sp c) := by
  obtain ⟨p, rfl⟩ : ∃ p : Word, sp = p + 8 := ⟨sp - 8, (BitVec.sub_add_cancel sp 8).symm⟩
  rw [loadContext_eq] at hvm hout ⊢
  exact iret_loads hnt hvm hout (restoreContext_eq_ok_iff.mp h).2.2.2.2

/-- The context of the parent, with 0 in `eax`. -/
def childContext (regs : ℕ → Word) : Cpu where
  cpl := rpl (Selector.ofWord (regs csIdx))
  eip := regs eipIdx
  esp := regs espIdx
  eflags := regs eflagsIdx
  cs := Selector.ofWord (regs csIdx)
  ss := Selector.ofWord (regs ssIdx)
  ds := Selector.ofWord (regs dsIdx)
  es := Selector.ofWord (regs esIdx)
  fs := Selector.ofWord (regs fsIdx)
  gs := Selector.ofWord (regs gsIdx)
  edi := regs ediIdx
  esi := regs esiIdx
  ebp := regs ebpIdx
  ebx := regs ebxIdx
  edx := regs edxIdx
  ecx := regs ecxIdx
  eax := 0

/-- What is loaded from the stack of a child: the four data selectors of the parent in the
reverse order. -/
lemma loadContext_loadKstack (s : Start) (top : Word) (regs : ℕ → Word) (m : Word → Word)
    (c : Cpu) :
    loadContext (loadKstack s top (some regs) m).mem (loadKstack s top (some regs) m).origKStack c =
      { childContext regs with
        ds := Selector.ofWord (regs gsIdx)
        es := Selector.ofWord (regs fsIdx)
        fs := Selector.ofWord (regs esIdx)
        gs := Selector.ofWord (regs dsIdx) } := by
  have h := loadKstack_stacked s top (some regs) m
  generalize (loadKstack s top (some regs) m).mem = mem at h
  generalize (loadKstack s top (some regs) m).origKStack = sp at h
  simp only [stacked_cons, savedOr, stacked_nil, and_true, BitVec.add_assoc, BitVec.reduceAdd,
    BitVec.ofNat_eq_ofNat] at h
  simp [loadContext, loadSeg, loadIret, popa, Cpu.setSeg, childContext, BitVec.add_assoc, h]

/-- **When a new thread starts with the registers of its parent**: `load_kstack` writes the four
data selectors in the order opposite to the one in which they are popped, so `ds` and `gs` hold
one selector and `es` and `fs` hold one selector. -/
theorem loadKstack_child_iff (s : Start) (top : Word) (regs : ℕ → Word) (m : Word → Word)
    (c : Cpu) :
    loadContext (loadKstack s top (some regs) m).mem (loadKstack s top (some regs) m).origKStack c =
        childContext regs ↔
      Selector.ofWord (regs gsIdx) = Selector.ofWord (regs dsIdx) ∧
        Selector.ofWord (regs fsIdx) = Selector.ofWord (regs esIdx) := by
  rw [loadContext_loadKstack]
  constructor
  · intro h
    exact ⟨congrArg Cpu.ds h, congrArg Cpu.es h⟩
  · rintro ⟨hgs, hfs⟩
    simp only [childContext, hgs, hfs]

/-- A parent with no segment in `gs`. -/
def bareParent : ℕ → Word := fun i =>
  if i = csIdx then segselUserCs
  else if i = eflagsIdx then 0x202
  else if i = gsIdx then 0
  else if i ≤ fsIdx ∨ i = ssIdx then segselUserDs
  else 0x1000000

/-- **A thread that starts without a data segment**: its parent had none in `gs`. -/
theorem not_loadKstack_child : ∃ (s : Start) (top : Word) (m : Word → Word) (c : Cpu),
    (loadContext (loadKstack s top (some bareParent) m).mem
        (loadKstack s top (some bareParent) m).origKStack c).ds = 0 ∧
      (childContext bareParent).ds = Selector.ofWord segselUserDs ∧
      loadContext (loadKstack s top (some bareParent) m).mem
        (loadKstack s top (some bareParent) m).origKStack c ≠ childContext bareParent := by
  refine ⟨⟨0, 0, 0⟩, 0x100000, fun _ => 0, childContext bareParent, ?_, rfl, fun h => ?_⟩
  · rw [loadContext_loadKstack]
    rfl
  · rw [loadContext_loadKstack] at h
    exact absurd (congrArg Cpu.ds h) (by decide)

end ShrekOS
