/-
The kernel-mode stubs of `kern/scheduler/thr_helpers_wrappers.S`: `thr_kern_yield` and
`thr_kern_deschedule`, with the frame they build and the two ways back to their caller.

* `thrKernCall`, `thrKernReturn`, `restoreContextCode`: the instructions before the call of
  the C function, after it, and in `restore_context`;
* `KernReturns`: the C function returns, or the thread is switched out and later resumed on
  its frame;
* `kernReturns_returned`, `kernReturns_resumed`: where the caller's stack is then;
* `Rounds`: calls one after the other, as in the loop of `mutex_lock`;
* `givesBack_iff`: **when every call gives its caller back the stack**, and `Rounds.esp`: how
  far down the stack goes otherwise.
-/
import ShrekOS.Sched.LoadKstack

namespace ShrekOS.Wrappers

open Kit Kit.Ring

/-! ### The code -/

/-- `build_iret_stack`. -/
def buildIretStack : List Instr :=
  [.mov .esp .eax, .pushSeg .ss, .add 8 .eax, .push .eax, .pushf, .pushSeg .cs, .sub 8 .eax,
    .pushAt 0 .eax]

/-- `save_regs`. -/
def saveRegs : List Instr :=
  [.sub 4 .esp, .pushImm 0, .push .ecx, .push .edx, .push .ebx, .sub 4 .esp, .push .ebp,
    .push .esi, .push .edi, .pushSeg .gs, .pushSeg .fs, .pushSeg .es, .pushSeg .ds]

/-- `restore_regs`. -/
def restoreRegs : List Instr :=
  [.popSeg .ds, .popSeg .es, .popSeg .fs, .popSeg .gs, .pop .edi, .pop .esi, .pop .ebp,
    .add 4 .esp, .pop .ebx, .pop .edx, .pop .ecx, .add 4 .esp, .add 4 .esp]

/-- The C functions that the stubs call. -/
inductive CFunction where
  | thrYield
  | thrDeschedule

/-- A stub: its code up to the call, the function it calls, and the code after it. -/
structure Stub where
  enter : List Instr
  callee : CFunction
  leave : List Instr

/-- The code up to the call: the frame, and the two arguments. -/
def thrKernCall : List Instr :=
  buildIretStack ++ saveRegs ++ [.pushAt 4 .eax, .mov .esp .eax, .add 4 .eax, .push .eax]

/-- The code after the call. -/
def thrKernReturn : List Instr := [.add 8 .esp] ++ restoreRegs ++ [.add 20 .esp, .ret]

/-- `thr_kern_deschedule`. -/
def thrKernDeschedule : Stub := ⟨thrKernCall, .thrDeschedule, thrKernReturn⟩

/-- `thr_kern_yield`. -/
def thrKernYield : Stub := ⟨thrKernCall, .thrYield, thrKernReturn⟩

/-- `restore_context` of `dispatcher/asm_helpers.S`, from its first instruction. -/
def restoreContextCode : List Instr :=
  [.movAt 4 .esp .esp, .popSeg .ds, .popSeg .es, .popSeg .fs, .popSeg .gs, .popa, .add 4 .esp,
    .iret]

variable {T : Ring.Tables} {k k' k₁ k₂ kc : Core}

/-- The instructions of `restore_context`. -/
lemma run_restoreContextCode (k : Core) : run T restoreContextCode k =
    (restoreContext T k.mem (k.mem (k.cpu.esp + 4)) k.cpu).map fun c => ⟨c, k.mem⟩ := by
  have htail : ∀ c : Cpu, run T [.popa, .add 4 .esp, .iret] ⟨c, k.mem⟩ =
      (iret T k.mem { popa k.mem c with esp := (popa k.mem c).esp + 4 }).map
        fun c => ⟨c, k.mem⟩ := fun c => run_iret
  rw [restoreContextCode, run_cons, exec, ok_bind]
  simp only [run_popSeg, restoreContext, map_bind, htail]
  rfl

/-- The state with another `eax`. -/
def withEax (k : Core) (w : Word) : Core := { k with cpu := { k.cpu with eax := w } }

lemma exec_mov_eax : exec T k (.mov .esp .eax) = .ok (withEax k k.cpu.esp) := rfl

lemma exec_add_eax (w : Word) : exec T k (.add w .eax) = .ok (withEax k (k.cpu.eax + w)) := rfl

lemma exec_sub_eax (w : Word) : exec T k (.sub w .eax) = .ok (withEax k (k.cpu.eax - w)) := rfl

lemma push_withEax (w v : Word) : (withEax k w).push v = withEax (k.push v) w := rfl

lemma withEax_withEax (w v : Word) : withEax (withEax k w) v = withEax k v := rfl

lemma withEax_eax (w : Word) : (withEax k w).cpu.eax = w := rfl

lemma withEax_get_eax (w : Word) : (withEax k w).cpu.get .eax = w := rfl

lemma withEax_seg (w : Word) (s : Seg) : (withEax k w).cpu.seg s = k.cpu.seg s := by
  cases s <;> rfl

lemma withEax_eflags (w : Word) : (withEax k w).cpu.eflags = k.cpu.eflags := rfl

lemma withEax_mem (w : Word) : (withEax k w).mem = k.mem := rfl

/-- `build_iret_stack`: the words that `iret` pops, and two more. -/
lemma run_buildIretStack (k : Core) : run T buildIretStack k =
    .ok (withEax (k.pushAll [k.mem k.cpu.esp, k.cpu.seg .cs, k.cpu.eflags, k.cpu.esp + 8,
      k.cpu.seg .ss]) k.cpu.esp) := by
  have hmem : (k.pushAll [k.cpu.seg .cs, k.cpu.eflags, k.cpu.esp + 8, k.cpu.seg .ss]).mem
      k.cpu.esp = k.mem k.cpu.esp :=
    k.pushAll_mem _ fun i hi => by
      rw [List.length_cons, List.length_cons, List.length_cons, List.length_cons,
        List.length_nil] at hi
      bv_omega
  have heax : k.cpu.esp + 8 - 8 = k.cpu.esp := BitVec.add_sub_cancel _ _
  have hzero : k.cpu.esp + 0 = k.cpu.esp := BitVec.add_zero _
  simp only [buildIretStack, run_cons, run_nil, exec_mov_eax, exec_pushSeg, exec_add_eax, exec_push,
    exec_pushf, exec_sub_eax, exec_pushAt, ok_bind, push_withEax, withEax_withEax, withEax_eax,
    withEax_get_eax, withEax_seg, withEax_eflags, withEax_mem, Core.push_seg, Core.push_eflags,
    heax, hzero]
  rw [Core.pushAll_cons, ← hmem]
  rfl

/-- `save_regs`. -/
lemma run_saveRegs (k : Core) : ∃ x y, run T saveRegs k =
    .ok (k.pushAll [k.cpu.seg .ds, k.cpu.seg .es, k.cpu.seg .fs, k.cpu.seg .gs, k.cpu.edi,
      k.cpu.esi, k.cpu.ebp, x, k.cpu.ebx, k.cpu.edx, k.cpu.ecx, 0, y]) := by
  have hlow : run T [.pushImm 0, .push .ecx, .push .edx, .push .ebx]
      (k.push (k.mem (k.cpu.esp - 4))) = .ok ((k.push (k.mem (k.cpu.esp - 4))).pushAll
        [k.cpu.ebx, k.cpu.edx, k.cpu.ecx, 0]) := run_pushes rfl
  obtain ⟨k₁, hk₁⟩ : ∃ k₁, k₁ = (k.push (k.mem (k.cpu.esp - 4))).pushAll
      [k.cpu.ebx, k.cpu.edx, k.cpu.ecx, 0] := ⟨_, rfl⟩
  have hhigh : run T [.push .ebp, .push .esi, .push .edi, .pushSeg .gs, .pushSeg .fs, .pushSeg .es,
      .pushSeg .ds] (k₁.push (k₁.mem (k₁.cpu.esp - 4))) =
      .ok ((k₁.push (k₁.mem (k₁.cpu.esp - 4))).pushAll [k.cpu.seg .ds, k.cpu.seg .es, k.cpu.seg .fs,
        k.cpu.seg .gs, k.cpu.edi, k.cpu.esi, k.cpu.ebp]) := by
    refine run_pushes ?_
    rw [hk₁]
    rfl
  have hcode : saveRegs = .sub 4 .esp ::
      List.append [.pushImm 0, .push .ecx, .push .edx, .push .ebx] (.sub 4 .esp ::
        [.push .ebp, .push .esi, .push .edi, .pushSeg .gs, .pushSeg .fs, .pushSeg .es,
          .pushSeg .ds]) := rfl
  have hrun : run T saveRegs k = .ok ((k₁.push (k₁.mem (k₁.cpu.esp - 4))).pushAll [k.cpu.seg .ds,
      k.cpu.seg .es, k.cpu.seg .fs, k.cpu.seg .gs, k.cpu.edi, k.cpu.esi, k.cpu.ebp]) := by
    rw [hcode, run_cons, exec_skip, ok_bind, List.append_eq, run_append, hlow, ok_bind, ← hk₁,
      run_cons, exec_skip, ok_bind, hhigh]
  subst hk₁
  exact ⟨_, _, hrun⟩

/-- The frame that the stubs build below the address of the return address. -/
def kernFrame (k : Core) (x y : Word) : List Word :=
  [k.cpu.seg .ds, k.cpu.seg .es, k.cpu.seg .fs, k.cpu.seg .gs, k.cpu.edi, k.cpu.esi, k.cpu.ebp, x,
    k.cpu.ebx, k.cpu.edx, k.cpu.ecx, 0, y, k.mem k.cpu.esp, k.cpu.seg .cs, k.cpu.eflags,
    k.cpu.esp + 8, k.cpu.seg .ss]

/-- **The code up to the call**: the frame of 18 words, and two arguments below it. -/
lemma run_thrKernCall (k : Core) : ∃ x y, run T thrKernCall k =
    .ok (withEax (k.pushAll ((k.cpu.esp - 72) :: k.mem (k.cpu.esp + 4) :: kernFrame k x y))
      (k.cpu.esp - 72)) := by
  obtain ⟨x, y, hsave⟩ := run_saveRegs (T := T) (withEax (k.pushAll [k.mem k.cpu.esp,
    k.cpu.seg .cs, k.cpu.eflags, k.cpu.esp + 8, k.cpu.seg .ss]) k.cpu.esp)
  have hframe : run T saveRegs (withEax (k.pushAll [k.mem k.cpu.esp, k.cpu.seg .cs, k.cpu.eflags,
      k.cpu.esp + 8, k.cpu.seg .ss]) k.cpu.esp) =
      .ok (withEax (k.pushAll (kernFrame k x y)) k.cpu.esp) := by
    rw [hsave]
    simp only [withEax_seg, Core.pushAll_cons, Core.pushAll_nil, push_withEax, Core.push_seg,
      kernFrame]
    rfl
  refine ⟨x, y, ?_⟩
  have hmem : (k.pushAll (kernFrame k x y)).mem (k.cpu.esp + 4) = k.mem (k.cpu.esp + 4) :=
    k.pushAll_mem _ fun i hi => by
      have hlen : (kernFrame k x y).length = 18 := rfl
      rw [hlen] at hi
      bv_omega
  have hesp : (k.pushAll (k.mem (k.cpu.esp + 4) :: kernFrame k x y)).cpu.esp + 4 =
      k.cpu.esp - 72 := by
    rw [Core.pushAll_cpu]
    change k.cpu.esp - 4 * 19 + 4 = k.cpu.esp - 72
    bv_omega
  rw [thrKernCall, run_append, run_append, run_buildIretStack, ok_bind, hframe, ok_bind]
  simp only [run_cons, run_nil, exec_pushAt, exec_mov_eax, exec_add_eax, exec_push, ok_bind,
    push_withEax, withEax_get_eax, withEax_mem, withEax_withEax, withEax_eax, hmem]
  rw [Core.pushAll_cons, ← hesp]
  rfl

/-! ### The two ways back -/

/-- The processor in the kernel: at level 0 in a flat code segment, without a nested task,
and with selectors in the data segment registers that it has accepted. -/
structure KernelMode (T : Ring.Tables) (c : Cpu) : Prop where
  cpl : c.cpl = 0
  nt : c.flag ntFlag = false
  vm : c.flag vmFlag = false
  ring : rpl c.cs = 0
  code : ∃ d, checkCode T c.cs = .ok d ∧ d.limit = 0xFFFFFFFF
  ds : checkData T 0 c.ds = .ok ()
  es : checkData T 0 c.es = .ok ()
  fs : checkData T 0 c.fs = .ok ()
  gs : checkData T 0 c.gs = .ok ()

/-- `pop` of a selector that the processor accepts. -/
lemma popSeg_pushed {m : Word → Word} {c : Cpu} {r : SegReg} {s : Selector}
    (hw : m c.esp = s.zeroExtend 32) (h : checkData T c.cpl s = .ok ()) :
    popSeg T m r c = .ok { c.setSeg s r with esp := c.esp + 4 } := by
  have hs : Selector.ofWord (m c.esp) = s := by rw [hw, ofWord_zeroExtend]
  exact popSeg_eq_ok_iff.mpr ⟨by rwa [hs], by rw [hs]⟩

/-- The four data segment registers of a processor in the kernel, popped again. -/
lemma run_popSegs {code : List Instr} (k₁ : Core) (hk : KernelMode T k.cpu) (hcpl : k₁.cpu.cpl = 0)
    (hf : Stacked k₁.mem k₁.cpu.esp [k.cpu.seg .ds, k.cpu.seg .es, k.cpu.seg .fs, k.cpu.seg .gs]) :
    run T (.popSeg .ds :: .popSeg .es :: .popSeg .fs :: .popSeg .gs :: code) k₁ =
      run T code { k₁ with cpu := { k₁.cpu with
        ds := k.cpu.ds, es := k.cpu.es, fs := k.cpu.fs, gs := k.cpu.gs
        esp := k₁.cpu.esp + 4 + 4 + 4 + 4 } } := by
  obtain ⟨hds, hes, hfs, hgs, -⟩ := hf
  rw [run_popSeg, popSeg_pushed hds (hcpl ▸ hk.ds), ok_bind, run_popSeg,
    popSeg_pushed hes (hcpl ▸ hk.es), ok_bind, run_popSeg,
    popSeg_pushed hfs (hcpl ▸ hk.fs), ok_bind,
    run_popSeg, popSeg_pushed hgs (hcpl ▸ hk.gs), ok_bind]
  rfl

/-- The registers that `restore_regs` loads from the frame of a call. -/
def restored (c : Cpu) (k : Core) (sp : Word) : Cpu :=
  { c with
    ds := k.cpu.ds
    es := k.cpu.es
    fs := k.cpu.fs
    gs := k.cpu.gs
    edi := k.cpu.edi
    esi := k.cpu.esi
    ebp := k.cpu.ebp
    ebx := k.cpu.ebx
    edx := k.cpu.edx
    ecx := k.cpu.ecx
    esp := sp }

/-- `restore_regs` after its segment registers: six pops, and three words that are skipped. -/
lemma run_restoreGeneral (k : Core) :
    run T [.pop .edi, .pop .esi, .pop .ebp, .add 4 .esp, .pop .ebx,
    .pop .edx, .pop .ecx, .add 4 .esp, .add 4 .esp] k =
    .ok ⟨{ k.cpu with
      edi := k.mem k.cpu.esp
      esi := k.mem (k.cpu.esp + 4)
      ebp := k.mem (k.cpu.esp + 4 + 4)
      ebx := k.mem (k.cpu.esp + 4 + 4 + 4 + 4)
      edx := k.mem (k.cpu.esp + 4 + 4 + 4 + 4 + 4)
      ecx := k.mem (k.cpu.esp + 4 + 4 + 4 + 4 + 4 + 4)
      esp := k.cpu.esp + 4 + 4 + 4 + 4 + 4 + 4 + 4 + 4 + 4 }, k.mem⟩ := by
  obtain ⟨⟨⟩, m⟩ := k
  simp only [run_cons, exec, Cpu.set, Cpu.get, ok_bind, run_nil]

/-- `restore_regs`, on the frame of a call. -/
lemma run_restoreRegs {x y : Word} (k₁ : Core) (hk : KernelMode T k.cpu) (hcpl : k₁.cpu.cpl = 0)
    (hf : Stacked k₁.mem k₁.cpu.esp (kernFrame k x y)) :
    run T restoreRegs k₁ = .ok ⟨restored k₁.cpu k (k₁.cpu.esp + 52), k₁.mem⟩ := by
  obtain ⟨h0, h1, h2, h3, h4, h5, h6, -, h8, h9, h10, -⟩ := hf
  have hesp : k₁.cpu.esp + 52 = k₁.cpu.esp + 4 + 4 + 4 + 4 + 4 + 4 + 4 + 4 + 4 + 4 + 4 + 4 + 4 := by
    bv_omega
  rw [restoreRegs, run_popSegs k₁ hk hcpl ⟨h0, h1, h2, h3, trivial⟩, run_restoreGeneral, h4, h5, h6,
    h8, h9, h10, hesp, restored]

/-- **The code after the call**, on the frame of the call. -/
lemma run_thrKernReturn {x y : Word} (hk : KernelMode T k.cpu) (hcpl : k₁.cpu.cpl = 0)
    (hf : Stacked k₁.mem (k₁.cpu.esp + 8) (kernFrame k x y))
    (hret : k₁.mem (k₁.cpu.esp + 80) = k.mem k.cpu.esp) :
    run T thrKernReturn k₁ =
      .ok ⟨{ restored k₁.cpu k (k₁.cpu.esp + 84) with eip := k.mem k.cpu.esp }, k₁.mem⟩ := by
  have h80 : k₁.cpu.esp + 80 = k₁.cpu.esp + 8 + 52 + 20 := by bv_omega
  have h84 : k₁.cpu.esp + 84 = k₁.cpu.esp + 8 + 52 + 20 + 4 := by bv_omega
  have hregs := run_restoreRegs ⟨{ k₁.cpu with esp := k₁.cpu.esp + 8 }, k₁.mem⟩ hk hcpl hf
  rw [thrKernReturn, run_append, run_append, run_cons, exec, ok_bind, run_nil, ok_bind]
  rw [show k₁.cpu.set (k₁.cpu.get .esp + 8) .esp = { k₁.cpu with esp := k₁.cpu.esp + 8 } from rfl,
    hregs, ok_bind, ← hret, h80, h84]
  rfl

/-- **`restore_context`, on the frame of a call**: a return within level 0, which leaves two
words of the frame and the return address on the stack. -/
lemma restoreContext_kernFrame {m : Word → Word} {c : Cpu} {x y p : Word}
    (hk : KernelMode T k.cpu) (hcpl : c.cpl = 0) (hnt : c.flag ntFlag = false)
    (hf : Stacked m (p + 8) (kernFrame k x y)) :
    restoreContext T m (p + 8) c = .ok { restored c k (p + 72) with
      eax := 0
      eip := k.mem k.cpu.esp
      cs := k.cpu.cs
      eflags := k.cpu.eflags } := by
  simp only [kernFrame, stacked_cons, stacked_nil, and_true, BitVec.add_assoc, BitVec.reduceAdd,
    BitVec.ofNat_eq_ofNat] at hf
  obtain ⟨h0, h1, h2, h3, h4, h5, h6, -, h8, h9, h10, h11, -, h13, h14, h15, -, -⟩ := hf
  obtain ⟨d, hcode, hlimit⟩ := hk.code
  have hsel : ∀ {q : Word} {s : Selector}, m q = s.zeroExtend 32 → Selector.ofWord (m q) = s :=
    fun hq => by rw [hq, ofWord_zeroExtend]
  have hds : Selector.ofWord (uregAt m p).ds = k.cpu.ds := hsel h0
  have hes : Selector.ofWord (uregAt m p).es = k.cpu.es := hsel h1
  have hfs : Selector.ofWord (uregAt m p).fs = k.cpu.fs := hsel h2
  have hgs : Selector.ofWord (uregAt m p).gs = k.cpu.gs := hsel h3
  have hcs : Selector.ofWord (uregAt m p).cs = k.cpu.cs := hsel h14
  have hflags : (uregAt m p).eflags = k.cpu.eflags := h15
  obtain ⟨reip, rcs, rflags, -, -⟩ := beforeIret_reads m p c
  have hiret : iret T m (beforeIret m p c) = iretSame m k.cpu.cs d (beforeIret m p c) :=
    iret_of_same hnt (by rw [rflags, hflags]; exact hk.vm) (by rw [rcs, hcs]) hcode hk.ring
  rw [restoreContext_eq_ok_iff, hds, hes, hfs, hgs, hcpl]
  refine ⟨hk.ds, hk.es, hk.fs, hk.gs, ?_⟩
  rw [hiret, iretSame_flat hlimit, reip, rflags, hflags]
  have hesp : p + 60 + 12 = p + 72 := by bv_omega
  simp only [beforeIret, restored, hds, hes, hfs, hgs, hesp]
  simp only [uregAt, BitVec.ofNat_eq_ofNat, h4, h5, h6, h8, h9, h10, h11, h13]

/-- How a call ends for its caller. -/
inductive Outcome where
  | returned
  | resumed
  deriving DecidableEq

/-- The words on the stack above the two arguments are as they were at the call: the frame,
and the return address of the stub. -/
def KeepsFrame (kc k₁ : Core) : Prop :=
  ∀ i < 19, k₁.mem (kc.cpu.esp + 8 + 4 * BitVec.ofNat 32 i) =
    kc.mem (kc.cpu.esp + 8 + 4 * BitVec.ofNat 32 i)

/-- The C function returns; `eax`, `ecx`, `edx` and the flags are its own. -/
structure CReturns (kc k₁ : Core) : Prop where
  frame : KeepsFrame kc k₁
  cpu : k₁.cpu = { kc.cpu with
    eip := k₁.cpu.eip
    eflags := k₁.cpu.eflags
    edx := k₁.cpu.edx
    ecx := k₁.cpu.ecx
    eax := k₁.cpu.eax }
  nt : k₁.cpu.flag ntFlag = kc.cpu.flag ntFlag
  vm : k₁.cpu.flag vmFlag = kc.cpu.flag vmFlag

/-- Another thread has run, and calls `restore_context` with the `old_esp` of the call. -/
structure Resumes (kc k₁ : Core) : Prop where
  frame : KeepsFrame kc k₁
  cpl : k₁.cpu.cpl = 0
  nt : k₁.cpu.flag ntFlag = false
  oldEsp : k₁.mem (k₁.cpu.esp + 4) = kc.mem kc.cpu.esp

/-- The stub of a C function. -/
def CFunction.stub : CFunction → Stub
  | .thrYield => thrKernYield
  | .thrDeschedule => thrKernDeschedule

/-- A call of a stub, from its first instruction to the first one after it in the caller. -/
def KernReturns (T : Ring.Tables) (f : CFunction) (k k' : Core) : Outcome → Prop
  | .returned => ∃ kc k₁, run T f.stub.enter k = .ok kc ∧ CReturns kc k₁ ∧
      run T f.stub.leave k₁ = .ok k'
  | .resumed => ∃ kc k₁, run T f.stub.enter k = .ok kc ∧ Resumes kc k₁ ∧
      run T restoreContextCode k₁ = .ok k'

variable {f : CFunction} {o : Outcome} {os : List Outcome}

lemma CFunction.stub_enter (f : CFunction) : f.stub.enter = thrKernCall := by
  cases f <;> rfl

lemma CFunction.stub_leave (f : CFunction) : f.stub.leave = thrKernReturn := by
  cases f <;> rfl

/-- The state at the call of the C function: `old_esp` on the top of the stack, and the frame
above the arguments. -/
lemma enter_spec (f : CFunction) (k : Core) : ∃ kc x y, run T f.stub.enter k = .ok kc ∧
    kc.cpu = { k.cpu with eax := k.cpu.esp - 72, esp := k.cpu.esp - 80 } ∧
    kc.mem kc.cpu.esp = kc.cpu.esp + 8 ∧
    Stacked kc.mem (kc.cpu.esp + 8) (kernFrame k x y) ∧
    kc.mem (kc.cpu.esp + 80) = k.mem k.cpu.esp := by
  obtain ⟨x, y, hrun⟩ := run_thrKernCall (T := T) k
  obtain ⟨ws, hws⟩ : ∃ ws, ws = (k.cpu.esp - 72) :: k.mem (k.cpu.esp + 4) :: kernFrame k x y :=
    ⟨_, rfl⟩
  have hlen : ws.length = 20 := by
    rw [hws]
    rfl
  have hcpu := k.pushAll_cpu ws
  rw [hlen] at hcpu
  have hesp : (k.pushAll ws).cpu.esp = k.cpu.esp - 80 := by
    rw [hcpu]
    rfl
  have hmem : Stacked (k.pushAll ws).mem (k.pushAll ws).cpu.esp ws :=
    stacked_pushAll k (by rw [hlen]; decide)
  have hret : (k.pushAll ws).mem k.cpu.esp = k.mem k.cpu.esp :=
    k.pushAll_mem _ fun i hi => by
      rw [hlen] at hi
      bv_omega
  have htop : Stacked (k.pushAll ws).mem (k.pushAll ws).cpu.esp
      ((k.cpu.esp - 72) :: k.mem (k.cpu.esp + 4) :: kernFrame k x y) := by rwa [← hws]
  obtain ⟨hold, -, hframe⟩ := htop
  rw [← hws] at hrun
  refine ⟨_, x, y, f.stub_enter ▸ hrun, ?_, ?_, ?_, ?_⟩
  · rw [withEax, hcpu]
    rfl
  · change (k.pushAll ws).mem (k.pushAll ws).cpu.esp = (k.pushAll ws).cpu.esp + 8
    rw [hold, hesp]
    bv_omega
  · change Stacked (k.pushAll ws).mem ((k.pushAll ws).cpu.esp + 8) (kernFrame k x y)
    rw [BitVec.add_assoc] at hframe
    exact hframe
  · change (k.pushAll ws).mem ((k.pushAll ws).cpu.esp + 80) = k.mem k.cpu.esp
    rw [hesp, BitVec.sub_add_cancel, hret]

/-- What the caller of a stub has again afterwards. -/
structure SameSaved (k k' : Core) : Prop where
  ebp : k'.cpu.ebp = k.cpu.ebp
  ebx : k'.cpu.ebx = k.cpu.ebx
  esi : k'.cpu.esi = k.cpu.esi
  edi : k'.cpu.edi = k.cpu.edi

/-- The frame is on the stack as long as nothing of it is written. -/
lemma KeepsFrame.stacked {x y : Word} (h : KeepsFrame kc k₁)
    (hf : Stacked kc.mem (kc.cpu.esp + 8) (kernFrame k x y)) :
    Stacked k₁.mem (kc.cpu.esp + 8) (kernFrame k x y) :=
  hf.congr fun i hi => h i (Nat.lt_succ_of_lt hi)

/-- **The C function returns**: the caller has its registers and its stack again. -/
theorem kernReturns_returned (hk : KernelMode T k.cpu) (h : KernReturns T f k k' .returned) :
    k'.cpu.esp = k.cpu.esp + 4 ∧ SameSaved k k' ∧ KernelMode T k'.cpu := by
  obtain ⟨kc, k₁, henter, hret, hleave⟩ := h
  obtain ⟨kc', x, y, henter', hcpu, -, hf, hra⟩ := enter_spec (T := T) f k
  obtain rfl := Except.ok.inj (henter.symm.trans henter')
  have hesp : k₁.cpu.esp = kc.cpu.esp := by rw [hret.cpu]
  have hcpl : k₁.cpu.cpl = 0 := by
    rw [hret.cpu, hcpu]
    exact hk.cpl
  have hra' : k₁.mem (k₁.cpu.esp + 80) = k.mem k.cpu.esp := by
    have hlast := hret.frame 18 (by decide)
    rw [hesp, ← hra]
    rwa [BitVec.add_assoc] at hlast
  have hrun := run_thrKernReturn hk hcpl (hesp ▸ hret.frame.stacked hf) hra'
  rw [f.stub_leave, hrun] at hleave
  obtain rfl := Except.ok.inj hleave
  have hsp : kc.cpu.esp = k.cpu.esp - 80 := by rw [hcpu]
  refine ⟨?_, ⟨rfl, rfl, rfl, rfl⟩, ?_⟩
  · change k₁.cpu.esp + 84 = k.cpu.esp + 4
    rw [hesp, hsp]
    bv_omega
  · have hcs : k₁.cpu.cs = k.cpu.cs := by rw [hret.cpu, hcpu]
    have hflags : kc.cpu.eflags = k.cpu.eflags := by rw [hcpu]
    have hnt : k₁.cpu.flag ntFlag = false := by
      rw [hret.nt, Cpu.flag, hflags]
      exact hk.nt
    have hvm : k₁.cpu.flag vmFlag = false := by
      rw [hret.vm, Cpu.flag, hflags]
      exact hk.vm
    exact ⟨hcpl, hnt, hvm, hcs ▸ hk.ring, hcs ▸ hk.code, hk.ds, hk.es, hk.fs, hk.gs⟩

/-- **The thread is resumed on its frame**: its stack is three words below. -/
theorem kernReturns_resumed (hk : KernelMode T k.cpu) (h : KernReturns T f k k' .resumed) :
    k'.cpu.esp = k.cpu.esp - 8 ∧ SameSaved k k' ∧ KernelMode T k'.cpu := by
  obtain ⟨kc, k₁, henter, hres, hrun⟩ := h
  obtain ⟨kc', x, y, henter', hcpu, hold, hf, hra⟩ := enter_spec (T := T) f k
  obtain rfl := Except.ok.inj (henter.symm.trans henter')
  rw [run_restoreContextCode, hres.oldEsp, hold,
    restoreContext_kernFrame hk hres.cpl hres.nt (hres.frame.stacked hf)] at hrun
  obtain rfl := Except.ok.inj hrun
  have hsp : kc.cpu.esp = k.cpu.esp - 80 := by rw [hcpu]
  refine ⟨?_, ⟨rfl, rfl, rfl, rfl⟩, ?_⟩
  · change kc.cpu.esp + 72 = k.cpu.esp - 8
    rw [hsp]
    bv_omega
  · exact ⟨hres.cpl, hk.nt, hk.vm, hk.ring, hk.code, hk.ds, hk.es, hk.fs, hk.gs⟩

/-- Either way back can be taken. -/
lemma exists_kernReturns (hk : KernelMode T k.cpu) (f : CFunction) (o : Outcome) :
    ∃ k', KernReturns T f k k' o := by
  obtain ⟨kc, x, y, henter, hcpu, hold, hf, hra⟩ := enter_spec (T := T) f k
  have hcpl : kc.cpu.cpl = 0 := by
    rw [hcpu]
    exact hk.cpl
  have hnt : kc.cpu.flag ntFlag = false := by
    rw [Cpu.flag, hcpu]
    exact hk.nt
  cases o with
  | returned =>
      have hrun := run_thrKernReturn hk hcpl hf hra
      exact ⟨_, kc, kc, henter, ⟨fun _ _ => rfl, rfl, rfl, rfl⟩, f.stub_leave ▸ hrun⟩
  | resumed =>
      -- `restore_context` is called on some stack with `old_esp`: here, below the frame
      have hsuspend : Resumes kc (kc.pushAll [0, kc.cpu.esp + 8]) := by
        refine ⟨fun i hi => kc.pushAll_mem _ fun j hj => ?_, hcpl, hnt, ?_⟩
        · rw [List.length_cons, List.length_cons, List.length_nil] at hj
          bv_omega
        · obtain ⟨-, harg, -⟩ : Stacked (kc.pushAll [0, kc.cpu.esp + 8]).mem
            (kc.pushAll [0, kc.cpu.esp + 8]).cpu.esp [0, kc.cpu.esp + 8] :=
            stacked_pushAll kc (by simp)
          rw [harg, hold]
      have hrun := run_restoreContextCode (T := T) (kc.pushAll [0, kc.cpu.esp + 8])
      rw [hsuspend.oldEsp, hold,
        restoreContext_kernFrame hk hsuspend.cpl hsuspend.nt (hsuspend.frame.stacked hf)] at hrun
      exact ⟨_, kc, _, henter, hsuspend, hrun⟩

/-! ### Calls in a row -/

/-- A caller stores the argument on its stack, and calls: the return address is pushed. -/
def calling (k : Core) (arg ra : Word) : Core :=
  ({ k with mem := Function.update k.mem k.cpu.esp arg } : Core).push ra

/-- A call of a stub by its caller. -/
def Round (T : Ring.Tables) (f : CFunction) (o : Outcome) (k k' : Core) : Prop :=
  ∃ arg ra, KernReturns T f (calling k arg ra) k' o

/-- What a caller is given back: the stack it had before the call, and its registers. -/
structure GivesBack (k k' : Core) : Prop where
  esp : k'.cpu.esp = k.cpu.esp
  saved : SameSaved k k'

/-- The code of a caller between two calls, which leaves `esp` alone. -/
structure Meanwhile (T : Ring.Tables) (k k' : Core) : Prop where
  esp : k'.cpu.esp = k.cpu.esp
  kernel : KernelMode T k'.cpu

/-- Calls with the given ends, one after the other, as in the loop of `mutex_lock`. -/
inductive Rounds (T : Ring.Tables) (f : CFunction) (k : Core) : List Outcome → Core → Prop where
  | start : Rounds T f k [] k
  | round {os : List Outcome} {o : Outcome} {k₁ k₂ k₃ : Core} : Rounds T f k os k₁ →
      Round T f o k₁ k₂ → Meanwhile T k₂ k₃ → Rounds T f k (os ++ [o]) k₃

lemma KernelMode.calling (hk : KernelMode T k.cpu) (arg ra : Word) :
    KernelMode T (calling k arg ra).cpu :=
  ⟨hk.cpl, hk.nt, hk.vm, hk.ring, hk.code, hk.ds, hk.es, hk.fs, hk.gs⟩

/-- A call that returns gives everything back. -/
lemma Round.of_returned (hk : KernelMode T k.cpu) (h : Round T f .returned k k') :
    GivesBack k k' ∧ KernelMode T k'.cpu := by
  obtain ⟨arg, ra, hret⟩ := h
  obtain ⟨hesp, hsaved, hk'⟩ := kernReturns_returned (hk.calling arg ra) hret
  exact ⟨⟨hesp.trans (BitVec.sub_add_cancel _ _), ⟨hsaved.1, hsaved.2, hsaved.3, hsaved.4⟩⟩, hk'⟩

/-- A call that is resumed leaves three words on the stack. -/
lemma Round.of_resumed (hk : KernelMode T k.cpu) (h : Round T f .resumed k k') :
    k'.cpu.esp = k.cpu.esp - 12 ∧ SameSaved k k' ∧ KernelMode T k'.cpu := by
  obtain ⟨arg, ra, hret⟩ := h
  obtain ⟨hesp, hsaved, hk'⟩ := kernReturns_resumed (hk.calling arg ra) hret
  refine ⟨?_, ⟨hsaved.1, hsaved.2, hsaved.3, hsaved.4⟩, hk'⟩
  rw [hesp]
  change k.cpu.esp - 4 - 8 = k.cpu.esp - 12
  bv_omega

/-- **The stack of a caller in a loop**: three words further down for each call that was
resumed. -/
theorem Rounds.esp (hk : KernelMode T k.cpu) (h : Rounds T f k os k') :
    KernelMode T k'.cpu ∧
      k'.cpu.esp = k.cpu.esp - 12 * BitVec.ofNat 32 (os.count .resumed) := by
  induction h with
  | start => exact ⟨hk, by simp⟩
  | @round os o k₁ k₂ k₃ h hround hmean ih =>
      obtain ⟨hk₁, hesp⟩ := ih
      refine ⟨hmean.kernel, ?_⟩
      cases o with
      | returned =>
          rw [hmean.esp, (Round.of_returned hk₁ hround).1.esp, hesp, List.count_append]
          simp
      | resumed =>
          rw [hmean.esp, (Round.of_resumed hk₁ hround).1, hesp, List.count_append,
            List.count_singleton_self]
          bv_omega

/-- A call may end in either way. -/
lemma exists_round (hk : KernelMode T k.cpu) (f : CFunction) (o : Outcome) :
    ∃ k', Round T f o k k' ∧ KernelMode T k'.cpu := by
  obtain ⟨k', hret⟩ := exists_kernReturns (hk.calling 0 0) f o
  refine ⟨k', ⟨0, 0, hret⟩, ?_⟩
  cases o with
  | returned => exact (kernReturns_returned (hk.calling 0 0) hret).2.2
  | resumed => exact (kernReturns_resumed (hk.calling 0 0) hret).2.2

/-- Calls may end in any way. -/
lemma exists_rounds (hk : KernelMode T k.cpu) (f : CFunction) (os : List Outcome) :
    ∃ k', Rounds T f k os k' := by
  induction os using List.reverseRecOn with
  | nil => exact ⟨k, .start⟩
  | append_singleton os o ih =>
      obtain ⟨k₁, h⟩ := ih
      obtain ⟨hk₁, -⟩ := h.esp hk
      obtain ⟨k₂, hround, hk₂⟩ := exists_round hk₁ f o
      exact ⟨k₂, h.round hround ⟨rfl, hk₂⟩⟩

/-- **When every call gives its caller back the stack and the registers**: when every one
returns, and none is resumed on its frame. -/
theorem givesBack_iff (hk : KernelMode T k.cpu) (f : CFunction) (os : List Outcome) :
    (∀ pre o, pre ++ [o] <+: os → ∀ k₁ k₂, Rounds T f k pre k₁ → Round T f o k₁ k₂ →
      GivesBack k₁ k₂) ↔ ∀ o ∈ os, o = .returned := by
  constructor
  · intro h o ho
    obtain ⟨pre, post, rfl⟩ := List.append_of_mem ho
    obtain ⟨k₁, hpre⟩ := exists_rounds hk f pre
    obtain ⟨hk₁, -⟩ := hpre.esp hk
    obtain ⟨k₂, hround, -⟩ := exists_round hk₁ f o
    have hback := h pre o ⟨post, by simp⟩ k₁ k₂ hpre hround
    cases o with
    | returned => rfl
    | resumed =>
        have hdown := (Round.of_resumed hk₁ hround).1
        rw [hback.esp] at hdown
        bv_omega
  · intro h pre o hpre k₁ k₂ hrounds hround
    obtain rfl : o = .returned := h o (hpre.subset (by simp))
    exact (Round.of_returned (hrounds.esp hk).1 hround).1

/-! ### In the kernel's own segments -/

/-- The registers in a handler are those of the kernel. -/
lemma kernelMode_handlerCpu : KernelMode flatTables handlerCpu :=
  ⟨rfl, by decide, by decide, by decide, ⟨_, rfl, rfl⟩, rfl, rfl, rfl, rfl⟩

theorem givesBack_iff_handlerCpu : KernelMode flatTables handlerCpu ∧
    (∀ pre o, pre ++ [o] <+: [.returned, .returned] → ∀ k₁ k₂,
      Rounds flatTables .thrYield ⟨handlerCpu, fun _ => 0⟩ pre k₁ →
        Round flatTables .thrYield o k₁ k₂ → GivesBack k₁ k₂) :=
  ⟨kernelMode_handlerCpu,
    (givesBack_iff kernelMode_handlerCpu .thrYield [.returned, .returned]).mpr (by simp)⟩

/-- **A thread that yields in the kernel and is resumed has lost three words of its stack.** -/
theorem not_givesBack_resumed : ∃ k', Round flatTables .thrYield .resumed
    ⟨handlerCpu, fun _ => 0⟩ k' ∧ k'.cpu.esp = handlerCpu.esp - 12 ∧
      ¬ GivesBack ⟨handlerCpu, fun _ => 0⟩ k' := by
  have hk : KernelMode flatTables (⟨handlerCpu, fun _ => 0⟩ : Core).cpu := kernelMode_handlerCpu
  obtain ⟨k', hround, -⟩ := exists_round hk .thrYield .resumed
  have hdown := (Round.of_resumed hk hround).1
  refine ⟨k', hround, hdown, fun hback => ?_⟩
  rw [hback.esp] at hdown
  exact absurd hdown (by decide)

end ShrekOS.Wrappers
