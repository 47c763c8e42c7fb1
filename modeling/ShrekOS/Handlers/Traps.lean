/-
The way from a thread into the kernel and back: the stubs of `user/libsyscall`, the wrappers of
`handlers/syscall_handler_wrappers.S` and `handlers/peripheral_handler_wrappers.S`, and
`restore_context`.

* `UserRuns`: the context of a running user program;
* `run_leaveFrame`, `restoreContext_frame`: a saved frame is left by a wrapper, and by
  `restore_context`;
* `StubKind`, `WrapperKind`, `Syscall`: the code of every system call, on both sides;
* `called_of_enterTrap`: the arguments that the C function finds, and the frame above them;
* `syscall_returns`: **a system call** passes its arguments on and returns its result, and changes
  no register but `eax`; a thread that is resumed on its frame gets 0;
* `timerEnter`, `keyboardEnter`, `enterInterrupt`: the two interrupts, in user mode and in the
  kernel;
* `interrupt_transparent`: **a thread that was interrupted goes on as if it had not been**.

The C functions are not part of this: what they may change is in `TrapReturns` and
`InterruptReturns`.
-/
import ShrekOS.Handlers.SwexnFrame
import ShrekOS.Sched.KernYield

namespace ShrekOS.Traps

open Kit Kit.Ring
open Wrappers (withEax saveRegs restoreRegs restoreContextCode KernelMode run_saveRegs
  run_restoreGeneral run_restoreContextCode)

variable {T : Ring.Tables} {g : Gate} {m : Word → Word} {c c' : Cpu} {k k₁ kc : Core}
  {x y p : Word}

/-! ### Frames -/

/-- The context of a running user program: the processor has accepted its selectors, and holds no
null selector with a privilege level. -/
structure UserRuns (T : Ring.Tables) (c : Cpu) : Prop where
  cpl : c.cpl = 3
  vm : c.flag vmFlag = false
  ring : rpl c.cs = 3
  code : ∃ d, checkCode T c.cs = .ok d ∧ c.eip ≤ d.limit
  stack : checkStack T 3 c.ss = .ok ()
  data : ∀ s ∈ [c.ds, c.es, c.fs, c.gs], checkData T 3 s = .ok ()
  null : ∀ s ∈ [c.ds, c.es, c.fs, c.gs], s.toNat / 4 = 0 → s = 0

/-- A data segment register of the program is accepted in the kernel, and kept on the way out. -/
lemma UserRuns.selector (h : UserRuns T c) {s : Selector} (hs : s ∈ [c.ds, c.es, c.fs, c.gs]) :
    checkData T 0 s = .ok () ∧ keepData T 3 s = s :=
  ⟨checkData_kernel (h.data s hs), keepData_user (h.data s hs) (h.null s hs)⟩

/-- **`iret` to a user program**, whose data segment registers are loaded already. -/
lemma iret_program (hc : UserRuns T c) (hnt : c'.eflags.getLsbD ntFlag = false)
    (hds : c'.ds = c.ds) (hes : c'.es = c.es) (hfs : c'.fs = c.fs) (hgs : c'.gs = c.gs)
    (hf : Stacked m c'.esp [c.eip, c.seg .cs, c.eflags, c.esp, c.seg .ss]) :
    iret T m c' = .ok { c' with
      cpl := c.cpl, eip := c.eip, cs := c.cs, eflags := c.eflags, esp := c.esp, ss := c.ss } := by
  simp only [stacked_cons, stacked_nil, and_true, BitVec.add_assoc, BitVec.reduceAdd,
    BitVec.ofNat_eq_ofNat] at hf
  obtain ⟨heip, hcs, hflags, hesp, hss⟩ := hf
  obtain ⟨d, hcode, hlimit⟩ := hc.code
  have hsel : ∀ {q : Word} {s : Selector}, m q = s.zeroExtend 32 → Selector.ofWord (m q) = s :=
    fun hq => by rw [hq, ofWord_zeroExtend]
  have hcs' : Selector.ofWord (m (c'.esp + 4)) = c.cs := hsel hcs
  have hss' : Selector.ofWord (m (c'.esp + 16)) = c.ss := hsel hss
  have hflags' : m (c'.esp + 8) = c.eflags := hflags
  have hesp' : m (c'.esp + 12) = c.esp := hesp
  have hout : rpl c.cs ≠ 0 := by
    rw [hc.ring]
    decide
  have hkeep : ∀ s ∈ [c.ds, c.es, c.fs, c.gs], keepData T 3 s = s := fun s hs => (hc.selector hs).2
  rw [iret_of_outer hnt (by rw [hflags']; exact hc.vm) hcs' hcode hout, iretOuter_eq_ok_iff, hss',
    heip, hflags', hesp', hc.ring, hc.cpl, hds, hes, hfs, hgs, hkeep c.ds (by simp),
    hkeep c.es (by simp), hkeep c.fs (by simp), hkeep c.gs (by simp)]
  exact ⟨hc.stack, hlimit, rfl⟩

/-- The four data segment registers of a frame. -/
lemma popSegs_program (c' : Cpu) (hc : UserRuns T c) (hcpl : c'.cpl = 0)
    (hf : Stacked m c'.esp [c.seg .ds, c.seg .es, c.seg .fs, c.seg .gs]) : ∃ c₁ c₂ c₃,
      popSeg T m .ds c' = .ok c₁ ∧ popSeg T m .es c₁ = .ok c₂ ∧ popSeg T m .fs c₂ = .ok c₃ ∧
        popSeg T m .gs c₃ = .ok { c' with
          ds := c.ds, es := c.es, fs := c.fs, gs := c.gs, esp := c'.esp + 4 + 4 + 4 + 4 } := by
  obtain ⟨hds, hes, hfs, hgs, -⟩ := hf
  have hpop : ∀ (c₀ : Cpu) {s : Selector} (r : SegReg), m c₀.esp = s.zeroExtend 32 → c₀.cpl = 0 →
      s ∈ [c.ds, c.es, c.fs, c.gs] →
        popSeg T m r c₀ = .ok { c₀.setSeg s r with esp := c₀.esp + 4 } := by
    intro c₀ s r hw h₀ hs
    exact Wrappers.popSeg_pushed hw (h₀ ▸ (hc.selector hs).1)
  have h₁ := hpop c' .ds hds hcpl (by simp)
  obtain ⟨c₁, hc₁⟩ : ∃ c₁ : Cpu, c₁ = { c'.setSeg c.ds .ds with esp := c'.esp + 4 } := ⟨_, rfl⟩
  rw [← hc₁] at h₁
  have h₂ := hpop c₁ .es (by rw [hc₁]; exact hes) (by rw [hc₁]; exact hcpl) (by simp)
  obtain ⟨c₂, hc₂⟩ : ∃ c₂ : Cpu, c₂ = { c₁.setSeg c.es .es with esp := c₁.esp + 4 } := ⟨_, rfl⟩
  rw [← hc₂] at h₂
  have h₃ := hpop c₂ .fs (by rw [hc₂, hc₁]; exact hfs) (by rw [hc₂, hc₁]; exact hcpl)
    (by simp)
  obtain ⟨c₃, hc₃⟩ : ∃ c₃ : Cpu, c₃ = { c₂.setSeg c.fs .fs with esp := c₂.esp + 4 } := ⟨_, rfl⟩
  rw [← hc₃] at h₃
  have h₄ := hpop c₃ .gs (by rw [hc₃, hc₂, hc₁]; exact hgs)
    (by rw [hc₃, hc₂, hc₁]; exact hcpl) (by simp)
  refine ⟨c₁, c₂, c₃, h₁, h₂, h₃, h₄.trans ?_⟩
  rw [hc₃, hc₂, hc₁]
  rfl

/-- **A wrapper of a system call leaves its frame**: the program goes on with what is in `eax`. -/
lemma run_leaveFrame (hc : UserRuns T c) (hcpl : k₁.cpu.cpl = 0)
    (hnt : k₁.cpu.flag ntFlag = false) {w : Word}
    (hf : Stacked k₁.mem k₁.cpu.esp (frameWords { c with eax := w } (some y) x)) :
    run T (restoreRegs ++ [.iret]) k₁ = .ok ⟨{ c with eax := k₁.cpu.eax }, k₁.mem⟩ := by
  obtain ⟨h0, h1, h2, h3, h4, h5, h6, -, h8, h9, h10, -, -, hiret⟩ := hf
  have hcode : restoreRegs ++ [.iret] = .popSeg .ds :: .popSeg .es :: .popSeg .fs ::
      .popSeg .gs :: ([.pop .edi, .pop .esi, .pop .ebp, .add 4 .esp, .pop .ebx, .pop .edx,
        .pop .ecx, .add 4 .esp, .add 4 .esp] ++ [.iret]) := rfl
  obtain ⟨c₁, c₂, c₃, hds, hes, hfs, hgs⟩ :=
    popSegs_program k₁.cpu hc hcpl ⟨h0, h1, h2, h3, trivial⟩
  rw [hcode, run_popSeg, hds, ok_bind, run_popSeg, hes, ok_bind, run_popSeg, hfs, ok_bind,
    run_popSeg, hgs, ok_bind, run_append, run_restoreGeneral, ok_bind, run_iret]
  dsimp only
  simp only [h4, h5, h6, h8, h9, h10]
  rw [iret_program hc]
  · rfl
  · exact hnt
  · rfl
  · rfl
  · rfl
  · rfl
  · exact hiret

/-- A saved frame, in the fields of a `ureg_t`. -/
lemma holds_of_frame (hf : Stacked m (p + 8) (frameWords c (some y) x)) :
    HoldsContext (uregAt m p) c := by
  simp only [frameWords, Option.toList_some, List.cons_append, List.nil_append, stacked_cons,
    stacked_nil, and_true, BitVec.add_assoc, BitVec.reduceAdd, BitVec.ofNat_eq_ofNat] at hf
  obtain ⟨h0, h1, h2, h3, h4, h5, h6, -, h8, h9, h10, h11, -, h13, h14, h15, h16, h17⟩ := hf
  exact ⟨h0, h1, h2, h3, h4, h5, h6, h8, h9, h10, h11, h13, h14, h15, h16, h17⟩

/-- **`restore_context` leaves a frame**: the program goes on as it was saved. -/
lemma restoreContext_frame (hc : UserRuns T c) (hcpl : c'.cpl = 0) (hnt : c'.flag ntFlag = false)
    (hf : Stacked m p (frameWords c (some y) x)) : restoreContext T m p c' = .ok c := by
  obtain ⟨q, rfl⟩ : ∃ q : Word, p = q + 8 := ⟨p - 8, (BitVec.sub_add_cancel p 8).symm⟩
  have h := holds_of_frame hf
  have hsel : ∀ s : Selector, Selector.ofWord (s.zeroExtend 32) = s := ofWord_zeroExtend
  have hiret : Stacked m (q + 60) [c.eip, c.seg .cs, c.eflags, c.esp, c.seg .ss] := by
    have hq : q + 8 + 4 * BitVec.ofNat 32 13 = q + 60 := by bv_omega
    have hparts : frameWords c (some y) x = (frameWords c (some y) x).take 13 ++
        [c.eip, c.seg .cs, c.eflags, c.esp, c.seg .ss] := rfl
    rw [hparts, stacked_append] at hf
    rw [← hq]
    exact hf.2
  rw [restoreContext_eq_ok_iff, h.ds, h.es, h.fs, h.gs, hcpl]
  simp only [Cpu.seg, hsel]
  refine ⟨(hc.selector (by simp)).1, (hc.selector (by simp)).1, (hc.selector (by simp)).1,
    (hc.selector (by simp)).1, ?_⟩
  rw [iret_program hc]
  · simp only [beforeIret, h.ds, h.es, h.fs, h.gs, h.edi, h.esi, h.ebp, h.ebx, h.edx, h.ecx, h.eax,
      Cpu.seg, hsel]
  · exact hnt
  · exact congrArg Selector.ofWord h.ds |>.trans (hsel _)
  · exact congrArg Selector.ofWord h.es |>.trans (hsel _)
  · exact congrArg Selector.ofWord h.fs |>.trans (hsel _)
  · exact congrArg Selector.ofWord h.gs |>.trans (hsel _)
  · exact hiret

/-! ### The code of the system calls -/

/-- How a stub of `libsyscall` passes its arguments: it has none, it loads the only one into
`esi`, or it loads their address. -/
inductive StubKind where
  | bare
  | direct
  | packet

/-- A stub up to its trap. -/
def StubKind.enter : StubKind → List Instr
  | .bare => []
  | .direct => [.push .esi, .movAt 8 .esp .esi]
  | .packet => [.push .esi, .mov .esp .esi, .add 8 .esi]

/-- A stub after its trap. -/
def StubKind.leave : StubKind → List Instr
  | .bare => [.ret]
  | .direct | .packet => [.pop .esi, .ret]

/-- The ways in which the wrappers pass the arguments on: the three macros, and the code of `halt`
(which stops the processor), of `swexn`, of the calls that also get `old_esp`, and of those that
get the frame only. -/
inductive WrapperKind where
  | noArg
  | halt
  | oneArg
  | twoArg
  | fourArg
  | swexn
  | oldEsp
  | frame

/-- A wrapper between `save_context` and its call. -/
def WrapperKind.pushArgs : WrapperKind → List Instr
  | .noArg | .halt => []
  | .oneArg => [.push .esi]
  | .twoArg => [.pushAt 4 .esi, .pushAt 0 .esi]
  | .fourArg => [.pushAt 12 .esi, .pushAt 8 .esi, .pushAt 4 .esi, .pushAt 0 .esi]
  | .swexn => [.push .esp, .pushAt 12 .esi, .pushAt 8 .esi, .pushAt 4 .esi, .pushAt 0 .esi]
  | .oldEsp => [.mov .esp .eax, .push .esi, .push .eax]
  | .frame => [.push .esp]

/-- How many words it reads through `esi`. -/
def WrapperKind.fetched : WrapperKind → ℕ
  | .noArg | .halt | .oneArg | .oldEsp | .frame => 0
  | .twoArg => 2
  | .fourArg | .swexn => 4

/-- How many words it pushes. -/
def WrapperKind.argc : WrapperKind → ℕ
  | .noArg | .halt => 0
  | .oneArg | .frame => 1
  | .twoArg | .oldEsp => 2
  | .fourArg => 4
  | .swexn => 5

/-- A wrapper up to its call. -/
def WrapperKind.enter (w : WrapperKind) : List Instr := saveRegs ++ w.pushArgs

/-- A wrapper after its call. -/
def WrapperKind.leave : WrapperKind → List Instr
  | .noArg => restoreRegs ++ [.iret]
  | .halt => .hlt :: (restoreRegs ++ [.iret])
  | w => .add (4 * BitVec.ofNat 32 w.argc) .esp :: (restoreRegs ++ [.iret])

/-- The system calls that have a stub and come back through their wrapper. -/
inductive Syscall where
  | gettid
  | fork
  | exec
  | setStatus
  | halt
  | vanish
  | wait
  | yield
  | deschedule
  | makeRunnable
  | getTicks
  | sleep
  | swexn
  | newPages
  | removePages
  | readline
  | print
  | setTermColor
  | setCursorPos
  | getCursorPos
  | readfile
  | misbehave
  deriving DecidableEq

/-- The stub of a call, `user/libsyscall`. -/
def Syscall.stub : Syscall → StubKind
  | .fork | .halt | .vanish | .getTicks => .bare
  | .setStatus | .wait | .yield | .deschedule | .makeRunnable | .sleep | .removePages
  | .setTermColor | .misbehave => .direct
  | .gettid | .exec | .swexn | .newPages | .readline | .print | .setCursorPos | .getCursorPos
  | .readfile => .packet

/-- The wrapper of a call, `syscall_handler_wrappers.S`. -/
def Syscall.wrapper : Syscall → WrapperKind
  | .gettid | .vanish | .getTicks => .noArg
  | .halt => .halt
  | .setStatus | .wait | .makeRunnable | .removePages | .setTermColor | .misbehave => .oneArg
  | .exec | .newPages | .readline | .print | .setCursorPos | .getCursorPos => .twoArg
  | .readfile => .fourArg
  | .swexn => .swexn
  | .yield | .deschedule | .sleep => .oldEsp
  | .fork => .frame

/-- A call, from the first instruction of its stub to the call of its C function. -/
def enterTrap (T : Ring.Tables) (g : Gate) (s : Syscall) (k : Core) : Except CpuFault Core := do
  let k ← run T s.stub.enter k
  run T s.wrapper.enter (enterException g none k.cpu k.mem)

/-- The rest of a call whose C function has returned. -/
def leaveTrap (T : Ring.Tables) (s : Syscall) (k : Core) : Except CpuFault Core := do
  run T s.stub.leave (← run T s.wrapper.leave k)

/-- The rest of a call whose thread is resumed by `restore_context`. -/
def resumeTrap (T : Ring.Tables) (s : Syscall) (k : Core) : Except CpuFault Core := do
  run T s.stub.leave (← run T restoreContextCode k)

/-! ### The arguments -/

/-- Words of an argument packet, pushed from the last to the first. -/
def pushPacket : ℕ → List Instr
  | 0 => []
  | n + 1 => .pushAt (4 * BitVec.ofNat 32 n) .esi :: pushPacket n

/-- The first `n` words from an address on. -/
def packet (m : Word → Word) (p : Word) (n : ℕ) : List Word :=
  (List.range n).map fun i => m (p + 4 * BitVec.ofNat 32 i)

@[simp] lemma length_packet (n : ℕ) : (packet m p n).length = n := by
  rw [packet, List.length_map, List.length_range]

lemma packet_congr {m' : Word → Word} {n : ℕ}
    (h : ∀ i < n, m' (p + 4 * BitVec.ofNat 32 i) = m (p + 4 * BitVec.ofNat 32 i)) :
    packet m' p n = packet m p n :=
  List.map_congr_left fun i hi => h i (List.mem_range.mp hi)

/-- A packet is pushed that is not where the stack grows. -/
lemma run_pushPacket {n : ℕ} (hap : ∀ i < n, ∀ j < n,
    k.cpu.esi + 4 * BitVec.ofNat 32 i ≠ k.cpu.esp - 4 * BitVec.ofNat 32 (j + 1)) :
    run T (pushPacket n) k = .ok (k.pushAll (packet k.mem k.cpu.esi n)) := by
  induction n generalizing k with
  | zero => rfl
  | succ n ih =>
      have hrest : packet (k.push (k.mem (k.cpu.esi + 4 * BitVec.ofNat 32 n))).mem k.cpu.esi n =
          packet k.mem k.cpu.esi n := by
        refine packet_congr fun i hi => Function.update_of_ne ?_ ..
        have hne := hap i (by omega) 0 (by omega)
        rwa [show 4 * BitVec.ofNat 32 (0 + 1) = 4#32 from rfl] at hne
      have hpush : run T (pushPacket n) (k.push (k.mem (k.cpu.esi + 4 * BitVec.ofNat 32 n))) =
          .ok ((k.push (k.mem (k.cpu.esi + 4 * BitVec.ofNat 32 n))).pushAll
            (packet (k.push (k.mem (k.cpu.esi + 4 * BitVec.ofNat 32 n))).mem k.cpu.esi n)) := by
        refine ih fun i hi j hj => ?_
        have hne := hap i (by omega) (j + 1) (by omega)
        have hesp : k.cpu.esp - 4 - 4 * BitVec.ofNat 32 (j + 1) =
            k.cpu.esp - 4 * BitVec.ofNat 32 (j + 1 + 1) := by bv_omega
        rwa [Core.push_esp, hesp]
      have hesi : k.cpu.get .esi = k.cpu.esi := rfl
      rw [pushPacket, run_cons, exec_pushAt, hesi, ok_bind, hpush, hrest, packet, packet,
        List.range_succ, List.map_append, Core.pushAll_append]
      rfl

/-- The arguments that a wrapper passes to its C function, from `esi` and the frame. -/
def WrapperKind.args (w : WrapperKind) (m : Word → Word) (esi fp : Word) : List Word :=
  match w with
  | .noArg | .halt => []
  | .oneArg => [esi]
  | .twoArg => packet m esi 2
  | .fourArg => packet m esi 4
  | .swexn => packet m esi 4 ++ [fp]
  | .oldEsp => [fp, esi]
  | .frame => [fp]

lemma WrapperKind.length_args (w : WrapperKind) (m : Word → Word) (x y : Word) :
    (w.args m x y).length = w.argc := by
  cases w <;> simp [args, argc]

lemma WrapperKind.args_congr {m' : Word → Word} (w : WrapperKind) (h : ∀ i < w.fetched,
    m' (x + 4 * BitVec.ofNat 32 i) = m (x + 4 * BitVec.ofNat 32 i)) :
    w.args m' x y = w.args m x y := by
  cases w with
  | noArg | halt | oneArg | oldEsp | frame => rfl
  | twoArg | fourArg => exact packet_congr h
  | swexn => exact congrArg (· ++ [y]) (packet_congr h)

lemma WrapperKind.argc_le (w : WrapperKind) : w.argc ≤ 5 := by
  cases w <;> decide

/-- **The words that a wrapper pushes** are the arguments of its C function. -/
lemma WrapperKind.run_pushArgs (w : WrapperKind) (k : Core) (hap : ∀ i < w.fetched, ∀ j < 5,
    k.cpu.esi + 4 * BitVec.ofNat 32 i ≠ k.cpu.esp - 4 * BitVec.ofNat 32 (j + 1)) :
    ∃ a, run T w.pushArgs k = .ok (withEax (k.pushAll (w.args k.mem k.cpu.esi k.cpu.esp)) a) := by
  have hle : w.fetched ≤ 4 := by cases w <;> decide
  have hpacket : run T (pushPacket w.fetched) k =
      .ok (k.pushAll (packet k.mem k.cpu.esi w.fetched)) :=
    run_pushPacket fun i hi j hj => hap i hi j (by omega)
  cases w with
  | noArg | halt => exact ⟨k.cpu.eax, rfl⟩
  | oneArg => exact ⟨k.cpu.eax, rfl⟩
  | twoArg => exact ⟨k.cpu.eax, hpacket⟩
  | fourArg => exact ⟨k.cpu.eax, hpacket⟩
  | swexn =>
      -- `%esp` is pushed first: the packet is read on a stack that is one word deeper
      have hrest : packet (k.push k.cpu.esp).mem k.cpu.esi 4 = packet k.mem k.cpu.esi 4 := by
        refine packet_congr fun i hi => Function.update_of_ne ?_ ..
        have hne := hap i hi 0 (by decide)
        rwa [show 4 * BitVec.ofNat 32 (0 + 1) = 4#32 from rfl] at hne
      have hpush : run T (pushPacket 4) (k.push k.cpu.esp) =
          .ok ((k.push k.cpu.esp).pushAll (packet (k.push k.cpu.esp).mem k.cpu.esi 4)) := by
        refine run_pushPacket fun i hi j hj => ?_
        have hne := hap i hi (j + 1) (by omega)
        have hesp : k.cpu.esp - 4 - 4 * BitVec.ofNat 32 (j + 1) =
            k.cpu.esp - 4 * BitVec.ofNat 32 (j + 1 + 1) := by bv_omega
        rwa [Core.push_esp, hesp]
      refine ⟨k.cpu.eax, ?_⟩
      change run T (.push .esp :: pushPacket 4) k = _
      rw [run_cons, exec_push, ok_bind, WrapperKind.args, Core.pushAll_append]
      rw [hrest] at hpush
      exact hpush
  | oldEsp => exact ⟨k.cpu.esp, rfl⟩
  | frame => exact ⟨k.cpu.eax, rfl⟩

/-! ### On the way in -/

/-- The program at the trap of a stub. -/
def StubKind.entered (s : StubKind) (k : Core) : Core :=
  match s with
  | .bare => k
  | .direct =>
      ⟨{ k.cpu with esp := k.cpu.esp - 4, esi := k.mem (k.cpu.esp + 4) }, (k.push k.cpu.esi).mem⟩
  | .packet => ⟨{ k.cpu with esp := k.cpu.esp - 4, esi := k.cpu.esp + 4 }, (k.push k.cpu.esi).mem⟩

lemma StubKind.run_enter (s : StubKind) (k : Core) : run T s.enter k = .ok (s.entered k) := by
  have hesp : k.cpu.esp - 4 + 8 = k.cpu.esp + 4 := by bv_omega
  cases s with
  | bare => rfl
  | direct =>
      have hmem : (k.push k.cpu.esi).mem (k.cpu.esp - 4 + 8) = k.mem (k.cpu.esp + 4) := by
        rw [hesp]
        exact Function.update_of_ne (by bv_omega) ..
      simp only [enter, entered, run_cons, run_nil, ok_bind, exec]
      exact congrArg (fun w : Word => Except.ok (ε := CpuFault)
        (⟨{ k.cpu with esp := k.cpu.esp - 4, esi := w }, (k.push k.cpu.esi).mem⟩ : Core)) hmem
  | packet =>
      simp only [enter, entered, run_cons, run_nil, ok_bind, exec]
      exact congrArg (fun w : Word => Except.ok (ε := CpuFault)
        (⟨{ k.cpu with esp := k.cpu.esp - 4, esi := w }, (k.push k.cpu.esi).mem⟩ : Core)) hesp

/-- A stub changes no segment, and no flag but the arithmetic ones. -/
lemma StubKind.userRuns_entered (s : StubKind) (h : UserRuns T k.cpu) :
    UserRuns T (s.entered k).cpu := by
  cases s <;> exact ⟨h.cpl, h.vm, h.ring, h.code, h.stack, h.data, h.null⟩

/-- The caller of a stub after its call, with a result: no other register is changed. -/
def afterCall (k : Core) (e : Word) (m : Word → Word) : Core :=
  ⟨{ k.cpu with eax := e, eip := k.mem k.cpu.esp, esp := k.cpu.esp + 4 }, m⟩

/-- **A stub after its trap** returns to its caller, with the `esi` that it found. -/
lemma StubKind.run_leave (s : StubKind) {m : Word → Word} {e : Word}
    (hsaved : m (k.cpu.esp - 4) = (s.entered k).mem (k.cpu.esp - 4))
    (hret : m k.cpu.esp = (s.entered k).mem k.cpu.esp) :
    run T s.leave ⟨{ (s.entered k).cpu with eax := e }, m⟩ = .ok (afterCall k e m) := by
  have hesp : k.cpu.esp - 4 + 4 = k.cpu.esp := BitVec.sub_add_cancel _ _
  have hpushed : (k.push k.cpu.esi).mem (k.cpu.esp - 4) = k.cpu.esi := Function.update_self ..
  have hkept : (k.push k.cpu.esi).mem k.cpu.esp = k.mem k.cpu.esp :=
    Function.update_of_ne (by bv_omega) ..
  cases s with
  | bare =>
      simp only [leave, entered, run_cons, run_nil, ok_bind, exec] at hret ⊢
      rw [hret, afterCall]
  | direct =>
      simp only [leave, entered, run_cons, run_nil, ok_bind, exec, Cpu.set, hesp] at hret hsaved ⊢
      rw [hret, hsaved, hpushed, hkept, afterCall]
  | packet =>
      simp only [leave, entered, run_cons, run_nil, ok_bind, exec, Cpu.set, hesp] at hret hsaved ⊢
      rw [hret, hsaved, hpushed, hkept, afterCall]

/-- The kernel stack of the thread has room for a frame and five arguments below the memory of
the program, whose stack has room for the saved `esi` and, above, for the packet. -/
structure Placed (g : Gate) (c : Cpu) : Prop where
  room : 92 ≤ g.esp0.toNat
  below : g.esp0.toNat ≤ userMemStart
  saved : userMemStart + 4 ≤ c.esp.toNat
  packet : c.esp.toNat + 20 ≤ 2 ^ 32

/-- What a system call passes to its C function: its arguments, as its caller in the program has
stored them, and the address of the frame where the C function takes it. -/
def Syscall.args (s : Syscall) (m : Word → Word) (sp fp : Word) : List Word :=
  match s.wrapper with
  | .noArg | .halt => []
  | .oneArg => packet m (sp + 4) 1
  | .twoArg => packet m (sp + 4) 2
  | .fourArg => packet m (sp + 4) 4
  | .swexn => packet m (sp + 4) 4 ++ [fp]
  | .oldEsp => fp :: packet m (sp + 4) 1
  | .frame => [fp]

/-- **The stub and the wrapper of a call agree** on how the arguments are passed. -/
lemma Syscall.args_eq (s : Syscall) (k : Core) (fp : Word) :
    s.wrapper.args (s.stub.entered k).mem (s.stub.entered k).cpu.esi fp =
      s.args k.mem k.cpu.esp fp := by
  have hone : packet k.mem (k.cpu.esp + 4) 1 = [k.mem (k.cpu.esp + 4)] := by
    have hp : k.cpu.esp + 4 + 4 * BitVec.ofNat 32 0 = k.cpu.esp + 4 := by bv_omega
    exact congrArg (fun q : Word => [k.mem q]) hp
  have hpacket : ∀ n ≤ 4, packet (k.push k.cpu.esi).mem (k.cpu.esp + 4) n =
      packet k.mem (k.cpu.esp + 4) n := fun n hn =>
    packet_congr fun i hi => Function.update_of_ne (by bv_omega) ..
  cases s with
  | gettid | fork | halt | vanish | getTicks => rfl
  | exec | newPages | readline | print | setCursorPos | getCursorPos => exact hpacket 2 (by decide)
  | readfile => exact hpacket 4 (by decide)
  | swexn => exact congrArg (· ++ [fp]) (hpacket 4 (by decide))
  | setStatus | wait | makeRunnable | removePages | setTermColor | misbehave => exact hone.symm
  | yield | deschedule | sleep => exact congrArg (fp :: ·) hone.symm

/-- The frame of a call: the context of the program at its trap, with 0 for `eax`. -/
def Syscall.frame (s : Syscall) (k : Core) (x y : Word) : List Word :=
  frameWords { (s.stub.entered k).cpu with eax := 0 } (some y) x

/-- The packet of a call lies in the program's memory, above the kernel stack. -/
lemma Placed.fetched_apart (hp : Placed g k.cpu) {s : Syscall} {i j : ℕ}
    (hi : i < s.wrapper.fetched) (hj : j < 23) :
    (s.stub.entered k).cpu.esi + 4 * BitVec.ofNat 32 i ≠
      g.esp0 - 4 * BitVec.ofNat 32 (j + 1) := by
  have hi4 : i < 4 := by
    have hle : s.wrapper.fetched ≤ 4 := by cases s <;> decide
    omega
  have hesi : (s.stub.entered k).cpu.esi = k.cpu.esp + 4 := by
    cases s <;> first | rfl | exact absurd hi (Nat.not_lt_zero i)
  have hstart : userMemStart = 0x1000000 := rfl
  have h₁ := hp.room
  have h₂ := hp.below
  have h₃ := hp.saved
  have h₄ := hp.packet
  rw [hesi]
  bv_omega

/-- **A call on its way in**: its C function finds its arguments on the stack, and the frame above
them. -/
lemma enterTrap_spec (hp : Placed g k.cpu) (s : Syscall) : ∃ kc a x y,
    enterTrap T g s k = .ok kc ∧
    kc = withEax ((⟨g.load (s.stub.entered k).cpu, (s.stub.entered k).mem⟩ : Core).pushAll
      (s.args k.mem k.cpu.esp (g.esp0 - 72) ++ s.frame k x y)) a := by
  obtain ⟨u, hu⟩ : ∃ u, u = s.stub.entered k := ⟨_, rfl⟩
  obtain ⟨k₀, hk₀⟩ : ∃ k₀, k₀ = enterException g none u.cpu u.mem := ⟨_, rfl⟩
  obtain ⟨x, y, hsave⟩ := run_saveRegs (T := T) k₀
  have hframe : k₀.pushAll [k₀.cpu.seg .ds, k₀.cpu.seg .es, k₀.cpu.seg .fs, k₀.cpu.seg .gs,
      k₀.cpu.edi, k₀.cpu.esi, k₀.cpu.ebp, x, k₀.cpu.ebx, k₀.cpu.edx, k₀.cpu.ecx, 0, y] =
      (⟨g.load u.cpu, u.mem⟩ : Core).pushAll (s.frame k x y) := by
    have hcpu : k₀.cpu = { g.load u.cpu with esp := k₀.cpu.esp } := by
      rw [hk₀, enterException, Core.pushAll_cpu]
    rw [hcpu, Syscall.frame, ← hu, hk₀, enterException]
    rfl
  obtain ⟨k₁, hk₁⟩ : ∃ k₁, k₁ = (⟨g.load u.cpu, u.mem⟩ : Core).pushAll (s.frame k x y) := ⟨_, rfl⟩
  rw [hframe, ← hk₁] at hsave
  have hlen : (s.frame k x y).length = 18 := rfl
  have hcpu₁ : k₁.cpu = { g.load u.cpu with esp := g.esp0 - 72 } := by
    rw [hk₁, Core.pushAll_cpu, hlen]
    rfl
  have hesi : k₁.cpu.esi = u.cpu.esi := by
    rw [hcpu₁]
    rfl
  have hesp : k₁.cpu.esp = g.esp0 - 72 := by rw [hcpu₁]
  obtain ⟨a, hpush⟩ := s.wrapper.run_pushArgs (T := T) k₁ fun i hi j hj => by
    have hword : g.esp0 - 72 - 4 * BitVec.ofNat 32 (j + 1) =
        g.esp0 - 4 * BitVec.ofNat 32 (j + 18 + 1) := by bv_omega
    rw [hesi, hesp, hu, hword]
    exact hp.fetched_apart hi (by omega)
  -- the frame is on the kernel stack: the packet is read as it was
  have hfetch : s.wrapper.args k₁.mem u.cpu.esi (g.esp0 - 72) =
      s.wrapper.args u.mem u.cpu.esi (g.esp0 - 72) :=
    s.wrapper.args_congr fun i hi => by
      rw [hk₁]
      refine Core.pushAll_mem _ _ fun j hj => ?_
      rw [hlen] at hj
      exact hu ▸ hp.fetched_apart hi (by omega)
  refine ⟨_, a, x, y, ?_, rfl⟩
  rw [enterTrap, StubKind.run_enter, ok_bind, ← hu, ← hk₀, WrapperKind.enter, run_append, hsave,
    ok_bind, hpush, hesi, hesp, hfetch, hu, s.args_eq k, Core.pushAll_append, hk₁, hu]

/-! ### On the way out -/

lemma UserRuns.withEax (h : UserRuns T c) (w : Word) : UserRuns T { c with eax := w } :=
  ⟨h.cpl, h.vm, h.ring, h.code, h.stack, h.data, h.null⟩

/-- What a call finds again when it comes back: its frame, and the words that its stub pops. -/
structure TrapKept (g : Gate) (c : Cpu) (kc k₁ : Core) : Prop where
  frame : ∀ i < 18, k₁.mem (g.esp0 - 72 + 4 * BitVec.ofNat 32 i) =
    kc.mem (g.esp0 - 72 + 4 * BitVec.ofNat 32 i)
  saved : k₁.mem (c.esp - 4) = kc.mem (c.esp - 4)
  ret : k₁.mem c.esp = kc.mem c.esp

/-- The C function of a call returns; `eax`, `ecx`, `edx` and the flags are its own. -/
structure TrapReturns (g : Gate) (c : Cpu) (kc k₁ : Core) : Prop where
  kept : TrapKept g c kc k₁
  cpu : k₁.cpu = { kc.cpu with
    eip := k₁.cpu.eip
    eflags := k₁.cpu.eflags
    edx := k₁.cpu.edx
    ecx := k₁.cpu.ecx
    eax := k₁.cpu.eax }
  nt : k₁.cpu.flag ntFlag = false

/-- Another thread has run, and calls `restore_context` with the frame of the call. -/
structure TrapResumes (g : Gate) (c : Cpu) (kc k₁ : Core) : Prop where
  kept : TrapKept g c kc k₁
  cpl : k₁.cpu.cpl = 0
  nt : k₁.cpu.flag ntFlag = false
  oldEsp : k₁.mem (k₁.cpu.esp + 4) = g.esp0 - 72

/-- The flags that a stub leaves alone: all of them, or all but those of its sum. -/
def StubKind.keptFlags : StubKind → Word
  | .bare | .direct => ~~~0
  | .packet => ~~~sumFlags

/-- A call has come back to its caller with a result: no other register is changed, and no flag
that its stub leaves alone. -/
structure ReturnsWith (s : Syscall) (k k' : Core) (e : Word) : Prop where
  cpu : k'.cpu = { k.cpu with
    eax := e
    eip := k.mem k.cpu.esp
    esp := k.cpu.esp + 4
    eflags := k'.cpu.eflags }
  flags : k'.cpu.eflags &&& s.stub.keptFlags = k.cpu.eflags &&& s.stub.keptFlags

/-- A wrapper after its call skips the arguments. -/
lemma WrapperKind.run_leave (w : WrapperKind) (k : Core) : run T w.leave k =
    run T (restoreRegs ++ [.iret])
      ⟨{ k.cpu with esp := k.cpu.esp + 4 * BitVec.ofNat 32 w.argc }, k.mem⟩ := by
  have hadd : ∀ w : Word, run T (.add w .esp :: (restoreRegs ++ [.iret])) k =
      run T (restoreRegs ++ [.iret]) ⟨{ k.cpu with esp := k.cpu.esp + w }, k.mem⟩ := by
    intro w
    rw [run_cons, exec, ok_bind]
    generalize restoreRegs ++ [.iret] = code
    rfl
  cases w with
  | noArg =>
      have hesp : k.cpu.esp + 4 * BitVec.ofNat 32 0 = k.cpu.esp := by bv_omega
      rw [leave, argc, hesp]
  | halt =>
      have hesp : k.cpu.esp + 4 * BitVec.ofNat 32 0 = k.cpu.esp := by bv_omega
      rw [leave, argc, hesp, run_cons, exec, ok_bind]
  | oneArg | twoArg | fourArg | swexn | oldEsp | frame => exact hadd _

/-- What a call has on the stacks when its C function is called. -/
structure Called (g : Gate) (s : Syscall) (k kc : Core) : Prop where
  cpl : kc.cpu.cpl = 0
  esp : kc.cpu.esp + 4 * BitVec.ofNat 32 s.wrapper.argc = g.esp0 - 72
  args : Stacked kc.mem kc.cpu.esp (s.args k.mem k.cpu.esp (g.esp0 - 72))
  frame : ∃ x y, Stacked kc.mem (g.esp0 - 72) (s.frame k x y)
  user : ∀ a : Word, userMemStart ≤ a.toNat → kc.mem a = (s.stub.entered k).mem a

lemma Syscall.length_args (s : Syscall) (m : Word → Word) (x y : Word) :
    (s.args m x y).length = s.wrapper.argc := by
  cases s <;> rfl

/-- **A call arrives at its C function.** -/
lemma called_of_enterTrap (hp : Placed g k.cpu) (s : Syscall) :
    ∃ kc, enterTrap T g s k = .ok kc ∧ Called g s k kc := by
  obtain ⟨kc, a, x, y, henter, hkc⟩ := enterTrap_spec (T := T) hp s
  obtain ⟨k₀, hk₀⟩ : ∃ k₀ : Core, k₀ = ⟨g.load (s.stub.entered k).cpu, (s.stub.entered k).mem⟩ :=
    ⟨_, rfl⟩
  obtain ⟨ws, hws⟩ : ∃ ws, ws = s.args k.mem k.cpu.esp (g.esp0 - 72) ++ s.frame k x y := ⟨_, rfl⟩
  have hargc := s.wrapper.argc_le
  have hlen : ws.length = s.wrapper.argc + 18 := by
    rw [hws, List.length_append, s.length_args]
    rfl
  rw [← hk₀, ← hws] at hkc
  have hesp₀ : k₀.cpu.esp = g.esp0 := by
    rw [hk₀]
    rfl
  have hcpu : kc.cpu = { k₀.cpu with
      esp := g.esp0 - 4 * BitVec.ofNat 32 (s.wrapper.argc + 18), eax := a } := by
    rw [hkc, withEax, Core.pushAll_cpu, hlen, hesp₀]
  have hmem : kc.mem = (k₀.pushAll ws).mem := by
    rw [hkc, withEax]
  have hesp : kc.cpu.esp = (k₀.pushAll ws).cpu.esp := by
    rw [hkc, withEax]
  have hwords : Stacked kc.mem kc.cpu.esp ws := by
    rw [hmem, hesp]
    exact stacked_pushAll _ (by omega)
  have hfp : kc.cpu.esp + 4 * BitVec.ofNat 32 s.wrapper.argc = g.esp0 - 72 := by
    rw [hcpu]
    bv_omega
  rw [hws, stacked_append, s.length_args, hfp] at hwords
  refine ⟨kc, henter, ?_, hfp, hwords.1, ⟨x, y, hwords.2⟩, fun b hb => ?_⟩
  · rw [hcpu, hk₀]
    rfl
  · have hroom := hp.room
    have hbelow := hp.below
    rw [hmem, k₀.pushAll_mem, hk₀]
    intro i hi
    rw [hesp₀]
    bv_omega

/-- **A system call of a user program.** Its C function finds the arguments that the caller of the
stub has stored. When it returns, or when the thread has been switched away and is resumed on its
frame, the caller goes on after its call with all of its registers, and with the result, or 0,
in `eax`. -/
theorem syscall_returns (hk : UserRuns T k.cpu) (hp : Placed g k.cpu) (s : Syscall) :
    ∃ kc, enterTrap T g s k = .ok kc ∧
      Stacked kc.mem kc.cpu.esp (s.args k.mem k.cpu.esp (g.esp0 - 72)) ∧
      (∀ k₁, TrapReturns g k.cpu kc k₁ → ∃ k', leaveTrap T s k₁ = .ok k' ∧
        k'.mem = k₁.mem ∧ ReturnsWith s k k' k₁.cpu.eax) ∧
      ∀ k₁, TrapResumes g k.cpu kc k₁ → ∃ k', resumeTrap T s k₁ = .ok k' ∧
        k'.mem = k₁.mem ∧ ReturnsWith s k k' 0 := by
  obtain ⟨kc, henter, hcall⟩ := called_of_enterTrap (T := T) hp s
  obtain ⟨x, y, hframe⟩ := hcall.frame
  have hu : UserRuns T (s.stub.entered k).cpu := s.stub.userRuns_entered hk
  have hpsaved := hp.saved
  -- what the stub pops is in the program's memory: the way in has left it alone
  have hback : ∀ k₁, TrapKept g k.cpu kc k₁ → ∀ e, run T s.stub.leave
      ⟨{ (s.stub.entered k).cpu with eax := e }, k₁.mem⟩ = .ok (afterCall k e k₁.mem) := by
    intro k₁ hkept e
    refine s.stub.run_leave ?_ ?_
    · exact hkept.saved.trans (hcall.user _ (by bv_omega))
    · exact hkept.ret.trans (hcall.user _ (by omega))
  refine ⟨kc, henter, hcall.args, fun k₁ h => ?_, fun k₁ h => ?_⟩
  · have hesp : k₁.cpu.esp + 4 * BitVec.ofNat 32 s.wrapper.argc = g.esp0 - 72 := by
      rw [h.cpu]
      exact hcall.esp
    have hcpl : k₁.cpu.cpl = 0 := by
      rw [h.cpu]
      exact hcall.cpl
    have hrest : run T s.wrapper.leave k₁ =
        .ok ⟨{ (s.stub.entered k).cpu with eax := k₁.cpu.eax }, k₁.mem⟩ := by
      rw [s.wrapper.run_leave, hesp]
      exact run_leaveFrame hu hcpl h.nt (hframe.congr fun i hi => h.kept.frame i hi)
    refine ⟨afterCall k k₁.cpu.eax k₁.mem, ?_, rfl, rfl, rfl⟩
    rw [leaveTrap, hrest, ok_bind, hback k₁ h.kept]
  · have hrest : run T restoreContextCode k₁ =
        .ok ⟨{ (s.stub.entered k).cpu with eax := 0 }, k₁.mem⟩ := by
      rw [run_restoreContextCode, h.oldEsp, restoreContext_frame (hu.withEax 0) h.cpl h.nt]
      · rfl
      · exact hframe.congr fun i hi => h.kept.frame i hi
    refine ⟨afterCall k 0 k₁.mem, ?_, rfl, rfl, rfl⟩
    rw [resumeTrap, hrest, ok_bind, hback k₁ h.kept]

/-- The stack of a program that calls `exec` with two arguments. -/
def execMem : Word → Word := storeWords (fun _ => 0) 0x2000ff0 [0x1000300, 0x1800000, 0x1800020]

lemma userRuns_dividing : UserRuns flatTables dividing := by
  have hsel : ∀ s ∈ [dividing.ds, dividing.es, dividing.fs, dividing.gs], s = 0x2b := by
    intro s hs
    simp only [List.mem_cons, List.not_mem_nil, or_false] at hs
    rcases hs with rfl | rfl | rfl | rfl <;> rfl
  refine ⟨rfl, by decide, rfl, ⟨_, rfl, by decide⟩, rfl, fun s hs => ?_, fun s hs hnull => ?_⟩
  · rw [hsel s hs]
    rfl
  · rw [hsel s hs] at hnull
    exact absurd hnull (by decide)

theorem syscall_returns_exec :
    UserRuns flatTables dividing ∧ Placed ⟨0x200000, 0x18, 0x10, 0x100000⟩ dividing ∧
    ∃ kc, enterTrap flatTables ⟨0x200000, 0x18, 0x10, 0x100000⟩ .exec ⟨dividing, execMem⟩ = .ok kc ∧
      Stacked kc.mem kc.cpu.esp [0x1800000, 0x1800020] ∧
      (∀ k₁, TrapReturns ⟨0x200000, 0x18, 0x10, 0x100000⟩ dividing kc k₁ →
        ∃ k', leaveTrap flatTables .exec k₁ = .ok k' ∧ k'.mem = k₁.mem ∧
          ReturnsWith .exec ⟨dividing, execMem⟩ k' k₁.cpu.eax) ∧
      ∀ k₁, TrapResumes ⟨0x200000, 0x18, 0x10, 0x100000⟩ dividing kc k₁ →
        ∃ k', resumeTrap flatTables .exec k₁ = .ok k' ∧ k'.mem = k₁.mem ∧
          ReturnsWith .exec ⟨dividing, execMem⟩ k' 0 := by
  have hp : Placed ⟨0x200000, 0x18, 0x10, 0x100000⟩ dividing := ⟨by decide, by decide, by decide,
    by decide⟩
  exact ⟨userRuns_dividing, hp,
    syscall_returns (k := ⟨dividing, execMem⟩) userRuns_dividing hp .exec⟩

/-! ### Interrupts -/

/-- An interrupt gate also clears the interrupt flag. -/
def interruptFlags : Word := clearedFlags ||| 0x200

/-- The registers that are loaded by an interrupt: a thread that is in the kernel stays on its
stack. -/
def Gate.interrupt (g : Gate) (c : Cpu) : Cpu :=
  if c.cpl = 0 then
    { c with cs := g.cs, eip := g.eip, eflags := c.eflags &&& ~~~interruptFlags }
  else { g.load c with eflags := c.eflags &&& ~~~interruptFlags }

/-- The words that an interrupt pushes. -/
def pushedWords (c : Cpu) : List Word :=
  if c.cpl = 0 then [c.eip, c.seg .cs, c.eflags]
  else [c.eip, c.seg .cs, c.eflags, c.esp, c.seg .ss]

/-- An interrupt of a thread, in its program or in the kernel. -/
def enterInterrupt (g : Gate) (k : Core) : Core :=
  (⟨Gate.interrupt g k.cpu, k.mem⟩ : Core).pushAll (pushedWords k.cpu)

/-- `timer_handler`, up to its call. -/
def timerEnter : List Instr := .sub 4 .esp :: wrapperCall

/-- `timer_handler` after its call; `ra` is the return address of the call of
`restore_context`. -/
def timerLeave (ra : Word) : List Instr := .push .eax :: .pushImm ra :: restoreContextCode

/-- `keyboard_handler`, up to its call. -/
def keyboardEnter : List Instr := .sub 4 .esp :: saveContext

/-- `keyboard_handler` after its call. -/
def keyboardLeave : List Instr :=
  [.popSeg .ds, .popSeg .es, .popSeg .fs, .popSeg .gs, .popa, .add 4 .esp, .iret]

/-- The frame of an interrupt. -/
def interruptFrame (c : Cpu) (x y : Word) : List Word :=
  [c.seg .ds, c.seg .es, c.seg .fs, c.seg .gs] ++
    ([c.edi, c.esi, c.ebp, x, c.ebx, c.edx, c.ecx, c.eax] ++ (y :: pushedWords c))

/-- The end of the stack that an interrupt uses. -/
def interruptTop (g : Gate) (c : Cpu) : Word := if c.cpl = 0 then c.esp else g.esp0

/-- The words of its frame. -/
def frameLength (c : Cpu) : ℕ := if c.cpl = 0 then 16 else 18

/-- The address of its frame. -/
def interruptFp (g : Gate) (c : Cpu) : Word :=
  interruptTop g c - 4 * BitVec.ofNat 32 (frameLength c)

lemma length_interruptFrame (c : Cpu) (x y : Word) :
    (interruptFrame c x y).length = frameLength c := by
  by_cases h : c.cpl = 0 <;> simp [interruptFrame, pushedWords, frameLength, h]

lemma frameLength_le (c : Cpu) : frameLength c ≤ 18 := by
  by_cases h : c.cpl = 0 <;> simp [frameLength, h]

/-- `pusha`, and the data segment registers. -/
lemma run_saveContext (k : Core) : run T saveContext k =
    .ok (k.pushAll ([k.cpu.seg .ds, k.cpu.seg .es, k.cpu.seg .fs, k.cpu.seg .gs] ++
      [k.cpu.edi, k.cpu.esi, k.cpu.ebp, k.cpu.esp, k.cpu.ebx, k.cpu.edx, k.cpu.ecx,
        k.cpu.eax])) := by
  obtain ⟨k₁, hk₁⟩ : ∃ k₁, k₁ = k.pushAll [k.cpu.edi, k.cpu.esi, k.cpu.ebp, k.cpu.esp, k.cpu.ebx,
      k.cpu.edx, k.cpu.ecx, k.cpu.eax] := ⟨_, rfl⟩
  have hsegs : run T [.pushSeg .gs, .pushSeg .fs, .pushSeg .es, .pushSeg .ds] k₁ =
      .ok (k₁.pushAll [k.cpu.seg .ds, k.cpu.seg .es, k.cpu.seg .fs, k.cpu.seg .gs]) := by
    refine run_pushes ?_
    rw [hk₁, Core.pushAll_cpu]
    rfl
  rw [saveContext, run_cons, exec_pusha, ok_bind, ← hk₁, hsegs, hk₁, Core.pushAll_append]

/-- **`keyboard_handler` saves the thread** that it interrupts. -/
lemma run_keyboardEnter (g : Gate) (k : Core) : ∃ x y,
    run T keyboardEnter (enterInterrupt g k) =
      .ok ((⟨Gate.interrupt g k.cpu, k.mem⟩ : Core).pushAll (interruptFrame k.cpu x y)) := by
  obtain ⟨k₀, hk₀⟩ : ∃ k₀, k₀ = (⟨Gate.interrupt g k.cpu, k.mem⟩ : Core).pushAll
      (pushedWords k.cpu) := ⟨_, rfl⟩
  obtain ⟨y, hy⟩ : ∃ y, y = k₀.mem (k₀.cpu.esp - 4) := ⟨_, rfl⟩
  refine ⟨(k₀.push y).cpu.esp, y, ?_⟩
  have hcpu : (k₀.push y).cpu =
      { Gate.interrupt g k.cpu with esp := (k₀.push y).cpu.esp } := by
    rw [Core.push, hk₀, Core.pushAll_cpu]
  have hload : Gate.interrupt g k.cpu = { k.cpu with
      cpl := (Gate.interrupt g k.cpu).cpl
      eip := (Gate.interrupt g k.cpu).eip
      esp := (Gate.interrupt g k.cpu).esp
      eflags := (Gate.interrupt g k.cpu).eflags
      cs := (Gate.interrupt g k.cpu).cs
      ss := (Gate.interrupt g k.cpu).ss } := by
    unfold Gate.interrupt
    split <;> rfl
  rw [keyboardEnter, enterInterrupt, ← hk₀, run_cons, exec_skip, ok_bind, ← hy, run_saveContext]
  have hpushed : (⟨Gate.interrupt g k.cpu, k.mem⟩ : Core).pushAll (y :: pushedWords k.cpu) =
      k₀.push y := by
    rw [Core.pushAll_cons, ← hk₀]
  rw [interruptFrame, Core.pushAll_append, Core.pushAll_append, Core.pushAll_append, hpushed, hcpu,
    hload]
  rfl

/-- **A frame of the kernel is left**: the words above it are the thread's stack again. -/
lemma restoreContext_kernel (hc : KernelMode T c) (hcpl : c'.cpl = 0)
    (hnt : c'.flag ntFlag = false) (hss : c'.ss = c.ss)
    (hf : Stacked m (c.esp - 64) (interruptFrame c x y)) :
    restoreContext T m (c.esp - 64) c' = .ok c := by
  obtain ⟨q, hq⟩ : ∃ q : Word, c.esp - 64 = q + 8 := ⟨c.esp - 72, by bv_omega⟩
  have hpushed : pushedWords c = [c.eip, c.seg .cs, c.eflags] := if_pos hc.cpl
  rw [hq] at hf ⊢
  simp only [interruptFrame, hpushed, List.cons_append, List.nil_append, stacked_cons, stacked_nil,
    and_true, BitVec.add_assoc, BitVec.reduceAdd, BitVec.ofNat_eq_ofNat] at hf
  obtain ⟨h0, h1, h2, h3, h4, h5, h6, -, h8, h9, h10, h11, -, h13, h14, h15⟩ := hf
  obtain ⟨d, hcode, hlimit⟩ := hc.code
  have hsel : ∀ {a : Word} {s : Selector}, m a = s.zeroExtend 32 → Selector.ofWord (m a) = s :=
    fun ha => by rw [ha, ofWord_zeroExtend]
  have hds : Selector.ofWord (uregAt m q).ds = c.ds := hsel h0
  have hes : Selector.ofWord (uregAt m q).es = c.es := hsel h1
  have hfs : Selector.ofWord (uregAt m q).fs = c.fs := hsel h2
  have hgs : Selector.ofWord (uregAt m q).gs = c.gs := hsel h3
  have hcs : Selector.ofWord (uregAt m q).cs = c.cs := hsel h14
  have hflags : (uregAt m q).eflags = c.eflags := h15
  obtain ⟨reip, rcs, rflags, -, -⟩ := beforeIret_reads m q c'
  have hiret : iret T m (beforeIret m q c') = iretSame m c.cs d (beforeIret m q c') :=
    iret_of_same hnt (by rw [rflags, hflags]; exact hc.vm) (by rw [rcs, hcs]) hcode hc.ring
  rw [restoreContext_eq_ok_iff, hds, hes, hfs, hgs, hcpl]
  refine ⟨hc.ds, hc.es, hc.fs, hc.gs, ?_⟩
  rw [hiret, iretSame_flat hlimit, reip, rflags, hflags]
  have hesp : q + 60 + 12 = c.esp := by bv_omega
  simp only [beforeIret, hds, hes, hfs, hgs, hesp, hss, hcpl, ← hc.cpl]
  simp only [uregAt, BitVec.ofNat_eq_ofNat, h4, h5, h6, h8, h9, h10, h11, h13]

/-- **The frame of an interrupt is left**: the thread goes on as it was. -/
lemma restoreContext_interrupt (hc : UserRuns T c ∨ KernelMode T c) (hcpl : c'.cpl = 0)
    (hnt : c'.flag ntFlag = false) (hss : c.cpl = 0 → c'.ss = c.ss)
    (hf : Stacked m (interruptFp g c) (interruptFrame c x y)) :
    restoreContext T m (interruptFp g c) c' = .ok c := by
  rcases hc with hc | hc
  · have hout : c.cpl ≠ 0 := by
      rw [hc.cpl]
      decide
    have hframe : interruptFrame c x y = frameWords c (some y) x := by
      rw [interruptFrame, pushedWords, if_neg hout]
      rfl
    rw [hframe] at hf
    exact restoreContext_frame hc hcpl hnt hf
  · have hfp : interruptFp g c = c.esp - 64 := by
      rw [interruptFp, interruptTop, frameLength, if_pos hc.cpl, if_pos hc.cpl]
      rfl
    rw [hfp] at hf ⊢
    exact restoreContext_kernel hc hcpl hnt (hss hc.cpl) hf

/-- What is on the stack of a thread whose interrupt is being handled. -/
structure Interrupted (g : Gate) (k kc : Core) : Prop where
  frame : ∃ x y, Stacked kc.mem (interruptFp g k.cpu) (interruptFrame k.cpu x y)
  others : ∀ a : Word, (∀ i < 19, a ≠ interruptTop g k.cpu - 4 * BitVec.ofNat 32 (i + 1)) →
    kc.mem a = k.mem a
  disabled : kc.cpu.flag 9 = false
  level : kc.cpu.cpl = 0
  ss : k.cpu.cpl = 0 → kc.cpu.ss = k.cpu.ss

lemma interrupt_ss (g : Gate) (h : c.cpl = 0) : (Gate.interrupt g c).ss = c.ss := by
  rw [Gate.interrupt, if_pos h]

/-- The two handlers, where they call their C functions. -/
lemma interrupted_handlers (g : Gate) (k : Core) :
    (∃ kc, run T keyboardEnter (enterInterrupt g k) = .ok kc ∧
      kc.cpu.esp = interruptFp g k.cpu ∧ Interrupted g k kc) ∧
    ∃ kc, run T timerEnter (enterInterrupt g k) = .ok kc ∧
      kc.cpu.esp = interruptFp g k.cpu - 4 ∧ kc.mem kc.cpu.esp = interruptFp g k.cpu ∧
      Interrupted g k kc := by
  -- the handler pushes the words `ws` onto the kernel stack that the gate leaves
  obtain ⟨x, y, hrun⟩ := run_keyboardEnter (T := T) g k
  obtain ⟨ws, hws⟩ : ∃ ws, ws = interruptFrame k.cpu x y := ⟨_, rfl⟩
  obtain ⟨k₀, hk₀⟩ : ∃ k₀ : Core, k₀ = ⟨Gate.interrupt g k.cpu, k.mem⟩ := ⟨_, rfl⟩
  have hlen : ws.length = frameLength k.cpu := by rw [hws, length_interruptFrame]
  have hle := frameLength_le k.cpu
  have htop : k₀.cpu.esp = interruptTop g k.cpu := by
    rw [hk₀, Gate.interrupt, interruptTop]
    split <;> rfl
  have hlevel : k₀.cpu.cpl = 0 := by
    rw [hk₀, Gate.interrupt]
    split
    · assumption
    · rfl
  -- the gate turns interrupts off
  have hdisabled : k₀.cpu.flag 9 = false := by
    have hflags : k₀.cpu.eflags = k.cpu.eflags &&& ~~~interruptFlags := by
      rw [hk₀, Gate.interrupt]
      split <;> rfl
    rw [Cpu.flag, hflags, BitVec.getLsbD_and, BitVec.getLsbD_not]
    exact Bool.and_eq_false_iff.mpr (.inr (by decide))
  rw [← hws, ← hk₀] at hrun
  obtain ⟨k₁, hk₁⟩ : ∃ k₁, k₁ = k₀.pushAll ws := ⟨_, rfl⟩
  rw [← hk₁] at hrun
  have hcpu₁ : k₁.cpu = { k₀.cpu with esp := interruptFp g k.cpu } := by
    rw [hk₁, Core.pushAll_cpu, hlen, htop]
    rfl
  have hesp₁ : k₁.cpu.esp = interruptFp g k.cpu := by rw [hcpu₁]
  have hframe : Stacked k₁.mem (interruptFp g k.cpu) ws := by
    rw [← hesp₁, hk₁]
    exact stacked_pushAll _ (by omega)
  -- nothing is written but the at most nineteen words below the top
  have hothers : ∀ a : Word, (∀ i < 19, a ≠ interruptTop g k.cpu - 4 * BitVec.ofNat 32 (i + 1)) →
      k₁.mem a = k.mem a := by
    intro a ha
    rw [hk₁, k₀.pushAll_mem, hk₀]
    intro i hi
    rw [htop]
    exact ha i (by omega)
  have hsaved : Interrupted g k k₁ := by
    refine ⟨⟨x, y, hws ▸ hframe⟩, hothers, ?_, ?_, fun h => ?_⟩
    · rw [hcpu₁]
      exact hdisabled
    · rw [hcpu₁]
      exact hlevel
    · rw [hcpu₁, hk₀]
      exact interrupt_ss g h
  -- the timer handler pushes the pointer to the frame as well
  refine ⟨⟨k₁, hrun, hesp₁, hsaved⟩, k₁.push k₁.cpu.esp, ?_, ?_, ?_, ?_⟩
  · have hcode : timerEnter = keyboardEnter ++ [.push .esp] := rfl
    rw [hcode, run_append, hrun, ok_bind]
    rfl
  · rw [Core.push_esp, hesp₁]
  · rw [Core.push_esp, Core.push_mem, Function.update_self, hesp₁]
  · refine ⟨⟨x, y, hws ▸ hframe.update (fun i hi => ?_) _⟩, fun a ha => ?_, hsaved.disabled,
      hsaved.level, hsaved.ss⟩
    · rw [hlen] at hi
      rw [hesp₁]
      bv_omega
    · rw [Core.push_mem, Function.update_of_ne, hothers a ha]
      have hlast := ha (frameLength k.cpu) (by omega)
      rw [hesp₁, interruptFp]
      intro heq
      rw [heq] at hlast
      exact hlast (by bv_omega)

/-- The frame of an interrupted thread is there. -/
def KeepsInterrupt (g : Gate) (c : Cpu) (kc k₁ : Core) : Prop :=
  ∀ i < frameLength c, k₁.mem (interruptFp g c + 4 * BitVec.ofNat 32 i) =
    kc.mem (interruptFp g c + 4 * BitVec.ofNat 32 i)

/-- Another thread has run, or none, and `restore_context` is called with the frame; the stack
segment of the kernel is the one that the thread had, if it was in the kernel. -/
structure InterruptResumes (g : Gate) (c : Cpu) (kc k₁ : Core) : Prop where
  frame : KeepsInterrupt g c kc k₁
  cpl : k₁.cpu.cpl = 0
  nt : k₁.cpu.flag ntFlag = false
  ss : c.cpl = 0 → k₁.cpu.ss = c.ss
  oldEsp : k₁.mem (k₁.cpu.esp + 4) = interruptFp g c

/-- The C function of an interrupt returns. -/
structure InterruptReturns (g : Gate) (c : Cpu) (kc k₁ : Core) : Prop where
  frame : KeepsInterrupt g c kc k₁
  cpu : k₁.cpu = { kc.cpu with
    eip := k₁.cpu.eip
    eflags := k₁.cpu.eflags
    edx := k₁.cpu.edx
    ecx := k₁.cpu.ecx
    eax := k₁.cpu.eax }
  nt : k₁.cpu.flag ntFlag = false

lemma run_keyboardLeave (k : Core) : run T keyboardLeave k =
    (restoreContext T k.mem k.cpu.esp k.cpu).map fun c => ⟨c, k.mem⟩ := by
  have htail : ∀ c : Cpu, run T [.popa, .add 4 .esp, .iret] ⟨c, k.mem⟩ =
      (iret T k.mem { popa k.mem c with esp := (popa k.mem c).esp + 4 }).map
        fun c => ⟨c, k.mem⟩ := fun c => run_iret
  simp only [keyboardLeave, run_popSeg, restoreContext, map_bind, htail]

/-- `restore_context` with the frame of an interrupt. -/
lemma InterruptResumes.run (hk : UserRuns T k.cpu ∨ KernelMode T k.cpu)
    (hkc : Interrupted g k kc) (h : InterruptResumes g k.cpu kc k₁) :
    run T restoreContextCode k₁ = .ok ⟨k.cpu, k₁.mem⟩ := by
  obtain ⟨x, y, hframe⟩ := hkc.frame
  rw [run_restoreContextCode, h.oldEsp, restoreContext_interrupt hk h.cpl h.nt h.ss]
  · rfl
  · refine hframe.congr fun i hi => h.frame i ?_
    rwa [length_interruptFrame] at hi

/-- **An interrupt is not noticed** by the thread that it interrupts, in its program or in the
kernel. The handlers run with interrupts disabled, and write nothing but the words below the
thread's stack. The keyboard's returns to the thread; the timer's goes on with the frame that
`c_timer_handler` gives back, and whenever `restore_context` is called with the frame of the
thread, all of its registers are what they were. -/
theorem interrupt_transparent (hk : UserRuns T k.cpu ∨ KernelMode T k.cpu) (g : Gate) :
    (∃ kc, run T keyboardEnter (enterInterrupt g k) = .ok kc ∧ Interrupted g k kc ∧
      ∀ k₁, InterruptReturns g k.cpu kc k₁ → run T keyboardLeave k₁ = .ok ⟨k.cpu, k₁.mem⟩) ∧
    ∃ kc, run T timerEnter (enterInterrupt g k) = .ok kc ∧ Interrupted g k kc ∧
      kc.mem kc.cpu.esp = interruptFp g k.cpu ∧
      (∀ k₁ ra, InterruptReturns g k.cpu kc k₁ → k₁.cpu.eax = interruptFp g k.cpu →
        run T (timerLeave ra) k₁ =
          .ok ⟨k.cpu, (k₁.pushAll [ra, interruptFp g k.cpu]).mem⟩) ∧
      ∀ k₁, InterruptResumes g k.cpu kc k₁ →
        run T restoreContextCode k₁ = .ok ⟨k.cpu, k₁.mem⟩ := by
  obtain ⟨⟨kb, hkeyboard, hespb, hkb⟩, kt, htimer, hespt, harg, hkt⟩ :=
    interrupted_handlers (T := T) g k
  refine ⟨⟨kb, hkeyboard, hkb, fun k₁ h => ?_⟩, kt, htimer, hkt, harg, fun k₁ ra h heax => ?_,
    fun k₁ h => h.run hk hkt⟩
  · obtain ⟨x, y, hframe⟩ := hkb.frame
    have hesp : k₁.cpu.esp = interruptFp g k.cpu := by
      rw [h.cpu]
      exact hespb
    have hcpl : k₁.cpu.cpl = 0 := by
      rw [h.cpu]
      exact hkb.level
    rw [run_keyboardLeave, hesp, restoreContext_interrupt hk hcpl h.nt]
    · rfl
    · intro h₀
      rw [h.cpu]
      exact hkb.ss h₀
    · refine hframe.congr fun i hi => h.frame i ?_
      rwa [length_interruptFrame] at hi
  · -- the two words for `restore_context` are below the frame
    have hesp : k₁.cpu.esp = interruptFp g k.cpu - 4 := by
      rw [h.cpu]
      exact hespt
    have hle := frameLength_le k.cpu
    have hresumes : InterruptResumes g k.cpu kt (k₁.pushAll [ra, interruptFp g k.cpu]) := by
      refine ⟨fun i hi => ?_, ?_, h.nt, fun h₀ => ?_, ?_⟩
      · rw [k₁.pushAll_mem]
        · exact h.frame i hi
        · intro j hj
          rw [List.length_cons, List.length_cons, List.length_nil] at hj
          rw [hesp]
          bv_omega
      · change k₁.cpu.cpl = 0
        rw [h.cpu]
        exact hkt.level
      · change k₁.cpu.ss = k.cpu.ss
        rw [h.cpu]
        exact hkt.ss h₀
      · obtain ⟨-, hold, -⟩ : Stacked (k₁.pushAll [ra, interruptFp g k.cpu]).mem
            (k₁.pushAll [ra, interruptFp g k.cpu]).cpu.esp [ra, interruptFp g k.cpu] :=
          stacked_pushAll k₁ (by simp)
        exact hold
    have hcode : run T (timerLeave ra) k₁ =
        run T restoreContextCode (k₁.pushAll [ra, interruptFp g k.cpu]) := by
      rw [timerLeave, run_cons, exec_push, ok_bind, run_cons, exec_pushImm, ok_bind,
        show k₁.cpu.get .eax = k₁.cpu.eax from rfl, heax]
      rfl
    rw [hcode, hresumes.run hk hkt]

theorem interrupt_transparent_kernel : KernelMode flatTables handlerCpu ∧
    ∃ kc, run flatTables timerEnter (enterInterrupt ⟨0x200000, 0x18, 0x10, 0x100000⟩
        ⟨handlerCpu, fun _ => 0⟩) = .ok kc ∧
      ∀ k₁, InterruptResumes ⟨0x200000, 0x18, 0x10, 0x100000⟩ handlerCpu kc k₁ →
        run flatTables restoreContextCode k₁ = .ok ⟨handlerCpu, k₁.mem⟩ := by
  obtain ⟨-, kc, henter, -, -, -, hresume⟩ := interrupt_transparent (k := ⟨handlerCpu, fun _ => 0⟩)
    (.inr Wrappers.kernelMode_handlerCpu) ⟨0x200000, 0x18, 0x10, 0x100000⟩
  exact ⟨Wrappers.kernelMode_handlerCpu, kc, henter, hresume⟩

end ShrekOS.Traps
