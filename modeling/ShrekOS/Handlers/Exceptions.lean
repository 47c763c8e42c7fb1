/-
The way of an exception of a user program: the wrappers of
`handlers/exception_handler_wrappers.S`, the C functions of `handlers/exception_handlers.c`, and
`get_user_eflags` of `special_register_cntrl/spec_reg_wrappers.c`.

* `Exception`: the exceptions, with their wrappers and what `install_exception_handlers` installs
  for them: `Exception.handler`, and `Exception.raised` for the two that are instructions;
* `faultHandler`, `Exception.cHandler`: the C functions;
* `cHandler_eq`: **every C function and its wrapper agree** on the error code;
* `run_wrapperLeave`, `savedFrame_handlerMem`: the way out, with the frame that
  `swexn_execute` has changed;
* `exception_handled`: **an exception of a user program** is delivered to its handler, or the
  thread vanishes;
* `SwexnThread`, `swexnThread_of_reachable`: **a handler is entered once** for each registration.

The constants of `ureg.h` are not part of the sources: `SwexnCauses` stands for them.
-/
import ShrekOS.Handlers.Traps
import ShrekOS.Lib.Runs

namespace ShrekOS.Exceptions

open Kit Kit.Ring
open Traps (UserRuns interruptFlags popSegs_program iret_program run_saveContext)

/-! ### The exceptions -/

/-- The exceptions that have a handler; also the constants `IDT_DE` to `IDT_XF`. -/
inductive Exception where
  | divisionError
  | debugException
  | breakpoint
  | overflow
  | boundRange
  | undefOp
  | noMath
  | doubleFault
  | coprocessorSegmentOverrun
  | invalidTss
  | segmentNotPresent
  | ssFault
  | gpFault
  | pageFault
  | mathFault
  | alignFault
  | machineCheckFault
  | simdFault
  deriving DecidableEq

/-- The macro of a wrapper: `wrapper_error_code`, or `wrapper`. -/
def Exception.errorCode : Exception → Bool
  | .pageFault | .doubleFault | .invalidTss | .segmentNotPresent | .ssFault | .gpFault
  | .alignFault => true
  | _ => false

/-- The gate of an exception, in `install_exception_handlers`: a trap gate, or an interrupt
gate. -/
def Exception.trapGate : Exception → Bool
  | .breakpoint | .overflow | .undefOp => true
  | _ => false

/-- The handler that `install_exception_handlers` puts at the vector of an exception: stack faults
get the one of page faults. -/
def Exception.handler : Exception → Exception
  | .ssFault => .pageFault
  | e => e

/-- What the processor raises for an exception of a user program: the gates of `int3` and `into`
have privilege level 0, and these instructions are general protection faults. -/
def Exception.raised : Exception → Exception
  | .breakpoint | .overflow => .gpFault
  | e => e

lemma Exception.errorCode_handler (e : Exception) : e.handler.errorCode = e.errorCode := by
  cases e <;> rfl

/-- `SWEXN_CAUSE_PAGEFAULT` and the others of `ureg.h`. -/
structure SwexnCauses where
  pagefault : Word
  divide : Word
  debug : Word
  breakpoint : Word
  overflow : Word
  boundcheck : Word
  opcode : Word
  nofpu : Word
  segfault : Word
  stackfault : Word
  protfault : Word
  fpufault : Word
  alignfault : Word
  simdfault : Word

/-! ### The C functions -/

/-- What a C function finds: an uninitialised `ureg_t`, what `get_cr2` and `get_eflags` return,
the memory, and what is registered for the current thread. -/
structure Found where
  ureg : Ureg
  cr2 : Word
  eflags : Word
  mem : Word → Word
  tcb : Option SwexnHandler

/-- What it leaves: the memory, what is registered, the status that it has set, the reasons that
it has printed, and whether it has called `thr_vanish`. -/
structure HandlerRun where
  mem : Word → Word
  tcb : Option SwexnHandler
  status : Option ℤ
  dumps : List String
  vanished : Bool

/-- `get_user_eflags`: the flags of the kernel, with interrupts on. -/
def getUserEflags (eflags : Word) : Word := eflags ||| (0 <<< 18) ||| (1 <<< 1) ||| (1 <<< 9)

/-- The `reason` of `exception_dump`. -/
def exceptionDump : Exception → String
  | .divisionError => "division error"
  | .debugException => "debug exception"
  | .boundRange => "bound range exceeded"
  | .undefOp => "undefined opcode"
  | .noMath => "no math coprocessor"
  | .doubleFault => "double fault"
  | .coprocessorSegmentOverrun => "coprocessor segment overrun"
  | .invalidTss => "invalid task segment selector"
  | .segmentNotPresent => "segment not present"
  | .ssFault => "stack segment fault"
  | .gpFault => "general protection fault"
  | .pageFault => "page fault"
  | .mathFault => "math fault"
  | .alignFault => "alignment check"
  | .machineCheckFault => "machine check"
  | .simdFault => "floating point exception"
  -- the two without a case of their own
  | .breakpoint | .overflow => "unknown"

/-- `thr_set_status(-2)`, the dumps and `thr_vanish`. -/
def killThread (mem : Word → Word) (tcb : Option SwexnHandler) (e : Exception) : HandlerRun where
  mem := mem
  tcb := tcb
  status := some (-2)
  dumps := [exceptionDump e]
  vanished := true

/-- The C functions that try `swexn_execute` first. -/
def faultHandler (x : Found) (cause stack : Word) (generatesErrorCode : Bool) (e : Exception) :
    HandlerRun :=
  let r := swexnExecute x.ureg x.cr2 (getUserEflags x.eflags) x.mem cause stack generatesErrorCode
    x.tcb
  if r.ret = 0 then ⟨r.mem, r.tcb, none, [], false⟩ else killThread r.mem r.tcb e

variable (k : SwexnCauses) (x : Found) (stack : Word)

/-- `page_fault_c_handler`. -/
def pageFaultCHandler : HandlerRun := faultHandler x k.pagefault stack true .pageFault

/-- `double_fault_c_handler`: it prints, and returns. -/
def doubleFaultCHandler : HandlerRun where
  mem := x.mem
  tcb := x.tcb
  status := none
  dumps := [exceptionDump .doubleFault]
  vanished := false

/-- `division_error_c_handler`. -/
def divisionErrorCHandler : HandlerRun := faultHandler x k.divide stack false .divisionError

/-- `debug_exception_c_handler`. -/
def debugExceptionCHandler : HandlerRun := faultHandler x k.debug stack false .debugException

/-- `breakpoint_c_handler`. -/
def breakpointCHandler : HandlerRun := faultHandler x k.breakpoint stack false .breakpoint

/-- `overflow_c_handler`. -/
def overflowCHandler : HandlerRun := faultHandler x k.overflow stack false .overflow

/-- `bound_range_c_handler`. -/
def boundRangeCHandler : HandlerRun := faultHandler x k.boundcheck stack false .boundRange

/-- `undef_op_c_handler`. -/
def undefOpCHandler : HandlerRun := faultHandler x k.opcode stack false .undefOp

/-- `no_math_c_handler`. -/
def noMathCHandler : HandlerRun := faultHandler x k.nofpu stack false .noMath

/-- `coprocessor_segment_overrun_c_handler`. -/
def coprocessorSegmentOverrunCHandler : HandlerRun :=
  killThread x.mem x.tcb .coprocessorSegmentOverrun

/-- `invalid_tss_c_handler`. -/
def invalidTssCHandler : HandlerRun := killThread x.mem x.tcb .invalidTss

/-- `segment_not_present_c_handler`. -/
def segmentNotPresentCHandler : HandlerRun :=
  faultHandler x k.segfault stack true .segmentNotPresent

/-- `ss_fault_c_handler`. -/
def ssFaultCHandler : HandlerRun := faultHandler x k.stackfault stack true .ssFault

/-- `gp_fault_c_handler`. -/
def gpFaultCHandler : HandlerRun := faultHandler x k.protfault stack true .gpFault

/-- `math_fault_c_handler`. -/
def mathFaultCHandler : HandlerRun := faultHandler x k.fpufault stack false .mathFault

/-- `align_fault_c_handler`. -/
def alignFaultCHandler : HandlerRun := faultHandler x k.alignfault stack true .alignFault

/-- `machine_check_fault_c_handler`: it sets no status. -/
def machineCheckFaultCHandler : HandlerRun where
  mem := x.mem
  tcb := x.tcb
  status := none
  dumps := [exceptionDump .machineCheckFault]
  vanished := true

/-- `simd_fault_c_handler`. -/
def simdFaultCHandler : HandlerRun := faultHandler x k.simdfault stack false .simdFault

/-- The C function that the wrapper of this name calls. -/
def Exception.cHandler : Exception → HandlerRun
  | .divisionError => divisionErrorCHandler k x stack
  | .debugException => debugExceptionCHandler k x stack
  | .breakpoint => breakpointCHandler k x stack
  | .overflow => overflowCHandler k x stack
  | .boundRange => boundRangeCHandler k x stack
  | .undefOp => undefOpCHandler k x stack
  | .noMath => noMathCHandler k x stack
  | .doubleFault => doubleFaultCHandler x
  | .coprocessorSegmentOverrun => coprocessorSegmentOverrunCHandler x
  | .invalidTss => invalidTssCHandler x
  | .segmentNotPresent => segmentNotPresentCHandler k x stack
  | .ssFault => ssFaultCHandler k x stack
  | .gpFault => gpFaultCHandler k x stack
  | .pageFault => pageFaultCHandler k x stack
  | .mathFault => mathFaultCHandler k x stack
  | .alignFault => alignFaultCHandler k x stack
  | .machineCheckFault => machineCheckFaultCHandler x
  | .simdFault => simdFaultCHandler k x stack

/-- The cause that an exception is delivered with, if it is. -/
def Exception.cause (k : SwexnCauses) : Exception → Option Word
  | .divisionError => some k.divide
  | .debugException => some k.debug
  | .breakpoint => some k.breakpoint
  | .overflow => some k.overflow
  | .boundRange => some k.boundcheck
  | .undefOp => some k.opcode
  | .noMath => some k.nofpu
  | .segmentNotPresent => some k.segfault
  | .ssFault => some k.stackfault
  | .gpFault => some k.protfault
  | .pageFault => some k.pagefault
  | .mathFault => some k.fpufault
  | .alignFault => some k.alignfault
  | .simdFault => some k.simdfault
  | .doubleFault | .coprocessorSegmentOverrun | .invalidTss | .machineCheckFault => none

/-- **Every C function and its wrapper agree** on the error code, and the ones that are given a
cause try `swexn_execute`. -/
theorem cHandler_eq {e : Exception} {cause : Word} (h : e.cause k = some cause) :
    e.cHandler k x stack = faultHandler x cause stack e.errorCode e := by
  cases e with
  | doubleFault | coprocessorSegmentOverrun | invalidTss | machineCheckFault => cases h
  | _ =>
      cases h
      rfl

variable {k x stack}

/-- The exceptions that no handler is told about. -/
lemma cHandler_unseen {e : Exception} (h : e.cause k = none) (he : e ≠ .doubleFault) :
    e.cHandler k x stack =
      ⟨x.mem, x.tcb, if e = .machineCheckFault then none else some (-2), [exceptionDump e],
        true⟩ := by
  cases e with
  | doubleFault => exact absurd rfl he
  | coprocessorSegmentOverrun | invalidTss | machineCheckFault => rfl
  | _ => cases h

/-- Without a handler the thread is killed. -/
lemma faultHandler_noHandler {cause : Word} {b : Bool} {e : Exception} (hs : stack ≠ 0)
    (h : x.tcb = some noHandler) : faultHandler x cause stack b e = killThread x.mem x.tcb e := by
  have hzero : noHandler.esp3 = 0 := rfl
  rw [faultHandler, swexnExecute, uregFromStack, if_neg hs, h]
  cases b <;> simp [tcbDeregisterSwexnHandler, hzero]

/-! ### On the way in -/

variable {T : Ring.Tables} {g : Gate} {m : Word → Word} {c c' : Cpu} {kc k₁ : Core}
  {err : Option Word} {e : Exception} {h : SwexnHandler} {sp fl : Word}

/-- The registers that an exception loads. -/
def Exception.enter (e : Exception) (g : Gate) (c : Cpu) : Cpu :=
  { g.load c with
    eflags := c.eflags &&& ~~~(if e.trapGate then clearedFlags else interruptFlags) }

/-- An exception in a context of user mode, with an error code or without. -/
def enterFault (e : Exception) (g : Gate) (err : Option Word) (c : Cpu) (m : Word → Word) : Core :=
  (⟨e.enter g c, m⟩ : Core).pushAll (err.toList ++ [c.eip, c.seg .cs, c.eflags, c.esp, c.seg .ss])

/-- The address of the frame, which the C function is called with. -/
def frameAddr (g : Gate) (err : Option Word) : Word :=
  g.esp0 - 4 * BitVec.ofNat 32 (17 + err.toList.length)

/-- The kernel stack of the thread has room for a frame and the argument, below the memory of
user programs. -/
structure KernelStack (g : Gate) : Prop where
  room : 80 ≤ g.esp0.toNat
  below : g.esp0.toNat ≤ userMemStart

/-- What an exception has on the kernel stack when its C function is called. -/
structure Entered (e : Exception) (g : Gate) (c : Cpu) (err : Option Word) (kc : Core) : Prop where
  cpu : kc.cpu = { e.enter g c with esp := frameAddr g err - 4 }
  arg : kc.mem kc.cpu.esp = frameAddr g err
  frame : SavedFrame kc.mem (frameAddr g err) c err

lemma length_frameWords (c : Cpu) (err : Option Word) (w : Word) :
    (frameWords c err w).length = 17 + err.toList.length := by
  cases err <;> rfl

lemma length_toList_le (err : Option Word) : err.toList.length ≤ 1 := by
  cases err <;> simp

/-- **The wrappers save the program**, and pass the address of the frame. -/
lemma run_wrapperCall (e : Exception) (g : Gate) (err : Option Word) (c : Cpu) (m : Word → Word) :
    ∃ kc, run T wrapperCall (enterFault e g err c m) = .ok kc ∧ Entered e g c err kc := by
  obtain ⟨k₀, hk₀⟩ : ∃ k₀, k₀ = enterFault e g err c m := ⟨_, rfl⟩
  obtain ⟨k₁, hk₁⟩ : ∃ k₁, k₁ =
      (⟨e.enter g c, m⟩ : Core).pushAll (frameWords c err k₀.cpu.esp) := ⟨_, rfl⟩
  have hlen := length_toList_le err
  have hcpu : k₀.cpu = { e.enter g c with esp := k₀.cpu.esp } := by
    rw [hk₀, enterFault, Core.pushAll_cpu]
  have hsave : run T saveContext k₀ = .ok k₁ := by
    have hpush : (⟨e.enter g c, m⟩ : Core).pushAll (frameWords c err k₀.cpu.esp) =
        (enterFault e g err c m).pushAll ([c.seg .ds, c.seg .es, c.seg .fs, c.seg .gs] ++
          [c.edi, c.esi, c.ebp, k₀.cpu.esp, c.ebx, c.edx, c.ecx, c.eax]) :=
      Core.pushAll_append _ _ _
    rw [run_saveContext, hk₁, hpush, ← hk₀, hcpu]
    rfl
  have hcpu₁ : k₁.cpu = { e.enter g c with esp := frameAddr g err } := by
    rw [hk₁, Core.pushAll_cpu, length_frameWords]
    rfl
  have hesp₁ : k₁.cpu.esp = frameAddr g err := by rw [hcpu₁]
  have hframe : Stacked k₁.mem (frameAddr g err) (frameWords c err k₀.cpu.esp) := by
    rw [← hesp₁, hk₁]
    exact stacked_pushAll _ (by rw [length_frameWords]; omega)
  refine ⟨k₁.push k₁.cpu.esp, ?_, ?_, ?_, k₀.cpu.esp, ?_⟩
  · rw [wrapperCall, run_append, ← hk₀, hsave, ok_bind]
    rfl
  · rw [Core.push, hcpu₁]
  · rw [Core.push_esp, Core.push_mem, Function.update_self, hesp₁]
  · rw [Core.push_mem, hesp₁]
    refine hframe.update (fun i hi => ?_) _
    rw [length_frameWords] at hi
    bv_omega

/-! ### On the way out -/

/-- `restore_context` and `restore_context_error_code` of the wrappers. -/
def restoreFrame (errorCode : Bool) : List Instr :=
  .popSeg .ds :: .popSeg .es :: .popSeg .fs :: .popSeg .gs :: .popa ::
    (if errorCode then [.add 4 .esp, .iret] else [.iret])

/-- `wrapper` and `wrapper_error_code` after their call. -/
def wrapperLeave (errorCode : Bool) : List Instr := .add 4 .esp :: restoreFrame errorCode

/-- The C function of an exception returns; `eax`, `ecx`, `edx` and the flags are its own, and so
is the stack from its argument down. -/
structure HandlerReturns (kc : Core) (m : Word → Word) (k₁ : Core) : Prop where
  mem : ∀ a : Word, kc.cpu.esp.toNat < a.toNat → k₁.mem a = m a
  cpu : k₁.cpu = { kc.cpu with
    eip := k₁.cpu.eip
    eflags := k₁.cpu.eflags
    edx := k₁.cpu.edx
    ecx := k₁.cpu.ecx
    eax := k₁.cpu.eax }
  nt : k₁.cpu.flag ntFlag = false

/-- **A frame is left**: the program that it is of goes on. -/
lemma run_restoreFrame (hc : UserRuns T c) (hcpl : k₁.cpu.cpl = 0)
    (hnt : k₁.cpu.flag ntFlag = false) (hf : SavedFrame k₁.mem k₁.cpu.esp c err) :
    run T (restoreFrame err.isSome) k₁ = .ok ⟨c, k₁.mem⟩ := by
  obtain ⟨w, h0, h1, h2, h3, h4, h5, h6, -, h8, h9, h10, h11, hrest⟩ := hf
  obtain ⟨c₁, c₂, c₃, hds, hes, hfs, hgs⟩ :=
    popSegs_program (T := T) k₁.cpu hc hcpl ⟨h0, h1, h2, h3, trivial⟩
  -- the registers that `popa` loads, and what is left for `iret`
  obtain ⟨c₄, hc₄⟩ : ∃ c₄ : Cpu, c₄ = { c with
      cpl := k₁.cpu.cpl
      eip := k₁.cpu.eip
      esp := k₁.cpu.esp + 48
      eflags := k₁.cpu.eflags
      cs := k₁.cpu.cs
      ss := k₁.cpu.ss } := ⟨_, rfl⟩
  have hesp₄ : c₄.esp = k₁.cpu.esp + 48 := by rw [hc₄]
  simp only [BitVec.add_assoc, BitVec.reduceAdd, BitVec.ofNat_eq_ofNat] at h4 h5 h6 h8 h9 h10 h11
  have hpopa : Ring.popa k₁.mem { k₁.cpu with
      ds := c.ds, es := c.es, fs := c.fs, gs := c.gs, esp := k₁.cpu.esp + 4 + 4 + 4 + 4 } = c₄ := by
    simp only [Ring.popa, BitVec.add_assoc, BitVec.reduceAdd, BitVec.ofNat_eq_ofNat, h4, h5, h6, h8,
      h9, h10, h11, hc₄]
  have hiret : ∀ p : Word, Stacked k₁.mem p [c.eip, c.seg .cs, c.eflags, c.esp, c.seg .ss] →
      run T [.iret] ⟨{ c₄ with esp := p }, k₁.mem⟩ = .ok ⟨c, k₁.mem⟩ := by
    intro p hp
    have hout : Ring.iret T k₁.mem { c₄ with esp := p } = .ok c := by
      rw [hc₄, iret_program hc]
      · exact hnt
      · rfl
      · rfl
      · rfl
      · rfl
      · exact hp
    rw [run_iret, hout]
    rfl
  rw [restoreFrame, run_popSeg, hds, ok_bind, run_popSeg, hes, ok_bind, run_popSeg, hfs, ok_bind,
    run_popSeg, hgs, ok_bind, run_cons, exec, ok_bind, hpopa]
  cases err with
  | none =>
      have hwords : Stacked k₁.mem (k₁.cpu.esp + 48)
          [c.eip, c.seg .cs, c.eflags, c.esp, c.seg .ss] := by
        have hp : k₁.cpu.esp + 48 =
            k₁.cpu.esp + 4 + 4 + 4 + 4 + 4 + 4 + 4 + 4 + 4 + 4 + 4 + 4 := by bv_omega
        rw [hp]
        exact hrest
      have hlast := hiret _ hwords
      rw [← hesp₄] at hlast
      exact hlast
  | some y =>
      have hwords : Stacked k₁.mem (c₄.esp + 4)
          [c.eip, c.seg .cs, c.eflags, c.esp, c.seg .ss] := by
        have hp : c₄.esp + 4 =
            k₁.cpu.esp + 4 + 4 + 4 + 4 + 4 + 4 + 4 + 4 + 4 + 4 + 4 + 4 + 4 := by
          rw [hesp₄]
          bv_omega
        rw [hp]
        exact hrest.2
      have hadd : run T [.add 4 .esp, .iret] ⟨c₄, k₁.mem⟩ =
          run T [.iret] ⟨{ c₄ with esp := c₄.esp + 4 }, k₁.mem⟩ := by
        rw [run_cons, exec, ok_bind]
        rfl
      exact hadd.trans (hiret _ hwords)

/-- **A wrapper leaves its frame** when the C function has returned. -/
lemma run_wrapperLeave (hc : UserRuns T c) (hcpl : k₁.cpu.cpl = 0)
    (hnt : k₁.cpu.flag ntFlag = false) (hf : SavedFrame k₁.mem (k₁.cpu.esp + 4) c err) :
    run T (wrapperLeave err.isSome) k₁ = .ok ⟨c, k₁.mem⟩ := by
  have hskip : run T (wrapperLeave err.isSome) k₁ =
      run T (restoreFrame err.isSome) ⟨{ k₁.cpu with esp := k₁.cpu.esp + 4 }, k₁.mem⟩ := by
    rw [wrapperLeave, run_cons, exec, ok_bind]
    rfl
  rw [hskip, run_restoreFrame hc]
  · exact hcpl
  · exact hnt
  · exact hf

/-! ### Delivery -/

/-- The context that the handler of a program starts in. -/
def handlerContext (c : Cpu) (h : SwexnHandler) (fl : Word) : Cpu :=
  { c with
    cpl := 3
    eip := h.eip
    esp := h.esp3 - 92
    eflags := fl
    cs := Selector.ofWord segselUserCs
    ss := Selector.ofWord segselUserDs }

/-- The frame is not where the words for the handler are written. -/
lemma stacked_apart (hap : FrameApart sp err h.esp3) {ws : List Word} (hf : Stacked m sp ws)
    (hlen : ws.length = 17 + err.toList.length) {i : ℕ} (hi : i < 23) (w : Word) :
    Stacked (store m (h.esp3 - 92 + 4 * BitVec.ofNat 32 i) w) sp ws := by
  refine hf.update (fun j hj => ?_) w
  have hne := hap (4 * j) (by omega) (4 * i) (by omega)
  bv_omega

lemma stacked_storeWords_apart (hap : FrameApart sp err h.esp3) {ws us : List Word}
    (hf : Stacked m sp ws) (hlen : ws.length = 17 + err.toList.length) {i : ℕ}
    (hi : i + us.length ≤ 23) :
    Stacked (storeWords m (h.esp3 - 92 + 4 * BitVec.ofNat 32 i) us) sp ws := by
  induction us generalizing i with
  | nil => exact hf
  | cons u us ih =>
      rw [List.length_cons] at hi
      have hp : h.esp3 - 92 + 4 * BitVec.ofNat 32 i + 4 =
          h.esp3 - 92 + 4 * BitVec.ofNat 32 (i + 1) := by bv_omega
      rw [storeWords, hp]
      exact stacked_apart hap (ih (by omega)) hlen (by omega) u

/-- **The frame that `swexn_execute` leaves** is one of the handler's context. -/
lemma savedFrame_handlerMem (hf : SavedFrame m sp c err) (hap : FrameApart sp err h.esp3)
    (u : Ureg) (fl : Word) :
    SavedFrame (handlerMem h u fl m sp err.isSome) sp (handlerContext c h fl) err := by
  obtain ⟨w, hf⟩ := hf
  refine ⟨w, ?_⟩
  have hlen := length_frameWords c err w
  have hureg : h.esp3 - 80 = h.esp3 - 92 + 4 * BitVec.ofNat 32 3 := by bv_omega
  have harg : h.esp3 - 80 - 4 = h.esp3 - 92 + 4 * BitVec.ofNat 32 2 := by bv_omega
  have harg₁ : h.esp3 - 80 - 4 - 4 = h.esp3 - 92 + 4 * BitVec.ofNat 32 1 := by bv_omega
  have harg₂ : h.esp3 - 80 - 4 - 8 = h.esp3 - 92 + 4 * BitVec.ofNat 32 0 := by bv_omega
  obtain ⟨m₁, hm₁⟩ : ∃ m₁, m₁ = store (store (store (storeWords m (h.esp3 - 80) u.words)
      (h.esp3 - 80 - 4) (h.esp3 - 80)) (h.esp3 - 80 - 4 - 4) h.arg) (h.esp3 - 80 - 4 - 8) 0 :=
    ⟨_, rfl⟩
  have hf₁ : Stacked m₁ sp (frameWords c err w) := by
    rw [hm₁, harg₂, harg₁, harg]
    refine stacked_apart hap (stacked_apart hap (stacked_apart hap ?_ hlen ?_ _) hlen ?_ _) hlen
      ?_ _
    · rw [hureg]
      exact stacked_storeWords_apart hap hf hlen (by simp [Ureg.words])
    · decide
    · decide
    · decide
  rw [handlerMem, ← hm₁]
  have hesp : h.esp3 - 80 - 4 - 8 = h.esp3 - 92 := by bv_omega
  rw [hesp]
  have hle := length_toList_le err
  have hset : ∀ {m : Word → Word} {ws : List Word} (j : ℕ) (w : Word), Stacked m sp ws →
      ws.length = 17 + err.toList.length → j < 17 + err.toList.length →
        Stacked (store m (sp + 4 * BitVec.ofNat 32 j) w) sp (ws.set j w) :=
    fun j w hm hws hj => hm.set (by omega) (by omega) w
  cases err with
  | none =>
      have h₁ := hset 15 (h.esp3 - 92) hf₁ rfl (by decide)
      have h₂ := hset 16 segselUserDs h₁ rfl (by decide)
      have h₃ := hset 14 fl h₂ rfl (by decide)
      have h₄ := hset 13 segselUserCs h₃ rfl (by decide)
      exact hset 12 h.eip h₄ rfl (by decide)
  | some y =>
      have h₁ := hset 16 (h.esp3 - 92) hf₁ rfl (by simp)
      have h₂ := hset 17 segselUserDs h₁ rfl (by simp)
      have h₃ := hset 15 fl h₂ rfl (by simp)
      have h₄ := hset 14 segselUserCs h₃ rfl (by simp)
      exact hset 13 h.eip h₄ rfl (by simp)

/-- A handler that `swexn` has registered, with room for the words that it is given. -/
structure Roomy (h : SwexnHandler) : Prop where
  registered : Registered h
  room : userMemStart + 92 ≤ h.esp3.toNat

/-- The flags that arithmetic and string instructions change. -/
def arithmeticFlags : Word := 0xcd5

/-- The C function has the system flags of its call. -/
def SystemFlags (fl fl' : Word) : Prop := fl ||| arithmeticFlags = fl' ||| arithmeticFlags

/-- **An exception is delivered**: the handler of the program starts on its stack, with its
argument and a `ureg_t` that holds the context of the exception, and with all other registers as
they were. -/
structure Delivered (c : Cpu) (h : SwexnHandler) (cause cr2 fl : Word) (k' : Core) : Prop where
  cpu : k'.cpu = handlerContext c h fl
  args : Stacked k'.mem k'.cpu.esp [0, h.arg, h.esp3 - 80]
  ureg : HoldsContext (uregAt k'.mem (h.esp3 - 80)) c
  cause : (uregAt k'.mem (h.esp3 - 80)).cause = cause
  cr2 : (uregAt k'.mem (h.esp3 - 80)).cr2 = cr2
  ordinary : OrdinaryUser c → OrdinaryUser k'.cpu

lemma getLsbD_getUserEflags (fl : Word) (n : ℕ) :
    (getUserEflags fl).getLsbD n = (fl.getLsbD n || decide (n = 1) || decide (n = 9)) := by
  have h18 : (0 <<< 18 : Word) = 0 := rfl
  have h1 : (1 <<< 1 : Word) = BitVec.twoPow 32 1 := rfl
  have h9 : (1 <<< 9 : Word) = BitVec.twoPow 32 9 := rfl
  rw [getUserEflags, h18, h1, h9]
  simp only [BitVec.getLsbD_or, BitVec.getLsbD_twoPow]
  grind

lemma SystemFlags.getLsbD {fl' : Word} (h : SystemFlags fl fl') {n : ℕ}
    (hn : arithmeticFlags.getLsbD n = false) : fl.getLsbD n = fl'.getLsbD n := by
  have hbit := congrArg (BitVec.getLsbD · n) h
  simpa only [BitVec.getLsbD_or, hn, Bool.or_false] using hbit

/-- A gate clears these flags and no others. -/
lemma getLsbD_enter (e : Exception) (g : Gate) (c : Cpu) (n : ℕ) :
    (e.enter g c).eflags.getLsbD n = (c.eflags.getLsbD n &&
      (~~~(if e.trapGate then clearedFlags else interruptFlags)).getLsbD n) :=
  BitVec.getLsbD_and

/-- The flags of a handler, from the ones of the exception. -/
lemma SystemFlags.handler {e : Exception} (h : SystemFlags fl (e.enter g c).eflags) :
    (getUserEflags fl).getLsbD vmFlag = false ∧ (getUserEflags fl).getLsbD ntFlag = false ∧
      (getUserEflags fl).getLsbD 9 = true ∧
      (getUserEflags fl).getLsbD 12 = c.eflags.getLsbD 12 ∧
      (getUserEflags fl).getLsbD 13 = c.eflags.getLsbD 13 := by
  have hbit : ∀ n, arithmeticFlags.getLsbD n = false → fl.getLsbD n = (c.eflags.getLsbD n &&
      (~~~(if e.trapGate then clearedFlags else interruptFlags)).getLsbD n) :=
    fun n hn => (h.getLsbD hn).trans (getLsbD_enter e g c n)
  have hmask : ∀ b : Bool,
      (~~~(if b then clearedFlags else interruptFlags)).getLsbD vmFlag = false ∧
      (~~~(if b then clearedFlags else interruptFlags)).getLsbD ntFlag = false ∧
      (~~~(if b then clearedFlags else interruptFlags)).getLsbD 12 = true ∧
      (~~~(if b then clearedFlags else interruptFlags)).getLsbD 13 = true := by decide
  obtain ⟨hvm, hnt, h12, h13⟩ := hmask e.trapGate
  refine ⟨?_, ?_, ?_, ?_, ?_⟩
  · rw [getLsbD_getUserEflags, hbit vmFlag (by decide), hvm, Bool.and_false]
    rfl
  · rw [getLsbD_getUserEflags, hbit ntFlag (by decide), hnt, Bool.and_false]
    rfl
  · rw [getLsbD_getUserEflags]
    exact Bool.or_true _
  · rw [getLsbD_getUserEflags, hbit 12 (by decide), h12, Bool.and_true]
    exact (Bool.or_false _).trans (Bool.or_false _)
  · rw [getLsbD_getUserEflags, hbit 13 (by decide), h13, Bool.and_true]
    exact (Bool.or_false _).trans (Bool.or_false _)

lemma userRuns_handlerContext (hT : UserSegments T) (hc : UserRuns T c)
    (hfl : fl.getLsbD vmFlag = false) (h : SwexnHandler) :
    UserRuns T (handlerContext c h fl) := by
  obtain ⟨r, hcode⟩ := hT.code
  have hlook : lookup T (Selector.ofWord segselUserCs) =
      some ⟨.code false r, 3, true, 0xFFFFFFFF⟩ := hcode
  have hcheck : checkCode T (Selector.ofWord segselUserCs) = .ok _ :=
    checkCode_ok hlook rfl rfl rfl
  have hring : rpl (Selector.ofWord segselUserCs) = 3 := rfl
  exact
    { cpl := rfl
      vm := hfl
      ring := hring
      code := ⟨_, hcheck, by bv_omega⟩
      stack := (checkStack_ok hT.lookup_data rfl rfl rfl rfl :
        checkStack T 3 (Selector.ofWord segselUserDs) = .ok ())
      data := hc.data
      null := hc.null }

lemma ordinaryUser_handlerContext (hh : Roomy h)
    (hfl : fl.getLsbD vmFlag = false ∧ fl.getLsbD ntFlag = false ∧ fl.getLsbD 9 = true ∧
      fl.getLsbD 12 = c.eflags.getLsbD 12 ∧ fl.getLsbD 13 = c.eflags.getLsbD 13)
    (hc : OrdinaryUser c) : OrdinaryUser (handlerContext c h fl) := by
  obtain ⟨hvm, hnt, hif, h12, h13⟩ := hfl
  have hroom := hh.room
  have hstart : userMemStart = 0x1000000 := rfl
  refine
    { cpl := rfl
      cs := rfl
      ss := rfl
      ds := hc.ds
      es := hc.es
      fs := hc.fs
      gs := hc.gs
      eip := ?_
      esp := ?_
      interrupts := hif
      iopl := ⟨h12.trans hc.iopl.1, h13.trans hc.iopl.2⟩
      vm := hvm
      nt := hnt }
  · have heip := hh.registered.eip
    unfold checkEipSafety at heip
    change userMemStart ≤ h.eip.toNat
    by_contra hlt
    rw [if_pos (not_le.mp hlt)] at heip
    cases heip
  · change userMemStart ≤ (h.esp3 - 92).toNat
    bv_omega

/-! ### The whole way -/

lemma KernelStack.apart (hg : KernelStack g) (hh : Roomy h) :
    FrameApart (frameAddr g err) err h.esp3 := by
  intro i hi j hj
  have hroom := hg.room
  have hbelow := hg.below
  have hesp3 := hh.room
  have hstart : userMemStart = 0x1000000 := rfl
  have hlen := length_toList_le err
  rw [frameAddr]
  bv_omega

lemma KernelStack.frameAddr_ne (hg : KernelStack g) (err : Option Word) :
    frameAddr g err ≠ 0 := by
  have hroom := hg.room
  have hlen := length_toList_le err
  rw [frameAddr]
  bv_omega

/-- **The end of an exception**, for what its C function finds. -/
structure Handled (T : Ring.Tables) (k : SwexnCauses) (e : Exception) (g : Gate) (c : Cpu)
    (err : Option Word) (kc : Core) (x : Found) : Prop where
  /-- a program with a handler is told about the exception -/
  delivered : ∀ cause h, e.cause k = some cause → x.tcb = some h → Roomy h →
    (e.cHandler k x (frameAddr g err)).vanished = false ∧
    (e.cHandler k x (frameAddr g err)).tcb = some noHandler ∧
    ∀ k₁, HandlerReturns kc (e.cHandler k x (frameAddr g err)).mem k₁ →
      ∃ k', run T (wrapperLeave e.errorCode) k₁ = .ok k' ∧ k'.mem = k₁.mem ∧
        Delivered c h cause x.cr2 (getUserEflags x.eflags) k'
  /-- without a handler, and after some exceptions in any case, the thread vanishes -/
  killed : (e.cause k = none ∨ x.tcb = some noHandler) → e ≠ .doubleFault →
    e.cHandler k x (frameAddr g err) =
      ⟨kc.mem, x.tcb, if e = .machineCheckFault then none else some (-2), [exceptionDump e], true⟩
  /-- a double fault is printed, and the program goes on where it was -/
  resumed : e = .doubleFault →
    e.cHandler k x (frameAddr g err) = ⟨kc.mem, x.tcb, none, [exceptionDump e], false⟩ ∧
    ∀ k₁, HandlerReturns kc kc.mem k₁ → run T (wrapperLeave e.errorCode) k₁ = .ok ⟨c, k₁.mem⟩

lemma Entered.returns {m : Word → Word} (hkc : Entered e g c err kc)
    (hret : HandlerReturns kc m k₁) :
    k₁.cpu.esp = frameAddr g err - 4 ∧ k₁.cpu.cpl = 0 := by
  have hcpu := hret.cpu
  rw [hkc.cpu] at hcpu
  rw [hcpu]
  exact ⟨rfl, rfl⟩

/-- A wrapper whose C function has left a frame. -/
lemma Entered.leave {m : Word → Word} (hg : KernelStack g) (hkc : Entered e g c err kc)
    (hret : HandlerReturns kc m k₁) (hc : UserRuns T c')
    (hf : SavedFrame m (frameAddr g err) c' err) :
    run T (wrapperLeave err.isSome) k₁ = .ok ⟨c', k₁.mem⟩ := by
  obtain ⟨hesp, hcpl⟩ := hkc.returns hret
  have hroom := hg.room
  have hlen := length_toList_le err
  have htop : k₁.cpu.esp + 4 = frameAddr g err := by
    rw [hesp]
    bv_omega
  have hesp' : kc.cpu.esp = frameAddr g err - 4 := by rw [hkc.cpu]
  refine run_wrapperLeave hc hcpl hret.nt ?_
  obtain ⟨w, hf⟩ := hf
  rw [htop]
  refine ⟨w, hf.congr fun i hi => hret.mem _ ?_⟩
  rw [length_frameWords] at hi
  rw [hesp', frameAddr]
  bv_omega

/-- The words that are above the kernel stack. -/
lemma HandlerReturns.user {m : Word → Word} (hg : KernelStack g) (hkc : Entered e g c err kc)
    (hret : HandlerReturns kc m k₁) (hh : Roomy h) {ws : List Word}
    (hws : Stacked m (h.esp3 - 92) ws) (hlen : ws.length ≤ 23) :
    Stacked k₁.mem (h.esp3 - 92) ws := by
  have hroom := hg.room
  have hbelow := hg.below
  have hesp3 := hh.room
  have hstart : userMemStart = 0x1000000 := rfl
  have herr := length_toList_le err
  have hesp : kc.cpu.esp = frameAddr g err - 4 := by rw [hkc.cpu]
  refine hws.congr fun i hi => hret.mem _ ?_
  rw [hesp, frameAddr]
  bv_omega

/-- **A handler that was entered** comes to its end, whatever vector it was entered through. -/
lemma Entered.handled {vec : Exception} (hT : UserSegments T) (hc : UserRuns T c)
    (hg : KernelStack g) (herr : err.isSome = e.errorCode) (k : SwexnCauses) {x : Found}
    (hkc : Entered vec g c err kc) (hmem : x.mem = kc.mem)
    (hfl : SystemFlags x.eflags kc.cpu.eflags) : Handled T k e g c err kc x := by
  have hsp := hg.frameAddr_ne err
  have hflags : SystemFlags x.eflags (vec.enter g c).eflags := by
    rw [hkc.cpu] at hfl
    exact hfl
  have hframe : SavedFrame x.mem (frameAddr g err) c err := hmem ▸ hkc.frame
  refine ⟨fun cause h hcause htcb hh => ?_, fun hnone hdouble => ?_, fun hdouble => ?_⟩
  · obtain ⟨v, hholds, hvcause, hvcr2, hexec⟩ := swexnExecute_eq hframe hsp hh.registered x.ureg
      x.cr2 (getUserEflags x.eflags) cause
    have hrun : e.cHandler k x (frameAddr g err) = ⟨handlerMem h v (getUserEflags x.eflags) x.mem
        (frameAddr g err) err.isSome, some noHandler, none, [], false⟩ := by
      rw [cHandler_eq k x _ hcause, faultHandler, htcb, ← herr, hexec]
      rfl
    rw [hrun]
    refine ⟨rfl, rfl, fun k₁ hret => ?_⟩
    have hap : FrameApart (frameAddr g err) err h.esp3 := hg.apart hh
    have hleave := hkc.leave hg hret (userRuns_handlerContext hT hc hflags.handler.1 h)
      (savedFrame_handlerMem hframe hap v (getUserEflags x.eflags))
    have hwords := hret.user hg hkc hh (stacked_handlerMem hap v (getUserEflags x.eflags) x.mem)
      (by simp [Ureg.words])
    have hureg := Stacked.drop_three hwords
    rw [show h.esp3 - 92 + 12 = h.esp3 - 80 by bv_omega] at hureg
    rw [herr] at hleave
    refine ⟨⟨handlerContext c h (getUserEflags x.eflags), k₁.mem⟩, hleave, rfl, rfl,
      ⟨hwords.1, hwords.2.1, hwords.2.2.1, trivial⟩, ?_, ?_, ?_,
      ordinaryUser_handlerContext hh hflags.handler⟩
    · rw [uregAt_of_stacked hureg]
      exact hholds
    · rw [uregAt_of_stacked hureg]
      exact hvcause
    · rw [uregAt_of_stacked hureg]
      exact hvcr2
  · rw [← hmem]
    cases hcause : e.cause k with
    | none => exact cHandler_unseen hcause hdouble
    | some cause =>
        have htcb := hnone.resolve_left (by rw [hcause]; exact Option.some_ne_none _)
        have hmachine : e ≠ .machineCheckFault := by
          rintro rfl
          cases hcause
        rw [cHandler_eq k x _ hcause, faultHandler_noHandler hsp htcb, htcb, if_neg hmachine]
        rfl
  · subst hdouble
    refine ⟨?_, fun k₁ hret => ?_⟩
    · rw [← hmem]
      rfl
    · rw [← herr]
      exact hkc.leave hg hret hc hkc.frame

/-- **An exception of a user program.** The wrapper that is installed for it saves the program and
calls its C function, with the error code that the processor has pushed if there is one. If the
program has a handler, the exception is delivered to it, and the handler is not registered any
more; else the thread vanishes, with status -2 but for a machine check. A double fault does
neither. -/
theorem exception_handled (hT : UserSegments T) (hc : UserRuns T c) (hg : KernelStack g)
    (herr : err.isSome = e.raised.errorCode) (k : SwexnCauses) (m : Word → Word) :
    ∃ kc, run T wrapperCall (enterFault e.raised g err c m) = .ok kc ∧
      Entered e.raised g c err kc ∧
      ∀ x : Found, x.mem = kc.mem → SystemFlags x.eflags kc.cpu.eflags →
        Handled T k e.raised.handler g c err kc x := by
  obtain ⟨kc, hrun, hkc⟩ := run_wrapperCall (T := T) e.raised g err c m
  have herr' : err.isSome = e.raised.handler.errorCode := by
    rw [Exception.errorCode_handler, herr]
  exact ⟨kc, hrun, hkc, fun x hmem hfl => hkc.handled hT hc hg herr' k hmem hfl⟩

/-- The causes, with the numbers of the processor's exceptions. -/
def vectorCauses : SwexnCauses := ⟨14, 0, 1, 3, 4, 5, 6, 7, 11, 12, 13, 16, 17, 19⟩

/-- The kernel stack of a thread. -/
def threadGate : Gate := ⟨0x200000, 0x18, 0x10, 0x100000⟩

theorem exception_handled_dividing : UserSegments flatTables ∧ UserRuns flatTables dividing ∧
    KernelStack threadGate ∧ ∃ kc,
      run flatTables wrapperCall (enterFault .divisionError threadGate none dividing fun _ => 0) =
        .ok kc ∧
      ∀ x : Found, x.mem = kc.mem → SystemFlags x.eflags kc.cpu.eflags →
        Handled flatTables vectorCauses .divisionError threadGate dividing none kc x := by
  have hg : KernelStack threadGate := ⟨by decide, by decide⟩
  have herr : (none : Option Word).isSome = Exception.errorCode .divisionError := rfl
  obtain ⟨kc, hrun, -, hhandled⟩ := exception_handled (e := .divisionError) userSegments_flatTables
    Traps.userRuns_dividing hg herr vectorCauses fun _ => 0
  exact ⟨userSegments_flatTables, Traps.userRuns_dividing, hg, kc, hrun, hhandled⟩

/-! ### One registration, one delivery -/

/-- What concerns the handler of a thread: a call of `swexn`, an exception, and `tcb_reload` when
its program is replaced. -/
inductive SwexnEvent where
  | swexn (m : Word → Word) (c : Cpu) (esp3 eip arg newureg : Word)
  | exception (e : Exception) (ureg : Ureg) (cr2 eflags : Word) (m : Word → Word) (stack : Word)
  | reload

/-- A thread; the ghost fields are the handlers that its calls have registered, and the handlers
that its exceptions have sent it to. -/
structure SwexnThread where
  tcb : Option SwexnHandler
  vanished : Bool
  installed : List Word
  entered : List Word

/-- The call has not failed. -/
def Done : SwexnEnd → Prop
  | .ret n => 0 ≤ n
  | .restored _ => True

instance (r : SwexnEnd) : Decidable (Done r) := by
  cases r <;> unfold Done <;> infer_instance

/-- The `eip` of a frame. -/
def frameEip (m : Word → Word) (stack : Word) (errorCode : Bool) : Word :=
  m (stack + 4 * BitVec.ofNat 32 (eipIdx - if errorCode then 0 else 1))

/-- What an event leaves. -/
def swexnEvent (T : Ring.Tables) (k : SwexnCauses) (t : SwexnThread) : SwexnEvent → SwexnThread
  | .swexn m c esp3 eip arg newureg =>
      let r := syscallSwexnCHandler T m c esp3 eip arg newureg t.tcb
      { t with
        tcb := r.2
        installed := t.installed ++ if Done r.1 ∧ esp3 ≠ 0 ∧ eip ≠ 0 then [eip] else [] }
  | .exception e ureg cr2 eflags m stack =>
      let r := e.cHandler k ⟨ureg, cr2, eflags, m, t.tcb⟩ stack
      { t with
        tcb := r.tcb
        vanished := r.vanished
        entered := t.entered ++ if r.vanished = false ∧ e.cause k ≠ none then
          [frameEip r.mem stack e.errorCode] else [] }
  | .reload => { t with tcb := (tcbDeregisterSwexnHandler t.tcb).2.2 }

/-- The runs of a thread, from `tcb_init` on, until it vanishes. -/
def swexnRuns (T : Ring.Tables) (k : SwexnCauses) : Machine SwexnThread SwexnEvent where
  init t := t = ⟨some noHandler, false, [], []⟩
  step t a t' := t.vanished = false ∧ t' = swexnEvent T k t a

/-- The handler that is registered. -/
def SwexnThread.pending (t : SwexnThread) : List Word :=
  match t.tcb with
  | none => []
  | some h => if h = noHandler then [] else [h.eip]

/-- **The handler of a thread**: it has passed the checks, if there is one; and the handlers that
were entered, with it as the last, are ones that were registered, each for one registration and in
their order. -/
structure SwexnThread.Once (t : SwexnThread) : Prop where
  registered : ∃ h, t.tcb = some h ∧ (h = noHandler ∨ Registered h)
  once : (t.entered ++ t.pending).Sublist t.installed

/-- What a call of `swexn` does to the handler. -/
lemma swexn_cases (m : Word → Word) (c : Cpu) (esp3 eip arg newureg : Word) (old : SwexnHandler) :
    let r := syscallSwexnCHandler T m c esp3 eip arg newureg (some old)
    (¬ Done r.1 ∧ r.2 = some old) ∨
    (Done r.1 ∧ esp3 ≠ 0 ∧ eip ≠ 0 ∧ r.2 = some ⟨esp3, eip, arg⟩ ∧ Registered ⟨esp3, eip, arg⟩) ∨
    (Done r.1 ∧ ¬ (esp3 ≠ 0 ∧ eip ≠ 0) ∧ r.2 = some noHandler) := by
  have hneg : ∀ n : ℤ, n < 0 → ¬ Done (.ret n) := fun n hn => not_le.mpr hn
  by_cases hin : esp3 ≠ 0 ∧ eip ≠ 0
  · simp only [syscallSwexnCHandler, tcbDeregisterSwexnHandler, tcbRegisterSwexnHandler,
      reduceCtorEq, if_pos hin, if_false, lt_irrefl]
    split_ifs with hbad hnew hsafe
    · exact .inl ⟨hneg _ (by decide), rfl⟩
    · exact .inr (.inl ⟨trivial, hin.1, hin.2, rfl, by grind, by grind⟩)
    · exact .inl ⟨hneg _ (by decide), rfl⟩
    · exact .inr (.inl ⟨le_refl (0 : ℤ), hin.1, hin.2, rfl, by grind, by grind⟩)
  · simp only [syscallSwexnCHandler, tcbDeregisterSwexnHandler, tcbRegisterSwexnHandler,
      reduceCtorEq, hin, false_and, if_false, lt_irrefl]
    split_ifs with hnew hsafe
    · exact .inr (.inr ⟨trivial, not_false, rfl⟩)
    · exact .inl ⟨hneg _ (by decide), rfl⟩
    · exact .inr (.inr ⟨le_refl (0 : ℤ), not_false, rfl⟩)

/-- What `swexn_execute` does to the handler: it sends the thread there, and nothing is registered
then. -/
lemma swexnExecute_cases (ureg : Ureg) (cr2 fl : Word) (m : Word → Word) (cause stack : Word)
    (b : Bool) (old : SwexnHandler) :
    let r := swexnExecute ureg cr2 fl m cause stack b (some old)
    (r.ret ≠ 0 ∧ (r.tcb = some old ∨ r.tcb = some noHandler)) ∨
    (r.ret = 0 ∧ r.tcb = some noHandler ∧ old ≠ noHandler ∧ frameEip r.mem stack b = old.eip) := by
  by_cases hs : stack = 0
  · simp only [swexnExecute, uregFromStack, if_pos hs]
    exact .inl ⟨(by decide : (-1 : ℤ) ≠ 0), .inl rfl⟩
  simp only [swexnExecute, uregFromStack, if_neg hs, tcbDeregisterSwexnHandler, lt_irrefl, if_false,
    reduceCtorEq]
  by_cases hset : old.esp3 ≠ 0 ∧ old.eip ≠ 0
  · rw [if_pos hset]
    refine .inr ⟨rfl, rfl, ?_, Function.update_self ..⟩
    rintro rfl
    exact hset.1 rfl
  · rw [if_neg hset]
    exact .inl ⟨(by decide : (-4 : ℤ) ≠ 0), .inr rfl⟩

/-- What an exception does to the handler. -/
lemma exception_cases {r : HandlerRun} (e : Exception) (hr : r = e.cHandler k x stack)
    (hold : x.tcb = some h) :
    (r.vanished = true ∧ (r.tcb = some h ∨ r.tcb = some noHandler)) ∨
    (r.vanished = false ∧ e.cause k = none ∧ r.tcb = some h) ∨
    (r.vanished = false ∧ e.cause k ≠ none ∧ r.tcb = some noHandler ∧ h ≠ noHandler ∧
      frameEip r.mem stack e.errorCode = h.eip) := by
  cases hcause : e.cause k with
  | none =>
      by_cases he : e = .doubleFault
      · subst he
        rw [hr]
        exact .inr (.inl ⟨rfl, rfl, hold⟩)
      · rw [hr, cHandler_unseen hcause he]
        exact .inl ⟨rfl, .inl hold⟩
  | some cause =>
      rw [hr, cHandler_eq k x stack hcause, faultHandler, hold]
      rcases swexnExecute_cases x.ureg x.cr2 (getUserEflags x.eflags) x.mem cause stack e.errorCode
        h with ⟨hret, htcb⟩ | ⟨hret, htcb, hne, heip⟩
      · rw [if_neg hret]
        exact .inl ⟨rfl, htcb⟩
      · rw [if_pos hret]
        exact .inr (.inr ⟨rfl, by simp, htcb, hne, heip⟩)

/-- The history, with a handler that is registered after it. -/
lemma SwexnThread.pending_of {t : SwexnThread} {h' : SwexnHandler} (h : t.tcb = some h') :
    t.pending = if h' = noHandler then [] else [h'.eip] := by
  rw [pending, h]

lemma SwexnThread.pending_noHandler {t : SwexnThread} (h : t.tcb = some noHandler) :
    t.pending = [] := by
  rw [pending_of h, if_pos rfl]

/-- **Every event keeps the agreement of the handler with its history.** -/
lemma SwexnThread.Once.event {t : SwexnThread} (ht : t.Once) (a : SwexnEvent) :
    (swexnEvent T k t a).Once := by
  obtain ⟨⟨old, htcb, hreg⟩, honce⟩ := ht
  have hentered : t.entered.Sublist t.installed := (List.sublist_append_left _ _).trans honce
  cases a with
  | swexn m c esp3 eip arg newureg =>
      rw [swexnEvent, htcb]
      rcases swexn_cases (T := T) m c esp3 eip arg newureg old with
        ⟨hfail, hafter⟩ | ⟨hdone, hesp3, heip, hafter, hnew⟩ | ⟨hdone, hnone, hafter⟩
      · rw [if_neg fun h => hfail h.1]
        refine ⟨⟨old, hafter, hreg⟩, ?_⟩
        rw [pending_of hafter, List.append_nil, ← pending_of htcb]
        exact honce
      · rw [if_pos ⟨hdone, hesp3, heip⟩]
        refine ⟨⟨_, hafter, .inr hnew⟩, ?_⟩
        have hne : (⟨esp3, eip, arg⟩ : SwexnHandler) ≠ noHandler := fun h =>
          hesp3 (congrArg SwexnHandler.esp3 h)
        rw [pending_of hafter, if_neg hne]
        exact hentered.append (List.Sublist.refl _)
      · rw [if_neg fun h => hnone h.2]
        refine ⟨⟨_, hafter, .inl rfl⟩, ?_⟩
        rw [pending_noHandler hafter, List.append_nil, List.append_nil]
        exact hentered
  | exception e ureg cr2 eflags m stack =>
      rw [swexnEvent]
      obtain ⟨r, hr⟩ : ∃ r, r = e.cHandler k ⟨ureg, cr2, eflags, m, t.tcb⟩ stack := ⟨_, rfl⟩
      rw [← hr]
      rcases exception_cases e hr htcb with
        ⟨hvan, hafter⟩ | ⟨hvan, hcause, hafter⟩ | ⟨hvan, hcause, hafter, hne, heip⟩
      · -- the thread vanishes
        rw [if_neg fun h => Bool.noConfusion (hvan.symm.trans h.1)]
        rcases hafter with hafter | hafter
        · refine ⟨⟨old, hafter, hreg⟩, ?_⟩
          rw [pending_of hafter, List.append_nil, ← pending_of htcb]
          exact honce
        · refine ⟨⟨_, hafter, .inl rfl⟩, ?_⟩
          rw [pending_noHandler hafter, List.append_nil, List.append_nil]
          exact hentered
      · rw [if_neg fun h => h.2 hcause]
        refine ⟨⟨old, hafter, hreg⟩, ?_⟩
        rw [pending_of hafter, List.append_nil, ← pending_of htcb]
        exact honce
      · -- the handler that was registered is entered
        rw [if_pos ⟨hvan, hcause⟩, heip]
        refine ⟨⟨_, hafter, .inl rfl⟩, ?_⟩
        rw [pending_of htcb, if_neg hne] at honce
        rw [pending_noHandler hafter, List.append_nil]
        exact honce
  | reload =>
      rw [swexnEvent, htcb]
      refine ⟨⟨noHandler, rfl, .inl rfl⟩, ?_⟩
      rw [pending_noHandler rfl, List.append_nil]
      exact hentered

/-- **One registration, one delivery**, in every run of a thread. -/
theorem swexnThread_of_reachable {t : SwexnThread} (h : (swexnRuns T k).Reachable t) : t.Once := by
  refine Machine.Reachable.inv (I := SwexnThread.Once) ?_ ?_ h
  · rintro _ rfl
    exact ⟨⟨noHandler, rfl, .inl rfl⟩, List.Sublist.refl _⟩
  · rintro s a _ hs ⟨-, rfl⟩
    exact hs.event a

/-- A thread registers a handler, divides by zero, and does so again in the handler. -/
def deliveryRun : List SwexnEvent :=
  [.swexn (fun _ => 0) handlerCpu 0x3000000 0x1000200 0 0,
    .exception .divisionError (uregAt (fun _ => 0) 0) 0 0x2 (dividingMem none) 0x200000,
    .exception .divisionError (uregAt (fun _ => 0) 0) 0 0x2 (dividingMem none) 0x200000]

theorem swexnThread_of_reachable_delivery :
    ∃ t, (swexnRuns flatTables vectorCauses).Reachable t ∧ t.installed = [0x1000200] ∧
      t.entered = [0x1000200] ∧ t.vanished = true ∧ t.Once := by
  obtain ⟨f, hf⟩ : ∃ f, f = fun (t : SwexnThread) a =>
      if t.vanished then none else some (swexnEvent flatTables vectorCauses t a) := ⟨_, rfl⟩
  have hrun : (Machine.replay f ⟨some noHandler, false, [], []⟩ deliveryRun).map
      (fun t => (t.installed, t.entered, t.vanished)) =
        some ([0x1000200], [0x1000200], true) := by
    rw [hf]
    decide +kernel
  rw [Option.map_eq_some_iff] at hrun
  obtain ⟨t, ht, heq⟩ := hrun
  obtain ⟨hinstalled, heq⟩ := Prod.mk.inj heq
  obtain ⟨hentered, hvanished⟩ := Prod.mk.inj heq
  have hreach : (swexnRuns flatTables vectorCauses).Reachable t := by
    refine Machine.reach_of_replay (fun s a s' hstep => ?_) deliveryRun (fun _ _ _ => trivial)
      (.init rfl) ht
    simp only [hf] at hstep
    by_cases hgone : s.vanished = true
    · rw [if_pos hgone] at hstep
      cases hstep
    · rw [if_neg hgone] at hstep
      exact ⟨Bool.eq_false_iff.mpr hgone, (Option.some.inj hstep).symm⟩
  exact ⟨t, hreach, hinstalled, hentered, hvanished, swexnThread_of_reachable hreach⟩

end ShrekOS.Exceptions
