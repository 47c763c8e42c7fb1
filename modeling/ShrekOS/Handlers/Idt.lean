/-
The interrupt descriptor table that `kernel_main` sets up: `install_handlers.c`.

* `idtInstallEntry`: the stores of `idt_install_entry`, and `gateAt_idtInstallEntry`: **the gate
  that the processor reads from them**;
* `installSyscallHandlers`, `installPeripheralHandlers`, `installExceptionHandlers`: the entries,
  in the order of the source;
* `Handler.gate`: the gate of each handler;
* `idt_after_boot`: **every vector has the gate of its handler**, and a user program can call the
  system calls and nothing else;
* `exception_arrives`: the handlers that the exceptions of a user program get to.

The numbers of the vectors are in `syscall_int.h` and `idt.h`, which are not part of the sources.
-/
import ShrekOS.Lib.Gates
import ShrekOS.Handlers.Exceptions

namespace ShrekOS.Idt

open Kit Kit.Ring
open Traps (Syscall)
open Exceptions (Exception)

/-! ### One entry -/

/-- `FLAG_TRAP_GATE` and `FLAG_INTERRUPT_GATE`. -/
def flagBase : GateKind → BitVec 16
  | .trap => 0x7
  | .interrupt => 0x6

/-- The flags that are assembled by `idt_install_entry`. -/
def entryFlags (p dpl d : BitVec 8) (base : BitVec 16) : BitVec 16 :=
  ((base.zeroExtend 32 ||| (p.zeroExtend 32 <<< 7) ||| (dpl.zeroExtend 32 <<< 5) |||
    (d.zeroExtend 32 <<< 3)) <<< 8 : BitVec 32).truncate 16

/-- `idt_install_entry`; the table is read by half words. -/
def idtInstallEntry (offset : Word) (segSel : Selector) (p dpl d : BitVec 8) (entryid : ℕ)
    (base : BitVec 16) (idt : ℕ → BitVec 16) : ℕ → BitVec 16 :=
  let idtEntry := 2 * (2 * entryid)
  let offsetL : BitVec 16 := (offset &&& 0xffff).truncate 16
  let offsetH : BitVec 16 := ((offset >>> 16) &&& 0xffff).truncate 16
  let idt := Function.update idt (idtEntry + 0) offsetL
  let idt := Function.update idt (idtEntry + 1) segSel
  let idt := Function.update idt (idtEntry + 2) (idt (idtEntry + 2) &&& 0x0f)
  let idt := Function.update idt (idtEntry + 2) (idt (idtEntry + 2) ||| entryFlags p dpl d base)
  Function.update idt (idtEntry + 3) offsetH

/-! ### The handlers -/

/-- The system calls that have a handler: those of `libsyscall`, and `thread_fork`. -/
inductive SyscallHandler where
  | call (s : Syscall)
  | threadFork
  deriving DecidableEq

/-- The handlers of `idt_handlers.h`; the one of an exception also names its vector. -/
inductive Handler where
  | syscall (s : SyscallHandler)
  | exception (e : Exception)
  | timer
  | keyboard
  deriving DecidableEq

/-- What an entry is installed with: the vector, the handler, the privilege level and the gate. -/
structure Install where
  slot : Handler
  handler : Handler
  dpl : BitVec 8
  kind : GateKind
  deriving DecidableEq

/-- An entry that is present, and for 32-bit code of the kernel; `number` are the numbers of the
vectors, and `addr` the addresses of the handlers. -/
def Install.run (number : Handler → ℕ) (addr : Handler → Word) (cs : Selector)
    (idt : ℕ → BitVec 16) (i : Install) : ℕ → BitVec 16 :=
  idtInstallEntry (addr i.handler) cs 1 i.dpl 1 (number i.slot) (flagBase i.kind) idt

/-- `INSTALL_SYSCALL`. -/
def installSyscall (s : SyscallHandler) : Install := ⟨.syscall s, .syscall s, 3, .trap⟩

/-- The entries of `install_syscall_handlers`. -/
def syscallInstalls : List Install :=
  [.call .fork, .threadFork, .call .exec, .call .setStatus, .call .vanish, .call .wait,
    .call .gettid, .call .yield, .call .deschedule, .call .makeRunnable, .call .getTicks,
    .call .sleep, .call .swexn, .call .newPages, .call .removePages, .call .readline, .call .print,
    .call .setTermColor, .call .setCursorPos, .call .getCursorPos, .call .readfile, .call .halt,
    .call .misbehave].map installSyscall

/-- An entry of `install_exception_handlers`. -/
def installException (e : Exception) (kind : GateKind) : Install :=
  ⟨.exception e, .exception e, 0, kind⟩

/-- The entries of `install_exception_handlers`; the one of stack faults has the handler of page
faults. -/
def exceptionInstalls : List Install :=
  [installException .pageFault .interrupt, installException .doubleFault .interrupt,
    installException .divisionError .interrupt, installException .debugException .interrupt,
    installException .breakpoint .trap, installException .overflow .trap,
    installException .boundRange .interrupt, installException .undefOp .trap,
    installException .noMath .interrupt, installException .coprocessorSegmentOverrun .interrupt,
    installException .invalidTss .interrupt, installException .segmentNotPresent .interrupt,
    ⟨.exception .ssFault, .exception .pageFault, 0, .interrupt⟩,
    installException .gpFault .interrupt, installException .mathFault .interrupt,
    installException .alignFault .interrupt, installException .machineCheckFault .interrupt,
    installException .simdFault .interrupt]

/-- The entries of `install_peripheral_handlers`. -/
def peripheralInstalls : List Install :=
  [⟨.timer, .timer, 0, .interrupt⟩, ⟨.keyboard, .keyboard, 0, .interrupt⟩]

variable (number : Handler → ℕ) (addr : Handler → Word) (cs : Selector) (idt : ℕ → BitVec 16)

/-- `install_syscall_handlers`. -/
def installSyscallHandlers : ℕ → BitVec 16 :=
  syscallInstalls.foldl (Install.run number addr cs) idt

/-- `install_peripheral_handlers`, without the ports of the timer. -/
def installPeripheralHandlers : ℕ → BitVec 16 :=
  peripheralInstalls.foldl (Install.run number addr cs) idt

/-- `install_exception_handlers`. -/
def installExceptionHandlers : ℕ → BitVec 16 :=
  exceptionInstalls.foldl (Install.run number addr cs) idt

/-- The table after the three calls of `kernel_main`. -/
def bootIdt : ℕ → BitVec 16 :=
  installExceptionHandlers number addr cs (installPeripheralHandlers number addr cs
    (installSyscallHandlers number addr cs idt))

/-! ### What the processor reads -/

variable {number addr cs idt} {v : ℕ}

/-- Half words of the other entries are not written. -/
lemma idtInstallEntry_of_ne {offset : Word} {p dpl d : BitVec 8} {entryid : ℕ} {base : BitVec 16}
    (hv : v ≠ entryid) {i : ℕ} (hi : i < 4) :
    idtInstallEntry offset cs p dpl d entryid base idt (4 * v + i) = idt (4 * v + i) := by
  have hne : ∀ j < 4, 4 * v + i ≠ 2 * (2 * entryid) + j := by omega
  simp only [idtInstallEntry]
  rw [Function.update_of_ne (hne 3 (by decide)), Function.update_of_ne (hne 2 (by decide)),
    Function.update_of_ne (hne 2 (by decide)), Function.update_of_ne (hne 1 (by decide)),
    Function.update_of_ne (hne 0 (by decide))]

/-- The access byte of an entry: the low bits of the half word that were there do not matter. -/
lemma access_entryFlags (old : BitVec 16) (dpl : BitVec 8) (hdpl : dpl = 0 ∨ dpl = 3)
    (kind : GateKind) :
    let access : BitVec 8 :=
      ((old &&& 0x0f ||| entryFlags 1 dpl 1 (flagBase kind)) >>> 8).truncate 8
    gateKind access = some kind ∧ access.getLsbD 7 = true ∧
      ((access >>> 5) &&& 3).toNat = dpl.toNat := by
  have hlow : (old &&& 0x0f) >>> 8 = 0 := by
    rw [BitVec.ushiftRight_and_distrib]
    exact BitVec.and_zero
  have haccess : (old &&& 0x0f ||| entryFlags 1 dpl 1 (flagBase kind)) >>> 8 =
      entryFlags 1 dpl 1 (flagBase kind) >>> 8 := by
    rw [BitVec.ushiftRight_or_distrib, hlow]
    exact BitVec.zero_or
  rw [haccess]
  rcases hdpl with rfl | rfl <;> cases kind <;> decide

/-- **An entry is the gate that was asked for.** -/
theorem gateAt_idtInstallEntry (offset : Word) (dpl : BitVec 8) (hdpl : dpl = 0 ∨ dpl = 3)
    (kind : GateKind) (entryid : ℕ) :
    gateAt (idtInstallEntry offset cs 1 dpl 1 entryid (flagBase kind) idt) entryid =
      some ⟨kind, true, dpl.toNat, cs, offset⟩ := by
  have hidx : 2 * (2 * entryid) = 4 * entryid := by omega
  obtain ⟨hkind, hpresent, hlevel⟩ := access_entryFlags (idt (4 * entryid + 2)) dpl hdpl kind
  have hmask : (0xffff : Word).setWidth 16 = BitVec.allOnes 16 := rfl
  have hhalf : ∀ x : Word, (x &&& 0xffff).setWidth 16 = x.setWidth 16 := fun x => by
    rw [BitVec.setWidth_and, hmask, BitVec.and_allOnes]
  have hne : ∀ i j : ℕ, i ≠ j → 4 * entryid + i ≠ 4 * entryid + j := by omega
  refine gateAt_of_writes ?_ ?_ ?_ ?_ hkind hpresent hlevel
  · simp only [idtInstallEntry, hidx]
    have hlt : ∀ j, 0 < j → 4 * entryid ≠ 4 * entryid + j := by omega
    rw [Function.update_of_ne (hlt 3 (by decide)), Function.update_of_ne (hlt 2 (by decide)),
      Function.update_of_ne (hlt 2 (by decide)), Function.update_of_ne (hlt 1 (by decide)),
      Nat.add_zero, Function.update_self]
    exact hhalf offset
  · simp only [idtInstallEntry, hidx]
    rw [Function.update_of_ne (hne 1 3 (by decide)), Function.update_of_ne (hne 1 2 (by decide)),
      Function.update_of_ne (hne 1 2 (by decide)), Function.update_self]
  · simp only [idtInstallEntry, hidx]
    rw [Function.update_of_ne (hne 2 3 (by decide)), Function.update_self, Function.update_self,
      Function.update_of_ne (hne 2 1 (by decide)), Function.update_of_ne (hne 2 0 (by decide))]
  · simp only [idtInstallEntry, hidx]
    rw [Function.update_self]
    exact hhalf (offset >>> 16)

/-- What is installed for a handler. -/
def Handler.install : Handler → Install
  | .syscall s => installSyscall s
  | .exception .ssFault => ⟨.exception .ssFault, .exception .pageFault, 0, .interrupt⟩
  | .exception e => installException e (if e.trapGate then .trap else .interrupt)
  | .timer => ⟨.timer, .timer, 0, .interrupt⟩
  | .keyboard => ⟨.keyboard, .keyboard, 0, .interrupt⟩

/-- The gate of a handler. -/
def Handler.gate (addr : Handler → Word) (cs : Selector) (h : Handler) : GateDesc where
  kind := h.install.kind
  present := true
  dpl := h.install.dpl.toNat
  selector := cs
  offset := addr h.install.handler

/-- All entries. -/
def bootInstalls : List Install := syscallInstalls ++ peripheralInstalls ++ exceptionInstalls

lemma bootIdt_eq : bootIdt number addr cs idt =
    bootInstalls.foldl (Install.run number addr cs) idt := by
  rw [bootInstalls, List.foldl_append, List.foldl_append]
  rfl

/-- Every handler is installed. -/
lemma install_mem (h : Handler) : h.install ∈ bootInstalls ∧ h.install.slot = h := by
  cases h with
  | syscall s => cases s with
    | call s => cases s <;> exact ⟨by decide, rfl⟩
    | threadFork => exact ⟨by decide, rfl⟩
  | exception e => cases e <;> exact ⟨by decide, rfl⟩
  | timer => exact ⟨by decide, rfl⟩
  | keyboard => exact ⟨by decide, rfl⟩

/-- No vector is installed twice. -/
lemma nodup_slots : (bootInstalls.map Install.slot).Nodup := by
  decide

lemma dpl_bootInstalls : ∀ i ∈ bootInstalls, i.dpl = 0 ∨ i.dpl = 3 := by
  decide

/-- The gates that level 3 may call. -/
lemma dpl_gate_iff (h : Handler) : 3 ≤ (h.gate addr cs).dpl ↔ ∃ s, h = .syscall s := by
  cases h with
  | syscall s => exact iff_of_true (le_refl 3) ⟨s, rfl⟩
  | exception e =>
      refine iff_of_false ?_ nofun
      cases e <;> exact Nat.not_succ_le_zero 2
  | timer | keyboard => exact iff_of_false (Nat.not_succ_le_zero 2) nofun

/-- Half words of another vector are not written. -/
lemma gateAt_run_of_ne (t : ℕ → BitVec 16) (i : Install) (hv : v ≠ number i.slot) :
    gateAt (i.run number addr cs t) v = gateAt t v :=
  gateAt_of_others fun _ hj => idtInstallEntry_of_ne hv hj

/-- **Every vector that has a handler** has its gate. -/
lemma gateAt_bootIdt (hnumber : Function.Injective number) (addr : Handler → Word) (cs : Selector)
    (idt : ℕ → BitVec 16) (h : Handler) :
    gateAt (bootIdt number addr cs idt) (number h) = some (h.gate addr cs) := by
  obtain ⟨value, hvalue⟩ : ∃ value : Install → Option GateDesc,
      value = fun i => some ⟨i.kind, true, i.dpl.toNat, cs, addr i.handler⟩ := ⟨_, rfl⟩
  have hread : ∀ i ∈ bootInstalls, ∀ t,
      gateAt (Install.run number addr cs t i) (number i.slot) = value i := by
    intro i hi t
    rw [hvalue]
    exact gateAt_idtInstallEntry _ _ (dpl_bootInstalls i hi) _ _
  have hnodup : (bootInstalls.map fun i => number i.slot).Nodup := by
    rw [← Function.comp_def number Install.slot, ← List.map_map]
    exact nodup_slots.map hnumber
  obtain ⟨hmem, hslot⟩ := install_mem h
  have hwritten : gateAt (bootInstalls.foldl (Install.run number addr cs) idt)
      (number h.install.slot) = value h.install :=
    read_foldl (fun t i _ hv => gateAt_run_of_ne t i hv) hread hnodup idt hmem
  rw [hslot, hvalue] at hwritten
  rw [bootIdt_eq]
  exact hwritten

/-- **The table after the boot.** Every vector that has a handler has its gate: a trap gate that a
user program may call for each system call, and one that it may not call for everything else,
which interrupts and exceptions still go through. The other vectors are as they were. -/
theorem idt_after_boot (hnumber : Function.Injective number) (addr : Handler → Word)
    (cs : Selector) (idt : ℕ → BitVec 16) :
    (∀ h : Handler, gateAt (bootIdt number addr cs idt) (number h) = some (h.gate addr cs) ∧
      (enterGate true 3 (gateAt (bootIdt number addr cs idt) (number h)) = .ok (h.gate addr cs) ↔
        ∃ s, h = .syscall s) ∧
      ∀ cpl, enterGate false cpl (gateAt (bootIdt number addr cs idt) (number h)) =
        .ok (h.gate addr cs)) ∧
    ∀ v, (∀ h, number h ≠ v) → gateAt (bootIdt number addr cs idt) v = gateAt idt v := by
  refine ⟨fun h => ?_, fun v hv => ?_⟩
  · rw [gateAt_bootIdt hnumber]
    refine ⟨rfl, (enterGate_software rfl).trans (dpl_gate_iff h), fun cpl => ?_⟩
    exact enterGate_hardware rfl cpl
  · have hother : ∀ i ∈ bootInstalls, number i.slot ≠ v := fun i _ => hv i.slot
    rw [bootIdt_eq]
    exact read_foldl_of_ne (fun t i _ hi => gateAt_run_of_ne t i hi) hother idt

/-- The gate of an exception leads to the wrapper that `Exception.handler` names. -/
lemma gate_exception (e : Exception) : (Handler.exception e).gate addr cs =
    ⟨if e.trapGate then .trap else .interrupt, true, 0, cs, addr (.exception e.handler)⟩ := by
  cases e <;> rfl

/-- **What the exceptions of a user program meet** in the table: `int3` and `into` are refused by
their gates, and what the processor raises gets through to its handler. -/
theorem exception_arrives (hnumber : Function.Injective number) (addr : Handler → Word)
    (cs : Selector) (idt : ℕ → BitVec 16) (e : Exception) :
    (e.raised ≠ e → enterGate true 3
      (gateAt (bootIdt number addr cs idt) (number (.exception e))) = .error .generalProtection) ∧
    enterGate false 3 (gateAt (bootIdt number addr cs idt) (number (.exception e.raised))) =
      .ok ⟨if e.raised.trapGate then .trap else .interrupt, true, 0, cs,
        addr (.exception e.raised.handler)⟩ := by
  rw [gateAt_bootIdt hnumber, gateAt_bootIdt hnumber, gate_exception, gate_exception]
  exact ⟨fun _ => rfl, enterGate_hardware rfl 3⟩

/-- The numbers of the processor's exceptions; the devices and the system calls are further up, in
the order in which they are installed. -/
def vectorNumber : Handler → ℕ
  | .exception .divisionError => 0
  | .exception .debugException => 1
  | .exception .breakpoint => 3
  | .exception .overflow => 4
  | .exception .boundRange => 5
  | .exception .undefOp => 6
  | .exception .noMath => 7
  | .exception .doubleFault => 8
  | .exception .coprocessorSegmentOverrun => 9
  | .exception .invalidTss => 10
  | .exception .segmentNotPresent => 11
  | .exception .ssFault => 12
  | .exception .gpFault => 13
  | .exception .pageFault => 14
  | .exception .mathFault => 16
  | .exception .alignFault => 17
  | .exception .machineCheckFault => 18
  | .exception .simdFault => 19
  | h => 32 + bootInstalls.findIdx fun i => i.slot = h

lemma vectorNumber_injective : Function.Injective vectorNumber := by
  refine Function.LeftInverse.injective (g := fun n =>
    ((bootInstalls.find? fun i => vectorNumber i.slot = n).map Install.slot).getD .timer) ?_
  intro h
  cases h with
  | syscall s => cases s with
    | call s => cases s <;> decide
    | threadFork => decide
  | exception e => cases e <;> decide
  | timer => decide
  | keyboard => decide

theorem idt_after_boot_vectors :
    Function.Injective vectorNumber ∧
    gateAt (bootIdt vectorNumber (fun h => BitVec.ofNat 32 (0x100000 + 16 * vectorNumber h)) 0x10
        fun _ => 0) 14 = some ⟨.interrupt, true, 0, 0x10, 0x1000e0⟩ ∧
    gateAt (bootIdt vectorNumber (fun h => BitVec.ofNat 32 (0x100000 + 16 * vectorNumber h)) 0x10
        fun _ => 0) 12 = some ⟨.interrupt, true, 0, 0x10, 0x1000e0⟩ := by
  have hboot := (idt_after_boot vectorNumber_injective
    (fun h => BitVec.ofNat 32 (0x100000 + 16 * vectorNumber h)) 0x10 fun _ => 0).1
  exact ⟨vectorNumber_injective, (hboot (.exception .pageFault)).1, (hboot (.exception .ssFault)).1⟩

end ShrekOS.Idt
