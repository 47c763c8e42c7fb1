/-
The assembly of an x86 kernel's way in and out: the instructions that save and load a
context, run on a processor and its memory.

* `Instr`, `exec`, `run`: `push` and `pop`, `pusha` and `popa`, moves and sums, `ret`, `iret`;
* `Stacked`: the words on a stack, from its top; `Stacked.store` writes one more;
* `pushAll`: words that are pushed; `stacked_pushAll`: **they are what is on the stack**, and
  `pushAll_mem`: nothing above it is written.

A stack may lie anywhere; `esp` wraps around. The arithmetic flags are not followed
(`sumFlags`).
-/
import ShrekOS.Lib.Ring

namespace Kit.Ring

/-- The general registers. -/
inductive Reg where
  | eax | ecx | edx | ebx | esp | ebp | esi | edi

/-- The segment registers that can be pushed. -/
inductive Seg where
  | cs | ss | ds | es | fs | gs

/-- A general register. -/
def Cpu.get (c : Cpu) : Reg → Word
  | .eax => c.eax
  | .ecx => c.ecx
  | .edx => c.edx
  | .ebx => c.ebx
  | .esp => c.esp
  | .ebp => c.ebp
  | .esi => c.esi
  | .edi => c.edi

/-- A general register is written. -/
def Cpu.set (c : Cpu) (w : Word) : Reg → Cpu
  | .eax => { c with eax := w }
  | .ecx => { c with ecx := w }
  | .edx => { c with edx := w }
  | .ebx => { c with ebx := w }
  | .esp => { c with esp := w }
  | .ebp => { c with ebp := w }
  | .esi => { c with esi := w }
  | .edi => { c with edi := w }

/-- A segment register, as a word. -/
def Cpu.seg (c : Cpu) : Seg → Word
  | .cs => c.cs.zeroExtend 32
  | .ss => c.ss.zeroExtend 32
  | .ds => c.ds.zeroExtend 32
  | .es => c.es.zeroExtend 32
  | .fs => c.fs.zeroExtend 32
  | .gs => c.gs.zeroExtend 32

/-- A selector that was pushed. -/
lemma ofWord_zeroExtend (s : Selector) : Selector.ofWord (s.zeroExtend 32) = s := by
  rw [Selector.ofWord]
  bv_omega

/-- The instructions; `pushAt d r` is `pushl d(%r)`, and `movAt d r q` is `movl d(%r), %q`. -/
inductive Instr where
  | push (r : Reg)
  | pushImm (w : Word)
  | pushAt (d : Word) (r : Reg)
  | pushSeg (s : Seg)
  | pushf
  | pusha
  | pop (r : Reg)
  | popSeg (s : SegReg)
  | popa
  | add (w : Word) (r : Reg)
  | sub (w : Word) (r : Reg)
  | mov (r q : Reg)
  | movAt (d : Word) (r q : Reg)
  | ret
  | iret
  | hlt

/-- The arithmetic flags: carry, parity, adjust, zero, sign and overflow. -/
def sumFlags : Word := 0x8d5

/-- A processor and its memory. -/
structure Core where
  cpu : Cpu
  mem : Word → Word

/-- A word is pushed. -/
def Core.push (k : Core) (w : Word) : Core where
  cpu := { k.cpu with esp := k.cpu.esp - 4 }
  mem := Function.update k.mem (k.cpu.esp - 4) w

/-- The words are pushed from the last to the first, which is then on the top. -/
def Core.pushAll (k : Core) : List Word → Core
  | [] => k
  | w :: ws => (k.pushAll ws).push w

/-- One instruction. `hlt` is over when an interrupt has come back. -/
def exec (T : Tables) (k : Core) : Instr → Except CpuFault Core
  | .push r => .ok (k.push (k.cpu.get r))
  | .pushImm w => .ok (k.push w)
  | .pushAt d r => .ok (k.push (k.mem (k.cpu.get r + d)))
  | .pushSeg s => .ok (k.push (k.cpu.seg s))
  | .pushf => .ok (k.push k.cpu.eflags)
  | .pusha =>
      let c := k.cpu
      .ok (k.pushAll [c.edi, c.esi, c.ebp, c.esp, c.ebx, c.edx, c.ecx, c.eax])
  | .pop r => .ok { k with
      cpu := { k.cpu with esp := k.cpu.esp + 4 }.set (k.mem k.cpu.esp) r }
  | .popSeg s => do return { k with cpu := ← Ring.popSeg T k.mem s k.cpu }
  | .popa => .ok { k with cpu := Ring.popa k.mem k.cpu }
  | .add w r => .ok { k with cpu := k.cpu.set (k.cpu.get r + w) r }
  | .sub w r => .ok { k with cpu := k.cpu.set (k.cpu.get r - w) r }
  | .mov r q => .ok { k with cpu := k.cpu.set (k.cpu.get r) q }
  | .movAt d r q => .ok { k with cpu := k.cpu.set (k.mem (k.cpu.get r + d)) q }
  | .ret => .ok { k with cpu := { k.cpu with eip := k.mem k.cpu.esp, esp := k.cpu.esp + 4 } }
  | .iret => do return { k with cpu := ← Ring.iret T k.mem k.cpu }
  | .hlt => .ok k

/-- Instructions in a row. -/
def run (T : Tables) : List Instr → Core → Except CpuFault Core
  | [], k => .ok k
  | i :: code, k => do run T code (← exec T k i)

/-! ### The words on a stack -/

/-- The words from an address on. -/
def Stacked (m : Word → Word) : Word → List Word → Prop
  | _, [] => True
  | p, w :: ws => m p = w ∧ Stacked m (p + 4) ws

variable {T : Tables} {m m' : Word → Word} {p q w : Word} {ws : List Word} {k : Core}

@[simp] lemma stacked_nil : Stacked m p [] := trivial

@[simp] lemma stacked_cons : Stacked m p (w :: ws) ↔ m p = w ∧ Stacked m (p + 4) ws := Iff.rfl

/-- Words that are not written to stay. -/
lemma Stacked.congr (h : Stacked m p ws)
    (hm : ∀ i < ws.length, m' (p + 4 * BitVec.ofNat 32 i) = m (p + 4 * BitVec.ofNat 32 i)) :
    Stacked m' p ws := by
  induction ws generalizing p with
  | nil => trivial
  | cons w ws ih =>
      have h0 := hm 0 (Nat.zero_lt_succ _)
      rw [show p + 4 * BitVec.ofNat 32 0 = p by bv_omega] at h0
      refine ⟨h0.trans h.1, ih h.2 fun i hi => ?_⟩
      have hs := hm (i + 1) (Nat.succ_lt_succ hi)
      rwa [show p + 4 * BitVec.ofNat 32 (i + 1) = p + 4 + 4 * BitVec.ofNat 32 i by bv_omega] at hs

/-- Words in two parts. -/
lemma stacked_append {vs : List Word} : Stacked m p (ws ++ vs) ↔
    Stacked m p ws ∧ Stacked m (p + 4 * BitVec.ofNat 32 ws.length) vs := by
  induction ws generalizing p with
  | nil =>
      have hp : p + 4 * BitVec.ofNat 32 0 = p := by bv_omega
      rw [List.nil_append, List.length_nil, hp]
      exact (and_iff_right trivial).symm
  | cons w ws ih =>
      have hp : p + 4 + 4 * BitVec.ofNat 32 ws.length =
          p + 4 * BitVec.ofNat 32 (ws.length + 1) := by bv_omega
      rw [List.cons_append, stacked_cons, ih, hp, stacked_cons, List.length_cons, and_assoc]

/-- A word is written elsewhere. -/
lemma Stacked.update {a : Word} (h : Stacked m p ws)
    (ha : ∀ i < ws.length, p + 4 * BitVec.ofNat 32 i ≠ a) (w : Word) :
    Stacked (Function.update m a w) p ws :=
  h.congr fun i hi => Function.update_of_ne (ha i hi) ..

/-- One of the words is written. -/
lemma Stacked.set {j : ℕ} (h : Stacked m p ws) (hj : j < ws.length)
    (hlen : 4 * ws.length ≤ 2 ^ 32) (w : Word) :
    Stacked (Function.update m (p + 4 * BitVec.ofNat 32 j) w) p (ws.set j w) := by
  induction ws generalizing p j with
  | nil => exact absurd hj (Nat.not_lt_zero j)
  | cons a ws ih =>
      rw [List.length_cons] at hlen hj
      cases j with
      | zero =>
          have hp : p + 4 * BitVec.ofNat 32 0 = p := by bv_omega
          rw [hp]
          refine ⟨Function.update_self .., h.2.update (fun i hi => ?_) w⟩
          bv_omega
      | succ j =>
          have hp : p + 4 * BitVec.ofNat 32 (j + 1) = p + 4 + 4 * BitVec.ofNat 32 j := by bv_omega
          rw [hp]
          refine ⟨(Function.update_of_ne ?_ ..).trans h.1, ih h.2 (by omega) (by omega)⟩
          bv_omega

/-- One more word is written below a stack that does not go around the memory. -/
lemma Stacked.store (h : Stacked m q ws) (hp : p + 4 = q) (hlen : 4 * ws.length + 4 ≤ 2 ^ 32)
    (w : Word) : Stacked (Function.update m p w) p (w :: ws) := by
  subst hp
  refine ⟨Function.update_self .., h.congr fun i hi => Function.update_of_ne ?_ ..⟩
  bv_omega

/-- Words are written from an address on. -/
def storeWords (m : Word → Word) : Word → List Word → Word → Word
  | _, [] => m
  | p, w :: ws => Function.update (storeWords m (p + 4) ws) p w

/-- **The words that are written are there.** -/
theorem stacked_storeWords (m : Word → Word) (hlen : 4 * ws.length ≤ 2 ^ 32) :
    Stacked (storeWords m p ws) p ws := by
  induction ws generalizing p with
  | nil => trivial
  | cons w ws ih =>
      rw [List.length_cons] at hlen
      exact (ih (by omega)).store rfl (by omega) w

/-! ### What is pushed -/

@[simp] lemma Core.push_esp : (k.push w).cpu.esp = k.cpu.esp - 4 := rfl

@[simp] lemma Core.push_mem :
    (k.push w).mem = Function.update k.mem (k.cpu.esp - 4) w := rfl

lemma Core.push_seg (s : Seg) : (k.push w).cpu.seg s = k.cpu.seg s := by
  cases s <;> rfl

lemma Core.push_eflags : (k.push w).cpu.eflags = k.cpu.eflags := rfl

@[simp] lemma Core.pushAll_nil : k.pushAll [] = k := rfl

@[simp] lemma Core.pushAll_cons : k.pushAll (w :: ws) = (k.pushAll ws).push w := rfl

/-- Only `esp` moves. -/
lemma Core.pushAll_cpu (k : Core) (ws : List Word) : (k.pushAll ws).cpu =
    { k.cpu with esp := k.cpu.esp - 4 * BitVec.ofNat 32 ws.length } := by
  induction ws with
  | nil =>
      have hesp : k.cpu.esp - 4 * BitVec.ofNat 32 0 = k.cpu.esp := by bv_omega
      rw [List.length_nil, hesp]
      rfl
  | cons w ws ih =>
      have hesp : k.cpu.esp - 4 * BitVec.ofNat 32 ws.length - 4 =
          k.cpu.esp - 4 * BitVec.ofNat 32 (ws.length + 1) := by bv_omega
      rw [List.length_cons, ← hesp, pushAll_cons, push, ih]

/-- **The words pushed are what is on the stack.** -/
theorem stacked_pushAll (k : Core) (hlen : 4 * ws.length ≤ 2 ^ 32) :
    Stacked (k.pushAll ws).mem (k.pushAll ws).cpu.esp ws := by
  induction ws with
  | nil => trivial
  | cons w ws ih =>
      rw [List.length_cons] at hlen
      exact (ih (by omega)).store (by bv_omega) (by omega) w

/-- What is above the stack is not written. -/
lemma Core.pushAll_mem (k : Core) (a : Word)
    (ha : ∀ i < ws.length, a ≠ k.cpu.esp - 4 * BitVec.ofNat 32 (i + 1)) :
    (k.pushAll ws).mem a = k.mem a := by
  induction ws with
  | nil => rfl
  | cons w ws ih =>
      have hne := ha ws.length (Nat.lt_succ_self _)
      have hesp : (k.pushAll ws).cpu.esp - 4 = k.cpu.esp - 4 * BitVec.ofNat 32 (ws.length + 1) := by
        rw [pushAll_cpu]
        bv_omega
      rw [pushAll_cons, push_mem, hesp, Function.update_of_ne hne]
      exact ih fun i hi => ha i (Nat.lt_succ_of_lt hi)

/-- `subl $4, %esp`: the word that is there is pushed. -/
lemma Core.push_there (k : Core) :
    ({ k with cpu := { k.cpu with esp := k.cpu.esp - 4 } } : Core) =
      k.push (k.mem (k.cpu.esp - 4)) := by
  rw [push, Function.update_eq_self]

/-! ### Runs -/

lemma ok_bind {ε α β : Type} (a : α) (f : α → Except ε β) : (Except.ok a >>= f) = f a := rfl

lemma exec_push (r : Reg) : exec T k (.push r) = .ok (k.push (k.cpu.get r)) := rfl

lemma exec_pushImm : exec T k (.pushImm w) = .ok (k.push w) := rfl

lemma exec_pushAt (d : Word) (r : Reg) :
    exec T k (.pushAt d r) = .ok (k.push (k.mem (k.cpu.get r + d))) := rfl

lemma exec_pushSeg (s : Seg) : exec T k (.pushSeg s) = .ok (k.push (k.cpu.seg s)) := rfl

lemma exec_pushf : exec T k .pushf = .ok (k.push k.cpu.eflags) := rfl

lemma exec_pusha : exec T k .pusha = .ok (k.pushAll [k.cpu.edi, k.cpu.esi, k.cpu.ebp,
    k.cpu.esp, k.cpu.ebx, k.cpu.edx, k.cpu.ecx, k.cpu.eax]) := rfl

/-- `subl $4, %esp` leaves what is on the stack. -/
lemma exec_skip : exec T k (.sub 4 .esp) = .ok (k.push (k.mem (k.cpu.esp - 4))) :=
  congrArg Except.ok k.push_there

@[simp] lemma run_nil : run T [] k = .ok k := rfl

@[simp] lemma run_cons (i : Instr) (code : List Instr) :
    run T (i :: code) k = (exec T k i) >>= run T code := rfl

/-- What an instruction pushes that only moves registers to the stack. -/
def Cpu.pushes (c : Cpu) : Instr → Option Word
  | .push .esp => none
  | .push r => some (c.get r)
  | .pushImm w => some w
  | .pushSeg s => some (c.seg s)
  | _ => none

/-- Such an instruction. -/
lemma exec_pushes {i : Instr} (h : k.cpu.pushes i = some w) :
    exec T k i = .ok (k.push w) ∧ ∀ j, (k.push w).cpu.pushes j = k.cpu.pushes j := by
  refine ⟨?_, fun j => ?_⟩
  · cases i with
    | push r => cases r <;> cases h <;> rfl
    | pushImm w => cases h; rfl
    | pushSeg s => cases h; rfl
    | _ => cases h
  · cases j with
    | push r => cases r <;> rfl
    | pushSeg s => cases s <;> rfl
    | _ => rfl

lemma Core.pushAll_append (k : Core) (ws vs : List Word) :
    k.pushAll (ws ++ vs) = (k.pushAll vs).pushAll ws := by
  induction ws with
  | nil => rfl
  | cons w ws ih => rw [List.cons_append, pushAll_cons, pushAll_cons, ih]

/-- Registers that are saved one after the other. -/
lemma run_pushes_reverse {code : List Instr} (h : code.map k.cpu.pushes = ws.map some) :
    run T code k = .ok (k.pushAll ws.reverse) := by
  induction code generalizing k ws with
  | nil =>
      obtain rfl : ws = [] := by simpa using h.symm
      rfl
  | cons i code ih =>
      obtain ⟨w, ws, rfl, hw, h⟩ := List.map_eq_cons_iff.mp h.symm
      obtain ⟨hexec, hkeep⟩ := exec_pushes hw.symm
      rw [run_cons, hexec, ok_bind, List.reverse_cons, Core.pushAll_append]
      refine ih ?_
      rw [h]
      exact List.map_congr_left fun j _ => hkeep j

/-- **Registers that are saved** are on the stack, the last one on its top. -/
theorem run_pushes {code : List Instr} (h : code.reverse.map k.cpu.pushes = ws.map some) :
    run T code k = .ok (k.pushAll ws) := by
  have hrev : code.map k.cpu.pushes = ws.reverse.map some := by
    rw [← List.reverse_inj, ← List.map_reverse, h, List.map_reverse, List.reverse_reverse]
  rw [run_pushes_reverse hrev, List.reverse_reverse]

/-- `pop` of a data segment register, and the code after it. -/
lemma run_popSeg (s : SegReg) (code : List Instr) : run T (.popSeg s :: code) k =
    Ring.popSeg T k.mem s k.cpu >>= fun c => run T code { k with cpu := c } := by
  rw [run_cons, exec]
  cases Ring.popSeg T k.mem s k.cpu <;> rfl

/-- `iret` at the end of some code. -/
lemma run_iret : run T [.iret] k =
    (Ring.iret T k.mem k.cpu).map fun c => ({ k with cpu := c } : Core) := by
  rw [run_cons, exec]
  cases Ring.iret T k.mem k.cpu <;> rfl

/-- A result that is changed at the end. -/
lemma map_bind {ε α β γ : Type} (x : Except ε α) (f : α → Except ε β) (g : β → γ) :
    (x >>= f).map g = x >>= fun a => (f a).map g := by
  cases x <;> rfl

/-- Two pieces of code in a row. -/
lemma run_append (c₁ c₂ : List Instr) : run T (c₁ ++ c₂) k = run T c₁ k >>= run T c₂ := by
  induction c₁ generalizing k with
  | nil => rfl
  | cons i c₁ ih =>
      rw [List.cons_append, run_cons, run_cons]
      cases exec T k i with
      | error e => rfl
      | ok k' => exact ih

end Kit.Ring
