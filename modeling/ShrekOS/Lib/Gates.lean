/-
The gates of an interrupt descriptor table of an x86: eight bytes for each vector.

* `GateDesc`, `decodeGate`: a gate, and its four half words;
* `enterGate`: what the processor makes of an interrupt, an exception or an `int` instruction;
* `gateAt`: the gate of a vector; `gateAt_of_writes`, `gateAt_of_others`;
* `read_foldl`: **what a table holds after writes to distinct keys**.
-/
import ShrekOS.Lib.Ring

namespace Kit.Ring

/-- An interrupt gate disables interrupts, a trap gate does not. -/
inductive GateKind where
  | interrupt
  | trap
  deriving DecidableEq

/-- A gate for 32-bit code. -/
structure GateDesc where
  kind : GateKind
  present : Bool
  dpl : ℕ
  selector : Selector
  offset : Word
  deriving DecidableEq

/-- The type of a gate, in the low five bits of its access byte. -/
def gateKind (access : BitVec 8) : Option GateKind :=
  if access &&& 0x1f = 0x0e then some .interrupt
  else if access &&& 0x1f = 0x0f then some .trap
  else none

/-- A gate from its four half words: the offset is in the first and the last, and the access byte
is the upper half of the third. Other gates than those for 32-bit code are left out. -/
def decodeGate (w : ℕ → BitVec 16) : Option GateDesc :=
  let access : BitVec 8 := (w 2 >>> 8).truncate 8
  (gateKind access).map fun kind =>
    { kind := kind
      present := access.getLsbD 7
      dpl := ((access >>> 5) &&& 3).toNat
      selector := w 1
      offset := w 3 ++ w 0 }

/-- The gate of a vector. -/
def gateAt (idt : ℕ → BitVec 16) (v : ℕ) : Option GateDesc := decodeGate fun i => idt (4 * v + i)

/-- What the processor does with a gate: an `int` instruction also needs its privilege level. -/
def enterGate (software : Bool) (cpl : ℕ) : Option GateDesc → Except CpuFault GateDesc
  | none => .error .generalProtection
  | some g =>
      if software ∧ g.dpl < cpl then .error .generalProtection
      else if g.present then .ok g
      else .error .notPresent

variable {idt idt' : ℕ → BitVec 16} {v u : ℕ}

/-- A gate is as it was when its half words are. -/
lemma gateAt_of_others (h : ∀ i < 4, idt' (4 * v + i) = idt (4 * v + i)) :
    gateAt idt' v = gateAt idt v := by
  have h0 := h 0 (by decide)
  have h1 := h 1 (by decide)
  have h2 := h 2 (by decide)
  have h3 := h 3 (by decide)
  simp only [gateAt, decodeGate, h0, h1, h2, h3]

/-- **A gate whose four half words were written.** -/
lemma gateAt_of_writes {g : GateDesc} {w : BitVec 16} (hlow : idt (4 * v) = g.offset.truncate 16)
    (hsel : idt (4 * v + 1) = g.selector) (hflags : idt (4 * v + 2) = w)
    (hhigh : idt (4 * v + 3) = (g.offset >>> 16).truncate 16)
    (hkind : gateKind ((w >>> 8).truncate 8) = some g.kind)
    (hpresent : ((w >>> 8).truncate 8 : BitVec 8).getLsbD 7 = g.present)
    (hdpl : ((((w >>> 8).truncate 8 : BitVec 8) >>> 5) &&& 3).toNat = g.dpl) :
    gateAt idt v = some g := by
  have hoffset : (g.offset >>> 16).truncate 16 ++ g.offset.truncate 16 = g.offset := by
    refine BitVec.eq_of_getLsbD_eq fun i hi => ?_
    rw [BitVec.getLsbD_append]
    by_cases hi' : i < 16
    · simp [hi']
    · have hsub : i - 16 < 16 := by omega
      have hadd : 16 + (i - 16) = i := by omega
      simp [hi', hsub, hadd, BitVec.getLsbD_ushiftRight]
  simp only [gateAt, decodeGate, Nat.add_zero, hlow, hsel, hflags, hhigh, hkind, hpresent, hdpl,
    hoffset, Option.map_some]

/-- A privilege level that an `int` instruction is refused at. -/
lemma enterGate_software {g : GateDesc} {cpl : ℕ} (h : g.present = true) :
    enterGate true cpl (some g) = .ok g ↔ cpl ≤ g.dpl := by
  simp only [enterGate]
  by_cases hlt : g.dpl < cpl
  · rw [if_pos ⟨trivial, hlt⟩]
    exact ⟨nofun, fun hle => absurd hlt (not_lt.mpr hle)⟩
  · rw [if_neg fun hand => hlt hand.2, if_pos h]
    exact iff_of_true rfl (not_lt.mp hlt)

lemma enterGate_hardware {g : GateDesc} (h : g.present = true) (cpl : ℕ) :
    enterGate false cpl (some g) = .ok g := by
  simp only [enterGate]
  rw [if_neg fun hand => Bool.noConfusion hand.1, if_pos h]

end Kit.Ring

namespace Kit

variable {τ ι κ α : Type} {write : τ → ι → τ} {key : ι → κ} {read : τ → κ → α} {value : ι → α}

/-- A key that is not written. -/
lemma read_foldl_of_ne (hother : ∀ t i k, k ≠ key i → read (write t i) k = read t k) {k : κ}
    {l : List ι} (hk : ∀ i ∈ l, key i ≠ k) (t : τ) : read (l.foldl write t) k = read t k := by
  induction l generalizing t with
  | nil => rfl
  | cons i l ih =>
      rw [List.foldl_cons, ih fun j hj => hk j (.tail i hj)]
      exact hother t i k (hk i (.head l)).symm

/-- **Writes to distinct keys**: every key holds what was written to it. -/
theorem read_foldl (hother : ∀ t i k, k ≠ key i → read (write t i) k = read t k) {l : List ι}
    (hkey : ∀ i ∈ l, ∀ t, read (write t i) (key i) = value i) (hl : (l.map key).Nodup) (t : τ)
    {i : ι} (hi : i ∈ l) : read (l.foldl write t) (key i) = value i := by
  induction l generalizing t with
  | nil => exact absurd hi List.not_mem_nil
  | cons j l ih =>
      rw [List.map_cons, List.nodup_cons] at hl
      rw [List.foldl_cons]
      rcases List.mem_cons.mp hi with rfl | hi
      · have hne : ∀ j ∈ l, key j ≠ key i := fun j hj heq =>
          hl.1 (heq ▸ List.mem_map_of_mem hj)
        rw [read_foldl_of_ne hother hne]
        exact hkey i hi t
      · exact ih (fun j hj => hkey j (.tail _ hj)) hl.2 _ hi

end Kit
