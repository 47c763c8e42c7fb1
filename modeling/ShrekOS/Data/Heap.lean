/-
Addresses on the kernel heap, and what can end a run of kernel code.
-/
import Mathlib.Tactic

namespace ShrekOS

/-- An address on the kernel heap. -/
abbrev Ptr : Type := ℕ

/-- The `int` a 32-bit word is read as. -/
def toInt32 (w : ℕ) : ℤ := if w < 2 ^ 31 then w else (w : ℤ) - 2 ^ 32

/-- What ends a run: a failed `ASSERT`, a `panic`, an access through a pointer
to nothing, a list whose links are broken, a signed overflow, too little fuel, or
a script of heap answers that no heap gives. -/
inductive Fault where
  | assertFailed
  | panic (msg : String)
  | badPointer
  | brokenList
  | overflow
  | outOfFuel
  | badHeap
  deriving DecidableEq

end ShrekOS
