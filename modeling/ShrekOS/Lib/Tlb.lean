/-
A cache of address translations, that a processor fills from its tables when it likes.

* `Tlb`: the translations that are held, each with its page; `Tlb.fill`, `Tlb.flush`: the two
  ways in which it changes, and `Caches`: whether anything is held for a page;
* `Tlb.Coherent`: all that is held is what the tables say. Fills and flushes keep it
  (`Coherent.fill`, `Coherent.flush`); a change of the tables does only where they agree
  (`Coherent.congr`).
-/
import Mathlib.Data.List.Basic

namespace Kit

variable {P T : Type} {walk walk' : P → Option T} {p q : P} {ps : List P}

/-- The translations that the processor holds. -/
structure Tlb (P T : Type) where
  held : List (P × T)

namespace Tlb

variable {c : Tlb P T}

/-- A translation is held for the page. -/
def Caches (c : Tlb P T) (p : P) : Prop := ∃ x, (p, x) ∈ c.held

/-- The processor looks some pages up and holds what it finds. -/
def fill (walk : P → Option T) (ps : List P) (c : Tlb P T) : Tlb P T where
  held := (ps.filterMap fun p => (walk p).map fun x => (p, x)) ++ c.held

/-- What is held for one page is dropped. -/
def flush [DecidableEq P] (q : P) (c : Tlb P T) : Tlb P T where
  held := c.held.filter fun y => y.1 ≠ q

/-- All that is held is what the tables say. -/
def Coherent (walk : P → Option T) (c : Tlb P T) : Prop := ∀ p x, (p, x) ∈ c.held → walk p = some x

lemma mem_fill {x : T} :
    (p, x) ∈ (c.fill walk ps).held ↔ (p ∈ ps ∧ walk p = some x) ∨ (p, x) ∈ c.held := by
  simp [fill]

lemma mem_flush [DecidableEq P] {x : T} :
    (p, x) ∈ (c.flush q).held ↔ p ≠ q ∧ (p, x) ∈ c.held := by
  simp [flush, and_comm]

/-- A page is held after a fill when it was looked up and is mapped, or was held. -/
lemma caches_fill : (c.fill walk ps).Caches p ↔ (p ∈ ps ∧ walk p ≠ none) ∨ c.Caches p := by
  simp only [Caches, mem_fill, exists_or, exists_and_left, Option.ne_none_iff_exists']

/-- After a flush the page is not held, and the others are as before. -/
lemma caches_flush [DecidableEq P] : (c.flush q).Caches p ↔ p ≠ q ∧ c.Caches p := by
  simp only [Caches, mem_flush, exists_and_left]

lemma Coherent.fill (h : c.Coherent walk) (ps : List P) : (c.fill walk ps).Coherent walk := by
  intro p x hx
  rcases mem_fill.mp hx with ⟨-, hw⟩ | hx
  · exact hw
  · exact h p x hx

lemma Coherent.flush [DecidableEq P] (h : c.Coherent walk) (q : P) : (c.flush q).Coherent walk :=
  fun p x hx => h p x (mem_flush.mp hx).2

/-- Other tables that say the same. -/
lemma Coherent.congr (h : c.Coherent walk) (hwalk : ∀ p, walk' p = walk p) : c.Coherent walk' :=
  fun p x hx => (hwalk p).trans (h p x hx)

end Tlb

end Kit
