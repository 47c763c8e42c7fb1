/-
Blocks of memory copied one after the other.

* `copyBlock`, `copyBlocks`: a copy of one block to another address, and a list of them;
* `Faithful`: every target got what its source held at first, and the sources still hold it;
* `Harmonious`: a source that is also a target holds what it is overwritten with;
* `copyBlocks_faithful_iff`: **copies are faithful if and only if they are harmonious**,
  when no address is a target twice.
-/
import Mathlib.Tactic

namespace Kit

variable {A C : Type} [DecidableEq A]

/-- The contents of the block at `move.1` are copied to `move.2`. -/
def copyBlock (m : A → C) (move : A × A) : A → C := Function.update m move.2 (m move.1)

/-- The copies of a list, in order. -/
def copyBlocks (m : A → C) (moves : List (A × A)) : A → C := moves.foldl copyBlock m

/-- Every target holds in `m'` what its source held in `m`, and so does the source. -/
def Faithful (moves : List (A × A)) (m m' : A → C) : Prop :=
  ∀ move ∈ moves, m' move.2 = m move.1 ∧ m' move.1 = m move.1

/-- A source that is also a target holds what is copied there. -/
def Harmonious (moves : List (A × A)) (m : A → C) : Prop :=
  ∀ x ∈ moves, ∀ y ∈ moves, y.1 = x.2 → m y.1 = m x.1

variable {moves : List (A × A)} {m : A → C} {P : A → Prop}

lemma copyBlocks_append (m : A → C) (moves moves' : List (A × A)) :
    copyBlocks m (moves ++ moves') = copyBlocks (copyBlocks m moves) moves' :=
  List.foldl_append

/-- A block that is not a target keeps its contents. -/
lemma copyBlocks_of_notMem {a : A} (h : a ∉ moves.map Prod.snd) : copyBlocks m moves a = m a := by
  induction moves generalizing m with
  | nil => rfl
  | cons x moves ih =>
      rw [List.map_cons, List.mem_cons, not_or] at h
      have hrest : copyBlocks (copyBlock m x) moves a = copyBlock m x a := ih h.2
      rw [copyBlock, Function.update_of_ne h.1] at hrest
      exact hrest

/-- Blocks that are only overwritten with what they hold keep their contents. -/
lemma copyBlocks_keeps (hsrc : ∀ x ∈ moves, P x.1)
    (hsame : ∀ x ∈ moves, P x.2 → m x.2 = m x.1) : ∀ a, P a → copyBlocks m moves a = m a := by
  induction moves generalizing m with
  | nil => exact fun _ _ => rfl
  | cons x moves ih =>
      -- the first copy does not change what the others see
      have hfirst : ∀ a, P a → copyBlock m x a = m a := by
        intro a ha
        rw [copyBlock]
        by_cases heq : a = x.2
        · subst heq
          rw [Function.update_self, hsame x (.head _) ha]
        · rw [Function.update_of_ne heq]
      intro a ha
      refine (ih (fun y hy => hsrc y (.tail _ hy)) (fun y hy hP => ?_) a ha).trans (hfirst a ha)
      rw [hfirst _ hP, hfirst _ (hsrc y (.tail _ hy)), hsame y (.tail _ hy) hP]

/-- The targets, when the sources keep their contents. -/
lemma copyBlocks_target (hnodup : (moves.map Prod.snd).Nodup) (hsrc : ∀ x ∈ moves, P x.1)
    (hsame : ∀ x ∈ moves, P x.2 → m x.2 = m x.1) :
    ∀ x ∈ moves, copyBlocks m moves x.2 = m x.1 := by
  induction moves generalizing m with
  | nil => exact fun _ hx => absurd hx (List.not_mem_nil)
  | cons y moves ih =>
      rw [List.map_cons, List.nodup_cons] at hnodup
      have hfirst : ∀ a, P a → copyBlock m y a = m a :=
        @copyBlocks_keeps _ _ _ [y] _ _ (by simpa using hsrc y (.head _))
          (by simpa using hsame y (.head _))
      intro x hx
      rcases List.mem_cons.mp hx with rfl | hx
      · have hrest : copyBlocks (copyBlock m x) moves x.2 = copyBlock m x x.2 :=
          copyBlocks_of_notMem hnodup.1
        rw [copyBlock, Function.update_self] at hrest
        exact hrest
      · have hrest := ih (m := copyBlock m y) hnodup.2 (fun z hz => hsrc z (.tail _ hz))
          (fun z hz hP => by
            rw [hfirst _ hP, hfirst _ (hsrc z (.tail _ hz)), hsame z (.tail _ hz) hP]) x hx
        exact hrest.trans (hfirst _ (hsrc x (.tail _ hx)))

/-- **Copies one after the other** are faithful if and only if no source is overwritten
with something else. -/
theorem copyBlocks_faithful_iff (hnodup : (moves.map Prod.snd).Nodup) :
    Faithful moves m (copyBlocks m moves) ↔ Harmonious moves m := by
  constructor
  · intro h x hx y hy heq
    calc m y.1 = copyBlocks m moves y.1 := (h y hy).2.symm
      _ = copyBlocks m moves x.2 := by rw [heq]
      _ = m x.1 := (h x hx).1
  · intro h
    have hsrc : ∀ x ∈ moves, ∃ y ∈ moves, y.1 = x.1 := fun x hx => ⟨x, hx, rfl⟩
    have hsame : ∀ x ∈ moves, (∃ y ∈ moves, y.1 = x.2) → m x.2 = m x.1 := by
      rintro x hx ⟨y, hy, heq⟩
      rw [← heq, h x hx y hy heq]
    exact fun x hx =>
      ⟨copyBlocks_target (P := fun a => ∃ y ∈ moves, y.1 = a) hnodup hsrc hsame x hx,
        copyBlocks_keeps (P := fun a => ∃ y ∈ moves, y.1 = a) hsrc hsame x.1 (hsrc x hx)⟩

end Kit
