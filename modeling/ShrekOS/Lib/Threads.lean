/-
Threads over a shared state, and the rule for assertions at their program counters.

* `Threads`: how one thread steps, and `Threads.next`, `Threads.machine`: the step of the
  whole system, a thread at a time;
* `Threads.Annotated`: a global invariant and an assertion for each program counter, both
  over some ghost state;
* `Threads.annotated_of_reach`: **the rule**: what a step makes of its own assertion, and of
  the assertions of the other threads, holds along every guarded run.
-/
import ShrekOS.Lib.Runs

namespace Kit

/-- Threads with program counters `π` over a shared state `σ`. -/
structure Threads (σ π ι : Type) where
  init : σ × (ℕ → π) → Prop
  step : σ → ℕ → π → ι → Option (σ × π)

namespace Threads

variable {σ π ι γ : Type} {T : Threads σ π ι} {G : σ × (ℕ → π) → ℕ × ι → Prop}

/-- The named thread takes a step. -/
def next (T : Threads σ π ι) (s : σ × (ℕ → π)) (a : ℕ × ι) : Option (σ × (ℕ → π)) :=
  (T.step s.1 a.1 (s.2 a.1) a.2).map fun r => (r.1, Function.update s.2 a.1 r.2)

/-- The system of all threads. -/
def machine (T : Threads σ π ι) : Machine (σ × (ℕ → π)) (ℕ × ι) where
  init := T.init
  step s a s' := T.next s a = some s'

lemma next_eq_some {s s' : σ × (ℕ → π)} {a : ℕ × ι} (h : T.next s a = some s') :
    ∃ r, T.step s.1 a.1 (s.2 a.1) a.2 = some r ∧ s' = (r.1, Function.update s.2 a.1 r.2) := by
  unfold next at h
  rw [Option.map_eq_some_iff] at h
  obtain ⟨r, hr, heq⟩ := h
  exact ⟨r, hr, heq.symm⟩

/-- The global invariant, and at each thread the assertion of its program counter. -/
def Annotated (I : σ → γ → Prop) (A : σ → γ → ℕ → π → Prop) (s : σ × (ℕ → π)) : Prop :=
  ∃ g, I s.1 g ∧ ∀ t, A s.1 g t (s.2 t)

variable {I : σ → γ → Prop} {A : σ → γ → ℕ → π → Prop}

/-- A step that leaves the thread with its assertion and the others with theirs. -/
lemma Annotated.update {s : σ} {pc : ℕ → π} {t : ℕ} {p : π} {g : γ} (hI : I s g)
    (hown : A s g t p) (hother : ∀ u, u ≠ t → A s g u (pc u)) :
    Annotated I A (s, Function.update pc t p) := by
  refine ⟨g, hI, fun u => ?_⟩
  change A s g u (Function.update pc t p u)
  by_cases hu : u = t
  · subst hu
    rw [Function.update_self]
    exact hown
  · rw [Function.update_of_ne hu]
    exact hother u hu

/-- **The rule for annotated threads**: initially annotated, and annotated after each
guarded step, with the invariant, the thread's new assertion and the others' old ones. -/
theorem annotated_of_reach (h0 : ∀ s, T.init s → Annotated I A s)
    (hstep : ∀ s pc g t a s' p', I s g → (∀ u, A s g u (pc u)) → G (s, pc) (t, a) →
      T.step s t (pc t) a = some (s', p') →
      ∃ g', I s' g' ∧ A s' g' t p' ∧ ∀ u, u ≠ t → A s' g' u (pc u))
    {s : σ × (ℕ → π)} (h : T.machine.Reach G s) : Annotated I A s := by
  refine Machine.Reach.inv (I := Annotated I A) h0 ?_ h
  rintro ⟨s, pc⟩ ⟨t, a⟩ s' ⟨g, hI, hA⟩ hG hs
  obtain ⟨⟨s₁, p₁⟩, hr, rfl⟩ := next_eq_some hs
  obtain ⟨g', hI', hown, hother⟩ := hstep s pc g t a s₁ p₁ hI hA hG hr
  exact Annotated.update hI' hown hother

end Threads

end Kit
