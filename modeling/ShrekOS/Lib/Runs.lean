/-
Runs of labelled transition systems, and the invariant rule along them.

* `Machine`: initial states and a labelled step relation;
* `Reach G`: the states of the runs all of whose steps meet the guard `G`, a
  condition on the label and on the state before the step;
* `Reach.inv`: **the invariant rule**: what holds initially and is kept by every
  guarded step holds in every state of a guarded run;
* `Reach.simulate`: a view of a run that is a run of another system;
* `replay`: the run of a list of labels of a functional step; a replayed run is a run
  (`reach_of_replay`), and one of guarded steps is a guarded run (`reach_of_guarded`);
* `replay_guarded_or`: a replayed run meets the guard, or has a first step that does not.
-/
import Mathlib.Tactic

namespace Kit

/-- A labelled transition system on states `σ` with labels `ι`. -/
structure Machine (σ ι : Type) where
  init : σ → Prop
  step : σ → ι → σ → Prop

namespace Machine

variable {σ ι : Type} {M : Machine σ ι} {G G' : σ → ι → Prop}

/-- The states of the runs of `M` all of whose steps meet the guard `G`. -/
inductive Reach (M : Machine σ ι) (G : σ → ι → Prop) : σ → Prop where
  | init {s : σ} : M.init s → Reach M G s
  | step {s s' : σ} {a : ι} : Reach M G s → G s a → M.step s a s' → Reach M G s'

/-- The reachable states: no guard on the steps. -/
def Reachable (M : Machine σ ι) (s : σ) : Prop := M.Reach (fun _ _ => True) s

/-- **The invariant rule**: a predicate that holds initially and is kept by
every guarded step holds in every state of a guarded run. -/
theorem Reach.inv {I : σ → Prop} (h0 : ∀ s, M.init s → I s)
    (hstep : ∀ s a s', I s → G s a → M.step s a s' → I s') {s : σ} (h : M.Reach G s) :
    I s := by
  induction h with
  | init hs => exact h0 _ hs
  | step _ hg hs ih => exact hstep _ _ _ ih hg hs

/-- The invariant rule for runs without a guard. -/
lemma Reachable.inv {I : σ → Prop} (h0 : ∀ s, M.init s → I s)
    (hstep : ∀ s a s', I s → M.step s a s' → I s') {s : σ} (h : M.Reachable s) : I s :=
  Reach.inv h0 (fun s a s' hs _ => hstep s a s' hs) h

/-- A run that meets a guard meets every weaker one. -/
lemma Reach.mono (hG : ∀ s a, G s a → G' s a) {s : σ} (h : M.Reach G s) : M.Reach G' s := by
  induction h with
  | init hs => exact .init hs
  | step _ hg hs ih => exact .step ih (hG _ _ hg) hs

/-- What holds in every state of a guarded run may be used as a guard. -/
lemma Reach.with {J : σ → Prop} (hJ : ∀ s, M.Reach G s → J s) {s : σ} (h : M.Reach G s) :
    M.Reach (fun s a => G s a ∧ J s) s := by
  induction h with
  | init hs => exact .init hs
  | step hr hg hs ih => exact .step ih ⟨hg, hJ _ hr⟩ hs

/-- **Simulation**: a view of the states that is initial at first, and that each step leaves as it
is or takes a guarded step with, follows a guarded run. -/
theorem Reach.simulate {τ κ : Type} {N : Machine τ κ} {H : τ → κ → Prop} (f : σ → τ)
    (h0 : ∀ s, M.init s → N.init (f s))
    (hstep : ∀ s a s', M.Reach G s → N.Reach H (f s) → G s a → M.step s a s' →
      f s' = f s ∨ ∃ b, H (f s) b ∧ N.step (f s) b (f s')) {s : σ} (h : M.Reach G s) :
    N.Reach H (f s) := by
  induction h with
  | init hs => exact .init (h0 _ hs)
  | @step s s' a hr hg hs ih =>
      rcases hstep s a s' hr ih hg hs with heq | ⟨b, hb, hb'⟩
      · rw [heq]
        exact ih
      · exact .step ih hb hb'

/-- The run of a list of labels, for a step given as a partial function. -/
def replay (f : σ → ι → Option σ) : σ → List ι → Option σ
  | s, [] => some s
  | s, a :: as => (f s a).bind fun s' => replay f s' as

@[simp] lemma replay_nil (f : σ → ι → Option σ) (s : σ) : replay f s [] = some s := rfl

lemma replay_cons (f : σ → ι → Option σ) (s : σ) (a : ι) (as : List ι) :
    replay f s (a :: as) = (f s a).bind fun s' => replay f s' as := rfl

/-- A replayed run is a run when each of its steps is one and meets the guard. -/
lemma reach_of_steps {f : σ → ι → Option σ} :
    ∀ (as : List ι) {s s' : σ}, (∀ a ∈ as, ∀ s s', f s a = some s' → G s a ∧ M.step s a s') →
      M.Reach G s → replay f s as = some s' → M.Reach G s' := by
  intro as
  induction as with
  | nil =>
      intro s s' _ hs h
      rw [replay_nil, Option.some.injEq] at h
      exact h ▸ hs
  | cons a as ih =>
      intro s s' hf hs h
      rw [replay_cons, Option.bind_eq_some_iff] at h
      obtain ⟨s₁, h1, h2⟩ := h
      obtain ⟨hG, hstep⟩ := hf a (.head as) _ _ h1
      exact ih (fun b hb => hf b (.tail a hb)) (.step hs hG hstep) h2

/-- A replayed run, all of whose labels meet the guard, is a run. -/
lemma reach_of_replay {f : σ → ι → Option σ} (hf : ∀ s a s', f s a = some s' → M.step s a s')
    (as : List ι) {s s' : σ} (hG : ∀ a ∈ as, ∀ s, G s a) (hs : M.Reach G s)
    (h : replay f s as = some s') : M.Reach G s' :=
  reach_of_steps as (fun a ha s₁ s₂ h₁ => ⟨hG a ha s₁, hf s₁ a s₂ h₁⟩) hs h

/-- A step that is taken only if the guard holds. -/
def guarded (G : σ → ι → Prop) [∀ s a, Decidable (G s a)] (f : σ → ι → Option σ) (s : σ) (a : ι) :
    Option σ :=
  if G s a then f s a else none

variable {f : σ → ι → Option σ}

/-- A step that is taken with its guard is a step. -/
lemma guarded_eq_some [∀ s a, Decidable (G s a)] {s s' : σ} {a : ι} :
    guarded G f s a = some s' ↔ G s a ∧ f s a = some s' := by
  unfold guarded
  split_ifs with hG
  · exact ⟨fun h => ⟨hG, h⟩, And.right⟩
  · exact ⟨nofun, fun h => absurd h.1 hG⟩

/-- A replayed run of guarded steps is a guarded run. -/
lemma reach_of_guarded [∀ s a, Decidable (G s a)]
    (hf : ∀ s a s', f s a = some s' → M.step s a s') (as : List ι) {s s' : σ} (hs : M.Reach G s)
    (h : replay (guarded G f) s as = some s') : M.Reach G s' := by
  refine reach_of_steps as (fun a _ s₁ s₂ h₁ => ?_) hs h
  obtain ⟨hG, hstep⟩ := guarded_eq_some.mp h₁
  exact ⟨hG, hf s₁ a s₂ hstep⟩

/-- What every step keeps holds after a replayed run. -/
lemma replay_inv {I : σ → Prop} (hf : ∀ s a s', I s → f s a = some s' → I s') :
    ∀ (as : List ι) {s s' : σ}, I s → replay f s as = some s' → I s' := by
  intro as
  induction as with
  | nil =>
      intro s s' hs h
      rw [replay_nil, Option.some.injEq] at h
      exact h ▸ hs
  | cons a as ih =>
      intro s s' hs h
      rw [replay_cons, Option.bind_eq_some_iff] at h
      obtain ⟨s₁, h1, h2⟩ := h
      exact ih (hf _ _ _ hs h1) h2

/-- A replayed run meets the guard at every step, or it has a first step that does not. -/
lemma replay_guarded_or [∀ s a, Decidable (G s a)] :
    ∀ (as : List ι) {s s' : σ}, replay f s as = some s' →
      replay (guarded G f) s as = some s' ∨ ∃ l a l' s₁ s₂, as = l ++ a :: l' ∧
        replay (guarded G f) s l = some s₁ ∧ ¬ G s₁ a ∧ f s₁ a = some s₂ ∧
        replay f s₂ l' = some s' := by
  intro as
  induction as with
  | nil => exact fun h => .inl h
  | cons a as ih =>
      intro s s' h
      rw [replay_cons, Option.bind_eq_some_iff] at h
      obtain ⟨s₁, h1, h2⟩ := h
      by_cases hG : G s a
      · have hstep : guarded G f s a = some s₁ := guarded_eq_some.mpr ⟨hG, h1⟩
        rcases ih h2 with hall | ⟨l, b, l', s₂, s₃, rfl, hl, hb⟩
        · left
          rw [replay_cons, hstep]
          exact hall
        · right
          refine ⟨a :: l, b, l', s₂, s₃, rfl, ?_, hb⟩
          rw [replay_cons, hstep]
          exact hl
      · exact .inr ⟨[], a, as, s, s₁, rfl, rfl, hG, h1, h2⟩

end Machine

end Kit
