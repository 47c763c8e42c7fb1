/-
Commands over a state that may fault, and their weakest preconditions.

* `Cmd`: a command runs from a state and either returns a value or faults; the
  state it leaves is kept in both cases;
* `wp`: the weakest precondition of a command for a postcondition on returned
  values and one on faults, with a rule for each way of building a command
  (`wp_pure`, `wp_bind`, `wp_ite`, `wp_fault`, …) and consequence (`wp_mono`);
  `wlp` asks nothing of faults;
* `upTo`: counted loops, and their invariant rule (`wp_upTo`);
* `Keeps`: a command that leaves a part of the state alone, with a rule for each
  way of building one; `Conserves`: one that leaves it alone when it faults, too;
  `Preserves`: a command that keeps an invariant when it returns.
-/
import Mathlib.Tactic

namespace Kit

/-- A command on states `σ`: it returns a value of `α` or faults with `ε`, and
leaves a state. -/
def Cmd (ε σ α : Type) : Type := σ → Except ε α × σ

namespace Cmd

variable {ε σ α β : Type}

/-- Returning a value changes nothing. -/
def ret (a : α) : Cmd ε σ α := fun s => (.ok a, s)

/-- Sequencing: a fault of the first command ends the whole. -/
def seq (c : Cmd ε σ α) (k : α → Cmd ε σ β) : Cmd ε σ β := fun s =>
  match c s with
  | (.ok a, s') => k a s'
  | (.error e, s') => (.error e, s')

instance : Monad (Cmd ε σ) where
  pure := ret
  bind := seq

/-- Stop with a fault. -/
def fault (e : ε) : Cmd ε σ α := fun s => (.error e, s)

/-- Read the state. -/
def get : Cmd ε σ σ := fun s => (.ok s, s)

/-- Change the state. -/
def modify (f : σ → σ) : Cmd ε σ Unit := fun s => (.ok (), f s)

/-- Read a part of the state. -/
def gets (f : σ → α) : Cmd ε σ α := fun s => (.ok (f s), s)

/-- Stop with a fault unless a condition holds. -/
def require (p : Prop) [Decidable p] (e : ε) : Cmd ε σ Unit :=
  if p then ret () else fault e

/-- The loop `for (i = 0; i < n; i++) body i`. -/
def upTo : ℕ → (ℕ → Cmd ε σ Unit) → Cmd ε σ Unit
  | 0, _ => pure ()
  | n + 1, body => do upTo n body; body n

/-! ### Weakest preconditions -/

/-- The weakest precondition: from `s` the command returns a value and a state
in `Q`, or faults with a fault and a state in `E`. -/
def wp (c : Cmd ε σ α) (Q : α → σ → Prop) (E : ε → σ → Prop) (s : σ) : Prop :=
  match c s with
  | (.ok a, s') => Q a s'
  | (.error e, s') => E e s'

variable {Q Q' : α → σ → Prop} {E E' : ε → σ → Prop} {s : σ}

@[simp] lemma wp_pure (a : α) : wp (pure a : Cmd ε σ α) Q E s ↔ Q a s := Iff.rfl

@[simp] lemma wp_bind (c : Cmd ε σ β) (k : β → Cmd ε σ α) :
    wp (c >>= k) Q E s ↔ wp c (fun b s' => wp (k b) Q E s') E s := by
  change wp (seq c k) Q E s ↔ _
  unfold wp seq
  rcases c s with ⟨_ | _, _⟩ <;> rfl

@[simp] lemma wp_fault (e : ε) : wp (fault e : Cmd ε σ α) Q E s ↔ E e s := Iff.rfl

@[simp] lemma wp_get {Q : σ → σ → Prop} : wp (get : Cmd ε σ σ) Q E s ↔ Q s s := Iff.rfl

@[simp] lemma wp_gets (f : σ → α) : wp (gets f : Cmd ε σ α) Q E s ↔ Q (f s) s := Iff.rfl

@[simp] lemma wp_modify (f : σ → σ) {Q : Unit → σ → Prop} :
    wp (modify f : Cmd ε σ Unit) Q E s ↔ Q () (f s) := Iff.rfl

lemma wp_ite (p : Prop) [Decidable p] (c d : Cmd ε σ α) :
    wp (if p then c else d) Q E s ↔ (p → wp c Q E s) ∧ (¬ p → wp d Q E s) := by
  split_ifs with h <;> simp [h]

@[simp] lemma wp_require (p : Prop) [Decidable p] (e : ε) {Q : Unit → σ → Prop} :
    wp (require p e : Cmd ε σ Unit) Q E s ↔ (p → Q () s) ∧ (¬ p → E e s) := by
  rw [require, wp_ite]
  rfl

/-- Consequence: a weakest precondition is monotone in its postconditions. -/
lemma wp_mono {c : Cmd ε σ α} (h : wp c Q E s) (hQ : ∀ a s', Q a s' → Q' a s')
    (hE : ∀ e s', E e s' → E' e s') : wp c Q' E' s := by
  unfold wp at *
  rcases hc : c s with ⟨_ | _, _⟩ <;> simp only [hc] at h ⊢
  · exact hE _ _ h
  · exact hQ _ _ h

/-- Consequence for the values alone. -/
lemma wp_imp {c : Cmd ε σ α} (h : wp c Q E s) (hQ : ∀ a s', Q a s' → Q' a s') :
    wp c Q' E s :=
  wp_mono h hQ fun _ _ he => he

/-- A command about which nothing is known. -/
lemma wp_any (c : Cmd ε σ α) (hQ : ∀ a s', Q a s') (hE : ∀ e s', E e s') : wp c Q E s := by
  unfold wp
  rcases c s with ⟨_ | _, _⟩
  · exact hE _ _
  · exact hQ _ _

/-- A postcondition that a known one decides. -/
lemma wp_iff {c : Cmd ε σ α} {C : Prop} (h : wp c Q E s) (hQ : ∀ a s', Q a s' → (Q' a s' ↔ C))
    (hE : ∀ e s', E e s' → (E' e s' ↔ C)) : wp c Q' E' s ↔ C := by
  unfold wp at *
  rcases hc : c s with ⟨_ | _, _⟩ <;> simp only [hc] at h ⊢
  · exact hE _ _ h
  · exact hQ _ _ h

/-- Two postconditions hold together, on values and on faults. -/
lemma wp_both {c : Cmd ε σ α} (h : wp c Q E s) (h' : wp c Q' E' s) :
    wp c (fun a s' => Q a s' ∧ Q' a s') (fun e s' => E e s' ∧ E' e s') s := by
  unfold wp at *
  rcases hc : c s with ⟨_ | _, _⟩ <;> simp only [hc] at h h' ⊢
  · exact ⟨h, h'⟩
  · exact ⟨h, h'⟩

/-- Two postconditions hold together. -/
lemma wp_and {c : Cmd ε σ α} (h : wp c Q E s) (h' : wp c Q' E s) :
    wp c (fun a s' => Q a s' ∧ Q' a s') E s :=
  wp_mono (wp_both h h') (fun _ _ hq => hq) fun _ _ he => he.1

/-- A command whose faults are excluded returns. -/
lemma wp_returns {c : Cmd ε σ α} (h : wp c Q (fun _ _ => False) s) :
    ∃ a s', c s = (.ok a, s') ∧ Q a s' := by
  unfold wp at h
  rcases hc : c s with ⟨_ | a, s'⟩ <;> simp only [hc] at h
  exact ⟨a, s', rfl, h⟩

/-- What a returning run satisfies. -/
lemma wp_ok {c : Cmd ε σ α} {a : α} {s' : σ} (h : wp c Q E s) (hc : c s = (.ok a, s')) :
    Q a s' := by
  unfold wp at h
  simpa only [hc] using h

/-- A command goes on from where the first one returns. -/
lemma run_bind {c : Cmd ε σ β} {k : β → Cmd ε σ α} {b : β} {s' : σ} (hc : c s = (.ok b, s')) :
    (c >>= k) s = k b s' := by
  change seq c k s = k b s'
  rw [seq, hc]

/-- A returning run, as an equation. -/
lemma wp_run (c : Cmd ε σ α) (s : σ) :
    wp c (fun a s' => c s = (.ok a, s')) (fun _ _ => True) s := by
  unfold wp
  rcases hc : c s with ⟨_ | _, _⟩
  · trivial
  · rfl

/-- A run that answers, as an equation. -/
lemma run_of_toOption {c : Cmd ε σ α} {a : α} (h : (c s).1.toOption = some a) :
    ∃ s', c s = (.ok a, s') := by
  rcases hc : c s with ⟨e | b, s'⟩ <;> rw [hc] at h
  · exact absurd h (Option.some_ne_none a).symm
  · exact ⟨s', congrArg (fun b => ((.ok b : Except ε α), s')) (Option.some.inj h)⟩

/-- The state a returning run leaves is the one the command computes. -/
lemma wp_snd (c : Cmd ε σ α) (s : σ) : wp c (fun _ s' => (c s).2 = s') (fun _ _ => True) s := by
  unfold wp
  rcases c s with ⟨_ | _, _⟩
  · trivial
  · rfl

/-- The weakest liberal precondition: if the command returns, it does so in `Q`. -/
abbrev wlp (c : Cmd ε σ α) (Q : α → σ → Prop) (s : σ) : Prop := wp c Q (fun _ _ => True) s

/-- Every postcondition on values is a liberal one. -/
lemma wlp_of_wp {c : Cmd ε σ α} (h : wp c Q E s) : wlp c Q s :=
  wp_mono h (fun _ _ hq => hq) fun _ _ _ => trivial

/-! ### Loops -/

/-- **The invariant rule of a counted loop.** -/
theorem wp_upTo (body : ℕ → Cmd ε σ Unit) (I : ℕ → σ → Prop) (n : ℕ)
    (h0 : I 0 s) (hstep : ∀ i s', i < n → I i s' → wp (body i) (fun _ => I (i + 1)) E s') :
    wp (upTo n body) (fun _ => I n) E s := by
  induction n with
  | zero => exact h0
  | succ n ih =>
      rw [upTo, wp_bind]
      refine wp_imp (ih fun i s' hi => hstep i s' (by omega)) fun _ s' hs' => ?_
      exact hstep n s' (by omega) hs'

-- a loop is reasoned about by its rules, never by running it
attribute [irreducible] upTo

/-! ### What a command leaves alone -/

/-- The command keeps the part `π` of the state, and faults only in `F`. -/
def Keeps {ρ : Type} (π : σ → ρ) (F : ε → Prop) (c : Cmd ε σ α) : Prop :=
  ∀ s, wp c (fun _ s' => π s' = π s) (fun e _ => F e) s

namespace Keeps

variable {ρ : Type} {π : σ → ρ} {F : ε → Prop}

lemma pure (a : α) : Keeps π F (Pure.pure a : Cmd ε σ α) := fun _ => rfl

lemma gets (f : σ → α) : Keeps π F (Cmd.gets f) := fun _ => rfl

lemma fault {e : ε} (h : F e) : Keeps π F (Cmd.fault e : Cmd ε σ α) := fun _ => h

lemma modify {f : σ → σ} (h : ∀ s, π (f s) = π s) : Keeps π F (Cmd.modify f) := h

lemma bind {c : Cmd ε σ β} {k : β → Cmd ε σ α} (hc : Keeps π F c) (hk : ∀ b, Keeps π F (k b)) :
    Keeps π F (c >>= k) := by
  intro s
  rw [wp_bind]
  exact wp_imp (hc s) fun b s' hs' => wp_imp (hk b s') fun _ s'' hs'' => hs''.trans hs'

lemma ite {p : Prop} [Decidable p] {c d : Cmd ε σ α} (hc : Keeps π F c) (hd : Keeps π F d) :
    Keeps π F (if p then c else d) := by
  split_ifs
  · exact hc
  · exact hd

lemma upTo {body : ℕ → Cmd ε σ Unit} (h : ∀ i, Keeps π F (body i)) (n : ℕ) :
    Keeps π F (Cmd.upTo n body) := fun s =>
  wp_upTo body (fun _ s' => π s' = π s) n rfl fun i s' _ hs' =>
    wp_imp (h i s') fun _ _ hs'' => hs''.trans hs'

end Keeps

/-- The command leaves the part `π` of the state alone, whether it returns or faults. -/
def Conserves {ρ : Type} (π : σ → ρ) (c : Cmd ε σ α) : Prop := ∀ s, π (c s).2 = π s

namespace Conserves

variable {ρ : Type} {π : σ → ρ}

lemma pure (a : α) : Conserves π (Pure.pure a : Cmd ε σ α) := fun _ => rfl

lemma gets (f : σ → α) : Conserves π (Cmd.gets f : Cmd ε σ α) := fun _ => rfl

lemma get : Conserves π (Cmd.get : Cmd ε σ σ) := fun _ => rfl

lemma fault (e : ε) : Conserves π (Cmd.fault e : Cmd ε σ α) := fun _ => rfl

lemma modify {f : σ → σ} (h : ∀ s, π (f s) = π s) : Conserves π (Cmd.modify f : Cmd ε σ Unit) := h

lemma bind {c : Cmd ε σ β} {k : β → Cmd ε σ α} (hc : Conserves π c) (hk : ∀ b, Conserves π (k b)) :
    Conserves π (c >>= k) := by
  intro s
  have hs := hc s
  change π (seq c k s).2 = π s
  unfold seq
  rcases h : c s with ⟨_ | b, s'⟩ <;> rw [h] at hs
  · exact hs
  · exact (hk b s').trans hs

lemma ite {p : Prop} [Decidable p] {c d : Cmd ε σ α} (hc : Conserves π c) (hd : Conserves π d) :
    Conserves π (if p then c else d) := by
  split_ifs
  · exact hc
  · exact hd

/-- The part of the state in every postcondition. -/
lemma both {c : Cmd ε σ α} (h : Conserves π c) (s : σ) :
    wp c (fun _ s' => π s' = π s) (fun _ s' => π s' = π s) s := by
  have hs := h s
  unfold wp
  rcases hc : c s with ⟨_ | _, _⟩ <;> rw [hc] at hs <;> exact hs

end Conserves

/-- The command keeps the invariant when it returns. -/
def Preserves (I : σ → Prop) (c : Cmd ε σ α) : Prop := ∀ s, I s → wlp c (fun _ s' => I s') s

namespace Preserves

variable {I : σ → Prop}

lemma pure (a : α) : Preserves I (Pure.pure a : Cmd ε σ α) := fun _ h => h

lemma gets (f : σ → α) : Preserves I (Cmd.gets f : Cmd ε σ α) := fun _ h => h

lemma fault (e : ε) : Preserves I (Cmd.fault e : Cmd ε σ α) := fun _ _ => trivial

lemma modify {f : σ → σ} (h : ∀ s, I s → I (f s)) : Preserves I (Cmd.modify f : Cmd ε σ Unit) := h

lemma bind {c : Cmd ε σ β} {k : β → Cmd ε σ α} (hc : Preserves I c)
    (hk : ∀ b, Preserves I (k b)) : Preserves I (c >>= k) := by
  intro s hs
  rw [wlp, wp_bind]
  exact wp_imp (hc s hs) fun b s' hs' => hk b s' hs'

lemma ite {p : Prop} [Decidable p] {c d : Cmd ε σ α} (hc : Preserves I c) (hd : Preserves I d) :
    Preserves I (if p then c else d) := by
  split_ifs
  · exact hc
  · exact hd

/-- Two invariants are kept together. -/
lemma and {J : σ → Prop} {c : Cmd ε σ α} (hI : Preserves I c) (hJ : Preserves J c) :
    Preserves (fun s => I s ∧ J s) c := fun s h => wp_and (hI s h.1) (hJ s h.2)

lemma upTo {body : ℕ → Cmd ε σ Unit} (n : ℕ) (h : ∀ i < n, Preserves I (body i)) :
    Preserves I (Cmd.upTo n body) := fun _ hs =>
  wp_upTo body (fun _ => I) n hs fun i s' hi hs' => h i hi s' hs'

end Preserves

end Cmd

end Kit
