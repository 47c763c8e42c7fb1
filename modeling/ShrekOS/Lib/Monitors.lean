/-
Data that threads use under a lock, where neither the lock nor the sections are atomic.

* `Lock`: a lock that is taken and given back step by step, with its invariant;
* `Client`: the steps of the threads on the data, and where they call the lock;
* `monitor`: the threads of both, in any order of their steps;
* `Monitored`: what holds of the data while no thread is in a section, what a thread in a
  section knows, and what every thread knows;
* `monitored_of_reachable`: **the rule**: a section that establishes what it found keeps it, while
  the others take steps of their own.
-/
import ShrekOS.Lib.Threads

namespace Kit

/-- A lock: its steps, the places before and after it is taken, and its invariant, over the thread
that has it. -/
structure Lock (σ π ι : Type) where
  init : σ → Prop
  step : σ → ℕ → π → ι → Option (σ × π)
  out : π
  inside : π
  Between : π → Prop
  Inv : σ → Option ℕ → Prop
  Assert : σ → Option ℕ → ℕ → π → Prop
  between_inside : Between inside
  inv_init : ∀ s, init s → ∃ h, Inv s h ∧ ∀ t, Assert s h t out
  between : ∀ s h t p, Assert s h t p → (h = some t ↔ Between p)
  kept : ∀ s h (pc : ℕ → π) t a s' p', Inv s h → (∀ u, Assert s h u (pc u)) →
    step s t (pc t) a = some (s', p') →
    ∃ h', Inv s' h' ∧ Assert s' h' t p' ∧ ∀ u, u ≠ t → Assert s' h' u (pc u)

/-- The two calls of a lock. -/
inductive LockCall where
  | acquire
  | release

/-- Threads that use a lock: their steps on the data, the places where they are in a call of the
lock, the places after these, and those of a section. -/
structure Client (δ κ α : Type) where
  start : κ
  step : δ → ℕ → κ → α → Option (δ × κ)
  call : κ → Option LockCall
  next : κ → κ
  Holds : κ → Prop
  holds_start : ¬ Holds start
  holds_call : ∀ k, Holds k → call k = none
  holds_release : ∀ k, call k = some .release → ¬ Holds (next k)
  holds_step : ∀ d t k a d' k', step d t k a = some (d', k') → Holds k' → Holds k

variable {σ π ι δ κ α γ : Type}

/-- The place of a lock where a call of it ends. -/
def Lock.target (L : Lock σ π ι) : LockCall → π
  | .acquire => L.inside
  | .release => L.out

section

variable [DecidableEq π]

/-- A thread is at a place of the lock and at one of the client; it takes a step of the lock if it
is in a call, and of the client otherwise. -/
def monitorStep (L : Lock σ π ι) (C : Client δ κ α) (s : σ × δ) (t : ℕ) (p : π × κ) :
    ι ⊕ α → Option ((σ × δ) × (π × κ))
  | .inl i =>
      match C.call p.2 with
      | none => none
      | some c => (L.step s.1 t p.1 i).map fun r =>
          ((r.1, s.2), (r.2, if r.2 = L.target c then C.next p.2 else p.2))
  | .inr a =>
      match C.call p.2 with
      | none => (C.step s.2 t p.2 a).map fun r => ((s.1, r.1), (p.1, r.2))
      | some _ => none

/-- The threads of a monitor. -/
def monitor (L : Lock σ π ι) (C : Client δ κ α) (init : δ → Prop) :
    Threads (σ × δ) (π × κ) (ι ⊕ α) where
  init s := L.init s.1.1 ∧ init s.1.2 ∧ s.2 = fun _ => (L.out, C.start)
  step := monitorStep L C

end

/-- What the data is like: `R` while no thread is in a section, `P` for a thread that is in one,
and `Q` for every thread. -/
structure Assertions (δ κ γ : Type) where
  R : δ → γ → Prop
  P : δ → γ → ℕ → κ → Prop
  Q : δ → γ → ℕ → κ → Prop

/-- The assertions hold. -/
structure Monitored (C : Client δ κ α) (A : Assertions δ κ γ) (d : δ) (pc : ℕ → κ) (g : γ) :
    Prop where
  inside : ∀ t, C.Holds (pc t) → A.P d g t (pc t)
  free : (∀ t, ¬ C.Holds (pc t)) → A.R d g
  every : ∀ t, A.Q d g t (pc t)

/-- The obligations of a client: at the calls, and for each of its steps. -/
structure Obeys (C : Client δ κ α) (A : Assertions δ κ γ) : Prop where
  acquire : ∀ d g t k, C.call k = some .acquire → A.R d g → A.Q d g t k →
    (C.Holds (C.next k) → A.P d g t (C.next k)) ∧ A.Q d g t (C.next k)
  release : ∀ d g t k, C.call k = some .release → A.Q d g t k → A.Q d g t (C.next k)
  /-- a step in a section, with what the thread knows there -/
  within : ∀ d g (pc : ℕ → κ) t a d' k', (∀ u, A.Q d g u (pc u)) → C.Holds (pc t) →
    A.P d g t (pc t) → C.step d t (pc t) a = some (d', k') →
    ∃ g', (C.Holds k' → A.P d' g' t k') ∧ (¬ C.Holds k' → A.R d' g') ∧
      A.Q d' g' t k' ∧ ∀ u, u ≠ t → A.Q d' g' u (pc u)
  /-- a step outside of the sections, at any time -/
  outside : ∀ d g (pc : ℕ → κ) t a d' k', (∀ u, A.Q d g u (pc u)) → ¬ C.Holds (pc t) →
    C.step d t (pc t) a = some (d', k') →
    ∃ g', (A.R d g → A.R d' g') ∧ (∀ u, u ≠ t → A.P d g u (pc u) → A.P d' g' u (pc u)) ∧
      A.Q d' g' t k' ∧ ∀ u, u ≠ t → A.Q d' g' u (pc u)

variable {L : Lock σ π ι} {C : Client δ κ α} {A : Assertions δ κ γ} {d d' : δ} {g : γ} {t : ℕ}
  {pc : ℕ → κ} {k' : κ}

/-- The other places after one thread has moved. -/
lemma forall_update {β : Type} {Q : ℕ → β → Prop} {f : ℕ → β} {b : β} (hown : Q t b)
    (hother : ∀ u, u ≠ t → Q u (f u)) (u : ℕ) : Q u (Function.update f t b u) := by
  by_cases hu : u = t
  · subst hu
    rw [Function.update_self]
    exact hown
  · rw [Function.update_of_ne hu]
    exact hother u hu

/-- A step of a thread that is in no section. -/
lemma Monitored.outside (h : Monitored C A d pc g) (hobeys : Obeys C A) {a : α}
    (ht : ¬ C.Holds (pc t)) (hs : C.step d t (pc t) a = some (d', k')) :
    ∃ g', Monitored C A d' (Function.update pc t k') g' := by
  have hk' : ¬ C.Holds k' := fun hholds => ht (C.holds_step d t (pc t) a d' k' hs hholds)
  obtain ⟨g', hR, hP, hown, hother⟩ := hobeys.outside d g pc t a d' k' h.every ht hs
  refine ⟨g', forall_update (Q := fun u k => C.Holds k → A.P d' g' u k)
    (fun hholds => absurd hholds hk') fun u hu hholds => ?_, fun hfree => ?_,
    forall_update hown hother⟩
  · exact hP u hu (h.inside u hholds)
  · refine hR (h.free fun u hholds => ?_)
    by_cases hu : u = t
    · exact ht (hu ▸ hholds)
    · have hnot := hfree u
      rw [Function.update_of_ne hu] at hnot
      exact hnot hholds

/-- A step of the thread that is in a section. -/
lemma Monitored.within (h : Monitored C A d pc g) (hobeys : Obeys C A) {a : α}
    (ht : C.Holds (pc t)) (honly : ∀ u, C.Holds (pc u) → u = t)
    (hs : C.step d t (pc t) a = some (d', k')) :
    ∃ g', Monitored C A d' (Function.update pc t k') g' := by
  obtain ⟨g', hP, hR, hown, hother⟩ :=
    hobeys.within d g pc t a d' k' h.every ht (h.inside t ht) hs
  refine ⟨g', forall_update (Q := fun u k => C.Holds k → A.P d' g' u k) hP
    fun u hu hholds => absurd (honly u hholds) hu, fun hfree => ?_, forall_update hown hother⟩
  have hnot := hfree t
  rw [Function.update_self] at hnot
  exact hR hnot

/-- A thread comes out of a call of the lock; it is the only one that can be in a section after
it has taken the lock. -/
lemma Monitored.call (h : Monitored C A d pc g) (hobeys : Obeys C A) {c : LockCall}
    (hc : C.call (pc t) = some c) (honly : c = .acquire → ∀ u, u ≠ t → ¬ C.Holds (pc u)) :
    Monitored C A d (Function.update pc t (C.next (pc t))) g := by
  have ht : ¬ C.Holds (pc t) := fun hholds => by
    rw [C.holds_call _ hholds] at hc
    cases hc
  have hfree : (∀ u, ¬ C.Holds (Function.update pc t (C.next (pc t)) u)) → A.R d g := by
    refine fun hnone => h.free fun u hholds => ?_
    by_cases hu : u = t
    · exact ht (hu ▸ hholds)
    · have hnot := hnone u
      rw [Function.update_of_ne hu] at hnot
      exact hnot hholds
  cases c with
  | acquire =>
      have hR : A.R d g := h.free fun u hholds => by
        by_cases hu : u = t
        · exact ht (hu ▸ hholds)
        · exact honly rfl u hu hholds
      obtain ⟨hP, hQ⟩ := hobeys.acquire d g t (pc t) hc hR (h.every t)
      exact ⟨forall_update (Q := fun u k => C.Holds k → A.P d g u k) hP
        fun u hu hholds => absurd hholds (honly rfl u hu), hfree,
        forall_update hQ fun u _ => h.every u⟩
  | release =>
      have hout := C.holds_release _ hc
      exact ⟨forall_update (Q := fun u k => C.Holds k → A.P d g u k)
        (fun hholds => absurd hholds hout) fun u _ => h.inside u, hfree,
        forall_update (hobeys.release d g t (pc t) hc (h.every t)) fun u _ => h.every u⟩

/-! ### The rule -/

/-- **The invariant of a monitor**: that of the lock, the threads in a section have it, and the
assertions. -/
structure MonitorInv (L : Lock σ π ι) (C : Client δ κ α) (A : Assertions δ κ γ)
    (s : (σ × δ) × (ℕ → π × κ)) : Prop where
  lock : ∃ h, L.Inv s.1.1 h ∧ ∀ t, L.Assert s.1.1 h t (s.2 t).1
  inside : ∀ t, C.Holds (s.2 t).2 → (s.2 t).1 = L.inside
  monitored : ∃ g, Monitored C A s.1.2 (fun t => (s.2 t).2) g

/-- **Mutual exclusion** of the sections. -/
lemma MonitorInv.exclusive {s : (σ × δ) × (ℕ → π × κ)} (h : MonitorInv L C A s) {u : ℕ}
    (ht : L.Between (s.2 t).1) (hu : C.Holds (s.2 u).2) : u = t := by
  obtain ⟨o, -, hassert⟩ := h.lock
  have hholder := (L.between _ _ _ _ (hassert t)).mpr ht
  have hinside : L.Between (s.2 u).1 := by
    rw [h.inside u hu]
    exact L.between_inside
  have hother := (L.between _ _ _ _ (hassert u)).mpr hinside
  exact Option.some.inj (hother.symm.trans hholder)

/-- The places of the client after a thread has moved. -/
lemma update_snd {pk : ℕ → π × κ} {p : π} {k : κ} :
    (fun u => (Function.update pk t (p, k) u).2) = Function.update (fun u => (pk u).2) t k := by
  funext u
  by_cases hu : u = t
  · subst hu
    rw [Function.update_self, Function.update_self]
  · rw [Function.update_of_ne hu, Function.update_of_ne hu]

variable [DecidableEq π]

/-- A step of the lock. -/
lemma MonitorInv.lock_step {s s₁ : σ} {d₁ : δ} {pk : ℕ → π × κ} {p₁ : π} {k₁ : κ} {i : ι}
    (hinv : MonitorInv L C A ((s, d), pk)) (hobeys : Obeys C A)
    (hs : monitorStep L C (s, d) t (pk t) (.inl i) = some ((s₁, d₁), (p₁, k₁))) :
    MonitorInv L C A ((s₁, d₁), Function.update pk t (p₁, k₁)) := by
  obtain ⟨⟨o, hlock, hassert⟩, hinside, g, hmon⟩ := hinv
  simp only [monitorStep] at hs
  split at hs
  · cases hs
  next c hc =>
    rw [Option.map_eq_some_iff] at hs
    obtain ⟨⟨s', p'⟩, hstep, heq⟩ := hs
    obtain ⟨⟨rfl, rfl⟩, rfl, rfl⟩ : (s' = s₁ ∧ d = d₁) ∧ p' = p₁ ∧
        (if p' = L.target c then C.next (pk t).2 else (pk t).2) = k₁ := by
      simpa only [Prod.mk.injEq] using heq
    have ht : ¬ C.Holds (pk t).2 := fun hholds => by
      rw [C.holds_call _ hholds] at hc
      cases hc
    obtain ⟨o', hlock', hown, hother⟩ :=
      L.kept s o (fun u => (pk u).1) t i s' p' hlock hassert hstep
    have hassert' : ∀ u, L.Assert s' o' u (Function.update pk t (p', (if p' = L.target c then
        C.next (pk t).2 else (pk t).2)) u).1 :=
      forall_update (Q := fun u (x : π × κ) => L.Assert s' o' u x.1) hown hother
    have hlocked : ∃ h, L.Inv s' h ∧ ∀ u, L.Assert s' h u (Function.update pk t (p',
        (if p' = L.target c then C.next (pk t).2 else (pk t).2)) u).1 := ⟨o', hlock', hassert'⟩
    by_cases htarget : p' = L.target c
    · rw [if_pos htarget] at hlocked ⊢
      refine ⟨hlocked, forall_update (Q := fun u (x : π × κ) => C.Holds x.2 → x.1 = L.inside) ?_
        fun u _ => hinside u, g, ?_⟩
      · intro hholds
        cases c with
        | acquire => exact htarget
        | release => exact absurd hholds (C.holds_release _ hc)
      · rw [update_snd]
        refine hmon.call hobeys hc fun hacq u hu hholds => hu ?_
        -- the thread has the lock, and so does one in a section
        subst hacq
        have hholder : o' = some t := by
          refine (L.between _ _ _ _ hown).mpr ?_
          rw [htarget]
          exact L.between_inside
        have hother' : o' = some u := by
          refine (L.between _ _ _ _ (hother u hu)).mpr ?_
          rw [hinside u hholds]
          exact L.between_inside
        exact Option.some.inj (hother'.symm.trans hholder)
    · rw [if_neg htarget] at hlocked ⊢
      refine ⟨hlocked, forall_update (Q := fun u (x : π × κ) => C.Holds x.2 → x.1 = L.inside)
        (fun hholds => absurd hholds ht) fun u _ => hinside u, g, ?_⟩
      have hsame : Function.update (fun u => (pk u).2) t (pk t).2 = fun u => (pk u).2 :=
        Function.update_eq_self t fun u => (pk u).2
      rw [update_snd, hsame]
      exact hmon

/-- A step of the client. -/
lemma MonitorInv.client_step {s s₁ : σ} {d₁ : δ} {pk : ℕ → π × κ} {p₁ : π} {k₁ : κ} {a : α}
    (hinv : MonitorInv L C A ((s, d), pk)) (hobeys : Obeys C A)
    (hs : monitorStep L C (s, d) t (pk t) (.inr a) = some ((s₁, d₁), (p₁, k₁))) :
    MonitorInv L C A ((s₁, d₁), Function.update pk t (p₁, k₁)) := by
  have honly : C.Holds (pk t).2 → ∀ u, C.Holds (pk u).2 → u = t := by
    intro ht u hu
    refine hinv.exclusive ?_ hu
    rw [hinv.inside t ht]
    exact L.between_inside
  obtain ⟨⟨o, hlock, hassert⟩, hinside, g, hmon⟩ := hinv
  simp only [monitorStep] at hs
  split at hs
  next hc =>
    rw [Option.map_eq_some_iff] at hs
    obtain ⟨⟨d', k'⟩, hstep, heq⟩ := hs
    obtain ⟨⟨rfl, rfl⟩, rfl, rfl⟩ : (s = s₁ ∧ d' = d₁) ∧ (pk t).1 = p₁ ∧ k' = k₁ := by
      simpa only [Prod.mk.injEq] using heq
    refine ⟨⟨o, hlock, forall_update (Q := fun u (x : π × κ) => L.Assert s o u x.1) (hassert t)
      fun u _ => hassert u⟩, forall_update (Q := fun u (x : π × κ) => C.Holds x.2 → x.1 = L.inside)
        (fun hholds => hinside t (C.holds_step _ _ _ _ _ _ hstep hholds)) fun u _ => hinside u, ?_⟩
    rw [update_snd]
    by_cases ht : C.Holds (pk t).2
    · exact hmon.within hobeys ht (honly ht) hstep
    · exact hmon.outside hobeys ht hstep
  · cases hs

/-- **The rule for monitors**: the assertions hold along every run. -/
theorem monitored_of_reachable {init : δ → Prop} (hobeys : Obeys C A)
    (h0 : ∀ d, init d → ∃ g, A.R d g ∧ ∀ t, A.Q d g t C.start)
    {s : (σ × δ) × (ℕ → π × κ)} (h : (monitor L C init).machine.Reachable s) :
    MonitorInv L C A s := by
  refine Machine.Reachable.inv (I := MonitorInv L C A) ?_ ?_ h
  · rintro ⟨⟨s, d⟩, pk⟩ ⟨hlock, hdata, hpk⟩
    obtain rfl : pk = fun _ => (L.out, C.start) := hpk
    obtain ⟨g, hR, hQ⟩ := h0 d hdata
    exact ⟨L.inv_init s hlock, fun t hholds => absurd hholds C.holds_start,
      g, fun t hholds => absurd hholds C.holds_start, fun _ => hR, hQ⟩
  · rintro ⟨⟨s, d⟩, pk⟩ ⟨t, x⟩ s' hinv hstep
    obtain ⟨⟨⟨s₁, d₁⟩, p₁, k₁⟩, hr, rfl⟩ := Threads.next_eq_some hstep
    cases x with
    | inl i => exact hinv.lock_step hobeys hr
    | inr a => exact hinv.client_step hobeys hr

end Kit
