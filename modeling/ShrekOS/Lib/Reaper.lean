/-
Objects that count their members, and a reaper that tests the counts.

* `Stage`, `Hand`, `Shared`, `Yard`: where the members are, what the reaper holds, and the objects;
* `Yard.next`, `yard`: members join and leave an object, which may count one that does not come,
  and the reaper takes those that have left, tests the count of the object, and destroys it;
* `Yard.Unpassed`: a member that has left and whose object the reaper has not tested;
* `AloneLast`: the condition on a step, that the last member leaves an object when the reaper is
  past all others;
* `Tallied`, `tallied_step`: what the objects count over their members, in every run; `Counted`: it
  is nothing or more, `Exact`: it is nothing;
* `Tidy`, `tidy_step`: what holds in the runs of such steps;
* `destroyed_le_one`, `cleared_of_destroyed`: **an object is destroyed once**, and then no member
  refers to it but the one in the hand of the reaper.
-/
import ShrekOS.Lib.Runs
import ShrekOS.Lib.Census

namespace Kit

/-- Where a member is: nowhere, inside of an object, on its way out of one, or in the hand of the
reaper. -/
inductive Stage (π : Type) where
  | out
  | inside (p : π)
  | outgoing (p : π)
  | held (p : π)
  deriving DecidableEq

/-- The object that a member refers to. -/
def Stage.object {π : Type} : Stage π → Option π
  | .out => none
  | .inside p => some p
  | .outgoing p => some p
  | .held p => some p

/-- The reaper: it holds no member; it holds one whose object it has not tested; it is about to
destroy the object; and it is past that. -/
inductive Hand (ι : Type) where
  | idle
  | removed (i : ι)
  | doomed (i : ι)
  | cleared (i : ι)
  deriving DecidableEq

/-- The member in the hand of the reaper. -/
def Hand.member {ι : Type} : Hand ι → Option ι
  | .idle => none
  | .removed i => some i
  | .doomed i => some i
  | .cleared i => some i

/-- An object: how many members it counts, and how often it has been destroyed. -/
structure Shared where
  count : ℤ
  destroyed : ℕ
  deriving DecidableEq

/-- Members, objects and the reaper. -/
@[ext]
structure Yard (ι π : Type) where
  stage : ι → Stage π
  object : π → Option Shared
  hand : Hand ι

/-- The steps: a member with a new object; a new member of an object; a member that an object counts
and that does not come; a member leaves; the reaper takes one that has left, tests its object, where
the count of a destroyed one reads as `stale`, destroys the object, and lets the member go. -/
inductive YardOp (ι π : Type) where
  | create (i : ι) (p : π)
  | join (i : ι) (p : π)
  | charge (p : π)
  | leave (i : ι)
  | take (i : ι)
  | test (stale : ℤ)
  | destroy
  | release

variable {ι π : Type}

namespace Yard

/-- A member that has left, and the reaper has not tested the object for it. -/
def Unpassed (s : Yard ι π) (i : ι) (p : π) : Prop :=
  s.stage i = .outgoing p ∨ s.stage i = .held p ∧ s.hand ≠ .cleared i

instance [DecidableEq ι] [DecidableEq π] (s : Yard ι π) (i : ι) (p : π) :
    Decidable (s.Unpassed i p) := inferInstanceAs (Decidable (_ ∨ _))

end Yard

section Next

variable [DecidableEq ι] [DecidableEq π]

namespace Yard

/-- What the reaper reads. -/
def read (o : Shared) (stale : ℤ) : ℤ := if o.destroyed = 0 then o.count else stale

/-- A member moves on. -/
def goto (s : Yard ι π) (i : ι) (st : Stage π) : Yard ι π :=
  { s with stage := Function.update s.stage i st }

/-- An object changes. -/
def put (s : Yard ι π) (p : π) (o : Shared) : Yard ι π :=
  { s with object := Function.update s.object p (some o) }

/-- A step. -/
def next (s : Yard ι π) : YardOp ι π → Option (Yard ι π)
  | .create i p =>
      if s.stage i = .out ∧ s.object p = none then some ((s.goto i (.inside p)).put p ⟨1, 0⟩)
      else none
  | .join i p =>
      match s.object p with
      | some o =>
          if s.stage i = .out ∧ o.count ≠ 0 then
            some ((s.goto i (.inside p)).put p { o with count := o.count + 1 })
          else none
      | none => none
  | .charge p =>
      match s.object p with
      | some o => if o.count ≠ 0 then some (s.put p { o with count := o.count + 1 }) else none
      | none => none
  | .leave i =>
      match s.stage i with
      | .inside p => (s.object p).map fun o =>
          (s.goto i (.outgoing p)).put p { o with count := o.count - 1 }
      | _ => none
  | .take i =>
      match s.stage i with
      | .outgoing p =>
          if s.hand = .idle then some { s.goto i (.held p) with hand := .removed i } else none
      | _ => none
  | .test stale =>
      match s.hand with
      | .removed i =>
          match s.stage i with
          | .held p => (s.object p).map fun o =>
              { s with hand := if read o stale = 0 then .doomed i else .cleared i }
          | _ => none
      | _ => none
  | .destroy =>
      match s.hand with
      | .doomed i =>
          match s.stage i with
          | .held p => (s.object p).map fun o =>
              { s.put p { o with destroyed := o.destroyed + 1 } with hand := .cleared i }
          | _ => none
      | _ => none
  | .release =>
      match s.hand with
      | .cleared i =>
          match s.stage i with
          | .held _ => some { s.goto i .out with hand := .idle }
          | _ => none
      | _ => none

end Yard

section NextEq

variable {s : Yard ι π} {i : ι} {p : π} {o : Shared}

lemma Yard.next_create (hi : s.stage i = .out) (ho : s.object p = none) :
    s.next (.create i p) = some ((s.goto i (.inside p)).put p ⟨1, 0⟩) := if_pos ⟨hi, ho⟩

lemma Yard.next_join (hi : s.stage i = .out) (ho : s.object p = some o) (hne : o.count ≠ 0) :
    s.next (.join i p) =
      some ((s.goto i (.inside p)).put p { o with count := o.count + 1 }) := by
  simp only [Yard.next, hi, ho, hne, ne_eq, not_false_iff, and_self, if_true]

lemma Yard.next_charge (ho : s.object p = some o) (hne : o.count ≠ 0) :
    s.next (.charge p) = some (s.put p { o with count := o.count + 1 }) := by
  simp only [Yard.next, ho, hne, ne_eq, not_false_iff, if_true]

lemma Yard.next_leave (hi : s.stage i = .inside p) (ho : s.object p = some o) :
    s.next (.leave i) =
      some ((s.goto i (.outgoing p)).put p { o with count := o.count - 1 }) := by
  simp only [Yard.next, hi, ho, Option.map_some]

lemma Yard.next_take (hi : s.stage i = .outgoing p) (hidle : s.hand = .idle) :
    s.next (.take i) = some { s.goto i (.held p) with hand := .removed i } := by
  simp only [Yard.next, hi, hidle, if_true]

lemma Yard.next_test (hhand : s.hand = .removed i) (hi : s.stage i = .held p)
    (ho : s.object p = some o) (stale : ℤ) :
    s.next (.test stale) =
      some { s with hand := if Yard.read o stale = 0 then .doomed i else .cleared i } := by
  simp only [Yard.next, hhand, hi, ho, Option.map_some]

lemma Yard.next_destroy (hhand : s.hand = .doomed i) (hi : s.stage i = .held p)
    (ho : s.object p = some o) :
    s.next .destroy =
      some { s.put p { o with destroyed := o.destroyed + 1 } with hand := .cleared i } := by
  simp only [Yard.next, hhand, hi, ho, Option.map_some]

lemma Yard.next_release (hhand : s.hand = .cleared i) (hi : s.stage i = .held p) :
    s.next .release = some { s.goto i .out with hand := .idle } := by
  simp only [Yard.next, hhand, hi]

end NextEq

/-- The runs of a yard: first all members are inside, and counted. -/
def yard (ι π : Type) [DecidableEq ι] [DecidableEq π] : Machine (Yard ι π) (YardOp ι π) where
  init s := s.hand = .idle ∧ (Few s.stage fun st => st ≠ .out) ∧
    (∀ i, s.stage i = .out ∨ ∃ p, s.stage i = .inside p ∧ s.object p ≠ none) ∧
    ∀ p o, s.object p = some o →
      o.destroyed = 0 ∧ o.count = census s.stage fun st => st = .inside p
  step s a s' := s.next a = some s'

end Next

/-- A step in which the last member leaves an object only when the reaper is past all others. -/
def AloneLast (s : Yard ι π) : YardOp ι π → Prop
  | .leave i => ∀ p o, s.stage i = .inside p → s.object p = some o → o.count = 1 →
      ∀ j, ¬ s.Unpassed j p
  | _ => True

/-- **The tallies**: what an object counts over the members inside is in `E`, and no member refers
to an object that is not there. -/
structure Tallied (E : ℤ → Prop) (s : Yard ι π) : Prop where
  few : Few s.stage fun st => st ≠ .out
  count : ∀ p o, s.object p = some o → E (o.count - census s.stage fun st => st = .inside p)
  home : ∀ i p, (s.stage i).object = some p → ∃ o, s.object p = some o

/-- Every member inside is counted. -/
abbrev Counted (s : Yard ι π) : Prop := Tallied (fun n => 0 ≤ n) s

/-- Nothing else is. -/
abbrev Exact (s : Yard ι π) : Prop := Tallied (fun n => n = 0) s

/-- **The yard is tidy**: what is in the hand is held; at most one member has left an object with no
members and is not passed; and an object that is destroyed has none. -/
structure Tidy (s : Yard ι π) : Prop extends Tallied (fun n => 0 ≤ n) s where
  held : ∀ i p, s.stage i = .held p → s.hand.member = some i
  alone : ∀ p o, s.object p = some o → o.count = 0 →
    ∀ i j, s.Unpassed i p → s.Unpassed j p → i = j
  doomed : ∀ i p o, s.hand = .doomed i → s.stage i = .held p → s.object p = some o →
    o.count = 0 ∧ o.destroyed = 0
  once : ∀ p o, s.object p = some o → o.destroyed ≤ 1
  gone : ∀ p o, s.object p = some o → 0 < o.destroyed → o.count = 0 ∧ ∀ i, ¬ s.Unpassed i p

section Counts

variable {E : ℤ → Prop} {s : Yard ι π} {i : ι} {p : π} {o : Shared}

lemma Tallied.few_inside (h : Tallied E s) (p : π) : Few s.stage fun st => st = .inside p :=
  h.few.mono fun i hi hout => by
    change s.stage i = .inside p at hi
    rw [hi] at hout
    cases hout

/-- An object that counts its members has one inside if and only if the count is not zero. -/
lemma Exact.count_ne_zero (h : Exact s) (ho : s.object p = some o) :
    o.count ≠ 0 ↔ ∃ i, s.stage i = .inside p := by
  rw [sub_eq_zero.mp (h.count p o ho), ← census_pos (h.few_inside p), Nat.pos_iff_ne_zero]
  exact_mod_cast Iff.rfl

/-- An object with a member inside counts it. -/
lemma Counted.count_pos (h : Counted s) (hi : s.stage i = .inside p) (ho : s.object p = some o) :
    0 < o.count := by
  have hpos : 0 < census s.stage fun st => st = .inside p :=
    (census_pos (h.few_inside p)).mpr ⟨i, hi⟩
  exact (Int.natCast_pos.mpr hpos).trans_le (sub_nonneg.mp (h.count p o ho))

/-- Nobody is inside of an object that is not there. -/
lemma Tallied.census_of_absent (h : Tallied E s) (ho : s.object p = none) :
    census s.stage (fun st => st = .inside p) = 0 := by
  refine census_of_none fun j hj => ?_
  obtain ⟨o, ho'⟩ := h.home j p (by rw [hj]; rfl)
  rw [ho] at ho'
  cases ho'

/-- **No member refers to a destroyed object** but the one for which the reaper destroyed it. -/
lemma Tidy.cleared (h : Tidy s) (ho : s.object p = some o) (hd : 0 < o.destroyed)
    (hi : (s.stage i).object = some p) : s.hand = .cleared i := by
  obtain ⟨hzero, hnone⟩ := h.gone p o ho hd
  by_contra hne
  cases hst : s.stage i with
  | out =>
      rw [hst] at hi
      cases hi
  | inside q =>
      rw [hst] at hi
      cases hi
      exact (Counted.count_pos h.toTallied hst ho).ne' hzero
  | outgoing q =>
      rw [hst] at hi
      cases hi
      exact hnone i (.inl hst)
  | held q =>
      rw [hst] at hi
      cases hi
      exact hnone i (.inr ⟨hst, hne⟩)

end Counts

section Steps

variable [DecidableEq ι] [DecidableEq π] {E : ℤ → Prop} {s s' : Yard ι π} {i j : ι} {p q : π}
  {o o' : Shared} {st : Stage π}

omit [DecidableEq ι] in
lemma Yard.put_eq_some (h : (s.put p o').object q = some o) :
    q = p ∧ o = o' ∨ q ≠ p ∧ s.object q = some o := by
  by_cases hq : q = p
  · subst hq
    change Function.update s.object q (some o') q = some o at h
    rw [Function.update_self, Option.some.injEq] at h
    exact .inl ⟨rfl, h.symm⟩
  · change Function.update s.object p (some o') q = some o at h
    rw [Function.update_of_ne hq] at h
    exact .inr ⟨hq, h⟩

omit [DecidableEq ι] in
lemma Yard.put_of_some (h : s.object q = some o) : ∃ o₁, (s.put p o').object q = some o₁ := by
  by_cases hq : q = p
  · subst hq
    exact ⟨o', Function.update_self ..⟩
  · exact ⟨o, (Function.update_of_ne hq ..).trans h⟩

omit [DecidableEq π] in
lemma Yard.goto_stage_of_ne (hj : j ≠ i) : (s.goto i st).stage j = s.stage j :=
  Function.update_of_ne hj ..

omit [DecidableEq π] in
@[simp] lemma Yard.goto_stage_self : (s.goto i st).stage i = st := Function.update_self ..

omit [DecidableEq π] in
/-- Who is at another stage than the one that is gone to has not moved. -/
lemma Yard.stage_of_goto {st' : Stage π} (hj : (s.goto i st).stage j = st') (hne : st' ≠ st) :
    j ≠ i ∧ s.stage j = st' := by
  by_cases hji : j = i
  · subst hji
    rw [Yard.goto_stage_self] at hj
    exact absurd hj.symm hne
  · exact ⟨hji, (Yard.goto_stage_of_ne hji).symm.trans hj⟩

/-- **A member moves**, and the object counts it in or out. -/
lemma Tallied.move (h : Tallied E s)
    (hother : ∀ q, q ≠ p → (s.stage i = .inside q ↔ st = .inside q))
    (hcount : E (o'.count + (if s.stage i = .inside p then 1 else 0) -
      (census s.stage (fun st => st = .inside p) + if st = .inside p then 1 else 0)))
    (hobject : ∀ q, st.object = some q → q = p) : Tallied E ((s.goto i st).put p o') := by
  refine ⟨h.few.update i _, fun q o ho => ?_, fun j q hj => ?_⟩
  · change E (o.count - census (Function.update s.stage i st) fun st => st = .inside q)
    rcases Yard.put_eq_some ho with ⟨rfl, rfl⟩ | ⟨hq, ho⟩
    · have hcensus := census_update (h.few_inside q) i st
      have hcast : (census (Function.update s.stage i st) (fun st => st = .inside q) : ℤ) +
          (if s.stage i = .inside q then 1 else 0) =
            census s.stage (fun st => st = .inside q) + if st = .inside q then 1 else 0 := by
        exact_mod_cast hcensus
      rw [← hcast, add_sub_add_right_eq_sub] at hcount
      exact hcount
    · rw [census_update_same (h.few_inside q) i st (hother q hq).symm]
      exact h.count q o ho
  · change (Function.update s.stage i st j).object = some q at hj
    by_cases hji : j = i
    · subst hji
      rw [Function.update_self] at hj
      rw [hobject q hj]
      exact ⟨o', Function.update_self ..⟩
    · rw [Function.update_of_ne hji] at hj
      obtain ⟨o, ho⟩ := h.home j q hj
      exact Yard.put_of_some ho

omit [DecidableEq π] in
/-- The reaper moves, or a member that is not inside. -/
lemma Tallied.pass (h : Tallied E s) (hobject : s'.object = s.object)
    (hstage : s'.stage = s.stage ∨ ∃ i st, s'.stage = Function.update s.stage i st ∧
      (∀ q, s.stage i ≠ .inside q ∧ st ≠ .inside q) ∧ ∀ q, st.object = some q →
        (s.stage i).object = some q) : Tallied E s' := by
  rcases hstage with heq | ⟨i, st, heq, hnot, hst⟩
  · refine ⟨?_, fun q o ho => ?_, fun j q hj => ?_⟩
    · rw [heq]
      exact h.few
    · rw [hobject] at ho
      rw [heq]
      exact h.count q o ho
    · rw [heq] at hj
      rw [hobject]
      exact h.home j q hj
  · refine ⟨?_, fun q o ho => ?_, fun j q hj => ?_⟩
    · rw [heq]
      exact h.few.update i st
    · rw [hobject] at ho
      rw [heq, census_update_same (h.few_inside q) i st (iff_of_false (hnot q).2 (hnot q).1)]
      exact h.count q o ho
    · rw [heq] at hj
      rw [hobject]
      by_cases hji : j = i
      · subst hji
        rw [Function.update_self] at hj
        exact h.home j q (hst q hj)
      · rw [Function.update_of_ne hji] at hj
        exact h.home j q hj

omit [DecidableEq ι] in
/-- An object is destroyed. -/
lemma Tallied.put (h : Tallied E s) (ho : s.object p = some o) (d : ℕ) (hand : Hand ι) :
    Tallied E { s.put p { o with destroyed := d } with hand := hand } := by
  refine ⟨h.few, fun q o₁ ho₁ => ?_, fun j q hj => ?_⟩
  · rcases Yard.put_eq_some ho₁ with ⟨rfl, rfl⟩ | ⟨-, ho₁⟩
    · exact h.count q o ho
    · exact h.count q o₁ ho₁
  · obtain ⟨o₁, ho₁⟩ := h.home j q hj
    exact Yard.put_of_some ho₁

/-- A new member of an object, that has others or is new. -/
lemma Tallied.enter (h : Tallied E s) (hi : s.stage i = .out)
    (hcount : E (o'.count - (census s.stage (fun st => st = .inside p) + 1))) :
    Tallied E ((s.goto i (.inside p)).put p o') := by
  refine h.move ?_ ?_ fun q hq => (Option.some.inj hq).symm
  · intro q hq
    rw [hi]
    exact ⟨nofun, fun heq => absurd (Stage.inside.inj heq).symm hq⟩
  · rw [hi, if_neg nofun, if_pos rfl, add_zero]
    exact hcount

omit [DecidableEq ι] in
/-- A member is counted that does not come. -/
lemma Tallied.charge (h : Tallied E s) (ho : s.object p = some o) (hmore : ∀ n, E n → E (n + 1)) :
    Tallied E (s.put p { o with count := o.count + 1 }) := by
  refine ⟨h.few, fun q o₁ ho₁ => ?_, fun j q hj => ?_⟩
  · rcases Yard.put_eq_some ho₁ with ⟨rfl, rfl⟩ | ⟨-, ho₁⟩
    · have hcount := hmore _ (h.count q o ho)
      rw [sub_add_eq_add_sub] at hcount
      exact hcount
    · exact h.count q o₁ ho₁
  · obtain ⟨o₁, ho₁⟩ := h.home j q hj
    exact Yard.put_of_some ho₁

/-- A member leaves. -/
lemma Tallied.leave (h : Tallied E s) (hi : s.stage i = .inside p) (ho : s.object p = some o) :
    Tallied E ((s.goto i (.outgoing p)).put p { o with count := o.count - 1 }) := by
  refine h.move ?_ ?_ fun q hq => (Option.some.inj hq).symm
  · intro q hq
    rw [hi]
    exact ⟨fun heq => absurd (Stage.inside.inj heq).symm hq, nofun⟩
  · rw [hi, if_pos rfl, if_neg nofun, add_zero]
    change E (o.count - 1 + 1 - _)
    rw [sub_add_cancel]
    exact h.count p o ho

/-- **Every step** keeps the tallies, if they may grow when it counts a member that does not
come. -/
lemma tallied_step (h0 : E 0) (h : Tallied E s) {a : YardOp ι π}
    (hmore : ∀ p, a = .charge p → ∀ n, E n → E (n + 1)) (hstep : s.next a = some s') :
    Tallied E s' := by
  cases a with
  | create i p =>
      obtain ⟨⟨hi, ho⟩, heq⟩ := Option.ite_none_right_eq_some.mp hstep
      cases heq
      refine h.enter hi ?_
      -- an object that is new has no members to be counted
      rw [h.census_of_absent ho]
      exact h0
  | join i p =>
      simp only [Yard.next] at hstep
      split at hstep
      · next o ho =>
          obtain ⟨⟨hi, -⟩, heq⟩ := Option.ite_none_right_eq_some.mp hstep
          cases heq
          refine h.enter hi ?_
          rw [add_sub_add_right_eq_sub]
          exact h.count p o ho
      · cases hstep
  | charge p =>
      simp only [Yard.next] at hstep
      split at hstep
      · next o ho =>
          obtain ⟨-, heq⟩ := Option.ite_none_right_eq_some.mp hstep
          cases heq
          -- the count goes up with no member: the excess is one more
          exact h.charge ho (hmore p rfl)
      · cases hstep
  | leave i =>
      simp only [Yard.next] at hstep
      split at hstep
      -- a member goes out, and the count of its object goes down
      · next p hi =>
          obtain ⟨o, ho, rfl⟩ := Option.map_eq_some_iff.mp hstep
          exact h.leave hi ho
      · cases hstep
  | take i =>
      simp only [Yard.next] at hstep
      split at hstep
      · next p hi =>
          obtain ⟨-, heq⟩ := Option.ite_none_right_eq_some.mp hstep
          cases heq
          refine h.pass rfl (.inr ⟨i, .held p, rfl, fun q => ?_, fun q hq => ?_⟩)
          · rw [hi]
            exact ⟨nofun, nofun⟩
          · rw [hi]
            exact hq
      · cases hstep
  | test stale =>
      simp only [Yard.next] at hstep
      split at hstep
      · split at hstep
        · obtain ⟨o, -, rfl⟩ := Option.map_eq_some_iff.mp hstep
          exact h.pass rfl (.inl rfl)
        · cases hstep
      · cases hstep
  | destroy =>
      simp only [Yard.next] at hstep
      split at hstep
      · split at hstep
        · obtain ⟨o, ho, rfl⟩ := Option.map_eq_some_iff.mp hstep
          exact h.put ho _ _
        · cases hstep
      · cases hstep
  | release =>
      simp only [Yard.next] at hstep
      split at hstep
      · next i _ =>
          split at hstep
          · next p hi =>
              cases hstep
              refine h.pass rfl (.inr ⟨i, .out, rfl, fun q => ?_, nofun⟩)
              rw [hi]
              exact ⟨nofun, nofun⟩
          · cases hstep
      · cases hstep

lemma tallied_of_init (h0 : E 0) (h : (yard ι π).init s) : Tallied E s := by
  obtain ⟨-, hfew, hinside, hcount⟩ := h
  refine ⟨hfew, fun p o ho => ?_, fun j q hj => ?_⟩
  · rw [(hcount p o ho).2, sub_self]
    exact h0
  rcases hinside j with hout | ⟨p, hp, hne⟩
  · rw [hout] at hj
    cases hj
  · rw [hp] at hj
    cases hj
    exact Option.ne_none_iff_exists'.mp hne

/-- In every run the members inside are counted. -/
lemma counted_of_reach {G : Yard ι π → YardOp ι π → Prop} (h : (yard ι π).Reach G s) :
    Counted s := by
  refine Machine.Reach.inv ?_ ?_ h
  · exact fun s hs => tallied_of_init le_rfl hs
  · exact fun s a s' hs _ hstep => tallied_step le_rfl hs (fun _ _ n hn => by omega) hstep

/-- **The counts are right** in a run in which every member that is counted comes. -/
lemma exact_of_reach {G : Yard ι π → YardOp ι π → Prop} (hG : ∀ s p, ¬ G s (.charge p))
    (h : (yard ι π).Reach G s) : Exact s := by
  refine Machine.Reach.inv ?_ ?_ h
  · exact fun s hs => tallied_of_init rfl hs
  · intro s a s' hs ha hstep
    refine tallied_step rfl hs (fun p hp => ?_) hstep
    subst hp
    exact absurd ha (hG s p)

omit [DecidableEq π] in
/-- A member moves that the reaper does not have to pass, before and after. -/
lemma Yard.unpassed_goto (hst : ∀ q, st ≠ .outgoing q ∧ st ≠ .held q)
    (hi : ∀ q, s.stage i ≠ .outgoing q ∧ s.stage i ≠ .held q) :
    (s.goto i st).Unpassed j q ↔ s.Unpassed j q := by
  unfold Yard.Unpassed
  by_cases hj : j = i
  · subst hj
    rw [Yard.goto_stage_self]
    simp only [(hst q).1, (hst q).2, (hi q).1, (hi q).2, false_and, or_self]
  · rw [Yard.goto_stage_of_ne hj]
    rfl

/-- **A new member** of an object, that has others or is new. -/
lemma Tidy.enter (h : Tidy s) (hi : s.stage i = .out) (hd : o'.destroyed = 0) (hne : o'.count ≠ 0)
    (hold : ∀ o, s.object p = some o → o.count ≠ 0)
    (hcount : 0 ≤ o'.count - (census s.stage (fun st => st = .inside p) + 1)) :
    Tidy ((s.goto i (.inside p)).put p o') := by
  have hunpassed : ∀ j q, ((s.goto i (.inside p)).put p o').Unpassed j q ↔ s.Unpassed j q := by
    intro j q
    have hiff : (s.goto i (.inside p)).Unpassed j q ↔ s.Unpassed j q := by
      refine Yard.unpassed_goto (fun _ => ⟨nofun, nofun⟩) fun r => ?_
      rw [hi]
      exact ⟨nofun, nofun⟩
    exact hiff
  refine ⟨h.toTallied.enter hi hcount, fun j q hj => ?_, fun q o ho hzero => ?_,
    fun j q o hhand hj ho => ?_, fun q o ho => ?_, fun q o ho hpos => ?_⟩
  · exact h.held j q (Yard.stage_of_goto hj nofun).2
  · rcases Yard.put_eq_some ho with ⟨rfl, rfl⟩ | ⟨-, ho⟩
    · exact absurd hzero hne
    · intro j k hj hk
      exact h.alone q o ho hzero j k ((hunpassed j q).mp hj) ((hunpassed k q).mp hk)
  · have hheld := (Yard.stage_of_goto hj nofun).2
    rcases Yard.put_eq_some ho with ⟨rfl, rfl⟩ | ⟨-, ho⟩
    · obtain ⟨o, ho⟩ := h.home j q (by rw [hheld]; rfl)
      exact absurd (h.doomed j q o hhand hheld ho).1 (hold o ho)
    · exact h.doomed j q o hhand hheld ho
  · rcases Yard.put_eq_some ho with ⟨rfl, rfl⟩ | ⟨-, ho⟩
    · omega
    · exact h.once q o ho
  · rcases Yard.put_eq_some ho with ⟨rfl, rfl⟩ | ⟨-, ho⟩
    · omega
    · obtain ⟨hzero, hnone⟩ := h.gone q o ho hpos
      exact ⟨hzero, fun j hj => hnone j ((hunpassed j q).mp hj)⟩

omit [DecidableEq ι] in
/-- A member is counted that does not come: an object that counts is not destroyed, nor about to
be. -/
lemma Tidy.charge (h : Tidy s) (ho : s.object p = some o) (hne : o.count ≠ 0) :
    Tidy (s.put p { o with count := o.count + 1 }) := by
  have hnonneg : 0 ≤ o.count := (Int.natCast_nonneg _).trans (sub_nonneg.mp (h.count p o ho))
  refine ⟨h.toTallied.charge ho fun n hn => by omega, h.held, fun q o₁ ho₁ hzero => ?_,
    fun j q o₁ hhand hj ho₁ => ?_, fun q o₁ ho₁ => ?_, fun q o₁ ho₁ hpos => ?_⟩
  · rcases Yard.put_eq_some ho₁ with ⟨rfl, rfl⟩ | ⟨-, ho₁⟩
    · change o.count + 1 = 0 at hzero
      omega
    · exact h.alone q o₁ ho₁ hzero
  · rcases Yard.put_eq_some ho₁ with ⟨rfl, rfl⟩ | ⟨-, ho₁⟩
    · exact absurd (h.doomed j q o hhand hj ho).1 hne
    · exact h.doomed j q o₁ hhand hj ho₁
  · rcases Yard.put_eq_some ho₁ with ⟨rfl, rfl⟩ | ⟨-, ho₁⟩
    · exact h.once q o ho
    · exact h.once q o₁ ho₁
  · rcases Yard.put_eq_some ho₁ with ⟨rfl, rfl⟩ | ⟨-, ho₁⟩
    · exact absurd (h.gone q o ho hpos).1 hne
    · exact h.gone q o₁ ho₁ hpos

/-- **A member leaves**: the last one only when the reaper is past all others. -/
lemma Tidy.leave (h : Tidy s) (hi : s.stage i = .inside p) (ho : s.object p = some o)
    (halone : o.count = 1 → ∀ j, ¬ s.Unpassed j p) :
    Tidy ((s.goto i (.outgoing p)).put p { o with count := o.count - 1 }) := by
  have hpos := Counted.count_pos h.toTallied hi ho
  have hstage : ∀ j, j ≠ i →
      ((s.goto i (.outgoing p)).put p { o with count := o.count - 1 }).stage j = s.stage j :=
    fun j hj => Yard.goto_stage_of_ne hj
  have hself : ((s.goto i (.outgoing p)).put p { o with count := o.count - 1 }).stage i =
      .outgoing p := Yard.goto_stage_self
  -- the only one that has newly to pass an object is `i`, and the object is `p`
  have hunpassed : ∀ j q,
      ((s.goto i (.outgoing p)).put p { o with count := o.count - 1 }).Unpassed j q →
        s.Unpassed j q ∨ j = i ∧ q = p := by
    intro j q hj
    by_cases hji : j = i
    · subst hji
      unfold Yard.Unpassed at hj
      rw [hself] at hj
      rcases hj with heq | ⟨heq, -⟩
      · exact .inr ⟨rfl, (Stage.outgoing.inj heq).symm⟩
      · cases heq
    · unfold Yard.Unpassed at hj
      rw [hstage j hji] at hj
      exact .inl hj
  -- `held`, `alone`, `doomed`, `once` and `gone`; `i` is the only one that moved
  refine ⟨h.toTallied.leave hi ho, fun j q hj => ?_, fun q o₁ ho₁ hzero j k hj hk => ?_,
    fun j q o₁ hhand hj ho₁ => ?_, fun q o₁ ho₁ => ?_, fun q o₁ ho₁ hd => ?_⟩
  · exact h.held j q (Yard.stage_of_goto hj nofun).2
  · rcases Yard.put_eq_some ho₁ with ⟨rfl, rfl⟩ | ⟨hq, ho₁⟩
    -- `i` was the last member: nobody else had to pass the object before
    · have hlast : o.count = 1 := by
        change o.count - 1 = 0 at hzero
        omega
      have hone : ∀ j,
          ((s.goto i (.outgoing q)).put q { o with count := o.count - 1 }).Unpassed j q →
            j = i := by
        intro j hj
        rcases hunpassed j q hj with hold | ⟨hji, -⟩
        · exact absurd hold (halone hlast j)
        · exact hji
      rw [hone j hj, hone k hk]
    · have hold : ∀ j,
          ((s.goto i (.outgoing p)).put p { o with count := o.count - 1 }).Unpassed j q →
            s.Unpassed j q := by
        intro j hj
        rcases hunpassed j q hj with hold | ⟨-, hqp⟩
        · exact hold
        · exact absurd hqp hq
      exact h.alone q o₁ ho₁ hzero j k (hold j hj) (hold k hk)
  · have hheld := (Yard.stage_of_goto hj nofun).2
    rcases Yard.put_eq_some ho₁ with ⟨rfl, rfl⟩ | ⟨-, ho₁⟩
    -- nobody is to destroy an object that counted a member
    · have hzero := (h.doomed j q o hhand hheld ho).1
      omega
    · exact h.doomed j q o₁ hhand hheld ho₁
  · rcases Yard.put_eq_some ho₁ with ⟨rfl, rfl⟩ | ⟨-, ho₁⟩
    · exact h.once q o ho
    · exact h.once q o₁ ho₁
  · rcases Yard.put_eq_some ho₁ with ⟨rfl, rfl⟩ | ⟨hq, ho₁⟩
    -- nor is it destroyed
    · have hzero := (h.gone q o ho hd).1
      omega
    · obtain ⟨hzero, hnone⟩ := h.gone q o₁ ho₁ hd
      refine ⟨hzero, fun j hj => ?_⟩
      rcases hunpassed j q hj with hold | ⟨-, hqp⟩
      · exact hnone j hold
      · exact hq hqp

omit [DecidableEq π] in
/-- **The reaper moves on**, and passes members but no new one is to be passed. -/
lemma Tidy.pass (h : Tidy s) (hobject : s'.object = s.object)
    (hstage : s'.stage = s.stage ∨ ∃ i st, s'.stage = Function.update s.stage i st ∧
      (∀ q, s.stage i ≠ .inside q ∧ st ≠ .inside q) ∧ ∀ q, st.object = some q →
        (s.stage i).object = some q)
    (hheld : ∀ j q, s'.stage j = .held q → s'.hand.member = some j)
    (hunpassed : ∀ j q, s'.Unpassed j q → s.Unpassed j q)
    (hdoomed : ∀ j q o, s'.hand = .doomed j → s'.stage j = .held q → s.object q = some o →
      o.count = 0 ∧ o.destroyed = 0) : Tidy s' := by
  refine ⟨h.toTallied.pass hobject hstage, hheld, fun q o ho hzero j k hj hk => ?_,
    fun j q o hhand hj ho => ?_, fun q o ho => ?_, fun q o ho hpos => ?_⟩
  · rw [hobject] at ho
    exact h.alone q o ho hzero j k (hunpassed j q hj) (hunpassed k q hk)
  · rw [hobject] at ho
    exact hdoomed j q o hhand hj ho
  · rw [hobject] at ho
    exact h.once q o ho
  · rw [hobject] at ho
    obtain ⟨hzero, hnone⟩ := h.gone q o ho hpos
    exact ⟨hzero, fun j hj => hnone j (hunpassed j q hj)⟩

omit [DecidableEq π] in
/-- The reaper takes a member that has left. -/
lemma Tidy.take (h : Tidy s) (hi : s.stage i = .outgoing p) (hidle : s.hand = .idle) :
    Tidy { s.goto i (.held p) with hand := .removed i } := by
  have hnone : ∀ j q, s.stage j ≠ .held q := by
    intro j q hj
    have hmember := h.held j q hj
    rw [hidle] at hmember
    cases hmember
  refine h.pass rfl (.inr ⟨i, .held p, rfl, ?_, ?_⟩) ?_ ?_ nofun
  · intro q
    rw [hi]
    exact ⟨nofun, nofun⟩
  · intro q hq
    rw [hi]
    exact hq
  · intro j q hj
    by_cases hji : j = i
    · subst hji
      rfl
    · exact absurd ((Yard.goto_stage_of_ne hji).symm.trans hj) (hnone j q)
  · intro j q hj
    by_cases hji : j = i
    · subst hji
      have hstage : (s.goto j (.held p)).stage j = .held p := Yard.goto_stage_self
      rcases hj with hj | ⟨hj, -⟩
      · cases hstage.symm.trans hj
      · cases hstage.symm.trans hj
        exact .inl hi
    · rcases hj with hj | ⟨hj, -⟩
      · exact .inl ((Yard.goto_stage_of_ne hji).symm.trans hj)
      · exact absurd ((Yard.goto_stage_of_ne hji).symm.trans hj) (hnone j q)

omit [DecidableEq π] in
/-- **The test**: the object of a member that is not passed has not been destroyed, so what is read
is its count. -/
lemma Tidy.test (h : Tidy s) (hhand : s.hand = .removed i) (hi : s.stage i = .held p)
    (ho : s.object p = some o) (stale : ℤ) :
    Tidy { s with hand := if Yard.read o stale = 0 then .doomed i else .cleared i } := by
  have hunpassed : s.Unpassed i p := by
    refine .inr ⟨hi, ?_⟩
    rw [hhand]
    nofun
  have hd : o.destroyed = 0 := by
    by_contra hd
    exact (h.gone p o ho (Nat.pos_of_ne_zero hd)).2 i hunpassed
  have hread : Yard.read o stale = o.count := if_pos hd
  rw [hread]
  refine h.pass rfl (.inl rfl) ?_ ?_ ?_
  · intro j q hj
    have hmember := h.held j q hj
    rw [hhand] at hmember
    cases hmember
    change (if o.count = 0 then Hand.doomed i else Hand.cleared i).member = some i
    split_ifs <;> rfl
  · rintro j q (hj | ⟨hj, -⟩)
    · exact .inl hj
    · refine .inr ⟨hj, ?_⟩
      rw [hhand]
      nofun
  · intro j q o₁ hdoomed hj ho₁
    change (if o.count = 0 then Hand.doomed i else Hand.cleared i) = .doomed j at hdoomed
    split_ifs at hdoomed with hzero
    cases hdoomed
    change s.stage i = .held q at hj
    rw [hi] at hj
    cases hj
    rw [ho, Option.some.injEq] at ho₁
    subst ho₁
    exact ⟨hzero, hd⟩

omit [DecidableEq π] in
/-- The member goes. -/
lemma Tidy.release (h : Tidy s) (hhand : s.hand = .cleared i) (hi : s.stage i = .held p) :
    Tidy { s.goto i .out with hand := .idle } := by
  have hother : ∀ j q, (s.goto i .out).stage j ≠ .held q := by
    intro j q hj
    obtain ⟨hji, hj⟩ := Yard.stage_of_goto hj nofun
    have hmember := h.held j q hj
    rw [hhand] at hmember
    cases hmember
    exact hji rfl
  refine h.pass rfl (.inr ⟨i, .out, rfl, ?_, nofun⟩) ?_ ?_ nofun
  · intro q
    rw [hi]
    exact ⟨nofun, nofun⟩
  · exact fun j q hj => absurd hj (hother j q)
  · rintro j q (hj | ⟨hj, -⟩)
    · exact .inl (Yard.stage_of_goto hj nofun).2
    · exact absurd hj (hother j q)

omit [DecidableEq ι] in
/-- **The object is destroyed**: the one member that was not passed is in the hand. -/
lemma Tidy.destroy (h : Tidy s) (hhand : s.hand = .doomed i) (hi : s.stage i = .held p)
    (ho : s.object p = some o) :
    Tidy { s.put p { o with destroyed := o.destroyed + 1 } with hand := .cleared i } := by
  obtain ⟨hzero, hd⟩ := h.doomed i p o hhand hi ho
  have hself : s.Unpassed i p := by
    refine .inr ⟨hi, ?_⟩
    rw [hhand]
    nofun
  have hunpassed : ∀ j q,
      Yard.Unpassed { s.put p { o with destroyed := o.destroyed + 1 } with hand := .cleared i }
        j q → s.Unpassed j q ∧ j ≠ i := by
    rintro j q (hj | ⟨hj, hne⟩)
    · refine ⟨.inl hj, ?_⟩
      rintro rfl
      change s.stage j = _ at hj
      rw [hi] at hj
      cases hj
    · refine ⟨.inr ⟨hj, ?_⟩, ?_⟩
      · rw [hhand]
        nofun
      · rintro rfl
        exact hne rfl
  refine ⟨h.toTallied.put ho _ _, fun j q hj => ?_, fun q o₁ ho₁ hzero₁ j k hj hk => ?_,
    nofun, fun q o₁ ho₁ => ?_, fun q o₁ ho₁ hpos => ?_⟩
  · have hmember := h.held j q hj
    rw [hhand] at hmember
    exact hmember
  · have hj' := (hunpassed j q hj).1
    have hk' := (hunpassed k q hk).1
    rcases Yard.put_eq_some ho₁ with ⟨rfl, rfl⟩ | ⟨-, ho₁⟩
    · exact h.alone q o ho hzero j k hj' hk'
    · exact h.alone q o₁ ho₁ hzero₁ j k hj' hk'
  · rcases Yard.put_eq_some ho₁ with ⟨rfl, rfl⟩ | ⟨-, ho₁⟩
    · change o.destroyed + 1 ≤ 1
      omega
    · exact h.once q o₁ ho₁
  · rcases Yard.put_eq_some ho₁ with ⟨rfl, rfl⟩ | ⟨-, ho₁⟩
    · refine ⟨hzero, fun j hj => ?_⟩
      obtain ⟨hj', hne⟩ := hunpassed j q hj
      exact hne (h.alone q o ho hzero j i hj' hself)
    · obtain ⟨hzero₁, hnone⟩ := h.gone q o₁ ho₁ hpos
      exact ⟨hzero₁, fun j hj => hnone j (hunpassed j q hj).1⟩

/-- **A step** with the condition keeps the yard tidy. -/
lemma tidy_step (h : Tidy s) {a : YardOp ι π} (halone : AloneLast s a)
    (hstep : s.next a = some s') : Tidy s' := by
  cases a with
  | create i p =>
      obtain ⟨⟨hi, ho⟩, heq⟩ := Option.ite_none_right_eq_some.mp hstep
      cases heq
      -- the first member of a new object
      refine h.enter hi rfl one_ne_zero ?_ ?_
      · intro o ho'
        rw [ho] at ho'
        cases ho'
      · rw [h.census_of_absent ho]
        decide
  | join i p =>
      simp only [Yard.next] at hstep
      split at hstep
      · next o ho =>
          obtain ⟨⟨hi, hne⟩, heq⟩ := Option.ite_none_right_eq_some.mp hstep
          cases heq
          -- an object that counts members is not destroyed
          have hd : o.destroyed = 0 := by
            by_contra hd
            exact hne (h.gone p o ho (Nat.pos_of_ne_zero hd)).1
          have hcount := sub_nonneg.mp (h.count p o ho)
          refine h.enter hi hd ?_ ?_ ?_
          · change o.count + 1 ≠ 0
            omega
          · intro o₁ ho₁
            rw [ho, Option.some.injEq] at ho₁
            exact ho₁ ▸ hne
          · change 0 ≤ o.count + 1 - _
            omega
      · cases hstep
  | charge p =>
      simp only [Yard.next] at hstep
      split at hstep
      · next o ho =>
          obtain ⟨hne, heq⟩ := Option.ite_none_right_eq_some.mp hstep
          cases heq
          exact h.charge ho hne
      · cases hstep
  | leave i =>
      simp only [Yard.next] at hstep
      split at hstep
      · next p hi =>
          obtain ⟨o, ho, rfl⟩ := Option.map_eq_some_iff.mp hstep
          -- `AloneLast`: the last one to leave is alone
          exact h.leave hi ho fun hlast j => halone p o hi ho hlast j
      · cases hstep
  | take i =>
      simp only [Yard.next] at hstep
      split at hstep
      · next p hi =>
          obtain ⟨hidle, heq⟩ := Option.ite_none_right_eq_some.mp hstep
          cases heq
          exact h.take hi hidle
      · cases hstep
  | test stale =>
      simp only [Yard.next] at hstep
      split at hstep
      · next i hhand =>
          split at hstep
          · next p hi =>
              obtain ⟨o, ho, rfl⟩ := Option.map_eq_some_iff.mp hstep
              exact h.test hhand hi ho stale
          · cases hstep
      · cases hstep
  | destroy =>
      simp only [Yard.next] at hstep
      split at hstep
      · next i hhand =>
          split at hstep
          · next p hi =>
              obtain ⟨o, ho, rfl⟩ := Option.map_eq_some_iff.mp hstep
              exact h.destroy hhand hi ho
          · cases hstep
      · cases hstep
  | release =>
      simp only [Yard.next] at hstep
      split at hstep
      · next i hhand =>
          split at hstep
          · next p hi =>
              cases hstep
              exact h.release hhand hi
          · cases hstep
      · cases hstep

/-- The yard is tidy in every state of a run with the condition. -/
lemma tidy_of_reach (h : (yard ι π).Reach AloneLast s) : Tidy s := by
  refine Machine.Reach.inv ?_ ?_ h
  · intro s hinit
    have hcounted : Counted s := tallied_of_init le_rfl hinit
    obtain ⟨hidle, -, hinside, hcount⟩ := hinit
    have hplace : ∀ j q, s.stage j ≠ .outgoing q ∧ s.stage j ≠ .held q := by
      intro j q
      rcases hinside j with hout | ⟨p, hp, -⟩
      · rw [hout]
        exact ⟨nofun, nofun⟩
      · rw [hp]
        exact ⟨nofun, nofun⟩
    have hunpassed : ∀ j q, ¬ s.Unpassed j q := by
      rintro j q (hj | ⟨hj, -⟩)
      · exact (hplace j q).1 hj
      · exact (hplace j q).2 hj
    refine ⟨hcounted, fun j q hj => absurd hj (hplace j q).2,
      fun p o _ _ i j hi _ => absurd hi (hunpassed i p), fun j q o hhand _ _ => ?_,
      fun p o ho => ?_, fun p o ho hpos => ?_⟩
    · rw [hidle] at hhand
      cases hhand
    · rw [(hcount p o ho).1]
      exact Nat.zero_le 1
    · rw [(hcount p o ho).1] at hpos
      exact absurd hpos (lt_irrefl 0)
  · exact fun s a s' hs halone hstep => tidy_step hs halone hstep

/-- **An object is destroyed once** at most. -/
theorem destroyed_le_one (h : (yard ι π).Reach AloneLast s) (ho : s.object p = some o) :
    o.destroyed ≤ 1 := (tidy_of_reach h).once p o ho

/-- **A destroyed object** has no member but the one in the hand of the reaper. -/
theorem cleared_of_destroyed (h : (yard ι π).Reach AloneLast s) (ho : s.object p = some o)
    (hd : 0 < o.destroyed) (hi : (s.stage i).object = some p) : s.hand = .cleared i :=
  (tidy_of_reach h).cleared ho hd hi

end Steps

end Kit
