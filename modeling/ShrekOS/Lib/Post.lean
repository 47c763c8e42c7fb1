/-
Parting messages: who dies leaves one in the queue of another, who takes it from there.

* `Life`, `Post`: who is there, the queues, who is about to tell whom, and what was sent and taken;
* `Post.next`, `post`: the steps and their runs;
* `Post.Located`: **a message is in one place**: taken once, or in one queue, once, of one who
  lives;
* `Delivered`: the condition on a step, that nobody dies with messages in the queue or on the way,
  that they are left with the living, and stored;
* `Kept`, `kept_step`: what holds in the runs of such steps;
* `located_of_sent`, `sent_of_dead`: **every message is in one place**.
-/
import ShrekOS.Lib.Runs
import Mathlib.Data.List.Count

namespace Kit

/-- Not there yet, alive, or dead. -/
inductive Life where
  | absent
  | alive
  | dead
  deriving DecidableEq

/-- Everyone's life and queue; the messengers, each with who has died and who is told; what has been
taken from the queues, and what has been sent. -/
@[ext]
structure Post (ι π μ : Type) where
  life : π → Life
  queue : π → List μ
  telling : ι → Option (π × π)
  taken : List μ
  sent : π → Option μ

/-- The steps: someone is there; dies, with a messenger to another; the messenger tells, and the
message is stored or not; someone takes a message. -/
inductive PostOp (ι π μ : Type) where
  | register (p : π)
  | die (i : ι) (p target : π)
  | tell (i : ι) (m : μ) (stored : Bool)
  | take (p : π)

variable {ι π μ : Type}

namespace Post

/-- A message in one place. -/
def Located [DecidableEq μ] (s : Post ι π μ) (m : μ) : Prop :=
  (s.taken.count m = 1 ∧ ∀ q, m ∉ s.queue q) ∨
    (m ∉ s.taken ∧ ∃ q, s.life q = .alive ∧ (s.queue q).count m = 1 ∧
      ∀ q', m ∈ s.queue q' → q' = q)

/-- A step. -/
def next [DecidableEq ι] [DecidableEq π] (s : Post ι π μ) : PostOp ι π μ → Option (Post ι π μ)
  | .register p =>
      if s.life p = .absent then some { s with life := Function.update s.life p .alive } else none
  | .die i p target =>
      if s.life p = .alive ∧ s.telling i = none then
        some { s with
          life := Function.update s.life p .dead
          telling := Function.update s.telling i (some (p, target)) }
      else none
  | .tell i m stored =>
      match s.telling i with
      | some (p, target) =>
          some { s with
            queue := if stored then Function.update s.queue target (s.queue target ++ [m])
              else s.queue
            telling := Function.update s.telling i none
            sent := Function.update s.sent p (some m) }
      | none => none
  | .take p =>
      match s.queue p with
      | m :: q => some { s with queue := Function.update s.queue p q, taken := s.taken ++ [m] }
      | [] => none

end Post

/-- The runs: at first nothing has been sent. -/
def post (ι π μ : Type) [DecidableEq ι] [DecidableEq π] : Machine (Post ι π μ) (PostOp ι π μ) where
  init s := (∀ p, s.life p ≠ .dead) ∧ (∀ p, s.queue p = []) ∧ (∀ i, s.telling i = none) ∧
    s.taken = [] ∧ ∀ p, s.sent p = none
  step s a s' := s.next a = some s'

/-- A step in which nobody dies with messages in the queue or on the way, and what is sent is new
and stored with one who lives. -/
def Delivered (s : Post ι π μ) : PostOp ι π μ → Prop
  | .die _ p target => s.queue p = [] ∧ (∀ j q, s.telling j ≠ some (q, p)) ∧
      s.life target = .alive ∧ target ≠ p
  | .tell _ m stored => stored ∧ ∀ q, s.sent q ≠ some m
  | _ => True

/-- **Messages are kept**: only the living have messages in the queue or on the way; a messenger
brings the message of one who is dead; and a message that was sent is in one place. -/
structure Kept [DecidableEq μ] (s : Post ι π μ) : Prop where
  living : ∀ p, s.life p ≠ .alive → s.queue p = [] ∧ ∀ i q, s.telling i ≠ some (q, p)
  telling : ∀ i p target, s.telling i = some (p, target) → s.sent p = none ∧ s.life p = .dead
  alone : ∀ i j p a b, s.telling i = some (p, a) → s.telling j = some (p, b) → i = j
  sound : ∀ m, (m ∈ s.taken ∨ ∃ q, m ∈ s.queue q) → ∃ p, s.sent p = some m
  located : ∀ p m, s.sent p = some m → s.Located m
  dead : ∀ p m, s.sent p = some m → s.life p = .dead
  complete : ∀ p, s.life p = .dead →
    (∃ m, s.sent p = some m) ∨ ∃ i target, s.telling i = some (p, target)

variable [DecidableEq ι] [DecidableEq π] [DecidableEq μ] {s s' : Post ι π μ} {i : ι} {p target : π}
  {m : μ} {q : List μ}

omit [DecidableEq ι] in
/-- Someone new. -/
lemma Kept.register (h : Kept s) (hp : s.life p = .absent) :
    Kept { s with life := Function.update s.life p .alive } := by
  have hdead : ∀ r, Function.update s.life p .alive r = .dead ↔ s.life r = .dead := by
    intro r
    by_cases hr : r = p
    · subst hr
      rw [Function.update_self, hp]
      exact ⟨nofun, nofun⟩
    · rw [Function.update_of_ne hr]
  have halive : ∀ r, s.life r = .alive → Function.update s.life p .alive r = .alive := by
    intro r hr
    by_cases hrp : r = p
    · rw [hrp, Function.update_self]
    · rw [Function.update_of_ne hrp, hr]
  refine ⟨fun r hr => ?_, fun i r target hi => ?_, h.alone, h.sound, fun r m hm => ?_,
    fun r m hm => (hdead r).mpr (h.dead r m hm), fun r hr => h.complete r ((hdead r).mp hr)⟩
  · exact h.living r fun hl => hr (halive r hl)
  · obtain ⟨hsent, hlife⟩ := h.telling i r target hi
    exact ⟨hsent, (hdead r).mpr hlife⟩
  · rcases h.located r m hm with hl | ⟨hnot, q, hq, hcount, hother⟩
    · exact .inl hl
    · exact .inr ⟨hnot, q, halive q hq, hcount, hother⟩

/-- **Someone dies** with an empty queue and no message on the way. -/
lemma Kept.die (h : Kept s) (hp : s.life p = .alive) (hi : s.telling i = none)
    (hqueue : s.queue p = []) (hway : ∀ j r, s.telling j ≠ some (r, p))
    (htarget : s.life target = .alive) (hne : target ≠ p) :
    Kept { s with
      life := Function.update s.life p .dead
      telling := Function.update s.telling i (some (p, target)) } := by
  -- nobody tells of `p` yet, and nothing was sent for it, as it was alive
  have hnobody : ∀ j a, s.telling j ≠ some (p, a) := by
    intro j a hj
    have hdead := (h.telling j p a hj).2
    rw [hp] at hdead
    cases hdead
  have hsent : s.sent p = none := by
    by_contra hsent
    obtain ⟨m, hm⟩ := Option.ne_none_iff_exists'.mp hsent
    have hdead := h.dead p m hm
    rw [hp] at hdead
    cases hdead
  -- who tells what: `i` tells the target of `p`, and the others what they told before
  have htelling : ∀ j r a, Function.update s.telling i (some (p, target)) j = some (r, a) →
      j = i ∧ r = p ∧ a = target ∨ j ≠ i ∧ s.telling j = some (r, a) := by
    intro j r a hj
    by_cases hji : j = i
    · subst hji
      rw [Function.update_self, Option.some.injEq, Prod.mk.injEq] at hj
      exact .inl ⟨rfl, hj.1.symm, hj.2.symm⟩
    · rw [Function.update_of_ne hji] at hj
      exact .inr ⟨hji, hj⟩
  refine ⟨fun r hr => ?_, fun j r a hj => ?_, fun j k r a b hj hk => ?_, h.sound, fun r m hm => ?_,
    fun r m hm => ?_, fun r hr => ?_⟩
  -- `living`: the queue of `p` is empty and nothing is on its way to it
  · have hlife : r = p ∨ s.life r ≠ .alive := by
      by_cases hrp : r = p
      · exact .inl hrp
      · change Function.update s.life p .dead r ≠ .alive at hr
        rw [Function.update_of_ne hrp] at hr
        exact .inr hr
    rcases hlife with rfl | hlife
    · refine ⟨hqueue, fun j a hj => ?_⟩
      rcases htelling j a r hj with ⟨-, -, heq⟩ | ⟨-, hj⟩
      · exact hne heq.symm
      · exact hway j a hj
    · obtain ⟨hnil, hnone⟩ := h.living r hlife
      refine ⟨hnil, fun j a hj => ?_⟩
      rcases htelling j a r hj with ⟨-, -, rfl⟩ | ⟨-, hj⟩
      · exact hlife htarget
      · exact hnone j a hj
  -- `telling`
  · change s.sent r = none ∧ Function.update s.life p .dead r = .dead
    rcases htelling j r a hj with ⟨-, rfl, -⟩ | ⟨-, hold⟩
    · exact ⟨hsent, Function.update_self ..⟩
    · obtain ⟨hnone, hdead⟩ := h.telling j r a hold
      refine ⟨hnone, ?_⟩
      have hrp : r ≠ p := by
        rintro rfl
        exact hnobody j a hold
      rw [Function.update_of_ne hrp, hdead]
  -- `alone`
  · rcases htelling j r a hj with ⟨rfl, rfl, -⟩ | ⟨-, hold⟩
    · rcases htelling k r b hk with ⟨rfl, -, -⟩ | ⟨-, hold'⟩
      · rfl
      · exact absurd hold' (hnobody k b)
    · rcases htelling k r b hk with ⟨-, rfl, -⟩ | ⟨-, hold'⟩
      · exact absurd hold (hnobody j a)
      · exact h.alone j k r a b hold hold'
  -- `located`: a message in a queue is in that of a live process, which is not `p`
  · rcases h.located r m hm with hl | ⟨hnot, q, hq, hcount, hother⟩
    · exact .inl hl
    · refine .inr ⟨hnot, q, ?_, hcount, hother⟩
      have hqp : q ≠ p := by
        rintro rfl
        rw [hqueue, List.count_nil] at hcount
        cases hcount
      exact (Function.update_of_ne hqp ..).trans hq
  -- `dead`
  · have hrp : r ≠ p := by
      rintro rfl
      rw [hsent] at hm
      cases hm
    exact (Function.update_of_ne hrp ..).trans (h.dead r m hm)
  · by_cases hrp : r = p
    · subst hrp
      exact .inr ⟨i, target, Function.update_self ..⟩
    · change Function.update s.life p .dead r = .dead at hr
      rw [Function.update_of_ne hrp] at hr
      rcases h.complete r hr with hm | ⟨j, a, hj⟩
      · exact .inl hm
      · have hji : j ≠ i := by
          rintro rfl
          rw [hi] at hj
          cases hj
        exact .inr ⟨j, a, (Function.update_of_ne hji ..).trans hj⟩

omit [DecidableEq ι] [DecidableEq μ] in
/-- A message more in a queue. -/
lemma mem_stored {r : π} {m' : μ} :
    m' ∈ Function.update s.queue target (s.queue target ++ [m]) r ↔
      m' ∈ s.queue r ∨ r = target ∧ m' = m := by
  by_cases hr : r = target
  · subst hr
    rw [Function.update_self, List.mem_append, List.mem_singleton]
    exact or_congr_right ⟨fun heq => ⟨rfl, heq⟩, And.right⟩
  · rw [Function.update_of_ne hr]
    exact ⟨.inl, fun hmem => hmem.resolve_right fun heq => hr heq.1⟩

/-- **The messenger tells** one who lives, and the message is stored. -/
lemma Kept.tell (h : Kept s) (hi : s.telling i = some (p, target))
    (hnew : ∀ q, s.sent q ≠ some m) :
    Kept { s with
      queue := Function.update s.queue target (s.queue target ++ [m])
      telling := Function.update s.telling i none
      sent := Function.update s.sent p (some m) } := by
  obtain ⟨hsent, hdead⟩ := h.telling i p target hi
  -- a process that is not alive has nothing on its way to it
  have halive : s.life target = .alive := by
    by_contra hlife
    exact (h.living target hlife).2 i p hi
  -- the others are telling what they told before
  have htelling : ∀ j a, Function.update s.telling i none j = some a →
      j ≠ i ∧ s.telling j = some a := by
    intro j a hj
    by_cases hji : j = i
    · subst hji
      rw [Function.update_self] at hj
      cases hj
    · rw [Function.update_of_ne hji] at hj
      exact ⟨hji, hj⟩
  -- a new status is stored nowhere yet
  have hnowhere : m ∉ s.taken ∧ ∀ q, m ∉ s.queue q := by
    refine ⟨fun hmem => ?_, fun q hmem => ?_⟩
    · obtain ⟨r, hr⟩ := h.sound m (.inl hmem)
      exact hnew r hr
    · obtain ⟨r, hr⟩ := h.sound m (.inr ⟨q, hmem⟩)
      exact hnew r hr
  refine ⟨fun r hr => ?_, fun j r a hj => ?_, fun j k r a b hj hk => ?_, fun m' hm' => ?_,
    fun r m' hm' => ?_, fun r m' hm' => ?_, fun r hr => ?_⟩
  · obtain ⟨hnil, hnone⟩ := h.living r hr
    have hrt : r ≠ target := by
      rintro rfl
      exact hr halive
    refine ⟨(Function.update_of_ne hrt ..).trans hnil, fun j a hj => ?_⟩
    exact hnone j a (htelling j _ hj).2
  · obtain ⟨hji, hold⟩ := htelling j _ hj
    obtain ⟨hnone, hlife⟩ := h.telling j r a hold
    have hrp : r ≠ p := by
      rintro rfl
      exact hji (h.alone j i r a target hold hi)
    exact ⟨(Function.update_of_ne hrp ..).trans hnone, hlife⟩
  · exact h.alone j k r a b (htelling j _ hj).2 (htelling k _ hk).2
  · have hcases : m' = m ∨ (m' ∈ s.taken ∨ ∃ q, m' ∈ s.queue q) := by
      rcases hm' with hmem | ⟨q, hmem⟩
      · exact .inr (.inl hmem)
      · rcases mem_stored.mp hmem with hmem | ⟨-, heq⟩
        · exact .inr (.inr ⟨q, hmem⟩)
        · exact .inl heq
    rcases hcases with rfl | hold
    · exact ⟨p, Function.update_self ..⟩
    · obtain ⟨r, hr⟩ := h.sound m' hold
      have hrp : r ≠ p := by
        rintro rfl
        rw [hsent] at hr
        cases hr
      exact ⟨r, (Function.update_of_ne hrp ..).trans hr⟩
  -- where the status of `r` is: that of `p` is now in the queue of the target, once
  · by_cases hrp : r = p
    · subst hrp
      change Function.update s.sent r (some m) r = some m' at hm'
      rw [Function.update_self, Option.some.injEq] at hm'
      subst hm'
      refine .inr ⟨hnowhere.1, target, halive, ?_, fun q' hmem => ?_⟩
      · change (Function.update s.queue target (s.queue target ++ [m]) target).count m = 1
        rw [Function.update_self, List.count_append, List.count_singleton_self,
          List.count_eq_zero.mpr (hnowhere.2 target)]
      · rcases mem_stored.mp hmem with hmem | ⟨heq, -⟩
        · exact absurd hmem (hnowhere.2 q')
        · exact heq
    · change Function.update s.sent p (some m) r = some m' at hm'
      rw [Function.update_of_ne hrp] at hm'
      have hne : m' ≠ m := by
        rintro rfl
        exact hnew r hm'
      have hmem (q : π) : m' ∈ Function.update s.queue target (s.queue target ++ [m]) q ↔
          m' ∈ s.queue q := mem_stored.trans (or_iff_left fun heq => hne heq.2)
      rcases h.located r m' hm' with ⟨hcount, hnone⟩ | ⟨hnot, q, hq, hcount, hother⟩
      · exact .inl ⟨hcount, fun q hq => hnone q ((hmem q).mp hq)⟩
      · refine .inr ⟨hnot, q, hq, ?_, fun q' hq' => hother q' ((hmem q').mp hq')⟩
        by_cases hqt : q = target
        · subst hqt
          change (Function.update s.queue q (s.queue q ++ [m]) q).count m' = 1
          rw [Function.update_self, List.count_append, List.count_singleton, hcount]
          simp only [beq_iff_eq, hne.symm, if_false]
        · exact (congrArg (List.count m') (Function.update_of_ne hqt ..)).trans hcount
  · by_cases hrp : r = p
    · rw [hrp]
      exact hdead
    · change Function.update s.sent p (some m) r = some m' at hm'
      rw [Function.update_of_ne hrp] at hm'
      exact h.dead r m' hm'
  · by_cases hrp : r = p
    · rw [hrp]
      exact .inl ⟨m, Function.update_self ..⟩
    · rcases h.complete r hr with ⟨m', hm'⟩ | ⟨j, a, hj⟩
      · exact .inl ⟨m', (Function.update_of_ne hrp ..).trans hm'⟩
      · have hji : j ≠ i := by
          rintro rfl
          rw [hi, Option.some.injEq, Prod.mk.injEq] at hj
          exact hrp hj.1.symm
        exact .inr ⟨j, a, (Function.update_of_ne hji ..).trans hj⟩

omit [DecidableEq ι] in
/-- **A message is taken** from a queue. -/
lemma Kept.take (h : Kept s) (hp : s.queue p = m :: q) :
    Kept { s with queue := Function.update s.queue p q, taken := s.taken ++ [m] } := by
  have hmem (r : π) (m' : μ) (hm' : m' ∈ Function.update s.queue p q r) : m' ∈ s.queue r := by
    by_cases hr : r = p
    · subst hr
      rw [Function.update_self] at hm'
      rw [hp]
      exact .tail m hm'
    · rwa [Function.update_of_ne hr] at hm'
  -- only a process that lives has messages in its queue
  have halive : s.life p = .alive := by
    by_contra hlife
    rw [(h.living p hlife).1] at hp
    cases hp
  refine ⟨fun r hr => ?_, h.telling, h.alone, fun m' hm' => ?_, fun r m' hm' => ?_, h.dead,
    h.complete⟩
  · have hrp : r ≠ p := by
      rintro rfl
      exact hr halive
    exact ⟨(Function.update_of_ne hrp ..).trans (h.living r hr).1, (h.living r hr).2⟩
  -- `sound`: what is taken was in the queue
  · refine h.sound m' ?_
    rcases hm' with hm' | ⟨r, hm'⟩
    · rcases List.mem_append.mp hm' with hm' | hm'
      · exact .inl hm'
      · rw [List.mem_singleton] at hm'
        subst hm'
        refine .inr ⟨p, ?_⟩
        rw [hp]
        exact .head q
    · exact .inr ⟨r, hmem r m' hm'⟩
  -- `located`: the message that is taken was in the queue once, and nowhere else
  · have hlocated := h.located r m' hm'
    by_cases hm : m' = m
    · subst hm
      have hhead : m' ∈ s.queue p := by
        rw [hp]
        exact .head q
      rcases hlocated with ⟨-, hnone⟩ | ⟨hnot, q₀, -, hcount, hother⟩
      · exact absurd hhead (hnone p)
      · cases hother p hhead
        rw [hp, List.count_cons_self, Nat.add_eq_right, List.count_eq_zero] at hcount
        left
        refine ⟨?_, fun r' hr' => ?_⟩
        · change (s.taken ++ [m']).count m' = 1
          rw [List.count_append, List.count_singleton_self, List.count_eq_zero.mpr hnot]
        · have hr'p := hother r' (hmem r' m' hr')
          subst hr'p
          change m' ∈ Function.update s.queue r' q r' at hr'
          rw [Function.update_self] at hr'
          exact hcount hr'
    -- another message is where it was
    · have htaken : (s.taken ++ [m]).count m' = s.taken.count m' := by
        rw [List.count_append, List.count_singleton]
        simp only [beq_iff_eq, Ne.symm hm, if_false, add_zero]
      rcases hlocated with ⟨hcount, hnone⟩ | ⟨hnot, q₀, hq₀, hcount, hother⟩
      · exact .inl ⟨htaken.trans hcount, fun r' hr' => hnone r' (hmem r' m' hr')⟩
      · refine .inr ⟨?_, q₀, hq₀, ?_, fun r' hr' => hother r' (hmem r' m' hr')⟩
        · rw [List.mem_append, List.mem_singleton]
          exact fun hor => hor.elim hnot hm
        · by_cases hqp : q₀ = p
          · subst hqp
            change (Function.update s.queue q₀ q q₀).count m' = 1
            rw [Function.update_self]
            rw [hp, List.count_cons_of_ne (Ne.symm hm)] at hcount
            exact hcount
          · exact (congrArg (List.count m') (Function.update_of_ne hqp ..)).trans hcount

/-- **A step** with the condition keeps the messages. -/
lemma kept_step (h : Kept s) {a : PostOp ι π μ} (hdelivered : Delivered s a)
    (hstep : s.next a = some s') : Kept s' := by
  cases a with
  | register p =>
      obtain ⟨hp, heq⟩ := Option.ite_none_right_eq_some.mp hstep
      cases heq
      exact h.register hp
  | die i p target =>
      obtain ⟨⟨hp, hi⟩, heq⟩ := Option.ite_none_right_eq_some.mp hstep
      cases heq
      obtain ⟨hqueue, hway, htarget, hne⟩ := hdelivered
      exact h.die hp hi hqueue hway htarget hne
  | tell i m stored =>
      obtain ⟨hstored, hnew⟩ := hdelivered
      simp only [Post.next] at hstep
      split at hstep
      · next p target hi =>
          cases hstep
          simp only [hstored, if_true]
          exact h.tell hi hnew
      · cases hstep
  | take p =>
      simp only [Post.next] at hstep
      split at hstep
      · next m q hp =>
          cases hstep
          exact h.take hp
      · cases hstep

lemma kept_of_reach (h : (post ι π μ).Reach Delivered s) : Kept s := by
  refine Machine.Reach.inv ?_ ?_ h
  · rintro s ⟨hlife, hqueue, htelling, htaken, hsent⟩
    refine ⟨fun p _ => ⟨hqueue p, fun i q hi => ?_⟩, fun i p target hi => ?_,
      fun i j p a b hi _ => ?_, fun m hm => ?_, fun p m hm => ?_, fun p m hm => ?_,
      fun p hp => absurd hp (hlife p)⟩
    · rw [htelling i] at hi
      cases hi
    · rw [htelling i] at hi
      cases hi
    · rw [htelling i] at hi
      cases hi
    · rcases hm with hm | ⟨q, hm⟩
      · rw [htaken] at hm
        cases hm
      · rw [hqueue q] at hm
        cases hm
    · rw [hsent p] at hm
      cases hm
    · rw [hsent p] at hm
      cases hm
  · exact fun s a s' hs hdelivered hstep => kept_step hs hdelivered hstep

/-- **A message that was sent** is in one place. -/
theorem located_of_sent (h : (post ι π μ).Reach Delivered s) (hm : s.sent p = some m) :
    s.Located m := (kept_of_reach h).located p m hm

/-- **Who is dead** has sent a message, or a messenger brings it. -/
theorem sent_of_dead (h : (post ι π μ).Reach Delivered s) (hp : s.life p = .dead) :
    (∃ m, s.sent p = some m) ∨ ∃ i target, s.telling i = some (p, target) :=
  (kept_of_reach h).complete p hp

end Kit
