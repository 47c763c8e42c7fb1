/-
Doubly linked lists in memory.

* `Seg`: the nodes of a list are linked one after the other, from a predecessor to a
  successor; `Seg.append`, `Seg.reenter`, `Seg.reexit`: cutting a segment and changing
  what it is linked to;
* `IsDList`: a list with its head, tail and size;
* `Met`: the nodes that are met from a pointer by following one of the links;
  `IsDList.iff_met`: **a list is well formed iff the nodes met from its tail backwards are those
  met from its head, in reverse**;
* `IsDList.pushBack`, `IsDList.pushFront`, `IsDList.insert`, `IsDList.unlink`,
  `IsDList.popFront`, `IsDList.popBack`, `IsDList.rotate`: **what the usual operations on the
  links do to the list**.

The links are two functions from nodes to nodes. The new links of an operation are
given point by point, as an implementation writes them.
-/
import Mathlib.Tactic

namespace Kit

variable {P : Type}

/-! ### Segments -/

/-- The nodes of the list are linked one after the other; `p` is before the first one
and `q` after the last one. -/
def Seg (next prev : P → Option P) : Option P → List P → Option P → Prop
  | _, [], _ => True
  | p, a :: l, q => prev a = p ∧ next a = l.head?.or q ∧ Seg next prev (some a) l q

namespace Seg

variable {next prev next' prev' : P → Option P} {p q p' q' : Option P} {l l' l₁ l₂ : List P} {a : P}

lemma cons_iff : Seg next prev p (a :: l) q ↔
    prev a = p ∧ next a = l.head?.or q ∧ Seg next prev (some a) l q := Iff.rfl

/-- A segment that is cut in two. -/
lemma append : Seg next prev p (l₁ ++ l₂) q ↔
    Seg next prev p l₁ (l₂.head?.or q) ∧ Seg next prev (l₁.getLast?.or p) l₂ q := by
  induction l₁ generalizing p with
  | nil => simp [Seg]
  | cons a l ih =>
      rw [List.cons_append, cons_iff, cons_iff, ih]
      have hhead : (l ++ l₂).head?.or q = l.head?.or (l₂.head?.or q) := by
        cases l <;> simp
      have hlast : (a :: l).getLast?.or p = l.getLast?.or (some a) := by
        cases h : l.getLast? with
        | none => simp [List.getLast?_eq_none_iff.mp h]
        | some b => simp [List.getLast?_cons, h]
      rw [hhead, hlast]
      tauto

/-- Links outside a segment do not matter to it. -/
lemma congr (h : Seg next prev p l q) (hn : ∀ b ∈ l, next' b = next b)
    (hp : ∀ b ∈ l, prev' b = prev b) : Seg next' prev' p l q := by
  induction l generalizing p with
  | nil => trivial
  | cons a l ih =>
      obtain ⟨h1, h2, h3⟩ := h
      refine ⟨(hp a (.head l)).trans h1, (hn a (.head l)).trans h2, ih h3 ?_ ?_⟩
      · exact fun b hb => hn b (.tail a hb)
      · exact fun b hb => hp b (.tail a hb)

/-- The links lead through one list only. -/
lemma unique (h : Seg next prev p l none) (h' : Seg next prev p' l' none)
    (hhead : l.head? = l'.head?) : l = l' := by
  induction l generalizing p p' l' with
  | nil => exact (List.head?_eq_none_iff.mp hhead.symm).symm
  | cons a l ih =>
      obtain ⟨l'', rfl⟩ := List.head?_eq_some_iff.mp hhead.symm
      obtain ⟨-, hnext, hrest⟩ := h
      obtain ⟨-, hnext', hrest'⟩ := h'
      rw [Option.or_none] at hnext hnext'
      rw [ih hrest hrest' (hnext.symm.trans hnext')]

variable [DecidableEq P]

/-- What is before a segment changes. -/
lemma reenter (h : Seg next prev p l q) (hnd : l.Nodup) (hn : ∀ b ∈ l, next' b = next b)
    (hp : ∀ b ∈ l, prev' b = if l.head? = some b then p' else prev b) :
    Seg next' prev' p' l q := by
  cases l with
  | nil => trivial
  | cons a l =>
      obtain ⟨-, h2, h3⟩ := h
      refine ⟨by simpa using hp a (.head l), (hn a (.head l)).trans h2, h3.congr ?_ ?_⟩
      · exact fun b hb => hn b (.tail a hb)
      · intro b hb
        have hne : a ≠ b := fun heq => (List.nodup_cons.mp hnd).1 (heq ▸ hb)
        simpa [hne] using hp b (.tail a hb)

/-- What is after a segment changes. -/
lemma reexit (h : Seg next prev p l q) (hnd : l.Nodup)
    (hn : ∀ b ∈ l, next' b = if l.getLast? = some b then q' else next b)
    (hp : ∀ b ∈ l, prev' b = prev b) : Seg next' prev' p l q' := by
  induction l generalizing p with
  | nil => trivial
  | cons a l ih =>
      obtain ⟨h1, h2, h3⟩ := h
      obtain ⟨ha, hnd'⟩ := List.nodup_cons.mp hnd
      refine ⟨(hp a (.head l)).trans h1, ?_, ih h3 hnd' ?_ fun b hb => hp b (.tail a hb)⟩
      · cases l with
        | nil => simpa using hn a (.head _)
        | cons b l =>
            have hlast : (a :: b :: l).getLast? ≠ some a := by
              rw [List.getLast?_cons_cons]
              exact fun heq => ha (List.mem_of_getLast? heq)
            rw [hn a (.head _), if_neg hlast, h2]
            simp
      · intro b hb
        rw [hn b (.tail a hb)]
        cases l with
        | nil => simp at hb
        | cons c l => rw [List.getLast?_cons_cons]

end Seg

/-! ### Walks -/

/-- The nodes that are met from a pointer by following the links, up to a link to nothing. -/
inductive Met (link : P → Option P) : Option P → List P → Prop where
  | nil : Met link none []
  | cons {a : P} {l : List P} : Met link (link a) l → Met link (some a) (a :: l)

namespace Met

variable {link : P → Option P} {p : Option P} {l l' l₁ l₂ : List P} {a : P}

/-- The links lead to one list of nodes only. -/
lemma unique (h : Met link p l) (h' : Met link p l') : l = l' := by
  induction h generalizing l' with
  | nil =>
      cases h'
      rfl
  | cons _ ih =>
      cases h' with
      | cons h' => rw [ih h']

/-- A walk starts at the first node it meets. -/
lemma head_eq (h : Met link p l) : p = l.head? := by
  cases h <;> rfl

/-- A walk goes on from each node it meets. -/
lemma drop (h : Met link p (l₁ ++ l₂)) : Met link l₂.head? l₂ := by
  induction l₁ generalizing p with
  | nil => exact h.head_eq ▸ h
  | cons a l₁ ih =>
      cases h with
      | cons h => exact ih h

/-- The link of a node that is met leads to the next one. -/
lemma link_eq (h : Met link p (l₁ ++ a :: l₂)) : link a = l₂.head? := by
  cases h.drop with
  | cons h => exact h.head_eq

/-- So does that of the first node. -/
lemma first_eq (h : Met link p (a :: l)) : link a = l.head? := by
  cases h with
  | cons h => exact h.head_eq

lemma tail (h : Met link p (a :: l)) : Met link l.head? l := by
  cases h with
  | cons h => exact h.head_eq ▸ h

/-- Links of other nodes do not matter to a walk. -/
lemma congr {link' : P → Option P} (h : Met link p l) (hlink : ∀ n ∈ l, link' n = link n) :
    Met link' p l := by
  induction h with
  | nil => exact .nil
  | cons _ ih =>
      refine .cons ?_
      rw [hlink _ (.head _)]
      exact ih fun n hn => hlink n (.tail _ hn)

/-- A node is linked behind the last one. -/
lemma push [DecidableEq P] {link' : P → Option P} (h : Met link p l) {n : P} (hn : link' n = none)
    (hlink : ∀ m ∈ l, link' m = if l.getLast? = some m then some n else link m)
    (hnd : l.Nodup) : Met link' (p.or (some n)) (l ++ [n]) := by
  induction h with
  | nil => exact .cons (hn ▸ .nil)
  | @cons a l hw ih =>
      obtain ⟨ha, hnd'⟩ := List.nodup_cons.mp hnd
      refine .cons ?_
      rw [hlink a (.head l)]
      cases l with
      | nil =>
          rw [if_pos List.getLast?_singleton]
          exact .cons (hn ▸ .nil)
      | cons b l =>
          have hlast : (a :: b :: l).getLast? ≠ some a := by
            rw [List.getLast?_cons_cons]
            exact fun heq => ha (List.mem_of_getLast? heq)
          have hrest := ih (fun m hm => by
            rw [hlink m (.tail a hm), List.getLast?_cons_cons]) hnd'
          rw [if_neg hlast]
          rwa [hw.head_eq] at hrest ⊢

/-- The node behind another one is unlinked. -/
lemma bypass {link' : P → Option P} {b : P} (h : Met link p (l₁ ++ a :: b :: l₂))
    (ha : link' a = link b) (hlink : ∀ n ∈ l₁ ++ l₂, link' n = link n) :
    Met link' p (l₁ ++ a :: l₂) := by
  induction l₁ generalizing p with
  | nil =>
      cases h with
      | cons h =>
          have hb := h.head_eq
          rw [hb] at h
          cases h with
          | cons h => exact .cons (ha ▸ h.congr fun n hn => hlink n hn)
  | cons c l₁ ih =>
      cases h with
      | cons h =>
          refine .cons ?_
          rw [hlink c (.head _)]
          exact ih h fun n hn => hlink n (.tail c hn)

/-- A walk that ends meets no node twice. -/
lemma nodup (h : Met link p l) : l.Nodup := by
  induction h with
  | nil => exact List.nodup_nil
  | @cons a l hw ih =>
      refine List.nodup_cons.mpr ⟨fun ha => ?_, ih⟩
      obtain ⟨l₁, l₂, hl⟩ := List.append_of_mem ha
      have hagain : Met link (some a) (a :: l₂) := (hl ▸ hw).drop
      have hlen := congrArg List.length (Met.unique hagain (.cons hw))
      rw [hl] at hlen
      simp only [List.length_cons, List.length_append] at hlen
      omega

end Met

/-- A segment is met forwards. -/
lemma Seg.met_next {next prev : P → Option P} {p : Option P} {l : List P}
    (h : Seg next prev p l none) : Met next l.head? l := by
  induction l generalizing p with
  | nil => exact .nil
  | cons a l ih =>
      obtain ⟨-, hnext, hrest⟩ := h
      refine .cons ?_
      rw [hnext, Option.or_none]
      exact ih hrest

/-- A segment is met backwards, and then what is before it. -/
lemma Seg.met_prev {next prev : P → Option P} {p q : Option P} {l m : List P}
    (h : Seg next prev p l q) (hm : Met prev p m) :
    Met prev (l.getLast?.or p) (l.reverse ++ m) := by
  induction l generalizing p m with
  | nil => simpa using hm
  | cons a l ih =>
      obtain ⟨hprev, -, hrest⟩ := h
      have hlast : (a :: l).getLast?.or p = l.getLast?.or (some a) := by
        cases hl : l.getLast? with
        | none => simp [List.getLast?_eq_none_iff.mp hl]
        | some b => simp [List.getLast?_cons, hl]
      rw [hlast, List.reverse_cons, List.append_assoc]
      exact ih hrest (.cons (hprev ▸ hm))

/-- Nodes that are linked to their neighbours make a segment. -/
lemma Seg.of_links {next prev : P → Option P} {p q : Option P} {l : List P}
    (h : ∀ l₁ a l₂, l = l₁ ++ a :: l₂ →
      prev a = l₁.getLast?.or p ∧ next a = l₂.head?.or q) : Seg next prev p l q := by
  induction l generalizing p with
  | nil => trivial
  | cons a l ih =>
      obtain ⟨hprev, hnext⟩ := h [] a l rfl
      refine ⟨hprev, hnext, ih fun l₁ b l₂ hl => ?_⟩
      obtain ⟨hprev', hnext'⟩ := h (a :: l₁) b l₂ (by rw [hl, List.cons_append])
      refine ⟨?_, hnext'⟩
      rw [hprev']
      cases hl₁ : l₁.getLast? with
      | none => simp [List.getLast?_eq_none_iff.mp hl₁]
      | some c => simp [List.getLast?_cons, hl₁]

/-! ### Lists -/

/-- The list with the given head, tail and size is made of the nodes of `l`. -/
structure IsDList (next prev : P → Option P) (head tail : Option P) (size : ℕ) (l : List P) :
    Prop where
  seg : Seg next prev none l none
  nodup : l.Nodup
  head_eq : head = l.head?
  tail_eq : tail = l.getLast?
  size_eq : size = l.length

namespace IsDList

variable {next prev next' prev' : P → Option P} {hd tl hd' tl' : Option P} {k : ℕ}
  {l l₁ l₂ : List P} {n : P}

/-- Links outside a list do not matter to it. -/
lemma congr (h : IsDList next prev hd tl k l) (hn : ∀ b ∈ l, next' b = next b)
    (hp : ∀ b ∈ l, prev' b = prev b) : IsDList next' prev' hd tl k l :=
  ⟨h.seg.congr hn hp, h.nodup, h.head_eq, h.tail_eq, h.size_eq⟩

/-- The head and the links determine the list. -/
lemma unique {k' : ℕ} {l' : List P} (h : IsDList next prev hd tl k l)
    (h' : IsDList next prev hd tl' k' l') : l = l' :=
  h.seg.unique h'.seg (h.head_eq.symm.trans h'.head_eq)

/-- The links of a node of the list. -/
lemma links (h : IsDList next prev hd tl k (l₁ ++ n :: l₂)) :
    prev n = l₁.getLast? ∧ next n = l₂.head? := by
  obtain ⟨-, h1, h2, -⟩ := Seg.append.mp h.seg
  exact ⟨by simpa using h1, by simpa using h2⟩

/-- Nothing is after the tail. -/
lemma next_tail (h : IsDList next prev hd tl k l) (ht : tl = some n) : next n = none := by
  rw [h.tail_eq, List.getLast?_eq_some_iff] at ht
  obtain ⟨l', rfl⟩ := ht
  exact h.links.2

/-- Nothing is before the head. -/
lemma prev_head (h : IsDList next prev hd tl k l) (hh : hd = some n) : prev n = none := by
  rw [h.head_eq, List.head?_eq_some_iff] at hh
  obtain ⟨l', rfl⟩ := hh
  exact h.seg.1

/-- The neighbours of a node are on the list. -/
lemma next_mem (h : IsDList next prev hd tl k l) (hn : n ∈ l) {m : P} (hm : next n = some m) :
    m ∈ l := by
  obtain ⟨l₁, l₂, rfl⟩ := List.append_of_mem hn
  rw [h.links.2] at hm
  exact List.mem_append_right _ (.tail _ (List.mem_of_head? hm))

lemma prev_mem (h : IsDList next prev hd tl k l) (hn : n ∈ l) {m : P} (hm : prev n = some m) :
    m ∈ l := by
  obtain ⟨l₁, l₂, rfl⟩ := List.append_of_mem hn
  rw [h.links.1] at hm
  exact List.mem_append_left _ (List.mem_of_getLast? hm)

/-- **A list is well formed iff** it is met forwards from its head and, in reverse, backwards
from its tail, and its size is their number. -/
theorem iff_met : IsDList next prev hd tl k l ↔
    Met next hd l ∧ Met prev tl l.reverse ∧ k = l.length := by
  constructor
  · intro h
    refine ⟨h.head_eq ▸ h.seg.met_next, ?_, h.size_eq⟩
    have hback := h.seg.met_prev .nil
    rwa [Option.or_none, List.append_nil, ← h.tail_eq] at hback
  · rintro ⟨hnext, hprev, hsize⟩
    refine ⟨Seg.of_links fun l₁ a l₂ hl => ⟨?_, ?_⟩, hnext.nodup, hnext.head_eq, ?_, hsize⟩
    · have hrev : Met prev tl (l₂.reverse ++ a :: l₁.reverse) := by
        simpa [hl] using hprev
      rw [hrev.link_eq, List.head?_reverse, Option.or_none]
    · rw [hl] at hnext
      rw [hnext.link_eq, Option.or_none]
    · rw [hprev.head_eq, List.head?_reverse]

variable [DecidableEq P]

/-- **A detached node is linked at the end.** -/
theorem pushBack (h : IsDList next prev hd tl k l) (hnot : n ∉ l) (h0 : next n = none)
    (hn : ∀ b, next' b = if tl = some b then some n else next b)
    (hp : ∀ b, prev' b = if b = n then tl else prev b) :
    IsDList next' prev' (hd.or (some n)) (some n) (k + 1) (l ++ [n]) := by
  have htl : tl ≠ some n := by
    rw [h.tail_eq]
    exact fun heq => hnot (List.mem_of_getLast? heq)
  refine ⟨Seg.append.mpr ⟨h.seg.reexit h.nodup ?_ ?_, ?_⟩, ?_, ?_, ?_, ?_⟩
  · intro b _
    rw [hn, h.tail_eq]
    simp
  · intro b hb
    rw [hp, if_neg]
    rintro rfl
    exact hnot hb
  · refine ⟨?_, ?_, trivial⟩
    · rw [hp, if_pos rfl, h.tail_eq, Option.or_none]
    · rw [hn, if_neg htl, h0]
      rfl
  · exact List.nodup_append.mpr ⟨h.nodup, by simp, fun a ha b hb => by
      rw [List.mem_singleton] at hb
      rintro rfl
      exact hnot (hb ▸ ha)⟩
  · rw [h.head_eq]
    cases l <;> simp
  · simp
  · rw [h.size_eq, List.length_append, List.length_singleton]

/-- **A detached node is linked at the front** of a list that is not empty. -/
theorem pushFront (h : IsDList next prev hd tl k l) (hne : l ≠ []) (hnot : n ∉ l)
    (h0 : prev n = none) (hn : ∀ b, next' b = if b = n then hd else next b)
    (hp : ∀ b, prev' b = if hd = some b then some n else prev b) :
    IsDList next' prev' (some n) tl (k + 1) (n :: l) := by
  have hhd : hd ≠ some n := by
    rw [h.head_eq]
    exact fun heq => hnot (List.mem_of_head? heq)
  refine ⟨⟨?_, ?_, h.seg.reenter h.nodup ?_ ?_⟩, ?_, rfl, ?_, ?_⟩
  · rw [hp, if_neg hhd, h0]
  · rw [hn, if_pos rfl, h.head_eq, Option.or_none]
  · intro b hb
    rw [hn, if_neg]
    rintro rfl
    exact hnot hb
  · intro b _
    rw [hp, h.head_eq]
  · exact List.nodup_cons.mpr ⟨hnot, h.nodup⟩
  · rw [h.tail_eq]
    cases l with
    | nil => exact absurd rfl hne
    | cons a l => rw [List.getLast?_cons_cons]
  · rw [h.size_eq, List.length_cons]

/-- **A detached node is linked between two neighbours.** -/
theorem insert {c d : P} (h : IsDList next prev hd tl k (l₁ ++ c :: d :: l₂))
    (hnot : n ∉ l₁ ++ c :: d :: l₂)
    (hn : ∀ b, next' b = if b = c then some n else if b = n then some d else next b)
    (hp : ∀ b, prev' b = if b = n then some c else if b = d then some n else prev b) :
    IsDList next' prev' hd tl (k + 1) (l₁ ++ c :: n :: d :: l₂) := by
  have hnd := h.nodup
  simp only [List.mem_append, List.mem_cons, not_or] at hnot
  obtain ⟨hn₁, hnc, hnd', hn₂⟩ := hnot
  simp only [List.nodup_append, List.nodup_cons, List.mem_cons, not_or] at hnd
  obtain ⟨hnd₁, ⟨⟨hcd, hc₂⟩, hd₂, hnd₂⟩, hdis⟩ := hnd
  have hc₁ : c ∉ l₁ := fun hc => hdis c hc c (.inl rfl) rfl
  have hd₁ : d ∉ l₁ := fun hd => hdis d hd d (.inr (.inl rfl)) rfl
  obtain ⟨hs₁, hpc, -, hpd, hnd', hs₂⟩ := Seg.append.mp h.seg
  refine ⟨Seg.append.mpr ⟨hs₁.congr ?_ ?_, ?_, ?_, ?_, ?_, ?_, ?_, hs₂.congr ?_ ?_⟩, ?_, ?_, ?_, ?_⟩
  · intro b hb
    rw [hn, if_neg (ne_of_mem_of_not_mem hb hc₁), if_neg (ne_of_mem_of_not_mem hb hn₁)]
  · intro b hb
    rw [hp, if_neg (ne_of_mem_of_not_mem hb hn₁), if_neg (ne_of_mem_of_not_mem hb hd₁)]
  · rw [hp, if_neg (Ne.symm hnc), if_neg hcd, hpc]
  · rw [hn, if_pos rfl]
    rfl
  · rw [hp, if_pos rfl]
  · rw [hn, if_neg hnc, if_pos rfl]
    rfl
  · rw [hp, if_neg (Ne.symm (by assumption)), if_pos rfl]
  · rw [hn, if_neg (Ne.symm hcd), if_neg (Ne.symm (by assumption)), hnd']
  · intro b hb
    rw [hn, if_neg (ne_of_mem_of_not_mem hb hc₂), if_neg (ne_of_mem_of_not_mem hb hn₂)]
  · intro b hb
    rw [hp, if_neg (ne_of_mem_of_not_mem hb hn₂), if_neg (ne_of_mem_of_not_mem hb hd₂)]
  · simp only [List.nodup_append, List.nodup_cons, List.mem_cons, not_or]
    refine ⟨hnd₁, ⟨⟨Ne.symm hnc, hcd, hc₂⟩, ⟨by assumption, hn₂⟩, hd₂, hnd₂⟩, ?_⟩
    rintro a ha b (rfl | rfl | hb)
    · exact hdis a ha b (.inl rfl)
    · rintro rfl
      exact hn₁ ha
    · exact hdis a ha b (.inr hb)
  · rw [h.head_eq]
    cases l₁ <;> simp
  · rw [h.tail_eq]
    simp [List.getLast?_append, List.getLast?_cons]
  · rw [h.size_eq]
    simp only [List.length_append, List.length_cons]
    omega

/-- **A node is unlinked.** -/
theorem unlink (h : IsDList next prev hd tl k (l₁ ++ n :: l₂))
    (hn : ∀ b, next' b = if b = n then none else if prev n = some b then next n else next b)
    (hp : ∀ b, prev' b = if b = n then none else if next n = some b then prev n else prev b)
    (hh : hd' = if hd = some n then next n else hd)
    (ht : tl' = if tl = some n then prev n else tl) :
    IsDList next' prev' hd' tl' (k - 1) (l₁ ++ l₂) := by
  obtain ⟨hpn, hnn⟩ := h.links
  obtain ⟨hs₁, -, -, hs₂⟩ := Seg.append.mp h.seg
  have hnd := h.nodup
  rw [List.nodup_middle, List.nodup_cons, List.mem_append, not_or] at hnd
  obtain ⟨⟨hn₁, hn₂⟩, hnd⟩ := hnd
  obtain ⟨hnd₁, hnd₂, hdis⟩ := List.nodup_append.mp hnd
  refine ⟨Seg.append.mpr ⟨hs₁.reexit hnd₁ ?_ ?_, hs₂.reenter hnd₂ ?_ ?_⟩, hnd, ?_, ?_, ?_⟩
  · intro b hb
    rw [hn, if_neg (ne_of_mem_of_not_mem hb hn₁), hpn, hnn, Option.or_none]
  · intro b hb
    have hne : next n ≠ some b := by
      rw [hnn]
      exact fun heq => hdis b hb b (List.mem_of_head? heq) rfl
    rw [hp, if_neg (ne_of_mem_of_not_mem hb hn₁), if_neg hne]
  · intro b hb
    have hne : prev n ≠ some b := by
      rw [hpn]
      exact fun heq => hdis b (List.mem_of_getLast? heq) b hb rfl
    rw [hn, if_neg (ne_of_mem_of_not_mem hb hn₂), if_neg hne]
  · intro b hb
    rw [hp, if_neg (ne_of_mem_of_not_mem hb hn₂), hpn, hnn, Option.or_none]
  · rw [hh, h.head_eq, hnn]
    cases l₁ with
    | nil => simp
    | cons a l =>
        have hne : a ≠ n := fun heq => hn₁ (heq ▸ .head l)
        simp [hne]
  · rw [ht, h.tail_eq, hpn]
    cases hl : l₂.getLast? with
    | none =>
        rw [List.getLast?_eq_none_iff] at hl
        simp [hl]
    | some b =>
        have hne : b ≠ n := fun heq => hn₂ (heq ▸ List.mem_of_getLast? hl)
        simp [List.getLast?_append, List.getLast?_cons, hl, hne]
  · rw [h.size_eq]
    simp only [List.length_append, List.length_cons]
    omega

/-- **The head is taken off.** -/
theorem popFront (h : IsDList next prev hd tl k (n :: l)) (hn : ∀ b ∈ l, next' b = next b)
    (hp : ∀ b ∈ l, prev' b = if l.head? = some b then none else prev b) :
    IsDList next' prev' l.head? l.getLast? (k - 1) l := by
  have hnd := (List.nodup_cons.mp h.nodup).2
  refine ⟨h.seg.2.2.reenter hnd hn hp, hnd, rfl, rfl, ?_⟩
  rw [h.size_eq, List.length_cons, Nat.add_sub_cancel]

/-- **The tail is taken off.** -/
theorem popBack (h : IsDList next prev hd tl k (l ++ [n]))
    (hn : ∀ b ∈ l, next' b = if l.getLast? = some b then none else next b)
    (hp : ∀ b ∈ l, prev' b = prev b) : IsDList next' prev' l.head? l.getLast? (k - 1) l := by
  have hnd := (List.nodup_append.mp h.nodup).1
  refine ⟨(Seg.append.mp h.seg).1.reexit hnd hn hp, hnd, rfl, rfl, ?_⟩
  rw [h.size_eq, List.length_append, List.length_singleton, Nat.add_sub_cancel]

/-- **The head becomes the tail.** -/
theorem rotate {a b : P} (h : IsDList next prev hd tl k (a :: b :: l))
    (hn : ∀ c, next' c = if tl = some c then some a else if c = a then none else next c)
    (hp : ∀ c, prev' c = if c = a then tl else if c = b then none else prev c) :
    IsDList next' prev' (some b) (some a) k (b :: l ++ [a]) := by
  obtain ⟨ha, hnd⟩ := List.nodup_cons.mp h.nodup
  have hab : a ≠ b := fun heq => ha (heq ▸ .head l)
  have htl : tl = (b :: l).getLast? := by rw [h.tail_eq, List.getLast?_cons_cons]
  have hta : tl ≠ some a := by
    rw [htl]
    exact fun heq => ha (List.mem_of_getLast? heq)
  obtain ⟨-, -, hs⟩ := h.seg
  have hmid : Seg next prev' none (b :: l) none := by
    refine hs.reenter hnd (fun _ _ => rfl) fun c hc => ?_
    rw [hp, if_neg (ne_of_mem_of_not_mem hc ha)]
    by_cases hcb : c = b
    · simp [hcb]
    · rw [if_neg hcb, if_neg (by simpa using Ne.symm hcb)]
  refine ⟨Seg.append.mpr ⟨hmid.reexit hnd ?_ fun _ _ => rfl, ?_, ?_, trivial⟩, ?_, ?_, ?_, ?_⟩
  · intro c hc
    rw [hn, htl, if_neg (ne_of_mem_of_not_mem hc ha)]
    rfl
  · rw [hp, if_pos rfl, htl, Option.or_none]
  · rw [hn, if_neg hta, if_pos rfl]
    rfl
  · refine List.nodup_append.mpr ⟨hnd, by simp, fun c hc d hd => ?_⟩
    rw [List.mem_singleton] at hd
    rintro rfl
    exact ha (hd ▸ hc)
  · rfl
  · rw [List.getLast?_append, List.getLast?_singleton, Option.some_or]
  · rw [h.size_eq]
    simp

end IsDList

end Kit
