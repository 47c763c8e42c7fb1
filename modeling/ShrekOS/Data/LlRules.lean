/-
What the operations on linked lists do to well formed lists.

* `IsLl`: a list is well formed and made of the given nodes; `Detached`: a node on no
  list; `Nodes.SameOff`: the frame of an operation;
* `llLinkNodeLast_spec`, `llUnlinkNode_spec`, `llRotate_spec`: **the operations append, take
  out and rotate**;
* `llLinkNodeSorted_inserts`: **a node is inserted in order**, for a comparison that is a
  preorder of the nodes; `llLinkNodeSorted_spec`: for one of keys.
-/
import ShrekOS.Lib.DList
import ShrekOS.Data.Ll

namespace ShrekOS

open Kit Kit.Cmd

/-! ### Weakest preconditions of the accesses -/

section

variable {s : LlState} {E : Fault → LlState → Prop} {Q : Unit → LlState → Prop} {n : Ptr}

/-- The address holds a node. -/
def LlState.Live (s : LlState) (n : Ptr) : Prop := (s.nodes.e n).isSome

@[simp] lemma wp_follow {Q : Ptr → LlState → Prop} (p : Ptr) :
    wp (follow (some p)) Q E s ↔ Q p s := Iff.rfl

lemma wp_getNext {Q : Option Ptr → LlState → Prop} (h : s.Live n) (hq : Q (s.nodes.next n) s) :
    wp (getNext n) Q E s := by
  obtain ⟨e, he⟩ := Option.isSome_iff_exists.mp h
  simp [getNext, he, hq]

lemma wp_getPrev {Q : Option Ptr → LlState → Prop} (h : s.Live n) (hq : Q (s.nodes.prev n) s) :
    wp (getPrev n) Q E s := by
  obtain ⟨e, he⟩ := Option.isSome_iff_exists.mp h
  simp [getPrev, he, hq]

lemma wp_getElem {Q : Ptr → LlState → Prop} {e : Ptr} (h : s.nodes.e n = some e) (hq : Q e s) :
    wp (getElem n) Q E s := by
  simp [getElem, h, hq]

lemma wp_setNext {p : Option Ptr} (h : s.Live n)
    (hq : Q () { s with nodes.next := Function.update s.nodes.next n p }) :
    wp (setNext n p) Q E s := by
  obtain ⟨e, he⟩ := Option.isSome_iff_exists.mp h
  simpa [setNext, he] using hq

lemma wp_setPrev {p : Option Ptr} (h : s.Live n)
    (hq : Q () { s with nodes.prev := Function.update s.nodes.prev n p }) :
    wp (setPrev n p) Q E s := by
  obtain ⟨e, he⟩ := Option.isSome_iff_exists.mp h
  simpa [setPrev, he] using hq

@[simp] lemma wp_setHead (p : Option Ptr) :
    wp (setHead p) Q E s ↔ Q () { s with ll.head := p } := Iff.rfl

@[simp] lemma wp_setTail (p : Option Ptr) :
    wp (setTail p) Q E s ↔ Q () { s with ll.tail := p } := Iff.rfl

@[simp] lemma wp_incSize : wp incSize Q E s ↔ Q () { s with ll.size := s.ll.size + 1 } := Iff.rfl

@[simp] lemma wp_decSize : wp decSize Q E s ↔ Q () { s with ll.size := s.ll.size - 1 } := Iff.rfl

end

/-! ### Well formed lists -/

/-- The fields of all nodes but some are the same, and so are all elements. -/
def Nodes.SameOff (a b : Nodes) (l : List Ptr) : Prop :=
  a.e = b.e ∧ ∀ n ∉ l, a.next n = b.next n ∧ a.prev n = b.prev n

/-- The list is well formed and made of the given nodes. -/
structure IsLl (nodes : Nodes) (ll : Ll) (l : List Ptr) : Prop where
  links : IsDList nodes.next nodes.prev ll.head ll.tail ll.size l
  live : ∀ n ∈ l, (nodes.e n).isSome

/-- A node that is on no list. -/
structure Detached (nodes : Nodes) (n : Ptr) : Prop where
  next : nodes.next n = none
  prev : nodes.prev n = none
  live : (nodes.e n).isSome

/-- A list none of whose nodes is written to stays as it is. -/
lemma IsLl.frame {a b : Nodes} {ll : Ll} {l l' : List Ptr} (h : IsLl a ll l)
    (hs : b.SameOff a l') (hd : ∀ n ∈ l, n ∉ l') : IsLl b ll l := by
  refine ⟨h.links.congr ?_ ?_, fun n hn => hs.1 ▸ h.live n hn⟩
  · exact fun n hn => (hs.2 n (hd n hn)).1
  · exact fun n hn => (hs.2 n (hd n hn)).2

section

variable {s : LlState} {E : Fault → LlState → Prop} {l : List Ptr} {n : Ptr}

lemma IsLl.eq_nil (h : IsLl s.nodes s.ll l) (hh : s.ll.head = none) : l = [] := by
  rw [h.links.head_eq] at hh
  exact List.head?_eq_none_iff.mp hh

lemma IsLl.head_mem {ll : Ll} {nodes : Nodes} {a : Ptr} (h : IsLl nodes ll l)
    (hh : ll.head = some a) : a ∈ l :=
  List.mem_of_head? (h.links.head_eq ▸ hh)

lemma IsLl.tail_mem {ll : Ll} {nodes : Nodes} {a : Ptr} (h : IsLl nodes ll l)
    (ht : ll.tail = some a) : a ∈ l :=
  List.mem_of_getLast? (h.links.tail_eq ▸ ht)

/-- A list with a head has a tail. -/
lemma IsLl.exists_tail {ll : Ll} {nodes : Nodes} {a : Ptr} (h : IsLl nodes ll l)
    (hh : ll.head = some a) : ∃ b, ll.tail = some b := by
  have hne : l ≠ [] := List.ne_nil_of_mem (h.head_mem hh)
  exact ⟨_, h.links.tail_eq.trans (List.getLast?_eq_some_getLast hne)⟩

/-- The first node of an empty list. -/
lemma linkOnly_spec (h : IsLl s.nodes s.ll []) (hn : Detached s.nodes n) :
    wp (linkOnly n) (fun r s' => r = 0 ∧ s'.nodes = s.nodes ∧ IsLl s'.nodes s'.ll [n]) E s := by
  have htail : s.ll.tail = none := h.links.tail_eq
  simp only [linkOnly, wp_bind, wp_gets, wp_require, wp_setHead, wp_setTail, wp_incSize, wp_pure]
  refine ⟨fun _ => ⟨trivial, trivial, ?_, ?_⟩, fun hne => absurd htail hne⟩
  · refine ⟨⟨hn.prev, hn.next, trivial⟩, by simp, rfl, rfl, ?_⟩
    rw [h.links.size_eq]
    rfl
  · simpa using hn.live

/-- `ll_link_node_last` returns 0 if it returns, on any list. -/
lemma llLinkNodeLast_zero (s : LlState) (n : Ptr) :
    wlp (llLinkNodeLast n) (fun r _ => r = 0) s := by
  rw [wlp, llLinkNodeLast, wp_bind, wp_gets]
  cases s.ll.head with
  | none =>
      simp only [linkOnly, wp_bind]
      refine wp_any _ (fun ll _ => ?_) fun _ _ => trivial
      exact wp_any _ (fun _ _ => rfl) fun _ _ => trivial
  | some head =>
      simp only [wp_bind]
      refine wp_any _ (fun tail _ => ?_) fun _ _ => trivial
      refine wp_any _ (fun _ _ => ?_) fun _ _ => trivial
      exact wp_any _ (fun _ _ => rfl) fun _ _ => trivial

/-- `ll_unlink_node` returns 0 if it returns, on any list of a size above 0. -/
lemma llUnlinkNode_zero {s : LlState} (h : s.ll.size ≠ 0) (n : Ptr) :
    wlp (llUnlinkNode n) (fun r _ => r = 0) s := by
  rw [wlp, llUnlinkNode, wp_bind, wp_gets, if_neg h]
  simp only [wp_bind]
  refine wp_any _ (fun _ _ => ?_) fun _ _ => trivial
  refine wp_any _ (fun _ _ => ?_) fun _ _ => trivial
  refine wp_any _ (fun _ _ => ?_) fun _ _ => trivial
  refine wp_any _ (fun _ _ => ?_) fun _ _ => trivial
  exact wp_any _ (fun _ _ => rfl) fun _ _ => trivial

/-- **`ll_link_node_last` appends a detached node.** -/
theorem llLinkNodeLast_spec (h : IsLl s.nodes s.ll l) (hnot : n ∉ l) (hn : Detached s.nodes n) :
    wp (llLinkNodeLast n) (fun r s' => r = 0 ∧ s'.nodes.SameOff s.nodes (n :: l) ∧
      IsLl s'.nodes s'.ll (l ++ [n])) E s := by
  rw [llLinkNodeLast, wp_bind, wp_gets]
  cases hh : s.ll.head with
  | none =>
      obtain rfl := h.eq_nil hh
      refine wp_imp (linkOnly_spec h hn) fun r s' ⟨hr, hs, hl⟩ => ⟨hr, ?_, hl⟩
      rw [hs]
      exact ⟨rfl, fun _ _ => ⟨rfl, rfl⟩⟩
  | some head =>
      obtain ⟨tail, ht⟩ := h.exists_tail hh
      have htl := h.tail_mem ht
      have hlinks := @IsDList.pushBack _ _ _
        (Function.update s.nodes.next tail (some n))
        (Function.update s.nodes.prev n (some tail)) _ _ _ _ n _ h.links hnot hn.next
        (fun b => by simp [ht, Function.update_apply, eq_comm])
        (fun b => by simp [ht, Function.update_apply])
      rw [hh, Option.some_or] at hlinks
      simp only [ht, wp_bind, wp_follow]
      refine wp_setNext (h.live tail htl) (wp_setPrev hn.live ⟨rfl, ⟨rfl, fun m hm => ?_⟩, ?_, ?_⟩)
      · rw [List.mem_cons, not_or] at hm
        exact ⟨Function.update_of_ne (ne_of_mem_of_not_mem htl hm.2).symm _ _,
          Function.update_of_ne hm.1 _ _⟩
      · simpa only [hh] using hlinks
      · intro m hm
        rcases List.mem_append.mp hm with hm | hm
        · exact h.live m hm
        · exact List.mem_singleton.mp hm ▸ hn.live

/-- `ll_link_node_first` puts a detached node in front of a list that is not empty. -/
lemma llLinkNodeFirst_spec (h : IsLl s.nodes s.ll l) (hne : l ≠ []) (hnot : n ∉ l)
    (hn : Detached s.nodes n) :
    wp (llLinkNodeFirst n) (fun r s' => r = 0 ∧ s'.nodes.SameOff s.nodes (n :: l) ∧
      IsLl s'.nodes s'.ll (n :: l)) E s := by
  rw [llLinkNodeFirst, wp_bind, wp_gets]
  cases hh : s.ll.head with
  | none => exact absurd (h.eq_nil hh) hne
  | some head =>
      have hhl := h.head_mem hh
      have hlinks := @IsDList.pushFront _ _ _
        (Function.update s.nodes.next n (some head))
        (Function.update s.nodes.prev head (some n)) _ _ _ _ n _ h.links hne hnot hn.prev
        (fun b => by simp [hh, Function.update_apply])
        (fun b => by simp [hh, Function.update_apply, eq_comm])
      simp only [wp_bind]
      refine wp_setPrev (h.live head hhl) (wp_setNext hn.live ⟨rfl, ⟨rfl, fun m hm => ?_⟩, ?_, ?_⟩)
      · rw [List.mem_cons, not_or] at hm
        exact ⟨Function.update_of_ne hm.1 _ _,
          Function.update_of_ne (ne_of_mem_of_not_mem hhl hm.2).symm _ _⟩
      · exact hlinks
      · intro m hm
        rcases List.mem_cons.mp hm with rfl | hm
        · exact hn.live
        · exact h.live m hm

/-- The head and the tail move off a node of the list. -/
lemma wp_unlinkEnds {Q : Unit → LlState → Prop} (h : IsLl s.nodes s.ll l) (hn : n ∈ l)
    (hq : Q () { s with
      ll.head := if s.ll.head = some n then s.nodes.next n else s.ll.head
      ll.tail := if s.ll.tail = some n then s.nodes.prev n else s.ll.tail }) :
    wp (unlinkEnds n) Q E s := by
  have hlive := h.live n hn
  rw [unlinkEnds, wp_bind, wp_gets]
  by_cases hh : s.ll.head = some n <;> by_cases ht : s.ll.tail = some n
  · rw [if_pos ⟨hh, ht⟩]
    simpa [hh, ht, h.links.next_tail ht, h.links.prev_head hh] using hq
  · rw [if_neg fun hc => ht hc.2, if_pos hh, wp_bind]
    refine wp_getNext hlive ?_
    simpa [hh, ht] using hq
  · rw [if_neg fun hc => hh hc.1, if_neg hh, if_pos ht, wp_bind]
    refine wp_getPrev hlive ?_
    simpa [hh, ht] using hq
  · rw [if_neg fun hc => hh hc.1, if_neg hh, if_neg ht]
    simpa [hh, ht] using hq

lemma wp_bypassNext {Q : Unit → LlState → Prop} (hn : s.Live n)
    (hm : ∀ m, s.nodes.next n = some m → s.Live m)
    (hq : Q () { s with
      nodes.prev := fun b => if s.nodes.next n = some b then s.nodes.prev n else s.nodes.prev b }) :
    wp (bypassNext n) Q E s := by
  rw [bypassNext, wp_bind]
  refine wp_getNext hn ?_
  cases hnext : s.nodes.next n with
  | none => simpa [hnext] using hq
  | some m =>
      have hfun : (fun b => if s.nodes.next n = some b then s.nodes.prev n else s.nodes.prev b) =
          Function.update s.nodes.prev m (s.nodes.prev n) := by
        funext b
        simp [hnext, Function.update_apply, eq_comm]
      rw [hfun] at hq
      dsimp only
      rw [wp_bind]
      exact wp_getPrev hn (wp_setPrev (hm m hnext) hq)

lemma wp_bypassPrev {Q : Unit → LlState → Prop} (hn : s.Live n)
    (hm : ∀ m, s.nodes.prev n = some m → s.Live m)
    (hq : Q () { s with
      nodes.next := fun b => if s.nodes.prev n = some b then s.nodes.next n else s.nodes.next b }) :
    wp (bypassPrev n) Q E s := by
  rw [bypassPrev, wp_bind]
  refine wp_getPrev hn ?_
  cases hprev : s.nodes.prev n with
  | none => simpa [hprev] using hq
  | some m =>
      have hfun : (fun b => if s.nodes.prev n = some b then s.nodes.next n else s.nodes.next b) =
          Function.update s.nodes.next m (s.nodes.next n) := by
        funext b
        simp [hprev, Function.update_apply, eq_comm]
      rw [hfun] at hq
      dsimp only
      rw [wp_bind]
      exact wp_getNext hn (wp_setNext (hm m hprev) hq)

/-- **`ll_unlink_node` takes a node out of its list.** -/
theorem llUnlinkNode_spec {l₁ l₂ : List Ptr} (h : IsLl s.nodes s.ll (l₁ ++ n :: l₂)) :
    wp (llUnlinkNode n) (fun r s' => r = 0 ∧ s'.nodes.SameOff s.nodes (l₁ ++ n :: l₂) ∧
      IsLl s'.nodes s'.ll (l₁ ++ l₂) ∧ Detached s'.nodes n) E s := by
  have hn : n ∈ l₁ ++ n :: l₂ := by simp
  have hnext := fun m => h.links.next_mem hn (m := m)
  have hprev := fun m => h.links.prev_mem hn (m := m)
  have hlive := h.live n hn
  have hsize : s.ll.size ≠ 0 := by
    rw [h.links.size_eq]
    simp
  rw [llUnlinkNode, wp_bind, wp_gets, if_neg hsize]
  simp only [wp_bind]
  refine wp_unlinkEnds h hn ?_
  refine wp_bypassNext hlive (fun m hm => h.live m (hnext m hm)) ?_
  refine wp_bypassPrev hlive (fun m hm => h.live m (hprev m (by simpa using hm))) ?_
  refine wp_setNext hlive (wp_setPrev hlive ⟨rfl, ⟨rfl, fun m hm => ?_⟩, ⟨?_, ?_⟩, ⟨?_, ?_, hlive⟩⟩)
  · have hmn : m ≠ n := (ne_of_mem_of_not_mem hn hm).symm
    have h1 : s.nodes.next n ≠ some m := fun heq => hm (hnext m heq)
    have h2 : s.nodes.prev n ≠ some m := fun heq => hm (hprev m heq)
    simp [hmn, h1, h2]
  · exact h.links.unlink (fun b => by simp [Function.update_apply])
      (fun b => by simp [Function.update_apply]) rfl rfl
  · intro m hm
    refine h.live m ?_
    rcases List.mem_append.mp hm with hm | hm
    · exact List.mem_append_left _ hm
    · exact List.mem_append_right _ (.tail _ hm)
  · exact Function.update_self ..
  · exact Function.update_self ..

/-- **`ll_rotate` moves the head to the tail.** -/
theorem llRotate_spec {a : Ptr} (h : IsLl s.nodes s.ll (a :: l)) :
    wp llRotate (fun r s' => r = 0 ∧ s'.nodes.SameOff s.nodes (a :: l) ∧
      IsLl s'.nodes s'.ll (l ++ [a])) E s := by
  have hsize := h.links.size_eq
  have hhead : s.ll.head = some a := h.links.head_eq
  obtain ⟨t, htail⟩ := h.exists_tail hhead
  rw [List.length_cons] at hsize
  rw [llRotate, wp_bind, wp_gets, if_neg (by omega)]
  cases l with
  | nil =>
      rw [if_pos (by simpa using hsize)]
      exact ⟨rfl, ⟨rfl, fun _ _ => ⟨rfl, rfl⟩⟩, h⟩
  | cons b l =>
      have hlive := h.live
      have hb : s.nodes.next a = some b := h.links.seg.2.1
      have htl := h.tail_mem htail
      rw [if_neg (by rw [hsize, List.length_cons]; omega)]
      simp only [hhead, htail, wp_bind, wp_follow]
      refine wp_getNext (hlive a (by simp)) ?_
      simp only [hb, wp_setHead, wp_follow]
      refine wp_setPrev (hlive b (by simp)) (wp_setNext (hlive a (by simp)) ?_)
      refine wp_setPrev (hlive a (by simp)) (wp_setNext (hlive t htl) ?_)
      refine ⟨rfl, ⟨rfl, fun m hm => ?_⟩, ?_, ?_⟩
      · have hma : m ≠ a := (ne_of_mem_of_not_mem (by simp) hm).symm
        have hmb : m ≠ b := (ne_of_mem_of_not_mem (by simp) hm).symm
        have hmt : m ≠ t := (ne_of_mem_of_not_mem htl hm).symm
        simp [hma, hmb, hmt]
      · refine h.links.rotate (fun c => ?_) fun c => ?_
        · simp [htail, Function.update_apply, eq_comm]
        · simp [htail, Function.update_apply]
      · intro m hm
        refine hlive m ?_
        rcases List.mem_append.mp hm with hm | hm
        · exact .tail a hm
        · exact List.mem_singleton.mp hm ▸ .head _

/-- `ll_peek` reads the element at the head. -/
lemma llPeek_spec {a e : Ptr} (h : IsLl s.nodes s.ll (a :: l)) (he : s.nodes.e a = some e) :
    wp llPeek (fun r s' => r = some e ∧ s' = s) E s := by
  have hsize : s.ll.size ≠ 0 := by
    rw [h.links.size_eq]
    simp
  have hhead : s.ll.head = some a := h.links.head_eq
  rw [llPeek, wp_bind, wp_gets, if_neg hsize, wp_bind, hhead, wp_follow, wp_bind]
  exact wp_getElem he ⟨rfl, rfl⟩

/-! ### Inserting in order -/

/-- An element that fits between two parts of a list. -/
lemma pairwise_between {α : Type} {R : α → α → Prop} {x : α} {l₁ l₂ : List α}
    (h : (l₁ ++ l₂).Pairwise R) (h₁ : ∀ a ∈ l₁, R a x) (h₂ : ∀ b ∈ l₂, R x b) :
    (l₁ ++ x :: l₂).Pairwise R := by
  obtain ⟨hl₁, hl₂, hl⟩ := List.pairwise_append.mp h
  refine List.pairwise_append.mpr ⟨hl₁, List.pairwise_cons.mpr ⟨h₂, hl₂⟩, fun a ha b hb => ?_⟩
  rcases List.mem_cons.mp hb with rfl | hb
  · exact h₁ a ha
  · exact hl a ha b hb

/-- The comparison of elements is that of their nodes' keys. -/
def Compares (nodes : Nodes) (cmp : Ptr → Ptr → Option ℤ) (key : Ptr → ℕ) (l : List Ptr) : Prop :=
  ∀ a ∈ l, ∀ b ∈ l, ∃ ea eb c, nodes.e a = some ea ∧ nodes.e b = some eb ∧
    cmp ea eb = some c ∧ (c < 0 ↔ key a < key b) ∧ (0 < c ↔ key b < key a)

/-- The comparison of elements is that of a preorder of their nodes. -/
structure ComparesBy (nodes : Nodes) (cmp : Ptr → Ptr → Option ℤ) (R : Ptr → Ptr → Prop)
    (l : List Ptr) : Prop where
  compare : ∀ a ∈ l, ∀ b ∈ l, ∃ ea eb c, nodes.e a = some ea ∧ nodes.e b = some eb ∧
    cmp ea eb = some c ∧ (c < 0 ↔ ¬ R b a) ∧ (0 < c ↔ ¬ R a b)
  trans : ∀ a ∈ l, ∀ b ∈ l, ∀ c ∈ l, R a b → R b c → R a c

variable {cmp : Ptr → Ptr → Option ℤ} {key : Ptr → ℕ} {R : Ptr → Ptr → Prop}

/-- Keys are a preorder. -/
lemma Compares.by_key {nodes : Nodes} (h : Compares nodes cmp key l) :
    ComparesBy nodes cmp (fun a b => key a ≤ key b) l :=
  ⟨by simpa only [Compares, not_le] using h, fun _ _ _ _ _ _ => le_trans⟩

/-- The comparison of two nodes whose elements are known. -/
lemma ComparesBy.eq {nodes : Nodes} {a b ea eb : Ptr} (h : ComparesBy nodes cmp R l) (ha : a ∈ l)
    (hb : b ∈ l) (hea : nodes.e a = some ea) (heb : nodes.e b = some eb) :
    ∃ c, cmp ea eb = some c ∧ (c < 0 ↔ ¬ R b a) ∧ (0 < c ↔ ¬ R a b) := by
  obtain ⟨ea', eb', c, ha', hb', hc⟩ := h.compare a ha b hb
  obtain rfl := Option.some.inj (hea.symm.trans ha')
  obtain rfl := Option.some.inj (heb.symm.trans hb')
  exact ⟨c, hc⟩

/-- Everything before a node that is at most the new one is, too; and everything from a node on
that is at least the new one. -/
lemma ComparesBy.around {nodes : Nodes} {c : Ptr} {l₁ l₂ : List Ptr}
    (hc : ComparesBy nodes cmp R (n :: l))
    (hl : l = l₁ ++ c :: l₂) (hs : l.Pairwise R) (hcn : R c n) (hnd : ∀ d ∈ l₂.head?, R n d) :
    (∀ x ∈ l₁ ++ [c], R x n) ∧ ∀ x ∈ l₂, R n x := by
  have hmem : ∀ x ∈ l₁ ++ c :: l₂, x ∈ n :: l := fun x hx => .tail n (hl ▸ hx)
  rw [hl] at hs
  obtain ⟨-, hs₂, hs₁⟩ := List.pairwise_append.mp hs
  refine ⟨fun x hx => ?_, fun x hx => ?_⟩
  · rcases List.mem_append.mp hx with hx | hx
    · have hxc := hs₁ x hx c (.head l₂)
      exact hc.trans x (hmem x (by simp [hx])) c (hmem c (by simp)) n (.head l) hxc hcn
    · exact List.mem_singleton.mp hx ▸ hcn
  · cases l₂ with
    | nil => exact absurd hx List.not_mem_nil
    | cons d l₂ =>
        have hds := (List.pairwise_cons.mp (List.pairwise_cons.mp hs₂).2).1
        rcases List.mem_cons.mp hx with rfl | hxl
        · exact hnd x rfl
        · exact hc.trans n (.head l) d (hmem d (by simp)) x (hmem x (by simp [hxl])) (hnd d rfl)
            (hds x hxl)

lemma wp_call {Q : ℤ → LlState → Prop} {a b : Ptr} {c : ℤ} (h : cmp a b = some c) (hq : Q c s) :
    wp (call cmp a b) Q E s := by
  rw [call, h]
  exact hq

/-- No element of a node is `NULL`. -/
def NonNull (nodes : Nodes) (l : List Ptr) : Prop := ∀ n ∈ l, nodes.e n ≠ some 0

/-- The loop stops at a node that is at most the new one, the next one being at least it. -/
lemma sortedSpot_spec {e : Ptr} (h : IsLl s.nodes s.ll l) (hnull : NonNull s.nodes l)
    (hc : ComparesBy s.nodes cmp R (n :: l)) (hs : l.Pairwise R) (he : s.nodes.e n = some e) :
    ∀ (l₂ l₁ : List Ptr) (fuel : ℕ) (a : Ptr), l = l₁ ++ a :: l₂ → l₂.length < fuel → R a n →
      wp (sortedSpot cmp e fuel a) (fun r s' => s' = s ∧ ∃ b k₁ k₂, r = some b ∧
        l = k₁ ++ b :: k₂ ∧ R b n ∧ ∀ d ∈ k₂.head?, R n d) E s := by
  intro l₂
  induction l₂ with
  | nil =>
      intro l₁ fuel a hl hfuel ha
      obtain ⟨fuel, rfl⟩ : ∃ k, fuel = k + 1 := ⟨fuel - 1, by simp at hfuel; omega⟩
      subst hl
      rw [sortedSpot, wp_bind]
      refine wp_getNext (h.live a (by simp)) ?_
      rw [h.links.links.2]
      exact ⟨rfl, a, l₁, [], rfl, rfl, ha, by simp⟩
  | cons b l₂ ih =>
      intro l₁ fuel a hl hfuel ha
      obtain ⟨fuel, rfl⟩ : ∃ k, fuel = k + 1 := ⟨fuel - 1, by simp at hfuel; omega⟩
      have hal : a ∈ l := by simp [hl]
      have hbl : b ∈ l := by simp [hl]
      have hab : R a b := by
        rw [hl, List.pairwise_append, List.pairwise_cons] at hs
        exact hs.2.1.1 b (.head _)
      obtain ⟨ea, hea⟩ := Option.isSome_iff_exists.mp (h.live a hal)
      obtain ⟨eb, heb⟩ := Option.isSome_iff_exists.mp (h.live b hbl)
      obtain ⟨o, ho, -, hgt⟩ := hc.eq (.tail n hal) (.tail n hbl) hea heb
      obtain ⟨o₁, ho₁, hlt₁, -⟩ := hc.eq (.head l) (.tail n hal) he hea
      obtain ⟨o₂, ho₂, hlt₂, hgt₂⟩ := hc.eq (.head l) (.tail n hbl) he heb
      have hle : o ≤ 0 := not_lt.mp fun hpos => hgt.mp hpos hab
      have hge : 0 ≤ o₁ := not_lt.mp fun hneg => hlt₁.mp hneg ha
      have hnext : s.nodes.next a = some b := by
        rw [hl] at h
        exact h.links.links.2
      rw [sortedSpot, wp_bind]
      refine wp_getNext (h.live a hal) ?_
      simp only [hnext, wp_bind]
      refine wp_getElem hea ?_
      have hea0 : ea ≠ 0 := fun h0 => hnull a hal (h0 ▸ hea)
      rw [if_neg hea0, wp_bind]
      refine wp_getElem heb ?_
      simp only [wp_bind]
      refine wp_call ho ?_
      rw [wp_require]
      refine ⟨fun _ => wp_call ho₁ (wp_call ho₂ ?_), fun hno => absurd hle hno⟩
      split_ifs with hstop
      · have hnb : R n b := not_not.mp fun hno => not_lt.mpr hstop.2 (hgt₂.mpr hno)
        exact ⟨rfl, a, l₁, b :: l₂, rfl, hl, ha, by simpa using hnb⟩
      · have hbn : R b n := by
          refine not_not.mp fun hno => hstop ⟨hge, ?_⟩
          exact (hlt₂.mpr hno).le
        exact ih (l₁ ++ [a]) fuel b (by simp [hl]) (by simpa using hfuel) hbn

/-- What inserting in order does. -/
def InsertsInOrder (R : Ptr → Ptr → Prop) (l : List Ptr) (n : Ptr) (s : LlState) (r : ℤ)
    (s' : LlState) : Prop :=
  r = 0 ∧ s'.nodes.SameOff s.nodes (n :: l) ∧
    ∃ l₁ l₂, l = l₁ ++ l₂ ∧ IsLl s'.nodes s'.ll (l₁ ++ n :: l₂) ∧ (l₁ ++ n :: l₂).Pairwise R

/-- **`ll_link_node_sorted` inserts a detached node in order**, for any preorder. -/
theorem llLinkNodeSorted_inserts (h : IsLl s.nodes s.ll l) (hnot : n ∉ l)
    (hn : Detached s.nodes n) (hnull : NonNull s.nodes (n :: l))
    (hc : ComparesBy s.nodes cmp R (n :: l)) (hs : l.Pairwise R) :
    wp (llLinkNodeSorted n cmp) (InsertsInOrder R l n s) E s := by
  obtain ⟨e, he⟩ := Option.isSome_iff_exists.mp hn.live
  have he0 : e ≠ 0 := fun h0 => hnull n (.head l) (h0 ▸ he)
  rw [llLinkNodeSorted, wp_bind]
  refine wp_getElem he ?_
  rw [if_neg he0, wp_bind, wp_gets]
  cases hh : s.ll.head with
  | none =>
      obtain rfl := h.eq_nil hh
      refine wp_imp (linkOnly_spec h hn) fun r s' hpost => ?_
      obtain ⟨hr, hs', hl⟩ := hpost
      refine ⟨hr, ?_, [], [], rfl, hl, ?_⟩
      · rw [hs']
        exact ⟨rfl, fun _ _ => ⟨rfl, rfl⟩⟩
      · simp
  | some a =>
      obtain ⟨l₂, rfl⟩ := List.head?_eq_some_iff.mp (h.links.head_eq ▸ hh)
      obtain ⟨ea, hea⟩ := Option.isSome_iff_exists.mp (h.live a (.head l₂))
      -- the first node is compared before the loop
      obtain ⟨o, ho, hlt, hgt⟩ := hc.eq (.head _) (.tail n (.head l₂)) he hea
      have hsize := h.links.size_eq
      rw [List.length_cons] at hsize
      simp only [wp_bind]
      refine wp_getElem hea (wp_call ho ?_)
      split_ifs with hfirst
      · refine wp_imp (llLinkNodeFirst_spec h (by simp) hnot hn) fun r s' hpost => ?_
        obtain ⟨hr, hsame, hl⟩ := hpost
        refine ⟨hr, hsame, [], _, rfl, hl, ?_⟩
        -- the node comes first: it is below the first one, hence below all
        have hna : R n a := not_not.mp fun hno => absurd (hgt.mpr hno) hfirst.not_gt
        refine pairwise_between hs (by simp) fun b hb => ?_
        rcases List.mem_cons.mp hb with rfl | hbl
        · exact hna
        · exact hc.trans n (.head _) a (by simp) b (.tail n hb) hna
            ((List.pairwise_cons.mp hs).1 b hbl)
      -- the loop stops at the last node that is not above it
      · have han : R a n := not_not.mp fun hno => hfirst (hlt.mpr hno)
        rw [wp_bind]
        refine wp_imp (sortedSpot_spec h (fun m hm => hnull m (.tail n hm)) hc hs he l₂ [] _ a rfl
          (by omega) han) ?_
        rintro _ s' ⟨rfl, c, k₁, k₂, rfl, hl, hcn, hnd⟩
        have hcl : c ∈ a :: l₂ := by simp [hl]
        obtain ⟨hleft, hright⟩ := hc.around hl hs hcn hnd
        dsimp only
        rw [wp_bind]
        refine wp_getNext (h.live c hcl) ?_
        rw [hl] at h hs hnot ⊢
        rw [h.links.links.2]
        cases k₂ with
        -- the spot is the end of the list
        | nil =>
            refine wp_imp (llLinkNodeLast_spec h hnot hn) fun r s'' hpost => ?_
            obtain ⟨hr, hsame, hl'⟩ := hpost
            refine ⟨hr, hsame, k₁ ++ [c], [], by simp, by simpa using hl', ?_⟩
            exact pairwise_between (by simpa using hs) hleft (by simp)
        | cons d k₂ =>
            -- the spot is between `c` and `d`, and four pointers are written
            have hlive := h.live
            simp only [List.head?_cons, wp_bind]
            refine wp_setPrev (hlive d (by simp)) (wp_setNext hn.live ?_)
            refine wp_setNext (hlive c (by simp)) (wp_setPrev hn.live ?_)
            refine ⟨rfl, ⟨rfl, fun m hm => ?_⟩, k₁ ++ [c], d :: k₂, by simp, ⟨?_, ?_⟩, ?_⟩
            · simp only [List.mem_cons, List.mem_append, not_or] at hm
              obtain ⟨hmn, -, hmc, hmd, -⟩ := hm
              simp [hmn, hmc, hmd]
            · have hins := @IsDList.insert _ _ _
                (Function.update (Function.update s'.nodes.next n (some d)) c (some n))
                (Function.update (Function.update s'.nodes.prev d (some n)) n (some c))
                _ _ _ _ _ n _ _ _ h.links hnot
                (fun b => by simp [Function.update_apply])
                (fun b => by simp [Function.update_apply])
              simpa using hins
            · intro m hm
              simp only [List.append_assoc, List.singleton_append, List.mem_append,
                List.mem_cons] at hm
              by_cases hmn : m = n
              · exact hmn ▸ hn.live
              · exact hlive m (by simp only [List.mem_append, List.mem_cons]; tauto)
            · exact pairwise_between (by simpa using hs) hleft hright

/-- **`ll_link_node_sorted` inserts a detached node in the order of the keys.** -/
theorem llLinkNodeSorted_spec (h : IsLl s.nodes s.ll l) (hnot : n ∉ l) (hn : Detached s.nodes n)
    (hnull : NonNull s.nodes (n :: l)) (hc : Compares s.nodes cmp key (n :: l))
    (hs : l.Pairwise fun a b => key a ≤ key b) :
    wp (llLinkNodeSorted n cmp) (fun r s' => r = 0 ∧ s'.nodes.SameOff s.nodes (n :: l) ∧
      ∃ l₁ l₂, l = l₁ ++ l₂ ∧ IsLl s'.nodes s'.ll (l₁ ++ n :: l₂) ∧
        (l₁ ++ n :: l₂).Pairwise fun a b => key a ≤ key b) E s :=
  llLinkNodeSorted_inserts h hnot hn hnull hc.by_key hs

end

end ShrekOS
