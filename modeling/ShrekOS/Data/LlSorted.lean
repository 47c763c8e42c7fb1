/-
Sorted insertion, for any comparison function.

* `TotalPreorder`: a comparison function is a total preorder of the given elements;
* `TotalPreorder.comparesBy`: then it is one of their nodes;
* `llLinkNodeSorted_sorts`: **a fresh node goes to its place**, when no element is `NULL`.
-/
import ShrekOS.Data.LlRules

namespace ShrekOS

open Kit Kit.Cmd

/-! ### Comparison functions -/

/-- The comparison finds the first element to be at most the second one. -/
def AtMost (cmp : Ptr → Ptr → Option ℤ) (a b : Ptr) : Prop := ∃ c ∈ cmp a b, c ≤ 0

/-- A comparison function is a total preorder of the given elements: it compares any two of
them, the other way round with the other sign, and is transitive. -/
structure TotalPreorder (cmp : Ptr → Ptr → Option ℤ) (S : Set Ptr) : Prop where
  compare : ∀ a ∈ S, ∀ b ∈ S, ∃ c d, cmp a b = some c ∧ cmp b a = some d ∧ (c < 0 ↔ 0 < d)
  trans : ∀ a ∈ S, ∀ b ∈ S, ∀ c ∈ S, AtMost cmp a b → AtMost cmp b c → AtMost cmp a c

/-- The elements of the nodes. -/
def elements (nodes : Nodes) (l : List Ptr) : Set Ptr := {e | ∃ n ∈ l, nodes.e n = some e}

/-- The elements of the two nodes are in order. -/
def NodesInOrder (nodes : Nodes) (cmp : Ptr → Ptr → Option ℤ) (a b : Ptr) : Prop :=
  ∃ ea ∈ nodes.e a, ∃ eb ∈ nodes.e b, AtMost cmp ea eb

section

variable {cmp : Ptr → Ptr → Option ℤ} {s : LlState} {l : List Ptr} {n : Ptr}

lemma nodesInOrder_iff {nodes : Nodes} {a b ea eb : Ptr} (ha : nodes.e a = some ea)
    (hb : nodes.e b = some eb) : NodesInOrder nodes cmp a b ↔ AtMost cmp ea eb := by
  simp [NodesInOrder, ha, hb]

/-- A total preorder of the elements is a preorder of their nodes. -/
lemma TotalPreorder.comparesBy {nodes : Nodes} (h : TotalPreorder cmp (elements nodes l))
    (hlive : ∀ n ∈ l, (nodes.e n).isSome) : ComparesBy nodes cmp (NodesInOrder nodes cmp) l := by
  refine ⟨fun a ha b hb => ?_, fun a ha b hb c hc hab hbc => ?_⟩
  · obtain ⟨ea, hea⟩ := Option.isSome_iff_exists.mp (hlive a ha)
    obtain ⟨eb, heb⟩ := Option.isSome_iff_exists.mp (hlive b hb)
    obtain ⟨c, d, hcmp, hcmp', hflip⟩ := h.compare ea ⟨a, ha, hea⟩ eb ⟨b, hb, heb⟩
    refine ⟨ea, eb, c, hea, heb, hcmp, ?_, ?_⟩
    · simp [nodesInOrder_iff heb hea, AtMost, hcmp', hflip]
    · simp [nodesInOrder_iff hea heb, AtMost, hcmp]
  · obtain ⟨ea, hea, eb, heb, hab⟩ := hab
    obtain ⟨eb', heb', ec, hec, hbc⟩ := hbc
    obtain rfl := Option.mem_unique heb heb'
    exact ⟨ea, hea, ec, hec, h.trans ea ⟨a, ha, hea⟩ eb ⟨b, hb, heb⟩ ec ⟨c, hc, hec⟩ hab hbc⟩

/-! ### Insertion -/

/-- **`ll_link_node_sorted` returns 0, and the node goes to its place**: for every comparison
function that is a total preorder of the elements, on a list that it sorts, none of whose
elements is `NULL`. -/
theorem llLinkNodeSorted_sorts (h : IsLl s.nodes s.ll l)
    (hs : l.Pairwise (NodesInOrder s.nodes cmp)) (hnot : n ∉ l) (hn : Detached s.nodes n)
    (hnull : NonNull s.nodes (n :: l)) (hcmp : TotalPreorder cmp (elements s.nodes (n :: l))) :
    ∃ s' l₁ l₂, llLinkNodeSorted n cmp s = (.ok 0, s') ∧ l = l₁ ++ l₂ ∧
      IsLl s'.nodes s'.ll (l₁ ++ n :: l₂) ∧ (l₁ ++ n :: l₂).Pairwise (NodesInOrder s'.nodes cmp) ∧
      s'.ll.size = s.ll.size + 1 ∧ s'.nodes.SameOff s.nodes (n :: l) := by
  have hlive : ∀ m ∈ n :: l, (s.nodes.e m).isSome := by
    intro m hm
    rcases List.mem_cons.mp hm with rfl | hm
    · exact hn.live
    · exact h.live m hm
  obtain ⟨r, s', hrun, rfl, hoff, l₁, l₂, rfl, hl, hsorted⟩ :=
    wp_returns (llLinkNodeSorted_inserts h hnot hn hnull (hcmp.comparesBy hlive) hs)
  have hsame : NodesInOrder s'.nodes cmp = NodesInOrder s.nodes cmp := by
    funext a b
    rw [NodesInOrder, NodesInOrder, hoff.1]
  refine ⟨s', l₁, l₂, hrun, rfl, hl, hsame ▸ hsorted, ?_, hoff⟩
  rw [hl.links.size_eq, h.links.size_eq]
  simp only [List.length_append, List.length_cons]
  omega

end

/-- Two nodes in order, and a fresh one whose element is equal to the second one's. -/
def sortedTwo : LlState where
  nodes := {
    next := fun p => if p = 10 then some 20 else none
    prev := fun p => if p = 20 then some 10 else none
    e := fun p => if p = 10 then some 3 else if p = 20 ∨ p = 30 then some 5 else none }
  ll := ⟨some 10, some 20, 2⟩

theorem llLinkNodeSorted_sorts_two :
    ∃ s' l₁ l₂, llLinkNodeSorted 30 (fun a b => some (a - b : ℤ)) sortedTwo = (.ok 0, s') ∧
      [10, 20] = l₁ ++ l₂ ∧ IsLl s'.nodes s'.ll (l₁ ++ 30 :: l₂) ∧
      (l₁ ++ 30 :: l₂).Pairwise (NodesInOrder s'.nodes fun a b => some (a - b : ℤ)) ∧
      s'.ll.size = 3 ∧ s'.nodes.SameOff sortedTwo.nodes [30, 10, 20] := by
  refine llLinkNodeSorted_sorts (l := [10, 20]) ⟨⟨?_, ?_, ?_, ?_, ?_⟩, ?_⟩ ?_ ?_
    ⟨?_, ?_, ?_⟩ ?_ ?_
  · simp [Seg, sortedTwo]
  · decide
  · rfl
  · rfl
  · rfl
  · simp [sortedTwo]
  · simp [NodesInOrder, AtMost, sortedTwo]
  · decide
  · rfl
  · rfl
  · rfl
  · simp [NonNull, sortedTwo]
  · refine ⟨fun a _ b _ => ⟨_, _, rfl, rfl, by omega⟩, fun a _ b _ c _ => ?_⟩
    simp only [AtMost, Option.mem_some_iff, exists_eq_left']
    omega

end ShrekOS
