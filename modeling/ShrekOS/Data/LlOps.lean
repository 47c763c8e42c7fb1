/-
The operations of `kern/data_structures/ll.c` that allocate, free or search.

* `llAddLast`, `llAddFirst`, `llRemoveFirst`, `llRemoveLast`, `llRemoveNode`, `llFind`,
  `llRemove`: the operations; what `malloc` returns is an argument of the first two;
* `Nodes.SameAway`: the frame of an operation that allocates or frees a node;
* `llAddLast_spec`, `llAddFirst_spec`, `llRemoveFirst_spec`, `llRemoveLast_spec`,
  `llFind_spec`, `llRemove_spec`: **what they do to a well formed list**.

An element is a word, 0 that of `NULL`: the lists do not look into it.
-/
import ShrekOS.Data.LlRules
import ShrekOS.Data.CircBuf

namespace ShrekOS

open Kit Kit.Cmd

/-! ### The operations -/

/-- `ll_node_init` of a node that `malloc` returned. -/
def initLlNode (node e : Ptr) : LlM Unit :=
  modify fun s => { s with
    nodes.prev := Function.update s.nodes.prev node none
    nodes.next := Function.update s.nodes.next node none
    nodes.e := Function.update s.nodes.e node (some e) }

/-- `malloc` of a node and `ll_node_init`; the address is not in use. -/
def newLlNode (newNode value : Ptr) : LlM Unit := do
  require ((← gets fun s => s.nodes.e newNode) = none) .badHeap
  modify fun s => { s with nodes := {
    next := Function.update s.nodes.next newNode none
    prev := Function.update s.nodes.prev newNode none
    e := Function.update s.nodes.e newNode (some value) } }

/-- `ll_add_last`; without an answer the `malloc` fails. -/
def llAddLast (answer : Option Ptr) (value : Ptr) : LlM ℤ := do
  match answer with
  | none => return -2
  | some newNode =>
      newLlNode newNode value
      llLinkNodeLast newNode

/-- `ll_add_first`, in the same way. -/
def llAddFirst (answer : Option Ptr) (value : Ptr) : LlM ℤ := do
  match answer with
  | none => return -2
  | some newNode =>
      newLlNode newNode value
      llLinkNodeFirst newNode

/-- The tail moves off a node that is the only one. -/
def dropTail (head : Ptr) : LlM Unit := do
  if (← gets LlState.ll).tail = some head then
    setTail none

/-- `ll->head = head->next; if (ll->head != NULL) ll->head->prev = NULL`. -/
def advanceHead (head : Ptr) : LlM Unit := do
  match ← getNext head with
  | none => setHead none
  | some second =>
      setHead (some second)
      setPrev second none

/-- `free` of a node. -/
def freeLlNode (n : Ptr) : LlM Unit :=
  modify fun s => { s with nodes.e := Function.update s.nodes.e n none }

/-- `ll_remove_first`: the element, or `none` for the code `-2`. -/
def llRemoveFirst : LlM (Option Ptr) := do
  let ll ← gets LlState.ll
  if ll.size = 0 then
    return none
  let head ← follow ll.head
  dropTail head
  advanceHead head
  let val ← getElem head
  freeLlNode head
  decSize
  return some val

/-- The head moves off a node that is the only one. -/
def dropHead (tail : Ptr) : LlM Unit := do
  if (← gets LlState.ll).head = some tail then
    setHead none

/-- `ll->tail = tail->prev; if (ll->tail != NULL) ll->tail->next = NULL`. -/
def retreatTail (tail : Ptr) : LlM Unit := do
  match ← getPrev tail with
  | none => setTail none
  | some last =>
      setTail (some last)
      setNext last none

/-- `ll_remove_last`, in the same way. -/
def llRemoveLast : LlM (Option Ptr) := do
  let ll ← gets LlState.ll
  if ll.size = 0 then
    return none
  let tail ← follow ll.tail
  dropHead tail
  retreatTail tail
  let val ← getElem tail
  freeLlNode tail
  decSize
  return some val

/-- `ll_remove_node`: a node that is not freed goes to the buffer of the caller, if there is
room; what the buffer is then is returned as well. -/
def llRemoveNode (node : Ptr) (addrsToFree : Option (CircBuf Ptr)) :
    LlM (ℤ × Option (CircBuf Ptr)) := do
  let _ ← llUnlinkNode node
  match addrsToFree with
  | some buf => return (0, some ((circBufWrite buf node).getD buf))
  | none =>
      freeLlNode node
      return (0, none)

section

variable {α : Type} [DecidableEq α]

/-- `(*func)(e)`, for a function that may meet a bad pointer. -/
def callOn (func : Ptr → Option α) (e : Ptr) : LlM α :=
  match func e with
  | some v => pure v
  | none => fault .badPointer

/-- The loop of `ll_find` and of `ll_remove`: the first node whose element matches. -/
def findNode (func : Ptr → Option α) (cVal : α) : ℕ → Option Ptr → LlM (Option Ptr)
  | _, none => return none
  | 0, some _ => fault .outOfFuel
  | fuel + 1, some node => do
      if (← callOn func (← getElem node)) = cVal then
        return some node
      findNode func cVal fuel (← getNext node)

/-- `ll_find`: its code, and the element that was found. -/
def llFind (func : Ptr → Option α) (cVal : α) : LlM (ℤ × Option Ptr) := do
  let ll ← gets LlState.ll
  match ← findNode func cVal ll.size ll.head with
  | some node => return (0, some (← getElem node))
  | none => return (-2, none)

/-- `ll_remove`: its code, the element of the removed node, and the buffer after it. -/
def llRemove (func : Ptr → Option α) (cVal : α) (addrsToFree : Option (CircBuf Ptr)) :
    LlM (ℤ × Option Ptr × Option (CircBuf Ptr)) := do
  let ll ← gets LlState.ll
  match ← findNode func cVal ll.size ll.head with
  | some node =>
      let val ← getElem node
      let (code, buf) ← llRemoveNode node addrsToFree
      return (code, some val, buf)
  | none => return (-2, none, addrsToFree)

end

/-! ### Their frame -/

/-- The fields of all nodes but some are the same, and so are their elements. -/
def Nodes.SameAway (a b : Nodes) (l : List Ptr) : Prop :=
  ∀ n ∉ l, a.next n = b.next n ∧ a.prev n = b.prev n ∧ a.e n = b.e n

lemma Nodes.SameOff.away {a b : Nodes} {l : List Ptr} (h : a.SameOff b l) : a.SameAway b l :=
  fun n hn => ⟨(h.2 n hn).1, (h.2 n hn).2, congrFun h.1 n⟩

lemma Nodes.SameAway.trans {a b c : Nodes} {l : List Ptr} (h : a.SameAway b l)
    (h' : b.SameAway c l) : a.SameAway c l := fun n hn =>
  ⟨(h n hn).1.trans (h' n hn).1, (h n hn).2.1.trans (h' n hn).2.1,
    (h n hn).2.2.trans (h' n hn).2.2⟩

/-- A list none of whose nodes is written to stays as it is. -/
lemma IsLl.away {a b : Nodes} {ll : Ll} {l l' : List Ptr} (h : IsLl a ll l)
    (hs : b.SameAway a l') (hd : ∀ n ∈ l, n ∉ l') : IsLl b ll l := by
  refine ⟨h.links.congr ?_ ?_, fun n hn => ?_⟩
  · exact fun n hn => (hs n (hd n hn)).1
  · exact fun n hn => (hs n (hd n hn)).2.1
  · rw [(hs n (hd n hn)).2.2]
    exact h.live n hn

/-! ### What they do -/

section

variable {s : LlState} {E : Fault → LlState → Prop} {l l₁ l₂ : List Ptr} {n e : Ptr}

/-- A new node is detached, and on no list. -/
lemma initLlNode_spec (h : IsLl s.nodes s.ll l) (hn : s.nodes.e n = none) :
    wp (initLlNode n e) (fun _ s' => n ∉ l ∧ IsLl s'.nodes s'.ll l ∧ Detached s'.nodes n ∧
      s'.nodes.SameAway s.nodes [n] ∧
      s'.nodes.e = Function.update s.nodes.e n (some e)) E s := by
  have hnot : n ∉ l := fun hmem => by simpa [hn] using h.live n hmem
  have haway : ∀ m ∉ [n], m ≠ n := fun m hm => by simpa using hm
  have hsame : Nodes.SameAway ⟨Function.update s.nodes.next n none,
      Function.update s.nodes.prev n none, Function.update s.nodes.e n (some e)⟩ s.nodes [n] :=
    fun m hm => ⟨Function.update_of_ne (haway m hm) _ _, Function.update_of_ne (haway m hm) _ _,
      Function.update_of_ne (haway m hm) _ _⟩
  rw [initLlNode, wp_modify]
  refine ⟨hnot, h.away hsame fun m hm hmn => ?_, ⟨?_, ?_, ?_⟩, hsame, rfl⟩
  · exact hnot (List.mem_singleton.mp hmn ▸ hm)
  · exact Function.update_self ..
  · exact Function.update_self ..
  · simp

/-- So is one that `malloc` returns. -/
lemma newLlNode_spec (h : IsLl s.nodes s.ll l) (hn : s.nodes.e n = none) :
    wp (newLlNode n e) (fun _ s' => n ∉ l ∧ IsLl s'.nodes s'.ll l ∧ Detached s'.nodes n ∧
      s'.nodes.SameAway s.nodes [n] ∧
      s'.nodes.e = Function.update s.nodes.e n (some e)) E s := by
  rw [newLlNode, wp_bind, wp_gets, wp_bind, wp_require]
  exact ⟨fun _ => initLlNode_spec h hn, fun hno => absurd hn hno⟩

/-- **`ll_add_last` appends a new node.** -/
theorem llAddLast_spec (h : IsLl s.nodes s.ll l) (hn : s.nodes.e n = none) :
    wp (llAddLast (some n) e) (fun r s' => r = 0 ∧ s'.nodes.SameAway s.nodes (n :: l) ∧
      IsLl s'.nodes s'.ll (l ++ [n]) ∧
      s'.nodes.e = Function.update s.nodes.e n (some e)) E s := by
  rw [llAddLast, wp_bind]
  refine wp_imp (newLlNode_spec h hn) ?_
  rintro _ s₁ ⟨hnot, hl, hd, hsame, he⟩
  refine wp_imp (llLinkNodeLast_spec hl hnot hd) ?_
  rintro r s₂ ⟨rfl, hoff, hl'⟩
  refine ⟨rfl, hoff.away.trans fun m hm => hsame m ?_, hl', hoff.1.trans he⟩
  rw [List.mem_singleton]
  rintro rfl
  exact hm (.head l)

/-- `ll_link_node_first` puts a detached node in front of any list. -/
lemma llLinkNodeFirst_all (h : IsLl s.nodes s.ll l) (hnot : n ∉ l) (hn : Detached s.nodes n) :
    wp (llLinkNodeFirst n) (fun r s' => r = 0 ∧ s'.nodes.SameOff s.nodes (n :: l) ∧
      IsLl s'.nodes s'.ll (n :: l)) E s := by
  cases l with
  | nil =>
      have hhead : s.ll.head = none := h.links.head_eq
      rw [llLinkNodeFirst, wp_bind, wp_gets, hhead]
      refine wp_imp (linkOnly_spec h hn) ?_
      rintro r s' ⟨hr, hs, hl⟩
      refine ⟨hr, ?_, hl⟩
      rw [hs]
      exact ⟨rfl, fun _ _ => ⟨rfl, rfl⟩⟩
  | cons a l => exact llLinkNodeFirst_spec h (List.cons_ne_nil a l) hnot hn

/-- **`ll_add_first` puts a new node in front.** -/
theorem llAddFirst_spec (h : IsLl s.nodes s.ll l) (hn : s.nodes.e n = none) :
    wp (llAddFirst (some n) e) (fun r s' => r = 0 ∧ s'.nodes.SameAway s.nodes (n :: l) ∧
      IsLl s'.nodes s'.ll (n :: l) ∧
      s'.nodes.e = Function.update s.nodes.e n (some e)) E s := by
  rw [llAddFirst, wp_bind]
  refine wp_imp (newLlNode_spec h hn) ?_
  rintro _ s₁ ⟨hnot, hl, hd, hsame, he⟩
  refine wp_imp (llLinkNodeFirst_all hl hnot hd) ?_
  rintro r s₂ ⟨rfl, hoff, hl'⟩
  refine ⟨rfl, hoff.away.trans fun m hm => hsame m ?_, hl', hoff.1.trans he⟩
  rw [List.mem_singleton]
  rintro rfl
  exact hm (.head l)

@[simp] lemma wp_dropTail {Q : Unit → LlState → Prop} : wp (dropTail n) Q E s ↔
    Q () { s with ll.tail := if s.ll.tail = some n then none else s.ll.tail } := by
  rw [dropTail, wp_bind, wp_gets]
  split_ifs with h
  · rfl
  · rfl

@[simp] lemma wp_dropHead {Q : Unit → LlState → Prop} : wp (dropHead n) Q E s ↔
    Q () { s with ll.head := if s.ll.head = some n then none else s.ll.head } := by
  rw [dropHead, wp_bind, wp_gets]
  split_ifs with h
  · rfl
  · rfl

lemma wp_advanceHead {Q : Unit → LlState → Prop} (hn : s.Live n)
    (hm : ∀ m, s.nodes.next n = some m → s.Live m)
    (hq : Q () { s with
      ll.head := s.nodes.next n
      nodes.prev := fun b => if s.nodes.next n = some b then none else s.nodes.prev b }) :
    wp (advanceHead n) Q E s := by
  rw [advanceHead, wp_bind]
  refine wp_getNext hn ?_
  cases hnext : s.nodes.next n with
  | none => simpa [hnext] using hq
  | some m =>
      dsimp only
      rw [wp_bind, wp_setHead]
      refine wp_setPrev (hm m hnext) ?_
      have hfun : (fun b => if s.nodes.next n = some b then none else s.nodes.prev b) =
          Function.update s.nodes.prev m none := by
        funext b
        simp [hnext, Function.update_apply, eq_comm]
      rwa [hfun, hnext] at hq

lemma wp_retreatTail {Q : Unit → LlState → Prop} (hn : s.Live n)
    (hm : ∀ m, s.nodes.prev n = some m → s.Live m)
    (hq : Q () { s with
      ll.tail := s.nodes.prev n
      nodes.next := fun b => if s.nodes.prev n = some b then none else s.nodes.next b }) :
    wp (retreatTail n) Q E s := by
  rw [retreatTail, wp_bind]
  refine wp_getPrev hn ?_
  cases hprev : s.nodes.prev n with
  | none => simpa [hprev] using hq
  | some m =>
      dsimp only
      rw [wp_bind, wp_setTail]
      refine wp_setNext (hm m hprev) ?_
      have hfun : (fun b => if s.nodes.prev n = some b then none else s.nodes.next b) =
          Function.update s.nodes.next m none := by
        funext b
        simp [hprev, Function.update_apply, eq_comm]
      rwa [hfun, hprev] at hq

/-- **`ll_remove_first` frees the node at the head** and returns its element. -/
theorem llRemoveFirst_spec (h : IsLl s.nodes s.ll (n :: l)) (he : s.nodes.e n = some e) :
    wp llRemoveFirst (fun r s' => r = some e ∧ s'.nodes.SameAway s.nodes (n :: l) ∧
      IsLl s'.nodes s'.ll l ∧ s'.nodes.e = Function.update s.nodes.e n none) E s := by
  have hsize : s.ll.size ≠ 0 := by
    rw [h.links.size_eq]
    simp
  have hhead : s.ll.head = some n := h.links.head_eq
  have hnext : s.nodes.next n = l.head? := h.links.seg.2.1.trans (Option.or_none ..)
  have hnl := (List.nodup_cons.mp h.links.nodup).1
  have htail : (if s.ll.tail = some n then none else s.ll.tail) = l.getLast? := by
    rw [h.links.tail_eq]
    cases l with
    | nil => simp
    | cons b l =>
        rw [List.getLast?_cons_cons, if_neg]
        exact fun heq => hnl (List.mem_of_getLast? heq)
  rw [llRemoveFirst, wp_bind, wp_gets, if_neg hsize, hhead]
  simp only [wp_bind, wp_follow, wp_dropTail]
  refine wp_advanceHead (h.live n (.head l)) (fun m hm => h.live m (.tail n ?_)) ?_
  · exact List.mem_of_head? (hnext.symm.trans hm)
  refine wp_getElem he ?_
  rw [freeLlNode, wp_modify, wp_decSize, wp_pure]
  dsimp only
  rw [htail, hnext]
  refine ⟨rfl, fun m hm => ?_, ⟨?_, fun m hm => ?_⟩, rfl⟩
  · have hml : l.head? ≠ some m := fun heq => hm (.tail n (List.mem_of_head? heq))
    have hmn : m ≠ n := (ne_of_mem_of_not_mem List.mem_cons_self hm).symm
    exact ⟨rfl, if_neg hml, Function.update_of_ne hmn _ _⟩
  · exact h.links.popFront (fun _ _ => rfl) fun _ _ => rfl
  · change (Function.update s.nodes.e n none m).isSome
    rw [Function.update_of_ne (ne_of_mem_of_not_mem hm hnl)]
    exact h.live m (.tail n hm)

/-- **`ll_remove_last` frees the node at the tail** and returns its element. -/
theorem llRemoveLast_spec (h : IsLl s.nodes s.ll (l ++ [n])) (he : s.nodes.e n = some e) :
    wp llRemoveLast (fun r s' => r = some e ∧ s'.nodes.SameAway s.nodes (l ++ [n]) ∧
      IsLl s'.nodes s'.ll l ∧ s'.nodes.e = Function.update s.nodes.e n none) E s := by
  have hmem : n ∈ l ++ [n] := by simp
  have hsize : s.ll.size ≠ 0 := by
    rw [h.links.size_eq]
    simp
  have htail : s.ll.tail = some n := by simpa using h.links.tail_eq
  have hprev : s.nodes.prev n = l.getLast? := h.links.links.1
  have hnl : n ∉ l := fun hn => (List.nodup_append.mp h.links.nodup).2.2 n hn n (by simp) rfl
  -- the head moves only if the last node is the first one as well
  have hhead : (if s.ll.head = some n then none else s.ll.head) = l.head? := by
    rw [h.links.head_eq]
    cases l with
    | nil => simp
    | cons b l =>
        rw [List.cons_append, List.head?_cons, if_neg]
        · rfl
        · exact fun heq => hnl (Option.some.inj heq ▸ List.mem_cons_self)
  rw [llRemoveLast, wp_bind, wp_gets, if_neg hsize, htail]
  simp only [wp_bind, wp_follow, wp_dropHead]
  -- the tail retreats to the node before, which ends the list now
  refine wp_retreatTail (h.live n hmem) (fun m hm => h.live m (List.mem_append_left _ ?_)) ?_
  · exact List.mem_of_getLast? (hprev.symm.trans hm)
  refine wp_getElem he ?_
  rw [freeLlNode, wp_modify, wp_decSize, wp_pure]
  dsimp only
  rw [hhead, hprev]
  refine ⟨rfl, fun m hm => ?_, ⟨?_, fun m hm => ?_⟩, rfl⟩
  · have hml : l.getLast? ≠ some m := fun heq =>
      hm (List.mem_append_left _ (List.mem_of_getLast? heq))
    have hmn : m ≠ n := (ne_of_mem_of_not_mem hmem hm).symm
    exact ⟨if_neg hml, rfl, Function.update_of_ne hmn _ _⟩
  · exact h.links.popBack (fun _ _ => rfl) fun _ _ => rfl
  · change (Function.update s.nodes.e n none m).isSome
    rw [Function.update_of_ne (ne_of_mem_of_not_mem hm hnl)]
    exact h.live m (List.mem_append_left _ hm)

lemma llRemoveFirst_nil (h : IsLl s.nodes s.ll []) :
    wp llRemoveFirst (fun r s' => r = none ∧ s' = s) E s := by
  have hsize : s.ll.size = 0 := h.links.size_eq
  rw [llRemoveFirst, wp_bind, wp_gets, if_pos hsize]
  exact ⟨rfl, rfl⟩

lemma llRemoveLast_nil (h : IsLl s.nodes s.ll []) :
    wp llRemoveLast (fun r s' => r = none ∧ s' = s) E s := by
  have hsize : s.ll.size = 0 := h.links.size_eq
  rw [llRemoveLast, wp_bind, wp_gets, if_pos hsize]
  exact ⟨rfl, rfl⟩

lemma llRotate_nil (h : IsLl s.nodes s.ll []) :
    wp llRotate (fun r s' => r = -2 ∧ s' = s) E s := by
  have hsize : s.ll.size = 0 := h.links.size_eq
  rw [llRotate, wp_bind, wp_gets, if_pos hsize]
  exact ⟨rfl, rfl⟩

/-! ### Searching -/

/-- **A node that is removed** leaves its list; it is freed unless a buffer takes its address. -/
theorem llRemoveNode_spec (addrsToFree : Option (CircBuf Ptr))
    (h : IsLl s.nodes s.ll (l₁ ++ n :: l₂)) :
    wp (llRemoveNode n addrsToFree) (fun r s' =>
      r = (0, addrsToFree.map fun buf => (circBufWrite buf n).getD buf) ∧
      s'.nodes.SameAway s.nodes (l₁ ++ n :: l₂) ∧ IsLl s'.nodes s'.ll (l₁ ++ l₂) ∧
      s'.nodes.e = if addrsToFree.isSome then s.nodes.e
        else Function.update s.nodes.e n none) E s := by
  have hnot : n ∉ l₁ ++ l₂ := (List.nodup_cons.mp (List.nodup_middle.mp h.links.nodup)).1
  rw [llRemoveNode.eq_def, wp_bind]
  refine wp_imp (llUnlinkNode_spec h) ?_
  rintro _ s₁ ⟨-, hoff, hl, hd⟩
  cases addrsToFree with
  | some buf => exact ⟨rfl, hoff.away, hl, hoff.1⟩
  | none =>
      rw [wp_bind, freeLlNode, wp_modify]
      refine ⟨rfl, fun m hm => ?_, ⟨hl.links, fun m hm => ?_⟩, ?_⟩
      · have hmn : m ≠ n := (ne_of_mem_of_not_mem (by simp) hm).symm
        obtain ⟨hnext, hprev, he⟩ := hoff.away m hm
        exact ⟨hnext, hprev, (Function.update_of_ne hmn _ _).trans he⟩
      · change (Function.update s₁.nodes.e n none m).isSome
        rw [Function.update_of_ne (ne_of_mem_of_not_mem hm hnot)]
        exact hl.live m hm
      · change Function.update s₁.nodes.e n none = _
        rw [hoff.1]
        rfl

section

variable {α : Type} [DecidableEq α] {func : Ptr → Option α} {cVal : α}

/-- The node's element is one that matches. -/
def Matches (nodes : Nodes) (func : Ptr → Option α) (cVal : α) (n : Ptr) : Bool :=
  (nodes.e n).bind func = some cVal

/-- The loop finds the first match on the rest of the list. -/
lemma findNode_spec (h : IsLl s.nodes s.ll l) (hf : ∀ n ∈ l, ((s.nodes.e n).bind func).isSome)
    (hl : l = l₁ ++ l₂) {fuel : ℕ} (hfuel : l₂.length ≤ fuel) :
    wp (findNode func cVal fuel l₂.head?)
      (fun r s' => r = l₂.find? (Matches s.nodes func cVal) ∧ s' = s) E s := by
  induction l₂ generalizing l₁ fuel with
  | nil =>
      cases fuel <;> exact ⟨rfl, rfl⟩
  | cons a l₂ ih =>
      obtain ⟨fuel, rfl⟩ : ∃ k, fuel = k + 1 := ⟨fuel - 1, by simp at hfuel; omega⟩
      have hal : a ∈ l := by simp [hl]
      obtain ⟨v, hv⟩ := Option.isSome_iff_exists.mp (hf a hal)
      obtain ⟨e, he, hfe⟩ := Option.bind_eq_some_iff.mp hv
      have hnext : s.nodes.next a = l₂.head? := by
        rw [hl] at h
        exact h.links.links.2
      simp only [List.head?_cons, findNode, wp_bind]
      refine wp_getElem he ?_
      simp only [callOn, hfe, wp_pure]
      by_cases hmatch : v = cVal
      · rw [if_pos hmatch, List.find?_cons_of_pos (by simp [Matches, hv, hmatch])]
        exact ⟨rfl, rfl⟩
      · rw [if_neg hmatch, wp_bind, List.find?_cons_of_neg (by simp [Matches, hv, hmatch])]
        refine wp_getNext (h.live a hal) ?_
        rw [hnext]
        have hrest : l = (l₁ ++ [a]) ++ l₂ := by simp [hl]
        exact ih hrest (by simpa using hfuel)

/-- The loop finds the first match on the list. -/
lemma findNode_head (h : IsLl s.nodes s.ll l)
    (hf : ∀ n ∈ l, ((s.nodes.e n).bind func).isSome) :
    wp (findNode func cVal s.ll.size s.ll.head)
      (fun r s' => r = l.find? (Matches s.nodes func cVal) ∧ s' = s) E s := by
  rw [h.links.head_eq]
  exact findNode_spec h hf (List.nil_append l).symm h.links.size_eq.ge

/-- **`ll_find` reports the first match.** -/
theorem llFind_spec (h : IsLl s.nodes s.ll l)
    (hf : ∀ n ∈ l, ((s.nodes.e n).bind func).isSome) :
    wp (llFind func cVal) (fun r s' => s' = s ∧
      r = match l.find? (Matches s.nodes func cVal) with
        | some n => (0, s.nodes.e n)
        | none => (-2, none)) E s := by
  rw [llFind, wp_bind, wp_gets, wp_bind]
  refine wp_imp (findNode_head h hf) ?_
  rintro r t ⟨rfl, rfl⟩
  cases hn : l.find? (Matches t.nodes func cVal) with
  | none => exact ⟨rfl, rfl⟩
  | some n =>
      obtain ⟨e, he⟩ := Option.isSome_iff_exists.mp (h.live n (List.mem_of_find?_eq_some hn))
      dsimp only
      rw [wp_bind]
      exact wp_getElem he ⟨rfl, by rw [he]⟩

/-- **`ll_remove` removes the first match**, if there is one. -/
theorem llRemove_spec (addrsToFree : Option (CircBuf Ptr)) (h : IsLl s.nodes s.ll (l₁ ++ n :: l₂))
    (hf : ∀ m ∈ l₁ ++ n :: l₂, ((s.nodes.e m).bind func).isSome)
    (hn : Matches s.nodes func cVal n) (hl₁ : ∀ m ∈ l₁, ¬ Matches s.nodes func cVal m) :
    wp (llRemove func cVal addrsToFree) (fun r s' =>
      r = (0, s.nodes.e n, addrsToFree.map fun buf => (circBufWrite buf n).getD buf) ∧
      s'.nodes.SameAway s.nodes (l₁ ++ n :: l₂) ∧ IsLl s'.nodes s'.ll (l₁ ++ l₂) ∧
      s'.nodes.e = if addrsToFree.isSome then s.nodes.e
        else Function.update s.nodes.e n none) E s := by
  have hfirst : (l₁ ++ n :: l₂).find? (Matches s.nodes func cVal) = some n := by
    rw [List.find?_append, List.find?_eq_none.mpr hl₁, Option.none_or, List.find?_cons_of_pos hn]
  obtain ⟨e, he⟩ := Option.isSome_iff_exists.mp (h.live n (by simp))
  rw [llRemove, wp_bind, wp_gets, wp_bind]
  refine wp_imp (findNode_head h hf) ?_
  rintro r _ ⟨rfl, rfl⟩
  rw [hfirst]
  dsimp only
  rw [wp_bind]
  refine wp_getElem he ?_
  rw [wp_bind]
  refine wp_imp (llRemoveNode_spec addrsToFree h) ?_
  rintro r s' ⟨rfl, hrest⟩
  exact ⟨by rw [he], hrest⟩

lemma llRemove_none (addrsToFree : Option (CircBuf Ptr)) (h : IsLl s.nodes s.ll l)
    (hf : ∀ m ∈ l, ((s.nodes.e m).bind func).isSome)
    (hl : ∀ m ∈ l, ¬ Matches s.nodes func cVal m) :
    wp (llRemove func cVal addrsToFree)
      (fun r s' => r = (-2, none, addrsToFree) ∧ s' = s) E s := by
  rw [llRemove, wp_bind, wp_gets, wp_bind]
  refine wp_imp (findNode_head h hf) ?_
  rintro r _ ⟨rfl, rfl⟩
  rw [List.find?_eq_none.mpr hl]
  exact ⟨rfl, rfl⟩

end

end

end ShrekOS
