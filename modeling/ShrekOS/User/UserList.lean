/-
The singly linked lists of `user/libthread/ll.c`, and when they behave as sequences.

* `UserLl`: a list and the nodes in memory; `UserLl.llAdd`, `UserLl.llDeq`, `UserLl.llRemove`,
  `UserLl.llFind`: the functions, link by link as in the source;
* `UserLl.Chain`: the nodes that are met from the head, with the elements and the tail;
* `UserLl.Op.onSeq`: the same call on a sequence of elements;
* `UserLl.Op.Allows`: **the condition** on a call: an element that is removed is not there, or
  is the only one, or is first met neither at the head nor at the tail;
* `behavesAsSequence_iff`: **a sequence of calls goes as on a sequence of elements iff each
  call meets the condition**.
-/
import ShrekOS.Lib.Cmd
import ShrekOS.Lib.DList
import ShrekOS.Data.Heap

namespace ShrekOS

open Kit Kit.Cmd

/-- `ll_node_t` of the thread library. -/
structure UserNode where
  e : Ptr
  next : Option Ptr
  deriving DecidableEq

/-- `ll_t` of the thread library, with the nodes in memory. -/
structure UserLl where
  nodes : Ptr → Option UserNode
  head : Option Ptr
  tail : Option Ptr
  size : ℕ

namespace UserLl

/-- Commands on a list. -/
abbrev UllM (α : Type) : Type := Cmd Fault UserLl α

/-! ### The functions -/

/-- `ll_init`, in memory that holds anything. -/
def llInit (nodes : Ptr → Option UserNode) : UserLl := ⟨nodes, none, none, 0⟩

/-- `*n`. -/
def read (n : Ptr) : UllM UserNode := do
  match ← gets fun s => s.nodes n with
  | some node => pure node
  | none => fault .badPointer

/-- `*n = node`. -/
def write (n : Ptr) (node : UserNode) : UllM Unit :=
  modify fun s => { s with nodes := Function.update s.nodes n (some node) }

/-- `free(n)`. -/
def free (n : Ptr) : UllM Unit := do
  let _ ← read n
  modify fun s => { s with nodes := Function.update s.nodes n none }

/-- A pointer that is followed. -/
def deref : Option Ptr → UllM Ptr
  | some p => pure p
  | none => fault .badPointer

/-- `ll_add`; `newNode` is what `malloc` returns. -/
def llAdd (value newNode : Ptr) : UllM ℤ := do
  write newNode ⟨value, none⟩
  let s ← get
  match s.head with
  | none =>
      require (s.tail = none) .assertFailed
      modify fun s => { s with head := some newNode, tail := some newNode, size := s.size + 1 }
      return 0
  | some _ =>
      let tail ← deref s.tail
      write tail { (← read tail) with next := some newNode }
      modify fun s => { s with tail := some newNode, size := s.size + 1 }
      return 0

/-- `ll_deq`: its code, and the element at the head if there is one. -/
def llDeq : UllM (ℤ × Option Ptr) := do
  let s ← get
  if s.size = 0 then
    return (-1, none)
  let head ← deref s.head
  modify fun s => { s with tail := if s.tail = some head then none else s.tail }
  let node ← read head
  modify fun s => { s with head := node.next }
  free head
  modify fun s => { s with size := s.size - 1 }
  return (0, some node.e)

/-- The loop of `ll_remove`: the first node whose next one has the data, or the last node. -/
def spotBefore (data : Ptr) : ℕ → Option Ptr → UllM (Option Ptr)
  | _, none => return none
  | 0, some _ => fault .outOfFuel
  | fuel + 1, some node => do
      match (← read node).next with
      | none => return some node
      | some next =>
          if (← read next).e ≠ data then
            spotBefore data fuel (some next)
          else
            return some node

/-- `ll_remove`. -/
def llRemove (data : Ptr) : UllM ℤ := do
  let s ← get
  match ← spotBefore data s.size s.head with
  | none => return -1
  | some n =>
      let node ← read n
      if node.e = data then
        free n
        modify fun s => { s with head := none, tail := none, size := s.size - 1 }
        return 0
      match node.next with
      | none => return -1
      | some next =>
          write n { node with next := (← read next).next }
          free next
          modify fun s => { s with size := s.size - 1 }
          return 0

/-- The loop of `ll_find`. -/
def findFrom (func : Ptr → Ptr) (cVal : Ptr) : ℕ → Option Ptr → UllM (ℤ × Option Ptr)
  | _, none => return (-1, none)
  | 0, some _ => fault .outOfFuel
  | fuel + 1, some n => do
      let node ← read n
      if func node.e = cVal then
        return (0, some node.e)
      findFrom func cVal fuel node.next

/-- `ll_find`: its code, and the element that was found. -/
def llFind (func : Ptr → Ptr) (cVal : Ptr) : UllM (ℤ × Option Ptr) := do
  let s ← get
  findFrom func cVal s.size s.head

/-! ### Calls -/

/-- A call on a list. What `malloc` returns is an argument of `add`. -/
inductive Op where
  | add (value newNode : Ptr)
  | deq
  | find (func : Ptr → Ptr) (cVal : Ptr)
  | remove (data : Ptr)

/-- A call in memory: its code, and the element that it reports. -/
def Op.run : Op → UllM (ℤ × Option Ptr)
  | add value newNode => do return (← llAdd value newNode, none)
  | deq => llDeq
  | find func cVal => llFind func cVal
  | remove data => do return (← llRemove data, none)

/-- The same call on a sequence of elements. -/
def Op.onSeq (xs : List Ptr) : Op → (ℤ × Option Ptr) × List Ptr
  | add value _ => ((0, none), xs ++ [value])
  | deq =>
      match xs with
      | [] => ((-1, none), [])
      | x :: xs => ((0, some x), xs)
  | find func cVal =>
      match xs.find? fun x => func x = cVal with
      | none => ((-1, none), xs)
      | some x => ((0, some x), xs)
  | remove data => if data ∈ xs then ((0, none), xs.erase data) else ((-1, none), xs)

/-- The pointer to the next node. -/
def next (s : UserLl) (n : Ptr) : Option Ptr := (s.nodes n).bind UserNode.next

/-- The element of a node. -/
def elem (s : UserLl) (n : Ptr) : Option Ptr := (s.nodes n).map UserNode.e

/-- The nodes met from the head are those of `l`, with the elements `xs`; the tail points to
the last one. -/
structure Chain (s : UserLl) (l xs : List Ptr) : Prop where
  met : Met s.next s.head l
  elem : l.map s.elem = xs.map some
  tail : s.tail = l.getLast?
  size : s.size = xs.length

/-- The list stores the elements. -/
def Stores (s : UserLl) (xs : List Ptr) : Prop := ∃ l, s.Chain l xs

/-- `malloc` returns memory that is not in use. -/
def Op.Legal (s : UserLl) : Op → Prop
  | add _ newNode => s.nodes newNode = none
  | _ => True

/-- **The condition** on a call: an element to remove is not there, or is the only one, or is
first met neither at the head nor at the tail. -/
def Op.Allows (xs : List Ptr) : Op → Prop
  | remove data => data ∉ xs ∨ xs = [data] ∨
      ∃ ys zs, xs = ys ++ data :: zs ∧ data ∉ ys ∧ ys ≠ [] ∧ zs ≠ []
  | _ => True

/-- In each call of a sequence `malloc` returns memory that is not in use. -/
def AllLegal : UserLl → List Op → Prop
  | _, [] => True
  | s, op :: ops => op.Legal s ∧ AllLegal (op.run s).2 ops

/-- A sequence of calls goes as on a sequence of elements. -/
def BehavesAsSequence : UserLl → List Ptr → List Op → Prop
  | s, xs, [] => s.Stores xs
  | s, xs, op :: ops => s.Stores xs ∧ (op.run s).1.toOption = some (op.onSeq xs).1 ∧
      BehavesAsSequence (op.run s).2 (op.onSeq xs).2 ops

/-- Each call of a sequence meets the condition. -/
def AllAllow : List Ptr → List Op → Prop
  | _, [] => True
  | xs, op :: ops => op.Allows xs ∧ AllAllow (op.onSeq xs).2 ops

/-! ### Lists in memory -/

section

variable {s : UserLl} {l l₁ l₂ xs : List Ptr} {n a b c data : Ptr} {E : Fault → UserLl → Prop}

lemma wp_read {node : UserNode} {Q : UserNode → UserLl → Prop} (hn : s.nodes n = some node)
    (hq : Q node s) : wp (read n) Q E s := by
  rw [read, wp_bind, wp_gets, hn]
  exact hq

lemma wp_free {node : UserNode} {Q : Unit → UserLl → Prop} (hn : s.nodes n = some node)
    (hq : Q () { s with nodes := Function.update s.nodes n none }) : wp (free n) Q E s := by
  rw [free, wp_bind]
  exact wp_read hn hq

/-- The nodes of a list are in memory. -/
lemma Chain.live (h : s.Chain l xs) (hn : n ∈ l) :
    ∃ node, s.nodes n = some node ∧ node.e ∈ xs := by
  have hmem : s.elem n ∈ xs.map some := h.elem ▸ List.mem_map_of_mem hn
  obtain ⟨x, hx, helem⟩ := List.mem_map.mp hmem
  obtain ⟨node, hnode, rfl⟩ := Option.map_eq_some_iff.mp helem.symm
  exact ⟨node, hnode, hx⟩

lemma Chain.length_eq (h : s.Chain l xs) : l.length = xs.length := by
  simpa using congrArg List.length h.elem

lemma Chain.head_eq (h : s.Chain l xs) : s.head = l.head? := h.met.head_eq

/-- What the pointer of a node says. -/
lemma next_eq {node : UserNode} (hn : s.nodes n = some node) : s.next n = node.next := by
  rw [next, hn]
  rfl

lemma elem_eq {node : UserNode} (hn : s.nodes n = some node) : s.elem n = some node.e := by
  rw [UserLl.elem, hn]
  rfl

/-- The list is met from its head: it is empty iff the head is `NULL`. -/
lemma Stores.eq_nil (h : s.Stores xs) (hh : s.head = none) : xs = [] := by
  obtain ⟨l, hl⟩ := h
  have hnil : l = [] := List.head?_eq_none_iff.mp (hl.head_eq.symm.trans hh)
  have hlen := hl.length_eq
  rw [hnil] at hlen
  exact List.length_eq_zero_iff.mp hlen.symm

/-- The first element is that of the head. -/
lemma Stores.head_elem (h : s.Stores xs) (hh : s.head = some a) : s.elem a = xs.head? := by
  obtain ⟨l, hl⟩ := h
  obtain ⟨l', rfl⟩ := List.head?_eq_some_iff.mp (hl.head_eq.symm.trans hh)
  have helem := hl.elem
  cases xs with
  | nil => simp at helem
  | cons x xs =>
      rw [List.map_cons, List.map_cons, List.cons.injEq] at helem
      exact helem.1

/-- The tail points to a node in memory. -/
lemma Stores.tail_live (h : s.Stores xs) (ht : s.tail = some a) : s.nodes a ≠ none := by
  obtain ⟨l, hl⟩ := h
  obtain ⟨node, hnode, -⟩ := hl.live (List.mem_of_getLast? (hl.tail.symm.trans ht))
  rw [hnode]
  exact Option.some_ne_none node

/-! ### Adding, taking off and searching -/

/-- The nodes with one linked behind the last one. -/
def linked (s : UserLl) (last n value : Ptr) (node : UserNode) : UserLl where
  nodes := Function.update (Function.update s.nodes n (some ⟨value, none⟩)) last
    (some { node with next := some n })
  head := s.head
  tail := some n
  size := s.size + 1

/-- A node behind the last one is a node more. -/
lemma Chain.linked (h : s.Chain l xs) {last value : Ptr} {node : UserNode}
    (hlast : l.getLast? = some last) (hnode : s.nodes last = some node) (hnot : n ∉ l) :
    (s.linked last n value node).Chain (l ++ [n]) (xs ++ [value]) := by
  have hmem := List.mem_of_getLast? hlast
  have hne : n ≠ last := (ne_of_mem_of_not_mem hmem hnot).symm
  have hself : (s.linked last n value node).nodes n = some ⟨value, none⟩ := by
    rw [UserLl.linked]
    dsimp only
    rw [Function.update_of_ne hne, Function.update_self]
  have hat : (s.linked last n value node).nodes last = some { node with next := some n } :=
    Function.update_self ..
  have hother : ∀ m ∈ l, m ≠ last → (s.linked last n value node).nodes m = s.nodes m := by
    intro m hm hml
    rw [UserLl.linked]
    dsimp only
    rw [Function.update_of_ne hml, Function.update_of_ne (ne_of_mem_of_not_mem hm hnot)]
  -- only the link of the last node is new
  have hlink : ∀ m ∈ l, (s.linked last n value node).next m =
      if l.getLast? = some m then some n else s.next m := by
    intro m hm
    rw [hlast]
    by_cases hml : m = last
    · rw [hml, if_pos rfl, next_eq hat]
    · rw [if_neg (fun heq => hml (Option.some.inj heq).symm), next, next, hother m hm hml]
  have helem : ∀ m ∈ l, (s.linked last n value node).elem m = s.elem m := by
    intro m hm
    by_cases hml : m = last
    · rw [hml, elem_eq hat, elem_eq hnode]
    · rw [UserLl.elem, UserLl.elem, hother m hm hml]
  have hhead : s.head.or (some n) = s.head := by
    rw [h.head_eq]
    cases l with
    | nil => exact absurd hmem List.not_mem_nil
    | cons a l => rfl
  -- so the nodes that are met are those of before, and then `n`
  have hpush := h.met.push (next_eq hself) hlink h.met.nodup
  rw [hhead] at hpush
  refine ⟨hpush, ?_, (List.getLast?_concat ..).symm, ?_⟩
  · rw [List.map_append, List.map_append, ← h.elem, List.map_congr_left helem]
    simp [elem_eq hself]
  · rw [List.length_append, List.length_singleton, ← h.size]
    rfl

/-- **`ll_add` appends.** -/
lemma llAdd_spec (h : s.Chain l xs) {value : Ptr} (hn : s.nodes n = none) :
    wp (llAdd value n) (fun r s' => r = 0 ∧ s'.Chain (l ++ [n]) (xs ++ [value])) E s := by
  have hnot : n ∉ l := fun hmem => by
    obtain ⟨node, hnode, -⟩ := h.live hmem
    exact Option.some_ne_none node (hnode.symm.trans hn)
  rw [llAdd, wp_bind, write, wp_modify, wp_bind, wp_get]
  dsimp only
  cases hh : s.head with
  | none =>
      obtain rfl : l = [] := List.head?_eq_none_iff.mp (h.head_eq.symm.trans hh)
      obtain rfl : xs = [] := List.length_eq_zero_iff.mp h.length_eq.symm
      have hzero : s.size = 0 := h.size
      simp only [wp_bind, wp_require, wp_modify, wp_pure]
      refine ⟨fun _ => ⟨trivial, ?_, ?_, rfl, ?_⟩, fun hno => absurd h.tail hno⟩
      · refine .cons ?_
        simpa [next] using Met.nil
      · simp [UserLl.elem]
      · simp [hzero]
  | some a =>
      have hne : l ≠ [] := List.ne_nil_of_mem (List.mem_of_head? (h.head_eq.symm.trans hh))
      have hlast := List.getLast?_eq_some_getLast hne
      obtain ⟨node, hnode, -⟩ := h.live (List.getLast_mem hne)
      have hnode' : Function.update s.nodes n (some ⟨value, none⟩) (l.getLast hne) = some node := by
        rw [Function.update_of_ne (ne_of_mem_of_not_mem (List.getLast_mem hne) hnot), hnode]
      have hpost : (s.linked (l.getLast hne) n value node).Chain (l ++ [n]) (xs ++ [value]) :=
        h.linked hlast hnode hnot
      simp only [h.tail.trans hlast, deref, wp_bind, wp_pure]
      refine wp_read hnode' ?_
      rw [write, wp_modify, wp_modify]
      rw [UserLl.linked, hh] at hpost
      exact ⟨trivial, hpost⟩

/-- **`ll_deq` takes the first element off.** -/
lemma llDeq_spec (h : s.Chain l xs) : wp llDeq (fun r s' =>
    r = (Op.deq.onSeq xs).1 ∧ s'.Stores (Op.deq.onSeq xs).2) E s := by
  have hsize := h.size
  rw [llDeq, wp_bind, wp_get]
  cases xs with
  | nil =>
      have hzero : s.size = 0 := hsize
      rw [if_pos hzero]
      exact ⟨rfl, l, h⟩
  | cons x xs =>
      obtain ⟨a, l, rfl⟩ := List.exists_cons_of_ne_nil (l := l) (by
        rintro rfl
        simpa using h.elem)
      obtain ⟨node, hnode, -⟩ := h.live (.head l)
      have helem := h.elem
      rw [List.map_cons, List.map_cons, List.cons.injEq, elem_eq hnode] at helem
      have hal := (List.nodup_cons.mp h.met.nodup).1
      -- the rest is met from the second node on
      have hrest : Met s.next node.next l := by
        have hmet := h.met
        rw [h.head_eq, List.head?_cons] at hmet
        cases hmet with
        | cons hmet => exact next_eq hnode ▸ hmet
      have hother : ∀ m ∈ l, Function.update s.nodes a none m = s.nodes m := fun m hm =>
        Function.update_of_ne (ne_of_mem_of_not_mem hm hal) _ _
      have hne : s.size ≠ 0 := by rw [hsize]; simp
      simp only [if_neg hne, h.head_eq, List.head?_cons, deref, wp_bind, wp_pure, wp_modify]
      refine wp_read hnode ?_
      -- the first node is freed, and no other one is written to
      refine wp_free (show s.nodes a = some node from hnode) ⟨?_, l, ?_, ?_, ?_, ?_⟩
      · rw [Option.some.inj helem.1]
        rfl
      · refine hrest.congr fun m hm => ?_
        rw [next, next]
        exact congrArg (Option.bind · UserNode.next) (hother m hm)
      · change l.map _ = xs.map some
        rw [← helem.2]
        refine List.map_congr_left fun m hm => ?_
        rw [UserLl.elem, UserLl.elem]
        exact congrArg (Option.map UserNode.e) (hother m hm)
      -- the tail goes with the last element
      · change (if s.tail = some a then none else s.tail) = l.getLast?
        rw [h.tail]
        cases l with
        | nil => simp
        | cons b l =>
            rw [List.getLast?_cons_cons, if_neg]
            exact fun heq => hal (List.mem_of_getLast? heq)
      · change s.size - 1 = xs.length
        rw [hsize, List.length_cons, Nat.add_sub_cancel]

/-- The loop finds the first match among the rest of the list. -/
lemma findFrom_spec {func : Ptr → Ptr} {cVal : Ptr} (hmet : Met s.next (l.head?) l)
    (helem : l.map s.elem = xs.map some) {fuel : ℕ} (hfuel : xs.length ≤ fuel) :
    wp (findFrom func cVal fuel l.head?) (fun r s' => s' = s ∧
      r = match xs.find? fun x => func x = cVal with
        | none => (-1, none)
        | some x => (0, some x)) E s := by
  induction l generalizing xs fuel with
  | nil =>
      obtain rfl : xs = [] := by simpa using helem.symm
      cases fuel <;> exact ⟨rfl, rfl⟩
  | cons a l ih =>
      obtain ⟨x, xs, rfl⟩ := List.exists_cons_of_ne_nil (l := xs) (by
        rintro rfl
        simp at helem)
      obtain ⟨fuel, rfl⟩ : ∃ k, fuel = k + 1 := ⟨fuel - 1, by simp at hfuel; omega⟩
      rw [List.map_cons, List.map_cons, List.cons.injEq] at helem
      obtain ⟨node, hnode, rfl⟩ := Option.map_eq_some_iff.mp helem.1
      have hrest : Met s.next node.next l := by
        cases hmet with
        | cons hmet => exact next_eq hnode ▸ hmet
      rw [List.head?_cons, findFrom, wp_bind]
      refine wp_read hnode ?_
      by_cases hx : func node.e = cVal
      · rw [if_pos hx, List.find?_cons_of_pos (by simpa using hx)]
        exact ⟨rfl, rfl⟩
      · rw [if_neg hx, List.find?_cons_of_neg (by simpa using hx), hrest.head_eq]
        exact ih (hrest.head_eq ▸ hrest) helem.2 (by simpa using hfuel)

/-- **`ll_find` reports the first match.** -/
lemma llFind_spec {func : Ptr → Ptr} {cVal : Ptr} (h : s.Chain l xs) :
    wp (llFind func cVal) (fun r s' => s' = s ∧
      r = match xs.find? fun x => func x = cVal with
        | none => (-1, none)
        | some x => (0, some x)) E s := by
  rw [llFind, wp_bind, wp_get, h.head_eq]
  exact findFrom_spec (h.head_eq ▸ h.met) h.elem h.size.ge

/-! ### Removing -/

/-- The loop stops before the first of the next nodes that has the data, or at the last node. -/
lemma spotBefore_spec (hmet : Met s.next (some a) (a :: (l₁ ++ l₂)))
    (helem : ∀ n ∈ l₁, s.elem n ≠ some data) (hl₂ : ∀ b ∈ l₂.head?, s.elem b = some data)
    (hlive : ∀ n ∈ a :: (l₁ ++ l₂), s.nodes n ≠ none) {fuel : ℕ}
    (hfuel : (l₁ ++ l₂).length < fuel) :
    wp (spotBefore data fuel (some a)) (fun r s' => s' = s ∧ r = (a :: l₁).getLast?) E s := by
  -- by induction on the nodes that do not hold the element
  induction l₁ generalizing a fuel with
  | nil =>
      obtain ⟨fuel, rfl⟩ : ∃ k, fuel = k + 1 := ⟨fuel - 1, by simp at hfuel; omega⟩
      obtain ⟨node, hnode⟩ := Option.ne_none_iff_exists'.mp (hlive a (.head _))
      have hnext : node.next = l₂.head? := (next_eq hnode).symm.trans hmet.first_eq
      rw [spotBefore, wp_bind]
      refine wp_read hnode ?_
      cases l₂ with
      | nil =>
          rw [hnext]
          exact ⟨rfl, rfl⟩
      | cons b l₂ =>
          obtain ⟨node', hnode', rfl⟩ := Option.map_eq_some_iff.mp (hl₂ b rfl)
          simp only [hnext, List.head?_cons, wp_bind]
          refine wp_read hnode' ?_
          rw [if_neg (not_not.mpr rfl)]
          exact ⟨rfl, rfl⟩
  | cons c l₁ ih =>
      obtain ⟨fuel, rfl⟩ : ∃ k, fuel = k + 1 := ⟨fuel - 1, by simp at hfuel; omega⟩
      obtain ⟨node, hnode⟩ := Option.ne_none_iff_exists'.mp (hlive a (.head _))
      obtain ⟨node', hnode'⟩ := Option.ne_none_iff_exists'.mp (hlive c (.tail a (.head _)))
      have hnext : node.next = some c := (next_eq hnode).symm.trans hmet.first_eq
      have hne : node'.e ≠ data := fun heq => helem c (.head l₁) (heq ▸ elem_eq hnode')
      rw [spotBefore, wp_bind]
      refine wp_read hnode ?_
      simp only [hnext, wp_bind]
      refine wp_read hnode' ?_
      rw [if_pos hne, List.getLast?_cons_cons]
      refine ih hmet.tail (fun n hn => helem n (.tail c hn)) (fun n hn => ?_) ?_
      · exact hlive n (.tail a hn)
      · simpa using hfuel

/-- The loop from the head of a list. -/
lemma Chain.spotBefore (h : s.Chain (a :: (l₁ ++ l₂)) xs)
    (helem : ∀ n ∈ l₁, s.elem n ≠ some data) (hl₂ : ∀ b ∈ l₂.head?, s.elem b = some data) :
    wp (spotBefore data s.size s.head) (fun r s' => s' = s ∧ r = (a :: l₁).getLast?) E s := by
  have hmet := h.met
  have hsize := h.length_eq
  rw [h.head_eq, List.head?_cons] at hmet ⊢
  rw [← h.size, List.length_cons] at hsize
  refine spotBefore_spec hmet helem hl₂ (fun n hn => ?_) (by omega)
  obtain ⟨node, hnode, -⟩ := h.live hn
  exact hnode ▸ Option.some_ne_none node

lemma spotBefore_head (h : s.Chain (a :: l₂) xs)
    (hl₂ : ∀ b ∈ l₂.head?, s.elem b = some data) :
    wp (spotBefore data s.size s.head) (fun r s' => s' = s ∧ r = some a) E s := by
  have hnone : ∀ n ∈ ([] : List Ptr), s.elem n ≠ some data := nofun
  exact Chain.spotBefore (show s.Chain (a :: ([] ++ l₂)) xs from h) hnone hl₂

/-- No node is removed if neither a next one nor the last one has the data. -/
lemma llRemove_none (h : s.Chain (a :: l) xs) (helem : ∀ n ∈ l, s.elem n ≠ some data)
    (hlast : (a :: l).getLast? = some c) (hc : s.elem c ≠ some data) :
    wp (llRemove data) (fun r s' => r = -1 ∧ s' = s) E s := by
  obtain ⟨node, hnode, -⟩ := h.live (List.mem_of_getLast? hlast)
  have hne : node.e ≠ data := fun heq => hc (heq ▸ elem_eq hnode)
  have hnext : node.next = none := by
    have hmet := h.met
    rw [← List.dropLast_append_getLast? c hlast] at hmet
    exact (next_eq hnode).symm.trans hmet.link_eq
  rw [llRemove, wp_bind, wp_get, wp_bind]
  rw [← List.append_nil l] at h
  refine wp_imp (h.spotBefore helem (by simp)) ?_
  rintro r _ ⟨rfl, rfl⟩
  simp only [hlast, wp_bind]
  refine wp_read hnode ?_
  rw [if_neg hne, hnext]
  exact ⟨rfl, rfl⟩

/-- The elements of the nodes of a list are on it. -/
lemma elem_ne {ys : List Ptr} (h : l.map s.elem = ys.map some) (hdata : data ∉ ys) :
    ∀ n ∈ l, s.elem n ≠ some data := by
  intro n hn heq
  have hmem : s.elem n ∈ ys.map some := h ▸ List.mem_map_of_mem hn
  rw [heq, List.mem_map] at hmem
  obtain ⟨x, hx, hxd⟩ := hmem
  exact hdata (Option.some.inj hxd ▸ hx)

/-- An element that is not on the list is not removed. -/
lemma llRemove_absent (h : s.Chain l xs) (hdata : data ∉ xs) :
    wp (llRemove data) (fun r s' => r = -1 ∧ s' = s) E s := by
  have helem := elem_ne h.elem hdata
  cases l with
  | nil =>
      rw [llRemove, wp_bind, wp_get, wp_bind, h.head_eq]
      cases s.size <;> exact ⟨rfl, rfl⟩
  | cons a l =>
      have hlast := List.getLast?_eq_some_getLast (List.cons_ne_nil a l)
      refine llRemove_none h (fun n hn => helem n (.tail a hn)) hlast ?_
      exact helem _ (List.getLast_mem _)

/-- The only element is removed. -/
lemma llRemove_only (h : s.Chain [a] [data]) :
    wp (llRemove data) (fun r s' => r = 0 ∧ s'.Chain [] []) E s := by
  obtain ⟨node, hnode, hx⟩ := h.live (.head [])
  have hsize : s.size = 1 := h.size
  rw [llRemove, wp_bind, wp_get, wp_bind]
  refine wp_imp (spotBefore_head h nofun) ?_
  rintro r s ⟨rfl, rfl⟩
  simp only [wp_bind]
  refine wp_read hnode ?_
  rw [if_pos (List.mem_singleton.mp hx), wp_bind]
  refine wp_free hnode ⟨rfl, .nil, rfl, rfl, ?_⟩
  change s.size - 1 = 0
  rw [hsize]

/-- The memory after the node behind `c` was unlinked and freed. -/
def bypassed (s : UserLl) (c b : Ptr) (node : UserNode) : UserLl where
  nodes := Function.update (Function.update s.nodes c (some { node with next := s.next b })) b none
  head := s.head
  tail := s.tail
  size := s.size - 1

/-- The node behind the one where the loop stops is unlinked and freed. -/
lemma llRemove_behind {node : UserNode} (h : s.Chain (a :: (l₁ ++ b :: l₂)) xs)
    (helem : ∀ n ∈ l₁, s.elem n ≠ some data) (hb : s.elem b = some data)
    (hlast : (a :: l₁).getLast? = some c) (hc : s.nodes c = some node) (hne : node.e ≠ data) :
    wp (llRemove data) (fun r s' => r = 0 ∧ s' = s.bypassed c b node) E s := by
  have hsplit : a :: (l₁ ++ b :: l₂) = (a :: l₁).dropLast ++ c :: b :: l₂ := by
    rw [← List.cons_append, ← List.dropLast_append_getLast? c hlast, List.append_assoc]
    simp
  have hmet := h.met
  rw [hsplit] at hmet
  have hcb : b ≠ c := by
    have hnd := hmet.nodup
    rw [List.nodup_append, List.nodup_cons] at hnd
    exact fun heq => hnd.2.1.1 (heq ▸ .head l₂)
  have hnext : node.next = some b := (next_eq hc).symm.trans hmet.link_eq
  obtain ⟨node', hnode', -⟩ := Option.map_eq_some_iff.mp hb
  rw [llRemove, wp_bind, wp_get, wp_bind]
  refine wp_imp (h.spotBefore helem (fun d hd => Option.some.inj hd ▸ hb)) ?_
  rintro r s ⟨rfl, rfl⟩
  simp only [hlast, wp_bind]
  refine wp_read hc ?_
  rw [if_neg hne]
  simp only [hnext, wp_bind]
  refine wp_read hnode' ?_
  rw [write, wp_modify]
  have hstill : Function.update s.nodes c (some { node with next := node'.next }) b =
    some node' := by
    rw [Function.update_of_ne hcb, hnode']
  refine wp_free hstill ⟨rfl, ?_⟩
  rw [bypassed, next_eq hnode']

/-- The node of an element that is first met behind the head is unlinked, unless it is the
second one and the head has the same element. -/
lemma llRemove_later {x : Ptr} {us ws : List Ptr} (h : s.Chain l (x :: (us ++ data :: ws)))
    (hus : data ∉ us) (hx : us ≠ [] ∨ x ≠ data) :
    ∃ a l₁ b l₂ c node, l = a :: (l₁ ++ b :: l₂) ∧ s.elem a = some x ∧
      l₁.map s.elem = us.map some ∧ l₂.map s.elem = ws.map some ∧
      (a :: l₁).getLast? = some c ∧ s.nodes c = some node ∧
      wp (llRemove data) (fun r s' => r = 0 ∧ s' = s.bypassed c b node) E s := by
  have helem := h.elem
  rw [List.map_cons, List.map_append, List.map_cons] at helem
  obtain ⟨a, l', rfl, ha, hl'⟩ := List.map_eq_cons_iff.mp helem
  obtain ⟨l₁, l'', rfl, h₁, hl''⟩ := List.map_eq_append_iff.mp hl'
  obtain ⟨b, l₂, rfl, hb, h₂⟩ := List.map_eq_cons_iff.mp hl''
  have hlast := List.getLast?_eq_some_getLast (List.cons_ne_nil a l₁)
  have hmem := List.getLast_mem (List.cons_ne_nil a l₁)
  obtain ⟨node, hnode, -⟩ := h.live (List.mem_append_left (b :: l₂) hmem)
  have hne : node.e ≠ data := by
    rintro rfl
    have hc := elem_eq hnode
    cases l₁ with
    | nil =>
        have hxd : x = node.e := Option.some.inj (ha.symm.trans hc)
        have hnil : us = [] := by simpa using h₁.symm
        exact hx.elim (fun hno => hno hnil) fun hno => hno hxd
    | cons d l₁ => exact elem_ne h₁ hus _ (List.getLast_mem _) hc
  exact ⟨a, l₁, b, l₂, _, node, rfl, ha, h₁, h₂, hlast, hnode,
    llRemove_behind h (elem_ne h₁ hus) hb hlast hnode hne⟩

/-- The elements of the other nodes stay. -/
lemma elem_bypassed {node : UserNode} (hnode : s.nodes c = some node) (hn : n ≠ b) :
    (s.bypassed c b node).elem n = s.elem n := by
  rw [UserLl.elem, UserLl.elem, UserLl.bypassed]
  dsimp only
  rw [Function.update_of_ne hn]
  by_cases hnc : n = c
  · rw [hnc, Function.update_self, hnode]
    rfl
  · rw [Function.update_of_ne hnc]

/-- **A node between two others is unlinked.** -/
lemma Chain.bypassed {x : Ptr} {us ws : List Ptr} {node : UserNode}
    (h : s.Chain (a :: (l₁ ++ b :: l₂)) (x :: (us ++ data :: ws))) (ha : s.elem a = some x)
    (h₁ : l₁.map s.elem = us.map some) (h₂ : l₂.map s.elem = ws.map some)
    (hlast : (a :: l₁).getLast? = some c) (hnode : s.nodes c = some node) (hne : l₂ ≠ []) :
    (s.bypassed c b node).Chain (a :: (l₁ ++ l₂)) (x :: (us ++ ws)) := by
  have hsplit : a :: l₁ = (a :: l₁).dropLast ++ [c] :=
    (List.dropLast_append_getLast? c hlast).symm
  have hmet := h.met
  have hbnot : b ∉ (a :: l₁) ++ l₂ :=
    (List.nodup_cons.mp (List.nodup_middle.mp (hmet.nodup))).1
  have hcb : c ≠ b := ne_of_mem_of_not_mem
    (List.mem_append_left l₂ (List.mem_of_getLast? hlast)) hbnot
  -- the node before `b` points past it now, and nothing else is written
  have hat : (s.bypassed c b node).nodes c = some { node with next := s.next b } := by
    rw [UserLl.bypassed]
    dsimp only
    rw [Function.update_of_ne hcb, Function.update_self]
  have hother : ∀ m ∈ (a :: l₁) ++ l₂, m ≠ c → (s.bypassed c b node).nodes m = s.nodes m := by
    intro m hm hmc
    rw [UserLl.bypassed]
    dsimp only
    rw [Function.update_of_ne (ne_of_mem_of_not_mem hm hbnot), Function.update_of_ne hmc]
  have helem : ∀ m ∈ (a :: l₁) ++ l₂, (s.bypassed c b node).elem m = s.elem m := fun m hm =>
    elem_bypassed hnode (ne_of_mem_of_not_mem hm hbnot)
  refine ⟨?_, ?_, ?_, ?_⟩
  · rw [← List.cons_append, hsplit, List.append_assoc, List.singleton_append]
    rw [← List.cons_append, hsplit, List.append_assoc, List.singleton_append] at hmet
    have hnd := hmet.nodup
    refine hmet.bypass (next_eq hat) fun m hm => ?_
    have hmc : m ≠ c := by
      rintro rfl
      rw [List.nodup_middle, List.nodup_cons] at hnd
      have hsub := (List.append_sublist_append_left (a :: l₁).dropLast).mpr
        (List.sublist_cons_self b l₂)
      exact hnd.1 (hsub.subset hm)
    have hmem : m ∈ (a :: l₁) ++ l₂ := by
      rcases List.mem_append.mp hm with hm | hm
      · exact List.mem_append_left _ (List.dropLast_subset _ hm)
      · exact List.mem_append_right _ hm
    rw [next, next, hother m hmem hmc]
  · rw [← List.cons_append, List.map_congr_left helem, List.map_append, List.map_cons, ha, h₁, h₂,
      List.map_cons, List.map_append, List.cons_append]
  -- `b` was not the last node, so the tail is right as it is
  · have htail := h.tail
    have hl₂ : (a :: (l₁ ++ b :: l₂)).getLast? = (a :: (l₁ ++ l₂)).getLast? := by
      obtain ⟨d, l₂, rfl⟩ := List.exists_cons_of_ne_nil hne
      rw [← List.cons_append, ← List.cons_append, List.getLast?_append, List.getLast?_append,
        List.getLast?_cons_cons]
    exact htail.trans hl₂
  · have hsize := h.size
    rw [UserLl.bypassed]
    dsimp only
    rw [hsize]
    simp only [List.length_cons, List.length_append]
    omega

/-- The whole list is dropped if the first two elements are the data. -/
lemma llRemove_twice {ws : List Ptr} (h : s.Chain l (data :: data :: ws)) :
    wp (llRemove data) (fun _ s' => s'.head = none) E s := by
  have helem := h.elem
  rw [List.map_cons] at helem
  obtain ⟨a, l', rfl, ha, hl'⟩ := List.map_eq_cons_iff.mp helem
  obtain ⟨b, l₂, rfl, hb, -⟩ := List.map_eq_cons_iff.mp hl'
  obtain ⟨node, hnode, rfl⟩ := Option.map_eq_some_iff.mp ha
  rw [llRemove, wp_bind, wp_get, wp_bind]
  refine wp_imp (spotBefore_head h (by simpa using hb)) ?_
  rintro r s ⟨rfl, rfl⟩
  simp only [wp_bind]
  refine wp_read hnode ?_
  rw [if_pos rfl, wp_bind]
  exact wp_free hnode rfl

/-- A list whose head has the data and is followed by other elements is not what it should be
after a removal. -/
lemma llRemove_head {zs : List Ptr} (h : s.Chain l (data :: zs)) (hzs : zs ≠ []) :
    wp (llRemove data) (fun r s' => ¬ (r = 0 ∧ s'.Stores zs)) (fun _ _ => True) s := by
  by_cases hdata : data ∈ zs
  · obtain ⟨us, ws, rfl, hus⟩ := List.eq_append_cons_of_mem hdata
    cases us with
    | nil =>
        refine wp_imp (llRemove_twice h) fun r s' hhead => ?_
        exact fun hwrong => hzs (hwrong.2.eq_nil hhead)
    | cons y us =>
        obtain ⟨a, l₁, b, l₂, c, node, rfl, ha, h₁, h₂, hlast, hnode, hwp⟩ :=
          llRemove_later (E := fun _ _ => True) h hus (.inl (List.cons_ne_nil y us))
        refine wp_imp hwp ?_
        rintro r s' ⟨-, rfl⟩ ⟨-, hstores⟩
        have hab : a ≠ b := by
          rintro rfl
          exact (List.nodup_cons.mp h.met.nodup).1 (by simp)
        have hhead := hstores.head_elem (a := a) h.head_eq
        rw [elem_bypassed hnode hab, ha] at hhead
        exact hus (Option.some.inj hhead ▸ .head us)
  · have helem := h.elem
    rw [List.map_cons] at helem
    obtain ⟨a, l', rfl, ha, hl'⟩ := List.map_eq_cons_iff.mp helem
    have hne : l' ≠ [] := by
      rintro rfl
      exact hzs (by simpa using hl'.symm)
    obtain ⟨b, l₂, rfl⟩ := List.exists_cons_of_ne_nil hne
    have hlast : (a :: b :: l₂).getLast? = some ((b :: l₂).getLast hne) := by
      rw [List.getLast?_cons_cons, List.getLast?_eq_some_getLast hne]
    have hother := elem_ne hl' hdata
    refine wp_imp (llRemove_none h hother hlast (hother _ (List.getLast_mem hne))) ?_
    rintro r t ⟨rfl, -⟩ ⟨hzero, -⟩
    exact absurd hzero (by decide)

/-- A list whose last node alone has the data keeps its tail when that is removed. -/
lemma llRemove_tail {x : Ptr} {us : List Ptr} (h : s.Chain l (x :: (us ++ [data])))
    (hus : data ∉ x :: us) :
    wp (llRemove data) (fun r s' => ¬ (r = 0 ∧ s'.Stores (x :: us))) (fun _ _ => True) s := by
  obtain ⟨hx, hus⟩ := not_or.mp (mt List.mem_cons.mpr hus)
  obtain ⟨a, l₁, b, l₂, c, node, rfl, ha, h₁, h₂, hlast, hnode, hwp⟩ :=
    llRemove_later (E := fun _ _ => True) h hus (.inr (Ne.symm hx))
  obtain rfl : l₂ = [] := by simpa using h₂
  refine wp_imp hwp ?_
  rintro r s' ⟨-, rfl⟩ ⟨-, hstores⟩
  have htail : s.tail = some b := by
    rw [h.tail, ← List.cons_append, List.getLast?_concat]
  exact hstores.tail_live (a := b) htail (Function.update_self ..)

/-! ### Sequences of calls -/

/-- **A call that meets the condition goes as on a sequence.** -/
theorem Stores.run (h : s.Stores xs) {op : Op} (hop : op.Legal s) (hallow : op.Allows xs) :
    wp op.run (fun r s' => r = (op.onSeq xs).1 ∧ s'.Stores (op.onSeq xs).2) E s := by
  obtain ⟨l, hl⟩ := h
  cases op with
  | add value n =>
      rw [Op.run, wp_bind]
      refine wp_imp (llAdd_spec hl hop) ?_
      rintro r s' ⟨rfl, hl'⟩
      exact ⟨rfl, _, hl'⟩
  | deq => exact llDeq_spec hl
  | find func cVal =>
      refine wp_imp (llFind_spec hl) ?_
      rintro r t ⟨rfl, rfl⟩
      rw [Op.onSeq]
      cases xs.find? fun x => func x = cVal <;> exact ⟨rfl, l, hl⟩
  | remove data =>
      rw [Op.run, wp_bind, Op.onSeq]
      rcases hallow with hdata | rfl | ⟨ys, zs, rfl, hdata, hys, hzs⟩
      · rw [if_neg hdata]
        refine wp_imp (llRemove_absent hl hdata) ?_
        rintro r t ⟨rfl, rfl⟩
        exact ⟨rfl, l, hl⟩
      · obtain ⟨a, rfl⟩ := List.length_eq_one_iff.mp hl.length_eq
        rw [if_pos (List.mem_singleton_self data)]
        refine wp_imp (llRemove_only hl) ?_
        rintro r s' ⟨rfl, hl'⟩
        exact ⟨rfl, [], by simpa using hl'⟩
      · obtain ⟨x, us, rfl⟩ := List.exists_cons_of_ne_nil hys
        obtain ⟨hx, hus⟩ := not_or.mp (mt List.mem_cons.mpr hdata)
        rw [List.cons_append] at hl ⊢
        obtain ⟨a, l₁, b, l₂, c, node, rfl, ha, h₁, h₂, hlast, hnode, hwp⟩ :=
          llRemove_later (E := E) hl hus (.inr (Ne.symm hx))
        have hne : l₂ ≠ [] := by
          rintro rfl
          exact hzs (by simpa using h₂.symm)
        have herase : (x :: (us ++ data :: zs)).erase data = x :: (us ++ zs) := by
          rw [← List.cons_append, List.erase_append_right _ hdata, List.erase_cons_head,
            List.cons_append]
        rw [if_pos (by simp), herase]
        refine wp_imp hwp ?_
        rintro r s' ⟨rfl, rfl⟩
        exact ⟨rfl, a :: (l₁ ++ l₂), hl.bypassed ha h₁ h₂ hlast hnode hne⟩

/-- **A call that does not meet the condition goes wrong**: its code is not that of the
sequence, or the list is not the sequence after it. -/
theorem Stores.run_wrong (h : s.Stores xs) {op : Op} (hallow : ¬ op.Allows xs) :
    wp op.run (fun r s' => ¬ (r = (op.onSeq xs).1 ∧ s'.Stores (op.onSeq xs).2))
      (fun _ _ => True) s := by
  obtain ⟨l, hl⟩ := h
  cases op with
  | add | deq | find => exact absurd trivial hallow
  | remove data =>
      rw [Op.Allows, not_or, not_or, not_not] at hallow
      obtain ⟨hdata, honly, hmiddle⟩ := hallow
      obtain ⟨ys, zs, rfl, hys⟩ := List.eq_append_cons_of_mem hdata
      rw [Op.run, wp_bind, Op.onSeq, if_pos hdata, List.erase_append_right _ hys,
        List.erase_cons_head]
      cases ys with
      | nil =>
          have hzs : zs ≠ [] := fun hnil => honly (by rw [hnil, List.nil_append])
          refine wp_imp (llRemove_head hl hzs) fun r s' hwrong hpost => hwrong ⟨?_, hpost.2⟩
          exact congrArg Prod.fst hpost.1
      | cons x us =>
          obtain rfl : zs = [] := by
            by_contra hzs
            exact hmiddle ⟨x :: us, zs, rfl, hys, List.cons_ne_nil x us, hzs⟩
          refine wp_imp (llRemove_tail hl hys) fun r s' hwrong hpost => hwrong ⟨?_, ?_⟩
          · exact congrArg Prod.fst hpost.1
          · simpa using hpost.2

/-- **A sequence of calls goes as on a sequence of elements iff each call meets the
condition.** -/
theorem behavesAsSequence_iff (h : s.Stores xs) {ops : List Op} (hlegal : AllLegal s ops) :
    BehavesAsSequence s xs ops ↔ AllAllow xs ops := by
  induction ops generalizing s xs with
  | nil => exact ⟨fun _ => trivial, fun _ => h⟩
  | cons op ops ih =>
      obtain ⟨hop, hops⟩ := hlegal
      constructor
      · rintro ⟨-, hans, hrest⟩
        obtain ⟨s', hrun⟩ := run_of_toOption hans
        have hstores : (op.run s).2.Stores (op.onSeq xs).2 := by
          cases ops with
          | nil => exact hrest
          | cons op' ops => exact hrest.1
        refine ⟨?_, (ih hstores hops).mp hrest⟩
        by_contra hallow
        rw [hrun] at hstores
        exact wp_ok (h.run_wrong hallow) hrun ⟨rfl, hstores⟩
      · rintro ⟨hallow, hrest⟩
        obtain ⟨r, s', hrun, rfl, hstores⟩ := wp_returns (h.run hop hallow)
        rw [BehavesAsSequence, hrun]
        rw [hrun] at hops
        exact ⟨h, rfl, (ih hstores hops).mpr hrest⟩

end

/-- A new list is empty. -/
lemma stores_llInit (nodes : Ptr → Option UserNode) : (llInit nodes).Stores [] :=
  ⟨[], .nil, rfl, rfl, rfl⟩

/-- Three elements, the one in the middle removed. -/
theorem behavesAsSequence_middle : BehavesAsSequence (llInit fun _ => none) []
    [.add 1 10, .add 2 20, .add 3 30, .remove 2, .find id 3, .deq] := by
  refine (behavesAsSequence_iff (stores_llInit _) ?_).mpr ?_
  · exact ⟨rfl, rfl, rfl, trivial, trivial, trivial, trivial⟩
  · refine ⟨trivial, trivial, trivial, .inr (.inr ⟨[1], [3], rfl, ?_⟩), trivial, trivial, trivial⟩
    decide

/-- The head of a list of two is not removed: the call fails. -/
theorem not_behavesAsSequence_head : ¬ BehavesAsSequence (llInit fun _ => none) []
    [.add 1 10, .add 2 20, .remove 1] := by
  rintro ⟨-, -, -, -, -, hremove, -⟩
  exact absurd hremove (by decide +kernel)

end UserLl

end ShrekOS
