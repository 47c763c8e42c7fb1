/-
The linked lists of `kern/data_structures/ll.c`, with their nodes in memory.

* `Nodes`, `Ll`: the fields of the nodes and a list's head, tail and size;
* `llLinkNodeLast`, `llLinkNodeFirst`, `llLinkNodeSorted`, `llUnlinkNode`, `llRotate`,
  `llPeek`: the operations, link by link as in the source.

The tests for `NULL` arguments are left out: no caller below passes `NULL`, and the
element of a node is never `NULL`.
-/
import ShrekOS.Lib.Cmd
import ShrekOS.Data.Heap

namespace ShrekOS

open Kit Kit.Cmd

/-- The fields of the `ll_node_t` in memory; an address without an element holds no
node. -/
structure Nodes where
  next : Ptr → Option Ptr
  prev : Ptr → Option Ptr
  e : Ptr → Option Ptr

/-- `ll_t`. -/
structure Ll where
  head : Option Ptr
  tail : Option Ptr
  size : ℕ
  deriving DecidableEq

/-- `ll_init`. -/
def llInit : Ll := ⟨none, none, 0⟩

/-- The nodes in memory and the list an operation works on. -/
structure LlState where
  nodes : Nodes
  ll : Ll

/-- Commands on a list. -/
abbrev LlM (α : Type) : Type := Cmd Fault LlState α

/-! ### Pointers and fields -/

/-- The pointer is followed: a fault if it is `NULL`. -/
def follow : Option Ptr → LlM Ptr
  | some p => pure p
  | none => fault .badPointer

/-- `n->next`. -/
def getNext (n : Ptr) : LlM (Option Ptr) := do
  require ((← gets fun s => s.nodes.e n).isSome) .badPointer
  gets fun s => s.nodes.next n

/-- `n->prev`. -/
def getPrev (n : Ptr) : LlM (Option Ptr) := do
  require ((← gets fun s => s.nodes.e n).isSome) .badPointer
  gets fun s => s.nodes.prev n

/-- `n->e`. -/
def getElem (n : Ptr) : LlM Ptr := do follow (← gets fun s => s.nodes.e n)

/-- `n->next = p`. -/
def setNext (n : Ptr) (p : Option Ptr) : LlM Unit := do
  require ((← gets fun s => s.nodes.e n).isSome) .badPointer
  modify fun s => { s with nodes.next := Function.update s.nodes.next n p }

/-- `n->prev = p`. -/
def setPrev (n : Ptr) (p : Option Ptr) : LlM Unit := do
  require ((← gets fun s => s.nodes.e n).isSome) .badPointer
  modify fun s => { s with nodes.prev := Function.update s.nodes.prev n p }

/-- `ll->head = p`. -/
def setHead (p : Option Ptr) : LlM Unit := modify fun s => { s with ll.head := p }

/-- `ll->tail = p`. -/
def setTail (p : Option Ptr) : LlM Unit := modify fun s => { s with ll.tail := p }

/-- `ll->size++`. -/
def incSize : LlM Unit := modify fun s => { s with ll.size := s.ll.size + 1 }

/-- `ll->size--`. -/
def decSize : LlM Unit := modify fun s => { s with ll.size := s.ll.size - 1 }

/-! ### The operations -/

/-- `ll_peek`: the element at the head, or `none` for the code `-1`. -/
def llPeek : LlM (Option Ptr) := do
  let ll ← gets LlState.ll
  if ll.size = 0 then
    return none
  return some (← getElem (← follow ll.head))

/-- `ll_rotate`. -/
def llRotate : LlM ℤ := do
  let ll ← gets LlState.ll
  if ll.size = 0 then
    return -2
  if ll.size = 1 then
    return 0
  let origHead ← follow ll.head
  let head ← getNext origHead
  setHead head
  setPrev (← follow head) none
  setNext origHead none
  setPrev origHead ll.tail
  setNext (← follow ll.tail) (some origHead)
  setTail (some origHead)
  return 0

/-- The first node of an empty list. -/
def linkOnly (newNode : Ptr) : LlM ℤ := do
  require ((← gets LlState.ll).tail = none) .assertFailed
  setHead (some newNode)
  setTail (some newNode)
  incSize
  return 0

/-- `ll_link_node_last`. -/
def llLinkNodeLast (newNode : Ptr) : LlM ℤ := do
  let ll ← gets LlState.ll
  match ll.head with
  | none => linkOnly newNode
  | some _ =>
      setNext (← follow ll.tail) (some newNode)
      setPrev newNode ll.tail
      setTail (some newNode)
      incSize
      return 0

/-- `ll_link_node_first`. -/
def llLinkNodeFirst (newNode : Ptr) : LlM ℤ := do
  let ll ← gets LlState.ll
  match ll.head with
  | none => linkOnly newNode
  | some head =>
      setPrev head (some newNode)
      setNext newNode (some head)
      setHead (some newNode)
      incSize
      return 0

/-- `(*cmp)(a, b)`, for a comparison that may meet a bad pointer. -/
def call (cmp : Ptr → Ptr → Option ℤ) (a b : Ptr) : LlM ℤ :=
  match cmp a b with
  | some c => pure c
  | none => fault .badPointer

/-- The loop of `ll_link_node_sorted`: the node to insert after, or `none` for the code `-2`. The
element 0 is `NULL`. -/
def sortedSpot (cmp : Ptr → Ptr → Option ℤ) (newE : Ptr) : ℕ → Ptr → LlM (Option Ptr)
  | 0, _ => fault .outOfFuel
  | fuel + 1, currNode => do
      match ← getNext currNode with
      | none => return some currNode
      | some next =>
          let currE ← getElem currNode
          if currE = 0 then
            return none
          let nextE ← getElem next
          require ((← call cmp currE nextE) ≤ 0) .assertFailed
          if 0 ≤ (← call cmp newE currE) ∧ (← call cmp newE nextE) ≤ 0 then
            return some currNode
          sortedSpot cmp newE fuel next

/-- `ll_link_node_sorted`. -/
def llLinkNodeSorted (newNode : Ptr) (cmp : Ptr → Ptr → Option ℤ) : LlM ℤ := do
  let newE ← getElem newNode
  if newE = 0 then
    return -2
  let ll ← gets LlState.ll
  match ll.head with
  | none => linkOnly newNode
  | some head =>
      if (← call cmp newE (← getElem head)) < 0 then
        llLinkNodeFirst newNode
      else
        match ← sortedSpot cmp newE (ll.size + 1) head with
        | none => return -2
        | some currNode =>
            match ← getNext currNode with
            | none => llLinkNodeLast newNode
            | some next =>
                setPrev next (some newNode)
                setNext newNode (some next)
                setNext currNode (some newNode)
                setPrev newNode (some currNode)
                incSize
                return 0

/-- The list's head and tail move off a node that is unlinked. -/
def unlinkEnds (node : Ptr) : LlM Unit := do
  let ll ← gets LlState.ll
  if ll.head = some node ∧ ll.tail = some node then
    setHead none
    setTail none
  else if ll.head = some node then
    setHead (← getNext node)
  else if ll.tail = some node then
    setTail (← getPrev node)

/-- `if (node->next != NULL) node->next->prev = node->prev`. -/
def bypassNext (node : Ptr) : LlM Unit := do
  match ← getNext node with
  | some next => setPrev next (← getPrev node)
  | none => return

/-- `if (node->prev != NULL) node->prev->next = node->next`. -/
def bypassPrev (node : Ptr) : LlM Unit := do
  match ← getPrev node with
  | some prev => setNext prev (← getNext node)
  | none => return

/-- `ll_unlink_node`: `-1` on a list of size 0; whether the node is on this list is
not checked. -/
def llUnlinkNode (node : Ptr) : LlM ℤ := do
  if (← gets LlState.ll).size = 0 then
    return -1
  unlinkEnds node
  bypassNext node
  bypassPrev node
  setNext node none
  setPrev node none
  decSize
  return 0

end ShrekOS
