/-
The linked lists of the kernel as sequences of nodes, over any sequence of calls.

* `ListHeap`: the nodes in memory and all the lists; `ListOp.run`: a call on one of them;
* `Seqs`, `ListOp.onSeqs`: the same call on sequences of nodes;
* `ListHeap.Stores`: each list is met from its head by `next` and, in reverse, from its tail by
  `prev`, and no node is on two of them;
* `ListOp.call_spec`: what a call does to its own list; `ListHeap.Stores.run`: and to them all;
* `behavesAsSequences_of_stores`: **every sequence of calls that only link nodes of no list and
  only unlink nodes of the given one goes as on sequences**.
-/
import ShrekOS.Data.LlOps

namespace ShrekOS

open Kit Kit.Cmd

variable {ι : Type}

/-- The nodes in memory and all the lists. -/
structure ListHeap (ι : Type) where
  nodes : Nodes
  lists : ι → Ll

/-- A command on one of the lists. -/
def onList {α : Type} [DecidableEq ι] (i : ι) (c : LlM α) : Cmd Fault (ListHeap ι) α := fun s =>
  let r := c ⟨s.nodes, s.lists i⟩
  (r.1, ⟨r.2.nodes, Function.update s.lists i r.2.ll⟩)

/-! ### Calls -/

/-- A call on a list. What `malloc` returns is an argument. -/
inductive ListOp (ι : Type) where
  | addFirst (i : ι) (value : Ptr) (newNode : Option Ptr)
  | addLast (i : ι) (value : Ptr) (newNode : Option Ptr)
  | linkNodeFirst (i : ι) (node : Ptr)
  | linkNodeLast (i : ι) (node : Ptr)
  | unlinkNode (i : ι) (node : Ptr)
  | remove (i : ι) (func : Ptr → Ptr) (cVal : Ptr) (addrsToFree : Option (CircBuf Ptr))
  | removeFirst (i : ι)
  | removeLast (i : ι)
  | rotate (i : ι)

/-- What a call reports: its code, the element that it removed, and the buffer of addresses to
free after it. -/
structure ListAnswer where
  code : ℤ
  val : Option Ptr
  addrsToFree : Option (CircBuf Ptr)

/-- The answer of a call that only returns a code. -/
def ListAnswer.ofCode (code : ℤ) : ListAnswer := ⟨code, none, none⟩

/-- The answer of a call that returns the element it removed, or none for the code `-2`. -/
def ListAnswer.ofRemoved : Option Ptr → ListAnswer
  | some val => ⟨0, some val, none⟩
  | none => .ofCode (-2)

namespace ListOp

/-- The list of a call. -/
def list : ListOp ι → ι
  | addFirst i _ _ | addLast i _ _ | linkNodeFirst i _ | linkNodeLast i _ | unlinkNode i _
  | remove i _ _ _ | removeFirst i | removeLast i | rotate i => i

/-- The call on its list. -/
def call : ListOp ι → LlM ListAnswer
  | addFirst _ value newNode => do return .ofCode (← llAddFirst newNode value)
  | addLast _ value newNode => do return .ofCode (← llAddLast newNode value)
  | linkNodeFirst _ node => do return .ofCode (← llLinkNodeFirst node)
  | linkNodeLast _ node => do return .ofCode (← llLinkNodeLast node)
  | unlinkNode _ node => do return .ofCode (← llUnlinkNode node)
  | remove _ func cVal addrsToFree => do
      let (code, val, buf) ← llRemove (fun e => some (func e)) cVal addrsToFree
      return ⟨code, val, buf⟩
  | removeFirst _ => do return .ofRemoved (← llRemoveFirst)
  | removeLast _ => do return .ofRemoved (← llRemoveLast)
  | rotate _ => do return .ofCode (← llRotate)

/-- The call in memory. -/
def run [DecidableEq ι] (op : ListOp ι) : Cmd Fault (ListHeap ι) ListAnswer :=
  onList op.list op.call

/-- The same call on a sequence of nodes with their elements. -/
def onSeq :
    ListOp ι → List Ptr → (Ptr → Option Ptr) → ListAnswer × List Ptr × (Ptr → Option Ptr)
  | addFirst _ _ none, l, e => (.ofCode (-2), l, e)
  | addFirst _ value (some n), l, e => (.ofCode 0, n :: l, Function.update e n (some value))
  | addLast _ _ none, l, e => (.ofCode (-2), l, e)
  | addLast _ value (some n), l, e => (.ofCode 0, l ++ [n], Function.update e n (some value))
  | linkNodeFirst _ n, l, e => (.ofCode 0, n :: l, e)
  | linkNodeLast _ n, l, e => (.ofCode 0, l ++ [n], e)
  | unlinkNode _ n, l, e => (.ofCode 0, l.erase n, e)
  | remove _ func cVal buf, l, e =>
      match l.find? fun n => (e n).map func = some cVal with
      | none => (⟨-2, none, buf⟩, l, e)
      | some n => (⟨0, e n, buf.map fun b => (circBufWrite b n).getD b⟩, l.erase n,
          if buf.isSome then e else Function.update e n none)
  | removeFirst _, [], e => (.ofCode (-2), [], e)
  | removeFirst _, n :: l, e => (⟨0, e n, none⟩, l, Function.update e n none)
  | removeLast _, l, e =>
      match l.getLast? with
      | none => (.ofCode (-2), [], e)
      | some n => (⟨0, e n, none⟩, l.dropLast, Function.update e n none)
  | rotate _, [], e => (.ofCode (-2), [], e)
  | rotate _, n :: l, e => (.ofCode 0, l ++ [n], e)

end ListOp

/-- Sequences of nodes, and the elements of the nodes in memory. -/
structure Seqs (ι : Type) where
  seq : ι → List Ptr
  e : Ptr → Option Ptr

/-- The same call on sequences. -/
def ListOp.onSeqs [DecidableEq ι] (op : ListOp ι) (Q : Seqs ι) : ListAnswer × Seqs ι :=
  let r := op.onSeq (Q.seq op.list) Q.e
  (r.1, ⟨Function.update Q.seq op.list r.2.1, r.2.2⟩)

/-! ### Lists and sequences -/

/-- The lists in memory are the given sequences. -/
structure ListHeap.Stores (s : ListHeap ι) (Q : Seqs ι) : Prop where
  next : ∀ i, Met s.nodes.next (s.lists i).head (Q.seq i)
  prev : ∀ i, Met s.nodes.prev (s.lists i).tail (Q.seq i).reverse
  size : ∀ i, (s.lists i).size = (Q.seq i).length
  apart : ∀ n i j, n ∈ Q.seq i → n ∈ Q.seq j → i = j
  live : ∀ i, ∀ n ∈ Q.seq i, (Q.e n).isSome
  elem : s.nodes.e = Q.e

/-- **What a call may be given**: memory that holds no node, a node that is on no list, with
both links `NULL`, or a node of the list. -/
def ListOp.Legal (s : ListHeap ι) (Q : Seqs ι) : ListOp ι → Prop
  | .addFirst _ _ newNode | .addLast _ _ newNode => ∀ n ∈ newNode, s.nodes.e n = none
  | .linkNodeFirst _ n | .linkNodeLast _ n => Detached s.nodes n ∧ ∀ i, n ∉ Q.seq i
  | .unlinkNode i n => n ∈ Q.seq i
  | _ => True

/-- The other lists and their nodes are untouched. -/
def ListHeap.Untouched (s s' : ListHeap ι) (Q : Seqs ι) (i : ι) : Prop :=
  ∀ j ≠ i, s'.lists j = s.lists j ∧ ∀ n ∈ Q.seq j, s'.nodes.next n = s.nodes.next n ∧
    s'.nodes.prev n = s.nodes.prev n ∧ s'.nodes.e n = s.nodes.e n

/-- Each call that may be made returns what the call on the sequences does, and the lists are
those sequences before and after it. -/
def BehavesAsSequences [DecidableEq ι] : ListHeap ι → Seqs ι → List (ListOp ι) → Prop
  | s, Q, [] => s.Stores Q
  | s, Q, op :: ops => s.Stores Q ∧ (op.Legal s Q →
      ∃ s', op.run s = (.ok (op.onSeqs Q).1, s') ∧ s.Untouched s' Q op.list ∧
        BehavesAsSequences s' (op.onSeqs Q).2 ops)

/-! ### One list -/

/-- The node that a call is given. -/
def ListOp.own : ListOp ι → List Ptr
  | .addFirst _ _ newNode | .addLast _ _ newNode => newNode.toList
  | .linkNodeFirst _ n | .linkNodeLast _ n => [n]
  | _ => []

/-- What a call may be given, as far as its own list matters. -/
def ListOp.Fits (nodes : Nodes) (l : List Ptr) : ListOp ι → Prop
  | .addFirst _ _ newNode | .addLast _ _ newNode => ∀ n ∈ newNode, nodes.e n = none
  | .linkNodeFirst _ n | .linkNodeLast _ n => Detached nodes n ∧ n ∉ l
  | .unlinkNode _ n => n ∈ l
  | _ => True

/-- A call puts no node on its list but the one it is given. -/
lemma ListOp.mem_onSeq (op : ListOp ι) {l : List Ptr} {e : Ptr → Option Ptr} {n : Ptr}
    (h : n ∈ (op.onSeq l e).2.1) : n ∈ op.own ++ l := by
  cases op with
  | addFirst i value newNode => cases newNode <;> simpa [onSeq, own] using h
  | addLast i value newNode => cases newNode <;> simpa [onSeq, own, or_comm] using h
  | linkNodeFirst i node => simpa [onSeq, own] using h
  | linkNodeLast i node => simpa [onSeq, own, or_comm] using h
  | unlinkNode i node => exact List.mem_of_mem_erase h
  | remove i func cVal buf =>
      simp only [onSeq] at h
      split at h
      · exact h
      · exact List.mem_of_mem_erase h
  | removeFirst i =>
      cases l with
      | nil => exact h
      | cons a l => exact .tail a h
  | removeLast i =>
      simp only [onSeq] at h
      split at h
      · exact absurd h List.not_mem_nil
      · exact List.dropLast_subset _ h
  | rotate i =>
      cases l with
      | nil => exact h
      | cons a l => simpa [onSeq, own, or_comm] using h

variable {s : LlState} {E : Fault → LlState → Prop} {l : List Ptr}

/-- What a call leaves in memory. -/
def ListOp.Leaves (op : ListOp ι) (s : LlState) (l : List Ptr) (r : ListAnswer) (s' : LlState) :
    Prop :=
  r = (op.onSeq l s.nodes.e).1 ∧ s'.nodes.SameAway s.nodes (op.own ++ l) ∧
    IsLl s'.nodes s'.ll (op.onSeq l s.nodes.e).2.1 ∧ s'.nodes.e = (op.onSeq l s.nodes.e).2.2

/-- The first match of a list, and the list without it. -/
lemma exists_find {p : Ptr → Bool} {n : Ptr} (h : l.find? p = some n) (hnd : l.Nodup) :
    ∃ l₁ l₂, l = l₁ ++ n :: l₂ ∧ p n ∧ (∀ m ∈ l₁, ¬ p m) ∧ l.erase n = l₁ ++ l₂ := by
  obtain ⟨hn, l₁, l₂, rfl, hl₁⟩ := List.find?_eq_some_iff_append.mp h
  have hnot : n ∉ l₁ := fun hmem => (List.nodup_append.mp hnd).2.2 n hmem n (.head l₂) rfl
  refine ⟨l₁, l₂, rfl, hn, fun m hm => by simpa using hl₁ m hm, ?_⟩
  rw [List.erase_append_right _ hnot, List.erase_cons_head]

/-- **What a call does to its list.** -/
theorem ListOp.call_spec (op : ListOp ι) (h : IsLl s.nodes s.ll l) (hop : op.Fits s.nodes l) :
    wp op.call (op.Leaves s l) E s := by
  have hsame : s.nodes.SameAway s.nodes (op.own ++ l) := fun _ _ => ⟨rfl, rfl, rfl⟩
  cases op with
  | addFirst i value newNode =>
      rw [call, wp_bind]
      cases newNode with
      -- `malloc` has failed: nothing is linked
      | none => exact ⟨rfl, hsame, h, rfl⟩
      | some n =>
          refine wp_imp (llAddFirst_spec h (hop n rfl)) ?_
          rintro r s' ⟨rfl, hs, hl, he⟩
          exact ⟨rfl, hs, hl, he⟩
  | addLast i value newNode =>
      rw [call, wp_bind]
      cases newNode with
      | none => exact ⟨rfl, hsame, h, rfl⟩
      | some n =>
          refine wp_imp (llAddLast_spec h (hop n rfl)) ?_
          rintro r s' ⟨rfl, hs, hl, he⟩
          exact ⟨rfl, hs, hl, he⟩
  | linkNodeFirst i n =>
      rw [call, wp_bind]
      refine wp_imp (llLinkNodeFirst_all h hop.2 hop.1) ?_
      rintro r s' ⟨rfl, hs, hl⟩
      exact ⟨rfl, hs.away, hl, hs.1⟩
  | linkNodeLast i n =>
      rw [call, wp_bind]
      refine wp_imp (llLinkNodeLast_spec h hop.2 hop.1) ?_
      rintro r s' ⟨rfl, hs, hl⟩
      exact ⟨rfl, hs.away, hl, hs.1⟩
  | unlinkNode i n =>
      obtain ⟨l₁, l₂, rfl⟩ := List.append_of_mem hop
      -- `erase` takes the first occurrence, and the nodes are all different
      have hnot : n ∉ l₁ := fun hmem =>
        (List.nodup_append.mp h.links.nodup).2.2 n hmem n (.head l₂) rfl
      rw [call, wp_bind]
      refine wp_imp (llUnlinkNode_spec h) ?_
      rintro r s' ⟨rfl, hs, hl, -⟩
      refine ⟨rfl, hs.away, ?_, hs.1⟩
      change IsLl s'.nodes s'.ll ((l₁ ++ n :: l₂).erase n)
      rwa [List.erase_append_right _ hnot, List.erase_cons_head]
  | remove i func cVal buf =>
      -- `func` finds a node just when the search of the sequence does
      have hmatch : ∀ m, Matches s.nodes (fun e => some (func e)) cVal m =
          decide ((s.nodes.e m).map func = some cVal) := by
        intro m
        rw [Matches]
        cases s.nodes.e m <;> rfl
      have hf : ∀ m ∈ l, ((s.nodes.e m).bind fun e => some (func e)).isSome := by
        intro m hm
        obtain ⟨e, he⟩ := Option.isSome_iff_exists.mp (h.live m hm)
        rw [he]
        rfl
      rw [call, wp_bind]
      cases hfind : l.find? fun n => (s.nodes.e n).map func = some cVal with
      | none =>
          have hnone : ∀ m ∈ l, ¬ Matches s.nodes (fun e => some (func e)) cVal m := by
            intro m hm
            rw [hmatch]
            exact List.find?_eq_none.mp hfind m hm
          refine wp_imp (llRemove_none buf h hf hnone) ?_
          rintro r t ⟨rfl, rfl⟩
          simp only [wp_pure, Leaves, onSeq, hfind]
          exact ⟨trivial, hsame, h, trivial⟩
      | some n =>
          obtain ⟨l₁, l₂, rfl, hn, hl₁, herase⟩ := exists_find hfind h.links.nodup
          have hfirst : ∀ m ∈ l₁, ¬ Matches s.nodes (fun e => some (func e)) cVal m := by
            intro m hm
            rw [hmatch]
            exact hl₁ m hm
          refine wp_imp (llRemove_spec buf h hf ((hmatch n).trans hn) hfirst) ?_
          rintro r s' ⟨rfl, hs, hl, he⟩
          simp only [wp_pure, Leaves, onSeq, hfind, herase]
          exact ⟨trivial, hs, hl, he⟩
  | removeFirst i =>
      rw [call, wp_bind]
      cases l with
      | nil =>
          refine wp_imp (llRemoveFirst_nil h) ?_
          rintro r t ⟨rfl, rfl⟩
          exact ⟨rfl, hsame, h, rfl⟩
      | cons n l =>
          obtain ⟨e, he⟩ := Option.isSome_iff_exists.mp (h.live n (.head l))
          refine wp_imp (llRemoveFirst_spec h he) ?_
          rintro r s' ⟨rfl, hs, hl, he'⟩
          simp only [wp_pure, Leaves, onSeq, he]
          exact ⟨rfl, hs, hl, he'⟩
  | removeLast i =>
      rw [call, wp_bind]
      -- the last node, from the other end
      cases l using List.reverseRecOn with
      | nil =>
          refine wp_imp (llRemoveLast_nil h) ?_
          rintro r t ⟨rfl, rfl⟩
          exact ⟨rfl, hsame, h, rfl⟩
      | append_singleton l n =>
          obtain ⟨e, he⟩ := Option.isSome_iff_exists.mp (h.live n (by simp))
          refine wp_imp (llRemoveLast_spec h he) ?_
          rintro r s' ⟨rfl, hs, hl, he'⟩
          simp only [wp_pure, Leaves, onSeq, List.getLast?_concat, List.dropLast_concat, he]
          exact ⟨rfl, hs, hl, he'⟩
  | rotate i =>
      rw [call, wp_bind]
      cases l with
      | nil =>
          refine wp_imp (llRotate_nil h) ?_
          rintro r t ⟨rfl, rfl⟩
          exact ⟨rfl, hsame, h, rfl⟩
      | cons n l =>
          refine wp_imp (llRotate_spec h) ?_
          rintro r s' ⟨rfl, hs, hl⟩
          exact ⟨rfl, hs.away, hl, hs.1⟩

/-! ### All lists -/

section

variable {s : ListHeap ι} {Q : Seqs ι}

lemma ListHeap.Stores.isLl (h : s.Stores Q) (i : ι) : IsLl s.nodes (s.lists i) (Q.seq i) :=
  ⟨IsDList.iff_met.mpr ⟨h.next i, h.prev i, h.size i⟩, fun n hn => h.elem ▸ h.live i n hn⟩

/-- Well formed lists, no node on two of them, are the sequences of their nodes. -/
lemma ListHeap.stores_of_isLl (hl : ∀ i, IsLl s.nodes (s.lists i) (Q.seq i))
    (hapart : ∀ n i j, n ∈ Q.seq i → n ∈ Q.seq j → i = j) (he : s.nodes.e = Q.e) :
    s.Stores Q :=
  have hmet := fun i => IsDList.iff_met.mp (hl i).links
  ⟨fun i => (hmet i).1, fun i => (hmet i).2.1, fun i => (hmet i).2.2, hapart,
    fun i n hn => he ▸ (hl i).live n hn, he⟩

/-- What a call is given is on its own list at most. -/
lemma ListHeap.Stores.own_mem (h : s.Stores Q) {op : ListOp ι} (hop : op.Legal s Q) {n : Ptr}
    (hn : n ∈ op.own ++ Q.seq op.list) {j : ι} (hj : n ∈ Q.seq j) : j = op.list := by
  rcases List.mem_append.mp hn with hn | hn
  · have hnew : ∀ newNode : Option Ptr, (∀ m ∈ newNode, s.nodes.e m = none) →
        n ∉ newNode.toList := by
      intro newNode hfree hmem
      have hnone := hfree n (Option.mem_toList.mp hmem)
      have hlive := h.live j n hj
      rw [← h.elem, hnone] at hlive
      exact Bool.false_ne_true hlive
    cases op with
    | addFirst i value newNode => exact absurd hn (hnew newNode hop)
    | addLast i value newNode => exact absurd hn (hnew newNode hop)
    | linkNodeFirst i node => exact absurd hj (List.mem_singleton.mp hn ▸ hop.2 j)
    | linkNodeLast i node => exact absurd hj (List.mem_singleton.mp hn ▸ hop.2 j)
    | unlinkNode | remove | removeFirst | removeLast | rotate =>
        exact absurd hn List.not_mem_nil
  · exact h.apart n j op.list hj hn

lemma ListOp.Legal.fits {op : ListOp ι} (hop : op.Legal s Q) :
    op.Fits s.nodes (Q.seq op.list) := by
  cases op with
  | linkNodeFirst i node => exact ⟨hop.1, hop.2 i⟩
  | linkNodeLast i node => exact ⟨hop.1, hop.2 i⟩
  | addFirst | addLast | unlinkNode | remove | removeFirst | removeLast | rotate => exact hop

variable [DecidableEq ι]

/-- **One list becomes another**, of nodes that are on no list but this one. -/
lemma ListHeap.Stores.replace (h : s.Stores Q) {i : ι} {t : LlState} {l m : List Ptr}
    (hsame : t.nodes.SameAway s.nodes m) (hm : ∀ n ∈ m, ∀ j, n ∈ Q.seq j → j = i)
    (hl : IsLl t.nodes t.ll l) (hlm : l ⊆ m) :
    ListHeap.Stores ⟨t.nodes, Function.update s.lists i t.ll⟩
      ⟨Function.update Q.seq i l, t.nodes.e⟩ := by
  have hother : ∀ j ≠ i, ∀ n ∈ Q.seq j, n ∉ m := fun j hj n hn hmem => hj (hm n hmem j hn)
  refine stores_of_isLl (fun j => ?_) (fun n j k hj hk => ?_) rfl
  · by_cases hj : j = i
    · subst hj
      simpa only [Function.update_self] using hl
    · simp only [Function.update_of_ne hj]
      exact (h.isLl j).away hsame (hother j hj)
  · have hhome : ∀ k, n ∈ Function.update Q.seq i l k → (k = i ∧ n ∈ m) ∨
      (k ≠ i ∧ n ∈ Q.seq k) := by
      intro k hk
      by_cases hki : k = i
      · subst hki
        rw [Function.update_self] at hk
        exact .inl ⟨rfl, hlm hk⟩
      · rw [Function.update_of_ne hki] at hk
        exact .inr ⟨hki, hk⟩
    rcases hhome j hj with ⟨hji, hjn⟩ | ⟨hji, hjn⟩ <;>
      rcases hhome k hk with ⟨hki, hkn⟩ | ⟨hki, hkn⟩
    · exact hji.trans hki.symm
    · exact absurd (hm n hjn k hkn) hki
    · exact absurd (hm n hkn j hjn) hji
    · exact h.apart n j k hjn hkn

/-- **A call returns what the one on the sequences does**, and leaves those sequences and the
other lists. -/
theorem ListHeap.Stores.run (h : s.Stores Q) {op : ListOp ι} (hop : op.Legal s Q) :
    ∃ s', op.run s = (.ok (op.onSeqs Q).1, s') ∧ s.Untouched s' Q op.list ∧
      s'.Stores (op.onSeqs Q).2 := by
  obtain ⟨r, t, hrun, hr, hsame, hl, he⟩ :=
    wp_returns (op.call_spec (s := ⟨s.nodes, s.lists op.list⟩) (h.isLl op.list) hop.fits)
  have hown : ∀ n ∈ op.own ++ Q.seq op.list, ∀ j, n ∈ Q.seq j → j = op.list :=
    fun n hn j hj => h.own_mem hop hn hj
  have hstores := h.replace hsame hown hl fun n => op.mem_onSeq
  change t.nodes.e = (op.onSeq (Q.seq op.list) s.nodes.e).2.2 at he
  rw [he, h.elem] at hstores
  refine ⟨_, ?_, fun j hj => ⟨?_, fun n hn => ?_⟩, hstores⟩
  · simp only [ListOp.run, onList, hrun, hr, ListOp.onSeqs, ← h.elem]
  · exact Function.update_of_ne hj _ _
  · exact hsame n fun hmem => hj (hown n hmem j hn)

/-- **The lists of the kernel behave as sequences** in every sequence of calls each of which may
be made where it stands. -/
theorem behavesAsSequences_of_stores (h : s.Stores Q) (ops : List (ListOp ι)) :
    BehavesAsSequences s Q ops := by
  induction ops generalizing s Q with
  | nil => exact h
  | cons op ops ih =>
      refine ⟨h, fun hop => ?_⟩
      obtain ⟨s', hrun, hother, hstores⟩ := h.run hop
      exact ⟨s', hrun, hother, ih hstores⟩

end

/-- Two empty lists, and no node in memory. -/
def emptyLists : ListHeap Bool := ⟨⟨fun _ => none, fun _ => none, fun _ => none⟩, fun _ => llInit⟩

/-- A node that moves from one list to another. -/
theorem behavesAsSequences_moved : BehavesAsSequences emptyLists ⟨fun _ => [], fun _ => none⟩
    [.addLast true 7 (some 10), .addFirst true 8 (some 20), .rotate true, .unlinkNode true 10,
      .linkNodeLast false 10, .remove true id 8 none, .removeLast false] := by
  refine behavesAsSequences_of_stores ⟨fun _ => .nil, fun _ => .nil, fun _ => rfl, ?_, ?_, rfl⟩ _
  · exact fun n i j hn => absurd hn List.not_mem_nil
  · exact fun i n hn => absurd hn List.not_mem_nil

end ShrekOS
