/-
The hash tables of `kern/data_structures/ht.c` in memory: buckets of linked list nodes that
point to the entries.

* `HtHeap`: the buckets, the entries in memory and the fields of a table; `HtHeap.htGet`,
  `HtHeap.htRemove`, `HtHeap.htPut`, `HtHeap.htPutEntry`: the functions as in the source, with
  the `int` index of a bucket;
* `HtHeap.Refines`: the table in memory is one whose buckets are lists of entries;
* `HtHeap.Holds`, `BehavesAsMap`: a table holds a partial map, and a sequence of calls goes as
  on a map;
* `htInit_behavesAsMap_iff`: **every sequence of calls on a new table does**, for every hash
  function and every number of buckets up to `2 ^ 31`, if and only if `ht_init` asks for all the
  memory that it writes: the bytes of the buckets are counted in 32 bits.
-/
import ShrekOS.Data.Ht
import ShrekOS.Data.LlRuns

namespace ShrekOS

open Kit Kit.Cmd

/-- `ht_entry_t`. -/
structure HtEntry where
  key : ℤ
  val : Ptr

/-- `ht_t`, with the entries and the nodes in memory. -/
structure HtHeap where
  heap : ListHeap ℕ
  entries : Ptr → Option HtEntry
  size : ℕ
  maxSize : ℕ
  hash : ℤ → ℤ

/-- Commands on a table. -/
abbrev HtM (α : Type) : Type := Cmd Fault HtHeap α

namespace HtHeap

/-! ### The functions -/

/-- The lists for which there is room in `max_size * sizeof(ll_t)` bytes: the product wraps
around. -/
def bucketRoom (maxSize : ℕ) : ℕ := maxSize * 12 % 2 ^ 32 / 12

/-- `t->arr = malloc(max_size * sizeof(ll_t))`: memory that holds anything, and lists that no
function reads after the end of it. -/
def allocBuckets (maxSize : ℕ) (arr : ℕ → Ll) : HtM Unit :=
  modify fun t =>
    { t with heap.lists := fun i => if i < bucketRoom maxSize then arr i else llInit }

/-- `ll_init(&(t->arr[i]))`. -/
def initBucket (maxSize i : ℕ) : HtM Unit := do
  require (i < bucketRoom maxSize) .badPointer
  modify fun t => { t with heap.lists := Function.update t.heap.lists i llInit }

/-- `ht_init`, with what `malloc` returns. -/
def htInit (maxSize : ℕ) (hash : ℤ → ℤ) (arr : Option (ℕ → Ll)) : HtM ℤ := do
  if maxSize = 0 then
    return -1
  match arr with
  | none => return -2
  | some arr =>
      allocBuckets maxSize arr
      upTo maxSize (initBucket maxSize)
      modify fun t => { t with size := 0, maxSize := maxSize, hash := hash }
      return 0

/-- `extract_key`. -/
def extractKey (entries : Ptr → Option HtEntry) (entry : Ptr) : Option ℤ :=
  (entries entry).map HtEntry.key

/-- `*entry`. -/
def readEntry (entry : Ptr) : HtM HtEntry := do
  match ← gets fun t => t.entries entry with
  | some e => pure e
  | none => fault .badPointer

/-- `int idx = t->hash(key) % t->max_size`, an index of `t->arr`. -/
def bucketIdx (key : ℤ) : HtM ℕ := do
  let t ← get
  let idx := toInt32 ((t.hash key % 2 ^ 32).toNat % t.maxSize)
  require (0 ≤ idx ∧ idx < t.maxSize) .badPointer
  return idx.toNat

/-- A command on a bucket. -/
def onBucket {α : Type} (i : ℕ) (c : LlM α) : HtM α := fun t =>
  let r := onList i c t.heap
  (r.1, { t with heap := r.2 })

/-- `ht_get`: its code, and the value under the key. -/
def htGet (key : ℤ) : HtM (ℤ × Option Ptr) := do
  let idx ← bucketIdx key
  let entries ← gets HtHeap.entries
  match ← onBucket idx (llFind (extractKey entries) key) with
  | (code, e) =>
      if code < 0 then
        return (-2, none)
      match e with
      | some e => return (0, some (← readEntry e).val)
      | none => fault .badPointer

/-- `free(e)` of an entry. -/
def freeEntry (entry : Ptr) : HtM Unit := do
  let _ ← readEntry entry
  modify fun t => { t with entries := Function.update t.entries entry none }

/-- What becomes of the memory of an entry that is removed. -/
def releaseEntry (entry : Ptr) : Option (CircBuf Ptr) → HtM (Option (CircBuf Ptr))
  | some buf => return some ((circBufWrite buf entry).getD buf)
  | none => do
      freeEntry entry
      return none

/-- `ht_remove`: its code, the value, and the buffer of addresses to free after it. -/
def htRemove (key : ℤ) (addrsToFree : Option (CircBuf Ptr)) :
    HtM (ℤ × Option Ptr × Option (CircBuf Ptr)) := do
  let idx ← bucketIdx key
  let entries ← gets HtHeap.entries
  match ← onBucket idx (llRemove (extractKey entries) key addrsToFree) with
  | (code, e, buf) =>
      if code < 0 then
        return (-2, none, buf)
      match e with
      | some e =>
          let val := (← readEntry e).val
          let buf ← releaseEntry e buf
          modify fun t => { t with size := t.size - 1 }
          return (0, some val, buf)
      | none => fault .badPointer

/-- `new_e->val = val; new_e->key = key`. -/
def initEntry (entry : Ptr) (e : HtEntry) : HtM Unit :=
  modify fun t => { t with entries := Function.update t.entries entry (some e) }

/-- The end of `ht_put` and `ht_put_entry`, once the entry is on its bucket. -/
def counted (code : ℤ) : HtM ℤ := do
  if code < 0 then
    return -3
  modify fun t => { t with size := t.size + 1 }
  return 0

/-- `ht_put`, with what `malloc` returns for the entry and for its node. -/
def htPut (key : ℤ) (val : Ptr) (newE newNode : Option Ptr) : HtM ℤ := do
  if (← htGet key).1 ≠ -2 then
    return -4
  let idx ← bucketIdx key
  match newE with
  | none => return -2
  | some newE =>
      initEntry newE ⟨key, val⟩
      counted (← onBucket idx (llAddLast newNode newE))

/-- `ht_put_entry`. -/
def htPutEntry (entry entryNode : Ptr) : HtM ℤ := do
  let key := (← readEntry entry).key
  if (← htGet key).1 ≠ -2 then
    return -4
  let idx ← bucketIdx key
  counted (← onBucket idx (llLinkNodeLast entryNode))

/-! ### Calls -/

/-- A call on a table. What `malloc` returns is an argument of `put`; the caller of `putEntry`
prepares the entry and its node in a step of its own. -/
inductive Op where
  | get (key : ℤ)
  | put (key : ℤ) (val : Ptr) (newE newNode : Ptr)
  | prepare (key : ℤ) (val : Ptr) (entry entryNode : Ptr)
  | putEntry (key : ℤ) (val : Ptr) (entry entryNode : Ptr)
  | remove (key : ℤ) (addrsToFree : Option (CircBuf Ptr))

/-- The caller's own writes: `ll_node_init` of a new node that points to a new entry. -/
def prepareEntry (entry entryNode : Ptr) (e : HtEntry) : HtM Unit := do
  initEntry entry e
  modify fun t =>
    { t with heap.nodes := (initLlNode entryNode entry ⟨t.heap.nodes, llInit⟩).2.nodes }

/-- A call in memory: its code, and the value that it reports. -/
def Op.run : Op → HtM (ℤ × Option Ptr)
  | get key => htGet key
  | put key val newE newNode => do return (← htPut key val (some newE) (some newNode), none)
  | prepare key val entry entryNode => do
      prepareEntry entry entryNode ⟨key, val⟩
      return (0, none)
  | putEntry _ _ entry entryNode => do return (← htPutEntry entry entryNode, none)
  | remove key addrsToFree => do
      let (code, val, _) ← htRemove key addrsToFree
      return (code, val)

/-- The same call on a partial map. -/
def Op.onMap (m : ℤ → Option Ptr) : Op → (ℤ × Option Ptr) × (ℤ → Option Ptr)
  | get key =>
      match m key with
      | none => ((-2, none), m)
      | some val => ((0, some val), m)
  | put key val _ _ | putEntry key val _ _ =>
      match m key with
      | none => ((0, none), Function.update m key (some val))
      | some _ => ((-4, none), m)
  | prepare _ _ _ _ => ((0, none), m)
  | remove key _ =>
      match m key with
      | none => ((-2, none), m)
      | some val => ((0, some val), Function.update m key none)

/-- The node is on a bucket. -/
def OnBucket (t : HtHeap) (n : Ptr) : Prop :=
  ∃ i l, Met t.heap.nodes.next (t.heap.lists i).head l ∧ n ∈ l

/-- The key and the value of the entry that a node points to. -/
def entryAt (t : HtHeap) (n : Ptr) : Option (ℤ × Ptr) :=
  ((t.heap.nodes.e n).bind t.entries).map fun e => (e.key, e.val)

/-- **What a call may be given**: memory not in use, or an entry and a detached node of the
caller's that points to it. -/
def Op.Legal (t : HtHeap) : Op → Prop
  | put _ _ newE newNode => t.entries newE = none ∧ t.heap.nodes.e newNode = none
  | prepare _ _ entry entryNode => t.entries entry = none ∧ t.heap.nodes.e entryNode = none
  | putEntry key val entry entryNode => t.entries entry = some ⟨key, val⟩ ∧
      t.heap.nodes.e entryNode = some entry ∧ Detached t.heap.nodes entryNode ∧
      ¬ t.OnBucket entryNode
  | _ => True

/-- The table holds the map: each key is in one entry at most, and the size is the number of
keys. -/
structure Holds (t : HtHeap) (m : ℤ → Option Ptr) : Prop where
  value : ∀ key val, m key = some val ↔ ∃ n, t.OnBucket n ∧ t.entryAt n = some (key, val)
  unique : ∀ n n' key val val', t.OnBucket n → t.OnBucket n' → t.entryAt n = some (key, val) →
    t.entryAt n' = some (key, val') → n = n'
  finite : {key | m key ≠ none}.Finite
  size : t.size = {key | m key ≠ none}.ncard

end HtHeap

/-- Each call that may be made returns what the one on the map does, the table holds the map
before and after it, and a call that fails changes nothing. -/
def BehavesAsMap : HtHeap → (ℤ → Option Ptr) → List HtHeap.Op → Prop
  | t, m, [] => t.Holds m
  | t, m, op :: ops => t.Holds m ∧ (op.Legal t →
      ∃ t', op.run t = (.ok (op.onMap m).1, t') ∧ ((op.onMap m).1.1 < 0 → t' = t) ∧
        BehavesAsMap t' (op.onMap m).2 ops)

/-! ### Buckets of entries -/

section

variable {α : Type} {f : α → Option (ℤ × Ptr)} {l : List α} {a : List (ℤ × Ptr)}

/-- The member has the key. -/
def HasKey (f : α → Option (ℤ × Ptr)) (key : ℤ) (x : α) : Bool := (f x).map Prod.fst = some key

/-- What is found on a bucket is found among the entries that it stands for, at the same
place. -/
lemma find_entries (h : l.map f = a.map some) (key : ℤ) :
    (l.find? (HasKey f key) = none ∧ (a.find? fun e => e.1 = key) = none) ∨
      ∃ l₁ x l₂ a₁ val a₂, l = l₁ ++ x :: l₂ ∧ a = a₁ ++ (key, val) :: a₂ ∧
        l₁.map f = a₁.map some ∧ f x = some (key, val) ∧ l₂.map f = a₂.map some ∧
        (∀ y ∈ l₁, ¬ HasKey f key y) ∧ ∀ e ∈ a₁, e.1 ≠ key := by
  cases hfind : l.find? (HasKey f key) with
  | none =>
      refine .inl ⟨rfl, List.find?_eq_none.mpr fun e he => ?_⟩
      have hmem : some e ∈ l.map f := h ▸ List.mem_map_of_mem he
      obtain ⟨x, hx, hfx⟩ := List.mem_map.mp hmem
      simpa [HasKey, hfx] using List.find?_eq_none.mp hfind x hx
  | some x =>
      obtain ⟨hx, l₁, l₂, rfl, hl₁⟩ := List.find?_eq_some_iff_append.mp hfind
      rw [List.map_append, List.map_cons] at h
      obtain ⟨a₁, a', rfl, h₁, h'⟩ := List.map_eq_append_iff.mp h.symm
      obtain ⟨e, a₂, rfl, he, h₂⟩ := List.map_eq_cons_iff.mp h'
      have hkey : e.1 = key := by simpa [HasKey, ← he] using hx
      have hfirst : ∀ y ∈ l₁, ¬ HasKey f key y := fun y hy => by simpa using hl₁ y hy
      refine .inr ⟨l₁, x, l₂, a₁, e.2, a₂, rfl, by rw [← hkey], h₁.symm, ?_, h₂.symm, hfirst, ?_⟩
      · rw [← he, ← hkey]
      · intro d hd hdkey
        have hmem : some d ∈ l₁.map f := h₁ ▸ List.mem_map_of_mem hd
        obtain ⟨y, hy, hfy⟩ := List.mem_map.mp hmem
        exact hfirst y hy (by simp [HasKey, hfy, hdkey])

/-- Two members of a bucket with the same key are equal. -/
lemma eq_of_key (h : l.map f = a.map some) (hn : (a.map Prod.fst).Nodup) {x y : α} (hx : x ∈ l)
    (hy : y ∈ l) (hkey : (f x).map Prod.fst = (f y).map Prod.fst) : x = y := by
  have hkeys : l.map (Option.map Prod.fst ∘ f) = (a.map Prod.fst).map some := by
    rw [← List.map_map, h, List.map_map, List.map_map]
    rfl
  have hnd : (l.map (Option.map Prod.fst ∘ f)).Nodup := by
    rw [hkeys]
    exact hn.map (Option.some_injective ℤ)
  exact List.inj_on_of_nodup_map hnd hx hy hkey

end

namespace HtHeap

variable {t : HtHeap} {Q : Seqs ℕ} {h : Ht ℤ Ptr} {E : Fault → HtHeap → Prop} {key : ℤ}

/-- The table in memory is one whose buckets are lists of entries. -/
structure Refines (t : HtHeap) (Q : Seqs ℕ) (h : Ht ℤ Ptr) : Prop where
  stores : t.heap.Stores Q
  bucket : ∀ i, (Q.seq i).map t.entryAt = (h.arr i).map some
  size_eq : t.size = h.size
  max_eq : t.maxSize = h.maxSize
  hash_eq : t.hash = h.hash
  pos : 1 ≤ t.maxSize
  small : t.maxSize ≤ 2 ^ 31

/-- The nodes on the buckets are those of the sequences. -/
lemma Refines.onBucket_iff (hr : t.Refines Q h) {n : Ptr} :
    t.OnBucket n ↔ ∃ i, n ∈ Q.seq i := by
  constructor
  · rintro ⟨i, l, hl, hn⟩
    exact ⟨i, (hr.stores.next i).unique hl ▸ hn⟩
  · exact fun ⟨i, hn⟩ => ⟨i, Q.seq i, hr.stores.next i, hn⟩

/-- A node of a bucket points to an entry of it. -/
lemma Refines.entry_mem (hr : t.Refines Q h) {i : ℕ} {n : Ptr} (hn : n ∈ Q.seq i) :
    ∃ e ∈ h.arr i, t.entryAt n = some e := by
  have hmem : t.entryAt n ∈ (h.arr i).map some := hr.bucket i ▸ List.mem_map_of_mem hn
  obtain ⟨e, he, heq⟩ := List.mem_map.mp hmem
  exact ⟨e, he, heq.symm⟩

/-- The table in memory holds the map of the table of entries. -/
lemma Refines.holds (hr : t.Refines Q h) (hc : h.Counted) : t.Holds (ShrekOS.htGet h) := by
  refine ⟨fun key val => ?_, fun n n' key val val' hn hn' he he' => ?_, hc.finite, ?_⟩
  · rw [htGet_eq_some_iff]
    constructor
    · intro hmem
      have hmap : some (key, val) ∈ (Q.seq (h.idx key)).map t.entryAt := by
        rw [hr.bucket]
        exact List.mem_map_of_mem hmem
      obtain ⟨n, hn, he⟩ := List.mem_map.mp hmap
      exact ⟨n, hr.onBucket_iff.mpr ⟨_, hn⟩, he⟩
    · rintro ⟨n, hn, he⟩
      obtain ⟨i, hni⟩ := hr.onBucket_iff.mp hn
      obtain ⟨e, hmem, he'⟩ := hr.entry_mem hni
      obtain rfl := Option.some.inj (he.symm.trans he')
      rwa [show h.idx key = i from h.idx_of_mem hmem]
  · obtain ⟨i, hni⟩ := hr.onBucket_iff.mp hn
    obtain ⟨j, hnj⟩ := hr.onBucket_iff.mp hn'
    obtain ⟨e, hmem, hei⟩ := hr.entry_mem hni
    obtain ⟨e', hmem', hej⟩ := hr.entry_mem hnj
    obtain rfl := Option.some.inj (he.symm.trans hei)
    obtain rfl := Option.some.inj (he'.symm.trans hej)
    have hi : h.idx key = i := h.idx_of_mem hmem
    have hj : h.idx key = j := h.idx_of_mem hmem'
    obtain rfl := hi.symm.trans hj
    exact eq_of_key (hr.bucket i) (h.nodup i) hni hnj (by rw [he, he']; rfl)
  · rw [hr.size_eq, hc.size_eq]

/-! ### One call -/

lemma wp_readEntry {e : HtEntry} {p : Ptr} {R : HtEntry → HtHeap → Prop}
    (he : t.entries p = some e) (hq : R e t) : wp (readEntry p) R E t := by
  rw [readEntry, wp_bind, wp_gets, he]
  exact hq

/-- The index of a bucket is not negative, since there are at most `2 ^ 31` of them. -/
lemma Refines.bucketIdx (hr : t.Refines Q h) (key : ℤ) :
    wp (HtHeap.bucketIdx key) (fun i t' => i = h.idx key ∧ t' = t) E t := by
  have hpos := hr.pos
  have hsmall := hr.small
  have hidx : h.idx key = (t.hash key % 2 ^ 32).toNat % t.maxSize := by
    rw [Ht.idx, htIdx, hr.hash_eq, hr.max_eq]
  have hlt : (t.hash key % 2 ^ 32).toNat % t.maxSize < t.maxSize := Nat.mod_lt _ hpos
  have hint : toInt32 ((t.hash key % 2 ^ 32).toNat % t.maxSize) =
      ((t.hash key % 2 ^ 32).toNat % t.maxSize : ℕ) := if_pos (by omega)
  simp only [HtHeap.bucketIdx, wp_bind, wp_get, wp_require, wp_pure]
  rw [hint]
  refine ⟨fun _ => ⟨?_, trivial⟩, fun hno => absurd ⟨by omega, by exact_mod_cast hlt⟩ hno⟩
  rw [Int.toNat_natCast, hidx]

lemma wp_onBucket {α : Type} {R : α → HtHeap → Prop} (i : ℕ) (c : LlM α) :
    wp (onBucket i c) R E t ↔
      wp c (fun a s => R a { t with heap := ⟨s.nodes, Function.update t.heap.lists i s.ll⟩ })
        (fun f s => E f { t with heap := ⟨s.nodes, Function.update t.heap.lists i s.ll⟩ })
        ⟨t.heap.nodes, t.heap.lists i⟩ := by
  unfold wp onBucket onList
  rcases c ⟨t.heap.nodes, t.heap.lists i⟩ with ⟨_ | _, _⟩ <;> rfl

/-- The nodes of a bucket have keys. -/
lemma Refines.keys (hr : t.Refines Q h) (i : ℕ) :
    ∀ n ∈ Q.seq i, ((t.heap.nodes.e n).bind (extractKey t.entries)).isSome := by
  intro n hn
  obtain ⟨e, -, he⟩ := hr.entry_mem hn
  rw [entryAt, Option.map_eq_some_iff] at he
  obtain ⟨d, hd, -⟩ := he
  obtain ⟨p, hp, hpd⟩ := Option.bind_eq_some_iff.mp hd
  rw [hp, Option.bind_some, extractKey, hpd]
  rfl

/-- The search compares the keys of entries. -/
lemma matches_eq (t : HtHeap) (key : ℤ) :
    Matches t.heap.nodes (extractKey t.entries) key = HasKey t.entryAt key := by
  funext n
  rw [Matches, HasKey, entryAt]
  cases t.heap.nodes.e n with
  | none => rfl
  | some p =>
      rw [Option.bind_some, Option.bind_some, extractKey]
      cases t.entries p <;> rfl

/-- How a key is looked up: no node of its bucket has it, or a first one does. -/
inductive Lookup (t : HtHeap) (Q : Seqs ℕ) (h : Ht ℤ Ptr) (key : ℤ) : Prop where
  | absent (get : ShrekOS.htGet h key = none)
      (none : ∀ n ∈ Q.seq (h.idx key), ¬ HasKey t.entryAt key n)
  | present {l₁ l₂ : List Ptr} {n p val : Ptr} {a₁ a₂ : List (ℤ × Ptr)}
      (get : ShrekOS.htGet h key = some val) (seq : Q.seq (h.idx key) = l₁ ++ n :: l₂)
      (arr : h.arr (h.idx key) = a₁ ++ (key, val) :: a₂) (left : l₁.map t.entryAt = a₁.map some)
      (right : l₂.map t.entryAt = a₂.map some) (elem : t.heap.nodes.e n = some p)
      (entry : t.entries p = some ⟨key, val⟩) (first : ∀ m ∈ l₁, ¬ HasKey t.entryAt key m)
      (first' : ∀ e ∈ a₁, e.1 ≠ key)

lemma entryAt_eq_some {n : Ptr} {e : ℤ × Ptr} (he : t.entryAt n = some e) :
    ∃ p, t.heap.nodes.e n = some p ∧ t.entries p = some ⟨e.1, e.2⟩ := by
  rw [entryAt, Option.map_eq_some_iff] at he
  obtain ⟨d, hd, rfl⟩ := he
  exact Option.bind_eq_some_iff.mp hd

lemma Refines.lookup (hr : t.Refines Q h) (key : ℤ) : Lookup t Q h key := by
  rcases find_entries (hr.bucket (h.idx key)) key with ⟨hnone, hnone'⟩ |
    ⟨l₁, n, l₂, a₁, val, a₂, hl, ha, hleft, hn, hright, hfirst, hfirst'⟩
  · refine .absent ?_ (List.find?_eq_none.mp hnone)
    rw [ShrekOS.htGet, hnone', Option.map_none]
  · obtain ⟨p, helem, hentry⟩ := entryAt_eq_some hn
    refine .present ?_ hl ha hleft hright helem hentry hfirst hfirst'
    rw [htGet_eq_some_iff, ha]
    exact List.mem_append_right _ (.head a₂)

lemma hasKey_of_entry {n p val : Ptr} (helem : t.heap.nodes.e n = some p)
    (hentry : t.entries p = some ⟨key, val⟩) : HasKey t.entryAt key n := by
  simp [HasKey, entryAt, helem, hentry]

/-- A command that leaves the bucket as it was leaves the table as it was. -/
lemma set_same (t : HtHeap) (i : ℕ) : { t with heap := ⟨t.heap.nodes,
    Function.update t.heap.lists i (t.heap.lists i)⟩ } = t := by
  rw [Function.update_eq_self]

/-- **`ht_get` reports what the table has under the key.** -/
theorem Refines.htGet (hr : t.Refines Q h) (key : ℤ) :
    wp (HtHeap.htGet key) (fun r t' => t' = t ∧
      r = match ShrekOS.htGet h key with
        | none => (-2, none)
        | some val => (0, some val)) E t := by
  have hl := hr.stores.isLl (h.idx key)
  rw [HtHeap.htGet, wp_bind]
  refine wp_imp (hr.bucketIdx key) ?_
  rintro i _ ⟨rfl, rfl⟩
  rw [wp_bind, wp_gets, wp_bind, wp_onBucket]
  refine wp_imp (llFind_spec (s := ⟨_, _⟩) hl (hr.keys _)) ?_
  rintro r s' ⟨rfl, rfl⟩
  dsimp only
  rw [set_same, matches_eq]
  cases hr.lookup key with
  | absent hget hnone =>
      rw [List.find?_eq_none.mpr hnone, hget]
      exact ⟨rfl, rfl⟩
  | present hget hseq harr hleft hright helem hentry hfirst hfirst' =>
      rw [hseq, List.find?_append, List.find?_eq_none.mpr hfirst, Option.none_or,
        List.find?_cons_of_pos (hasKey_of_entry helem hentry), hget]
      simp only [helem, lt_self_iff_false, if_false, wp_bind]
      exact wp_readEntry hentry ⟨rfl, rfl⟩

/-- The table with another bucket, other entries and another size. -/
def withBucket (t : HtHeap) (i : ℕ) (s : LlState) (entries : Ptr → Option HtEntry) (size : ℕ) :
    HtHeap where
  heap := ⟨s.nodes, Function.update t.heap.lists i s.ll⟩
  entries := entries
  size := size
  maxSize := t.maxSize
  hash := t.hash

/-- A node that a bucket's change leaves alone, and whose entry it leaves alone, is as before. -/
lemma entryAt_withBucket {i : ℕ} {s : LlState} {entries : Ptr → Option HtEntry} {size : ℕ}
    {m : Ptr} (hm : s.nodes.e m = t.heap.nodes.e m)
    (hent : ∀ q ∈ t.heap.nodes.e m, entries q = t.entries q) :
    (t.withBucket i s entries size).entryAt m = t.entryAt m := by
  rw [entryAt, entryAt, withBucket]
  dsimp only
  rw [hm]
  cases hq : t.heap.nodes.e m with
  | none => rfl
  | some q => rw [Option.bind_some, Option.bind_some, hent q hq]

/-- **One bucket becomes another.** -/
lemma Refines.replace (hr : t.Refines Q h) {i : ℕ} {s : LlState} {entries : Ptr → Option HtEntry}
    {l m : List Ptr} {a : List (ℤ × Ptr)} {h' : Ht ℤ Ptr}
    (hsame : s.nodes.SameAway t.heap.nodes m) (hm : ∀ n ∈ m, ∀ j, n ∈ Q.seq j → j = i)
    (hl : IsLl s.nodes s.ll l) (hlm : l ⊆ m)
    (hent : ∀ j ≠ i, ∀ n ∈ Q.seq j, ∀ p ∈ t.heap.nodes.e n, entries p = t.entries p)
    (hb : l.map (t.withBucket i s entries h'.size).entryAt = a.map some)
    (harr : h'.arr = Function.update h.arr i a) (hmax : h'.maxSize = h.maxSize)
    (hhash : h'.hash = h.hash) :
    (t.withBucket i s entries h'.size).Refines ⟨Function.update Q.seq i l, s.nodes.e⟩ h' := by
  refine ⟨hr.stores.replace hsame hm hl hlm, fun j => ?_, rfl, hr.max_eq.trans hmax.symm,
    hr.hash_eq.trans hhash.symm, hr.pos, hr.small⟩
  rw [harr]
  by_cases hj : j = i
  · subst hj
    simpa only [Function.update_self] using hb
  · simp only [Function.update_of_ne hj]
    rw [← hr.bucket j]
    refine List.map_congr_left fun n hn => ?_
    have helem : s.nodes.e n = t.heap.nodes.e n :=
      (hsame n fun hmem => hj (hm n hmem j hn)).2.2
    exact entryAt_withBucket helem (hent j hj n hn)

/-- Entries that are appended to a bucket. -/
lemma arr_htPut (hget : ShrekOS.htGet h key = none) (val : Ptr) :
    (ShrekOS.htPut h key val).2.arr =
      Function.update h.arr (h.idx key) (h.arr (h.idx key) ++ [(key, val)]) := by
  rw [ShrekOS.htPut, dif_pos hget]
  rfl

lemma size_htPut (hget : ShrekOS.htGet h key = none) (val : Ptr) :
    (ShrekOS.htPut h key val).2.size = h.size + 1 := by
  rw [ShrekOS.htPut, dif_pos hget]
  rfl

lemma maxSize_htPut (val : Ptr) : (ShrekOS.htPut h key val).2.maxSize = h.maxSize := by
  rw [ShrekOS.htPut]
  split_ifs <;> rfl

lemma hash_htPut (val : Ptr) : (ShrekOS.htPut h key val).2.hash = h.hash := by
  rw [ShrekOS.htPut]
  split_ifs <;> rfl

/-- The entry of a key leaves its bucket. -/
lemma arr_htRemove {val : Ptr} {a₁ a₂ : List (ℤ × Ptr)} (hget : ShrekOS.htGet h key = some val)
    (harr : h.arr (h.idx key) = a₁ ++ (key, val) :: a₂) (hfirst : ∀ e ∈ a₁, e.1 ≠ key) :
    (ShrekOS.htRemove h key).2.arr = Function.update h.arr (h.idx key) (a₁ ++ a₂) := by
  have herase : ((h.arr (h.idx key)).eraseP fun e => e.1 = key) = a₁ ++ a₂ := by
    rw [harr, List.eraseP_append_right _ (by simpa using hfirst),
      List.eraseP_cons_of_pos (by simp)]
  unfold ShrekOS.htRemove
  split
  · next hnone => exact absurd (hnone.symm.trans hget) (Option.some_ne_none val).symm
  · exact congrArg (Function.update h.arr (h.idx key)) herase

lemma size_htRemove {val : Ptr} (hget : ShrekOS.htGet h key = some val) :
    (ShrekOS.htRemove h key).2.size = h.size - 1 := by
  unfold ShrekOS.htRemove
  split
  · next hnone => exact absurd (hnone.symm.trans hget) (Option.some_ne_none val).symm
  · rfl

lemma maxSize_htRemove : (ShrekOS.htRemove h key).2.maxSize = h.maxSize := by
  unfold ShrekOS.htRemove
  split <;> rfl

lemma hash_htRemove : (ShrekOS.htRemove h key).2.hash = h.hash := by
  unfold ShrekOS.htRemove
  split <;> rfl

/-- What `ht_put` and `ht_put_entry` leave when the key is fresh. -/
def Grown (h : Ht ℤ Ptr) (key : ℤ) (val : Ptr) (r : ℤ) (t' : HtHeap) : Prop :=
  r = 0 ∧ ∃ Q', t'.Refines Q' (ShrekOS.htPut h key val).2

/-- **A node with a fresh key is linked to its bucket.** -/
lemma Refines.grow (hr : t.Refines Q h) {val n p : Ptr} (hget : ShrekOS.htGet h key = none)
    {s : LlState} {entries : Ptr → Option HtEntry}
    (hsame : s.nodes.SameAway t.heap.nodes (n :: Q.seq (h.idx key))) (hn : ∀ j, n ∉ Q.seq j)
    (hl : IsLl s.nodes s.ll (Q.seq (h.idx key) ++ [n]))
    (hold : ∀ j, ∀ m ∈ Q.seq j, s.nodes.e m = t.heap.nodes.e m)
    (hent : ∀ j, ∀ m ∈ Q.seq j, ∀ q ∈ t.heap.nodes.e m, entries q = t.entries q)
    (helem : s.nodes.e n = some p) (hentry : entries p = some ⟨key, val⟩) :
    (t.withBucket (h.idx key) s entries (t.size + 1)).Refines
      ⟨Function.update Q.seq (h.idx key) (Q.seq (h.idx key) ++ [n]), s.nodes.e⟩
      (ShrekOS.htPut h key val).2 := by
  rw [hr.size_eq, ← size_htPut hget val]
  refine hr.replace hsame (fun m hm j hj => ?_) hl (fun m hm => ?_) (fun j _ => hent j) ?_
    (arr_htPut hget val) (maxSize_htPut val) (hash_htPut val)
  · rcases List.mem_cons.mp hm with rfl | hm
    · exact absurd hj (hn j)
    · exact hr.stores.apart m j _ hj hm
  · rcases List.mem_append.mp hm with hm | hm
    · exact .tail n hm
    · exact List.mem_singleton.mp hm ▸ .head _
  · rw [List.map_append, List.map_append, ← hr.bucket]
    congr 1
    · exact List.map_congr_left fun m hm => entryAt_withBucket (hold _ m hm) (hent _ m hm)
    · simp [entryAt, withBucket, helem, hentry]

lemma wp_counted {R : ℤ → HtHeap → Prop} (hq : R 0 { t with size := t.size + 1 }) :
    wp (counted 0) R E t := hq

/-- **`ht_put`** refuses a key that is there, and adds one that is not. -/
theorem Refines.htPut (hr : t.Refines Q h) {val newE newNode : Ptr} (hE : t.entries newE = none)
    (hnode : t.heap.nodes.e newNode = none) :
    wp (HtHeap.htPut key val (some newE) (some newNode)) (fun r t' =>
      match ShrekOS.htGet h key with
      | some _ => r = -4 ∧ t' = t
      | none => Grown h key val r t') E t := by
  rw [HtHeap.htPut, wp_bind]
  refine wp_imp (hr.htGet key) ?_
  rintro r _ ⟨rfl, rfl⟩
  cases hget : ShrekOS.htGet h key with
  | some v => exact ⟨rfl, rfl⟩
  | none =>
      dsimp only
      rw [if_neg (by simp), wp_bind]
      refine wp_imp (hr.bucketIdx key) ?_
      rintro i t ⟨rfl, rfl⟩
      have hl := hr.stores.isLl (h.idx key)
      have hnot : ∀ j, newNode ∉ Q.seq j := fun j hj => by
        simpa [hnode] using (hr.stores.isLl j).live newNode hj
      simp only [initEntry, wp_bind, wp_modify, wp_onBucket]
      refine wp_imp (llAddLast_spec (s := ⟨_, _⟩) hl hnode) ?_
      rintro r s ⟨rfl, hsame, hl', he⟩
      have hold : ∀ m, m ≠ newNode → s.nodes.e m = t.heap.nodes.e m := fun m hm => by
        rw [he, Function.update_of_ne hm]
      refine wp_counted ⟨rfl, _, hr.grow hget hsame hnot hl' (fun j m hm => ?_)
        (fun j m hm q hq => ?_) (p := newE) ?_ ?_⟩
      · exact hold m (ne_of_mem_of_not_mem hm (hnot j))
      · obtain ⟨e, -, hent⟩ := hr.entry_mem hm
        obtain ⟨p, hp, hpe⟩ := entryAt_eq_some hent
        obtain rfl := Option.mem_unique hq hp
        refine Function.update_of_ne ?_ _ _
        rintro rfl
        exact Option.some_ne_none _ (hpe.symm.trans hE)
      · rw [he, Function.update_self]
      · exact Function.update_self ..

/-- **`ht_put_entry`** refuses a key that is there, and adds an entry with one that is not. -/
theorem Refines.htPutEntry (hr : t.Refines Q h) {val p n : Ptr}
    (hentry : t.entries p = some ⟨key, val⟩) (helem : t.heap.nodes.e n = some p)
    (hd : Detached t.heap.nodes n) (hnot : ¬ t.OnBucket n) :
    wp (HtHeap.htPutEntry p n) (fun r t' =>
      match ShrekOS.htGet h key with
      | some _ => r = -4 ∧ t' = t
      | none => Grown h key val r t') E t := by
  rw [HtHeap.htPutEntry, wp_bind]
  refine wp_readEntry hentry ?_
  rw [wp_bind]
  refine wp_imp (hr.htGet key) ?_
  rintro r _ ⟨rfl, rfl⟩
  cases hget : ShrekOS.htGet h key with
  | some v => exact ⟨rfl, rfl⟩
  | none =>
      dsimp only
      rw [if_neg (by simp), wp_bind]
      refine wp_imp (hr.bucketIdx key) ?_
      rintro i _ ⟨rfl, rfl⟩
      have hl := hr.stores.isLl (h.idx key)
      have hnot' : ∀ j, n ∉ Q.seq j := fun j hj => hnot (hr.onBucket_iff.mpr ⟨j, hj⟩)
      rw [wp_bind, wp_onBucket]
      refine wp_imp (llLinkNodeLast_spec (s := ⟨_, _⟩) hl (hnot' _) hd) ?_
      rintro r s ⟨rfl, hsame, hl'⟩
      refine wp_counted ⟨rfl, _, hr.grow hget hsame.away hnot' hl' (fun j m hm => ?_)
        (fun _ _ _ _ _ => rfl) (p := p) ?_ hentry⟩
      · rw [hsame.1]
      · rw [hsame.1]
        exact helem

/-- Two nodes on buckets point to different entries. -/
lemma Refines.entry_ne (hr : t.Refines Q h) {i j : ℕ} {m n p q : Ptr} (hm : m ∈ Q.seq j)
    (hn : n ∈ Q.seq i) (hmn : m ≠ n) (hq : t.heap.nodes.e m = some q)
    (hp : t.heap.nodes.e n = some p) : q ≠ p := by
  rintro rfl
  have heq : t.entryAt m = t.entryAt n := by rw [entryAt, entryAt, hq, hp]
  obtain ⟨e, hmem, he⟩ := hr.entry_mem hm
  obtain ⟨e', hmem', he'⟩ := hr.entry_mem hn
  obtain rfl := Option.some.inj (he.symm.trans (heq.trans he'))
  obtain rfl := (h.idx_of_mem hmem).symm.trans (h.idx_of_mem hmem')
  exact hmn (eq_of_key (hr.bucket j) (h.nodup j) hm hn (by rw [heq]))

/-- **The node of a key leaves its bucket**, and it and its entry may be freed. -/
lemma Refines.shrink (hr : t.Refines Q h) {l₁ l₂ : List Ptr} {n p val : Ptr}
    {a₁ a₂ : List (ℤ × Ptr)} (hget : ShrekOS.htGet h key = some val)
    (hseq : Q.seq (h.idx key) = l₁ ++ n :: l₂) (harr : h.arr (h.idx key) = a₁ ++ (key, val) :: a₂)
    (hleft : l₁.map t.entryAt = a₁.map some) (hright : l₂.map t.entryAt = a₂.map some)
    (helem : t.heap.nodes.e n = some p) (hfirst : ∀ e ∈ a₁, e.1 ≠ key) {s : LlState}
    {entries : Ptr → Option HtEntry} (hsame : s.nodes.SameAway t.heap.nodes (l₁ ++ n :: l₂))
    (hl : IsLl s.nodes s.ll (l₁ ++ l₂)) (hold : ∀ m ≠ n, s.nodes.e m = t.heap.nodes.e m)
    (hent : ∀ q ≠ p, entries q = t.entries q) :
    ∃ Q', (t.withBucket (h.idx key) s entries (t.size - 1)).Refines Q'
      (ShrekOS.htRemove h key).2 := by
  have hmem : n ∈ Q.seq (h.idx key) := by simp [hseq]
  have hnot : n ∉ l₁ ++ l₂ := by
    have hnd := (hr.stores.isLl (h.idx key)).links.nodup
    rw [hseq] at hnd
    exact (List.nodup_cons.mp (List.nodup_middle.mp hnd)).1
  have hsub : l₁ ++ l₂ ⊆ l₁ ++ n :: l₂ := by
    refine List.append_subset.mpr ⟨List.subset_append_left _ _, fun m hm => ?_⟩
    exact List.mem_append_right _ (.tail n hm)
  have hother : ∀ j, ∀ m ∈ Q.seq j, m ≠ n → ∀ q ∈ t.heap.nodes.e m, entries q = t.entries q :=
    fun j m hm hmn q hq => hent q (hr.entry_ne hm hmem hmn hq helem)
  rw [hr.size_eq, ← size_htRemove hget]
  refine ⟨_, hr.replace hsame (fun m hm j hj => ?_) hl hsub (fun j hj m hm => ?_) ?_
    (arr_htRemove hget harr hfirst) maxSize_htRemove hash_htRemove⟩
  · exact hr.stores.apart m j _ hj (hseq ▸ hm)
  · refine hother j m hm ?_
    rintro rfl
    exact hj (hr.stores.apart m j _ hm hmem)
  · have hmap : (a₁ ++ a₂).map some = (l₁ ++ l₂).map t.entryAt := by
      rw [List.map_append, List.map_append, hleft, hright]
    rw [hmap]
    refine List.map_congr_left fun m hm => ?_
    have hmn : m ≠ n := ne_of_mem_of_not_mem hm hnot
    exact entryAt_withBucket (hold m hmn) (hother _ m (hseq ▸ hsub hm) hmn)

/-- **`ht_remove`** takes the entry of the key out, if there is one. -/
theorem Refines.htRemove (hr : t.Refines Q h) (addrsToFree : Option (CircBuf Ptr)) :
    wp (HtHeap.htRemove key addrsToFree) (fun r t' =>
      match ShrekOS.htGet h key with
      | none => r.1 = -2 ∧ r.2.1 = none ∧ t' = t
      | some val => r.1 = 0 ∧ r.2.1 = some val ∧
          ∃ Q', t'.Refines Q' (ShrekOS.htRemove h key).2) E t := by
  have hl := hr.stores.isLl (h.idx key)
  rw [HtHeap.htRemove, wp_bind]
  refine wp_imp (hr.bucketIdx key) ?_
  rintro i t ⟨rfl, rfl⟩
  rw [wp_bind, wp_gets, wp_bind, wp_onBucket]
  cases hr.lookup key with
  | absent hget hnone =>
      rw [← matches_eq] at hnone
      refine wp_imp (llRemove_none (s := ⟨_, _⟩) addrsToFree hl (hr.keys _) hnone) ?_
      rintro r s' ⟨rfl, rfl⟩
      dsimp only
      rw [set_same, hget]
      exact ⟨rfl, rfl, rfl⟩
  | @present l₁ l₂ n p val a₁ a₂ hget hseq harr hleft hright helem hentry hfirst hfirst' =>
      have hkeys := hr.keys (h.idx key)
      have hmatch := hasKey_of_entry helem hentry
      rw [← matches_eq] at hfirst hmatch
      rw [hseq] at hl hkeys
      refine wp_imp (llRemove_spec (s := ⟨_, _⟩) addrsToFree hl hkeys hmatch hfirst) ?_
      rintro r s' ⟨rfl, hsame, hl', he⟩
      have hshrink := fun entries => @Refines.shrink t Q h key hr l₁ l₂ n p val a₁ a₂ hget hseq
        harr hleft hright helem hfirst' s' entries hsame hl'
      simp only [helem, hget, lt_self_iff_false, if_false, wp_bind]
      refine wp_readEntry hentry ?_
      cases addrsToFree with
      | some buf =>
          refine ⟨rfl, rfl, hshrink t.entries (fun m _ => ?_) fun _ _ => rfl⟩
          rw [he]
          rfl
      | none =>
          simp only [Option.map_none, releaseEntry, freeEntry, wp_bind]
          refine wp_readEntry hentry ⟨rfl, rfl, hshrink _ (fun m hm => ?_) fun q hq => ?_⟩
          · rw [he]
            exact Function.update_of_ne hm _ _
          · exact Function.update_of_ne hq _ _

/-- The caller's own writes go to memory that no bucket uses. -/
lemma Refines.prepare (hr : t.Refines Q h) {p n : Ptr} (e : HtEntry) (hp : t.entries p = none)
    (hn : t.heap.nodes.e n = none) :
    wp (prepareEntry p n e) (fun _ t' => ∃ Q', t'.Refines Q' h) E t := by
  have hnot : ∀ j, n ∉ Q.seq j := fun j hj => by
    simpa [hn] using (hr.stores.isLl j).live n hj
  have hold : ∀ j, ∀ m ∈ Q.seq j, m ≠ n := fun j m hm => ne_of_mem_of_not_mem hm (hnot j)
  simp only [prepareEntry, initEntry, initLlNode, wp_bind, wp_modify]
  refine ⟨⟨Q.seq, Function.update t.heap.nodes.e n (some p)⟩, ListHeap.stores_of_isLl (fun j => ?_)
    hr.stores.apart rfl, fun j => ?_, hr.size_eq, hr.max_eq, hr.hash_eq, hr.pos, hr.small⟩
  · refine @IsLl.away _ _ _ _ [n] (hr.stores.isLl j) (fun m hm => ?_) fun m hm hmn => ?_
    · rw [List.mem_singleton] at hm
      exact ⟨Function.update_of_ne hm _ _, Function.update_of_ne hm _ _,
        Function.update_of_ne hm _ _⟩
    · exact hnot j (List.mem_singleton.mp hmn ▸ hm)
  · rw [← hr.bucket j]
    refine List.map_congr_left fun m hm => ?_
    obtain ⟨d, -, hd⟩ := hr.entry_mem hm
    obtain ⟨q, hq, hqe⟩ := entryAt_eq_some hd
    have hqp : q ≠ p := by
      rintro rfl
      exact Option.some_ne_none _ (hqe.symm.trans hp)
    have helem : Function.update t.heap.nodes.e n (some p) m = t.heap.nodes.e m :=
      Function.update_of_ne (hold j m hm) _ _
    rw [entryAt, entryAt]
    change Option.map _ ((Function.update t.heap.nodes.e n (some p) m).bind
      (Function.update t.entries p (some e))) = _
    rw [helem, hq, Option.bind_some, Option.bind_some, Function.update_of_ne hqp]

/-- **One call goes as on a map.** -/
theorem Refines.run (hr : t.Refines Q h) (hc : h.Counted) {op : Op} (hop : op.Legal t) :
    ∃ t' Q' h', op.run t = (.ok (op.onMap (ShrekOS.htGet h)).1, t') ∧
      ((op.onMap (ShrekOS.htGet h)).1.1 < 0 → t' = t) ∧ t'.Refines Q' h' ∧ h'.Counted ∧
      ShrekOS.htGet h' = (op.onMap (ShrekOS.htGet h)).2 := by
  suffices hwp : wp op.run (fun r t' => r = (op.onMap (ShrekOS.htGet h)).1 ∧
      ((op.onMap (ShrekOS.htGet h)).1.1 < 0 → t' = t) ∧
      ∃ Q' h', t'.Refines Q' h' ∧ h'.Counted ∧
        ShrekOS.htGet h' = (op.onMap (ShrekOS.htGet h)).2) (fun _ _ => False) t by
    obtain ⟨r, t', hrun, rfl, hfail, Q', h', hrest⟩ := wp_returns hwp
    exact ⟨t', Q', h', hrun, hfail, hrest⟩
  cases op with
  | get key =>
      refine wp_imp (hr.htGet key) ?_
      rintro r _ ⟨rfl, rfl⟩
      cases hget : ShrekOS.htGet h key with
      | none => simpa [Op.onMap, hget] using ⟨Q, h, hr, hc, rfl⟩
      | some v => simpa [Op.onMap, hget] using ⟨Q, h, hr, hc, rfl⟩
  | put key val newE newNode =>
      rw [Op.run, wp_bind]
      refine wp_imp (hr.htPut hop.1 hop.2) fun r t' hpost => ?_
      cases hget : ShrekOS.htGet h key with
      | some v =>
          rw [hget] at hpost
          obtain ⟨rfl, rfl⟩ := hpost
          simpa [Op.onMap, hget] using ⟨Q, h, hr, hc, rfl⟩
      | none =>
          rw [hget] at hpost
          obtain ⟨rfl, Q', hr'⟩ := hpost
          simpa [Op.onMap, hget] using
            ⟨Q', _, hr', counted_htPut hc key hget val, (htGet_htPut key hget val).2⟩
  | prepare key val p n =>
      rw [Op.run, wp_bind]
      refine wp_imp (hr.prepare ⟨key, val⟩ hop.1 hop.2) ?_
      rintro r t' ⟨Q', hr'⟩
      simpa [Op.onMap] using ⟨Q', h, hr', hc, rfl⟩
  | putEntry key val p n =>
      obtain ⟨hentry, helem, hd, hnot⟩ := hop
      rw [Op.run, wp_bind]
      refine wp_imp (hr.htPutEntry hentry helem hd hnot) fun r t' hpost => ?_
      cases hget : ShrekOS.htGet h key with
      | some v =>
          rw [hget] at hpost
          obtain ⟨rfl, rfl⟩ := hpost
          simpa [Op.onMap, hget] using ⟨Q, h, hr, hc, rfl⟩
      | none =>
          rw [hget] at hpost
          obtain ⟨rfl, Q', hr'⟩ := hpost
          simpa [Op.onMap, hget] using
            ⟨Q', _, hr', counted_htPut hc key hget val, (htGet_htPut key hget val).2⟩
  | remove key addrsToFree =>
      rw [Op.run, wp_bind]
      refine wp_imp (hr.htRemove addrsToFree) fun r t' hpost => ?_
      obtain ⟨code, val, buf⟩ := r
      cases hget : ShrekOS.htGet h key with
      | none =>
          rw [hget] at hpost
          obtain ⟨rfl, rfl, rfl⟩ := hpost
          simpa [Op.onMap, hget] using ⟨Q, h, hr, hc, rfl⟩
      | some v =>
          rw [hget] at hpost
          obtain ⟨rfl, rfl, Q', hr'⟩ := hpost
          simpa [Op.onMap, hget] using
            ⟨Q', _, hr', counted_htRemove hc hget, (htGet_htRemove h key).2⟩

/-! ### A new table -/

/-- There is room for all buckets exactly if the product does not wrap around. -/
lemma le_bucketRoom_iff {maxSize : ℕ} :
    maxSize ≤ bucketRoom maxSize ↔ maxSize * 12 < 2 ^ 32 := by
  rw [bucketRoom]
  constructor
  · intro hle
    by_contra hwrap
    have hless : maxSize * 12 % 2 ^ 32 < maxSize * 12 :=
      (Nat.mod_lt _ (by decide)).trans_le (not_lt.mp hwrap)
    omega
  · intro hlt
    rw [Nat.mod_eq_of_lt hlt, Nat.mul_div_cancel _ (by decide)]

/-- There is never room for more than that. -/
lemma bucketRoom_le (maxSize : ℕ) : bucketRoom maxSize ≤ maxSize := by
  have hmod := Nat.mod_le (maxSize * 12) (2 ^ 32)
  rw [bucketRoom]
  omega

/-- A table of empty buckets is that of no entries. -/
lemma refines_new (hlists : ∀ i, t.heap.lists i = llInit) (hsize : t.size = 0)
    (hpos : 1 ≤ t.maxSize) (hsmall : t.maxSize ≤ 2 ^ 31) :
    t.Refines ⟨fun _ => [], t.heap.nodes.e⟩ (ShrekOS.htInit Ptr t.maxSize t.hash) := by
  have hempty : ∀ i, IsLl t.heap.nodes (t.heap.lists i) [] := fun i => by
    rw [hlists i]
    exact ⟨IsDList.iff_met.mpr ⟨.nil, .nil, rfl⟩, fun n hn => absurd hn List.not_mem_nil⟩
  exact ⟨ListHeap.stores_of_isLl hempty (fun n _ _ hn => absurd hn List.not_mem_nil) rfl,
    fun _ => rfl, hsize, rfl, rfl, hpos, hsmall⟩

/-- **`ht_init`** with memory for all buckets leaves a table of empty ones. -/
lemma htInit_spec {maxSize : ℕ} (hash : ℤ → ℤ) (arr : ℕ → Ll) (hpos : 1 ≤ maxSize)
    (hsmall : maxSize ≤ 2 ^ 31) (hroom : maxSize ≤ bucketRoom maxSize) :
    wp (htInit maxSize hash (some arr)) (fun r t' => r = 0 ∧ ∃ Q,
      t'.Refines Q (ShrekOS.htInit Ptr maxSize hash)) E t := by
  rw [htInit, if_neg (by omega)]
  simp only [allocBuckets, wp_bind, wp_modify]
  -- the buckets before the counter are empty, and those from the end of the array on
  refine wp_imp (wp_upTo (initBucket maxSize) (fun k t' => ∀ i, i < k ∨ bucketRoom maxSize ≤ i →
    t'.heap.lists i = llInit) maxSize (fun i hi => ?first) fun k t' hk hbefore => ?step)
    fun _ t' hall => ⟨rfl, ?last⟩
  case first =>
    exact if_neg (not_lt.mpr (hi.resolve_left (Nat.not_lt_zero i)))
  case step =>
    simp only [initBucket, wp_bind, wp_require, wp_modify]
    refine ⟨fun _ i hi => ?_, fun hout => absurd (hk.trans_le hroom) hout⟩
    by_cases hik : i = k
    · rw [hik, Function.update_self]
    · rw [Function.update_of_ne hik]
      exact hbefore i (by omega)
  case last =>
    have hle := bucketRoom_le maxSize
    exact ⟨_, refines_new (fun i => hall i (by omega)) rfl hpos hsmall⟩

/-- Without it, the loop writes past the end of the array. -/
lemma htInit_faults {maxSize : ℕ} (hash : ℤ → ℤ) (arr : ℕ → Ll) (hpos : 1 ≤ maxSize)
    (hroom : bucketRoom maxSize < maxSize) (r : ℤ) (t' : HtHeap) :
    htInit maxSize hash (some arr) t ≠ (.ok r, t') := by
  have hfaults : wp (htInit maxSize hash (some arr)) (fun _ _ => False) (fun _ _ => True) t := by
    rw [htInit, if_neg (by omega)]
    simp only [allocBuckets, wp_bind, wp_modify]
    -- each bucket that is written is one for which there is room
    refine wp_imp (wp_upTo (initBucket maxSize) (fun k _ => k ≤ bucketRoom maxSize) maxSize
      (Nat.zero_le _) fun k t' _ _ => ?_) fun _ t' hall => absurd hroom (not_lt.mpr hall)
    simp only [initBucket, wp_bind, wp_require, wp_modify]
    exact ⟨fun hk => hk, fun _ => trivial⟩
  intro hinit
  rw [wp, hinit] at hfaults
  exact hfaults

end HtHeap

/-- A table that refines one of entries behaves as its map. -/
theorem HtHeap.Refines.behaves {t : HtHeap} {Q : Seqs ℕ} {h : Ht ℤ Ptr} (hr : t.Refines Q h)
    (hc : h.Counted) (ops : List HtHeap.Op) :
    BehavesAsMap t (ShrekOS.htGet h) ops := by
  induction ops generalizing t Q h with
  | nil => exact hr.holds hc
  | cons op ops ih =>
      refine ⟨hr.holds hc, fun hop => ?_⟩
      obtain ⟨t', Q', h', hrun, hfail, hr', hc', hmap⟩ := hr.run hc hop
      exact ⟨t', hrun, hfail, hmap ▸ ih hr' hc'⟩

/-- `ht_init` returns 0, and the calls after it go as on an empty map. -/
def InitBehavesAsMap (maxSize : ℕ) (hash : ℤ → ℤ) (arr : ℕ → Ll) (t : HtHeap)
    (ops : List HtHeap.Op) : Prop :=
  ∃ t', HtHeap.htInit maxSize hash (some arr) t = (.ok 0, t') ∧ BehavesAsMap t' (fun _ => none) ops

/-- **When a hash table behaves as a partial map**: for every hash function, every number of
buckets from 1 to `2 ^ 31`, any memory and every sequence of calls, exactly if the bytes of the
buckets are fewer than `2 ^ 32`. -/
theorem htInit_behavesAsMap_iff (t : HtHeap) (arr : ℕ → Ll) {maxSize : ℕ} (hash : ℤ → ℤ)
    (hpos : 1 ≤ maxSize) (hsmall : maxSize ≤ 2 ^ 31) (ops : List HtHeap.Op) :
    InitBehavesAsMap maxSize hash arr t ops ↔ maxSize * 12 < 2 ^ 32 := by
  constructor
  · rintro ⟨t', hinit, -⟩
    by_contra hwrap
    have hroom := not_le.mp (mt HtHeap.le_bucketRoom_iff.mp hwrap)
    exact HtHeap.htInit_faults hash arr hpos hroom 0 t' hinit
  · intro hlt
    obtain ⟨r, t', hinit, rfl, Q, hrefines⟩ := wp_returns <|
      HtHeap.htInit_spec (t := t) hash arr hpos hsmall (HtHeap.le_bucketRoom_iff.mpr hlt)
    have hmap : htGet (ShrekOS.htInit Ptr maxSize hash) = fun _ => none :=
      funext fun key => htGet_htInit maxSize hash key
    refine ⟨t', hinit, ?_⟩
    rw [← hmap]
    exact hrefines.behaves (counted_htInit _ _) ops

/-- Memory in which nothing is in use. -/
def unusedHeap : HtHeap where
  heap := ⟨⟨fun _ => none, fun _ => none, fun _ => none⟩, fun _ => llInit⟩
  entries := fun _ => none
  size := 0
  maxSize := 0
  hash := fun _ => 0

/-- A table of three buckets, whose hash function is negative. -/
theorem htInit_behavesAsMap_three :
    InitBehavesAsMap 3 (fun key => -key) (fun _ => ⟨some 7, none, 2⟩) unusedHeap
      [.put 4 40 100 200, .prepare 1 10 101 201, .putEntry 1 10 101 201, .put 4 41 102 202,
        .get 1, .remove 4 none, .get 4] :=
  (htInit_behavesAsMap_iff _ _ _ (by decide) (by decide) _).mpr (by decide)

/-- With 357913942 buckets `malloc` is asked for 8 bytes, and the first bucket takes 12. -/
theorem not_htInit_behavesAsMap :
    ¬ InitBehavesAsMap 357913942 (fun key => key) (fun _ => llInit) unusedHeap [] := by
  rintro ⟨t', hinit, -⟩
  exact HtHeap.htInit_faults _ _ (by decide) (by decide) 0 t' hinit

end ShrekOS
