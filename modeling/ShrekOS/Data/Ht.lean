/-
The hash table of `kern/data_structures/ht.c`, with separate chaining.

A table keeps its buckets as lists of entries, in chain order. Every bucket
holds each key at most once and only keys that hash to it: both are fields of
the structure, so every table below is well formed.

* `htIdx`: the bucket index, the `int` hash taken as an unsigned number modulo
  `max_size`;
* `htGet`, `htPut`, `htPutEntry`, `htRemove`: the operations on one bucket;
* `htGet_htPut`, `htGet_htRemove`: a table is a partial map from keys to values
  under them;
* `Ht.Counted`: the size of a table is the number of its keys, as `counted_htPut` and
  `counted_htRemove` keep it.
-/
import Mathlib.Tactic

namespace ShrekOS

/-- `t->hash(key) % t->max_size`: the `int` hash is converted to the unsigned
type of `max_size` first. -/
def htIdx {K : Type} (hash : K → ℤ) (maxSize : ℕ) (key : K) : ℕ :=
  (hash key % 2 ^ 32).toNat % maxSize

/-- `ht_t`: the entries of a bucket stand in the order of its chain. -/
structure Ht (K V : Type) where
  size : ℕ
  maxSize : ℕ
  hash : K → ℤ
  arr : ℕ → List (K × V)
  nodup : ∀ i, ((arr i).map Prod.fst).Nodup
  home : ∀ i e, e ∈ arr i → htIdx hash maxSize e.1 = i

namespace Ht

variable {K V : Type}

/-- The bucket a key belongs to. -/
def idx (t : Ht K V) (key : K) : ℕ := htIdx t.hash t.maxSize key

/-- The entries of a bucket hash to it. -/
lemma idx_of_mem (t : Ht K V) {i : ℕ} {e : K × V} (he : e ∈ t.arr i) : t.idx e.1 = i :=
  t.home i e he

/-- Replace one bucket of a table by a list with the same keys or fewer, or
with a new key at its end. -/
def setBucket (t : Ht K V) (key : K) (l : List (K × V)) (size : ℕ)
    (hn : (l.map Prod.fst).Nodup) (hh : ∀ e ∈ l, t.idx e.1 = t.idx key) : Ht K V where
  size := size
  maxSize := t.maxSize
  hash := t.hash
  arr := Function.update t.arr (t.idx key) l
  nodup := by
    intro i
    by_cases hi : i = t.idx key
    · subst hi; simpa using hn
    · simpa [Function.update_of_ne hi] using t.nodup i
  home := by
    intro i e he
    by_cases hi : i = t.idx key
    · subst hi
      rw [Function.update_self] at he
      exact hh e he
    · rw [Function.update_of_ne hi] at he
      exact t.home i e he

@[simp] lemma idx_setBucket (t : Ht K V) (key : K) (l : List (K × V)) (size : ℕ) (hn hh)
    (k : K) : (t.setBucket key l size hn hh).idx k = t.idx k := rfl

end Ht

section

variable {K V : Type} [DecidableEq K]

/-- `ht_init`: a table with empty buckets. -/
def htInit (V : Type) (maxSize : ℕ) (hash : K → ℤ) : Ht K V where
  size := 0
  maxSize := maxSize
  hash := hash
  arr := fun _ => []
  nodup := by simp
  home := by simp

/-- `ht_get`: the value under a key, or `none` for the code `-2`. -/
def htGet (t : Ht K V) (key : K) : Option V :=
  ((t.arr (t.idx key)).find? fun e => e.1 = key).map Prod.snd

lemma htGet_eq_none_iff (t : Ht K V) (key : K) :
    htGet t key = none ↔ ∀ e ∈ t.arr (t.idx key), e.1 ≠ key := by
  simp [htGet]

/-- Among entries with different keys, the one found first under a key is the one there is. -/
lemma find?_eq_some_iff {l : List (K × V)} (hn : (l.map Prod.fst).Nodup) {key : K} {v : V} :
    (l.find? fun e => e.1 = key) = some (key, v) ↔ (key, v) ∈ l := by
  refine ⟨List.mem_of_find?_eq_some, fun hmem => ?_⟩
  induction l with
  | nil => exact absurd hmem List.not_mem_nil
  | cons e l ih =>
      rw [List.map_cons, List.nodup_cons] at hn
      rcases List.mem_cons.mp hmem with rfl | hmem
      · exact List.find?_cons_of_pos (by simp)
      · have hne : e.1 ≠ key := fun heq => hn.1 (heq ▸ List.mem_map_of_mem hmem)
        rw [List.find?_cons_of_neg (by simpa using hne), ih hn.2 hmem]

/-- The value under a key is that of the entry in its bucket. -/
lemma htGet_eq_some_iff (t : Ht K V) (key : K) (v : V) :
    htGet t key = some v ↔ (key, v) ∈ t.arr (t.idx key) := by
  rw [htGet, ← find?_eq_some_iff (t.nodup _), Option.map_eq_some_iff]
  constructor
  · rintro ⟨⟨k, w⟩, hfind, rfl⟩
    have hk : k = key := by simpa using List.find?_some hfind
    rw [hfind, hk]
  · exact fun hfind => ⟨_, hfind, rfl⟩

/-- A table without values has no entries. -/
lemma arr_eq_nil_of_htGet {t : Ht K V} (h : ∀ key, htGet t key = none) (i : ℕ) : t.arr i = [] := by
  refine List.eq_nil_iff_forall_not_mem.mpr fun e he => ?_
  have hnone := (htGet_eq_none_iff t e.1).mp (h e.1) e
  rw [t.idx_of_mem he] at hnone
  exact hnone he rfl

/-- `ht_put`: append an entry to the bucket of its key; the code is `-4` and the
table unchanged when the key is there already. -/
def htPut (t : Ht K V) (key : K) (val : V) : ℤ × Ht K V :=
  if h : htGet t key = none then
    (0, t.setBucket key (t.arr (t.idx key) ++ [(key, val)]) (t.size + 1)
      (by
        rw [htGet_eq_none_iff] at h
        simp only [List.map_append, List.nodup_append, t.nodup]
        simpa using fun a v => h (a, v))
      (by
        intro e he
        rcases List.mem_append.mp he with he | he
        · exact t.idx_of_mem he
        · rw [List.mem_singleton.mp he]))
  else (-4, t)

/-- `ht_put_entry`: the same for an entry allocated by the caller. -/
def htPutEntry (t : Ht K V) (entry : K × V) : ℤ × Ht K V := htPut t entry.1 entry.2

/-- `ht_remove`: take the entry of a key out of its bucket and report its value;
`none` stands for the code `-2`, with the table unchanged. -/
def htRemove (t : Ht K V) (key : K) : Option V × Ht K V :=
  match htGet t key with
  | none => (none, t)
  | some v =>
      (some v, t.setBucket key ((t.arr (t.idx key)).eraseP fun e => e.1 = key) (t.size - 1)
        ((t.nodup _).sublist (List.eraseP_sublist.map Prod.fst))
        fun _ he => t.idx_of_mem (List.eraseP_sublist.subset he))

/-! ### The table as a partial map -/

@[simp] lemma htGet_htInit (maxSize : ℕ) (hash : K → ℤ) (key : K) :
    htGet (htInit V maxSize hash) key = none := by
  simp [htGet, htInit]

/-- Looking a key up in a table with one bucket replaced. -/
lemma htGet_setBucket (t : Ht K V) (key : K) (l : List (K × V)) (size : ℕ) (hn hh) (k : K) :
    htGet (t.setBucket key l size hn hh) k =
      if t.idx k = t.idx key then (l.find? fun e => e.1 = k).map Prod.snd else htGet t k := by
  rw [htGet, Ht.idx_setBucket]
  by_cases h : t.idx k = t.idx key
  · simp [Ht.setBucket, h]
  · simp [Ht.setBucket, h, htGet]

/-- Putting a fresh key succeeds and updates the map at it. -/
lemma htGet_htPut {t : Ht K V} (key : K) (h : htGet t key = none) (val : V) :
    (htPut t key val).1 = 0 ∧
      htGet (htPut t key val).2 = Function.update (htGet t) key (some val) := by
  rw [htPut, dif_pos h]
  refine ⟨rfl, funext fun k => ?_⟩
  rw [htGet_setBucket]
  rw [htGet_eq_none_iff] at h
  by_cases hk : k = key
  · subst hk
    have hnone : (t.arr (t.idx k)).find? (fun e => e.1 = k) = none := by
      simpa using fun a v => h (a, v)
    simp [List.find?_append, hnone]
  · rw [Function.update_of_ne hk]
    split_ifs with hi
    · simp [htGet, hi, List.find?_append, Ne.symm hk]
    · rfl

/-- Erasing the entry of a key leaves the entries of the others. -/
lemma find?_eraseP_ne {key k : K} (hk : k ≠ key) (l : List (K × V)) :
    (l.eraseP fun e => e.1 = key).find? (fun e => e.1 = k) = l.find? fun e => e.1 = k := by
  induction l with
  | nil => rfl
  | cons e l ih =>
      by_cases he : e.1 = key
      · rw [List.eraseP_cons_of_pos (by simpa using he), List.find?_cons_of_neg]
        simpa [he] using Ne.symm hk
      · rw [List.eraseP_cons_of_neg (by simpa using he), List.find?_cons, List.find?_cons, ih]

/-- Erasing the entry of a key from a bucket without duplicates leaves none. -/
lemma ne_of_mem_eraseP {key : K} {l : List (K × V)} (hn : (l.map Prod.fst).Nodup) {e : K × V}
    (he : e ∈ l.eraseP fun e => e.1 = key) : e.1 ≠ key := by
  induction l with
  | nil => simp at he
  | cons d l ih =>
      rw [List.map_cons, List.nodup_cons] at hn
      by_cases hd : d.1 = key
      · rw [List.eraseP_cons_of_pos (by simpa using hd)] at he
        exact fun h => hn.1 (hd.trans h.symm ▸ List.mem_map_of_mem he)
      · rw [List.eraseP_cons_of_neg (by simpa using hd)] at he
        rcases List.mem_cons.mp he with rfl | he
        · exact hd
        · exact ih hn.2 he

/-- Removing a key reports its value and clears the map at it. -/
lemma htGet_htRemove (t : Ht K V) (key : K) :
    (htRemove t key).1 = htGet t key ∧
      htGet (htRemove t key).2 = Function.update (htGet t) key none := by
  unfold htRemove
  split
  · next hg => exact ⟨hg.symm, by rw [← hg, Function.update_eq_self]⟩
  · next v hg =>
      refine ⟨hg.symm, funext fun k => ?_⟩
      dsimp only
      rw [htGet_setBucket]
      by_cases hk : k = key
      · subst hk
        rw [if_pos rfl, Function.update_self, Option.map_eq_none_iff, List.find?_eq_none]
        exact fun e he => by simpa using ne_of_mem_eraseP (t.nodup _) he
      · rw [Function.update_of_ne hk]
        split_ifs with hi
        · rw [htGet, hi, find?_eraseP_ne hk]
        · rfl

/-! ### The size -/

/-- The keys of a table are finitely many, and its size is their number. -/
structure Ht.Counted (t : Ht K V) : Prop where
  finite : {k | htGet t k ≠ none}.Finite
  size_eq : t.size = {k | htGet t k ≠ none}.ncard

lemma counted_htInit (maxSize : ℕ) (hash : K → ℤ) : (htInit V maxSize hash).Counted := by
  have hkeys : {k | htGet (htInit V maxSize hash) k ≠ none} = ∅ := by simp
  refine ⟨hkeys ▸ Set.finite_empty, ?_⟩
  rw [hkeys, Set.ncard_empty]
  rfl

/-- The keys after a change at one of them. -/
lemma keys_update_some (m : K → Option V) (key : K) (val : V) :
    {k | Function.update m key (some val) k ≠ none} = insert key {k | m k ≠ none} := by
  ext k
  by_cases hk : k = key
  · simp [hk]
  · simp [hk]

lemma keys_update_none (m : K → Option V) (key : K) :
    {k | Function.update m key none k ≠ none} = {k | m k ≠ none} \ {key} := by
  ext k
  by_cases hk : k = key
  · simp [hk]
  · simp [hk]

/-- A fresh key is counted. -/
lemma counted_htPut {t : Ht K V} (h : t.Counted) (key : K) (hkey : htGet t key = none) (val : V) :
    (htPut t key val).2.Counted := by
  have hsize : (htPut t key val).2.size = t.size + 1 := by
    rw [htPut, dif_pos hkey]
    rfl
  have hkeys : {k | htGet (htPut t key val).2 k ≠ none} = insert key {k | htGet t k ≠ none} := by
    rw [(htGet_htPut key hkey val).2, keys_update_some]
  refine ⟨hkeys ▸ h.finite.insert key, ?_⟩
  rw [hsize, hkeys, Set.ncard_insert_of_notMem (by simpa using hkey) h.finite, h.size_eq]

/-- A key that is removed is no longer counted. -/
lemma counted_htRemove {t : Ht K V} (h : t.Counted) {key : K} {v : V}
    (hkey : htGet t key = some v) : (htRemove t key).2.Counted := by
  have hsize : (htRemove t key).2.size = t.size - 1 := by
    unfold htRemove
    split
    · next hnone => exact absurd (hnone.symm.trans hkey) (Option.some_ne_none v).symm
    · rfl
  have hkeys : {k | htGet (htRemove t key).2 k ≠ none} = {k | htGet t k ≠ none} \ {key} := by
    rw [(htGet_htRemove t key).2, keys_update_none]
  have hmem : key ∈ {k | htGet t k ≠ none} := by simp [hkey]
  refine ⟨hkeys ▸ h.finite.sdiff, ?_⟩
  rw [hsize, hkeys, Set.ncard_sdiff_singleton_of_mem hmem, h.size_eq]

end

end ShrekOS
