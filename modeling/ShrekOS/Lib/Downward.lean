/-
Stores to descending addresses, as on a stack that grows down.

* `below`: the addresses from one down;
* `push`: the memory after a list of values was stored at an address and below it, with
  `push_cons` and `push_append` for stores in a row, and what is read back (`push_sub`) or left
  alone (`push_of_le`);
* `getElem?_flatMap`: a list that is stored piece by piece;
* `bytesDown`, `wordAt`: words of four bytes, the lowest byte at the lowest address, and
  `wordAt_push` for words in a row.

Addresses have 32 bits and wrap around.
-/
import Mathlib.Data.List.GetD
import Mathlib.Tactic

namespace Kit.Downward

variable {α β : Type} {m : UInt32 → β} {e a : UInt32} {l l' : List β} {i j n k : ℕ}

/-! ### Addresses -/

/-- The `n` addresses from `e` down. -/
def below (e : UInt32) (n : ℕ) : List UInt32 := (List.range n).map fun j => e - UInt32.ofNat j

lemma sub_ofNat_add (e : UInt32) (n j : ℕ) :
    e - UInt32.ofNat (n + j) = e - UInt32.ofNat n - UInt32.ofNat j := by
  apply UInt32.toNat_inj.mp
  simp only [UInt32.toNat_sub, UInt32.toNat_ofNat']
  omega

lemma below_add (e : UInt32) (n k : ℕ) :
    below e (n + k) = below e n ++ below (e - UInt32.ofNat n) k := by
  rw [below, List.range_add, List.map_append, List.map_map]
  congr 1
  exact List.map_congr_left fun j _ => sub_ofNat_add e n j

/-- The distance of an address below another one. -/
lemma sub_toNat (hj : j < 2 ^ 32) : (e - (e - UInt32.ofNat j)).toNat = j := by
  have hself : e - (e - UInt32.ofNat j) = UInt32.ofNat j := by
    rw [UInt32.sub_eq_iff_eq_add, UInt32.add_comm, UInt32.sub_add_cancel]
  rw [hself, UInt32.toNat_ofNat_of_lt' hj]

/-- Far enough from zero nothing wraps around. -/
lemma toNat_sub_ofNat (h : j ≤ e.toNat) : (e - UInt32.ofNat j).toNat = e.toNat - j := by
  have hlt := e.toNat_lt
  simp only [UInt32.toNat_sub, UInt32.toNat_ofNat']
  omega

/-! ### Values stored one below the other -/

/-- The memory after the values of a list were stored from `e` down. -/
def push (m : UInt32 → β) (e : UInt32) (l : List β) : UInt32 → β :=
  fun a => l.getD (e - a).toNat (m a)

@[simp] lemma push_nil (m : UInt32 → β) (e : UInt32) : push m e [] = m := rfl

/-- What was stored. -/
lemma push_sub (v : β) (hv : l[j]? = some v) (hl : l.length ≤ 2 ^ 32) :
    push m e l (e - UInt32.ofNat j) = v := by
  obtain ⟨hj, -⟩ := List.getElem?_eq_some_iff.mp hv
  rw [push, sub_toNat (hj.trans_le hl), List.getD_eq_getElem?_getD, hv, Option.getD_some]

/-- What is left alone. -/
lemma push_of_le (h : l.length ≤ (e - a).toNat) : push m e l a = m a :=
  List.getD_eq_default _ _ h

/-- **One value, and the others below it.** -/
lemma push_cons (v : β) (hl : l.length < 2 ^ 32) :
    push (Function.update m e v) (e - 1) l = push m e (v :: l) := by
  funext a
  by_cases ha : a = e
  · have hwrap : (e - 1 - e).toNat = 2 ^ 32 - 1 := by
      have hlt := e.toNat_lt
      simp only [UInt32.toNat_sub, UInt32.toNat_one]
      omega
    subst ha
    rw [push_of_le (by omega), Function.update_self, push, UInt32.sub_self]
    rfl
  · have hae : a.toNat ≠ e.toNat := fun h => ha (UInt32.toNat_inj.mp h)
    obtain ⟨k, hk⟩ : ∃ k, (e - a).toNat = k + 1 := by
      refine Nat.exists_eq_succ_of_ne_zero fun h0 => hae ?_
      have hlt := e.toNat_lt
      have hlt' := a.toNat_lt
      rw [UInt32.toNat_sub] at h0
      omega
    have hprev : (e - 1 - a).toNat = k := by
      have hlt := e.toNat_lt
      have hlt' := a.toNat_lt
      simp only [UInt32.toNat_sub, UInt32.toNat_one] at hk ⊢
      omega
    rw [push, push, hk, hprev, Function.update_of_ne ha, List.getD_cons_succ]

/-- **Two lists of values, one below the other.** -/
lemma push_append (hl : l.length + l'.length ≤ 2 ^ 32) :
    push (push m e l) (e - UInt32.ofNat l.length) l' = push m e (l ++ l') := by
  induction l generalizing m e with
  | nil =>
      change push m (e - 0) l' = push m e l'
      rw [UInt32.sub_zero]
  | cons v l ih =>
      rw [List.length_cons] at hl
      have hnext : e - UInt32.ofNat (l.length + 1) = e - 1 - UInt32.ofNat l.length := by
        rw [Nat.add_comm, sub_ofNat_add]
        rfl
      rw [← push_cons v (by omega), List.length_cons, hnext, ih (by omega), List.cons_append,
        push_cons v (by rw [List.length_append]; omega)]

/-- The same, where the lower one is stored first. -/
lemma push_push_above (hl : l.length + l'.length ≤ 2 ^ 32) :
    push (push m (e - UInt32.ofNat l.length) l') e l = push m e (l ++ l') := by
  funext a
  by_cases hlt : (e - a).toNat < l.length
  · have hval : ∀ d, l.getD (e - a).toNat d = l.get ⟨_, hlt⟩ := fun d =>
      List.getD_eq_getElem _ d hlt
    change l.getD (e - a).toNat _ = (l ++ l').getD (e - a).toNat _
    rw [List.getD_append _ _ _ _ hlt, hval, hval]
  · have hnext : (e - UInt32.ofNat l.length - a).toNat = (e - a).toNat - l.length := by
      have he := e.toNat_lt
      have ha := a.toNat_lt
      simp only [UInt32.toNat_sub, UInt32.toNat_ofNat'] at hlt ⊢
      omega
    rw [push_of_le (by omega)]
    change l'.getD _ (m a) = (l ++ l').getD (e - a).toNat (m a)
    rw [hnext, List.getD_append_right _ _ _ _ (by omega)]

/-! ### Lists stored piece by piece -/

/-- A value of a piece, found in the whole. -/
lemma getElem?_flatMap (f : α → List β) {xs : List α} {x : α} (hx : xs[i]? = some x)
    (hj : j < (f x).length) :
    (xs.flatMap f)[((xs.take i).flatMap f).length + j]? = (f x)[j]? := by
  obtain ⟨hi, rfl⟩ := List.getElem?_eq_some_iff.mp hx
  have hsplit : xs.flatMap f =
      (xs.take i).flatMap f ++ (f xs[i] ++ (xs.drop (i + 1)).flatMap f) := by
    rw [← List.flatMap_cons, ← List.drop_eq_getElem_cons hi, ← List.flatMap_append,
      List.take_append_drop]
  rw [hsplit, List.getElem?_append_right (Nat.le_add_right _ _), Nat.add_sub_cancel_left,
    List.getElem?_append_left hj]

/-- Pieces of one length. -/
lemma length_flatMap_const (f : α → List β) (hf : ∀ x, (f x).length = k) (xs : List α) :
    (xs.flatMap f).length = k * xs.length := by
  induction xs with
  | nil => rfl
  | cons x xs ih =>
      rw [List.flatMap_cons, List.length_append, hf, ih, List.length_cons,
        Nat.mul_succ, Nat.add_comm]

/-! ### Words -/

/-- Byte `i` of a word. -/
def byteOf (w : UInt32) (i : ℕ) : UInt8 := UInt8.ofNat (w.toNat / 2 ^ (8 * i))

/-- The bytes of a word, the highest one first. -/
def bytesDown (w : UInt32) : List UInt8 := [byteOf w 3, byteOf w 2, byteOf w 1, byteOf w 0]

/-- The word at an address. -/
def wordAt (m : UInt32 → UInt8) (a : UInt32) : UInt32 :=
  UInt32.ofNat ((m a).toNat + 2 ^ 8 * (m (a + 1)).toNat + 2 ^ 16 * (m (a + 2)).toNat +
    2 ^ 24 * (m (a + 3)).toNat)

@[simp] lemma length_bytesDown (w : UInt32) : (bytesDown w).length = 4 := rfl

/-- The word that four bytes make up. -/
lemma wordAt_eq {m : UInt32 → UInt8} {w : UInt32} (h0 : m a = byteOf w 0)
    (h1 : m (a + 1) = byteOf w 1) (h2 : m (a + 2) = byteOf w 2) (h3 : m (a + 3) = byteOf w 3) :
    wordAt m a = w := by
  have hlt := w.toNat_lt
  apply UInt32.toNat_inj.mp
  simp only [wordAt, h0, h1, h2, h3, byteOf, UInt32.toNat_ofNat', UInt8.toNat_ofNat']
  omega

/-- A word is 0 when its bytes are. -/
lemma wordAt_eq_zero_iff {m : UInt32 → UInt8} :
    wordAt m a = 0 ↔ m a = 0 ∧ m (a + 1) = 0 ∧ m (a + 2) = 0 ∧ m (a + 3) = 0 := by
  have hbyte : ∀ b : UInt8, b = 0 ↔ b.toNat = 0 := fun b => UInt8.toNat_inj.symm
  have h0 := (m a).toNat_lt
  have h1 := (m (a + 1)).toNat_lt
  have h2 := (m (a + 2)).toNat_lt
  have h3 := (m (a + 3)).toNat_lt
  rw [← UInt32.toNat_inj, hbyte, hbyte, hbyte, hbyte, wordAt, UInt32.toNat_ofNat',
    UInt32.toNat_zero]
  omega

/-- The same, byte by byte. -/
lemma wordAt_eq_zero_iff_forall {m : UInt32 → UInt8} :
    wordAt m a = 0 ↔ ∀ k < 4, m (a + UInt32.ofNat k) = 0 := by
  have hzero : a + UInt32.ofNat 0 = a := UInt32.add_zero a
  rw [wordAt_eq_zero_iff]
  constructor
  · rintro ⟨h0, h1, h2, h3⟩ k hk
    interval_cases k
    · rwa [hzero]
    · exact h1
    · exact h2
    · exact h3
  · intro hall
    exact ⟨hzero ▸ hall 0 (by decide), hall 1 (by decide), hall 2 (by decide),
      hall 3 (by decide)⟩

/-- **Words in a row**, read back. -/
lemma wordAt_push {m : UInt32 → UInt8} {ws : List UInt32} {w : UInt32} (hw : ws[i]? = some w)
    (hl : 4 * ws.length ≤ 2 ^ 32) :
    wordAt (push m e (ws.flatMap bytesDown)) (e - UInt32.ofNat (4 * i + 3)) = w := by
  obtain ⟨hi, -⟩ := List.getElem?_eq_some_iff.mp hw
  have hlen : (ws.flatMap bytesDown).length ≤ 2 ^ 32 := by
    rw [length_flatMap_const _ length_bytesDown]
    exact hl
  have hread : ∀ j < 4, push m e (ws.flatMap bytesDown) (e - UInt32.ofNat (4 * i + j)) =
      byteOf w (3 - j) := by
    intro j hj
    refine push_sub _ ?_ hlen
    have hpiece := getElem?_flatMap bytesDown hw (j := j) hj
    rw [length_flatMap_const _ length_bytesDown, List.length_take_of_le hi.le] at hpiece
    rw [hpiece]
    interval_cases j <;> rfl
  have hup : ∀ t j, t + j = 3 →
      e - UInt32.ofNat (4 * i + 3) + UInt32.ofNat t = e - UInt32.ofNat (4 * i + j) := by
    intro t j htj
    rw [← htj, Nat.add_comm t j, ← Nat.add_assoc, sub_ofNat_add e (4 * i + j) t,
      UInt32.sub_add_cancel]
  exact wordAt_eq (hread 3 (by decide)) ((hup 1 2 rfl).symm ▸ hread 2 (by decide))
    ((hup 2 1 rfl).symm ▸ hread 1 (by decide)) ((hup 3 0 rfl).symm ▸ hread 0 (by decide))

end Kit.Downward
