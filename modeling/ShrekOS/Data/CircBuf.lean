/-
The circular buffers of `kern/data_structures/circ_buffer.c`.

* `CircBuf`: a buffer with its indices, and `circBufInit`, `circBufWrite`, `circBufRead` and
  `circBufDeleteFront`, in 32-bit arithmetic;
* `CircBuf.contents`: the values in it, the oldest one first;
* `CircBuf.Fits`: the indices fit together, and `CircBuf.Wf`: the length divides `2 ^ 32` as
  well, as that of a buffer whose length is a power of two does;
* `circBufWrite_spec`, `circBufRead_spec`, `circBufDeleteFront_spec`: **the functions are
  those of a queue** of less than `len` values that can also lose its newest one;
* `circBuf_behavesAsDeque_iff`: **when a buffer of any length behaves so** in a sequence of calls.
-/
import Mathlib.Tactic

namespace ShrekOS

variable {α : Type}

/-- `circ_buf_t`. -/
structure CircBuf (α : Type) where
  iR : ℕ
  iW : ℕ
  buf : ℕ → α
  len : ℕ
  n : ℕ

/-- `circ_buf_init`, of memory that holds anything. -/
def circBufInit (buf : ℕ → α) (len : ℕ) : CircBuf α where
  iR := 0
  iW := 0
  buf := buf
  len := len
  n := 0

/-- `circ_buf_write`; it fails when no space is left. -/
def circBufWrite (b : CircBuf α) (v : α) : Option (CircBuf α) :=
  let nextIW := (b.iW + 1) % 2 ^ 32 % b.len
  if (b.n + 1) % 2 ^ 32 = b.len then none
  else some { b with buf := Function.update b.buf b.iW v, iW := nextIW, n := (b.n + 1) % 2 ^ 32 }

/-- `circ_buf_read`; it fails when nothing is left. -/
def circBufRead (b : CircBuf α) : Option (α × CircBuf α) :=
  if b.n = 0 then none
  else some (b.buf b.iR, { b with iR := (b.iR + 1) % 2 ^ 32 % b.len, n := b.n - 1 })

/-- `circ_buf_delete_front`: the value written last is removed. -/
def circBufDeleteFront (b : CircBuf α) : Option (CircBuf α) :=
  if b.n = 0 then none
  else some { b with iW := (b.iW + (2 ^ 32 - 1)) % 2 ^ 32 % b.len, n := b.n - 1 }

namespace CircBuf

/-- The values in the buffer. -/
def contents (b : CircBuf α) : List α :=
  (List.range b.n).map fun j => b.buf ((b.iR + j) % b.len)

/-- The indices of a buffer fit together. -/
structure Wf (b : CircBuf α) : Prop where
  dvd : b.len ∣ 2 ^ 32
  small : b.len < 2 ^ 32
  read : b.iR < b.len
  room : b.n < b.len
  write : b.iW = (b.iR + b.n) % b.len

/-- The indices of a buffer of any length fit together. -/
structure Fits (b : CircBuf α) : Prop where
  small : b.len < 2 ^ 32
  read : b.iR < b.len
  room : b.n < b.len
  write : b.iW = (b.iR + b.n) % b.len

variable {b : CircBuf α}

lemma Wf.fits (h : b.Wf) : b.Fits := ⟨h.small, h.read, h.room, h.write⟩

lemma Fits.wf (h : b.Fits) (hdvd : b.len ∣ 2 ^ 32) : b.Wf :=
  ⟨hdvd, h.small, h.read, h.room, h.write⟩

lemma Fits.len_pos (h : b.Fits) : 0 < b.len := Nat.zero_lt_of_lt h.room

lemma Fits.iW_lt (h : b.Fits) : b.iW < b.len := by
  rw [h.write]
  exact Nat.mod_lt _ h.len_pos

@[simp] lemma length_contents (b : CircBuf α) : b.contents.length = b.n := by simp [contents]

lemma contents_eq_nil : b.contents = [] ↔ b.n = 0 := by
  rw [← List.length_eq_zero_iff, length_contents]

/-- An index that is advanced does not overflow. -/
lemma Fits.succ_mod (h : b.Fits) {k : ℕ} (hk : k < b.len) :
    (k + 1) % 2 ^ 32 % b.len = (k + 1) % b.len := by
  rw [Nat.mod_eq_of_lt (lt_of_le_of_lt hk h.small)]

/-- A write index that is decremented comes to the place before it, unless it wraps around in a
buffer whose length does not divide `2 ^ 32`. -/
lemma Fits.pred_mod (h : b.Fits) (hn : b.n ≠ 0) (hw : b.iW = 0 → b.len ∣ 2 ^ 32) :
    (b.iW + (2 ^ 32 - 1)) % 2 ^ 32 % b.len = (b.iR + (b.n - 1)) % b.len := by
  have hsucc : b.iR + b.n = b.iR + (b.n - 1) + 1 := by omega
  have hlt := h.iW_lt
  have hsmall := h.small
  by_cases h0 : b.iW = 0
  · obtain ⟨q, hq⟩ := hw h0
    calc (b.iW + (2 ^ 32 - 1)) % 2 ^ 32 % b.len
        = (b.iR + b.n + (2 ^ 32 - 1)) % b.len := by
          rw [Nat.mod_mod_of_dvd _ (hw h0), h.write, Nat.mod_add_mod]
      _ = (b.iR + (b.n - 1) + b.len * q) % b.len := by
          rw [← hq]
          congr 1
          omega
      _ = (b.iR + (b.n - 1)) % b.len := Nat.add_mul_mod_self_left _ _ _
  · have hpred : (b.iW + (2 ^ 32 - 1)) % 2 ^ 32 = b.iW - 1 := by omega
    have hstep : (b.iW - 1 + 1) % b.len = (b.iR + (b.n - 1) + 1) % b.len := by
      rw [Nat.sub_add_cancel (Nat.pos_of_ne_zero h0), Nat.mod_eq_of_lt hlt, h.write, hsucc]
    rw [hpred]
    exact Nat.ModEq.add_right_cancel' 1 hstep

/-- A new buffer. -/
lemma fits_init (buf : ℕ → α) {len : ℕ} (h1 : 1 ≤ len) (h2 : len < 2 ^ 32) :
    (circBufInit buf len).Fits where
  small := h2
  read := h1
  room := h1
  write := (Nat.zero_mod _).symm

/-- A new buffer whose length is a power of two. -/
lemma wf_init (buf : ℕ → α) {k : ℕ} (hk : k < 32) : (circBufInit buf (2 ^ k)).Wf where
  dvd := Nat.pow_dvd_pow 2 hk.le
  small := Nat.pow_lt_pow_right (by norm_num) hk
  read := Nat.two_pow_pos k
  room := Nat.two_pow_pos k
  write := (Nat.zero_mod _).symm

@[simp] lemma contents_init (buf : ℕ → α) (len : ℕ) : (circBufInit buf len).contents = [] := rfl

/-- The places of two values differ. -/
lemma Fits.place_ne (h : b.Fits) {j : ℕ} (hj : j < b.n) : (b.iR + j) % b.len ≠ b.iW := by
  rw [h.write]
  intro heq
  have hmod : j % b.len = b.n % b.len := Nat.ModEq.add_left_cancel' b.iR heq
  rw [Nat.mod_eq_of_lt (hj.trans h.room), Nat.mod_eq_of_lt h.room] at hmod
  omega

end CircBuf

open CircBuf

variable {b b' : CircBuf α}

/-- A write into a buffer of any length. -/
lemma circBufWrite_fits (h : b.Fits) (v : α) :
    (circBufWrite b v = none ∧ b.n + 1 = b.len) ∨
      ∃ b', circBufWrite b v = some b' ∧ b.n + 1 ≠ b.len ∧ b'.Fits ∧ b'.len = b.len ∧
        b'.contents = b.contents ++ [v] := by
  have hroom := h.room
  have hsmall := h.small
  have hn : (b.n + 1) % 2 ^ 32 = b.n + 1 := Nat.mod_eq_of_lt (by omega)
  simp only [circBufWrite, hn]
  by_cases hfull : b.n + 1 = b.len
  · exact .inl ⟨if_pos hfull, hfull⟩
  · refine .inr ⟨_, if_neg hfull, hfull, ⟨h.small, h.read, ?_, ?_⟩, rfl, ?_⟩
    · change b.n + 1 < b.len
      omega
    · change (b.iW + 1) % 2 ^ 32 % b.len = (b.iR + (b.n + 1)) % b.len
      rw [h.succ_mod h.iW_lt, h.write, Nat.mod_add_mod, add_assoc]
    · simp only [contents, List.range_succ, List.map_append, List.map_cons, List.map_nil]
      rw [← h.write, Function.update_self]
      congr 1
      refine List.map_congr_left fun j hj => ?_
      rw [Function.update_of_ne (h.place_ne (List.mem_range.mp hj))]

/-- A read from a buffer of any length. -/
lemma circBufRead_fits (h : b.Fits) :
    (circBufRead b = none ∧ b.contents = []) ∨
      ∃ v b', circBufRead b = some (v, b') ∧ b'.Fits ∧ b'.len = b.len ∧
        b.contents = v :: b'.contents := by
  have hroom := h.room
  unfold circBufRead
  by_cases hzero : b.n = 0
  · exact .inl ⟨if_pos hzero, contents_eq_nil.mpr hzero⟩
  · obtain ⟨m, hm⟩ := Nat.exists_eq_succ_of_ne_zero hzero
    refine .inr ⟨_, _, if_neg hzero, ⟨h.small, ?_, ?_, ?_⟩, rfl, ?_⟩
    · exact Nat.mod_lt _ h.len_pos
    · change b.n - 1 < b.len
      omega
    · change b.iW = ((b.iR + 1) % 2 ^ 32 % b.len + (b.n - 1)) % b.len
      rw [h.succ_mod h.read, Nat.mod_add_mod, h.write]
      congr 1
      omega
    · simp only [contents, hm, Nat.succ_eq_add_one, Nat.add_sub_cancel, List.range_succ_eq_map,
        List.map_cons, List.map_map, add_zero, Nat.mod_eq_of_lt h.read]
      congr 1
      refine List.map_congr_left fun j _ => ?_
      rw [Function.comp_apply, h.succ_mod h.read, Nat.mod_add_mod, Nat.succ_eq_add_one, add_assoc,
        add_comm 1 j]

/-- A deletion in a buffer of any length, whose write index does not wrap around. -/
lemma circBufDeleteFront_fits (h : b.Fits) (hw : b.n ≠ 0 → b.iW = 0 → b.len ∣ 2 ^ 32) :
    (circBufDeleteFront b = none ∧ b.contents = []) ∨
      ∃ b', circBufDeleteFront b = some b' ∧ b'.Fits ∧ b'.len = b.len ∧
        b.contents ≠ [] ∧ b'.contents = b.contents.dropLast := by
  have hroom := h.room
  unfold circBufDeleteFront
  by_cases hzero : b.n = 0
  · exact .inl ⟨if_pos hzero, contents_eq_nil.mpr hzero⟩
  · obtain ⟨m, hm⟩ := Nat.exists_eq_succ_of_ne_zero hzero
    refine .inr ⟨_, if_neg hzero, ⟨h.small, h.read, ?_, h.pred_mod hzero (hw hzero)⟩, rfl,
      mt contents_eq_nil.mp hzero, ?_⟩
    · change b.n - 1 < b.len
      omega
    · simp only [contents, hm, Nat.succ_eq_add_one, Nat.add_sub_cancel, List.range_succ,
        List.map_append, List.map_cons, List.map_nil, List.dropLast_concat]

/-- **A write** appends a value, unless only one place is left. -/
theorem circBufWrite_spec (h : b.Wf) (v : α) :
    (circBufWrite b v = none ∧ b.n + 1 = b.len) ∨
      ∃ b', circBufWrite b v = some b' ∧ b'.Wf ∧ b'.len = b.len ∧
        b'.contents = b.contents ++ [v] := by
  rcases circBufWrite_fits h.fits v with hnone | ⟨b', hb', -, hfits, hlen, hcont⟩
  · exact .inl hnone
  · exact .inr ⟨b', hb', hfits.wf (hlen ▸ h.dvd), hlen, hcont⟩

/-- **A read** takes the oldest value. -/
theorem circBufRead_spec (h : b.Wf) :
    (circBufRead b = none ∧ b.contents = []) ∨
      ∃ v b', circBufRead b = some (v, b') ∧ b'.Wf ∧ b'.len = b.len ∧
        b.contents = v :: b'.contents := by
  rcases circBufRead_fits h.fits with hnone | ⟨v, b', hb', hfits, hlen, hcont⟩
  · exact .inl hnone
  · exact .inr ⟨v, b', hb', hfits.wf (hlen ▸ h.dvd), hlen, hcont⟩

/-- **A deletion** removes the newest value. -/
theorem circBufDeleteFront_spec (h : b.Wf) :
    (circBufDeleteFront b = none ∧ b.contents = []) ∨
      ∃ b', circBufDeleteFront b = some b' ∧ b'.Wf ∧ b'.len = b.len ∧
        b'.contents = b.contents.dropLast := by
  rcases circBufDeleteFront_fits h.fits (fun _ _ => h.dvd) with
    hnone | ⟨b', hb', hfits, hlen, -, hcont⟩
  · exact .inl hnone
  · exact .inr ⟨b', hb', hfits.wf (hlen ▸ h.dvd), hlen, hcont⟩

/-! ### A sequence of calls -/

/-- A call on a buffer. -/
inductive CircOp (α : Type) where
  | write (v : α)
  | read
  | deleteFront

/-- How a call on a buffer ends: with a negative code, with 0, or with a value as well. -/
inductive CircAnswer (α : Type) where
  | failed
  | done
  | value (v : α)
  deriving DecidableEq

/-- A call on a buffer. -/
def CircBuf.call (b : CircBuf α) : CircOp α → CircAnswer α × CircBuf α
  | .write v =>
      match circBufWrite b v with
      | none => (.failed, b)
      | some b' => (.done, b')
  | .read =>
      match circBufRead b with
      | none => (.failed, b)
      | some (v, b') => (.value v, b')
  | .deleteFront =>
      match circBufDeleteFront b with
      | none => (.failed, b)
      | some b' => (.done, b')

/-- The same call on a double-ended queue of at most `cap` values, the oldest one first. -/
def dequeCall (cap : ℕ) (l : List α) : CircOp α → CircAnswer α × List α
  | .write v => if l.length = cap then (.failed, l) else (.done, l ++ [v])
  | .read =>
      match l with
      | [] => (.failed, [])
      | v :: l => (.value v, l)
  | .deleteFront =>
      match l with
      | [] => (.failed, [])
      | v :: l => (.done, (v :: l).dropLast)

/-- The words that `circ_buf_init` asks `malloc` for: `len * sizeof(void *)` wraps around. -/
def circBufWords (len : ℕ) : ℕ := len * 4 % 2 ^ 32 / 4

/-- A buffer stores a queue, and its indices are as they should be. -/
structure CircBuf.Stores (b : CircBuf α) (len : ℕ) (l : List α) : Prop where
  read : b.iR < len
  wrote : b.iW < len
  write : b.iW = (b.iR + b.n) % len
  room : l.length ≤ len - 1
  contents : b.contents = l

/-- What a call stores goes to the memory of the buffer. -/
def CircBuf.StoresInside (b : CircBuf α) : CircOp α → Prop
  | .write _ => b.n + 1 ≠ b.len → b.iW < circBufWords b.len
  | _ => True

/-- A sequence of calls goes as on a double-ended queue of at most `len - 1` values, and stores
inside of the buffer's memory. -/
def BehavesAsDeque (len : ℕ) : CircBuf α → List α → List (CircOp α) → Prop
  | b, l, [] => b.Stores len l
  | b, l, op :: ops =>
      b.Stores len l ∧ b.StoresInside op ∧ (b.call op).1 = (dequeCall (len - 1) l op).1 ∧
        BehavesAsDeque len (b.call op).2 (dequeCall (len - 1) l op).2 ops

/-- **The condition** on a call: a write index that is decremented from 0 is that of a buffer
whose length is a power of two, and a value is not stored past the words that were asked for. -/
def CircBuf.Allows (b : CircBuf α) : CircOp α → Prop
  | .write _ => b.n + 1 ≠ b.len → b.iW < circBufWords b.len
  | .read => True
  | .deleteFront => b.n ≠ 0 → b.iW = 0 → b.len ∣ 2 ^ 32

instance (b : CircBuf α) : ∀ op : CircOp α, Decidable (b.Allows op)
  | .write _ => inferInstanceAs (Decidable (b.n + 1 ≠ b.len → b.iW < circBufWords b.len))
  | .read => instDecidableTrue
  | .deleteFront => inferInstanceAs (Decidable (b.n ≠ 0 → b.iW = 0 → b.len ∣ 2 ^ 32))

/-- Each call of a sequence meets the condition. -/
def AllAllowed : CircBuf α → List (CircOp α) → Prop
  | _, [] => True
  | b, op :: ops => b.Allows op ∧ AllAllowed (b.call op).2 ops

instance instDecidableAllAllowed :
    ∀ (b : CircBuf α) (ops : List (CircOp α)), Decidable (AllAllowed b ops)
  | _, [] => instDecidableTrue
  | b, op :: ops =>
      have := instDecidableAllAllowed (b.call op).2 ops
      inferInstanceAs (Decidable (b.Allows op ∧ AllAllowed (b.call op).2 ops))

lemma CircBuf.Fits.stores (h : b.Fits) : b.Stores b.len b.contents where
  read := h.read
  wrote := h.iW_lt
  write := h.write
  room := by
    have hroom := h.room
    rw [length_contents]
    omega
  contents := rfl

/-- **One call** that meets the condition is one on the queue. -/
lemma CircBuf.Fits.call (h : b.Fits) {op : CircOp α} (hop : b.Allows op) :
    (b.call op).2.Fits ∧ (b.call op).2.len = b.len ∧
      ((b.call op).1, (b.call op).2.contents) = dequeCall (b.len - 1) b.contents op := by
  have hroom := h.room
  cases op with
  | write v =>
      rcases circBufWrite_fits h v with ⟨hnone, hfull⟩ | ⟨b', hb', hfull, hfits, hlen, hcont⟩
      · rw [CircBuf.call, hnone, dequeCall, if_pos (by rw [length_contents]; omega)]
        exact ⟨h, rfl, rfl⟩
      · rw [CircBuf.call, hb', dequeCall, if_neg (by rw [length_contents]; omega), ← hcont]
        exact ⟨hfits, hlen, rfl⟩
  | read =>
      rcases circBufRead_fits h with ⟨hnone, hnil⟩ | ⟨v, b', hb', hfits, hlen, hcont⟩
      · rw [CircBuf.call, hnone]
        refine ⟨h, rfl, ?_⟩
        change (_, b.contents) = _
        rw [hnil]
        rfl
      · rw [CircBuf.call, hb', hcont]
        exact ⟨hfits, hlen, rfl⟩
  | deleteFront =>
      rcases circBufDeleteFront_fits h hop with ⟨hnone, hnil⟩ | ⟨b', hb', hfits, hlen, hne, hcont⟩
      · rw [CircBuf.call, hnone]
        refine ⟨h, rfl, ?_⟩
        change (_, b.contents) = _
        rw [hnil]
        rfl
      · obtain ⟨v, l, hl⟩ := List.exists_cons_of_ne_nil hne
        rw [CircBuf.call, hb', hl]
        exact ⟨hfits, hlen, congrArg (Prod.mk _) (hl ▸ hcont)⟩

/-- A decrement that wraps around in another buffer leaves the write index elsewhere. -/
lemma CircBuf.Fits.not_stores (h : b.Fits) {op : CircOp α} (hin : b.StoresInside op)
    (hop : ¬ b.Allows op) (l : List α) : ¬ (b.call op).2.Stores b.len l := by
  cases op with
  | write v => exact absurd hin hop
  | read => exact absurd trivial hop
  | deleteFront =>
      simp only [CircBuf.Allows, Classical.not_imp] at hop
      obtain ⟨hn, hw, hdvd⟩ := hop
      intro hstores
      have hlen := h.len_pos
      have hwrite := hstores.write
      simp only [CircBuf.call, circBufDeleteFront, if_neg hn, hw] at hwrite
      -- the index before 0 is the last one, and `2 ^ 32 - 1` leaves that remainder
      have hplace : (b.iR + (b.n - 1) + 1) % b.len = 0 := by
        rw [add_assoc, Nat.sub_add_cancel (Nat.pos_of_ne_zero hn), ← h.write, hw]
      have hrem : (2 ^ 32 - 1 + 1) % b.len = 0 := by
        rw [← Nat.mod_add_mod, ← hplace, ← Nat.mod_add_mod (b.iR + (b.n - 1))]
        exact congrArg (fun x => (x + 1) % b.len) (by simpa using hwrite)
      exact hdvd (Nat.dvd_of_mod_eq_zero hrem)

/-- **When a buffer behaves as a double-ended queue**: exactly when each call meets the
condition. -/
theorem behavesAsDeque_iff_allAllowed (h : b.Fits) (ops : List (CircOp α)) :
    BehavesAsDeque b.len b b.contents ops ↔ AllAllowed b ops := by
  induction ops generalizing b with
  | nil => exact iff_of_true h.stores trivial
  | cons op ops ih =>
      rw [BehavesAsDeque, AllAllowed]
      by_cases hop : b.Allows op
      · obtain ⟨hfits, hlen, hcall⟩ := h.call hop
        have hin : b.StoresInside op := by
          cases op with
          | write v => exact hop
          | read => trivial
          | deleteFront => trivial
        have hrun := ih hfits
        have hcont : (b.call op).2.contents = (dequeCall (b.len - 1) b.contents op).2 :=
          congrArg Prod.snd hcall
        rw [hlen, hcont] at hrun
        rw [hrun]
        exact ⟨fun hall => ⟨hop, hall.2.2.2⟩,
          fun hall => ⟨h.stores, hin, congrArg Prod.fst hcall, hall.2⟩⟩
      · refine iff_of_false (fun hall => ?_) (fun hall => hop hall.1)
        refine h.not_stores hall.2.1 hop (dequeCall (b.len - 1) b.contents op).2 ?_
        cases ops with
        | nil => exact hall.2.2.2
        | cons op' ops => exact hall.2.2.2.1

/-- **When a new buffer behaves as a double-ended queue.** -/
theorem circBuf_behavesAsDeque_iff (buf : ℕ → α) {len : ℕ} (h1 : 1 ≤ len) (h2 : len < 2 ^ 32)
    (ops : List (CircOp α)) :
    BehavesAsDeque len (circBufInit buf len) [] ops ↔ AllAllowed (circBufInit buf len) ops :=
  behavesAsDeque_iff_allAllowed (fits_init buf h1 h2) ops

/-- The condition met in a buffer of three places. -/
theorem circBuf_behavesAsDeque_three :
    BehavesAsDeque 3 (circBufInit (fun _ => (0 : ℕ)) 3) []
      [.write 1, .write 2, .write 3, .read, .deleteFront, .deleteFront] :=
  (circBuf_behavesAsDeque_iff (fun _ => 0) (by decide) (by decide) _).mpr (by decide)

/-- In a buffer of three places the write index goes from 0 to 0. -/
theorem circBuf_not_deque_three :
    ¬ BehavesAsDeque 3 (circBufInit (fun _ => (0 : ℕ)) 3) []
      [.write 1, .write 2, .read, .write 3, .deleteFront] := by
  intro h
  have hlast := h.2.2.2.2.2.2.2.2.2.2.2.2.2.2.2
  exact absurd hlast.write (by decide)

end ShrekOS
