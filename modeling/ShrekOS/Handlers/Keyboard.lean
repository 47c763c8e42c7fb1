/-
The keyboard of `kern/keyboard.c`: its buffer, the semaphore that counts the complete lines
in it, and the threads that read.

* `Keyboard`, `keyboardWrite`, `keyboardWait` and `keyboardTake`: `keyboard_write`, and
  `keyboard_read` up to its `sem_wait` and after it;
* `kbMachine`: any number of threads read while characters are typed;
* `KbLedger`, `kbLedger_of_reachable`: **the ledger**: the newlines in the buffer, those that
  were deleted by a backspace, the semaphore, and the reads that left their newline behind;
* `KeepsLines`, `keyboardAgrees_of_keepsLines`: **the semaphore agrees with the buffer** when
  no newline is deleted and no read is cut short, and `lines_agree_iff`: when it does.

The ghost fields count the newlines deleted and the reads cut short.
-/
import ShrekOS.Lib.Census
import ShrekOS.Lib.Runs
import ShrekOS.Data.CircBuf
import ShrekOS.Handlers.UserPointers

namespace ShrekOS

open Kit

/-- Where a thread is: not in `keyboard_read`, in the queue of its `sem_wait`, or past it. -/
inductive ReaderPc where
  | out
  | queued (len : ℕ)
  | admitted (len : ℕ)
  deriving DecidableEq

/-- A thread is past the `sem_wait` of its `keyboard_read`. -/
def ReaderPc.Admitted : ReaderPc → Prop
  | .admitted _ => True
  | _ => False

instance (p : ReaderPc) : Decidable p.Admitted := by
  cases p <;> unfold ReaderPc.Admitted <;> infer_instance

/-- `keyboard_t` with the queue of its semaphore, what is echoed on the console, and where
the threads are. -/
structure Keyboard where
  buf : CircBuf UInt8
  count : ℤ
  q : List ℕ
  console : List UInt8
  pc : ℕ → ReaderPc
  erased : ℕ
  cut : ℕ

namespace Keyboard

/-- The characters in the buffer. -/
abbrev line (k : Keyboard) : List UInt8 := k.buf.contents

/-- The newlines in the buffer. -/
def newlines (k : Keyboard) : ℕ := k.line.count 10

/-- No thread is in `keyboard_read`. -/
def Quiet (k : Keyboard) : Prop := ∀ t, k.pc t = .out

/-- A thread goes on elsewhere. -/
def goto (k : Keyboard) (t : ℕ) (p : ReaderPc) : Keyboard :=
  { k with pc := Function.update k.pc t p }

end Keyboard

/-- `print_to_console`: a backspace at an empty buffer is not echoed. -/
def printToConsole (k : Keyboard) (c : UInt8) : Keyboard :=
  if c = 8 ∧ k.buf.n = 0 then k else { k with console := k.console ++ [c] }

/-- `write_to_buffer`. -/
def writeToBuffer (k : Keyboard) (c : UInt8) : ℤ × Keyboard :=
  if c = 8 then
    if k.buf.n = 0 then (0, k)
    else match circBufDeleteFront k.buf with
      | none => (-2, k)
      | some buf => (0, { k with
          buf := buf
          erased := k.erased + if k.line.getLast? = some 10 then 1 else 0 })
  else match circBufWrite k.buf c with
    | none => (-3, k)
    | some buf => (0, { k with buf := buf })

/-- The section of `sem_signal`. -/
def semSignalKb (k : Keyboard) : Keyboard :=
  let k := { k with count := k.count + 1 }
  if k.count ≤ 0 then
    match k.q with
    | [] => k
    | t :: q =>
        match k.pc t with
        | .queued len => { k with q := q }.goto t (.admitted len)
        | _ => { k with q := q }
  else k

/-- `keyboard_write`. -/
def keyboardWrite (k : Keyboard) (val : UInt32) : ℤ × Keyboard :=
  let k := if k.count < 0 then printToConsole k val.toUInt8 else k
  match writeToBuffer k val.toUInt8 with
  | (r, k) =>
      if r < 0 then (-4, k)
      else (0, if val.toUInt8 = 10 then semSignalKb k else k)

/-- `keyboard_read` up to the section of its `sem_wait`. -/
def keyboardWait (k : Keyboard) (t len : ℕ) : Keyboard :=
  let k := { k with count := k.count - 1 }
  if k.count < 0 then { k with q := k.q ++ [t] }.goto t (.queued len)
  else k.goto t (.admitted len)

/-- The loop of `keyboard_read`, as `readLine`, on the buffer. -/
def readLoop : ℕ → List UInt8 → CircBuf UInt8 → Option (List UInt8) × CircBuf UInt8
  | 0, temp, buf => (some temp, buf)
  | n + 1, temp, buf =>
      match circBufRead buf with
      | none => (none, buf)
      | some (c, buf) =>
          if c = 10 then (some (if temp = [] then [c] else temp), buf)
          else readLoop n (temp ++ [c]) buf

/-- `keyboard_read` after its `sem_wait`: what it returns, and the characters that it copies. -/
def keyboardTake (k : Keyboard) (t len : ℕ) : (ℤ × List UInt8) × Keyboard :=
  let k' := { k with cut := k.cut + if 10 ∈ k.line.take len then 0 else 1 }.goto t .out
  match readLoop len [] k.buf with
  | (none, buf) => ((-2, []), { k' with buf := buf })
  | (some temp, buf) => ((temp.length, temp), { k' with buf := buf })

/-! ### Runs -/

/-- A character is typed, a thread calls `keyboard_read`, or goes on in it. -/
inductive KbOp where
  | write (val : UInt32)
  | wait (t len : ℕ)
  | take (t : ℕ)

/-- The steps; the size of the buffer bounds `len`. -/
def kbNext (k : Keyboard) : KbOp → Option Keyboard
  | .write val => some (keyboardWrite k val).2
  | .wait t len =>
      if k.pc t = .out ∧ 1 ≤ len ∧ len ≤ k.buf.len then some (keyboardWait k t len) else none
  | .take t =>
      match k.pc t with
      | .admitted len => some (keyboardTake k t len).2
      | _ => none

/-- `keyboard_init`. -/
def keyboardInit (buf : ℕ → UInt8) (len : ℕ) : Keyboard where
  buf := circBufInit buf len
  count := 0
  q := []
  console := []
  pc := fun _ => .out
  erased := 0
  cut := 0

/-- The runs of a keyboard whose buffer has a power of two for its length. -/
def kbMachine : Machine Keyboard KbOp where
  init k := ∃ buf e, e < 32 ∧ k = keyboardInit buf (2 ^ e)
  step k op k' := kbNext k op = some k'

/-- **The condition**: a backspace does not delete a newline, and a read is long enough for the
first line. -/
def KeepsLines (k : Keyboard) : KbOp → Prop
  | .write val => val.toUInt8 = 8 → k.line.getLast? ≠ some 10
  | .wait _ _ => True
  | .take t => ∀ len, k.pc t = .admitted len → 10 ∈ k.line → 10 ∈ k.line.take len

/-- The semaphore agrees with the buffer. -/
structure KeyboardAgrees (k : Keyboard) : Prop where
  /-- with no reader under way the semaphore counts the newlines -/
  agrees : k.Quiet → k.count = k.newlines
  /-- a read does not exhaust the buffer -/
  answers : ∀ t len, k.pc t = .admitted len → (keyboardTake k t len).1.1 ≠ -2
  /-- where a read blocks, every complete line is that of a reader on its way -/
  blocks : k.count ≤ 0 → (∀ t, ¬ (k.pc t).Admitted) → k.newlines = 0

/-! ### The line that is read -/

/-- Reading takes the first newline, if it comes to it. -/
lemma readLine_count : ∀ (n : ℕ) (temp rest : List UInt8),
    (readLine n temp rest).2.count 10 + (if 10 ∈ rest.take n then 1 else 0) = rest.count 10 := by
  intro n
  induction n with
  | zero =>
      intro temp rest
      rw [List.take_zero, if_neg (List.not_mem_nil), readLine, add_zero]
  | succ n ih =>
      intro temp rest
      cases rest with
      | nil => rfl
      | cons c rest =>
          rw [readLine, List.take_succ_cons]
          by_cases hc : c = 10
          · subst hc
            rw [if_pos rfl, if_pos (List.mem_cons_self ..), List.count_cons_self]
          · have hmem : 10 ∈ c :: rest.take n ↔ 10 ∈ rest.take n := by
              rw [List.mem_cons, or_iff_right (Ne.symm hc)]
            rw [if_neg hc, List.count_cons_of_ne hc]
            simp only [hmem]
            exact ih _ rest

/-- A buffer with a newline is not exhausted. -/
lemma readLine_isSome : ∀ (n : ℕ) (temp rest : List UInt8), 10 ∈ rest →
    ((readLine n temp rest).1).isSome := by
  intro n
  induction n with
  | zero => exact fun _ _ _ => rfl
  | succ n ih =>
      intro temp rest hmem
      cases rest with
      | nil => exact absurd hmem List.not_mem_nil
      | cons c rest =>
          rw [readLine]
          by_cases hc : c = 10
          · rw [if_pos hc]
            rfl
          · rw [if_neg hc]
            exact ih _ rest ((List.mem_cons.mp hmem).resolve_left (Ne.symm hc))

/-- **The loop of `keyboard_read`** reads the line from what is in the buffer. -/
lemma readLoop_spec : ∀ (n : ℕ) (temp : List UInt8) {buf : CircBuf UInt8}, buf.Wf →
    (readLoop n temp buf).1 = (readLine n temp buf.contents).1 ∧
      (readLoop n temp buf).2.contents = (readLine n temp buf.contents).2 ∧
      (readLoop n temp buf).2.Wf ∧ (readLoop n temp buf).2.len = buf.len := by
  intro n
  induction n with
  | zero => exact fun temp buf h => ⟨rfl, rfl, h, rfl⟩
  | succ n ih =>
      intro temp buf h
      rcases circBufRead_spec h with ⟨hr, hnil⟩ | ⟨c, buf', hr, h', hlen, hcons⟩
      · rw [readLoop, hr, hnil]
        exact ⟨rfl, rfl, h, rfl⟩
      · rw [readLoop, hr, hcons, readLine]
        dsimp only
        by_cases hc : c = 10
        · rw [if_pos hc, if_pos hc]
          exact ⟨rfl, rfl, h', hlen⟩
        · rw [if_neg hc, if_neg hc]
          obtain ⟨h1, h2, h3, h4⟩ := ih (temp ++ [c]) h'
          exact ⟨h1, h2, h3, h4.trans hlen⟩

/-! ### The ledger -/

/-- **The ledger of a keyboard**, with newlines that the semaphore has not been told of. -/
structure KbLedger (new : ℕ) (k : Keyboard) : Prop where
  wf : k.buf.Wf
  few : Few k.pc ReaderPc.Admitted
  queue : (k.q.length : ℤ) = max 0 (-k.count)
  nodup : k.q.Nodup
  queued : ∀ t, t ∈ k.q ↔ ∃ len, k.pc t = .queued len
  ledger : (k.newlines : ℤ) + k.erased =
    k.count + new + k.q.length + census k.pc ReaderPc.Admitted + k.cut

variable {k k' : Keyboard} {t len new : ℕ}

/-- Other characters in the buffer. -/
lemma KbLedger.setBuf (h : KbLedger 0 k) {buf : CircBuf UInt8} (hwf : buf.Wf) {erased : ℕ}
    (hcount : buf.contents.count 10 + erased = k.newlines + k.erased + new) :
    KbLedger new { k with buf := buf, erased := erased } where
  wf := hwf
  few := h.few
  queue := h.queue
  nodup := h.nodup
  queued := h.queued
  ledger := by
    have hledger := h.ledger
    change ((buf.contents.count 10 : ℕ) : ℤ) + erased = _
    push_cast at hledger ⊢
    omega

/-- The newest character is a newline or not. -/
lemma count_dropLast (l : List UInt8) :
    l.dropLast.count 10 + (if l.getLast? = some 10 then 1 else 0) = l.count 10 := by
  induction l using List.reverseRecOn with
  | nil => rfl
  | append_singleton l c _ =>
      rw [List.dropLast_concat, List.getLast?_concat, List.count_append, List.count_singleton]
      simp only [Option.some.injEq, beq_iff_eq]

/-- **The buffer is written to**: a newline is not yet known to the semaphore. -/
lemma writeToBuffer_ledger (h : KbLedger 0 k) (c : UInt8) :
    ((writeToBuffer k c).1 < 0 ∧ (writeToBuffer k c).2 = k) ∨
      (writeToBuffer k c).1 = 0 ∧ KbLedger (if c = 10 then 1 else 0) (writeToBuffer k c).2 := by
  unfold writeToBuffer
  by_cases h8 : c = 8
  · have h10 : c ≠ 10 := by
      rintro rfl
      cases h8
    rw [if_pos h8, if_neg h10]
    by_cases hzero : k.buf.n = 0
    · rw [if_pos hzero]
      exact .inr ⟨rfl, h⟩
    · rw [if_neg hzero]
      rcases circBufDeleteFront_spec h.wf with ⟨hr, -⟩ | ⟨buf, hr, hwf, -, hcontents⟩
      · rw [hr]
        exact .inl ⟨by norm_num, rfl⟩
      · rw [hr]
        refine .inr ⟨rfl, h.setBuf hwf ?_⟩
        have hcount := count_dropLast k.line
        simp only [hcontents, Keyboard.newlines, Keyboard.line] at hcount ⊢
        omega
  · rw [if_neg h8]
    rcases circBufWrite_spec h.wf c with ⟨hr, -⟩ | ⟨buf, hr, hwf, -, hcontents⟩
    · rw [hr]
      exact .inl ⟨by norm_num, rfl⟩
    · rw [hr]
      refine .inr ⟨rfl, h.setBuf hwf ?_⟩
      simp only [hcontents, List.count_append, List.count_singleton, beq_iff_eq, Keyboard.newlines,
        Keyboard.line]
      omega

/-- **The semaphore is told of a newline.** -/
lemma semSignalKb_ledger (h : KbLedger 1 k) : KbLedger 0 (semSignalKb k) := by
  have hqueue := h.queue
  have hledger := h.ledger
  unfold semSignalKb
  dsimp only
  split_ifs with hle
  · cases hq : k.q with
    -- a count below zero has a reader in the queue
    | nil =>
        rw [hq, List.length_nil] at hqueue
        omega
    -- the first reader is admitted: it leaves the queue, and the line is spoken for
    | cons t q =>
        dsimp only
        obtain ⟨len, hpc⟩ := (h.queued t).mp (by rw [hq]; exact .head _)
        rw [hpc]
        have hnodup := h.nodup
        rw [hq] at hnodup hqueue hledger
        rw [List.length_cons] at hqueue hledger
        obtain ⟨hnot, hnodup⟩ := List.nodup_cons.mp hnodup
        have hgain := census_update_gain h.few t (p := .admitted len)
          (by rw [hpc]; exact id) trivial
        refine ⟨h.wf, h.few.update t _, ?_, hnodup, fun u => ?_, ?_⟩
        · change (q.length : ℤ) = max 0 (-(k.count + 1))
          omega
        · change u ∈ q ↔ ∃ len', Function.update k.pc t (.admitted len) u = .queued len'
          by_cases hu : u = t
          · subst hu
            rw [Function.update_self]
            refine iff_of_false hnot ?_
            rintro ⟨_, ⟨⟩⟩
          · have hmem := h.queued u
            rw [hq, List.mem_cons, or_iff_right hu] at hmem
            rw [Function.update_of_ne hu]
            exact hmem
        · change ((k.newlines : ℕ) : ℤ) + k.erased = k.count + 1 + (0 : ℕ) + q.length +
            census (Function.update k.pc t (.admitted len)) ReaderPc.Admitted + k.cut
          rw [hgain]
          push_cast at hledger ⊢
          omega
  -- nobody waits: the line is kept in the count
  · refine ⟨h.wf, h.few, ?_, h.nodup, h.queued, ?_⟩
    · change (k.q.length : ℤ) = max 0 (-(k.count + 1))
      omega
    · change ((k.newlines : ℕ) : ℤ) + k.erased = k.count + 1 + (0 : ℕ) + k.q.length +
        census k.pc ReaderPc.Admitted + k.cut
      push_cast at hledger ⊢
      omega

/-- **A character that is typed** keeps the ledger. -/
lemma keyboardWrite_ledger (h : KbLedger 0 k) (val : UInt32) :
    KbLedger 0 (keyboardWrite k val).2 := by
  have hecho : KbLedger 0 (if k.count < 0 then printToConsole k val.toUInt8 else k) := by
    unfold printToConsole
    split_ifs
    · exact h
    · exact ⟨h.wf, h.few, h.queue, h.nodup, h.queued, h.ledger⟩
    · exact h
  unfold keyboardWrite
  generalize (if k.count < 0 then printToConsole k val.toUInt8 else k) = k₁ at hecho
  dsimp only
  rcases writeToBuffer_ledger hecho val.toUInt8 with ⟨hneg, hsame⟩ | ⟨hzero, hnew⟩
  · rw [if_pos hneg, hsame]
    exact hecho
  · rw [if_neg (by rw [hzero]; decide)]
    split_ifs at hnew ⊢
    · exact semSignalKb_ledger hnew
    · exact hnew

/-- **A thread calls `keyboard_read`.** -/
lemma keyboardWait_ledger (h : KbLedger 0 k) (hpc : k.pc t = .out) (len : ℕ) :
    KbLedger 0 (keyboardWait k t len) := by
  have hqueue := h.queue
  have hledger := h.ledger
  have hnot : t ∉ k.q := by
    rw [h.queued, hpc]
    rintro ⟨_, ⟨⟩⟩
  have hout : ¬ (k.pc t).Admitted := by
    rw [hpc]
    exact id
  unfold keyboardWait
  dsimp only
  split_ifs with hneg
  -- no line is there: the reader goes into the queue
  · refine ⟨h.wf, h.few.update t _, ?_, ?_, fun u => ?_, ?_⟩
    · change ((k.q ++ [t]).length : ℤ) = max 0 (-(k.count - 1))
      rw [List.length_append, List.length_singleton]
      push_cast
      omega
    · refine List.nodup_append.mpr ⟨h.nodup, List.nodup_singleton t, ?_⟩
      rintro u hu v hv rfl
      exact hnot (List.mem_singleton.mp hv ▸ hu)
    · change u ∈ k.q ++ [t] ↔ ∃ len', Function.update k.pc t (.queued len) u = .queued len'
      rw [List.mem_append, List.mem_singleton]
      by_cases hu : u = t
      · subst hu
        rw [Function.update_self]
        exact iff_of_true (.inr rfl) ⟨len, rfl⟩
      · rw [Function.update_of_ne hu, or_iff_left hu]
        exact h.queued u
    · have hsame := census_update_same h.few t (.queued len) (iff_of_false id hout)
      change ((k.newlines : ℕ) : ℤ) + k.erased = k.count - 1 + (0 : ℕ) + (k.q ++ [t]).length +
        census (Function.update k.pc t (.queued len)) ReaderPc.Admitted + k.cut
      rw [hsame, List.length_append, List.length_singleton]
      push_cast at hledger ⊢
      omega
  -- a line is there: the reader is admitted at once
  · refine ⟨h.wf, h.few.update t _, ?_, h.nodup, fun u => ?_, ?_⟩
    · change (k.q.length : ℤ) = max 0 (-(k.count - 1))
      omega
    · change u ∈ k.q ↔ ∃ len', Function.update k.pc t (.admitted len) u = .queued len'
      by_cases hu : u = t
      · subst hu
        rw [Function.update_self]
        refine iff_of_false hnot ?_
        rintro ⟨_, ⟨⟩⟩
      · rw [Function.update_of_ne hu]
        exact h.queued u
    · have hgain := census_update_gain h.few t (p := .admitted len) hout trivial
      change ((k.newlines : ℕ) : ℤ) + k.erased = k.count - 1 + (0 : ℕ) + k.q.length +
        census (Function.update k.pc t (.admitted len)) ReaderPc.Admitted + k.cut
      rw [hgain]
      push_cast at hledger ⊢
      omega

/-- What a read leaves. -/
lemma keyboardTake_state (k : Keyboard) (t len : ℕ) : (keyboardTake k t len).2 =
    { k with
      buf := (readLoop len [] k.buf).2
      cut := k.cut + if 10 ∈ k.line.take len then 0 else 1
      pc := Function.update k.pc t .out } := by
  unfold keyboardTake
  rcases readLoop len [] k.buf with ⟨_ | _, _⟩ <;> rfl

/-- **A thread reads**: it takes a newline, or is cut short. -/
lemma keyboardTake_ledger (h : KbLedger 0 k) (hpc : k.pc t = .admitted len) :
    KbLedger 0 (keyboardTake k t len).2 := by
  have hledger := h.ledger
  obtain ⟨-, hcontents, hwf, -⟩ := readLoop_spec len [] h.wf
  have hcount := readLine_count len [] k.line
  have hloss := census_update_loss h.few t (p := .out) (by rw [hpc]; trivial) id
  rw [keyboardTake_state]
  refine ⟨hwf, h.few.update t _, h.queue, h.nodup, fun u => ?_, ?_⟩
  · change u ∈ k.q ↔ ∃ len', Function.update k.pc t .out u = .queued len'
    by_cases hu : u = t
    · subst hu
      rw [Function.update_self, h.queued, hpc]
      refine iff_of_false ?_ ?_
      · rintro ⟨_, ⟨⟩⟩
      · rintro ⟨_, ⟨⟩⟩
    · rw [Function.update_of_ne hu]
      exact h.queued u
  · change (((readLoop len [] k.buf).2.contents.count 10 : ℕ) : ℤ) + k.erased =
      k.count + (0 : ℕ) + k.q.length +
        census (Function.update k.pc t .out) ReaderPc.Admitted +
        ((k.cut + if 10 ∈ k.line.take len then 0 else 1 : ℕ) : ℤ)
    rw [hcontents]
    change (readLine len [] k.buf.contents).2.count 10 + _ = k.newlines at hcount
    split_ifs at hcount ⊢
    · push_cast at hledger ⊢
      omega
    · push_cast at hledger ⊢
      omega

/-- **Every step keeps the ledger.** -/
lemma kbNext_ledger (h : KbLedger 0 k) {op : KbOp} (hs : kbNext k op = some k') :
    KbLedger 0 k' := by
  cases op with
  | write val =>
      obtain rfl := Option.some.inj hs
      exact keyboardWrite_ledger h val
  | wait t len =>
      simp only [kbNext] at hs
      split_ifs at hs with hen
      obtain rfl := Option.some.inj hs
      exact keyboardWait_ledger h hen.1 len
  | take t =>
      simp only [kbNext] at hs
      split at hs
      · next len hpc =>
        obtain rfl := Option.some.inj hs
        exact keyboardTake_ledger h hpc
      · cases hs

/-- **The ledger** balances in every run. -/
theorem kbLedger_of_reachable (h : kbMachine.Reachable k) : KbLedger 0 k := by
  refine Machine.Reachable.inv (I := KbLedger 0) ?_ ?_ h
  · rintro _ ⟨buf, e, he, rfl⟩
    have hnone : ∀ t, ¬ ((keyboardInit buf (2 ^ e)).pc t).Admitted := fun _ => id
    refine ⟨CircBuf.wf_init buf he, .of_none hnone, rfl, List.nodup_nil, fun t => ?_, ?_⟩
    · refine iff_of_false List.not_mem_nil ?_
      rintro ⟨_, ⟨⟩⟩
    · rw [census_of_none hnone]
      rfl
  · intro s op s' hledger hs
    exact kbNext_ledger hledger hs

/-- No thread is queued or on its way when none is in `keyboard_read`. -/
lemma KbLedger.of_quiet (h : KbLedger 0 k) (hq : k.Quiet) :
    (k.newlines : ℤ) + k.erased = k.count + k.cut := by
  have hledger := h.ledger
  have hempty : k.q = [] := by
    refine List.eq_nil_iff_forall_not_mem.mpr fun t ht => ?_
    obtain ⟨len, hpc⟩ := (h.queued t).mp ht
    rw [hq t] at hpc
    cases hpc
  have hnone : census k.pc ReaderPc.Admitted = 0 := by
    refine census_of_none fun t => ?_
    rw [hq t]
    exact id
  rw [hempty, List.length_nil, hnone] at hledger
  push_cast at hledger
  omega

/-- **When the semaphore agrees with the buffer**: as many newlines were deleted as reads were
cut short. -/
theorem lines_agree_iff (h : kbMachine.Reachable k) (hq : k.Quiet) :
    k.count = k.newlines ↔ k.erased = k.cut := by
  have hledger := (kbLedger_of_reachable h).of_quiet hq
  omega

/-! ### Keeping the lines -/

/-- No newline was deleted, and no read was cut short. -/
def Kept (k : Keyboard) : Prop := k.erased = 0 ∧ k.cut = 0

/-- The semaphore does not touch the ghost counts. -/
lemma semSignalKb_kept (h : Kept k) : Kept (semSignalKb k) := by
  unfold semSignalKb
  dsimp only
  split_ifs
  · split
    · exact h
    · split
      · exact h
      · exact h
  · exact h

lemma keyboardWrite_kept (h : Kept k) {val : UInt32} (hp : KeepsLines k (.write val)) :
    Kept (keyboardWrite k val).2 := by
  have hecho : Kept (if k.count < 0 then printToConsole k val.toUInt8 else k) ∧
      (if k.count < 0 then printToConsole k val.toUInt8 else k).line = k.line := by
    unfold printToConsole
    split_ifs
    · exact ⟨h, rfl⟩
    · exact ⟨h, rfl⟩
    · exact ⟨h, rfl⟩
  unfold keyboardWrite
  generalize (if k.count < 0 then printToConsole k val.toUInt8 else k) = k₁ at hecho
  obtain ⟨hkept, hline⟩ := hecho
  have hwrite : Kept (writeToBuffer k₁ val.toUInt8).2 := by
    unfold writeToBuffer
    by_cases h8 : val.toUInt8 = 8
    · rw [if_pos h8, hline, if_neg (hp h8)]
      split_ifs
      · exact hkept
      · cases circBufDeleteFront k₁.buf with
        | none => exact hkept
        | some buf => exact hkept
    · rw [if_neg h8]
      cases circBufWrite k₁.buf val.toUInt8 with
      | none => exact hkept
      | some buf => exact hkept
  dsimp only
  split_ifs
  · exact hwrite
  · exact semSignalKb_kept hwrite
  · exact hwrite

/-- Somebody on the way has its newline in the buffer. -/
lemma KbLedger.line_of_admitted (h : KbLedger 0 k) (hkept : Kept k) (hpc : k.pc t = .admitted len) :
    10 ∈ k.line := by
  have hledger := h.ledger
  have hqueue := h.queue
  have hpos : 0 < census k.pc ReaderPc.Admitted :=
    (census_pos h.few).mpr ⟨t, by rw [hpc]; trivial⟩
  rw [hkept.1, hkept.2] at hledger
  refine List.count_pos_iff.mp ?_
  change 0 < k.newlines
  push_cast at hledger
  omega

/-- **A step that keeps the lines** adds nothing to the ghost counts. -/
lemma kbNext_kept (h : KbLedger 0 k) (hkept : Kept k) {op : KbOp} (hp : KeepsLines k op)
    (hs : kbNext k op = some k') : Kept k' := by
  cases op with
  | write val =>
      obtain rfl := Option.some.inj hs
      exact keyboardWrite_kept hkept hp
  | wait t len =>
      simp only [kbNext] at hs
      split_ifs at hs
      obtain rfl := Option.some.inj hs
      unfold keyboardWait
      dsimp only
      split_ifs
      · exact hkept
      · exact hkept
  | take t =>
      simp only [kbNext] at hs
      split at hs
      · next len hpc =>
        obtain rfl := Option.some.inj hs
        have hline := hp len hpc (h.line_of_admitted hkept hpc)
        rw [keyboardTake_state, if_pos hline]
        exact hkept
      · cases hs

/-- **The semaphore counts the complete lines** in every run in which no backspace deletes a
newline and every read is long enough for the first line: with no reader under way its value
is the number of newlines in the buffer, no read exhausts the buffer, and no read blocks while
a complete line is left. -/
theorem keyboardAgrees_of_keepsLines (h : kbMachine.Reach KeepsLines k) : KeyboardAgrees k := by
  have hledger : KbLedger 0 k := kbLedger_of_reachable (h.mono fun _ _ _ => trivial)
  have hkept : Kept k := by
    have hboth : KbLedger 0 k ∧ Kept k := by
      refine Machine.Reach.inv (I := fun k => KbLedger 0 k ∧ Kept k) ?_ ?_ h
      · rintro k₀ ⟨buf, e, he, rfl⟩
        exact ⟨kbLedger_of_reachable (.init ⟨buf, e, he, rfl⟩), rfl, rfl⟩
      · rintro k₁ op k₂ ⟨hl, hk⟩ hp hs
        exact ⟨kbNext_ledger hl hs, kbNext_kept hl hk hp hs⟩
    exact hboth.2
  refine ⟨fun hq => ?_, fun t len hpc => ?_, fun hle hnone => ?_⟩
  · have hquiet := hledger.of_quiet hq
    rw [hkept.1, hkept.2] at hquiet
    omega
  · obtain ⟨hloop, -⟩ := readLoop_spec len [] hledger.wf
    have hsome := readLine_isSome len [] k.line (hledger.line_of_admitted hkept hpc)
    rw [← hloop, Option.isSome_iff_exists] at hsome
    obtain ⟨temp, htemp⟩ := hsome
    unfold keyboardTake
    rcases hread : readLoop len [] k.buf with ⟨r, buf⟩
    rw [hread] at htemp
    change r = some temp at htemp
    rw [htemp]
    change ((temp.length : ℕ) : ℤ) ≠ -2
    omega
  · have hqueue := hledger.queue
    have hbalance := hledger.ledger
    rw [hkept.1, hkept.2, census_of_none hnone] at hbalance
    push_cast at hbalance
    omega

/-! ### Runs -/

/-- A newline is typed, and deleted by a backspace. -/
def erasedLine : Keyboard :=
  (keyboardWrite (keyboardWrite (keyboardInit (fun _ => 0) 8) 10).2 8).2

/-- The semaphore still counts the newline. -/
theorem not_keyboardAgrees_erasedLine : ¬ ∀ k, kbMachine.Reachable k → KeyboardAgrees k := by
  intro hall
  have hreach : kbMachine.Reachable erasedLine := by
    refine .step (a := .write 8) (.step (a := .write 10) (.init ⟨fun _ => 0, 3, by omega, rfl⟩)
      trivial rfl) trivial rfl
  have hcount := (hall erasedLine hreach).agrees fun _ => rfl
  exact absurd hcount (by decide)

instance (k : Keyboard) (op : KbOp) : Decidable (KeepsLines k op) :=
  match op with
  | .write val => inferInstanceAs (Decidable (val.toUInt8 = 8 → _))
  | .wait _ _ => instDecidableTrue
  | .take t =>
      decidable_of_iff (∀ len ∈ (match k.pc t with
        | .admitted len => [len]
        | _ => []), 10 ∈ k.line → 10 ∈ k.line.take len) <| by
        simp only [KeepsLines]
        cases k.pc t <;> simp

/-- Thread 0 waits for a line; `a`, `b`, a backspace and a newline are typed. -/
def lineRun : List KbOp :=
  [.wait 0 4, .write 97, .write 98, .write 8, .write 10, .take 0, .write 10]

/-- One complete line is left. -/
theorem keyboardAgrees_of_keepsLines_lineRun :
    ∃ k, Machine.replay (Machine.guarded KeepsLines kbNext) (keyboardInit (fun _ => 0) 8)
        lineRun = some k ∧
      k.line = [10] ∧ k.count = 1 ∧ k.console = [97, 98, 8, 10] ∧ KeyboardAgrees k := by
  have hrun : (Machine.replay (Machine.guarded KeepsLines kbNext) (keyboardInit (fun _ => 0) 8)
      lineRun).map (fun k => (k.line, k.count, k.console)) =
        some ([10], 1, [97, 98, 8, 10]) := by decide +kernel
  rw [Option.map_eq_some_iff] at hrun
  obtain ⟨k, hk, heq⟩ := hrun
  obtain ⟨hline, heq⟩ := Prod.mk.inj heq
  obtain ⟨hcount, hconsole⟩ := Prod.mk.inj heq
  refine ⟨k, hk, hline, hcount, hconsole, keyboardAgrees_of_keepsLines ?_⟩
  exact Machine.reach_of_guarded (fun _ _ _ h => h) lineRun
    (.init ⟨fun _ => 0, 3, by omega, rfl⟩) hk

end ShrekOS
