/-
The text that is typed, and the lines that `readline` returns of it.

* `eraseLast`, `edited`: what is left of a text when each backspace has deleted the character
  before it, up to the beginning of the line;
* `Session`, `sessionNext`, `sessionMachine`: the keyboard with the characters that it has accepted
  and the answers of the reads, in order;
* `readLine_complete`: a read of a complete line;
* `SessionInv`, `sessionInv_of_reach`: what was read and what is in the buffer are the edited text;
* `reads_lines`: **the reads return the lines of the edited text**, in order, each line once.
-/
import ShrekOS.Handlers.Keyboard

namespace ShrekOS.LineInput

open Kit

/-! ### Editing -/

/-- A backspace does not delete a newline. -/
def eraseLast (text : List UInt8) : List UInt8 :=
  if text.getLast? = some 10 then text else text.dropLast

/-- A character is appended, or a backspace deletes one. -/
def editNext (text : List UInt8) (c : UInt8) : List UInt8 :=
  if c = 8 then eraseLast text else text ++ [c]

/-- **The edited text.** -/
def edited (typed : List UInt8) : List UInt8 := typed.foldl editNext []

/-- What `keyboard_read` returns for a line, with what it copies: an empty line is returned with
its newline, all others without. -/
def answer (l : List UInt8) : ℤ × List UInt8 :=
  if l = [] then (1, [10]) else (l.length, l)

variable {text l rest typed : List UInt8} {c : UInt8}

@[simp] lemma edited_nil : edited [] = [] := rfl

@[simp] lemma edited_snoc : edited (typed ++ [c]) = editNext (edited typed) c := by
  rw [edited, List.foldl_append]
  rfl

/-- A backspace in a line that has been begun. -/
lemma eraseLast_append (hnil : l ≠ []) (hlast : l.getLast? ≠ some 10) :
    eraseLast (text ++ l) = text ++ l.dropLast := by
  obtain ⟨c, hc⟩ := Option.ne_none_iff_exists'.mp (mt List.getLast?_eq_none_iff.mp hnil)
  have hsome : (text ++ l).getLast? = some c := by
    rw [List.getLast?_append, hc]
    rfl
  rw [eraseLast, if_neg (by rw [hsome, ← hc]; exact hlast), List.dropLast_append_of_ne_nil hnil]

/-- A backspace after complete lines. -/
lemma eraseLast_lines (lines : List (List UInt8)) :
    eraseLast (lines.flatMap (· ++ [10])) = lines.flatMap (· ++ [10]) := by
  induction lines using List.reverseRecOn with
  | nil => rfl
  | append_singleton lines l _ =>
      have hflat : (lines ++ [l]).flatMap (· ++ [10]) = lines.flatMap (· ++ [10]) ++ l ++ [10] := by
        rw [List.flatMap_append, List.append_assoc]
        exact congrArg _ (List.append_nil _)
      rw [eraseLast, hflat, List.getLast?_concat, if_pos rfl]

/-- The lines of a text, of which the last one is not complete. -/
lemma splitOn_lines (text : List UInt8) : ∀ {lines : List (List UInt8)}, (∀ l ∈ lines, 10 ∉ l) →
    (lines.flatMap (· ++ [10]) ++ text).splitOn 10 = lines ++ text.splitOn 10 := by
  intro lines
  induction lines with
  | nil => exact fun _ => rfl
  | cons l lines ih =>
      intro h
      have hflat : (l :: lines).flatMap (· ++ [10]) ++ text =
          l ++ 10 :: (lines.flatMap (· ++ [10]) ++ text) := by
        rw [List.flatMap_cons, List.append_assoc, List.append_assoc]
        rfl
      rw [hflat, List.splitOn_append_cons_self_of_not_mem (h l (.head _)),
        ih fun m hm => h m (.tail _ hm), List.cons_append]

/-! ### The runs -/

/-- A keyboard, the characters it has accepted, and the answers of the reads that are done. -/
structure Session where
  kb : Keyboard
  typed : List UInt8
  reads : List (ℤ × List UInt8)

/-- The steps of the keyboard. -/
def sessionNext (s : Session) : KbOp → Option Session
  | .write val =>
      some { s with
        kb := (keyboardWrite s.kb val).2
        typed := if (keyboardWrite s.kb val).1 = 0 then s.typed ++ [val.toUInt8] else s.typed }
  | .wait t len =>
      if s.kb.pc t = .out ∧ 1 ≤ len ∧ len ≤ s.kb.buf.len then
        some { s with kb := keyboardWait s.kb t len }
      else none
  | .take t =>
      match s.kb.pc t with
      | .admitted len =>
          some { s with
            kb := (keyboardTake s.kb t len).2
            reads := s.reads ++ [(keyboardTake s.kb t len).1] }
      | _ => none

/-- After `keyboard_init`. -/
def sessionInit (buf : ℕ → UInt8) (len : ℕ) : Session := ⟨keyboardInit buf len, [], []⟩

/-- The runs of a keyboard whose buffer has a power of two for its length. -/
def sessionMachine : Machine Session KbOp where
  init s := ∃ buf e, e < 32 ∧ s = sessionInit buf (2 ^ e)
  step s op s' := sessionNext s op = some s'

/-- The condition on a step, as `KeepsLines`. -/
def SessionKeeps (s : Session) (op : KbOp) : Prop := KeepsLines s.kb op

instance (s : Session) (op : KbOp) : Decidable (SessionKeeps s op) :=
  inferInstanceAs (Decidable (KeepsLines s.kb op))

variable {s s' : Session} {k : Keyboard} {t len : ℕ} {op : KbOp}

/-- A step of the session is one of its keyboard. -/
lemma kbNext_of_session (h : sessionNext s op = some s') : kbNext s.kb op = some s'.kb := by
  cases op with
  | write val =>
      obtain rfl := Option.some.inj h
      rfl
  | wait t len =>
      obtain ⟨hen, heq⟩ := Option.ite_none_right_eq_some.mp h
      obtain rfl := Option.some.inj heq
      exact if_pos hen
  | take t =>
      rcases hpc : s.kb.pc t with _ | _ | len
      · simp [sessionNext, hpc] at h
      · simp [sessionNext, hpc] at h
      · simp only [sessionNext, hpc, Option.some.injEq] at h
        rw [← h]
        simp only [kbNext, hpc]

/-! ### What a step does to the buffer -/

/-- The echo leaves the buffer. -/
lemma buf_echo (k : Keyboard) (c : UInt8) :
    (if k.count < 0 then printToConsole k c else k).buf = k.buf := by
  rw [printToConsole]
  split_ifs
  · rfl
  · rfl
  · rfl

/-- The semaphore leaves the buffer. -/
lemma buf_semSignalKb (k : Keyboard) : (semSignalKb k).buf = k.buf := by
  rw [semSignalKb]
  dsimp only
  split_ifs
  · split
    · rfl
    · split
      · rfl
      · rfl
  · rfl

/-- **A character that is accepted** edits the buffer. -/
lemma line_keyboardWrite (h : k.buf.Wf) (val : UInt32) :
    (keyboardWrite k val).1 ≠ 0 ∧ (keyboardWrite k val).2.line = k.line ∨
      (keyboardWrite k val).1 = 0 ∧ (keyboardWrite k val).2.line =
        if val.toUInt8 = 8 then k.line.dropLast else k.line ++ [val.toUInt8] := by
  have hbuf := buf_echo k val.toUInt8
  rw [keyboardWrite]
  generalize (if k.count < 0 then printToConsole k val.toUInt8 else k) = k₁ at hbuf
  have hwf : k₁.buf.Wf := by rwa [hbuf]
  have hline : k₁.line = k.line := congrArg CircBuf.contents hbuf
  -- the buffer is what `write_to_buffer` leaves, whether the semaphore is signalled or not
  have hwrite : (writeToBuffer k₁ val.toUInt8).1 < 0 ∧
      (writeToBuffer k₁ val.toUInt8).2.line = k.line ∨
      (writeToBuffer k₁ val.toUInt8).1 = 0 ∧ (writeToBuffer k₁ val.toUInt8).2.line =
        if val.toUInt8 = 8 then k.line.dropLast else k.line ++ [val.toUInt8] := by
    rw [writeToBuffer]
    by_cases h8 : val.toUInt8 = 8
    · rw [if_pos h8, if_pos h8]
      by_cases hzero : k₁.buf.n = 0
      · rw [if_pos hzero]
        have hnil : k.line = [] := hline ▸ CircBuf.contents_eq_nil.mpr hzero
        exact .inr ⟨rfl, by rw [hline, hnil]; rfl⟩
      · rw [if_neg hzero]
        rcases circBufDeleteFront_spec hwf with ⟨hr, -⟩ | ⟨buf, hr, -, -, hcontents⟩
        · rw [hr]
          exact .inl ⟨by norm_num, hline⟩
        · rw [hr]
          exact .inr ⟨rfl, hcontents.trans (congrArg List.dropLast hline)⟩
    · rw [if_neg h8, if_neg h8]
      rcases circBufWrite_spec hwf val.toUInt8 with ⟨hr, -⟩ | ⟨buf, hr, -, -, hcontents⟩
      · rw [hr]
        exact .inl ⟨by norm_num, hline⟩
      · rw [hr]
        exact .inr ⟨rfl, hcontents.trans (congrArg (· ++ [val.toUInt8]) hline)⟩
  dsimp only
  rcases hwrite with ⟨hneg, hsame⟩ | ⟨hzero, hnew⟩
  · rw [if_pos hneg]
    exact .inl ⟨by norm_num, hsame⟩
  · rw [if_neg (by rw [hzero]; decide)]
    refine .inr ⟨rfl, ?_⟩
    dsimp only
    split_ifs at hnew ⊢
    all_goals first | exact hnew | exact (congrArg CircBuf.contents (buf_semSignalKb _)).trans hnew

/-- **A read of a complete line** takes the line and its newline. -/
lemma readLine_complete : ∀ (n : ℕ) (temp : List UInt8), 10 ∉ l → l.length < n →
    readLine n temp (l ++ 10 :: rest) =
      (some (if temp ++ l = [] then [10] else temp ++ l), rest) := by
  induction l with
  | nil =>
      intro n temp _ hlt
      obtain ⟨m, rfl⟩ := Nat.exists_eq_succ_of_ne_zero (Nat.ne_of_gt hlt)
      rw [List.nil_append, readLine, if_pos rfl, List.append_nil]
  | cons c l ih =>
      intro n temp hnot hlt
      obtain ⟨m, rfl⟩ := Nat.exists_eq_succ_of_ne_zero (Nat.ne_of_gt (Nat.zero_lt_of_lt hlt))
      obtain ⟨hc, hl⟩ := not_or.mp (mt List.mem_cons.mpr hnot)
      have happ : temp ++ [c] ++ l = temp ++ c :: l := by simp
      rw [List.cons_append, readLine, if_neg (Ne.symm hc), ih m _ hl (Nat.lt_of_succ_lt_succ hlt),
        happ]

/-- The answer to a read of a complete line. -/
lemma keyboardTake_complete (h : k.buf.Wf) (hline : k.line = l ++ 10 :: rest) (hnot : 10 ∉ l)
    (hlt : l.length < len) :
    (keyboardTake k t len).1 = answer l ∧ (keyboardTake k t len).2.line = rest := by
  obtain ⟨hloop, hcontents, -, -⟩ := readLoop_spec len [] h
  have hread : readLine len [] (l ++ 10 :: rest) = _ := readLine_complete len [] hnot hlt
  change k.buf.contents = _ at hline
  rw [hline, hread, List.nil_append] at hloop hcontents
  rw [keyboardTake, answer]
  rcases hr : readLoop len [] k.buf with ⟨r, buf⟩
  rw [hr] at hloop hcontents
  change r = _ at hloop
  subst hloop
  refine ⟨?_, hcontents⟩
  by_cases hnil : l = []
  · rw [if_pos hnil, if_pos hnil]
    rfl
  · rw [if_neg hnil, if_neg hnil]

/-! ### The invariant -/

/-- What was read, line by line, and what is in the buffer are the edited text. -/
def SessionInv (s : Session) : Prop :=
  ∃ lines : List (List UInt8), (∀ l ∈ lines, 10 ∉ l) ∧ s.reads = lines.map answer ∧
    edited s.typed = lines.flatMap (· ++ [10]) ++ s.kb.line

/-- A text with a newline, split at the first one. -/
lemma exists_line (h : 10 ∈ text.take len) :
    ∃ l rest, text = l ++ 10 :: rest ∧ 10 ∉ l ∧ l.length < len := by
  obtain ⟨l, rest, htake, hnot⟩ := List.eq_append_cons_of_mem h
  refine ⟨l, rest ++ text.drop len, ?_, hnot, ?_⟩
  · calc text = text.take len ++ text.drop len := (List.take_append_drop len text).symm
      _ = l ++ 10 :: (rest ++ text.drop len) := by rw [htake, List.append_assoc]; rfl
  · have hlen := congrArg List.length htake
    rw [List.length_append, List.length_cons, List.length_take] at hlen
    omega

/-- **A step that keeps the lines** keeps the invariant. -/
lemma sessionInv_step (hledger : KbLedger 0 s.kb) (hkept : Kept s.kb) (h : SessionInv s)
    (hkeeps : SessionKeeps s op) (hstep : sessionNext s op = some s') : SessionInv s' := by
  obtain ⟨lines, hnot, hreads, hedited⟩ := h
  cases op with
  | write val =>
      obtain rfl := Option.some.inj hstep
      refine ⟨lines, hnot, hreads, ?_⟩
      dsimp only
      rcases line_keyboardWrite hledger.wf val with ⟨hfail, hline⟩ | ⟨hok, hline⟩
      · rw [if_neg hfail, hline, hedited]
      · rw [if_pos hok, edited_snoc, hline, hedited, editNext]
        by_cases h8 : val.toUInt8 = 8
        · rw [if_pos h8, if_pos h8]
          by_cases hnil : s.kb.line = []
          · rw [hnil, List.append_nil, eraseLast_lines]
            exact (List.append_nil _).symm
          · exact eraseLast_append hnil (hkeeps h8)
        · rw [if_neg h8, if_neg h8, List.append_assoc]
  | wait t len =>
      obtain ⟨-, heq⟩ := Option.ite_none_right_eq_some.mp hstep
      obtain rfl := Option.some.inj heq
      refine ⟨lines, hnot, hreads, hedited.trans ?_⟩
      dsimp only
      rw [keyboardWait]
      dsimp only
      split_ifs
      · rfl
      · rfl
  | take t =>
      rw [sessionNext] at hstep
      split at hstep
      · next len hpc =>
        obtain rfl := Option.some.inj hstep
        -- the reader has a complete line, and takes all of it
        have hmem := hkeeps len hpc (hledger.line_of_admitted hkept hpc)
        obtain ⟨l, rest, hline, hl, hlt⟩ := exists_line hmem
        obtain ⟨hans, hrest⟩ := keyboardTake_complete (t := t) hledger.wf hline hl hlt
        refine ⟨lines ++ [l], fun m hm => ?_, ?_, ?_⟩
        · rcases List.mem_append.mp hm with hm | hm
          · exact hnot m hm
          · rwa [List.mem_singleton.mp hm]
        · dsimp only
          rw [hreads, hans, List.map_append]
          rfl
        · dsimp only
          rw [hedited, hline, hrest, List.flatMap_append, List.flatMap_singleton, List.append_assoc,
            List.append_assoc]
          rfl
      · cases hstep

/-- **The invariant** holds in every run that keeps the lines. -/
theorem sessionInv_of_reach (h : sessionMachine.Reach SessionKeeps s) : SessionInv s := by
  have hall : (KbLedger 0 s.kb ∧ Kept s.kb) ∧ SessionInv s := by
    refine Machine.Reach.inv (I := fun s => (KbLedger 0 s.kb ∧ Kept s.kb) ∧ SessionInv s) ?_ ?_ h
    · rintro _ ⟨buf, e, he, rfl⟩
      exact ⟨⟨kbLedger_of_reachable (.init ⟨buf, e, he, rfl⟩), rfl, rfl⟩, [], nofun, rfl, rfl⟩
    · intro s op s' hinv hkeeps hstep
      obtain ⟨⟨hledger, hkept⟩, hsession⟩ := hinv
      have hkb := kbNext_of_session hstep
      exact ⟨⟨kbNext_ledger hledger hkb, kbNext_kept hledger hkept hkeeps hkb⟩,
        sessionInv_step hledger hkept hsession hkeeps hstep⟩
  exact hall.2

/-- **The reads return the lines of the edited text**, in order and each line once, and the rest of
the text is in the buffer, in every run in which no backspace deletes a newline and every read is
long enough for the first line. -/
theorem reads_lines (h : sessionMachine.Reach SessionKeeps s) :
    ∃ lines, s.reads = lines.map answer ∧
      (edited s.typed).splitOn 10 = lines ++ s.kb.line.splitOn 10 := by
  obtain ⟨lines, hnot, hreads, hedited⟩ := sessionInv_of_reach h
  exact ⟨lines, hreads, by rw [hedited, splitOn_lines _ hnot]⟩

/-- One reader gets a corrected line and the other one an empty line; the third is incomplete. -/
def twoLines : List KbOp :=
  [.wait 0 4, .write 97, .write 98, .write 8, .write 99, .write 10, .wait 1 4, .write 10,
    .write 100, .take 1, .take 0]

/-- Their answers are in the order of the lines. -/
theorem reads_lines_twoLines : ∃ s lines,
    Machine.replay (Machine.guarded SessionKeeps sessionNext) (sessionInit (fun _ => 0) 8)
        twoLines = some s ∧
      s.reads = [(2, [97, 99]), (1, [10])] ∧ s.reads = lines.map answer ∧
      (edited s.typed).splitOn 10 = lines ++ s.kb.line.splitOn 10 := by
  have hrun : (Machine.replay (Machine.guarded SessionKeeps sessionNext)
      (sessionInit (fun _ => 0) 8) twoLines).map Session.reads =
        some [(2, [97, 99]), (1, [10])] := by decide +kernel
  obtain ⟨s, hs, hreads⟩ := Option.map_eq_some_iff.mp hrun
  have hreach : sessionMachine.Reach SessionKeeps s :=
    Machine.reach_of_guarded (fun _ _ _ h => h) twoLines (.init ⟨fun _ => 0, 3, by omega, rfl⟩) hs
  obtain ⟨lines, hlines, hsplit⟩ := reads_lines hreach
  exact ⟨s, lines, hs, hreads, hlines, hsplit⟩

end ShrekOS.LineInput
