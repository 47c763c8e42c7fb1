/-
The echo of the keyboard of `kern/keyboard.c`, beside the line in its buffer.

* `netText`: what a console shows of the characters put on it;
* `typed`, `EchoMatches`: characters typed in a row, and an echo that shows what is buffered;
* `echoStep`: the screen and the line, as two lists, and `keyboardWrite_echo`: `keyboard_write`
  is one step of them;
* `echoMatches_iff`: **exactly when the echo matches the buffer**.
-/
import ShrekOS.Handlers.Keyboard

namespace ShrekOS

open Kit

/-- `putbyte`, on the text that is shown: a backspace removes the last character. -/
def putText (text : List UInt8) (c : UInt8) : List UInt8 :=
  if c = 8 then text.dropLast else text ++ [c]

/-- The text that is left of the characters put on a console. -/
def netText (out : List UInt8) : List UInt8 := out.foldl putText []

/-- Characters are typed in a row, while no reader goes on. -/
def typed (k : Keyboard) (vals : List UInt32) : Keyboard :=
  vals.foldl (fun k val => (keyboardWrite k val).2) k

/-- The net text of the echo is the contents of the buffer. -/
def EchoMatches (k : Keyboard) (vals : List UInt32) : Prop :=
  netText ((typed k vals).console.drop k.console.length) = (typed k vals).line

/-- **The condition**: no character is typed into a full buffer, which keeps one place free;
`n` characters are in it. -/
def NeverFull (len : ℕ) : List UInt8 → ℕ → Prop
  | [], _ => True
  | c :: cs, n => if c = 8 then NeverFull len cs (n - 1) else n + 1 ≠ len ∧ NeverFull len cs (n + 1)

instance decidableNeverFull (len : ℕ) : ∀ (cs : List UInt8) (n : ℕ), Decidable (NeverFull len cs n)
  | [], _ => instDecidableTrue
  | c :: cs, n =>
      have := decidableNeverFull len cs (n - 1)
      have := decidableNeverFull len cs (n + 1)
      inferInstanceAs (Decidable (if c = 8 then NeverFull len cs (n - 1)
        else n + 1 ≠ len ∧ NeverFull len cs (n + 1)))

/-! ### The screen and the line -/

/-- The text on the screen and the line in a buffer of `len` places, after one more character. -/
def echoStep (len : ℕ) (p : List UInt8 × List UInt8) (c : UInt8) : List UInt8 × List UInt8 :=
  if c = 8 then
    if p.2 = [] then p else (p.1.dropLast, p.2.dropLast)
  else (p.1 ++ [c], if p.2.length + 1 = len then p.2 else p.2 ++ [c])

variable {len : ℕ} {p : List UInt8 × List UInt8} {k : Keyboard}

/-- A screen that is ahead of the line stays so. -/
lemma echoStep_ahead (h : p.2.length < p.1.length) (c : UInt8) :
    (echoStep len p c).2.length < (echoStep len p c).1.length := by
  unfold echoStep
  by_cases h8 : c = 8
  · rw [if_pos h8]
    by_cases hnil : p.2 = []
    · rw [if_pos hnil]
      exact h
    · rw [if_neg hnil]
      have hpos := List.length_pos_of_ne_nil hnil
      simp only [List.length_dropLast]
      omega
  · rw [if_neg h8]
    simp only [List.length_append, List.length_singleton]
    split_ifs
    · omega
    · rw [List.length_append, List.length_singleton]
      omega

lemma foldl_echoStep_ahead (cs : List UInt8) (h : p.2.length < p.1.length) :
    (cs.foldl (echoStep len) p).2.length < (cs.foldl (echoStep len) p).1.length := by
  induction cs generalizing p with
  | nil => exact h
  | cons c cs ih => exact ih (echoStep_ahead h c)

/-- **Equal to begin with**, the screen and the line stay so until a character is dropped. -/
lemma foldl_echoStep_iff (cs : List UInt8) (l : List UInt8) :
    (cs.foldl (echoStep len) (l, l)).1 = (cs.foldl (echoStep len) (l, l)).2 ↔
      NeverFull len cs l.length := by
  induction cs generalizing l with
  | nil => exact iff_of_true rfl trivial
  | cons c cs ih =>
      rw [List.foldl_cons, NeverFull]
      by_cases h8 : c = 8
      · rw [if_pos h8, echoStep, if_pos h8]
        by_cases hnil : l = []
        · rw [if_pos hnil, ih, hnil]
          rfl
        · rw [if_neg hnil, ih, List.length_dropLast]
      · rw [if_neg h8, echoStep, if_neg h8]
        by_cases hfull : l.length + 1 = len
        · refine iff_of_false (fun heq => ?_) fun h => h.1 hfull
          -- the dropped character is on the screen only
          rw [if_pos hfull] at heq
          have hahead := @foldl_echoStep_ahead len (l ++ [c], l) cs (by simp)
          rw [heq] at hahead
          exact lt_irrefl _ hahead
        · rw [if_neg hfull, ih, List.length_append, List.length_singleton]
          exact (and_iff_right hfull).symm

/-! ### The keyboard -/

/-- **`keyboard_write`**, while a reader waits: it puts on the console what changes the screen as
the step says. -/
lemma keyboardWrite_echo (hwf : k.buf.Wf) (hcount : k.count < 0) {val : UInt32}
    (h10 : val.toUInt8 ≠ 10) :
    (keyboardWrite k val).2.buf.Wf ∧ (keyboardWrite k val).2.buf.len = k.buf.len ∧
      (keyboardWrite k val).2.count = k.count ∧
      ∃ out, (keyboardWrite k val).2.console = k.console ++ out ∧ ∀ text,
        (out.foldl putText text, (keyboardWrite k val).2.line) =
          echoStep k.buf.len (text, k.line) val.toUInt8 := by
  have hline : k.line = [] ↔ k.buf.n = 0 := CircBuf.contents_eq_nil
  have hlength : k.line.length = k.buf.n := CircBuf.length_contents _
  simp only [keyboardWrite, if_pos hcount, if_neg h10, printToConsole, echoStep, hline, hlength]
  by_cases h8 : val.toUInt8 = 8
  · by_cases hzero : k.buf.n = 0
    · -- nothing to delete
      simp only [h8, hzero, and_self, if_true, writeToBuffer, lt_irrefl, if_false]
      exact ⟨hwf, trivial, trivial, [], (List.append_nil _).symm, fun _ => rfl⟩
    · simp only [h8, hzero, and_false, if_false, if_true, writeToBuffer]
      rcases circBufDeleteFront_spec hwf with ⟨-, hnil⟩ | ⟨buf, hr, hwf', hlen, hcont⟩
      · exact absurd (CircBuf.contents_eq_nil.mp hnil) hzero
      · rw [hr]
        exact ⟨hwf', hlen, rfl, [8], rfl, fun _ => congrArg (Prod.mk _) hcont⟩
  · simp only [h8, false_and, if_false, writeToBuffer]
    have hput : ∀ text, [val.toUInt8].foldl putText text = text ++ [val.toUInt8] :=
      fun _ => if_neg h8
    rcases circBufWrite_spec hwf val.toUInt8 with ⟨hr, hfull⟩ | ⟨buf, hr, hwf', hlen, hcont⟩
    · -- the character is on the console already
      rw [hr, if_pos hfull]
      exact ⟨hwf, rfl, rfl, [val.toUInt8], rfl, fun text => by rw [hput]; rfl⟩
    · have hroom : k.buf.n + 1 ≠ k.buf.len := by
        have hlt := hwf'.room
        rw [← CircBuf.length_contents, hcont, List.length_append, List.length_singleton,
          CircBuf.length_contents, hlen] at hlt
        omega
      rw [hr, if_neg hroom]
      exact ⟨hwf', hlen, rfl, [val.toUInt8], rfl, fun text => by rw [hput, ← hcont]; rfl⟩

/-- **Characters typed in a row.** -/
lemma typed_echo (hwf : k.buf.Wf) (hcount : k.count < 0) {vals : List UInt32}
    (h10 : ∀ val ∈ vals, val.toUInt8 ≠ 10) :
    ∃ out, (typed k vals).console = k.console ++ out ∧ ∀ text,
      (out.foldl putText text, (typed k vals).line) =
        (vals.map UInt32.toUInt8).foldl (echoStep k.buf.len) (text, k.line) := by
  induction vals generalizing k with
  | nil => exact ⟨[], (List.append_nil _).symm, fun _ => rfl⟩
  | cons val vals ih =>
      obtain ⟨hwf', hlen, hcount', out, hout, hstep⟩ :=
        keyboardWrite_echo hwf hcount (h10 val (List.mem_cons_self ..))
      obtain ⟨out', hout', hrun⟩ := ih hwf' (hcount' ▸ hcount)
        fun v hv => h10 v (List.mem_cons_of_mem _ hv)
      refine ⟨out ++ out', ?_, fun text => ?_⟩
      · rw [← List.append_assoc, ← hout]
        exact hout'
      · rw [List.foldl_append, List.map_cons, List.foldl_cons, ← hstep text, ← hlen]
        exact hrun _

/-- The echo matches when the screen and the line are the same in the end. -/
lemma echoMatches_iff_foldl (hwf : k.buf.Wf) (hempty : k.line = []) (hblocked : k.count < 0)
    {vals : List UInt32} (h10 : ∀ val ∈ vals, val.toUInt8 ≠ 10) :
    EchoMatches k vals ↔
      ((vals.map UInt32.toUInt8).foldl (echoStep k.buf.len) ([], [])).1 =
        ((vals.map UInt32.toUInt8).foldl (echoStep k.buf.len) ([], [])).2 := by
  obtain ⟨out, hout, hrun⟩ := typed_echo hwf hblocked h10
  have hpair := hrun []
  rw [hempty] at hpair
  rw [EchoMatches, hout, List.drop_left, ← hpair]
  exact Iff.rfl

/-- **When the echo matches the buffer**: exactly when no character is typed into a full one. -/
theorem echoMatches_iff (hwf : k.buf.Wf) (hempty : k.line = []) (hblocked : k.count < 0)
    {vals : List UInt32} (h10 : ∀ val ∈ vals, val.toUInt8 ≠ 10) :
    EchoMatches k vals ↔ NeverFull k.buf.len (vals.map UInt32.toUInt8) 0 :=
  (echoMatches_iff_foldl hwf hempty hblocked h10).trans (foldl_echoStep_iff _ [])

/-- The keyboard of the kernel, with a reader that waits. -/
def waitingKeyboard : Keyboard := keyboardWait (keyboardInit (fun _ => 0) 1024) 0 80

lemma wf_waiting : waitingKeyboard.buf.Wf := CircBuf.wf_init (fun _ => 0) (k := 10) (by decide)

/-- Three characters, a backspace and another character. -/
theorem echoMatches_waiting : EchoMatches waitingKeyboard [97, 98, 99, 8, 100] :=
  (echoMatches_iff wf_waiting rfl (by decide) (by simp)).mpr (by decide)

/-- **The character number 1024** is echoed but not stored. -/
theorem not_echoMatches_waiting : ¬ EchoMatches waitingKeyboard (List.replicate 1024 97) := by
  have h10 : ∀ val ∈ List.replicate 1024 (97 : UInt32), val.toUInt8 ≠ 10 := by
    intro val hval
    rw [List.eq_of_mem_replicate hval]
    decide
  rw [echoMatches_iff_foldl wf_waiting rfl (by decide) h10, foldl_echoStep_iff,
    List.map_replicate]
  decide +kernel

end ShrekOS
