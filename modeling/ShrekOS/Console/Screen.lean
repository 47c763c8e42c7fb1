/-
The console as a screen with a cursor, which may be hidden.

* `Screen`: the video memory, the position of the cursor and the colour; `Screen.putbyte`,
  `Screen.clear`: what the calls do to it;
* `Console.Shows`: the console shows a screen, with a hidden or a visible cursor;
* `putbyte_shows`, `setCursor_shows`, `clearConsole_shows`: **the driver does to the console
  what the calls do to the screen**, and every use of the cursor breaks an annotation.
-/
import ShrekOS.Console.Driver

namespace ShrekOS.ConsoleDriver

open Kit Kit.Cmd

/-- A screen: two bytes for each character, the place of the next one, and its colour. -/
@[ext] structure Screen where
  mem : ℕ → UInt8
  pos : ℕ
  color : ℤ

section

variable (V : VideoDefs)

/-- The bytes of a blank screen. -/
def blankByte (j : ℕ) : UInt8 := if j % 2 = 0 then defaultChar else V.defaultColor

namespace Screen

/-- A character is drawn. -/
def draw (s : Screen) (i : ℕ) (ch color : UInt8) : Screen :=
  { s with mem := Function.update (Function.update s.mem (2 * i) ch) (2 * i + 1) color }

/-- The rows but the first one move up, and the last one stays as well. -/
def moveUp (s : Screen) : Screen :=
  { s with mem := fun j =>
      if j < 2 * (V.width * (V.height - 1)) then s.mem (j + 2 * V.width) else s.mem j }

/-- The rows move up by one, and the last one is blank. -/
def scroll (s : Screen) : Screen :=
  { s with mem := fun j =>
      if j < 2 * (V.width * (V.height - 1)) then s.mem (j + 2 * V.width)
      else if j < 2 * V.size then blankByte V j else s.mem j }

/-- The cursor moves. -/
def goTo (s : Screen) (pos : ℕ) : Screen := { s with pos := pos }

/-- The screen is cleared. -/
def clear (s : Screen) : Screen :=
  { s with mem := fun j => if j < 2 * V.size then blankByte V j else s.mem j, pos := 0 }

/-- A character is printed: a new line, a carriage return, a backspace, or any other one, which
takes the place of the cursor. -/
def putbyte (s : Screen) (ch : UInt8) : Screen :=
  if ch = 0x0A then
    if s.pos / V.width + 1 = V.height then (s.scroll V).goTo (s.pos / V.width * V.width)
    else s.goTo ((s.pos / V.width + 1) * V.width)
  else if ch = 0x0D then s.goTo (s.pos / V.width * V.width)
  else if ch = 0x08 then
    if s.pos = 0 then s
    else (s.draw (s.pos - 1) defaultChar V.defaultColor).goTo (s.pos - 1)
  else if s.pos + 1 = V.size then
    ((s.draw s.pos ch (toChar s.color)).scroll V).goTo (V.width * (V.height - 1))
  else (s.draw s.pos ch (toChar s.color)).goTo (s.pos + 1)

lemma putbyte_line (s : Screen) : s.putbyte V 0x0A =
    if s.pos / V.width + 1 = V.height then (s.scroll V).goTo (s.pos / V.width * V.width)
    else s.goTo ((s.pos / V.width + 1) * V.width) := rfl

lemma putbyte_back (s : Screen) : s.putbyte V 0x08 =
    if s.pos = 0 then s
    else (s.draw (s.pos - 1) defaultChar V.defaultColor).goTo (s.pos - 1) := rfl

lemma putbyte_other (s : Screen) {ch : UInt8} (hline : ch ≠ 0x0A) (hreturn : ch ≠ 0x0D)
    (hback : ch ≠ 0x08) : s.putbyte V ch =
    if s.pos + 1 = V.size then
      ((s.draw s.pos ch (toChar s.color)).scroll V).goTo (V.width * (V.height - 1))
    else (s.draw s.pos ch (toChar s.color)).goTo (s.pos + 1) := by
  rw [putbyte, if_neg hline, if_neg hreturn, if_neg hback]

end Screen

/-- The position in the registers of the cursor. -/
def Console.register (c : Console) : ℕ := 256 * (c.crtc V.msbIdx).toNat + (c.crtc V.lsbIdx).toNat

/-- The offset of a hidden cursor. -/
def hiddenOffset (hidden : Bool) : ℕ := if hidden then V.size else 0

/-- The console shows the screen. -/
structure Console.Shows (c : Console) (s : Screen) (hidden : Bool) : Prop where
  mem : c.mem = s.mem
  color : c.termColor = s.color
  cursor : c.register V = s.pos + hiddenOffset V hidden
  inside : s.pos < V.size

end

variable {V : VideoDefs} {c : Console} {s : Screen} {hidden : Bool} {E : Fault → Console → Prop}

@[simp] lemma wp_contract {Q : Unit → Console → Prop} (p : Prop) [Decidable p] :
    wp (contract p) Q E c ↔ Q () { c with held := c.held && decide p } := Iff.rfl

/-! ### Positions -/

lemma inBounds_eq_zero_iff {row col : ℤ} :
    inBounds V row col = 0 ↔ 0 ≤ row ∧ row < V.height ∧ 0 ≤ col ∧ col < V.width := by
  unfold inBounds
  split_ifs with h
  · exact ⟨fun hno => absurd hno (by decide), fun hin => absurd h (by omega)⟩
  · exact ⟨fun _ => by omega, fun _ => rfl⟩

/-- A row and a column in bounds are those of a place on the screen. -/
lemma place_lt {row col : ℕ} (hrow : row < V.height) (hcol : col < V.width) :
    row * V.width + col < V.size := by
  have hle : (row + 1) * V.width ≤ V.height * V.width := Nat.mul_le_mul_right _ hrow
  rw [VideoDefs.size, Nat.mul_comm V.width]
  have hexp : (row + 1) * V.width = row * V.width + V.width := Nat.succ_mul ..
  omega

/-- The row of a place on the screen is in bounds. -/
lemma row_lt {pos : ℕ} (hpos : pos < V.size) : pos / V.width < V.height :=
  Nat.div_lt_of_lt_mul hpos

lemma col_lt (pos : ℕ) : pos % V.width < V.width := Nat.mod_lt _ V.width_pos

lemma inBounds_place {row col : ℕ} (hrow : row < V.height) (hcol : col < V.width) :
    inBounds V row col = 0 :=
  inBounds_eq_zero_iff.mpr ⟨by omega, by omega, by omega, by omega⟩

/-- A hidden and a visible position have their status. -/
lemma getHposStatus_eq {pos : ℕ} (hpos : pos < V.size) (hidden : Bool) :
    getHposStatus V ((pos + hiddenOffset V hidden : ℕ) : ℤ) = if hidden then 1 else 0 := by
  unfold getHposStatus hiddenOffset
  cases hidden with
  | true =>
      rw [if_pos]
      · rfl
      · simp only [if_true]
        omega
  | false =>
      rw [if_neg, if_pos]
      · rfl
      · simp only [Bool.false_eq_true, if_false]
        omega
      · simp only [Bool.false_eq_true, if_false]
        omega

/-- The test that should accept a valid position refuses it. -/
lemma isValidHpos_eq {pos : ℕ} (hpos : pos < V.size) (hidden : Bool) :
    isValidHpos V ((pos + hiddenOffset V hidden : ℕ) : ℤ) = 1 := by
  rw [isValidHpos, getHposStatus_eq hpos]
  cases hidden <;> rfl

lemma hardwareToLogical_eq {pos : ℕ} (hpos : pos < V.size) (hidden : Bool) :
    hardwareToLogical V ((pos + hiddenOffset V hidden : ℕ) : ℤ) = pos := by
  rw [hardwareToLogical, getHposStatus_eq hpos]
  cases hidden with
  | true => simp [hiddenOffset]
  | false => simp [hiddenOffset]

lemma logicalToHardware_eq (pos : ℕ) (hidden : Bool) :
    logicalToHardware V pos (if hidden then 1 else 0) =
      ((pos + hiddenOffset V hidden : ℕ) : ℤ) := by
  cases hidden with
  | true => simp [logicalToHardware, hiddenOffset]
  | false => simp [logicalToHardware, hiddenOffset]

lemma toNat_toChar (n : ℕ) : (toChar n).toNat = n % 256 := by
  rw [toChar, UInt8.toNat_ofNat']
  omega

@[simp] lemma toChar_toNat (b : UInt8) : toChar b.toNat = b := by
  apply UInt8.toNat_inj.mp
  rw [toNat_toChar]
  exact Nat.mod_eq_of_lt b.toNat_lt

/-- A console whose cursor register is in the valid range shows a screen. -/
lemma exists_shows (hvalid : c.register V < V.size + V.size) :
    ∃ s, c.Shows V s (decide (V.size ≤ c.register V)) ∧
      (¬ V.size ≤ c.register V → s.pos = c.register V) := by
  by_cases hhid : V.size ≤ c.register V
  · refine ⟨⟨c.mem, c.register V - V.size, c.termColor⟩, ⟨rfl, rfl, ?_, ?_⟩, fun h => absurd hhid h⟩
    · simp only [hiddenOffset, hhid, decide_true, if_true]
      omega
    · dsimp only
      omega
  · refine ⟨⟨c.mem, c.register V, c.termColor⟩, ⟨rfl, rfl, ?_, ?_⟩, fun _ => rfl⟩
    · simp only [hiddenOffset, hhid, decide_false, Bool.false_eq_true, if_false]
      rfl
    · dsimp only
      omega

/-! ### The cursor -/

/-- **Reading the cursor** gives its position, with the offset of a hidden one, and breaks the
annotation on it. -/
lemma getHardwareCursor_shows (h : c.Shows V s hidden) :
    wp (getHardwareCursor V) (fun r c' => r = ((s.pos + hiddenOffset V hidden : ℕ) : ℤ) ∧
      c'.Shows V s hidden ∧ c'.held = false) E c := by
  have hlsb := (c.crtc V.lsbIdx).toNat_lt
  have hread : (c.crtc V.msbIdx).toNat <<< 8 ||| (c.crtc V.lsbIdx).toNat = c.register V := by
    rw [← Nat.shiftLeft_add_eq_or_of_lt hlsb, Nat.shiftLeft_eq, Console.register]
    omega
  simp only [getHardwareCursor, outbIdx, inbData, wp_bind, wp_modify, wp_gets, wp_contract, wp_pure]
  rw [hread, h.cursor, isValidHpos_eq h.inside]
  exact ⟨rfl, ⟨h.mem, h.color, h.cursor, h.inside⟩, by simp⟩

/-- **Writing the cursor** moves it. -/
lemma setHardwareCursor_shows (h : c.Shows V s hidden) {pos : ℕ} (hpos : pos < V.size)
    (hidden' : Bool) :
    wp (setHardwareCursor V ((pos + hiddenOffset V hidden' : ℕ) : ℤ)) (fun _ c' =>
      c'.Shows V (s.goTo pos) hidden' ∧ c'.held = false) E c := by
  have hfits := V.fits
  have hsmall : pos + hiddenOffset V hidden' < 2 ^ 16 := by
    rw [hiddenOffset]
    rw [VideoDefs.size] at *
    split_ifs <;> omega
  have hdiv : ((pos + hiddenOffset V hidden' : ℕ) : ℤ) / 2 ^ 8 =
      ((pos + hiddenOffset V hidden') / 2 ^ 8 : ℕ) := by
    push_cast
    rfl
  simp only [setHardwareCursor, outbIdx, outbData, wp_bind, wp_modify, wp_contract]
  rw [isValidHpos_eq hpos]
  refine ⟨⟨h.mem, h.color, ?_, hpos⟩, by simp⟩
  rw [Console.register]
  simp only [Function.update_self, Function.update_of_ne V.idx_ne]
  rw [hdiv, toNat_toChar, toNat_toChar]
  change _ = pos + hiddenOffset V hidden'
  omega

/-- `set_cursor` outside of the screen does nothing. -/
lemma setCursor_outside {row col : ℤ} (hout : inBounds V row col ≠ 0) :
    wp (setCursor V row col) (fun r c' => r = -1 ∧ c' = c) E c := by
  rw [setCursor, if_pos hout]
  exact ⟨rfl, rfl⟩

/-- **`set_cursor` moves the cursor**, and keeps it hidden or visible. -/
theorem setCursor_shows (h : c.Shows V s hidden) {row col : ℕ} (hrow : row < V.height)
    (hcol : col < V.width) :
    wp (setCursor V row col) (fun r c' => r = 0 ∧
      c'.Shows V (s.goTo (row * V.width + col)) hidden ∧ c'.held = false) E c := by
  have hlt := place_lt hrow hcol
  have hplace : (row : ℤ) * V.width + col = (row * V.width + col : ℕ) := by push_cast; rfl
  have hne : ((row * V.width + col + hiddenOffset V hidden : ℕ) : ℤ) ≠ -1 := by omega
  rw [setCursor, if_neg (not_not.mpr (inBounds_place hrow hcol))]
  simp only [rowColToLpos, wp_bind, wp_contract, wp_pure, hplace]
  refine wp_imp (getHardwareCursor_shows ⟨h.mem, h.color, h.cursor, h.inside⟩) ?_
  rintro r c₁ ⟨rfl, hc₁, -⟩
  rw [getHposStatus_eq h.inside, logicalToHardware_eq, if_neg hne, wp_bind]
  refine wp_imp (setHardwareCursor_shows hc₁ hlt hidden) ?_
  rintro _ c₂ ⟨hc₂, hheld⟩
  exact ⟨rfl, hc₂, hheld⟩

/-- The first column of a row. -/
lemma setCursor_first (h : c.Shows V s hidden) {row : ℕ} (hrow : row < V.height) :
    wp (setCursor V row 0) (fun r c' => r = 0 ∧
      c'.Shows V (s.goTo (row * V.width)) hidden ∧ c'.held = false) E c :=
  setCursor_shows h hrow V.width_pos

/-- **`get_cursor` reports the row and the column of the position.** -/
theorem getCursor_shows (h : c.Shows V s hidden) :
    wp (getCursor V) (fun r c' =>
      r = some (((s.pos / V.width : ℕ) : ℤ), ((s.pos % V.width : ℕ) : ℤ)) ∧
      c'.Shows V s hidden ∧ c'.held = false) E c := by
  have hne : (s.pos : ℤ) ≠ -1 := by omega
  rw [getCursor, wp_bind]
  refine wp_imp (getHardwareCursor_shows h) ?_
  rintro r c₁ ⟨rfl, hc₁, hheld⟩
  rw [hardwareToLogical_eq h.inside, if_neg hne]
  simp only [lposToRowCol, wp_bind, wp_contract, wp_pure]
  refine ⟨?_, ⟨hc₁.mem, hc₁.color, hc₁.cursor, hc₁.inside⟩, by simp [hheld]⟩
  rfl

/-- **`hide_cursor` hides the cursor** where it is. -/
theorem hideCursor_shows (h : c.Shows V s hidden) :
    wp (hideCursor V) (fun _ c' => c'.Shows V s true ∧ c'.held = false) E c := by
  rw [hideCursor, wp_bind]
  refine wp_imp (getHardwareCursor_shows h) ?_
  rintro r c₁ ⟨rfl, hc₁, hheld⟩
  rw [getHposStatus_eq h.inside]
  cases hidden with
  | true => exact ⟨hc₁, hheld⟩
  | false =>
      have hforth : ((s.pos + hiddenOffset V false : ℕ) : ℤ) + V.size =
          ((s.pos + hiddenOffset V true : ℕ) : ℤ) := by
        simp [hiddenOffset]
      rw [if_neg Bool.false_ne_true, if_pos rfl, hforth]
      exact setHardwareCursor_shows hc₁ h.inside true

/-- **`show_cursor` shows it.** -/
theorem showCursor_shows (h : c.Shows V s hidden) :
    wp (showCursor V) (fun _ c' => c'.Shows V s false ∧ c'.held = false) E c := by
  rw [showCursor, wp_bind]
  refine wp_imp (getHardwareCursor_shows h) ?_
  rintro r c₁ ⟨rfl, hc₁, hheld⟩
  rw [getHposStatus_eq h.inside]
  cases hidden with
  | false => exact ⟨hc₁, hheld⟩
  | true =>
      have hback : ((s.pos + hiddenOffset V true : ℕ) : ℤ) - V.size =
          ((s.pos + hiddenOffset V false : ℕ) : ℤ) := by
        simp [hiddenOffset]
      rw [if_pos rfl, hback]
      exact setHardwareCursor_shows hc₁ h.inside false

/-! ### The video memory -/

lemma wp_poke {Q : Unit → Console → Prop} {off : ℕ} (hoff : off < 2 * V.size) (b : UInt8)
    (hq : Q () { c with mem := Function.update c.mem off b }) : wp (poke V off b) Q E c := by
  rw [poke, wp_bind, wp_require]
  exact ⟨fun _ => hq, fun hno => absurd ⟨by omega, by omega⟩ hno⟩

/-- Two bytes are written at a place of the screen. -/
lemma wp_pokes {Q : Unit → Console → Prop} {row col : ℕ} (hrow : row < V.height)
    (hcol : col < V.width) (ch color : UInt8)
    (hq : Q () { c with mem := Function.update (Function.update c.mem
      (2 * (row * V.width + col)) ch) (2 * (row * V.width + col) + 1) color }) :
    wp (do
      let charBase ← getConsoleChar V row col
      let colorBase ← getConsoleColor V row col
      poke V charBase ch
      poke V colorBase color) Q E c := by
  have hlt := place_lt hrow hcol
  have hchar : (2 * (row * V.width + col) : ℤ) = (2 * (row * V.width + col) : ℕ) := by
    push_cast
    rfl
  have hcolor : ((2 * (row * V.width + col) : ℕ) : ℤ) + 1 =
      (2 * (row * V.width + col) + 1 : ℕ) := by
    push_cast
    rfl
  simp only [getConsoleChar, getConsoleColor, wp_bind, wp_contract, wp_pure, hchar, hcolor,
    inBounds_place hrow hcol, decide_true, Bool.and_true]
  exact wp_poke (by omega) ch (wp_poke (by omega) color hq)

/-- **`draw_char` draws a character on the screen.** -/
lemma drawChar_shows (h : c.Shows V s hidden) {row col : ℕ} (hrow : row < V.height)
    (hcol : col < V.width) (ch color : ℤ) :
    wp (drawChar V row col ch color) (fun _ c' =>
      c'.Shows V (s.draw (row * V.width + col) (toChar ch) (toChar color)) hidden ∧
      c'.held = c.held) E c := by
  rw [drawChar, if_pos (inBounds_place hrow hcol)]
  refine wp_pokes hrow hcol _ _ ⟨⟨?_, h.color, h.cursor, h.inside⟩, rfl⟩
  rw [h.mem]
  rfl

/-- `draw_char` outside of the screen does nothing. -/
lemma drawChar_outside {row col : ℤ} (hout : inBounds V row col ≠ 0) (ch color : ℤ) :
    wp (drawChar V row col ch color) (fun _ c' => c' = c) E c := by
  rw [drawChar, if_neg hout]
  rfl

/-- A cell becomes the default one. -/
lemma blankCell_shows (h : c.Shows V s hidden) {row col : ℕ} (hrow : row < V.height)
    (hcol : col < V.width) :
    wp (blankCell V row col) (fun _ c' =>
      c'.Shows V (s.draw (row * V.width + col) defaultChar V.defaultColor) hidden ∧
      c'.held = c.held) E c := by
  have hlt := place_lt hrow hcol
  have hchar : (2 * (row * V.width + col) : ℤ) = (2 * (row * V.width + col) : ℕ) := by
    push_cast
    rfl
  have hcolor : ((2 * (row * V.width + col) : ℕ) : ℤ) + 1 =
      (2 * (row * V.width + col) + 1 : ℕ) := by
    push_cast
    rfl
  simp only [blankCell, getConsoleChar, getConsoleColor, wp_bind, wp_contract, wp_pure, hchar,
    hcolor, inBounds_place hrow hcol, decide_true, Bool.and_true]
  refine wp_poke (by omega) _ (wp_poke (by omega) _ ⟨⟨?_, h.color, h.cursor, h.inside⟩, rfl⟩)
  change Function.update (Function.update c.mem _ _) _ _ = _
  rw [h.mem]
  rfl

/-- The characters from a place up to another one are blank. -/
def Screen.blank (V : VideoDefs) (s : Screen) (a b : ℕ) : Screen :=
  { s with mem := fun j => if 2 * a ≤ j ∧ j < 2 * b then blankByte V j else s.mem j }

lemma Screen.blank_self (s : Screen) (a : ℕ) : s.blank V a a = s :=
  Screen.ext (funext fun _ => if_neg (by omega)) rfl rfl

/-- One more character is blank. -/
lemma Screen.draw_blank (s : Screen) {a b : ℕ} (hab : a ≤ b) :
    (s.blank V a b).draw b defaultChar V.defaultColor = s.blank V a (b + 1) := by
  refine Screen.ext (funext fun j => ?_) rfl rfl
  simp only [Screen.draw, Screen.blank]
  by_cases hcolor : j = 2 * b + 1
  · rw [hcolor, Function.update_self, if_pos (by omega), blankByte, if_neg (by omega)]
  · rw [Function.update_of_ne hcolor]
    by_cases hchar : j = 2 * b
    · rw [hchar, Function.update_self, if_pos (by omega), blankByte, if_pos (by omega)]
    · rw [Function.update_of_ne hchar]
      by_cases hj : 2 * a ≤ j ∧ j < 2 * b
      · rw [if_pos hj, if_pos (by omega)]
      · rw [if_neg hj, if_neg (by omega)]

/-- A row becomes blank, up to a column. -/
lemma blankRow_shows {a row : ℕ} (h : c.Shows V (s.blank V a (row * V.width)) hidden)
    (ha : a ≤ row * V.width) (hrow : row < V.height) :
    wp (upTo V.width fun i => blankCell V row i) (fun _ c' =>
      c'.Shows V (s.blank V a ((row + 1) * V.width)) hidden ∧ c'.held = c.held) E c := by
  rw [Nat.succ_mul]
  refine wp_upTo _ (fun i (c' : Console) => c'.Shows V (s.blank V a (row * V.width + i)) hidden ∧
    c'.held = c.held) V.width ⟨h, rfl⟩ ?_
  rintro i c₁ hi ⟨hc₁, hheld⟩
  refine wp_imp (blankCell_shows hc₁ hrow hi) ?_
  rintro _ c₂ ⟨hc₂, hheld'⟩
  rw [Screen.draw_blank s (by omega)] at hc₂
  exact ⟨hc₂, hheld'.trans hheld⟩

/-- **`scroll_console` moves the rows up.** -/
theorem scrollConsole_shows (h : c.Shows V s hidden) :
    wp (scrollConsole V) (fun _ c' => c'.Shows V (s.scroll V) hidden ∧
      (c.held = false → c'.held = false)) E c := by
  have hw := V.width_pos
  have hh := V.height_pos
  have hlast : ((V.height : ℤ) - 1) = (V.height - 1 : ℕ) := by omega
  have hsize : V.width * (V.height - 1) + V.width = V.size := by
    rw [VideoDefs.size, ← Nat.mul_succ]
    congr 1
    omega
  have hbytes : (V.width : ℤ) * (V.height - 1) * 2 = (2 * (V.width * (V.height - 1)) : ℕ) := by
    rw [hlast]
    push_cast
    ring
  have hsrc : (2 * ((1 : ℤ) * V.width + 0)) = (2 * V.width : ℕ) := by
    push_cast
    ring
  have hdest : (2 * ((0 : ℤ) * V.width + 0)) = 0 := by ring
  simp only [scrollConsole, getConsoleChar, memmove, wp_bind, wp_contract, wp_pure, wp_require,
    wp_modify, hbytes, hsrc, hdest]
  refine ⟨fun _ => ?_, fun hno => absurd ⟨by omega, by omega, by omega, by omega⟩ hno⟩
  rw [hlast]
  -- the screen with its rows moved up, the last one still there
  have hmoved : Console.Shows V
      { c with
        held := c.held && decide (inBounds V 1 0 = 0) && decide (inBounds V 0 0 = 0)
        mem := fun j => if (0 : ℤ) ≤ j ∧ (j : ℤ) < 0 + (2 * (V.width * (V.height - 1)) : ℕ) then
          c.mem ((j : ℤ) - 0 + (2 * V.width : ℕ)).toNat else c.mem j }
      ((s.moveUp V).blank V ((V.height - 1) * V.width) ((V.height - 1) * V.width)) hidden := by
    rw [Screen.blank_self]
    refine ⟨funext fun j => ?_, h.color, h.cursor, h.inside⟩
    rw [Screen.moveUp, ← h.mem]
    dsimp only
    by_cases hj : j < 2 * (V.width * (V.height - 1))
    · rw [if_pos hj, if_pos ⟨by omega, by omega⟩]
      congr 1
    · rw [if_neg hj, if_neg (by omega)]
  refine wp_imp (blankRow_shows hmoved le_rfl (by omega)) ?_
  rintro _ c' ⟨hc', hheld⟩
  have hscroll : (s.moveUp V).blank V ((V.height - 1) * V.width)
      ((V.height - 1 + 1) * V.width) = s.scroll V := by
    refine Screen.ext (funext fun j => ?_) rfl rfl
    have htop : (V.height - 1 + 1) * V.width = V.size := by
      rw [Nat.sub_add_cancel hh, VideoDefs.size, Nat.mul_comm]
    simp only [Screen.blank, Screen.moveUp, Screen.scroll, htop, Nat.mul_comm (V.height - 1)]
    by_cases hj : j < 2 * (V.width * (V.height - 1))
    · rw [if_neg (by omega), if_pos hj, if_pos hj]
    · by_cases hj' : j < 2 * V.size
      · rw [if_pos ⟨by omega, hj'⟩, if_neg hj, if_pos hj']
      · rw [if_neg (by omega), if_neg hj, if_neg hj, if_neg hj']
  refine ⟨hscroll ▸ hc', fun hbroken => ?_⟩
  rw [hheld]
  simp [hbroken]

/-- **`clear_console` clears the screen.** -/
theorem clearConsole_shows (h : c.Shows V s hidden) :
    wp (clearConsole V) (fun _ c' => c'.Shows V (s.clear V) hidden ∧ c'.held = false) E c := by
  rw [clearConsole, wp_bind]
  have hstart : c.Shows V (s.blank V 0 (0 * V.width)) hidden := by
    rw [Nat.zero_mul, Screen.blank_self]
    exact h
  refine wp_imp (wp_upTo _ (fun row (c' : Console) =>
    c'.Shows V (s.blank V 0 (row * V.width)) hidden) V.height hstart fun row c₁ hrow hc₁ => ?_) ?_
  · refine wp_imp (blankRow_shows hc₁ (Nat.zero_le _) hrow) ?_
    exact fun _ _ hc₂ => hc₂.1
  · intro _ c₁ hc₁
    have hclear : (s.blank V 0 (V.height * V.width)).goTo (0 * V.width) = s.clear V := by
      refine Screen.ext (funext fun j => ?_) ?_ rfl
      · have hall : V.height * V.width = V.size := Nat.mul_comm ..
        simp only [Screen.goTo, Screen.blank, Screen.clear, hall, Nat.mul_zero, Nat.zero_le,
          true_and]
      · exact Nat.zero_mul _
    rw [wp_bind]
    refine wp_imp (setCursor_first hc₁ V.height_pos) ?_
    rintro _ c₂ ⟨-, hc₂, hheld⟩
    exact ⟨hclear ▸ hc₂, hheld⟩

/-! ### Printing -/

/-- The row and the column of a place. -/
lemma place_eq (pos : ℕ) : pos / V.width * V.width + pos % V.width = pos := by
  rw [Nat.mul_comm]
  exact Nat.div_add_mod pos V.width

/-- The last place is that of the last row and the last column. -/
lemma succ_eq_size_iff {pos : ℕ} (hpos : pos < V.size) :
    pos + 1 = V.size ↔ pos % V.width + 1 = V.width ∧ pos / V.width + 1 = V.height := by
  have hplace := @place_eq V pos
  have hrow := row_lt hpos
  have hcol := @col_lt V pos
  have hsize : V.size = (V.height - 1) * V.width + V.width := by
    rw [← Nat.succ_mul, Nat.succ_eq_add_one, Nat.sub_add_cancel V.height_pos, VideoDefs.size,
      Nat.mul_comm]
  constructor
  · intro heq
    -- a row above the last one ends before the last place
    have hdiv : pos / V.width = V.height - 1 := by
      by_contra hne
      have hmul := Nat.mul_le_mul_right V.width (show pos / V.width + 1 ≤ V.height - 1 by omega)
      rw [Nat.succ_mul] at hmul
      omega
    rw [hdiv] at hplace
    exact ⟨by omega, by omega⟩
  · rintro ⟨hc, hr⟩
    rw [Nat.eq_sub_of_add_eq hr] at hplace
    omega

/-- What a call does to the screen, once the cursor has been read. -/
def Prints (V : VideoDefs) (s : Screen) (hidden : Bool) (c' : Console) : Prop :=
  c'.Shows V s hidden ∧ c'.held = false

lemma putNewLine_shows (h : c.Shows V s hidden) :
    wp (putNewLine V (s.pos / V.width : ℕ)) (fun _ => Prints V (s.putbyte V 0x0A) hidden) E c := by
  have hrow := row_lt h.inside
  rw [putNewLine, Screen.putbyte_line]
  by_cases hlast : s.pos / V.width + 1 = V.height
  · rw [if_pos (by omega), if_pos hlast, wp_bind]
    refine wp_imp (scrollConsole_shows h) ?_
    rintro _ c₁ ⟨hc₁, -⟩
    rw [wp_bind]
    refine wp_imp (setCursor_first hc₁ hrow) ?_
    rintro _ c₂ ⟨-, hc₂⟩
    exact hc₂
  · rw [if_neg (by omega), if_neg hlast, wp_bind]
    have hrow' : s.pos / V.width + 1 < V.height := by omega
    refine wp_imp (setCursor_first h hrow') ?_
    rintro _ c₁ ⟨-, hc₁⟩
    exact hc₁

lemma putBackspace_shows (h : c.Shows V s hidden) (hheld : c.held = false) :
    wp (putBackspace V (s.pos / V.width : ℕ) (s.pos % V.width : ℕ))
      (fun _ => Prints V (s.putbyte V 0x08) hidden) E c := by
  have hrow := row_lt h.inside
  have hcol := @col_lt V s.pos
  have hplace := @place_eq V s.pos
  rw [putBackspace, Screen.putbyte_back]
  by_cases hfirst : s.pos % V.width = 0
  · rw [if_pos (by omega)]
    by_cases htop : s.pos / V.width = 0
    · have hzero : s.pos = 0 := by rw [← hplace, hfirst, htop, Nat.zero_mul]
      rw [if_neg (by omega), if_pos hzero]
      exact ⟨h, hheld⟩
    · -- the last column of the row above
      have hmul : (s.pos / V.width - 1) * V.width + V.width = s.pos / V.width * V.width := by
        rw [← Nat.succ_mul, Nat.succ_eq_add_one,
          Nat.sub_add_cancel (Nat.pos_of_ne_zero htop)]
      have hw := V.width_pos
      have hback : (s.pos / V.width - 1) * V.width + (V.width - 1) = s.pos - 1 := by omega
      have habove : ((s.pos / V.width : ℕ) : ℤ) - 1 = (s.pos / V.width - 1 : ℕ) :=
        (Nat.cast_pred (Nat.pos_of_ne_zero htop)).symm
      have hend : (V.width : ℤ) - 1 = (V.width - 1 : ℕ) := by omega
      rw [if_pos (by omega), if_neg (by omega), habove, hend, wp_bind]
      have hrow' := lt_of_le_of_lt (Nat.sub_le (s.pos / V.width) 1) hrow
      refine wp_imp (drawChar_shows h hrow' (by omega) _ _) ?_
      rintro _ c₁ ⟨hc₁, -⟩
      rw [wp_bind]
      refine wp_imp (setCursor_shows hc₁ hrow' (by omega)) ?_
      rintro _ c₂ ⟨-, hc₂⟩
      rwa [hback, toChar_toNat, toChar_toNat] at hc₂
  · have hback : s.pos / V.width * V.width + (s.pos % V.width - 1) = s.pos - 1 := by omega
    have hleft : ((s.pos % V.width : ℕ) : ℤ) - 1 = (s.pos % V.width - 1 : ℕ) :=
      (Nat.cast_pred (Nat.pos_of_ne_zero hfirst)).symm
    rw [if_neg (by omega), if_neg (by omega), hleft, wp_bind]
    refine wp_imp (drawChar_shows h hrow (by omega) _ _) ?_
    rintro _ c₁ ⟨hc₁, -⟩
    rw [wp_bind]
    refine wp_imp (setCursor_shows hc₁ hrow (by omega)) ?_
    rintro _ c₂ ⟨-, hc₂⟩
    rwa [hback, toChar_toNat, toChar_toNat] at hc₂

lemma putOther_shows (h : c.Shows V s hidden) {ch : UInt8} (hline : ch ≠ 0x0A)
    (hreturn : ch ≠ 0x0D) (hback : ch ≠ 0x08) :
    wp (putOther V (s.pos / V.width : ℕ) (s.pos % V.width : ℕ) ch c.termColor)
      (fun _ => Prints V (s.putbyte V ch) hidden) E c := by
  have hrow := row_lt h.inside
  have hcol := @col_lt V s.pos
  have hplace := @place_eq V s.pos
  have hlast := succ_eq_size_iff h.inside
  rw [putOther, wp_bind, Screen.putbyte_other V s hline hreturn hback]
  refine wp_imp (drawChar_shows h hrow hcol _ _) ?_
  rintro _ c₁ ⟨hc₁, -⟩
  rw [hplace, toChar_toNat, toChar_toNat, h.color] at hc₁
  by_cases hend : s.pos % V.width + 1 = V.width
  · rw [if_pos (by omega)]
    by_cases hbottom : s.pos / V.width + 1 = V.height
    · -- the cursor goes to the last row before the rows move up
      have hpos : s.pos / V.width * V.width = V.width * (V.height - 1) := by
        rw [Nat.mul_comm, Nat.eq_sub_of_add_eq hbottom]
      rw [if_pos (by omega), if_pos (hlast.mpr ⟨hend, hbottom⟩), wp_bind]
      refine wp_imp (setCursor_first hc₁ hrow) ?_
      rintro _ c₂ ⟨-, hc₂, hheld₂⟩
      refine wp_imp (scrollConsole_shows hc₂) ?_
      rintro _ c₃ ⟨hc₃, hheld₃⟩
      rw [hpos] at hc₃
      exact ⟨hc₃, hheld₃ hheld₂⟩
    · have hrow' : s.pos / V.width + 1 < V.height := by omega
      have hpos : (s.pos / V.width + 1) * V.width = s.pos + 1 := by
        rw [Nat.succ_mul]
        omega
      rw [if_neg (by omega), if_neg fun hno => hbottom (hlast.mp hno).2, wp_bind]
      refine wp_imp (setCursor_first hc₁ hrow') ?_
      rintro _ c₂ ⟨-, hc₂⟩
      rwa [hpos] at hc₂
  · have hpos : s.pos / V.width * V.width + (s.pos % V.width + 1) = s.pos + 1 := by omega
    rw [if_neg (by omega), if_neg fun hno => hend (hlast.mp hno).1, wp_bind]
    have hcol' : s.pos % V.width + 1 < V.width := by omega
    refine wp_imp (setCursor_shows hc₁ hrow hcol') ?_
    rintro _ c₂ ⟨-, hc₂⟩
    rwa [hpos] at hc₂

/-- **`putbyte` prints a character**, and returns it. -/
theorem putbyte_shows (h : c.Shows V s hidden) (ch : UInt8) :
    wp (putbyte V ch) (fun r c' => r = ch.toNat ∧ Prints V (s.putbyte V ch) hidden c') E c := by
  rw [putbyte, wp_bind]
  refine wp_imp (getCursor_shows h) ?_
  rintro r c₁ ⟨rfl, hc₁, hheld⟩
  simp only [getTermColor, wp_bind, wp_gets]
  -- each case prints, and then the character is returned
  have hreturns : ∀ {m : ConM Unit},
      wp m (fun _ => Prints V (s.putbyte V ch) hidden) E c₁ →
      wp m (fun _ c' => wp (pure (ch.toNat : ℤ) : ConM ℤ) (fun r c' =>
        r = ch.toNat ∧ Prints V (s.putbyte V ch) hidden c') E c') E c₁ :=
    fun hm => wp_imp hm fun _ _ hc' => ⟨rfl, hc'⟩
  by_cases hline : ch = 0x0A
  · subst hline
    rw [if_pos rfl, wp_bind]
    exact hreturns (putNewLine_shows hc₁)
  · rw [if_neg hline]
    by_cases hreturn : ch = 0x0D
    · subst hreturn
      rw [if_pos rfl, wp_bind]
      refine wp_imp (setCursor_first hc₁ (row_lt h.inside)) ?_
      rintro _ c₂ ⟨-, hc₂⟩
      exact ⟨rfl, hc₂⟩
    · rw [if_neg hreturn]
      by_cases hback : ch = 0x08
      · subst hback
        rw [if_pos rfl, wp_bind]
        exact hreturns (putBackspace_shows hc₁ hheld)
      · rw [if_neg hback, wp_bind]
        exact hreturns (putOther_shows hc₁ hline hreturn hback)

/-- **`putbytes` prints the characters one after the other.** -/
theorem putbytes_shows (bytes : List UInt8) (h : c.Shows V s hidden) :
    wp (putbytes V bytes) (fun _ c' =>
      c'.Shows V (bytes.foldl (Screen.putbyte V) s) hidden ∧
      c'.held = (c.held && bytes.isEmpty)) E c := by
  induction bytes generalizing s c with
  | nil => exact ⟨h, by simp⟩
  | cons ch bytes ih =>
      rw [putbytes, wp_bind]
      refine wp_imp (putbyte_shows h ch) ?_
      rintro _ c₁ ⟨-, hc₁, hheld⟩
      refine wp_imp (ih hc₁) ?_
      rintro _ c₂ ⟨hc₂, hheld'⟩
      exact ⟨hc₂, by simp [hheld', hheld]⟩

end ShrekOS.ConsoleDriver
