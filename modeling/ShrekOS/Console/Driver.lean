/-
The console driver of `kern/console.c`.

* `VideoDefs`: the constants of the header for the display, which is not part of the
  repository;
* `Console`: the video memory, the registers of the display controller, the terminal colour, and
  whether every annotation evaluated so far was true;
* `getHardwareCursor`, `setHardwareCursor`, `hardwareToLogical`, `logicalToHardware`: the
  cursor, kept in two byte registers, hidden ones with an offset;
* `putbyte`, `putbytes`, `drawChar`, `setCursor`, `getCursor`, `hideCursor`, `showCursor`,
  `clearConsole`: the functions as in the source.

The annotations `REQUIRES`, `ENSURES` and `ASSERT` are recorded, and do not stop a call; the ones
that a pointer is not `NULL` hold, as these are the addresses of variables. A `char` is its byte.
-/
import ShrekOS.Lib.Cmd
import ShrekOS.Data.Heap

namespace ShrekOS.ConsoleDriver

open Kit Kit.Cmd

/-- The constants for the display: its size in characters, the default colour
`FGND_LGRAY | BGND_BLACK`, and the registers of the cursor position. A hidden position fits into
two bytes. -/
structure VideoDefs where
  width : ℕ
  height : ℕ
  defaultColor : UInt8
  lsbIdx : UInt8
  msbIdx : UInt8
  width_pos : 0 < width
  height_pos : 0 < height
  fits : 2 * (width * height) ≤ 2 ^ 16
  idx_ne : lsbIdx ≠ msbIdx

/-- `C_CONSOLE_SIZE`, and `C_HIDDEN_OFFSET` as well. -/
def VideoDefs.size (V : VideoDefs) : ℕ := V.width * V.height

/-- The state of the console. -/
structure Console where
  mem : ℕ → UInt8
  crtcIdx : UInt8
  crtc : UInt8 → UInt8
  termColor : ℤ
  held : Bool

/-- The text mode of 80 columns and 25 rows. -/
def textMode : VideoDefs where
  width := 80
  height := 25
  defaultColor := 0x07
  lsbIdx := 15
  msbIdx := 14
  width_pos := by decide
  height_pos := by decide
  fits := by decide
  idx_ne := by decide

/-- A console with the cursor at the first place. -/
def freshConsole : Console where
  mem _ := 0
  crtcIdx := 0
  crtc _ := 0
  termColor := 7
  held := true

/-- Commands on the console. -/
abbrev ConM (α : Type) : Type := Cmd Fault Console α

/-- `(char)n`. -/
def toChar (n : ℤ) : UInt8 := UInt8.ofNat (n % 256).toNat

/-- `C_DEFAULT_TERMINAL_CHAR`. -/
def defaultChar : UInt8 := 0x20

/-- An annotation is evaluated. -/
def contract (p : Prop) [Decidable p] : ConM Unit :=
  modify fun c => { c with held := c.held && decide p }

/-- `outb(CRTC_IDX_REG, idx)`. -/
def outbIdx (idx : UInt8) : ConM Unit := modify fun c => { c with crtcIdx := idx }

/-- `inb(CRTC_DATA_REG)`. -/
def inbData : ConM UInt8 := gets fun c => c.crtc c.crtcIdx

/-- `outb(CRTC_DATA_REG, b)`. -/
def outbData (b : UInt8) : ConM Unit :=
  modify fun c => { c with crtc := Function.update c.crtc c.crtcIdx b }

section

variable (V : VideoDefs)

/-! ### Positions -/

/-- `in_bounds`. -/
def inBounds (row col : ℤ) : ℤ :=
  if row < 0 ∨ V.height ≤ row ∨ col < 0 ∨ V.width ≤ col then -1 else 0

/-- `get_hpos_status`: 1 for a hidden cursor, 0 for a visible one. -/
def getHposStatus (hpos : ℤ) : ℤ :=
  if V.size ≤ hpos ∧ hpos < V.size + V.size then 1
  else if 0 ≤ hpos ∧ hpos < V.size then 0
  else -1

/-- `is_valid_lpos`. -/
def isValidLpos (lpos : ℤ) : ℤ := if 0 ≤ lpos ∧ lpos < V.size then 0 else 1

/-- `is_valid_hpos`. -/
def isValidHpos (hpos : ℤ) : ℤ := if getHposStatus V hpos ≠ -1 then 1 else 0

/-- `get_hardware_cursor`. -/
def getHardwareCursor : ConM ℤ := do
  outbIdx V.lsbIdx
  let lsb ← inbData
  outbIdx V.msbIdx
  let msb ← inbData
  let hpos : ℤ := (msb.toNat <<< 8 ||| lsb.toNat : ℕ)
  contract (isValidHpos V hpos = 0)
  return hpos

/-- `set_hardware_cursor`: the shift rounds down. -/
def setHardwareCursor (hpos : ℤ) : ConM Unit := do
  contract (isValidHpos V hpos = 0)
  outbIdx V.lsbIdx
  outbData (toChar hpos)
  outbIdx V.msbIdx
  outbData (toChar (hpos / 2 ^ 8))

/-- `lpos_to_row_col`. -/
def lposToRowCol (lpos : ℤ) : ConM (ℤ × ℤ) := do
  contract (isValidLpos V lpos = 0)
  let row := lpos.tdiv V.width
  let col := lpos.tmod V.width
  contract (inBounds V row col = 0)
  return (row, col)

/-- `row_col_to_lpos`. -/
def rowColToLpos (row col : ℤ) : ConM ℤ := do
  contract (inBounds V row col = 0)
  let lpos := row * V.width + col
  contract (isValidLpos V lpos = 0)
  return lpos

/-- `hardware_to_logical`. -/
def hardwareToLogical (hpos : ℤ) : ℤ :=
  match getHposStatus V hpos with
  | 0 => hpos
  | 1 => hpos - V.size
  | _ => -1

/-- `logical_to_hardware`. -/
def logicalToHardware (lpos hidden : ℤ) : ℤ :=
  match hidden with
  | 0 => lpos
  | 1 => lpos + V.size
  | _ => -1

/-! ### The video memory -/

/-- `get_console_char`: the offset from `CONSOLE_MEM_BASE`. -/
def getConsoleChar (row col : ℤ) : ConM ℤ := do
  contract (inBounds V row col = 0)
  return 2 * (row * V.width + col)

/-- `get_console_color`. -/
def getConsoleColor (row col : ℤ) : ConM ℤ := do
  contract (inBounds V row col = 0)
  return 2 * (row * V.width + col) + 1

/-- A write to the video memory; outside of it there is something else. -/
def poke (off : ℤ) (b : UInt8) : ConM Unit := do
  require (0 ≤ off ∧ off < 2 * V.size) .badPointer
  modify fun c => { c with mem := Function.update c.mem off.toNat b }

/-- `memmove` in the video memory. -/
def memmove (dest src n : ℤ) : ConM Unit := do
  require (0 ≤ dest ∧ 0 ≤ src ∧ dest + n ≤ 2 * V.size ∧ src + n ≤ 2 * V.size) .badPointer
  modify fun c => { c with mem := fun j =>
    if dest ≤ j ∧ j < dest + n then c.mem (j - dest + src).toNat else c.mem j }

/-- The cell at a row and a column becomes the default one. -/
def blankCell (row col : ℤ) : ConM Unit := do
  poke V (← getConsoleChar V row col) defaultChar
  poke V (← getConsoleColor V row col) V.defaultColor

/-- `scroll_console`. -/
def scrollConsole : ConM Unit := do
  let n : ℤ := V.width * (V.height - 1) * 2
  let src ← getConsoleChar V 1 0
  let dest ← getConsoleChar V 0 0
  memmove V dest src n
  upTo V.width fun i => blankCell V (V.height - 1) i

/-- `draw_char`. -/
def drawChar (row col ch color : ℤ) : ConM Unit := do
  if inBounds V row col = 0 then
    let consoleCharBase ← getConsoleChar V row col
    let consoleColorBase ← getConsoleColor V row col
    poke V consoleCharBase (toChar ch)
    poke V consoleColorBase (toChar color)

/-! ### The cursor -/

/-- `set_cursor`. -/
def setCursor (row col : ℤ) : ConM ℤ := do
  if inBounds V row col ≠ 0 then
    return -1
  let lpos ← rowColToLpos V row col
  let hidden := getHposStatus V (← getHardwareCursor V)
  let hpos := logicalToHardware V lpos hidden
  if hpos = -1 then
    return -2
  setHardwareCursor V hpos
  return 0

/-- `get_cursor`: the row and the column, or `none` for the code `-1`. -/
def getCursor : ConM (Option (ℤ × ℤ)) := do
  let hpos ← getHardwareCursor V
  let lpos := hardwareToLogical V hpos
  if lpos = -1 then
    return none
  return some (← lposToRowCol V lpos)

/-- `hide_cursor`. -/
def hideCursor : ConM Unit := do
  let hpos ← getHardwareCursor V
  if getHposStatus V hpos = 0 then
    setHardwareCursor V (hpos + V.size)

/-- `show_cursor`. -/
def showCursor : ConM Unit := do
  let hpos ← getHardwareCursor V
  if getHposStatus V hpos = 1 then
    setHardwareCursor V (hpos - V.size)

/-- `set_term_color`. -/
def setTermColor (color : ℤ) : ConM Unit := modify fun c => { c with termColor := color }

/-- `get_term_color`. -/
def getTermColor : ConM ℤ := gets Console.termColor

/-- `clear_console`. -/
def clearConsole : ConM Unit := do
  upTo V.height fun row => upTo V.width fun col => blankCell V row col
  let _ ← setCursor V 0 0

/-! ### Printing -/

/-- The case `CHAR_NEW_LINE` of `putbyte`. -/
def putNewLine (row : ℤ) : ConM Unit := do
  if row + 1 = V.height then
    scrollConsole V
    let _ ← setCursor V row 0
  else
    let _ ← setCursor V (row + 1) 0

/-- The case `CHAR_BACKSPACE`. -/
def putBackspace (row col : ℤ) : ConM Unit := do
  if col = 0 then
    if row ≠ 0 then
      drawChar V (row - 1) (V.width - 1) defaultChar.toNat V.defaultColor.toNat
      let _ ← setCursor V (row - 1) (V.width - 1)
  else
    drawChar V row (col - 1) defaultChar.toNat V.defaultColor.toNat
    let _ ← setCursor V row (col - 1)

/-- The other characters. -/
def putOther (row col : ℤ) (ch : UInt8) (color : ℤ) : ConM Unit := do
  drawChar V row col ch.toNat (toChar color).toNat
  if col = V.width - 1 then
    if row = V.height - 1 then
      let _ ← setCursor V row 0
      scrollConsole V
    else
      let _ ← setCursor V (row + 1) 0
  else
    let _ ← setCursor V row (col + 1)

/-- `putbyte`; without a cursor position `row` and `col` have no value. -/
def putbyte (ch : UInt8) : ConM ℤ := do
  match ← getCursor V with
  | none => fault .badPointer
  | some (row, col) =>
      let color ← getTermColor
      if ch = 0x0A then
        putNewLine V row
      else if ch = 0x0D then
        let _ ← setCursor V row 0
      else if ch = 0x08 then
        putBackspace V row col
      else
        putOther V row col ch color
      return ch.toNat

/-- `putbytes`, of the bytes of the string; a `NULL` string or one of no length has none. -/
def putbytes : List UInt8 → ConM Unit
  | [] => return
  | ch :: s => do
      let _ ← putbyte V ch
      putbytes s

end

end ShrekOS.ConsoleDriver
