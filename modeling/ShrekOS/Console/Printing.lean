/-
Printing a text on a cleared console.

* `Screen.cell`, `textCell`: a character with its colour, on the screen and in a text;
* `Screen.Printed`: a text has been printed, and its first rows have left the screen;
* `Screen.Printed.putbyte`: one more character, which ends a row of the screen or does not, or
  ends the last one, so that the rows move up;
* `clearConsole_putbytes`: **the screen shows the end of the text**.
-/
import ShrekOS.Console.Screen

namespace ShrekOS.ConsoleDriver

open Kit Kit.Cmd

variable {V : VideoDefs} {s : Screen}

/-- A character on the screen, with its colour. -/
def Screen.cell (s : Screen) (i : ℕ) : UInt8 × UInt8 := (s.mem (2 * i), s.mem (2 * i + 1))

/-- A character on the console, with its colour. -/
def Console.cell (V : VideoDefs) (c : Console) (row col : ℕ) : UInt8 × UInt8 :=
  (c.mem (2 * (row * V.width + col)), c.mem (2 * (row * V.width + col) + 1))

/-- What the screen shows for a character of a text, or after its end. -/
def textCell (V : VideoDefs) (color : ℤ) : Option UInt8 → UInt8 × UInt8
  | some ch => (ch, toChar color)
  | none => (defaultChar, V.defaultColor)

/-- The characters that `putbyte` draws. -/
def Plain (ch : UInt8) : Prop := ch ≠ 0x0A ∧ ch ≠ 0x0D ∧ ch ≠ 0x08

instance (ch : UInt8) : Decidable (Plain ch) :=
  inferInstanceAs (Decidable (ch ≠ 0x0A ∧ ch ≠ 0x0D ∧ ch ≠ 0x08))

namespace Screen

lemma cell_draw (s : Screen) (i j : ℕ) (ch color : UInt8) :
    (s.draw i ch color).cell j = if j = i then (ch, color) else s.cell j := by
  simp only [cell, draw]
  by_cases hj : j = i
  · rw [if_pos hj, hj, Function.update_self, Function.update_of_ne (by omega),
      Function.update_self]
  · rw [if_neg hj, Function.update_of_ne (by omega), Function.update_of_ne (by omega),
      Function.update_of_ne (by omega), Function.update_of_ne (by omega)]

/-- The bytes of a blank character. -/
lemma blankByte_cell (V : VideoDefs) (j : ℕ) :
    (blankByte V (2 * j), blankByte V (2 * j + 1)) = (defaultChar, V.defaultColor) := by
  rw [blankByte, blankByte, if_pos (by omega), if_neg (by omega)]

lemma cell_scroll (s : Screen) {j : ℕ} (hj : j < V.size) :
    (s.scroll V).cell j = if j < V.width * (V.height - 1) then s.cell (j + V.width)
      else (defaultChar, V.defaultColor) := by
  simp only [cell, scroll]
  by_cases hrow : j < V.width * (V.height - 1)
  · rw [if_pos hrow, if_pos (by omega), if_pos (by omega), Nat.mul_add, Nat.add_right_comm]
  · rw [if_neg hrow, if_neg (by omega), if_pos (by omega), if_neg (by omega), if_pos (by omega),
      blankByte_cell]

lemma cell_clear (s : Screen) {j : ℕ} (hj : j < V.size) :
    (s.clear V).cell j = (defaultChar, V.defaultColor) := by
  simp only [cell, clear]
  rw [if_pos (by omega), if_pos (by omega), blankByte_cell]

/-- A text has been printed, and its first `k` rows have left the screen: then the cursor is in
the last row. -/
structure Printed (V : VideoDefs) (color : ℤ) (bytes : List UInt8) (k : ℕ) (s : Screen) : Prop where
  color_eq : s.color = color
  pos_eq : s.pos + V.width * k = bytes.length
  inside : s.pos < V.size
  bottom : 0 < k → V.width * (V.height - 1) ≤ s.pos
  cell_eq : ∀ i < V.size, s.cell i = textCell V color bytes[i + V.width * k]?

/-- The rows but the last one, and the last one. -/
lemma rows_eq (V : VideoDefs) : V.width * (V.height - 1) + V.width = V.size := by
  rw [VideoDefs.size, ← Nat.mul_succ, Nat.succ_eq_add_one, Nat.sub_add_cancel V.height_pos]

/-- A character at the end of a text is the only one that it adds. -/
lemma getElem?_snoc_of_ne (bytes : List UInt8) (ch : UInt8) {i : ℕ} (hi : i ≠ bytes.length) :
    (bytes ++ [ch])[i]? = bytes[i]? := by
  rcases Nat.lt_or_gt_of_ne hi with hlt | hgt
  · exact List.getElem?_append_left hlt
  · rw [List.getElem?_eq_none (by simp; omega), List.getElem?_eq_none (by omega)]

namespace Printed

variable {color : ℤ} {bytes : List UInt8} {k : ℕ}

/-- Nothing has been printed on a cleared screen. -/
lemma clear (V : VideoDefs) (s : Screen) : Printed V s.color [] 0 (s.clear V) where
  color_eq := rfl
  pos_eq := rfl
  inside := Nat.mul_pos V.width_pos V.height_pos
  bottom h := absurd h (lt_irrefl 0)
  cell_eq _ hi := cell_clear s hi

/-- The character at the cursor is drawn. -/
lemma drawn (h : Printed V color bytes k s) (ch : UInt8) {i : ℕ} (hi : i < V.size) :
    (s.draw s.pos ch (toChar s.color)).cell i =
      textCell V color (bytes ++ [ch])[i + V.width * k]? := by
  have hpos := h.pos_eq
  rw [cell_draw, h.color_eq]
  by_cases hcur : i = s.pos
  · rw [if_pos hcur, hcur, hpos, List.getElem?_concat_length]
    rfl
  · rw [if_neg hcur, getElem?_snoc_of_ne _ _ (by omega)]
    exact h.cell_eq i hi

/-- **One more character**: the rows move up when it takes the last place of the screen. -/
lemma putbyte (h : Printed V color bytes k s) {ch : UInt8} (hplain : Plain ch) :
    ∃ k', Printed V color (bytes ++ [ch]) k' (s.putbyte V ch) := by
  obtain ⟨hline, hreturn, hback⟩ := hplain
  have hpos := h.pos_eq
  have hinside := h.inside
  have hrows := rows_eq V
  have hw := V.width_pos
  have hlen : (bytes ++ [ch]).length = bytes.length + 1 := List.length_append
  rw [putbyte_other V s hline hreturn hback]
  by_cases hlast : s.pos + 1 = V.size
  · have hk : V.width * (k + 1) = V.width * k + V.width := Nat.mul_succ ..
    rw [if_pos hlast]
    refine ⟨k + 1, h.color_eq, ?_, ?_, fun _ => le_rfl, fun i hi => ?_⟩
    · change V.width * (V.height - 1) + V.width * (k + 1) = _
      omega
    · change V.width * (V.height - 1) < V.size
      omega
    · change ((s.draw s.pos ch (toChar s.color)).scroll V).cell i = _
      rw [cell_scroll _ hi]
      by_cases hrow : i < V.width * (V.height - 1)
      · rw [if_pos hrow, h.drawn ch (by omega)]
        congr 2
        omega
      · rw [if_neg hrow, List.getElem?_eq_none (by omega)]
        rfl
  · rw [if_neg hlast]
    refine ⟨k, h.color_eq, ?_, ?_, fun hk => ?_, fun i hi => h.drawn ch hi⟩
    · change s.pos + 1 + V.width * k = _
      omega
    · change s.pos + 1 < V.size
      omega
    · exact le_trans (h.bottom hk) (Nat.le_succ _)

/-- **A text of such characters is printed.** -/
lemma foldl (V : VideoDefs) (s : Screen) (bytes : List UInt8) (hplain : ∀ ch ∈ bytes, Plain ch) :
    ∃ k, Printed V s.color bytes k (bytes.foldl (Screen.putbyte V) (s.clear V)) := by
  induction bytes using List.reverseRecOn with
  | nil => exact ⟨0, clear V s⟩
  | append_singleton bytes ch ih =>
      obtain ⟨k, hk⟩ := ih fun ch' hmem => hplain ch' (List.mem_append_left _ hmem)
      rw [List.foldl_append]
      exact hk.putbyte (hplain ch (List.mem_append_right _ List.mem_cons_self))

/-- The rows that have left are those that do not fit. -/
lemma rows (h : Printed V color bytes k s) :
    k = bytes.length / V.width - (V.height - 1) ∧
    s.pos / V.width + k = bytes.length / V.width ∧
    s.pos % V.width = bytes.length % V.width := by
  have hdiv : bytes.length / V.width = s.pos / V.width + k := by
    rw [← h.pos_eq, Nat.add_mul_div_left _ _ V.width_pos]
  have hmod : bytes.length % V.width = s.pos % V.width := by
    rw [← h.pos_eq, Nat.add_mul_mod_self_left]
  have hrow : s.pos / V.width ≤ V.height - 1 := Nat.le_sub_one_of_lt (row_lt h.inside)
  refine ⟨?_, hdiv.symm, hmod.symm⟩
  rcases Nat.eq_zero_or_pos k with rfl | hk
  · omega
  · have hbottom : V.height - 1 ≤ s.pos / V.width :=
      (Nat.le_div_iff_mul_le V.width_pos).mpr (by rw [Nat.mul_comm]; exact h.bottom hk)
    omega

end Printed

end Screen

/-- **Printing on a cleared console**: the rows of the text from the first one that still fits
are on the screen, the rest of it is blank, and the cursor is behind the text. -/
theorem clearConsole_putbytes (V : VideoDefs) (c : Console)
    (hvalid : c.register V < V.size + V.size) (bytes : List UInt8)
    (hplain : ∀ ch ∈ bytes, Plain ch) :
    wp (do clearConsole V; putbytes V bytes) (fun _ c' =>
      (∀ row < V.height, ∀ col < V.width, c'.cell V row col = textCell V c.termColor
        bytes[V.width * (row + (bytes.length / V.width - (V.height - 1))) + col]?) ∧
      wp (getCursor V) (fun place _ => place =
        some (((bytes.length / V.width : ℕ) : ℤ) -
            (bytes.length / V.width - (V.height - 1) : ℕ),
          ((bytes.length % V.width : ℕ) : ℤ))) (fun _ _ => False) c')
      (fun _ _ => False) c := by
  obtain ⟨s, hshows, -⟩ := exists_shows hvalid
  obtain ⟨k, hk⟩ := Screen.Printed.foldl V s bytes hplain
  obtain ⟨hleft, hrow, hcol⟩ := hk.rows
  rw [wp_bind]
  refine wp_imp (clearConsole_shows hshows) ?_
  rintro _ c₁ ⟨hc₁, -⟩
  refine wp_imp (putbytes_shows bytes hc₁) ?_
  rintro _ c₂ ⟨hc₂, -⟩
  rw [← hleft]
  refine ⟨fun row hlt col hlt' => ?_, ?_⟩
  · have hcell := hk.cell_eq _ (place_lt hlt hlt')
    have hindex : row * V.width + col + V.width * k = V.width * (row + k) + col := by ring
    rw [Console.cell, hc₂.mem, hshows.color, ← hindex]
    exact hcell
  · refine wp_imp (getCursor_shows hc₂) ?_
    rintro place _ ⟨rfl, -⟩
    rw [hcol, ← hrow]
    push_cast
    rw [add_sub_cancel_right]

/-- A text that fills the screen, and five more bytes. -/
def longText : List UInt8 := List.replicate 2000 72 ++ List.replicate 5 105

/-- The long text wraps at the end of each row and scrolls the first one away: the last five
bytes are on the last row. -/
theorem clearConsole_putbytes_longText :
    wp (do clearConsole textMode; putbytes textMode longText) (fun _ c' =>
      (∀ row < 25, ∀ col < 80,
        c'.cell textMode row col = textCell textMode 7 longText[80 * (row + 1) + col]?) ∧
      wp (getCursor textMode) (fun place _ => place = some (24, 5)) (fun _ _ => False) c')
      (fun _ _ => False) freshConsole := by
  have hlen : longText.length = 2005 := by
    rw [longText, List.length_append, List.length_replicate, List.length_replicate]
  have hplain : ∀ ch ∈ longText, Plain ch := by
    intro ch hch
    rw [longText, List.mem_append, List.mem_replicate, List.mem_replicate] at hch
    rcases hch with ⟨-, rfl⟩ | ⟨-, rfl⟩ <;> simp [Plain]
  have hshown := clearConsole_putbytes textMode freshConsole (by decide) longText hplain
  rw [hlen] at hshown
  exact hshown

end ShrekOS.ConsoleDriver
