/-
Sequences of calls to the console driver.

* `ConsoleCall`, `runCalls`: the calls, and what `get_cursor`, `set_cursor` and `putbyte` report;
* `runCalls_shows`: the calls run on the screen that the console shows, and the annotations hold
  while no call uses the cursor;
* `runCalls_visibility`: **hiding and showing the cursor changes nothing else**;
* `runCalls_held_iff`: **the annotations hold exactly for the calls that leave the cursor
  alone**.
-/
import ShrekOS.Console.Screen

namespace ShrekOS.ConsoleDriver

open Kit Kit.Cmd

/-- The calls. -/
inductive ConsoleCall where
  | putbyte (ch : UInt8)
  | putbytes (bytes : List UInt8)
  | setCursor (row col : ℤ)
  | getCursor
  | drawChar (row col ch color : ℤ)
  | setTermColor (color : ℤ)
  | clearConsole
  | hideCursor
  | showCursor
  deriving DecidableEq

/-- What a call reports. -/
inductive Report where
  | code (n : ℤ)
  | position (place : Option (ℤ × ℤ))
  deriving DecidableEq

section

variable (V : VideoDefs)

namespace ConsoleCall

/-- A call runs. -/
def exec : ConsoleCall → ConM (List Report)
  | putbyte ch => do return [.code (← ConsoleDriver.putbyte V ch)]
  | putbytes bytes => do
      ConsoleDriver.putbytes V bytes
      return []
  | setCursor row col => do return [.code (← ConsoleDriver.setCursor V row col)]
  | getCursor => do return [.position (← ConsoleDriver.getCursor V)]
  | drawChar row col ch color => do
      ConsoleDriver.drawChar V row col ch color
      return []
  | setTermColor color => do
      ConsoleDriver.setTermColor color
      return []
  | clearConsole => do
      ConsoleDriver.clearConsole V
      return []
  | hideCursor => do
      ConsoleDriver.hideCursor V
      return []
  | showCursor => do
      ConsoleDriver.showCursor V
      return []

/-- The calls that change whether the cursor is hidden, and to what. -/
def visibility : ConsoleCall → Option Bool
  | hideCursor => some true
  | showCursor => some false
  | _ => none

/-- What a call does to the screen. -/
def onScreen (s : Screen) : ConsoleCall → Screen
  | putbyte ch => s.putbyte V ch
  | putbytes bytes => bytes.foldl (Screen.putbyte V) s
  | setCursor row col =>
      if inBounds V row col = 0 then s.goTo (row.toNat * V.width + col.toNat) else s
  | drawChar row col ch color =>
      if inBounds V row col = 0 then
        s.draw (row.toNat * V.width + col.toNat) (toChar ch) (toChar color)
      else s
  | setTermColor color => { s with color := color }
  | clearConsole => s.clear V
  | getCursor | hideCursor | showCursor => s

/-- What a call reports of the screen. -/
def reports (s : Screen) : ConsoleCall → List Report
  | putbyte ch => [.code ch.toNat]
  | setCursor row col => [.code (inBounds V row col)]
  | getCursor => [.position (some (((s.pos / V.width : ℕ) : ℤ), ((s.pos % V.width : ℕ) : ℤ)))]
  | _ => []

/-- The calls that leave the cursor alone: they draw somewhere, set the colour, print nothing, or
set the cursor to a position that does not exist. -/
def LeavesCursor : ConsoleCall → Prop
  | putbytes bytes => bytes = []
  | setCursor row col => inBounds V row col ≠ 0
  | drawChar .. | setTermColor _ => True
  | putbyte _ | getCursor | clearConsole | hideCursor | showCursor => False

end ConsoleCall

/-- The calls run one after the other. -/
def runCalls : List ConsoleCall → ConM (List Report)
  | [] => return []
  | call :: calls => do
      let reports ← call.exec V
      return reports ++ (← runCalls calls)

/-- The reports of a run on the screen. -/
def reportsOf (s : Screen) : List ConsoleCall → List Report
  | [] => []
  | call :: calls => call.reports V s ++ reportsOf (call.onScreen V s) calls

/-- The calls but those of `hide_cursor` and `show_cursor`. -/
def withoutVisibility (calls : List ConsoleCall) : List ConsoleCall :=
  calls.filter fun call => call.visibility.isNone

/-- Whether the cursor is hidden after some calls. -/
def hiddenAfter (hidden : Bool) (calls : List ConsoleCall) : Bool :=
  calls.foldl (fun hid call => call.visibility.getD hid) hidden

/-- `get_cursor` reports the row and the column of a position. -/
def Console.CursorAt (c : Console) (pos : ℕ) : Prop :=
  wp (getCursor V) (fun place _ =>
    place = some (((pos / V.width : ℕ) : ℤ), ((pos % V.width : ℕ) : ℤ))) (fun _ _ => False) c

end

variable {V : VideoDefs} {c : Console} {s : Screen} {hidden : Bool} {E : Fault → Console → Prop}

/-- Integers in bounds are a row and a column of the screen. -/
lemma exists_place {row col : ℤ} (hin : inBounds V row col = 0) :
    ∃ r k : ℕ, row = r ∧ col = k ∧ r < V.height ∧ k < V.width := by
  obtain ⟨hrow, hrow', hcol, hcol'⟩ := inBounds_eq_zero_iff.mp hin
  exact ⟨row.toNat, col.toNat, by omega, by omega, by omega, by omega⟩

/-- A code of `in_bounds` other than 0 is -1. -/
lemma inBounds_of_ne {row col : ℤ} (hout : inBounds V row col ≠ 0) : inBounds V row col = -1 := by
  rw [inBounds] at hout ⊢
  split_ifs at hout ⊢
  · rfl
  · exact absurd rfl hout

/-- **A call on a console that shows a screen**: it does to the console what it does to the
screen, and an annotation breaks when it uses the cursor. -/
lemma exec_shows (h : c.Shows V s hidden) (call : ConsoleCall) :
    wp (call.exec V) (fun r c' => r = call.reports V s ∧
      c'.Shows V (call.onScreen V s) (call.visibility.getD hidden) ∧
      (c'.held = true ↔ c.held = true ∧ call.LeavesCursor V)) E c := by
  cases call with
  | putbyte ch =>
      rw [ConsoleCall.exec, wp_bind]
      refine wp_imp (putbyte_shows h ch) ?_
      rintro r c₁ ⟨rfl, hc₁, hheld⟩
      exact ⟨rfl, hc₁, by simp [hheld, ConsoleCall.LeavesCursor]⟩
  | putbytes bytes =>
      rw [ConsoleCall.exec, wp_bind]
      refine wp_imp (putbytes_shows bytes h) ?_
      rintro _ c₁ ⟨hc₁, hheld⟩
      exact ⟨rfl, hc₁, by simp [hheld, ConsoleCall.LeavesCursor]⟩
  | setCursor row col =>
      rw [ConsoleCall.exec, wp_bind]
      by_cases hin : inBounds V row col = 0
      -- a place on the screen
      · obtain ⟨r, k, rfl, rfl, hr, hk⟩ := exists_place hin
        refine wp_imp (setCursor_shows h hr hk) ?_
        rintro _ c₁ ⟨rfl, hc₁, hheld⟩
        refine ⟨congrArg (fun n => [Report.code n]) hin.symm, ?_,
          by simp [hheld, ConsoleCall.LeavesCursor, hin]⟩
        rw [ConsoleCall.onScreen, if_pos hin]
        exact hc₁
      -- off the screen: an error, and the cursor stays
      · refine wp_imp (setCursor_outside hin) ?_
        rintro _ c₁ ⟨rfl, rfl⟩
        refine ⟨congrArg (fun n => [Report.code n]) (inBounds_of_ne hin).symm, ?_,
          by simp [ConsoleCall.LeavesCursor, hin]⟩
        rw [ConsoleCall.onScreen, if_neg hin]
        exact h
  | getCursor =>
      rw [ConsoleCall.exec, wp_bind]
      refine wp_imp (getCursor_shows h) ?_
      rintro _ c₁ ⟨rfl, hc₁, hheld⟩
      exact ⟨rfl, hc₁, by simp [hheld, ConsoleCall.LeavesCursor]⟩
  | drawChar row col ch color =>
      rw [ConsoleCall.exec, wp_bind]
      by_cases hin : inBounds V row col = 0
      · obtain ⟨r, k, rfl, rfl, hr, hk⟩ := exists_place hin
        refine wp_imp (drawChar_shows h hr hk ch color) ?_
        rintro _ c₁ ⟨hc₁, hheld⟩
        refine ⟨rfl, ?_, by simp [hheld, ConsoleCall.LeavesCursor]⟩
        rw [ConsoleCall.onScreen, if_pos hin]
        exact hc₁
      -- off the screen: nothing is drawn
      · refine wp_imp (drawChar_outside hin ch color) ?_
        rintro _ c₁ rfl
        refine ⟨rfl, ?_, by simp [ConsoleCall.LeavesCursor]⟩
        rw [ConsoleCall.onScreen, if_neg hin]
        exact h
  | setTermColor color =>
      rw [ConsoleCall.exec, wp_bind]
      exact ⟨rfl, ⟨h.mem, rfl, h.cursor, h.inside⟩, by simp [ConsoleCall.LeavesCursor]⟩
  | clearConsole =>
      rw [ConsoleCall.exec, wp_bind]
      refine wp_imp (clearConsole_shows h) ?_
      rintro _ c₁ ⟨hc₁, hheld⟩
      exact ⟨rfl, hc₁, by simp [hheld, ConsoleCall.LeavesCursor]⟩
  | hideCursor =>
      rw [ConsoleCall.exec, wp_bind]
      refine wp_imp (hideCursor_shows h) ?_
      rintro _ c₁ ⟨hc₁, hheld⟩
      exact ⟨rfl, hc₁, by simp [hheld, ConsoleCall.LeavesCursor]⟩
  | showCursor =>
      rw [ConsoleCall.exec, wp_bind]
      refine wp_imp (showCursor_shows h) ?_
      rintro _ c₁ ⟨hc₁, hheld⟩
      exact ⟨rfl, hc₁, by simp [hheld, ConsoleCall.LeavesCursor]⟩

/-- **A run of calls** does to the console what it does to the screen. -/
theorem runCalls_shows (calls : List ConsoleCall) (h : c.Shows V s hidden) :
    wp (runCalls V calls) (fun reports c' => reports = reportsOf V s calls ∧
      c'.Shows V (calls.foldl (ConsoleCall.onScreen V) s) (hiddenAfter hidden calls) ∧
      (c'.held = true ↔ c.held = true ∧ ∀ call ∈ calls, call.LeavesCursor V)) E c := by
  induction calls generalizing s c hidden with
  | nil => exact ⟨rfl, h, by simp⟩
  | cons call calls ih =>
      rw [runCalls, wp_bind]
      refine wp_imp (exec_shows h call) ?_
      rintro _ c₁ ⟨rfl, hc₁, hheld⟩
      rw [wp_bind]
      refine wp_imp (ih hc₁) ?_
      rintro _ c₂ ⟨rfl, hc₂, hheld'⟩
      refine ⟨rfl, hc₂, ?_⟩
      rw [hheld', hheld, List.forall_mem_cons, and_assoc]

/-! ### Hiding and showing -/

/-- A call of `hide_cursor` or `show_cursor` leaves the screen alone, and reports nothing. -/
lemma onScreen_visibility (s : Screen) {call : ConsoleCall} (hcall : ¬ call.visibility.isNone) :
    call.onScreen V s = s ∧ call.reports V s = [] := by
  cases call with
  | hideCursor => exact ⟨rfl, rfl⟩
  | showCursor => exact ⟨rfl, rfl⟩
  | _ => exact absurd rfl hcall

/-- The calls do the same to the screen without those of `hide_cursor` and `show_cursor`. -/
lemma onScreen_withoutVisibility (s : Screen) (calls : List ConsoleCall) :
    (withoutVisibility calls).foldl (ConsoleCall.onScreen V) s =
      calls.foldl (ConsoleCall.onScreen V) s ∧
    reportsOf V s (withoutVisibility calls) = reportsOf V s calls := by
  induction calls generalizing s with
  | nil => exact ⟨rfl, rfl⟩
  | cons call calls ih =>
      by_cases hcall : call.visibility.isNone
      · have hcons : withoutVisibility (call :: calls) = call :: withoutVisibility calls :=
          List.filter_cons_of_pos hcall
        obtain ⟨hscreen, hreports⟩ := ih (call.onScreen V s)
        rw [hcons]
        exact ⟨hscreen, by rw [reportsOf, hreports, reportsOf]⟩
      · have hcons : withoutVisibility (call :: calls) = withoutVisibility calls :=
          List.filter_cons_of_neg hcall
        obtain ⟨hsame, hsilent⟩ := onScreen_visibility (V := V) s hcall
        rw [hcons, List.foldl_cons, reportsOf, hsame, hsilent]
        exact ih s

/-- Without them, the cursor stays as it is. -/
lemma hiddenAfter_withoutVisibility (hidden : Bool) (calls : List ConsoleCall) :
    hiddenAfter hidden (withoutVisibility calls) = hidden := by
  induction calls with
  | nil => rfl
  | cons call calls ih =>
      by_cases hcall : call.visibility.isNone
      · have hcons : withoutVisibility (call :: calls) = call :: withoutVisibility calls :=
          List.filter_cons_of_pos hcall
        rw [hcons, hiddenAfter, List.foldl_cons, Option.isNone_iff_eq_none.mp hcall]
        exact ih
      · have hcons : withoutVisibility (call :: calls) = withoutVisibility calls :=
          List.filter_cons_of_neg hcall
        rw [hcons]
        exact ih

/-- **Hiding and showing the cursor changes nothing else**: without these calls there are the
same reports and the same screen, and the register holds the position that `get_cursor` reports,
with the offset as long as the cursor is hidden. -/
theorem runCalls_visibility (V : VideoDefs) (c : Console)
    (hvalid : c.register V < V.size + V.size) (calls : List ConsoleCall) :
    ∃ pos < V.size, ∃ reports c₁ c₂,
      runCalls V calls c = (.ok reports, c₁) ∧
      runCalls V (withoutVisibility calls) c = (.ok reports, c₂) ∧
      c₂.mem = c₁.mem ∧ c₂.termColor = c₁.termColor ∧
      c₁.CursorAt V pos ∧ c₂.CursorAt V pos ∧
      c₁.register V = pos + hiddenOffset V (hiddenAfter (decide (V.size ≤ c.register V)) calls) ∧
      c₂.register V = pos + hiddenOffset V (decide (V.size ≤ c.register V)) := by
  obtain ⟨s, hshows, -⟩ := exists_shows hvalid
  obtain ⟨hscreen, hreports⟩ := onScreen_withoutVisibility (V := V) s calls
  obtain ⟨reports, c₁, hrun, rfl, hc₁, -⟩ := wp_returns (runCalls_shows calls hshows)
  obtain ⟨reports', c₂, hrun', rfl, hc₂, -⟩ :=
    wp_returns (runCalls_shows (withoutVisibility calls) hshows)
  rw [hscreen, hiddenAfter_withoutVisibility] at hc₂
  rw [hreports] at hrun'
  refine ⟨_, hc₁.inside, _, c₁, c₂, hrun, hrun', by rw [hc₁.mem, hc₂.mem],
    by rw [hc₁.color, hc₂.color], ?_, ?_, hc₁.cursor, hc₂.cursor⟩
  · exact wp_imp (getCursor_shows hc₁) fun _ _ hc' => hc'.1
  · exact wp_imp (getCursor_shows hc₂) fun _ _ hc' => hc'.1

theorem runCalls_visibility_fresh :
    freshConsole.register textMode < textMode.size + textMode.size ∧
    ∃ pos < textMode.size, ∃ reports c₁ c₂,
      runCalls textMode [.hideCursor, .putbyte 65, .getCursor] freshConsole = (.ok reports, c₁) ∧
      runCalls textMode [.putbyte 65, .getCursor] freshConsole = (.ok reports, c₂) ∧
      c₂.mem = c₁.mem ∧ c₂.termColor = c₁.termColor ∧
      c₁.CursorAt textMode pos ∧ c₂.CursorAt textMode pos ∧
      c₁.register textMode = pos + hiddenOffset textMode true ∧
      c₂.register textMode = pos + hiddenOffset textMode false :=
  ⟨by decide, runCalls_visibility textMode freshConsole (by decide)
    [.hideCursor, .putbyte 65, .getCursor]⟩

/-! ### The annotations -/

/-- **The annotations hold exactly for the calls that leave the cursor alone**: `is_valid_hpos`
returns 1 for a valid position, and the annotations ask for 0. -/
theorem runCalls_held_iff (V : VideoDefs) (c : Console)
    (hvalid : c.register V < V.size + V.size) (hheld : c.held = true) (calls : List ConsoleCall) :
    wp (runCalls V calls) (fun _ c' =>
      c'.held = true ↔ ∀ call ∈ calls, call.LeavesCursor V) (fun _ _ => False) c := by
  obtain ⟨s, hshows, -⟩ := exists_shows hvalid
  refine wp_imp (runCalls_shows calls hshows) ?_
  rintro _ c' ⟨-, -, hiff⟩
  rw [hiff]
  exact and_iff_right hheld

theorem runCalls_held_iff_draw :
    wp (runCalls textMode [.drawChar 0 0 65 7, .setCursor 25 0, .showCursor]) (fun _ c' =>
      c'.held = true ↔ ∀ call ∈ [ConsoleCall.drawChar 0 0 65 7, .setCursor 25 0, .showCursor],
        call.LeavesCursor textMode) (fun _ _ => False) freshConsole :=
  runCalls_held_iff textMode freshConsole (by decide) rfl _

/-- Reading the cursor of a fresh console breaks an annotation. -/
theorem not_held_showCursor :
    freshConsole.register textMode < textMode.size ∧ freshConsole.held = true ∧
    (runCalls textMode [.showCursor] freshConsole).2.held = false := by
  decide

end ShrekOS.ConsoleDriver
