import WeightScale.Analysis.OledPixels
import WeightScale.Analysis.OledLog
import WeightScale.Embedded.Terminal

/-!
# The OLED as a terminal

Printed text is what a terminal of cells would show: `writeChar` moves the pixels and the
cursor as the terminal moves its cells, whatever the text. The `int16_t` of the cursor
counts 8192 lines, of which the first are on the screen.

The rows of `printOLED` are cut at twenty chars, one less than fit on a line, so each takes
one line. So what stands in a pixel of the screen after a message is a bit of the font, of
the char in its column of the newest lines.
-/

set_option autoImplicit false

namespace WeightScale

open Embedded

/-- The lines that an `int16_t` tells apart in steps of eight rows. -/
abbrev cursorLines : ℕ := 8192

/-- The pixel in column `i` and row `j` of a cell. -/
def cellPixel (past : List Byte) (cell : Option Byte) (i j : ℕ) : Bool :=
  match cell with
  | none => false
  | some c => bitAt (charColumn past c i) j

/-- Two additions in `int16_t` are one. -/
theorem int16_int16_add (x y : Int) : int16 (int16 x + y) = int16 (x + y) := by
  rw [int16, int16, int16, Int.bmod_add_bmod]

/-- The cursor of the next line. -/
theorem int16_line (l : ℕ) :
    int16 (int16 (8 * l) + 1 * 8) = int16 (8 * ((l + 1) % cursorLines : ℕ)) := by
  have h : (8 * l + 1 * 8 : Int) = 8 * ((l + 1) % cursorLines : ℕ) +
      (65536 : ℕ) * ((l + 1) / cursorLines : ℕ) := by
    simp only [cursorLines]
    omega
  rw [int16_int16_add, h]
  exact Int.add_mul_bmod_self_left _ _ _

/-- Where a line starts on the screen as an `int16_t`: from line 4096 on above it. -/
theorem int16_line_eq {l : ℕ} (h : l < cursorLines) :
    int16 (8 * l) = if l < 4096 then 8 * (l : Int) else 8 * (l : Int) - 65536 := by
  rw [int16, Int.bmod_def]
  simp only [cursorLines] at h
  split <;> split <;> omega

namespace Oled

variable {rawWidth rawHeight : Byte} {cols : ℕ}

/-- Text is white on black, of size one, and wraps. -/
structure Plain (o : Oled rawWidth rawHeight) : Prop where
  color : o.textcolor = white
  background : o.textbgcolor = black
  size : o.textsize = 1
  wrap : o.wrap = true

/-- The screen shows the cells of the terminal, and the two cursors agree. -/
structure Shows (past : List Byte) (o : Oled rawWidth rawHeight) (t : Terminal cols cursorLines) :
    Prop extends Plain o where
  cols_eq : cols = o.width / 6
  cursorX : o.cursorX = 6 * t.col
  cursorY : o.cursorY = int16 (8 * t.line)
  cells : ∀ x y, x < o.width → y < o.height → x / 6 < cols →
    o.pixel x y = cellPixel past (t.cell (y / 8) (x / 6)) (x % 6) (y % 8)
  margin : ∀ x y, x < o.width → y < o.height → cols ≤ x / 6 → o.pixel x y = false

namespace Shows

variable {past : List Byte} {o : Oled rawWidth rawHeight} {t : Terminal cols cursorLines}

/-- The pixels that a char at the cursor is drawn over are those of the cell under it. -/
theorem in_cell_iff (h : Shows past o t) {x y : ℕ} (hy : y < o.height) :
    (-4 ≤ o.cursorX ∧ (o.cursorX ≤ x ∧ (x : Int) < o.cursorX + 6) ∧
      o.cursorY ≤ y ∧ (y : Int) < o.cursorY + 8) ↔ y / 8 = t.line ∧ x / 6 = t.col := by
  have hle := o.extent_le
  rw [h.cursorX, h.cursorY, int16_line_eq t.line_lt]
  have hline := t.line_lt
  simp only [cursorLines] at hline
  split <;> omega

/-- A char is drawn as the terminal fills the cell. -/
theorem fill (h8 : 8 ∣ rawHeight.toNat) (h : Shows past o t) (c : Byte) :
    Shows past (o.drawChar past o.cursorX o.cursorY c o.textcolor o.textbgcolor o.textsize)
      (t.fill c) := by
  rw [h.color, h.background, h.size]
  have hpix := fun (x y : ℕ) (hx : x < o.width) (hy : y < o.height) =>
    o.pixel_drawChar h8 past o.cursorX o.cursorY c white black hx hy
  obtain ⟨b, hb⟩ := o.redrawn_drawChar h8 past o.cursorX o.cursorY c white black
  rw [hb] at hpix ⊢
  have hink : ∀ on old, ink on white black old = on := by decide
  refine ⟨⟨h.color, h.background, h.size, h.wrap⟩, h.cols_eq, h.cursorX, h.cursorY,
    fun x y hx hy hcol => ?_, fun x y hx hy hcol => ?_⟩
  · rw [hpix x y hx hy, hink]
    by_cases hin : y / 8 = t.line ∧ x / 6 = t.col
    · rw [if_pos ((h.in_cell_iff hy).mpr hin)]
      have hcell : (t.fill c).cell (y / 8) (x / 6) = some c := by simp [Terminal.fill, hin]
      have hx6 : ((x : Int) - o.cursorX).toNat = x % 6 := by
        rw [h.cursorX]
        omega
      have hy8 : ((y : Int) - o.cursorY).toNat = y % 8 := by
        have hrow : y < 256 := Nat.lt_succ_of_le (Nat.le_trans (Nat.le_of_lt hy) o.extent_le.2)
        rw [h.cursorY, int16_line_eq t.line_lt, if_pos (by omega)]
        omega
      rw [hcell, hx6, hy8]
      rfl
    · rw [if_neg fun hc => hin ((h.in_cell_iff hy).mp hc), h.cells x y hx hy hcol]
      have hcell : (t.fill c).cell (y / 8) (x / 6) = t.cell (y / 8) (x / 6) := by
        simp [Terminal.fill, hin]
      rw [hcell]
  · have hout : ¬(y / 8 = t.line ∧ x / 6 = t.col) := by
      have := t.col_lt
      omega
    rw [hpix x y hx hy, if_neg fun hc => hout ((h.in_cell_iff hy).mp hc), h.margin x y hx hy hcol]

/-- A cursor moved to the head of a line. -/
theorem move (h : Shows past o t) (t' : Terminal cols cursorLines) (hcell : t'.cell = t.cell)
    {x y : Int} (hx : x = 6 * t'.col) (hy : y = int16 (8 * t'.line)) :
    Shows past { o with cursorX := x, cursorY := y } t' where
  color := h.color
  background := h.background
  size := h.size
  wrap := h.wrap
  cols_eq := h.cols_eq
  cursorX := hx
  cursorY := hy
  cells x' y' hx' hy' hcol := by
    rw [hcell]
    exact h.cells x' y' hx' hy' hcol
  margin := h.margin

/-- The cursor of the display goes to the next line as that of the terminal does. -/
theorem nextLine (h : Shows past o t) : Shows past o.nextLine t.newline := by
  refine h.move t.newline rfl rfl ?_
  rw [h.cursorY, h.size]
  exact int16_line t.line

/-- The cursor of the display advances as that of the terminal does. -/
theorem advance (h : Shows past o t) : Shows past o.advance t.advance := by
  have hle := o.extent_le
  have hcols := h.cols_eq
  have hcol := t.col_lt
  have hsize : o.textsize.toNat = 1 := by
    rw [h.size]
    rfl
  have hx : int16 (o.cursorX + o.textsize.toNat * 6) = 6 * ((t.col + 1 : ℕ) : Int) := by
    have hcx : o.cursorX = 6 * (t.col : Int) := h.cursorX
    rw [hsize, hcx, int16_eq (by omega) (by omega)]
    omega
  have hmoved : o.advance =
      if ¬t.col + 1 < cols then o.nextLine
      else { o with cursorX := 6 * ((t.col + 1 : ℕ) : Int) } := by
    have hwrap : (o.wrap = true ∧ 6 * ((t.col + 1 : ℕ) : Int) > (o.width : Int) - 1 * 6) ↔
        ¬t.col + 1 < cols := by
      rw [h.wrap]
      simp only [true_and]
      omega
    rw [hsize, Nat.cast_one] at hx
    simp only [Oled.advance, hsize, Nat.cast_one, hx, hwrap, Oled.nextLine]
  rw [hmoved, Terminal.advance]
  by_cases hlast : t.col + 1 < cols
  · rw [if_neg (not_not_intro hlast), dif_pos hlast]
    exact h.move { t with col := t.col + 1, col_lt := hlast } rfl rfl h.cursorY
  · rw [if_pos hlast, dif_neg hlast]
    exact h.nextLine

/-- **One char.** -/
theorem write (h8 : 8 ∣ rawHeight.toNat) (h : Shows past o t) (c : Byte) :
    Shows past (o.writeChar past c) (t.write c) := by
  rw [writeChar, Terminal.write]
  by_cases hn : c = chr '\n'
  · rw [if_pos hn, if_pos hn]
    exact h.nextLine
  · rw [if_neg hn, if_neg hn]
    by_cases hr : c = chr '\r'
    · rw [if_pos hr, if_pos hr]
      exact h.move t.home rfl rfl h.cursorY
    · rw [if_neg hr, if_neg hr]
      exact (h.fill h8 c).advance

/-- A char on a line of the screen is drawn. -/
theorem not_clipped (h : Shows past o t) (hline : 8 * t.line < o.height) :
    ¬o.Clipped o.cursorX o.cursorY o.textsize := by
  have hle := o.extent_le
  have hcols := h.cols_eq
  have hcol := t.col_lt
  have hsize : (1 : Byte).toNat = 1 := rfl
  rw [Clipped, h.cursorX, h.cursorY, h.size, hsize, int16_line_eq t.line_lt, if_pos (by omega)]
  omega

/-- **Any text.** -/
theorem print (h8 : 8 ∣ rawHeight.toNat) (h : Shows past o t) (text : Text) :
    Shows past (o.print past text) (text.foldl Terminal.write t) := by
  induction text generalizing o t with
  | nil => exact h
  | cons c text ih => exact ih (h.write h8 c)

end Shows

/-! ## A whole screen -/

/-- `o'` is `o` with another picture and another cursor. -/
def Printed (o o' : Oled rawWidth rawHeight) : Prop :=
  ∃ b x y, o' = { o with buffer := b, cursorX := x, cursorY := y }

/-- Printing twice is printing. -/
theorem Printed.trans {o o' o'' : Oled rawWidth rawHeight} (h : Printed o o')
    (h' : Printed o' o'') : Printed o o'' := by
  obtain ⟨b, x, y, rfl⟩ := h
  obtain ⟨b', x', y', rfl⟩ := h'
  exact ⟨b', x', y', rfl⟩

/-- Printing keeps the colours, the size and the wrapping. -/
theorem Printed.plain {o o' : Oled rawWidth rawHeight} (h : Printed o o') (hplain : Plain o) :
    Plain o' := by
  obtain ⟨b, x, y, rfl⟩ := h
  exact ⟨hplain.color, hplain.background, hplain.size, hplain.wrap⟩

/-- A char changes the buffer and the cursor only. -/
theorem printed_writeChar (h8 : 8 ∣ rawHeight.toNat) (past : List Byte)
    {o : Oled rawWidth rawHeight} (hsize : o.textsize = 1) (c : Byte) :
    Printed o (o.writeChar past c) := by
  have hadvance : ∀ o : Oled rawWidth rawHeight, Printed o o.advance := by
    intro o
    rw [advance]
    split
    · exact ⟨_, _, _, rfl⟩
    · exact ⟨_, _, _, rfl⟩
  rw [writeChar]
  split
  · exact ⟨_, _, _, rfl⟩
  · split
    · exact ⟨_, _, _, rfl⟩
    · rw [hsize]
      obtain ⟨b, hb⟩ := o.redrawn_drawChar h8 past o.cursorX o.cursorY c o.textcolor o.textbgcolor
      rw [hb]
      exact Printed.trans ⟨b, o.cursorX, o.cursorY, rfl⟩ (hadvance _)

/-- A text changes the buffer and the cursor only. -/
theorem printed_print (h8 : 8 ∣ rawHeight.toNat) (past : List Byte)
    {o : Oled rawWidth rawHeight} (hplain : Plain o) (t : Text) : Printed o (o.print past t) := by
  induction t generalizing o with
  | nil => exact ⟨o.buffer, o.cursorX, o.cursorY, rfl⟩
  | cons c t ih =>
    have hc := printed_writeChar h8 past hplain.size c
    exact hc.trans (ih (hc.plain hplain))

/-- `redraw` prints one text. -/
theorem redraw_eq (past : List Byte) (rows : List Text) (o : Oled rawWidth rawHeight) :
    redraw past rows o =
      (o.clearDisplay.setTextCursor 0 0).print past (Terminal.rowsText rows) := by
  rw [redraw, Terminal.rowsText, print, run, List.flatMap, List.foldl_flatten, List.foldl_map]
  rfl

/-- Drawing all rows anew changes the buffer and the cursor only. -/
theorem printed_redraw (h8 : 8 ∣ rawHeight.toNat) (past : List Byte) (rows : List Text)
    {o : Oled rawWidth rawHeight} (hplain : Plain o) : Printed o (redraw past rows o) := by
  have hclear : Printed o (o.clearDisplay.setTextCursor 0 0) := ⟨_, _, _, rfl⟩
  rw [redraw_eq]
  exact hclear.trans (printed_print h8 past (hclear.plain hplain) _)

/-- The cleared screen is a blank terminal. -/
theorem shows_clear (past : List Byte) {o : Oled rawWidth rawHeight} (hplain : Plain o)
    (hw : 0 < o.width / 6) :
    Shows past (o.clearDisplay.setTextCursor 0 0)
      (Terminal.blank (Nat.succ_pos _) hw : Terminal (o.width / 6) cursorLines) where
  color := hplain.color
  background := hplain.background
  size := hplain.size
  wrap := hplain.wrap
  cols_eq := rfl
  cursorX := rfl
  cursorY := by
    show 0 = int16 (8 * (0 : ℕ))
    rw [int16_eq (by omega) (by omega)]
    rfl
  cells _ _ _ _ _ := Bitmap.pixel_clear o.buffer _ _ _
  margin _ _ _ _ _ := Bitmap.pixel_clear o.buffer _ _ _

/-- **Printed text is a terminal's.** On a display of whole pages and at least one column of
cells, in any rotation, a text printed after `clearDisplay` and `setTextCursor(0, 0)` shows
as on the blank terminal it is written to. -/
theorem print_shows_terminal (h8 : 8 ∣ rawHeight.toNat) (past : List Byte)
    {o : Oled rawWidth rawHeight} (hplain : Plain o) (hw : 0 < o.width / 6) (text : Text) :
    Shows past ((o.clearDisplay.setTextCursor 0 0).print past text)
      (text.foldl Terminal.write
        (Terminal.blank (Nat.succ_pos _) hw : Terminal (o.width / 6) cursorLines)) :=
  (shows_clear past hplain hw).print h8 text

/-- On the turned screen of the program, ten cells wide. -/
theorem print_shows_terminal_turned :
    let o := (new 128 64).setRotation 3
    Shows [] ((o.clearDisplay.setTextCursor 0 0).print [] (ascii "50.0 kg\rOK"))
      ((ascii "50.0 kg\rOK").foldl Terminal.write
        (Terminal.blank (Nat.succ_pos _) (by decide) : Terminal (o.width / 6) cursorLines)) :=
  print_shows_terminal (by decide) [] ⟨rfl, rfl, rfl, rfl⟩ (by decide) (ascii "50.0 kg\rOK")

/-- A char behind whole rows and the head `u` of one more, on a line of the screen, is drawn. -/
theorem not_clipped_row (h8 : 8 ∣ rawHeight.toNat) (past : List Byte) {rows : List Text}
    {u : Text} {o : Oled rawWidth rawHeight} (hplain : Plain o) (hw : 0 < o.width / 6)
    (hnl : ∀ row ∈ rows, chr '\n' ∉ row) (hlen : ∀ row ∈ rows, row.length < o.width / 6)
    (hu : chr '\n' ∉ u) (hulen : u.length < o.width / 6) (hrows : 8 * rows.length < o.height) :
    let o' := (o.clearDisplay.setTextCursor 0 0).print past (Terminal.rowsText rows ++ u)
    ¬o'.Clipped o'.cursorX o'.cursorY o'.textsize := by
  have hclear := shows_clear past hplain hw
  have hshows := hclear.print h8 (Terminal.rowsText rows ++ u)
  have hroom : rows.length < cursorLines := by
    have hle := o.extent_le.2
    show rows.length < 8192
    omega
  obtain ⟨hline, hcol⟩ := Terminal.cursor_rowsText hnl hlen
    (Terminal.blank (Nat.succ_pos _) hw : Terminal (o.width / 6) cursorLines) rfl
    (by rwa [Terminal.blank, Nat.zero_add])
  have hhere := (Terminal.write_row hu _ (by rw [hcol, Nat.zero_add]; exact hulen)).1
  obtain ⟨b, x, y, hpr⟩ := printed_print h8 past hclear.toPlain (Terminal.rowsText rows ++ u)
  rw [List.foldl_append] at hshows
  refine hshows.not_clipped ?_
  rw [hhere, hline, hpr]
  show 8 * (0 + rows.length) < o.height
  rwa [Nat.zero_add]

/-- Rows that each end before the last column stand under one another. -/
theorem pixel_redraw (h8 : 8 ∣ rawHeight.toNat) (past : List Byte) {rows : List Text}
    {o : Oled rawWidth rawHeight} (hplain : Plain o) (hw : 0 < o.width / 6)
    (hnl : ∀ row ∈ rows, chr '\n' ∉ row) (hlen : ∀ row ∈ rows, row.length < o.width / 6)
    (hrows : rows.length < cursorLines) {x y : ℕ} (hx : x < o.width) (hy : y < o.height) :
    (redraw past rows o).pixel x y =
      cellPixel past ((rows[y / 8]?).bind (rowCells · (x / 6))) (x % 6) (y % 8) := by
  have hshows := (shows_clear past hplain hw).print h8 (Terminal.rowsText rows)
  obtain ⟨b, cx, cy, hpr⟩ := printed_redraw h8 past rows hplain
  have hx' : x < (redraw past rows o).width := by rwa [hpr]
  have hy' : y < (redraw past rows o).height := by rwa [hpr]
  rw [← redraw_eq] at hshows
  by_cases hcol : x / 6 < o.width / 6
  · have hterm := Terminal.write_rowsText hnl hlen
      (Terminal.blank (Nat.succ_pos _) hw : Terminal (o.width / 6) cursorLines) rfl
      (fun _ _ => rfl) (by simpa [Terminal.blank] using hrows) (y / 8) (x / 6)
    rw [hshows.cells x y hx' hy' hcol, hterm]
    rfl
  · have hnone : (rows[y / 8]?).bind (rowCells · (x / 6)) = none := by
      rw [Option.bind_eq_none_iff]
      intro row hrow
      have := hlen row (List.mem_of_getElem? hrow)
      exact rowCells_none (by omega)
    rw [hshows.margin x y hx' hy' (Nat.le_of_not_lt hcol), hnone]
    rfl

end Oled

end WeightScale
