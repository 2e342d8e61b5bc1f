import Mathlib.Logic.Function.Basic
import Mathlib.Data.Nat.Notation
import WeightScale.Embedded.CString

/-!
# A terminal of cells

A terminal puts a char into the cell under its cursor and moves the cursor one column on,
from the last of its `cols` columns to the head of the next line. A line feed goes to the
head of the next line, a carriage return to the head of this one. The line is a counter of
`lines` values, which starts again at the first.
-/

set_option autoImplicit false

namespace Embedded

/-- The lines of a screen, each of `cols` columns, and the cursor. -/
structure Terminal (cols lines : ℕ) where
  cell : ℕ → ℕ → Option Byte
  line : ℕ
  col : ℕ
  line_lt : line < lines
  col_lt : col < cols

/-- The cells of one line and the cursor on it, after one more char that is no line feed. -/
def typeChar (row : ℕ × (ℕ → Option Byte)) (b : Byte) : ℕ × (ℕ → Option Byte) :=
  if b = chr '\r' then (0, row.2) else (row.1 + 1, Function.update row.2 row.1 (some b))

/-- What a line shows on an empty terminal: a carriage return starts over what is there. -/
def rowCells (t : Text) : ℕ → Option Byte := (t.foldl typeChar (0, fun _ => none)).2

/-- Typing leaves the columns behind the text empty. -/
theorem foldl_typeChar_none (t : Text) (row : ℕ × (ℕ → Option Byte)) {i : ℕ}
    (hrow : row.2 i = none) (hi : row.1 + t.length ≤ i) : (t.foldl typeChar row).2 i = none := by
  induction t generalizing row with
  | nil => exact hrow
  | cons b t ih =>
    rw [List.length_cons] at hi
    rw [List.foldl_cons]
    by_cases hb : b = chr '\r'
    · have hstep : typeChar row b = (0, row.2) := by rw [typeChar, if_pos hb]
      rw [hstep]
      exact ih (0, row.2) hrow (by omega)
    · have hstep : typeChar row b = (row.1 + 1, Function.update row.2 row.1 (some b)) := by
        rw [typeChar, if_neg hb]
      have hold : Function.update row.2 row.1 (some b) i = none := by
        rw [Function.update_of_ne (by omega), hrow]
      rw [hstep]
      exact ih (row.1 + 1, _) hold (by show row.1 + 1 + t.length ≤ i; omega)

/-- A line shows nothing behind the length of its text. -/
theorem rowCells_none {t : Text} {i : ℕ} (hi : t.length ≤ i) : rowCells t i = none :=
  foldl_typeChar_none t _ rfl (by omega)

namespace Terminal

variable {cols lines : ℕ}

/-- To the head of the next line. -/
def newline (t : Terminal cols lines) : Terminal cols lines where
  cell := t.cell
  line := (t.line + 1) % lines
  col := 0
  line_lt := Nat.mod_lt _ (Nat.zero_lt_of_lt t.line_lt)
  col_lt := Nat.zero_lt_of_lt t.col_lt

/-- To the head of this line. -/
def home (t : Terminal cols lines) : Terminal cols lines where
  cell := t.cell
  line := t.line
  col := 0
  line_lt := t.line_lt
  col_lt := Nat.zero_lt_of_lt t.col_lt

/-- The cell under the cursor, with `b` in it. -/
def fill (t : Terminal cols lines) (b : Byte) : Terminal cols lines :=
  { t with cell := fun l c => if l = t.line ∧ c = t.col then some b else t.cell l c }

/-- To the next cell. -/
def advance (t : Terminal cols lines) : Terminal cols lines :=
  if h : t.col + 1 < cols then { t with col := t.col + 1, col_lt := h } else t.newline

/-- A line feed, a carriage return, or a char to show at the cursor. -/
def write (t : Terminal cols lines) (b : Byte) : Terminal cols lines :=
  if b = chr '\n' then t.newline
  else if b = chr '\r' then t.home
  else (t.fill b).advance

/-- An empty terminal with the cursor at its head. -/
def blank (hl : 0 < lines) (hc : 0 < cols) : Terminal cols lines where
  cell := fun _ _ => none
  line := 0
  col := 0
  line_lt := hl
  col_lt := hc

/-- A text that ends before the last column stays on its line, which shows it typed over
what was there. -/
theorem write_row {row : Text} (hrow : chr '\n' ∉ row) (t : Terminal cols lines)
    (hlen : t.col + row.length < cols) :
    (row.foldl write t).line = t.line ∧
    ((row.foldl write t).col, (row.foldl write t).cell t.line) =
      row.foldl typeChar (t.col, t.cell t.line) ∧
    ∀ l, l ≠ t.line → (row.foldl write t).cell l = t.cell l := by
  induction row generalizing t with
  | nil => exact ⟨rfl, rfl, fun _ _ => rfl⟩
  | cons b row ih =>
    rw [List.mem_cons, not_or] at hrow
    rw [List.length_cons] at hlen
    have hstep : (t.write b).line = t.line ∧ (t.write b).col ≤ t.col + 1 ∧
        ((t.write b).col, (t.write b).cell t.line) = typeChar (t.col, t.cell t.line) b ∧
        ∀ l, l ≠ t.line → (t.write b).cell l = t.cell l := by
      rw [write, if_neg (Ne.symm hrow.1), typeChar]
      by_cases hr : b = chr '\r'
      · rw [if_pos hr, if_pos hr]
        exact ⟨rfl, Nat.zero_le _, rfl, fun _ _ => rfl⟩
      · have hcol : (t.fill b).col + 1 < cols := by
          show t.col + 1 < cols
          omega
        rw [if_neg hr, if_neg hr, advance, dif_pos hcol]
        refine ⟨rfl, Nat.le_refl _, Prod.ext rfl (funext fun c => ?_), fun l hl => ?_⟩
        · by_cases hc : c = t.col <;> simp [fill, hc]
        · funext c
          simp [fill, hl]
    obtain ⟨hline, hcol, hcells, hrest⟩ := hstep
    obtain ⟨ihline, ihcells, ihrest⟩ := ih hrow.2 (t.write b) (by omega)
    rw [hline] at ihline ihcells ihrest
    rw [List.foldl_cons, List.foldl_cons]
    refine ⟨ihline, by rw [ihcells, hcells], fun l hl => ?_⟩
    rw [ihrest l hl, hrest l hl]

/-- Rows under one another, each with its line feed. -/
def rowsText (rows : List Text) : Text := rows.flatMap fun row => row ++ [chr '\n']

/-- The text of rows is a row and its newline, then the rest. -/
theorem rowsText_cons (row : Text) (rows : List Text) :
    rowsText (row :: rows) = (row ++ [chr '\n']) ++ rowsText rows := List.flatMap_cons

/-- A row leaves the cursor at the head of the next line. -/
theorem write_row_newline {row : Text} (hrow : chr '\n' ∉ row) (t : Terminal cols lines)
    (hlen : t.col + row.length < cols) (hroom : t.line + 1 < lines) :
    ∃ t' : Terminal cols lines, (row ++ [chr '\n']).foldl write t = t' ∧
      t'.line = t.line + 1 ∧ t'.col = 0 ∧ t'.cell = (row.foldl write t).cell := by
  refine ⟨(row.foldl write t).newline, by rw [List.foldl_append]; rfl, ?_, rfl, rfl⟩
  show ((row.foldl write t).line + 1) % lines = t.line + 1
  rw [(write_row hrow t hlen).1, Nat.mod_eq_of_lt hroom]

/-- Rows move the cursor down a line each. -/
theorem cursor_rowsText {rows : List Text} (hrows : ∀ row ∈ rows, chr '\n' ∉ row)
    (hlen : ∀ row ∈ rows, row.length < cols) (t : Terminal cols lines) (hcol : t.col = 0)
    (hroom : t.line + rows.length < lines) :
    ((rowsText rows).foldl write t).line = t.line + rows.length ∧
      ((rowsText rows).foldl write t).col = 0 := by
  induction rows generalizing t with
  | nil => exact ⟨rfl, hcol⟩
  | cons row rows ih =>
    rw [List.forall_mem_cons] at hrows hlen
    rw [List.length_cons] at hroom ⊢
    obtain ⟨t', ht', hline, hcol', -⟩ :=
      write_row_newline hrows.1 t (by rw [hcol]; omega) (by omega)
    rw [rowsText_cons, List.foldl_append, ht']
    have := ih hrows.2 hlen.2 t' hcol' (by omega)
    omega

/-- **Rows on a terminal.** From the head of a line with nothing below it, rows that end
before the last column take one line each. -/
theorem write_rowsText {rows : List Text} (hrows : ∀ row ∈ rows, chr '\n' ∉ row)
    (hlen : ∀ row ∈ rows, row.length < cols) (t : Terminal cols lines) (hcol : t.col = 0)
    (hempty : ∀ l, t.line ≤ l → t.cell l = fun _ => none)
    (hroom : t.line + rows.length < lines) (l c : ℕ) :
    ((rowsText rows).foldl write t).cell l c =
      if l < t.line then t.cell l c else (rows[l - t.line]?).bind (rowCells · c) := by
  induction rows generalizing t with
  | nil =>
    by_cases hl : l < t.line
    · simp [rowsText, hl]
    · simp [rowsText, hl, hempty l (by omega)]
  | cons row rows ih =>
    rw [List.forall_mem_cons] at hrows hlen
    rw [List.length_cons] at hroom
    have hfit : t.col + row.length < cols := by
      rw [hcol]
      omega
    obtain ⟨-, hcells, hrest⟩ := write_row hrows.1 t hfit
    obtain ⟨t', ht', hline, hcol', hcell⟩ := write_row_newline hrows.1 t hfit (by omega)
    have hhere : (row.foldl write t).cell t.line = rowCells row := by
      rw [hcol, hempty t.line (Nat.le_refl _)] at hcells
      rw [rowCells, ← hcells]
    have hbelow : ∀ l, t'.line ≤ l → t'.cell l = fun _ => none := by
      intro l hl
      rw [hcell, hrest l (by omega), hempty l (by omega)]
    rw [rowsText_cons, List.foldl_append, ht',
      ih hrows.2 hlen.2 t' hcol' hbelow (by omega), hline, hcell]
    by_cases hlt : l < t.line
    · rw [if_pos (by omega), if_pos hlt, hrest l (by omega)]
    · rw [if_neg hlt]
      by_cases heq : l = t.line
      · subst heq
        rw [if_pos (by omega), Nat.sub_self, List.getElem?_cons_zero, Option.bind_some, ← hhere]
      · have hsub : l - t.line = l - (t.line + 1) + 1 := by omega
        rw [if_neg (by omega), hsub, List.getElem?_cons_succ]

end Terminal

end Embedded
