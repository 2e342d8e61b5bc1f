import WeightScale.Model.I2CComm

/-!
# The slaves on the bus

What the user sees of the program is what the slaves make of the writes they receive: the
angle of the servo, the rotating lamp with its duty and its light, and the texts on the LED
display. None of the slaves is in the repository. The display is assumed to apply each
write atomically and in bus order: `fillRect` clears a band, `setCursor` and
`setTextColor` set its cursor and colour, and `print` draws at the cursor. Where a print
leaves the cursor is the parameter `advance`; nothing below depends on it.
-/

set_option autoImplicit false

namespace WeightScale

open Embedded

/-! ## The display -/

/-- A command of the display, as it reads the bytes of one write. -/
inductive LedCmd where
  | print (t : Text)
  | setCursor (x y : ℕ)
  | fillRect (y h : ℕ)
  | setTextColor (rgb : List Byte)
  | other
deriving DecidableEq

/-- The command the bytes of a transfer spell. -/
def LedCmd.decode : List Byte → LedCmd
  | [] => .other
  | cmd :: args =>
    if cmd = cmdPrint then .print (cstr args)
    else if cmd = cmdSetCursor then
      match args with
      | [x, y] => .setCursor x.toNat y.toNat
      | _ => .other
    else if cmd = cmdFillRect then
      match args with
      | _ :: y :: _ :: h :: _ => .fillRect y.toNat h.toNat
      | _ => .other
    else if cmd = cmdSetTextColorByte then .setTextColor args
    else .other

/-- A text on the display: the pixel it starts at, its colour, its bytes. -/
structure Mark where
  x : ℕ
  y : ℕ
  colour : List Byte
  text : Text
deriving DecidableEq

/-- The LED display: its cursor, its text colour, and the texts drawn and not cleared
since, in the order they were drawn. -/
structure Display where
  cursor : ℕ × ℕ := (0, 0)
  colour : List Byte := []
  marks : List Mark := []
deriving DecidableEq

/-- An update of a line: the line and the text it is to show. -/
structure Update where
  line : ℕ
  text : Text
deriving DecidableEq

/-- The commands of an update: clear, set cursor, set colour, print. -/
def Update.cmds (u : Update) : List LedCmd :=
  [.fillRect (8 * u.line) 8, .setCursor 0 (8 * u.line), .setTextColor [0, 15, 0], .print u.text]

/-- The line a command moves the cursor to. -/
def LedCmd.line : LedCmd → Option ℕ
  | .setCursor _ y => some (y / 8)
  | _ => none

/-- How a print moves the cursor. -/
abbrev Advance := Text → ℕ × ℕ → ℕ × ℕ

namespace Display

/-- The effect of one command. -/
def apply (advance : Advance) (s : Display) : LedCmd → Display
  | .print t =>
    { s with
      cursor := advance t s.cursor
      marks := s.marks ++ [⟨s.cursor.1, s.cursor.2, s.colour, t⟩] }
  | .setCursor x y => { s with cursor := (x, y) }
  | .fillRect y h => { s with marks := s.marks.filter fun m => !(y ≤ m.y ∧ m.y < y + h) }
  | .setTextColor rgb => { s with colour := rgb }
  | .other => s

/-- The texts on a line of eight pixels, oldest first. A line that is in order shows one. -/
def line (s : Display) (l : ℕ) : List Text :=
  (s.marks.filter fun m => m.y / 8 = l).map Mark.text

/-- The line the cursor is on. -/
def cursorLine (s : Display) : ℕ := s.cursor.2 / 8

variable (advance : Advance) (s : Display)

/-- Clearing the band of a line empties that line and no other. -/
theorem line_apply_fillRect (l k : ℕ) :
    (s.apply advance (.fillRect (8 * l) 8)).line k = if k = l then [] else s.line k := by
  simp only [apply, line, List.filter_filter]
  split
  · rename_i hk
    rw [List.map_eq_nil_iff, List.filter_eq_nil_iff]
    intro m _
    simp
    omega
  · rename_i hk
    congr 1
    apply List.filter_congr
    intro m _
    by_cases hm : m.y / 8 = k <;> simp [hm]
    omega

/-- The cursor command changes no line. -/
@[simp] theorem line_apply_setCursor (x y k : ℕ) :
    (s.apply advance (.setCursor x y)).line k = s.line k := rfl

/-- The colour command changes no line. -/
@[simp] theorem line_apply_setTextColor (rgb : List Byte) (k : ℕ) :
    (s.apply advance (.setTextColor rgb)).line k = s.line k := rfl

/-- A print adds its text to the line the cursor is on. -/
theorem line_apply_print (t : Text) (k : ℕ) :
    (s.apply advance (.print t)).line k = s.line k ++ if k = s.cursorLine then [t] else [] := by
  by_cases h : s.cursor.2 / 8 = k
  · simp [apply, line, cursorLine, h]
  · simp [apply, line, cursorLine, h, Ne.symm h]

/-- Clearing moves no cursor. -/
@[simp] theorem cursorLine_apply_fillRect (y h : ℕ) :
    (s.apply advance (.fillRect y h)).cursorLine = s.cursorLine := rfl

/-- The cursor command moves the cursor to its line. -/
theorem cursorLine_apply_setCursor (x l : ℕ) :
    (s.apply advance (.setCursor x (8 * l))).cursorLine = l := by
  simp [apply, cursorLine]

/-- The colour command moves no cursor. -/
@[simp] theorem cursorLine_apply_setTextColor (rgb : List Byte) :
    (s.apply advance (.setTextColor rgb)).cursorLine = s.cursorLine := rfl

end Display

/-- The text the display gets of a print command. -/
def printedText (t : Text) : Text := cstr (Io.printCommand t).tail

/-! ## All slaves -/

/-- The registers of the slaves and the cursor and lines of the display. -/
structure Panel where
  servo : Option Byte := none
  duty : Option Byte := none
  lamp : Option Byte := none
  display : Display := {}
deriving DecidableEq

/-- The effect of one event of the program on the slaves. -/
def Panel.step (advance : Advance) (p : Panel) : Event → Panel
  | .write address data =>
    if address = servoAddr then
      match data with
      | [_, _, angle, _] => { p with servo := some angle }
      | _ => p
    else if address = kaitenAddr then
      match data with
      | [cmd, arg] => if cmd = 0x01 then { p with duty := some arg } else { p with lamp := some arg }
      | _ => p
    else if address = ledAddr then
      { p with display := p.display.apply advance (LedCmd.decode data) }
    else p
  | _ => p

/-- The slaves after everything the program has done. -/
def Io.panel (advance : Advance) (io : Io) : Panel := io.log.foldl (Panel.step advance) {}

/-- The command an event sends to the display. -/
def Event.led : Event → Option LedCmd
  | .write address data => if address = ledAddr then some (LedCmd.decode data) else none
  | _ => none

/-- The commands the program has sent to the display. -/
def Io.leds (io : Io) : List LedCmd := io.log.filterMap Event.led

/-- The calls the program has made. -/
def Io.calls (io : Io) : List Call :=
  io.log.filterMap fun
    | .call f => some f
    | _ => none

/-- Lamp and servo have addresses of their own. -/
@[simp] theorem kaitenAddr_ne_servoAddr : ¬ kaitenAddr = servoAddr := by decide

/-- Display and servo have addresses of their own. -/
@[simp] theorem ledAddr_ne_servoAddr : ¬ ledAddr = servoAddr := by decide

/-- Display and lamp have addresses of their own. -/
@[simp] theorem ledAddr_ne_kaitenAddr : ¬ ledAddr = kaitenAddr := by decide

namespace Io

variable (advance : Advance) (io : Io)

/-- What stands on a line of the display. -/
def shown (l : ℕ) : List Text := (io.panel advance).display.line l

/-- One event changes the panel as it says. -/
theorem panel_emit (e : Event) :
    (io.emit e).panel advance = (io.panel advance).step advance e := by
  simp [panel, emit]

/-- One event adds the display command it is, if it is one. -/
theorem leds_emit (e : Event) : (io.emit e).leds = io.leds ++ e.led.toList := by
  cases h : e.led <;> simp [leds, emit, h]

/-- A write to the display leaves the other slaves alone. -/
theorem panel_write_led (data : List Byte) :
    (io.write ledAddr data).panel advance =
      { io.panel advance with
        display := (io.panel advance).display.apply advance (LedCmd.decode data) } := by
  simp [write, panel_emit, Panel.step]

/-- The servo command sets the angle. -/
@[simp] theorem panel_cmdServo (angle speed : Byte) :
    (io.cmdServo angle speed).panel advance = { io.panel advance with servo := some angle } := by
  simp [cmdServo, write, panel_emit, Panel.step]

/-- The duty command sets the duty. -/
@[simp] theorem panel_cmdKaiten (duty : Byte) :
    (io.cmdKaiten duty).panel advance = { io.panel advance with duty := some duty } := by
  simp [cmdKaiten, write, panel_emit, Panel.step]

/-- The lamp command sets the lamp. -/
@[simp] theorem panel_cmdLamp (lamp : Bool) :
    (io.cmdLamp lamp).panel advance =
      { io.panel advance with lamp := some (if lamp then 1 else 0) } := by
  simp [cmdLamp, write, panel_emit, Panel.step]

/-! ## Display commands -/

/-- The command that clears a line decodes to its eight pixels. -/
theorem decode_cmdClearLine {l : Byte} (hl : l.toNat < 32) :
    LedCmd.decode [cmdFillRect, 0, l * 8, 64, 8, 0, 0, 0] = .fillRect (8 * l.toNat) 8 := by
  have hy : (l * 8).toNat = 8 * l.toNat := by simp [UInt8.toNat_mul]; omega
  simp [LedCmd.decode, cmdFillRect, cmdPrint, cmdSetCursor, hy]

/-- The command that sets a line decodes to its cursor. -/
theorem decode_cmdSetLine {l : Byte} (hl : l.toNat < 32) :
    LedCmd.decode [cmdSetCursor, 0, l * 8] = .setCursor 0 (8 * l.toNat) := by
  have hy : (l * 8).toNat = 8 * l.toNat := by simp [UInt8.toNat_mul]; omega
  simp [LedCmd.decode, cmdPrint, cmdSetCursor, hy]

/-- The colour command decodes to its colour. -/
theorem decode_cmdSetTextColor (r g b : Byte) :
    LedCmd.decode [cmdSetTextColorByte, r, g, b] = .setTextColor [r, g, b] := by
  simp [LedCmd.decode, cmdPrint, cmdSetCursor, cmdFillRect, cmdSetTextColorByte]

/-- The print command decodes to the chars its length byte counts. -/
theorem decode_printCommand (t : Text) :
    LedCmd.decode (printCommand t) = .print (printedText t) := by
  simp [LedCmd.decode, printCommand, printedText]

end Io

end WeightScale
