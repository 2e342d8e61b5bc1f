import WeightScale.Model.Main
import WeightScale.Interface.Panel

/-!
# What the functions of the program do to the outside

`seen` is the part of the outside that the properties of the lock are about: the calls
made, the slaves on the bus, and the alarm timer. Text that goes to the serial port, the
OLED or the network is not part of it, so `printf2` and the body of a request function
leave it unchanged, and each function that drives the panel has one equation saying what
it does to it.
-/

set_option autoImplicit false

namespace WeightScale

open Embedded

/-- The part of the outside that is followed here: the calls, the commands to the display,
the slaves, and the alarm. -/
structure Seen where
  calls : List Call
  leds : List LedCmd
  panel : Panel
  alarm : Alarm

namespace Seen

variable (advance : Advance)

def call (f : Call) (s : Seen) : Seen := { s with calls := s.calls ++ [f] }

/-- Calls made one after another. -/
def callAll (cs : List Call) (s : Seen) : Seen := { s with calls := s.calls ++ cs }

def servo (angle : Byte) (s : Seen) : Seen := { s with panel := { s.panel with servo := angle } }

def kaiten (duty : Byte) (s : Seen) : Seen := { s with panel := { s.panel with duty := duty } }

def lamp (on : Bool) (s : Seen) : Seen :=
  { s with panel := { s.panel with lamp := some (if on then 1 else 0) } }

/-- A display command. -/
def led (cmd : LedCmd) (s : Seen) : Seen :=
  { s with
    leds := s.leds ++ [cmd]
    panel := { s.panel with display := s.panel.display.apply advance cmd } }

def attach (s : Seen) : Seen :=
  { s with alarm :=
    { s.alarm with attached := s.alarm.attached + 1, timeout1 := some s.alarm.attached } }

/-- A whole line update: clear, cursor, colour, text. -/
def update (l : ℕ) (t : Text) (s : Seen) : Seen :=
  s |>.led advance (.fillRect (8 * l) 8)
    |>.led advance (.setCursor 0 (8 * l))
    |>.led advance (.setTextColor [0, 15, 0])
    |>.led advance (.print t)

/-- What stands on a line of the display. -/
def shown (s : Seen) (l : ℕ) : List Text := s.panel.display.line l

/-! Each of these changes one thing. -/

section fields

variable (s : Seen)

@[simp] theorem calls_call (f : Call) : (s.call f).calls = s.calls ++ [f] := rfl
@[simp] theorem calls_callAll (cs : List Call) : (s.callAll cs).calls = s.calls ++ cs := rfl
@[simp] theorem calls_servo (angle : Byte) : (s.servo angle).calls = s.calls := rfl
@[simp] theorem calls_kaiten (duty : Byte) : (s.kaiten duty).calls = s.calls := rfl
@[simp] theorem calls_lamp (on : Bool) : (s.lamp on).calls = s.calls := rfl
@[simp] theorem calls_attach : (s.attach).calls = s.calls := rfl
@[simp] theorem calls_update (l : ℕ) (t : Text) : (s.update advance l t).calls = s.calls := rfl

/-- A line update sends its commands in their order. -/
@[simp] theorem leds_call (f : Call) : (s.call f).leds = s.leds := rfl
@[simp] theorem leds_callAll (cs : List Call) : (s.callAll cs).leds = s.leds := rfl
@[simp] theorem leds_servo (angle : Byte) : (s.servo angle).leds = s.leds := rfl
@[simp] theorem leds_kaiten (duty : Byte) : (s.kaiten duty).leds = s.leds := rfl
@[simp] theorem leds_lamp (on : Bool) : (s.lamp on).leds = s.leds := rfl
@[simp] theorem leds_attach : (s.attach).leds = s.leds := rfl
@[simp] theorem leds_update (l : ℕ) (t : Text) :
    (s.update advance l t).leds = s.leds ++ Update.cmds ⟨l, t⟩ := by
  simp [update, led, Update.cmds]

@[simp] theorem servo_call (f : Call) : (s.call f).panel.servo = s.panel.servo := rfl
@[simp] theorem servo_callAll (cs : List Call) : (s.callAll cs).panel.servo = s.panel.servo := rfl
@[simp] theorem servo_servo (angle : Byte) : (s.servo angle).panel.servo = some angle := rfl
@[simp] theorem servo_kaiten (duty : Byte) : (s.kaiten duty).panel.servo = s.panel.servo := rfl
@[simp] theorem servo_lamp (on : Bool) : (s.lamp on).panel.servo = s.panel.servo := rfl
@[simp] theorem servo_attach : (s.attach).panel.servo = s.panel.servo := rfl
@[simp] theorem servo_update (l : ℕ) (t : Text) : (s.update advance l t).panel.servo = s.panel.servo := rfl

@[simp] theorem lamp_call (f : Call) : (s.call f).panel.lamp = s.panel.lamp := rfl
@[simp] theorem lamp_callAll (cs : List Call) : (s.callAll cs).panel.lamp = s.panel.lamp := rfl
@[simp] theorem lamp_servo (angle : Byte) : (s.servo angle).panel.lamp = s.panel.lamp := rfl
@[simp] theorem lamp_kaiten (duty : Byte) : (s.kaiten duty).panel.lamp = s.panel.lamp := rfl
@[simp] theorem lamp_lamp (on : Bool) : (s.lamp on).panel.lamp = some (if on then 1 else 0) := rfl
@[simp] theorem lamp_attach : (s.attach).panel.lamp = s.panel.lamp := rfl
@[simp] theorem lamp_update (l : ℕ) (t : Text) : (s.update advance l t).panel.lamp = s.panel.lamp := rfl

@[simp] theorem duty_call (f : Call) : (s.call f).panel.duty = s.panel.duty := rfl
@[simp] theorem duty_callAll (cs : List Call) : (s.callAll cs).panel.duty = s.panel.duty := rfl
@[simp] theorem duty_servo (angle : Byte) : (s.servo angle).panel.duty = s.panel.duty := rfl
@[simp] theorem duty_kaiten (duty : Byte) : (s.kaiten duty).panel.duty = some duty := rfl
@[simp] theorem duty_lamp (on : Bool) : (s.lamp on).panel.duty = s.panel.duty := rfl
@[simp] theorem duty_attach : (s.attach).panel.duty = s.panel.duty := rfl
@[simp] theorem duty_update (l : ℕ) (t : Text) : (s.update advance l t).panel.duty = s.panel.duty := rfl

@[simp] theorem alarm_call (f : Call) : (s.call f).alarm = s.alarm := rfl
@[simp] theorem alarm_callAll (cs : List Call) : (s.callAll cs).alarm = s.alarm := rfl
@[simp] theorem alarm_servo (angle : Byte) : (s.servo angle).alarm = s.alarm := rfl
@[simp] theorem alarm_kaiten (duty : Byte) : (s.kaiten duty).alarm = s.alarm := rfl
@[simp] theorem alarm_lamp (on : Bool) : (s.lamp on).alarm = s.alarm := rfl
@[simp] theorem alarm_update (l : ℕ) (t : Text) : (s.update advance l t).alarm = s.alarm := rfl

/-- An attach replaces the running timeout by a new one. -/
@[simp] theorem shown_call (f : Call) (k : ℕ) : (s.call f).shown k = s.shown k := rfl
@[simp] theorem shown_callAll (cs : List Call) (k : ℕ) : (s.callAll cs).shown k = s.shown k := rfl
@[simp] theorem shown_servo (angle : Byte) (k : ℕ) : (s.servo angle).shown k = s.shown k := rfl
@[simp] theorem shown_kaiten (duty : Byte) (k : ℕ) : (s.kaiten duty).shown k = s.shown k := rfl
@[simp] theorem shown_lamp (on : Bool) (k : ℕ) : (s.lamp on).shown k = s.shown k := rfl
@[simp] theorem shown_attach (k : ℕ) : (s.attach).shown k = s.shown k := rfl
@[simp] theorem alarm_attach :
    s.attach.alarm =
      { s.alarm with attached := s.alarm.attached + 1, timeout1 := some s.alarm.attached } := rfl

/-- A callback that is absent calls nothing. -/
@[simp] theorem callAll_nil : s.callAll [] = s := by simp [callAll]

@[simp] theorem callAll_singleton (f : Call) : s.callAll [f] = s.call f := rfl

end fields

/-- **A line update** leaves its text alone on its line and every other line as it was. -/
@[simp] theorem shown_update (l : ℕ) (t : Text) (s : Seen) (k : ℕ) :
    (s.update advance l t).shown k = if k = l then [t] else s.shown k := by
  simp only [shown, update, led]
  rw [Display.line_apply_print, Display.line_apply_setTextColor, Display.line_apply_setCursor,
    Display.line_apply_fillRect, Display.cursorLine_apply_setTextColor,
    Display.cursorLine_apply_setCursor]
  split <;> simp

end Seen

/-- A text event is one the panel does not see. -/
def Event.isText : Event → Bool
  | .call _ => false
  | .write _ _ => false
  | _ => true

namespace Io

variable (advance : Advance) (net : Net) (io : Io)

/-- What the devices and the callers see of the world outside. -/
def seen : Seen := ⟨io.calls, io.leds, io.panel advance, io.alarm⟩

/-- Only a call adds to the calls. -/
theorem calls_emit (e : Event) :
    (io.emit e).calls = io.calls ++ (match e with | .call f => [f] | _ => []) := by
  cases e <;> simp [calls, emit]

/-- An event about text is not seen on the devices. -/
theorem seen_emit_text {e : Event} (h : e.isText = true) :
    (io.emit e).seen advance = io.seen advance := by
  cases e with
  | call | write => simp [Event.isText] at h
  | fill | serial | oled | http =>
    simp [seen, calls_emit, leds_emit, Event.led, panel_emit, Panel.step]; rfl

/-- Filling a buffer is not seen on the devices. -/
@[simp] theorem seen_sprintf (dst : TextBuffer) (t : Text) :
    (io.sprintf dst t).seen advance = io.seen advance := seen_emit_text advance io rfl

/-- Putting a token into its row is not seen on the devices. -/
theorem seen_putToken (tok : Text) : (io.putToken tok).seen advance = io.seen advance :=
  seen_sprintf advance io .oledRow tok

/-- Printing on the display is not seen on the slaves. -/
theorem seen_printOled (t : Text) : (io.printOled t).seen advance = io.seen advance := by
  have hfold : ∀ (toks : List Text) (io : Io),
      (toks.foldl putToken io).seen advance = io.seen advance := by
    intro toks
    induction toks with
    | nil => intro io; rfl
    | cons tok toks ih =>
      intro io
      rw [List.foldl_cons, ih, seen_putToken]
  rw [printOled, seen_emit_text advance _ rfl, hfold]

/-- Printing on the console and the display is not seen on the slaves. -/
@[simp] theorem seen_printf2 (t : Text) : (io.printf2 t).seen advance = io.seen advance := by
  rw [printf2, seen_printOled, seen_emit_text advance _ rfl, seen_sprintf]

/-- Fetching a URL shows on the network and in the log only. -/
@[simp] theorem seen_httpGet (url : Text) :
    (io.httpGet net url).seen advance = io.seen advance := by
  have hnew : ∀ (io : Io) (e : Event) (n : ℕ), e.isText = true →
      ({ io.emit e with requests := n }).seen advance = io.seen advance :=
    fun io e n h => seen_emit_text advance io h
  unfold httpGet
  dsimp only
  split
  · rw [seen_printf2, seen_emit_text advance _ rfl, seen_emit_text advance _ rfl,
      hnew _ _ _ rfl, seen_printf2, seen_printf2, seen_sprintf]
  · rw [seen_emit_text advance _ rfl, seen_printf2, seen_emit_text advance _ rfl, seen_printf2,
      seen_emit_text advance _ rfl, hnew _ _ _ rfl, seen_printf2, seen_printf2, seen_sprintf]

/-- The start of the network is not seen on the slaves. -/
theorem seen_wifiInit (wifi : Wifi) : (io.wifiInit wifi).seen advance = io.seen advance := by
  unfold wifiInit
  dsimp only
  split <;> simp only [seen_printf2]

/-! ## Commands -/

/-- A call is seen as itself. -/
@[simp] theorem seen_call (f : Call) : (io.call f).seen advance = (io.seen advance).call f := by
  simp [seen, call, calls_emit, leds_emit, Event.led, panel_emit, Panel.step, Seen.call]; rfl

/-- A write to another slave than the display shows on the panel only. -/
theorem seen_write {address : Byte} (h : address ≠ ledAddr) (data : List Byte) :
    (io.write address data).seen advance =
      { io.seen advance with panel := (io.write address data).panel advance } := by
  simp [seen, write, calls_emit, leds_emit, Event.led, h]; rfl

/-- A servo command moves the servo. -/
@[simp] theorem seen_cmdServo (angle speed : Byte) :
    (io.cmdServo angle speed).seen advance = (io.seen advance).servo angle := by
  rw [cmdServo, seen_write advance io (by decide), ← cmdServo, panel_cmdServo]; rfl

/-- A lamp command sets the lamp. -/
@[simp] theorem seen_cmdLamp (on : Bool) :
    (io.cmdLamp on).seen advance = (io.seen advance).lamp on := by
  rw [cmdLamp, seen_write advance io (by decide), ← cmdLamp, panel_cmdLamp]; rfl

/-- The command of the rotating lamp sets the duty, then the lamp. -/
@[simp] theorem seen_cmdKaitenLamp (duty : Byte) (on : Bool) :
    (io.cmdKaitenLamp duty on).seen advance = ((io.seen advance).kaiten duty).lamp on := by
  rw [cmdKaitenLamp, seen_cmdLamp, cmdKaiten, seen_write advance io (by decide), ← cmdKaiten, panel_cmdKaiten]; rfl

@[simp] theorem seen_attach : io.attach.seen advance = (io.seen advance).attach := rfl

/-- A transfer to the display slave is seen as the command it decodes to. -/
theorem seen_write_led (data : List Byte) :
    (io.write ledAddr data).seen advance = (io.seen advance).led advance (.decode data) := by
  simp [seen, panel_write_led, Seen.led]
  simp [write, calls_emit, leds_emit, Event.led]
  rfl

/-- Setting a line clears its eight pixels and puts the cursor at its start. -/
theorem seen_cmdSetLine {l : Byte} (hl : l.toNat < 32) :
    (io.cmdSetLine l).seen advance =
      ((io.seen advance).led advance (.fillRect (8 * l.toNat) 8)).led advance
        (.setCursor 0 (8 * l.toNat)) := by
  rw [cmdSetLine, cmdClearLine, seen_write_led, seen_write_led, decode_cmdClearLine hl,
    decode_cmdSetLine hl]

/-- The colour command is seen as itself. -/
theorem seen_cmdSetTextColor (r g b : Byte) :
    (io.cmdSetTextColor r g b).seen advance =
      (io.seen advance).led advance (.setTextColor [r, g, b]) := by
  rw [cmdSetTextColor, seen_write_led, decode_cmdSetTextColor]

/-- A print command is seen with the chars its length byte counts. -/
theorem seen_printStr (t : Text) :
    (io.printStr t).seen advance = (io.seen advance).led advance (.print (printedText t)) := by
  rw [printStr, cmdPrintText, seen_write_led, decode_printCommand, seen_sprintf, seen_sprintf]

/-- The lines of `com_main` are updated in one go. -/
theorem seen_showLine {l : Byte} (hl : l.toNat < 32) (t : Text) :
    (((io.cmdSetLine l).cmdSetTextColor 0 15 0).printStr t).seen advance =
      (io.seen advance).update advance l.toNat (printedText t) := by
  rw [seen_printStr, seen_cmdSetTextColor, seen_cmdSetLine advance io hl]; rfl

/-! ## State callbacks and alarm -/

/-- INIT starts without an effect. -/
theorem seen_initInit : io.initInit.seen advance = (io.seen advance).call .initInit := by
  simp [initInit]

/-- INIT ends without an effect. -/
theorem seen_initEnd : io.initEnd.seen advance = (io.seen advance).call .initEnd := by
  simp [initEnd]

/-- `LOCKED_init` stops and darkens the rotating lamp, then closes the servo and writes the row. -/
theorem seen_lockedInit :
    (io.lockedInit net).seen advance =
      (io.seen advance |>.call .lockedInit |>.kaiten 0 |>.lamp false |>.servo 150
        |>.update advance 3 (ascii "LOCKED\n") |>.call .notifyLocked) := by
  have ht : printedText (ascii "LOCKED\n") = ascii "LOCKED\n" := by decide
  simp [lockedInit, notifyLocked, seen_showLine advance _ (l := 3) (by decide), ht]

/-- LOCKED ends without an effect. -/
theorem seen_lockedEnd : io.lockedEnd.seen advance = (io.seen advance).call .lockedEnd := by
  simp [lockedEnd]

/-- `UNLOCKED_init` opens the servo and writes the row. -/
theorem seen_unlockedInit :
    (io.unlockedInit net).seen advance =
      (io.seen advance |>.call .unlockedInit |>.servo 70
        |>.update advance 3 (ascii "UNLOCKED\n") |>.call .notifyUnlocked) := by
  have ht : printedText (ascii "UNLOCKED\n") = ascii "UNLOCKED\n" := by decide
  simp [unlockedInit, notifyUnlocked, seen_showLine advance _ (l := 3) (by decide), ht]

/-- UNLOCKED ends without an effect. -/
theorem seen_unlockedEnd : io.unlockedEnd.seen advance = (io.seen advance).call .unlockedEnd := by
  simp [unlockedEnd]

/-- `kaiten_stop` stops and darkens the rotating lamp and writes `LOCKED`. -/
theorem seen_kaitenStop :
    io.kaitenStop.seen advance =
      (io.seen advance |>.call .kaitenStop |>.kaiten 0 |>.lamp false
        |>.update advance 3 (ascii "LOCKED\n")) := by
  have ht : printedText (ascii "LOCKED\n") = ascii "LOCKED\n" := by decide
  simp [kaitenStop, seen_showLine advance _ (l := 3) (by decide), ht]

/-- The status line and the notifications of a failed attempt. -/
def failureText (pattern : Byte) : Text :=
  if pattern = 0 then ascii "INCORRECT\n"
  else if pattern = 1 then ascii "INITIAL\n"
  else ascii "DO DIET\n"

/-- The calls a refused entry adds. -/
def failureCalls (pattern : Byte) : List Call :=
  if pattern = 0 then [.notifyUnlockFailedInvalidPass]
  else if pattern = 1 then []
  else [.notifyUnlockFailedDoDiet]

/-- `unlock_failed` turns the lamp, attaches the timeout and writes the reason. -/
theorem seen_unlockFailed {pattern : Byte} (h : pattern = 0 ∨ pattern = 1 ∨ pattern = 2) :
    (io.unlockFailed net pattern).seen advance =
      (io.seen advance |>.call (.unlockFailed pattern) |>.kaiten 50 |>.lamp true |>.attach
        |>.update advance 3 (failureText pattern) |>.callAll (failureCalls pattern)) := by
  have h₀ : printedText (ascii "INCORRECT\n") = ascii "INCORRECT\n" := by decide
  have h₁ : printedText (ascii "INITIAL\n") = ascii "INITIAL\n" := by decide
  have h₂ : printedText (ascii "DO DIET\n") = ascii "DO DIET\n" := by decide
  rcases h with rfl | rfl | rfl
  · simp [unlockFailed, notifyUnlockFailedInvalidPass, seen_printStr, seen_cmdSetTextColor,
      seen_cmdSetLine advance _ (l := 3) (by decide), failureText, failureCalls, h₀]
    rfl
  · simp [unlockFailed, seen_printStr, seen_cmdSetTextColor,
      seen_cmdSetLine advance _ (l := 3) (by decide), failureText, failureCalls, h₁]
    rfl
  · simp [unlockFailed, notifyUnlockFailedDoDiet, seen_printStr, seen_cmdSetTextColor,
      seen_cmdSetLine advance _ (l := 3) (by decide), failureText, failureCalls, h₂]
    rfl

end Io

end WeightScale
