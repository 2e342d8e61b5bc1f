import WeightScale.Embedded.Bitmap
import WeightScale.Embedded.Run
import WeightScale.Model.Glcdfont
import WeightScale.Model.PrintfWrapper

/-!
# `Adafruit_GFX.cpp`, `Adafruit_SSD1306.cpp` and the drawing of `printOLED`

The OLED is drawn into a buffer of pages, a char at a time at a cursor that moves like a
typewriter's, and sent over I2C in pieces of sixteen bytes. `printOLED` clears the buffer
and prints the rows from the top. Neither `GFX_WANT_ABSTRACTS` nor `GFX_SIZEABLE_TEXT` is
defined.
-/

set_option autoImplicit false

namespace WeightScale

open Embedded

/-- What an `int16_t` holds after the assignment of `x`. -/
def int16 (x : Int) : Int := x.bmod 65536

def black : UInt16 := 0
def white : UInt16 := 1

/-- `_width` and `_height` of a rotation. Adafruit_GFX.cpp:437-454 -/
def extent (rawWidth rawHeight rotation : Byte) : ℕ × ℕ :=
  if rotation = 0 ∨ rotation = 2 then (rawWidth.toNat, rawHeight.toNat)
  else (rawHeight.toNat, rawWidth.toNat)

/-- An `Adafruit_SSD1306` of the raw size it is constructed with. -/
structure Oled (rawWidth rawHeight : Byte) where
  buffer : Bitmap (rawHeight.toNat * rawWidth.toNat / 8)
  width : ℕ
  height : ℕ
  rotation : Byte
  rotation_lt : rotation < 4
  extent_eq : (width, height) = extent rawWidth rawHeight rotation
  cursorX : Int
  cursorY : Int
  textcolor : UInt16
  textbgcolor : UInt16
  textsize : Byte
  wrap : Bool

/-- The columns of the font and whatever lies behind them in memory. -/
def fontByte (past : List Byte) (k : ℕ) : Byte := (font ++ past)[k]?.getD 0

/-- The place of the font that is read for column `i` of a char; none for the last column.
Adafruit_GFX.cpp:400-406 -/
def columnIndex (c : Byte) (i : ℕ) : Option ℕ := if i = 5 then none else some (c.toNat * 5 + i)

/-- `line` of column `i` of a char; the last column is blank. Adafruit_GFX.cpp:399-406 -/
def charColumn (past : List Byte) (c : Byte) (i : ℕ) : Byte :=
  ((columnIndex c i).map (fontByte past)).getD 0

namespace Oled

variable {rawWidth rawHeight : Byte}

/-- Adafruit_GFX.h:52-64, Adafruit_SSD1306.h:53-58 -/
def new (rawWidth rawHeight : Byte) : Oled rawWidth rawHeight where
  buffer := Vector.replicate _ 0
  width := rawWidth.toNat
  height := rawHeight.toNat
  rotation := 0
  rotation_lt := by decide
  extent_eq := rfl
  cursorX := 0
  cursorY := 0
  textcolor := white
  textbgcolor := black
  textsize := 1
  wrap := true

/-- Adafruit_GFX.cpp:437-454 -/
def setRotation (o : Oled rawWidth rawHeight) (x : Byte) : Oled rawWidth rawHeight :=
  { o with
    rotation := x % 4
    rotation_lt := by
      rw [UInt8.lt_iff_toNat_lt, UInt8.toNat_mod]
      exact Nat.mod_lt _ (by decide)
    width := (extent rawWidth rawHeight (x % 4)).1
    height := (extent rawWidth rawHeight (x % 4)).2
    extent_eq := rfl }

def setTextCursor (o : Oled rawWidth rawHeight) (x y : Int) : Oled rawWidth rawHeight :=
  { o with cursorX := x, cursorY := y }

/-- Adafruit_SSD1306.cpp:157-160 -/
def clearDisplay (o : Oled rawWidth rawHeight) : Oled rawWidth rawHeight :=
  { o with buffer := o.buffer.clear }

/-- Where a pixel lies in the buffer: the `switch` of `drawPixel`.
Adafruit_SSD1306.cpp:119-133 -/
def turn (o : Oled rawWidth rawHeight) (x y : ℕ) : ℕ × ℕ :=
  if o.rotation = 1 then (rawWidth.toNat - y - 1, x)
  else if o.rotation = 2 then (rawWidth.toNat - x - 1, rawHeight.toNat - y - 1)
  else if o.rotation = 3 then (y, rawHeight.toNat - x - 1)
  else (x, y)

/-- Adafruit_SSD1306.cpp:113-140 -/
def drawPixel (o : Oled rawWidth rawHeight) (x y : Int) (color : UInt16) :
    Oled rawWidth rawHeight :=
  if x < 0 ∨ x ≥ o.width ∨ y < 0 ∨ y ≥ o.height then o
  else
    let p := o.turn x.toNat y.toNat
    { o with buffer := o.buffer.set rawWidth.toNat p.1 p.2 (color == white) }

/-- One dot of a char: a background of the same colour is not drawn.
Adafruit_GFX.cpp:410-431 -/
def drawDot (o : Oled rawWidth rawHeight) (x y : Int) (on : Bool) (color bg : UInt16) :
    Oled rawWidth rawHeight :=
  if on then o.drawPixel (int16 x) (int16 y) color
  else if bg ≠ color then o.drawPixel (int16 x) (int16 y) bg
  else o

/-- The inner loop, which shifts `line` right.
Adafruit_GFX.cpp:408-433 -/
def drawColumn (o : Oled rawWidth rawHeight) (x y : Int) (line : Byte) (color bg : UInt16) :
    Oled rawWidth rawHeight :=
  ((List.range 8).foldl
    (fun (s : Oled rawWidth rawHeight × Byte) (j : ℕ) =>
      (s.1.drawDot x (y + j) (s.2 &&& 1 != 0) color bg, s.2 >>> 1))
    (o, line)).1

/-- The char lies off the screen. Adafruit_GFX.cpp:391-397 -/
def Clipped (o : Oled rawWidth rawHeight) (x y : Int) (size : Byte) : Prop :=
  x ≥ o.width ∨ y ≥ o.height ∨ x + 5 * size.toNat - 1 < 0 ∨ y + 8 * size.toNat - 1 < 0

instance (o : Oled rawWidth rawHeight) (x y : Int) (size : Byte) : Decidable (o.Clipped x y size) :=
  inferInstanceAs (Decidable (_ ∨ _))

/-- Adafruit_GFX.cpp:389-435 -/
def drawChar (past : List Byte) (o : Oled rawWidth rawHeight) (x y : Int) (c : Byte)
    (color bg : UInt16) (size : Byte) : Oled rawWidth rawHeight :=
  if o.Clipped x y size then o
  else
    (List.range 6).foldl
      (fun o (i : ℕ) => o.drawColumn (x + i) y (charColumn past c i) color bg) o

/-- The cursor at the head of the next line. Adafruit_GFX.cpp:370-371, 381-382 -/
def nextLine (o : Oled rawWidth rawHeight) : Oled rawWidth rawHeight :=
  { o with cursorY := int16 (o.cursorY + o.textsize.toNat * 8), cursorX := 0 }

/-- The cursor behind a char. Adafruit_GFX.cpp:378-383 -/
def advance (o : Oled rawWidth rawHeight) : Oled rawWidth rawHeight :=
  let o := { o with cursorX := int16 (o.cursorX + o.textsize.toNat * 6) }
  if o.wrap ∧ o.cursorX > (o.width : Int) - o.textsize.toNat * 6 then o.nextLine else o

/-- Adafruit_GFX.cpp:366-386 -/
def writeChar (past : List Byte) (o : Oled rawWidth rawHeight) (c : Byte) :
    Oled rawWidth rawHeight :=
  if c = chr '\n' then o.nextLine
  else if c = chr '\r' then { o with cursorX := 0 }
  else (o.drawChar past o.cursorX o.cursorY c o.textcolor o.textbgcolor o.textsize).advance

/-- `oled.printf`, by the text it prints. -/
def print (past : List Byte) (o : Oled rawWidth rawHeight) (t : Text) : Oled rawWidth rawHeight :=
  run (writeChar past) o t

/-- The places of the font that `writeChar` reads. -/
def fontReads (o : Oled rawWidth rawHeight) (c : Byte) : List ℕ :=
  if c = chr '\n' ∨ c = chr '\r' ∨ o.Clipped o.cursorX o.cursorY o.textsize then []
  else (List.range 6).filterMap (columnIndex c)

/-- `command`, as the bytes of one write. Adafruit_SSD1306.h:183-189 -/
def command (c : Byte) : List Byte := [0, c]

/-- `buff` of the round at `i`, and `none` when it reads past the buffer.
Adafruit_SSD1306.h:207-212 -/
def piece (buffer : List Byte) (i : ℕ) : Option (List Byte) := do
  let bytes ← (List.range 16).mapM fun x => buffer[i + x]?
  pure (0x40 :: bytes)

/-- `sendDisplayBuffer`, as the bytes of its writes.
Adafruit_SSD1306.h:200-214 -/
def sendDisplayBuffer (o : Oled rawWidth rawHeight) : Option (List (List Byte)) :=
  (List.range' 0 ((o.buffer.size + 15) / 16) 16).mapM (piece o.buffer.toList)

/-- Adafruit_SSD1306.cpp:148-154 -/
def display (o : Oled rawWidth rawHeight) : Option (List (List Byte)) := do
  let pieces ← o.sendDisplayBuffer
  pure (command 0x00 :: command 0x10 :: command 0x40 :: pieces)

/-- What `printOLED` draws after it has stored its lines.
PrintfWrapper.cpp:49-56 -/
def redraw (past : List Byte) (rows : List Text) (o : Oled rawWidth rawHeight) :
    Oled rawWidth rawHeight :=
  rows.foldl (fun o row => o.print past (row ++ [chr '\n'])) (o.clearDisplay.setTextCursor 0 0)

end Oled

/-- `oled`, the screen of the program. PrintfWrapper.cpp:12-17 -/
abbrev Screen := Oled 128 64

end WeightScale
