import WeightScale.Model.Io

/-!
# `PrintfWrapper.cpp`

`printf2` formats into a local array, prints that array on the serial port, where it is
the format and not an argument, and hands it to `printOLED`, which keeps the last lines
and redraws the OLED.
-/

set_option autoImplicit false

namespace WeightScale

open Embedded

/-- The tokens `strtok` finds one after another: the maximal runs without the delimiter. -/
def tokens (delim : Byte) : Text → List Text
  | [] => []
  | b :: bs =>
    if b = delim then tokens delim bs
    else
      match bs, tokens delim bs with
      | c :: _, tk :: tks => if c = delim then [b] :: tk :: tks else (b :: tk) :: tks
      | _, tks => [b] :: tks

/-- The first tokens, at most `MAXITEM` of them.
PrintfWrapper.cpp:22-32 -/
def split (str : Text) (delim : Byte) : List Text := (tokens delim str).take maxPage

namespace OledLog

/-- One round of the loop that stores tokens: the token is copied over the row, and the
row cut at twenty chars.
PrintfWrapper.cpp:41-48 -/
def put (o : OledLog) (tok : Text) : OledLog where
  str := o.str.setIfInBounds o.j (((o.str[o.j]?.getD (CharArray.zeros _)).strcpy tok).store 20 0)
  j := if o.j + 1 ≥ maxPage then 0 else o.j + 1

/-- The rows as they are redrawn: from the oldest on, then from the first.
PrintfWrapper.cpp:51-56 -/
def rows (o : OledLog) : List Text :=
  (o.str.toList.drop o.j ++ o.str.toList.take o.j).map fun row => row.str 0

end OledLog

namespace Io

/-- One token on its way into a row. -/
def putToken (io : Io) (tok : Text) : Io :=
  let io := io.sprintf .oledRow tok
  { io with oled := io.oled.put tok }

/-- PrintfWrapper.cpp:34-59 -/
def printOled (buff : Text) (io : Io) : Io :=
  let io := (split buff (chr '\n')).foldl putToken io
  io.emit (.oled io.oled.rows)

/-- `printf2`, by the text that `vsprintf` puts into `buf`. What reads the array after it
reads the C string in it.
PrintfWrapper.cpp:61-69 -/
def printf2 (t : Text) (io : Io) : Io :=
  let io := io.sprintf .buf t
  let io := io.emit (.serial (expand (cstr t)))
  io.printOled (cstr t)

end Io

end WeightScale
