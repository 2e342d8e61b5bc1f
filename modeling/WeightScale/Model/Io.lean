import WeightScale.Embedded.Printf

/-!
# What the program does to the outside

The program acts on its surroundings through I2C writes, the serial port, the OLED, HTTP
requests and one timer. `Io` keeps these apart from the program's own variables: a log of
everything done so far, the statics of `printOLED`, the alarm timer with the event queue
it posts to, and the number of requests made. The log also records which of the
program's functions were entered and what text was formatted into which char array.
-/

set_option autoImplicit false

namespace WeightScale

open Embedded

/-- The functions whose calls are recorded, with the arguments they take. -/
inductive Call where
  | initInit | initEnd | lockedInit | lockedEnd | unlockedInit | unlockedEnd
  | settingInit | settingEnd
  | unlockFailed (pattern : Byte)
  | kaitenStop
  | channelUpdate (field1 field2 : Binary32)
  | notifyDietAchieved (weight target : Binary32)
  | notifyDietNotAchieved (weight target diff : Binary32)
  | notifyUnlockFailedInvalidPass
  | notifyUnlockFailedDoDiet
  | notifyChangeTarget (oldTarget newTarget : Int32)
  | notifyLocked
  | notifyUnlocked
deriving DecidableEq, Repr

/-- The char arrays the program formats its texts into. -/
inductive TextBuffer where
  /-- `str[50]` of main.cpp -/
  | str
  /-- `urlBuffer[256]` of the request functions -/
  | urlBuffer
  /-- `buf[300]` of `printf2` -/
  | buf
  /-- a row `str[j][300]` of `printOLED` -/
  | oledRow
  /-- `led_cmd[200]` of `cmd_print_text` -/
  | ledCmd
deriving DecidableEq, Repr

/-- The life of one `HttpRequest` object, by its number. -/
inductive HttpOp where
  | new (url : Text) | send | getError | getBody | delete
deriving DecidableEq, Repr

/-- What the program does to the world outside. -/
inductive Event where
  /-- a function of the program is entered -/
  | call (f : Call)
  /-- a text is formatted, or copied, into a char array -/
  | fill (dst : TextBuffer) (t : Text)
  /-- `master.write(address, data, length)` on the I2C bus -/
  | write (address : Byte) (data : List Byte)
  /-- `pc.printf(buf)`; nothing is known of what a text that asks for arguments prints -/
  | serial (t : Option Text)
  /-- the rows sent to the OLED, from the top -/
  | oled (rows : List Text)
  /-- an operation on the request object with this number -/
  | http (request : ℕ) (op : HttpOp)
deriving DecidableEq, Repr

/-- `MAX_PAGE` and `MAX_CHAR`. -/
abbrev maxPage : ℕ := 8
abbrev maxChar : ℕ := 300

/-- The statics of `printOLED`. -/
structure OledLog where
  j : ℕ := 0
  str : Vector (CharArray maxChar) maxPage := Vector.replicate maxPage (CharArray.zeros maxChar)

/-- `timeout1` of `unlock_failed` and the queue it posts to. `queue.event` makes a new
event object at each call; they are numbered in the order they are made. `timeout1` is the
event the timer will post, if it is armed, and `queue` the events posted and not yet
dispatched, oldest first. -/
structure Alarm where
  attached : ℕ := 0
  timeout1 : Option ℕ := none
  queue : List ℕ := []
deriving DecidableEq

/-- The log of what was done, the rows of the display, the requests made and the alarm. -/
structure Io where
  log : List Event := []
  requests : ℕ := 0
  oled : OledLog := {}
  alarm : Alarm := {}

/-- What `HttpRequest::send` comes back with: a null pointer and an error code, or a
response with its body. -/
inductive SendResult where
  | failed (error : Int32)
  | ok (body : Text)
deriving DecidableEq

/-- The network, as the result of every request in the order they are made. -/
abbrev Net := ℕ → SendResult

namespace Io

/-- One more event in the log. -/
def emit (e : Event) (io : Io) : Io := { io with log := io.log ++ [e] }

/-- `master.write`. -/
def write (address : Byte) (data : List Byte) (io : Io) : Io := io.emit (.write address data)

/-- `sprintf(dst, ...)` and `strcpy(dst, ...)`, by the text they put there. -/
def sprintf (dst : TextBuffer) (t : Text) (io : Io) : Io := io.emit (.fill dst t)

def call (f : Call) (io : Io) : Io := io.emit (.call f)

/-- `timeout1.attach(queue.event(&kaiten_stop), 5)`: an unexpired timer is cancelled, an
event already posted is not. -/
def attach (io : Io) : Io :=
  { io with alarm :=
    { io.alarm with
      attached := io.alarm.attached + 1
      timeout1 := some io.alarm.attached } }

end Io

end WeightScale
