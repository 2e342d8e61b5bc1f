import WeightScale.Model.Io

/-!
# `I2C_Comm.cpp`

Commands to the slaves on the bus and the two sensor reads. `master.write` and
`master.read` return an error code that no function here looks at: a read leaves in its
buffer what it leaves there, and the functions go on with it.
-/

set_option autoImplicit false

namespace WeightScale

open Embedded

/-! ## Commands -/

def kaitenAddr : Byte := (0x15 : Byte) <<< 1
def ledAddr : Byte := (0x20 : Byte) <<< 1
def servoAddr : Byte := (0x25 : Byte) <<< 1

/-- The command bytes of the LED display. -/
def cmdPrint : Byte := 0x01
def cmdSetCursor : Byte := 0x02
def cmdFillRect : Byte := 0x03
def cmdSetTextColorByte : Byte := 0x05

namespace Io

/-- I2C_Comm.cpp:18-25 -/
def cmdServo (angle speed : Byte) (io : Io) : Io :=
  io.write servoAddr [0x01, 0x01, angle, speed]

/-- I2C_Comm.cpp:27-34 -/
def cmdKaiten (duty : Byte) (io : Io) : Io := io.write kaitenAddr [0x01, duty]

/-- I2C_Comm.cpp:36-43 -/
def cmdLamp (lamp : Bool) (io : Io) : Io := io.write kaitenAddr [0x02, if lamp then 1 else 0]

/-- I2C_Comm.cpp:45-48 -/
def cmdKaitenLamp (duty : Byte) (lamp : Bool) (io : Io) : Io := (io.cmdKaiten duty).cmdLamp lamp

/-- I2C_Comm.cpp:84-96 -/
def cmdClearLine (line : Byte) (io : Io) : Io :=
  io.write ledAddr [cmdFillRect, 0, line * 8, 64, 8, 0, 0, 0]

/-- I2C_Comm.cpp:121-129 -/
def cmdSetLine (line : Byte) (io : Io) : Io :=
  (io.cmdClearLine line).write ledAddr [cmdSetCursor, 0, line * 8]

/-- I2C_Comm.cpp:131-139 -/
def cmdSetTextColor (r g b : Byte) (io : Io) : Io :=
  io.write ledAddr [cmdSetTextColorByte, r, g, b]

/-- The bytes of a print command: the text and its terminator, as many of them as the
`uint8_t` `size` counts. -/
def printCommand (str : Text) : List Byte :=
  let size : Byte := UInt8.ofNat (str.length + 1)
  cmdPrint :: (str ++ [0]).take size.toNat

/-- I2C_Comm.cpp:141-153 -/
def cmdPrintText (str : Text) (io : Io) : Io :=
  (io.sprintf .ledCmd str).write ledAddr (printCommand str)

end Io

/-! ## Sensors -/

/-- What `master.read(address, p, n)` returns and what `p` holds after it. When the read
failed the bytes are the ones an uninitialised buffer happens to hold. -/
structure I2CRead (n : ℕ) where
  failed : Bool := false
  buff : Vector Byte n
deriving DecidableEq

/-- `weight_stable` as the byte the enumeration is stored in; the slave sends any byte. -/
abbrev WeightStable := Byte

namespace WeightStable
def start : WeightStable := 0
def determined : WeightStable := 3
def initial : WeightStable := 0xff
end WeightStable

/-- `weight_t`. -/
structure Weight where
  stable : WeightStable
  weight : Binary32
deriving DecidableEq

/-- `key_state`. -/
inductive KeyState where
  | release | push | none
deriving DecidableEq, Repr

/-- `keymat_t`. -/
structure Keymat where
  key : Byte
  state : KeyState
deriving DecidableEq

/-- The eight bytes are the `weight_t` itself: the enumeration, three bytes of padding, and
the float, little-endian.
I2C_Comm.cpp:50-58 -/
def getWeight (r : I2CRead 8) : Weight where
  stable := r.buff[0]
  weight := ⟨UInt32.ofNat (r.buff[4].toNat + 2 ^ 8 * r.buff[5].toNat +
    2 ^ 16 * r.buff[6].toNat + 2 ^ 24 * r.buff[7].toNat)⟩

/-- I2C_Comm.cpp:60-82 -/
def getKey (r : I2CRead 2) : Keymat where
  key := r.buff[0]
  state := if r.buff[1] = 0 then .release else if r.buff[1] = 1 then .push else .none

end WeightScale
