import WeightScale.Embedded.Run
import WeightScale.Model.StateMachine
import WeightScale.Model.Password
import WeightScale.Model.I2CComm
import WeightScale.Model.ThingSpeak

/-!
# `main.cpp`

The loop of `com_main`: sample the door, the scale and the keypad, report the weight,
watch the door edge, handle a key while the requested state is LOCKED, show a changed
goal, and let the state machine act on what was requested. `kaiten_stop` runs on the
event thread, when the alarm timer's event is dispatched there.
-/

set_option autoImplicit false

namespace WeightScale

open Embedded

/-! ## State callbacks and alarm -/

namespace Io

/-- `sprintf(str, ...); cmd_print_text(str);` -/
def printStr (t : Text) (io : Io) : Io := (io.sprintf .str t).cmdPrintText t

/-- main.cpp:245-247 -/
def initInit (io : Io) : Io := (io.call .initInit).printf2 (ascii "INIT_init\n")

/-- main.cpp:253-255 -/
def initEnd (io : Io) : Io := (io.call .initEnd).printf2 (ascii "INIT_end\n")

/-- main.cpp:257-269 -/
def lockedInit (net : Net) (io : Io) : Io :=
  io |>.call .lockedInit
    |>.printf2 (ascii "LOCKED_init\n")
    |>.cmdKaitenLamp 0 false
    |>.cmdServo 150 10
    |>.cmdSetLine 3
    |>.cmdSetTextColor 0 15 0
    |>.printStr (ascii "LOCKED\n")
    |>.notifyLocked net

/-- main.cpp:275-277 -/
def lockedEnd (io : Io) : Io := (io.call .lockedEnd).printf2 (ascii "LOCKED_end\n")

/-- main.cpp:279-292 -/
def unlockedInit (net : Net) (io : Io) : Io :=
  io |>.call .unlockedInit
    |>.printf2 (ascii "UNLOCKED_init\n")
    |>.cmdServo 70 10
    |>.printf2 (ascii "Target weight achieved\n")
    |>.cmdSetLine 3
    |>.cmdSetTextColor 0 15 0
    |>.printStr (ascii "UNLOCKED\n")
    |>.notifyUnlocked net

/-- main.cpp:298-300 -/
def unlockedEnd (io : Io) : Io := (io.call .unlockedEnd).printf2 (ascii "UNLOCKED_end\n")

/-- main.cpp:302-304 -/
def settingInit (io : Io) : Io := (io.call .settingInit).printf2 (ascii "SETTING_init\n")

/-- main.cpp:310-312 -/
def settingEnd (io : Io) : Io := (io.call .settingEnd).printf2 (ascii "SETTING_end\n")

/-- main.cpp:198-231 -/
def unlockFailed (net : Net) (pattern : Byte) (io : Io) : Io :=
  let io := io |>.call (.unlockFailed pattern)
    |>.cmdKaitenLamp 50 true
    |>.attach
    |>.cmdSetLine 3
    |>.cmdSetTextColor 0 15 0
  let io :=
    if pattern = 0 then
      io |>.printf2 (ascii "Password is incorrect\n")
        |>.printStr (ascii "INCORRECT\n")
        |>.notifyUnlockFailedInvalidPass net
    else if pattern = 1 then
      io |>.printf2 (ascii "Weight is initial\n")
        |>.printStr (ascii "INITIAL\n")
    else if pattern = 2 then
      io |>.printf2 (ascii "Target weight unachieved\n")
        |>.printStr (ascii "DO DIET\n")
        |>.notifyUnlockFailedDoDiet net
    else io
  io.printf2 (ascii "Unlock failed\n")

/-- main.cpp:233-243 -/
def kaitenStop (io : Io) : Io :=
  io |>.call .kaitenStop
    |>.printf2 (ascii "kaiten_stop\n")
    |>.cmdKaitenLamp 0 false
    |>.cmdSetLine 3
    |>.cmdSetTextColor 0 15 0
    |>.printStr (ascii "LOCKED\n")

end Io

/-- `state_function[4]`. The `do` callbacks are empty.
main.cpp:27-32 -/
def stateFunction (net : Net) : LockState → StateFunc Io
  | .init => ⟨some Io.initInit, some id, some Io.initEnd⟩
  | .locked => ⟨some (Io.lockedInit net), some id, some Io.lockedEnd⟩
  | .unlocked => ⟨some (Io.unlockedInit net), some id, some Io.unlockedEnd⟩
  | .setting => ⟨some Io.settingInit, some id, some Io.settingEnd⟩

/-! ## The state of the program -/

/-- The program's variables: the globals of main.cpp, the statics of `com_main` and those
of the state machine. -/
structure Device where
  sm : StateMachine := {}
  password : Password := .new (ascii "1234")
  targetWeight : Binary32 := .ofInt 100
  weightsOld : Weight := ⟨0, ⟨0⟩⟩
  doorOpenOld : Bool := false
  targetWeightOld : Int32 := 0
  io : Io := {}

/-- What one iteration of `com_main` reads: the door switch, which is high while the door
is open, the scale and the keypad. -/
structure Input where
  leadSw : Bool
  weightRead : I2CRead 8
  keyRead : I2CRead 2
deriving DecidableEq

namespace Device

def onIo (f : Io → Io) (d : Device) : Device := { d with io := f d.io }

def printf2 (t : Text) : Device → Device := onIo (Io.printf2 t)

def setState (state : LockState) (d : Device) : Device :=
  { d with sm := d.sm.setState state }

def onPassword (f : Password → Password) (d : Device) : Device :=
  { d with password := f d.password }

/-! ## Keypad -/

/-- main.cpp:181-196 -/
def checkPassword (net : Net) (weights : Weight) (d : Device) : Device :=
  if d.password.evaluate = false then d.onIo (Io.unlockFailed net 0)
  else if weights.stable = WeightStable.initial then d.onIo (Io.unlockFailed net 1)
  else if weights.weight < d.targetWeight then d.setState .unlocked
  else d.onIo (Io.unlockFailed net 2)

/-- The C library's white space. -/
def isSpace (b : Byte) : Bool := b = 32 ∨ (9 ≤ b ∧ b ≤ 13)

def isDigit (b : Byte) : Bool := 48 ≤ b ∧ b ≤ 57

/-- The number that the digits at the head of `t` spell. -/
def leadingNumber (t : Text) : ℕ :=
  (t.takeWhile isDigit).foldl (fun n b => 10 * n + (b.toNat - 48)) 0

/-- `atoi`, which is `strtol` into a 32-bit `long`: out of range it saturates. -/
def atoi (s : Text) : Int32 :=
  let t := s.dropWhile isSpace
  let n : ℤ :=
    match t with
    | [] => 0
    | b :: bs =>
      if b = chr '-' then -(leadingNumber bs : ℤ)
      else if b = chr '+' then leadingNumber bs
      else leadingNumber t
  Int32.ofInt (max (-2 ^ 31) (min (2 ^ 31 - 1) n))

/-- The dispatch of a `'*'`: a goal, a new password, or an attempt to unlock.
main.cpp:149-161 -/
def enterKey (net : Net) (weights : Weight) (d : Device) : Device :=
  let guess2 := d.password.guess
  if guess2.load 0 = chr '0' ∧ guess2.load 1 = chr '0' then
    let d := { d with targetWeight := .ofInt (atoi (guess2.str 2)).toInt }
    d.printf2 (ascii "Weight Set: " ++ fmtF false 3 1 d.targetWeight ++ ascii "\n")
  else if guess2.load 0 = chr '0' then
    let d := d.onPassword (Password.set (guess2.str 1))
    d.printf2 (ascii "Password Set: " ++ d.password.target.str 0 ++ ascii "\n")
  else
    let d := d.printf2 (ascii "Guess Get: " ++ d.password.guess.str 0 ++ ascii "\n")
    let d := d.printf2 (ascii "Password Get: " ++ d.password.target.str 0 ++ ascii "\n")
    d.checkPassword net weights

/-- main.cpp:140-179 -/
def keypadEvent (net : Net) (keyData : Keymat) (weights : Weight) (d : Device) : Device :=
  if keyData.state = .push then
    let d := d.printf2 (ascii "Pressed: ")
    let d := d.printf2 (keyData.key :: ascii "\n")
    let d :=
      if keyData.key = chr '*' then (d.enterKey net weights).onPassword Password.reset
      else if keyData.key = chr '#' then d.onPassword Password.reset
      else d.onPassword (Password.append keyData.key)
    d.onIo fun io => io
      |>.cmdSetLine 2
      |>.cmdSetTextColor 0 15 0
      |>.printStr (ascii "PASS:" ++ d.password.guess.str 0 ++ ascii "\n")
  else d

/-! ## The loop -/

/-- The report of a determined weight.
main.cpp:86-93 -/
def reportWeight (net : Net) (weights : Weight) (targetWeight : Binary32) (io : Io) : Io :=
  if weights.stable = WeightStable.determined then
    let io := io.channelUpdate net weights.weight targetWeight
    if weights.weight < targetWeight then io.notifyDietAchieved net weights.weight targetWeight
    else io.notifyDietNotAchieved net weights.weight targetWeight (weights.weight - targetWeight)
  else io

/-- main.cpp:71-97 -/
def weightBlock (net : Net) (weights : Weight) (d : Device) : Device :=
  let d :=
    if weights.stable ≠ d.weightsOld.stable then
      d.onIo fun io =>
        let io := (io.cmdSetLine 1).cmdSetTextColor 0 15 0
        if weights.stable = WeightStable.initial then
          io |>.printf2 (ascii "stable: " ++ fmtD weights.stable.toNat ++ ascii ", weight: ---\n")
            |>.printStr (ascii "NOW:---kg\n")
        else
          io |>.printf2 (ascii "stable: " ++ fmtD weights.stable.toNat ++ ascii ", weight: " ++
              fmtF false 0 6 weights.weight ++ ascii "\n")
            |>.printStr (ascii "NOW:" ++ fmtF false 3 0 weights.weight ++ ascii "kg\n")
            |> reportWeight net weights d.targetWeight
    else d
  { d with weightsOld := weights }

/-- main.cpp:99-112 -/
def doorBlock (doorOpen : Bool) (d : Device) : Device :=
  let d :=
    if d.doorOpenOld ≠ doorOpen then
      if doorOpen = false then
        (d.onIo fun io => (io.cmdLamp false).printf2 (ascii "door close\n")).setState .locked
      else d.onIo fun io => (io.cmdLamp true).printf2 (ascii "door open\n")
    else d
  { d with doorOpenOld := doorOpen }

/-- main.cpp:114-116 -/
def keyBlock (net : Net) (keyData : Keymat) (weights : Weight) (d : Device) : Device :=
  if d.sm.getState = .locked then d.keypadEvent net keyData weights else d

/-- main.cpp:118-133 -/
def targetBlock (net : Net) (d : Device) : Device :=
  let targetWeightInt := d.targetWeight.toInt32
  let d' :=
    if targetWeightInt ≠ d.targetWeightOld then
      d.onIo fun io =>
        let io := io
          |>.cmdSetLine 0
          |>.cmdSetTextColor 0 15 0
          |>.printStr (ascii "GOAL:" ++ fmtF false 3 0 d.targetWeight ++ ascii "kg\n")
        if d.targetWeightOld ≠ 0 then
          io.notifyChangeTarget net d.targetWeightOld targetWeightInt
        else io
    else d
  { d' with targetWeightOld := targetWeightInt }

/-- `state_main()` with the callbacks of main.cpp. -/
def stateMain (net : Net) (d : Device) : Device :=
  let (sm, io) := d.sm.stateMain (stateFunction net) d.io
  { d with sm := sm, io := io }

/-- One iteration of `com_main`.
main.cpp:67-137 -/
def loopBody (net : Net) (d : Device) (i : Input) : Device :=
  let weights := getWeight i.weightRead
  let keyData := getKey i.keyRead
  d |>.weightBlock net weights
    |>.doorBlock i.leadSw
    |>.keyBlock net keyData weights
    |>.targetBlock net
    |>.stateMain net

/-- The start of the program up to the loop: `main` and the head of `com_main`, with the
door sample taken there.
main.cpp:38-65 -/
def startUp (wifi : Wifi) (leadSw : Bool) : Device :=
  let d : Device := {}
  let d := d.printf2 (ascii "start\n")
  let d := d.onIo (Io.wifiInit wifi)
  let d := if leadSw = false then d.setState .locked else d.setState .unlocked
  d.onIo fun io => io
    |>.cmdSetLine 2
    |>.cmdSetTextColor 0 15 0
    |>.printStr (ascii "PASS:\n")

/-- The state of the program after the iterations of `com_main` that read `is`. -/
def comMain (net : Net) (wifi : Wifi) (leadSw : Bool) (is : List Input) : Device :=
  run (loopBody net) (startUp wifi leadSw) is

end Device

end WeightScale
