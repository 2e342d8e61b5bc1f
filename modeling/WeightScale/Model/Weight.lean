import Mathlib.Logic.Function.Iterate
import WeightScale.Embedded.Binary
import WeightScale.Model.PrintfWrapper

/-!
# `Weight.cpp`

The scale sends a frame as a burst of pulses. Four callbacks receive it: `rise` and `fall`
measure a pulse and arm each other, `timeout` ends the frame when no pulse has come for a
while, and `restart` arms the capture again after a stable frame. Each of them is posted by
an edge of the pin or by a timer and runs before the next edge or expiry. Time is counted in
microseconds.
-/

set_option autoImplicit false

namespace WeightScale

open Embedded

/-- `class Timer`. -/
structure Timer where
  running : Bool := false
  startTime : ℕ := 0
  time : ℕ := 0

namespace Timer

def slicetime (now : ℕ) (t : Timer) : ℕ := if t.running then now - t.startTime else 0

def reset (now : ℕ) (t : Timer) : Timer := { t with startTime := now, time := 0 }

def start (now : ℕ) (t : Timer) : Timer :=
  if t.running then t else { t with running := true, startTime := now }

def stop (now : ℕ) (t : Timer) : Timer :=
  { t with running := false, time := t.time + t.slicetime now }

/-- The `int` of `read_us`, as the `uint32_t` it is stored in. -/
def readUs (now : ℕ) (t : Timer) : UInt32 := UInt32.ofNat (t.time + t.slicetime now)

end Timer

/-- `TIMEOUT_US`. -/
def timeoutUs : ℕ := 30000

/-- The five seconds of `t3`. -/
def restartUs : ℕ := 5000000

/-- The statics of Weight.cpp: which edges of `p` have a handler, the timers, of which `t2`
and `t3` are the times they expire at, and the frame. `frames` are the calls of `eee`. -/
structure Capture where
  now : ℕ := 0
  onRise : Bool := false
  onFall : Bool := false
  t : Timer := {}
  t2 : Option ℕ := none
  t3 : Option ℕ := none
  bh : UInt32 := 0
  bl : UInt32 := 0
  cnt : UInt32 := 0
  frames : List (UInt32 × UInt32) := []
  io : Io := {}

/-- The loop of `itob` for a positive `n`: the mask `f` walks down, and `n` digits are left.
Weight.cpp:25-28 -/
def itobMasked (v : UInt64) : ℕ → UInt64 → Text → Text
  | 0, _, s => s
  | n + 1, f, s => itobMasked v n (f >>> 1) (s ++ [if f &&& v ≠ 0 then chr '1' else chr '0'])

/-- The loop of `itob` for a negative `n`, which counts up to zero: `-n` digits are left.
Weight.cpp:31-33 -/
def itobFree : ℕ → UInt64 → Text → Text
  | 0, _, s => s
  | n + 1, v, s =>
    let s := s ++ [chr '0' + (v % 2).toUInt8]
    if v >>> 1 ≠ 0 then itobFree n (v >>> 1) s else s

/-- The chars `itob` writes, the terminator included. Weight.cpp:22-37 -/
def itob (n : ℤ) (v : UInt64) : Text :=
  let s :=
    if 0 < n then itobMasked v n.toNat (1 <<< UInt64.ofNat (n - 1).toNat) []
    else if n ≠ 0 then
      let s := itobFree (-n).toNat v []
      reverseRange 0 (s.length - 1) s
    else []
  s ++ [0]

namespace Capture

/-- The two bits of the stability in a frame. -/
def stableBits (bh : UInt32) : UInt32 := (bh >>> 18) &&& 3

/-- Weight.cpp:39-67 -/
def eee (bh bl : UInt32) (c : Capture) : Capture :=
  let stable := stableBits bh
  let c := { c with frames := c.frames ++ [(bh, bl)] }
  let c :=
    if stable = 3 then { c with onRise := false, onFall := false, t3 := some (c.now + restartUs) }
    else c
  let io := c.io
    |>.printf2 (cstr (itob 2 stable.toUInt64))
    |>.printf2 (ascii " ")
    |>.printf2 (cstr (itob 32 bh.toUInt64))
    |>.printf2 (ascii " ")
    |>.printf2 (cstr (itob 32 bl.toUInt64))
    |>.printf2 (ascii "\n")
  let io :=
    if stable = 3 then
      io.printf2 (fmtF false 5 2 (.ofRatio (bh &&& 0xffff).toNat 10) ++ ascii "\t\n")
    else io
  { c with io := io }

/-- Weight.cpp:69-72 -/
def restart (c : Capture) : Capture := { c with onRise := true }

/-- Weight.cpp:74-88 -/
def timeout (c : Capture) : Capture :=
  let c := { c with onRise := false, onFall := false }
  let bhDisp := c.bh
  let blDisp := c.bl
  let cntDisp := c.cnt
  let c := { c with bh := 0, bl := 0, cnt := 0, onRise := true }
  if cntDisp = 39 then c.eee bhDisp blDisp else c

/-- Weight.cpp:92-97 -/
def rise (c : Capture) : Capture :=
  { c with onRise := false, t := (c.t.reset c.now).start c.now, onFall := true }

/-- Weight.cpp:99-112 -/
def fall (c : Capture) : Capture :=
  let c := { c with onFall := false, t2 := some (c.now + timeoutUs), t := c.t.stop c.now }
  let pulse := c.t.readUs c.now
  let bit : UInt32 := if pulse < 750 then 1 else 0
  let c :=
    if c.cnt < 32 then { c with bh := c.bh ||| (bit <<< (31 - c.cnt)) }
    else if c.cnt < 64 then { c with bl := c.bl ||| (bit <<< (63 - c.cnt)) }
    else c
  { c with cnt := c.cnt + 1, onRise := true }

/-- Weight.cpp:115-121 -/
def weightInit : Capture := { io := ({} : Io).printf2 (ascii "start\n"), onRise := true }

/-- One microsecond passes, and the timers that expire call their functions. -/
def tick (c : Capture) : Capture :=
  let c := { c with now := c.now + 1 }
  let c := if c.t2 = some c.now then timeout { c with t2 := none } else c
  if c.t3 = some c.now then restart { c with t3 := none } else c

/-- What happens to the capture: an edge of the pin, or time passing. -/
inductive Signal where
  | rise
  | fall
  | wait (us : ℕ)

/-- An edge without a handler is lost. -/
def signal (c : Capture) : Signal → Capture
  | .rise => if c.onRise then c.rise else c
  | .fall => if c.onFall then c.fall else c
  | .wait us => tick^[us] c

end Capture

end WeightScale
