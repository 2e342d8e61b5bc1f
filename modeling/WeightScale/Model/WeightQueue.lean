import WeightScale.Embedded.Run
import WeightScale.Model.Weight

/-!
# `Weight.cpp` behind its queue

An edge of the pin and the expiry of a timer only post an event, and a thread of its own
dispatches the events of `queue` in the order they were posted, at any later time. So the
handlers are cut here into their statements, and edges and expiries fall between any two of
them. The receiver is the capture with the pin, the queue and the statements of the running
handler that are left. Beside that it keeps what its runs are compared with: the pulses that
were on the pin, and what `fall` has recorded of them.
-/

set_option autoImplicit false

namespace WeightScale

open Embedded

/-- The functions that are posted to `queue`. -/
inductive Handler where
  | rise
  | fall
  | timeout
  | restart
deriving DecidableEq

/-- An event of `queue`: when it was posted and, for a falling edge, the length of the pulse
that ended with it. -/
structure Posted where
  handler : Handler
  time : ℕ
  width : ℕ := 0
deriving DecidableEq

/-- The statements of the handlers. -/
inductive Stmt where
  /-- `p.rise(NULL)` -/
  | riseNull
  /-- `p.fall(NULL)` -/
  | fallNull
  /-- `p.rise(queue.event(rise))` -/
  | riseEvent
  /-- `p.fall(queue.event(fall))` -/
  | fallEvent
  /-- `t.reset()` -/
  | timerReset
  /-- `t.start()` -/
  | timerStart
  /-- `t.stop()` -/
  | timerStop
  /-- `t2.attach_us(queue.event(timeout), TIMEOUT_US)` -/
  | attachTimeout
  /-- `t3.attach(queue.event(restart), 5)` -/
  | attachRestart
  /-- The bit of a pulse. Weight.cpp:103-110 -/
  | record
  /-- The copies of the frame, with the frame cleared. Weight.cpp:77-82 -/
  | take
  /-- The count of the copy. Weight.cpp:85-87 -/
  | check (bh bl cnt : UInt32)
  /-- What `eee` prints. Weight.cpp:47-66 -/
  | print (bh bl : UInt32)
deriving DecidableEq

/-- The statements of a handler. What `timeout` does with its copies comes with `take`.
Weight.cpp:69-112 -/
def Handler.body : Handler → List Stmt
  | .rise => [.riseNull, .timerReset, .timerStart, .fallEvent]
  | .fall => [.fallNull, .attachTimeout, .timerStop, .record, .riseEvent]
  | .timeout => [.riseNull, .fallNull, .take]
  | .restart => [.riseEvent]

/-- The statements of `eee`. Weight.cpp:39-67 -/
def eeeBody (bh bl : UInt32) : List Stmt :=
  (if Capture.stableBits bh = 3 then [.riseNull, .fallNull, .attachRestart] else []) ++
    [.print bh bl]

/-- The reading of the pulse timer goes into the frame. Weight.cpp:103-110 -/
def Capture.record (c : Capture) : Capture :=
  let pulse := c.t.readUs c.now
  let bit : UInt32 := if pulse < 750 then 1 else 0
  let c :=
    if c.cnt < 32 then { c with bh := c.bh ||| (bit <<< (31 - c.cnt)) }
    else if c.cnt < 64 then { c with bl := c.bl ||| (bit <<< (63 - c.cnt)) }
    else c
  { c with cnt := c.cnt + 1 }

/-- The receiver. `level` is the pin, `edgeAt` the time of its last edge and `pulses` the
lengths of its pulses; `current` is the event dispatched last and `running` what is left of
its handler; `recorded` and `taken` are the pulses of the frame and of the copy: for each run
of `fall`, the reading of the timer and the length of the pulse. -/
structure Receiver where
  capture : Capture := Capture.weightInit
  level : Bool := false
  edgeAt : ℕ := 0
  pulses : List ℕ := []
  queue : List Posted := []
  current : Posted := ⟨.restart, 0, 0⟩
  running : List Stmt := []
  recorded : List (ℕ × ℕ) := []
  taken : List (ℕ × ℕ) := []

namespace Receiver

def onCapture (f : Capture → Capture) (r : Receiver) : Receiver :=
  { r with capture := f r.capture }

def post (e : Posted) (r : Receiver) : Receiver := { r with queue := r.queue ++ [e] }

/-- The statement in front runs; the others are left. -/
def stmt (r : Receiver) : Stmt → Receiver
  | .riseNull => r.onCapture fun c => { c with onRise := false }
  | .fallNull => r.onCapture fun c => { c with onFall := false }
  | .riseEvent => r.onCapture fun c => { c with onRise := true }
  | .fallEvent => r.onCapture fun c => { c with onFall := true }
  | .timerReset => r.onCapture fun c => { c with t := c.t.reset c.now }
  | .timerStart => r.onCapture fun c => { c with t := c.t.start c.now }
  | .timerStop => r.onCapture fun c => { c with t := c.t.stop c.now }
  | .attachTimeout => r.onCapture fun c => { c with t2 := some (c.now + timeoutUs) }
  | .attachRestart => r.onCapture fun c => { c with t3 := some (c.now + restartUs) }
  | .record =>
    let reading := r.capture.t.time + r.capture.t.slicetime r.capture.now
    { r with
      capture := r.capture.record
      recorded := r.recorded ++ [(reading, r.current.width)] }
  | .take =>
    let c := r.capture
    { r with
      capture := { c with bh := 0, bl := 0, cnt := 0 }
      running := .riseEvent :: .check c.bh c.bl c.cnt :: r.running
      recorded := []
      taken := r.recorded }
  | .check bh bl cnt =>
    if cnt = 39 then
      { r with
        capture := { r.capture with frames := r.capture.frames ++ [(bh, bl)] }
        running := eeeBody bh bl ++ r.running }
    else r
  | .print bh bl => r.onCapture fun c => { c with io := (c.eee bh bl).io }

/-- The thread of `queue` goes on: with the next statement of the running handler, or behind
its last one with the next event. -/
def exec (r : Receiver) : Receiver :=
  match r.running with
  | s :: rest => { r with running := rest }.stmt s
  | [] =>
    match r.queue with
    | e :: queue => { r with queue := queue, current := e, running := e.handler.body }
    | [] => r

/-- An edge of the pin. Without a handler it is lost. -/
def edge (r : Receiver) : Receiver :=
  let c := r.capture
  if r.level then
    let width := c.now - r.edgeAt
    let r := { r with level := false, edgeAt := c.now, pulses := r.pulses ++ [width] }
    if c.onFall then r.post ⟨.fall, c.now, width⟩ else r
  else
    let r := { r with level := true, edgeAt := c.now }
    if c.onRise then r.post ⟨.rise, c.now, 0⟩ else r

/-- `t2` posts `timeout` when it expires by the time `limit`. -/
def expireT2 (limit : ℕ) (r : Receiver) : Receiver :=
  match r.capture.t2 with
  | some e =>
    if e ≤ limit then (r.onCapture fun c => { c with t2 := none }).post ⟨.timeout, e, 0⟩ else r
  | none => r

/-- `t3` posts `restart` when it expires by the time `limit`. -/
def expireT3 (limit : ℕ) (r : Receiver) : Receiver :=
  match r.capture.t3 with
  | some e =>
    if e ≤ limit then (r.onCapture fun c => { c with t3 := none }).post ⟨.restart, e, 0⟩ else r
  | none => r

/-- Whether `t3` expires before `t2`. When both are due at one time it does: a ticker fires
the event first that was inserted first, and `t3` has the longer delay. -/
def t3First (c : Capture) : Bool :=
  match c.t2, c.t3 with
  | some e2, some e3 => e3 ≤ e2
  | _, _ => false

/-- Time passes, and the timers post in the order they expire. -/
def wait (us : ℕ) (r : Receiver) : Receiver :=
  let limit := r.capture.now + us
  let r :=
    if t3First r.capture then (r.expireT3 limit).expireT2 limit
    else (r.expireT2 limit).expireT3 limit
  r.onCapture fun c => { c with now := limit }

/-- What happens next, in any order. -/
inductive Step where
  | edge
  | wait (us : ℕ)
  | exec
deriving DecidableEq

def step (r : Receiver) : Step → Receiver
  | .edge => r.edge
  | .wait us => r.wait us
  | .exec => r.exec

/-- The receiver behind `weight_init`, with the pin at `level`. -/
def start (level : Bool) : Receiver := { level := level }

end Receiver

end WeightScale
