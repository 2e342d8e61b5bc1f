import WeightScale.Model.Main

/-!
# The event thread

`main` starts two threads: one runs `com_main`, the other dispatches `queue` for ever. The
alarm timer belongs to neither; its expiry posts the event it was armed with. A step of the
whole program is an iteration of `com_main`, an expiry, or a dispatch, and the three may
come in any order.
-/

set_option autoImplicit false

namespace WeightScale

open Embedded

namespace Io

/-- `timeout1` expires: its event is posted. -/
def expire (io : Io) : Io :=
  match io.alarm.timeout1 with
  | some event =>
    { io with alarm := { io.alarm with timeout1 := none, queue := io.alarm.queue ++ [event] } }
  | none => io

/-- One round of `dispatch_forever`: the oldest posted event runs its function, which is
`kaiten_stop` for every event of this program. -/
def dispatch (io : Io) : Io :=
  match io.alarm.queue with
  | _ :: queue => { io with alarm := { io.alarm with queue := queue } }.kaitenStop
  | [] => io

end Io

/-- A step of the whole program. -/
inductive SystemStep where
  | iterate (i : Input)
  | expire
  | dispatch
deriving DecidableEq

namespace Device

/-- main.cpp:38-47 -/
def systemStep (net : Net) (d : Device) : SystemStep → Device
  | .iterate i => d.loopBody net i
  | .expire => d.onIo Io.expire
  | .dispatch => d.onIo Io.dispatch

/-- The state of the program after the steps `ss` of its threads. -/
def system (net : Net) (wifi : Wifi) (leadSw : Bool) (ss : List SystemStep) : Device :=
  run (systemStep net) (startUp wifi leadSw) ss

end Device

end WeightScale
