import Mathlib.Data.Nat.Notation

/-!
# `StateMachine.cpp`

The state machine keeps three variables: the state requested by `set_state`, and the
statics `old_state` and `next_state` of `state_trans`. Its callbacks come in a table and
act on `W`, the part of the program that is not the state machine itself: a callback that
calls neither `set_state` nor `state_main` is a function on `W`.
-/

set_option autoImplicit false

namespace WeightScale

/-- `state_t`. -/
inductive LockState where
  | init | locked | unlocked | setting
deriving DecidableEq, Repr

/-- `state_func_t`; a missing callback is a NULL pointer. -/
structure StateFunc (W : Type) where
  initFunc : Option (W → W)
  doFunc : Option (W → W)
  endFunc : Option (W → W)

/-- The statics of the state machine: `g_state`, and `old_state` and `next_state` of
`state_trans`, all of them zero at start. -/
structure StateMachine where
  gState : LockState := .init
  oldState : LockState := .init
  nextState : LockState := .init
deriving DecidableEq, Repr

namespace StateMachine

variable {W : Type}

def setState (state : LockState) (m : StateMachine) : StateMachine := { m with gState := state }

def getState (m : StateMachine) : LockState := m.gState

/-- The switch of `state_trans`: where a request leads that differs from the current
state. A request that the table does not permit leads back to the current state.
StateMachine.cpp:29-63 -/
def transTo : LockState → LockState → LockState
  | .init, .locked => .locked
  | .init, .unlocked => .unlocked
  | .init, _ => .init
  | .locked, .unlocked => .unlocked
  | .locked, _ => .locked
  | .unlocked, .locked => .locked
  | .unlocked, .setting => .setting
  | .unlocked, _ => .unlocked
  | .setting, .init => .init
  | .setting, _ => .setting

/-- A callback is called unless its pointer is NULL. -/
def callFunc (f : Option (W → W)) (w : W) : W := f.elim w (· w)

/-- StateMachine.cpp:24-75 -/
def stateTrans (stateFunction : LockState → StateFunc W) (state : LockState) (m : StateMachine)
    (w : W) : StateMachine × W :=
  let (m, w) :=
    if m.oldState ≠ state then
      let m' := { m with nextState := transTo m.oldState state }
      -- a refused request runs the `end` and `init` callbacks of the current state too
      (m', callFunc (stateFunction m'.nextState).initFunc
        (callFunc (stateFunction m.oldState).endFunc w))
    else (m, w)
  ({ m with oldState := m.nextState }, callFunc (stateFunction m.nextState).doFunc w)

/-- StateMachine.cpp:20-22 -/
def stateMain (stateFunction : LockState → StateFunc W) (m : StateMachine) (w : W) :
    StateMachine × W :=
  stateTrans stateFunction m.gState m w

end StateMachine

end WeightScale
