import WeightScale.Interface.Iteration

/-!
# A run, as its observer sees it

The vocabulary of the properties that speak about a whole run: the transitions the table
of the state machine permits, the notifications in the order they were sent, the door
samples, and the keys typed so far with the password they have set.
-/

set_option autoImplicit false

namespace WeightScale

open Embedded

/-- The transitions the table of the state machine permits. -/
inductive Permitted : LockState → LockState → Prop where
  | lockFirst : Permitted .init .locked
  | unlockFirst : Permitted .init .unlocked
  | unlock : Permitted .locked .unlocked
  | lock : Permitted .unlocked .locked
  | set : Permitted .unlocked .setting
  | restart : Permitted .setting .init

/-- A permitted request is followed. -/
theorem transTo_of_permitted {s t : LockState} (h : Permitted s t) :
    StateMachine.transTo s t = t := by
  cases h <;> rfl

/-- Any other request is refused. -/
theorem transTo_of_not_permitted {s t : LockState} (h : ¬ Permitted s t) :
    StateMachine.transTo s t = s := by
  cases s <;> cases t <;> first | rfl | exact absurd (by constructor) h

/-- The notifications of the lock among the calls, by the state they name. -/
def lockNotices (calls : List Call) : List LockState :=
  calls.filterMap fun
    | .notifyLocked => some .locked
    | .notifyUnlocked => some .unlocked
    | _ => none

/-- The last door sample taken: the one at start before the first iteration, the one of
the last iteration after. -/
def lastSample (leadSw : Bool) (is : List Input) : Bool :=
  (is.getLast?.map Input.leadSw).getD leadSw

@[simp] theorem lastSample_nil (leadSw : Bool) : lastSample leadSw [] = leadSw := rfl

/-- The last door sample is that of the last iteration. -/
@[simp] theorem lastSample_concat (leadSw : Bool) (is : List Input) (i : Input) :
    lastSample leadSw (is ++ [i]) = i.leadSw := by
  simp [lastSample]

/-- The keys pushed, whatever the program makes of them. -/
def pushes (is : List Input) : List Byte :=
  is.filterMap fun i => if i.keyData.state = .push then some i.keyData.key else none

/-- What the keys pushed so far amount to: the keys since the last `'*'` or `'#'`, and the
password that the entries before have left. -/
structure Typing where
  typed : Text := []
  password : Text := ascii "1234"
deriving DecidableEq

/-- The password an entry sets: of `0` `P` with `P` not starting with `0` the first 18 keys
of `P`. -/
def passwordOf : Text → Option Text
  | [] => none
  | c :: rest => if c = chr '0' ∧ rest.head? ≠ some (chr '0') then some (rest.take 18) else none

/-- A key typed. -/
def Typing.key (t : Typing) (k : Byte) : Typing :=
  if k = chr '*' then ⟨[], (passwordOf t.typed).getD t.password⟩
  else if k = chr '#' then ⟨[], t.password⟩
  else ⟨t.typed ++ [k], t.password⟩

namespace Device

variable (net : Net) (wifi : Wifi) (leadSw : Bool)

/-- The keys pushed at key steps that handle keys, over a run. -/
def pushedKeys (d : Device) (is : List Input) : List Byte :=
  outputs (loopBody net) (fun d i => (d.pushedKey net i).toList) d is

/-- The typing of a run from the start of the program. -/
def typing (is : List Input) : Typing :=
  (pushedKeys net (startUp wifi leadSw) is).foldl Typing.key {}

/-- The state requests of a run, each with the state it met. -/
def requests (d : Device) (is : List Input) : List (LockState × LockState) :=
  outputs (loopBody net)
    (fun d i => [(d.sm.oldState, (d.afterKeyStep net i).sm.getState)]) d is

end Device

/-! ## Inputs for runs by hand -/

namespace Input

/-- The scale shows nothing yet. -/
def noWeight : Vector Byte 8 := #v[0xff, 0, 0, 0, 0, 0, 0, 0]

/-- The scale has determined 50 kg. -/
def fiftyKilos : Vector Byte 8 := #v[3, 0, 0, 0, 0, 0, 0x48, 0x42]

/-- An iteration without a key event. -/
def idle (leadSw : Bool) (weight : Vector Byte 8) : Input where
  leadSw := leadSw
  weightRead := { buff := weight }
  keyRead := { buff := #v[0, 2] }

/-- An iteration that pushes `key`. -/
def pushing (key : Char) (leadSw : Bool) (weight : Vector Byte 8) : Input where
  leadSw := leadSw
  weightRead := { buff := weight }
  keyRead := { buff := #v[chr key, 1] }

/-- The keys of `s`, one an iteration, with the door closed. -/
def typing (s : String) : List Input := s.toList.map fun key => pushing key false noWeight

end Input

/-- A network that answers every request with an empty body. -/
def Net.silent : Net := fun _ => .ok []

/-- A connection that failed. -/
def Wifi.down : Wifi where
  connect := -1
  mac := []
  ip := []
  netmask := []
  gateway := []
  rssi := 0
  mac_length := by decide
  ip_length := by decide
  netmask_length := by decide
  gateway_length := by decide

end WeightScale
