import WeightScale.Model.Main
import WeightScale.Interface.Panel

/-!
# One iteration, as its observer sees it

The properties of the lock speak about the state at the key step of an iteration, about
the key that is handled there, and about what is called during the iteration. `command`
says what a `'*'` asks for by the keys typed in front of it: `00` and digits set the goal,
`0` and anything else sets the password, everything else is an attempt to unlock.
-/

set_option autoImplicit false

namespace WeightScale

open Embedded

namespace Input

/-- The weight sample of an iteration. -/
def weights (i : Input) : Weight := getWeight i.weightRead

/-- The key event of an iteration. -/
def keyData (i : Input) : Keymat := getKey i.keyRead

end Input

/-- What an entry asks for when `'*'` is pushed behind it. -/
inductive Command where
  | goal (digits : Text)
  | password (pass : Text)
  | attempt
deriving DecidableEq

/-- What `*` reads in an entry. -/
def command : Text → Command
  | [] => .attempt
  | [c] => if c = chr '0' then .password [] else .attempt
  | c :: c' :: rest =>
    if c = chr '0' then
      if c' = chr '0' then .goal rest else .password (c' :: rest)
    else .attempt

namespace Device

variable (net : Net) (d : Device) (i : Input)

/-- The program when the iteration comes to its key step. -/
def atKeyStep : Device := (d.weightBlock net i.weights).doorBlock i.leadSw

/-- The program after the key step. -/
def afterKeyStep : Device := (d.atKeyStep net i).keyBlock net i.keyData i.weights

/-- The key pushed at a key step that handles keys. -/
def pushedKey : Option Byte :=
  if (d.atKeyStep net i).sm.getState = .locked ∧ i.keyData.state = .push then some i.keyData.key
  else none

/-- The key step requests UNLOCKED: a correct password and weight were accepted. -/
def Unlocks : Prop :=
  (d.atKeyStep net i).sm.getState = .locked ∧ (d.afterKeyStep net i).sm.getState = .unlocked

instance : Decidable (d.Unlocks net i) := inferInstanceAs (Decidable (_ ∧ _))

/-- The calls made from one state of the program to a later one. -/
def callsDuring (d d' : Device) : List Call := d'.io.calls.drop d.io.calls.length

/-- The calls made by one iteration. -/
def callsOf : List Call := callsDuring d (d.loopBody net i)

/-- The commands to the display sent by one iteration. -/
def ledsOf : List LedCmd := (d.loopBody net i).io.leds.drop d.io.leds.length

/-- The lines of the display that one iteration updates. -/
def linesOf : List ℕ := (d.ledsOf net i).filterMap LedCmd.line

/-- An iteration by its key step. -/
theorem loopBody_eq :
    d.loopBody net i = ((d.afterKeyStep net i).targetBlock net).stateMain net := rfl

end Device

end WeightScale
