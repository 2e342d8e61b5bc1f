import WeightScale.Embedded.CString

/-!
# `Password.cpp`

The stored password and the entry being typed are two arrays of twenty chars. The entry
is what was appended since the last `reset`, with a terminator behind it; what an earlier,
longer entry left behind the terminator stays there.
-/

set_option autoImplicit false

namespace WeightScale

open Embedded

/-- `MAX_PASSWORD_LENGTH`. -/
abbrev maxPasswordLength : ℕ := 20

/-- `class Password`. -/
structure Password where
  target : CharArray maxPasswordLength
  guess : CharArray maxPasswordLength
  currentIndex : Byte
deriving DecidableEq

namespace Password

/-! The operations, with every access to the arrays checked: they fail on the first one that
lies outside. -/

/-- Password.cpp:42-44 -/
def set? (pass : Text) (p : Password) : Option Password := do
  let target ← p.target.strcpy? pass
  some { p with target := target }

/-- Password.cpp:57-65 -/
def append? (character : Byte) (p : Password) : Option Password :=
  if p.currentIndex.toNat + 1 = maxPasswordLength then some p
  else do
    let guess ← p.guess.store? p.currentIndex.toNat character
    let currentIndex := p.currentIndex + 1
    let guess ← guess.store? currentIndex.toNat 0
    some { p with guess := guess, currentIndex := currentIndex }

/-- Password.cpp:68-71 -/
def reset? (p : Password) : Option Password := do
  let guess ← p.guess.store? 0 0
  some { p with currentIndex := 0, guess := guess }

/-- The loop of `evaluate`, entered at index `i` with the chars `pass` and `guessed` read
before and `n` rounds left. -/
def evaluateFrom? (p : Password) : ℕ → ℕ → Byte → Byte → Option Bool
  | 0, _, _, _ => some false
  | n + 1, i, pass, guessed =>
    if pass = 0 ∧ guessed = 0 then some true
    else if pass ≠ guessed ∨ pass = 0 ∨ guessed = 0 then some false
    else do
      let pass ← p.target.load? i
      let guessed ← p.guess.load? i
      evaluateFrom? p n (i + 1) pass guessed

/-- Password.cpp:83-100 -/
def evaluate? (p : Password) : Option Bool := do
  let pass ← p.target.load? 0
  let guessed ← p.guess.load? 0
  p.evaluateFrom? (maxPasswordLength - 1) 1 pass guessed

/-- The object before its constructor has run is static memory. -/
def static : Password := ⟨CharArray.zeros _, CharArray.zeros _, 0⟩

/-- `Password(pass)`. Password.cpp:36-39 -/
def new? (pass : Text) : Option Password := do
  let p ← static.set? pass
  p.reset?

/-! The operations of a program whose accesses lie inside, as those of this one do. -/

def set (pass : Text) (p : Password) : Password := (p.set? pass).getD p

def append (character : Byte) (p : Password) : Password := (p.append? character).getD p

def reset (p : Password) : Password := p.reset?.getD p

def evaluate (p : Password) : Bool := p.evaluate?.getD false

def new (pass : Text) : Password := (new? pass).getD static

end Password

end WeightScale
