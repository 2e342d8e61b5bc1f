import WeightScale.Model.Equeue
import WeightScale.Embedded.TimedQueue
import Mathlib.Algebra.Group.Nat.Defs

/-!
# What the event queue is for

The queue of timed postings that `equeue.c` implements. Times do not wrap around here, and
there is no memory: a posting has the event it was made with, its period and its callback.
-/

set_option autoImplicit false

namespace WeightScale

open Embedded

/-- A posted event with its period and its callback. -/
structure Posting (α : Type) where
  event : ℕ
  period : Int32
  cb : α

/-- The postings, and the one whose callback is running. -/
structure Timetable (α : Type) where
  queue : TimedQueue ℕ (Posting α)
  running : Option (Timed ℕ (Posting α)) := none

/-- Two times whose difference an `int` holds. -/
def Near (a b : ℕ) : Prop := a < b + 2 ^ 31 ∧ b < a + 2 ^ 31

instance (a b : ℕ) : Decidable (Near a b) := inferInstanceAs (Decidable (_ ∧ _))

namespace Timetable

variable {α : Type}

def create (now : ℕ) : Timetable α := ⟨{ tick := now }, none⟩

/-- A delay below 0 counts as none, and so does a time for a periodic posting that has
passed. -/
def step (t : Timetable α) (held : List ℕ) : DispatcherStep α → Timetable α
  | .post e delay period cb now =>
    if e ∈ held then { t with queue := t.queue.post (now + delay.toInt.toNat) ⟨e, period, cb⟩ }
    else t
  | .dequeue now =>
    match t.queue.batch, t.running with
    | [], none => { t with queue := t.queue.release now }
    | _, _ => t
  | .call =>
    match t.running with
    | none => { queue := t.queue.call, running := t.queue.batch.head? }
    | some _ => t
  | .done now =>
    match t.running with
    | some x =>
      if x.what.period ≥ 0 then
        { queue := t.queue.post (max (x.time + x.what.period.toInt.toNat) now) x.what }
      else { t with running := none }
    | none => t
  | .alloc _ => t
  | .dealloc _ => t

/-- No waiting posting is too far from the time that a step puts it beside. -/
def Timely (t : Timetable α) (held : List ℕ) : DispatcherStep α → Prop
  | .post e delay _ _ now =>
    e ∈ held → ∀ y ∈ t.queue.waiting, Near y.time (now + delay.toInt.toNat)
  | .dequeue now =>
    t.queue.batch = [] → t.running = none → ∀ y ∈ t.queue.waiting, Near y.time now
  | .done now =>
    ∀ x ∈ t.running, x.what.period ≥ 0 →
      Near (x.time + x.what.period.toInt.toNat) now ∧
        ∀ y ∈ t.queue.waiting, Near y.time (max (x.time + x.what.period.toInt.toNat) now)
  | .call => True
  | .alloc _ => True
  | .dealloc _ => True

instance (t : Timetable α) (held : List ℕ) (s : DispatcherStep α) :
    Decidable (t.Timely held s) :=
  match s with
  | .post e delay _ _ now =>
    inferInstanceAs (Decidable (e ∈ held → ∀ y ∈ t.queue.waiting,
      Near y.time (now + delay.toInt.toNat)))
  | .dequeue now =>
    inferInstanceAs (Decidable (t.queue.batch = [] → t.running = none →
      ∀ y ∈ t.queue.waiting, Near y.time now))
  | .done now =>
    inferInstanceAs (Decidable (∀ x ∈ t.running, x.what.period ≥ 0 →
      Near (x.time + x.what.period.toInt.toNat) now ∧
        ∀ y ∈ t.queue.waiting, Near y.time (max (x.time + x.what.period.toInt.toNat) now)))
  | .call => isTrue trivial
  | .alloc _ => isTrue trivial
  | .dealloc _ => isTrue trivial

end Timetable

/-- The event queue and its timetable, side by side. -/
def Dispatcher.stepTimed {α : Type} (s : Dispatcher α × Timetable α) (x : DispatcherStep α) :
    Dispatcher α × Timetable α := (s.1.step x, s.2.step s.1.held x)

/-- Every step is timely. -/
def Dispatcher.AllTimely {α : Type} :
    Dispatcher α × Timetable α → List (DispatcherStep α) → Prop
  | _, [] => True
  | s, x :: steps => s.2.Timely s.1.held x ∧ AllTimely (stepTimed s x) steps

instance Dispatcher.decidableAllTimely {α : Type} :
    ∀ (s : Dispatcher α × Timetable α) (steps : List (DispatcherStep α)),
      Decidable (AllTimely s steps)
  | _, [] => isTrue trivial
  | s, x :: steps =>
    have := decidableAllTimely (stepTimed s x) steps
    inferInstanceAs (Decidable (s.2.Timely s.1.held x ∧ AllTimely (stepTimed s x) steps))

/-- What a step posts. -/
def DispatcherStep.posts {α : Type} (held : List ℕ) : DispatcherStep α → List α
  | .post e _ _ cb _ => if e ∈ held then [cb] else []
  | _ => []

/-- The callbacks that are posted in a run, in the order of their posting. -/
def Dispatcher.posted {α : Type} : Dispatcher α → List (DispatcherStep α) → List α
  | _, [] => []
  | d, s :: steps => s.posts d.held ++ posted (d.step s) steps

/-- All postings are for now and for once, and the clock from which they are made does not
go back. -/
def Immediate {α : Type} : ℕ → List (DispatcherStep α) → Prop
  | _, [] => True
  | clock, .post _ delay period _ now :: steps =>
    delay ≤ 0 ∧ period < 0 ∧ clock ≤ now ∧ Immediate now steps
  | clock, _ :: steps => Immediate clock steps

end WeightScale
