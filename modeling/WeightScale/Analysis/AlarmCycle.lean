import WeightScale.Model.EventThread
import WeightScale.Analysis.Effects
import WeightScale.Interface.Runs

/-!
# The life of an alarm

A failed attempt turns the lamp on and arms the timer whose event will turn it off. Arming
cancels an unexpired timer, so there is at most one; an event that the timer has posted
before stays in the queue and will turn off the lamp of the new attempt as well. The steps
here are those of the alarm alone, in any order.
-/

set_option autoImplicit false

namespace WeightScale

open Embedded

/-- A failed attempt, an entry of LOCKED, an expiry of the timer, a dispatch of an event. -/
inductive AlarmStep where
  | fail (pattern : Byte)
  | lock
  | expire
  | dispatch
deriving DecidableEq

/-- The failed attempts among the steps. -/
def attempts (ss : List AlarmStep) : ℕ :=
  ss.countP fun
    | .fail _ => true
    | _ => false

namespace Io

variable (net : Net) (io : Io)

/-- What each step does to the world outside. -/
def alarmStep (io : Io) : AlarmStep → Io
  | .fail pattern => io.unlockFailed net pattern
  | .lock => io.lockedInit net
  | .expire => io.expire
  | .dispatch => io.dispatch

/-- The slaves, with a display whose prints leave the cursor where it is. The cursor plays no
part in what follows. -/
def slaves (io : Io) : Panel := io.panel fun _ cursor => cursor

/-- The rotating lamp was last commanded on: to rotate, or to light, which are two commands.
It is off when both are off. -/
def LampOn (io : Io) : Prop := io.slaves.duty.getD 0 ≠ 0 ∨ io.slaves.lamp = some 1

instance : Decidable io.LampOn := inferInstanceAs (Decidable (_ ∨ _))

/-- A `kaiten_stop` is armed or posted. -/
def Pending (io : Io) : Prop := io.alarm.timeout1 ≠ none ∨ io.alarm.queue ≠ []

/-- No event of an earlier attempt is left in the queue when an attempt fails. -/
def NoneLeftOver (io : Io) (s : AlarmStep) : Prop := ∀ pattern, s = .fail pattern → io.alarm.queue = []

instance (s : AlarmStep) : Decidable (io.NoneLeftOver s) :=
  match s with
  | .fail pattern => decidable_of_iff (io.alarm.queue = [])
      ⟨fun h _ _ => h, fun h => h pattern rfl⟩
  | .lock => isTrue fun _ h => absurd h nofun
  | .expire => isTrue fun _ h => absurd h nofun
  | .dispatch => isTrue fun _ h => absurd h nofun

/-! ## The steps -/

/-- What the rotating lamp does is read off its two registers. -/
theorem lampOn_of_slaves {duty lamp : Byte} (hduty : io.slaves.duty = some duty)
    (hlamp : io.slaves.lamp = some lamp) : io.LampOn ↔ duty ≠ 0 ∨ lamp = 1 := by
  rw [LampOn, hduty, hlamp, Option.getD_some, Option.some_inj]

/-- A failed attempt turns on the rotation and the light and arms the timer. -/
theorem fail_step (pattern : Byte) :
    (io.alarmStep net (.fail pattern)).LampOn ∧
      (io.alarmStep net (.fail pattern)).alarm =
        { io.alarm with attached := io.alarm.attached + 1, timeout1 := some io.alarm.attached } := by
  have hseen : ((io.unlockFailed net pattern).seen fun _ cursor => cursor).panel.duty = some 50 ∧
      ((io.unlockFailed net pattern).seen fun _ cursor => cursor).panel.lamp = some 1 ∧
      ((io.unlockFailed net pattern).seen fun _ cursor => cursor).alarm =
        { io.alarm with attached := io.alarm.attached + 1, timeout1 := some io.alarm.attached } := by
    by_cases h : pattern = 0 ∨ pattern = 1 ∨ pattern = 2
    · rw [seen_unlockFailed _ net io h]
      simp [seen]
    · simp only [not_or] at h
      simp [unlockFailed, h, seen_cmdSetTextColor, seen_cmdSetLine _ _ (l := 3) (by decide),
        Seen.led]
      exact ⟨rfl, rfl⟩
  exact ⟨(lampOn_of_slaves _ hseen.1 hseen.2.1).2 (by decide), hseen.2.2⟩

/-- An entry of LOCKED turns both off and leaves the timer alone. -/
theorem lock_step :
    ¬ (io.alarmStep net .lock).LampOn ∧ (io.alarmStep net .lock).alarm = io.alarm := by
  have hseen : ((io.lockedInit net).seen fun _ cursor => cursor).panel.duty = some 0 ∧
      ((io.lockedInit net).seen fun _ cursor => cursor).panel.lamp = some 0 ∧
      ((io.lockedInit net).seen fun _ cursor => cursor).alarm = io.alarm := by
    rw [seen_lockedInit]
    simp [seen]
  refine ⟨?_, hseen.2.2⟩
  intro hon
  exact absurd ((lampOn_of_slaves _ hseen.1 hseen.2.1).1 hon) (by decide)

/-- An expiry moves the armed event into the queue. -/
theorem expire_step :
    ((io.alarmStep net .expire).LampOn ↔ io.LampOn) ∧
      (io.alarmStep net .expire).alarm =
        match io.alarm.timeout1 with
        | some event => { io.alarm with timeout1 := none, queue := io.alarm.queue ++ [event] }
        | none => io.alarm := by
  rw [alarmStep, expire]
  cases io.alarm.timeout1 <;> exact ⟨Iff.rfl, rfl⟩

/-- A dispatch with an empty queue does nothing. Any other turns both off. -/
theorem dispatch_step :
    (io.alarm.queue = [] ∧ io.alarmStep net .dispatch = io) ∨
      ∃ event queue, io.alarm.queue = event :: queue ∧ ¬ (io.alarmStep net .dispatch).LampOn ∧
        (io.alarmStep net .dispatch).alarm = { io.alarm with queue := queue } := by
  rw [alarmStep, dispatch]
  cases hq : io.alarm.queue with
  | nil => exact .inl ⟨rfl, rfl⟩
  | cons event queue =>
    right
    have hseen (io : Io) : (io.kaitenStop.seen fun _ cursor => cursor).panel.duty = some 0 ∧
        (io.kaitenStop.seen fun _ cursor => cursor).panel.lamp = some 0 ∧
        (io.kaitenStop.seen fun _ cursor => cursor).alarm = io.alarm := by
      rw [seen_kaitenStop]
      simp [seen]
    obtain ⟨hduty, hlamp, halarm⟩ :=
      hseen { io with alarm := { io.alarm with queue := queue } }
    refine ⟨event, queue, rfl, ?_, halarm⟩
    intro hon
    exact absurd ((lampOn_of_slaves _ hduty hlamp).1 hon) (by decide)

/-! ## Runs -/

/-- Events are numbered by the attempts that arm them. -/
theorem attached_run (ss : List AlarmStep) :
    (run (alarmStep net) {} ss).alarm.attached = attempts ss := by
  induction ss using List.reverseRecOn with
  | nil => rfl
  | append_singleton ss s ih =>
    rw [run_concat, attempts, List.countP_append, ← attempts]
    cases s with
    | fail pattern => rw [(fail_step net _ pattern).2, ih]; rfl
    | lock => rw [(lock_step net _).2, ih]; rfl
    | expire =>
      rw [(expire_step net _).2]
      split <;> exact ih
    | dispatch =>
      rcases dispatch_step net (run (alarmStep net) {} ss) with ⟨-, heq⟩ | ⟨event, queue, -, -, heq⟩
      · rw [heq, ih]; rfl
      · rw [heq]
        exact ih

/-- If a lit lamp has a stop pending before a step, it has one behind the step. -/
theorem pending_step (s : AlarmStep) (h : io.LampOn → io.Pending) :
    (io.alarmStep net s).LampOn → (io.alarmStep net s).Pending := by
  intro hon
  cases s with
  | fail pattern =>
    rw [Pending, (fail_step net io pattern).2]
    exact .inl (Option.some_ne_none _)
  | lock => exact absurd hon (lock_step net io).1
  | expire =>
    obtain ⟨hlamp, halarm⟩ := expire_step net io
    rw [Pending, halarm]
    cases ht : io.alarm.timeout1 with
    | some event => exact .inr (List.concat_ne_nil event io.alarm.queue)
    | none => exact h (hlamp.1 hon)
  | dispatch =>
    rcases dispatch_step net io with ⟨-, heq⟩ | ⟨event, queue, -, hoff, -⟩
    · rw [heq] at hon ⊢
      exact h hon
    · exact absurd hon hoff

/-- Nothing is armed or posted but by the last attempt. -/
structure OfLast (io : Io) : Prop where
  armed : ∀ event, io.alarm.timeout1 = some event →
    event + 1 = io.alarm.attached ∧ io.alarm.queue = []
  posted : ∀ event queue, io.alarm.queue = event :: queue →
    event + 1 = io.alarm.attached ∧ queue = []

/-- A step that leaves no earlier stop over keeps the timeout that of the last attempt. -/
theorem OfLast.alarmStep {io : Io} (h : io.OfLast) {s : AlarmStep} (hs : io.NoneLeftOver s) :
    (io.alarmStep net s).OfLast := by
  cases s with
  | fail pattern =>
    have hq := hs pattern rfl
    have halarm := (fail_step net io pattern).2
    constructor
    · intro event harmed
      rw [halarm] at harmed ⊢
      obtain rfl := Option.some.inj harmed
      exact ⟨rfl, hq⟩
    · intro event queue hposted
      rw [halarm, hq] at hposted
      exact absurd hposted (List.cons_ne_nil event queue).symm
  | lock =>
    have halarm := (lock_step net io).2
    constructor
    · rw [halarm]
      exact h.armed
    · rw [halarm]
      exact h.posted
  | expire =>
    have halarm := (expire_step net io).2
    cases ht : io.alarm.timeout1 with
    | none =>
      rw [ht] at halarm
      constructor
      · rw [halarm]
        exact h.armed
      · rw [halarm]
        exact h.posted
    | some e =>
      rw [ht] at halarm
      obtain ⟨hlast, hempty⟩ := h.armed e ht
      constructor
      · intro event harmed
        rw [halarm] at harmed
        exact absurd harmed nofun
      · intro event queue hposted
        rw [halarm, hempty] at hposted
        obtain ⟨rfl, rfl⟩ := List.cons.inj hposted
        rw [halarm]
        exact ⟨hlast, rfl⟩
  | dispatch =>
    rcases dispatch_step net io with ⟨-, heq⟩ | ⟨e, queue, hq, -, halarm⟩
    · rw [heq]
      exact h
    · obtain ⟨hlast, rfl⟩ := h.posted e queue hq
      constructor
      · intro event harmed
        rw [halarm] at harmed
        have hnone := (h.armed event harmed).2
        rw [hq] at hnone
        exact absurd hnone (List.cons_ne_nil e [])
      · intro event queue hposted
        rw [halarm] at hposted
        exact absurd hposted (List.cons_ne_nil event queue).symm

/-- **The life of an alarm.** In every order of the steps: while the lamp is on a
`kaiten_stop` is pending. And as long as no attempt fails with an event left in the queue,
the lamp goes off only by an entry of LOCKED or by the event that the last attempt armed. -/
theorem alarm_life_cycle (net : Net) (ss : List AlarmStep) :
    ((run (alarmStep net) {} ss).LampOn → (run (alarmStep net) {} ss).Pending) ∧
      (Along (alarmStep net) NoneLeftOver {} ss →
        ∀ s, (run (alarmStep net) {} ss).LampOn → ¬ (run (alarmStep net) {} (ss ++ [s])).LampOn →
          s = .lock ∨ s = .dispatch ∧ ∃ event queue,
            (run (alarmStep net) {} ss).alarm.queue = event :: queue ∧ event + 1 = attempts ss) := by
  constructor
  · exact run_invariant (P := fun io : Io => io.LampOn → io.Pending) ss
      (fun hon => absurd hon (by decide)) fun io s _ h => pending_step net io s h
  · intro halong s hon hoff
    have hlast : (run (alarmStep net) {} ss).OfLast := by
      refine run_invariant_along (P := fun io : Io => io.OfLast) halong ⟨nofun, nofun⟩ ?_
      exact fun io s hs h => h.alarmStep net hs
    rw [run_concat] at hoff
    rw [← attached_run net ss]
    generalize run (alarmStep net) {} ss = io at hon hoff hlast
    cases s with
    | fail pattern => exact absurd (fail_step net io pattern).1 hoff
    | lock => exact .inl rfl
    | expire => exact absurd ((expire_step net io).1.2 hon) hoff
    | dispatch =>
      rcases dispatch_step net io with ⟨-, heq⟩ | ⟨event, queue, hq, -, -⟩
      · rw [heq] at hoff
        exact absurd hon hoff
      · exact .inr ⟨rfl, event, queue, hq, (hlast.posted event queue hq).1⟩

/-- Two refused attempts in a row: the second restarts the timeout of the first. -/
theorem alarm_life_cycle_twice :
    let ss : List AlarmStep := [.fail 0, .fail 0, .expire]
    (run (alarmStep .silent) {} ss).Pending ∧
      ∃ event queue, (run (alarmStep .silent) {} ss).alarm.queue = event :: queue ∧
        event + 1 = attempts ss := by
  intro ss
  obtain ⟨hpending, hlast⟩ := alarm_life_cycle .silent ss
  refine ⟨hpending (by decide +kernel), ?_⟩
  exact ((hlast (by decide +kernel) .dispatch (by decide +kernel) (by decide +kernel)).resolve_left
    nofun).2

/-- The event of the first attempt turns off the lamp of the second. -/
theorem stopped_by_first_attempt :
    let ss : List AlarmStep := [.fail 0, .expire, .fail 0]
    ((run (alarmStep .silent) {} ss).LampOn ∧
        ¬ (run (alarmStep .silent) {} (ss ++ [.dispatch])).LampOn) ∧
      (run (alarmStep .silent) {} ss).alarm.queue = [0] ∧ attempts ss = 2 := by
  decide +kernel

end Io

end WeightScale
