import WeightScale.Model.EventThread
import WeightScale.Analysis.Coherence

/-!
# The alarm and the state it was raised in

A failed attempt arms a timer, and five seconds later `kaiten_stop` turns the lamp off and
prints LOCKED, whatever the state machine has moved to by then. As long as it never runs
while UNLOCKED, the status line and the lamp tell the state and the door.
-/

set_option autoImplicit false

namespace WeightScale

open Embedded

namespace Device

variable (net : Net) (wifi : Wifi) (leadSw : Bool) {d : Device} (i : Input)

/-- The inputs of the iterations among `ss`. -/
def inputs (ss : List SystemStep) : List Input :=
  ss.filterMap fun
    | .iterate i => some i
    | _ => none

/-- The door was seen to open while in UNLOCKED, and has not been seen closed since. -/
def OpenedSinceUnlock (ss : List SystemStep) : Prop :=
  ∃ pre i post, ss = pre ++ .iterate i :: post ∧
    (system net wifi leadSw pre).sm.oldState = .unlocked ∧
    lastSample leadSw (inputs pre) = false ∧ i.leadSw = true ∧ ∀ j ∈ inputs post, j.leadSw = true

/-- At the end of every iteration with no `kaiten_stop` pending, the status line tells
whether the state is UNLOCKED, and the lamp is on there once the door has been opened. -/
def StatusAgrees (advance : Advance) (ss : List SystemStep) : Prop :=
  ∀ pre i post, ss = pre ++ .iterate i :: post →
    let ss := pre ++ [.iterate i]
    let d := system net wifi leadSw ss
    d.io.alarm.timeout1 = none → d.io.alarm.queue = [] →
      (d.io.shown advance 3 = [ascii "UNLOCKED\n"] ↔ d.sm.oldState = .unlocked) ∧
      (d.sm.oldState = .unlocked → OpenedSinceUnlock net wifi leadSw ss →
        (d.io.panel advance).lamp = some 1)

/-- A run with one more step is that step behind the run. -/
theorem system_concat (ss : List SystemStep) (s : SystemStep) :
    system net wifi leadSw (ss ++ [s]) = (system net wifi leadSw ss).systemStep net s :=
  run_concat _ _ _

/-- A run with one more iteration is the loop body behind the run. -/
theorem system_concat_iterate (ss : List SystemStep) (i : Input) :
    system net wifi leadSw (ss ++ [.iterate i]) = (system net wifi leadSw ss).loopBody net i :=
  run_concat _ _ _

/-! ## What the event thread leaves alone -/

/-- Readiness reads nothing of the world outside. -/
theorem Ready.onIo (h : d.Ready) (f : Io → Io) : (d.onIo f).Ready :=
  ⟨by rw [password_onIo]; exact h.wellFormed, by rw [sm_onIo]; exact h.requested,
    by rw [sm_onIo]; exact h.next, by rw [sm_onIo]; exact h.current,
    by rw [sm_onIo, password_onIo]; exact h.untyped⟩

/-- Every step of the system keeps the device ready for the next iteration. -/
theorem Ready.systemStep (h : d.Ready) (s : SystemStep) : (d.systemStep net s).Ready := by
  cases s with
  | iterate i => exact (h.settled_loopBody net i).toReady
  | expire => exact h.onIo _
  | dispatch => exact h.onIo _

/-- The device is ready for the next iteration in every run. -/
theorem ready_system (ss : List SystemStep) : (system net wifi leadSw ss).Ready :=
  run_invariant ss (ready_startUp wifi leadSw) fun _ s _ h => h.systemStep net s

/-- An iteration adds its input to the inputs of a run. -/
theorem inputs_concat_iterate (ss : List SystemStep) :
    inputs (ss ++ [.iterate i]) = inputs ss ++ [i] := by
  simp [inputs]

/-- Any other step leaves the inputs of a run as they are. -/
theorem inputs_concat_of_ne (ss : List SystemStep) {s : SystemStep} (hs : ∀ i, s ≠ .iterate i) :
    inputs (ss ++ [s]) = inputs ss := by
  cases s with
  | iterate i => exact absurd rfl (hs i)
  | expire => simp [inputs]
  | dispatch => simp [inputs]

/-- The remembered door is the last sample of the loop, and closed before the first one. -/
theorem doorOpenOld_system (ss : List SystemStep) :
    (system net wifi leadSw ss).doorOpenOld =
      if inputs ss = [] then false else lastSample leadSw (inputs ss) := by
  induction ss using List.reverseRecOn with
  | nil => exact doorOpenOld_startUp wifi leadSw
  | append_singleton ss s ih =>
    rw [system_concat]
    cases s with
    | iterate i =>
      rw [inputs_concat_iterate, lastSample_concat, if_neg (by simp)]
      exact doorOpenOld_loopBody net _ i (ready_system net wifi leadSw ss).wellFormed
    | expire =>
      rw [inputs_concat_of_ne _ (by simp), ← ih]
      exact doorOpenOld_onIo _ _
    | dispatch =>
      rw [inputs_concat_of_ne _ (by simp), ← ih]
      exact doorOpenOld_onIo _ _

/-! ## Status line and lamp through one step -/

section step

variable (advance : Advance)

/-- While unlocked with no closing door, `*` checks no password and the request stays UNLOCKED. -/
theorem attemptAt_eq_none_of_unlocked (h : d.Ready) (hu : d.sm.oldState = .unlocked)
    (hclose : ¬ (d.doorOpenOld = true ∧ i.leadSw = false)) :
    d.attemptAt net i = none ∧ d.request net i = .unlocked := by
  have hg : d.sm.gState = .unlocked := by
    rcases h.current with hc | hc
    · rw [← hc, hu]
    · rw [hu] at hc
      contradiction
  have hno := pushedKey_eq_none_of_unlocked net i hclose hg
  refine ⟨by simp [attemptAt, hno], ?_⟩
  rw [request_eq net d i h.wellFormed, hg, if_neg hclose, ite_self]

/-- The status row in front of the transition is written by the attempt of the iteration alone. -/
theorem shown_beforeTrans (h : d.password.WellFormed) :
    (targetSeen advance ((d.afterKeyStep net i).seen advance) d.targetWeightOld
      (d.afterKeyStep net i).targetWeight).shown 3 =
      match d.attemptAt net i with
      | some (some pattern) => [Io.failureText pattern]
      | _ => (d.seen advance).shown 3 := by
  rw [shown_targetSeen advance _ _ _ (by decide), seen_afterKeyStep advance net d i h,
    shown_entrySeen advance _ _ (by decide), seen_atKeyStep]
  have hbefore : ∀ w stableOld t x y,
      (doorSeen (weightSeen advance (d.seen advance) w stableOld t) x y).shown 3 =
        (d.seen advance).shown 3 := by
    intro w stableOld t x y
    rw [shown_doorSeen, shown_weightSeen advance _ _ _ _ (by decide)]
  cases d.attemptAt net i with
  | none => exact hbefore _ _ _ _ _
  | some v =>
    cases v with
    | none => exact hbefore _ _ _ _ _
    | some pattern => simp [attemptSeen]

/-- An attempt that fails is made with LOCKED requested, and leaves it so. -/
theorem request_of_failed (h : d.password.WellFormed) {pattern : Byte}
    (hfail : d.attemptAt net i = some (some pattern)) : d.request net i = .locked := by
  have hsm : (d.afterKeyStep net i).sm = (d.atKeyStep net i).sm := by
    rw [sm_afterKeyStep net d i h, hfail]; rfl
  cases hk : d.pushedKey net i with
  | none => simp [attemptAt, hk] at hfail
  | some k =>
    rw [request, hsm]
    exact (pushedKey_eq_some net d i hk).1

/-- No text of a refused attempt is the text of the unlocked state. -/
theorem failureText_ne (pattern : Byte) : Io.failureText pattern ≠ ascii "UNLOCKED\n" := by
  unfold Io.failureText
  split
  · decide
  · split <;> decide

/-- **The status line through an iteration.** -/
theorem status_loopBody (h : d.Ready)
    (hline : (d.seen advance).shown 3 = [ascii "UNLOCKED\n"] ↔ d.sm.oldState = .unlocked) :
    ((d.loopBody net i).seen advance).shown 3 = [ascii "UNLOCKED\n"] ↔
      (d.loopBody net i).sm.oldState = .unlocked := by
  have hbefore := shown_beforeTrans net i advance h.wellFormed
  rw [h.sm_loopBody, seen_loopBody advance net d i h.wellFormed, transSeen]
  by_cases heq : d.sm.oldState = d.request net i
  · rw [if_neg (by simp [heq]), hbefore]
    cases hatt : d.attemptAt net i with
    | none => rw [hline, heq]
    | some v =>
      cases v with
      | none => rw [hline, heq]
      | some pattern =>
        have hreq := request_of_failed net i h.wellFormed hatt
        simp [hreq, failureText_ne]
  · have hp := (h.request_permitted net i).resolve_left (Ne.symm heq)
    rw [if_pos heq, transTo_of_permitted hp]
    rcases h.request_range net i with hr | hr
    · have hne : ascii "LOCKED\n" ≠ ascii "UNLOCKED\n" := by decide
      simp [hr, initSeen, hne]
    · simp [hr, initSeen]

/-- **The lamp through an iteration in UNLOCKED** in which the door is open. -/
theorem lamp_loopBody (h : d.Ready) (hu : d.sm.oldState = .unlocked) (hopen : i.leadSw = true) :
    (d.loopBody net i).sm.oldState = .unlocked ∧
      ((d.loopBody net i).seen advance).panel.lamp =
        if d.doorOpenOld = true then (d.seen advance).panel.lamp else some 1 := by
  obtain ⟨hatt, hreq⟩ := attemptAt_eq_none_of_unlocked net i h hu (by simp [hopen])
  constructor
  · rw [h.sm_loopBody, hreq]
  · rw [seen_loopBody advance net d i h.wellFormed, transSeen, if_neg (by simp [hu, hreq]),
      seen_afterKeyStep advance net d i h.wellFormed, seen_atKeyStep, hatt]
    cases hdoor : d.doorOpenOld <;> simp [attemptSeen, hopen]

end step

/-! ## Whole runs -/

/-- What a run keeps in which `kaiten_stop` never runs while UNLOCKED. -/
structure Told (advance : Advance) (ss : List SystemStep) : Prop where
  line : ((system net wifi leadSw ss).seen advance).shown 3 = [ascii "UNLOCKED\n"] ↔
    (system net wifi leadSw ss).sm.oldState = .unlocked
  lamp : OpenedSinceUnlock net wifi leadSw ss →
    (system net wifi leadSw ss).sm.oldState = .unlocked ∧
      (system net wifi leadSw ss).doorOpenOld = true ∧
      ((system net wifi leadSw ss).seen advance).panel.lamp = some 1

/-- The last step of a run that opened the door since unlocking either kept the door open or
opened it. -/
theorem OpenedSinceUnlock.of_concat {ss : List SystemStep} {s : SystemStep}
    (h : OpenedSinceUnlock net wifi leadSw (ss ++ [s])) :
    (OpenedSinceUnlock net wifi leadSw ss ∧ ∀ i, s = .iterate i → i.leadSw = true) ∨
      (∃ i, s = .iterate i ∧ (system net wifi leadSw ss).sm.oldState = .unlocked ∧
        lastSample leadSw (inputs ss) = false ∧ i.leadSw = true) := by
  obtain ⟨pre, i, post, heq, hu, hclosed, hopen, hpost⟩ := h
  rcases List.eq_nil_or_concat post with rfl | ⟨post, s', rfl⟩
  · right
    obtain ⟨rfl, hs⟩ := List.append_inj' heq rfl
    exact ⟨i, List.head_eq_of_cons_eq hs, hu, hclosed, hopen⟩
  · left
    rw [List.concat_eq_append] at heq hpost
    rw [← List.cons_append, ← List.append_assoc] at heq
    obtain ⟨rfl, hs⟩ := List.append_inj' heq rfl
    rw [List.head_eq_of_cons_eq hs]
    constructor
    · refine ⟨pre, i, post, rfl, hu, hclosed, hopen, ?_⟩
      intro j hj
      apply hpost j
      rw [inputs, List.filterMap_append]
      exact List.mem_append_left _ hj
    · rintro j rfl
      apply hpost j
      rw [inputs_concat_iterate]
      simp

/-- The status row is right before the first step. -/
theorem told_startUp (advance : Advance) : Told net wifi leadSw advance [] := by
  constructor
  · rw [system, run_nil, seen_startUp, sm_startUp, Seen.shown_update, if_neg (by decide)]
    simp [Seen.shown, Display.line]
  · rintro ⟨pre, i, post, heq, -⟩
    simp at heq

/-- The expiry of the timeout writes nothing to the display. -/
theorem panel_expire (advance : Advance) (io : Io) :
    (io.expire.seen advance).panel = (io.seen advance).panel := by
  unfold Io.expire
  split <;> rfl

/-- A dispatch writes `LOCKED` to the status row if an event is queued, and nothing otherwise. -/
theorem panel_dispatch (advance : Advance) (io : Io) :
    (io.alarm.queue = [] ∧ io.dispatch = io) ∨
      (io.alarm.queue ≠ [] ∧ (io.dispatch.seen advance).shown 3 = [ascii "LOCKED\n"]) := by
  unfold Io.dispatch
  cases hq : io.alarm.queue with
  | nil => exact .inl ⟨rfl, rfl⟩
  | cons event queue =>
    right
    refine ⟨by simp, ?_⟩
    dsimp only
    rw [Io.seen_kaitenStop]
    simp

/-- A step that leaves the program and the panel alone. -/
theorem Told.of_panel_eq {advance : Advance} {ss : List SystemStep} {s : SystemStep} {f : Io → Io}
    (h : Told net wifi leadSw advance ss) (hs : ∀ i, s ≠ .iterate i)
    (hstep : (system net wifi leadSw ss).systemStep net s = (system net wifi leadSw ss).onIo f)
    (hpanel : ((f (system net wifi leadSw ss).io).seen advance).panel =
      ((system net wifi leadSw ss).seen advance).panel) :
    Told net wifi leadSw advance (ss ++ [s]) := by
  constructor
  · rw [system_concat, hstep, seen_onIo, sm_onIo, Seen.shown, hpanel]
    exact h.line
  · intro hopened
    rw [system_concat, hstep, seen_onIo, sm_onIo, doorOpenOld_onIo, hpanel]
    rcases OpenedSinceUnlock.of_concat net wifi leadSw hopened with ⟨hss, -⟩ | ⟨i, hi, -⟩
    · exact h.lamp hss
    · exact absurd hi (hs i)

/-- One step keeps the status row right, unless it dispatches a stale event while unlocked. -/
theorem Told.concat {advance : Advance} {ss : List SystemStep} {s : SystemStep}
    (h : Told net wifi leadSw advance ss)
    (hs : s = .dispatch → (system net wifi leadSw ss).io.alarm.queue ≠ [] →
      (system net wifi leadSw ss).sm.oldState ≠ .unlocked) :
    Told net wifi leadSw advance (ss ++ [s]) := by
  have hd := ready_system net wifi leadSw ss
  cases s with
  | iterate i =>
    constructor
    · rw [system_concat_iterate]
      exact status_loopBody net i advance hd h.line
    · intro hopened
      rw [system_concat_iterate, doorOpenOld_loopBody net _ i hd.wellFormed]
      rcases OpenedSinceUnlock.of_concat net wifi leadSw hopened with
        ⟨hss, hi⟩ | ⟨j, hj, hu, hclosed, hopen⟩
      · obtain ⟨hu, hdoor, hlamp⟩ := h.lamp hss
        obtain ⟨hstay, hkeep⟩ := lamp_loopBody net i advance hd hu (hi i rfl)
        rw [hdoor, if_pos rfl, hlamp] at hkeep
        exact ⟨hstay, hi i rfl, hkeep⟩
      · obtain rfl : i = j := by injection hj
        have hdoor : (system net wifi leadSw ss).doorOpenOld = false := by
          rw [doorOpenOld_system]
          split
          · rfl
          · exact hclosed
        obtain ⟨hstay, hkeep⟩ := lamp_loopBody net i advance hd hu hopen
        rw [hdoor] at hkeep
        exact ⟨hstay, hopen, hkeep⟩
  | expire =>
    exact h.of_panel_eq net wifi leadSw (by simp) rfl (panel_expire advance _)
  | dispatch =>
    rcases panel_dispatch advance (system net wifi leadSw ss).io with ⟨-, hsame⟩ | ⟨hq, hline⟩
    · refine h.of_panel_eq net wifi leadSw (f := Io.dispatch) (by simp) rfl ?_
      rw [hsame]; rfl
    · have hne := hs rfl hq
      have hlocked : ascii "LOCKED\n" ≠ ascii "UNLOCKED\n" := by decide
      constructor
      · rw [system_concat]
        show ((system net wifi leadSw ss).io.dispatch.seen advance).shown 3 = _ ↔
          (system net wifi leadSw ss).sm.oldState = _
        rw [hline]
        simp [hlocked, hne]
      · intro hopened
        rcases OpenedSinceUnlock.of_concat net wifi leadSw hopened with ⟨hss, -⟩ | ⟨i, hi, -⟩
        · exact absurd (h.lamp hss).1 hne
        · contradiction

/-- **Status line and lamp agree with the state** in every run of iterations, expiries and
dispatches in which no `kaiten_stop` runs while the state machine is in UNLOCKED. -/
theorem statusAgrees_of_no_late_stop (net : Net) (wifi : Wifi) (leadSw : Bool) (advance : Advance)
    (ss : List SystemStep)
    (h : Along (systemStep net)
      (fun d s => s = .dispatch → d.io.alarm.queue ≠ [] → d.sm.oldState ≠ .unlocked)
      (startUp wifi leadSw) ss) :
    StatusAgrees net wifi leadSw advance ss := by
  have told : ∀ ss, Along (systemStep net)
      (fun d s => s = .dispatch → d.io.alarm.queue ≠ [] → d.sm.oldState ≠ .unlocked)
      (startUp wifi leadSw) ss → Told net wifi leadSw advance ss := by
    intro ss hss
    induction ss using List.reverseRecOn with
    | nil => exact told_startUp net wifi leadSw advance
    | append_singleton ss s ih =>
      rw [along_concat] at hss
      exact (ih hss.1).concat net wifi leadSw hss.2
  intro pre i post heq
  have hsplit : ss = (pre ++ [.iterate i]) ++ post := by
    rw [heq, List.append_assoc]; rfl
  rw [hsplit, along_append] at h
  have htold := told _ h.1
  intro _ _ _ _
  exact ⟨htold.line, fun _ hopened => (htold.lamp hopened).2.2⟩

/-- The condition is met by a run with an alarm dispatched at once and an unlocking behind it. -/
theorem statusAgrees_prompt_alarm :
    StatusAgrees .silent .down false (fun _ c => c)
      ((Input.typing "9*").map .iterate ++ [.expire, .dispatch] ++
        (Input.typing "1234" ++ [Input.pushing '*' false Input.fiftyKilos,
          Input.idle true Input.fiftyKilos]).map .iterate) :=
  statusAgrees_of_no_late_stop .silent .down false _ _ (by decide +kernel)

/-- A failed attempt, an unlocking, and then the alarm of the failed attempt. -/
def staleAlarm : List SystemStep :=
  (Input.typing "*1234" ++ [Input.pushing '*' false Input.fiftyKilos]).map .iterate ++
    [.expire, .dispatch]

/-- A stale event dispatched while unlocked ends with a row that says `LOCKED`. -/
theorem not_statusAgrees_stale_alarm :
    ¬ StatusAgrees .silent .down false (fun _ c => c)
      (staleAlarm ++ [.iterate (Input.idle false Input.fiftyKilos)]) := by
  intro h
  have hagrees := h staleAlarm (Input.idle false Input.fiftyKilos) [] rfl
  have hrun :
      let d := system .silent .down false
        (staleAlarm ++ [.iterate (Input.idle false Input.fiftyKilos)])
      d.io.alarm.timeout1 = none ∧ d.io.alarm.queue = [] ∧ d.sm.oldState = .unlocked ∧
        d.io.shown (fun _ c => c) 3 ≠ [ascii "UNLOCKED\n"] := by
    decide +kernel
  obtain ⟨htimeout, hqueue, hunlocked, hline⟩ := hrun
  exact hline ((hagrees htimeout hqueue).1.2 hunlocked)

end Device

end WeightScale
