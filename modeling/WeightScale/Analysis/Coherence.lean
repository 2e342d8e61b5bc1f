import Mathlib.Data.List.Chain
import WeightScale.Interface.Runs
import WeightScale.Analysis.Iteration

/-!
# What every run keeps

The requested state, the state `state_trans` is in, and the entry being typed stay in
agreement: a program that has been through its first iteration is `Settled`, and the one
the loop starts from is `Ready`, which allows the state machine to be in INIT still. On top
of that the servo and the notifications follow the state.
-/

set_option autoImplicit false

namespace WeightScale

open Embedded

namespace Device

variable (net : Net) (wifi : Wifi) (leadSw : Bool) (d : Device) (i : Input)

/-! ## Requested and current state -/

/-- The program at an iteration boundary. -/
structure Ready (d : Device) : Prop where
  wellFormed : d.password.WellFormed
  requested : d.sm.gState = .locked ∨ d.sm.gState = .unlocked
  next : d.sm.nextState = d.sm.oldState
  current : d.sm.oldState = d.sm.gState ∨ d.sm.oldState = .init
  untyped : d.sm.gState = .unlocked → d.password.entry = []

/-- The program at the end of an iteration. -/
structure Settled (d : Device) : Prop extends Ready d where
  settled : d.sm.oldState = d.sm.gState

variable {d}

/-- The machine starts in INIT, with the request the door sample asks for. -/
theorem sm_startUp :
    (startUp wifi leadSw).sm = ⟨if leadSw = false then .locked else .unlocked, .init, .init⟩ := by
  cases leadSw <;> simp [startUp, StateMachine.setState]

/-- The password starts as `1234`, with nothing typed. -/
theorem password_startUp : (startUp wifi leadSw).password = .new (ascii "1234") := by
  cases leadSw <;> simp [startUp]

/-- The target weight starts as 100. -/
theorem targetWeight_startUp : (startUp wifi leadSw).targetWeight = .ofInt 100 := by
  cases leadSw <;> simp [startUp]

/-- The remembered door starts as closed, whatever the door sample before the loop was. -/
theorem doorOpenOld_startUp : (startUp wifi leadSw).doorOpenOld = false := by
  cases leadSw <;> simp [startUp]

/-- The remembered weight starts as zero and not stable. -/
theorem weightsOld_startUp : (startUp wifi leadSw).weightsOld = ⟨0, ⟨0⟩⟩ := by
  cases leadSw <;> simp [startUp]

/-- The device is ready for its first iteration. -/
theorem ready_startUp : (startUp wifi leadSw).Ready where
  wellFormed := by
    rw [password_startUp]
    exact Password.wellFormed_new (by decide)
  requested := by
    rw [sm_startUp]
    cases leadSw <;> simp
  next := by rw [sm_startUp]
  current := by
    rw [sm_startUp]
    exact .inr rfl
  untyped _ := by rw [password_startUp, Password.entry_new (by decide)]

/-- While unlocked with no closing door, no key reaches the keypad event. -/
theorem pushedKey_eq_none_of_unlocked (hclose : ¬ (d.doorOpenOld = true ∧ i.leadSw = false))
    (h : d.sm.gState = .unlocked) : d.pushedKey net i = none := by
  have hsm : (d.atKeyStep net i).sm = d.sm := by rw [sm_atKeyStep, if_neg hclose]
  simp [pushedKey, hsm, StateMachine.getState, h]

/-- What is presented to `state_main` is LOCKED or UNLOCKED. -/
theorem Ready.request_range (h : d.Ready) :
    d.request net i = .locked ∨ d.request net i = .unlocked := by
  rw [request_eq net d i h.wellFormed]
  split
  · exact .inr rfl
  · split
    · exact .inl rfl
    · exact h.requested

/-- What is presented to `state_main` is the state it is in or one the table permits. -/
theorem Ready.request_permitted (h : d.Ready) :
    d.request net i = d.sm.oldState ∨ Permitted d.sm.oldState (d.request net i) := by
  rcases h.current with hold | hold
  · rcases h.requested with hg | hg
    · rcases h.request_range net i with hr | hr
      · exact .inl (by rw [hr, hold, hg])
      · exact .inr (by rw [hr, hold, hg]; exact .unlock)
    · rcases h.request_range net i with hr | hr
      · exact .inr (by rw [hr, hold, hg]; exact .lock)
      · exact .inl (by rw [hr, hold, hg])
  · rcases h.request_range net i with hr | hr
    · exact .inr (by rw [hr, hold]; exact .lockFirst)
    · exact .inr (by rw [hr, hold]; exact .unlockFirst)

/-- **Every request is followed.** -/
theorem Ready.sm_loopBody (h : d.Ready) :
    (d.loopBody net i).sm = ⟨d.request net i, d.request net i, d.request net i⟩ := by
  rw [Device.sm_loopBody net d i h.wellFormed]
  split
  · rename_i heq
    rw [h.next, heq]
  · rename_i hne
    rcases h.request_permitted net i with heq | hp
    · exact absurd heq.symm hne
    · rw [transTo_of_permitted hp]

/-- The entry is empty where keys are not handled. -/
theorem Ready.entry_loopBody (h : d.Ready) (hr : d.request net i = .unlocked) :
    (d.loopBody net i).password.entry = [] := by
  rw [password_loopBody net d i h.wellFormed]
  by_cases hu : d.Unlocks net i
  · rw [((unlocks_iff net d i h.wellFormed).1 hu).1]
    simp [Password.entry_press h.wellFormed]
  · rw [request_eq net d i h.wellFormed, if_neg hu] at hr
    split at hr
    · contradiction
    · rename_i hclose
      rw [pushedKey_eq_none_of_unlocked net i hclose hr]
      exact h.untyped hr

/-- Behind an iteration the machine has taken over its request. -/
theorem Ready.settled_loopBody (h : d.Ready) : (d.loopBody net i).Settled := by
  have hsm := h.sm_loopBody net i
  have hwf : (d.loopBody net i).password.WellFormed := by
    rw [password_loopBody net d i h.wellFormed]
    split
    · exact Password.wellFormed_press h.wellFormed _
    · exact h.wellFormed
  refine ⟨⟨hwf, ?_, ?_, ?_, ?_⟩, ?_⟩
  · rw [hsm]; exact h.request_range net i
  · rw [hsm]
  · rw [hsm]; exact .inl rfl
  · intro hg
    rw [hsm] at hg
    exact h.entry_loopBody net i hg
  · rw [hsm]

/-- Any iterations keep the device ready. -/
theorem ready_run (h : d.Ready) (is : List Input) : (run (loopBody net) d is).Ready :=
  run_invariant is h fun _ i _ h => (h.settled_loopBody net i).toReady

/-- The device is ready behind any iterations of `com_main`. -/
theorem ready_comMain (is : List Input) : (comMain net wifi leadSw is).Ready :=
  ready_run net (ready_startUp wifi leadSw) is

/-- `com_main` with one more input is one more iteration. -/
theorem comMain_concat (is : List Input) (i : Input) :
    comMain net wifi leadSw (is ++ [i]) = (comMain net wifi leadSw is).loopBody net i :=
  run_concat _ _ _

/-- Behind at least one iteration the machine has taken over its request. -/
theorem settled_comMain {is : List Input} (h : is ≠ []) :
    (comMain net wifi leadSw is).Settled := by
  rcases List.eq_nil_or_concat is with rfl | ⟨is, i, rfl⟩
  · exact absurd rfl h
  rw [List.concat_eq_append, comMain_concat]
  exact (ready_comMain net wifi leadSw is).settled_loopBody net i

/-! ## Servo and notifications -/

section servo

variable (advance : Advance)

/-- The angle the servo stands at in each state; in INIT it has not been driven. -/
def angleOf : LockState → Option Byte
  | .locked => some 150
  | .unlocked => some 70
  | _ => none

/-- A transition moves the servo to the angle of its destination. -/
theorem servo_transSeen (s : Seen) {st st' : LockState} (h : st' = .locked ∨ st' = .unlocked)
    (hto : st = st' ∨ Permitted st st') (hs : s.panel.servo = angleOf st) :
    (transSeen advance s st st').panel.servo = angleOf st' := by
  unfold transSeen
  by_cases heq : st = st'
  · rw [if_neg (by simp [heq]), hs, heq]
  · rw [if_pos heq, transTo_of_permitted (hto.resolve_left heq)]
    rcases h with rfl | rfl <;> simp [initSeen, angleOf]

/-- **The servo follows the state.** -/
theorem Ready.servo_loopBody (h : d.Ready)
    (hservo : (d.seen advance).panel.servo = angleOf d.sm.oldState) :
    ((d.loopBody net i).seen advance).panel.servo = angleOf (d.loopBody net i).sm.oldState := by
  rw [h.sm_loopBody, seen_loopBody advance net d i h.wellFormed]
  apply servo_transSeen advance _ (h.request_range net i)
  · exact (h.request_permitted net i).imp_left Eq.symm
  · simpa [seen_afterKeyStep advance net d i h.wellFormed, seen_atKeyStep] using hservo

/-- Before the loop only the password row has been written. -/
theorem seen_startUp :
    (startUp wifi leadSw).seen advance =
      (⟨[], [], {}, {}⟩ : Seen).update advance 2 (ascii "PASS:\n") := by
  have ht : printedText (ascii "PASS:\n") = ascii "PASS:\n" := by decide
  have hio : (({} : Io).printf2 (ascii "start\n")).seen advance = ⟨[], [], {}, {}⟩ :=
    Io.seen_printf2 advance _ _
  cases leadSw <;>
    simp [startUp, Io.seen_showLine advance _ (l := 2) (by decide), ht, Io.seen_wifiInit, printf2,
      hio]

/-- The servo stands at the angle of the state at every iteration end. -/
theorem servo_comMain (is : List Input) :
    ((comMain net wifi leadSw is).seen advance).panel.servo =
      angleOf (comMain net wifi leadSw is).sm.oldState := by
  induction is using List.reverseRecOn with
  | nil =>
    rw [comMain, run_nil, sm_startUp]
    rw [seen_startUp, Seen.servo_update]
    rfl
  | append_singleton is i ih =>
    rw [comMain_concat]
    exact (ready_comMain net wifi leadSw is).servo_loopBody net i advance ih

end servo

section notices

/-- The notices of calls in a row are those of the first and those of the second. -/
theorem lockNotices_append (cs cs' : List Call) :
    lockNotices (cs ++ cs') = lockNotices cs ++ lockNotices cs' := List.filterMap_append

/-- Entering a state notifies of it; nothing else notifies of a state. -/
theorem lockNotices_callsOf (h : d.Ready) :
    lockNotices (d.callsOf net i) =
      if d.sm.oldState = d.request net i then [] else [d.request net i] := by
  have hmain (cs : List Call) :
      lockNotices cs = lockNotices (cs.filter fun c => blockOf c = .stateMain) := by
    rw [lockNotices, lockNotices, List.filterMap_filter]
    congr 1
    funext c
    cases c <;> rfl
  rw [hmain, filter_block_callsOf net d i h.wellFormed, blockCalls, transCalls]
  by_cases heq : d.sm.oldState = d.request net i
  · simp [heq, lockNotices]
  · have hp := h.request_permitted net i |>.resolve_left (Ne.symm heq)
    rw [if_pos heq, if_neg heq, transTo_of_permitted hp]
    rcases h.request_range net i with hr | hr <;>
      cases d.sm.oldState <;> simp [hr, lockNotices, endCall, initCalls]

/-- **The notifications follow the state.** -/
structure Announced (d : Device) : Prop where
  alternate : (lockNotices d.io.calls).IsChain (· ≠ ·)
  last : (lockNotices d.io.calls).getLast? =
    if d.sm.oldState = .init then none else some d.sm.oldState

/-- One iteration keeps the last notice that of the state. -/
theorem Announced.loopBody (h : d.Ready) (ha : d.Announced) : (d.loopBody net i).Announced := by
  have hcalls := calls_loopBody_eq_append net d i h.wellFormed
  have hnotices := lockNotices_callsOf net i h
  have hne : d.request net i ≠ .init := by
    rcases h.request_range net i with hr | hr <;> simp [hr]
  by_cases heq : d.sm.oldState = d.request net i
  · rw [if_pos heq] at hnotices
    refine ⟨?_, ?_⟩
    · rw [hcalls, lockNotices_append, hnotices, List.append_nil]
      exact ha.alternate
    · rw [hcalls, lockNotices_append, hnotices, List.append_nil, ha.last, h.sm_loopBody, heq]
  · rw [if_neg heq] at hnotices
    refine ⟨?_, ?_⟩
    · rw [hcalls, lockNotices_append, hnotices, List.isChain_append]
      refine ⟨ha.alternate, List.isChain_singleton _, ?_⟩
      intro s hs t ht
      rw [ha.last] at hs
      simp only [List.head?_cons, Option.mem_def, Option.some.injEq] at ht
      split at hs
      · simp at hs
      · simp only [Option.mem_def, Option.some.injEq] at hs
        rw [← hs, ← ht]
        exact heq
    · rw [hcalls, lockNotices_append, hnotices, List.getLast?_append, h.sm_loopBody, if_neg hne]
      simp

/-- The last notice sent is that of the state at every iteration end. -/
theorem announced_comMain (is : List Input) : (comMain net wifi leadSw is).Announced := by
  induction is using List.reverseRecOn with
  | nil =>
    have hcalls : (startUp wifi leadSw).io.calls = [] :=
      congrArg Seen.calls (seen_startUp wifi leadSw fun _ c => c)
    rw [comMain, run_nil]
    constructor
    · rw [hcalls]; simp [lockNotices]
    · rw [hcalls, sm_startUp]; simp [lockNotices]
  | append_singleton is i ih =>
    rw [comMain_concat]
    exact ih.loopBody net i (ready_comMain net wifi leadSw is)

end notices

/-- **Coherence.** After every iteration of every run the state machine is where it was
asked to be, every request on the way was one the table permits, the servo stands at the
angle of the state, the notifications alternate up to the one that names the state, and
nothing is typed while the door is unlocked. -/
theorem comMain_coherent (net : Net) (wifi : Wifi) (leadSw : Bool) (advance : Advance)
    (is : List Input) (i : Input) :
    let d := comMain net wifi leadSw (is ++ [i])
    let state := d.sm.getState
    (d.sm.oldState = state ∧ d.sm.nextState = state ∧ (state = .locked ∨ state = .unlocked)) ∧
      (∀ r ∈ requests net (startUp wifi leadSw) (is ++ [i]), r.2 = r.1 ∨ Permitted r.1 r.2) ∧
      (((d.io.panel advance).servo = some 150 ↔ state = .locked) ∧
        ((d.io.panel advance).servo = some 70 ↔ state = .unlocked)) ∧
      ((lockNotices d.io.calls).IsChain (· ≠ ·) ∧
        (lockNotices d.io.calls).getLast? = some state) ∧
      (state = .unlocked → d.password.guess.str 0 = []) := by
  have hd : (comMain net wifi leadSw (is ++ [i])).Settled := settled_comMain net wifi leadSw (by simp)
  have hservo := servo_comMain net wifi leadSw advance (is ++ [i])
  have hann := announced_comMain net wifi leadSw (is ++ [i])
  intro d state
  have hold : d.sm.oldState = state := hd.settled
  rw [hold] at hservo
  refine ⟨⟨hold, by rw [hd.next]; exact hold, hd.requested⟩, ?_, ?_, ?_, ?_⟩
  · intro r hr
    obtain ⟨pre, j, post, -, hr⟩ := mem_outputs.1 hr
    rw [List.mem_singleton.1 hr]
    exact (ready_run net (ready_startUp wifi leadSw) pre).request_permitted net j
  · show ((d.seen advance).panel.servo = some 150 ↔ _) ∧
      ((d.seen advance).panel.servo = some 70 ↔ _)
    rw [hservo]
    rcases hd.requested with hs | hs <;>
      · change state = _ at hs
        simp [hs, angleOf]
  · refine ⟨hann.alternate, ?_⟩
    rw [hann.last, hold]
    rcases hd.requested with hs | hs <;>
      · change state = _ at hs
        simp [hs]
  · intro hu
    rw [Password.str_guess hd.wellFormed (Nat.zero_le _), hd.untyped hu]
    rfl

end Device

end WeightScale
