import WeightScale.Analysis.KeyStep

/-!
# One iteration

`loopBody` is five blocks, and each of them changes few of the program's variables. The
first section says what each block changes; the second puts them together into what one
iteration does to the requested state, the password, the goal, the state machine and the
outside.
-/

set_option autoImplicit false

namespace WeightScale

open Embedded

namespace Device

variable (advance : Advance) (net : Net) (d : Device)

/-! ## The blocks -/

section weightBlock

variable (w : Weight)

/-- The weight part leaves the state machine. -/
@[simp] theorem sm_weightBlock : (d.weightBlock net w).sm = d.sm := by
  simp only [weightBlock]; split <;> simp

/-- The weight part leaves the password. -/
@[simp] theorem password_weightBlock : (d.weightBlock net w).password = d.password := by
  simp only [weightBlock]; split <;> simp

/-- The weight part leaves the target weight. -/
@[simp] theorem targetWeight_weightBlock :
    (d.weightBlock net w).targetWeight = d.targetWeight := by
  simp only [weightBlock]; split <;> simp

/-- The weight part leaves the remembered door. -/
@[simp] theorem doorOpenOld_weightBlock : (d.weightBlock net w).doorOpenOld = d.doorOpenOld := by
  simp only [weightBlock]; split <;> simp

/-- The weight part leaves the remembered target. -/
@[simp] theorem targetWeightOld_weightBlock :
    (d.weightBlock net w).targetWeightOld = d.targetWeightOld := by
  simp only [weightBlock]; split <;> simp

/-- The weight part remembers its sample. -/
@[simp] theorem weightsOld_weightBlock : (d.weightBlock net w).weightsOld = w := by
  simp only [weightBlock]

/-- The line of a weight. -/
def weightText : Text :=
  if w.stable = WeightStable.initial then ascii "NOW:---kg\n"
  else ascii "NOW:" ++ fmtF false 3 0 w.weight ++ ascii "kg\n"

/-- The calls that report a weight. -/
def reportCalls (t : Binary32) : List Call :=
  if w.stable = WeightStable.determined then
    [.channelUpdate w.weight t,
      if w.weight < t then .notifyDietAchieved w.weight t
      else .notifyDietNotAchieved w.weight t (w.weight - t)]
  else []

/-- The reports of a sample are seen as the calls they make. -/
theorem seen_reportWeight (t : Binary32) (io : Io) :
    (reportWeight net w t io).seen advance = (io.seen advance).callAll (reportCalls w t) := by
  unfold reportWeight reportCalls
  split
  · split <;>
      simp [Io.channelUpdate, Io.notifyDietAchieved, Io.notifyDietNotAchieved, Seen.call,
        Seen.callAll]
  · simp

/-- The weight part writes its row and reports only where the stability changes. -/
theorem seen_weightBlock :
    (d.weightBlock net w).seen advance =
      if w.stable ≠ d.weightsOld.stable then
        ((d.seen advance).update advance 1 (printedText (weightText w))).callAll
          (reportCalls w d.targetWeight)
      else d.seen advance := by
  simp only [weightBlock, seen]
  split
  · by_cases hi : w.stable = WeightStable.initial
    · have hd : ¬ WeightStable.initial = WeightStable.determined := by decide
      simp [hi, weightText, reportCalls, hd, Io.seen_printStr, Io.seen_cmdSetTextColor,
        Io.seen_cmdSetLine advance _ (l := 1) (by decide), Seen.update]
    · simp [hi, weightText, seen_reportWeight, Io.seen_printStr, Io.seen_cmdSetTextColor,
        Io.seen_cmdSetLine advance _ (l := 1) (by decide), Seen.update]
  · rfl

end weightBlock

section doorBlock

variable (doorOpen : Bool)

/-- The door block requests LOCKED when the door was open before and is closed now. -/
theorem sm_doorBlock :
    (d.doorBlock doorOpen).sm =
      if d.doorOpenOld = true ∧ doorOpen = false then d.sm.setState .locked else d.sm := by
  simp only [doorBlock]
  cases d.doorOpenOld <;> cases doorOpen <;> simp

/-- The door part leaves the password. -/
@[simp] theorem password_doorBlock : (d.doorBlock doorOpen).password = d.password := by
  simp only [doorBlock]; split
  · split <;> simp
  · rfl

/-- The door part leaves the target weight. -/
@[simp] theorem targetWeight_doorBlock : (d.doorBlock doorOpen).targetWeight = d.targetWeight := by
  simp only [doorBlock]; split
  · split <;> simp
  · rfl

/-- The door part leaves the remembered weight. -/
@[simp] theorem weightsOld_doorBlock : (d.doorBlock doorOpen).weightsOld = d.weightsOld := by
  simp only [doorBlock]; split
  · split <;> simp
  · rfl

/-- The door part leaves the remembered target. -/
@[simp] theorem targetWeightOld_doorBlock :
    (d.doorBlock doorOpen).targetWeightOld = d.targetWeightOld := by
  simp only [doorBlock]; split
  · split <;> simp
  · rfl

/-- The door part remembers its sample. -/
@[simp] theorem doorOpenOld_doorBlock : (d.doorBlock doorOpen).doorOpenOld = doorOpen := by
  simp only [doorBlock]

/-- The door part switches the lamp only where the door changes. -/
theorem seen_doorBlock :
    (d.doorBlock doorOpen).seen advance =
      if d.doorOpenOld ≠ doorOpen then (d.seen advance).lamp doorOpen else d.seen advance := by
  simp only [doorBlock, seen]
  split
  · cases doorOpen <;> simp
  · rfl

end doorBlock

section targetBlock

/-- The target part leaves the state machine. -/
@[simp] theorem sm_targetBlock : (d.targetBlock net).sm = d.sm := by
  simp only [targetBlock]; split <;> simp

/-- The target part leaves the password. -/
@[simp] theorem password_targetBlock : (d.targetBlock net).password = d.password := by
  simp only [targetBlock]; split <;> simp

/-- The target part leaves the target weight. -/
@[simp] theorem targetWeight_targetBlock : (d.targetBlock net).targetWeight = d.targetWeight := by
  simp only [targetBlock]; split <;> simp

/-- The target part leaves the remembered weight. -/
@[simp] theorem weightsOld_targetBlock : (d.targetBlock net).weightsOld = d.weightsOld := by
  simp only [targetBlock]; split <;> simp

/-- The target part leaves the remembered door. -/
@[simp] theorem doorOpenOld_targetBlock : (d.targetBlock net).doorOpenOld = d.doorOpenOld := by
  simp only [targetBlock]; split <;> simp

/-- The target part remembers the target as an integer. -/
@[simp] theorem targetWeightOld_targetBlock :
    (d.targetBlock net).targetWeightOld = d.targetWeight.toInt32 := by
  simp only [targetBlock]

/-- The line of the goal. -/
def goalText (t : Binary32) : Text := ascii "GOAL:" ++ fmtF false 3 0 t ++ ascii "kg\n"

/-- The target part writes its row where the target changes, and notifies of it except the first
time. -/
theorem seen_targetBlock :
    (d.targetBlock net).seen advance =
      if d.targetWeight.toInt32 ≠ d.targetWeightOld then
        ((d.seen advance).update advance 0 (printedText (goalText d.targetWeight))).callAll
          (if d.targetWeightOld ≠ 0 then
            [.notifyChangeTarget d.targetWeightOld d.targetWeight.toInt32] else [])
      else d.seen advance := by
  simp only [targetBlock, seen]
  split
  · by_cases h0 : d.targetWeightOld = 0
    · simp [h0, goalText, Io.seen_showLine advance _ (l := 0) (by decide)]
    · simp [h0, goalText, Io.seen_showLine advance _ (l := 0) (by decide), Io.notifyChangeTarget]
  · rfl

end targetBlock

section stateMain

/-- The state machine leaves the password. -/
@[simp] theorem password_stateMain : (d.stateMain net).password = d.password := by
  simp only [stateMain]

/-- The state machine leaves the target weight. -/
@[simp] theorem targetWeight_stateMain : (d.stateMain net).targetWeight = d.targetWeight := by
  simp only [stateMain]

/-- The state machine leaves the remembered weight. -/
@[simp] theorem weightsOld_stateMain : (d.stateMain net).weightsOld = d.weightsOld := by
  simp only [stateMain]

/-- The state machine leaves the remembered door. -/
@[simp] theorem doorOpenOld_stateMain : (d.stateMain net).doorOpenOld = d.doorOpenOld := by
  simp only [stateMain]

/-- The state machine leaves the remembered target. -/
@[simp] theorem targetWeightOld_stateMain :
    (d.stateMain net).targetWeightOld = d.targetWeightOld := by
  simp only [stateMain]

/-- A request for the current state is answered by the `do` callback alone. -/
theorem stateMain_of_eq (h : d.sm.oldState = d.sm.gState) :
    (d.stateMain net).sm = { d.sm with oldState := d.sm.nextState } ∧
      (d.stateMain net).seen advance = d.seen advance := by
  simp only [stateMain, StateMachine.stateMain, StateMachine.stateTrans, h, seen]
  simp only [ne_eq, not_true_eq_false, if_false]
  cases d.sm.nextState <;> simp [StateMachine.callFunc, stateFunction]

/-- The entry callback of a state, as it shows outside. -/
def initSeen (s : LockState) (o : Seen) : Seen :=
  match s with
  | .init => o.call .initInit
  | .locked =>
    o |>.call .lockedInit |>.kaiten 0 |>.lamp false |>.servo 150
      |>.update advance 3 (ascii "LOCKED\n") |>.call .notifyLocked
  | .unlocked =>
    o |>.call .unlockedInit |>.servo 70
      |>.update advance 3 (ascii "UNLOCKED\n") |>.call .notifyUnlocked
  | .setting => o.call .settingInit

/-- The exit callback of a state. -/
def endCall : LockState → Call
  | .init => .initEnd
  | .locked => .lockedEnd
  | .unlocked => .unlockedEnd
  | .setting => .settingEnd

/-- Any other request is answered by leaving the current state and entering the one the
table leads to. -/
theorem stateMain_of_ne (h : d.sm.oldState ≠ d.sm.gState) :
    (d.stateMain net).sm =
        { d.sm with
          oldState := StateMachine.transTo d.sm.oldState d.sm.gState
          nextState := StateMachine.transTo d.sm.oldState d.sm.gState } ∧
      (d.stateMain net).seen advance =
        initSeen advance (StateMachine.transTo d.sm.oldState d.sm.gState)
          ((d.seen advance).call (endCall d.sm.oldState)) := by
  have hend : ∀ s : LockState, (StateMachine.callFunc (stateFunction net s).endFunc d.io).seen
      advance = (d.io.seen advance).call (endCall s) := by
    intro s
    cases s <;> simp [StateMachine.callFunc, stateFunction, endCall, Io.seen_initEnd,
      Io.seen_lockedEnd, Io.seen_unlockedEnd, Io.settingEnd]
  have hinit : ∀ (s : LockState) (io : Io),
      (StateMachine.callFunc (stateFunction net s).doFunc
        (StateMachine.callFunc (stateFunction net s).initFunc io)).seen advance =
          initSeen advance s (io.seen advance) := by
    intro s io
    cases s <;> simp [StateMachine.callFunc, stateFunction, initSeen, Io.seen_initInit,
      Io.seen_lockedInit, Io.seen_unlockedInit, Io.settingInit]
  simp only [stateMain, StateMachine.stateMain, StateMachine.stateTrans, seen]
  simp only [ne_eq, h, not_false_eq_true, if_true]
  exact ⟨trivial, by rw [hinit, hend]⟩

end stateMain

/-! ## The key step in its iteration -/

variable (i : Input)

/-- No key has been read at the key step: the password is the one before. -/
@[simp] theorem password_atKeyStep : (d.atKeyStep net i).password = d.password := by
  simp [atKeyStep]

/-- At the key step the target weight is the one before. -/
@[simp] theorem targetWeight_atKeyStep : (d.atKeyStep net i).targetWeight = d.targetWeight := by
  simp [atKeyStep]

/-- At the key step the sample of the iteration is remembered. -/
@[simp] theorem weightsOld_atKeyStep : (d.atKeyStep net i).weightsOld = i.weights := by
  simp [atKeyStep]

/-- At the key step the remembered target is the one before. -/
@[simp] theorem targetWeightOld_atKeyStep :
    (d.atKeyStep net i).targetWeightOld = d.targetWeightOld := by
  simp [atKeyStep]

/-- At the key step the door sample of the iteration is remembered. -/
@[simp] theorem doorOpenOld_atKeyStep : (d.atKeyStep net i).doorOpenOld = i.leadSw := by
  simp [atKeyStep]

/-- The state requested when the key step is reached. -/
theorem sm_atKeyStep :
    (d.atKeyStep net i).sm =
      if d.doorOpenOld = true ∧ i.leadSw = false then d.sm.setState .locked else d.sm := by
  simp [atKeyStep, sm_doorBlock]

/-- A key reaches the keypad event only as a push while LOCKED is requested. -/
theorem pushedKey_eq_some {k : Byte} (h : d.pushedKey net i = some k) :
    (d.atKeyStep net i).sm.getState = .locked ∧ i.keyData.state = .push ∧ i.keyData.key = k := by
  unfold pushedKey at h
  split at h
  · rename_i hc
    exact ⟨hc.1, hc.2, Option.some.inj h⟩
  · simp at h

/-- A key step that handles a key. -/
theorem afterKeyStep_of_some (h : d.password.WellFormed) {k : Byte}
    (hk : d.pushedKey net i = some k) :
    Pressed (d.atKeyStep net i) (d.afterKeyStep net i) k i.weights := by
  obtain ⟨hl, hp, rfl⟩ := pushedKey_eq_some net d i hk
  rw [afterKeyStep, keyBlock, if_pos hl]
  exact keypadEvent_pressed net _ _ (by simpa using h) hp

/-- A key step that handles none. -/
theorem afterKeyStep_of_none (hk : d.pushedKey net i = none) :
    d.afterKeyStep net i = d.atKeyStep net i := by
  rw [afterKeyStep, keyBlock]
  split
  · rename_i hl
    apply keypadEvent_of_not_push
    intro hp
    simp [pushedKey, hl, hp] at hk
  · rfl

/-- The attempt made at the key step. -/
def attemptAt : Option (Option Byte) :=
  (d.pushedKey net i).bind fun k => attempt k d.password i.weights d.targetWeight

/-- Of an iteration, the password reads the pushed key alone. -/
theorem password_loopBody (h : d.password.WellFormed) :
    (d.loopBody net i).password =
      match d.pushedKey net i with
      | some k => d.password.press k
      | none => d.password := by
  rw [loopBody_eq, password_stateMain, password_targetBlock]
  cases hk : d.pushedKey net i with
  | none => rw [afterKeyStep_of_none net d i hk, password_atKeyStep]
  | some k => rw [(afterKeyStep_of_some net d i h hk).password, password_atKeyStep]

/-- Of an iteration, the target weight reads the pushed key alone. -/
theorem targetWeight_loopBody (h : d.password.WellFormed) :
    (d.loopBody net i).targetWeight =
      match d.pushedKey net i with
      | some k => pressTarget k d.password d.targetWeight
      | none => d.targetWeight := by
  rw [loopBody_eq, targetWeight_stateMain, targetWeight_targetBlock]
  cases hk : d.pushedKey net i with
  | none => rw [afterKeyStep_of_none net d i hk, targetWeight_atKeyStep]
  | some k =>
    rw [(afterKeyStep_of_some net d i h hk).targetWeight, password_atKeyStep,
      targetWeight_atKeyStep]

/-- An iteration remembers its door sample. -/
theorem doorOpenOld_loopBody (h : d.password.WellFormed) :
    (d.loopBody net i).doorOpenOld = i.leadSw := by
  rw [loopBody_eq, doorOpenOld_stateMain, doorOpenOld_targetBlock]
  cases hk : d.pushedKey net i with
  | none => rw [afterKeyStep_of_none net d i hk, doorOpenOld_atKeyStep]
  | some k => rw [(afterKeyStep_of_some net d i h hk).doorOpenOld, doorOpenOld_atKeyStep]

/-- An iteration remembers its weight sample. -/
theorem weightsOld_loopBody (h : d.password.WellFormed) :
    (d.loopBody net i).weightsOld = i.weights := by
  rw [loopBody_eq, weightsOld_stateMain, weightsOld_targetBlock]
  cases hk : d.pushedKey net i with
  | none => rw [afterKeyStep_of_none net d i hk, weightsOld_atKeyStep]
  | some k => rw [(afterKeyStep_of_some net d i h hk).weightsOld, weightsOld_atKeyStep]

/-- The key step as it shows outside. -/
theorem sm_afterKeyStep (h : d.password.WellFormed) :
    (d.afterKeyStep net i).sm = attemptSm (d.attemptAt net i) (d.atKeyStep net i).sm := by
  cases hk : d.pushedKey net i with
  | none => simp [afterKeyStep_of_none net d i hk, attemptAt, hk, attemptSm]
  | some k => simp [(afterKeyStep_of_some net d i h hk).sm, attemptAt, hk]

/-- **The key step accepts** exactly when a pushed `'*'` makes an attempt that succeeds. -/
theorem unlocks_iff_attemptAt (h : d.password.WellFormed) :
    d.Unlocks net i ↔ d.attemptAt net i = some none := by
  unfold Unlocks
  rw [sm_afterKeyStep net d i h]
  constructor
  · rintro ⟨hl, hu⟩
    cases ha : d.attemptAt net i with
    | none => simp [ha, attemptSm, hl] at hu
    | some v =>
      cases v with
      | none => rfl
      | some p => simp [ha, attemptSm, hl] at hu
  · intro ha
    have hk : ∃ k, d.pushedKey net i = some k := by
      cases hk : d.pushedKey net i with
      | none => simp [attemptAt, hk] at ha
      | some k => exact ⟨k, rfl⟩
    obtain ⟨k, hk⟩ := hk
    exact ⟨(pushedKey_eq_some net d i hk).1, by simp [ha, attemptSm, StateMachine.setState,
      StateMachine.getState]⟩

/-- An attempt succeeds by the key `*` behind an entry that is tried and accepted. -/
theorem attempt_eq_some_none {k : Byte} {p : Password} {w : Weight} {t : Binary32} :
    attempt k p w t = some none ↔
      k = chr '*' ∧ command p.entry = .attempt ∧ verdict p w t = none := by
  unfold attempt
  split
  · rename_i hc
    simp [hc]
  · rename_i hc
    simp only [reduceCtorEq, false_iff]
    exact fun ⟨hk, ha, _⟩ => hc ⟨hk, ha⟩

/-- An entry is accepted if it is the password, a weight has been sampled and it is below the
target. -/
theorem verdict_eq_none {p : Password} (h : p.WellFormed) {w : Weight} {t : Binary32} :
    verdict p w t = none ↔
      cstr p.entry = p.secret ∧ w.stable ≠ WeightStable.initial ∧ w.weight < t := by
  rw [← Password.evaluate_iff h]
  unfold verdict
  cases p.evaluate
  · simp
  · by_cases hi : w.stable = WeightStable.initial
    · simp [hi]
    · by_cases hw : w.weight < t <;> simp [hi, hw]

/-- **Acceptance, spelled out.** -/
theorem unlocks_iff (h : d.password.WellFormed) :
    d.Unlocks net i ↔
      d.pushedKey net i = some (chr '*') ∧ command d.password.entry = .attempt ∧
        cstr d.password.entry = d.password.secret ∧
        i.weights.stable ≠ WeightStable.initial ∧ i.weights.weight < d.targetWeight := by
  rw [unlocks_iff_attemptAt net d i h, attemptAt, Option.bind_eq_some_iff]
  simp only [attempt_eq_some_none, verdict_eq_none h]
  constructor
  · rintro ⟨k, hk, rfl, hrest⟩
    exact ⟨hk, hrest⟩
  · rintro ⟨hk, hrest⟩
    exact ⟨_, hk, rfl, hrest⟩

/-- The state presented to `state_main`. -/
def request : LockState := (d.afterKeyStep net i).sm.gState

/-- **The request of an iteration**: an accepted key wins over a closing door, and that
over what was requested before. -/
theorem request_eq (h : d.password.WellFormed) :
    d.request net i =
      if d.Unlocks net i then .unlocked
      else if d.doorOpenOld = true ∧ i.leadSw = false then .locked
      else d.sm.gState := by
  rw [request]
  by_cases hu : d.Unlocks net i
  · rw [if_pos hu]
    exact hu.2
  · rw [if_neg hu, sm_afterKeyStep net d i h]
    rw [unlocks_iff_attemptAt net d i h] at hu
    have hsm : attemptSm (d.attemptAt net i) (d.atKeyStep net i).sm = (d.atKeyStep net i).sm := by
      unfold attemptSm
      split
      · contradiction
      · rfl
    rw [hsm, sm_atKeyStep]
    split <;> rfl

/-! ## The whole iteration

The blocks as they show outside, and what each adds to the calls and to the updates of the
display. -/

/-- The program when the iteration comes to `state_main`. -/
def beforeMain : Device := (d.afterKeyStep net i).targetBlock net

/-- The state machine comes last in an iteration. -/
theorem loopBody_eq_stateMain : d.loopBody net i = (d.beforeMain net i).stateMain net := rfl

section seen

variable (s : Seen)

/-- The weight part of an iteration. -/
def weightSeen (w : Weight) (old : WeightStable) (t : Binary32) : Seen :=
  if w.stable ≠ old then
    (s.update advance 1 (printedText (weightText w))).callAll (reportCalls w t)
  else s

/-- The door part of an iteration. -/
def doorSeen (old new : Bool) : Seen := if old ≠ new then s.lamp new else s

/-- The entry line, redrawn when a key was handled. -/
def entrySeen (shows : Option Text) : Seen :=
  match shows with
  | some t => s.update advance 2 t
  | none => s

/-- The target part of an iteration. -/
def targetSeen (old : Int32) (t : Binary32) : Seen :=
  if t.toInt32 ≠ old then
    (s.update advance 0 (printedText (goalText t))).callAll
      (if old ≠ 0 then [.notifyChangeTarget old t.toInt32] else [])
  else s

/-- The transition at the end of an iteration. -/
def transSeen (old request : LockState) : Seen :=
  if old ≠ request then
    initSeen advance (StateMachine.transTo old request) (s.call (endCall old))
  else s

/-- The calls of the weight part. -/
def weightCalls (w : Weight) (old : WeightStable) (t : Binary32) : List Call :=
  if w.stable ≠ old then reportCalls w t else []

/-- The calls of an attempt. -/
def attemptCalls (a : Option (Option Byte)) : List Call :=
  match a with
  | some (some pattern) => .unlockFailed pattern :: Io.failureCalls pattern
  | _ => []

/-- The calls of the target part. -/
def targetCalls (old : Int32) (t : Binary32) : List Call :=
  if t.toInt32 ≠ old ∧ old ≠ 0 then [.notifyChangeTarget old t.toInt32] else []

/-- The calls of the `init` callback of a state. -/
def initCalls : LockState → List Call
  | .init => [.initInit]
  | .locked => [.lockedInit, .notifyLocked]
  | .unlocked => [.unlockedInit, .notifyUnlocked]
  | .setting => [.settingInit]

/-- The calls of a transition. -/
def transCalls (old request : LockState) : List Call :=
  if old ≠ request then endCall old :: initCalls (StateMachine.transTo old request) else []

/-- The line updates of the weight part. -/
def weightUpdates (w : Weight) (old : WeightStable) : List Update :=
  if w.stable ≠ old then [⟨1, printedText (weightText w)⟩] else []

/-- The line updates of an attempt. -/
def attemptUpdates (a : Option (Option Byte)) : List Update :=
  match a with
  | some (some pattern) => [⟨3, Io.failureText pattern⟩]
  | _ => []

/-- The line updates of the target part. -/
def targetUpdates (old : Int32) (t : Binary32) : List Update :=
  if t.toInt32 ≠ old then [⟨0, printedText (goalText t)⟩] else []

/-- The line updates of the `init` callback of a state. -/
def initUpdates : LockState → List Update
  | .locked => [⟨3, ascii "LOCKED\n"⟩]
  | .unlocked => [⟨3, ascii "UNLOCKED\n"⟩]
  | _ => []

/-- The line updates of a transition. -/
def transUpdates (old request : LockState) : List Update :=
  if old ≠ request then initUpdates (StateMachine.transTo old request) else []

/-- The block of the loop body that makes a call. -/
inductive Block where
  | weight
  | attempt
  | target
  | stateMain
  | event
deriving DecidableEq

/-- The part of an iteration a call is made in. -/
def blockOf : Call → Block
  | .channelUpdate _ _ | .notifyDietAchieved _ _ | .notifyDietNotAchieved _ _ _ => .weight
  | .unlockFailed _ | .notifyUnlockFailedInvalidPass | .notifyUnlockFailedDoDiet => .attempt
  | .notifyChangeTarget _ _ => .target
  | .kaitenStop => .event
  | _ => .stateMain

/-- The calls of the weight part are marked as its own. -/
theorem block_of_mem_weightCalls {w : Weight} {old : WeightStable} {t : Binary32} {c : Call}
    (hc : c ∈ weightCalls w old t) : blockOf c = .weight := by
  unfold weightCalls reportCalls at hc
  split at hc
  · split at hc
    · rcases List.mem_cons.1 hc with rfl | hc
      · rfl
      · rw [List.mem_singleton.1 hc]
        split <;> rfl
    · exact absurd hc List.not_mem_nil
  · exact absurd hc List.not_mem_nil

/-- The calls of an attempt are marked as its own. -/
theorem block_of_mem_attemptCalls {a : Option (Option Byte)} {c : Call}
    (hc : c ∈ attemptCalls a) : blockOf c = .attempt := by
  unfold attemptCalls Io.failureCalls at hc
  split at hc
  · rcases List.mem_cons.1 hc with rfl | hc
    · rfl
    · split at hc
      · rw [List.mem_singleton.1 hc]
        rfl
      · split at hc
        · exact absurd hc List.not_mem_nil
        · rw [List.mem_singleton.1 hc]
          rfl
  · exact absurd hc List.not_mem_nil

/-- The calls of the target part are marked as its own. -/
theorem block_of_mem_targetCalls {old : Int32} {t : Binary32} {c : Call}
    (hc : c ∈ targetCalls old t) : blockOf c = .target := by
  unfold targetCalls at hc
  split at hc
  · rw [List.mem_singleton.1 hc]
    rfl
  · exact absurd hc List.not_mem_nil

/-- The calls of an `init` callback are marked as those of the state machine. -/
theorem block_of_mem_initCalls {st : LockState} {c : Call} (hc : c ∈ initCalls st) :
    blockOf c = .stateMain := by
  cases st with
  | init | setting =>
    rw [List.mem_singleton.1 hc]
    rfl
  | locked | unlocked =>
    rw [initCalls, List.mem_cons, List.mem_singleton] at hc
    obtain rfl | rfl := hc
    · rfl
    · rfl

/-- The calls of a transition are marked as those of the state machine. -/
theorem block_of_mem_transCalls {old request : LockState} {c : Call}
    (hc : c ∈ transCalls old request) : blockOf c = .stateMain := by
  unfold transCalls at hc
  split at hc
  · rw [List.mem_cons] at hc
    rcases hc with rfl | hc
    · cases old <;> rfl
    · exact block_of_mem_initCalls hc
  · exact absurd hc List.not_mem_nil

/-- Calls of one part pass the filter of that part and of no other. -/
theorem filter_block {cs : List Call} {b' : Block} (hcs : ∀ c ∈ cs, blockOf c = b') (b : Block) :
    cs.filter (fun c => blockOf c = b) = if b' = b then cs else [] := by
  split
  · rename_i heq
    exact List.filter_eq_self.2 fun c hc => decide_eq_true ((hcs c hc).trans heq)
  · rename_i hne
    rw [List.filter_eq_nil_iff]
    intro c hc hb
    exact hne ((hcs c hc).symm.trans (of_decide_eq_true hb))

variable (w : Weight) (stableOld : WeightStable) (t : Binary32) (a : Option (Option Byte))
  (shows : Option Text) (old : Int32) (st st' : LockState)

/-- The calls the weight part adds. -/
@[simp] theorem calls_weightSeen :
    (weightSeen advance s w stableOld t).calls = s.calls ++ weightCalls w stableOld t := by
  unfold weightSeen weightCalls
  split <;> simp

/-- The door part calls nothing. -/
@[simp] theorem calls_doorSeen (x y : Bool) : (doorSeen s x y).calls = s.calls := by
  unfold doorSeen
  split <;> simp

/-- The calls an attempt adds. -/
@[simp] theorem calls_attemptSeen : (attemptSeen advance a s).calls = s.calls ++ attemptCalls a := by
  unfold attemptSeen attemptCalls
  split <;> simp

/-- Showing the entry calls nothing. -/
@[simp] theorem calls_entrySeen : (entrySeen advance s shows).calls = s.calls := by
  unfold entrySeen
  split <;> simp

/-- The calls the target part adds. -/
@[simp] theorem calls_targetSeen :
    (targetSeen advance s old t).calls = s.calls ++ targetCalls old t := by
  unfold targetSeen targetCalls
  by_cases ht : t.toInt32 = old <;> simp [ht]

/-- The calls a transition adds. -/
@[simp] theorem calls_transSeen :
    (transSeen advance s st st').calls = s.calls ++ transCalls st st' := by
  unfold transSeen transCalls
  split
  · cases StateMachine.transTo st st' <;> simp [initSeen, initCalls]
  · simp

/-- The display commands the weight part adds. -/
@[simp] theorem leds_weightSeen :
    (weightSeen advance s w stableOld t).leds =
      s.leds ++ (weightUpdates w stableOld).flatMap Update.cmds := by
  unfold weightSeen weightUpdates
  split <;> simp

/-- The door part sends nothing to the display. -/
@[simp] theorem leds_doorSeen (x y : Bool) : (doorSeen s x y).leds = s.leds := by
  unfold doorSeen
  split <;> simp

/-- The display commands an attempt adds. -/
@[simp] theorem leds_attemptSeen :
    (attemptSeen advance a s).leds = s.leds ++ (attemptUpdates a).flatMap Update.cmds := by
  unfold attemptSeen attemptUpdates
  split <;> simp

/-- The display commands of the entry are those of one update of its row. -/
@[simp] theorem leds_entrySeen :
    (entrySeen advance s shows).leds =
      s.leds ++ (shows.toList.map fun t => (⟨2, t⟩ : Update)).flatMap Update.cmds := by
  cases shows <;> simp [entrySeen]

/-- The display commands the target part adds. -/
@[simp] theorem leds_targetSeen :
    (targetSeen advance s old t).leds = s.leds ++ (targetUpdates old t).flatMap Update.cmds := by
  unfold targetSeen targetUpdates
  split <;> simp

/-- The display commands a transition adds. -/
@[simp] theorem leds_transSeen :
    (transSeen advance s st st').leds = s.leds ++ (transUpdates st st').flatMap Update.cmds := by
  unfold transSeen transUpdates
  split
  · cases StateMachine.transTo st st' <;> simp [initSeen, initUpdates]
  · simp

/-- The weight part does not move the servo. -/
@[simp] theorem servo_weightSeen :
    (weightSeen advance s w stableOld t).panel.servo = s.panel.servo := by
  unfold weightSeen
  split <;> simp

/-- The door part does not move the servo. -/
@[simp] theorem servo_doorSeen (x y : Bool) : (doorSeen s x y).panel.servo = s.panel.servo := by
  unfold doorSeen
  split <;> simp

/-- An attempt does not move the servo. -/
@[simp] theorem servo_attemptSeen : (attemptSeen advance a s).panel.servo = s.panel.servo := by
  unfold attemptSeen
  split <;> simp

/-- Showing the entry does not move the servo. -/
@[simp] theorem servo_entrySeen : (entrySeen advance s shows).panel.servo = s.panel.servo := by
  cases shows <;> simp [entrySeen]

/-- The target part does not move the servo. -/
@[simp] theorem servo_targetSeen : (targetSeen advance s old t).panel.servo = s.panel.servo := by
  unfold targetSeen
  split <;> simp

/-- The weight part does not switch the lamp. -/
@[simp] theorem lamp_weightSeen :
    (weightSeen advance s w stableOld t).panel.lamp = s.panel.lamp := by
  unfold weightSeen
  split <;> simp

/-- The lamp follows the door where it changes. -/
@[simp] theorem lamp_doorSeen (x y : Bool) :
    (doorSeen s x y).panel.lamp = if x ≠ y then some (if y then 1 else 0) else s.panel.lamp := by
  unfold doorSeen
  split <;> simp

/-- Showing the entry does not switch the lamp. -/
@[simp] theorem lamp_entrySeen : (entrySeen advance s shows).panel.lamp = s.panel.lamp := by
  cases shows <;> simp [entrySeen]

/-- The target part does not switch the lamp. -/
@[simp] theorem lamp_targetSeen : (targetSeen advance s old t).panel.lamp = s.panel.lamp := by
  unfold targetSeen
  split <;> simp

/-- The weight part writes row 1 only. -/
theorem shown_weightSeen {k : ℕ} (hk : k ≠ 1) :
    (weightSeen advance s w stableOld t).shown k = s.shown k := by
  unfold weightSeen
  split <;> simp [hk]

/-- The door part writes no row. -/
theorem shown_doorSeen (x y : Bool) (k : ℕ) : (doorSeen s x y).shown k = s.shown k := by
  unfold doorSeen
  split <;> simp

/-- Showing the entry writes row 2 only. -/
theorem shown_entrySeen {k : ℕ} (hk : k ≠ 2) :
    (entrySeen advance s shows).shown k = s.shown k := by
  cases shows <;> simp [entrySeen, hk]

/-- The target part writes row 0 only. -/
theorem shown_targetSeen {k : ℕ} (hk : k ≠ 0) :
    (targetSeen advance s old t).shown k = s.shown k := by
  unfold targetSeen
  split <;> simp [hk]

end seen

/-- The text the entry line is redrawn with, when a key is handled. -/
def entryText : Option Text :=
  (d.pushedKey net i).map fun _ =>
    printedText (ascii "PASS:" ++ (d.afterKeyStep net i).password.guess.str 0 ++ ascii "\n")

/-- A key leaves the remembered target: the target part sees every change of it. -/
theorem targetWeightOld_afterKeyStep (h : d.password.WellFormed) :
    (d.afterKeyStep net i).targetWeightOld = d.targetWeightOld := by
  cases hk : d.pushedKey net i with
  | none => rw [afterKeyStep_of_none net d i hk, targetWeightOld_atKeyStep]
  | some k => rw [(afterKeyStep_of_some net d i h hk).targetWeightOld, targetWeightOld_atKeyStep]

/-- The state machine is called with the request of the iteration. -/
theorem sm_beforeMain : (d.beforeMain net i).sm.gState = d.request net i := by
  rw [beforeMain, sm_targetBlock, request]

/-- The blocks before `state_main` only change the request. -/
theorem oldState_beforeMain (h : d.password.WellFormed) :
    (d.beforeMain net i).sm.oldState = d.sm.oldState ∧
      (d.beforeMain net i).sm.nextState = d.sm.nextState := by
  rw [beforeMain, sm_targetBlock, sm_afterKeyStep net d i h, sm_atKeyStep]
  unfold attemptSm
  split <;> split <;> exact ⟨rfl, rfl⟩

/-- The weight part and the door part come in front of the key step. -/
theorem seen_atKeyStep :
    (d.atKeyStep net i).seen advance =
      doorSeen (weightSeen advance (d.seen advance) i.weights d.weightsOld.stable d.targetWeight)
        d.doorOpenOld i.leadSw := by
  rw [atKeyStep, seen_doorBlock, doorOpenOld_weightBlock, seen_weightBlock]; rfl

/-- The key step shows its attempt, then the entry. -/
theorem seen_afterKeyStep (h : d.password.WellFormed) :
    (d.afterKeyStep net i).seen advance =
      entrySeen advance (attemptSeen advance (d.attemptAt net i) ((d.atKeyStep net i).seen advance))
        (d.entryText net i) := by
  cases hk : d.pushedKey net i with
  | none => simp [afterKeyStep_of_none net d i hk, attemptAt, entryText, hk, attemptSeen, entrySeen]
  | some k =>
    simp [(afterKeyStep_of_some net d i h hk).seen advance, attemptAt, entryText, hk, entrySeen]

/-- **What one iteration does to the outside**, block after block. -/
theorem seen_loopBody (h : d.password.WellFormed) :
    (d.loopBody net i).seen advance =
      transSeen advance
        (targetSeen advance ((d.afterKeyStep net i).seen advance) d.targetWeightOld
          (d.afterKeyStep net i).targetWeight)
        d.sm.oldState (d.request net i) := by
  have hold := (oldState_beforeMain net d i h).1
  have hreq := sm_beforeMain net d i
  have hbefore : (d.beforeMain net i).seen advance =
      targetSeen advance ((d.afterKeyStep net i).seen advance) d.targetWeightOld
        (d.afterKeyStep net i).targetWeight := by
    rw [beforeMain, seen_targetBlock, targetWeightOld_afterKeyStep net d i h]; rfl
  rw [loopBody_eq_stateMain, transSeen, ← hbefore]
  by_cases heq : d.sm.oldState = d.request net i
  · rw [(stateMain_of_eq advance net _ (by rw [hold, hreq, heq])).2, if_neg (by simp [heq])]
  · rw [(stateMain_of_ne advance net _ (by rw [hold, hreq]; exact heq)).2, hold, hreq,
      if_pos heq]

/-- The calls recorded are the calls seen. -/
theorem calls_eq_seen : d.io.calls = (d.seen advance).calls := rfl

/-- The display commands recorded are those seen. -/
theorem leds_eq_seen : d.io.leds = (d.seen advance).leds := rfl

/-- The calls of an iteration before it comes to `state_main`. -/
def callsBeforeMain : List Call :=
  weightCalls i.weights d.weightsOld.stable d.targetWeight ++ attemptCalls (d.attemptAt net i) ++
    targetCalls d.targetWeightOld (d.afterKeyStep net i).targetWeight

/-- **The calls of an iteration.** -/
theorem calls_loopBody (h : d.password.WellFormed) :
    (d.loopBody net i).io.calls =
      d.io.calls ++ (d.callsBeforeMain net i ++ transCalls d.sm.oldState (d.request net i)) := by
  rw [calls_eq_seen (fun _ c => c) (d.loopBody net i), calls_eq_seen (fun _ c => c) d,
    seen_loopBody _ net d i h, seen_afterKeyStep _ net d i h, seen_atKeyStep]
  simp [callsBeforeMain]

/-- Of the calls of an iteration, those of the transition come last. -/
theorem callsOf_eq (h : d.password.WellFormed) :
    d.callsOf net i =
      d.callsBeforeMain net i ++ transCalls d.sm.oldState (d.request net i) := by
  rw [callsOf, callsDuring, calls_loopBody net d i h, List.drop_left]

/-- An iteration adds its calls behind the earlier ones. -/
theorem calls_loopBody_eq_append (h : d.password.WellFormed) :
    (d.loopBody net i).io.calls = d.io.calls ++ d.callsOf net i := by
  rw [calls_loopBody net d i h, callsOf_eq net d i h]

/-- The updates of the display that an iteration makes. -/
def updatesOf : List Update :=
  weightUpdates i.weights d.weightsOld.stable ++ attemptUpdates (d.attemptAt net i) ++
    (d.entryText net i).toList.map (fun t => ⟨2, t⟩) ++
    targetUpdates d.targetWeightOld (d.afterKeyStep net i).targetWeight ++
    transUpdates d.sm.oldState (d.request net i)

/-- **The display commands of an iteration** are whole updates, one after another. -/
theorem leds_loopBody (h : d.password.WellFormed) :
    (d.loopBody net i).io.leds = d.io.leds ++ (d.updatesOf net i).flatMap Update.cmds := by
  rw [leds_eq_seen (fun _ c => c) (d.loopBody net i), leds_eq_seen (fun _ c => c) d,
    seen_loopBody _ net d i h, seen_afterKeyStep _ net d i h, seen_atKeyStep]
  simp [updatesOf]

/-- **The state machine after an iteration.** -/
theorem sm_loopBody (h : d.password.WellFormed) :
    (d.loopBody net i).sm =
      if d.sm.oldState = d.request net i then
        ⟨d.request net i, d.sm.nextState, d.sm.nextState⟩
      else
        ⟨d.request net i, StateMachine.transTo d.sm.oldState (d.request net i),
          StateMachine.transTo d.sm.oldState (d.request net i)⟩ := by
  obtain ⟨hold, hnext⟩ := oldState_beforeMain net d i h
  have hreq := sm_beforeMain net d i
  rw [loopBody_eq_stateMain]
  split
  · rename_i heq
    rw [(stateMain_of_eq (fun _ c => c) net _ (by rw [hold, hreq, heq])).1, ← hreq, ← hnext]
  · rename_i hne
    rw [(stateMain_of_ne (fun _ c => c) net _ (by rw [hold, hreq]; exact hne)).1, hold, ← hreq]

/-- The calls that a block makes in an iteration. -/
def blockCalls : Block → List Call
  | .weight => weightCalls i.weights d.weightsOld.stable d.targetWeight
  | .attempt => attemptCalls (d.attemptAt net i)
  | .target => targetCalls d.targetWeightOld (d.afterKeyStep net i).targetWeight
  | .stateMain => transCalls d.sm.oldState (d.request net i)
  | .event => []

/-- **The calls of an iteration, block by block.** -/
theorem filter_block_callsOf (h : d.password.WellFormed) (b : Block) :
    (d.callsOf net i).filter (fun c => blockOf c = b) = d.blockCalls net i b := by
  rw [callsOf_eq net d i h, callsBeforeMain, List.filter_append, List.filter_append,
    List.filter_append, filter_block fun _ => block_of_mem_weightCalls,
    filter_block fun _ => block_of_mem_attemptCalls, filter_block fun _ => block_of_mem_targetCalls,
    filter_block fun _ => block_of_mem_transCalls]
  cases b <;> simp [blockCalls]

/-- A call is one of the iteration as soon as it is among those of its own part. -/
theorem mem_callsOf_iff {c : Call} {b : Block} (hb : blockOf c = b) :
    c ∈ d.callsOf net i ↔ c ∈ (d.callsOf net i).filter fun c => blockOf c = b := by
  simp [hb]

/-- `UNLOCKED_init` runs exactly in the iterations that enter UNLOCKED. -/
theorem unlockedInit_mem_callsOf (h : d.password.WellFormed) :
    Call.unlockedInit ∈ d.callsOf net i ↔
      d.sm.oldState ≠ d.request net i ∧
        StateMachine.transTo d.sm.oldState (d.request net i) = .unlocked := by
  rw [mem_callsOf_iff net d i (b := .stateMain) rfl, filter_block_callsOf net d i h, blockCalls]
  unfold transCalls
  split
  · rename_i hne
    generalize StateMachine.transTo d.sm.oldState (d.request net i) = next
    simp only [ne_eq, hne, not_false_eq_true, true_and]
    cases d.sm.oldState <;> cases next <;> simp [endCall, initCalls]
  · rename_i heq
    simp only [not_not] at heq
    simp [heq]

end Device

end WeightScale
