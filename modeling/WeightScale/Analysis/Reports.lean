import WeightScale.Analysis.Sensors

/-!
# What the program reports

Two blocks of the loop report a change: the weight block looks for a change of the stability,
the target block for a change of the goal. The weight block shows and uploads the sample it
finds the change in and no other. The target block keeps the last goal in a static whose
initial 0 also marks the first iteration, so that a goal of 0 is left without a notice.
-/

set_option autoImplicit false

namespace WeightScale

open Embedded

namespace Device

section lines

variable (advance : Advance) (s : Seen)

/-- An attempt writes row 3 only. -/
theorem shown_attemptSeen {k : ℕ} (hk : k ≠ 3) (a : Option (Option Byte)) :
    (attemptSeen advance a s).shown k = s.shown k := by
  unfold attemptSeen
  split <;> simp [hk]

/-- A transition writes row 3 only. -/
theorem shown_transSeen {k : ℕ} (hk : k ≠ 3) (old request : LockState) :
    (transSeen advance s old request).shown k = s.shown k := by
  unfold transSeen
  split
  · cases StateMachine.transTo old request <;> simp [initSeen, hk]
  · rfl

end lines

variable (net : Net) (wifi : Wifi) (leadSw : Bool) (d : Device) (i : Input) (advance : Advance)

/-- The weight line after an iteration. -/
theorem shown_weight_loopBody (h : d.password.WellFormed) :
    (d.loopBody net i).io.shown advance 1 =
      if i.weights.stable ≠ d.weightsOld.stable then [printedText (weightText i.weights)]
      else d.io.shown advance 1 := by
  show ((d.loopBody net i).seen advance).shown 1 = if _ then _ else (d.seen advance).shown 1
  rw [seen_loopBody advance net d i h, shown_transSeen advance _ (by decide),
    shown_targetSeen advance _ _ _ (by decide), seen_afterKeyStep advance net d i h,
    shown_entrySeen advance _ _ (by decide), shown_attemptSeen advance _ (by decide),
    seen_atKeyStep, shown_doorSeen, weightSeen]
  split
  · rw [Seen.shown_callAll, Seen.shown_update, if_pos rfl]
  · rfl

/-- The goal line after an iteration. -/
theorem shown_goal_loopBody (h : d.password.WellFormed) :
    (d.loopBody net i).io.shown advance 0 =
      if (d.afterKeyStep net i).targetWeight.toInt32 ≠ d.targetWeightOld then
        [printedText (goalText (d.afterKeyStep net i).targetWeight)]
      else d.io.shown advance 0 := by
  show ((d.loopBody net i).seen advance).shown 0 = if _ then _ else (d.seen advance).shown 0
  rw [seen_loopBody advance net d i h, shown_transSeen advance _ (by decide), targetSeen]
  split
  · rw [Seen.shown_callAll, Seen.shown_update, if_pos rfl]
  · rw [seen_afterKeyStep advance net d i h, shown_entrySeen advance _ _ (by decide),
      shown_attemptSeen advance _ (by decide), seen_atKeyStep, shown_doorSeen,
      shown_weightSeen advance _ _ _ _ (by decide)]

/-! ## Samples -/

/-- The sample before the next one. Before the first it is the zero `weights_old` starts as. -/
def previous (is : List Input) : Weight :=
  (is.getLast?.map Input.weights).getD ⟨WeightStable.start, ⟨0⟩⟩

/-- The last sample at which the stability changed. -/
def lastChanged (is : List Input) : Option Weight :=
  (is.foldl (fun (s : WeightStable × Option Weight) i =>
    (i.weights.stable, if i.weights.stable ≠ s.1 then some i.weights else s.2))
    (WeightStable.start, none)).2

/-- The sample before the next iteration is the last one. -/
theorem previous_concat (is : List Input) (i : Input) : previous (is ++ [i]) = i.weights := by
  simp [previous]

/-- The last sample with a change of stability, with one more iteration. -/
theorem lastChanged_concat (is : List Input) (i : Input) :
    lastChanged (is ++ [i]) =
      if i.weights.stable ≠ (previous is).stable then some i.weights else lastChanged is := by
  have hfst : ∀ is : List Input, (is.foldl (fun (s : WeightStable × Option Weight) i =>
      (i.weights.stable, if i.weights.stable ≠ s.1 then some i.weights else s.2))
      (WeightStable.start, none)).1 = (previous is).stable := by
    intro is
    induction is using List.reverseRecOn with
    | nil => rfl
    | append_singleton is i _ => rw [List.foldl_append, previous_concat]; rfl
  rw [lastChanged, List.foldl_append, List.foldl_cons, List.foldl_nil, hfst]
  rfl

/-- The remembered weight is the sample before. -/
theorem weightsOld_comMain (is : List Input) :
    (comMain net wifi leadSw is).weightsOld = previous is := by
  induction is using List.reverseRecOn with
  | nil => exact weightsOld_startUp wifi leadSw
  | append_singleton is i _ =>
    rw [comMain_concat, previous_concat]
    exact weightsOld_loopBody net _ i (ready_comMain net wifi leadSw is).wellFormed

/-- The weight row shows the last sample that changed the stability. -/
theorem shown_weight_comMain (is : List Input) :
    (comMain net wifi leadSw is).io.shown advance 1 =
      ((lastChanged is).map fun w => printedText (weightText w)).toList := by
  induction is using List.reverseRecOn with
  | nil =>
    show ((startUp wifi leadSw).seen advance).shown 1 = []
    rw [seen_startUp, Seen.shown_update, if_neg (by decide)]
    rfl
  | append_singleton is i ih =>
    have hwf := (ready_comMain net wifi leadSw is).wellFormed
    rw [comMain_concat, shown_weight_loopBody net _ i advance hwf, weightsOld_comMain,
      lastChanged_concat, ih]
    split <;> rfl

/-- The reports of an iteration are those of its weight block. -/
theorem filter_reports_callsOf (h : d.password.WellFormed) :
    (d.callsOf net i).filter reports = weightCalls i.weights d.weightsOld.stable d.targetWeight := by
  have hreports : reports = fun c => decide (blockOf c = .weight) := by
    funext c
    cases c <;> rfl
  rw [hreports, filter_block_callsOf net d i h, blockCalls]

/-- An attempt has the verdict on its entry. -/
theorem verdict_of_attempt {k : Byte} {p : Password} {w : Weight} {t : Binary32}
    {v : Option Byte} (h : attempt k p w t = some v) : verdict p w t = v := by
  unfold attempt at h
  split at h
  · exact Option.some.inj h
  · exact absurd h nofun

/-- An attempt that fails for the weight was compared with the goal. -/
theorem not_lt_of_doDiet (h : d.password.WellFormed)
    (hin : Call.notifyUnlockFailedDoDiet ∈ d.callsOf net i) :
    ¬ i.weights.weight < d.targetWeight := by
  have hattempt : d.attemptAt net i = some (some 2) := by
    rw [mem_callsOf_iff net d i (b := .attempt) rfl, filter_block_callsOf net d i h,
      blockCalls] at hin
    unfold attemptCalls at hin
    split at hin
    · rename_i pattern ha
      unfold Io.failureCalls at hin
      rw [ha]
      split at hin
      · simp at hin
      · split at hin
        · simp at hin
        · rename_i h0 h1
          obtain ⟨k, -, hverdict⟩ := Option.bind_eq_some_iff.1 ha
          have hrange := verdict_range (verdict_of_attempt hverdict)
          rw [(hrange.resolve_left h0).resolve_left h1]
    · simp at hin
  obtain ⟨k, -, hverdict⟩ := Option.bind_eq_some_iff.1 hattempt
  have hv := verdict_of_attempt hverdict
  unfold verdict at hv
  intro hlt
  rw [if_pos hlt] at hv
  split at hv
  · exact absurd (Option.some.inj hv) (by decide)
  · split at hv
    · exact absurd (Option.some.inj hv) (by decide)
    · cases hv

/-- **The samples shown and uploaded** are those at which the stability changes. After every
iteration line 1 shows the last such sample; the iteration reports its own exactly when it
has become determined, with the verdict that an attempt to unlock in the same iteration
gets. -/
theorem samples_reported (net : Net) (wifi : Wifi) (leadSw : Bool) (advance : Advance)
    (is : List Input) (i : Input) :
    (comMain net wifi leadSw (is ++ [i])).io.shown advance 1 =
        ((lastChanged (is ++ [i])).map fun w => printedText (weightText w)).toList ∧
      ((comMain net wifi leadSw is).callsOf net i).filter reports =
        (if i.weights.stable = WeightStable.determined ∧
            (previous is).stable ≠ WeightStable.determined then
          [.channelUpdate i.weights.weight (comMain net wifi leadSw is).targetWeight,
            if i.weights.weight < (comMain net wifi leadSw is).targetWeight then
              .notifyDietAchieved i.weights.weight (comMain net wifi leadSw is).targetWeight
            else
              .notifyDietNotAchieved i.weights.weight (comMain net wifi leadSw is).targetWeight
                (i.weights.weight - (comMain net wifi leadSw is).targetWeight)]
        else []) ∧
      ((comMain net wifi leadSw is).Unlocks net i →
        i.weights.weight < (comMain net wifi leadSw is).targetWeight) ∧
      (Call.notifyUnlockFailedDoDiet ∈ (comMain net wifi leadSw is).callsOf net i →
        ¬ i.weights.weight < (comMain net wifi leadSw is).targetWeight) := by
  have hwf := (ready_comMain net wifi leadSw is).wellFormed
  refine ⟨shown_weight_comMain net wifi leadSw advance _, ?_, ?_, not_lt_of_doDiet net _ i hwf⟩
  · rw [filter_reports_callsOf net _ i hwf, weightsOld_comMain, weightCalls, reportCalls]
    by_cases hdet : i.weights.stable = WeightStable.determined
    · by_cases hold : (previous is).stable = WeightStable.determined
      · simp [hdet, hold]
      · simp [hdet, hold, Ne.symm hold]
    · simp [hdet]
  · intro hu
    exact ((unlocks_iff net _ i hwf).1 hu).2.2.2.2

/-- A second determined weight, of 45 kg after 50 kg, is neither shown nor uploaded. -/
theorem second_weight_unreported :
    let first := Input.idle false Input.fiftyKilos
    let second := Input.idle false #v[3, 0, 0, 0, 0, 0, 0x34, 0x42]
    let d := comMain .silent .down false [first]
    (second.weights.stable = WeightStable.determined ∧ second.weights ≠ first.weights) ∧
      (d.loopBody .silent second).io.shown (fun _ c => c) 1 ≠
        [printedText (weightText second.weights)] ∧
      (d.callsOf .silent second).filter reports = [] := by
  decide +kernel

/-! ## Goals -/

/-- The goal entered at a key step. -/
def enteredGoal : Option Int32 :=
  match d.pushedKey net i, command d.password.entry with
  | some k, .goal ds => if k = chr '*' then some (atoi (cstr ds)) else none
  | _, _ => none

/-- A goal entered here is an integer that a single represents. -/
def EntersExactGoal : Prop := ∀ g, d.enteredGoal net i = some g → Binary32.Exact g.toInt

instance : Decidable (d.EntersExactGoal net i) :=
  match h : d.enteredGoal net i with
  | none => isTrue fun g hg => by rw [h] at hg; exact absurd hg nofun
  | some g => decidable_of_iff (Binary32.Exact g.toInt)
      ⟨fun hg g' hg' => by rw [h] at hg'; exact Option.some.inj hg' ▸ hg, fun hall => hall g h⟩

/-- The target weight of an iteration is settled at its key step. -/
theorem targetWeight_eq_afterKeyStep :
    (d.loopBody net i).targetWeight = (d.afterKeyStep net i).targetWeight := by
  rw [loopBody_eq, targetWeight_stateMain, targetWeight_targetBlock]

/-- The key step changes the target weight only by an entered goal. -/
theorem targetWeight_afterKeyStep (h : d.password.WellFormed) :
    (d.afterKeyStep net i).targetWeight =
      match d.enteredGoal net i with
      | some g => .ofInt g.toInt
      | none => d.targetWeight := by
  rw [← targetWeight_eq_afterKeyStep, targetWeight_loopBody net d i h, enteredGoal]
  cases d.pushedKey net i with
  | none => rfl
  | some k =>
    by_cases hk : k = chr '*'
    · cases hc : command d.password.entry <;> simp [pressTarget, hk, hc]
    · cases hc : command d.password.entry <;> simp [pressTarget, hk]

/-- Behind an iteration the remembered target is the target as an integer. -/
theorem targetWeightOld_loopBody :
    (d.loopBody net i).targetWeightOld = (d.loopBody net i).targetWeight.toInt32 := by
  rw [loopBody_eq, targetWeightOld_stateMain, targetWeightOld_targetBlock, targetWeight_stateMain,
    targetWeight_targetBlock]

/-- The goal changes notified, as the pairs that are sent. -/
def goalNotices (calls : List Call) : List (Int32 × Int32) :=
  calls.filterMap fun
    | .notifyChangeTarget old new => some (old, new)
    | _ => none

/-- The notice of an iteration tells of the change of the target as an integer, if there was one. -/
theorem goalNotices_callsOf (h : d.password.WellFormed) :
    goalNotices (d.callsOf net i) =
      if (d.afterKeyStep net i).targetWeight.toInt32 ≠ d.targetWeightOld ∧ d.targetWeightOld ≠ 0 then
        [(d.targetWeightOld, (d.afterKeyStep net i).targetWeight.toInt32)]
      else [] := by
  have htarget (cs : List Call) :
      goalNotices cs = goalNotices (cs.filter fun c => blockOf c = .target) := by
    rw [goalNotices, goalNotices, List.filterMap_filter]
    congr 1
    funext c
    cases c <;> rfl
  rw [htarget, filter_block_callsOf net d i h, blockCalls, targetCalls]
  split <;> rfl

/-- The change of the goal from `old` is notified once, with both values, and line 0 shows
the goal. -/
structure GoalTold (old : Binary32) : Prop where
  notices : goalNotices (d.callsOf net i) =
    if (d.afterKeyStep net i).targetWeight = old then []
    else [(old.toInt32, (d.afterKeyStep net i).targetWeight.toInt32)]
  line : ∀ advance, (d.loopBody net i).io.shown advance 0 =
    [printedText (goalText (d.afterKeyStep net i).targetWeight)]

/-- The goal is an integer that a single represents. -/
def ExactGoal (x : Binary32) : Prop := ∃ g : Int32, Binary32.Exact g.toInt ∧ x = .ofInt g.toInt

/-- Exact goals are equal as soon as they are as integers. -/
theorem ExactGoal.eq_iff {x y : Binary32} (hx : ExactGoal x) (hy : ExactGoal y) :
    x = y ↔ x.toInt32 = y.toInt32 := by
  obtain ⟨g, hg, rfl⟩ := hx
  obtain ⟨g', hg', rfl⟩ := hy
  rw [Binary32.toInt32_ofInt hg, Binary32.toInt32_ofInt hg']
  constructor
  · intro h
    have heq := congrArg Binary32.toInt32 h
    rwa [Binary32.toInt32_ofInt hg, Binary32.toInt32_ofInt hg'] at heq
  · rintro rfl
    rfl

/-- Zero is an exact goal. -/
theorem exactGoal_zero : ExactGoal (.ofInt 0) := ⟨0, by decide, rfl⟩

/-- What holds of the goal between two iterations. -/
structure GoalKept (d : Device) : Prop where
  remembered : d.targetWeightOld = d.targetWeight.toInt32
  exact : ExactGoal d.targetWeight
  line : ∀ advance, d.io.shown advance 0 = [printedText (goalText d.targetWeight)]

variable {d i}

/-- Where only exact goals are entered, the target stays one. -/
theorem exactGoal_afterKeyStep (h : d.password.WellFormed) (hd : ExactGoal d.targetWeight)
    (hi : d.EntersExactGoal net i) : ExactGoal (d.afterKeyStep net i).targetWeight := by
  rw [targetWeight_afterKeyStep net d i h]
  cases hg : d.enteredGoal net i with
  | none => exact hd
  | some g => exact ⟨g, hi g hg, rfl⟩

/-- The target row of an iteration shows the target behind its key step. -/
theorem GoalKept.line_loopBody (h : d.password.WellFormed) (hd : d.GoalKept)
    (hi : d.EntersExactGoal net i) (advance : Advance) :
    (d.loopBody net i).io.shown advance 0 =
      [printedText (goalText (d.afterKeyStep net i).targetWeight)] := by
  rw [shown_goal_loopBody net d i advance h, hd.remembered]
  split
  · rfl
  · rename_i heq
    have hsame := ((exactGoal_afterKeyStep net h hd.exact hi).eq_iff hd.exact).2 (not_not.1 heq)
    rw [hd.line advance, hsame]

/-- One iteration keeps the target told and shown. -/
theorem GoalKept.loopBody (h : d.password.WellFormed) (hd : d.GoalKept)
    (hi : d.EntersExactGoal net i) : (d.loopBody net i).GoalKept where
  remembered := targetWeightOld_loopBody net d i
  exact := by
    rw [targetWeight_eq_afterKeyStep]
    exact exactGoal_afterKeyStep net h hd.exact hi
  line := by
    intro advance
    rw [targetWeight_eq_afterKeyStep]
    exact hd.line_loopBody net h hi advance

/-- The first iteration shows the goal the program starts with. -/
theorem goalKept_first : ((startUp wifi leadSw).loopBody net i).GoalKept := by
  have hwf := (ready_startUp wifi leadSw).wellFormed
  have hnone : (startUp wifi leadSw).enteredGoal net i = none := by
    have hcmd : command (startUp wifi leadSw).password.entry = .attempt := by
      rw [password_startUp, Password.entry_new (by decide)]
      rfl
    rw [enteredGoal, hcmd]
    cases (startUp wifi leadSw).pushedKey net i <;> rfl
  have htarget : ((startUp wifi leadSw).afterKeyStep net i).targetWeight = .ofInt 100 := by
    rw [targetWeight_afterKeyStep net _ i hwf, hnone]
    exact targetWeight_startUp wifi leadSw
  have hold : (startUp wifi leadSw).targetWeightOld = 0 := by
    cases leadSw <;> rfl
  constructor
  · exact targetWeightOld_loopBody net _ i
  · rw [targetWeight_eq_afterKeyStep, htarget]
    exact ⟨100, by decide, rfl⟩
  · intro advance
    rw [shown_goal_loopBody net _ i advance hwf, targetWeight_eq_afterKeyStep, htarget, hold,
      if_pos (by decide)]

/-- The target is told and shown at every iteration end. -/
theorem goalKept_comMain {is : List Input} (hne : is ≠ [])
    (hgoals : Along (loopBody net) (EntersExactGoal net) (startUp wifi leadSw) is) :
    (comMain net wifi leadSw is).GoalKept := by
  induction is using List.reverseRecOn with
  | nil => exact absurd rfl hne
  | append_singleton is i ih =>
    rw [comMain_concat]
    rw [along_concat] at hgoals
    cases is with
    | nil => exact goalKept_first net wifi leadSw
    | cons j is =>
      have hwf := (ready_comMain net wifi leadSw (j :: is)).wellFormed
      exact (ih (List.cons_ne_nil j is) hgoals.1).loopBody net hwf hgoals.2

/-- **A change of the goal is notified** unless it is a change away from 0. In a run whose
goals are integers that a single represents, take any iteration but the first: its notices
and line 0 are what the change of the goal asks for, if and only if the goal before was not
0 or is still 0. -/
theorem goalTold_iff (net : Net) (wifi : Wifi) (leadSw : Bool) (is : List Input) (j i : Input)
    (hgoals : Along (loopBody net) (EntersExactGoal net) (startUp wifi leadSw) (is ++ [j] ++ [i])) :
    (comMain net wifi leadSw (is ++ [j])).GoalTold net i
        ((comMain net wifi leadSw is).afterKeyStep net j).targetWeight ↔
      (((comMain net wifi leadSw is).afterKeyStep net j).targetWeight = .ofInt 0 →
        ((comMain net wifi leadSw (is ++ [j])).afterKeyStep net i).targetWeight = .ofInt 0) := by
  rw [along_concat] at hgoals
  have hwf := (ready_comMain net wifi leadSw (is ++ [j])).wellFormed
  have hkept := goalKept_comMain net wifi leadSw (List.concat_ne_nil j is) hgoals.1
  have hnew := exactGoal_afterKeyStep net hwf hkept.exact hgoals.2
  have hold : ((comMain net wifi leadSw is).afterKeyStep net j).targetWeight =
      (comMain net wifi leadSw (is ++ [j])).targetWeight := by
    rw [comMain_concat, targetWeight_eq_afterKeyStep]
  have hline := hkept.line_loopBody net hwf hgoals.2
  have hnotices := goalNotices_callsOf net (comMain net wifi leadSw (is ++ [j])) i hwf
  rw [hkept.remembered] at hnotices
  have htold : (comMain net wifi leadSw (is ++ [j])).GoalTold net i
      (comMain net wifi leadSw (is ++ [j])).targetWeight ↔
      goalNotices ((comMain net wifi leadSw (is ++ [j])).callsOf net i) = _ :=
    ⟨fun h => h.notices, fun h => ⟨h, hline⟩⟩
  have hzero : (Binary32.ofInt 0).toInt32 = 0 := Binary32.toInt32_ofInt (i := 0) (by decide)
  rw [hold, htold, hnotices, hkept.exact.eq_iff exactGoal_zero, hnew.eq_iff exactGoal_zero, hzero]
  simp only [hnew.eq_iff hkept.exact]
  generalize ((comMain net wifi leadSw (is ++ [j])).afterKeyStep net i).targetWeight.toInt32 = new
  generalize (comMain net wifi leadSw (is ++ [j])).targetWeight.toInt32 = old
  by_cases hchange : new = old
  · subst hchange
    simp
  · by_cases hzero : old = 0
    · subst hzero
      simp [hchange]
    · simp [hchange, hzero]

/-- Setting the goal 60 in place of 100 is told. -/
theorem goalTold_sixty :
    let is := Input.idle false Input.noWeight :: Input.typing "0060"
    let j := Input.idle false Input.noWeight
    let i := Input.pushing '*' false Input.noWeight
    (comMain .silent .down false (is ++ [j])).GoalTold .silent i (.ofInt 100) := by
  intro is j i
  have htarget : ((comMain .silent .down false is).afterKeyStep .silent j).targetWeight =
    .ofInt 100 := by decide +kernel
  have h := (goalTold_iff .silent .down false is j i (by decide +kernel)).2
  rw [htarget] at h
  exact h fun hzero => absurd hzero (by decide)

/-- The goals 0 and then 60 are entered: the second change is shown and not notified. -/
theorem not_goalTold_after_zero :
    let is := Input.typing "000*0060"
    let j := Input.idle false Input.noWeight
    let i := Input.pushing '*' false Input.noWeight
    Along (loopBody .silent) (EntersExactGoal .silent) (startUp .down false) (is ++ [j] ++ [i]) ∧
      ¬ (comMain .silent .down false (is ++ [j])).GoalTold .silent i
        ((comMain .silent .down false is).afterKeyStep .silent j).targetWeight := by
  intro is j i
  refine ⟨by decide +kernel, ?_⟩
  intro h
  have hnone : goalNotices ((comMain .silent .down false (is ++ [j])).callsOf .silent i) = [] ∧
      ((comMain .silent .down false (is ++ [j])).afterKeyStep .silent i).targetWeight ≠
        ((comMain .silent .down false is).afterKeyStep .silent j).targetWeight := by
    decide +kernel
  have hnotices := h.notices
  rw [if_neg hnone.2, hnone.1] at hnotices
  exact absurd hnotices (List.cons_ne_nil _ _).symm

end Device

end WeightScale
