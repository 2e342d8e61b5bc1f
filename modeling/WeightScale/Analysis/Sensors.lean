import WeightScale.Analysis.Settings

/-!
# What the program trusts

Two checks are missing between the sensors and the lock. `checkPassword` takes every weight
but an initial one, where the report waits for a determined one; and nobody looks at the
error codes of the two reads, so after a failed read the program goes on with whatever bytes
its buffers hold. Both sections say on which inputs the missing check does not show.
-/

set_option autoImplicit false

namespace WeightScale

open Embedded

namespace Device

variable (net : Net) (wifi : Wifi) (leadSw : Bool) (d : Device) (i : Input)

/-! ## Undetermined weights -/

/-- The latest determined sample of the iterations `is`. -/
def latestDetermined (is : List Input) : Option Weight :=
  ((is.map Input.weights).filter fun w => w.stable = WeightStable.determined).getLast?

/-- Every unlocking of the run is backed by a determined weight below the goal. -/
def Backed (is : List Input) : Prop :=
  ∀ pre i post, is = pre ++ i :: post → (comMain net wifi leadSw pre).Unlocks net i →
    ∃ w, latestDetermined (pre ++ [i]) = some w ∧
      w.weight < (comMain net wifi leadSw pre).targetWeight

/-- The second sample of a scale that is still settling unlocks. -/
theorem not_backed_ongoing :
    ¬ Backed .silent .down false
      (Input.typing "1234" ++ [Input.pushing '*' false #v[1, 0, 0, 0, 0, 0, 0x48, 0x42]]) := by
  intro h
  have := h (Input.typing "1234") _ [] rfl (by decide +kernel)
  have hnone : latestDetermined (Input.typing "1234" ++
      [Input.pushing '*' false #v[1, 0, 0, 0, 0, 0, 0x48, 0x42]]) = none := by decide +kernel
  rw [hnone] at this
  obtain ⟨w, hw, -⟩ := this
  contradiction

/-- **Unlocks are backed** in every run in which the right password never meets a weight that
is below the goal and neither initial nor determined. -/
theorem backed_of_determined (net : Net) (wifi : Wifi) (leadSw : Bool) (is : List Input)
    (h : Along (loopBody net)
      (fun d i => d.pushedKey net i = some (chr '*') → d.password.evaluate = true →
        i.weights.weight < d.targetWeight →
          i.weights.stable = WeightStable.initial ∨ i.weights.stable = WeightStable.determined)
      (startUp wifi leadSw) is) :
    Backed net wifi leadSw is := by
  intro pre i post heq hu
  subst heq
  have hd := ready_comMain net wifi leadSw pre
  rw [along_append] at h
  have hi := h.2.1
  obtain ⟨hp, -, hsecret, hstable, hweight⟩ := (unlocks_iff net _ i hd.wellFormed).1 hu
  have hdet : i.weights.stable = WeightStable.determined :=
    (hi hp ((Password.evaluate_iff hd.wellFormed).2 hsecret) hweight).resolve_left hstable
  refine ⟨i.weights, ?_, hweight⟩
  simp [latestDetermined, hdet]

/-- A wrong attempt on an ongoing sample, and the password typed on a waiting one. -/
theorem backed_of_determined_1234 :
    let ongoing := #v[1, 0, 0, 0, 0, 0, 0x48, 0x42]
    let waiting := #v[4, 0, 0, 0, 0, 0, 0x48, 0x42]
    Backed .silent .down false
      ([Input.pushing '9' false ongoing, Input.pushing '*' false ongoing,
        Input.idle false waiting] ++
        "1234".toList.map (Input.pushing · false waiting) ++
        [Input.pushing '*' false Input.fiftyKilos]) := by
  intro ongoing waiting
  exact backed_of_determined .silent .down false _ (by decide +kernel)

/-! ## Failed reads -/

/-- The calls that report a weight. -/
def reports : Call → Bool
  | .channelUpdate _ _ | .notifyDietAchieved _ _ | .notifyDietNotAchieved _ _ _ => true
  | _ => false

/-- A failed read is inert: without a weight nothing is reported, shown or unlocked, and
without a key event the entry, the settings and the request stay what they are. -/
structure Inert : Prop where
  weight : i.weightRead.failed = true →
    (∀ c ∈ d.callsOf net i, reports c = false) ∧ 1 ∉ d.linesOf net i ∧ ¬ d.Unlocks net i
  key : i.keyRead.failed = true →
    (d.loopBody net i).password = d.password ∧
      (d.loopBody net i).targetWeight = d.targetWeight ∧
      (d.afterKeyStep net i).sm.getState = (d.atKeyStep net i).sm.getState

/-- The iteration comes to its key step with LOCKED requested. -/
def KeyGate : Prop := d.sm.getState = .locked ∨ (d.doorOpenOld = true ∧ i.leadSw = false)

/-- The key step reads an attempt, by the bytes it finds, that succeeds. -/
def Accepts : Prop :=
  d.KeyGate i ∧ i.keyData = ⟨chr '*', .push⟩ ∧ d.password.guess.load 0 ≠ chr '0' ∧
    d.password.evaluate = true ∧ i.weights.stable ≠ WeightStable.initial ∧
    i.weights.weight < d.targetWeight

/-- The key event, by the bytes it is made of, changes nothing: a `'*'` that is not accepted
or a `'#'` on an empty entry, or any other key on a full one. -/
def NoEffect : Prop :=
  i.keyData.state = .push →
    if i.keyData.key = chr '*' then d.password.currentIndex = 0 ∧ ¬ d.Accepts i
    else if i.keyData.key = chr '#' then d.password.currentIndex = 0
    else d.password.currentIndex = 19

/-- LOCKED is requested at the key step if it was before or the door closes. -/
theorem getState_atKeyStep : (d.atKeyStep net i).sm.getState = .locked ↔ d.KeyGate i := by
  rw [sm_atKeyStep, KeyGate]
  by_cases hclose : d.doorOpenOld = true ∧ i.leadSw = false
  · simp [hclose, StateMachine.setState, StateMachine.getState]
  · simp [hclose]

/-- A key reaches the keypad event as a push through the gate. -/
theorem pushedKey_iff {k : Byte} :
    d.pushedKey net i = some k ↔ d.KeyGate i ∧ i.keyData = ⟨k, .push⟩ := by
  rw [← getState_atKeyStep net d i]
  constructor
  · intro hk
    obtain ⟨hl, hp, rfl⟩ := pushedKey_eq_some net d i hk
    exact ⟨hl, by rw [← hp]⟩
  · rintro ⟨hl, hkey⟩
    simp [pushedKey, hl, hkey]

/-- If no key reaches the keypad event the gate is shut or nothing is pushed. -/
theorem pushedKey_eq_none (h : d.pushedKey net i = none) :
    d.KeyGate i → i.keyData.state ≠ .push := by
  intro hgate hpush
  have := (pushedKey_iff net d i).2 ⟨hgate, (by rw [← hpush] : i.keyData = ⟨i.keyData.key, .push⟩)⟩
  rw [h] at this
  contradiction

/-- The entry is tried as a password unless its buffer starts with `0`. -/
theorem command_iff {p : Password} (h : p.WellFormed) :
    command p.entry = .attempt ↔ p.guess.load 0 ≠ chr '0' := by
  constructor
  · intro hc
    have hd := Password.dispatch h
    rw [hc] at hd
    exact hd
  · exact command_of_load h

/-- An iteration unlocks if it accepts the bytes it finds. -/
theorem unlocks_iff_accepts (h : d.password.WellFormed) : d.Unlocks net i ↔ d.Accepts i := by
  rw [unlocks_iff net d i h, pushedKey_iff, command_iff h, ← Password.evaluate_iff h, Accepts,
    and_assoc]

/-- The lines set by some updates are their lines. -/
theorem filterMap_line_cmds (us : List Update) :
    (us.flatMap Update.cmds).filterMap LedCmd.line = us.map Update.line := by
  induction us with
  | nil => rfl
  | cons u us ih =>
    have hu : u.cmds.filterMap LedCmd.line = [u.line] := by
      simp [Update.cmds, LedCmd.line, List.filterMap_cons]
    rw [List.flatMap_cons, List.filterMap_append, ih, hu]
    rfl

/-- The lines an iteration sets are those of its updates. -/
theorem linesOf_eq (h : d.password.WellFormed) :
    d.linesOf net i = (d.updatesOf net i).map Update.line := by
  rw [linesOf, ledsOf, leds_loopBody net d i h, List.drop_left, filterMap_line_cmds]

/-- The weight line is updated when the stability changes, and only then. -/
theorem one_mem_linesOf (h : d.password.WellFormed) :
    1 ∈ d.linesOf net i ↔ i.weights.stable ≠ d.weightsOld.stable := by
  have ha : ∀ u ∈ attemptUpdates (d.attemptAt net i), u.line ≠ 1 := by
    unfold attemptUpdates
    split <;> simp
  have hg : ∀ old t, ∀ u ∈ targetUpdates old t, u.line ≠ 1 := by
    intro old t
    unfold targetUpdates
    split <;> simp
  have hm : ∀ st st', ∀ u ∈ transUpdates st st', u.line ≠ 1 := by
    intro st st'
    unfold transUpdates
    split
    · cases StateMachine.transTo st st' <;> simp [initUpdates]
    · simp
  rw [linesOf_eq net d i h, List.mem_map]
  constructor
  · rintro ⟨u, hu, hline⟩
    simp only [updatesOf, List.mem_append, List.mem_map] at hu
    rcases hu with (((hu | hu) | ⟨t, -, rfl⟩) | hu) | hu
    · unfold weightUpdates at hu
      split at hu
      · assumption
      · simp at hu
    · exact absurd hline (ha u hu)
    · simp at hline
    · exact absurd hline (hg _ _ u hu)
    · exact absurd hline (hm _ _ u hu)
  · intro hne
    exact ⟨⟨1, printedText (weightText i.weights)⟩, by simp [updatesOf, weightUpdates, hne], rfl⟩

/-- While the stability stays, an iteration reports nothing. -/
theorem reports_callsOf (h : d.password.WellFormed)
    (hstable : i.weights.stable = d.weightsOld.stable) :
    ∀ c ∈ d.callsOf net i, reports c = false := by
  intro c hc
  rw [Bool.eq_false_iff]
  intro hr
  have hblock : blockOf c = .weight := by
    cases c <;> first | rfl | cases hr
  rw [mem_callsOf_iff net d i hblock, filter_block_callsOf net d i h, blockCalls, weightCalls,
    if_neg (not_not.2 hstable)] at hc
  exact absurd hc List.not_mem_nil

/-- The keys that leave the password object as it is. -/
theorem press_eq_self_iff {p : Password} (h : p.WellFormed) (k : Byte) :
    p.press k = p ↔
      if k = chr '*' ∨ k = chr '#' then p.currentIndex = 0 else p.currentIndex = 19 := by
  have hreset : p.currentIndex = 0 → p.reset = p := by
    intro h0
    have hz := h.terminated
    rw [h0] at hz
    cases p
    simp only at h0 hz
    subst h0
    simp only [Password.reset_eq, Password.mk.injEq, true_and, and_true]
    exact CharArray.store_eq_self _ (by decide) hz
  by_cases hctl : k = chr '*' ∨ k = chr '#'
  · rw [if_pos hctl]
    constructor
    · intro hp
      have : (p.press k).currentIndex = 0 := by
        unfold Password.press
        rcases hctl with rfl | rfl
        · rw [if_pos rfl]
          split <;> rfl
        · simp [Password.reset_eq]
      rwa [hp] at this
    · intro h0
      have hentry : p.entry = [] := by simp [Password.entry, h0]
      rcases hctl with rfl | rfl
      · simp [Password.press, hentry, command, hreset h0]
      · simp [Password.press, hreset h0]
  · rw [if_neg hctl]
    rw [not_or] at hctl
    have hp : p.press k = p.append k := by simp [Password.press, hctl.1, hctl.2]
    rw [hp]
    constructor
    · intro happ
      by_contra h19
      have hlt : p.currentIndex.toNat + 1 ≠ maxPasswordLength := by
        intro hfull
        apply h19
        apply UInt8.toNat_inj.1
        simp only [maxPasswordLength] at hfull
        simpa using hfull
      have hidx : (p.append k).currentIndex = p.currentIndex + 1 := by
        rw [Password.append_eq h, if_neg hlt]
      rw [happ] at hidx
      have := Password.toNat_succ_index h
      rw [← hidx] at this
      omega
    · intro h19
      simp [Password.append_eq h, h19]

/-- The key step keeps the request unless it unlocks. -/
theorem request_kept_iff (h : d.password.WellFormed) :
    (d.afterKeyStep net i).sm.getState = (d.atKeyStep net i).sm.getState ↔ ¬ d.Unlocks net i := by
  constructor
  · rintro heq ⟨hl, hu⟩
    rw [heq, hl] at hu
    contradiction
  · intro hu
    rw [unlocks_iff_attemptAt net d i h] at hu
    rw [sm_afterKeyStep net d i h]
    unfold attemptSm
    split
    · contradiction
    · rfl

/-- A key that leaves the password object as it is leaves the goal as it is too. -/
theorem pressTarget_eq_self {k : Byte} (h : d.password.WellFormed)
    (hp : d.password.press k = d.password) :
    pressTarget k d.password d.targetWeight = d.targetWeight := by
  unfold pressTarget
  split
  · rename_i hs
    rw [press_eq_self_iff h, if_pos (.inl hs)] at hp
    simp [Password.entry, hp, command]
  · rfl

/-- When the key step leaves password, target and request. -/
theorem key_inert_iff (h : d.password.WellFormed) :
    ((d.loopBody net i).password = d.password ∧
        (d.loopBody net i).targetWeight = d.targetWeight ∧
        (d.afterKeyStep net i).sm.getState = (d.atKeyStep net i).sm.getState) ↔
      (d.KeyGate i → d.NoEffect i) := by
  rw [request_kept_iff net d i h, unlocks_iff_accepts net d i h,
    password_loopBody net d i h, targetWeight_loopBody net d i h]
  cases hk : d.pushedKey net i with
  | none =>
    have hno := pushedKey_eq_none net d i hk
    simp only [true_and]
    constructor
    · intro _ hgate hpush
      exact absurd hpush (hno hgate)
    · rintro - ⟨hgate, hkey, -⟩
      exact hno hgate (by rw [hkey])
  | some k =>
    obtain ⟨hgate, hkey⟩ := (pushedKey_iff net d i).1 hk
    have hstar : k ≠ chr '*' → ¬ d.Accepts i := by
      rintro hne ⟨-, hk', -⟩
      rw [hkey, Keymat.mk.injEq] at hk'
      exact hne hk'.1
    simp only [hgate, forall_const, NoEffect, hkey]
    constructor
    · rintro ⟨hp, -, hacc⟩
      rw [press_eq_self_iff h] at hp
      by_cases hs : k = chr '*'
      · simpa [hs, hacc] using hp
      · by_cases hh : k = chr '#'
        · simpa [hs, hh] using hp
        · simpa [hs, hh] using hp
    · intro heff
      have hp : d.password.press k = d.password := by
        rw [press_eq_self_iff h]
        by_cases hs : k = chr '*'
        · simpa [hs] using And.left (by simpa [hs] using heff)
        · by_cases hh : k = chr '#'
          · simpa [hs, hh] using heff
          · simpa [hs, hh] using heff
      refine ⟨hp, pressTarget_eq_self d h hp, ?_⟩
      by_cases hs : k = chr '*'
      · simp only [hs, if_true] at heff
        exact heff.2
      · exact hstar hs

/-- **Failed reads.** An iteration takes no harm from them exactly when the bytes that a
failed weight read left show no change of stability and are not accepted, and the bytes
that a failed key read left are no push, one that the key gate holds back, or one without
effect. -/
theorem inert_iff (net : Net) (wifi : Wifi) (leadSw : Bool) (is : List Input) (i : Input) :
    (comMain net wifi leadSw is).Inert net i ↔
      (i.weightRead.failed = true →
          i.weights.stable = (comMain net wifi leadSw is).weightsOld.stable ∧
            ¬ (comMain net wifi leadSw is).Accepts i) ∧
        (i.keyRead.failed = true →
          (comMain net wifi leadSw is).KeyGate i → (comMain net wifi leadSw is).NoEffect i) := by
  have hwf := (ready_comMain net wifi leadSw is).wellFormed
  generalize comMain net wifi leadSw is = d at hwf
  have hkey := key_inert_iff net d i hwf
  have hweight : ((∀ c ∈ d.callsOf net i, reports c = false) ∧ 1 ∉ d.linesOf net i ∧
      ¬ d.Unlocks net i) ↔ i.weights.stable = d.weightsOld.stable ∧ ¬ d.Accepts i := by
    rw [one_mem_linesOf net d i hwf, unlocks_iff_accepts net d i hwf, not_not]
    constructor
    · rintro ⟨-, hs, ha⟩
      exact ⟨hs, ha⟩
    · rintro ⟨hs, ha⟩
      exact ⟨reports_callsOf net d i hwf hs, hs, ha⟩
  constructor
  · intro h
    exact ⟨fun hf => hweight.1 (h.weight hf), fun hf => hkey.1 (h.key hf)⟩
  · rintro ⟨hw, hk⟩
    exact ⟨fun hf => hweight.2 (hw hf), fun hf => hkey.2 (hk hf)⟩

/-- A failed read over the bytes of a determined weight is shown and reported. -/
theorem not_inert_failed_read :
    ¬ (comMain .silent .down false [Input.idle false Input.noWeight]).Inert .silent
      { leadSw := false
        weightRead := { failed := true, buff := Input.fiftyKilos }
        keyRead := { buff := #v[0, 2] } } := by
  intro h
  have hline := (h.weight rfl).2.1
  revert hline
  decide +kernel

end Device

end WeightScale
