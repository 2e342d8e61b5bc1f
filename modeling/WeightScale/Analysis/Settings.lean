import WeightScale.Analysis.Unlocking

/-!
# Who can change the settings

Goal and password are set from the keypad, and the keypad is read while LOCKED. So whoever
types an entry that begins with `0` changes them without knowing the password. Without such
an entry, and without the password, a LOCKED program keeps its settings and stays LOCKED.
-/

set_option autoImplicit false

namespace WeightScale

open Embedded

namespace Device

variable (net : Net) (wifi : Wifi) (leadSw : Bool) {d : Device} (i : Input)

/-- A `'*'` behind `09` sets the password of a LOCKED program that was not asked for it. -/
theorem password_set_unauthenticated :
    let d := comMain .silent .down false [Input.idle false Input.noWeight]
    let is := Input.typing "09*"
    (d.sm.oldState = .locked ∧ d.password.secret = ascii "1234") ∧
      Along (loopBody .silent)
        (fun d' i => i.keyData = ⟨chr '*', .push⟩ → d'.password.guess.str 0 ≠ d.password.secret)
        d is ∧
      (run (loopBody .silent) d is).password.secret ≠ d.password.secret := by
  decide +kernel

/-- A `'*'` is handled behind `0` and no second `0`: it sets the password. -/
def SetsPassword (d : Device) : Prop :=
  d.pushedKey net i = some (chr '*') ∧
    d.password.guess.load 0 = chr '0' ∧ d.password.guess.load 1 ≠ chr '0'

instance : Decidable (d.SetsPassword net i) := inferInstanceAs (Decidable (_ ∧ _ ∧ _))

/-- A `'*'` is handled behind `00`: it sets the goal. -/
def SetsGoal (d : Device) : Prop :=
  d.pushedKey net i = some (chr '*') ∧
    d.password.guess.load 0 = chr '0' ∧ d.password.guess.load 1 = chr '0'

instance : Decidable (d.SetsGoal net i) := inferInstanceAs (Decidable (_ ∧ _ ∧ _))

/-- A `'*'` is handled while the guess spells `pass`. -/
def AttemptsWith (pass : Text) (d : Device) : Prop :=
  d.pushedKey net i = some (chr '*') ∧ d.password.guess.str 0 = pass

instance (pass : Text) : Decidable (d.AttemptsWith net i pass) := inferInstanceAs (Decidable (_ ∧ _))

/-- The first byte tells a command from an attempt. -/
theorem command_of_load {p : Password} (h : p.WellFormed) (h0 : p.guess.load 0 ≠ chr '0') :
    command p.entry = .attempt := by
  apply command_of_head
  rw [Password.load_guess h (Nat.zero_le _)] at h0
  rw [List.head?_eq_getElem?]
  intro hhead
  simp [hhead] at h0

/-! ## One iteration -/

/-- Nothing but the setting of a password changes the stored one. -/
theorem secret_loopBody (h : d.Ready) (hset : ¬ d.SetsPassword net i) :
    (d.loopBody net i).password.secret = d.password.secret := by
  rw [password_loopBody net d i h.wellFormed]
  cases hk : d.pushedKey net i with
  | none => rfl
  | some k =>
    show (d.password.press k).secret = d.password.secret
    rw [Password.secret_press h.wellFormed]
    split
    · rename_i hstar
      subst hstar
      have hd := Password.dispatch h.wellFormed
      cases hc : command d.password.entry with
      | goal ds => rfl
      | attempt => rfl
      | password pass =>
        rw [hc] at hd
        exact absurd ⟨hk, hd.1, hd.2.1⟩ hset
    · rfl

/-- Nothing but the setting of a goal changes it, also in an iteration that unlocks. -/
theorem targetWeight_loopBody_of_not_setsGoal (h : d.Ready) (hset : ¬ d.SetsGoal net i) :
    (d.loopBody net i).targetWeight = d.targetWeight := by
  rw [targetWeight_loopBody net d i h.wellFormed]
  cases hk : d.pushedKey net i with
  | none => rfl
  | some k =>
    show pressTarget k d.password d.targetWeight = d.targetWeight
    rw [pressTarget]
    split
    · rename_i hstar
      subst hstar
      have hd := Password.dispatch h.wellFormed
      cases hc : command d.password.entry with
      | goal ds =>
        rw [hc] at hd
        exact absurd ⟨hk, hd.1⟩ hset
      | password pass => rfl
      | attempt => rfl
    · rfl

/-- What a program keeps that is not told its password: LOCKED, and the password. -/
structure KeptLocked (pass : Text) (d : Device) : Prop extends d.Settled where
  locked : d.sm.gState = .locked
  secret : d.password.secret = pass

/-- A `'*'` that neither spells the password nor sets another one unlocks nothing. -/
theorem KeptLocked.loopBody {pass : Text} (h : d.KeptLocked pass)
    (hset : ¬ d.SetsPassword net i) (hwith : ¬ d.AttemptsWith net i pass) :
    (d.loopBody net i).KeptLocked pass ∧ Call.unlockedInit ∉ d.callsOf net i := by
  have hwf := h.wellFormed
  have hu : ¬ d.Unlocks net i := by
    intro hu
    obtain ⟨hp, -, heq, -, -⟩ := (unlocks_iff net d i hwf).1 hu
    apply hwith
    refine ⟨hp, ?_⟩
    rw [Password.str_guess hwf (Nat.zero_le _), List.drop_zero, heq, h.secret]
  have hreq : d.request net i = .locked := by
    rw [request_eq net d i hwf, if_neg hu, h.locked, ite_self]
  refine ⟨⟨h.settled_loopBody net i, ?_, ?_⟩, ?_⟩
  · rw [h.sm_loopBody net i, hreq]
  · rw [secret_loopBody net i h.toReady hset, h.secret]
  · intro hin
    rcases h.of_unlockedInit net i hin with hacc | ⟨hinit, -⟩
    · exact hu hacc
    · rw [h.settled, h.locked] at hinit
      contradiction

/-! ## Runs -/

/-- **No unauthenticated reconfiguration but by a command.** From every LOCKED state of a
run the password stays what it is unless a `'*'` sets another one, and the goal unless a
`'*'` sets another one. Without the password, and unless another one is set, UNLOCKED is
never entered. -/
theorem settings_kept (net : Net) (wifi : Wifi) (leadSw : Bool) (is js : List Input)
    (hlocked : (comMain net wifi leadSw is).sm.oldState = .locked) :
    let d := comMain net wifi leadSw is
    let d' := comMain net wifi leadSw (is ++ js)
    (Along (loopBody net) (fun d i => ¬ d.SetsPassword net i) d js →
        d'.password.secret = d.password.secret) ∧
      (Along (loopBody net) (fun d i => ¬ d.SetsGoal net i) d js →
        d'.targetWeight = d.targetWeight) ∧
      (Along (loopBody net)
          (fun e i => ¬ e.SetsPassword net i ∧ ¬ e.AttemptsWith net i d.password.secret) d js →
        Call.unlockedInit ∉ outputs (loopBody net) (fun d i => d.callsOf net i) d js) := by
  intro d d'
  have hready : d.Ready := ready_comMain net wifi leadSw is
  have hsettled : d.Settled := by
    apply settled_comMain
    rintro rfl
    rw [comMain, run_nil, sm_startUp] at hlocked
    contradiction
  have hkept : d.KeptLocked d.password.secret := ⟨hsettled, hsettled.settled ▸ hlocked, rfl⟩
  have hrun : d' = run (loopBody net) d js := run_append _ _ _
  rw [hrun]
  refine ⟨?_, ?_, ?_⟩
  · intro halong
    refine (run_invariant_along (P := fun e : Device =>
      e.Ready ∧ e.password.secret = d.password.secret) halong ⟨hready, rfl⟩ ?_).2
    rintro e i hset ⟨he, heq⟩
    exact ⟨(he.settled_loopBody net i).toReady, (secret_loopBody net i he hset).trans heq⟩
  · intro halong
    refine (run_invariant_along (P := fun e : Device =>
      e.Ready ∧ e.targetWeight = d.targetWeight) halong ⟨hready, rfl⟩ ?_).2
    rintro e i hset ⟨he, heq⟩
    exact ⟨(he.settled_loopBody net i).toReady,
      (targetWeight_loopBody_of_not_setsGoal net i he hset).trans heq⟩
  · intro halong hin
    -- the iteration that would enter UNLOCKED is reached with the password kept
    obtain ⟨pre, i, post, rfl, hcall⟩ := mem_outputs.1 hin
    obtain ⟨hpre, hi, -⟩ := (along_append _ _ _ _).1 halong
    have hbefore : (run (loopBody net) d pre).KeptLocked d.password.secret :=
      run_invariant_along hpre hkept fun e i h he => (he.loopBody net i h.1 h.2).1
    exact (hbefore.loopBody net i hi.1 hi.2).2 hcall

/-- A goal and two wrong attempts leave the password alone; a password and two attempts, of
which the second unlocks, leave the goal alone. -/
theorem settings_kept_mixed_entries :
    let is := [Input.idle false Input.noWeight]
    let js := Input.typing "0050*9876*#5*"
    let js' := Input.typing "09*77*" ++ [Input.pushing '9' false Input.fiftyKilos,
      Input.pushing '*' false Input.fiftyKilos]
    (comMain .silent .down false (is ++ js)).password.secret =
        (comMain .silent .down false is).password.secret ∧
      Call.unlockedInit ∉ outputs (loopBody .silent) (fun d i => d.callsOf .silent i)
        (comMain .silent .down false is) js ∧
      (comMain .silent .down false (is ++ js')).targetWeight =
        (comMain .silent .down false is).targetWeight := by
  intro is js js'
  obtain ⟨hsecret, -, hunlocked⟩ := settings_kept .silent .down false is js (by decide +kernel)
  obtain ⟨-, htarget, -⟩ := settings_kept .silent .down false is js' (by decide +kernel)
  exact ⟨hsecret (by decide +kernel), hunlocked (by decide +kernel), htarget (by decide +kernel)⟩

end Device

end WeightScale
