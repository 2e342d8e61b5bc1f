import WeightScale.Interface.Iteration
import WeightScale.Analysis.Effects
import WeightScale.Analysis.PasswordBuffer

/-!
# The key step

`keypadEvent` reads its entry out of the guess array one char at a time. On a well-formed
password that is a case distinction on the entry, `command`, and the three cases of a
`'*'` change three different things: the goal, the password, or the requested state. Each
lemma below says for one of the program's variables what a pushed key makes of it.
-/

set_option autoImplicit false

namespace WeightScale

open Embedded

namespace Password

/-- The two command keys differ. -/
@[simp] theorem hash_ne_star : ¬ chr '#' = chr '*' := by decide

/-- What a pushed key does to the two buffers. -/
def press (k : Byte) (p : Password) : Password :=
  if k = chr '*' then
    match command p.entry with
    | .password pass => (p.set (cstr pass)).reset
    | _ => p.reset
  else if k = chr '#' then p.reset
  else p.append k

/-- The password of a command is the entry without its `0`. -/
theorem command_password_length {t pass : Text} (h : command t = .password pass) :
    pass.length + 1 = t.length := by
  match t with
  | [] => simp [command] at h
  | [c] =>
    by_cases hc : c = chr '0' <;> simp [command, hc] at h
    simp [← h]
  | c :: c' :: rest =>
    by_cases hc : c = chr '0' <;> by_cases hc' : c' = chr '0' <;> simp [command, hc, hc'] at h
    simp [← h]

/-- A password that is set has at most 18 chars. -/
theorem cstr_password_length_le {p : Password} (h : p.WellFormed) {pass : Text}
    (hc : command p.entry = .password pass) : (cstr pass).length ≤ 18 := by
  have h₁ := command_password_length hc
  have h₂ := length_entry_le h
  have h₃ := length_cstr_le pass
  omega

/-- A key keeps the terminators of both arrays. -/
theorem wellFormed_press {p : Password} (h : p.WellFormed) (k : Byte) :
    (p.press k).WellFormed := by
  unfold press
  split
  · split
    · rename_i pass hc
      exact wellFormed_reset (length_secret_set_le (cstr_password_length_le h hc) p)
    · exact wellFormed_reset h.secret_length
  · split
    · exact wellFormed_reset h.secret_length
    · exact wellFormed_append h k

/-- A char key is added to the entry while it has less than 19, `*` and `#` clear it. -/
theorem entry_press {p : Password} (h : p.WellFormed) (k : Byte) :
    (p.press k).entry =
      if k = chr '*' ∨ k = chr '#' then [] else (p.entry ++ [k]).take 19 := by
  unfold press
  by_cases hs : k = chr '*'
  · simp only [hs, if_true, true_or]
    split <;> simp
  · simp only [hs, if_false, false_or]
    by_cases hh : k = chr '#'
    · simp [hh]
    · simp [hh, entry_append h]

/-- Only `*` behind a password command changes the password. -/
theorem secret_press {p : Password} (h : p.WellFormed) (k : Byte) :
    (p.press k).secret =
      if k = chr '*' then
        match command p.entry with
        | .password pass => cstr pass
        | _ => p.secret
      else p.secret := by
  unfold press
  by_cases hs : k = chr '*'
  · simp only [hs, if_true]
    split
    · rename_i pass hc
      rw [secret_reset, secret_set (cstr_password_length_le h hc), cstr_cstr]
    · simp
  · simp only [hs, if_false]
    by_cases hh : k = chr '#' <;> simp [hh, secret_append h]

/-- The two tests of the dispatch and the texts behind the prefix, by the entry. -/
theorem dispatch {p : Password} (h : p.WellFormed) :
    match command p.entry with
    | .goal ds => (p.guess.load 0 = chr '0' ∧ p.guess.load 1 = chr '0') ∧ p.guess.str 2 = cstr ds
    | .password pass => p.guess.load 0 = chr '0' ∧ p.guess.load 1 ≠ chr '0' ∧
        p.guess.str 1 = cstr pass
    | .attempt => p.guess.load 0 ≠ chr '0' := by
  match he : p.entry with
  | [] =>
    have h0 := load_guess h (Nat.zero_le _)
    simp only [command, h0, he]
    decide
  | [c] =>
    have h0 := load_guess h (Nat.zero_le _)
    have h1 := load_guess h (i := 1) (by simp [he])
    have hs := str_guess h (n := 1) (by simp [he])
    by_cases hc : c = chr '0'
    · simp only [command, hc, if_true, h0, h1, hs, he]
      decide
    · simp [command, hc, h0, he]
  | c :: c' :: rest =>
    have h0 := load_guess h (Nat.zero_le _)
    have h1 := load_guess h (i := 1) (by simp [he])
    have hs₁ := str_guess h (n := 1) (by simp [he])
    have hs₂ := str_guess h (n := 2) (by simp [he])
    by_cases hc : c = chr '0'
    · by_cases hc' : c' = chr '0'
      · simp [command, hc, hc', h0, h1, hs₂, he]
      · simp [command, hc, hc', h0, h1, hs₁, he]
    · simp [command, hc, h0, he]

end Password

/-! ## What a pushed key does to the program -/

/-- Why an attempt to unlock fails, as the pattern `unlock_failed` is called with; `none`
where it succeeds. -/
def verdict (p : Password) (weights : Weight) (targetWeight : Binary32) : Option Byte :=
  if p.evaluate = false then some 0
  else if weights.stable = WeightStable.initial then some 1
  else if weights.weight < targetWeight then none
  else some 2

/-- The attempt a pushed key makes, by its verdict; `none` where it makes none. -/
def attempt (k : Byte) (p : Password) (weights : Weight) (targetWeight : Binary32) :
    Option (Option Byte) :=
  if k = chr '*' ∧ command p.entry = .attempt then some (verdict p weights targetWeight) else none

/-- What a pushed key does to the goal. -/
def pressTarget (k : Byte) (p : Password) (targetWeight : Binary32) : Binary32 :=
  if k = chr '*' then
    match command p.entry with
    | .goal ds => .ofInt (Device.atoi (cstr ds)).toInt
    | _ => targetWeight
  else targetWeight

namespace Device

variable (advance : Advance) (net : Net) (d : Device) (weights : Weight)

def seen (d : Device) : Seen := d.io.seen advance

/-! A function on one part of the program leaves the other parts alone. The proofs are
hidden from `dsimp`, which would leave it to the kernel to compute whole texts. -/

section fields

variable (f : Io → Io) (g : Password → Password) (state : LockState) (t : Text)

@[simp] theorem sm_onIo : (d.onIo f).sm = d.sm := (rfl)
@[simp] theorem password_onIo : (d.onIo f).password = d.password := (rfl)
@[simp] theorem targetWeight_onIo : (d.onIo f).targetWeight = d.targetWeight := (rfl)
@[simp] theorem weightsOld_onIo : (d.onIo f).weightsOld = d.weightsOld := (rfl)
@[simp] theorem doorOpenOld_onIo : (d.onIo f).doorOpenOld = d.doorOpenOld := (rfl)
@[simp] theorem targetWeightOld_onIo : (d.onIo f).targetWeightOld = d.targetWeightOld := (rfl)
@[simp] theorem io_onIo : (d.onIo f).io = f d.io := (rfl)
@[simp] theorem seen_onIo : (d.onIo f).seen advance = (f d.io).seen advance := (rfl)

@[simp] theorem sm_onPassword : (d.onPassword g).sm = d.sm := (rfl)
@[simp] theorem password_onPassword : (d.onPassword g).password = g d.password := (rfl)
@[simp] theorem targetWeight_onPassword : (d.onPassword g).targetWeight = d.targetWeight := (rfl)
@[simp] theorem weightsOld_onPassword : (d.onPassword g).weightsOld = d.weightsOld := (rfl)
@[simp] theorem doorOpenOld_onPassword : (d.onPassword g).doorOpenOld = d.doorOpenOld := (rfl)
@[simp] theorem targetWeightOld_onPassword : (d.onPassword g).targetWeightOld = d.targetWeightOld := (rfl)
@[simp] theorem seen_onPassword : (d.onPassword g).seen advance = d.seen advance := (rfl)

@[simp] theorem sm_setState : (d.setState state).sm = d.sm.setState state := (rfl)
@[simp] theorem password_setState : (d.setState state).password = d.password := (rfl)
@[simp] theorem targetWeight_setState : (d.setState state).targetWeight = d.targetWeight := (rfl)
@[simp] theorem weightsOld_setState : (d.setState state).weightsOld = d.weightsOld := (rfl)
@[simp] theorem doorOpenOld_setState : (d.setState state).doorOpenOld = d.doorOpenOld := (rfl)
@[simp] theorem targetWeightOld_setState : (d.setState state).targetWeightOld = d.targetWeightOld := (rfl)
@[simp] theorem io_setState : (d.setState state).io = d.io := (rfl)
@[simp] theorem seen_setState : (d.setState state).seen advance = d.seen advance := (rfl)

/-- Printing on the console and the display is not seen on the slaves. -/
@[simp] theorem sm_printf2 : (d.printf2 t).sm = d.sm := (rfl)
@[simp] theorem password_printf2 : (d.printf2 t).password = d.password := (rfl)
@[simp] theorem targetWeight_printf2 : (d.printf2 t).targetWeight = d.targetWeight := (rfl)
@[simp] theorem weightsOld_printf2 : (d.printf2 t).weightsOld = d.weightsOld := (rfl)
@[simp] theorem doorOpenOld_printf2 : (d.printf2 t).doorOpenOld = d.doorOpenOld := (rfl)
@[simp] theorem targetWeightOld_printf2 : (d.printf2 t).targetWeightOld = d.targetWeightOld := (rfl)
@[simp] theorem seen_printf2 : (d.printf2 t).seen advance = d.seen advance :=
  Io.seen_printf2 advance d.io t

end fields

/-- `checkPassword` requests UNLOCKED or reports why it does not. -/
theorem checkPassword_eq :
    d.checkPassword net weights =
      match verdict d.password weights d.targetWeight with
      | some pattern => d.onIo (Io.unlockFailed net pattern)
      | none => d.setState .unlocked := by
  unfold checkPassword verdict
  split
  · rfl
  · split
    · rfl
    · split <;> rfl

/-- The target weight is not seen on the devices. -/
@[simp] theorem seen_withTarget (t : Binary32) :
    ({ d with targetWeight := t } : Device).seen advance = d.seen advance := by
  simp only [seen]

/-- A `'*'` behind `00` sets the goal. -/
theorem enterKey_goal (h : d.password.WellFormed) {ds : Text}
    (hc : command d.password.entry = .goal ds) :
    d.enterKey net weights =
      let d := { d with targetWeight := .ofInt (atoi (cstr ds)).toInt }
      d.printf2 (ascii "Weight Set: " ++ fmtF false 3 1 d.targetWeight ++ ascii "\n") := by
  have hd := Password.dispatch h
  rw [hc] at hd
  rw [enterKey, if_pos hd.1, hd.2]

/-- A `'*'` behind `0` sets the password. -/
theorem enterKey_password (h : d.password.WellFormed) {pass : Text}
    (hc : command d.password.entry = .password pass) :
    d.enterKey net weights =
      let d := d.onPassword (Password.set (cstr pass))
      d.printf2 (ascii "Password Set: " ++ d.password.target.str 0 ++ ascii "\n") := by
  have hd := Password.dispatch h
  rw [hc] at hd
  rw [enterKey, if_neg (fun hand => hd.2.1 hand.2), if_pos hd.1, hd.2.2]

/-- Every other `'*'` is an attempt to unlock. -/
theorem enterKey_attempt (h : d.password.WellFormed)
    (hc : command d.password.entry = .attempt) :
    d.enterKey net weights =
      let d := d.printf2 (ascii "Guess Get: " ++ d.password.guess.str 0 ++ ascii "\n")
      let d := d.printf2 (ascii "Password Get: " ++ d.password.target.str 0 ++ ascii "\n")
      d.checkPassword net weights := by
  have hd := Password.dispatch h
  rw [hc] at hd
  rw [enterKey, if_neg (fun hand => hd hand.1), if_neg hd]

/-- The request an attempt makes. -/
def attemptSm (a : Option (Option Byte)) (m : StateMachine) : StateMachine :=
  match a with
  | some none => m.setState .unlocked
  | _ => m

/-- The attempt as it shows outside. -/
def attemptSeen (a : Option (Option Byte)) (s : Seen) : Seen :=
  match a with
  | some (some pattern) =>
    s |>.call (.unlockFailed pattern) |>.kaiten 50 |>.lamp true |>.attach
      |>.update advance 3 (Io.failureText pattern) |>.callAll (Io.failureCalls pattern)
  | _ => s

/-- There are three reasons to refuse an entry. -/
theorem verdict_range {p : Password} {w : Weight} {t : Binary32} {pattern : Byte}
    (h : verdict p w t = some pattern) : pattern = 0 ∨ pattern = 1 ∨ pattern = 2 := by
  unfold verdict at h
  split at h
  · simpa using Or.inl h.symm
  · split at h
    · simpa using Or.inr (Or.inl h.symm)
    · split at h
      · simp at h
      · simpa using Or.inr (Or.inr h.symm)

/-- A refused entry is seen as `unlock_failed` with its reason. -/
theorem seen_onIo_unlockFailed {pattern : Byte}
    (h : pattern = 0 ∨ pattern = 1 ∨ pattern = 2) :
    (d.onIo (Io.unlockFailed net pattern)).seen advance =
      attemptSeen advance (some (some pattern)) (d.seen advance) :=
  Io.seen_unlockFailed advance net d.io h

/-- **The key step in one piece**: what pushing `k` makes of each variable. -/
structure Pressed (d d' : Device) (k : Byte) (weights : Weight) : Prop where
  sm : d'.sm = attemptSm (attempt k d.password weights d.targetWeight) d.sm
  password : d'.password = d.password.press k
  targetWeight : d'.targetWeight = pressTarget k d.password d.targetWeight
  weightsOld : d'.weightsOld = d.weightsOld
  doorOpenOld : d'.doorOpenOld = d.doorOpenOld
  targetWeightOld : d'.targetWeightOld = d.targetWeightOld
  seen : ∀ advance, d'.seen advance =
    (attemptSeen advance (attempt k d.password weights d.targetWeight) (d.seen advance)).update
      advance 2 (printedText (ascii "PASS:" ++ d'.password.guess.str 0 ++ ascii "\n"))

/-- The entry line, as the end of `keypadEvent` redraws it. -/
def showGuess (d : Device) : Device :=
  d.onIo fun io => ((io.cmdSetLine 2).cmdSetTextColor 0 15 0).printStr
    (ascii "PASS:" ++ d.password.guess.str 0 ++ ascii "\n")

/-- Showing the entry updates row 2. -/
theorem seen_showGuess :
    d.showGuess.seen advance =
      (d.seen advance).update advance 2
        (printedText (ascii "PASS:" ++ d.password.guess.str 0 ++ ascii "\n")) :=
  Io.seen_showLine advance d.io (l := 2) (by decide) _

/-- A push prints its key, acts on it and shows the entry. -/
theorem keypadEvent_eq {keyData : Keymat} (hp : keyData.state = .push) :
    d.keypadEvent net keyData weights =
      let d := (d.printf2 (ascii "Pressed: ")).printf2 (keyData.key :: ascii "\n")
      (if keyData.key = chr '*' then (d.enterKey net weights).onPassword Password.reset
        else if keyData.key = chr '#' then d.onPassword Password.reset
        else d.onPassword (Password.append keyData.key)).showGuess := by
  rw [keypadEvent, if_pos hp]; rfl

/-- Without a push nothing happens. -/
theorem keypadEvent_of_not_push {keyData : Keymat} (hp : keyData.state ≠ .push) :
    d.keypadEvent net keyData weights = d := if_neg hp

/-- A step before the redraw of the entry line. -/
theorem Pressed.of_showGuess {d d' : Device} {k : Byte} {weights : Weight}
    (hsm : d'.sm = attemptSm (attempt k d.password weights d.targetWeight) d.sm)
    (hpassword : d'.password = d.password.press k)
    (htarget : d'.targetWeight = pressTarget k d.password d.targetWeight)
    (hold : d'.weightsOld = d.weightsOld ∧ d'.doorOpenOld = d.doorOpenOld ∧
      d'.targetWeightOld = d.targetWeightOld)
    (hseen : ∀ advance, d'.seen advance =
      attemptSeen advance (attempt k d.password weights d.targetWeight) (d.seen advance)) :
    Pressed d d'.showGuess k weights where
  sm := hsm
  password := hpassword
  targetWeight := htarget
  weightsOld := hold.1
  doorOpenOld := hold.2.1
  targetWeightOld := hold.2.2
  seen advance := by
    rw [seen_showGuess, hseen]; rfl

/-- What was logged before a step does not matter to it. -/
theorem Pressed.of_printf2 {d d' : Device} {k : Byte} {weights : Weight} {t : Text}
    (h : Pressed (d.printf2 t) d' k weights) : Pressed d d' k weights where
  sm := by simpa using h.sm
  password := by simpa using h.password
  targetWeight := by simpa using h.targetWeight
  weightsOld := by simpa using h.weightsOld
  doorOpenOld := by simpa using h.doorOpenOld
  targetWeightOld := by simpa using h.targetWeightOld
  seen advance := by simpa using h.seen advance

/-- The key `*` does what pressing it says, for all variables at once. -/
theorem enterKey_pressed (h : d.password.WellFormed) :
    Pressed d ((d.enterKey net weights).onPassword Password.reset).showGuess (chr '*') weights := by
  cases hc : command d.password.entry with
  | goal ds =>
    have hno : attempt (chr '*') d.password weights d.targetWeight = none := by
      simp [attempt, hc]
    rw [enterKey_goal net d weights h hc]
    apply Pressed.of_showGuess
    · simp [hno, attemptSm]
    · simp [Password.press, hc]
    · simp [pressTarget, hc]
    · simp
    · intro advance
      simp [hno, attemptSeen]
  | password pass =>
    have hno : attempt (chr '*') d.password weights d.targetWeight = none := by
      simp [attempt, hc]
    rw [enterKey_password net d weights h hc]
    apply Pressed.of_showGuess
    · simp [hno, attemptSm]
    · simp [Password.press, hc]
    · simp [pressTarget, hc]
    · simp
    · simp [hno, attemptSeen]
  | attempt =>
    have hyes : attempt (chr '*') d.password weights d.targetWeight =
        some (verdict d.password weights d.targetWeight) := by
      simp [attempt, hc]
    rw [enterKey_attempt net d weights h hc]
    simp only [checkPassword_eq, password_printf2, targetWeight_printf2]
    cases hv : verdict d.password weights d.targetWeight with
    | none =>
      rw [hv] at hyes
      apply Pressed.of_showGuess
      · simp [hyes, attemptSm]
      · simp [Password.press, hc]
      · simp [pressTarget, hc]
      · simp
      · simp [hyes, attemptSeen]
    | some pattern =>
      rw [hv] at hyes
      apply Pressed.of_showGuess
      · simp [hyes, attemptSm]
      · simp [Password.press, hc]
      · simp [pressTarget, hc]
      · simp
      · intro advance
        simp only [hyes, seen_onPassword, seen_onIo_unlockFailed advance net _ (verdict_range hv),
          seen_printf2]

/-- Any pushed key does what pressing it says, for all variables at once. -/
theorem keypadEvent_pressed (h : d.password.WellFormed) {keyData : Keymat}
    (hp : keyData.state = .push) :
    Pressed d (d.keypadEvent net keyData weights) keyData.key weights := by
  rw [keypadEvent_eq net d weights hp]
  apply Pressed.of_printf2
  apply Pressed.of_printf2
  generalize he : (d.printf2 (ascii "Pressed: ")).printf2 (keyData.key :: ascii "\n") = e
  have hwf : e.password.WellFormed := by simpa [← he] using h
  by_cases hs : keyData.key = chr '*'
  · simpa only [hs, if_true] using enterKey_pressed net e weights hwf
  · have hno : attempt keyData.key e.password weights e.targetWeight = none := by
      simp [attempt, hs]
    simp only [hs, if_false]
    by_cases hh : keyData.key = chr '#'
    · simp only [hh, if_true] at hno ⊢
      apply Pressed.of_showGuess
      · simp [hno, attemptSm]
      · simp [Password.press]
      · simp [pressTarget]
      · simp
      · simp [hno, attemptSeen]
    · simp only [hh, if_false]
      apply Pressed.of_showGuess
      · simp [hno, attemptSm]
      · simp [Password.press, hs, hh]
      · simp [pressTarget, hs]
      · simp
      · simp [hno, attemptSeen]

end Device

end WeightScale
