import WeightScale.Analysis.Unlocking

/-!
# What an entry sets

An entry is kept in twenty chars, so of what is typed the first nineteen keys count. The
password behind a `0` is cut to eighteen keys, and typing it back is cut to nineteen: from
nineteen keys on the two differ. The goal behind `00` is cut to seventeen keys, and what
`atoi` makes of them becomes the goal, whatever they are.
-/

set_option autoImplicit false

namespace WeightScale

open Embedded

namespace Device

variable (net : Net) (wifi : Wifi) (leadSw : Bool) {d : Device} (i : Input)

/-- An entry that is no attempt, over a run: its keys are read, and the `'*'` behind them
sets a password or a goal. -/
theorem run_of_entry {js : List Input} {ks : Text} (h : d.Ready) (hl : d.sm.gState = .locked)
    (hjs : pushes js = ks ++ [chr '*']) (hks : chr '*' ∉ ks)
    (hcmd : command (ks.foldl (fun p k => p.press k) d.password).entry ≠ .attempt) :
    let q := ks.foldl (fun p k => p.press k) d.password
    (run (loopBody net) d js).sm.gState = .locked ∧
      (run (loopBody net) d js).password = q.press (chr '*') ∧
      (run (loopBody net) d js).targetWeight = pressTarget (chr '*') q d.targetWeight := by
  intro q
  obtain ⟨pre, rest, rfl, hpre, hrest⟩ := List.filterMap_eq_append_iff.1 hjs
  obtain ⟨idle, star, post, rfl, hidle, hstar, hpost⟩ := List.filterMap_eq_cons_iff.1 hrest
  have hbefore : pushes (pre ++ idle) = ks := by
    have hnone : pushes idle = [] := List.filterMap_eq_nil_iff.2 hidle
    rw [pushes, List.filterMap_append, ← pushes, ← pushes, hnone, List.append_nil]
    exact hpre
  have hstarKey : star.keyData.state = .push ∧ star.keyData.key = chr '*' := by
    split at hstar
    · exact ⟨‹_›, Option.some.inj hstar⟩
    · exact absurd hstar (by simp)
  obtain ⟨hg, ht, hp⟩ := run_of_locked net (pre ++ idle) h hl (by rw [hbefore]; exact hks)
  rw [hbefore] at hp
  rw [← List.append_assoc, run_append, run_cons]
  have hd : (run (loopBody net) d (pre ++ idle)).Ready := ready_run net h _
  generalize run (loopBody net) d (pre ++ idle) = d₁ at hg ht hp hd
  have hkey : d₁.pushedKey net star = some (chr '*') := by
    rw [pushedKey_of_locked net star hg, if_pos hstarKey.1, hstarKey.2]
  have hu : ¬ d₁.Unlocks net star := by
    intro hu
    have hattempt := ((unlocks_iff net d₁ star hd.wellFormed).1 hu).2.1
    rw [hp] at hattempt
    exact hcmd hattempt
  have hg₂ : (d₁.loopBody net star).sm.gState = .locked := by
    rw [hd.sm_loopBody, request_eq net d₁ star hd.wellFormed, if_neg hu, hg, ite_self]
  have hp₂ : (d₁.loopBody net star).password = q.press (chr '*') := by
    rw [password_loopBody net d₁ star hd.wellFormed, hkey, hp]
  have ht₂ : (d₁.loopBody net star).targetWeight = pressTarget (chr '*') q d.targetWeight := by
    rw [targetWeight_loopBody net d₁ star hd.wellFormed, hkey, hp, ht]
  obtain ⟨hg₃, ht₃, hp₃⟩ := run_of_locked net post (hd.settled_loopBody net star).toReady hg₂
    (by rw [pushes, hpost]; exact List.not_mem_nil)
  rw [pushes, hpost, List.foldl_nil] at hp₃
  exact ⟨hg₃, hp₃.trans hp₂, ht₃.trans ht₂⟩

/-! ## Setting a password and typing it back -/

/-- The key step of the iteration calls `evaluate`, and it returns true. -/
def EvaluatesTrue (d : Device) (i : Input) : Prop :=
  d.pushedKey net i = some (chr '*') ∧ d.password.guess.load 0 ≠ chr '0' ∧
    (d.atKeyStep net i).password.evaluate = true

instance : Decidable (d.EvaluatesTrue net i) := inferInstanceAs (Decidable (_ ∧ _))

/-- The keys of a password that the keypad can spell. -/
structure Spells (P : Text) : Prop where
  keys : ∀ b ∈ P, b ≠ 0 ∧ b ≠ chr '*' ∧ b ≠ chr '#'
  head : P.head? ≠ some (chr '0')

/-- One `0` in front of a text with no `0` in front stores it as the password. -/
theorem command_zero_cons {P : Text} (h : P.head? ≠ some (chr '0')) :
    command (chr '0' :: P) = .password P := by
  match P with
  | [] => rfl
  | c :: rest =>
    rw [List.head?_cons, ne_eq, Option.some.injEq] at h
    rw [command, if_pos rfl, if_neg h]

/-- A part of a spelled text holds no NUL. -/
theorem Spells.cstr_take {P : Text} (hP : Spells P) (n : ℕ) : cstr (P.take n) = P.take n :=
  cstr_eq_self fun b hb => (hP.keys b (List.mem_of_mem_take hb)).1

/-- The entry `0` `P` is cut behind eighteen keys of `P`, and they become the password. -/
theorem comMain_set_password {is js : List Input} {P : Text}
    (hlocked : (comMain net wifi leadSw is).sm.getState = .locked)
    (hempty : (comMain net wifi leadSw is).password.entry = []) (hP : Spells P)
    (hjs : pushes js = chr '0' :: P ++ [chr '*']) :
    (comMain net wifi leadSw (is ++ js)).sm.getState = .locked ∧
      (comMain net wifi leadSw (is ++ js)).password.entry = [] ∧
      (comMain net wifi leadSw (is ++ js)).password.secret = P.take 18 := by
  have hd := ready_comMain net wifi leadSw is
  have hkeys : ∀ b ∈ chr '0' :: P, b ≠ chr '*' ∧ b ≠ chr '#' := by
    intro b hb
    rcases List.mem_cons.1 hb with rfl | hb
    · decide
    · exact (hP.keys b hb).2
  obtain ⟨hwf, hentry, hsecret⟩ := entry_foldl_press hd.wellFormed (chr '0' :: P) hkeys
  rw [hempty, List.nil_append, List.take_succ_cons] at hentry
  have hcmd := command_zero_cons (P := P.take 18) (by
    rw [List.head?_take, if_neg (by decide)]
    exact hP.head)
  rw [← hentry] at hcmd
  obtain ⟨hg, hp, -⟩ := run_of_entry net hd hlocked hjs (fun hmem => (hkeys _ hmem).1 rfl)
    (by rw [hcmd]; exact nofun)
  have hrun : comMain net wifi leadSw (is ++ js) =
    run (loopBody net) (comMain net wifi leadSw is) js := run_append _ _ _
  rw [hrun]
  refine ⟨hg, ?_, ?_⟩
  · rw [hp, Password.entry_press hwf, if_pos (Or.inl rfl)]
  · rw [hp, Password.secret_press hwf, if_pos rfl, hcmd]
    exact hP.cstr_take 18

/-- Typed without a `0`, `P` is cut behind nineteen keys, and they are compared. -/
theorem evaluatesTrue_of_typed {is js : List Input} {last : Input} {P : Text}
    (hlocked : (comMain net wifi leadSw is).sm.getState = .locked)
    (hempty : (comMain net wifi leadSw is).password.entry = []) (hP : Spells P)
    (hjs : pushes js = P) (hlast : last.keyData = ⟨chr '*', .push⟩) :
    (comMain net wifi leadSw (is ++ js)).EvaluatesTrue net last ↔
      P.take 19 = (comMain net wifi leadSw is).password.secret := by
  have hd := ready_comMain net wifi leadSw is
  obtain ⟨hwf, hentry, hsecret⟩ := entry_foldl_press hd.wellFormed P fun b hb => (hP.keys b hb).2
  obtain ⟨hg, -, hp⟩ := run_of_locked net js hd hlocked (by
    rw [hjs]
    exact fun hmem => (hP.keys _ hmem).2.1 rfl)
  have hrun : comMain net wifi leadSw (is ++ js) =
    run (loopBody net) (comMain net wifi leadSw is) js := run_append _ _ _
  rw [hjs, ← hrun] at hp
  rw [← hrun] at hg
  rw [← hp, hempty, List.nil_append] at hentry
  rw [← hp] at hwf hsecret
  have hkey : (comMain net wifi leadSw (is ++ js)).pushedKey net last = some (chr '*') := by
    rw [pushedKey_of_locked net last hg, hlast, if_pos rfl]
  have hload : (comMain net wifi leadSw (is ++ js)).password.guess.load 0 ≠ chr '0' := by
    rw [Password.load_guess hwf (Nat.zero_le _), hentry, ← List.head?_eq_getElem?,
      List.head?_take, if_neg (by decide)]
    intro hzero
    cases hhead : P.head? with
    | none => rw [hhead] at hzero; exact absurd hzero (by decide)
    | some c => rw [hhead] at hzero; exact hP.head (hhead.trans (congrArg some hzero))
  rw [EvaluatesTrue, hkey, password_atKeyStep, Password.evaluate_iff hwf, hentry, hsecret,
    hP.cstr_take 19]
  constructor
  · rintro ⟨-, -, heq⟩
    exact heq
  · intro heq
    exact ⟨rfl, hload, heq⟩

/-- **A password comes back as it was typed** exactly up to eighteen keys. From every LOCKED
state of a run with an empty guess, and whatever else the iterations sample: after `0`, `P`
and `'*'` the stored password is the old one, or `P` and `'*'` evaluate to true, if and only
if `P` has at most eighteen keys or its first eighteen are the old password. -/
theorem password_unchanged_or_accepted_iff (net : Net) (wifi : Wifi) (leadSw : Bool)
    (is js js' : List Input) (last : Input) (P : Text)
    (hlocked : (comMain net wifi leadSw is).sm.getState = .locked)
    (hempty : (comMain net wifi leadSw is).password.entry = []) (hP : Spells P)
    (hjs : pushes js = chr '0' :: P ++ [chr '*']) (hjs' : pushes js' = P)
    (hlast : last.keyData = ⟨chr '*', .push⟩) :
    ((comMain net wifi leadSw (is ++ js)).password.secret =
          (comMain net wifi leadSw is).password.secret ∨
        (comMain net wifi leadSw (is ++ js ++ js')).EvaluatesTrue net last) ↔
      P.length ≤ 18 ∨ P.take 18 = (comMain net wifi leadSw is).password.secret := by
  obtain ⟨hg, hentry, hsecret⟩ := comMain_set_password net wifi leadSw hlocked hempty hP hjs
  have htyped := evaluatesTrue_of_typed net wifi leadSw hg hentry hP hjs' hlast
  have hcut : P.take 19 = P.take 18 ↔ P.length ≤ 18 := by
    constructor
    · intro heq
      have hlen := congrArg List.length heq
      rw [List.length_take, List.length_take] at hlen
      omega
    · intro hlen
      rw [List.take_of_length_le hlen, List.take_of_length_le (by omega)]
  rw [htyped, hsecret, hcut, or_comm]

/-- A password of eighteen keys is stored whole and opens the box. -/
theorem password_accepted_eighteen_keys :
    let is := [Input.idle false Input.noWeight]
    let js := Input.typing "0ABCDEFGHIJKLMNOPQR*"
    let js' := Input.typing "ABCDEFGHIJKLMNOPQR"
    (comMain .silent .down false (is ++ js ++ js')).EvaluatesTrue .silent
      (.pushing '*' true Input.fiftyKilos) := by
  intro is js js'
  have h := (password_unchanged_or_accepted_iff .silent .down false is js js'
    (.pushing '*' true Input.fiftyKilos) (ascii "ABCDEFGHIJKLMNOPQR") (by decide +kernel)
    (by decide +kernel) ⟨by decide +kernel, by decide +kernel⟩ (by decide +kernel) (by decide +kernel)
    (by decide +kernel)).2 (Or.inl (by decide +kernel))
  exact h.resolve_left (by decide +kernel)

/-- With nineteen keys the device stores another password than the one that was typed. -/
theorem password_refused_nineteen_keys :
    let is := [Input.idle false Input.noWeight]
    let js := Input.typing "0ABCDEFGHIJKLMNOPQRS*"
    let js' := Input.typing "ABCDEFGHIJKLMNOPQRS"
    ((comMain .silent .down false is).sm.getState = .locked ∧
        (comMain .silent .down false is).password.entry = [] ∧
        pushes js = chr '0' :: ascii "ABCDEFGHIJKLMNOPQRS" ++ [chr '*'] ∧
        pushes js' = ascii "ABCDEFGHIJKLMNOPQRS") ∧
      (comMain .silent .down false (is ++ js)).password.secret ≠
        (comMain .silent .down false is).password.secret ∧
      ¬ (comMain .silent .down false (is ++ js ++ js')).EvaluatesTrue .silent
        (.pushing '*' true Input.fiftyKilos) := by
  decide +kernel

/-! ## Setting a goal -/

/-- Two `0` in front store the rest as the goal. -/
theorem command_zero_zero (ds : Text) : command (chr '0' :: chr '0' :: ds) = .goal ds := by
  rw [command, if_pos rfl, if_pos rfl]

/-- A text of decimal digits. -/
def IsDecimal (ds : Text) : Prop := ds ≠ [] ∧ ∀ b ∈ ds, isDigit b = true

instance (ds : Text) : Decidable (IsDecimal ds) := inferInstanceAs (Decidable (_ ∧ _))

/-- The number that decimal digits denote. -/
def decimal (ds : Text) : ℕ := ds.foldl (fun n b => 10 * n + (b.toNat - 48)) 0

/-- Each digit read multiplies what was read before by ten at least. -/
theorem le_foldl_digits (n : ℕ) (ds : Text) :
    10 ^ ds.length * n ≤ ds.foldl (fun n b => 10 * n + (b.toNat - 48)) n := by
  induction ds generalizing n with
  | nil => simp
  | cons b ds ih =>
    refine le_trans ?_ (ih (10 * n + (b.toNat - 48)))
    rw [List.length_cons, Nat.pow_succ, Nat.mul_assoc]
    exact Nat.mul_le_mul_left _ (Nat.le_add_right _ _)

/-- Digits that are cut off count at least a factor of ten each. -/
theorem le_decimal_append (xs ys : Text) : 10 ^ ys.length * decimal xs ≤ decimal (xs ++ ys) := by
  rw [decimal, decimal, List.foldl_append]
  exact le_foldl_digits _ _

/-- `atoi` of decimal digits saturates. -/
theorem atoi_of_isDecimal {ds : Text} (h : IsDecimal ds) :
    (atoi ds).toInt = min (2 ^ 31 - 1) (decimal ds : ℤ) := by
  match ds with
  | [] => exact absurd rfl h.1
  | b :: bs =>
    have hb : isDigit b = true := h.2 b List.mem_cons_self
    have hall : (b :: bs).takeWhile isDigit = b :: bs := List.takeWhile_eq_self_iff.2 h.2
    have hspace : isSpace b = false := by
      simp only [isDigit, isSpace, decide_eq_true_iff, decide_eq_false_iff_not] at hb ⊢
      rintro (rfl | hsp)
      · exact absurd hb.1 (by decide)
      · have hlo := UInt8.le_iff_toNat_le.1 hb.1
        have hhi := UInt8.le_iff_toNat_le.1 hsp.2
        exact absurd (le_trans hlo hhi) (by decide)
    have hminus : b ≠ chr '-' := by rintro rfl; exact absurd hb (by decide)
    have hplus : b ≠ chr '+' := by rintro rfl; exact absurd hb (by decide)
    have hn : leadingNumber (b :: bs) = decimal (b :: bs) := by
      rw [leadingNumber, hall, decimal]
    rw [atoi, List.dropWhile_cons, hspace]
    simp only [Bool.false_eq_true, if_false, hminus, hplus, hn]
    rw [Int32.toInt_ofInt_of_le (by omega) (by omega)]
    omega

/-- Which entries are taken at their value: decimal digits of which none is cut off, or only
zeros, that denote an `int` of at most 24 significant bits. -/
def Taken (D : Text) : Prop :=
  IsDecimal D ∧ (D.length ≤ 17 ∨ decimal D = 0) ∧ decimal D < 2 ^ 31 ∧
    Binary32.Exact (decimal D)

/-- The goal is the number the digits denote, also when it is converted back. -/
def Denotes (x : Binary32) (D : Text) : Prop :=
  IsDecimal D ∧ x.scaled = decimal D * 2 ^ 149 ∧ x.toInt32.toInt = decimal D

/-- The float of the typed goal is the number typed exactly for the texts taken as typed. -/
theorem denotes_iff_taken (D : Text) :
    Denotes (.ofInt (atoi (D.take 17)).toInt) D ↔ Taken D := by
  have hsplit := le_decimal_append (D.take 17) (D.drop 17)
  rw [List.take_append_drop, List.length_drop] at hsplit
  have htake : IsDecimal D → (atoi (D.take 17)).toInt = min (2 ^ 31 - 1) (decimal (D.take 17) : ℤ) := by
    rintro ⟨hne, hall⟩
    apply atoi_of_isDecimal
    refine ⟨?_, fun b hb => hall b (List.mem_of_mem_take hb)⟩
    simpa using hne
  have hmono : decimal (D.take 17) ≤ decimal D :=
    le_trans (Nat.le_mul_of_pos_left _ (Nat.pow_pos (by decide))) hsplit
  constructor
  · rintro ⟨hD, hscaled, hint⟩
    have hlt : decimal D < 2 ^ 31 := by
      have := (Binary32.ofInt (atoi (D.take 17)).toInt).toInt32.toInt_lt
      omega
    have ha : (atoi (D.take 17)).toInt = (decimal (D.take 17) : ℤ) := by
      rw [htake hD]
      omega
    rw [ha] at hscaled
    have hle : ((decimal (D.take 17) : ℕ) : ℤ).natAbs ≤ 2 ^ 31 := by omega
    by_cases hlen : D.length ≤ 17
    · rw [List.take_of_length_le hlen] at hscaled hle
      exact ⟨hD, Or.inl hlen, hlt, (Binary32.scaled_ofInt_iff hle).1 hscaled⟩
    · -- a goal that is cut is too small by a factor of ten, and rounding cannot make up for it
      have hten : 10 * decimal (D.take 17) ≤ decimal D := by
        refine le_trans (Nat.mul_le_mul_right _ ?_) hsplit
        exact Nat.le_self_pow (by omega) 10
      have hmag := Binary32.mag_ofInt_le hle
      rw [Binary32.scaled_ofInt, if_neg (by omega)] at hscaled
      have hzero : decimal D = 0 := by
        omega
      exact ⟨hD, Or.inr hzero, hlt, by rw [hzero]; decide⟩
  · rintro ⟨hD, hcut, hlt, hexact⟩
    have hdecimal : decimal (D.take 17) = decimal D := by
      rcases hcut with hlen | hzero
      · rw [List.take_of_length_le hlen]
      · omega
    have ha : (atoi (D.take 17)).toInt = (decimal D : ℤ) := by
      rw [htake hD, hdecimal]
      omega
    rw [← ha] at hexact
    refine ⟨hD, ?_, ?_⟩
    · rw [(Binary32.scaled_ofInt_iff (by omega)).2 hexact, ha]
    · rw [Binary32.toInt32_ofInt hexact, ha]

/-- **What a goal entry sets.** From every LOCKED state of a run with an empty guess, and
whatever else the iterations sample, `00`, `D` and `'*'` set the goal to the single nearest
to what `atoi` makes of the first seventeen keys of `D`. No entry is rejected, and the goal
is the number that `D` denotes exactly when `D` is taken. -/
theorem goal_of_entry (net : Net) (wifi : Wifi) (leadSw : Bool) (is js : List Input) (D : Text)
    (hlocked : (comMain net wifi leadSw is).sm.getState = .locked)
    (hempty : (comMain net wifi leadSw is).password.entry = [])
    (hD : ∀ b ∈ D, b ≠ 0 ∧ b ≠ chr '*' ∧ b ≠ chr '#')
    (hjs : pushes js = chr '0' :: chr '0' :: D ++ [chr '*']) :
    (comMain net wifi leadSw (is ++ js)).targetWeight = .ofInt (atoi (D.take 17)).toInt ∧
      (Denotes (comMain net wifi leadSw (is ++ js)).targetWeight D ↔ Taken D) := by
  have hd := ready_comMain net wifi leadSw is
  have hkeys : ∀ b ∈ chr '0' :: chr '0' :: D, b ≠ chr '*' ∧ b ≠ chr '#' := by
    intro b hb
    rcases List.mem_cons.1 hb with rfl | hb
    · decide
    · rcases List.mem_cons.1 hb with rfl | hb
      · decide
      · exact (hD b hb).2
  obtain ⟨-, hentry, -⟩ := entry_foldl_press hd.wellFormed (chr '0' :: chr '0' :: D) hkeys
  rw [hempty, List.nil_append, List.take_succ_cons, List.take_succ_cons] at hentry
  have hcmd := command_zero_zero (D.take 17)
  rw [← hentry] at hcmd
  obtain ⟨-, -, ht⟩ := run_of_entry net hd hlocked hjs (fun hmem => (hkeys _ hmem).1 rfl)
    (by rw [hcmd]; exact nofun)
  have hgoal : (comMain net wifi leadSw (is ++ js)).targetWeight =
      .ofInt (atoi (D.take 17)).toInt := by
    rw [comMain, run_append, ← comMain, ht, pressTarget, if_pos rfl, hcmd]
    dsimp only
    rw [cstr_eq_self fun b hb => (hD b (List.mem_of_mem_take hb)).1]
  exact ⟨hgoal, by rw [hgoal]; exact denotes_iff_taken D⟩

/-- A typed 85 sets the target weight to 85. -/
theorem goal_of_entry_85 :
    let is := [Input.idle false Input.noWeight]
    Denotes (comMain .silent .down false (is ++ Input.typing "0085*")).targetWeight
      (ascii "85") := by
  intro is
  exact (goal_of_entry .silent .down false is (Input.typing "0085*") (ascii "85")
    (by decide +kernel) (by decide +kernel) (by decide +kernel) (by decide +kernel)).2.2
    ⟨by decide +kernel, by decide +kernel, by decide +kernel, by decide +kernel⟩

/-- An entry that is no number sets the goal to 0. -/
theorem goal_of_letters :
    let is := [Input.idle false Input.noWeight]
    let js := Input.typing "00AB*"
    ((comMain .silent .down false is).sm.getState = .locked ∧
        (comMain .silent .down false is).password.entry = [] ∧
        pushes js = chr '0' :: chr '0' :: ascii "AB" ++ [chr '*']) ∧
      ¬ IsDecimal (ascii "AB") ∧
      (comMain .silent .down false (is ++ js)).targetWeight ≠
        (comMain .silent .down false is).targetWeight := by
  decide +kernel

end Device

end WeightScale
