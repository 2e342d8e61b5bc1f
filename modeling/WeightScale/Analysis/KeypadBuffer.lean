import WeightScale.Analysis.Unlocking

/-!
# The password object under the keypad

Whatever bytes the keypad delivers, the guess holds the first nineteen of the keys pushed
since the last `'*'` or `'#'`, the stored password is a string of at most eighteen chars, and
both arrays are accessed within their bounds, so that the operations with a `?`, which check
every access, never fail.
-/

set_option autoImplicit false

namespace WeightScale

open Embedded

namespace Password

/-! ## Checked accesses -/

/-- What `keypadEvent` does to the password object for a pushed key. -/
def press? (k : Byte) (p : Password) : Option Password :=
  if k = chr '*' then do
    let first ← p.guess.load? 0
    let second ← p.guess.load? 1
    (if first = chr '0' ∧ second ≠ chr '0' then p.set? (p.guess.str 1) else some p) >>= reset?
  else if k = chr '#' then p.reset?
  else p.append? k

/-- `evaluate` stays within its arrays. -/
theorem evaluate?_eq (p : Password) : p.evaluate? = some p.evaluate := by
  rw [evaluate, evaluate?_eq_decide]
  rfl

/-- Every write of a pushed key lies in its array. -/
theorem press?_eq {p : Password} (h : p.WellFormed) (k : Byte) :
    p.press? k = some (p.press k) := by
  rw [press?, press]
  split
  · rw [CharArray.load?_eq _ (by decide), CharArray.load?_eq _ (by decide)]
    have hd := dispatch h
    show (if p.guess.load 0 = chr '0' ∧ p.guess.load 1 ≠ chr '0' then _ else _) >>= reset? = _
    cases hc : command p.entry with
    | goal ds =>
      rw [hc] at hd
      rw [if_neg fun hn => hn.2 hd.1.2]
      exact reset?_eq p
    | attempt =>
      rw [hc] at hd
      rw [if_neg fun hn => hd hn.1]
      exact reset?_eq p
    | password pass =>
      rw [hc] at hd
      rw [if_pos ⟨hd.1, hd.2.1⟩, hd.2.2, set?_eq (cstr_password_length_le h hc)]
      exact reset?_eq _
  · split
    · exact reset?_eq p
    · rw [append_eq h, append?_eq h]

/-- An attempt is not the setting of a password, so a stored one never starts with `0`. -/
theorem head_secret_press {p : Password} (h : p.WellFormed)
    (hs : p.secret.head? ≠ some (chr '0')) (k : Byte) :
    (p.press k).secret.head? ≠ some (chr '0') := by
  rw [secret_press h]
  split
  · cases hc : command p.entry with
    | goal ds => exact hs
    | attempt => exact hs
    | password pass =>
      have hhead := (Device.command_password hc).2
      cases pass with
      | nil => simp
      | cons b bs =>
        show (cstr (b :: bs)).head? ≠ _
        rw [cstr_cons]
        split
        · simp
        · simpa using hhead
  · exact hs

end Password

/-! ## The keys since the last control key -/

/-- The keys pushed since the last `'*'` or `'#'`. -/
def keysSince (es : List (Keymat × Weight)) : Text :=
  es.foldl (fun typed e =>
    if e.1.state = .push then
      if e.1.key = chr '*' ∨ e.1.key = chr '#' then [] else typed ++ [e.1.key]
    else typed) []

/-- A pushed char is added to the keys since the last clearing, `*` and `#` clear them. -/
theorem keysSince_concat (es : List (Keymat × Weight)) (e : Keymat × Weight) :
    keysSince (es ++ [e]) =
      if e.1.state = .push then
        if e.1.key = chr '*' ∨ e.1.key = chr '#' then [] else keysSince es ++ [e.1.key]
      else keysSince es := by
  rw [keysSince, List.foldl_append]
  rfl

namespace Device

/-- One event of the keypad, handled with the weight sampled beside it. -/
def keypad (net : Net) (d : Device) (e : Keymat × Weight) : Device :=
  d.keypadEvent net e.1 e.2

variable (net : Net) (wifi : Wifi) (leadSw : Bool)

/-- Of a keypad event, the password reads the pushed key alone. -/
theorem password_keypad {d : Device} (h : d.password.WellFormed) (e : Keymat × Weight) :
    (keypad net d e).password =
      if e.1.state = .push then d.password.press e.1.key else d.password := by
  rw [keypad]
  split
  · rename_i hp
    exact (keypadEvent_pressed net d e.2 h hp).password
  · rename_i hp
    rw [keypadEvent_of_not_push net d e.2 hp]

/-- What the object keeps under the keypad, `typed` being the keys since the last control key. -/
structure Keeps (p : Password) (typed : Text) : Prop extends p.WellFormed where
  entry_eq : p.entry = typed.take 19
  head_secret : p.secret.head? ≠ some (chr '0')

/-- Before the first key the guess is empty. -/
theorem keeps_startUp : Keeps (startUp wifi leadSw).password [] := by
  rw [password_startUp]
  refine ⟨Password.wellFormed_new (by decide), Password.entry_new (by decide), ?_⟩
  rw [Password.secret_new (by decide)]
  decide

/-- One keypad event keeps the guess the keys typed. -/
theorem keeps_keypad {es : List (Keymat × Weight)} {d : Device} (e : Keymat × Weight)
    (h : Keeps d.password (keysSince es)) :
    Keeps (keypad net d e).password (keysSince (es ++ [e])) := by
  rw [password_keypad net h.toWellFormed, keysSince_concat]
  by_cases hp : e.1.state = .push
  · rw [if_pos hp, if_pos hp]
    refine ⟨Password.wellFormed_press h.toWellFormed _, ?_, ?_⟩
    · rw [Password.entry_press h.toWellFormed, h.entry_eq, Password.take_take_append]
      split <;> rfl
    · exact Password.head_secret_press h.toWellFormed h.head_secret _
  · rw [if_neg hp, if_neg hp]
    exact h

/-- In every run of keypad events the guess is the keys typed since it was cleared. -/
theorem keeps_run (es : List (Keymat × Weight)) :
    Keeps (run (keypad net) (startUp wifi leadSw) es).password (keysSince es) := by
  induction es using List.reverseRecOn with
  | nil => exact keeps_startUp wifi leadSw
  | append_singleton es e ih =>
    rw [run_concat]
    exact keeps_keypad net e ih

/-- **Keypad buffers.** Over every sequence of key events, with arbitrary bytes for keys. -/
theorem keypad_buffers (net : Net) (wifi : Wifi) (leadSw : Bool) (es : List (Keymat × Weight)) :
    let p := (run (keypad net) (startUp wifi leadSw) es).password
    p.currentIndex.toNat ≤ 19 ∧
      p.guess.load p.currentIndex.toNat = 0 ∧
      p.guess.toList.take p.currentIndex.toNat = (keysSince es).take 19 ∧
      Password.new? (ascii "1234") = some (startUp wifi leadSw).password ∧
      Along (keypad net) (fun d e => e.1.state = .push →
        d.password.press? e.1.key = some (keypad net d e).password) (startUp wifi leadSw) es ∧
      (p.target.str 0).length ≤ 18 ∧
      p.target.load (p.target.str 0).length = 0 ∧
      (p.target.str 0).head? ≠ some (chr '0') ∧
      p.evaluate? = some p.evaluate ∧
      (p.evaluate = true ↔ p.guess.str 0 = p.target.str 0) := by
  intro p
  have hk : Keeps p (keysSince es) := keeps_run net wifi leadSw es
  have hindex := hk.index_lt
  have hlength : (p.target.str 0).length ≤ 18 := hk.secret_length
  refine ⟨Nat.le_of_lt_succ hindex, hk.terminated, hk.entry_eq, ?_, ?_, hlength, ?_,
    hk.head_secret, Password.evaluate?_eq p, ?_⟩
  · rw [password_startUp]
    exact Password.new?_eq (by decide)
  · refine along_iff.2 fun pre e post _ hp => ?_
    have hwf := (keeps_run net wifi leadSw pre).toWellFormed
    rw [password_keypad net hwf, if_pos hp]
    exact Password.press?_eq hwf e.1.key
  · exact p.target.load_length_str (Password.lt_maxPasswordLength (by omega))
  · have hguess := Password.str_guess hk.toWellFormed (Nat.zero_le _)
    rw [List.drop_zero] at hguess
    rw [Password.evaluate_iff hk.toWellFormed, hguess]
    rfl

end Device

end WeightScale
