import WeightScale.Model.Password

/-!
# The two buffers of a password

`entry` is what has been appended since the last `reset` and `secret` is the stored
password, both as lists of bytes. A password is well formed when its entry is terminated
within the guess array and its secret leaves room for the command prefix it was typed
behind; every operation the keypad makes keeps that. On well-formed passwords `append`,
`reset` and `set` are the obvious operations on the two lists, and `evaluate` compares them.
-/

set_option autoImplicit false

namespace WeightScale.Password

open Embedded

/-- The bytes appended since the last reset. -/
def entry (p : Password) : Text := p.guess.toList.take p.currentIndex.toNat

/-- The stored password. -/
def secret (p : Password) : Text := p.target.str 0

/-- The entry is terminated in the guess array, and the stored password is one char
shorter than the longest entry. -/
structure WellFormed (p : Password) : Prop where
  index_lt : p.currentIndex.toNat < maxPasswordLength
  terminated : p.guess.load p.currentIndex.toNat = 0
  secret_length : p.secret.length ≤ 18

/-- Index 19 is still one of the array. -/
theorem lt_maxPasswordLength {n : ℕ} (h : n ≤ 19) : n < maxPasswordLength :=
  Nat.lt_succ_of_le h

/-- The entry has as many chars as the index counts. -/
theorem length_entry {p : Password} (h : p.WellFormed) :
    p.entry.length = p.currentIndex.toNat := by
  have := h.index_lt
  simp [entry]; omega

/-- The entry has at most 19 chars. -/
theorem length_entry_le {p : Password} (h : p.WellFormed) : p.entry.length ≤ 19 := by
  have := h.index_lt
  rw [length_entry h]
  simp only [maxPasswordLength] at this
  omega

/-- The guess array is the entry, its terminator, and stale bytes. -/
theorem toList_guess {p : Password} (h : p.WellFormed) :
    ∃ rest, p.guess.toList = p.entry ++ 0 :: rest := by
  have hi := h.index_lt
  refine ⟨p.guess.toList.drop (p.currentIndex.toNat + 1), ?_⟩
  have hlen : p.currentIndex.toNat < p.guess.toList.length := by simpa using hi
  have hz : p.guess.toList[p.currentIndex.toNat] = 0 := by
    have := h.terminated
    rw [CharArray.load_eq_getElem _ hi] at this
    simpa using this
  rw [entry, ← hz, ← List.drop_eq_getElem_cons, List.take_append_drop]

/-- What the C code sees at `&guess[n]` is the entry from there on. -/
theorem str_guess {p : Password} (h : p.WellFormed) {n : ℕ} (hn : n ≤ p.entry.length) :
    p.guess.str n = cstr (p.entry.drop n) := by
  obtain ⟨rest, hg⟩ := toList_guess h
  rw [CharArray.str, hg, List.drop_append_of_le_length hn, cstr_append_zero]

/-- `guess[i]`, up to and including the terminator. -/
theorem load_guess {p : Password} (h : p.WellFormed) {i : ℕ} (hi : i ≤ p.entry.length) :
    p.guess.load i = p.entry[i]?.getD 0 := by
  obtain ⟨rest, hg⟩ := toList_guess h
  rw [CharArray.load, hg]
  rcases Nat.lt_or_eq_of_le hi with hlt | heq
  · rw [List.getElem?_append_left hlt]
  · subst heq; simp

/-! ## The operations -/

/-- A text that fits is copied. -/
theorem set?_eq {pass : Text} (h : pass.length ≤ 18) (p : Password) :
    p.set? pass = some (p.set pass) := by
  have hlt : pass.length < maxPasswordLength := lt_maxPasswordLength (by omega)
  rw [set, set?, CharArray.strcpy?, if_pos hlt]
  rfl

/-- A password of at most 18 chars is copied into the target whole. -/
theorem set_eq {pass : Text} (h : pass.length ≤ 18) (p : Password) :
    p.set pass = { p with target := p.target.strcpy pass } := by
  have hlt : pass.length < maxPasswordLength := lt_maxPasswordLength (by omega)
  rw [set, set?, CharArray.strcpy?, if_pos hlt]
  rfl

/-- A reset never fails. -/
theorem reset?_eq (p : Password) : p.reset? = some p.reset := by
  rw [reset, reset?, CharArray.store?, if_pos (by decide)]
  rfl

/-- A reset puts the terminator at the front of the guess. -/
theorem reset_eq (p : Password) :
    p.reset = { p with currentIndex := 0, guess := p.guess.store 0 0 } := by
  rw [reset, reset?, CharArray.store?, if_pos (by decide)]
  rfl

/-- The construction of a password that fits. -/
theorem new?_eq {pass : Text} (h : pass.length ≤ 18) : new? pass = some (new pass) := by
  have hset : new? pass = (static.set pass).reset? := by
    rw [new?, set?_eq h]
    rfl
  rw [new, hset, reset?_eq]
  rfl

/-- The constructor sets the password and clears the guess. -/
theorem new_eq {pass : Text} (h : pass.length ≤ 18) : new pass = (static.set pass).reset := by
  rw [new, new?, set?_eq h]
  show ((static.set pass).reset?).getD static = _
  rw [reset?_eq]
  rfl

/-- Behind a reset the entry is empty. -/
@[simp] theorem entry_reset (p : Password) : p.reset.entry = [] := by
  simp [reset_eq, entry]

/-- A reset leaves the password. -/
@[simp] theorem secret_reset (p : Password) : p.reset.secret = p.secret := by
  simp only [secret, reset_eq]

/-- A reset terminates the guess. -/
theorem wellFormed_reset {p : Password} (h : p.secret.length ≤ 18) : p.reset.WellFormed where
  index_lt := by simp [reset_eq]
  terminated := by simp [reset_eq, CharArray.load_store_self]
  secret_length := by rwa [secret_reset]

/-- The password set is the text up to its first NUL. -/
theorem secret_set {pass : Text} (h : pass.length ≤ 18) (p : Password) :
    (p.set pass).secret = cstr pass := by
  rw [secret, set_eq h, CharArray.str_strcpy _ _ (lt_maxPasswordLength (by omega))]

/-- A password that is set is no longer than its text. -/
theorem length_secret_set_le {pass : Text} (h : pass.length ≤ 18) (p : Password) :
    (p.set pass).secret.length ≤ 18 := by
  rw [secret_set h]
  exact le_trans (length_cstr_le _) h

/-- The constructed password: nothing typed, the given secret. -/
theorem wellFormed_new {pass : Text} (h : pass.length ≤ 18) : (new pass).WellFormed := by
  rw [new_eq h]
  exact wellFormed_reset (length_secret_set_le h _)

/-- A new password has an empty entry. -/
theorem entry_new {pass : Text} (h : pass.length ≤ 18) : (new pass).entry = [] := by
  rw [new_eq h, entry_reset]

/-- A new password is the text it is made of, up to its first NUL. -/
theorem secret_new {pass : Text} (h : pass.length ≤ 18) : (new pass).secret = cstr pass := by
  rw [new_eq h, secret_reset, secret_set h]

/-- The index does not wrap when it is advanced. -/
theorem toNat_succ_index {p : Password} (h : p.WellFormed) :
    (p.currentIndex + 1).toNat = p.currentIndex.toNat + 1 := by
  have := h.index_lt
  simp only [maxPasswordLength] at this
  simp [UInt8.toNat_add]; omega

/-- Both writes of an `append` lie in the guess array. -/
theorem append?_eq {p : Password} (h : p.WellFormed) (c : Byte) :
    p.append? c = some
      (if p.currentIndex.toNat + 1 = maxPasswordLength then p
      else { p with
        guess := (p.guess.store p.currentIndex.toNat c).store (p.currentIndex + 1).toNat 0
        currentIndex := p.currentIndex + 1 }) := by
  have hi := h.index_lt
  rw [append?]
  split
  · rfl
  · rename_i hfull
    have hnext : (p.currentIndex + 1).toNat < maxPasswordLength := by
      rw [toNat_succ_index h]
      simp only [maxPasswordLength] at hi hfull ⊢
      omega
    rw [CharArray.store?, if_pos hi]
    show ((p.guess.store _ c).store? _ 0 >>= _) = _
    rw [CharArray.store?, if_pos hnext]
    rfl

/-- `append` writes the char and a terminator behind it, unless the array is full. -/
theorem append_eq {p : Password} (h : p.WellFormed) (c : Byte) :
    p.append c =
      if p.currentIndex.toNat + 1 = maxPasswordLength then p
      else { p with
        guess := (p.guess.store p.currentIndex.toNat c).store (p.currentIndex + 1).toNat 0
        currentIndex := p.currentIndex + 1 } := by
  rw [append, append?_eq h, Option.getD_some]

/-- What is typed leaves the stored password alone. -/
theorem secret_append {p : Password} (h : p.WellFormed) (c : Byte) :
    (p.append c).secret = p.secret := by
  rw [append_eq h]
  split <;> rfl

/-- A full entry drops what is typed behind it. -/
theorem append_of_full {p : Password} (h : p.WellFormed) (hf : p.entry.length = 19) (c : Byte) :
    p.append c = p := by
  rw [length_entry h] at hf
  rw [append_eq h, if_pos (by rw [hf])]

/-- While there is room a char is added to the entry. -/
theorem entry_append_of_lt {p : Password} (h : p.WellFormed) (hf : p.entry.length < 19)
    (c : Byte) : (p.append c).entry = p.entry ++ [c] := by
  rw [length_entry h] at hf
  have hne : ¬ p.currentIndex.toNat + 1 = maxPasswordLength := by
    simp only [maxPasswordLength]; omega
  have hlen : p.currentIndex.toNat < p.guess.toList.length := by
    simpa [maxPasswordLength] using Nat.lt_succ_of_lt hf
  rw [append_eq h, if_neg hne]
  simp only [entry, CharArray.toList_store, toNat_succ_index h]
  rw [List.take_set_of_le (by omega), List.take_add_one, List.getElem?_set_self hlen,
    List.take_set_of_le (le_refl _)]
  rfl

/-- What is appended to the entry is cut at 19 chars. -/
theorem entry_append {p : Password} (h : p.WellFormed) (c : Byte) :
    (p.append c).entry = (p.entry ++ [c]).take 19 := by
  have hle := length_entry_le h
  rcases Nat.lt_or_eq_of_le hle with hlt | heq
  · rw [entry_append_of_lt h hlt, List.take_of_length_le (by simp; omega)]
  · rw [append_of_full h heq, List.take_append_of_le_length (by omega),
      List.take_of_length_le hle]

/-- `append` keeps the terminators of both arrays. -/
theorem wellFormed_append {p : Password} (h : p.WellFormed) (c : Byte) :
    (p.append c).WellFormed := by
  have hi := h.index_lt
  simp only [maxPasswordLength] at hi
  by_cases hf : p.currentIndex.toNat + 1 = maxPasswordLength
  · rwa [append_eq h, if_pos hf]
  · simp only [maxPasswordLength] at hf
    constructor
    · rw [append_eq h, if_neg hf]
      simp only [toNat_succ_index h, maxPasswordLength]
      omega
    · rw [append_eq h, if_neg hf, CharArray.load]
      simp only [CharArray.toList_store, toNat_succ_index h]
      rw [List.getElem?_set_self (by simpa using lt_maxPasswordLength (by omega))]
      rfl
    · rw [secret_append h]
      exact h.secret_length

/-! ## The comparison -/

/-- The loop of `evaluate` compares the strings from the chars already read on, and gives
up on a password that does not end within the rounds left. Its reads lie in the arrays. -/
theorem evaluateFrom?_eq (p : Password) (n i : ℕ) (h : i + n = maxPasswordLength) (hi : 0 < i) :
    p.evaluateFrom? n i (p.target.load (i - 1)) (p.guess.load (i - 1)) =
      some (decide (p.target.str (i - 1) = p.guess.str (i - 1) ∧
        (p.target.str (i - 1)).length < n)) := by
  induction n generalizing i with
  | zero => simp [evaluateFrom?]
  | succ n ih =>
    have hlt : i - 1 < maxPasswordLength := by omega
    have hread : i < maxPasswordLength := by omega
    have hsucc : i - 1 + 1 = i := by omega
    have hnext := ih (i + 1) (by omega) (by omega)
    rw [Nat.add_sub_cancel] at hnext
    rw [evaluateFrom?, CharArray.load?_eq _ hread, CharArray.load?_eq _ hread, Option.bind_eq_bind,
      Option.bind_some, Option.bind_some, hnext, CharArray.str_eq_ite p.target hlt,
      CharArray.str_eq_ite p.guess hlt, hsucc]
    generalize p.target.load (i - 1) = a
    generalize p.guess.load (i - 1) = b
    by_cases ha : a = 0 <;> by_cases hb : b = 0
    · simp [ha, hb]
    · simp [ha, hb, Ne.symm hb]
    · simp [ha, hb]
    · by_cases hab : a = b <;> simp [ha, hb, hab]

/-- All reads of the comparison lie in the arrays. -/
theorem evaluate?_eq_decide (p : Password) :
    p.evaluate? = some (decide (p.secret = p.guess.str 0 ∧ p.secret.length < 19)) := by
  have hpos : 0 < maxPasswordLength := by decide
  rw [evaluate?, CharArray.load?_eq _ hpos, CharArray.load?_eq _ hpos]
  exact evaluateFrom?_eq p (maxPasswordLength - 1) 1 (by decide) (by decide)

/-- **The comparison is string equality.** Every password the keypad can store is short
enough for the loop of `evaluate` to reach its end. -/
theorem evaluate_iff {p : Password} (h : p.WellFormed) :
    p.evaluate = true ↔ cstr p.entry = p.secret := by
  have hs := h.secret_length
  have hg := str_guess h (Nat.zero_le _)
  rw [List.drop_zero] at hg
  rw [evaluate, evaluate?_eq_decide, Option.getD_some, decide_eq_true_iff, hg]
  constructor
  · exact fun ⟨he, _⟩ => he.symm
  · exact fun he => ⟨he.symm, by omega⟩

end WeightScale.Password
