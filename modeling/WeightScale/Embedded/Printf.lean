import WeightScale.Embedded.CString
import WeightScale.Embedded.Binary32

/-!
# The conversions of `printf`

`fmtD` is `%d` and `fmtF` is `%f` with a precision, a minimal width and the `0` flag. A
finite single prints exactly, rounded to nearest even in its last digit, so the length of
what is printed is bounded by the number of digits of the largest finite single. `expand`
is `printf` of a text with no argument behind it: it prints the text as long as the text
does not ask for an argument.
-/

set_option autoImplicit false

namespace Embedded

/-- The decimal digits of `n`. -/
def digits (n : ℕ) : Text := (Nat.toDigits 10 n).map chr

/-- `%d`. -/
def fmtD (i : ℤ) : Text :=
  (if i < 0 then [chr '-'] else []) ++ digits i.natAbs

/-- `t` filled up on its left with `c` to at least `width` bytes. -/
def padLeft (c : Byte) (width : ℕ) (t : Text) : Text :=
  List.replicate (width - t.length) c ++ t

/-- The digits of a magnitude with `prec` decimals. -/
def fixedDigits (prec : ℕ) (x : Binary32) : Text :=
  let n := divRoundEven (x.mag * 10 ^ prec) (2 ^ 149)
  digits (n / 10 ^ prec) ++
    if prec = 0 then [] else chr '.' :: padLeft (chr '0') prec (digits (n % 10 ^ prec))

/-- `%<width>.<prec>f`, with the `0` flag when `zero` is set. -/
def fmtF (zero : Bool) (width prec : ℕ) (x : Binary32) : Text :=
  let sign : Text := if x.neg then [chr '-'] else []
  if x.isNaN then padLeft (chr ' ') width (sign ++ ascii "nan")
  else if x.isInf then padLeft (chr ' ') width (sign ++ ascii "inf")
  else if zero then sign ++ padLeft (chr '0') (width - sign.length) (fixedDigits prec x)
  else padLeft (chr ' ') width (sign ++ fixedDigits prec x)

/-- A piece of a format: text that is printed as it is, or a conversion with its argument. -/
inductive Piece where
  | literal (t : Text)
  /-- `%s`, of the bytes at its argument. -/
  | s (bytes : List Byte)
  /-- `%c` -/
  | c (b : Byte)
  /-- `%d` -/
  | d (i : ℤ)
  /-- `%<width>.<prec>f` -/
  | f (zero : Bool) (width prec : ℕ) (x : Binary32)

/-- What a piece prints as. -/
def Piece.text : Piece → Text
  | .literal t => t
  | .s bytes => cstr bytes
  | .c b => [b]
  | .d i => fmtD i
  | .f zero width prec x => fmtF zero width prec x

/-- `vsprintf` of a format with its arguments. -/
def format (pieces : List Piece) : Text := pieces.flatMap Piece.text

/-- `printf(t)`: what is printed of a text without arguments, and `none` where it asks for
an argument that is not there. -/
def expand : Text → Option Text
  | [] => some []
  | [b] => if b = chr '%' then none else some [b]
  | b :: c :: cs =>
    if b = chr '%' then
      if c = chr '%' then (expand cs).map (b :: ·) else none
    else (expand (c :: cs)).map (b :: ·)

/-- A number below `10 ^ k` has at most `k` digits. -/
theorem length_digits_le {n k : ℕ} (hk : 0 < k) (h : n < 10 ^ k) : (digits n).length ≤ k := by
  rw [digits, List.length_map]
  exact (Nat.length_toDigits_le_iff (by decide) hk).mpr h

/-- Padding brings a text up to its width. -/
theorem length_padLeft (c : Byte) (width : ℕ) (t : Text) :
    (padLeft c width t).length = max width t.length := by
  simp [padLeft]; omega

/-- `%d` writes at most a sign more than the digits. -/
theorem length_fmtD_le_of_natAbs {i : ℤ} {k : ℕ} (hk : 0 < k) (h : i.natAbs < 10 ^ k) :
    (fmtD i).length ≤ k + 1 := by
  have hd := length_digits_le hk h
  unfold fmtD
  split <;> simp <;> omega

/-- A 32-bit `int` prints at most ten digits and a sign. -/
theorem length_fmtD_le (i : Int32) : (fmtD i.toInt).length ≤ 11 := by
  have h₁ := i.toInt_lt
  have h₂ := i.le_toInt
  exact length_fmtD_le_of_natAbs (by decide) (by omega)

/-- A byte prints at most three digits. -/
theorem length_fmtD_byte_le (b : Byte) : (fmtD (b.toNat : ℤ)).length ≤ 3 := by
  have hb : b.toNat < 10 ^ 3 := lt_trans b.toNat_lt (by decide)
  have hd := length_digits_le (by decide) hb
  have hpos : ¬ (b.toNat : ℤ) < 0 := by omega
  simpa [fmtD, hpos] using hd

/-- The integer part of a finite single has at most 39 digits, whatever the precision. -/
theorem length_fixedDigits_le (prec : ℕ) {x : Binary32} (hx : x.expo ≠ 255) :
    (fixedDigits prec x).length ≤ 39 + if prec = 0 then 0 else 1 + prec := by
  have hround : divRoundEven (x.mag * 10 ^ prec) (2 ^ 149) ≤ (2 ^ 24 - 1) * 2 ^ 104 * 10 ^ prec := by
    apply divRoundEven_le (Nat.two_pow_pos 149)
    calc x.mag * 10 ^ prec ≤ (2 ^ 24 - 1) * 2 ^ 253 * 10 ^ prec :=
          Nat.mul_le_mul_right _ (Binary32.mag_le_of_finite hx)
      _ = (2 ^ 24 - 1) * 2 ^ 104 * 10 ^ prec * 2 ^ 149 := by ring
  have hint : divRoundEven (x.mag * 10 ^ prec) (2 ^ 149) / 10 ^ prec < 10 ^ 39 := by
    apply Nat.div_lt_of_lt_mul
    refine lt_of_le_of_lt hround ?_
    rw [Nat.mul_comm]
    exact Nat.mul_lt_mul_of_pos_left (by decide) (Nat.pow_pos (by decide))
  have hl := length_digits_le (by decide) hint
  unfold fixedDigits
  by_cases hp : prec = 0
  · simp only [hp, if_true] at hl ⊢
    simpa using hl
  · have hfrac := length_digits_le (Nat.pos_of_ne_zero hp)
      (Nat.mod_lt (divRoundEven (x.mag * 10 ^ prec) (2 ^ 149)) (Nat.pow_pos (by decide : 0 < 10)))
    simp only [hp, if_false, List.length_append, List.length_cons, length_padLeft]
    omega

/-- `%f` prints at most a sign, 39 digits and the decimals, unless the width asks for more. -/
theorem length_fmtF_le (zero : Bool) (width prec : ℕ) (x : Binary32) :
    (fmtF zero width prec x).length ≤ max width (40 + if prec = 0 then 0 else 1 + prec) := by
  have hs : (if x.neg then [chr '-'] else [] : Text).length ≤ 1 := by split <;> simp
  have h3 : ∀ s : String, s = "nan" ∨ s = "inf" → (ascii s).length = 3 := by
    rintro s (rfl | rfl) <;> decide
  unfold fmtF
  dsimp only
  split
  · rw [length_padLeft, List.length_append, h3 _ (Or.inl rfl)]
    omega
  · split
    · rw [length_padLeft, List.length_append, h3 _ (Or.inr rfl)]
      omega
    · rename_i hnan hinf
      have hx : x.expo ≠ 255 := by
        intro he
        by_cases hf : x.frac = 0
        · exact hinf (by simp [Binary32.isInf, he, hf])
        · exact hnan (by simp [Binary32.isNaN, he, hf])
      have hd := length_fixedDigits_le prec hx
      split
      · rw [List.length_append, length_padLeft]
        omega
      · rw [length_padLeft, List.length_append]
        omega

/-- A text without conversion characters prints as itself. -/
theorem expand_eq_self {t : Text} (h : chr '%' ∉ t) : expand t = some t := by
  fun_induction expand t with
  | case1 => rfl
  | case2 => simp at h
  | case3 => rfl
  | case4 => simp at h
  | case5 => simp at h
  | case6 b c cs hb ih => simp [ih (fun hm => h (List.mem_cons_of_mem b hm))]

/-- Every `%%` of a text prints as one char. -/
theorem length_expand {t u : Text} (h : expand t = some u) :
    u.length ≤ t.length ∧ (chr '%' ∈ t → u.length < t.length) := by
  fun_induction expand t generalizing u with
  | case1 =>
    obtain rfl := Option.some.inj h
    exact ⟨le_rfl, fun hmem => absurd hmem List.not_mem_nil⟩
  | case2 => exact absurd h nofun
  | case3 b hb =>
    obtain rfl := Option.some.inj h
    exact ⟨le_rfl, fun hmem => absurd (List.mem_singleton.1 hmem).symm hb⟩
  | case4 cs ih =>
    obtain ⟨v, hv, rfl⟩ := Option.map_eq_some_iff.1 h
    have hle := (ih hv).1
    simp only [List.length_cons]
    omega
  | case5 => exact absurd h nofun
  | case6 b c cs hb ih =>
    obtain ⟨v, hv, rfl⟩ := Option.map_eq_some_iff.1 h
    obtain ⟨hle, hlt⟩ := ih hv
    refine ⟨Nat.succ_le_succ hle, fun hmem => Nat.succ_lt_succ (hlt ?_)⟩
    rcases List.mem_cons.1 hmem with heq | hmem
    · exact absurd heq.symm hb
    · exact hmem

/-- A text used as a format prints itself exactly if it has no percent sign. -/
theorem expand_eq_self_iff {t : Text} : expand t = some t ↔ chr '%' ∉ t := by
  constructor
  · intro h hmem
    exact absurd ((length_expand h).2 hmem) (lt_irrefl _)
  · exact expand_eq_self

/-- What the widest finite single prints as. -/
example : (fmtF false 3 0 ⟨0xff7fffff⟩).length = 40 ∧ (fmtF false 0 1 ⟨0xff7fffff⟩).length = 42 ∧
    fmtF true 5 1 (Binary32.ofInt 7) = ascii "007.0" := by decide

end Embedded
