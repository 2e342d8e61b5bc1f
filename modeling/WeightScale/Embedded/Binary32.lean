import Mathlib.Algebra.Order.Group.Nat
import Mathlib.Data.Int.Notation
import Mathlib.Tactic.Ring

/-!
# IEEE single-precision numbers

A `Binary32` is its 32 bits. Every finite single is an integer multiple of `2 ^ (-149)`,
so `mag` and `scaled` give its magnitude and its value in that unit and all comparisons
and conversions are integer arithmetic. An infinity gets the magnitude that continues the
binades, above every finite one, so the order needs no case for it; a NaN compares with
nothing. Rounding is to nearest, ties to even.
-/

set_option autoImplicit false

namespace Embedded

/-- An IEEE single by its bit pattern. -/
structure Binary32 where
  bits : UInt32
deriving DecidableEq, Repr

/-- The quotient `n / d` rounded to nearest, ties to even. -/
def divRoundEven (n d : ℕ) : ℕ :=
  if 2 * (n % d) < d ∨ (2 * (n % d) = d ∧ n / d % 2 = 0) then n / d else n / d + 1

/-- Rounding does not pass a whole quotient. -/
theorem divRoundEven_le {n d m : ℕ} (hd : 0 < d) (h : n ≤ m * d) : divRoundEven n d ≤ m := by
  have hq : n / d ≤ m := Nat.div_le_of_le_mul (by rwa [Nat.mul_comm])
  unfold divRoundEven
  split
  · exact hq
  · rename_i hr
    rcases Nat.lt_or_ge (n / d) m with hlt | hge
    · exact hlt
    · -- at the bound itself the remainder is zero, and nothing is rounded up
      have hm : n / d = m := le_antisymm hq hge
      have hdiv := Nat.div_add_mod n d
      rw [hm, Nat.mul_comm] at hdiv
      exact absurd (Or.inl (by omega)) hr

/-- Rounding gives the quotient or the number behind it. -/
theorem divRoundEven_bounds (n d : ℕ) : n / d ≤ divRoundEven n d ∧ divRoundEven n d ≤ n / d + 1 := by
  unfold divRoundEven
  split <;> omega

/-- Nothing is rounded exactly where the division is exact. -/
theorem divRoundEven_mul_eq_iff {n d : ℕ} (hd : 0 < d) : divRoundEven n d * d = n ↔ d ∣ n := by
  constructor
  · intro h
    exact ⟨divRoundEven n d, by rw [Nat.mul_comm, h]⟩
  · rintro ⟨m, rfl⟩
    have hm : divRoundEven (d * m) d = m := by simp [divRoundEven, hd]
    rw [hm, Nat.mul_comm]

namespace Binary32

/-- The biased exponent field. -/
def expo (x : Binary32) : ℕ := x.bits.toNat / 2 ^ 23 % 2 ^ 8

/-- The fraction field. -/
def frac (x : Binary32) : ℕ := x.bits.toNat % 2 ^ 23

/-- The sign bit. -/
def neg (x : Binary32) : Bool := 2 ^ 31 ≤ x.bits.toNat

def isNaN (x : Binary32) : Bool := x.expo = 255 ∧ x.frac ≠ 0

def isInf (x : Binary32) : Bool := x.expo = 255 ∧ x.frac = 0

/-- The magnitude in units of `2 ^ (-149)`. -/
def mag (x : Binary32) : ℕ :=
  if x.expo = 0 then x.frac else (2 ^ 23 + x.frac) * 2 ^ (x.expo - 1)

/-- The value in units of `2 ^ (-149)`. -/
def scaled (x : Binary32) : ℤ := if x.neg then -(x.mag : ℤ) else x.mag

/-- The C comparison `x < y`: false as soon as one side is a NaN. -/
def lt (x y : Binary32) : Prop := x.isNaN = false ∧ y.isNaN = false ∧ x.scaled < y.scaled

instance : LT Binary32 := ⟨lt⟩

instance (x y : Binary32) : Decidable (x < y) :=
  inferInstanceAs (Decidable (x.isNaN = false ∧ y.isNaN = false ∧ x.scaled < y.scaled))

/-- The bits of an infinity without its sign. -/
def infBits : ℕ := 255 * 2 ^ 23

def nan : Binary32 := ⟨0x7fc00000⟩

/-- The single nearest to `n` units of `2 ^ (-149)`. The significand keeps 24 bits of `n`;
a carry out of them lands in the exponent field, which is where it belongs. -/
def ofMag (neg : Bool) (n : ℕ) : Binary32 :=
  let e := n.log2 - 23
  ⟨UInt32.ofNat (min (e * 2 ^ 23 + divRoundEven n (2 ^ e)) infBits + if neg then 2 ^ 31 else 0)⟩

/-- The single nearest to the quotient `n / d`. -/
def ofRatio (n d : ℕ) : Binary32 :=
  let m := n * 2 ^ 149
  let e := (m / d).log2 - 23
  ⟨UInt32.ofNat (min (e * 2 ^ 23 + divRoundEven m (d * 2 ^ e)) infBits)⟩

/-- Conversion of an `int`. -/
def ofInt (i : ℤ) : Binary32 := ofMag (i < 0) (i.natAbs * 2 ^ 149)

/-- Conversion to `int`: the fraction is cut off. What C leaves undefined is what the
hardware instruction gives, saturation and zero for a NaN. -/
def toInt32 (x : Binary32) : Int32 :=
  if x.isNaN then 0
  else
    let m : ℤ := (x.mag / 2 ^ 149 : ℕ)
    Int32.ofInt (max (-2 ^ 31) (min (2 ^ 31 - 1) (if x.neg then -m else m)))

/-- The C subtraction `x - y`. -/
def sub (x y : Binary32) : Binary32 :=
  if x.isNaN || y.isNaN then nan
  else if x.isInf then (if y.isInf && x.neg == y.neg then nan else x)
  else if y.isInf then ⟨UInt32.ofNat (infBits + if y.neg then 0 else 2 ^ 31)⟩
  else if x.scaled = y.scaled then ⟨if x.neg && !y.neg then 0x80000000 else 0⟩
  else ofMag (x.scaled < y.scaled) (x.scaled - y.scaled).natAbs

instance : Sub Binary32 := ⟨sub⟩

/-- The fraction has 23 bits. -/
theorem frac_lt (x : Binary32) : x.frac < 2 ^ 23 := Nat.mod_lt _ (by decide)

/-- The exponent has eight bits. -/
theorem expo_lt (x : Binary32) : x.expo < 256 := Nat.mod_lt _ (by decide)

/-- The largest finite single. -/
theorem mag_le_of_finite {x : Binary32} (h : x.expo ≠ 255) :
    x.mag ≤ (2 ^ 24 - 1) * 2 ^ 253 := by
  have hf := x.frac_lt
  have he := x.expo_lt
  unfold mag
  split
  · exact le_trans hf.le (by decide)
  · exact Nat.mul_le_mul (by omega) (Nat.pow_le_pow_right (by decide) (by omega))

/-! ## Conversion of integers -/

section ofMag

variable (neg : Bool) (n : ℕ)

/-- The encoding before the sign is put in front of it. -/
def unsignedBits : ℕ := min ((n.log2 - 23) * 2 ^ 23 + divRoundEven n (2 ^ (n.log2 - 23))) infBits

/-- The bits of a float are those of its magnitude with the sign in front. -/
theorem toNat_bits_ofMag :
    (ofMag neg n).bits.toNat = unsignedBits n + if neg then 2 ^ 31 else 0 := by
  have hle : unsignedBits n ≤ 255 * 2 ^ 23 := Nat.min_le_right _ _
  have hsign : (if neg then 2 ^ 31 else 0 : ℕ) ≤ 2 ^ 31 := by split <;> decide
  have hbits : (ofMag neg n).bits = UInt32.ofNat (unsignedBits n + if neg then 2 ^ 31 else 0) := rfl
  rw [hbits, UInt32.toNat_ofNat']
  apply Nat.mod_eq_of_lt
  omega

/-- The sign is the one given. -/
@[simp] theorem neg_ofMag : (ofMag neg n).neg = neg := by
  have hle : unsignedBits n ≤ 255 * 2 ^ 23 := Nat.min_le_right _ _
  rw [Binary32.neg, toNat_bits_ofMag]
  cases neg <;> simp
  omega

/-- A float made of a magnitude is a number. -/
@[simp] theorem isNaN_ofMag : (ofMag neg n).isNaN = false := by
  have hle : unsignedBits n ≤ 255 * 2 ^ 23 := Nat.min_le_right _ _
  simp only [isNaN, expo, frac, toNat_bits_ofMag, decide_eq_false_iff_not]
  cases neg <;> simp <;> omega

/-- A number of at least 24 bits keeps the first 24, rounded. -/
theorem mag_ofMag (hlo : 2 ^ 23 ≤ n) (hhi : n.log2 ≤ 276) :
    (ofMag neg n).mag = divRoundEven n (2 ^ (n.log2 - 23)) * 2 ^ (n.log2 - 23) := by
  have hn : n ≠ 0 := by omega
  have hlog : 23 ≤ n.log2 := (Nat.le_log2 hn).2 hlo
  obtain ⟨e, he⟩ : ∃ e, n.log2 = e + 23 := ⟨n.log2 - 23, by omega⟩
  have hbits := toNat_bits_ofMag neg n
  have hself := Nat.log2_self_le hn
  have hlt := Nat.lt_log2_self (n := n)
  rw [unsignedBits, infBits, he, Nat.add_sub_cancel] at hbits
  rw [he] at hself hlt hhi ⊢
  rw [Nat.add_sub_cancel]
  have hpos : 0 < 2 ^ e := Nat.two_pow_pos e
  -- the quotient has 24 bits, and one more when the rounding carries
  have hq₁ : 2 ^ 23 ≤ divRoundEven n (2 ^ e) := by
    refine le_trans ?_ (divRoundEven_bounds _ _).1
    rw [Nat.le_div_iff_mul_le hpos, ← Nat.pow_add, Nat.add_comm]
    exact hself
  have hq₂ : divRoundEven n (2 ^ e) ≤ 2 ^ 24 := by
    apply divRoundEven_le hpos
    rw [← Nat.pow_add]
    have : 24 + e = e + 23 + 1 := by omega
    rw [this]
    exact hlt.le
  generalize divRoundEven n (2 ^ e) = q at hbits hq₁ hq₂ ⊢
  rw [Nat.min_eq_left (by omega)] at hbits
  have hsign : (if neg then 2 ^ 31 else 0 : ℕ) % 2 ^ 31 = 0 := by split <;> decide
  generalize (if neg then 2 ^ 31 else 0 : ℕ) = s at hbits hsign
  rcases Nat.lt_or_eq_of_le hq₂ with hq | hq
  · have hexpo : (ofMag neg n).expo = e + 1 := by
      rw [expo, hbits]; omega
    have hfrac : (ofMag neg n).frac = q - 2 ^ 23 := by
      rw [frac, hbits]; omega
    rw [mag, hexpo, hfrac, if_neg (by omega), Nat.add_sub_cancel, Nat.add_sub_cancel' hq₁]
  · have hexpo : (ofMag neg n).expo = e + 2 := by
      rw [expo, hbits]; omega
    have hfrac : (ofMag neg n).frac = 0 := by
      rw [frac, hbits]; omega
    rw [mag, hexpo, hfrac, if_neg (by omega), hq]
    have : e + 2 - 1 = e + 1 := by omega
    rw [this, Nat.pow_succ 2 e]
    ring

end ofMag

/-! ## Integers -/

/-- An integer of at most 24 significant bits. -/
def Exact (i : ℤ) : Prop := 2 ^ (i.natAbs.log2 - 23) ∣ i.natAbs

instance (i : ℤ) : Decidable (Exact i) := inferInstanceAs (Decidable (_ ∣ _))

section ofInt

variable {i : ℤ}

/-- Scaling by `2 ^ 149` adds to the logarithm. -/
theorem log2_scaled {a : ℕ} (ha : a ≠ 0) : (a * 2 ^ 149).log2 = a.log2 + 149 := by
  have hne : a * 2 ^ 149 ≠ 0 := Nat.mul_ne_zero ha (by decide)
  rw [Nat.log2_eq_iff hne]
  have hlo := Nat.log2_self_le ha
  have hhi := Nat.lt_log2_self (n := a)
  constructor
  · rw [Nat.pow_add]
    exact Nat.mul_le_mul_right _ hlo
  · rw [Nat.add_right_comm, Nat.pow_add]
    exact Nat.mul_lt_mul_of_pos_right hhi (by decide)

/-- The magnitude of a converted integer is the integer rounded to 24 bits. -/
theorem mag_ofInt (h₀ : i ≠ 0) (hi : i.natAbs ≤ 2 ^ 31) :
    (ofInt i).mag = divRoundEven (i.natAbs * 2 ^ 149) (2 ^ (i.natAbs.log2 + 126)) *
      2 ^ (i.natAbs.log2 + 126) := by
  have ha : i.natAbs ≠ 0 := Int.natAbs_ne_zero.2 h₀
  have hlog : i.natAbs.log2 < 32 := (Nat.log2_lt ha).2 (by omega)
  have hsub : i.natAbs.log2 + 149 - 23 = i.natAbs.log2 + 126 := by omega
  rw [ofInt, mag_ofMag _ _ (by omega) (by rw [log2_scaled ha]; omega), log2_scaled ha, hsub]

/-- A converted integer has its sign and its rounded magnitude. -/
theorem scaled_ofInt : (ofInt i).scaled = if i < 0 then -((ofInt i).mag : ℤ) else (ofInt i).mag := by
  rw [scaled]
  simp [ofInt]

/-- **Conversion is exact** on the integers of at most 24 significant bits. -/
theorem scaled_ofInt_iff (hi : i.natAbs ≤ 2 ^ 31) :
    (ofInt i).scaled = i * 2 ^ 149 ↔ Exact i := by
  by_cases h₀ : i = 0
  · subst h₀
    decide
  have hmag : (ofInt i).scaled = i * 2 ^ 149 ↔ (ofInt i).mag = i.natAbs * 2 ^ 149 := by
    rw [scaled_ofInt]
    split <;> omega
  rw [hmag, mag_ofInt h₀ hi, divRoundEven_mul_eq_iff (Nat.two_pow_pos _), Exact]
  rcases Nat.le_total i.natAbs.log2 23 with hlog | hlog
  · have hsub : i.natAbs.log2 - 23 = 0 := by omega
    rw [hsub, Nat.pow_zero]
    refine iff_of_true ?_ (Nat.one_dvd _)
    exact dvd_mul_of_dvd_right (Nat.pow_dvd_pow 2 (by omega)) _
  · obtain ⟨k, hk⟩ : ∃ k, i.natAbs.log2 = k + 23 := ⟨i.natAbs.log2 - 23, by omega⟩
    have hadd : k + 23 + 126 = k + 149 := by omega
    rw [hk, Nat.add_sub_cancel, hadd, Nat.pow_add]
    exact Nat.mul_dvd_mul_iff_right (by decide)

/-- Rounding at most doubles. -/
theorem mag_ofInt_le (hi : i.natAbs ≤ 2 ^ 31) : (ofInt i).mag ≤ 2 * (i.natAbs * 2 ^ 149) := by
  by_cases h₀ : i = 0
  · subst h₀
    decide
  have ha : i.natAbs ≠ 0 := Int.natAbs_ne_zero.2 h₀
  rw [mag_ofInt h₀ hi]
  have hbound := (divRoundEven_bounds (i.natAbs * 2 ^ 149) (2 ^ (i.natAbs.log2 + 126))).2
  have hunit : 2 ^ (i.natAbs.log2 + 126) ≤ i.natAbs * 2 ^ 149 := by
    rw [Nat.pow_add]
    exact Nat.mul_le_mul (Nat.log2_self_le ha) (by decide)
  have hdiv := Nat.div_mul_le_self (i.natAbs * 2 ^ 149) (2 ^ (i.natAbs.log2 + 126))
  calc _ ≤ (i.natAbs * 2 ^ 149 / 2 ^ (i.natAbs.log2 + 126) + 1) * 2 ^ (i.natAbs.log2 + 126) :=
        Nat.mul_le_mul_right _ hbound
    _ = i.natAbs * 2 ^ 149 / 2 ^ (i.natAbs.log2 + 126) * 2 ^ (i.natAbs.log2 + 126) +
        2 ^ (i.natAbs.log2 + 126) := Nat.succ_mul _ _
    _ ≤ _ := by omega

/-- A single that holds an `int` converts to that `int`. -/
theorem toInt32_of_scaled {x : Binary32} (hx : x.isNaN = false) {i : Int32}
    (h : x.scaled = i.toInt * 2 ^ 149) : x.toInt32 = i := by
  have h₁ := i.toInt_lt
  have h₂ := i.le_toInt
  have hmag : x.mag = i.toInt.natAbs * 2 ^ 149 := by
    rw [scaled] at h
    split at h <;> omega
  have hval : (if x.neg then -((x.mag / 2 ^ 149 : ℕ) : ℤ) else (x.mag / 2 ^ 149 : ℕ)) = i.toInt := by
    rw [hmag, Nat.mul_div_cancel _ (by decide)]
    rw [scaled, hmag] at h
    cases hneg : x.neg <;> simp only [hneg, Bool.false_eq_true, if_true, if_false] at h ⊢ <;> omega
  rw [toInt32, hx]
  simp only [Bool.false_eq_true, if_false, hval]
  rw [min_eq_right (by omega), max_eq_right (by omega), Int32.ofInt_toInt]

/-- An integer that a float holds exactly comes back from it. -/
theorem toInt32_ofInt {i : Int32} (h : Exact i.toInt) : (ofInt i.toInt).toInt32 = i := by
  have h₁ := i.toInt_lt
  have h₂ := i.le_toInt
  exact toInt32_of_scaled (isNaN_ofMag _ _) ((scaled_ofInt_iff (by omega)).2 h)

end ofInt
end Binary32

/-- 50, 100 and the step between them: the encodings are the ones the hardware uses. -/
example : Binary32.ofInt 50 = ⟨0x42480000⟩ ∧ Binary32.ofInt 50 < Binary32.ofInt 100 ∧
    (Binary32.ofInt 100 - Binary32.ofInt 50).toInt32 = 50 ∧
    Binary32.ofRatio 505 10 = ⟨0x424a0000⟩ ∧ Binary32.ofRatio 1 10 = ⟨0x3dcccccd⟩ := by decide

end Embedded
