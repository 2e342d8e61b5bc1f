import Mathlib.Data.Nat.Size
import Mathlib.Tactic.Ring
import WeightScale.Model.Weight

/-!
# What `itob` prints

With a positive `n` the low `n` bits are printed, whatever they are. With a negative `n` the
bits are printed from the low end on as long as any are left and no more than `-n` of them,
and the text is turned round behind that.
-/

set_option autoImplicit false

namespace WeightScale

open Embedded

/-- Digits of a binary number, and nothing else. -/
def IsBinary (t : Text) : Prop := ∀ b ∈ t, b = chr '0' ∨ b = chr '1'

/-- A digit behind a text of binary digits gives a text of binary digits. -/
theorem isBinary_concat_digit {t : Text} (h : IsBinary t) (b : Bool) :
    IsBinary (t ++ [digit b]) := by
  intro c hc
  rcases List.mem_append.1 hc with hc | hc
  · exact h c hc
  · rw [List.mem_singleton.1 hc]
    cases b
    · exact .inl rfl
    · exact .inr rfl

/-! ## A given number of digits -/

/-- With the mask at bit `n`, the loop writes the digit of bit `n`. -/
theorem mask_digit {v f : UInt64} {n : ℕ} (hf : f.toNat = 2 ^ n) :
    (if f &&& v ≠ 0 then chr '1' else chr '0') = digit (v.toNat.testBit n) := by
  have hand : (f &&& v).toNat = (v.toNat.testBit n).toNat * 2 ^ n := by
    rw [UInt64.toNat_and, hf, Nat.and_comm, Nat.and_two_pow]
  have hzero : f &&& v = 0 ↔ v.toNat.testBit n = false := by
    rw [← UInt64.toNat_inj, hand]
    cases v.toNat.testBit n <;> simp
  rw [digit]
  cases hbit : v.toNat.testBit n
  · rw [if_neg (not_not.2 (hzero.2 hbit))]
    rfl
  · rw [if_pos fun h => absurd (hzero.1 h) (by simp [hbit])]
    rfl

/-- The mask stands on the next bit to be printed. -/
theorem itobMasked_spec (v : UInt64) {n : ℕ} {f : UInt64} {s : Text} (hf : f.toNat = 2 ^ n / 2)
    (hs : IsBinary s) :
    (itobMasked v n f s).length = s.length + n ∧ IsBinary (itobMasked v n f s) ∧
      binary (itobMasked v n f s) = binary s * 2 ^ n + v.toNat % 2 ^ n := by
  induction n generalizing f s with
  | zero =>
    refine ⟨rfl, hs, ?_⟩
    rw [itobMasked, pow_zero, Nat.mod_one, Nat.mul_one, Nat.add_zero]
  | succ n ih =>
    have hpow : f.toNat = 2 ^ n := by
      rw [hf, pow_succ, Nat.mul_div_cancel _ Nat.two_pos]
    have hnext : (f >>> 1).toNat = 2 ^ n / 2 := by
      rw [UInt64.toNat_shiftRight, hpow]
      exact Nat.shiftRight_eq_div_pow _ 1
    rw [itobMasked, mask_digit hpow]
    obtain ⟨hlen, hbin, hval⟩ := ih hnext (isBinary_concat_digit hs (v.toNat.testBit n))
    refine ⟨?_, hbin, ?_⟩
    · rw [hlen, List.length_append, List.length_singleton, Nat.add_assoc, Nat.add_comm 1 n]
    · rw [hval, binary_concat_digit, Nat.mod_pow_succ, ← Nat.toNat_testBit, pow_succ]
      ring

/-! ## As many digits as there are -/

/-- The loop without a width writes the digit of the lowest bit. -/
theorem free_digit (v : UInt64) : chr '0' + (v % 2).toUInt8 = digit (v.toNat.testBit 0) := by
  have hmod : (v % 2).toNat = (v.toNat.testBit 0).toNat := by
    rw [UInt64.toNat_mod, Nat.toNat_testBit, pow_zero, Nat.div_one]
    rfl
  cases hbit : v.toNat.testBit 0
  · rw [hbit] at hmod
    rw [UInt64.toNat_inj.1 (hmod.trans (UInt64.toNat_zero).symm)]
    rfl
  · rw [hbit] at hmod
    rw [UInt64.toNat_inj.1 (hmod.trans (UInt64.toNat_one).symm)]
    rfl

/-- Halving a number other than zero shortens it by one bit. -/
theorem size_eq_succ {v : ℕ} (hv : v ≠ 0) : v.size = (v / 2).size + 1 := by
  have hbit : Nat.bit (v.testBit 0) (v / 2) = v := Nat.bit_testBit_zero_shiftRight_one v
  have hne : Nat.bit (v.testBit 0) (v / 2) ≠ 0 := by
    rw [hbit]
    exact hv
  have hsize := Nat.size_bit hne
  rw [hbit] at hsize
  exact hsize

/-- What is printed goes behind what is there. -/
theorem itobFree_append (n : ℕ) (v : UInt64) (s : Text) :
    itobFree n v s = s ++ itobFree n v [] := by
  induction n generalizing v s with
  | zero => exact (List.append_nil s).symm
  | succ n ih =>
    rw [itobFree, itobFree]
    split
    · rw [ih, ih (v >>> 1) ([] ++ _), List.nil_append, List.append_assoc]
    · rfl

/-- The digits come the other way round. -/
theorem itobFree_spec (n : ℕ) (v : UInt64) :
    (itobFree n v []).length = min n (max 1 v.toNat.size) ∧ IsBinary (itobFree n v []).reverse ∧
      binary (itobFree n v []).reverse = v.toNat % 2 ^ n := by
  induction n generalizing v with
  | zero =>
    refine ⟨?_, ?_, ?_⟩
    · rw [Nat.zero_min]
      rfl
    · exact fun b hb => absurd hb List.not_mem_nil
    · rw [pow_zero, Nat.mod_one]
      rfl
  | succ n ih =>
    have hhalf : (v >>> 1).toNat = v.toNat / 2 := by
      rw [UInt64.toNat_shiftRight]
      exact Nat.shiftRight_eq_div_pow _ 1
    have hmod : v.toNat % 2 ^ (n + 1) = 2 * (v.toNat / 2 % 2 ^ n) + (v.toNat.testBit 0).toNat := by
      rw [pow_succ', Nat.mod_mul, Nat.toNat_testBit, pow_zero, Nat.div_one, Nat.add_comm]
    rw [itobFree, List.nil_append, free_digit]
    by_cases hmore : v >>> 1 ≠ 0
    · obtain ⟨hlen, hbin, hval⟩ := ih (v >>> 1)
      have hpos : v.toNat / 2 ≠ 0 := by
        rw [← hhalf]
        exact fun h => hmore (UInt64.toNat_inj.1 h)
      have hsize : v.toNat.size = (v.toNat / 2).size + 1 := by
        apply size_eq_succ
        omega
      have hsizePos : 0 < (v.toNat / 2).size := Nat.size_pos.2 (Nat.pos_of_ne_zero hpos)
      rw [if_pos hmore, itobFree_append, List.reverse_append, List.reverse_singleton]
      refine ⟨?_, isBinary_concat_digit hbin _, ?_⟩
      · rw [List.length_append, hlen, hhalf, hsize, List.length_singleton]
        omega
      · rw [binary_concat_digit, hval, hhalf, hmod]
    · have hzero : v.toNat / 2 = 0 := by
        rw [← hhalf, not_not.1 hmore]
        rfl
      have hsize : v.toNat.size ≤ 1 := Nat.size_le.2 (by omega)
      rw [if_neg hmore, List.reverse_singleton]
      refine ⟨?_, ?_, ?_⟩
      · rw [List.length_singleton]
        omega
      · exact isBinary_concat_digit (fun b hb => absurd hb List.not_mem_nil) _
      · rw [hmod, hzero, Nat.zero_mod]
        exact binary_concat_digit [] _

/-! ## Both modes -/

/-- The first mask of a width `n` stands at its highest bit. -/
theorem toNat_mask {n : ℕ} (hpos : 0 < n) (hn : n ≤ 64) :
    ((1 : UInt64) <<< UInt64.ofNat (n - 1)).toNat = 2 ^ n / 2 := by
  obtain ⟨k, rfl⟩ := Nat.exists_eq_add_one_of_ne_zero (Nat.ne_of_gt hpos)
  have hk : (UInt64.ofNat k).toNat = k := UInt64.toNat_ofNat_of_lt' (by
    exact Nat.lt_trans hn (by decide))
  have hlt : 2 ^ k < 2 ^ 64 := Nat.pow_lt_pow_right (by decide) hn
  have hhalf : 2 ^ (k + 1) / 2 = 2 ^ k := by
    rw [pow_succ, Nat.mul_div_cancel _ Nat.two_pos]
  rw [Nat.add_sub_cancel, UInt64.toNat_shiftLeft, hk, Nat.mod_eq_of_lt hn, hhalf,
    Nat.shiftLeft_eq, UInt64.toNat_one, Nat.one_mul, Nat.mod_eq_of_lt hlt]

/-- **`itob` prints in binary.** With `n` digits asked for, the `n` low bits; with at most `-n`
digits asked for, as many digits as the number has and no more than `-n` of its low bits. -/
theorem itob_exact (v : UInt64) (n : ℤ) (h : n.natAbs ≤ 64) :
    (0 < n → ∃ s, itob n v = s ++ [0] ∧ IsBinary s ∧ s.length = n.natAbs ∧
      binary s = v.toNat % 2 ^ n.natAbs) ∧
    (n < 0 → ∃ s, itob n v = s ++ [0] ∧ IsBinary s ∧
      s.length = min n.natAbs (max 1 v.toNat.size) ∧ binary s = v.toNat % 2 ^ n.natAbs) := by
  constructor
  · intro hpos
    have hmask := toNat_mask (n := n.natAbs) (by omega) h
    obtain ⟨hlen, hbin, hval⟩ :=
      itobMasked_spec v hmask (s := []) fun b hb => absurd hb List.not_mem_nil
    have hn : n.toNat = n.natAbs := by omega
    have hn' : (n - 1).toNat = n.natAbs - 1 := by omega
    refine ⟨_, ?_, hbin, ?_, ?_⟩
    · rw [itob, if_pos hpos, hn, hn']
    · rw [hlen, List.length_nil, Nat.zero_add]
    · rw [hval]
      show 0 * 2 ^ n.natAbs + _ = _
      rw [Nat.zero_mul, Nat.zero_add]
  · intro hneg
    obtain ⟨hlen, hbin, hval⟩ := itobFree_spec n.natAbs v
    have hn : (-n).toNat = n.natAbs := by omega
    refine ⟨_, ?_, hbin, ?_, hval⟩
    · rw [itob, if_neg (by omega), if_pos (by omega), hn]
      dsimp only
      rw [reverseRange_eq_reverse]
    · rw [List.length_reverse, hlen]

/-- Five in two digits, and in at most eight. -/
theorem itob_exact_two :
    (∃ s, itob 2 5 = s ++ [0] ∧ IsBinary s ∧ s.length = 2 ∧ binary s = 5 % 2 ^ 2) ∧
      ∃ s, itob (-8) 5 = s ++ [0] ∧ IsBinary s ∧ s.length = min 8 (max 1 (Nat.size 5)) ∧
        binary s = 5 % 2 ^ 8 :=
  ⟨(itob_exact 5 2 (by decide)).1 (by decide), (itob_exact 5 (-8) (by decide)).2 (by decide)⟩

end WeightScale
