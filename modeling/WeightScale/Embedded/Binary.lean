import Mathlib.Data.Nat.Bitwise
import WeightScale.Embedded.CString

/-!
# Binary numerals

`binary` reads a text of the digits `0` and `1` as a number, the most significant digit
first. `reverseRange` turns a piece of a text round in place, exchanging its outermost bytes
and going on inwards.
-/

set_option autoImplicit false

namespace Embedded

/-- The digit of a bit. -/
def digit (b : Bool) : Byte := if b then chr '1' else chr '0'

/-- The number that a text of binary digits spells. -/
def binary (t : Text) : ℕ := t.foldl (fun n b => 2 * n + if b = chr '1' then 1 else 0) 0

/-- One more digit doubles the value and adds itself. -/
theorem binary_concat_digit (t : Text) (b : Bool) :
    binary (t ++ [digit b]) = 2 * binary t + b.toNat := by
  rw [binary, List.foldl_append, ← binary]
  cases b <;> rfl

/-! ## Turning a text round -/

/-- Exchanges the bytes at `i` and `j`. -/
def swap (s : Text) (i j : ℕ) : Text := (s.set i (s[j]?.getD 0)).set j (s[i]?.getD 0)

/-- Exchanges the bytes at `b` and `e`, and goes on between them. -/
def reverseRange : ℕ → ℕ → Text → Text
  | _, 0, s => s
  | b, e + 1, s => if b < e + 1 then reverseRange (b + 1) e (swap s b (e + 1)) else s

/-- Swapping two chars keeps the length. -/
@[simp] theorem length_swap (s : Text) (i j : ℕ) : (swap s i j).length = s.length := by
  simp [swap]

/-- What stands where behind a swap. -/
theorem getElem?_swap {s : Text} {i j : ℕ} (hij : i < j) (hj : j < s.length) (k : ℕ) :
    (swap s i j)[k]? = if k = i then s[j]? else if k = j then s[i]? else s[k]? := by
  have hi : i < s.length := Nat.lt_trans hij hj
  rw [swap, List.getElem?_set, List.getElem?_set, List.length_set]
  by_cases hkj : j = k
  · subst hkj
    rw [if_pos rfl, if_pos hj, if_neg (Nat.ne_of_gt hij), if_pos rfl, List.getElem?_eq_getElem hi]
    rfl
  · rw [if_neg hkj, if_neg (Ne.symm hkj)]
    by_cases hki : i = k
    · subst hki
      rw [if_pos rfl, if_pos hi, if_pos rfl, List.getElem?_eq_getElem hj]
      rfl
    · rw [if_neg hki, if_neg (Ne.symm hki)]

/-- Reversing a range keeps the length. -/
@[simp] theorem length_reverseRange (b e : ℕ) (s : Text) :
    (reverseRange b e s).length = s.length := by
  induction e generalizing b s with
  | zero => rfl
  | succ e ih =>
    rw [reverseRange]
    split
    · rw [ih, length_swap]
    · rfl

/-- Between `b` and `e` the text is turned round, elsewhere it stays. -/
theorem getElem?_reverseRange {b e : ℕ} {s : Text} (he : e < s.length) (k : ℕ) :
    (reverseRange b e s)[k]? = if b ≤ k ∧ k ≤ e then s[b + e - k]? else s[k]? := by
  induction e generalizing b s with
  | zero =>
    rw [reverseRange]
    split
    · congr 1
      omega
    · rfl
  | succ e ih =>
    rw [reverseRange]
    by_cases hbe : b < e + 1
    · have hlen : e < (swap s b (e + 1)).length := by
        rw [length_swap]
        omega
      rw [if_pos hbe, ih hlen]
      by_cases hin : b + 1 ≤ k ∧ k ≤ e
      · have hb : b + 1 + e - k ≠ b := by omega
        have he' : b + 1 + e - k ≠ e + 1 := by omega
        rw [if_pos hin, if_pos (by omega), getElem?_swap hbe he, if_neg hb, if_neg he']
        congr 1
        omega
      · rw [if_neg hin, getElem?_swap hbe he]
        by_cases hkb : k = b
        · subst hkb
          rw [if_pos rfl, if_pos (by omega), Nat.add_sub_cancel_left]
        · by_cases hke : k = e + 1
          · subst hke
            rw [if_neg hkb, if_pos rfl, if_pos (by omega), Nat.add_sub_cancel]
          · rw [if_neg hkb, if_neg hke, if_neg (by omega)]
    · rw [if_neg hbe]
      split
      · congr 1
        omega
      · rfl

/-- The loop over the whole text reverses it. -/
theorem reverseRange_eq_reverse (s : Text) : reverseRange 0 (s.length - 1) s = s.reverse := by
  rcases Nat.eq_zero_or_pos s.length with hnil | hpos
  · rw [List.length_eq_zero_iff.1 hnil]
    rfl
  · apply List.ext_getElem?
    intro k
    rw [getElem?_reverseRange (Nat.sub_lt hpos Nat.one_pos)]
    by_cases hk : k < s.length
    · rw [if_pos (by omega), List.getElem?_reverse hk, Nat.zero_add]
    · rw [if_neg (by omega), List.getElem?_eq_none (Nat.not_lt.1 hk), List.getElem?_eq_none]
      rw [List.length_reverse]
      exact Nat.not_lt.1 hk

end Embedded
