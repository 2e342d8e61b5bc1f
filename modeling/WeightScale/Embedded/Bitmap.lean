import Mathlib.Data.Nat.Notation
import WeightScale.Embedded.CString

/-!
# Bitmaps in pages

A monochrome picture of `w` columns keeps eight rows to a page, and a page a byte to a
column: the pixel in column `x` and row `y` is bit `y % 8` of byte `x + y / 8 * w`. Writing
one pixel changes that pixel and no other, as long as its byte is in the array.
-/

set_option autoImplicit false

namespace Embedded

/-- The byte with the one bit `k`. -/
def bitValue (k : ℕ) : Byte := UInt8.ofNat (1 <<< k)

/-- Bit `k` of a byte. -/
def bitAt (b : Byte) (k : ℕ) : Bool := b.toBitVec.getLsbD k

/-- Zero has no bit. -/
@[simp] theorem bitAt_zero (k : ℕ) : bitAt 0 k = false := by
  show (0#8).getLsbD k = false
  exact BitVec.getLsbD_zero

/-- The value of a bit has that bit alone. -/
theorem bitAt_bitValue {i k : ℕ} (hi : i < 8) : bitAt (bitValue k) i = decide (i = k) := by
  show (BitVec.ofNat 8 (1 <<< k)).getLsbD i = decide (i = k)
  rw [BitVec.getLsbD_ofNat, Nat.one_shiftLeft, Nat.testBit_two_pow]
  simp [hi, eq_comm]

/-- An `or` has the bits of both. -/
theorem bitAt_or (b c : Byte) (k : ℕ) : bitAt (b ||| c) k = (bitAt b k || bitAt c k) := by
  simp [bitAt]

/-- An `and` has the bits they share. -/
theorem bitAt_and (b c : Byte) (k : ℕ) : bitAt (b &&& c) k = (bitAt b k && bitAt c k) := by
  simp [bitAt]

/-- A complement has the other bits of the byte. -/
theorem bitAt_not (b : Byte) {k : ℕ} (hk : k < 8) : bitAt (~~~b) k = !bitAt b k := by
  simp [bitAt, hk]

/-- The bits of a byte shifted right by one. -/
theorem bitAt_shiftRight_one (b : Byte) (k : ℕ) : bitAt (b >>> 1) k = bitAt b (k + 1) := by
  have h : (b >>> 1).toBitVec = b.toBitVec >>> 1 := by
    rw [UInt8.toBitVec_shiftRight]
    rfl
  rw [bitAt, h, BitVec.getLsbD_ushiftRight, Nat.add_comm]
  rfl

/-- The test of the lowest bit. -/
theorem and_one_ne_zero (b : Byte) : b &&& 1 ≠ 0 ↔ bitAt b 0 = true := by
  have hbit : bitAt b 0 = b.toNat.testBit 0 := rfl
  rw [hbit, Nat.testBit_zero, decide_eq_true_eq, ne_eq, ← UInt8.toNat_inj, UInt8.toNat_and]
  show ¬b.toNat &&& 1 = 0 ↔ _
  rw [Nat.and_one_is_mod]
  omega

/-- A picture in `n` bytes. -/
abbrev Bitmap (n : ℕ) := Vector Byte n

namespace Bitmap

variable {n : ℕ}

/-- The byte that holds the pixel in column `x` and row `y` of `w` columns. -/
def index (w x y : ℕ) : ℕ := x + y / 8 * w

/-- The pixel at a column and a row of a bitmap of width `w`, in bytes of eight rows. -/
def pixel (b : Bitmap n) (w x y : ℕ) : Bool :=
  bitAt (b.toList[index w x y]?.getD 0) (y % 8)

/-- Switch one pixel on or off. -/
def set (b : Bitmap n) (w x y : ℕ) (on : Bool) : Bitmap n :=
  let i := index w x y
  let byte := b.toList[i]?.getD 0
  b.setIfInBounds i (if on then byte ||| bitValue (y % 8) else byte &&& ~~~bitValue (y % 8))

/-- All pixels off. -/
def clear (_ : Bitmap n) : Bitmap n := Vector.replicate n 0

/-- No pixel of a cleared bitmap is set. -/
@[simp] theorem pixel_clear (b : Bitmap n) (w x y : ℕ) : b.clear.pixel w x y = false := by
  have h : (b.clear.toList[index w x y]?.getD 0) = 0 := by
    rw [clear, Vector.toList_replicate, List.getElem?_replicate]
    split <;> rfl
  rw [pixel, h, bitAt_zero]

/-- The pixels of whole pages lie in the array. -/
theorem index_lt {w h x y : ℕ} (h8 : 8 ∣ h) (hx : x < w) (hy : y < h) :
    index w x y < h * w / 8 := by
  obtain ⟨p, rfl⟩ := h8
  have hpage : y / 8 + 1 ≤ p := by omega
  have hsize : 8 * p * w / 8 = p * w := by
    rw [Nat.mul_assoc, Nat.mul_div_cancel_left _ (by omega)]
  calc index w x y < w + y / 8 * w := by rw [index]; omega
    _ = (y / 8 + 1) * w := by rw [Nat.succ_mul, Nat.add_comm]
    _ ≤ p * w := Nat.mul_le_mul_right w hpage
    _ = 8 * p * w / 8 := hsize.symm

/-- Pixels in one byte are in one column and one page. -/
theorem index_inj {w x y x' y' : ℕ} (hx : x < w) (hx' : x' < w) :
    index w x y = index w x' y' ↔ x = x' ∧ y / 8 = y' / 8 := by
  constructor
  · intro h
    have hmod : x = x' := by
      have := congrArg (· % w) h
      simpa [index, Nat.mod_eq_of_lt hx, Nat.mod_eq_of_lt hx'] using this
    refine ⟨hmod, ?_⟩
    subst hmod
    exact Nat.eq_of_mul_eq_mul_right (by omega) (Nat.add_left_cancel h)
  · rintro ⟨rfl, h⟩
    rw [index, index, h]

/-- **One pixel**: what is written is read back, and every other pixel is as it was. -/
theorem pixel_set (b : Bitmap n) {w x y x' y' : ℕ} (on : Bool) (hx : x < w) (hx' : x' < w)
    (hi : index w x y < n) :
    (b.set w x y on).pixel w x' y' = if x' = x ∧ y' = y then on else b.pixel w x' y' := by
  have hy8 : y' % 8 < 8 := Nat.mod_lt _ (by omega)
  by_cases hbyte : index w x y = index w x' y'
  · -- the same byte: the bits tell the rows of the page apart
    obtain ⟨rfl, hpage⟩ := (index_inj hx hx').mp hbyte
    have hrow : y' = y ↔ y' % 8 = y % 8 := by omega
    have hread : ((b.set w x y on).toList[index w x y']?.getD 0) =
        if on then (b.toList[index w x y]?.getD 0) ||| bitValue (y % 8)
        else (b.toList[index w x y]?.getD 0) &&& ~~~bitValue (y % 8) := by
      rw [set, Vector.toList_setIfInBounds, ← hbyte, List.getElem?_set_self (by simpa using hi)]
      rfl
    rw [pixel, hread, pixel, ← hbyte]
    cases on
    · rw [if_neg (by simp), bitAt_and, bitAt_not _ hy8, bitAt_bitValue hy8]
      by_cases h : y' % 8 = y % 8 <;> simp [h, hrow]
    · rw [if_pos rfl, bitAt_or, bitAt_bitValue hy8]
      by_cases h : y' % 8 = y % 8 <;> simp [h, hrow]
  · have hne : ¬(x' = x ∧ y' = y) := by
      rintro ⟨rfl, rfl⟩
      exact hbyte rfl
    rw [if_neg hne, pixel, set, Vector.toList_setIfInBounds, List.getElem?_set_ne hbyte, pixel]

end Bitmap

end Embedded
