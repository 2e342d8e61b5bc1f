import WeightScale.Model.Oled

/-!
# Pixels of the OLED

`drawPixel` turns a pixel into the raw picture and writes one bit of one byte. In every
rotation it changes the pixel it is asked for and no other, and it stays in the buffer, if
the raw height is whole pages. `drawChar` then paints one cell of six columns and eight
rows, as far as the cell lies on the screen.
-/

set_option autoImplicit false

namespace WeightScale

open Embedded

namespace Oled

variable {rawWidth rawHeight : Byte} (o : Oled rawWidth rawHeight)

/-- What the screen shows in column `x` and row `y`, as it is turned. -/
def pixel (x y : ℕ) : Bool :=
  o.buffer.pixel rawWidth.toNat (o.turn x y).1 (o.turn x y).2

/-- Width and height are exchanged in the odd rotations. -/
theorem rotation_cases :
    (o.rotation = 0 ∨ o.rotation = 2) ∧ o.width = rawWidth.toNat ∧ o.height = rawHeight.toNat ∨
    (o.rotation = 1 ∨ o.rotation = 3) ∧ o.width = rawHeight.toNat ∧ o.height = rawWidth.toNat := by
  have hlt := o.rotation_lt
  have hext := o.extent_eq
  have hcases : o.rotation = 0 ∨ o.rotation = 1 ∨ o.rotation = 2 ∨ o.rotation = 3 := by
    simp only [UInt8.lt_iff_toNat_lt, ← UInt8.toNat_inj] at hlt ⊢
    change o.rotation.toNat < 4 at hlt
    show o.rotation.toNat = 0 ∨ o.rotation.toNat = 1 ∨ o.rotation.toNat = 2 ∨ o.rotation.toNat = 3
    omega
  obtain hr | hr | hr | hr := hcases <;> rw [hr, extent] at hext <;>
    simp at hext <;> simp [hr, hext]

/-- The turned pixel lies in the raw picture. -/
theorem turn_lt {x y : ℕ} (hx : x < o.width) (hy : y < o.height) :
    (o.turn x y).1 < rawWidth.toNat ∧ (o.turn x y).2 < rawHeight.toNat := by
  obtain ⟨hr | hr, hw, hh⟩ | ⟨hr | hr, hw, hh⟩ := o.rotation_cases <;>
    simp [turn, hr] <;> omega

/-- No two pixels of the screen share a place in the raw picture. -/
theorem turn_inj {x y x' y' : ℕ} (hx : x < o.width) (hy : y < o.height) (hx' : x' < o.width)
    (hy' : y' < o.height) (h : o.turn x y = o.turn x' y') : x = x' ∧ y = y' := by
  obtain ⟨hr | hr, hw, hh⟩ | ⟨hr | hr, hw, hh⟩ := o.rotation_cases <;>
    simp [turn, hr] at h <;> omega

/-- The byte that `drawPixel` writes is in the buffer. -/
theorem index_turn_lt (h8 : 8 ∣ rawHeight.toNat) {x y : ℕ} (hx : x < o.width)
    (hy : y < o.height) :
    Bitmap.index rawWidth.toNat (o.turn x y).1 (o.turn x y).2 <
      rawHeight.toNat * rawWidth.toNat / 8 :=
  Bitmap.index_lt h8 (o.turn_lt hx hy).1 (o.turn_lt hx hy).2

/-- **One pixel.** -/
theorem pixel_drawPixel (h8 : 8 ∣ rawHeight.toNat) (x y : Int) (color : UInt16) {x' y' : ℕ}
    (hx' : x' < o.width) (hy' : y' < o.height) :
    (o.drawPixel x y color).pixel x' y' =
      if (x' : Int) = x ∧ (y' : Int) = y then color == white else o.pixel x' y' := by
  rw [drawPixel]
  by_cases hclip : x < 0 ∨ x ≥ o.width ∨ y < 0 ∨ y ≥ o.height
  · have hne : ¬((x' : Int) = x ∧ (y' : Int) = y) := by omega
    rw [if_pos hclip, if_neg hne]
  · have hx : x.toNat < o.width := by omega
    have hy : y.toNat < o.height := by omega
    rw [if_neg hclip]
    show Bitmap.pixel (o.buffer.set _ _ _ _) _ (o.turn x' y').1 (o.turn x' y').2 = _
    rw [Bitmap.pixel_set _ _ (o.turn_lt hx hy).1 (o.turn_lt hx' hy').1 (o.index_turn_lt h8 hx hy)]
    have hiff : ((o.turn x' y').1 = (o.turn x.toNat y.toNat).1 ∧
        (o.turn x' y').2 = (o.turn x.toNat y.toNat).2) ↔ (x' : Int) = x ∧ (y' : Int) = y := by
      constructor
      · rintro ⟨h1, h2⟩
        have := o.turn_inj hx' hy' hx hy (Prod.ext h1 h2)
        omega
      · rintro ⟨rfl, rfl⟩
        exact ⟨rfl, rfl⟩
    simp only [hiff]
    rfl

/-! ## What drawing leaves alone -/

/-- `o'` is `o` with another picture. -/
def Redrawn (o o' : Oled rawWidth rawHeight) : Prop := ∃ b, o' = { o with buffer := b }

variable {o} in
/-- Two rounds of drawing are one. -/
theorem Redrawn.trans {o' o'' : Oled rawWidth rawHeight} (h : Redrawn o o')
    (h' : Redrawn o' o'') : Redrawn o o'' := by
  obtain ⟨b, rfl⟩ := h
  obtain ⟨b', rfl⟩ := h'
  exact ⟨b', rfl⟩

/-- Nothing has been drawn. -/
theorem Redrawn.refl : Redrawn o o := ⟨o.buffer, rfl⟩

/-- A pixel changes the buffer only. -/
theorem redrawn_drawPixel (x y : Int) (color : UInt16) : Redrawn o (o.drawPixel x y color) := by
  rw [drawPixel]
  split
  · exact Redrawn.refl o
  · exact ⟨_, rfl⟩

/-- A dot changes the buffer only, drawn or left as it is. -/
theorem redrawn_drawDot (x y : Int) (on : Bool) (color bg : UInt16) :
    Redrawn o (o.drawDot x y on color bg) := by
  rw [drawDot]
  split
  · exact o.redrawn_drawPixel _ _ _
  · split
    · exact o.redrawn_drawPixel _ _ _
    · exact Redrawn.refl o

/-! ## Chars -/

/-- The pixel that a dot of a char leaves where `old` was. -/
def ink (on : Bool) (color bg : UInt16) (old : Bool) : Bool :=
  if on then color == white else if bg ≠ color then bg == white else old

/-- A coordinate in range is itself as an `int16_t`. -/
theorem int16_eq {x : Int} (h : -32768 ≤ x) (h' : x < 32768) : int16 x = x := by
  rw [int16, Int.bmod_def]
  omega

/-- A dot changes its own pixel and no other. -/
theorem pixel_drawDot (h8 : 8 ∣ rawHeight.toNat) {x y : Int} (hx : -32768 ≤ x ∧ x < 32768)
    (hy : -32768 ≤ y ∧ y < 32768) (on : Bool) (color bg : UInt16) {x' y' : ℕ}
    (hx' : x' < o.width) (hy' : y' < o.height) :
    (o.drawDot x y on color bg).pixel x' y' =
      if (x' : Int) = x ∧ (y' : Int) = y then ink on color bg (o.pixel x' y')
      else o.pixel x' y' := by
  rw [drawDot, int16_eq hx.1 hx.2, int16_eq hy.1 hy.2, ink]
  split
  · exact o.pixel_drawPixel h8 x y color hx' hy'
  · split
    · exact o.pixel_drawPixel h8 x y bg hx' hy'
    · simp

/-- The rows of a column drawn so far, and the bits of `line` still to come. -/
theorem drawColumn_rows (h8 : 8 ∣ rawHeight.toNat) {x y : Int} (hx : -32768 ≤ x ∧ x < 32768)
    (hy : -32768 ≤ y ∧ y < 32760) (line : Byte) (color bg : UInt16) {n : ℕ} (hn : n ≤ 8) :
    let s := (List.range n).foldl
      (fun (s : Oled rawWidth rawHeight × Byte) (j : ℕ) =>
        (s.1.drawDot x (y + j) (s.2 &&& 1 != 0) color bg, s.2 >>> 1)) (o, line)
    Redrawn o s.1 ∧ (∀ k, bitAt s.2 k = bitAt line (k + n)) ∧
    ∀ x' y' : ℕ, x' < o.width → y' < o.height →
      s.1.pixel x' y' =
        if (x' : Int) = x ∧ y ≤ y' ∧ (y' : Int) < y + n then
          ink (bitAt line (y' - y).toNat) color bg (o.pixel x' y')
        else o.pixel x' y' := by
  induction n with
  | zero =>
    refine ⟨Redrawn.refl o, fun k => rfl, fun x' y' _ _ => ?_⟩
    rw [if_neg (by omega)]
    rfl
  | succ n ih =>
    obtain ⟨hframe, hbits, hpix⟩ := ih (by omega)
    rw [List.range_succ, List.foldl_append]
    generalize (List.range n).foldl _ (o, line) = s at hframe hbits hpix
    have hbit : (s.2 &&& 1 != 0) = bitAt line n := by
      rw [Bool.eq_iff_iff, bne_iff_ne, and_one_ne_zero, hbits, Nat.zero_add]
    refine ⟨hframe.trans (s.1.redrawn_drawDot _ _ _ _ _), fun k => ?_, fun x' y' hx' hy' => ?_⟩
    · show bitAt (s.2 >>> 1) k = _
      rw [bitAt_shiftRight_one, hbits]
      congr 1
      omega
    · have hw : x' < s.1.width ∧ y' < s.1.height := by
        obtain ⟨b, hb⟩ := hframe
        rw [hb]
        exact ⟨hx', hy'⟩
      show (s.1.drawDot x (y + n) (s.2 &&& 1 != 0) color bg).pixel x' y' = _
      rw [pixel_drawDot _ h8 hx (by omega) _ _ _ hw.1 hw.2, hbit, hpix x' y' hx' hy']
      by_cases hrow : (x' : Int) = x ∧ (y' : Int) = y + n
      · have hk : ((y' : Int) - y).toNat = n := by omega
        rw [if_pos hrow, if_neg (by omega), if_pos (by omega), hk]
      · rw [if_neg hrow]
        by_cases hold : (x' : Int) = x ∧ y ≤ y' ∧ (y' : Int) < y + n
        · rw [if_pos hold, if_pos (by omega)]
        · rw [if_neg hold, if_neg (by omega)]

/-- The column of a glyph changes the buffer only. -/
theorem redrawn_drawColumn (h8 : 8 ∣ rawHeight.toNat) {x y : Int} (hx : -32768 ≤ x ∧ x < 32768)
    (hy : -32768 ≤ y ∧ y < 32760) (line : Byte) (color bg : UInt16) :
    Redrawn o (o.drawColumn x y line color bg) :=
  (o.drawColumn_rows h8 hx hy line color bg (Nat.le_refl 8)).1

/-- The column of a glyph changes the eight pixels below its top. -/
theorem pixel_drawColumn (h8 : 8 ∣ rawHeight.toNat) {x y : Int} (hx : -32768 ≤ x ∧ x < 32768)
    (hy : -32768 ≤ y ∧ y < 32760) (line : Byte) (color bg : UInt16) {x' y' : ℕ}
    (hx' : x' < o.width) (hy' : y' < o.height) :
    (o.drawColumn x y line color bg).pixel x' y' =
      if (x' : Int) = x ∧ y ≤ y' ∧ (y' : Int) < y + 8 then
        ink (bitAt line (y' - y).toNat) color bg (o.pixel x' y')
      else o.pixel x' y' :=
  (o.drawColumn_rows h8 hx hy line color bg (Nat.le_refl 8)).2.2 x' y' hx' hy'

/-- The columns of a char drawn so far. -/
theorem drawChar_columns (h8 : 8 ∣ rawHeight.toNat) (past : List Byte) {x y : Int}
    (hx : -32768 ≤ x ∧ x < 32762) (hy : -32768 ≤ y ∧ y < 32760) (c : Byte) (color bg : UInt16)
    {n : ℕ} (hn : n ≤ 6) :
    let o' := (List.range n).foldl
      (fun o (i : ℕ) => o.drawColumn (x + i) y (charColumn past c i) color bg) o
    Redrawn o o' ∧
    ∀ x' y' : ℕ, x' < o.width → y' < o.height →
      o'.pixel x' y' =
        if (x ≤ x' ∧ (x' : Int) < x + n) ∧ y ≤ y' ∧ (y' : Int) < y + 8 then
          ink (bitAt (charColumn past c (x' - x).toNat) (y' - y).toNat) color bg (o.pixel x' y')
        else o.pixel x' y' := by
  induction n with
  | zero =>
    refine ⟨Redrawn.refl o, fun x' y' _ _ => ?_⟩
    rw [if_neg (by omega)]
    rfl
  | succ n ih =>
    obtain ⟨hframe, hpix⟩ := ih (by omega)
    rw [List.range_succ, List.foldl_append]
    generalize (List.range n).foldl _ o = o' at hframe hpix
    refine ⟨hframe.trans (o'.redrawn_drawColumn h8 (by omega) hy _ _ _), fun x' y' hx' hy' => ?_⟩
    have hw : x' < o'.width ∧ y' < o'.height := by
      obtain ⟨b, hb⟩ := hframe
      rw [hb]
      exact ⟨hx', hy'⟩
    show (o'.drawColumn (x + n) y _ color bg).pixel x' y' = _
    rw [pixel_drawColumn _ h8 (by omega) hy _ _ _ hw.1 hw.2, hpix x' y' hx' hy']
    by_cases hcol : (x' : Int) = x + n ∧ y ≤ y' ∧ (y' : Int) < y + 8
    · have hk : ((x' : Int) - x).toNat = n := by omega
      rw [if_pos hcol, if_neg (by omega), if_pos (by omega), hk]
    · rw [if_neg hcol]
      by_cases hold : (x ≤ x' ∧ (x' : Int) < x + n) ∧ y ≤ y' ∧ (y' : Int) < y + 8
      · rw [if_pos hold, if_pos (by omega)]
      · rw [if_neg hold, if_neg (by omega)]

/-- The screen is at most 255 pixels wide and high. -/
theorem extent_le : o.width ≤ 255 ∧ o.height ≤ 255 := by
  have hw := rawWidth.toNat_lt
  have hh := rawHeight.toNat_lt
  obtain ⟨-, h⟩ | ⟨-, h⟩ := o.rotation_cases <;> omega

/-- A char of size one changes the buffer only. -/
theorem redrawn_drawChar (h8 : 8 ∣ rawHeight.toNat) (past : List Byte) (x y : Int) (c : Byte)
    (color bg : UInt16) : Redrawn o (o.drawChar past x y c color bg 1) := by
  have hle := o.extent_le
  have hsize : (1 : Byte).toNat = 1 := rfl
  rw [drawChar]
  split
  · exact Redrawn.refl o
  · rename_i hclip
    rw [Clipped, hsize] at hclip
    have hxr : -32768 ≤ x ∧ x < 32762 := by omega
    have hyr : -32768 ≤ y ∧ y < 32760 := by omega
    exact (o.drawChar_columns h8 past hxr hyr c color bg (Nat.le_refl 6)).1

/-- **One char** paints the cell of six columns and eight rows at its place, the part of it
that is on the screen, and nothing else. A cell that shows its blank column only, left of
the screen otherwise, is clipped. -/
theorem pixel_drawChar (h8 : 8 ∣ rawHeight.toNat) (past : List Byte) (x y : Int) (c : Byte)
    (color bg : UInt16) {x' y' : ℕ} (hx' : x' < o.width) (hy' : y' < o.height) :
    (o.drawChar past x y c color bg 1).pixel x' y' =
      if -4 ≤ x ∧ (x ≤ x' ∧ (x' : Int) < x + 6) ∧ y ≤ y' ∧ (y' : Int) < y + 8 then
        ink (bitAt (charColumn past c (x' - x).toNat) (y' - y).toNat) color bg (o.pixel x' y')
      else o.pixel x' y' := by
  have hle := o.extent_le
  have hsize : (1 : Byte).toNat = 1 := rfl
  rw [drawChar]
  by_cases hclip : o.Clipped x y 1
  · rw [Clipped, hsize] at hclip
    rw [if_pos (by rwa [Clipped, hsize]), if_neg (by omega)]
  · rw [if_neg hclip]
    rw [Clipped, hsize] at hclip
    have hxr : -32768 ≤ x ∧ x < 32762 := by omega
    have hyr : -32768 ≤ y ∧ y < 32760 := by omega
    have hleft : -4 ≤ x := by omega
    rw [(o.drawChar_columns h8 past hxr hyr c color bg (Nat.le_refl 6)).2 x' y' hx' hy']
    simp only [hleft, true_and, Nat.cast_ofNat]

end Oled

end WeightScale
