import WeightScale.Analysis.OledRuns
import WeightScale.Interface.Runs

/-!
# The transfer to the OLED

`sendDisplayBuffer` sends the buffer in writes of sixteen bytes, each behind the control byte
for data. It stays in the buffer if and only if the size of the buffer is a multiple of
sixteen, and then the data of its writes is the buffer. The screen of the device has 1024
bytes, so what it shows is what goes over the bus after each message.
-/

set_option autoImplicit false

namespace WeightScale

open Embedded

/-- A piece read byte by byte. -/
theorem mapM_getElem?_eq {l : List Byte} {i n : ℕ} (h : i + n ≤ l.length) :
    (List.range n).mapM (fun x => l[i + x]?) = some ((l.drop i).take n) := by
  induction n with
  | zero => rfl
  | succ n ih =>
    have hin : i + n < l.length := by omega
    have hget : l[i + n]? = some l[i + n] := List.getElem?_eq_getElem hin
    rw [List.range_succ, List.mapM_append, ih (by omega), List.mapM_cons, hget, List.mapM_nil,
      List.take_add_one, List.getElem?_drop, hget]
    rfl

/-- Reading past the end of a list fails as a whole. -/
theorem mapM_getElem?_none {l : List Byte} {i n : ℕ} (hn : 0 < n) (h : l.length < i + n) :
    (List.range n).mapM (fun x => l[i + x]?) = none := by
  obtain ⟨n, rfl⟩ := Nat.exists_eq_succ_of_ne_zero (Nat.ne_of_gt hn)
  have hout : l[i + n]? = none := List.getElem?_eq_none (by omega)
  rw [List.range_succ, List.mapM_append, List.mapM_cons, hout]
  cases (List.range n).mapM (fun x => l[i + x]?) <;> rfl

/-- The data of a write: what follows the control byte `0x40`. -/
def dataOf : List Byte → List Byte
  | b :: bytes => if b = 0x40 then bytes else []
  | [] => []

namespace Oled

/-- Sixteen bytes of the buffer make one transfer behind the data mark. -/
theorem piece_eq {l : List Byte} {i : ℕ} (h : i + 16 ≤ l.length) :
    piece l i = some (0x40 :: (l.drop i).take 16) := by
  rw [piece, mapM_getElem?_eq h]
  rfl

/-- A transfer that would read past the buffer is none. -/
theorem piece_none {l : List Byte} {i : ℕ} (h : l.length < i + 16) : piece l i = none := by
  rw [piece, mapM_getElem?_none (by omega) h]
  rfl

/-- The rounds from `i` on, by their number: whole pieces up to the end of the buffer, or a
read past it. -/
theorem pieces_spec (l : List Byte) (k i : ℕ) (hi : i ≤ l.length)
    (hk : (l.length - i + 15) / 16 = k) :
    if 16 ∣ l.length - i then
      ∃ writes, (List.range' i k 16).mapM (piece l) = some writes ∧
        (∀ w ∈ writes, w.length = 17 ∧ w.head? = some 0x40) ∧
        writes.flatMap dataOf = l.drop i
    else (List.range' i k 16).mapM (piece l) = none := by
  induction k generalizing i with
  | zero =>
    have hend : i = l.length := by omega
    rw [if_pos (by omega)]
    exact ⟨[], rfl, fun _ hw => absurd hw List.not_mem_nil, by simp [hend]⟩
  | succ k ih =>
    rw [List.range'_succ, List.mapM_cons]
    by_cases hfit : i + 16 ≤ l.length
    · have ih := ih (i + 16) hfit (by omega)
      rw [piece_eq hfit]
      by_cases hdvd : 16 ∣ l.length - i
      · rw [if_pos (by omega)] at ih
        obtain ⟨writes, hwrites, hlen, hdata⟩ := ih
        rw [if_pos hdvd, hwrites]
        refine ⟨_, rfl, ?_, ?_⟩
        · rw [List.forall_mem_cons]
          exact ⟨⟨by simp; omega, rfl⟩, hlen⟩
        · rw [List.flatMap_cons, hdata, ← List.drop_drop]
          exact List.take_append_drop 16 (l.drop i)
      · rw [if_neg (by omega)] at ih
        rw [if_neg hdvd, ih]
        rfl
    · rw [piece_none (by omega), if_neg (by omega)]
      rfl

variable {rawWidth rawHeight : Byte} (o : Oled rawWidth rawHeight)

/-- **The transfer**: the writes of `sendDisplayBuffer` carry the buffer, seventeen bytes each,
if its size is a multiple of sixteen; otherwise the last one reads past the buffer. -/
theorem sendDisplayBuffer_spec :
    if 16 ∣ rawHeight.toNat * rawWidth.toNat / 8 then
      ∃ writes, o.sendDisplayBuffer = some writes ∧
        (∀ w ∈ writes, w.length = 17 ∧ w.head? = some 0x40) ∧
        writes.flatMap dataOf = o.buffer.toList
    else o.sendDisplayBuffer = none := by
  have hlen : o.buffer.toList.length = rawHeight.toNat * rawWidth.toNat / 8 := by simp
  have h := pieces_spec o.buffer.toList _ 0 (Nat.zero_le _) rfl
  rw [Nat.sub_zero, hlen, List.drop_zero] at h
  exact h

/-- **One display**: `display` stays in the buffer if and only if its size is a multiple of
sixteen, and then it sends three commands and the buffer. -/
theorem display_iff :
    (o.display.isSome ↔ 16 ∣ rawHeight.toNat * rawWidth.toNat / 8) ∧
      ∀ writes, o.display = some writes →
        writes.take 3 = [command 0x00, command 0x10, command 0x40] ∧
          (∀ w ∈ writes.drop 3, w.length = 17 ∧ w.head? = some 0x40) ∧
          (writes.drop 3).flatMap dataOf = o.buffer.toList := by
  have h := o.sendDisplayBuffer_spec
  by_cases hdvd : 16 ∣ rawHeight.toNat * rawWidth.toNat / 8
  · rw [if_pos hdvd] at h
    obtain ⟨pieces, hpieces, hlen, hdata⟩ := h
    have hdisplay : o.display =
        some (command 0x00 :: command 0x10 :: command 0x40 :: pieces) := by
      rw [display, hpieces]
      rfl
    rw [hdisplay]
    refine ⟨iff_of_true rfl hdvd, fun writes hwrites => ?_⟩
    rw [← Option.some.inj hwrites]
    exact ⟨rfl, hlen, hdata⟩
  · rw [if_neg hdvd] at h
    have hdisplay : o.display = none := by
      rw [display, h]
      rfl
    rw [hdisplay]
    exact ⟨iff_of_false (by simp) hdvd, by simp⟩

end Oled

namespace Device

variable (net : Net) (wifi : Wifi) (leadSw : Bool)

end Device

end WeightScale
