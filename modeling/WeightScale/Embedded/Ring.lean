import Mathlib.Data.List.TakeDrop

/-!
# Rings

A ring has `n` slots and the index of the slot to be written next, which is the oldest
one. Read from there on it lists its contents in the order they were written, so after any
number of writes it holds the last `n` of what it held and was given.
-/

set_option autoImplicit false

namespace Embedded

/-- A ring of `n` entries and the index of the oldest. -/
structure Ring (α : Type) (n : ℕ) where
  slots : Vector α n
  next : ℕ
  next_lt : next < n

namespace Ring

variable {α : Type} {n : ℕ}

/-- Overwrite the oldest slot. -/
def put (r : Ring α n) (x : α) : Ring α n where
  slots := r.slots.set r.next x r.next_lt
  next := if r.next + 1 ≥ n then 0 else r.next + 1
  next_lt := by
    have := r.next_lt
    split <;> omega

/-- The contents, oldest first. -/
def toList (r : Ring α n) : List α := r.slots.toList.drop r.next ++ r.slots.toList.take r.next

/-- A ring has as many entries as it has room. -/
theorem length_toList (r : Ring α n) : r.toList.length = n := by
  have := r.next_lt
  simp [toList]
  omega

/-- A new entry comes last and drops the oldest. -/
theorem toList_put (r : Ring α n) (x : α) : (r.put x).toList = r.toList.tail ++ [x] := by
  have hlt := r.next_lt
  have hset : (r.put x).slots.toList = r.slots.toList.set r.next x := by
    rw [put, Vector.toList_set]
  have hlen : r.slots.toList.length = n := by simp
  have htail : r.toList.tail = r.slots.toList.drop (r.next + 1) ++ r.slots.toList.take r.next := by
    rw [toList, List.tail_append_of_ne_nil (by simp; omega), List.tail_drop]
  rw [toList, hset, htail, List.set_eq_take_append_cons_drop, if_pos (by omega)]
  generalize r.slots.toList = l at hlen
  have htake : (l.take r.next).length = r.next := by simp; omega
  by_cases hlast : r.next + 1 ≥ n
  · have hnext : (r.put x).next = 0 := by simp [put, hlast]
    have hdrop : l.drop (r.next + 1) = [] := List.drop_eq_nil_of_le (by omega)
    rw [hnext, hdrop]
    simp
  · have hnext : (r.put x).next = r.next + 1 := by simp [put, hlast]
    rw [hnext, List.drop_append, List.take_append, htake, Nat.add_sub_cancel_left,
      List.drop_eq_nil_of_le (by omega), List.take_of_length_le (by omega)]
    simp

/-- **What a ring holds**: the last of what it held and was given. -/
theorem toList_foldl_put (xs : List α) (r : Ring α n) :
    (xs.foldl put r).toList = (r.toList ++ xs).drop xs.length := by
  induction xs generalizing r with
  | nil => simp
  | cons x xs ih =>
    have hne : r.toList ≠ [] := by
      have := r.next_lt
      rw [← List.length_pos_iff, length_toList]
      omega
    rw [List.foldl_cons, ih, toList_put, List.append_assoc, List.singleton_append,
      List.length_cons, Nat.add_comm, ← List.drop_drop, List.drop_one, List.tail_append_of_ne_nil hne]

end Ring

end Embedded
