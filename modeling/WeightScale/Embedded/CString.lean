import Mathlib.Data.List.TakeWhile
import Mathlib.Data.List.TakeDrop

/-!
# C strings in fixed char arrays

A C program keeps its texts in char arrays of a fixed size, as the bytes before the
first NUL. `cstr` reads such a text off a list of bytes, `CharArray n` is an array of
`n` bytes, and `store`, `load` and `strcpy` are the accesses a program makes to it. A
store past the end of the array is dropped here, so a client that wants to know its
stores are in bounds has to prove so from the indices it passes.
-/

set_option autoImplicit false

namespace Embedded

/-- A C `char` that is unsigned. -/
abbrev Byte := UInt8

/-- A text, as the bytes before its terminator. -/
abbrev Text := List Byte

/-- The byte of an ASCII character literal. -/
def chr (c : Char) : Byte := c.toUInt8

/-- The bytes of an ASCII string literal. -/
def ascii (s : String) : Text := s.toList.map chr

/-- The C string that starts at the head of `bytes`: everything before the first NUL. -/
def cstr (bytes : List Byte) : Text := bytes.takeWhile (· != 0)

@[simp] theorem cstr_nil : cstr [] = [] := rfl

/-- The string ends at a NUL in front, and goes on behind any other byte. -/
theorem cstr_cons (b : Byte) (bs : List Byte) :
    cstr (b :: bs) = if b = 0 then [] else b :: cstr bs := by
  by_cases h : b = 0 <;> simp [cstr, h]

/-- Behind a NUL nothing is read. -/
@[simp] theorem cstr_zero_cons (bs : List Byte) : cstr (0 :: bs) = [] := by
  simp [cstr_cons]

/-- A C string holds no terminator. -/
theorem ne_zero_of_mem_cstr {bytes : List Byte} {b : Byte} (h : b ∈ cstr bytes) : b ≠ 0 := by
  simpa [cstr] using List.mem_takeWhile_imp h

/-- A string is no longer than its bytes. -/
theorem length_cstr_le (bytes : List Byte) : (cstr bytes).length ≤ bytes.length :=
  (List.takeWhile_sublist _).length_le

/-- A text without NUL is its own C string. -/
theorem cstr_eq_self {t : Text} (h : ∀ b ∈ t, b ≠ 0) : cstr t = t :=
  List.takeWhile_eq_self_iff.mpr (by simpa using h)

/-- A string read as bytes is the string. -/
@[simp] theorem cstr_cstr (bytes : List Byte) : cstr (cstr bytes) = cstr bytes :=
  cstr_eq_self fun _ hb => ne_zero_of_mem_cstr hb

/-- The terminator ends the string whatever lies behind it. -/
theorem cstr_append_zero (t rest : List Byte) : cstr (t ++ 0 :: rest) = cstr t := by
  induction t with
  | nil => simp
  | cons b t ih => simp [cstr_cons, ih]

/-- Bytes in front of the terminator cut the string to its front. -/
theorem cstr_take (bytes : List Byte) (n : ℕ) : cstr (bytes.take n) = (cstr bytes).take n := by
  induction bytes generalizing n with
  | nil => simp
  | cons b bs ih =>
    cases n with
    | zero => simp
    | succ n => by_cases h : b = 0 <;> simp [cstr_cons, h, ih]

/-! ## Char arrays -/

/-- A `char` array of `n` bytes. -/
abbrev CharArray (n : ℕ) := Vector Byte n

namespace CharArray

variable {n : ℕ}

/-- The array a static declaration without initialiser starts as. -/
def zeros (n : ℕ) : CharArray n := Vector.replicate n 0

/-- `a[i]` as a value. -/
def load (a : CharArray n) (i : ℕ) : Byte := a.toList[i]?.getD 0

/-- `a[i] = b`. -/
def store (a : CharArray n) (i : ℕ) (b : Byte) : CharArray n := a.setIfInBounds i b

/-- The C string at `&a[off]`. -/
def str (a : CharArray n) (off : ℕ) : Text := cstr (a.toList.drop off)

/-- `strcpy(a, t)`: the text, its terminator, and what was behind them before. -/
def strcpy (a : CharArray n) (t : Text) : CharArray n :=
  Vector.ofFn fun i => ((t ++ [0])[i.val]?).getD a[i]

/-- `a[i]` where it lies in the array. -/
def load? (a : CharArray n) (i : ℕ) : Option Byte := a.toList[i]?

/-- `a[i] = b` where it lies in the array. -/
def store? (a : CharArray n) (i : ℕ) (b : Byte) : Option (CharArray n) :=
  if i < n then some (a.store i b) else none

/-- `strcpy(a, t)` where the text and its terminator lie in the array. -/
def strcpy? (a : CharArray n) (t : Text) : Option (CharArray n) :=
  if t.length < n then some (a.strcpy t) else none

/-- A store sets its byte of the array. -/
@[simp] theorem toList_store (a : CharArray n) (i : ℕ) (b : Byte) :
    (a.store i b).toList = a.toList.set i b := by
  simp [store]

/-- A copied text is a prefix of the array, terminator included, when it fits. -/
theorem toList_strcpy (a : CharArray n) (t : Text) (h : t.length < n) :
    (a.strcpy t).toList = t ++ 0 :: a.toList.drop (t.length + 1) := by
  apply List.ext_getElem
  · simp; omega
  · intro i h₁ h₂
    simp only [Vector.length_toList] at h₁
    simp only [strcpy, Vector.getElem_toList, Vector.getElem_ofFn]
    rcases Nat.lt_trichotomy i t.length with hi | hi | hi
    · simp [List.getElem?_append, hi]
    · subst hi; simp
    · have hlt : ¬ i < t.length := by omega
      have hpos : ¬ i - t.length = 0 := by omega
      have hout : t.length + 1 ≤ i := by omega
      rw [List.getElem?_eq_none (by simp; omega)]
      simp [List.getElem_append, hlt, List.getElem_cons, hpos, Nat.sub_sub,
        Nat.add_sub_cancel' hout]

/-- A copied text is the string of the array up to its first NUL. -/
theorem str_strcpy (a : CharArray n) (t : Text) (h : t.length < n) :
    (a.strcpy t).str 0 = cstr t := by
  rw [str, List.drop_zero, toList_strcpy a t h, cstr_append_zero]

/-- A copied text puts none but its own bytes in front of the terminator, whether it fits or
not. -/
theorem mem_of_mem_str_strcpy {a : CharArray n} {t : Text} {b : Byte}
    (h : b ∈ (a.strcpy t).str 0) : b ∈ t := by
  by_cases ht : t.length < n
  · rw [str_strcpy a t ht] at h
    exact (List.takeWhile_sublist _).mem h
  · have hlist : (a.strcpy t).toList = t.take n := by
      apply List.ext_getElem
      · simp
        omega
      · intro i h₁ h₂
        simp only [Vector.length_toList] at h₁
        simp only [strcpy, Vector.getElem_toList, Vector.getElem_ofFn, List.getElem_take]
        rw [List.getElem?_append_left (by omega), List.getElem?_eq_getElem (by omega)]
        rfl
    rw [str, List.drop_zero, hlist] at h
    exact List.mem_of_mem_take ((List.takeWhile_sublist _).mem h)

/-- A load inside the array is its element. -/
theorem load_eq_getElem (a : CharArray n) {i : ℕ} (h : i < n) : a.load i = a[i] := by
  simp [load, h]

/-- A checked load inside the array succeeds. -/
theorem load?_eq (a : CharArray n) {i : ℕ} (h : i < n) : a.load? i = some (a.load i) := by
  rw [load?, load, List.getElem?_eq_getElem (by simpa using h)]
  rfl

/-- A stored byte is loaded again. -/
theorem load_store_self (a : CharArray n) {i : ℕ} (h : i < n) (b : Byte) :
    (a.store i b).load i = b := by
  simp [load, h]

/-- A string within the array is no longer than it. -/
theorem length_str_le (a : CharArray n) (i : ℕ) : (a.str i).length ≤ n := by
  refine le_trans (length_cstr_le _) ?_
  simp

/-- What lies behind the string is its terminator. -/
theorem load_length_str (a : CharArray n) (h : (a.str 0).length < n) :
    a.load (a.str 0).length = 0 := by
  have hlist : ∀ l : List Byte, (cstr l).length < l.length → l[(cstr l).length]?.getD 0 = 0 := by
    intro l
    induction l with
    | nil => exact fun hl => absurd hl (Nat.lt_irrefl 0)
    | cons b l ih =>
      intro hl
      rw [cstr_cons] at hl ⊢
      split
      · assumption
      · rename_i hb
        rw [if_neg hb] at hl
        exact ih (Nat.lt_of_succ_lt_succ hl)
  exact hlist a.toList (by simpa [str] using h)

/-- A store of what is there already. -/
theorem store_eq_self (a : CharArray n) {i : ℕ} (h : i < n) {b : Byte} (hb : a.load i = b) :
    a.store i b = a := by
  rw [load_eq_getElem a h] at hb
  apply Vector.toList_inj.1
  have hlen : i < a.toList.length := by simpa using h
  have hget : a[i] = a.toList[i] := by simp
  rw [toList_store, ← hb, hget, List.set_getElem_self]

/-- A terminator stored into the array cuts the string there. -/
theorem str_store_zero (a : CharArray n) {i : ℕ} (h : i < n) :
    (a.store i 0).str 0 = (a.str 0).take i := by
  have hlen : i < a.toList.length := by simpa using h
  rw [str, List.drop_zero, toList_store, List.set_eq_take_append_cons_drop, if_pos hlen,
    cstr_append_zero, cstr_take, str, List.drop_zero]

/-- Reading the string one byte at a time: the step of every scanning loop. -/
theorem str_eq_ite (a : CharArray n) {i : ℕ} (h : i < n) :
    a.str i = if a.load i = 0 then [] else a.load i :: a.str (i + 1) := by
  rw [str, List.drop_eq_getElem_cons (by simpa using h), cstr_cons, load_eq_getElem a h, str]
  simp

-- the definitions are worth unfolding for these lemmas only
attribute [irreducible] store strcpy

end CharArray

end Embedded
