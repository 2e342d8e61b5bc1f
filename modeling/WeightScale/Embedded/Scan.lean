import WeightScale.Embedded.CString

/-!
# Loops over a text

A parser reads a text char by char. Its step sees the state, the offset and the char, and
either goes on or stops the loop, which then keeps the state it had. `scan` is the loop;
`Reads` says that the loop gets over a text whatever lies behind it, so that what a text is
made of can be read piece by piece.
-/

set_option autoImplicit false

namespace Embedded

/-- What holds of each of the 256 chars holds of every char. -/
theorem forall_byte {P : Byte → Prop} (h : ∀ n : Fin 256, P (UInt8.ofNat n.val)) (b : Byte) :
    P b := by
  have hb := h ⟨b.toNat, b.toNat_lt⟩
  rwa [UInt8.ofNat_toNat] at hb

variable {σ : Type} {step : σ → ℕ → Byte → Option σ}

/-- The loop, from the offset `i` on, and whether it got to the end of the text. -/
def scan (step : σ → ℕ → Byte → Option σ) : σ → ℕ → Text → Bool × σ
  | s, _, [] => (true, s)
  | s, i, ch :: l =>
    match step s i ch with
    | none => (false, s)
    | some s' => scan step s' (i + 1) l

/-- **Invariants.** What each step keeps holds where the loop ends or stops. -/
theorem scan_invariant {P : ℕ → σ → Prop} (hmono : ∀ i s, P i s → P (i + 1) s)
    (hstep : ∀ i s ch s', P i s → step s i ch = some s' → P (i + 1) s') {s : σ} {i : ℕ}
    (h : P i s) (l : Text) : P (i + l.length) (scan step s i l).2 := by
  induction l generalizing s i with
  | nil => exact h
  | cons ch l ih =>
    rw [List.length_cons, Nat.add_comm l.length, ← Nat.add_assoc, scan]
    cases hs : step s i ch with
    | none =>
      have hstay (n : ℕ) : P (i + n) s := by
        induction n with
        | zero => exact h
        | succ n ihn => exact hmono _ s ihn
      rw [Nat.add_assoc]
      exact hstay _
    | some s' => exact ih (hstep i s ch s' h hs)

/-- The loop gets from `s` over the text `l` to `s'`. -/
def Reads (step : σ → ℕ → Byte → Option σ) (s : σ) (i : ℕ) (l : Text) (s' : σ) : Prop :=
  ∀ rest, scan step s i (l ++ rest) = scan step s' (i + l.length) rest

namespace Reads

variable {s s' s'' : σ} {i : ℕ} {l m : Text}

/-- Nothing is read without moving. -/
theorem nil : Reads step s i [] s := fun _ => rfl

/-- A char, then the rest. -/
theorem cons {ch : Byte} (hstep : step s i ch = some s') (h : Reads step s' (i + 1) l s'') :
    Reads step s i (ch :: l) s'' := by
  intro rest
  rw [List.cons_append, scan, hstep, List.length_cons, Nat.add_comm l.length, ← Nat.add_assoc]
  exact h rest

/-- One char is read by one step. -/
theorem single {ch : Byte} (hstep : step s i ch = some s') : Reads step s i [ch] s' :=
  cons hstep nil

/-- Two texts are read one behind the other. -/
theorem append (h : Reads step s i l s') (h' : Reads step s' (i + l.length) m s'') :
    Reads step s i (l ++ m) s'' := by
  intro rest
  rw [List.append_assoc, h, h', List.length_append, Nat.add_assoc]

/-- A text all of whose chars take each of the states `f` to the one behind it. -/
theorem chunk {f : ℕ → σ} (h : ∀ k, ∀ ch ∈ l, step (f k) (i + k) ch = some (f (k + 1))) :
    Reads step (f 0) i l (f l.length) := by
  induction l generalizing i f with
  | nil => exact nil
  | cons ch l ih =>
    refine cons (h 0 ch List.mem_cons_self) (ih (f := fun k => f (k + 1)) ?_)
    intro k ch' hch'
    rw [Nat.add_assoc, Nat.add_comm 1 k]
    exact h (k + 1) ch' (List.mem_cons_of_mem ch hch')

/-- A text that is read is accepted by the scan. -/
theorem scan_eq (h : Reads step s i l s') : scan step s i l = (true, s') := by
  have := h []
  rwa [List.append_nil] at this

end Reads

end Embedded
