import Mathlib.Data.List.Induction
import Mathlib.Data.Nat.Notation

/-!
# Runs of a machine

A machine is a step function on states that reads one input a step. `run` is the state
after a list of inputs, `outputs` is what the steps of a run put out, in order, and `Along`
says of a run that each of its steps meets a condition. An invariant of every step is one of
every run, and an invariant of the steps that meet a condition is one of every run along it.
-/

set_option autoImplicit false

namespace Embedded

variable {σ ι ω : Type} {step : σ → ι → σ}

/-- The state after the inputs `is`, read one after another. -/
def run (step : σ → ι → σ) (s : σ) (is : List ι) : σ := is.foldl step s

@[simp] theorem run_nil (s : σ) : run step s [] = s := rfl

/-- A run takes its first step first. -/
@[simp] theorem run_cons (s : σ) (i : ι) (is : List ι) :
    run step s (i :: is) = run step (step s i) is := rfl

/-- A run behind a run. -/
theorem run_append (s : σ) (is js : List ι) :
    run step s (is ++ js) = run step (run step s is) js := List.foldl_append

/-- A run with one more step at its end. -/
@[simp] theorem run_concat (s : σ) (is : List ι) (i : ι) :
    run step s (is ++ [i]) = step (run step s is) i := by
  rw [run_append, run_cons, run_nil]

/-- What the steps of a run put out. -/
def outputs (step : σ → ι → σ) (out : σ → ι → List ω) : σ → List ι → List ω
  | _, [] => []
  | s, i :: is => out s i ++ outputs step out (step s i) is

/-- The outputs of a run behind a run. -/
theorem outputs_append (out : σ → ι → List ω) (s : σ) (is js : List ι) :
    outputs step out s (is ++ js) =
      outputs step out s is ++ outputs step out (run step s is) js := by
  induction is generalizing s with
  | nil => rfl
  | cons i is ih => simp [outputs, ih]

/-- The outputs of a run with one more step at its end. -/
theorem outputs_concat (out : σ → ι → List ω) (s : σ) (is : List ι) (i : ι) :
    outputs step out s (is ++ [i]) = outputs step out s is ++ out (run step s is) i := by
  simp [outputs_append, outputs]

/-- What a run puts out, one of its steps puts out. -/
theorem mem_outputs {out : σ → ι → List ω} {s : σ} {is : List ι} {o : ω} :
    o ∈ outputs step out s is ↔
      ∃ pre i post, is = pre ++ i :: post ∧ o ∈ out (run step s pre) i := by
  induction is generalizing s with
  | nil => simp [outputs]
  | cons j is ih =>
    rw [outputs, List.mem_append, ih]
    constructor
    · rintro (ho | ⟨pre, i, post, rfl, ho⟩)
      · exact ⟨[], j, is, rfl, ho⟩
      · exact ⟨j :: pre, i, post, rfl, ho⟩
    · rintro ⟨pre, i, post, heq, ho⟩
      cases pre with
      | nil =>
        obtain ⟨rfl, rfl⟩ := List.cons.inj heq
        exact .inl ho
      | cons k pre =>
        obtain ⟨rfl, rfl⟩ := List.cons.inj heq
        exact .inr ⟨pre, i, post, rfl, ho⟩

/-- **Invariants.** What every step over the inputs of the run keeps, the run keeps. -/
theorem run_invariant {P : σ → Prop} {s : σ} (is : List ι) (h₀ : P s)
    (hstep : ∀ s, ∀ i ∈ is, P s → P (step s i)) : P (run step s is) := by
  induction is generalizing s with
  | nil => exact h₀
  | cons i is ih =>
    exact ih (hstep s i List.mem_cons_self h₀)
      fun s j hj => hstep s j (List.mem_cons_of_mem i hj)

/-- Every step of the run is taken from a state, and on an input, that `C` allows. -/
def Along (step : σ → ι → σ) (C : σ → ι → Prop) : σ → List ι → Prop
  | _, [] => True
  | s, i :: is => C s i ∧ Along step C (step s i) is

instance decidableAlong (C : σ → ι → Prop) [∀ s i, Decidable (C s i)] :
    ∀ s is, Decidable (Along step C s is)
  | _, [] => isTrue trivial
  | s, i :: is =>
    have := decidableAlong C (step s i) is
    inferInstanceAs (Decidable (C s i ∧ Along step C (step s i) is))

/-- A condition along a run behind a run. -/
theorem along_append (C : σ → ι → Prop) (s : σ) (is js : List ι) :
    Along step C s (is ++ js) ↔ Along step C s is ∧ Along step C (run step s is) js := by
  induction is generalizing s with
  | nil => simp [Along]
  | cons i is ih => simp [Along, ih, and_assoc]

/-- A condition along a run with one more step at its end. -/
theorem along_concat (C : σ → ι → Prop) (s : σ) (is : List ι) (i : ι) :
    Along step C s (is ++ [i]) ↔ Along step C s is ∧ C (run step s is) i := by
  simp [along_append, Along]

/-- A condition along a run, by the steps of the run. -/
theorem along_iff {C : σ → ι → Prop} {s : σ} {is : List ι} :
    Along step C s is ↔ ∀ pre i post, is = pre ++ i :: post → C (run step s pre) i := by
  induction is generalizing s with
  | nil =>
    refine iff_of_true trivial fun pre i post heq => ?_
    exact absurd heq (List.append_ne_nil_of_right_ne_nil pre (List.cons_ne_nil i post)).symm
  | cons j is ih =>
    rw [Along, ih]
    constructor
    · rintro ⟨hj, his⟩ pre i post heq
      cases pre with
      | nil =>
        obtain ⟨rfl, -⟩ := List.cons.inj heq
        exact hj
      | cons k pre =>
        rw [List.cons_append] at heq
        obtain ⟨rfl, htail⟩ := List.cons.inj heq
        exact his pre i post htail
    · intro h
      exact ⟨h [] j is rfl, fun pre i post heq => h (j :: pre) i post (congrArg (j :: ·) heq)⟩

/-- A condition that every step keeps up for the next one. -/
theorem along_of_invariant {C D : σ → ι → Prop} {P : σ → Prop} {s : σ} {is : List ι}
    (hC : Along step C s is) (h₀ : P s) (hD : ∀ s i, C s i → P s → D s i)
    (hstep : ∀ s i, C s i → P s → P (step s i)) : Along step D s is := by
  induction is generalizing s with
  | nil => trivial
  | cons i is ih => exact ⟨hD s i hC.1 h₀, ih hC.2 (hstep s i hC.1 h₀)⟩

/-- **Invariants under a condition.** What every allowed step keeps, an allowed run keeps. -/
theorem run_invariant_along {C : σ → ι → Prop} {P : σ → Prop} {s : σ} {is : List ι}
    (hC : Along step C s is) (h₀ : P s) (hstep : ∀ s i, C s i → P s → P (step s i)) :
    P (run step s is) := by
  induction is generalizing s with
  | nil => exact h₀
  | cons i is ih => exact ih hC.2 (hstep s i hC.1 h₀)

end Embedded
