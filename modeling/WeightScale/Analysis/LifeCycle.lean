import Mathlib.Data.List.Chain
import WeightScale.Interface.Runs

/-!
# The life cycle of a state

The callbacks a run calls are recorded by a table of callbacks that record themselves; what
any other table does is these callbacks, applied in turn. The law of the recorded trace is
that of a walk along permitted transitions. A request that is not permitted breaks it: the
current state is ended and entered again.
-/

set_option autoImplicit false

namespace WeightScale

open Embedded

/-- A transition is permitted if `state_trans` grants it and it leaves the state. -/
theorem permitted_iff {s t : LockState} :
    Permitted s t ↔ s ≠ t ∧ StateMachine.transTo s t = t := by
  constructor
  · intro h
    refine ⟨?_, transTo_of_permitted h⟩
    cases h <;> decide
  · rintro ⟨hne, htrans⟩
    by_contra hnot
    exact hne ((transTo_of_not_permitted hnot).symm.trans htrans)

instance (s t : LockState) : Decidable (Permitted s t) := decidable_of_iff _ permitted_iff.symm

/-- A call of a callback. -/
inductive Callback where
  | initFunc (state : LockState)
  | doFunc (state : LockState)
  | endFunc (state : LockState)
deriving DecidableEq

/-- What the program does with its state machine. -/
inductive StateOp where
  | setState (state : LockState)
  | stateMain
deriving DecidableEq

/-- A visit to a state, with the number of its `do` calls. -/
structure Visit where
  state : LockState
  dos : ℕ

/-- The callbacks of a visit but its `end`. -/
def Visit.callbacks (v : Visit) : List Callback :=
  .initFunc v.state :: List.replicate v.dos (.doFunc v.state)

/-- The visits that follow one to `s`: that one ends when the next begins. -/
def traceFrom (s : LockState) : List Visit → List Callback
  | [] => []
  | v :: vs => .endFunc s :: v.callbacks ++ traceFrom v.state vs

/-- The state of the last visit. -/
def lastState (vs : List Visit) : LockState := (vs.getLast?.map Visit.state).getD .init

/-- A trace of visits along permitted transitions, the first of them to INIT and without an
`init` call, the last of them to `s`. Each call of `state_main` is one `do` call. -/
def LifeCycle (t : List Callback) (calls : ℕ) (s : LockState) : Prop :=
  ∃ first vs, List.IsChain Permitted (.init :: vs.map Visit.state) ∧ (∀ v ∈ vs, 0 < v.dos) ∧
    t = List.replicate first (.doFunc .init) ++ traceFrom .init vs ∧
    first + (vs.map Visit.dos).sum = calls ∧ lastState vs = s

/-- The last visit is in the last state. -/
theorem lastState_concat (vs : List Visit) (v : Visit) : lastState (vs ++ [v]) = v.state := by
  simp [lastState]

/-- One more visit ends the state of the one before, then calls its own. -/
theorem traceFrom_concat (s : LockState) (vs : List Visit) (v : Visit) :
    traceFrom s (vs ++ [v]) =
      traceFrom s vs ++ .endFunc ((vs.getLast?.map Visit.state).getD s) :: v.callbacks := by
  induction vs generalizing s with
  | nil => simp [traceFrom]
  | cons u us ih =>
    rw [List.cons_append, traceFrom, ih, traceFrom, List.append_assoc]
    cases us with
    | nil => rfl
    | cons u' us => rfl

/-- Staying calls `do` once more. -/
theorem LifeCycle.stay {t : List Callback} {n : ℕ} {s : LockState} (h : LifeCycle t n s) :
    LifeCycle (t ++ [.doFunc s]) (n + 1) s := by
  obtain ⟨first, vs, hchain, hdos, rfl, rfl, rfl⟩ := h
  rcases List.eq_nil_or_concat' vs with rfl | ⟨us, v, rfl⟩
  · refine ⟨first + 1, [], hchain, hdos, ?_, by simp, rfl⟩
    rw [List.replicate_succ', traceFrom, List.append_nil, List.append_nil]
    rfl
  · -- one more `do` call of the last visit
    refine ⟨first, us ++ [⟨v.state, v.dos + 1⟩], ?_, ?_, ?_, ?_, ?_⟩
    · simpa using hchain
    · intro u hu
      rcases List.mem_append.1 hu with hu | hu
      · exact hdos u (List.mem_append_left _ hu)
      · rw [List.mem_singleton.1 hu]
        exact Nat.succ_pos _
    · rw [traceFrom_concat, traceFrom_concat, lastState_concat, Visit.callbacks, Visit.callbacks,
        List.replicate_succ']
      simp
    · simp
      omega
    · rw [lastState_concat, lastState_concat]

/-- A permitted transition ends the old state, then starts and does the new one. -/
theorem LifeCycle.move {t : List Callback} {n : ℕ} {s s' : LockState} (h : LifeCycle t n s)
    (hs : Permitted s s') :
    LifeCycle (t ++ [.endFunc s, .initFunc s', .doFunc s']) (n + 1) s' := by
  obtain ⟨first, vs, hchain, hdos, rfl, rfl, rfl⟩ := h
  refine ⟨first, vs ++ [⟨s', 1⟩], ?_, ?_, ?_, ?_, lastState_concat _ _⟩
  · rw [List.map_append, ← List.cons_append, List.isChain_append]
    refine ⟨hchain, List.isChain_singleton _, ?_⟩
    intro x hx y hy
    obtain rfl := Option.some.inj hy
    rw [List.getLast?_cons] at hx
    obtain rfl := Option.some.inj hx
    rw [List.getLast?_map]
    exact hs
  · intro u hu
    rcases List.mem_append.1 hu with hu | hu
    · exact hdos u hu
    · rw [List.mem_singleton.1 hu]
      exact Nat.one_pos
  · rw [traceFrom_concat, List.append_assoc]
    rfl
  · simp
    omega

namespace StateMachine

variable {W : Type} (f : LockState → StateFunc W)

/-- A callback called from the table `f`. -/
def invoke (w : W) : Callback → W
  | .initFunc s => callFunc (f s).initFunc w
  | .doFunc s => callFunc (f s).doFunc w
  | .endFunc s => callFunc (f s).endFunc w

/-- One call of the program to its state machine. -/
def op (p : StateMachine × W) : StateOp → StateMachine × W
  | .setState state => (p.1.setState state, p.2)
  | .stateMain => p.1.stateMain f p.2

/-- The table of the callbacks that record themselves. -/
def recording (s : LockState) : StateFunc (List Callback) :=
  ⟨some (· ++ [.initFunc s]), some (· ++ [.doFunc s]), some (· ++ [.endFunc s])⟩

/-- The callbacks that `state_main` calls. -/
def called (m : StateMachine) : List Callback := (m.stateMain recording []).2

/-- The state machine behind some operations. -/
def machine (ops : List StateOp) : StateMachine := (run (op recording) ({}, []) ops).1

/-- The callbacks called by a run from the start. -/
def trace (ops : List StateOp) : List Callback := (run (op recording) ({}, []) ops).2

/-- Where `state_main` leads from `m`. -/
def current (m : StateMachine) : LockState :=
  if m.oldState ≠ m.gState then transTo m.oldState m.gState else m.nextState

/-- `state_main` ends in the current state and makes the calls of `called`. -/
theorem stateMain_eq (m : StateMachine) (w : W) :
    m.stateMain f w = (⟨m.gState, m.current, m.current⟩, m.called.foldl (invoke f) w) := by
  unfold called stateMain stateTrans current
  by_cases h : m.oldState = m.gState
  · simp only [h, ne_eq, not_true_eq_false, if_false]
    rfl
  · simp only [h, ne_eq, not_false_eq_true, if_true]
    rfl

/-- What `state_main` calls depends on whether another state is requested. -/
theorem called_eq (m : StateMachine) :
    m.called =
      if m.oldState ≠ m.gState then
        [.endFunc m.oldState, .initFunc m.current, .doFunc m.current]
      else [.doFunc m.current] := by
  unfold called stateMain stateTrans current
  by_cases h : m.oldState = m.gState
  · simp only [h, ne_eq, not_true_eq_false, if_false]
    rfl
  · simp only [h, ne_eq, not_false_eq_true, if_true]
    rfl

/-- The recording callbacks note every call. -/
theorem foldl_invoke_recording (cs t : List Callback) :
    cs.foldl (invoke recording) t = t ++ cs := by
  induction cs generalizing t with
  | nil => rw [List.foldl_nil, List.append_nil]
  | cons c cs ih =>
    rw [List.foldl_cons, ih]
    cases c <;> exact List.append_assoc t [_] cs

/-- `state_main` takes over the current state. -/
theorem machine_concat_stateMain (ops : List StateOp) :
    machine (ops ++ [.stateMain]) =
      ⟨(machine ops).gState, (machine ops).current, (machine ops).current⟩ := by
  rw [machine, run_concat, op, stateMain_eq]
  rfl

/-- `state_main` adds what it calls to the trace. -/
theorem trace_concat_stateMain (ops : List StateOp) :
    trace (ops ++ [.stateMain]) = trace ops ++ (machine ops).called := by
  rw [trace, run_concat, op, stateMain_eq, foldl_invoke_recording]
  rfl

/-- `set_state` only sets the request. -/
theorem machine_concat_setState (ops : List StateOp) (s : LockState) :
    machine (ops ++ [.setState s]) = (machine ops).setState s := by
  rw [machine, run_concat]
  rfl

/-- `set_state` calls nothing. -/
theorem trace_concat_setState (ops : List StateOp) (s : LockState) :
    trace (ops ++ [.setState s]) = trace ops := by
  rw [trace, run_concat]
  rfl

/-- **Any table** sees the callbacks of the trace, in this order. -/
theorem run_op (w : W) (ops : List StateOp) :
    run (op f) ({}, w) ops = (machine ops, (trace ops).foldl (invoke f) w) := by
  induction ops using List.reverseRecOn with
  | nil => rfl
  | append_singleton ops o ih =>
    rw [run_concat, ih]
    cases o with
    | setState s => rw [machine_concat_setState, trace_concat_setState]; rfl
    | stateMain =>
      rw [machine_concat_stateMain, trace_concat_stateMain, List.foldl_append, op, stateMain_eq]

/-- Between calls the next state is the old one. -/
theorem nextState_machine (ops : List StateOp) :
    (machine ops).nextState = (machine ops).oldState := by
  induction ops using List.reverseRecOn with
  | nil => rfl
  | append_singleton ops o ih =>
    cases o with
    | setState s => rw [machine_concat_setState]; exact ih
    | stateMain => rw [machine_concat_stateMain]

/-- The requested state is the current one or permitted from it. -/
def Accepted (p : StateMachine × W) (o : StateOp) : Prop :=
  o = .stateMain → p.1.oldState = p.1.gState ∨ Permitted p.1.oldState p.1.gState

instance (p : StateMachine × W) (o : StateOp) : Decidable (Accepted p o) :=
  inferInstanceAs (Decidable (_ → _))

/-- A request that is accepted becomes the current state. -/
theorem current_of_accepted {ops : List StateOp}
    (h : (machine ops).oldState = (machine ops).gState ∨
      Permitted (machine ops).oldState (machine ops).gState) :
    (machine ops).current = (machine ops).gState := by
  have hnext := nextState_machine ops
  unfold current
  rcases h with h | h
  · rw [if_neg (not_not.2 h), hnext, h]
  · rw [if_pos (permitted_iff.1 h).1, transTo_of_permitted h]

/-- What the trace of a run is to be like: visits along permitted transitions; a refused
request without effect; and `get_state` the state whose `do` callback ran last. -/
structure Orderly (ops : List StateOp) : Prop where
  lifeCycle : LifeCycle (trace ops) (ops.count .stateMain) (machine ops).oldState
  inert : ∀ pre post, ops = pre ++ .stateMain :: post →
    (machine pre).oldState ≠ (machine pre).gState →
    ¬ Permitted (machine pre).oldState (machine pre).gState →
    (machine pre).called = [.doFunc (machine pre).oldState]
  state : ∀ pre post, ops = pre ++ .stateMain :: post →
    (machine pre).called.getLast? = some (.doFunc (machine (pre ++ [.stateMain])).getState)

/-- A run whose requests are all accepted has an orderly trace. -/
theorem lifeCycle_of_accepted {ops : List StateOp}
    (h : Along (op recording) Accepted ({}, []) ops) :
    LifeCycle (trace ops) (ops.count .stateMain) (machine ops).oldState := by
  induction ops using List.reverseRecOn with
  | nil => exact ⟨0, [], List.isChain_singleton _, by simp, rfl, rfl, rfl⟩
  | append_singleton ops o ih =>
    rw [along_concat] at h
    have hops := ih h.1
    cases o with
    | setState s =>
      rw [machine_concat_setState, trace_concat_setState, List.count_append]
      exact hops
    | stateMain =>
      have hacc : (machine ops).oldState = (machine ops).gState ∨
        Permitted (machine ops).oldState (machine ops).gState := h.2 rfl
      have hcur := current_of_accepted hacc
      rw [machine_concat_stateMain, trace_concat_stateMain, called_eq, List.count_append, hcur]
      by_cases hsame : (machine ops).oldState = (machine ops).gState
      · rw [if_neg (not_not.2 hsame), ← hsame]
        exact hops.stay
      · rw [if_pos hsame]
        exact hops.move (hacc.resolve_left hsame)

/-- **The life cycle of the states**, for every table of callbacks and every sequence of
calls: the table's callbacks are called as the trace has them, and the trace is orderly if
and only if no `state_main` meets a request that is refused. -/
theorem orderly_iff {W : Type} (f : LockState → StateFunc W) (w : W) (ops : List StateOp) :
    run (op f) ({}, w) ops = (machine ops, (trace ops).foldl (invoke f) w) ∧
      (Orderly ops ↔ Along (op recording) Accepted ({}, []) ops) := by
  refine ⟨run_op f w ops, ?_⟩
  constructor
  · intro h
    rw [along_iff]
    rintro pre o post heq rfl
    by_contra hrefused
    rw [not_or] at hrefused
    have hne : (machine pre).oldState ≠ (machine pre).gState := hrefused.1
    have hinert := h.inert pre post heq hne hrefused.2
    rw [called_eq, if_pos hne] at hinert
    exact absurd (congrArg List.length hinert) (by decide : ¬ (3 : ℕ) = 1)
  · intro h
    have hsteps := along_iff.1 h
    refine ⟨lifeCycle_of_accepted h, ?_, ?_⟩
    · intro pre post heq hne hnot
      rcases hsteps pre .stateMain post heq rfl with hsame | hperm
      · exact absurd hsame hne
      · exact absurd hperm hnot
    · intro pre post heq
      have hcur := current_of_accepted (hsteps pre .stateMain post heq rfl)
      rw [machine_concat_stateMain, called_eq, getState, hcur]
      split <;> rfl

/-- Locking, staying and unlocking: an orderly trace. -/
theorem orderly_lock_unlock : Orderly
    [.setState .locked, .stateMain, .stateMain, .setState .unlocked, .stateMain] :=
  (orderly_iff recording [] _).2.2 (by decide)

/-- SETTING is requested in LOCKED: LOCKED is ended and entered again, and `get_state` says
SETTING. -/
theorem not_orderly_refused :
    let pre : List StateOp := [.setState .locked, .stateMain, .setState .setting]
    ((machine pre).oldState = .locked ∧ (machine pre).gState = .setting ∧
        ¬ Permitted .locked .setting) ∧
      (machine pre).called = [.endFunc .locked, .initFunc .locked, .doFunc .locked] ∧
      (machine (pre ++ [.stateMain])).getState = .setting := by
  decide

end StateMachine

end WeightScale
