import Mathlib.Data.List.Infix
import WeightScale.Analysis.Pulses
import WeightScale.Model.WeightQueue

/-!
# The receiver between its steps

A handler whose statements run without an interruption is the function of `Weight.cpp`, and
whatever falls between its statements leaves the frame and the attached handlers alone. So a
run is followed statement by statement: `Recorded` says what the frame is at any time, and
`Point` what holds before each statement of a handler. A receiver that runs every handler at
once is the capture.
-/

set_option autoImplicit false

namespace WeightScale

open Embedded

/-- The function of a handler. -/
def Handler.call : Handler → Capture → Capture
  | .rise => Capture.rise
  | .fall => Capture.fall
  | .timeout => Capture.timeout
  | .restart => Capture.restart

/-- What `record` does with the width on the timer. -/
theorem Capture.record_eq (c : Capture) :
    c.record =
      let width := c.t.time + c.t.slicetime c.now
      { c with
        bh := if c.cnt < 32 then c.bh ||| (bitOf width <<< (31 - c.cnt)) else c.bh
        bl := if c.cnt < 32 then c.bl
          else if c.cnt < 64 then c.bl ||| (bitOf width <<< (63 - c.cnt)) else c.bl
        cnt := c.cnt + 1 } := by
  unfold record Timer.readUs
  dsimp only
  rw [bitOf_eq, record_bit]

/-- `fall` stops the timer, attaches the timeout and records. -/
theorem Capture.fall_eq_record (c : Capture) :
    c.fall =
      { { c with onFall := false, t2 := some (c.now + timeoutUs), t := c.t.stop c.now }.record with
        onRise := true } := by
  have hstop : (c.t.stop c.now).time + (c.t.stop c.now).slicetime c.now =
      c.t.time + c.t.slicetime c.now := rfl
  rw [record_eq, fall_eq c rfl]
  dsimp only
  rw [hstop]
  rfl

namespace Capture

/-- The timers that are attached expire later than now. -/
structure Ahead (c : Capture) : Prop where
  t2 : ∀ e, c.t2 = some e → c.now < e
  t3 : ∀ e, c.t3 = some e → c.now < e

/-- `timeout` attaches `t3` for later or leaves it alone, and `t2` it leaves alone. -/
theorem frame_timeout (c : Capture) :
    (c.timeout.t3 = c.t3 ∨ c.timeout.t3 = some (c.now + restartUs)) ∧ c.timeout.t2 = c.t2 ∧
      c.timeout.now = c.now := by
  unfold timeout eee
  dsimp only
  split
  · split
    · exact ⟨.inr rfl, rfl, rfl⟩
    · exact ⟨.inl rfl, rfl, rfl⟩
  · exact ⟨.inl rfl, rfl, rfl⟩

/-- When both timers expire at one time their order does not matter: `timeout` attaches `rise`
as well, or puts the expiry of `t3` off. -/
theorem restart_timeout (c : Capture) :
    (if c.timeout.t3 = some c.timeout.now then restart { c.timeout with t3 := none }
      else c.timeout) =
      if c.t3 = some c.now then (restart { c with t3 := none }).timeout else c.timeout := by
  have hpos : restartUs ≠ 0 := by decide
  by_cases h3 : c.t3 = some c.now
  · rw [if_pos h3]
    unfold timeout eee
    dsimp only
    by_cases h39 : c.cnt = 39
    · by_cases hst : stableBits c.bh = 3
      · simp [h39, hst, restart, hpos]
      · simp [h39, hst, restart, h3]
    · simp [h39, restart, h3]
  · rw [if_neg h3, if_neg]
    obtain ⟨h | h, -, hnow⟩ := frame_timeout c
    · rw [h, hnow]
      exact h3
    · rw [h, hnow]
      intro heq
      have := Option.some.inj heq
      omega

/-- One microsecond, by the timers that expire with it. -/
theorem tick_eq (c : Capture) :
    c.tick =
      let c' := { c with now := c.now + 1 }
      if c.t2 = some c'.now then
        if c.t3 = some c'.now then (restart { c' with t2 := none, t3 := none }).timeout
        else timeout { c' with t2 := none }
      else if c.t3 = some c'.now then restart { c' with t3 := none }
      else c' := by
  unfold tick
  dsimp only
  by_cases h2 : c.t2 = some (c.now + 1)
  · simp only [h2, if_true]
    exact restart_timeout { c with now := c.now + 1, t2 := none }
  · simp only [h2, if_false]

/-- Behind `weight_init` no timeout is overdue. -/
theorem ahead_weightInit : weightInit.Ahead := by
  constructor
  · intro e he
    exact absurd (show none = some e from he) nofun
  · intro e he
    exact absurd (show none = some e from he) nofun

/-- The timers stay ahead. -/
theorem Ahead.tick {c : Capture} (h : c.Ahead) : c.tick.Ahead := by
  have hkeep {c' : Capture} (hnow : c'.now = c.now + 1)
      (h2 : c'.t2 = none ∨ c'.t2 = c.t2 ∧ c.t2 ≠ some (c.now + 1))
      (h3 : c'.t3 = none ∨ c'.t3 = some (c'.now + restartUs) ∨
        c'.t3 = c.t3 ∧ c.t3 ≠ some (c.now + 1)) : c'.Ahead := by
    constructor
    · intro e he
      rcases h2 with h2 | ⟨h2, hne⟩
      · rw [h2] at he
        cases he
      · rw [h2] at he
        have := h.t2 e he
        have : e ≠ c.now + 1 := fun heq => hne (heq ▸ he)
        omega
    · intro e he
      rcases h3 with h3 | h3 | ⟨h3, hne⟩
      · rw [h3] at he
        cases he
      · rw [h3] at he
        obtain rfl := Option.some.inj he
        exact Nat.lt_add_of_pos_right (by decide)
      · rw [h3] at he
        have := h.t3 e he
        have : e ≠ c.now + 1 := fun heq => hne (heq ▸ he)
        omega
  rw [tick_eq]
  dsimp only
  split
  · split
    · obtain ⟨h3, h2, hnow⟩ :=
        frame_timeout (restart { c with now := c.now + 1, t2 := none, t3 := none })
      refine hkeep hnow (.inl h2) ?_
      rcases h3 with h3 | h3
      · exact .inl h3
      · exact .inr (.inl (by rw [h3, hnow]))
    · rename_i hne
      obtain ⟨h3, h2, hnow⟩ := frame_timeout { c with now := c.now + 1, t2 := none }
      refine hkeep hnow (.inl h2) ?_
      rcases h3 with h3 | h3
      · exact .inr (.inr ⟨h3, hne⟩)
      · exact .inr (.inl (by rw [h3, hnow]))
  · rename_i hne
    split
    · exact hkeep rfl (.inr ⟨rfl, hne⟩) (.inl rfl)
    · rename_i hne'
      exact hkeep rfl (.inr ⟨rfl, hne⟩) (.inr (.inr ⟨rfl, hne'⟩))

/-- The handlers of an edge leave the timers ahead. -/
theorem Ahead.edge {c : Capture} (h : c.Ahead) :
    (c.signal .rise).Ahead ∧ (c.signal .fall).Ahead := by
  constructor
  · rw [signal]
    split
    · exact ⟨h.t2, h.t3⟩
    · exact h
  · rw [signal]
    split
    · have hfall : c.fall.t2 = some (c.now + timeoutUs) ∧ c.fall.t3 = c.t3 ∧ c.fall.now = c.now := by
        rw [fall_eq_record, record_eq]
        exact ⟨rfl, rfl, rfl⟩
      obtain ⟨h2, h3, hnow⟩ := hfall
      constructor
      · intro e he
        rw [h2] at he
        obtain rfl := Option.some.inj he
        rw [hnow]
        exact Nat.lt_add_of_pos_right (by decide)
      · rw [h3, hnow]
        exact h.t3
    · exact h

end Capture

namespace Receiver

variable {r : Receiver}

/-- A handler under way runs its next statement. -/
theorem exec_cons {s : Stmt} {rest : List Stmt} (h : r.running = s :: rest) :
    r.exec = { r with running := rest }.stmt s := by
  rw [exec, h]

/-- Between handlers the first one posted is dispatched. -/
theorem exec_nil {e : Posted} {queue : List Posted} (h : r.running = []) (hq : r.queue = e :: queue) :
    r.exec = { r with queue := queue, current := e, running := e.handler.body } := by
  rw [exec, h, hq]

/-- With nothing posted the thread waits. -/
theorem exec_idle (h : r.running = []) (hq : r.queue = []) : r.exec = r := by
  rw [exec, h, hq]

/-- With nothing posted the thread goes on waiting. -/
theorem run_idle (n : ℕ) (h : r.running = []) (hq : r.queue = []) :
    run step r (List.replicate n .exec) = r := by
  induction n with
  | zero => rfl
  | succ n ih => rw [List.replicate_succ, run_cons, step, exec_idle h hq, ih]

/-! ## Uninterrupted handlers -/

/-- A stable frame ends the listening and attaches the restart. -/
theorem eee_stable {bh : UInt32} (h : Capture.stableBits bh = 3) (bl : UInt32) (c : Capture) :
    c.eee bh bl =
      { c with
        onRise := false
        onFall := false
        t3 := some (c.now + restartUs)
        frames := c.frames ++ [(bh, bl)]
        io := (c.eee bh bl).io } := by
  unfold Capture.eee
  simp only [h, if_true]

/-- Any other frame is only passed on. -/
theorem eee_unstable {bh : UInt32} (h : Capture.stableBits bh ≠ 3) (bl : UInt32) (c : Capture) :
    c.eee bh bl = { c with frames := c.frames ++ [(bh, bl)], io := (c.eee bh bl).io } := by
  unfold Capture.eee
  simp only [h, if_false]

/-- What `eee` prints depends on the frame alone. -/
theorem io_eee (bh bl : UInt32) {c c' : Capture} (h : c.io = c'.io) :
    (c.eee bh bl).io = (c'.eee bh bl).io := by
  unfold Capture.eee
  by_cases hst : Capture.stableBits bh = 3
  · simp only [hst, if_true, h]
  · simp only [hst, if_false, h]

/-- The last statement of `eee`. -/
theorem exec_print {bh bl : UInt32} (h : r.running = [.print bh bl]) {c : Capture}
    (hc : c.io = r.capture.io) :
    r.exec = { r with capture := { r.capture with io := (c.eee bh bl).io }, running := [] } := by
  rw [exec_cons h, stmt, onCapture, io_eee bh bl hc]

/-- The statements of `eee` behind the call. -/
theorem run_eeeBody {bh bl : UInt32} {c : Capture} (h : r.running = eeeBody bh bl) (hq : r.queue = [])
    (hc : r.capture = { c with frames := c.frames ++ [(bh, bl)] }) :
    (run step r (List.replicate 4 .exec)).capture = c.eee bh bl ∧
      (run step r (List.replicate 4 .exec)).running = [] := by
  by_cases hst : Capture.stableBits bh = 3
  · have hbody : r.running = [.riseNull, .fallNull, .attachRestart, .print bh bl] := by
      rw [h, eeeBody, if_pos hst]
      rfl
    have hdetached : run step r (List.replicate 3 .exec) =
        { r with
          capture := { r.capture with
            onRise := false, onFall := false, t3 := some (r.capture.now + restartUs) }
          running := [.print bh bl] } := by
      show ((r.exec).exec).exec = _
      rw [exec_cons hbody]
      rfl
    rw [List.replicate_succ', run_append, hdetached, run_cons, run_nil, step,
      exec_print rfl (c := c) (by rw [hc]), eee_stable hst, hc]
    exact ⟨rfl, rfl⟩
  · have hbody : r.running = [.print bh bl] := by
      rw [h, eeeBody, if_neg hst]
      rfl
    have hprinted := exec_print hbody (c := c) (by rw [hc])
    have hidle := run_idle (r := r.exec) 3 (by rw [hprinted]) (by rw [hprinted, hq])
    rw [List.replicate_succ, run_cons, step, hidle, hprinted, eee_unstable hst, hc]
    exact ⟨rfl, rfl⟩

/-- **A handler that is not interrupted is the function of `Weight.cpp`.** -/
theorem run_handler (e : Posted) (h : r.running = []) (hq : r.queue = [e]) :
    (run step r (List.replicate 10 .exec)).capture = e.handler.call r.capture ∧
      (run step r (List.replicate 10 .exec)).running = [] := by
  obtain ⟨c, level, edgeAt, pulses, queue, current, running, recorded, taken⟩ := r
  dsimp only at h hq
  subst h hq
  obtain ⟨handler, time, width⟩ := e
  have hsplit : ∀ m n, m + n = 10 →
      List.replicate 10 Step.exec = List.replicate m .exec ++ List.replicate n .exec :=
    fun m n h => by rw [← h, List.replicate_add]
  cases handler with
  | rise =>
    rw [hsplit 5 5 rfl, run_append, run_idle 5 rfl rfl]
    exact ⟨rfl, rfl⟩
  | fall =>
    rw [hsplit 6 4 rfl, run_append, run_idle 4 rfl rfl, Handler.call, Capture.fall_eq_record]
    exact ⟨rfl, rfl⟩
  | restart =>
    rw [hsplit 2 8 rfl, run_append, run_idle 8 rfl rfl]
    exact ⟨rfl, rfl⟩
  | timeout =>
    have hcheck : run step ⟨c, level, edgeAt, pulses, [⟨.timeout, time, width⟩], current, [],
        recorded, taken⟩ (List.replicate 5 .exec) =
      ⟨{ c with onRise := true, onFall := false, bh := 0, bl := 0, cnt := 0 }, level, edgeAt,
        pulses, [], ⟨.timeout, time, width⟩, [.check c.bh c.bl c.cnt], [], recorded⟩ := rfl
    rw [hsplit 5 5 rfl, run_append, hcheck, List.replicate_succ, run_cons]
    show _ = c.timeout ∧ _
    generalize hcleared : ({ c with onRise := true, onFall := false, bh := 0, bl := 0, cnt := 0 } :
      Capture) = c'
    have htimeout : c.timeout = if c.cnt = 39 then c'.eee c.bh c.bl else c' := by
      rw [← hcleared]
      rfl
    rw [htimeout, step, exec_cons rfl, stmt]
    by_cases h39 : c.cnt = 39
    · rw [if_pos h39, if_pos h39]
      exact run_eeeBody (List.append_nil _) rfl rfl
    · rw [if_neg h39, if_neg h39, run_idle 4 rfl rfl]
      exact ⟨rfl, rfl⟩

/-! ## Handlers that run at once -/

/-- Nothing is posted and nothing is running. -/
structure CaughtUp (r : Receiver) : Prop where
  running : r.running = []
  queue : r.queue = []

/-- A statement posts nothing. -/
theorem frame_stmt (r : Receiver) (s : Stmt) :
    (r.stmt s).queue = r.queue ∧ (r.stmt s).level = r.level := by
  cases s with
  | check bh bl cnt =>
    rw [stmt]
    split <;> exact ⟨rfl, rfl⟩
  | _ => exact ⟨rfl, rfl⟩

/-- The thread takes its events from the front of the queue and leaves the pin alone. -/
theorem frame_exec (r : Receiver) :
    (r.exec.queue = r.queue ∨ r.exec.queue = r.queue.tail) ∧ r.exec.level = r.level := by
  rw [exec]
  split
  · rename_i s rest hr
    have h := frame_stmt { r with running := rest } s
    exact ⟨.inl h.1, h.2⟩
  · split
    · rename_i hq
      exact ⟨.inr (by rw [hq]; rfl), rfl⟩
    · exact ⟨.inl rfl, rfl⟩

/-- The thread alone posts nothing and moves no pin. -/
theorem frame_execs (n : ℕ) (hq : r.queue = []) :
    (run step r (List.replicate n .exec)).queue = [] ∧
      (run step r (List.replicate n .exec)).level = r.level := by
  induction n generalizing r with
  | zero => exact ⟨hq, rfl⟩
  | succ n ih =>
    obtain ⟨hqueue, hlevel⟩ := frame_exec r
    have hempty : r.exec.queue = [] := by
      rw [hq] at hqueue
      exact hqueue.elim id id
    obtain ⟨h, h'⟩ := ih hempty
    exact ⟨h, h'.trans hlevel⟩

/-- A single event is dispatched and its handler runs to its end. -/
theorem run_single {e : Posted} (h : r.running = []) (hq : r.queue = [e]) :
    (run step r (List.replicate 10 .exec)).CaughtUp ∧
      (run step r (List.replicate 10 .exec)).capture = e.handler.call r.capture ∧
      (run step r (List.replicate 10 .exec)).level = r.level := by
  obtain ⟨hcapture, hrunning⟩ := run_handler e h hq
  have hexec := exec_nil h hq
  obtain ⟨hqueue, hlevel⟩ := frame_execs 9 (r := r.exec) (by rw [hexec])
  have hsucc : run step r (List.replicate 10 .exec) = run step r.exec (List.replicate 9 .exec) := rfl
  refine ⟨⟨hrunning, ?_⟩, hcapture, ?_⟩
  · rw [hsucc, hqueue]
  · rw [hsucc, hlevel, hexec]

/-- A receiver that has caught up has nothing to do. -/
theorem CaughtUp.run_idle (h : r.CaughtUp) (n : ℕ) : run step r (List.replicate n .exec) = r :=
  Receiver.run_idle n h.running h.queue

/-- An edge whose handler runs at once is the signal of the capture. -/
theorem CaughtUp.edge (h : r.CaughtUp) :
    let r' := run step r (.edge :: List.replicate 10 .exec)
    r'.CaughtUp ∧ r'.capture = r.capture.signal (if r.level then .fall else .rise) ∧
      r'.level = !r.level := by
  have hpost (r' : Receiver) (e : Posted) (h' : r'.CaughtUp) :
      let r'' := run step (r'.post e) (List.replicate 10 .exec)
      r''.CaughtUp ∧ r''.capture = e.handler.call r'.capture ∧ r''.level = r'.level := by
    have hone : (r'.post e).queue = [e] := by rw [post, h'.queue, List.nil_append]
    exact run_single (r := r'.post e) h'.running hone
  have hlost (r' : Receiver) (h' : r'.CaughtUp) :
      let r'' := run step r' (List.replicate 10 .exec)
      r''.CaughtUp ∧ r''.capture = r'.capture ∧ r''.level = r'.level := by
    rw [h'.run_idle]
    exact ⟨h', rfl, rfl⟩
  rw [run_cons, step, Receiver.edge]
  dsimp only
  cases r.level with
  | false =>
    simp only [Bool.false_eq_true, if_false, Capture.signal, Bool.not_false]
    split
    · exact hpost _ _ ⟨h.running, h.queue⟩
    · exact hlost _ ⟨h.running, h.queue⟩
  | true =>
    simp only [if_true, Capture.signal, Bool.not_true]
    split
    · exact hpost _ _ ⟨h.running, h.queue⟩
    · exact hlost _ ⟨h.running, h.queue⟩

/-- Where `t2` is not overdue, it expires exactly at its time. -/
theorem expireT2_eq {limit : ℕ} (h : ∀ e, r.capture.t2 = some e → limit ≤ e) :
    r.expireT2 limit =
      { r with
        capture := { r.capture with
          t2 := if r.capture.t2 = some limit then none else r.capture.t2 }
        queue := r.queue ++ if r.capture.t2 = some limit then [⟨.timeout, limit, 0⟩] else [] } := by
  by_cases hdue : r.capture.t2 = some limit
  · simp [expireT2, hdue, onCapture, post]
  · rw [if_neg hdue, if_neg hdue, List.append_nil, expireT2]
    split
    · rename_i e h2
      rw [if_neg]
      exact fun hle => hdue (h2.trans (congrArg some (Nat.le_antisymm hle (h e h2))))
    · rfl

/-- Where `t3` is not overdue, it expires exactly at its time. -/
theorem expireT3_eq {limit : ℕ} (h : ∀ e, r.capture.t3 = some e → limit ≤ e) :
    r.expireT3 limit =
      { r with
        capture := { r.capture with
          t3 := if r.capture.t3 = some limit then none else r.capture.t3 }
        queue := r.queue ++ if r.capture.t3 = some limit then [⟨.restart, limit, 0⟩] else [] } := by
  by_cases hdue : r.capture.t3 = some limit
  · simp [expireT3, hdue, onCapture, post]
  · rw [if_neg hdue, if_neg hdue, List.append_nil, expireT3]
    split
    · rename_i e h3
      rw [if_neg]
      exact fun hle => hdue (h3.trans (congrArg some (Nat.le_antisymm hle (h e h3))))
    · rfl

/-- One microsecond: the timers that expire with it post, `t3` first. -/
theorem wait_one (h : r.capture.Ahead) :
    r.wait 1 =
      let now := r.capture.now + 1
      { r with
        capture := { r.capture with
          now := now
          t2 := if r.capture.t2 = some now then none else r.capture.t2
          t3 := if r.capture.t3 = some now then none else r.capture.t3 }
        queue := r.queue ++ ((if r.capture.t3 = some now then [⟨.restart, now, 0⟩] else []) ++
          if r.capture.t2 = some now then [⟨.timeout, now, 0⟩] else []) } := by
  rw [wait]
  dsimp only
  split
  · have h2 : ∀ e, (r.expireT3 (r.capture.now + 1)).capture.t2 = some e → r.capture.now + 1 ≤ e := by
      rw [expireT3_eq h.t3]
      exact h.t2
    rw [expireT2_eq h2, expireT3_eq h.t3, onCapture, List.append_assoc]
  · rename_i hfirst
    have h3 : ∀ e, (r.expireT2 (r.capture.now + 1)).capture.t3 = some e → r.capture.now + 1 ≤ e := by
      rw [expireT2_eq h.t2]
      exact h.t3
    -- two timers that expire together would have `t3` first
    have hone : ¬ (r.capture.t2 = some (r.capture.now + 1) ∧
        r.capture.t3 = some (r.capture.now + 1)) := by
      rintro ⟨h2, h3⟩
      simp [t3First, h2, h3] at hfirst
    rw [expireT3_eq h3, expireT2_eq h.t2, onCapture, List.append_assoc]
    by_cases h2 : r.capture.t2 = some (r.capture.now + 1)
    · have h3' : ¬ r.capture.t3 = some (r.capture.now + 1) := fun h3 => hone ⟨h2, h3⟩
      simp only [h2, h3', if_true, if_false, List.append_nil, List.nil_append]
    · simp only [h2, if_false, List.append_nil, List.nil_append]

/-- One microsecond whose handlers run at once is that of the capture. -/
theorem CaughtUp.tick (h : r.CaughtUp) (ht : r.capture.Ahead) :
    let r' := run step r (.wait 1 :: List.replicate 20 .exec)
    r'.CaughtUp ∧ r'.capture = r.capture.tick ∧ r'.level = r.level := by
  have hsplit (m n : ℕ) (h : m + n = 20) :
      List.replicate 20 Step.exec = List.replicate m .exec ++ List.replicate n .exec := by
    rw [← h, List.replicate_add]
  rw [run_cons, step, wait_one ht, h.queue, Capture.tick_eq]
  dsimp only
  by_cases h2 : r.capture.t2 = some (r.capture.now + 1) <;>
    by_cases h3 : r.capture.t3 = some (r.capture.now + 1)
  · simp only [h2, h3, if_true, List.nil_append, List.singleton_append]
    -- `restart` is dispatched and run by the first two steps of the thread
    rw [hsplit 2 18 rfl, run_append]
    rw [show 18 = 10 + 8 from rfl, List.replicate_add, run_append]
    generalize hr : run step _ (List.replicate 2 Step.exec) = r'
    have hr' : r'.running = [] ∧ r'.queue = [⟨.timeout, r.capture.now + 1, 0⟩] ∧
        r'.capture = Capture.restart { r.capture with
          now := r.capture.now + 1, t2 := none, t3 := none } ∧ r'.level = r.level := by
      rw [← hr]
      simp [run, step, exec, h.running, Handler.body, stmt, onCapture, Capture.restart]
    obtain ⟨hcaught, hcapture, hlevel⟩ := run_single hr'.1 hr'.2.1
    rw [hcaught.run_idle]
    exact ⟨hcaught, hcapture.trans (by rw [hr'.2.2.1]; rfl), hlevel.trans hr'.2.2.2⟩
  · simp only [h2, h3, if_true, if_false, List.nil_append]
    rw [hsplit 10 10 rfl, run_append]
    obtain ⟨hcaught, hcapture, hlevel⟩ := run_single (r := { r with
      capture := { r.capture with now := r.capture.now + 1, t2 := none }
      queue := [⟨.timeout, r.capture.now + 1, 0⟩] }) h.running rfl
    rw [hcaught.run_idle]
    exact ⟨hcaught, hcapture, hlevel⟩
  · simp only [h2, h3, if_true, if_false, List.nil_append, List.append_nil]
    rw [hsplit 10 10 rfl, run_append]
    obtain ⟨hcaught, hcapture, hlevel⟩ := run_single (r := { r with
      capture := { r.capture with now := r.capture.now + 1, t3 := none }
      queue := [⟨.restart, r.capture.now + 1, 0⟩] }) h.running rfl
    rw [hcaught.run_idle]
    exact ⟨hcaught, hcapture, hlevel⟩
  · simp only [h2, h3, if_false, List.append_nil]
    have hidle : CaughtUp { r with
        capture := { r.capture with now := r.capture.now + 1 }, queue := [] } := ⟨h.running, rfl⟩
    rw [hidle.run_idle]
    exact ⟨hidle, rfl, rfl⟩

/-- The steps of a signal whose handlers run at once. -/
def atOnce : Capture.Signal → List Step
  | .rise | .fall => .edge :: List.replicate 10 .exec
  | .wait us => (List.replicate us (.wait 1 :: List.replicate 20 .exec)).flatten

/-- The edges of the signals turn the pin up and down in turn. -/
def Alternating : Bool → List Capture.Signal → Prop
  | _, [] => True
  | level, .rise :: ss => level = false ∧ Alternating true ss
  | level, .fall :: ss => level = true ∧ Alternating false ss
  | level, .wait _ :: ss => Alternating level ss

/-- Waiting, then catching up, is the waiting of the capture. -/
theorem CaughtUp.wait (h : r.CaughtUp) (ht : r.capture.Ahead) (us : ℕ) :
    let r' := run step r (atOnce (.wait us))
    r'.CaughtUp ∧ r'.capture = Capture.tick^[us] r.capture ∧ r'.level = r.level ∧
      r'.capture.Ahead := by
  induction us generalizing r with
  | zero => exact ⟨h, rfl, rfl, ht⟩
  | succ us ih =>
    obtain ⟨hcaught, hcapture, hlevel⟩ := h.tick ht
    rw [atOnce, List.replicate_succ, List.flatten_cons, run_append]
    obtain ⟨hcaught', hcapture', hlevel', hahead⟩ := ih hcaught (hcapture ▸ ht.tick)
    refine ⟨hcaught', ?_, hlevel'.trans hlevel, hahead⟩
    rw [Function.iterate_succ_apply, ← hcapture]
    exact hcapture'

/-- **The capture is the receiver without delay.** A receiver that runs the handler of every
edge and of every expiry before anything else happens goes through the states of the capture. -/
theorem CaughtUp.run_atOnce (h : r.CaughtUp) (ht : r.capture.Ahead) {ss : List Capture.Signal}
    (hss : Alternating r.level ss) :
    (run step r (ss.flatMap atOnce)).capture = run Capture.signal r.capture ss := by
  induction ss generalizing r with
  | nil => rfl
  | cons s ss ih =>
    rw [List.flatMap_cons, run_append, run_cons]
    cases s with
    | rise =>
      obtain ⟨hlow, hss⟩ := hss
      obtain ⟨hcaught, hcapture, hlevel⟩ := h.edge
      rw [hlow] at hcapture hlevel
      rw [← show _ = r.capture.signal .rise from hcapture]
      exact ih hcaught (hcapture ▸ ht.edge.1) (hlevel ▸ hss)
    | fall =>
      obtain ⟨hhigh, hss⟩ := hss
      obtain ⟨hcaught, hcapture, hlevel⟩ := h.edge
      rw [hhigh] at hcapture hlevel
      rw [← show _ = r.capture.signal .fall from hcapture]
      exact ih hcaught (hcapture ▸ ht.edge.2) (hlevel ▸ hss)
    | wait us =>
      obtain ⟨hcaught, hcapture, hlevel, hahead⟩ := h.wait ht us
      rw [← show _ = r.capture.signal (.wait us) from hcapture]
      exact ih hcaught hahead (hlevel ▸ hss)

/-- So the bursts that an undelayed receiver sees from its start are those of the capture. -/
theorem run_start_atOnce (level : Bool) {ss : List Capture.Signal} (hss : Alternating level ss) :
    (run step (start level) (ss.flatMap atOnce)).capture = run Capture.signal Capture.weightInit ss :=
  CaughtUp.run_atOnce (r := start level) ⟨rfl, rfl⟩ Capture.ahead_weightInit hss

/-- A pulse whose handlers run as soon as they are posted. -/
def promptPulse (low high : ℕ) : List Step :=
  List.flatten [[.wait low, .edge], List.replicate 5 .exec, [.wait high, .edge],
    List.replicate 6 .exec]

/-- A stable frame: pulses 12 and 13 are short. -/
def stablePulses : List Step :=
  (List.range 39).flatMap fun k => promptPulse 1000 (if k = 12 ∨ k = 13 then 400 else 1000)

/-! ## Between two statements -/

/-- What an edge of the pin and the passing of time leave alone. -/
structure Between (r r' : Receiver) : Prop where
  running : r'.running = r.running
  current : r'.current = r.current
  recorded : r'.recorded = r.recorded
  taken : r'.taken = r.taken
  onRise : r'.capture.onRise = r.capture.onRise
  onFall : r'.capture.onFall = r.capture.onFall
  t : r'.capture.t = r.capture.t
  bh : r'.capture.bh = r.capture.bh
  bl : r'.capture.bl = r.capture.bl
  cnt : r'.capture.cnt = r.capture.cnt
  frames : r'.capture.frames = r.capture.frames

/-- Two such changes are one. -/
theorem Between.trans {r r' r'' : Receiver} (h : Between r r') (h' : Between r' r'') :
    Between r r'' where
  running := h'.running.trans h.running
  current := h'.current.trans h.current
  recorded := h'.recorded.trans h.recorded
  taken := h'.taken.trans h.taken
  onRise := h'.onRise.trans h.onRise
  onFall := h'.onFall.trans h.onFall
  t := h'.t.trans h.t
  bh := h'.bh.trans h.bh
  bl := h'.bl.trans h.bl
  cnt := h'.cnt.trans h.cnt
  frames := h'.frames.trans h.frames

/-- An edge only posts. -/
theorem between_edge (r : Receiver) : Between r r.edge := by
  unfold edge
  dsimp only
  split <;> split <;> constructor <;> rfl

/-- The expiry of the second timeout only posts. -/
theorem between_expireT2 (limit : ℕ) (r : Receiver) : Between r (r.expireT2 limit) := by
  unfold expireT2
  split
  · split <;> constructor <;> rfl
  · constructor <;> rfl

/-- The expiry of the third timeout only posts. -/
theorem between_expireT3 (limit : ℕ) (r : Receiver) : Between r (r.expireT3 limit) := by
  unfold expireT3
  split
  · split <;> constructor <;> rfl
  · constructor <;> rfl

/-- Time passing only posts. -/
theorem between_wait (us : ℕ) (r : Receiver) : Between r (r.wait us) := by
  have hclock : ∀ r' : Receiver, Between r' (r'.onCapture fun c => { c with now := r.capture.now + us }) :=
    fun r' => by constructor <;> rfl
  unfold wait
  dsimp only
  split
  · exact ((between_expireT3 _ r).trans (between_expireT2 _ _)).trans (hclock _)
  · exact ((between_expireT2 _ r).trans (between_expireT3 _ _)).trans (hclock _)

/-- What the thread of the queue does: nothing, a dispatch, or a statement. -/
theorem exec_cases {P : Receiver → Prop} (r : Receiver) (idle : P r)
    (dispatch : ∀ e queue, r.running = [] → r.queue = e :: queue →
      P { r with queue := queue, current := e, running := e.handler.body })
    (stmt : ∀ s rest, r.running = s :: rest → P ({ r with running := rest }.stmt s)) :
    P r.exec := by
  cases hr : r.running with
  | nil =>
    cases hq : r.queue with
    | nil =>
      rw [exec_idle hr hq]
      exact idle
    | cons e queue =>
      rw [exec_nil hr hq]
      exact dispatch e queue hr hq
  | cons s rest =>
    rw [exec_cons hr]
    exact stmt s rest hr

/-- What holds behind a step: edges and the passing of time keep it, and each statement. -/
theorem step_cases {P : Receiver → Prop} (r : Receiver) (between : ∀ r', Between r r' → P r')
    (exec : P r.exec) (x : Step) : P (r.step x) := by
  cases x with
  | edge => exact between _ (between_edge r)
  | wait us => exact between _ (between_wait us r)
  | exec => exact exec

end Receiver

/-! ## The frame -/

/-- The words and the count of a frame are those of the readings `ws`. -/
structure Recorded (bh bl cnt : UInt32) (ws : List ℕ) : Prop where
  cnt : cnt = UInt32.ofNat ws.length
  bh : ws.length < 2 ^ 32 → ∀ j < 32, bh.toNat.testBit j = (ws[31 - j]?).any short
  bl : ws.length < 2 ^ 32 → ∀ j < 32, bl.toNat.testBit j = (ws[63 - j]?).any short

/-- Before the first pulse the words are zero. -/
theorem recorded_nil : Recorded 0 0 0 [] where
  cnt := rfl
  bh _ j _ := Nat.zero_testBit j
  bl _ j _ := Nat.zero_testBit j

/-- `record` adds the width on the timer to the pulses the words hold. -/
theorem Recorded.record {c : Capture} {ws : List ℕ} (h : Recorded c.bh c.bl c.cnt ws) :
    Recorded c.record.bh c.record.bl c.record.cnt (ws ++ [c.t.time + c.t.slicetime c.now]) := by
  have hcnt : (ws ++ [c.t.time + c.t.slicetime c.now]).length < 2 ^ 32 →
      c.cnt.toNat = ws.length ∧ ws.length < 2 ^ 32 := by
    intro hlen
    rw [List.length_append, List.length_singleton] at hlen
    have hws : ws.length < 2 ^ 32 := Nat.lt_of_succ_lt hlen
    exact ⟨by rw [h.cnt, Capture.toNat_cnt hws], hws⟩
  rw [Capture.record_eq]
  refine ⟨?_, fun hlen j hj => ?_, fun hlen j hj => ?_⟩
  · dsimp only
    rw [h.cnt, List.length_append]
    exact (UInt32.ofNat_add ws.length 1).symm
  · obtain ⟨hnat, hws⟩ := hcnt hlen
    exact Capture.testBit_bh_concat _ hnat (h.bh hws) j hj
  · obtain ⟨hnat, hws⟩ := hcnt hlen
    exact Capture.testBit_bl_concat _ hnat (h.bl hws) j hj

namespace Receiver

/-- **The frame is what `fall` has recorded since the last `timeout`.** -/
theorem recorded_step {r : Receiver} (x : Step)
    (h : Recorded r.capture.bh r.capture.bl r.capture.cnt (r.recorded.map Prod.fst)) :
    Recorded (r.step x).capture.bh (r.step x).capture.bl (r.step x).capture.cnt
      ((r.step x).recorded.map Prod.fst) := by
  refine step_cases (P := fun r' => Recorded r'.capture.bh r'.capture.bl r'.capture.cnt
    (r'.recorded.map Prod.fst)) r (fun r' hb => ?_) ?_ x
  · rw [hb.bh, hb.bl, hb.cnt, hb.recorded]
    exact h
  · refine exec_cases (P := fun r' => Recorded r'.capture.bh r'.capture.bl r'.capture.cnt
      (r'.recorded.map Prod.fst)) r h (fun _ _ _ _ => h) fun s rest _ => ?_
    cases s with
    | record =>
      show Recorded _ _ _ (List.map Prod.fst (r.recorded ++ [(_, _)]))
      rw [List.map_append]
      exact h.record
    | take => exact recorded_nil
    | check bh bl cnt =>
      rw [stmt]
      split <;> exact h
    | _ => exact h

/-! ## The points of the handlers -/

/-- Nothing is recorded. -/
def Cleared (r : Receiver) : Prop := r.capture.bh = 0 ∧ r.capture.bl = 0 ∧ r.capture.cnt = 0

/-- What holds where `rest` is left of a handler: behind `take` the frame is cleared and the
copies are those of what was taken, and in `eee` the handlers go off one after the other. -/
inductive Point (r : Receiver) : Handler → List Stmt → Prop where
  | body (h : Handler) {rest : List Stmt} : rest <:+ h.body → Point r h rest
  | copied (bh bl cnt : UInt32) {rest : List Stmt} : rest <:+ [.riseEvent, .check bh bl cnt] →
      r.Cleared → Recorded bh bl cnt (r.taken.map Prod.fst) → Point r .timeout rest
  | stable (bh bl : UInt32) {rest : List Stmt} :
      rest <:+ [.riseNull, .fallNull, .attachRestart, .print bh bl] → r.Cleared →
      (.riseNull ∉ rest → r.capture.onRise = false) →
      (.fallNull ∉ rest → r.capture.onFall = false) → Point r .timeout rest
  | unstable (bh bl : UInt32) {rest : List Stmt} : rest <:+ [.print bh bl] → Point r .timeout rest

/-- What is known between two statements does not read the pin, the clock or the queue. -/
theorem Point.between {r r' : Receiver} {h : Handler} {rest : List Stmt} (hb : Between r r')
    (hp : Point r h rest) : Point r' h rest := by
  have hcleared : r.Cleared → r'.Cleared := fun hc => by
    rw [Cleared, hb.bh, hb.bl, hb.cnt]
    exact hc
  cases hp with
  | body h hs => exact .body h hs
  | copied bh bl cnt hs hc hrec =>
    rw [← hb.taken] at hrec
    exact .copied bh bl cnt hs (hcleared hc) hrec
  | stable bh bl hs hc hrise hfall =>
    rw [← hb.onRise] at hrise
    rw [← hb.onFall] at hfall
    exact .stable bh bl hs (hcleared hc) hrise hfall
  | unstable bh bl hs => exact .unstable bh bl hs

/-- Only the timeout takes a frame, as its last statement. -/
theorem take_suffix_body {h : Handler} {rest : List Stmt} (hs : .take :: rest <:+ h.body) :
    h = .timeout ∧ rest = [] := by
  cases h <;> simp [Handler.body, List.suffix_cons_iff] at hs
  exact ⟨rfl, hs⟩

/-- No handler starts with a check in its body: taking a frame adds it. -/
theorem check_not_mem_body (bh bl cnt : UInt32) (h : Handler) : .check bh bl cnt ∉ h.body := by
  cases h <;> simp [Handler.body]

/-- No handler has the restart in its body: a stable frame adds it. -/
theorem attachRestart_not_mem_body (h : Handler) : .attachRestart ∉ h.body := by
  cases h <;> simp [Handler.body]

/-- A statement runs for the handler under way. -/
theorem current_stmt (r : Receiver) (s : Stmt) : (r.stmt s).current = r.current := by
  cases s with
  | check bh bl cnt =>
    rw [stmt]
    split <;> rfl
  | _ => rfl

/-- One statement of a handler. -/
theorem Point.stmt {r : Receiver} {h : Handler} {s : Stmt} {rest : List Stmt}
    (hp : Point r h (s :: rest))
    (hframe : Recorded r.capture.bh r.capture.bl r.capture.cnt (r.recorded.map Prod.fst)) :
    Point ({ r with running := rest }.stmt s) h ({ r with running := rest }.stmt s).running := by
  cases hp with
  | body h hs =>
    have htail : rest <:+ h.body := (List.suffix_cons s rest).trans hs
    cases s with
    | take =>
      obtain ⟨rfl, rfl⟩ := take_suffix_body hs
      exact .copied _ _ _ (List.suffix_refl _) ⟨rfl, rfl, rfl⟩ hframe
    | check bh bl cnt => exact absurd (hs.subset List.mem_cons_self) (check_not_mem_body bh bl cnt h)
    | _ => exact .body h htail
  | copied bh bl cnt hs hc hrec =>
    rcases List.suffix_cons_iff.1 hs with heq | hs
    · obtain ⟨rfl, rfl⟩ := List.cons.inj heq
      exact .copied bh bl cnt (List.suffix_cons _ _) hc hrec
    · rcases List.suffix_cons_iff.1 hs with heq | hs
      · obtain ⟨rfl, rfl⟩ := List.cons.inj heq
        rw [Receiver.stmt]
        split
        · -- `eee` is called
          rw [eeeBody, List.append_nil]
          by_cases hst : Capture.stableBits bh = 3
          · rw [if_pos hst]
            exact .stable bh bl (List.suffix_refl _) hc (fun hn => absurd List.mem_cons_self hn)
              fun hn => absurd (List.mem_cons_of_mem _ List.mem_cons_self) hn
          · rw [if_neg hst]
            exact .unstable bh bl (List.suffix_refl _)
        · exact .copied bh bl cnt List.nil_suffix hc hrec
      · exact absurd (List.suffix_nil.1 hs) (List.cons_ne_nil _ _)
  | stable bh bl hs hc hrise hfall =>
    have htail := (List.suffix_cons s rest).trans hs
    rcases List.suffix_cons_iff.1 hs with heq | hs
    · obtain ⟨rfl, rfl⟩ := List.cons.inj heq
      exact .stable bh bl htail hc (fun _ => rfl) fun hn => absurd List.mem_cons_self hn
    · rcases List.suffix_cons_iff.1 hs with heq | hs
      · obtain ⟨rfl, rfl⟩ := List.cons.inj heq
        exact .stable bh bl htail hc (fun _ => hrise (by simp)) fun _ => rfl
      · -- both are off, and the rest leaves them so
        have hoff : ∀ s', s' ∈ s :: rest → s' = .attachRestart ∨ s' = .print bh bl :=
          fun s' hs' => by simpa using hs.subset hs'
        have hrise' := hrise fun hmem => by simpa using hoff _ hmem
        have hfall' := hfall fun hmem => by simpa using hoff _ hmem
        rcases hoff s List.mem_cons_self with rfl | rfl
        · exact .stable bh bl htail hc (fun _ => hrise') fun _ => hfall'
        · exact .stable bh bl htail hc (fun _ => hrise') fun _ => hfall'
  | unstable bh bl hs =>
    rcases List.suffix_cons_iff.1 hs with heq | hs
    · obtain ⟨rfl, rfl⟩ := List.cons.inj heq
      exact .unstable bh bl List.nil_suffix
    · exact absurd (List.suffix_nil.1 hs) (List.cons_ne_nil _ _)

/-- A step of the thread leads from one point of the handlers to another. -/
theorem Point.exec {r : Receiver} (hp : Point r r.current.handler r.running)
    (hframe : Recorded r.capture.bh r.capture.bl r.capture.cnt (r.recorded.map Prod.fst)) :
    Point r.exec r.exec.current.handler r.exec.running := by
  refine exec_cases (P := fun r' => Point r' r'.current.handler r'.running) r hp
    (fun e _ _ _ => .body e.handler (List.suffix_refl _)) fun s rest hr => ?_
  rw [hr] at hp
  rw [current_stmt]
  exact hp.stmt hframe

/-- What is known of a receiver at any time. -/
structure Followed (r : Receiver) : Prop where
  frame : Recorded r.capture.bh r.capture.bl r.capture.cnt (r.recorded.map Prod.fst)
  point : Point r r.current.handler r.running

/-- What is known of a receiver is kept by each step. -/
theorem Followed.step {r : Receiver} (h : r.Followed) (x : Step) : (r.step x).Followed := by
  refine ⟨recorded_step x h.frame, ?_⟩
  refine step_cases (P := fun r' => Point r' r'.current.handler r'.running) r
    (fun r' hb => ?_) (h.point.exec h.frame) x
  rw [hb.current, hb.running]
  exact h.point.between hb

/-- What is known of a receiver holds in every run. -/
theorem followed_run (level : Bool) (ss : List Step) : (run step (start level) ss).Followed :=
  run_invariant ss ⟨recorded_nil, .body .restart List.nil_suffix⟩ fun _ x _ h => h.step x

end Receiver

end WeightScale
