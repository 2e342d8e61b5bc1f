import WeightScale.Analysis.Receiver

/-!
# The pause behind a stable frame

Behind a stable frame `eee` takes both handlers off the pin and has `restart` posted five
seconds later. The handlers it takes off may have posted before, and `t2` may be about to:
whatever is left of them runs in the pause and attaches handlers again. So the pause holds
exactly where nothing is left, and there it holds whatever comes.
-/

set_option autoImplicit false

namespace WeightScale

open Embedded

namespace Receiver

/-- The step dispatches the event `e`. -/
def Dispatches (e : Posted) (r : Receiver) (x : Step) : Prop :=
  x = .exec ∧ r.running = [] ∧ r.queue.head? = some e

/-- In the step `rise` or `fall` attaches a handler. -/
def Attaches (r : Receiver) (x : Step) : Prop :=
  x = .exec ∧ (r.current.handler = .rise ∨ r.current.handler = .fall) ∧
    (r.running.head? = some .riseEvent ∨ r.running.head? = some .fallEvent)

instance (e : Posted) (r : Receiver) (x : Step) : Decidable (r.Dispatches e x) :=
  inferInstanceAs (Decidable (_ ∧ _ ∧ _))

instance (r : Receiver) (x : Step) : Decidable (r.Attaches x) :=
  inferInstanceAs (Decidable (_ ∧ (_ ∨ _) ∧ (_ ∨ _)))

instance (r : Receiver) : Decidable r.Cleared := inferInstanceAs (Decidable (_ ∧ _ ∧ _))

/-- Until the event `own` is dispatched, `rise` and `fall` attach nothing and record nothing,
in whatever order edges, expiries and the dispatch come. -/
def Pauses (own : Posted) (r : Receiver) : Prop :=
  ∀ ss, Along step (fun r x => ¬ r.Dispatches own x) r ss →
    Along step (fun r x => ¬ r.Attaches x) r ss ∧ (run step r ss).Cleared

/-! ## Times -/

/-- `t2` expires within its delay, and what is posted was posted before. -/
structure Timed (r : Receiver) : Prop where
  t2 : ∀ e, r.capture.t2 = some e → r.capture.now < e ∧ e ≤ r.capture.now + timeoutUs
  posted : ∀ e ∈ r.queue, e.time ≤ r.capture.now

section expiry

variable {r : Receiver} {limit : ℕ}

/-- What is left of the second timeout is not due. -/
theorem t2_expireT2 {e : ℕ} (h : (r.expireT2 limit).capture.t2 = some e) :
    r.capture.t2 = some e ∧ limit < e := by
  unfold expireT2 at h
  split at h
  · rename_i e' he'
    split at h
    · exact absurd h nofun
    · rename_i hlate
      rw [he'] at h
      rw [he', ← Option.some.inj h]
      exact ⟨rfl, Nat.lt_of_not_le hlate⟩
  · rename_i hnone
    exact absurd (hnone.symm.trans h) nofun

/-- The expiry of the third timeout leaves the second. -/
theorem t2_expireT3 (limit : ℕ) (r : Receiver) : (r.expireT3 limit).capture.t2 = r.capture.t2 := by
  unfold expireT3
  split
  · split <;> rfl
  · rfl

/-- The second timeout posts an event of a time that has come. -/
theorem mem_queue_expireT2 {e : Posted} (h : e ∈ (r.expireT2 limit).queue) :
    e ∈ r.queue ∨ e.time ≤ limit := by
  unfold expireT2 at h
  split at h
  · split at h
    · rename_i hdue
      rcases List.mem_append.1 h with h | h
      · exact .inl h
      · rw [List.mem_singleton.1 h]
        exact .inr hdue
    · exact .inl h
  · exact .inl h

/-- The third timeout posts an event of a time that has come. -/
theorem mem_queue_expireT3 {e : Posted} (h : e ∈ (r.expireT3 limit).queue) :
    e ∈ r.queue ∨ e.time ≤ limit := by
  unfold expireT3 at h
  split at h
  · split at h
    · rename_i hdue
      rcases List.mem_append.1 h with h | h
      · exact .inl h
      · rw [List.mem_singleton.1 h]
        exact .inr hdue
    · exact .inl h
  · exact .inl h

/-- What is left of the second timeout lies behind the time waited. -/
theorem t2_wait {us e : ℕ} (h : (r.wait us).capture.t2 = some e) :
    r.capture.t2 = some e ∧ r.capture.now + us < e := by
  unfold wait at h
  dsimp only [onCapture] at h
  split at h
  · obtain ⟨h2, hlt⟩ := t2_expireT2 h
    exact ⟨(t2_expireT3 _ r).symm.trans h2, hlt⟩
  · rw [t2_expireT3] at h
    exact t2_expireT2 h

/-- Waiting posts events of times that have come. -/
theorem mem_queue_wait {us : ℕ} {e : Posted} (h : e ∈ (r.wait us).queue) :
    e ∈ r.queue ∨ e.time ≤ r.capture.now + us := by
  unfold wait at h
  dsimp only [onCapture] at h
  split at h
  · rcases mem_queue_expireT2 h with h | h
    · exact mem_queue_expireT3 h
    · exact .inr h
  · rcases mem_queue_expireT3 h with h | h
    · exact mem_queue_expireT2 h
    · exact .inr h

/-- The expiry of the third timeout takes nothing from the queue. -/
theorem queue_expireT3_ne_nil (h : r.queue ≠ []) : (r.expireT3 limit).queue ≠ [] := by
  unfold expireT3
  split
  · split
    · exact List.append_ne_nil_of_left_ne_nil h _
    · exact h
  · exact h

/-- The second timeout posts its event when it is due. -/
theorem queue_expireT2_ne_nil {e : ℕ} (h : r.capture.t2 = some e) (hdue : e ≤ limit) :
    (r.expireT2 limit).queue ≠ [] := by
  rw [expireT2, h]
  dsimp only
  rw [if_pos hdue]
  exact List.append_ne_nil_of_right_ne_nil _ (List.cons_ne_nil _ _)

/-- `t2` posts when its time comes. -/
theorem queue_wait_ne_nil {us e : ℕ} (h : r.capture.t2 = some e) (hdue : e ≤ r.capture.now + us) :
    (r.wait us).queue ≠ [] := by
  unfold wait
  dsimp only [onCapture]
  split
  · exact queue_expireT2_ne_nil ((t2_expireT3 _ r).trans h) hdue
  · exact queue_expireT3_ne_nil (queue_expireT2_ne_nil h hdue)

/-- Without a second timeout only the third may expire. -/
theorem wait_of_t2_none (h : r.capture.t2 = none) (us : ℕ) :
    r.wait us =
      (r.expireT3 (r.capture.now + us)).onCapture fun c => { c with now := r.capture.now + us } := by
  have hfirst : t3First r.capture = false := by
    rw [t3First, h]
  have hnone : r.expireT2 (r.capture.now + us) = r := by
    rw [expireT2, h]
  rw [wait, hfirst, hnone]
  rfl

end expiry

/-- At the start nothing is attached. -/
theorem timed_start (level : Bool) : (start level).Timed where
  t2 _ h := absurd h (by rintro ⟨⟩)
  posted _ h := absurd h List.not_mem_nil

/-- An edge keeps the times. -/
theorem Timed.edge {r : Receiver} (h : r.Timed) : r.edge.Timed := by
  have hpost : ∀ e, e.time = r.capture.now →
      ∀ e' ∈ r.queue ++ [e], e'.time ≤ r.capture.now := by
    intro e he e' he'
    rcases List.mem_append.1 he' with he' | he'
    · exact h.posted e' he'
    · rw [List.mem_singleton.1 he', he]
  unfold Receiver.edge
  dsimp only
  split
  · split
    · exact ⟨h.t2, hpost _ rfl⟩
    · exact ⟨h.t2, h.posted⟩
  · split
    · exact ⟨h.t2, hpost _ rfl⟩
    · exact ⟨h.t2, h.posted⟩

/-- Waiting keeps the times. -/
theorem Timed.wait {r : Receiver} (h : r.Timed) (us : ℕ) : (r.wait us).Timed where
  t2 e he := by
    obtain ⟨h2, hlt⟩ := t2_wait he
    have hle := (h.t2 e h2).2
    show r.capture.now + us < e ∧ e ≤ r.capture.now + us + timeoutUs
    omega
  posted e he := by
    show e.time ≤ r.capture.now + us
    rcases mem_queue_wait he with he | he
    · have := h.posted e he
      omega
    · exact he

/-- A step of the thread keeps the times. -/
theorem Timed.exec {r : Receiver} (h : r.Timed) : r.exec.Timed := by
  refine exec_cases r h (fun e queue _ hq => ?_) fun s rest _ => ?_
  · refine ⟨h.t2, fun e' he' => h.posted e' ?_⟩
    rw [hq]
    exact List.mem_cons_of_mem e he'
  · cases s with
    | attachTimeout =>
      refine ⟨fun e he => ?_, h.posted⟩
      rw [← Option.some.inj he]
      exact ⟨Nat.lt_add_of_pos_right (by decide), le_refl _⟩
    | record =>
      rw [stmt, Capture.record_eq]
      exact ⟨h.t2, h.posted⟩
    | check bh bl cnt =>
      rw [stmt]
      split
      · exact ⟨h.t2, h.posted⟩
      · exact ⟨h.t2, h.posted⟩
    | _ => exact ⟨h.t2, h.posted⟩

/-- The times are right in every run. -/
theorem timed_run (level : Bool) (ss : List Step) : (run step (start level) ss).Timed := by
  refine run_invariant ss (timed_start level) fun r x _ h => ?_
  cases x with
  | edge => exact h.edge
  | wait us => exact h.wait us
  | exec => exact h.exec

/-! ## A pause that holds -/

/-- Nothing is left to run but `own`, which is yet to be posted or dispatched. -/
structure Resting (own : Posted) (r : Receiver) : Prop where
  running : r.running = [] ∨ ∃ bh bl, r.running = [.print bh bl]
  current : r.current.handler = .timeout
  onRise : r.capture.onRise = false
  onFall : r.capture.onFall = false
  t2 : r.capture.t2 = none
  cleared : r.Cleared
  queue : (r.queue = [] ∧ r.capture.t3 = some own.time) ∨ (r.queue = [own] ∧ r.capture.t3 = none)

/-- An edge posts nothing in a pause. -/
theorem Resting.edge {own : Posted} {r : Receiver} (h : r.Resting own) : r.edge.Resting own := by
  have hsame : ∀ level edgeAt pulses,
      Resting own { r with level := level, edgeAt := edgeAt, pulses := pulses } :=
    fun _ _ _ => ⟨h.running, h.current, h.onRise, h.onFall, h.t2, h.cleared, h.queue⟩
  unfold Receiver.edge
  dsimp only
  rw [h.onRise, h.onFall]
  split
  · exact hsame _ _ _
  · exact hsame _ _ _

/-- Waiting in a pause posts its own end at most. -/
theorem Resting.wait {own : Posted} {r : Receiver} (hown : own.handler = .restart)
    (hwidth : own.width = 0) (h : r.Resting own) (us : ℕ) : (r.wait us).Resting own := by
  obtain ⟨handler, time, width⟩ := own
  dsimp only at hown hwidth
  subst hown hwidth
  rw [wait_of_t2_none h.t2, expireT3]
  rcases h.queue with ⟨hq, h3⟩ | ⟨hq, h3⟩
  · rw [h3]
    dsimp only
    split
    · -- the event is posted
      refine ⟨h.running, h.current, h.onRise, h.onFall, h.t2, h.cleared, .inr ⟨?_, rfl⟩⟩
      show r.queue ++ [_] = [_]
      rw [hq, List.nil_append]
    · exact ⟨h.running, h.current, h.onRise, h.onFall, h.t2, h.cleared, .inl ⟨hq, h3⟩⟩
  · rw [h3]
    exact ⟨h.running, h.current, h.onRise, h.onFall, h.t2, h.cleared, .inr ⟨hq, h3⟩⟩

/-- The thread has nothing to do in a pause until its end is dispatched. -/
theorem Resting.exec {own : Posted} {r : Receiver} (hno : ¬ r.Dispatches own .exec)
    (h : r.Resting own) : r.exec.Resting own := by
  rcases h.running with hr | ⟨bh, bl, hr⟩
  · rcases h.queue with ⟨hq, -⟩ | ⟨hq, -⟩
    · rw [exec_idle hr hq]
      exact h
    · exact absurd ⟨rfl, hr, by rw [hq]; rfl⟩ hno
  · rw [exec_cons hr]
    exact ⟨.inl rfl, h.current, h.onRise, h.onFall, h.t2, h.cleared, h.queue⟩

/-- A receiver at rest stays so until the end of its pause. -/
theorem Resting.pauses {own : Posted} {r : Receiver} (hown : own.handler = .restart)
    (hwidth : own.width = 0) (h : r.Resting own) : r.Pauses own := by
  have hstep : ∀ r x, ¬ Dispatches own r x → Resting own r → Resting own (r.step x) := by
    intro r x hno h
    cases x with
    | edge => exact h.edge
    | wait us => exact h.wait hown hwidth us
    | exec => exact h.exec hno
  intro ss hss
  refine ⟨along_of_invariant hss h (fun r x _ h => ?_) hstep, (run_invariant_along hss h hstep).cleared⟩
  rintro ⟨-, hrunning | hrunning, -⟩
  · exact absurd (hrunning.symm.trans h.current) (by decide)
  · exact absurd (hrunning.symm.trans h.current) (by decide)

/-! ## A pause that does not -/

section broken

variable {own : Posted} {r : Receiver}

/-- A pause goes on behind any step but its end. -/
theorem Pauses.step {x : Step} (h : r.Pauses own) (hno : ¬ r.Dispatches own x) :
    (r.step x).Pauses own := fun ss hss =>
  ⟨(h (x :: ss) ⟨hno, hss⟩).1.2, (h (x :: ss) ⟨hno, hss⟩).2⟩

/-- A pause goes on behind an edge. -/
theorem Pauses.edge (h : r.Pauses own) : r.edge.Pauses own :=
  h.step (x := .edge) fun hd => absurd hd.1 (by decide)

/-- A pause goes on while time passes. -/
theorem Pauses.wait (h : r.Pauses own) (us : ℕ) : (r.wait us).Pauses own :=
  h.step (x := .wait us) fun hd => absurd hd.1 (by rintro ⟨⟩)

/-- A pause goes on behind a statement. -/
theorem Pauses.exec (h : r.Pauses own) (hr : r.running ≠ []) : r.exec.Pauses own :=
  h.step (x := .exec) fun hd => hr hd.2.1

/-- A pause goes on behind the dispatch of another event. -/
theorem Pauses.dispatch {e : Posted} {queue : List Posted} (h : r.Pauses own)
    (hq : r.queue = e :: queue) (hne : e ≠ own) : r.exec.Pauses own :=
  h.step (x := .exec) fun hd => hne (by simpa [hq] using hd.2.2)

/-- In a pause no statement attaches a handler. -/
theorem Pauses.not_attaches (h : r.Pauses own) (hr : r.running ≠ []) : ¬ r.Attaches .exec :=
  (h [.exec] ⟨fun hd => hr hd.2.1, trivial⟩).1.1

/-- In a pause nothing is attached and nothing recorded. -/
theorem Pauses.cleared (h : r.Pauses own) : r.Cleared := (h [] trivial).2

/-- A `rise` left in the queue attaches the handler of falling edges. -/
theorem Pauses.head_ne_rise {e : Posted} {queue : List Posted} (h : r.Pauses own)
    (hr : r.running = []) (hq : r.queue = e :: queue) (hne : e ≠ own) : e.handler ≠ .rise := by
  intro hrise
  obtain ⟨c, level, edgeAt, pulses, queue, current, running, recorded, taken⟩ := r
  obtain ⟨handler, time, width⟩ := e
  dsimp only at hr hq hrise
  subst hr hq hrise
  have hstarted := (((h.dispatch rfl hne).exec (List.cons_ne_nil _ _)).exec
    (List.cons_ne_nil _ _)).exec (List.cons_ne_nil _ _)
  exact hstarted.not_attaches (List.cons_ne_nil _ _) ⟨rfl, .inl rfl, .inr rfl⟩

/-- A `fall` left in the queue records a bit. -/
theorem Pauses.head_ne_fall {e : Posted} {queue : List Posted} (h : r.Pauses own)
    (hr : r.running = []) (hq : r.queue = e :: queue) (hne : e ≠ own) : e.handler ≠ .fall := by
  intro hfall
  have hzero : r.capture.cnt = 0 := h.cleared.2.2
  obtain ⟨c, level, edgeAt, pulses, queue, current, running, recorded, taken⟩ := r
  obtain ⟨handler, time, width⟩ := e
  dsimp only at hr hq hfall hzero
  subst hr hq hfall
  have hstopped : Pauses own
      ⟨{ c with onFall := false, t2 := some (c.now + timeoutUs), t := c.t.stop c.now }, level,
        edgeAt, pulses, queue, ⟨.fall, time, width⟩, [.record, .riseEvent], recorded, taken⟩ :=
    (((h.dispatch rfl hne).exec (List.cons_ne_nil _ _)).exec (List.cons_ne_nil _ _)).exec
      (List.cons_ne_nil _ _)
  have hcnt := (hstopped.exec (List.cons_ne_nil _ _)).cleared.2.2
  rw [exec_cons rfl, stmt, Capture.record_eq] at hcnt
  dsimp only at hcnt
  rw [hzero] at hcnt
  exact absurd hcnt (by decide)

/-- A `timeout` or a `restart` left in the queue attaches the handler of rising edges. -/
theorem Pauses.handled {e : Posted} {queue : List Posted} (h : r.Pauses own)
    (hr : r.running = []) (hq : r.queue = e :: queue) (hne : e ≠ own) :
    ∃ r' : Receiver, r'.Pauses own ∧ r'.running = [] ∧ r'.queue = queue ∧
      r'.capture.onRise = true ∧ r'.capture.now = r.capture.now := by
  have hzero : r.capture.cnt = 0 := h.cleared.2.2
  have hrise := h.head_ne_rise hr hq hne
  have hfall := h.head_ne_fall hr hq hne
  obtain ⟨c, level, edgeAt, pulses, queue, current, running, recorded, taken⟩ := r
  obtain ⟨handler, time, width⟩ := e
  dsimp only at hr hq hzero hrise hfall
  subst hr hq
  have hstarted := (h.dispatch rfl hne).exec
  cases handler with
  | rise => exact absurd rfl hrise
  | fall => exact absurd rfl hfall
  | restart => exact ⟨_, hstarted (List.cons_ne_nil _ _), rfl, rfl, rfl, rfl⟩
  | timeout =>
    have hchecks : Pauses own
        ⟨{ c with onRise := true, onFall := false, bh := 0, bl := 0, cnt := 0 }, level, edgeAt,
          pulses, queue, ⟨.timeout, time, width⟩, [.check c.bh c.bl c.cnt], [], recorded⟩ :=
      (((hstarted (List.cons_ne_nil _ _)).exec (List.cons_ne_nil _ _)).exec
        (List.cons_ne_nil _ _)).exec (List.cons_ne_nil _ _)
    refine ⟨_, hchecks.exec (List.cons_ne_nil _ _), ?_⟩
    rw [exec_cons rfl, stmt, if_neg (by rw [hzero]; decide)]
    exact ⟨rfl, rfl, rfl, rfl⟩

/-- Where the handler of rising edges is attached, two edges are enough. -/
theorem Pauses.not_onRise (h : r.Pauses own) (hr : r.running = []) (hq : r.queue = [])
    (hnow : r.capture.now < own.time) : r.capture.onRise = false := by
  by_contra hon
  rw [Bool.not_eq_false] at hon
  have hrises : ∀ r : Receiver, r.Pauses own → r.running = [] → r.queue = [] → r.level = false →
      r.capture.onRise = true → r.capture.now < own.time → False := by
    intro r h hr hq hlow hon hnow
    have hedge : r.edge.queue = [⟨.rise, r.capture.now, 0⟩] := by
      simp [Receiver.edge, hlow, hon, post, hq]
    refine h.edge.head_ne_rise ?_ hedge ?_ rfl
    · rw [(between_edge r).running, hr]
    · rintro rfl
      exact lt_irrefl _ hnow
  cases hlevel : r.level with
  | false => exact hrises r h hr hq hlevel hon hnow
  | true =>
    -- the falling edge first; `fall` is not attached either
    have hoff : r.capture.onFall = false := by
      by_contra hfall
      rw [Bool.not_eq_false] at hfall
      have hedge : r.edge.queue = [⟨.fall, r.capture.now, r.capture.now - r.edgeAt⟩] := by
        simp [Receiver.edge, hlevel, hfall, post, hq]
      refine h.edge.head_ne_fall ?_ hedge ?_ rfl
      · rw [(between_edge r).running, hr]
      · rintro rfl
        exact lt_irrefl _ hnow
    have hfallen : r.edge = { r with
        level := false
        edgeAt := r.capture.now
        pulses := r.pulses ++ [r.capture.now - r.edgeAt] } := by
      simp [Receiver.edge, hlevel, hoff]
    refine hrises r.edge h.edge ?_ ?_ ?_ ?_ ?_
    all_goals rw [hfallen]
    · exact hr
    · exact hq
    · exact hon
    · exact hnow

/-- It stays attached behind every event that is left. -/
theorem Pauses.not_armed (h : r.Pauses own) (hr : r.running = []) (hold : ∀ e ∈ r.queue, e ≠ own)
    (hnow : r.capture.now < own.time) : r.capture.onRise = false := by
  generalize hq : r.queue = queue at hold
  induction queue generalizing r with
  | nil => exact h.not_onRise hr hq hnow
  | cons e queue ih =>
    obtain ⟨r', h', hr', hq', hon, hsame⟩ := h.handled hr hq (hold e List.mem_cons_self)
    rw [← hsame] at hnow
    have hoff := ih h' hr' hnow hq' fun e' he' => hold e' (List.mem_cons_of_mem e he')
    exact absurd (hon.symm.trans hoff) (by decide)

/-- **Whatever is left in the queue breaks the pause.** -/
theorem Pauses.queue_eq_nil (h : r.Pauses own) (hr : r.running = [])
    (hold : ∀ e ∈ r.queue, e ≠ own) (hnow : r.capture.now < own.time) : r.queue = [] := by
  cases hq : r.queue with
  | nil => rfl
  | cons e queue =>
    rw [hq] at hold
    obtain ⟨r', h', hr', hq', hon, hsame⟩ := h.handled hr hq (hold e List.mem_cons_self)
    have hoff := h'.not_armed hr' (fun e' he' => hold e' (List.mem_cons_of_mem e (hq' ▸ he')))
      (hsame ▸ hnow)
    exact absurd (hon.symm.trans hoff) (by decide)

/-- And so does a `t2` that is still to expire. -/
theorem Pauses.t2_eq_none (h : r.Pauses own) (hr : r.running = []) (hold : ∀ e ∈ r.queue, e ≠ own)
    (h2 : ∀ e, r.capture.t2 = some e → r.capture.now < e ∧ e < own.time) : r.capture.t2 = none := by
  cases ht : r.capture.t2 with
  | none => rfl
  | some e =>
    obtain ⟨hlt, hown⟩ := h2 e ht
    obtain ⟨us, rfl⟩ := Nat.exists_eq_add_of_lt hlt
    have hnil := (h.wait (us + 1)).queue_eq_nil ((between_wait _ r).running.trans hr) (fun e' he' => ?_) hown
    · exact absurd hnil (queue_wait_ne_nil ht (le_refl _))
    · rcases mem_queue_wait he' with he' | hle
      · exact hold e' he'
      · rintro rfl
        exact absurd hown (Nat.not_lt.2 hle)

end broken

/-- Where `eee` attaches `restart`, both handlers are off and nothing is recorded. -/
theorem Point.attachRestart {r : Receiver} {h : Handler} {rest : List Stmt}
    (hp : Point r h (.attachRestart :: rest)) :
    h = .timeout ∧ r.Cleared ∧ r.capture.onRise = false ∧ r.capture.onFall = false ∧
      ∃ bh bl, rest = [.print bh bl] := by
  cases hp with
  | body h hs => exact absurd (hs.subset List.mem_cons_self) (attachRestart_not_mem_body h)
  | copied bh bl cnt hs => exact absurd (hs.subset List.mem_cons_self) (by simp)
  | unstable bh bl hs => exact absurd (hs.subset List.mem_cons_self) (by simp)
  | stable bh bl hs hc hrise hfall =>
    have hrest : rest = [.print bh bl] := by
      simpa [List.suffix_cons_iff] using hs
    subst hrest
    exact ⟨rfl, hc, hrise (by simp), hfall (by simp), bh, bl, rfl⟩

/-- **The pause behind a stable frame.** In every run, once `eee` has taken both handlers off
and attached `restart`, the pause holds until that event if and only if no event is left in
the queue and `t2` is not armed. -/
theorem pauses_iff (level : Bool) (ss : List Step) (rest : List Stmt)
    (h : (run step (start level) ss).running = .attachRestart :: rest) :
    let r := run step (start level) (ss ++ [.exec])
    (r.capture.onRise = false ∧ r.capture.onFall = false ∧
        r.capture.t3 = some (r.capture.now + restartUs)) ∧
      (r.Pauses ⟨.restart, r.capture.now + restartUs, 0⟩ ↔
        r.queue = [] ∧ r.capture.t2 = none) := by
  intro r
  have hpoint := (followed_run level ss).point
  have htimed := timed_run level ss
  have hr : r = (run step (start level) ss).exec := run_concat _ _ _
  rw [h] at hpoint
  obtain ⟨hcurrent, hcleared, hrise, hfall, bh, bl, rfl⟩ := hpoint.attachRestart
  rw [exec_cons h] at hr
  clear_value r
  subst hr
  generalize run step (start level) ss = r₀ at *
  refine ⟨⟨hrise, hfall, rfl⟩, fun hp => ?_, fun ⟨hq, h2⟩ => ?_⟩
  · have hlong : timeoutUs < restartUs := by decide
    have hdone := hp.exec (List.cons_ne_nil _ _)
    have hold : ∀ e ∈ r₀.queue, e ≠ ⟨.restart, r₀.capture.now + restartUs, 0⟩ := by
      rintro e he rfl
      have := htimed.posted _ he
      dsimp only at this
      omega
    constructor
    · exact hdone.queue_eq_nil rfl hold (Nat.lt_add_of_pos_right (by decide))
    · refine hdone.t2_eq_none rfl hold fun e he => ?_
      have := htimed.t2 e he
      exact ⟨this.1, by show e < r₀.capture.now + restartUs; omega⟩
  · refine Resting.pauses rfl rfl ?_
    exact ⟨.inr ⟨bh, bl, rfl⟩, hcurrent, hrise, hfall, h2, hcleared, .inl ⟨hq, rfl⟩⟩

/-- A stable frame whose handlers run at once pauses the receiver. -/
theorem pauses_stablePulses :
    let r := run step (start false)
      (stablePulses ++ [.wait timeoutUs] ++ List.replicate 8 .exec ++ [.exec])
    r.Pauses ⟨.restart, r.capture.now + restartUs, 0⟩ := by
  have hdetached : (run step (start false)
      (stablePulses ++ [.wait timeoutUs] ++ List.replicate 8 .exec)).running =
        [.attachRestart, .print 0xc0000 0] := by
    decide +kernel
  have hiff := (pauses_iff false _ _ hdetached).2
  exact hiff.2 (by decide +kernel)

/-- A rising edge between the expiry of `t2` and the dispatch of `timeout`: its `rise` runs in
the pause and attaches `fall`. -/
theorem not_pauses_of_queued_rise :
    let r := run step (start false)
      (stablePulses ++ [.wait timeoutUs, .edge] ++ List.replicate 9 .exec)
    (∃ frame, r.capture.frames = [frame] ∧ IsStable frame) ∧
      r.capture.onRise = false ∧ r.capture.onFall = false ∧
      r.capture.t3 = some (r.capture.now + restartUs) ∧
      ¬ r.Pauses ⟨.restart, r.capture.now + restartUs, 0⟩ := by
  refine ⟨⟨(0xc0000, 0), by decide +kernel, by decide +kernel⟩, by decide +kernel,
    by decide +kernel, by decide +kernel, fun h => ?_⟩
  have hattaches := (h (List.replicate 6 .exec) (by decide +kernel)).1
  exact absurd hattaches (by decide +kernel)

end Receiver

end WeightScale
