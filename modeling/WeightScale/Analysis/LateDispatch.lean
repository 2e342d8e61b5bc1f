import WeightScale.Analysis.Receiver

/-!
# Frames under late dispatch

The bits of a frame are those of the readings that `fall` took since the last `timeout`, and
the count is all that `eee` asks for. What the readings have to do with the pulses on the pin
follows the statements that are left to run, in the queue as in the handler: where every edge
has found its handler attached, they start, stop and record one pulse after the other.
-/

set_option autoImplicit false

namespace WeightScale

open Embedded

/-- The bits of a frame are those of the pulses `ws`, in their order. -/
structure Spells (frame : UInt32 × UInt32) (ws : List ℕ) : Prop where
  high : ∀ k < 32, frame.1.toNat.testBit (31 - k) = (ws[k]?).any short
  low : ∀ k, 32 ≤ k → k < 39 → frame.2.toNat.testBit (63 - k) = (ws[k]?).any short
  unused : ∀ j < 25, frame.2.toNat.testBit j = false

/-- 39 recorded pulses spell the two words received. -/
theorem Recorded.spells {bh bl cnt : UInt32} {ws : List ℕ} (h : Recorded bh bl cnt ws)
    (hlen : ws.length = 39) : Spells (bh, bl) ws where
  high k hk := by
    have hpos : 31 - (31 - k) = k := by omega
    rw [h.bh (by omega) (31 - k) (by omega), hpos]
  low k hlo hhi := by
    have hpos : 63 - (63 - k) = k := by omega
    rw [h.bl (by omega) (63 - k) (by omega), hpos]
  unused j hj := by
    rw [h.bl (by omega) j (by omega), List.getElem?_eq_none (by omega)]
    rfl

/-- A frame tells of its pulses only which are short. -/
theorem Spells.congr {frame : UInt32 × UInt32} {ws ws' : List ℕ} (h : Spells frame ws)
    (hshort : ws.map short = ws'.map short) : Spells frame ws' := by
  have hany : ∀ k : ℕ, (ws[k]?).any short = (ws'[k]?).any short := by
    intro k
    have hk := congrArg (fun l : List Bool => (l[k]?).any id) hshort
    simpa [List.getElem?_map, Option.any_map] using hk
  exact ⟨fun k hk => (h.high k hk).trans (hany k), fun k hlo hhi => (h.low k hlo hhi).trans (hany k),
    h.unused⟩

namespace Receiver

/-! ## What is left to run -/

/-- The statements that are left, each with the length of the pulse it is about. -/
def todo (r : Receiver) : List (Stmt × ℕ) :=
  r.running.map (·, r.current.width) ++
    r.queue.flatMap fun e => e.handler.body.map (·, e.width)

/-- The pulses that are still to be recorded. -/
def unrecorded (ps : List (Stmt × ℕ)) : List ℕ :=
  ps.filterMap fun p => if p.1 = .record then some p.2 else none

/-- How far the timer is with a pulse. -/
inductive Phase where
  | low
  | cleared
  | high
  | stopped (width : ℕ)
deriving DecidableEq

/-- A pulse is started, stopped and recorded before the next one is. -/
def Phase.next (phase : Phase) (p : Stmt × ℕ) : Option Phase :=
  match p.1 with
  | .timerReset => if phase = .low then some .cleared else none
  | .timerStart => if phase = .cleared then some .high else none
  | .timerStop => if phase = .high then some (.stopped p.2) else none
  | .record => if phase = .stopped p.2 then some .low else none
  | _ => some phase

/-- What the timer holds in a phase. -/
def Phase.Holds (t : Timer) : Phase → Prop
  | .low => True
  | .cleared => t.time = 0
  | .high => t.time = 0 ∧ t.running = true
  | .stopped width => t.running = false ∧ short t.time = short width

/-- The phase of a pin with nothing left to run. -/
def Phase.ofLevel (level : Bool) : Phase := if level then .high else .low

/-- What the pin had behind `past` is recorded in its order: first what `taken` has of it
while the copy is checked, then what the frame has, then what is left. -/
structure Paired (past : List ℕ) (r : Receiver) : Prop where
  phase : ∃ phase : Phase, r.todo.foldlM Phase.next phase = some (.ofLevel r.level) ∧
    phase.Holds r.capture.t
  recorded : ∀ p ∈ r.recorded, short p.1 = short p.2
  pulses : ∃ before,
    r.pulses = past ++ before ++ (r.recorded.map Prod.snd ++ unrecorded r.todo)
  taken : (∃ bh bl cnt, .check bh bl cnt ∈ r.running) →
    (∀ p ∈ r.taken, short p.1 = short p.2) ∧ ∃ before,
      r.pulses =
        past ++ before ++ (r.taken.map Prod.snd ++ (r.recorded.map Prod.snd ++ unrecorded r.todo))

/-- Nothing is on the way: the pin is low, and nothing is posted, running or recorded. -/
structure Quiet (r : Receiver) : Prop where
  level : r.level = false
  queue : r.queue = []
  running : r.running = []
  recorded : r.recorded = []

/-- An edge finds its handler attached. -/
def Watched (r : Receiver) : Step → Prop
  | .edge => (if r.level then r.capture.onFall else r.capture.onRise) = true
  | _ => True

/-- Where the timer is stopped, it has run over the threshold if and only if the pulse was. -/
def Steady (r : Receiver) : Step → Prop
  | .exec => r.running.head? = some .timerStop →
      short (r.capture.now - r.capture.t.startTime) = short r.current.width
  | _ => True

instance (r : Receiver) : ∀ x, Decidable (r.Watched x)
  | .edge => inferInstanceAs (Decidable (_ = _))
  | .wait _ => inferInstanceAs (Decidable True)
  | .exec => inferInstanceAs (Decidable True)

instance (r : Receiver) : ∀ x, Decidable (r.Steady x)
  | .edge => inferInstanceAs (Decidable True)
  | .wait _ => inferInstanceAs (Decidable True)
  | .exec => inferInstanceAs (Decidable (_ → _))

/-- The pulses still to be recorded by statements in a row. -/
theorem unrecorded_append (ps qs : List (Stmt × ℕ)) :
    unrecorded (ps ++ qs) = unrecorded ps ++ unrecorded qs :=
  List.filterMap_append

/-- A posted handler adds its statements behind those to do. -/
theorem todo_post (r : Receiver) (e : Posted) :
    (r.post e).todo = r.todo ++ e.handler.body.map (·, e.width) := by
  simp [todo, post, List.append_assoc]

/-- The running statement is the first of those to do. -/
theorem todo_cons {r : Receiver} {s : Stmt} {rest : List Stmt} (h : r.running = s :: rest) :
    r.todo = (s, r.current.width) :: { r with running := rest }.todo := by
  simp [todo, h]

section steps

variable {past : List ℕ} {r : Receiver}

/-- A receiver at rest has every pulse recorded. -/
theorem Quiet.paired (h : r.Quiet) : Paired r.pulses r where
  phase := by
    refine ⟨.low, ?_, trivial⟩
    simp [todo, h.running, h.queue, h.level, Phase.ofLevel]
  recorded p hp := by simp [h.recorded] at hp
  pulses := ⟨[], by simp [todo, h.running, h.queue, h.recorded, unrecorded]⟩
  taken hcheck := by simp [h.running] at hcheck

/-- Only the timer counts of the capture. -/
theorem Paired.onCapture {f : Capture → Capture} (h : r.Paired past)
    (hf : (f r.capture).t = r.capture.t) : (r.onCapture f).Paired past := by
  obtain ⟨phase, hfold, hholds⟩ := h.phase
  rw [← hf] at hholds
  exact ⟨⟨phase, hfold, hholds⟩, h.recorded, h.pulses, h.taken⟩

/-- What is posted carries the pin from its phase before to its phase now, and is about the
pulses that came on meanwhile. -/
theorem Paired.post {r' : Receiver} {e : Posted} {widths : List ℕ} (h : r.Paired past)
    (htodo : r'.todo = r.todo) (hrunning : r'.running = r.running) (ht : r'.capture.t = r.capture.t)
    (hrecorded : r'.recorded = r.recorded) (htaken : r'.taken = r.taken)
    (hpulses : r'.pulses = r.pulses ++ widths)
    (hwidths : unrecorded (e.handler.body.map (·, e.width)) = widths)
    (hphase : (e.handler.body.map (·, e.width)).foldlM Phase.next (.ofLevel r.level) =
      some (.ofLevel r'.level)) : (r'.post e).Paired past := by
  have hmore : unrecorded (r'.post e).todo = unrecorded r.todo ++ widths := by
    rw [todo_post, unrecorded_append, hwidths, htodo]
  have hadd : ∀ {front}, r.pulses = front ++ unrecorded r.todo →
      (r'.post e).pulses = front ++ unrecorded (r'.post e).todo := by
    intro front hfront
    rw [hmore, ← List.append_assoc, ← hfront]
    exact hpulses
  refine ⟨?_, ?_, ?_, fun hcheck => ?_⟩
  · obtain ⟨phase, hfold, hholds⟩ := h.phase
    rw [← ht] at hholds
    refine ⟨phase, ?_, hholds⟩
    rw [todo_post, List.foldlM_append, htodo, hfold]
    exact hphase
  · show ∀ p ∈ r'.recorded, _
    rw [hrecorded]
    exact h.recorded
  · obtain ⟨before, hfront⟩ := h.pulses
    rw [← List.append_assoc] at hfront
    refine ⟨before, ?_⟩
    rw [hadd hfront, ← List.append_assoc]
    show _ ++ r.recorded.map Prod.snd ++ _ = _ ++ r'.recorded.map Prod.snd ++ _
    rw [hrecorded]
  · have hcheck : ∃ bh bl cnt, .check bh bl cnt ∈ r.running := hrunning ▸ hcheck
    obtain ⟨hshort, before, hfront⟩ := h.taken hcheck
    rw [← List.append_assoc, ← List.append_assoc] at hfront
    refine ⟨?_, before, ?_⟩
    · show ∀ p ∈ r'.taken, _
      rw [htaken]
      exact hshort
    · rw [hadd hfront, ← List.append_assoc, ← List.append_assoc]
      show _ ++ r.taken.map Prod.snd ++ r.recorded.map Prod.snd ++ _ =
        _ ++ r'.taken.map Prod.snd ++ r'.recorded.map Prod.snd ++ _
      rw [htaken, hrecorded]

/-- The event of an expiry is about no pulse. -/
theorem Paired.expired {e : Posted} (h : r.Paired past)
    (he : e.handler = .timeout ∨ e.handler = .restart) : (r.post e).Paired past := by
  refine h.post rfl rfl rfl rfl rfl (List.append_nil _).symm ?_ ?_
  · rcases he with he | he <;> rw [he] <;> rfl
  · rcases he with he | he <;> rw [he] <;> rfl

/-- The second timeout keeps every pulse recorded or waiting. -/
theorem Paired.expireT2 (h : r.Paired past) (limit : ℕ) : (r.expireT2 limit).Paired past := by
  unfold Receiver.expireT2
  split
  · split
    · exact (h.onCapture rfl).expired (.inl rfl)
    · exact h
  · exact h

/-- The third timeout keeps every pulse recorded or waiting. -/
theorem Paired.expireT3 (h : r.Paired past) (limit : ℕ) : (r.expireT3 limit).Paired past := by
  unfold Receiver.expireT3
  split
  · split
    · exact (h.onCapture rfl).expired (.inr rfl)
    · exact h
  · exact h

/-- Time passing keeps every pulse recorded or waiting. -/
theorem Paired.wait (h : r.Paired past) (us : ℕ) : (r.wait us).Paired past := by
  unfold Receiver.wait
  dsimp only
  split
  · exact ((h.expireT3 _).expireT2 _).onCapture rfl
  · exact ((h.expireT2 _).expireT3 _).onCapture rfl

/-- An edge that finds its handler attached posts the statements for its pulse. -/
theorem Paired.edge (h : r.Paired past) (hw : r.Watched .edge) : r.edge.Paired past := by
  have hon : (if r.level then r.capture.onFall else r.capture.onRise) = true := hw
  unfold Receiver.edge
  dsimp only
  split at hon
  · rename_i hlevel
    rw [if_pos hlevel, if_pos hon]
    refine h.post rfl rfl rfl rfl rfl rfl rfl ?_
    rw [hlevel]
    simp [Handler.body, Phase.next, Phase.ofLevel]
  · rename_i hlevel
    rw [if_neg hlevel, if_pos hon]
    refine h.post rfl rfl rfl rfl rfl (List.append_nil _).symm rfl ?_
    rw [Bool.not_eq_true] at hlevel
    rw [hlevel]
    rfl

/-- A dispatch takes the first handler: its pulse is the first one waiting. -/
theorem Paired.dispatch {e : Posted} {queue : List Posted} (h : r.Paired past) (hr : r.running = [])
    (hq : r.queue = e :: queue) :
    Paired past { r with queue := queue, current := e, running := e.handler.body } := by
  have htodo : { r with queue := queue, current := e, running := e.handler.body }.todo = r.todo := by
    simp [todo, hr, hq]
  have hphase := h.phase
  have hpulses := h.pulses
  rw [← htodo] at hphase hpulses
  refine ⟨hphase, h.recorded, hpulses, ?_⟩
  rintro ⟨bh, bl, cnt, hmem⟩
  exact absurd hmem (check_not_mem_body bh bl cnt e.handler)

/-- The phase behind the statement in front. -/
theorem Paired.next {s : Stmt} {rest : List Stmt} (h : r.Paired past) (hr : r.running = s :: rest) :
    ∃ phase phase' : Phase, phase.Holds r.capture.t ∧
      phase.next (s, r.current.width) = some phase' ∧
      { r with running := rest }.todo.foldlM Phase.next phase' = some (.ofLevel r.level) := by
  obtain ⟨phase, hfold, hholds⟩ := h.phase
  rw [todo_cons hr, List.foldlM_cons] at hfold
  cases hnext : phase.next (s, r.current.width) with
  | none =>
    rw [hnext] at hfold
    exact absurd hfold (by rintro ⟨⟩)
  | some phase' =>
    rw [hnext] at hfold
    exact ⟨phase, phase', hholds, hnext, hfold⟩

/-- A statement but `record` records nothing, so the rest of its handler is paired as before. -/
theorem Paired.rest {s : Stmt} {rest : List Stmt} (h : r.Paired past) (hr : r.running = s :: rest)
    (hs : s ≠ .record) {phase : Phase} {t : Timer} (hholds : phase.Holds t)
    (hfold : { r with running := rest }.todo.foldlM Phase.next phase = some (.ofLevel r.level)) :
    Paired past { r with running := rest, capture := { r.capture with t := t } } := by
  have hsame : unrecorded r.todo = unrecorded { r with running := rest }.todo := by
    rw [todo_cons hr]
    exact List.filterMap_cons_none (if_neg hs)
  have hpulses := h.pulses
  have htaken := h.taken
  rw [hsame] at hpulses htaken
  refine ⟨⟨phase, hfold, hholds⟩, h.recorded, hpulses, ?_⟩
  rintro ⟨bh, bl, cnt, hmem⟩
  exact htaken ⟨bh, bl, cnt, by rw [hr]; exact List.mem_cons_of_mem s hmem⟩

/-- `record` moves the first waiting pulse into the words received. -/
theorem Paired.record {rest : List Stmt} (h : r.Paired past) (hr : r.running = .record :: rest) :
    ({ r with running := rest }.stmt .record).Paired past := by
  obtain ⟨phase, phase', hholds, hnext, hfold⟩ := h.next hr
  have hphase : phase = .stopped r.current.width ∧ .low = phase' := by
    simpa [Phase.next] using hnext
  obtain ⟨rfl, rfl⟩ := hphase
  obtain ⟨hrunning, hshort⟩ := hholds
  have hreading : r.capture.t.time + r.capture.t.slicetime r.capture.now = r.capture.t.time := by
    simp [Timer.slicetime, hrunning]
  have hfirst : unrecorded r.todo = r.current.width :: unrecorded { r with running := rest }.todo := by
    rw [todo_cons hr]
    exact List.filterMap_cons_some (if_pos rfl)
  have hmoved : r.recorded.map Prod.snd ++ unrecorded r.todo =
      (r.recorded ++ [(r.capture.t.time, r.current.width)]).map Prod.snd ++
        unrecorded { r with running := rest }.todo := by
    rw [hfirst, List.map_append, List.append_assoc]
    rfl
  have hpulses := h.pulses
  have htaken := h.taken
  rw [hmoved] at hpulses htaken
  rw [stmt]
  dsimp only
  rw [hreading]
  refine ⟨⟨.low, hfold, trivial⟩, fun p hp => ?_, hpulses, ?_⟩
  · rcases List.mem_append.1 hp with hp | hp
    · exact h.recorded p hp
    · rw [List.mem_singleton.1 hp]
      exact hshort
  · rintro ⟨bh, bl, cnt, hmem⟩
    exact htaken ⟨bh, bl, cnt, by rw [hr]; exact List.mem_cons_of_mem _ hmem⟩

/-- Taking the words starts the next frame with no pulse recorded. -/
theorem Paired.take {rest : List Stmt} (h : r.Paired past) (hr : r.running = .take :: rest) :
    ({ r with running := rest }.stmt .take).Paired past := by
  obtain ⟨phase, phase', hholds, hnext, hfold⟩ := h.next hr
  obtain rfl : phase = phase' := Option.some.inj hnext
  have hrest := h.rest hr (by rintro ⟨⟩) hholds hfold
  obtain ⟨before, hpulses⟩ := hrest.pulses
  refine ⟨⟨phase, hfold, hholds⟩, fun p hp => absurd hp List.not_mem_nil,
    ⟨before ++ r.recorded.map Prod.snd, ?_⟩, fun _ => ⟨h.recorded, before, hpulses⟩⟩
  refine hpulses.trans ?_
  simp only [List.append_assoc]
  rfl

/-- The check of a frame reads its own copy of the words. -/
theorem Paired.check {bh bl cnt : UInt32} {rest : List Stmt} (h : r.Paired past)
    (hr : r.running = .check bh bl cnt :: rest) :
    ({ r with running := rest }.stmt (.check bh bl cnt)).Paired past := by
  obtain ⟨phase, phase', hholds, hnext, hfold⟩ := h.next hr
  obtain rfl : phase = phase' := Option.some.inj hnext
  have hrest := h.rest hr (by rintro ⟨⟩) hholds hfold
  rw [stmt]
  split
  · -- the statements of `eee` are about no pulse
    have hbody : ∀ ps : List (Stmt × ℕ),
        ((eeeBody bh bl).map (·, r.current.width) ++ ps).foldlM Phase.next phase =
            ps.foldlM Phase.next phase ∧
          unrecorded ((eeeBody bh bl).map (·, r.current.width) ++ ps) = unrecorded ps := by
      intro ps
      rw [eeeBody]
      split <;> exact ⟨rfl, rfl⟩
    have hnocheck : ∀ bh' bl' cnt', .check bh' bl' cnt' ∉ eeeBody bh bl := by
      intro bh' bl' cnt'
      rw [eeeBody]
      split <;> simp
    have htodo : { r with running := eeeBody bh bl ++ rest }.todo =
        (eeeBody bh bl).map (·, r.current.width) ++ { r with running := rest }.todo := by
      simp only [todo, List.map_append, List.append_assoc]
    obtain ⟨hfold', hsame⟩ := hbody { r with running := rest }.todo
    rw [← htodo] at hfold' hsame
    have hpulses := hrest.pulses
    have htaken := hrest.taken
    rw [← hsame] at hpulses htaken
    refine ⟨⟨phase, hfold'.trans hfold, hholds⟩, h.recorded, hpulses, ?_⟩
    rintro ⟨bh', bl', cnt', hmem⟩
    rcases List.mem_append.1 hmem with hmem | hmem
    · exact absurd hmem (hnocheck bh' bl' cnt')
    · exact htaken ⟨bh', bl', cnt', hmem⟩
  · exact hrest

/-- One statement of a handler, where the timer is stopped in time. -/
theorem Paired.exec (h : r.Paired past) (hs : r.Steady .exec) : r.exec.Paired past := by
  refine exec_cases r h (fun e queue hr hq => h.dispatch hr hq) fun s rest hr => ?_
  obtain ⟨phase, phase', hholds, hnext, hfold⟩ := h.next hr
  cases s with
  | record => exact h.record hr
  | take => exact h.take hr
  | check bh bl cnt => exact h.check hr
  | timerReset =>
    have hphase : phase = .low ∧ .cleared = phase' := by simpa [Phase.next] using hnext
    obtain ⟨rfl, rfl⟩ := hphase
    have hreset : Phase.cleared.Holds (r.capture.t.reset r.capture.now) := rfl
    exact h.rest hr (by rintro ⟨⟩) hreset hfold
  | timerStart =>
    have hphase : phase = .cleared ∧ .high = phase' := by simpa [Phase.next] using hnext
    obtain ⟨rfl, rfl⟩ := hphase
    have hzero : r.capture.t.time = 0 := hholds
    have hstart : Phase.high.Holds (r.capture.t.start r.capture.now) := by
      unfold Timer.start
      split
      · rename_i hrunning
        exact ⟨hzero, hrunning⟩
      · exact ⟨hzero, rfl⟩
    exact h.rest hr (by rintro ⟨⟩) hstart hfold
  | timerStop =>
    have hphase : phase = .high ∧ .stopped r.current.width = phase' := by
      simpa [Phase.next] using hnext
    obtain ⟨rfl, rfl⟩ := hphase
    obtain ⟨hzero, hrunning⟩ := hholds
    have htime : (r.capture.t.stop r.capture.now).time =
        r.capture.now - r.capture.t.startTime := by
      simp [Timer.stop, Timer.slicetime, hzero, hrunning]
    have hstop : (Phase.stopped r.current.width).Holds (r.capture.t.stop r.capture.now) := by
      refine ⟨rfl, ?_⟩
      rw [htime]
      exact hs (by rw [hr]; rfl)
    exact h.rest hr (by rintro ⟨⟩) hstop hfold
  | _ =>
    obtain rfl : phase = phase' := Option.some.inj hnext
    have hrest : Paired past { r with running := rest } := h.rest hr (by rintro ⟨⟩) hholds hfold
    rw [stmt]
    exact hrest.onCapture rfl

end steps

/-- Along a run of steady, watched steps every pulse is recorded or waiting. -/
theorem paired_run {past : List ℕ} {r : Receiver} {ss : List Step} (h : r.Paired past)
    (hss : Along step (fun r x => r.Watched x ∧ r.Steady x) r ss) :
    (run step r ss).Paired past := by
  refine run_invariant_along hss h fun r x hx h => ?_
  cases x with
  | edge => exact h.edge hx.1
  | wait us => exact h.wait us
  | exec => exact h.exec hx.2

/-! ## Calls of `eee` -/

/-- Where the copy is checked, it is that of what was taken. -/
theorem Point.check {r : Receiver} {h : Handler} {bh bl cnt : UInt32} {rest : List Stmt}
    (hp : Point r h (.check bh bl cnt :: rest)) : Recorded bh bl cnt (r.taken.map Prod.fst) := by
  cases hp with
  | body h hs => exact absurd (hs.subset List.mem_cons_self) (check_not_mem_body bh bl cnt h)
  | copied bh' bl' cnt' hs hc hrec =>
    have hsame : bh = bh' ∧ bl = bl' ∧ cnt = cnt' := by
      simpa using hs.subset List.mem_cons_self
    obtain ⟨rfl, rfl, rfl⟩ := hsame
    exact hrec
  | stable bh' bl' hs => exact absurd (hs.subset List.mem_cons_self) (by simp)
  | unstable bh' bl' hs => exact absurd (hs.subset List.mem_cons_self) (by simp)

/-- In the step `eee` is called with `frame`. -/
def Calls (r : Receiver) (x : Step) (frame : UInt32 × UInt32) : Prop :=
  (r.step x).capture.frames = r.capture.frames ++ [frame]

/-- The check calls `exec` exactly on a frame of 39 pulses. -/
theorem calls_exec_check {r : Receiver} {bh bl cnt : UInt32} {rest : List Stmt}
    (hr : r.running = .check bh bl cnt :: rest) (frame : UInt32 × UInt32) :
    r.Calls .exec frame ↔ cnt = 39 ∧ frame = (bh, bl) := by
  rw [Calls, step, exec_cons hr, stmt]
  split
  · rename_i h39
    show r.capture.frames ++ [_] = _ ↔ _
    rw [List.append_cancel_left_eq, List.singleton_inj, eq_comm]
    exact ⟨fun h => ⟨h39, h⟩, fun h => h.2⟩
  · rename_i h39
    show r.capture.frames = _ ↔ _
    refine ⟨fun h => ?_, fun h => absurd h.1 h39⟩
    exact absurd h.symm (by simp)

/-- Nothing but the count of a copy calls `eee`. -/
theorem Calls.check {r : Receiver} {x : Step} {frame : UInt32 × UInt32} (h : r.Calls x frame) :
    x = .exec ∧ ∃ rest, r.running = .check frame.1 frame.2 39 :: rest := by
  have hsame : (r.step x).capture.frames ≠ r.capture.frames := by
    rw [show (r.step x).capture.frames = _ from h]
    simp
  cases x with
  | edge => exact absurd (between_edge r).frames hsame
  | wait us => exact absurd (between_wait us r).frames hsame
  | exec =>
    refine ⟨rfl, ?_⟩
    revert hsame
    refine exec_cases (P := fun r' => r'.capture.frames ≠ r.capture.frames → _) r
      (absurd rfl) (fun _ _ _ _ => absurd rfl) fun s rest hr hsame => ?_
    cases s with
    | check bh bl cnt =>
      obtain ⟨rfl, rfl⟩ := (calls_exec_check hr frame).1 h
      exact ⟨rest, hr⟩
    | record =>
      rw [stmt, Capture.record_eq] at hsame
      exact absurd rfl hsame
    | _ => exact absurd rfl hsame

/-- The count is 39 exactly for 39 pulses modulo 2^32. -/
theorem count_eq_iff {cnt : UInt32} {ws : List (ℕ × ℕ)} {bh bl : UInt32}
    (h : Recorded bh bl cnt (ws.map Prod.fst)) : cnt = 39 ↔ ws.length % 2 ^ 32 = 39 := by
  rw [h.cnt, List.length_map, ← UInt32.toNat_inj, UInt32.toNat_ofNat]
  rfl

/-- **Late dispatch.** In every run, `eee` is called behind a `timeout` if and only if `fall`
ran 39 times, counted in 32 bits, since the `timeout` before; and then the bits are those of
the readings `fall` took. And where the receiver was quiet, every edge has found its handler
attached, and no delay has carried a pulse over the threshold, they are the bits of 39 pulses
the pin has had since, one behind the other. -/
theorem frame_of_late_dispatch (level : Bool) (ss₀ ss : List Step) :
    let r₀ := run step (start level) ss₀
    let r := run step r₀ ss
    (∀ bh bl cnt rest, r.running = .check bh bl cnt :: rest →
        (r.Calls .exec (bh, bl) ↔ r.taken.length % 2 ^ 32 = 39)) ∧
      ∀ x frame, r.Calls x frame →
        r.taken.length % 2 ^ 32 = 39 ∧
          (r.taken.length = 39 →
            Spells frame (r.taken.map Prod.fst) ∧
              (r₀.Quiet → Along step (fun r x => r.Watched x ∧ r.Steady x) r₀ ss →
                ∃ before ws after, r.pulses = r₀.pulses ++ before ++ ws ++ after ∧
                  ws.length = 39 ∧ Spells frame ws)) := by
  intro r₀ r
  have hfollowed : r.Followed := by
    have h := followed_run level (ss₀ ++ ss)
    rw [run_append] at h
    exact h
  constructor
  · intro bh bl cnt rest hr
    have hpoint := hfollowed.point
    rw [hr] at hpoint
    rw [calls_exec_check hr, ← count_eq_iff hpoint.check]
    exact ⟨fun h => h.1, fun h => ⟨h, rfl⟩⟩
  · intro x frame hcall
    obtain ⟨-, rest, hr⟩ := hcall.check
    have hpoint := hfollowed.point
    rw [hr] at hpoint
    have hcopied := hpoint.check
    refine ⟨(count_eq_iff hcopied).1 rfl, fun h39 => ?_⟩
    have hspells : Spells frame (r.taken.map Prod.fst) := hcopied.spells (by rw [List.length_map, h39])
    refine ⟨hspells, fun hquiet hss => ?_⟩
    have hcheck : .check frame.1 frame.2 39 ∈ r.running := by
      rw [hr]
      exact List.mem_cons_self
    obtain ⟨hshort, before, hpulses⟩ := (paired_run hquiet.paired hss).taken ⟨_, _, _, hcheck⟩
    refine ⟨before, r.taken.map Prod.snd, r.recorded.map Prod.snd ++ unrecorded r.todo, ?_, ?_, ?_⟩
    · rw [List.append_assoc]
      exact hpulses
    · rw [List.length_map, h39]
    · apply hspells.congr
      rw [List.map_map, List.map_map]
      exact List.map_congr_left hshort

/-- A stable frame whose handlers all run late: `rise` by 100 microseconds and `fall` by 150,
which carries no pulse over the threshold, and `timeout` by 70. -/
def delayedPulses : List Step :=
  (List.range 39).flatMap (fun k => List.flatten [[.wait 1000, .edge, .wait 100],
    List.replicate 5 .exec, [.wait (if k = 12 ∨ k = 13 then 300 else 900), .edge, .wait 150],
    List.replicate 6 .exec]) ++ [.wait timeoutUs, .wait 70] ++ List.replicate 5 .exec

/-- 39 pulses whose handlers run late, but in their order, give their frame. -/
theorem frame_of_delayedPulses :
    let r := run step (run step (start false) []) delayedPulses
    ∃ before ws after, r.pulses = [] ++ before ++ ws ++ after ∧ ws.length = 39 ∧
      Spells (0xc0000, 0) ws := by
  have h := (frame_of_late_dispatch false [] delayedPulses).2 .exec (0xc0000, 0)
  have hcall : Calls (run step (run step (start false) []) delayedPulses) .exec (0xc0000, 0) := by
    unfold Calls
    decide +kernel
  exact ((h hcall).2 (by decide +kernel)).2 ⟨rfl, rfl, rfl, rfl⟩ (by decide +kernel)

/-- The dispatch stands still from the first falling edge to the third: the second rising edge
is lost, and `fall` runs twice in a row. -/
def mergedPulses : List Step :=
  List.flatten [[.edge], List.replicate 5 .exec,
    [.wait 400, .edge, .wait 1000, .edge, .wait 1000, .edge], List.replicate 12 .exec,
    (List.replicate 37 (promptPulse 1000 1000)).flatten, [.wait timeoutUs], List.replicate 6 .exec]

/-- No edge is lost, but the first `fall` runs 400 microseconds late. -/
def latePulses : List Step :=
  List.flatten [[.edge], List.replicate 5 .exec, [.wait 400, .edge, .wait 400],
    List.replicate 6 .exec, (List.replicate 38 (promptPulse 1000 1000)).flatten,
    [.wait timeoutUs], List.replicate 6 .exec]

/-- A burst of 39 pulses is passed to `eee` with bits that are not those of its pulses. -/
def Corrupted (ss : List Step) : Prop :=
  let r := run step (start false) ss
  r.pulses.length = 39 ∧ ∃ frame, r.capture.frames = [frame] ∧ ¬ Spells frame r.pulses

/-- Two runs whose handlers run too late and give a frame that was never sent. -/
theorem late_dispatch_corrupts :
    (Corrupted mergedPulses ∧ ¬ Along step Watched (start false) mergedPulses) ∧
      Corrupted latePulses ∧ Along step Watched (start false) latePulses := by
  refine ⟨⟨⟨by decide +kernel, (0, 0), by decide +kernel, fun h => ?_⟩, by decide +kernel⟩,
    ⟨by decide +kernel, (0, 0), by decide +kernel, fun h => ?_⟩, by decide +kernel⟩
  · have hbit := h.high 0 (by decide)
    exact absurd hbit (by decide +kernel)
  · have hbit := h.high 0 (by decide)
    exact absurd hbit (by decide +kernel)

end Receiver

end WeightScale
