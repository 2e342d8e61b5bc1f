import WeightScale.Analysis.Coherence

/-!
# Two threads on one display

The I2C class serialises single writes, and an update of a line is four of them: clear, set
cursor, set colour, print. `com_main` and, on the event thread, `kaiten_stop` both update
lines, with no lock held over an update as `printOLED` holds one over a page. Between the
two writes that set the cursor and print, the cursor is the display's alone.
-/

set_option autoImplicit false

namespace WeightScale

open Embedded

/-! ## Writes of two threads in bus order -/

/-- The threads that write to the display. -/
inductive Thread where
  | main
  | event
deriving DecidableEq

def Thread.other : Thread → Thread
  | .main => .event
  | .event => .main

/-- There are two threads. -/
theorem Thread.eq_or_eq_other (th th' : Thread) : th' = th ∨ th' = th.other := by
  cases th <;> cases th' <;> simp [other]

/-- The other thread is another one. -/
theorem Thread.other_ne (th : Thread) : th.other ≠ th := by
  cases th <;> simp [other]

/-- The other of the other thread is the thread itself. -/
@[simp] theorem Thread.other_other (th : Thread) : th.other.other = th := by
  cases th <;> rfl

/-- How far a thread is with the update of a line. -/
inductive Phase where
  | idle
  | cleared (l : ℕ)
  | placed (l : ℕ)
deriving DecidableEq

namespace Phase

/-- What a command of the thread does to its phase. -/
def next (p : Phase) : LedCmd → Phase
  | .fillRect y _ => .cleared (y / 8)
  | .setCursor _ y => .placed (y / 8)
  | .print _ => .idle
  | _ => p

/-- The line that is being updated. -/
def line : Phase → Option ℕ
  | .idle => none
  | .cleared l | .placed l => some l

/-- The cursor is set and the text not yet printed. -/
def isPlaced : Phase → Bool
  | .placed _ => true
  | _ => false

end Phase

/-- The display and the phases of the two threads. -/
structure Bus where
  display : Display := {}
  phase : Thread → Phase := fun _ => .idle

/-- A schedule is the writes of both threads in bus order. -/
abbrev Schedule := List (Thread × LedCmd)

/-- The commands that `th` writes. -/
def writes (th : Thread) (s : Schedule) : List LedCmd :=
  (s.filter fun c => c.1 = th).map Prod.snd

namespace Bus

/-- A write of one thread reaches the display and advances the thread. -/
def step (advance : Advance) (b : Bus) (c : Thread × LedCmd) : Bus where
  display := b.display.apply advance c.2
  phase := Function.update b.phase c.1 ((b.phase c.1).next c.2)

/-- No thread sets the cursor while the other has set it and not yet printed, and none prints
on a line that the other is updating. -/
def NoMixing (b : Bus) : Thread × LedCmd → Prop
  | (th, .setCursor _ _) => (b.phase th.other).isPlaced = false
  | (th, .print _) => (b.phase th.other).line ≠ (b.phase th).line
  | _ => True

instance decidableNoMixing (b : Bus) : ∀ c, Decidable (b.NoMixing c)
  | (th, .setCursor _ _) => inferInstanceAs (Decidable ((b.phase th.other).isPlaced = false))
  | (th, .print _) => inferInstanceAs (Decidable ((b.phase th.other).line ≠ (b.phase th).line))
  | (_, .fillRect _ _) => inferInstanceAs (Decidable True)
  | (_, .setTextColor _) => inferInstanceAs (Decidable True)
  | (_, .other) => inferInstanceAs (Decidable True)

/-- A print draws on the line that its own thread has set. -/
def PrintsOnOwnLine (b : Bus) : Thread × LedCmd → Prop
  | (th, .print _) => b.phase th = .placed b.display.cursorLine
  | _ => True

instance decidablePrintsOnOwnLine (b : Bus) : ∀ c, Decidable (b.PrintsOnOwnLine c)
  | (th, .print _) => inferInstanceAs (Decidable (b.phase th = .placed b.display.cursorLine))
  | (_, .setCursor _ _) => inferInstanceAs (Decidable True)
  | (_, .fillRect _ _) => inferInstanceAs (Decidable True)
  | (_, .setTextColor _) => inferInstanceAs (Decidable True)
  | (_, .other) => inferInstanceAs (Decidable True)

end Bus

/-- The updates of `th` in a serial order. -/
def updatesBy (th : Thread) (order : List (Thread × Update)) : List Update :=
  (order.filter fun o => o.1 = th).map Prod.snd

/-- The text of the last update of the line `l`. -/
def lastText (order : List (Thread × Update)) (l : ℕ) : Option Text :=
  ((order.filter fun o => o.2.line = l).getLast?).map fun o => o.2.text

/-- Every text is printed on the line its thread has set, and there is a serial order of the
updates of both threads such that in the end each line shows the last update of it. -/
def Schedule.Serial (advance : Advance) (s : Schedule) : Prop :=
  Along (Bus.step advance) Bus.PrintsOnOwnLine {} s ∧
    ∃ order : List (Thread × Update),
      (∀ th, (updatesBy th order).flatMap Update.cmds = writes th s) ∧
        ∀ l, (run (Bus.step advance) {} s).display.line l = (lastText order l).toList

/-- A serial schedule prints every text on its own line. -/
theorem Schedule.Serial.prints {advance : Advance} {s : Schedule} (h : s.Serial advance) :
    Along (Bus.step advance) Bus.PrintsOnOwnLine {} s := h.1

@[simp] theorem writes_nil (th : Thread) : writes th [] = [] := rfl

/-- The writes of a thread, with one more in front. -/
theorem writes_cons (th : Thread) (c : Thread × LedCmd) (s : Schedule) :
    writes th (c :: s) = if c.1 = th then c.2 :: writes th s else writes th s := by
  by_cases h : c.1 = th
  · simp [writes, h]
  · simp [writes, h]

/-- The updates of a thread, with one more in front. -/
theorem updatesBy_cons (th : Thread) (o : Thread × Update) (order : List (Thread × Update)) :
    updatesBy th (o :: order) = if o.1 = th then o.2 :: updatesBy th order
      else updatesBy th order := by
  by_cases h : o.1 = th
  · simp [updatesBy, h]
  · simp [updatesBy, h]

/-- The last text of a line, with one more update in front. -/
theorem lastText_cons (o : Thread × Update) (order : List (Thread × Update)) (l : ℕ) :
    lastText (o :: order) l =
      (lastText order l).or (if o.2.line = l then some o.2.text else none) := by
  by_cases h : o.2.line = l
  · simp only [lastText, List.filter_cons, h, decide_true, if_true, List.getLast?_cons]
    cases (order.filter fun o => o.2.line = l).getLast? <;> simp
  · simp [lastText, h]

/-! ## An update under way -/

/-- A thread in the phase `p` that has still to write `cmds` and to finish the updates `us`. -/
inductive Rest : Phase → List LedCmd → List Update → Prop where
  | idle (us : List Update) : Rest .idle (us.flatMap Update.cmds) us
  | cleared (u : Update) (us : List Update) :
      Rest (.cleared u.line) (u.cmds.drop 1 ++ us.flatMap Update.cmds) (u :: us)
  | placed (u : Update) (us : List Update) :
      Rest (.placed u.line) (u.cmds.drop 2 ++ us.flatMap Update.cmds) (u :: us)
  | coloured (u : Update) (us : List Update) :
      Rest (.placed u.line) (u.cmds.drop 3 ++ us.flatMap Update.cmds) (u :: us)

/-- A thread without writes left is between updates, with none left. -/
theorem Rest.of_nil {p : Phase} {us : List Update} (h : Rest p [] us) :
    p = .idle ∧ us = [] := by
  generalize hc : ([] : List LedCmd) = cmds at h
  cases h with
  | idle =>
    cases us with
    | nil => exact ⟨rfl, rfl⟩
    | cons u us => simp [Update.cmds] at hc
  | cleared u us => simp [Update.cmds] at hc
  | placed u us => simp [Update.cmds] at hc
  | coloured u us => simp [Update.cmds] at hc

/-- What the next command of a thread can be, and where it leads. -/
theorem Rest.of_cons {p : Phase} {cmd : LedCmd} {cmds : List LedCmd} {us : List Update}
    (h : Rest p (cmd :: cmds) us) :
    ∃ u us', us = u :: us' ∧
      (p = .idle ∧ cmd = .fillRect (8 * u.line) 8 ∧ Rest (.cleared u.line) cmds us ∨
        p = .cleared u.line ∧ cmd = .setCursor 0 (8 * u.line) ∧ Rest (.placed u.line) cmds us ∨
        p = .placed u.line ∧ (∃ rgb, cmd = .setTextColor rgb) ∧ Rest (.placed u.line) cmds us ∨
        p = .placed u.line ∧ cmd = .print u.text ∧ Rest .idle cmds us') := by
  generalize hc : cmd :: cmds = all at h
  cases h with
  | idle =>
    cases us with
    | nil => simp at hc
    | cons u us =>
      simp only [List.flatMap_cons, Update.cmds, List.cons_append, List.cons.injEq] at hc
      obtain ⟨rfl, rfl⟩ := hc
      exact ⟨u, us, rfl, .inl ⟨rfl, rfl, .cleared u us⟩⟩
  | cleared u us =>
    simp only [Update.cmds, List.drop_succ_cons, List.drop_zero, List.cons_append,
      List.cons.injEq] at hc
    obtain ⟨rfl, rfl⟩ := hc
    exact ⟨u, us, rfl, .inr (.inl ⟨rfl, rfl, .placed u us⟩)⟩
  | placed u us =>
    simp only [Update.cmds, List.drop_succ_cons, List.drop_zero, List.cons_append,
      List.cons.injEq] at hc
    obtain ⟨rfl, rfl⟩ := hc
    exact ⟨u, us, rfl, .inr (.inr (.inl ⟨rfl, ⟨_, rfl⟩, .coloured u us⟩))⟩
  | coloured u us =>
    simp only [Update.cmds, List.drop_succ_cons, List.drop_zero, List.cons_append,
      List.nil_append, List.cons.injEq] at hc
    obtain ⟨rfl, rfl⟩ := hc
    exact ⟨u, us, rfl, .inr (.inr (.inr ⟨rfl, rfl, .idle us⟩))⟩

/-! ## What an interleaving without mixing keeps -/

/-- The cursor is where the thread that has set it needs it, a line under way is empty, and
every other line shows its last text. -/
structure Coherent (b : Bus) (shown : ℕ → Option Text) : Prop where
  alone : ∀ th, (b.phase th).isPlaced = true → (b.phase th.other).isPlaced = false
  cursor : ∀ th l, b.phase th = .placed l → b.display.cursorLine = l
  opened : ∀ th l, (b.phase th).line = some l → b.display.line l = []
  closed : ∀ l, (∀ th, (b.phase th).line ≠ some l) → b.display.line l = (shown l).toList

section coherent

variable {b : Bus} {shown : ℕ → Option Text} {th : Thread} {l : ℕ} {advance : Advance}

/-- A write advances its own thread. -/
theorem Bus.phase_step (b : Bus) (th : Thread) (cmd : LedCmd) :
    (b.step advance (th, cmd)).phase th = (b.phase th).next cmd := by
  simp [Bus.step]

/-- A write leaves the other thread where it is. -/
theorem Bus.phase_other_step (b : Bus) (th : Thread) (cmd : LedCmd) :
    (b.step advance (th, cmd)).phase th.other = b.phase th.other := by
  simp [Bus.step, Thread.other_ne]

/-- At the start every line is empty. -/
theorem coherent_start : Coherent {} fun _ => none where
  alone _ h := by simp [Phase.isPlaced] at h
  cursor _ _ h := nomatch h
  opened _ _ h := by simp [Phase.line] at h
  closed _ _ := rfl

/-- It is enough to look at one thread and the other. -/
theorem Coherent.of_phases {p q : Phase} (hp : b.phase th = p) (hq : b.phase th.other = q)
    (halone : ¬ (p.isPlaced = true ∧ q.isPlaced = true))
    (hcursor : ∀ l, p = .placed l ∨ q = .placed l → b.display.cursorLine = l)
    (hopened : ∀ l, p.line = some l ∨ q.line = some l → b.display.line l = [])
    (hclosed : ∀ l, p.line ≠ some l → q.line ≠ some l →
      b.display.line l = (shown l).toList) : Coherent b shown := by
  subst hp hq
  constructor
  · intro th' hth'
    rcases th.eq_or_eq_other th' with rfl | rfl
    · exact Bool.eq_false_iff.mpr fun hq => halone ⟨hth', hq⟩
    · rw [Thread.other_other]
      exact Bool.eq_false_iff.mpr fun hp => halone ⟨hp, hth'⟩
  · intro th' l hth'
    rcases th.eq_or_eq_other th' with rfl | rfl
    · exact hcursor l (.inl hth')
    · exact hcursor l (.inr hth')
  · intro th' l hth'
    rcases th.eq_or_eq_other th' with rfl | rfl
    · exact hopened l (.inl hth')
    · exact hopened l (.inr hth')
  · intro l hl
    exact hclosed l (hl th) (hl th.other)

/-- Clearing a line opens it, whatever the other thread is doing. -/
theorem Coherent.fillRect (h : Coherent b shown) (hp : b.phase th = .idle) :
    Coherent (b.step advance (th, .fillRect (8 * l) 8)) shown := by
  have hth : (b.step advance (th, .fillRect (8 * l) 8)).phase th = .cleared l := by
    rw [Bus.phase_step, Phase.next, Nat.mul_div_cancel_left l (by decide)]
  have hline (k : ℕ) : (b.step advance (th, .fillRect (8 * l) 8)).display.line k =
      if k = l then [] else b.display.line k := b.display.line_apply_fillRect advance l k
  have hcursor : (b.step advance (th, .fillRect (8 * l) 8)).display.cursorLine =
      b.display.cursorLine := b.display.cursorLine_apply_fillRect advance _ _
  refine Coherent.of_phases hth (b.phase_other_step th _) ?_ ?_ ?_ ?_
  · simp [Phase.isPlaced]
  · rintro k (hk | hk)
    · cases hk
    · rw [hcursor]
      exact h.cursor th.other k hk
  · intro k hk
    rw [hline]
    split
    · rfl
    · rename_i hne
      rcases hk with hk | hk
      · exact absurd (Option.some.inj hk).symm hne
      · exact h.opened th.other k hk
  · intro k hk hother
    rw [hline, if_neg fun heq => hk (congrArg some heq.symm)]
    apply h.closed
    intro th'
    rcases th.eq_or_eq_other th' with rfl | rfl
    · simp [hp, Phase.line]
    · exact hother

/-- The cursor may be set while the other thread has not set it. -/
theorem Coherent.setCursor (h : Coherent b shown) (hp : b.phase th = .cleared l)
    (hother : (b.phase th.other).isPlaced = false) :
    Coherent (b.step advance (th, .setCursor 0 (8 * l))) shown := by
  have hth : (b.step advance (th, .setCursor 0 (8 * l))).phase th = .placed l := by
    rw [Bus.phase_step, Phase.next, Nat.mul_div_cancel_left l (by decide)]
  have hcursor : (b.step advance (th, .setCursor 0 (8 * l))).display.cursorLine = l :=
    b.display.cursorLine_apply_setCursor advance 0 l
  refine Coherent.of_phases hth (b.phase_other_step th _) ?_ ?_ ?_ ?_
  · simp [hother]
  · rintro k (hk | hk)
    · rw [hcursor, Phase.placed.inj hk]
    · simp [hk, Phase.isPlaced] at hother
  · rintro k (hk | hk)
    · exact h.opened th k (by rw [hp]; exact hk)
    · exact h.opened th.other k hk
  · intro k hk hk'
    apply h.closed
    intro th'
    rcases th.eq_or_eq_other th' with rfl | rfl
    · rw [hp]
      exact hk
    · exact hk'

/-- The colour moves no cursor and clears no line. -/
theorem Coherent.setTextColor (h : Coherent b shown) (rgb : List Byte) :
    Coherent (b.step advance (th, .setTextColor rgb)) shown := by
  have hphase : (b.step advance (th, .setTextColor rgb)).phase = b.phase :=
    Function.update_eq_self th b.phase
  constructor
  · rw [hphase]
    exact h.alone
  · rw [hphase]
    exact h.cursor
  · rw [hphase]
    exact h.opened
  · rw [hphase]
    exact h.closed

/-- The line of the print was empty, and the other thread does not have the cursor. -/
theorem Coherent.print (h : Coherent b shown) (hp : b.phase th = .placed l)
    (hother : (b.phase th.other).line ≠ some l) (t : Text) :
    Coherent (b.step advance (th, .print t)) (Function.update shown l (some t)) := by
  have hth : (b.step advance (th, .print t)).phase th = .idle := Bus.phase_step b th _
  have halone : (b.phase th.other).isPlaced = false := h.alone th (by rw [hp]; rfl)
  have hline (k : ℕ) : (b.step advance (th, .print t)).display.line k =
      b.display.line k ++ if k = l then [t] else [] := by
    rw [← h.cursor th l hp]
    exact b.display.line_apply_print advance t k
  refine Coherent.of_phases hth (b.phase_other_step th _) ?_ ?_ ?_ ?_
  · simp [Phase.isPlaced]
  · rintro k (hk | hk)
    · cases hk
    · simp [hk, Phase.isPlaced] at halone
  · rintro k (hk | hk)
    · cases hk
    · have hne : k ≠ l := fun heq => hother (heq ▸ hk)
      rw [hline, if_neg hne, h.opened th.other k hk, List.nil_append]
  · intro k _ hk
    rw [hline]
    by_cases hkl : k = l
    · subst hkl
      rw [if_pos rfl, h.opened th k (by rw [hp]; rfl), Function.update_self]
      rfl
    · rw [if_neg hkl, List.append_nil, Function.update_of_ne hkl]
      apply h.closed
      intro th'
      rcases th.eq_or_eq_other th' with rfl | rfl
      · rw [hp]
        exact fun heq => hkl (Option.some.inj heq).symm
      · exact hk

/-- What the threads have still to do, after a write of `th`. -/
theorem rest_step (advance : Advance) {s : Schedule} {cmd : LedCmd} {todo : Thread → List Update}
    {us : List Update} (hrest : ∀ th', Rest (b.phase th') (writes th' ((th, cmd) :: s)) (todo th'))
    (hth : Rest ((b.phase th).next cmd) (writes th s) us) (th' : Thread) :
    Rest ((b.step advance (th, cmd)).phase th') (writes th' s) (Function.update todo th us th') := by
  rcases th.eq_or_eq_other th' with rfl | rfl
  · rw [Bus.phase_step, Function.update_self]
    exact hth
  · have h := hrest th.other
    rw [writes_cons, if_neg th.other_ne.symm] at h
    rw [Bus.phase_other_step, Function.update_of_ne th.other_ne]
    exact h

/-- From `b` on, `s` finishes the updates `todo` as in a serial order of them. -/
def SerialFrom (advance : Advance) (b : Bus) (shown : ℕ → Option Text) (s : Schedule)
    (todo : Thread → List Update) : Prop :=
  Along (Bus.step advance) Bus.PrintsOnOwnLine b s ∧
    ∃ order : List (Thread × Update), (∀ th, updatesBy th order = todo th) ∧
      ∀ l, (run (Bus.step advance) b s).display.line l =
        ((lastText order l).or (shown l)).toList

/-- A write in front keeps the serial order of the updates behind. -/
theorem SerialFrom.cons {s : Schedule} {todo : Thread → List Update} {c : Thread × LedCmd}
    (hown : b.PrintsOnOwnLine c) (h : SerialFrom advance (b.step advance c) shown s todo) :
    SerialFrom advance b shown (c :: s) todo := by
  obtain ⟨hprints, order, horder, hline⟩ := h
  exact ⟨⟨hown, hprints⟩, order, horder, hline⟩

/-- A print puts its update in front of those that the rest of the schedule finishes. -/
theorem SerialFrom.cons_print {s : Schedule} {todo : Thread → List Update} {u : Update}
    {us : List Update} (htodo : todo th = u :: us) (hown : b.PrintsOnOwnLine (th, .print u.text))
    (h : SerialFrom advance (b.step advance (th, .print u.text))
      (Function.update shown u.line (some u.text)) s (Function.update todo th us)) :
    SerialFrom advance b shown ((th, .print u.text) :: s) todo := by
  obtain ⟨hprints, order, horder, hline⟩ := h
  refine ⟨⟨hown, hprints⟩, (th, u) :: order, fun th' => ?_, fun l => ?_⟩
  · rw [updatesBy_cons, horder]
    by_cases hth' : th = th'
    · subst hth'
      rw [if_pos rfl, Function.update_self, htodo]
    · rw [if_neg hth', Function.update_of_ne (Ne.symm hth')]
  · rw [run_cons, hline, lastText_cons]
    by_cases hl : u.line = l
    · subst hl
      rw [if_pos rfl, Function.update_self]
      cases lastText order u.line <;> simp
    · rw [if_neg hl, Function.update_of_ne (Ne.symm hl), Option.or_none]

/-- **Without mixing.** The updates take effect whole, in the order of their prints. -/
theorem Coherent.serialFrom {s : Schedule} {todo : Thread → List Update} (h : Coherent b shown)
    (hrest : ∀ th, Rest (b.phase th) (writes th s) (todo th))
    (hmix : Along (Bus.step advance) Bus.NoMixing b s) : SerialFrom advance b shown s todo := by
  induction s generalizing b shown todo with
  | nil =>
    refine ⟨trivial, [], fun th => (hrest th).of_nil.2.symm, fun l => ?_⟩
    apply h.closed
    intro th
    rw [(hrest th).of_nil.1]
    exact nofun
  | cons c s ih =>
    obtain ⟨th, cmd⟩ := c
    obtain ⟨hc, hmix⟩ := hmix
    have hth := hrest th
    rw [writes_cons, if_pos rfl] at hth
    -- A write that finishes no update leaves `todo` and `shown` as they are.
    have hkeep (hnext : Rest ((b.phase th).next cmd) (writes th s) (todo th))
        (hown : b.PrintsOnOwnLine (th, cmd)) (hstep : Coherent (b.step advance (th, cmd)) shown) :
        SerialFrom advance b shown ((th, cmd) :: s) todo := by
      have hrest' := rest_step advance hrest hnext
      rw [Function.update_eq_self] at hrest'
      exact .cons hown (ih hstep hrest' hmix)
    obtain ⟨u, us, htodo, ⟨hp, rfl, hr⟩ | ⟨hp, rfl, hr⟩ | ⟨hp, ⟨rgb, rfl⟩, hr⟩ | ⟨hp, rfl, hr⟩⟩ :=
      hth.of_cons
    · refine hkeep ?_ trivial (h.fillRect hp)
      rw [Phase.next, Nat.mul_div_cancel_left _ (by decide)]
      exact hr
    · refine hkeep ?_ trivial (h.setCursor hp hc)
      rw [Phase.next, Nat.mul_div_cancel_left _ (by decide)]
      exact hr
    · refine hkeep ?_ trivial (h.setTextColor rgb)
      rw [← hp] at hr
      exact hr
    · have hother : (b.phase th.other).line ≠ some u.line := by
        have hc : (b.phase th.other).line ≠ (b.phase th).line := hc
        rw [hp] at hc
        exact hc
      have hown : b.PrintsOnOwnLine (th, .print u.text) := by
        rw [Bus.PrintsOnOwnLine, hp, h.cursor th _ hp]
      exact .cons_print htodo hown
        (ih (h.print hp hother u.text) (rest_step advance hrest hr) hmix)

end coherent

/-! ## The two threads of the program -/

namespace Device

variable (net : Net) (wifi : Wifi) (leadSw : Bool)

/-- The updates that `com_main` makes. -/
def updates (is : List Input) : List Update :=
  ⟨2, ascii "PASS:\n"⟩ :: outputs (loopBody net) (updatesOf net) (startUp wifi leadSw) is

/-- The main loop sends its updates one behind the other. -/
theorem leds_comMain (is : List Input) :
    (comMain net wifi leadSw is).io.leds = (updates net wifi leadSw is).flatMap Update.cmds := by
  induction is using List.reverseRecOn with
  | nil =>
    have h := congrArg Seen.leds (seen_startUp wifi leadSw fun _ c => c)
    rw [Seen.leds_update] at h
    exact h
  | append_singleton is i ih =>
    have hready := ready_comMain net wifi leadSw is
    rw [comMain_concat, leds_loopBody net _ i hready.wellFormed, ih, updates, updates,
      outputs_concat, ← List.cons_append, List.flatMap_append]
    rfl

end Device

/-- The display commands seen are those recorded. -/
theorem Io.leds_seen (advance : Advance) (io : Io) : (io.seen advance).leds = io.leds := (rfl)

/-- Every run of `kaiten_stop` updates the status line. -/
theorem Io.leds_iterate_kaitenStop (k : ℕ) :
    (Io.kaitenStop^[k] {}).leds =
      (List.replicate k ⟨3, ascii "LOCKED\n"⟩).flatMap Update.cmds := by
  induction k with
  | zero => rfl
  | succ k ih =>
    have h := congrArg Seen.leds (seen_kaitenStop (fun _ c => c) (Io.kaitenStop^[k] {}))
    simp only [Seen.leds_update, Seen.leds_lamp, Seen.leds_kaiten, Seen.leds_call] at h
    rw [Io.leds_seen, Io.leds_seen] at h
    rw [Function.iterate_succ_apply', List.replicate_succ', List.flatMap_append, ← ih,
      List.flatMap_singleton]
    exact h

namespace Device

/-- **Two threads.** An interleaving of the writes of `com_main` with those of `kaiten_stop`
that does not mix updates has the effect of a serial order of them. -/
theorem comMain_kaitenStop_serial (net : Net) (wifi : Wifi) (leadSw : Bool) (advance : Advance)
    (is : List Input) (k : ℕ) (s : Schedule)
    (hmain : writes .main s = (comMain net wifi leadSw is).io.leds)
    (hevent : writes .event s = (Io.kaitenStop^[k] {}).leds)
    (hmix : Along (Bus.step advance) Bus.NoMixing {} s) : s.Serial advance := by
  rw [leds_comMain] at hmain
  rw [Io.leds_iterate_kaitenStop] at hevent
  let todo : Thread → List Update
    | .main => updates net wifi leadSw is
    | .event => List.replicate k ⟨3, ascii "LOCKED\n"⟩
  have hwrites (th : Thread) : writes th s = (todo th).flatMap Update.cmds := by
    cases th with
    | main => exact hmain
    | event => exact hevent
  have hrest (th : Thread) : Rest .idle (writes th s) (todo th) := by
    rw [hwrites]
    exact .idle (todo th)
  obtain ⟨hprints, order, horder, hline⟩ := coherent_start.serialFrom hrest hmix
  refine ⟨hprints, order, fun th => ?_, fun l => ?_⟩
  · rw [horder, hwrites]
  · rw [hline, Option.or_none]

/-- Behind a failed attempt `kaiten_stop` clears its line while the entry line is being redrawn,
and sets its cursor and prints while that is being redrawn for the next key. -/
theorem comMain_kaitenStop_serial_prompt :
    let is := Input.idle false Input.noWeight :: Input.typing "5*7"
    let m := (comMain .silent .down false is).io.leds.map (Thread.main, ·)
    let e := (Io.kaitenStop {}).leds.map (Thread.event, ·)
    Schedule.Serial (fun _ c => c)
      (m.take 25 ++ e.take 1 ++ (m.drop 25).take 4 ++ e.drop 1 ++ m.drop 29) := by
  intro is m e
  exact comMain_kaitenStop_serial .silent .down false (fun _ c => c) is 1 _
    (by decide +kernel) (by decide +kernel) (by decide +kernel)

/-- The timer of a failed attempt is running while the next password is typed. `kaiten_stop`
sets its cursor between the cursor and the text of the prompt, the prompt is printed on the
status line, and its own line stays empty. -/
theorem prompt_on_status_line :
    let is := Input.idle false Input.noWeight :: Input.typing "5*"
    let m := (comMain .silent .down false (is ++ Input.typing "7")).io.leds.map (Thread.main, ·)
    let e := (Io.kaitenStop {}).leds.map (Thread.event, ·)
    let s : Schedule := m.take 30 ++ e.take 2 ++ m.drop 30 ++ e.drop 2
    ((comMain .silent .down false is).io.alarm.timeout1 = some 0 ∧
        writes .main s = (comMain .silent .down false (is ++ Input.typing "7")).io.leds ∧
        writes .event s = (Io.kaitenStop {}).leds) ∧
      (run (Bus.step fun _ c => c) {} s).display.line 2 = [] ∧
      (run (Bus.step fun _ c => c) {} s).display.line 3 =
        [ascii "PASS:7\n", ascii "LOCKED\n"] ∧
      ¬ s.Serial fun _ c => c := by
  intro is m e s
  have h : ((comMain .silent .down false is).io.alarm.timeout1 = some 0 ∧
        writes .main s = (comMain .silent .down false (is ++ Input.typing "7")).io.leds ∧
        writes .event s = (Io.kaitenStop {}).leds) ∧
      (run (Bus.step fun _ c => c) {} s).display.line 2 = [] ∧
      (run (Bus.step fun _ c => c) {} s).display.line 3 =
        [ascii "PASS:7\n", ascii "LOCKED\n"] ∧
      ¬ Along (Bus.step fun _ c => c) Bus.PrintsOnOwnLine {} s := by
    decide +kernel
  exact h.imp_right (And.imp_right (And.imp_right (mt Schedule.Serial.prints)))

end Device

end WeightScale
