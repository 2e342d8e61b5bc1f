import WeightScale.Analysis.EqueueLayout
import WeightScale.Interface.Timetable

/-!
# The order of the callbacks

The event queue does what a queue of timed postings does: what is posted with a delay
waits until its time has come, and of what is due, the callbacks with the earlier times
come first and those of one time in the order of their posting. The targets are the last
32 bits of the times, so this needs that no pending event is half the range of the tick
away from the others or from the time at which it is looked at.
-/

set_option autoImplicit false

namespace WeightScale

open Embedded SlotList Equeue

/-! ## Ticks -/

section ticks

variable {a b : ℕ}

/-- Between near times the difference of the ticks is that of the times. -/
theorem toInt_tickdiff (h : Near a b) :
    (tickdiff (UInt32.ofNat a) (UInt32.ofNat b)).toInt = (a : ℤ) - b := by
  have hbmod : (tickdiff (UInt32.ofNat a) (UInt32.ofNat b)).toInt =
      ((a : ℤ) - b).bmod Int32.size := by
    rw [tickdiff, UInt32.toInt32_sub, UInt32.toInt32_ofNat', UInt32.toInt32_ofNat',
      Int32.toInt_sub, Int32.toInt_ofNat', Int32.toInt_ofNat', Int.bmod_sub_bmod,
      Int.sub_bmod_bmod]
  have hsize : Int32.size = 4294967296 := rfl
  obtain ⟨hab, hba⟩ := h
  rw [hbmod, hsize]
  exact Int.bmod_eq_of_le (by omega) (by omega)

/-- Between near times the ticks compare as the times do. -/
theorem tickdiff_lt_zero_iff (h : Near a b) :
    tickdiff (UInt32.ofNat a) (UInt32.ofNat b) < 0 ↔ a < b := by
  rw [Int32.lt_iff_toInt_lt, toInt_tickdiff h]
  show (a : ℤ) - b < 0 ↔ a < b
  omega

/-- Between near times a tick has been reached as soon as the time has. -/
theorem tickdiff_le_zero_iff (h : Near a b) :
    tickdiff (UInt32.ofNat a) (UInt32.ofNat b) ≤ 0 ↔ a ≤ b := by
  rw [Int32.le_iff_toInt_le, toInt_tickdiff h]
  show (a : ℤ) - b ≤ 0 ↔ a ≤ b
  omega

/-- Near times share a tick only if they are equal. -/
theorem ofNat_eq_iff (h : Near a b) : UInt32.ofNat a = UInt32.ofNat b ↔ a = b := by
  refine ⟨fun heq => ?_, fun heq => congrArg _ heq⟩
  have hzero : (tickdiff (UInt32.ofNat b) (UInt32.ofNat b)).toInt = 0 := by
    rw [tickdiff, UInt32.sub_self]
    rfl
  have hdiff := toInt_tickdiff h
  rw [heq, hzero] at hdiff
  omega

/-- Clamping makes the sign bit a mask. -/
theorem toInt_clampdiff (a b : UInt32) : (clampdiff a b).toInt = max 0 (tickdiff a b).toInt := by
  show (~~~(tickdiff a b >>> 31) &&& tickdiff a b).toInt = _
  generalize tickdiff a b = d
  have hshift : (d >>> 31).toInt = d.toInt / 2 ^ 31 := by
    rw [← Int32.toInt_toBitVec, Int32.toBitVec_shiftRight]
    show (d.toBitVec.sshiftRight 31).toInt = _
    rw [BitVec.toInt_sshiftRight, Int32.toInt_toBitVec]
    exact Int.shiftRight_eq_div_pow _ _
  have hlt := d.toInt_lt
  have hle := d.le_toInt
  rcases Int.lt_or_le d.toInt 0 with h | h
  · have hmask : d >>> 31 = -1 := by
      rw [← Int32.toInt_inj, hshift]
      show _ = (-1 : ℤ)
      omega
    rw [hmask]
    show ((0 : Int32) &&& d).toInt = _
    rw [Int32.zero_and, Int32.toInt_zero]
    omega
  · have hmask : d >>> 31 = 0 := by
      rw [← Int32.toInt_inj, hshift]
      show _ = (0 : ℤ)
      omega
    rw [hmask]
    show ((-1 : Int32) &&& d).toInt = _
    rw [Int32.neg_one_and]
    omega

/-- A delay that is not negative is itself as an unsigned number. -/
theorem toUInt32_eq_ofNat {d : Int32} (h : 0 ≤ d.toInt) :
    d.toUInt32 = UInt32.ofNat d.toInt.toNat := by
  have hlt := d.toInt_lt
  rw [← UInt32.toNat_inj, Int32.toNat_toUInt32_of_le (Int32.le_iff_toInt_le.mpr h),
    UInt32.toNat_ofNat']
  show d.toInt.toNat = d.toInt.toNat % 2 ^ 32
  omega

/-- A target that is past is moved to now. -/
theorem add_clampdiff {target : UInt32} {now n : ℕ}
    (h : max 0 (tickdiff target (UInt32.ofNat now)).toInt = n) :
    UInt32.ofNat now + (clampdiff target (UInt32.ofNat now)).toUInt32 = UInt32.ofNat (now + n) := by
  have hclamp := toInt_clampdiff target (UInt32.ofNat now)
  rw [h] at hclamp
  rw [toUInt32_eq_ofNat (by omega), hclamp, Int.toNat_natCast, UInt32.ofNat_add]

end ticks

/-! ## What is recorded -/

section records

variable {α : Type} {q : Equeue α} {ss : List (ℕ × List ℕ)} (e : ℕ)

/-- Enqueuing leaves the target, the period and the callback of every other event. -/
theorem record_enqueue_of_ne {tick : UInt32} (h : q.slots.Holds ss) (hlen : ss.length ≤ q.bufferSize)
    {x : ℕ} (hx : x ≠ e) : (q.enqueue e tick).record x = q.record x := by
  rw [record_of_contents (contents_enqueue e tick h hlen), record, stamp, mem_modify_of_ne _ _ hx]
  rfl

/-- Enqueuing sets the target of its own event and keeps period and callback. -/
theorem record_enqueue_self {tick : UInt32} (h : q.slots.Holds ss)
    (hlen : ss.length ≤ q.bufferSize) : (q.enqueue e tick).record e =
      (tick + (clampdiff (q.mem e).target tick).toUInt32, (q.mem e).period, (q.mem e).cb) := by
  rw [record_of_contents (contents_enqueue e tick h hlen), record, stamp, mem_modify_self]

end records

/-! ## The refinement -/

namespace Dispatcher

variable {α : Type}

/-- The lists of the queue are those of the timetable, with `time` of the pending events. -/
structure Refines (d : Dispatcher α) (t : Timetable α) (qs cs : List (ℕ × List ℕ))
    (bs cells : List ℕ) (time : ℕ → ℕ) : Prop where
  laid : d.Laid qs cs bs cells
  sorted : Sorted time qs
  waiting : order qs = t.queue.waiting.map (·.what.event)
  times : ∀ y ∈ t.queue.waiting, time y.what.event = y.time
  batch : bs = t.queue.batch.map (·.what.event)
  running : d.e = t.running.map (·.what.event)
  recorded : ∀ y ∈ t.queue.waiting ++ (t.queue.batch ++ t.running.toList),
    d.q.record y.what.event = (UInt32.ofNat y.time, y.what.period, some y.what.cb)
  calls : d.calls = t.queue.called.map (·.2.what.cb)

/-- What is pending or being dispatched is not held. -/
theorem Laid.not_held {d : Dispatcher α} {qs cs : List (ℕ × List ℕ)} {bs cells : List ℕ}
    (h : d.Laid qs cs bs cells) {x : ℕ} (hx : x ∈ order qs ++ (bs ++ d.e.toList)) :
    x ∉ d.held := by
  have hnodup := h.layout.nodup
  rw [List.append_assoc, ← List.append_assoc bs, ← List.append_assoc (nodes qs)] at hnodup
  intro hheld
  refine (List.disjoint_of_nodup_append hnodup) ?_ (List.mem_append_left _ hheld)
  exact ((order_perm qs).append_right _).subset hx

namespace Refines

variable {d : Dispatcher α} {t : Timetable α} {qs cs : List (ℕ × List ℕ)} {bs cells : List ℕ}
  {time : ℕ → ℕ}

/-- A new dispatcher refines the timetable with nothing waiting. -/
theorem create (size now : ℕ) :
    Refines (Dispatcher.create size now : Dispatcher α) (.create now) [] [] [] [] id where
  laid := .create size now
  sorted := trivial
  waiting := rfl
  times := by simp [Timetable.create]
  batch := rfl
  running := rfl
  recorded := by simp [Timetable.create]
  calls := rfl

/-- The events in the queue are those of the timetable, in the same order. -/
theorem events (h : Refines d t qs cs bs cells time) :
    order qs ++ (bs ++ d.e.toList) =
      (t.queue.waiting ++ (t.queue.batch ++ t.running.toList)).map (·.what.event) := by
  rw [h.waiting, h.batch, h.running]
  cases t.running <;> simp

/-- A step that leaves the lists and the records alone. -/
theorem frame {d' : Dispatcher α} {cs' : List (ℕ × List ℕ)} {cells' : List ℕ}
    (h : Refines d t qs cs bs cells time) (hlaid : d'.Laid qs cs' bs cells') (he : d'.e = d.e)
    (hcalls : d'.calls = d.calls) (hrecord : ∀ x, x ∉ d'.held → d'.q.record x = d.q.record x) :
    Refines d' t qs cs' bs cells' time := by
  refine ⟨hlaid, h.sorted, h.waiting, h.times, h.batch, he.trans h.running, fun y hy => ?_,
    hcalls.trans h.calls⟩
  rw [hrecord y.what.event (hlaid.not_held ?_)]
  · exact h.recorded y hy
  · rw [he, h.events]
    exact List.mem_map_of_mem hy

/-- An allocation leaves the timetable as it is. -/
theorem alloc (h : Refines d t qs cs bs cells time) {request : UInt32}
    (hsized : request.toNat + 39 < 2 ^ 32) :
    ∃ cs' cells', Refines (d.step (.alloc request)) t qs cs' bs cells' time := by
  obtain ⟨cs', cells', -, hlaid, hrecord⟩ := h.laid.alloc hsized
  have hd : (d.step (.alloc request)).e = d.e ∧ (d.step (.alloc request)).calls = d.calls := by
    rw [Dispatcher.step]
    split <;> exact ⟨rfl, rfl⟩
  exact ⟨cs', cells', h.frame hlaid hd.1 hd.2 hrecord⟩

/-- A deallocation leaves the timetable as it is. -/
theorem dealloc (h : Refines d t qs cs bs cells time) (e : ℕ) :
    ∃ cs', Refines (d.step (.dealloc e)) t qs cs' bs cells time := by
  obtain ⟨cs', hlaid, hrecord⟩ := h.laid.dealloc e
  have hd : (d.step (.dealloc e)).e = d.e ∧ (d.step (.dealloc e)).calls = d.calls := by
    rw [Dispatcher.step]
    split <;> exact ⟨rfl, rfl⟩
  exact ⟨cs', h.frame hlaid hd.1 hd.2 fun x _ => congrFun hrecord x⟩

/-- The slots of the queue are those of the timetable after a posting. -/
theorem insert {e T : ℕ} (p : Int32) (cb : α) {target : ℕ → UInt32}
    (h : Refines d t qs cs bs cells time) (he : e ∉ order qs)
    (htarget : ∀ x ∈ order qs, target x = UInt32.ofNat (time x))
    (hself : target e = UInt32.ofNat T) (hnear : ∀ y ∈ t.queue.waiting, Near y.time T) :
    Sorted (Function.update time e T) (insertSlot target e qs) ∧
      order (insertSlot target e qs) =
        (t.queue.post T ⟨e, p, cb⟩).waiting.map (·.what.event) ∧
      ∀ y ∈ (t.queue.post T ⟨e, p, cb⟩).waiting,
        Function.update time e T y.what.event = y.time := by
  have htime : ∀ x ∈ order qs, Function.update time e T x = time x := by
    intro x hx
    refine Function.update_of_ne ?_ _ _
    rintro rfl
    exact he hx
  have hnear' : ∀ x ∈ order qs, Near (time x) T := by
    intro x hx
    rw [h.waiting] at hx
    obtain ⟨y, hy, rfl⟩ := List.mem_map.mp hx
    rw [h.times y hy]
    exact hnear y hy
  have hmem : ∀ x ∈ nodes qs, x ∈ order qs := fun x hx => (order_perm qs).symm.subset hx
  have hslots : insertSlot target e qs = putByKey (Function.update time e T) e qs := by
    refine putAt_congr (fun x hx => ?_) fun x hx => ?_
    · rw [htarget x (hmem x hx), hself, htime x (hmem x hx), Function.update_self]
      exact decide_eq_decide.mpr (tickdiff_lt_zero_iff (hnear' x (hmem x hx)))
    · rw [htarget x (hmem x hx), hself, htime x (hmem x hx), Function.update_self]
      exact decide_eq_decide.mpr (ofNat_eq_iff (hnear' x (hmem x hx)))
  have hsorted : Sorted (Function.update time e T) qs :=
    h.sorted.congr fun x hx => htime x (hmem x hx)
  obtain ⟨htake, hdrop⟩ := TimedQueue.takeWhile_eq_dueAt (l := t.queue.waiting)
    (p := fun y => Function.update time e T y.what.event ≤ T) (t := T) fun y hy => by
      rw [htime y.what.event (by rw [h.waiting]; exact List.mem_map_of_mem hy), h.times y hy]
  rw [hslots]
  refine ⟨hsorted.putByKey e, ?_, ?_⟩
  · rw [hsorted.order_putByKey, h.waiting, Function.update_self, List.takeWhile_map,
      List.dropWhile_map, TimedQueue.post, List.map_append, List.map_cons, ← htake, ← hdrop]
    rfl
  · intro y hy
    rcases List.mem_cons.mp ((TimedQueue.waiting_post _ _ _).subset hy) with rfl | hy
    · exact Function.update_self _ _ _
    · rw [htime y.what.event (by rw [h.waiting]; exact List.mem_map_of_mem hy), h.times y hy]

/-- A step that posts `e`, which was in use, for the time `T`. -/
theorem posted {d' : Dispatcher α} {r : Option (Timed ℕ (Posting α))} {e T : ℕ} {p : Int32} {cb : α}
    (h : Refines d t qs cs bs cells time) (hr : r = t.running ∨ r = none)
    (hlaid : d'.Laid (insertSlot d'.q.target e qs) cs bs cells)
    (he : e ∉ order qs ++ (bs ++ d'.e.toList)) (hrunning : d'.e = r.map (·.what.event))
    (hcalls : d'.calls = d.calls) (hrecord : ∀ x, x ≠ e → d'.q.record x = d.q.record x)
    (hself : d'.q.record e = (UInt32.ofNat T, p, some cb))
    (hnear : ∀ y ∈ t.queue.waiting, Near y.time T) :
    Refines d' ⟨t.queue.post T ⟨e, p, cb⟩, r⟩ (insertSlot d'.q.target e qs) cs bs cells
      (Function.update time e T) := by
  have hevents : order qs ++ (bs ++ d'.e.toList) =
      (t.queue.waiting ++ (t.queue.batch ++ r.toList)).map (·.what.event) := by
    rw [h.waiting, h.batch, hrunning]
    cases r <;> simp
  have hold : ∀ y ∈ t.queue.waiting ++ (t.queue.batch ++ r.toList),
      d'.q.record y.what.event = (UInt32.ofNat y.time, y.what.period, some y.what.cb) := by
    intro y hy
    have hne : y.what.event ≠ e := by
      rintro rfl
      rw [hevents] at he
      exact he (List.mem_map_of_mem hy)
    rw [hrecord _ hne]
    refine h.recorded y ?_
    rcases hr with rfl | rfl
    · exact hy
    · simp only [Option.toList_none, List.append_nil, List.mem_append] at hy ⊢
      tauto
  have htarget : ∀ x ∈ order qs, d'.q.target x = UInt32.ofNat (time x) := by
    intro x hx
    rw [h.waiting] at hx
    obtain ⟨y, hy, rfl⟩ := List.mem_map.mp hx
    rw [h.times y hy]
    exact congrArg Prod.fst (hold y (List.mem_append_left _ hy))
  obtain ⟨hsorted, hwaiting, htimes⟩ := h.insert p cb
    (fun hmem => he (List.mem_append_left _ hmem)) htarget (congrArg Prod.fst hself) hnear
  refine ⟨hlaid, hsorted, hwaiting, htimes, h.batch, hrunning, fun y hy => ?_,
    hcalls.trans h.calls⟩
  rcases List.mem_append.mp hy with hy | hy
  · rcases List.mem_cons.mp ((TimedQueue.waiting_post _ _ _).subset hy) with rfl | hy
    · exact hself
    · exact hold y (List.mem_append_left _ hy)
  · exact hold y (List.mem_append_right _ hy)

/-- Posting an event adds it to the timetable at its time. -/
theorem post {e now : ℕ} {delay : Int32} (h : Refines d t qs cs bs cells time) (period : Int32)
    (cb : α) (he : e ∈ d.held) (hnear : ∀ y ∈ t.queue.waiting, Near y.time (now + delay.toInt.toNat)) :
    ∃ qs' time', Refines (d.step (.post e delay period cb now))
      (t.step d.held (.post e delay period cb now)) qs' cs bs cells time' := by
  have hlaid := h.laid.post he delay period cb now
  have hset := (h.laid.held he).modify e (f := fun s =>
    { s with target := UInt32.ofNat now + delay.toUInt32, period := period, cb := some cb })
    (fun _ => rfl) (fun _ => rfl) fun _ => rfl
  have htick : max 0 (tickdiff (UInt32.ofNat now + delay.toUInt32) (UInt32.ofNat now)).toInt =
      (delay.toInt.toNat : ℕ) := by
    rw [tickdiff, UInt32.add_comm, UInt32.add_sub_cancel]
    show max 0 delay.toInt = _
    omega
  rw [Timetable.step, if_pos he]
  refine ⟨_, _, h.posted (.inl rfl) hlaid ?_ ?_ ?_ ?_ ?_ hnear⟩
  · intro hmem
    rw [Dispatcher.step, if_pos he] at hmem
    exact h.laid.not_held hmem he
  · rw [Dispatcher.step, if_pos he]
    exact h.running
  · rw [Dispatcher.step, if_pos he]
  · intro x hx
    rw [Dispatcher.step, if_pos he]
    show ((d.q.modify e _).enqueue e _).record x = _
    rw [record_enqueue_of_ne e hset.pending hset.slots_le.1 hx, record, mem_modify_of_ne _ _ hx]
    rfl
  · rw [Dispatcher.step, if_pos he]
    show ((d.q.modify e _).enqueue e _).record e = _
    rw [record_enqueue_self e hset.pending hset.slots_le.1, mem_modify_self]
    show (UInt32.ofNat now + (clampdiff (UInt32.ofNat now + delay.toUInt32) _).toUInt32, _) = _
    rw [add_clampdiff htick]

/-- The batch that is cut off is what is due in the timetable. -/
theorem dequeue {now : ℕ} (h : Refines d t qs cs bs cells time) (hbatch : t.queue.batch = [])
    (hrunning : t.running = none) (hnear : ∀ y ∈ t.queue.waiting, Near y.time now) :
    ∃ qs' bs', Refines (d.step (.dequeue now)) (t.step d.held (.dequeue now)) qs' cs bs' cells
      time := by
  have he : d.e = none := by rw [h.running, hrunning]; rfl
  obtain rfl : bs = [] := by rw [h.batch, hbatch]; rfl
  have hes : d.es = none := h.laid.es_eq
  have hnodes : ∀ x ∈ nodes qs, decide (tickdiff (d.q.target x) (UInt32.ofNat now) ≤ 0) =
      decide (time x ≤ now) := by
    intro x hx
    have hx' := (order_perm qs).symm.subset hx
    rw [h.waiting] at hx'
    obtain ⟨y, hy, rfl⟩ := List.mem_map.mp hx'
    have htarget : d.q.target y.what.event = UInt32.ofNat y.time :=
      congrArg Prod.fst (h.recorded y (List.mem_append_left _ hy))
    rw [htarget, h.times y hy]
    exact decide_eq_decide.mpr (tickdiff_le_zero_iff (hnear y hy))
  obtain ⟨hdue, hnot⟩ : d.q.due (UInt32.ofNat now) qs = qs.takeWhile (fun s => time s.1 ≤ now) ∧
      d.q.notDue (UInt32.ofNat now) qs = qs.dropWhile (fun s => time s.1 ≤ now) :=
    takeWhile_congr hnodes
  obtain ⟨htake, hdrop⟩ := h.sorted.order_takeWhile now
  obtain ⟨htake', hdrop'⟩ := TimedQueue.takeWhile_eq_dueAt (l := t.queue.waiting)
    (p := fun y => time y.what.event ≤ now) (t := now) fun y hy => by rw [h.times y hy]
  rw [h.waiting, List.takeWhile_map] at htake
  rw [h.waiting, List.dropWhile_map] at hdrop
  have hlaid := h.laid.dequeue he now
  have hsplit := TimedQueue.dueAt_append_laterThan now t.queue.waiting
  have hstep : t.step d.held (.dequeue now) = { t with queue := t.queue.release now } := by
    simp only [Timetable.step, hbatch, hrunning]
  have hd : d.step (.dequeue now) = { d with
      q := (d.q.dequeue (UInt32.ofNat now)).1
      es := (d.q.dequeue (UInt32.ofNat now)).2 } := by
    simp only [Dispatcher.step, hes, he]
  have hrecord : (d.step (.dequeue now)).q.record = d.q.record := by
    have hcontents := (dequeue_spec (UInt32.ofNat now) h.laid.layout.pending
      h.laid.layout.length_le.1).2.2.2.1
    rw [hd]
    exact (record_of_contents hcontents).trans rfl
  rw [hstep]
  refine ⟨_, _, hlaid, ?_, ?_, ?_, ?_, ?_, ?_, ?_⟩
  · have hsorted := h.sorted
    rw [← d.q.due_append_notDue (UInt32.ofNat now) qs] at hsorted
    exact hsorted.append_right
  · rw [hnot, hdrop]
    exact congrArg _ hdrop'
  · intro y hy
    refine h.times y ?_
    rw [← hsplit]
    exact List.mem_append_right _ hy
  · rw [hdue, htake]
    exact congrArg _ htake'
  · rw [hd]
    exact h.running
  · intro y hy
    rw [hrecord]
    refine h.recorded y ?_
    rw [← hsplit]
    simp only [TimedQueue.release, List.mem_append] at hy ⊢
    tauto
  · rw [hd]
    exact h.calls

/-- The callback called is the first of the batch in the timetable. -/
theorem call {x : Timed ℕ (Posting α)} {rest : List (Timed ℕ (Posting α))}
    (h : Refines d t qs cs bs cells time) (hbatch : t.queue.batch = x :: rest)
    (hrunning : t.running = none) :
    Refines (d.step .call) (t.step d.held .call) qs cs (rest.map (·.what.event)) cells time := by
  have he : d.e = none := by rw [h.running, hrunning]; rfl
  obtain rfl : bs = x.what.event :: rest.map (·.what.event) := by rw [h.batch, hbatch]; rfl
  have hes : d.es = some x.what.event := h.laid.es_eq
  have hx : x ∈ t.queue.waiting ++ (t.queue.batch ++ t.running.toList) := by
    rw [hbatch]
    simp
  have hcb : (d.q.mem x.what.event).cb = some x.what.cb :=
    congrArg (fun r => r.2.2) (h.recorded x hx)
  have hlaid := h.laid.call he
  have hd : d.step .call = { d with
      es := (d.q.mem x.what.event).next
      e := some x.what.event
      calls := d.calls ++ [x.what.cb] } := by
    simp only [Dispatcher.step, hes, he, hcb, Option.toList_some]
  have hstep : t.step d.held .call =
      { queue :=
          { t.queue with batch := rest, called := t.queue.called ++ [(t.queue.tick, x)] }
        running := some x } := by
    simp only [Timetable.step, hrunning, TimedQueue.call, hbatch, List.head?_cons]
  rw [hstep]
  refine ⟨hlaid, h.sorted, h.waiting, h.times, rfl, ?_, ?_, ?_⟩
  · rw [hd]
    rfl
  · intro y hy
    rw [hd]
    refine h.recorded y ?_
    rw [hbatch]
    simp only [List.mem_append, List.mem_cons, Option.toList_some] at hy ⊢
    tauto
  · rw [hd, List.map_append, ← h.calls]
    rfl

/-- A periodic event waits for its next period in the timetable as well. -/
theorem periodic {x : Timed ℕ (Posting α)} {now : ℕ} (h : Refines d t qs cs bs cells time)
    (hrunning : t.running = some x) (hperiod : x.what.period ≥ 0)
    (hnear : Near (x.time + x.what.period.toInt.toNat) now)
    (hwaiting : ∀ y ∈ t.queue.waiting,
      Near y.time (max (x.time + x.what.period.toInt.toNat) now)) :
    ∃ qs' time', Refines (d.step (.done now)) (t.step d.held (.done now)) qs' cs bs cells
      time' := by
  have he : d.e = some x.what.event := by rw [h.running, hrunning]; rfl
  have hx := h.recorded x (by rw [hrunning]; simp)
  have htarget : (d.q.mem x.what.event).target = UInt32.ofNat x.time := congrArg Prod.fst hx
  have hperiod' : (d.q.mem x.what.event).period = x.what.period :=
    congrArg (fun r => r.2.1) hx
  have hcb : (d.q.mem x.what.event).cb = some x.what.cb := congrArg (fun r => r.2.2) hx
  have hp : (d.q.mem x.what.event).period ≥ 0 := by rw [hperiod']; exact hperiod
  have hlaid := h.laid.periodic he hp now
  have hd : d.step (.done now) = { d with
      q := (d.q.modify x.what.event fun s => { s with target := s.target + s.period.toUInt32 }).enqueue
        x.what.event (UInt32.ofNat now)
      e := none } := by
    simp only [Dispatcher.step, he, if_pos hp]
  have hlayout := h.laid.layout
  rw [he] at hlayout
  have hset := hlayout.modify x.what.event
    (f := fun s => { s with target := s.target + s.period.toUInt32 })
    (fun _ => rfl) (fun _ => rfl) fun _ => rfl
  have hpos : 0 ≤ x.what.period.toInt := Int32.le_iff_toInt_le.mp hperiod
  have htick : max 0 (tickdiff (UInt32.ofNat (x.time + x.what.period.toInt.toNat))
      (UInt32.ofNat now)).toInt =
      (max (x.time + x.what.period.toInt.toNat) now - now : ℕ) := by
    rw [toInt_tickdiff hnear]
    omega
  have hstep : t.step d.held (.done now) =
      ⟨t.queue.post (max (x.time + x.what.period.toInt.toNat) now) x.what, none⟩ := by
    simp only [Timetable.step, hrunning, if_pos hperiod]
  rw [hstep]
  refine ⟨_, _, h.posted (.inr rfl) hlaid ?_ ?_ ?_ ?_ ?_ hwaiting⟩
  · rw [hd]
    show x.what.event ∉ order qs ++ (bs ++ [])
    rw [List.append_nil]
    exact fun hmem => hlayout.not_mem_out (((order_perm qs).append_right bs).subset hmem)
  · rw [hd]
    rfl
  · rw [hd]
  · intro y hy
    rw [hd]
    show ((d.q.modify x.what.event _).enqueue x.what.event _).record y = _
    rw [record_enqueue_of_ne _ hset.pending hset.slots_le.1 hy, record, mem_modify_of_ne _ _ hy]
    rfl
  · rw [hd]
    show ((d.q.modify x.what.event _).enqueue x.what.event _).record x.what.event = _
    rw [record_enqueue_self _ hset.pending hset.slots_le.1, mem_modify_self]
    show (UInt32.ofNat now + (clampdiff ((d.q.mem x.what.event).target +
      (d.q.mem x.what.event).period.toUInt32) _).toUInt32, (d.q.mem x.what.event).period,
      (d.q.mem x.what.event).cb) = _
    rw [htarget, hperiod', hcb, toUInt32_eq_ofNat hpos, ← UInt32.ofNat_add, add_clampdiff htick]
    congr 2
    omega

/-- An event without a period is gone from the timetable behind its callback. -/
theorem done {x : Timed ℕ (Posting α)} (h : Refines d t qs cs bs cells time)
    (hrunning : t.running = some x) (hperiod : ¬ x.what.period ≥ 0) (now : ℕ) :
    ∃ cs', Refines (d.step (.done now)) (t.step d.held (.done now)) qs cs' bs cells time := by
  have he : d.e = some x.what.event := by rw [h.running, hrunning]; rfl
  have hx := h.recorded x (by rw [hrunning]; simp)
  have hp : ¬ (d.q.mem x.what.event).period ≥ 0 := by
    have hperiod' : (d.q.mem x.what.event).period = x.what.period :=
      congrArg (fun r => r.2.1) hx
    rw [hperiod']
    exact hperiod
  obtain ⟨cs', hlaid, hrecord⟩ := h.laid.done he hp now
  have hd : (d.step (.done now)).e = none ∧ (d.step (.done now)).calls = d.calls := by
    simp only [Dispatcher.step, he, if_neg hp, and_self]
  have hstep : t.step d.held (.done now) = { t with running := none } := by
    simp only [Timetable.step, hrunning, if_neg hperiod]
  rw [hstep]
  refine ⟨cs', hlaid, h.sorted, h.waiting, h.times, h.batch, hd.1, fun y hy => ?_,
    hd.2.trans h.calls⟩
  rw [hrecord]
  refine h.recorded y ?_
  simp only [Option.toList_none, List.append_nil, List.mem_append] at hy ⊢
  tauto

/-- One step, in time. -/
theorem step (h : Refines d t qs cs bs cells time) {s : DispatcherStep α} (hsized : Sized s)
    (htimely : t.Timely d.held s) :
    ∃ qs' cs' bs' cells' time',
      Refines (d.step s) (t.step d.held s) qs' cs' bs' cells' time' := by
  have hstay : d.step s = d → t.step d.held s = t → ∃ qs' cs' bs' cells' time',
      Refines (d.step s) (t.step d.held s) qs' cs' bs' cells' time' := by
    intro hd ht
    rw [hd, ht]
    exact ⟨qs, cs, bs, cells, time, h⟩
  have he := h.running
  have hes : d.es = (t.queue.batch.map (·.what.event)).head? := h.batch ▸ h.laid.es_eq
  cases s with
  | alloc request =>
    obtain ⟨cs', cells', h'⟩ := h.alloc hsized
    exact ⟨_, _, _, _, _, h'⟩
  | dealloc e =>
    obtain ⟨cs', h'⟩ := h.dealloc e
    exact ⟨_, _, _, _, _, h'⟩
  | post e delay period cb now =>
    by_cases hheld : e ∈ d.held
    · obtain ⟨qs', time', h'⟩ := h.post period cb hheld (htimely hheld)
      exact ⟨_, _, _, _, _, h'⟩
    · exact hstay (if_neg hheld) (if_neg hheld)
  | dequeue now =>
    cases hrunning : t.running with
    | some x =>
      rw [hrunning] at he
      exact hstay (by simp [Dispatcher.step, he]) (by simp [Timetable.step, hrunning])
    | none =>
      cases hbatch : t.queue.batch with
      | nil =>
        obtain ⟨qs', bs', h'⟩ := h.dequeue hbatch hrunning (htimely hbatch hrunning)
        exact ⟨_, _, _, _, _, h'⟩
      | cons x rest =>
        rw [hbatch] at hes
        exact hstay (by simp [Dispatcher.step, hes]) (by simp [Timetable.step, hbatch])
  | call =>
    cases hrunning : t.running with
    | some x =>
      rw [hrunning] at he
      exact hstay (by simp [Dispatcher.step, he]) (by simp [Timetable.step, hrunning])
    | none =>
      cases hbatch : t.queue.batch with
      | nil =>
        rw [hbatch] at hes
        refine hstay (by simp [Dispatcher.step, hes]) ?_
        have ht : t = ⟨t.queue, none⟩ := by rw [← hrunning]
        simp only [Timetable.step, hrunning, TimedQueue.call, hbatch, List.head?_nil]
        exact ht.symm
      | cons x rest => exact ⟨_, _, _, _, _, h.call hbatch hrunning⟩
  | done now =>
    cases hrunning : t.running with
    | none =>
      rw [hrunning] at he
      exact hstay (by simp [Dispatcher.step, he]) (by simp [Timetable.step, hrunning])
    | some x =>
      by_cases hperiod : x.what.period ≥ 0
      · obtain ⟨hnear, hwaiting⟩ := htimely x hrunning hperiod
        obtain ⟨qs', time', h'⟩ := h.periodic hrunning hperiod hnear hwaiting
        exact ⟨_, _, _, _, _, h'⟩
      · obtain ⟨cs', h'⟩ := h.done hrunning hperiod now
        exact ⟨_, _, _, _, _, h'⟩

end Refines

/-- Each step of the timetable calls nothing early and skips nothing that is due. -/
theorem fair_step {t : Timetable α} (h : t.queue.Fair) (held : List ℕ) (s : DispatcherStep α) :
    (t.step held s).queue.Fair := by
  cases s with
  | alloc request => exact h
  | dealloc e => exact h
  | post e delay period cb now =>
    rw [Timetable.step]
    split
    · exact h.post _ _
    · exact h
  | dequeue now =>
    rw [Timetable.step]
    split
    · exact h.release ‹_› now
    · exact h
  | call =>
    rw [Timetable.step]
    split
    · exact h.call
    · exact h
  | done now =>
    rw [Timetable.step]
    split
    · split
      · exact h.post _ _
      · exact h
    · exact h

/-- Any steps that are in time, from any state that refines a timetable. -/
theorem refines_run {s : Dispatcher α × Timetable α} {qs cs : List (ℕ × List ℕ)}
    {bs cells : List ℕ} {time : ℕ → ℕ} {steps : List (DispatcherStep α)}
    (h : Refines s.1 s.2 qs cs bs cells time) (hfair : s.2.queue.Fair)
    (hsized : ∀ x ∈ steps, Sized x) (htimely : AllTimely s steps) :
    (∃ qs' cs' bs' cells' time', Refines (steps.foldl stepTimed s).1 (steps.foldl stepTimed s).2
      qs' cs' bs' cells' time') ∧ (steps.foldl stepTimed s).2.queue.Fair := by
  induction steps generalizing s qs cs bs cells time with
  | nil => exact ⟨⟨qs, cs, bs, cells, time, h⟩, hfair⟩
  | cons x steps ih =>
    obtain ⟨qs', cs', bs', cells', time', h'⟩ := h.step (hsized x List.mem_cons_self) htimely.1
    exact ih (s := stepTimed s x) h' (fair_step hfair s.1.held x)
      (fun y hy => hsized y (List.mem_cons_of_mem x hy)) htimely.2

/-- **Order of the callbacks.** In any interleaving of callers, interrupts and the
dispatching thread that is in time, the queue refines its timetable, and that is fair. -/
theorem callbacks_fair (size now : ℕ) (steps : List (DispatcherStep α))
    (hsized : ∀ s ∈ steps, Sized s)
    (htimely : AllTimely (create size now, .create now) steps) :
    (∃ qs cs bs cells time, Refines
      (steps.foldl stepTimed (create size now, .create now)).1
      (steps.foldl stepTimed (create size now, .create now)).2 qs cs bs cells time) ∧
      (steps.foldl stepTimed (create size now, .create now)).2.queue.Fair :=
  refines_run (Refines.create size now) (TimedQueue.Fair.create now) hsized htimely

/-- A periodic event, and one that is posted while the callback of the first is running and
is due before it, across the end of the range of the tick. -/
def wrapSteps : List (DispatcherStep ℕ) :=
  [.alloc 0, .post 0 0 50 1 (2 ^ 32 - 10), .alloc 0, .dequeue (2 ^ 32 - 9), .call,
    .post 36 20 (-1) 2 (2 ^ 32 - 8), .done (2 ^ 32 - 7), .dequeue (2 ^ 32 + 12), .call,
    .done (2 ^ 32 + 12), .dequeue (2 ^ 32 + 40), .call]

/-- A run across the wrap of the tick, with a delayed and a periodic event. -/
theorem callbacks_fair_wrap :
    let start : Dispatcher ℕ × Timetable ℕ := (create 100 (2 ^ 32 - 10), .create (2 ^ 32 - 10))
    (∃ qs cs bs cells time, Refines (wrapSteps.foldl stepTimed start).1
      (wrapSteps.foldl stepTimed start).2 qs cs bs cells time) ∧
      (wrapSteps.foldl stepTimed start).2.queue.Fair ∧
      (wrapSteps.foldl stepTimed start).1.calls = [1, 2, 1] := by
  have h := callbacks_fair 100 (2 ^ 32 - 10) wrapSteps (by simp [wrapSteps, Sized])
    (by decide +kernel)
  exact ⟨h.1, h.2, by decide +kernel⟩

/-! ## First in, first out -/

/-- Nothing waits for a time behind the clock, and nothing is periodic. -/
structure Prompt (t : Timetable α) (clock : ℕ) : Prop where
  time : ∀ y ∈ t.queue.waiting, y.time ≤ clock
  period : ∀ y ∈ t.queue.waiting ++ (t.queue.batch ++ t.running.toList), ¬ y.what.period ≥ 0

/-- A step of a run without delays keeps everything waiting at times already reached. -/
theorem Prompt.step {t : Timetable α} {clock : ℕ} {s : DispatcherStep α}
    {steps : List (DispatcherStep α)} (h : Prompt t clock) (held : List ℕ)
    (himmediate : Immediate clock (s :: steps)) :
    ∃ clock', Immediate clock' steps ∧ Prompt (t.step held s) clock' ∧
      (t.step held s).queue.all.map (·.what.cb) =
        t.queue.all.map (·.what.cb) ++ s.posts held := by
  have hstay : t.step held s = t → s.posts held = [] → Immediate clock steps →
      ∃ clock', Immediate clock' steps ∧ Prompt (t.step held s) clock' ∧
        (t.step held s).queue.all.map (·.what.cb) =
          t.queue.all.map (·.what.cb) ++ s.posts held := by
    intro ht hposts himm
    rw [ht, hposts, List.append_nil]
    exact ⟨clock, himm, h, rfl⟩
  cases s with
  | alloc request => exact hstay rfl rfl himmediate
  | dealloc e => exact hstay rfl rfl himmediate
  | post e delay period cb now =>
    obtain ⟨hdelay, hperiod, hclock, himm⟩ := himmediate
    have hnow : now + delay.toInt.toNat = now := by
      have : delay.toInt ≤ 0 := Int32.le_iff_toInt_le.mp hdelay
      omega
    have htime : ∀ y ∈ t.queue.waiting, y.time ≤ now := fun y hy => (h.time y hy).trans hclock
    refine ⟨now, himm, ?_⟩
    by_cases he : e ∈ held
    · rw [Timetable.step, if_pos he, hnow, DispatcherStep.posts, if_pos he]
      refine ⟨⟨fun y hy => ?_, fun y hy => ?_⟩, ?_⟩
      · rcases List.mem_cons.mp ((TimedQueue.waiting_post _ _ _).subset hy) with rfl | hy
        · exact le_rfl
        · exact htime y hy
      · rcases List.mem_append.mp hy with hy | hy
        · rcases List.mem_cons.mp ((TimedQueue.waiting_post _ _ _).subset hy) with rfl | hy
          · exact Int32.not_le.mpr hperiod
          · exact h.period y (List.mem_append_left _ hy)
        · exact h.period y (List.mem_append_right _ hy)
      · rw [TimedQueue.all_post htime, List.map_append]
        rfl
    · rw [Timetable.step, if_neg he, DispatcherStep.posts, if_neg he, List.append_nil]
      exact ⟨⟨htime, h.period⟩, rfl⟩
  | dequeue now =>
    cases hrunning : t.running with
    | some x => exact hstay (by simp [Timetable.step, hrunning]) rfl himmediate
    | none =>
      cases hbatch : t.queue.batch with
      | cons x rest => exact hstay (by simp [Timetable.step, hbatch]) rfl himmediate
      | nil =>
        have hstep : t.step held (.dequeue now) = { t with queue := t.queue.release now } := by
          simp only [Timetable.step, hbatch, hrunning]
        have hsplit := TimedQueue.dueAt_append_laterThan now t.queue.waiting
        have hposts : (DispatcherStep.dequeue now : DispatcherStep α).posts held = [] := rfl
        rw [hstep, TimedQueue.all_release hbatch, hposts, List.append_nil]
        refine ⟨clock, himmediate, ⟨fun y hy => h.time y ?_, fun y hy => h.period y ?_⟩, rfl⟩
        · rw [← hsplit]
          exact List.mem_append_right _ hy
        · rw [← hsplit]
          simp only [TimedQueue.release, List.mem_append] at hy ⊢
          tauto
  | call =>
    cases hrunning : t.running with
    | some x => exact hstay (by simp [Timetable.step, hrunning]) rfl himmediate
    | none =>
      have hstep : t.step held .call = ⟨t.queue.call, t.queue.batch.head?⟩ := by
        simp only [Timetable.step, hrunning]
      have hwaiting : t.queue.call.waiting = t.queue.waiting := by
        rw [TimedQueue.call]
        split <;> rfl
      have hbatch : t.queue.call.batch = t.queue.batch.tail := by
        rw [TimedQueue.call]
        split <;> simp [*]
      have hposts : (DispatcherStep.call : DispatcherStep α).posts held = [] := rfl
      rw [hstep, TimedQueue.all_call, hposts, List.append_nil]
      refine ⟨clock, himmediate, ⟨fun y hy => h.time y ?_, fun y hy => h.period y ?_⟩, rfl⟩
      · rw [← hwaiting]
        exact hy
      · rw [hwaiting, hbatch] at hy
        simp only [List.mem_append, Option.mem_toList] at hy ⊢
        rcases hy with hy | hy | hy
        · exact .inl hy
        · exact .inr (.inl (List.mem_of_mem_tail hy))
        · exact .inr (.inl (List.mem_of_head? hy))
  | done now =>
    cases hrunning : t.running with
    | none => exact hstay (by simp [Timetable.step, hrunning]) rfl himmediate
    | some x =>
      have hperiod : ¬ x.what.period ≥ 0 := h.period x (by rw [hrunning]; simp)
      have hstep : t.step held (.done now) = { t with running := none } := by
        simp only [Timetable.step, hrunning, if_neg hperiod]
      have hposts : (DispatcherStep.done now : DispatcherStep α).posts held = [] := rfl
      rw [hstep, hposts, List.append_nil]
      refine ⟨clock, himmediate, ⟨h.time, fun y hy => h.period y ?_⟩, rfl⟩
      simp only [Option.toList_none, List.append_nil, List.mem_append] at hy ⊢
      tauto

/-- What a timetable has after a run is what it had and what has been posted. -/
theorem prompt_run {s : Dispatcher α × Timetable α} {clock : ℕ}
    {steps : List (DispatcherStep α)} (h : Prompt s.2 clock)
    (himmediate : Immediate clock steps) :
    (steps.foldl stepTimed s).2.queue.all.map (·.what.cb) =
      s.2.queue.all.map (·.what.cb) ++ posted s.1 steps := by
  induction steps generalizing s clock with
  | nil => exact (List.append_nil _).symm
  | cons x steps ih =>
    obtain ⟨clock', himm, h', hall⟩ := h.step s.1.held himmediate
    rw [List.foldl_cons, ih (s := stepTimed s x) h' himm, posted, ← List.append_assoc]
    exact congrArg (· ++ _) hall

/-- **First in, first out.** When all is posted for now and for once, the callbacks posted
are those called, those in the batch and those pending, in this order. -/
theorem calls_in_posting_order (size now : ℕ) (steps : List (DispatcherStep α))
    (hsized : ∀ s ∈ steps, Sized s) (himmediate : Immediate now steps)
    (htimely : AllTimely (create size now, .create now) steps) :
    ∃ qs cs bs cells, (steps.foldl step (create size now)).Laid qs cs bs cells ∧
      posted (create size now) steps = (steps.foldl step (create size now)).calls ++
        (bs ++ order qs).filterMap fun e => ((steps.foldl step (create size now)).q.mem e).cb := by
  have hfst : ∀ s : Dispatcher α × Timetable α,
      (steps.foldl stepTimed s).1 = steps.foldl step s.1 := by
    clear hsized himmediate htimely
    induction steps with
    | nil => intro s; rfl
    | cons x steps ih => intro s; exact ih (stepTimed s x)
  obtain ⟨⟨qs, cs, bs, cells, time, h⟩, -⟩ :=
    refines_run (Refines.create size now) (TimedQueue.Fair.create now) hsized htimely
  have hprompt : Prompt (.create now : Timetable α) now :=
    ⟨by simp [Timetable.create], by simp [Timetable.create]⟩
  have hall := prompt_run (s := (create size now, .create now)) hprompt himmediate
  rw [hfst] at h
  generalize (steps.foldl stepTimed (create size now, .create now)).2 = t at h hall
  refine ⟨qs, cs, bs, cells, h.laid, ?_⟩
  have hcb : ∀ l : List (Timed ℕ (Posting α)), l ⊆ t.queue.waiting ++ (t.queue.batch ++
      t.running.toList) → (l.map (·.what.event)).filterMap (fun e =>
        ((steps.foldl step (create size now)).q.mem e).cb) = l.map (·.what.cb) := by
    intro l hl
    induction l with
    | nil => rfl
    | cons y l ih =>
      rw [List.cons_subset] at hl
      have hy : ((steps.foldl step (create size now)).q.mem y.what.event).cb =
          some y.what.cb := congrArg (fun r => r.2.2) (h.recorded y hl.1)
      rw [List.map_cons, List.filterMap_cons, hy, ih hl.2, List.map_cons]
  rw [h.batch, h.waiting, List.filterMap_append, hcb _ (by simp), hcb _ (by simp), h.calls]
  have hstart : (Timetable.create now : Timetable α).queue.all = [] := rfl
  rw [hstart, List.map_nil, List.nil_append] at hall
  rw [← hall, TimedQueue.all, List.map_append, List.map_append, List.map_map]
  rfl

/-- Two callers whose posts cross: the first one takes an event first and posts last. -/
theorem calls_in_posting_order_crossed :
    let steps : List (DispatcherStep ℕ) := [.alloc 0, .alloc 0, .post 36 0 (-1) 1 5,
      .dequeue 5, .post 0 0 (-1) 2 6, .call]
    ∃ qs cs bs cells, (steps.foldl step (create 100 0)).Laid qs cs bs cells ∧
      posted (create 100 0) steps = (steps.foldl step (create 100 0)).calls ++
        (bs ++ order qs).filterMap fun e => ((steps.foldl step (create 100 0)).q.mem e).cb :=
  calls_in_posting_order 100 0 _ (by simp [Sized]) (by simp [Immediate]) (by decide +kernel)

end Dispatcher

end WeightScale
