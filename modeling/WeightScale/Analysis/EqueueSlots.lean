import WeightScale.Model.Equeue

/-!
# The lists of the event queue

What each function of `equeue.c` does to the pending events, to the free ones and to the
events being dispatched, as lists: `enqueue` puts an event into its slot, `dequeue` takes
the slots that are due and hangs their events one behind another, oldest first, `memAlloc`
and `memDealloc` take a free event and give it back. The rest of each event stays as it is.
-/

set_option autoImplicit false

namespace WeightScale

open Embedded SlotList

/-- What an event holds beside its links. -/
def EqueueEvent.data {α : Type} (s : EqueueEvent α) :
    ℕ × UInt8 × UInt8 × UInt32 × Int32 × Option α :=
  (s.size, s.id, s.generation, s.target, s.period, s.cb)

namespace Equeue

variable {α : Type} (q : Equeue α)

/-- The target of an event. -/
def target (x : ℕ) : UInt32 := (q.mem x).target

/-- What was asked for when an event was posted. -/
def record (x : ℕ) : UInt32 × Int32 × Option α :=
  ((q.mem x).target, (q.mem x).period, (q.mem x).cb)

/-- What a queue holds beside its lists. -/
def contents : (ℕ → ℕ × UInt8 × UInt8 × UInt32 × Int32 × Option α) ×
    UInt32 × UInt8 × ℕ × ℕ × ℕ × ℕ :=
  (fun x => (q.mem x).data, q.tick, q.generation, q.bufferSize, q.npw2, q.slabData, q.slabSize)

/-- Queues of the same contents have the same records. -/
theorem record_of_contents {q q' : Equeue α} (h : q'.contents = q.contents) :
    q'.record = q.record := funext fun x => congrArg (fun c => (c.1 x).2.2.2) h

/-! ## Updates -/

section updates

variable (e : ℕ) (v : Option ℕ) (r : Ref)

/-- A write of `next` is one of the slot list. -/
@[simp] theorem slots_setNext : (q.setNext e v).slots = q.slots.setNext e v := by
  rw [slots, SlotList.setNext, SlotList.mk.injEq]
  refine ⟨rfl, funext fun x => ?_, funext fun x => ?_⟩
  · by_cases hx : x = e <;> simp [setNext, modify, slots, hx]
  · by_cases hx : x = e <;> simp [setNext, modify, slots, hx]

/-- A write of `sibling` is one of the slot list. -/
@[simp] theorem slots_setSibling : (q.setSibling e v).slots = q.slots.setSibling e v := by
  rw [slots, SlotList.setSibling, SlotList.mk.injEq]
  refine ⟨rfl, funext fun x => ?_, funext fun x => ?_⟩
  · by_cases hx : x = e <;> simp [setSibling, modify, slots, hx]
  · by_cases hx : x = e <;> simp [setSibling, modify, slots, hx]

/-- The event changed is what the change makes of it. -/
theorem mem_modify_self (f : EqueueEvent α → EqueueEvent α) :
    (q.modify e f).mem e = f (q.mem e) := Function.update_self _ _ _

/-- All other events stay as they are. -/
theorem mem_modify_of_ne {f : EqueueEvent α → EqueueEvent α} {x : ℕ} (hx : x ≠ e) :
    (q.modify e f).mem x = q.mem x := Function.update_of_ne hx _ _

/-- A change of the data moves no slot. -/
theorem slots_modify {f : EqueueEvent α → EqueueEvent α} (hnext : ∀ s, (f s).next = s.next)
    (hsibling : ∀ s, (f s).sibling = s.sibling) : (q.modify e f).slots = q.slots := by
  rw [slots, slots, SlotList.mk.injEq]
  refine ⟨rfl, funext fun x => ?_, funext fun x => ?_⟩
  · by_cases hx : x = e <;> simp [modify, hx, hnext]
  · by_cases hx : x = e <;> simp [modify, hx, hsibling]

/-- The back pointer is no field of the slot list. -/
@[simp] theorem slots_setRef : (q.setRef e r).slots = q.slots :=
  q.slots_modify e (fun _ => rfl) fun _ => rfl

/-- The back pointer is no field of the slot list, where it is written or not. -/
@[simp] theorem slots_setRef? : (q.setRef? v r).slots = q.slots := by
  cases v with
  | none => rfl
  | some e => exact q.slots_setRef e r

/-- A write through a place of the queue is one of the slot list. -/
@[simp] theorem slots_assign_place (p : Option ℕ) :
    (q.assign (place p) v).slots = q.slots.assign p v := by
  cases p with
  | none => rfl
  | some x => exact q.slots_setNext x v

/-- A change of the pointers leaves target, period and callback. -/
theorem record_modify {f : EqueueEvent α → EqueueEvent α}
    (hf : ∀ s, ((f s).target, (f s).period, (f s).cb) = (s.target, s.period, s.cb)) :
    (q.modify e f).record = q.record := by
  funext x
  by_cases hx : x = e
  · rw [hx, record, record, mem_modify_self]
    exact hf (q.mem e)
  · rw [record, mem_modify_of_ne _ _ hx]
    rfl

/-- A change of the pointers leaves the contents. -/
theorem contents_modify {f : EqueueEvent α → EqueueEvent α} (hf : ∀ s, (f s).data = s.data) :
    (q.modify e f).contents = q.contents := by
  rw [contents, contents, Prod.mk.injEq]
  refine ⟨funext fun x => ?_, rfl⟩
  by_cases hx : x = e <;> simp [modify, hx, hf]

/-- A write of `next` leaves the contents. -/
@[simp] theorem contents_setNext : (q.setNext e v).contents = q.contents :=
  q.contents_modify e fun _ => rfl

/-- A write of `sibling` leaves the contents. -/
@[simp] theorem contents_setSibling : (q.setSibling e v).contents = q.contents :=
  q.contents_modify e fun _ => rfl

/-- A write of `ref` leaves the contents. -/
@[simp] theorem contents_setRef : (q.setRef e r).contents = q.contents :=
  q.contents_modify e fun _ => rfl

/-- A write of `ref`, where it is made or not, leaves the contents. -/
@[simp] theorem contents_setRef? : (q.setRef? v r).contents = q.contents := by
  cases v with
  | none => rfl
  | some e => exact q.contents_setRef e r

/-- A write through a reference leaves the contents. -/
@[simp] theorem contents_assign : (q.assign r v).contents = q.contents := by
  cases r with
  | queue => rfl
  | next e => exact q.contents_setNext e v
  | sibling e => exact q.contents_setSibling e v

/-- A write of `ref` leaves the head of the free chunks. -/
@[simp] theorem chunks_setRef? : (q.setRef? v r).chunks = q.chunks := by
  cases v <;> rfl

/-- A write through a reference of the queue leaves the head of the free chunks. -/
@[simp] theorem chunks_assign : (q.assign r v).chunks = q.chunks := by
  cases r <;> rfl

end updates

/-! ## Posting -/

section posting

variable (e : ℕ) (p : Option ℕ)

/-- The pointer work of `equeue_enqueue` is an insertion into the slot list. -/
theorem slots_link :
    (q.link e p).slots =
      q.slots.insert e p fun h => (q.mem h).target = (q.mem e).target := by
  rw [link, SlotList.insert]
  cases q.slots.deref p with
  | none => simp
  | some h =>
    by_cases htarget : (q.mem h).target = (q.mem e).target
    · simp only [if_pos htarget, slots_setRef, slots_assign_place, slots_setSibling,
        slots_setRef?, slots_setNext]
      show _ = if decide ((q.mem h).target = (q.mem e).target) = true then _ else _
      rw [if_pos (decide_eq_true htarget)]
      rfl
    · simp [htarget]

/-- Linking an event in leaves the contents. -/
theorem contents_link : (q.link e p).contents = q.contents := by
  rw [link]
  cases q.slots.deref p with
  | none => simp
  | some h => by_cases htarget : (q.mem h).target = (q.mem e).target <;> simp [htarget]

/-- Linking an event in leaves the head of the free chunks. -/
theorem chunks_link : (q.link e p).chunks = q.chunks := by
  rw [link]
  cases q.slots.deref p with
  | none =>
    show (assign _ _ _).chunks = _
    rw [chunks_assign]
    rfl
  | some h =>
    show (assign _ _ _).chunks = _
    rw [chunks_assign]
    show (if _ then _ else _ : Equeue α).chunks = _
    split
    · show (setRef? _ _ _).chunks = _
      rw [chunks_setRef?]
      rfl
    · rfl

/-- An event with its target and generation, before it is linked. -/
def stamp (tick : UInt32) : Equeue α :=
  q.modify e fun s =>
    { s with
      target := tick + (clampdiff s.target tick).toUInt32
      generation := q.generation }

/-- The slots with `e` in front of the slot of its target. -/
def insertSlot (target : ℕ → UInt32) (e : ℕ) (ss : List (ℕ × List ℕ)) : List (ℕ × List ℕ) :=
  putAt e (fun h => tickdiff (target h) (target e) < 0) (fun h => target h = target e) ss

variable {q} {ss : List (ℕ × List ℕ)} (tick : UInt32)

/-- `equeue_enqueue` stamps the event and links it in behind the earlier slots. -/
theorem enqueue_eq (h : q.slots.Holds ss) (hlen : ss.length ≤ q.bufferSize) :
    q.enqueue e tick = (q.stamp e tick).link e
      (lastPlace none (ss.takeWhile fun s =>
        tickdiff ((q.stamp e tick).mem s.1).target ((q.stamp e tick).mem e).target < 0)) := by
  have hs : (q.stamp e tick).slots = q.slots := q.slots_modify e (fun _ => rfl) fun _ => rfl
  show (q.stamp e tick).link e ((q.stamp e tick).findSlot _) = _
  congr 1
  rw [findSlot, hs]
  exact walk_eq h.chain h.head_eq hlen

/-- Of the contents, enqueuing changes the stamp only. -/
theorem contents_enqueue (h : q.slots.Holds ss) (hlen : ss.length ≤ q.bufferSize) :
    (q.enqueue e tick).contents = (q.stamp e tick).contents := by
  rw [enqueue_eq e tick h hlen, contents_link]

/-- Of the targets, enqueuing changes the one stamped only. -/
theorem target_enqueue (h : q.slots.Holds ss) (hlen : ss.length ≤ q.bufferSize) :
    (q.enqueue e tick).target = (q.stamp e tick).target :=
  congrArg (fun c x => (c.1 x).2.2.2.1) (contents_enqueue e tick h hlen)

/-- Enqueuing inserts the event at its target into the slots the memory holds. -/
theorem holds_enqueue (h : q.slots.Holds ss) (hlen : ss.length ≤ q.bufferSize)
    (he : e ∉ nodes ss) :
    (q.enqueue e tick).slots.Holds (insertSlot (q.enqueue e tick).target e ss) := by
  rw [target_enqueue e tick h hlen]
  have hs : (q.stamp e tick).slots = q.slots := q.slots_modify e (fun _ => rfl) fun _ => rfl
  rw [enqueue_eq e tick h hlen, slots_link, hs]
  exact holds_insert_walk (fun x =>
    tickdiff ((q.stamp e tick).mem x).target ((q.stamp e tick).mem e).target < 0) _ h he

/-- Enqueuing leaves the head of the free chunks. -/
theorem chunks_enqueue (h : q.slots.Holds ss) (hlen : ss.length ≤ q.bufferSize) :
    (q.enqueue e tick).chunks = q.chunks := by
  rw [enqueue_eq e tick h hlen, chunks_link]
  rfl

/-- Only `e` and pending events are linked anew. -/
theorem links_enqueue (h : q.slots.Holds ss) (hlen : ss.length ≤ q.bufferSize) {x : ℕ}
    (hx : x ∉ e :: nodes ss) :
    ((q.enqueue e tick).mem x).next = (q.mem x).next ∧
      ((q.enqueue e tick).mem x).sibling = (q.mem x).sibling := by
  have hs : (q.stamp e tick).slots = q.slots := q.slots_modify e (fun _ => rfl) fun _ => rfl
  rw [List.mem_cons, not_or] at hx
  rw [enqueue_eq e tick h hlen]
  show ((q.stamp e tick).link e _).slots.next x = q.slots.next x ∧
    ((q.stamp e tick).link e _).slots.sibling x = q.slots.sibling x
  rw [slots_link, hs]
  exact insert_of_ne hx.1 fun hp => hx.2 (mem_of_lastPlace_takeWhile hp.symm)

end posting

/-! ## Dequeuing -/

section dequeuing

/-- From `q` to `q'`, no more than `next` of some events changes. -/
structure Relinked (q q' : Equeue α) (es : List ℕ) : Prop where
  queue_eq : q'.queue = q.queue
  chunks_eq : q'.chunks = q.chunks
  contents_eq : q'.contents = q.contents
  sibling_eq : ∀ x, (q'.mem x).sibling = (q.mem x).sibling
  next_eq : ∀ x, x ∉ es → (q'.mem x).next = (q.mem x).next

variable {q} {q' q'' : Equeue α} {es : List ℕ}

/-- Nothing has been written. -/
theorem Relinked.refl (q : Equeue α) (es : List ℕ) : Relinked q q es :=
  ⟨rfl, rfl, rfl, fun _ => rfl, fun _ _ => rfl⟩

/-- Two rounds of writes into the same events are one. -/
theorem Relinked.trans (h : Relinked q q' es) (h' : Relinked q' q'' es) : Relinked q q'' es :=
  ⟨h'.queue_eq.trans h.queue_eq, h'.chunks_eq.trans h.chunks_eq,
    h'.contents_eq.trans h.contents_eq, fun x => (h'.sibling_eq x).trans (h.sibling_eq x),
    fun x hx => (h'.next_eq x hx).trans (h.next_eq x hx)⟩

/-- Writes into some events are writes into more events. -/
theorem Relinked.mono {es' : List ℕ} (h : Relinked q q' es) (hsub : es ⊆ es') :
    Relinked q q' es' :=
  ⟨h.queue_eq, h.chunks_eq, h.contents_eq, h.sibling_eq,
    fun x hx => h.next_eq x fun hmem => hx (hsub hmem)⟩

/-- A write of `next` stays within its own event. -/
theorem relinked_setNext (q : Equeue α) {e : ℕ} (v : Option ℕ) (he : e ∈ es) :
    Relinked q (q.setNext e v) es := by
  refine ⟨rfl, rfl, q.contents_setNext e v, fun x => ?_, fun x hx => ?_⟩
  · show (q.setNext e v).slots.sibling x = _
    rw [slots_setNext]
    rfl
  · show (q.setNext e v).slots.next x = _
    rw [slots_setNext]
    refine Function.update_of_ne ?_ _ _
    rintro rfl
    exact hx he

/-- Relinking leaves the size of the buffer. -/
theorem Relinked.bufferSize_eq (h : Relinked q q' es) : q'.bufferSize = q.bufferSize :=
  congrArg (fun c => c.2.2.2.1) h.contents_eq

/-- The events of a slot come out in the other direction, in front of `acc`. -/
theorem reverseSlot_spec {fuel : ℕ} (acc : List ℕ) (hes : Linked q.slots.sibling es)
    (hacc : Linked q.slots.next acc) (hnodup : (es ++ acc).Nodup) (hfuel : es.length ≤ fuel) :
    (reverseSlot fuel q acc.head? es.head?).2 = (es.reverse ++ acc).head? ∧
      Linked (reverseSlot fuel q acc.head? es.head?).1.slots.next (es.reverse ++ acc) ∧
      Relinked q (reverseSlot fuel q acc.head? es.head?).1 es := by
  induction es generalizing fuel q acc with
  | nil =>
    have hdone : reverseSlot fuel q acc.head? none = (q, acc.head?) := by
      cases fuel <;> rfl
    rw [List.head?_nil, hdone]
    exact ⟨rfl, hacc, .refl q []⟩
  | cons e es ih =>
    obtain ⟨fuel, rfl⟩ : ∃ n, fuel = n + 1 := ⟨fuel - 1, by simp at hfuel; omega⟩
    rw [List.cons_append, List.nodup_cons] at hnodup
    have hset := relinked_setNext q acc.head? (List.mem_cons_self (a := e) (l := es))
    have hnext : Linked (q.setNext e acc.head?).slots.next (e :: acc) := by
      rw [slots_setNext]
      refine ⟨Function.update_self _ _ _, linked_congr hacc fun x hx => ?_⟩
      refine Function.update_of_ne ?_ _ _
      rintro rfl
      exact hnodup.1 (List.mem_append_right _ hx)
    have hsib : Linked (q.setNext e acc.head?).slots.sibling es :=
      linked_congr hes.2 fun x _ => hset.sibling_eq x
    have hstep : reverseSlot (fuel + 1) q acc.head? (e :: es).head? =
        reverseSlot fuel (q.setNext e acc.head?) (e :: acc).head? es.head? := by
      rw [← hes.1]
      rfl
    obtain ⟨hhead, hlinked, hrel⟩ := ih (e :: acc) hsib hnext
      (List.nodup_middle.mpr (List.nodup_cons.mpr hnodup)) (Nat.le_of_succ_le_succ hfuel)
    rw [hstep, List.reverse_cons, List.append_assoc]
    exact ⟨hhead, hlinked, hset.trans (hrel.mono (List.subset_cons_self e es))⟩

/-- One slot is put behind `acc`. -/
theorem flatten_step (fuel : ℕ) {acc : List ℕ} {s : ℕ × List ℕ} {ess : Option ℕ}
    (hs : Linked q.slots.sibling (s.1 :: s.2)) (hnext : q.slots.next s.1 = ess)
    (hacc : Linked q.slots.next acc) (hnodup : (acc ++ (s.1 :: s.2)).Nodup)
    (hlen : (s.1 :: s.2).length ≤ q.bufferSize) :
    ∃ q' : Equeue α, flatten (fuel + 1) q acc.head? acc.getLast? (some s.1) =
        flatten fuel q' (acc ++ (s.1 :: s.2).reverse).head?
          (acc ++ (s.1 :: s.2).reverse).getLast? ess ∧
      Linked q'.slots.next (acc ++ (s.1 :: s.2).reverse) ∧
      Relinked q q' (acc ++ (s.1 :: s.2)) := by
  obtain ⟨hhead, hlinked, hrel⟩ := reverseSlot_spec [] hs trivial
    (by rw [List.append_nil]; exact hnodup.of_append_right) hlen
  rw [List.append_nil] at hhead hlinked
  generalize hr : reverseSlot q.bufferSize q ([] : List ℕ).head? (s.1 :: s.2).head? = r at *
  have hlast : (acc ++ (s.1 :: s.2).reverse).getLast? = some s.1 := by simp
  have hrel' := hrel.mono (List.subset_append_right acc (s.1 :: s.2))
  have hacc' : Linked r.1.slots.next acc := by
    refine linked_congr hacc fun x hx => hrel.next_eq x fun hmem => ?_
    exact (List.disjoint_of_nodup_append hnodup) hx hmem
  rw [hlast]
  cases hx : acc.getLast? with
  | none =>
    obtain rfl := List.getLast?_eq_none_iff.mp hx
    refine ⟨r.1, ?_, hlinked, hrel'⟩
    rw [List.nil_append, ← hhead, ← hnext, ← hr]
    rfl
  | some x =>
    have hmem : x ∈ acc := List.mem_of_getLast? hx
    have hfirst : (acc ++ (s.1 :: s.2).reverse).head? = acc.head? := by
      obtain ⟨y, acc, rfl⟩ := List.exists_cons_of_ne_nil (List.ne_nil_of_mem hmem)
      rfl
    refine ⟨r.1.setNext x r.2, ?_, ?_, ?_⟩
    · rw [hfirst, ← hnext, ← hr]
      rfl
    · rw [slots_setNext, hhead]
      refine linked_append hacc' hlinked ?_ hx
      exact (List.Perm.nodup_iff ((List.reverse_perm _).append_left acc)).mpr hnodup
    · exact hrel'.trans (relinked_setNext r.1 r.2 (List.mem_append_left _ hmem))

/-- The slots come out one behind another, behind `acc`. -/
theorem flatten_spec (fuel : ℕ) (acc : List ℕ) {ss : List (ℕ × List ℕ)}
    (hss : q.slots.Chain ss none) (hacc : Linked q.slots.next acc)
    (hnodup : (acc ++ nodes ss).Nodup) (hfuel : ss.length ≤ fuel)
    (hlen : (nodes ss).length ≤ q.bufferSize) :
    (flatten fuel q acc.head? acc.getLast? (first ss)).2 = (acc ++ order ss).head? ∧
      Linked (flatten fuel q acc.head? acc.getLast? (first ss)).1.slots.next (acc ++ order ss) ∧
      Relinked q (flatten fuel q acc.head? acc.getLast? (first ss)).1 (acc ++ nodes ss) := by
  induction ss generalizing fuel q acc with
  | nil =>
    have hdone : flatten fuel q acc.head? acc.getLast? none = (q, acc.head?) := by
      cases fuel <;> rfl
    rw [first_nil, hdone, order_nil, nodes_nil, List.append_nil]
    exact ⟨rfl, hacc, .refl q acc⟩
  | cons s ss ih =>
    obtain ⟨fuel, rfl⟩ : ∃ n, fuel = n + 1 := ⟨fuel - 1, by simp at hfuel; omega⟩
    rw [nodes_cons, ← List.append_assoc] at hnodup
    rw [nodes_cons, List.length_append] at hlen
    have hnext : q.slots.next s.1 = first ss := hss.2.1.trans Option.or_none
    obtain ⟨q', heq, hlinked, hrel⟩ := flatten_step fuel hss.1 hnext hacc
      hnodup.of_append_left (by omega)
    have hdisj := List.disjoint_of_nodup_append hnodup
    have hss' : q'.slots.Chain ss none := chain_congr hss.2.2
      (fun x hx => hrel.next_eq x fun hmem => hdisj hmem hx) fun x _ => hrel.sibling_eq x
    have hperm : (acc ++ (s.1 :: s.2).reverse ++ nodes ss).Perm
        (acc ++ (s.1 :: s.2) ++ nodes ss) :=
      ((List.reverse_perm _).append_left acc).append_right (nodes ss)
    obtain ⟨hhead, hall, hrel'⟩ := ih fuel _ hss' hlinked (hperm.nodup_iff.mpr hnodup)
      (Nat.le_of_succ_le_succ hfuel) (by rw [hrel.bufferSize_eq]; omega)
    rw [first_cons, heq, order_cons, nodes_cons, ← List.append_assoc, ← List.append_assoc]
    refine ⟨hhead, hall, (hrel.mono (List.subset_append_left _ _)).trans (hrel'.mono ?_)⟩
    exact fun x hx => hperm.subset hx

/-- A queue that has been dequeued once more, up to a tick. -/
def newGeneration (q : Equeue α) (target : UInt32) : Equeue α :=
  { q with
    generation := q.generation + 1
    tick := if tickdiff q.tick target ≤ 0 then target else q.tick }

/-- The slots that are due at a tick. -/
def due (q : Equeue α) (target : UInt32) (ss : List (ℕ × List ℕ)) : List (ℕ × List ℕ) :=
  ss.takeWhile fun s => tickdiff (q.mem s.1).target target ≤ 0

/-- The slots behind those. -/
def notDue (q : Equeue α) (target : UInt32) (ss : List (ℕ × List ℕ)) : List (ℕ × List ℕ) :=
  ss.dropWhile fun s => tickdiff (q.mem s.1).target target ≤ 0

/-- The slots that are due come in front of the others. -/
theorem due_append_notDue (q : Equeue α) (target : UInt32) (ss : List (ℕ × List ℕ)) :
    q.due target ss ++ q.notDue target ss = ss := List.takeWhile_append_dropWhile

variable {ss : List (ℕ × List ℕ)} (target : UInt32)

/-- The loop of `equeue_dequeue` cuts the slots behind the last one that is due. -/
theorem cut_spec (h : q.slots.Holds ss) (hlen : ss.length ≤ q.bufferSize) :
    (q.cut target).2 = first (q.due target ss) ∧
      (q.cut target).1.slots = q.slots.cut (lastPlace none (q.due target ss)) ∧
      (q.cut target).1.contents = (q.newGeneration target).contents ∧
      (q.cut target).1.chunks = q.chunks := by
  have hlast : (q.newGeneration target).lastDue target = lastPlace none (q.due target ss) :=
    walk_eq h.chain h.head_eq hlen
  rw [newGeneration] at hlast
  rw [Equeue.cut]
  dsimp only
  rw [hlast]
  cases hp : lastPlace none (q.due target ss) with
  | none =>
    rw [eq_nil_of_lastPlace hp]
    exact ⟨rfl, slots_setRef? _ _ _, contents_setRef? _ _ _, chunks_setRef? _ _ _⟩
  | some x =>
    have hfirst : q.queue = first (q.due target ss) := by
      have hhead := h.head_eq
      rw [← q.due_append_notDue target ss, first_append] at hhead
      cases hdue : q.due target ss with
      | nil => rw [hdue] at hp; cases hp
      | cons s due => rw [hdue] at hhead; exact hhead
    refine ⟨hfirst, ?_, ?_, ?_⟩
    · rw [slots_setNext, slots_setRef?]
      rfl
    · rw [contents_setNext, contents_setRef?]
      rfl
    · exact chunks_setRef? _ _ _

/-- The slots that are due leave the queue, and their events hang one behind another. -/
theorem dequeue_spec (h : q.slots.Holds ss) (hlen : (nodes ss).length ≤ q.bufferSize) :
    (q.dequeue target).2 = (order (q.due target ss)).head? ∧
      Linked (q.dequeue target).1.slots.next (order (q.due target ss)) ∧
      (q.dequeue target).1.slots.Holds (q.notDue target ss) ∧
      (q.dequeue target).1.contents = (q.newGeneration target).contents ∧
      (q.dequeue target).1.chunks = q.chunks ∧
      ∀ x, x ∉ nodes ss → ((q.dequeue target).1.mem x).next = (q.mem x).next ∧
        ((q.dequeue target).1.mem x).sibling = (q.mem x).sibling := by
  have hsplit := q.due_append_notDue target ss
  obtain ⟨hhead, hslots, hcontents, hchunks⟩ :=
    cut_spec target h (Nat.le_trans (length_le_length_nodes ss) hlen)
  have hs : q.slots.Holds (q.due target ss ++ q.notDue target ss) := by
    rw [hsplit]
    exact h
  obtain ⟨hholds, hdue⟩ := holds_cut hs
  have hnodup := h.nodup
  rw [← hsplit, nodes_append] at hnodup hlen
  rw [List.length_append] at hlen
  have hsize : (q.cut target).1.bufferSize = q.bufferSize :=
    congrArg (fun c => c.2.2.2.1) hcontents
  rw [← hslots] at hholds hdue
  have hcount := length_le_length_nodes (q.due target ss)
  -- `head` is overwritten by the first slot
  have hflat : q.dequeue target = flatten q.bufferSize (q.cut target).1 ([] : List ℕ).head?
      ([] : List ℕ).getLast? (first (q.due target ss)) := by
    rw [dequeue, hhead]
    cases hcases : q.due target ss with
    | nil => rfl
    | cons s due =>
      rw [hcases, List.length_cons] at hcount
      obtain ⟨fuel, hfuel⟩ : ∃ n, q.bufferSize = n + 1 := ⟨q.bufferSize - 1, by
        rw [← hcases] at hcount
        omega⟩
      rw [hfuel]
      rfl
  obtain ⟨hfirst, hlinked, hrel⟩ := flatten_spec q.bufferSize [] hdue trivial
    hnodup.of_append_left (by omega) (by omega)
  rw [← hflat, List.nil_append] at hfirst hlinked hrel
  refine ⟨hfirst, hlinked, ?_, hrel.contents_eq.trans hcontents, hrel.chunks_eq.trans hchunks, ?_⟩
  · have hdisj := List.disjoint_of_nodup_append hnodup
    exact hholds.congr hrel.queue_eq (fun x hx => hrel.next_eq x fun hmem => hdisj hmem hx)
      fun x _ => hrel.sibling_eq x
  · intro x hx
    rw [← hsplit, nodes_append, List.mem_append, not_or] at hx
    have hcut := cut_of_ne (l := q.slots) (x := x) (p := lastPlace none (q.due target ss))
      fun hp => hx.1 (mem_of_lastPlace hp.symm)
    rw [← hslots] at hcut
    exact ⟨(hrel.next_eq x hx.1).trans hcut.1, (hrel.sibling_eq x).trans hcut.2⟩

end dequeuing

/-! ## Allocation -/

section allocation

/-- The free chunks are a slot list in the same memory with a head of its own. -/
theorem free_eq : q.free = { q.slots with head := q.chunks } := rfl

variable (e : ℕ) (v : Option ℕ)

/-- A write of `next` is one of the list of free chunks. -/
@[simp] theorem free_setNext : (q.setNext e v).free = q.free.setNext e v := by
  rw [free_eq, slots_setNext]
  rfl

/-- A write of `sibling` is one of the list of free chunks. -/
@[simp] theorem free_setSibling : (q.setSibling e v).free = q.free.setSibling e v := by
  rw [free_eq, slots_setSibling]
  rfl

/-- A write through a place of the free chunks is one of their list. -/
@[simp] theorem free_assignFree (p : Option ℕ) :
    (q.assignFree p v).free = q.free.assign p v := by
  cases p with
  | none => rfl
  | some x => exact q.free_setNext x v

/-- A write through a place of the free chunks leaves the contents. -/
@[simp] theorem contents_assignFree (p : Option ℕ) : (q.assignFree p v).contents = q.contents := by
  cases p with
  | none => rfl
  | some x => exact q.contents_setNext x v

/-- A write through a place of the free chunks leaves the head of the queue. -/
@[simp] theorem queue_assignFree (p : Option ℕ) : (q.assignFree p v).queue = q.queue := by
  cases p <;> rfl

/-- The place behind the free events that are too small for a request. -/
def fit (n : ℕ) (cs : List (ℕ × List ℕ)) : Option ℕ :=
  lastPlace none (cs.takeWhile fun s => (q.mem s.1).size < n)

variable {q} {cs : List (ℕ × List ℕ)}

/-- The loop over the free chunks stops at the first one that is large enough. -/
theorem walk_free (h : q.free.Holds cs) (hlen : cs.length ≤ q.bufferSize) (n : ℕ) :
    q.free.walk (fun h => (q.mem h).size < n) q.bufferSize none = q.fit n cs :=
  walk_eq h.chain h.head_eq hlen

/-- `equeue_mem_dealloc` inserts the chunk by its size, as a sibling of its equals. -/
theorem memDealloc_spec (h : q.free.Holds cs) (hlen : cs.length ≤ q.bufferSize) :
    (q.memDealloc e).free =
        q.free.insert e (q.fit (q.mem e).size cs) (fun h => (q.mem h).size = (q.mem e).size) ∧
      (q.memDealloc e).contents = q.contents ∧ (q.memDealloc e).queue = q.queue := by
  rw [memDealloc, walk_free h hlen, SlotList.insert]
  generalize q.fit (q.mem e).size cs = p
  cases q.free.deref p with
  | none => exact ⟨by simp, by simp, queue_assignFree _ _ _⟩
  | some h =>
    dsimp only
    by_cases hsize : (q.mem h).size = (q.mem e).size
    · rw [if_pos hsize, if_pos (decide_eq_true hsize)]
      refine ⟨?_, by simp, queue_assignFree _ _ _⟩
      rw [free_assignFree, free_setSibling, free_setNext]
      rfl
    · rw [if_neg hsize, if_neg (by simpa using hsize)]
      exact ⟨by simp, by simp, queue_assignFree _ _ _⟩

/-- A queue that has carved an event out of the slab. -/
def carve (q : Equeue α) (size : ℕ) : Equeue α :=
  { q with slabData := q.slabData + size, slabSize := q.slabSize - size }.modify q.slabData
    fun s => { s with size := size, id := 1 }

/-- The events are taken from the free ones, from the smallest size that is enough, and
else from the slab. -/
theorem memAlloc_spec (h : q.free.Holds cs) (hlen : cs.length ≤ q.bufferSize) (request : UInt32) :
    (∃ (pre post : List (ℕ × List ℕ)) (s : ℕ × List ℕ) (q' : Equeue α),
      cs = pre ++ s :: post ∧ (∀ s' ∈ pre, (q.mem s'.1).size < (chunkSize request).toNat) ∧
      (chunkSize request).toNat ≤ (q.mem s.1).size ∧ q.memAlloc request = (q', some s.1) ∧
      q'.free = q.free.pop (lastPlace none pre) ∧ q'.contents = q.contents ∧
      q'.queue = q.queue) ∨
    ((∀ s ∈ cs, (q.mem s.1).size < (chunkSize request).toNat) ∧
      (chunkSize request).toNat ≤ q.slabSize ∧
      q.memAlloc request = (q.carve (chunkSize request).toNat, some q.slabData)) ∨
    ((∀ s ∈ cs, (q.mem s.1).size < (chunkSize request).toNat) ∧
      q.slabSize < (chunkSize request).toNat ∧
      q.memAlloc request = (q, none)) := by
  generalize hn : (chunkSize request).toNat = n
  have hsplit : (cs.takeWhile fun s => (q.mem s.1).size < n) ++
      (cs.dropWhile fun s => (q.mem s.1).size < n) = cs := List.takeWhile_append_dropWhile
  have hpre : ∀ s ∈ cs.takeWhile fun s => (q.mem s.1).size < n, (q.mem s.1).size < n := by
    intro s hs
    simpa using List.mem_takeWhile_imp hs
  have hchain := h.chain
  have hhead : q.free.deref none = _ := h.head_eq
  rw [← hsplit, chain_append, Option.or_none] at hchain
  rw [← hsplit, first_append] at hhead
  have hplace := deref_lastPlace hchain.1 hhead
  have hwalk : q.free.walk (fun h => (q.mem h).size < n) q.bufferSize none =
      lastPlace none (cs.takeWhile fun s => (q.mem s.1).size < n) := walk_free h hlen n
  rw [memAlloc, hn, hwalk, hplace]
  generalize hpre' : (cs.takeWhile fun s => (q.mem s.1).size < n) = pre at *
  cases hpost : cs.dropWhile fun s => (q.mem s.1).size < n with
  | nil =>
    rw [hpost, List.append_nil] at hsplit
    subst hsplit
    rw [first_nil]
    by_cases hslab : n ≤ q.slabSize
    · exact .inr (.inl ⟨hpre, hslab, if_pos hslab⟩)
    · exact .inr (.inr ⟨hpre, by omega, if_neg hslab⟩)
  | cons s post =>
    rw [hpost] at hsplit hplace
    have hs : n ≤ (q.mem s.1).size := by
      have := List.head_dropWhile_not (fun s : ℕ × List ℕ => decide ((q.mem s.1).size < n)) (l := cs)
        (by rw [hpost]; exact List.cons_ne_nil _ _)
      simp only [hpost, List.head_cons, decide_eq_false_iff_not] at this
      omega
    rw [first_cons]
    dsimp only
    cases hsib : (q.mem s.1).sibling with
    | none =>
      have hfree : q.free.sibling s.1 = none := hsib
      refine .inl ⟨pre, post, s, _, hsplit.symm, hpre, hs, rfl, ?_, ?_, ?_⟩
      · rw [free_assignFree, SlotList.pop, hplace]
        simp only [first_cons, hfree]
        rfl
      · rw [contents_assignFree]
      · rw [queue_assignFree]
    | some s' =>
      have hfree : q.free.sibling s.1 = some s' := hsib
      refine .inl ⟨pre, post, s, _, hsplit.symm, hpre, hs, rfl, ?_, ?_, ?_⟩
      · rw [free_setNext, free_assignFree, SlotList.pop, hplace]
        simp only [first_cons, hfree]
        rfl
      · rw [contents_setNext, contents_assignFree]
      · show (q.assignFree _ _).queue = _
        rw [queue_assignFree]

end allocation

end Equeue

end WeightScale
