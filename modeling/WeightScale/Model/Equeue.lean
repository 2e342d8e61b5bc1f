import WeightScale.Embedded.SlotList

/-!
# `equeue.c`

The event queue behind `EventQueue`, pointer by pointer. Events lie in a buffer and are
named by their offset in it. Pending events hang in slots, one for each target tick: the
slots are linked by `next` from the soonest on, the events of a slot by `sibling` from the
newest on, and `ref` of an event is the place that points to it. Free events hang in the
same way in `chunks`, by their size.

What the functions do under their locks is atomic here. The queues of this program are
neither chained nor put in the background, so `background.update` stays null.
-/

set_option autoImplicit false

namespace WeightScale

open Embedded

/-- equeue.c:26-28 -/
def tickdiff (a b : UInt32) : Int32 := (a - b).toInt32

/-- equeue.c:32-35 -/
def clampdiff (a b : UInt32) : Int32 :=
  let diff := tickdiff a b
  ~~~(diff >>> 31) &&& diff

/-- The places that point to an event: `&q->queue`, `&e->next`, `&e->sibling`. -/
inductive Ref where
  | queue
  | next (e : ℕ)
  | sibling (e : ℕ)
deriving DecidableEq

/-- `struct equeue_event`. A pointer to an event is its offset in the buffer, the null
pointer is `none`. equeue.h:38-53 -/
structure EqueueEvent (α : Type) where
  size : ℕ := 0
  id : UInt8 := 0
  generation : UInt8 := 0
  next : Option ℕ := none
  sibling : Option ℕ := none
  ref : Ref := .queue
  target : UInt32 := 0
  period : Int32 := -1
  cb : Option α := none

/-- `struct equeue`, with the memory of its buffer. equeue.h:56-83 -/
structure Equeue (α : Type) where
  mem : ℕ → EqueueEvent α := fun _ => {}
  queue : Option ℕ := none
  tick : UInt32 := 0
  generation : UInt8 := 0
  bufferSize : ℕ
  npw2 : ℕ
  chunks : Option ℕ := none
  slabData : ℕ := 0
  slabSize : ℕ

namespace Equeue

variable {α : Type}

/-- equeue.c:59-79 -/
def create (size : ℕ) (tick : UInt32) : Equeue α where
  bufferSize := size
  npw2 := if size = 0 then 0 else size.log2 + 1
  slabSize := size
  tick := tick

variable (q : Equeue α)

/-! ## Memory -/

def modify (e : ℕ) (f : EqueueEvent α → EqueueEvent α) : Equeue α :=
  { q with mem := Function.update q.mem e (f (q.mem e)) }

def setNext (e : ℕ) (v : Option ℕ) : Equeue α := q.modify e fun s => { s with next := v }

def setSibling (e : ℕ) (v : Option ℕ) : Equeue α := q.modify e fun s => { s with sibling := v }

def setRef (e : ℕ) (r : Ref) : Equeue α := q.modify e fun s => { s with ref := r }

/-- `if (e) e->ref = r;` -/
def setRef? (e : Option ℕ) (r : Ref) : Equeue α :=
  match e with
  | some e => q.setRef e r
  | none => q

/-- `*r = v` -/
def assign (r : Ref) (v : Option ℕ) : Equeue α :=
  match r with
  | .queue => { q with queue := v }
  | .next e => q.setNext e v
  | .sibling e => q.setSibling e v

/-- A place of the list of slots: its head, or `next` of an event. -/
def place : Option ℕ → Ref
  | none => .queue
  | some e => .next e

/-- The pending events. -/
def slots : SlotList ℕ where
  head := q.queue
  next := fun e => (q.mem e).next
  sibling := fun e => (q.mem e).sibling

/-- The free events. -/
def free : SlotList ℕ where
  head := q.chunks
  next := fun e => (q.mem e).next
  sibling := fun e => (q.mem e).sibling

/-! ## Allocation -/

/-- `*p = v` in the list of free events. -/
def assignFree (p v : Option ℕ) : Equeue α :=
  match p with
  | none => { q with chunks := v }
  | some x => q.setNext x v

/-- A request with the size of `struct equeue_event` on this target, rounded up to words. A
`size_t` has 32 bits, so the sum wraps around for the last requests.
equeue.c:128-129 -/
def chunkSize (size : UInt32) : UInt32 := (size + 36 + 3) / 4 * 4

/-- equeue.c:126-163 -/
def memAlloc (request : UInt32) : Equeue α × Option ℕ :=
  let size := (chunkSize request).toNat
  let p := q.free.walk (fun h => (q.mem h).size < size) q.bufferSize none
  match q.free.deref p with
  | some e =>
    match (q.mem e).sibling with
    | some s => ((q.assignFree p (some s)).setNext s (q.mem e).next, some e)
    | none => (q.assignFree p (q.mem e).next, some e)
  | none =>
    if q.slabSize ≥ size then
      let e := q.slabData
      ({ q with slabData := q.slabData + size, slabSize := q.slabSize - size }.modify e
        fun s => { s with size := size, id := 1 }, some e)
    else (q, none)

/-- equeue.c:165-184 -/
def memDealloc (e : ℕ) : Equeue α :=
  let p := q.free.walk (fun h => (q.mem h).size < (q.mem e).size) q.bufferSize none
  let q := match q.free.deref p with
    | some h =>
      if (q.mem h).size = (q.mem e).size then (q.setNext e (q.mem h).next).setSibling e (some h)
      else (q.setNext e (some h)).setSibling e none
    | none => (q.setNext e none).setSibling e none
  q.assignFree p (some e)

/-- equeue.c:186-197 -/
def alloc (request : UInt32) : Equeue α × Option ℕ :=
  match q.memAlloc request with
  | (q, some e) => (q.modify e fun s => { s with target := 0, period := -1 }, some e)
  | (q, none) => (q, none)

/-! ## Scheduling -/

/-- equeue.c:38-43 -/
def incid (e : ℕ) : Equeue α :=
  let id := (q.mem e).id + 1
  q.modify e fun s =>
    { s with id := if (id.toUInt32 <<< UInt32.ofNat q.npw2) = 0 then 1 else id }

/-- The slot that an event with this target goes to. equeue.c:219-223 -/
def findSlot (target : UInt32) : Option ℕ :=
  q.slots.walk (fun h => tickdiff (q.mem h).target target < 0) q.bufferSize none

/-- `e` goes into the list at the place `p`, into the slot there if its target is that of
`e`. equeue.c:225-244 -/
def link (e : ℕ) (p : Option ℕ) : Equeue α :=
  let q := match q.slots.deref p with
    | some h =>
      if (q.mem h).target = (q.mem e).target then
        let n := (q.mem h).next
        (((q.setNext e n).setRef? n (.next e)).setSibling e (some h)).setRef h (.sibling e)
      else ((q.setNext e (some h)).setRef h (.next e)).setSibling e none
    | none => (q.setNext e none).setSibling e none
  (q.assign (place p) (some e)).setRef e (place p)

/-- equeue.c:211-256 -/
def enqueue (e : ℕ) (tick : UInt32) : Equeue α :=
  let q := q.modify e fun s =>
    { s with
      target := tick + (clampdiff s.target tick).toUInt32
      generation := q.generation }
  q.link e (q.findSlot (q.mem e).target)

/-- The place behind the slots that are due. equeue.c:310-314 -/
def lastDue (target : UInt32) : Option ℕ :=
  q.slots.walk (fun h => tickdiff (q.mem h).target target ≤ 0) q.bufferSize none

/-- The slots that are due are cut off; their head is left in `head`.
equeue.c:304-321 -/
def cut (target : UInt32) : Equeue α × Option ℕ :=
  let q := { q with
    generation := q.generation + 1
    tick := if tickdiff q.tick target ≤ 0 then target else q.tick }
  match q.lastDue target with
  | none => (q.setRef? q.queue .queue, none)
  | some x =>
    let rest := (q.mem x).next
    (({ q with queue := rest }.setRef? rest .queue).setNext x none, q.queue)

/-- The events of a slot, relinked by `next` in the other direction.
equeue.c:332-336 -/
def reverseSlot : ℕ → Equeue α → Option ℕ → Option ℕ → Equeue α × Option ℕ
  | fuel + 1, q, prev, some e =>
    reverseSlot fuel (q.setNext e prev) (some e) (q.mem e).sibling
  | _, q, prev, _ => (q, prev)

/-- The slots put one behind another: `tail` is the event whose `next` the next slot goes to,
or none while that is `head`. equeue.c:325-340 -/
def flatten : ℕ → Equeue α → (head tail ess : Option ℕ) → Equeue α × Option ℕ
  | fuel + 1, q, head, tail, some es =>
    let ess := (q.mem es).next
    let r := reverseSlot q.bufferSize q none (some es)
    match tail with
    | none => flatten fuel r.1 r.2 (some es) ess
    | some x => flatten fuel (r.1.setNext x r.2) head (some es) ess
  | _, q, head, _, _ => (q, head)

/-- equeue.c:301-343 -/
def dequeue (target : UInt32) : Equeue α × Option ℕ :=
  let r := q.cut target
  flatten q.bufferSize r.1 r.2 none r.2

/-- `equeue_event_delay`, `equeue_event_period` and `equeue_post`.
equeue.c:345-354, 476-484 -/
def post (e : ℕ) (delay period : Int32) (cb : α) (tick : UInt32) : Equeue α :=
  (q.modify e fun s =>
    { s with target := tick + delay.toUInt32, period := period, cb := some cb }).enqueue e tick

end Equeue

/-! ## Callers and the dispatcher -/

/-- A queue in use: the events allocated and not posted, which belong to a caller each, and
the variables `es` and `e` of `equeue_dispatch`. -/
structure Dispatcher (α : Type) where
  q : Equeue α
  held : List ℕ := []
  es : Option ℕ := none
  e : Option ℕ := none
  calls : List α := []

/-- What a caller, an interrupt or the dispatching thread does next. `now` is the time in
milliseconds, of which `equeue_tick` returns the last 32 bits. -/
inductive DispatcherStep (α : Type) where
  | alloc (request : UInt32)
  | dealloc (e : ℕ)
  | post (e : ℕ) (delay period : Int32) (cb : α) (now : ℕ)
  /-- `es = equeue_dequeue(q, tick)` -/
  | dequeue (now : ℕ)
  /-- `e = es; es = e->next; cb(e + 1)` -/
  | call
  /-- behind the callback -/
  | done (now : ℕ)

namespace Dispatcher

variable {α : Type}

def create (size now : ℕ) : Dispatcher α where
  q := Equeue.create size (UInt32.ofNat now)

/-- equeue.c:393-421, with the callers. A step that is not possible does nothing. -/
def step (d : Dispatcher α) : DispatcherStep α → Dispatcher α
  | .alloc request =>
    match d.q.alloc request with
    | (q, some e) => { d with q := q, held := e :: d.held }
    | (q, none) => { d with q := q }
  | .dealloc e =>
    if e ∈ d.held then { d with q := d.q.memDealloc e, held := d.held.erase e } else d
  | .post e delay period cb now =>
    if e ∈ d.held then
      { d with
        q := d.q.post e delay period cb (UInt32.ofNat now)
        held := d.held.erase e }
    else d
  | .dequeue now =>
    match d.es, d.e with
    | none, none =>
      let r := d.q.dequeue (UInt32.ofNat now)
      { d with q := r.1, es := r.2 }
    | _, _ => d
  | .call =>
    match d.es, d.e with
    | some e, none =>
      { d with
        es := (d.q.mem e).next
        e := some e
        calls := d.calls ++ (d.q.mem e).cb.toList }
    | _, _ => d
  | .done now =>
    match d.e with
    | some e =>
      if (d.q.mem e).period ≥ 0 then
        let q := d.q.modify e fun s => { s with target := s.target + s.period.toUInt32 }
        { d with q := q.enqueue e (UInt32.ofNat now), e := none }
      else { d with q := (d.q.incid e).memDealloc e, e := none }
    | none => d

end Dispatcher

end WeightScale
