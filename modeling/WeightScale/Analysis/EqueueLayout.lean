import WeightScale.Analysis.EqueueSlots
import Mathlib.Algebra.Group.Nat.Defs

/-!
# The memory of the event queue

Callers, interrupts and the dispatching thread take turns in any order. At any time the
part of the buffer that has been handed out is cut into events, and each of these is in one
place only: pending, in the batch being dispatched, held by a caller or by the dispatching
thread, or free. The free events hang sorted by size, so that a request gets the smallest
one that is large enough. All of this needs that no request comes so close to the range of
`size_t` that its size wraps around: behind such a one the events overlap.
-/

set_option autoImplicit false

namespace WeightScale

open Embedded SlotList Equeue

/-- The buffer up to `n` is cut into events, the last one first. Each holds at least a
`struct equeue_event`. -/
def Tiles (size : ℕ → ℕ) : List ℕ → ℕ → Prop
  | [], n => n = 0
  | e :: es, n => 36 ≤ size e ∧ e + size e = n ∧ Tiles size es e

section tiles

variable {size size' : ℕ → ℕ} {es : List ℕ} {n : ℕ}

/-- Each chunk of a tiling ends within the range and starts inside it. -/
theorem Tiles.le (h : Tiles size es n) {x : ℕ} (hx : x ∈ es) : x + size x ≤ n ∧ x < n := by
  induction es generalizing n with
  | nil => cases hx
  | cons e es ih =>
    obtain ⟨hsize, hn, hes⟩ := h
    rcases List.mem_cons.mp hx with rfl | hx
    · omega
    · have := ih hes hx
      omega

/-- A tiling reads the sizes of its own chunks only. -/
theorem Tiles.congr (h : Tiles size es n) (hsize : ∀ x ∈ es, size' x = size x) :
    Tiles size' es n := by
  induction es generalizing n with
  | nil => exact h
  | cons e es ih =>
    rw [List.forall_mem_cons] at hsize
    refine ⟨?_, ?_, ih h.2.2 hsize.2⟩
    · rw [hsize.1]
      exact h.1
    · rw [hsize.1]
      exact h.2.1

/-- A range of `n` bytes holds at most `n` chunks, as none is empty. -/
theorem Tiles.length_le (h : Tiles size es n) : es.length ≤ n := by
  induction es generalizing n with
  | nil => exact Nat.zero_le n
  | cons e es ih =>
    have := ih h.2.2
    obtain ⟨hsize, hn, -⟩ := h
    rw [List.length_cons]
    omega

/-- No two chunks of a tiling start at one place. -/
theorem Tiles.nodup (h : Tiles size es n) : es.Nodup := by
  induction es generalizing n with
  | nil => exact List.nodup_nil
  | cons e es ih =>
    refine List.nodup_cons.mpr ⟨fun hmem => ?_, ih h.2.2⟩
    have := (h.2.2.le hmem).2
    omega

end tiles

namespace Equeue

variable {α : Type}

/-- The pending events are `qs`, the free ones `cs`, those being dispatched `bs` and the
others that are in use `out`; together they are `cells`. -/
structure Layout (q : Equeue α) (qs cs : List (ℕ × List ℕ)) (bs out cells : List ℕ) : Prop where
  pending : q.slots.Holds qs
  free : q.free.Holds cs
  batch : Linked q.slots.next bs
  perm : (nodes qs ++ (bs ++ (out ++ nodes cs))).Perm cells
  tiles : Tiles (fun x => (q.mem x).size) cells q.slabData
  slab : q.slabData + q.slabSize = q.bufferSize
  bySize : Sorted (fun x => (q.mem x).size) cs

/-- Where it does not wrap around, the size of a request is that of the event with its
struct, in whole words. -/
theorem toNat_chunkSize {request : UInt32} (hsized : request.toNat + 39 < 2 ^ 32) :
    (chunkSize request).toNat = (request.toNat + 39) / 4 * 4 := by
  rw [chunkSize]
  simp only [UInt32.toNat_mul, UInt32.toNat_div, UInt32.toNat_add, UInt32.reduceToNat]
  omega

namespace Layout

variable {q q' : Equeue α} {qs cs : List (ℕ × List ℕ)} {bs out cells : List ℕ} {e : ℕ}

/-- A new queue has an empty list of slots, no free chunk and its whole slab. -/
theorem create (size : ℕ) (tick : UInt32) : (create size tick : Equeue α).Layout [] [] [] [] [] where
  pending := ⟨rfl, trivial, List.nodup_nil⟩
  free := ⟨rfl, trivial, List.nodup_nil⟩
  batch := trivial
  perm := List.Perm.nil
  tiles := rfl
  slab := Nat.zero_add size
  bySize := trivial

/-- An event is in one of the four places, and there only once. -/
theorem nodup (h : q.Layout qs cs bs out cells) :
    (nodes qs ++ (bs ++ (out ++ nodes cs))).Nodup :=
  h.perm.nodup_iff.mpr h.tiles.nodup

/-- The queue and the free chunks hold at most one event a byte. -/
theorem length_le (h : q.Layout qs cs bs out cells) :
    (nodes qs).length ≤ q.bufferSize ∧ (nodes cs).length ≤ q.bufferSize := by
  have hlen := h.perm.length_eq
  have hcells := h.tiles.length_le
  have hslab := h.slab
  simp only [List.length_append] at hlen
  omega

/-- There are at most as many slots as bytes, in both lists. -/
theorem slots_le (h : q.Layout qs cs bs out cells) :
    qs.length ≤ q.bufferSize ∧ cs.length ≤ q.bufferSize :=
  ⟨Nat.le_trans (length_le_length_nodes qs) h.length_le.1,
    Nat.le_trans (length_le_length_nodes cs) h.length_le.2⟩

/-- Queues of the same contents have chunks of the same sizes. -/
theorem size_eq (hq : q'.contents = q.contents) (x : ℕ) : (q'.mem x).size = (q.mem x).size :=
  congrArg (fun c => (c.1 x).1) hq

/-- The tiles stay when nothing but links changes. -/
theorem tiles_of_contents (h : q.Layout qs cs bs out cells) (hq : q'.contents = q.contents) :
    Tiles (fun x => (q'.mem x).size) cells q'.slabData ∧
      q'.slabData + q'.slabSize = q'.bufferSize := by
  have hdata : q'.slabData = q.slabData := congrArg (fun c => c.2.2.2.2.2.1) hq
  have hslab : q'.slabSize = q.slabSize := congrArg (fun c => c.2.2.2.2.2.2) hq
  have hbuf : q'.bufferSize = q.bufferSize := congrArg (fun c => c.2.2.2.1) hq
  rw [hdata, hslab, hbuf]
  exact ⟨h.tiles.congr fun x _ => size_eq hq x, h.slab⟩

/-- Changing the data of an event moves no pointer of the layout. -/
theorem modify (h : q.Layout qs cs bs out cells) (e : ℕ) {f : EqueueEvent α → EqueueEvent α}
    (hnext : ∀ s, (f s).next = s.next) (hsibling : ∀ s, (f s).sibling = s.sibling)
    (hsize : ∀ s, (f s).size = s.size) : (q.modify e f).Layout qs cs bs out cells := by
  have hslots := q.slots_modify e hnext hsibling
  have hmem : ∀ x, ((q.modify e f).mem x).size = (q.mem x).size := by
    intro x
    by_cases hx : x = e <;> simp [Equeue.modify, hx, hsize]
  have hfree : (q.modify e f).free = q.free := by
    rw [free_eq, hslots]
    rfl
  exact ⟨hslots ▸ h.pending, hfree ▸ h.free, hslots ▸ h.batch, h.perm,
    h.tiles.congr fun x _ => hmem x, h.slab, h.bySize.congr fun x _ => hmem x⟩

/-- An event in use is none of the others. -/
theorem perm_out (qs bs os : List ℕ) (e : ℕ) :
    (qs ++ (bs ++ e :: os)).Perm (e :: (qs ++ (bs ++ os))) := by
  rw [← List.append_assoc, ← List.append_assoc]
  exact List.perm_middle

/-- An event that is handed out is in no slot of the queue nor in the batch. -/
theorem not_mem_out (h : q.Layout qs cs bs (e :: out) cells) : e ∉ nodes qs ++ bs := by
  have hnodup : (e :: (nodes qs ++ (bs ++ (out ++ nodes cs)))).Nodup :=
    (perm_out _ _ _ _).nodup_iff.mp h.nodup
  rw [← List.append_assoc, List.nodup_cons] at hnodup
  exact fun hmem => hnodup.1 (List.mem_append_left _ hmem)

/-- No pointer field of the queue or of the free chunks is one of an event handed out. -/
theorem links_out (h : q.Layout qs cs bs (e :: out) cells) :
    (e ∉ nodes qs ∧ ∀ x ∈ bs ++ (out ++ nodes cs), x ∉ e :: nodes qs) ∧
      e ∉ nodes cs ∧ ∀ x ∈ nodes qs ++ bs, x ∉ e :: nodes cs := by
  have hnodup : (e :: (nodes qs ++ (bs ++ (out ++ nodes cs)))).Nodup :=
    (perm_out _ _ _ _).nodup_iff.mp h.nodup
  obtain ⟨he, hnodup⟩ := List.nodup_cons.mp hnodup
  simp only [List.mem_append, not_or] at he
  have hpending := List.disjoint_of_nodup_append hnodup
  rw [← List.append_assoc, ← List.append_assoc] at hnodup
  have hfree := List.disjoint_of_nodup_append hnodup
  refine ⟨⟨he.1, fun x hx hmem => ?_⟩, he.2.2.2, fun x hx hmem => ?_⟩
  · rcases List.mem_cons.mp hmem with rfl | hmem
    · simp only [List.mem_append] at hx
      tauto
    · exact hpending hmem hx
  · rcases List.mem_cons.mp hmem with rfl | hmem
    · simp only [List.mem_append] at hx
      tauto
    · exact hfree (List.mem_append_left _ hx) hmem

/-- An event in use is posted. -/
theorem enqueue (h : q.Layout qs cs bs (e :: out) cells) (tick : UInt32) :
    (q.enqueue e tick).Layout (insertSlot (q.enqueue e tick).target e qs) cs bs out cells := by
  obtain ⟨⟨he, hothers⟩, -⟩ := h.links_out
  have hlen := h.slots_le.1
  have hlinks : ∀ x ∈ bs ++ (out ++ nodes cs),
      ((q.enqueue e tick).mem x).next = (q.mem x).next ∧
        ((q.enqueue e tick).mem x).sibling = (q.mem x).sibling :=
    fun x hx => links_enqueue e tick h.pending hlen (hothers x hx)
  have hstamp : (q.stamp e tick).Layout qs cs bs (e :: out) cells :=
    h.modify e (fun _ => rfl) (fun _ => rfl) fun _ => rfl
  have hcontents := contents_enqueue e tick h.pending hlen
  obtain ⟨htiles, hslab⟩ := hstamp.tiles_of_contents hcontents
  refine ⟨holds_enqueue e tick h.pending hlen he, ?_, ?_, ?_, htiles, hslab, ?_⟩
  · have hfree : ∀ x ∈ nodes cs, x ∈ bs ++ (out ++ nodes cs) := fun x hx =>
      List.mem_append_right _ (List.mem_append_right _ hx)
    exact h.free.congr (chunks_enqueue e tick h.pending hlen)
      (fun x hx => (hlinks x (hfree x hx)).1) fun x hx => (hlinks x (hfree x hx)).2
  · exact linked_congr h.batch fun x hx => (hlinks x (List.mem_append_left _ hx)).1
  · refine ((nodes_putAt _ _ _ _).append_right _).trans ?_
    exact (perm_out _ _ _ _).symm.trans h.perm
  · exact hstamp.bySize.congr fun x _ => size_eq hcontents x

/-- An event in use is freed. -/
theorem memDealloc (h : q.Layout qs cs bs (e :: out) cells) :
    (q.memDealloc e).Layout qs (putByKey (fun x => (q.mem x).size) e cs) bs out cells := by
  obtain ⟨-, he, hothers⟩ := h.links_out
  obtain ⟨hfree, hcontents, hqueue⟩ := memDealloc_spec e h.free h.slots_le.2
  obtain ⟨htiles, hslab⟩ := h.tiles_of_contents hcontents
  have hlinks : ∀ x ∈ nodes qs ++ bs, (q.memDealloc e).free.next x = (q.mem x).next ∧
      (q.memDealloc e).free.sibling x = (q.mem x).sibling := by
    intro x hx
    have hx' := hothers x hx
    rw [List.mem_cons, not_or] at hx'
    rw [hfree]
    exact insert_of_ne hx'.1 fun hp => hx'.2 (mem_of_lastPlace_takeWhile hp.symm)
  refine ⟨?_, ?_, ?_, ?_, htiles, hslab, ?_⟩
  · exact h.pending.congr hqueue (fun x hx => (hlinks x (List.mem_append_left _ hx)).1)
      fun x hx => (hlinks x (List.mem_append_left _ hx)).2
  · rw [hfree]
    exact holds_insert_walk (fun x => (q.mem x).size < (q.mem e).size) _ h.free he
  · exact linked_congr h.batch fun x hx => (hlinks x (List.mem_append_right _ hx)).1
  · refine List.Perm.trans ?_ h.perm
    refine List.Perm.append_left _ (List.Perm.append_left _ ?_)
    exact ((nodes_putAt _ _ _ _).append_left out).trans List.perm_middle
  · exact (h.bySize.putByKey e).congr fun x _ => size_eq hcontents x

/-- The slots that are due become the batch. -/
theorem dequeue (h : q.Layout qs cs [] out cells) (target : UInt32) :
    (q.dequeue target).1.Layout (q.notDue target qs) cs (order (q.due target qs)) out cells ∧
      (q.dequeue target).2 = (order (q.due target qs)).head? := by
  obtain ⟨hhead, hlinked, hholds, hcontents, hchunks, hlinks⟩ :=
    dequeue_spec target h.pending h.length_le.1
  have hnew : (q.newGeneration target).Layout qs cs [] out cells :=
    ⟨h.pending, h.free, trivial, h.perm, h.tiles, h.slab, h.bySize⟩
  obtain ⟨htiles, hslab⟩ := hnew.tiles_of_contents hcontents
  have hnot : ∀ x ∈ nodes cs, x ∉ nodes qs := fun x hx hmem =>
    (List.disjoint_of_nodup_append h.nodup) hmem
      (List.mem_append_right [] (List.mem_append_right out hx))
  refine ⟨⟨hholds, ?_, hlinked, ?_, htiles, hslab, ?_⟩, hhead⟩
  · exact h.free.congr hchunks (fun x hx => (hlinks x (hnot x hx)).1)
      fun x hx => (hlinks x (hnot x hx)).2
  · refine List.Perm.trans ?_ h.perm
    rw [← List.append_assoc]
    refine List.Perm.append_right _ ?_
    refine (List.perm_append_comm.trans ((order_perm _).append_right _)).trans ?_
    rw [← nodes_append, q.due_append_notDue]
  · exact h.bySize.congr fun x _ => size_eq hcontents x

/-- A free event is taken. -/
theorem pop {pre post : List (ℕ × List ℕ)} {s : ℕ × List ℕ}
    (h : q.Layout qs (pre ++ s :: post) bs out cells)
    (hfree : q'.free = q.free.pop (lastPlace none pre)) (hcontents : q'.contents = q.contents)
    (hqueue : q'.queue = q.queue) :
    q'.Layout qs (pre ++ (rest s.2 ++ post)) bs (s.1 :: out) cells := by
  obtain ⟨htiles, hslab⟩ := h.tiles_of_contents hcontents
  have hnodup := h.nodup
  rw [← List.append_assoc, ← List.append_assoc] at hnodup
  have hdisj := List.disjoint_of_nodup_append hnodup
  have hlinks : ∀ x ∈ nodes qs ++ bs, q'.free.next x = (q.mem x).next ∧
      q'.free.sibling x = (q.mem x).sibling := by
    intro x hx
    rw [hfree]
    exact pop_of_not_mem h.free fun hmem => hdisj (List.mem_append_left out hx) hmem
  refine ⟨?_, ?_, ?_, ?_, htiles, hslab, ?_⟩
  · exact h.pending.congr hqueue (fun x hx => (hlinks x (List.mem_append_left _ hx)).1)
      fun x hx => (hlinks x (List.mem_append_left _ hx)).2
  · rw [hfree]
    exact holds_pop h.free
  · exact linked_congr h.batch fun x hx => (hlinks x (List.mem_append_right _ hx)).1
  · refine List.Perm.trans ?_ h.perm
    refine List.Perm.append_left _ (List.Perm.append_left _ ?_)
    rw [nodes_append, nodes_append, nodes_append, nodes_cons, nodes_rest]
    simp only [List.cons_append, ← List.append_assoc out]
    exact List.perm_middle.symm
  · exact h.bySize.append_rest.congr fun x _ => size_eq hcontents x

/-- An event is carved out of the slab. -/
theorem carve (h : q.Layout qs cs bs out cells) {n : ℕ} (hn : 36 ≤ n) (hslab : n ≤ q.slabSize) :
    (q.carve n).Layout qs cs bs (q.slabData :: out) (q.slabData :: cells) := by
  have hslots : (q.carve n).slots = q.slots :=
    slots_modify _ _ (fun _ => rfl) fun _ => rfl
  have hfree : (q.carve n).free = q.free := by
    rw [free_eq, hslots]
    rfl
  have hself : ((q.carve n).mem q.slabData).size = n := by simp [Equeue.carve, Equeue.modify]
  have hsize : ∀ x ∈ cells, ((q.carve n).mem x).size = (q.mem x).size := by
    intro x hx
    have hne : x ≠ q.slabData := (h.tiles.le hx).2.ne
    simp [Equeue.carve, Equeue.modify, hne]
  refine ⟨hslots ▸ h.pending, hfree ▸ h.free, hslots ▸ h.batch, ?_, ?_, ?_, ?_⟩
  · exact (perm_out _ _ _ _).trans (h.perm.cons _)
  · refine ⟨?_, ?_, h.tiles.congr hsize⟩
    · simp only [hself, hn]
    · simp only [hself]
      rfl
  · have := h.slab
    show q.slabData + n + (q.slabSize - n) = q.bufferSize
    omega
  · refine h.bySize.congr fun x hx => hsize x (h.perm.subset ?_)
    exact List.mem_append_right _ (List.mem_append_right _ (List.mem_append_right _ hx))

/-- What a request gets: nothing, or an event that none has. -/
theorem alloc (h : q.Layout qs cs bs out cells) {request : UInt32}
    (hsized : request.toNat + 39 < 2 ^ 32) :
    q.alloc request = (q, none) ∨
      ∃ q' e cs' cells', q.alloc request = (q', some e) ∧ cells <:+ cells' ∧
        q'.Layout qs cs' bs (e :: out) cells' ∧ ∀ x, x ≠ e → q'.record x = q.record x := by
  have hsize : 36 ≤ (chunkSize request).toNat := by
    rw [toNat_chunkSize hsized]
    omega
  rw [Equeue.alloc]
  rcases memAlloc_spec h.free h.slots_le.2 request with
    ⟨pre, post, s, q', rfl, -, -, heq, hfree, hcontents, hqueue⟩ | ⟨-, hslab, heq⟩ | ⟨-, -, heq⟩
  · rw [heq]
    refine .inr ⟨_, s.1, _, cells, rfl, List.suffix_rfl,
      (h.pop hfree hcontents hqueue).modify s.1 (fun _ => rfl) (fun _ => rfl) fun _ => rfl,
      fun x hx => ?_⟩
    rw [record, mem_modify_of_ne _ _ hx]
    exact congrFun (record_of_contents hcontents) x
  · rw [heq]
    refine .inr ⟨_, q.slabData, cs, _, rfl, List.suffix_cons _ _,
      (h.carve hsize hslab).modify _ (fun _ => rfl) (fun _ => rfl) fun _ => rfl, fun x hx => ?_⟩
    rw [record, mem_modify_of_ne _ _ hx, Equeue.carve, mem_modify_of_ne _ _ hx]
    rfl
  · rw [heq]
    exact .inl rfl

/-- Which event a request gets, and when it gets none. -/
theorem best_fit (h : q.Layout qs cs bs out cells) (request : UInt32) :
    ((q.alloc request).2 = none ↔ q.slabSize < (chunkSize request).toNat ∧
      ∀ x ∈ nodes cs, (q.mem x).size < (chunkSize request).toNat) ∧
    ∀ e, (q.alloc request).2 = some e →
      (e = q.slabData ∧ ∀ x ∈ nodes cs, (q.mem x).size < (chunkSize request).toNat) ∨
      (e ∈ nodes cs ∧ (chunkSize request).toNat ≤ (q.mem e).size ∧
        ∀ x ∈ nodes cs, (chunkSize request).toNat ≤ (q.mem x).size →
          (q.mem e).size ≤ (q.mem x).size) := by
  have hall : (∀ s ∈ cs, (q.mem s.1).size < (chunkSize request).toNat) →
      ∀ x ∈ nodes cs, (q.mem x).size < (chunkSize request).toNat := by
    intro hcs x hx
    obtain ⟨s, hs, hsize⟩ := h.bySize.exists_first hx
    rw [hsize]
    exact hcs s hs
  rw [Equeue.alloc]
  rcases memAlloc_spec h.free h.slots_le.2 request with
    ⟨pre, post, s, q', rfl, hpre, hs, heq, -⟩ | ⟨hcs, hslab, heq⟩ | ⟨hcs, hslab, heq⟩
  · have hmem : s.1 ∈ nodes (pre ++ s :: post) := by
      rw [nodes_append, nodes_cons]
      exact List.mem_append_right _ (List.mem_append_left _ List.mem_cons_self)
    rw [heq]
    refine ⟨⟨fun hnone => (by cases hnone), fun hnone => ?_⟩, fun e he => .inr ?_⟩
    · have := hnone.2 s.1 hmem
      omega
    · obtain rfl : s.1 = e := Option.some.inj he
      refine ⟨hmem, hs, fun x hx hsize => ?_⟩
      rw [nodes_append, List.mem_append] at hx
      rcases hx with hx | hx
      · obtain ⟨s', hs', hsize'⟩ := h.bySize.append_left.exists_first hx
        have := hpre s' hs'
        omega
      · exact h.bySize.append_right.le hx
  · rw [heq]
    refine ⟨⟨fun hnone => (by cases hnone), fun hnone => ?_⟩, fun e he => .inl ?_⟩
    · omega
    · exact ⟨(Option.some.inj he).symm, hall hcs⟩
  · rw [heq]
    exact ⟨⟨fun _ => ⟨hslab, hall hcs⟩, fun _ => rfl⟩, fun e he => (by cases he)⟩

/-- The order of the events handed out does not matter. -/
theorem of_perm {out' : List ℕ} (h : q.Layout qs cs bs out cells) (hout : out.Perm out') :
    q.Layout qs cs bs out' cells :=
  ⟨h.pending, h.free, h.batch,
    (((hout.symm.append_right _).append_left _).append_left _).trans h.perm,
    h.tiles, h.slab, h.bySize⟩

/-- The dispatching thread takes the first event of the batch. -/
theorem call (h : q.Layout qs cs (e :: bs) out cells) : q.Layout qs cs bs (e :: out) cells :=
  ⟨h.pending, h.free, h.batch.2,
    (List.perm_middle.append_left _).trans h.perm, h.tiles, h.slab, h.bySize⟩

end Layout

end Equeue

namespace Dispatcher

variable {α : Type}

/-- The size that a step asks for does not wrap around. -/
def Sized : DispatcherStep α → Prop
  | .alloc request => request.toNat + 39 < 2 ^ 32
  | _ => True

/-- The layout of a queue in use: the dispatching thread holds `e` and the batch `es`. -/
structure Laid (d : Dispatcher α) (qs cs : List (ℕ × List ℕ)) (bs cells : List ℕ) : Prop where
  layout : d.q.Layout qs cs bs (d.e.toList ++ d.held) cells
  es_eq : d.es = bs.head?

namespace Laid

variable {d : Dispatcher α} {qs cs : List (ℕ × List ℕ)} {bs cells : List ℕ} {e : ℕ}

/-- A new dispatcher is laid out with everything empty. -/
theorem create (size now : ℕ) : (create size now : Dispatcher α).Laid [] [] [] [] :=
  ⟨.create size _, rfl⟩

/-- An event its caller holds comes first among the events handed out. -/
theorem held (h : d.Laid qs cs bs cells) (he : e ∈ d.held) :
    d.q.Layout qs cs bs (e :: (d.e.toList ++ d.held.erase e)) cells :=
  h.layout.of_perm (((List.perm_cons_erase he).append_left _).trans List.perm_middle)

/-- An allocation keeps the layout: the event handed out is a free chunk or a new one. -/
theorem alloc (h : d.Laid qs cs bs cells) {request : UInt32}
    (hsized : request.toNat + 39 < 2 ^ 32) :
    ∃ cs' cells', cells <:+ cells' ∧ (d.step (.alloc request)).Laid qs cs' bs cells' ∧
      ∀ x, x ∉ (d.step (.alloc request)).held →
        (d.step (.alloc request)).q.record x = d.q.record x := by
  rw [step]
  rcases h.layout.alloc hsized with heq | ⟨q', e, cs', cells', heq, hcells, hlayout, hrecord⟩
  · rw [heq]
    exact ⟨cs, cells, List.suffix_rfl, ⟨h.layout, h.es_eq⟩, fun _ _ => rfl⟩
  · rw [heq]
    exact ⟨cs', cells', hcells, ⟨hlayout.of_perm List.perm_middle.symm, h.es_eq⟩,
      fun x hx => hrecord x fun heq => hx (heq ▸ List.mem_cons_self)⟩

/-- A deallocation puts the event back among the free chunks and touches no record. -/
theorem dealloc (h : d.Laid qs cs bs cells) (e : ℕ) :
    ∃ cs', (d.step (.dealloc e)).Laid qs cs' bs cells ∧
      (d.step (.dealloc e)).q.record = d.q.record := by
  rw [step]
  by_cases he : e ∈ d.held
  · rw [if_pos he]
    exact ⟨_, ⟨(h.held he).memDealloc, h.es_eq⟩,
      record_of_contents (memDealloc_spec e h.layout.free h.layout.slots_le.2).2.1⟩
  · rw [if_neg he]
    exact ⟨cs, h, rfl⟩

/-- Posting an event held moves it into the slots, at its target. -/
theorem post (h : d.Laid qs cs bs cells) (he : e ∈ d.held) (delay period : Int32) (cb : α)
    (now : ℕ) : (d.step (.post e delay period cb now)).Laid
      (insertSlot (d.step (.post e delay period cb now)).q.target e qs) cs bs cells := by
  rw [step, if_pos he]
  have hset := (h.held he).modify e (f := fun s =>
    { s with target := UInt32.ofNat now + delay.toUInt32, period := period, cb := some cb })
    (fun _ => rfl) (fun _ => rfl) fun _ => rfl
  exact ⟨hset.enqueue _, h.es_eq⟩

/-- The slots that are due become the batch, in their order. -/
theorem dequeue (h : d.Laid qs cs [] cells) (he : d.e = none) (now : ℕ) :
    (d.step (.dequeue now)).Laid (d.q.notDue (UInt32.ofNat now) qs) cs
      (order (d.q.due (UInt32.ofNat now) qs)) cells := by
  have hes : d.es = none := h.es_eq
  obtain ⟨hlayout, hhead⟩ := h.layout.dequeue (UInt32.ofNat now)
  simp only [step, hes, he]
  exact ⟨he ▸ hlayout, hhead⟩

/-- A call takes the first event of the batch. -/
theorem call (h : d.Laid qs cs (e :: bs) cells) (he : d.e = none) :
    (d.step .call).Laid qs cs bs cells := by
  have hes : d.es = some e := h.es_eq
  simp only [step, hes, he]
  have hlayout := h.layout
  rw [he] at hlayout
  exact ⟨hlayout.call, hlayout.batch.1⟩

/-- A periodic event is put back into the slots behind its callback. -/
theorem periodic (h : d.Laid qs cs bs cells) (he : d.e = some e)
    (hperiod : (d.q.mem e).period ≥ 0) (now : ℕ) : (d.step (.done now)).Laid
      (insertSlot (d.step (.done now)).q.target e qs) cs bs cells := by
  have hlayout := h.layout
  rw [he] at hlayout
  have hset := hlayout.modify e (f := fun s => { s with target := s.target + s.period.toUInt32 })
    (fun _ => rfl) (fun _ => rfl) fun _ => rfl
  simp only [step, he, if_pos hperiod]
  exact ⟨hset.enqueue _, h.es_eq⟩

/-- Any other event is put back among the free chunks behind its callback. -/
theorem done (h : d.Laid qs cs bs cells) (he : d.e = some e)
    (hperiod : ¬ (d.q.mem e).period ≥ 0) (now : ℕ) :
    ∃ cs', (d.step (.done now)).Laid qs cs' bs cells ∧
      (d.step (.done now)).q.record = d.q.record := by
  have hlayout := h.layout
  rw [he] at hlayout
  have hset := hlayout.modify e (f := fun s =>
    { s with id := if (((d.q.mem e).id + 1).toUInt32 <<< UInt32.ofNat d.q.npw2) = 0 then 1
        else (d.q.mem e).id + 1 }) (fun _ => rfl) (fun _ => rfl) fun _ => rfl
  simp only [step, he, if_neg hperiod]
  refine ⟨_, ⟨hset.memDealloc, h.es_eq⟩, ?_⟩
  refine (record_of_contents (memDealloc_spec e hset.free hset.slots_le.2).2.1).trans ?_
  exact d.q.record_modify e fun _ => rfl

/-- One step of a caller, an interrupt or the dispatching thread. -/
theorem step (h : d.Laid qs cs bs cells) {t : DispatcherStep α} (hsized : Sized t) :
    ∃ qs' cs' bs' cells', cells <:+ cells' ∧ (d.step t).Laid qs' cs' bs' cells' := by
  have hstay : d.step t = d → ∃ qs' cs' bs' cells', cells <:+ cells' ∧
      (d.step t).Laid qs' cs' bs' cells' := by
    intro heq
    rw [heq]
    exact ⟨qs, cs, bs, cells, List.suffix_rfl, h⟩
  cases t with
  | alloc request =>
    obtain ⟨cs', cells', hcells, hlaid, -⟩ := h.alloc hsized
    exact ⟨qs, cs', bs, cells', hcells, hlaid⟩
  | dealloc e =>
    obtain ⟨cs', hlaid, -⟩ := h.dealloc e
    exact ⟨qs, cs', bs, cells, List.suffix_rfl, hlaid⟩
  | post e delay period cb now =>
    by_cases he : e ∈ d.held
    · exact ⟨_, cs, bs, cells, List.suffix_rfl, h.post he delay period cb now⟩
    · exact hstay (if_neg he)
  | dequeue now =>
    cases he : d.e with
    | some e => exact hstay (by simp [Dispatcher.step, he])
    | none =>
      cases bs with
      | nil => exact ⟨_, cs, _, cells, List.suffix_rfl, h.dequeue he now⟩
      | cons b bs =>
        have hes : d.es = some b := h.es_eq
        exact hstay (by simp [Dispatcher.step, hes])
  | call =>
    cases he : d.e with
    | some e => exact hstay (by simp [Dispatcher.step, he])
    | none =>
      cases bs with
      | nil =>
        have hes : d.es = none := h.es_eq
        exact hstay (by simp [Dispatcher.step, hes])
      | cons b bs => exact ⟨qs, cs, bs, cells, List.suffix_rfl, h.call he⟩
  | done now =>
    cases he : d.e with
    | none => exact hstay (by simp [Dispatcher.step, he])
    | some e =>
      by_cases hperiod : (d.q.mem e).period ≥ 0
      · exact ⟨_, cs, bs, cells, List.suffix_rfl, h.periodic he hperiod now⟩
      · obtain ⟨cs', hlaid, -⟩ := h.done he hperiod now
        exact ⟨qs, cs', bs, cells, List.suffix_rfl, hlaid⟩

/-- Any steps, in any order. -/
theorem run (h : d.Laid qs cs bs cells) {steps : List (DispatcherStep α)}
    (hsized : ∀ s ∈ steps, Sized s) :
    ∃ qs' cs' bs' cells', cells <:+ cells' ∧ (steps.foldl Dispatcher.step d).Laid qs' cs' bs' cells' := by
  induction steps generalizing d qs cs bs cells with
  | nil => exact ⟨qs, cs, bs, cells, List.suffix_rfl, h⟩
  | cons t steps ih =>
    obtain ⟨qs', cs', bs', cells', hcells, h'⟩ := h.step (hsized t List.mem_cons_self)
    obtain ⟨qs'', cs'', bs'', cells'', hcells', h''⟩ := ih h' fun s hs => hsized s (List.mem_cons_of_mem t hs)
    exact ⟨qs'', cs'', bs'', cells'', hcells.trans hcells', h''⟩

end Laid

/-- **Each event is in one place.** After any steps of callers, interrupts and the
dispatching thread, and after any more of them, the events handed out so far tile the buffer
and each is pending, in the batch, running, held or free. None of them is ever lost. -/
theorem laid_of_run (size now : ℕ) (steps more : List (DispatcherStep α))
    (hsized : ∀ s ∈ steps ++ more, Sized s) :
    ∃ qs cs bs cells qs' cs' bs' cells',
      (steps.foldl step (create size now)).Laid qs cs bs cells ∧
      ((steps ++ more).foldl step (create size now)).Laid qs' cs' bs' cells' ∧
      cells <:+ cells' := by
  rw [List.forall_mem_append] at hsized
  obtain ⟨qs, cs, bs, cells, -, h⟩ := (Laid.create size now : Laid _ _ _ _ _).run hsized.1
  obtain ⟨qs', cs', bs', cells', hcells, h'⟩ := h.run hsized.2
  refine ⟨qs, cs, bs, cells, qs', cs', bs', cells', h, ?_, hcells⟩
  rw [List.foldl_append]
  exact h'

/-- One event is given back and taken again while a periodic one is pending. -/
theorem laid_of_run_reuse :
    let steps : List (DispatcherStep ℕ) := [.alloc 20, .alloc 0, .post 56 0 50 1 0, .dealloc 0]
    let more : List (DispatcherStep ℕ) := [.alloc 8, .post 0 5 (-1) 2 3, .dequeue 4, .call]
    ∃ qs cs bs cells qs' cs' bs' cells',
      (steps.foldl step (create 100 0)).Laid qs cs bs cells ∧
      ((steps ++ more).foldl step (create 100 0)).Laid qs' cs' bs' cells' ∧
      cells <:+ cells' := by
  intro steps more
  exact laid_of_run 100 0 steps more (by simp [steps, more, Sized])

/-- **Best fit.** In any state that is reached, a request gets the smallest free event that
is large enough, and is refused only when there is none and the slab is too small. -/
theorem alloc_best_fit (size now : ℕ) (request : UInt32) (steps : List (DispatcherStep α))
    (hsized : ∀ s ∈ steps, Sized s) (hrequest : request.toNat + 39 < 2 ^ 32) :
    let d := steps.foldl step (create size now)
    let n := (request.toNat + 39) / 4 * 4
    ∃ qs cs bs cells, d.Laid qs cs bs cells ∧
      ((d.q.alloc request).2 = none ↔ d.q.slabSize < n ∧ ∀ x ∈ nodes cs, (d.q.mem x).size < n) ∧
      ∀ e, (d.q.alloc request).2 = some e →
        (e = d.q.slabData ∧ ∀ x ∈ nodes cs, (d.q.mem x).size < n) ∨
        (e ∈ nodes cs ∧ n ≤ (d.q.mem e).size ∧
          ∀ x ∈ nodes cs, n ≤ (d.q.mem x).size → (d.q.mem e).size ≤ (d.q.mem x).size) := by
  intro d n
  obtain ⟨qs, cs, bs, cells, -, h⟩ := (Laid.create size now : Laid _ _ _ _ _).run hsized
  refine ⟨qs, cs, bs, cells, h, ?_⟩
  have hfit := h.layout.best_fit request
  rw [toNat_chunkSize hrequest] at hfit
  exact hfit

/-- Of two free events the smaller one is too small, and nothing is left in the slab. -/
theorem alloc_best_fit_second :
    let steps : List (DispatcherStep ℕ) := [.alloc 0, .alloc 20, .dealloc 36, .dealloc 0]
    let d := steps.foldl step (create 92 0)
    ∃ qs cs bs cells, d.Laid qs cs bs cells ∧
      ((d.q.alloc 20).2 = none ↔ d.q.slabSize < 56 ∧ ∀ x ∈ nodes cs, (d.q.mem x).size < 56) ∧
      ∀ e, (d.q.alloc 20).2 = some e →
        (e = d.q.slabData ∧ ∀ x ∈ nodes cs, (d.q.mem x).size < 56) ∨
        (e ∈ nodes cs ∧ 56 ≤ (d.q.mem e).size ∧
          ∀ x ∈ nodes cs, 56 ≤ (d.q.mem x).size → (d.q.mem e).size ≤ (d.q.mem x).size) := by
  intro steps d
  exact alloc_best_fit 92 0 20 steps (by simp [steps, Sized]) (by decide)

/-- A request whose size wraps around gets an event smaller than the struct, and the next
event lies within it. -/
example :
    let d := [DispatcherStep.alloc 0xFFFFFFE0, .alloc 0].foldl step (create 100 0 : Dispatcher ℕ)
    d.held = [4, 0] ∧ (d.q.mem 0).size = 4 := by
  decide

end Dispatcher

end WeightScale
