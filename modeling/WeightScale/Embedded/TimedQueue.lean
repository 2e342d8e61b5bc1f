import Mathlib.Data.List.TakeWhile
import Mathlib.Data.List.Perm.Basic
import Mathlib.Order.Lattice
import Mathlib.Data.Nat.Notation

/-!
# A queue of timed postings

What is posted for a time waits for it, is released in a batch with all else that is due,
and is then called. Postings are numbered; a posting waits behind all postings with times
no later than its own. In any run each posting is called once, none is called before its
time, and of two postings the earlier one is called first unless the other was due before
it.
-/

set_option autoImplicit false

namespace Embedded

/-- A posting with its number and its time. -/
structure Timed (T β : Type) where
  seq : ℕ
  time : T
  what : β

/-- `called` has the time at which each posting was released. -/
structure TimedQueue (T β : Type) where
  count : ℕ := 0
  tick : T
  waiting : List (Timed T β) := []
  batch : List (Timed T β) := []
  called : List (T × Timed T β) := []

namespace TimedQueue

variable {T β : Type} [LinearOrder T]

/-- The postings of a list that are due at a time, and those behind them. -/
def dueAt (t : T) (l : List (Timed T β)) : List (Timed T β) := l.takeWhile (·.time ≤ t)

/-- What is not due at `t`. -/
def laterThan (t : T) (l : List (Timed T β)) : List (Timed T β) := l.dropWhile (·.time ≤ t)

/-- A posting waits behind those of its time. -/
def post (m : TimedQueue T β) (t : T) (b : β) : TimedQueue T β :=
  { m with
    count := m.count + 1
    waiting := dueAt t m.waiting ++ ⟨m.count, t, b⟩ :: laterThan t m.waiting }

/-- What is due becomes the batch. -/
def release (m : TimedQueue T β) (t : T) : TimedQueue T β :=
  { m with
    tick := t
    waiting := laterThan t m.waiting
    batch := dueAt t m.waiting }

/-- The first of the batch is called at the last tick. -/
def call (m : TimedQueue T β) : TimedQueue T β :=
  match m.batch with
  | [] => m
  | x :: rest => { m with batch := rest, called := m.called ++ [(m.tick, x)] }

/-- All postings, in the order in which they were, will be or would be called. -/
def all (m : TimedQueue T β) : List (Timed T β) :=
  m.called.map Prod.snd ++ (m.batch ++ m.waiting)

/-- Everything posted is there once, in the order of time and of posting, and nothing was called
early. -/
structure Fair (m : TimedQueue T β) : Prop where
  once : (m.all.map Timed.seq).Perm (List.range m.count)
  order : m.all.Pairwise fun x y => y.seq < x.seq → x.time < y.time
  sorted : m.waiting.Pairwise fun x y => x.time ≤ y.time
  due : ∀ x ∈ m.batch, x.time ≤ m.tick
  not_early : ∀ p ∈ m.called, p.2.time ≤ p.1

omit [LinearOrder T] in
/-- What is in the queue was counted. -/
theorem mem_count {m : TimedQueue T β} (h : (m.all.map Timed.seq).Perm (List.range m.count))
    {x : Timed T β} (hx : x ∈ m.all) : x.seq < m.count :=
  List.mem_range.mp (h.subset (List.mem_map_of_mem hx))

/-- What is due comes in front of what is later. -/
theorem dueAt_append_laterThan (t : T) (l : List (Timed T β)) :
    dueAt t l ++ laterThan t l = l := List.takeWhile_append_dropWhile

/-- A posting adds itself to what waits. -/
theorem waiting_post (m : TimedQueue T β) (t : T) (b : β) :
    (m.post t b).waiting.Perm (⟨m.count, t, b⟩ :: m.waiting) := by
  refine List.perm_middle.trans (List.Perm.cons _ ?_)
  rw [dueAt_append_laterThan]

/-- A posting that is due no sooner than the others is the last one. -/
theorem all_post {m : TimedQueue T β} {t : T} (h : ∀ x ∈ m.waiting, x.time ≤ t) (b : β) :
    (m.post t b).all = m.all ++ [⟨m.count, t, b⟩] := by
  have hdue : dueAt t m.waiting = m.waiting :=
    List.takeWhile_eq_self_iff.mpr fun x hx => decide_eq_true (h x hx)
  have hlater : laterThan t m.waiting = [] :=
    List.dropWhile_eq_nil_iff.mpr fun x hx => decide_eq_true (h x hx)
  simp [all, post, hdue, hlater]

/-- A release moves what is due and loses nothing. -/
theorem all_release {m : TimedQueue T β} (h : m.batch = []) (t : T) :
    (m.release t).all = m.all := by
  simp [all, release, h, dueAt_append_laterThan]

omit [LinearOrder T] in
/-- A call moves the first of the batch and loses nothing. -/
theorem all_call (m : TimedQueue T β) : m.call.all = m.all := by
  rw [call]
  cases hbatch : m.batch with
  | nil => rfl
  | cons x rest => simp [all, hbatch]

/-- What is due has a time that has come. -/
theorem le_of_mem_dueAt {t : T} {l : List (Timed T β)} {x : Timed T β} (hx : x ∈ dueAt t l) :
    x.time ≤ t := by
  simpa using List.mem_takeWhile_imp hx

/-- In a sorted list, all that is not due is later. -/
theorem lt_of_mem_laterThan {t : T} {l : List (Timed T β)}
    (h : l.Pairwise fun x y => x.time ≤ y.time) {x : Timed T β} (hx : x ∈ laterThan t l) :
    t < x.time := by
  induction l with
  | nil => cases hx
  | cons y l ih =>
    obtain ⟨hy, hl⟩ := List.pairwise_cons.mp h
    by_cases hyt : y.time ≤ t
    · rw [laterThan, List.dropWhile_cons_of_pos (by simpa using hyt)] at hx
      exact ih hl hx
    · rw [laterThan, List.dropWhile_cons_of_neg (by simpa using hyt)] at hx
      rcases List.mem_cons.mp hx with rfl | hx
      · exact not_le.mp hyt
      · exact (not_le.mp hyt).trans_le (hy x hx)

/-- A loop that compares the times takes what is due. -/
theorem takeWhile_eq_dueAt {p : Timed T β → Bool} {t : T} {l : List (Timed T β)}
    (h : ∀ x ∈ l, p x = decide (x.time ≤ t)) :
    l.takeWhile p = dueAt t l ∧ l.dropWhile p = laterThan t l := by
  induction l with
  | nil => exact ⟨rfl, rfl⟩
  | cons x l ih =>
    rw [List.forall_mem_cons] at h
    obtain ⟨htake, hdrop⟩ := ih h.2
    simp only [dueAt, laterThan, List.takeWhile_cons, List.dropWhile_cons, h.1] at htake hdrop ⊢
    cases decide (x.time ≤ t) with
    | true => exact ⟨congrArg (x :: ·) htake, hdrop⟩
    | false => exact ⟨rfl, rfl⟩

namespace Fair

variable {m : TimedQueue T β}

/-- A new queue has called nothing. -/
theorem create (t : T) : ({ tick := t } : TimedQueue T β).Fair :=
  ⟨List.Perm.nil, List.Pairwise.nil, List.Pairwise.nil, by simp, by simp⟩

/-- A posting keeps the queue fair. -/
theorem post (h : m.Fair) (t : T) (b : β) : (m.post t b).Fair := by
  have hsplit := dueAt_append_laterThan t m.waiting
  have hall : (m.post t b).all = (m.called.map Prod.snd ++ (m.batch ++ dueAt t m.waiting)) ++
      ⟨m.count, t, b⟩ :: laterThan t m.waiting := by
    simp [all, TimedQueue.post]
  have hold : m.all = (m.called.map Prod.snd ++ (m.batch ++ dueAt t m.waiting)) ++
      laterThan t m.waiting := by
    simp [all, hsplit]
  refine ⟨?_, ?_, ?_, h.due, h.not_early⟩
  · have honce := h.once
    rw [hold] at honce
    rw [hall]
    show (List.map _ _).Perm (List.range (m.count + 1))
    rw [List.range_succ, List.map_append, List.map_cons]
    refine List.perm_middle.trans (List.Perm.trans ?_ List.perm_append_comm)
    rw [← List.map_append]
    exact honce.cons m.count
  · have horder := h.order
    have hlast : ∀ x ∈ m.all, x.seq < m.count := fun x hx => mem_count h.once hx
    rw [hold] at horder hlast
    rw [hall]
    obtain ⟨hfront, hback, hboth⟩ := List.pairwise_append.mp horder
    refine List.pairwise_append.mpr ⟨hfront, List.pairwise_cons.mpr ⟨fun y hy _ => ?_, hback⟩, ?_⟩
    · exact lt_of_mem_laterThan h.sorted hy
    · intro x hx y hy
      rcases List.mem_cons.mp hy with rfl | hy
      · intro hlt
        have := hlast x (List.mem_append_left _ hx)
        exact absurd hlt (by simp only; omega)
      · exact hboth x hx y hy
  · have hsorted := h.sorted
    rw [← hsplit] at hsorted
    obtain ⟨hfront, hback, hboth⟩ := List.pairwise_append.mp hsorted
    refine List.pairwise_append.mpr ⟨hfront, List.pairwise_cons.mpr ⟨fun y hy => ?_, hback⟩, ?_⟩
    · exact (lt_of_mem_laterThan h.sorted hy).le
    · intro x hx y hy
      rcases List.mem_cons.mp hy with rfl | hy
      · exact le_of_mem_dueAt hx
      · exact hboth x hx y hy

/-- A release keeps the queue fair, as it takes all that is due. -/
theorem release (h : m.Fair) (hbatch : m.batch = []) (t : T) : (m.release t).Fair := by
  have hall := all_release hbatch t
  refine ⟨?_, ?_, ?_, fun x hx => le_of_mem_dueAt hx, h.not_early⟩
  · rw [hall]
    exact h.once
  · rw [hall]
    exact h.order
  · exact h.sorted.sublist (List.dropWhile_sublist _)

/-- A call keeps the queue fair. -/
theorem call (h : m.Fair) : m.call.Fair := by
  have hall := m.all_call
  have hcall : m.call.count = m.count ∧ m.call.waiting = m.waiting := by
    rw [TimedQueue.call]
    split <;> exact ⟨rfl, rfl⟩
  refine ⟨?_, ?_, ?_, ?_, ?_⟩
  · rw [hall, hcall.1]
    exact h.once
  · rw [hall]
    exact h.order
  · rw [hcall.2]
    exact h.sorted
  · rw [TimedQueue.call]
    have hdue := h.due
    cases hbatch : m.batch with
    | nil => exact hdue
    | cons x rest =>
      rw [hbatch, List.forall_mem_cons] at hdue
      exact hdue.2
  · rw [TimedQueue.call]
    have hdue := h.due
    cases hbatch : m.batch with
    | nil => exact h.not_early
    | cons x rest =>
      rw [hbatch, List.forall_mem_cons] at hdue
      intro p hp
      rcases List.mem_append.mp hp with hp | hp
      · exact h.not_early p hp
      · rw [List.mem_singleton.mp hp]
        exact hdue.1

end Fair

end TimedQueue

end Embedded
