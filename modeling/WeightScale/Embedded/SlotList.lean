import Mathlib.Data.List.Nodup
import Mathlib.Data.List.TakeWhile
import Mathlib.Order.Lattice
import Mathlib.Data.Nat.Notation

/-!
# Lists of slots, threaded through their nodes

A linked list of slots, each of them a linked list of nodes: the slots hang together by the
field `next` of their first nodes, the nodes of a slot by the field `sibling`. A place is
what points to a slot: the head of the list (`none`), or the field `next` of a node. Nodes
are inserted as a slot of their own or in front of the slot at a place, taken off the front
of a slot, and slots are cut off the front of the list. Each of these changes the fields of
one or two nodes and does to the list of lists what its name says.
-/

set_option autoImplicit false

namespace Embedded

/-- A head pointer and the two pointers of each node. -/
structure SlotList (N : Type) where
  head : Option N
  next : N → Option N
  sibling : N → Option N

namespace SlotList

variable {N : Type}

/-- The nodes of slots. A slot is its first node and the nodes behind it. -/
def nodes (ss : List (N × List N)) : List N := ss.flatMap fun s => s.1 :: s.2

@[simp] theorem nodes_nil : nodes ([] : List (N × List N)) = [] := rfl

/-- The nodes of a slot come before those of the slots behind it. -/
@[simp] theorem nodes_cons (s : N × List N) (ss : List (N × List N)) :
    nodes (s :: ss) = s.1 :: s.2 ++ nodes ss := List.flatMap_cons

/-- The nodes of slots in a row. -/
@[simp] theorem nodes_append (ss ss' : List (N × List N)) :
    nodes (ss ++ ss') = nodes ss ++ nodes ss' := List.flatMap_append

/-- Each slot has a node. -/
theorem length_le_length_nodes (ss : List (N × List N)) : ss.length ≤ (nodes ss).length := by
  induction ss with
  | nil => exact Nat.le_refl 0
  | cons s ss ih =>
    rw [nodes_cons, List.length_append, List.length_cons, List.length_cons]
    omega

/-- The nodes, those of a slot from the last one on. -/
def order (ss : List (N × List N)) : List N := ss.flatMap fun s => (s.1 :: s.2).reverse

@[simp] theorem order_nil : order ([] : List (N × List N)) = [] := rfl

/-- Within a slot the nodes come in the order of their insertion. -/
@[simp] theorem order_cons (s : N × List N) (ss : List (N × List N)) :
    order (s :: ss) = (s.1 :: s.2).reverse ++ order ss := List.flatMap_cons

/-- The order of slots in a row. -/
@[simp] theorem order_append (ss ss' : List (N × List N)) :
    order (ss ++ ss') = order ss ++ order ss' := List.flatMap_append

/-- The order has the same nodes. -/
theorem order_perm (ss : List (N × List N)) : (order ss).Perm (nodes ss) := by
  induction ss with
  | nil => exact List.Perm.nil
  | cons s ss ih =>
    rw [order_cons, nodes_cons]
    exact (List.reverse_perm _).append ih

/-- The first node of all. -/
def first (ss : List (N × List N)) : Option N := ss.head?.map Prod.fst

@[simp] theorem first_nil : first ([] : List (N × List N)) = none := rfl

/-- The first slot gives the head. -/
@[simp] theorem first_cons (s : N × List N) (ss : List (N × List N)) :
    first (s :: ss) = some s.1 := rfl

/-- The head of slots in a row is that of the first ones, if there are any. -/
theorem first_append (ss ss' : List (N × List N)) :
    first (ss ++ ss') = (first ss).or (first ss') := by
  cases ss <;> rfl

/-- The place behind slots that start at the place `p`. -/
def lastPlace : Option N → List (N × List N) → Option N
  | p, [] => p
  | _, s :: ss => lastPlace (some s.1) ss

/-- Behind a slot the last place is a field of a node. -/
theorem lastPlace_mem (y : N) (ss : List (N × List N)) :
    ∃ z, lastPlace (some y) ss = some z ∧ z ∈ y :: nodes ss := by
  induction ss generalizing y with
  | nil => exact ⟨y, rfl, List.mem_cons_self⟩
  | cons s ss ih =>
    obtain ⟨z, hz, hmem⟩ := ih s.1
    refine ⟨z, hz, List.mem_cons_of_mem _ ?_⟩
    rw [nodes_cons]
    rcases List.mem_cons.mp hmem with rfl | hmem
    · exact List.mem_append_left _ List.mem_cons_self
    · exact List.mem_append_right _ hmem

/-- Only without slots the last place is the head. -/
theorem eq_nil_of_lastPlace {ss : List (N × List N)} (h : lastPlace none ss = none) : ss = [] := by
  cases ss with
  | nil => rfl
  | cons s ss =>
    obtain ⟨z, hz, -⟩ := lastPlace_mem s.1 ss
    cases hz.symm.trans h

/-- A place behind slots from the head is the head or a node of them. -/
theorem mem_of_lastPlace {ss : List (N × List N)} {z : N} (h : lastPlace none ss = some z) :
    z ∈ nodes ss := by
  cases ss with
  | nil => cases h
  | cons s ss =>
    obtain ⟨z', hz', hmem⟩ := lastPlace_mem s.1 ss
    obtain rfl : z' = z := Option.some.inj (hz'.symm.trans h)
    rw [nodes_cons]
    rcases List.mem_cons.mp hmem with rfl | hmem
    · exact List.mem_append_left _ List.mem_cons_self
    · exact List.mem_append_right _ hmem

/-- A place behind slots that are skipped is the head or a node of the list. -/
theorem mem_of_lastPlace_takeWhile {ss : List (N × List N)} {p : N × List N → Bool} {z : N}
    (h : lastPlace none (ss.takeWhile p) = some z) : z ∈ nodes ss := by
  have hmem := mem_of_lastPlace h
  rw [← List.takeWhile_append_dropWhile (p := p) (l := ss), nodes_append]
  exact List.mem_append_left _ hmem

/-! ## What a list holds -/

/-- The nodes follow one another by a field. -/
def Linked (field : N → Option N) : List N → Prop
  | [] => True
  | e :: es => field e = es.head? ∧ Linked field es

/-- The slots follow one another by `next`, and the last one leads to `out`. -/
def Chain (l : SlotList N) : List (N × List N) → Option N → Prop
  | [], _ => True
  | s :: ss, out =>
    Linked l.sibling (s.1 :: s.2) ∧ l.next s.1 = (first ss).or out ∧ Chain l ss out

/-- The list has the slots `ss`: one after the other by `next`, each with its nodes by `sibling`. -/
structure Holds (l : SlotList N) (ss : List (N × List N)) : Prop where
  head_eq : l.head = first ss
  chain : l.Chain ss none
  nodup : (nodes ss).Nodup

/-- Slots in a row are chained if both parts are, the first leading to the second. -/
theorem chain_append {l : SlotList N} {ss ss' : List (N × List N)} {out : Option N} :
    l.Chain (ss ++ ss') out ↔ l.Chain ss ((first ss').or out) ∧ l.Chain ss' out := by
  induction ss with
  | nil => simp [Chain]
  | cons s ss ih =>
    rw [List.cons_append, Chain, Chain, ih, first_append, Option.or_assoc]
    tauto

/-- Links read the fields of their own nodes only. -/
theorem linked_congr {field field' : N → Option N} {es : List N}
    (h : Linked field es) (hagree : ∀ x ∈ es, field' x = field x) : Linked field' es := by
  induction es with
  | nil => trivial
  | cons e es ih =>
    exact ⟨(hagree e List.mem_cons_self).trans h.1,
      ih h.2 fun x hx => hagree x (List.mem_cons_of_mem e hx)⟩

/-- A chain depends on the fields of its own nodes only. -/
theorem chain_congr {l l' : SlotList N} {ss : List (N × List N)} {out : Option N}
    (h : l.Chain ss out) (hnext : ∀ x ∈ nodes ss, l'.next x = l.next x)
    (hsibling : ∀ x ∈ nodes ss, l'.sibling x = l.sibling x) : l'.Chain ss out := by
  induction ss with
  | nil => trivial
  | cons s ss ih =>
    simp only [nodes_cons, List.forall_mem_append] at hnext hsibling
    exact ⟨linked_congr h.1 hsibling.1, (hnext.1 s.1 List.mem_cons_self).trans h.2.1,
      ih h.2.2 hnext.2 hsibling.2⟩

/-- What a list holds depends on its head and the fields of the nodes held. -/
theorem Holds.congr {l l' : SlotList N} {ss : List (N × List N)} (h : l.Holds ss)
    (hhead : l'.head = l.head) (hnext : ∀ x ∈ nodes ss, l'.next x = l.next x)
    (hsibling : ∀ x ∈ nodes ss, l'.sibling x = l.sibling x) : l'.Holds ss :=
  ⟨hhead.trans h.head_eq, chain_congr h.chain hnext hsibling, h.nodup⟩

/-! ## Places -/

/-- What a place points to. -/
def deref (l : SlotList N) : Option N → Option N
  | none => l.head
  | some x => l.next x

/-- The place behind slots points to what comes behind them. -/
theorem deref_lastPlace {l : SlotList N} {ss : List (N × List N)} {p out : Option N}
    (h : l.Chain ss out) (hp : l.deref p = (first ss).or out) : l.deref (lastPlace p ss) = out := by
  induction ss generalizing p with
  | nil => exact hp
  | cons s ss ih => exact ih h.2.2 h.2.1

/-- The loop `for (p = ..; *p && skip(*p); p = &(*p)->next)`. -/
def walk (l : SlotList N) (skip : N → Bool) : ℕ → Option N → Option N
  | 0, p => p
  | fuel + 1, p =>
    match l.deref p with
    | some h => if skip h then walk l skip fuel (some h) else p
    | none => p

/-- With fuel for all slots, the loop stops at the first slot that is not to be skipped. -/
theorem walk_eq {l : SlotList N} {skip : N → Bool} {ss : List (N × List N)} {fuel : ℕ}
    {p : Option N} (h : l.Chain ss none) (hp : l.deref p = first ss) (hfuel : ss.length ≤ fuel) :
    l.walk skip fuel p = lastPlace p (ss.takeWhile fun s => skip s.1) := by
  induction fuel generalizing p ss with
  | zero =>
    have hnil := List.length_eq_zero_iff.mp (Nat.le_zero.mp hfuel)
    rw [hnil]
    rfl
  | succ fuel ih =>
    rw [walk, hp]
    cases ss with
    | nil => rfl
    | cons s ss =>
      have hnext : l.deref (some s.1) = first ss := h.2.1.trans (Option.or_none)
      rw [first_cons, List.takeWhile_cons]
      show (if skip s.1 = true then _ else _) = _
      by_cases hskip : skip s.1 = true
      · rw [if_pos hskip, if_pos hskip]
        exact ih h.2.2 hnext (Nat.le_of_succ_le_succ hfuel)
      · rw [if_neg hskip, if_neg hskip]
        rfl

variable [DecidableEq N]

def setNext (l : SlotList N) (x : N) (v : Option N) : SlotList N :=
  { l with next := Function.update l.next x v }

def setSibling (l : SlotList N) (x : N) (v : Option N) : SlotList N :=
  { l with sibling := Function.update l.sibling x v }

/-- `*p = v` -/
def assign (l : SlotList N) (p v : Option N) : SlotList N :=
  match p with
  | none => { l with head := v }
  | some x => l.setNext x v

/-- A write through a place leaves the siblings. -/
@[simp] theorem sibling_assign (l : SlotList N) (p v : Option N) :
    (l.assign p v).sibling = l.sibling := by
  cases p <;> rfl

/-- A place holds what is written through it. -/
theorem deref_assign_self (l : SlotList N) (p v : Option N) : (l.assign p v).deref p = v := by
  cases p with
  | none => rfl
  | some x => simp [assign, deref, setNext]

/-- A write through a place leaves the other places. -/
theorem deref_assign_of_ne {l : SlotList N} {p p' v : Option N} (h : p' ≠ p) :
    (l.assign p v).deref p' = l.deref p' := by
  cases p <;> cases p' <;> simp_all [assign, deref, setNext]

/-- A write through a place leaves the `next` of other nodes. -/
theorem next_assign_of_ne {l : SlotList N} {p v : Option N} {x : N} (h : some x ≠ p) :
    (l.assign p v).next x = l.next x := deref_assign_of_ne h

/-- A list is hung behind another by the field of its last node. -/
theorem linked_append {field : N → Option N} {es es' : List N} {x : N} (h : Linked field es)
    (h' : Linked field es') (hnodup : (es ++ es').Nodup) (hx : es.getLast? = some x) :
    Linked (Function.update field x es'.head?) (es ++ es') := by
  induction es with
  | nil => cases hx
  | cons e es ih =>
    obtain ⟨he, hnodup'⟩ := List.nodup_cons.mp hnodup
    cases es with
    | nil =>
      obtain rfl : e = x := Option.some.inj hx
      refine ⟨Function.update_self _ _ _, linked_congr h' fun y hy => ?_⟩
      refine Function.update_of_ne ?_ _ _
      rintro rfl
      exact he hy
    | cons e' es =>
      rw [List.getLast?_cons_cons] at hx
      refine ⟨?_, ih h.2 hnodup' hx⟩
      have hne : e ≠ x := by
        rintro rfl
        exact he (List.mem_append_left _ (List.mem_of_getLast? hx))
      rw [Function.update_of_ne hne]
      exact h.1

/-- Assigning the place behind slots makes them lead elsewhere. -/
theorem assign_lastPlace {l : SlotList N} {ss : List (N × List N)} {p out : Option N}
    (v : Option N) (h : l.Chain ss out) (hp : l.deref p = (first ss).or out)
    (hnodup : (nodes ss).Nodup) (hfresh : ∀ x ∈ nodes ss, p ≠ some x) :
    (l.assign (lastPlace p ss) v).deref p = (first ss).or v ∧
      (l.assign (lastPlace p ss) v).Chain ss v := by
  induction ss generalizing p with
  | nil => exact ⟨deref_assign_self l p v, trivial⟩
  | cons s ss ih =>
    rw [nodes_cons] at hnodup hfresh
    have hs : s.1 ∉ nodes ss := by
      intro hmem
      exact (List.disjoint_of_nodup_append hnodup) List.mem_cons_self hmem
    have hnext : l.deref (some s.1) = (first ss).or out := h.2.1
    obtain ⟨hhere, hchain⟩ := ih h.2.2 hnext hnodup.of_append_right
      fun x hx heq => hs ((Option.some.inj heq) ▸ hx)
    refine ⟨?_, ⟨?_, hhere, hchain⟩⟩
    · obtain ⟨z, hz, hmem⟩ := lastPlace_mem s.1 ss
      have hne : p ≠ lastPlace (some s.1) ss := by
        rw [hz]
        refine hfresh z ?_
        rcases List.mem_cons.mp hmem with rfl | hmem
        · exact List.mem_append_left _ List.mem_cons_self
        · exact List.mem_append_right _ hmem
      rw [lastPlace, deref_assign_of_ne hne, hp]
      rfl
    · rw [lastPlace, sibling_assign]
      exact h.1

/-! ## Insertion -/

/-- `e` goes to the place `p`: in front of the slot there, or as a slot of its own. -/
def insert (l : SlotList N) (e : N) (p : Option N) (join : N → Bool) : SlotList N :=
  match l.deref p with
  | some h =>
    if join h then (((l.setNext e (l.next h)).setSibling e (some h)).assign p (some e))
    else ((l.setNext e (some h)).setSibling e none).assign p (some e)
  | none => ((l.setNext e none).setSibling e none).assign p (some e)

/-- Slots with `e` in front. -/
def put (e : N) (join : N → Bool) : List (N × List N) → List (N × List N)
  | [] => [(e, [])]
  | s :: ss => if join s.1 then (e, s.1 :: s.2) :: ss else (e, []) :: s :: ss

omit [DecidableEq N] in
/-- What is put in front becomes the head. -/
theorem first_put (e : N) (join : N → Bool) (ss : List (N × List N)) :
    first (put e join ss) = some e := by
  cases ss with
  | nil => rfl
  | cons s ss =>
    rw [put]
    split <;> rfl

omit [DecidableEq N] in
/-- What is put in front comes first among the nodes. -/
theorem nodes_put (e : N) (join : N → Bool) (ss : List (N × List N)) :
    nodes (put e join ss) = e :: nodes ss := by
  cases ss with
  | nil => rfl
  | cons s ss =>
    rw [put]
    split
    · rfl
    · rfl

/-- The fields that `insert` gives the new node, before it is put in its place. -/
theorem chain_put {l : SlotList N} {ss : List (N × List N)} {e : N} (join : N → Bool)
    (h : l.Chain ss none) (he : e ∉ nodes ss) :
    ∃ v w, (∀ p, l.deref p = first ss →
        l.insert e p join = ((l.setNext e v).setSibling e w).assign p (some e)) ∧
      ((l.setNext e v).setSibling e w).Chain (put e join ss) none := by
  have hagree : ∀ v w, ((l.setNext e v).setSibling e w).Chain ss none := by
    intro v w
    have hne : ∀ x ∈ nodes ss, x ≠ e := fun x hx heq => he (heq ▸ hx)
    refine chain_congr h (fun x hx => ?_) (fun x hx => ?_)
    · exact Function.update_of_ne (hne x hx) _ _
    · exact Function.update_of_ne (hne x hx) _ _
  cases ss with
  | nil =>
    refine ⟨none, none, fun p hp => by rw [insert, hp]; rfl, ?_⟩
    simp [put, Chain, Linked, setNext, setSibling]
  | cons s ss =>
    by_cases hjoin : join s.1 = true
    · refine ⟨l.next s.1, some s.1, fun p hp => by rw [insert, hp]; simp [hjoin], ?_⟩
      rw [put, if_pos hjoin]
      obtain ⟨hsib, hnext, hrest⟩ := hagree (l.next s.1) (some s.1)
      refine ⟨⟨?_, hsib⟩, ?_, hrest⟩
      · simp [setNext, setSibling]
      · rw [← h.2.1]
        simp [setNext, setSibling]
    · refine ⟨some s.1, none, fun p hp => by rw [insert, hp]; simp [hjoin], ?_⟩
      rw [put, if_neg hjoin]
      refine ⟨⟨?_, trivial⟩, ?_, hagree (some s.1) none⟩
      · simp [setNext, setSibling]
      · simp [setNext, setSibling]

/-- **Insertion.** -/
theorem holds_insert {l : SlotList N} {pre post : List (N × List N)} {e : N}
    (join : N → Bool) (h : l.Holds (pre ++ post)) (he : e ∉ nodes (pre ++ post)) :
    (l.insert e (lastPlace none pre) join).Holds (pre ++ put e join post) := by
  rw [nodes_append, List.mem_append, not_or] at he
  obtain ⟨hpre, hpost⟩ := chain_append.mp h.chain
  rw [Option.or_none] at hpre
  have hhead : l.deref none = (first pre).or (first post) := h.head_eq.trans (first_append pre post)
  have hplace := deref_lastPlace hpre hhead
  have hnodup := h.nodup
  rw [nodes_append] at hnodup
  obtain ⟨v, w, hins, hput⟩ := chain_put join hpost he.2
  rw [hins _ hplace]
  generalize hl' : (l.setNext e v).setSibling e w = l' at hput
  -- the new node is none of those in front of it
  have hpre' : l'.Chain pre (first post) := by
    have hne : ∀ x ∈ nodes pre, x ≠ e := fun x hx heq => he.1 (heq ▸ hx)
    rw [← hl']
    exact chain_congr hpre (fun x hx => Function.update_of_ne (hne x hx) _ _)
      (fun x hx => Function.update_of_ne (hne x hx) _ _)
  have hhead' : l'.deref none = (first pre).or (first post) := by
    rw [← hl']
    exact hhead
  obtain ⟨hfirst, hchain⟩ := assign_lastPlace (some e) hpre' hhead' hnodup.of_append_left
    fun _ _ => by simp
  refine ⟨?_, chain_append.mpr ⟨?_, ?_⟩, ?_⟩
  · rw [first_append, first_put]
    exact hfirst
  · rw [first_put, Option.or_none]
    exact hchain
  · refine chain_congr hput (fun x hx => next_assign_of_ne fun hx' => ?_) fun x _ => by simp
    have hmem := mem_of_lastPlace hx'.symm
    rw [nodes_put] at hx
    rcases List.mem_cons.mp hx with rfl | hx
    · exact he.1 hmem
    · exact (List.disjoint_of_nodup_append hnodup) hmem hx
  · rw [nodes_append, nodes_put]
    refine List.Nodup.append hnodup.of_append_left ?_ ?_
    · exact List.nodup_cons.mpr ⟨he.2, hnodup.of_append_right⟩
    · intro x hx hx'
      rcases List.mem_cons.mp hx' with rfl | hx'
      · exact he.1 hx
      · exact (List.disjoint_of_nodup_append hnodup) hx hx'

/-- Slots with `e` behind those that are skipped. -/
def putAt (e : N) (skip join : N → Bool) (ss : List (N × List N)) : List (N × List N) :=
  (ss.takeWhile fun s => skip s.1) ++ put e join (ss.dropWhile fun s => skip s.1)

omit [DecidableEq N] in
/-- An insertion adds its node and no other. -/
theorem nodes_putAt (e : N) (skip join : N → Bool) (ss : List (N × List N)) :
    (nodes (putAt e skip join ss)).Perm (e :: nodes ss) := by
  rw [putAt, nodes_append, nodes_put]
  refine List.perm_middle.trans (List.Perm.cons e ?_)
  rw [← nodes_append, List.takeWhile_append_dropWhile]

omit [DecidableEq N] in
/-- Which slots are passed depends on the nodes in them only. -/
theorem takeWhile_congr {skip skip' : N → Bool} {ss : List (N × List N)}
    (h : ∀ x ∈ nodes ss, skip x = skip' x) :
    (ss.takeWhile fun s => skip s.1) = (ss.takeWhile fun s => skip' s.1) ∧
      (ss.dropWhile fun s => skip s.1) = ss.dropWhile fun s => skip' s.1 := by
  induction ss with
  | nil => exact ⟨rfl, rfl⟩
  | cons s ss ih =>
    rw [nodes_cons, List.forall_mem_append, List.forall_mem_cons] at h
    obtain ⟨htake, hdrop⟩ := ih h.2
    simp only [List.takeWhile_cons, List.dropWhile_cons, h.1.1]
    cases skip' s.1 with
    | true => exact ⟨congrArg (s :: ·) htake, hdrop⟩
    | false => exact ⟨rfl, rfl⟩

omit [DecidableEq N] in
/-- Where a node is put depends on the nodes already there only. -/
theorem putAt_congr {e : N} {skip skip' join join' : N → Bool} {ss : List (N × List N)}
    (hskip : ∀ x ∈ nodes ss, skip x = skip' x) (hjoin : ∀ x ∈ nodes ss, join x = join' x) :
    putAt e skip join ss = putAt e skip' join' ss := by
  obtain ⟨htake, hdrop⟩ := takeWhile_congr hskip
  rw [putAt, putAt, htake, hdrop]
  congr 1
  cases hpost : ss.dropWhile fun s => skip' s.1 with
  | nil => rfl
  | cons s post =>
    have hs : s ∈ ss := (List.dropWhile_sublist _).subset (by rw [hpost]; exact List.mem_cons_self)
    rw [put, put, hjoin s.1 (List.mem_flatMap.mpr ⟨s, hs, List.mem_cons_self⟩)]

/-- **Insertion behind the slots that are skipped.** -/
theorem holds_insert_walk {l : SlotList N} {ss : List (N × List N)} {e : N}
    (skip join : N → Bool) (h : l.Holds ss) (he : e ∉ nodes ss) :
    (l.insert e (lastPlace none (ss.takeWhile fun s => skip s.1)) join).Holds
      (putAt e skip join ss) := by
  refine holds_insert join ?_ ?_
  · rw [List.takeWhile_append_dropWhile]
    exact h
  · rw [List.takeWhile_append_dropWhile]
    exact he

/-- Insertion changes the fields of the new node and of the node in front of it. -/
theorem insert_of_ne {l : SlotList N} {e x : N} {p : Option N} {join : N → Bool} (hx : x ≠ e)
    (hp : some x ≠ p) :
    (l.insert e p join).next x = l.next x ∧ (l.insert e p join).sibling x = l.sibling x := by
  rw [insert]
  split
  · split
    · exact ⟨(next_assign_of_ne hp).trans (Function.update_of_ne hx _ _),
        by simp [setSibling, setNext, Function.update_of_ne hx]⟩
    · exact ⟨(next_assign_of_ne hp).trans (Function.update_of_ne hx _ _),
        by simp [setSibling, setNext, Function.update_of_ne hx]⟩
  · exact ⟨(next_assign_of_ne hp).trans (Function.update_of_ne hx _ _),
      by simp [setSibling, setNext, Function.update_of_ne hx]⟩

/-! ## Removal -/

/-- The first node of the slot at a place is taken off; the next one of the slot follows. -/
def pop (l : SlotList N) (p : Option N) : SlotList N :=
  match l.deref p with
  | some e =>
    match l.sibling e with
    | some s => (l.assign p (some s)).setNext s (l.next e)
    | none => l.assign p (l.next e)
  | none => l

/-- Removal changes the fields of the node in front and `next` of the node that follows. -/
theorem pop_of_ne {l : SlotList N} {x : N} {p : Option N} (hp : some x ≠ p)
    (hx : ∀ e, l.deref p = some e → l.sibling e ≠ some x) :
    (l.pop p).next x = l.next x ∧ (l.pop p).sibling x = l.sibling x := by
  rw [pop]
  cases hp' : l.deref p with
  | none => exact ⟨rfl, rfl⟩
  | some e =>
    dsimp only
    cases hs : l.sibling e with
    | none => exact ⟨next_assign_of_ne hp, congrFun (sibling_assign l p _) x⟩
    | some s =>
      have hne : x ≠ s := by
        rintro rfl
        exact hx e hp' hs
      refine ⟨?_, congrFun (sibling_assign l p _) x⟩
      exact (Function.update_of_ne hne _ _).trans (next_assign_of_ne hp)

/-- A slot without its first node. -/
def rest : List N → List (N × List N)
  | [] => []
  | e :: es => [(e, es)]

omit [DecidableEq N] in
/-- What is left of a slot keeps its nodes. -/
theorem nodes_rest (es : List N) : nodes (rest es) = es := by
  cases es <;> simp [rest]

/-- **Removal of the front of a slot.** -/
theorem holds_pop {l : SlotList N} {pre post : List (N × List N)} {s : N × List N}
    (h : l.Holds (pre ++ s :: post)) :
    (l.pop (lastPlace none pre)).Holds (pre ++ (rest s.2 ++ post)) := by
  obtain ⟨hpre, hs⟩ := chain_append.mp h.chain
  rw [Option.or_none] at hpre
  have hhead : l.deref none = (first pre).or (first (s :: post)) :=
    h.head_eq.trans (first_append pre (s :: post))
  have hplace : l.deref (lastPlace none pre) = some s.1 := deref_lastPlace hpre hhead
  have hnodup := h.nodup
  rw [nodes_append, nodes_cons] at hnodup
  have hdisj := List.disjoint_of_nodup_append hnodup
  have hnot : ∀ x, x ∈ s.1 :: s.2 ++ nodes post → some x ≠ lastPlace none pre :=
    fun x hx heq => hdisj (mem_of_lastPlace heq.symm) hx
  have hnodup' : (nodes (pre ++ (rest s.2 ++ post))).Nodup := by
    rw [nodes_append, nodes_append, nodes_rest]
    exact hnodup.sublist ((List.Sublist.refl _).append
      ((List.sublist_cons_self s.1 s.2).append (List.Sublist.refl _)))
  rw [pop, hplace]
  obtain ⟨⟨hsib, hsibs⟩, hnext, hpost⟩ := hs
  cases hs2 : s.2 with
  | nil =>
    rw [hs2] at hsib hnot hnodup'
    have hv : l.next s.1 = first post := hnext.trans (Option.or_none)
    obtain ⟨hfirst, hchain⟩ := assign_lastPlace (l.next s.1) hpre hhead hnodup.of_append_left
      fun _ _ => by simp
    simp only [hsib, List.head?_nil, rest, List.nil_append]
    refine ⟨?_, chain_append.mpr ⟨?_, ?_⟩, hnodup'⟩
    · rw [first_append, ← hv]
      exact hfirst
    · rw [Option.or_none, ← hv]
      exact hchain
    · exact chain_congr hpost (fun x hx => next_assign_of_ne (hnot x (List.mem_append_right _ hx)))
        fun x _ => by simp
  | cons e es =>
    rw [hs2] at hsib hsibs hnot hnodup' hnodup
    obtain ⟨hfirst, hchain⟩ := assign_lastPlace (some e) hpre hhead hnodup.of_append_left
      fun _ _ => by simp
    have he : e ∉ nodes pre := fun hmem => hdisj hmem (by
      rw [hs2]
      exact List.mem_append_left _ (List.mem_cons_of_mem _ List.mem_cons_self))
    have hepost : e ∉ nodes post := by
      intro hmem
      have hin := (List.nodup_cons.mp hnodup.of_append_right.of_append_left).2
      exact (List.disjoint_of_nodup_append hnodup.of_append_right)
        (List.mem_cons_of_mem _ List.mem_cons_self) hmem
    simp only [hsib, List.head?_cons, rest, List.cons_append, List.nil_append]
    refine ⟨?_, chain_append.mpr ⟨?_, ?_⟩, hnodup'⟩
    · rw [first_append]
      exact hfirst
    · refine chain_congr hchain (fun x hx => Function.update_of_ne ?_ _ _) fun _ _ => rfl
      rintro rfl
      exact he hx
    · refine ⟨?_, ?_, ?_⟩
      · exact linked_congr hsibs fun x _ => by simp [setNext]
      · simp [setNext, hnext]
      · refine chain_congr hpost (fun x hx => ?_) fun x _ => by simp [setNext]
        have hne : x ≠ e := by
          rintro rfl
          exact hepost hx
        rw [setNext]
        simp only [Function.update_of_ne hne]
        exact next_assign_of_ne (hnot x (List.mem_append_right _ hx))

/-- Removal leaves all nodes alone that are not in the list. -/
theorem pop_of_not_mem {l : SlotList N} {pre post : List (N × List N)} {s : N × List N} {x : N}
    (h : l.Holds (pre ++ s :: post)) (hx : x ∉ nodes (pre ++ s :: post)) :
    (l.pop (lastPlace none pre)).next x = l.next x ∧
      (l.pop (lastPlace none pre)).sibling x = l.sibling x := by
  obtain ⟨hpre, hs⟩ := chain_append.mp h.chain
  rw [Option.or_none] at hpre
  have hhead : l.deref none = (first pre).or (first (s :: post)) :=
    h.head_eq.trans (first_append pre (s :: post))
  have hplace : l.deref (lastPlace none pre) = some s.1 := deref_lastPlace hpre hhead
  rw [nodes_append, nodes_cons, List.mem_append, not_or] at hx
  refine pop_of_ne (fun hp => hx.1 (mem_of_lastPlace hp.symm)) fun e he hsib => hx.2 ?_
  obtain rfl : s.1 = e := Option.some.inj (hplace.symm.trans he)
  have hmem : x ∈ s.2 := List.mem_of_head? (hs.1.1.symm.trans hsib)
  exact List.mem_append_left _ (List.mem_cons_of_mem _ hmem)

/-- The slots in front of a place are cut off. -/
def cut (l : SlotList N) (p : Option N) : SlotList N :=
  match p with
  | none => l
  | some x => { l with head := l.next x }.setNext x none

/-- A cut writes no field but the one at its place. -/
theorem cut_of_ne {l : SlotList N} {x : N} {p : Option N} (hp : some x ≠ p) :
    (l.cut p).next x = l.next x ∧ (l.cut p).sibling x = l.sibling x := by
  cases p with
  | none => exact ⟨rfl, rfl⟩
  | some y =>
    refine ⟨Function.update_of_ne ?_ _ _, rfl⟩
    rintro rfl
    exact hp rfl

/-- **Cut.** The list keeps the slots behind the place, and those in front of it still hang
together. -/
theorem holds_cut {l : SlotList N} {pre post : List (N × List N)} (h : l.Holds (pre ++ post)) :
    (l.cut (lastPlace none pre)).Holds post ∧ (l.cut (lastPlace none pre)).Chain pre none := by
  obtain ⟨hpre, hpost⟩ := chain_append.mp h.chain
  rw [Option.or_none] at hpre
  have hhead : l.deref none = (first pre).or (first post) := h.head_eq.trans (first_append pre post)
  have hnodup := h.nodup
  rw [nodes_append] at hnodup
  cases hp : lastPlace none pre with
  | none =>
    obtain rfl := eq_nil_of_lastPlace hp
    exact ⟨h, trivial⟩
  | some x =>
    have hx : x ∈ nodes pre := mem_of_lastPlace hp
    have hout : l.next x = first post := by
      have := deref_lastPlace hpre hhead
      rw [hp] at this
      exact this
    obtain ⟨-, hchain⟩ := assign_lastPlace none hpre hhead hnodup.of_append_left
      fun _ _ => by simp
    rw [hp] at hchain
    refine ⟨⟨hout, ?_, hnodup.of_append_right⟩, chain_congr hchain (fun _ _ => rfl) fun _ _ => rfl⟩
    refine chain_congr hpost (fun y hy => Function.update_of_ne ?_ _ _) fun _ _ => rfl
    rintro rfl
    exact (List.disjoint_of_nodup_append hnodup) hx hy

/-! ## Slots by a key -/

section keys

omit [DecidableEq N]

variable {K : Type} [LinearOrder K]

/-- The nodes of a slot have one key, and the keys of the slots increase. -/
def Sorted (key : N → K) : List (N × List N) → Prop
  | [] => True
  | s :: ss => (∀ x ∈ s.2, key x = key s.1) ∧ (∀ x ∈ nodes ss, key s.1 < key x) ∧ Sorted key ss

variable {key : N → K} {s : N × List N} {ss ss' : List (N × List N)}

/-- The order reads the keys of its own nodes only. -/
theorem Sorted.congr {key' : N → K} (h : Sorted key ss) (hkey : ∀ x ∈ nodes ss, key' x = key x) :
    Sorted key' ss := by
  induction ss with
  | nil => trivial
  | cons s ss ih =>
    rw [nodes_cons, List.forall_mem_append, List.forall_mem_cons] at hkey
    obtain ⟨⟨hs, hs2⟩, hss⟩ := hkey
    refine ⟨fun x hx => ?_, fun x hx => ?_, ih h.2.2 hss⟩
    · rw [hs2 x hx, hs]
      exact h.1 x hx
    · rw [hss x hx, hs]
      exact h.2.1 x hx

/-- All nodes of a slot have its key. -/
theorem Sorted.slot (h : Sorted key (s :: ss)) {x : N} (hx : x ∈ s.1 :: s.2) :
    key x = key s.1 := by
  rcases List.mem_cons.mp hx with rfl | hx
  · rfl
  · exact h.1 x hx

/-- The first slot has the smallest key. -/
theorem Sorted.le (h : Sorted key (s :: ss)) {x : N} (hx : x ∈ nodes (s :: ss)) :
    key s.1 ≤ key x := by
  rw [nodes_cons, List.mem_append] at hx
  rcases hx with hx | hx
  · exact (h.slot hx).ge
  · exact (h.2.1 x hx).le

/-- Each node has the key of the first node of a slot. -/
theorem Sorted.exists_first (h : Sorted key ss) {x : N} (hx : x ∈ nodes ss) :
    ∃ s ∈ ss, key x = key s.1 := by
  induction ss with
  | nil => cases hx
  | cons s ss ih =>
    rw [nodes_cons, List.mem_append] at hx
    rcases hx with hx | hx
    · exact ⟨s, List.mem_cons_self, h.slot hx⟩
    · obtain ⟨s', hs', hkey⟩ := ih h.2.2 hx
      exact ⟨s', List.mem_cons_of_mem s hs', hkey⟩

/-- The slots behind are in order. -/
theorem Sorted.append_right (h : Sorted key (ss ++ ss')) : Sorted key ss' := by
  induction ss with
  | nil => exact h
  | cons s ss ih => exact ih h.2.2

/-- The slots in front are in order. -/
theorem Sorted.append_left (h : Sorted key (ss ++ ss')) : Sorted key ss := by
  induction ss with
  | nil => trivial
  | cons s ss ih =>
    refine ⟨h.1, fun x hx => h.2.1 x ?_, ih h.2.2⟩
    show x ∈ nodes (ss ++ ss')
    rw [nodes_append]
    exact List.mem_append_left _ hx

/-- Slots stay sorted when the first one loses its first node. -/
theorem Sorted.rest (h : Sorted key (s :: ss)) : Sorted key (rest s.2 ++ ss) := by
  cases hs : s.2 with
  | nil => exact h.2.2
  | cons e es =>
    have hslot := h.1
    rw [hs, List.forall_mem_cons] at hslot
    refine ⟨fun x hx => (hslot.2 x hx).trans hslot.1.symm, fun x hx => ?_, h.2.2⟩
    rw [hslot.1]
    exact h.2.1 x hx

/-- Taking the first node of a slot away keeps the order. -/
theorem Sorted.append_rest (h : Sorted key (ss ++ s :: ss')) :
    Sorted key (ss ++ (SlotList.rest s.2 ++ ss')) := by
  induction ss with
  | nil => exact h.rest
  | cons s' ss ih =>
    refine ⟨h.1, fun x hx => h.2.1 x ?_, ih h.2.2⟩
    replace hx : x ∈ nodes (ss ++ (SlotList.rest s.2 ++ ss')) := hx
    show x ∈ nodes (ss ++ s :: ss')
    rw [nodes_append, nodes_append, nodes_rest] at hx
    rw [nodes_append, nodes_cons]
    simp only [List.mem_append, List.mem_cons] at hx ⊢
    tauto

/-- The slots with `e` in front of the slot of its key. -/
def putByKey (key : N → K) (e : N) (ss : List (N × List N)) : List (N × List N) :=
  putAt e (fun h => key h < key e) (fun h => key h = key e) ss

/-- A larger key is put behind the slot. -/
theorem putByKey_cons_of_lt {e : N} (h : key s.1 < key e) :
    putByKey key e (s :: ss) = s :: putByKey key e ss := by
  simp [putByKey, putAt, h]

/-- An equal key joins the slot in front. -/
theorem putByKey_cons_of_eq {e : N} (h : key s.1 = key e) :
    putByKey key e (s :: ss) = (e, s.1 :: s.2) :: ss := by
  simp [putByKey, putAt, put, h]

/-- A smaller key opens a slot in front. -/
theorem putByKey_cons_of_gt {e : N} (h : key e < key s.1) :
    putByKey key e (s :: ss) = (e, []) :: s :: ss := by
  simp [putByKey, putAt, put, h.not_gt, h.ne']

/-- An insertion by its key keeps the order. -/
theorem Sorted.putByKey (h : Sorted key ss) (e : N) : Sorted key (putByKey key e ss) := by
  induction ss with
  | nil => exact ⟨by simp, by simp, trivial⟩
  | cons s ss ih =>
    rcases lt_trichotomy (key s.1) (key e) with hlt | heq | hgt
    · rw [putByKey_cons_of_lt hlt]
      refine ⟨h.1, fun x hx => ?_, ih h.2.2⟩
      rcases List.mem_cons.mp ((nodes_putAt _ _ _ _).subset hx) with rfl | hx
      · exact hlt
      · exact h.2.1 x hx
    · rw [putByKey_cons_of_eq heq]
      refine ⟨fun x hx => (h.slot hx).trans heq, fun x hx => ?_, h.2.2⟩
      rw [← heq]
      exact h.2.1 x hx
    · rw [putByKey_cons_of_gt hgt]
      exact ⟨by simp, fun x hx => hgt.trans_le (h.le hx), h⟩

/-- In order, the new node comes behind all nodes whose key is no larger. -/
theorem Sorted.order_putByKey (h : Sorted key ss) (e : N) :
    order (SlotList.putByKey key e ss) =
      (order ss).takeWhile (fun x => key x ≤ key e) ++
        e :: (order ss).dropWhile (fun x => key x ≤ key e) := by
  have hnone : ∀ l : List N, (∀ x ∈ l, key e < key x) →
      l.takeWhile (fun x => key x ≤ key e) = [] ∧ l.dropWhile (fun x => key x ≤ key e) = l := by
    intro l hl
    cases l with
    | nil => exact ⟨rfl, rfl⟩
    | cons x l =>
      have hx : ¬ key x ≤ key e := (hl x List.mem_cons_self).not_ge
      simp [hx]
  have hslot : ∀ s : N × List N, ∀ l, (∀ x ∈ s.1 :: s.2, key x ≤ key e) →
      ((s.1 :: s.2).reverse ++ l).takeWhile (fun x => key x ≤ key e) =
          (s.1 :: s.2).reverse ++ l.takeWhile (fun x => key x ≤ key e) ∧
        ((s.1 :: s.2).reverse ++ l).dropWhile (fun x => key x ≤ key e) =
          l.dropWhile (fun x => key x ≤ key e) := by
    intro s l hs
    have hs' : ∀ x ∈ (s.1 :: s.2).reverse, decide (key x ≤ key e) = true := fun x hx =>
      decide_eq_true (hs x (List.mem_reverse.mp hx))
    exact ⟨List.takeWhile_append_of_pos hs', List.dropWhile_append_of_pos hs'⟩
  induction ss with
  | nil => rfl
  | cons s ss ih =>
    rcases lt_trichotomy (key s.1) (key e) with hlt | heq | hgt
    · obtain ⟨htake, hdrop⟩ := hslot s (order ss) fun x hx => (h.slot hx).trans_le hlt.le
      rw [putByKey_cons_of_lt hlt, order_cons, order_cons, ih h.2.2, htake, hdrop,
        List.append_assoc]
    · obtain ⟨htake, hdrop⟩ := hslot s (order ss) fun x hx => (h.slot hx).trans_le heq.le
      obtain ⟨htake', hdrop'⟩ := hnone (order ss) fun x hx => by
        rw [← heq]
        exact h.2.1 x ((order_perm ss).subset hx)
      rw [putByKey_cons_of_eq heq, order_cons, order_cons, htake, hdrop, htake', hdrop']
      simp
    · obtain ⟨htake, hdrop⟩ := hnone (order (s :: ss)) fun x hx =>
        hgt.trans_le (h.le ((order_perm (s :: ss)).subset hx))
      rw [putByKey_cons_of_gt hgt, htake, hdrop]
      rfl

/-- The nodes up to a key are those of the slots up to it. -/
theorem Sorted.order_takeWhile (h : Sorted key ss) (k : K) :
    order (ss.takeWhile fun s => key s.1 ≤ k) = (order ss).takeWhile (fun x => key x ≤ k) ∧
      order (ss.dropWhile fun s => key s.1 ≤ k) = (order ss).dropWhile (fun x => key x ≤ k) := by
  induction ss with
  | nil => exact ⟨rfl, rfl⟩
  | cons s ss ih =>
    obtain ⟨htake, hdrop⟩ := ih h.2.2
    by_cases hs : key s.1 ≤ k
    · have hs' : ∀ x ∈ (s.1 :: s.2).reverse, decide (key x ≤ k) = true := fun x hx =>
        decide_eq_true ((h.slot (List.mem_reverse.mp hx)).trans_le hs)
      rw [List.takeWhile_cons_of_pos (by simpa using hs),
        List.dropWhile_cons_of_pos (by simpa using hs), order_cons, order_cons,
        List.takeWhile_append_of_pos hs', List.dropWhile_append_of_pos hs', htake, hdrop]
      exact ⟨rfl, rfl⟩
    · have hhead : ∀ x ∈ order (s :: ss), ¬ key x ≤ k := fun x hx =>
        ((not_le.mp hs).trans_le (h.le ((order_perm (s :: ss)).subset hx))).not_ge
      rw [List.takeWhile_cons_of_neg (by simpa using hs),
        List.dropWhile_cons_of_neg (by simpa using hs)]
      cases horder : order (s :: ss) with
      | nil => exact ⟨rfl, rfl⟩
      | cons x l =>
        have hx : ¬ key x ≤ k := hhead x (by rw [horder]; exact List.mem_cons_self)
        simp [hx]

end keys

end SlotList

end Embedded
