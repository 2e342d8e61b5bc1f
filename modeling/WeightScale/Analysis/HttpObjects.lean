import WeightScale.Analysis.Actions
import WeightScale.Interface.Runs

/-!
# The request objects

Each request is an object that the function creating it deletes once its response has been
printed. On the path of a failed request there is no `delete`, so the objects that stay
alive are those of the requests that failed, for every order of calls and failures.
-/

set_option autoImplicit false

namespace WeightScale

open Embedded

/-- The request objects alive after an event, by their numbers. There is no answer once an
object was created twice, deleted twice, or used when it was not alive. -/
def Event.objects (live : Option (List ℕ)) : Event → Option (List ℕ)
  | .http request op =>
    live.bind fun live =>
      match op with
      | .new _ => if request ∈ live then none else some (live ++ [request])
      | .delete => if request ∈ live then some (live.erase request) else none
      | _ => if request ∈ live then some live else none
  | _ => live

/-- The request returned no response. -/
def SendResult.isFailed : SendResult → Bool
  | .failed _ => true
  | .ok _ => false

/-- The first `n` requests that failed. -/
def failedRequests (net : Net) (n : ℕ) : List ℕ :=
  (List.range n).filter fun k => (net k).isFailed

/-- The next request is not among those that failed. -/
theorem not_mem_failedRequests (net : Net) (n : ℕ) : n ∉ failedRequests net n := by
  intro hmem
  exact absurd (List.mem_range.1 (List.mem_filter.1 hmem).1) (lt_irrefl n)

/-- One more request adds itself if it fails. -/
theorem failedRequests_succ (net : Net) (n : ℕ) :
    failedRequests net (n + 1) =
      failedRequests net n ++ if (net n).isFailed then [n] else [] := by
  rw [failedRequests, List.range_succ, List.filter_append, ← failedRequests]
  cases h : (net n).isFailed <;> simp [h]

namespace Io

/-- The request objects alive after everything the program has done. -/
def objects (io : Io) : Option (List ℕ) := io.log.foldl Event.objects (some [])

/-- The objects behind some events follow from those before by the events alone. -/
theorem objects_append {io io' : Io} {events : List Event} (h : io'.log = io.log ++ events) :
    io'.objects = events.foldl Event.objects io.objects := by
  rw [objects, h, List.foldl_append]
  rfl

/-- One event changes the objects as it says. -/
theorem objects_emit (e : Event) (io : Io) : (io.emit e).objects = e.objects io.objects := by
  have hlog : (io.emit e).log = io.log ++ [e] := rfl
  rw [objects_append hlog]
  rfl

/-- Printing touches no object. -/
theorem objects_printf2 (t : Text) (io : Io) : (io.printf2 t).objects = io.objects := by
  have hfills : ∀ (toks : List Text) (live : Option (List ℕ)),
      (toks.map (Event.fill .oledRow)).foldl Event.objects live = live := by
    intro toks
    induction toks with
    | nil => exact fun live => rfl
    | cons tok toks ih => exact fun live => ih live
  obtain ⟨rows, hlog⟩ := log_printf2 t io
  rw [objects_append hlog, List.foldl_cons, List.foldl_cons, List.foldl_append, hfills]
  rfl

/-- The objects alive are those of the failed requests. -/
def Leaks (net : Net) (io : Io) : Prop := io.objects = some (failedRequests net io.requests)

variable {net : Net} {io : Io}

/-- An event that touches no object keeps the leaks. -/
theorem Leaks.emit (h : Leaks net io) {e : Event} (he : ∀ live, e.objects live = live) :
    Leaks net (io.emit e) := by
  rw [Leaks, objects_emit, he]
  exact h

/-- Printing keeps the leaks. -/
theorem Leaks.printf2 (h : Leaks net io) (t : Text) : Leaks net (io.printf2 t) := by
  rw [Leaks, objects_printf2, requests_printf2]
  exact h

/-- A request whose `send` fails stays alive, any other is deleted. -/
theorem Leaks.httpGet (h : Leaks net io) (url : Text) : Leaks net (io.httpGet net url) := by
  have hsent := ((h.emit (e := .fill .urlBuffer url) fun _ => rfl).printf2
    (ascii "Request to " ++ url ++ ascii "\r\n")).printf2 (ascii "\n----- HTTP GET request -----\n")
  unfold Io.httpGet
  dsimp only
  rw [sprintf]
  generalize (Io.printf2 _ (Io.printf2 _ (io.emit (.fill .urlBuffer url)))) = sent at hsent ⊢
  have hfresh := not_mem_failedRequests net sent.requests
  have hnew : (({ sent.emit (.http sent.requests (.new url)) with
      requests := sent.requests + 1 } : Io).emit (.http sent.requests .send)).objects =
      some (failedRequests net sent.requests ++ [sent.requests]) := by
    have hcreated : (({ sent.emit (.http sent.requests (.new url)) with
        requests := sent.requests + 1 } : Io)).objects =
        some (failedRequests net sent.requests ++ [sent.requests]) := by
      show (sent.emit (.http sent.requests (.new url))).objects = _
      rw [objects_emit, hsent]
      simp [Event.objects, hfresh]
    rw [objects_emit, hcreated]
    simp [Event.objects]
  cases hnet : net sent.requests with
  | failed error =>
    have hfailed := failedRequests_succ net sent.requests
    simp only [hnet, SendResult.isFailed, if_true] at hfailed
    rw [Leaks, objects_printf2, requests_printf2, objects_emit, hnew]
    show _ = some (failedRequests net (sent.requests + 1))
    rw [hfailed]
    simp [Event.objects]
  | ok body =>
    have hok := failedRequests_succ net sent.requests
    simp only [hnet, SendResult.isFailed, Bool.false_eq_true, if_false, List.append_nil] at hok
    have hrequests : ((Io.printf2 (cstr body ++ ascii "\n") ((Io.printf2
        (ascii "\n----- HTTP GET response -----\n") (({ sent.emit (.http sent.requests (.new url)) with
        requests := sent.requests + 1 } : Io).emit (.http sent.requests .send))).emit
        (.http sent.requests .getBody))).emit (.http sent.requests .delete)).requests =
        sent.requests + 1 := by
      show (Io.printf2 _ _).requests = _
      rw [requests_printf2]
      show (Io.printf2 _ _).requests = _
      rw [requests_printf2]
      rfl
    rw [Leaks, hrequests, hok, objects_emit, objects_printf2, objects_emit, objects_printf2, hnew]
    simp [Event.objects, List.erase_append_right _ hfresh]

/-- The objects alive are those of the failed requests, wherever the actions lead. -/
theorem Leaks.of_reached (h : Reached net io) : Leaks net io := by
  induction h with
  | start => rfl
  | call _ f ih => exact ih.emit fun _ => rfl
  | write _ address data ih => exact ih.emit fun _ => rfl
  | sprintf _ dst ht ih => exact ih.emit fun _ => rfl
  | printf2 _ ht ih => exact ih.printf2 _
  | httpGet _ hurl ih => exact ih.httpGet _
  | setAlarm _ alarm ih => exact ih

/-- A call of one of the eight functions that make a request. -/
inductive HttpCall where
  | channelUpdate (field1 field2 : Binary32)
  | notifyDietAchieved (weight target : Binary32)
  | notifyDietNotAchieved (weight target diff : Binary32)
  | notifyUnlockFailedInvalidPass
  | notifyUnlockFailedDoDiet
  | notifyChangeTarget (oldTarget newTarget : Int32)
  | notifyLocked
  | notifyUnlocked

/-- Each call by the function it stands for. -/
def httpCall (net : Net) (io : Io) : HttpCall → Io
  | .channelUpdate field1 field2 => io.channelUpdate net field1 field2
  | .notifyDietAchieved weight target => io.notifyDietAchieved net weight target
  | .notifyDietNotAchieved weight target diff => io.notifyDietNotAchieved net weight target diff
  | .notifyUnlockFailedInvalidPass => io.notifyUnlockFailedInvalidPass net
  | .notifyUnlockFailedDoDiet => io.notifyUnlockFailedDoDiet net
  | .notifyChangeTarget oldTarget newTarget => io.notifyChangeTarget net oldTarget newTarget
  | .notifyLocked => io.notifyLocked net
  | .notifyUnlocked => io.notifyUnlocked net

/-- A further call of `ThingSpeak` or `IFTTT` is one of the actions. -/
theorem Reached.httpCall (h : Reached net io) (c : HttpCall) : Reached net (io.httpCall net c) := by
  cases c with
  | channelUpdate field1 field2 => exact h.channelUpdate _ _
  | notifyDietAchieved weight target => exact h.notifyDietAchieved _ _
  | notifyDietNotAchieved weight target diff => exact h.notifyDietNotAchieved _ _ _
  | notifyUnlockFailedInvalidPass => exact h.notify _ 2
  | notifyUnlockFailedDoDiet => exact h.notify _ 3
  | notifyChangeTarget oldTarget newTarget => exact h.notifyChangeTarget _ _
  | notifyLocked => exact h.notify _ 5
  | notifyUnlocked => exact h.notify _ 6

/-- **Failures leave objects behind, and only failures do.** After every run of the program
and any further calls: no object was deleted twice or used when it was not alive, and no
object is alive if and only if no request has failed. -/
theorem objects_eq_nil_iff (net : Net) (wifi : Wifi) (leadSw : Bool) (ss : List SystemStep)
    (cs : List HttpCall) :
    (run (httpCall net) (Device.system net wifi leadSw ss).io cs).objects ≠ none ∧
      ((run (httpCall net) (Device.system net wifi leadSw ss).io cs).objects = some [] ↔
        ∀ k < (run (httpCall net) (Device.system net wifi leadSw ss).io cs).requests,
          (net k).isFailed = false) := by
  have hreached : Reached net (run (httpCall net) (Device.system net wifi leadSw ss).io cs) :=
    run_invariant (P := Reached net) cs (Device.reached_system net wifi leadSw ss)
      fun io c _ h => h.httpCall c
  have hobjects : Io.objects _ = _ := Leaks.of_reached hreached
  rw [hobjects]
  refine ⟨Option.some_ne_none _, ?_⟩
  rw [Option.some_inj, failedRequests, List.filter_eq_nil_iff]
  constructor
  · intro h k hk
    exact Bool.eq_false_iff.2 (h k (List.mem_range.2 hk))
  · intro h k hk
    exact Bool.eq_false_iff.1 (h k (List.mem_range.1 hk))

/-- The first notification fails, and its object stays. -/
theorem object_left_behind :
    (Device.system (fun _ => .failed (-3001)) .down false
      [.iterate (.idle false Input.noWeight)]).io.objects = some [0] := by
  decide +kernel

end Io

end WeightScale
