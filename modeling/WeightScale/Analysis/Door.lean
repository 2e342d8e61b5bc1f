import WeightScale.Analysis.Coherence

/-!
# Closing the door

The door block watches for a closing of the door with a static of its own, `door_open_old`,
which starts out closed whatever the sample taken at start says. So a door that was open at
start and is closed at the first sample of the loop has closed unseen; every later closing
is seen.
-/

set_option autoImplicit false

namespace WeightScale

open Embedded

namespace Device

variable (net : Net) (wifi : Wifi) (leadSw : Bool)

/-- Every closing of the door in the run leaves the program in LOCKED, unless the key step of
the same iteration accepts. -/
def Relocks (is : List Input) : Prop :=
  ∀ pre i post, is = pre ++ i :: post → lastSample leadSw pre = true → i.leadSw = false →
    (comMain net wifi leadSw pre).Unlocks net i ∨
      (comMain net wifi leadSw (pre ++ [i])).sm.oldState = .locked

/-- `door_open_old` is the last sample, but for the one taken at start. -/
theorem doorOpenOld_comMain (is : List Input) :
    (comMain net wifi leadSw is).doorOpenOld = if is = [] then false else lastSample leadSw is := by
  induction is using List.reverseRecOn with
  | nil => rw [comMain, run_nil, doorOpenOld_startUp, if_pos rfl]
  | append_singleton is i _ =>
    rw [comMain_concat, doorOpenOld_loopBody net _ i (ready_comMain net wifi leadSw is).wellFormed,
      if_neg (by simp), lastSample_concat]

/-- A closing that the door block sees. -/
theorem locked_of_closing {d : Device} (h : d.Ready) {i : Input} (hopen : d.doorOpenOld = true)
    (hclosed : i.leadSw = false) :
    d.Unlocks net i ∨ (d.loopBody net i).sm.oldState = .locked := by
  by_cases hu : d.Unlocks net i
  · exact .inl hu
  · right
    rw [h.sm_loopBody net i, request_eq net d i h.wellFormed, if_neg hu, if_pos ⟨hopen, hclosed⟩]

/-- The one it does not see: started with the door open, the program is in UNLOCKED after its
first iteration, whatever that samples. -/
theorem unlocked_of_open_at_start (i : Input) :
    ¬ (startUp wifi true).Unlocks net i ∧
      ((startUp wifi true).loopBody net i).sm.oldState = .unlocked := by
  have h := ready_startUp wifi true
  have hclose : ¬ ((startUp wifi true).doorOpenOld = true ∧ i.leadSw = false) := by
    simp [doorOpenOld_startUp]
  have hg : (startUp wifi true).sm.gState = .unlocked := by simp [sm_startUp]
  have hu : ¬ (startUp wifi true).Unlocks net i := by
    rw [unlocks_iff net _ i h.wellFormed, pushedKey_eq_none_of_unlocked net i hclose hg]
    simp
  refine ⟨hu, ?_⟩
  rw [h.sm_loopBody net i, request_eq net _ i h.wellFormed, if_neg hu, if_neg hclose, hg]

/-- **Re-lock on door close.** It works for every run but those whose door is open at start
and closed at the first sample of the loop. -/
theorem relocks_iff (net : Net) (wifi : Wifi) (leadSw : Bool) (is : List Input) :
    Relocks net wifi leadSw is ↔ ¬ (leadSw = true ∧ ∃ i rest, is = i :: rest ∧ i.leadSw = false) := by
  constructor
  · rintro h ⟨rfl, i, rest, rfl, hclosed⟩
    obtain ⟨hu, hunlocked⟩ := unlocked_of_open_at_start net wifi i
    rcases h [] i rest rfl rfl hclosed with hacc | hlocked
    · exact hu hacc
    · change ((startUp wifi true).loopBody net i).sm.oldState = .locked at hlocked
      rw [hunlocked] at hlocked
      contradiction
  · intro hstart pre i post heq hopen hclosed
    have hne : pre ≠ [] := by
      rintro rfl
      exact hstart ⟨hopen, i, post, heq, hclosed⟩
    rw [comMain_concat]
    apply locked_of_closing net (ready_comMain net wifi leadSw pre) _ hclosed
    rw [doorOpenOld_comMain, if_neg hne, hopen]

/-- A door open at the start and closed at the first sample does not lock. -/
theorem not_relocks_open_at_start : ¬ Relocks .silent .down true [Input.idle false Input.noWeight] := by
  intro h
  have := h [] (Input.idle false Input.noWeight) [] rfl rfl rfl
  revert this
  decide +kernel

end Device

end WeightScale
