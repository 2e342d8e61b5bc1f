import WeightScale.Analysis.Coherence

/-!
# Who gets in

The password object of the program represents the abstract `Typing` of a run: its entry is
what was typed, cut at 19 keys, and its secret is the password the typing has left. From
that follows that UNLOCKED is entered by the current password and weight alone, and,
because every password left behind can be typed again, that it can always be entered.
-/

set_option autoImplicit false

namespace WeightScale

open Embedded

namespace Password

/-- The password object stands where the typing says. -/
structure Represents (p : Password) (t : Typing) : Prop where
  entry : p.entry = t.typed.take 19
  secret : p.secret = t.password
  typed_ne_zero : ∀ b ∈ t.typed, b ≠ 0

/-- The entry shows enough of what was typed to tell a password setting. -/
theorem passwordOf_eq (t : Text) :
    passwordOf t =
      match command (t.take 19) with
      | .password pass => some pass
      | _ => none := by
  match t with
  | [] => rfl
  | [c] => by_cases hc : c = chr '0' <;> simp [passwordOf, command, hc]
  | c :: c' :: rest =>
    by_cases hc : c = chr '0' <;> by_cases hc' : c' = chr '0' <;>
      simp [passwordOf, command, hc, hc']

/-- A password that is set was typed. -/
theorem mem_of_passwordOf {t pass : Text} (h : passwordOf t = some pass) {b : Byte}
    (hb : b ∈ pass) : b ∈ t := by
  cases t with
  | nil => simp [passwordOf] at h
  | cons c rest =>
    simp only [passwordOf] at h
    split at h
    · rw [← Option.some.inj h] at hb
      exact List.mem_cons_of_mem c (List.mem_of_mem_take hb)
    · simp at h

/-- What the first cut drops, the second drops anyway. -/
theorem take_take_append (n : ℕ) (l l' : Text) :
    (l.take n ++ l').take n = (l ++ l').take n := by
  rcases Nat.le_total l.length n with h | h
  · rw [List.take_of_length_le h]
  · rw [List.take_append_of_le_length h, List.take_append_of_le_length (by simp [h]),
      List.take_take, Nat.min_self]

/-- A key other than NUL moves the password object and the typing alike. -/
theorem Represents.press {p : Password} {t : Typing} (hwf : p.WellFormed) (h : p.Represents t)
    {k : Byte} (hk : k ≠ 0) : (p.press k).Represents (t.key k) := by
  have hentry := entry_press hwf k
  have hsecret := secret_press hwf k
  by_cases hs : k = chr '*'
  · simp only [hs, if_true, true_or, h.entry] at hentry hsecret
    simp only [Typing.key, hs, if_true, passwordOf_eq]
    refine ⟨hentry, ?_, by simp⟩
    rw [hsecret]
    cases hc : command (t.typed.take 19) with
    | goal ds => exact h.secret
    | attempt => exact h.secret
    | password pass =>
      have hpass : passwordOf t.typed = some pass := by rw [passwordOf_eq, hc]
      exact cstr_eq_self fun b hb => h.typed_ne_zero b (mem_of_passwordOf hpass hb)
  · by_cases hh : k = chr '#'
    · simp only [hh, or_true, if_true, Password.hash_ne_star, if_false] at hentry hsecret
      simp only [Typing.key, hh, if_true, Password.hash_ne_star, if_false]
      exact ⟨hentry, hsecret.trans h.secret, by simp⟩
    · simp only [hs, hh, if_false, or_self, h.entry, take_take_append] at hentry hsecret
      simp only [Typing.key, hs, hh, if_false]
      refine ⟨hentry, hsecret.trans h.secret, ?_⟩
      intro b hb
      rcases List.mem_append.1 hb with hb | hb
      · exact h.typed_ne_zero b hb
      · rwa [List.mem_singleton.1 hb]

end Password

namespace Device

variable (net : Net) (wifi : Wifi) (leadSw : Bool) {d : Device} (i : Input)

/-- One more iteration adds the key pushed in it, if any. -/
theorem typing_concat (is : List Input) (i : Input) :
    typing net wifi leadSw (is ++ [i]) =
      ((comMain net wifi leadSw is).pushedKey net i).toList.foldl Typing.key
        (typing net wifi leadSw is) := by
  rw [typing, pushedKeys, outputs_concat, List.foldl_append]; rfl

/-- **The password object represents the typing of the run.** -/
theorem represents_typing {is : List Input}
    (hkeys : ∀ j ∈ is, j.keyData.state = .push → j.keyData.key ≠ 0) :
    (comMain net wifi leadSw is).password.Represents (typing net wifi leadSw is) := by
  induction is using List.reverseRecOn with
  | nil =>
    refine ⟨?_, ?_, by simp [typing, pushedKeys, outputs]⟩
    · rw [comMain, run_nil, password_startUp, Password.entry_new (by decide)]; rfl
    · rw [comMain, run_nil, password_startUp, Password.secret_new (by decide)]
      show cstr (ascii "1234") = ascii "1234"
      decide
  | append_singleton is i ih =>
    have ih := ih fun j hj => hkeys j (List.mem_append_left _ hj)
    have hwf := (ready_comMain net wifi leadSw is).wellFormed
    rw [comMain_concat, password_loopBody net _ i hwf, typing_concat]
    cases hp : (comMain net wifi leadSw is).pushedKey net i with
    | none => exact ih
    | some k =>
      obtain ⟨-, hpush, rfl⟩ := pushedKey_eq_some net _ i hp
      exact ih.press hwf (hkeys i (by simp) hpush)

/-- What UNLOCKED is entered on: a request that was accepted, or the one made at start. -/
theorem Ready.of_unlockedInit (h : d.Ready) (hu : Call.unlockedInit ∈ d.callsOf net i) :
    d.Unlocks net i ∨ d.sm.oldState = .init ∧ d.sm.gState = .unlocked := by
  obtain ⟨hne, hto⟩ := (unlockedInit_mem_callsOf net d i h.wellFormed).1 hu
  have hp := h.request_permitted net i |>.resolve_left (Ne.symm hne)
  rw [transTo_of_permitted hp] at hto
  by_cases hacc : d.Unlocks net i
  · exact .inl hacc
  · rw [request_eq net d i h.wellFormed, if_neg hacc] at hto hne
    split at hto
    · contradiction
    · rename_i hclose
      rw [if_neg hclose] at hne
      exact .inr ⟨h.current.resolve_left hne, hto⟩

/-- An accepted attempt of a run spells the password that the typing has left. -/
theorem typing_of_unlocks {is : List Input}
    (hkeys : ∀ j ∈ is, j.keyData.state = .push → j.keyData.key ≠ 0)
    (hu : (comMain net wifi leadSw is).Unlocks net i) :
    (typing net wifi leadSw is).typed = (typing net wifi leadSw is).password := by
  have hwf := (ready_comMain net wifi leadSw is).wellFormed
  have hrep := represents_typing net wifi leadSw hkeys
  have hsecret := hwf.secret_length
  obtain ⟨-, -, heq, -, -⟩ := (unlocks_iff net _ i hwf).1 hu
  rw [hrep.entry, cstr_eq_self fun b hb => hrep.typed_ne_zero b (List.mem_of_mem_take hb)] at heq
  -- a secret is too short to be what is left of a longer typing
  have hlen : (typing net wifi leadSw is).typed.length ≤ 19 := by
    have := congrArg List.length heq
    rw [List.length_take] at this
    omega
  rw [← hrep.secret, ← heq, List.take_of_length_le hlen]

/-- **Unlock soundness.** Over a run of any length UNLOCKED is entered in the first iteration
when the door was open at start, or on a `'*'` behind the current password, with a weight
that is not initial and below the goal. -/
theorem unlockedInit_sound (net : Net) (wifi : Wifi) (leadSw : Bool) (is : List Input) (i : Input)
    (hkeys : ∀ j ∈ is, j.keyData.state = .push → j.keyData.key ≠ 0)
    (hu : Call.unlockedInit ∈ (comMain net wifi leadSw is).callsOf net i) :
    (is = [] ∧ leadSw = true) ∨
      (((comMain net wifi leadSw is).atKeyStep net i).sm.getState = .locked ∧
        i.keyData = ⟨chr '*', .push⟩ ∧
        (typing net wifi leadSw is).typed = (typing net wifi leadSw is).password ∧
        i.weights.stable ≠ WeightStable.initial ∧
        i.weights.weight < (comMain net wifi leadSw is).targetWeight) := by
  have hd := ready_comMain net wifi leadSw is
  rcases hd.of_unlockedInit net i hu with hacc | ⟨hinit, hg⟩
  · right
    obtain ⟨hp, -, -, hst, hw⟩ := (unlocks_iff net _ i hd.wellFormed).1 hacc
    obtain ⟨hl, hpush, hkey⟩ := pushedKey_eq_some net _ i hp
    refine ⟨hl, ?_, ?_, hst, hw⟩
    · rw [← hkey, ← hpush]
    · exact typing_of_unlocks net wifi leadSw i hkeys hacc
  · left
    have hnil : is = [] := by
      by_contra hne
      have hs := settled_comMain net wifi leadSw hne
      rw [← hs.settled, hinit] at hg
      contradiction
    subst hnil
    refine ⟨rfl, ?_⟩
    rw [comMain, run_nil, sm_startUp] at hg
    cases leadSw
    · simp at hg
    · rfl

/-- `1234` typed with an idle iteration between the keys, then `*`, is the password. -/
theorem unlockedInit_sound_1234 :
    let is := Input.typing "12" ++ Input.idle false Input.noWeight :: Input.typing "34"
    let i := Input.pushing '*' false Input.fiftyKilos
    ((comMain .silent .down false is).atKeyStep .silent i).sm.getState = .locked ∧
      (typing .silent .down false is).typed = (typing .silent .down false is).password := by
  intro is i
  have hwf := (ready_comMain .silent .down false is).wellFormed
  have hu : Call.unlockedInit ∈ (comMain .silent .down false is).callsOf .silent i :=
    (unlockedInit_mem_callsOf .silent _ i hwf).2 (by decide +kernel)
  rcases unlockedInit_sound .silent .down false is i (by decide +kernel) hu with
    ⟨-, hopen⟩ | ⟨hl, -, htyped, -, -⟩
  · exact absurd hopen (by decide)
  · exact ⟨hl, htyped⟩

/-! ## No lock-out -/

/-- A password that the keypad can spell and the entry parser takes for an attempt. -/
structure Spellable (s : Text) : Prop where
  length_le : s.length ≤ 18
  keys : ∀ b ∈ s, b ≠ 0 ∧ b ≠ chr '*' ∧ b ≠ chr '#'
  head : s.head? ≠ some (chr '0')

/-- The two buffers hold nothing but keys. -/
structure Keyed (p : Password) : Prop extends p.WellFormed where
  entry_keys : ∀ b ∈ p.entry, b ≠ 0 ∧ b ≠ chr '*' ∧ b ≠ chr '#'
  secret_spellable : Spellable p.secret

/-- A new password holds nothing but keys. -/
theorem keyed_new : Keyed (.new (ascii "1234")) where
  toWellFormed := Password.wellFormed_new (by decide)
  entry_keys := by rw [Password.entry_new (by decide)]; simp
  secret_spellable := by
    rw [Password.secret_new (by decide)]
    exact ⟨by decide, by decide +kernel, by decide⟩

/-- What is set as a password is a piece of the entry that does not start with `0`. -/
theorem command_password {t pass : Text} (h : command t = .password pass) :
    (∀ b ∈ pass, b ∈ t) ∧ pass.head? ≠ some (chr '0') := by
  match t with
  | [] => simp [command] at h
  | [c] =>
    by_cases hc : c = chr '0' <;> simp [command, hc] at h
    subst h
    simp
  | c :: c' :: rest =>
    by_cases hc : c = chr '0' <;> by_cases hc' : c' = chr '0' <;> simp [command, hc, hc'] at h
    subst h
    exact ⟨fun b hb => List.mem_cons_of_mem c hb, by simpa using hc'⟩

/-- A key keeps both buffers filled with keys. -/
theorem Keyed.press {p : Password} (h : Keyed p) {k : Byte} (hk : k ≠ 0) : Keyed (p.press k) := by
  refine ⟨Password.wellFormed_press h.toWellFormed k, ?_, ?_⟩
  · rw [Password.entry_press h.toWellFormed]
    split
    · simp
    · rename_i hctl
      rw [not_or] at hctl
      intro b hb
      rcases List.mem_append.1 (List.mem_of_mem_take hb) with hb | hb
      · exact h.entry_keys b hb
      · rw [List.mem_singleton.1 hb]
        exact ⟨hk, hctl⟩
  · rw [Password.secret_press h.toWellFormed]
    split
    · cases hc : command p.entry with
      | goal ds => exact h.secret_spellable
      | attempt => exact h.secret_spellable
      | password pass =>
        obtain ⟨hmem, hhead⟩ := command_password hc
        have hkeys : ∀ b ∈ pass, b ≠ 0 ∧ b ≠ chr '*' ∧ b ≠ chr '#' :=
          fun b hb => h.entry_keys b (hmem b hb)
        have hlen := Password.cstr_password_length_le h.toWellFormed hc
        dsimp only
        rw [cstr_eq_self fun b hb => (hkeys b hb).1] at hlen ⊢
        exact ⟨hlen, hkeys, hhead⟩
    · exact h.secret_spellable

/-- The buffers hold nothing but keys in every run. -/
theorem keyed_comMain {is : List Input}
    (hkeys : ∀ j ∈ is, j.keyData.state = .push → j.keyData.key ≠ 0) :
    Keyed (comMain net wifi leadSw is).password := by
  have hinv : (comMain net wifi leadSw is).Ready ∧ Keyed (comMain net wifi leadSw is).password := by
    refine run_invariant (P := fun d : Device => d.Ready ∧ Keyed d.password) is ?_ ?_
    · exact ⟨ready_startUp wifi leadSw, by rw [password_startUp]; exact keyed_new⟩
    · rintro d i hi ⟨hd, hkeyed⟩
      refine ⟨(hd.settled_loopBody net i).toReady, ?_⟩
      rw [password_loopBody net d i hd.wellFormed]
      cases hp : d.pushedKey net i with
      | none => exact hkeyed
      | some k =>
        obtain ⟨-, hpush, rfl⟩ := pushedKey_eq_some net d i hp
        exact hkeyed.press (hkeys i hi hpush)
  exact hinv.2

/-- While the state is LOCKED every key pushed is handled. -/
theorem pushedKey_of_locked (h : d.sm.gState = .locked) :
    d.pushedKey net i = if i.keyData.state = .push then some i.keyData.key else none := by
  have hl : (d.atKeyStep net i).sm.getState = .locked := by
    rw [sm_atKeyStep]
    split
    · rfl
    · exact h
  simp [pushedKey, hl]

/-- LOCKED is kept by every key but `'*'`, and so is the goal. -/
theorem locked_loopBody (h : d.Ready) (hl : d.sm.gState = .locked)
    (hstar : ∀ k, d.pushedKey net i = some k → k ≠ chr '*') :
    (d.loopBody net i).sm.gState = .locked ∧ (d.loopBody net i).targetWeight = d.targetWeight := by
  constructor
  · have hu : ¬ d.Unlocks net i := fun hu =>
      hstar _ ((unlocks_iff net d i h.wellFormed).1 hu).1 rfl
    rw [h.sm_loopBody, request_eq net d i h.wellFormed, if_neg hu, hl, ite_self]
  · rw [targetWeight_loopBody net d i h.wellFormed]
    cases hp : d.pushedKey net i with
    | none => rfl
    | some k => simp [pressTarget, hstar k hp]

/-- A LOCKED program reads off the keys pushed, as long as none of them is a `'*'`. -/
theorem run_of_locked (is : List Input) (h : d.Ready) (hl : d.sm.gState = .locked)
    (hstar : chr '*' ∉ pushes is) :
    (run (loopBody net) d is).sm.gState = .locked ∧
      (run (loopBody net) d is).targetWeight = d.targetWeight ∧
      (run (loopBody net) d is).password = (pushes is).foldl (fun p k => p.press k) d.password := by
  induction is generalizing d with
  | nil => exact ⟨hl, rfl, rfl⟩
  | cons i is ih =>
    have hp := pushedKey_of_locked net i hl
    by_cases hpush : i.keyData.state = .push
    · rw [if_pos hpush] at hp
      simp only [pushes, List.filterMap_cons, hpush, if_true, List.mem_cons, not_or] at hstar
      have hstep := locked_loopBody net i h hl fun k hk => by
        rw [hp] at hk
        rw [← Option.some.inj hk]
        exact Ne.symm hstar.1
      rw [run_cons]
      obtain ⟨hg, ht, hpass⟩ := ih (h.settled_loopBody net i).toReady hstep.1 hstar.2
      refine ⟨hg, ht.trans hstep.2, hpass.trans ?_⟩
      rw [password_loopBody net d i h.wellFormed, hp]
      simp [pushes, hpush]
    · rw [if_neg hpush] at hp
      simp only [pushes, List.filterMap_cons, hpush, if_false] at hstar
      have hstep := locked_loopBody net i h hl (by simp [hp])
      rw [run_cons]
      obtain ⟨hg, ht, hpass⟩ := ih (h.settled_loopBody net i).toReady hstep.1 hstar
      refine ⟨hg, ht.trans hstep.2, hpass.trans ?_⟩
      rw [password_loopBody net d i h.wellFormed, hp]
      simp [pushes, hpush]

/-- Keys are appended to the entry until it is full. -/
theorem entry_foldl_press {p : Password} (h : p.WellFormed) (ks : Text)
    (hks : ∀ b ∈ ks, b ≠ chr '*' ∧ b ≠ chr '#') :
    let q := ks.foldl (fun p k => p.press k) p
    q.WellFormed ∧ q.entry = (p.entry ++ ks).take 19 ∧ q.secret = p.secret := by
  induction ks generalizing p with
  | nil =>
    have hlen := Password.length_entry_le h
    rw [List.append_nil, List.take_of_length_le hlen]
    exact ⟨h, rfl, rfl⟩
  | cons k ks ih =>
    obtain ⟨hs, hh⟩ := hks k List.mem_cons_self
    have hentry : (p.press k).entry = (p.entry ++ [k]).take 19 := by
      rw [Password.entry_press h, if_neg (by simp [hs, hh])]
    obtain ⟨hwf, he, hsec⟩ := ih (Password.wellFormed_press h k)
      fun b hb => hks b (List.mem_cons_of_mem k hb)
    refine ⟨hwf, ?_, ?_⟩
    · rw [List.foldl_cons, he, hentry, Password.take_take_append, List.append_assoc, List.singleton_append]
    · rw [List.foldl_cons, hsec, Password.secret_press h, if_neg hs]

/-- An entry that does not start with `0` is tried as the password. -/
theorem command_of_head {t : Text} (h : t.head? ≠ some (chr '0')) : command t = .attempt := by
  match t with
  | [] => rfl
  | [c] => simpa [command] using h
  | c :: c' :: rest => simp only [List.head?_cons, ne_eq, Option.some.injEq] at h; simp [command, h]

/-- **No lock-out.** From every LOCKED state of a run, `'#'`, the stored password and `'*'`
with a weight that is not initial and below the goal lead to UNLOCKED, whatever else the
iterations on the way sample. -/
theorem unlocked_of_pushes (net : Net) (wifi : Wifi) (leadSw : Bool) (is js : List Input)
    (last : Input) (hkeys : ∀ j ∈ is, j.keyData.state = .push → j.keyData.key ≠ 0)
    (hlocked : (comMain net wifi leadSw is).sm.oldState = .locked)
    (hjs : pushes js = chr '#' :: (comMain net wifi leadSw is).password.secret)
    (hlast : last.keyData = ⟨chr '*', .push⟩)
    (hstable : last.weights.stable ≠ WeightStable.initial)
    (hweight : last.weights.weight < (comMain net wifi leadSw is).targetWeight) :
    (comMain net wifi leadSw (is ++ js)).sm.oldState = .locked ∧
      (comMain net wifi leadSw (is ++ js ++ [last])).sm.oldState = .unlocked := by
  have hd := ready_comMain net wifi leadSw is
  have hkeyed := keyed_comMain net wifi leadSw hkeys
  have hl : (comMain net wifi leadSw is).sm.gState = .locked := by
    rcases hd.current with hc | hc
    · rw [← hc, hlocked]
    · rw [hlocked] at hc
      contradiction
  have hstar : chr '*' ∉ pushes js := by
    rw [hjs]
    intro hmem
    rcases List.mem_cons.1 hmem with heq | hmem
    · exact absurd heq (by decide)
    · exact (hkeyed.secret_spellable.keys _ hmem).2.1 rfl
  have hrun : comMain net wifi leadSw (is ++ js) =
      run (loopBody net) (comMain net wifi leadSw is) js := run_append _ _ _
  obtain ⟨hg, ht, hp⟩ := run_of_locked net js hd hl hstar
  have hreset := Password.wellFormed_press hkeyed.toWellFormed (chr '#')
  have hentry : ((comMain net wifi leadSw is).password.press (chr '#')).entry = [] := by
    simp [Password.entry_press hkeyed.toWellFormed]
  have hsecret : ((comMain net wifi leadSw is).password.press (chr '#')).secret =
      (comMain net wifi leadSw is).password.secret := by
    simp [Password.secret_press hkeyed.toWellFormed]
  obtain ⟨-, he, hs⟩ := entry_foldl_press hreset _
    fun b hb => (hkeyed.secret_spellable.keys b hb).2
  have hlen := hkeyed.secret_spellable.length_le
  rw [hjs, List.foldl_cons] at hp
  rw [← hp, ← hrun] at he hs
  rw [hentry, List.nil_append, List.take_of_length_le (by omega)] at he
  rw [hsecret] at hs
  rw [← hrun] at hg ht
  have hd' := ready_comMain net wifi leadSw (is ++ js)
  have hu : (comMain net wifi leadSw (is ++ js)).Unlocks net last := by
    rw [unlocks_iff net _ last hd'.wellFormed, pushedKey_of_locked net last hg, hlast, he, hs, ht]
    refine ⟨rfl, command_of_head hkeyed.secret_spellable.head, ?_, hstable, hweight⟩
    exact cstr_eq_self fun b hb => (hkeyed.secret_spellable.keys b hb).1
  constructor
  · have hne : is ++ js ≠ [] := by
      rintro heq
      rw [List.append_eq_nil_iff] at heq
      simp [heq.2, pushes] at hjs
    rw [(settled_comMain net wifi leadSw hne).settled, hg]
  · rw [comMain_concat, hd'.sm_loopBody, request_eq net _ last hd'.wellFormed, if_pos hu]

/-- Also after an entry that was too long to be stored whole. -/
theorem unlocked_of_pushes_overlong :
    let is := Input.idle false Input.noWeight :: Input.typing "0ABCDEFGHIJKLMNOPQRSTUVWXYZ*"
    let js := Input.typing "#ABC" ++ Input.idle true Input.noWeight :: Input.typing "DEFGHIJKLMNOPQR"
    let last := Input.pushing '*' true Input.fiftyKilos
    (comMain .silent .down false (is ++ js ++ [last])).sm.oldState = .unlocked := by
  intro is js last
  exact (unlocked_of_pushes .silent .down false is js last (by decide +kernel) (by decide +kernel)
    (by decide +kernel) (by decide +kernel) (by decide +kernel) (by decide +kernel)).2

end Device

end WeightScale
