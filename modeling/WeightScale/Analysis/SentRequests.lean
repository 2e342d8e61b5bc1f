import WeightScale.Analysis.HttpObjects
import WeightScale.Analysis.Requests

/-!
# What the program requests

The eight functions of `ThingSpeak.cpp` print numbers into their URLs. A weight that is no
number comes with blanks in front of it, and there the parser stops: the request is sent
without what stands behind. All other requests are sent as they were meant.
-/

set_option autoImplicit false

namespace WeightScale

open Embedded

/-! ## The chars of a number -/

/-- A digit may stand in a query. -/
theorem isQueryChar_of_isNum : ∀ ch : Byte, Byte.isNum ch → Byte.isQueryChar ch :=
  forall_byte (by decide +kernel)

/-- The digits of a number may stand in a query. -/
theorem isQueryChar_digits {n : ℕ} : ∀ ch ∈ digits n, Byte.isQueryChar ch :=
  fun ch hch => isQueryChar_of_isNum ch (isNum_digits ch hch)

/-- What `%d` prints may stand in a query. -/
theorem isQueryChar_fmtD {i : ℤ} : ∀ ch ∈ fmtD i, Byte.isQueryChar ch := by
  intro ch hch
  rcases List.mem_append.1 hch with hch | hch
  · split at hch
    · rw [List.mem_singleton.1 hch]
      decide
    · cases hch
  · exact isQueryChar_digits ch hch

/-- Padding with a char of a query keeps a text within the chars of a query. -/
theorem isQueryChar_padLeft {c : Byte} {width : ℕ} {t : Text} (hc : Byte.isQueryChar c)
    (ht : ∀ ch ∈ t, Byte.isQueryChar ch) : ∀ ch ∈ padLeft c width t, Byte.isQueryChar ch := by
  intro ch hch
  rcases List.mem_append.1 hch with hch | hch
  · rwa [(List.mem_replicate.1 hch).2]
  · exact ht ch hch

/-- The digits of a float may stand in a query. -/
theorem isQueryChar_fixedDigits {prec : ℕ} {x : Binary32} :
    ∀ ch ∈ fixedDigits prec x, Byte.isQueryChar ch := by
  intro ch hch
  rcases List.mem_append.1 hch with hch | hch
  · exact isQueryChar_digits ch hch
  · split at hch
    · cases hch
    · rcases List.mem_cons.1 hch with rfl | hch
      · decide
      · exact isQueryChar_padLeft (by decide) isQueryChar_digits ch hch

/-- The sign of a float may stand in a query. -/
theorem isQueryChar_sign {x : Binary32} :
    ∀ ch ∈ (if x.neg then [chr '-'] else [] : Text), Byte.isQueryChar ch := by
  intro ch hch
  split at hch
  · rw [List.mem_singleton.1 hch]
    decide
  · cases hch

/-- Neither a NaN nor infinite. -/
def IsNumber (x : Binary32) : Prop := x.isNaN = false ∧ x.isInf = false

instance (x : Binary32) : Decidable (IsNumber x) := inferInstanceAs (Decidable (_ ∧ _))

/-- `%.1f` prints no blanks. -/
theorem isQueryChar_fmtF_one {x : Binary32} : ∀ ch ∈ fmtF false 0 1 x, Byte.isQueryChar ch := by
  have hpad (t : Text) : padLeft (chr ' ') 0 t = t := by
    rw [padLeft, Nat.zero_sub]
    rfl
  have hnan : ∀ ch ∈ ascii "nan", Byte.isQueryChar ch := List.all_eq_true.1 (by decide)
  have hinf : ∀ ch ∈ ascii "inf", Byte.isQueryChar ch := List.all_eq_true.1 (by decide)
  intro ch hch
  simp only [fmtF, hpad, Bool.false_eq_true, if_false] at hch
  split at hch
  · rcases List.mem_append.1 hch with hch | hch
    · exact isQueryChar_sign ch hch
    · exact hnan ch hch
  · split at hch
    · rcases List.mem_append.1 hch with hch | hch
      · exact isQueryChar_sign ch hch
      · exact hinf ch hch
    · rcases List.mem_append.1 hch with hch | hch
      · exact isQueryChar_sign ch hch
      · exact isQueryChar_fixedDigits ch hch

/-- `%05.1f` of a number prints no blanks. -/
theorem isQueryChar_fmtF_five {x : Binary32} (hx : IsNumber x) :
    ∀ ch ∈ fmtF true 5 1 x, Byte.isQueryChar ch := by
  intro ch hch
  simp only [fmtF, hx.1, hx.2, Bool.false_eq_true, if_false, if_true] at hch
  rcases List.mem_append.1 hch with hch | hch
  · exact isQueryChar_sign ch hch
  · exact isQueryChar_padLeft (by decide) isQueryChar_fixedDigits ch hch

/-- `%05.1f` of anything else starts with a blank. -/
theorem fmtF_five_of_not_isNumber {x : Binary32} (hx : ¬ IsNumber x) :
    (∀ ch ∈ fmtF true 5 1 x, Byte.isQueryChar ch ∨ ch = chr ' ') ∧ chr ' ' ∈ fmtF true 5 1 x := by
  have htexts : ∀ t ∈ [ascii "  nan", ascii " -nan", ascii "  inf", ascii " -inf"],
      t.all (fun ch => Byte.isQueryChar ch || ch = chr ' ') ∧ chr ' ' ∈ t := by decide
  suffices hmem : fmtF true 5 1 x ∈ [ascii "  nan", ascii " -nan", ascii "  inf", ascii " -inf"] by
    refine ⟨fun ch hch => ?_, (htexts _ hmem).2⟩
    simpa using List.all_eq_true.1 (htexts _ hmem).1 ch hch
  have hnan (neg : Bool) : padLeft (chr ' ') 5 ((if neg then [chr '-'] else []) ++ ascii "nan") =
      if neg then ascii " -nan" else ascii "  nan" := by
    revert neg
    decide
  have hinf (neg : Bool) : padLeft (chr ' ') 5 ((if neg then [chr '-'] else []) ++ ascii "inf") =
      if neg then ascii " -inf" else ascii "  inf" := by
    revert neg
    decide
  simp only [fmtF, hnan, hinf]
  cases hisNaN : x.isNaN with
  | true => cases x.neg <;> simp
  | false =>
    cases hisInf : x.isInf with
    | true => cases x.neg <;> simp
    | false => exact absurd ⟨hisNaN, hisInf⟩ hx

/-! ## The URLs -/

namespace Io

namespace HttpCall

/-- The host of the service called. -/
def host : HttpCall → Text
  | .channelUpdate _ _ => ascii "api.thingspeak.com"
  | _ => ascii "maker.ifttt.com"

/-- The path of an event. -/
def trigger (name : Text) : Text := ascii "/trigger/" ++ name ++ key

/-- The path of the call in front of its query. -/
def path : HttpCall → Text
  | .channelUpdate _ _ => ascii "/update"
  | .notifyDietAchieved _ _ => trigger (ascii "NotifyDietAchieved")
  | .notifyDietNotAchieved _ _ _ => trigger (ascii "NotifyDietNotAchieved")
  | .notifyUnlockFailedInvalidPass => trigger (ascii "NotifyUnlockFailedInvalidPass")
  | .notifyUnlockFailedDoDiet => trigger (ascii "NotifyUnlockFailedDoDiet")
  | .notifyChangeTarget _ _ => trigger (ascii "NotifyChangeTarget")
  | .notifyLocked => trigger (ascii "NotifyLocked")
  | .notifyUnlocked => trigger (ascii "NotifyUnlocked")

/-- The query of the call, if it has one. -/
def query : HttpCall → Option Text
  | .channelUpdate field1 field2 => some (ascii "key=" ++ thingSpeakKey ++ ascii "&field1=" ++
      fmtF true 5 1 field1 ++ ascii "&field2=" ++ fmtF true 5 1 field2)
  | .notifyDietAchieved weight target => some (ascii "value1=" ++ fmtF false 0 1 target ++
      ascii "&value2=" ++ fmtF false 0 1 weight)
  | .notifyDietNotAchieved weight target diff => some (ascii "value1=" ++ fmtF false 0 1 target ++
      ascii "&value2=" ++ fmtF false 0 1 weight ++ ascii "&value3=" ++ fmtF false 0 1 diff)
  | .notifyChangeTarget oldTarget newTarget => some (ascii "value1=" ++ fmtD oldTarget.toInt ++
      ascii "&value2=" ++ fmtD newTarget.toInt)
  | _ => none

/-- The values that a call prints are numbers; `%.1f` prints also others without blanks. -/
def Clean : HttpCall → Prop
  | .channelUpdate field1 field2 => IsNumber field1 ∧ IsNumber field2
  | _ => True

/-- What is spelled behind the host. -/
def target (c : HttpCall) : Text := c.path ++ UrlParts.behind (chr '?') c.query

/-- The URL handed to the request. -/
def url (c : HttpCall) : Text := ascii "http://" ++ c.host ++ c.target

/-- What holds of the chars of two texts holds of those of both. -/
theorem all_append {P : Byte → Prop} {s t : Text} (hs : ∀ ch ∈ s, P ch) (ht : ∀ ch ∈ t, P ch) :
    ∀ ch ∈ s ++ t, P ch := by
  intro ch hch
  rcases List.mem_append.1 hch with hch | hch
  · exact hs ch hch
  · exact ht ch hch

/-- What holds of the chars of a query and of the two values of `ChannelUpdate` holds of all. -/
theorem all_query {P : Byte → Prop} (hP : ∀ ch, Byte.isQueryChar ch → P ch) (c : HttpCall)
    (hfields : ∀ field1 field2, c = .channelUpdate field1 field2 →
      (∀ ch ∈ fmtF true 5 1 field1, P ch) ∧ ∀ ch ∈ fmtF true 5 1 field2, P ch)
    {q : Text} (h : c.query = some q) : ∀ ch ∈ q, P ch := by
  have hquery {t : Text} (ht : ∀ ch ∈ t, Byte.isQueryChar ch) : ∀ ch ∈ t, P ch :=
    fun ch hch => hP ch (ht ch hch)
  have hone {x : Binary32} := hquery (isQueryChar_fmtF_one (x := x))
  have hint {i : Int32} := hquery (isQueryChar_fmtD (i := i.toInt))
  have hkey : ∀ ch ∈ ascii "key=" ++ thingSpeakKey ++ ascii "&field1=", P ch :=
    hquery (List.all_eq_true.1 (by decide))
  have hfield : ∀ ch ∈ ascii "&field2=", P ch := hquery (List.all_eq_true.1 (by decide))
  have hvalue₁ : ∀ ch ∈ ascii "value1=", P ch := hquery (List.all_eq_true.1 (by decide))
  have hvalue₂ : ∀ ch ∈ ascii "&value2=", P ch := hquery (List.all_eq_true.1 (by decide))
  have hvalue₃ : ∀ ch ∈ ascii "&value3=", P ch := hquery (List.all_eq_true.1 (by decide))
  cases c with
  | channelUpdate field1 field2 =>
    obtain rfl := Option.some.inj h
    obtain ⟨hfirst, hsecond⟩ := hfields field1 field2 rfl
    exact all_append (all_append (all_append hkey hfirst) hfield) hsecond
  | notifyDietAchieved weight target =>
    obtain rfl := Option.some.inj h
    exact all_append (all_append (all_append hvalue₁ hone) hvalue₂) hone
  | notifyDietNotAchieved weight target diff =>
    obtain rfl := Option.some.inj h
    exact all_append (all_append (all_append (all_append (all_append hvalue₁ hone) hvalue₂) hone)
      hvalue₃) hone
  | notifyChangeTarget oldTarget newTarget =>
    obtain rfl := Option.some.inj h
    exact all_append (all_append (all_append hvalue₁ hint) hvalue₂) hint
  | notifyUnlockFailedInvalidPass => cases h
  | notifyUnlockFailedDoDiet => cases h
  | notifyLocked => cases h
  | notifyUnlocked => cases h

/-- What `%05.1f` prints may stand in a query but for its blanks. -/
theorem spelled_five (x : Binary32) :
    ∀ ch ∈ fmtF true 5 1 x, Byte.isQueryChar ch ∨ ch = chr ' ' := by
  by_cases hx : IsNumber x
  · exact fun ch hch => .inl (isQueryChar_fmtF_five hx ch hch)
  · exact (fmtF_five_of_not_isNumber hx).1

/-- The query of a call holds chars of a query and blanks. -/
theorem spelled_query (c : HttpCall) {q : Text} (h : c.query = some q) :
    ∀ ch ∈ q, Byte.isQueryChar ch ∨ ch = chr ' ' :=
  c.all_query (fun _ => .inl) (fun field1 field2 _ => ⟨spelled_five field1, spelled_five field2⟩) h

/-- A query does not start with a blank. -/
theorem query_head (c : HttpCall) {q : Text} (h : c.query = some q) :
    ∃ ch t, q = ch :: t ∧ ch ≠ chr ' ' := by
  cases c with
  | channelUpdate field1 field2 =>
    obtain rfl := Option.some.inj h
    exact ⟨chr 'k', _, rfl, by decide⟩
  | notifyDietAchieved weight target =>
    obtain rfl := Option.some.inj h
    exact ⟨chr 'v', _, rfl, by decide⟩
  | notifyDietNotAchieved weight target diff =>
    obtain rfl := Option.some.inj h
    exact ⟨chr 'v', _, rfl, by decide⟩
  | notifyChangeTarget oldTarget newTarget =>
    obtain rfl := Option.some.inj h
    exact ⟨chr 'v', _, rfl, by decide⟩
  | notifyUnlockFailedInvalidPass => cases h
  | notifyUnlockFailedDoDiet => cases h
  | notifyLocked => cases h
  | notifyUnlocked => cases h

/-- The path of a trigger starts with a slash and is short. -/
theorem trigger_chars (e : Fin 7) : (trigger (event e)).head? = some (chr '/') ∧
    (∀ ch ∈ trigger (event e), Byte.isUrlChar ch) ∧ (trigger (event e)).length ≤ 200 := by
  revert e
  decide +kernel

/-- The path of an update starts with a slash and is short. -/
theorem update_chars : (ascii "/update").head? = some (chr '/') ∧
    (∀ ch ∈ ascii "/update", Byte.isUrlChar ch) ∧ (ascii "/update").length ≤ 200 :=
  ⟨by decide, List.all_eq_true.1 (by decide), by decide⟩

/-- The path of a call starts with a slash and is short. -/
theorem path_chars (c : HttpCall) : c.path.head? = some (chr '/') ∧
    (∀ ch ∈ c.path, Byte.isUrlChar ch) ∧ c.path.length ≤ 200 := by
  cases c with
  | channelUpdate field1 field2 => exact update_chars
  | notifyDietAchieved weight target => exact trigger_chars 0
  | notifyDietNotAchieved weight target diff => exact trigger_chars 1
  | notifyUnlockFailedInvalidPass => exact trigger_chars 2
  | notifyUnlockFailedDoDiet => exact trigger_chars 3
  | notifyChangeTarget oldTarget newTarget => exact trigger_chars 4
  | notifyLocked => exact trigger_chars 5
  | notifyUnlocked => exact trigger_chars 6

/-- The host of a call is not empty and short. -/
theorem host_chars (c : HttpCall) :
    c.host ≠ [] ∧ (∀ ch ∈ c.host, Byte.isHost false ch) ∧ c.host.length ≤ 20 := by
  have hmaker : ascii "maker.ifttt.com" ≠ [] ∧ (∀ ch ∈ ascii "maker.ifttt.com",
      Byte.isHost false ch) ∧ (ascii "maker.ifttt.com").length ≤ 20 :=
    ⟨by decide, List.all_eq_true.1 (by decide), by decide⟩
  have hapi : ascii "api.thingspeak.com" ≠ [] ∧ (∀ ch ∈ ascii "api.thingspeak.com",
      Byte.isHost false ch) ∧ (ascii "api.thingspeak.com").length ≤ 20 :=
    ⟨by decide, List.all_eq_true.1 (by decide), by decide⟩
  cases c with
  | channelUpdate field1 field2 => exact hapi
  | notifyDietAchieved weight target => exact hmaker
  | notifyDietNotAchieved weight target diff => exact hmaker
  | notifyUnlockFailedInvalidPass => exact hmaker
  | notifyUnlockFailedDoDiet => exact hmaker
  | notifyChangeTarget oldTarget newTarget => exact hmaker
  | notifyLocked => exact hmaker
  | notifyUnlocked => exact hmaker

/-- The query of a call has at most 300 chars. -/
theorem length_query (c : HttpCall) {q : Text} (h : c.query = some q) : q.length ≤ 300 := by
  have hone (x : Binary32) := Reached.length_decimal false (by decide : 0 ≤ 42) x
  have hfive (x : Binary32) := Reached.length_decimal true (by decide : 5 ≤ 42) x
  have hkey : (ascii "key=" ++ thingSpeakKey ++ ascii "&field1=").length ≤ 40 := by decide
  have hliterals : (ascii "&field2=").length = 8 ∧ (ascii "value1=").length = 7 ∧
      (ascii "&value2=").length = 8 ∧ (ascii "&value3=").length = 8 := by decide
  cases c with
  | channelUpdate field1 field2 =>
    obtain rfl := Option.some.inj h
    have h₁ := hfive field1
    have h₂ := hfive field2
    rw [List.length_append, List.length_append, List.length_append]
    omega
  | notifyDietAchieved weight target =>
    obtain rfl := Option.some.inj h
    have h₁ := hone target
    have h₂ := hone weight
    rw [List.length_append, List.length_append, List.length_append]
    omega
  | notifyDietNotAchieved weight target diff =>
    obtain rfl := Option.some.inj h
    have h₁ := hone target
    have h₂ := hone weight
    have h₃ := hone diff
    rw [List.length_append, List.length_append, List.length_append, List.length_append,
      List.length_append]
    omega
  | notifyChangeTarget oldTarget newTarget =>
    obtain rfl := Option.some.inj h
    have h₁ := length_fmtD_le oldTarget
    have h₂ := length_fmtD_le newTarget
    rw [List.length_append, List.length_append, List.length_append]
    omega
  | notifyUnlockFailedInvalidPass => cases h
  | notifyUnlockFailedDoDiet => cases h
  | notifyLocked => cases h
  | notifyUnlocked => cases h

/-! ## What is sent -/

/-- The URL up to its first blank. -/
def parts (c : HttpCall) : UrlParts where
  schema := ascii "http"
  userinfo := none
  host := c.host
  v6 := false
  port := none
  path := c.path
  query := c.query.map fun q => q.takeWhile (· ≠ chr ' ')
  fragment := none
  schema_ne := by decide
  schema_chars := List.all_eq_true.1 (by decide)
  userinfo_chars := nofun
  host_ne := c.host_chars.1
  host_chars := c.host_chars.2.1
  path_chars := c.path_chars.2.1
  path_slash := .inr c.path_chars.1
  query_chars := by
    intro t ht ch hch
    obtain ⟨q, hq, rfl⟩ := Option.map_eq_some_iff.1 ht
    rcases c.spelled_query hq ch ((List.takeWhile_prefix _).subset hch) with h | h
    · exact h
    · exact absurd h (by simpa using List.mem_takeWhile_imp hch)
  fragment_chars := nofun
  fragment_behind := fun h => absurd rfl h

/-- What stands behind the first blank, the blank with it. -/
def lost (c : HttpCall) : Text := (c.query.getD []).dropWhile (· ≠ chr ' ')

/-- What the request asks for. -/
def asked (c : HttpCall) : Text := c.path ++ UrlParts.behind (chr '?') c.parts.query

/-- What is spelled is what is asked for and what is lost. -/
theorem target_eq (c : HttpCall) : c.target = c.asked ++ c.lost := by
  rw [target, asked, lost, List.append_assoc]
  refine congrArg _ ?_
  show _ = UrlParts.behind _ (c.query.map _) ++ _
  cases c.query with
  | none => rfl
  | some q => exact congrArg (chr '?' :: ·) (List.takeWhile_append_dropWhile).symm

/-- The URL is its parts and what is lost. -/
theorem url_eq (c : HttpCall) : c.url = c.parts.text ++ c.lost := by
  have hschema : ascii "http" ++ ascii "://" = ascii "http://" := by decide
  have hserver : c.parts.authority = c.host := by
    show [] ++ (([] ++ (c.host ++ [])) ++ []) = c.host
    simp only [List.nil_append, List.append_nil]
  have htext : c.parts.text = ascii "http" ++ (ascii "://" ++ (c.host ++ (c.path ++
      (UrlParts.behind (chr '?') c.parts.query ++ [])))) := by
    rw [UrlParts.text, hserver]
    rfl
  rw [url, target_eq, asked, htext, List.append_nil, ← hschema]
  simp only [List.append_assoc]

/-- What is lost starts with a blank. -/
theorem lost_cases (c : HttpCall) : c.lost = [] ∨ ∃ t, c.lost = chr ' ' :: t := by
  have hhead := List.head?_dropWhile_not (fun ch : Byte => decide (ch ≠ chr ' ')) (c.query.getD [])
  rw [lost]
  cases h : (c.query.getD []).dropWhile (fun ch : Byte => decide (ch ≠ chr ' ')) with
  | nil => exact .inl rfl
  | cons ch t =>
    rw [h] at hhead
    have hch : ch = chr ' ' := by simpa using hhead
    exact .inr ⟨t, by rw [hch]⟩

/-- The URL is short enough for the offsets of the parser. -/
theorem length_url (c : HttpCall) : c.url.length < 2 ^ 16 := by
  have hhost := c.host_chars.2.2
  have hpath := c.path_chars.2.2
  have hhttp : (ascii "http://").length = 7 := by decide
  rw [url, target, List.length_append, List.length_append, List.length_append, hhttp]
  cases h : c.query with
  | none =>
    show 7 + c.host.length + (c.path.length + 0) < 2 ^ 16
    omega
  | some q =>
    have hquery := c.length_query h
    show 7 + c.host.length + (c.path.length + (q.length + 1)) < 2 ^ 16
    omega

/-- What a call sends asks for the target up to its first blank. -/
theorem sent (c : HttpCall) : httpRequest .get c.url [] =
    ⟨c.host, 80, some (UrlParts.getText c.host c.asked)⟩ := by
  have hquery : c.parts.query ≠ some [] := by
    intro h
    obtain ⟨q, hq, hempty⟩ := Option.map_eq_some_iff.1 h
    obtain ⟨ch, t, rfl, hch⟩ := c.query_head hq
    rw [List.takeWhile_cons_of_pos (by simpa using hch)] at hempty
    cases hempty
  have hpath : c.path ≠ [] := by
    intro h
    have hhead := c.path_chars.1
    rw [h] at hhead
    cases hhead
  have hlen := c.length_url
  rw [url_eq] at hlen ⊢
  exact c.parts.httpRequest_get ⟨rfl, rfl, rfl⟩ rfl hpath hquery c.lost_cases hlen

/-- What is asked for holds no blank. -/
theorem not_mem_asked (c : HttpCall) : chr ' ' ∉ c.asked := by
  intro hmem
  rcases List.mem_append.1 hmem with hmem | hmem
  · exact absurd (c.path_chars.2.1 _ hmem) (by decide)
  · change chr ' ' ∈ UrlParts.behind _ (c.query.map _) at hmem
    cases h : c.query with
    | none =>
      rw [h] at hmem
      cases hmem
    | some q =>
      rw [h] at hmem
      rcases List.mem_cons.1 hmem with hmem | hmem
      · exact absurd hmem (by decide)
      · exact absurd (List.mem_takeWhile_imp hmem) (by decide)

/-- What is asked for is what is meant, up to its first blank. -/
theorem takeWhile_target (c : HttpCall) : c.target.takeWhile (· ≠ chr ' ') = c.asked := by
  have hasked : ∀ ch ∈ c.asked, decide (ch ≠ chr ' ') = true := by
    intro ch hch
    refine decide_eq_true ?_
    rintro rfl
    exact c.not_mem_asked hch
  rw [target_eq, List.takeWhile_append_of_pos hasked]
  rcases c.lost_cases with h | ⟨t, h⟩
  · rw [h, List.takeWhile_nil, List.append_nil]
  · rw [h, List.takeWhile_cons_of_neg (by decide), List.append_nil]

/-- Something is lost exactly if the target holds a blank. -/
theorem blank_mem_target_iff (c : HttpCall) : chr ' ' ∈ c.target ↔ c.lost ≠ [] := by
  rw [target_eq, List.mem_append, or_iff_right c.not_mem_asked]
  constructor
  · exact List.ne_nil_of_mem
  · intro hne
    rcases c.lost_cases with h | ⟨t, h⟩
    · exact absurd h hne
    · rw [h]
      exact List.mem_cons_self

/-- Nothing is lost of a call whose values are numbers, and only of such a one. -/
theorem lost_eq_nil_iff (c : HttpCall) : c.lost = [] ↔ c.Clean := by
  rw [lost, List.dropWhile_eq_nil_iff]
  constructor
  · intro h
    cases c with
    | channelUpdate field1 field2 =>
      have hblank : ∀ t : Text, (chr ' ' ∈ t → chr ' ' ∈ (query (.channelUpdate field1 field2)).getD []) →
          chr ' ' ∉ t := fun t ht hmem => by simpa using h _ (ht hmem)
      constructor
      · by_contra hx
        refine hblank _ (fun hmem => ?_) (fmtF_five_of_not_isNumber hx).2
        exact List.mem_append_left _ (List.mem_append_left _ (List.mem_append_right _ hmem))
      · by_contra hx
        refine hblank _ (fun hmem => ?_) (fmtF_five_of_not_isNumber hx).2
        exact List.mem_append_right _ hmem
    | _ => trivial
  · intro hclean ch hch
    have hne : ∀ ch : Byte, Byte.isQueryChar ch → ch ≠ chr ' ' := by
      rintro _ h rfl
      exact absurd h (by decide)
    cases h : c.query with
    | none =>
      rw [h] at hch
      cases hch
    | some q =>
      rw [h] at hch
      have hall := c.all_query (P := fun ch => ch ≠ chr ' ') hne (by
        rintro field1 field2 rfl
        exact ⟨fun ch hch => hne ch (isQueryChar_fmtF_five hclean.1 ch hch),
          fun ch hch => hne ch (isQueryChar_fmtF_five hclean.2 ch hch)⟩) h
      simpa using hall ch hch

end HttpCall

/-! ## Runs -/

/-- The URL that an event requests. -/
def eventUrl : Event → Option Text
  | .http _ (.new url) => some url
  | _ => none

/-- The URLs of the requests made so far. -/
def urls (io : Io) : List Text := io.log.filterMap eventUrl

/-- The URLs behind some events follow from those before by the events alone. -/
theorem urls_append {io io' : Io} {events : List Event} (h : io'.log = io.log ++ events) :
    io'.urls = io.urls ++ events.filterMap eventUrl := by
  rw [urls, h, List.filterMap_append]
  rfl

/-- One event adds the URL it asks for. -/
theorem urls_emit (io : Io) (e : Event) : (io.emit e).urls = io.urls ++ [e].filterMap eventUrl :=
  urls_append rfl

/-- An event that is no request adds no URL. -/
theorem urls_emit_of_none (io : Io) {e : Event} (h : eventUrl e = none) :
    (io.emit e).urls = io.urls := by
  rw [urls_emit, List.filterMap_cons_none h]
  exact List.append_nil _

/-- Printing asks for no URL. -/
theorem urls_printf2 (t : Text) (io : Io) : (io.printf2 t).urls = io.urls := by
  have hfills : ∀ toks : List Text, (toks.map (Event.fill .oledRow)).filterMap eventUrl = [] := by
    intro toks
    induction toks with
    | nil => rfl
    | cons tok toks ih => exact ih
  obtain ⟨rows, hlog⟩ := log_printf2 t io
  rw [urls_append hlog, List.filterMap_cons_none rfl, List.filterMap_cons_none rfl,
    List.filterMap_append, hfills]
  exact List.append_nil _

/-- One request is made, whatever comes back. -/
theorem urls_httpGet (net : Net) (url : Text) (io : Io) :
    (io.httpGet net url).urls = io.urls ++ [url] := by
  have hsent (sent : Io) : (({ sent.emit (.http sent.requests (.new url)) with
      requests := sent.requests + 1 } : Io).emit (.http sent.requests .send)).urls =
      sent.urls ++ [url] := by
    rw [urls_emit_of_none _ rfl]
    exact urls_emit sent _
  have hfront : (printf2 (ascii "\n----- HTTP GET request -----\n") (printf2
      (ascii "Request to " ++ url ++ ascii "\r\n") (io.sprintf .urlBuffer url))).urls =
      io.urls := by
    rw [urls_printf2, urls_printf2]
    exact urls_emit_of_none io rfl
  unfold Io.httpGet
  dsimp only
  split
  · rw [urls_printf2, urls_emit_of_none _ rfl, hsent, hfront]
  · rw [urls_emit_of_none _ rfl, urls_printf2, urls_emit_of_none _ rfl, urls_printf2, hsent, hfront]

/-- The URL that a function prints is the one of its call. -/
theorem urls_httpCall (net : Net) (io : Io) (c : HttpCall) :
    (io.httpCall net c).urls = io.urls ++ [c.url] := by
  have hcall (f : Call) {url url' : Text} (h : url = url') :
      ((io.call f).httpGet net url).urls = io.urls ++ [url'] := by
    rw [urls_httpGet, h]
    exact congrArg (· ++ [url']) (urls_emit_of_none io rfl)
  have hupdate : thingSpeakUrl =
      ascii "http://" ++ (ascii "api.thingspeak.com" ++ ascii "/update") := by decide
  have hbase : base = ascii "http://" ++ (ascii "maker.ifttt.com" ++ ascii "/trigger/") := by
    decide
  have hachieved : event 0 = ascii "NotifyDietAchieved" := rfl
  have hnotAchieved : event 1 = ascii "NotifyDietNotAchieved" := rfl
  have hchange : event 4 = ascii "NotifyChangeTarget" := rfl
  have hkey : ascii "?key=" = chr '?' :: ascii "key=" := by decide
  have hvalue : ascii "?value1=" = chr '?' :: ascii "value1=" := by decide
  have hplain (e : Fin 7) : base ++ event e ++ key =
      ascii "http://" ++ ascii "maker.ifttt.com" ++ (HttpCall.trigger (event e) ++ []) := by
    simp only [hbase, HttpCall.trigger, List.append_assoc, List.append_nil]
  cases c with
  | channelUpdate field1 field2 =>
    refine hcall _ ?_
    simp only [HttpCall.url, HttpCall.target, HttpCall.host, HttpCall.path, HttpCall.query,
      UrlParts.behind, hupdate, hkey, List.append_assoc, List.cons_append]
  | notifyDietAchieved weight target =>
    refine hcall _ ?_
    simp only [HttpCall.url, HttpCall.target, HttpCall.host, HttpCall.path, HttpCall.query,
      HttpCall.trigger, UrlParts.behind, hbase, hvalue, hachieved, List.append_assoc,
      List.cons_append]
  | notifyDietNotAchieved weight target diff =>
    refine hcall _ ?_
    simp only [HttpCall.url, HttpCall.target, HttpCall.host, HttpCall.path, HttpCall.query,
      HttpCall.trigger, UrlParts.behind, hbase, hvalue, hnotAchieved, List.append_assoc,
      List.cons_append]
  | notifyChangeTarget oldTarget newTarget =>
    refine hcall _ ?_
    simp only [HttpCall.url, HttpCall.target, HttpCall.host, HttpCall.path, HttpCall.query,
      HttpCall.trigger, UrlParts.behind, hbase, hvalue, hchange, List.append_assoc,
      List.cons_append]
  | notifyUnlockFailedInvalidPass => exact hcall _ (hplain 2)
  | notifyUnlockFailedDoDiet => exact hcall _ (hplain 3)
  | notifyLocked => exact hcall _ (hplain 5)
  | notifyUnlocked => exact hcall _ (hplain 6)

/-- Calls in a row ask for their URLs in that order. -/
theorem urls_run (net : Net) (io : Io) (cs : List HttpCall) :
    (run (httpCall net) io cs).urls = io.urls ++ cs.map HttpCall.url := by
  induction cs generalizing io with
  | nil => exact (List.append_nil _).symm
  | cons c cs ih =>
    rw [run_cons, ih, urls_httpCall, List.append_assoc]
    rfl

/-- **What is sent for the calls of a run.** Each call makes one request, for its own URL. What
is sent for it is a whole request up to the first blank of the URL, and there is no blank if
and only if the values of `ChannelUpdate` are numbers. -/
theorem requests_sent (net : Net) (io : Io) (cs : List HttpCall) :
    (run (httpCall net) io cs).urls = io.urls ++ cs.map HttpCall.url ∧
      ∀ c : HttpCall, httpRequest .get c.url [] =
          ⟨c.host, 80, some (UrlParts.getText c.host (c.target.takeWhile (· ≠ chr ' ')))⟩ ∧
        (chr ' ' ∉ c.target ↔ c.Clean) := by
  refine ⟨urls_run net io cs, fun c => ⟨?_, ?_⟩⟩
  · rw [c.takeWhile_target]
    exact c.sent
  · rw [c.blank_mem_target_iff, not_not]
    exact c.lost_eq_nil_iff

end Io

end WeightScale
