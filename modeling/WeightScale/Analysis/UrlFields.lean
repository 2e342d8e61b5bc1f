import WeightScale.Model.HttpRequest

/-!
# The fields of a URL lie in it

`ParsedUrl` copies the fields of a URL out of it without asking whether the URL was right.
For any text whatever, also one on which the parser stopped halfway, each field that is set
lies within the text.
-/

set_option autoImplicit false

namespace WeightScale

open Embedded

namespace HttpParserUrl

section updates

variable (u : HttpParserUrl) (uf : UrlField)

/-- The field set is the one that was given. -/
@[simp] theorem field_set (f : FieldData) : (u.set uf f).field uf = some f :=
  Function.update_self _ _ _

/-- Setting a field leaves the others. -/
theorem field_set_of_ne {uf' : UrlField} (h : uf' ≠ uf) (f : FieldData) :
    (u.set uf f).field uf' = u.field uf' := Function.update_of_ne h _ _

/-- Extending a field adds a char to its length. -/
@[simp] theorem field_extend : (u.extend uf).field uf =
    (u.field uf).map fun f => { f with len := f.len + 1 } := Function.update_self _ _ _

/-- Extending a field leaves the others. -/
theorem field_extend_of_ne {uf' : UrlField} (h : uf' ≠ uf) :
    (u.extend uf).field uf' = u.field uf' := Function.update_of_ne h _ _

/-- A char marked for a field leaves the others. -/
theorem field_mark_of_ne {uf' : UrlField} (h : uf' ≠ uf) (first : Bool) (i : ℕ) :
    (u.mark first uf i).field uf' = u.field uf' := by
  cases first with
  | false => exact u.field_extend_of_ne uf h
  | true => exact u.field_set_of_ne uf h _

/-- Moving the host changes its offset. -/
@[simp] theorem field_moveHost (i : ℕ) : (u.moveHost i).field .host =
    (u.field .host).map fun f => { f with off := UInt16.ofNat i } := by
  simp [HttpParserUrl.moveHost]

/-- Moving the host leaves the other fields. -/
theorem field_moveHost_of_ne {uf' : UrlField} (h : uf' ≠ .host) (i : ℕ) :
    (u.moveHost i).field uf' = u.field uf' := Function.update_of_ne h _ _

end updates

/-- Those of the fields `fs` that are set lie in the first `n` chars. -/
def Within (fs : UrlField → Prop) (n : ℕ) (u : HttpParserUrl) : Prop :=
  ∀ uf f, fs uf → u.field uf = some f → f.off.toNat + f.len.toNat ≤ n

variable {fs : UrlField → Prop} {n i : ℕ} {u : HttpParserUrl}

/-- Fields within a text are within a longer one. -/
theorem Within.mono {m : ℕ} (h : Within fs n u) (hm : n ≤ m) : Within fs m u :=
  fun uf f hfs hf => Nat.le_trans (h uf f hfs hf) hm

/-- A `uint16_t` grows by one at most, as it may wrap. -/
theorem toNat_succ_le (x : UInt16) : (x + 1).toNat ≤ x.toNat + 1 := by
  rw [UInt16.toNat_add]
  exact Nat.mod_le _ _

/-- An offset taken as a `uint16_t` does not grow. -/
theorem toNat_ofNat_le (i : ℕ) : (UInt16.ofNat i).toNat ≤ i := by
  rw [UInt16.toNat_ofNat']
  exact Nat.mod_le _ _

/-- Setting a field within the text keeps all fields within. -/
theorem Within.set (h : Within fs n u) (uf : UrlField) {f : FieldData}
    (hf : f.off.toNat + f.len.toNat ≤ n) : Within fs n (u.set uf f) := by
  intro uf' f' hfs hf'
  by_cases huf : uf' = uf
  · rw [huf, field_set] at hf'
    obtain rfl := Option.some.inj hf'
    exact hf
  · rw [field_set_of_ne u uf huf] at hf'
    exact h uf' f' hfs hf'

/-- One more char keeps all fields within the text that has it. -/
theorem Within.extend (h : Within fs i u) (uf : UrlField) : Within fs (i + 1) (u.extend uf) := by
  intro uf' f' hfs hf'
  by_cases huf : uf' = uf
  · rw [huf, field_extend, Option.map_eq_some_iff] at hf'
    obtain ⟨f, hf, rfl⟩ := hf'
    have hbound := h uf f (huf ▸ hfs) hf
    have hlen := toNat_succ_le f.len
    show f.off.toNat + (f.len + 1).toNat ≤ i + 1
    omega
  · rw [field_extend_of_ne u uf huf] at hf'
    exact Nat.le_succ_of_le (h uf' f' hfs hf')

/-- A char marked keeps all fields within the text that has it. -/
theorem Within.mark (h : Within fs i u) (first : Bool) (uf : UrlField) :
    Within fs (i + 1) (u.mark first uf i) := by
  rw [HttpParserUrl.mark]
  cases first with
  | false => exact h.extend uf
  | true =>
    refine (h.mono (Nat.le_succ i)).set uf ?_
    have hoff := toNat_ofNat_le i
    show (UInt16.ofNat i).toNat + 1 ≤ i + 1
    omega

/-- The host has no chars yet. -/
def HostEmpty (u : HttpParserUrl) : Prop := ∀ f, u.field .host = some f → f.len = 0

/-- A char of another field leaves the host empty. -/
theorem HostEmpty.mark (h : HostEmpty u) {uf : UrlField} (huf : uf ≠ .host) (first : Bool) :
    HostEmpty (u.mark first uf i) := by
  intro f hf
  rw [u.field_mark_of_ne uf huf.symm] at hf
  exact h f hf

/-- An empty host may be moved to any offset read. -/
theorem within_moveHost (h : Within fs i u) (hempty : HostEmpty u) :
    Within fs i (u.moveHost i) := by
  intro uf f hfs hf
  by_cases huf : uf = .host
  · rw [huf, field_moveHost, Option.map_eq_some_iff] at hf
    obtain ⟨f', hf', rfl⟩ := hf
    show (UInt16.ofNat i).toNat + f'.len.toNat ≤ i
    rw [hempty f' hf']
    exact toNat_ofNat_le i
  · rw [u.field_moveHost_of_ne huf] at hf
    exact h uf f hfs hf

/-- The fields that a host is taken apart into. -/
def Authority (uf : UrlField) : Prop := uf = .host ∨ uf = .port ∨ uf = .userinfo

/-- A char of the authority leaves the fields outside of it. -/
theorem field_hostChar {uf : UrlField} (huf : ¬ Authority uf) (s s' : HostState) :
    (u.hostChar s s' i).field uf = u.field uf := by
  simp only [Authority, not_or] at huf
  have hmove (p : Prop) [Decidable p] :
      (if p then u.moveHost i else u).field uf = u.field uf := by
    split
    · exact u.field_moveHost_of_ne huf.1 i
    · rfl
  cases s' with
  | host => exact (field_extend_of_ne _ _ huf.1).trans (hmove _)
  | v6 => exact (field_extend_of_ne _ _ huf.1).trans (hmove _)
  | v6ZoneStart => exact u.field_extend_of_ne _ huf.1
  | v6Zone => exact u.field_extend_of_ne _ huf.1
  | port => exact u.field_mark_of_ne _ huf.2.1 _ _
  | userinfo => exact u.field_mark_of_ne _ huf.2.2 _ _
  | dead => rfl
  | userinfoStart => rfl
  | hostStart => rfl
  | v6Start => rfl
  | v6End => rfl
  | portStart => rfl

end HttpParserUrl

open HttpParserUrl

/-! ## The two loops -/

/-- A char that is read leads to the next state of the parser. -/
theorem next_of_read {c c' : UrlScan} {i : ℕ} {ch : Byte} (h : c.read i ch = some c') :
    c' = c.next (parseUrlChar c.s ch) i := by
  simp only [UrlScan.read] at h
  split at h
  · cases h
  · exact (Option.some.inj h).symm

/-- The parser keeps all fields within the text read, a refused one included. -/
theorem scanUrl_within {c : UrlScan} {i : ℕ} (h : Within (fun _ => True) i c.u) (l : Text) :
    Within (fun _ => True) (i + l.length) (scan UrlScan.read c i l).2.u := by
  refine scan_invariant (P := fun i (c : UrlScan) => Within (fun _ => True) i c.u)
    (fun i c hc => hc.mono (Nat.le_succ i)) ?_ h l
  intro i c ch c' hc hread
  rw [next_of_read hread, UrlScan.next]
  split
  · exact hc.mono (Nat.le_succ i)
  · exact hc.mark _ _

/-- The loop over a URL leaves the port and the user information alone. -/
theorem field_scanUrl {uf : UrlField} (huf : uf = .port ∨ uf = .userinfo) (c : UrlScan) (i : ℕ)
    (l : Text) : (scan UrlScan.read c i l).2.u.field uf = c.u.field uf := by
  refine scan_invariant (P := fun _ (c' : UrlScan) => c'.u.field uf = c.u.field uf) (fun _ _ hc => hc) ?_
    (rfl : c.u.field uf = c.u.field uf) (i := i) l
  intro i c₁ ch c' hc hread
  rw [next_of_read hread, UrlScan.next]
  split
  · exact hc
  · rename_i uf' hs
    refine (c₁.u.field_mark_of_ne uf' ?_ _ _).trans hc
    rintro rfl
    generalize parseUrlChar c₁.s ch = s at hs
    rcases huf with rfl | rfl
    · cases s <;> cases hs
    · cases s <;> cases hs

/-- The states in front of the host. -/
def HostState.early : HostState → Bool
  | .userinfoStart => true
  | .userinfo => true
  | .hostStart => true
  | .v6Start => true
  | _ => false

/-- Where the host starts, and in front of it, no char of it has been read. -/
theorem early_of_parseHostChar {s : HostState} {ch : Byte}
    (h : (parseHostChar s ch).early ∨ (parseHostChar s ch = .host ∧ s ≠ .host) ∨
      (parseHostChar s ch = .v6 ∧ s ≠ .v6)) : s.early := by
  revert h
  cases s <;> simp only [parseHostChar, parseHostChar.userinfo, parseHostChar.behind,
    parseHostChar.zone] <;> (try split_ifs) <;> simp [HostState.early]

/-- One char of the host. -/
theorem hostChar_within {s : HostState} {u : HttpParserUrl} {i : ℕ} (ch : Byte)
    (h : Within Authority i u) (hempty : s.early → HostEmpty u) :
    Within Authority (i + 1) (u.hostChar s (parseHostChar s ch) i) ∧
      ((parseHostChar s ch).early → HostEmpty (u.hostChar s (parseHostChar s ch) i)) := by
  have hearly := @early_of_parseHostChar s ch
  have hstay := h.mono (Nat.le_succ i)
  generalize parseHostChar s ch = s' at hearly
  cases s' with
  | host =>
    refine ⟨?_, fun hs' => by cases hs'⟩
    rw [hostChar]
    split
    · rename_i hs
      exact (within_moveHost h (hempty (hearly (.inr (.inl ⟨rfl, hs⟩))))).extend _
    · exact h.extend _
  | v6 =>
    refine ⟨?_, fun hs' => by cases hs'⟩
    rw [hostChar]
    split
    · rename_i hs
      exact (within_moveHost h (hempty (hearly (.inr (.inr ⟨rfl, hs⟩))))).extend _
    · exact h.extend _
  | v6ZoneStart => exact ⟨h.extend _, fun hs' => by cases hs'⟩
  | v6Zone => exact ⟨h.extend _, fun hs' => by cases hs'⟩
  | port => exact ⟨h.mark _ _, fun hs' => by cases hs'⟩
  | userinfo =>
    exact ⟨h.mark _ _, fun hs' => (hempty (hearly (.inl hs'))).mark (by decide) _⟩
  | dead => exact ⟨hstay, fun hs' => hempty (hearly (.inl hs'))⟩
  | userinfoStart => exact ⟨hstay, fun hs' => hempty (hearly (.inl hs'))⟩
  | hostStart => exact ⟨hstay, fun hs' => hempty (hearly (.inl hs'))⟩
  | v6Start => exact ⟨hstay, fun hs' => hempty (hearly (.inl hs'))⟩
  | v6End => exact ⟨hstay, fun hs' => hempty (hearly (.inl hs'))⟩
  | portStart => exact ⟨hstay, fun hs' => hempty (hearly (.inl hs'))⟩

/-- The parser of the authority keeps its fields within the text read. -/
theorem scanHost_within {c : HostScan} {i : ℕ} (h : Within Authority i c.u)
    (hempty : c.s.early → HostEmpty c.u) (l : Text) :
    Within Authority (i + l.length) (scan HostScan.read c i l).2.u ∧
      ∀ uf, ¬ Authority uf → (scan HostScan.read c i l).2.u.field uf = c.u.field uf := by
  have hstep (i : ℕ) (c₁ : HostScan) (ch : Byte) (c' : HostScan)
      (hc : (Within Authority i c₁.u ∧ (c₁.s.early → HostEmpty c₁.u)) ∧
        ∀ uf, ¬ Authority uf → c₁.u.field uf = c.u.field uf) (hread : c₁.read i ch = some c') :
      (Within Authority (i + 1) c'.u ∧ (c'.s.early → HostEmpty c'.u)) ∧
        ∀ uf, ¬ Authority uf → c'.u.field uf = c.u.field uf := by
    simp only [HostScan.read] at hread
    split at hread
    · cases hread
    · obtain rfl := Option.some.inj hread
      exact ⟨hostChar_within ch hc.1.1 hc.1.2,
        fun uf huf => (field_hostChar huf _ _).trans (hc.2 uf huf)⟩
  have hinv := scan_invariant
    (P := fun i (c' : HostScan) => (Within Authority i c'.u ∧ (c'.s.early → HostEmpty c'.u)) ∧
      ∀ uf, ¬ Authority uf → c'.u.field uf = c.u.field uf)
    (fun i c' hc => ⟨⟨hc.1.1.mono (Nat.le_succ i), hc.1.2⟩, hc.2⟩) hstep
    ⟨⟨h, hempty⟩, fun _ _ => rfl⟩ l
  exact ⟨hinv.1.1, hinv.2⟩

/-! ## The URL -/

/-- Splitting the authority keeps all fields within the text. -/
theorem httpParseHost_within {buf : Text} {u : HttpParserUrl} {host : FieldData}
    (h : Within (fun _ => True) buf.length u) (hhost : u.field .host = some host)
    (hport : u.field .port = none) (huserinfo : u.field .userinfo = none) (foundAt : Bool) :
    Within (fun _ => True) buf.length (httpParseHost buf u host foundAt).2 := by
  have hbound := h .host host trivial hhost
  have hstart : Within Authority host.off.toNat (u.set .host { host with len := 0 }) := by
    intro uf f huf hf
    rcases huf with rfl | rfl | rfl
    · rw [field_set] at hf
      obtain rfl := Option.some.inj hf
      exact Nat.le_refl _
    · rw [field_set_of_ne u _ (by decide), hport] at hf
      cases hf
    · rw [field_set_of_ne u _ (by decide), huserinfo] at hf
      cases hf
  have hempty : HostEmpty (u.set .host { host with len := 0 }) := by
    intro f hf
    rw [field_set] at hf
    obtain rfl := Option.some.inj hf
    rfl
  obtain ⟨hwithin, hframe⟩ := scanHost_within
    (c := ⟨if foundAt then .userinfoStart else .hostStart, u.set .host { host with len := 0 }⟩)
    hstart (fun _ => hempty) ((buf.take (host.off.toNat + host.len.toNat)).drop host.off.toNat)
  intro uf f _ hf
  by_cases huf : Authority uf
  · refine Nat.le_trans (hwithin uf f huf hf) ?_
    rw [List.length_drop, List.length_take]
    omega
  · rw [httpParseHost, hframe uf huf] at hf
    rw [field_set_of_ne u _ (fun heq => huf (.inl heq))] at hf
    exact h uf f trivial hf

/-- Reading the port moves no field. -/
theorem readPort_within {buf : Text} {u : HttpParserUrl}
    (h : Within (fun _ => True) buf.length u) :
    Within (fun _ => True) buf.length (u.readPort buf).2 := by
  rw [HttpParserUrl.readPort]
  split
  · exact h
  · dsimp only
    split
    · exact h
    · exact h

/-- **The fields of any text.** -/
theorem httpParserParseUrl_within (url : Text) :
    Within (fun _ => True) url.length (httpParserParseUrl url).2 := by
  have hstart : Within (fun _ => True) 0 (HttpParserUrl.mk 0 fun _ => none) :=
    fun uf f _ hf => by cases hf
  have hscan := scanUrl_within (c := { s := .spacesBeforeUrl }) hstart url
  have hport := field_scanUrl (.inl rfl) { s := .spacesBeforeUrl } 0 url
  have huserinfo := field_scanUrl (.inr rfl) { s := .spacesBeforeUrl } 0 url
  rw [Nat.zero_add] at hscan
  rw [httpParserParseUrl]
  generalize scan UrlScan.read { s := .spacesBeforeUrl } 0 url = r at hscan hport huserinfo
  dsimp only
  split
  · exact hscan
  · cases hhost : r.2.u.field .host with
    | none => exact hscan
    | some host =>
      have hparse := httpParseHost_within hscan hhost hport huserinfo r.2.foundAt
      dsimp only
      split
      · exact hparse
      · exact readPort_within hparse

end WeightScale
