import WeightScale.Analysis.UrlFields
import WeightScale.Interface.Url

/-!
# The authority of a URL

`http_parse_host` reads user information, host and port, in this order and each with its
delimiters, and finds each where it stands.
-/

set_option autoImplicit false

namespace WeightScale

open Embedded HttpParserUrl

namespace HttpParserUrl

variable {u : HttpParserUrl} {uf : UrlField}

/-- Extending a field just set is setting it one longer. -/
theorem extend_set (off len : UInt16) :
    (u.set uf ⟨off, len⟩).extend uf = u.set uf ⟨off, len + 1⟩ := by
  simp [HttpParserUrl.set, HttpParserUrl.extend]

/-- The first char of the host. -/
theorem extend_moveHost {off : UInt16} (h : u.field .host = some ⟨off, 0⟩) (i : ℕ) :
    (u.moveHost i).extend .host = u.set .host ⟨UInt16.ofNat i, 1⟩ := by
  simp [HttpParserUrl.set, HttpParserUrl.extend, HttpParserUrl.moveHost, h]

end HttpParserUrl

/-- Counting on in a `uint16_t`. -/
theorem ofNat_succ (k : ℕ) : UInt16.ofNat k + 1 = UInt16.ofNat (k + 1) :=
  (UInt16.ofNat_add k 1).symm

/-- The field `uf` is the text `t` at the offset `i`. -/
def HttpParserUrl.setText (u : HttpParserUrl) (uf : UrlField) (i : ℕ) (t : Text) :
    HttpParserUrl :=
  if t = [] then u else u.set uf ⟨UInt16.ofNat i, UInt16.ofNat t.length⟩

/-- A text that is not empty sets its field. -/
theorem HttpParserUrl.setText_of_ne (u : HttpParserUrl) (uf : UrlField) (i : ℕ) {t : Text}
    (ht : t ≠ []) : u.setText uf i t = u.set uf ⟨UInt16.ofNat i, UInt16.ofNat t.length⟩ :=
  if_neg ht

/-- A part all of whose chars lead to `s` is the field `uf` when its first char opens the
field and each of the others makes it longer. -/
theorem reads_hostField {s₀ s : HostState} {uf : UrlField} {u : HttpParserUrl} {i : ℕ} {t : Text}
    (hs : s ≠ .dead) (hopen : u.hostChar s₀ s i = u.set uf ⟨UInt16.ofNat i, 1⟩)
    (hextend : ∀ (u : HttpParserUrl) (j : ℕ), u.hostChar s s j = u.extend uf) (ht : t ≠ [])
    (hparse : ∀ ch ∈ t, parseHostChar s₀ ch = s ∧ parseHostChar s ch = s) :
    Reads HostScan.read ⟨s₀, u⟩ i t ⟨s, u.setText uf i t⟩ := by
  cases t with
  | nil => exact absurd rfl ht
  | cons ch t =>
    have hstep (k : ℕ) (ch' : Byte) (hch' : ch' ∈ t) :
        HostScan.read ⟨s, u.set uf ⟨UInt16.ofNat i, UInt16.ofNat (k + 1)⟩⟩ (i + 1 + k) ch' =
          some ⟨s, u.set uf ⟨UInt16.ofNat i, UInt16.ofNat (k + 1 + 1)⟩⟩ := by
      rw [HostScan.read, (hparse ch' (List.mem_cons_of_mem ch hch')).2, if_neg hs, hextend,
        extend_set, ofNat_succ]
    refine Reads.cons ?_ (Reads.chunk
      (f := fun k => HostScan.mk s (u.set uf ⟨UInt16.ofNat i, UInt16.ofNat (k + 1)⟩)) hstep)
    rw [HostScan.read, (hparse ch List.mem_cons_self).1, if_neg hs, hopen]
    rfl

/-- A delimiter is no part of a field. -/
theorem reads_hostDelimiter {s s' : HostState} {u : HttpParserUrl} {i : ℕ} {ch : Byte}
    (hparse : parseHostChar s ch = s') (hs' : s' ≠ .dead) (hchar : u.hostChar s s' i = u) :
    Reads HostScan.read ⟨s, u⟩ i [ch] ⟨s', u⟩ := by
  refine Reads.single ?_
  simp [HostScan.read, hparse, hs', hchar]

/-! ## The three parts -/

/-- What the chars of each class do, by trying all 256 of them. -/
theorem parseHostChar_classes : ∀ ch : Byte,
    (Byte.isUserinfoChar ch →
      parseHostChar .userinfoStart ch = .userinfo ∧ parseHostChar .userinfo ch = .userinfo) ∧
    (Byte.isHost false ch →
      parseHostChar .hostStart ch = .host ∧ parseHostChar .host ch = .host) ∧
    (Byte.isHost true ch →
      parseHostChar .v6Start ch = .v6 ∧ parseHostChar .v6 ch = .v6) ∧
    (Byte.isNum ch →
      parseHostChar .portStart ch = .port ∧ parseHostChar .port ch = .port) :=
  forall_byte (by decide +kernel)

/-- A decimal digit is a char between `0` and `9`. -/
theorem toNat_chr_of_mem_toDigits {n : ℕ} {c : Char} (hc : c ∈ Nat.toDigits 10 n) :
    (chr c).toNat = c.toNat ∧ 48 ≤ c.toNat ∧ c.toNat ≤ 57 := by
  have hdigit := Nat.isDigit_of_mem_toDigits (by decide) (by decide) hc
  simp only [Char.isDigit, Bool.and_eq_true, decide_eq_true_eq] at hdigit
  have hlow : 48 ≤ c.toNat := hdigit.1
  have hhigh : c.toNat ≤ 57 := hdigit.2
  refine ⟨?_, hlow, hhigh⟩
  show c.toNat % 256 = c.toNat
  omega

/-- The digits of a number are digits to the parser. -/
theorem isNum_digits {n : ℕ} : ∀ ch ∈ digits n, Byte.isNum ch := by
  intro ch hch
  obtain ⟨c, hc, rfl⟩ := List.mem_map.1 hch
  obtain ⟨hchr, hlow, hhigh⟩ := toNat_chr_of_mem_toDigits hc
  simp only [Byte.isNum, decide_eq_true_eq, UInt8.le_iff_toNat_le, hchr]
  exact ⟨hlow, hhigh⟩

/-- A number has a digit. -/
theorem digits_ne_nil (n : ℕ) : digits n ≠ [] := by
  rw [digits, Ne, List.map_eq_nil_iff]
  exact Nat.toDigits_ne_nil

namespace UrlParts

variable (p : UrlParts) (u : HttpParserUrl) (i : ℕ)

/-- The user information is read up to its `@`. -/
theorem reads_userinfo : Reads HostScan.read
    ⟨if p.userinfo.isSome then .userinfoStart else .hostStart, u⟩ i p.userinfoText
    ⟨.hostStart, u.setText .userinfo i (p.userinfo.getD [])⟩ := by
  rw [userinfoText]
  cases h : p.userinfo with
  | none => exact Reads.nil
  | some t =>
    have hchars := p.userinfo_chars t h
    by_cases ht : t = []
    · rw [ht]
      exact reads_hostDelimiter (by decide) (by decide) rfl
    · refine (reads_hostField (by decide) rfl (fun _ _ => rfl) ht
        fun ch hch => (parseHostChar_classes ch).1 (hchars ch hch)).append ?_
      exact reads_hostDelimiter (by decide) (by decide) rfl

/-- The host is read whole, in brackets or not, up to a colon or the end. -/
theorem reads_host {off : UInt16} (hu : u.field .host = some ⟨off, 0⟩) : ∃ s,
    (s.final ∧ parseHostChar s (chr ':') = .portStart) ∧
    Reads HostScan.read ⟨.hostStart, u⟩ i p.hostText
      ⟨s, u.setText .host (i + p.bracket.length) p.host⟩ := by
  have hchars := p.host_chars
  rw [hostText, bracket]
  cases hv6 : p.v6 with
  | false =>
    rw [hv6] at hchars
    refine ⟨.host, by decide, ?_⟩
    rw [if_neg (by decide), if_neg (by decide), List.nil_append, List.append_nil]
    exact reads_hostField (by decide) (extend_moveHost hu i) (fun _ _ => rfl) p.host_ne
      fun ch hch => (parseHostChar_classes ch).2.1 (hchars ch hch)
  | true =>
    rw [hv6] at hchars
    refine ⟨.v6End, by decide, ?_⟩
    rw [if_pos rfl, if_pos rfl]
    have hopen : Reads HostScan.read ⟨.hostStart, u⟩ i [chr '['] ⟨.v6Start, u⟩ :=
      reads_hostDelimiter (by decide) (by decide) rfl
    have hfield : Reads HostScan.read ⟨.v6Start, u⟩ (i + 1) p.host
        ⟨.v6, u.setText .host (i + 1) p.host⟩ :=
      reads_hostField (by decide) (extend_moveHost hu (i + 1)) (fun _ _ => rfl) p.host_ne
        fun ch hch => (parseHostChar_classes ch).2.2.1 (hchars ch hch)
    exact hopen.append (hfield.append (reads_hostDelimiter (by decide) (by decide) rfl))

/-- The digits of a port are read behind their colon. -/
theorem reads_port {s : HostState} (hs : s.final)
    (hcolon : parseHostChar s (chr ':') = .portStart) : ∃ s', s'.final ∧
    Reads HostScan.read ⟨s, u⟩ i (behind (chr ':') p.portDigits)
      ⟨s', u.setText .port (i + 1) (p.portDigits.getD [])⟩ := by
  rw [portDigits]
  cases p.port with
  | none => exact ⟨s, hs, Reads.nil⟩
  | some n =>
    refine ⟨.port, by decide, ?_⟩
    have hopen : Reads HostScan.read ⟨s, u⟩ i [chr ':'] ⟨.portStart, u⟩ :=
      reads_hostDelimiter hcolon (by decide) rfl
    exact hopen.append (reads_hostField (by decide) rfl (fun _ _ => rfl) (digits_ne_nil _)
      fun ch hch => (parseHostChar_classes ch).2.2.2 (isNum_digits ch hch))

/-- **The authority is taken apart.** -/
theorem httpParseHost_authority {pre post : Text} {host : FieldData}
    (hoff : host.off.toNat = pre.length) (hlen : host.len.toNat = p.authority.length) :
    httpParseHost (pre ++ (p.authority ++ post)) u host p.userinfo.isSome =
      (true, (((u.set .host { host with len := 0 }).setText .userinfo pre.length
        (p.userinfo.getD [])).setText .host (pre ++ p.userinfoText ++ p.bracket).length p.host).setText
          .port (pre ++ p.userinfoText ++ p.hostText ++ [chr ':']).length
            (p.portDigits.getD [])) := by
  have hslice : ((pre ++ (p.authority ++ post)).take (pre.length + p.authority.length)).drop
      pre.length = p.authority := by
    rw [List.take_length_add_append, List.drop_left, List.take_left]
  have huserinfo := p.reads_userinfo (u.set .host { host with len := 0 }) pre.length
  have hfield : ((u.set .host { host with len := 0 }).setText .userinfo pre.length
      (p.userinfo.getD [])).field .host = some ⟨host.off, 0⟩ := by
    rw [HttpParserUrl.setText]
    split
    · rw [field_set]
    · rw [field_set_of_ne _ _ (by decide), field_set]
  obtain ⟨s, ⟨hs, hcolon⟩, hhost⟩ := p.reads_host _ (pre.length + p.userinfoText.length) hfield
  obtain ⟨s', hs', hport⟩ := p.reads_port
    (((u.set .host { host with len := 0 }).setText .userinfo pre.length
      (p.userinfo.getD [])).setText .host
        (pre.length + p.userinfoText.length + p.bracket.length) p.host)
    (pre.length + p.userinfoText.length + p.hostText.length) hs hcolon
  have hscan := (huserinfo.append (hhost.append hport)).scan_eq
  rw [httpParseHost, hoff, hlen, hslice, authority, hscan]
  simp only [hs', Bool.and_self, List.length_append, List.length_singleton]

end UrlParts

end WeightScale
