import Mathlib.Data.List.Basic
import WeightScale.Analysis.UrlHost

/-!
# A URL is taken apart into what it was made of

The loop over a URL reads it part by part. A part is one field, whose first char opens it;
a delimiter belongs to none. What comes out for a URL that is put together from parts are
these parts.
-/

set_option autoImplicit false

namespace WeightScale

open Embedded HttpParserUrl

/-! ## One char -/

/-- A char of a field is marked for it. -/
theorem read_field {c : UrlScan} {s : UrlState} {uf : UrlField} {i : ℕ} {ch : Byte}
    (hparse : parseUrlChar c.s ch = s) (huf : s.field = some uf) : c.read i ch =
      some ⟨s, some uf, c.foundAt || s = .serverWithAt, c.u.mark (c.oldUf ≠ some uf) uf i⟩ := by
  have hs : s ≠ .dead := by
    rintro rfl
    cases huf
  rw [UrlScan.read, hparse, if_neg hs, UrlScan.next, huf]

/-- A delimiter moves the parser on and is in no field. -/
theorem read_delimiter {c : UrlScan} {s : UrlState} {i : ℕ} {ch : Byte}
    (hparse : parseUrlChar c.s ch = s) (hs : s ≠ .dead) (huf : s.field = none) :
    c.read i ch = some { c with s := s } := by
  rw [UrlScan.read, hparse, if_neg hs, UrlScan.next, huf]

/-- Reading a delimiter alone. -/
theorem reads_delimiter {c : UrlScan} {s : UrlState} {i : ℕ} {ch : Byte}
    (hparse : parseUrlChar c.s ch = s) (hs : s ≠ .dead) (huf : s.field = none) :
    Reads UrlScan.read c i [ch] { c with s := s } :=
  Reads.single (read_delimiter hparse hs huf)

/-! ## One part -/

section parts

variable {s s₀ : UrlState} {uf : UrlField} {old : Option UrlField} {foundAt : Bool}
  {u : HttpParserUrl} {i n : ℕ} {off : UInt16} {ch : Byte} {t : Text}

/-- Chars that leave the state as it is make the field longer. -/
theorem reads_stay (huf : s.field = some uf) (hat : s ≠ .serverWithAt)
    (hparse : ∀ ch ∈ t, parseUrlChar s ch = s) :
    Reads UrlScan.read ⟨s, some uf, foundAt, u.set uf ⟨off, UInt16.ofNat n⟩⟩ i t
      ⟨s, some uf, foundAt, u.set uf ⟨off, UInt16.ofNat (n + t.length)⟩⟩ := by
  refine Reads.chunk
    (f := fun k => UrlScan.mk s (some uf) foundAt (u.set uf ⟨off, UInt16.ofNat (n + k)⟩)) ?_
  intro k ch hch
  refine (read_field (hparse ch hch) huf).trans ?_
  simp only [hat, decide_false, Bool.or_false, ne_eq, not_true_eq_false, HttpParserUrl.mark,
    Bool.false_eq_true, if_false, extend_set, ofNat_succ, Nat.add_assoc]

/-- One more char of the field that has been read last. -/
theorem read_more (huf : s.field = some uf) (hfirst : parseUrlChar s₀ ch = s) :
    UrlScan.read ⟨s₀, some uf, foundAt, u.set uf ⟨off, UInt16.ofNat n⟩⟩ i ch =
      some ⟨s, some uf, foundAt || s = .serverWithAt,
        u.set uf ⟨off, UInt16.ofNat (n + 1)⟩⟩ := by
  refine (read_field hfirst huf).trans ?_
  simp only [ne_eq, not_true_eq_false, decide_false, HttpParserUrl.mark, Bool.false_eq_true,
    if_false, extend_set, ofNat_succ]

/-- The first char of a field. -/
theorem read_first (huf : s.field = some uf) (hold : old ≠ some uf)
    (hfirst : parseUrlChar s₀ ch = s) :
    UrlScan.read ⟨s₀, old, foundAt, u⟩ i ch =
      some ⟨s, some uf, foundAt || s = .serverWithAt,
        u.set uf ⟨UInt16.ofNat i, UInt16.ofNat 1⟩⟩ := by
  refine (read_field hfirst huf).trans ?_
  simp only [ne_eq, hold, not_false_eq_true, decide_true, HttpParserUrl.mark, if_true,
    UInt16.ofNat_one]

/-- A part all of whose chars belong to one field. -/
theorem reads_field (huf : s.field = some uf) (hat : s ≠ .serverWithAt) (hold : old ≠ some uf)
    (hfirst : parseUrlChar s₀ ch = s) (hparse : ∀ ch ∈ t, parseUrlChar s ch = s) :
    Reads UrlScan.read ⟨s₀, old, foundAt, u⟩ i (ch :: t)
      ⟨s, some uf, foundAt, u.setText uf i (ch :: t)⟩ := by
  have hread : UrlScan.read ⟨s₀, old, foundAt, u⟩ i ch =
      some ⟨s, some uf, foundAt, u.set uf ⟨UInt16.ofNat i, UInt16.ofNat 1⟩⟩ := by
    rw [read_first huf hold hfirst, decide_eq_false hat, Bool.or_false]
  rw [u.setText_of_ne uf i (List.cons_ne_nil ch t), List.length_cons, Nat.add_comm t.length]
  exact Reads.cons hread (reads_stay huf hat hparse)

end parts

/-! ## The parts of a URL -/

/-- The chars of an authority, the `'@'` apart. -/
def Byte.isServerChar (ch : Byte) : Bool := isUserinfoChar ch || ch = chr '[' || ch = chr ']'

/-- What the chars of each class do, by trying all 256 of them. -/
theorem parseUrlChar_classes : ∀ ch : Byte,
    (Byte.isAlpha ch →
      parseUrlChar .spacesBeforeUrl ch = .schema ∧ parseUrlChar .schema ch = .schema) ∧
    (Byte.isServerChar ch →
      parseUrlChar .serverStart ch = .server ∧ parseUrlChar .serverWithAt ch = .server ∧
        parseUrlChar .server ch = .server) ∧
    (Byte.isUrlChar ch → parseUrlChar .path ch = .path) ∧
    (Byte.isQueryChar ch →
      parseUrlChar .queryStringStart ch = .queryString ∧
        parseUrlChar .queryString ch = .queryString) ∧
    (Byte.isFragmentChar ch →
      parseUrlChar .fragmentStart ch = (if ch = chr '#' then .fragmentStart else .fragment) ∧
        parseUrlChar .fragment ch = .fragment) ∧
    (Byte.isUserinfoChar ch || Byte.isHost false ch || Byte.isHost true ch || Byte.isNum ch →
      Byte.isServerChar ch) :=
  forall_byte (by decide +kernel)

/-- Letters are read as the schema. -/
theorem parseUrlChar_schema {ch : Byte} (h : Byte.isAlpha ch) :
    parseUrlChar .spacesBeforeUrl ch = .schema ∧ parseUrlChar .schema ch = .schema :=
  (parseUrlChar_classes ch).1 h

/-- Chars of a server are read as the server, first or later. -/
theorem parseUrlChar_server {ch : Byte} (h : Byte.isServerChar ch) :
    parseUrlChar .serverStart ch = .server ∧ parseUrlChar .serverWithAt ch = .server ∧
      parseUrlChar .server ch = .server :=
  (parseUrlChar_classes ch).2.1 h

/-- Chars of a path are read as the path. -/
theorem parseUrlChar_path {ch : Byte} (h : Byte.isUrlChar ch) : parseUrlChar .path ch = .path :=
  (parseUrlChar_classes ch).2.2.1 h

/-- Chars of a query are read as the query, first or later. -/
theorem parseUrlChar_query {ch : Byte} (h : Byte.isQueryChar ch) :
    parseUrlChar .queryStringStart ch = .queryString ∧
      parseUrlChar .queryString ch = .queryString :=
  (parseUrlChar_classes ch).2.2.2.1 h

/-- Chars of a fragment are read as the fragment, but for `#` at its front. -/
theorem parseUrlChar_fragment {ch : Byte} (h : Byte.isFragmentChar ch) :
    parseUrlChar .fragmentStart ch = (if ch = chr '#' then .fragmentStart else .fragment) ∧
      parseUrlChar .fragment ch = .fragment :=
  (parseUrlChar_classes ch).2.2.2.2.1 h

/-- Chars of the user information may stand in a server. -/
theorem isServerChar_of_isUserinfoChar {ch : Byte} (h : Byte.isUserinfoChar ch) :
    Byte.isServerChar ch :=
  (parseUrlChar_classes ch).2.2.2.2.2 (by simp [h])

/-- Chars of a host may stand in a server. -/
theorem isServerChar_of_isHost {v6 : Bool} {ch : Byte} (h : Byte.isHost v6 ch) :
    Byte.isServerChar ch := by
  cases v6 with
  | false => exact (parseUrlChar_classes ch).2.2.2.2.2 (by simp [h])
  | true => exact (parseUrlChar_classes ch).2.2.2.2.2 (by simp [h])

/-- Digits may stand in a server. -/
theorem isServerChar_of_isNum {ch : Byte} (h : Byte.isNum ch) : Byte.isServerChar ch :=
  (parseUrlChar_classes ch).2.2.2.2.2 (by simp [h])

namespace UrlParts

variable (p : UrlParts)

/-- What stands behind the user information. -/
def server : Text := p.hostText ++ behind (chr ':') p.portDigits

/-- The authority is the user information in front of the server. -/
theorem authority_eq : p.authority = p.userinfoText ++ p.server := rfl

/-- The server is not empty, as the host is not. -/
theorem server_ne : p.server ≠ [] := by
  intro h
  simp only [server, hostText, List.append_eq_nil_iff] at h
  exact p.host_ne h.1.2.1

/-- All chars of host and port may stand in a server. -/
theorem isServerChar_server : ∀ ch ∈ p.server, Byte.isServerChar ch := by
  intro ch hch
  simp only [server, hostText, List.mem_append] at hch
  rcases hch with (hch | hch | hch) | hch
  · rw [bracket] at hch
    split at hch
    · rw [List.mem_singleton.1 hch]
      decide
    · cases hch
  · exact isServerChar_of_isHost (p.host_chars ch hch)
  · split at hch
    · rw [List.mem_singleton.1 hch]
      decide
    · cases hch
  · rw [portDigits] at hch
    cases hport : p.port with
    | none =>
      rw [hport] at hch
      cases hch
    | some n =>
      rw [hport] at hch
      rcases List.mem_cons.1 hch with rfl | hch
      · decide
      · exact isServerChar_of_isNum (isNum_digits ch hch)

/-- The `'@'`, where `n` chars of the field have been read with it, and what is behind it. -/
theorem reads_at {c : UrlScan} {u : HttpParserUrl} {off : UInt16} {i n : ℕ}
    (hread : c.read i (chr '@') =
      some ⟨.serverWithAt, some .host, true, u.set .host ⟨off, UInt16.ofNat n⟩⟩) :
    Reads UrlScan.read c i (chr '@' :: p.server)
      ⟨.server, some .host, true, u.set .host ⟨off, UInt16.ofNat (n + p.server.length)⟩⟩ := by
  have hchars := p.isServerChar_server
  refine Reads.cons hread ?_
  cases hserver : p.server with
  | nil => exact absurd hserver p.server_ne
  | cons ch t =>
    rw [hserver] at hchars
    have hfirst := parseUrlChar_server (hchars ch List.mem_cons_self)
    have hrest (ch : Byte) (hch : ch ∈ t) :=
      (parseUrlChar_server (hchars ch (List.mem_cons_of_mem _ hch))).2.2
    rw [List.length_cons, Nat.add_comm t.length, ← Nat.add_assoc]
    exact Reads.cons (read_more rfl hfirst.2.1) (reads_stay rfl (by decide) hrest)

/-- The authority is read as one field, the host. -/
theorem reads_authority (u : HttpParserUrl) (i : ℕ) :
    Reads UrlScan.read ⟨.serverStart, some .schema, false, u⟩ i p.authority
      ⟨.server, some .host, p.userinfo.isSome, u.setText .host i p.authority⟩ := by
  have hne : p.authority ≠ [] := by
    rw [authority_eq, Ne, List.append_eq_nil_iff]
    exact fun h => p.server_ne h.2
  rw [u.setText_of_ne _ _ hne, authority_eq, userinfoText]
  cases h : p.userinfo with
  | none =>
    have hchars := p.isServerChar_server
    cases hserver : p.server with
    | nil => exact absurd hserver p.server_ne
    | cons ch t =>
      rw [hserver] at hchars
      exact reads_field rfl (by decide) (by decide)
        (parseUrlChar_server (hchars ch List.mem_cons_self)).1
        fun ch hch => (parseUrlChar_server (hchars ch (List.mem_cons_of_mem _ hch))).2.2
  | some t =>
    have hchars := p.userinfo_chars t h
    rw [List.append_assoc, List.length_append]
    cases t with
    | nil =>
      rw [List.length_append, List.length_nil, Nat.zero_add]
      exact p.reads_at (read_first rfl (by decide) (by decide))
    | cons ch t =>
      have hparse (ch' : Byte) (hch' : ch' ∈ ch :: t) :=
        parseUrlChar_server (isServerChar_of_isUserinfoChar (hchars ch' hch'))
      have huser : Reads UrlScan.read ⟨.serverStart, some .schema, false, u⟩ i (ch :: t)
          ⟨.server, some .host, false, u.setText .host i (ch :: t)⟩ :=
        reads_field rfl (by decide) (by decide) (hparse ch List.mem_cons_self).1
          fun ch' hch' => (hparse ch' (List.mem_cons_of_mem ch hch')).2.2
      rw [List.length_append, List.length_singleton, ← Nat.add_assoc]
      exact huser.append (p.reads_at (read_more rfl (by decide)))

/-! The path and what stands behind it. -/

/-- The path is read as its field, or there is none. -/
theorem reads_path (foundAt : Bool) (u : HttpParserUrl) (i : ℕ) : ∃ s old,
    ((p.path = [] ∧ s = .server) ∨ (p.path ≠ [] ∧ s = .path)) ∧
    (old = some .host ∨ old = some .path) ∧
    Reads UrlScan.read ⟨.server, some .host, foundAt, u⟩ i p.path
      ⟨s, old, foundAt, u.setText .path i p.path⟩ := by
  have hchars := p.path_chars
  have hslash := p.path_slash
  cases h : p.path with
  | nil => exact ⟨.server, some .host, .inl ⟨rfl, rfl⟩, .inl rfl, Reads.nil⟩
  | cons ch t =>
    rw [h] at hchars hslash
    have hch : ch = chr '/' := by simpa using hslash
    refine ⟨.path, some .path, .inr ⟨List.cons_ne_nil ch t, rfl⟩, .inr rfl, ?_⟩
    exact reads_field rfl (by decide) (by decide) (by rw [hch]; decide)
      fun ch hch => parseUrlChar_path (hchars ch (List.mem_cons_of_mem _ hch))

/-- The query is read behind its `?`, or there is none. -/
theorem reads_query {c : UrlScan} (hs : c.s = .server ∨ c.s = .path)
    (hold : c.oldUf = some .host ∨ c.oldUf = some .path) (i : ℕ) : ∃ s old,
    ((p.query = none ∧ s = c.s) ∨ (p.query ≠ none ∧ (s = .queryStringStart ∨ s = .queryString))) ∧
    old ≠ some .fragment ∧
    Reads UrlScan.read c i (behind (chr '?') p.query)
      ⟨s, old, c.foundAt, c.u.setText .query (i + 1) (p.query.getD [])⟩ := by
  have hfragment : c.oldUf ≠ some .fragment := by
    rcases hold with h | h <;> rw [h] <;> decide
  have hquery : c.oldUf ≠ some .query := by
    rcases hold with h | h <;> rw [h] <;> decide
  have hmark : parseUrlChar c.s (chr '?') = .queryStringStart := by
    rcases hs with h | h <;> rw [h] <;> decide
  cases h : p.query with
  | none => exact ⟨c.s, c.oldUf, .inl ⟨rfl, rfl⟩, hfragment, Reads.nil⟩
  | some t =>
    have hchars := p.query_chars t h
    have hopen := reads_delimiter (i := i) hmark (by decide) rfl
    cases t with
    | nil =>
      exact ⟨.queryStringStart, c.oldUf, .inr ⟨nofun, .inl rfl⟩, hfragment, hopen⟩
    | cons ch t =>
      refine ⟨.queryString, some .query, .inr ⟨nofun, .inr rfl⟩, by decide, ?_⟩
      exact hopen.append (reads_field rfl (by decide) hquery
        (parseUrlChar_query (hchars ch List.mem_cons_self)).1
        fun ch hch => (parseUrlChar_query (hchars ch (List.mem_cons_of_mem _ hch))).2)

/-- The fragment is read behind its `#`, or there is none. -/
theorem reads_fragment {c : UrlScan}
    (hs : p.fragment ≠ none → parseUrlChar c.s (chr '#') = .fragmentStart)
    (hold : c.oldUf ≠ some .fragment) (i : ℕ) : ∃ s old,
    Reads UrlScan.read c i (behind (chr '#') p.fragment)
      ⟨s, old, c.foundAt, c.u.setText .fragment
        (i + (1 + ((p.fragment.getD []).takeWhile (· = chr '#')).length))
        ((p.fragment.getD []).dropWhile (· = chr '#'))⟩ := by
  cases h : p.fragment with
  | none => exact ⟨c.s, c.oldUf, Reads.nil⟩
  | some t =>
    have hchars := p.fragment_chars t h
    have hopen := reads_delimiter (i := i) (hs (by rw [h]; nofun)) (by decide) rfl
    have hskip : Reads UrlScan.read { c with s := .fragmentStart } (i + 1)
        (t.takeWhile (· = chr '#')) { c with s := .fragmentStart } := by
      refine Reads.chunk (f := fun _ => { c with s := .fragmentStart }) fun k ch hch => ?_
      obtain rfl : ch = chr '#' := by simpa using List.mem_takeWhile_imp hch
      exact read_delimiter rfl (by decide) rfl
    have hsplit : chr '#' :: t =
        [chr '#'] ++ (t.takeWhile (· = chr '#') ++ t.dropWhile (· = chr '#')) := by
      rw [List.takeWhile_append_dropWhile]
      rfl
    rw [behind, hsplit, Option.getD_some, ← Nat.add_assoc]
    cases hrest : t.dropWhile (· = chr '#') with
    | nil => exact ⟨_, _, hopen.append (hskip.append Reads.nil)⟩
    | cons ch rest =>
      have hmem (c : Byte) (hc : c ∈ ch :: rest) : Byte.isFragmentChar c := by
        rw [← hrest] at hc
        exact hchars c ((List.dropWhile_suffix _).subset hc)
      have hch : ch ≠ chr '#' := by
        have hhead := List.head?_dropWhile_not (fun c : Byte => decide (c = chr '#')) t
        rw [hrest] at hhead
        exact of_decide_eq_false hhead
      have hfirst := (parseUrlChar_fragment (hmem ch List.mem_cons_self)).1
      rw [if_neg hch] at hfirst
      exact ⟨_, _, hopen.append (hskip.append (reads_field rfl (by decide) hold hfirst
        fun c hc => (parseUrlChar_fragment (hmem c (List.mem_cons_of_mem _ hc))).2))⟩

/-- All that stands behind the authority is read into its fields. -/
theorem reads_behind (foundAt : Bool) (u : HttpParserUrl) (i : ℕ) : ∃ s old,
    Reads UrlScan.read ⟨.server, some .host, foundAt, u⟩ i
      (p.path ++ (behind (chr '?') p.query ++ behind (chr '#') p.fragment))
      ⟨s, old, foundAt, ((u.setText .path i p.path).setText .query (i + p.path.length + 1)
        (p.part .query)).setText .fragment (i + p.path.length + (behind (chr '?') p.query).length +
          (1 + ((p.fragment.getD []).takeWhile (· = chr '#')).length)) (p.part .fragment)⟩ := by
  obtain ⟨s, old, hs, hold, hpath⟩ := p.reads_path foundAt u i
  have hpast : s = .server ∨ s = .path := hs.imp And.right And.right
  obtain ⟨s', old', hs', hold', hquery⟩ := p.reads_query
    (c := ⟨s, old, foundAt, u.setText .path i p.path⟩) hpast hold (i + p.path.length)
  have hhash (hfragment : p.fragment ≠ none) :
      parseUrlChar s' (chr '#') = .fragmentStart := by
    rcases hs' with ⟨hnone, rfl⟩ | ⟨-, rfl | rfl⟩
    · rcases hs with ⟨hempty, rfl⟩ | ⟨-, rfl⟩
      · rcases p.fragment_behind hfragment with hne | hne
        · exact absurd hempty hne
        · exact absurd hnone hne
      · decide
    · decide
    · decide
  obtain ⟨s'', old'', hfragment⟩ := p.reads_fragment
    (c := ⟨s', old', foundAt, (u.setText .path i p.path).setText .query (i + p.path.length + 1)
      (p.part .query)⟩) hhash hold' (i + p.path.length + (behind (chr '?') p.query).length)
  exact ⟨s'', old'', hpath.append (hquery.append hfragment)⟩

/-! ## The whole URL -/

/-- The schema is read up to the authority. -/
theorem reads_schema : Reads UrlScan.read { s := .spacesBeforeUrl } 0 (p.schema ++ ascii "://")
    ⟨.serverStart, some .schema, false, HttpParserUrl.setText {} .schema 0 p.schema⟩ := by
  have hchars := p.schema_chars
  cases h : p.schema with
  | nil => exact absurd h p.schema_ne
  | cons ch t =>
    rw [h] at hchars
    have hcolon : parseUrlChar .schema (chr ':') = .schemaSlash := by decide
    have hslash : parseUrlChar .schemaSlash (chr '/') = .schemaSlashSlash := by decide
    have hslash' : parseUrlChar .schemaSlashSlash (chr '/') = .serverStart := by decide
    have hdelimiter : ascii "://" = [chr ':', chr '/', chr '/'] := by decide
    rw [hdelimiter]
    refine (reads_field rfl (by decide) (by decide)
      (parseUrlChar_schema (hchars ch List.mem_cons_self)).1
      fun ch hch => (parseUrlChar_schema (hchars ch (List.mem_cons_of_mem _ hch))).2).append ?_
    exact Reads.cons (read_delimiter hcolon (by decide) rfl)
      (Reads.cons (read_delimiter hslash (by decide) rfl)
        (Reads.single (read_delimiter hslash' (by decide) rfl)))

/-- What stands in front of the path. -/
theorem length_front_path :
    (p.front .path).length = (p.front .userinfo).length + p.authority.length :=
  List.length_append

/-- What stands in front of the query, its `?` with it. -/
theorem length_front_query : (p.front .query).length = (p.front .path).length + p.path.length + 1 := by
  simp only [front, List.length_append, List.length_singleton]

/-- What stands in front of the fragment, with each `#` at its own front. -/
theorem length_front_fragment : (p.front .fragment).length =
    (p.front .path).length + p.path.length + (behind (chr '?') p.query).length +
      (1 + ((p.fragment.getD []).takeWhile (· = chr '#')).length) := by
  simp only [front, List.length_append, List.length_cons]
  rw [Nat.add_comm 1]

/-- What the loop has found at the end of the URL. -/
def scanned : HttpParserUrl :=
  ((((HttpParserUrl.setText {} .schema 0 p.schema).setText .host (p.front .userinfo).length
    p.authority).setText .path (p.front .path).length p.path).setText .query
      (p.front .query).length (p.part .query)).setText .fragment (p.front .fragment).length
        (p.part .fragment)

/-- A URL is read to its end. -/
theorem reads_text : ∃ s old, Reads UrlScan.read { s := .spacesBeforeUrl } 0 p.text
    ⟨s, old, p.userinfo.isSome, p.scanned⟩ := by
  have hauthority := p.reads_authority (HttpParserUrl.setText {} .schema 0 p.schema)
    (p.front .userinfo).length
  obtain ⟨s, old, hbehind⟩ := p.reads_behind p.userinfo.isSome
    ((HttpParserUrl.setText {} .schema 0 p.schema).setText .host (p.front .userinfo).length
      p.authority) (p.front .path).length
  refine ⟨s, old, ?_⟩
  have htext : p.text = (p.schema ++ ascii "://") ++ (p.authority ++
      (p.path ++ (behind (chr '?') p.query ++ behind (chr '#') p.fragment))) := by
    rw [text, List.append_assoc]
  rw [htext, scanned, length_front_query, length_front_fragment]
  refine p.reads_schema.append ?_
  rw [Nat.zero_add]
  refine hauthority.append ?_
  rw [length_front_path] at hbehind ⊢
  exact hbehind

/-- The text around each field. -/
theorem text_around (uf : UrlField) (hne : p.part uf ≠ []) :
    ∃ post, p.text = p.front uf ++ (p.part uf ++ post) := by
  cases uf with
  | schema => exact ⟨_, rfl⟩
  | host =>
    refine ⟨(if p.v6 then [chr ']'] else []) ++ behind (chr ':') p.portDigits ++ (p.path ++
      (behind (chr '?') p.query ++ behind (chr '#') p.fragment)), ?_⟩
    simp only [text, authority, hostText, front, part, List.append_assoc]
  | port =>
    refine ⟨p.path ++ (behind (chr '?') p.query ++ behind (chr '#') p.fragment), ?_⟩
    cases h : p.portDigits with
    | none =>
      rw [part, h] at hne
      exact absurd rfl hne
    | some t =>
      simp only [text, authority, front, part, h, behind, Option.getD_some, List.append_assoc,
        List.cons_append, List.nil_append]
  | path =>
    refine ⟨behind (chr '?') p.query ++ behind (chr '#') p.fragment, ?_⟩
    simp only [text, front, part, List.append_assoc]
  | query =>
    refine ⟨behind (chr '#') p.fragment, ?_⟩
    cases h : p.query with
    | none =>
      rw [part, h] at hne
      exact absurd rfl hne
    | some t =>
      simp only [text, front, part, h, behind, Option.getD_some, List.append_assoc,
        List.cons_append, List.nil_append]
  | fragment =>
    refine ⟨[], ?_⟩
    cases h : p.fragment with
    | none =>
      rw [part, h] at hne
      exact absurd rfl hne
    | some t =>
      simp only [text, front, part, h, behind, Option.getD_some, List.append_assoc,
        List.cons_append, List.append_nil, List.takeWhile_append_dropWhile]
  | userinfo =>
    refine ⟨chr '@' :: (p.hostText ++ behind (chr ':') p.portDigits) ++ (p.path ++
      (behind (chr '?') p.query ++ behind (chr '#') p.fragment)), ?_⟩
    cases h : p.userinfo with
    | none =>
      rw [part, h] at hne
      exact absurd rfl hne
    | some t =>
      simp only [text, authority, userinfoText, front, part, h, Option.getD_some,
        List.append_assoc, List.cons_append, List.nil_append]

/-! ## The port -/

/-- `strtoul` reads the digits of a number up to the next char. -/
theorem strtoul_digits {n : ℕ} (hn : n < 2 ^ 32) {post : Text}
    (hpost : ∀ ch, post.head? = some ch → Byte.isNum ch = false) :
    strtoul (digits n ++ post) = n := by
  have hbehind : post.takeWhile Byte.isNum = [] := by
    cases post with
    | nil => rfl
    | cons ch post => exact List.takeWhile_cons_of_neg (by rw [hpost ch rfl]; decide)
  have hfold : (digits n).foldl (fun n b => 10 * n + (b.toNat - 48)) 0 = n := by
    calc (digits n).foldl (fun n b => 10 * n + (b.toNat - 48)) 0
        = (Nat.toDigits 10 n).foldl (fun m c => 10 * m + ((chr c).toNat - 48)) 0 := List.foldl_map
      _ = Nat.ofDigitChars 10 (Nat.toDigits 10 n) 0 := by
          refine List.foldl_ext _ _ 0 fun m c hc => ?_
          rw [(toNat_chr_of_mem_toDigits hc).1]
          rfl
      _ = n := Nat.ofDigitChars_ten_toDigits
  rw [strtoul, List.takeWhile_append_of_pos isNum_digits, hbehind, List.append_nil, hfold]
  omega

/-! ## What the parser finds -/

variable {u : HttpParserUrl} {uf uf' : UrlField} {i : ℕ} {t : Text}

/-- A text set in a field that was empty is found there. -/
theorem field_setText (hu : u.field uf = none) :
    (u.setText uf i t).field uf = fieldAt i t := by
  rw [HttpParserUrl.setText, fieldAt]
  split
  · exact hu
  · exact field_set _ _ _

/-- A text set in a field leaves the others. -/
theorem field_setText_of_ne (h : uf' ≠ uf) : (u.setText uf i t).field uf' = u.field uf' := by
  rw [HttpParserUrl.setText]
  split
  · rfl
  · exact field_set_of_ne _ _ h _

/-- A text set in a field leaves the port. -/
@[simp] theorem port_setText : (u.setText uf i t).port = u.port := by
  rw [HttpParserUrl.setText]
  split <;> rfl

/-- A field whose place is that of its text has the text as its value. -/
theorem value_of_fieldAt {pre url : Text} (hfield : u.field uf = fieldAt pre.length t)
    (hurl : t ≠ [] → ∃ post, url = pre ++ (t ++ post)) (hlen : url.length < 2 ^ 16)
    (hzero : ∀ ch ∈ t, ch ≠ 0) : ParsedUrl.value url u uf = t := by
  rw [ParsedUrl.value, hfield, fieldAt]
  by_cases ht : t = []
  · rw [if_pos ht, ht]
  · obtain ⟨post, rfl⟩ := hurl ht
    rw [if_neg ht]
    simp only [List.length_append] at hlen
    have hoff : (UInt16.ofNat pre.length).toNat = pre.length :=
      UInt16.toNat_ofNat_of_lt' (by show _ < 2 ^ 16; omega)
    have hlen' : (UInt16.ofNat t.length).toNat = t.length :=
      UInt16.toNat_ofNat_of_lt' (by show _ < 2 ^ 16; omega)
    show cstr _ = t
    rw [hoff, hlen', List.drop_left, List.take_left]
    exact cstr_eq_self hzero

/-- What is left of the URL behind the port. -/
theorem head_behind_port (ch : Byte)
    (h : (p.path ++ (behind (chr '?') p.query ++ behind (chr '#') p.fragment)).head? = some ch) :
    Byte.isNum ch = false := by
  rcases p.path_slash with hpath | hslash
  · rw [hpath, List.nil_append] at h
    cases hquery : p.query with
    | some t =>
      rw [hquery] at h
      obtain rfl := Option.some.inj h
      decide
    | none =>
      rw [hquery] at h
      cases hfragment : p.fragment with
      | none =>
        rw [hfragment] at h
        cases h
      | some t =>
        rw [hfragment] at h
        obtain rfl := Option.some.inj h
        decide
  · rw [List.head?_append, hslash] at h
    obtain rfl := Option.some.inj h
    decide

/-- After the scan the host is the whole authority. -/
theorem field_scanned_host : p.scanned.field .host =
    some ⟨UInt16.ofNat (p.front .userinfo).length, UInt16.ofNat p.authority.length⟩ := by
  have hne : p.authority ≠ [] := by
    rw [authority_eq, Ne, List.append_eq_nil_iff]
    exact fun h => p.server_ne h.2
  simp (disch := decide) only [scanned, field_setText_of_ne]
  rw [HttpParserUrl.setText_of_ne _ _ _ hne, field_set]

/-- After the scan path, query and fragment are where their texts are. -/
theorem field_scanned_of_behind (h : uf = .path ∨ uf = .query ∨ uf = .fragment) :
    p.scanned.field uf = fieldAt (p.front uf).length (p.part uf) := by
  rcases h with rfl | rfl | rfl
  · rw [scanned, field_setText_of_ne (by decide), field_setText_of_ne (by decide)]
    refine field_setText ?_
    simp (disch := decide) only [field_setText_of_ne]
  · rw [scanned, field_setText_of_ne (by decide)]
    refine field_setText ?_
    simp (disch := decide) only [field_setText_of_ne]
  · refine field_setText ?_
    simp (disch := decide) only [field_setText_of_ne]

/-- The fields once the authority has been taken apart. -/
def found : HttpParserUrl :=
  (((p.scanned.set .host ⟨UInt16.ofNat (p.front .userinfo).length, 0⟩).setText .userinfo
    (p.front .userinfo).length (p.part .userinfo)).setText .host (p.front .host).length
      p.host).setText .port (p.front .port).length (p.part .port)

/-- Splitting the authority leaves the fields outside of it. -/
theorem field_found_of_ne (h : uf ≠ .host ∧ uf ≠ .port ∧ uf ≠ .userinfo) :
    p.found.field uf = p.scanned.field uf := by
  rw [found, field_setText_of_ne h.2.1, field_setText_of_ne h.1, field_setText_of_ne h.2.2,
    field_set_of_ne _ _ h.1]

/-- All fields are found before the port is read. -/
theorem field_found (uf : UrlField) : p.found.field uf = p.split.field uf := by
  cases uf with
  | schema =>
    rw [field_found_of_ne p (by decide), scanned]
    simp (disch := decide) only [field_setText_of_ne]
    exact field_setText rfl
  | path => exact (field_found_of_ne p (by decide)).trans (p.field_scanned_of_behind (by decide))
  | query => exact (field_found_of_ne p (by decide)).trans (p.field_scanned_of_behind (by decide))
  | fragment =>
    exact (field_found_of_ne p (by decide)).trans (p.field_scanned_of_behind (by decide))
  | host =>
    rw [found, field_setText_of_ne (by decide), HttpParserUrl.setText_of_ne _ _ _ p.host_ne,
      field_set]
    exact (if_neg p.host_ne).symm
  | port =>
    refine field_setText ?_
    simp (disch := decide) only [field_setText_of_ne, field_set_of_ne, scanned]
  | userinfo =>
    rw [found, field_setText_of_ne (by decide), field_setText_of_ne (by decide)]
    refine field_setText ?_
    simp (disch := decide) only [field_setText_of_ne, field_set_of_ne, scanned]

/-- Before it is read the port is zero. -/
theorem port_found : p.found.port = 0 := by
  simp only [found, scanned, port_setText, HttpParserUrl.set]

/-- Reading the port completes the split. -/
theorem readPort_found (hlen : p.text.length < 2 ^ 16) :
    p.found.readPort p.text = (true, p.split) := by
  have hfield : p.found.field = p.split.field := funext p.field_found
  rw [HttpParserUrl.readPort, hfield]
  cases hport : p.port with
  | none =>
    have hnone : p.split.field .port = none := by
      show fieldAt _ ((p.port.map _).getD []) = none
      rw [hport]
      rfl
    have hsplit : p.found = p.split := by
      show HttpParserUrl.mk p.found.port p.found.field = HttpParserUrl.mk (p.port.getD 0) _
      rw [hfield, port_found, hport]
      rfl
    rw [hnone, hsplit]
  | some n =>
    have hdigits : p.portDigits = some (digits n.toNat) := by
      rw [portDigits, hport]
      rfl
    have htext : p.text = p.front .port ++ (digits n.toNat ++
        (p.path ++ (behind (chr '?') p.query ++ behind (chr '#') p.fragment))) := by
      simp only [text, authority, front, hdigits, behind, List.append_assoc, List.cons_append,
        List.nil_append]
    have hsome : p.split.field .port = some ⟨UInt16.ofNat (p.front .port).length,
        UInt16.ofNat (digits n.toNat).length⟩ := by
      show fieldAt _ (p.portDigits.getD []) = _
      rw [hdigits]
      exact if_neg (digits_ne_nil _)
    have hoff : (UInt16.ofNat (p.front .port).length).toNat = (p.front .port).length := by
      rw [htext, List.length_append] at hlen
      exact UInt16.toNat_ofNat_of_lt' (by show _ < 2 ^ 16; omega)
    have hn : n.toNat < 2 ^ 16 := n.toNat_lt
    have hvalue : strtoul (p.text.drop (p.front .port).length) = n.toNat := by
      rw [htext, List.drop_left]
      exact strtoul_digits (by omega) p.head_behind_port
    rw [hsome]
    simp only [hoff, hvalue]
    rw [if_neg (by omega), UInt16.ofNat_toNat]
    show (true, HttpParserUrl.mk n p.split.field) = (true, HttpParserUrl.mk (p.port.getD 0) _)
    rw [hport]
    rfl

/-- **A URL is taken apart** into the fields it was put together from, each where it stands. -/
theorem httpParserParseUrl_text (hlen : p.text.length < 2 ^ 16) :
    httpParserParseUrl p.text = (true, p.split) := by
  obtain ⟨s, old, hreads⟩ := p.reads_text
  have htext : p.text = p.front .userinfo ++ (p.authority ++
      (p.path ++ (behind (chr '?') p.query ++ behind (chr '#') p.fragment))) := by
    rw [text, front, List.append_assoc]
  have hsum : p.text.length = (p.front .userinfo).length + (p.authority.length +
      (p.path ++ (behind (chr '?') p.query ++ behind (chr '#') p.fragment)).length) := by
    rw [htext, List.length_append, List.length_append]
  have hoff : (UInt16.ofNat (p.front .userinfo).length).toNat = (p.front .userinfo).length :=
    UInt16.toNat_ofNat_of_lt' (by show _ < 2 ^ 16; omega)
  have hlen' : (UInt16.ofNat p.authority.length).toNat = p.authority.length :=
    UInt16.toNat_ofNat_of_lt' (by show _ < 2 ^ 16; omega)
  have hhost : httpParseHost p.text p.scanned ⟨UInt16.ofNat (p.front .userinfo).length,
      UInt16.ofNat p.authority.length⟩ p.userinfo.isSome = (true, p.found) := by
    rw [htext]
    exact p.httpParseHost_authority p.scanned hoff hlen'
  rw [httpParserParseUrl, hreads.scan_eq]
  simp only [Bool.true_eq_false, if_false, p.field_scanned_host, hhost, p.readPort_found hlen]

/-- The parts hold no NUL. -/
theorem ne_zero_of_mem_part (uf : UrlField) : ∀ ch ∈ p.part uf, ch ≠ 0 := by
  rintro ch hch rfl
  cases uf with
  | schema => exact absurd (p.schema_chars 0 hch) (by decide)
  | host =>
    have hhost := p.host_chars 0 hch
    generalize p.v6 = v6 at hhost
    revert v6
    decide
  | port =>
    cases hport : p.port with
    | none =>
      rw [part, portDigits, hport] at hch
      cases hch
    | some n =>
      rw [part, portDigits, hport] at hch
      exact absurd (isNum_digits 0 hch) (by decide)
  | path => exact absurd (p.path_chars 0 hch) (by decide)
  | query =>
    cases hquery : p.query with
    | none =>
      rw [part, hquery] at hch
      cases hch
    | some t =>
      rw [part, hquery] at hch
      exact absurd (p.query_chars t hquery 0 hch) (by decide)
  | fragment =>
    cases hfragment : p.fragment with
    | none =>
      rw [part, hfragment] at hch
      cases hch
    | some t =>
      rw [part, hfragment] at hch
      exact absurd (p.fragment_chars t hfragment 0 ((List.dropWhile_suffix _).subset hch))
        (by decide)
  | userinfo =>
    cases huserinfo : p.userinfo with
    | none =>
      rw [part, huserinfo] at hch
      cases hch
    | some t =>
      rw [part, huserinfo] at hch
      exact absurd (p.userinfo_chars t huserinfo 0 hch) (by decide)

/-- `ParsedUrl` finds the parts the URL was put together from. -/
theorem new_text (hlen : p.text.length < 2 ^ 16) : ParsedUrl.new p.text = p.parsed := by
  have hvalue (uf : UrlField) : ParsedUrl.value p.text p.split uf = p.part uf :=
    value_of_fieldAt rfl (p.text_around uf) hlen (p.ne_zero_of_mem_part uf)
  rw [ParsedUrl.new, p.httpParserParseUrl_text hlen]
  simp only [hvalue]
  rfl

/-! ## A URL that stops -/

/-- No user information, no port and no brackets. -/
def Bare : Prop := p.userinfo = none ∧ p.port = none ∧ p.v6 = false

/-- With nothing but a host in the authority the scan has found all fields. -/
theorem field_scanned (h : p.Bare) (uf : UrlField) : p.scanned.field uf = p.split.field uf := by
  obtain ⟨huserinfo, hport, hv6⟩ := h
  have hauthority : p.authority = p.host := by
    simp only [authority, userinfoText, hostText, bracket, portDigits, huserinfo, hport, hv6, behind,
      Option.map_none, Bool.false_eq_true, if_false, List.nil_append, List.append_nil]
  have hfront : p.front .host = p.front .userinfo := by
    simp only [front, userinfoText, bracket, huserinfo, hv6, Bool.false_eq_true, if_false,
      List.append_nil]
  cases uf with
  | schema =>
    rw [scanned]
    simp (disch := decide) only [field_setText_of_ne]
    exact field_setText rfl
  | host =>
    rw [field_scanned_host, hauthority, ← hfront]
    exact (if_neg p.host_ne).symm
  | port =>
    simp (disch := decide) only [scanned, field_setText_of_ne]
    show none = fieldAt _ ((p.port.map _).getD [])
    rw [hport]
    rfl
  | path => exact p.field_scanned_of_behind (by decide)
  | query => exact p.field_scanned_of_behind (by decide)
  | fragment => exact p.field_scanned_of_behind (by decide)
  | userinfo =>
    simp (disch := decide) only [scanned, field_setText_of_ne]
    show none = fieldAt _ (p.userinfo.getD [])
    rw [huserinfo]
    rfl

/-- A blank ends the parser in any state. -/
theorem parseUrlChar_blank (s : UrlState) : parseUrlChar s (chr ' ') = .dead :=
  if_pos (.inl (by decide))

/-- **A blank cuts the URL.** The parser stops, and the request goes to what stands in front. -/
theorem new_cut (h : p.Bare) {rest : Text} (hlen : (p.text ++ chr ' ' :: rest).length < 2 ^ 16) :
    ParsedUrl.new (p.text ++ chr ' ' :: rest) = p.parsed := by
  obtain ⟨s, old, hreads⟩ := p.reads_text
  have hscan : scan UrlScan.read { s := .spacesBeforeUrl } 0 (p.text ++ chr ' ' :: rest) =
      (false, ⟨s, old, p.userinfo.isSome, p.scanned⟩) := by
    have hstop (c : UrlScan) (i : ℕ) : c.read i (chr ' ') = none := by
      rw [UrlScan.read, parseUrlChar_blank, if_pos rfl]
    rw [hreads, scan, hstop]
  have hparse : httpParserParseUrl (p.text ++ chr ' ' :: rest) = (false, p.scanned) := by
    rw [httpParserParseUrl, hscan]
    rfl
  have hvalue (uf : UrlField) :
      ParsedUrl.value (p.text ++ chr ' ' :: rest) p.scanned uf = p.part uf := by
    refine value_of_fieldAt (p.field_scanned h uf) (fun hne => ?_) hlen (p.ne_zero_of_mem_part uf)
    obtain ⟨post, hpost⟩ := p.text_around uf hne
    exact ⟨post ++ chr ' ' :: rest, by rw [hpost, List.append_assoc, List.append_assoc]⟩
  have hport : p.scanned.port = 0 := by
    simp only [scanned, port_setText]
  rw [ParsedUrl.new, hparse]
  simp only [hvalue, hport]
  rw [parsed, h.2.1]
  rfl

/-- **The round trip.** A URL that is put together from parts and whose offsets `uint16_t` can
hold is right, and what a request takes out of it is what was put into it. -/
theorem url_round_trip (hlen : p.text.length < 2 ^ 16) :
    httpParserParseUrl p.text = (true, p.split) ∧ ParsedUrl.new p.text = p.parsed :=
  ⟨p.httpParserParseUrl_text hlen, p.new_text hlen⟩

/-- A URL with all of the parts. -/
def full : UrlParts where
  schema := ascii "https"
  userinfo := some (ascii "a:b")
  host := ascii "::1"
  v6 := true
  port := some 8080
  path := ascii "/x"
  query := some (ascii "y=1?")
  fragment := some (ascii "#z")
  schema_ne := by decide
  schema_chars := List.all_eq_true.1 (by decide)
  userinfo_chars := by
    rintro t ⟨⟩
    exact List.all_eq_true.1 (by decide)
  host_ne := by decide
  host_chars := List.all_eq_true.1 (by decide)
  path_chars := List.all_eq_true.1 (by decide)
  path_slash := by decide
  query_chars := by
    rintro t ⟨⟩
    exact List.all_eq_true.1 (by decide)
  fragment_chars := by
    rintro t ⟨⟩
    exact List.all_eq_true.1 (by decide)
  fragment_behind := fun _ => .inl (by decide)

/-- A URL with all its parts, a bracketed address among them. -/
theorem url_round_trip_full : full.text = ascii "https://a:b@[::1]:8080/x?y=1?##z" ∧
    httpParserParseUrl full.text = (true, full.split) ∧ ParsedUrl.new full.text = full.parsed :=
  ⟨by decide, full.url_round_trip (by decide)⟩

end UrlParts

end WeightScale
