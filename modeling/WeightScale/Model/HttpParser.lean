import WeightScale.Embedded.Scan

/-!
# `http_parser.c`: URLs

A URL is read char by char by `parse_url_char`; what the states say is kept as an offset
and a length for each field. The host field is then read once more for user information
and a port. The library is compiled with `HTTP_PARSER_STRICT`.
-/

set_option autoImplicit false

namespace WeightScale

open Embedded

/-! ## Classes of chars -/

namespace Byte

variable (c : Byte)

def lower : Byte := c ||| 0x20

def isAlpha : Bool := chr 'a' ≤ lower c ∧ lower c ≤ chr 'z'

def isNum : Bool := chr '0' ≤ c ∧ c ≤ chr '9'

def isAlphanum : Bool := isAlpha c || isNum c

def isHex : Bool := isNum c || (chr 'a' ≤ lower c ∧ lower c ≤ chr 'f')

def isMark : Bool := c ∈ ascii "-_.!~*'()"

def isUserinfoChar : Bool := isAlphanum c || isMark c || c ∈ ascii "%;:&=+$,"

def isHostChar : Bool := isAlphanum c || c = chr '.' || c = chr '-'

/-- `normal_url_char[32]`, a bit for each char. http_parser.c:236-269 -/
def normalUrlChar : Vector Byte 32 :=
  #v[0, 0, 0, 0, 246, 255, 255, 127, 255, 255, 255, 255, 255, 255, 255, 127,
    0, 0, 0, 0, 0, 0, 0, 0, 0, 0, 0, 0, 0, 0, 0, 0]

def isUrlChar : Bool := (normalUrlChar.toList.getD (c >>> 3).toNat 0 >>> (c &&& 7)) &&& 1 = 1

end Byte

/-! ## The parts of a URL -/

/-- The states of `parse_url_char`. -/
inductive UrlState where
  | dead
  | spacesBeforeUrl
  | schema | schemaSlash | schemaSlashSlash
  | serverStart | server | serverWithAt
  | path
  | queryStringStart | queryString
  | fragmentStart | fragment
deriving DecidableEq

/-- http_parser.c:486-631 -/
def parseUrlChar (s : UrlState) (ch : Byte) : UrlState :=
  if ch ∈ ascii " \r\n\t" ∨ ch = 12 then .dead
  else
    match s with
    | .spacesBeforeUrl =>
      if ch = chr '/' ∨ ch = chr '*' then .path
      else if Byte.isAlpha ch then .schema
      else .dead
    | .schema =>
      if Byte.isAlpha ch then .schema
      else if ch = chr ':' then .schemaSlash
      else .dead
    | .schemaSlash => if ch = chr '/' then .schemaSlashSlash else .dead
    | .schemaSlashSlash => if ch = chr '/' then .serverStart else .dead
    | .serverWithAt => if ch = chr '@' then .dead else server ch
    | .serverStart => server ch
    | .server => server ch
    | .path =>
      if Byte.isUrlChar ch then .path
      else if ch = chr '?' then .queryStringStart
      else if ch = chr '#' then .fragmentStart
      else .dead
    | .queryStringStart => query ch
    | .queryString => query ch
    | .fragmentStart =>
      if Byte.isUrlChar ch then .fragment
      else if ch = chr '?' then .fragment
      else if ch = chr '#' then .fragmentStart
      else .dead
    | .fragment =>
      if Byte.isUrlChar ch then .fragment
      else if ch = chr '?' ∨ ch = chr '#' then .fragment
      else .dead
    | .dead => .dead
where
  server (ch : Byte) : UrlState :=
    if ch = chr '/' then .path
    else if ch = chr '?' then .queryStringStart
    else if ch = chr '@' then .serverWithAt
    else if Byte.isUserinfoChar ch || ch = chr '[' || ch = chr ']' then .server
    else .dead
  query (ch : Byte) : UrlState :=
    if Byte.isUrlChar ch then .queryString
    else if ch = chr '?' then .queryString
    else if ch = chr '#' then .fragmentStart
    else .dead

/-- `http_parser_url_fields`. -/
inductive UrlField where
  | schema | host | port | path | query | fragment | userinfo
deriving DecidableEq

/-- The field that a state's chars belong to; none for a delimiter.
http_parser.c:2362-2402 -/
def UrlState.field : UrlState → Option UrlField
  | .schema => some .schema
  | .serverWithAt => some .host
  | .server => some .host
  | .path => some .path
  | .queryString => some .query
  | .fragment => some .fragment
  | _ => none

/-- `field_data[uf]`. -/
structure FieldData where
  off : UInt16
  len : UInt16

/-- `struct http_parser_url`. A field whose bit in `field_set` is not set is `none`. -/
structure HttpParserUrl where
  port : UInt16 := 0
  field : UrlField → Option FieldData := fun _ => none

namespace HttpParserUrl

/-- `u->field_set |= (1 << uf)` with the data of the field. -/
def set (u : HttpParserUrl) (uf : UrlField) (f : FieldData) : HttpParserUrl :=
  { u with field := Function.update u.field uf (some f) }

/-- `u->field_data[uf].len++` -/
def extend (u : HttpParserUrl) (uf : UrlField) : HttpParserUrl :=
  { u with
    field := Function.update u.field uf
      ((u.field uf).map fun f => { f with len := f.len + 1 }) }

/-- A char at the offset `i` is the first of a field, or one more of it. -/
def mark (u : HttpParserUrl) (first : Bool) (uf : UrlField) (i : ℕ) : HttpParserUrl :=
  if first then u.set uf ⟨UInt16.ofNat i, 1⟩ else u.extend uf

end HttpParserUrl

/-! ## The host -/

/-- The states of `http_parse_host_char`. -/
inductive HostState where
  | dead
  | userinfoStart | userinfo
  | hostStart | v6Start | host | v6 | v6End | v6ZoneStart | v6Zone
  | portStart | port
deriving DecidableEq

/-- http_parser.c:2173-2253 -/
def parseHostChar (s : HostState) (ch : Byte) : HostState :=
  match s with
  | .userinfo => userinfo ch
  | .userinfoStart => userinfo ch
  | .hostStart =>
    if ch = chr '[' then .v6Start
    else if Byte.isHostChar ch then .host
    else .dead
  | .host => if Byte.isHostChar ch then .host else behind ch
  | .v6End => behind ch
  | .v6 =>
    if ch = chr ']' then .v6End
    else if Byte.isHex ch || ch = chr ':' || ch = chr '.' then .v6
    else if ch = chr '%' then .v6ZoneStart
    else .dead
  | .v6Start => if Byte.isHex ch || ch = chr ':' || ch = chr '.' then .v6 else .dead
  | .v6Zone => if ch = chr ']' then .v6End else zone ch
  | .v6ZoneStart => zone ch
  | .port => if Byte.isNum ch then .port else .dead
  | .portStart => if Byte.isNum ch then .port else .dead
  | .dead => .dead
where
  userinfo (ch : Byte) : HostState :=
    if ch = chr '@' then .hostStart
    else if Byte.isUserinfoChar ch then .userinfo
    else .dead
  behind (ch : Byte) : HostState := if ch = chr ':' then .portStart else .dead
  zone (ch : Byte) : HostState :=
    if Byte.isAlphanum ch || ch ∈ ascii "%.-_~" then .v6Zone else .dead

/-- `u->field_data[UF_HOST].off = i` -/
def HttpParserUrl.moveHost (u : HttpParserUrl) (i : ℕ) : HttpParserUrl :=
  { u with
    field := Function.update u.field .host
      ((u.field .host).map fun f => { f with off := UInt16.ofNat i }) }

/-- What one char at the offset `i` does to the fields, on the way from `s` to `s'`. Where
the host starts its offset is moved there; its length counts from 0.
http_parser.c:2275-2316 -/
def HttpParserUrl.hostChar (u : HttpParserUrl) (s s' : HostState) (i : ℕ) : HttpParserUrl :=
  match s' with
  | .host => (if s ≠ .host then u.moveHost i else u).extend .host
  | .v6 => (if s ≠ .v6 then u.moveHost i else u).extend .host
  | .v6ZoneStart => u.extend .host
  | .v6Zone => u.extend .host
  | .port => u.mark (s ≠ .port) .port i
  | .userinfo => u.mark (s ≠ .userinfo) .userinfo i
  | _ => u

/-- The variables of the loop over the host. -/
structure HostScan where
  s : HostState
  u : HttpParserUrl

/-- The body of the loop; the state `dead` leaves it. http_parser.c:2269-2316 -/
def HostScan.read (c : HostScan) (i : ℕ) (ch : Byte) : Option HostScan :=
  let s' := parseHostChar c.s ch
  if s' = .dead then none else some { s := s', u := c.u.hostChar c.s s' i }

/-- The states that the host may end in. http_parser.c:2320-2332 -/
def HostState.final : HostState → Bool
  | .host => true
  | .v6End => true
  | .port => true
  | _ => false

/-- `http_parse_host`, with `true` for a host that is right.
http_parser.c:2255-2335 -/
def httpParseHost (buf : Text) (u : HttpParserUrl) (host : FieldData) (foundAt : Bool) :
    Bool × HttpParserUrl :=
  let r := scan HostScan.read
    { s := if foundAt then .userinfoStart else .hostStart, u := u.set .host { host with len := 0 } }
    host.off.toNat ((buf.take (host.off.toNat + host.len.toNat)).drop host.off.toNat)
  (r.1 && r.2.s.final, r.2.u)

/-! ## The URL -/

/-- The variables of the loop over a URL. -/
structure UrlScan where
  s : UrlState
  oldUf : Option UrlField := none
  foundAt : Bool := false
  u : HttpParserUrl := {}

/-- A char at the offset `i`, on the way to the state `s`. -/
def UrlScan.next (c : UrlScan) (s : UrlState) (i : ℕ) : UrlScan :=
  match s.field with
  | none => { c with s := s }
  | some uf =>
    { s := s
      oldUf := some uf
      foundAt := c.foundAt || s = .serverWithAt
      u := c.u.mark (c.oldUf ≠ some uf) uf i }

/-- The body of the loop; the state `dead` leaves it. http_parser.c:2355-2414 -/
def UrlScan.read (c : UrlScan) (i : ℕ) (ch : Byte) : Option UrlScan :=
  let s := parseUrlChar c.s ch
  if s = .dead then none else some (c.next s i)

/-- `strtoul(p, NULL, 10)` of a text that starts with a digit; it saturates. -/
def strtoul (p : Text) : ℕ :=
  min ((p.takeWhile Byte.isNum).foldl (fun n b => 10 * n + (b.toNat - 48)) 0) 0xffffffff

/-- `u->port` is read off the text. -/
def HttpParserUrl.readPort (u : HttpParserUrl) (buf : Text) : Bool × HttpParserUrl :=
  match u.field .port with
  | none => (true, u)
  | some p =>
    let v := strtoul (buf.drop p.off.toNat)
    if v > 0xffff then (false, u) else (true, { u with port := UInt16.ofNat v })

/-- `http_parser_parse_url` where `is_connect` is false, with `true` for a URL that is
right. A URL that is not leaves in `u` what has been found so far.
http_parser.c:2342-2446 -/
def httpParserParseUrl (buf : Text) : Bool × HttpParserUrl :=
  let r := scan UrlScan.read { s := .spacesBeforeUrl } 0 buf
  let u := r.2.u
  if r.1 = false then (false, u)
  else
    match u.field .host with
    | none => ((u.field .schema).isNone, u)
    | some host =>
      let h := httpParseHost buf u host r.2.foundAt
      if h.1 = false then h else h.2.readPort buf

end WeightScale
