import WeightScale.Model.HttpRequest

/-!
# URLs and requests

A URL with a schema, as its parts: each part holds chars of its own class, so that the
delimiters between them can be told from them. `text` puts the parts together and `parsed`
is what a request to that URL needs of them. `requestText` is such a request, from its first
line to the end of its body.
-/

set_option autoImplicit false

namespace WeightScale

open Embedded

/-- The chars of a host: of a name, or of an address that is put in brackets. -/
def Byte.isHost (v6 : Bool) (ch : Byte) : Bool :=
  if v6 then isHex ch || ch = chr ':' || ch = chr '.' else isHostChar ch

def Byte.isQueryChar (ch : Byte) : Bool := isUrlChar ch || ch = chr '?'

def Byte.isFragmentChar (ch : Byte) : Bool := isUrlChar ch || ch = chr '?' || ch = chr '#'

/-- The parts of a URL. -/
structure UrlParts where
  schema : Text
  userinfo : Option Text
  host : Text
  /-- The host is an address of version 6. -/
  v6 : Bool
  port : Option UInt16
  path : Text
  query : Option Text
  fragment : Option Text
  schema_ne : schema ≠ []
  schema_chars : ∀ ch ∈ schema, Byte.isAlpha ch
  userinfo_chars : ∀ t, userinfo = some t → ∀ ch ∈ t, Byte.isUserinfoChar ch
  host_ne : host ≠ []
  host_chars : ∀ ch ∈ host, Byte.isHost v6 ch
  path_chars : ∀ ch ∈ path, Byte.isUrlChar ch
  path_slash : path = [] ∨ path.head? = some (chr '/')
  query_chars : ∀ t, query = some t → ∀ ch ∈ t, Byte.isQueryChar ch
  fragment_chars : ∀ t, fragment = some t → ∀ ch ∈ t, Byte.isFragmentChar ch
  /-- A `'#'` right behind the host is no URL. -/
  fragment_behind : fragment ≠ none → path ≠ [] ∨ query ≠ none

namespace UrlParts

/-- A part with the delimiter in front of it. -/
def behind (delimiter : Byte) : Option Text → Text
  | none => []
  | some t => delimiter :: t

variable (p : UrlParts)

def userinfoText : Text :=
  match p.userinfo with
  | none => []
  | some t => t ++ [chr '@']

def bracket : Text := if p.v6 then [chr '['] else []

def hostText : Text := p.bracket ++ (p.host ++ if p.v6 then [chr ']'] else [])

def portDigits : Option Text := p.port.map fun n => digits n.toNat

/-- What stands between `//` and the path. -/
def authority : Text := p.userinfoText ++ (p.hostText ++ behind (chr ':') p.portDigits)

/-- The URL. -/
def text : Text :=
  p.schema ++ (ascii "://" ++ (p.authority ++
    (p.path ++ (behind (chr '?') p.query ++ behind (chr '#') p.fragment))))

/-! What the parser finds: each field where it stands in the text. -/

/-- The text of a field. The fragment starts behind its last leading `'#'`. -/
def part : UrlField → Text
  | .schema => p.schema
  | .host => p.host
  | .port => p.portDigits.getD []
  | .path => p.path
  | .query => p.query.getD []
  | .fragment => (p.fragment.getD []).dropWhile (· = chr '#')
  | .userinfo => p.userinfo.getD []

/-- The text in front of a field that is there. -/
def front : UrlField → Text
  | .schema => []
  | .userinfo => p.schema ++ ascii "://"
  | .host => p.schema ++ ascii "://" ++ p.userinfoText ++ p.bracket
  | .port => p.schema ++ ascii "://" ++ p.userinfoText ++ p.hostText ++ [chr ':']
  | .path => p.schema ++ ascii "://" ++ p.authority
  | .query => p.schema ++ ascii "://" ++ p.authority ++ p.path ++ [chr '?']
  | .fragment =>
    p.schema ++ ascii "://" ++ p.authority ++ p.path ++ behind (chr '?') p.query ++
      chr '#' :: (p.fragment.getD []).takeWhile (· = chr '#')

/-- A text at an offset; a field without chars is not set. -/
def fieldAt (i : ℕ) (t : Text) : Option FieldData :=
  if t = [] then none else some ⟨UInt16.ofNat i, UInt16.ofNat t.length⟩

/-- The fields the parser is to find. -/
def split : HttpParserUrl where
  port := p.port.getD 0
  field uf := fieldAt (p.front uf).length (p.part uf)

/-- The port of the schema. -/
def defaultPort : UInt16 := if p.schema = ascii "https" then 443 else 80

/-- What a request needs of the URL. A port of 0 is no port, and no path is `/`. -/
def parsed : ParsedUrl where
  port := if p.port.getD 0 = 0 then p.defaultPort else p.port.getD 0
  schema := p.schema
  host := p.host
  path := if p.path = [] then ascii "/" else p.path
  query := p.query.getD []
  userinfo := p.userinfo.getD []

end UrlParts

/-! ## Requests -/

/-- The host, and the port where it is not the one of the schema. -/
def ParsedUrl.hostPort (u : ParsedUrl) : Text :=
  if (u.schema = ascii "http" ∧ u.port ≠ 80) ∨ (u.schema = ascii "https" ∧ u.port ≠ 443) then
    u.host ++ chr ':' :: digits u.port.toNat
  else u.host

/-- The path and the query. -/
def ParsedUrl.target (u : ParsedUrl) : Text :=
  u.path ++ if u.query = [] then [] else chr '?' :: u.query

/-- The request names the length of its body. -/
def HttpMethod.hasLength (method : HttpMethod) (body : List Byte) : Prop :=
  method = .post ∨ method = .put ∨ method = .delete ∨ body ≠ []

instance (method : HttpMethod) (body : List Byte) : Decidable (method.hasLength body) :=
  inferInstanceAs (Decidable (_ ∨ _ ∨ _ ∨ _))

/-- The request as it is to be sent. -/
def requestText (method : HttpMethod) (u : ParsedUrl) (body : List Byte) : List Byte :=
  httpMethodStr method ++ ascii " " ++ u.target ++ ascii " HTTP/1.1\r\n" ++
    (if method.hasLength body then
      ascii "Content-Length: " ++ digits body.length ++ ascii "\r\n" else []) ++
    ascii "Host: " ++ u.hostPort ++ ascii "\r\n" ++ ascii "\r\n" ++ body ++ ascii "\r\n"

end WeightScale
