import WeightScale.Embedded.Printf
import WeightScale.Model.HttpParser

/-!
# `http_parsed_url.h`, `http_request_builder.h`, `http_request.h`

How a request gets from its URL to the bytes that are sent: `ParsedUrl` copies the fields
out of the URL, whether the URL was right or not, and the builder prints the request into
a buffer whose size it has counted before. An access outside the buffer is `none`.
-/

set_option autoImplicit false

namespace WeightScale

open Embedded

/-- `enum http_method`. -/
inductive HttpMethod where
  | delete | get | head | post | put | connect | options | trace | copy | lock | mkcol | move
  | propfind | proppatch | search | unlock | bind | rebind | unbind | acl | report | mkactivity
  | checkout | merge | msearch | notify | subscribe | unsubscribe | patch | purge | mkcalendar
  | link | unlink
deriving DecidableEq

/-- http_parser.h:165-205 -/
def httpMethodStr : HttpMethod → Text
  | .delete => ascii "DELETE"
  | .get => ascii "GET"
  | .head => ascii "HEAD"
  | .post => ascii "POST"
  | .put => ascii "PUT"
  | .connect => ascii "CONNECT"
  | .options => ascii "OPTIONS"
  | .trace => ascii "TRACE"
  | .copy => ascii "COPY"
  | .lock => ascii "LOCK"
  | .mkcol => ascii "MKCOL"
  | .move => ascii "MOVE"
  | .propfind => ascii "PROPFIND"
  | .proppatch => ascii "PROPPATCH"
  | .search => ascii "SEARCH"
  | .unlock => ascii "UNLOCK"
  | .bind => ascii "BIND"
  | .rebind => ascii "REBIND"
  | .unbind => ascii "UNBIND"
  | .acl => ascii "ACL"
  | .report => ascii "REPORT"
  | .mkactivity => ascii "MKACTIVITY"
  | .checkout => ascii "CHECKOUT"
  | .merge => ascii "MERGE"
  | .msearch => ascii "M-SEARCH"
  | .notify => ascii "NOTIFY"
  | .subscribe => ascii "SUBSCRIBE"
  | .unsubscribe => ascii "UNSUBSCRIBE"
  | .patch => ascii "PATCH"
  | .purge => ascii "PURGE"
  | .mkcalendar => ascii "MKCALENDAR"
  | .link => ascii "LINK"
  | .unlink => ascii "UNLINK"

/-! ## The parsed URL -/

/-- The texts of the parsed fields and the port. -/
structure ParsedUrl where
  port : UInt16
  schema : Text
  host : Text
  path : Text
  query : Text
  userinfo : Text

namespace ParsedUrl

/-- `value` of a field: the chars that `field_data` says, and an empty text for a field that
is not set. http_parsed_url.h:30-38 -/
def value (url : Text) (u : HttpParserUrl) (uf : UrlField) : Text :=
  match u.field uf with
  | some f => cstr ((url.drop f.off.toNat).take f.len.toNat)
  | none => []

/-- http_parsed_url.h:25-68 -/
def new (url : Text) : ParsedUrl :=
  let u := (httpParserParseUrl url).2
  { port :=
      if u.port = 0 then (if value url u .schema = ascii "https" then 443 else 80) else u.port
    schema := value url u .schema
    host := value url u .host
    path := if value url u .path = [] then ascii "/" else value url u .path
    query := value url u .query
    userinfo := value url u .userinfo }

end ParsedUrl

/-! ## The builder -/

/-- `bytes` are written at an offset of a buffer. -/
def poke (mem : List Byte) (off : ℕ) (bytes : List Byte) : Option (List Byte) :=
  if off + bytes.length ≤ mem.length then
    some (mem.take off ++ bytes ++ mem.drop (off + bytes.length))
  else none

/-- `headers` is a `map`, which keeps its keys in order. -/
structure HttpRequestBuilder where
  method : HttpMethod
  parsedUrl : ParsedUrl
  headers : List (Text × Text) := []

namespace HttpRequestBuilder

/-- An insertion into the ordered map of the headers. -/
def insertHeader (key value : Text) : List (Text × Text) → List (Text × Text)
  | [] => [(key, value)]
  | h :: rest =>
    if h.1 = key then (key, value) :: rest
    else if key < h.1 then (key, value) :: h :: rest
    else h :: insertHeader key value rest

/-- http_request_builder.h:50-59 -/
def setHeader (b : HttpRequestBuilder) (key value : Text) : HttpRequestBuilder :=
  { b with headers := insertHeader key value b.headers }

/-- http_request_builder.h:28-44 -/
def new (method : HttpMethod) (u : ParsedUrl) : HttpRequestBuilder :=
  let portStr := chr ':' :: fmtD (u.port.toNat : ℤ)
  let host :=
    if u.schema = ascii "http" ∧ u.port ≠ 80 then u.host ++ portStr
    else if u.schema = ascii "https" ∧ u.port ≠ 443 then u.host ++ portStr
    else u.host
  setHeader { method := method, parsedUrl := u } (ascii "Host") host

/-- http_request_builder.h:64-68 -/
def setLength (b : HttpRequestBuilder) (bodySize : ℕ) : HttpRequestBuilder :=
  if b.method = .post ∨ b.method = .put ∨ b.method = .delete ∨ bodySize > 0 then
    b.setHeader (ascii "Content-Length") ((fmtD (UInt32.ofNat bodySize).toInt32.toInt).take 9)
  else b

/-- The first line without its end, and what is counted for it.
http_request_builder.h:73, 95-100 -/
def firstLine (b : HttpRequestBuilder) : Text :=
  if b.parsedUrl.query.length ≠ 0 then
    httpMethodStr b.method ++ ascii " " ++ b.parsedUrl.path ++ ascii "?" ++ b.parsedUrl.query ++
      ascii " HTTP/1.1\r\n"
  else
    httpMethodStr b.method ++ ascii " " ++ b.parsedUrl.path ++ b.parsedUrl.query ++
      ascii " HTTP/1.1\r\n"

/-- The size counted for the first line. -/
def firstSize (b : HttpRequestBuilder) : ℕ :=
  (httpMethodStr b.method).length + 1 + b.parsedUrl.path.length +
    (if b.parsedUrl.query.length ≠ 0 then b.parsedUrl.query.length + 1 else 0) + 1 + 8 + 2

/-- The line of a header, and what is counted for it.
http_request_builder.h:79, 105-106 -/
def headerLine (h : Text × Text) : Text := cstr h.1 ++ ascii ": " ++ cstr h.2 ++ ascii "\r\n"

/-- The size counted for a header line. -/
def headerSize (h : Text × Text) : ℕ := h.1.length + 1 + 1 + h.2.length + 2

/-- `sprintf(req, ...); req += count;` -/
def print (req : List Byte × ℕ) (text : Text) (count : ℕ) : Option (List Byte × ℕ) :=
  (poke req.1 req.2 (text ++ [0])).map fun mem => (mem, req.2 + count)

/-- `build`: what is in the buffer after it, of which all but the last byte are sent.
http_request_builder.h:61-126 -/
def build (b : HttpRequestBuilder) (body : List Byte) : Option (List Byte) :=
  let b := b.setLength body.length
  let size := b.firstSize + (b.headers.map headerSize).sum + 2 + body.length + 2
  let calloc := List.replicate (size + 1) (0 : Byte)
  (print (calloc, 0) b.firstLine b.firstSize).bind fun req =>
    (b.headers.foldlM (fun req h => print req (headerLine h) (headerSize h)) req).bind fun req =>
      (print req (ascii "\r\n") 2).bind fun req =>
        (poke req.1 req.2 body).bind fun mem =>
          (print (mem, req.2 + body.length) (ascii "\r\n") 2).map fun req => req.1.take size

end HttpRequestBuilder

/-! ## The request -/

/-- Whom a request is sent to and its bytes. -/
structure HttpMessage where
  host : Text
  port : UInt16
  bytes : Option (List Byte)
deriving DecidableEq

/-- `HttpRequest(network, method, url)` and `send(body)`, when the connection is made.
http_request.h:54-66, 118-146 -/
def httpRequest (method : HttpMethod) (url : Text) (body : List Byte) : HttpMessage :=
  let parsedUrl := ParsedUrl.new url
  { host := parsedUrl.host
    port := parsedUrl.port
    bytes := (HttpRequestBuilder.new method parsedUrl).build body }

end WeightScale
