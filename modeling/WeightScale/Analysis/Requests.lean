import WeightScale.Analysis.UrlParts

/-!
# The bytes of a request

`build` counts the size of a request before it prints it. What it prints is as long as what
it has counted, so it stays inside the buffer, and what is sent is the whole request: for any
method, any URL, right or not, and any body.
-/

set_option autoImplicit false

namespace WeightScale

open Embedded

/-! ## The buffer -/

/-- Bytes written behind those done take the place of as many old ones. -/
theorem poke_append (done old behind bytes : List Byte) (h : old.length = bytes.length) :
    poke (done ++ (old ++ behind)) done.length bytes = some (done ++ bytes ++ behind) := by
  have hfits : done.length + bytes.length ≤ (done ++ (old ++ behind)).length := by
    simp only [List.length_append, h]
    omega
  rw [poke, if_pos hfits, List.take_left, ← h, ← List.append_assoc, ← List.length_append,
    List.drop_left]

namespace HttpRequestBuilder

/-- What has been printed, in front of `n` bytes that are still zero. -/
def printed (done : List Byte) (n : ℕ) : List Byte × ℕ :=
  (done ++ List.replicate n 0, done.length)

/-- A `memcpy` behind the text so far writes its bytes. -/
theorem poke_printed (done bytes : List Byte) (n : ℕ) :
    poke (printed done (bytes.length + n)).1 (printed done (bytes.length + n)).2 bytes =
      some (printed (done ++ bytes) n).1 := by
  rw [printed, List.replicate_add]
  exact poke_append _ _ _ _ List.length_replicate

/-- A `sprintf` behind the text so far writes its text and a NUL, which needs one byte more. -/
theorem print_printed (done text : List Byte) (n : ℕ) :
    print (printed done (text.length + (n + 1))) text text.length =
      some (printed (done ++ text) (n + 1)) := by
  have hsum : text.length + (n + 1) = (text ++ [0]).length + n := by
    rw [List.length_append, List.length_singleton]
    omega
  have hzero : printed (done ++ (text ++ [0])) n =
      ((printed (done ++ text) (n + 1)).1, (done ++ (text ++ [0])).length) := by
    simp only [printed, List.replicate_succ, List.append_assoc, List.singleton_append]
  rw [print, hsum, poke_printed, hzero, Option.map_some]
  simp only [printed, List.length_append]

/-- A header without NUL prints as long as it has been counted. -/
theorem length_headerLine {h : Text × Text} (hkey : ∀ ch ∈ h.1, ch ≠ 0)
    (hvalue : ∀ ch ∈ h.2, ch ≠ 0) : (headerLine h).length = headerSize h := by
  have hcolon : (ascii ": ").length = 2 := by decide
  have hend : (ascii "\r\n").length = 2 := by decide
  simp only [headerLine, headerSize, cstr_eq_self hkey, cstr_eq_self hvalue, List.length_append,
    hcolon, hend]

/-- The size counted for the first line is its length. -/
theorem length_firstLine (b : HttpRequestBuilder) : b.firstLine.length = b.firstSize := by
  have hspace : (ascii " ").length = 1 := by decide
  have hmark : (ascii "?").length = 1 := by decide
  have hend : (ascii " HTTP/1.1\r\n").length = 11 := by decide
  simp only [firstLine, firstSize]
  split
  · simp only [List.length_append, hspace, hmark, hend]
    omega
  · rename_i hquery
    simp only [List.length_append, hspace, hend]
    omega

/-- The headers hold no NUL. -/
def Plain (b : HttpRequestBuilder) : Prop :=
  ∀ h ∈ b.headers, (∀ ch ∈ h.1, ch ≠ 0) ∧ ∀ ch ∈ h.2, ch ≠ 0

/-- The sizes counted for the headers are the length of their lines. -/
theorem length_headers {hs : List (Text × Text)}
    (hplain : ∀ h ∈ hs, (∀ ch ∈ h.1, ch ≠ 0) ∧ ∀ ch ∈ h.2, ch ≠ 0) :
    (hs.flatMap headerLine).length = (hs.map headerSize).sum := by
  rw [List.length_flatMap]
  refine congrArg List.sum (List.map_congr_left fun h hh => ?_)
  exact length_headerLine (hplain h hh).1 (hplain h hh).2

/-- The loop over the headers. -/
theorem print_headers {hs : List (Text × Text)}
    (hplain : ∀ h ∈ hs, (∀ ch ∈ h.1, ch ≠ 0) ∧ ∀ ch ∈ h.2, ch ≠ 0) (done : List Byte) (n : ℕ) :
    hs.foldlM (fun req h => print req (headerLine h) (headerSize h))
        (printed done ((hs.map headerSize).sum + (n + 1))) =
      some (printed (done ++ hs.flatMap headerLine) (n + 1)) := by
  induction hs generalizing done with
  | nil => simp [printed]
  | cons h hs ih =>
    obtain ⟨hkey, hvalue⟩ := hplain h List.mem_cons_self
    have hlen := length_headerLine hkey hvalue
    have hsum : (List.map headerSize (h :: hs)).sum + (n + 1) =
        (headerLine h).length + ((hs.map headerSize).sum + n + 1) := by
      rw [List.map_cons, List.sum_cons, hlen]
      omega
    rw [List.foldlM_cons, hsum, ← hlen, print_printed]
    show List.foldlM _ (printed (done ++ headerLine h) ((hs.map headerSize).sum + (n + 1))) hs = _
    rw [ih (fun h' hh' => hplain h' (List.mem_cons_of_mem h hh')), List.flatMap_cons,
      List.append_assoc]

/-- **`build` stays in its buffer** and fills all of it. -/
theorem build_eq (b : HttpRequestBuilder) (body : List Byte)
    (hplain : (b.setLength body.length).Plain) :
    b.build body = some ((b.setLength body.length).firstLine ++
      (b.setLength body.length).headers.flatMap headerLine ++ ascii "\r\n" ++ body ++
        ascii "\r\n") := by
  have hend : (ascii "\r\n").length = 2 := by decide
  rw [build]
  generalize b.setLength body.length = b' at hplain
  have hsize : b'.firstSize + (b'.headers.map headerSize).sum + 2 + body.length + 2 + 1 =
      b'.firstLine.length + ((b'.headers.map headerSize).sum + (2 + (body.length + 2) + 1)) := by
    rw [length_firstLine]
    omega
  have hfirst : print (printed [] (b'.firstLine.length + ((b'.headers.map headerSize).sum +
      (2 + (body.length + 2) + 1)))) b'.firstLine b'.firstSize =
      some (printed b'.firstLine ((b'.headers.map headerSize).sum +
        (2 + (body.length + 2) + 1))) := by
    rw [← length_firstLine]
    exact print_printed [] b'.firstLine _
  have hblank (done : List Byte) (n : ℕ) : print (printed done (2 + (n + 1))) (ascii "\r\n") 2 =
      some (printed (done ++ ascii "\r\n") (n + 1)) := by
    have hprint := print_printed done (ascii "\r\n") n
    rwa [hend] at hprint
  have hcalloc : (List.replicate (b'.firstSize + (b'.headers.map headerSize).sum + 2 +
      body.length + 2 + 1) (0 : Byte), 0) = printed [] (b'.firstLine.length +
        ((b'.headers.map headerSize).sum + (2 + (body.length + 2) + 1))) := by
    rw [hsize]
    rfl
  rw [hcalloc, hfirst, Option.bind_some, print_headers hplain, Option.bind_some, Nat.add_assoc 2,
    hblank, Option.bind_some, Nat.add_assoc body.length, poke_printed, Option.bind_some]
  generalize hdone : b'.firstLine ++ b'.headers.flatMap headerLine ++ ascii "\r\n" = done
  have hlength : b'.firstSize + (b'.headers.map headerSize).sum + 2 + body.length + 2 =
      (done ++ body ++ ascii "\r\n").length := by
    simp only [← hdone, List.length_append, hend, length_headers hplain, length_firstLine]
  have hbody : ((printed (done ++ body) (2 + (0 + 1))).1, (printed done (body.length + (2 + 1))).2 +
      body.length) = printed (done ++ body) (2 + (0 + 1)) := by
    simp only [printed, List.length_append]
  rw [hbody, hblank, Option.map_some, hlength, printed, List.take_left]

/-! ## The headers -/

/-- `%d` prints a natural number as its digits. -/
theorem fmtD_natCast (n : ℕ) : fmtD (n : ℤ) = digits n := by
  rw [fmtD, if_neg (by omega), List.nil_append, Int.natAbs_natCast]

/-- The first line asks for path and query as in the URL. -/
theorem firstLine_eq (b : HttpRequestBuilder) : b.firstLine =
    httpMethodStr b.method ++ ascii " " ++ b.parsedUrl.target ++ ascii " HTTP/1.1\r\n" := by
  have hmark : ascii "?" = [chr '?'] := by decide
  rw [firstLine, ParsedUrl.target]
  by_cases hquery : b.parsedUrl.query = []
  · rw [if_neg (by rw [hquery]; decide), if_pos hquery, hquery, List.append_nil, List.append_nil]
  · rw [if_pos (by rwa [Ne, List.length_eq_zero_iff]), if_neg hquery, hmark]
    simp only [List.append_assoc, List.singleton_append]

/-- The only header so far names the host and the port. -/
theorem headers_new (method : HttpMethod) (u : ParsedUrl) :
    (HttpRequestBuilder.new method u).headers = [(ascii "Host", u.hostPort)] := by
  have hport : fmtD (u.port.toNat : ℤ) = digits u.port.toNat := fmtD_natCast _
  simp only [HttpRequestBuilder.new, setHeader, insertHeader, hport, ParsedUrl.hostPort]
  by_cases hhttp : u.schema = ascii "http" ∧ u.port ≠ 80
  · rw [if_pos hhttp, if_pos (.inl hhttp)]
  · by_cases hhttps : u.schema = ascii "https" ∧ u.port ≠ 443
    · rw [if_neg hhttp, if_pos hhttps, if_pos (.inr hhttps)]
    · rw [if_neg hhttp, if_neg hhttps, if_neg (by rintro (h | h); exacts [hhttp h, hhttps h])]

/-- The length of a body of less than a billion bytes fits `buffer[10]`. -/
theorem declared_length {n : ℕ} (hn : n < 10 ^ 9) :
    (fmtD (UInt32.ofNat n).toInt32.toInt).take 9 = digits n := by
  have hint : (UInt32.ofNat n).toInt32.toInt = (n : ℤ) := by
    show (Int32.ofNat n).toInt = (n : ℤ)
    exact Int32.toInt_ofNat_of_lt (by omega)
  rw [hint, fmtD_natCast]
  exact List.take_of_length_le (length_digits_le (by decide) hn)

/-- The headers in the order of their keys. -/
theorem headers_setLength (method : HttpMethod) (u : ParsedUrl) {body : List Byte}
    (hbody : body.length < 10 ^ 9) :
    ((HttpRequestBuilder.new method u).setLength body.length).headers =
      (if method.hasLength body then [(ascii "Content-Length", digits body.length)] else []) ++
        [(ascii "Host", u.hostPort)] := by
  have hiff : (method = .post ∨ method = .put ∨ method = .delete ∨ body.length > 0) ↔
      method.hasLength body := by
    rw [HttpMethod.hasLength, gt_iff_lt, List.length_pos_iff]
  have hmethod : (HttpRequestBuilder.new method u).method = method := rfl
  rw [setLength, hmethod, if_congr hiff rfl rfl]
  split
  · rw [setHeader, headers_new, declared_length hbody]
    have hne : ¬ ascii "Host" = ascii "Content-Length" := by decide
    have hlt : ascii "Content-Length" < ascii "Host" := by decide
    show insertHeader _ _ _ = _
    rw [insertHeader, if_neg hne, if_pos hlt]
    rfl
  · exact headers_new method u

/-- The parsed parts hold no NUL. -/
theorem ne_zero_of_mem_value {url : Text} {u : HttpParserUrl} {uf : UrlField} :
    ∀ ch ∈ ParsedUrl.value url u uf, ch ≠ 0 := by
  intro ch hch
  rw [ParsedUrl.value] at hch
  split at hch
  · exact ne_zero_of_mem_cstr hch
  · cases hch

/-- A text checked char by char holds no NUL. -/
theorem ne_zero_of_all {t : Text} (h : t.all (· != 0) = true) : ∀ ch ∈ t, ch ≠ 0 :=
  fun ch hch => bne_iff_ne.1 (List.all_eq_true.1 h ch hch)

/-- Digits hold no NUL. -/
theorem ne_zero_of_mem_digits {n : ℕ} : ∀ ch ∈ digits n, ch ≠ 0 := by
  rintro ch hch rfl
  exact absurd (isNum_digits 0 hch) (by decide)

/-- A new request holds no NUL in anything it prints. -/
theorem plain_new (method : HttpMethod) (url : Text) {body : List Byte}
    (hbody : body.length < 10 ^ 9) :
    ((HttpRequestBuilder.new method (ParsedUrl.new url)).setLength body.length).Plain := by
  have hhost : ∀ ch ∈ (ParsedUrl.new url).hostPort, ch ≠ 0 := by
    intro ch hch
    rw [ParsedUrl.hostPort] at hch
    split at hch
    · rcases List.mem_append.1 hch with hch | hch
      · exact ne_zero_of_mem_value ch hch
      · rcases List.mem_cons.1 hch with rfl | hch
        · decide
        · exact ne_zero_of_mem_digits ch hch
    · exact ne_zero_of_mem_value ch hch
  have hlengthKey : ∀ ch ∈ ascii "Content-Length", ch ≠ 0 := ne_zero_of_all (by decide)
  have hhostKey : ∀ ch ∈ ascii "Host", ch ≠ 0 := ne_zero_of_all (by decide)
  rw [Plain, headers_setLength _ _ hbody]
  intro h hh
  rcases List.mem_append.1 hh with hh | hh
  · split at hh
    · obtain rfl := List.mem_singleton.1 hh
      exact ⟨hlengthKey, ne_zero_of_mem_digits⟩
    · cases hh
  · obtain rfl := List.mem_singleton.1 hh
    exact ⟨hhostKey, hhost⟩

/-- The length of the body is not in the first line. -/
theorem firstLine_setLength (b : HttpRequestBuilder) (n : ℕ) :
    (b.setLength n).firstLine = b.firstLine := by
  rw [setLength]
  split <;> rfl

/-- The lines of the headers. -/
theorem headerLines_setLength (method : HttpMethod) (url : Text) {body : List Byte}
    (hbody : body.length < 10 ^ 9) :
    ((HttpRequestBuilder.new method (ParsedUrl.new url)).setLength body.length).headers.flatMap
        headerLine =
      (if method.hasLength body then
        ascii "Content-Length: " ++ digits body.length ++ ascii "\r\n" else []) ++
        (ascii "Host: " ++ (ParsedUrl.new url).hostPort ++ ascii "\r\n") := by
  have hplain := plain_new method url hbody
  rw [Plain, headers_setLength _ _ hbody] at hplain
  have hline (h : Text × Text) (hkey : ∀ ch ∈ h.1, ch ≠ 0) (hvalue : ∀ ch ∈ h.2, ch ≠ 0) :
      headerLine h = h.1 ++ ascii ": " ++ h.2 ++ ascii "\r\n" := by
    rw [headerLine, cstr_eq_self hkey, cstr_eq_self hvalue]
  have hlengthKey : ascii "Content-Length" ++ ascii ": " = ascii "Content-Length: " := by decide
  have hhostKey : ascii "Host" ++ ascii ": " = ascii "Host: " := by decide
  obtain ⟨hkey, hvalue⟩ := hplain _ (List.mem_append_right _ (List.mem_singleton_self _))
  rw [headers_setLength _ _ hbody, List.flatMap_append, List.flatMap_singleton,
    hline _ hkey hvalue, hhostKey]
  congr 1
  split
  · have hplainKey : ∀ ch ∈ ascii "Content-Length", ch ≠ 0 := ne_zero_of_all (by decide)
    rw [List.flatMap_singleton, hline _ hplainKey ne_zero_of_mem_digits, hlengthKey]
  · rfl

/-- A built request is its text, whole and no longer. -/
theorem build_new (method : HttpMethod) (url : Text) {body : List Byte}
    (hbody : body.length < 10 ^ 9) : (HttpRequestBuilder.new method (ParsedUrl.new url)).build body =
      some (requestText method (ParsedUrl.new url) body) := by
  have hbuild := build_eq (HttpRequestBuilder.new method (ParsedUrl.new url)) body
    (plain_new method url hbody)
  rw [headerLines_setLength method url hbody, firstLine_setLength, firstLine_eq] at hbuild
  refine hbuild.trans (congrArg some ?_)
  simp only [requestText, List.append_assoc]
  rfl

end HttpRequestBuilder

/-- **A request is whole.** Whatever the URL, right or not: `build` never leaves its buffer,
and what is sent is all of the request. -/
theorem request_whole (method : HttpMethod) (url : Text) {body : List Byte}
    (hbody : body.length < 10 ^ 9) : httpRequest method url body =
      ⟨(ParsedUrl.new url).host, (ParsedUrl.new url).port,
        some (requestText method (ParsedUrl.new url) body)⟩ := by
  rw [httpRequest, HttpRequestBuilder.build_new method url hbody]

/-- A request with a body, to a URL that is not right: it is cut at the blank. -/
theorem request_whole_post : httpRequest .post (ascii "http://a.b/c d") (ascii "e") =
    ⟨ascii "a.b", 80, some
      (ascii "POST /c HTTP/1.1\r\nContent-Length: 1\r\nHost: a.b\r\n\r\ne\r\n")⟩ := by
  rw [request_whole .post (ascii "http://a.b/c d") (by decide)]
  decide

/-! ## Requests without a body -/

namespace UrlParts

/-- The bytes of a request to `host`. -/
def getText (host target : Text) : List Byte :=
  ascii "GET " ++ target ++ ascii " HTTP/1.1\r\nHost: " ++ host ++ ascii "\r\n\r\n\r\n"

/-- A request to a URL that may be followed by a blank and more. -/
theorem httpRequest_get (p : UrlParts) (hbare : p.Bare) (hschema : p.schema = ascii "http")
    (hpath : p.path ≠ []) (hquery : p.query ≠ some []) {rest : Text}
    (hrest : rest = [] ∨ ∃ t, rest = chr ' ' :: t) (hlen : (p.text ++ rest).length < 2 ^ 16) :
    httpRequest .get (p.text ++ rest) [] =
      ⟨p.host, 80, some (getText p.host (p.path ++ behind (chr '?') p.query))⟩ := by
  have hnew : ParsedUrl.new (p.text ++ rest) = p.parsed := by
    rcases hrest with rfl | ⟨t, rfl⟩
    · rw [List.append_nil] at hlen ⊢
      exact p.new_text hlen
    · exact p.new_cut hbare hlen
  have hport : p.parsed.port = 80 := by
    have hhttps : ¬ ascii "http" = ascii "https" := by decide
    rw [parsed, defaultPort, hbare.2.1, hschema, if_neg hhttps]
    rfl
  have hhost : p.parsed.hostPort = p.host := by
    have hhttps : ¬ ascii "http" = ascii "https" := by decide
    rw [ParsedUrl.hostPort, hport]
    refine if_neg ?_
    rintro (⟨-, h⟩ | ⟨h, -⟩)
    · exact h rfl
    · exact hhttps (hschema.symm.trans h)
  have htarget : p.parsed.target = p.path ++ behind (chr '?') p.query := by
    show (if p.path = [] then _ else p.path) ++ (if p.query.getD [] = [] then _ else _) = _
    rw [if_neg hpath]
    cases h : p.query with
    | none => rfl
    | some t =>
      have ht : t ≠ [] := fun ht => hquery (h.trans (congrArg some ht))
      show p.path ++ (if t = [] then [] else chr '?' :: p.query.getD []) = p.path ++ chr '?' :: t
      rw [if_neg ht, h]
      rfl
  have hget : httpMethodStr .get ++ ascii " " = ascii "GET " := by decide
  have hend : ascii " HTTP/1.1\r\n" ++ ascii "Host: " = ascii " HTTP/1.1\r\nHost: " := by decide
  have hblank : ascii "\r\n" ++ (ascii "\r\n" ++ ascii "\r\n") = ascii "\r\n\r\n\r\n" := by decide
  rw [httpRequest, HttpRequestBuilder.build_new .get _ (by decide), hnew]
  show HttpMessage.mk p.host p.parsed.port (some (requestText .get p.parsed [])) = _
  rw [hport, requestText, hhost, htarget, if_neg (by decide), hget, getText, List.append_nil,
    List.append_nil]
  simp only [List.append_assoc]
  rw [hblank, ← List.append_assoc (ascii " HTTP/1.1\r\n"), hend]

end UrlParts

end WeightScale
