import WsGateway.Http.Rendering

/-!
# The request of `asyncHttpClient`

How the client assembles a request from a message, and the text that it
writes. The container of the fields is Beast's, whose rules for setting a
field are those of `Lib.Http.Fields`; what else the client leaves to Beast is
a parameter.
-/

namespace WsGateway.Http

open Lib Lib.Http Lib.Stream

def arrivedTimeName : Bytes := ascii "X-Arrived-time"

def clientIdName : Bytes := ascii "X-Client-ID"

def hostName : Bytes := ascii "Host"

def contentLengthName : Bytes := ascii "Content-Length"

def transferEncodingName : Bytes := ascii "Transfer-Encoding"

/-- What the client relies on in Beast, besides the container of the fields. -/
structure Beast where
  /-- `string_to_verb(method) != verb::unknown` -/
  isVerb : Bytes → Bool
  verb_word : ∀ m, isVerb m = true → Word m
  /-- name and value are within the limits of a field -/
  fits : Bytes → Bytes → Bool
  /-- the last coding of a `Transfer-Encoding` is `chunked` -/
  chunked : Bytes → Bool
  /-- the value without that last coding, if something is left -/
  dropChunked : Bytes → Option Bytes
  dropChunked_lineFree : ∀ v w, LineFree v → dropChunked v = some w → LineFree w
  /-- the chunks of a body, and the last chunk -/
  chunkBody : Bytes → Bytes
  length_lt_chunkBody : ∀ body, body.length < (chunkBody body).length

/-- The order in which an unordered map is iterated: any order of its entries. -/
structure HashOrder where
  iterate : Headers → List Field
  perm : ∀ headers, (iterate headers).Perm headers.toFields

structure Request where
  method : Bytes
  target : Bytes
  version : Nat
  fields : Fields
  body : Bytes

/-! ## Assembling -/

def Beast.set (B : Beast) (fs : Fields) (name value : Bytes) : Except StdException Fields :=
  if B.fits name value then .ok (fs.set name value) else .error .lengthError

/-- The loop over the parsed headers. One with a CR or LF in it is skipped. -/
def Beast.setHeaders (B : Beast) (fs : Fields) : List Field → Except StdException Fields
  | [] => .ok fs
  | (header, value) :: headers =>
      if ¬ LineFree header ∨ ¬ LineFree value then B.setHeaders fs headers
      else (B.set fs header value).bind fun fs => B.setHeaders fs headers

def Beast.setNotChunked (B : Beast) (fs : Fields) : Except StdException Fields :=
  match fs.get? transferEncodingName with
  | none => .ok fs
  | some value =>
      match B.dropChunked value with
      | none => .ok (fs.erase transferEncodingName)
      | some rest => B.set fs transferEncodingName rest

/-- `req->prepare_payload()`. -/
def Beast.preparePayload (B : Beast) (req : Request) : Except StdException Request :=
  if req.method = ascii "TRACE" ∧ req.body ≠ [] then .error .invalidArgument
  else if req.body ≠ [] ∨ req.method ∈ [ascii "OPTIONS", ascii "PUT", ascii "POST"] then
    (B.set req.fields contentLengthName (decimal req.body.length)).bind fun fs =>
      (B.setNotChunked fs).bind fun fs => .ok { req with fields := fs }
  else
    (B.setNotChunked req.fields).bind fun fs => .ok { req with fields := fs }

def versionNumber (version : Bytes) : Nat :=
  if version = ascii "HTTP/1.1" then 11 else if version = ascii "HTTP/1.0" then 10 else 11

/-- `asyncHttpClient` up to its first suspension: the request without `Host`. -/
def assembleRequest (B : Beast) (order : HashOrder) (msg clientID t : Bytes) :
    Except StdException Request :=
  (createRequestFromBuffer msg).bind fun r =>
    if B.isVerb r.method = false then .error .invalidArgument
    else
      (B.setHeaders Fields.empty (order.iterate r.headers)).bind fun fs =>
        (B.set fs arrivedTimeName t).bind fun fs =>
          (B.set fs clientIdName clientID).bind fun fs =>
            let req : Request := ⟨r.method, r.url, versionNumber r.version, fs, []⟩
            if r.body = [] then .ok req else B.preparePayload { req with body := r.body }

/-- `req->set(http::field::host, host)`, once the connection stands. -/
def Beast.setHost (B : Beast) (req : Request) (host : Bytes) : Except StdException Request :=
  (B.set req.fields hostName host).bind fun fs => .ok { req with fields := fs }

def writtenRequest (B : Beast) (order : HashOrder) (msg clientID t host : Bytes) :
    Except StdException Request :=
  (assembleRequest B order msg clientID t).bind fun req => B.setHost req host

/-! ## The text -/

/-- Beast keeps a target with its blank, so an empty one leaves no blank. -/
def Request.startLine (req : Request) : Bytes :=
  req.method ++ (if req.target = [] then [] else sp :: req.target) ++
    (ascii " HTTP/" ++ [digitChar (req.version / 10)] ++ ascii "." ++
      [digitChar (req.version % 10)])

def Beast.isChunked (B : Beast) : Option Bytes → Bool
  | none => false
  | some value => B.chunked value

def Beast.writtenBody (B : Beast) (req : Request) : Bytes :=
  if B.isChunked (req.fields.get? transferEncodingName) then B.chunkBody req.body else req.body

/-- What `http::async_write` sends. -/
def Beast.serialize (B : Beast) (req : Request) : Bytes :=
  req.startLine ++ (crlf ++ (renderFields req.fields.toList ++ B.writtenBody req))

/-! ## What is assembled -/

/-- The parsed headers that the loop does not skip, in the order of iteration. -/
def forwarded (order : HashOrder) (headers : Headers) : List Field :=
  (order.iterate headers).filter fun e => LineFree e.1 ∧ LineFree e.2

theorem set_eq_ok {B : Beast} {fs fs' : Fields} {name value : Bytes} :
    B.set fs name value = .ok fs' ↔ B.fits name value = true ∧ fs' = fs.set name value := by
  unfold Beast.set
  split
  · rename_i h
    simp only [h, true_and, Except.ok.injEq]
    exact eq_comm
  · rename_i h
    simp [h]

theorem setHeaders_eq_ok {B : Beast} {fs fs' : Fields} {es : List Field} :
    B.setHeaders fs es = .ok fs' ↔
      (∀ e ∈ es.filter fun e => LineFree e.1 ∧ LineFree e.2, B.fits e.1 e.2 = true) ∧
        fs' = fs.setAll (es.filter fun e => LineFree e.1 ∧ LineFree e.2) := by
  induction es generalizing fs with
  | nil =>
      simp only [Beast.setHeaders, Fields.setAll, List.filter_nil, List.foldl_nil,
        List.not_mem_nil, false_implies, implies_true, true_and, Except.ok.injEq]
      exact eq_comm
  | cons e es ih =>
      rcases e with ⟨header, value⟩
      rw [Beast.setHeaders]
      by_cases h : LineFree header ∧ LineFree value
      · rw [if_neg (by tauto), bind_eq_ok, List.filter_cons_of_pos (by simpa using h)]
        simp only [set_eq_ok, ih, List.forall_mem_cons]
        constructor
        · intro hset
          rcases hset with ⟨_, ⟨hfit, rfl⟩, hall, rfl⟩
          exact ⟨⟨hfit, hall⟩, rfl⟩
        · intro hall
          rcases hall with ⟨⟨hfit, hall⟩, rfl⟩
          exact ⟨_, ⟨hfit, rfl⟩, hall, rfl⟩
      · rw [if_pos (by tauto), ih, List.filter_cons_of_neg (by simpa using h)]

def Beast.notChunked (B : Beast) (fs : Fields) : Fields :=
  match fs.get? transferEncodingName with
  | none => fs
  | some value =>
      match B.dropChunked value with
      | none => fs.erase transferEncodingName
      | some rest => fs.set transferEncodingName rest

theorem setNotChunked_eq_ok {B : Beast} {fs fs' : Fields} :
    B.setNotChunked fs = .ok fs' ↔
      (∀ rest, (fs.get? transferEncodingName).bind B.dropChunked = some rest →
        B.fits transferEncodingName rest = true) ∧ fs' = B.notChunked fs := by
  unfold Beast.setNotChunked Beast.notChunked
  cases hvalue : fs.get? transferEncodingName with
  | none =>
      rw [Except.ok.injEq, eq_comm]
      simp
  | some value =>
      cases hdrop : B.dropChunked value with
      | none =>
          dsimp only
          rw [hdrop, Except.ok.injEq, eq_comm]
          simp [hdrop]
      | some rest => simp [hdrop, set_eq_ok]

theorem get?_notChunked_of_ne {B : Beast} {fs : Fields} {n : Bytes}
    (h : iequals n transferEncodingName = false) : (B.notChunked fs).get? n = fs.get? n := by
  unfold Beast.notChunked
  split
  · rfl
  · split
    · exact Fields.get?_erase_of_ne h
    · exact Fields.get?_set_of_ne h

def identifiedFields (order : HashOrder) (r : ParsedRequest) (clientID t : Bytes) : Fields :=
  ((Fields.empty.setAll (forwarded order r.headers)).set arrivedTimeName t).set
    clientIdName clientID

def framedFields (B : Beast) (body : Bytes) (fs : Fields) : Fields :=
  if body = [] then fs
  else B.notChunked (fs.set contentLengthName (decimal body.length))

/-- Nothing throws while the request is assembled: the method is known, name and
value of every field are within the limits, and a body may be sent. -/
structure Beast.Accepts (B : Beast) (order : HashOrder) (r : ParsedRequest)
    (clientID t : Bytes) : Prop where
  verb : B.isVerb r.method = true
  headers : ∀ e ∈ forwarded order r.headers, B.fits e.1 e.2 = true
  time : B.fits arrivedTimeName t = true
  client : B.fits clientIdName clientID = true
  body : r.body ≠ [] → r.method ≠ ascii "TRACE" ∧
    B.fits contentLengthName (decimal r.body.length) = true ∧
    ∀ rest, (((identifiedFields order r clientID t).set contentLengthName
      (decimal r.body.length)).get? transferEncodingName).bind B.dropChunked = some rest →
        B.fits transferEncodingName rest = true

theorem preparePayload_eq_ok {B : Beast} {req req' : Request} (hbody : req.body ≠ []) :
    B.preparePayload req = .ok req' ↔
      (req.method ≠ ascii "TRACE" ∧
        B.fits contentLengthName (decimal req.body.length) = true ∧
        ∀ rest, ((req.fields.set contentLengthName (decimal req.body.length)).get?
          transferEncodingName).bind B.dropChunked = some rest →
            B.fits transferEncodingName rest = true) ∧
        req' = { req with fields := framedFields B req.body req.fields } := by
  unfold Beast.preparePayload framedFields
  by_cases htrace : req.method = ascii "TRACE"
  · simp [htrace, hbody]
  · rw [if_neg (fun h => htrace h.1), if_pos (.inl hbody), if_neg hbody]
    simp only [bind_eq_ok, set_eq_ok, setNotChunked_eq_ok, Except.ok.injEq]
    constructor
    · intro h
      rcases h with ⟨_, ⟨hlen, rfl⟩, _, ⟨hrest, rfl⟩, hreq⟩
      exact ⟨⟨htrace, hlen, hrest⟩, hreq.symm⟩
    · intro h
      rcases h with ⟨⟨-, hlen, hrest⟩, hreq⟩
      exact ⟨_, ⟨hlen, rfl⟩, _, ⟨hrest, rfl⟩, hreq.symm⟩

theorem assembleRequest_eq_ok {B : Beast} {order : HashOrder} {msg clientID t : Bytes}
    {req : Request} :
    assembleRequest B order msg clientID t = .ok req ↔
      ∃ r, createRequestFromBuffer msg = .ok r ∧ B.Accepts order r clientID t ∧
        req = ⟨r.method, r.url, versionNumber r.version,
          framedFields B r.body (identifiedFields order r clientID t), r.body⟩ := by
  rw [assembleRequest, bind_eq_ok]
  refine exists_congr fun r => and_congr_right fun _ => ?_
  by_cases hverb : B.isVerb r.method = true
  · rw [if_neg (by simp [hverb])]
    simp only [bind_eq_ok, set_eq_ok, setHeaders_eq_ok]
    by_cases hbody : r.body = []
    · simp only [hbody, if_true, framedFields, Except.ok.injEq]
      constructor
      · intro h
        rcases h with ⟨_, ⟨hheaders, rfl⟩, _, ⟨ht, rfl⟩, _, ⟨hc, rfl⟩, hreq⟩
        exact ⟨⟨hverb, hheaders, ht, hc, absurd hbody⟩, hreq.symm⟩
      · intro h
        rcases h with ⟨⟨-, hheaders, ht, hc, -⟩, hreq⟩
        exact ⟨_, ⟨hheaders, rfl⟩, _, ⟨ht, rfl⟩, _, ⟨hc, rfl⟩, hreq.symm⟩
    · simp only [if_neg hbody, @preparePayload_eq_ok _ ⟨_, _, _, _, r.body⟩ _ hbody]
      constructor
      · intro h
        rcases h with ⟨_, ⟨hheaders, rfl⟩, _, ⟨ht, rfl⟩, _, ⟨hc, rfl⟩, hsent, hreq⟩
        exact ⟨⟨hverb, hheaders, ht, hc, fun _ => hsent⟩, hreq⟩
      · intro h
        rcases h with ⟨⟨-, hheaders, ht, hc, hsent⟩, hreq⟩
        exact ⟨_, ⟨hheaders, rfl⟩, _, ⟨ht, rfl⟩, _, ⟨hc, rfl⟩, hsent hbody, hreq⟩
  · rw [if_pos (by simpa using hverb)]
    constructor
    · intro h
      cases h
    · intro h
      exact absurd h.1.verb hverb

theorem writtenRequest_eq_ok_iff {B : Beast} {order : HashOrder} {msg clientID t host : Bytes}
    {req : Request} :
    writtenRequest B order msg clientID t host = .ok req ↔
      ∃ r, createRequestFromBuffer msg = .ok r ∧ B.Accepts order r clientID t ∧
        B.fits hostName host = true ∧
        req = ⟨r.method, r.url, versionNumber r.version,
          (framedFields B r.body (identifiedFields order r clientID t)).set hostName host,
          r.body⟩ := by
  simp only [writtenRequest, Beast.setHost, bind_eq_ok, set_eq_ok, assembleRequest_eq_ok,
    Except.ok.injEq]
  constructor
  · intro h
    rcases h with ⟨_, ⟨r, hparse, haccepts, rfl⟩, _, ⟨hhost, rfl⟩, hreq⟩
    exact ⟨r, hparse, haccepts, hhost, hreq.symm⟩
  · intro h
    rcases h with ⟨r, hparse, haccepts, hhost, hreq⟩
    exact ⟨_, ⟨r, hparse, haccepts, rfl⟩, _, ⟨hhost, rfl⟩, hreq.symm⟩

theorem written_of_writtenRequest {B : Beast} {order : HashOrder} {msg clientID t host : Bytes}
    {req : Request} (h : writtenRequest B order msg clientID t host = .ok req) :
    ∃ r, createRequestFromBuffer msg = .ok r ∧ B.isVerb r.method = true ∧
      req = ⟨r.method, r.url, versionNumber r.version,
        (framedFields B r.body (identifiedFields order r clientID t)).set hostName host,
        r.body⟩ := by
  obtain ⟨r, hparse, haccepts, -, hreq⟩ := writtenRequest_eq_ok_iff.mp h
  exact ⟨r, hparse, haccepts.verb, hreq⟩

theorem get?_transferEncoding (order : HashOrder) (r : ParsedRequest) (clientID t : Bytes) :
    ((identifiedFields order r clientID t).set contentLengthName (decimal r.body.length)).get?
        transferEncodingName =
      Fields.lastValue transferEncodingName (forwarded order r.headers) := by
  have hempty : Fields.empty.get? transferEncodingName = none := rfl
  rw [Fields.get?_set_of_ne (by decide), identifiedFields, Fields.get?_set_of_ne (by decide),
    Fields.get?_set_of_ne (by decide), Fields.get?_setAll, hempty, Option.or_none]

/-- A request without a transfer coding is written if its method is known and its
fields are within the limits. -/
theorem writtenRequest_eq_ok {B : Beast} {order : HashOrder} {msg clientID t host : Bytes}
    {r : ParsedRequest} (hparse : createRequestFromBuffer msg = .ok r)
    (hverb : B.isVerb r.method = true)
    (hfits : ∀ e ∈ forwarded order r.headers, B.fits e.1 e.2 = true)
    (ht : B.fits arrivedTimeName t = true) (hc : B.fits clientIdName clientID = true)
    (hh : B.fits hostName host = true)
    (hbody : r.body ≠ [] → r.method ≠ ascii "TRACE" ∧
      B.fits contentLengthName (decimal r.body.length) = true ∧
      ∀ e ∈ forwarded order r.headers, named transferEncodingName e = false) :
    writtenRequest B order msg clientID t host =
      .ok ⟨r.method, r.url, versionNumber r.version,
        (framedFields B r.body (identifiedFields order r clientID t)).set hostName host,
        r.body⟩ := by
  refine writtenRequest_eq_ok_iff.mpr ⟨r, hparse, ⟨hverb, hfits, ht, hc, fun hb => ?_⟩, hh, rfl⟩
  obtain ⟨htrace, hlen, hte⟩ := hbody hb
  have hlast : Fields.lastValue transferEncodingName (forwarded order r.headers) = none := by
    simpa [Fields.lastValue] using hte
  refine ⟨htrace, hlen, ?_⟩
  rw [get?_transferEncoding, hlast]
  simp

/-! ## An instance -/

def verbs : List Bytes :=
  [ascii "DELETE", ascii "GET", ascii "HEAD", ascii "POST", ascii "PUT", ascii "CONNECT",
    ascii "OPTIONS", ascii "TRACE", ascii "COPY", ascii "LOCK", ascii "MKCOL", ascii "MOVE",
    ascii "PROPFIND", ascii "PROPPATCH", ascii "SEARCH", ascii "UNLOCK", ascii "BIND",
    ascii "REBIND", ascii "UNBIND", ascii "ACL", ascii "REPORT", ascii "MKACTIVITY",
    ascii "CHECKOUT", ascii "MERGE", ascii "M-SEARCH", ascii "NOTIFY", ascii "SUBSCRIBE",
    ascii "UNSUBSCRIBE", ascii "PATCH", ascii "PURGE", ascii "MKCALENDAR", ascii "LINK",
    ascii "UNLINK"]

theorem word_of_verb (m : Bytes) (h : verbs.contains m = true) : Word m := by
  have hwords : ∀ m ∈ verbs, Word m := by decide
  exact hwords m (List.contains_iff_mem.mp h)

def oneChunk (body : Bytes) : Bytes :=
  ascii (String.ofList (Nat.toDigits 16 body.length)) ++ crlf ++ body ++ crlf ++ ascii "0" ++
    crlf ++ crlf

theorem length_lt_oneChunk (body : Bytes) : body.length < (oneChunk body).length := by
  simp only [oneChunk, List.length_append, crlf, List.length_cons, List.length_nil]
  omega

/-- Beast on requests whose transfer coding, if they have one, is `chunked`. -/
def boostBeast : Beast where
  isVerb m := verbs.contains m
  verb_word := word_of_verb
  fits n v := decide (n.length ≤ 65533 ∧ v.length ≤ 65533)
  chunked v := iequals v (ascii "chunked")
  dropChunked v := if iequals v (ascii "chunked") then none else some v
  dropChunked_lineFree := by
    intro v w hv hw
    split at hw
    · cases hw
    · cases hw
      exact hv
  chunkBody := oneChunk
  length_lt_chunkBody := length_lt_oneChunk

def entryOrder : HashOrder where
  iterate headers := headers.toFields
  perm _ := List.Perm.refl _

def oneHeader (name value rest : Bytes) : Bytes :=
  ascii "POST" ++ sp :: (ascii "/" ++ sp :: (ascii "HTTP/1.1" ++ (crlf ++
    (renderFields [(name, value)] ++ rest))))

def oneRequest (headers : Headers) (body : Bytes) : Request :=
  ⟨ascii "POST", ascii "/", 11, (framedFields boostBeast body
    (identifiedFields entryOrder ⟨ascii "POST", ascii "/", ascii "HTTP/1.1", headers, body⟩
      (ascii "VIN1") (toString 5))).set hostName (ascii "backend"), body⟩

theorem written_oneHeader (name value rest : Bytes) (n : Nat)
    (hname : Splits name ∧ lf ∉ name ∧ lf ∉ value) (hfits : boostBeast.fits name value = true)
    (hte : iequals transferEncodingName name = false)
    (hlength : ∀ headers : Headers, headers.toFields = [(name, value)] →
      declaredLength headers = .ok (n : Int))
    (hrest : n ≤ rest.length) (hn : boostBeast.fits contentLengthName (decimal n) = true) :
    ∃ headers : Headers, headers.toFields = [(name, value)] ∧
      createRequestFromBuffer (oneHeader name value rest) =
        .ok ⟨ascii "POST", ascii "/", ascii "HTTP/1.1", headers, rest.take n⟩ ∧
      writtenRequest boostBeast entryOrder (oneHeader name value rest) (ascii "VIN1")
        (toString 5) (ascii "backend") = .ok (oneRequest headers (rest.take n)) := by
  have hmethod : Word (ascii "POST") := by decide
  have hurl : Word (ascii "/") := by decide
  have hversion : Word (ascii "HTTP/1.1") := by decide
  obtain ⟨headers, hfields, hparse⟩ := createRequestFromBuffer_render [(name, value)] rest
    hmethod hurl hversion (by simp) (by simpa using hname) (by simp)
  have hparse := hparse n hrest (hlength headers (by simpa using hfields))
  have hmem : ∀ e ∈ forwarded entryOrder headers, e = (name, value) := by
    intro e he
    have hiterate : entryOrder.iterate headers = [(name, value)] := hfields
    have he := (List.mem_filter.mp he).1
    rw [hiterate] at he
    exact List.mem_singleton.mp he
  have hverb : boostBeast.isVerb (ascii "POST") = true := by decide
  refine ⟨headers, by simpa using hfields, hparse, ?_⟩
  refine writtenRequest_eq_ok hparse hverb ?_ (by decide) (by decide) (by decide) ?_
  · intro e he
    rw [hmem e he]
    exact hfits
  · intro _
    have htrace : ascii "POST" ≠ ascii "TRACE" := by decide
    refine ⟨htrace, by simpa [hrest] using hn, ?_⟩
    intro e he
    rw [hmem e he]
    exact hte

end WsGateway.Http
