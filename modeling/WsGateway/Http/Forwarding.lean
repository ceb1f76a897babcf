import WsGateway.Http.Framing
import WsGateway.Http.Identity

/-!
# Forwarding of well-formed requests

A client that sends a well-formed request as one message has it forwarded:
method, url, version and body are kept, and the fields are kept as a set,
except for the three that the gateway sets itself.
-/

namespace WsGateway.Http

open Lib Lib.Http Lib.Stream

inductive HttpVersion
  | http10
  | http11
deriving DecidableEq, Repr

def HttpVersion.text : HttpVersion → Bytes
  | .http10 => ascii "HTTP/1.0"
  | .http11 => ascii "HTTP/1.1"

structure ClientRequest (B : Beast) where
  method : Bytes
  url : Bytes
  version : HttpVersion
  fields : List Field
  body : Bytes
  method_known : B.isVerb method = true
  url_word : Word url
  fields_ne : fields ≠ []
  names : ∀ f ∈ fields, f.1 ≠ [] ∧ colon ∉ f.1 ∧ LineFree f.1
  distinct : fields.Pairwise Apart
  values : ∀ f ∈ fields, LineFree f.2 ∧ Trimmed f.2
  fits : ∀ f ∈ fields, B.fits f.1 f.2 = true
  no_coding : ∀ f ∈ fields, named transferEncodingName f = false
  length_name : ∀ f ∈ fields, named contentLengthName f = true → f.1 = contentLengthName
  length_body : body ≠ [] → (contentLengthName, decimal body.length) ∈ fields
  length_zero : body = [] → ∀ value, (contentLengthName, value) ∈ fields → value = decimal 0
  body_lt : body.length < 2 ^ 31
  trace_body : method = ascii "TRACE" → body = []

namespace ClientRequest

variable {B : Beast} (q : ClientRequest B)

def text : Bytes := renderRequest q.method q.url q.version.text q.fields q.body

/-! ## Parsing it -/

theorem declaredLength_eq {headers : Headers} (h : headers.toFields = q.fields.reverse) :
    declaredLength headers = .ok (q.body.length : Int) := by
  by_cases hkey : contentLengthKey ∈ headers.toFields.map Prod.fst
  · obtain ⟨⟨name, value⟩, hmem, hname⟩ := List.mem_map.mp hkey
    obtain rfl : name = contentLengthKey := hname
    have hfield : (contentLengthName, value) ∈ q.fields := by
      rw [h, List.mem_reverse] at hmem
      exact hmem
    have hvalue : value = decimal q.body.length := by
      by_cases hb : q.body = []
      · rw [q.length_zero hb value hfield, hb, List.length_nil]
      · by_contra hne
        have happart : Apart (contentLengthName, value)
            (contentLengthName, decimal q.body.length) :=
          q.distinct.forall hfield (q.length_body hb) (by simpa using hne)
        exact not_apart_of_named (named_self _ _) (named_self _ _) happart
    rw [declaredLength_of_mem hmem, hvalue, stoi_decimal q.body_lt]
  · have hb : q.body = [] := by
      by_contra hb
      refine hkey (List.mem_map.mpr ⟨(contentLengthName, decimal q.body.length), ?_, rfl⟩)
      rw [h, List.mem_reverse]
      exact q.length_body hb
    rw [declaredLength_of_not_mem hkey, hb]
    rfl

theorem names_nodup : (q.fields.map Prod.fst).Nodup := by
  rw [List.Nodup, List.pairwise_map]
  refine q.distinct.imp ?_
  intro f g happart heq
  rw [Apart, heq, iequals_refl] at happart
  cases happart

theorem parse_text : ∃ headers : Headers, headers.toFields = q.fields.reverse ∧
    createRequestFromBuffer q.text =
      .ok ⟨q.method, q.url, q.version.text, headers, q.body⟩ := by
  have hversion : Word q.version.text := by
    cases q.version <;> decide
  obtain ⟨headers, hfields, hparse⟩ := createRequestFromBuffer_render q.fields q.body
    (B.verb_word _ q.method_known) q.url_word hversion q.fields_ne
    (fun f hf => ⟨splits_of_not_mem (q.names f hf).2.1, (q.names f hf).2.2.2,
      (q.values f hf).1.2⟩) q.names_nodup
  refine ⟨headers, hfields, ?_⟩
  have hall := hparse q.body.length (Nat.le_refl _) (q.declaredLength_eq hfields)
  rwa [List.take_length] at hall

/-! ## The fields of the request that is written -/

variable {q} {order : HashOrder} {headers : Headers}

theorem forwarded_perm (h : headers.toFields = q.fields.reverse) :
    (forwarded order headers).Perm q.fields := by
  have hperm : (order.iterate headers).Perm q.fields := by
    refine (order.perm headers).trans ?_
    rw [h]
    exact List.reverse_perm q.fields
  have hall : forwarded order headers = order.iterate headers := by
    rw [forwarded, List.filter_eq_self]
    intro f hf
    have hq := hperm.mem_iff.mp hf
    simpa using ⟨(q.names f hq).2.2, (q.values f hq).1⟩
  rw [hall]
  exact hperm

theorem mem_setAll (h : headers.toFields = q.fields.reverse) {f : Field} :
    f ∈ (Fields.empty.setAll (forwarded order headers)).toList ↔ f ∈ q.fields := by
  have hperm : (forwarded order headers).Perm q.fields := forwarded_perm h
  have hpair : (forwarded order headers).Pairwise Apart :=
    (hperm.pairwise_iff fun hab => Std.Symm.symm _ _ hab).mpr q.distinct
  rw [Fields.mem_setAll_of_pairwise hpair]
  constructor
  · intro hset
    rcases hset with ⟨e, he, rfl⟩
    have hq := hperm.mem_iff.mp he
    rwa [(q.values e hq).2]
  · intro hf
    exact ⟨f, hperm.mem_iff.mpr hf, by rw [(q.values f hf).2]⟩

def parsed (q : ClientRequest B) (headers : Headers) : ParsedRequest :=
  ⟨q.method, q.url, q.version.text, headers, q.body⟩

theorem lastValue_coding (h : headers.toFields = q.fields.reverse) :
    Fields.lastValue transferEncodingName (forwarded order headers) = none := by
  have hall : ∀ f ∈ forwarded order headers, named transferEncodingName f = false :=
    fun f hf => q.no_coding f ((forwarded_perm h).mem_iff.mp hf)
  simpa [Fields.lastValue] using hall

theorem mem_identifiedFields (h : headers.toFields = q.fields.reverse) {clientID t : Bytes}
    {f : Field} : f ∈ (identifiedFields order (q.parsed headers) clientID t).toList ↔
      (f ∈ q.fields ∧ named arrivedTimeName f = false ∧ named clientIdName f = false) ∨
        f = (arrivedTimeName, trim t) ∨ f = (clientIdName, trim clientID) := by
  have hapart : iequals clientIdName arrivedTimeName = false := by decide
  rw [identifiedFields, Fields.mem_set, Fields.mem_set, parsed, mem_setAll h]
  constructor
  · intro hcases
    rcases hcases with ⟨⟨hf, hn⟩ | rfl, hn'⟩ | rfl
    · exact .inl ⟨hf, hn, hn'⟩
    · exact .inr (.inl rfl)
    · exact .inr (.inr rfl)
  · intro hcases
    rcases hcases with ⟨hf, hn, hn'⟩ | rfl | rfl
    · exact .inl ⟨.inl ⟨hf, hn⟩, hn'⟩
    · exact .inl ⟨.inr rfl, hapart⟩
    · exact .inr rfl

/-- Framing the body writes the length that the client has declared. -/
theorem mem_framedFields (h : headers.toFields = q.fields.reverse) {clientID t : Bytes}
    {f : Field} :
    f ∈ (framedFields B q.body (identifiedFields order (q.parsed headers) clientID t)).toList ↔
      f ∈ (identifiedFields order (q.parsed headers) clientID t).toList := by
  unfold framedFields
  split
  · rfl
  · rename_i hb
    have hnone : ((identifiedFields order (q.parsed headers) clientID t).set contentLengthName
        (decimal q.body.length)).get? transferEncodingName = none := by
      exact (get?_transferEncoding order (q.parsed headers) clientID t).trans (lastValue_coding h)
    have hlength : (contentLengthName, decimal q.body.length) ∈
        (identifiedFields order (q.parsed headers) clientID t).toList :=
      (mem_identifiedFields h).mpr (.inl ⟨q.length_body hb,
        (by decide : iequals arrivedTimeName contentLengthName = false),
        (by decide : iequals clientIdName contentLengthName = false)⟩)
    have htrim : trim (decimal q.body.length) = decimal q.body.length :=
      (q.values _ (q.length_body hb)).2
    rw [Beast.notChunked, hnone]
    dsimp only
    rw [Fields.mem_set, htrim]
    constructor
    · intro hcases
      rcases hcases with ⟨hf, -⟩ | rfl
      · exact hf
      · exact hlength
    · intro hf
      cases hn : named contentLengthName f with
      | false => exact .inl ⟨hf, rfl⟩
      | true => exact .inr (Fields.eq_of_named hf hlength hn (named_self _ _))

def written (q : ClientRequest B) (order : HashOrder) (headers : Headers)
    (clientID t host : Bytes) : Request :=
  ⟨q.method, q.url, versionNumber q.version.text,
    (framedFields B q.body (identifiedFields order (q.parsed headers) clientID t)).set
      hostName host, q.body⟩

theorem mem_written (h : headers.toFields = q.fields.reverse) {clientID t host : Bytes}
    {f : Field} : f ∈ (q.written order headers clientID t host).fields.toList ↔
      (f ∈ q.fields ∧ named arrivedTimeName f = false ∧ named clientIdName f = false ∧
        named hostName f = false) ∨
      f = (arrivedTimeName, trim t) ∨ f = (clientIdName, trim clientID) ∨
        f = (hostName, trim host) := by
  have htime : iequals hostName arrivedTimeName = false := by decide
  have hid : iequals hostName clientIdName = false := by decide
  rw [written, Fields.mem_set, mem_framedFields h, mem_identifiedFields h]
  constructor
  · intro hcases
    rcases hcases with ⟨⟨hf, hn, hn'⟩ | rfl | rfl, hh⟩ | rfl
    · exact .inl ⟨hf, hn, hn', hh⟩
    · exact .inr (.inl rfl)
    · exact .inr (.inr (.inl rfl))
    · exact .inr (.inr (.inr rfl))
  · intro hcases
    rcases hcases with ⟨hf, hn, hn', hh⟩ | rfl | rfl | rfl
    · exact .inl ⟨.inl ⟨hf, hn, hn'⟩, hh⟩
    · exact .inl ⟨.inr (.inl rfl), htime⟩
    · exact .inl ⟨.inr (.inr rfl), hid⟩
    · exact .inr rfl

theorem serialize_written (h : headers.toFields = q.fields.reverse) {clientID t host : Bytes} :
    B.serialize (q.written order headers clientID t host) =
      renderRequest q.method q.url q.version.text
        (q.written order headers clientID t host).fields.toList q.body := by
  have hcoding : (q.written order headers clientID t host).fields.get? transferEncodingName =
      none := by
    rw [Fields.get?_eq_none]
    intro f hf
    rcases (mem_written h).mp hf with ⟨hf, -⟩ | rfl | rfl | rfl
    · exact q.no_coding f hf
    · exact (by decide : iequals transferEncodingName arrivedTimeName = false)
    · exact (by decide : iequals transferEncodingName clientIdName = false)
    · exact (by decide : iequals transferEncodingName hostName = false)
  have hversion : ascii " HTTP/" ++ [digitChar (versionNumber q.version.text / 10)] ++
      ascii "." ++ [digitChar (versionNumber q.version.text % 10)] = sp :: q.version.text := by
    cases q.version <;> decide
  have hstart : (q.written order headers clientID t host).startLine =
      q.method ++ sp :: (q.url ++ sp :: q.version.text) := by
    rw [Request.startLine, written, if_neg q.url_word.1, hversion]
    simp
  rw [Beast.serialize, Beast.writtenBody, hcoding, hstart, renderRequest]
  simp [Beast.isChunked, written]

theorem writtenRequest_text (h : headers.toFields = q.fields.reverse)
    (hparse : createRequestFromBuffer q.text = .ok (q.parsed headers))
    {clientID t host : Bytes} (ht : B.fits arrivedTimeName t = true)
    (hc : B.fits clientIdName clientID = true) (hh : B.fits hostName host = true) :
    writtenRequest B order q.text clientID t host =
      .ok (q.written order headers clientID t host) := by
  refine writtenRequest_eq_ok hparse q.method_known ?_ ht hc hh ?_
  · intro f hf
    exact q.fits f ((forwarded_perm h).mem_iff.mp hf)
  · intro hb
    refine ⟨fun htrace => hb (q.trace_body htrace), q.fits _ (q.length_body hb), ?_⟩
    intro f hf
    exact q.no_coding f ((forwarded_perm h).mem_iff.mp hf)

end ClientRequest

/-- A well-formed request is written with the same method, url, version and body,
and with the same fields but for the arrival time, the client id and the host;
it is written whenever these three fit into fields. -/
theorem forwarding_is_transparent {B : Beast} (order : HashOrder) (q : ClientRequest B)
    (clientID host : Bytes) (ns : Int) :
    (B.fits arrivedTimeName (toString ns) = true ∧ B.fits clientIdName clientID = true ∧
        B.fits hostName host = true →
      ∃ req, writtenRequest B order q.text clientID (toString ns) host = .ok req) ∧
    ∀ req, writtenRequest B order q.text clientID (toString ns) host = .ok req →
      B.serialize req =
          renderRequest q.method q.url q.version.text req.fields.toList q.body ∧
      ∀ f : Field, f ∈ req.fields.toList ↔
        (f ∈ q.fields ∧ named arrivedTimeName f = false ∧ named clientIdName f = false ∧
          named hostName f = false) ∨
        f = (arrivedTimeName, Lib.toString ns) ∨ f = (clientIdName, trim clientID) ∨
          f = (hostName, trim host) := by
  rcases q.parse_text with ⟨headers, hfields, hparse⟩
  constructor
  · intro hfit
    rcases hfit with ⟨ht, hc, hh⟩
    exact ⟨_, ClientRequest.writtenRequest_text hfields hparse ht hc hh⟩
  · intro req h
    obtain ⟨r, hparse', -, rfl⟩ := written_of_writtenRequest h
    obtain rfl := Except.ok.inj (hparse.symm.trans hparse')
    refine ⟨ClientRequest.serialize_written hfields, fun f => ?_⟩
    have htime : trim (Lib.toString ns) = Lib.toString ns := toString_trimmed ns
    have hmem : f ∈ (q.written order headers clientID (Lib.toString ns) host).fields.toList ↔ _ :=
      ClientRequest.mem_written hfields
    rwa [htime] at hmem

/-- A request with a body, and with an id and a host of its own. -/
def doorRequest : ClientRequest boostBeast where
  method := ascii "POST"
  url := ascii "/doors"
  version := .http10
  fields := [(ascii "Accept", ascii "*/*"), (ascii "X-Client-ID", ascii "VIN2"),
    (ascii "Content-Length", ascii "4"), (ascii "host", ascii "gateway")]
  body := ascii "open"
  method_known := by decide
  url_word := by decide
  fields_ne := by decide
  names := by decide
  distinct := by decide
  values := by decide
  fits := by decide
  no_coding := by decide
  length_name := by decide
  length_body := fun _ => by decide
  length_zero := fun h => absurd h (by decide)
  body_lt := by decide
  trace_body := fun h => absurd h (by decide)

theorem forwarding_is_transparent_door : ∃ req,
    writtenRequest boostBeast entryOrder doorRequest.text (ascii "VIN1") (toString 5)
        (ascii "backend") = .ok req ∧
      boostBeast.serialize req = renderRequest (ascii "POST") (ascii "/doors")
        (ascii "HTTP/1.0") req.fields.toList (ascii "open") ∧
      ∀ f : Field, f ∈ req.fields.toList ↔
        f ∈ [(ascii "Accept", ascii "*/*"), (ascii "Content-Length", ascii "4"),
          (arrivedTimeName, ascii "5"), (clientIdName, ascii "VIN1"),
          (hostName, ascii "backend")] := by
  obtain ⟨hwritten, hfields⟩ := forwarding_is_transparent entryOrder doorRequest (ascii "VIN1")
    (ascii "backend") 5
  obtain ⟨req, hreq⟩ := hwritten (by decide)
  obtain ⟨htext, hmem⟩ := hfields req hreq
  refine ⟨req, hreq, htext, fun f => ?_⟩
  have hkept : doorRequest.fields.filter (fun f => !named arrivedTimeName f &&
      !named clientIdName f && !named hostName f) =
        [(ascii "Accept", ascii "*/*"), (ascii "Content-Length", ascii "4")] := by decide
  have hf : (f ∈ doorRequest.fields ∧ named arrivedTimeName f = false ∧
      named clientIdName f = false ∧ named hostName f = false) ↔
        f ∈ [(ascii "Accept", ascii "*/*"), (ascii "Content-Length", ascii "4")] := by
    rw [← hkept, List.mem_filter]
    simp [and_assoc]
  rw [hmem, hf]
  simp only [List.mem_cons, List.not_mem_nil, or_false, or_assoc]
  rfl

def statusRequest : ClientRequest boostBeast where
  method := ascii "GET"
  url := ascii "/status"
  version := .http11
  fields := [(ascii "Accept", ascii "*/*")]
  body := []
  method_known := by decide
  url_word := by decide
  fields_ne := by decide
  names := by decide
  distinct := List.pairwise_singleton _ _
  values := by decide
  fits := by decide
  no_coding := by decide
  length_name := by decide
  length_body := fun h => absurd rfl h
  length_zero := by
    intro _ value h
    simp [contentLengthName, ascii] at h
  body_lt := by decide
  trace_body := fun _ => rfl

/-- A blank at the end of a client id does not get into its header. -/
theorem client_id_loses_blank : ∃ req,
    writtenRequest boostBeast entryOrder statusRequest.text (ascii "VIN1\t") (toString 5)
        (ascii "backend") = .ok req ∧
      (clientIdName, ascii "VIN1\t") ∉ req.fields.toList := by
  rcases statusRequest.parse_text with ⟨headers, hfields, hparse⟩
  refine ⟨_, ClientRequest.writtenRequest_text hfields hparse (by decide) (by decide)
    (by decide), ?_⟩
  rw [ClientRequest.mem_written hfields]
  decide

end WsGateway.Http
