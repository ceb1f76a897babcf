import WsGateway.Http.Identity

/-!
# Framing

The parser looks for the key `Content-Length` in this spelling, and a body is
framed only if it is not empty; the fields of the request go by their names in
any spelling. A length that the client forwards can therefore be one that
nobody has counted.
-/

namespace WsGateway.Http

open Lib Lib.Http Lib.Stream

/-- At most one length, and it is the length of what is written after the header
section. -/
def CorrectlyFramed (B : Beast) (req : Request) : Prop :=
  (req.fields.toList.filter (named contentLengthName)).length ≤ 1 ∧
    ∀ f ∈ req.fields.toList, named contentLengthName f = true →
      f.2 = decimal (B.writtenBody req).length

/-- The same of the text that is written, a name being what stands before the first
colon of its line. -/
def CorrectlyFramedText (B : Beast) (req : Request) : Prop :=
  let lines := (headerFields (B.serialize req)).filter (named contentLengthName)
  lines.length ≤ 1 ∧ ∀ f ∈ lines, f.2 = decimal (B.writtenBody req).length

/-- What the headers of a message must satisfy. A length declared under the
parser's spelling of the key is counted again, but the transfer coding that is
left over must not be chunked. Without one, the last header with any spelling
of the name is forwarded as it is, and no body is sent. -/
def FramingAgrees (B : Beast) (order : HashOrder) (headers : Headers) : Prop :=
  (declaredLength headers ≠ .ok 0 →
    B.isChunked ((Fields.lastValue transferEncodingName (forwarded order headers)).bind
      fun value => (B.dropChunked value).map trim) = false) ∧
  (declaredLength headers = .ok 0 →
    ∀ value, Fields.lastValue contentLengthName (forwarded order headers) = some value →
      value = decimal
        (if B.isChunked (Fields.lastValue transferEncodingName (forwarded order headers))
          then (B.chunkBody []).length else 0))

theorem correctlyFramed_iff {B : Beast} {req : Request} :
    CorrectlyFramed B req ↔ ∀ value, req.fields.get? contentLengthName = some value →
      value = decimal (B.writtenBody req).length := by
  constructor
  · intro hframed value hvalue
    rcases hframed with ⟨-, h⟩
    obtain ⟨m, hm, hn⟩ := Fields.get?_eq_some.mp hvalue
    exact h _ hm hn
  · intro h
    exact ⟨req.fields.length_filter_named_le_one _,
      fun f hf hn => h f.2 (Fields.get?_eq_some.mpr ⟨f.1, hf, hn⟩)⟩

/-! ## The fields that frame the body -/

/-- A name that the client does not set itself has the last forwarded value. -/
theorem get?_identifiedFields {order : HashOrder} {r : ParsedRequest} {clientID t n : Bytes}
    (hid : iequals n clientIdName = false) (htime : iequals n arrivedTimeName = false) :
    (identifiedFields order r clientID t).get? n =
      Fields.lastValue n (forwarded order r.headers) := by
  have hempty : Fields.empty.get? n = none := rfl
  rw [identifiedFields, Fields.get?_set_of_ne hid, Fields.get?_set_of_ne htime,
    Fields.get?_setAll, hempty, Option.or_none]

theorem get?_notChunked {B : Beast} {fs : Fields} :
    (B.notChunked fs).get? transferEncodingName =
      (fs.get? transferEncodingName).bind fun value => (B.dropChunked value).map trim := by
  unfold Beast.notChunked
  split
  · rename_i hnone
    rw [hnone]
    rfl
  · rename_i value hvalue
    rw [hvalue, Option.bind_some]
    split
    · rename_i hdrop
      rw [hdrop, Fields.get?_erase_self]
      rfl
    · rename_i rest hdrop
      rw [hdrop, Fields.get?_set_of_iequals (iequals_refl _)]
      rfl

theorem framed_of_body {B : Beast} {order : HashOrder} {r : ParsedRequest}
    {clientID t host : Bytes} {method target : Bytes} {version : Nat} (hbody : r.body ≠ []) :
    CorrectlyFramed B ⟨method, target, version,
        (framedFields B r.body (identifiedFields order r clientID t)).set hostName host,
        r.body⟩ ↔
      B.isChunked ((Fields.lastValue transferEncodingName (forwarded order r.headers)).bind
        fun value => (B.dropChunked value).map trim) = false := by
  have hlength : (decimal r.body.length : Bytes) = trim (decimal r.body.length) :=
    (trimmed_of_forall_not_blank fun b hb =>
      isBlank_le_isSpace (not_isSpace_of_isDigit (isDigit_of_mem_decimal hb))).symm
  rw [correctlyFramed_iff]
  simp only [framedFields, if_neg hbody, Beast.writtenBody]
  rw [Fields.get?_set_of_ne (by decide), Fields.get?_set_of_ne (by decide), get?_notChunked,
    get?_notChunked_of_ne (by decide), Fields.get?_set_of_iequals (iequals_refl _),
    Fields.get?_set_of_ne (by decide), get?_identifiedFields (by decide) (by decide), ← hlength]
  simp only [Option.some.injEq, forall_eq', decimal_injective.eq_iff]
  split
  · rename_i hchunked
    have hlt := B.length_lt_chunkBody r.body
    simp only [hchunked, Bool.true_eq_false, iff_false]
    omega
  · rename_i hchunked
    simpa using hchunked

theorem framed_of_no_body {B : Beast} {order : HashOrder} {r : ParsedRequest}
    {clientID t host : Bytes} {method target : Bytes} {version : Nat} (hbody : r.body = []) :
    CorrectlyFramed B ⟨method, target, version,
        (framedFields B r.body (identifiedFields order r clientID t)).set hostName host,
        r.body⟩ ↔
      ∀ value, Fields.lastValue contentLengthName (forwarded order r.headers) = some value →
        value = decimal
          (if B.isChunked (Fields.lastValue transferEncodingName (forwarded order r.headers))
            then (B.chunkBody []).length else 0) := by
  rw [correctlyFramed_iff]
  simp only [framedFields, hbody, if_true, Beast.writtenBody]
  rw [Fields.get?_set_of_ne (by decide), Fields.get?_set_of_ne (by decide),
    get?_identifiedFields (by decide) (by decide), get?_identifiedFields (by decide) (by decide),
    apply_ite List.length, List.length_nil]

theorem framedText_iff {B : Beast} {order : HashOrder} {msg clientID t host : Bytes}
    {r : ParsedRequest} (hparse : createRequestFromBuffer msg = .ok r)
    (hverb : B.isVerb r.method = true) (hc : LineFree clientID) (ht : LineFree t)
    (hh : LineFree host) {req : Request}
    (hreq : req = ⟨r.method, r.url, versionNumber r.version,
      (framedFields B r.body (identifiedFields order r clientID t)).set hostName host,
      r.body⟩) :
    CorrectlyFramedText B req ↔
      CorrectlyFramed B req ∧ ∀ e ∈ forwarded order r.headers, ¬ Forges contentLengthName e.1 := by
  have hhost : hostFields host = [(hostName, trim host)].map wire := by
    have hcolon : colon ∉ hostName := by decide
    rw [hostFields_of_lineFree hh, List.map_singleton, wire_eq (f := (hostName, _)) hcolon]
  have hfields : headerFields (B.serialize req) = req.fields.toList.map wire := by
    rw [hreq, headerFields_serialize order host hparse hverb hc ht, hhost, ← List.map_append]
    rfl
  have hP : ∀ m m', iequals m m' = true → Forges contentLengthName m →
      Forges contentLengthName m' := fun _ _ h => .congr h
  have hno : ¬ Forges contentLengthName hostName := by decide
  have hforge : req.fields.HasName (Forges contentLengthName) ↔
      ∃ e ∈ forwarded order r.headers, Forges contentLengthName e.1 := by
    rw [← hasName_forges B order r clientID t,
      Fields.hasName_erase_of_not hP hno, hreq, Fields.hasName_set hP, or_iff_left hno]
  have hdigits : colon ∉ decimal (B.writtenBody req).length := not_mem_decimal (by decide) _
  rw [CorrectlyFramedText, hfields, read_only_iff (by decide) hdigits, hforge, CorrectlyFramed,
    and_iff_right (req.fields.length_filter_named_le_one _)]
  simp

/-- A written request is correctly framed exactly when the headers of the message
agree with what is sent. Read line by line, no header may forge the name, either. -/
theorem written_framed_iff {B : Beast} {order : HashOrder} {msg clientID host : Bytes} {ns : Int}
    {r : ParsedRequest} {req : Request} (hparse : createRequestFromBuffer msg = .ok r)
    (h : writtenRequest B order msg clientID (toString ns) host = .ok req) :
    (CorrectlyFramed B req ↔ FramingAgrees B order r.headers) ∧
    (LineFree clientID ∧ LineFree host →
      (CorrectlyFramedText B req ↔ FramingAgrees B order r.headers ∧
        ∀ e ∈ forwarded order r.headers, ¬ Forges contentLengthName e.1)) := by
  obtain ⟨r', hparse', hverb, hreq⟩ := written_of_writtenRequest h
  obtain rfl : r = r' := Except.ok.inj (hparse.symm.trans hparse')
  have hfields : CorrectlyFramed B req ↔ FramingAgrees B order r.headers := by
    have hdeclared := declaredLength_of_parsed hparse
    unfold FramingAgrees
    by_cases hbody : r.body = []
    · have hzero : declaredLength r.headers = .ok 0 := by simpa [hbody] using hdeclared
      rw [hreq, framed_of_no_body hbody]
      simp [hzero]
    · have hpos : declaredLength r.headers ≠ .ok 0 := by
        rw [hdeclared, ne_eq, Except.ok.injEq]
        simpa using hbody
      rw [hreq, framed_of_body hbody]
      simp [hpos]
  refine ⟨hfields, fun ⟨hc, hh⟩ => ?_⟩
  rw [framedText_iff hparse hverb hc (toString_lineFree ns) hh hreq, hfields]

theorem counted_length_is_framed : ∃ req,
    writtenRequest boostBeast entryOrder
        (oneHeader (ascii "Content-Length") (ascii "5") (ascii "hello")) (ascii "VIN1")
        (toString 5) (ascii "backend") = .ok req ∧ CorrectlyFramed boostBeast req := by
  have hstoi : stoi (ascii "5") = .ok 5 := rfl
  have hlength : ∀ headers : Headers,
      headers.toFields = [(ascii "Content-Length", ascii "5")] →
        declaredLength headers = .ok ((5 : Nat) : Int) := by
    intro headers hf
    have hmem : (contentLengthKey, ascii "5") ∈ headers.toFields := by
      rw [hf]
      exact List.mem_singleton.mpr rfl
    rw [declaredLength_of_mem hmem]
    exact hstoi
  obtain ⟨headers, hfields, hparse, h⟩ := written_oneHeader (ascii "Content-Length")
    (ascii "5") (ascii "hello") 5 (by decide) (by decide) (by decide) hlength
    (by decide) (by decide)
  refine ⟨_, h, (written_framed_iff hparse h).1.mpr ⟨?_, ?_⟩⟩
  · intro _
    have hiterate : entryOrder.iterate headers = [(ascii "Content-Length", ascii "5")] := hfields
    rw [forwarded, hiterate]
    decide
  · intro hzero
    rw [hlength headers hfields] at hzero
    cases hzero

/-- Another spelling of the key: the backend is told to expect a body that is
never sent. -/
theorem lower_case_length_is_not_framed : ∃ req,
    writtenRequest boostBeast entryOrder
        (oneHeader (ascii "content-length") (ascii "5") (ascii "hello")) (ascii "VIN1")
        (toString 5) (ascii "backend") = .ok req ∧
      req.fields.get? contentLengthName = some (ascii "5") ∧
      boostBeast.writtenBody req = [] ∧ ¬ CorrectlyFramed boostBeast req := by
  obtain ⟨headers, hfields, hparse, h⟩ := written_oneHeader (ascii "content-length")
    (ascii "5") (ascii "hello") 0 (by decide) (by decide) (by decide)
    (fun _ hf => declaredLength_of_not_mem (by rw [hf]; decide)) (by decide) (by decide)
  have hiterate : entryOrder.iterate headers = [(ascii "content-length", ascii "5")] := hfields
  have hlast : Fields.lastValue contentLengthName (forwarded entryOrder headers) =
      some (ascii "5") := by
    rw [forwarded, hiterate]
    decide
  have hchunked : Fields.lastValue transferEncodingName (forwarded entryOrder headers) = none := by
    rw [forwarded, hiterate]
    decide
  have hget : (oneRequest headers []).fields.get? contentLengthName = some (ascii "5") := by
    rw [oneRequest, Fields.get?_set_of_ne (by decide), framedFields, if_pos rfl,
      get?_identifiedFields (by decide) (by decide), hlast]
  have hbody : boostBeast.writtenBody (oneRequest headers []) = [] := by
    rw [Beast.writtenBody, oneRequest, Fields.get?_set_of_ne (by decide), framedFields,
      if_pos rfl, get?_identifiedFields (by decide) (by decide), hchunked]
    rfl
  refine ⟨_, h, hget, hbody, ?_⟩
  intro hframed
  have heq := correctlyFramed_iff.mp hframed _ hget
  have hbody' : boostBeast.writtenBody (oneRequest headers ((ascii "hello").take 0)) = [] := hbody
  rw [hbody'] at heq
  exact absurd heq (by decide)

end WsGateway.Http
