import WsGateway.Http.Client

/-!
# The identity headers

The client writes `X-Client-ID` and `X-Arrived-time` over whatever the message
says. But a parsed header name may have a colon in it, and is then read back
under a shorter name: on the wire, such a header can stand beside the
gateway's own. Each identity header is read once, with the gateway's value,
exactly when no forwarded header does this.
-/

namespace WsGateway.Http

open Lib Lib.Http Lib.Stream

def messageHeaders (msg : Bytes) : List Field :=
  match createRequestFromBuffer msg with
  | .ok r => r.headers.toFields
  | .error _ => []

/-- A text has one header line of this name, ignoring case, and its value is `v`. -/
def ReadOnce (text n v : Bytes) : Prop :=
  ((headerFields text).filter (named n)).map Prod.snd = [v]

instance (text n v : Bytes) : Decidable (ReadOnce text n v) :=
  inferInstanceAs (Decidable (_ = _))

def hostFields (host : Bytes) : List Field :=
  (headerLines [] (renderField (hostName, trim host) ++ crlf)).map fieldOfLine

theorem hostFields_of_lineFree {host : Bytes} (h : LineFree host) :
    hostFields host = [(hostName, trim (trim host))] := by
  have hn : LineFree hostName := by decide
  have hcolon : colon ∉ hostName := by decide
  have hend : headerLines [] crlf = [] := by decide
  rw [hostFields, headerLines_renderField hn h.trim, hend, List.map_singleton]
  exact congrArg (fun f => [f]) (wire_eq (f := (hostName, trim host)) hcolon)

theorem mem_forwarded {order : HashOrder} {headers : Headers} {e : Field} :
    e ∈ forwarded order headers ↔ e ∈ headers.toFields ∧ LineFree e.1 ∧ LineFree e.2 := by
  rw [forwarded, List.mem_filter, (order.perm headers).mem_iff]
  simp

/-! ## The written fields -/

theorem notChunked_linesOnly {B : Beast} {fs : Fields} (h : fs.LinesOnly) :
    (B.notChunked fs).LinesOnly := by
  have hn : LineFree transferEncodingName := by decide
  unfold Beast.notChunked
  split
  · exact h
  · rename_i value hvalue
    obtain ⟨m, hm, -⟩ := Fields.get?_eq_some.mp hvalue
    split
    · exact h.erase _
    · rename_i rest hrest
      exact h.set hn (B.dropChunked_lineFree value rest (h _ hm).2 hrest)

theorem framedFields_linesOnly {B : Beast} {order : HashOrder} {r : ParsedRequest}
    {clientID t : Bytes} (hc : LineFree clientID) (ht : LineFree t) :
    (framedFields B r.body (identifiedFields order r clientID t)).LinesOnly := by
  have hempty : Fields.empty.LinesOnly := by
    intro f hf
    cases hf
  have hsets : (identifiedFields order r clientID t).LinesOnly :=
    ((hempty.setAll fun e he => (mem_forwarded.mp he).2).set (by decide) ht).set (by decide) hc
  unfold framedFields
  split
  · exact hsets
  · refine notChunked_linesOnly (hsets.set (by decide) ?_)
    exact ⟨not_mem_decimal (by decide) _, not_mem_decimal (by decide) _⟩

theorem mem_framedFields {B : Beast} {body : Bytes} {fs : Fields} {f : Field}
    (hf : f ∈ fs.toList) (hcl : named contentLengthName f = false)
    (hte : named transferEncodingName f = false) : f ∈ (framedFields B body fs).toList := by
  unfold framedFields
  split
  · exact hf
  · have hset : f ∈ (fs.set contentLengthName (decimal body.length)).toList :=
      Fields.mem_set.mpr (.inl ⟨hf, hcl⟩)
    unfold Beast.notChunked
    split
    · exact hset
    · split
      · exact Fields.mem_erase.mpr ⟨hset, hte⟩
      · exact Fields.mem_set.mpr (.inl ⟨hset, hte⟩)

theorem hasName_framedFields {P : Bytes → Prop} (hP : ∀ n m, iequals n m = true → P n → P m)
    (hcl : ¬ P contentLengthName) (hte : ¬ P transferEncodingName) {B : Beast} {body : Bytes}
    {fs : Fields} : (framedFields B body fs).HasName P ↔ fs.HasName P := by
  unfold framedFields
  split
  · rfl
  · have hset := Fields.hasName_set hP fs contentLengthName (decimal body.length)
    rw [or_iff_left hcl] at hset
    unfold Beast.notChunked
    split
    · exact hset
    · split
      · rw [Fields.hasName_erase_of_not hP hte, hset]
      · rw [Fields.hasName_set hP, or_iff_left hte, hset]

theorem hasName_forges {n : Bytes} (B : Beast) (order : HashOrder) (r : ParsedRequest)
    (clientID t : Bytes) :
    ((framedFields B r.body (identifiedFields order r clientID t)).erase hostName).HasName
      (Forges n) ↔ ∃ e ∈ forwarded order r.headers, Forges n e.1 := by
  have hP : ∀ m m', iequals m m' = true → Forges n m → Forges n m' := fun _ _ h => .congr h
  have hno {m : Bytes} (h : colon ∉ m) : ¬ Forges n m := not_forges_of_not_mem h
  rw [Fields.hasName_erase_of_not hP (hno (by decide)),
    hasName_framedFields hP (hno (by decide)) (hno (by decide)), identifiedFields,
    Fields.hasName_set hP, or_iff_left (hno (by decide)), Fields.hasName_set hP,
    or_iff_left (hno (by decide)), Fields.hasName_setAll hP]
  simp [Fields.HasName, Fields.empty]

theorem startLine_lineFree {B : Beast} {r : ParsedRequest} {fs : Fields} {body : Bytes}
    (hverb : B.isVerb r.method = true) (hurl : LineFree r.url) :
    LineFree (Request.startLine ⟨r.method, r.url, versionNumber r.version, fs, body⟩) := by
  have hmethod : LineFree r.method := .of_not_isSpace (B.verb_word _ hverb).2
  have htarget : LineFree (if r.url = [] then [] else sp :: r.url) := by
    split
    · decide
    · exact (lineFree_cons (by decide)).mpr hurl
  have hversion : LineFree (ascii " HTTP/" ++ [digitChar (versionNumber r.version / 10)] ++
      ascii "." ++ [digitChar (versionNumber r.version % 10)]) := by
    unfold versionNumber
    split
    · decide
    · split <;> decide
  exact lineFree_append.mpr ⟨lineFree_append.mpr ⟨hmethod, htarget⟩, hversion⟩

/-! ## Reading them back -/

theorem headerFields_serialize {B : Beast} (order : HashOrder) {msg clientID t : Bytes}
    (host : Bytes) {r : ParsedRequest} (hparse : createRequestFromBuffer msg = .ok r)
    (hverb : B.isVerb r.method = true) (hc : LineFree clientID) (ht : LineFree t) :
    headerFields (B.serialize ⟨r.method, r.url, versionNumber r.version,
      (framedFields B r.body (identifiedFields order r clientID t)).set hostName host,
      r.body⟩) =
      (((framedFields B r.body (identifiedFields order r clientID t)).erase hostName).toList.map
        wire) ++ hostFields host := by
  have hne : Request.startLine ⟨r.method, r.url, versionNumber r.version,
      (framedFields B r.body (identifiedFields order r clientID t)).set hostName host,
      r.body⟩ ≠ [] := by
    simp [Request.startLine, (B.verb_word _ hverb).1]
  exact headerFields_render (startLine_lineFree hverb (url_lineFree_of_parsed hparse)) hne
    ((framedFields_linesOnly hc ht).erase hostName) (hostName, trim host) _

/-- A name that the client sets is read once with the value `v` if and only if
that is the value, trimmed, and neither message nor host brings it in again. -/
theorem readOnce_serialize_iff {B : Beast} (order : HashOrder) {msg clientID t : Bytes}
    (host : Bytes) {r : ParsedRequest} (hparse : createRequestFromBuffer msg = .ok r)
    (hverb : B.isVerb r.method = true) (hc : LineFree clientID) (ht : LineFree t)
    {n v c : Bytes} (hcolon : colon ∉ n)
    (hn : iequals contentLengthName n = false ∧ iequals transferEncodingName n = false ∧
      iequals hostName n = false)
    (hmem : (n, trim v) ∈ (identifiedFields order r clientID t).toList) :
    ReadOnce (B.serialize ⟨r.method, r.url, versionNumber r.version,
      (framedFields B r.body (identifiedFields order r clientID t)).set hostName host,
      r.body⟩) n c ↔
      trim v = c ∧ (∀ e ∈ forwarded order r.headers, ¬ Forges n e.1) ∧
        ∀ g ∈ hostFields host, named n g = false := by
  have hframed : (n, trim v) ∈
      (framedFields B r.body (identifiedFields order r clientID t)).toList :=
    mem_framedFields hmem hn.1 hn.2.1
  have hfield := Fields.mem_erase.mpr ⟨hframed, hn.2.2⟩
  rw [ReadOnce, headerFields_serialize order host hparse hverb hc ht,
    read_once_iff hcolon hfield (hostFields host), hasName_forges]
  simp

/-- The identity headers are read once, with the gateway's values, exactly when
no forwarded header of the message forges one, the host does not contain one,
and the client id has no blanks at its ends. -/
theorem identity_headers_iff {B : Beast} {order : HashOrder} {msg clientID host : Bytes}
    {ns : Int} {req : Request} (hc : LineFree clientID)
    (h : writtenRequest B order msg clientID (toString ns) host = .ok req) :
    (ReadOnce (B.serialize req) clientIdName clientID ∧
        ReadOnce (B.serialize req) arrivedTimeName (toString ns)) ↔
      Trimmed clientID ∧
        (∀ e ∈ messageHeaders msg, LineFree e.1 ∧ LineFree e.2 →
          ¬ Forges clientIdName e.1 ∧ ¬ Forges arrivedTimeName e.1) ∧
        ∀ g ∈ hostFields host, named clientIdName g = false ∧ named arrivedTimeName g = false := by
  obtain ⟨r, hparse, hverb, rfl⟩ := written_of_writtenRequest h
  have hmessage : messageHeaders msg = r.headers.toFields := by rw [messageHeaders, hparse]
  have hid : (clientIdName, trim clientID) ∈
      (identifiedFields order r clientID (toString ns)).toList :=
    Fields.mem_set.mpr (.inr rfl)
  have hapart : iequals clientIdName arrivedTimeName = false := by decide
  have htime : (arrivedTimeName, trim (toString ns)) ∈
      (identifiedFields order r clientID (toString ns)).toList :=
    Fields.mem_set.mpr (.inl ⟨Fields.mem_set.mpr (.inr rfl), hapart⟩)
  have hns := toString_lineFree ns
  rw [readOnce_serialize_iff order host hparse hverb hc hns (by decide) (by decide) hid,
    readOnce_serialize_iff order host hparse hverb hc hns (by decide) (by decide) htime, hmessage]
  simp only [mem_forwarded]
  constructor
  · intro hread
    rcases hread with ⟨⟨htrim, hid, hhid⟩, -, htime, hhtime⟩
    exact ⟨htrim, fun e he hl => ⟨hid e ⟨he, hl⟩, htime e ⟨he, hl⟩⟩,
      fun g hg => ⟨hhid g hg, hhtime g hg⟩⟩
  · intro hagree
    rcases hagree with ⟨htrim, hforge, hhost⟩
    exact ⟨⟨htrim, fun e he => (hforge e he.1 he.2).1, fun g hg => (hhost g hg).1⟩,
      toString_trimmed ns, fun e he => (hforge e he.1 he.2).2, fun g hg => (hhost g hg).2⟩

theorem identity_headers_of_plain_message : ∃ req,
    writtenRequest boostBeast entryOrder (oneHeader (ascii "Accept") (ascii "*/*") [])
        (ascii "VIN1") (toString 5) (ascii "backend") = .ok req ∧
      ReadOnce (boostBeast.serialize req) clientIdName (ascii "VIN1") ∧
      ReadOnce (boostBeast.serialize req) arrivedTimeName (toString 5) := by
  obtain ⟨headers, hfields, hparse, h⟩ := written_oneHeader (ascii "Accept")
    (ascii "*/*") [] 0 (by decide) (by decide) (by decide)
    (fun _ hf => declaredLength_of_not_mem (by rw [hf]; decide)) (by decide) (by decide)
  refine ⟨_, h, (identity_headers_iff (by decide) h).mpr ⟨by decide, ?_, by decide⟩⟩
  rw [messageHeaders, hparse]
  dsimp only
  rw [hfields]
  decide

/-- A header name that goes on after a colon: the backend reads a second client
id, of the client's choice. -/
theorem second_client_id_is_read : ∃ req,
    writtenRequest boostBeast entryOrder (oneHeader (ascii "X-Client-ID:VIN2") (ascii "x") [])
        (ascii "VIN1") (toString 5) (ascii "backend") = .ok req ∧
      (clientIdName, ascii "VIN2: x") ∈ headerFields (boostBeast.serialize req) ∧
      ¬ ReadOnce (boostBeast.serialize req) clientIdName (ascii "VIN1") := by
  obtain ⟨headers, hfields, hparse, h⟩ := written_oneHeader (ascii "X-Client-ID:VIN2")
    (ascii "x") [] 0 (by decide) (by decide) (by decide)
    (fun _ hf => declaredLength_of_not_mem (by rw [hf]; decide)) (by decide) (by decide)
  have hverb : boostBeast.isVerb (ascii "POST") = true := by decide
  have hc : LineFree (ascii "VIN1") := by decide
  have hforward : forwarded entryOrder headers = [(ascii "X-Client-ID:VIN2", ascii "x")] := by
    have hiterate : entryOrder.iterate headers =
      [(ascii "X-Client-ID:VIN2", ascii "x")] := hfields
    rw [forwarded, hiterate]
    decide
  refine ⟨_, h, ?_, ?_⟩
  · have hset : (ascii "X-Client-ID:VIN2", ascii "x") ∈
        (Fields.empty.setAll (forwarded entryOrder headers)).toList := by
      rw [Fields.mem_setAll_of_pairwise (by simp [hforward]), hforward]
      decide
    have hid : (ascii "X-Client-ID:VIN2", ascii "x") ∈ (identifiedFields entryOrder
        ⟨ascii "POST", ascii "/", ascii "HTTP/1.1", headers, []⟩ (ascii "VIN1")
        (toString 5)).toList :=
      Fields.mem_set.mpr (.inl ⟨Fields.mem_set.mpr (.inl ⟨hset, by decide⟩), by decide⟩)
    have hread : wire (ascii "X-Client-ID:VIN2", ascii "x") = (clientIdName, ascii "VIN2: x") := by
      decide
    have hfields := headerFields_serialize entryOrder (ascii "backend") hparse hverb
      hc (toString_lineFree 5)
    rw [← hread]
    refine hfields ▸ List.mem_append_left _ (List.mem_map_of_mem
      (Fields.mem_erase.mpr ⟨?_, by decide⟩))
    exact mem_framedFields hid (by decide) (by decide)
  · intro hread
    obtain ⟨-, hforge, -⟩ := (readOnce_serialize_iff entryOrder
      (ascii "backend") hparse hverb hc (toString_lineFree 5) (by decide) (by decide)
      (Fields.mem_set.mpr (.inr rfl))).mp hread
    exact hforge (ascii "X-Client-ID:VIN2", ascii "x") (by simp [hforward]) (by decide)

end WsGateway.Http
