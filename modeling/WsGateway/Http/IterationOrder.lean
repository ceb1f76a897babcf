import WsGateway.Http.Framing

/-!
# The order of iteration

The map of the headers keeps the first value of each spelling of a name, the
fields of the request keep the last value of each name in any spelling, and
between them the map is iterated in whatever order it has. Two spellings of one
name then leave it to the order which of their values is forwarded.
-/

namespace WsGateway.Http

open Lib Lib.Http Lib.Stream

def BodyDeclared (msg : Bytes) : Prop := declaredLength (headersOf (headersInOrder msg)) ≠ .ok 0

instance (msg : Bytes) : Decidable (BodyDeclared msg) := inferInstanceAs (Decidable (¬ _))

/-- The names that the client sets itself, whatever the message says. -/
def SetByClient (msg n : Bytes) : Prop :=
  iequals n arrivedTimeName = true ∨ iequals n clientIdName = true ∨
    iequals n hostName = true ∨ (BodyDeclared msg ∧ iequals n contentLengthName = true)

/-- What is sent of a value: the transfer coding of a body loses `chunked`. -/
def Beast.sent (B : Beast) (msg n value : Bytes) : Option Bytes :=
  if BodyDeclared msg ∧ iequals n transferEncodingName = true then
    (B.dropChunked value).map trim
  else some value

def firstNamed (n : Bytes) (fs : List Field) : Option Bytes :=
  (fs.find? (named n)).map fun f => trim f.2

/-- In every order a request with these fields is written, and a forwarded field has
the value of the first header of its name. -/
def OrderFree (B : Beast) (msg clientID t host : Bytes) (req : Request) : Prop :=
  (∀ order, ∃ req', writtenRequest B order msg clientID t host = .ok req' ∧
    ∀ n, req'.fields.get? n = req.fields.get? n) ∧
  ∀ n v, ¬ SetByClient msg n → req.fields.get? n = some v →
    (firstNamed n (headersInOrder msg)).bind (B.sent msg n) = some v

/-- The headers that the client sets: of each spelling the first, and none with a
line end in it. -/
def Kept (msg n value : Bytes) : Prop :=
  (headersInOrder msg).lookup n = some value ∧ LineFree n ∧ LineFree value

/-- The kept headers of one name are sent alike, and like the first header of that
name. With a body, what is sent of a transfer coding is within the limits. -/
structure SentAlike (B : Beast) (msg n value : Bytes) : Prop where
  alike : ∀ n' value', Kept msg n' value' → iequals n n' = true →
    B.sent msg n' (trim value') = B.sent msg n (trim value)
  first : ∀ w, B.sent msg n (trim value) = some w →
    (firstNamed n (headersInOrder msg)).bind (B.sent msg n) = some w
  fits : BodyDeclared msg → iequals n transferEncodingName = true →
    ∀ rest, B.dropChunked (trim value) = some rest → B.fits transferEncodingName rest = true

/-! ## Spellings -/

theorem setByClient_congr {msg n m : Bytes} (h : iequals n m = true) :
    SetByClient msg n ↔ SetByClient msg m := by
  simp only [SetByClient, iequals_congr h]

theorem sent_congr {B : Beast} {msg n m : Bytes} (h : iequals n m = true) :
    B.sent msg n = B.sent msg m := by
  funext value
  simp only [Beast.sent, iequals_congr h]

theorem firstNamed_congr {n m : Bytes} (h : iequals n m = true) (fs : List Field) :
    firstNamed n fs = firstNamed m fs := by
  rw [firstNamed, firstNamed, named_of_iequals h]

theorem not_setByClient_transferEncoding {msg n : Bytes}
    (h : iequals n transferEncodingName = true) : ¬ SetByClient msg n := by
  have htime : iequals transferEncodingName arrivedTimeName = false := by decide
  have hid : iequals transferEncodingName clientIdName = false := by decide
  have hhost : iequals transferEncodingName hostName = false := by decide
  have hlength : iequals transferEncodingName contentLengthName = false := by decide
  rw [setByClient_congr h]
  simp only [SetByClient, htime, hid, hhost, hlength]
  simp

/-! ## The fields in one order -/

section Fields

variable {B : Beast} {msg : Bytes} {r : ParsedRequest}
  (hparse : createRequestFromBuffer msg = .ok r)

include hparse

theorem bodyDeclared_iff : BodyDeclared msg ↔ r.body ≠ [] := by
  have hdeclared := declaredLength_of_parsed hparse
  rw [BodyDeclared, ← (parsed_eq hparse).2.2.2.1, hdeclared, ne_eq, Except.ok.injEq]
  simp

theorem mem_forwarded_iff {order : HashOrder} {e : Field} :
    e ∈ forwarded order r.headers ↔ Kept msg e.1 e.2 := by
  rw [mem_forwarded, Kept, ← lookup_headersOf, ← (parsed_eq hparse).2.2.2.1]
  exact and_congr_left fun _ => Headers.mem_toFields

/-- A name that the client does not set has what is sent of the last value. -/
theorem get?_written {order : HashOrder} {clientID t host n : Bytes} (hn : ¬ SetByClient msg n) :
    ((framedFields B r.body (identifiedFields order r clientID t)).set hostName host).get? n =
      (Fields.lastValue n (forwarded order r.headers)).bind (B.sent msg n) := by
  simp only [SetByClient, not_or, Bool.not_eq_true, bodyDeclared_iff hparse] at hn
  rcases hn with ⟨htime, hid, hhost, hlength⟩
  have hlast := @get?_identifiedFields order r clientID t n hid htime
  rw [Fields.get?_set_of_ne hhost, framedFields, ← hlast]
  by_cases hbody : r.body = []
  · have hsent : B.sent msg n = some := by
      funext value
      simp [Beast.sent, bodyDeclared_iff hparse, hbody]
    rw [if_pos hbody, hsent, Option.bind_fun_some]
  · have hlength : iequals n contentLengthName = false :=
      Bool.eq_false_of_not_eq_true fun h => hlength ⟨hbody, h⟩
    have hset : ((identifiedFields order r clientID t).set contentLengthName
        (decimal r.body.length)).get? n = (identifiedFields order r clientID t).get? n :=
      Fields.get?_set_of_ne hlength
    rw [if_neg hbody]
    by_cases hcoding : iequals n transferEncodingName = true
    · have hsent : B.sent msg n = fun value => (B.dropChunked value).map trim := by
        funext value
        rw [Beast.sent, if_pos ⟨(bodyDeclared_iff hparse).mpr hbody, hcoding⟩]
      rw [Fields.get?_congr hcoding, get?_notChunked, ← Fields.get?_congr hcoding, hset, hsent]
    · have hsent : B.sent msg n = some := by
        funext value
        rw [Beast.sent, if_neg fun h => hcoding h.2]
      rw [get?_notChunked_of_ne (Bool.eq_false_of_not_eq_true hcoding), hset, hsent,
        Option.bind_fun_some]

theorem get?_written_of_setByClient (B : Beast) (order order' : HashOrder)
    (clientID t host : Bytes) {n : Bytes} (hn : SetByClient msg n) :
    ((framedFields B r.body (identifiedFields order r clientID t)).set hostName host).get? n =
      ((framedFields B r.body (identifiedFields order' r clientID t)).set hostName host).get?
        n := by
  have hidentity (hn : iequals n arrivedTimeName = true ∨ iequals n clientIdName = true) :
      (identifiedFields order r clientID t).get? n =
        (identifiedFields order' r clientID t).get? n := by
    rw [identifiedFields, identifiedFields, Fields.get?_set, Fields.get?_set, Fields.get?_set,
      Fields.get?_set]
    rcases hn with htime | hid
    · rw [if_pos htime, if_pos htime]
    · rw [if_pos hid, if_pos hid]
  have hframed {fs fs' : Fields}
      (h : ¬ (r.body ≠ [] ∧ iequals n contentLengthName = true) → fs.get? n = fs'.get? n) :
      (framedFields B r.body fs).get? n = (framedFields B r.body fs').get? n := by
    rw [framedFields, framedFields]
    split
    · rename_i hbody
      exact h fun hn => hn.1 hbody
    · have hcoding : iequals n transferEncodingName = false :=
        Bool.eq_false_of_not_eq_true fun h => not_setByClient_transferEncoding h hn
      rw [get?_notChunked_of_ne hcoding, get?_notChunked_of_ne hcoding, Fields.get?_set,
        Fields.get?_set]
      split
      · rfl
      · rename_i hlength
        exact h fun hn => hlength hn.2
  rw [Fields.get?_set, Fields.get?_set]
  rcases hn with htime | hid | hhost | ⟨hdeclared, hlength⟩
  · rw [hframed fun _ => hidentity (.inl htime)]
  · rw [hframed fun _ => hidentity (.inr hid)]
  · rw [if_pos hhost, if_pos hhost]
  · rw [hframed (absurd ⟨(bodyDeclared_iff hparse).mp hdeclared, hlength⟩)]

theorem accepts_of_accepts {order order' : HashOrder} {clientID t : Bytes}
    (h : B.Accepts order r clientID t)
    (hrest : r.body ≠ [] → ∀ rest,
      (Fields.lastValue transferEncodingName (forwarded order' r.headers)).bind B.dropChunked =
        some rest → B.fits transferEncodingName rest = true) :
    B.Accepts order' r clientID t where
  verb := h.verb
  headers e he := h.headers e ((mem_forwarded_iff hparse).mpr ((mem_forwarded_iff hparse).mp he))
  time := h.time
  client := h.client
  body hbody := by
    obtain ⟨htrace, hlength, -⟩ := h.body hbody
    refine ⟨htrace, hlength, ?_⟩
    rw [get?_transferEncoding]
    exact hrest hbody

end Fields

/-! ## Two orders -/

theorem iterate_last_perm (order : HashOrder) (e : Field) (headers : Headers) :
    (Fields.moveLast e (order.iterate headers)).Perm headers.toFields :=
  (Fields.moveLast_perm e _).trans (order.perm headers)

def HashOrder.last (order : HashOrder) (e : Field) : HashOrder where
  iterate headers := Fields.moveLast e (order.iterate headers)
  perm := iterate_last_perm order e

theorem forwarded_last (order : HashOrder) (e : Field) (headers : Headers) :
    forwarded (order.last e) headers = Fields.moveLast e (forwarded order headers) := by
  simp only [forwarded, HashOrder.last, Fields.moveLast, List.filter_append, List.filter_filter]
  congr 1
  all_goals
    refine List.filter_congr fun f _ => ?_
    exact Bool.and_comm _ _

section Last

variable {B : Beast} {order : HashOrder} {msg clientID t host n value : Bytes} {req : Request}
  (h : writtenRequest B (order.last (n, value)) msg clientID t host = .ok req)
  (hkept : Kept msg n value)

include h hkept

/-- A kept header that comes last decides on the field of its name. -/
theorem get?_of_last (hn : ¬ SetByClient msg n) :
    req.fields.get? n = B.sent msg n (trim value) := by
  obtain ⟨r, hparse, -, -, rfl⟩ := writtenRequest_eq_ok_iff.mp h
  have hmem : (n, value) ∈ forwarded order r.headers := (mem_forwarded_iff hparse).mpr hkept
  rw [get?_written hparse hn, forwarded_last,
    Fields.lastValue_moveLast hmem (named_self n value), Option.bind_some]

/-- What is sent of a transfer coding that comes last has been set. -/
theorem fits_of_last (hdeclared : BodyDeclared msg)
    (hcoding : iequals n transferEncodingName = true) {rest : Bytes}
    (hrest : B.dropChunked (trim value) = some rest) :
    B.fits transferEncodingName rest = true := by
  obtain ⟨r, hparse, haccepts, -, -⟩ := writtenRequest_eq_ok_iff.mp h
  have hmem : (n, value) ∈ forwarded order r.headers := (mem_forwarded_iff hparse).mpr hkept
  have hnamed : named transferEncodingName (n, value) = true := by
    rw [named, iequals_comm]
    exact hcoding
  obtain ⟨-, -, hfits⟩ := haccepts.body ((bodyDeclared_iff hparse).mp hdeclared)
  rw [get?_transferEncoding, forwarded_last, Fields.lastValue_moveLast hmem hnamed] at hfits
  exact hfits rest hrest

end Last

theorem sent_lastValue {B : Beast} {msg n : Bytes} {r : ParsedRequest}
    (hparse : createRequestFromBuffer msg = .ok r) (hn : ¬ SetByClient msg n)
    (hsame : ∀ n value, Kept msg n value → ¬ SetByClient msg n → SentAlike B msg n value)
    (order order' : HashOrder) :
    (Fields.lastValue n (forwarded order' r.headers)).bind (B.sent msg n) =
      (Fields.lastValue n (forwarded order r.headers)).bind (B.sent msg n) := by
  have hmem {e : Field} : e ∈ forwarded order' r.headers ↔ e ∈ forwarded order r.headers := by
    rw [mem_forwarded_iff hparse, mem_forwarded_iff hparse]
  cases hlast : Fields.lastValue n (forwarded order r.headers) with
  | none =>
      have hnone : Fields.lastValue n (forwarded order' r.headers) = none :=
        Fields.lastValue_eq_none.mpr fun e he =>
          Fields.lastValue_eq_none.mp hlast e (hmem.mp he)
      rw [hnone]
  | some v =>
      obtain ⟨e, he, hne, rfl⟩ := Fields.lastValue_eq_some hlast
      cases hlast' : Fields.lastValue n (forwarded order' r.headers) with
      | none =>
          have hnot := Fields.lastValue_eq_none.mp hlast' e (hmem.mpr he)
          rw [hnot] at hne
          cases hne
      | some v' =>
          obtain ⟨e', he', hne', rfl⟩ := Fields.lastValue_eq_some hlast'
          have hee' : iequals e.1 e'.1 = true :=
            iequals_trans (by rw [iequals_comm]; exact hne) hne'
          have halike := (hsame e.1 e.2 ((mem_forwarded_iff hparse).mp he)
            (fun hset => hn ((setByClient_congr hne).mpr hset))).alike e'.1 e'.2
              ((mem_forwarded_iff hparse).mp he') hee'
          rwa [← sent_congr hne', ← sent_congr hne] at halike

/-- The forwarded fields do not depend on the order, and have the values of the first
headers, exactly if all kept headers of one name are sent alike. -/
theorem orderFree_iff {B : Beast} {order : HashOrder} {msg clientID t host : Bytes}
    {req : Request} (h : writtenRequest B order msg clientID t host = .ok req) :
    OrderFree B msg clientID t host req ↔
      ∀ n value, Kept msg n value → ¬ SetByClient msg n → SentAlike B msg n value := by
  obtain ⟨r, hparse, haccepts, hhost, hreq⟩ := writtenRequest_eq_ok_iff.mp h
  constructor
  · intro hfree n value hkept hn
    rcases hfree with ⟨horders, hfirst⟩
    -- each kept header is the last one in some order
    have hget {n value : Bytes} (hkept : Kept msg n value) (hn : ¬ SetByClient msg n) :
        req.fields.get? n = B.sent msg n (trim value) := by
      obtain ⟨req', hreq', hfields⟩ := horders (order.last (n, value))
      rw [← hfields n, get?_of_last hreq' hkept hn]
    constructor
    · intro n' value' hkept' hnn'
      have hn' : ¬ SetByClient msg n' := fun hset => hn ((setByClient_congr hnn').mpr hset)
      rw [← hget hkept' hn', ← hget hkept hn, Fields.get?_congr hnn']
    · intro w hw
      exact hfirst n w hn ((hget hkept hn).trans hw)
    · intro hdeclared hcoding rest hrest
      obtain ⟨req', hreq', -⟩ := horders (order.last (n, value))
      exact fits_of_last hreq' hkept hdeclared hcoding hrest
  · intro hsame
    constructor
    · intro order'
      have haccepts' : B.Accepts order' r clientID t := by
        refine accepts_of_accepts hparse haccepts fun hbody rest hrest => ?_
        obtain ⟨value, hvalue, hrest⟩ := Option.bind_eq_some_iff.mp hrest
        obtain ⟨e, he, hcoding, rfl⟩ := Fields.lastValue_eq_some hvalue
        rw [named, iequals_comm] at hcoding
        exact (hsame e.1 e.2 ((mem_forwarded_iff hparse).mp he)
          (not_setByClient_transferEncoding hcoding)).fits
            ((bodyDeclared_iff hparse).mpr hbody) hcoding rest hrest
      refine ⟨_, writtenRequest_eq_ok_iff.mpr ⟨r, hparse, haccepts', hhost, rfl⟩, fun n => ?_⟩
      rw [hreq]
      by_cases hn : SetByClient msg n
      · exact get?_written_of_setByClient hparse B order' order clientID t host hn
      · exact ((get?_written hparse hn).trans (sent_lastValue hparse hn hsame order order')).trans
          (get?_written hparse hn).symm
    · intro n w hn hw
      rw [hreq, get?_written hparse hn] at hw
      obtain ⟨v, hv, hw⟩ := Option.bind_eq_some_iff.mp hw
      obtain ⟨e, he, hne, rfl⟩ := Fields.lastValue_eq_some hv
      have hfirst := (hsame e.1 e.2 ((mem_forwarded_iff hparse).mp he)
        (fun hset => hn ((setByClient_congr hne).mpr hset))).first w
      rw [← sent_congr hne, ← firstNamed_congr hne] at hfirst
      exact hfirst hw

theorem sentAlike_of_firstNamed {B : Beast} {msg : Bytes} (hbody : ¬ BodyDeclared msg)
    (hfirst : ∀ n value, Kept msg n value →
      firstNamed n (headersInOrder msg) = some (trim value)) {n value : Bytes}
    (hkept : Kept msg n value) : SentAlike B msg n value := by
  have hsent : ∀ m, B.sent msg m = some := by
    intro m
    funext v
    rw [Beast.sent, if_neg fun h => hbody h.1]
  constructor
  · intro n' value' hkept' hnn'
    have hvalue := hfirst n value hkept
    rw [firstNamed_congr hnn', hfirst n' value' hkept'] at hvalue
    rw [hsent, hsent, hvalue]
  · intro w hw
    rw [hfirst n value hkept, Option.bind_some, hw]
  · intro hdeclared
    exact absurd hdeclared hbody

def plainRequest (fs : List Field) : Bytes :=
  renderRequest (ascii "GET") (ascii "/") (ascii "HTTP/1.1") fs []

section Plain

variable {fs : List Field} (hne : fs ≠ []) (hfs : ∀ f ∈ fs, Splits f.1 ∧ lf ∉ f.1 ∧ lf ∉ f.2)
  (hlength : fs.lookup contentLengthKey = none)

include hne hfs hlength

theorem parse_plainRequest : headersInOrder (plainRequest fs) = fs ∧
    ¬ BodyDeclared (plainRequest fs) ∧ createRequestFromBuffer (plainRequest fs) =
      .ok ⟨ascii "GET", ascii "/", ascii "HTTP/1.1", headersOf fs, []⟩ := by
  obtain ⟨hheaders, -, hparse⟩ := @createRequestFromBuffer_renderRequest (ascii "GET") (ascii "/")
    (ascii "HTTP/1.1") fs (by decide) (by decide) (by decide) hne hfs []
  rw [readBody_of_no_length hlength] at hparse
  refine ⟨hheaders, ?_, hparse⟩
  rw [BodyDeclared, plainRequest, hheaders, not_not]
  exact declaredLength_of_none (by rw [lookup_headersOf, hlength])

theorem written_plainRequest (hfits : ∀ f ∈ fs, boostBeast.fits f.1 f.2 = true)
    (order : HashOrder) : ∃ req, writtenRequest boostBeast order (plainRequest fs) (ascii "VIN1")
      (ascii "5") (ascii "backend") = .ok req := by
  obtain ⟨hheaders, -, hparse⟩ := parse_plainRequest hne hfs hlength
  have hverb : boostBeast.isVerb (ascii "GET") = true := by decide
  refine ⟨_, writtenRequest_eq_ok hparse hverb ?_ (by decide) (by decide) (by decide)
    fun hbody => absurd rfl hbody⟩
  intro e he
  obtain ⟨hlookup, -⟩ := (mem_forwarded_iff hparse).mp he
  rw [hheaders] at hlookup
  obtain ⟨pre, post, hsplit, -⟩ := List.lookup_eq_some_iff.mp hlookup
  exact hfits e (by simp [hsplit])

end Plain

def oneSpelling : List Field := [(ascii "A", ascii "1"), (ascii "A", ascii "2"), (ascii "B", [])]

theorem orderFree_one_spelling : ∃ req,
    writtenRequest boostBeast entryOrder (plainRequest oneSpelling) (ascii "VIN1") (ascii "5")
        (ascii "backend") = .ok req ∧
      OrderFree boostBeast (plainRequest oneSpelling) (ascii "VIN1") (ascii "5")
        (ascii "backend") req := by
  obtain ⟨hheaders, hbody, -⟩ := @parse_plainRequest oneSpelling (by decide) (by decide) rfl
  obtain ⟨req, hreq⟩ := @written_plainRequest oneSpelling (by decide) (by decide) rfl
    (by decide) entryOrder
  have hfirst : ∀ f ∈ oneSpelling,
      firstNamed f.1 oneSpelling = (oneSpelling.lookup f.1).map trim := by decide
  refine ⟨req, hreq, (orderFree_iff hreq).mpr fun n value hkept _ => ?_⟩
  refine sentAlike_of_firstNamed hbody (fun n value hkept => ?_) hkept
  obtain ⟨hlookup, -⟩ := hkept
  rw [hheaders] at hlookup ⊢
  obtain ⟨pre, post, hsplit, -⟩ := List.lookup_eq_some_iff.mp hlookup
  rw [hfirst (n, value) (by simp [hsplit]), hlookup]
  rfl

def twoSpellings : List Field := [(ascii "X-A", ascii "1"), (ascii "x-a", ascii "2")]

/-- Each of the two values is forwarded in some order. -/
theorem two_spellings_depend_on_order : ∃ req req',
    writtenRequest boostBeast (entryOrder.last (ascii "X-A", ascii "1"))
        (plainRequest twoSpellings) (ascii "VIN1") (ascii "5") (ascii "backend") = .ok req ∧
      writtenRequest boostBeast (entryOrder.last (ascii "x-a", ascii "2"))
        (plainRequest twoSpellings) (ascii "VIN1") (ascii "5") (ascii "backend") = .ok req' ∧
      req.fields.get? (ascii "X-A") = some (ascii "1") ∧
      req'.fields.get? (ascii "X-A") = some (ascii "2") ∧
      ¬ OrderFree boostBeast (plainRequest twoSpellings) (ascii "VIN1") (ascii "5")
        (ascii "backend") req := by
  obtain ⟨hheaders, hbody, -⟩ := @parse_plainRequest twoSpellings (by decide) (by decide) rfl
  have hwritten := @written_plainRequest twoSpellings (by decide) (by decide) rfl (by decide)
  obtain ⟨req, hreq⟩ := hwritten (entryOrder.last (ascii "X-A", ascii "1"))
  obtain ⟨req', hreq'⟩ := hwritten (entryOrder.last (ascii "x-a", ascii "2"))
  have hkept {n value : Bytes} (hlookup : twoSpellings.lookup n = some value) (hn : LineFree n)
      (hvalue : LineFree value) : Kept (plainRequest twoSpellings) n value :=
    ⟨by rw [hheaders, hlookup], hn, hvalue⟩
  have hset {n : Bytes} (hn : iequals n arrivedTimeName = false ∧
      iequals n clientIdName = false ∧ iequals n hostName = false) :
      ¬ SetByClient (plainRequest twoSpellings) n := by
    simp only [SetByClient, hn, hbody]
    simp
  have hone := get?_of_last hreq (hkept rfl (by decide) (by decide)) (hset (by decide))
  have htwo := get?_of_last hreq' (hkept rfl (by decide) (by decide)) (hset (by decide))
  rw [Beast.sent, if_neg fun h => hbody h.1] at hone htwo
  have hspelling : iequals (ascii "X-A") (ascii "x-a") = true := by decide
  have htwo : req'.fields.get? (ascii "X-A") = some (ascii "2") :=
    (Fields.get?_congr hspelling _).trans htwo
  refine ⟨req, req', hreq, hreq', hone, htwo, fun hfree => ?_⟩
  obtain ⟨req'', hreq'', hfields⟩ := hfree.1 (entryOrder.last (ascii "x-a", ascii "2"))
  obtain rfl : req' = req'' := Except.ok.inj (hreq'.symm.trans hreq'')
  have hsame := hfields (ascii "X-A")
  rw [hone, htwo] at hsame
  exact absurd hsame (by decide)

end WsGateway.Http
