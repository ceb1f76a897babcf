import WsGateway.Http.Client
import WsGateway.Http.Decoding
import WsGateway.Lib.Chunked

/-!
# The framing of the answer

The text of a response has the fields that were received and the body that was
decoded. A length still says how long that body is; a chunked transfer coding
says something that is no longer true, since no content is its own encoding.
-/

namespace WsGateway.Http

open Lib Lib.Http Lib.Stream

def Beast.EndsChunked (B : Beast) (fs : List Field) : Prop :=
  ∃ f ∈ fs, named transferEncodingName f = true ∧ B.chunked f.2 = true

def LengthOf (fs : List Field) (body : Bytes) : Prop :=
  ∀ f ∈ fs, named contentLengthName f = true → DecimalOf (trim f.2) body.length

/-- `http::async_read` delivers the response, where `received` stood behind its head:
the fields as received, and the content decoded. -/
structure Beast.Delivers (B : Beast) (received : Bytes) (res : Response) : Prop where
  printable : res.Printable
  decoded : B.EndsChunked res.fields → Chunked received res.body
  plain : ¬ B.EndsChunked res.fields → res.body = received
  length : LengthOf res.fields res.body

/-- The text is a message whose headers say how `content` stands behind its head. -/
def Beast.SelfFramed (B : Beast) (text content : Bytes) : Prop :=
  ∃ msg, decodeResponse text = some msg ∧ LengthOf msg.fields msg.body ∧
    (B.EndsChunked msg.fields → Chunked msg.body content)

/-- Only the transfer coding can be wrong. -/
theorem selfFramed_build_iff {B : Beast} {received : Bytes} {res : Response}
    (h : B.Delivers received res) :
    B.SelfFramed (buildResponseStringBuffer res) res.body ↔ ¬ B.EndsChunked res.fields := by
  have hread := decodeResponse_build h.printable
  constructor
  · intro hframed hchunked
    rcases hframed with ⟨msg, hmsg, -, hcoded⟩
    rw [hread, Option.some.injEq] at hmsg
    subst hmsg
    exact not_chunked_self res.body (hcoded hchunked)
  · intro hplain
    exact ⟨res, hread, h.length, fun hchunked => absurd hchunked hplain⟩

theorem chunked_on : Chunked (ascii "2\r\non\r\n0\r\n\r\n") (ascii "on") := by
  have hsize : SizeLine (ascii "2") (ascii "on").length :=
    ⟨ascii "2", [], by decide, by decide, by decide, by decide, .inl rfl, by decide⟩
  have hlast : SizeLine (ascii "0") 0 :=
    ⟨ascii "0", [], by decide, by decide, by decide, by decide, .inl rfl, by decide⟩
  have htext : ascii "2\r\non\r\n0\r\n\r\n" = ascii "2" ++ (crlf ++ (ascii "on" ++ (crlf ++
      (ascii "0" ++ (crlf ++ (([] : List Bytes).flatMap (fun t => t ++ crlf) ++ crlf)))))) := by
    decide
  have hcontent : ascii "on" = ascii "on" ++ [] := by decide
  rw [htext, hcontent]
  exact .chunk hsize (by decide) (.last hlast (by decide))

theorem not_selfFramed_chunked :
    let res : Response := ⟨11, 200, ascii "OK",
      [(ascii "Transfer-Encoding", ascii "chunked")], ascii "on"⟩
    boostBeast.Delivers (ascii "2\r\non\r\n0\r\n\r\n") res ∧
      ¬ boostBeast.SelfFramed (buildResponseStringBuffer res) res.body := by
  intro res
  have hfields : boostBeast.EndsChunked res.fields :=
    ⟨_, List.mem_singleton_self _, by decide, by decide⟩
  refine ⟨⟨⟨by decide, by decide⟩, fun _ => chunked_on, absurd hfields, ?_⟩, ?_⟩
  · intro f hf hlength
    rw [List.mem_singleton.mp hf] at hlength
    cases hlength
  · intro hframed
    rcases hframed with ⟨msg, hmsg, -, hcoded⟩
    rw [decodeResponse_build ⟨by decide, by decide⟩, Option.some.injEq] at hmsg
    subst hmsg
    exact not_chunked_self _ (hcoded hfields)

/-- A backend that says how long its answer is. -/
theorem selfFramed_build_length :
    let res : Response := ⟨11, 200, ascii "OK", [(ascii "content-length", ascii "2")], ascii "on"⟩
    buildResponseStringBuffer res = ascii "HTTP/1.1 200 OK\r\ncontent-length: 2\r\n\r\non" ∧
      boostBeast.SelfFramed (buildResponseStringBuffer res) res.body := by
  have hplain : ¬ boostBeast.EndsChunked [(ascii "content-length", ascii "2")] := by
    intro hchunked
    rcases hchunked with ⟨f, hf, hname, -⟩
    rw [List.mem_singleton.mp hf] at hname
    cases hname
  refine ⟨by decide, (@selfFramed_build_iff boostBeast (ascii "on") _ ⟨⟨by decide, by decide⟩,
    fun hchunked => absurd hchunked hplain, fun _ => rfl, ?_⟩).mpr hplain⟩
  intro f hf _
  rw [List.mem_singleton.mp hf]
  decide

end WsGateway.Http
