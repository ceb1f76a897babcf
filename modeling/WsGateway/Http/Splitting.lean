import WsGateway.Http.Identity

/-!
# No splitting

Nothing in a message can end a line of the request that is written for it: the
method is a known verb, the url is a word, and the names and values of the
fields are filtered or the gateway's own. The head is one line for the request
and one for each field.
-/

namespace WsGateway.Http

open Lib Lib.Http Lib.Stream

def Request.headLines (req : Request) : List Bytes :=
  req.startLine :: req.fields.toList.map fun f => f.1 ++ colon :: sp :: f.2

/-- The text consists of these lines, none of them blank, each ended by CRLF; of a
blank line; and of the body. There are no other line ends before the body, and
whoever reads the text up to a blank line reads these lines. -/
structure Unsplit (text : Bytes) (lines : List Bytes) (body : Bytes) : Prop where
  text_eq : text = lines.flatMap (fun l => l ++ crlf) ++ (crlf ++ body)
  lineFree : ∀ l ∈ lines, LineFree l
  ne_nil : ∀ l ∈ lines, l ≠ []
  read : headerLines [] text = lines

theorem linesOnly_of_writtenRequest {B : Beast} {order : HashOrder} {msg clientID host : Bytes}
    {t : Bytes} {req : Request} (hc : LineFree clientID) (hh : LineFree host) (ht : LineFree t)
    (h : writtenRequest B order msg clientID t host = .ok req) : req.fields.LinesOnly := by
  obtain ⟨r, -, -, rfl⟩ := written_of_writtenRequest h
  exact (framedFields_linesOnly hc ht).set (by decide) hh

theorem startLine_of_writtenRequest {B : Beast} {order : HashOrder} {msg clientID t host : Bytes}
    {req : Request} (h : writtenRequest B order msg clientID t host = .ok req) :
    LineFree req.startLine ∧ req.startLine ≠ [] := by
  obtain ⟨r, hparse, hverb, rfl⟩ := written_of_writtenRequest h
  refine ⟨startLine_lineFree hverb (url_lineFree_of_parsed hparse), ?_⟩
  simp [Request.startLine, (B.verb_word _ hverb).1]

theorem unsplit_serialize (B : Beast) {req : Request}
    (hstart : LineFree req.startLine ∧ req.startLine ≠ []) (hfields : req.fields.LinesOnly) :
    Unsplit (B.serialize req) req.headLines (B.writtenBody req) where
  text_eq := by
    have hlines : req.fields.toList.flatMap renderField = (req.fields.toList.map fun f =>
        f.1 ++ colon :: sp :: f.2).flatMap fun l => l ++ crlf := by
      rw [List.flatMap_map]
      exact List.flatMap_congr fun f _ => by simp [renderField]
    simp [Beast.serialize, Request.headLines, renderFields, hlines]
  lineFree := by
    refine List.forall_mem_cons.mpr ⟨hstart.1, fun l hl => ?_⟩
    obtain ⟨f, hf, rfl⟩ := List.mem_map.mp hl
    obtain ⟨hn, hv⟩ := hfields f hf
    exact hn.field hv
  ne_nil := by
    refine List.forall_mem_cons.mpr ⟨hstart.2, fun l hl => ?_⟩
    obtain ⟨f, -, rfl⟩ := List.mem_map.mp hl
    simp
  read := by
    rw [Beast.serialize, headerLines_line hstart.1 hstart.2, renderFields, List.append_assoc,
      headerLines_flatMap hfields, headerLines_crlf, if_pos rfl, List.append_nil]
    rfl

/-- For every message, what is written is one request line and one line for each
field, and no byte of the message ends a line. -/
theorem no_splitting {B : Beast} {order : HashOrder} {msg clientID host : Bytes} {ns : Int}
    {req : Request} (hc : LineFree clientID) (hh : LineFree host)
    (h : writtenRequest B order msg clientID (toString ns) host = .ok req) :
    Unsplit (B.serialize req) req.headLines (B.writtenBody req) ∧
      (headerFields (B.serialize req)).length = req.fields.toList.length := by
  have hunsplit := unsplit_serialize B (startLine_of_writtenRequest h)
    (linesOnly_of_writtenRequest hc hh (toString_lineFree ns) h)
  refine ⟨hunsplit, ?_⟩
  rw [headerFields, hunsplit.read, Request.headLines, List.tail_cons, List.length_map,
    List.length_map]

/-- A header value that tries to bring in a line of its own with a bare CR. -/
theorem no_splitting_bare_cr : ∃ req,
    writtenRequest boostBeast entryOrder (oneHeader (ascii "A") (ascii "b\rX-Admin: 1") [])
        (ascii "VIN1") (toString 5) (ascii "backend") = .ok req ∧
      Unsplit (boostBeast.serialize req) req.headLines (boostBeast.writtenBody req) ∧
      (headerFields (boostBeast.serialize req)).length = req.fields.toList.length := by
  obtain ⟨headers, -, -, h⟩ := written_oneHeader (ascii "A") (ascii "b\rX-Admin: 1") [] 0
    (by decide) (by decide) (by decide)
    (fun _ hf => declaredLength_of_not_mem (by rw [hf]; decide)) (by decide) (by decide)
  exact ⟨_, h, no_splitting (by decide) (by decide) h⟩

end WsGateway.Http
