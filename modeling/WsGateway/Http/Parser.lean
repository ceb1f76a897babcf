import Mathlib.Data.List.AList
import WsGateway.Lib.HeaderText
import WsGateway.Lib.Stream

/-!
# `createRequestFromBuffer`

The parser that turns a WebSocket message into the parts of a request. It
splits a header line at its first `": "`, keeps the first of several headers
with one name, and reads as many bytes of body as the key `Content-Length`
says. No header line makes it throw, whatever its bytes are; only `std::stoi`
and the allocation of the body do.
-/

namespace WsGateway.Http

open Lib Lib.Http Lib.Stream

/-- `std::unordered_map<std::string, std::string>`. -/
abbrev Headers := AList fun _ : Bytes => Bytes

/-- `headers.try_emplace(name, value)`. -/
def Headers.tryEmplace (headers : Headers) (name value : Bytes) : Headers :=
  if name ∈ headers then headers else headers.insert name value

def Headers.toFields (headers : Headers) : List Field := headers.entries.map fun e => (e.1, e.2)

theorem Headers.mem_toFields {headers : Headers} {name value : Bytes} :
    (name, value) ∈ headers.toFields ↔ headers.lookup name = some value := by
  rw [Headers.toFields, ← Option.mem_def, AList.mem_lookup_iff, List.mem_map]
  constructor
  · intro h
    rcases h with ⟨e, he, heq⟩
    cases heq
    exact he
  · intro he
    exact ⟨_, he, rfl⟩

structure ParsedRequest where
  method : Bytes
  url : Bytes
  version : Bytes
  headers : Headers
  body : Bytes

/-! ## Header lines -/

def delimiter : Bytes := [colon, sp]

/-- `headerLine.substr(0, delimiterPos)`. -/
def headerName (headerLine : Bytes) (delimiterPos : Option Nat) : Except StdException Bytes :=
  substr headerLine 0 (delimiterPos.getD npos)

/-- `delimiterPos + 2`, which wraps around for `npos`. -/
def valueStart : Option Nat → Nat
  | some delimiterPos => delimiterPos + 2
  | none => (npos + 2) % 2 ^ 64

/-- The rest of the line without its last byte, which is taken for the CR. -/
def headerValue (headerLine : Bytes) (delimiterPos : Option Nat) : Except StdException Bytes :=
  let start := valueStart delimiterPos
  substr headerLine start (sizeSub (sizeSub headerLine.length start) 1)

/-- The loop over the header lines. A line without `": "` ends it, except for
the first one. -/
def headerLoop (mycount : Nat) (headers : Headers) (stream : IStream) :
    Except StdException (Headers × IStream) :=
  match h : stream.getline with
  | (none, stream') => .ok (headers, stream')
  | (some headerLine, stream') =>
      if headerLine = [] then .ok (headers, stream')
      else
        let delimiterPos := find delimiter headerLine
        if delimiterPos = none ∧ mycount + 1 > 1 then .ok (headers, stream')
        else do
          let name ← headerName headerLine delimiterPos
          let value ← headerValue headerLine delimiterPos
          headerLoop (mycount + 1) (headers.tryEmplace name value) stream'
termination_by stream.rest.length
decreasing_by exact getline_length_lt h

/-! ## The body and the whole message -/

def contentLengthKey : Bytes := ascii "Content-Length"

/-- The body: as many bytes as the headers say. -/
def readBody (headers : Headers) (stream : IStream) : Except StdException Bytes :=
  match headers.lookup contentLengthKey with
  | none => .ok []
  | some value => do
      let contentLength ← stoi value
      -- a negative length is a huge size for `body.insert`
      if contentLength < 0 then .error .lengthError
      else .ok (stream.read (List.replicate contentLength.toNat 48)).1

def createRequestFromBuffer (buffer : Bytes) : Except StdException ParsedRequest := do
  let stream := IStream.ofString buffer
  let (method, stream) := stream.extract
  let (url, stream) := stream.extract
  let (version, stream) := stream.extract
  -- the rest of the first line
  let (_, stream) := stream.getline
  let (headers, stream) ← headerLoop 0 ∅ stream
  let body ← readBody headers stream
  return ⟨method, url, version, headers, body⟩

theorem parsed_of_createRequestFromBuffer {buffer : Bytes} {r : ParsedRequest}
    (h : createRequestFromBuffer buffer = .ok r) :
    r.url = (IStream.ofString buffer).extract.2.extract.1 ∧
      ∃ stream, readBody r.headers stream = .ok r.body := by
  obtain ⟨⟨headers, stream⟩, -, h⟩ := bind_eq_ok.mp h
  obtain ⟨body, hbody, h⟩ := bind_eq_ok.mp h
  cases h
  exact ⟨rfl, stream, hbody⟩

/-! ## What is parsed -/

/-- The length that the key `Content-Length` declares, zero without the key. -/
def declaredLength (headers : Headers) : Except StdException Int :=
  match headers.lookup contentLengthKey with
  | none => .ok 0
  | some value => stoi value

theorem declaredLength_of_some {headers : Headers} {value : Bytes}
    (h : headers.lookup contentLengthKey = some value) : declaredLength headers = stoi value := by
  rw [declaredLength, h]

theorem declaredLength_of_none {headers : Headers}
    (h : headers.lookup contentLengthKey = none) : declaredLength headers = .ok 0 := by
  rw [declaredLength, h]

theorem declaredLength_of_mem {headers : Headers} {value : Bytes}
    (h : (contentLengthKey, value) ∈ headers.toFields) : declaredLength headers = stoi value :=
  declaredLength_of_some (Headers.mem_toFields.mp h)

theorem declaredLength_of_not_mem {headers : Headers}
    (h : contentLengthKey ∉ headers.toFields.map Prod.fst) : declaredLength headers = .ok 0 := by
  have hnone : headers.lookup contentLengthKey = none := by
    rw [Option.eq_none_iff_forall_ne_some]
    intro value hsome
    exact h (List.mem_map.mpr ⟨_, Headers.mem_toFields.mpr hsome, rfl⟩)
  exact declaredLength_of_none hnone

theorem declaredLength_of_readBody {headers : Headers} {stream : IStream} {body : Bytes}
    (h : readBody headers stream = .ok body) :
    declaredLength headers = .ok (body.length : Int) := by
  unfold readBody at h
  split at h
  · rename_i hnone
    cases h
    simp [declaredLength, hnone]
  · rename_i value hsome
    obtain ⟨n, hn, h⟩ := bind_eq_ok.mp h
    split at h
    · cases h
    · rename_i hneg
      cases h
      simp only [declaredLength, hsome, hn, length_read, List.length_replicate]
      rw [Int.toNat_of_nonneg (by omega)]

theorem readBody_eq {headers : Headers} {n : Nat} (h : declaredLength headers = .ok (n : Int))
    (stream : IStream) :
    readBody headers stream = .ok (stream.read (List.replicate n 48)).1 := by
  unfold declaredLength at h
  unfold readBody
  split at h
  · have hzero : n = 0 := by simpa using h.symm
    subst hzero
    have hnil : (stream.read []).1 = [] := List.length_eq_zero_iff.mp (length_read stream [])
    exact congrArg Except.ok hnil.symm
  · have hneg : ¬ (n : Int) < 0 := by omega
    simp only [h, bind, Except.bind, if_neg hneg, Int.toNat_natCast]

theorem readBody_take {headers : Headers} {n : Nat} {rest : Bytes}
    (h : declaredLength headers = .ok (n : Int)) (hn : n ≤ rest.length) :
    readBody headers (IStream.ofString rest) = .ok (rest.take n) := by
  have hread := @read_take rest (List.replicate n 48) (by simpa using hn)
  rw [readBody_eq h, hread, List.length_replicate]

theorem declaredLength_of_parsed {buffer : Bytes} {r : ParsedRequest}
    (h : createRequestFromBuffer buffer = .ok r) :
    declaredLength r.headers = .ok (r.body.length : Int) := by
  obtain ⟨-, stream, hbody⟩ := parsed_of_createRequestFromBuffer h
  exact declaredLength_of_readBody hbody

theorem url_lineFree_of_parsed {buffer : Bytes} {r : ParsedRequest}
    (h : createRequestFromBuffer buffer = .ok r) : LineFree r.url := by
  rw [(parsed_of_createRequestFromBuffer h).1]
  exact extract_lineFree _

end WsGateway.Http
