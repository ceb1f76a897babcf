import WsGateway.Lib.Bytes

/-!
# The chunked transfer coding

A chunked body is a sequence of chunks, each behind a line with its size in
hexadecimal digits, and a last chunk of size zero. The coding only ever adds
bytes, so that no content is its own encoding.
-/

namespace WsGateway.Lib.Http

def isHexDigit (b : UInt8) : Bool :=
  isDigit b || (65 ≤ b && b ≤ 70) || (97 ≤ b && b ≤ 102)

def hexDigitValue (b : UInt8) : Nat :=
  if isDigit b then b.toNat - 48 else (toLower b).toNat - 87

def hexValue (s : Bytes) : Nat := s.foldl (fun acc b => 16 * acc + hexDigitValue b) 0

/-- The first line of a chunk of `n` bytes: its size, and extensions behind a semicolon. -/
def SizeLine (line : Bytes) (n : Nat) : Prop :=
  ∃ size extensions, line = size ++ extensions ∧ size ≠ [] ∧ (size.all isHexDigit) = true ∧
    hexValue size = n ∧ (extensions = [] ∨ extensions.head? = some 59) ∧ LineFree extensions

/-- The first text is a chunked encoding of the second. -/
inductive Chunked : Bytes → Bytes → Prop
  /-- the last chunk, and the trailer fields -/
  | last {line : Bytes} {trailers : List Bytes} (hline : SizeLine line 0)
      (ht : ∀ t ∈ trailers, t ≠ [] ∧ LineFree t) :
      Chunked (line ++ (crlf ++ (trailers.flatMap (fun t => t ++ crlf) ++ crlf))) []
  | chunk {line data rest content : Bytes} (hline : SizeLine line data.length)
      (hdata : data ≠ []) (h : Chunked rest content) :
      Chunked (line ++ (crlf ++ (data ++ (crlf ++ rest)))) (data ++ content)

theorem Chunked.length_lt {encoded content : Bytes} (h : Chunked encoded content) :
    content.length < encoded.length := by
  induction h with
  | last hline ht =>
      simp only [crlf, List.length_append, List.length_cons, List.length_nil]
      omega
  | chunk hline hdata h ih =>
      simp only [crlf, List.length_append, List.length_cons, List.length_nil]
      omega

theorem not_chunked_self (content : Bytes) : ¬ Chunked content content :=
  fun h => Nat.lt_irrefl _ h.length_lt

end WsGateway.Lib.Http
