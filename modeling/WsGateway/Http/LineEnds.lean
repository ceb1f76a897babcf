import WsGateway.Http.Boundary
import WsGateway.Lib.Lists

/-!
# LF and CRLF

The loop accepts lines that end in LF alone, but takes the last byte of each
for a CR. With LF line ends every value loses its last byte, so that the two
spellings of a request are read alike exactly if there is nothing to lose.
-/

namespace WsGateway.Http

open Lib Lib.Http Lib.Stream

def requestWith (line e : Bytes) (fs : List Field) (body : Bytes) : Bytes :=
  line ++ (e ++ (fs.flatMap (fun f => f.1 ++ delimiter ++ (f.2 ++ e)) ++ (e ++ body)))

/-- The two spellings are both accepted, with the same result. -/
def ReadAlike (line : Bytes) (fs : List Field) (body : Bytes) : Prop :=
  ∃ r s, createRequestFromBuffer (requestWith line [lf] fs body) = .ok r ∧
    createRequestFromBuffer (requestWith line crlf fs body) = .ok s ∧
      SameHead r s ∧ r.body = s.body

theorem readHeaders_requestWith {fs : List Field} (hne : fs ≠ [])
    (hfs : ∀ f ∈ fs, colon ∉ f.1 ∧ LineFree f.1 ∧ LineFree f.2) (body : Bytes) :
    readHeaders 0 (IStream.ofString
        (fs.flatMap (fun f => f.1 ++ delimiter ++ (f.2 ++ crlf)) ++ (crlf ++ body))) =
      (fs, IStream.ofString body) ∧
    readHeaders 0 (IStream.ofString
        (fs.flatMap (fun f => f.1 ++ delimiter ++ (f.2 ++ [lf])) ++ ([lf] ++ body))) =
      (fs.map (fun f => (f.1, f.2.dropLast)), IStream.ofString body) := by
  constructor
  · have htext : fs.flatMap (fun f => f.1 ++ delimiter ++ (f.2 ++ crlf)) ++ (crlf ++ body) =
        renderFields fs ++ body := by
      rw [renderFields, List.append_assoc]
      congr 1
      refine List.flatMap_congr fun f _ => ?_
      simp [renderField, delimiter]
    rw [htext]
    exact readHeaders_render (fun f hf => ⟨splits_of_not_mem (hfs f hf).1, (hfs f hf).2.1.2,
      (hfs f hf).2.2.2⟩) body (.inr hne)
  · have htext : fs.flatMap (fun f => f.1 ++ delimiter ++ (f.2 ++ [lf])) =
        (fs.map fun f => f.1 ++ delimiter ++ f.2).flatMap fun l => l ++ [lf] := by
      rw [List.flatMap_map]
      refine List.flatMap_congr fun f _ => ?_
      simp
    have hlf : ∀ l ∈ fs.map fun f => f.1 ++ delimiter ++ f.2, lf ∉ l := by
      intro l hl
      obtain ⟨f, hf, rfl⟩ := List.mem_map.mp hl
      have hd : lf ∉ delimiter := by decide
      simp [hd, (hfs f hf).2.1.2, (hfs f hf).2.2.2]
    have hfind : ∀ l ∈ fs.map fun f => f.1 ++ delimiter ++ f.2, find delimiter l ≠ none := by
      intro l hl
      obtain ⟨f, hf, rfl⟩ := List.mem_map.mp hl
      rw [find_extend (splits_of_not_mem (hfs f hf).1)]
      simp
    have hentries : (fs.map fun f => f.1 ++ delimiter ++ f.2).map entryOfLine =
        fs.map fun f => (f.1, f.2.dropLast) := by
      rw [List.map_map]
      exact List.map_congr_left fun f hf =>
        entryOfLine_delimited (splits_of_not_mem (hfs f hf).1) f.2
    have hpos : 1 ≤ 0 + (fs.map fun f => f.1 ++ delimiter ++ f.2).length := by
      have hlen := List.length_pos_of_ne_nil hne
      rw [List.length_map]
      omega
    rw [htext, readHeaders_lines hlf hfind, readHeaders_lineEnd (.inl rfl) hpos, hentries,
      List.append_nil]

theorem createRequestFromBuffer_requestWith {line : Bytes} {fs : List Field}
    (hwords : HasWords 3 line) (hline : LineFree line) (hne : fs ≠ [])
    (hfs : ∀ f ∈ fs, colon ∉ f.1 ∧ LineFree f.1 ∧ LineFree f.2) (body : Bytes) :
    createRequestFromBuffer (requestWith line crlf fs body) =
      (readBody (headersOf fs) (IStream.ofString body)).bind (fun body =>
        .ok ⟨firstWord line, firstWord (afterWord line), firstWord (afterWord (afterWord line)),
          headersOf fs, body⟩) ∧
    createRequestFromBuffer (requestWith line [lf] fs body) =
      (readBody (headersOf (fs.map fun f => (f.1, f.2.dropLast))) (IStream.ofString body)).bind
        fun body => .ok ⟨firstWord line, firstWord (afterWord line),
          firstWord (afterWord (afterWord line)),
          headersOf (fs.map fun f => (f.1, f.2.dropLast)), body⟩ := by
  obtain ⟨hcrlf, hlf⟩ := readHeaders_requestWith hne hfs body
  obtain ⟨-, hparse⟩ := createRequestFromBuffer_line hwords hline.2 (.inr rfl)
    (fs.flatMap (fun f => f.1 ++ delimiter ++ (f.2 ++ crlf)) ++ (crlf ++ body))
  obtain ⟨-, hparse'⟩ := createRequestFromBuffer_line hwords hline.2 (.inl rfl)
    (fs.flatMap (fun f => f.1 ++ delimiter ++ (f.2 ++ [lf])) ++ ([lf] ++ body))
  rw [hcrlf] at hparse
  rw [hlf] at hparse'
  exact ⟨hparse, hparse'⟩

/-- LF and CRLF are read alike exactly if no name has a first value to cut. -/
theorem readAlike_iff {line : Bytes} {fs : List Field} {body : Bytes} (hwords : HasWords 3 line)
    (hline : LineFree line) (hne : fs ≠ [])
    (hfs : ∀ f ∈ fs, colon ∉ f.1 ∧ LineFree f.1 ∧ LineFree f.2)
    (hlength : ∀ value, fs.lookup contentLengthKey = some value → value = decimal body.length) :
    ReadAlike line fs body ↔ ∀ n value, fs.lookup n = some value → value = [] := by
  obtain ⟨hparse, hparse'⟩ := createRequestFromBuffer_requestWith hwords hline hne hfs body
  constructor
  · intro halike n value hvalue
    rcases halike with ⟨r, s, hr, hs, hsame, -⟩
    obtain ⟨b, -, hr⟩ := bind_eq_ok.mp (hparse'.symm.trans hr)
    obtain ⟨b', -, hs⟩ := bind_eq_ok.mp (hparse.symm.trans hs)
    cases hr
    cases hs
    have hn := hsame.headers n
    rw [lookup_headersOf, lookup_headersOf, lookup_map_value, hvalue, Option.map_some,
      Option.some.injEq] at hn
    have hlen := congrArg List.length hn
    rw [List.length_dropLast] at hlen
    exact List.length_eq_zero_iff.mp (by omega)
  · intro hempty
    have hnone : fs.lookup contentLengthKey = none := by
      rw [Option.eq_none_iff_forall_ne_some]
      intro value hvalue
      exact decimal_ne_nil body.length ((hlength value hvalue).symm.trans (hempty _ value hvalue))
    have hsame (n : Bytes) : (fs.map fun f => (f.1, f.2.dropLast)).lookup n = fs.lookup n := by
      rw [lookup_map_value]
      cases hn : fs.lookup n with
      | none => rfl
      | some value => simp [hempty n value hn]
    rw [readBody_of_no_length hnone] at hparse
    rw [readBody_of_no_length ((hsame _).trans hnone)] at hparse'
    refine ⟨_, _, hparse', hparse, ⟨rfl, rfl, rfl, fun n => ?_⟩, rfl⟩
    rw [lookup_headersOf, lookup_headersOf, hsame]

theorem readAlike_empty_values :
    ReadAlike (ascii "GET / HTTP/1.1") [(ascii "A", [])] (ascii "x") :=
  (readAlike_iff (by decide) (by decide) (by simp) (by decide)
    (fun value h => by cases h)).mpr (by
      intro n value h
      rw [List.lookup_cons] at h
      split at h
      · cases h
        rfl
      · cases h)

/-- The value `b` is empty when its line ends in LF. -/
theorem lf_cuts_value : ∃ r s,
    createRequestFromBuffer (ascii "GET / HTTP/1.1\nA: b\n\n") = .ok r ∧
      createRequestFromBuffer (ascii "GET / HTTP/1.1\r\nA: b\r\n\r\n") = .ok s ∧
      r.headers.lookup (ascii "A") = some [] ∧ s.headers.lookup (ascii "A") = some (ascii "b") ∧
      ¬ ReadAlike (ascii "GET / HTTP/1.1") [(ascii "A", ascii "b")] [] := by
  have hlf : requestWith (ascii "GET / HTTP/1.1") [lf] [(ascii "A", ascii "b")] [] =
      ascii "GET / HTTP/1.1\nA: b\n\n" := by decide
  have hcrlf : requestWith (ascii "GET / HTTP/1.1") crlf [(ascii "A", ascii "b")] [] =
      ascii "GET / HTTP/1.1\r\nA: b\r\n\r\n" := by decide
  obtain ⟨hparse, hparse'⟩ := createRequestFromBuffer_requestWith
    (show HasWords 3 (ascii "GET / HTTP/1.1") by decide) (by decide)
    (show [(ascii "A", ascii "b")] ≠ [] by simp) (by decide) []
  rw [readBody_of_no_length rfl] at hparse hparse'
  have hcut : (headersOf ([(ascii "A", ascii "b")].map fun f => (f.1, f.2.dropLast))).lookup
      (ascii "A") = some [] := by
    rw [lookup_headersOf]
    rfl
  have hkept : (headersOf [(ascii "A", ascii "b")]).lookup (ascii "A") = some (ascii "b") := by
    rw [lookup_headersOf]
    rfl
  rw [hlf] at hparse'
  rw [hcrlf] at hparse
  refine ⟨_, _, hparse', hparse, hcut, hkept, ?_⟩
  intro halike
  rcases halike with ⟨r, s, hr, hs, hsame, -⟩
  rw [hlf, hparse'] at hr
  rw [hcrlf, hparse] at hs
  cases hr
  cases hs
  have hheader := hsame.headers (ascii "A")
  rw [hcut, hkept] at hheader
  exact absurd hheader (by decide)

end WsGateway.Http
