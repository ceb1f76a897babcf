import WsGateway.Http.Scan

/-!
# Rendered requests

The parser undoes the rendering of a request line by line. The name of a field
must not bring in the delimiter, and neither name nor value an LF; names may be
repeated, and the first value of a name is the one that counts.
-/

namespace WsGateway.Http

open Lib Lib.Http Lib.Stream

/-! ## The delimiter -/

theorem find_delimiter_cons (b : UInt8) (text : Bytes) :
    find delimiter (b :: text) =
      if b = colon ∧ text.head? = some sp then some 0
      else (find delimiter text).map (· + 1) := by
  have hprefix : delimiter <+: b :: text ↔ b = colon ∧ text.head? = some sp := by
    cases text with
    | nil => simp [delimiter]
    | cons c text =>
        simp only [delimiter, List.cons_prefix_cons, List.nil_prefix, List.head?_cons,
          Option.some.injEq, and_true]
        exact and_congr eq_comm eq_comm
  simp only [find, List.isPrefixOf_iff_prefix, hprefix]

theorem find_delimiter_append {s : Bytes} (h : colon ∉ s) (text : Bytes) :
    find delimiter (s ++ text) = (find delimiter text).map (· + s.length) := by
  induction s with
  | nil => simp
  | cons b s ih =>
      rw [List.mem_cons, not_or] at h
      rw [List.cons_append, find_delimiter_cons, if_neg fun hb => h.1 hb.1.symm, ih h.2,
        Option.map_map]
      rfl

/-- A CR at the end brings in no delimiter. -/
theorem find_delimiter_concat (text : Bytes) :
    find delimiter (text ++ [cr]) = find delimiter text := by
  induction text with
  | nil => decide
  | cons b text ih =>
      have hhead : (text ++ [cr]).head? = some sp ↔ text.head? = some sp := by
        have hcr : cr ≠ sp := by decide
        cases text <;> simp [hcr]
      rw [List.cons_append, find_delimiter_cons, find_delimiter_cons, ih]
      simp only [hhead]

/-- The parser takes `name` as the name in a line `name: value`. -/
def Splits (name : Bytes) : Prop := find delimiter (name ++ delimiter) = some name.length

instance (name : Bytes) : Decidable (Splits name) := inferInstanceAs (Decidable (_ = _))

theorem splits_of_not_mem {name : Bytes} (h : colon ∉ name) : Splits name := find_of_not_mem h

theorem splits_iff {name : Bytes} : Splits name ↔ find delimiter name = none := by
  unfold Splits
  induction name with
  | nil => decide
  | cons b name ih =>
      have hhead : (name ++ delimiter).head? = some sp ↔ name.head? = some sp := by
        have hcolon : colon ≠ sp := by decide
        cases name <;> simp [delimiter, hcolon]
      rw [List.cons_append, find_delimiter_cons, find_delimiter_cons]
      simp only [hhead]
      split
      · simp
      · simpa [Option.map_eq_some_iff] using ih

theorem exists_of_find {line : Bytes} (h : find delimiter line ≠ none) :
    ∃ name value, Splits name ∧ line = name ++ delimiter ++ value := by
  induction line with
  | nil => exact absurd rfl h
  | cons b line ih =>
      rw [find_delimiter_cons] at h
      by_cases hb : b = colon ∧ line.head? = some sp
      · obtain ⟨rest, rfl⟩ : ∃ rest, line = sp :: rest := by
          cases line with
          | nil => simp at hb
          | cons c rest =>
              have hc : c = sp := by simpa using hb.2
              exact ⟨rest, by rw [hc]⟩
        exact ⟨[], rest, by decide, by rw [hb.1]; rfl⟩
      · rw [if_neg hb, ne_eq, Option.map_eq_none_iff] at h
        obtain ⟨name, value, hsplits, rfl⟩ := ih h
        refine ⟨b :: name, value, ?_, rfl⟩
        rw [splits_iff] at hsplits ⊢
        have hhead : name.head? = some sp → (name ++ delimiter ++ value).head? = some sp := by
          cases name <;> simp
        rw [find_delimiter_cons, if_neg fun hc => hb ⟨hc.1, hhead hc.2⟩, hsplits]
        rfl

/-! ## Header lines -/

/-- The last byte of a line is cut off, whatever it is. -/
theorem entryOfLine_delimited {name : Bytes} (h : Splits name) (text : Bytes) :
    entryOfLine (name ++ delimiter ++ text) = (name, text.dropLast) := by
  have hfind : find delimiter (name ++ delimiter ++ text) = some name.length := find_extend h _
  have hlen : (name ++ delimiter ++ text).length = name.length + 2 + text.length := by
    simp only [delimiter, List.length_append, List.length_cons, List.length_nil]
  have hdrop : (name ++ delimiter ++ text).drop (name.length + 2) = text := by
    rw [List.drop_append_of_le_length (by simp [delimiter])]
    simp [delimiter]
  have htake : text.take (sizeSub text.length 1) = text.dropLast := by
    cases text with
    | nil => rfl
    | cons b text => rw [sizeSub, if_pos (by simp), List.dropLast_eq_take]
  simp only [entryOfLine, hfind, valueStart, Option.getD_some, hdrop, hlen, sizeSub_add, htake]
  simp

def headerLine (f : Field) : Bytes := f.1 ++ delimiter ++ (f.2 ++ [cr])

theorem find_headerLine {f : Field} (h : Splits f.1) :
    find delimiter (headerLine f) = some f.1.length := find_extend h _

theorem entryOfLine_headerLine {f : Field} (h : Splits f.1) : entryOfLine (headerLine f) = f := by
  rw [headerLine, entryOfLine_delimited h, List.dropLast_concat]

theorem lf_not_mem_headerLine {f : Field} (hn : lf ∉ f.1) (hv : lf ∉ f.2) :
    lf ∉ headerLine f := by
  have hd : lf ∉ delimiter := by decide
  have hc : lf ∉ [cr] := by decide
  simp only [headerLine, List.mem_append, not_or]
  exact ⟨⟨hn, hd⟩, hv, hc⟩

theorem flatMap_renderField (fs : List Field) :
    fs.flatMap renderField = (fs.map headerLine).flatMap fun l => l ++ [lf] := by
  rw [List.flatMap_map]
  refine List.flatMap_congr fun f _ => ?_
  simp [renderField, headerLine, delimiter, crlf]

theorem readHeaders_render {fs : List Field} (hfs : ∀ f ∈ fs, Splits f.1 ∧ lf ∉ f.1 ∧ lf ∉ f.2)
    (rest : Bytes) {mycount : Nat} (hcount : 1 ≤ mycount ∨ fs ≠ []) :
    readHeaders mycount (IStream.ofString (renderFields fs ++ rest)) =
      (fs, IStream.ofString rest) := by
  have hlf : ∀ l ∈ fs.map headerLine, lf ∉ l := by
    intro l hl
    obtain ⟨f, hf, rfl⟩ := List.mem_map.mp hl
    exact lf_not_mem_headerLine (hfs f hf).2.1 (hfs f hf).2.2
  have hfind : ∀ l ∈ fs.map headerLine, find delimiter l ≠ none := by
    intro l hl
    obtain ⟨f, hf, rfl⟩ := List.mem_map.mp hl
    simp [find_headerLine (hfs f hf).1]
  have hentries : (fs.map headerLine).map entryOfLine = fs := by
    have hid : fs.map (entryOfLine ∘ headerLine) = fs.map id :=
      List.map_congr_left fun f hf => entryOfLine_headerLine (hfs f hf).1
    rw [List.map_map, hid, List.map_id]
  have hpos : 1 ≤ mycount + (fs.map headerLine).length := by
    rw [List.length_map]
    rcases hcount with h | h
    · omega
    · have := List.length_pos_of_ne_nil h
      omega
  have htext : renderFields fs ++ rest =
      (fs.map headerLine).flatMap (fun l => l ++ [lf]) ++ (crlf ++ rest) := by
    rw [renderFields, flatMap_renderField, List.append_assoc]
  rw [htext, readHeaders_lines hlf hfind, readHeaders_blank hpos, hentries, List.append_nil]

/-! ## The whole request -/

/-- The text of a request with CRLF line ends. -/
def renderRequest (method url version : Bytes) (fs : List Field) (body : Bytes) : Bytes :=
  method ++ sp :: (url ++ sp :: (version ++ (crlf ++ (renderFields fs ++ body))))

theorem word_firstWord {word : Bytes} (h : Word word) :
    firstWord word = word ∧ afterWord word = [] := by
  rcases h with ⟨hne, hword⟩
  obtain ⟨b, s, hs⟩ := List.exists_cons_of_ne_nil hne
  have hdrop : word.dropWhile isSpace = word := by
    rw [hs, List.dropWhile_cons, if_neg (by simp [hword b (by simp [hs])])]
  have hall : ∀ b ∈ word, (!isSpace b) = true := by simpa using hword
  rw [firstWord, afterWord, hdrop]
  exact ⟨List.takeWhile_eq_self_iff.mpr hall, List.dropWhile_eq_nil_iff.mpr hall⟩

theorem words_requestLine {method url version : Bytes} (hmethod : Word method) (hurl : Word url)
    (hversion : Word version) :
    HasWords 3 (method ++ sp :: (url ++ sp :: version)) ∧
      firstWord (method ++ sp :: (url ++ sp :: version)) = method ∧
      firstWord (afterWord (method ++ sp :: (url ++ sp :: version))) = url ∧
      firstWord (afterWord (afterWord (method ++ sp :: (url ++ sp :: version)))) = version := by
  have hskip (t : Bytes) : firstWord (sp :: t) = firstWord t ∧ afterWord (sp :: t) = afterWord t :=
    @firstWord_blank [sp] (by decide) t
  obtain ⟨hm, hm'⟩ := word_firstWord hmethod
  obtain ⟨hu, hu'⟩ := word_firstWord hurl
  obtain ⟨hv, -⟩ := word_firstWord hversion
  have h₁ := @firstWord_append method (by rw [hm]; exact hmethod.1) sp isSpace_sp
    (url ++ sp :: version)
  have h₂ := @firstWord_append url (by rw [hu]; exact hurl.1) sp isSpace_sp version
  rw [hm, hm', List.nil_append] at h₁
  rw [hu, hu', List.nil_append] at h₂
  simp only [HasWords, h₁, h₂, hskip, hv, and_true]
  exact ⟨hmethod.1, hurl.1, hversion.1⟩

/-- What is read in a rendered request, and what is parsed as far as its body can
be read. -/
theorem createRequestFromBuffer_renderRequest {method url version : Bytes} {fs : List Field}
    (hmethod : Word method) (hurl : Word url) (hversion : Word version) (hne : fs ≠ [])
    (hfs : ∀ f ∈ fs, Splits f.1 ∧ lf ∉ f.1 ∧ lf ∉ f.2) (body : Bytes) :
    headersInOrder (renderRequest method url version fs body) = fs ∧
      bodyStream (renderRequest method url version fs body) = IStream.ofString body ∧
      createRequestFromBuffer (renderRequest method url version fs body) =
        (readBody (headersOf fs) (IStream.ofString body)).bind fun body =>
          .ok ⟨method, url, version, headersOf fs, body⟩ := by
  obtain ⟨hwords, hm, hu, hv⟩ := words_requestLine hmethod hurl hversion
  have hline : lf ∉ method ++ sp :: (url ++ sp :: version) := by
    have hsp : lf ≠ sp := by decide
    have hfree {w : Bytes} (h : Word w) : lf ∉ w := (LineFree.of_not_isSpace h.2).2
    simp [hsp, hfree hmethod, hfree hurl, hfree hversion]
  have htext : renderRequest method url version fs body =
      (method ++ sp :: (url ++ sp :: version)) ++ (crlf ++ (renderFields fs ++ body)) := by
    simp [renderRequest]
  obtain ⟨hsection, hparse⟩ := createRequestFromBuffer_line hwords hline (.inr rfl)
    (renderFields fs ++ body)
  rw [readHeaders_render hfs body (.inr hne), hm, hu, hv] at hparse
  rw [htext, headersInOrder, bodyStream, hsection, readHeaders_render hfs body (.inr hne)]
  exact ⟨rfl, rfl, hparse⟩

/-- Parsing undoes rendering: method, url and version come back, the map sends
each name to its first value and has no other name, and the body is as many
bytes as `Content-Length` says, if that is there. -/
theorem parsing_undoes_rendering {method url version : Bytes} {fs : List Field}
    (hmethod : Word method) (hurl : Word url) (hversion : Word version) (hne : fs ≠ [])
    (hfs : ∀ f ∈ fs, colon ∉ f.1 ∧ lf ∉ f.1 ∧ lf ∉ f.2) (b : Bytes) :
    ∃ headers : Headers, (∀ n, headers.lookup n = fs.lookup n) ∧
      (∀ value n, fs.lookup contentLengthKey = some value → DecimalOf value n →
        n ≤ min b.length (2 ^ 31 - 1) →
          createRequestFromBuffer (renderRequest method url version fs b) =
            .ok ⟨method, url, version, headers, b.take n⟩) ∧
      (fs.lookup contentLengthKey = none →
        createRequestFromBuffer (renderRequest method url version fs b) =
          .ok ⟨method, url, version, headers, []⟩) := by
  obtain ⟨-, -, hparse⟩ := createRequestFromBuffer_renderRequest hmethod hurl hversion hne
    (fun f hf => ⟨splits_of_not_mem (hfs f hf).1, (hfs f hf).2⟩) b
  have hbody {n : Nat} (hn : n ≤ b.length) (h : declaredLength (headersOf fs) = .ok (n : Int)) :
      createRequestFromBuffer (renderRequest method url version fs b) =
        .ok ⟨method, url, version, headersOf fs, b.take n⟩ := by
    rw [hparse, readBody_take h hn]
    rfl
  refine ⟨headersOf fs, lookup_headersOf fs, ?_, ?_⟩
  · intro value n hvalue hnumeral hn
    rcases hnumeral with ⟨hnil, hdigits, hval⟩
    subst hval
    refine hbody (by omega) ?_
    rw [declaredLength_of_some (by rw [lookup_headersOf, hvalue]),
      stoi_digits hnil (List.all_eq_true.mp hdigits) (by omega)]
  · intro hnone
    exact hbody (Nat.zero_le _) (declaredLength_of_none (by rw [lookup_headersOf, hnone]))

theorem parsing_undoes_rendering_repeated : ∃ headers : Headers,
    headers.lookup (ascii "A") = some (ascii "1") ∧
      createRequestFromBuffer (renderRequest (ascii "POST") (ascii "/") (ascii "HTTP/1.1")
        [(ascii "A", ascii "1"), (ascii "Content-Length", ascii "2"), (ascii "A", ascii "x: y")]
        (ascii "hello")) =
        .ok ⟨ascii "POST", ascii "/", ascii "HTTP/1.1", headers, ascii "he"⟩ := by
  obtain ⟨headers, hlookup, hbody, -⟩ := @parsing_undoes_rendering
    (ascii "POST") (ascii "/") (ascii "HTTP/1.1")
    [(ascii "A", ascii "1"), (ascii "Content-Length", ascii "2"), (ascii "A", ascii "x: y")]
    (by decide) (by decide) (by decide) (by simp) (by decide) (ascii "hello")
  refine ⟨headers, ?_, ?_⟩
  · rw [hlookup]
    rfl
  · exact hbody (ascii "2") 2 rfl (by decide) (by decide)

/-! ## Distinct names -/

theorem toFields_emplaceAll {fs : List Field} (hnodup : (fs.map Prod.fst).Nodup)
    (headers : Headers) (hnew : ∀ f ∈ fs, f.1 ∉ headers) :
    (headers.emplaceAll fs).toFields = fs.reverse ++ headers.toFields := by
  induction fs generalizing headers with
  | nil => rfl
  | cons f fs ih =>
      rcases f with ⟨name, value⟩
      obtain ⟨hfresh, hnodup⟩ := List.nodup_cons.mp hnodup
      have hnot : name ∉ headers := hnew _ List.mem_cons_self
      have hcons : headers.emplaceAll ((name, value) :: fs) =
          Headers.emplaceAll (headers.insert name value) fs :=
        congrArg (fun h => Headers.emplaceAll h fs) (if_neg hnot)
      have hnew' : ∀ g ∈ fs, g.1 ∉ headers.insert name value := by
        intro g hg
        rw [AList.mem_insert, not_or]
        refine ⟨?_, hnew g (List.mem_cons_of_mem _ hg)⟩
        intro heq
        exact hfresh (List.mem_map.mpr ⟨g, hg, heq⟩)
      rw [hcons, ih hnodup _ hnew', Headers.toFields, AList.entries_insert_of_notMem hnot]
      simp [Headers.toFields]

theorem createRequestFromBuffer_render {method url version : Bytes} (fs : List Field) (rest : Bytes)
    (hmethod : Word method) (hurl : Word url) (hversion : Word version)
    (hne : fs ≠ []) (hfs : ∀ f ∈ fs, Splits f.1 ∧ lf ∉ f.1 ∧ lf ∉ f.2)
    (hnodup : (fs.map Prod.fst).Nodup) :
    ∃ headers : Headers, headers.toFields = fs.reverse ∧
      ∀ n ≤ rest.length, declaredLength headers = .ok (n : Int) →
        createRequestFromBuffer (renderRequest method url version fs rest) =
          .ok ⟨method, url, version, headers, rest.take n⟩ := by
  refine ⟨headersOf fs, ?_, ?_⟩
  · rw [headersOf, toFields_emplaceAll hnodup ∅ (by simp)]
    simp [Headers.toFields]
  · intro n hn hlength
    obtain ⟨-, -, hparse⟩ :=
      createRequestFromBuffer_renderRequest hmethod hurl hversion hne hfs rest
    rw [readBody_take hlength hn] at hparse
    exact hparse

end WsGateway.Http
