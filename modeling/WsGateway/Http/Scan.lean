import WsGateway.Http.Parser

/-!
# What the header loop reads

The loop as a function on the text: the headers in the order in which it reads
them, repetitions included, and the stream that it leaves for the body. The
map that it builds holds the first value of each name. All that is parsed from
a message is a function of its three words, this list, and this stream.
-/

namespace WsGateway.Http

open Lib Lib.Http Lib.Stream

def entryOfLine (headerLine : Bytes) : Field :=
  let delimiterPos := find delimiter headerLine
  let start := valueStart delimiterPos
  (headerLine.take (delimiterPos.getD npos),
    (headerLine.drop start).take (sizeSub (sizeSub headerLine.length start) 1))

theorem headerName_eq (headerLine : Bytes) :
    headerName headerLine (find delimiter headerLine) = .ok (entryOfLine headerLine).1 := by
  rw [headerName, substr_ok (Nat.zero_le _)]
  rfl

theorem headerValue_eq {headerLine : Bytes} (h : headerLine ≠ []) :
    headerValue headerLine (find delimiter headerLine) = .ok (entryOfLine headerLine).2 := by
  have hstart : valueStart (find delimiter headerLine) ≤ headerLine.length := by
    cases hfind : find delimiter headerLine with
    | none => exact List.length_pos_of_ne_nil h
    | some n => exact find_le hfind
  rw [headerValue]
  exact substr_ok hstart

/-- The loop ends at this line, if it has read `mycount` lines before. -/
def EndsHeaders (mycount : Nat) (headerLine : Bytes) : Prop :=
  headerLine = [] ∨ (find delimiter headerLine = none ∧ 1 ≤ mycount)

instance (mycount : Nat) (headerLine : Bytes) : Decidable (EndsHeaders mycount headerLine) :=
  inferInstanceAs (Decidable (_ ∨ _))

def readHeaders (mycount : Nat) (stream : IStream) : List Field × IStream :=
  match h : stream.getline with
  | (none, stream') => ([], stream')
  | (some headerLine, stream') =>
      if EndsHeaders mycount headerLine then ([], stream')
      else
        let result := readHeaders (mycount + 1) stream'
        (entryOfLine headerLine :: result.1, result.2)
termination_by stream.rest.length
decreasing_by exact getline_length_lt h

theorem readHeaders_none {stream stream' : IStream} (h : stream.getline = (none, stream'))
    (mycount : Nat) : readHeaders mycount stream = ([], stream') := by
  rw [readHeaders]
  split
  · rename_i heq
    rw [h] at heq
    cases heq
    rfl
  · rename_i heq
    rw [h] at heq
    cases heq

theorem readHeaders_some {stream stream' : IStream} {headerLine : Bytes}
    (h : stream.getline = (some headerLine, stream')) (mycount : Nat) :
    readHeaders mycount stream =
      if EndsHeaders mycount headerLine then ([], stream')
      else (entryOfLine headerLine :: (readHeaders (mycount + 1) stream').1,
        (readHeaders (mycount + 1) stream').2) := by
  rw [readHeaders]
  split
  · rename_i heq
    rw [h] at heq
    cases heq
  · rename_i heq
    rw [h] at heq
    cases heq
    rfl

theorem readHeaders_nil (mycount : Nat) :
    readHeaders mycount (IStream.ofString []) = ([], ⟨[], true, true⟩) :=
  readHeaders_none rfl mycount

theorem readHeaders_line {line : Bytes} (h : lf ∉ line) (rest : Bytes) (mycount : Nat) :
    readHeaders mycount (IStream.ofString (line ++ lf :: rest)) =
      if EndsHeaders mycount line then ([], IStream.ofString rest)
      else (entryOfLine line :: (readHeaders (mycount + 1) (IStream.ofString rest)).1,
        (readHeaders (mycount + 1) (IStream.ofString rest)).2) :=
  readHeaders_some (getline_line h) mycount

theorem readHeaders_end {line : Bytes} (h : lf ∉ line) {mycount : Nat}
    (hend : EndsHeaders mycount line) (rest : Bytes) :
    readHeaders mycount (IStream.ofString (line ++ lf :: rest)) = ([], IStream.ofString rest) := by
  rw [readHeaders_line h, if_pos hend]

/-- CR LF ends the loop behind a header line. -/
theorem readHeaders_blank {mycount : Nat} (h : 1 ≤ mycount) (rest : Bytes) :
    readHeaders mycount (IStream.ofString (crlf ++ rest)) = ([], IStream.ofString rest) :=
  @readHeaders_end [cr] (by decide) mycount (.inr ⟨by decide, h⟩) rest

theorem readHeaders_lines {lines : List Bytes} (hlf : ∀ l ∈ lines, lf ∉ l)
    (hfind : ∀ l ∈ lines, find delimiter l ≠ none) (rest : Bytes) (mycount : Nat) :
    readHeaders mycount (IStream.ofString (lines.flatMap (fun l => l ++ [lf]) ++ rest)) =
      (lines.map entryOfLine ++
          (readHeaders (mycount + lines.length) (IStream.ofString rest)).1,
        (readHeaders (mycount + lines.length) (IStream.ofString rest)).2) := by
  induction lines generalizing mycount with
  | nil => simp
  | cons l lines ih =>
      have htext : (l :: lines).flatMap (fun l => l ++ [lf]) ++ rest =
          l ++ lf :: (lines.flatMap (fun l => l ++ [lf]) ++ rest) := by simp
      have hgo : ¬ EndsHeaders mycount l := by
        intro hend
        have hsome := hfind l List.mem_cons_self
        rcases hend with hnil | ⟨hnone, -⟩
        · subst hnil
          exact hsome (by decide)
        · exact hsome hnone
      have hcount : mycount + 1 + lines.length = mycount + (l :: lines).length := by
        rw [List.length_cons]
        omega
      rw [htext, readHeaders_line (hlf l List.mem_cons_self), if_neg hgo,
        ih (fun l' hl => hlf l' (List.mem_cons_of_mem l hl))
          (fun l' hl => hfind l' (List.mem_cons_of_mem l hl)), hcount]
      rfl

/-! ## The map -/

def Headers.emplaceAll (headers : Headers) (fs : List Field) : Headers :=
  fs.foldl (fun headers f => headers.tryEmplace f.1 f.2) headers

theorem Headers.lookup_tryEmplace (headers : Headers) (name value n : Bytes) :
    (headers.tryEmplace name value).lookup n =
      (headers.lookup n).or (if n = name then some value else none) := by
  unfold Headers.tryEmplace
  split
  · rename_i hmem
    split
    · rename_i heq
      subst heq
      obtain ⟨v, hv⟩ := Option.isSome_iff_exists.mp (AList.lookup_isSome.mpr hmem)
      simp [hv]
    · simp
  · rename_i hmem
    split
    · rename_i heq
      subst heq
      rw [AList.lookup_insert, AList.lookup_eq_none.mpr hmem]
      rfl
    · rename_i hne
      rw [AList.lookup_insert_ne hne]
      simp

theorem Headers.lookup_emplaceAll (headers : Headers) (fs : List Field) (n : Bytes) :
    (headers.emplaceAll fs).lookup n = (headers.lookup n).or (fs.lookup n) := by
  induction fs generalizing headers with
  | nil => simp [Headers.emplaceAll]
  | cons f fs ih =>
      rcases f with ⟨name, value⟩
      have hcons : headers.emplaceAll ((name, value) :: fs) =
          (headers.tryEmplace name value).emplaceAll fs := rfl
      rw [hcons, ih, Headers.lookup_tryEmplace, Option.or_assoc, List.lookup_cons]
      by_cases hn : n = name
      · simp [hn]
      · simp [hn, beq_eq_false_iff_ne.mpr hn]

def headersOf (fs : List Field) : Headers := Headers.emplaceAll ∅ fs

@[simp] theorem lookup_headersOf (fs : List Field) (n : Bytes) :
    (headersOf fs).lookup n = fs.lookup n := by
  rw [headersOf, Headers.lookup_emplaceAll]
  simp

theorem readBody_of_no_length {fs : List Field} (h : fs.lookup contentLengthKey = none)
    (stream : IStream) : readBody (headersOf fs) stream = .ok [] := by
  rw [readBody, lookup_headersOf, h]

/-- The loop builds the map of what it reads. -/
theorem headerLoop_eq (mycount : Nat) (headers : Headers) (stream : IStream) :
    headerLoop mycount headers stream =
      .ok (headers.emplaceAll (readHeaders mycount stream).1, (readHeaders mycount stream).2) := by
  fun_induction headerLoop mycount headers stream with
  | case1 mycount headers stream stream' hline => rw [readHeaders_none hline]; rfl
  | case2 mycount headers stream stream' hline =>
      rw [readHeaders_some hline, if_pos (.inl rfl)]
      rfl
  | case3 mycount headers stream headerLine stream' hline hne delimiterPos hend =>
      rw [readHeaders_some hline, if_pos (.inr ⟨hend.1, by omega⟩)]
      rfl
  | case4 mycount headers stream headerLine stream' hline hne delimiterPos hgo ih =>
      have hends : ¬ EndsHeaders mycount headerLine := by
        intro hends
        rcases hends with hnil | ⟨hnone, hcount⟩
        · exact hne hnil
        · exact hgo ⟨hnone, by omega⟩
      rw [readHeaders_some hline, if_neg hends, headerName_eq, headerValue_eq hne]
      exact ih _ _

/-! ## The whole message -/

/-- What follows the line on which the third word ends. -/
def headerSection (buffer : Bytes) : Bytes := afterLine (afterWord (afterWord (afterWord buffer)))

def headersInOrder (buffer : Bytes) : List Field :=
  (readHeaders 0 (IStream.ofString (headerSection buffer))).1

def bodyStream (buffer : Bytes) : IStream :=
  (readHeaders 0 (IStream.ofString (headerSection buffer))).2

theorem readHeaders_spent {s : IStream} (hrest : s.rest = []) (heof : s.eof = true)
    (mycount : Nat) : readHeaders mycount s = ([], ⟨[], true, true⟩) := by
  have hrefuse : s.getline = (none, ⟨[], true, true⟩) := by
    simp [IStream.getline, IStream.getlineAt, IStream.good, IStream.refuse, heof, hrest]
  exact readHeaders_none hrefuse mycount

theorem readHeaders_getline (text : Bytes) {s : IStream}
    (h : s = IStream.ofString text ∨ (text = [] ∧ s.rest = [] ∧ s.eof = true)) :
    readHeaders 0 s.getline.2 = readHeaders 0 (IStream.ofString (afterLine text)) := by
  rcases h with heq | ⟨htext, hrest, heof⟩
  · subst heq
    rcases line_cases text with hlf | ⟨line, rest, hline, htext⟩
    · have hafter : afterLine text = [] := by
        rw [afterLine, List.dropWhile_eq_nil_iff.mpr (bne_of_not_mem hlf)]
        rfl
      rw [hafter, readHeaders_nil]
      by_cases hnil : text = []
      · subst hnil
        exact readHeaders_spent rfl rfl 0
      · rw [getline_last hlf hnil]
        exact readHeaders_spent rfl rfl 0
    · subst htext
      rw [getline_line hline, afterLine_line hline]
  · subst htext
    have hrefuse : s.getline = (none, s.refuse) := by
      simp [IStream.getline, IStream.getlineAt, IStream.good, heof]
    have hnil : afterLine [] = [] := rfl
    rw [hrefuse, hnil, readHeaders_nil]
    exact @readHeaders_spent s.refuse hrest heof 0

/-- What is parsed: the first three words, the map of the headers, and a body. -/
theorem createRequestFromBuffer_eq (buffer : Bytes) :
    createRequestFromBuffer buffer =
      (readBody (headersOf (headersInOrder buffer)) (bodyStream buffer)).bind fun body =>
        .ok ⟨firstWord buffer, firstWord (afterWord buffer),
          firstWord (afterWord (afterWord buffer)), headersOf (headersInOrder buffer), body⟩ := by
  obtain ⟨hmethod, h₁⟩ := extract_step buffer (.inl rfl)
  obtain ⟨hurl, h₂⟩ := extract_step _ h₁
  obtain ⟨hversion, h₃⟩ := extract_step _ h₂
  unfold createRequestFromBuffer
  simp only [headerLoop_eq, readHeaders_getline _ h₃, hmethod, hurl, hversion]
  rfl

theorem parsed_eq {buffer : Bytes} {r : ParsedRequest}
    (h : createRequestFromBuffer buffer = .ok r) :
    r.method = firstWord buffer ∧ r.url = firstWord (afterWord buffer) ∧
      r.version = firstWord (afterWord (afterWord buffer)) ∧
      r.headers = headersOf (headersInOrder buffer) ∧
      readBody (headersOf (headersInOrder buffer)) (bodyStream buffer) = .ok r.body := by
  rw [createRequestFromBuffer_eq] at h
  obtain ⟨body, hbody, h⟩ := bind_eq_ok.mp h
  cases h
  exact ⟨rfl, rfl, rfl, rfl, hbody⟩

/-! ## The request line -/

theorem words_append {text : Bytes} (h : HasWords 3 text) {c : UInt8} (hc : isSpace c = true)
    (rest : Bytes) :
    firstWord (text ++ c :: rest) = firstWord text ∧
      firstWord (afterWord (text ++ c :: rest)) = firstWord (afterWord text) ∧
      firstWord (afterWord (afterWord (text ++ c :: rest))) =
        firstWord (afterWord (afterWord text)) ∧
      afterWord (afterWord (afterWord (text ++ c :: rest))) =
        afterWord (afterWord (afterWord text)) ++ c :: rest := by
  rcases h with ⟨hmethod, hurl, hversion, -⟩
  obtain ⟨hm, hm'⟩ := firstWord_append hmethod hc rest
  obtain ⟨hu, hu'⟩ := firstWord_append hurl hc rest
  obtain ⟨hv, hv'⟩ := firstWord_append hversion hc rest
  rw [hm', hu', hv']
  exact ⟨hm, hu, hv, rfl⟩

def LineEnd (e : Bytes) : Prop := e = [lf] ∨ e = crlf

theorem createRequestFromBuffer_line {line : Bytes} (hwords : HasWords 3 line)
    (hline : lf ∉ line) {e : Bytes} (he : LineEnd e) (rest : Bytes) :
    headerSection (line ++ (e ++ rest)) = rest ∧
      createRequestFromBuffer (line ++ (e ++ rest)) =
        (readBody (headersOf (readHeaders 0 (IStream.ofString rest)).1)
          (readHeaders 0 (IStream.ofString rest)).2).bind fun body =>
            .ok ⟨firstWord line, firstWord (afterWord line),
              firstWord (afterWord (afterWord line)),
              headersOf (readHeaders 0 (IStream.ofString rest)).1, body⟩ := by
  have hsuffix : afterWord (afterWord (afterWord line)) <:+ line :=
    ((afterWord_suffix _).trans (afterWord_suffix _)).trans (afterWord_suffix line)
  have hlf : lf ∉ afterWord (afterWord (afterWord line)) := fun h => hline (hsuffix.subset h)
  obtain ⟨c, t, hc, htext, hsection⟩ : ∃ c t, isSpace c = true ∧ e ++ rest = c :: t ∧
      afterLine (afterWord (afterWord (afterWord line)) ++ c :: t) = rest := by
    rcases he with heq | heq
    · subst heq
      exact ⟨lf, rest, isSpace_lf, rfl, afterLine_line hlf rest⟩
    · subst heq
      have hcr : lf ∉ afterWord (afterWord (afterWord line)) ++ [cr] := by
        have hne : lf ≠ cr := by decide
        simp [hlf, hne]
      refine ⟨cr, lf :: rest, isSpace_cr, rfl, ?_⟩
      have hafter := afterLine_line hcr rest
      rwa [List.append_assoc] at hafter
  obtain ⟨hm, hu, hv, ht⟩ := words_append hwords hc t
  have hheaders : headerSection (line ++ c :: t) = rest := by rw [headerSection, ht, hsection]
  rw [htext, createRequestFromBuffer_eq, headersInOrder, bodyStream, hheaders, hm, hu, hv]
  exact ⟨rfl, rfl⟩

end WsGateway.Http
