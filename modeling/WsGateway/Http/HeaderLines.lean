import WsGateway.Http.Boundary
import WsGateway.Http.Safety

/-!
# Headers and header lines

Where the entries of the headers map come from. Behind the first header line
each is a line of the message, split at its delimiter, and the first line of
its name. The first header line is taken for an entry even without a delimiter;
`npos` then wraps around, and the same line is cut twice.
-/

namespace WsGateway.Http

open Lib Lib.Http Lib.Runs Lib.Stream

def crlfMessage (line : Bytes) (lines : List Bytes) (rest : Bytes) : Bytes :=
  line ++ (crlf ++ (lines.flatMap (fun l => l ++ crlf) ++ rest))

/-- A line before the first blank one is exactly this field, and is the first of
its name. -/
def FromLine (lines : List Bytes) (f : Field) : Prop :=
  find delimiter f.1 = none ∧ ∃ pre post, lines = pre ++ (f.1 ++ delimiter ++ f.2) :: post ∧
    [] ∉ pre ∧ ∀ l ∈ pre, ∀ value, l ≠ f.1 ++ delimiter ++ value

/-- Every entry of the map comes from a header line, and no turn of the loop makes one
of a line without a delimiter. -/
structure HeadersFromLines (message : Bytes) (lines : List Bytes) (headers : Headers) : Prop where
  fromLine : ∀ n value, headers.lookup n = some value → FromLine lines (n, value)
  not_delimited : ∀ read s headerLine s', exec LoopState.step (loopStart message) read = some s →
    s.step headerLine = some s' → find delimiter headerLine = none → s'.headers = s.headers

theorem FromLine.cons {lines : List Bytes} {f : Field} (h : FromLine lines f) {l : Bytes}
    (hne : l ≠ []) (hother : ∀ value, l ≠ f.1 ++ delimiter ++ value) :
    FromLine (l :: lines) f := by
  rcases h with ⟨hname, pre, post, rfl, hpre, hfirst⟩
  refine ⟨hname, l :: pre, post, rfl, ?_, ?_⟩
  · rw [List.mem_cons, not_or]
    exact ⟨Ne.symm hne, hpre⟩
  · rw [List.forall_mem_cons]
    exact ⟨hother, hfirst⟩

/-! ## What is read -/

def delimited (line : Bytes) : Bool := (find delimiter line).isSome

theorem mem_of_delimited {l : Bytes} (h : delimited l = true) {lines : List Bytes}
    (hmem : [] ∈ l :: lines) : [] ∈ lines := by
  rw [List.mem_cons] at hmem
  refine hmem.resolve_left fun hnil => ?_
  subst hnil
  cases h

theorem entryOfLine_delimited_cr {name : Bytes} (h : Splits name) (value : Bytes) :
    entryOfLine (name ++ delimiter ++ value ++ [cr]) = (name, value) := by
  rw [List.append_assoc, entryOfLine_delimited h, List.dropLast_concat]

/-- One line. The first is read in any case. -/
theorem readHeaders_crlf_line {l : Bytes} (h : lf ∉ l) (rest : Bytes) (mycount : Nat) :
    (readHeaders mycount (IStream.ofString (l ++ (crlf ++ rest)))).1 =
      if delimited l = false ∧ 1 ≤ mycount then []
      else entryOfLine (l ++ [cr]) :: (readHeaders (mycount + 1) (IStream.ofString rest)).1 := by
  have hcr : lf ∉ l ++ [cr] := by
    have hne : lf ≠ cr := by decide
    simp [h, hne]
  have htext : l ++ (crlf ++ rest) = (l ++ [cr]) ++ lf :: rest := by simp [crlf]
  have hends : EndsHeaders mycount (l ++ [cr]) ↔ delimited l = false ∧ 1 ≤ mycount := by
    rw [EndsHeaders, find_delimiter_concat, delimited, Option.isSome_eq_false_iff,
      Option.isNone_iff_eq_none]
    simp
  rw [htext, readHeaders_line hcr]
  simp only [hends]
  split <;> rfl

theorem headersInOrder_crlfMessage {line : Bytes} (hwords : HasWords 3 line) (hline : lf ∉ line)
    (lines : List Bytes) (rest : Bytes) :
    headersInOrder (crlfMessage line lines rest) =
      (readHeaders 0 (IStream.ofString (lines.flatMap (fun l => l ++ crlf) ++ rest))).1 := by
  obtain ⟨hsection, -⟩ := createRequestFromBuffer_line hwords hline (.inr rfl)
    (lines.flatMap (fun l => l ++ crlf) ++ rest)
  rw [headersInOrder, crlfMessage, hsection]

theorem flatMap_crlf_cons (l : Bytes) (lines : List Bytes) (rest : Bytes) :
    (l :: lines).flatMap (fun l => l ++ crlf) ++ rest =
      l ++ (crlf ++ (lines.flatMap (fun l => l ++ crlf) ++ rest)) := by
  simp

theorem readHeaders_crlf_lines {lines : List Bytes} (hlf : ∀ l ∈ lines, lf ∉ l) {rest : Bytes}
    (hend : rest = [] ∨ [] ∈ lines) {mycount : Nat} (hcount : 1 ≤ mycount) :
    (readHeaders mycount (IStream.ofString (lines.flatMap (fun l => l ++ crlf) ++ rest))).1 =
      (lines.takeWhile delimited).map fun l => entryOfLine (l ++ [cr]) := by
  induction lines generalizing mycount with
  | nil =>
      have hrest : rest = [] := hend.resolve_right (by simp)
      subst hrest
      exact congrArg Prod.fst (readHeaders_nil mycount)
  | cons l lines ih =>
      rw [flatMap_crlf_cons, readHeaders_crlf_line (hlf l List.mem_cons_self),
        List.takeWhile_cons]
      cases hl : delimited l with
      | false => rw [if_pos ⟨rfl, hcount⟩]; rfl
      | true =>
          have hend' := hend.imp_right fun hmem => mem_of_delimited hl hmem
          rw [if_neg (by simp)]
          exact congrArg (entryOfLine (l ++ [cr]) :: ·)
            (ih (fun l' hl' => hlf l' (List.mem_cons_of_mem l hl')) hend' (by omega))

theorem readHeaders_crlf_delimited {lines : List Bytes} (hlf : ∀ l ∈ lines, lf ∉ l) {rest : Bytes}
    (hend : rest = [] ∨ [] ∈ lines)
    (hfirst : ∀ first later, lines = first :: later → find delimiter first ≠ none) :
    (readHeaders 0 (IStream.ofString (lines.flatMap (fun l => l ++ crlf) ++ rest))).1 =
      (lines.takeWhile delimited).map fun l => entryOfLine (l ++ [cr]) := by
  cases lines with
  | nil =>
      have hrest : rest = [] := hend.resolve_right (by simp)
      subst hrest
      exact congrArg Prod.fst (readHeaders_nil 0)
  | cons first later =>
      have hdelim : delimited first = true := by
        simpa [delimited, Option.isSome_iff_ne_none] using hfirst first later rfl
      have hlater : ∀ l ∈ later, lf ∉ l := fun l hl => hlf l (List.mem_cons_of_mem first hl)
      rw [flatMap_crlf_cons, readHeaders_crlf_line (hlf first List.mem_cons_self),
        if_neg (by simp), List.takeWhile_cons, if_pos hdelim, List.map_cons,
        readHeaders_crlf_lines hlater (hend.imp_right fun hmem => mem_of_delimited hdelim hmem)
          (Nat.le_add_left 1 0)]

theorem fromLine_of_lookup {lines : List Bytes} {n value : Bytes}
    (h : ((lines.takeWhile delimited).map fun l => entryOfLine (l ++ [cr])).lookup n =
      some value) : FromLine lines (n, value) := by
  induction lines with
  | nil => cases h
  | cons l lines ih =>
      rw [List.takeWhile_cons] at h
      split at h
      · rename_i hl
        have hfind : find delimiter l ≠ none := by
          simpa [delimited, Option.isSome_iff_ne_none] using hl
        obtain ⟨name, v, hsplits, rfl⟩ := exists_of_find hfind
        rw [List.map_cons, entryOfLine_delimited_cr hsplits, List.lookup_cons] at h
        split at h
        · rename_i hn
          cases h
          rw [eq_of_beq hn]
          exact ⟨splits_iff.mp hsplits, [], lines, rfl, by simp, by simp⟩
        · rename_i hn
          have hrest := ih h
          refine hrest.cons (by simp [delimiter]) fun w heq => ?_
          -- another line of the name `n` would have been split at the same place
          have hentry := entryOfLine_delimited_cr (splits_iff.mpr hrest.1) w
          rw [← heq, entryOfLine_delimited_cr hsplits, Prod.mk.injEq] at hentry
          rw [hentry.1] at hn
          simp at hn
      · cases h

/-! ## The first header line -/

theorem loopStart_line {line : Bytes} (hwords : HasWords 3 line) (hline : lf ∉ line)
    (rest : Bytes) : loopStart (line ++ (crlf ++ rest)) = ⟨0, ∅, IStream.ofString rest⟩ := by
  obtain ⟨-, h₁⟩ := extract_step (line ++ (crlf ++ rest)) (.inl rfl)
  obtain ⟨-, h₂⟩ := extract_step _ h₁
  obtain ⟨-, h₃⟩ := extract_step _ h₂
  obtain ⟨-, -, -, hafter⟩ := words_append hwords isSpace_cr (lf :: rest)
  have htext : line ++ (crlf ++ rest) = line ++ cr :: lf :: rest := rfl
  rw [htext, hafter] at h₃
  have hstream := h₃.resolve_right (by simp)
  have hsuffix : afterWord (afterWord (afterWord line)) <:+ line :=
    ((afterWord_suffix _).trans (afterWord_suffix _)).trans (afterWord_suffix line)
  have hcr : lf ∉ afterWord (afterWord (afterWord line)) ++ [cr] := by
    have hne : lf ≠ cr := by decide
    have hlf : lf ∉ afterWord (afterWord (afterWord line)) := fun h => hline (hsuffix.subset h)
    simp [hlf, hne]
  have hget := @getline_line _ rest hcr
  rw [List.append_assoc] at hget
  rw [htext, loopStart, hstream]
  exact congrArg (LoopState.mk 0 ∅) (congrArg Prod.snd hget)

/-- The first turn takes its line, whatever it is. -/
theorem next?_first {first : Bytes} (h : lf ∉ first) (rest : Bytes) :
    LoopState.next? ⟨0, ∅, IStream.ofString (first ++ (crlf ++ rest))⟩ =
      some (first ++ [cr], IStream.ofString rest) := by
  have hcr : lf ∉ first ++ [cr] := by
    have hne : lf ≠ cr := by decide
    simp [h, hne]
  have hget := @getline_line _ rest hcr
  rw [List.append_assoc] at hget
  refine LoopState.next?_eq_some.mpr ⟨hget, ?_⟩
  intro hend
  simp [EndsHeaders] at hend

/-- Only the first turn reads a line without a delimiter. -/
theorem first_of_not_delimited {message : Bytes} {read : List Bytes} {s : LoopState}
    (hrun : exec LoopState.step (loopStart message) read = some s) {headerLine : Bytes}
    {stream : IStream} (hnext : s.next? = some (headerLine, stream))
    (hfind : find delimiter headerLine = none) : s = loopStart message := by
  obtain ⟨-, hgo⟩ := LoopState.next?_eq_some.mp hnext
  have hcount : s.mycount = read.length := (mycount_exec hrun).trans (Nat.zero_add _)
  have hnil : read = [] := by
    refine List.length_eq_zero_iff.mp (Nat.eq_zero_of_not_pos fun hpos => ?_)
    exact hgo (.inr ⟨hfind, hcount ▸ hpos⟩)
  subst hnil
  exact (Option.some.inj hrun).symm

/-- No entry comes from anywhere else exactly if there is no line behind the request line,
or the first one has a delimiter. -/
theorem headersFromLines_iff {line : Bytes} {lines : List Bytes} {rest : Bytes}
    (hwords : HasWords 3 line) (hline : lf ∉ line) (hlf : ∀ l ∈ lines, lf ∉ l)
    (hend : rest = [] ∨ [] ∈ lines) {r : ParsedRequest}
    (h : createRequestFromBuffer (crlfMessage line lines rest) = .ok r) :
    HeadersFromLines (crlfMessage line lines rest) lines r.headers ↔
      ∀ first later, lines = first :: later → find delimiter first ≠ none := by
  have hstart := loopStart_line hwords hline (lines.flatMap (fun l => l ++ crlf) ++ rest)
  constructor
  · intro hlines first later heq hnone
    subst heq
    have hcr : find delimiter (first ++ [cr]) = none := by rwa [find_delimiter_concat]
    have hnext := next?_first (hlf first List.mem_cons_self)
      (later.flatMap (fun l => l ++ crlf) ++ rest)
    rw [← flatMap_crlf_cons, ← hstart] at hnext
    have hturn := @turn_eq (loopStart (crlfMessage line (first :: later) rest))
      (first ++ [cr]) (by simp) (.inl hcr)
      (IStream.ofString (later.flatMap (fun l => l ++ crlf) ++ rest))
    have hsame := hlines.not_delimited [] _ _ _ rfl (step_of_turn hnext hturn) hcr
    -- an entry is added to the empty map
    have hlookup := congrArg (fun headers => headers.lookup (entryOfLine (first ++ [cr])).1) hsame
    rw [crlfMessage, hstart] at hlookup
    simp [Headers.lookup_tryEmplace] at hlookup
  · intro hfirst
    refine ⟨?_, ?_⟩
    · obtain ⟨-, -, -, hheaders, -⟩ := parsed_eq h
      rw [headersInOrder_crlfMessage hwords hline, readHeaders_crlf_delimited hlf hend hfirst]
        at hheaders
      intro n value hn
      rw [hheaders, lookup_headersOf] at hn
      exact fromLine_of_lookup hn
    · intro read s headerLine s' hrun hstep hnone
      obtain ⟨stream, hnext, -⟩ := step_eq_some hstep
      have hs := first_of_not_delimited hrun hnext hnone
      rw [hs, crlfMessage, hstart] at hnext
      cases lines with
      | nil =>
          have hrest : rest = [] := hend.resolve_right (by simp)
          subst hrest
          cases hnext
      | cons first later =>
          rw [flatMap_crlf_cons, next?_first (hlf first List.mem_cons_self)] at hnext
          cases hnext
          rw [find_delimiter_concat] at hnone
          exact absurd hnone (hfirst first later rfl)

theorem parse_one_line {l : Bytes} (h : lf ∉ l) (hname : (entryOfLine (l ++ [cr])).1 ≠
    contentLengthKey) : ∃ r,
      createRequestFromBuffer (crlfMessage (ascii "GET / HTTP/1.1") [l, []] []) = .ok r ∧
        ∀ n, r.headers.lookup n = [entryOfLine (l ++ [cr])].lookup n := by
  have hlf : ∀ l ∈ [([] : Bytes)], lf ∉ l := by simp
  have hfields : headersInOrder (crlfMessage (ascii "GET / HTTP/1.1") [l, []] []) =
      [entryOfLine (l ++ [cr])] := by
    rw [headersInOrder_crlfMessage (by decide) (by decide), flatMap_crlf_cons,
      readHeaders_crlf_line h, if_neg (by simp),
      readHeaders_crlf_lines hlf (.inl rfl) (Nat.le_add_left 1 0)]
    rfl
  obtain ⟨r, hparse, -, hlookup⟩ := parse_of_no_length hfields
    (by simpa using Ne.symm hname)
  exact ⟨r, hparse, hlookup⟩

theorem headersFromLines_accept : ∃ r,
    createRequestFromBuffer (crlfMessage (ascii "GET / HTTP/1.1") [ascii "A: b", []] []) =
        .ok r ∧ r.headers.lookup (ascii "A") = some (ascii "b") ∧
      HeadersFromLines (crlfMessage (ascii "GET / HTTP/1.1") [ascii "A: b", []] [])
        [ascii "A: b", []] r.headers := by
  have hentry : entryOfLine (ascii "A: b" ++ [cr]) = (ascii "A", ascii "b") :=
    @entryOfLine_delimited_cr (ascii "A") (by decide) (ascii "b")
  obtain ⟨r, hparse, hlookup⟩ := @parse_one_line (ascii "A: b") (by decide)
    (by rw [hentry]; decide)
  have hlf : ∀ l ∈ [ascii "A: b", []], lf ∉ l := by decide
  refine ⟨r, hparse, by rw [hlookup, hentry]; rfl,
    (headersFromLines_iff (by decide) (by decide) hlf (.inl rfl) hparse).mpr ?_⟩
  intro first later heq
  cases heq
  decide

/-- The line `foo` has no delimiter, and becomes the entry `foo\r` with the value `oo`. -/
theorem line_without_delimiter_is_read : ∃ r,
    createRequestFromBuffer (ascii "GET / HTTP/1.1\r\nfoo\r\n\r\n") = .ok r ∧
      r.headers.lookup (ascii "foo\r") = some (ascii "oo") ∧
      ¬ HeadersFromLines (ascii "GET / HTTP/1.1\r\nfoo\r\n\r\n") [ascii "foo", []] r.headers := by
  have htext : crlfMessage (ascii "GET / HTTP/1.1") [ascii "foo", []] [] =
      ascii "GET / HTTP/1.1\r\nfoo\r\n\r\n" := by decide
  have hentry : entryOfLine (ascii "foo" ++ [cr]) = (ascii "foo\r", ascii "oo") := by decide
  obtain ⟨r, hparse, hlookup⟩ := @parse_one_line (ascii "foo") (by decide)
    (by rw [hentry]; decide)
  have hsome : r.headers.lookup (ascii "foo\r") = some (ascii "oo") := by
    rw [hlookup, hentry]
    rfl
  rw [htext] at hparse
  refine ⟨r, hparse, hsome, ?_⟩
  intro hlines
  obtain ⟨-, pre, post, heq, -⟩ := hlines.fromLine _ _ hsome
  have hmem : ascii "foo\r" ++ delimiter ++ ascii "oo" ∈ [ascii "foo", []] := by
    rw [heq]
    simp
  exact absurd hmem (by decide)

end WsGateway.Http
