import WsGateway.Http.Rendering

/-!
# Head and body

Where the head of a message ends for the parser, and what its body is made of.
The loop stops at a blank line only behind a first header line, and before that
the three words may stand on any lines: a body can reach into a head that is
too short. The buffer of the body is filled before it is read, so that a body
that is too short is completed.
-/

namespace WsGateway.Http

open Lib Lib.Http Lib.Stream

/-! ## The body -/

/-- What is left of the message when the header loop has ended. -/
def unread (buffer : Bytes) : Bytes := (bodyStream buffer).rest

theorem readHeaders_clean (mycount : Nat) {stream : IStream} (h : stream.Clean) :
    (readHeaders mycount stream).2.Clean ∧ (readHeaders mycount stream).2.rest <:+ stream.rest := by
  fun_induction readHeaders mycount stream with
  | case1 mycount stream stream' hline =>
      have hget := getline_clean h
      rwa [hline] at hget
  | case2 mycount stream headerLine stream' hline hend =>
      have hget := getline_clean h
      rwa [hline] at hget
  | case3 mycount stream headerLine stream' hline hgo result ih =>
      have hget := getline_clean h
      rw [hline] at hget
      obtain ⟨hclean, hsuffix⟩ := ih hget.1
      exact ⟨hclean, hsuffix.trans hget.2⟩

theorem headerSection_suffix (buffer : Bytes) : headerSection buffer <:+ buffer :=
  (((List.drop_suffix 1 _).trans (List.dropWhile_suffix _)).trans (afterWord_suffix _)).trans
    ((afterWord_suffix _).trans (afterWord_suffix buffer))

theorem unread_suffix (buffer : Bytes) : unread buffer <:+ buffer :=
  (readHeaders_clean 0 (clean_ofString _)).2.trans (headerSection_suffix buffer)

/-- The body is made of unread bytes only: it is no longer than the message, and
each of its bytes was sent. -/
structure BodySent (buffer : Bytes) (r : ParsedRequest) : Prop where
  unread_prefix : r.body <+: unread buffer
  length_le : r.body.length ≤ buffer.length
  sent : ∀ b ∈ r.body, b ∈ buffer

theorem bodySent_of_prefix {buffer : Bytes} {r : ParsedRequest}
    (h : r.body <+: unread buffer) : BodySent buffer r where
  unread_prefix := h
  length_le := h.length_le.trans (unread_suffix buffer).length_le
  sent _ hb := (unread_suffix buffer).subset (h.subset hb)

/-- The body is not made up exactly if as many bytes are unread as are declared. -/
theorem bodySent_iff {buffer : Bytes} {r : ParsedRequest}
    (h : createRequestFromBuffer buffer = .ok r) {n : Nat}
    (hn : declaredLength r.headers = .ok (n : Int)) :
    BodySent buffer r ↔ n ≤ (unread buffer).length := by
  obtain ⟨-, -, -, hheaders, hbody⟩ := parsed_eq h
  have hclean : (bodyStream buffer).Clean := (readHeaders_clean 0 (clean_ofString _)).1
  rw [← hheaders, readBody_eq hn] at hbody
  have hiff := read_prefix_iff hclean n 48
  rw [Except.ok.inj hbody] at hiff
  exact ⟨fun hs => hiff.mp hs.unread_prefix, fun hle => bodySent_of_prefix (hiff.mpr hle)⟩

def fiveBytes (body : Bytes) : Bytes :=
  renderRequest (ascii "POST") (ascii "/") (ascii "HTTP/1.1")
    [(ascii "Content-Length", ascii "5")] body

theorem parse_fiveBytes (body : Bytes) : ∃ r, createRequestFromBuffer (fiveBytes body) = .ok r ∧
    declaredLength r.headers = .ok ((5 : Nat) : Int) ∧ unread (fiveBytes body) = body ∧
    r.body = ((IStream.ofString body).read (List.replicate 5 48)).1 := by
  obtain ⟨-, hstream, hparse⟩ := @createRequestFromBuffer_renderRequest (ascii "POST") (ascii "/")
    (ascii "HTTP/1.1") [(ascii "Content-Length", ascii "5")] (by decide) (by decide)
    (by decide) (by simp) (by decide) body
  have hvalue : (headersOf [(ascii "Content-Length", ascii "5")]).lookup contentLengthKey =
      some (ascii "5") := by
    rw [lookup_headersOf]
    rfl
  have hstoi : stoi (ascii "5") = .ok ((5 : Nat) : Int) := rfl
  have hlength := (declaredLength_of_some hvalue).trans hstoi
  rw [readBody_eq hlength] at hparse
  exact ⟨_, hparse, hlength, by rw [unread, fiveBytes, hstream]; rfl, rfl⟩

theorem bodySent_of_complete_body : ∃ r,
    createRequestFromBuffer (fiveBytes (ascii "hello")) = .ok r ∧
      BodySent (fiveBytes (ascii "hello")) r := by
  obtain ⟨r, hparse, hlength, hunread, -⟩ := parse_fiveBytes (ascii "hello")
  refine ⟨r, hparse, (bodySent_iff hparse hlength).mpr ?_⟩
  rw [hunread]
  decide

/-- Two bytes are sent where five are declared: three `'0'` characters are added. -/
theorem short_body_is_completed : ∃ r,
    createRequestFromBuffer (fiveBytes (ascii "ab")) = .ok r ∧
      declaredLength r.headers = .ok 5 ∧ r.body = ascii "ab000" ∧
      ¬ BodySent (fiveBytes (ascii "ab")) r := by
  obtain ⟨r, hparse, hlength, hunread, hbody⟩ := parse_fiveBytes (ascii "ab")
  have htext : r.body = ascii "ab000" := by
    rw [hbody]
    decide
  refine ⟨r, hparse, hlength, htext, ?_⟩
  intro hsent
  have hprefix := hsent.unread_prefix
  rw [hunread, htext] at hprefix
  exact absurd hprefix (by decide)

/-! ## The head -/

def EndsInBlankLine (head : Bytes) : Prop := ∃ p e, LineEnd e ∧ head = p ++ lf :: e

theorem readHeaders_lineEnd {e : Bytes} (he : LineEnd e) {mycount : Nat} (h : 1 ≤ mycount)
    (rest : Bytes) :
    readHeaders mycount (IStream.ofString (e ++ rest)) = ([], IStream.ofString rest) := by
  rcases he with heq | heq
  · subst heq
    exact @readHeaders_end [] (by decide) mycount (.inl rfl) rest
  · subst heq
    exact readHeaders_blank h rest

/-- Behind a line that is read, nothing after a blank line is. -/
theorem readHeaders_upto_blank {e : Bytes} (he : LineEnd e) (p x : Bytes) (mycount : Nat) :
    (readHeaders mycount (IStream.ofString (p ++ lf :: (e ++ x)))).1 =
      (readHeaders mycount (IStream.ofString (p ++ lf :: e))).1 := by
  -- by induction on the length of what stands before the blank line, line by line
  induction hn : p.length using Nat.strong_induction_on generalizing p mycount with
  | _ n ih =>
      rcases line_cases p with hlf | ⟨line, rest, hline, htext⟩
      · have hend := readHeaders_lineEnd he (Nat.le_add_left 1 mycount) []
        rw [List.append_nil] at hend
        rw [readHeaders_line hlf, readHeaders_line hlf,
          readHeaders_lineEnd he (Nat.le_add_left 1 mycount), hend]
        split <;> rfl
      · subst htext
        have hshort : rest.length < n := by
          simp only [List.length_append, List.length_cons] at hn
          omega
        have hrest := ih rest.length hshort rest (mycount + 1) rfl
        rw [List.append_assoc, List.append_assoc, List.cons_append, List.cons_append,
          readHeaders_line hline, readHeaders_line hline]
        split
        · rfl
        · exact congrArg (entryOfLine line :: ·) hrest

theorem headerSection_append {q : Bytes} (h : HasWords 3 q) (x : Bytes) :
    headerSection (q ++ lf :: x) = headerSection (q ++ [lf]) ++ x := by
  obtain ⟨-, -, -, hx⟩ := words_append h isSpace_lf x
  obtain ⟨-, -, -, hnil⟩ := words_append h isSpace_lf []
  rw [headerSection, headerSection, hx, hnil]
  rcases line_cases (afterWord (afterWord (afterWord q))) with hlf | ⟨line, rest, hline, htext⟩
  · rw [afterLine_line hlf, afterLine_line hlf]
    rfl
  · rw [htext, List.append_assoc, List.append_assoc, List.cons_append, List.cons_append,
      afterLine_line hline, afterLine_line hline, List.append_assoc]
    rfl

theorem words_of_few {q : Bytes} (h : ¬ HasWords 3 q) : ∃ k : Fin 3, ∀ x,
    firstWord (afterWord (afterWord (q ++ lf :: x))) = firstWord (afterWord^[k] (lf :: x)) ∧
      afterWord (afterWord (afterWord (q ++ lf :: x))) = afterWord^[k + 1] (lf :: x) := by
  by_cases hm : firstWord q = []
  · refine ⟨2, fun x => ?_⟩
    rw [(firstWord_blank hm _).2]
    exact ⟨rfl, rfl⟩
  by_cases hu : firstWord (afterWord q) = []
  · refine ⟨1, fun x => ?_⟩
    rw [(firstWord_append hm isSpace_lf x).2, (firstWord_blank hu _).2]
    exact ⟨rfl, rfl⟩
  by_cases hv : firstWord (afterWord (afterWord q)) = []
  · refine ⟨0, fun x => ?_⟩
    rw [(firstWord_append hm isSpace_lf x).2, (firstWord_append hu isSpace_lf x).2,
      (firstWord_blank hv _).1, (firstWord_blank hv _).2]
    exact ⟨rfl, rfl⟩
  · exact absurd ⟨hm, hu, hv, trivial⟩ h

structure SameHead (r s : ParsedRequest) : Prop where
  method : r.method = s.method
  url : r.url = s.url
  version : r.version = s.version
  headers : ∀ n, r.headers.lookup n = s.headers.lookup n

/-- Nothing that follows this head changes what is parsed from it. -/
def HeadFixed (head : Bytes) : Prop :=
  ∀ x y r s, createRequestFromBuffer (head ++ x) = .ok r →
    createRequestFromBuffer (head ++ y) = .ok s → SameHead r s

theorem parse_of_no_length {buffer : Bytes} {fs : List Field} (h : headersInOrder buffer = fs)
    (hnone : fs.lookup contentLengthKey = none) : ∃ r, createRequestFromBuffer buffer = .ok r ∧
      r.version = firstWord (afterWord (afterWord buffer)) ∧
      ∀ n, r.headers.lookup n = fs.lookup n := by
  rw [createRequestFromBuffer_eq, h, readBody_of_no_length hnone]
  exact ⟨_, rfl, rfl, lookup_headersOf fs⟩

/-- Three words behind a head that has fewer of its own. -/
theorem not_headFixed_of_few {q : Bytes} (h : ¬ HasWords 3 q) : ¬ HeadFixed (q ++ [lf]) := by
  intro hfixed
  obtain ⟨k, hk⟩ := words_of_few h
  obtain ⟨hv, hrest⟩ := hk []
  obtain ⟨hv', hrest'⟩ := hk (ascii "a a a")
  have hempty : ∀ k : Fin 3, firstWord (afterWord^[k] [lf]) = [] ∧
      afterLine (afterWord^[k + 1] [lf]) = [] := by decide
  have hwords : ∀ k : Fin 3, firstWord (afterWord^[k] (lf :: ascii "a a a")) = ascii "a" ∧
      afterLine (afterWord^[k + 1] (lf :: ascii "a a a")) = [] := by decide
  have hnone {buffer : Bytes} (hs : headerSection buffer = []) : headersInOrder buffer = [] := by
    rw [headersInOrder, hs, readHeaders_nil]
  obtain ⟨r, hr, hrv, -⟩ := @parse_of_no_length (q ++ [lf]) []
    (hnone (by rw [headerSection, hrest, (hempty k).2])) rfl
  obtain ⟨s, hs, hsv, -⟩ := @parse_of_no_length (q ++ lf :: ascii "a a a") []
    (hnone (by rw [headerSection, hrest', (hwords k).2])) rfl
  have hsame := hfixed [] (ascii "a a a") r s (by rw [List.append_nil, hr])
    (by rw [List.append_assoc]; exact hs)
  have hversion := hsame.version
  rw [hrv, hsv, hv, hv', (hempty k).1, (hwords k).1] at hversion
  exact absurd hversion (by decide)

theorem entryOfLine_cr : entryOfLine [cr] = ([cr], []) := by
  have hfind : find delimiter [cr] = none := by decide
  simp [entryOfLine, hfind, valueStart, npos]

/-- Behind a header section that is empty or only CR LF, a header line is read as one. -/
theorem parse_planted {q : Bytes} (h : HasWords 3 q)
    (hbare : headerSection (q ++ [lf]) = [] ∨ headerSection (q ++ [lf]) = crlf) :
    ∃ r s, createRequestFromBuffer (q ++ [lf]) = .ok r ∧
      createRequestFromBuffer (q ++ lf :: ascii "a: b\r\n") = .ok s ∧
      r.headers.lookup (ascii "a") = none ∧ s.headers.lookup (ascii "a") = some (ascii "b") := by
  have hread : ∃ fs : List Field, fs.lookup contentLengthKey = none ∧
      fs.lookup (ascii "a") = none ∧ headersInOrder (q ++ [lf]) = fs ∧
      headersInOrder (q ++ lf :: ascii "a: b\r\n") = fs ++ [(ascii "a", ascii "b")] := by
    have hline (mycount : Nat) : readHeaders mycount (IStream.ofString (ascii "a: b\r\n")) =
        ([(ascii "a", ascii "b")], ⟨[], true, true⟩) := by
      have hsome := @readHeaders_line (ascii "a: b\r") (by decide) [] mycount
      have hgo : ¬ EndsHeaders mycount (ascii "a: b\r") := by
        have hfind : find delimiter (ascii "a: b\r") ≠ none := by decide
        intro hend
        rcases hend with hnil | hnone
        · exact absurd hnil (by decide)
        · exact hfind hnone.1
      rw [if_neg hgo, readHeaders_nil] at hsome
      exact hsome
    have hgo : ¬ EndsHeaders 0 [cr] := by decide
    have happend := headerSection_append h (ascii "a: b\r\n")
    rcases hbare with hsection | hsection
    · refine ⟨[], rfl, rfl, ?_, ?_⟩
      · rw [headersInOrder, hsection, readHeaders_nil]
      · rw [headersInOrder, happend, hsection, List.nil_append, hline]
        rfl
    · have hfirst (rest : Bytes) := @readHeaders_line [cr] (by decide) rest 0
      simp only [if_neg hgo, entryOfLine_cr] at hfirst
      refine ⟨[([cr], [])], by decide, by decide, ?_, ?_⟩
      · rw [headersInOrder, hsection]
        exact (congrArg Prod.fst (hfirst [])).trans (by rw [readHeaders_nil])
      · rw [headersInOrder, happend, hsection]
        exact (congrArg Prod.fst (hfirst _)).trans
          (congrArg (([cr], []) :: ·) (congrArg Prod.fst (hline 1)))
  obtain ⟨fs, hlength, hnone, hfs, hfs'⟩ := hread
  have hlength' : (fs ++ [(ascii "a", ascii "b")]).lookup contentLengthKey = none := by
    rw [List.lookup_append, hlength]
    rfl
  obtain ⟨r, hr, -, hlookup⟩ := parse_of_no_length hfs hlength
  obtain ⟨s, hs, -, hlookup'⟩ := parse_of_no_length hfs' hlength'
  refine ⟨r, s, hr, hs, by rw [hlookup, hnone], ?_⟩
  rw [hlookup', List.lookup_append, hnone]
  rfl

theorem not_headFixed_of_bare {q : Bytes} (h : HasWords 3 q)
    (hbare : headerSection (q ++ [lf]) = [] ∨ headerSection (q ++ [lf]) = crlf) :
    ¬ HeadFixed (q ++ [lf]) := by
  intro hfixed
  obtain ⟨r, s, hr, hs, hnone, hsome⟩ := parse_planted h hbare
  have hsame := hfixed [] (ascii "a: b\r\n") r s (by rw [List.append_nil, hr])
    (by rw [List.append_assoc]; exact hs)
  have hheader := hsame.headers (ascii "a")
  rw [hnone, hsome] at hheader
  cases hheader

theorem headersInOrder_append {q : Bytes} (h : HasWords 3 q)
    (hend : EndsInBlankLine (q ++ [lf])) (hnil : headerSection (q ++ [lf]) ≠ [])
    (hcrlf : headerSection (q ++ [lf]) ≠ crlf) (x : Bytes) :
    headersInOrder (q ++ lf :: x) = headersInOrder (q ++ [lf]) := by
  obtain ⟨p, e, he, htext⟩ := hend
  have hsuffix : headerSection (q ++ [lf]) <:+ p ++ lf :: e :=
    htext ▸ headerSection_suffix (q ++ [lf])
  rw [headersInOrder, headersInOrder, headerSection_append h]
  rcases List.suffix_or_suffix_of_suffix hsuffix (List.suffix_append p (lf :: e)) with hs | hs
  · have hcases : headerSection (q ++ [lf]) = lf :: e ∨ headerSection (q ++ [lf]) = [lf] := by
      rw [List.suffix_cons_iff] at hs
      refine hs.imp_right fun hs => ?_
      rcases he with heq | heq
      · subst heq
        rw [List.suffix_cons_iff, List.suffix_nil] at hs
        exact hs.resolve_right hnil
      · subst heq
        rw [crlf, List.suffix_cons_iff, List.suffix_cons_iff, List.suffix_nil] at hs
        exact (hs.resolve_left hcrlf).resolve_right hnil
    rcases hcases with heq | heq
    · rw [heq]
      exact readHeaders_upto_blank he [] x 0
    · have hblank (rest : Bytes) := @readHeaders_end [] (by decide) 0 (.inl rfl) rest
      rw [heq]
      exact (congrArg Prod.fst (hblank x)).trans (congrArg Prod.fst (hblank [])).symm
  · obtain ⟨p', hp'⟩ := hs
    rw [← hp', List.append_assoc]
    exact readHeaders_upto_blank he p' x 0

/-- The head alone decides what is parsed from it exactly if, behind the line on
which its third word ends, there is something and not just a CR LF. -/
theorem headFixed_iff {head : Bytes} (h : EndsInBlankLine head) :
    HeadFixed head ↔ headerSection head ≠ [] ∧ headerSection head ≠ crlf := by
  obtain ⟨p, e, he, htext⟩ := h
  obtain ⟨q, hq⟩ : ∃ q, head = q ++ [lf] := by
    rcases he with heq | heq
    · exact ⟨p ++ [lf], by simp [htext, heq]⟩
    · exact ⟨p ++ [lf, cr], by simp [htext, heq, crlf]⟩
  subst hq
  by_cases hwords : HasWords 3 q
  · constructor
    · intro hfixed
      constructor
      · intro hnil
        exact not_headFixed_of_bare hwords (.inl hnil) hfixed
      · intro hcrlf
        exact not_headFixed_of_bare hwords (.inr hcrlf) hfixed
    · intro hsection
      have hfields (x : Bytes) := headersInOrder_append hwords ⟨p, e, he, htext⟩ hsection.1
        hsection.2 x
      intro x y r s hr hs
      rw [List.append_assoc] at hr hs
      obtain ⟨hrm, hru, hrv, hrh, -⟩ := parsed_eq hr
      obtain ⟨hsm, hsu, hsv, hsh, -⟩ := parsed_eq hs
      obtain ⟨hxm, hxu, hxv, -⟩ := words_append hwords isSpace_lf x
      obtain ⟨hym, hyu, hyv, -⟩ := words_append hwords isSpace_lf y
      refine ⟨?_, ?_, ?_, ?_⟩
      · exact (hrm.trans hxm).trans (hsm.trans hym).symm
      · exact (hru.trans hxu).trans (hsu.trans hyu).symm
      · exact (hrv.trans hxv).trans (hsv.trans hyv).symm
      · intro n
        rw [hrh, hsh]
        exact congrArg (fun fs => (headersOf fs).lookup n) ((hfields x).trans (hfields y).symm)
  · constructor
    · intro hfixed
      exact absurd hfixed (not_headFixed_of_few hwords)
    · intro hsection
      obtain ⟨k, hk⟩ := words_of_few hwords
      have hempty : ∀ k : Fin 3, afterLine (afterWord^[k + 1] [lf]) = [] := by decide
      have hnil : headerSection (q ++ [lf]) = [] := by
        rw [headerSection, (hk []).2, hempty k]
      exact absurd hnil hsection.1

theorem headFixed_with_header :
    HeadFixed (ascii "GET / HTTP/1.1\r\nA: b\r\n\r\n") := by
  have hend : EndsInBlankLine (ascii "GET / HTTP/1.1\r\nA: b\r\n\r\n") :=
    ⟨ascii "GET / HTTP/1.1\r\nA: b\r", crlf, .inr rfl, rfl⟩
  exact (headFixed_iff hend).mpr (by decide)

/-- A head without headers: the first line of the body becomes a header. -/
theorem body_plants_header :
    EndsInBlankLine (ascii "GET / HTTP/1.1\r\n\r\n") ∧
      (∃ r s, createRequestFromBuffer (ascii "GET / HTTP/1.1\r\n\r\n") = .ok r ∧
        createRequestFromBuffer (ascii "GET / HTTP/1.1\r\n\r\na: b\r\n") = .ok s ∧
        r.headers.lookup (ascii "a") = none ∧
        s.headers.lookup (ascii "a") = some (ascii "b")) ∧
      ¬ HeadFixed (ascii "GET / HTTP/1.1\r\n\r\n") := by
  have hwords : HasWords 3 (ascii "GET / HTTP/1.1\r\n\r") := by decide
  have hbare : headerSection (ascii "GET / HTTP/1.1\r\n\r" ++ [lf]) = crlf := by decide
  have hhead : ascii "GET / HTTP/1.1\r\n\r\n" = ascii "GET / HTTP/1.1\r\n\r" ++ [lf] := by decide
  have hplanted : ascii "GET / HTTP/1.1\r\n\r\na: b\r\n" =
      ascii "GET / HTTP/1.1\r\n\r" ++ lf :: ascii "a: b\r\n" := by decide
  rw [hplanted, hhead]
  exact ⟨⟨ascii "GET / HTTP/1.1\r", crlf, .inr rfl, by decide⟩, parse_planted hwords (.inr hbare),
    not_headFixed_of_bare hwords (.inr hbare)⟩

end WsGateway.Http
