import WsGateway.Http.Boundary
import WsGateway.Lib.Lists

/-!
# Optional whitespace after the colon

A field may have any blanks between its colon and its value. The parser takes
only a colon with a space behind it for the delimiter. A field without that
space is cut elsewhere, or ends the header section: then the later fields are
lost and the body is read from among their lines.
-/

namespace WsGateway.Http

open Lib Lib.Http Lib.Stream

/-- A field of a message with the whitespace after its colon. Names are shorter
than the largest size of a string. -/
structure SpelledField where
  name : Bytes
  ows : Bytes
  value : Bytes
  name_free : colon ∉ name ∧ LineFree name
  name_size : name.length < npos
  value_free : LineFree value ∧ Trimmed value
  ows_blank : ∀ b ∈ ows, isBlank b = true

namespace SpelledField

def field (s : SpelledField) : Field := (s.name, s.value)

def line (s : SpelledField) : Bytes := s.name ++ colon :: (s.ows ++ (s.value ++ [cr]))

theorem one_space_blank : ∀ b ∈ [sp], isBlank b = true := by
  intro b hb
  rw [List.mem_singleton.mp hb]
  decide

def canonical (s : SpelledField) : SpelledField :=
  { s with ows := [sp], ows_blank := one_space_blank }

def Spaced (s : SpelledField) : Prop := s.ows.head? = some sp

instance (s : SpelledField) : Decidable s.Spaced := inferInstanceAs (Decidable (_ = _))

def entry (s : SpelledField) : Field := (s.name, s.ows.tail ++ s.value)

theorem spaced_canonical (s : SpelledField) : s.canonical.Spaced := rfl

end SpelledField

/-! ## Lines of fields -/

theorem colon_not_mem_of_blank {w : Bytes} (h : ∀ b ∈ w, isBlank b = true) : colon ∉ w := by
  intro hc
  exact absurd (h colon hc) (by decide)

namespace SpelledField

theorem entryOfLine_of_spaced {s : SpelledField} (h : s.Spaced) :
    find delimiter s.line ≠ none ∧ entryOfLine s.line = s.entry := by
  obtain ⟨w, hw⟩ : ∃ w, s.ows = sp :: w := by
    cases how : s.ows with
    | nil => simp [Spaced, how] at h
    | cons b w =>
        have hb : b = sp := by simpa [Spaced, how] using h
        exact ⟨w, by rw [hb]⟩
  have hline : s.line = s.name ++ delimiter ++ (w ++ s.value ++ [cr]) := by
    simp [line, hw, delimiter]
  have hsplits := splits_of_not_mem s.name_free.1
  rw [hline, find_extend hsplits, entryOfLine_delimited hsplits, List.dropLast_concat, entry, hw]
  exact ⟨by simp, rfl⟩

/-- Without the space, a delimiter can only stand in the value. -/
theorem find_line {s : SpelledField} (h : ¬ s.Spaced) :
    find delimiter s.line =
      (find delimiter s.value).map (· + (s.ows.length + (s.name.length + 1))) := by
  have hhead : (s.ows ++ (s.value ++ [cr])).head? ≠ some sp := by
    cases how : s.ows with
    | nil =>
        cases hv : s.value with
        | nil => decide
        | cons b v =>
            have hb : isBlank b = false :=
              head_not_blank s.value_free.2 (by rw [hv]; rfl)
            simp only [List.nil_append, List.cons_append, List.head?_cons, ne_eq,
              Option.some.injEq]
            intro heq
            subst heq
            exact absurd hb (by decide)
    | cons b w => simpa [Spaced, how] using h
  rw [line, find_delimiter_append s.name_free.1, find_delimiter_cons, if_neg fun hc => hhead hc.2,
    find_delimiter_append (colon_not_mem_of_blank s.ows_blank), find_delimiter_concat,
    Option.map_map, Option.map_map]
  congr 1
  funext k
  simp only [Function.comp_apply]
  omega

/-- Without the space, the name that is cut has a colon in it. -/
theorem colon_mem_entryOfLine {s : SpelledField} (h : ¬ s.Spaced) :
    colon ∈ (entryOfLine s.line).1 := by
  have hcount : s.name.length < (find delimiter s.line).getD npos := by
    rw [find_line h]
    cases find delimiter s.value with
    | none => exact s.name_size
    | some k =>
        simp only [Option.map_some, Option.getD_some]
        omega
  have htake : (entryOfLine s.line).1 = s.line.take ((find delimiter s.line).getD npos) := rfl
  rw [htake, line, List.take_append, List.mem_append]
  obtain ⟨j, hj⟩ : ∃ j, (find delimiter s.line).getD npos - s.name.length = j + 1 :=
    ⟨_, (Nat.succ_pred_eq_of_pos (by omega)).symm⟩
  rw [line] at hj
  rw [hj, List.take_succ_cons]
  exact .inr List.mem_cons_self

end SpelledField

/-! ## Spelled requests -/

def spelledSection (ss : List SpelledField) (body : Bytes) : Bytes :=
  (ss.map SpelledField.line).flatMap (fun l => l ++ [lf]) ++ (crlf ++ body)

def spelledRequest (line : Bytes) (ss : List SpelledField) (body : Bytes) : Bytes :=
  line ++ (crlf ++ spelledSection ss body)

theorem spelledSection_append (ss : List SpelledField) (body : Bytes) :
    spelledSection ss body = spelledSection ss [] ++ body := by
  simp [spelledSection]

theorem spelledSection_ne_nil (ss : List SpelledField) : spelledSection ss [] ≠ [] := by
  simp [spelledSection, crlf]

theorem lf_not_mem_line (s : SpelledField) : lf ∉ s.line := by
  have hblank : lf ∉ s.ows := by
    intro h
    exact absurd (s.ows_blank lf h) (by decide)
  have hne : lf ≠ colon ∧ lf ≠ cr := by decide
  simp [SpelledField.line, s.name_free.2.2, hblank, s.value_free.1.2, hne]

theorem readHeaders_spaced {ss : List SpelledField} (h : ∀ s ∈ ss, s.Spaced) (rest : Bytes)
    (mycount : Nat) :
    readHeaders mycount (IStream.ofString
        ((ss.map SpelledField.line).flatMap (fun l => l ++ [lf]) ++ rest)) =
      (ss.map SpelledField.entry ++
          (readHeaders (mycount + ss.length) (IStream.ofString rest)).1,
        (readHeaders (mycount + ss.length) (IStream.ofString rest)).2) := by
  have hlf : ∀ l ∈ ss.map SpelledField.line, lf ∉ l := by
    intro l hl
    obtain ⟨s, -, rfl⟩ := List.mem_map.mp hl
    exact lf_not_mem_line s
  have hfind : ∀ l ∈ ss.map SpelledField.line, find delimiter l ≠ none := by
    intro l hl
    obtain ⟨s, hs, rfl⟩ := List.mem_map.mp hl
    exact (SpelledField.entryOfLine_of_spaced (h s hs)).1
  have hentries : (ss.map SpelledField.line).map entryOfLine = ss.map SpelledField.entry := by
    rw [List.map_map]
    exact List.map_congr_left fun s hs => (SpelledField.entryOfLine_of_spaced (h s hs)).2
  rw [readHeaders_lines hlf hfind, hentries, List.length_map]

theorem readHeaders_all_spaced {ss : List SpelledField} (hne : ss ≠ []) (h : ∀ s ∈ ss, s.Spaced)
    (body : Bytes) :
    readHeaders 0 (IStream.ofString (spelledSection ss body)) =
      (ss.map SpelledField.entry, IStream.ofString body) := by
  have hpos : 1 ≤ 0 + ss.length := by
    have hlen := List.length_pos_of_ne_nil hne
    omega
  rw [spelledSection, readHeaders_spaced h, readHeaders_blank hpos, List.append_nil]

theorem readHeaders_canonical {ss : List SpelledField} (hne : ss ≠ []) (body : Bytes) :
    readHeaders 0 (IStream.ofString (spelledSection (ss.map SpelledField.canonical) body)) =
      (ss.map SpelledField.field, IStream.ofString body) := by
  have hspaced : ∀ s ∈ ss.map SpelledField.canonical, s.Spaced := by
    intro s hs
    obtain ⟨s', -, rfl⟩ := List.mem_map.mp hs
    exact s'.spaced_canonical
  have hentries : (ss.map SpelledField.canonical).map SpelledField.entry =
      ss.map SpelledField.field := by
    rw [List.map_map]
    rfl
  rw [readHeaders_all_spaced (by simpa using hne) hspaced, hentries]

theorem readHeaders_first_not_spaced {pre post : List SpelledField} {s : SpelledField}
    (h : ∀ x ∈ pre, x.Spaced) (body : Bytes) :
    readHeaders 0 (IStream.ofString (spelledSection (pre ++ s :: post) body)) =
      if EndsHeaders pre.length s.line then
        (pre.map SpelledField.entry, IStream.ofString (spelledSection post body))
      else
        (pre.map SpelledField.entry ++ entryOfLine s.line ::
            (readHeaders (pre.length + 1) (IStream.ofString (spelledSection post body))).1,
          (readHeaders (pre.length + 1) (IStream.ofString (spelledSection post body))).2) := by
  have htext : spelledSection (pre ++ s :: post) body =
      (pre.map SpelledField.line).flatMap (fun l => l ++ [lf]) ++
        (s.line ++ lf :: spelledSection post body) := by
    simp [spelledSection]
  rw [htext, readHeaders_spaced h, Nat.zero_add, readHeaders_line (lf_not_mem_line s)]
  split <;> simp

/-! ## The headers of both spellings -/

/-- The first values of a name differ in blanks only. -/
theorem map_lookup_entry {γ : Type*} (g : Bytes → γ)
    (hg : ∀ w v, (∀ b ∈ w, isBlank b = true) → g (w ++ v) = g v) (ss : List SpelledField)
    (n : Bytes) :
    ((ss.map SpelledField.entry).lookup n).map g =
      ((ss.map SpelledField.field).lookup n).map g := by
  induction ss with
  | nil => rfl
  | cons s ss ih =>
      have hblank : ∀ b ∈ s.ows.tail, isBlank b = true :=
        fun b hb => s.ows_blank b (List.mem_of_mem_tail hb)
      rw [List.map_cons, List.map_cons, SpelledField.entry, SpelledField.field, List.lookup_cons,
        List.lookup_cons]
      split
      · rw [Option.map_some, Option.map_some, hg _ _ hblank]
      · exact ih

theorem declaredLength_entry (ss : List SpelledField) :
    declaredLength (headersOf (ss.map SpelledField.entry)) =
      declaredLength (headersOf (ss.map SpelledField.field)) := by
  have hdeclared (headers : Headers) : declaredLength headers =
      ((headers.lookup contentLengthKey).map stoi).getD (.ok 0) := by
    unfold declaredLength
    cases headers.lookup contentLengthKey <;> rfl
  rw [hdeclared, hdeclared, lookup_headersOf, lookup_headersOf,
    map_lookup_entry stoi fun w v hw => stoi_append hw v]

theorem declaredLength_congr {fs gs : List Field} (h : ∀ n, fs.lookup n = gs.lookup n) :
    declaredLength (headersOf fs) = declaredLength (headersOf gs) := by
  rw [declaredLength, declaredLength, lookup_headersOf, lookup_headersOf, h]

/-- Fields all of whose names stand before them do not matter. -/
theorem lookup_field_of_names {pre post : List SpelledField}
    (h : ∀ x ∈ post, x.name ∈ pre.map SpelledField.name) (n : Bytes) :
    ((pre ++ post).map SpelledField.field).lookup n = (pre.map SpelledField.field).lookup n := by
  rw [List.map_append, List.lookup_append]
  cases hn : (pre.map SpelledField.field).lookup n with
  | some v => rfl
  | none =>
      rw [List.lookup_eq_none_iff] at hn
      rw [Option.none_or, List.lookup_eq_none_iff]
      intro g hg
      obtain ⟨x, hx, rfl⟩ := List.mem_map.mp hg
      obtain ⟨y, hy, hname⟩ := List.mem_map.mp (h x hx)
      have hne := hn y.field (List.mem_map_of_mem hy)
      rwa [SpelledField.field, hname] at hne

/-! ## When the spelling does not matter -/

/-- The same request, up to blanks at the ends of the header values. -/
structure SameUpToBlanks (r s : ParsedRequest) : Prop where
  method : r.method = s.method
  url : r.url = s.url
  version : r.version = s.version
  headers : ∀ n, (r.headers.lookup n).map trim = (s.headers.lookup n).map trim
  body : r.body = s.body

/-- Whatever the body is, both spellings are accepted, with the same result. -/
def SpelledAlike (line : Bytes) (ss : List SpelledField) : Prop :=
  ∀ body, ∃ r s,
    createRequestFromBuffer (spelledRequest line (ss.map SpelledField.canonical) body) = .ok r ∧
      createRequestFromBuffer (spelledRequest line ss body) = .ok s ∧ SameUpToBlanks r s

/-- The first field without the space ends the section, and is not the first of
all. No name gets lost, and no body is declared. -/
def HarmlessLoss (ss : List SpelledField) : Prop :=
  ∃ pre s post, ss = pre ++ s :: post ∧ pre ≠ [] ∧ (∀ x ∈ pre, x.Spaced) ∧ ¬ s.Spaced ∧
    find delimiter s.value = none ∧
    (∀ x ∈ s :: post, x.name ∈ pre.map SpelledField.name) ∧
    declaredLength (headersOf (ss.map SpelledField.field)) = .ok 0

section

variable {line : Bytes} {ss : List SpelledField} (hwords : HasWords 3 line)
  (hline : LineFree line)

include hwords hline

theorem createRequestFromBuffer_spelled {fs : List Field} {body rest : Bytes} {n : Nat}
    (hread : readHeaders 0 (IStream.ofString (spelledSection ss body)) =
      (fs, IStream.ofString rest))
    (hlength : declaredLength (headersOf fs) = .ok (n : Int)) :
    createRequestFromBuffer (spelledRequest line ss body) =
      .ok ⟨firstWord line, firstWord (afterWord line), firstWord (afterWord (afterWord line)),
        headersOf fs, ((IStream.ofString rest).read (List.replicate n 48)).1⟩ := by
  obtain ⟨-, hparse⟩ := createRequestFromBuffer_line hwords hline.2 (.inr rfl)
    (spelledSection ss body)
  rw [spelledRequest, hparse, hread, readBody_eq hlength]
  rfl

theorem createRequestFromBuffer_canonical (hne : ss ≠ []) {n : Nat}
    (hlength : declaredLength (headersOf (ss.map SpelledField.field)) = .ok (n : Int))
    (body : Bytes) :
    createRequestFromBuffer (spelledRequest line (ss.map SpelledField.canonical) body) =
      .ok ⟨firstWord line, firstWord (afterWord line), firstWord (afterWord (afterWord line)),
        headersOf (ss.map SpelledField.field),
        ((IStream.ofString body).read (List.replicate n 48)).1⟩ :=
  createRequestFromBuffer_spelled hwords hline (readHeaders_canonical hne body) hlength

theorem headers_of_spelled {body : Bytes} {r : ParsedRequest}
    (h : createRequestFromBuffer (spelledRequest line ss body) = .ok r) :
    r.headers = headersOf (readHeaders 0 (IStream.ofString (spelledSection ss body))).1 := by
  obtain ⟨-, hparse⟩ := createRequestFromBuffer_line hwords hline.2 (.inr rfl)
    (spelledSection ss body)
  obtain ⟨b, -, hr⟩ := bind_eq_ok.mp (hparse.symm.trans h)
  cases hr
  rfl

theorem headers_of_canonical (hne : ss ≠ []) {body : Bytes} {r : ParsedRequest}
    (h : createRequestFromBuffer (spelledRequest line (ss.map SpelledField.canonical) body) =
      .ok r) : r.headers = headersOf (ss.map SpelledField.field) := by
  rw [headers_of_spelled hwords hline h, readHeaders_canonical hne]

theorem spelledAlike_of_spaced (hne : ss ≠ []) {n : Nat}
    (hlength : declaredLength (headersOf (ss.map SpelledField.field)) = .ok (n : Int))
    (h : ∀ s ∈ ss, s.Spaced) : SpelledAlike line ss := by
  intro body
  have hr := createRequestFromBuffer_canonical hwords hline hne hlength body
  have hs := createRequestFromBuffer_spelled hwords hline (readHeaders_all_spaced hne h body)
    ((declaredLength_entry ss).trans hlength)
  refine ⟨_, _, hr, hs, ⟨rfl, rfl, rfl, fun n => ?_, rfl⟩⟩
  rw [lookup_headersOf, lookup_headersOf, map_lookup_entry trim fun w v hw => trim_append hw v]

/-- What is lost has been read before, and the body is empty. -/
theorem spelledAlike_of_harmlessLoss (h : HarmlessLoss ss) : SpelledAlike line ss := by
  intro body
  rcases h with ⟨pre, s, post, rfl, hpre, hspaced, hnot, hfind, hnames, hzero⟩
  have hends : EndsHeaders pre.length s.line := by
    refine .inr ⟨?_, List.length_pos_of_ne_nil hpre⟩
    rw [SpelledField.find_line hnot, hfind]
    rfl
  have hread := @readHeaders_first_not_spaced pre post s hspaced body
  rw [if_pos hends] at hread
  have hlookup := lookup_field_of_names hnames
  have hlength : declaredLength (headersOf (pre.map SpelledField.entry)) =
      .ok ((0 : Nat) : Int) := by
    rw [declaredLength_entry, ← declaredLength_congr hlookup, hzero]
    rfl
  have hne : pre ++ s :: post ≠ [] := by simp
  have hr := createRequestFromBuffer_canonical hwords hline hne (n := 0) hzero body
  have hs := createRequestFromBuffer_spelled hwords hline hread hlength
  refine ⟨_, _, hr, hs, ⟨rfl, rfl, rfl, fun n => ?_, ?_⟩⟩
  · rw [lookup_headersOf, lookup_headersOf, hlookup,
      map_lookup_entry trim fun w v hw => trim_append hw v]
  · have hnil (t : Bytes) : ((IStream.ofString t).read []).1 = [] :=
      List.length_eq_zero_iff.mp (length_read _ [])
    exact (hnil body).trans (hnil (spelledSection post body)).symm

/-! Otherwise a field without the space is read under a name of its own, or a
name is lost, or the body begins with a line of the head. -/

section

variable {pre post : List SpelledField} {s : SpelledField}
  (h : SpelledAlike line (pre ++ s :: post)) (hspaced : ∀ x ∈ pre, x.Spaced) (hnot : ¬ s.Spaced)

include h hspaced hnot

theorem endsHeaders_of_spelledAlike : EndsHeaders pre.length s.line := by
  by_contra hends
  obtain ⟨r, r', hr, hr', hsame⟩ := h []
  have hheaders := headers_of_canonical hwords hline (by simp) hr
  have hheaders' := headers_of_spelled hwords hline hr'
  rw [readHeaders_first_not_spaced hspaced, if_neg hends] at hheaders'
  have hcolon := SpelledField.colon_mem_entryOfLine hnot
  have hn := hsame.headers (entryOfLine s.line).1
  have hnone : ((pre ++ s :: post).map SpelledField.field).lookup (entryOfLine s.line).1 =
      none := by
    rw [List.lookup_eq_none_iff]
    intro f hf
    obtain ⟨x, -, rfl⟩ := List.mem_map.mp hf
    rw [bne_iff_ne]
    intro heq
    rw [heq] at hcolon
    exact x.name_free.1 hcolon
  rw [hheaders, hheaders', lookup_headersOf, lookup_headersOf, hnone, Option.map_none,
    eq_comm, Option.map_eq_none_iff, List.lookup_eq_none_iff] at hn
  have hself := hn (entryOfLine s.line) (by simp)
  simp at hself

theorem read_of_spelledAlike (body : Bytes) :
    readHeaders 0 (IStream.ofString (spelledSection (pre ++ s :: post) body)) =
      (pre.map SpelledField.entry, IStream.ofString (spelledSection post body)) := by
  rw [readHeaders_first_not_spaced hspaced,
    if_pos (endsHeaders_of_spelledAlike hwords hline h hspaced hnot)]

theorem names_of_spelledAlike : ∀ x ∈ s :: post, x.name ∈ pre.map SpelledField.name := by
  intro x hx
  obtain ⟨r, r', hr, hr', hsame⟩ := h []
  have hheaders := headers_of_canonical hwords hline (by simp) hr
  have hheaders' := headers_of_spelled hwords hline hr'
  rw [read_of_spelledAlike hwords hline h hspaced hnot] at hheaders'
  have hn := hsame.headers x.name
  rw [hheaders, hheaders', lookup_headersOf, lookup_headersOf] at hn
  by_contra hmissing
  have hnone : (pre.map SpelledField.entry).lookup x.name = none := by
    rw [List.lookup_eq_none_iff]
    intro f hf
    obtain ⟨y, hy, rfl⟩ := List.mem_map.mp hf
    rw [bne_iff_ne]
    intro heq
    exact hmissing (List.mem_map.mpr ⟨y, hy, heq.symm⟩)
  rw [hnone, Option.map_none, Option.map_eq_none_iff, List.lookup_eq_none_iff] at hn
  have hself := hn x.field (List.mem_map_of_mem (List.mem_append_right pre hx))
  simp [SpelledField.field] at hself

/-- No body is declared: it would begin with the lines that are left of the head. -/
theorem length_of_spelledAlike {n : Nat}
    (hlength : declaredLength (headersOf ((pre ++ s :: post).map SpelledField.field)) =
      .ok (n : Int)) : n = 0 := by
  by_contra hn
  have hlookup := lookup_field_of_names (names_of_spelledAlike hwords hline h hspaced hnot)
  have hlength' : declaredLength (headersOf (pre.map SpelledField.entry)) = .ok (n : Int) := by
    rw [declaredLength_entry, ← declaredLength_congr hlookup, hlength]
  obtain ⟨c, t, hc⟩ := List.exists_cons_of_ne_nil (spelledSection_ne_nil post)
  obtain ⟨x, hx⟩ : ∃ x : UInt8, x ≠ c := by
    by_cases hzero : c = 0
    · exact ⟨1, by rw [hzero]; decide⟩
    · exact ⟨0, Ne.symm hzero⟩
  obtain ⟨r, r', hr, hr', hsame⟩ := h [x]
  rw [createRequestFromBuffer_canonical hwords hline (by simp) hlength, Except.ok.injEq] at hr
  rw [createRequestFromBuffer_spelled hwords hline
    (read_of_spelledAlike hwords hline h hspaced hnot [x]) hlength', Except.ok.injEq] at hr'
  have hbuffer : List.replicate n (48 : UInt8) ≠ [] := by simpa using hn
  have hbody := congrArg List.head? hsame.body
  rw [← hr, ← hr', spelledSection_append, hc, List.cons_append, head?_read _ _ _ hbuffer,
    head?_read _ _ _ hbuffer] at hbody
  exact hx (Option.some.inj hbody)

theorem harmlessLoss_of_spelledAlike {n : Nat}
    (hlength : declaredLength (headersOf ((pre ++ s :: post).map SpelledField.field)) =
      .ok (n : Int)) : HarmlessLoss (pre ++ s :: post) := by
  have hends := endsHeaders_of_spelledAlike hwords hline h hspaced hnot
  have hline_ne : s.line ≠ [] := by simp [SpelledField.line]
  obtain ⟨hnone, hcount⟩ := hends.resolve_left hline_ne
  rw [SpelledField.find_line hnot, Option.map_eq_none_iff] at hnone
  have hzero := length_of_spelledAlike hwords hline h hspaced hnot hlength
  rw [hzero] at hlength
  exact ⟨pre, s, post, rfl, List.ne_nil_of_length_pos hcount, hspaced, hnot, hnone,
    names_of_spelledAlike hwords hline h hspaced hnot, hlength⟩

end

/-- The spelling does not matter exactly if the declared length is valid and either
all fields have a space after the colon, or what is lost without it is not missed. -/
theorem spelledAlike_iff (hne : ss ≠ []) :
    SpelledAlike line ss ↔
      (∃ n : Nat, declaredLength (headersOf (ss.map SpelledField.field)) = .ok (n : Int)) ∧
        ((∀ s ∈ ss, s.Spaced) ∨ HarmlessLoss ss) := by
  constructor
  · intro h
    obtain ⟨r, -, hr, -⟩ := h []
    have hlength := declaredLength_of_parsed hr
    rw [headers_of_canonical hwords hline hne hr] at hlength
    refine ⟨⟨_, hlength⟩, ?_⟩
    by_cases hall : ∀ s ∈ ss, s.Spaced
    · exact .inl hall
    · obtain ⟨pre, s, post, rfl, hspaced, hnot⟩ := exists_first_not hall
      exact .inr (harmlessLoss_of_spelledAlike hwords hline h hspaced hnot hlength)
  · intro h
    rcases h with ⟨⟨n, hlength⟩, hspaced | hloss⟩
    · exact spelledAlike_of_spaced hwords hline hne hlength hspaced
    · exact spelledAlike_of_harmlessLoss hwords hline hloss

end

/-! ## Two fields -/

theorem accept_free : (colon ∉ ascii "Accept" ∧ LineFree (ascii "Accept")) ∧
    LineFree (ascii "*/*") ∧ Trimmed (ascii "*/*") := by decide

theorem accept_size : (ascii "Accept").length < npos := by simp [ascii, npos]

theorem two_blanks : ∀ b ∈ [sp, 9], isBlank b = true := List.all_eq_true.mp (by decide)

def acceptField : SpelledField :=
  ⟨ascii "Accept", [sp, 9], ascii "*/*", accept_free.1, accept_size, accept_free.2, two_blanks⟩

theorem accept_spaced : ∀ s ∈ [acceptField], s.Spaced := by
  intro s hs
  rw [List.mem_singleton.mp hs]
  rfl

theorem length_free : (colon ∉ contentLengthKey ∧ LineFree contentLengthKey) ∧
    LineFree (ascii "2") ∧ Trimmed (ascii "2") := by decide

theorem length_size : contentLengthKey.length < npos := by simp [contentLengthKey, ascii, npos]

theorem no_blanks : ∀ b ∈ ([] : Bytes), isBlank b = true := by simp

def bareLengthField : SpelledField :=
  ⟨contentLengthKey, [], ascii "2", length_free.1, length_size, length_free.2, no_blanks⟩

theorem spelledAlike_accept : SpelledAlike (ascii "GET / HTTP/1.1") [acceptField] := by
  exact (spelledAlike_iff (by decide) (by decide) (by simp)).mpr
    ⟨⟨0, declaredLength_of_none (by rw [lookup_headersOf]; rfl)⟩, .inl accept_spaced⟩

/-- `Content-Length:2` is lost, and the body with it. -/
theorem bare_length_loses_body : ∃ r s,
    createRequestFromBuffer (spelledRequest (ascii "POST / HTTP/1.1")
        ([acceptField, bareLengthField].map SpelledField.canonical) (ascii "hi")) = .ok r ∧
      createRequestFromBuffer (ascii
        "POST / HTTP/1.1\r\nAccept: \t*/*\r\nContent-Length:2\r\n\r\nhi") = .ok s ∧
      r.headers.lookup contentLengthKey = some (ascii "2") ∧ r.body = ascii "hi" ∧
      s.headers.lookup contentLengthKey = none ∧ s.body = [] ∧
      ¬ SpelledAlike (ascii "POST / HTTP/1.1") [acceptField, bareLengthField] := by
  have hwords : HasWords 3 (ascii "POST / HTTP/1.1") := by decide
  have hline : LineFree (ascii "POST / HTTP/1.1") := by decide
  have hvalue : (headersOf ([acceptField, bareLengthField].map SpelledField.field)).lookup
      contentLengthKey = some (ascii "2") := by
    rw [lookup_headersOf]
    rfl
  have hstoi : stoi (ascii "2") = .ok ((2 : Nat) : Int) := rfl
  have hr := createRequestFromBuffer_canonical hwords hline (by simp)
    ((declaredLength_of_some hvalue).trans hstoi) (ascii "hi")
  have hlost : (headersOf ([acceptField].map SpelledField.entry)).lookup contentLengthKey =
      none := by
    rw [lookup_headersOf]
    rfl
  have hread := @readHeaders_first_not_spaced _ [] bareLengthField accept_spaced (ascii "hi")
  have hends : EndsHeaders [acceptField].length bareLengthField.line := by decide
  rw [if_pos hends] at hread
  have hs := createRequestFromBuffer_spelled hwords hline hread
    (n := 0) (declaredLength_of_none hlost)
  have htext : spelledRequest (ascii "POST / HTTP/1.1") ([acceptField] ++ [bareLengthField])
      (ascii "hi") = ascii
        "POST / HTTP/1.1\r\nAccept: \t*/*\r\nContent-Length:2\r\n\r\nhi" := by decide
  rw [htext] at hs
  have hbody : ((IStream.ofString (ascii "hi")).read (List.replicate 2 48)).1 = ascii "hi" := by
    decide
  refine ⟨_, _, hr, hs, hvalue, hbody, hlost, List.length_eq_zero_iff.mp (length_read _ _), ?_⟩
  intro halike
  have hsplit : SpelledAlike (ascii "POST / HTTP/1.1") ([acceptField] ++ [bareLengthField]) :=
    halike
  have hzero := length_of_spelledAlike hwords hline hsplit accept_spaced (by decide)
    ((declaredLength_of_some hvalue).trans hstoi)
  exact absurd hzero (by decide)

end WsGateway.Http
