import WsGateway.Lib.Fields

/-!
# The text of a header section

Writing a field as a line, and reading the lines of a message up to the blank
one. A reader takes as the name of a field what stands before the first colon
of its line. Fields with a colon in the name are therefore read back under
another name; the last rules decide when a name is read exactly once.
-/

namespace WsGateway.Lib.Http

/-! ## Writing -/

def renderField (f : Field) : Bytes := f.1 ++ colon :: sp :: (f.2 ++ crlf)

def renderFields (fs : List Field) : Bytes := fs.flatMap renderField ++ crlf

/-! ## Reading -/

/-- A line may end in LF or in CR LF. -/
def dropCr (line : Bytes) : Bytes := if line.getLast? = some cr then line.dropLast else line

/-- The lines of a text up to its blank line, the first of them after `line`. -/
def headerLines (line : Bytes) : Bytes → List Bytes
  | [] => []
  | b :: text =>
      if b = lf then
        if dropCr line = [] then [] else dropCr line :: headerLines [] text
      else headerLines (line ++ [b]) text

def fieldName (line : Bytes) : Bytes := line.takeWhile fun b => b != colon

def fieldOfLine (line : Bytes) : Field :=
  (fieldName line, trim ((line.dropWhile fun b => b != colon).drop 1))

/-- The header fields of a message: its lines after the start line. -/
def headerFields (text : Bytes) : List Field := (headerLines [] text).tail.map fieldOfLine

theorem headerLines_append {line s : Bytes} (h : lf ∉ s) (rest : Bytes) :
    headerLines line (s ++ rest) = headerLines (line ++ s) rest := by
  induction s generalizing line with
  | nil => simp
  | cons b s ih =>
      rw [List.mem_cons, not_or] at h
      rw [List.cons_append, headerLines, if_neg (Ne.symm h.1), ih h.2, List.append_assoc]
      rfl

@[simp] theorem dropCr_concat (line : Bytes) : dropCr (line ++ [cr]) = line := by
  simp [dropCr]

theorem headerLines_crlf (line rest : Bytes) :
    headerLines line (crlf ++ rest) = if line = [] then [] else line :: headerLines [] rest := by
  have hcr : cr ≠ lf := by decide
  rw [crlf, List.cons_append, headerLines, if_neg hcr, List.cons_append, headerLines,
    if_pos rfl, dropCr_concat, List.nil_append]

theorem headerLines_line {line : Bytes} (h : LineFree line) (hne : line ≠ []) (rest : Bytes) :
    headerLines [] (line ++ (crlf ++ rest)) = line :: headerLines [] rest := by
  rw [headerLines_append h.2, List.nil_append, headerLines_crlf, if_neg hne]

theorem headerLines_blank (line s rest : Bytes) :
    headerLines line (s ++ (crlf ++ (crlf ++ rest))) = headerLines line (s ++ (crlf ++ crlf)) := by
  induction s generalizing line with
  | nil =>
      have hnil := headerLines_crlf [] []
      rw [List.append_nil] at hnil
      rw [List.nil_append, List.nil_append, headerLines_crlf, headerLines_crlf,
        headerLines_crlf, hnil]
      rfl
  | cons b s ih =>
      simp only [List.cons_append, headerLines, ih]

def wire (f : Field) : Field := fieldOfLine (f.1 ++ colon :: sp :: f.2)

theorem headerLines_renderField {f : Field} (hn : LineFree f.1) (hv : LineFree f.2)
    (rest : Bytes) :
    headerLines [] (renderField f ++ rest) =
      (f.1 ++ colon :: sp :: f.2) :: headerLines [] rest := by
  have htext : renderField f ++ rest = (f.1 ++ colon :: sp :: f.2) ++ (crlf ++ rest) := by
    simp [renderField]
  rw [htext, headerLines_line (hn.field hv) (by simp)]

theorem headerLines_flatMap {fs : List Field} (h : ∀ f ∈ fs, LineFree f.1 ∧ LineFree f.2)
    (rest : Bytes) :
    headerLines [] (fs.flatMap renderField ++ rest) =
      fs.map (fun f => f.1 ++ colon :: sp :: f.2) ++ headerLines [] rest := by
  induction fs with
  | nil => rfl
  | cons f fs ih =>
      obtain ⟨hn, hv⟩ := h f List.mem_cons_self
      rw [List.flatMap_cons, List.append_assoc, headerLines_renderField hn hv,
        ih fun g hg => h g (List.mem_cons_of_mem f hg)]
      rfl

theorem headerFields_render {start : Bytes} (hs : LineFree start) (hne : start ≠ [])
    {fs : List Field} (h : ∀ f ∈ fs, LineFree f.1 ∧ LineFree f.2) (last : Field)
    (body : Bytes) :
    headerFields (start ++ (crlf ++ (renderFields (fs ++ [last]) ++ body))) =
      fs.map wire ++ (headerLines [] (renderField last ++ crlf)).map fieldOfLine := by
  have htext : renderFields (fs ++ [last]) ++ body =
      fs.flatMap renderField ++ (renderField last ++ (crlf ++ body)) := by
    simp [renderFields]
  have hlast : headerLines [] (renderField last ++ (crlf ++ body)) =
      headerLines [] (renderField last ++ crlf) := by
    have hblank := headerLines_blank [] (last.1 ++ colon :: sp :: last.2) body
    simpa [renderField] using hblank
  rw [headerFields, headerLines_line hs hne, List.tail_cons, htext, headerLines_flatMap h,
    hlast, List.map_append, List.map_map]
  rfl

/-! ## Containers that render to one line a field -/

def Fields.LinesOnly (fs : Fields) : Prop := ∀ f ∈ fs.toList, LineFree f.1 ∧ LineFree f.2

theorem Fields.LinesOnly.set {fs : Fields} (h : fs.LinesOnly) {n v : Bytes} (hn : LineFree n)
    (hv : LineFree v) : (fs.set n v).LinesOnly := by
  intro f hf
  rcases mem_set.mp hf with ⟨hf, -⟩ | rfl
  · exact h f hf
  · exact ⟨hn, hv.trim⟩

theorem Fields.LinesOnly.erase {fs : Fields} (h : fs.LinesOnly) (n : Bytes) :
    (fs.erase n).LinesOnly := fun f hf => h f (mem_erase.mp hf).1

theorem Fields.LinesOnly.setAll {fs : Fields} (h : fs.LinesOnly) {es : List Field}
    (hes : ∀ e ∈ es, LineFree e.1 ∧ LineFree e.2) : (fs.setAll es).LinesOnly := by
  induction es using List.reverseRecOn with
  | nil => exact h
  | append_singleton es e ih =>
      obtain ⟨hn, hv⟩ := hes e (by simp)
      rw [setAll_concat]
      exact (ih fun g hg => hes g (List.mem_append_left _ hg)).set hn hv

/-! ## Names on the wire -/

theorem fieldName_append (n rest : Bytes) : fieldName (n ++ colon :: rest) = fieldName n := by
  induction n with
  | nil => simp [fieldName]
  | cons b n ih =>
      by_cases hb : b = colon
      · simp [fieldName, hb]
      · simpa [fieldName, hb] using ih

theorem wire_fst (f : Field) : (wire f).1 = fieldName f.1 := fieldName_append f.1 _

theorem fieldName_eq_self {n : Bytes} (h : colon ∉ n) : fieldName n = n := by
  rw [fieldName, List.takeWhile_eq_self_iff]
  exact bne_of_not_mem h

theorem wire_eq {f : Field} (h : colon ∉ f.1) : wire f = (f.1, trim f.2) := by
  have hdrop : (f.1 ++ colon :: sp :: f.2).dropWhile (fun b => b != colon) =
      colon :: sp :: f.2 := by
    rw [List.dropWhile_append_of_pos (bne_of_not_mem h)]
    simp
  have hsp : isBlank sp = true := by decide
  rw [wire, fieldOfLine, fieldName_append, fieldName_eq_self h, hdrop]
  simp [trim, hsp]

/-- A name that is read back as `n`, although it is not a spelling of `n`. -/
def Forges (n m : Bytes) : Prop := colon ∈ m ∧ iequals n (fieldName m) = true

instance (n m : Bytes) : Decidable (Forges n m) := inferInstanceAs (Decidable (_ ∧ _))

theorem toLower_eq_colon {b : UInt8} : toLower b = colon ↔ b = colon := by
  constructor
  · intro h
    unfold toLower at h
    split at h
    · rename_i hb
      have h65 : (65 : UInt8).toNat = 65 := rfl
      have h90 : (90 : UInt8).toNat = 90 := rfl
      have h32 : (32 : UInt8).toNat = 32 := rfl
      have hcolon : colon.toNat = 58 := rfl
      have hnat := congrArg UInt8.toNat h
      simp only [Bool.and_eq_true, decide_eq_true_eq, UInt8.le_iff_toNat_le, h65, h90] at hb
      rw [UInt8.toNat_add, h32, hcolon] at hnat
      omega
    · exact h
  · intro heq
    subst heq
    decide

theorem fieldName_map_toLower (n : Bytes) :
    fieldName (n.map toLower) = (fieldName n).map toLower := by
  have hpred : (fun b => b != colon) ∘ toLower = fun b => b != colon := by
    funext b
    rw [Function.comp_apply, Bool.eq_iff_iff, bne_iff_ne, bne_iff_ne, ne_eq, toLower_eq_colon]
  rw [fieldName, List.takeWhile_map, hpred, fieldName]

theorem colon_mem_map_toLower {n : Bytes} : colon ∈ n.map toLower ↔ colon ∈ n := by
  simp [toLower_eq_colon]

/-- Spelling does not matter. -/
theorem Forges.congr {n m m' : Bytes} (h : iequals m m' = true) (hf : Forges n m) :
    Forges n m' := by
  rcases hf with ⟨hc, hn⟩
  rw [iequals_iff] at h hn
  refine ⟨?_, ?_⟩
  · rw [← colon_mem_map_toLower, ← h, colon_mem_map_toLower]
    exact hc
  · rw [iequals_iff, hn, ← fieldName_map_toLower, ← fieldName_map_toLower, h]

theorem not_forges_of_not_mem {n m : Bytes} (h : colon ∉ m) : ¬ Forges n m := fun hf => h hf.1

/-- A field is read as `n` on the wire if it is the field `n`, or if it forges it. -/
theorem named_wire {n : Bytes} (hn : colon ∉ n) (f : Field) :
    named n (wire f) = true ↔ Forges n f.1 ∨ named n f = true := by
  rw [named, wire_fst, named]
  by_cases hc : colon ∈ f.1
  · have hne : iequals n f.1 = false := by
      by_contra h
      rw [Bool.not_eq_false, iequals_iff] at h
      rw [← colon_mem_map_toLower, ← h, colon_mem_map_toLower] at hc
      exact hn hc
    simp [Forges, hc, hne]
  · simp [Forges, hc, fieldName_eq_self hc]

/-- A field that forges a name is read with a colon in its value. -/
theorem colon_mem_wire {f : Field} (h : colon ∈ f.1) : colon ∈ (wire f).2 := by
  have hblank : isBlank colon = false := by decide
  have hdrop : ∃ rest, f.1.dropWhile (fun b => b != colon) = colon :: rest := by
    cases hd : f.1.dropWhile fun b => b != colon with
    | nil =>
        have hall := List.dropWhile_eq_nil_iff.mp hd colon h
        simp at hall
    | cons b rest =>
        have hb : (b != colon) = false := by
          have hhead := List.head?_dropWhile_not (fun b => b != colon) f.1
          rw [hd] at hhead
          simpa using hhead
        exact ⟨rest, by simpa using hb⟩
  rcases hdrop with ⟨rest, hrest⟩
  have hline : (f.1 ++ colon :: sp :: f.2).dropWhile (fun b => b != colon) =
      colon :: (rest ++ colon :: sp :: f.2) := by
    rw [List.dropWhile_append, hrest]
    simp
  rw [wire, fieldOfLine, hline]
  refine mem_trim ?_ hblank
  simp

theorem wire_of_mem {fs : Fields} {f : Field} (hf : f ∈ fs.toList) (h : colon ∉ f.1) :
    wire f = f := by
  rw [wire_eq h, fs.trimmed f hf]

theorem filter_wire {fs : Fields} {n : Bytes} (hn : colon ∉ n) (h : ¬ fs.HasName (Forges n)) :
    (fs.toList.map wire).filter (named n) = fs.toList.filter (named n) := by
  have hsame : fs.toList.filter (named n ∘ wire) = fs.toList.filter (named n) := by
    refine List.filter_congr fun f hf => ?_
    rw [Function.comp_apply, Bool.eq_iff_iff, named_wire hn]
    exact or_iff_right fun hff => h ⟨f, hf, hff⟩
  have hcolon : ∀ f ∈ fs.toList.filter (named n), wire f = f := by
    intro f hf
    obtain ⟨hf, hnf⟩ := List.mem_filter.mp hf
    refine wire_of_mem hf fun hc => ?_
    rw [named, iequals_iff] at hnf
    rw [← colon_mem_map_toLower, ← hnf, colon_mem_map_toLower] at hc
    exact hn hc
  rw [List.filter_map, hsame, List.map_congr_left hcolon, List.map_id']

/-- A name that is a field of the container is read exactly once, with the value
`c`, if and only if its value is `c`, no other field forges it, and it is not
among the fields `gs` that are read besides. -/
theorem read_once_iff {fs : Fields} {n v c : Bytes} (hn : colon ∉ n)
    (hmem : (n, v) ∈ fs.toList) (gs : List Field) :
    ((fs.toList.map wire ++ gs).filter (named n)).map Prod.snd = [c] ↔
      v = c ∧ ¬ fs.HasName (Forges n) ∧ ∀ g ∈ gs, named n g = false := by
  have hself : named n (n, v) = true := named_self n v
  rw [List.filter_append]
  constructor
  · intro h
    have hread : (n, v) ∈ fs.toList.filter (named n ∘ wire) :=
      List.mem_filter.mpr ⟨hmem, (named_wire hn _).mpr (.inr hself)⟩
    rw [List.filter_map] at h
    have hlen := congrArg List.length h
    have hpos := List.length_pos_of_mem hread
    simp only [List.length_map, List.length_append, List.length_singleton] at hlen
    have hgs : gs.filter (named n) = [] := List.length_eq_zero_iff.mp (by omega)
    have hone : (fs.toList.filter (named n ∘ wire)).length = 1 := by omega
    obtain ⟨f, hf⟩ := List.length_eq_one_iff.mp hone
    obtain rfl : (n, v) = f := by
      rw [hf] at hread
      exact List.mem_singleton.mp hread
    rw [hf, hgs] at h
    refine ⟨by simpa [wire_of_mem hmem hn] using h, ?_, ?_⟩
    · intro hforged
      rcases hforged with ⟨g, hg, hforge⟩
      have hgr : g ∈ fs.toList.filter (named n ∘ wire) :=
        List.mem_filter.mpr ⟨hg, (named_wire hn g).mpr (.inl hforge)⟩
      rw [hf] at hgr
      obtain rfl := List.mem_singleton.mp hgr
      exact hn hforge.1
    · intro g hg
      simpa using List.filter_eq_nil_iff.mp hgs g hg
  · intro honce
    rcases honce with ⟨rfl, hforge, hgs⟩
    have hnil : gs.filter (named n) = [] := by
      rw [List.filter_eq_nil_iff]
      intro g hg
      simp [hgs g hg]
    rw [filter_wire hn hforge, Fields.filter_named_of_mem hmem hself, hnil]
    rfl

/-- A name is read at most once, and only with the value `d`, if and only if no
field of this name has another value and none forges it. -/
theorem read_only_iff {fs : Fields} {n d : Bytes} (hn : colon ∉ n) (hd : colon ∉ d) :
    (((fs.toList.map wire).filter (named n)).length ≤ 1 ∧
        ∀ f ∈ (fs.toList.map wire).filter (named n), f.2 = d) ↔
      (∀ f ∈ fs.toList, named n f = true → f.2 = d) ∧ ¬ fs.HasName (Forges n) := by
  constructor
  · intro h
    rcases h with ⟨-, hall⟩
    have hforge : ¬ fs.HasName (Forges n) := by
      intro h
      rcases h with ⟨f, hf, hff⟩
      have hread : wire f ∈ (fs.toList.map wire).filter (named n) :=
        List.mem_filter.mpr ⟨List.mem_map_of_mem hf, (named_wire hn f).mpr (.inl hff)⟩
      exact hd (hall _ hread ▸ colon_mem_wire hff.1)
    rw [filter_wire hn hforge] at hall
    exact ⟨fun f hf hnf => hall f (List.mem_filter.mpr ⟨hf, hnf⟩), hforge⟩
  · intro h
    rcases h with ⟨hall, hforge⟩
    rw [filter_wire hn hforge]
    exact ⟨fs.length_filter_named_le_one n, fun f hf =>
      hall f (List.mem_filter.mp hf).1 (List.mem_filter.mp hf).2⟩

end WsGateway.Lib.Http
