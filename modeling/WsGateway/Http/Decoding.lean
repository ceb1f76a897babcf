import WsGateway.Http.Response
import WsGateway.Http.Parser

/-!
# Reading the response text back

A decoder for the texts of `buildResponseStringBuffer`, line by line up to the
blank line. The version is printed by one formula; its two special cases agree
with it.
-/

namespace WsGateway.Http

open Lib Lib.Http Lib.Stream

/-! ## The decoder -/

def decodeVersion (text : Bytes) : Option Nat := do
  let (_, number) ← cut (ascii "/") text
  let (major, minor) ← cut (ascii ".") number
  return 10 * digitsValue major + digitsValue minor

def decodeFields (text : Bytes) : Option (List Field × Bytes) :=
  match _h : cut crlf text with
  | none => none
  | some (line, rest) =>
      if line = [] then some ([], rest)
      else do
        let field ← cut delimiter line
        let (fields, body) ← decodeFields rest
        return (field :: fields, body)
termination_by text.length
decreasing_by exact length_cut_lt (by decide) _h

def decodeResponse (text : Bytes) : Option Response := do
  let (line, rest) ← cut crlf text
  let (version, line) ← cut [sp] line
  let (result, reason) ← cut [sp] line
  let version ← decodeVersion version
  let (fields, body) ← decodeFields rest
  return ⟨version, digitsValue result, reason, fields, body⟩

/-! ## Its parts -/

/-- Reason and fields do not interfere with the separators. -/
structure Response.Printable (res : Response) : Prop where
  reason : LineFree res.reason
  fields : ∀ f ∈ res.fields, colon ∉ f.1 ∧ LineFree f.1 ∧ LineFree f.2

theorem cut_line {line : Bytes} (h : LineFree line) (rest : Bytes) :
    cut crlf (line ++ (crlf ++ rest)) = some (line, rest) :=
  cut_of_not_mem h.1 rest

theorem versionText_eq (version : Nat) :
    versionText version =
      ascii "HTTP/" ++ decimal (version / 10) ++ ascii "." ++ decimal (version % 10) := by
  unfold versionText
  split
  · decide
  · decide
  · rfl

theorem decodeVersion_versionText (version : Nat) :
    decodeVersion (versionText version) = some version := by
  have htext : versionText version =
      ascii "HTTP" ++ 47 :: ([] ++ (decimal (version / 10) ++ 46 :: ([] ++
        decimal (version % 10)))) := by
    have hhttp : ascii "HTTP/" = ascii "HTTP" ++ [47] := by decide
    have hdot : ascii "." = [46] := by decide
    rw [versionText_eq, hhttp, hdot]
    simp
  have hslash : cut (ascii "/") (versionText version) = some (ascii "HTTP",
      decimal (version / 10) ++ 46 :: ([] ++ decimal (version % 10))) := by
    rw [htext]
    exact cut_of_not_mem (by decide) _
  have hdot : cut (ascii ".") (decimal (version / 10) ++ 46 :: ([] ++ decimal (version % 10))) =
      some (decimal (version / 10), decimal (version % 10)) :=
    cut_of_not_mem (not_mem_decimal (by decide) _) _
  have hsum : 10 * (version / 10) + version % 10 = version := by omega
  simp only [decodeVersion, hslash, hdot, Option.bind_eq_bind, Option.bind_some, Option.pure_def,
    digitsValue_decimal, hsum]

theorem versionText_noBlank (version : Nat) : sp ∉ versionText version := by
  have hhttp : sp ∉ ascii "HTTP/" := by decide
  have hdot : sp ∉ ascii "." := by decide
  have hnot := @not_mem_decimal sp (by decide)
  simp only [versionText_eq, List.mem_append, hhttp, hdot, hnot, or_self, not_false_eq_true]

theorem versionText_lineFree (version : Nat) : LineFree (versionText version) := by
  have hdecimal (n : Nat) : LineFree (decimal n) :=
    ⟨not_mem_decimal (by decide) n, not_mem_decimal (by decide) n⟩
  rw [versionText_eq]
  simp only [lineFree_append, hdecimal, and_true]
  decide

theorem decodeFields_renderField {f : Field} (hname : colon ∉ f.1) (hn : LineFree f.1)
    (hv : LineFree f.2) (text : Bytes) :
    decodeFields (renderField f ++ text) =
      (decodeFields text).map fun decoded => (f :: decoded.1, decoded.2) := by
  have hline : LineFree (f.1 ++ colon :: ([sp] ++ f.2)) := hn.field hv
  have htext : renderField f ++ text = (f.1 ++ colon :: ([sp] ++ f.2)) ++ (crlf ++ text) := by
    simp [renderField]
  have hcut : cut delimiter (f.1 ++ colon :: ([sp] ++ f.2)) = some f := cut_of_not_mem hname f.2
  rw [htext, decodeFields, cut_line hline]
  simp only [hcut]
  cases decodeFields text <;> simp

theorem decodeFields_renderFields {fs : List Field}
    (h : ∀ f ∈ fs, colon ∉ f.1 ∧ LineFree f.1 ∧ LineFree f.2) (body : Bytes) :
    decodeFields (renderFields fs ++ body) = some (fs, body) := by
  induction fs with
  | nil =>
      have hcut : cut crlf (crlf ++ body) = some ([], body) := @cut_line [] (by decide) body
      rw [renderFields, List.flatMap_nil, List.nil_append, decodeFields, hcut]
      rfl
  | cons f fs ih =>
      obtain ⟨hname, hn, hv⟩ := h f List.mem_cons_self
      have htext : renderFields (f :: fs) ++ body = renderField f ++ (renderFields fs ++ body) := by
        simp [renderFields]
      rw [htext, decodeFields_renderField hname hn hv,
        ih fun g hg => h g (List.mem_cons_of_mem f hg)]
      rfl

/-! ## The round trip -/

theorem decodeResponse_build {res : Response} (h : res.Printable) :
    decodeResponse (buildResponseStringBuffer res) = some res := by
  have hresult : LineFree (decimal res.result) :=
    ⟨not_mem_decimal (by decide) _, not_mem_decimal (by decide) _⟩
  have hline : LineFree (versionText res.version ++ sp :: ([] ++ (decimal res.result ++
      sp :: ([] ++ res.reason)))) := by
    have hstatus : LineFree (decimal res.result ++ sp :: res.reason) :=
      lineFree_append.mpr ⟨hresult, (lineFree_cons (by decide)).mpr h.reason⟩
    exact lineFree_append.mpr ⟨versionText_lineFree _, (lineFree_cons (by decide)).mpr hstatus⟩
  have htext : buildResponseStringBuffer res = (versionText res.version ++ sp :: ([] ++
      (decimal res.result ++ sp :: ([] ++ res.reason)))) ++
        (crlf ++ (renderFields res.fields ++ res.body)) := by
    simp [buildResponseStringBuffer]
  have hversion := @cut_of_not_mem _ [] _ (versionText_noBlank res.version)
    (decimal res.result ++ sp :: ([] ++ res.reason))
  have hstatus := @cut_of_not_mem _ [] _ (@not_mem_decimal sp (by decide) res.result)
    res.reason
  rw [decodeResponse, htext, cut_line hline]
  simp only [Option.bind_eq_bind, Option.bind_some, hversion, hstatus, decodeVersion_versionText,
    decodeFields_renderFields h.fields, digitsValue_decimal, Option.pure_def]

/-- The whole response can be read back from its text, so that different responses
have different texts. -/
theorem building_can_be_undone {res : Response} (h : res.Printable) :
    decodeResponse (buildResponseStringBuffer res) = some res ∧
      ∀ other : Response, other.Printable → other ≠ res →
        buildResponseStringBuffer other ≠ buildResponseStringBuffer res := by
  refine ⟨decodeResponse_build h, ?_⟩
  intro other hother hne htext
  have hread := decodeResponse_build hother
  rw [htext, decodeResponse_build h] at hread
  exact hne (Option.some.inj hread).symm

/-- A field is repeated, the reason is blank, and the body looks like a head. -/
theorem building_can_be_undone_repeated :
    let res : Response := ⟨27, 418, ascii " ", [(ascii "A", ascii "1: 2"), (ascii "A", [])],
      crlf ++ (ascii "B: 3" ++ crlf)⟩
    decodeResponse (buildResponseStringBuffer res) = some res ∧
      ∀ other : Response, other.Printable → other ≠ res →
        buildResponseStringBuffer other ≠ buildResponseStringBuffer res :=
  building_can_be_undone ⟨by decide, by decide⟩

end WsGateway.Http
