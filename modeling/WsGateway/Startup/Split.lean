import WsGateway.Lib.Stream

/-!
# `split`

The tokens of a string between its delimiters, read with `getline`. A delimiter at
the end of the string has no token behind it, and neither has the empty string.
-/

namespace WsGateway.Startup

open Lib Lib.Stream

def tokens (delimiter : UInt8) (s : IStream) : List Bytes :=
  match _h : s.getlineAt delimiter with
  | (none, _) => []
  | (some token, s') => token :: tokens delimiter s'
termination_by s.rest.length
decreasing_by exact getlineAt_length_lt _h

def split (str : Bytes) (delimiter : UInt8) : List Bytes := tokens delimiter (.ofString str)

def comma : UInt8 := 44

/-! ## Token by token -/

theorem tokens_some {delimiter : UInt8} {s s' : IStream} {token : Bytes}
    (h : s.getlineAt delimiter = (some token, s')) :
    tokens delimiter s = token :: tokens delimiter s' := by
  rw [tokens]
  split
  · rename_i hnone
    rw [h] at hnone
    cases hnone
  · rename_i hsome
    rw [h] at hsome
    cases hsome
    rfl

theorem split_nil (delimiter : UInt8) : split [] delimiter = [] := by
  rw [split, tokens]
  simp [IStream.getlineAt, IStream.ofString, IStream.good]

theorem split_last {delimiter : UInt8} {token : Bytes} (h : delimiter ∉ token)
    (hne : token ≠ []) : split token delimiter = [token] := by
  have hend : tokens delimiter ⟨[], true, false⟩ = [] := by
    rw [tokens]
    simp [IStream.getlineAt, IStream.good]
  rw [split, tokens_some (getlineAt_last h hne), hend]

theorem split_token {delimiter : UInt8} {token : Bytes} (h : delimiter ∉ token) (rest : Bytes) :
    split (token ++ delimiter :: rest) delimiter = token :: split rest delimiter :=
  tokens_some (getlineAt_token h)

theorem split_ne_nil (delimiter : UInt8) {str : Bytes} (h : str ≠ []) :
    split str delimiter ≠ [] := by
  rcases token_cases delimiter str with hlast | ⟨token, rest, htoken, rfl⟩
  · rw [split_last hlast h]
    exact List.cons_ne_nil _ _
  · rw [split_token htoken]
    exact List.cons_ne_nil _ _

/-! ## Joining the tokens -/

theorem not_mem_of_mem_split {delimiter : UInt8} {str token : Bytes}
    (h : token ∈ split str delimiter) : delimiter ∉ token := by
  induction str using token_induction delimiter with
  | last str hstr =>
      by_cases hne : str = []
      · rw [hne, split_nil] at h
        cases h
      · rw [split_last hstr hne, List.mem_singleton] at h
        rwa [h]
  | token first rest hfirst ih =>
      rw [split_token hfirst] at h
      rcases List.mem_cons.mp h with rfl | h
      · exact hfirst
      · exact ih h

/-- A list that can be found again in its joined text: the delimiter is in no token, and
the last token is not empty. -/
structure Joinable (delimiter : UInt8) (list : List Bytes) : Prop where
  free : ∀ token ∈ list, delimiter ∉ token
  last : list.getLast? ≠ some []

theorem split_join {delimiter : UInt8} {list : List Bytes} (h : ∀ token ∈ list, delimiter ∉ token)
    (hlast : list.getLast? ≠ some []) : split ([delimiter].intercalate list) delimiter = list := by
  induction list with
  | nil => exact split_nil delimiter
  | cons token list ih =>
      have htoken : delimiter ∉ token := h token List.mem_cons_self
      cases list with
      | nil =>
          have hne : token ≠ [] := by simpa using hlast
          rw [List.intercalate_singleton, split_last htoken hne]
      | cons next list =>
          have hrest := ih (fun t ht => h t (List.mem_cons_of_mem token ht))
            (by simpa [List.getLast?_cons_cons] using hlast)
          rw [List.intercalate_cons_cons, List.append_assoc, List.singleton_append,
            split_token htoken, hrest]

theorem split_join_concat {delimiter : UInt8} {list : List Bytes}
    (h : ∀ token ∈ list, delimiter ∉ token) (hne : list ≠ []) :
    split ([delimiter].intercalate list ++ [delimiter]) delimiter = list := by
  induction list with
  | nil => exact absurd rfl hne
  | cons token list ih =>
      have htoken : delimiter ∉ token := h token List.mem_cons_self
      by_cases hnil : list = []
      · rw [hnil, List.intercalate_singleton, split_token htoken, split_nil]
      · rw [List.intercalate_cons_of_ne_nil hnil, List.append_assoc, List.append_assoc,
          List.singleton_append, split_token htoken,
          ih (fun t ht => h t (List.mem_cons_of_mem token ht)) hnil]

theorem getLast?_token {delimiter : UInt8} (token : Bytes) {rest : Bytes} (h : rest ≠ []) :
    (token ++ delimiter :: rest).getLast? = rest.getLast? := by
  obtain ⟨b, rest, rfl⟩ := List.exists_cons_of_ne_nil h
  rw [List.getLast?_append_cons, List.getLast?_cons_cons]

theorem getLast?_ne_of_not_mem {c : UInt8} {str : Bytes} (h : c ∉ str) :
    str.getLast? ≠ some c := fun hlast => h (List.mem_of_getLast? hlast)

/-- The tokens joined are the string, without a delimiter at its end. -/
theorem join_split (delimiter : UInt8) (str : Bytes) :
    [delimiter].intercalate (split str delimiter) =
      if str.getLast? = some delimiter then str.dropLast else str := by
  induction str using token_induction delimiter with
  | last str hstr =>
      rw [if_neg (getLast?_ne_of_not_mem hstr)]
      by_cases hne : str = []
      · rw [hne, split_nil, List.intercalate_nil]
      · rw [split_last hstr hne, List.intercalate_singleton]
  | token token rest htoken ih =>
      rw [split_token htoken]
      by_cases hrest : rest = []
      · -- nothing stands behind the last delimiter
        subst hrest
        rw [split_nil, List.intercalate_singleton, List.getLast?_concat, if_pos rfl,
          List.dropLast_concat]
      · have hne : delimiter :: rest ≠ [] := List.cons_ne_nil _ _
        rw [List.intercalate_cons_of_ne_nil (split_ne_nil delimiter hrest), ih,
          getLast?_token token hrest, List.append_assoc, List.singleton_append]
        split
        · rw [List.dropLast_append_of_ne_nil hne, List.dropLast_cons_of_ne_nil hrest]
        · rfl

/-- There is one token more than delimiters, but none behind a delimiter at the end and
none in the empty string. -/
theorem length_split (delimiter : UInt8) (str : Bytes) :
    (split str delimiter).length =
      str.count delimiter + if str = [] ∨ str.getLast? = some delimiter then 0 else 1 := by
  induction str using token_induction delimiter with
  | last str hstr =>
      have hlast := getLast?_ne_of_not_mem hstr
      rw [List.count_eq_zero_of_not_mem hstr, Nat.zero_add]
      by_cases hne : str = []
      · rw [hne, split_nil]
        rfl
      · rw [split_last hstr hne, if_neg (not_or.mpr ⟨hne, hlast⟩), List.length_singleton]
  | token token rest htoken ih =>
      have hne : token ++ delimiter :: rest ≠ [] := by simp
      rw [split_token htoken, List.length_cons, ih, List.count_append,
        List.count_eq_zero_of_not_mem htoken, List.count_cons_self]
      by_cases hrest : rest = []
      · subst hrest
        simp
      · simp only [hrest, hne, getLast?_token token hrest, false_or]
        omega

end WsGateway.Startup
