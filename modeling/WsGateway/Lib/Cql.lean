import WsGateway.Lib.Bytes

/-!
# CQL statements as text

A lexer for the tokens that data statements are made of, and a reader for
single `INSERT`, `DELETE` and `SELECT` statements on one key column. A string
literal runs from a quote to the next quote that is not doubled; a doubled
quote stands for one quote. The main rule inverts the lexer at a literal: what
follows the opening quote is the doubled form of the value, a closing quote,
and the rest of the text.
-/

namespace WsGateway.Lib.Cql

def quote : UInt8 := 39

def isWord (b : UInt8) : Bool :=
  (97 ≤ b && b ≤ 122) || (65 ≤ b && b ≤ 90) || isDigit b || b == 95

inductive Token
  | word (s : Bytes)
  | literal (s : Bytes)
  | symbol (b : UInt8)
deriving DecidableEq, Repr

inductive Mode
  /-- outside of literals, after these bytes of a word -/
  | code (s : Bytes)
  /-- inside a literal, after this part of its value -/
  | literal (s : Bytes)
  /-- inside a comment, up to the end of the line -/
  | comment

def flush (s : Bytes) (ts : List Token) : List Token := if s = [] then ts else .word s :: ts

/-- `--` and `//` start a comment. -/
def startsComment (b : UInt8) (rest : Bytes) : Bool :=
  (b == 45 || b == 47) && rest.head? == some b

/-- The tokens of a text; `none` if a literal is not closed. -/
def lex : Mode → Bytes → Option (List Token)
  | .code s, [] => some (flush s [])
  | .code s, b :: rest =>
      if isWord b then lex (.code (s ++ [b])) rest
      else if b = quote then (lex (.literal []) rest).map (flush s)
      else if startsComment b rest then (lex .comment rest).map (flush s)
      else if isSpace b then (lex (.code []) rest).map (flush s)
      else (lex (.code []) rest).map fun ts => flush s (.symbol b :: ts)
  | .literal _, [] => none
  | .literal s, b :: rest =>
      if b = quote then
        match rest with
        | [] => some [.literal s]
        | c :: rest' =>
            if c = quote then lex (.literal (s ++ [quote])) rest'
            else (lex (.code []) (c :: rest')).map (.literal s :: ·)
      else lex (.literal (s ++ [b])) rest
  | .comment, [] => some []
  | .comment, b :: rest => if b = lf then lex (.code []) rest else lex .comment rest

/-! ## Words -/

theorem lex_word (s w rest : Bytes) (hw : ∀ b ∈ w, isWord b = true) :
    lex (.code s) (w ++ rest) = lex (.code (s ++ w)) rest := by
  induction w generalizing s with
  | nil => simp
  | cons b w ih =>
      rw [List.cons_append, lex, if_pos (hw b List.mem_cons_self),
        ih _ fun c hc => hw c (List.mem_cons_of_mem b hc), List.append_assoc]
      rfl

theorem lex_symbol (s rest : Bytes) {b : UInt8} (hb : isWord b = false) (hq : b ≠ quote)
    (hc : startsComment b rest = false) (hs : isSpace b = false) :
    lex (.code s) (b :: rest) = (lex (.code []) rest).map fun ts => flush s (.symbol b :: ts) := by
  simp [lex, hb, hq, hc, hs]

theorem lex_blank (s rest : Bytes) :
    lex (.code s) (32 :: rest) = (lex (.code []) rest).map (flush s) := by
  simp [lex, isWord, isDigit, quote, startsComment, isSpace]

theorem lex_words (ws : List Bytes) (hws : (ws.all fun w => !w.isEmpty && w.all isWord) = true)
    (rest : Bytes) :
    lex (.code []) (ws.flatMap (· ++ [32]) ++ rest) =
      (lex (.code []) rest).map (ws.map .word ++ ·) := by
  induction ws with
  | nil => simp
  | cons w ws ih =>
      rw [List.all_cons, Bool.and_eq_true, Bool.and_eq_true] at hws
      obtain ⟨⟨hne, hword⟩, hws⟩ := hws
      have hnil : w ≠ [] := by simpa using hne
      rw [List.flatMap_cons, List.append_assoc, List.append_assoc,
        lex_word _ _ _ (List.all_eq_true.mp hword), List.nil_append, List.singleton_append,
        lex_blank, ih hws, Option.map_map]
      simp [Function.comp_def, flush, hnil]

/-! ## Literals -/

def doubled : Bytes → Bytes
  | [] => []
  | b :: s => if b = quote then quote :: quote :: doubled s else b :: doubled s

theorem doubled_eq_self {s : Bytes} (h : quote ∉ s) : doubled s = s := by
  induction s with
  | nil => rfl
  | cons b s ih =>
      rw [List.mem_cons, not_or] at h
      rw [doubled, if_neg (Ne.symm h.1), ih h.2]

theorem length_le_doubled (s : Bytes) : s.length ≤ (doubled s).length := by
  induction s with
  | nil => simp
  | cons b s ih =>
      unfold doubled
      split
      · simp only [List.length_cons]
        omega
      · simpa using ih

theorem lex_literal_of_ne (s rest : Bytes) {b : UInt8} (hb : b ≠ quote) :
    lex (.literal s) (b :: rest) = lex (.literal (s ++ [b])) rest := by
  cases rest <;> simp [lex, hb]

theorem lex_literal_close (s : Bytes) : lex (.literal s) [quote] = some [.literal s] := rfl

theorem lex_literal_quote (s rest : Bytes) (c : UInt8) :
    lex (.literal s) (quote :: c :: rest) =
      if c = quote then lex (.literal (s ++ [quote])) rest
      else (lex (.code []) (c :: rest)).map (.literal s :: ·) := by
  simp [lex]

theorem lex_literal (a v rest : Bytes) {c : UInt8} (hv : quote ∉ v) (hc : c ≠ quote) :
    lex (.literal a) (v ++ quote :: c :: rest) =
      (lex (.code []) (c :: rest)).map (.literal (a ++ v) :: ·) := by
  induction v generalizing a with
  | nil => rw [List.nil_append, lex_literal_quote, if_neg hc, List.append_nil]
  | cons b v ih =>
      rw [List.mem_cons, not_or] at hv
      rw [List.cons_append, lex_literal_of_ne _ _ (Ne.symm hv.1), ih _ hv.2, List.append_assoc]
      rfl

/-- Inversion: a closed literal is the doubled form of its value and a quote. -/
theorem lex_literal_inv {a text : Bytes} {ts : List Token}
    (h : lex (.literal a) text = some ts) :
    ∃ v rest ts', text = doubled v ++ quote :: rest ∧ rest.head? ≠ some quote ∧
      lex (.code []) rest = some ts' ∧ ts = .literal (a ++ v) :: ts' := by
  -- a doubled quote takes two bytes of the text, so the induction is on the length
  induction hn : text.length using Nat.strong_induction_on generalizing a text with
  | _ n ih =>
      cases text with
      | nil => simp [lex] at h
      | cons b text =>
          by_cases hb : b = quote
          · subst hb
            cases text with
            | nil =>
                rw [lex_literal_close] at h
                cases h
                exact ⟨[], [], [], rfl, by simp, rfl, by simp⟩
            | cons c rest =>
                rw [lex_literal_quote] at h
                split at h
                · rename_i hc
                  subst hc
                  obtain ⟨v, r, ts', rfl, hr, hts', rfl⟩ :=
                    ih rest.length (by simp at hn; omega) h rfl
                  exact ⟨quote :: v, r, ts', by simp [doubled], hr, hts', by simp⟩
                · rename_i hc
                  obtain ⟨ts', hts', rfl⟩ := Option.map_eq_some_iff.mp h
                  exact ⟨[], c :: rest, ts', rfl, by simpa using hc, hts', by simp⟩
          · rw [lex_literal_of_ne _ _ hb] at h
            obtain ⟨v, r, ts', rfl, hr, hts', rfl⟩ := ih text.length (by simp at hn; omega) h rfl
            exact ⟨b :: v, r, ts', by simp [doubled, hb], hr, hts', by simp⟩

theorem lex_literal_open {text : Bytes} (h : quote ∉ text) (a : Bytes) :
    lex (.literal a) text = none := by
  rw [Option.eq_none_iff_forall_ne_some]
  intro ts hts
  obtain ⟨v, rest, -, htext, -⟩ := lex_literal_inv hts
  exact h (by simp [htext])

/-- Too many quotes in front: no value can be put between them and a single quote. -/
theorem quotes_doubled_ne (k : Nat) (v x y : Bytes) {c : UInt8} (hc : c ≠ quote) :
    List.replicate (k + 1) quote ++ (doubled v ++ quote :: x) ≠ v ++ quote :: c :: y := by
  induction v generalizing k with
  | nil =>
      intro h
      cases k with
      | zero =>
          simp only [doubled, List.replicate, List.nil_append, List.cons_append,
            List.cons.injEq, true_and] at h
          exact hc h.1.symm
      | succ k =>
          simp only [List.replicate_succ, List.cons_append, List.nil_append,
            List.cons.injEq, true_and] at h
          exact hc h.1.symm
  | cons b v ih =>
      intro h
      rw [List.replicate_succ, List.cons_append, List.cons_append, List.cons.injEq] at h
      rcases h with ⟨hb, h⟩
      rw [doubled, if_pos hb.symm] at h
      refine ih (k + 1) ?_
      rw [← h, List.replicate_add, List.replicate_add]
      simp [List.replicate]

/-- If a value between quotes reads back as itself, it has no quote. -/
theorem not_mem_of_doubled {v x y : Bytes} {c : UInt8} (hc : c ≠ quote)
    (h : doubled v ++ quote :: x = v ++ quote :: c :: y) : quote ∉ v := by
  induction v with
  | nil => simp
  | cons b v ih =>
      by_cases hb : b = quote
      · subst hb
        rw [doubled, if_pos rfl] at h
        simp only [List.cons_append, List.cons.injEq, true_and] at h
        exact absurd h (quotes_doubled_ne 0 v x y hc)
      · rw [doubled, if_neg hb] at h
        simp only [List.cons_append, List.cons.injEq, true_and] at h
        simp [ih h, Ne.symm hb]

/-! ## C strings

A driver that takes the text as a C string sees it up to the first NUL. -/

/-- The bytes of `text.c_str()`. -/
def cString (text : Bytes) : Bytes := text.takeWhile fun b => b != 0

theorem cString_subset (text : Bytes) : cString text ⊆ text := List.takeWhile_subset _

theorem cString_append {s : Bytes} (hs : 0 ∉ s) (t : Bytes) :
    cString (s ++ t) = s ++ cString t :=
  List.takeWhile_append_of_pos (bne_of_not_mem hs)

theorem cString_append_of_mem {s : Bytes} (hs : 0 ∈ s) (t : Bytes) :
    cString (s ++ t) = cString s := by
  induction s with
  | nil => cases hs
  | cons b s ih =>
      by_cases hb : b = 0
      · subst hb
        rfl
      · have hs' : 0 ∈ s := (List.mem_cons.mp hs).resolve_left (Ne.symm hb)
        have htail := congrArg (b :: ·) (ih hs')
        simpa [cString, hb] using htail

/-- A literal without a quote is not closed if its value has a NUL. -/
theorem lex_cString_literal_nul {v : Bytes} (hv : quote ∉ v) (h0 : 0 ∈ v) (tail : Bytes) :
    lex (.literal []) (cString (v ++ tail)) = none := by
  rw [cString_append_of_mem h0]
  exact lex_literal_open (fun h => hv (cString_subset v h)) []

theorem length_cString_append {s : Bytes} (hs : 0 ∈ s) (t : Bytes) :
    (cString (s ++ t)).length < s.length := by
  have hfront : cString s <+: s := List.takeWhile_prefix _
  have hne : cString s ≠ s := by
    intro heq
    have hall := List.takeWhile_eq_self_iff.mp heq 0 hs
    simp at hall
  rw [cString_append_of_mem hs]
  exact lt_of_le_of_ne hfront.length_le fun hlen => hne (hfront.eq_of_length hlen)

/-- A value that may stand between quotes as it is: no quote, and no NUL. -/
def Plain (v : Bytes) : Prop := quote ∉ v ∧ 0 ∉ v

instance (v : Bytes) : Decidable (Plain v) := inferInstanceAs (Decidable (_ ∧ _))

/-- A value put between quotes in a C string reads back as itself exactly when
it is plain. -/
theorem lex_cString_literal_iff (v tail : Bytes) {c : UInt8} (hq : c ≠ quote) (h0 : c ≠ 0)
    (ts : List Token) :
    lex (.literal []) (cString (v ++ quote :: c :: tail)) = some (.literal v :: ts) ↔
      Plain v ∧ lex (.code []) (c :: cString tail) = some ts := by
  have hclose : cString (quote :: c :: tail) = quote :: c :: cString tail := by
    simp [cString, h0, show quote ≠ 0 by decide]
  constructor
  · intro h
    obtain ⟨w, rest, ts', htext, -, hts', heq⟩ := lex_literal_inv h
    obtain ⟨hwv, rfl⟩ : v = w ∧ ts = ts' := by simpa using heq
    subst hwv
    have hnul : 0 ∉ v := by
      intro hm
      have hlt := length_cString_append hm (quote :: c :: tail)
      have hle := length_le_doubled v
      rw [htext, List.length_append] at hlt
      omega
    rw [cString_append hnul, hclose] at htext
    have hquote : quote ∉ v := not_mem_of_doubled hq htext.symm
    rw [doubled_eq_self hquote] at htext
    obtain rfl : c :: cString tail = rest := by simpa using htext
    exact ⟨⟨hquote, hnul⟩, hts'⟩
  · intro hplain
    rcases hplain with ⟨⟨hquote, hnul⟩, hts⟩
    rw [cString_append hnul, hclose, lex_literal _ _ _ hquote hq, hts]
    rfl

/-! ## Statements -/

inductive Statement
  | insert (keyspace table : Bytes) (first second : Bytes × Bytes)
  | delete (keyspace table : Bytes) (key : Bytes × Bytes)
  | select (column keyspace table : Bytes) (key : Bytes × Bytes)
deriving DecidableEq, Repr

def isKeyword (k : String) (w : Bytes) : Bool := iequals w (ascii k)

def isSymbols (s : String) (bs : Bytes) : Bool := bs == ascii s

/-- A single statement, ended by its semicolon. -/
def parse : List Token → Option Statement
  | [.word k₁, .word k₂, .word ks, .symbol s₁, .word t, .symbol s₂, .word c₁, .symbol s₃,
      .word c₂, .symbol s₄, .word k₃, .symbol s₅, .literal v₁, .symbol s₆, .literal v₂,
      .symbol s₇, .symbol s₈] =>
      if isKeyword "INSERT" k₁ && isKeyword "INTO" k₂ && isKeyword "VALUES" k₃ &&
          isSymbols ".(,)(,);" [s₁, s₂, s₃, s₄, s₅, s₆, s₇, s₈] then
        some (.insert ks t (c₁, v₁) (c₂, v₂))
      else none
  | [.word k₁, .word k₂, .word ks, .symbol s₁, .word t, .word k₃, .word c, .symbol s₂,
      .literal v, .symbol s₃] =>
      if isKeyword "DELETE" k₁ && isKeyword "FROM" k₂ && isKeyword "WHERE" k₃ &&
          isSymbols ".=;" [s₁, s₂, s₃] then
        some (.delete ks t (c, v))
      else none
  | [.word k₁, .word col, .word k₂, .word ks, .symbol s₁, .word t, .word k₃, .word c,
      .symbol s₂, .literal v, .symbol s₃] =>
      if isKeyword "SELECT" k₁ && isKeyword "FROM" k₂ && isKeyword "WHERE" k₃ &&
          isSymbols ".=;" [s₁, s₂, s₃] then
        some (.select col ks t (c, v))
      else none
  | _ => none

def readStatement (text : Bytes) : Option Statement := (lex (.code []) text).bind parse

theorem isSymbols_iff {s : String} {bs : Bytes} : isSymbols s bs = true ↔ bs = ascii s := by
  simp [isSymbols]

/-- The tokens of a statement, with its keywords as they are spelled. -/
def Statement.tokens (k₁ k₂ k₃ : Bytes) : Statement → List Token
  | .insert ks t (c₁, v₁) (c₂, v₂) => [.word k₁, .word k₂, .word ks, .symbol 46, .word t,
      .symbol 40, .word c₁, .symbol 44, .word c₂, .symbol 41, .word k₃, .symbol 40, .literal v₁,
      .symbol 44, .literal v₂, .symbol 41, .symbol 59]
  | .delete ks t (c, v) => [.word k₁, .word k₂, .word ks, .symbol 46, .word t, .word k₃, .word c,
      .symbol 61, .literal v, .symbol 59]
  | .select col ks t (c, v) => [.word k₁, .word col, .word k₂, .word ks, .symbol 46, .word t,
      .word k₃, .word c, .symbol 61, .literal v, .symbol 59]

/-- Inversion: only the spelling of the keywords is left open. -/
theorem parse_eq_some {ts : List Token} {st : Statement} (h : parse ts = some st) :
    ∃ k₁ k₂ k₃, ts = st.tokens k₁ k₂ k₃ := by
  have hinsert : ascii ".(,)(,);" = [46, 40, 44, 41, 40, 44, 41, 59] := by decide
  have hkeyed : ascii ".=;" = [46, 61, 59] := by decide
  unfold parse at h
  split at h
  all_goals try split at h
  all_goals cases h
  · rename_i k₁ k₂ _ _ _ _ _ _ _ _ k₃ _ _ _ _ _ _ hc
    simp only [Bool.and_eq_true, isSymbols_iff, hinsert, List.cons.injEq, and_true] at hc
    rcases hc with ⟨-, hs⟩
    rcases hs with ⟨rfl, rfl, rfl, rfl, rfl, rfl, rfl, rfl⟩
    exact ⟨k₁, k₂, k₃, rfl⟩
  · rename_i k₁ k₂ _ _ _ k₃ _ _ _ _ hc
    simp only [Bool.and_eq_true, isSymbols_iff, hkeyed, List.cons.injEq, and_true] at hc
    rcases hc with ⟨-, hs⟩
    rcases hs with ⟨rfl, rfl, rfl⟩
    exact ⟨k₁, k₂, k₃, rfl⟩
  · rename_i k₁ _ k₂ _ _ _ k₃ _ _ _ _ hc
    simp only [Bool.and_eq_true, isSymbols_iff, hkeyed, List.cons.injEq, and_true] at hc
    rcases hc with ⟨-, hs⟩
    rcases hs with ⟨rfl, rfl, rfl⟩
    exact ⟨k₁, k₂, k₃, rfl⟩

end WsGateway.Lib.Cql
