import WsGateway.Lib.Bytes

/-!
# Reading from a string

The part of the C++ string library that a stream-based text parser uses: an
input string stream with its eofbit and failbit, formatted and unformatted
reads, and the searches and conversions on strings. Each read has a rule that
says what it takes from a text of the expected form.
-/

namespace WsGateway.Lib.Stream

/-- The exceptions of the standard library that string operations throw. -/
inductive StdException
  | invalidArgument
  | outOfRange
  | lengthError
deriving DecidableEq, Repr

/-- A computation that throws nothing goes through its first part. -/
theorem bind_eq_ok {ε α β : Type*} {x : Except ε α} {f : α → Except ε β} {b : β} :
    x.bind f = .ok b ↔ ∃ a, x = .ok a ∧ f a = .ok b := by
  cases x with
  | error e => simp [Except.bind]
  | ok a => simp [Except.bind]

/-- What is left of the text, and the two error flags. -/
structure IStream where
  rest : Bytes
  eof : Bool
  fail : Bool
deriving DecidableEq, Repr

def IStream.ofString (text : Bytes) : IStream := ⟨text, false, false⟩

def IStream.good (s : IStream) : Bool := !s.eof && !s.fail

/-- What every read does to a stream that is not good. -/
def IStream.refuse (s : IStream) : IStream := { s with fail := true }

/-! ## Words -/

/-- `stream >> word`, for a `word` that is empty before. -/
def IStream.extract (s : IStream) : Bytes × IStream :=
  if s.good then
    let text := s.rest.dropWhile isSpace
    if text = [] then ([], ⟨[], true, true⟩)
    else
      let rest := text.dropWhile fun b => !isSpace b
      (text.takeWhile fun b => !isSpace b, ⟨rest, rest.isEmpty, false⟩)
  else ([], s.refuse)

theorem not_isSpace_of_mem_extract {s : IStream} {b : UInt8} (h : b ∈ s.extract.1) :
    isSpace b = false := by
  unfold IStream.extract at h
  split at h
  · dsimp only at h
    split at h
    · cases h
    · simpa using List.mem_takeWhile_imp h
  · cases h

theorem extract_lineFree (s : IStream) : LineFree s.extract.1 :=
  .of_not_isSpace fun _ hb => not_isSpace_of_mem_extract hb

/-! ## Words of a text -/

def firstWord (text : Bytes) : Bytes := (text.dropWhile isSpace).takeWhile fun b => !isSpace b

def afterWord (text : Bytes) : Bytes := (text.dropWhile isSpace).dropWhile fun b => !isSpace b

theorem afterWord_suffix (text : Bytes) : afterWord text <:+ text :=
  (List.dropWhile_suffix _).trans (List.dropWhile_suffix _)

theorem extract_ofString (text : Bytes) :
    (IStream.ofString text).extract =
      (firstWord text, if afterWord text = [] then ⟨[], true, (firstWord text).isEmpty⟩
        else IStream.ofString (afterWord text)) := by
  cases htext : text.dropWhile isSpace with
  | nil => simp [IStream.extract, IStream.ofString, IStream.good, firstWord, afterWord, htext]
  | cons b rest =>
      have hb : isSpace b = false := by
        have hhead := List.head?_dropWhile_not isSpace text
        rw [htext] at hhead
        simpa using hhead
      cases hrest : rest.dropWhile fun b => !isSpace b with
      | nil => simp [IStream.extract, IStream.ofString, IStream.good, firstWord, afterWord,
          htext, hb, hrest]
      | cons c rest' => simp [IStream.extract, IStream.ofString, IStream.good, firstWord,
          afterWord, htext, hb, hrest]

theorem firstWord_append {text : Bytes} (h : firstWord text ≠ []) {c : UInt8}
    (hc : isSpace c = true) (rest : Bytes) :
    firstWord (text ++ c :: rest) = firstWord text ∧
      afterWord (text ++ c :: rest) = afterWord text ++ c :: rest := by
  have hne : text.dropWhile isSpace ≠ [] := by
    intro hnil
    simp [firstWord, hnil] at h
  have hdrop : (text ++ c :: rest).dropWhile isSpace = text.dropWhile isSpace ++ c :: rest := by
    rw [List.dropWhile_append, if_neg (by simpa using hne)]
  refine ⟨?_, ?_⟩
  · rw [firstWord, hdrop, List.takeWhile_append]
    split
    · rename_i hlen
      have hword : text.dropWhile isSpace = firstWord text :=
        ((List.takeWhile_prefix _).eq_of_length hlen).symm
      simpa [hc] using hword
    · rfl
  · rw [afterWord, hdrop, List.dropWhile_append]
    split
    · rename_i hnil
      have hnil' : afterWord text = [] := by simpa [afterWord] using hnil
      simp [hnil', hc]
    · rfl

theorem firstWord_blank {text : Bytes} (h : firstWord text = []) (rest : Bytes) :
    firstWord (text ++ rest) = firstWord rest ∧ afterWord (text ++ rest) = afterWord rest := by
  have hall : text.dropWhile isSpace = [] := by
    cases htext : text.dropWhile isSpace with
    | nil => rfl
    | cons b t =>
        have hhead := List.head?_dropWhile_not isSpace text
        rw [htext] at hhead
        have hb : isSpace b = false := by simpa using hhead
        simp [firstWord, htext, hb] at h
  have hdrop : (text ++ rest).dropWhile isSpace = rest.dropWhile isSpace := by
    rw [List.dropWhile_append, hall]
    rfl
  rw [firstWord, afterWord, hdrop]
  exact ⟨rfl, rfl⟩

theorem extract_step (text : Bytes) {s : IStream}
    (h : s = IStream.ofString text ∨ (text = [] ∧ s.rest = [] ∧ s.eof = true)) :
    s.extract.1 = firstWord text ∧
      (s.extract.2 = IStream.ofString (afterWord text) ∨
        (afterWord text = [] ∧ s.extract.2.rest = [] ∧ s.extract.2.eof = true)) := by
  rcases h with heq | ⟨htext, hrest, heof⟩
  · subst heq
    rw [extract_ofString]
    refine ⟨rfl, ?_⟩
    dsimp only
    split
    · rename_i hnil
      exact .inr ⟨hnil, rfl, rfl⟩
    · exact .inl rfl
  · subst htext
    have hrefuse : s.extract = ([], s.refuse) := by
      simp [IStream.extract, IStream.good, heof]
    rw [hrefuse]
    exact ⟨rfl, .inr ⟨rfl, hrest, heof⟩⟩

def HasWords : Nat → Bytes → Prop
  | 0, _ => True
  | k + 1, text => firstWord text ≠ [] ∧ HasWords k (afterWord text)

instance HasWords.decidable : (k : Nat) → (text : Bytes) → Decidable (HasWords k text)
  | 0, _ => .isTrue trivial
  | k + 1, text =>
      have := HasWords.decidable k (afterWord text)
      inferInstanceAs (Decidable (_ ∧ _))

/-! ## Lines -/

/-- `getline(stream, token, delimiter)`: the token if the stream is not failed after it. -/
def IStream.getlineAt (delimiter : UInt8) (s : IStream) : Option Bytes × IStream :=
  if s.good then
    if s.rest = [] then (none, ⟨[], true, true⟩)
    else
      let token := s.rest.takeWhile fun b => b != delimiter
      match s.rest.dropWhile fun b => b != delimiter with
      | [] => (some token, ⟨[], true, false⟩)
      | _ :: rest => (some token, ⟨rest, false, false⟩)
  else (none, s.refuse)

/-- A token that was read stands in front of what is left, with the delimiter between
them unless nothing is left. -/
theorem getlineAt_eq_some {delimiter : UInt8} {s s' : IStream} {token : Bytes}
    (h : s.getlineAt delimiter = (some token, s')) :
    s.rest ≠ [] ∧
      ((s.rest = token ∧ s'.rest = []) ∨ s.rest = token ++ delimiter :: s'.rest) := by
  unfold IStream.getlineAt at h
  split at h
  · split at h
    · cases h
    · rename_i hne
      refine ⟨hne, ?_⟩
      have hsplit := List.takeWhile_append_dropWhile (p := fun b => b != delimiter) (l := s.rest)
      dsimp only at h
      split at h
      · rename_i hrest
        cases h
        rw [hrest, List.append_nil] at hsplit
        exact .inl ⟨hsplit.symm, rfl⟩
      · rename_i b rest hrest
        cases h
        have hhead := List.head?_dropWhile_not (fun b => b != delimiter) s.rest
        rw [hrest] at hhead
        have hb : b = delimiter := by simpa using hhead
        rw [hrest, hb] at hsplit
        exact .inr hsplit.symm
  · cases h

theorem getlineAt_length_lt {delimiter : UInt8} {s s' : IStream} {token : Bytes}
    (h : s.getlineAt delimiter = (some token, s')) : s'.rest.length < s.rest.length := by
  obtain ⟨hne, ⟨-, hrest⟩ | hrest⟩ := getlineAt_eq_some h
  · rw [hrest]
    exact List.length_pos_of_ne_nil hne
  · rw [hrest, List.length_append, List.length_cons]
    omega

theorem getlineAt_length_le {delimiter : UInt8} {s s' : IStream} {token : Bytes}
    (h : s.getlineAt delimiter = (some token, s')) : token.length ≤ s.rest.length := by
  obtain ⟨-, ⟨hrest, -⟩ | hrest⟩ := getlineAt_eq_some h
  · rw [hrest]
  · rw [hrest, List.length_append]
    omega

theorem getlineAt_suffix (delimiter : UInt8) (s : IStream) :
    (s.getlineAt delimiter).2.rest <:+ s.rest := by
  unfold IStream.getlineAt
  split
  · split
    · exact List.nil_suffix
    · dsimp only
      split
      · exact List.nil_suffix
      · rename_i b rest hrest
        have hsuffix := List.dropWhile_suffix (l := s.rest) fun b => b != delimiter
        rw [hrest] at hsuffix
        exact (List.suffix_cons b rest).trans hsuffix
  · exact List.suffix_refl _

theorem getlineAt_token {delimiter : UInt8} {token rest : Bytes} (h : delimiter ∉ token) :
    (IStream.ofString (token ++ delimiter :: rest)).getlineAt delimiter =
      (some token, IStream.ofString rest) := by
  have hall := bne_of_not_mem h
  have htake : (token ++ delimiter :: rest).takeWhile (fun b => b != delimiter) = token := by
    rw [List.takeWhile_append_of_pos hall]
    simp
  have hdrop : (token ++ delimiter :: rest).dropWhile (fun b => b != delimiter) =
      delimiter :: rest := by
    rw [List.dropWhile_append_of_pos hall]
    simp
  simp [IStream.getlineAt, IStream.ofString, IStream.good, htake, hdrop]

theorem getlineAt_last {delimiter : UInt8} {token : Bytes} (h : delimiter ∉ token)
    (hne : token ≠ []) :
    (IStream.ofString token).getlineAt delimiter = (some token, ⟨[], true, false⟩) := by
  have hall := bne_of_not_mem h
  have htake : token.takeWhile (fun b => b != delimiter) = token :=
    List.takeWhile_eq_self_iff.mpr hall
  have hdrop : token.dropWhile (fun b => b != delimiter) = [] :=
    List.dropWhile_eq_nil_iff.mpr hall
  simp [IStream.getlineAt, IStream.ofString, IStream.good, hne, htake, hdrop]

/-- `getline(stream, line)`: a line is a token that LF ends. -/
def IStream.getline (s : IStream) : Option Bytes × IStream := s.getlineAt lf

theorem getline_length_lt {s s' : IStream} {line : Bytes} (h : s.getline = (some line, s')) :
    s'.rest.length < s.rest.length := getlineAt_length_lt h

theorem getline_length_le {s s' : IStream} {line : Bytes} (h : s.getline = (some line, s')) :
    line.length ≤ s.rest.length := getlineAt_length_le h

theorem getline_suffix (s : IStream) : s.getline.2.rest <:+ s.rest := getlineAt_suffix lf s

theorem getline_line {line rest : Bytes} (h : lf ∉ line) :
    (IStream.ofString (line ++ lf :: rest)).getline = (some line, IStream.ofString rest) :=
  getlineAt_token h

theorem getline_last {line : Bytes} (h : lf ∉ line) (hne : line ≠ []) :
    (IStream.ofString line).getline = (some line, ⟨[], true, false⟩) :=
  getlineAt_last h hne

def afterLine (text : Bytes) : Bytes := (text.dropWhile fun b => b != lf).drop 1

theorem afterLine_line {line : Bytes} (h : lf ∉ line) (rest : Bytes) :
    afterLine (line ++ lf :: rest) = rest := by
  have hall := bne_of_not_mem h
  rw [afterLine, List.dropWhile_append_of_pos hall]
  simp

theorem token_cases (delimiter : UInt8) (text : Bytes) :
    delimiter ∉ text ∨
      ∃ token rest, delimiter ∉ token ∧ text = token ++ delimiter :: rest := by
  by_cases h : delimiter ∈ text
  · obtain ⟨token, rest, htext, htoken⟩ := List.eq_append_cons_of_mem h
    exact .inr ⟨token, rest, htoken, htext⟩
  · exact .inl h

theorem line_cases (text : Bytes) :
    lf ∉ text ∨ ∃ line rest, lf ∉ line ∧ text = line ++ lf :: rest := token_cases lf text

theorem token_induction (delimiter : UInt8) {motive : Bytes → Prop}
    (last : ∀ token, delimiter ∉ token → motive token)
    (token : ∀ token rest, delimiter ∉ token → motive rest → motive (token ++ delimiter :: rest))
    (text : Bytes) : motive text := by
  induction hn : text.length using Nat.strong_induction_on generalizing text with
  | _ n ih =>
      rcases token_cases delimiter text with hlast | ⟨first, rest, hfirst, rfl⟩
      · exact last text hlast
      · refine token first rest hfirst (ih rest.length ?_ rest rfl)
        rw [List.length_append, List.length_cons] at hn
        omega

/-! ## Blocks -/

/-- `stream.read(&buffer[0], buffer.size())`: the buffer after it. -/
def IStream.read (s : IStream) (buffer : Bytes) : Bytes × IStream :=
  if s.good then
    let got := s.rest.take buffer.length
    if got.length < buffer.length then (got ++ buffer.drop got.length, ⟨[], true, true⟩)
    else (got, { s with rest := s.rest.drop buffer.length })
  else (buffer, s.refuse)

@[simp] theorem length_read (s : IStream) (buffer : Bytes) :
    (s.read buffer).1.length = buffer.length := by
  unfold IStream.read
  split
  · dsimp only
    split
    · rename_i hlt
      rw [List.length_append, List.length_drop]
      omega
    · rename_i hge
      rw [List.length_take] at hge ⊢
      omega
  · rfl

theorem read_take {text buffer : Bytes} (h : buffer.length ≤ text.length) :
    ((IStream.ofString text).read buffer).1 = text.take buffer.length := by
  have hmin : ¬ min buffer.length text.length < buffer.length := by omega
  simp [IStream.read, IStream.ofString, IStream.good, hmin]

/-- A block that is not empty begins with the first byte of the text. -/
theorem head?_read (c : UInt8) (text buffer : Bytes) (h : buffer ≠ []) :
    ((IStream.ofString (c :: text)).read buffer).1.head? = some c := by
  obtain ⟨b, buffer, rfl⟩ := List.exists_cons_of_ne_nil h
  have hgood : (IStream.ofString (c :: text)).good = true := rfl
  rw [IStream.read, if_pos hgood]
  dsimp only
  split <;> simp [IStream.ofString]

/-! ## Streams at their end -/

/-- A stream that is not good has nothing left. -/
def IStream.Clean (s : IStream) : Prop := s.good = false → s.rest = []

theorem clean_ofString (text : Bytes) : (IStream.ofString text).Clean := by
  intro h
  cases h

theorem extract_suffix (s : IStream) : s.extract.2.rest <:+ s.rest := by
  unfold IStream.extract
  split
  · dsimp only
    split
    · exact List.nil_suffix
    · exact (List.dropWhile_suffix _).trans (List.dropWhile_suffix _)
  · exact List.suffix_refl _

theorem getline_clean {s : IStream} (h : s.Clean) :
    s.getline.2.Clean ∧ s.getline.2.rest <:+ s.rest := by
  refine ⟨?_, getline_suffix s⟩
  unfold IStream.getline IStream.getlineAt
  split
  · split
    · exact fun _ => rfl
    · dsimp only
      split
      · exact fun _ => rfl
      · exact clean_ofString _
  · rename_i hgood
    exact fun _ => h (by simpa using hgood)

theorem read_prefix_iff {s : IStream} (h : s.Clean) (n : Nat) (b : UInt8) :
    (s.read (List.replicate n b)).1 <+: s.rest ↔ n ≤ s.rest.length := by
  constructor
  · intro hprefix
    have hlen := hprefix.length_le
    rwa [length_read, List.length_replicate] at hlen
  · intro hn
    unfold IStream.read
    split
    · dsimp only
      rw [if_neg (by simpa using hn)]
      exact List.take_prefix _ _
    · rename_i hgood
      rw [h (by simpa using hgood)] at hn ⊢
      have hzero : n = 0 := by simpa using hn
      subst hzero
      exact List.prefix_refl _

/-! ## Searches -/

/-- `std::string::npos`. -/
def npos : Nat := 2 ^ 64 - 1

/-- `text.find(pattern)`; `none` is `npos`. -/
def find (pattern : Bytes) : Bytes → Option Nat
  | [] => if pattern = [] then some 0 else none
  | b :: text =>
      if pattern.isPrefixOf (b :: text) then some 0 else (find pattern text).map (· + 1)

theorem find_of_not_mem {name pattern : Bytes} {c : UInt8} (h : c ∉ name) :
    find (c :: pattern) (name ++ c :: pattern) = some name.length := by
  induction name with
  | nil => simp [find]
  | cons b name ih =>
      rw [List.mem_cons, not_or] at h
      have hnot : ¬ (c :: pattern) <+: b :: (name ++ c :: pattern) := by
        rw [List.cons_prefix_cons]
        exact fun hp => h.1 hp.1
      simp only [List.cons_append, find, List.isPrefixOf_iff_prefix, if_neg hnot, ih h.2]
      simp

/-- What follows the first occurrence does not matter. -/
theorem find_extend {name pattern : Bytes}
    (h : find pattern (name ++ pattern) = some name.length) (rest : Bytes) :
    find pattern (name ++ pattern ++ rest) = some name.length := by
  induction name with
  | nil =>
      cases pattern with
      | nil => cases rest <;> simp [find]
      | cons c pattern => simp [find]
  | cons b name ih =>
      have hlen : pattern.length ≤ (b :: (name ++ pattern)).length := by
        simp only [List.length_cons, List.length_append]
        omega
      simp only [List.cons_append, find, List.isPrefixOf_iff_prefix] at h ⊢
      split at h
      · simp at h
      · rename_i hnot
        have hnot' : ¬ pattern <+: b :: (name ++ pattern ++ rest) := fun hp =>
          hnot (List.prefix_of_prefix_length_le hp
            (List.prefix_append (b :: (name ++ pattern)) rest) hlen)
        have hfind : find pattern (name ++ pattern) = some name.length := by
          simpa using h
        rw [if_neg hnot', ih hfind]
        rfl

theorem find_le {pattern text : Bytes} {n : Nat} (h : find pattern text = some n) :
    n + pattern.length ≤ text.length := by
  induction text generalizing n with
  | nil =>
      simp only [find] at h
      split at h
      · rename_i hnil
        cases h
        simp [hnil]
      · cases h
  | cons b text ih =>
      simp only [find, List.isPrefixOf_iff_prefix] at h
      split at h
      · rename_i hprefix
        cases h
        simpa using hprefix.length_le
      · obtain ⟨m, hm, rfl⟩ := Option.map_eq_some_iff.mp h
        have hle := ih hm
        rw [List.length_cons]
        omega

def cut (separator text : Bytes) : Option (Bytes × Bytes) :=
  (find separator text).map fun n => (text.take n, text.drop (n + separator.length))

theorem cut_of_find {s separator : Bytes}
    (h : find separator (s ++ separator) = some s.length) (rest : Bytes) :
    cut separator (s ++ (separator ++ rest)) = some (s, rest) := by
  have hfind := find_extend h rest
  rw [List.append_assoc] at hfind
  have hdrop : (s ++ (separator ++ rest)).drop (s.length + separator.length) = rest := by
    rw [← List.append_assoc, ← List.length_append, List.drop_left]
  rw [cut, hfind, Option.map_some, List.take_left, hdrop]

theorem cut_of_not_mem {s separator : Bytes} {c : UInt8} (h : c ∉ s) (rest : Bytes) :
    cut (c :: separator) (s ++ c :: (separator ++ rest)) = some (s, rest) :=
  cut_of_find (find_of_not_mem h) rest

theorem length_cut_lt {separator text before behind : Bytes} (hne : separator ≠ [])
    (h : cut separator text = some (before, behind)) : behind.length < text.length := by
  obtain ⟨n, hn, heq⟩ := Option.map_eq_some_iff.mp h
  cases heq
  have hle := find_le hn
  have hpos := List.length_pos_of_ne_nil hne
  rw [List.length_drop]
  omega

/-- Subtraction of sizes, which wraps around at zero. -/
def sizeSub (a b : Nat) : Nat := if b ≤ a then a - b else 2 ^ 64 + a - b

theorem sizeSub_add (a b : Nat) : sizeSub (a + b) a = b := by
  rw [sizeSub, if_pos (by omega)]
  omega

/-- `text.substr(pos, count)`. -/
def substr (text : Bytes) (pos count : Nat) : Except StdException Bytes :=
  if pos ≤ text.length then .ok ((text.drop pos).take count) else .error .outOfRange

theorem substr_ok {text : Bytes} {pos count : Nat} (h : pos ≤ text.length) :
    substr text pos count = .ok ((text.drop pos).take count) := if_pos h

/-! ## Numbers -/

/-- What follows whitespace and a sign. -/
def afterSign (text : Bytes) : Bytes :=
  let text := text.dropWhile isSpace
  if text.head? = some 45 ∨ text.head? = some 43 then text.tail else text

/-- The integer at the front of the text, and what follows it. -/
def readInt (text : Bytes) : Option (Int × Bytes) :=
  let digits := (afterSign text).takeWhile isDigit
  if digits = [] then none
  else some (if (text.dropWhile isSpace).head? = some 45 then -(digitsValue digits)
      else digitsValue digits, (afterSign text).dropWhile isDigit)

/-- `std::strtol(text, &end, 10)`: the value, brought into the range of 64 bits, and the
text from `end` on. -/
def strtol (text : Bytes) : Int × Bytes :=
  match readInt text with
  | none => (0, text)
  | some (n, rest) => (max (-2 ^ 63) (min n (2 ^ 63 - 1)), rest)

theorem readInt_digits {text : Bytes} (hne : text ≠ []) (hdigits : ∀ b ∈ text, isDigit b = true) :
    readInt text = some ((digitsValue text : Int), []) := by
  obtain ⟨b, s, hs⟩ := List.exists_cons_of_ne_nil hne
  have hb : isDigit b = true := hdigits b (by simp [hs])
  have hdrop : text.dropWhile isSpace = text := by simp [hs, not_isSpace_of_isDigit hb]
  have htake : text.takeWhile isDigit = text := List.takeWhile_eq_self_iff.mpr hdigits
  have hrest : text.dropWhile isDigit = [] := List.dropWhile_eq_nil_iff.mpr hdigits
  have hsign {c : UInt8} (hc : isDigit c = false) : text.head? ≠ some c := by
    rw [hs, List.head?_cons, ne_eq, Option.some.injEq]
    intro heq
    subst heq
    rw [hb] at hc
    cases hc
  have hminus : text.head? ≠ some 45 := hsign (by decide)
  have hplus : text.head? ≠ some 43 := hsign (by decide)
  simp only [readInt, afterSign, hdrop, hminus, hplus, or_self, if_false, htake, hne, hrest]

theorem not_mem_of_readInt {text : Bytes} {n : Int} (h : readInt text = some (n, [])) {c : UInt8}
    (hspace : isSpace c = false) (hminus : c ≠ 45) (hplus : c ≠ 43) (hdigit : isDigit c = false) :
    c ∉ text := by
  intro hc
  have hdrop : c ∈ text.dropWhile isSpace := mem_dropWhile hc hspace
  have hsigned : c ∈ afterSign text := by
    unfold afterSign
    dsimp only
    split
    · rename_i hsign
      cases hs : text.dropWhile isSpace with
      | nil =>
          rw [hs] at hdrop
          cases hdrop
      | cons b rest =>
          rw [hs] at hdrop hsign
          simp only [List.head?_cons, Option.some.injEq] at hsign
          rcases List.mem_cons.mp hdrop with heq | hrest
          · rw [heq] at hminus hplus
            rcases hsign with hb | hb
            · exact absurd hb hminus
            · exact absurd hb hplus
          · exact hrest
    · exact hdrop
  have hrest := mem_dropWhile hsigned hdigit
  unfold readInt at h
  dsimp only at h
  split at h
  · cases h
  · rw [(Prod.mk.inj (Option.some.inj h)).2] at hrest
    cases hrest

/-! The casts of an integer to an unsigned type. -/

theorem toNat_uint8 (n : Int) : (UInt8.ofInt n).toNat = (n % 2 ^ 8).toNat := by
  rw [UInt8.ofInt, UInt8.toNat_ofNat']
  omega

theorem toNat_uint32 (n : Int) : (UInt32.ofInt n).toNat = (n % 2 ^ 32).toNat := by
  rw [UInt32.ofInt, UInt32.toNat_ofNat']
  omega

theorem toNat_uint16 (n : Int) : (UInt16.ofInt n).toNat = (n % 2 ^ 16).toNat := by
  rw [UInt16.ofInt, UInt16.toNat_ofNat']
  omega

/-- `std::stoi(text)`. -/
def stoi (text : Bytes) : Except StdException Int :=
  let text := text.dropWhile isSpace
  let negative := text.head? = some 45
  let text := if negative ∨ text.head? = some 43 then text.tail else text
  let digits := text.takeWhile isDigit
  if digits = [] then .error .invalidArgument
  else
    let value : Int := if negative then -(digitsValue digits) else digitsValue digits
    if -2 ^ 31 ≤ value ∧ value < 2 ^ 31 then .ok value else .error .outOfRange

theorem stoi_eq (text : Bytes) : stoi text =
    match readInt text with
    | none => .error .invalidArgument
    | some (n, _) => if -2 ^ 31 ≤ n ∧ n < 2 ^ 31 then .ok n else .error .outOfRange := by
  unfold stoi readInt afterSign
  dsimp only
  -- the sign first, then whether there is a digit
  split
  · split <;> rfl
  · split <;> rfl

theorem stoi_append {w : Bytes} (h : ∀ b ∈ w, isBlank b = true) (s : Bytes) :
    stoi (w ++ s) = stoi s := by
  have hspace : ∀ b ∈ w, isSpace b = true := by
    intro b hb
    by_contra hspace
    rw [Bool.not_eq_true] at hspace
    exact absurd (h b hb) (by rw [isBlank_le_isSpace hspace]; simp)
  rw [stoi, List.dropWhile_append_of_pos hspace, stoi]

theorem stoi_digits {text : Bytes} (hne : text ≠ []) (hdigits : ∀ b ∈ text, isDigit b = true)
    (h : digitsValue text < 2 ^ 31) : stoi text = .ok (digitsValue text : Int) := by
  have hrange : (-2 ^ 31 : Int) ≤ digitsValue text ∧ (digitsValue text : Int) < 2 ^ 31 := by
    omega
  rw [stoi_eq, readInt_digits hne hdigits]
  exact if_pos hrange

theorem stoi_decimal {n : Nat} (h : n < 2 ^ 31) : stoi (decimal n) = .ok n := by
  have hvalue := digitsValue_decimal n
  have hread := stoi_digits (decimal_ne_nil n) (fun b hb => isDigit_of_mem_decimal hb)
    (by omega)
  rwa [hvalue] at hread

end WsGateway.Lib.Stream
