import Mathlib.Data.List.DropRight
import Mathlib.Data.Nat.Digits.Defs

/-!
# Byte strings

C++ strings are lists of bytes. The character classes are those of the C
locale; case is ASCII case; a blank is a space or a tab, the optional
whitespace of an HTTP field.
-/

namespace WsGateway.Lib

abbrev Bytes := List UInt8

def ascii (s : String) : Bytes := s.toList.map fun c => c.toNat.toUInt8

def cr : UInt8 := 13
def lf : UInt8 := 10
def colon : UInt8 := 58
def sp : UInt8 := 32

def crlf : Bytes := [cr, lf]

/-- The scan for a byte passes over a string without it. -/
theorem bne_of_not_mem {c : UInt8} {s : Bytes} (h : c ∉ s) : ∀ b ∈ s, (b != c) = true :=
  fun _ hb => bne_iff_ne.mpr (ne_of_mem_of_not_mem hb h)

/-! ## Line ends -/

/-- Neither CR nor LF occurs: `find_first_of("\r\n") == npos`. -/
def LineFree (s : Bytes) : Prop := cr ∉ s ∧ lf ∉ s

instance (s : Bytes) : Decidable (LineFree s) := inferInstanceAs (Decidable (_ ∧ _))

theorem lineFree_append {s t : Bytes} : LineFree (s ++ t) ↔ LineFree s ∧ LineFree t := by
  simp only [LineFree, List.mem_append]
  tauto

theorem lineFree_cons {b : UInt8} (hb : b ≠ cr ∧ b ≠ lf) {s : Bytes} :
    LineFree (b :: s) ↔ LineFree s := by
  simp only [LineFree, List.mem_cons, hb.1.symm, hb.2.symm, false_or]

theorem LineFree.field {name value : Bytes} (hn : LineFree name) (hv : LineFree value) :
    LineFree (name ++ colon :: sp :: value) := by
  refine lineFree_append.mpr ⟨hn, ?_⟩
  rw [lineFree_cons (by decide), lineFree_cons (by decide)]
  exact hv

theorem LineFree.of_subset {s t : Bytes} (h : LineFree t) (hs : s ⊆ t) : LineFree s :=
  ⟨fun hc => h.1 (hs hc), fun hl => h.2 (hs hl)⟩

/-! ## Character classes -/

/-- `isspace` of the C locale. -/
def isSpace (b : UInt8) : Bool := b == 32 || (9 ≤ b && b ≤ 13)

/-- A blank of an HTTP field: space or horizontal tab. -/
def isBlank (b : UInt8) : Bool := b == 32 || b == 9

def isDigit (b : UInt8) : Bool := 48 ≤ b && b ≤ 57

theorem isDigit_iff_toNat {b : UInt8} : isDigit b = true ↔ 48 ≤ b.toNat ∧ b.toNat ≤ 57 := by
  simp only [isDigit, Bool.and_eq_true, decide_eq_true_eq, UInt8.le_iff_toNat_le]
  rfl

theorem isSpace_cr : isSpace cr = true := by decide

theorem isSpace_lf : isSpace lf = true := by decide

theorem isSpace_sp : isSpace sp = true := by decide

def Word (s : Bytes) : Prop := s ≠ [] ∧ ∀ b ∈ s, isSpace b = false

instance (s : Bytes) : Decidable (Word s) :=
  decidable_of_iff (s ≠ [] ∧ (s.all fun b => !isSpace b) = true) (by simp [Word])

theorem LineFree.of_not_isSpace {s : Bytes} (h : ∀ b ∈ s, isSpace b = false) : LineFree s := by
  constructor
  · intro hc
    simpa [isSpace_cr] using h cr hc
  · intro hl
    simpa [isSpace_lf] using h lf hl

/-! ## Case-insensitive equality -/

def toLower (b : UInt8) : UInt8 := if 65 ≤ b && b ≤ 90 then b + 32 else b

def iequals (s t : Bytes) : Bool := s.map toLower == t.map toLower

@[simp] theorem iequals_iff {s t : Bytes} :
    iequals s t = true ↔ s.map toLower = t.map toLower := by simp [iequals]

theorem iequals_refl (s : Bytes) : iequals s s = true := by simp

theorem iequals_comm (s t : Bytes) : iequals s t = iequals t s := by
  rw [Bool.eq_iff_iff, iequals_iff, iequals_iff]
  exact eq_comm

theorem iequals_trans {s t u : Bytes} (h₁ : iequals s t = true) (h₂ : iequals t u = true) :
    iequals s u = true := by
  rw [iequals_iff] at *
  exact h₁.trans h₂

theorem iequals_congr {s t : Bytes} (h : iequals s t = true) (u : Bytes) :
    iequals s u = iequals t u := by
  rw [iequals_iff] at h
  simp [iequals, h]

/-! ## Trimming -/

def trim (s : Bytes) : Bytes := (s.dropWhile isBlank).rdropWhile isBlank

def Trimmed (s : Bytes) : Prop := trim s = s

instance (s : Bytes) : Decidable (Trimmed s) := inferInstanceAs (Decidable (_ = _))

theorem trim_subset (s : Bytes) : trim s ⊆ s := fun _ hb =>
  (List.dropWhile_suffix isBlank).subset ((List.rdropWhile_prefix isBlank _).subset hb)

theorem mem_dropWhile {p : UInt8 → Bool} {s : Bytes} {b : UInt8} (h : b ∈ s) (hb : p b = false) :
    b ∈ s.dropWhile p := by
  rw [← List.takeWhile_append_dropWhile (p := p) (l := s), List.mem_append] at h
  refine h.resolve_left fun ht => ?_
  rw [List.mem_takeWhile_imp ht] at hb
  cases hb

theorem mem_trim {s : Bytes} {b : UInt8} (h : b ∈ s) (hb : isBlank b = false) : b ∈ trim s := by
  rw [trim, List.rdropWhile, List.mem_reverse]
  refine mem_dropWhile ?_ hb
  rw [List.mem_reverse]
  exact mem_dropWhile h hb

theorem LineFree.trim {s : Bytes} (h : LineFree s) : LineFree (trim s) :=
  h.of_subset (trim_subset s)

theorem trimmed_trim (s : Bytes) : Trimmed (trim s) := by
  have hhead : ∀ t : Bytes, t.dropWhile isBlank = t →
      (t.rdropWhile isBlank).dropWhile isBlank = t.rdropWhile isBlank := by
    intro t ht
    cases hr : t.rdropWhile isBlank with
    | nil => rfl
    | cons b rest =>
        obtain ⟨suffix, hs⟩ := List.rdropWhile_prefix isBlank (l := t)
        rw [hr, List.cons_append] at hs
        rw [← hs] at ht
        have hb : isBlank b = false := by
          by_contra hb
          rw [Bool.not_eq_false] at hb
          have hlen := congrArg List.length ht
          have hle := (List.dropWhile_suffix (l := rest ++ suffix) isBlank).length_le
          rw [List.dropWhile_cons, if_pos hb, List.length_cons] at hlen
          omega
        simp [hb]
  rw [Trimmed, Lib.trim, Lib.trim, hhead _ (List.dropWhile_idempotent isBlank s),
    List.rdropWhile_idempotent]

theorem trim_append {w : Bytes} (h : ∀ b ∈ w, isBlank b = true) (s : Bytes) :
    trim (w ++ s) = trim s := by
  rw [trim, List.dropWhile_append_of_pos h, trim]

theorem head_not_blank {s : Bytes} (h : Trimmed s) {b : UInt8} (hb : s.head? = some b) :
    isBlank b = false := by
  by_contra hblank
  rw [Bool.not_eq_false] at hblank
  cases s with
  | nil => cases hb
  | cons c s =>
      have hc : c = b := by simpa using hb
      have hlen := congrArg List.length h
      have hdrop := (List.dropWhile_suffix (l := s) isBlank).length_le
      have htrim := (List.rdropWhile_prefix isBlank (s.dropWhile isBlank)).length_le
      rw [trim, List.dropWhile_cons, if_pos (by rw [hc]; exact hblank), List.length_cons] at hlen
      omega

theorem trimmed_of_forall_not_blank {s : Bytes} (h : ∀ b ∈ s, isBlank b = false) : Trimmed s := by
  have hd : s.dropWhile isBlank = s := by
    cases s with
    | nil => rfl
    | cons b s => simp [h b List.mem_cons_self]
  rw [Trimmed, Lib.trim, hd, List.rdropWhile_eq_self_iff]
  intro hne
  simp [h _ (List.getLast_mem hne)]

/-! ## Decimal numerals -/

def digitChar (d : Nat) : UInt8 := (48 + d).toUInt8

def decimal (n : Nat) : Bytes :=
  if n = 0 then [48] else ((Nat.digits 10 n).map digitChar).reverse

/-- `std::to_string` of a signed integer. -/
def toString (n : Int) : Bytes :=
  if n < 0 then 45 :: decimal n.natAbs else decimal n.natAbs

/-- The value of a list of digit characters, most significant first. -/
def digitsValue (s : Bytes) : Nat := s.foldl (fun acc b => 10 * acc + (b.toNat - 48)) 0

theorem digitChar_toNat {d : Nat} (h : d < 10) : (digitChar d).toNat = 48 + d := by
  simp only [digitChar, Nat.toUInt8, UInt8.toNat_ofNat']
  omega

theorem isDigit_digitChar {d : Nat} (h : d < 10) : isDigit (digitChar d) = true := by
  rw [isDigit_iff_toNat, digitChar_toNat h]
  omega

theorem decimal_ne_nil (n : Nat) : decimal n ≠ [] := by
  unfold decimal
  split
  · simp
  · rename_i hn
    simpa [Nat.digits_eq_nil_iff_eq_zero] using hn

theorem isDigit_of_mem_decimal {n : Nat} {b : UInt8} (h : b ∈ decimal n) : isDigit b = true := by
  unfold decimal at h
  split at h
  · simp only [List.mem_singleton] at h
    subst h
    decide
  · obtain ⟨d, hd, rfl⟩ := by simpa using h
    exact isDigit_digitChar (Nat.digits_lt_base (by omega) hd)

theorem digitsValue_append (s : Bytes) (b : UInt8) :
    digitsValue (s ++ [b]) = 10 * digitsValue s + (b.toNat - 48) := by
  simp [digitsValue, List.foldl_append]

theorem digitsValue_reverse_digits (ds : List Nat) (h : ∀ d ∈ ds, d < 10) :
    digitsValue (ds.map digitChar).reverse = Nat.ofDigits 10 ds := by
  induction ds with
  | nil => rfl
  | cons d ds ih =>
      have hd : d < 10 := h d List.mem_cons_self
      rw [List.map_cons, List.reverse_cons, digitsValue_append,
        ih fun e he => h e (List.mem_cons_of_mem d he), digitChar_toNat hd, Nat.ofDigits_cons]
      omega

theorem digitsValue_decimal (n : Nat) : digitsValue (decimal n) = n := by
  unfold decimal
  split
  · subst n
    rfl
  · rw [digitsValue_reverse_digits _ fun d hd => Nat.digits_lt_base (by omega) hd,
      Nat.ofDigits_digits]

theorem decimal_injective : Function.Injective decimal := by
  intro m n h
  rw [← digitsValue_decimal m, h, digitsValue_decimal]

/-- A decimal numeral of `n`, possibly with leading zeros. -/
def DecimalOf (s : Bytes) (n : Nat) : Prop :=
  s ≠ [] ∧ (s.all isDigit) = true ∧ digitsValue s = n

instance (s : Bytes) (n : Nat) : Decidable (DecimalOf s n) :=
  inferInstanceAs (Decidable (_ ∧ _ ∧ _))

theorem decimalOf_decimal (n : Nat) : DecimalOf (decimal n) n :=
  ⟨decimal_ne_nil n, List.all_eq_true.mpr fun _ hb => isDigit_of_mem_decimal hb,
    digitsValue_decimal n⟩

theorem DecimalOf.isDigit_of_mem {s : Bytes} {n : Nat} (h : DecimalOf s n) :
    ∀ b ∈ s, isDigit b = true := List.all_eq_true.mp h.2.1

theorem DecimalOf.not_mem {s : Bytes} {n : Nat} (h : DecimalOf s n) {c : UInt8}
    (hc : isDigit c = false) : c ∉ s := by
  intro hmem
  rw [h.isDigit_of_mem c hmem] at hc
  cases hc

theorem not_mem_decimal {c : UInt8} (hc : isDigit c = false) (n : Nat) : c ∉ decimal n :=
  (decimalOf_decimal n).not_mem hc

theorem digitChar_sub {b : UInt8} (h : isDigit b = true) : digitChar (b.toNat - 48) = b := by
  have hb := isDigit_iff_toNat.mp h
  rw [← UInt8.toNat_inj, digitChar_toNat (by omega)]
  omega

theorem digitsValue_lt {s : Bytes} (h : ∀ b ∈ s, isDigit b = true) :
    digitsValue s < 10 ^ s.length := by
  induction s using List.reverseRecOn with
  | nil => decide
  | append_singleton s b ih =>
      have hs := ih fun c hc => h c (List.mem_append_left _ hc)
      have hb := isDigit_iff_toNat.mp (h b (by simp))
      rw [digitsValue_append, List.length_append, List.length_singleton, pow_succ]
      omega

def digitsOf (s : Bytes) : List Nat := s.reverse.map fun b => b.toNat - 48

theorem digitsOf_lt {s : Bytes} (h : ∀ b ∈ s, isDigit b = true) : ∀ d ∈ digitsOf s, d < 10 := by
  intro d hd
  obtain ⟨b, hb, rfl⟩ := List.mem_map.mp hd
  have hdigit := isDigit_iff_toNat.mp (h b (List.mem_reverse.mp hb))
  omega

theorem map_digitChar_digitsOf {s : Bytes} (h : ∀ b ∈ s, isDigit b = true) :
    ((digitsOf s).map digitChar).reverse = s := by
  rw [digitsOf, List.map_map, ← List.map_reverse, List.reverse_reverse]
  calc s.map (digitChar ∘ fun b => b.toNat - 48)
      = s.map id := List.map_congr_left fun b hb => digitChar_sub (h b hb)
    _ = s := List.map_id s

/-- Digits without a leading zero are the numeral of their value. -/
theorem decimal_digitsValue {s : Bytes} (hne : s ≠ []) (hdigits : ∀ b ∈ s, isDigit b = true)
    (hzero : s.head? = some 48 → s = [48]) : decimal (digitsValue s) = s := by
  obtain ⟨b, t, rfl⟩ := List.exists_cons_of_ne_nil hne
  have hback := map_digitChar_digitsOf hdigits
  have hvalue := digitsValue_reverse_digits _ (digitsOf_lt hdigits)
  rw [hback] at hvalue
  by_cases hb : b = 48
  · rw [hzero (by rw [hb]; rfl)]
    decide
  · -- the most significant digit is not zero
    have hlast : ∀ h, (digitsOf (b :: t)).getLast h ≠ 0 := by
      intro h hnull
      simp only [digitsOf, List.reverse_cons, List.map_append, List.map_singleton,
        List.getLast_append_singleton] at hnull
      have hdigit := digitChar_sub (hdigits b List.mem_cons_self)
      rw [hnull] at hdigit
      exact hb hdigit.symm
    have hdigits' := Nat.digits_ofDigits 10 (by decide) _ (digitsOf_lt hdigits) hlast
    rw [← hvalue] at hdigits'
    unfold decimal
    split
    · rename_i hnull
      rw [hnull] at hdigits'
      simp [digitsOf] at hdigits'
    · rw [hdigits', hback]

theorem not_isSpace_of_isDigit {b : UInt8} (h : isDigit b = true) : isSpace b = false := by
  have hb := isDigit_iff_toNat.mp h
  have hne : b ≠ 32 := by
    intro heq
    subst heq
    exact absurd h (by decide)
  have h13 : ¬ b ≤ 13 := by
    rw [UInt8.le_iff_toNat_le, show (13 : UInt8).toNat = 13 from rfl]
    omega
  simp [isSpace, hne, h13]

theorem not_isSpace_of_mem_toString {n : Int} {b : UInt8} (h : b ∈ toString n) :
    isSpace b = false := by
  unfold toString at h
  split at h
  · rcases List.mem_cons.mp h with rfl | h
    · decide
    · exact not_isSpace_of_isDigit (isDigit_of_mem_decimal h)
  · exact not_isSpace_of_isDigit (isDigit_of_mem_decimal h)

theorem isBlank_le_isSpace {b : UInt8} (h : isSpace b = false) : isBlank b = false := by
  simp only [isSpace, isBlank, Bool.or_eq_false_iff] at *
  refine ⟨h.1, ?_⟩
  by_contra hb
  have : b = 9 := by simpa using hb
  subst this
  exact absurd h.2 (by decide)

theorem toString_lineFree (n : Int) : LineFree (toString n) :=
  .of_not_isSpace fun _ hb => not_isSpace_of_mem_toString hb

theorem toString_trimmed (n : Int) : Trimmed (toString n) :=
  trimmed_of_forall_not_blank fun _ hb => isBlank_le_isSpace (not_isSpace_of_mem_toString hb)

end WsGateway.Lib
