import Mathlib.Data.Nat.Digits.Lemmas
import WsGateway.Startup.Split

/-!
# `isValidIPv4`

The octets are read with `getline`, which does not tell whether a delimiter stands
behind the last one: besides the canonical quads, exactly these with one dot behind
them are accepted.
-/

namespace WsGateway.Startup

open Lib Lib.Stream

def dot : UInt8 := 46

/-- The loop over the octets. -/
def checkOctets : List Bytes → Except StdException Bool
  | [] => .ok true
  | oct :: octets =>
      if oct = [] ∨ 3 < oct.length ∨ (oct.all isDigit) = false then .ok false
      else
        (stoi oct).bind fun num =>
          if num < 0 ∨ 255 < num then .ok false
          else if oct.head? = some 48 ∧ 1 < oct.length then .ok false
          else checkOctets octets

def isValidIPv4 (ipAddress : Bytes) : Except StdException Bool :=
  let octets := tokens dot (.ofString ipAddress)
  if octets.length ≠ 4 then .ok false else checkOctets octets

def Octet (s : Bytes) : Prop := ∃ n ≤ 255, s = decimal n

def CanonicalQuad (s : Bytes) : Prop :=
  ∃ a b c d, a ≤ 255 ∧ b ≤ 255 ∧ c ≤ 255 ∧ d ≤ 255 ∧
    s = decimal a ++ dot :: (decimal b ++ dot :: (decimal c ++ dot :: decimal d))

/-! ## The octets -/

theorem length_decimal_le {n : Nat} (h : n ≤ 255) : (decimal n).length ≤ 3 := by
  unfold decimal
  split
  · decide
  · rw [List.length_reverse, List.length_map, Nat.digits_length_le_iff (by decide) n]
    omega

theorem decimal_no_leading_zero {n : Nat} (h : (decimal n).head? = some 48) :
    decimal n = [48] := by
  unfold decimal at h ⊢
  split
  · rfl
  · rename_i hn
    rw [if_neg hn, List.head?_reverse, List.getLast?_map, Option.map_eq_some_iff] at h
    obtain ⟨d, hd, hchar⟩ := h
    have hne : Nat.digits 10 n ≠ [] := by
      rw [ne_eq, Nat.digits_eq_nil_iff_eq_zero]
      exact hn
    rw [List.getLast?_eq_getLast_of_ne_nil hne, Option.some.injEq] at hd
    have hlast := Nat.getLast_digit_ne_zero 10 hn
    have hlt : d < 10 := hd ▸ Nat.digits_lt_base (by decide) (List.getLast_mem hne)
    have hvalue := congrArg UInt8.toNat hchar
    rw [digitChar_toNat hlt] at hvalue
    have h48 : (48 : UInt8).toNat = 48 := rfl
    omega

theorem checkOctets_octet {oct : Bytes} (h : Octet oct) (octets : List Bytes) :
    checkOctets (oct :: octets) = checkOctets octets := by
  rcases h with ⟨n, hn, rfl⟩
  have hdigits : ((decimal n).all isDigit) = true := (decimalOf_decimal n).2.1
  have hread : stoi (decimal n) = .ok (n : Int) := stoi_decimal (by omega)
  have hlength := length_decimal_le hn
  have hleading : ¬ ((decimal n).head? = some 48 ∧ 1 < (decimal n).length) := by
    intro hzero
    rw [decimal_no_leading_zero hzero.1] at hzero
    exact absurd hzero.2 (by decide)
  have hrange : ¬ ((n : Int) < 0 ∨ 255 < (n : Int)) := by omega
  have hshape : ¬ (decimal n = [] ∨ 3 < (decimal n).length ∨
      ((decimal n).all isDigit) = false) := by
    rw [hdigits]
    have hne := decimal_ne_nil n
    simp only [hne, reduceCtorEq, or_false, false_or]
    omega
  simp only [checkOctets, if_neg hshape, hread, Except.bind, if_neg hrange, if_neg hleading]

theorem checkOctets_not_octet {oct : Bytes} (h : ¬ Octet oct) (octets : List Bytes) :
    checkOctets (oct :: octets) = .ok false := by
  rw [checkOctets]
  split
  · rfl
  · rename_i hshape
    simp only [not_or, Bool.not_eq_false] at hshape
    rcases hshape with ⟨hne, hlength, hall⟩
    have hdigits := List.all_eq_true.mp hall
    have hlt : digitsValue oct < 1000 := by
      have hbound := digitsValue_lt hdigits
      have hpow : 10 ^ oct.length ≤ 10 ^ 3 := Nat.pow_le_pow_right (by decide) (by omega)
      omega
    rw [stoi_digits hne hdigits (by omega)]
    simp only [Except.bind]
    split
    · rfl
    · rename_i hrange
      split
      · rfl
      · rename_i hleading
        refine absurd ⟨digitsValue oct, by omega, ?_⟩ h
        refine (decimal_digitsValue hne hdigits fun hhead => ?_).symm
        -- a single digit zero
        cases oct with
        | nil => exact absurd rfl hne
        | cons b rest =>
            have hb : b = 48 := by simpa using hhead
            cases rest with
            | nil => rw [hb]
            | cons c rest => exact absurd ⟨hhead, by simp⟩ hleading

theorem checkOctets_ok (octets : List Bytes) : ∃ b, checkOctets octets = .ok b := by
  induction octets with
  | nil => exact ⟨true, rfl⟩
  | cons oct octets ih =>
      by_cases h : Octet oct
      · rw [checkOctets_octet h]
        exact ih
      · exact ⟨false, checkOctets_not_octet h octets⟩

theorem checkOctets_eq_true_iff (octets : List Bytes) :
    checkOctets octets = .ok true ↔ ∀ oct ∈ octets, Octet oct := by
  induction octets with
  | nil => simp [checkOctets]
  | cons oct octets ih =>
      by_cases h : Octet oct
      · rw [checkOctets_octet h, ih]
        simp [h]
      · rw [checkOctets_not_octet h]
        simp [h]

/-! ## The address -/

theorem dot_not_mem_octet {oct : Bytes} (h : Octet oct) : dot ∉ oct := by
  rcases h with ⟨n, -, rfl⟩
  exact not_mem_decimal (by decide) n

theorem octet_ne_nil {oct : Bytes} (h : Octet oct) : oct ≠ [] := by
  rcases h with ⟨n, -, rfl⟩
  exact decimal_ne_nil n

theorem canonicalQuad_iff {s : Bytes} : CanonicalQuad s ↔
    ∃ octets : List Bytes, octets.length = 4 ∧ (∀ oct ∈ octets, Octet oct) ∧
      s = [dot].intercalate octets := by
  constructor
  · intro h
    rcases h with ⟨a, b, c, d, ha, hb, hc, hd, rfl⟩
    refine ⟨[decimal a, decimal b, decimal c, decimal d], rfl, ?_, by simp⟩
    simp only [List.mem_cons, List.not_mem_nil, or_false, forall_eq_or_imp, forall_eq]
    exact ⟨⟨a, ha, rfl⟩, ⟨b, hb, rfl⟩, ⟨c, hc, rfl⟩, ⟨d, hd, rfl⟩⟩
  · intro h
    rcases h with ⟨octets, hlength, hall, rfl⟩
    match octets, hlength with
    | [_, _, _, _], _ =>
        simp only [List.mem_cons, List.not_mem_nil, or_false, forall_eq_or_imp, forall_eq] at hall
        rcases hall with ⟨⟨a, ha, rfl⟩, ⟨b, hb, rfl⟩, ⟨c, hc, rfl⟩, ⟨d, hd, rfl⟩⟩
        exact ⟨a, b, c, d, ha, hb, hc, hd, by simp⟩

theorem isValidIPv4_ok (s : Bytes) : ∃ b, isValidIPv4 s = .ok b := by
  unfold isValidIPv4
  dsimp only
  split
  · exact ⟨false, rfl⟩
  · exact checkOctets_ok _

theorem isValidIPv4_eq_true_iff (s : Bytes) :
    isValidIPv4 s = .ok true ↔
      CanonicalQuad s ∨ ∃ quad, CanonicalQuad quad ∧ s = quad ++ [dot] := by
  have hvalid : isValidIPv4 s = .ok true ↔
      (split s dot).length = 4 ∧ ∀ oct ∈ split s dot, Octet oct := by
    rw [← checkOctets_eq_true_iff, isValidIPv4, split]
    split
    · rename_i hlength
      simp [hlength]
    · rename_i hlength
      rw [ne_eq, not_not] at hlength
      simp [hlength]
  rw [hvalid]
  constructor
  · intro h
    rcases h with ⟨hlength, hall⟩
    have hjoin := join_split dot s
    split at hjoin
    · rename_i hlast
      exact .inr ⟨_, canonicalQuad_iff.mpr ⟨_, hlength, hall, hjoin.symm⟩,
        (List.dropLast_append_getLast? dot hlast).symm⟩
    · exact .inl (canonicalQuad_iff.mpr ⟨_, hlength, hall, hjoin.symm⟩)
  · intro h
    have hread : ∃ octets : List Bytes, octets.length = 4 ∧ (∀ oct ∈ octets, Octet oct) ∧
        split s dot = octets := by
      rcases h with hquad | ⟨quad, hquad, rfl⟩
      · obtain ⟨octets, hlength, hall, rfl⟩ := canonicalQuad_iff.mp hquad
        refine ⟨octets, hlength, hall, split_join (fun t ht => dot_not_mem_octet (hall t ht)) ?_⟩
        intro hlast
        exact octet_ne_nil (hall [] (List.mem_of_getLast? hlast)) rfl
      · obtain ⟨octets, hlength, hall, rfl⟩ := canonicalQuad_iff.mp hquad
        refine ⟨octets, hlength, hall,
          split_join_concat (fun t ht => dot_not_mem_octet (hall t ht)) ?_⟩
        intro hnil
        rw [hnil] at hlength
        cases hlength
    rcases hread with ⟨octets, hlength, hall, hsplit⟩
    rw [hsplit]
    exact ⟨hlength, hall⟩

theorem not_canonicalQuad_concat (quad : Bytes) : ¬ CanonicalQuad (quad ++ [dot]) := by
  intro h
  rcases h with ⟨a, b, c, d, -, -, -, -, htext⟩
  have hlast := congrArg List.getLast? htext
  have hd := List.getLast?_eq_some_getLast (decimal_ne_nil d)
  rw [List.getLast?_concat] at hlast
  simp only [List.getLast?_append, List.getLast?_cons, hd, Option.some_or, Option.getD_some,
    Option.some.injEq] at hlast
  have hdigit : isDigit dot = true := by
    rw [hlast]
    exact isDigit_of_mem_decimal (List.getLast_mem (decimal_ne_nil d))
  exact absurd hdigit (by decide)

/-- The test never throws. It accepts exactly the canonical quads among all strings
but those that are a canonical quad with a dot behind it, all of which it accepts. -/
theorem isValidIPv4_exact_iff (s : Bytes) :
    ((∃ b, isValidIPv4 s = .ok b) ∧ (isValidIPv4 s = .ok true ↔ CanonicalQuad s)) ↔
      ¬ ∃ quad, CanonicalQuad quad ∧ s = quad ++ [dot] := by
  rw [isValidIPv4_eq_true_iff]
  constructor
  · intro h hdot
    have hquad := h.2.mp (.inr hdot)
    rcases hdot with ⟨quad, -, rfl⟩
    exact not_canonicalQuad_concat quad hquad
  · intro h
    exact ⟨isValidIPv4_ok s, or_iff_left h⟩

theorem isValidIPv4_trailing_dot : isValidIPv4 (ascii "192.168.1.1.") = .ok true ∧
    ¬ CanonicalQuad (ascii "192.168.1.1.") := by
  have htext : ascii "192.168.1.1." = ascii "192.168.1.1" ++ [dot] := by decide
  have hquad : CanonicalQuad (ascii "192.168.1.1") :=
    ⟨192, 168, 1, 1, by decide, by decide, by decide, by decide, by decide⟩
  rw [htext]
  exact ⟨(isValidIPv4_eq_true_iff _).mpr (.inr ⟨_, hquad, rfl⟩), not_canonicalQuad_concat _⟩

end WsGateway.Startup
