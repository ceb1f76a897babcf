import Mathlib.Algebra.Group.Nat.Defs
import Mathlib.Algebra.Group.Basic
import Mathlib.Data.List.Nodup

/-!
# Progressions with a common step

Several arithmetic progressions that advance together, round by round. Two of their
terms are equal only if one base is reached from another in fewer steps than there
are rounds.
-/

namespace WsGateway.Lib.Progressions

variable {α : Type*} [AddCancelCommMonoid α]

def roundTerms (bases : List α) (step : α) (i : Nat) : List α := bases.map fun b => b + i • step

def rounds (bases : List α) (step : α) (n : Nat) : List α :=
  (List.range n).flatMap (roundTerms bases step)

theorem nodup_roundTerms {bases : List α} (hb : bases.Nodup) (step : α) (i : Nat) :
    (roundTerms bases step i).Nodup := hb.map (add_left_injective (i • step))

/-- One base is reached from another between two rounds that share a term. -/
theorem disjoint_roundTerms_iff {bases : List α} {step : α} {i j : Nat} (h : i ≤ j) :
    (roundTerms bases step i).Disjoint (roundTerms bases step j) ↔
      ∀ a ∈ bases, ∀ b ∈ bases, a + (j - i) • step ≠ b := by
  have hsplit (a : α) : a + j • step = (a + (j - i) • step) + i • step := by
    rw [add_assoc, ← add_nsmul, Nat.sub_add_cancel h]
  simp only [List.disjoint_left, roundTerms, List.mem_map, forall_exists_index, and_imp,
    forall_apply_eq_imp_iff₂, not_exists, not_and, hsplit, add_left_inj]
  constructor
  · intro hdisjoint a ha b hb
    exact hdisjoint b hb a ha
  · intro hapart b hb a ha
    exact hapart a ha b hb

theorem nodup_rounds_iff {bases : List α} (hb : bases.Nodup) (step : α) (n : Nat) :
    (rounds bases step n).Nodup ↔
      ∀ k, 0 < k → k < n → ∀ a ∈ bases, ∀ b ∈ bases, a + k • step ≠ b := by
  rw [rounds, List.nodup_flatMap, and_iff_right fun i _ => nodup_roundTerms hb step i,
    List.pairwise_iff_getElem]
  simp only [List.length_range, List.getElem_range, Function.onFun]
  constructor
  · intro hpairs k hpos hk
    exact (disjoint_roundTerms_iff (Nat.zero_le k)).mp (hpairs 0 k (by omega) hk hpos)
  · intro hapart i j hi hj hlt
    exact (disjoint_roundTerms_iff (Nat.le_of_lt hlt)).mpr (hapart (j - i) (by omega) (by omega))

/-- On numbers: whenever the step divides the distance of two bases, more rounds would be
needed to go from one to the other. -/
theorem nodup_rounds_nat_iff {bases : List Nat} (hb : bases.Nodup) {step : Nat}
    (hstep : 0 < step) (n : Nat) :
    (rounds bases step n).Nodup ↔
      ∀ a ∈ bases, ∀ b ∈ bases, a < b → step ∣ b - a → n * step ≤ b - a := by
  rw [nodup_rounds_iff hb]
  constructor
  · intro hapart a ha b hb hlt hdvd
    obtain ⟨k, hk⟩ := hdvd
    have hpos : 0 < k := by
      refine Nat.pos_of_ne_zero fun hzero => ?_
      rw [hzero, Nat.mul_zero] at hk
      omega
    have hle : n ≤ k := by
      refine Nat.le_of_not_lt fun hlt' => hapart k hpos hlt' a ha b hb ?_
      rw [Nat.nsmul_eq_mul, Nat.mul_comm]
      omega
    rw [hk, Nat.mul_comm step]
    exact Nat.mul_le_mul_right step hle
  · intro hfar k hpos hk a ha b hb heq
    rw [Nat.nsmul_eq_mul] at heq
    have hmul : 0 < k * step := Nat.mul_pos hpos hstep
    have hdiff : b - a = k * step := by omega
    have hle := hfar a ha b hb (by omega) (hdiff ▸ Nat.dvd_mul_left step k)
    rw [hdiff] at hle
    exact absurd (Nat.le_of_mul_le_mul_right hle hstep) (by omega)

end WsGateway.Lib.Progressions
