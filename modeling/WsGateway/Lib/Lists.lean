import Mathlib.Algebra.Group.Action.Defs
import Mathlib.Algebra.GroupWithZero.Nat
import Mathlib.Algebra.Order.BigOperators.Group.List
import Mathlib.Data.List.AList

/-!
# Lists and association lists

What happens at one place of a list when an element is added or replaced there.
-/

namespace WsGateway.Lib

/-! ## One element more, or another one -/

theorem getElem?_concat_cases {α : Type*} {l : List α} {a b : α} {k : Nat}
    (h : (l ++ [a])[k]? = some b) : l[k]? = some b ∨ (k = l.length ∧ b = a) := by
  rcases Nat.lt_or_ge k l.length with hlt | hge
  · rw [List.getElem?_append_left hlt] at h
    exact .inl h
  · rw [List.getElem?_append_right hge, List.getElem?_singleton] at h
    split at h
    · cases h
      exact .inr ⟨by omega, rfl⟩
    · cases h

theorem getElem?_set_cases {α : Type*} {l : List α} {k j : Nat} {a b : α}
    (h : (l.set k a)[j]? = some b) : (j = k ∧ b = a) ∨ (j ≠ k ∧ l[j]? = some b) := by
  by_cases hj : j = k
  · subst hj
    have hlt : j < l.length := by
      have hlen := (List.getElem?_eq_some_iff.mp h).choose
      rwa [List.length_set] at hlen
    rw [List.getElem?_set_self hlt, Option.some.injEq] at h
    exact .inl ⟨rfl, h.symm⟩
  · rw [List.getElem?_set_ne (Ne.symm hj)] at h
    exact .inr ⟨hj, h⟩

theorem sum_map_set_lt {α : Type*} {f : α → Nat} {l : List α} {k : Nat} {a a' : α}
    (h : l[k]? = some a) (hlt : f a' < f a) : ((l.set k a').map f).sum < (l.map f).sum := by
  induction l generalizing k with
  | nil => cases h
  | cons b l ih =>
      cases k with
      | zero =>
          cases h
          simp only [List.set_cons_zero, List.map_cons, List.sum_cons]
          omega
      | succ k =>
          have hsum := ih h
          simp only [List.set_cons_succ, List.map_cons, List.sum_cons]
          omega

/-- What may follow a prefix of an ascending list: the least element that is left. -/
theorem concat_prefix_iff {l p : List Nat} (hl : l.Pairwise (· < ·)) {k : Nat} :
    p ++ [k] <+: l ↔ p <+: l ∧ k ∈ l ∧ k ∉ p ∧ ∀ j ∈ l, j < k → j ∈ p := by
  constructor
  · intro h
    rcases h with ⟨rest, rfl⟩
    obtain ⟨hpk, -, hrest⟩ := List.pairwise_append.mp hl
    obtain ⟨-, -, hp⟩ := List.pairwise_append.mp hpk
    refine ⟨⟨[k] ++ rest, by simp⟩, by simp, fun hk => ?_, fun j hj hlt => ?_⟩
    · exact Nat.lt_irrefl k (hp k hk k (by simp))
    · rcases List.mem_append.mp hj with hj | hj
      · rcases List.mem_append.mp hj with hj | hj
        · exact hj
        · rw [List.mem_singleton] at hj
          omega
      · have hkj := hrest k (by simp) j hj
        omega
  · intro h
    rcases h with ⟨⟨rest, rfl⟩, hk, hnot, hleast⟩
    cases rest with
    | nil => exact absurd (by simpa using hk) hnot
    | cons a rest =>
        obtain ⟨-, hrest, hp⟩ := List.pairwise_append.mp hl
        rcases List.mem_cons.mp ((List.mem_append.mp hk).resolve_left hnot) with heq | hmem
        · subst heq
          exact ⟨rest, by simp⟩
        · have hak := List.rel_of_pairwise_cons hrest hmem
          have haa := hp a (hleast a (by simp) hak) a (by simp)
          omega

/-! ## Splitting and searching -/

theorem splitOn_concat_self {α : Type*} [BEq α] [LawfulBEq α] (xs : List α) (a : α) :
    (xs ++ [a]).splitOn a = xs.splitOn a ++ [[]] := List.splitOn_append_cons_self xs []

theorem splitOn_concat_of_ne {α : Type*} [BEq α] [LawfulBEq α] {x a : α} (h : x ≠ a)
    (xs : List α) :
    (xs ++ [x]).splitOn a = (xs.splitOn a).dropLast ++
      [(xs.splitOn a).getLast (List.splitOn_ne_nil _ _) ++ [x]] := by
  induction xs with
  | nil => simp [List.splitOn_cons_eq_if_modifyHead, h]
  | cons y xs ih =>
      have hne := List.splitOn_ne_nil a xs
      obtain ⟨group, groups, hsplit⟩ := List.exists_cons_of_ne_nil hne
      simp only [List.cons_append, List.splitOn_cons_eq_if_modifyHead, ih]
      split
      · simp [List.dropLast_cons_of_ne_nil hne, List.getLast_cons hne]
      · simp only [hsplit]
        cases groups <;> simp

theorem mem_of_mem_intercalate {α : Type*} {a : α} {sep : List α} {xss : List (List α)}
    (h : a ∈ sep.intercalate xss) : a ∈ sep ∨ ∃ xs ∈ xss, a ∈ xs := by
  induction xss with
  | nil => simp at h
  | cons xs xss ih =>
      cases xss with
      | nil => exact .inr ⟨xs, List.mem_cons_self, by simpa using h⟩
      | cons ys xss =>
          rw [List.intercalate_cons_cons, List.mem_append, List.mem_append] at h
          rcases h with (hxs | hsep) | hrest
          · exact .inr ⟨xs, List.mem_cons_self, hxs⟩
          · exact .inl hsep
          · refine (ih hrest).imp_right fun h => ?_
            rcases h with ⟨zs, hzs, hmem⟩
            exact ⟨zs, List.mem_cons_of_mem xs hzs, hmem⟩

theorem exists_first_not {α : Type*} {P : α → Prop} [DecidablePred P] {l : List α}
    (h : ¬ ∀ a ∈ l, P a) :
    ∃ pre a post, l = pre ++ a :: post ∧ (∀ x ∈ pre, P x) ∧ ¬ P a := by
  induction l with
  | nil => simp at h
  | cons a l ih =>
      by_cases ha : P a
      · rw [List.forall_mem_cons, not_and] at h
        obtain ⟨pre, b, post, rfl, hpre, hb⟩ := ih (h ha)
        exact ⟨a :: pre, b, post, rfl, List.forall_mem_cons.mpr ⟨ha, hpre⟩, hb⟩
      · exact ⟨[], a, l, rfl, by simp, ha⟩

theorem flatMap_not_nil {α β : Type*} (list : List (List α)) (calls : List β) :
    (list.flatMap fun p => if p ≠ [] then calls else []) =
      (List.replicate (list.countP (fun p => p ≠ [])) calls).flatten := by
  induction list with
  | nil => rfl
  | cons p list ih =>
      rw [List.flatMap_cons, ih]
      by_cases hp : p = []
      · simp [hp]
      · rw [if_pos hp, List.countP_cons_of_pos (by simpa using hp), List.replicate_succ,
          List.flatten_cons]

/-! ## Lookups -/

theorem lookup_map_value {α β γ : Type*} [BEq α] (g : β → γ) (l : List (α × β)) (a : α) :
    (l.map fun p => (p.1, g p.2)).lookup a = (l.lookup a).map g := by
  induction l with
  | nil => rfl
  | cons p l ih =>
      rw [List.map_cons, List.lookup_cons, List.lookup_cons, ih]
      split <;> rfl

theorem lookup_insert_ite {α β : Type*} [DecidableEq α] (m : AList fun _ : α => β) (c d : α)
    (v : β) : (m.insert d v).lookup c = if c = d then some v else m.lookup c := by
  split
  · subst c
    exact AList.lookup_insert m
  · rename_i h
    exact AList.lookup_insert_ne h

theorem lookup_erase_ite {α β : Type*} [DecidableEq α] (m : AList fun _ : α => β) (c d : α) :
    (m.erase d).lookup c = if c = d then none else m.lookup c := by
  split
  · subst c
    exact AList.lookup_erase d m
  · rename_i h
    exact AList.lookup_erase_ne h

end WsGateway.Lib
