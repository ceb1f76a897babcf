import Mathlib.Data.List.Nodup
import Mathlib.Data.List.Dedup

/-!
# Interleaved words

Several threads write one word, letter by letter; each letter is tagged with
its thread. A word is serial if each thread has written its part in one piece.
-/

namespace WsGateway.Lib.Interleave

variable {α : Type*}

abbrev Tagged (α : Type*) := List (Nat × α)

def letters (w : Tagged α) : List α := w.map Prod.snd

def part (i : Nat) (w : Tagged α) : List α := (w.filter fun p => p.1 = i).map Prod.snd

def tag (i : Nat) (s : List α) : Tagged α := s.map fun a => (i, a)

@[simp] theorem letters_tag (i : Nat) (s : List α) : letters (tag i s) = s := by
  simp [letters, tag, Function.comp_def]

@[simp] theorem part_append (i : Nat) (v w : Tagged α) :
    part i (v ++ w) = part i v ++ part i w := by
  simp [part]

@[simp] theorem part_tag_self (i : Nat) (s : List α) : part i (tag i s) = s := by
  simp [part, tag, List.filter_map, Function.comp_def]

theorem part_tag_of_ne {i j : Nat} (h : i ≠ j) (s : List α) : part j (tag i s) = [] := by
  simp [part, tag, List.filter_map, Function.comp_def, h]

theorem mem_tag {i : Nat} {s : List α} {p : Nat × α} (h : p ∈ tag i s) : p.1 = i := by
  obtain ⟨a, -, rfl⟩ := List.mem_map.mp h
  rfl

theorem part_eq_nil {i : Nat} {w : Tagged α} (h : ∀ p ∈ w, p.1 ≠ i) : part i w = [] := by
  simpa [part] using h

theorem exists_mem_of_part_ne_nil {i : Nat} {w : Tagged α} (h : part i w ≠ []) :
    ∃ p ∈ w, p.1 = i := by
  by_contra hno
  exact h (part_eq_nil fun p hp hi => hno ⟨p, hp, hi⟩)

/-! ## Serial words -/

/-- The word is the parts of the threads `order`, one after the other. -/
def Serial (order : List Nat) (w : Tagged α) : Prop :=
  order.Nodup ∧ w = order.flatMap fun i => tag i (part i w)

theorem serial_nil : Serial [] ([] : Tagged α) := ⟨List.nodup_nil, rfl⟩

theorem Serial.mem {order : List Nat} {w : Tagged α} (h : Serial order w) {p : Nat × α}
    (hp : p ∈ w) : p.1 ∈ order := by
  rw [h.2] at hp
  obtain ⟨i, hi, hp⟩ := List.mem_flatMap.mp hp
  rwa [mem_tag hp]

theorem Serial.part_eq_nil {order : List Nat} {w : Tagged α} (h : Serial order w) {i : Nat}
    (hi : i ∉ order) : part i w = [] :=
  Interleave.part_eq_nil fun _ hp heq => hi (heq ▸ h.mem hp)

theorem Serial.letters_eq {order : List Nat} {w : Tagged α} (h : Serial order w) :
    letters w = order.flatMap fun i => part i w := by
  have hw := congrArg letters h.2
  rw [hw, letters, List.map_flatMap]
  congr 1
  funext i
  exact letters_tag i _

theorem flatMap_append_tag {order : List Nat} {i : Nat} (hi : i ∉ order) (w : Tagged α)
    (s : List α) : (order.flatMap fun j => tag j (part j (w ++ tag i s))) =
      order.flatMap fun j => tag j (part j w) := by
  refine List.flatMap_congr fun j hj => ?_
  have hij : i ≠ j := by
    intro heq
    subst heq
    exact hi hj
  rw [part_append, part_tag_of_ne hij, List.append_nil]

theorem Serial.begin {order : List Nat} {w : Tagged α} (h : Serial order w) {i : Nat}
    (hi : i ∉ order) (s : List α) : Serial (order ++ [i]) (w ++ tag i s) := by
  refine ⟨?_, ?_⟩
  · rw [List.nodup_append]
    refine ⟨h.1, List.nodup_singleton i, ?_⟩
    intro j hj k hk
    rw [List.mem_singleton.mp hk]
    intro heq
    subst heq
    exact hi hj
  · rw [List.flatMap_append, flatMap_append_tag hi, ← h.2, List.flatMap_singleton, part_append,
      h.part_eq_nil hi, part_tag_self, List.nil_append]

theorem Serial.continue {order : List Nat} {i : Nat} {w : Tagged α}
    (h : Serial (order ++ [i]) w) (s : List α) : Serial (order ++ [i]) (w ++ tag i s) := by
  have hi : i ∉ order := by
    intro hi
    exact (List.nodup_append.mp h.1).2.2 i hi i (by simp) rfl
  refine ⟨h.1, ?_⟩
  have hw := h.2
  rw [List.flatMap_append, List.flatMap_singleton] at hw
  rw [List.flatMap_append, flatMap_append_tag hi, List.flatMap_singleton, part_append,
    part_tag_self]
  calc w ++ tag i s = (order.flatMap (fun j => tag j (part j w)) ++ tag i (part i w)) ++
        tag i s := by rw [← hw]
    _ = _ := by simp [tag]

end WsGateway.Lib.Interleave
