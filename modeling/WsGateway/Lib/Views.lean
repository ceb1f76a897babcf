import Mathlib.Data.List.Count
import WsGateway.Lib.Runs

/-!
# What one party sees of a machine

A view takes the states of a machine to those of another one, and an event, in its
state, to an event there or to nothing. If the events that are seen are steps there
and those that are not change nothing that is seen, then a run is seen as a run. Two
runs that are seen as the same events are seen to end in the same state.
-/

namespace WsGateway.Lib.Runs

variable {σ ε τ ε' : Type*} {step : σ → ε → Option σ} {step' : τ → ε' → Option τ}

structure View (σ ε τ ε' : Type*) where
  state : σ → τ
  event : σ → ε → Option ε'

/-- In the states of the invariant, seen events are steps of the second machine, and
the others are not noticed. -/
structure View.Sound (V : View σ ε τ ε') (step : σ → ε → Option σ)
    (step' : τ → ε' → Option τ) (Inv : σ → Prop) : Prop where
  seen : ∀ s e e' t, Inv s → V.event s e = some e' → step s e = some t →
    step' (V.state s) e' = some (V.state t)
  unseen : ∀ s e t, Inv s → V.event s e = none → step s e = some t → V.state t = V.state s
  inv : ∀ s e t, Inv s → step s e = some t → Inv t

def View.run (V : View σ ε τ ε') (step : σ → ε → Option σ) : σ → List ε → List ε'
  | _, [] => []
  | s, e :: es =>
      (V.event s e).toList ++ ((step s e).map fun t => V.run step t es).getD []

theorem View.run_cons {V : View σ ε τ ε'} {s t : σ} {e : ε} (h : step s e = some t)
    (es : List ε) : V.run step s (e :: es) = (V.event s e).toList ++ V.run step t es := by
  rw [View.run, h]
  rfl

theorem View.run_concat (V : View σ ε τ ε') {s t : σ} {es : List ε} (h : exec step s es = some t)
    (e : ε) : V.run step s (es ++ [e]) = V.run step s es ++ (V.event t e).toList := by
  induction es generalizing s with
  | nil =>
      cases h
      cases hstep : step t e <;> simp [View.run, hstep]
  | cons f es ih =>
      obtain ⟨m, hm, ht⟩ := Option.bind_eq_some_iff.mp h
      rw [List.cons_append, View.run_cons hm, View.run_cons hm, ih ht, List.append_assoc]

theorem View.Sound.exec {V : View σ ε τ ε'} {Inv : σ → Prop}
    (h : V.Sound step step' Inv) {s t : σ} (hs : Inv s) {es : List ε}
    (hrun : exec step s es = some t) :
    Runs.exec step' (V.state s) (V.run step s es) = some (V.state t) := by
  induction es generalizing s with
  | nil =>
      cases hrun
      rfl
  | cons e es ih =>
      obtain ⟨m, hm, ht⟩ := Option.bind_eq_some_iff.mp hrun
      have hrest := ih (h.inv s e m hs hm) ht
      rw [View.run_cons hm]
      cases he : V.event s e with
      | none =>
          rw [← h.unseen s e m hs he hm]
          exact hrest
      | some e' =>
          rw [Option.toList_some, List.singleton_append, exec_cons, h.seen s e e' m hs he hm]
          exact hrest

theorem View.Sound.state_eq {V : View σ ε τ ε'} {Inv : σ → Prop}
    (h : V.Sound step step' Inv) {s₁ s₂ t₁ t₂ : σ} (hs₁ : Inv s₁) (hs₂ : Inv s₂)
    (hs : V.state s₁ = V.state s₂) {es₁ es₂ : List ε} (hrun₁ : Runs.exec step s₁ es₁ = some t₁)
    (hrun₂ : Runs.exec step s₂ es₂ = some t₂) (hes : V.run step s₁ es₁ = V.run step s₂ es₂) :
    V.state t₁ = V.state t₂ := by
  have h₁ := h.exec hs₁ hrun₁
  have h₂ := h.exec hs₂ hrun₂
  rw [hs, hes, h₂] at h₁
  exact (Option.some.inj h₁).symm

/-! ## Lists of which a part is seen -/

variable {α : Type*} {p : α → Bool} {l : List α} {k : Nat} {a a' : α}

def rank (p : α → Bool) (l : List α) (k : Nat) : Nat := (l.take k).countP p

theorem getElem?_filter_rank (h : l[k]? = some a) (hp : p a = true) :
    (l.filter p)[rank p l k]? = some a := by
  induction l generalizing k with
  | nil => cases h
  | cons b l ih =>
      cases k with
      | zero =>
          cases h
          rw [List.filter_cons_of_pos hp]
          rfl
      | succ k =>
          have hrest := ih h
          cases hb : p b with
          | true =>
              rw [List.filter_cons_of_pos hb, rank, List.take_succ_cons, List.countP_cons_of_pos hb]
              exact hrest
          | false =>
              have hnot : ¬ p b = true := by simp [hb]
              rw [List.filter_cons_of_neg hnot, rank, List.take_succ_cons,
                List.countP_cons_of_neg hnot]
              exact hrest

theorem filter_set_rank (h : l[k]? = some a) (hp : p a = true) (hp' : p a' = true) :
    (l.set k a').filter p = (l.filter p).set (rank p l k) a' := by
  induction l generalizing k with
  | nil => cases h
  | cons b l ih =>
      cases k with
      | zero =>
          cases h
          rw [List.set_cons_zero, List.filter_cons_of_pos hp, List.filter_cons_of_pos hp']
          rfl
      | succ k =>
          have hrest := ih h
          rw [List.set_cons_succ]
          cases hb : p b with
          | true =>
              rw [List.filter_cons_of_pos hb, List.filter_cons_of_pos hb, rank, List.take_succ_cons,
                List.countP_cons_of_pos hb, hrest]
              rfl
          | false =>
              have hnot : ¬ p b = true := by simp [hb]
              rw [List.filter_cons_of_neg hnot, List.filter_cons_of_neg hnot, rank,
                List.take_succ_cons, List.countP_cons_of_neg hnot, hrest]
              rfl

theorem filter_set_of_not (h : l[k]? = some a) (hp : p a = false) (hp' : p a' = false) :
    (l.set k a').filter p = l.filter p := by
  induction l generalizing k with
  | nil => cases h
  | cons b l ih =>
      cases k with
      | zero =>
          cases h
          rw [List.set_cons_zero, List.filter_cons_of_neg (by simp [hp']),
            List.filter_cons_of_neg (by simp [hp])]
      | succ k => rw [List.set_cons_succ, List.filter_cons, List.filter_cons, ih h]

theorem rank_set (h : l[k]? = some a) (hp : p a' = p a) (j : Nat) :
    rank p (l.set k a') j = rank p l j := by
  induction l generalizing k j with
  | nil => cases h
  | cons b l ih =>
      cases j with
      | zero => rfl
      | succ j =>
          cases k with
          | zero =>
              cases h
              simp only [rank, List.set_cons_zero, List.take_succ_cons, List.countP_cons, hp]
          | succ k =>
              have hrest := ih h j
              simp only [rank] at hrest
              simp only [rank, List.set_cons_succ, List.take_succ_cons, List.countP_cons, hrest]

theorem rank_append (h : k ≤ l.length) (l' : List α) : rank p (l ++ l') k = rank p l k := by
  rw [rank, rank, List.take_append_of_le_length h]

end WsGateway.Lib.Runs
