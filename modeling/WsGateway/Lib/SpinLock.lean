import Mathlib.Algebra.Order.Ring.Nat
import Mathlib.Logic.Function.Basic
import Mathlib.Data.List.Basic

/-!
# A spin lock

Threads share a store that is only touched between the setting and the clearing of
one flag, and a second store that they touch step by step outside of it. The flag is
taken by an atomic test and set in a loop. A body under the lock takes several steps,
but no other thread takes one of its own meanwhile, so that the whole body may as well
be taken at once, when the flag is cleared.
-/

namespace WsGateway.Lib.SpinLock

inductive Block (μ α : Type*)
  /-- wait for the flag and set it, take the steps of the body, clear the flag -/
  | locked (body : List μ)
  /-- one step on the second store -/
  | free (a : α)

inductive Thread (μ α : Type*)
  | outside (code : List (Block μ α))
  /-- the flag is this thread's, and so much of the body is left -/
  | inside (rest : List μ) (code : List (Block μ α))

structure State (τ σ υ μ α : Type*) where
  flag : Bool
  guarded : σ
  free : υ
  threads : τ → Thread μ α

/-- What the steps do to the stores; a step on the second one has an outcome. -/
structure Semantics (σ υ μ α β : Type*) where
  inside : μ → σ → σ
  outside : α → β → υ → υ

variable {τ σ υ μ α β : Type*} [DecidableEq τ] (S : Semantics σ υ μ α β)

def State.set (s : State τ σ υ μ α) (i : τ) (thread : Thread μ α) : State τ σ υ μ α :=
  { s with threads := Function.update s.threads i thread }

/-- The next step of a thread. If the flag is set, the test and set leaves everything
as it is, and the thread tries again. -/
def step (s : State τ σ υ μ α) (i : τ) (outcome : β) : Option (State τ σ υ μ α) :=
  match s.threads i with
  | .outside [] => none
  | .outside (.locked body :: code) =>
      if s.flag then some s else some { s.set i (.inside body code) with flag := true }
  | .outside (.free a :: code) =>
      some { s.set i (.outside code) with free := S.outside a outcome s.free }
  | .inside (m :: rest) code =>
      some { s.set i (.inside rest code) with guarded := S.inside m s.guarded }
  | .inside [] code => some { s.set i (.outside code) with flag := false }

def Semantics.body (ms : List μ) (x : σ) : σ := ms.foldl (fun x m => S.inside m x) x

theorem Semantics.body_concat (ms : List μ) (m : μ) (x : σ) :
    S.body (ms ++ [m]) x = S.inside m (S.body ms x) := by
  simp [Semantics.body]

inductive Step (s : State τ σ υ μ α) (i : τ) (outcome : β) : State τ σ υ μ α → Prop
  | spin {body : List μ} {code : List (Block μ α)} :
      s.threads i = .outside (.locked body :: code) → s.flag = true → Step s i outcome s
  | acquire {body : List μ} {code : List (Block μ α)} :
      s.threads i = .outside (.locked body :: code) → s.flag = false →
        Step s i outcome { s.set i (.inside body code) with flag := true }
  | free {a : α} {code : List (Block μ α)} : s.threads i = .outside (.free a :: code) →
      Step s i outcome { s.set i (.outside code) with free := S.outside a outcome s.free }
  | inside {m : μ} {rest : List μ} {code : List (Block μ α)} :
      s.threads i = .inside (m :: rest) code →
        Step s i outcome { s.set i (.inside rest code) with guarded := S.inside m s.guarded }
  | release {code : List (Block μ α)} : s.threads i = .inside [] code →
      Step s i outcome { s.set i (.outside code) with flag := false }

variable {S} {s t : State τ σ υ μ α} {i : τ} {outcome : β}

theorem step_cases (h : step S s i outcome = some t) : Step S s i outcome t := by
  unfold step at h
  split at h
  · cases h
  · rename_i body code hi
    split at h
    · rename_i hflag
      cases h
      exact .spin hi hflag
    · rename_i hflag
      cases h
      exact .acquire hi (by simpa using hflag)
  · rename_i a code hi
    cases h
    exact .free hi
  · rename_i m rest code hi
    cases h
    exact .inside hi
  · rename_i code hi
    cases h
    exact .release hi

/-! ## Who is inside -/

def State.Inside (s : State τ σ υ μ α) (i : τ) : Prop :=
  ∃ rest code, s.threads i = .inside rest code

/-- The flag is set while a thread is inside, and there is only one. -/
structure State.Exclusive (s : State τ σ υ μ α) : Prop where
  flag : s.flag = true ↔ ∃ i, s.Inside i
  one : ∀ i j, s.Inside i → s.Inside j → i = j

omit [DecidableEq τ] in
theorem not_inside_of_outside {code : List (Block μ α)} (h : s.threads i = .outside code) :
    ¬ s.Inside i := by
  intro hin
  rcases hin with ⟨rest, code', hi⟩
  rw [h] at hi
  cases hi

theorem inside_set_of_ne {j : τ} (h : j ≠ i) (thread : Thread μ α) :
    (s.set i thread).Inside j ↔ s.Inside j := by
  simp [State.Inside, State.set, h]

theorem inside_set_self (rest : List μ) (code : List (Block μ α)) :
    (s.set i (.inside rest code)).Inside i := ⟨rest, code, Function.update_self ..⟩

theorem not_inside_set_self (code : List (Block μ α)) :
    ¬ (s.set i (.outside code)).Inside i :=
  not_inside_of_outside (Function.update_self ..)

theorem State.Exclusive.set_outside (h : s.Exclusive) (hi : ¬ s.Inside i)
    (code : List (Block μ α)) : (s.set i (.outside code)).Exclusive := by
  have hsame (j : τ) : (s.set i (.outside code)).Inside j ↔ s.Inside j := by
    by_cases hj : j = i
    · subst hj
      exact iff_of_false (not_inside_set_self code) hi
    · exact inside_set_of_ne hj _
  refine ⟨?_, fun j k hj hk => h.one j k ((hsame j).mp hj) ((hsame k).mp hk)⟩
  exact h.flag.trans (exists_congr fun j => (hsame j).symm)

theorem State.Exclusive.step (h : s.Exclusive) (hs : Step S s i outcome t) : t.Exclusive := by
  cases hs with
  | spin => exact h
  | @acquire body code hi hflag =>
      have hnone (j : τ) : ¬ s.Inside j := by
        intro hj
        rw [h.flag.mpr ⟨j, hj⟩] at hflag
        cases hflag
      have honly (j : τ) (hj : (s.set i (.inside body code)).Inside j) : j = i := by
        by_contra hne
        exact hnone j ((inside_set_of_ne hne _).mp hj)
      exact ⟨iff_of_true rfl ⟨i, inside_set_self body code⟩,
        fun j k hj hk => (honly j hj).trans (honly k hk).symm⟩
  | @free a code hi =>
      have hset := h.set_outside (not_inside_of_outside hi) code
      exact ⟨hset.flag, hset.one⟩
  | @inside m rest code hi =>
      have hin : s.Inside i := ⟨m :: rest, code, hi⟩
      have honly (j : τ) (hj : (s.set i (.inside rest code)).Inside j) : j = i := by
        by_contra hne
        exact hne (h.one j i ((inside_set_of_ne hne _).mp hj) hin)
      exact ⟨iff_of_true (h.flag.mpr ⟨i, hin⟩) ⟨i, inside_set_self rest code⟩,
        fun j k hj hk => (honly j hj).trans (honly k hk).symm⟩
  | @release code hi =>
      have hnone (j : τ) : ¬ (s.set i (.outside code)).Inside j := by
        intro hj
        by_cases hne : j = i
        · subst hne
          exact not_inside_set_self code hj
        · exact hne (h.one j i ((inside_set_of_ne hne _).mp hj) ⟨[], code, hi⟩)
      refine ⟨iff_of_false Bool.false_ne_true fun hex => ?_, fun j _ hj => absurd hj (hnone j)⟩
      rcases hex with ⟨j, hj⟩
      exact hnone j hj

/-! ## Bodies are taken at once -/

/-- The guarded store as if each body were taken when the flag is cleared: `x` is the
store without the body that a thread is in, and `code` counts this body as not taken. -/
structure State.Commits (S : Semantics σ υ μ α β) (s : State τ σ υ μ α) (x : σ)
    (code : τ → List (Block μ α)) : Prop where
  outside : ∀ i c, s.threads i = .outside c → code i = c
  inside : ∀ i rest c, s.threads i = .inside rest c →
    ∃ done, code i = .locked (done ++ rest) :: c ∧ s.guarded = S.body done x
  idle : (∀ i, ¬ s.Inside i) → s.guarded = x

theorem State.Commits.set_outside {x : σ} {code : τ → List (Block μ α)}
    (h : s.Commits S x code) (hi : ¬ s.Inside i) (c : List (Block μ α)) :
    (s.set i (.outside c)).Commits S x (Function.update code i c) where
  outside j d hj := by
    by_cases hne : j = i
    · subst hne
      simp only [State.set, Function.update_self, Thread.outside.injEq] at hj
      rw [Function.update_self, hj]
    · simp only [State.set, Function.update_of_ne hne] at hj
      rw [Function.update_of_ne hne, h.outside j d hj]
  inside j rest d hj := by
    have hne : j ≠ i := by
      intro heq
      subst heq
      exact not_inside_set_self c ⟨rest, d, hj⟩
    simp only [State.set, Function.update_of_ne hne] at hj
    rw [Function.update_of_ne hne]
    exact h.inside j rest d hj
  idle hnone := by
    refine h.idle fun j hj => ?_
    by_cases hne : j = i
    · subst hne
      exact hi hj
    · exact hnone j ((inside_set_of_ne hne _).mpr hj)

theorem State.Commits.set_inside {x y : σ} {flag : Bool} {code : τ → List (Block μ α)}
    (done : List μ) {rest : List μ} {c : List (Block μ α)} (h : s.Commits S x code)
    (hone : ∀ j, s.Inside j → j = i) (hcode : code i = .locked (done ++ rest) :: c)
    (hy : y = S.body done x) :
    State.Commits S { s.set i (.inside rest c) with flag := flag, guarded := y } x code where
  outside j d hj := by
    have hne : j ≠ i := by
      intro heq
      subst heq
      simp [State.set] at hj
    simp only [State.set, Function.update_of_ne hne] at hj
    exact h.outside j d hj
  inside j rest' d hj := by
    by_cases hne : j = i
    · subst hne
      simp only [State.set, Function.update_self, Thread.inside.injEq] at hj
      obtain ⟨rfl, rfl⟩ := hj
      exact ⟨done, hcode, hy⟩
    · simp only [State.set, Function.update_of_ne hne] at hj
      exact absurd (hone j ⟨rest', d, hj⟩) hne
  idle hnone := absurd (inside_set_self rest c) (hnone i)

/-- A step is not seen from outside, or it is a whole body, or a step on the second
store. -/
theorem State.Commits.step {x : σ} {code : τ → List (Block μ α)} (he : s.Exclusive)
    (h : s.Commits S x code) (hs : Step S s i outcome t) :
    (t.free = s.free ∧ t.Commits S x code) ∨
    (∃ body c, code i = .locked body :: c ∧ t.free = s.free ∧
      t.Commits S (S.body body x) (Function.update code i c)) ∨
    (∃ a c, code i = .free a :: c ∧ t.free = S.outside a outcome s.free ∧
      t.Commits S x (Function.update code i c)) := by
  cases hs with
  | spin => exact .inl ⟨rfl, h⟩
  | @acquire body c hi hflag =>
      have hnone (j : τ) : ¬ s.Inside j := by
        intro hj
        rw [he.flag.mpr ⟨j, hj⟩] at hflag
        cases hflag
      exact .inl ⟨rfl, h.set_inside [] (fun j hj => absurd hj (hnone j))
        (h.outside i _ hi) (h.idle hnone)⟩
  | @free a c hi =>
      have hset := h.set_outside (not_inside_of_outside hi) c
      exact .inr (.inr ⟨a, c, h.outside i _ hi, rfl, hset.outside, hset.inside, hset.idle⟩)
  | @inside m rest c hi =>
      obtain ⟨done, hcode, hguarded⟩ := h.inside i _ c hi
      refine .inl ⟨rfl, h.set_inside (done ++ [m])
        (fun j hj => he.one j i hj ⟨_, c, hi⟩) ?_ ?_⟩
      · rw [hcode, List.append_assoc]
        rfl
      · rw [S.body_concat, ← hguarded]
  | @release c hi =>
      obtain ⟨done, hcode, hguarded⟩ := h.inside i _ c hi
      rw [List.append_nil] at hcode
      have honly (j : τ) (hj : s.Inside j) : j = i := he.one j i hj ⟨_, c, hi⟩
      refine .inr (.inl ⟨done, c, hcode, rfl, ?_, ?_, fun _ => hguarded⟩)
      · intro j d hj
        by_cases hne : j = i
        · subst hne
          simp only [State.set, Function.update_self, Thread.outside.injEq] at hj
          rw [Function.update_self, hj]
        · simp only [State.set, Function.update_of_ne hne] at hj
          rw [Function.update_of_ne hne, h.outside j d hj]
      · intro j rest d hj
        by_cases hne : j = i
        · subst hne
          simp [State.set] at hj
        · simp only [State.set, Function.update_of_ne hne] at hj
          exact absurd (honly j ⟨rest, d, hj⟩) hne

/-! ## Progress -/

def Block.weight : Block μ α → Nat
  | .locked body => body.length + 2
  | .free _ => 1

/-- The steps that a thread still has to take, tries apart. -/
def Thread.weight : Thread μ α → Nat
  | .outside code => (code.map Block.weight).sum
  | .inside rest code => rest.length + 1 + (code.map Block.weight).sum

/-- A step in vain is one against another thread inside; every other step is a step of
the thread's own code. -/
theorem step_weight (he : s.Exclusive) (hs : Step S s i outcome t) :
    (t = s ∧ ∃ j, j ≠ i ∧ s.Inside j) ∨
      (t.threads i).weight + 1 = (s.threads i).weight ∧ ∀ j, j ≠ i → t.threads j = s.threads j := by
  have hothers (thread : Thread μ α) (j : τ) (hj : j ≠ i) :
      (s.set i thread).threads j = s.threads j := Function.update_of_ne hj ..
  have hself (thread : Thread μ α) : (s.set i thread).threads i = thread :=
    Function.update_self ..
  cases hs with
  | spin hi hflag =>
      obtain ⟨j, hj⟩ := he.flag.mp hflag
      refine .inl ⟨rfl, j, ?_, hj⟩
      intro heq
      subst heq
      exact not_inside_of_outside hi hj
  | acquire hi _ =>
      refine .inr ⟨?_, hothers _⟩
      simp only [hself, hi, Thread.weight, List.map_cons, List.sum_cons, Block.weight]
      omega
  | free hi =>
      refine .inr ⟨?_, hothers _⟩
      simp only [hself, hi, Thread.weight, List.map_cons, List.sum_cons, Block.weight]
      omega
  | inside hi =>
      refine .inr ⟨?_, hothers _⟩
      simp only [hself, hi, Thread.weight, List.length_cons]
      omega
  | release hi =>
      refine .inr ⟨?_, hothers _⟩
      simp only [hself, hi, Thread.weight, List.length_nil]
      omega

theorem isSome_step (S : Semantics σ υ μ α β) (h : s.threads i ≠ .outside []) (outcome : β) :
    (step S s i outcome).isSome = true := by
  unfold step
  split
  · rename_i hi
    exact absurd hi h
  · split <;> rfl
  · rfl
  · rfl
  · rfl

/-- No deadlock: while a thread has code left, some thread can take a step that is not
in vain. -/
theorem exists_progress (S : Semantics σ υ μ α β) (he : s.Exclusive)
    (h : s.threads i ≠ .outside []) : ∃ j, s.threads j ≠ .outside [] ∧
      ∀ (outcome : β) t, step S s j outcome = some t →
        (t.threads j).weight < (s.threads j).weight := by
  have hgo (j : τ) (hj : ∀ k, k ≠ j → ¬ s.Inside k) (outcome : β) (t : State τ σ υ μ α)
      (ht : step S s j outcome = some t) : (t.threads j).weight < (s.threads j).weight := by
    rcases step_weight he (step_cases ht) with ⟨-, k, hk, hin⟩ | ⟨hweight, -⟩
    · exact absurd hin (hj k hk)
    · omega
  by_cases hin : ∃ j, s.Inside j
  · obtain ⟨j, hj⟩ := hin
    refine ⟨j, ?_, hgo j fun k hk hkin => hk (he.one k j hkin hj)⟩
    intro hout
    exact not_inside_of_outside hout hj
  · exact ⟨i, h, hgo i fun k _ hk => hin ⟨k, hk⟩⟩

end WsGateway.Lib.SpinLock
