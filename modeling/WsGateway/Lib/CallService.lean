import Mathlib.Data.List.Forall2
import WsGateway.Lib.Lists
import WsGateway.Lib.Runs

/-!
# Calls that are forwarded and answered once

A service accepts calls. It forwards a call at most once, as one of the requests
that can be made of it, settles it with a result or without one, and answers what
it has settled. No result comes from a call that was not forwarded.
-/

namespace WsGateway.Lib.CallService

open Runs

variable {κ ρ α ω : Type*}

inductive Status (α : Type*)
  | waiting
  | settled (result : Option α)
  | answered (result : Option α)

structure Entry (κ ρ α : Type*) where
  call : κ
  forwarded : Option ρ
  status : Status α

structure State (κ ρ α : Type*) where
  entries : List (Entry κ ρ α)
  /-- the answers, in the order in which they were given -/
  answers : List (Nat × Option α)

def State.initial : State κ ρ α := ⟨[], []⟩

inductive Event (κ α ω : Type*)
  | accept (call : κ)
  | forward (k : Nat) (choice : ω)
  | settle (k : Nat) (result : Option α)
  | answer (k : Nat)

def State.set (v : State κ ρ α) (k : Nat) (e : Entry κ ρ α) : State κ ρ α :=
  { v with entries := v.entries.set k e }

/-- The service, where `request call choice` is the request that is made of a call. -/
def step (request : κ → ω → Option ρ) (v : State κ ρ α) :
    Event κ α ω → Option (State κ ρ α)
  | .accept call => some { v with entries := v.entries ++ [⟨call, none, .waiting⟩] }
  | .forward k choice =>
      match v.entries[k]? with
      | some ⟨call, none, .waiting⟩ =>
          (request call choice).map fun r => v.set k ⟨call, some r, .waiting⟩
      | _ => none
  | .settle k result =>
      match v.entries[k]? with
      | some ⟨call, forwarded, .waiting⟩ =>
          if result.isSome ∧ forwarded.isNone then none
          else some (v.set k ⟨call, forwarded, .settled result⟩)
      | _ => none
  | .answer k =>
      match v.entries[k]? with
      | some ⟨call, forwarded, .settled result⟩ =>
          some { v.set k ⟨call, forwarded, .answered result⟩ with
            answers := v.answers ++ [(k, result)] }
      | _ => none

/-! ## Steps that are enabled -/

theorem step_forward {request : κ → ω → Option ρ} {v : State κ ρ α} {k : Nat} {call : κ}
    (h : v.entries[k]? = some ⟨call, none, .waiting⟩) {choice : ω} {r : ρ}
    (hr : request call choice = some r) :
    step request v (.forward k choice) = some (v.set k ⟨call, some r, .waiting⟩) := by
  simp only [step, h, hr, Option.map_some]

theorem step_settle {request : κ → ω → Option ρ} {v : State κ ρ α} {k : Nat} {call : κ}
    {forwarded : Option ρ} (h : v.entries[k]? = some ⟨call, forwarded, .waiting⟩)
    {result : Option α} (hr : result.isSome → forwarded.isSome) :
    step request v (.settle k result) = some (v.set k ⟨call, forwarded, .settled result⟩) := by
  have hno : ¬ (result.isSome ∧ forwarded.isNone) := by
    intro hboth
    have hsome := hr hboth.1
    rw [Option.isNone_iff_eq_none.mp hboth.2] at hsome
    cases hsome
  simp only [step, h, if_neg hno]

theorem step_answer {request : κ → ω → Option ρ} {v : State κ ρ α} {k : Nat} {call : κ}
    {forwarded : Option ρ} {result : Option α}
    (h : v.entries[k]? = some ⟨call, forwarded, .settled result⟩) :
    step request v (.answer k) = some { v.set k ⟨call, forwarded, .answered result⟩ with
      answers := v.answers ++ [(k, result)] } := by
  simp only [step, h]

/-! ## What a step can do -/

theorem step_cases {request : κ → ω → Option ρ} {v v' : State κ ρ α} {a : Event κ α ω}
    (h : step request v a = some v') :
    (∃ call, v' = { v with entries := v.entries ++ [⟨call, none, .waiting⟩] }) ∨
    (∃ k call choice r, v.entries[k]? = some ⟨call, none, .waiting⟩ ∧
      request call choice = some r ∧ v' = v.set k ⟨call, some r, .waiting⟩) ∨
    (∃ k call forwarded result, v.entries[k]? = some ⟨call, forwarded, .waiting⟩ ∧
      (result.isSome → forwarded.isSome) ∧ v' = v.set k ⟨call, forwarded, .settled result⟩) ∨
    (∃ k call forwarded result, v.entries[k]? = some ⟨call, forwarded, .settled result⟩ ∧
      v' = { v.set k ⟨call, forwarded, .answered result⟩ with
        answers := v.answers ++ [(k, result)] }) := by
  cases a with
  | accept call =>
      cases h
      exact .inl ⟨call, rfl⟩
  | forward k choice =>
      simp only [step] at h
      split at h
      · rename_i call hk
        obtain ⟨r, hr, rfl⟩ := Option.map_eq_some_iff.mp h
        exact .inr (.inl ⟨k, call, choice, r, hk, hr, rfl⟩)
      · cases h
  | settle k result =>
      simp only [step] at h
      split at h
      · rename_i call forwarded hk
        split at h
        · cases h
        · rename_i hno
          cases h
          refine .inr (.inr (.inl ⟨k, call, forwarded, result, hk, fun hr => ?_, rfl⟩))
          cases forwarded with
          | none => exact absurd ⟨hr, rfl⟩ hno
          | some r => rfl
      · cases h
  | answer k =>
      simp only [step] at h
      split at h
      · rename_i call forwarded result hk
        cases h
        exact .inr (.inr (.inr ⟨k, call, forwarded, result, hk, rfl⟩))
      · cases h

/-! ## Every run -/

def Status.result? : Status α → Option (Option α)
  | .waiting => none
  | .settled result | .answered result => some result

def Status.answered? : Status α → Option (Option α)
  | .answered result => some result
  | _ => none

/-- What was forwarded is a request of the call, and a result has been asked for. -/
structure Entry.Sound (request : κ → ω → Option ρ) (e : Entry κ ρ α) : Prop where
  forwarded : ∀ r, e.forwarded = some r → ∃ choice, request e.call choice = some r
  result : ∀ a, e.status.result? = some (some a) → e.forwarded.isSome

def State.answersOf (v : State κ ρ α) (k : Nat) : List (Option α) :=
  (v.answers.filter fun a => a.1 = k).map Prod.snd

structure State.Sound (request : κ → ω → Option ρ) (v : State κ ρ α) : Prop where
  entries : ∀ (k : Nat) (e : Entry κ ρ α), v.entries[k]? = some e → e.Sound request
  answers : ∀ (k : Nat) (e : Entry κ ρ α), v.entries[k]? = some e →
    v.answersOf k = e.status.answered?.toList
  owned : ∀ a ∈ v.answers, a.1 < v.entries.length

theorem sound_initial (request : κ → ω → Option ρ) :
    (State.initial : State κ ρ α).Sound request where
  entries _ _ h := by cases h
  answers _ _ h := by cases h
  owned _ h := by cases h

theorem State.Sound.set {request : κ → ω → Option ρ} {v : State κ ρ α} (h : v.Sound request)
    {k : Nat} {e e' : Entry κ ρ α} (hk : v.entries[k]? = some e) (he : e'.Sound request)
    (answers : List (Nat × Option α)) (howner : ∀ a ∈ answers, a.1 = k)
    (hanswers : e.status.answered?.toList ++ answers.map Prod.snd =
      e'.status.answered?.toList) :
    State.Sound request { v.set k e' with answers := v.answers ++ answers } := by
  have hlt : k < v.entries.length := (List.getElem?_eq_some_iff.mp hk).choose
  constructor
  · intro j f hf
    rcases getElem?_set_cases hf with ⟨-, rfl⟩ | ⟨-, hold⟩
    · exact he
    · exact h.entries j f hold
  · intro j f hf
    rw [State.answersOf, List.filter_append, List.map_append]
    rcases getElem?_set_cases hf with ⟨rfl, rfl⟩ | ⟨hj, hold⟩
    · have hall : answers.filter (fun a => a.1 = j) = answers := by
        rw [List.filter_eq_self]
        simpa using howner
      rw [hall, ← hanswers, ← h.answers j e hk]
      rfl
    · have hnone : answers.filter (fun a => a.1 = j) = [] := by
        rw [List.filter_eq_nil_iff]
        intro a ha
        simpa [howner a ha] using Ne.symm hj
      rw [hnone, List.map_nil, List.append_nil, ← h.answers j f hold]
      rfl
  · intro a ha
    simp only [State.set, List.length_set]
    rcases List.mem_append.mp ha with hold | hnew
    · exact h.owned a hold
    · rw [howner a hnew]
      exact hlt

theorem State.Sound.step {request : κ → ω → Option ρ} {v v' : State κ ρ α} {a : Event κ α ω}
    (h : v.Sound request) (hs : CallService.step request v a = some v') : v'.Sound request := by
  rcases step_cases hs with ⟨call, rfl⟩ | ⟨k, call, choice, r, hk, hr, rfl⟩ |
    ⟨k, call, forwarded, result, hk, hr, rfl⟩ | ⟨k, call, forwarded, result, hk, rfl⟩
  · have hcases {j : Nat} {f : Entry κ ρ α}
        (hf : (v.entries ++ [⟨call, none, .waiting⟩])[j]? = some f) :
        v.entries[j]? = some f ∨ (v.entries.length ≤ j ∧ f = ⟨call, none, .waiting⟩) := by
      rcases Nat.lt_or_ge j v.entries.length with hlt | hge
      · rw [List.getElem?_append_left hlt] at hf
        exact .inl hf
      · rw [List.getElem?_append_right hge, List.getElem?_singleton] at hf
        split at hf
        · cases hf
          exact .inr ⟨hge, rfl⟩
        · cases hf
    constructor
    · intro j f hf
      rcases hcases hf with hold | ⟨-, rfl⟩
      · exact h.entries j f hold
      · constructor
        · intro r hr
          cases hr
        · intro b hb
          cases hb
    · intro j f hf
      rcases hcases hf with hold | ⟨hge, rfl⟩
      · exact h.answers j f hold
      · -- there is no answer yet to a call that is only accepted now
        have hnone : v.answers.filter (fun a => a.1 = j) = [] := by
          rw [List.filter_eq_nil_iff]
          intro a ha
          have hlt := h.owned a ha
          rw [decide_eq_true_eq]
          omega
        rw [State.answersOf, hnone]
        rfl
    · intro a ha
      have hlt := h.owned a ha
      rw [List.length_append]
      omega
  · have he : Entry.Sound request (⟨call, some r, .waiting⟩ : Entry κ ρ α) := by
      refine ⟨fun r' hr' => ?_, fun _ ha => by cases ha⟩
      cases hr'
      exact ⟨choice, hr⟩
    have hset := h.set hk he [] (by simp) rfl
    rwa [List.append_nil] at hset
  · have he : Entry.Sound request (⟨call, forwarded, .settled result⟩ : Entry κ ρ α) := by
      refine ⟨(h.entries k _ hk).forwarded, fun b hb => hr ?_⟩
      cases hb
      rfl
    have hset := h.set hk he [] (by simp) rfl
    rwa [List.append_nil] at hset
  · have hold := h.entries k _ hk
    have he : Entry.Sound request (⟨call, forwarded, .answered result⟩ : Entry κ ρ α) :=
      ⟨hold.forwarded, hold.result⟩
    exact h.set hk he [(k, result)] (by simp) rfl

/-- In every run of the service an entry is sound, and it has its one answer or none. -/
theorem sound_exec {request : κ → ω → Option ρ} {es : List (Event κ α ω)} {v : State κ ρ α}
    (h : exec (step request) .initial es = some v) : v.Sound request :=
  invariant (sound_initial request) (fun _ _ _ hv hs => hv.step hs) h

/-! ## Where the results come from -/

/-- A result of this event has the property. -/
def Event.Settles (P : α → Prop) : Event κ α ω → Prop
  | .settle _ (some a) => P a
  | _ => True

theorem settled_step {request : κ → ω → Option ρ} {P : α → Prop} {v v' : State κ ρ α}
    (h : ∀ e ∈ v.entries, ∀ a, e.status.result? = some (some a) → P a) {e : Event κ α ω}
    (he : e.Settles P) (hs : step request v e = some v') :
    ∀ e ∈ v'.entries, ∀ a, e.status.result? = some (some a) → P a := by
  intro f hf a ha
  cases e with
  | accept call =>
      cases hs
      rcases List.mem_append.mp hf with hold | hnew
      · exact h f hold a ha
      · rw [List.mem_singleton.mp hnew] at ha
        cases ha
  | forward k choice =>
      simp only [step] at hs
      split at hs
      · obtain ⟨r, -, rfl⟩ := Option.map_eq_some_iff.mp hs
        rcases List.mem_or_eq_of_mem_set hf with hold | rfl
        · exact h f hold a ha
        · cases ha
      · cases hs
  | settle k result =>
      simp only [step] at hs
      split at hs
      · split at hs
        · cases hs
        · cases hs
          rcases List.mem_or_eq_of_mem_set hf with hold | rfl
          · exact h f hold a ha
          · cases ha
            exact he
      · cases hs
  | answer k =>
      simp only [step] at hs
      split at hs
      · rename_i hk
        cases hs
        rcases List.mem_or_eq_of_mem_set hf with hold | rfl
        · exact h f hold a ha
        · exact h _ (List.mem_of_getElem? hk) a ha
      · cases hs

/-- What all results of a run have in common all of its answers have. -/
theorem answered_of_settles {request : κ → ω → Option ρ} {P : α → Prop}
    {es : List (Event κ α ω)} {v : State κ ρ α} (hes : ∀ e ∈ es, e.Settles P)
    (h : exec (step request) .initial es = some v) {k : Nat} {a : α}
    (ha : (k, some a) ∈ v.answers) : P a := by
  have hresults : ∀ e ∈ v.entries, ∀ a, e.status.result? = some (some a) → P a := by
    refine guarded_invariant (fun v : State κ ρ α => ∀ e ∈ v.entries, ∀ a,
      e.status.result? = some (some a) → P a) (fun _ e => e.Settles P) ?_ ?_ ?_ h
    · intro e he
      cases he
    · exact fun v e v' hv he hs => settled_step hv he hs
    · exact fun _ e htakes => hes e htakes.mem
  have hsound := sound_exec h
  obtain ⟨e, he⟩ : ∃ e, v.entries[k]? = some e :=
    ⟨_, List.getElem?_eq_getElem (hsound.owned _ ha)⟩
  have hmem : some a ∈ v.answersOf k :=
    List.mem_map.mpr ⟨(k, some a), List.mem_filter.mpr ⟨ha, by simp⟩, rfl⟩
  rw [hsound.answers k e he, Option.mem_toList] at hmem
  refine hresults e (List.mem_of_getElem? he) a ?_
  rcases e with ⟨call, forwarded, _ | result | result⟩
  · cases hmem
  · cases hmem
  · exact hmem

end WsGateway.Lib.CallService
