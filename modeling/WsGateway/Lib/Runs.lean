import Mathlib.Data.List.Induction

/-!
# Runs of a labelled partial machine

A machine is a partial step function on states and events: `none` means that
the event is not enabled in the state. A run is a list of events executed from
a given state. The rules below carry an invariant along a run, along a run
whose steps meet a guard, and decide exactly which runs stay inside a set of
good states.
-/

namespace WsGateway.Lib.Runs

variable {σ ε : Type*} {step : σ → ε → Option σ}

/-- Execute the events in order; `none` as soon as one of them is not enabled. -/
def exec (step : σ → ε → Option σ) : σ → List ε → Option σ
  | s, [] => some s
  | s, e :: es => (step s e).bind fun m => exec step m es

@[simp] theorem exec_nil (s : σ) : exec step s [] = some s := rfl

@[simp] theorem exec_cons (s : σ) (e : ε) (es : List ε) :
    exec step s (e :: es) = (step s e).bind fun m => exec step m es := rfl

theorem exec_append (s : σ) (es fs : List ε) :
    exec step s (es ++ fs) = (exec step s es).bind fun m => exec step m fs := by
  induction es generalizing s with
  | nil => rfl
  | cons e es ih =>
      cases h : step s e with
      | none => simp [h]
      | some m => simpa [h] using ih m

theorem exec_concat (s : σ) (es : List ε) (e : ε) :
    exec step s (es ++ [e]) = (exec step s es).bind fun m => step m e := by
  rw [exec_append]
  congr 1
  funext m
  cases h : step m e <;> simp [h]

theorem exec_concat_some {s t : σ} {es : List ε} {e : ε}
    (h : exec step s (es ++ [e]) = some t) :
    ∃ m, exec step s es = some m ∧ step m e = some t := by
  rw [exec_concat] at h
  exact Option.bind_eq_some_iff.mp h

/-! ## States and steps of a run -/

/-- `m` is one of the states that the run of `es` from `s` visits. -/
def Visits (step : σ → ε → Option σ) (s : σ) (es : List ε) (m : σ) : Prop :=
  ∃ pre, pre <+: es ∧ exec step s pre = some m

/-- The run of `es` from `s` executes the event `e` in the state `m`. -/
def Takes (step : σ → ε → Option σ) (s : σ) (es : List ε) (m : σ) (e : ε) : Prop :=
  ∃ pre, pre ++ [e] <+: es ∧ exec step s pre = some m

theorem Visits.final {s t : σ} {es : List ε} (h : exec step s es = some t) :
    Visits step s es t := ⟨es, List.prefix_refl es, h⟩

theorem Visits.mono {s m : σ} {es fs : List ε} (h : Visits step s es m) (hp : es <+: fs) :
    Visits step s fs m := by
  rcases h with ⟨pre, hpre, hm⟩
  exact ⟨pre, hpre.trans hp, hm⟩

theorem Takes.mono {s m : σ} {e : ε} {es fs : List ε} (h : Takes step s es m e)
    (hp : es <+: fs) : Takes step s fs m e := by
  rcases h with ⟨pre, hpre, hm⟩
  exact ⟨pre, hpre.trans hp, hm⟩

theorem Takes.mem {s m : σ} {e : ε} {es : List ε} (h : Takes step s es m e) : e ∈ es := by
  rcases h with ⟨pre, hpre, -⟩
  exact hpre.subset (by simp)

theorem Takes.visits {s m : σ} {e : ε} {es : List ε} (h : Takes step s es m e) :
    Visits step s es m := by
  rcases h with ⟨pre, hpre, hm⟩
  exact ⟨pre, (List.prefix_append pre [e]).trans hpre, hm⟩

theorem Visits.exec {s t m : σ} {es fs : List ε} (hes : Runs.exec step s es = some t)
    (h : Visits step t fs m) : ∃ gs, Runs.exec step s gs = some m := by
  rcases h with ⟨pre, -, hm⟩
  exact ⟨es ++ pre, by rw [exec_append, hes]; exact hm⟩

theorem visits_nil_iff {s m : σ} : Visits step s [] m ↔ m = s := by
  constructor
  · intro h
    rcases h with ⟨pre, hpre, hm⟩
    rw [List.prefix_nil] at hpre
    subst hpre
    exact (Option.some.inj hm).symm
  · intro h
    subst h
    exact Visits.final rfl

theorem visits_cons_iff {s m : σ} {e : ε} {es : List ε} :
    Visits step s (e :: es) m ↔ m = s ∨ ∃ t, step s e = some t ∧ Visits step t es m := by
  constructor
  · intro h
    rcases h with ⟨pre, hpre, hm⟩
    rcases List.prefix_cons_iff.mp hpre with heq | ⟨tail, heq, htail⟩
    · subst heq
      exact .inl (Option.some.inj hm).symm
    · subst heq
      obtain ⟨t, ht, hm⟩ := Option.bind_eq_some_iff.mp hm
      exact .inr ⟨t, ht, tail, htail, hm⟩
  · intro h
    rcases h with heq | ⟨t, ht, pre, hpre, hm⟩
    · subst heq
      exact ⟨[], List.nil_prefix, rfl⟩
    · exact ⟨e :: pre, List.cons_prefix_cons.mpr ⟨rfl, hpre⟩, by rw [exec_cons, ht]; exact hm⟩

theorem takes_cons_iff {s m : σ} {e f : ε} {es : List ε} :
    Takes step s (e :: es) m f ↔
      (m = s ∧ f = e) ∨ ∃ t, step s e = some t ∧ Takes step t es m f := by
  constructor
  · intro h
    rcases h with ⟨pre, hpre, hm⟩
    cases pre with
    | nil =>
        cases hm
        exact .inl ⟨rfl, (List.cons_prefix_cons.mp hpre).1⟩
    | cons e' pre =>
        obtain ⟨heq, hrest⟩ := List.cons_prefix_cons.mp hpre
        obtain ⟨t, ht, hm⟩ := Option.bind_eq_some_iff.mp hm
        exact .inr ⟨t, heq ▸ ht, pre, hrest, hm⟩
  · intro h
    rcases h with ⟨rfl, rfl⟩ | ⟨t, ht, pre, hpre, hm⟩
    · exact ⟨[], List.cons_prefix_cons.mpr ⟨rfl, List.nil_prefix⟩, rfl⟩
    · refine ⟨e :: pre, List.cons_prefix_cons.mpr ⟨rfl, hpre⟩, ?_⟩
      rw [exec_cons, ht]
      exact hm

theorem takes_append {s m : σ} {e : ε} {es fs : List ε} (h : Takes step s (es ++ fs) m e) :
    Takes step s es m e ∨ ∃ t, exec step s es = some t ∧ Takes step t fs m e := by
  induction es generalizing s with
  | nil => exact .inr ⟨s, rfl, h⟩
  | cons f es ih =>
      rcases takes_cons_iff.mp h with heq | ⟨t, ht, htakes⟩
      · exact .inl (takes_cons_iff.mpr (.inl heq))
      · rcases ih htakes with hes | ⟨u, hu, hfs⟩
        · exact .inl (takes_cons_iff.mpr (.inr ⟨t, ht, hes⟩))
        · refine .inr ⟨u, ?_, hfs⟩
          rw [exec_cons, ht]
          exact hu

/-- A guard at each step of the run of a list, one after the other. -/
def Guarded (step : σ → ε → Option σ) (guard : σ → ε → Prop) : σ → List ε → Prop
  | _, [] => True
  | s, e :: es => guard s e ∧ (step s e).elim True fun t => Guarded step guard t es

theorem Guarded.cons {guard : σ → ε → Prop} {s t : σ} {e : ε} {es : List ε} (hguard : guard s e)
    (ht : step s e = some t) (h : Guarded step guard t es) : Guarded step guard s (e :: es) := by
  refine ⟨hguard, ?_⟩
  rw [ht]
  exact h

theorem guarded_iff {guard : σ → ε → Prop} {s : σ} {es : List ε} :
    Guarded step guard s es ↔ ∀ m e, Takes step s es m e → guard m e := by
  induction es generalizing s with
  | nil =>
      refine iff_of_true trivial fun m e h => ?_
      cases h.mem
  | cons e es ih =>
      have hrest : (step s e).elim True (fun t => Guarded step guard t es) ↔
          ∀ t, step s e = some t → ∀ m f, Takes step t es m f → guard m f := by
        cases hs : step s e with
        | none => simp
        | some t => simpa using ih
      rw [Guarded, hrest]
      constructor
      · intro h m f htakes
        rcases takes_cons_iff.mp htakes with ⟨rfl, rfl⟩ | ⟨t, ht, htakes⟩
        · exact h.1
        · exact h.2 t ht m f htakes
      · intro h
        exact ⟨h s e (takes_cons_iff.mpr (.inl ⟨rfl, rfl⟩)), fun t ht m f htakes =>
          h m f (takes_cons_iff.mpr (.inr ⟨t, ht, htakes⟩))⟩

/-! ## Invariants -/

/-- What holds at the start and is preserved by each step holds after every run;
the invariant may speak about the events executed so far. -/
theorem trace_invariant {s : σ} (Inv : List ε → σ → Prop) (h0 : Inv [] s)
    (hstep : ∀ es m e m', Inv es m → step m e = some m' → Inv (es ++ [e]) m')
    {es : List ε} {t : σ} (h : exec step s es = some t) : Inv es t := by
  induction es using List.reverseRecOn generalizing t with
  | nil =>
      cases h
      exact h0
  | append_singleton es e ih =>
      obtain ⟨m, hm, ht⟩ := exec_concat_some h
      exact hstep es m e t (ih hm) ht

theorem invariant {s : σ} {Inv : σ → Prop} (h0 : Inv s)
    (hstep : ∀ m e m', Inv m → step m e = some m' → Inv m')
    {es : List ε} {t : σ} (h : exec step s es = some t) : Inv t :=
  trace_invariant (fun _ m => Inv m) h0 (fun _ => hstep) h

/-- An invariant that each step preserves under a guard, along a run all of
whose steps meet the guard. -/
theorem guarded_invariant {s : σ} (Inv : σ → Prop) (guard : σ → ε → Prop) (h0 : Inv s)
    (hstep : ∀ m e m', Inv m → guard m e → step m e = some m' → Inv m')
    {es : List ε} (hg : ∀ m e, Takes step s es m e → guard m e)
    {t : σ} (h : exec step s es = some t) : Inv t := by
  induction es using List.reverseRecOn generalizing t with
  | nil =>
      cases h
      exact h0
  | append_singleton es e ih =>
      obtain ⟨m, hm, ht⟩ := exec_concat_some h
      have hpre : es <+: es ++ [e] := List.prefix_append es [e]
      have hinv : Inv m := ih (fun n f hn => hg n f (hn.mono hpre)) hm
      exact hstep m e t hinv (hg m e ⟨es, List.prefix_refl _, hm⟩) ht

theorem guarded_invariant_visits {s : σ} {Inv : σ → Prop} {guard : σ → ε → Prop} (h0 : Inv s)
    (hstep : ∀ m e m', Inv m → guard m e → step m e = some m' → Inv m')
    {es : List ε} (hg : ∀ m e, Takes step s es m e → guard m e)
    {m : σ} (h : Visits step s es m) : Inv m := by
  rcases h with ⟨pre, hpre, hm⟩
  exact guarded_invariant Inv guard h0 hstep (fun n f hn => hg n f (hn.mono hpre)) hm

/-- Which runs stay good. If the guard keeps the invariant, and a step against
the guard leaves the good states, then a run visits good states only exactly
when each of its steps meets the guard. -/
theorem visits_good_iff {s : σ} (Inv : σ → Prop) {Good : σ → Prop} {guard : σ → ε → Prop}
    (h0 : Inv s) (hgood : ∀ m, Inv m → Good m)
    (hstep : ∀ m e m', Inv m → guard m e → step m e = some m' → Inv m')
    (hbad : ∀ m e m', Inv m → ¬ guard m e → step m e = some m' → ¬ Good m')
    {es : List ε} (h : (exec step s es).isSome) :
    (∀ m, Visits step s es m → Good m) ↔ ∀ m e, Takes step s es m e → guard m e := by
  constructor
  · intro hall
    rw [Option.isSome_iff_exists] at h
    rcases h with ⟨t, h⟩
    -- by induction on the run: before the last step the guard was met, so `Inv` holds there
    induction es using List.reverseRecOn generalizing t with
    | nil =>
        intro m e htakes
        rcases htakes with ⟨pre, hpre, -⟩
        simp at hpre
    | append_singleton es f ih =>
        obtain ⟨n, hn, ht⟩ := exec_concat_some h
        have hpre : es <+: es ++ [f] := List.prefix_append es [f]
        have hg := ih (fun m hm => hall m (hm.mono hpre)) n hn
        have hinv : Inv n := guarded_invariant Inv guard h0 hstep hg hn
        intro m e htakes
        rcases htakes with ⟨pre, hp, hm⟩
        rcases List.prefix_concat_iff.mp hp with heq | hlt
        · obtain ⟨rfl, he⟩ := List.append_inj' heq rfl
          obtain rfl : e = f := by simpa using he
          obtain rfl : n = m := Option.some.inj (hn.symm.trans hm)
          by_contra hng
          exact hbad n e t hinv hng ht (hall t (Visits.final h))
        · exact hg m e ⟨pre, hlt, hm⟩
  · intro hg m hm
    exact hgood m (guarded_invariant_visits h0 hstep hg hm)

/-! ## Runs that end -/

/-- Each step uses up some of a measure, so that a run has no more steps than that. -/
theorem exec_length_le (measure : σ → Nat)
    (hdec : ∀ s e t, step s e = some t → measure t < measure s) {s t : σ} {es : List ε}
    (h : exec step s es = some t) : es.length + measure t ≤ measure s := by
  induction es generalizing s with
  | nil =>
      cases h
      simp
  | cons e es ih =>
      obtain ⟨m, hm, ht⟩ := Option.bind_eq_some_iff.mp h
      have hlt := hdec s e m hm
      have hle := ih ht
      rw [List.length_cons]
      omega

theorem exists_final_run (measure : σ → Nat)
    (hdec : ∀ s e t, step s e = some t → measure t < measure s) (s : σ) :
    ∃ es t, exec step s es = some t ∧ ∀ e, step t e = none := by
  induction hn : measure s using Nat.strongRecOn generalizing s with
  | ind n ih =>
      by_cases hfinal : ∀ e, step s e = none
      · exact ⟨[], s, rfl, hfinal⟩
      · obtain ⟨e, he⟩ := not_forall.mp hfinal
        obtain ⟨m, hm⟩ := Option.ne_none_iff_exists'.mp he
        obtain ⟨es, t, hrun, ht⟩ := ih (measure m) (hn ▸ hdec s e m hm) m rfl
        refine ⟨e :: es, t, ?_, ht⟩
        rw [exec_cons, hm]
        exact hrun

end WsGateway.Lib.Runs
