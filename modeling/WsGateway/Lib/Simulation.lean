import WsGateway.Lib.Runs

/-!
# Simulations between two machines

A concrete machine is simulated by an abstract one if every concrete step is
answered by a list of abstract events, none for a step that the abstract machine
does not see. Then so is every run, and what holds in all states that the
abstract runs reach holds, through the relation, in the concrete ones.
-/

namespace WsGateway.Lib.Runs

variable {σ ε σ' ε' : Type*} {step : σ → ε → Option σ} {step' : σ' → ε' → Option σ'}

/-- From related states each step is answered by events that `answers` allows, up
to related states. -/
def Simulates (step : σ → ε → Option σ) (step' : σ' → ε' → Option σ') (R : σ → σ' → Prop)
    (answers : ε → List ε' → Prop) : Prop :=
  ∀ s s' e t, R s s' → step s e = some t →
    ∃ fs t', answers e fs ∧ exec step' s' fs = some t' ∧ R t t'

theorem Simulates.exec {R : σ → σ' → Prop} {answers : ε → List ε' → Prop}
    (h : Simulates step step' R answers) {s t : σ} {s' : σ'} (hR : R s s') {es : List ε}
    (hrun : exec step s es = some t) :
    ∃ fss t', List.Forall₂ answers es fss ∧ exec step' s' fss.flatten = some t' ∧ R t t' := by
  induction es generalizing s s' with
  | nil =>
      cases hrun
      exact ⟨[], s', .nil, rfl, hR⟩
  | cons e es ih =>
      obtain ⟨m, hm, ht⟩ := Option.bind_eq_some_iff.mp hrun
      obtain ⟨fs, m', hfs, hm', hRm⟩ := h s s' e m hR hm
      obtain ⟨fss, t', hfss, ht', hRt⟩ := ih hRm ht
      refine ⟨fs :: fss, t', .cons hfs hfss, ?_, hRt⟩
      rw [List.flatten_cons, exec_append, hm']
      exact ht'

/-! ## Two ways to answer -/

/-- An event is answered by itself, or by nothing. -/
def Stutters (e : ε) (fs : List ε) : Prop := fs = [] ∨ fs = [e]

theorem sublist_of_stutters {es : List ε} {fss : List (List ε)}
    (h : List.Forall₂ Stutters es fss) : fss.flatten.Sublist es := by
  induction h with
  | nil => exact .slnil
  | cons h _ ih =>
      rw [List.flatten_cons]
      rcases h with rfl | rfl
      · exact ih.cons _
      · exact ih.cons_cons _

def Renames (r : ε → ε' → Prop) (e : ε) (fs : List ε') : Prop := ∃ f, fs = [f] ∧ r e f

theorem forall₂_of_renames {r : ε → ε' → Prop} {es : List ε} {fss : List (List ε')}
    (h : List.Forall₂ (Renames r) es fss) : List.Forall₂ r es fss.flatten := by
  induction h with
  | nil => exact .nil
  | cons h _ ih =>
      rcases h with ⟨f, rfl, hr⟩
      exact .cons hr ih

/-! ## Lists that correspond entry by entry -/

theorem forall₂_set {α β : Type*} {R : α → β → Prop} {l : List α} {l' : List β}
    (h : List.Forall₂ R l l') (k : Nat) {a : α} {b : β} (hab : R a b) :
    List.Forall₂ R (l.set k a) (l'.set k b) := by
  induction h generalizing k with
  | nil => exact .nil
  | cons hhead htail ih =>
      cases k with
      | zero => exact .cons hab htail
      | succ k => exact .cons hhead (ih k)

theorem forall₂_getElem? {α β : Type*} {R : α → β → Prop} {l : List α} {l' : List β}
    (h : List.Forall₂ R l l') {k : Nat} {a : α} (ha : l[k]? = some a) :
    ∃ b, l'[k]? = some b ∧ R a b := by
  induction h generalizing k with
  | nil => cases ha
  | cons hhead htail ih =>
      cases k with
      | zero =>
          cases ha
          exact ⟨_, rfl, hhead⟩
      | succ k => exact ih ha

theorem forall₂_map_eq {α β γ : Type*} {R : α → β → Prop} {l : List α} {l' : List β}
    (h : List.Forall₂ R l l') {f : α → γ} {g : β → γ} (hfg : ∀ a b, R a b → f a = g b) :
    l.map f = l'.map g := by
  induction h with
  | nil => rfl
  | cons hhead _ ih => rw [List.map_cons, List.map_cons, hfg _ _ hhead, ih]

/-! ## Machines that agree where an invariant holds -/

/-- On events that keep the invariant, two machines that agree under it have the same
runs. -/
theorem exec_congr {step₁ step₂ : σ → ε → Option σ} {Inv : σ → Prop} {P : ε → Prop}
    (hagree : ∀ s e, Inv s → P e → step₁ s e = step₂ s e)
    (hinv : ∀ s e t, Inv s → P e → step₂ s e = some t → Inv t) {s : σ} (hs : Inv s)
    {es : List ε} (hes : ∀ e ∈ es, P e) : exec step₁ s es = exec step₂ s es := by
  induction es generalizing s with
  | nil => rfl
  | cons e es ih =>
      have he : P e := hes e List.mem_cons_self
      rw [exec_cons, exec_cons, hagree s e hs he]
      cases hm : step₂ s e with
      | none => rfl
      | some m =>
          exact ih (hinv s e m hs he hm) fun f hf => hes f (List.mem_cons_of_mem e hf)

def restrict (step : σ → ε → Option σ) (P : ε → Prop) [DecidablePred P] : σ → ε → Option σ :=
  fun s e => if P e then step s e else none

theorem exec_restrict (P : ε → Prop) [DecidablePred P] (s : σ) {es : List ε}
    (hes : ∀ e ∈ es, P e) : exec (restrict step P) s es = exec step s es :=
  @exec_congr σ ε (restrict step P) step (fun _ => True) P (fun _ _ _ he => if_pos he)
    (fun _ _ _ _ _ _ => trivial) s trivial es hes

theorem of_exec_restrict {P : ε → Prop} [DecidablePred P] {s t : σ} {es : List ε}
    (h : exec (restrict step P) s es = some t) : (∀ e ∈ es, P e) ∧ exec step s es = some t := by
  have hes : ∀ e ∈ es, P e := by
    induction es generalizing s with
    | nil =>
        intro e he
        cases he
    | cons f es ih =>
        obtain ⟨m, hm, ht⟩ := Option.bind_eq_some_iff.mp h
        unfold restrict at hm
        split at hm
        · rename_i hf
          exact List.forall_mem_cons.mpr ⟨hf, ih ht⟩
        · cases hm
  exact ⟨hes, (exec_restrict P s hes).symm.trans h⟩

end WsGateway.Lib.Runs
