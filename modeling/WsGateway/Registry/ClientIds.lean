import WsGateway.Registry.HalfSteps

/-!
# Connections without a usable client id

`onAfterCreate_NonBlocking` logs that the parameter `ClientId` is missing or empty
and goes on. A missing one is dereferenced, after which nothing is known about the
process any more; an empty one is registered like any other.
-/

namespace WsGateway.Registry

open Lib Lib.Runs

/-- The gateway, or what is left of it after `params->end()` was dereferenced. -/
inductive Process
  | running (σ : Threads)
  | undefined

/-- A step of the callbacks, also of one that finds no parameter `ClientId`. -/
def Process.step (name : Bytes) : Process → Move → Option Process
  | .undefined, _ => none
  | .running σ, .afterCreate s params =>
      if σ.socks s = none ∧ params.lookup clientIdKey = none then some .undefined
      else (σ.step name (.afterCreate s params)).map .running
  | .running σ, e => (σ.step name e).map .running

def Action.Inert (a : Action) : Prop :=
  ∀ ok st, (a.apply ok st).1.clients = st.1.clients ∧
    (a.apply ok st).1.listeners = st.1.listeners ∧ (a.apply ok st).2 = st.2

/-- There is no trace of the empty client id in the stores, nor will the callback of
a socket that was opened without a usable one leave any. -/
structure Threads.Unregistered (σ : Threads) : Prop where
  entry : [] ∉ σ.gateway.clients
  row : σ.table.lookup [] = none
  listener : ∀ s, σ.gateway.listeners.lookup s ≠ some []
  inert : ∀ s k, σ.socks s = some k → k.clientId = [] → ∀ a ∈ k.todo, a.Inert

def Process.Unregistered : Process → Prop
  | .running σ => σ.Unregistered
  | .undefined => False

/-- A connection is opened with a client id, and it is not empty. -/
def Move.UsableId : Move → Prop
  | .afterCreate _ params => ∃ c, params.lookup clientIdKey = some c ∧ c ≠ []
  | _ => True

/-! ## One step -/

theorem Process.step_running {name : Bytes} {σ : Threads} {e : Move} {p : Process}
    (h : (Process.running σ).step name e = some p) :
    (p = .undefined ∧ ¬ e.UsableId) ∨ ∃ σ', p = .running σ' ∧ σ.step name e = some σ' := by
  have hmap {x : Option Threads} (hx : x.map Process.running = some p) :
      ∃ σ', p = .running σ' ∧ x = some σ' := by
    obtain ⟨σ', hσ', rfl⟩ := Option.map_eq_some_iff.mp hx
    exact ⟨σ', rfl, hσ'⟩
  cases e with
  | afterCreate s params =>
      simp only [Process.step] at h
      split at h
      · rename_i hmissing
        refine .inl ⟨(Option.some.inj h).symm, fun husable => ?_⟩
        rcases husable with ⟨c, hc, -⟩
        rw [hmissing.2] at hc
        cases hc
      · exact .inr (hmap h)
  | close s => exact .inr (hmap h)
  | beforeDestroy s => exact .inr (hmap h)
  | act s ok => exact .inr (hmap h)

theorem Threads.step_afterCreate {name : Bytes} {σ σ' : Threads} {s : SocketId}
    {params : ParameterMap} (h : σ.step name (.afterCreate s params) = some σ') :
    ∃ c, params.lookup clientIdKey = some c ∧ σ' = σ.set (σ.gateway, σ.table) s
      ⟨c, .afterCreate, [.countUp, .storeClient c s, .insertData c name, .setListener s c]⟩ := by
  simp only [Threads.step] at h
  split at h
  · rename_i c acts hs hc hacts
    obtain ⟨c', hc', rfl⟩ := onAfterCreateNonBlocking_eq_some hacts
    obtain rfl : c = c' := Option.some.inj (hc.symm.trans hc')
    exact ⟨c, hc, (Option.some.inj h).symm⟩
  · cases h

theorem Threads.socks_set_ne_nil {σ : Threads} {st : Gateway × Table} {s : SocketId} {k : Sock}
    (hk : k.clientId ≠ []) (h : ∀ s k, σ.socks s = some k → k.clientId ≠ []) (r : SocketId)
    (j : Sock) (hj : (σ.set st s k).socks r = some j) : j.clientId ≠ [] := by
  rcases Threads.socks_set_cases hj with ⟨rfl, rfl⟩ | ⟨-, hold⟩
  · exact hk
  · exact h r j hold

/-- Every socket was opened with a client id, and the empty one has no row. -/
structure Threads.Identified (name : Bytes) (σ : Threads) : Prop where
  inv : σ.Inv name
  ids : ∀ s k, σ.socks s = some k → k.clientId ≠ []
  row : σ.table.lookup [] = none

theorem Threads.Identified.initial (name : Bytes) {table : Table} (h : table.lookup [] = none) :
    (Threads.initial table).Identified name where
  inv := .initial name table
  ids _ _ hk := by cases hk
  row := h

theorem Threads.Identified.step {name : Bytes} {σ σ' : Threads} {e : Move}
    (h : σ.Identified name) (he : e.UsableId) (hs : σ.step name e = some σ') :
    σ'.Identified name := by
  have hinv := h.inv.step hs
  cases e with
  | afterCreate s params =>
      obtain ⟨c, hc, rfl⟩ := Threads.step_afterCreate hs
      rcases he with ⟨c', hc', hne⟩
      obtain rfl : c = c' := Option.some.inj (hc.symm.trans hc')
      exact ⟨hinv, Threads.socks_set_ne_nil hne h.ids, h.row⟩
  | close s | beforeDestroy s =>
      simp only [Threads.step] at hs
      split at hs
      · rename_i c id hidle hid
        cases hs
        obtain ⟨-, k, hk, rfl, -⟩ := h.inv.idle hidle hid
        exact ⟨hinv, Threads.socks_set_ne_nil (h.ids s k hk) h.ids, h.row⟩
      · cases hs
  | act s ok =>
      obtain ⟨c, stage, a, todo, hk, rfl⟩ := Threads.step_act hs
      have hc : c ≠ [] := h.ids s _ hk
      have hprog : a :: todo <:+ stage.program name s c := h.inv.program s _ hk
      refine ⟨hinv, Threads.socks_set_ne_nil hc h.ids, ?_⟩
      -- the only action that writes is the one for the socket's own client id
      rcases Stage.mem_program (hprog.subset List.mem_cons_self) with ⟨rfl, -⟩ | ⟨rfl, -⟩ |
        ⟨rfl, -⟩ | ⟨rfl, -⟩ | ⟨host, rfl⟩ | ⟨rfl, -⟩
      · exact h.row
      · exact h.row
      · exact h.row
      · exact h.row
      · cases ok with
        | false => exact h.row
        | true => exact (AList.lookup_insert_ne (Ne.symm hc)).trans h.row
      · exact h.row

theorem Threads.Identified.unregistered {name : Bytes} {σ : Threads} (h : σ.Identified name) :
    σ.Unregistered where
  entry := by
    intro hmem
    obtain ⟨s, hs⟩ := Option.isSome_iff_exists.mp (AList.lookup_isSome.mpr hmem)
    obtain ⟨k, hk, hid, -⟩ := h.inv.holds [] s hs
    exact h.ids s k hk hid
  row := h.row
  listener := by
    intro s hs
    obtain ⟨k, hk, hid⟩ := h.inv.listened s [] hs
    exact h.ids s k hk hid
  inert := by
    intro s k hk hid
    exact absurd hid (h.ids s k hk)

/-! ## Every run -/

/-- A run of interleaved callbacks with any outcomes of the database writes never
dereferences a missing `ClientId` and never registers an empty one, not even by an
action that is still to come, exactly if every connection is opened with a `ClientId`
that is not empty. -/
theorem unregistered_iff_usable_ids (name : Bytes) {table : Table}
    (hrow : table.lookup [] = none) {es : List Move}
    (h : (exec (Process.step name) (.running (.initial table)) es).isSome) :
    (∀ p, Visits (Process.step name) (.running (.initial table)) es p → p.Unregistered) ↔
      ∀ p e, Takes (Process.step name) (.running (.initial table)) es p e → e.UsableId := by
  refine visits_good_iff (fun p => ∃ σ : Threads, p = .running σ ∧ σ.Identified name)
    ⟨_, rfl, .initial name hrow⟩ ?_ ?_ ?_ h
  · intro p hp
    rcases hp with ⟨σ, rfl, hσ⟩
    exact hσ.unregistered
  · intro p e p' hp husable hs
    rcases hp with ⟨σ, rfl, hσ⟩
    rcases Process.step_running hs with ⟨-, hnot⟩ | ⟨σ', rfl, hstep⟩
    · exact absurd husable hnot
    · exact ⟨σ', rfl, hσ.step husable hstep⟩
  · intro p e p' hp hnot hs hgood
    rcases hp with ⟨σ, rfl, -⟩
    rcases Process.step_running hs with ⟨rfl, -⟩ | ⟨σ', rfl, hstep⟩
    · exact hgood
    · cases e with
      | afterCreate s params =>
          obtain ⟨c, hc, rfl⟩ := Threads.step_afterCreate hstep
          have hnil : c = [] := by
            by_contra hne
            exact hnot ⟨c, hc, hne⟩
          subst hnil
          -- the callback goes on to store the socket under the empty id
          have hinert := hgood.inert s _ Threads.socks_set_self rfl (.storeClient [] s) (by simp)
          obtain ⟨hclients, -⟩ := hinert true (Gateway.initial, ∅)
          have hmem : ([] : Bytes) ∈ Gateway.initial.clients := by
            rw [← hclients]
            simp [Action.apply]
          cases hmem
      | close | beforeDestroy | act => exact hnot trivial

theorem unregistered_of_usable_ids :
    let es : List Move := [.afterCreate 1 (wsParams (ascii "VIN1")), .act 1 true, .act 1 true,
      .afterCreate 2 ws1Params, .act 1 false, .act 1 true, .beforeDestroy 1, .act 2 true]
    (∀ p, Visits (Process.step (ascii "gw1")) (.running (.initial ∅)) es p → p.Unregistered) ∧
      ∃ σ, exec (Process.step (ascii "gw1")) (.running (.initial ∅)) es = some (.running σ) ∧
        σ.gateway.clients.lookup (ascii "VIN1") = some 1 ∧
        [] ∉ σ.gateway.clients ∧ σ.table.lookup [] = none := by
  intro es
  have hguard : Guarded (Process.step (ascii "gw1")) (fun _ e => e.UsableId)
      (.running (.initial ∅)) es :=
    .cons ⟨_, rfl, by decide⟩ rfl (.cons trivial rfl (.cons trivial rfl
      (.cons ⟨_, rfl, by decide⟩ rfl (.cons trivial rfl (.cons trivial rfl (.cons trivial rfl
        (.cons trivial rfl trivial)))))))
  exact ⟨(unregistered_iff_usable_ids (ascii "gw1") rfl rfl).mpr (guarded_iff.mp hguard),
    _, rfl, by decide, by decide, by decide⟩

/-- A connection whose `ClientId` is empty is stored, written and listened to; one
without a `ClientId` has no defined outcome. -/
theorem empty_id_is_registered :
    (∃ σ, exec (Process.step (ascii "gw1")) (.running (.initial ∅))
        [.afterCreate 1 (wsParams []), .act 1 true, .act 1 true, .act 1 true, .act 1 true] =
          some (.running σ) ∧
      [] ∈ σ.gateway.clients ∧ σ.table.lookup [] = some (ascii "gw1") ∧
        σ.gateway.listeners.lookup 1 = some [] ∧ ¬ σ.Unregistered) ∧
    exec (Process.step (ascii "gw1")) (.running (.initial ∅)) [.afterCreate 1 ∅] =
      some .undefined := by
  refine ⟨⟨_, rfl, by decide, by decide, by decide, fun h => h.entry (by decide)⟩, rfl⟩

end WsGateway.Registry
