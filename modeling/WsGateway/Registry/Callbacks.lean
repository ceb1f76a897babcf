import Mathlib.Logic.Function.Basic
import WsGateway.Lib.Runs
import WsGateway.Registry.Component

/-!
# Runs of atomic connection callbacks

Gateways with their own maps share one table. Each callback runs to its end
before the next one starts and every database write succeeds. A socket is
created once on one gateway, may get close frames, and is destroyed once. The
two theorems say exactly which runs keep the registry behind the open sockets:
on one gateway for the map and the row, and over several gateways for the row.
-/

namespace WsGateway.Registry

open Lib Lib.Runs

variable {γ : Type*}

structure Conn (γ : Type*) where
  gateway : γ
  clientId : Bytes
  closed : Bool
  destroyed : Bool
deriving DecidableEq

/-- Neither a close frame nor the destruction was seen. -/
def Conn.isOpen (k : Conn γ) : Bool := !k.closed && !k.destroyed

structure Cluster (γ : Type*) where
  gateways : γ → Gateway
  conns : SocketId → Option (Conn γ)
  table : Table

def Cluster.initial (table : Table) : Cluster γ := ⟨fun _ => .initial, fun _ => none, table⟩

inductive Callback (γ : Type*)
  | afterCreate (socket : SocketId) (gateway : γ) (params : ParameterMap)
  | close (socket : SocketId)
  | beforeDestroy (socket : SocketId)

def Callback.withdraws? : Callback γ → Option SocketId
  | .afterCreate _ _ _ => none
  | .close s => some s
  | .beforeDestroy s => some s

section Step

variable [DecidableEq γ]

def Cluster.perform (σ : Cluster γ) (g : γ) (acts : List Action) (s : SocketId)
    (k : Conn γ) : Cluster γ :=
  let st := runActions acts (σ.gateways g, σ.table)
  ⟨Function.update σ.gateways g st.1, Function.update σ.conns s (some k), st.2⟩

def Cluster.step (name : γ → Bytes) (σ : Cluster γ) : Callback γ → Option (Cluster γ)
  | .afterCreate s g params =>
      match σ.conns s, params.lookup clientIdKey, onAfterCreateNonBlocking (name g) params s with
      | none, some c, some acts => some (σ.perform g acts s ⟨g, c, false, false⟩)
      | _, _, _ => none
  | .close s =>
      match σ.conns s with
      | none => none
      | some k =>
          match (σ.gateways k.gateway).listeners.lookup s, k.destroyed with
          | some id, false => some (σ.perform k.gateway (onClose id) s { k with closed := true })
          | _, _ => none
  | .beforeDestroy s =>
      match σ.conns s with
      | none => none
      | some k =>
          match (σ.gateways k.gateway).listeners.lookup s, k.destroyed with
          | some id, false =>
              some (σ.perform k.gateway (onBeforeDestroyNonBlocking id) s
                { k with destroyed := true })
          | _, _ => none

end Step

/-- Socket `s` was created under client id `c` and is neither closed nor destroyed. -/
def Cluster.OpenFor (σ : Cluster γ) (c : Bytes) (s : SocketId) : Prop :=
  ∃ k, σ.conns s = some k ∧ k.clientId = c ∧ k.isOpen = true

/-! ## What a callback can do -/

def Cluster.Listening (σ : Cluster γ) : Prop :=
  ∀ s k, σ.conns s = some k → (σ.gateways k.gateway).listeners.lookup s = some k.clientId

/-- The state after a callback that withdrew the registration of `s`. -/
structure Withdrawn (σ σ' : Cluster γ) (s : SocketId) (k k' : Conn γ) : Prop where
  before : σ.conns s = some k
  conns : σ'.conns = Function.update σ.conns s (some k')
  gateway : k'.gateway = k.gateway
  clientId : k'.clientId = k.clientId
  notOpen : k'.isOpen = false
  table : σ'.table = σ.table.insert k.clientId na
  clients : (σ'.gateways k.gateway).clients = (σ.gateways k.gateway).clients.erase k.clientId
  listeners : ∀ g, (σ'.gateways g).listeners = (σ.gateways g).listeners
  others : ∀ g, g ≠ k.gateway → σ'.gateways g = σ.gateways g

/-- The state after the callback that created `s` under `c` on gateway `g`. -/
structure Created (name : γ → Bytes) (σ σ' : Cluster γ) (s : SocketId) (g : γ) (c : Bytes) :
    Prop where
  before : σ.conns s = none
  conns : σ'.conns = Function.update σ.conns s (some ⟨g, c, false, false⟩)
  table : σ'.table = σ.table.insert c (name g)
  clients : (σ'.gateways g).clients = (σ.gateways g).clients.insert c s
  listeners : (σ'.gateways g).listeners = (σ.gateways g).listeners.insert s c
  others : ∀ g', g' ≠ g → σ'.gateways g' = σ.gateways g'

theorem withdrawn_perform [DecidableEq γ] {σ : Cluster γ} {s : SocketId} {k k' : Conn γ}
    {acts : List Action} {sockets : Int32} (hk : σ.conns s = some k)
    (hacts : runActions acts (σ.gateways k.gateway, σ.table) =
      (⟨(σ.gateways k.gateway).clients.erase k.clientId, sockets,
        (σ.gateways k.gateway).listeners⟩, σ.table.insert k.clientId na))
    (hgateway : k'.gateway = k.gateway) (hid : k'.clientId = k.clientId)
    (hopen : k'.isOpen = false) : Withdrawn σ (σ.perform k.gateway acts s k') s k k' := by
  refine ⟨hk, rfl, hgateway, hid, hopen, ?_, ?_, ?_, ?_⟩
  · simp [Cluster.perform, hacts]
  · simp [Cluster.perform, hacts]
  · intro g
    by_cases hg : g = k.gateway
    · subst hg
      simp [Cluster.perform, hacts]
    · simp [Cluster.perform, hg]
  · intro g hg
    simp [Cluster.perform, hg]

theorem step_cases [DecidableEq γ] {name : γ → Bytes} {σ σ' : Cluster γ} {e : Callback γ}
    (hl : σ.Listening) (h : σ.step name e = some σ') :
    (∃ s g c, e.withdraws? = none ∧ Created name σ σ' s g c) ∨
      (∃ s k k', e.withdraws? = some s ∧ Withdrawn σ σ' s k k') := by
  cases e with
  | afterCreate s g params =>
      left
      simp only [Cluster.step] at h
      split at h
      · rename_i c acts hs hc hacts
        obtain ⟨c', hc', rfl⟩ := onAfterCreateNonBlocking_eq_some hacts
        obtain rfl : c = c' := Option.some.inj (hc.symm.trans hc')
        cases h
        refine ⟨s, g, c, rfl, ⟨hs, rfl, ?_, ?_, ?_, ?_⟩⟩
        · simp [Cluster.perform, runActions_afterCreate]
        · simp [Cluster.perform, runActions_afterCreate]
        · simp [Cluster.perform, runActions_afterCreate]
        · intro g' hg
          simp [Cluster.perform, hg]
      · cases h
  | close s =>
      right
      cases hk : σ.conns s with
      | none => simp [Cluster.step, hk] at h
      | some k =>
          simp only [Cluster.step, hk, hl s k hk] at h
          split at h
          · rename_i heq _
            cases heq
            cases h
            exact ⟨s, k, { k with closed := true }, rfl,
              withdrawn_perform hk (runActions_onClose _ _ _) rfl rfl rfl⟩
          · cases h
  | beforeDestroy s =>
      right
      cases hk : σ.conns s with
      | none => simp [Cluster.step, hk] at h
      | some k =>
          simp only [Cluster.step, hk, hl s k hk] at h
          split at h
          · rename_i heq _
            cases heq
            cases h
            exact ⟨s, k, { k with destroyed := true }, rfl,
              withdrawn_perform hk (runActions_onBeforeDestroy _ _ _) rfl rfl
                (by simp [Conn.isOpen])⟩
          · cases h

theorem step_withdraws [DecidableEq γ] {name : γ → Bytes} {σ σ' : Cluster γ} {e : Callback γ}
    (hl : σ.Listening) (h : σ.step name e = some σ') {s : SocketId} {k : Conn γ}
    (he : e.withdraws? = some s) (hk : σ.conns s = some k) : ∃ k', Withdrawn σ σ' s k k' := by
  rcases step_cases hl h with ⟨s', g, c, hn, -⟩ | ⟨s', k₀, k', he', hw⟩
  · rw [he] at hn
    cases hn
  · obtain rfl : s = s' := Option.some.inj (he.symm.trans he')
    obtain rfl : k = k₀ := Option.some.inj (hk.symm.trans hw.before)
    exact ⟨k', hw⟩

/-! ## Open sockets along a callback -/

theorem Created.openFor_iff {name : γ → Bytes} {σ σ' : Cluster γ} {s : SocketId} {g : γ}
    {c : Bytes} (h : Created name σ σ' s g c) (d : Bytes) (r : SocketId) :
    σ'.OpenFor d r ↔ σ.OpenFor d r ∨ (r = s ∧ d = c) := by
  by_cases hr : r = s
  · subst hr
    simp only [Cluster.OpenFor, h.conns, h.before, Function.update_self, reduceCtorEq, false_and,
      exists_false, true_and, false_or]
    constructor
    · intro hnew
      rcases hnew with ⟨k, hk, rfl, -⟩
      cases hk
      rfl
    · intro heq
      subst heq
      exact ⟨_, rfl, rfl, rfl⟩
  · simp [Cluster.OpenFor, h.conns, hr]

theorem Withdrawn.openFor_iff {σ σ' : Cluster γ} {s : SocketId} {k k' : Conn γ}
    (h : Withdrawn σ σ' s k k') (d : Bytes) (r : SocketId) :
    σ'.OpenFor d r ↔ σ.OpenFor d r ∧ r ≠ s := by
  by_cases hr : r = s
  · subst hr
    simp [Cluster.OpenFor, h.conns, h.notOpen]
  · simp [Cluster.OpenFor, h.conns, hr]

theorem listening_initial (table : Table) : (Cluster.initial table : Cluster γ).Listening := by
  intro s k h
  cases h

theorem step_listening [DecidableEq γ] {name : γ → Bytes} {σ σ' : Cluster γ} {e : Callback γ}
    (hl : σ.Listening) (h : σ.step name e = some σ') : σ'.Listening := by
  intro r j hr
  rcases step_cases hl h with ⟨s, g, c, -, hc⟩ | ⟨s, k, k', -, hw⟩
  · rw [hc.conns] at hr
    by_cases hrs : r = s
    · subst hrs
      obtain rfl : ⟨g, c, false, false⟩ = j := by simpa using hr
      simp [hc.listeners]
    · rw [Function.update_of_ne hrs] at hr
      by_cases hg : j.gateway = g
      · rw [hg, hc.listeners, AList.lookup_insert_ne hrs, ← hg]
        exact hl r j hr
      · rw [hc.others _ hg]
        exact hl r j hr
  · rw [hw.listeners]
    rw [hw.conns] at hr
    by_cases hrs : r = s
    · subst hrs
      obtain rfl : k' = j := by simpa using hr
      rw [hw.gateway, hw.clientId]
      exact hl r k hw.before
    · rw [Function.update_of_ne hrs] at hr
      exact hl r j hr

end WsGateway.Registry
