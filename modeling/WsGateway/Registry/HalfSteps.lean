import Mathlib.Data.Finset.Card
import Mathlib.Data.Set.Card
import Mathlib.Logic.Function.Basic
import WsGateway.Lib.Runs
import WsGateway.Registry.Component

/-!
# Interleaved connection callbacks

The callbacks of different sockets run on different threads and interleave
action by action; those of one socket follow each other. A socket gets one
`onAfterCreate_NonBlocking`, then any number of `onClose`, then one
`onBeforeDestroy_NonBlocking`. Database writes may fail. Entries of the map are
overwritten and erased by client id, never by socket, and still no entry
outlives its socket.
-/

namespace WsGateway.Registry

open Lib Lib.Runs

inductive Stage
  | afterCreate
  | close
  | beforeDestroy
deriving DecidableEq

/-- A socket since its creation, with the actions left of its callback. -/
structure Sock where
  clientId : Bytes
  stage : Stage
  todo : List Action
deriving DecidableEq

structure Threads where
  gateway : Gateway
  table : Table
  socks : SocketId → Option Sock

def Threads.initial (table : Table) : Threads := ⟨.initial, table, fun _ => none⟩

inductive Move
  | afterCreate (socket : SocketId) (params : ParameterMap)
  | close (socket : SocketId)
  | beforeDestroy (socket : SocketId)
  /-- the next action of the socket's callback; `ok` is the outcome if it is a
  database write -/
  | act (socket : SocketId) (ok : Bool)

def Threads.set (σ : Threads) (st : Gateway × Table) (s : SocketId) (k : Sock) : Threads :=
  ⟨st.1, st.2, Function.update σ.socks s (some k)⟩

/-- `clientId` and no action left: the socket waits for its next callback. -/
def Sock.idle? (k : Sock) : Option Bytes :=
  if k.todo = [] ∧ k.stage ≠ .beforeDestroy then some k.clientId else none

def Threads.step (name : Bytes) (σ : Threads) : Move → Option Threads
  | .afterCreate s params =>
      match σ.socks s, params.lookup clientIdKey, onAfterCreateNonBlocking name params s with
      | none, some c, some acts => some (σ.set (σ.gateway, σ.table) s ⟨c, .afterCreate, acts⟩)
      | _, _, _ => none
  | .close s =>
      match (σ.socks s).bind Sock.idle?, σ.gateway.listeners.lookup s with
      | some c, some id => some (σ.set (σ.gateway, σ.table) s ⟨c, .close, onClose id⟩)
      | _, _ => none
  | .beforeDestroy s =>
      match (σ.socks s).bind Sock.idle?, σ.gateway.listeners.lookup s with
      | some c, some id =>
          some (σ.set (σ.gateway, σ.table) s ⟨c, .beforeDestroy, onBeforeDestroyNonBlocking id⟩)
      | _, _ => none
  | .act s ok =>
      match σ.socks s with
      | some ⟨c, stage, a :: todo⟩ =>
          some (σ.set (a.apply ok (σ.gateway, σ.table)) s ⟨c, stage, todo⟩)
      | _ => none

/-! ## The programs of the three callbacks -/

def Stage.program (name : Bytes) (s : SocketId) (c : Bytes) : Stage → List Action
  | .afterCreate => [.countUp, .storeClient c s, .insertData c name, .setListener s c]
  | .close => onClose c
  | .beforeDestroy => onBeforeDestroyNonBlocking c

theorem Stage.program_nodup (name : Bytes) (s : SocketId) (c : Bytes) (stage : Stage) :
    (stage.program name s c).Nodup := by
  cases stage <;> simp [Stage.program, onClose, onBeforeDestroyNonBlocking, setClientNotAvailable]

theorem Stage.mem_program {name c : Bytes} {s : SocketId} {stage : Stage} {a : Action}
    (h : a ∈ stage.program name s c) :
    (a = .countUp ∧ stage = .afterCreate) ∨ (a = .countDown ∧ stage = .beforeDestroy) ∨
      (a = .storeClient c s ∧ stage = .afterCreate) ∨
      (a = .eraseClient c ∧ stage ≠ .afterCreate) ∨
      (∃ host, a = .insertData c host) ∨ (a = .setListener s c ∧ stage = .afterCreate) := by
  cases stage <;>
    simp only [Stage.program, onClose, onBeforeDestroyNonBlocking, setClientNotAvailable,
      List.mem_cons, List.not_mem_nil, or_false] at h <;>
    aesop

/-! ## The invariant -/

/-- The socket's entry may be in the map: it was stored, and will still be
erased if the socket is being destroyed. -/
def Sock.MayHold (k : Sock) (s : SocketId) : Prop :=
  (k.stage = .afterCreate → .storeClient k.clientId s ∉ k.todo) ∧
    (k.stage = .beforeDestroy → .eraseClient k.clientId ∈ k.todo)

def Sock.Counted (k : Sock) : Prop :=
  (k.stage = .afterCreate → .countUp ∉ k.todo) ∧ (k.stage = .beforeDestroy → .countDown ∈ k.todo)

structure Threads.Inv (name : Bytes) (σ : Threads) : Prop where
  program : ∀ s k, σ.socks s = some k → k.todo <:+ k.stage.program name s k.clientId
  listener : ∀ s k, σ.socks s = some k →
    k.stage = .afterCreate ∧ .setListener s k.clientId ∈ k.todo ∨
      σ.gateway.listeners.lookup s = some k.clientId
  listened : ∀ s id, σ.gateway.listeners.lookup s = some id →
    ∃ k, σ.socks s = some k ∧ k.clientId = id
  holds : ∀ c s, σ.gateway.clients.lookup c = some s →
    ∃ k, σ.socks s = some k ∧ k.clientId = c ∧ k.MayHold s
  count : ∃ live : Finset SocketId, σ.gateway.sockets = Int32.ofNat live.card ∧
    ∀ s, s ∈ live ↔ ∃ k, σ.socks s = some k ∧ k.Counted

theorem Threads.Inv.initial (name : Bytes) (table : Table) : (Threads.initial table).Inv name where
  program _ _ hk := by cases hk
  listener _ _ hk := by cases hk
  listened _ _ hid := by cases hid
  holds _ _ hlook := by cases hlook
  count := by
    refine ⟨∅, rfl, fun s => ?_⟩
    constructor
    · intro hs
      simp at hs
    · intro hcounted
      rcases hcounted with ⟨k, hk, -⟩
      cases hk

theorem Sock.idle?_eq_some {k : Sock} {c : Bytes} (h : k.idle? = some c) :
    k.todo = [] ∧ k.stage ≠ .beforeDestroy ∧ k.clientId = c := by
  unfold Sock.idle? at h
  split at h
  · rename_i hi
    exact ⟨hi.1, hi.2, Option.some.inj h⟩
  · cases h

theorem Sock.counted_of_idle {k : Sock} (ht : k.todo = []) (hs : k.stage ≠ .beforeDestroy) :
    k.Counted := ⟨by simp [ht], fun h => absurd h hs⟩

/-! ## Changing one socket -/

/-- The map `g` holds the old entries of the other sockets, and `s` only as `k` allows. -/
def Threads.ClientsFit (σ : Threads) (g : Gateway) (s : SocketId) (k : Sock) : Prop :=
  ∀ c r, g.clients.lookup c = some r →
    (r = s ∧ c = k.clientId ∧ k.MayHold s) ∨ (r ≠ s ∧ σ.gateway.clients.lookup c = some r)

/-- The listeners of the other sockets are the old ones, that of `s` has the id of `k`. -/
def Threads.ListenersFit (σ : Threads) (g : Gateway) (s : SocketId) (k : Sock) : Prop :=
  (∀ r, r ≠ s → g.listeners.lookup r = σ.gateway.listeners.lookup r) ∧
    ∀ id, g.listeners.lookup s = some id → k.clientId = id

/-- The counter of `g` follows the step of `s` to `k`. -/
def Threads.CountFits (σ : Threads) (g : Gateway) (s : SocketId) (k : Sock) : Prop :=
  ∀ live : Finset SocketId, σ.gateway.sockets = Int32.ofNat live.card →
    (∀ r, r ∈ live ↔ ∃ j, σ.socks r = some j ∧ j.Counted) →
    ∃ live' : Finset SocketId, g.sockets = Int32.ofNat live'.card ∧
      (∀ r, r ≠ s → (r ∈ live' ↔ r ∈ live)) ∧ (s ∈ live' ↔ k.Counted)

theorem Threads.socks_set_self {σ : Threads} {st : Gateway × Table} {s : SocketId} {k : Sock} :
    (σ.set st s k).socks s = some k := Function.update_self ..

theorem Threads.socks_set_of_ne {σ : Threads} {st : Gateway × Table} {s r : SocketId} {k : Sock}
    (h : r ≠ s) : (σ.set st s k).socks r = σ.socks r := Function.update_of_ne h ..

theorem Threads.socks_set_cases {σ : Threads} {st : Gateway × Table} {s r : SocketId}
    {k j : Sock} (h : (σ.set st s k).socks r = some j) :
    (r = s ∧ j = k) ∨ (r ≠ s ∧ σ.socks r = some j) := by
  by_cases hr : r = s
  · subst hr
    rw [Threads.socks_set_self, Option.some.injEq] at h
    exact .inl ⟨rfl, h.symm⟩
  · rw [Threads.socks_set_of_ne hr] at h
    exact .inr ⟨hr, h⟩

theorem Threads.Inv.set {name : Bytes} {σ : Threads} (h : σ.Inv name) {g : Gateway} {t : Table}
    {s : SocketId} {k : Sock} (hprog : k.todo <:+ k.stage.program name s k.clientId)
    (hlisten : k.stage = .afterCreate ∧ .setListener s k.clientId ∈ k.todo ∨
      g.listeners.lookup s = some k.clientId)
    (hlf : σ.ListenersFit g s k) (hcf : σ.ClientsFit g s k) (hnf : σ.CountFits g s k) :
    (σ.set (g, t) s k).Inv name := by
  rcases h.count with ⟨live, hcard, hlive⟩
  obtain ⟨live', hcard', hothers, hself⟩ := hnf live hcard hlive
  constructor
  · intro r j hj
    rcases Threads.socks_set_cases hj with ⟨rfl, rfl⟩ | ⟨-, hold⟩
    · exact hprog
    · exact h.program r j hold
  · intro r j hj
    rcases Threads.socks_set_cases hj with ⟨rfl, rfl⟩ | ⟨hr, hold⟩
    · exact hlisten
    · simp only [Threads.set, hlf.1 r hr]
      exact h.listener r j hold
  · intro r id hid
    by_cases hr : r = s
    · subst hr
      exact ⟨k, Threads.socks_set_self, hlf.2 id hid⟩
    · obtain ⟨j, hj, hjid⟩ := h.listened r id (by rw [← hlf.1 r hr]; exact hid)
      exact ⟨j, (Threads.socks_set_of_ne hr).trans hj, hjid⟩
  · intro c r hlook
    rcases hcf c r hlook with ⟨rfl, rfl, hmay⟩ | ⟨hr, hold⟩
    · exact ⟨k, Threads.socks_set_self, rfl, hmay⟩
    · obtain ⟨j, hj, hjc, hmay⟩ := h.holds c r hold
      exact ⟨j, (Threads.socks_set_of_ne hr).trans hj, hjc, hmay⟩
  · refine ⟨live', hcard', fun r => ?_⟩
    by_cases hr : r = s
    · subst hr
      simp [Threads.set, hself]
    · simp [Threads.set, hr, hothers r hr, hlive]

section Same

variable {name : Bytes} {σ : Threads} {s : SocketId} {k k' : Sock}

/-- An unchanged map fits if the socket keeps its id and may still hold. -/
theorem Threads.Inv.clientsFit (h : σ.Inv name) {g : Gateway}
    (hg : g.clients = σ.gateway.clients)
    (hmay : ∀ k, σ.socks s = some k → k.clientId = k'.clientId ∧ (k.MayHold s → k'.MayHold s)) :
    σ.ClientsFit g s k' := by
  intro c r hlook
  rw [hg] at hlook
  by_cases hr : r = s
  · subst hr
    obtain ⟨k, hk, rfl, hkm⟩ := h.holds c r hlook
    exact Or.inl ⟨rfl, (hmay k hk).1, (hmay k hk).2 hkm⟩
  · exact Or.inr ⟨hr, hlook⟩

/-- A map that changes at the socket's own id fits if the entry there is the socket's. -/
theorem Threads.Inv.clientsFit_update (h : σ.Inv name) {g : Gateway}
    (hid : ∀ k, σ.socks s = some k → k.clientId = k'.clientId)
    (hothers : ∀ c, c ≠ k'.clientId → g.clients.lookup c = σ.gateway.clients.lookup c)
    (hself : ∀ r, g.clients.lookup k'.clientId = some r → r = s ∧ k'.MayHold s) :
    σ.ClientsFit g s k' := by
  intro c r hlook
  by_cases hc : c = k'.clientId
  · subst hc
    obtain ⟨rfl, hmay⟩ := hself r hlook
    exact Or.inl ⟨rfl, rfl, hmay⟩
  · rw [hothers c hc] at hlook
    refine Or.inr ⟨?_, hlook⟩
    intro heq
    subst heq
    obtain ⟨k, hk, rfl, -⟩ := h.holds c r hlook
    exact hc (hid k hk)

theorem Threads.Inv.listenersFit (h : σ.Inv name) {g : Gateway}
    (hg : g.listeners = σ.gateway.listeners)
    (hid : ∀ k, σ.socks s = some k → k.clientId = k'.clientId) : σ.ListenersFit g s k' := by
  refine ⟨fun r _ => by rw [hg], fun id hlook => ?_⟩
  rw [hg] at hlook
  obtain ⟨k, hk, rfl⟩ := h.listened s id hlook
  exact (hid k hk).symm

theorem Threads.countFits {g : Gateway} (hg : g.sockets = σ.gateway.sockets)
    (hc : (∃ k, σ.socks s = some k ∧ k.Counted) ↔ k'.Counted) : σ.CountFits g s k' :=
  fun live hcard hlive => ⟨live, hg.trans hcard, fun _ _ => Iff.rfl, (hlive s).trans hc⟩

end Same

/-! ## A callback starts -/

theorem Threads.Inv.afterCreate {name : Bytes} {σ σ' : Threads} {s : SocketId}
    {params : ParameterMap} (h : σ.Inv name)
    (hstep : σ.step name (.afterCreate s params) = some σ') : σ'.Inv name := by
  simp only [Threads.step] at hstep
  split at hstep
  · rename_i c acts hs hc hacts
    obtain ⟨c', hc', rfl⟩ := onAfterCreateNonBlocking_eq_some hacts
    obtain rfl : c = c' := Option.some.inj (hc.symm.trans hc')
    cases hstep
    refine h.set (List.suffix_refl _) (Or.inl ⟨rfl, by simp⟩) (h.listenersFit rfl ?_)
      (h.clientsFit rfl ?_) (Threads.countFits rfl ?_)
    · simp [hs]
    · simp [hs]
    · simp [hs, Sock.Counted]
  · cases hstep

theorem Threads.Inv.idle {name : Bytes} {σ : Threads} {s : SocketId} {c id : Bytes}
    (h : σ.Inv name) (hs : (σ.socks s).bind Sock.idle? = some c)
    (hid : σ.gateway.listeners.lookup s = some id) :
    id = c ∧ ∃ k, σ.socks s = some k ∧ k.clientId = c ∧ k.Counted := by
  obtain ⟨k, hk, hidle⟩ := Option.bind_eq_some_iff.mp hs
  obtain ⟨htodo, hstage, rfl⟩ := Sock.idle?_eq_some hidle
  obtain ⟨j, hj, rfl⟩ := h.listened s id hid
  obtain rfl : k = j := Option.some.inj (hk.symm.trans hj)
  exact ⟨rfl, k, hk, rfl, Sock.counted_of_idle htodo hstage⟩

/-- Starting one of the two callbacks that withdraw the registration of an idle socket. -/
theorem Threads.Inv.withdraw {name : Bytes} {σ : Threads} {s : SocketId} {c id : Bytes}
    {k' : Sock} (h : σ.Inv name) (hs : (σ.socks s).bind Sock.idle? = some c)
    (hid : σ.gateway.listeners.lookup s = some id) (hk' : k'.clientId = c)
    (hprog : k'.todo <:+ k'.stage.program name s k'.clientId) (hmay : k'.MayHold s)
    (hcount : k'.Counted) : (σ.set (σ.gateway, σ.table) s k').Inv name := by
  obtain ⟨rfl, k, hk, hkc, hkcount⟩ := h.idle hs hid
  have hsame : ∀ j, σ.socks s = some j → j.clientId = k'.clientId := by
    intro j hj
    obtain rfl : k = j := Option.some.inj (hk.symm.trans hj)
    rw [hkc, hk']
  exact h.set hprog (Or.inr (by rw [hid, hk'])) (h.listenersFit rfl hsame)
    (h.clientsFit rfl fun j hj => ⟨hsame j hj, fun _ => hmay⟩)
    (Threads.countFits rfl ⟨fun _ => hcount, fun _ => ⟨k, hk, hkcount⟩⟩)

theorem Threads.Inv.close {name : Bytes} {σ σ' : Threads} {s : SocketId} (h : σ.Inv name)
    (hstep : σ.step name (.close s) = some σ') : σ'.Inv name := by
  simp only [Threads.step] at hstep
  split at hstep
  · rename_i c id hs hid
    cases hstep
    obtain ⟨rfl, -⟩ := h.idle hs hid
    exact h.withdraw hs hid rfl (List.suffix_refl _) (by simp [Sock.MayHold])
      (by simp [Sock.Counted])
  · cases hstep

theorem Threads.Inv.beforeDestroy {name : Bytes} {σ σ' : Threads} {s : SocketId}
    (h : σ.Inv name) (hstep : σ.step name (.beforeDestroy s) = some σ') : σ'.Inv name := by
  simp only [Threads.step] at hstep
  split at hstep
  · rename_i c id hs hid
    cases hstep
    obtain ⟨rfl, -⟩ := h.idle hs hid
    exact h.withdraw hs hid rfl (List.suffix_refl _)
      (by simp [Sock.MayHold, onBeforeDestroyNonBlocking, onClose, setClientNotAvailable])
      (by simp [Sock.Counted, onBeforeDestroyNonBlocking])
  · cases hstep

/-! ## A callback takes an action -/

theorem Threads.step_act {name : Bytes} {σ σ' : Threads} {s : SocketId} {ok : Bool}
    (h : σ.step name (.act s ok) = some σ') :
    ∃ c stage a todo, σ.socks s = some ⟨c, stage, a :: todo⟩ ∧
      σ' = σ.set (a.apply ok (σ.gateway, σ.table)) s ⟨c, stage, todo⟩ := by
  cases hs : σ.socks s with
  | none => simp [Threads.step, hs] at h
  | some k =>
      rcases k with ⟨c, stage, todo⟩
      cases todo with
      | nil => simp [Threads.step, hs] at h
      | cons a todo =>
          refine ⟨c, stage, a, todo, rfl, ?_⟩
          simpa [Threads.step, hs, eq_comm] using h

theorem Threads.Inv.act {name : Bytes} {σ σ' : Threads} {s : SocketId} {ok : Bool}
    (h : σ.Inv name) (hstep : σ.step name (.act s ok) = some σ') : σ'.Inv name := by
  obtain ⟨c, stage, a, todo, hs, rfl⟩ := Threads.step_act hstep
  have hprog : a :: todo <:+ stage.program name s c := h.program s _ hs
  have htail : todo <:+ stage.program name s c := (List.suffix_cons a todo).trans hprog
  have hnotin : a ∉ todo :=
    (List.nodup_cons.mp ((stage.program_nodup name s c).sublist hprog.sublist)).1
  have hid : ∀ k, σ.socks s = some k → k.clientId = c := by
    intro k hk
    rw [← Option.some.inj (hs.symm.trans hk)]
  have hlisten : a ≠ .setListener s c →
      stage = .afterCreate ∧ .setListener s c ∈ todo ∨
        σ.gateway.listeners.lookup s = some c := by
    intro hne
    rcases h.listener s _ hs with ⟨hst, hm⟩ | hl
    · rcases List.mem_cons.mp hm with heq | hm
      · exact absurd heq.symm hne
      · exact Or.inl ⟨hst, hm⟩
    · exact Or.inr hl
  have hmay : a ≠ .eraseClient c → ∀ k, σ.socks s = some k → k.clientId = c ∧
      (k.MayHold s → (⟨c, stage, todo⟩ : Sock).MayHold s) := by
    intro hne k hk
    obtain rfl : ⟨c, stage, a :: todo⟩ = k := Option.some.inj (hs.symm.trans hk)
    refine ⟨rfl, fun hm => ⟨fun hst hin => hm.1 hst (List.mem_cons_of_mem a hin), fun hst => ?_⟩⟩
    rcases List.mem_cons.mp (hm.2 hst) with heq | hin
    · exact absurd heq.symm hne
    · exact hin
  have hcount : a ≠ .countUp → a ≠ .countDown →
      ((∃ k, σ.socks s = some k ∧ k.Counted) ↔ (⟨c, stage, todo⟩ : Sock).Counted) := by
    intro hup hdown
    simp [hs, Sock.Counted, hup.symm, hdown.symm]
  rcases Stage.mem_program (hprog.subset List.mem_cons_self) with ⟨rfl, rfl⟩ | ⟨rfl, rfl⟩ |
    ⟨rfl, rfl⟩ | ⟨rfl, hst⟩ | ⟨host, rfl⟩ | ⟨rfl, rfl⟩
  -- SOCKETS ++
  · refine h.set htail (hlisten (by simp)) (h.listenersFit rfl hid)
      (h.clientsFit rfl (hmay (by simp))) ?_
    intro live hcard hlive
    have hsl : s ∉ live := by simp [hlive, hs, Sock.Counted]
    refine ⟨insert s live, ?_, fun r hr => by simp [hr], by simp [Sock.Counted, hnotin]⟩
    have hup : Int32.ofNat (live.card + 1) = Int32.ofNat live.card + 1 := Int32.ofNat_add ..
    rw [Finset.card_insert_of_notMem hsl, hup, ← hcard]
  -- SOCKETS --
  · refine h.set htail (hlisten (by simp)) (h.listenersFit rfl hid)
      (h.clientsFit rfl (hmay (by simp))) ?_
    intro live hcard hlive
    have hsl : s ∈ live := by simp [hlive, hs, Sock.Counted]
    refine ⟨live.erase s, ?_, fun r hr => by simp [hr], by simp [Sock.Counted, hnotin]⟩
    have hup : Int32.ofNat ((live.erase s).card + 1) = Int32.ofNat (live.erase s).card + 1 :=
      Int32.ofNat_add ..
    rw [Finset.card_erase_add_one hsl, ← hcard] at hup
    exact (congrArg (· - 1) hup).trans (Int32.add_sub_cancel _ _)
  -- clients[clientId] = socket
  · refine h.set htail (hlisten (by simp)) (h.listenersFit rfl hid)
      (h.clientsFit_update hid (fun d hd => AList.lookup_insert_ne hd) ?_)
      (Threads.countFits rfl (hcount (by simp) (by simp)))
    intro r hlook
    obtain rfl : s = r := by simpa using hlook
    exact ⟨rfl, fun _ => hnotin, by simp⟩
  -- clients.erase(clientId)
  · refine h.set htail (hlisten (by simp)) (h.listenersFit rfl hid)
      (h.clientsFit_update hid (fun d hd => AList.lookup_erase_ne hd) ?_)
      (Threads.countFits rfl (hcount (by simp) (by simp)))
    intro r hlook
    simp at hlook
  -- the database write, with either outcome
  · exact h.set htail (hlisten (by simp)) (h.listenersFit rfl hid)
      (h.clientsFit rfl (hmay (by simp))) (Threads.countFits rfl (hcount (by simp) (by simp)))
  -- setListener
  · refine h.set htail (Or.inr (AList.lookup_insert _)) ⟨?_, ?_⟩
      (h.clientsFit rfl (hmay (by simp))) (Threads.countFits rfl (hcount (by simp) (by simp)))
    · exact fun r hr => AList.lookup_insert_ne hr
    · intro id hlook
      rw [AList.lookup_insert] at hlook
      exact Option.some.inj hlook

theorem Threads.Inv.step {name : Bytes} {σ σ' : Threads} {e : Move} (h : σ.Inv name)
    (hstep : σ.step name e = some σ') : σ'.Inv name := by
  cases e with
  | afterCreate s params => exact h.afterCreate hstep
  | close s => exact h.close hstep
  | beforeDestroy s => exact h.beforeDestroy hstep
  | act s ok => exact h.act hstep

/-! ## No stale entry -/

/-- The sockets whose destruction is not completed. Each has a descriptor of its own. -/
def Threads.openSockets (σ : Threads) : Set SocketId :=
  {s | ∃ k, σ.socks s = some k ∧ ¬ (k.stage = .beforeDestroy ∧ k.todo = [])}

/-- Every entry holds a socket that was opened under its key and whose destruction is not
completed. Its listener has this id; only while its creation is running, it may have no
listener yet. No socket has two keys. With no callback in progress, and as long as the
counter can count the open sockets, the map has at most `SOCKETS` entries. -/
structure Threads.NoStaleEntry (σ : Threads) : Prop where
  entry : ∀ c s, σ.gateway.clients.lookup c = some s → ∃ k, σ.socks s = some k ∧ k.clientId = c ∧
    (σ.gateway.listeners.lookup s = some c ∨
      σ.gateway.listeners.lookup s = none ∧ k.stage = .afterCreate ∧
        .setListener s c ∈ k.todo) ∧
    ¬ (k.stage = .beforeDestroy ∧ k.todo = [])
  oneKey : ∀ c d s, σ.gateway.clients.lookup c = some s → σ.gateway.clients.lookup d = some s →
    c = d
  bound : (∀ s k, σ.socks s = some k → k.todo = []) → σ.openSockets.Finite ∧
    (σ.openSockets.ncard < 2 ^ 31 →
      (σ.gateway.clients.entries.length : Int) ≤ σ.gateway.sockets.toInt)

theorem Threads.Inv.oneKey {name : Bytes} {σ : Threads} (h : σ.Inv name) (c d : Bytes)
    (s : SocketId) (hc : σ.gateway.clients.lookup c = some s)
    (hd : σ.gateway.clients.lookup d = some s) : c = d := by
  obtain ⟨k, hk, rfl, -⟩ := h.holds c s hc
  obtain ⟨j, hj, rfl, -⟩ := h.holds d s hd
  rw [Option.some.inj (hk.symm.trans hj)]

/-- With no callback in progress the open sockets are those that are counted. -/
theorem Threads.Inv.openSockets_eq {name : Bytes} {σ : Threads} (h : σ.Inv name)
    (hidle : ∀ s k, σ.socks s = some k → k.todo = []) :
    ∃ live : Finset SocketId, σ.openSockets = live ∧
      σ.gateway.sockets = Int32.ofNat live.card := by
  rcases h.count with ⟨live, hcard, hlive⟩
  refine ⟨live, Set.ext fun s => ?_, hcard⟩
  rw [Finset.mem_coe, hlive]
  refine exists_congr fun k => and_congr_right fun hk => ?_
  simp [hidle s k hk, Sock.Counted]

/-- The keys inject into the open sockets. -/
theorem Threads.Inv.length_entries_le {name : Bytes} {σ : Threads} (h : σ.Inv name)
    {live : Finset SocketId} (hlive : σ.openSockets = live) :
    σ.gateway.clients.entries.length ≤ live.card := by
  have hlook : ∀ c ∈ σ.gateway.clients.keys.toFinset,
      ∃ s, σ.gateway.clients.lookup c = some s := by
    intro c hc
    rw [List.mem_toFinset, ← AList.mem_keys, ← AList.lookup_isSome] at hc
    exact Option.isSome_iff_exists.mp hc
  choose! socketOf hsocket using hlook
  have hmaps : ∀ c ∈ σ.gateway.clients.keys.toFinset, socketOf c ∈ live := by
    intro c hc
    obtain ⟨k, hk, -, hmay⟩ := h.holds c _ (hsocket c hc)
    rw [← Finset.mem_coe, ← hlive]
    refine ⟨k, hk, fun hdone => ?_⟩
    have hmem := hmay.2 hdone.1
    simp [hdone.2] at hmem
  have hinj : Set.InjOn socketOf σ.gateway.clients.keys.toFinset := by
    intro c hc d hd heq
    exact h.oneKey c d _ (hsocket c hc) (heq ▸ hsocket d hd)
  have hle := Finset.card_le_card_of_injOn socketOf hmaps hinj
  rw [List.toFinset_card_of_nodup σ.gateway.clients.keys_nodup] at hle
  simpa [AList.keys, List.keys] using hle

theorem Threads.Inv.bound {name : Bytes} {σ : Threads} (h : σ.Inv name)
    (hidle : ∀ s k, σ.socks s = some k → k.todo = []) : σ.openSockets.Finite ∧
      (σ.openSockets.ncard < 2 ^ 31 →
        (σ.gateway.clients.entries.length : Int) ≤ σ.gateway.sockets.toInt) := by
  obtain ⟨live, hlive, hcard⟩ := h.openSockets_eq hidle
  have hle := h.length_entries_le hlive
  rw [hlive, Set.ncard_coe_finset, hcard]
  refine ⟨live.finite_toSet, fun hlt => ?_⟩
  rw [Int32.toInt_ofNat_of_lt hlt]
  exact Int.ofNat_le.mpr hle

theorem Threads.Inv.noStaleEntry {name : Bytes} {σ : Threads} (h : σ.Inv name) :
    σ.NoStaleEntry where
  entry := by
    intro c s hlook
    obtain ⟨k, hk, rfl, hmay⟩ := h.holds c s hlook
    refine ⟨k, hk, rfl, ?_, ?_⟩
    · cases hid : σ.gateway.listeners.lookup s with
      | none => exact .inr ⟨rfl, (h.listener s k hk).resolve_right (by simp [hid])⟩
      | some id =>
          obtain ⟨j, hj, rfl⟩ := h.listened s id hid
          rw [Option.some.inj (hk.symm.trans hj)]
          exact .inl rfl
    · intro hdone
      have hmem := hmay.2 hdone.1
      simp [hdone.2] at hmem
  oneKey := h.oneKey
  bound := h.bound

/-- In every reachable state of the interleaved callbacks, whatever the outcomes
of the database writes, the map has no stale and no misfiled entry. -/
theorem no_stale_entry (name : Bytes) (table : Table) (es : List Move) (σ : Threads)
    (h : exec (Threads.step name) (.initial table) es = some σ) : σ.NoStaleEntry :=
  (invariant (Threads.Inv.initial name table) (fun _ _ _ hσ hs => hσ.step hs) h).noStaleEntry

/-- Two sockets of one client; the second is stored while the first one is being
destroyed, and the first erases the entry of the second. Of two further clients the
second one is only stored so far. -/
def overtakingDestroy : List Move :=
  [.afterCreate 1 (wsParams (ascii "VIN1")), .act 1 true, .act 1 true, .act 1 false, .act 1 true,
    .beforeDestroy 1, .act 1 true, .afterCreate 2 (wsParams (ascii "VIN1")), .act 2 true,
    .act 2 true, .act 1 true, .act 2 true,
    .afterCreate 3 (wsParams (ascii "VIN3")), .act 3 true, .act 3 true, .act 3 true, .act 3 true,
    .afterCreate 4 (wsParams (ascii "VIN4")), .act 4 true, .act 4 true]

theorem no_stale_entry_overtaken : ∃ σ,
    exec (Threads.step (ascii "gw1")) (.initial ∅) overtakingDestroy = some σ ∧
      σ.gateway.clients.lookup (ascii "VIN1") = none ∧
      (σ.gateway.clients.lookup (ascii "VIN3") = some 3 ∧
        σ.gateway.listeners.lookup 3 = some (ascii "VIN3")) ∧
      (σ.gateway.clients.lookup (ascii "VIN4") = some 4 ∧
        σ.gateway.listeners.lookup 4 = none) ∧ σ.NoStaleEntry :=
  ⟨_, rfl, by decide, by decide, by decide,
    no_stale_entry (ascii "gw1") ∅ overtakingDestroy _ rfl⟩

/-- The entry is stored before the listener is set, after the database write. -/
theorem entry_without_listener : ∃ σ,
    exec (Threads.step (ascii "gw1")) (.initial ∅)
        [.afterCreate 1 (wsParams (ascii "VIN1")), .act 1 true, .act 1 true] = some σ ∧
      σ.gateway.clients.lookup (ascii "VIN1") = some 1 ∧
      ¬ ∀ c s, σ.gateway.clients.lookup c = some s →
        σ.gateway.listeners.lookup s = some c := by
  refine ⟨_, rfl, by decide, fun hall => ?_⟩
  exact absurd (hall (ascii "VIN1") 1 (by decide)) (by decide)

end WsGateway.Registry
