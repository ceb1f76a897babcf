import WsGateway.Lib.Runs
import WsGateway.Registry.Component

/-!
# Interleaved calls of `addClient` and `setClientNotAvailable`

Any number of threads call the two methods. A call is two atomic steps: the
update of the map under the lock, then the database write outside it. Writes
succeed and take effect in the order issued. Between the two steps of a call
other calls may run, also for the same client.
-/

namespace WsGateway.Registry

open Lib Lib.Runs

inductive Call
  | addClient (clientId : Bytes) (socket : SocketId)
  | setClientNotAvailable (clientId : Bytes)
deriving DecidableEq

def Call.clientId : Call → Bytes
  | .addClient c _ => c
  | .setClientNotAvailable c => c

def Call.adds : Call → Bool
  | .addClient _ _ => true
  | .setClientNotAvailable _ => false

def Call.actions (name : Bytes) : Call → List Action
  | .addClient c s => Registry.addClient name c s
  | .setClientNotAvailable c => Registry.setClientNotAvailable c

/-- The stores, all calls begun so far (the latest first), and those part-way
between their map update and their database write. -/
structure Calls where
  gateway : Gateway
  table : Table
  begun : List Call
  pending : List Call

def Calls.initial (table : Table) : Calls := ⟨.initial, table, [], []⟩

inductive CallStep
  /-- a call takes its first step, the map update -/
  | begin (call : Call)
  /-- the `i`-th pending call takes its second step, the database write -/
  | finish (i : Nat)
deriving DecidableEq

def Calls.step (name : Bytes) (σ : Calls) : CallStep → Option Calls
  | .begin call =>
      let st := runActions ((call.actions name).take 1) (σ.gateway, σ.table)
      some ⟨st.1, st.2, call :: σ.begun, σ.pending ++ [call]⟩
  | .finish i =>
      match σ.pending[i]? with
      | none => none
      | some call =>
          let st := runActions ((call.actions name).drop 1) (σ.gateway, σ.table)
          some ⟨st.1, st.2, σ.begun, σ.pending.eraseIdx i⟩

def Calls.Touched (σ : Calls) (c : Bytes) : Prop := ∃ p ∈ σ.begun, p.clientId = c

def Calls.Settled (σ : Calls) (c : Bytes) : Prop := ∀ p ∈ σ.pending, p.clientId ≠ c

def Calls.latest (σ : Calls) (c : Bytes) : Option Call :=
  σ.begun.find? fun p => p.clientId = c

/-- Map and table agree on every settled client that was passed to a call. -/
def Calls.Agrees (name : Bytes) (σ : Calls) : Prop :=
  ∀ c, σ.Touched c → σ.Settled c →
    (c ∈ σ.gateway.clients ↔ σ.table.lookup c = some name)

/-- A call that writes while no other call for its client is part-way is of the
same kind as the last call that updated the map for this client. -/
def LastWriterIsLatest (σ : Calls) : CallStep → Prop
  | .begin _ => True
  | .finish i => ∀ call, σ.pending[i]? = some call →
      (∃ j other, j ≠ i ∧ σ.pending[j]? = some other ∧ other.clientId = call.clientId) ∨
        ∀ l, σ.latest call.clientId = some l → l.adds = call.adds

theorem Calls.touched_iff_latest (σ : Calls) (c : Bytes) :
    σ.Touched c ↔ ∃ l, σ.latest c = some l := by
  simp [Calls.Touched, Calls.latest, ← Option.isSome_iff_exists, List.find?_isSome]

/-! ## The two steps of a call -/

theorem mem_clients_begin (name : Bytes) (call : Call) (g : Gateway) (t : Table) (c : Bytes) :
    c ∈ (runActions ((call.actions name).take 1) (g, t)).1.clients ↔
      if c = call.clientId then call.adds = true else c ∈ g.clients := by
  cases call with
  | addClient d s =>
      by_cases h : c = d
      · simp [runActions, Call.actions, Registry.addClient, Action.apply, Call.clientId,
          Call.adds, h]
      · simp [runActions, Call.actions, Registry.addClient, Action.apply, Call.clientId, h]
  | setClientNotAvailable d =>
      by_cases h : c = d
      · simp [runActions, Call.actions, Registry.setClientNotAvailable, Action.apply,
          Call.clientId, Call.adds, h]
      · simp [runActions, Call.actions, Registry.setClientNotAvailable, Action.apply,
          Call.clientId, h]

theorem table_begin (name : Bytes) (call : Call) (g : Gateway) (t : Table) :
    (runActions ((call.actions name).take 1) (g, t)).2 = t := by
  cases call <;> rfl

theorem gateway_finish (name : Bytes) (call : Call) (g : Gateway) (t : Table) :
    (runActions ((call.actions name).drop 1) (g, t)).1 = g := by
  cases call <;> rfl

theorem table_finish (name : Bytes) (call : Call) (g : Gateway) (t : Table) :
    (runActions ((call.actions name).drop 1) (g, t)).2 =
      t.insert call.clientId (if call.adds then name else na) := by
  cases call <;> rfl

theorem lookup_finish {name : Bytes} (hname : name ≠ na) (call : Call) (g : Gateway)
    (t : Table) :
    (runActions ((call.actions name).drop 1) (g, t)).2.lookup call.clientId = some name ↔
      call.adds = true := by
  rw [table_finish, AList.lookup_insert]
  cases call.adds <;> simp [hname.symm]

/-! ## The invariant -/

/-- The map always shows the last update; the row of a settled client does too. -/
structure Calls.Tracks (name : Bytes) (σ : Calls) : Prop where
  begun : ∀ p ∈ σ.pending, p ∈ σ.begun
  map : ∀ c l, σ.latest c = some l → (c ∈ σ.gateway.clients ↔ l.adds = true)
  row : ∀ c l, σ.latest c = some l → σ.Settled c →
    (σ.table.lookup c = some name ↔ l.adds = true)

theorem Calls.Tracks.initial (name : Bytes) (table : Table) :
    (Calls.initial table).Tracks name := by
  constructor
  · intro p hp
    cases hp
  · intro c l hl
    cases hl
  · intro c l hl
    cases hl

theorem Calls.Tracks.agrees {name : Bytes} {σ : Calls} (h : σ.Tracks name) : σ.Agrees name := by
  intro c ht hs
  obtain ⟨l, hl⟩ := (σ.touched_iff_latest c).mp ht
  exact (h.map c l hl).trans (h.row c l hl hs).symm

theorem Calls.Tracks.begin {name : Bytes} {σ σ' : Calls} {call : Call} (h : σ.Tracks name)
    (hstep : σ.step name (.begin call) = some σ') : σ'.Tracks name := by
  cases hstep
  constructor
  · intro p hp
    rcases List.mem_append.mp hp with hp | hp
    · exact List.mem_cons_of_mem call (h.begun p hp)
    · rw [List.mem_singleton.mp hp]
      exact List.mem_cons_self
  · intro c l hl
    rw [mem_clients_begin]
    by_cases hc : c = call.clientId
    · subst hc
      obtain rfl : call = l := by simpa [Calls.latest] using hl
      simp
    · rw [if_neg hc]
      exact h.map c l (by simpa [Calls.latest, Ne.symm hc] using hl)
  · intro c l hl hs
    have hc : c ≠ call.clientId := fun hc => hs call (by simp) hc.symm
    rw [table_begin]
    exact h.row c l (by simpa [Calls.latest, hc.symm] using hl)
      fun p hp => hs p (List.mem_append_left _ hp)

theorem Calls.not_settled_eraseIdx {σ : Calls} {i j : Nat} {other : Call} {c : Bytes}
    (hj : j ≠ i) (hother : σ.pending[j]? = some other) (hc : other.clientId = c) :
    ¬ ∀ p ∈ σ.pending.eraseIdx i, p.clientId ≠ c := by
  intro hs
  exact hs other (List.mem_eraseIdx_iff_getElem?.mpr ⟨j, hj, hother⟩) hc

theorem Calls.Tracks.finish {name : Bytes} {σ σ' : Calls} {i : Nat} (hname : name ≠ na)
    (h : σ.Tracks name) (hg : LastWriterIsLatest σ (.finish i))
    (hstep : σ.step name (.finish i) = some σ') : σ'.Tracks name := by
  cases hp : σ.pending[i]? with
  | none => simp [Calls.step, hp] at hstep
  | some call =>
      simp only [Calls.step, hp, Option.some.injEq] at hstep
      subst hstep
      constructor
      · exact fun p hm => h.begun p (List.mem_of_mem_eraseIdx hm)
      · intro c l hl
        rw [gateway_finish]
        exact h.map c l hl
      · intro c l hl hs
        by_cases hc : c = call.clientId
        · subst hc
          rw [lookup_finish hname]
          rcases hg call hp with ⟨j, other, hj, hother, hoc⟩ | hlast
          · exact absurd hs (σ.not_settled_eraseIdx hj hother hoc)
          · rw [hlast l hl]
        · rw [table_finish, AList.lookup_insert_ne hc]
          refine h.row c l hl fun p hm hpc => ?_
          obtain ⟨j, hj⟩ := List.mem_iff_getElem?.mp hm
          have hji : j ≠ i := by
            intro heq
            subst heq
            obtain rfl : call = p := Option.some.inj (hp.symm.trans hj)
            exact hc hpc.symm
          exact σ.not_settled_eraseIdx hji hj hpc hs

/-- Against the guard the client is settled with map and row apart. -/
theorem Calls.Tracks.not_agrees {name : Bytes} {σ σ' : Calls} {i : Nat} (hname : name ≠ na)
    (h : σ.Tracks name) (hg : ¬ LastWriterIsLatest σ (.finish i))
    (hstep : σ.step name (.finish i) = some σ') : ¬ σ'.Agrees name := by
  simp only [LastWriterIsLatest, not_forall, not_or, not_exists, not_and] at hg
  rcases hg with ⟨call, hp, hothers, l, hl, hne⟩
  simp only [Calls.step, hp, Option.some.injEq] at hstep
  subst hstep
  intro hagree
  have hsettled : ∀ p ∈ σ.pending.eraseIdx i, p.clientId ≠ call.clientId := by
    intro p hm hpc
    obtain ⟨j, hj, hjp⟩ := List.mem_eraseIdx_iff_getElem?.mp hm
    exact hothers j p hj hjp hpc
  have htouched : σ.Touched call.clientId := (σ.touched_iff_latest _).mpr ⟨l, hl⟩
  have heq := hagree call.clientId htouched hsettled
  rw [gateway_finish, lookup_finish hname, h.map _ l hl, Bool.coe_iff_coe] at heq
  exact hne heq

/-- In every interleaving of the half-steps, map and table agree on the settled
clients in all states exactly when each database write that settles a client
comes from a call of the kind that updated the map last. In such a run they agree
on every client whenever no call is part-way. That alone may hold in other runs
too, where a later call hides the write that came too late. -/
theorem map_and_table_agree_iff (name : Bytes) (hname : name ≠ na) (table : Table)
    (es : List CallStep) (h : (exec (Calls.step name) (.initial table) es).isSome) :
    ((∀ σ, Visits (Calls.step name) (.initial table) es σ → σ.Agrees name) ↔
        ∀ σ e, Takes (Calls.step name) (.initial table) es σ e → LastWriterIsLatest σ e) ∧
      ((∀ σ e, Takes (Calls.step name) (.initial table) es σ e → LastWriterIsLatest σ e) →
        ∀ σ, Visits (Calls.step name) (.initial table) es σ → σ.pending = [] →
          ∀ c, σ.Touched c → (c ∈ σ.gateway.clients ↔ σ.table.lookup c = some name)) := by
  have hiff : (∀ σ, Visits (Calls.step name) (.initial table) es σ → σ.Agrees name) ↔
      ∀ σ e, Takes (Calls.step name) (.initial table) es σ e → LastWriterIsLatest σ e := by
    refine visits_good_iff (Calls.Tracks name) (.initial name table)
      (fun σ hσ => hσ.agrees) ?_ ?_ h
    · intro σ e σ' hσ hg hstep
      cases e with
      | begin call => exact hσ.begin hstep
      | finish i => exact hσ.finish hname hg hstep
    · intro σ e σ' hσ hg hstep
      cases e with
      | begin call => exact absurd trivial hg
      | finish i => exact hσ.not_agrees hname hg hstep
  refine ⟨hiff, fun hg σ hv hquiet c hc => hiff.mpr hg σ hv c hc ?_⟩
  simp [Calls.Settled, hquiet]

def writesInOrder : List CallStep :=
  [.begin (.addClient (ascii "VIN1") 1), .begin (.setClientNotAvailable (ascii "VIN1")),
    .finish 0, .finish 0]

theorem map_and_table_agree_in_order :
    (∀ σ, Visits (Calls.step (ascii "gw1")) (.initial ∅) writesInOrder σ →
        σ.Agrees (ascii "gw1")) ∧
      ∃ σ, exec (Calls.step (ascii "gw1")) (.initial ∅) writesInOrder = some σ ∧
        σ.pending = [] ∧ σ.Touched (ascii "VIN1") ∧ ascii "VIN1" ∉ σ.gateway.clients ∧
        σ.table.lookup (ascii "VIN1") = some na := by
  have hguard : Guarded (Calls.step (ascii "gw1")) LastWriterIsLatest (.initial ∅)
      writesInOrder := by
    refine .cons trivial rfl (.cons trivial rfl (.cons ?_ rfl (.cons ?_ rfl trivial)))
    · intro call hcall
      cases hcall
      exact .inl ⟨1, _, by decide, rfl, rfl⟩
    · intro call hcall
      cases hcall
      refine .inr fun l hl => ?_
      cases hl
      rfl
  exact ⟨(map_and_table_agree_iff (ascii "gw1") (by decide) ∅ writesInOrder
      (by decide)).1.mpr (guarded_iff.mp hguard),
    _, rfl, rfl, ⟨_, List.mem_cons_self, rfl⟩, by decide, by decide⟩

/-- A close overtakes the database write of the registration it follows: the
client is out of the map and its row names the server. -/
theorem close_overtakes_registration :
    ∃ σ, exec (Calls.step (ascii "gw1")) (.initial ∅)
        [.begin (.addClient (ascii "VIN1") 1), .begin (.setClientNotAvailable (ascii "VIN1")),
          .finish 1, .finish 0] = some σ ∧
      σ.pending = [] ∧ σ.Touched (ascii "VIN1") ∧
      ¬ (ascii "VIN1" ∈ σ.gateway.clients ↔
        σ.table.lookup (ascii "VIN1") = some (ascii "gw1")) :=
  ⟨_, rfl, rfl, ⟨_, List.mem_cons_self, rfl⟩, by decide⟩

end WsGateway.Registry
