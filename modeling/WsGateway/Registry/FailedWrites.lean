import WsGateway.Lib.Lists
import WsGateway.Lib.Runs
import WsGateway.Registry.Component

/-!
# Failed database writes

The three methods of `WebSocketComponent` update the map and then write the row.
A failed write is logged and nothing is taken back: the map keeps its update and
the row stays as it was. Whether they still agree is decided by the entry that the
client had before.
-/

namespace WsGateway.Registry

open Lib Lib.Runs

inductive Method
  | addClient (clientId : Bytes) (socket : SocketId)
  | setClientNotAvailable (clientId : Bytes)
  | removeClient (clientId : Bytes)
deriving DecidableEq

def Method.clientId : Method → Bytes
  | .addClient c _ => c
  | .setClientNotAvailable c => c
  | .removeClient c => c

/-- The entry that the map has for the client afterwards. -/
def Method.entry : Method → Option SocketId
  | .addClient _ s => some s
  | .setClientNotAvailable _ => none
  | .removeClient _ => none

/-- The row that the database has for the client after a successful write. -/
def Method.row (name : Bytes) : Method → Option Bytes
  | .addClient _ _ => some name
  | .setClientNotAvailable _ => some na
  | .removeClient _ => none

def Method.actions (name : Bytes) : Method → List Action
  | .addClient c s => Registry.addClient name c s
  | .setClientNotAvailable c => Registry.setClientNotAvailable c
  | .removeClient c => Registry.removeClient c

def Method.run (name : Bytes) (ok : Bool) (method : Method) (st : Gateway × Table) :
    Gateway × Table :=
  (method.actions name).foldl (fun st a => a.apply ok st) st

/-- The map has a client as a key exactly if the row of the client holds this server's
name. -/
def Agree (name : Bytes) (st : Gateway × Table) : Prop :=
  ∀ c, c ∈ st.1.clients ↔ st.2.lookup c = some name

/-! ## What a call does -/

theorem mem_clients_iff {g : Gateway} {c : Bytes} :
    c ∈ g.clients ↔ (g.clients.lookup c).isSome = true := AList.lookup_isSome.symm

theorem lookup_clients_run (name : Bytes) (ok : Bool) (method : Method) (st : Gateway × Table)
    (c : Bytes) : (method.run name ok st).1.clients.lookup c =
      if c = method.clientId then method.entry else st.1.clients.lookup c := by
  cases method with
  | addClient d s => exact lookup_insert_ite st.1.clients c d s
  | setClientNotAvailable d | removeClient d => exact lookup_erase_ite st.1.clients c d

theorem table_run_failed (name : Bytes) (method : Method) (st : Gateway × Table) :
    (method.run name false st).2 = st.2 := by
  cases method <;> rfl

theorem lookup_table_run (name : Bytes) (method : Method) (st : Gateway × Table) (c : Bytes) :
    (method.run name true st).2.lookup c =
      if c = method.clientId then method.row name else st.2.lookup c := by
  cases method with
  | addClient d s => exact lookup_insert_ite st.2 c d name
  | setClientNotAvailable d => exact lookup_insert_ite st.2 c d na
  | removeClient d => exact lookup_erase_ite st.2 c d

/-- From agreement only the client of the call can come apart. -/
theorem agree_run_iff {name : Bytes} {st : Gateway × Table} (h : Agree name st) (ok : Bool)
    (method : Method) :
    Agree name (method.run name ok st) ↔
      (method.entry.isSome = true ↔
        (method.run name ok st).2.lookup method.clientId = some name) := by
  constructor
  · intro hagree
    have hself := hagree method.clientId
    rwa [mem_clients_iff, lookup_clients_run, if_pos rfl] at hself
  · intro hself c
    rw [mem_clients_iff, lookup_clients_run]
    by_cases hc : c = method.clientId
    · rw [if_pos hc, hc]
      exact hself
    · have hrow : (method.run name ok st).2.lookup c = st.2.lookup c := by
        cases ok with
        | false => rw [table_run_failed]
        | true => rw [lookup_table_run, if_neg hc]
      rw [if_neg hc, hrow, ← mem_clients_iff]
      exact h c

/-- Map and row agree after the call: if the write succeeded, unless a server that is
itself named `NA` withdraws the client; if it failed, when the client was in the map
before exactly if it is now. -/
def Method.Restores (name : Bytes) (method : Method) (ok : Bool) (st : Gateway × Table) : Prop :=
  if ok then ∀ c, method = .setClientNotAvailable c → name ≠ na
  else (method.clientId ∈ st.1.clients ↔ method.entry.isSome = true)

theorem agree_run_iff_restores {name : Bytes} {st : Gateway × Table} (h : Agree name st)
    (ok : Bool) (method : Method) :
    Agree name (method.run name ok st) ↔ method.Restores name ok st := by
  rw [agree_run_iff h]
  cases ok with
  | false =>
      rw [table_run_failed, ← h method.clientId]
      exact iff_comm
  | true =>
      rw [lookup_table_run, if_pos rfl]
      cases method with
      | addClient c s => simp [Method.entry, Method.row, Method.Restores]
      | setClientNotAvailable c =>
          simpa [Method.entry, Method.row, Method.Restores] using ne_comm
      | removeClient c => simp [Method.entry, Method.row, Method.Restores]

/-! ## The outcome of calls -/

/-- A call that starts from agreement, whatever the outcome of its write. After a
successful write map and database agree again, unless a server named `NA` withdraws
the client. After a failed one the database is as before and the map has the entry of
the call, so that they agree only if the client was in the map before exactly if it
is now. The other clients are not affected. -/
theorem agreement_after_write {name : Bytes} {st : Gateway × Table} (h : Agree name st)
    (method : Method) :
    (Agree name (method.run name true st) ↔
      ∀ c, method = .setClientNotAvailable c → name ≠ na) ∧
    (method.run name false st).2 = st.2 ∧
    (Agree name (method.run name false st) ↔
      (method.clientId ∈ st.1.clients ↔ method.entry.isSome = true)) ∧
    ((∀ c, (method.run name false st).1.clients.lookup c = st.1.clients.lookup c) ↔
      st.1.clients.lookup method.clientId = method.entry) ∧
    ∀ ok, (method.run name ok st).1.clients.lookup method.clientId = method.entry ∧
      ∀ c, c ≠ method.clientId →
        (method.run name ok st).1.clients.lookup c = st.1.clients.lookup c ∧
        (method.run name ok st).2.lookup c = st.2.lookup c := by
  refine ⟨agree_run_iff_restores h true method, table_run_failed name method st,
    agree_run_iff_restores h false method, ?_, ?_⟩
  · constructor
    · intro hsame
      have hself := hsame method.clientId
      rw [lookup_clients_run, if_pos rfl] at hself
      exact hself.symm
    · intro hself c
      rw [lookup_clients_run]
      split
      · rename_i hc
        rw [hc, hself]
      · rfl
  · intro ok
    refine ⟨by rw [lookup_clients_run, if_pos rfl], fun c hc => ⟨?_, ?_⟩⟩
    · rw [lookup_clients_run, if_neg hc]
    · cases ok with
      | false => rw [table_run_failed]
      | true => rw [lookup_table_run, if_neg hc]

theorem agree_initial (name : Bytes) : Agree name (Gateway.initial, ∅) := by
  intro c
  simp [Gateway.initial]

def twoClients : Gateway × Table :=
  Method.run (ascii "gw1") true (.addClient (ascii "VIN2") 2)
    (Method.run (ascii "gw1") true (.addClient (ascii "VIN1") 1) (Gateway.initial, ∅))

theorem agree_twoClients : Agree (ascii "gw1") twoClients := by
  have hone := (agree_run_iff_restores (agree_initial (ascii "gw1")) true
    (.addClient (ascii "VIN1") 1)).mpr nofun
  exact (agree_run_iff_restores hone true (.addClient (ascii "VIN2") 2)).mpr nofun

/-- `VIN1` is withdrawn: with its row written the two agree again, without they do not. -/
theorem agreement_after_withdrawal :
    let withdraw (ok : Bool) := Method.run (ascii "gw1") ok
      (.setClientNotAvailable (ascii "VIN1")) twoClients
    twoClients.1.clients.lookup (ascii "VIN1") = some 1 ∧
      twoClients.2.lookup (ascii "VIN1") = some (ascii "gw1") ∧
      Agree (ascii "gw1") (withdraw true) ∧
      (withdraw true).2.lookup (ascii "VIN1") = some na ∧
      ¬ Agree (ascii "gw1") (withdraw false) ∧
      (withdraw false).1.clients.lookup (ascii "VIN1") = none ∧
      (withdraw false).2.lookup (ascii "VIN1") = some (ascii "gw1") ∧
      (withdraw false).1.clients.lookup (ascii "VIN2") = some 2 := by
  obtain ⟨hwritten, htable, hfailed, -, hentry⟩ := agreement_after_write agree_twoClients
    (.setClientNotAvailable (ascii "VIN1"))
  have hname : ascii "gw1" ≠ na := by decide
  have hin : twoClients.1.clients.lookup (ascii "VIN1") = some 1 := by decide
  have hrow : twoClients.2.lookup (ascii "VIN1") = some (ascii "gw1") := by decide
  have hother := ((hentry false).2 (ascii "VIN2") (by decide)).1
  refine ⟨hin, hrow, hwritten.mpr fun _ _ => hname, by decide, ?_, (hentry false).1, ?_, ?_⟩
  · intro hagree
    have hsome := (hfailed.mp hagree).mp (mem_clients_iff.mpr (by rw [Method.clientId, hin]; rfl))
    cases hsome
  · rw [htable, hrow]
  · rw [hother]
    decide

/-- The registration of a new client whose row cannot be written. -/
theorem failed_registration_disagrees :
    let st : Gateway × Table := (Gateway.initial, ∅)
    let st' := Method.run (ascii "gw1") false (.addClient (ascii "VIN1") 1) st
    Agree (ascii "gw1") st ∧ ¬ Agree (ascii "gw1") st' ∧
      st'.1.clients.lookup (ascii "VIN1") ≠ st.1.clients.lookup (ascii "VIN1") := by
  refine ⟨agree_initial (ascii "gw1"), fun hagree => ?_, by decide⟩
  exact absurd (hagree (ascii "VIN1")) (by decide)

def callStep (name : Bytes) (st : Gateway × Table) (call : Method × Bool) :
    Option (Gateway × Table) :=
  some (call.1.run name call.2 st)

/-- From agreement a run of calls keeps map and database in agreement exactly if each
call of it restores the agreement; the first that does not leaves them apart. -/
theorem agree_visits_iff {name : Bytes} {st : Gateway × Table} (h : Agree name st)
    (calls : List (Method × Bool)) :
    (∀ st', Visits (callStep name) st calls st' → Agree name st') ↔
      ∀ st' call, Takes (callStep name) st calls st' call → call.1.Restores name call.2 st' := by
  have hrun : (exec (callStep name) st calls).isSome := by
    clear h
    induction calls generalizing st with
    | nil => rfl
    | cons call calls ih => exact ih
  refine visits_good_iff (Agree name) h (fun _ hagree => hagree) ?_ ?_ hrun
  · intro st₁ call st₂ hagree hrestores hstep
    cases hstep
    exact (agree_run_iff_restores hagree call.2 call.1).mpr hrestores
  · intro st₁ call st₂ hagree hnot hstep hagree'
    cases hstep
    exact hnot ((agree_run_iff_restores hagree call.2 call.1).mp hagree')

end WsGateway.Registry
