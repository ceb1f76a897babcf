import WsGateway.Lib.Simulation
import WsGateway.Registry.Fleet
import WsGateway.Scylla.HostView

/-!
# The registry on top of the statement texts

The callbacks write the rows of the table by executing texts, into which the client id
goes as it is. For client ids without a quote the fleet of gateways that executes texts
is simulated by the fleet that writes rows: a text that the database cannot read is a
write that fails. For ids that are plain the two are the same machine.
-/

namespace WsGateway.Scylla

open Lib Lib.Cql Lib.Runs Registry

/-- The effect of an action, its database write through the text of its statement; `ok`
is whether the database executes a statement that it can read. -/
def applyText (m : ScyllaDBManager) (ok : Bool) (a : Action) (st : Gateway × Table) :
    Gateway × Table :=
  match a with
  | .insertData vin host =>
      (st.1, if ok then (m.executeQuery st.2 (m.insertDataQuery vin host)).1 else st.2)
  | .deleteData vin =>
      (st.1, if ok then (m.executeQuery st.2 (m.deleteDataQuery vin)).1 else st.2)
  | a => a.apply ok st

def textStep (m : ScyllaDBManager) (name : Bytes) (σ : Threads) : Move → Option Threads
  | .act s ok =>
      match σ.socks s with
      | some ⟨c, stage, a :: todo⟩ =>
          some (σ.set (applyText m ok a (σ.gateway, σ.table)) s ⟨c, stage, todo⟩)
      | _ => none
  | e => σ.step name e

variable {γ : Type*} [DecidableEq γ]

def fleetTextStep (m : ScyllaDBManager) (name : γ → Bytes) (φ : Fleet γ) :
    FleetMove γ → Option (Fleet γ)
  | .move g e => (textStep m (name g) (φ.threads g) e).map (φ.put g)
  | .restart g => φ.step name (.restart g)

/-! ## One action -/

/-- A write with a quote-free id, as a text, succeeds if the id has no NUL either. -/
theorem applyText_insertData (m : ScyllaDBManager) {c host : Bytes} (hc : quote ∉ c)
    (hhost : Plain host) (ok : Bool) (st : Gateway × Table) :
    applyText m ok (.insertData c host) st =
      (Action.insertData c host).apply (ok && decide (0 ∉ c)) st := by
  rcases st with ⟨g, t⟩
  cases ok with
  | false => rfl
  | true =>
      by_cases h0 : 0 ∉ c
      · have hexec := execute_insertDataQuery m t ⟨c, hc, h0⟩ ⟨host, hhost⟩
        simp [applyText, ScyllaDBManager.executeQuery, hexec, Action.apply, h0]
      · have hnone : statement (m.insertDataQuery c host) = none :=
          statement_insertDataQuery_nul m hc hhost.1 fun h => h0 h.1.2
        simp [applyText, ScyllaDBManager.executeQuery, ScyllaDBManager.execute, hnone,
          Action.apply, h0]

theorem applyText_program (m : ScyllaDBManager) {name c : Bytes} (hname : Plain name)
    (hc : quote ∉ c) {s : SocketId} {stage : Stage} {a : Action}
    (ha : a ∈ stage.program name s c) (ok : Bool) (st : Gateway × Table) :
    applyText m ok a st = a.apply (ok && decide (0 ∉ c)) st := by
  have hna : Plain na := by decide
  have hinsert {host : Bytes} (h : a = .insertData c host) (hhost : Plain host) :
      applyText m ok a st = a.apply (ok && decide (0 ∉ c)) st := by
    rw [h]
    exact applyText_insertData m hc hhost ok st
  cases stage with
  | afterCreate =>
      simp only [Stage.program, List.mem_cons, List.not_mem_nil, or_false] at ha
      rcases ha with rfl | rfl | rfl | rfl
      · rfl
      · rfl
      · exact hinsert rfl hname
      · rfl
  | close =>
      simp only [Stage.program, onClose, setClientNotAvailable, List.mem_cons,
        List.not_mem_nil, or_false] at ha
      rcases ha with rfl | rfl
      · rfl
      · exact hinsert rfl hna
  | beforeDestroy =>
      simp only [Stage.program, onBeforeDestroyNonBlocking, onClose, setClientNotAvailable,
        List.mem_cons, List.not_mem_nil, or_false] at ha
      rcases ha with rfl | rfl | rfl
      · rfl
      · rfl
      · exact hinsert rfl hna

/-! ## The client ids of a fleet -/

/-- A connection is only opened with client ids of this kind. -/
def Connects (P : Bytes → Prop) : FleetMove γ → Prop
  | .move _ (.afterCreate _ params) => ∀ c, params.lookup clientIdKey = some c → P c
  | _ => True

structure OpenedWith (name : γ → Bytes) (P : Bytes → Prop) (φ : Fleet γ) : Prop where
  inv : ∀ g, (φ.threads g).Inv (name g)
  ids : ∀ g s k, φ.socks g s = some k → P k.clientId

omit [DecidableEq γ] in
theorem OpenedWith.initial (name : γ → Bytes) (P : Bytes → Prop) (table : Table) :
    OpenedWith name P (.initial table) where
  inv := Fleet.inv_initial name table
  ids _ _ _ hk := by cases hk

theorem OpenedWith.step {name : γ → Bytes} {P : Bytes → Prop} {φ φ' : Fleet γ} {e : FleetMove γ}
    (h : OpenedWith name P φ) (he : Connects P e) (hs : φ.step name e = some φ') :
    OpenedWith name P φ' where
  inv := Fleet.inv_step h.inv hs
  ids r q j hj := by
    cases e with
    | restart g =>
        cases hs
        by_cases hr : r = g
        · subst hr
          rw [Fleet.socks_put_self] at hj
          cases hj
        · rw [Fleet.socks_put_of_ne φ hr] at hj
          exact h.ids r q j hj
    | move g e =>
        obtain ⟨σ, hσ, rfl⟩ := Option.map_eq_some_iff.mp hs
        by_cases hr : r = g
        · subst hr
          rw [Fleet.socks_put_self] at hj
          rcases (h.inv r).step_cases hσ with ⟨s, k', rfl, -, hid, hnew⟩ |
            ⟨s, ok, c, stage, a, todo, rfl, hk, rfl⟩
          · rcases Threads.socks_set_cases hj with ⟨-, rfl⟩ | ⟨-, hold⟩
            · rcases hnew with ⟨k, hk⟩ | ⟨params, rfl, hc⟩
              · rw [← hid k hk]
                exact h.ids r s k hk
              · exact he _ hc
            · exact h.ids r q j hold
          · rcases Threads.socks_set_cases hj with ⟨-, rfl⟩ | ⟨-, hold⟩
            · exact h.ids r s ⟨c, stage, a :: todo⟩ hk
            · exact h.ids r q j hold
        · rw [Fleet.socks_put_of_ne φ hr] at hj
          exact h.ids r q j hj

/-! ## One step -/

/-- The same move, or one whose write fails where it was to succeed. -/
inductive Weaker : FleetMove γ → FleetMove γ → Prop
  | same (e : FleetMove γ) : Weaker e e
  | fails (g : γ) (s : SocketId) : Weaker (.move g (.act s true)) (.move g (.act s false))

/-- A step with texts is a step with rows, which may have to fail in its write. -/
theorem fleetTextStep_eq (m : ScyllaDBManager) {name : γ → Bytes} (hname : ∀ g, Plain (name g))
    {φ : Fleet γ} (h : OpenedWith name (fun c => quote ∉ c) φ) (e : FleetMove γ) :
    ∃ f, Weaker e f ∧ fleetTextStep m name φ e = φ.step name f ∧
      ((∀ g s k, φ.socks g s = some k → 0 ∉ k.clientId) → f = e) := by
  cases e with
  | restart g => exact ⟨_, .same _, rfl, fun _ => rfl⟩
  | move g e =>
      cases e with
      | afterCreate | close | beforeDestroy => exact ⟨_, .same _, rfl, fun _ => rfl⟩
      | act s ok =>
          cases hk : φ.socks g s with
          | none =>
              refine ⟨_, .same _, ?_, fun _ => rfl⟩
              simp [fleetTextStep, Fleet.step, textStep, Threads.step, Fleet.threads, hk]
          | some k =>
              rcases k with ⟨c, stage, todo⟩
              cases todo with
              | nil =>
                  refine ⟨_, .same _, ?_, fun _ => rfl⟩
                  simp [fleetTextStep, Fleet.step, textStep, Threads.step, Fleet.threads, hk]
              | cons a todo =>
                  have hmem : a ∈ stage.program (name g) s c :=
                    ((h.inv g).program s _ hk).subset List.mem_cons_self
                  have happly := applyText_program m (hname g) (h.ids g s _ hk) hmem ok
                    (φ.gateways g, φ.table)
                  refine ⟨.move g (.act s (ok && decide (0 ∉ c))), ?_, ?_, ?_⟩
                  · cases ok with
                    | false => exact .same _
                    | true =>
                        by_cases h0 : 0 ∉ c
                        · simpa [h0] using .same (.move g (.act s true))
                        · simpa [h0] using .fails g s
                  · simp [fleetTextStep, Fleet.step, textStep, Threads.step, Fleet.threads, hk,
                      happly]
                  · intro hids
                    have h0 : 0 ∉ c := hids g s _ hk
                    simp [h0]

omit [DecidableEq γ] in
theorem Weaker.connects {P : Bytes → Prop} {e f : FleetMove γ} (h : Weaker e f)
    (he : Connects P e) : Connects P f := by
  cases h with
  | same => exact he
  | fails g s => trivial

/-! ## Every run -/

/-- A run of the fleet that executes texts, where no client id has a quote, is a run of
the fleet that writes rows, with the same moves up to writes that fail; and if the ids
are plain the two fleets have the same runs. -/
theorem text_runs_refine_rows (m : ScyllaDBManager) {name : γ → Bytes}
    (hname : ∀ g, Plain (name g)) (table : Table) (es : List (FleetMove γ)) :
    ((∀ e ∈ es, Connects (fun c => quote ∉ c) e) → ∀ φ,
      exec (fleetTextStep m name) (.initial table) es = some φ →
        ∃ fs, List.Forall₂ Weaker es fs ∧ exec (Fleet.step name) (.initial table) fs = some φ) ∧
    ((∀ e ∈ es, Connects Plain e) →
      exec (fleetTextStep m name) (.initial table) es =
        exec (Fleet.step name) (.initial table) es) := by
  constructor
  · intro hes φ hrun
    classical
    have hsim : Simulates (restrict (fleetTextStep m name) (Connects fun c => quote ∉ c))
        (Fleet.step name) (fun φ ψ => φ = ψ ∧ OpenedWith name (fun c => quote ∉ c) φ)
        (Renames Weaker) := by
      intro φ ψ e φ' hR hs
      rcases hR with ⟨rfl, hids⟩
      unfold restrict at hs
      split at hs
      · rename_i he
        obtain ⟨f, hweaker, heq, -⟩ := fleetTextStep_eq m hname hids e
        rw [heq] at hs
        refine ⟨[f], φ', ⟨f, rfl, hweaker⟩, ?_, rfl, hids.step (hweaker.connects he) hs⟩
        simp [hs]
      · cases hs
    rw [← exec_restrict (Connects fun c => quote ∉ c) _ hes] at hrun
    obtain ⟨fss, ψ, hfss, hψ, rfl, -⟩ :=
      hsim.exec ⟨rfl, OpenedWith.initial name _ table⟩ hrun
    exact ⟨fss.flatten, forall₂_of_renames hfss, hψ⟩
  · intro hes
    refine @exec_congr _ _ _ _ (OpenedWith name Plain) (Connects Plain) ?_ ?_ _
      (OpenedWith.initial name Plain table) es hes
    · intro φ e hids _
      have hquote : OpenedWith name (fun c => quote ∉ c) φ :=
        ⟨hids.inv, fun g s k hk => (hids.ids g s k hk).1⟩
      obtain ⟨f, -, heq, hf⟩ := fleetTextStep_eq m hname hquote e
      rw [heq, hf fun g s k hk => (hids.ids g s k hk).2]
    · exact fun φ e φ' hids he hs => hids.step he hs

theorem text_runs_refine_rows_moving :
    exec (fleetTextStep defaultManager gatewayName) (.initial ∅) movingClient =
      exec (Fleet.step gatewayName) (.initial ∅) movingClient := by
  have hname (g : Bool) : Plain (gatewayName g) := by
    cases g <;> decide
  have hplain (c : Bytes) (hc : (wsParams (ascii "VIN1")).lookup clientIdKey = some c) :
      Plain c := by
    obtain rfl : ascii "VIN1" = c := Option.some.inj hc
    decide
  have hids : ∀ e ∈ movingClient, Connects Plain e := by
    simp only [movingClient, List.forall_mem_cons, Connects, true_and]
    exact ⟨hplain, hplain, fun e he => by cases he⟩
  exact (text_runs_refine_rows defaultManager hname ∅ movingClient).2 hids

end WsGateway.Scylla
