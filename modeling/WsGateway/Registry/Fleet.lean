import WsGateway.Registry.ClientIds

/-!
# A fleet of gateways

Several gateways, each with its own sockets and interleaved callbacks, write to one
table, and a process may end and be started again. Nothing is withdrawn when it ends,
and the table is not looked at when it starts. So what a row says about a gateway is
true up to the writes that fail and the processes that end.
-/

namespace WsGateway.Registry

open Lib Lib.Runs

variable {γ : Type*}

structure Fleet (γ : Type*) where
  gateways : γ → Gateway
  socks : γ → SocketId → Option Sock
  table : Table

def Fleet.initial (table : Table) : Fleet γ := ⟨fun _ => .initial, fun _ _ => none, table⟩

inductive FleetMove (γ : Type*)
  /-- a callback of a socket of the gateway begins or goes on -/
  | move (gateway : γ) (e : Move)
  /-- the process of the gateway ends, and is started again -/
  | restart (gateway : γ)

def Fleet.threads (φ : Fleet γ) (g : γ) : Threads := ⟨φ.gateways g, φ.table, φ.socks g⟩

def Sock.Done (k : Sock) : Prop := k.stage = .beforeDestroy ∧ k.todo = []

section Step

variable [DecidableEq γ]

def Fleet.put (φ : Fleet γ) (g : γ) (σ : Threads) : Fleet γ :=
  ⟨Function.update φ.gateways g σ.gateway, Function.update φ.socks g σ.socks, σ.table⟩

def Fleet.step (name : γ → Bytes) (φ : Fleet γ) : FleetMove γ → Option (Fleet γ)
  | .move g e => ((φ.threads g).step (name g) e).map (φ.put g)
  | .restart g => some (φ.put g (.initial φ.table))

end Step

/-! ## What a callback does to sockets and table -/

/-- A callback begins, which is not over with that, or it takes an action. -/
theorem Threads.Inv.step_cases {name : Bytes} {σ σ' : Threads} {e : Move} (h : σ.Inv name)
    (hs : σ.step name e = some σ') :
    (∃ s k', σ' = σ.set (σ.gateway, σ.table) s k' ∧ ¬ k'.Done ∧
      (∀ k, σ.socks s = some k → k.clientId = k'.clientId) ∧
      ((∃ k, σ.socks s = some k) ∨
        ∃ params, e = .afterCreate s params ∧ params.lookup clientIdKey = some k'.clientId)) ∨
    ∃ s ok c stage a todo, e = .act s ok ∧ σ.socks s = some ⟨c, stage, a :: todo⟩ ∧
      σ' = σ.set (a.apply ok (σ.gateway, σ.table)) s ⟨c, stage, todo⟩ := by
  have hbegin {s : SocketId} {c id : Bytes} (hidle : (σ.socks s).bind Sock.idle? = some c)
      (hid : σ.gateway.listeners.lookup s = some id) :
      (∀ k, σ.socks s = some k → k.clientId = c) ∧ ∃ k, σ.socks s = some k := by
    obtain ⟨-, j, hj, rfl, -⟩ := h.idle hidle hid
    refine ⟨fun k hk => ?_, j, hj⟩
    rw [Option.some.inj (hk.symm.trans hj)]
  cases e with
  | afterCreate s params =>
      left
      simp only [Threads.step] at hs
      split at hs
      · rename_i c acts hnone hc hacts
        cases hs
        refine ⟨s, _, rfl, ?_, by simp [hnone], .inr ⟨params, rfl, hc⟩⟩
        intro hdone
        cases hdone.1
      · cases hs
  | close s =>
      left
      simp only [Threads.step] at hs
      split at hs
      · rename_i c id hidle hid
        cases hs
        obtain ⟨hsame, hsock⟩ := hbegin hidle hid
        refine ⟨s, _, rfl, ?_, hsame, .inl hsock⟩
        intro hdone
        cases hdone.1
      · cases hs
  | beforeDestroy s =>
      left
      simp only [Threads.step] at hs
      split at hs
      · rename_i c id hidle hid
        cases hs
        obtain ⟨hsame, hsock⟩ := hbegin hidle hid
        refine ⟨s, _, rfl, ?_, hsame, .inl hsock⟩
        intro hdone
        cases hdone.2
      · cases hs
  | act s ok =>
      obtain ⟨c, stage, a, todo, hk, rfl⟩ := Threads.step_act hs
      exact .inr ⟨s, ok, c, stage, a, todo, rfl, hk, rfl⟩

/-- The only rows that an action writes: that of its own client, with this server's name
while the socket is created, and else with `NA`. -/
theorem table_act {name c : Bytes} {s : SocketId} {stage : Stage} {a : Action}
    (h : a ∈ stage.program name s c) (ok : Bool) (g : Gateway) (t : Table) :
    (a.apply ok (g, t)).2 = t ∨
      ∃ host, a = .insertData c host ∧ ok = true ∧ (a.apply ok (g, t)).2 = t.insert c host ∧
        (host = na ∨ host = name ∧ stage = .afterCreate) := by
  cases ok with
  | false =>
      left
      cases a <;> rfl
  | true =>
      cases stage with
      | afterCreate =>
          simp only [Stage.program, List.mem_cons, List.not_mem_nil, or_false] at h
          rcases h with rfl | rfl | rfl | rfl
          · exact .inl rfl
          · exact .inl rfl
          · exact .inr ⟨name, rfl, rfl, rfl, .inr ⟨rfl, rfl⟩⟩
          · exact .inl rfl
      | close =>
          simp only [Stage.program, onClose, setClientNotAvailable, List.mem_cons,
            List.not_mem_nil, or_false] at h
          rcases h with rfl | rfl
          · exact .inl rfl
          · exact .inr ⟨na, rfl, rfl, rfl, .inl rfl⟩
      | beforeDestroy =>
          simp only [Stage.program, onBeforeDestroyNonBlocking, onClose, setClientNotAvailable,
            List.mem_cons, List.not_mem_nil, or_false] at h
          rcases h with rfl | rfl | rfl
          · exact .inl rfl
          · exact .inl rfl
          · exact .inr ⟨na, rfl, rfl, rfl, .inl rfl⟩

theorem last_action {name c : Bytes} {s : SocketId} {a : Action}
    (h : [a] <:+ Stage.program name s c .beforeDestroy) : a = .insertData c na := by
  rcases h with ⟨pre, hpre⟩
  have hlast : (pre ++ [a]).getLast? = some (.insertData c na) := by rw [hpre]; rfl
  rw [List.getLast?_concat] at hlast
  exact Option.some.inj hlast

/-! ## The invariants of the single gateways -/

theorem Fleet.inv_step [DecidableEq γ] {name : γ → Bytes} {φ φ' : Fleet γ} {e : FleetMove γ}
    (h : ∀ g, (φ.threads g).Inv (name g)) (hs : φ.step name e = some φ') (g : γ) :
    (φ'.threads g).Inv (name g) := by
  have hput (r : γ) (σ : Threads) (hσ : σ.Inv (name r)) : ((φ.put r σ).threads g).Inv (name g) := by
    by_cases hg : g = r
    · subst hg
      simpa [Fleet.put, Fleet.threads] using hσ
    · have hother := h g
      refine ⟨?_, ?_, ?_, ?_, ?_⟩
      · simpa [Fleet.put, Fleet.threads, hg] using hother.program
      · simpa [Fleet.put, Fleet.threads, hg] using hother.listener
      · simpa [Fleet.put, Fleet.threads, hg] using hother.listened
      · simpa [Fleet.put, Fleet.threads, hg] using hother.holds
      · simpa [Fleet.put, Fleet.threads, hg] using hother.count
  cases e with
  | move r e =>
      obtain ⟨σ, hσ, rfl⟩ := Option.map_eq_some_iff.mp hs
      exact hput r σ ((h r).step hσ)
  | restart r =>
      cases hs
      exact hput r _ (.initial (name r) φ.table)

theorem Fleet.inv_initial (name : γ → Bytes) (table : Table) (g : γ) :
    ((Fleet.initial table : Fleet γ).threads g).Inv (name g) :=
  .initial (name g) table

/-! ## Rows and sockets -/

/-- A socket of the client on the gateway whose destruction is not over. -/
def Fleet.Live (φ : Fleet γ) (g : γ) (c : Bytes) (s : SocketId) : Prop :=
  ∃ k, φ.socks g s = some k ∧ k.clientId = c ∧ ¬ k.Done

/-- A row that names a gateway belongs to a client with a socket there. -/
def Fleet.RowsHaveSockets (name : γ → Bytes) (φ : Fleet γ) : Prop :=
  ∀ g c, φ.table.lookup c = some (name g) → ∃ s, φ.Live g c s

/-- If the write fails with which the last socket of a client on a gateway goes, the row
does not name the gateway; and no row names a gateway that is started again. -/
def FleetMove.Withdraws (name : γ → Bytes) (φ : Fleet γ) : FleetMove γ → Prop
  | .move g (.act s false) => ∀ c,
      φ.socks g s = some ⟨c, .beforeDestroy, [.insertData c na]⟩ →
      φ.table.lookup c = some (name g) → ∃ r, r ≠ s ∧ φ.Live g c r
  | .restart g => ∀ c, φ.table.lookup c ≠ some (name g)
  | _ => True

/-- The names of the gateways tell them apart, and from clients that are not connected. -/
structure ServerNames (name : γ → Bytes) : Prop where
  injective : Function.Injective name
  ne_na : ∀ g, name g ≠ na

variable [DecidableEq γ]

theorem Fleet.socks_put_self (φ : Fleet γ) (g : γ) (σ : Threads) : (φ.put g σ).socks g = σ.socks :=
  Function.update_self ..

theorem Fleet.socks_put_of_ne (φ : Fleet γ) {g r : γ} (h : r ≠ g) (σ : Threads) :
    (φ.put g σ).socks r = φ.socks r := Function.update_of_ne h ..

/-- A live socket stays live while another one changes, and while it keeps its client
and is not done itself. -/
theorem Fleet.Live.put {φ : Fleet γ} {g r : γ} {c : Bytes} {q s : SocketId} {k' : Sock}
    {st : Gateway × Table} (h : φ.Live r c q)
    (hid : ∀ k, φ.socks g s = some k → k.clientId = k'.clientId)
    (hdone : r = g → q = s → ¬ k'.Done) :
    (φ.put g ((φ.threads g).set st s k')).Live r c q := by
  rcases h with ⟨k, hk, rfl, hlive⟩
  by_cases hr : r = g
  · subst hr
    by_cases hq : q = s
    · subst hq
      refine ⟨k', ?_, (hid k hk).symm, hdone rfl rfl⟩
      rw [Fleet.socks_put_self]
      exact Threads.socks_set_self
    · refine ⟨k, ?_, rfl, hlive⟩
      rw [Fleet.socks_put_self, Threads.socks_set_of_ne hq]
      exact hk
  · refine ⟨k, ?_, rfl, hlive⟩
    rw [Fleet.socks_put_of_ne φ hr]
    exact hk

theorem Fleet.RowsHaveSockets.move {name : γ → Bytes} (hname : ServerNames name)
    {φ φ' : Fleet γ} {g : γ} {e : Move} (h : φ.RowsHaveSockets name)
    (hinv : (φ.threads g).Inv (name g)) (hg : (FleetMove.move g e).Withdraws name φ)
    (hs : φ.step name (.move g e) = some φ') : φ'.RowsHaveSockets name := by
  obtain ⟨σ, hσ, rfl⟩ := Option.map_eq_some_iff.mp hs
  rcases hinv.step_cases hσ with ⟨s, k', rfl, hlive, hid, -⟩ |
    ⟨s, ok, c, stage, a, todo, rfl, hk, rfl⟩
  · intro r d hrow
    obtain ⟨q, hq⟩ := h r d hrow
    exact ⟨q, hq.put hid fun _ _ => hlive⟩
  · have hsuffix : a :: todo <:+ stage.program (name g) s c := hinv.program s _ hk
    have hmem : a ∈ stage.program (name g) s c := hsuffix.subset List.mem_cons_self
    have hid (k : Sock) (hk' : φ.socks g s = some k) : k.clientId = c := by
      rw [← Option.some.inj (hk.symm.trans hk')]
    intro r d hrow
    replace hrow : (a.apply ok (φ.gateways g, φ.table)).2.lookup d = some (name r) := hrow
    rcases table_act hmem ok (φ.gateways g) φ.table with hsame | ⟨host, rfl, rfl, hwrite, hhost⟩
    · rw [hsame] at hrow
      obtain ⟨q, hq⟩ := h r d hrow
      by_cases hover : r = g ∧ q = s ∧ (⟨c, stage, todo⟩ : Sock).Done
      · obtain ⟨rfl, rfl, hstage, htodo⟩ := hover
        obtain rfl : stage = .beforeDestroy := hstage
        obtain rfl : todo = [] := htodo
        obtain rfl := last_action hsuffix
        obtain ⟨k, hk', rfl, -⟩ := hq
        obtain rfl := Option.some.inj (hk.symm.trans hk')
        cases ok with
        | true =>
            -- the write was to change the row, and has not: it said `NA` before
            have hna : φ.table.lookup c = some na := by
              rw [← hsame]
              exact AList.lookup_insert φ.table
            rw [hna, Option.some.injEq] at hrow
            exact absurd hrow.symm (hname.ne_na r)
        | false =>
            obtain ⟨q', hne, hlive⟩ := hg c hk hrow
            exact ⟨q', hlive.put hid fun _ heq => absurd heq hne⟩
      · exact ⟨q, hq.put hid fun hr hqs hdone => hover ⟨hr, hqs, hdone⟩⟩
    · rw [hwrite] at hrow
      by_cases hd : d = c
      · subst hd
        rw [AList.lookup_insert, Option.some.injEq] at hrow
        rcases hhost with rfl | ⟨rfl, rfl⟩
        · exact absurd hrow.symm (hname.ne_na r)
        · obtain rfl : g = r := hname.injective hrow
          refine ⟨s, ⟨d, .afterCreate, todo⟩, ?_, rfl, fun hdone => ?_⟩
          · rw [Fleet.socks_put_self]
            exact Threads.socks_set_self
          · cases hdone.1
      · rw [AList.lookup_insert_ne hd] at hrow
        obtain ⟨q, hq⟩ := h r d hrow
        refine ⟨q, hq.put hid fun hr hqs _ => ?_⟩
        subst hr hqs
        obtain ⟨k, hk', rfl, -⟩ := hq
        exact hd (hid k hk')

theorem Fleet.RowsHaveSockets.restart {name : γ → Bytes} {φ : Fleet γ} {g : γ}
    (h : φ.RowsHaveSockets name) (hg : ∀ c, φ.table.lookup c ≠ some (name g)) :
    (φ.put g (.initial φ.table)).RowsHaveSockets name := by
  intro r c hrow
  obtain ⟨s, k, hk, hid⟩ := h r c hrow
  have hr : r ≠ g := by
    intro heq
    subst heq
    exact hg c hrow
  exact ⟨s, k, by rw [Fleet.socks_put_of_ne φ hr]; exact hk, hid⟩

/-- Against the guard a row is left that nobody stands behind. -/
theorem FleetMove.not_rowsHaveSockets {name : γ → Bytes} {φ φ' : Fleet γ} {e : FleetMove γ}
    (hg : ¬ e.Withdraws name φ) (hs : φ.step name e = some φ') : ¬ φ'.RowsHaveSockets name := by
  intro h
  cases e with
  | restart g =>
      simp only [FleetMove.Withdraws, not_forall, not_not] at hg
      rcases hg with ⟨c, hrow⟩
      cases hs
      obtain ⟨s, k, hk, -⟩ := h g c hrow
      rw [Fleet.socks_put_self] at hk
      cases hk
  | move g e =>
      cases e with
      | afterCreate | close | beforeDestroy => exact hg trivial
      | act s ok =>
          cases ok with
          | true => exact hg trivial
          | false =>
              simp only [FleetMove.Withdraws, not_forall, not_exists, not_and] at hg
              rcases hg with ⟨c, hk, hrow, hothers⟩
              obtain ⟨σ, hσ, rfl⟩ := Option.map_eq_some_iff.mp hs
              obtain ⟨c', stage, a, todo, hk', rfl⟩ := Threads.step_act hσ
              cases hk.symm.trans hk'
              obtain ⟨q, k, hq, hid, hlive⟩ := h g c hrow
              rw [Fleet.socks_put_self] at hq
              rcases Threads.socks_set_cases hq with ⟨-, rfl⟩ | ⟨hne, hold⟩
              · exact hlive ⟨rfl, rfl⟩
              · exact hothers q hne ⟨k, hold, hid, hlive⟩

/-- In every run of the fleet, whatever callbacks interleave on which gateways and
whatever writes fail, a row that names a gateway always belongs to a client with a socket
there, exactly if the write that withdraws the last socket of a client on a gateway
succeeds when the row names it, and a gateway is only started again when no row does. -/
theorem rows_have_sockets_iff {name : γ → Bytes} (hname : ServerNames name) {table : Table}
    (htable : ∀ g c, table.lookup c ≠ some (name g)) {es : List (FleetMove γ)}
    (h : (exec (Fleet.step name) (.initial table) es).isSome) :
    (∀ φ, Visits (Fleet.step name) (.initial table) es φ → φ.RowsHaveSockets name) ↔
      ∀ φ e, Takes (Fleet.step name) (.initial table) es φ e → e.Withdraws name φ := by
  refine @visits_good_iff _ _ _ _
    (fun φ => (∀ g, (φ.threads g).Inv (name g)) ∧ φ.RowsHaveSockets name)
    (Fleet.RowsHaveSockets name) (FleetMove.Withdraws name)
    ⟨Fleet.inv_initial name table, fun g c hrow => absurd hrow (htable g c)⟩
    (fun φ hφ => hφ.2) ?_ ?_ es h
  · intro φ e φ' hφ hg hs
    refine ⟨Fleet.inv_step hφ.1 hs, ?_⟩
    cases e with
    | move g e => exact hφ.2.move hname (hφ.1 g) hg hs
    | restart g =>
        cases hs
        exact hφ.2.restart hg
  · intro φ e φ' _ hg hs
    exact FleetMove.not_rowsHaveSockets hg hs

def movingClient : List (FleetMove Bool) :=
  [.move false (.afterCreate 1 (wsParams (ascii "VIN1"))), .move false (.act 1 true),
    .move false (.act 1 true), .move false (.act 1 true), .move false (.act 1 true),
    .move false (.beforeDestroy 1), .move true (.afterCreate 1 (wsParams (ascii "VIN1"))),
    .move false (.act 1 true), .move true (.act 1 true), .move true (.act 1 true),
    .move false (.act 1 true), .move true (.act 1 true), .move false (.act 1 false)]

def gatewayName (g : Bool) : Bytes := if g then ascii "gw2" else ascii "gw1"

theorem serverNames_gatewayName : ServerNames gatewayName := by
  constructor
  · decide
  · decide

theorem rows_have_sockets_moving :
    (∀ φ, Visits (Fleet.step gatewayName) (.initial ∅) movingClient φ →
        φ.RowsHaveSockets gatewayName) ∧
      ∃ φ, exec (Fleet.step gatewayName) (.initial ∅) movingClient = some φ ∧
        φ.table.lookup (ascii "VIN1") = some (ascii "gw2") ∧ φ.Live true (ascii "VIN1") 1 := by
  have hguard : Guarded (Fleet.step gatewayName) (fun φ e => e.Withdraws gatewayName φ)
      (.initial ∅) movingClient := by
    iterate 12 refine .cons trivial rfl ?_
    refine .cons (fun c hk hrow => ?_) rfl trivial
    -- the write fails, but the row names the second gateway
    cases hk
    exact absurd hrow (by decide)
  refine ⟨(rows_have_sockets_iff serverNames_gatewayName (by intro g c h; cases h) rfl).mpr
    (guarded_iff.mp hguard), _, rfl, by decide, _, rfl, rfl, ?_⟩
  intro hdone
  cases hdone.1

/-! ## When the last socket is gone -/

/-- The write of the move, if it has one, succeeds, and no process ends. -/
def FleetMove.Succeeds : FleetMove γ → Prop
  | .move _ (.act _ ok) => ok = true
  | .move _ _ => True
  | .restart _ => False

def Fleet.Withdrawn (φ : Fleet γ) : Prop :=
  ∀ c, (∃ g s k, φ.socks g s = some k ∧ k.clientId = c) → (∀ g s, ¬ φ.Live g c s) →
    φ.table.lookup c = some na

theorem Fleet.Withdrawn.move {name : γ → Bytes} {φ φ' : Fleet γ} {g : γ} {e : Move}
    (h : φ.Withdrawn) (hinv : (φ.threads g).Inv (name g)) (hg : (FleetMove.move g e).Succeeds)
    (hs : φ.step name (.move g e) = some φ') : φ'.Withdrawn := by
  obtain ⟨σ, hσ, rfl⟩ := Option.map_eq_some_iff.mp hs
  -- the clients of the other sockets are as they were
  have hother {s : SocketId} {k' : Sock} {st : Gateway × Table} {d : Bytes}
      (hne : k'.clientId ≠ d) (hid : ∀ k, φ.socks g s = some k → k.clientId = k'.clientId)
      (hex : ∃ r q k, (φ.put g ((φ.threads g).set st s k')).socks r q = some k ∧ k.clientId = d)
      (hdone : ∀ r q, ¬ (φ.put g ((φ.threads g).set st s k')).Live r d q) :
      φ.table.lookup d = some na := by
    refine h d ?_ fun r q hlive => ?_
    · rcases hex with ⟨r, q, k, hk, rfl⟩
      by_cases hr : r = g
      · subst hr
        rw [Fleet.socks_put_self] at hk
        rcases Threads.socks_set_cases hk with ⟨-, rfl⟩ | ⟨-, hold⟩
        · exact absurd rfl hne
        · exact ⟨r, q, k, hold, rfl⟩
      · rw [Fleet.socks_put_of_ne φ hr] at hk
        exact ⟨r, q, k, hk, rfl⟩
    · refine hdone r q (hlive.put hid fun hr hq _ => ?_)
      subst hr hq
      obtain ⟨k, hk, rfl, -⟩ := hlive
      exact hne (hid k hk).symm
  rcases hinv.step_cases hσ with ⟨s, k', rfl, hlive, hid, -⟩ |
    ⟨s, ok, c, stage, a, todo, rfl, hk, rfl⟩
  · intro d hex hdone
    by_cases hd : k'.clientId = d
    · subst hd
      refine absurd ?_ (hdone g s)
      refine ⟨k', ?_, rfl, hlive⟩
      rw [Fleet.socks_put_self]
      exact Threads.socks_set_self
    · exact hother hd hid hex hdone
  · obtain rfl : ok = true := hg
    have hsuffix : a :: todo <:+ stage.program (name g) s c := hinv.program s _ hk
    have hmem : a ∈ stage.program (name g) s c := hsuffix.subset List.mem_cons_self
    intro d hex hdone
    show (a.apply true (φ.gateways g, φ.table)).2.lookup d = some na
    by_cases hd : c = d
    · subst hd
      by_cases hover : (⟨c, stage, todo⟩ : Sock).Done
      · obtain ⟨hstage, htodo⟩ := hover
        obtain rfl : stage = .beforeDestroy := hstage
        obtain rfl : todo = [] := htodo
        obtain rfl := last_action hsuffix
        exact AList.lookup_insert φ.table
      · refine absurd ?_ (hdone g s)
        refine ⟨⟨c, stage, todo⟩, ?_, rfl, hover⟩
        rw [Fleet.socks_put_self]
        exact Threads.socks_set_self
    · have hrow := @hother s ⟨c, stage, todo⟩ _ d hd
        (fun k hk' => by rw [← Option.some.inj (hk.symm.trans hk')]) hex hdone
      rcases table_act hmem true (φ.gateways g) φ.table with hsame | ⟨host, -, -, hwrite, -⟩
      · rw [hsame, hrow]
      · rw [hwrite, AList.lookup_insert_ne (Ne.symm hd), hrow]

/-- In every run of the fleet whose writes succeed and in which no process ends, a client
all of whose sockets are gone, on all gateways, is in no map, and its row says `NA`,
however the callbacks of its sockets were interleaved. -/
theorem gone_client_is_withdrawn {name : γ → Bytes} {table : Table} {es : List (FleetMove γ)}
    {φ : Fleet γ} (h : exec (Fleet.step name) (.initial table) es = some φ)
    (hes : ∀ e ∈ es, e.Succeeds) (c : Bytes) (hgone : ∀ g s, ¬ φ.Live g c s) :
    (∀ g, c ∉ (φ.gateways g).clients) ∧
      ((∃ g s k, φ.socks g s = some k ∧ k.clientId = c) → φ.table.lookup c = some na) := by
  have hboth : (∀ g, (φ.threads g).Inv (name g)) ∧ φ.Withdrawn := by
    refine guarded_invariant (fun φ => (∀ g, (φ.threads g).Inv (name g)) ∧ φ.Withdrawn)
      (fun _ e => e.Succeeds) ⟨Fleet.inv_initial name table, ?_⟩ ?_ ?_ h
    · intro d hex
      rcases hex with ⟨g, s, k, hk, -⟩
      cases hk
    · intro φ e φ' hφ hg hs
      refine ⟨Fleet.inv_step hφ.1 hs, ?_⟩
      cases e with
      | move g e => exact hφ.2.move (hφ.1 g) hg hs
      | restart g => exact absurd hg id
    · intro φ e htakes
      rcases htakes with ⟨pre, hpre, -⟩
      exact hes e (hpre.subset (List.mem_append_right pre List.mem_cons_self))
  refine ⟨fun g hmem => ?_, fun hex => hboth.2 c hex hgone⟩
  obtain ⟨s, hs⟩ := Option.isSome_iff_exists.mp (AList.lookup_isSome.mpr hmem)
  obtain ⟨k, hk, hid, hmay⟩ := (hboth.1 g).holds c s hs
  refine hgone g s ⟨k, hk, hid, fun hdone => ?_⟩
  have hleft := hmay.2 hdone.1
  rw [hdone.2] at hleft
  cases hleft

def leavingClient : List (FleetMove Bool) :=
  movingClient.dropLast ++ [.move false (.act 1 true), .move true (.act 1 true),
    .move true (.beforeDestroy 1), .move true (.act 1 true), .move true (.act 1 true),
    .move true (.act 1 true)]

theorem Fleet.socks_eq_none {name : γ → Bytes} {φ φ' : Fleet γ} {es : List (FleetMove γ)}
    (h : exec (Fleet.step name) φ es = some φ') {g : γ} {s : SocketId}
    (hnone : φ.socks g s = none) (hes : ∀ params, .move g (.afterCreate s params) ∉ es) :
    φ'.socks g s = none := by
  refine guarded_invariant (fun φ => φ.socks g s = none)
    (fun _ e => ∀ params, e ≠ .move g (.afterCreate s params)) hnone ?_ ?_ h
  · intro φ e φ' hφ he hs
    cases e with
    | restart r =>
        cases hs
        by_cases hr : g = r
        · subst hr
          rw [Fleet.socks_put_self]
          rfl
        · rw [Fleet.socks_put_of_ne φ hr, hφ]
    | move r e =>
        obtain ⟨σ, hσ, rfl⟩ := Option.map_eq_some_iff.mp hs
        by_cases hr : g = r
        · subst hr
          rw [Fleet.socks_put_self]
          have hother {q : SocketId} (hq : q ≠ s) (st : Gateway × Table) (k : Sock) :
              ((φ.threads g).set st q k).socks s = none :=
            (Threads.socks_set_of_ne hq.symm).trans hφ
          cases e with
          | afterCreate q params =>
              obtain ⟨c, -, rfl⟩ := Threads.step_afterCreate hσ
              refine hother (fun hq => ?_) _ _
              subst hq
              exact he params rfl
          | close q | beforeDestroy q =>
              simp only [Threads.step] at hσ
              split at hσ
              · rename_i hidle _
                cases hσ
                refine hother (fun hq => ?_) _ _
                subst hq
                simp [Fleet.threads, hφ] at hidle
              · cases hσ
          | act q ok =>
              obtain ⟨c, stage, a, todo, hk, rfl⟩ := Threads.step_act hσ
              refine hother (fun hq => ?_) _ _
              subst hq
              cases hφ.symm.trans hk
        · rw [Fleet.socks_put_of_ne φ hr, hφ]
  · intro φ e htakes params heq
    rcases htakes with ⟨pre, hpre, -⟩
    refine hes params (hpre.subset (List.mem_append_right pre ?_))
    simp [heq]

theorem gone_client_leaving : ∃ φ,
    exec (Fleet.step gatewayName) (.initial ∅) leavingClient = some φ ∧
      (∀ g, ascii "VIN1" ∉ (φ.gateways g).clients) ∧
      φ.table.lookup (ascii "VIN1") = some na := by
  have hes : ∀ e ∈ leavingClient, e.Succeeds := by
    simp [leavingClient, movingClient, FleetMove.Succeeds]
  have hsock (g : Bool) : (exec (Fleet.step gatewayName) (.initial ∅) leavingClient).map
      (fun φ => φ.socks g 1) = some (some ⟨ascii "VIN1", .beforeDestroy, []⟩) := by
    cases g <;> rfl
  obtain ⟨φ, hφ, hfirst⟩ := Option.map_eq_some_iff.mp (hsock false)
  have hgone (g : Bool) (s : SocketId) : ¬ φ.Live g (ascii "VIN1") s := by
    intro hlive
    rcases hlive with ⟨k, hk, -, hnot⟩
    by_cases hs : s = 1
    · subst hs
      have hdone := hsock g
      rw [hφ, Option.map_some, Option.some.injEq, hk, Option.some.injEq] at hdone
      subst hdone
      exact hnot ⟨rfl, rfl⟩
    · have hnone := Fleet.socks_eq_none hφ (g := g) (s := s) rfl (by
        simp [leavingClient, movingClient, hs])
      cases hnone.symm.trans hk
  obtain ⟨hmaps, hrow⟩ := gone_client_is_withdrawn hφ hes (ascii "VIN1") hgone
  exact ⟨φ, hφ, hmaps, hrow ⟨false, 1, _, hfirst, rfl⟩⟩

end WsGateway.Registry
