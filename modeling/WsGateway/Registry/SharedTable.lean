import WsGateway.Registry.Callbacks

/-!
# Several gateways and the one table they share

The registration is an upsert by client id, and so is its withdrawal: no write
looks at the server name that the row holds. Which gateway a row names is
therefore a matter of the order of the callbacks alone.
-/

namespace WsGateway.Registry

open Lib Lib.Runs

variable {γ : Type*}

/-- The row of a client with exactly one open socket names the gateway of that socket. -/
def RowsNameSoleGateway (name : γ → Bytes) (σ : Cluster γ) : Prop :=
  ∀ s k, σ.conns s = some k → k.isOpen = true → (∀ r, σ.OpenFor k.clientId r → r = s) →
    σ.table.lookup k.clientId = some (name k.gateway)

/-- If the callback withdraws the registration of a socket, it does not leave
its client with exactly one open socket, unless on a gateway that is itself
named `NA`. -/
def LeavesNoSoleSocket (name : γ → Bytes) (σ : Cluster γ) (e : Callback γ) : Prop :=
  ∀ s k, e.withdraws? = some s → σ.conns s = some k →
    ∀ r j, r ≠ s → σ.conns r = some j → j.clientId = k.clientId → j.isOpen = true →
      (∀ q, q ≠ s → σ.OpenFor k.clientId q → q = r) → name j.gateway = na

theorem rowsNameSoleGateway_initial (name : γ → Bytes) (table : Table) :
    RowsNameSoleGateway name (.initial table) := by
  intro s k hk
  cases hk

theorem Created.rowsNameSoleGateway {name : γ → Bytes} {σ σ' : Cluster γ} {s : SocketId} {g : γ}
    {c : Bytes} (h : Created name σ σ' s g c) (hrow : RowsNameSoleGateway name σ) :
    RowsNameSoleGateway name σ' := by
  intro r j hr hopen hsole
  by_cases hjc : j.clientId = c
  · obtain rfl : s = r := hsole s ((h.openFor_iff _ s).mpr (Or.inr ⟨rfl, hjc⟩))
    rw [h.conns, Function.update_self] at hr
    cases hr
    rw [h.table, AList.lookup_insert]
  · have hrs : r ≠ s := by
      intro heq
      subst heq
      rw [h.conns, Function.update_self] at hr
      cases hr
      exact hjc rfl
    rw [h.conns, Function.update_of_ne hrs] at hr
    rw [h.table, AList.lookup_insert_ne hjc]
    exact hrow r j hr hopen fun q hq => hsole q ((h.openFor_iff _ q).mpr (Or.inl hq))

theorem Withdrawn.sole {σ σ' : Cluster γ} {s r : SocketId} {k k' j : Conn γ}
    (h : Withdrawn σ σ' s k k') (hr : σ'.conns r = some j) (hopen : j.isOpen = true) :
    r ≠ s ∧ σ.conns r = some j := by
  rw [h.conns] at hr
  by_cases hrs : r = s
  · subst hrs
    obtain rfl : k' = j := by simpa using hr
    rw [h.notOpen] at hopen
    cases hopen
  · rw [Function.update_of_ne hrs] at hr
    exact ⟨hrs, hr⟩

theorem Withdrawn.rowsNameSoleGateway {name : γ → Bytes} {σ σ' : Cluster γ} {s : SocketId}
    {k k' : Conn γ} (h : Withdrawn σ σ' s k k') (hrow : RowsNameSoleGateway name σ)
    (hg : ∀ r j, r ≠ s → σ.conns r = some j → j.clientId = k.clientId → j.isOpen = true →
      (∀ q, q ≠ s → σ.OpenFor k.clientId q → q = r) → name j.gateway = na) :
    RowsNameSoleGateway name σ' := by
  intro r j hr hopen hsole
  obtain ⟨hrs, hr⟩ := h.sole hr hopen
  by_cases hjk : j.clientId = k.clientId
  · have hna : name j.gateway = na := hg r j hrs hr hjk hopen fun q hq hqo =>
      hsole q ((h.openFor_iff _ q).mpr ⟨hjk ▸ hqo, hq⟩)
    rw [h.table, hjk, AList.lookup_insert, hna]
  · rw [h.table, AList.lookup_insert_ne hjk]
    refine hrow r j hr hopen fun q hq => hsole q ((h.openFor_iff _ q).mpr ⟨hq, ?_⟩)
    intro heq
    subst heq
    rcases hq with ⟨i, hi, hij, -⟩
    obtain rfl : i = k := Option.some.inj (hi.symm.trans h.before)
    exact hjk hij.symm

/-- Against the guard the row of the remaining socket says `NA`. -/
theorem Withdrawn.not_rowsNameSoleGateway {name : γ → Bytes} {σ σ' : Cluster γ}
    {s r : SocketId} {k k' j : Conn γ} (h : Withdrawn σ σ' s k k') (hrs : r ≠ s)
    (hr : σ.conns r = some j) (hjk : j.clientId = k.clientId) (hopen : j.isOpen = true)
    (hsole : ∀ q, q ≠ s → σ.OpenFor k.clientId q → q = r) (hname : name j.gateway ≠ na) :
    ¬ RowsNameSoleGateway name σ' := by
  intro hrow
  have hr' : σ'.conns r = some j := by rw [h.conns, Function.update_of_ne hrs, hr]
  have hlook := hrow r j hr' hopen fun q hq => by
    obtain ⟨hqo, hqs⟩ := (h.openFor_iff _ q).mp hq
    exact hsole q hqs (hjk ▸ hqo)
  rw [h.table, hjk, AList.lookup_insert] at hlook
  exact hname (Option.some.inj hlook).symm

variable [DecidableEq γ]

/-- In every run of atomic callbacks on any number of gateways, the row of a
client with a single open socket names its gateway in all states exactly when
no close frame and no destruction leaves a client with a single open socket. -/
theorem rows_name_sole_gateway_iff (name : γ → Bytes) (table : Table) (es : List (Callback γ))
    (h : (exec (Cluster.step name) (.initial table) es).isSome) :
    (∀ σ, Visits (Cluster.step name) (.initial table) es σ → RowsNameSoleGateway name σ) ↔
      ∀ σ e, Takes (Cluster.step name) (.initial table) es σ e → LeavesNoSoleSocket name σ e := by
  refine visits_good_iff (fun σ => σ.Listening ∧ RowsNameSoleGateway name σ)
    ⟨listening_initial table, rowsNameSoleGateway_initial name table⟩ (fun σ hσ => hσ.2) ?_ ?_ h
  · intro σ e σ' hσ hg hstep
    rcases hσ with ⟨hl, hrow⟩
    refine ⟨step_listening hl hstep, ?_⟩
    rcases step_cases hl hstep with ⟨s, g, c, -, hc⟩ | ⟨s, k, k', he, hw⟩
    · exact hc.rowsNameSoleGateway hrow
    · exact hw.rowsNameSoleGateway hrow (hg s k he hw.before)
  · intro σ e σ' hσ hg hstep
    rcases hσ with ⟨hl, -⟩
    simp only [LeavesNoSoleSocket, not_forall] at hg
    rcases hg with ⟨s, k, he, hk, r, j, hrs, hr, hjk, hopen, hsole, hname⟩
    obtain ⟨k', hw⟩ := step_withdraws hl hstep he hk
    exact hw.not_rowsNameSoleGateway hrs hr hjk hopen hsole hname

def twoServers : Bool → Bytes
  | false => ascii "gw1"
  | true => ascii "gw2"

def moveAfterTeardown : List (Callback Bool) :=
  [.afterCreate 1 false (wsParams (ascii "VIN1")), .beforeDestroy 1,
    .afterCreate 2 true (wsParams (ascii "VIN1"))]

theorem rows_name_sole_gateway_one_by_one :
    (∀ σ, Visits (Cluster.step twoServers) (.initial ∅) moveAfterTeardown σ →
        RowsNameSoleGateway twoServers σ) ∧
      ∃ σ, exec (Cluster.step twoServers) (.initial ∅) moveAfterTeardown = some σ ∧
        σ.OpenFor (ascii "VIN1") 2 ∧ σ.table.lookup (ascii "VIN1") = some (ascii "gw2") := by
  have hguard : Guarded (Cluster.step twoServers) (LeavesNoSoleSocket twoServers) (.initial ∅)
      moveAfterTeardown := by
    refine .cons ?_ rfl (.cons ?_ rfl (.cons ?_ rfl trivial))
    · intro s k he
      cases he
    · intro s k he _ r j hrs hr
      cases he
      replace hr : Function.update (fun _ => none) 1
        (some (⟨false, ascii "VIN1", false, false⟩ : Conn Bool)) r = some j := hr
      rw [Function.update_of_ne hrs] at hr
      cases hr
    · intro s k he
      cases he
  exact ⟨(rows_name_sole_gateway_iff twoServers ∅ moveAfterTeardown (by decide)).mpr
    (guarded_iff.mp hguard), _, rfl, ⟨_, rfl, rfl, rfl⟩, by decide⟩

/-- A client that moves to the second gateway before the first one sees its old
socket go. -/
def moveBeforeTeardown : List (Callback Bool) :=
  [.afterCreate 1 false (wsParams (ascii "VIN1")), .afterCreate 2 true (wsParams (ascii "VIN1")),
    .beforeDestroy 1]

theorem late_destroy_erases_other_registration :
    ∃ σ, exec (Cluster.step twoServers) (.initial ∅) moveBeforeTeardown = some σ ∧
      (∀ r, σ.OpenFor (ascii "VIN1") r ↔ r = 2) ∧
      σ.table.lookup (ascii "VIN1") = some na ∧ ¬ RowsNameSoleGateway twoServers σ := by
  have hopen : ∀ σ, exec (Cluster.step twoServers) (.initial ∅) moveBeforeTeardown = some σ →
      ∀ r, σ.OpenFor (ascii "VIN1") r ↔ r = 2 := by
    intro σ hσ r
    cases hσ
    constructor
    · intro h
      rcases h with ⟨k, hk, -, ho⟩
      by_contra hr2
      by_cases hr1 : r = 1
      · subst hr1
        cases hk
        cases ho
      · have hnone : (none : Option (Conn Bool)) = some k := by
          rw [← hk]
          simp [Cluster.perform, Cluster.initial, hr1, hr2]
        cases hnone
    · intro heq
      subst heq
      exact ⟨_, rfl, rfl, rfl⟩
  refine ⟨_, rfl, hopen _ rfl, by decide, ?_⟩
  intro hrow
  have := hrow 2 _ rfl rfl fun r hr => (hopen _ rfl r).mp hr
  exact absurd this (by decide +revert)

end WsGateway.Registry
