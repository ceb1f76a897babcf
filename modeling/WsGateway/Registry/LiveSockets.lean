import WsGateway.Registry.Callbacks

/-!
# The registry of one gateway and its open sockets

A callback that withdraws a registration erases by client id, whichever socket
is stored. So the registry follows the open sockets exactly in the runs where
no socket of a client is closed or destroyed beside another open one.
-/

namespace WsGateway.Registry

open Lib Lib.Runs

/-- Every client with an open socket is registered with one of its open sockets,
and its row holds this server's name. -/
def FollowsLiveSockets (name : Bytes) (σ : Cluster Unit) : Prop :=
  ∀ c, c ≠ [] → (∃ s, σ.OpenFor c s) →
    (∃ s, (σ.gateways ()).clients.lookup c = some s ∧ σ.OpenFor c s) ∧
      σ.table.lookup c = some name

/-- If the callback withdraws the registration of a socket, no other socket of
the same non-empty client id is open. -/
def NoOtherOpen (σ : Cluster Unit) (e : Callback Unit) : Prop :=
  ∀ s k, e.withdraws? = some s → σ.conns s = some k → k.clientId ≠ [] →
    ∀ r, σ.OpenFor k.clientId r → r = s

theorem followsLiveSockets_initial (name : Bytes) (table : Table) :
    FollowsLiveSockets name (.initial table) := by
  intro c _ h
  rcases h with ⟨s, k, hk, -⟩
  cases hk

theorem Created.follows {name c : Bytes} {σ σ' : Cluster Unit} {s : SocketId} {g : Unit}
    (h : Created (fun _ => name) σ σ' s g c) (hf : FollowsLiveSockets name σ) :
    FollowsLiveSockets name σ' := by
  intro d hd hopen
  rcases hopen with ⟨r, hr⟩
  by_cases hdc : d = c
  · subst hdc
    refine ⟨⟨s, ?_, (h.openFor_iff d s).mpr (Or.inr ⟨rfl, rfl⟩)⟩, ?_⟩
    · rw [h.clients, AList.lookup_insert]
    · rw [h.table, AList.lookup_insert]
  · have hopen : σ.OpenFor d r := by
      rcases (h.openFor_iff d r).mp hr with hr | ⟨-, hc⟩
      · exact hr
      · exact absurd hc hdc
    obtain ⟨⟨q, hq, hqo⟩, hrow⟩ := hf d hd ⟨r, hopen⟩
    refine ⟨⟨q, ?_, (h.openFor_iff d q).mpr (Or.inl hqo)⟩, ?_⟩
    · rw [h.clients, AList.lookup_insert_ne hdc, hq]
    · rw [h.table, AList.lookup_insert_ne hdc, hrow]

theorem Withdrawn.follows {name : Bytes} {σ σ' : Cluster Unit} {s : SocketId} {k k' : Conn Unit}
    (h : Withdrawn σ σ' s k k') (hf : FollowsLiveSockets name σ)
    (hg : k.clientId ≠ [] → ∀ r, σ.OpenFor k.clientId r → r = s) :
    FollowsLiveSockets name σ' := by
  intro d hd hopen
  rcases hopen with ⟨r, hr⟩
  obtain ⟨hr, hrs⟩ := (h.openFor_iff d r).mp hr
  have hdk : d ≠ k.clientId := by
    intro heq
    subst heq
    exact hrs (hg hd r hr)
  obtain ⟨⟨q, hq, hqo⟩, hrow⟩ := hf d hd ⟨r, hr⟩
  have hqs : q ≠ s := by
    intro heq
    subst heq
    rcases hqo with ⟨j, hj, rfl, -⟩
    exact hdk (by rw [Option.some.inj (hj.symm.trans h.before)])
  refine ⟨⟨q, ?_, (h.openFor_iff d q).mpr ⟨hqo, hqs⟩⟩, ?_⟩
  · rw [h.clients, AList.lookup_erase_ne hdk, hq]
  · rw [h.table, AList.lookup_insert_ne hdk, hrow]

/-- Against the guard the erased client keeps an open socket. -/
theorem Withdrawn.not_follows {name : Bytes} {σ σ' : Cluster Unit} {s : SocketId}
    {k k' : Conn Unit} (h : Withdrawn σ σ' s k k') (hc : k.clientId ≠ []) {r : SocketId}
    (hr : σ.OpenFor k.clientId r) (hrs : r ≠ s) : ¬ FollowsLiveSockets name σ' := by
  intro hf
  obtain ⟨⟨q, hq, -⟩, -⟩ := hf k.clientId hc ⟨r, (h.openFor_iff _ r).mpr ⟨hr, hrs⟩⟩
  rw [h.clients, AList.lookup_erase] at hq
  cases hq

/-- In every run of atomic callbacks on one gateway, the registry follows the
open sockets in all states exactly when every close frame and every destruction
finds no other open socket of its client. -/
theorem follows_live_sockets_iff (name : Bytes) (table : Table) (es : List (Callback Unit))
    (h : (exec (Cluster.step fun _ => name) (.initial table) es).isSome) :
    (∀ σ, Visits (Cluster.step fun _ => name) (.initial table) es σ →
        FollowsLiveSockets name σ) ↔
      ∀ σ e, Takes (Cluster.step fun _ => name) (.initial table) es σ e → NoOtherOpen σ e := by
  refine visits_good_iff (fun σ => σ.Listening ∧ FollowsLiveSockets name σ)
    ⟨listening_initial table, followsLiveSockets_initial name table⟩ (fun σ hσ => hσ.2) ?_ ?_ h
  · intro σ e σ' hσ hg hstep
    rcases hσ with ⟨hl, hf⟩
    refine ⟨step_listening hl hstep, ?_⟩
    rcases step_cases hl hstep with ⟨s, g, c, -, hc⟩ | ⟨s, k, k', he, hw⟩
    · exact hc.follows hf
    · exact hw.follows hf (hg s k he hw.before)
  · intro σ e σ' hσ hg hstep
    rcases hσ with ⟨hl, -⟩
    simp only [NoOtherOpen, not_forall] at hg
    rcases hg with ⟨s, k, he, hk, hne, r, hr, hrs⟩
    obtain ⟨k', hw⟩ := step_withdraws hl hstep he hk
    exact hw.not_follows hne hr hrs

def reconnectAfterTeardown : List (Callback Unit) :=
  [.afterCreate 1 () (wsParams (ascii "VIN1")), .close 1, .beforeDestroy 1,
    .afterCreate 2 () (wsParams (ascii "VIN1"))]

theorem follows_live_sockets_one_by_one :
    (∀ σ, Visits (Cluster.step fun _ => ascii "gw1") (.initial ∅) reconnectAfterTeardown σ →
        FollowsLiveSockets (ascii "gw1") σ) ∧
      ∃ σ, exec (Cluster.step fun _ => ascii "gw1") (.initial ∅) reconnectAfterTeardown = some σ ∧
        σ.OpenFor (ascii "VIN1") 2 ∧ (σ.gateways ()).clients.lookup (ascii "VIN1") = some 2 ∧
        σ.table.lookup (ascii "VIN1") = some (ascii "gw1") := by
  have hguard : Guarded (Cluster.step fun _ => ascii "gw1") NoOtherOpen (.initial ∅)
      reconnectAfterTeardown := by
    refine .cons ?_ rfl (.cons ?_ rfl (.cons ?_ rfl (.cons ?_ rfl trivial)))
    · intro s k he
      cases he
    · intro s k he _ _ r hr
      cases he
      by_contra hne
      rcases hr with ⟨j, hj, -⟩
      cases (Function.update_of_ne hne _ _).symm.trans hj
    · intro s k he _ _ r hr
      cases he
      by_contra hne
      rcases hr with ⟨j, hj, -⟩
      replace hj := (Function.update_of_ne hne _ _).symm.trans hj
      cases (Function.update_of_ne hne _ _).symm.trans hj
    · intro s k he
      cases he
  exact ⟨(follows_live_sockets_iff (ascii "gw1") ∅ reconnectAfterTeardown (by decide)).mpr
    (guarded_iff.mp hguard), _, rfl, ⟨_, rfl, rfl, rfl⟩, by decide, by decide⟩

/-- A reconnect before the old socket is torn down: the teardown of socket 1
removes the client although its socket 2 is open. -/
theorem reconnect_before_teardown_unregisters :
    ∃ σ, exec (Cluster.step fun _ => ascii "gw1") (.initial ∅)
        [.afterCreate 1 () (wsParams (ascii "VIN1")), .afterCreate 2 () (wsParams (ascii "VIN1")),
          .beforeDestroy 1] = some σ ∧
      σ.OpenFor (ascii "VIN1") 2 ∧ (σ.gateways ()).clients.lookup (ascii "VIN1") = none ∧
      σ.table.lookup (ascii "VIN1") = some na ∧ ¬ FollowsLiveSockets (ascii "gw1") σ := by
  refine ⟨_, rfl, ⟨_, rfl, rfl, rfl⟩, by decide, by decide, ?_⟩
  intro hf
  obtain ⟨⟨q, hq, -⟩, -⟩ := hf (ascii "VIN1") (by decide) ⟨2, _, rfl, rfl, rfl⟩
  exact absurd hq (by decide +revert)

end WsGateway.Registry
