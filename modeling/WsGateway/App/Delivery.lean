import WsGateway.App.Server

/-!
# From the message to the wire

What is sent as text on a connection are answers to messages that were received on
it, each of them at most once, whatever the callbacks, the coroutines and the executor
do in between.
-/

namespace WsGateway.App

open Lib Lib.Runs Startup

variable {B : Http.Beast} {F : Session.FrameFormat} {cmdArgs : Config}

def text? : Session.Transfer → Option Bytes
  | .sendMessage message => some message
  | _ => none

/-- The frames that the executor has begun to send, in this order. -/
def Server.sent (σ : Server) : List Session.Frame :=
  σ.begun.filterMap fun i => σ.sessions.scheduled[i]?

/-! ## The frames that are sent -/

/-- Every scheduled frame is sent at most once, and what is sent as text on a connection
are the payloads of its frames, in the order in which the executor took them. -/
structure Server.Sends (σ : Server) (moves : SocketId → List Session.Transfer) : Prop where
  once : σ.begun.Nodup
  bound : ∀ i ∈ σ.begun, i < σ.sessions.scheduled.length
  texts : ∀ s, (moves s).filterMap text? =
    (σ.sent.filter fun f => f.socket = s).map Session.Frame.payload

theorem Server.Sends.initial (table : Registry.Table) :
    (Server.initial table).Sends fun _ => [] where
  once := List.nodup_nil
  bound _ hi := by cases hi
  texts _ := rfl

/-- New frames change nothing about those that are being sent. -/
theorem Server.Sends.sessions {σ : Server} {moves : SocketId → List Session.Transfer}
    (h : σ.Sends moves) {m : Session.Sessions} (hm : σ.sessions.scheduled <+: m.scheduled) :
    Server.Sends { σ with sessions := m } moves := by
  have hsent : Server.sent { σ with sessions := m } = σ.sent := by
    refine List.filterMap_congr fun i hi => ?_
    exact (List.prefix_iff_getElem?.mp hm i (h.bound i hi)).symm ▸
      (List.getElem?_eq_getElem (h.bound i hi)).symm
  refine ⟨h.once, fun i hi => (h.bound i hi).trans_le hm.length_le, fun s => ?_⟩
  rw [hsent]
  exact h.texts s

theorem Server.Sends.moves {σ σ' : Server} {moves moves' : SocketId → List Session.Transfer}
    (h : σ.Sends moves) (hbegun : σ'.begun = σ.begun)
    (hsessions : σ'.sessions.scheduled = σ.sessions.scheduled)
    (hmoves : ∀ s, ((moves s) ++ moves' s).filterMap text? = (moves s).filterMap text?) :
    σ'.Sends fun s => moves s ++ moves' s := by
  have hsent : σ'.sent = σ.sent := by rw [Server.sent, Server.sent, hbegun, hsessions]
  refine ⟨hbegun ▸ h.once, ?_, fun s => ?_⟩
  · rw [hbegun, hsessions]
    exact h.bound
  · rw [hmoves, hsent]
    exact h.texts s

theorem Server.Sends.step {σ σ' : Server} {moves : SocketId → List Session.Transfer}
    {e : ServerEvent} (h : σ.Sends moves) (hs : σ.step B F cmdArgs e = some σ') :
    σ'.Sends fun s => moves s ++ ((connectionView s).event σ e).toList := by
  cases e with
  | callback e =>
      obtain ⟨threads, sessions, -, rfl, hcases⟩ := step_callback hs
      have hprefix : σ.sessions.scheduled <+: sessions.scheduled := by
        rcases hcases with ⟨-, rfl⟩ | ⟨s, c, -, hopened⟩
        · exact List.prefix_refl _
        · exact Session.scheduled_grows hopened
      exact (h.sessions hprefix).moves rfl rfl fun s => by simp [connectionView]
  | session e =>
      obtain ⟨sessions, -, hsessions, rfl⟩ := step_session hs
      exact (h.sessions (Session.scheduled_grows hsessions)).moves rfl rfl
        fun s => by simp [connectionView]
  | onPing r message =>
      obtain ⟨sessions, c, hsessions, -, rfl⟩ := step_onPing hs
      refine (h.sessions (Session.scheduled_grows hsessions)).moves rfl rfl fun s => ?_
      by_cases hr : r = s <;> simp [connectionView, hr, text?]
  | execute i =>
      obtain ⟨f, c, hf, hi, -, rfl⟩ := step_execute hs
      have hsent : Server.sent { σ with begun := σ.begun ++ [i] } = σ.sent ++ [f] := by
        simp [Server.sent, hf]
      refine ⟨?_, ?_, fun s => ?_⟩
      · exact List.nodup_append.mpr ⟨h.once, List.nodup_singleton i, by
          intro a ha b hb heq
          rw [heq, List.mem_singleton.mp hb] at ha
          exact hi ha⟩
      · intro j hj
        rcases List.mem_append.mp hj with hold | hnew
        · exact h.bound j hold
        · rw [List.mem_singleton.mp hnew]
          exact (List.getElem?_eq_some_iff.mp hf).choose
      · show _ = ((Server.sent { σ with begun := σ.begun ++ [i] }).filter _).map _
        rw [hsent, List.filterMap_append, List.filter_append, List.map_append, h.texts s]
        by_cases hr : f.socket = s <;> simp [connectionView, hf, hr, text?]
  | write r i n =>
      obtain ⟨c, -, rfl⟩ := Option.map_eq_some_iff.mp hs
      refine h.moves rfl rfl fun s => ?_
      by_cases hr : r = s <;> simp [connectionView, hr, text?]

theorem sends_exec {table : Registry.Table} {es : List ServerEvent} {σ : Server}
    (h : exec (Server.step B F cmdArgs) (.initial table) es = some σ) :
    σ.Sends (connectionMoves B F cmdArgs table es) := by
  have hinv : exec (Server.step B F cmdArgs) (.initial table) es = some σ ∧
      σ.Sends (connectionMoves B F cmdArgs table es) := by
    refine trace_invariant (fun es σ => exec (Server.step B F cmdArgs) (.initial table) es =
      some σ ∧ σ.Sends (connectionMoves B F cmdArgs table es)) ?_ ?_ h
    · exact ⟨rfl, .initial table⟩
    · intro es σ e σ' hσ hs
      refine ⟨by rw [exec_concat, hσ.1]; exact hs, ?_⟩
      have hmoves : connectionMoves B F cmdArgs table (es ++ [e]) = fun s =>
          connectionMoves B F cmdArgs table es s ++ ((connectionView s).event σ e).toList := by
        funext s
        exact (connectionView s).run_concat hσ.1 e
      rw [hmoves]
      exact hσ.2.step hs
  exact hinv.2

/-! ## Every run -/

theorem Server.Sends.nodup_coroutines {σ : Server} {moves : SocketId → List Session.Transfer}
    (h : σ.Sends moves) (hnodup : (σ.sessions.scheduled.map Session.Frame.coroutine).Nodup) :
    (σ.sent.map Session.Frame.coroutine).Nodup := by
  have hsent : σ.sent.map Session.Frame.coroutine =
      σ.begun.filterMap fun i => (σ.sessions.scheduled.map Session.Frame.coroutine)[i]? := by
    rw [Server.sent, List.map_filterMap]
    exact List.filterMap_congr fun i _ => (List.getElem?_map ..).symm
  rw [hsent]
  refine h.once.filterMap fun i j k hi hj => ?_
  exact (List.getElem?_inj (List.getElem?_eq_some_iff.mp hi).choose hnodup).mp
    (hi.trans hj.symm)

/-- From the message to the wire: what the server sends as text on the connection of a
socket are, one for one, the answers to messages that came from this socket, no message
answered twice. The connection has a frame for each of them and for each pong; and when
no send writes while another one is part-way and all have finished, its bytes are these
frames, whole. -/
theorem answers_reach_their_connection {table : Registry.Table} {es : List ServerEvent}
    {σ : Server} (h : exec (Server.step B F cmdArgs) (.initial table) es = some σ)
    (s : SocketId) :
    (∃ ks : List Nat, ks.Nodup ∧
      (∀ k ∈ ks, ∃ msg, (Session.completeMessages
        (sessionEvents B F cmdArgs table es).reverse)[k]? = some (s, msg)) ∧
      (connectionMoves B F cmdArgs table es s).filterMap text? = ks.map fun k =>
        Session.answer (Session.responseRead k (sessionEvents B F cmdArgs table es).reverse)) ∧
    (σ.connections s).sends.map Session.Sending.frame =
      (connectionMoves B F cmdArgs table es s).filterMap (Session.Transfer.frame? F) ∧
    ((∀ c e, Takes (Session.Connection.step F) .initial
        (connectionMoves B F cmdArgs table es s) c e → Session.Transfer.Alone c e) →
      (∀ send ∈ (σ.connections s).sends, send.left = []) → (σ.connections s).Whole) := by
  have hinv := Session.inv_exec (sessions_exec h)
  have hsends := sends_exec h
  have hintact := Session.intact_exec (connection_exec h s)
  have hmem : ∀ f ∈ σ.sent.filter fun f => f.socket = s,
      f ∈ σ.sessions.scheduled ∧ f.socket = s := by
    intro f hf
    obtain ⟨hsent, hsocket⟩ := List.mem_filter.mp hf
    obtain ⟨i, -, hi⟩ := List.mem_filterMap.mp hsent
    exact ⟨List.mem_of_getElem? hi, by simpa using hsocket⟩
  refine ⟨⟨(σ.sent.filter fun f => f.socket = s).map Session.Frame.coroutine, ?_, ?_, ?_⟩,
    hintact.frames, fun halone hfinished => ?_⟩
  · exact (hsends.nodup_coroutines (Session.scheduled_exec (sessions_exec h)).2).sublist
      (List.filter_sublist.map _)
  · intro k hk
    obtain ⟨f, hf, rfl⟩ := List.mem_map.mp hk
    obtain ⟨hscheduled, rfl⟩ := hmem f hf
    exact (hinv.frame_answers hscheduled).1
  · rw [hsends.texts s, List.map_map]
    refine List.map_congr_left fun f hf => ?_
    exact (hinv.frame_answers (hmem f hf).1).2
  · obtain ⟨order, hturn⟩ := Session.inTurn_exec halone (connection_exec h s)
    exact hturn.whole hintact hfinished

/-- The server begins to send the answer to the vehicle's message. -/
theorem vehicle_answer_reaches_connection : ∃ σ : Server,
    exec (Server.step Http.boostBeast Session.shortFrames backendConfig) (.initial ∅)
        (vehicleServed ++ [.execute 0]) = some σ ∧
      (connectionMoves Http.boostBeast Session.shortFrames backendConfig ∅
        (vehicleServed ++ [.execute 0]) 0).filterMap text? =
          [ascii "HTTP/1.1 200 OK\r\n\r\non"] ∧
      ∃ ks : List Nat, ks.Nodup ∧
        (∀ k ∈ ks, ∃ msg, (Session.completeMessages (sessionEvents Http.boostBeast
          Session.shortFrames backendConfig ∅ (vehicleServed ++ [.execute 0])).reverse)[k]? =
            some (0, msg)) ∧
        [ascii "HTTP/1.1 200 OK\r\n\r\non"] = ks.map fun k =>
          Session.answer (Session.responseRead k (sessionEvents Http.boostBeast
            Session.shortFrames backendConfig ∅ (vehicleServed ++ [.execute 0])).reverse) := by
  obtain ⟨σ, -, -, hσ, hbegun, -, hscheduled, -⟩ := exec_vehicleServed Session.shortFrames
  have htext : Http.buildResponseStringBuffer Session.onResponse =
      ascii "HTTP/1.1 200 OK\r\n\r\non" := by decide
  rw [htext] at hscheduled
  have hexec : exec (Server.step Http.boostBeast Session.shortFrames backendConfig)
      (.initial ∅) (vehicleServed ++ [.execute 0]) = some ({ σ with begun := [0] }.setConnection
        0 ((σ.connections 0).send Session.shortFrames .text
          (ascii "HTTP/1.1 200 OK\r\n\r\non"))) := by
    rw [exec_concat, hσ]
    simp [Server.step, hscheduled, hbegun, Session.Connection.step]
  have hsent := (sends_exec hexec).texts 0
  have hframes : Server.sent ({ σ with begun := [0] }.setConnection 0
      ((σ.connections 0).send Session.shortFrames .text
        (ascii "HTTP/1.1 200 OK\r\n\r\non"))) =
          [⟨0, 0, ascii "HTTP/1.1 200 OK\r\n\r\non"⟩] := by
    simp [Server.sent, Server.setConnection, hscheduled]
  rw [hframes] at hsent
  obtain ⟨ks, hnodup, hmessages, htexts⟩ := (answers_reach_their_connection hexec 0).1
  exact ⟨_, hexec, hsent, ks, hnodup, hmessages, hsent.symm.trans htexts⟩

end WsGateway.App
