import WsGateway.Lib.Views
import WsGateway.Registry.ClientIds
import WsGateway.Session.Completion
import WsGateway.Session.Frames
import WsGateway.Startup.Settings

/-!
# The running server

The three parts of the gateway at work together: the connection callbacks with the
registry, the sessions with their coroutines, and the frames on the connections. A
callback that sets the listener of a socket opens its session; the executor begins to
send each scheduled frame once, on the connection of its socket.
-/

namespace WsGateway.App

open Lib Lib.Runs Startup

structure Server where
  threads : Registry.Threads
  sessions : Session.Sessions
  /-- the scheduled frames whose `SendMessageCoroutine` has begun, by their places -/
  begun : List Nat
  connections : SocketId → Session.Connection

def Server.initial (table : Registry.Table) : Server :=
  ⟨.initial table, .initial, [], fun _ => .initial⟩

inductive ServerEvent
  /-- a connection callback begins or goes on -/
  | callback (e : Registry.Move)
  /-- a message arrives, or a coroutine goes on -/
  | session (e : Session.Event)
  /-- `onPing`, which answers with a pong -/
  | onPing (socket : SocketId) (message : Bytes)
  /-- the executor begins with the `SendMessageCoroutine` of a scheduled frame -/
  | execute (frame : Nat)
  /-- bytes are written on the connection of a socket -/
  | write (socket : SocketId) (send n : Nat)

def listenerSet (σ : Registry.Threads) : Registry.Move → Option (SocketId × Bytes)
  | .act s _ =>
      match σ.socks s with
      | some ⟨_, _, .setListener r c :: _⟩ => some (r, c)
      | _ => none
  | _ => none

def ownEvent : Session.Event → Bool
  | .opened .. | .onPing _ | .onClose _ => false
  | _ => true

def Server.setConnection (σ : Server) (s : SocketId) (c : Session.Connection) : Server :=
  { σ with connections := Function.update σ.connections s c }

section Step

variable (B : Http.Beast) (F : Session.FrameFormat) (cmdArgs : Config)

def Server.step (σ : Server) : ServerEvent → Option Server
  | .callback e =>
      (σ.threads.step cmdArgs.hostIp e).bind fun threads =>
        match listenerSet σ.threads e with
        | some (s, c) =>
            (σ.sessions.step B
              (.opened s c cmdArgs.httpRequestAddress cmdArgs.httpRequestPort)).map
                fun sessions => { σ with threads := threads, sessions := sessions }
        | none => some { σ with threads := threads }
  | .session e =>
      if ownEvent e then (σ.sessions.step B e).map fun m => { σ with sessions := m } else none
  | .onPing s message =>
      (σ.sessions.step B (.onPing s)).bind fun m =>
        ((σ.connections s).step F (.onPing message)).map fun c =>
          { σ with sessions := m }.setConnection s c
  | .execute i =>
      match σ.sessions.scheduled[i]? with
      | some f =>
          if i ∈ σ.begun then none
          else
            ((σ.connections f.socket).step F (.sendMessage f.payload)).map fun c =>
              { σ with begun := σ.begun ++ [i] }.setConnection f.socket c
      | none => none
  | .write s i n => ((σ.connections s).step F (.write i n)).map fun c => σ.setConnection s c

/-! ## What the parts see -/

def registryView : View Server ServerEvent Registry.Threads Registry.Move where
  state := Server.threads
  event _ e := match e with
    | .callback e => some e
    | _ => none

def sessionsView : View Server ServerEvent Session.Sessions Session.Event where
  state := Server.sessions
  event σ e := match e with
    | .callback e => (listenerSet σ.threads e).map fun (s, c) =>
        .opened s c cmdArgs.httpRequestAddress cmdArgs.httpRequestPort
    | .session e => if ownEvent e then some e else none
    | .onPing s _ => some (.onPing s)
    | _ => none

def connectionView (s : SocketId) :
    View Server ServerEvent Session.Connection Session.Transfer where
  state σ := σ.connections s
  event σ e := match e with
    | .onPing r message => if r = s then some (.onPing message) else none
    | .execute i => σ.sessions.scheduled[i]?.bind fun f =>
        if f.socket = s then some (.sendMessage f.payload) else none
    | .write r i n => if r = s then some (.write i n) else none
    | _ => none

end Step

variable {B : Http.Beast} {F : Session.FrameFormat} {cmdArgs : Config}

/-! ## A step of the server is one of its parts -/

theorem step_callback {σ σ' : Server} {e : Registry.Move}
    (h : σ.step B F cmdArgs (.callback e) = some σ') :
    ∃ threads sessions, σ.threads.step cmdArgs.hostIp e = some threads ∧
      σ' = { σ with threads := threads, sessions := sessions } ∧
      ((listenerSet σ.threads e = none ∧ sessions = σ.sessions) ∨
        ∃ s c, listenerSet σ.threads e = some (s, c) ∧ σ.sessions.step B
          (.opened s c cmdArgs.httpRequestAddress cmdArgs.httpRequestPort) = some sessions) := by
  obtain ⟨threads, hthreads, h⟩ := Option.bind_eq_some_iff.mp h
  split at h
  · rename_i s c hset
    obtain ⟨sessions, hsessions, rfl⟩ := Option.map_eq_some_iff.mp h
    exact ⟨threads, sessions, hthreads, rfl, .inr ⟨s, c, hset, hsessions⟩⟩
  · rename_i hset
    cases h
    exact ⟨threads, σ.sessions, hthreads, rfl, .inl ⟨hset, rfl⟩⟩

theorem step_session {σ σ' : Server} {e : Session.Event}
    (h : σ.step B F cmdArgs (.session e) = some σ') :
    ∃ sessions, ownEvent e = true ∧ σ.sessions.step B e = some sessions ∧
      σ' = { σ with sessions := sessions } := by
  simp only [Server.step] at h
  split at h
  · rename_i he
    obtain ⟨sessions, hsessions, rfl⟩ := Option.map_eq_some_iff.mp h
    exact ⟨sessions, he, hsessions, rfl⟩
  · cases h

theorem step_onPing {σ σ' : Server} {s : SocketId} {message : Bytes}
    (h : σ.step B F cmdArgs (.onPing s message) = some σ') :
    ∃ sessions c, σ.sessions.step B (.onPing s) = some sessions ∧
      (σ.connections s).step F (.onPing message) = some c ∧
      σ' = { σ with sessions := sessions }.setConnection s c := by
  obtain ⟨sessions, hsessions, h⟩ := Option.bind_eq_some_iff.mp h
  obtain ⟨c, hc, rfl⟩ := Option.map_eq_some_iff.mp h
  exact ⟨sessions, c, hsessions, hc, rfl⟩

theorem step_execute {σ σ' : Server} {i : Nat}
    (h : σ.step B F cmdArgs (.execute i) = some σ') :
    ∃ f c, σ.sessions.scheduled[i]? = some f ∧ i ∉ σ.begun ∧
      (σ.connections f.socket).step F (.sendMessage f.payload) = some c ∧
      σ' = { σ with begun := σ.begun ++ [i] }.setConnection f.socket c := by
  simp only [Server.step] at h
  split at h
  · rename_i f hf
    split at h
    · cases h
    · rename_i hi
      obtain ⟨c, hc, rfl⟩ := Option.map_eq_some_iff.mp h
      exact ⟨f, c, hf, hi, hc, rfl⟩
  · cases h

theorem connections_setConnection (σ : Server) (s : SocketId) (c : Session.Connection) :
    (σ.setConnection s c).connections s = c := Function.update_self ..

theorem connections_setConnection_of_ne (σ : Server) {s r : SocketId} (h : r ≠ s)
    (c : Session.Connection) : (σ.setConnection s c).connections r = σ.connections r :=
  Function.update_of_ne h ..

/-! ## The parts run as they would alone -/

theorem registryView_sound (B : Http.Beast) (F : Session.FrameFormat) (cmdArgs : Config) :
    registryView.Sound (Server.step B F cmdArgs) (Registry.Threads.step cmdArgs.hostIp)
      fun _ => True where
  seen σ e e' σ' _ he hs := by
    cases e with
    | callback e =>
        cases he
        obtain ⟨threads, sessions, hthreads, rfl, -⟩ := step_callback hs
        exact hthreads
    | session | onPing | execute | write => cases he
  unseen σ e σ' _ he hs := by
    cases e with
    | callback e => cases he
    | session e =>
        obtain ⟨sessions, -, -, rfl⟩ := step_session hs
        rfl
    | onPing s message =>
        obtain ⟨sessions, c, -, -, rfl⟩ := step_onPing hs
        rfl
    | execute i =>
        obtain ⟨f, c, -, -, -, rfl⟩ := step_execute hs
        rfl
    | write s i n =>
        obtain ⟨c, -, rfl⟩ := Option.map_eq_some_iff.mp hs
        rfl
  inv _ _ _ _ _ := trivial

theorem sessionsView_sound (B : Http.Beast) (F : Session.FrameFormat) (cmdArgs : Config) :
    (sessionsView cmdArgs).Sound (Server.step B F cmdArgs) (Session.Sessions.step B)
      fun _ => True where
  seen σ e e' σ' _ he hs := by
    cases e with
    | callback e =>
        obtain ⟨threads, sessions, -, rfl, hcases⟩ := step_callback hs
        obtain ⟨⟨s, c⟩, hset, rfl⟩ := Option.map_eq_some_iff.mp he
        rcases hcases with ⟨hnone, -⟩ | ⟨r, d, hset', hopened⟩
        · rw [hset] at hnone
          cases hnone
        · rw [hset] at hset'
          cases hset'
          exact hopened
    | session e =>
        obtain ⟨sessions, hown, hsessions, rfl⟩ := step_session hs
        obtain rfl : e = e' := by simpa [sessionsView, hown] using he
        exact hsessions
    | onPing s message =>
        cases he
        obtain ⟨sessions, c, hsessions, -, rfl⟩ := step_onPing hs
        exact hsessions
    | execute | write => cases he
  unseen σ e σ' _ he hs := by
    cases e with
    | callback e =>
        obtain ⟨threads, sessions, -, rfl, hcases⟩ := step_callback hs
        rcases hcases with ⟨-, hsame⟩ | ⟨s, c, hset, -⟩
        · exact hsame
        · rw [Option.map_eq_none_iff.mp he] at hset
          cases hset
    | session e =>
        obtain ⟨sessions, hown, -, rfl⟩ := step_session hs
        simp [sessionsView, hown] at he
    | onPing s message => cases he
    | execute i =>
        obtain ⟨f, c, -, -, -, rfl⟩ := step_execute hs
        rfl
    | write s i n =>
        obtain ⟨c, -, rfl⟩ := Option.map_eq_some_iff.mp hs
        rfl
  inv _ _ _ _ _ := trivial

theorem connectionView_sound (B : Http.Beast) (F : Session.FrameFormat) (cmdArgs : Config)
    (s : SocketId) :
    (connectionView s).Sound (Server.step B F cmdArgs) (Session.Connection.step F)
      fun _ => True where
  seen σ e e' σ' _ he hs := by
    show (σ.connections s).step F e' = some (σ'.connections s)
    cases e with
    | callback | session => cases he
    | onPing r message =>
        obtain ⟨rfl, rfl⟩ : r = s ∧ Session.Transfer.onPing message = e' := by
          simpa [connectionView] using he
        obtain ⟨sessions, c, -, hc, rfl⟩ := step_onPing hs
        rw [connections_setConnection]
        exact hc
    | execute i =>
        obtain ⟨f, c, hf, -, hc, rfl⟩ := step_execute hs
        obtain ⟨rfl, rfl⟩ : f.socket = s ∧ Session.Transfer.sendMessage f.payload = e' := by
          simpa [connectionView, hf] using he
        rw [connections_setConnection]
        exact hc
    | write r i n =>
        obtain ⟨rfl, rfl⟩ : r = s ∧ Session.Transfer.write i n = e' := by
          simpa [connectionView] using he
        obtain ⟨c, hc, rfl⟩ := Option.map_eq_some_iff.mp hs
        rw [connections_setConnection]
        exact hc
  unseen σ e σ' _ he hs := by
    show σ'.connections s = σ.connections s
    cases e with
    | callback e =>
        obtain ⟨threads, sessions, -, rfl, -⟩ := step_callback hs
        rfl
    | session e =>
        obtain ⟨sessions, -, -, rfl⟩ := step_session hs
        rfl
    | onPing r message =>
        have hr : r ≠ s := by simpa [connectionView] using he
        obtain ⟨sessions, c, -, -, rfl⟩ := step_onPing hs
        exact connections_setConnection_of_ne _ (Ne.symm hr) c
    | execute i =>
        obtain ⟨f, c, hf, -, -, rfl⟩ := step_execute hs
        have hr : f.socket ≠ s := by simpa [connectionView, hf] using he
        exact connections_setConnection_of_ne _ (Ne.symm hr) c
    | write r i n =>
        have hr : r ≠ s := by simpa [connectionView] using he
        obtain ⟨c, -, rfl⟩ := Option.map_eq_some_iff.mp hs
        exact connections_setConnection_of_ne _ (Ne.symm hr) c
  inv _ _ _ _ _ := trivial

/-! ## The listeners of registry and sessions -/

theorem listeners_step {name : Bytes} {σ σ' : Registry.Threads} {e : Registry.Move}
    (h : σ.step name e = some σ') : σ'.gateway.listeners = match listenerSet σ e with
      | some (s, c) => σ.gateway.listeners.insert s c
      | none => σ.gateway.listeners := by
  cases e with
  | afterCreate s params =>
      obtain ⟨c, -, rfl⟩ := Registry.Threads.step_afterCreate h
      rfl
  | close s | beforeDestroy s =>
      simp only [Registry.Threads.step] at h
      split at h
      · cases h
        rfl
      · cases h
  | act s ok =>
      obtain ⟨c, stage, a, todo, hk, rfl⟩ := Registry.Threads.step_act h
      simp only [listenerSet, hk]
      cases a <;> rfl

theorem setListener_mem_program {name c d : Bytes} {s r : SocketId} {stage : Registry.Stage}
    (h : Registry.Action.setListener r d ∈ stage.program name s c) : r = s ∧ d = c := by
  rcases Registry.Stage.mem_program h with ⟨heq, -⟩ | ⟨heq, -⟩ | ⟨heq, -⟩ | ⟨heq, -⟩ |
    ⟨host, heq⟩ | ⟨heq, -⟩
  all_goals cases heq
  exact ⟨rfl, rfl⟩

theorem listenerSet_eq_some {name : Bytes} {σ : Registry.Threads} (h : σ.Inv name)
    {e : Registry.Move} {s : SocketId} {c : Bytes} (hset : listenerSet σ e = some (s, c)) :
    ∃ stage todo, σ.socks s = some ⟨c, stage, .setListener s c :: todo⟩ := by
  unfold listenerSet at hset
  split at hset
  · rename_i r ok
    split at hset
    · rename_i d stage q c' todo hk
      cases hset
      obtain ⟨rfl, rfl⟩ :=
        setListener_mem_program ((h.program r _ hk).subset List.mem_cons_self)
      exact ⟨stage, todo, hk⟩
    · cases hset
  · cases hset

/-- A socket whose listener is still to be set has none. -/
def Pending (σ : Registry.Threads) : Prop :=
  ∀ s k, σ.socks s = some k → Registry.Action.setListener s k.clientId ∈ k.todo →
    σ.gateway.listeners.lookup s = none

theorem Pending.step {name : Bytes} {σ σ' : Registry.Threads} {e : Registry.Move}
    (h : Pending σ) (hinv : σ.Inv name) (hs : σ.step name e = some σ') : Pending σ' := by
  have hset {s : SocketId} {k' : Registry.Sock}
      (hnew : Registry.Action.setListener s k'.clientId ∈ k'.todo →
        σ.gateway.listeners.lookup s = none) :
      Pending (σ.set (σ.gateway, σ.table) s k') := by
    intro r j hj hmem
    rcases Registry.Threads.socks_set_cases hj with ⟨rfl, rfl⟩ | ⟨-, hold⟩
    · exact hnew hmem
    · exact h r j hold hmem
  cases e with
  | afterCreate s params =>
      simp only [Registry.Threads.step] at hs
      split at hs
      · rename_i c acts hnone hc hacts
        cases hs
        refine hset fun _ => ?_
        by_contra hsome
        obtain ⟨id, hid⟩ := Option.ne_none_iff_exists'.mp hsome
        obtain ⟨k, hk, -⟩ := hinv.listened s id hid
        rw [hnone] at hk
        cases hk
      · cases hs
  | close s | beforeDestroy s =>
      simp only [Registry.Threads.step] at hs
      split at hs
      · cases hs
        refine hset fun hmem => ?_
        simp [Registry.onBeforeDestroyNonBlocking, Registry.onClose,
          Registry.setClientNotAvailable] at hmem
      · cases hs
  | act s ok =>
      obtain ⟨c, stage, a, todo, hk, rfl⟩ := Registry.Threads.step_act hs
      have hnotin : a ∉ todo := (List.nodup_cons.mp
        ((stage.program_nodup name s c).sublist (hinv.program s _ hk).sublist)).1
      have hlisteners := listeners_step hs
      intro r j hj hmem
      rw [hlisteners]
      cases hlisten : listenerSet σ (.act s ok) with
      | none =>
          rcases Registry.Threads.socks_set_cases hj with ⟨rfl, rfl⟩ | ⟨-, hold⟩
          · exact h r _ hk (List.mem_cons_of_mem a hmem)
          · exact h r j hold hmem
      | some p =>
          rcases p with ⟨q, d⟩
          obtain rfl : a = .setListener q d := by
            simp only [listenerSet, hk] at hlisten
            cases a <;> simp_all
          obtain ⟨rfl, rfl⟩ :=
            setListener_mem_program ((hinv.program s _ hk).subset List.mem_cons_self)
          rcases Registry.Threads.socks_set_cases hj with ⟨rfl, rfl⟩ | ⟨hr, hold⟩
          · exact absurd hmem hnotin
          · exact (AList.lookup_insert_ne hr).trans (h r j hold hmem)

def keepsClients (e : Session.Event) : Prop := ∀ s c host port, e ≠ .opened s c host port

theorem clientIDs_step {m m' : Session.Sessions} {e : Session.Event} (he : keepsClients e)
    (h : m.step B e = some m') (s : SocketId) :
    (m'.listeners s).map Session.WebSocketListener.clientID =
      (m.listeners s).map Session.WebSocketListener.clientID := by
  have hset {r : SocketId} {l l' : Session.WebSocketListener} (hl : m.listeners r = some l)
      (hid : l'.clientID = l.clientID) :
      ((m.setListener r l').listeners s).map Session.WebSocketListener.clientID =
        (m.listeners s).map Session.WebSocketListener.clientID := by
    by_cases hr : s = r
    · subst hr
      simp [Session.Sessions.setListener, hl, hid]
    · simp [Session.Sessions.setListener, hr]
  cases e with
  | opened r c host port => exact absurd rfl (he r c host port)
  | readMessage r data now =>
      obtain ⟨l, hl, rfl⟩ := Option.map_eq_some_iff.mp h
      unfold Session.Sessions.readMessage
      split
      · exact hset hl rfl
      · exact hset hl rfl
  | onPing r | onPong r | onClose r =>
      obtain ⟨l, -, rfl⟩ := Option.map_eq_some_iff.mp h
      rfl
  | start k order draw =>
      obtain ⟨co, l, l', co', -, hl, hstart, rfl⟩ := Session.step_start h
      obtain ⟨rfl, -⟩ := Session.start_eq_some hstart
      exact hset hl rfl
  | resume k outcome =>
      obtain ⟨co, l, co', -, -, -, rfl⟩ := Session.step_resume h
      rfl
  | handle k =>
      obtain ⟨co, result, -, -, -, rfl⟩ := Session.step_handle h
      rfl

/-! ## The invariant -/

/-- The sessions have the listeners that the callbacks have set. -/
structure Server.Inv (cmdArgs : Config) (σ : Server) : Prop where
  threads : σ.threads.Inv cmdArgs.hostIp
  pending : Pending σ.threads
  listeners : ∀ s, (σ.sessions.listeners s).map Session.WebSocketListener.clientID =
    σ.threads.gateway.listeners.lookup s

theorem Server.Inv.initial (cmdArgs : Config) (table : Registry.Table) :
    (Server.initial table).Inv cmdArgs where
  threads := .initial cmdArgs.hostIp table
  pending _ _ hk := by cases hk
  listeners _ := rfl

/-- The session of a listener that is set now can be opened. -/
theorem Server.Inv.opened {σ : Server} (h : σ.Inv cmdArgs) {e : Registry.Move} {s : SocketId}
    {c : Bytes} (hset : listenerSet σ.threads e = some (s, c)) (host port : Bytes) :
    σ.sessions.step B (.opened s c host port) =
      some (σ.sessions.setListener s ⟨c, host, port, []⟩) := by
  obtain ⟨stage, todo, hk⟩ := listenerSet_eq_some h.threads hset
  have hnone := h.pending s _ hk List.mem_cons_self
  rw [← h.listeners s, Option.map_eq_none_iff] at hnone
  simp only [Session.Sessions.step, hnone]

theorem Server.Inv.step {σ σ' : Server} {e : ServerEvent} (h : σ.Inv cmdArgs)
    (hs : σ.step B F cmdArgs e = some σ') : σ'.Inv cmdArgs := by
  cases e with
  | callback e =>
      obtain ⟨threads, sessions, hthreads, rfl, hcases⟩ := step_callback hs
      refine ⟨h.threads.step hthreads, h.pending.step h.threads hthreads, fun r => ?_⟩
      have hlisteners := listeners_step hthreads
      show (sessions.listeners r).map _ = threads.gateway.listeners.lookup r
      rcases hcases with ⟨hnone, rfl⟩ | ⟨s, c, hset, hopened⟩
      · rw [hlisteners, hnone]
        exact h.listeners r
      · rw [h.opened hset, Option.some.injEq] at hopened
        subst hopened
        rw [hlisteners, hset]
        by_cases hr : r = s
        · subst hr
          simp [Session.Sessions.setListener]
        · simp [Session.Sessions.setListener, hr, h.listeners r]
  | session e =>
      obtain ⟨sessions, hown, hsessions, rfl⟩ := step_session hs
      have hkeeps : keepsClients e := by
        intro s c host port heq
        subst heq
        cases hown
      exact ⟨h.threads, h.pending, fun r => (clientIDs_step hkeeps hsessions r).trans
        (h.listeners r)⟩
  | onPing s message =>
      obtain ⟨sessions, c, hsessions, -, rfl⟩ := step_onPing hs
      have hkeeps : keepsClients (.onPing s) := by
        intro s c host port heq
        cases heq
      exact ⟨h.threads, h.pending, fun r => (clientIDs_step hkeeps hsessions r).trans
        (h.listeners r)⟩
  | execute i =>
      obtain ⟨f, c, -, -, -, rfl⟩ := step_execute hs
      exact ⟨h.threads, h.pending, h.listeners⟩
  | write s i n =>
      obtain ⟨c, -, rfl⟩ := Option.map_eq_some_iff.mp hs
      exact ⟨h.threads, h.pending, h.listeners⟩

theorem inv_exec {table : Registry.Table} {es : List ServerEvent} {σ : Server}
    (h : exec (Server.step B F cmdArgs) (.initial table) es = some σ) : σ.Inv cmdArgs :=
  invariant (Server.Inv.initial cmdArgs table) (fun _ _ _ hσ hs => hσ.step hs) h

/-! ## A vehicle and its message -/

/-- What the sessions do by themselves the server does. -/
theorem exec_session (σ : Server) {fs : List Session.Event} (hown : ∀ e ∈ fs, ownEvent e = true) :
    exec (Server.step B F cmdArgs) σ (fs.map .session) =
      (exec (Session.Sessions.step B) σ.sessions fs).map fun m => { σ with sessions := m } := by
  induction fs generalizing σ with
  | nil => rfl
  | cons e fs ih =>
      have he : ownEvent e = true := hown e List.mem_cons_self
      have hstep : σ.step B F cmdArgs (.session e) =
          (σ.sessions.step B e).map fun m => { σ with sessions := m } := if_pos he
      rw [List.map_cons, exec_cons, exec_cons, hstep]
      cases σ.sessions.step B e with
      | none => rfl
      | some m => exact ih { σ with sessions := m } fun f hf => hown f (List.mem_cons_of_mem e hf)

def backendConfig : Config :=
  .ofEnv (setOnly (ascii "WSS_HTTP_REQUEST_ADDRESS") (ascii "backend")) (some (ascii "gw1"))

/-- The vehicle connects: its callback, action by action. -/
def vehicleConnects : List ServerEvent :=
  [.callback (.afterCreate 0 (Registry.wsParams (ascii "VIN1"))), .callback (.act 0 true),
    .callback (.act 0 true), .callback (.act 0 true), .callback (.act 0 true)]

/-- Its message and the answer, as far as the sessions are concerned. -/
def vehicleAsks : List Session.Event :=
  (Session.answeredRun Session.onResponse).tail

def vehicleServed : List ServerEvent := vehicleConnects ++ vehicleAsks.map .session

theorem exec_vehicleServed (F : Session.FrameFormat) :
    ∃ (σ : Server) (co : Session.Coroutine) (req : Http.Request),
      exec (Server.step Http.boostBeast F backendConfig) (.initial ∅) vehicleServed = some σ ∧
        σ.begun = [] ∧
        exec (Session.Sessions.step Http.boostBeast) .initial
          (Session.answeredRun Session.onResponse) = some σ.sessions ∧
        σ.sessions.scheduled =
          [⟨0, 0, Http.buildResponseStringBuffer Session.onResponse⟩] ∧
        σ.sessions.coroutines = [co] ∧ co.socket = 0 ∧ co.written = [req] ∧
        σ.threads.socks 0 = some ⟨ascii "VIN1", .afterCreate, []⟩ ∧
        σ.threads.gateway.clients.lookup (ascii "VIN1") = some 0 := by
  have hlistener : (⟨ascii "VIN1", backendConfig.httpRequestAddress,
      backendConfig.httpRequestPort, []⟩ : Session.WebSocketListener) =
        Session.statusListener := by
    have haddress : backendConfig.httpRequestAddress = ascii "backend" := by decide
    have hport : backendConfig.httpRequestPort = ascii "8082" := by decide
    rw [haddress, hport]
    rfl
  obtain ⟨σ, hσ, hbegun, hsessions, hsock, hclient⟩ : ∃ σ,
      exec (Server.step Http.boostBeast F backendConfig) (.initial ∅) vehicleConnects = some σ ∧
        σ.begun = [] ∧ σ.sessions = Session.Sessions.initial.setListener 0 ⟨ascii "VIN1",
          backendConfig.httpRequestAddress, backendConfig.httpRequestPort, []⟩ ∧
        σ.threads.socks 0 = some ⟨ascii "VIN1", .afterCreate, []⟩ ∧
        σ.threads.gateway.clients.lookup (ascii "VIN1") = some 0 := by
    refine ⟨_, rfl, ?_, ?_, ?_, ?_⟩
    · rfl
    · rfl
    · rfl
    · decide
  have hopened : exec (Session.Sessions.step Http.boostBeast) .initial
      (Session.answeredRun Session.onResponse) =
        exec (Session.Sessions.step Http.boostBeast) σ.sessions vehicleAsks := by
    rw [hsessions, hlistener]
    rfl
  have hown : ∀ e ∈ vehicleAsks, ownEvent e = true := by
    simp [vehicleAsks, Session.answeredRun, ownEvent]
  obtain ⟨m, co, req, hm, hscheduled, hco, hsocket, hwritten⟩ :=
    Session.exec_answeredRun Session.onResponse
  refine ⟨{ σ with sessions := m }, co, req, ?_, hbegun, hm, hscheduled, hco, hsocket, hwritten,
    hsock, hclient⟩
  rw [vehicleServed, exec_append, hσ, Option.bind_some, exec_session σ hown, ← hopened, hm]
  rfl

/-! ## Every run -/

abbrev sessionEvents (B : Http.Beast) (F : Session.FrameFormat) (cmdArgs : Config)
    (table : Registry.Table) (es : List ServerEvent) : List Session.Event :=
  (sessionsView cmdArgs).run (Server.step B F cmdArgs) (.initial table) es

abbrev connectionMoves (B : Http.Beast) (F : Session.FrameFormat) (cmdArgs : Config)
    (table : Registry.Table) (es : List ServerEvent) (s : SocketId) : List Session.Transfer :=
  (connectionView s).run (Server.step B F cmdArgs) (.initial table) es

theorem sessions_exec {table : Registry.Table} {es : List ServerEvent} {σ : Server}
    (h : exec (Server.step B F cmdArgs) (.initial table) es = some σ) :
    exec (Session.Sessions.step B) .initial (sessionEvents B F cmdArgs table es) =
      some σ.sessions := (sessionsView_sound B F cmdArgs).exec trivial h

theorem connection_exec {table : Registry.Table} {es : List ServerEvent} {σ : Server}
    (h : exec (Server.step B F cmdArgs) (.initial table) es = some σ) (s : SocketId) :
    exec (Session.Connection.step F) .initial (connectionMoves B F cmdArgs table es s) =
      some (σ.connections s) := (connectionView_sound B F cmdArgs s).exec trivial h

/-- In every run of the server each of its parts makes a run of its own: the callbacks
with the registry, the sessions, and every connection. The sessions have the listeners,
with the client ids, that the callbacks have set; and the parts never hold up a
callback, whatever they have done. -/
theorem server_runs_its_parts {table : Registry.Table} {es : List ServerEvent} {σ : Server}
    (h : exec (Server.step B F cmdArgs) (.initial table) es = some σ) :
    exec (Registry.Threads.step cmdArgs.hostIp) (.initial table)
        (registryView.run (Server.step B F cmdArgs) (.initial table) es) = some σ.threads ∧
    exec (Session.Sessions.step B) .initial (sessionEvents B F cmdArgs table es) =
      some σ.sessions ∧
    (∀ s, exec (Session.Connection.step F) .initial (connectionMoves B F cmdArgs table es s) =
      some (σ.connections s)) ∧
    (∀ s, (σ.sessions.listeners s).map Session.WebSocketListener.clientID =
      σ.threads.gateway.listeners.lookup s) ∧
    ∀ e, (σ.step B F cmdArgs (.callback e)).isSome =
      (σ.threads.step cmdArgs.hostIp e).isSome := by
  have hinv := inv_exec h
  refine ⟨(registryView_sound B F cmdArgs).exec trivial h, sessions_exec h, connection_exec h,
    hinv.listeners, fun e => ?_⟩
  show ((σ.threads.step cmdArgs.hostIp e).bind _).isSome = _
  cases σ.threads.step cmdArgs.hostIp e with
  | none => rfl
  | some threads =>
      rw [Option.bind_some]
      split
      · rename_i s c hset
        rw [hinv.opened hset]
        rfl
      · rfl

theorem server_runs_its_parts_vehicle : ∃ σ : Server,
    exec (Server.step Http.boostBeast Session.shortFrames backendConfig) (.initial ∅)
        vehicleServed = some σ ∧
      exec (Session.Sessions.step Http.boostBeast) .initial
          (sessionEvents Http.boostBeast Session.shortFrames backendConfig ∅ vehicleServed) =
        some σ.sessions := by
  obtain ⟨σ, -, -, h, -⟩ := exec_vehicleServed Session.shortFrames
  exact ⟨σ, h, (server_runs_its_parts h).2.1⟩

/-- The id under which the registry finds a socket is the one in the requests that are
written for its messages: whatever the run, a coroutine writes requests for the client
of its socket, and a socket stands in the map under no other id. -/
theorem requests_carry_registered_id {table : Registry.Table} {es : List ServerEvent}
    {σ : Server} (h : exec (Server.step B F cmdArgs) (.initial table) es = some σ) {k : Nat}
    {co : Session.Coroutine} (hco : σ.sessions.coroutines[k]? = some co) :
    ∃ sock, σ.threads.socks co.socket = some sock ∧
      (∀ req ∈ co.written, co.Writes B sock.clientId req ∧
        req.fields.get? Http.clientIdName = some (trim sock.clientId)) ∧
      ∀ c, σ.threads.gateway.clients.lookup c = some co.socket → c = sock.clientId := by
  have hinv := inv_exec h
  have hsessions := Session.inv_exec (sessions_exec h)
  obtain ⟨clientID, hopened, htracked⟩ := hsessions.tracked k co hco
  rw [← hsessions.clients co.socket, hinv.listeners] at hopened
  obtain ⟨sock, hsock, rfl⟩ := hinv.threads.listened co.socket clientID hopened
  refine ⟨sock, hsock, fun req hreq => ?_, fun c hc => ?_⟩
  · have hwrites := htracked.written_le_one.2 req hreq
    exact ⟨hwrites, hwrites.get?⟩
  · obtain ⟨sock', hsock', rfl, -⟩ := hinv.threads.holds c co.socket hc
    rw [Option.some.inj (hsock.symm.trans hsock')]

theorem vehicle_request_carries_registered_id :
    ∃ (σ : Server) (co : Session.Coroutine) (req : Http.Request),
      exec (Server.step Http.boostBeast Session.shortFrames backendConfig) (.initial ∅)
          vehicleServed = some σ ∧
        σ.sessions.coroutines = [co] ∧ co.written = [req] ∧
        req.fields.get? Http.clientIdName = some (ascii "VIN1") ∧
        σ.threads.gateway.clients.lookup (ascii "VIN1") = some co.socket := by
  obtain ⟨σ, co, req, h, -, -, -, hcos, hsocket, hwritten, hsock, hclient⟩ :=
    exec_vehicleServed Session.shortFrames
  have hco : σ.sessions.coroutines[0]? = some co := by rw [hcos]; rfl
  obtain ⟨sock, hsock', hreq, -⟩ := requests_carry_registered_id h hco
  rw [hsocket] at hsock'
  obtain rfl := Option.some.inj (hsock'.symm.trans hsock)
  have hfield := (hreq req (by rw [hwritten]; exact List.mem_singleton_self req)).2
  have htrim : trim (ascii "VIN1") = ascii "VIN1" := by decide
  rw [htrim] at hfield
  exact ⟨σ, co, req, h, hcos, hwritten, hfield, by rw [hsocket]; exact hclient⟩

end WsGateway.App
