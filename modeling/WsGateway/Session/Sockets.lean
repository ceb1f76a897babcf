import Mathlib.Logic.Function.Basic
import WsGateway.Lib.Runs
import WsGateway.Session.Coroutine

/-!
# Sockets and their coroutines

Every socket has a listener, which collects the chunks of a message and spawns
a coroutine when the message is complete. The coroutines of all sockets run
piece by piece in any order, and a completion handler schedules the frame with
the answer. Coroutines are numbered in the order in which they are spawned.
-/

namespace WsGateway.Session

open Lib Lib.Runs Lib.Stream Http

/-- A text frame that `execute<SendMessageCoroutine>` was called for, with the
coroutine whose completion handler called it. -/
structure Frame where
  coroutine : Nat
  socket : SocketId
  payload : Bytes
deriving DecidableEq, Repr

structure Sessions where
  listeners : SocketId → Option WebSocketListener
  coroutines : List Coroutine
  scheduled : List Frame

def Sessions.initial : Sessions := ⟨fun _ => none, [], []⟩

inductive Event
  /-- the connection callback sets the listener of a new socket -/
  | opened (socket : SocketId) (clientID host port : Bytes)
  /-- `readMessage`, at a time in nanoseconds; no data is the end of the message -/
  | readMessage (socket : SocketId) (data : Bytes) (now : Int)
  | onPing (socket : SocketId)
  | onPong (socket : SocketId)
  | onClose (socket : SocketId)
  /-- the first piece of a coroutine, with the order in which it iterates its
  headers and the number that it draws -/
  | start (coroutine : Nat) (order : HashOrder) (draw : Nat)
  /-- the next piece, after the operation that it awaits -/
  | resume (coroutine : Nat) (outcome : Outcome)
  /-- the completion handler -/
  | handle (coroutine : Nat)

def Sessions.setListener (m : Sessions) (s : SocketId) (l : WebSocketListener) : Sessions :=
  { m with listeners := Function.update m.listeners s (some l) }

def Sessions.setCoroutine (m : Sessions) (k : Nat) (co : Coroutine) : Sessions :=
  { m with coroutines := m.coroutines.set k co }

def Sessions.readMessage (m : Sessions) (s : SocketId) (l : WebSocketListener) (data : Bytes)
    (now : Int) : Sessions :=
  if data = [] then
    { m.setListener s { l with messageBuffer := [] } with
      coroutines := m.coroutines ++ [⟨s, l.messageBuffer, toString now, .spawned, [], false⟩] }
  else m.setListener s { l with messageBuffer := l.messageBuffer ++ data }

/-- The coroutine `k` and the listener that it refers to. The completion handler
owns the socket, so that the listener is there as long as it has not run. -/
def Sessions.lookup (m : Sessions) (k : Nat) : Option (Coroutine × WebSocketListener) :=
  m.coroutines[k]?.bind fun co => (m.listeners co.socket).map fun l => (co, l)

def Sessions.step (B : Beast) (m : Sessions) : Event → Option Sessions
  | .opened s clientID host port =>
      match m.listeners s with
      | none => some (m.setListener s ⟨clientID, host, port, []⟩)
      | some _ => none
  | .readMessage s data now => (m.listeners s).map fun l => m.readMessage s l data now
  | .onPing s | .onPong s | .onClose s => (m.listeners s).map fun _ => m
  | .start k order draw =>
      (m.lookup k).bind fun (co, l) => (co.start B order draw l).map fun (l, co') =>
        (m.setListener co.socket l).setCoroutine k co'
  | .resume k outcome =>
      (m.lookup k).bind fun (co, l) => (co.resume B l outcome).map fun co' =>
        m.setCoroutine k co'
  | .handle k =>
      match m.coroutines[k]? with
      | some co =>
          match co.phase, co.handled with
          | .returned result, false =>
              some { m.setCoroutine k { co with handled := true } with
                scheduled := m.scheduled ++
                  ((completionHandler result).map fun payload => ⟨k, co.socket, payload⟩).toList }
          | _, _ => none
      | none => none

/-! ## What a step can do -/

theorem lookup_eq_some {m : Sessions} {k : Nat} {co : Coroutine} {l : WebSocketListener} :
    m.lookup k = some (co, l) ↔
      m.coroutines[k]? = some co ∧ m.listeners co.socket = some l := by
  simp only [Sessions.lookup, Option.bind_eq_some_iff, Option.map_eq_some_iff, Prod.mk.injEq]
  constructor
  · intro h
    rcases h with ⟨co', hco, l', hl, rfl, rfl⟩
    exact ⟨hco, hl⟩
  · intro h
    rcases h with ⟨hco, hl⟩
    exact ⟨co, hco, l, hl, rfl, rfl⟩

theorem step_start {B : Beast} {m m' : Sessions} {k : Nat} {order : HashOrder} {draw : Nat}
    (h : m.step B (.start k order draw) = some m') :
    ∃ co l l' co', m.coroutines[k]? = some co ∧ m.listeners co.socket = some l ∧
      co.start B order draw l = some (l', co') ∧
      m' = (m.setListener co.socket l').setCoroutine k co' := by
  obtain ⟨⟨co, l⟩, hlookup, h⟩ := Option.bind_eq_some_iff.mp h
  obtain ⟨⟨l', co'⟩, hs, rfl⟩ := Option.map_eq_some_iff.mp h
  obtain ⟨hco, hl⟩ := lookup_eq_some.mp hlookup
  exact ⟨co, l, l', co', hco, hl, hs, rfl⟩

theorem step_resume {B : Beast} {m m' : Sessions} {k : Nat} {outcome : Outcome}
    (h : m.step B (.resume k outcome) = some m') :
    ∃ co l co', m.coroutines[k]? = some co ∧ m.listeners co.socket = some l ∧
      co.resume B l outcome = some co' ∧ m' = m.setCoroutine k co' := by
  obtain ⟨⟨co, l⟩, hlookup, h⟩ := Option.bind_eq_some_iff.mp h
  obtain ⟨co', hs, rfl⟩ := Option.map_eq_some_iff.mp h
  obtain ⟨hco, hl⟩ := lookup_eq_some.mp hlookup
  exact ⟨co, l, co', hco, hl, hs, rfl⟩

theorem step_handle {B : Beast} {m m' : Sessions} {k : Nat}
    (h : m.step B (.handle k) = some m') :
    ∃ co result, m.coroutines[k]? = some co ∧ co.phase = .returned result ∧
      co.handled = false ∧
      m' = { m.setCoroutine k { co with handled := true } with
        scheduled := m.scheduled ++
          ((completionHandler result).map fun payload => ⟨k, co.socket, payload⟩).toList } := by
  simp only [Sessions.step] at h
  split at h
  · rename_i co hco
    split at h
    · rename_i result hphase hhandled
      cases h
      exact ⟨co, result, hco, hphase, hhandled, rfl⟩
    · cases h
  · cases h

/-! ## Steps that are enabled -/

theorem step_start_some {B : Beast} {m : Sessions} {k : Nat} {order : HashOrder} {draw : Nat}
    {co co' : Coroutine} {l l' : WebSocketListener} (h : m.lookup k = some (co, l))
    (hs : co.start B order draw l = some (l', co')) :
    m.step B (.start k order draw) =
      some ((m.setListener co.socket l').setCoroutine k co') := by
  simp [Sessions.step, h, hs]

theorem step_resume_some {B : Beast} {m : Sessions} {k : Nat} {outcome : Outcome}
    {co co' : Coroutine} {l : WebSocketListener} (h : m.lookup k = some (co, l))
    (hs : co.resume B l outcome = some co') :
    m.step B (.resume k outcome) = some (m.setCoroutine k co') := by
  simp [Sessions.step, h, hs]

theorem step_handle_some (B : Beast) {m : Sessions} {k : Nat} {co : Coroutine} {text : Bytes}
    (hco : m.coroutines[k]? = some co) (hphase : co.phase = .returned (.ok text))
    (hhandled : co.handled = false) (htext : text ≠ []) :
    m.step B (.handle k) = some { m.setCoroutine k { co with handled := true } with
      scheduled := m.scheduled ++ [⟨k, co.socket, text⟩] } := by
  simp [Sessions.step, hco, hphase, hhandled, completionHandler, htext]

theorem lookup_setCoroutine {m : Sessions} {k : Nat} {co co' : Coroutine}
    {l : WebSocketListener} (h : m.lookup k = some (co, l)) (hsocket : co'.socket = co.socket) :
    (m.setCoroutine k co').lookup k = some (co', l) := by
  obtain ⟨hco, hl⟩ := lookup_eq_some.mp h
  have hk : k < m.coroutines.length := (List.getElem?_eq_some_iff.mp hco).choose
  exact lookup_eq_some.mpr ⟨List.getElem?_set_self hk, by rw [hsocket]; exact hl⟩

theorem setCoroutine_setCoroutine (m : Sessions) (k : Nat) (co co' : Coroutine) :
    (m.setCoroutine k co).setCoroutine k co' = m.setCoroutine k co' := by
  simp [Sessions.setCoroutine]

def Sessions.spawn (m : Sessions) (co : Coroutine) : Sessions :=
  { m with coroutines := m.coroutines ++ [co] }

theorem lookup_spawn {m : Sessions} {co : Coroutine} {l : WebSocketListener} {k : Nat}
    (hl : m.listeners co.socket = some l) (hk : k = m.coroutines.length) :
    (m.spawn co).lookup k = some (co, l) :=
  lookup_eq_some.mpr ⟨hk ▸ List.getElem?_concat_length, hl⟩

theorem exec_received (B : Beast) {m : Sessions} {s : SocketId} {l : WebSocketListener}
    (hl : m.listeners s = some l) (hbuffer : l.messageBuffer = []) {msg : Bytes}
    (hmsg : msg ≠ []) (now now' : Int) (es : List Event) :
    exec (Sessions.step B) m (.readMessage s msg now :: .readMessage s [] now' :: es) =
      exec (Sessions.step B) (m.spawn ⟨s, msg, toString now', .spawned, [], false⟩) es := by
  have hsame : Function.update m.listeners s (some { l with messageBuffer := [] }) =
      m.listeners := by
    rw [← hbuffer, ← hl, Function.update_eq_self]
  simp [Sessions.step, hl, Sessions.readMessage, hmsg, Sessions.setListener, hsame, hbuffer,
    Sessions.spawn]

/-- The rest of a coroutine whose backend is reached and answers. -/
def answeredBy (k : Nat) (res : Response) : List Event :=
  [.resume k .done, .resume k .done, .resume k .done, .resume k (.response res)]

theorem exec_answeredBy {B : Beast} {m : Sessions} {k : Nat} {co : Coroutine}
    {l : WebSocketListener} {req req' : Request} (h : m.lookup k = some (co, l))
    (hphase : co.phase = .resolving req) (hhost : B.setHost req l.httpServerAddress = .ok req')
    (res : Response) :
    exec (Sessions.step B) m (answeredBy k res) = some (m.setCoroutine k { co with
      phase := .returned (.ok (buildResponseStringBuffer res)),
      written := co.written ++ [req'] }) := by
  have hconnect : co.resume B l .done = some { co with phase := .connecting req } := by
    simp [Coroutine.resume, hphase]
  have hwrite : Coroutine.resume B l { co with phase := .connecting req } .done =
      some { co with phase := .writing, written := co.written ++ [req'] } := by
    simp [Coroutine.resume, hhost]
  have h₁ := @lookup_setCoroutine m k co { co with phase := .connecting req } l h rfl
  have h₂ := @lookup_setCoroutine m k co
    { co with phase := .writing, written := co.written ++ [req'] } l h rfl
  have h₃ := @lookup_setCoroutine m k co
    { co with phase := .reading, written := co.written ++ [req'] } l h rfl
  rw [answeredBy, exec_cons, step_resume_some h hconnect, Option.bind_some, exec_cons,
    step_resume_some h₁ hwrite, Option.bind_some, setCoroutine_setCoroutine, exec_cons,
    step_resume_some h₂ rfl, Option.bind_some, setCoroutine_setCoroutine, exec_cons,
    step_resume_some h₃ rfl, Option.bind_some, setCoroutine_setCoroutine]
  rfl

end WsGateway.Session
