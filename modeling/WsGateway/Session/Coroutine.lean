import WsGateway.Http.Client
import WsGateway.Http.Response
import WsGateway.Registry.Component

/-!
# The coroutine `asyncHttpClient`

A coroutine is spawned for a message and runs in pieces, from one awaited
operation to the next. It holds the listener's client id, host and port by
reference, and reads them when a piece needs them. Whatever a piece throws is
caught, so that the coroutine always returns a text.
-/

namespace WsGateway.Session

open Lib Lib.Http Lib.Stream Http

structure WebSocketListener where
  clientID : Bytes
  httpServerAddress : Bytes
  httpServerPort : Bytes
  messageBuffer : Bytes

inductive Phase
  | spawned
  | resolving (req : Request)
  | connecting (req : Request)
  | writing
  | reading
  | returned (result : Except StdException Bytes)

structure Coroutine where
  socket : SocketId
  msg : Bytes
  t : Bytes
  phase : Phase
  /-- the requests that it has handed to `async_write` -/
  written : List Request
  /-- its completion handler has run -/
  handled : Bool

inductive Outcome
  | done
  /-- with an error code -/
  | failed
  | response (res : Response)
  | thrown (e : StdException)

/-- The initial `result`, returned on every error. -/
def errorResult : Bytes := ascii "error"

def catching {α : Type*} (next : α → Phase) : Except StdException α → Phase
  | .ok a => next a
  | .error _ => .returned (.ok errorResult)

/-- `port.back() = '0' + distribution(generator) % 4 + 2`. -/
def drawPort (port : Bytes) (draw : Nat) : Bytes := port.dropLast ++ [(48 + draw % 4 + 2).toUInt8]

/-- Run the coroutine up to its first awaited operation. `back` of an empty
port is undefined. -/
def Coroutine.start (B : Beast) (order : HashOrder) (draw : Nat) (l : WebSocketListener)
    (co : Coroutine) : Option (WebSocketListener × Coroutine) :=
  match co.phase with
  | .spawned =>
      if l.httpServerPort = [] then none
      else
        some ({ l with httpServerPort := drawPort l.httpServerPort draw },
          { co with phase :=
              catching .resolving (assembleRequest B order co.msg l.clientID co.t) })
  | _ => none

def Coroutine.resume (B : Beast) (l : WebSocketListener) (co : Coroutine)
    (outcome : Outcome) : Option Coroutine :=
  match co.phase, outcome with
  | .resolving req, .done => some { co with phase := .connecting req }
  | .connecting req, .done =>
      match B.setHost req l.httpServerAddress with
      | .ok req => some { co with phase := .writing, written := co.written ++ [req] }
      | .error _ => some { co with phase := .returned (.ok errorResult) }
  | .writing, .done => some { co with phase := .reading }
  | .reading, .response res =>
      some { co with phase := .returned (.ok (buildResponseStringBuffer res)) }
  | .resolving _, .failed | .resolving _, .thrown _ | .connecting _, .failed
  | .connecting _, .thrown _ | .writing, .failed | .writing, .thrown _ | .reading, .failed
  | .reading, .thrown _ => some { co with phase := .returned (.ok errorResult) }
  | _, _ => none

/-- The completion handler: the text to send, if there is one. -/
def completionHandler : Except StdException Bytes → Option Bytes
  | .error _ => none
  | .ok result => if result = [] then none else some result

/-! ## What a coroutine has done -/

/-- The text that the client gets, given the response that was read. -/
def answer : Option Response → Bytes
  | some res => buildResponseStringBuffer res
  | none => errorResult

theorem answer_ne_nil (response : Option Response) : answer response ≠ [] := by
  cases response with
  | none => decide
  | some res => exact buildResponseStringBuffer_ne_nil res

theorem completionHandler_answer (response : Option Response) :
    completionHandler (.ok (answer response)) = some (answer response) :=
  if_neg (answer_ne_nil response)

/-- The coroutine assembles this request for a client: what it sets `X-Client-ID` to is
the client id. -/
def Coroutine.Assembles (B : Beast) (clientID : Bytes) (co : Coroutine) (req : Request) : Prop :=
  ∃ order, assembleRequest B order co.msg clientID co.t = .ok req

def Coroutine.Writes (B : Beast) (clientID : Bytes) (co : Coroutine) (req : Request) : Prop :=
  ∃ order host, writtenRequest B order co.msg clientID co.t host = .ok req

theorem Coroutine.Assembles.setHost {B : Beast} {clientID host : Bytes} {co : Coroutine}
    {req req' : Request} (h : co.Assembles B clientID req) (hhost : B.setHost req host = .ok req') :
    co.Writes B clientID req' := by
  rcases h with ⟨order, hreq⟩
  refine ⟨order, host, ?_⟩
  rw [writtenRequest, hreq]
  exact hhost

theorem Coroutine.Writes.get? {B : Beast} {clientID : Bytes} {co : Coroutine} {req : Request}
    (h : co.Writes B clientID req) : req.fields.get? clientIdName = some (trim clientID) := by
  rcases h with ⟨order, host, hwritten⟩
  obtain ⟨assembled, hassembled, hhost⟩ := bind_eq_ok.mp hwritten
  obtain ⟨fs, hfs, hreq⟩ := bind_eq_ok.mp hhost
  obtain rfl := (set_eq_ok.mp hfs).2
  cases hreq
  obtain ⟨r, -, -, rfl⟩ := assembleRequest_eq_ok.mp hassembled
  have hset : (identifiedFields order r clientID co.t).get? clientIdName = some (trim clientID) :=
    Fields.get?_set_of_iequals (iequals_refl _)
  dsimp only
  rw [Fields.get?_set_of_ne (by decide)]
  unfold framedFields
  split
  · exact hset
  · rw [get?_notChunked_of_ne (by decide), Fields.get?_set_of_ne (by decide)]
    exact hset

/-- The history of a coroutine of a client, given the response that it has read
so far: at most one request, written for this client, and one result. -/
def Coroutine.Tracked (B : Beast) (clientID : Bytes) (response : Option Response)
    (co : Coroutine) : Prop :=
  match co.phase with
  | .spawned => co.written = [] ∧ response = none ∧ co.handled = false
  | .resolving req | .connecting req =>
      co.written = [] ∧ response = none ∧ co.handled = false ∧ co.Assembles B clientID req
  | .writing | .reading =>
      (∃ req, co.written = [req] ∧ co.Writes B clientID req) ∧ response = none ∧
        co.handled = false
  | .returned result =>
      (co.written = [] ∨ ∃ req, co.written = [req] ∧ co.Writes B clientID req) ∧
        result = .ok (answer response)

theorem Coroutine.Tracked.written_le_one {B : Beast} {clientID : Bytes}
    {response : Option Response} {co : Coroutine} (h : co.Tracked B clientID response) :
    co.written.length ≤ 1 ∧ ∀ req ∈ co.written, co.Writes B clientID req := by
  have hcases : co.written = [] ∨ ∃ req, co.written = [req] ∧ co.Writes B clientID req := by
    unfold Tracked at h
    split at h
    · exact .inl h.1
    · exact .inl h.1
    · exact .inl h.1
    · exact .inr h.1
    · exact .inr h.1
    · exact h.1
  rcases hcases with hnil | ⟨req, hreq, hwrites⟩
  · simp [hnil]
  · simp [hreq, hwrites]

theorem Coroutine.Tracked.result_eq {B : Beast} {clientID : Bytes}
    {response : Option Response} {co : Coroutine} (h : co.Tracked B clientID response)
    {result : Except StdException Bytes} (hphase : co.phase = .returned result) :
    result = .ok (answer response) := by
  unfold Tracked at h
  rw [hphase] at h
  exact h.2

theorem Coroutine.Tracked.start {B : Beast} {order : HashOrder} {draw : Nat}
    {l l' : WebSocketListener} {co co' : Coroutine} {response : Option Response}
    (h : co.Tracked B l.clientID response) (hs : co.start B order draw l = some (l', co')) :
    l'.clientID = l.clientID ∧ l'.messageBuffer = l.messageBuffer ∧ co'.socket = co.socket ∧
      co'.msg = co.msg ∧ co'.handled = co.handled ∧ co'.Tracked B l.clientID response := by
  unfold Coroutine.start at hs
  split at hs
  · rename_i hphase
    split at hs
    · cases hs
    · cases hs
      refine ⟨rfl, rfl, rfl, rfl, rfl, ?_⟩
      unfold Tracked at h
      rw [hphase] at h
      rcases h with ⟨hwritten, hresponse, hhandled⟩
      cases hreq : assembleRequest B order co.msg l.clientID co.t with
      | error e => exact ⟨.inl hwritten, by rw [hresponse]; rfl⟩
      | ok req =>
          exact ⟨hwritten, hresponse, hhandled, order, hreq⟩
  · cases hs

def Outcome.read? : Outcome → Option Response
  | .response res => some res
  | _ => none

theorem Coroutine.Tracked.error {B : Beast} {clientID : Bytes} {response : Option Response}
    {co : Coroutine} (h : co.Tracked B clientID response)
    (hphase : ∀ result, co.phase ≠ .returned result) :
    ({ co with phase := .returned (.ok errorResult) } : Coroutine).Tracked B clientID response := by
  unfold Tracked at h
  split at h
  · exact ⟨.inl h.1, by rw [h.2.1]; rfl⟩
  · exact ⟨.inl h.1, by rw [h.2.1]; rfl⟩
  · exact ⟨.inl h.1, by rw [h.2.1]; rfl⟩
  · exact ⟨.inr h.1, by rw [h.2.1]; rfl⟩
  · exact ⟨.inr h.1, by rw [h.2.1]; rfl⟩
  · rename_i result hresult
    exact absurd hresult (hphase result)

theorem Coroutine.Tracked.not_handled {B : Beast} {l : WebSocketListener} {co co' : Coroutine}
    {clientID : Bytes} {response : Option Response} {outcome : Outcome}
    (h : co.Tracked B clientID response) (hs : co.resume B l outcome = some co') :
    co.handled = false := by
  unfold Tracked at h
  split at h
  · exact h.2.2
  · exact h.2.2.1
  · exact h.2.2.1
  · exact h.2.2
  · exact h.2.2
  · rename_i hphase
    simp [Coroutine.resume, hphase] at hs

theorem Coroutine.Tracked.resume {B : Beast} {l : WebSocketListener} {co co' : Coroutine}
    {response : Option Response} {outcome : Outcome} (h : co.Tracked B l.clientID response)
    (hs : co.resume B l outcome = some co') :
    co'.socket = co.socket ∧ co'.msg = co.msg ∧ co'.handled = co.handled ∧
      co'.Tracked B l.clientID (outcome.read?.or response) := by
  have herror := h.error
  unfold Tracked at h
  unfold Coroutine.resume at hs
  split at hs
  all_goals rename_i hphase
  · rw [hphase] at h
    cases hs
    exact ⟨rfl, rfl, rfl, h⟩
  · rw [hphase] at h
    rcases h with ⟨hwritten, hresponse, hhandled, hassembles⟩
    split at hs
    · rename_i hhost
      cases hs
      refine ⟨rfl, rfl, rfl, ⟨_, ?_, hassembles.setHost hhost⟩, hresponse, hhandled⟩
      simp [hwritten]
    · cases hs
      exact ⟨rfl, rfl, rfl, herror (by simp [hphase])⟩
  · rw [hphase] at h
    cases hs
    exact ⟨rfl, rfl, rfl, h⟩
  · rw [hphase] at h
    cases hs
    exact ⟨rfl, rfl, rfl, .inr h.1, rfl⟩
  -- the eight ways to end with an error
  iterate 8
    · cases hs
      exact ⟨rfl, rfl, rfl, herror (by simp [hphase])⟩
  · cases hs

end WsGateway.Session
