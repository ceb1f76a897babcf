import Mathlib.Data.List.AList
import WsGateway.Lib.Bytes

/-!
# The client registry and the connection callbacks

`WebSocketComponent` keeps the map from client ids to sockets, and
`ScyllaDBManager` the table from client ids to server names. Every callback is
a list of indivisible actions in program order: the lock of the map covers one
map access, a database write follows outside it. How the actions of different
callbacks interleave is the business of the machines that execute them.
-/

namespace WsGateway

abbrev SocketId := Nat

namespace Registry

open Lib

/-- The table `vin text PRIMARY KEY, host text`: at most one row for each vin. -/
abbrev Table := AList fun _ : Bytes => Bytes

/-- What an endpoint hands over with the upgraded connection. -/
abbrev ParameterMap := AList fun _ : Bytes => Bytes

/-- The state of one gateway process: `WebSocketComponent::clients`,
`WSInstanceListener::SOCKETS`, which wraps around, and for each socket the
`clientID` of the listener that `setListener` gave it. -/
structure Gateway where
  clients : AList fun _ : Bytes => SocketId
  sockets : Int32
  listeners : AList fun _ : SocketId => Bytes

def Gateway.initial : Gateway := ⟨∅, 0, ∅⟩

/-- The host written for a client that is not connected. -/
def na : Bytes := ascii "NA"

/-! ## Actions -/

inductive Action
  /-- `SOCKETS ++` -/
  | countUp
  /-- `SOCKETS --` -/
  | countDown
  /-- `clients[clientId] = socket`, under the lock -/
  | storeClient (clientId : Bytes) (socket : SocketId)
  /-- `clients.erase(clientId)`, under the lock -/
  | eraseClient (clientId : Bytes)
  /-- `dbManager->insert_data(vin, host)`, an upsert on the primary key -/
  | insertData (vin host : Bytes)
  /-- `dbManager->delete_data(vin)` -/
  | deleteData (vin : Bytes)
  /-- `socket->setListener(...)` with a new listener for the client -/
  | setListener (socket : SocketId) (clientId : Bytes)
deriving DecidableEq, Repr

/-- The effect of an action on its gateway and on the table. `ok` is the outcome
of a database write; a failed write is only logged and changes nothing. -/
def Action.apply (ok : Bool) : Action → Gateway × Table → Gateway × Table
  | .countUp, (g, t) => ({ g with sockets := g.sockets + 1 }, t)
  | .countDown, (g, t) => ({ g with sockets := g.sockets - 1 }, t)
  | .storeClient c s, (g, t) => ({ g with clients := g.clients.insert c s }, t)
  | .eraseClient c, (g, t) => ({ g with clients := g.clients.erase c }, t)
  | .insertData v h, (g, t) => (g, if ok then t.insert v h else t)
  | .deleteData v, (g, t) => (g, if ok then t.erase v else t)
  | .setListener s c, (g, t) => ({ g with listeners := g.listeners.insert s c }, t)

def runActions (acts : List Action) (st : Gateway × Table) : Gateway × Table :=
  acts.foldl (fun st a => a.apply true st) st

/-! ## WebSocketComponent -/

def addClient (appServerName clientId : Bytes) (socket : SocketId) : List Action :=
  [.storeClient clientId socket, .insertData clientId appServerName]

def setClientNotAvailable (clientId : Bytes) : List Action :=
  [.eraseClient clientId, .insertData clientId na]

def removeClient (clientId : Bytes) : List Action :=
  [.eraseClient clientId, .deleteData clientId]

/-! ## Endpoints

The parameter `Id` that both endpoints also set is read by no callback. -/

def clientIdKey : Bytes := ascii "ClientId"

/-- `ws`: every client of the plain endpoint has the same id. -/
def ws1Params : ParameterMap := AList.singleton clientIdKey (ascii "VIN1234567890")

/-- `ws/by-id/{ClientId}` -/
def wsParams (clienId : Bytes) : ParameterMap := AList.singleton clientIdKey clienId

/-! ## Callbacks -/

/-- `WSInstanceListener::onAfterCreate_NonBlocking`. A missing or empty `ClientId`
is logged and a close frame is prepared, but the coroutine that would send it
is dropped and the callback goes on. With the parameter missing the next
statement dereferences `params->end()`, which has no meaning: `none`. The
certificate names read under mTLS are not used for the registration. -/
def onAfterCreateNonBlocking (appServerName : Bytes) (params : ParameterMap)
    (socket : SocketId) : Option (List Action) :=
  match params.lookup clientIdKey with
  | none => none
  | some clientId =>
      some (.countUp :: addClient appServerName clientId socket ++
        [.setListener socket clientId])

/-- `WebSocketListener::onClose` of a listener with this `clientID`. -/
def onClose (clientID : Bytes) : List Action := setClientNotAvailable clientID

/-- `WSInstanceListener::onBeforeDestroy_NonBlocking` of a socket whose listener
has this `clientID`. -/
def onBeforeDestroyNonBlocking (clientID : Bytes) : List Action :=
  .countDown :: onClose clientID

theorem onAfterCreateNonBlocking_eq_some {name : Bytes} {params : ParameterMap} {s : SocketId}
    {acts : List Action} (h : onAfterCreateNonBlocking name params s = some acts) :
    ∃ c, params.lookup clientIdKey = some c ∧
      acts = [.countUp, .storeClient c s, .insertData c name, .setListener s c] := by
  unfold onAfterCreateNonBlocking at h
  cases hc : params.lookup clientIdKey with
  | none => simp [hc] at h
  | some c =>
      refine ⟨c, rfl, ?_⟩
      simpa [hc, addClient, eq_comm] using h

/-! ## What a whole callback does -/

theorem runActions_afterCreate (name c : Bytes) (s : SocketId) (g : Gateway) (t : Table) :
    runActions [.countUp, .storeClient c s, .insertData c name, .setListener s c] (g, t) =
      (⟨g.clients.insert c s, g.sockets + 1, g.listeners.insert s c⟩, t.insert c name) := rfl

theorem runActions_onClose (c : Bytes) (g : Gateway) (t : Table) :
    runActions (onClose c) (g, t) =
      (⟨g.clients.erase c, g.sockets, g.listeners⟩, t.insert c na) := rfl

theorem runActions_onBeforeDestroy (c : Bytes) (g : Gateway) (t : Table) :
    runActions (onBeforeDestroyNonBlocking c) (g, t) =
      (⟨g.clients.erase c, g.sockets - 1, g.listeners⟩, t.insert c na) := rfl

end Registry

end WsGateway
