import WsGateway.Lib.Views
import WsGateway.Session.BackendPorts

/-!
# Sockets do not interfere

The coroutines of all sockets run on one `io_context`, in any order. What belongs to
a socket is its listener, its coroutines, numbered among themselves, and its frames.
No event of another socket changes any of it or keeps an event of the socket from
happening, so that each socket is served as if it were the only one.
-/

namespace WsGateway.Session

open Lib Lib.Runs Lib.Stream Http

def Coroutine.of (s : SocketId) (co : Coroutine) : Bool := co.socket = s

def Sessions.number (m : Sessions) (s : SocketId) (k : Nat) : Nat :=
  rank (Coroutine.of s) m.coroutines k

def Sessions.on (s : SocketId) (m : Sessions) : Sessions where
  listeners r := if r = s then m.listeners r else none
  coroutines := m.coroutines.filter (Coroutine.of s)
  scheduled := (m.scheduled.filter fun f => f.socket = s).map fun f =>
    { f with coroutine := m.number s f.coroutine }

/-- An event of one of the socket's coroutines, under its number. -/
def Sessions.renumber (m : Sessions) (s : SocketId) (k : Nat) (e : Nat → Event) : Option Event :=
  match m.coroutines[k]? with
  | some co => if co.socket = s then some (e (m.number s k)) else none
  | none => none

def Event.on (s : SocketId) (m : Sessions) (e : Event) : Option Event :=
  match e with
  | .opened r _ _ _ | .readMessage r _ _ | .onPing r | .onPong r | .onClose r =>
      if r = s then some e else none
  | .start k order draw => m.renumber s k fun j => .start j order draw
  | .resume k outcome => m.renumber s k fun j => .resume j outcome
  | .handle k => m.renumber s k .handle

def socketView (s : SocketId) : View Sessions Event Sessions Event := ⟨Sessions.on s, Event.on s⟩

def Sessions.Owned (m : Sessions) : Prop := ∀ f ∈ m.scheduled, f.coroutine < m.coroutines.length

theorem sessions_eq {m m' : Sessions} (hl : m.listeners = m'.listeners)
    (hc : m.coroutines = m'.coroutines) (hf : m.scheduled = m'.scheduled) : m = m' := by
  cases m
  cases m'
  cases hl
  cases hc
  cases hf
  rfl

/-! ## Listeners -/

theorem listeners_on (m : Sessions) (s : SocketId) : (m.on s).listeners s = m.listeners s :=
  if_pos rfl

theorem on_setListener (m : Sessions) (s : SocketId) (l : WebSocketListener) :
    (m.setListener s l).on s = (m.on s).setListener s l := by
  refine sessions_eq ?_ rfl rfl
  funext r
  by_cases hr : r = s
  · subst hr
    simp [Sessions.on, Sessions.setListener]
  · simp [Sessions.on, Sessions.setListener, hr]

theorem on_setListener_of_ne (m : Sessions) {s r : SocketId} (h : r ≠ s)
    (l : WebSocketListener) : (m.setListener r l).on s = m.on s := by
  refine sessions_eq ?_ rfl rfl
  funext q
  by_cases hq : q = s
  · subst hq
    simp [Sessions.on, Sessions.setListener, Ne.symm h]
  · simp [Sessions.on, hq]

/-! ## Coroutines -/

theorem number_setCoroutine {m : Sessions} {s : SocketId} {k : Nat} {co co' : Coroutine}
    (hco : m.coroutines[k]? = some co) (hsocket : co'.socket = co.socket) (j : Nat) :
    (m.setCoroutine k co').number s j = m.number s j :=
  rank_set hco (by simp [Coroutine.of, hsocket]) j

theorem on_setCoroutine {m : Sessions} {s : SocketId} {k : Nat} {co co' : Coroutine}
    (hco : m.coroutines[k]? = some co) (hs : co.socket = s) (hsocket : co'.socket = co.socket) :
    (m.setCoroutine k co').on s = (m.on s).setCoroutine (m.number s k) co' := by
  refine sessions_eq rfl ?_ ?_
  · exact filter_set_rank hco (by simp [Coroutine.of, hs]) (by simp [Coroutine.of, hsocket, hs])
  · refine List.map_congr_left fun f _ => ?_
    rw [number_setCoroutine hco hsocket]

theorem on_setCoroutine_of_ne {m : Sessions} {s : SocketId} {k : Nat} {co co' : Coroutine}
    (hco : m.coroutines[k]? = some co) (hs : co.socket ≠ s) (hsocket : co'.socket = co.socket) :
    (m.setCoroutine k co').on s = m.on s := by
  refine sessions_eq rfl ?_ ?_
  · exact filter_set_of_not hco (by simp [Coroutine.of, hs]) (by simp [Coroutine.of, hsocket, hs])
  · refine List.map_congr_left fun f _ => ?_
    rw [number_setCoroutine hco hsocket]

theorem getElem?_on {m : Sessions} {s : SocketId} {k : Nat} {co : Coroutine}
    (hco : m.coroutines[k]? = some co) (hs : co.socket = s) :
    (m.on s).coroutines[m.number s k]? = some co :=
  getElem?_filter_rank hco (by simp [Coroutine.of, hs])

theorem lookup_on {m : Sessions} {s : SocketId} {k : Nat} {co : Coroutine}
    (hco : m.coroutines[k]? = some co) (hs : co.socket = s) :
    (m.on s).lookup (m.number s k) = m.lookup k := by
  rw [Sessions.lookup, Sessions.lookup, getElem?_on hco hs, hco, Option.bind_some,
    Option.bind_some, hs, listeners_on]

theorem on_spawn {m : Sessions} (h : m.Owned) (s : SocketId) (co : Coroutine) :
    (m.spawn co).on s = if co.socket = s then (m.on s).spawn co else m.on s := by
  have hframes : ((m.scheduled.filter fun f => f.socket = s).map fun f =>
      ({ f with coroutine := (m.spawn co).number s f.coroutine } : Frame)) =
        (m.on s).scheduled := by
    refine List.map_congr_left fun f hf => ?_
    rw [Sessions.number, Sessions.spawn, rank_append (h f (List.mem_of_mem_filter hf)).le]
    rfl
  split
  · rename_i hs
    refine sessions_eq rfl ?_ hframes
    exact (List.filter_append ..).trans (by simp [Coroutine.of, hs, Sessions.on, Sessions.spawn])
  · rename_i hs
    refine sessions_eq rfl ?_ hframes
    exact (List.filter_append ..).trans (by simp [Coroutine.of, hs, Sessions.on])

/-! ## Messages -/

theorem readMessage_eq (m : Sessions) (s : SocketId) (l : WebSocketListener) (data : Bytes)
    (now : Int) : m.readMessage s l data now =
      if data = [] then (m.setListener s { l with messageBuffer := [] }).spawn
        ⟨s, l.messageBuffer, toString now, .spawned, [], false⟩
      else m.setListener s { l with messageBuffer := l.messageBuffer ++ data } := rfl

theorem on_readMessage {m : Sessions} (h : m.Owned) (s : SocketId) (l : WebSocketListener)
    (data : Bytes) (now : Int) :
    (m.readMessage s l data now).on s = (m.on s).readMessage s l data now := by
  have howned (l : WebSocketListener) : (m.setListener s l).Owned := h
  rw [readMessage_eq, readMessage_eq]
  split
  · rw [on_spawn (howned _), if_pos rfl, on_setListener]
  · rw [on_setListener]

theorem on_readMessage_of_ne {m : Sessions} (h : m.Owned) {s r : SocketId} (hr : r ≠ s)
    (l : WebSocketListener) (data : Bytes) (now : Int) :
    (m.readMessage r l data now).on s = m.on s := by
  have howned (l : WebSocketListener) : (m.setListener r l).Owned := h
  rw [readMessage_eq]
  split
  · rw [on_spawn (howned _), if_neg hr, on_setListener_of_ne m hr]
  · rw [on_setListener_of_ne m hr]

/-! ## Frames -/

def Sessions.schedule (m : Sessions) (frames : List Frame) : Sessions :=
  { m with scheduled := m.scheduled ++ frames }

theorem on_schedule (m : Sessions) (s : SocketId) (frames : List Frame) :
    (m.schedule frames).on s = (m.on s).schedule ((frames.filter fun f => f.socket = s).map
      fun f => { f with coroutine := m.number s f.coroutine }) := by
  refine sessions_eq rfl rfl ?_
  simp only [Sessions.on, Sessions.schedule, List.filter_append, List.map_append]
  rfl

theorem on_handled {m : Sessions} {s : SocketId} {k : Nat} {co co' : Coroutine}
    (hco : m.coroutines[k]? = some co) (hs : co.socket = s) (hsocket : co'.socket = co.socket)
    (payload : Option Bytes) :
    ((m.setCoroutine k co').schedule
        (payload.map fun p => (⟨k, co.socket, p⟩ : Frame)).toList).on s =
      ((m.on s).setCoroutine (m.number s k) co').schedule
        (payload.map fun p => (⟨m.number s k, co.socket, p⟩ : Frame)).toList := by
  rw [on_schedule, on_setCoroutine hco hs hsocket]
  cases payload <;> simp [hs, number_setCoroutine hco hsocket]

theorem on_handled_of_ne {m : Sessions} {s : SocketId} {k : Nat} {co co' : Coroutine}
    (hco : m.coroutines[k]? = some co) (hs : co.socket ≠ s) (hsocket : co'.socket = co.socket)
    (payload : Option Bytes) :
    ((m.setCoroutine k co').schedule
        (payload.map fun p => (⟨k, co.socket, p⟩ : Frame)).toList).on s = m.on s := by
  rw [on_schedule, on_setCoroutine_of_ne hco hs hsocket]
  cases payload <;> simp [hs, Sessions.schedule]

/-! ## One step -/

theorem renumber_eq_some {m : Sessions} {s : SocketId} {k : Nat} {e : Nat → Event} {e' : Event}
    (h : m.renumber s k e = some e') : ∃ co, m.coroutines[k]? = some co ∧ co.socket = s ∧
      e' = e (m.number s k) := by
  unfold Sessions.renumber at h
  split at h
  · rename_i co hco
    split at h
    · rename_i hs
      cases h
      exact ⟨co, hco, hs, rfl⟩
    · cases h
  · cases h

theorem renumber_eq_none {m : Sessions} {s : SocketId} {k : Nat} {e : Nat → Event}
    (h : m.renumber s k e = none) {co : Coroutine} (hco : m.coroutines[k]? = some co) :
    co.socket ≠ s := by
  intro hs
  simp [Sessions.renumber, hco, hs] at h

theorem resume_socket {B : Beast} {l : WebSocketListener} {co co' : Coroutine}
    {outcome : Outcome} (h : co.resume B l outcome = some co') : co'.socket = co.socket := by
  unfold Coroutine.resume at h
  split at h
  case h_2 =>
    split at h
    · cases h
      rfl
    · cases h
      rfl
  all_goals
    cases h
    try rfl

theorem owned_step {B : Beast} {m m' : Sessions} {e : Event} (h : m.Owned)
    (hs : m.step B e = some m') : m'.Owned := by
  cases e with
  | opened s clientID host port =>
      simp only [Sessions.step] at hs
      split at hs
      · cases hs
        exact h
      · cases hs
  | readMessage s data now =>
      obtain ⟨l, -, rfl⟩ := Option.map_eq_some_iff.mp hs
      rw [readMessage_eq]
      split
      · intro f hf
        have hlt := h f hf
        simp only [Sessions.spawn, Sessions.setListener, List.length_append]
        omega
      · exact h
  | onPing s | onPong s | onClose s =>
      obtain ⟨l, -, rfl⟩ := Option.map_eq_some_iff.mp hs
      exact h
  | start k order draw =>
      obtain ⟨co, l, l', co', -, -, -, rfl⟩ := step_start hs
      intro f hf
      simpa [Sessions.setCoroutine, Sessions.setListener] using h f hf
  | resume k outcome =>
      obtain ⟨co, l, co', -, -, -, rfl⟩ := step_resume hs
      intro f hf
      simpa [Sessions.setCoroutine] using h f hf
  | handle k =>
      obtain ⟨co, result, hco, -, -, rfl⟩ := step_handle hs
      have hk : k < m.coroutines.length := (List.getElem?_eq_some_iff.mp hco).choose
      intro f hf
      simp only [Sessions.setCoroutine, List.length_set]
      rcases List.mem_append.mp hf with hf | hf
      · exact h f hf
      · obtain ⟨p, -, rfl⟩ := Option.map_eq_some_iff.mp (Option.mem_toList.mp hf)
        exact hk

theorem step_on_start {B : Beast} {m : Sessions} {s : SocketId} {k : Nat} {co : Coroutine}
    (hco : m.coroutines[k]? = some co) (hs : co.socket = s) (order : HashOrder) (draw : Nat) :
    (m.step B (.start k order draw)).map (Sessions.on s) =
      (m.on s).step B (.start (m.number s k) order draw) := by
  simp only [Sessions.step, lookup_on hco hs]
  cases hlookup : m.lookup k with
  | none => rfl
  | some p =>
      rcases p with ⟨co₁, l⟩
      obtain rfl : co = co₁ := Option.some.inj (hco.symm.trans (lookup_eq_some.mp hlookup).1)
      simp only [Option.bind_some, Option.map_map]
      cases hstart : co.start B order draw l with
      | none => rfl
      | some p =>
          rcases p with ⟨l', co'⟩
          have hlisten : (m.setListener co.socket l').coroutines[k]? = some co := hco
          refine congrArg some ((on_setCoroutine hlisten hs (start_eq_some hstart).2).trans ?_)
          rw [hs, on_setListener]
          rfl

theorem step_on_resume {B : Beast} {m : Sessions} {s : SocketId} {k : Nat} {co : Coroutine}
    (hco : m.coroutines[k]? = some co) (hs : co.socket = s) (outcome : Outcome) :
    (m.step B (.resume k outcome)).map (Sessions.on s) =
      (m.on s).step B (.resume (m.number s k) outcome) := by
  simp only [Sessions.step, lookup_on hco hs]
  cases hlookup : m.lookup k with
  | none => rfl
  | some p =>
      rcases p with ⟨co₁, l⟩
      obtain rfl : co = co₁ := Option.some.inj (hco.symm.trans (lookup_eq_some.mp hlookup).1)
      simp only [Option.bind_some, Option.map_map]
      cases hresume : co.resume B l outcome with
      | none => rfl
      | some co' => exact congrArg some (on_setCoroutine hco hs (resume_socket hresume))

theorem step_on_handle {B : Beast} {m : Sessions} {s : SocketId} {k : Nat} {co : Coroutine}
    (hco : m.coroutines[k]? = some co) (hs : co.socket = s) :
    (m.step B (.handle k)).map (Sessions.on s) = (m.on s).step B (.handle (m.number s k)) := by
  simp only [Sessions.step, getElem?_on hco hs, hco]
  rcases co with ⟨r, msg, t, phase, written, handled⟩
  cases phase with
  | spawned | resolving | connecting | writing | reading => rfl
  | returned result =>
      cases handled with
      | true => rfl
      | false =>
          exact congrArg some (@on_handled m s k _ ⟨r, msg, t, .returned result, written, true⟩ hco
            hs rfl (completionHandler result))

/-- A step of the socket does to it what it would do if it were alone. -/
theorem step_on {B : Beast} {s : SocketId} {m : Sessions} (h : m.Owned) {e e' : Event}
    (he : e.on s m = some e') : (m.step B e).map (Sessions.on s) = (m.on s).step B e' := by
  cases e with
  | opened r clientID host port =>
      obtain ⟨rfl, rfl⟩ : r = s ∧ Event.opened r clientID host port = e' := by
        simpa [Event.on] using he
      simp only [Sessions.step, listeners_on]
      cases m.listeners r with
      | none => exact congrArg some (on_setListener ..)
      | some l => rfl
  | readMessage r data now =>
      obtain ⟨rfl, rfl⟩ : r = s ∧ Event.readMessage r data now = e' := by
        simpa [Event.on] using he
      simp only [Sessions.step, listeners_on]
      cases m.listeners r with
      | none => rfl
      | some l => exact congrArg some (on_readMessage h ..)
  | onPing r | onPong r | onClose r =>
      obtain ⟨rfl, rfl⟩ : r = s ∧ _ = e' := by simpa [Event.on] using he
      simp only [Sessions.step, listeners_on]
      cases m.listeners r <;> rfl
  | start k order draw =>
      change m.renumber s k (fun j => .start j order draw) = some e' at he
      obtain ⟨co, hco, hs, rfl⟩ := renumber_eq_some he
      exact step_on_start hco hs order draw
  | resume k outcome =>
      change m.renumber s k (fun j => .resume j outcome) = some e' at he
      obtain ⟨co, hco, hs, rfl⟩ := renumber_eq_some he
      exact step_on_resume hco hs outcome
  | handle k =>
      change m.renumber s k (fun j => .handle j) = some e' at he
      obtain ⟨co, hco, hs, rfl⟩ := renumber_eq_some he
      exact step_on_handle hco hs

/-- What belongs to the socket is a machine of its own, and the rest is not noticed. -/
theorem socketView_sound (B : Beast) (s : SocketId) :
    (socketView s).Sound (Sessions.step B) (Sessions.step B) Sessions.Owned where
  seen m e e' t h he hstep := by
    have hon : (m.step B e).map (Sessions.on s) = (m.on s).step B e' := step_on h he
    rw [hstep] at hon
    exact hon.symm
  unseen m e t h he hstep := by
    change e.on s m = none at he
    show t.on s = m.on s
    cases e with
    | opened r clientID host port =>
        have hr : r ≠ s := by simpa [Event.on] using he
        simp only [Sessions.step] at hstep
        split at hstep
        · cases hstep
          exact on_setListener_of_ne m hr _
        · cases hstep
    | readMessage r data now =>
        have hr : r ≠ s := by simpa [Event.on] using he
        obtain ⟨l, -, rfl⟩ := Option.map_eq_some_iff.mp hstep
        exact on_readMessage_of_ne h hr l data now
    | onPing r | onPong r | onClose r =>
        obtain ⟨l, -, rfl⟩ := Option.map_eq_some_iff.mp hstep
        rfl
    | start k order draw =>
        change m.renumber s k (fun j => .start j order draw) = none at he
        obtain ⟨co, l, l', co', hco, -, hstart, rfl⟩ := step_start hstep
        have hs := renumber_eq_none he hco
        have hlisten : (m.setListener co.socket l').coroutines[k]? = some co := hco
        rw [on_setCoroutine_of_ne hlisten hs (start_eq_some hstart).2, on_setListener_of_ne m hs]
    | resume k outcome =>
        change m.renumber s k (fun j => .resume j outcome) = none at he
        obtain ⟨co, l, co', hco, -, hresume, rfl⟩ := step_resume hstep
        exact on_setCoroutine_of_ne hco (renumber_eq_none he hco) (resume_socket hresume)
    | handle k =>
        change m.renumber s k (fun j => .handle j) = none at he
        obtain ⟨co, result, hco, -, -, rfl⟩ := step_handle hstep
        exact @on_handled_of_ne m s k co { co with handled := true } hco
          (renumber_eq_none he hco) rfl (completionHandler result)
  inv m e t h hstep := owned_step h hstep

/-! ## Every run -/

theorem owned_initial : Sessions.initial.Owned := by
  intro f hf
  cases hf

theorem on_initial (s : SocketId) : Sessions.initial.on s = .initial := by
  refine sessions_eq ?_ rfl rfl
  funext r
  exact ite_self none

/-- In every run, what belongs to a socket is what the events of this socket alone make
of it, so that runs with the same events on it end alike for it; and an event of the
socket is possible, and does the same to it, whatever the others have done. -/
theorem sockets_do_not_interfere {B : Beast} {es : List Event} {m : Sessions}
    (h : exec (Sessions.step B) .initial es = some m) (s : SocketId) :
    exec (Sessions.step B) .initial ((socketView s).run (Sessions.step B) .initial es) =
      some (m.on s) ∧
    (∀ es' m', exec (Sessions.step B) .initial es' = some m' →
      (socketView s).run (Sessions.step B) .initial es' =
        (socketView s).run (Sessions.step B) .initial es → m'.on s = m.on s) ∧
    ∀ e e' : Event, e.on s m = some e' →
      (m.step B e).map (Sessions.on s) = (m.on s).step B e' := by
  have hview := socketView_sound B s
  have howned : m.Owned := invariant owned_initial (fun _ _ _ hm hs => owned_step hm hs) h
  refine ⟨?_, ?_, ?_⟩
  · have hrun := hview.exec owned_initial h
    rwa [show (socketView s).state .initial = .initial from on_initial s] at hrun
  · intro es' m' h' hsame
    exact hview.state_eq owned_initial owned_initial rfl h' h hsame
  · exact fun e e' he => step_on howned he

/-- Two vehicles whose messages arrive in turn; the coroutine of the first is spawned
second. -/
def twoVehicles : List Event :=
  [openedVehicle, .opened 1 (ascii "VIN2") (ascii "backend") (ascii "8082"),
    .readMessage 0 (ascii "GET") 1, .readMessage 1 (ascii "PUT") 2, .readMessage 1 [] 3,
    .readMessage 0 [] 4, .start 0 entryOrder 5, .start 1 entryOrder 6]

/-- For the first of them it is as if it were alone. -/
theorem two_vehicles_do_not_interfere : ∃ m,
    exec (Sessions.step boostBeast) .initial twoVehicles = some m ∧
      exec (Sessions.step boostBeast) .initial [openedVehicle, .readMessage 0 (ascii "GET") 1,
        .readMessage 0 [] 4, .start 0 entryOrder 6] = some (m.on 0) := by
  obtain ⟨m, hm⟩ : ∃ m, exec (Sessions.step boostBeast) .initial twoVehicles = some m := ⟨_, rfl⟩
  exact ⟨m, hm, (sockets_do_not_interfere hm 0).1⟩

end WsGateway.Session
