import WsGateway.Session.Answers

/-!
# Messages and their chunks

What `readMessage` receives on a socket is cut at its calls without data: each of
them completes the message of the chunks before it, and the chunks behind the
last one wait in the buffer.
-/

namespace WsGateway.Session

open Lib Lib.Runs Http

def Event.received? (s : SocketId) : Event → Option Bytes
  | .readMessage s' data _ => if s' = s then some data else none
  | _ => none

def received (s : SocketId) (es : List Event) : List Bytes := es.filterMap (Event.received? s)

/-- The chunks in front of each empty one, joined. -/
def messagesIn (chunks : List Bytes) : List Bytes :=
  (chunks.splitOn []).dropLast.map List.flatten

/-- The chunks behind the last empty one, joined. -/
def restIn (chunks : List Bytes) : Bytes :=
  ((chunks.splitOn []).getLast (List.splitOn_ne_nil _ _)).flatten

/-- The calls of oatpp on the listener of a socket. -/
def Event.OnListener (s : SocketId) : Event → Prop
  | .readMessage s' _ _ | .onPing s' | .onPong s' | .onClose s' => s' = s
  | _ => False

/-! ## One chunk more -/

theorem messagesIn_concat (chunks : List Bytes) (data : Bytes) :
    messagesIn (chunks ++ [data]) =
      if data = [] then messagesIn chunks ++ [restIn chunks] else messagesIn chunks := by
  unfold messagesIn restIn
  split
  · rename_i hdata
    subst hdata
    rw [splitOn_concat_self, List.dropLast_concat, ← List.map_singleton, ← List.map_append,
      List.dropLast_append_getLast]
  · rename_i hdata
    rw [splitOn_concat_of_ne hdata, List.dropLast_concat]

theorem restIn_concat (chunks : List Bytes) (data : Bytes) :
    restIn (chunks ++ [data]) = if data = [] then [] else restIn chunks ++ data := by
  unfold restIn
  split
  · rename_i hdata
    subst hdata
    simp [splitOn_concat_self]
  · rename_i hdata
    simp [splitOn_concat_of_ne hdata]

theorem flatten_messagesIn (chunks : List Bytes) :
    (messagesIn chunks).flatten ++ restIn chunks = chunks.flatten := by
  induction chunks using List.reverseRecOn with
  | nil => rfl
  | append_singleton chunks data ih =>
      rw [messagesIn_concat, restIn_concat, List.flatten_append, ← ih]
      split
      · rename_i hdata
        simp [hdata]
      · simp

theorem length_messagesIn (chunks : List Bytes) :
    (messagesIn chunks).length = chunks.count [] := by
  induction chunks using List.reverseRecOn with
  | nil => rfl
  | append_singleton chunks data ih =>
      rw [messagesIn_concat, List.count_append, ← ih]
      split
      · rename_i hdata
        simp [hdata]
      · rename_i hdata
        simp [hdata]

/-! ## Every run -/

theorem messagesIn_received (s : SocketId) (es : List Event) :
    messagesIn (received s es.reverse) =
        ((completeMessages es).filter fun message => message.1 = s).map Prod.snd ∧
      restIn (received s es.reverse) = pending s es := by
  induction es with
  | nil => exact ⟨rfl, rfl⟩
  | cons e es ih =>
      rcases ih with ⟨hmessages, hrest⟩
      have hreceived : received s (e :: es).reverse =
          received s es.reverse ++ (e.received? s).toList := by
        rw [received, List.reverse_cons, List.filterMap_append]
        cases h : e.received? s <;> simp [received, h]
      rw [hreceived]
      cases e with
      | readMessage s' data now =>
          by_cases hs : s' = s
          · subst hs
            simp only [Event.received?, if_true, Option.toList_some, messagesIn_concat,
              restIn_concat, hmessages, hrest, completeMessages, pending]
            refine ⟨?_, trivial⟩
            split <;> simp
          · simp only [Event.received?, if_neg hs, Option.toList_none, List.append_nil, hmessages,
              hrest, completeMessages, pending, and_true]
            split <;> simp [hs]
      | opened | onPing | onPong | onClose | start | resume | handle =>
          simp only [Event.received?, Option.toList_none, List.append_nil]
          exact ⟨hmessages, hrest⟩

/-- In every run and on every socket, the coroutines have been given the messages that
the chunks were cut into, and still have them; what stands behind the last message
is in the buffer; together these are the bytes that were received, one message for
each call without data; and the next call finds its listener. -/
theorem messages_reassembled {B : Beast} {es : List Event} {m : Sessions}
    (h : exec (Sessions.step B) .initial es = some m) {s : SocketId} {l : WebSocketListener}
    (hl : m.listeners s = some l) :
    ((m.coroutines.filter fun co => co.socket = s).map Coroutine.msg) =
        messagesIn (received s es) ∧
      l.messageBuffer = restIn (received s es) ∧
      (messagesIn (received s es)).flatten ++ l.messageBuffer = (received s es).flatten ∧
      (messagesIn (received s es)).length = (received s es).count [] ∧
      ∀ e : Event, e.OnListener s → (m.step B e).isSome := by
  have hinv := inv_exec h
  obtain ⟨hmessages, hrest⟩ := messagesIn_received s es.reverse
  rw [List.reverse_reverse] at hmessages hrest
  have hbuffer : l.messageBuffer = restIn (received s es) := by
    rw [hrest, ← hinv.buffers s, hl]
    rfl
  refine ⟨?_, hbuffer, ?_, length_messagesIn _, ?_⟩
  · rw [hmessages, ← hinv.messages, List.filter_map, List.map_map]
    rfl
  · rw [hbuffer, flatten_messagesIn]
  · intro e he
    cases e with
    | readMessage s' | onPing s' | onPong s' | onClose s' =>
        subst he
        simp [Sessions.step, hl]
    | opened | start | resume | handle => cases he

def chunkedRun : List Event :=
  [openedVehicle, .readMessage 0 (ascii "on") 1, .onPing 0, .readMessage 0 (ascii "off") 2,
    .readMessage 0 [] 3, .readMessage 0 [] 4, .onClose 0, .readMessage 0 (ascii "o") 5]

theorem messages_reassembled_chunked : ∃ m l,
    exec (Sessions.step boostBeast) .initial chunkedRun = some m ∧ m.listeners 0 = some l ∧
      ((m.coroutines.filter fun co => co.socket = 0).map Coroutine.msg) = [ascii "onoff", []] ∧
      l.messageBuffer = ascii "o" := by
  have hrun : (exec (Sessions.step boostBeast) .initial chunkedRun).isSome := rfl
  obtain ⟨m, h⟩ := Option.isSome_iff_exists.mp hrun
  have hopened : (m.listeners 0).map WebSocketListener.clientID = some (ascii "VIN1") :=
    (inv_exec h).clients 0
  obtain ⟨l, hl, -⟩ := Option.map_eq_some_iff.mp hopened
  obtain ⟨hmessages, hrest, -⟩ := messages_reassembled h hl
  refine ⟨m, l, h, hl, ?_, ?_⟩
  · rw [hmessages]
    decide
  · rw [hrest]
    decide

end WsGateway.Session
