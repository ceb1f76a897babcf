import WsGateway.Http.Forwarding
import WsGateway.Lib.Lists
import WsGateway.Session.Sockets

/-!
# One answer to every message

The history of a run says which messages are complete, which client each socket
was opened for, and which response each coroutine has read. In every run there
is one coroutine for each complete message, it writes at most one request, for
the client of its socket, and its handler schedules exactly one frame, on this
socket.
-/

namespace WsGateway.Session

open Lib Lib.Runs Lib.Stream Http

/-! ## The history of a run, latest event first -/

def openedFor (s : SocketId) : List Event → Option Bytes
  | [] => none
  | .opened s' clientID _ _ :: es => if s' = s then some clientID else openedFor s es
  | _ :: es => openedFor s es

/-- What was received on a socket since its last complete message. -/
def pending (s : SocketId) : List Event → Bytes
  | [] => []
  | .readMessage s' data _ :: es =>
      if s' = s then if data = [] then [] else pending s es ++ data else pending s es
  | _ :: es => pending s es

/-- The complete messages, in the order in which they were completed. -/
def completeMessages : List Event → List (SocketId × Bytes)
  | [] => []
  | .readMessage s data _ :: es =>
      if data = [] then completeMessages es ++ [(s, pending s es)] else completeMessages es
  | _ :: es => completeMessages es

def responseRead (k : Nat) : List Event → Option Response
  | [] => none
  | .resume k' outcome :: es =>
      if k' = k then outcome.read?.or (responseRead k es) else responseRead k es
  | _ :: es => responseRead k es

/-! ## The invariant -/

def Sessions.framesOf (m : Sessions) (k : Nat) : List Frame :=
  m.scheduled.filter fun f => f.coroutine = k

/-- The state after the events `es`, latest first. -/
structure Inv (B : Beast) (es : List Event) (m : Sessions) : Prop where
  clients : ∀ s, (m.listeners s).map WebSocketListener.clientID = openedFor s es
  buffers : ∀ s, ((m.listeners s).map WebSocketListener.messageBuffer).getD [] = pending s es
  messages : (m.coroutines.map fun co => (co.socket, co.msg)) = completeMessages es
  tracked : ∀ k (co : Coroutine), m.coroutines[k]? = some co → ∃ clientID,
    openedFor co.socket es = some clientID ∧ co.Tracked B clientID (responseRead k es)
  unread : ∀ k, m.coroutines.length ≤ k → responseRead k es = none
  frames : ∀ k (co : Coroutine), m.coroutines[k]? = some co → m.framesOf k =
    if co.handled then [⟨k, co.socket, answer (responseRead k es)⟩] else []
  owned : ∀ f ∈ m.scheduled, f.coroutine < m.coroutines.length

variable {B : Beast}

theorem inv_initial : Inv B [] Sessions.initial where
  clients _ := rfl
  buffers _ := rfl
  messages := rfl
  tracked _ _ h := by cases h
  unread _ _ := rfl
  frames _ _ h := by cases h
  owned _ h := by cases h

theorem Inv.clientID_eq {es : List Event} {m : Sessions} (h : Inv B es m) {s : SocketId}
    {l : WebSocketListener} (hl : m.listeners s = some l) :
    openedFor s es = some l.clientID := by
  rw [← h.clients s, hl]
  rfl

theorem Inv.setListener {es : List Event} {m : Sessions} (h : Inv B es m) {s : SocketId}
    {l l' : WebSocketListener} (hl : m.listeners s = some l) (hid : l'.clientID = l.clientID)
    (hbuffer : l'.messageBuffer = l.messageBuffer) : Inv B es (m.setListener s l') where
  clients s' := by
    rw [← h.clients s', Sessions.setListener]
    by_cases hs : s' = s
    · subst hs
      simp [hl, hid]
    · simp [hs]
  buffers s' := by
    rw [← h.buffers s', Sessions.setListener]
    by_cases hs : s' = s
    · subst hs
      simp [hl, hbuffer]
    · simp [hs]
  messages := h.messages
  tracked := h.tracked
  unread := h.unread
  frames := h.frames
  owned := h.owned

/-- The events that leave the listeners and their messages alone. -/
def Event.Internal (e : Event) : Prop :=
  (∀ s es, openedFor s (e :: es) = openedFor s es) ∧ (∀ s es, pending s (e :: es) = pending s es) ∧
    ∀ es, completeMessages (e :: es) = completeMessages es

/-- One coroutine makes a step, and schedules the frames `new`. -/
theorem Inv.setCoroutine {es : List Event} {m : Sessions} (h : Inv B es m) {e : Event}
    (he : e.Internal) (co' : Coroutine) (new : List Frame) {k : Nat}
    (hread : ∀ j, j ≠ k → responseRead j (e :: es) = responseRead j es)
    {co : Coroutine} (hco : m.coroutines[k]? = some co)
    (hsame : co'.socket = co.socket ∧ co'.msg = co.msg)
    (htracked : ∀ clientID, openedFor co.socket es = some clientID →
      co'.Tracked B clientID (responseRead k (e :: es)))
    (hnew : ∀ f ∈ new, f.coroutine = k)
    (hframes : m.framesOf k ++ new =
      if co'.handled then [⟨k, co'.socket, answer (responseRead k (e :: es))⟩] else []) :
    Inv B (e :: es) { m.setCoroutine k co' with scheduled := m.scheduled ++ new } := by
  have hk : k < m.coroutines.length := (List.getElem?_eq_some_iff.mp hco).choose
  have hold {j : Nat} (hj : j ≠ k) : (m.coroutines.set k co')[j]? = m.coroutines[j]? :=
    List.getElem?_set_ne (Ne.symm hj)
  have hself : (m.coroutines.set k co')[k]? = some co' := List.getElem?_set_self hk
  constructor
  · intro s
    rw [he.1]
    exact h.clients s
  · intro s
    rw [he.2.1]
    exact h.buffers s
  · rw [he.2.2, ← h.messages]
    refine List.ext_getElem? fun j => ?_
    rw [Sessions.setCoroutine, List.getElem?_map, List.getElem?_map]
    by_cases hj : j = k
    · rw [hj, hself, hco]
      simp [hsame]
    · rw [hold hj]
  · intro j co₁ hj
    rw [he.1]
    by_cases hjk : j = k
    · subst hjk
      obtain rfl : co' = co₁ := Option.some.inj (hself.symm.trans hj)
      obtain ⟨clientID, hopen, -⟩ := h.tracked j co hco
      rw [hsame.1]
      exact ⟨clientID, hopen, htracked clientID hopen⟩
    · rw [hread j hjk]
      exact h.tracked j co₁ ((hold hjk).symm.trans hj)
  · intro j hj
    simp only [Sessions.setCoroutine, List.length_set] at hj
    rw [hread j (by omega)]
    exact h.unread j hj
  · intro j co₁ hj
    have hsplit : (m.scheduled ++ new).filter (fun f => f.coroutine = j) =
        m.framesOf j ++ new.filter fun f => f.coroutine = j := List.filter_append ..
    by_cases hjk : j = k
    · subst hjk
      obtain rfl : co' = co₁ := Option.some.inj (hself.symm.trans hj)
      have hall : new.filter (fun f => f.coroutine = j) = new := by
        rw [List.filter_eq_self]
        simpa using hnew
      rw [Sessions.framesOf, hsplit, hall, hframes]
    · have hnone : new.filter (fun f => f.coroutine = j) = [] := by
        rw [List.filter_eq_nil_iff]
        intro f hf
        simpa [hnew f hf] using Ne.symm hjk
      rw [Sessions.framesOf, hsplit, hnone, List.append_nil, hread j hjk]
      exact h.frames j co₁ ((hold hjk).symm.trans hj)
  · intro f hf
    simp only [Sessions.setCoroutine, List.length_set]
    rcases List.mem_append.mp hf with hf | hf
    · exact h.owned f hf
    · rw [hnew f hf]
      exact hk

/-! ## One step -/

theorem Inv.opened {es : List Event} {m : Sessions} (h : Inv B es m) {s : SocketId}
    (hnew : m.listeners s = none) (clientID host port : Bytes) :
    Inv B (.opened s clientID host port :: es) (m.setListener s ⟨clientID, host, port, []⟩) where
  clients s' := by
    by_cases hs : s = s'
    · subst hs
      simp [Sessions.setListener, openedFor]
    · simp only [Sessions.setListener, openedFor, if_neg hs,
        Function.update_of_ne (Ne.symm hs), h.clients s']
  buffers s' := by
    by_cases hs : s = s'
    · subst hs
      have hb := h.buffers s
      rw [hnew] at hb
      simpa [Sessions.setListener, pending] using hb
    · simp only [Sessions.setListener, pending, Function.update_of_ne (Ne.symm hs), h.buffers s']
  messages := h.messages
  tracked k co hco := by
    obtain ⟨id, hid, htracked⟩ := h.tracked k co hco
    have hne : s ≠ co.socket := by
      intro heq
      subst heq
      have hc := h.clients co.socket
      rw [hnew, hid] at hc
      cases hc
    exact ⟨id, by rw [openedFor, if_neg hne, hid], htracked⟩
  unread := h.unread
  frames := h.frames
  owned := h.owned

theorem Inv.chunk {es : List Event} {m : Sessions} (h : Inv B es m) {s : SocketId}
    {l : WebSocketListener} (hl : m.listeners s = some l) {data : Bytes} (hdata : data ≠ [])
    (now : Int) : Inv B (.readMessage s data now :: es) (m.readMessage s l data now) := by
  rw [Sessions.readMessage, if_neg hdata]
  refine ⟨?_, ?_, ?_, h.tracked, h.unread, h.frames, h.owned⟩
  · intro s'
    have hopen : openedFor s' (.readMessage s data now :: es) = openedFor s' es := rfl
    rw [hopen, ← h.clients s', Sessions.setListener]
    by_cases hs : s' = s
    · subst hs
      simp [hl]
    · simp [hs]
  · intro s'
    rw [pending, ← h.buffers s', Sessions.setListener]
    by_cases hs : s' = s
    · subst hs
      simp [hl, hdata]
    · simp [hs, Ne.symm hs]
  · rw [completeMessages, if_neg hdata]
    exact h.messages

theorem Inv.complete {es : List Event} {m : Sessions} (h : Inv B es m) {s : SocketId}
    {l : WebSocketListener} (hl : m.listeners s = some l) (now : Int) :
    Inv B (.readMessage s [] now :: es) (m.readMessage s l [] now) := by
  have hid := h.clientID_eq hl
  have hbuffer : l.messageBuffer = pending s es := by
    rw [← h.buffers s, hl]
    rfl
  rw [Sessions.readMessage, if_pos rfl]
  constructor
  · intro s'
    have hopen : openedFor s' (.readMessage s [] now :: es) = openedFor s' es := rfl
    rw [hopen, ← h.clients s']
    by_cases hs : s' = s
    · subst hs
      simp [Sessions.setListener, hl]
    · simp [Sessions.setListener, hs]
  · intro s'
    rw [pending, ← h.buffers s']
    by_cases hs : s' = s
    · subst hs
      simp [Sessions.setListener]
    · simp [Sessions.setListener, hs, Ne.symm hs]
  · rw [completeMessages, if_pos rfl, List.map_append, h.messages, List.map_singleton, hbuffer]
  · intro k co hco
    rcases getElem?_concat_cases hco with hold | ⟨rfl, rfl⟩
    · exact h.tracked k co hold
    · exact ⟨l.clientID, hid, rfl, h.unread _ (Nat.le_refl _), rfl⟩
  · intro k hk
    rw [List.length_append] at hk
    exact h.unread k (by omega)
  · intro k co hco
    rcases getElem?_concat_cases hco with hold | ⟨rfl, rfl⟩
    · exact h.frames k co hold
    · -- no frame belongs to a coroutine that is only spawned now
      refine List.filter_eq_nil_iff.mpr fun f hf => ?_
      have hlt := h.owned f hf
      rw [decide_eq_true_eq]
      omega
  · intro f hf
    have hlt := h.owned f hf
    rw [List.length_append]
    omega

theorem Inv.start {es : List Event} {m m' : Sessions} (h : Inv B es m) {k : Nat}
    {order : HashOrder} {draw : Nat} (hs : m.step B (.start k order draw) = some m') :
    Inv B (.start k order draw :: es) m' := by
  obtain ⟨co, l, l', co', hco, hl, hstart, rfl⟩ := step_start hs
  obtain ⟨clientID, hopen, htracked⟩ := h.tracked k co hco
  obtain rfl : l.clientID = clientID := Option.some.inj ((h.clientID_eq hl).symm.trans hopen)
  obtain ⟨hid, hbuffer, hsock, hmsg, hhandled, htracked'⟩ := htracked.start hstart
  have hlisten := h.setListener hl hid hbuffer
  have hinternal : (Event.start k order draw).Internal :=
    ⟨fun _ _ => rfl, fun _ _ => rfl, fun _ => rfl⟩
  have hupdate := hlisten.setCoroutine hinternal co' [] (fun _ _ => rfl) hco ⟨hsock, hmsg⟩
    (by
      intro id hid'
      obtain rfl := Option.some.inj (hopen.symm.trans hid')
      exact htracked')
    (by simp) (by
      rw [List.append_nil, hhandled, hsock]
      exact h.frames k co hco)
  rwa [List.append_nil] at hupdate

theorem Inv.resume {es : List Event} {m m' : Sessions} (h : Inv B es m) {k : Nat}
    {outcome : Outcome} (hs : m.step B (.resume k outcome) = some m') :
    Inv B (.resume k outcome :: es) m' := by
  obtain ⟨co, l, co', hco, hl, hresume, rfl⟩ := step_resume hs
  obtain ⟨clientID, hopen, htracked⟩ := h.tracked k co hco
  obtain rfl : l.clientID = clientID := Option.some.inj ((h.clientID_eq hl).symm.trans hopen)
  obtain ⟨hsock, hmsg, hhandled, htracked'⟩ := htracked.resume hresume
  have hread : responseRead k (.resume k outcome :: es) =
      outcome.read?.or (responseRead k es) := if_pos rfl
  have hinternal : (Event.resume k outcome).Internal :=
    ⟨fun _ _ => rfl, fun _ _ => rfl, fun _ => rfl⟩
  have hupdate := h.setCoroutine hinternal co' [] (fun j hj => if_neg (Ne.symm hj)) hco
    ⟨hsock, hmsg⟩
    (by
      intro id hid'
      obtain rfl := Option.some.inj (hopen.symm.trans hid')
      rw [hread]
      exact htracked')
    (by simp) (by
      have hframes := h.frames k co hco
      rw [htracked.not_handled hresume] at hframes
      rw [List.append_nil, hhandled, htracked.not_handled hresume, hframes]
      rfl)
  rwa [List.append_nil] at hupdate

theorem Inv.handle {es : List Event} {m m' : Sessions} (h : Inv B es m) {k : Nat}
    (hs : m.step B (.handle k) = some m') : Inv B (.handle k :: es) m' := by
  obtain ⟨co, result, hco, hphase, hhandled, rfl⟩ := step_handle hs
  obtain ⟨clientID, hopen, htracked⟩ := h.tracked k co hco
  have hresult := htracked.result_eq hphase
  have hframes := h.frames k co hco
  rw [hhandled] at hframes
  have hinternal : (Event.handle k).Internal := ⟨fun _ _ => rfl, fun _ _ => rfl, fun _ => rfl⟩
  refine h.setCoroutine hinternal { co with handled := true } _ (fun _ _ => rfl) hco
    ⟨rfl, rfl⟩ ?_ ?_ ?_
  · intro id hid
    obtain rfl := Option.some.inj (hopen.symm.trans hid)
    unfold Coroutine.Tracked at htracked ⊢
    rw [hphase] at htracked
    simp only [hphase]
    exact htracked
  · intro f hf
    rw [hresult, completionHandler_answer] at hf
    simp only [Option.map_some, Option.toList_some, List.mem_singleton] at hf
    rw [hf]
  · rw [hframes, hresult, completionHandler_answer]
    rfl

theorem Inv.step {es : List Event} {m m' : Sessions} {e : Event} (h : Inv B es m)
    (hs : m.step B e = some m') : Inv B (e :: es) m' := by
  cases e with
  | opened s clientID host port =>
      simp only [Sessions.step] at hs
      split at hs
      · rename_i hnew
        cases hs
        exact h.opened hnew clientID host port
      · cases hs
  | readMessage s data now =>
      obtain ⟨l, hl, rfl⟩ := Option.map_eq_some_iff.mp hs
      by_cases hdata : data = []
      · subst hdata
        exact h.complete hl now
      · exact h.chunk hl hdata now
  | onPing s | onPong s | onClose s =>
      obtain ⟨l, -, rfl⟩ := Option.map_eq_some_iff.mp hs
      exact ⟨h.clients, h.buffers, h.messages, h.tracked, h.unread, h.frames, h.owned⟩
  | start k order draw => exact h.start hs
  | resume k outcome => exact h.resume hs
  | handle k => exact h.handle hs

theorem inv_exec {es : List Event} {m : Sessions}
    (h : exec (Sessions.step B) .initial es = some m) : Inv B es.reverse m := by
  refine trace_invariant (fun es m => Inv B es.reverse m) inv_initial ?_ h
  intro es m e m' hinv hs
  rw [List.reverse_append]
  exact hinv.step hs

theorem Coroutine.Tracked.returned_of_handled {clientID : Bytes} {response : Option Response}
    {co : Coroutine} (h : co.Tracked B clientID response) (hhandled : co.handled = true) :
    ∃ result, co.phase = .returned result := by
  unfold Coroutine.Tracked at h
  split at h
  · simp [h.2.2] at hhandled
  · simp [h.2.2.1] at hhandled
  · simp [h.2.2.1] at hhandled
  · simp [h.2.2] at hhandled
  · simp [h.2.2] at hhandled
  · rename_i result hphase
    exact ⟨result, hphase⟩

/-! ## The frames -/

def Event.handled? : Event → Option Nat
  | .handle k => some k
  | _ => none

theorem handled?_eq_some {e : Event} {k : Nat} : e.handled? = some k ↔ e = .handle k := by
  cases e <;> simp [Event.handled?]

theorem Inv.mem_scheduled {es : List Event} {m : Sessions} (h : Inv B es m) {f : Frame}
    (hf : f ∈ m.scheduled) : ∃ co : Coroutine, m.coroutines[f.coroutine]? = some co ∧
      co.handled = true ∧ f = ⟨f.coroutine, co.socket, answer (responseRead f.coroutine es)⟩ := by
  have hco := List.getElem?_eq_getElem (h.owned f hf)
  have hmem : f ∈ m.framesOf f.coroutine := List.mem_filter.mpr ⟨hf, by simp⟩
  rw [h.frames _ _ hco] at hmem
  split at hmem
  · rename_i hhandled
    exact ⟨_, hco, hhandled, List.mem_singleton.mp hmem⟩
  · cases hmem

theorem Inv.frame_answers {es : List Event} {m : Sessions} (h : Inv B es m) {f : Frame}
    (hf : f ∈ m.scheduled) :
    (∃ msg, (completeMessages es)[f.coroutine]? = some (f.socket, msg)) ∧
      f.payload = answer (responseRead f.coroutine es) := by
  obtain ⟨co, hco, -, hf⟩ := h.mem_scheduled hf
  rw [← h.messages, List.getElem?_map, hco, hf]
  exact ⟨⟨co.msg, rfl⟩, rfl⟩

theorem Inv.step_handle {es : List Event} {m m' : Sessions} (h : Inv B es m) {k : Nat}
    (hs : m.step B (.handle k) = some m') : ∃ co : Coroutine, m.coroutines[k]? = some co ∧
      co.handled = false ∧
      m'.scheduled = m.scheduled ++ [⟨k, co.socket, answer (responseRead k es)⟩] := by
  obtain ⟨co, result, hco, hphase, hhandled, rfl⟩ := Session.step_handle hs
  obtain ⟨clientID, -, htracked⟩ := h.tracked k co hco
  refine ⟨co, hco, hhandled, ?_⟩
  rw [htracked.result_eq hphase, completionHandler_answer]
  rfl

theorem scheduled_of_step {m m' : Sessions} {e : Event} (hs : m.step B e = some m')
    (he : e.handled? = none) : m'.scheduled = m.scheduled := by
  cases e with
  | opened s clientID host port =>
      simp only [Sessions.step] at hs
      split at hs <;> cases hs
      rfl
  | readMessage s data now =>
      obtain ⟨l, -, rfl⟩ := Option.map_eq_some_iff.mp hs
      unfold Sessions.readMessage
      split <;> rfl
  | onPing s | onPong s | onClose s =>
      obtain ⟨l, -, rfl⟩ := Option.map_eq_some_iff.mp hs
      rfl
  | start k order draw =>
      obtain ⟨co, l, l', co', -, -, -, rfl⟩ := step_start hs
      rfl
  | resume k outcome =>
      obtain ⟨co, l, co', -, -, -, rfl⟩ := step_resume hs
      rfl
  | handle k => cases he

theorem scheduled_grows {m m' : Sessions} {e : Event} (hs : m.step B e = some m') :
    m.scheduled <+: m'.scheduled := by
  cases he : e.handled? with
  | none =>
      exact ⟨[], by rw [scheduled_of_step hs he, List.append_nil]⟩
  | some k =>
      obtain rfl := handled?_eq_some.mp he
      obtain ⟨co, result, -, -, -, rfl⟩ := step_handle hs
      exact List.prefix_append _ _

/-- The frames answer, in the order in which the handlers have run, one message each. -/
theorem scheduled_exec {es : List Event} {m : Sessions}
    (h : exec (Sessions.step B) .initial es = some m) :
    m.scheduled.map Frame.coroutine = es.filterMap Event.handled? ∧
      (m.scheduled.map Frame.coroutine).Nodup := by
  have hinv := trace_invariant (fun es m => Inv B es.reverse m ∧
    m.scheduled.map Frame.coroutine = es.filterMap Event.handled? ∧
      (m.scheduled.map Frame.coroutine).Nodup) ⟨inv_initial, rfl, List.nodup_nil⟩ ?_ h
  · exact hinv.2
  · intro es m e m' hm hs
    rcases hm with ⟨hinv, hframes, hnodup⟩
    rw [List.reverse_concat, List.filterMap_append]
    refine ⟨hinv.step hs, ?_⟩
    cases e with
    | handle k =>
        obtain ⟨co, hco, hhandled, hscheduled⟩ := hinv.step_handle hs
        have hnew : k ∉ m.scheduled.map Frame.coroutine := by
          intro hmem
          obtain ⟨f, hf, rfl⟩ := List.mem_map.mp hmem
          obtain ⟨co', hco', hdone, -⟩ := hinv.mem_scheduled hf
          rw [← Option.some.inj (hco.symm.trans hco'), hhandled] at hdone
          cases hdone
        rw [hscheduled, List.map_append, ← hframes]
        exact ⟨rfl, List.concat_eq_append ▸ hnodup.concat hnew⟩
    | opened | readMessage | onPing | onPong | onClose | start | resume =>
        rw [scheduled_of_step hs rfl, List.filterMap_cons_none rfl, List.filterMap_nil,
          List.append_nil]
        exact ⟨hframes, hnodup⟩

/-! ## Every run -/

/-- The frames of a message: none before its handler has run, and then one. -/
theorem Inv.framesOf_message {es : List Event} {m : Sessions} (h : Inv B es m) {k : Nat}
    {co : Coroutine} (hco : m.coroutines[k]? = some co) :
    (co.handled = false ∧ m.framesOf k = []) ∨ (co.handled = true ∧
      m.framesOf k = [⟨k, co.socket, answer (responseRead k es)⟩]) := by
  have hframes := h.frames k co hco
  cases hhandled : co.handled with
  | false =>
      rw [hhandled] at hframes
      exact .inl ⟨rfl, hframes⟩
  | true =>
      rw [hhandled] at hframes
      exact .inr ⟨rfl, hframes⟩

theorem handled_iff_mem {es : List Event} {m : Sessions}
    (h : exec (Sessions.step B) .initial es = some m) {k : Nat} {co : Coroutine}
    (hco : m.coroutines[k]? = some co) : co.handled = true ↔ .handle k ∈ es := by
  have hinv := inv_exec h
  have hevents : k ∈ m.scheduled.map Frame.coroutine ↔ .handle k ∈ es := by
    rw [(scheduled_exec h).1, List.mem_filterMap]
    simp only [handled?_eq_some, exists_eq_right]
  rw [← hevents]
  constructor
  · intro hhandled
    have hframes := hinv.frames k co hco
    rw [if_pos hhandled] at hframes
    have hmem : ⟨k, co.socket, answer (responseRead k es.reverse)⟩ ∈ m.framesOf k := by
      simp [hframes]
    exact List.mem_map.mpr ⟨_, (List.mem_filter.mp hmem).1, rfl⟩
  · intro hmem
    obtain ⟨f, hf, rfl⟩ := List.mem_map.mp hmem
    obtain ⟨co', hco', hhandled, -⟩ := hinv.mem_scheduled hf
    rwa [Option.some.inj (hco.symm.trans hco')]

/-- What the handler of a coroutine that has returned makes of the frames. -/
theorem Inv.framesOf_handle {es : List Event} {m m' : Sessions} (h : Inv B es m) {k : Nat}
    {co : Coroutine} (hco : m.coroutines[k]? = some co)
    (hs : m.step B (.handle k) = some m') :
    m'.scheduled = m.scheduled ++ [⟨k, co.socket, answer (responseRead k es)⟩] ∧
      m'.framesOf k = [⟨k, co.socket, answer (responseRead k es)⟩] := by
  obtain ⟨co', hco', hhandled, hscheduled⟩ := h.step_handle hs
  obtain rfl : co = co' := Option.some.inj (hco.symm.trans hco')
  have hnone : m.framesOf k = [] := by
    rw [h.frames k co hco, hhandled]
    rfl
  refine ⟨hscheduled, ?_⟩
  rw [Sessions.framesOf, hscheduled, List.filter_append]
  rw [Sessions.framesOf] at hnone
  simp [hnone]

/-- In every run each complete message has spawned its own coroutine. It writes at
most one request, assembled for the client that its socket was opened for; it returns
the text of the response that it has read, or else the error text, never an empty one.
Its handler can run then, and schedules one frame with this text on this socket; it
runs at most once, and there are no other frames. -/
theorem one_answer_each {es : List Event} {m : Sessions}
    (h : exec (Sessions.step B) .initial es = some m) :
    (m.coroutines.map fun co => (co.socket, co.msg)) = completeMessages es.reverse ∧
    (∀ f ∈ m.scheduled, f.coroutine < m.coroutines.length) ∧
    ∀ k (co : Coroutine), m.coroutines[k]? = some co →
      (∃ clientID, openedFor co.socket es.reverse = some clientID ∧ co.written.length ≤ 1 ∧
        ∀ req ∈ co.written, co.Writes B clientID req ∧
          req.fields.get? clientIdName = some (trim clientID)) ∧
      (∀ result, co.phase = .returned result →
        result = .ok (answer (responseRead k es.reverse)) ∧
          answer (responseRead k es.reverse) ≠ [] ∧
          (co.handled = false → ∃ m', m.step B (.handle k) = some m')) ∧
      (∀ m', m.step B (.handle k) = some m' →
        m'.scheduled = m.scheduled ++ [⟨k, co.socket, answer (responseRead k es.reverse)⟩] ∧
          m'.framesOf k = [⟨k, co.socket, answer (responseRead k es.reverse)⟩]) ∧
      (co.handled = true ↔ .handle k ∈ es) ∧
      (co.handled = true → ∃ result, co.phase = .returned result) ∧
      m.framesOf k =
        if co.handled then [⟨k, co.socket, answer (responseRead k es.reverse)⟩] else [] := by
  have hinv := inv_exec h
  refine ⟨hinv.messages, hinv.owned, fun k co hco => ?_⟩
  obtain ⟨clientID, hopen, htracked⟩ := hinv.tracked k co hco
  obtain ⟨hlength, hwrites⟩ := htracked.written_le_one
  refine ⟨⟨clientID, hopen, hlength, fun req hreq => ⟨hwrites req hreq, (hwrites req hreq).get?⟩⟩,
    ?_, fun m' hs => hinv.framesOf_handle hco hs, handled_iff_mem h hco,
    htracked.returned_of_handled, hinv.frames k co hco⟩
  intro result hphase
  refine ⟨htracked.result_eq hphase, answer_ne_nil _, fun hhandled => ?_⟩
  refine Option.isSome_iff_exists.mp ?_
  simp [Sessions.step, hco, hphase, hhandled]

def onResponse : Response := ⟨11, 200, ascii "OK", [], ascii "on"⟩

def answeredRun (res : Response) : List Event :=
  [.opened 0 (ascii "VIN1") (ascii "backend") (ascii "8082"),
    .readMessage 0 statusRequest.text 4, .readMessage 0 [] 5, .start 0 entryOrder 3,
    .resume 0 .done, .resume 0 .done, .resume 0 .done, .resume 0 (.response res), .handle 0]

theorem assembled_statusRequest {t : Bytes} (ht : boostBeast.fits arrivedTimeName t = true) :
    ∃ req req', assembleRequest boostBeast entryOrder statusRequest.text (ascii "VIN1") t =
      .ok req ∧ boostBeast.setHost req (ascii "backend") = .ok req' := by
  rcases statusRequest.parse_text with ⟨headers, hfields, hparse⟩
  have hwritten : writtenRequest boostBeast entryOrder statusRequest.text (ascii "VIN1") t
      (ascii "backend") = _ :=
    ClientRequest.writtenRequest_text hfields hparse ht (by decide) (by decide)
  obtain ⟨req, hreq, hhost⟩ := bind_eq_ok.mp hwritten
  exact ⟨req, _, hreq, hhost⟩

theorem statusRequest_text_ne_nil : statusRequest.text ≠ [] := by
  simp [ClientRequest.text, renderRequest]

def openedVehicle : Event := .opened 0 (ascii "VIN1") (ascii "backend") (ascii "8082")

def statusListener : WebSocketListener := ⟨ascii "VIN1", ascii "backend", ascii "8082", []⟩

theorem step_openedVehicle (B : Beast) : Sessions.initial.step B openedVehicle =
    some (Sessions.initial.setListener 0 statusListener) := rfl

theorem start_statusRequest {t : Bytes} {req : Request} {l : WebSocketListener}
    (hreq : assembleRequest boostBeast entryOrder statusRequest.text (ascii "VIN1") t = .ok req)
    (hid : l.clientID = ascii "VIN1") (hport : l.httpServerPort ≠ []) (draw : Nat) :
    Coroutine.start boostBeast entryOrder draw l
        ⟨0, statusRequest.text, t, .spawned, [], false⟩ =
      some ({ l with httpServerPort := drawPort l.httpServerPort draw },
        ⟨0, statusRequest.text, t, .resolving req, [], false⟩) := by
  simp [Coroutine.start, hport, hid, hreq, catching]

theorem exec_answeredRun (res : Response) : ∃ (m : Sessions) (co : Coroutine) (req : Request),
    exec (Sessions.step boostBeast) .initial (answeredRun res) = some m ∧
      m.scheduled = [⟨0, 0, buildResponseStringBuffer res⟩] ∧ m.coroutines = [co] ∧
      co.socket = 0 ∧ co.written = [req] := by
  obtain ⟨req, req', hreq, hhost⟩ := @assembled_statusRequest (toString 5) (by decide)
  have hevents : answeredRun res =
      openedVehicle :: .readMessage 0 statusRequest.text 4 :: .readMessage 0 [] 5 ::
        .start 0 entryOrder 3 :: (answeredBy 0 res ++ [.handle 0]) := rfl
  have hl : (Sessions.initial.setListener 0 statusListener).listeners 0 = some statusListener :=
    rfl
  have hport : statusListener.httpServerPort ≠ [] := by decide
  have hstart := @start_statusRequest (toString 5) req statusListener hreq rfl hport 3
  rw [hevents, exec_cons, step_openedVehicle, Option.bind_some,
    exec_received boostBeast hl rfl statusRequest_text_ne_nil, exec_cons,
    step_start_some (lookup_spawn (k := 0) hl rfl) hstart, Option.bind_some, exec_append,
    exec_answeredBy (lookup_eq_some.mpr ⟨rfl, rfl⟩) rfl hhost, Option.bind_some, exec_cons,
    step_handle_some boostBeast rfl rfl rfl (buildResponseStringBuffer_ne_nil res)]
  exact ⟨_, _, _, rfl, rfl, rfl, rfl, rfl⟩

theorem one_answer_to_status : ∃ (m : Sessions) (co : Coroutine) (req : Request),
    exec (Sessions.step boostBeast) .initial (answeredRun onResponse) = some m ∧
      (m.coroutines.map fun co => (co.socket, co.msg)) = [(0, statusRequest.text)] ∧
      m.coroutines = [co] ∧ co.written = [req] ∧
      req.fields.get? clientIdName = some (ascii "VIN1") ∧
      m.framesOf 0 = [⟨0, 0, ascii "HTTP/1.1 200 OK\r\n\r\non"⟩] := by
  obtain ⟨m, co, req, h, -, hcos, hsocket, hwritten⟩ := exec_answeredRun onResponse
  obtain ⟨hmessages, -, hall⟩ := one_answer_each h
  have hcomplete : completeMessages (answeredRun onResponse).reverse =
      [(0, statusRequest.text)] := by
    simp [answeredRun, completeMessages, pending, statusRequest_text_ne_nil]
  rw [hcomplete] at hmessages
  have hco : m.coroutines[0]? = some co := by rw [hcos]; rfl
  obtain ⟨⟨clientID, hopened, -, hrequests⟩, -, -, hhandled, -, hframes⟩ := hall 0 co hco
  have hid : clientID = ascii "VIN1" := by
    rw [hsocket] at hopened
    exact (Option.some.inj hopened).symm
  have hfield := (hrequests req (by rw [hwritten]; exact List.mem_singleton_self req)).2
  have htrim : trim (ascii "VIN1") = ascii "VIN1" := by decide
  have htext : answer (responseRead 0 (answeredRun onResponse).reverse) =
      ascii "HTTP/1.1 200 OK\r\n\r\non" := by decide
  rw [hid, htrim] at hfield
  rw [if_pos (hhandled.mpr (by simp [answeredRun])), hsocket, htext] at hframes
  exact ⟨m, co, req, h, hmessages, hcos, hwritten, hfield, hframes⟩

end WsGateway.Session
