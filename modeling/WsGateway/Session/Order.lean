import WsGateway.Session.Answers

/-!
# The order of the answers

The frames on a socket stand in the order in which the completion handlers have
run, and no handler waits for the earlier messages of its socket. The frames
answer the messages in their order exactly in the runs in which each handler
happens to run after those of the earlier messages.
-/

namespace WsGateway.Session

open Lib Lib.Runs Lib.Stream Http

variable {B : Beast}

/-- The complete messages of a socket, as the numbers of their coroutines. -/
def Sessions.messagesOn (m : Sessions) (s : SocketId) : List Nat :=
  (m.coroutines.map Coroutine.socket).idxsOf s

/-- The messages that the frames on a socket answer, in the order of the frames. -/
def Sessions.answeredOn (m : Sessions) (s : SocketId) : List Nat :=
  (m.scheduled.filter fun f => f.socket = s).map Frame.coroutine

/-- The frames on each socket answer its first messages, in order. -/
def Sessions.InOrder (m : Sessions) : Prop := ∀ s, m.answeredOn s <+: m.messagesOn s

/-- A handler runs after the handlers of the earlier messages of its socket. -/
def Sessions.InTurn (m : Sessions) : Event → Prop
  | .handle k => ∀ (co co' : Coroutine) (j : Nat), m.coroutines[k]? = some co →
      m.coroutines[j]? = some co' → co'.socket = co.socket → j < k → co'.handled = true
  | _ => True

theorem mem_messagesOn {m : Sessions} {s : SocketId} {k : Nat} :
    k ∈ m.messagesOn s ↔ ∃ co : Coroutine, m.coroutines[k]? = some co ∧ co.socket = s := by
  rw [Sessions.messagesOn, List.mem_idxsOf_iff_exists_getElem_pos]
  constructor
  · intro h
    rcases h with ⟨hk, hs⟩
    rw [List.length_map] at hk
    exact ⟨m.coroutines[k], List.getElem?_eq_getElem hk, by simpa using hs⟩
  · intro h
    rcases h with ⟨co, hco, rfl⟩
    obtain ⟨hk, hget⟩ := List.getElem?_eq_some_iff.mp hco
    exact ⟨by simpa using hk, by simp [hget]⟩

/-! ## What the handlers have done -/

theorem Inv.handled_iff {es : List Event} {m : Sessions} (h : Inv B es m) {k : Nat}
    {co : Coroutine} (hco : m.coroutines[k]? = some co) :
    co.handled = true ↔ k ∈ m.answeredOn co.socket := by
  constructor
  · intro hhandled
    have hframes := h.frames k co hco
    rw [if_pos hhandled] at hframes
    have hmem : ⟨k, co.socket, answer (responseRead k es)⟩ ∈ m.framesOf k := by simp [hframes]
    refine List.mem_map.mpr ⟨_, List.mem_filter.mpr ⟨(List.mem_filter.mp hmem).1, ?_⟩, rfl⟩
    simp
  · intro hmem
    obtain ⟨f, hf, rfl⟩ := List.mem_map.mp hmem
    obtain ⟨co', hco', hhandled, -⟩ := h.mem_scheduled (List.mem_filter.mp hf).1
    rwa [Option.some.inj (hco.symm.trans hco')]

/-! ## One step -/

theorem completeMessages_prefix (e : Event) (es : List Event) :
    completeMessages es <+: completeMessages (e :: es) := by
  cases e with
  | readMessage s data now =>
      rw [completeMessages]
      split
      · exact List.prefix_append _ _
      · exact List.prefix_refl _
  | opened | onPing | onPong | onClose | start | resume | handle => exact List.prefix_refl _

theorem Inv.sockets_eq {es : List Event} {m : Sessions} (h : Inv B es m) :
    m.coroutines.map Coroutine.socket = (completeMessages es).map Prod.fst := by
  rw [← h.messages, List.map_map]
  rfl

theorem Inv.messagesOn_prefix {es : List Event} {m m' : Sessions} {e : Event}
    (h : Inv B es m) (hs : m.step B e = some m') (s : SocketId) :
    m.messagesOn s <+: m'.messagesOn s := by
  obtain ⟨new, hnew⟩ := completeMessages_prefix e es
  rw [Sessions.messagesOn, Sessions.messagesOn, h.sockets_eq, (h.step hs).sockets_eq, ← hnew,
    List.map_append, List.idxsOf_append]
  exact List.prefix_append _ _

/-- From frames in order a step leads to frames in order exactly if it is in turn. -/
theorem Inv.inOrder_iff {es : List Event} {m m' : Sessions} {e : Event}
    (h : Inv B es m) (horder : m.InOrder) (hs : m.step B e = some m') :
    m'.InOrder ↔ m.InTurn e := by
  cases e with
  | handle k =>
      obtain ⟨co, hco, hhandled, hscheduled⟩ := h.step_handle hs
      have hmessages (s : SocketId) : m'.messagesOn s = m.messagesOn s := by
        rw [Sessions.messagesOn, Sessions.messagesOn, h.sockets_eq, (h.step hs).sockets_eq]
        rfl
      have hanswered (s : SocketId) :
          m'.answeredOn s = m.answeredOn s ++ if co.socket = s then [k] else [] := by
        rw [Sessions.answeredOn, hscheduled, List.filter_append, List.map_append,
          Sessions.answeredOn]
        by_cases hsocket : co.socket = s <;> simp [hsocket]
      have hascending (s : SocketId) : (m.messagesOn s).Pairwise (· < ·) := List.pairwise_idxsOf
      constructor
      · intro horder' co₁ co' j hco₁ hco' hsocket hj
        obtain rfl : co = co₁ := Option.some.inj (hco.symm.trans hco₁)
        have hprefix := horder' co.socket
        rw [hmessages, hanswered, if_pos rfl, concat_prefix_iff (hascending _)] at hprefix
        obtain ⟨-, -, -, hleast⟩ := hprefix
        rw [h.handled_iff hco', hsocket]
        exact hleast j (mem_messagesOn.mpr ⟨co', hco', hsocket⟩) hj
      · intro hturn s
        rw [hmessages, hanswered]
        split
        · rename_i hsocket
          subst hsocket
          refine (concat_prefix_iff (hascending _)).mpr ⟨horder _,
            mem_messagesOn.mpr ⟨co, hco, rfl⟩, ?_, ?_⟩
          · rw [← h.handled_iff hco, hhandled]
            exact Bool.false_ne_true
          · intro j hj hlt
            obtain ⟨co', hco', hsocket⟩ := mem_messagesOn.mp hj
            rw [← hsocket, ← h.handled_iff hco']
            exact hturn co co' j hco hco' hsocket hlt
        · rw [List.append_nil]
          exact horder s
  | opened | readMessage | onPing | onPong | onClose | start | resume =>
      refine iff_of_true (fun s => ?_) trivial
      have hanswered : m'.answeredOn s = m.answeredOn s := by
        rw [Sessions.answeredOn, scheduled_of_step hs rfl, Sessions.answeredOn]
      rw [hanswered]
      exact (horder s).trans (h.messagesOn_prefix hs s)

/-! ## Every run -/

/-- Every frame is the answer to one message of its socket, and they stand in the order
in which the handlers have run. On every socket the answers are given in the order of
the messages, at every moment, exactly if each handler runs after those of the earlier
messages of its socket. -/
theorem answers_in_order_iff {es : List Event} {m : Sessions}
    (h : exec (Sessions.step B) .initial es = some m) :
    m.scheduled.map Frame.coroutine = es.filterMap Event.handled? ∧
    (m.scheduled.map Frame.coroutine).Nodup ∧
    (∀ f ∈ m.scheduled,
      (∃ msg, (completeMessages es.reverse)[f.coroutine]? = some (f.socket, msg)) ∧
        f.payload = answer (responseRead f.coroutine es.reverse)) ∧
    ((∀ m', Visits (Sessions.step B) .initial es m' → m'.InOrder) ↔
      ∀ m' e, Takes (Sessions.step B) .initial es m' e → m'.InTurn e) := by
  obtain ⟨hframes, hnodup⟩ := scheduled_exec h
  have hinv := inv_exec h
  refine ⟨hframes, hnodup, fun f hf => hinv.frame_answers hf, ?_⟩
  · refine visits_good_iff (fun m => (∃ es, Inv B es m) ∧ m.InOrder) ?_ ?_ ?_ ?_
      (Option.isSome_iff_exists.mpr ⟨m, h⟩)
    · exact ⟨⟨[], inv_initial⟩, fun s => List.nil_prefix⟩
    · exact fun m hm => hm.2
    · intro m e m' hm hturn hs
      rcases hm with ⟨⟨es, hinv⟩, horder⟩
      exact ⟨⟨e :: es, hinv.step hs⟩, (hinv.inOrder_iff horder hs).mpr hturn⟩
    · intro m e m' hm hturn hs horder'
      rcases hm with ⟨⟨es, hinv⟩, horder⟩
      exact hturn ((hinv.inOrder_iff horder hs).mp horder')

/-- Two messages on one socket. The first is answered by its backend, the backend of
the second is not found. -/
def twoMessages : List Event :=
  [openedVehicle, .readMessage 0 statusRequest.text 4, .readMessage 0 [] 5,
    .readMessage 0 statusRequest.text 6, .readMessage 0 [] 7,
    .start 0 entryOrder 3, .start 1 entryOrder 2, .resume 1 .failed,
    .resume 0 .done, .resume 0 .done, .resume 0 .done, .resume 0 (.response onResponse)]

theorem exec_twoMessages : ∃ m written,
    exec (Sessions.step boostBeast) .initial twoMessages = some m ∧
      m.coroutines = [⟨0, statusRequest.text, toString 5, .returned (.ok (answer onResponse)),
        written, false⟩, ⟨0, statusRequest.text, toString 7, .returned (.ok (answer none)), [],
          false⟩] ∧
      m.scheduled = [] := by
  obtain ⟨req₀, req₀', hreq₀, hhost₀⟩ := @assembled_statusRequest (toString 5) (by decide)
  obtain ⟨req₁, -, hreq₁, -⟩ := @assembled_statusRequest (toString 7) (by decide)
  have hevents : twoMessages =
      openedVehicle :: .readMessage 0 statusRequest.text 4 :: .readMessage 0 [] 5 ::
        .readMessage 0 statusRequest.text 6 :: .readMessage 0 [] 7 ::
        .start 0 entryOrder 3 :: .start 1 entryOrder 2 :: .resume 1 .failed ::
        answeredBy 0 onResponse := rfl
  have hl : (Sessions.initial.setListener 0 statusListener).listeners 0 = some statusListener :=
    rfl
  have hl₁ (co : Coroutine) :
      ((Sessions.initial.setListener 0 statusListener).spawn co).listeners 0 =
        some statusListener := rfl
  have hport : statusListener.httpServerPort ≠ [] := by decide
  have hport' : drawPort statusListener.httpServerPort 3 ≠ [] := by decide
  have hstart₀ := @start_statusRequest (toString 5) req₀ statusListener hreq₀ rfl hport 3
  have hstart₁ := @start_statusRequest (toString 7) req₁
    ⟨ascii "VIN1", ascii "backend", drawPort statusListener.httpServerPort 3, []⟩
    hreq₁ rfl hport' 2
  rw [hevents, exec_cons, step_openedVehicle, Option.bind_some,
    exec_received boostBeast hl rfl statusRequest_text_ne_nil,
    exec_received boostBeast (hl₁ _) rfl statusRequest_text_ne_nil, exec_cons,
    step_start_some (lookup_eq_some.mpr ⟨rfl, rfl⟩) hstart₀, Option.bind_some, exec_cons,
    step_start_some (lookup_eq_some.mpr ⟨rfl, rfl⟩) hstart₁, Option.bind_some, exec_cons,
    step_resume_some (lookup_eq_some.mpr ⟨rfl, rfl⟩) rfl, Option.bind_some,
    exec_answeredBy (lookup_eq_some.mpr ⟨rfl, rfl⟩) rfl hhost₀]
  exact ⟨_, _, rfl, rfl, rfl⟩

theorem answers_in_order_of_two_messages : ∃ m,
    exec (Sessions.step boostBeast) .initial (twoMessages ++ [.handle 0, .handle 1]) = some m ∧
      m.scheduled = [⟨0, 0, ascii "HTTP/1.1 200 OK\r\n\r\non"⟩, ⟨1, 0, ascii "error"⟩] ∧
      m.InOrder := by
  obtain ⟨m, written, hrun, hcoroutines, hscheduled⟩ := exec_twoMessages
  obtain ⟨m', hexec, hframes⟩ : ∃ m',
      exec (Sessions.step boostBeast) .initial (twoMessages ++ [.handle 0, .handle 1]) = some m' ∧
        m'.scheduled = [⟨0, 0, answer onResponse⟩, ⟨1, 0, answer none⟩] := by
    rw [exec_append, hrun]
    simp [Sessions.step, hcoroutines, hscheduled, Sessions.setCoroutine, completionHandler_answer]
  have hturn : ∀ m₁ e, Takes (Sessions.step boostBeast) .initial
      (twoMessages ++ [.handle 0, .handle 1]) m₁ e → m₁.InTurn e := by
    intro m₁ e htakes
    rcases takes_append htakes with hbefore | ⟨t, ht, hafter⟩
    · have hmem := hbefore.mem
      cases e with
      | handle k => simp [twoMessages, openedVehicle] at hmem
      | opened | readMessage | onPing | onPong | onClose | start | resume => trivial
    · rcases takes_cons_iff.mp hafter with ⟨-, rfl⟩ | ⟨t', ht', hlast⟩
      · intro co co' j _ _ _ hj
        omega
      · obtain ⟨co₀, result, -, -, -, rfl⟩ := step_handle ht'
        rcases takes_cons_iff.mp hlast with ⟨rfl, rfl⟩ | ⟨_, _, hnil⟩
        · intro co co' j _ hco' _ hj
          obtain rfl : j = 0 := by omega
          rcases getElem?_set_cases hco' with ⟨-, rfl⟩ | ⟨hne, -⟩
          · rfl
          · exact absurd rfl hne
        · cases hnil.mem
  have htext : answer onResponse = ascii "HTTP/1.1 200 OK\r\n\r\non" := by decide
  obtain ⟨-, -, -, horder⟩ := answers_in_order_iff hexec
  exact ⟨m', hexec, htext ▸ hframes, horder.mpr hturn m' (Visits.final hexec)⟩

theorem second_answer_overtakes : ∃ m,
    exec (Sessions.step boostBeast) .initial (twoMessages ++ [.handle 1, .handle 0]) = some m ∧
      (m.coroutines.map fun co => (co.socket, co.msg)) =
        [(0, statusRequest.text), (0, statusRequest.text)] ∧
      m.scheduled = [⟨1, 0, ascii "error"⟩, ⟨0, 0, ascii "HTTP/1.1 200 OK\r\n\r\non"⟩] ∧
      ¬ m.InOrder := by
  obtain ⟨m, written, hrun, hcoroutines, hscheduled⟩ := exec_twoMessages
  refine ⟨⟨m.listeners, [⟨0, statusRequest.text, toString 5, .returned (.ok (answer onResponse)),
        written, true⟩, ⟨0, statusRequest.text, toString 7, .returned (.ok (answer none)), [],
          true⟩], _⟩, ?_, rfl, rfl, fun horder => ?_⟩
  · rw [exec_append, hrun]
    simp [Sessions.step, hcoroutines, hscheduled, Sessions.setCoroutine, completionHandler_answer]
    decide
  · exact absurd (show [1, 0] <+: [0, 1] from horder 0) (by decide)

end WsGateway.Session
