import WsGateway.Lib.CallService
import WsGateway.Lib.Simulation
import WsGateway.Http.Decoding
import WsGateway.Session.Answers

/-!
# The sessions as a call service

What the gateway does for its clients is to serve calls. A complete message is a
call. It is forwarded at most once, as a request that `asyncHttpClient` makes of
this message for the client of its socket, and answered once. The client reads
in its frame the response of the backend, or that there was none.
-/

namespace WsGateway.Session

open Lib Lib.Runs Lib.Stream Http

structure Message where
  socket : SocketId
  clientID : Bytes
  host : Bytes
  msg : Bytes
  t : Bytes

/-- The request that is written for a call, in an order of its headers. -/
def Message.request (B : Beast) (call : Message) (order : HashOrder) : Option Request :=
  (writtenRequest B order call.msg call.clientID call.t call.host).toOption

abbrev Service := CallService.State Message Request Response

/-! ## Coroutines and calls -/

/-- Where a coroutine is when its call is that far. -/
inductive Implements (B : Beast) : Coroutine → CallService.Entry Message Request Response → Prop
  | spawned (call : Message) :
      Implements B ⟨call.socket, call.msg, call.t, .spawned, [], false⟩ ⟨call, none, .waiting⟩
  | resolving (call : Message) (order : HashOrder) (req : Request)
      (h : assembleRequest B order call.msg call.clientID call.t = .ok req) :
      Implements B ⟨call.socket, call.msg, call.t, .resolving req, [], false⟩
        ⟨call, none, .waiting⟩
  | connecting (call : Message) (order : HashOrder) (req : Request)
      (h : assembleRequest B order call.msg call.clientID call.t = .ok req) :
      Implements B ⟨call.socket, call.msg, call.t, .connecting req, [], false⟩
        ⟨call, none, .waiting⟩
  | writing (call : Message) (req : Request) :
      Implements B ⟨call.socket, call.msg, call.t, .writing, [req], false⟩
        ⟨call, some req, .waiting⟩
  | reading (call : Message) (req : Request) :
      Implements B ⟨call.socket, call.msg, call.t, .reading, [req], false⟩
        ⟨call, some req, .waiting⟩
  | returned (call : Message) (forwarded : Option Request) (result : Option Response) :
      Implements B
        ⟨call.socket, call.msg, call.t, .returned (.ok (answer result)), forwarded.toList, false⟩
        ⟨call, forwarded, .settled result⟩
  | handled (call : Message) (forwarded : Option Request) (result : Option Response) :
      Implements B
        ⟨call.socket, call.msg, call.t, .returned (.ok (answer result)), forwarded.toList, true⟩
        ⟨call, forwarded, .answered result⟩

theorem Implements.call {B : Beast} {co : Coroutine}
    {e : CallService.Entry Message Request Response} (h : Implements B co e) :
    co.socket = e.call.socket ∧ co.msg = e.call.msg ∧ co.written = e.forwarded.toList := by
  cases h <;> exact ⟨rfl, rfl, rfl⟩

/-- The calls of the sessions: one for each coroutine, with what its listener says, and
an answer for each frame. -/
structure Serves (B : Beast) (m : Sessions) (v : Service) : Prop where
  coroutines : List.Forall₂ (Implements B) m.coroutines v.entries
  listeners : ∀ e ∈ v.entries, ∃ l, m.listeners e.call.socket = some l ∧
    l.clientID = e.call.clientID ∧ l.httpServerAddress = e.call.host
  scheduled : m.scheduled.map (fun f => (f.coroutine, f.payload)) =
    v.answers.map fun a => (a.1, answer a.2)

/-- What the service may do at an event of the sessions. -/
def Shows : Event → List (CallService.Event Message Response HashOrder) → Prop
  | .readMessage s data now, fs =>
      if data = [] then ∃ call : Message, call.socket = s ∧ call.t = Lib.toString now ∧
        fs = [.accept call]
      else fs = []
  | .start k _ _, fs => fs = [] ∨ fs = [.settle k none]
  | .resume k outcome, fs =>
      fs = [] ∨ (∃ order, fs = [.forward k order]) ∨ fs = [.settle k outcome.read?]
  | .handle k, fs => fs = [.answer k]
  | _, fs => fs = []

/-! ## One step -/

theorem Serves.initial (B : Beast) : Serves B .initial .initial where
  coroutines := .nil
  listeners _ h := by cases h
  scheduled := rfl

theorem Serves.setListener {B : Beast} {m : Sessions} {v : Service} (h : Serves B m v)
    {s : SocketId} {l' : WebSocketListener}
    (hl : ∀ l, m.listeners s = some l →
      l'.clientID = l.clientID ∧ l'.httpServerAddress = l.httpServerAddress) :
    Serves B (m.setListener s l') v where
  coroutines := h.coroutines
  listeners e he := by
    obtain ⟨l, hlook, hid, hhost⟩ := h.listeners e he
    by_cases hs : e.call.socket = s
    · subst hs
      obtain ⟨hid', hhost'⟩ := hl l hlook
      exact ⟨l', Function.update_self .., hid'.trans hid, hhost'.trans hhost⟩
    · exact ⟨l, (Function.update_of_ne hs ..).trans hlook, hid, hhost⟩
  scheduled := h.scheduled

theorem Serves.set {B : Beast} {m : Sessions} {v : Service} (h : Serves B m v) {k : Nat}
    {e e' : CallService.Entry Message Request Response} (hk : v.entries[k]? = some e)
    {co' : Coroutine} (himp : Implements B co' e') (hcall : e'.call = e.call) :
    Serves B (m.setCoroutine k co') (v.set k e') where
  coroutines := forall₂_set h.coroutines k himp
  listeners f hf := by
    rcases List.mem_or_eq_of_mem_set hf with hold | rfl
    · exact h.listeners f hold
    · rw [hcall]
      exact h.listeners e (List.mem_of_getElem? hk)
  scheduled := h.scheduled

theorem Serves.stutter {B : Beast} {m : Sessions} {v : Service} (h : Serves B m v) {k : Nat}
    {e : CallService.Entry Message Request Response} (hk : v.entries[k]? = some e)
    {co' : Coroutine} (himp : Implements B co' e) : Serves B (m.setCoroutine k co') v := by
  have hserves := h.set hk himp rfl
  have hv : v.set k e = v := by
    obtain ⟨hlt, rfl⟩ := List.getElem?_eq_some_iff.mp hk
    rw [CallService.State.set, List.set_getElem_self]
  rwa [hv] at hserves

/-- The listener of a call is the one that its coroutine refers to. -/
theorem Serves.listener_eq {B : Beast} {m : Sessions} {v : Service} (h : Serves B m v) {k : Nat}
    {e : CallService.Entry Message Request Response} (hk : v.entries[k]? = some e)
    {l : WebSocketListener} (hl : m.listeners e.call.socket = some l) :
    l.clientID = e.call.clientID ∧ l.httpServerAddress = e.call.host := by
  obtain ⟨l', hl', hid, hhost⟩ := h.listeners e (List.mem_of_getElem? hk)
  obtain rfl := Option.some.inj (hl.symm.trans hl')
  exact ⟨hid, hhost⟩

theorem Implements.start {B : Beast} {order : HashOrder} {draw : Nat}
    {l l' : WebSocketListener} {co co' : Coroutine}
    {e : CallService.Entry Message Request Response} (h : Implements B co e)
    (hid : l.clientID = e.call.clientID) (hs : co.start B order draw l = some (l', co')) :
    (l'.clientID = l.clientID ∧ l'.httpServerAddress = l.httpServerAddress) ∧
      (Implements B co' e ∨ e.status = .waiting ∧
        Implements B co' ⟨e.call, e.forwarded, .settled none⟩) := by
  cases h with
  | spawned call =>
      simp only [Coroutine.start] at hs
      split at hs
      · cases hs
      · cases hs
        refine ⟨⟨rfl, rfl⟩, ?_⟩
        rw [hid]
        cases hreq : assembleRequest B order call.msg call.clientID call.t with
        | error _ => exact .inr ⟨rfl, .returned call none none⟩
        | ok req => exact .inl (.resolving call order req hreq)
  | resolving | connecting | writing | reading | returned | handled => cases hs

/-- The coroutine goes on as its call does: nothing is seen of it, the request is
written, or it returns. -/
theorem Implements.resume {B : Beast} {l : WebSocketListener} {co co' : Coroutine}
    {outcome : Outcome} {e : CallService.Entry Message Request Response} (h : Implements B co e)
    (hhost : l.httpServerAddress = e.call.host) (hs : co.resume B l outcome = some co') :
    Implements B co' e ∨
    (∃ order req, e = ⟨e.call, none, .waiting⟩ ∧ e.call.request B order = some req ∧
      Implements B co' ⟨e.call, some req, .waiting⟩) ∨
    (e.status = .waiting ∧ (outcome.read?.isSome → e.forwarded.isSome) ∧
      Implements B co' ⟨e.call, e.forwarded, .settled outcome.read?⟩) := by
  cases h with
  | spawned | returned | handled => cases hs
  | resolving call order req hreq =>
      cases outcome with
      | done =>
          cases hs
          exact .inl (.connecting call order req hreq)
      | failed | thrown =>
          cases hs
          exact .inr (.inr ⟨rfl, id, .returned call none none⟩)
      | response => cases hs
  | connecting call order req hreq =>
      cases outcome with
      | done =>
          simp only [Coroutine.resume] at hs
          rw [hhost] at hs
          cases hreq' : B.setHost req call.host with
          | ok req' =>
              simp only [hreq', Option.some.injEq] at hs
              subst hs
              have hrequest : call.request B order = some req' := by
                rw [Message.request, writtenRequest, hreq]
                exact congrArg Except.toOption hreq'
              exact .inr (.inl ⟨order, req', rfl, hrequest, .writing call req'⟩)
          | error _ =>
              simp only [hreq', Option.some.injEq] at hs
              subst hs
              exact .inr (.inr ⟨rfl, id, .returned call none none⟩)
      | failed | thrown =>
          cases hs
          exact .inr (.inr ⟨rfl, id, .returned call none none⟩)
      | response => cases hs
  | writing call req =>
      cases outcome with
      | done =>
          cases hs
          exact .inl (.reading call req)
      | failed | thrown =>
          cases hs
          exact .inr (.inr ⟨rfl, fun _ => rfl, .returned call (some req) none⟩)
      | response => cases hs
  | reading call req =>
      cases outcome with
      | done => cases hs
      | failed | thrown =>
          cases hs
          exact .inr (.inr ⟨rfl, fun _ => rfl, .returned call (some req) none⟩)
      | response res =>
          cases hs
          exact .inr (.inr ⟨rfl, fun _ => rfl, .returned call (some req) (some res)⟩)

theorem Serves.complete {B : Beast} {m : Sessions} {v : Service} (h : Serves B m v)
    {s : SocketId} {l : WebSocketListener} (hl : m.listeners s = some l) (now : Int) :
    ∃ call : Message, call.socket = s ∧ call.t = Lib.toString now ∧
      Serves B (m.readMessage s l [] now)
        { v with entries := v.entries ++ [⟨call, none, .waiting⟩] } := by
  have hlisten : Serves B (m.setListener s { l with messageBuffer := [] }) v := by
    refine h.setListener fun l₁ hl₁ => ?_
    obtain rfl := Option.some.inj (hl.symm.trans hl₁)
    exact ⟨rfl, rfl⟩
  let call : Message := ⟨s, l.clientID, l.httpServerAddress, l.messageBuffer, Lib.toString now⟩
  refine ⟨call, rfl, rfl, ?_⟩
  rw [Sessions.readMessage, if_pos rfl]
  constructor
  · exact List.rel_append h.coroutines (.cons (.spawned call) .nil)
  · intro e he
    rcases List.mem_append.mp he with hold | hnew
    · exact hlisten.listeners e hold
    · rw [List.mem_singleton.mp hnew]
      exact ⟨_, Function.update_self .., rfl, rfl⟩
  · exact h.scheduled

theorem serves_simulates (B : Beast) :
    Simulates (Sessions.step B) (CallService.step (Message.request B)) (Serves B) Shows := by
  intro m v e m' h hs
  cases e with
  | opened s clientID host port =>
      simp only [Sessions.step] at hs
      split at hs
      · rename_i hnew
        cases hs
        refine ⟨[], v, rfl, rfl, h.setListener ?_⟩
        intro l hl
        rw [hnew] at hl
        cases hl
      · cases hs
  | readMessage s data now =>
      obtain ⟨l, hl, rfl⟩ := Option.map_eq_some_iff.mp hs
      by_cases hdata : data = []
      · subst hdata
        obtain ⟨call, hsock, ht, hserves⟩ := h.complete hl now
        refine ⟨[.accept call], _, ?_, rfl, hserves⟩
        rw [Shows, if_pos rfl]
        exact ⟨call, hsock, ht, rfl⟩
      · refine ⟨[], v, ?_, rfl, ?_⟩
        · rw [Shows, if_neg hdata]
        · rw [Sessions.readMessage, if_neg hdata]
          refine h.setListener fun l₁ hl₁ => ?_
          obtain rfl := Option.some.inj (hl.symm.trans hl₁)
          exact ⟨rfl, rfl⟩
  | onPing s | onPong s | onClose s =>
      obtain ⟨l, -, rfl⟩ := Option.map_eq_some_iff.mp hs
      exact ⟨[], v, rfl, rfl, h⟩
  | start k order draw =>
      obtain ⟨co, l, l', co', hco, hl, hstart, rfl⟩ := step_start hs
      obtain ⟨e, he, himp⟩ := forall₂_getElem? h.coroutines hco
      rw [himp.call.1] at hl
      obtain ⟨hlisten, hgoes⟩ := himp.start (h.listener_eq he hl).1 hstart
      have hset : Serves B (m.setListener e.call.socket l') v := by
        refine h.setListener fun l₁ hl₁ => ?_
        obtain rfl := Option.some.inj (hl.symm.trans hl₁)
        exact hlisten
      rw [himp.call.1]
      rcases hgoes with hsame | ⟨hwaiting, hnext⟩
      · exact ⟨[], v, .inl rfl, rfl, hset.stutter he hsame⟩
      · have hentry : v.entries[k]? = some ⟨e.call, e.forwarded, .waiting⟩ := by
          rw [he, ← hwaiting]
        refine ⟨[.settle k none], _, .inr rfl, ?_, hset.set he hnext rfl⟩
        rw [exec_cons, CallService.step_settle hentry (by simp)]
        rfl
  | resume k outcome =>
      obtain ⟨co, l, co', hco, hl, hresume, rfl⟩ := step_resume hs
      obtain ⟨e, he, himp⟩ := forall₂_getElem? h.coroutines hco
      rw [himp.call.1] at hl
      rcases himp.resume (h.listener_eq he hl).2 hresume with hsame |
        ⟨order, req, hwaiting, hreq, hnext⟩ | ⟨hwaiting, hresult, hnext⟩
      · exact ⟨[], v, .inl rfl, rfl, h.stutter he hsame⟩
      · rw [hwaiting] at he
        refine ⟨[.forward k order], _, .inr (.inl ⟨order, rfl⟩), ?_, h.set he hnext rfl⟩
        rw [exec_cons, CallService.step_forward he hreq]
        rfl
      · have hentry : v.entries[k]? = some ⟨e.call, e.forwarded, .waiting⟩ := by
          rw [he, ← hwaiting]
        refine ⟨[.settle k outcome.read?], _, .inr (.inr rfl), ?_, h.set he hnext rfl⟩
        rw [exec_cons, CallService.step_settle hentry hresult]
        rfl
  | handle k =>
      obtain ⟨co, text, hco, hphase, hhandled, rfl⟩ := step_handle hs
      obtain ⟨e, he, himp⟩ := forall₂_getElem? h.coroutines hco
      cases himp with
      | returned call forwarded result =>
          cases hphase
          refine ⟨[.answer k], { v.set k ⟨call, forwarded, .answered result⟩ with
            answers := v.answers ++ [(k, result)] }, rfl, ?_, ?_⟩
          · rw [exec_cons, CallService.step_answer he]
            rfl
          · have hserves := h.set he (.handled call forwarded result) rfl
            refine ⟨hserves.coroutines, hserves.listeners, ?_⟩
            rw [completionHandler_answer, List.map_append, List.map_append, h.scheduled]
            rfl
      | spawned | resolving | connecting | writing | reading => cases hphase
      | handled => cases hhandled

/-! ## Every run -/

/-- The response that was read, if one was, can be printed. -/
def Event.Printable : Event → Prop
  | .resume _ (.response res) => res.Printable
  | _ => True

/-- The results that the service is seen to settle are responses that were read. -/
theorem Shows.settles {e : Event} (he : e.Printable)
    {fs : List (CallService.Event Message Response HashOrder)} (h : Shows e fs) :
    ∀ f ∈ fs, f.Settles Response.Printable := by
  intro f hf
  cases e with
  | readMessage s data now =>
      simp only [Shows] at h
      split at h
      · obtain ⟨call, -, -, rfl⟩ := h
        rw [List.mem_singleton.mp hf]
        trivial
      · subst h
        cases hf
  | start k order draw =>
      rcases h with rfl | rfl
      · cases hf
      · rw [List.mem_singleton.mp hf]
        trivial
  | resume k outcome =>
      rcases h with rfl | ⟨order, rfl⟩ | rfl
      · cases hf
      · rw [List.mem_singleton.mp hf]
        trivial
      · rw [List.mem_singleton.mp hf]
        cases outcome with
        | response res => exact he
        | done | failed | thrown => trivial
  | handle k =>
      obtain rfl : fs = [.answer k] := h
      rw [List.mem_singleton.mp hf]
      trivial
  | opened | onPing | onPong | onClose =>
      obtain rfl : fs = [] := h
      cases hf

theorem decodeResponse_answer {result : Option Response}
    (h : ∀ res, result = some res → res.Printable) : decodeResponse (answer result) = result := by
  cases result with
  | none => decide
  | some res => exact decodeResponse_build (h res rfl)

/-- Every run of the sessions is a run of the call service with a call for each complete
message, of the client that its socket was opened for. The requests written are those
that the service forwards, and what the clients decode from the frames are its answers,
if the responses of the backend can be printed. -/
theorem sessions_refine_calls {B : Beast} {es : List Event} {m : Sessions}
    (h : exec (Sessions.step B) .initial es = some m) (hprint : ∀ e ∈ es, e.Printable) :
    ∃ fss v, List.Forall₂ Shows es fss ∧
      exec (CallService.step (Message.request B)) .initial fss.flatten = some v ∧
      v.Sound (Message.request B) ∧
      v.entries.map (fun e => (e.call.socket, e.call.msg)) = completeMessages es.reverse ∧
      (∀ e ∈ v.entries, openedFor e.call.socket es.reverse = some e.call.clientID) ∧
      m.coroutines.map Coroutine.written = v.entries.map (fun e => e.forwarded.toList) ∧
      m.scheduled.map (fun f => (f.coroutine, decodeResponse f.payload)) = v.answers := by
  have hinv := inv_exec h
  obtain ⟨fss, v, hshows, hrun, hserves⟩ := (serves_simulates B).exec (.initial B) h
  have hsettles : ∀ f ∈ fss.flatten, f.Settles Response.Printable := by
    intro f hf
    obtain ⟨fs, hfs, hffs⟩ := List.mem_flatten.mp hf
    obtain ⟨k, hk⟩ := List.mem_iff_getElem?.mp hfs
    obtain ⟨e, he, hshow⟩ := forall₂_getElem? hshows.flip hk
    exact Shows.settles (hprint e (List.mem_of_getElem? he)) hshow f hffs
  refine ⟨fss, v, hshows, hrun, CallService.sound_exec hrun, ?_, ?_, ?_, ?_⟩
  · rw [← hinv.messages]
    refine (forall₂_map_eq hserves.coroutines fun co e himp => ?_).symm
    rw [himp.call.1, himp.call.2.1]
  · intro e he
    obtain ⟨l, hl, hid, -⟩ := hserves.listeners e he
    rw [← hid]
    exact hinv.clientID_eq hl
  · exact forall₂_map_eq hserves.coroutines fun co e himp => himp.call.2.2
  · have hdecode : m.scheduled.map (fun f => (f.coroutine, decodeResponse f.payload)) =
        (m.scheduled.map fun f => (f.coroutine, f.payload)).map
          fun f => (f.1, decodeResponse f.2) := by
      rw [List.map_map]
      rfl
    have hread : ∀ a ∈ v.answers, (a.1, decodeResponse (answer a.2)) = id a := by
      intro a ha
      have hprintable : ∀ res, a.2 = some res → res.Printable := by
        intro res hres
        have hmem : (a.1, some res) ∈ v.answers := by rwa [← hres]
        exact CallService.answered_of_settles hsettles hrun hmem
      rw [decodeResponse_answer hprintable]
      rfl
    rw [hdecode, hserves.scheduled, List.map_map]
    exact (List.map_congr_left hread).trans (List.map_id v.answers)

theorem sessions_refine_calls_answered : ∃ m,
    exec (Sessions.step boostBeast) .initial (answeredRun onResponse) = some m ∧
      ∃ v : Service, v.Sound (Message.request boostBeast) ∧
        v.entries.map (fun e => (e.call.socket, e.call.msg)) = [(0, statusRequest.text)] ∧
        m.scheduled.map (fun f => (f.coroutine, decodeResponse f.payload)) = v.answers := by
  obtain ⟨m, -, -, h, -⟩ := exec_answeredRun onResponse
  have hprint : ∀ e ∈ answeredRun onResponse, e.Printable := by
    have hres : onResponse.Printable := ⟨by decide, fun f hf => by cases hf⟩
    simp only [answeredRun, List.forall_mem_cons, Event.Printable, true_and]
    exact ⟨hres, fun e he => by cases he⟩
  obtain ⟨fss, v, -, -, hsound, hcalls, -, -, hanswers⟩ := sessions_refine_calls h hprint
  refine ⟨m, h, v, hsound, ?_, hanswers⟩
  rw [hcalls]
  simp [answeredRun, completeMessages, pending, statusRequest_text_ne_nil]

end WsGateway.Session
