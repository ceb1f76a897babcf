import WsGateway.Lib.Simulation
import WsGateway.Startup.Settings
import WsGateway.Session.BackendPorts

/-!
# Every message gets its answer

Once a message is complete, only its coroutine has to run. It waits for no other
one, each of its steps brings it nearer to its end, and there are at most six of
them, whatever the awaited operations end with. When no coroutine can go on, every
message has been answered.
-/

namespace WsGateway.Session

open Lib Lib.Runs Lib.Stream Http Startup

def Event.coroutine? : Event → Option Nat
  | .start k _ _ | .resume k _ | .handle k => some k
  | _ => none

/-- A step of a coroutine, with a draw of the distribution. -/
def Event.Runs (port : Bytes) (e : Event) : Prop :=
  e.coroutine?.isSome ∧ e.Configured port

/-- No coroutine can make a step. -/
def Sessions.Quiet (B : Beast) (port : Bytes) (m : Sessions) : Prop :=
  ∀ e : Event, e.Runs port → m.step B e = none

/-! ## The steps that are left -/

/-- The steps that a coroutine has at most before it, its handler included. -/
def Coroutine.weight (co : Coroutine) : Nat :=
  match co.phase with
  | .spawned => 6
  | .resolving _ => 5
  | .connecting _ => 4
  | .writing => 3
  | .reading => 2
  | .returned _ => if co.handled then 0 else 1

def Sessions.weight (m : Sessions) : Nat := (m.coroutines.map Coroutine.weight).sum

theorem Coroutine.weight_le (co : Coroutine) : co.weight ≤ 6 := by
  unfold Coroutine.weight
  split
  case h_6 => split <;> omega
  all_goals omega

theorem Coroutine.weight_returned_le {co : Coroutine} {result : Except StdException Bytes}
    (h : co.phase = .returned result) : co.weight ≤ 1 := by
  rw [Coroutine.weight, h]
  dsimp only
  split <;> omega

theorem Sessions.weight_le (m : Sessions) : m.weight ≤ 6 * m.coroutines.length := by
  have hsum := List.sum_le_card_nsmul (m.coroutines.map Coroutine.weight) 6 (by
    intro w hw
    obtain ⟨co, -, rfl⟩ := List.mem_map.mp hw
    exact co.weight_le)
  rw [List.length_map, smul_eq_mul] at hsum
  rw [Sessions.weight]
  omega

theorem Coroutine.start_weight {B : Beast} {order : HashOrder} {draw : Nat}
    {l l' : WebSocketListener} {co co' : Coroutine}
    (h : co.start B order draw l = some (l', co')) : co'.weight < co.weight := by
  unfold Coroutine.start at h
  split at h
  · rename_i hphase
    have hsix : co.weight = 6 := by rw [Coroutine.weight, hphase]
    split at h
    · cases h
    · cases h
      cases hreq : assembleRequest B order co.msg l.clientID co.t with
      | ok req =>
          rw [hsix]
          show 5 < 6
          omega
      | error _ =>
          refine Nat.lt_of_le_of_lt (Coroutine.weight_returned_le rfl) ?_
          omega
  · cases h

theorem Coroutine.resume_weight {B : Beast} {l : WebSocketListener} {co co' : Coroutine}
    {outcome : Outcome} (h : co.resume B l outcome = some co') : co'.weight < co.weight := by
  unfold Coroutine.resume at h
  split at h
  all_goals rename_i hphase
  · cases h
    simp [Coroutine.weight, hphase]
  · split at h
    · cases h
      simp [Coroutine.weight, hphase]
    · cases h
      refine Nat.lt_of_le_of_lt (Coroutine.weight_returned_le rfl) ?_
      simp [Coroutine.weight, hphase]
  · cases h
    simp [Coroutine.weight, hphase]
  -- the response, and the eight ways to end with an error
  iterate 9
    · cases h
      refine Nat.lt_of_le_of_lt (Coroutine.weight_returned_le rfl) ?_
      simp [Coroutine.weight, hphase]
  · cases h

theorem step_weight {B : Beast} {m m' : Sessions} {e : Event} (he : e.coroutine?.isSome)
    (hs : m.step B e = some m') : m'.weight < m.weight := by
  cases e with
  | opened | readMessage | onPing | onPong | onClose => cases he
  | start k order draw =>
      obtain ⟨co, l, l', co', hco, -, hstart, rfl⟩ := step_start hs
      exact sum_map_set_lt hco (Coroutine.start_weight hstart)
  | resume k outcome =>
      obtain ⟨co, l, co', hco, -, hresume, rfl⟩ := step_resume hs
      exact sum_map_set_lt hco (Coroutine.resume_weight hresume)
  | handle k =>
      obtain ⟨co, result, hco, hphase, hhandled, rfl⟩ := step_handle hs
      refine sum_map_set_lt hco ?_
      simp [Coroutine.weight, hhandled, hphase]

/-! ## No coroutine waits for another one -/

theorem exists_step {B : Beast} {port : Bytes} {es : List Event} {m : Sessions} (h : Inv B es m)
    (hport : m.KeepsPort port) {k : Nat} {co : Coroutine} (hco : m.coroutines[k]? = some co)
    (hhandled : co.handled = false) :
    ∃ e : Event, e.coroutine? = some k ∧ e.Configured port ∧ (m.step B e).isSome := by
  obtain ⟨clientID, hopen, htracked⟩ := h.tracked k co hco
  obtain ⟨l, hl⟩ : ∃ l, m.listeners co.socket = some l := by
    have hclient := h.clients co.socket
    rw [hopen] at hclient
    obtain ⟨l, hl, -⟩ := Option.map_eq_some_iff.mp hclient
    exact ⟨l, hl⟩
  have hlookup : m.lookup k = some (co, l) := lookup_eq_some.mpr ⟨hco, hl⟩
  cases hphase : co.phase with
  | spawned =>
      refine ⟨.start k entryOrder 1, rfl, by simp [Event.Configured], ?_⟩
      simp [Sessions.step, hlookup, Coroutine.start, hphase, (hport co.socket l hl).1]
  | resolving | connecting | writing | reading =>
      refine ⟨.resume k .failed, rfl, trivial, ?_⟩
      simp [Sessions.step, hlookup, Coroutine.resume, hphase]
  | returned result =>
      refine ⟨.handle k, rfl, trivial, ?_⟩
      simp [Sessions.step, hco, hphase, hhandled]

/-! ## What the coroutines leave alone -/

theorem completeMessages_runs {fs : List Event} (hfs : ∀ e ∈ fs, e.coroutine?.isSome)
    (es : List Event) : completeMessages (fs ++ es) = completeMessages es := by
  induction fs with
  | nil => rfl
  | cons e fs ih =>
      have hrest := ih fun f hf => hfs f (List.mem_cons_of_mem e hf)
      have he := hfs e List.mem_cons_self
      cases e with
      | opened | readMessage | onPing | onPong | onClose => cases he
      | start | resume | handle => exact hrest

theorem Inv.getElem?_messages {es : List Event} {m : Sessions} (h : Inv B es m) {k : Nat}
    {s : SocketId} {msg : Bytes} (hk : (completeMessages es)[k]? = some (s, msg)) :
    ∃ co : Coroutine, m.coroutines[k]? = some co ∧ co.socket = s := by
  rw [← h.messages, List.getElem?_map] at hk
  obtain ⟨co, hco, heq⟩ := Option.map_eq_some_iff.mp hk
  exact ⟨co, hco, congrArg Prod.fst heq⟩

/-! ## Every run -/

theorem Sessions.Quiet.framesOf {B : Beast} {port : Bytes} {es : List Event} {m : Sessions}
    (hquiet : m.Quiet B port) (h : Inv B es m) (hport : m.KeepsPort port) {k : Nat} {s : SocketId}
    {msg : Bytes} (hk : (completeMessages es)[k]? = some (s, msg)) :
    m.framesOf k = [⟨k, s, answer (responseRead k es)⟩] := by
  obtain ⟨co, hco, rfl⟩ := h.getElem?_messages hk
  rcases h.framesOf_message hco with ⟨hhandled, -⟩ | ⟨-, hframes⟩
  · obtain ⟨e, hcoroutine, hconf, hsome⟩ := @exists_step B port es m h hport k co hco hhandled
    have hnone : m.step B e = none := hquiet e ⟨by rw [hcoroutine]; rfl, hconf⟩
    rw [hnone] at hsome
    cases hsome
  · exact hframes

/-- A configuration has a backend port: the variable if it is set and not empty, or else
the default. -/
theorem httpRequestPort_ne_nil (env : Environment) (host : Option Bytes) :
    (Config.ofEnv env host).httpRequestPort ≠ [] := by
  have hdefault : ascii "8082" ≠ [] := by decide
  show getEnvString env (ascii "WSS_HTTP_REQUEST_PORT") (ascii "8082") ≠ []
  unfold getEnvString
  split
  · exact hdefault
  · split
    · exact hdefault
    · assumption

/-- The coroutines of a gateway with any configuration, from any state that it reaches.
While a message has no frame its own coroutine can make a step. The coroutines make at
most six steps for each message, so that they come to rest; and where they have, every
message has exactly one frame, on its socket, with the response that was read for it or
the error text. -/
theorem coroutines_come_to_rest {B : Beast} {env : Environment} {host : Option Bytes}
    {port : Bytes} (hport : port = (Config.ofEnv env host).httpRequestPort) {es : List Event}
    {m : Sessions} (hes : ∀ e ∈ es, e.Configured port)
    (h : exec (Sessions.step B) .initial es = some m) :
    (∀ k s msg, (completeMessages es.reverse)[k]? = some (s, msg) → m.framesOf k = [] →
      ∃ e : Event, e.coroutine? = some k ∧ e.Configured port ∧ (m.step B e).isSome) ∧
    (∀ fs m', (∀ e ∈ fs, e.Runs port) → exec (Sessions.step B) m fs = some m' →
      fs.length ≤ 6 * (completeMessages es.reverse).length ∧
      (m'.Quiet B port → ∀ k s msg, (completeMessages es.reverse)[k]? = some (s, msg) →
        m'.framesOf k = [⟨k, s, answer (responseRead k (es ++ fs).reverse)⟩])) ∧
    (∃ fs m', (∀ e ∈ fs, e.Runs port) ∧ exec (Sessions.step B) m fs = some m' ∧
      m'.Quiet B port) := by
  classical
  have hne : port ≠ [] := hport ▸ httpRequestPort_ne_nil env host
  have hinv := inv_exec h
  have hkeeps := keepsPort_exec hne hes h
  have hdec (m : Sessions) (e : Event) (m' : Sessions)
      (hs : restrict (Sessions.step B) (Event.Runs port) m e = some m') :
      m'.weight < m.weight := by
    unfold restrict at hs
    split at hs
    · rename_i he
      exact step_weight he.1 hs
    · cases hs
  refine ⟨?_, ?_, ?_⟩
  · intro k s msg hk hnil
    obtain ⟨co, hco, -⟩ := hinv.getElem?_messages hk
    rcases hinv.framesOf_message hco with ⟨hhandled, -⟩ | ⟨-, hframes⟩
    · exact exists_step hinv hkeeps hco hhandled
    · rw [hnil] at hframes
      cases hframes
  · intro fs m' hfs hrun
    constructor
    · have hrestrict := (exec_restrict (Event.Runs port) m hfs).trans hrun
      have hlength := exec_length_le Sessions.weight hdec hrestrict
      have hweight := m.weight_le
      have hcount : m.coroutines.length = (completeMessages es.reverse).length := by
        rw [← hinv.messages, List.length_map]
      omega
    · intro hquiet k s msg hk
      have hwhole : exec (Sessions.step B) .initial (es ++ fs) = some m' := by
        rw [exec_append, h]
        exact hrun
      have hall : ∀ e ∈ es ++ fs, e.Configured port := by
        intro e he
        rcases List.mem_append.mp he with he | he
        · exact hes e he
        · exact (hfs e he).2
      have hmessages : completeMessages (es ++ fs).reverse = completeMessages es.reverse := by
        rw [List.reverse_append]
        exact completeMessages_runs (fun e he => (hfs e (List.mem_reverse.mp he)).1) _
      rw [← hmessages] at hk
      exact hquiet.framesOf (inv_exec hwhole) (keepsPort_exec hne hall hwhole) hk
  · obtain ⟨fs, m', hrestrict, hfinal⟩ := exists_final_run Sessions.weight hdec m
    obtain ⟨hfs, hrun⟩ := of_exec_restrict hrestrict
    exact ⟨fs, m', hfs, hrun, fun e he => (if_pos he).symm.trans (hfinal e)⟩

def overlappingMessages : List Event :=
  [openedVehicle, .readMessage 0 (ascii "GET") 1, .readMessage 0 [] 2, .start 0 entryOrder 3,
    .readMessage 0 (ascii "PUT") 4, .readMessage 0 [] 5]

/-- They can be brought to rest, and both are answered then. -/
theorem coroutines_come_to_rest_two :
    (∀ e ∈ overlappingMessages, e.Configured (ascii "8082")) ∧
    ∃ m fs m', exec (Sessions.step boostBeast) .initial overlappingMessages = some m ∧
      exec (Sessions.step boostBeast) m fs = some m' ∧ fs.length ≤ 12 ∧
      ∃ r₀ r₁ : Option Response, m'.framesOf 0 = [⟨0, 0, answer r₀⟩] ∧
        m'.framesOf 1 = [⟨1, 0, answer r₁⟩] := by
  have hes : ∀ e ∈ overlappingMessages, e.Configured (ascii "8082") := by
    simp [overlappingMessages, openedVehicle, Event.Configured]
  refine ⟨hes, ?_⟩
  obtain ⟨m, hm⟩ : ∃ m,
      exec (Sessions.step boostBeast) .initial overlappingMessages = some m := ⟨_, rfl⟩
  obtain ⟨-, hruns, fs, m', hfs, hrun, hquiet⟩ :=
    @coroutines_come_to_rest boostBeast (fun _ => none) none (ascii "8082") rfl
      overlappingMessages m hes hm
  obtain ⟨hlength, hframes⟩ := hruns fs m' hfs hrun
  exact ⟨m, fs, m', hm, hrun, hlength, _, _, hframes hquiet 0 0 _ rfl, hframes hquiet 1 0 _ rfl⟩

end WsGateway.Session
