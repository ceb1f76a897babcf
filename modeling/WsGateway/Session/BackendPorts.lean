import WsGateway.Session.Answers

/-!
# The backend ports

Each request overwrites the last digit of its listener's port with one of 2 to 5. What
stands before that digit never changes, so that the backends of all requests are those
of the first, and they are the configured port and its three successors only if that
port ends in 2.
-/

namespace WsGateway.Session

open Lib Lib.Http Lib.Runs Lib.Stream Http

/-- The event agrees with the configured port, and its draw is in the range of the
distribution. -/
def Event.Configured (port : Bytes) : Event → Prop
  | .opened _ _ _ port' => port' = port
  | .start _ _ draw => 1 ≤ draw ∧ draw ≤ 10 ^ 12
  | _ => True

/-- The run starts a coroutine of the socket that gets as far as resolving `resolved`. -/
def Resolves (B : Beast) (es : List Event) (s : SocketId) (resolved : Bytes) : Prop :=
  ∃ pre k order draw m co req l, pre ++ [.start k order draw] <+: es ∧
    exec (Sessions.step B) .initial (pre ++ [.start k order draw]) = some m ∧
    m.coroutines[k]? = some co ∧ co.socket = s ∧ co.phase = .resolving req ∧
    m.listeners s = some l ∧ l.httpServerPort = resolved

def BackendPort (P : Nat) (resolved : Bytes) : Prop :=
  ∃ n, DecimalOf resolved n ∧ 1 ≤ n ∧ n ≤ 65535 ∧ P ≤ n ∧ n ≤ P + 3

/-- Whatever happens, every request goes to one of the four backends. -/
def KeepsToBackends (port : Bytes) (P : Nat) : Prop :=
  ∀ B es s resolved, (∀ e ∈ es, e.Configured port) → Resolves B es s resolved →
    BackendPort P resolved

/-! ## The port of a listener -/

/-- All but the last byte of every listener's port is that of the configured one. -/
def Sessions.KeepsPort (port : Bytes) (m : Sessions) : Prop :=
  ∀ s l, m.listeners s = some l →
    l.httpServerPort ≠ [] ∧ l.httpServerPort.dropLast = port.dropLast

theorem drawPort_congr {port port' : Bytes} (h : port.dropLast = port'.dropLast) (draw : Nat) :
    drawPort port draw = drawPort port' draw := by
  rw [drawPort, drawPort, h]

theorem start_eq_some {B : Beast} {order : HashOrder} {draw : Nat} {l l' : WebSocketListener}
    {co co' : Coroutine} (h : co.start B order draw l = some (l', co')) :
    l' = { l with httpServerPort := drawPort l.httpServerPort draw } ∧
      co'.socket = co.socket := by
  unfold Coroutine.start at h
  split at h
  · split at h
    · cases h
    · cases h
      exact ⟨rfl, rfl⟩
  · cases h

theorem Sessions.KeepsPort.setListener {port : Bytes} {m : Sessions} (h : m.KeepsPort port)
    (s : SocketId) {l : WebSocketListener}
    (hl : l.httpServerPort ≠ [] ∧ l.httpServerPort.dropLast = port.dropLast) :
    (m.setListener s l).KeepsPort port := by
  intro s' l' hl'
  by_cases hs : s' = s
  · subst hs
    obtain rfl : l = l' := by simpa [Sessions.setListener] using hl'
    exact hl
  · exact h s' l' (by simpa [Sessions.setListener, hs] using hl')

theorem Sessions.KeepsPort.step {B : Beast} {port : Bytes} {m m' : Sessions} {e : Event}
    (h : m.KeepsPort port) (hport : port ≠ []) (he : e.Configured port)
    (hs : m.step B e = some m') : m'.KeepsPort port := by
  cases e with
  | opened s clientID host port' =>
      have hsame : port' = port := he
      simp only [Sessions.step] at hs
      split at hs
      · cases hs
        exact h.setListener s ⟨hsame ▸ hport, by rw [hsame]⟩
      · cases hs
  | readMessage s data now =>
      obtain ⟨l, hl, rfl⟩ := Option.map_eq_some_iff.mp hs
      unfold Sessions.readMessage
      split
      · exact h.setListener s (h s l hl)
      · exact h.setListener s (h s l hl)
  | onPing s | onPong s | onClose s =>
      obtain ⟨l, -, rfl⟩ := Option.map_eq_some_iff.mp hs
      exact h
  | start k order draw =>
      obtain ⟨co, l, l', co', -, hl, hstart, rfl⟩ := step_start hs
      obtain ⟨rfl, -⟩ := start_eq_some hstart
      refine h.setListener co.socket ⟨?_, ?_⟩
      · simp [drawPort]
      · rw [drawPort, List.dropLast_concat]
        exact (h co.socket l hl).2
  | resume k outcome =>
      obtain ⟨co, l, co', -, -, -, rfl⟩ := step_resume hs
      exact h
  | handle k =>
      obtain ⟨co, result, -, -, -, rfl⟩ := step_handle hs
      exact h

theorem keepsPort_exec {B : Beast} {port : Bytes} (hport : port ≠ []) {es : List Event}
    {m : Sessions} (hes : ∀ e ∈ es, e.Configured port)
    (h : exec (Sessions.step B) .initial es = some m) : m.KeepsPort port := by
  refine guarded_invariant (Sessions.KeepsPort port) (fun _ e => e.Configured port) ?_ ?_ ?_ h
  · intro s l hl
    cases hl
  · intro m₁ e m₂ hm he hs
    exact hm.step hport he hs
  · intro m₁ e htakes
    rcases htakes with ⟨pre, hpre, -⟩
    exact hes e (hpre.subset (by simp))

/-- Only the draw of a request decides what it resolves, not the requests before it. -/
theorem resolved_eq_drawPort {B : Beast} {port : Bytes} (hport : port ≠ []) {es : List Event}
    {s : SocketId} {resolved : Bytes} (hes : ∀ e ∈ es, e.Configured port)
    (h : Resolves B es s resolved) :
    ∃ draw, 1 ≤ draw ∧ draw ≤ 10 ^ 12 ∧ resolved = drawPort port draw := by
  rcases h with ⟨pre, k, order, draw, m, co, req, l, hpre, hrun, hco, rfl, -, hl, rfl⟩
  have hdraw : 1 ≤ draw ∧ draw ≤ 10 ^ 12 := hes (.start k order draw) (hpre.subset (by simp))
  refine ⟨draw, hdraw.1, hdraw.2, ?_⟩
  obtain ⟨m₀, hm₀, hstep⟩ := exec_concat_some hrun
  have hkeeps := keepsPort_exec hport
    (fun e he => hes e (hpre.subset (List.mem_append_left _ he))) hm₀
  obtain ⟨co₀, l₀, l', co', hco₀, hl₀, hstart, rfl⟩ := step_start hstep
  obtain ⟨rfl, hsocket⟩ := start_eq_some hstart
  have hk : k < m₀.coroutines.length := (List.getElem?_eq_some_iff.mp hco₀).choose
  obtain rfl : co' = co := by
    simpa [Sessions.setCoroutine, Sessions.setListener, hk] using hco
  rw [hsocket] at hl
  obtain rfl : _ = l := by simpa [Sessions.setCoroutine, Sessions.setListener] using hl
  exact drawPort_congr (hkeeps _ l₀ hl₀).2 draw

/-! ## The number of the port -/

theorem decimalOf_drawPort {port : Bytes} {P : Nat} (h : DecimalOf port P) (draw : Nat) :
    DecimalOf (drawPort port draw) (10 * (P / 10) + draw % 4 + 2) := by
  have hdigits := h.isDigit_of_mem
  rcases h with ⟨hne, -, rfl⟩
  have hdigit := isDigit_iff_toNat.mp (hdigits _ (List.getLast_mem hne))
  have hvalue : digitsValue port / 10 = digitsValue port.dropLast := by
    conv_lhs => rw [← List.dropLast_append_getLast hne, digitsValue_append]
    omega
  have hchar : (48 + draw % 4 + 2).toUInt8 = digitChar (draw % 4 + 2) := by
    rw [digitChar, Nat.add_assoc]
  have hlt : draw % 4 + 2 < 10 := by omega
  refine ⟨by simp [drawPort], ?_, ?_⟩
  · rw [drawPort, hchar, List.all_append, List.all_cons, List.all_nil, Bool.and_true,
      isDigit_digitChar hlt, Bool.and_true]
    exact List.all_eq_true.mpr fun b hb => hdigits b (port.dropLast_subset hb)
  · rw [drawPort, hchar, digitsValue_append, digitChar_toNat hlt, hvalue]
    omega

theorem backendPort_drawPort_iff {port : Bytes} {P : Nat} (h : DecimalOf port P)
    (hP : P ≤ 65532) (hpos : 1 ≤ P) (draw : Nat) :
    BackendPort P (drawPort port draw) ↔ P % 10 ≤ draw % 4 + 2 ∧ draw % 4 + 2 ≤ P % 10 + 3 := by
  have hdrawn := decimalOf_drawPort h draw
  constructor
  · intro hbackend
    rcases hbackend with ⟨n, hn, -, -, hlow, hhigh⟩
    have heq : n = 10 * (P / 10) + draw % 4 + 2 := hn.2.2.symm.trans hdrawn.2.2
    omega
  · intro hwindow
    exact ⟨_, hdrawn, by omega, by omega, by omega, by omega⟩

/-! ## Every run -/

def drawnRun (port : Bytes) (draw : Nat) : List Event :=
  [.opened 0 (ascii "VIN1") (ascii "backend") port, .readMessage 0 statusRequest.text 4,
    .readMessage 0 [] 5, .start 0 entryOrder draw]

theorem configured_drawnRun {port : Bytes} {draw : Nat} (hlow : 1 ≤ draw)
    (hhigh : draw ≤ 10 ^ 12) : ∀ e ∈ drawnRun port draw, e.Configured port := by
  intro e he
  simp only [drawnRun, List.mem_cons, List.not_mem_nil, or_false] at he
  rcases he with rfl | rfl | rfl | rfl
  · rfl
  · trivial
  · trivial
  · exact ⟨hlow, hhigh⟩

/-- Any draw can be the first, so that every port that a draw gives is resolved. -/
theorem resolves_drawnRun {port : Bytes} (hport : port ≠ []) (draw : Nat) :
    Resolves boostBeast (drawnRun port draw) 0 (drawPort port draw) := by
  obtain ⟨req, -, hreq, -⟩ := @assembled_statusRequest (toString 5) (by decide)
  let l : WebSocketListener := ⟨ascii "VIN1", ascii "backend", port, []⟩
  let m := (Sessions.initial.setListener 0 l).spawn
    ⟨0, statusRequest.text, toString 5, .spawned, [], false⟩
  have hl : (Sessions.initial.setListener 0 l).listeners 0 = some l := rfl
  have hopened : Sessions.initial.step boostBeast
      (.opened 0 (ascii "VIN1") (ascii "backend") port) =
        some (Sessions.initial.setListener 0 l) := rfl
  have hstart := @start_statusRequest (toString 5) req l hreq rfl hport draw
  have hrun : exec (Sessions.step boostBeast) .initial (drawnRun port draw) =
      some ((m.setListener 0 { l with httpServerPort := drawPort port draw }).setCoroutine 0
        ⟨0, statusRequest.text, toString 5, .resolving req, [], false⟩) := by
    rw [drawnRun, exec_cons, hopened, Option.bind_some,
      exec_received boostBeast hl rfl statusRequest_text_ne_nil, exec_cons,
      step_start_some (lookup_spawn (k := 0) hl rfl) hstart, Option.bind_some, exec_nil]
  exact ⟨[.opened 0 (ascii "VIN1") (ascii "backend") port,
    .readMessage 0 statusRequest.text 4, .readMessage 0 [] 5], 0, entryOrder, draw, _, _, req,
    { l with httpServerPort := drawPort port draw }, List.prefix_rfl, hrun, rfl, rfl, rfl, rfl,
    rfl⟩

/-- The requests keep to the four backends from the configured port on, if and only if
the configured port ends in 2. -/
theorem keepsToBackends_iff {port : Bytes} {P : Nat} (h : DecimalOf port P) (hpos : 1 ≤ P)
    (hP : P ≤ 65532) : KeepsToBackends port P ↔ P % 10 = 2 := by
  constructor
  · intro hkeeps
    have hwindow (draw : Nat) (hlow : 1 ≤ draw) (hhigh : draw ≤ 10 ^ 12) :
        P % 10 ≤ draw % 4 + 2 ∧ draw % 4 + 2 ≤ P % 10 + 3 :=
      (backendPort_drawPort_iff h hP hpos draw).mp
        (hkeeps _ _ _ _ (configured_drawnRun hlow hhigh) (resolves_drawnRun h.1 draw))
    -- the draws 4 and 3 give the digits 2 and 5
    have hleast := hwindow 4 (by omega) (by omega)
    have hgreatest := hwindow 3 (by omega) (by omega)
    omega
  · intro hdigit B es s resolved hes hresolves
    obtain ⟨draw, -, -, rfl⟩ := resolved_eq_drawPort h.1 hes hresolves
    exact (backendPort_drawPort_iff h hP hpos draw).mpr (by omega)

theorem keepsToBackends_8082 : DecimalOf (ascii "8082") 8082 ∧
    KeepsToBackends (ascii "8082") 8082 := by
  have h : DecimalOf (ascii "8082") 8082 := by decide
  exact ⟨h, (keepsToBackends_iff h (by omega) (by omega)).mpr rfl⟩

theorem resolves_8085 :
    DecimalOf (ascii "8080") 8080 ∧
    (∀ e ∈ drawnRun (ascii "8080") 3, e.Configured (ascii "8080")) ∧
    Resolves boostBeast (drawnRun (ascii "8080") 3) 0 (ascii "8085") ∧
    ¬ BackendPort 8080 (ascii "8085") ∧ ¬ KeepsToBackends (ascii "8080") 8080 := by
  have h : DecimalOf (ascii "8080") 8080 := by decide
  have hes : ∀ e ∈ drawnRun (ascii "8080") 3, e.Configured (ascii "8080") :=
    configured_drawnRun (by omega) (by omega)
  have hresolves : Resolves boostBeast (drawnRun (ascii "8080") 3) 0 (ascii "8085") :=
    resolves_drawnRun h.1 3
  have hmiss : ¬ BackendPort 8080 (ascii "8085") := by
    intro hbackend
    have hwindow := (backendPort_drawPort_iff h (by omega) (by omega) 3).mp hbackend
    omega
  exact ⟨h, hes, hresolves, hmiss, fun hkeeps => hmiss (hkeeps _ _ _ _ hes hresolves)⟩

end WsGateway.Session
