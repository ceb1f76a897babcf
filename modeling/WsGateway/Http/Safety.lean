import WsGateway.Lib.Runs
import WsGateway.Http.Scan

/-!
# What the parser throws

The header loop turn by turn, with the arguments of its `substr` calls as the code
computes them. Where they wrap around they are in range all the same, so that the loop
ends without an exception on every message; only the declared length can raise one.
-/

namespace WsGateway.Http

open Lib Lib.Http Lib.Runs Lib.Stream

/-! ## The calls of `substr` -/

/-- `a + b` of type `size_t`. -/
def sizeAdd (a b : Nat) : Nat := (a + b) % 2 ^ 64

structure SubstrCall where
  text : Bytes
  pos : Nat
  count : Nat

def SubstrCall.result (call : SubstrCall) : Except StdException Bytes :=
  substr call.text call.pos call.count

/-- `headerLine.find(": ")`. -/
def delimiterPosOf (headerLine : Bytes) : Nat := (find delimiter headerLine).getD npos

/-- `headerLine.substr(0, delimiterPos)`. -/
def nameCall (headerLine : Bytes) : SubstrCall := ⟨headerLine, 0, delimiterPosOf headerLine⟩

/-- `headerLine.substr(delimiterPos + 2, headerLine.size() - (delimiterPos + 2) - 1)`. -/
def valueCall (headerLine : Bytes) : SubstrCall :=
  let start := sizeAdd (delimiterPosOf headerLine) 2
  ⟨headerLine, start, sizeSub (sizeSub headerLine.length start) 1⟩

theorem nameCall_result (headerLine : Bytes) :
    (nameCall headerLine).result = .ok (entryOfLine headerLine).1 := headerName_eq headerLine

/-- A position that wraps around is the one behind `npos`, or the line is too long. -/
theorem valueCall_pos {headerLine : Bytes}
    (h : find delimiter headerLine = none ∨ headerLine.length < 2 ^ 31) :
    (valueCall headerLine).pos = valueStart (find delimiter headerLine) := by
  show sizeAdd ((find delimiter headerLine).getD npos) 2 = _
  cases hfind : find delimiter headerLine with
  | none => rfl
  | some n =>
      have hle := find_le hfind
      have hshort : headerLine.length < 2 ^ 31 := h.resolve_left (by simp [hfind])
      show (n + 2) % 2 ^ 64 = n + 2
      omega

theorem valueCall_result {headerLine : Bytes} (hne : headerLine ≠ [])
    (h : find delimiter headerLine = none ∨ headerLine.length < 2 ^ 31) :
    (valueCall headerLine).result = .ok (entryOfLine headerLine).2 := by
  have hpos := valueCall_pos h
  rw [← headerValue_eq hne, headerValue, ← hpos]
  rfl

/-- Behind `npos` the value begins at 1, and the line is not empty. -/
theorem valueCall_pos_le {headerLine : Bytes} (hne : headerLine ≠ [])
    (h : headerLine.length < 2 ^ 31) : (valueCall headerLine).pos ≤ headerLine.length := by
  rw [valueCall_pos (.inr h)]
  cases hfind : find delimiter headerLine with
  | none => exact List.length_pos_of_ne_nil hne
  | some n => exact find_le hfind

/-! ## The loop turn by turn -/

structure LoopState where
  mycount : Nat
  headers : Headers
  stream : IStream

/-- The line that the loop goes on with, and the stream behind it. -/
def LoopState.next? (s : LoopState) : Option (Bytes × IStream) :=
  match s.stream.getline with
  | (none, _) => none
  | (some headerLine, stream) =>
      if EndsHeaders s.mycount headerLine then none else some (headerLine, stream)

def LoopState.turn (s : LoopState) (headerLine : Bytes) (stream : IStream) :
    Except StdException LoopState := do
  let name ← (nameCall headerLine).result
  let value ← (valueCall headerLine).result
  return ⟨s.mycount + 1, s.headers.tryEmplace name value, stream⟩

/-- A turn with this line that does not throw. -/
def LoopState.step (s : LoopState) (headerLine : Bytes) : Option LoopState :=
  match s.next? with
  | none => none
  | some (line, stream) => if line = headerLine then (s.turn line stream).toOption else none

def LoopState.headerLoop (s : LoopState) : Except StdException (Headers × IStream) :=
  Http.headerLoop s.mycount s.headers s.stream

theorem LoopState.next?_eq_some {s : LoopState} {headerLine : Bytes} {stream : IStream} :
    s.next? = some (headerLine, stream) ↔
      s.stream.getline = (some headerLine, stream) ∧ ¬ EndsHeaders s.mycount headerLine := by
  unfold LoopState.next?
  split
  · rename_i hline
    simp [hline]
  · rename_i line stream' hline
    rw [hline]
    by_cases hend : EndsHeaders s.mycount line
    · rw [if_pos hend]
      simp only [Prod.mk.injEq, Option.some.injEq, reduceCtorEq, false_iff]
      intro h
      rw [← h.1.1] at h
      exact h.2 hend
    · rw [if_neg hend]
      simp only [Prod.mk.injEq, Option.some.injEq]
      constructor
      · intro h
        exact ⟨h, h.1 ▸ hend⟩
      · intro h
        exact h.1

theorem turn_eq (s : LoopState) {headerLine : Bytes} (hne : headerLine ≠ [])
    (h : find delimiter headerLine = none ∨ headerLine.length < 2 ^ 31) (stream : IStream) :
    s.turn headerLine stream = .ok ⟨s.mycount + 1,
      s.headers.tryEmplace (entryOfLine headerLine).1 (entryOfLine headerLine).2, stream⟩ := by
  rw [LoopState.turn, nameCall_result, valueCall_result hne h]
  rfl

theorem turn_stream {s s' : LoopState} {headerLine : Bytes} {stream : IStream}
    (h : s.turn headerLine stream = .ok s') :
    s'.stream = stream ∧ s'.mycount = s.mycount + 1 := by
  rw [LoopState.turn, nameCall_result] at h
  cases hvalue : (valueCall headerLine).result with
  | error e =>
      rw [hvalue] at h
      cases h
  | ok value =>
      rw [hvalue] at h
      cases h
      exact ⟨rfl, rfl⟩

theorem step_eq_some {s s' : LoopState} {headerLine : Bytes}
    (h : s.step headerLine = some s') :
    ∃ stream, s.next? = some (headerLine, stream) ∧ s.turn headerLine stream = .ok s' := by
  unfold LoopState.step at h
  split at h
  · cases h
  · rename_i line stream hnext
    split at h
    · rename_i hline
      subst hline
      cases hturn : s.turn line stream with
      | error e =>
          rw [hturn] at h
          cases h
      | ok t =>
          rw [hturn] at h
          cases h
          exact ⟨stream, hnext, hturn⟩
    · cases h

theorem step_of_turn {s s' : LoopState} {headerLine : Bytes} {stream : IStream}
    (hnext : s.next? = some (headerLine, stream)) (h : s.turn headerLine stream = .ok s') :
    s.step headerLine = some s' := by
  unfold LoopState.step
  rw [hnext]
  dsimp only
  rw [if_pos rfl, h]
  rfl

theorem step_length_lt (s : LoopState) (headerLine : Bytes) (s' : LoopState)
    (h : s.step headerLine = some s') : s'.stream.rest.length < s.stream.rest.length := by
  obtain ⟨stream, hnext, hturn⟩ := step_eq_some h
  rw [(turn_stream hturn).1]
  exact getline_length_lt (LoopState.next?_eq_some.mp hnext).1

/-! ## The turns are the loop -/

theorem headerLoop_final {s : LoopState} (h : s.next? = none) :
    s.headerLoop = .ok (s.headers, s.stream.getline.2) := by
  have hread : readHeaders s.mycount s.stream = ([], s.stream.getline.2) := by
    unfold LoopState.next? at h
    split at h
    · rename_i stream hline
      rw [readHeaders_none hline, hline]
    · rename_i line stream hline
      split at h
      · rename_i hend
        rw [readHeaders_some hline, if_pos hend, hline]
      · cases h
  rw [LoopState.headerLoop, headerLoop_eq, hread]
  rfl

theorem headerLoop_turn {s s' : LoopState} {headerLine : Bytes} {stream : IStream}
    (hnext : s.next? = some (headerLine, stream)) (h : headerLine.length < 2 ^ 31)
    (hturn : s.turn headerLine stream = .ok s') : s.headerLoop = s'.headerLoop := by
  obtain ⟨hline, hgo⟩ := LoopState.next?_eq_some.mp hnext
  have hne : headerLine ≠ [] := fun hnil => hgo (.inl hnil)
  rw [turn_eq s hne (.inr h), Except.ok.injEq] at hturn
  subst hturn
  rw [LoopState.headerLoop, headerLoop_eq, readHeaders_some hline, if_neg hgo,
    LoopState.headerLoop, headerLoop_eq]
  rfl

/-! ## Every run of the loop -/

def loopStart (buffer : Bytes) : LoopState :=
  ⟨0, ∅, (IStream.ofString buffer).extract.2.extract.2.extract.2.getline.2⟩

theorem loopStart_length_le (buffer : Bytes) :
    (loopStart buffer).stream.rest.length ≤ buffer.length :=
  (((getline_suffix _).trans (extract_suffix _)).trans
    ((extract_suffix _).trans (extract_suffix _))).length_le

theorem mycount_exec {start s : LoopState} {lines : List Bytes}
    (h : exec LoopState.step start lines = some s) :
    s.mycount = start.mycount + lines.length := by
  refine trace_invariant (fun lines s => s.mycount = start.mycount + lines.length) rfl ?_ h
  intro lines s headerLine s' hcount hstep
  obtain ⟨stream, -, hturn⟩ := step_eq_some hstep
  rw [List.length_append, List.length_singleton, (turn_stream hturn).2, hcount]
  omega

/-- After each turn the rest of the loop is still to come. -/
theorem headerLoop_exec {start s : LoopState} {lines : List Bytes}
    (hlength : start.stream.rest.length < 2 ^ 31)
    (h : exec LoopState.step start lines = some s) :
    s.headerLoop = start.headerLoop ∧
      lines.length + s.stream.rest.length ≤ start.stream.rest.length := by
  have hinv : s.headerLoop = start.headerLoop ∧ s.stream.rest.length < 2 ^ 31 := by
    refine trace_invariant (fun _ s => s.headerLoop = start.headerLoop ∧
      s.stream.rest.length < 2 ^ 31) ⟨rfl, hlength⟩ ?_ h
    intro lines s headerLine s' hinv hstep
    rcases hinv with ⟨hloop, hshort⟩
    have hlt := step_length_lt s headerLine s' hstep
    obtain ⟨stream, hnext, hturn⟩ := step_eq_some hstep
    have hline := getline_length_le (LoopState.next?_eq_some.mp hnext).1
    exact ⟨(headerLoop_turn hnext (by omega) hturn).symm.trans hloop, by omega⟩
  exact ⟨hinv.1, exec_length_le (fun s : LoopState => s.stream.rest.length) step_length_lt h⟩

theorem turn_in_range {s : LoopState} (hlength : s.stream.rest.length < 2 ^ 31)
    {headerLine : Bytes} {stream : IStream} (h : s.next? = some (headerLine, stream)) :
    (nameCall headerLine).pos ≤ headerLine.length ∧
      (valueCall headerLine).pos ≤ headerLine.length ∧ ∃ s', s.step headerLine = some s' := by
  obtain ⟨hline, hgo⟩ := LoopState.next?_eq_some.mp h
  have hne : headerLine ≠ [] := fun hnil => hgo (.inl hnil)
  have hshort : headerLine.length < 2 ^ 31 := by
    have hle := getline_length_le hline
    omega
  exact ⟨Nat.zero_le _, valueCall_pos_le hne hshort, _,
    step_of_turn h (turn_eq s hne (.inr hshort) stream)⟩

/-! ## The exceptions -/

/-- `stoi` throws `e`, or a negative number is taken for the size of the body. -/
def RejectedLength (value : Bytes) (e : StdException) : Prop :=
  stoi value = .error e ∨ (e = .lengthError ∧ ∃ n, stoi value = .ok n ∧ n < 0)

theorem readBody_eq_error_iff {headers : Headers} {stream : IStream} {e : StdException} :
    readBody headers stream = .error e ↔
      ∃ value, headers.lookup contentLengthKey = some value ∧ RejectedLength value e := by
  unfold readBody RejectedLength
  cases hvalue : headers.lookup contentLengthKey with
  | none => simp
  | some value =>
      cases hstoi : stoi value with
      | error e' => simp [hstoi, bind, Except.bind]
      | ok n =>
          by_cases hn : n < 0
          · simp [hstoi, hn, bind, Except.bind, eq_comm]
          · simp [hstoi, hn, bind, Except.bind]

theorem createRequestFromBuffer_eq_error_iff {buffer : Bytes} {headers : Headers}
    {stream : IStream} (h : (loopStart buffer).headerLoop = .ok (headers, stream))
    (e : StdException) : createRequestFromBuffer buffer = .error e ↔
      ∃ value, headers.lookup contentLengthKey = some value ∧ RejectedLength value e := by
  have hloop : Http.headerLoop 0 ∅
      (IStream.ofString buffer).extract.2.extract.2.extract.2.getline.2 =
        .ok (headers, stream) := h
  rw [← @readBody_eq_error_iff headers stream]
  unfold createRequestFromBuffer
  simp only [hloop, bind, Except.bind]
  cases readBody headers stream <;> simp [pure, Except.pure]

/-- On every message the loop ends, after at most as many turns as the message has bytes;
each `substr` call of each turn begins in its line, so that none throws; and what the
parser throws is what the declared length raises, if there is one. -/
theorem parser_safe {buffer : Bytes} (h : buffer.length < 2 ^ 31) :
    (∀ lines s, exec LoopState.step (loopStart buffer) lines = some s →
      lines.length ≤ buffer.length ∧ s.mycount = lines.length ∧
      ∀ headerLine stream, s.next? = some (headerLine, stream) →
        (nameCall headerLine).pos ≤ headerLine.length ∧
          (valueCall headerLine).pos ≤ headerLine.length ∧
          ∃ s', s.step headerLine = some s') ∧
    ∃ lines s, exec LoopState.step (loopStart buffer) lines = some s ∧ s.next? = none ∧
      (loopStart buffer).headerLoop = .ok (s.headers, s.stream.getline.2) ∧
      ∀ e, createRequestFromBuffer buffer = .error e ↔
        ∃ value, s.headers.lookup contentLengthKey = some value ∧ RejectedLength value e := by
  have hstart := loopStart_length_le buffer
  have hshort : (loopStart buffer).stream.rest.length < 2 ^ 31 := by omega
  constructor
  · intro lines s hrun
    obtain ⟨-, hleft⟩ := headerLoop_exec hshort hrun
    refine ⟨by omega, (mycount_exec hrun).trans (Nat.zero_add _), ?_⟩
    intro headerLine stream hnext
    exact turn_in_range (by omega) hnext
  · obtain ⟨lines, s, hrun, hstuck⟩ := exists_final_run
      (fun s : LoopState => s.stream.rest.length) step_length_lt (loopStart buffer)
    obtain ⟨hloop, hleft⟩ := headerLoop_exec hshort hrun
    have hfinal : s.next? = none := by
      refine Option.eq_none_iff_forall_ne_some.mpr fun next hnext => ?_
      obtain ⟨-, -, s', hstep⟩ := turn_in_range (by omega) hnext
      rw [hstuck] at hstep
      cases hstep
    have hresult : (loopStart buffer).headerLoop = .ok (s.headers, s.stream.getline.2) := by
      rw [← hloop]
      exact headerLoop_final hfinal
    exact ⟨lines, s, hrun, hfinal, hresult, createRequestFromBuffer_eq_error_iff hresult⟩

def wrappingMessage : Bytes :=
  ascii "POST / HTTP/1.1\r\nab\nX: \nContent-Length: -1\r\n\r\n"

theorem readHeaders_wrappingMessage :
    (readHeaders 0 (loopStart wrappingMessage).stream).1 =
      [(ascii "ab", []), (ascii "X", []), (contentLengthKey, ascii "-1")] := by
  have hstream : (loopStart wrappingMessage).stream =
      IStream.ofString (ascii "ab" ++ lf :: ([ascii "X: ", ascii "Content-Length: -1\r"].flatMap
        (fun l => l ++ [lf]) ++ (crlf ++ []))) := by decide
  have hfirst : ¬ EndsHeaders 0 (ascii "ab") := by decide
  rw [hstream, readHeaders_line (by decide), if_neg hfirst,
    readHeaders_lines (by decide) (by decide), readHeaders_blank (by decide)]
  decide

theorem parser_safe_wrapping : ∃ lines s,
    exec LoopState.step (loopStart wrappingMessage) lines = some s ∧ s.next? = none ∧
      createRequestFromBuffer wrappingMessage = .error .lengthError := by
  obtain ⟨-, lines, s, hrun, hnext, hloop, hthrows⟩ :=
    @parser_safe wrappingMessage (by decide)
  refine ⟨lines, s, hrun, hnext, (hthrows _).mpr ⟨ascii "-1", ?_, .inr ⟨rfl, -1, rfl, by decide⟩⟩⟩
  have hheaders : s.headers = headersOf (readHeaders 0 (loopStart wrappingMessage).stream).1 := by
    rw [LoopState.headerLoop, headerLoop_eq] at hloop
    exact (Prod.mk.inj (Except.ok.inj hloop)).1.symm
  rw [hheaders, lookup_headersOf, readHeaders_wrappingMessage]
  decide

end WsGateway.Http
