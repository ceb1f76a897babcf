import WsGateway.Lib.Bytes
import WsGateway.Lib.Interleave
import WsGateway.Lib.Runs

/-!
# Frames on one connection

Answers and pongs on one socket are sent by coroutines of their own, which the
executor runs in any order, and nothing makes them wait for each other. What is
written is an interleaving of the frames. It is one frame after the other in
the runs in which no send writes while another one is part-way.
-/

namespace WsGateway.Session

open Lib Lib.Runs Lib.Interleave

inductive Opcode
  | text
  | pong
deriving DecidableEq, Repr

/-- The frames of the WebSocket implementation: a header for a payload. -/
structure FrameFormat where
  header : Opcode → Bytes → Bytes
  header_ne_nil : ∀ opcode payload, header opcode payload ≠ []

/-- A coroutine that sends a frame, with the parts that it has not written yet. -/
structure Sending where
  frame : Bytes
  header : Bytes
  payload : Bytes
deriving DecidableEq, Repr

def Sending.left (s : Sending) : Bytes := s.header ++ s.payload

def Sending.PartWay (s : Sending) : Prop := s.left ≠ s.frame ∧ s.left ≠ []

structure Connection where
  sends : List Sending
  output : Tagged UInt8
deriving DecidableEq, Repr

def Connection.initial : Connection := ⟨[], []⟩

inductive Transfer
  /-- `executor->execute<SendMessageCoroutine>(socket, message)` -/
  | sendMessage (message : Bytes)
  /-- `onPing` returns `sendPongAsync(message)` -/
  | onPing (message : Bytes)
  /-- a write of `n` bytes for the send `i` succeeds -/
  | write (i n : Nat)
deriving DecidableEq, Repr

def Connection.send (F : FrameFormat) (c : Connection) (opcode : Opcode) (message : Bytes) :
    Connection :=
  let header := F.header opcode message
  { c with sends := c.sends ++ [⟨header ++ message, header, message⟩] }

def Sending.write (s : Sending) (n : Nat) : Option (Bytes × Sending) :=
  if s.header ≠ [] then
    if 0 < n ∧ n ≤ s.header.length then
      some (s.header.take n, { s with header := s.header.drop n })
    else none
  else if 0 < n ∧ n ≤ s.payload.length then
    some (s.payload.take n, { s with payload := s.payload.drop n })
  else none

def Connection.step (F : FrameFormat) (c : Connection) : Transfer → Option Connection
  | .sendMessage message => some (c.send F .text message)
  | .onPing message => some (c.send F .pong message)
  | .write i n =>
      c.sends[i]?.bind fun s => (s.write n).map fun (bytes, s') =>
        ⟨c.sends.set i s', c.output ++ tag i bytes⟩

def Transfer.frame? (F : FrameFormat) : Transfer → Option Bytes
  | .sendMessage message => some (F.header .text message ++ message)
  | .onPing message => some (F.header .pong message ++ message)
  | .write _ _ => none

theorem write_spec {s s' : Sending} {n : Nat} {bytes : Bytes} (h : s.write n = some (bytes, s')) :
    bytes ≠ [] ∧ s'.frame = s.frame ∧ s.left = bytes ++ s'.left := by
  unfold Sending.write at h
  split at h
  · split at h
    · rename_i hne hn
      cases h
      refine ⟨?_, rfl, ?_⟩
      · rw [ne_eq, List.take_eq_nil_iff, not_or]
        exact ⟨by omega, hne⟩
      · simp [Sending.left, ← List.append_assoc]
    · cases h
  · split at h
    · rename_i hnil hn
      cases h
      have hheader : s.header = [] := by simpa using hnil
      refine ⟨?_, rfl, ?_⟩
      · rw [ne_eq, List.take_eq_nil_iff, not_or]
        refine ⟨by omega, ?_⟩
        intro hp
        rw [hp, List.length_nil] at hn
        omega
      · simp [Sending.left, hheader]
    · cases h

theorem step_write {F : FrameFormat} {c c' : Connection} {i n : Nat}
    (h : c.step F (.write i n) = some c') :
    ∃ s s' bytes, c.sends[i]? = some s ∧ bytes ≠ [] ∧ s'.frame = s.frame ∧
      s.left = bytes ++ s'.left ∧ c' = ⟨c.sends.set i s', c.output ++ tag i bytes⟩ := by
  obtain ⟨s, hs, h⟩ := Option.bind_eq_some_iff.mp h
  obtain ⟨⟨bytes, s'⟩, hw, rfl⟩ := Option.map_eq_some_iff.mp h
  obtain ⟨hne, hframe, hleft⟩ := write_spec hw
  exact ⟨s, s', bytes, hs, hne, hframe, hleft, rfl⟩

/-! ## Every run: an interleaving of the frames -/

/-- Each send has written, in order and without loss, what it has not left. -/
structure Connection.Intact (F : FrameFormat) (es : List Transfer) (c : Connection) : Prop where
  frames : c.sends.map Sending.frame = es.filterMap (Transfer.frame? F)
  written : ∀ i (s : Sending), c.sends[i]? = some s → part i c.output ++ s.left = s.frame
  owned : ∀ p ∈ c.output, p.1 < c.sends.length

theorem intact_initial (F : FrameFormat) : Connection.initial.Intact F [] where
  frames := rfl
  written _ _ h := by cases h
  owned _ h := by cases h

theorem Connection.Intact.send {F : FrameFormat} {es : List Transfer} {c : Connection}
    (h : c.Intact F es) {e : Transfer} {opcode : Opcode} {message : Bytes}
    (he : e.frame? F = some (F.header opcode message ++ message)) :
    (c.send F opcode message).Intact F (es ++ [e]) := by
  constructor
  · simp [Connection.send, h.frames, he]
  · intro i s hs
    rcases Nat.lt_or_ge i c.sends.length with hlt | hge
    · refine h.written i s ?_
      rwa [Connection.send, List.getElem?_append_left hlt] at hs
    · have hnone : part i c.output = [] := part_eq_nil fun p hp heq => by
        have hlt := h.owned p hp
        omega
      rw [Connection.send, List.getElem?_append_right hge, List.getElem?_singleton] at hs
      split at hs
      · cases hs
        simp [Connection.send, hnone, Sending.left]
      · cases hs
  · intro p hp
    have hlt := h.owned p hp
    simp only [Connection.send, List.length_append, List.length_singleton]
    omega

theorem Connection.Intact.write {F : FrameFormat} {es : List Transfer} {c : Connection}
    (h : c.Intact F es) {i n : Nat} {s s' : Sending} {bytes : Bytes} (hs : c.sends[i]? = some s)
    (hframe : s'.frame = s.frame) (hleft : s.left = bytes ++ s'.left) :
    Connection.Intact F (es ++ [.write i n]) ⟨c.sends.set i s', c.output ++ tag i bytes⟩ := by
  have hi : i < c.sends.length := (List.getElem?_eq_some_iff.mp hs).choose
  constructor
  · have hsame : (c.sends.set i s').map Sending.frame = c.sends.map Sending.frame := by
      refine List.ext_getElem? fun j => ?_
      rw [List.getElem?_map, List.getElem?_map]
      by_cases hj : i = j
      · rw [← hj, List.getElem?_set_self hi, hs]
        simp [hframe]
      · rw [List.getElem?_set_ne hj]
    simp [hsame, h.frames, Transfer.frame?]
  · intro j s₁ hj
    by_cases hij : i = j
    · subst hij
      rw [List.getElem?_set_self hi] at hj
      cases hj
      rw [part_append, part_tag_self, List.append_assoc, ← hleft, hframe]
      exact h.written i s hs
    · rw [List.getElem?_set_ne hij] at hj
      rw [part_append, part_tag_of_ne hij, List.append_nil]
      exact h.written j s₁ hj
  · intro p hp
    rw [List.length_set]
    rcases List.mem_append.mp hp with hp | hp
    · exact h.owned p hp
    · rw [mem_tag hp]
      exact hi

theorem Connection.Intact.step {F : FrameFormat} {es : List Transfer} {c c' : Connection}
    {e : Transfer} (h : c.Intact F es) (hs : c.step F e = some c') : c'.Intact F (es ++ [e]) := by
  cases e with
  | sendMessage message =>
      cases hs
      exact h.send rfl
  | onPing message =>
      cases hs
      exact h.send rfl
  | write i n =>
      obtain ⟨s, s', bytes, hsend, -, hframe, hleft, rfl⟩ := step_write hs
      exact h.write hsend hframe hleft

theorem intact_exec {F : FrameFormat} {es : List Transfer} {c : Connection}
    (h : exec (Connection.step F) .initial es = some c) : c.Intact F es :=
  trace_invariant (fun es c => c.Intact F es) (intact_initial F)
    (fun _ _ _ _ hinv hs => hinv.step hs) h

/-! ## Runs in which the sends wait for each other -/

/-- No other send is part-way when this one writes. -/
def Transfer.Alone (c : Connection) : Transfer → Prop
  | .write i _ => ∀ j (s : Sending), j ≠ i → c.sends[j]? = some s → ¬ s.PartWay
  | _ => True

/-- The frames are written one after the other, and at most the last of those
begun is not finished. -/
def Connection.InTurn (c : Connection) (order : List Nat) : Prop :=
  Serial order c.output ∧ (∀ i ∈ order, part i c.output ≠ []) ∧
    ∀ i ∈ order.dropLast, ∀ s : Sending, c.sends[i]? = some s → s.left = []

/-- The bytes written are whole frames, one for each send. -/
def Connection.Whole (c : Connection) : Prop :=
  ∃ order : List Nat, order.Perm (List.range c.sends.length) ∧
    letters c.output = order.flatMap fun i => (c.sends[i]?.map Sending.frame).getD []

theorem inTurn_initial : Connection.initial.InTurn [] := by
  refine ⟨serial_nil, ?_, ?_⟩ <;> simp

theorem Connection.InTurn.lt {F : FrameFormat} {es : List Transfer} {c : Connection}
    {order : List Nat} (h : c.InTurn order) (hinv : c.Intact F es) {i : Nat} (hi : i ∈ order) :
    i < c.sends.length := by
  obtain ⟨p, hp, rfl⟩ := exists_mem_of_part_ne_nil (h.2.1 i hi)
  exact hinv.owned p hp

theorem Connection.InTurn.send {F : FrameFormat} {es : List Transfer} {c : Connection}
    {order : List Nat} (h : c.InTurn order) (hinv : c.Intact F es) (opcode : Opcode)
    (message : Bytes) : (c.send F opcode message).InTurn order := by
  refine ⟨h.1, h.2.1, fun i hi s hs => ?_⟩
  have hlt : i < c.sends.length := h.lt hinv (List.dropLast_subset order hi)
  rw [Connection.send, List.getElem?_append_left hlt] at hs
  exact h.2.2 i hi s hs

/-- A send that writes alone is the last that has begun, or begins now. -/
theorem Connection.InTurn.write {F : FrameFormat} {es : List Transfer} {c : Connection}
    {order : List Nat} (h : c.InTurn order) (hinv : c.Intact F es) {i n : Nat}
    (halone : Transfer.Alone c (.write i n)) {s s' : Sending} {bytes : Bytes}
    (hs : c.sends[i]? = some s) (hne : bytes ≠ []) (hleft : s.left = bytes ++ s'.left) :
    ∃ order', Connection.InTurn ⟨c.sends.set i s', c.output ++ tag i bytes⟩ order' := by
  rcases h with ⟨hserial, hbegun, hfinished⟩
  have hopen : s.left ≠ [] := by
    rw [hleft]
    simp [hne]
  have hother {j : Nat} (hj : j ≠ i) {s₁ : Sending} (hs₁ : (c.sends.set i s')[j]? = some s₁) :
      c.sends[j]? = some s₁ := by
    rwa [List.getElem?_set_ne (Ne.symm hj)] at hs₁
  by_cases hi : i ∈ order
  · -- the send itself is not finished, so it is not in front of another one
    have hlast : order.dropLast ++ [i] = order := by
      have hne' : order ≠ [] := List.ne_nil_of_mem hi
      have hsplit := List.dropLast_append_getLast hne'
      rcases List.mem_append.mp (hsplit ▸ hi) with hd | hd
      · exact absurd (hfinished i hd s hs) hopen
      · rw [List.mem_singleton.mp hd]
        exact hsplit
    have hnot : i ∉ order.dropLast := fun hd => hopen (hfinished i hd s hs)
    refine ⟨order, ?_, ?_, ?_⟩
    · rw [← hlast] at hserial ⊢
      exact hserial.continue bytes
    · intro j hj
      rw [part_append]
      exact fun hnil => hbegun j hj (List.append_eq_nil_iff.mp hnil).1
    · intro j hj s₁ hs₁
      refine hfinished j hj s₁ (hother ?_ hs₁)
      intro heq
      subst heq
      exact hnot hj
  · have hall : ∀ j ∈ order, ∀ s₁ : Sending, c.sends[j]? = some s₁ → s₁.left = [] := by
      intro j hj s₁ hs₁
      have hji : j ≠ i := by
        intro heq
        subst heq
        exact hi hj
      by_contra hopen₁
      refine halone j s₁ hji hs₁ ⟨?_, hopen₁⟩
      intro hwhole
      have hw := hinv.written j s₁ hs₁
      rw [hwhole, List.append_left_eq_self] at hw
      exact hbegun j hj hw
    refine ⟨order ++ [i], hserial.begin hi bytes, ?_, ?_⟩
    · intro j hj
      rw [part_append]
      rcases List.mem_append.mp hj with hj | hj
      · exact fun hnil => hbegun j hj (List.append_eq_nil_iff.mp hnil).1
      · rw [List.mem_singleton.mp hj, part_tag_self]
        exact fun hnil => hne (List.append_eq_nil_iff.mp hnil).2
    · intro j hj s₁ hs₁
      rw [List.dropLast_concat] at hj
      refine hall j hj s₁ (hother ?_ hs₁)
      intro heq
      subst heq
      exact hi hj

theorem inTurn_exec {F : FrameFormat} {es : List Transfer} {c : Connection}
    (halone : ∀ c e, Takes (Connection.step F) .initial es c e → Transfer.Alone c e)
    (h : exec (Connection.step F) .initial es = some c) : ∃ order, c.InTurn order := by
  have hinv : (∃ es, c.Intact F es) ∧ ∃ order, c.InTurn order := by
    refine guarded_invariant (fun c => (∃ es, c.Intact F es) ∧ ∃ order, c.InTurn order)
      Transfer.Alone ⟨⟨[], intact_initial F⟩, [], inTurn_initial⟩ ?_ halone h
    intro c e c' hinv hg hs
    rcases hinv with ⟨⟨es, hintact⟩, order, hturn⟩
    refine ⟨⟨es ++ [e], hintact.step hs⟩, ?_⟩
    cases e with
    | sendMessage message =>
        cases hs
        exact ⟨order, hturn.send hintact .text message⟩
    | onPing message =>
        cases hs
        exact ⟨order, hturn.send hintact .pong message⟩
    | write i n =>
        obtain ⟨s, s', bytes, hsend, hne, -, hleft, rfl⟩ := step_write hs
        exact hturn.write hintact hg hsend hne hleft
  exact hinv.2

theorem frame_ne_nil {F : FrameFormat} {e : Transfer} {frame : Bytes}
    (h : e.frame? F = some frame) : frame ≠ [] := by
  cases e with
  | sendMessage message =>
      cases h
      simp [F.header_ne_nil]
  | onPing message =>
      cases h
      simp [F.header_ne_nil]
  | write i n => cases h

theorem Connection.InTurn.whole {F : FrameFormat} {es : List Transfer} {c : Connection}
    {order : List Nat} (h : c.InTurn order) (hinv : c.Intact F es)
    (hfinished : ∀ s ∈ c.sends, s.left = []) : c.Whole := by
  have hpart : ∀ i (s : Sending), c.sends[i]? = some s → part i c.output = s.frame := by
    intro i s hs
    have hw := hinv.written i s hs
    rwa [hfinished s (List.mem_of_getElem? hs), List.append_nil] at hw
  have hmem : ∀ i, i ∈ order ↔ i ∈ List.range c.sends.length := by
    intro i
    rw [List.mem_range]
    refine ⟨h.lt hinv, fun hi => ?_⟩
    by_contra hno
    have hs : c.sends[i]? = some c.sends[i] := List.getElem?_eq_getElem hi
    have hframe : c.sends[i].frame ∈ es.filterMap (Transfer.frame? F) := by
      rw [← hinv.frames]
      exact List.mem_map_of_mem (List.getElem_mem hi)
    obtain ⟨e, -, he⟩ := List.mem_filterMap.mp hframe
    exact frame_ne_nil he ((hpart i _ hs).symm.trans (h.1.part_eq_nil hno))
  refine ⟨order, (List.perm_ext_iff_of_nodup h.1.1 List.nodup_range).mpr hmem, ?_⟩
  rw [h.1.letters_eq]
  refine List.flatMap_congr fun i hi => ?_
  have hlt : i < c.sends.length := h.lt hinv hi
  have hs : c.sends[i]? = some c.sends[i] := List.getElem?_eq_getElem hlt
  rw [hpart i _ hs, hs]
  rfl

/-- In every run the bytes of each frame are written in order, without loss or
repetition. In a run in which no send writes while another one is part-way, one
frame is written after the other, and the bytes written are whole frames, one
for each send, once every send has finished. -/
theorem frames_interleave {F : FrameFormat} {es : List Transfer} {c : Connection}
    (h : exec (Connection.step F) .initial es = some c) :
    c.sends.map Sending.frame = es.filterMap (Transfer.frame? F) ∧
    (∀ i (s : Sending), c.sends[i]? = some s → part i c.output ++ s.left = s.frame) ∧
    (∀ p ∈ c.output, p.1 < c.sends.length) ∧
    ((∀ c' e, Takes (Connection.step F) .initial es c' e → Transfer.Alone c' e) →
      (∃ order, c.InTurn order) ∧ ((∀ s ∈ c.sends, s.left = []) → c.Whole)) := by
  have hinv := intact_exec h
  refine ⟨hinv.frames, hinv.written, hinv.owned, fun halone => ?_⟩
  obtain ⟨order, hturn⟩ := inTurn_exec halone h
  exact ⟨⟨order, hturn⟩, hturn.whole hinv⟩

def shortFrames : FrameFormat where
  header opcode payload := match opcode with
    | .text => [129, payload.length.toUInt8]
    | .pong => [138, payload.length.toUInt8]
  header_ne_nil opcode payload := by cases opcode <;> simp

def pongAfterAnswer : List Transfer :=
  [.sendMessage (ascii "ok"), .write 0 2, .write 0 2, .onPing [], .write 1 2]

theorem pong_after_answer_is_whole : ∃ c,
    exec (Connection.step shortFrames) .initial pongAfterAnswer = some c ∧
      letters c.output = [129, 2] ++ ascii "ok" ++ [138, 0] ∧ c.Whole := by
  have hguard : Guarded (Connection.step shortFrames) Transfer.Alone .initial
      pongAfterAnswer := by
    refine .cons trivial rfl (.cons ?_ rfl (.cons ?_ rfl
      (.cons trivial rfl (.cons ?_ rfl trivial))))
    · intro j s hj hs
      cases j with
      | zero => exact absurd rfl hj
      | succ j => cases hs
    · intro j s hj hs
      cases j with
      | zero => exact absurd rfl hj
      | succ j => cases hs
    · intro j s hj hs
      rcases j with _ | _ | j
      · cases hs
        exact fun hpart => hpart.2 rfl
      · exact absurd rfl hj
      · cases hs
  exact ⟨_, rfl, by decide, ((@frames_interleave shortFrames pongAfterAnswer _ rfl).2.2.2
    (guarded_iff.mp hguard)).2 (by decide)⟩

/-- Two answers on one socket, each of them sent in one write of the header and
one of the payload. -/
def overlappingSends : List Transfer :=
  [.sendMessage (ascii "error"), .sendMessage (ascii "error"), .write 0 2, .write 1 2,
    .write 0 5, .write 1 5]

def errorFrame : Bytes := [129, 5] ++ ascii "error"

/-- Both have finished, and what is written is not a sequence of frames. -/
theorem overlapping_sends_are_not_whole : ∃ c,
    exec (Connection.step shortFrames) .initial overlappingSends = some c ∧
      (∀ s ∈ c.sends, s.left = []) ∧ ¬ c.Whole := by
  refine ⟨⟨[⟨errorFrame, [], []⟩, ⟨errorFrame, [], []⟩], tag 0 [129, 5] ++ tag 1 [129, 5] ++
    tag 0 (ascii "error") ++ tag 1 (ascii "error")⟩, rfl, by decide, ?_⟩
  intro h
  rcases h with ⟨order, hperm, hletters⟩
  cases order with
  | nil => exact absurd hperm.length_eq (by decide)
  | cons i rest =>
      have hi : i < 2 := List.mem_range.mp (hperm.subset List.mem_cons_self)
      have hcases : i = 0 ∨ i = 1 := by omega
      rw [List.flatMap_cons] at hletters
      -- the first frame goes on with a letter after two bytes, the output does not
      have hthird : (some 129 : Option UInt8) = some 101 := by
        rcases hcases with rfl | rfl <;> exact congrArg (fun l : Bytes => l[2]?) hletters
      exact absurd hthird (by decide)

end WsGateway.Session
