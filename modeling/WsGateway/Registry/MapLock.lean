import WsGateway.Lib.Simulation
import WsGateway.Lib.SpinLock
import WsGateway.Registry.HalfSteps

/-!
# The lock of the client map

An update of `clients` is not one step of the processor. It runs under
`clientMapLock`, an atomic flag that the methods wait for in a loop. The methods that
send to a client look it up without the lock. The machine here takes the single steps
under the lock; the machine of the interleaved callbacks, where an update is one
action, simulates it.
-/

namespace WsGateway.Registry

open Lib Lib.Runs

/-- `clients` as the steps see it; a null pointer is `none`. -/
abbrev ClientMap := AList fun _ : Bytes => Option SocketId

inductive MapStep
  /-- `clients[clientId]`, which creates a missing entry with a null pointer -/
  | subscript (clientId : Bytes)
  /-- the assignment to this entry -/
  | assign (clientId : Bytes) (socket : SocketId)
  /-- `clients.erase(clientId)` -/
  | erase (clientId : Bytes)
deriving DecidableEq, Repr

def MapStep.apply : MapStep → ClientMap → ClientMap
  | .subscript c, m => if c ∈ m then m else m.insert c none
  | .assign c s, m => m.insert c (some s)
  | .erase c, m => m.erase c

/-- What the callbacks touch without the lock. -/
structure Unlocked where
  sockets : Int32
  listeners : AList fun _ : SocketId => Bytes
  table : Table

def Action.applyUnlocked (a : Action) (ok : Bool) (u : Unlocked) : Unlocked :=
  let st := a.apply ok (⟨∅, u.sockets, u.listeners⟩, u.table)
  ⟨st.1.sockets, st.1.listeners, st.2⟩

def Action.block : Action → SpinLock.Block MapStep Action
  | .storeClient c s => .locked [.subscript c, .assign c s]
  | .eraseClient c => .locked [.erase c]
  | a => .free a

/-- `clientMapLock` and what it guards. -/
def mapLock : SpinLock.Semantics ClientMap Unlocked MapStep Action Bool :=
  ⟨MapStep.apply, Action.applyUnlocked⟩

/-- The threads of the callbacks, one for each socket, and for each created socket its
client id and the callback that it runs or has run last. -/
structure LockedThreads where
  lock : SpinLock.State SocketId ClientMap Unlocked MapStep Action
  socks : SocketId → Option (Bytes × Stage)

def LockedThreads.initial (table : Table) : LockedThreads :=
  ⟨⟨false, ∅, ⟨0, ∅, table⟩, fun _ => .outside []⟩, fun _ => none⟩

def LockedThreads.begin (τ : LockedThreads) (s : SocketId) (c : Bytes) (stage : Stage)
    (acts : List Action) : LockedThreads :=
  ⟨τ.lock.set s (.outside (acts.map Action.block)),
    Function.update τ.socks s (some (c, stage))⟩

def LockedThreads.idle? (τ : LockedThreads) (s : SocketId) : Option Bytes :=
  match τ.socks s, τ.lock.threads s with
  | some (_, .beforeDestroy), _ => none
  | some (c, _), .outside [] => some c
  | _, _ => none

def LockedThreads.step (name : Bytes) (τ : LockedThreads) : Move → Option LockedThreads
  | .afterCreate s params =>
      match τ.socks s, params.lookup clientIdKey, onAfterCreateNonBlocking name params s with
      | none, some c, some acts => some (τ.begin s c .afterCreate acts)
      | _, _, _ => none
  | .close s =>
      match τ.idle? s, τ.lock.free.listeners.lookup s with
      | some c, some id => some (τ.begin s c .close (onClose id))
      | _, _ => none
  | .beforeDestroy s =>
      match τ.idle? s, τ.lock.free.listeners.lookup s with
      | some c, some id => some (τ.begin s c .beforeDestroy (onBeforeDestroyNonBlocking id))
      | _, _ => none
  /- one step of the socket's thread, which may be a try in vain to take the lock -/
  | .act s ok => (SpinLock.step mapLock τ.lock s ok).map fun lock => { τ with lock := lock }

/-! ## The code of the actions -/

theorem Action.block_eq_locked {a : Action} {body : List MapStep} (h : a.block = .locked body) :
    (∃ c s, a = .storeClient c s ∧ body = [.subscript c, .assign c s]) ∨
      ∃ c, a = .eraseClient c ∧ body = [.erase c] := by
  cases a with
  | storeClient c s => exact .inl ⟨c, s, rfl, (SpinLock.Block.locked.inj h).symm⟩
  | eraseClient c => exact .inr ⟨c, rfl, (SpinLock.Block.locked.inj h).symm⟩
  | countUp | countDown | insertData | deleteData | setListener => cases h

theorem Action.block_eq_free {a b : Action} (h : a.block = .free b) :
    a = b ∧ ∀ ok st, (a.apply ok st).1.clients = st.1.clients := by
  cases a with
  | storeClient | eraseClient => cases h
  | countUp | countDown | insertData | deleteData | setListener =>
      exact ⟨SpinLock.Block.free.inj h, fun _ _ => rfl⟩

theorem lookup_subscript_of_ne {m : ClientMap} {c d : Bytes} (h : d ≠ c) :
    (MapStep.apply (.subscript c) m).lookup d = m.lookup d := by
  show (if c ∈ m then m else m.insert c none).lookup d = m.lookup d
  split
  · rfl
  · exact AList.lookup_insert_ne h

/-- The null pointer of a new entry is seen only before the assignment. -/
theorem lookup_body {a : Action} {body : List MapStep} (h : a.block = .locked body)
    {x : ClientMap} {g : Gateway} (hx : ∀ c, x.lookup c = (g.clients.lookup c).map some)
    (ok : Bool) (table : Table) (c : Bytes) :
    (mapLock.body body x).lookup c = ((a.apply ok (g, table)).1.clients.lookup c).map some := by
  rcases Action.block_eq_locked h with ⟨d, s, rfl, rfl⟩ | ⟨d, rfl, rfl⟩
  · have hbody : mapLock.body [.subscript d, .assign d s] x =
        (MapStep.apply (.subscript d) x).insert d (some s) := rfl
    rw [hbody, Action.apply]
    by_cases hc : c = d
    · subst hc
      simp
    · rw [AList.lookup_insert_ne hc, AList.lookup_insert_ne hc, lookup_subscript_of_ne hc, hx]
  · have hbody : mapLock.body [.erase d] x = x.erase d := rfl
    rw [hbody, Action.apply]
    by_cases hc : c = d
    · subst hc
      simp
    · rw [AList.lookup_erase_ne hc, AList.lookup_erase_ne hc, hx]

/-! ## The simulation -/

def Threads.code (σ : Threads) (s : SocketId) : List (SpinLock.Block MapStep Action) :=
  ((σ.socks s).map fun k => k.todo.map Action.block).getD []

def Threads.unlocked (σ : Threads) : Unlocked :=
  ⟨σ.gateway.sockets, σ.gateway.listeners, σ.table⟩

/-- An update that is part-way is not yet taken in `σ`. -/
structure LockedThreads.Refines (τ : LockedThreads) (σ : Threads) : Prop where
  exclusive : τ.lock.Exclusive
  commits : ∃ x : ClientMap, τ.lock.Commits mapLock x σ.code ∧
    ∀ c, x.lookup c = (σ.gateway.clients.lookup c).map some
  unlocked : τ.lock.free = σ.unlocked
  socks : ∀ s, τ.socks s = (σ.socks s).map fun k => (k.clientId, k.stage)

theorem LockedThreads.refines_initial (table : Table) :
    (LockedThreads.initial table).Refines (.initial table) where
  exclusive := by
    have hnone (s : SocketId) : ¬ (LockedThreads.initial table).lock.Inside s :=
      SpinLock.not_inside_of_outside rfl
    exact ⟨iff_of_false Bool.false_ne_true (not_exists.mpr hnone),
      fun s _ hs => absurd hs (hnone s)⟩
  commits := by
    refine ⟨∅, ⟨?_, ?_, fun _ => rfl⟩, fun c => rfl⟩
    · intro s code hs
      cases hs
      rfl
    · intro s rest code hs
      cases hs
  unlocked := rfl
  socks _ := rfl

theorem Threads.code_set (σ : Threads) (st : Gateway × Table) (s : SocketId) (k : Sock) :
    (σ.set st s k).code = Function.update σ.code s (k.todo.map Action.block) := by
  funext r
  by_cases hr : r = s
  · subst hr
    simp [Threads.code, Threads.set]
  · simp [Threads.code, Threads.set, hr]

theorem LockedThreads.Refines.not_inside {τ : LockedThreads} {σ : Threads} (h : τ.Refines σ)
    {s : SocketId} (hcode : σ.code s = []) : ¬ τ.lock.Inside s := by
  intro hin
  rcases hin with ⟨rest, code, hs⟩
  rcases h.commits with ⟨x, hx, -⟩
  obtain ⟨done, hdone, -⟩ := hx.inside s rest code hs
  rw [hcode] at hdone
  cases hdone

theorem LockedThreads.Refines.begin {τ : LockedThreads} {σ : Threads} (h : τ.Refines σ)
    {s : SocketId} (hcode : σ.code s = []) (c : Bytes) (stage : Stage) (acts : List Action) :
    (τ.begin s c stage acts).Refines (σ.set (σ.gateway, σ.table) s ⟨c, stage, acts⟩) where
  exclusive := h.exclusive.set_outside (h.not_inside hcode) _
  commits := by
    rcases h.commits with ⟨x, hx, hlookup⟩
    refine ⟨x, ?_, hlookup⟩
    rw [Threads.code_set]
    exact hx.set_outside (h.not_inside hcode) _
  unlocked := h.unlocked
  socks r := by
    by_cases hr : r = s
    · subst hr
      simp [LockedThreads.begin, Threads.set]
    · simp [LockedThreads.begin, Threads.set, hr, h.socks r]

theorem LockedThreads.Refines.idle {τ : LockedThreads} {σ : Threads} (h : τ.Refines σ)
    {s : SocketId} {c : Bytes} (hidle : τ.idle? s = some c) :
    (σ.socks s).bind Sock.idle? = some c ∧ σ.code s = [] := by
  have hsocks := h.socks s
  unfold LockedThreads.idle? at hidle
  cases hk : σ.socks s with
  | none =>
      rw [hk, Option.map_none] at hsocks
      simp [hsocks] at hidle
  | some k =>
      rw [hk, Option.map_some] at hsocks
      rw [hsocks] at hidle
      split at hidle
      · cases hidle
      · rename_i hstage hsock hthread
        cases hidle
        obtain ⟨rfl, rfl⟩ := Prod.mk.inj (Option.some.inj hsock)
        rcases h.commits with ⟨x, hx, -⟩
        have hcode : σ.code s = [] := hx.outside s [] hthread
        have htodo : k.todo = [] := by simpa [Threads.code, hk] using hcode
        have hidle : k.idle? = some k.clientId := if_pos ⟨htodo, hstage⟩
        exact ⟨hidle, hcode⟩
      · cases hidle

theorem Threads.code_eq_cons {σ : Threads} {s : SocketId} {b : SpinLock.Block MapStep Action}
    {code : List (SpinLock.Block MapStep Action)} (h : σ.code s = b :: code) :
    ∃ c stage a todo, σ.socks s = some ⟨c, stage, a :: todo⟩ ∧ a.block = b ∧
      todo.map Action.block = code := by
  unfold Threads.code at h
  cases hk : σ.socks s with
  | none => simp [hk] at h
  | some k =>
      rcases k with ⟨c, stage, todo⟩
      cases todo with
      | nil => simp [hk] at h
      | cons a todo =>
          simp only [hk, Option.map_some, Option.getD_some, List.map_cons, List.cons.injEq] at h
          exact ⟨c, stage, a, todo, rfl, h.1, h.2⟩

/-- A step of a thread is the action that it completes, or nothing. -/
theorem LockedThreads.Refines.act {name : Bytes} {τ τ' : LockedThreads} {σ : Threads}
    (h : τ.Refines σ) {s : SocketId} {ok : Bool}
    (hstep : τ.step name (.act s ok) = some τ') :
    ∃ fs σ', Stutters (.act s ok) fs ∧ exec (Threads.step name) σ fs = some σ' ∧
      τ'.Refines σ' := by
  obtain ⟨lock, hlock, rfl⟩ := Option.map_eq_some_iff.mp hstep
  have hs := SpinLock.step_cases hlock
  have hexclusive := h.exclusive.step hs
  rcases h.commits with ⟨x, hx, hlookup⟩
  have hact {c : Bytes} {stage : Stage} {a : Action} {todo : List Action}
      (hk : σ.socks s = some ⟨c, stage, a :: todo⟩) :
      exec (Threads.step name) σ [.act s ok] =
        some (σ.set (a.apply ok (σ.gateway, σ.table)) s ⟨c, stage, todo⟩) := by
    simp [Threads.step, hk]
  have hsocks {c : Bytes} {stage : Stage} {a : Action} {todo : List Action}
      (hk : σ.socks s = some ⟨c, stage, a :: todo⟩) (st : Gateway × Table) (r : SocketId) :
      τ.socks r = ((σ.set st s ⟨c, stage, todo⟩).socks r).map fun k => (k.clientId, k.stage) := by
    rw [h.socks r]
    by_cases hr : r = s
    · subst hr
      simp [Threads.set, hk]
    · simp [Threads.set, hr]
  rcases hx.step h.exclusive hs with ⟨hfree, hx'⟩ | ⟨body, code, hcode, hfree, hx'⟩ |
    ⟨a, code, hcode, hfree, hx'⟩
  · exact ⟨[], σ, .inl rfl, rfl, hexclusive, ⟨x, hx', hlookup⟩, hfree.trans h.unlocked, h.socks⟩
  · obtain ⟨c, stage, a, todo, hk, hblock, rfl⟩ := Threads.code_eq_cons hcode
    refine ⟨[.act s ok], _, .inr rfl, hact hk, hexclusive, ⟨mapLock.body body x, ?_, ?_⟩, ?_,
      hsocks hk _⟩
    · rw [Threads.code_set]
      exact hx'
    · exact lookup_body hblock hlookup ok σ.table
    · have hrest : (σ.set (a.apply ok (σ.gateway, σ.table)) s ⟨c, stage, todo⟩).unlocked =
          σ.unlocked := by
        rcases Action.block_eq_locked hblock with ⟨d, r, rfl, -⟩ | ⟨d, rfl, -⟩
        · rfl
        · rfl
      rw [hrest]
      exact hfree.trans h.unlocked
  · obtain ⟨c, stage, a', todo, hk, hblock, rfl⟩ := Threads.code_eq_cons hcode
    obtain ⟨rfl, hclients⟩ := Action.block_eq_free hblock
    refine ⟨[.act s ok], _, .inr rfl, hact hk, hexclusive, ⟨x, ?_, ?_⟩, ?_, hsocks hk _⟩
    · rw [Threads.code_set]
      exact hx'
    · intro d
      rw [hlookup d, ← hclients ok (σ.gateway, σ.table)]
      rfl
    · refine hfree.trans ?_
      rw [h.unlocked]
      cases a' with
      | storeClient | eraseClient => cases hblock
      | countUp | countDown | insertData | deleteData | setListener => rfl

theorem LockedThreads.Refines.step {name : Bytes} {τ τ' : LockedThreads} {σ : Threads} {e : Move}
    (h : τ.Refines σ) (hstep : τ.step name e = some τ') :
    ∃ fs σ', Stutters e fs ∧ exec (Threads.step name) σ fs = some σ' ∧ τ'.Refines σ' := by
  have hlisteners : τ.lock.free.listeners = σ.gateway.listeners := by rw [h.unlocked]; rfl
  cases e with
  | act s ok => exact h.act hstep
  | afterCreate s params =>
      simp only [LockedThreads.step] at hstep
      split at hstep
      · rename_i c acts hs hc hacts
        cases hstep
        have hnone : σ.socks s = none := by
          have hsocks := h.socks s
          rw [hs, eq_comm, Option.map_eq_none_iff] at hsocks
          exact hsocks
        have hcode : σ.code s = [] := by simp [Threads.code, hnone]
        refine ⟨[.afterCreate s params], _, .inr rfl, ?_, h.begin hcode c .afterCreate acts⟩
        simp [Threads.step, hnone, hc, hacts]
      · cases hstep
  | close s =>
      simp only [LockedThreads.step] at hstep
      split at hstep
      · rename_i c id hidle hid
        cases hstep
        obtain ⟨hsock, hcode⟩ := h.idle hidle
        rw [hlisteners] at hid
        refine ⟨[.close s], _, .inr rfl, ?_, h.begin hcode c .close (onClose id)⟩
        simp [Threads.step, hsock, hid]
      · cases hstep
  | beforeDestroy s =>
      simp only [LockedThreads.step] at hstep
      split at hstep
      · rename_i c id hidle hid
        cases hstep
        obtain ⟨hsock, hcode⟩ := h.idle hidle
        rw [hlisteners] at hid
        refine ⟨[.beforeDestroy s], _, .inr rfl, ?_,
          h.begin hcode c .beforeDestroy (onBeforeDestroyNonBlocking id)⟩
        simp [Threads.step, hsock, hid]
      · cases hstep

theorem simulates_lockedThreads (name : Bytes) :
    Simulates (LockedThreads.step name) (Threads.step name) LockedThreads.Refines Stutters :=
  fun _ _ _ _ h hstep => h.step hstep

theorem refines_exec {name : Bytes} {table : Table} {es : List Move} {τ : LockedThreads}
    (h : exec (LockedThreads.step name) (.initial table) es = some τ) :
    ∃ fs σ, fs.Sublist es ∧ exec (Threads.step name) (.initial table) fs = some σ ∧
      τ.Refines σ := by
  obtain ⟨fss, σ, hfss, hσ, hrefines⟩ :=
    (simulates_lockedThreads name).exec (LockedThreads.refines_initial table) h
  exact ⟨fss.flatten, σ, sublist_of_stutters hfss, hσ, hrefines⟩

/-! ## Every run of single steps -/

/-- In every run the flag is set exactly while a thread is in a locked body, and only one
thread is. A step is in vain only while another thread is inside, else it uses up a step
of the thread's code; and as long as any thread has code left, some thread has such a
step. -/
theorem map_lock_excludes {name : Bytes} {table : Table} {es : List Move} {τ : LockedThreads}
    (h : exec (LockedThreads.step name) (.initial table) es = some τ) :
    (τ.lock.flag = true ↔ ∃ s, τ.lock.Inside s) ∧
    (∀ s r, τ.lock.Inside s → τ.lock.Inside r → s = r) ∧
    (∀ s ok τ', τ.step name (.act s ok) = some τ' →
      (τ' = τ ∧ ∃ r, r ≠ s ∧ τ.lock.Inside r) ∨
        (τ'.lock.threads s).weight + 1 = (τ.lock.threads s).weight) ∧
    ∀ s, τ.lock.threads s ≠ .outside [] → ∃ r, ∀ ok, ∃ τ', τ.step name (.act r ok) = some τ' ∧
      (τ'.lock.threads r).weight < (τ.lock.threads r).weight := by
  obtain ⟨-, σ, -, -, hrefines⟩ := refines_exec h
  have hexclusive := hrefines.exclusive
  refine ⟨hexclusive.flag, hexclusive.one, ?_, ?_⟩
  · intro s ok τ' hstep
    obtain ⟨lock, hlock, rfl⟩ := Option.map_eq_some_iff.mp hstep
    rcases SpinLock.step_weight hexclusive (SpinLock.step_cases hlock) with ⟨rfl, hother⟩ |
      ⟨hweight, -⟩
    · exact .inl ⟨rfl, hother⟩
    · exact .inr hweight
  · intro s hs
    obtain ⟨r, hr, hprogress⟩ := SpinLock.exists_progress mapLock hexclusive hs
    refine ⟨r, fun ok => ?_⟩
    obtain ⟨lock, hlock⟩ := Option.isSome_iff_exists.mp (SpinLock.isSome_step mapLock hr ok)
    refine ⟨{ τ with lock := lock }, ?_, hprogress ok lock hlock⟩
    simp [LockedThreads.step, hlock]

/-- The first socket of a client is being stored, and the thread of a second socket tries
in vain to take the lock. -/
def contendedRun : List Move :=
  [.afterCreate 1 (wsParams (ascii "VIN1")), .act 1 true, .act 1 true, .act 1 true,
    .afterCreate 2 ws1Params, .act 2 true, .act 2 true]

theorem map_lock_excludes_contended : ∃ τ,
    exec (LockedThreads.step (ascii "gw1")) (.initial ∅) contendedRun = some τ ∧
      τ.lock.flag = true ∧ (∃ s, τ.lock.Inside s) ∧
      (∀ s r, τ.lock.Inside s → τ.lock.Inside r → s = r) := by
  refine ⟨_, rfl, rfl, ?_, ?_⟩
  · exact (@map_lock_excludes (ascii "gw1") ∅ contendedRun _ rfl).1.mp rfl
  · exact (@map_lock_excludes (ascii "gw1") ∅ contendedRun _ rfl).2.1

theorem LockedThreads.Refines.settled {τ : LockedThreads} {σ : Threads} (h : τ.Refines σ)
    (hflag : τ.lock.flag = false) :
    (∀ c, τ.lock.guarded.lookup c = (σ.gateway.clients.lookup c).map some) ∧
      ∀ s, τ.lock.threads s = .outside (σ.code s) := by
  have hnone (s : SocketId) : ¬ τ.lock.Inside s := by
    intro hs
    rw [h.exclusive.flag.mpr ⟨s, hs⟩] at hflag
    cases hflag
  rcases h.commits with ⟨x, hx, hlookup⟩
  refine ⟨fun c => by rw [hx.idle hnone, hlookup], fun s => ?_⟩
  cases hs : τ.lock.threads s with
  | outside code => rw [hx.outside s code hs]
  | inside rest code => exact absurd ⟨rest, code, hs⟩ (hnone s)

/-- Every run of single steps comes to a run of whole actions, with the same events in
the same order but for those that only lead up to an action. Both have the same table,
counter, listeners and sockets, and whenever the flag is clear the same map and the same
code left. -/
theorem locked_updates_are_atomic {name : Bytes} {table : Table} {es : List Move}
    {τ : LockedThreads} (h : exec (LockedThreads.step name) (.initial table) es = some τ) :
    ∃ fs σ, fs.Sublist es ∧ exec (Threads.step name) (.initial table) fs = some σ ∧
      τ.lock.free = ⟨σ.gateway.sockets, σ.gateway.listeners, σ.table⟩ ∧
      (∀ s, τ.socks s = (σ.socks s).map fun k => (k.clientId, k.stage)) ∧
      (τ.lock.flag = false →
        (∀ c, τ.lock.guarded.lookup c = (σ.gateway.clients.lookup c).map some) ∧
        ∀ s, τ.lock.threads s = .outside (σ.code s)) := by
  obtain ⟨fs, σ, hsub, hrun, hrefines⟩ := refines_exec h
  exact ⟨fs, σ, hsub, hrun, hrefines.unlocked, hrefines.socks, hrefines.settled⟩

theorem locked_updates_are_atomic_contended : ∃ τ fs σ,
    exec (LockedThreads.step (ascii "gw1")) (.initial ∅) contendedRun = some τ ∧
      fs.Sublist contendedRun ∧ exec (Threads.step (ascii "gw1")) (.initial ∅) fs = some σ ∧
      τ.lock.free = ⟨σ.gateway.sockets, σ.gateway.listeners, σ.table⟩ := by
  obtain ⟨fs, σ, hsub, hrun, hfree, -⟩ :=
    @locked_updates_are_atomic (ascii "gw1") ∅ contendedRun _ rfl
  exact ⟨_, fs, σ, rfl, hsub, hrun, hfree⟩

/-! ## Looking a client up without the lock

`sendTextMessageToClient` and `sendBinaryMessageToClient` do not take the lock for their
lookup. Nothing is said of one that overlaps a locked body, which is a data race. What is
said of the others is about runs in which the steps of all threads are in one order. -/

inductive Found
  | nothing
  /-- an entry whose pointer is null, which the senders go on to follow -/
  | null
  | socket (socket : SocketId)
deriving DecidableEq, Repr

/-- `clients.find(clientId)`, in a map that does not change meanwhile. -/
def ClientMap.find (clients : ClientMap) (clientId : Bytes) : Found :=
  match clients.lookup clientId with
  | none => .nothing
  | some none => .null
  | some (some s) => .socket s

/-- A lookup that begins in `τ` and ends after `during` finds `f`: at no moment of it a
thread is in a locked body. -/
def LockedThreads.Finds (name : Bytes) (τ : LockedThreads) (during : List Move)
    (clientId : Bytes) (f : Found) : Prop :=
  ∀ m, Visits (LockedThreads.step name) τ during m →
    m.lock.flag = false ∧ ClientMap.find m.lock.guarded clientId = f

theorem LockedThreads.guarded_of_step {name : Bytes} {τ τ' : LockedThreads} {e : Move}
    (hexclusive : τ.lock.Exclusive) (hflag : τ.lock.flag = false)
    (hstep : τ.step name e = some τ') : τ'.lock.guarded = τ.lock.guarded := by
  cases e with
  | act s ok =>
      obtain ⟨lock, hlock, rfl⟩ := Option.map_eq_some_iff.mp hstep
      cases SpinLock.step_cases hlock with
      | inside hs =>
          rw [hexclusive.flag.mpr ⟨s, _, _, hs⟩] at hflag
          cases hflag
      | spin | acquire | free | release => rfl
  | afterCreate | close | beforeDestroy =>
      simp only [LockedThreads.step] at hstep
      split at hstep
      · cases hstep
        rfl
      · cases hstep

theorem LockedThreads.finds_of_clear {name : Bytes} {table : Table} {es during : List Move}
    {τ : LockedThreads} (h : exec (LockedThreads.step name) (.initial table) es = some τ)
    (hclear : ∀ m, Visits (LockedThreads.step name) τ during m → m.lock.flag = false)
    (c : Bytes) : τ.Finds name during c (ClientMap.find τ.lock.guarded c) := by
  intro m hm
  have hinv : (∃ gs, exec (LockedThreads.step name) (.initial table) gs = some m) ∧
      m.lock.guarded = τ.lock.guarded := by
    refine @guarded_invariant_visits _ _ (LockedThreads.step name) τ
      (fun m => (∃ gs, exec (LockedThreads.step name) (.initial table) gs = some m) ∧
        m.lock.guarded = τ.lock.guarded)
      (fun m _ => m.lock.flag = false) ⟨⟨es, h⟩, rfl⟩ ?_ during
      (fun n e htakes => hclear n htakes.visits) m hm
    intro n e n' hn hflag hstep
    obtain ⟨⟨gs, hgs⟩, hsame⟩ := hn
    obtain ⟨-, σ, -, -, hrefines⟩ := refines_exec hgs
    refine ⟨⟨gs ++ [e], by rw [exec_concat, hgs]; exact hstep⟩, ?_⟩
    exact (LockedThreads.guarded_of_step hrefines.exclusive hflag hstep).trans hsame
  exact ⟨hclear m hm, by rw [hinv.2]⟩

theorem LockedThreads.Refines.find {τ : LockedThreads} {σ : Threads} (h : τ.Refines σ)
    (hflag : τ.lock.flag = false) {c : Bytes} :
    ClientMap.find τ.lock.guarded c ≠ .null ∧
      ∀ s, ClientMap.find τ.lock.guarded c = .socket s →
        σ.gateway.clients.lookup c = some s := by
  rw [ClientMap.find, (h.settled hflag).1]
  cases hlook : σ.gateway.clients.lookup c with
  | none => simp
  | some s => simp

/-- A lookup without the lock, over any part of any run: it races with a locked body, or
it finds one and the same all the time. That is never a null pointer, and a socket only
under the client id that it was opened for, and only while its destruction is not over. -/
theorem unlocked_lookup_finds_own_socket {name : Bytes} {table : Table} {es during : List Move}
    {τ : LockedThreads} (h : exec (LockedThreads.step name) (.initial table) es = some τ)
    (c : Bytes) :
    ((∃ m s, Visits (LockedThreads.step name) τ during m ∧ m.lock.Inside s) ∨
      ∃ f, τ.Finds name during c f) ∧
    ∀ f, τ.Finds name during c f → f ≠ .null ∧
      ∀ s, f = .socket s → ∀ m, Visits (LockedThreads.step name) τ during m →
        ∃ stage, m.socks s = some (c, stage) ∧
          ¬ (stage = .beforeDestroy ∧ m.lock.threads s = .outside []) := by
  have hreached {m : LockedThreads} (hm : Visits (LockedThreads.step name) τ during m) :
      ∃ σ, m.Refines σ ∧ σ.Inv name := by
    obtain ⟨gs, hgs⟩ := hm.exec h
    obtain ⟨fs, σ, -, hrun, hrefines⟩ := refines_exec hgs
    exact ⟨σ, hrefines,
      invariant (Threads.Inv.initial name table) (fun _ _ _ hσ hs => hσ.step hs) hrun⟩
  constructor
  · by_cases hclear : ∀ m, Visits (LockedThreads.step name) τ during m → m.lock.flag = false
    · exact .inr ⟨_, LockedThreads.finds_of_clear h hclear c⟩
    · simp only [not_forall, Bool.not_eq_false] at hclear
      obtain ⟨m, hm, hflag⟩ := hclear
      obtain ⟨σ, hrefines, -⟩ := hreached hm
      obtain ⟨s, hs⟩ := hrefines.exclusive.flag.mp hflag
      exact .inl ⟨m, s, hm, hs⟩
  · intro f hfinds
    refine ⟨?_, ?_⟩
    · obtain ⟨hflag, hfind⟩ := hfinds τ ⟨[], List.nil_prefix, rfl⟩
      obtain ⟨σ, hrefines, -⟩ := hreached ⟨[], List.nil_prefix, rfl⟩
      rw [← hfind]
      exact (hrefines.find hflag).1
    · intro s hs m hm
      obtain ⟨hflag, hfind⟩ := hfinds m hm
      obtain ⟨σ, hrefines, hinv⟩ := hreached hm
      obtain ⟨k, hk, rfl, hmay⟩ := hinv.holds c s ((hrefines.find hflag).2 s (hfind.trans hs))
      refine ⟨k.stage, by rw [hrefines.socks, hk]; rfl, fun hdone => ?_⟩
      rcases hdone with ⟨hstage, hthread⟩
      -- the entry is erased before the destruction is over
      have hcode : σ.code s = [] :=
        (SpinLock.Thread.outside.inj ((hrefines.settled hflag).2 s ▸ hthread))
      have htodo : k.todo = [] := by simpa [Threads.code, hk] using hcode
      have hleft := hmay.2 hstage
      rw [htodo] at hleft
      cases hleft

/-- The socket is stored, and its row is written while the lookup runs. Half-way through
the storing the lookup would race. -/
theorem unlocked_lookup_contended : ∃ τ, exec (LockedThreads.step (ascii "gw1")) (.initial ∅)
    (contendedRun ++ [.act 1 true, .act 1 true]) = some τ ∧
      τ.Finds (ascii "gw1") [.act 1 true] (ascii "VIN1") (.socket 1) ∧
      (∀ m, Visits (LockedThreads.step (ascii "gw1")) τ [.act 1 true] m →
        ∃ stage, m.socks 1 = some (ascii "VIN1", stage) ∧
          ¬ (stage = .beforeDestroy ∧ m.lock.threads 1 = .outside [])) ∧
      ∃ σ, exec (LockedThreads.step (ascii "gw1")) (.initial ∅) contendedRun = some σ ∧
        σ.lock.flag = true := by
  have hfinds (τ : LockedThreads) (h : exec (LockedThreads.step (ascii "gw1")) (.initial ∅)
      (contendedRun ++ [.act 1 true, .act 1 true]) = some τ) :
      τ.Finds (ascii "gw1") [.act 1 true] (ascii "VIN1") (.socket 1) := by
    cases h
    refine @LockedThreads.finds_of_clear (ascii "gw1") ∅
      (contendedRun ++ [.act 1 true, .act 1 true]) [.act 1 true] _ rfl ?_ (ascii "VIN1")
    intro m hm
    rcases visits_cons_iff.mp hm with heq | ⟨t, ht, hm⟩
    · rw [heq]
    · cases ht
      rw [visits_nil_iff.mp hm]
      rfl
  refine ⟨_, rfl, hfinds _ rfl, ?_, _, rfl, rfl⟩
  exact ((@unlocked_lookup_finds_own_socket (ascii "gw1") ∅
    (contendedRun ++ [.act 1 true, .act 1 true]) [.act 1 true] _ rfl (ascii "VIN1")).2 _
      (hfinds _ rfl)).2 1 rfl

end WsGateway.Registry
