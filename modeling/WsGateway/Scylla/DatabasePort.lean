import WsGateway.Startup.Split
import WsGateway.Lib.Cql
import WsGateway.Lib.Lists

/-!
# The port that `connect` sets

The loop over the listed ports parses the whole list each time, and so does the
branch for lists of different lengths. A list of several ports is not a number up to
its end, so that none of them is ever set; a single one is narrowed to 16 bits. The
lists themselves are split as they were joined.
-/

namespace WsGateway.Scylla

open Lib Lib.Cql Lib.Stream Startup

inductive DriverCall
  | setContactPoints (hosts : Bytes)
  | setPort (port : Int)
  | sessionConnect
deriving DecidableEq

/-- `(uint16_t)std::strtol(m_scylladb_port.c_str(), &end, 10)`, if `*end` is NUL. -/
def parsedPort (scylladbPort : Bytes) : Option UInt16 :=
  let (value, rest) := strtol (cString scylladbPort)
  if rest = [] then some (UInt16.ofInt value) else none

/-- The calls of the driver that `connect` makes, with `m_scylladb_port`. -/
def connect (scylladbPort hosts : Bytes) : List DriverCall :=
  let hostsVec := split hosts comma
  let portsVec := split scylladbPort comma
  let i : UInt16 := 0
  let setPorts :=
    if portsVec.length ≠ hostsVec.length then
      (parsedPort scylladbPort).toList.map fun port => DriverCall.setPort port.toNat
    else
      portsVec.flatMap fun p =>
        if p ≠ [] then
          (parsedPort scylladbPort).toList.map fun port => DriverCall.setPort (port.toNat + i.toNat)
        else []
  .setContactPoints (cString hosts) :: (setPorts ++ [.sessionConnect])

/-! ## The property -/

/-- The entry is a number as a whole. -/
def EntryValue (entry : Bytes) (n : Int) : Prop := readInt (cString entry) = some (n, [])

/-- Decimal ports with commas between them. -/
def PortList (ports : Bytes) (entries : List Bytes) : Prop :=
  entries ≠ [] ∧ ports = [comma].intercalate entries ∧
    ∀ entry ∈ entries, ∃ n, 1 ≤ n ∧ n ≤ 65535 ∧ DecimalOf entry n

/-- From a list of ports one is set before the session is opened, and only listed ones
are; and whatever the port string is, only values of its entries are set. -/
structure SetsListedPort (ports hosts : Bytes) : Prop where
  list : ∀ entries, PortList ports entries →
    (∃ before port after, connect ports hosts = before ++ .sessionConnect :: after ∧
      .setPort port ∈ before) ∧
    ∀ port, .setPort port ∈ connect ports hosts → ∃ entry ∈ entries, EntryValue entry port
  value : ∀ port, .setPort port ∈ connect ports hosts →
    ∃ entry ∈ split ports comma, EntryValue entry port

/-- `(uint16_t)` of what `strtol` makes of a number. -/
def narrowed (n : Int) : UInt16 := UInt16.ofInt (max (-2 ^ 63) (min n (2 ^ 63 - 1)))

/-- The port string is not a list of several ports, fits into 16 bits if it is a number,
and is missing only if there is nothing to connect to. -/
structure PortUsable (ports hosts : Bytes) : Prop where
  single : ∀ entries, PortList ports entries → entries.length = 1
  fits : ∀ n, EntryValue ports n → 0 ≤ n ∧ n ≤ 65535
  missing : ports = [] → hosts = []

/-- `strtol` sees only what is in front of a NUL, but the entries behind it are listed. -/
structure UsableBeforeNul (ports : Bytes) : Prop where
  fits : ∀ n, EntryValue ports n → (0 ≤ n ∧ n ≤ 65535) ∨
    ∃ entry ∈ split ports comma, EntryValue entry (narrowed n).toNat
  missing : cString ports = [] → ∃ entry ∈ split ports comma, EntryValue entry 0

/-! ## What is parsed -/

theorem EntryValue.ne_nil {entry : Bytes} {n : Int} (h : EntryValue entry n) : entry ≠ [] := by
  intro hnil
  rw [hnil] at h
  cases h

theorem EntryValue.of_decimalOf {entry : Bytes} {n : Nat} (h : DecimalOf entry n) :
    EntryValue entry n := by
  have hcstring : cString entry = entry :=
    List.takeWhile_eq_self_iff.mpr (bne_of_not_mem (h.not_mem (by decide)))
  rw [EntryValue, hcstring, readInt_digits h.1 h.isDigit_of_mem, h.2.2]

theorem parsedPort_of_value {ports : Bytes} {n : Int} (h : EntryValue ports n) :
    parsedPort ports = some (narrowed n) := by
  simp [parsedPort, strtol, narrowed, show readInt (cString ports) = some (n, []) from h]

theorem parsedPort_of_empty {ports : Bytes} (h : cString ports = []) :
    parsedPort ports = some 0 := by
  rw [parsedPort, h]
  rfl

theorem parsedPort_cases {ports : Bytes} {port : UInt16} (h : parsedPort ports = some port) :
    (∃ n, EntryValue ports n) ∨ cString ports = [] := by
  unfold parsedPort strtol at h
  cases hread : readInt (cString ports) with
  | none =>
      rw [hread] at h
      dsimp only at h
      split at h
      · rename_i hnil
        exact .inr hnil
      · cases h
  | some read =>
      rcases read with ⟨n, rest⟩
      rw [hread] at h
      dsimp only at h
      split at h
      · rename_i hnil
        rw [hnil] at hread
        exact .inl ⟨n, hread⟩
      · cases h

theorem comma_not_mem_of_parsedPort {ports : Bytes} {port : UInt16}
    (h : parsedPort ports = some port) : comma ∉ cString ports := by
  rcases parsedPort_cases h with ⟨n, hn⟩ | hnil
  · exact not_mem_of_readInt hn (by decide) (by decide) (by decide) (by decide)
  · rw [hnil]
    exact List.not_mem_nil

/-- What is parsed is the first entry. -/
theorem first_entry {ports : Bytes} (hne : ports ≠ []) (h : comma ∉ cString ports) :
    ∃ entry ∈ split ports comma, entry ≠ [] ∧ cString entry = cString ports := by
  rcases token_cases comma ports with hlast | ⟨entry, rest, hentry, rfl⟩
  · exact ⟨ports, by rw [split_last hlast hne]; exact List.mem_cons_self, hne, rfl⟩
  · have hnul : 0 ∈ entry := by
      by_contra hnul
      have hcomma : comma ∈ cString (entry ++ comma :: rest) := by
        rw [cString_append hnul, cString, List.takeWhile_cons, if_pos (by decide)]
        simp
      exact h hcomma
    refine ⟨entry, by rw [split_token hentry]; exact List.mem_cons_self,
      List.ne_nil_of_mem hnul, (cString_append_of_mem hnul _).symm⟩

/-! ## What is set -/

theorem connect_concat (ports hosts : Bytes) :
    ∃ before, connect ports hosts = before ++ [.sessionConnect] :=
  ⟨.setContactPoints (cString hosts) :: _, rfl⟩

theorem setPort_mem_connect {ports hosts : Bytes} {port : Int} :
    .setPort port ∈ connect ports hosts ↔ ∃ p, parsedPort ports = some p ∧ port = p.toNat ∧
      ((split ports comma).length ≠ (split hosts comma).length ∨
        ∃ entry ∈ split ports comma, entry ≠ []) := by
  have hmem : .setPort port ∈ connect ports hosts ↔ .setPort port ∈
      (if (split ports comma).length ≠ (split hosts comma).length then
        (parsedPort ports).toList.map fun port => DriverCall.setPort port.toNat
      else (split ports comma).flatMap fun p =>
        if p ≠ [] then (parsedPort ports).toList.map fun port =>
          DriverCall.setPort (port.toNat + (0 : UInt16).toNat) else []) := by
    simp [connect]
  rw [hmem]
  split
  · rename_i hlength
    simp [hlength, eq_comm, Option.mem_toList]
  · rename_i hlength
    have hzero : (0 : UInt16).toNat = 0 := rfl
    simp only [List.mem_flatMap, ite_not, List.mem_ite_nil_left, List.mem_map, Option.mem_toList,
      hzero, Nat.cast_zero, add_zero, DriverCall.setPort.injEq, hlength, false_or]
    constructor
    · intro h
      rcases h with ⟨entry, hentry, hne, p, hp, rfl⟩
      exact ⟨p, hp, rfl, entry, hentry, hne⟩
    · intro h
      rcases h with ⟨p, hp, rfl, entry, hentry, hne⟩
      exact ⟨entry, hentry, hne, p, hp, rfl⟩

theorem setPort_of_parsedPort {ports hosts : Bytes} {p : UInt16} (h : parsedPort ports = some p)
    (hne : ports ≠ [] ∨ hosts ≠ []) : .setPort p.toNat ∈ connect ports hosts := by
  refine setPort_mem_connect.mpr ⟨p, h, rfl, ?_⟩
  by_cases hports : ports = []
  · have hhosts := hne.resolve_left (not_not.mpr hports)
    refine .inl ?_
    rw [hports, split_nil]
    intro hlength
    exact split_ne_nil comma hhosts (List.length_eq_zero_iff.mp hlength.symm)
  · obtain ⟨entry, hentry, hnil, -⟩ := first_entry hports (comma_not_mem_of_parsedPort h)
    exact .inr ⟨entry, hentry, hnil⟩

theorem parsedPort_of_portList {ports : Bytes} {entries : List Bytes} (h : PortList ports entries)
    {p : UInt16} (hp : parsedPort ports = some p) : entries.length = 1 := by
  rcases h with ⟨hne, rfl, hall⟩
  obtain ⟨entry, rest, rfl⟩ := List.exists_cons_of_ne_nil hne
  cases rest with
  | nil => rfl
  | cons next rest =>
      obtain ⟨n, -, -, hn⟩ := hall entry List.mem_cons_self
      have hnul : 0 ∉ entry := hn.not_mem (by decide)
      refine absurd ?_ (comma_not_mem_of_parsedPort hp)
      rw [List.intercalate_cons_cons, List.append_assoc, cString_append hnul, cString,
        List.singleton_append, List.takeWhile_cons, if_pos (by decide)]
      simp

/-! ## Exactly when a listed port is set -/

theorem toNat_narrowed {n : Int} (h : 0 ≤ n ∧ n ≤ 65535) : ((narrowed n).toNat : Int) = n := by
  rw [narrowed, toNat_uint16]
  omega

theorem listed_of_fits {ports : Bytes} {n : Int} (hn : EntryValue ports n)
    (h : 0 ≤ n ∧ n ≤ 65535) :
    ∃ entry ∈ split ports comma, EntryValue entry (narrowed n).toNat := by
  obtain ⟨entry, hentry, -, hfirst⟩ :=
    first_entry hn.ne_nil (comma_not_mem_of_parsedPort (parsedPort_of_value hn))
  refine ⟨entry, hentry, ?_⟩
  rw [toNat_narrowed h, EntryValue, hfirst]
  exact hn

/-- Only values of entries are set exactly if what is parsed is one, or nothing is set. -/
theorem setsListed_iff (ports hosts : Bytes) :
    (∀ port, .setPort port ∈ connect ports hosts →
        ∃ entry ∈ split ports comma, EntryValue entry port) ↔
      (∀ n, EntryValue ports n →
        ∃ entry ∈ split ports comma, EntryValue entry (narrowed n).toNat) ∧
      (cString ports = [] → (ports = [] ∧ hosts = []) ∨
        ∃ entry ∈ split ports comma, EntryValue entry 0) := by
  constructor
  · intro h
    refine ⟨fun n hn => ?_, fun hnil => ?_⟩
    · exact h _ (setPort_of_parsedPort (parsedPort_of_value hn) (.inl hn.ne_nil))
    · by_cases hne : ports ≠ [] ∨ hosts ≠ []
      · exact .inr (h _ (setPort_of_parsedPort (parsedPort_of_empty hnil) hne))
      · rw [not_or, not_not, not_not] at hne
        exact .inl hne
  · intro h port hport
    rcases h with ⟨hvalue, hmissing⟩
    obtain ⟨p, hp, rfl, hset⟩ := setPort_mem_connect.mp hport
    rcases parsedPort_cases hp with ⟨n, hn⟩ | hnil
    · rw [parsedPort_of_value hn, Option.some.injEq] at hp
      subst hp
      exact hvalue n hn
    · rw [parsedPort_of_empty hnil, Option.some.injEq] at hp
      subst hp
      rcases hmissing hnil with ⟨hports, hhosts⟩ | hentry
      · rw [hports, hhosts, split_nil] at hset
        simp at hset
      · exact hentry

theorem sets_single {ports hosts : Bytes} {entries : List Bytes} (h : PortList ports entries)
    (hsingle : entries.length = 1) :
    (∃ before port after, connect ports hosts = before ++ .sessionConnect :: after ∧
      .setPort port ∈ before) ∧ split ports comma = entries := by
  rcases h with ⟨-, rfl, hall⟩
  obtain ⟨entry, rfl⟩ := List.length_eq_one_iff.mp hsingle
  obtain ⟨n, -, -, hn⟩ := hall entry (List.mem_singleton_self entry)
  rw [List.intercalate_singleton]
  refine ⟨?_, split_last (hn.not_mem (by decide)) hn.1⟩
  have hparsed := parsedPort_of_value (.of_decimalOf hn)
  have hset := @setPort_of_parsedPort entry hosts _ hparsed (.inl hn.1)
  obtain ⟨before, hbefore⟩ := connect_concat entry hosts
  rw [hbefore, List.mem_append] at hset
  exact ⟨before, _, [], hbefore, hset.resolve_right (by simp)⟩

/-- What is left of the property is that only values of entries are set. -/
theorem setsListedPort_iff_single (ports hosts : Bytes) :
    SetsListedPort ports hosts ↔ (∀ entries, PortList ports entries → entries.length = 1) ∧
      ∀ port, .setPort port ∈ connect ports hosts →
        ∃ entry ∈ split ports comma, EntryValue entry port := by
  constructor
  · intro h
    refine ⟨fun entries hlist => ?_, h.value⟩
    obtain ⟨⟨before, port, after, heq, hport⟩, -⟩ := h.list entries hlist
    have hmem : .setPort port ∈ connect ports hosts := by
      rw [heq]
      exact List.mem_append_left _ hport
    obtain ⟨p, hp, -⟩ := setPort_mem_connect.mp hmem
    exact parsedPort_of_portList hlist hp
  · intro h
    rcases h with ⟨hsingle, hvalue⟩
    refine ⟨fun entries hlist => ?_, hvalue⟩
    obtain ⟨hset, hentries⟩ := @sets_single ports hosts entries hlist (hsingle entries hlist)
    exact ⟨hset, fun port hport => hentries ▸ hvalue port hport⟩

theorem nul_not_mem_of_portList {ports : Bytes} {entries : List Bytes}
    (h : PortList ports entries) : 0 ∉ ports := by
  rcases h with ⟨-, rfl, hall⟩
  intro hnul
  rcases mem_of_mem_intercalate hnul with hcomma | ⟨entry, hentry, hmem⟩
  · exact absurd hcomma (by decide)
  · obtain ⟨n, -, -, hn⟩ := hall entry hentry
    exact hn.not_mem (by decide) hmem

/-- `connect` sets a listed port, and no other, exactly if the port string is usable. No
variable of the environment has a NUL in its value; a string with one is no list of
ports, and only its part in front of the NUL is parsed. -/
theorem setsListedPort_iff (ports hosts : Bytes) :
    (0 ∉ ports → (SetsListedPort ports hosts ↔ PortUsable ports hosts)) ∧
      (0 ∈ ports → (SetsListedPort ports hosts ↔ UsableBeforeNul ports)) := by
  rw [setsListedPort_iff_single, setsListed_iff]
  constructor
  · intro hnul
    have hcstring : cString ports = ports :=
      List.takeWhile_eq_self_iff.mpr (bne_of_not_mem hnul)
    constructor
    · intro h
      rcases h with ⟨hsingle, hvalue, hmissing⟩
      refine ⟨hsingle, fun n hn => ?_, fun hports => ?_⟩
      · obtain ⟨entry, hentry, hnarrow⟩ := hvalue n hn
        have hcomma := comma_not_mem_of_parsedPort (parsedPort_of_value hn)
        rw [hcstring] at hcomma
        rw [split_last hcomma hn.ne_nil, List.mem_singleton] at hentry
        subst hentry
        have hsame : n = (narrowed n).toNat :=
          (Prod.mk.inj (Option.some.inj (hn.symm.trans hnarrow))).1
        have hlt := (narrowed n).toNat_lt
        omega
      · rcases hmissing (by rw [hcstring, hports]) with ⟨-, hhosts⟩ | ⟨entry, hentry, -⟩
        · exact hhosts
        · rw [hports, split_nil] at hentry
          cases hentry
    · intro h
      refine ⟨h.single, fun n hn => listed_of_fits hn (h.fits n hn), fun hnil => .inl ?_⟩
      rw [hcstring] at hnil
      exact ⟨hnil, h.missing hnil⟩
  · intro hnul
    have hne : ports ≠ [] := List.ne_nil_of_mem hnul
    constructor
    · intro h
      rcases h with ⟨-, hvalue, hmissing⟩
      exact ⟨fun n hn => .inr (hvalue n hn), fun hnil => (hmissing hnil).resolve_left (hne ·.1)⟩
    · intro h
      refine ⟨fun entries hlist => absurd hnul (nul_not_mem_of_portList hlist),
        fun n hn => (h.fits n hn).elim (listed_of_fits hn) id, fun hnil => .inr (h.missing hnil)⟩

/-- The ports of two nodes: none is set. And a port that does not fit into 16 bits:
another one is set. -/
theorem two_ports_not_set :
    PortList (ascii "9042,9043") [ascii "9042", ascii "9043"] ∧
      (∀ port, .setPort port ∉ connect (ascii "9042,9043") (ascii "127.0.0.1,127.0.0.2")) ∧
      ¬ SetsListedPort (ascii "9042,9043") (ascii "127.0.0.1,127.0.0.2") ∧
      .setPort 4464 ∈ connect (ascii "70000") (ascii "127.0.0.1") ∧
      ¬ SetsListedPort (ascii "70000") (ascii "127.0.0.1") := by
  have hlist : PortList (ascii "9042,9043") [ascii "9042", ascii "9043"] := by
    refine ⟨by decide, by decide, ?_⟩
    intro entry hentry
    rcases List.mem_cons.mp hentry with rfl | hentry
    · exact ⟨9042, by decide, by decide, by decide⟩
    · rw [List.mem_singleton.mp hentry]
      exact ⟨9043, by decide, by decide, by decide⟩
  have hparsed : parsedPort (ascii "9042,9043") = none := by decide
  have hnone : ∀ port,
      .setPort port ∉ connect (ascii "9042,9043") (ascii "127.0.0.1,127.0.0.2") := by
    intro port hport
    obtain ⟨p, hp, -⟩ := setPort_mem_connect.mp hport
    rw [hparsed] at hp
    cases hp
  have hcalls : .setPort 4464 ∈ connect (ascii "70000") (ascii "127.0.0.1") :=
    setPort_of_parsedPort (p := 4464) (by decide) (.inl (by decide))
  refine ⟨hlist, hnone, fun h => ?_, hcalls, fun h => ?_⟩
  · obtain ⟨⟨before, port, after, heq, hport⟩, -⟩ := h.list _ hlist
    refine hnone port ?_
    rw [heq]
    exact List.mem_append_left _ hport
  · obtain ⟨entry, hentry, hvalue⟩ := h.value _ hcalls
    rw [split_last (by decide) (by decide), List.mem_singleton] at hentry
    rw [hentry] at hvalue
    exact absurd hvalue (by unfold EntryValue; decide)

/-! ## The lists that are compared -/

/-- The calls for lists of entries: a port that is parsed is set once if there are more of
the one than of the other, and else once for each port entry that is not empty. -/
theorem connect_join {ports hosts : List Bytes} (hports : Joinable comma ports)
    (hhosts : Joinable comma hosts) :
    connect ([comma].intercalate ports) ([comma].intercalate hosts) =
      .setContactPoints (cString ([comma].intercalate hosts)) ::
        ((List.replicate
            (if ports.length ≠ hosts.length then 1 else ports.countP (fun p => p ≠ []))
            ((parsedPort ([comma].intercalate ports)).toList.map fun port =>
              DriverCall.setPort port.toNat)).flatten ++ [.sessionConnect]) := by
  have hzero : ((0 : UInt16).toNat : Int) = 0 := rfl
  simp only [connect, split_join hports.free hports.last, split_join hhosts.free hhosts.last,
    hzero, add_zero]
  by_cases hlength : ports.length = hosts.length
  · rw [if_neg (not_not.mpr hlength), if_neg (not_not.mpr hlength), flatMap_not_nil]
  · rw [if_pos hlength, if_pos hlength, List.replicate_one, List.flatten_singleton]

theorem setsListedPort_of_one_port :
    SetsListedPort (ascii "9042") (ascii "127.0.0.1,127.0.0.2") ∧
      connect (ascii "9042") (ascii "127.0.0.1,127.0.0.2") =
        [.setContactPoints (ascii "127.0.0.1,127.0.0.2"), .setPort 9042, .sessionConnect] := by
  have hparsed : parsedPort (ascii "9042") = some 9042 := by decide
  have hvalue : EntryValue (ascii "9042") 9042 := .of_decimalOf (by decide)
  refine ⟨((setsListedPort_iff (ascii "9042") (ascii "127.0.0.1,127.0.0.2")).1 (by decide)).mpr
    ⟨fun entries hlist => parsedPort_of_portList hlist hparsed, fun n hn => ?_, nofun⟩, ?_⟩
  · obtain rfl : n = 9042 := (Prod.mk.inj (Option.some.inj (hn.symm.trans hvalue))).1
    decide
  · have hports : ascii "9042" = [comma].intercalate [ascii "9042"] := by decide
    have hhosts : ascii "127.0.0.1,127.0.0.2" =
        [comma].intercalate [ascii "127.0.0.1", ascii "127.0.0.2"] := by decide
    rw [hports, hhosts, connect_join ⟨by decide, by decide⟩ ⟨by decide, by decide⟩]
    decide

/-- Splitting and joining undo each other, up to one delimiter at the end of the string:
each entry is one token, also an empty one in the middle, and so the lists of hosts and
ports that are compared are those that were joined. -/
theorem split_join_inverse (delimiter : UInt8) (str : Bytes) :
    (∀ token ∈ split str delimiter, delimiter ∉ token) ∧
    ([delimiter].intercalate (split str delimiter) =
      if str.getLast? = some delimiter then str.dropLast else str) ∧
    (∀ list, Joinable delimiter list → split ([delimiter].intercalate list) delimiter = list) ∧
    ((split str delimiter).length =
      str.count delimiter + if str = [] ∨ str.getLast? = some delimiter then 0 else 1) ∧
    ∀ ports hosts, Joinable comma ports → Joinable comma hosts →
      connect ([comma].intercalate ports) ([comma].intercalate hosts) =
        .setContactPoints (cString ([comma].intercalate hosts)) ::
          ((List.replicate
              (if ports.length ≠ hosts.length then 1 else ports.countP (fun p => p ≠ []))
              ((parsedPort ([comma].intercalate ports)).toList.map fun port =>
                DriverCall.setPort port.toNat)).flatten ++ [.sessionConnect]) :=
  ⟨fun _ => not_mem_of_mem_split, join_split delimiter str,
    fun _ hlist => split_join hlist.free hlist.last, length_split delimiter str,
    fun _ _ => connect_join⟩

/-- An empty entry in the middle is a token like the others. -/
theorem split_join_gap :
    split (ascii "9042,,9043") comma = [ascii "9042", [], ascii "9043"] := by
  have hentries : Joinable comma [ascii "9042", [], ascii "9043"] := ⟨by decide, by decide⟩
  have htext : ascii "9042,,9043" = [comma].intercalate [ascii "9042", [], ascii "9043"] := by
    decide
  obtain ⟨-, -, hjoin, -⟩ := split_join_inverse comma (ascii "9042,,9043")
  rw [htext]
  exact hjoin _ hentries

end WsGateway.Scylla
