import Mathlib.Data.List.Nodup
import WsGateway.Startup.Settings

/-!
# The ports of the connection providers

The loop adds its counter to the base port, and `oatpp::network::Address` takes 16 bits
of the sum. The counter cannot wrap around, since it stays below a number of its own
type; the port does, and listens at the other end of the range.
-/

namespace WsGateway.Startup

open Lib

structure Platform where
  /-- `getSSLContext` does not exit -/
  sslContext : Bool
  /-- `createShared` does not throw for this port, after providers were created at those -/
  createShared : List UInt16 → UInt16 → Bool

inductive Providers
  /-- the providers that the component consists of, by their ports -/
  | listening (ports : List UInt16)
  /-- `exit(-1)`, after these providers were created -/
  | exited (ports : List UInt16)
deriving DecidableEq

/-- `port + i`, as the `v_uint16` of an address. -/
def listeningPort (port : UInt16) (i : Nat) : UInt16 := UInt16.ofNat (port.toNat + i)

theorem toNat_succ_of_lt {i n : UInt8} (h : i < n) : (i + 1).toNat = i.toNat + 1 := by
  have hlt : i.toNat < n.toNat := UInt8.lt_iff_toNat_lt.mp h
  have hn := n.toNat_lt
  have hone : (1 : UInt8).toNat = 1 := rfl
  rw [UInt8.toNat_add, hone]
  omega

def providersFrom (platform : Platform) (port : UInt16) (numberOfPorts i : UInt8)
    (providers : List UInt16) : Providers :=
  if i < numberOfPorts then
    if platform.createShared providers (listeningPort port i.toNat) then
      providersFrom platform port numberOfPorts (i + 1)
        (providers ++ [listeningPort port i.toNat])
    else .exited providers
  else .listening providers
termination_by numberOfPorts.toNat - i.toNat
decreasing_by
  rename_i hlt _
  have hsucc := toNat_succ_of_lt hlt
  have hlt' := UInt8.lt_iff_toNat_lt.mp hlt
  omega

def connectionProviders (platform : Platform) (cmdArgs : Config) : Providers :=
  let port := if cmdArgs.useMtls then cmdArgs.mtlsBasePort else cmdArgs.basePort
  if cmdArgs.useMtls ∧ platform.sslContext = false then .exited []
  else providersFrom platform port cmdArgs.numberOfPorts 0 []

/-! ## The property -/

def Config.port (cmdArgs : Config) : UInt16 :=
  if cmdArgs.useMtls then cmdArgs.mtlsBasePort else cmdArgs.basePort

/-- The program stops before any provider is created, or there is one for each of the
`n` ports from `base` on, all of them different and in the range of ports. -/
def Providers.Consecutive (base n : Nat) (providers : Providers) : Prop :=
  providers = .exited [] ∨ ∃ ports, providers = .listening ports ∧
    ports.map UInt16.toNat = List.range' base n ∧ ports.Nodup ∧
    ∀ port ∈ ports, 1 ≤ port.toNat ∧ port.toNat ≤ 65535

def firstPorts (port : UInt16) (k : Nat) : List UInt16 := (List.range k).map (listeningPort port)

/-- No provider is created at all, or the ports fit into the range and every provider
can be created. -/
structure PortsFit (platform : Platform) (port : UInt16) (n : UInt8) : Prop where
  positive : 1 ≤ port.toNat
  fit : port.toNat + n.toNat ≤ 65536
  created : ∀ k < n.toNat, platform.createShared (firstPorts port k) (listeningPort port k) = true

/-! ## The loop -/

theorem firstPorts_succ (port : UInt16) (k : Nat) :
    firstPorts port (k + 1) = firstPorts port k ++ [listeningPort port k] := by
  rw [firstPorts, List.range_succ, List.map_append]
  rfl

/-- The loop stops at the first provider that cannot be created, or else after exactly
`n` iterations. -/
theorem providersFrom_cases (platform : Platform) (port : UInt16) (n i : UInt8) (hi : i ≤ n) :
    ((∀ k, i.toNat ≤ k → k < n.toNat →
        platform.createShared (firstPorts port k) (listeningPort port k) = true) ∧
      providersFrom platform port n i (firstPorts port i.toNat) =
        .listening (firstPorts port n.toNat)) ∨
    ∃ k, i.toNat ≤ k ∧ k < n.toNat ∧
      platform.createShared (firstPorts port k) (listeningPort port k) = false ∧
      (∀ j, i.toNat ≤ j → j < k →
        platform.createShared (firstPorts port j) (listeningPort port j) = true) ∧
      providersFrom platform port n i (firstPorts port i.toNat) = .exited (firstPorts port k) := by
  induction hd : n.toNat - i.toNat generalizing i with
  | zero =>
      have heq : i = n := by
        have hle := UInt8.le_iff_toNat_le.mp hi
        exact UInt8.toNat_inj.mp (by omega)
      subst heq
      refine .inl ⟨fun k hk hlt => by omega, ?_⟩
      rw [providersFrom, if_neg (UInt8.lt_irrefl i)]
  | succ d ih =>
      have hlt : i < n := UInt8.lt_iff_toNat_lt.mpr (by omega)
      have hsucc := toNat_succ_of_lt hlt
      rw [providersFrom, if_pos hlt]
      by_cases hcreate :
          platform.createShared (firstPorts port i.toNat) (listeningPort port i.toNat) = true
      · rw [if_pos hcreate, ← firstPorts_succ, ← hsucc]
        have hle : i + 1 ≤ n := UInt8.le_iff_toNat_le.mpr (by omega)
        have hfrom {k : Nat} (hall : ∀ j, (i + 1).toNat ≤ j → j < k →
            platform.createShared (firstPorts port j) (listeningPort port j) = true) (j : Nat)
            (hj : i.toNat ≤ j) (hjk : j < k) :
            platform.createShared (firstPorts port j) (listeningPort port j) = true := by
          by_cases heq : j = i.toNat
          · rw [heq]
            exact hcreate
          · exact hall j (by omega) hjk
        rcases ih (i + 1) hle (by omega) with ⟨hall, hloop⟩ | ⟨k, hk, hkn, hfail, hall, hloop⟩
        · exact .inl ⟨hfrom hall, hloop⟩
        · exact .inr ⟨k, by omega, hkn, hfail, hfrom hall, hloop⟩
      · rw [if_neg hcreate]
        exact .inr ⟨i.toNat, Nat.le_refl _, by omega, by simpa using hcreate,
          fun j hj hlt => by omega, rfl⟩

/-! ## Exactly when the ports are consecutive -/

theorem toNat_listeningPort {port : UInt16} {i : Nat} (h : port.toNat + i < 65536) :
    (listeningPort port i).toNat = port.toNat + i := by
  rw [listeningPort, UInt16.toNat_ofNat']
  omega

theorem map_toNat_firstPorts {port : UInt16} {n : Nat} (h : port.toNat + n ≤ 65536) :
    (firstPorts port n).map UInt16.toNat = List.range' port.toNat n := by
  rw [firstPorts, List.map_map, List.range'_eq_map_range]
  refine List.map_congr_left fun i hi => ?_
  rw [List.mem_range] at hi
  exact toNat_listeningPort (by omega)

theorem consecutive_firstPorts_iff (port : UInt16) (n : Nat) :
    (Providers.listening (firstPorts port n)).Consecutive port.toNat n ↔
      n = 0 ∨ (1 ≤ port.toNat ∧ port.toNat + n ≤ 65536) := by
  constructor
  · intro h
    rcases h with h | ⟨ports, heq, hmap, -, hbounds⟩
    · cases h
    · cases heq
      by_cases hn : n = 0
      · exact .inl hn
      · have hmem (k : Nat) (hk : k < n) : ∃ p ∈ firstPorts port n, p.toNat = port.toNat + k := by
          rw [← List.mem_map, hmap, List.mem_range'_1]
          omega
        obtain ⟨first, hfirst, hvalue⟩ := hmem 0 (by omega)
        obtain ⟨last, hlast, hvalue'⟩ := hmem (n - 1) (by omega)
        have hlow := (hbounds first hfirst).1
        have hhigh := (hbounds last hlast).2
        exact .inr ⟨by omega, by omega⟩
  · intro h
    rcases h with hn | ⟨hpos, hfit⟩
    · subst hn
      exact .inr ⟨_, rfl, rfl, List.nodup_nil, fun p hp => by cases hp⟩
    · have hmap := map_toNat_firstPorts hfit
      refine .inr ⟨_, rfl, hmap, ?_, ?_⟩
      · refine List.Nodup.of_map UInt16.toNat ?_
        rw [hmap]
        exact List.nodup_range'
      · intro p hp
        have hrange : p.toNat ∈ List.range' port.toNat n := by
          rw [← hmap]
          exact List.mem_map_of_mem hp
        rw [List.mem_range'_1] at hrange
        omega

theorem consecutive_exited_iff (port : UInt16) (k n : Nat) :
    (Providers.exited (firstPorts port k)).Consecutive port.toNat n ↔ k = 0 := by
  constructor
  · intro h
    rcases h with h | ⟨ports, heq, -⟩
    · have hlength := congrArg List.length (Providers.exited.inj h)
      simpa [firstPorts] using hlength
    · cases heq
  · intro h
    subst h
    exact .inl rfl

theorem consecutive_providersFrom_iff (platform : Platform) (port : UInt16) (n : UInt8) :
    (providersFrom platform port n 0 []).Consecutive port.toNat n.toNat ↔
      n = 0 ∨ platform.createShared [] port = false ∨ PortsFit platform port n := by
  have hzero : n = 0 ↔ n.toNat = 0 := UInt8.toNat_inj.symm
  have hfirst : platform.createShared [] port =
      platform.createShared (firstPorts port 0) (listeningPort port 0) := by
    rw [listeningPort, Nat.add_zero, UInt16.ofNat_toNat]
    rfl
  have hbegin : providersFrom platform port n 0 [] =
      providersFrom platform port n 0 (firstPorts port (0 : UInt8).toNat) := rfl
  rw [hbegin, hfirst, hzero]
  rcases providersFrom_cases platform port n 0 (UInt8.le_iff_toNat_le.mpr (Nat.zero_le _)) with
    ⟨hall, hloop⟩ | ⟨k, -, hk, hfail, hall, hloop⟩
  · rw [hloop, consecutive_firstPorts_iff]
    constructor
    · intro h
      rcases h with hnone | ⟨hpos, hfit⟩
      · exact .inl hnone
      · exact .inr (.inr ⟨hpos, hfit, fun k hk => hall k (Nat.zero_le _) hk⟩)
    · intro h
      rcases h with hnone | hfail | hports
      · exact .inl hnone
      · refine .inl ?_
        by_contra hpos
        rw [hall 0 (Nat.le_refl _) (by omega)] at hfail
        cases hfail
      · exact .inr ⟨hports.positive, hports.fit⟩
  · rw [hloop, consecutive_exited_iff]
    constructor
    · intro h
      subst h
      exact .inr (.inl hfail)
    · intro h
      rcases h with hnone | hfirstFail | hports
      · omega
      · by_contra hpos
        rw [hall 0 (Nat.le_refl _) (by omega)] at hfirstFail
        cases hfirstFail
      · rw [hports.created k hk] at hfail
        cases hfail

/-- The loop ends, and its providers listen at consecutive ports, exactly if the TLS
context or the first provider cannot be created, no port is asked for, or the ports fit
into the range and every provider can be created. -/
theorem listening_ports_consecutive_iff (platform : Platform) (cmdArgs : Config) :
    (connectionProviders platform cmdArgs).Consecutive cmdArgs.port.toNat
        cmdArgs.numberOfPorts.toNat ↔
      (cmdArgs.useMtls = true ∧ platform.sslContext = false) ∨ cmdArgs.numberOfPorts = 0 ∨
        platform.createShared [] cmdArgs.port = false ∨
        PortsFit platform cmdArgs.port cmdArgs.numberOfPorts := by
  have hport : (if cmdArgs.useMtls then cmdArgs.mtlsBasePort else cmdArgs.basePort) =
      cmdArgs.port := rfl
  rw [connectionProviders, hport]
  split
  · rename_i hexit
    exact iff_of_true (.inl rfl) (.inl hexit)
  · rename_i hexit
    rw [or_iff_right hexit]
    exact consecutive_providersFrom_iff platform cmdArgs.port cmdArgs.numberOfPorts

def idlePlatform : Platform := ⟨true, fun _ _ => true⟩

theorem connectionProviders_idlePlatform (cmdArgs : Config) :
    connectionProviders idlePlatform cmdArgs =
      .listening (firstPorts cmdArgs.port cmdArgs.numberOfPorts.toNat) := by
  have hexit : ¬ (cmdArgs.useMtls = true ∧ idlePlatform.sslContext = false) := by
    simp [idlePlatform]
  rw [connectionProviders, if_neg hexit]
  rcases providersFrom_cases idlePlatform cmdArgs.port cmdArgs.numberOfPorts 0
    (UInt8.le_iff_toNat_le.mpr (Nat.zero_le _)) with ⟨-, hloop⟩ | ⟨k, -, -, hfail, -⟩
  · exact hloop
  · cases hfail

/-- Ten ports from 65530 on: the last four are 0 to 3. -/
theorem listening_ports_wrap :
    let cmdArgs := Config.ofEnv (fun name => if name = ascii "WSS_PORT" then some (ascii "65530")
      else if name = ascii "WSS_NUMBER_OF_PORTS" then some (ascii "10") else none) none
    connectionProviders idlePlatform cmdArgs =
        .listening [65530, 65531, 65532, 65533, 65534, 65535, 0, 1, 2, 3] ∧
      ¬ (connectionProviders idlePlatform cmdArgs).Consecutive cmdArgs.port.toNat
        cmdArgs.numberOfPorts.toNat := by
  intro cmdArgs
  have hport : cmdArgs.port = 65530 := rfl
  have hnumber : cmdArgs.numberOfPorts.toNat = 10 := rfl
  have hports : firstPorts 65530 10 =
      [65530, 65531, 65532, 65533, 65534, 65535, 0, 1, 2, 3] := by decide
  rw [connectionProviders_idlePlatform, hport, hnumber, hports]
  refine ⟨rfl, fun h => ?_⟩
  rcases h with h | ⟨ports, heq, -, -, hbounds⟩
  · cases h
  · cases heq
    exact absurd (hbounds 0 (by simp)).1 (by decide)

end WsGateway.Startup
