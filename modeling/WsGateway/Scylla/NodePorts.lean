import WsGateway.Lib.Bytes
import WsGateway.Lib.Progressions

/-!
# The host ports of the database nodes

`startScylla.sh` publishes six ports for each container. Between one container and the
next they all advance by the number of containers, so that two of them meet for some of
these numbers, and for others never.
-/

namespace WsGateway.Scylla

open Lib Lib.Progressions

structure Container where
  name : Bytes
  /-- the host port and the port in the container -/
  published : List (Nat × Nat)
deriving DecidableEq

/-- One turn of the loop. -/
def container (numContainers portOffset i : Nat) : Container :=
  let offset := portOffset + i * numContainers
  { name := ascii "scylla_node_" ++ decimal i
    published := [(7000 + offset, 7000), (7004 + offset, 7001), (9042 + offset, 9042),
      (9160 + offset, 9160), (10000 + offset, 10000), (19042 + offset, 9180)] }

def startScylla (numContainers portOffset : Nat) : List Container :=
  (List.range numContainers).map (container numContainers portOffset)

def hostPorts (containers : List Container) : List Nat :=
  containers.flatMap fun c => c.published.map Prod.fst

def basePorts : List Nat := [7000, 7004, 9042, 9160, 10000, 19042]

theorem published_container (numContainers portOffset i : Nat) :
    (container numContainers portOffset i).published.map Prod.fst =
      roundTerms (basePorts.map fun port => port + portOffset) numContainers i := by
  simp [container, roundTerms, basePorts, Nat.add_assoc]

theorem hostPorts_startScylla (numContainers portOffset : Nat) :
    hostPorts (startScylla numContainers portOffset) =
      rounds (basePorts.map fun port => port + portOffset) numContainers numContainers := by
  rw [hostPorts, startScylla, List.flatMap_map, rounds]
  exact List.flatMap_congr fun i _ => published_container numContainers portOffset i

/-- Whenever the number divides the distance of two base ports, they are at least its
square apart. -/
def PortsFar (numContainers : Nat) : Prop :=
  ∀ a ∈ basePorts, ∀ b ∈ basePorts, a < b → numContainers ∣ b - a →
    numContainers * numContainers ≤ b - a

instance (numContainers : Nat) : Decidable (PortsFar numContainers) :=
  inferInstanceAs (Decidable (∀ a ∈ basePorts, ∀ b ∈ basePorts, a < b → numContainers ∣ b - a →
    numContainers * numContainers ≤ b - a))

theorem nodup_hostPorts_iff (numContainers portOffset : Nat) :
    (hostPorts (startScylla numContainers portOffset)).Nodup ↔ PortsFar numContainers := by
  rw [hostPorts_startScylla]
  rcases Nat.eq_zero_or_pos numContainers with hzero | hpos
  · subst hzero
    refine iff_of_true List.nodup_nil ?_
    intro a _ b _ hlt hdvd
    omega
  · have hbases : (basePorts.map fun port => port + portOffset).Nodup :=
      List.Nodup.map (add_left_injective portOffset) (by decide)
    rw [nodup_rounds_nat_iff hbases hpos]
    simp only [PortsFar, List.forall_mem_map, Nat.add_lt_add_iff_right, Nat.add_sub_add_right]

/-! ## Which numbers of containers -/

/-- The numbers of containers that share a port, as far as ports have 16 bits. -/
def sharingCounts : List Nat :=
  [4, 30, 35, 40, 42, 48, 49, 54, 56, 59, 60, 70, 72, 75, 77, 80, 84, 90, 98, 100, 105, 107,
    108, 118, 120, 122, 125, 135, 137, 140, 144, 150, 154, 162, 168, 180, 183, 196, 200, 210,
    214, 216]

theorem portsFar_iff_not_mem : ∀ n < 217, PortsFar n ↔ n ∉ sharingCounts := by decide +kernel

/-- All ports have 16 bits only if there are not too many containers. -/
theorem numContainers_lt {numContainers portOffset : Nat}
    (h : ∀ port ∈ hostPorts (startScylla numContainers portOffset), port ≤ 65535) :
    numContainers < 217 := by
  by_contra hge
  have hlast := h (19042 + (portOffset + (numContainers - 1) * numContainers))
    (List.mem_flatMap.mpr ⟨container numContainers portOffset (numContainers - 1),
      List.mem_map_of_mem (List.mem_range.mpr (by omega)), by simp [container]⟩)
  have hmul : 216 * 217 ≤ (numContainers - 1) * numContainers :=
    Nat.mul_le_mul (by omega) (by omega)
  omega

/-- No two containers and no two services share a host port, exactly if the base ports
are far apart for the number of containers; if the ports have 16 bits, exactly if this
number is not one of the list. The offset makes no difference. -/
theorem host_ports_distinct_iff (numContainers portOffset : Nat) :
    ((hostPorts (startScylla numContainers portOffset)).Nodup ↔ PortsFar numContainers) ∧
    ((∀ port ∈ hostPorts (startScylla numContainers portOffset), port ≤ 65535) →
      ((hostPorts (startScylla numContainers portOffset)).Nodup ↔
        numContainers ∉ sharingCounts)) := by
  refine ⟨nodup_hostPorts_iff numContainers portOffset, fun hports => ?_⟩
  rw [nodup_hostPorts_iff]
  exact portsFar_iff_not_mem numContainers (numContainers_lt hports)

/-- Four containers: the storage port of the second is the TLS storage port of the
first. -/
theorem four_containers_share_port :
    (7004, 7000) ∈ (container 4 0 1).published ∧ (7004, 7001) ∈ (container 4 0 0).published ∧
      (∀ port ∈ hostPorts (startScylla 4 0), port ≤ 65535) ∧
      ¬ (hostPorts (startScylla 4 0)).Nodup := by
  refine ⟨by decide, by decide, by decide, by decide⟩

end WsGateway.Scylla
