import Kubespray.Library.Blocks
import Kubespray.Text
import Mathlib.Data.Set.Basic

/-!
# The Address Plan

`verify-settings.yml` looks at the two networks of a cluster, `kube_service_addresses` and
`kube_pods_subnet`: each has to be a network range, the pod network must not collide with
the service network, and it must have room for the nodes. The collision is looked for with
`kube_pods_subnet | ipaddr(kube_service_addresses)`, a filter that answers with the pod
network when it lies inside the service network. A service network that lies inside the pod
network is not noticed.

## Main results

* `contains_iff`: the filter decides containment of address sets.
* `networks_disjoint_iff`: when the two networks have no address in common.
* `verified_disjoint_iff`: when the checks exclude common addresses.
-/

namespace Kubespray.Preinstall

open Blocks

/-! ### Networks -/

/-- The two families of IP addresses. -/
inductive IpVersion
  | v4
  | v6
deriving DecidableEq

/-- How many bits an address has. -/
def IpVersion.width : IpVersion → ℕ
  | .v4 => 32
  | .v6 => 128

/-- An IP address. -/
structure Address where
  version : IpVersion
  value : ℕ
  value_lt : value < 2 ^ version.width

/-- A network in CIDR notation, `address/prefix`. The address may have bits set below the
prefix, as in `10.233.0.1/18`. -/
structure Network where
  version : IpVersion
  value : ℕ
  prefixLen : ℕ
  value_lt : value < 2 ^ version.width
  prefixLen_le : prefixLen ≤ version.width

namespace Network

/-- How many bits the addresses of a network may differ in. -/
def hostBits (n : Network) : ℕ :=
  n.version.width - n.prefixLen

/-- The addresses that agree with the network in the bits of its prefix. -/
def addresses (n : Network) : Set Address :=
  {a | a.version = n.version ∧ a.value ∈ block 2 n.hostBits (n.value / 2 ^ n.hostBits)}

/-- `ipaddr('net')`: the network, when it has more than one address and is written with its
first one. -/
def ipaddrNet (n : Network) : Option Network :=
  if 1 < 2 ^ n.hostBits ∧ n.value % 2 ^ n.hostBits = 0 then some n else none

/-- A network contains another: it is of the same family, its prefix is no longer, and the
two agree in the bits of that prefix. -/
def contains (net n : Network) : Bool :=
  net.version = n.version && net.prefixLen ≤ n.prefixLen &&
    n.value / 2 ^ net.hostBits = net.value / 2 ^ net.hostBits

/-- `ipaddr(net)`. -/
def ipaddrIn (n net : Network) : Option Network :=
  if net.contains n then some n else none

/-- `ipaddr('prefix')`. -/
def ipaddrPrefixLen (n : Network) : ℕ :=
  n.prefixLen

variable {n net : Network}

/-- The numbers in the block of a network are addresses. -/
theorem lt_of_mem_block {a : ℕ} (h : a ∈ block 2 n.hostBits (n.value / 2 ^ n.hostBits)) :
    a < 2 ^ n.version.width := by
  have hbits : 2 ^ n.version.width = 2 ^ n.prefixLen * 2 ^ n.hostBits := by
    rw [← pow_add, hostBits, Nat.add_sub_cancel' n.prefixLen_le]
  have hpos : 0 < 2 ^ n.hostBits := Nat.pow_pos Nat.zero_lt_two
  have hvalue : n.value / 2 ^ n.hostBits < 2 ^ n.prefixLen :=
    Nat.div_lt_of_lt_mul (by rw [mul_comm, ← hbits]; exact n.value_lt)
  rw [hbits]
  exact (Nat.div_lt_iff_lt_mul hpos).mp (lt_of_eq_of_lt h hvalue)

/-- The address that a network is written with is one of its own. -/
theorem value_mem (n : Network) :
    (⟨n.version, n.value, n.value_lt⟩ : Address) ∈ n.addresses :=
  ⟨rfl, rfl⟩

/-- Between networks of one family containment is containment of blocks. -/
theorem addresses_subset_iff (hversion : n.version = net.version) :
    n.addresses ⊆ net.addresses ↔
      block 2 n.hostBits (n.value / 2 ^ n.hostBits) ⊆
        block 2 net.hostBits (net.value / 2 ^ net.hostBits) := by
  constructor
  · intro h a ha
    exact (h (a := ⟨n.version, a, lt_of_mem_block ha⟩) ⟨rfl, ha⟩).2
  · rintro h a ⟨hfamily, ha⟩
    exact ⟨hfamily.trans hversion, h ha⟩

/-- **The filter decides containment**: `n | ipaddr(net)` answers exactly when every address
of `n` is one of `net`. -/
theorem contains_iff : net.contains n = true ↔ n.addresses ⊆ net.addresses := by
  by_cases hversion : net.version = n.version
  · have hbits : net.prefixLen ≤ n.prefixLen ↔ n.hostBits ≤ net.hostBits := by
      have hn := n.prefixLen_le
      have hnet := net.prefixLen_le
      rw [hostBits, hostBits, hversion]
      rw [hversion] at hnet
      omega
    rw [addresses_subset_iff hversion.symm, block_subset_iff Nat.one_lt_two, contains]
    simp only [Bool.and_eq_true, decide_eq_true_eq, hversion, true_and, hbits]
    refine and_congr_right fun hle => ?_
    rw [Nat.div_div_eq_div_mul, ← pow_add, Nat.add_sub_cancel' hle]
  · have hno : net.contains n = false := by
      simp [contains, hversion]
    rw [hno]
    refine iff_of_false Bool.false_ne_true fun hsub => hversion ?_
    exact (hsub n.value_mem).1.symm

/-- **Two networks have no address in common** exactly when neither contains the other. -/
theorem networks_disjoint_iff : Disjoint n.addresses net.addresses ↔
    ¬ n.addresses ⊆ net.addresses ∧ ¬ net.addresses ⊆ n.addresses := by
  constructor
  · intro hdisj
    exact ⟨fun hsub => Set.disjoint_left.mp hdisj n.value_mem (hsub n.value_mem),
      fun hsub => Set.disjoint_left.mp hdisj (hsub net.value_mem) net.value_mem⟩
  · rintro ⟨hn, hnet⟩
    rw [Set.disjoint_left]
    rintro a ⟨hfamily, ha⟩ ⟨hfamily', ha'⟩
    have hversion : n.version = net.version := hfamily.symm.trans hfamily'
    rw [addresses_subset_iff hversion] at hn
    rw [addresses_subset_iff hversion.symm] at hnet
    exact Set.disjoint_left.mp ((disjoint_block_iff Nat.zero_lt_two).mpr ⟨hn, hnet⟩) ha ha'

end Network

/-! ### The checks -/

/-- What the checks of the address plan read. -/
structure Plan where
  kubeServiceAddresses : Network
  kubePodsSubnet : Network
  kubeNetworkNodePrefix : ℕ
  kubeNetworkPlugin : Text
  /-- `groups['k8s_cluster']`. -/
  k8sCluster : List Text
  /-- The assertions of the file that read neither of the two networks all hold. -/
  otherAssertions : Bool

variable (p : Plan)

/-- `Check that kube_service_addresses is a network range`. -/
def Plan.serviceIsRange : Bool :=
  p.kubeServiceAddresses.ipaddrNet.isSome

/-- `Check that kube_pods_subnet is a network range`. -/
def Plan.podsIsRange : Bool :=
  p.kubePodsSubnet.ipaddrNet.isSome

/-- `Check that kube_pods_subnet does not collide with kube_service_addresses`. -/
def Plan.noCollision : Bool :=
  (p.kubePodsSubnet.ipaddrIn p.kubeServiceAddresses).isNone

/-- `2 ** (kube_network_node_prefix - kube_pods_subnet | ipaddr('prefix')) >= n`. With a
negative exponent the power lies between zero and one. -/
def Plan.roomFor (n : ℕ) : Bool :=
  if p.kubePodsSubnet.ipaddrPrefixLen ≤ p.kubeNetworkNodePrefix then
    n ≤ 2 ^ (p.kubeNetworkNodePrefix - p.kubePodsSubnet.ipaddrPrefixLen)
  else n = 0

/-- `Check that IP range is enough for the nodes`. -/
def Plan.enoughForNodes : Bool :=
  p.kubeNetworkPlugin = "calico".toList || p.roomFor p.k8sCluster.length

/-- The assertions beside the one about a collision. -/
def Plan.otherwiseVerified : Bool :=
  p.serviceIsRange && p.podsIsRange && p.enoughForNodes && p.otherAssertions

/-- All assertions of `verify-settings.yml` hold. -/
def Plan.verified : Bool :=
  p.serviceIsRange && p.podsIsRange && p.noCollision && p.enoughForNodes && p.otherAssertions

variable {p}

/-- What the check for a collision excludes: a pod network inside the service network. -/
theorem noCollision_iff : p.noCollision = true ↔
    ¬ p.kubePodsSubnet.addresses ⊆ p.kubeServiceAddresses.addresses := by
  rw [← Network.contains_iff, Plan.noCollision, Network.ipaddrIn]
  split_ifs with h <;> simp [h]

/-- The plan is verified when the other assertions hold and no collision is found. -/
theorem verified_iff : p.verified = true ↔ p.otherwiseVerified = true ∧
    ¬ p.kubePodsSubnet.addresses ⊆ p.kubeServiceAddresses.addresses := by
  rw [← noCollision_iff, Plan.verified, Plan.otherwiseVerified]
  simp only [Bool.and_eq_true]
  tauto

/-- **When the checks exclude common addresses**: exactly when it is not the case that the
service network lies strictly inside the pod network and every other assertion holds. -/
theorem verified_disjoint_iff (p : Plan) :
    (p.verified = true →
        Disjoint p.kubePodsSubnet.addresses p.kubeServiceAddresses.addresses) ↔
      ¬ (p.kubeServiceAddresses.addresses ⊂ p.kubePodsSubnet.addresses ∧
        p.otherwiseVerified = true) := by
  rw [Network.networks_disjoint_iff, verified_iff, ssubset_iff_subset_not_subset]
  tauto

/-- The pod network `10.0.0.0/8`, with the default service network `10.233.0.0/18` in it. -/
def nestedPlan : Plan where
  kubeServiceAddresses :=
    { version := .v4, value := 10 * 2 ^ 24 + 233 * 2 ^ 16, prefixLen := 18
      value_lt := by decide, prefixLen_le := by decide }
  kubePodsSubnet :=
    { version := .v4, value := 10 * 2 ^ 24, prefixLen := 8
      value_lt := by decide, prefixLen_le := by decide }
  kubeNetworkNodePrefix := 24
  kubeNetworkPlugin := "calico".toList
  k8sCluster := ["node1".toList]
  otherAssertions := true

/-- The nested plan is verified, and its networks share the addresses of the services. -/
theorem verified_disjoint_fails :
    nestedPlan.verified = true ∧ ¬ Disjoint nestedPlan.kubePodsSubnet.addresses
      nestedPlan.kubeServiceAddresses.addresses := by
  refine ⟨by decide, fun hdisj => ?_⟩
  exact (Network.networks_disjoint_iff.mp hdisj).2 (Network.contains_iff.mp (by decide))

end Kubespray.Preinstall
