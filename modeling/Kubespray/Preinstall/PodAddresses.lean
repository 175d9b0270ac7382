import Kubespray.Preinstall.AddressPlan
import Mathlib.Algebra.Order.Field.Power
import Mathlib.Data.Fin.SuccPred
import Mathlib.Data.Rat.Cast.Order
import Mathlib.Tactic.NormNum

/-!
# Addresses for the Pods

Two assertions of `verify-settings.yml` are about sizes: one compares the number of pods of
a node with the size of the network that a node is given, the other the number of nodes
with the number of such networks. Both take powers of two with exponents that may be
negative. Together they leave only prefixes for which the pod network can be divided among
the nodes.

## Main results

* `prefixLen_bounds`: the assertions exclude every other order of the prefixes.
* `podAllocation`: the pod network has a large enough network for each node.
-/

namespace Kubespray.Preinstall

open Blocks

/-! ### The two assertions -/

/-- `Guarantee that enough network address space is available for all pods`. -/
def EnoughForPods (kubeletMaxPods : ℕ) (kubeNetworkNodePrefix : ℤ) : Prop :=
  (kubeletMaxPods : ℚ) ≤ 2 ^ (32 - kubeNetworkNodePrefix) - 2

/-- `Check that IP range is enough for the nodes`, for a plugin that is not `calico`. -/
def EnoughForNodes (nodes : ℕ) (kubeNetworkNodePrefix : ℤ) (kubePodsSubnet : Network) : Prop :=
  (nodes : ℚ) ≤ 2 ^ (kubeNetworkNodePrefix - kubePodsSubnet.ipaddrPrefixLen)

/-- A number is at most a power of two when its exponent is not negative and the power is
large enough. -/
theorem natCast_le_zpow_iff {n : ℕ} (hn : 1 ≤ n) (k : ℤ) :
    (n : ℚ) ≤ 2 ^ k ↔ 0 ≤ k ∧ n ≤ 2 ^ k.toNat := by
  by_cases hk : 0 ≤ k
  · obtain ⟨j, rfl⟩ := Int.eq_ofNat_of_zero_le hk
    rw [and_iff_right hk, Int.toNat_natCast, zpow_natCast]
    exact_mod_cast Iff.rfl
  · refine iff_of_false (fun hle => ?_) fun h => hk h.1
    have hsmall : (2 : ℚ) ^ k < 1 := zpow_lt_one_of_neg₀ (by norm_num) (not_le.mp hk)
    have hone : (1 : ℚ) ≤ n := by exact_mod_cast hn
    exact absurd (hone.trans hle) (not_le.mpr hsmall)

/-- **The assertions exclude every other order of the prefixes**: the prefix of the nodes is
no shorter than that of the pod network, and leaves at least one bit. -/
theorem prefixLen_bounds {nodes maxPods : ℕ} {nodePrefix : ℤ} {pods : Network} (hn : 1 ≤ nodes)
    (hpods : EnoughForPods maxPods nodePrefix) (hnodes : EnoughForNodes nodes nodePrefix pods) :
    ∃ k : ℕ, nodePrefix = k ∧ pods.prefixLen ≤ k ∧ k < 32 ∧ nodes ≤ 2 ^ (k - pods.prefixLen) ∧
      maxPods + 2 ≤ 2 ^ (32 - k) := by
  obtain ⟨hnonneg, hcount⟩ := (natCast_le_zpow_iff hn _).mp hnodes
  have hsize : ((maxPods + 2 : ℕ) : ℚ) ≤ 2 ^ (32 - nodePrefix) := by
    rw [Nat.cast_add, ← le_sub_iff_add_le]
    exact_mod_cast hpods
  obtain ⟨hbits, hroom⟩ := (natCast_le_zpow_iff (by omega) _).mp hsize
  obtain ⟨k, rfl⟩ := Int.eq_ofNat_of_zero_le (by omega : 0 ≤ nodePrefix)
  rw [Network.ipaddrPrefixLen] at hnonneg hcount
  have hexp : ((k : ℤ) - pods.prefixLen).toNat = k - pods.prefixLen := by omega
  have hexp' : (32 - (k : ℤ)).toNat = 32 - k := by omega
  rw [hexp] at hcount
  rw [hexp'] at hroom
  refine ⟨k, rfl, by omega, ?_, hcount, hroom⟩
  by_contra hlt
  have hone : 32 - k = 0 := by omega
  rw [hone] at hroom
  omega

/-! ### Dividing a network -/

namespace Network

variable {net : Network} {k : ℕ}

/-- The addresses of a network besides its first and its last one, which are the addresses
of the network itself and of its broadcasts. -/
def hosts (n : Network) : Set Address :=
  {a ∈ n.addresses | a.value ≠ n.value / 2 ^ n.hostBits * 2 ^ n.hostBits ∧
    a.value ≠ n.value / 2 ^ n.hostBits * 2 ^ n.hostBits + (2 ^ n.hostBits - 1)}

/-- A network with enough addresses has as many hosts. -/
theorem exists_hosts (n : Network) {count : ℕ} (h : count + 2 ≤ 2 ^ n.hostBits) :
    ∃ host : Fin count ↪ Address, ∀ j, host j ∈ n.hosts := by
  set first := n.value / 2 ^ n.hostBits * 2 ^ n.hostBits
  have hmem : ∀ j : Fin count,
      first + (j + 1) ∈ block 2 n.hostBits (n.value / 2 ^ n.hostBits) := by
    intro j
    have hj := j.isLt
    exact mul_add_mem_block (by omega)
  refine ⟨⟨fun j => ⟨n.version, first + (j + 1), lt_of_mem_block (hmem j)⟩, ?_⟩, ?_⟩
  · intro i j heq
    have hvalue := congrArg Address.value heq
    dsimp only at hvalue
    exact Fin.ext (by omega)
  · intro j
    have hj := j.isLt
    refine ⟨⟨rfl, hmem j⟩, ?_, ?_⟩
    · change first + (j + 1) ≠ first
      omega
    · change first + (j + 1) ≠ first + (2 ^ n.hostBits - 1)
      omega

/-- The blocks of the networks with a longer prefix, numbered one after the other. -/
theorem subset_of_number (hp : net.prefixLen ≤ k) (hk : k ≤ net.version.width) {i : ℕ}
    (hi : i < 2 ^ (k - net.prefixLen)) :
    block 2 (net.version.width - k)
        (net.value / 2 ^ net.hostBits * 2 ^ (k - net.prefixLen) + i)
      ⊆ block 2 net.hostBits (net.value / 2 ^ net.hostBits) := by
  have hexp : net.hostBits - (net.version.width - k) = k - net.prefixLen := by
    rw [hostBits]
    omega
  have hle : net.version.width - k ≤ net.hostBits := by
    rw [hostBits]
    omega
  rw [← hexp] at hi ⊢
  exact block_add_subset hle hi

/-- The part of a network with a longer prefix and this number. -/
def subnet (net : Network) (hp : net.prefixLen ≤ k) (hk : k ≤ net.version.width)
    (i : Fin (2 ^ (k - net.prefixLen))) : Network where
  version := net.version
  value := (net.value / 2 ^ net.hostBits * 2 ^ (k - net.prefixLen) + i)
    * 2 ^ (net.version.width - k)
  prefixLen := k
  value_lt := by
    refine lt_of_mem_block (n := net) ?_
    exact subset_of_number hp hk i.isLt (mul_mem_block Nat.zero_lt_two)
  prefixLen_le := hk

/-- The addresses of a part. -/
theorem mem_subnet {hp : net.prefixLen ≤ k} {hk : k ≤ net.version.width}
    {i : Fin (2 ^ (k - net.prefixLen))} {a : Address} :
    a ∈ (net.subnet hp hk i).addresses ↔ a.version = net.version ∧
      a.value ∈ block 2 (net.version.width - k)
        (net.value / 2 ^ net.hostBits * 2 ^ (k - net.prefixLen) + i) := by
  have hnumber : (net.subnet hp hk i).value / 2 ^ (net.version.width - k)
      = net.value / 2 ^ net.hostBits * 2 ^ (k - net.prefixLen) + i :=
    Nat.mul_div_cancel _ (Nat.pow_pos Nat.zero_lt_two)
  rw [← hnumber]
  rfl

/-- A part lies in the network. -/
theorem subnet_subset (hp : net.prefixLen ≤ k) (hk : k ≤ net.version.width)
    (i : Fin (2 ^ (k - net.prefixLen))) :
    (net.subnet hp hk i).addresses ⊆ net.addresses := by
  intro a ha
  obtain ⟨hversion, hblock⟩ := mem_subnet.mp ha
  exact ⟨hversion, subset_of_number hp hk i.isLt hblock⟩

/-- Different parts have no address in common. -/
theorem subnet_disjoint (hp : net.prefixLen ≤ k) (hk : k ≤ net.version.width)
    {i j : Fin (2 ^ (k - net.prefixLen))} (hne : i ≠ j) :
    Disjoint (net.subnet hp hk i).addresses (net.subnet hp hk j).addresses := by
  have hnumber : net.value / 2 ^ net.hostBits * 2 ^ (k - net.prefixLen) + i
      ≠ net.value / 2 ^ net.hostBits * 2 ^ (k - net.prefixLen) + j :=
    fun heq => hne (Fin.ext (Nat.add_left_cancel heq))
  rw [Set.disjoint_left]
  intro a ha ha'
  exact Set.disjoint_left.mp (disjoint_block_of_ne hnumber) (mem_subnet.mp ha).2
    (mem_subnet.mp ha').2

end Network

/-- **The assertions guarantee an allocation**: for each node a network with the prefix of
the nodes inside the pod network, no two of them with an address in common, and each with
enough hosts for the pods of the node. -/
theorem podAllocation {pods : Network} {nodes maxPods : ℕ} {nodePrefix : ℤ}
    (hversion : pods.version = .v4) (hn : 1 ≤ nodes) (hpods : EnoughForPods maxPods nodePrefix)
    (hnodes : EnoughForNodes nodes nodePrefix pods) :
    ∃ networkOf : Fin nodes → Network,
      (∀ i, (networkOf i).version = .v4 ∧ ((networkOf i).prefixLen : ℤ) = nodePrefix ∧
        (networkOf i).addresses ⊆ pods.addresses ∧
        ∃ host : Fin maxPods ↪ Address, ∀ j, host j ∈ (networkOf i).hosts) ∧
      Pairwise fun i j => Disjoint (networkOf i).addresses (networkOf j).addresses := by
  obtain ⟨k, rfl, hp, hk, hcount, hroom⟩ := prefixLen_bounds hn hpods hnodes
  have hwidth : pods.version.width = 32 := by rw [hversion]; rfl
  have hk' : k ≤ pods.version.width := by omega
  refine ⟨fun i => pods.subnet hp hk' (i.castLE hcount), fun i => ⟨hversion, rfl, ?_, ?_⟩, ?_⟩
  · exact Network.subnet_subset hp hk' _
  · refine Network.exists_hosts _ ?_
    change maxPods + 2 ≤ 2 ^ (pods.version.width - k)
    rwa [hwidth]
  · intro i j hne
    exact Network.subnet_disjoint hp hk' fun heq => hne (Fin.castLE_injective hcount heq)

/-- The pod network `10.233.64.0/18`, with networks of prefix length 24 for three nodes and
110 pods on each. -/
theorem podAllocation_defaults :
    ∃ networkOf : Fin 3 → Network,
      (∀ i, (networkOf i).version = .v4 ∧ ((networkOf i).prefixLen : ℤ) = 24 ∧
        (networkOf i).addresses ⊆ (⟨.v4, 10 * 2 ^ 24 + 233 * 2 ^ 16 + 64 * 2 ^ 8, 18, by decide,
          by decide⟩ : Network).addresses ∧
        ∃ host : Fin 110 ↪ Address, ∀ j, host j ∈ (networkOf i).hosts) ∧
      Pairwise fun i j => Disjoint (networkOf i).addresses (networkOf j).addresses := by
  refine podAllocation rfl (by decide) ?_ ?_
  · rw [EnoughForPods]
    norm_num
  · rw [EnoughForNodes]
    norm_num [Network.ipaddrPrefixLen]

end Kubespray.Preinstall
