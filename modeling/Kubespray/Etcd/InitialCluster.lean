import Kubespray.Etcd.Group
import Kubespray.Library.Records

/-!
# The Initial Cluster of a Joining Member

`ETCD_INITIAL_CLUSTER` is rendered from `etcd_peer_addresses`. In a first deployment that
is the list in `kubespray-defaults`; while a host joins, `join_etcd_member.yml` passes its
own list, with the current members first and the joining host last. The two lists are
written independently: the first honours `etcd_member_name`, the second does not, and
both take the addresses of other hosts from `hostvars`, where the role defaults are not
seen.

## Main results

* `joinPeerAddresses_eq`: the rendered list, as records.
* `agrees_iff`: the list names every member as the member names itself, and agrees with
  `etcd_peer_addresses`, exactly when no member has a name of its own and nobody's access
  address differs from the listed one.
-/

namespace Kubespray.Etcd

open Records

namespace EtcdGroup

variable (g : EtcdGroup)

/-- `NAME=https://ADDRESS:2380`. -/
def clusterEntry (name : Text) (address : Address) : Text :=
  name ++ '=' :: peerUrl address

/-- The entry of a host in `etcd_peer_addresses`. -/
def listedEntry (item : Text × ℕ) : Text :=
  clusterEntry (g.listedName item) (g.vars item.1).listedAddress

/-- The loop of `etcd_peer_addresses`, over any items of the group's loop. -/
def listing (items : List (Text × ℕ)) : Text :=
  [','].intercalate (items.map g.listedEntry)

/-- `etcd_peer_addresses`. -/
def etcdPeerAddresses : Text :=
  g.listing g.loop

/-- A host's entry under its own `ETCD_NAME` and its own peer URL. -/
def ownEntry (host : Text) : Text :=
  g.etcdMemberName host ++ '=' :: (g.vars host).etcdPeerUrl

/-- `etcd_peer_addresses` of `join_etcd_member.yml`, given the hosts whose
`etcd_member_in_cluster.rc` is zero and the joining host. -/
def joinPeerAddresses (inCluster : Text → Bool) (joiner : Text) : Text :=
  g.loop.flatMap fun item =>
    (if inCluster item.1 then
      clusterEntry (indexName item.2) (g.vars item.1).listedAddress ++ [',']
    else []) ++
    (if item.2 = g.hosts.length then g.ownEntry joiner else [])

/-- The current members, in group order. -/
def currentMembers (inCluster : Text → Bool) : List (Text × ℕ) :=
  g.loop.filter fun item => inCluster item.1

/-- What a loop prints in its last round comes at the end. -/
theorem flatMap_zipIdx_last {β : Type} (hosts : List Text) (hne : hosts ≠ []) (k : ℕ)
    (f : Text × ℕ → List β) (last : List β) :
    ((hosts.zipIdx k).flatMap fun item =>
        f item ++ if item.2 + 1 = k + hosts.length then last else [])
      = (hosts.zipIdx k).flatMap f ++ last := by
  induction hosts generalizing k with
  | nil => exact absurd rfl hne
  | cons host hosts ih =>
      rw [List.zipIdx_cons, List.flatMap_cons, List.flatMap_cons, List.length_cons]
      have hshift : k + (hosts.length + 1) = k + 1 + hosts.length := by omega
      rw [hshift]
      cases hosts with
      | nil => simp
      | cons next hosts =>
          rw [ih (List.cons_ne_nil next hosts) (k + 1), if_neg (by simp), List.append_nil,
            List.append_assoc]

/-- **The rendered list, as records**: one for each current member, under the name made
from its position, and the joining host's own entry. -/
theorem joinPeerAddresses_eq (inCluster : Text → Bool) {joiner : Text} (h : joiner ∈ g.hosts) :
    g.joinPeerAddresses inCluster joiner
      = ((g.currentMembers inCluster).flatMap fun item =>
          record '=' ',' (indexName item.2) (peerUrl (g.vars item.1).listedAddress))
        ++ g.ownEntry joiner := by
  have hlast := flatMap_zipIdx_last g.hosts (List.ne_nil_of_mem h) 1
    (fun item => if inCluster item.1 then
      clusterEntry (indexName item.2) (g.vars item.1).listedAddress ++ [','] else [])
    (g.ownEntry joiner)
  have hindex : ∀ item : Text × ℕ,
      (item.2 + 1 = 1 + g.hosts.length) = (item.2 = g.hosts.length) := by
    intro item
    exact propext (by omega)
  simp only [hindex] at hlast
  rw [joinPeerAddresses, currentMembers, loop, hlast, flatMap_filter]
  simp only [record, clusterEntry, List.append_assoc, List.cons_append]

/-- A position has no separator in it. -/
theorem notMem_indexName (index : ℕ) : '=' ∉ indexName index := by
  intro h
  rcases List.mem_append.mp h with h | h
  · exact absurd h (by decide)
  · exact absurd (Nat.isDigit_of_mem_toDigits (by decide) (by decide) h) (by decide)

/-- A host is listed under the name made from its position exactly when the inventory
gives it no other name. -/
theorem indexName_eq_listedName {item : Text × ℕ} :
    indexName item.2 = g.listedName item ↔
      ∀ name ∈ (g.vars item.1).etcdMemberName, name = indexName item.2 := by
  rw [listedName]
  cases (g.vars item.1).etcdMemberName with
  | none => simp
  | some name => simp [eq_comm]

end EtcdGroup

open EtcdGroup

/-- A host of the group that joins the hosts already in the cluster. -/
structure JoiningHost (g : EtcdGroup) where
  /-- The host and its position. -/
  item : Text × ℕ
  mem_loop : item ∈ g.loop
  /-- `etcd_member_in_cluster.rc == 0`. -/
  inCluster : Text → Bool
  notInCluster : inCluster item.1 = false

namespace JoiningHost

variable {g : EtcdGroup} (j : JoiningHost g)

/-- The value of `ETCD_INITIAL_CLUSTER` on the joining host. -/
def initialCluster : Text :=
  g.joinPeerAddresses j.inCluster j.item.1

/-- The current members, in group order. -/
def members : List (Text × ℕ) :=
  g.currentMembers j.inCluster

/-- The initial cluster lists every current member once, under its own name and with its
own peer URL, and then the joining host; and that is `etcd_peer_addresses`, restricted to
them. -/
structure Agrees : Prop where
  own : j.initialCluster
    = [','].intercalate (j.members.map (fun item => g.ownEntry item.1) ++ [g.ownEntry j.item.1])
  listed : j.initialCluster = g.listing (j.members ++ [j.item])

/-- The joining host is one of the group. -/
theorem mem_hosts : j.item.1 ∈ g.hosts := by
  rw [← g.map_fst_loop]
  exact List.mem_map_of_mem j.mem_loop

/-- Texts with records under names made from positions agree with others exactly when the
names and the addresses do. -/
theorem flatMap_members_eq_iff (name : Text × ℕ → Text) (address : Text × ℕ → Address) :
    (j.members.flatMap fun item =>
        record '=' ',' (indexName item.2) (peerUrl (g.vars item.1).listedAddress))
      = (j.members.flatMap fun item => record '=' ',' (name item) (peerUrl (address item))) ↔
    ∀ item ∈ j.members, indexName item.2 = name item ∧
      (g.vars item.1).listedAddress = address item := by
  have hvalue : ∀ a : Address, '=' ∉ peerUrl a ∧ ',' ∉ peerUrl a := fun a =>
    ⟨notMem_peerUrl a (by decide) (by decide) (by decide),
      notMem_peerUrl a (by decide) (by decide) (by decide)⟩
  rw [flatMap_record_eq_iff (by decide) (fun item _ => notMem_indexName item.2)
    (fun _ _ => hvalue _) (fun _ _ => hvalue _)]
  simp only [peerUrl_inj]

/-- The initial cluster gives the members' own entries exactly when their own names and
addresses are those of the list. -/
theorem own_iff : j.initialCluster
      = [','].intercalate (j.members.map (fun item => g.ownEntry item.1) ++ [g.ownEntry j.item.1])
    ↔ ∀ item ∈ j.members, indexName item.2 = g.listedName item ∧
        (g.vars item.1).listedAddress = (g.vars item.1).ownAccessAddress := by
  have hown : (j.members.flatMap fun item => g.ownEntry item.1 ++ [','])
      = j.members.flatMap fun item =>
          record '=' ',' (g.listedName item) (peerUrl (g.vars item.1).ownAccessAddress) := by
    refine List.flatMap_congr fun item hitem => ?_
    have hloop : item ∈ g.loop := (List.mem_filter.mp hitem).1
    simp only [ownEntry, record, HostVars.etcdPeerUrl, g.etcdMemberName_of_mem hloop,
      List.append_assoc, List.cons_append]
  rw [initialCluster, g.joinPeerAddresses_eq _ j.mem_hosts, intercalate_map_concat, hown,
    List.append_cancel_right_eq]
  exact j.flatMap_members_eq_iff g.listedName fun item => (g.vars item.1).ownAccessAddress

/-- Where the members' own entries are given, they are those of `etcd_peer_addresses`
exactly when the joining host's own address is the listed one. -/
theorem listed_iff (h : ∀ item ∈ j.members, indexName item.2 = g.listedName item) :
    j.initialCluster = g.listing (j.members ++ [j.item]) ↔
      (g.vars j.item.1).ownAccessAddress = (g.vars j.item.1).listedAddress := by
  have hlisted : (j.members.flatMap fun item => g.listedEntry item ++ [','])
      = j.members.flatMap fun item =>
          record '=' ',' (indexName item.2) (peerUrl (g.vars item.1).listedAddress) := by
    refine List.flatMap_congr fun item hitem => ?_
    simp only [listedEntry, clusterEntry, record, h item hitem, List.append_assoc,
      List.cons_append]
  rw [initialCluster, g.joinPeerAddresses_eq _ j.mem_hosts, listing, List.map_append,
    List.map_singleton, intercalate_map_concat, hlisted]
  rw [members, List.append_cancel_left_eq, ownEntry, listedEntry, clusterEntry,
    g.etcdMemberName_of_mem j.mem_loop, List.append_cancel_left_eq, List.cons.injEq,
    and_iff_right rfl, HostVars.etcdPeerUrl, peerUrl_inj]

/-- **Two code paths for one list.** The initial cluster of a joining host agrees with the
members' own names and URLs and with `etcd_peer_addresses` exactly when no current member
has a name of its own other than the one made from its position, and no current member's
access address, nor the joining host's, differs from the listed one. -/
theorem agrees_iff : j.Agrees ↔
    (∀ item ∈ g.loop, j.inCluster item.1 = true →
      (∀ name ∈ (g.vars item.1).etcdMemberName, name = indexName item.2) ∧
        (g.vars item.1).ownAccessAddress = (g.vars item.1).listedAddress) ∧
      (g.vars j.item.1).ownAccessAddress = (g.vars j.item.1).listedAddress := by
  have hmembers : (∀ item ∈ j.members, indexName item.2 = g.listedName item ∧
        (g.vars item.1).listedAddress = (g.vars item.1).ownAccessAddress) ↔
      ∀ item ∈ g.loop, j.inCluster item.1 = true →
        (∀ name ∈ (g.vars item.1).etcdMemberName, name = indexName item.2) ∧
          (g.vars item.1).ownAccessAddress = (g.vars item.1).listedAddress := by
    rw [members, currentMembers]
    simp only [List.mem_filter, and_imp, indexName_eq_listedName]
    exact forall₃_congr fun item _ _ => and_congr_right fun _ => eq_comm
  rw [← hmembers]
  constructor
  · intro h
    have hown := j.own_iff.mp h.own
    exact ⟨hown, (j.listed_iff fun item hitem => (hown item hitem).1).mp h.listed⟩
  · rintro ⟨hown, hjoiner⟩
    exact ⟨j.own_iff.mpr hown, (j.listed_iff fun item hitem => (hown item hitem).1).mpr hjoiner⟩

/-- When the last host of the group joins all the others, the initial cluster is the text
of a first deployment, provided that it agrees with the members. -/
theorem initialCluster_eq_etcdPeerAddresses (h : j.Agrees)
    (hlast : j.members ++ [j.item] = g.loop) : j.initialCluster = g.etcdPeerAddresses := by
  rw [h.listed, hlast]
  rfl

end JoiningHost

/-- Two etcd hosts, the first of which the inventory calls `alpha`. -/
def namedGroup : EtcdGroup :=
  { twoHosts nodeOne nodeTwo with
    vars := fun host =>
      { (twoHosts nodeOne nodeTwo).vars host with
        etcdMemberName := if host = "first".toList then some "alpha".toList else none } }

/-- The second host joins `alpha`, and its initial cluster calls that member `etcd1`. -/
theorem agrees_fails :
    ¬ ∀ (g : EtcdGroup) (j : JoiningHost g), (g.hosts.map g.etcdMemberName).Nodup → j.Agrees := by
  intro h
  have hagrees := h namedGroup
    { item := ("second".toList, 2), mem_loop := by decide
      inCluster := fun host => host = "first".toList, notInCluster := by decide } (by decide)
  exact absurd hagrees.own (by decide)

end Kubespray.Etcd
