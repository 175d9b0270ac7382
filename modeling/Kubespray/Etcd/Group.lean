import Kubespray.Text

/-!
# The Etcd Group

The inventory group `etcd`, the variables of its hosts that may be set in the inventory,
and the variables that `kubespray-defaults` derives from them. A derived variable is seen
by its own host only: through `hostvars` another host sees what the inventory sets.

## Main results

* `etcdMemberName_of_mem`: the loop of `etcd_member_name` finds the host's own position.
-/

namespace Kubespray.Etcd

/-- `https://ADDRESS:2380`. -/
def peerUrl (address : Address) : Text :=
  "https://".toList ++ address.text ++ ":2380".toList

/-- Addresses with the same peer URL are the same. -/
theorem peerUrl_inj {a b : Address} : peerUrl a = peerUrl b ↔ a = b := by
  refine ⟨fun h => ?_, congrArg peerUrl⟩
  unfold peerUrl at h
  exact PlainWord.ext (List.append_cancel_left (List.append_cancel_right h))

/-- A peer URL has no characters but those of its address and its own. -/
theorem notMem_peerUrl {c : Char} (a : Address) (hplain : isPlain c = false)
    (hscheme : c ∉ "https://".toList) (hport : c ∉ ":2380".toList) : c ∉ peerUrl a := by
  unfold peerUrl
  rw [List.mem_append, List.mem_append]
  rintro ((h | h) | h)
  · exact hscheme h
  · exact a.notMem hplain h
  · exact hport h

/-- The variables of an etcd host. -/
structure HostVars where
  etcdMemberName : Option Text
  etcdAccessAddress : Option Address
  accessIp : Option Address
  ip : Option Address
  /-- `fallback_ips[host]`. -/
  fallbackIp : Address

namespace HostVars

/-- `etcd_address`. -/
def etcdAddress (v : HostVars) : Address :=
  v.ip.getD v.fallbackIp

/-- `etcd_access_address` on the host itself: the default is
`access_ip | default(etcd_address)`. -/
def ownAccessAddress (v : HostVars) : Address :=
  v.etcdAccessAddress.getD (v.accessIp.getD v.etcdAddress)

/-- `etcd_peer_url`. -/
def etcdPeerUrl (v : HostVars) : Text :=
  peerUrl v.ownAccessAddress

/-- The address under which the templates list a host:
`hostvars[host].etcd_access_address | default(hostvars[host].ip | default(fallback_ips[host]))`. -/
def listedAddress (v : HostVars) : Address :=
  v.etcdAccessAddress.getD (v.ip.getD v.fallbackIp)

/-- The peer URL contains the address. -/
theorem ownAccessAddress_isInfix (v : HostVars) : v.ownAccessAddress.text <:+: v.etcdPeerUrl :=
  ⟨"https://".toList, ":2380".toList, rfl⟩

end HostVars

/-- The group `etcd`. -/
structure EtcdGroup where
  hosts : List Text
  /-- A group lists a host once. -/
  nodup : hosts.Nodup
  vars : Text → HostVars

namespace EtcdGroup

variable (g : EtcdGroup)

/-- A loop over the group, with `loop.index`. -/
def loop : List (Text × ℕ) :=
  g.hosts.zipIdx 1

/-- `"etcd" + loop.index|string`. -/
def indexName (index : ℕ) : Text :=
  "etcd".toList ++ Nat.toDigits 10 index

/-- `hostvars[host].etcd_member_name | default("etcd" + loop.index|string)`. -/
def listedName (item : Text × ℕ) : Text :=
  (g.vars item.1).etcdMemberName.getD (indexName item.2)

/-- `etcd_member_name` on a host: set in the inventory, or the default, which runs
through the group until it finds the host. -/
def etcdMemberName (host : Text) : Text :=
  (g.vars host).etcdMemberName.getD
    (g.loop.flatMap fun item => if item.1 = host then g.listedName item else [])

/-- The hosts of a loop are the hosts of the group. -/
theorem map_fst_loop : g.loop.map Prod.fst = g.hosts :=
  List.zipIdx_map_fst 1 g.hosts

/-- Picking the one entry with a given key out of a list. -/
theorem flatMap_ite_of_mem {β : Type} {items : List (Text × ℕ)}
    (hnd : (items.map Prod.fst).Nodup) (f : Text × ℕ → List β) {item : Text × ℕ}
    (h : item ∈ items) :
    (items.flatMap fun x => if x.1 = item.1 then f x else []) = f item := by
  induction items with
  | nil => cases h
  | cons x items ih =>
      rw [List.map_cons, List.nodup_cons] at hnd
      rw [List.flatMap_cons]
      rcases List.mem_cons.mp h with rfl | h
      · have hrest : (items.flatMap fun x => if x.1 = item.1 then f x else []) = [] := by
          refine List.flatMap_eq_nil_iff.mpr fun y hy => if_neg fun hkey => hnd.1 ?_
          rw [← hkey]
          exact List.mem_map_of_mem hy
        rw [if_pos rfl, hrest, List.append_nil]
      · have hne : x.1 ≠ item.1 := by
          intro hkey
          rw [hkey] at hnd
          exact hnd.1 (List.mem_map_of_mem h)
        rw [if_neg hne, List.nil_append, ih hnd.2 h]

/-- **A host's own name is the name it is listed under.** -/
theorem etcdMemberName_of_mem {item : Text × ℕ} (h : item ∈ g.loop) :
    g.etcdMemberName item.1 = g.listedName item := by
  have hloop : (g.loop.flatMap fun x => if x.1 = item.1 then g.listedName x else [])
      = g.listedName item :=
    flatMap_ite_of_mem (by rw [g.map_fst_loop]; exact g.nodup) g.listedName h
  rw [etcdMemberName, hloop]
  rw [listedName]
  cases (g.vars item.1).etcdMemberName <;> rfl

end EtcdGroup

/-! ### Two hosts -/

/-- The address `10.0.0.1`. -/
def nodeOne : Address := ⟨"10.0.0.1".toList, by decide, by decide⟩

/-- The address `10.0.0.2`. -/
def nodeTwo : Address := ⟨"10.0.0.2".toList, by decide, by decide⟩

/-- The address `10.0.0.10`. -/
def nodeTen : Address := ⟨"10.0.0.10".toList, by decide, by decide⟩

/-- Two etcd hosts, `first` and `second`, at two addresses. -/
def twoHosts (a b : Address) : EtcdGroup where
  hosts := ["first".toList, "second".toList]
  nodup := by decide
  vars host :=
    { etcdMemberName := none, etcdAccessAddress := none, accessIp := none, ip := none
      fallbackIp := if host = "first".toList then a else b }

/-- Two etcd hosts: `first` has an `ip` and another address for access, `second` has only its
fallback address. -/
def mixedHosts (ip accessIp fallbackIp : Address) : EtcdGroup where
  hosts := ["first".toList, "second".toList]
  nodup := by decide
  vars host :=
    if host = "first".toList then
      { etcdMemberName := some "leader".toList, etcdAccessAddress := none
        accessIp := some accessIp, ip := some ip, fallbackIp := ip }
    else
      { etcdMemberName := none, etcdAccessAddress := none, accessIp := none, ip := none
        fallbackIp := fallbackIp }

end Kubespray.Etcd
