import Kubespray.Etcd.Group
import Kubespray.Etcd.Members

/-!
# Removing an Etcd Node

The role `remove-node/remove-etcd-node` works out the address of the node, searches the
member list for it, and removes the members whose lines were found.

## Main results

* `removeEtcdNode_iff`: the role removes exactly the members at the address precisely
  when no other member's line matches the address.
-/

namespace Kubespray.Etcd

open LineSearch

/-- The variables of the node that the role reads. -/
structure NodeVars where
  ip : Option Text
  accessIp : Option Text
  /-- The output of the task that asks Kubernetes for the node's address. -/
  lookup : Text

/-- `node_ip`. -/
def nodeIp (v : NodeVars) : Text :=
  strip (v.ip.getD (v.accessIp.getD v.lookup))

/-- `Lookup etcd member id`: the lines of
`etcdctl member list | grep {{ node_ip }} | cut -d, -f1`. -/
def lookupMemberId (nodeIp : Text) (members : List Member) : List Text :=
  (grep (addressPattern nodeIp) (memberList members)).map (·.takeWhile (· ≠ ','))

/-- The role: the identifiers that `etcdctl member remove` is given, none when the search
found nothing and the task is skipped; or the message of the failed assertion. -/
def removeEtcdNode (v : NodeVars) (members : List Member) : Except Text (List Text) :=
  if nodeIp v = [] then .error "Etcd node ip is not set !".toList
  else .ok (lookupMemberId (nodeIp v) members)

/-- The identifiers of the members at an address. -/
def membersAt (address : Address) (members : List Member) : List Text :=
  (members.filter (·.hasHost address)).map (·.id.text)

/-- The lookup finds the identifiers of the members whose lines match. -/
theorem lookupMemberId_eq (nodeIp : Text) (members : List Member) :
    lookupMemberId nodeIp members
      = (members.filter fun m => search (addressPattern nodeIp) m.line).map (·.id.text) := by
  rw [lookupMemberId, grep, memberList, List.filter_map, List.map_map]
  exact List.map_congr_left fun m _ => takeWhile_line m

/-- **Removing exactly one node's member.** The identifiers handed to `member remove` are
those of the members at the node's address exactly when no other member's line matches
the address. -/
theorem removeEtcdNode_iff {v : NodeVars} {address : Address} (hip : nodeIp v = address.text)
    (members : List Member) :
    removeEtcdNode v members = .ok (membersAt address members) ↔
      ∀ m ∈ members, m.hasHost address = false →
        search (addressPattern address.text) m.line = false := by
  rw [removeEtcdNode, hip, if_neg address.ne_nil, Except.ok.injEq, lookupMemberId_eq]
  exact map_filter_eq_iff fun m hm => search_of_host hm

/-- Of two members at `10.0.0.1` and `10.0.0.2` the first is removed. -/
theorem removeEtcdNode_nodeOne :
    removeEtcdNode { ip := some "10.0.0.1".toList, accessIp := none, lookup := [] }
        [memberOf ⟨"a1".toList, by decide, by decide⟩ "etcd1".toList nodeOne,
          memberOf ⟨"b2".toList, by decide, by decide⟩ "etcd2".toList nodeTwo]
      = .ok ["a1".toList] := by
  have hip : nodeIp { ip := some "10.0.0.1".toList, accessIp := none, lookup := [] }
      = nodeOne.text := by decide
  exact (removeEtcdNode_iff hip _).mpr (by decide)

/-- When the member at `10.0.0.1` is gone, a second run removes the member at
`10.0.0.10`. -/
theorem removeEtcdNode_fails :
    ¬ ∀ (v : NodeVars) (address : Address) (members : List Member),
      nodeIp v = address.text →
      removeEtcdNode v members = .ok (membersAt address members) := by
  intro h
  have hten := h { ip := some "10.0.0.1".toList, accessIp := none, lookup := [] } nodeOne
    [memberOf ⟨"c3".toList, by decide, by decide⟩ "etcd3".toList nodeTen] (by decide)
  revert hten
  decide

end Kubespray.Etcd
