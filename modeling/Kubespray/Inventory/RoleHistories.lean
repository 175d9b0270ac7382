import Kubespray.Inventory.Runs
import Mathlib.Algebra.Ring.Parity

/-!
# Role Groups over Whole Histories

What the role groups of a written inventory satisfy, for every history of runs that
starts from no file. A run only ever adds members to the groups it carries over, so each
law here splits into the part that the additions guarantee and a condition on the
members carried over.

## Main results

* `rolesCover_history`: in every written inventory the members of the role groups are
  hosts, and every host is an etcd member, a control plane host or a node.
* `etcdOdd_history_iff`: the etcd group has the odd size that the preinstall role demands
  in every written inventory exactly when every run leaves its surplus members paired.
* `scaleSeparated_history_iff`: the scale rules hold of every written inventory exactly
  when the members every run carries over already respect them.
-/

namespace Kubespray.Inventory

open OrderedDict

variable {env : Env} {conflict : Text → Bool} {hosts : List Text} {a : Assignment}

/-! ### Membership after a run -/

/-- A host of the run is a host of the written inventory. -/
theorem mem_place_hosts {h : Text} :
    h ∈ (place env conflict hosts a).hosts ↔ (h ∈ a.hosts ∧ kept hosts h = true) ∨ h ∈ hosts := by
  rw [place_hosts, mem_addKeys, List.mem_filter]

/-- The four role groups that list hosts. -/
def hostRoles : List Text :=
  [etcd, kubeControlPlane, kubeNode, calicoRr]

/-- The hosts chosen for the control plane are hosts of the run. -/
theorem mem_of_mem_controlPlaneHosts {h : Text} (hmem : h ∈ controlPlaneHosts env hosts) :
    h ∈ hosts := by
  rw [controlPlaneHosts] at hmem
  split_ifs at hmem <;> exact mem_of_mem_slice hmem

/-- The hosts chosen as route reflectors are hosts of the run. -/
theorem mem_of_mem_calicoHosts {h : Text} (hmem : h ∈ calicoHosts env conflict hosts) :
    h ∈ hosts := by
  rw [calicoHosts] at hmem
  split_ifs at hmem
  · exact List.mem_of_mem_take (List.mem_of_mem_filter hmem)
  · cases hmem

/-- **A role group after a run**: the members carried over and some hosts of the run. -/
theorem place_group {role : Text} (hrole : role ∈ hostRoles) :
    ∃ added, (∀ h ∈ added, h ∈ hosts) ∧
      (place env conflict hosts a).group role
        = addKeys ((a.group role).filter (kept hosts)) added := by
  simp only [hostRoles, List.mem_cons, List.not_mem_nil, or_false] at hrole
  rcases hrole with rfl | rfl | rfl | rfl
  · exact ⟨_, fun h hmem => List.mem_of_mem_take hmem, place_etcd⟩
  · exact ⟨_, fun h hmem => mem_of_mem_controlPlaneHosts hmem, place_kubeControlPlane⟩
  · exact ⟨_, fun h hmem => List.mem_of_mem_filter hmem, place_kubeNode⟩
  · exact ⟨_, fun h hmem => mem_of_mem_calicoHosts hmem, place_calicoRr⟩

/-- A member of a role group was carried over or is a host of the run. -/
theorem mem_place_group {role h : Text} (hrole : role ∈ hostRoles)
    (hmem : h ∈ (place env conflict hosts a).group role) :
    (h ∈ a.group role ∧ kept hosts h = true) ∨ h ∈ hosts := by
  obtain ⟨added, hadded, heq⟩ := place_group hrole
  rw [heq, mem_addKeys, List.mem_filter] at hmem
  exact hmem.imp_right (hadded h)

/-- A member that the purge keeps is still a member. -/
theorem mem_place_group_of_kept {role h : Text} (hrole : role ∈ hostRoles)
    (hmem : h ∈ a.group role) (hkept : kept hosts h = true) :
    h ∈ (place env conflict hosts a).group role := by
  obtain ⟨added, -, heq⟩ := place_group hrole
  rw [heq, mem_addKeys, List.mem_filter]
  exact Or.inl ⟨hmem, hkept⟩

/-! ### Referential integrity and coverage -/

/-- Role members are hosts, and every host has a role. -/
structure RolesCover (a : Assignment) : Prop where
  listed : ∀ role ∈ hostRoles, ∀ h ∈ a.group role, h ∈ a.hosts
  covered : ∀ h ∈ a.hosts,
    h ∈ a.group etcd ∨ h ∈ a.group kubeControlPlane ∨ h ∈ a.group kubeNode

/-- Without hosts there is nothing to list and nothing to cover. -/
theorem rolesCover_none : RolesCover .none where
  listed _ _ _ h := by cases h
  covered _ h := by cases h

/-- A run preserves integrity and coverage. A host of the run that `kube_node` does not
take is in the group because of which it was left out; a protected name that stays in
`all` stays in its groups too. -/
theorem rolesCover_place (ha : RolesCover a) : RolesCover (place env conflict hosts a) where
  listed role hrole h hmem := by
    rw [mem_place_hosts]
    rcases mem_place_group hrole hmem with ⟨hold, hkept⟩ | hnew
    · exact Or.inl ⟨ha.listed role hrole h hold, hkept⟩
    · exact Or.inr hnew
  covered h hmem := by
    by_cases hhost : h ∈ hosts
    · by_cases hex : excluded env (place env conflict hosts a) h = true
      · rcases of_decide_eq_true hex with ⟨-, hetcd⟩ | ⟨-, hcontrol⟩
        · exact Or.inl hetcd
        · exact Or.inr (Or.inl hcontrol)
      · refine Or.inr (Or.inr ?_)
        rw [place_kubeNode, mem_addKeys]
        exact Or.inr (List.mem_filter.mpr ⟨hhost, by simp [hex]⟩)
    · obtain ⟨hold, hkept⟩ := (mem_place_hosts.mp hmem).resolve_right hhost
      rcases ha.covered h hold with hrole | hrole | hrole
      · exact Or.inl (mem_place_group_of_kept (by decide) hrole hkept)
      · exact Or.inr (Or.inl (mem_place_group_of_kept (by decide) hrole hkept))
      · exact Or.inr (Or.inr (mem_place_group_of_kept (by decide) hrole hkept))

/-- **Referential integrity and coverage over whole histories**, whatever the environment
of each run. -/
theorem rolesCover_history (runs : List Run) :
    EveryWritten (fun _ doc => RolesCover (assignment doc)) runs :=
  everyWritten_of_invariant rolesCover_none
    (fun _ _ _ _ ha => rolesCover_place ha) runs

/-! ### The size of the etcd group -/

/-- The etcd members that a run carries over beyond the hosts it would choose itself. -/
def surplus (hosts : List Text) (a : Assignment) : List Text :=
  (a.group etcd).filter fun h => kept hosts h && decide (h ∉ hosts.take (etcdHostsCount hosts))

/-- The first one or three hosts are an odd number of hosts, unless there are none. -/
theorem length_take_etcdHostsCount (hosts : List Text) :
    (hosts.take (etcdHostsCount hosts)).length
      = if 3 ≤ hosts.length then 3 else min 1 hosts.length := by
  rw [etcdHostsCount, List.length_take]
  split_ifs with h
  · exact min_eq_left h
  · rfl

/-- The size of the etcd group after a run. -/
theorem length_place_etcd (hnd : (a.group etcd).Nodup) (hhosts : hosts.Nodup) :
    ((place env conflict hosts a).group etcd).length
      = (surplus hosts a).length + (hosts.take (etcdHostsCount hosts)).length := by
  rw [place_etcd, length_addKeys (hnd.filter _) (hhosts.sublist (List.take_sublist _ _)),
    List.filter_filter]
  congr 2
  refine List.filter_congr fun h _ => ?_
  rw [Bool.and_comm]
  congr

/-- The preinstall role's demand on an inventory that lists hosts:
`groups.etcd|length is not divisibleby 2`. -/
def EtcdOdd (doc : Document) : Prop :=
  hostNames doc ≠ [] → ¬ 2 ∣ (members doc etcd).length

instance (doc : Document) : Decidable (EtcdOdd doc) :=
  inferInstanceAs (Decidable (_ → _))

/-- The surplus of a run does not upset the parity: it is even when the run has hosts of
its own. When it has none, nothing must be left of the inventory, or an odd surplus. -/
def LeftoversPaired (r : Run) (disk : Disk) : Prop :=
  if r.hostList disk = [] then
    (r.carried disk).hosts.filter (kept []) = [] ∨
      Odd (surplus (r.hostList disk) (r.carried disk)).length
  else
    Even (surplus (r.hostList disk) (r.carried disk)).length

/-- The parity of the etcd group after one run. -/
theorem etcdOdd_iff {r : Run} {disk : Disk} {doc : Document} (hrun : isHostRun r.argv = true)
    (hdoc : doc ∈ r.writes disk) : EtcdOdd doc ↔ LeftoversPaired r disk := by
  obtain ⟨conflict, heq⟩ := writes_assignment hrun hdoc
  have hhosts : hostNames doc = _ := congrArg Assignment.hosts heq
  have hetcd : members doc etcd = _ := congrFun (congrArg Assignment.group heq) etcd
  rw [EtcdOdd, LeftoversPaired, hhosts, hetcd, place_hosts,
    length_place_etcd (carried_group_nodup r disk etcd) (hostList_nodup r disk),
    length_take_etcdHostsCount]
  by_cases hnil : r.hostList disk = []
  · rw [hnil, if_pos rfl, addKeys_nil]
    have hnone : (if 3 ≤ ([] : List Text).length then 3 else min 1 ([] : List Text).length) = 0 :=
      rfl
    rw [hnone, add_zero, ← even_iff_two_dvd, Nat.not_even_iff_odd]
    exact imp_iff_not_or.trans (or_congr_left not_not)
  · have hpos : 0 < (r.hostList disk).length := List.length_pos_of_ne_nil hnil
    have hne : addKeys ((r.carried disk).hosts.filter (kept (r.hostList disk)))
        (r.hostList disk) ≠ [] := by
      obtain ⟨h, hh⟩ := List.exists_mem_of_ne_nil _ hnil
      exact List.ne_nil_of_mem (mem_addKeys.mpr (Or.inr hh))
    have hodd : Odd (if 3 ≤ (r.hostList disk).length then 3
        else min 1 (r.hostList disk).length) := by
      split_ifs
      · decide
      · rw [min_eq_left hpos]
        decide
    rw [if_neg hnil, ← even_iff_two_dvd, Nat.even_add,
      iff_false_right (Nat.not_even_iff_odd.mpr hodd), not_not]
    exact ⟨fun h => h hne, fun h _ => h⟩

/-- **The etcd quorum over whole histories**: every written inventory with hosts passes
the preinstall check exactly when every run leaves its surplus paired. -/
theorem etcdOdd_history_iff (runs : List Run) :
    EveryWritten (fun _ doc => EtcdOdd doc) runs ↔ EveryRun LeftoversPaired runs :=
  everyWritten_iff (fun _ _ _ hrun hdoc => etcdOdd_iff hrun hdoc) runs

/-- Three hosts are built and the first is removed: the two that stay were both etcd
members and both remain, although a fresh build on two hosts would choose one. -/
theorem etcdOdd_history_fails :
    ¬ EveryWritten (fun _ doc => EtcdOdd doc)
      [{ env := .default, files := fun _ => none,
         argv := ["10.0.0.1".toList, "10.0.0.2".toList, "10.0.0.3".toList] },
       { env := .default, files := fun _ => none, argv := ["-node1".toList] }] := by
  decide

/-! ### Role separation at scale -/

/-- The scale rules: from the scale threshold on, etcd members have no other role; from
the massive one on, control plane hosts are no nodes. -/
structure ScaleSeparated (env : Env) (a : Assignment) : Prop where
  etcd : env.scaleThreshold ≤ a.hosts.length →
    ∀ h ∈ a.group etcd, h ∉ a.group kubeNode ∧ h ∉ a.group kubeControlPlane
  control : env.massiveScaleThreshold ≤ a.hosts.length →
    ∀ h ∈ a.group kubeControlPlane, h ∉ a.group kubeNode

/-- The scale rules as a conjunction. -/
theorem scaleSeparated_iff {a : Assignment} : ScaleSeparated env a ↔
    (env.scaleThreshold ≤ a.hosts.length →
      ∀ h ∈ a.group etcd, h ∉ a.group kubeNode ∧ h ∉ a.group kubeControlPlane) ∧
    (env.massiveScaleThreshold ≤ a.hosts.length →
      ∀ h ∈ a.group kubeControlPlane, h ∉ a.group kubeNode) :=
  ⟨fun h => ⟨h.etcd, h.control⟩, fun h => ⟨h.1, h.2⟩⟩

instance (env : Env) (a : Assignment) : Decidable (ScaleSeparated env a) :=
  decidable_of_iff' _ scaleSeparated_iff

/-- The members of a role that a run carries over. -/
def carriedOver (hosts : List Text) (a : Assignment) (role : Text) : List Text :=
  (a.group role).filter (kept hosts)

/-- The memberships carried over respect the scale rules, and so do the control plane
hosts that the run chooses by its own count. -/
structure CarriedSeparated (env : Env) (hosts : List Text) (a : Assignment) : Prop where
  etcd : env.scaleThreshold ≤ (addKeys (a.hosts.filter (kept hosts)) hosts).length →
    ∀ h, h ∈ carriedOver hosts a etcd ∨ h ∈ hosts.take (etcdHostsCount hosts) →
      h ∉ carriedOver hosts a kubeNode ∧ h ∉ carriedOver hosts a kubeControlPlane ∧
        h ∉ controlPlaneHosts env hosts
  control : env.massiveScaleThreshold ≤ (addKeys (a.hosts.filter (kept hosts)) hosts).length →
    ∀ h, h ∈ carriedOver hosts a kubeControlPlane ∨ h ∈ controlPlaneHosts env hosts →
      h ∉ carriedOver hosts a kubeNode

/-- The etcd members after a run. -/
theorem mem_place_etcd {h : Text} : h ∈ (place env conflict hosts a).group etcd ↔
    h ∈ carriedOver hosts a etcd ∨ h ∈ hosts.take (etcdHostsCount hosts) := by
  rw [place_etcd, mem_addKeys, carriedOver]

/-- The control plane hosts after a run. -/
theorem mem_place_kubeControlPlane {h : Text} :
    h ∈ (place env conflict hosts a).group kubeControlPlane ↔
      h ∈ carriedOver hosts a kubeControlPlane ∨ h ∈ controlPlaneHosts env hosts := by
  rw [place_kubeControlPlane, mem_addKeys, carriedOver]

/-- The nodes after a run. -/
theorem mem_place_kubeNode {h : Text} : h ∈ (place env conflict hosts a).group kubeNode ↔
    h ∈ carriedOver hosts a kubeNode ∨
      (h ∈ hosts ∧ excluded env (place env conflict hosts a) h = false) := by
  rw [place_kubeNode, mem_addKeys, carriedOver]
  refine or_congr_right (List.mem_filter.trans ?_)
  rw [Bool.not_eq_true']

/-- At scale an etcd member is a node only if it was one before. -/
theorem mem_kubeNode_of_etcd {h : Text}
    (hscale : env.scaleThreshold ≤ (place env conflict hosts a).hosts.length)
    (hetcd : h ∈ (place env conflict hosts a).group etcd) :
    h ∈ (place env conflict hosts a).group kubeNode ↔ h ∈ carriedOver hosts a kubeNode := by
  rw [mem_place_kubeNode]
  refine or_iff_left fun hnew => ?_
  exact of_decide_eq_false hnew.2 (Or.inl ⟨hscale, hetcd⟩)

/-- At massive scale a control plane host is a node only if it was one before. -/
theorem mem_kubeNode_of_control {h : Text}
    (hscale : env.massiveScaleThreshold ≤ (place env conflict hosts a).hosts.length)
    (hcontrol : h ∈ (place env conflict hosts a).group kubeControlPlane) :
    h ∈ (place env conflict hosts a).group kubeNode ↔ h ∈ carriedOver hosts a kubeNode := by
  rw [mem_place_kubeNode]
  refine or_iff_left fun hnew => ?_
  exact of_decide_eq_false hnew.2 (Or.inr ⟨hscale, hcontrol⟩)

/-- The scale rules after one run: what the run adds respects them, so they hold exactly
when they hold of what it carries over. -/
theorem place_separated_iff :
    ScaleSeparated env (place env conflict hosts a) ↔ CarriedSeparated env hosts a := by
  constructor
  · intro h
    refine ⟨fun hscale x hx => ?_, fun hscale x hx => ?_⟩
    · have hetcd : x ∈ (place env conflict hosts a).group etcd := mem_place_etcd.mpr hx
      obtain ⟨hnode, hcontrol⟩ := h.etcd hscale x hetcd
      rw [mem_kubeNode_of_etcd hscale hetcd] at hnode
      rw [mem_place_kubeControlPlane, not_or] at hcontrol
      exact ⟨hnode, hcontrol⟩
    · have hcontrol : x ∈ (place env conflict hosts a).group kubeControlPlane :=
        mem_place_kubeControlPlane.mpr hx
      rw [← mem_kubeNode_of_control hscale hcontrol]
      exact h.control hscale x hcontrol
  · intro h
    refine ⟨fun hscale x hetcd => ?_, fun hscale x hcontrol => ?_⟩
    · obtain ⟨hnode, hcontrol⟩ := h.etcd hscale x (mem_place_etcd.mp hetcd)
      rw [mem_kubeNode_of_etcd hscale hetcd, mem_place_kubeControlPlane, not_or]
      exact ⟨hnode, hcontrol⟩
    · rw [mem_kubeNode_of_control hscale hcontrol]
      exact h.control hscale x (mem_place_kubeControlPlane.mp hcontrol)

/-- **Role separation over whole histories**: the scale rules hold of every written
inventory exactly when every run carries over separated roles. -/
theorem scaleSeparated_history_iff (runs : List Run) :
    EveryWritten (fun r doc => ScaleSeparated r.env (assignment doc)) runs ↔
      EveryRun (fun r disk =>
        CarriedSeparated r.env (r.hostList disk) (r.carried disk)) runs := by
  refine everyWritten_iff (fun r disk doc hrun hdoc => ?_) runs
  obtain ⟨conflict, heq⟩ := writes_assignment hrun hdoc
  rw [heq]
  exact place_separated_iff

/-- Thresholds of two and three hosts: one host is built, a second one is added. The
first host was a node and a control plane host before the inventory reached the scale
threshold, and it stays both while it is the etcd member. -/
theorem scaleSeparated_history_fails :
    ¬ ∀ runs : List Run,
      (∀ r ∈ runs, r.env.scaleThreshold ≤ r.env.massiveScaleThreshold) →
      EveryWritten (fun r doc => ScaleSeparated r.env (assignment doc)) runs := by
  intro h
  have hruns := h
    [{ env := { Env.default with scaleThreshold := 2, massiveScaleThreshold := 3 },
       files := fun _ => none, argv := ["10.0.0.1".toList] },
     { env := { Env.default with scaleThreshold := 2, massiveScaleThreshold := 3 },
       files := fun _ => none, argv := ["add".toList, "10.0.0.2".toList] }] (by decide)
  revert hruns
  decide

end Kubespray.Inventory
