import Kubespray.Inventory.Layout

/-!
# Route Reflectors over Whole Histories

At scale a run puts its etcd hosts into `calico_rr` as well. `set_calico_rr` announces
that it leaves out hosts which are control plane hosts or nodes, and the calico role
demands that every route reflector belongs to `k8s_cluster`. The test for the conflict
looks among the keys of a group instead of its members, and `set_k8s_cluster` lists
`kube_control_plane` and `kube_node` only, so one question decides both: which route
reflectors are control plane hosts or nodes after a run. That is a matter of what the
run carries over.

## Main results

* `mem_cluster_iff`: when a route reflector is in one of the two groups after a run.
* `rrSeparate_history_iff`, `rrInCluster_history_iff`: the two demands over whole
  histories, each with the exact condition on every run.
-/

namespace Kubespray.Inventory

open OrderedDict

/-! ### The two demands -/

/-- What `set_calico_rr` announces: no route reflector is a control plane host or a
node. -/
def RrSeparate (doc : Document) : Prop :=
  ∀ h ∈ members doc calicoRr, h ∉ members doc kubeControlPlane ∧ h ∉ members doc kubeNode

instance (doc : Document) : Decidable (RrSeparate doc) :=
  inferInstanceAs (Decidable (∀ h ∈ members doc calicoRr, _))

/-- The groups that a group of a document declares as its children. -/
def declaredChildren (doc : Document) (role : Text) : List Text :=
  match doc with
  | .is all =>
    match all.children with
    | .is d => ((d.get? role).bind Group.children).getD []
    | _ => []
  | _ => []

/-- The hosts whose `group_names` contain a group: its own, and those of its declared
child groups. -/
def membersBelow (doc : Document) (role : Text) : List Text :=
  members doc role ++ (declaredChildren doc role).flatMap (members doc)

/-- What the calico role demands: every route reflector is in `k8s_cluster`. -/
def RrInCluster (doc : Document) : Prop :=
  ∀ h ∈ members doc calicoRr, h ∈ membersBelow doc k8sCluster

instance (doc : Document) : Decidable (RrInCluster doc) :=
  inferInstanceAs (Decidable (∀ h ∈ members doc calicoRr, _))

/-- In a canonical document `k8s_cluster` has the control plane hosts and the nodes. -/
theorem Canonical.mem_membersBelow {cfg : Config} (hcfg : Canonical cfg) {h : Text} :
    h ∈ membersBelow cfg.toDocument k8sCluster ↔
      h ∈ cfg.members kubeControlPlane ∨ h ∈ cfg.members kubeNode := by
  have hown : members cfg.toDocument k8sCluster = [] := by
    simp only [Config.toDocument, members, hcfg.cluster]
    rfl
  have hchildren : declaredChildren cfg.toDocument k8sCluster = [kubeControlPlane, kubeNode] := by
    simp only [Config.toDocument, declaredChildren, hcfg.cluster]
    rfl
  rw [membersBelow, hown, hchildren, List.nil_append, List.flatMap_cons, List.flatMap_cons,
    List.flatMap_nil, List.append_nil, List.mem_append]
  rfl

/-! ### Route reflectors after one run -/

variable {env : Env} {conflict : Text → Bool} {hosts : List Text} {a : Assignment}

/-- Route reflectors are etcd members. -/
def RrEtcd (a : Assignment) : Prop :=
  ∀ h ∈ a.group calicoRr, h ∈ a.group etcd

/-- The route reflectors after a run. -/
theorem mem_place_calicoRr {h : Text} : h ∈ (place env conflict hosts a).group calicoRr ↔
    h ∈ carriedOver hosts a calicoRr ∨ h ∈ calicoHosts env conflict hosts := by
  rw [place_calicoRr, mem_addKeys, carriedOver]

/-- The hosts that a run makes route reflectors are those it makes etcd members, and the
run is at scale. -/
theorem mem_calicoHosts {h : Text} (hmem : h ∈ calicoHosts env conflict hosts) :
    env.scaleThreshold ≤ (hosts.length : ℤ) ∧ h ∈ hosts.take (etcdHostsCount hosts) := by
  rw [calicoHosts] at hmem
  split_ifs at hmem with hscale
  · exact ⟨hscale, List.mem_of_mem_filter hmem⟩
  · cases hmem

/-- A run keeps the route reflectors among the etcd members. -/
theorem rrEtcd_place (ha : RrEtcd a) : RrEtcd (place env conflict hosts a) := by
  intro h hmem
  rw [mem_place_etcd]
  rcases mem_place_calicoRr.mp hmem with hold | hnew
  · obtain ⟨hrr, hkept⟩ := List.mem_filter.mp hold
    exact Or.inl (List.mem_filter.mpr ⟨ha h hrr, hkept⟩)
  · exact Or.inr (mem_calicoHosts hnew).2

/-- The hosts of a run are no more than those of the inventory it writes. -/
theorem length_le_place_hosts (hnd : hosts.Nodup) :
    hosts.length ≤ (place env conflict hosts a).hosts.length :=
  (List.subperm_of_subset hnd fun _ h => mem_place_hosts.mpr (Or.inr h)).length_le

/-- What puts a route reflector of a run into one of the groups of `k8s_cluster`: it was
in one of them before; or it was a route reflector before, and the run either chooses it
for the control plane or, below the scale threshold, makes all its hosts nodes. -/
def Clustered (env : Env) (hosts : List Text) (a : Assignment) (h : Text) : Prop :=
  h ∈ carriedOver hosts a kubeControlPlane ∨ h ∈ carriedOver hosts a kubeNode ∨
    (h ∈ carriedOver hosts a calicoRr ∧
      (h ∈ controlPlaneHosts env hosts ∨
        (h ∈ hosts ∧
          (addKeys (a.hosts.filter (kept hosts)) hosts).length < env.scaleThreshold)))

/-- A host that a run newly makes a route reflector is a control plane host or a node only
if it was one before. -/
theorem mem_cluster_of_new (hnd : hosts.Nodup) {h : Text}
    (hmem : h ∈ calicoHosts env conflict hosts) :
    (h ∈ (place env conflict hosts a).group kubeControlPlane ∨
        h ∈ (place env conflict hosts a).group kubeNode) ↔
      h ∈ carriedOver hosts a kubeControlPlane ∨ h ∈ carriedOver hosts a kubeNode := by
  obtain ⟨hscale, htake⟩ := mem_calicoHosts hmem
  have hcontrol : h ∉ controlPlaneHosts env hosts := by
    rw [controlPlaneHosts, if_pos hscale]
    exact fun hslice => notMem_take_of_mem_slice hnd hslice htake
  have hcount : env.scaleThreshold ≤ ((place env conflict hosts a).hosts.length : ℤ) :=
    le_trans hscale (by exact_mod_cast length_le_place_hosts hnd)
  rw [mem_kubeNode_of_etcd hcount (mem_place_etcd.mpr (Or.inr htake)),
    mem_place_kubeControlPlane, or_iff_left hcontrol]

/-- A host that was an etcd member before, and still is one, is a control plane host or a
node when it was one before, when the run chooses it for the control plane, or when the
run has it below the scale threshold. -/
theorem mem_cluster_of_etcd {h : Text} (hetcd : h ∈ carriedOver hosts a etcd) :
    (h ∈ (place env conflict hosts a).group kubeControlPlane ∨
        h ∈ (place env conflict hosts a).group kubeNode) ↔
      h ∈ carriedOver hosts a kubeControlPlane ∨ h ∈ carriedOver hosts a kubeNode ∨
        h ∈ controlPlaneHosts env hosts ∨
        (h ∈ hosts ∧ (place env conflict hosts a).hosts.length < env.scaleThreshold) := by
  have hplaced : h ∈ (place env conflict hosts a).group etcd := mem_place_etcd.mpr (Or.inl hetcd)
  constructor
  · rintro (hcontrol | hnode)
    · rcases mem_place_kubeControlPlane.mp hcontrol with hold | hnew
      · exact Or.inl hold
      · exact Or.inr (Or.inr (Or.inl hnew))
    · rcases mem_place_kubeNode.mp hnode with hold | ⟨hhost, hex⟩
      · exact Or.inr (Or.inl hold)
      · refine Or.inr (Or.inr (Or.inr ⟨hhost, ?_⟩))
        by_contra hscale
        exact of_decide_eq_false hex (Or.inl ⟨not_lt.mp hscale, hplaced⟩)
  · rintro (hold | hold | hnew | ⟨hhost, hscale⟩)
    · exact Or.inl (mem_place_kubeControlPlane.mpr (Or.inl hold))
    · exact Or.inr (mem_place_kubeNode.mpr (Or.inl hold))
    · exact Or.inl (mem_place_kubeControlPlane.mpr (Or.inr hnew))
    · by_cases hcontrol : h ∈ (place env conflict hosts a).group kubeControlPlane
      · exact Or.inl hcontrol
      · refine Or.inr (mem_place_kubeNode.mpr (Or.inr ⟨hhost, decide_eq_false ?_⟩))
        rintro (⟨hle, -⟩ | ⟨-, hmem⟩)
        · exact absurd hle (not_le.mpr hscale)
        · exact hcontrol hmem

/-- **Which route reflectors are in the groups of `k8s_cluster` after a run.** -/
theorem mem_cluster_iff (hnd : hosts.Nodup) (ha : RrEtcd a) {h : Text}
    (hmem : h ∈ (place env conflict hosts a).group calicoRr) :
    (h ∈ (place env conflict hosts a).group kubeControlPlane ∨
        h ∈ (place env conflict hosts a).group kubeNode) ↔ Clustered env hosts a h := by
  by_cases hold : h ∈ carriedOver hosts a calicoRr
  · obtain ⟨hrr, hkept⟩ := List.mem_filter.mp hold
    rw [mem_cluster_of_etcd (List.mem_filter.mpr ⟨ha h hrr, hkept⟩), Clustered,
      and_iff_right hold, place_hosts]
  · have hnew := (mem_place_calicoRr.mp hmem).resolve_left hold
    rw [mem_cluster_of_new hnd hnew, Clustered]
    refine or_congr_right (or_iff_left ?_).symm
    exact fun hrr => hold hrr.1

/-! ### Histories -/

/-- The inventory file is absent, or the builder wrote it with its route reflectors among
its etcd members. -/
def RrDisk (disk : Disk) : Prop :=
  WrittenDisk disk ∧ ∀ doc ∈ disk, RrEtcd (assignment doc)

/-- Without a file there are no route reflectors. -/
theorem rrDisk_none : RrDisk none := by
  constructor <;> intro doc hdoc <;> cases hdoc

variable {r : Run} {disk : Disk} {doc : Document}

/-- The route reflectors that a run starts from are etcd members. -/
theorem RrDisk.carried (hdisk : RrDisk disk) (r : Run) : RrEtcd (r.carried disk) := by
  rcases carried_cases r disk with heq | ⟨doc, hdoc, heq⟩ <;> rw [heq]
  · exact fun h hmem => absurd hmem List.not_mem_nil
  · exact hdisk.2 doc hdoc

/-- What a run writes, in terms of the abstract placement. -/
theorem assignment_of_writes (hdisk : WrittenDisk disk) (hrun : isHostRun r.argv = true)
    (hdoc : doc ∈ r.writes disk) :
    assignment doc = place r.env calledHosts (r.hostList disk) (r.carried disk) := by
  obtain ⟨hosts, cfg, hmap, -, rfl, -, hassign⟩ := writes_canonical hdisk hrun hdoc
  rw [Run.hostList, hmap, assignment_toDocument, hassign]

/-- A run keeps the route reflectors of the file among its etcd members. -/
theorem rrDisk_step (r : Run) (disk : Disk) (doc : Document) (hdisk : RrDisk disk)
    (hrun : isHostRun r.argv = true) (hdoc : doc ∈ r.writes disk) : RrDisk (some doc) := by
  refine ⟨writtenDisk_step r disk doc hdisk.1 hrun hdoc, fun doc' hdoc' => ?_⟩
  cases hdoc'
  rw [assignment_of_writes hdisk.1 hrun hdoc]
  exact rrEtcd_place (hdisk.carried r)

/-- The route reflectors a run will leave: those it carries over and those it adds. -/
def rrHosts (r : Run) (disk : Disk) : List Text :=
  carriedOver (r.hostList disk) (r.carried disk) calicoRr ++
    calicoHosts r.env calledHosts (r.hostList disk)

/-- The route reflectors of a written document. -/
theorem mem_rrHosts (hdisk : RrDisk disk) (hrun : isHostRun r.argv = true)
    (hdoc : doc ∈ r.writes disk) {h : Text} :
    h ∈ members doc calicoRr ↔ h ∈ rrHosts r disk := by
  have hassign := assignment_of_writes hdisk.1 hrun hdoc
  have hrr : members doc calicoRr = _ := congrFun (congrArg Assignment.group hassign) calicoRr
  rw [hrr, mem_place_calicoRr, rrHosts, List.mem_append]

/-- Which of them are control plane hosts or nodes. -/
theorem mem_cluster_of_writes (hdisk : RrDisk disk) (hrun : isHostRun r.argv = true)
    (hdoc : doc ∈ r.writes disk) {h : Text} (hmem : h ∈ rrHosts r disk) :
    (h ∈ members doc kubeControlPlane ∨ h ∈ members doc kubeNode) ↔
      Clustered r.env (r.hostList disk) (r.carried disk) h := by
  have hassign := assignment_of_writes hdisk.1 hrun hdoc
  have hgroup : members doc = _ := congrArg Assignment.group hassign
  rw [hgroup]
  refine mem_cluster_iff (hostList_nodup r disk) (hdisk.carried r) ?_
  rw [mem_place_calicoRr, ← List.mem_append]
  exact hmem

/-- **The announced separation over whole histories**: in every written inventory no
route reflector is a control plane host or a node, exactly when no run carries over or
makes a route reflector that is or becomes one. -/
theorem rrSeparate_history_iff (runs : List Run) :
    EveryWritten (fun _ doc => RrSeparate doc) runs ↔
      EveryRun (fun r disk => ∀ h ∈ rrHosts r disk,
        ¬ Clustered r.env (r.hostList disk) (r.carried disk) h) runs := by
  refine everyWritten_iff_of_invariant rrDisk_none rrDisk_step
    (fun r disk doc hdisk hrun hdoc => ?_) runs
  refine forall_congr' fun h => ?_
  rw [mem_rrHosts hdisk hrun hdoc]
  refine forall_congr' fun hmem => ?_
  rw [← mem_cluster_of_writes hdisk hrun hdoc hmem, not_or]

/-- With a threshold of two hosts, one host is built and a second one is added: the first
is made a route reflector and stays a control plane host and a node. -/
theorem rrSeparate_history_fails :
    ¬ EveryWritten (fun _ doc => RrSeparate doc)
      [{ env := { Env.default with scaleThreshold := 2 }, files := fun _ => none,
         argv := ["10.0.0.1".toList] },
       { env := { Env.default with scaleThreshold := 2 }, files := fun _ => none,
         argv := ["add".toList, "10.0.0.2".toList] }] := by
  decide

/-- **The calico role's demand over whole histories**: in every written inventory every
route reflector belongs to `k8s_cluster`, exactly when every run leaves only route
reflectors that are or become control plane hosts or nodes. -/
theorem rrInCluster_history_iff (runs : List Run) :
    EveryWritten (fun _ doc => RrInCluster doc) runs ↔
      EveryRun (fun r disk => ∀ h ∈ rrHosts r disk,
        Clustered r.env (r.hostList disk) (r.carried disk) h) runs := by
  refine everyWritten_iff_of_invariant rrDisk_none rrDisk_step
    (fun r disk doc hdisk hrun hdoc => ?_) runs
  have hbelow : ∀ h, h ∈ membersBelow doc k8sCluster ↔
      h ∈ members doc kubeControlPlane ∨ h ∈ members doc kubeNode := by
    intro h
    obtain ⟨-, cfg, -, hcfg, rfl, -⟩ := writes_canonical hdisk.1 hrun hdoc
    exact hcfg.mem_membersBelow
  refine forall_congr' fun h => ?_
  rw [mem_rrHosts hdisk hrun hdoc]
  refine forall_congr' fun hmem => ?_
  rw [← mem_cluster_of_writes hdisk hrun hdoc hmem]
  exact hbelow h

/-- With a threshold of four hosts, four hosts are built: three are etcd members and route
reflectors, and the fourth is all that `k8s_cluster` contains. -/
theorem rrInCluster_history_fails :
    ¬ EveryWritten (fun _ doc => RrInCluster doc)
      [{ env := { Env.default with scaleThreshold := 4 }, files := fun _ => none,
         argv := ["10.0.0.1".toList, "10.0.0.2".toList, "10.0.0.3".toList,
           "10.0.0.4".toList] }] := by
  decide

end Kubespray.Inventory
