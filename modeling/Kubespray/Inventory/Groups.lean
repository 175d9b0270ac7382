import Kubespray.Inventory.Assignment
import Kubespray.Library.Fallible

/-!
# The Steps on the Group Tree

The functions of the inventory builder that work on `yaml_config` in place: creating the
required groups, purging hosts that are gone, and adding hosts to groups. Each is
fallible, because a loaded file may lack a key or hold `null` where the step subscripts.

Each step that succeeds acts on the role assignment of the configuration the way the
abstract operation of `Kubespray.Inventory.Assignment` does; the lemmas named
`…_assignment` say so, and nothing later looks into the nesting again.

## Main results

* `ensureRequiredGroups_assignment`: creating groups changes no membership.
* `purgeInvalidHosts_assignment`: the purge is a filter on every group.
* `setAll_assignment`, `setEtcd_assignment`, `setKubeControlPlane_assignment`,
  `setKubeNode_assignment`, `setCalicoRr_assignment`, `setK8sCluster_assignment`.
-/

namespace Kubespray.Inventory

open OrderedDict Fallible

/-! ### Required groups -/

/-- One round of the loop of `ensure_required_groups`. -/
def ensureGroup (doc : Document) (group : Text) : Except Abort Document :=
  if group = "all".toList then
    match doc with
    | .missing => .ok (.is { hosts := .is OrderedDict.empty, children := .is OrderedDict.empty })
    | doc => .ok doc
  else
    match doc with
    | .missing => .error .keyError
    | .null => .error .typeError
    | .is all =>
      match all.children with
      | .missing => .error .keyError
      | .null => .error .typeError
      | .is children =>
        if group ∈ children.keys then .ok doc
        else .ok (.is { all with children := .is (children.set group Group.fresh) })

/-- The group `all` with its children, read as the later steps subscript it. -/
def toConfig : Document → Except Abort Config
  | .missing => .error .keyError
  | .null => .error .typeError
  | .is all =>
    match all.children with
    | .missing => .error .keyError
    | .null => .error .typeError
    | .is children => .ok { hosts := all.hosts, children := children }

/-- `ensure_required_groups`, and the configuration it leaves. -/
def ensureRequiredGroups (groups : List Text) (doc : Document) : Except Abort Config := do
  toConfig (← groups.foldlM ensureGroup doc)

/-! ### Purging -/

/-- The purge of one role group. A group that lists no `hosts` key is an error, an empty
or null one is left alone, and `k8s_cluster` is passed over. -/
def purgeRole (keep : Text → Bool) (cfg : Config) (role : Text) : Except Abort Config :=
  if role = k8sCluster then .ok cfg
  else
    match cfg.children.get? role with
    | none => .error .keyError
    | some g =>
      match g.hosts with
      | .missing => .error .keyError
      | .null => .ok cfg
      | .is d =>
        .ok { cfg with children := cfg.children.set role { g with hosts := .is (d.retain keep) } }

/-- `purge_invalid_hosts`: drop the hosts that are neither in `hostnames` nor protected
from every role group, then from `all`. -/
def purgeInvalidHosts (hostnames protected_ : List Text) (cfg : Config) :
    Except Abort Config := do
  let keep := fun host => decide (host ∈ hostnames ∨ host ∈ protected_)
  let cfg ← cfg.children.keys.foldlM (purgeRole keep) cfg
  match cfg.hosts with
  | .missing => .error .keyError
  | .null => return cfg
  | .is d => return { cfg with hosts := .is (d.retain keep) }

/-! ### Adding hosts -/

/-- Assign a host under a `hosts` key that is null or a dictionary. -/
def Entry.assign (e : Entry (OrderedDict Text Value)) (host : Text) (opts : Value) :
    Except Abort (Entry (OrderedDict Text Value)) :=
  match e with
  | .missing => .error .keyError
  | .null => .ok (.is (OrderedDict.empty.set host opts))
  | .is d => .ok (.is (d.set host opts))

/-- `add_host_to_group`. Members of role groups are stored with null variables. -/
def addHostToGroup (cfg : Config) (group host : Text) (opts : Value) : Except Abort Config :=
  if group = "all".toList then do
    return { cfg with hosts := ← cfg.hosts.assign host opts }
  else if group ≠ "k8s_cluster:children".toList then
    match cfg.children.get? group with
    | none => .error .keyError
    | some g => do
      let hosts ← g.hosts.assign host .null
      return { cfg with children := cfg.children.set group { g with hosts := hosts } }
  else
    .ok cfg

/-- `set_all`. -/
def setAll (hosts : OrderedDict Text Value) (cfg : Config) : Except Abort Config :=
  hosts.entries.foldlM (fun cfg e => addHostToGroup cfg "all".toList e.1 e.2) cfg

/-- `set_k8s_cluster`. -/
def setK8sCluster (cfg : Config) : Config :=
  { cfg with
    children := cfg.children.set k8sCluster
      { hosts := .missing, children := some [kubeControlPlane, kubeNode], others := [] } }

/-- The loop that `set_etcd` and `set_kube_control_plane` consist of. -/
def addHosts (role : Text) (hosts : List Text) (cfg : Config) : Except Abort Config :=
  hosts.foldlM (fun cfg host => addHostToGroup cfg role host .null) cfg

/-- `set_etcd`. -/
def setEtcd (hosts : List Text) (cfg : Config) : Except Abort Config :=
  addHosts etcd hosts cfg

/-- `set_kube_control_plane`. -/
def setKubeControlPlane (hosts : List Text) (cfg : Config) : Except Abort Config :=
  addHosts kubeControlPlane hosts cfg

/-- `len(self.yaml_config['all']['hosts'])`. -/
def hostCount (cfg : Config) : Except Abort ℕ :=
  match cfg.hosts with
  | .is d => .ok d.keys.length
  | .null => .error .typeError
  | .missing => .error .keyError

/-- `host in self.yaml_config['all']['children'][role]['hosts']`. -/
def inGroup (cfg : Config) (role host : Text) : Except Abort Bool :=
  match cfg.children.get? role with
  | none => .error .keyError
  | some g =>
    match g.hosts with
    | .is d => .ok (host ∈ d.keys)
    | .null => .error .typeError
    | .missing => .error .keyError

/-- One of the two scale rules of `set_kube_node`: at or above a number of hosts, the
members of a role are kept out. -/
def scaleRule (threshold : ℤ) (role : Text) (cfg : Config) (host : Text) :
    Except Abort Bool := do
  let n ← hostCount cfg
  if threshold ≤ n then inGroup cfg role host else return false

/-- One round of the loop of `set_kube_node`. -/
def setKubeNodeHost (env : Env) (cfg : Config) (host : Text) : Except Abort Config := do
  if ← scaleRule env.scaleThreshold etcd cfg host then
    return cfg
  else if ← scaleRule env.massiveScaleThreshold kubeControlPlane cfg host then
    return cfg
  else
    addHostToGroup cfg kubeNode host .null

/-- `set_kube_node`. -/
def setKubeNode (env : Env) (hosts : List Text) (cfg : Config) : Except Abort Config :=
  hosts.foldlM (setKubeNodeHost env) cfg

/-- `host in self.yaml_config['all']['children'][role]`: the test looks among the keys of
the group, such as `hosts`, not among its members. -/
def isGroupKey (cfg : Config) (role host : Text) : Except Abort Bool :=
  match cfg.children.get? role with
  | none => .error .keyError
  | some g => .ok (host ∈ g.keys)

/-- One round of the loop of `set_calico_rr`. -/
def setCalicoRrHost (cfg : Config) (host : Text) : Except Abort Config := do
  if ← isGroupKey cfg kubeControlPlane host then
    return cfg
  else if ← isGroupKey cfg kubeNode host then
    return cfg
  else
    addHostToGroup cfg calicoRr host .null

/-- `set_calico_rr`. -/
def setCalicoRr (hosts : List Text) (cfg : Config) : Except Abort Config :=
  hosts.foldlM setCalicoRrHost cfg

/-! ### The members of an updated configuration -/

/-- The members of a group that is there. -/
theorem assignment_group {cfg : Config} {role : Text} {g : Group}
    (h : cfg.children.get? role = some g) : cfg.assignment.group role = g.members := by
  simp only [Config.assignment, Config.members, h]

/-- The members of a group that was replaced. -/
theorem members_set_self (cfg : Config) (role : Text) (g : Group) :
    ({ cfg with children := cfg.children.set role g } : Config).members role = g.members := by
  simp only [Config.members, get?_set_self]

/-- The members of any other group. -/
theorem members_set_of_ne (cfg : Config) {role other : Text} (h : other ≠ role) (g : Group) :
    ({ cfg with children := cfg.children.set role g } : Config).members other
      = cfg.members other := by
  simp only [Config.members, get?_set_of_ne _ _ h]

/-- The assignment of a configuration in which one group was replaced. -/
theorem assignment_set (cfg : Config) (role : Text) (g : Group) :
    ({ cfg with children := cfg.children.set role g } : Config).assignment
      = { cfg.assignment with
          group := Function.update cfg.assignment.group role g.members } := by
  unfold Config.assignment
  congr 1
  funext other
  by_cases h : other = role
  · subst h
    rw [members_set_self, Function.update_self]
  · rw [members_set_of_ne cfg h, Function.update_of_ne h]

/-! ### Creating groups -/

/-- **What creating a group can do**: nothing, begin a document, or add a group without
hosts to the children. -/
theorem ensureGroup_cases {doc doc' : Document} {group : Text}
    (h : ensureGroup doc group = .ok doc') :
    doc' = doc ∨
      (doc = .missing ∧
        doc' = .is { hosts := .is OrderedDict.empty, children := .is OrderedDict.empty }) ∨
      ∃ hosts children, doc = .is { hosts := hosts, children := .is children } ∧
        group ∉ children.keys ∧
        doc' = .is { hosts := hosts, children := .is (children.set group Group.fresh) } := by
  unfold ensureGroup at h
  by_cases hall : group = "all".toList
  · rw [if_pos hall] at h
    cases doc with
    | missing =>
        cases h
        exact Or.inr (Or.inl ⟨rfl, rfl⟩)
    | null | is =>
        cases h
        exact Or.inl rfl
  · rw [if_neg hall] at h
    cases doc with
    | missing | null => cases h
    | is all =>
        obtain ⟨hosts, children⟩ := all
        cases children with
        | missing | null => cases h
        | is children =>
            dsimp only at h
            split_ifs at h with hmem
            · cases h
              exact Or.inl rfl
            · cases h
              exact Or.inr (Or.inr ⟨hosts, children, rfl, hmem, rfl⟩)

/-- Creating a group changes no membership. -/
theorem ensureGroup_assignment {doc doc' : Document} {group : Text}
    (h : ensureGroup doc group = .ok doc') : assignment doc' = assignment doc := by
  obtain rfl | ⟨rfl, rfl⟩ | ⟨hosts, children, rfl, hmem, rfl⟩ := ensureGroup_cases h
  · rfl
  · rfl
  · rw [assignment, assignment]
    congr 1
    funext role
    by_cases hrole : role = group
    · subst hrole
      simp only [members, get?_set_self, get?_eq_none_iff.mpr hmem, Group.members_fresh]
    · simp only [members, get?_set_of_ne _ _ hrole]

/-- The configuration of a document states the same assignment. -/
theorem toConfig_assignment {doc : Document} {cfg : Config} (h : toConfig doc = .ok cfg) :
    cfg.assignment = assignment doc := by
  cases doc with
  | missing | null => cases h
  | is all =>
      obtain ⟨hosts, children⟩ := all
      cases children with
      | missing | null => cases h
      | is children =>
          cases h
          rfl

/-- **Creating the required groups changes no membership.** -/
theorem ensureRequiredGroups_assignment {groups : List Text} {doc : Document} {cfg : Config}
    (h : ensureRequiredGroups groups doc = .ok cfg) : cfg.assignment = assignment doc := by
  obtain ⟨doc', hloop, hcfg⟩ := ok_of_bind h
  rw [toConfig_assignment hcfg]
  exact foldlM_invariant (I := fun d => assignment d = assignment doc)
    (fun d g d' _ hd hstep => (ensureGroup_assignment hstep).trans hd) rfl hloop

/-- Creating a group leaves the hosts of `all` alone. -/
theorem ensureGroup_hosts {all : AllGroup} {doc : Document} {group : Text}
    (h : ensureGroup (.is all) group = .ok doc) :
    ∃ all', doc = .is all' ∧ all'.hosts = all.hosts := by
  obtain rfl | ⟨hmissing, -⟩ | ⟨hosts, children, hall, -, rfl⟩ := ensureGroup_cases h
  · exact ⟨all, rfl, rfl⟩
  · cases hmissing
  · cases hall
    exact ⟨_, rfl, rfl⟩

/-- Creating the required groups leaves the hosts of `all` alone, options included. -/
theorem ensureRequiredGroups_hosts {groups : List Text} {all : AllGroup} {cfg : Config}
    (h : ensureRequiredGroups groups (.is all) = .ok cfg) : cfg.hosts = all.hosts := by
  obtain ⟨doc', hloop, hcfg⟩ := ok_of_bind h
  obtain ⟨all', rfl, hhosts⟩ :=
    foldlM_invariant (I := fun d => ∃ a : AllGroup, d = .is a ∧ a.hosts = all.hosts)
      (fun d g d' _ hd hstep => by
        obtain ⟨a, rfl, ha⟩ := hd
        obtain ⟨a', ha', heq⟩ := ensureGroup_hosts hstep
        exact ⟨a', ha', heq.trans ha⟩) ⟨all, rfl, rfl⟩ hloop
  rw [← hhosts]
  obtain ⟨hosts, children⟩ := all'
  cases children with
  | missing | null => cases hcfg
  | is children =>
      cases hcfg
      rfl

/-! ### The purge as a filter -/

/-- The purge of one role, on assignments. -/
def purgeOne (keep : Text → Bool) (a : Assignment) (role : Text) : Assignment :=
  if role = k8sCluster then a
  else { a with group := Function.update a.group role ((a.group role).filter keep) }

/-- The purge of one role filters its members. -/
theorem purgeRole_assignment {keep : Text → Bool} {cfg cfg' : Config} {role : Text}
    (h : purgeRole keep cfg role = .ok cfg') :
    cfg'.assignment = purgeOne keep cfg.assignment role := by
  rw [purgeRole] at h
  rw [purgeOne]
  by_cases hk8s : role = k8sCluster
  · rw [if_pos hk8s] at h ⊢
    cases h
    rfl
  · rw [if_neg hk8s] at h ⊢
    cases hget : cfg.children.get? role with
    | none =>
        rw [hget] at h
        cases h
    | some g =>
        rw [hget] at h
        obtain ⟨hosts, children, others⟩ := g
        have hmem := assignment_group hget
        cases hosts with
        | missing => cases h
        | null =>
            cases h
            have hnil : (cfg.assignment.group role).filter keep = cfg.assignment.group role := by
              rw [hmem]
              rfl
            rw [hnil, Function.update_eq_self]
        | is d =>
            cases h
            rw [assignment_set, hmem]
            simp only [Group.members, keys_retain]

/-- The purge loop over some roles filters exactly their members. -/
theorem foldl_purgeOne (keep : Text → Bool) (rs : List Text) (a : Assignment) :
    rs.foldl (purgeOne keep) a
      = { a with
          group := fun role =>
            if role ∈ rs ∧ role ≠ k8sCluster then (a.group role).filter keep
            else a.group role } := by
  induction rs generalizing a with
  | nil => simp
  | cons r rs ih =>
      rw [List.foldl_cons, ih]
      rw [purgeOne]
      by_cases hr : r = k8sCluster
      · rw [if_pos hr]
        congr 1
        funext role
        by_cases hrole : role = r
        · subst hrole; simp [hr]
        · simp [hrole]
      · rw [if_neg hr]
        dsimp only
        congr 1
        funext role
        by_cases hrole : role = r
        · subst hrole
          simp [hr, List.filter_filter]
        · simp [hrole]

/-- A role that is no group of the configuration has no members. -/
theorem members_eq_nil_of_notMem {cfg : Config} {role : Text} (h : role ∉ cfg.children.keys) :
    cfg.members role = [] := by
  simp only [Config.members, get?_eq_none_iff.mpr h]

/-- **The purge is a filter** on `all` and on every role group but `k8s_cluster`. -/
theorem purgeInvalidHosts_assignment {hostnames protected_ : List Text} {cfg cfg' : Config}
    (h : purgeInvalidHosts hostnames protected_ cfg = .ok cfg') :
    cfg'.assignment
      = cfg.assignment.purge fun host => decide (host ∈ hostnames ∨ host ∈ protected_) := by
  obtain ⟨cfg₁, hloop, h⟩ := ok_of_bind h
  set keep : Text → Bool := fun host => decide (host ∈ hostnames ∨ host ∈ protected_) with hkeep
  have hfold : cfg₁.assignment = cfg.children.keys.foldl (purgeOne keep) cfg.assignment :=
    foldlM_observe (fun c r c' _ hstep => purgeRole_assignment hstep) hloop
  have hroles : cfg₁.assignment
      = { cfg.assignment with group := (cfg.assignment.purge keep).group } := by
    rw [hfold, foldl_purgeOne]
    congr 1
    funext role
    rw [Assignment.purge]
    dsimp only
    by_cases hrole : role ∈ cfg.children.keys
    · by_cases hk8s : role = k8sCluster <;> simp [hrole, hk8s]
    · have hnil : cfg.assignment.group role = [] := members_eq_nil_of_notMem hrole
      simp [hnil]
  obtain ⟨hosts, children⟩ := cfg₁
  have hhosts : (Config.mk hosts children).hostNames = cfg.assignment.hosts :=
    congrArg Assignment.hosts hroles
  have hgroup : (Config.mk hosts children).members = (cfg.assignment.purge keep).group :=
    congrArg Assignment.group hroles
  cases hosts with
  | missing => cases h
  | null =>
      cases h
      have hnil : cfg.assignment.hosts.filter keep = [] := by
        rw [← hhosts]
        rfl
      rw [Assignment.purge, hnil]
      exact congrArg (Assignment.mk _) hgroup
  | is d =>
      cases h
      have hfilter : (d.retain keep).keys = cfg.assignment.hosts.filter keep := by
        rw [keys_retain, ← hhosts]
        rfl
      rw [Assignment.purge, ← hfilter]
      exact congrArg (Assignment.mk _) hgroup

/-! ### Additions -/

/-- Assignment under a `hosts` key, on the listed names. -/
theorem Entry.assign_members {e e' : Entry (OrderedDict Text Value)} {host : Text} {opts : Value}
    (h : e.assign host opts = .ok e') (children : Option (List Text)) (others : List Text) :
    (Group.mk e' children others).members
      = addKey (Group.mk e children others).members host := by
  cases e with
  | missing => cases h
  | null =>
      cases h
      simp [Group.members]
  | is d =>
      cases h
      simp [Group.members]

/-- An addition to a role group found the group and assigned the host under its `hosts`. -/
theorem addHostToGroup_role_eq_ok {cfg cfg' : Config} {role host : Text} {opts : Value}
    (hall : role ≠ "all".toList) (hchildren : role ≠ "k8s_cluster:children".toList)
    (h : addHostToGroup cfg role host opts = .ok cfg') :
    ∃ g hosts, cfg.children.get? role = some g ∧ g.hosts.assign host .null = .ok hosts ∧
      cfg' = { cfg with children := cfg.children.set role { g with hosts := hosts } } := by
  rw [addHostToGroup, if_neg hall, if_pos hchildren] at h
  cases hget : cfg.children.get? role with
  | none =>
      rw [hget] at h
      cases h
  | some g =>
      rw [hget] at h
      obtain ⟨hosts, hassign, h⟩ := ok_of_bind h
      cases h
      exact ⟨g, hosts, rfl, hassign, rfl⟩

/-- Adding a host to a role group. -/
theorem addHostToGroup_role_assignment {cfg cfg' : Config} {role host : Text} {opts : Value}
    (hall : role ≠ "all".toList) (hchildren : role ≠ "k8s_cluster:children".toList)
    (h : addHostToGroup cfg role host opts = .ok cfg') :
    cfg'.assignment = cfg.assignment.assign role [host] := by
  obtain ⟨⟨hosts₀, children, others⟩, hosts, hget, hassign, rfl⟩ :=
    addHostToGroup_role_eq_ok hall hchildren h
  rw [assignment_set, Entry.assign_members hassign, ← assignment_group hget]
  rfl

/-- Adding a host to `all`. -/
theorem addHostToGroup_all_assignment {cfg cfg' : Config} {host : Text} {opts : Value}
    (h : addHostToGroup cfg "all".toList host opts = .ok cfg') :
    cfg'.assignment = cfg.assignment.addHosts [host] := by
  rw [addHostToGroup, if_pos rfl] at h
  obtain ⟨hosts, hassign, h⟩ := ok_of_bind h
  cases h
  obtain ⟨hosts₀, children⟩ := cfg
  cases hosts₀ with
  | missing => cases hassign
  | null =>
      cases hassign
      rw [Config.assignment, Assignment.addHosts]
      simp only [Config.hostNames, keys_set, keys_empty, addKeys_cons, addKeys_nil]
      rfl
  | is d =>
      cases hassign
      rw [Config.assignment, Assignment.addHosts]
      simp only [Config.hostNames, keys_set, addKeys_cons, addKeys_nil]
      rfl

/-- Adding no hosts to a group. -/
theorem assign_nil (role : Text) (a : Assignment) : a.assign role [] = a := by
  rw [Assignment.assign, addKeys_nil, Function.update_eq_self]

/-- Adding hosts one after the other. -/
theorem assign_cons (role host : Text) (hs : List Text) (a : Assignment) :
    a.assign role (host :: hs) = (a.assign role [host]).assign role hs := by
  unfold Assignment.assign
  dsimp only
  rw [Function.update_self, Function.update_idem]
  rfl

/-- A loop of additions to one group, on assignments. -/
theorem foldl_assign (role : Text) (hs : List Text) (a : Assignment) :
    hs.foldl (fun a h => a.assign role [h]) a = a.assign role hs := by
  induction hs generalizing a with
  | nil => exact (assign_nil role a).symm
  | cons h hs ih => rw [List.foldl_cons, ih, ← assign_cons]

/-- A loop of additions to `all`, on assignments. -/
theorem foldl_addHosts (hs : List Text) (a : Assignment) :
    hs.foldl (fun a h => a.addHosts [h]) a = a.addHosts hs := by
  induction hs generalizing a with
  | nil => rfl
  | cons h hs ih =>
      rw [List.foldl_cons, ih]
      rfl

/-- `set_all` adds its hosts to `all`. -/
theorem setAll_assignment {hosts : OrderedDict Text Value} {cfg cfg' : Config}
    (h : setAll hosts cfg = .ok cfg') :
    cfg'.assignment = cfg.assignment.addHosts hosts.keys := by
  have hloop : cfg'.assignment
      = hosts.entries.foldl (fun a e => a.addHosts [e.1]) cfg.assignment :=
    foldlM_observe
      (fun c e c' _ (hstep : addHostToGroup c "all".toList e.1 e.2 = .ok c') =>
        addHostToGroup_all_assignment hstep) h
  rw [hloop, ← foldl_addHosts, OrderedDict.keys, List.foldl_map]

/-- `set_k8s_cluster` clears the group. -/
theorem setK8sCluster_assignment (cfg : Config) :
    (setK8sCluster cfg).assignment = cfg.assignment.clearCluster :=
  assignment_set cfg k8sCluster _

/-- The addition loop adds its hosts to the role. -/
theorem addHosts_assignment {role : Text} (hall : role ≠ "all".toList)
    (hchildren : role ≠ "k8s_cluster:children".toList) {hosts : List Text} {cfg cfg' : Config}
    (h : addHosts role hosts cfg = .ok cfg') :
    cfg'.assignment = cfg.assignment.assign role hosts := by
  rw [← foldl_assign]
  exact foldlM_observe
    (fun c x c' _ hstep => addHostToGroup_role_assignment hall hchildren hstep) h

/-- `set_etcd` adds its hosts to `etcd`. -/
theorem setEtcd_assignment {hosts : List Text} {cfg cfg' : Config}
    (h : setEtcd hosts cfg = .ok cfg') : cfg'.assignment = cfg.assignment.assign etcd hosts :=
  addHosts_assignment (by decide) (by decide) h

/-- `set_kube_control_plane` adds its hosts to `kube_control_plane`. -/
theorem setKubeControlPlane_assignment {hosts : List Text} {cfg cfg' : Config}
    (h : setKubeControlPlane hosts cfg = .ok cfg') :
    cfg'.assignment = cfg.assignment.assign kubeControlPlane hosts :=
  addHosts_assignment (by decide) (by decide) h

/-! ### The guarded additions -/

/-- A completed membership test agrees with the assignment. -/
theorem inGroup_eq_ok {cfg : Config} {role host : Text} {b : Bool}
    (h : inGroup cfg role host = .ok b) : b = decide (host ∈ cfg.assignment.group role) := by
  rw [inGroup] at h
  cases hget : cfg.children.get? role with
  | none =>
      rw [hget] at h
      cases h
  | some g =>
      rw [hget] at h
      obtain ⟨hosts, children, others⟩ := g
      cases hosts with
      | missing | null => cases h
      | is d =>
          cases h
          rw [assignment_group hget]
          rfl

/-- A completed scale rule agrees with the assignment. -/
theorem scaleRule_eq_ok {threshold : ℤ} {role : Text} {cfg : Config} {host : Text} {b : Bool}
    (h : scaleRule threshold role cfg host = .ok b) :
    b = decide (threshold ≤ cfg.assignment.hosts.length ∧ host ∈ cfg.assignment.group role) := by
  obtain ⟨n, hn, h⟩ := ok_of_bind h
  have hcount : n = cfg.assignment.hosts.length := by
    obtain ⟨hosts, children⟩ := cfg
    cases hosts with
    | missing | null => cases hn
    | is d =>
        cases hn
        rfl
  rw [hcount] at h
  by_cases hle : threshold ≤ (cfg.assignment.hosts.length : ℤ)
  · rw [if_pos hle] at h
    rw [inGroup_eq_ok h]
    simp [hle]
  · rw [if_neg hle] at h
    cases h
    simp [hle]

/-- One round of `set_kube_node` adds the host unless the scale rules exclude it. -/
theorem setKubeNodeHost_assignment {env : Env} {cfg cfg' : Config} {host : Text}
    (h : setKubeNodeHost env cfg host = .ok cfg') :
    cfg'.assignment = if excluded env cfg.assignment host then cfg.assignment
      else cfg.assignment.assign kubeNode [host] := by
  obtain ⟨byEtcd, hetcd, h⟩ := ok_of_bind h
  have hetcd := scaleRule_eq_ok hetcd
  cases byEtcd with
  | true =>
      cases h
      rw [if_pos]
      have hkeep := of_decide_eq_true hetcd.symm
      simp only [excluded, decide_eq_true_eq]
      exact Or.inl hkeep
  | false =>
      obtain ⟨byControl, hcontrol, h⟩ := ok_of_bind h
      have hcontrol := scaleRule_eq_ok hcontrol
      cases byControl with
      | true =>
          cases h
          rw [if_pos]
          have hkeep := of_decide_eq_true hcontrol.symm
          simp only [excluded, decide_eq_true_eq]
          exact Or.inr hkeep
      | false =>
          rw [if_neg]
          · have hadd : addHostToGroup cfg kubeNode host .null = .ok cfg' := h
            exact addHostToGroup_role_assignment (by decide) (by decide) hadd
          · have h₁ := of_decide_eq_false hetcd.symm
            have h₂ := of_decide_eq_false hcontrol.symm
            simp only [excluded, decide_eq_true_eq]
            exact fun hor => hor.elim h₁ h₂

/-- Adding nodes does not change which hosts the scale rules exclude. -/
theorem excluded_assign_kubeNode (env : Env) (a : Assignment) (hs : List Text) (h : Text) :
    excluded env (a.assign kubeNode hs) h = excluded env a h := by
  rw [excluded, Assignment.assign_group_of_ne (by decide),
    Assignment.assign_group_of_ne (by decide)]
  rfl

/-- The loop of `set_kube_node`, on assignments. -/
theorem foldl_assign_kubeNode (env : Env) (hs : List Text) (a : Assignment) :
    hs.foldl (fun a h => if excluded env a h then a else a.assign kubeNode [h]) a
      = a.assign kubeNode (hs.filter fun h => !excluded env a h) := by
  induction hs generalizing a with
  | nil => exact (assign_nil kubeNode a).symm
  | cons h hs ih =>
      rw [List.foldl_cons, ih]
      by_cases hex : excluded env a h = true
      · rw [if_pos hex, List.filter_cons_of_neg (by simp [hex])]
      · rw [if_neg hex, List.filter_cons_of_pos (by simp [hex])]
        simp only [excluded_assign_kubeNode]
        rw [← assign_cons]

/-- `set_kube_node` adds the hosts that the scale rules do not exclude. -/
theorem setKubeNode_assignment {env : Env} {hosts : List Text} {cfg cfg' : Config}
    (h : setKubeNode env hosts cfg = .ok cfg') :
    cfg'.assignment = cfg.assignment.assign kubeNode
      (hosts.filter fun h => !excluded env cfg.assignment h) := by
  rw [← foldl_assign_kubeNode]
  exact foldlM_observe (fun c x c' _ hstep => setKubeNodeHost_assignment hstep) h

/-- The conflict test of `set_calico_rr`: the host is a key of one of the two groups. -/
def calicoConflict (cfg : Config) (host : Text) : Bool :=
  (cfg.children.get? kubeControlPlane).any (fun g => host ∈ g.keys) ||
    (cfg.children.get? kubeNode).any (fun g => host ∈ g.keys)

/-- A completed look among the keys of a group. -/
theorem isGroupKey_eq_ok {cfg : Config} {role host : Text} {b : Bool}
    (h : isGroupKey cfg role host = .ok b) :
    b = (cfg.children.get? role).any fun g => host ∈ g.keys := by
  rw [isGroupKey] at h
  cases hget : cfg.children.get? role with
  | none =>
      rw [hget] at h
      cases h
  | some g =>
      rw [hget] at h
      cases h
      rfl

/-- Adding a route reflector does not change which hosts are in conflict. -/
theorem calicoConflict_addHostToGroup {cfg cfg' : Config} {host : Text} {opts : Value}
    (h : addHostToGroup cfg calicoRr host opts = .ok cfg') :
    calicoConflict cfg' = calicoConflict cfg := by
  obtain ⟨g, hosts, -, -, rfl⟩ := addHostToGroup_role_eq_ok (by decide) (by decide) h
  funext x
  rw [calicoConflict, calicoConflict, get?_set_of_ne _ _ (by decide),
    get?_set_of_ne _ _ (by decide)]

/-- One round of `set_calico_rr` adds the host unless the test reports a conflict, and
leaves the two tested groups alone. -/
theorem setCalicoRrHost_spec {cfg cfg' : Config} {host : Text}
    (h : setCalicoRrHost cfg host = .ok cfg') :
    cfg'.assignment = (if calicoConflict cfg host then cfg.assignment
        else cfg.assignment.assign calicoRr [host]) ∧
      calicoConflict cfg' = calicoConflict cfg := by
  obtain ⟨byControl, hcontrol, h⟩ := ok_of_bind h
  have hcontrol := isGroupKey_eq_ok hcontrol
  cases byControl with
  | true =>
      cases h
      refine ⟨?_, rfl⟩
      rw [if_pos]
      simp [calicoConflict, ← hcontrol]
  | false =>
      obtain ⟨byNode, hnode, h⟩ := ok_of_bind h
      have hnode := isGroupKey_eq_ok hnode
      cases byNode with
      | true =>
          cases h
          refine ⟨?_, rfl⟩
          rw [if_pos]
          simp [calicoConflict, ← hnode]
      | false =>
          have hno : calicoConflict cfg host = false := by
            simp [calicoConflict, ← hcontrol, ← hnode]
          have hadd : addHostToGroup cfg calicoRr host .null = .ok cfg' := h
          refine ⟨?_, calicoConflict_addHostToGroup hadd⟩
          rw [hno]
          exact addHostToGroup_role_assignment (by decide) (by decide) hadd

/-- `set_calico_rr` adds the hosts for which its test reports no conflict. -/
theorem setCalicoRr_assignment {hosts : List Text} {cfg cfg' : Config}
    (h : setCalicoRr hosts cfg = .ok cfg') :
    cfg'.assignment = cfg.assignment.assign calicoRr
      (hosts.filter fun h => !calicoConflict cfg h) := by
  rw [setCalicoRr] at h
  induction hosts generalizing cfg with
  | nil =>
      cases h
      exact (assign_nil calicoRr _).symm
  | cons host hosts ih =>
      obtain ⟨cfg₁, h₁, h⟩ := foldlM_cons_eq_ok_iff.mp h
      obtain ⟨hassign, hconflict⟩ := setCalicoRrHost_spec h₁
      rw [ih h, hconflict]
      by_cases hc : calicoConflict cfg host = true
      · rw [hassign, if_pos hc, List.filter_cons_of_neg (by simp [hc])]
      · rw [hassign, if_neg hc, List.filter_cons_of_pos (by simp [hc]), ← assign_cons]

end Kubespray.Inventory
