import Kubespray.Inventory.RoleHistories

/-!
# The Layout of Written Inventories

A file on disk may be anything, and most steps of a run can fail on one. A file that the
builder wrote itself is never one of those: its children are the five role groups in a
fixed order, every group but `k8s_cluster` lists its members under `hosts` with null
variables, and `k8s_cluster` lists two groups. On such a configuration the steps of a run
succeed, and they leave such a configuration.

So the document a run writes is determined by two things, the options under `all.hosts`
and the role assignment, and both are known.

## Main results

* `placeHosts_canonical`: the steps succeed on a laid-out configuration; the hosts they
  leave are the host map over what the purge kept, and the groups are `place`.
* `Canonical.ext`: hosts and role members determine a canonical configuration.
* `writes_canonical`: what any run of a history writes.
-/

namespace Kubespray.Inventory

open OrderedDict Fallible Histories

/-! ### Laid-out configurations -/

/-- The members of a group have no variables. -/
def NullValued (d : OrderedDict Text Value) : Prop :=
  ∀ k, ∀ v ∈ d.get? k, v = .null

/-- A role group with its members. -/
def roleGroup (d : OrderedDict Text Value) : Group :=
  { hosts := .is d, children := none, others := [] }

/-- The group that `set_k8s_cluster` writes. -/
def clusterGroup : Group :=
  { hosts := .missing, children := some [kubeControlPlane, kubeNode], others := [] }

/-- The role groups below `all`, in the order of `ROLES`. -/
def childRoles : List Text :=
  [kubeControlPlane, kubeNode, etcd, k8sCluster, calicoRr]

/-- A configuration with the groups where the builder puts them; `k8s_cluster` may still
be the empty group that `ensure_required_groups` creates. -/
structure LaidOut (cfg : Config) : Prop where
  hosts : ∃ d, cfg.hosts = .is d
  keys : cfg.children.keys = childRoles
  role : ∀ role ∈ hostRoles,
    ∃ d, cfg.children.get? role = some (roleGroup d) ∧ NullValued d

/-- A configuration as the builder writes it. -/
structure Canonical (cfg : Config) : Prop extends LaidOut cfg where
  cluster : cfg.children.get? k8sCluster = some clusterGroup

/-- Adding a member keeps the variables null. -/
theorem NullValued.set {d : OrderedDict Text Value} (h : NullValued d) (host : Text) :
    NullValued (d.set host .null) := by
  intro k v hv
  rw [get?_set] at hv
  split_ifs at hv with hk
  · cases hv
    rfl
  · exact h k v hv

/-- Deleting members keeps the variables null. -/
theorem NullValued.retain {d : OrderedDict Text Value} (h : NullValued d)
    (keep : Text → Bool) : NullValued (d.retain keep) := by
  intro k v hv
  exact h k v (get?_of_get?_retain hv)

/-- The groups that list hosts are among the children, and `k8s_cluster` is not one. -/
theorem mem_childRoles {role : Text} :
    role ∈ childRoles ↔ role ∈ hostRoles ∨ role = k8sCluster := by
  simp only [childRoles, hostRoles, List.mem_cons, List.not_mem_nil, or_false]
  constructor
  · rintro (h | h | h | h | h)
    · exact Or.inl (Or.inr (Or.inl h))
    · exact Or.inl (Or.inr (Or.inr (Or.inl h)))
    · exact Or.inl (Or.inl h)
    · exact Or.inr h
    · exact Or.inl (Or.inr (Or.inr (Or.inr h)))
  · rintro ((h | h | h | h) | h)
    · exact Or.inr (Or.inr (Or.inl h))
    · exact Or.inl h
    · exact Or.inr (Or.inl h)
    · exact Or.inr (Or.inr (Or.inr (Or.inr h)))
    · exact Or.inr (Or.inr (Or.inr (Or.inl h)))

/-- `k8s_cluster` lists no hosts. -/
theorem ne_k8sCluster_of_mem {role : Text} (h : role ∈ hostRoles) : role ≠ k8sCluster := by
  rintro rfl
  exact absurd h (by decide)

/-! ### Steps on role groups -/

/-- A laid-out configuration that differs from another in role groups at most. -/
structure RolesOnly (cfg cfg' : Config) : Prop where
  laidOut : LaidOut cfg'
  hosts : cfg'.hosts = cfg.hosts
  cluster : cfg'.children.get? k8sCluster = cfg.children.get? k8sCluster

namespace LaidOut

variable {cfg : Config} (h : LaidOut cfg)
include h

/-- Nothing differs. -/
theorem rolesOnly : RolesOnly cfg cfg :=
  ⟨h, rfl, rfl⟩

/-- One role group is given other members. -/
theorem rolesOnly_set {role : Text} (hrole : role ∈ hostRoles) {d : OrderedDict Text Value}
    (hd : NullValued d) :
    RolesOnly cfg { cfg with children := cfg.children.set role (roleGroup d) } where
  laidOut :=
    { hosts := h.hosts
      keys := by
        rw [keys_set, addKey_of_mem, h.keys]
        rw [h.keys]
        exact mem_childRoles.mpr (Or.inl hrole)
      role := by
        intro other hother
        by_cases heq : other = role
        · subst heq
          exact ⟨d, get?_set_self _ _ _, hd⟩
        · dsimp only
          rw [get?_set_of_ne _ _ heq]
          exact h.role other hother }
  hosts := rfl
  cluster := get?_set_of_ne _ _ (ne_k8sCluster_of_mem hrole).symm

/-- The purge of one role succeeds. -/
theorem purgeRole_ok (keep : Text → Bool) {role : Text} (hrole : role ∈ childRoles) :
    ∃ cfg', purgeRole keep cfg role = .ok cfg' ∧ RolesOnly cfg cfg' := by
  rw [purgeRole]
  by_cases hk8s : role = k8sCluster
  · rw [if_pos hk8s]
    exact ⟨cfg, rfl, h.rolesOnly⟩
  · have hhost : role ∈ hostRoles := (mem_childRoles.mp hrole).resolve_right hk8s
    obtain ⟨d, hget, hd⟩ := h.role role hhost
    rw [if_neg hk8s, hget]
    exact ⟨_, rfl, h.rolesOnly_set hhost (hd.retain keep)⟩

/-- Adding a member to a role group succeeds. -/
theorem addHostToGroup_ok {role : Text} (hrole : role ∈ hostRoles) (host : Text) :
    ∃ cfg', addHostToGroup cfg role host .null = .ok cfg' ∧ RolesOnly cfg cfg' := by
  obtain ⟨d, hget, hd⟩ := h.role role hrole
  have hall : role ≠ "all".toList := by
    rintro rfl
    exact absurd hrole (by decide)
  have hchildren : role ≠ "k8s_cluster:children".toList := by
    rintro rfl
    exact absurd hrole (by decide)
  refine ⟨_, ?_, h.rolesOnly_set hrole (hd.set host)⟩
  rw [addHostToGroup, if_neg hall, if_pos hchildren, hget]
  rfl

/-- A scale rule can be decided. -/
theorem scaleRule_ok (threshold : ℤ) {role : Text} (hrole : role ∈ hostRoles) (host : Text) :
    ∃ b, scaleRule threshold role cfg host = .ok b := by
  obtain ⟨d, hd⟩ := h.hosts
  obtain ⟨members, hget, -⟩ := h.role role hrole
  have hin : inGroup cfg role host = .ok (decide (host ∈ members.keys)) := by
    rw [inGroup, hget]
    rfl
  have hcount : hostCount cfg = .ok d.keys.length := by rw [hostCount, hd]
  by_cases hle : threshold ≤ (d.keys.length : ℤ)
  · refine ⟨decide (host ∈ members.keys), bind_eq_ok_iff.mpr ⟨_, hcount, ?_⟩⟩
    rw [if_pos hle, hin]
  · refine ⟨false, bind_eq_ok_iff.mpr ⟨_, hcount, ?_⟩⟩
    rw [if_neg hle]
    rfl

/-- One round of `set_kube_node` succeeds. -/
theorem setKubeNodeHost_ok (env : Env) (host : Text) :
    ∃ cfg', setKubeNodeHost env cfg host = .ok cfg' ∧ RolesOnly cfg cfg' := by
  obtain ⟨byEtcd, hetcd⟩ :=
    h.scaleRule_ok env.scaleThreshold (show etcd ∈ hostRoles by decide) host
  cases byEtcd with
  | true => exact ⟨cfg, bind_eq_ok_iff.mpr ⟨true, hetcd, rfl⟩, h.rolesOnly⟩
  | false =>
      obtain ⟨byControl, hcontrol⟩ :=
        h.scaleRule_ok env.massiveScaleThreshold (show kubeControlPlane ∈ hostRoles by decide) host
      cases byControl with
      | true =>
          exact ⟨cfg, bind_eq_ok_iff.mpr ⟨false, hetcd,
            bind_eq_ok_iff.mpr ⟨true, hcontrol, rfl⟩⟩, h.rolesOnly⟩
      | false =>
          obtain ⟨cfg', hadd, hroles⟩ :=
            h.addHostToGroup_ok (show kubeNode ∈ hostRoles by decide) host
          exact ⟨cfg', bind_eq_ok_iff.mpr ⟨false, hetcd,
            bind_eq_ok_iff.mpr ⟨false, hcontrol, hadd⟩⟩, hroles⟩

/-- In a laid-out configuration the only key of a role group is `hosts`. -/
theorem isGroupKey_ok {role : Text} (hrole : role ∈ hostRoles) (host : Text) :
    isGroupKey cfg role host = .ok (decide (host ∈ ["hosts".toList])) := by
  obtain ⟨d, hget, -⟩ := h.role role hrole
  rw [isGroupKey, hget]
  rfl

/-- One round of `set_calico_rr` succeeds. -/
theorem setCalicoRrHost_ok (host : Text) :
    ∃ cfg', setCalicoRrHost cfg host = .ok cfg' ∧ RolesOnly cfg cfg' := by
  have hcontrol := h.isGroupKey_ok (show kubeControlPlane ∈ hostRoles by decide) host
  have hnode := h.isGroupKey_ok (show kubeNode ∈ hostRoles by decide) host
  cases hkey : decide (host ∈ ["hosts".toList]) with
  | true =>
      rw [hkey] at hcontrol
      exact ⟨cfg, bind_eq_ok_iff.mpr ⟨true, hcontrol, rfl⟩, h.rolesOnly⟩
  | false =>
      rw [hkey] at hcontrol hnode
      obtain ⟨cfg', hadd, hroles⟩ :=
        h.addHostToGroup_ok (show calicoRr ∈ hostRoles by decide) host
      exact ⟨cfg', bind_eq_ok_iff.mpr ⟨false, hcontrol,
        bind_eq_ok_iff.mpr ⟨false, hnode, hadd⟩⟩, hroles⟩

end LaidOut

/-- Differing in role groups only is transitive. -/
theorem RolesOnly.trans {a b c : Config} (h₁ : RolesOnly a b) (h₂ : RolesOnly b c) :
    RolesOnly a c :=
  ⟨h₂.laidOut, h₂.hosts.trans h₁.hosts, h₂.cluster.trans h₁.cluster⟩

/-- A loop whose rounds succeed and change role groups only. -/
theorem RolesOnly.loop {γ : Type} {f : Config → γ → Except Abort Config} {xs : List γ}
    (hstep : ∀ cfg x, x ∈ xs → LaidOut cfg → ∃ cfg', f cfg x = .ok cfg' ∧ RolesOnly cfg cfg')
    {cfg : Config} (h : LaidOut cfg) :
    ∃ cfg', xs.foldlM f cfg = .ok cfg' ∧ RolesOnly cfg cfg' := by
  refine foldlM_succeeds (I := RolesOnly cfg) (fun c x hx hc => ?_) h.rolesOnly
  obtain ⟨c', hok, hroles⟩ := hstep c x hx hc.laidOut
  exact ⟨c', hok, hc.trans hroles⟩

/-! ### The steps of a run -/

/-- The configuration that `ensure_required_groups` makes of `{}`. -/
theorem ensureRequiredGroups_missing :
    ∃ cfg, ensureRequiredGroups roles .missing = .ok cfg ∧ LaidOut cfg ∧
      cfg.hosts = .is OrderedDict.empty := by
  refine ⟨_, rfl, ⟨⟨_, rfl⟩, rfl, fun role hrole => ⟨OrderedDict.empty, ?_, ?_⟩⟩, rfl⟩
  · simp only [hostRoles, List.mem_cons, List.not_mem_nil, or_false] at hrole
    rcases hrole with rfl | rfl | rfl | rfl <;> rfl
  · intro k v hv
    cases hv

/-- A laid-out document has the required groups already. -/
theorem LaidOut.ensureRequiredGroups {cfg : Config} (h : LaidOut cfg) :
    ensureRequiredGroups roles cfg.toDocument = .ok cfg := by
  have hgroup : ∀ group ∈ roles, ensureGroup cfg.toDocument group = .ok cfg.toDocument := by
    intro group hgroup
    unfold ensureGroup
    by_cases hall : group = "all".toList
    · rw [if_pos hall]
      rfl
    · have hmem : group ∈ cfg.children.keys := by
        rw [h.keys]
        exact (List.mem_cons.mp hgroup).resolve_left hall
      rw [if_neg hall]
      simp only [Config.toDocument, if_pos hmem]
  have hloop : ∀ gs : List Text, (∀ g ∈ gs, g ∈ roles) →
      gs.foldlM ensureGroup cfg.toDocument = .ok cfg.toDocument := by
    intro gs
    induction gs with
    | nil => exact fun _ => rfl
    | cons g gs ih =>
        intro hgs
        rw [List.foldlM_cons, hgroup g (hgs g List.mem_cons_self)]
        exact ih fun g' hg' => hgs g' (List.mem_cons_of_mem g hg')
  rw [Inventory.ensureRequiredGroups, hloop roles fun g hg => hg]
  rfl

/-- `set_all` copies the host map over the hosts of `all`. -/
theorem setAll_eq (hosts : OrderedDict Text Value) {cfg : Config} {d : OrderedDict Text Value}
    (hd : cfg.hosts = .is d) :
    setAll hosts cfg = .ok { cfg with hosts := .is (d.overlay hosts) } := by
  rw [setAll, overlay]
  generalize hosts.entries = entries
  induction entries generalizing cfg d with
  | nil =>
      rw [List.foldl_nil, ← hd]
      rfl
  | cons e entries ih =>
      have hadd : addHostToGroup cfg "all".toList e.1 e.2
          = .ok { cfg with hosts := .is (d.set e.1 e.2) } := by
        rw [addHostToGroup, if_pos rfl, hd]
        rfl
      rw [List.foldlM_cons, hadd]
      exact ih rfl

/-- The purge succeeds on a laid-out configuration. -/
theorem LaidOut.purgeInvalidHosts_ok {cfg : Config} (h : LaidOut cfg)
    {d : OrderedDict Text Value} (hd : cfg.hosts = .is d) (hostnames : List Text) :
    ∃ cfg', purgeInvalidHosts hostnames protectedNames cfg = .ok cfg' ∧ LaidOut cfg' ∧
      cfg'.hosts = .is (d.retain (kept hostnames)) := by
  obtain ⟨c, hloop, hroles⟩ :=
    @RolesOnly.loop _ (purgeRole (kept hostnames)) cfg.children.keys
      (fun c role hrole hc => hc.purgeRole_ok (kept hostnames) (h.keys ▸ hrole)) _ h
  have hhosts : c.hosts = .is d := hroles.hosts.trans hd
  refine ⟨{ c with hosts := .is (d.retain (kept hostnames)) }, ?_,
    ⟨⟨_, rfl⟩, hroles.laidOut.keys, hroles.laidOut.role⟩, rfl⟩
  refine bind_eq_ok_iff.mpr ⟨c, hloop, ?_⟩
  rw [hhosts]
  rfl

/-- `set_k8s_cluster` makes a laid-out configuration canonical. -/
theorem LaidOut.setK8sCluster {cfg : Config} (h : LaidOut cfg) :
    Canonical (setK8sCluster cfg) where
  hosts := h.hosts
  keys := by
    rw [Inventory.setK8sCluster, keys_set, addKey_of_mem, h.keys]
    rw [h.keys]
    decide
  role role hrole := by
    rw [Inventory.setK8sCluster, get?_set_of_ne _ _ (ne_k8sCluster_of_mem hrole)]
    exact h.role role hrole
  cluster := get?_set_self _ _ _

/-- Changing role groups keeps a configuration canonical. -/
theorem RolesOnly.canonical {cfg cfg' : Config} (h : RolesOnly cfg cfg') (hc : Canonical cfg) :
    Canonical cfg' :=
  { h.laidOut with cluster := h.cluster.trans hc.cluster }

/-- The hosts that `set_calico_rr` finds to be in conflict when the groups are laid out:
those that are called like the key under which the members stand. -/
def calledHosts (host : Text) : Bool :=
  decide (host ∈ ["hosts".toList])

/-- The conflict test of a laid-out configuration looks at the name alone. -/
theorem LaidOut.calicoConflict_eq {cfg : Config} (h : LaidOut cfg) :
    calicoConflict cfg = calledHosts := by
  obtain ⟨control, hcontrol, -⟩ := h.role kubeControlPlane (by decide)
  obtain ⟨node, hnode, -⟩ := h.role kubeNode (by decide)
  funext host
  rw [calicoConflict, hcontrol, hnode]
  exact Bool.or_self _

/-- **The steps of a run succeed on a laid-out configuration**, and leave a canonical one:
its hosts are the host map over what the purge kept, and its groups are the placement. -/
theorem placeHosts_canonical (env : Env) (hosts : OrderedDict Text Value) {cfg : Config}
    (h : LaidOut cfg) {d : OrderedDict Text Value} (hd : cfg.hosts = .is d) :
    ∃ cfg', placeHosts env hosts cfg = .ok cfg' ∧ Canonical cfg' ∧
      cfg'.hosts = .is ((d.retain (kept hosts.keys)).overlay hosts) ∧
      cfg'.assignment = place env calledHosts hosts.keys cfg.assignment := by
  obtain ⟨c₁, h₁, hlaid₁, hhosts₁⟩ := h.purgeInvalidHosts_ok hd hosts.keys
  have h₂ := setAll_eq hosts hhosts₁
  set c₂ : Config := { c₁ with hosts := .is ((d.retain (kept hosts.keys)).overlay hosts) }
  have hlaid₂ : LaidOut c₂ := ⟨⟨_, rfl⟩, hlaid₁.keys, hlaid₁.role⟩
  have hcanonical := hlaid₂.setK8sCluster
  obtain ⟨c₄, h₄, hroles₄⟩ :=
    @RolesOnly.loop _ _ (hosts.keys.take (etcdHostsCount hosts.keys))
      (fun c host _ hc => hc.addHostToGroup_ok (show etcd ∈ hostRoles by decide) host) _
      hcanonical.toLaidOut
  obtain ⟨c₅, h₅, hroles₅⟩ :=
    @RolesOnly.loop _ _ (controlPlaneHosts env hosts.keys)
      (fun c host _ hc => hc.addHostToGroup_ok (show kubeControlPlane ∈ hostRoles by decide) host)
      _ hroles₄.laidOut
  obtain ⟨c₆, h₆, hroles₆⟩ :=
    @RolesOnly.loop _ _ hosts.keys (fun c host _ hc => hc.setKubeNodeHost_ok env host) _
      hroles₅.laidOut
  have hlast : ∃ c₇, placeCalicoRr env hosts.keys c₆ = .ok c₇ ∧ RolesOnly c₆ c₇ := by
    rw [placeCalicoRr]
    split_ifs
    · exact RolesOnly.loop (fun c host _ hc => hc.setCalicoRrHost_ok host) hroles₆.laidOut
    · exact ⟨c₆, rfl, hroles₆.laidOut.rolesOnly⟩
  obtain ⟨c₇, h₇, hroles₇⟩ := hlast
  have hroles : RolesOnly (setK8sCluster c₂) c₇ :=
    hroles₄.trans (hroles₅.trans (hroles₆.trans hroles₇))
  refine ⟨c₇, ?_, hroles.canonical hcanonical, hroles.hosts, ?_⟩
  · exact bind_eq_ok_iff.mpr ⟨c₁, h₁, bind_eq_ok_iff.mpr ⟨c₂, h₂, bind_eq_ok_iff.mpr ⟨c₄, h₄,
      bind_eq_ok_iff.mpr ⟨c₅, h₅, bind_eq_ok_iff.mpr ⟨c₆, h₆, h₇⟩⟩⟩⟩⟩
  · rw [assignment_of_steps h₁ h₂ h₄ h₅ h₆ h₇, hroles₆.laidOut.calicoConflict_eq]

/-! ### Written documents -/

/-- A role group of a canonical configuration is determined by its members. -/
theorem roleGroup_eq {d e : OrderedDict Text Value} (hd : NullValued d) (he : NullValued e)
    (h : d.keys = e.keys) : roleGroup d = roleGroup e := by
  rw [ext_of_get? h]
  intro k hk
  obtain ⟨v, hv⟩ := mem_keys_iff.mp hk
  obtain ⟨w, hw⟩ := mem_keys_iff.mp (h ▸ hk)
  rw [hv, hw, hd k v hv, he k w hw]

/-- **The hosts and the members of the role groups determine a canonical configuration.** -/
theorem Canonical.ext {a b : Config} (ha : Canonical a) (hb : Canonical b)
    (hhosts : a.hosts = b.hosts) (hroles : ∀ role ∈ hostRoles, a.members role = b.members role) :
    a = b := by
  have hchildren : a.children = b.children := by
    refine ext_of_get? (ha.keys.trans hb.keys.symm) fun role hrole => ?_
    rw [ha.keys, mem_childRoles] at hrole
    rcases hrole with hhost | rfl
    · obtain ⟨d, hd, hnull⟩ := ha.role role hhost
      obtain ⟨e, he, hnull'⟩ := hb.role role hhost
      have hmembers := hroles role hhost
      simp only [Config.members, hd, he] at hmembers
      rw [hd, he, roleGroup_eq hnull hnull' hmembers]
    · rw [ha.cluster, hb.cluster]
  obtain ⟨hosts, children⟩ := a
  obtain ⟨hosts', children'⟩ := b
  dsimp only at hhosts hchildren
  rw [hhosts, hchildren]

/-- The hosts of a configuration, read off its document. -/
theorem storedHosts_toDocument {cfg : Config} {d : OrderedDict Text Value}
    (h : cfg.hosts = .is d) : storedHosts cfg.toDocument = d := by
  simp only [Config.toDocument, storedHosts, h]

/-- The stored hosts determine the hosts of a canonical configuration. -/
theorem Canonical.ext_stored {a b : Config} (ha : Canonical a) (hb : Canonical b)
    (hhosts : storedHosts a.toDocument = storedHosts b.toDocument)
    (hroles : ∀ role ∈ hostRoles, a.members role = b.members role) : a = b := by
  refine ha.ext hb ?_ hroles
  obtain ⟨d, hd⟩ := ha.hosts
  obtain ⟨e, he⟩ := hb.hosts
  rw [storedHosts_toDocument hd, storedHosts_toDocument he] at hhosts
  rw [hd, he, hhosts]

/-- A document that the builder wrote. -/
def Written (doc : Document) : Prop :=
  ∃ cfg, Canonical cfg ∧ doc = cfg.toDocument

/-- The inventory file is absent, or the builder wrote it. -/
def WrittenDisk (disk : Disk) : Prop :=
  ∀ doc ∈ disk, Written doc

/-- A file that the builder wrote. -/
theorem writtenDisk_some {doc : Document} (h : Written doc) : WrittenDisk (some doc) := by
  intro doc' hdoc
  cases hdoc
  exact h

/-- The required groups can be created in such a document, and are then laid out. -/
theorem ensureRequiredGroups_ok {doc : Document} (h : doc = .missing ∨ Written doc) :
    ∃ cfg, ensureRequiredGroups roles doc = .ok cfg ∧ LaidOut cfg ∧
      cfg.hosts = .is (storedHosts doc) := by
  rcases h with rfl | ⟨cfg, hcfg, rfl⟩
  · exact ensureRequiredGroups_missing
  · obtain ⟨d, hd⟩ := hcfg.hosts
    refine ⟨cfg, hcfg.toLaidOut.ensureRequiredGroups, hcfg.toLaidOut, ?_⟩
    rw [storedHosts_toDocument hd, hd]

/-- The hosts from which a walk over the arguments starts. -/
theorem existingHosts_cases {env : Env} {cfg : Config} {load : Bool}
    {d hosts : OrderedDict Text Value} {highest : ℕ} (hd : cfg.hosts = .is d)
    (h : existingHosts env cfg load = .ok (hosts, highest)) :
    (load = true ∧ hosts = d ∧ highestHostId env d.keys = .ok highest) ∨
      (load = false ∧ hosts = OrderedDict.empty ∧ highest = 0) := by
  cases load with
  | false =>
      cases h
      exact Or.inr ⟨rfl, rfl, rfl⟩
  | true =>
      obtain ⟨hcfg, hid⟩ := existingHosts_eq_ok h
      rw [hd] at hcfg
      cases hcfg
      exact Or.inl ⟨rfl, rfl, hid⟩

namespace Run

/-- The hosts with their options that a run starts from. -/
def carriedHosts (r : Run) (disk : Disk) : OrderedDict Text Value :=
  match r.base disk with
  | .ok doc => storedHosts doc
  | .error _ => OrderedDict.empty

variable {r : Run} {disk : Disk} {doc : Document} {hosts : OrderedDict Text Value}

/-- A run starts from the hosts of the file on disk, or from none. -/
theorem carriedHosts_cases (r : Run) (disk : Disk) :
    r.carriedHosts disk = OrderedDict.empty ∨
      ∃ doc, disk = some doc ∧ r.carriedHosts disk = storedHosts doc := by
  rw [carriedHosts]
  cases hbase : r.base disk with
  | error e => exact Or.inl rfl
  | ok doc =>
      rcases base_cases hbase with rfl | hdisk
      · exact Or.inl rfl
      · exact Or.inr ⟨doc, hdisk, rfl⟩

/-- The host map of a run, once the parts before it are known. -/
theorem hostMap_of_parts {removal : Bool} {cfg : Config} {expanded : List Text}
    (hremoval : removalFirst r.changedHosts = .ok removal) (hbase : r.base disk = .ok doc)
    (hcfg : ensureRequiredGroups roles doc = .ok cfg)
    (hexpanded : range2ips r.env r.changedHosts = .ok expanded) :
    r.hostMap disk = buildHostnames r.env cfg expanded (r.add || removal) := by
  rw [hostMap, hremoval, ok_bind, hbase, ok_bind, hcfg, ok_bind, hexpanded, ok_bind]

/-- **A host map is the result of a walk** over the expanded arguments, which starts from
the hosts carried over. -/
theorem hostMap_walk (hdisk : WrittenDisk disk) (h : r.hostMap disk = .ok hosts) :
    ∃ expanded highest w, range2ips r.env r.changedHosts = .ok expanded ∧
      expanded.foldlM (stepHost r.env) (Walk.start (r.carriedHosts disk) highest) = .ok w ∧
      w.allHosts = hosts := by
  obtain ⟨removal, hremoval, h⟩ := ok_of_bind h
  obtain ⟨doc, hbase, h⟩ := ok_of_bind h
  obtain ⟨cfg, hcfg, h⟩ := ok_of_bind h
  obtain ⟨expanded, hexpanded, h⟩ := ok_of_bind h
  obtain ⟨⟨start, highest⟩, hstart, h⟩ := ok_of_bind h
  obtain ⟨w, hwalk, hw⟩ := ok_of_bind h
  have hload : loadedDocument r.env disk (r.add || removal) = .ok doc := by
    rw [base, hremoval] at hbase
    exact hbase
  obtain ⟨cfg₀, hcfg₀, -, hd⟩ :=
    ensureRequiredGroups_ok ((loadedDocument_cases hload).imp_right (hdisk doc))
  obtain rfl : cfg₀ = cfg := Except.ok.inj (hcfg₀.symm.trans hcfg)
  have hsame : start = r.carriedHosts disk := by
    rw [carriedHosts, hbase]
    rcases existingHosts_cases hd hstart with ⟨-, rfl, -⟩ | ⟨hno, rfl, -⟩
    · rfl
    · rw [hno] at hload
      unfold loadedDocument at hload
      rw [if_neg (fun hboth => Bool.false_ne_true hboth.2)] at hload
      cases hload
      rfl
  rw [hsame] at hwalk
  exact ⟨expanded, highest, w, hexpanded, hwalk, Except.ok.inj hw⟩

/-- **A run that works out its host map writes.** It needs arguments and a file name. -/
theorem writes_of_hostMap (hdisk : WrittenDisk disk) (hrun : isHostRun r.argv = true)
    (hfile : r.env.configFile = true) (hargs : r.changedHosts ≠ [])
    (hmap : r.hostMap disk = .ok hosts) :
    ∃ cfg, r.writes disk = some cfg.toDocument ∧ Canonical cfg ∧
      cfg.hosts = .is (((r.carriedHosts disk).retain (kept hosts.keys)).overlay hosts) ∧
      cfg.assignment = place r.env calledHosts hosts.keys (r.carried disk) := by
  obtain ⟨removal, hremoval, h⟩ := ok_of_bind hmap
  obtain ⟨doc, hbase, h⟩ := ok_of_bind h
  obtain ⟨cfg, hcfg, h⟩ := ok_of_bind h
  obtain ⟨expanded, hexpanded, hhosts⟩ := ok_of_bind h
  have hload : loadedDocument r.env disk (r.add || removal) = .ok doc := by
    rw [base, hremoval] at hbase
    exact hbase
  obtain ⟨cfg₀, hcfg₀, hlaid, hd⟩ :=
    ensureRequiredGroups_ok ((loadedDocument_cases hload).imp_right (hdisk doc))
  obtain rfl : cfg₀ = cfg := Except.ok.inj (hcfg₀.symm.trans hcfg)
  obtain ⟨cfg', hplace, hcanonical, hhosts', hassign⟩ :=
    placeHosts_canonical r.env hosts hlaid hd
  have hhostRun : hostRun r.env disk r.add r.changedHosts = .ok (some cfg') := by
    refine bind_eq_ok_iff.mpr ⟨removal, hremoval, bind_eq_ok_iff.mpr ⟨doc, hload,
      bind_eq_ok_iff.mpr ⟨cfg₀, hcfg, ?_⟩⟩⟩
    rw [if_neg hargs]
    exact bind_eq_ok_iff.mpr ⟨expanded, hexpanded, bind_eq_ok_iff.mpr ⟨hosts, hhosts,
      bind_eq_ok_iff.mpr ⟨cfg', hplace, rfl⟩⟩⟩
  refine ⟨cfg', ?_, hcanonical, ?_, ?_⟩
  · exact writes_of_hostRun hrun hfile hhostRun
  · rw [carriedHosts, hbase]
    exact hhosts'
  · rw [carried, hbase, hassign, ensureRequiredGroups_assignment hcfg]

/-- A run that writes has arguments. -/
theorem changedHosts_ne_nil (hrun : isHostRun r.argv = true) (h : doc ∈ r.writes disk) :
    r.changedHosts ≠ [] := by
  intro hnil
  obtain ⟨cfg, hres, -, -⟩ := hostRun_of_writes hrun h
  obtain ⟨removal, -, hres⟩ := ok_of_bind hres
  obtain ⟨base, -, hres⟩ := ok_of_bind hres
  obtain ⟨cfg₀, -, hres⟩ := ok_of_bind hres
  rw [if_pos hnil] at hres
  cases hres

end Run

variable {r : Run} {disk disk' : Disk} {doc : Document}

/-- **What a run of a history writes**: a canonical document whose hosts and groups are
known. -/
theorem writes_canonical (hdisk : WrittenDisk disk) (hrun : isHostRun r.argv = true)
    (h : doc ∈ r.writes disk) :
    ∃ hosts cfg, r.hostMap disk = .ok hosts ∧ Canonical cfg ∧ doc = cfg.toDocument ∧
      cfg.hosts = .is (((r.carriedHosts disk).retain (kept hosts.keys)).overlay hosts) ∧
      cfg.assignment = place r.env calledHosts hosts.keys (r.carried disk) := by
  obtain ⟨-, -, hfile⟩ := (hostRun_of_writes hrun h).choose_spec
  obtain ⟨-, -, -, -, hosts, -, -, -, -, -, -, -, hmap, -⟩ := hostMap_of_writes hrun h
  obtain ⟨cfg, hwrites, hcanonical, hhosts, hassign⟩ :=
    Run.writes_of_hostMap hdisk hrun hfile (Run.changedHosts_ne_nil hrun h) hmap
  rw [hwrites] at h
  exact ⟨hosts, cfg, hmap, hcanonical, (Option.some.inj h).symm, hhosts, hassign⟩

/-- A run that only adds to the hosts it starts from writes its host map as it is. -/
theorem storedHosts_of_writes (hdisk : WrittenDisk disk) (hrun : isHostRun r.argv = true)
    (h : doc ∈ r.writes disk) {hosts : OrderedDict Text Value}
    (hmap : r.hostMap disk = .ok hosts) (hadd : (r.carriedHosts disk).keys <+: hosts.keys) :
    storedHosts doc = hosts := by
  obtain ⟨hosts', cfg, hmap', -, rfl, hhosts, -⟩ := writes_canonical hdisk hrun h
  obtain rfl : hosts' = hosts := Except.ok.inj (hmap'.symm.trans hmap)
  rw [storedHosts_toDocument hhosts, retain_eq_self, overlay_eq_right hadd]
  intro k hk
  exact decide_eq_true (Or.inl (hadd.subset hk))

/-- A run that only adds to the hosts it starts from writes its host map and the placement
of its hosts. -/
theorem writes_of_adding (hdisk : WrittenDisk disk) (hrun : isHostRun r.argv = true)
    (hfile : r.env.configFile = true) (hargs : r.changedHosts ≠ [])
    {hosts : OrderedDict Text Value} (hmap : r.hostMap disk = .ok hosts)
    (hadd : (r.carriedHosts disk).keys <+: hosts.keys) :
    ∃ cfg, r.writes disk = some cfg.toDocument ∧ Canonical cfg ∧
      storedHosts cfg.toDocument = hosts ∧
      cfg.assignment = place r.env calledHosts hosts.keys (r.carried disk) := by
  obtain ⟨cfg, hwrites, hcfg, -, hassign⟩ :=
    Run.writes_of_hostMap hdisk hrun hfile hargs hmap
  exact ⟨cfg, hwrites, hcfg, storedHosts_of_writes hdisk hrun hwrites hmap hadd, hassign⟩

/-- Histories leave files that the builder wrote. -/
theorem writtenDisk_step (r : Run) (disk : Disk) (doc : Document) (hdisk : WrittenDisk disk)
    (hrun : isHostRun r.argv = true) (h : doc ∈ r.writes disk) : WrittenDisk (some doc) := by
  obtain ⟨-, cfg, -, hcanonical, rfl, -⟩ := writes_canonical hdisk hrun h
  exact writtenDisk_some ⟨cfg, hcanonical, rfl⟩

end Kubespray.Inventory
