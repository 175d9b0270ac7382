import Kubespray.Inventory.Failures
import Kubespray.Inventory.Layout

/-!
# Loading a JSON File

`load` takes a mapping from group names to hosts and adds each host twice, to `all` with
its options and to its group without. Three group names are special to the functions that
it calls. Under `all` the second addition replaces the options by the empty string;
`k8s_cluster` has lost its `hosts` by then; and what `k8s_cluster:children` lists is left
out.

## Main results

* `loadHost_spec`, `loadGroup_spec`: what one host and one group of the file do.
* `loadGroups_spec`: the last group that lists a host decides about its options.
* `loadsFaithfully_iff`: when the written inventory says what the file says.
-/

namespace Kubespray.Inventory

open OrderedDict Fallible

/-! ### The data of a file -/

/-- A mapping from group names to hosts with options. -/
abbrev LoadData := List (Text × List (Text × Value))

/-- The mapping as a JSON value. -/
def LoadData.value (groups : LoadData) : Value :=
  .obj (groups.map fun g => (g.1, .obj g.2))

/-- Every host has an address, the same in every group that lists it. -/
def LoadData.HasIps (groups : LoadData) (ip : Text → Value) : Prop :=
  ∀ g ∈ groups, ∀ e ∈ g.2, e.2.ipField = .ok (ip e.1)

/-- The last group of the file that lists a host. -/
def LoadData.lastLister (groups : LoadData) (h : Text) : Option Text :=
  ((groups.filter fun g => h ∈ g.2.map Prod.fst).getLast?).map Prod.fst

/-- The group under which old inventories list the children of `k8s_cluster`. -/
def clusterChildren : Text := "k8s_cluster:children".toList

/-- The options that a host has once a group has listed it. -/
def finalOpts (group : Text) (ip : Value) : Value :=
  if group = "all".toList then .str [] else loadedOpts ip

/-- The first group counts if no later one lists the host. -/
theorem LoadData.lastLister_cons (g : Text × List (Text × Value)) (gs : LoadData) (h : Text) :
    LoadData.lastLister (g :: gs) h
      = (LoadData.lastLister gs h).or (if h ∈ g.2.map Prod.fst then some g.1 else none) := by
  rw [LoadData.lastLister, ← List.singleton_append, List.filter_append, List.getLast?_append,
    Option.map_or]
  congr 1
  split_ifs with hmem
  · rw [List.filter_cons_of_pos (by simpa using hmem)]
    rfl
  · rw [List.filter_cons_of_neg (by simpa using hmem)]
    rfl

/-- A listed host has a last group that lists it. -/
theorem LoadData.exists_lastLister {groups : LoadData} {g : Text × List (Text × Value)}
    {h : Text} (hg : g ∈ groups) (hmem : h ∈ g.2.map Prod.fst) :
    ∃ name, LoadData.lastLister groups h = some name := by
  have hne : (groups.filter fun g => decide (h ∈ g.2.map Prod.fst)) ≠ [] :=
    List.ne_nil_of_mem (List.mem_filter.mpr ⟨hg, decide_eq_true hmem⟩)
  obtain ⟨last, hlast⟩ := List.getLast?_isSome.mpr hne |> Option.isSome_iff_exists.mp
  exact ⟨last.1, by rw [LoadData.lastLister, hlast, Option.map_some]⟩

/-- The last group that lists a host is one of the file. -/
theorem LoadData.mem_of_lastLister {groups : LoadData} {h name : Text}
    (hlast : LoadData.lastLister groups h = some name) :
    ∃ g ∈ groups, g.1 = name ∧ h ∈ g.2.map Prod.fst := by
  obtain ⟨g, hg, rfl⟩ := Option.map_eq_some_iff.mp hlast
  obtain ⟨hmem, hlists⟩ := List.mem_filter.mp (List.mem_of_getLast? hg)
  exact ⟨g, hmem, rfl, of_decide_eq_true hlists⟩

/-! ### One host -/

/-- What a configuration is like while a file is loaded: there is a host map, every group
has members but `k8s_cluster`, which has no key `hosts`. -/
structure Loading (cfg : Config) : Prop where
  hosts : ∃ d, cfg.hosts = .is d
  cluster : ∃ g, cfg.children.get? k8sCluster = some g ∧ g.hosts = .missing
  groups : ∀ name g, cfg.children.get? name = some g → name ≠ k8sCluster →
    ∃ d, g.hosts = .is d

/-- The options of a host in a configuration. -/
def Config.optsOf (cfg : Config) (h : Text) : Option Value :=
  (storedHosts cfg.toDocument).get? h

/-- The options in a configuration with a host map. -/
theorem Config.optsOf_eq {cfg : Config} {d : OrderedDict Text Value} (hd : cfg.hosts = .is d)
    (h : Text) : cfg.optsOf h = d.get? h := by
  simp only [Config.optsOf, Config.toDocument, storedHosts, hd]

/-- What some hosts, listed by a group, do to a configuration. -/
structure Lists (group : Text) (ip : Text → Value) (hs : List Text) (cfg cfg' : Config) :
    Prop where
  loading : Loading cfg'
  keys : cfg'.children.keys = cfg.children.keys
  opts : ∀ h, cfg'.optsOf h = if h ∈ hs then some (finalOpts group (ip h)) else cfg.optsOf h
  members : ∀ role h, h ∈ cfg'.members role ↔
    h ∈ cfg.members role ∨
      (role = group ∧ group ≠ "all".toList ∧ group ≠ clusterChildren ∧ h ∈ hs)

/-- An addition to `all`. -/
theorem addHostToGroup_all {cfg : Config} {d : OrderedDict Text Value} (hd : cfg.hosts = .is d)
    (host : Text) (opts : Value) :
    addHostToGroup cfg "all".toList host opts
      = .ok { cfg with hosts := .is (d.set host opts) } := by
  rw [addHostToGroup, if_pos rfl, hd]
  rfl

/-- An addition to `k8s_cluster:children` is left out. -/
theorem addHostToGroup_clusterChildren (cfg : Config) (host : Text) (opts : Value) :
    addHostToGroup cfg clusterChildren host opts = .ok cfg := by
  have helse : ¬ clusterChildren ≠ "k8s_cluster:children".toList := not_not_intro rfl
  rw [addHostToGroup, if_neg (by decide), if_neg helse]

/-- An addition to a group with members. -/
theorem addHostToGroup_members {cfg : Config} {group : Text} {g : Group}
    {m : OrderedDict Text Value} (hall : group ≠ "all".toList) (hchildren : group ≠ clusterChildren)
    (hg : cfg.children.get? group = some g) (hm : g.hosts = .is m) (host : Text) (opts : Value) :
    addHostToGroup cfg group host opts
      = .ok { cfg with
          children := cfg.children.set group { g with hosts := .is (m.set host .null) } } := by
  have hthen : group ≠ "k8s_cluster:children".toList := hchildren
  rw [addHostToGroup, if_neg hall, if_pos hthen, hg]
  dsimp only
  rw [hm]
  rfl

/-- An addition to a group without the key `hosts`. -/
theorem addHostToGroup_missing {cfg : Config} {group : Text} {g : Group}
    (hall : group ≠ "all".toList) (hchildren : group ≠ clusterChildren)
    (hg : cfg.children.get? group = some g) (hm : g.hosts = .missing) (host : Text)
    (opts : Value) : addHostToGroup cfg group host opts = .error .keyError := by
  have hthen : group ≠ "k8s_cluster:children".toList := hchildren
  rw [addHostToGroup, if_neg hall, if_pos hthen, hg]
  dsimp only
  rw [hm]
  rfl

/-- The options after an addition to `all`. -/
theorem optsOf_set (cfg : Config) (d : OrderedDict Text Value) (host : Text) (opts : Value)
    (h : Text) :
    Config.optsOf { cfg with hosts := .is (d.set host opts) } h
      = if h ∈ [host] then some opts else d.get? h := by
  rw [Config.optsOf_eq rfl, get?_set]
  exact if_congr List.mem_singleton.symm rfl rfl

/-- **One host of a group** other than `k8s_cluster`. -/
theorem loadHost_spec {cfg : Config} {group : Text} {ip : Text → Value} {e : Text × Value}
    (hcfg : Loading cfg) (hne : group ≠ k8sCluster)
    (hgroup : group = "all".toList ∨ group ∈ cfg.children.keys)
    (hip : e.2.ipField = .ok (ip e.1)) :
    ∃ cfg', loadHost group cfg e = .ok cfg' ∧ Lists group ip [e.1] cfg cfg' := by
  obtain ⟨d, hd⟩ := hcfg.hosts
  rw [loadHost, hip, ok_bind, addHostToGroup_all hd, ok_bind]
  have hopts : ∀ h, Config.optsOf { cfg with hosts := .is (d.set e.1 (loadedOpts (ip e.1))) } h
      = if h ∈ [e.1] then some (loadedOpts (ip h)) else cfg.optsOf h := by
    intro h
    rw [optsOf_set, Config.optsOf_eq hd]
    by_cases hmem : h ∈ [e.1]
    · rw [if_pos hmem, if_pos hmem, List.mem_singleton.mp hmem]
    · rw [if_neg hmem, if_neg hmem]
  by_cases hall : group = "all".toList
  · subst hall
    refine ⟨_, addHostToGroup_all rfl _ _, ⟨⟨⟨_, rfl⟩, hcfg.cluster, hcfg.groups⟩, rfl,
      fun h => ?_, fun role h => ⟨Or.inl, fun h => h.elim id fun h => absurd rfl h.2.1⟩⟩⟩
    have hafter := hopts h
    rw [Config.optsOf_eq rfl] at hafter
    rw [Config.optsOf_eq rfl, get?_set, hafter, finalOpts, if_pos rfl]
    by_cases heq : h = e.1
    · rw [if_pos heq, if_pos (List.mem_singleton.mpr heq)]
    · rw [if_neg heq, if_neg (fun hmem => heq (List.mem_singleton.mp hmem)),
        if_neg (fun hmem => heq (List.mem_singleton.mp hmem))]
  · have hfinal : ∀ v, finalOpts group v = loadedOpts v := fun v => if_neg hall
    by_cases hchildren : group = clusterChildren
    · rw [hchildren, addHostToGroup_clusterChildren]
      refine ⟨_, rfl, ⟨⟨⟨_, rfl⟩, hcfg.cluster, hcfg.groups⟩, rfl, fun h => ?_,
        fun role h => ⟨Or.inl, fun h => h.elim id fun h => absurd rfl h.2.2.1⟩⟩⟩
      rw [hopts, ← hchildren, hfinal]
    · obtain ⟨g, hg⟩ := mem_keys_iff.mp (hgroup.resolve_left hall)
      obtain ⟨m, hm⟩ := hcfg.groups group g hg hne
      have hadd := @addHostToGroup_members
        { cfg with hosts := .is (d.set e.1 (loadedOpts (ip e.1))) } group g m hall hchildren hg hm
        e.1 (.str [])
      refine ⟨_, hadd, ⟨⟨⟨_, rfl⟩, ?_, ?_⟩, ?_, fun h => ?_, fun role h => ?_⟩⟩
      · rw [get?_set_of_ne _ _ hne.symm]
        exact hcfg.cluster
      · intro name g' hget hname
        rw [get?_set] at hget
        split_ifs at hget
        · cases hget
          exact ⟨_, rfl⟩
        · exact hcfg.groups name g' hget hname
      · rw [keys_set, addKey_of_mem (hgroup.resolve_left hall)]
      · rw [hfinal]
        exact hopts h
      · by_cases hrole : role = group
        · subst hrole
          have hself : role = role ∧ role ≠ "all".toList ∧ role ≠ clusterChildren ∧ h ∈ [e.1] ↔
              h = e.1 :=
            ⟨fun h => List.mem_singleton.mp h.2.2.2,
              fun h => ⟨rfl, hall, hchildren, List.mem_singleton.mpr h⟩⟩
          rw [hself]
          simp only [Config.members, get?_set_self, hg, Group.members, hm, keys_set, mem_addKey]
        · simp [Config.members, get?_set_of_ne _ _ hrole, hrole]

/-! ### The hosts of a group, and the groups of a file -/

/-- No hosts do nothing. -/
theorem Lists.nil {cfg : Config} (hcfg : Loading cfg) (group : Text) (ip : Text → Value) :
    Lists group ip [] cfg cfg where
  loading := hcfg
  keys := rfl
  opts _ := (if_neg List.not_mem_nil).symm
  members _ _ := ⟨Or.inl, fun h => h.elim id fun h => absurd h.2.2.2 List.not_mem_nil⟩

/-- Some hosts, then some others. -/
theorem Lists.append {group : Text} {ip : Text → Value} {hs hs' : List Text}
    {cfg cfg₁ cfg₂ : Config} (h₁ : Lists group ip hs cfg cfg₁)
    (h₂ : Lists group ip hs' cfg₁ cfg₂) : Lists group ip (hs ++ hs') cfg cfg₂ where
  loading := h₂.loading
  keys := h₂.keys.trans h₁.keys
  opts h := by
    rw [h₂.opts, h₁.opts]
    by_cases hmem : h ∈ hs <;> by_cases hmem' : h ∈ hs' <;> simp [hmem, hmem']
  members role h := by
    rw [h₂.members, h₁.members, List.mem_append]
    tauto

/-- **The hosts of a group** other than `k8s_cluster`. -/
theorem loadHosts_spec {group : Text} {ip : Text → Value} {hosts : List (Text × Value)}
    {cfg : Config} (hcfg : Loading cfg) (hne : group ≠ k8sCluster)
    (hgroup : group = "all".toList ∨ group ∈ cfg.children.keys)
    (hip : ∀ e ∈ hosts, e.2.ipField = .ok (ip e.1)) :
    ∃ cfg', hosts.foldlM (loadHost group) cfg = .ok cfg' ∧
      Lists group ip (hosts.map Prod.fst) cfg cfg' := by
  induction hosts generalizing cfg with
  | nil => exact ⟨cfg, rfl, Lists.nil hcfg group ip⟩
  | cons e hosts ih =>
      obtain ⟨cfg₁, hload, hlists⟩ := loadHost_spec hcfg hne hgroup (hip e List.mem_cons_self)
      obtain ⟨cfg₂, hrest, hlists'⟩ := ih hlists.loading (hgroup.imp_right (hlists.keys ▸ ·))
        fun e he => hip e (List.mem_cons_of_mem _ he)
      refine ⟨cfg₂, ?_, hlists.append hlists'⟩
      rw [List.foldlM_cons, hload, ok_bind, hrest]

/-- Creating the group that the file lists next. -/
theorem ensureRequiredGroups_one {cfg : Config} (hcfg : Loading cfg) (group : Text) :
    ∃ cfg', ensureRequiredGroups [group] cfg.toDocument = .ok cfg' ∧ Loading cfg' ∧
      (group = "all".toList ∨ group ∈ cfg'.children.keys) ∧
      (∀ h, cfg'.optsOf h = cfg.optsOf h) ∧
      ∀ role h, h ∈ cfg'.members role ↔ h ∈ cfg.members role := by
  by_cases hall : group = "all".toList
  · refine ⟨cfg, ?_, hcfg, Or.inl hall, fun h => rfl, fun role h => Iff.rfl⟩
    rw [hall]
    rfl
  · by_cases hmem : group ∈ cfg.children.keys
    · have hstep : ensureGroup cfg.toDocument group = .ok cfg.toDocument := by
        unfold ensureGroup
        rw [if_neg hall]
        simp only [Config.toDocument, if_pos hmem]
      refine ⟨cfg, ?_, hcfg, Or.inr hmem, fun h => rfl, fun role h => Iff.rfl⟩
      rw [ensureRequiredGroups, List.foldlM_cons, hstep, ok_bind]
      rfl
    · have hstep : ensureGroup cfg.toDocument group
          = .ok (Config.toDocument
              { cfg with children := cfg.children.set group Group.fresh }) := by
        unfold ensureGroup
        rw [if_neg hall]
        simp only [Config.toDocument, if_neg hmem]
      have hload : ensureRequiredGroups [group] cfg.toDocument
          = .ok { cfg with children := cfg.children.set group Group.fresh } := by
        rw [ensureRequiredGroups, List.foldlM_cons, hstep, ok_bind]
        rfl
      obtain ⟨g, hg, hmissing⟩ := hcfg.cluster
      have hne : k8sCluster ≠ group := by
        rintro rfl
        exact hmem (mem_keys_iff.mpr ⟨g, hg⟩)
      have hassign := ensureRequiredGroups_assignment hload
      refine ⟨_, hload, ⟨hcfg.hosts, ⟨g, ?_, hmissing⟩, ?_⟩, Or.inr ?_, fun h => rfl,
        fun role h => ?_⟩
      · rw [get?_set_of_ne _ _ hne, hg]
      · intro name g' hget hname
        rw [get?_set] at hget
        split_ifs at hget
        · cases hget
          exact ⟨_, rfl⟩
        · exact hcfg.groups name g' hget hname
      · rw [keys_set, mem_addKey]
        exact Or.inr rfl
      · have hsame := congrFun (congrArg Assignment.group hassign) role
        exact iff_of_eq (congrArg (h ∈ ·) hsame)

/-- **One group of a file**, other than `k8s_cluster` with hosts. -/
theorem loadGroup_spec {cfg : Config} {ip : Text → Value} {g : Text × List (Text × Value)}
    (hcfg : Loading cfg) (hne : g.1 = k8sCluster → g.2 = [])
    (hip : ∀ e ∈ g.2, e.2.ipField = .ok (ip e.1)) :
    ∃ cfg', loadGroup cfg (g.1, .obj g.2) = .ok cfg' ∧ Loading cfg' ∧
      (∀ h, cfg'.optsOf h =
        if h ∈ g.2.map Prod.fst then some (finalOpts g.1 (ip h)) else cfg.optsOf h) ∧
      ∀ role h, h ∈ cfg'.members role ↔ h ∈ cfg.members role ∨
        (role = g.1 ∧ g.1 ≠ "all".toList ∧ g.1 ≠ clusterChildren ∧ h ∈ g.2.map Prod.fst) := by
  obtain ⟨cfg₁, hensure, hcfg₁, hgroup, hopts, hmembers⟩ := ensureRequiredGroups_one hcfg g.1
  rw [loadGroup]
  dsimp only [Value.items]
  rw [hensure, ok_bind, ok_bind]
  by_cases hcluster : g.1 = k8sCluster
  · rw [hne hcluster]
    refine ⟨cfg₁, rfl, hcfg₁, fun h => ?_, fun role h => ?_⟩
    · rw [List.map_nil, if_neg List.not_mem_nil, hopts]
    · rw [hmembers]
      exact ⟨Or.inl, fun h => h.elim id fun h => absurd h.2.2.2 List.not_mem_nil⟩
  · obtain ⟨cfg₂, hload, hlists⟩ := loadHosts_spec hcfg₁ hcluster hgroup hip
    refine ⟨cfg₂, hload, hlists.loading, fun h => ?_, fun role h => ?_⟩
    · rw [hlists.opts, hopts]
    · rw [hlists.members, hmembers]

/-- **The groups of a file**: the last group that lists a host decides about its options,
and every group has the hosts that it lists but those special ones. -/
theorem loadGroups_spec {groups : LoadData} {ip : Text → Value} {cfg : Config}
    (hcfg : Loading cfg) (hne : ∀ g ∈ groups, g.1 = k8sCluster → g.2 = [])
    (hip : groups.HasIps ip) :
    ∃ cfg', (groups.map fun g => (g.1, Value.obj g.2)).foldlM loadGroup cfg = .ok cfg' ∧
      (∀ h, cfg'.optsOf h =
        ((groups.lastLister h).map fun group => finalOpts group (ip h)).or (cfg.optsOf h)) ∧
      ∀ role h, h ∈ cfg'.members role ↔ h ∈ cfg.members role ∨
        (role ≠ "all".toList ∧ role ≠ clusterChildren ∧
          ∃ g ∈ groups, g.1 = role ∧ h ∈ g.2.map Prod.fst) := by
  induction groups generalizing cfg with
  | nil => exact ⟨cfg, rfl, fun h => rfl, fun role h => by simp⟩
  | cons g groups ih =>
      obtain ⟨cfg₁, hload, hcfg₁, hopts, hmembers⟩ :=
        loadGroup_spec hcfg (hne g List.mem_cons_self) (hip g List.mem_cons_self)
      obtain ⟨cfg₂, hrest, hopts', hmembers'⟩ := ih hcfg₁
        (fun g' hg' => hne g' (List.mem_cons_of_mem g hg'))
        (fun g' hg' => hip g' (List.mem_cons_of_mem g hg'))
      refine ⟨cfg₂, ?_, fun h => ?_, fun role h => ?_⟩
      · rw [List.map_cons, List.foldlM_cons, hload, ok_bind, hrest]
      · rw [hopts', hopts, LoadData.lastLister_cons, Option.map_or, Option.or_assoc]
        congr 1
        split_ifs <;> rfl
      · rw [hmembers', hmembers]
        constructor
        · rintro ((hold | ⟨rfl, hall, hchildren, hmem⟩) | ⟨hall, hchildren, g', hg', hrest⟩)
          · exact Or.inl hold
          · exact Or.inr ⟨hall, hchildren, g, List.mem_cons_self, rfl, hmem⟩
          · exact Or.inr ⟨hall, hchildren, g', List.mem_cons_of_mem g hg', hrest⟩
        · rintro (hold | ⟨hall, hchildren, g', hg', rfl, hmem⟩)
          · exact Or.inl (Or.inl hold)
          · rcases List.mem_cons.mp hg' with rfl | hg'
            · exact Or.inl (Or.inr ⟨rfl, hall, hchildren, hmem⟩)
            · exact Or.inr ⟨hall, hchildren, g', hg', rfl, hmem⟩

/-- **A file that lists hosts under `k8s_cluster` cannot be loaded**: the group has no key
`hosts`. -/
theorem loadGroups_cluster {groups : LoadData} {ip : Text → Value} {cfg : Config}
    (hcfg : Loading cfg) (hip : groups.HasIps ip) {g : Text × List (Text × Value)}
    (hg : g ∈ groups) (hcluster : g.1 = k8sCluster) (hne : g.2 ≠ []) (cfg' : Config) :
    (groups.map fun g => (g.1, Value.obj g.2)).foldlM loadGroup cfg ≠ .ok cfg' := by
  induction groups generalizing cfg with
  | nil => cases hg
  | cons first groups ih =>
      intro hload
      obtain ⟨cfg₁, hfirst, hload⟩ := foldlM_cons_eq_ok_iff.mp hload
      by_cases hcase : first.1 = k8sCluster ∧ first.2 ≠ []
      · obtain ⟨e, es, hes⟩ := List.exists_cons_of_ne_nil hcase.2
        obtain ⟨cfg₂, hensure, hcfg₂, -⟩ := ensureRequiredGroups_one hcfg first.1
        obtain ⟨d, hd⟩ := hcfg₂.hosts
        obtain ⟨cluster, hget, hmissing⟩ := hcfg₂.cluster
        rw [loadGroup] at hfirst
        dsimp only [Value.items] at hfirst
        rw [hensure, ok_bind, ok_bind, hes, List.foldlM_cons, loadHost,
          hip first List.mem_cons_self e (by rw [hes]; exact List.mem_cons_self), ok_bind,
          addHostToGroup_all hd, ok_bind, hcase.1,
          @addHostToGroup_missing { cfg₂ with hosts := .is (d.set e.1 (loadedOpts (ip e.1))) }
            k8sCluster cluster (by decide) (by decide) hget hmissing] at hfirst
        cases hfirst
      · obtain ⟨cfg₂, hspec, hcfg₂, -⟩ := loadGroup_spec hcfg
          (fun h => by_contra fun hnonempty => hcase ⟨h, hnonempty⟩) (hip first List.mem_cons_self)
        obtain rfl : cfg₁ = cfg₂ := Except.ok.inj (hfirst.symm.trans hspec)
        rcases List.mem_cons.mp hg with rfl | hg
        · exact hcase ⟨hcluster, hne⟩
        · exact ih hcfg₂ (fun g' hg' => hip g' (List.mem_cons_of_mem first hg')) hg hload

/-! ### Loading a file -/

/-- The configuration before the first group of a file. -/
theorem loading_start :
    ∃ cfg, ensureRequiredGroups roles .missing = .ok cfg ∧ Loading (setK8sCluster cfg) ∧
      (∀ h, (setK8sCluster cfg).optsOf h = none) ∧
      (setK8sCluster cfg).members clusterChildren = [] := by
  obtain ⟨cfg, hload, hlaid, hhosts⟩ := ensureRequiredGroups_missing
  have hkeys : (setK8sCluster cfg).children.keys = childRoles := by
    rw [setK8sCluster, keys_set, hlaid.keys]
    rfl
  refine ⟨cfg, hload, ⟨⟨_, hhosts⟩, ⟨_, get?_set_self _ _ _, rfl⟩, ?_⟩, fun h => ?_, ?_⟩
  · intro name g hget hname
    have hmem : name ∈ childRoles := by
      rw [← hkeys]
      exact mem_keys_iff.mpr ⟨g, hget⟩
    have hroles : ∀ role ∈ childRoles, role ≠ k8sCluster → role ∈ hostRoles := by decide
    obtain ⟨d, hd, -⟩ := hlaid.role name (hroles name hmem hname)
    rw [setK8sCluster, get?_set_of_ne _ _ hname, hd] at hget
    cases hget
    exact ⟨d, rfl⟩
  · exact @Config.optsOf_eq (setK8sCluster cfg) _ hhosts h
  · refine members_eq_nil_of_notMem ?_
    rw [hkeys]
    decide

/-- The written inventory has the hosts of a file: every listed host has its address under
`all`, and is a member of every group that lists it. -/
def LoadedFaithfully (groups : LoadData) (ip : Text → Value) (doc : Document) : Prop :=
  ∀ g ∈ groups, ∀ e ∈ g.2,
    (storedHosts doc).get? e.1 = some (loadedOpts (ip e.1)) ∧
      if g.1 = "all".toList then e.1 ∈ hostNames doc else e.1 ∈ members doc g.1

/-- The special groups list nothing, and `all` is never the last group that lists a
host. -/
structure Loadable (groups : LoadData) : Prop where
  cluster : ∀ g ∈ groups, g.1 = k8sCluster → g.2 = []
  children : ∀ g ∈ groups, g.1 = clusterChildren → g.2 = []
  all : ∀ h, groups.lastLister h ≠ some "all".toList

variable {env : Env} {files : Text → Option (Option Value)}

/-- What `load` does with one file that is an object. -/
theorem invoke_load_one (hfile : env.configFile = true) {f : Text} {groups : LoadData}
    (hf : files f = some (some groups.value)) (disk : Disk) {cfg : Config}
    (hcfg : ensureRequiredGroups roles .missing = .ok cfg) :
    invoke env files disk ["load".toList, f] =
      match (groups.map fun g => (g.1, Value.obj g.2)).foldlM loadGroup (setK8sCluster cfg) with
      | .ok cfg' => (some cfg'.toDocument, .exited)
      | .error e => (disk, .aborted e) := by
  have hone : loadOne .missing (files f)
      = (groups.map fun g => (g.1, Value.obj g.2)).foldlM loadGroup (setK8sCluster cfg) := by
    rw [hf, loadOne]
    dsimp only [LoadData.value, Value.items]
    rw [hcfg, ok_bind, ok_bind]
  rw [invoke_load (List.cons_ne_nil f []), loadFiles, hone]
  cases (groups.map fun g => (g.1, Value.obj g.2)).foldlM loadGroup (setK8sCluster cfg) with
  | error e => rfl
  | ok cfg' =>
      dsimp only
      rw [writeConfig, if_pos hfile]
      rfl

/-- **Loading is faithful** exactly when `k8s_cluster` and `k8s_cluster:children` list no
hosts and `all` is never the last group that lists a host. -/
theorem loadsFaithfully_iff (hfile : env.configFile = true) {f : Text} {groups : LoadData}
    {ip : Text → Value} (hip : groups.HasIps ip) (hf : files f = some (some groups.value))
    (disk : Disk) :
    (∃ doc, invoke env files disk ["load".toList, f] = (some doc, .exited) ∧
        LoadedFaithfully groups ip doc) ↔ Loadable groups := by
  obtain ⟨cfg, hcfg, hloading, hempty, hchildren⟩ := loading_start
  rw [invoke_load_one hfile hf disk hcfg]
  constructor
  · rintro ⟨doc, hload, hfaithful⟩
    split at hload
    · rename_i cfg' hfold
      cases hload
      have hcluster : ∀ g ∈ groups, g.1 = k8sCluster → g.2 = [] := fun g hg hname =>
        by_contra fun hne => loadGroups_cluster hloading hip hg hname hne cfg' hfold
      obtain ⟨cfg₁, hspec, hopts, hmembers⟩ := loadGroups_spec hloading hcluster hip
      obtain rfl : cfg' = cfg₁ := Except.ok.inj (hfold.symm.trans hspec)
      refine ⟨hcluster, fun g hg hname => ?_, fun h hlast => ?_⟩
      · by_contra hne
        obtain ⟨e, es, hes⟩ := List.exists_cons_of_ne_nil hne
        have hmem := (hfaithful g hg e (by rw [hes]; exact List.mem_cons_self)).2
        rw [hname, if_neg (by decide)] at hmem
        rcases (hmembers clusterChildren e.1).mp hmem with hold | ⟨-, hno, -⟩
        · rw [hchildren] at hold
          cases hold
        · exact hno rfl
      · obtain ⟨g, hg, -, hmem⟩ := LoadData.mem_of_lastLister hlast
        obtain ⟨e, he, rfl⟩ := List.mem_map.mp hmem
        have hstored : cfg'.optsOf e.1 = some (loadedOpts (ip e.1)) := (hfaithful g hg e he).1
        rw [hopts, hlast] at hstored
        cases hstored
    · cases hload
  · intro h
    obtain ⟨cfg', hfold, hopts, hmembers⟩ := loadGroups_spec hloading h.cluster hip
    refine ⟨cfg'.toDocument, by rw [hfold], fun g hg e he => ?_⟩
    have hlisted : e.1 ∈ g.2.map Prod.fst := List.mem_map_of_mem he
    obtain ⟨last, hlast⟩ := LoadData.exists_lastLister hg hlisted
    have hstored : cfg'.optsOf e.1 = some (loadedOpts (ip e.1)) := by
      have hne : last ≠ "all".toList := by
        rintro rfl
        exact h.all _ hlast
      rw [hopts, hlast, Option.map_some, Option.some_or, finalOpts, if_neg hne]
    refine ⟨hstored, ?_⟩
    split_ifs with hall
    · rw [← keys_storedHosts]
      exact mem_keys_iff.mpr ⟨_, hstored⟩
    · refine (hmembers g.1 e.1).mpr (Or.inr ⟨hall, fun hname => ?_, g, hg, rfl, hlisted⟩)
      rw [h.children g hg hname] at he
      cases he

/-- A file with one host, under `all` and then under `etcd`. -/
theorem loadsFaithfully_etcd :
    ∃ groups : LoadData, ∃ doc,
      invoke .default (fun _ => some (some groups.value)) none
        ["load".toList, "hosts.json".toList] = (some doc, .exited) ∧
      LoadedFaithfully groups (fun _ => .str "10.0.0.1".toList) doc := by
  let entry : Text × Value :=
    ("node1".toList, .obj [("ip".toList, .str "10.0.0.1".toList)])
  let groups : LoadData := [("all".toList, [entry]), (etcd, [entry])]
  have hip : groups.HasIps fun _ => .str "10.0.0.1".toList := by
    intro g hg e he
    simp only [groups, List.mem_cons, List.not_mem_nil, or_false] at hg
    rcases hg with rfl | rfl <;> rw [List.mem_singleton.mp he] <;> rfl
  refine ⟨groups, (loadsFaithfully_iff rfl hip rfl none).mpr ⟨?_, ?_, fun h hlast => ?_⟩⟩
  · intro g hg hname
    simp only [groups, List.mem_cons, List.not_mem_nil, or_false] at hg
    rcases hg with rfl | rfl <;> exact absurd hname (by decide)
  · intro g hg hname
    simp only [groups, List.mem_cons, List.not_mem_nil, or_false] at hg
    rcases hg with rfl | rfl <;> exact absurd hname (by decide)
  · obtain ⟨g, hg, hname, hmem⟩ := LoadData.mem_of_lastLister hlast
    have hnode : h = "node1".toList := by
      simp only [groups, List.mem_cons, List.not_mem_nil, or_false] at hg
      rcases hg with rfl | rfl <;> exact List.mem_singleton.mp hmem
    rw [hnode] at hlast
    revert hlast
    decide

/-- A host that only `all` lists loses its options. -/
theorem loadsFaithfully_fails :
    ¬ ∀ (env : Env) (files : Text → Option (Option Value)) (f : Text) (groups : LoadData)
      (ip : Text → Value) (disk : Disk), env.configFile = true → groups.HasIps ip →
      files f = some (some groups.value) →
      ∃ doc, invoke env files disk ["load".toList, f] = (some doc, .exited) ∧
        LoadedFaithfully groups ip doc := by
  intro h
  let entry : Text × Value :=
    ("node1".toList, .obj [("ip".toList, .str "10.0.0.1".toList)])
  let groups : LoadData := [("all".toList, [entry])]
  have hip : groups.HasIps fun _ => .str "10.0.0.1".toList := by
    intro g hg e he
    rw [List.mem_singleton.mp hg] at he
    rw [List.mem_singleton.mp he]
    rfl
  obtain ⟨doc, hload, hfaithful⟩ := h .default (fun _ => some (some groups.value))
    "hosts.json".toList groups _ none rfl hip rfl
  cases hload
  have hstored := (hfaithful _ List.mem_cons_self entry List.mem_cons_self).1
  have hempty : (Option.map (Value.isStr []) (some (loadedOpts (.str "10.0.0.1".toList))))
      = some true := by
    rw [← hstored]
    rfl
  cases hempty

end Kubespray.Inventory
