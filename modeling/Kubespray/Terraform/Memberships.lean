import Kubespray.Terraform.Listing

/-!
# Memberships

`query_list` goes through the set of the groups of a host, and alters the empty name to
`all` after that. So a host with both names is appended to `all` twice. The variables of
the hosts take the place of a group that has the name `_meta`.

## Main results

* `groups_foldl_add`: what the loop appends to a group.
* `listsOnce_iff`: when every membership is listed exactly once.
-/

namespace Kubespray.Terraform

open OrderedDict Fallible

/-! ### The groups of one host -/

/-- How often `query_list` appends a host with these groups to a group. -/
def timesIn (groups : List Text) (group : Text) : ℕ :=
  groups.dedup.countP fun g => groupName g = group

/-- A name is in the set of a list at most once. -/
theorem countP_dedup (groups : List Text) (group : Text) :
    groups.dedup.countP (fun g => g = group) = if group ∈ groups then 1 else 0 := by
  have hcount : groups.dedup.countP (fun g => g = group) = groups.dedup.count group := by
    rw [List.count_eq_countP]
    exact List.countP_congr fun g _ => by simp
  rw [hcount]
  split_ifs with hmem
  · exact List.count_eq_one_of_mem groups.nodup_dedup (List.mem_dedup.mpr hmem)
  · exact List.count_eq_zero_of_not_mem fun h => hmem (List.mem_dedup.mp h)

/-- Only the empty name is altered. -/
theorem groupName_eq_iff {g group : Text} :
    groupName g = group ↔ g = group ∧ g ≠ [] ∨ g = [] ∧ group = "all".toList := by
  rw [groupName]
  split_ifs with hg
  · simp [hg, eq_comm]
  · simp [hg]

/-- A group other than `all` has a host at most once. -/
theorem timesIn_of_ne {groups : List Text} {group : Text} (h : group ≠ "all".toList) :
    timesIn groups group = if group ∈ groups.map groupName then 1 else 0 := by
  by_cases hempty : group = []
  · subst hempty
    have hno : ∀ g, groupName g ≠ [] := by
      intro g heq
      rcases groupName_eq_iff.mp heq with ⟨hg, hne⟩ | ⟨-, hall⟩
      · exact hne hg
      · exact absurd hall (by decide)
    rw [if_neg fun hmem => (List.mem_map.mp hmem).elim fun g hg => hno g hg.2, timesIn,
      List.countP_eq_zero]
    exact fun g _ => by simpa using hno g
  · have hname : ∀ g, groupName g = group ↔ g = group := by
      intro g
      rw [groupName_eq_iff, or_iff_left fun hg => h hg.2, and_iff_left_iff_imp]
      exact fun heq => heq ▸ hempty
    have hmem : group ∈ groups.map groupName ↔ group ∈ groups := by
      simp only [List.mem_map, hname, exists_eq_right]
    simp only [timesIn, hname, hmem, countP_dedup]

/-- The group `all` has a host once for each of its two names. -/
theorem timesIn_all (groups : List Text) :
    timesIn groups "all".toList
      = (if [] ∈ groups then 1 else 0) + if "all".toList ∈ groups then 1 else 0 := by
  rw [← countP_dedup, ← countP_dedup, timesIn]
  have hname : ∀ g, groupName g = "all".toList ↔ g = [] ∨ g = "all".toList := by
    intro g
    rw [groupName_eq_iff]
    by_cases hg : g = [] <;> simp [hg]
  simp only [hname]
  have hne : "all".toList ≠ [] := by decide
  generalize "all".toList = all at hne
  induction groups.dedup with
  | nil => rfl
  | cons g gs ih =>
      rw [List.countP_cons, List.countP_cons, List.countP_cons, ih]
      by_cases h₁ : g = []
      · simp [h₁, hne.symm]
        omega
      · by_cases h₂ : g = all
        · simp [h₂, hne]
          omega
        · simp [h₁, h₂]

/-- **A host is in each of its groups once** unless it has both names of `all`. -/
theorem timesIn_iff {groups : List Text} :
    (∀ group, timesIn groups group = if group ∈ groups.map groupName then 1 else 0) ↔
      ¬ ([] ∈ groups ∧ "all".toList ∈ groups) := by
  have hall : "all".toList ∈ groups.map groupName ↔ [] ∈ groups ∨ "all".toList ∈ groups := by
    simp only [List.mem_map, groupName_eq_iff]
    constructor
    · rintro ⟨g, hg, ⟨rfl, -⟩ | ⟨rfl, -⟩⟩
      · exact Or.inr hg
      · exact Or.inl hg
    · rintro (hg | hg)
      · exact ⟨_, hg, Or.inr ⟨rfl, trivial⟩⟩
      · exact ⟨_, hg, Or.inl ⟨rfl, by decide⟩⟩
  constructor
  · rintro h ⟨h₁, h₂⟩
    have hcount := h "all".toList
    rw [timesIn_all, if_pos h₁, if_pos h₂, if_pos (hall.mpr (Or.inl h₁))] at hcount
    omega
  · intro h group
    by_cases hgroup : group = "all".toList
    · subst hgroup
      rw [timesIn_all]
      simp only [hall]
      by_cases h₁ : [] ∈ groups
      · rw [if_pos h₁, if_neg fun h₂ => h ⟨h₁, h₂⟩, if_pos (Or.inl h₁)]
      · by_cases h₂ : "all".toList ∈ groups
        · rw [if_neg h₁, if_pos h₂, if_pos (Or.inr h₂)]
        · rw [if_neg h₁, if_neg h₂, if_neg fun hor => hor.elim h₁ h₂]
    · exact timesIn_of_ne hgroup

/-! ### The loop -/

/-- What one host appends to a group. -/
theorem groups_foldl_addToGroup (name : Json) (gs : List Text)
    (groups : OrderedDict Text (List Json)) (group : Text) :
    ((gs.foldl (addToGroup name) groups).get? group).getD []
      = (groups.get? group).getD []
        ++ List.replicate (gs.countP fun g => groupName g = group) name := by
  induction gs generalizing groups with
  | nil => exact (List.append_nil _).symm
  | cons g gs ih =>
      rw [List.foldl_cons, ih, addToGroup, get?_set, List.countP_cons]
      by_cases hg : group = groupName g
      · rw [if_pos hg, if_pos (by simpa using hg.symm), Option.getD_some, hg, List.append_assoc,
          List.replicate_succ]
        rfl
      · rw [if_neg hg, if_neg (by simpa using Ne.symm hg)]
        rfl

/-- **What the loop appends to a group**: each host as often as its groups say. -/
theorem groups_foldl_add (sets : SetOrder) (hs : List Host) (l : Listing) (group : Text) :
    ((hs.foldl (Listing.add sets) l).groups.get? group).getD []
      = (l.groups.get? group).getD []
        ++ hs.flatMap fun h => List.replicate (timesIn h.groups group) h.name := by
  induction hs generalizing l with
  | nil => exact (List.append_nil _).symm
  | cons h hs ih =>
      rw [List.foldl_cons, ih, Listing.add, groups_foldl_addToGroup, List.append_assoc,
        List.flatMap_cons, (sets.perm h.groups).countP_eq]
      rfl

/-- Does a value stand for the host with this key? -/
def isNamed (name : Key) (v : Json) : Bool :=
  match v.key with
  | .ok k => k = name
  | .error _ => false

/-- Hosts whose names can be told apart, as keys of a dictionary. -/
structure DistinctNames (hs : List Host) : Prop where
  hash : ∀ h ∈ hs, ∃ k, h.name.key = .ok k
  nodup : (hs.map nameKey).Nodup

/-- A host stands for its key. -/
theorem isNamed_name {h : Host} {name : Key} (hkey : ∃ k, h.name.key = .ok k) :
    isNamed name h.name = decide (nameKey h = name) := by
  obtain ⟨k, hk⟩ := hkey
  rw [isNamed, nameKey, hk]

/-- A host is in a group as often as its own groups say. -/
theorem countP_hosts {hs : List Host} (hnames : DistinctNames hs) {h : Host} (hmem : h ∈ hs)
    (group : Text) :
    (hs.flatMap fun h => List.replicate (timesIn h.groups group) h.name).countP
        (isNamed (nameKey h)) = timesIn h.groups group := by
  obtain ⟨before, after, rfl⟩ := List.append_of_mem hmem
  have hnodup := hnames.nodup
  rw [List.map_append, List.map_cons, List.nodup_middle, List.nodup_cons, List.mem_append,
    not_or] at hnodup
  have hothers : ∀ others : List Host, (∀ o ∈ others, ∃ k, o.name.key = .ok k) →
      nameKey h ∉ others.map nameKey →
      (others.flatMap fun o => List.replicate (timesIn o.groups group) o.name).countP
        (isNamed (nameKey h)) = 0 := by
    intro others hhash hno
    refine List.countP_eq_zero.mpr fun name hname => ?_
    obtain ⟨o, ho, hname⟩ := List.mem_flatMap.mp hname
    obtain ⟨-, rfl⟩ := List.mem_replicate.mp hname
    rw [isNamed_name (hhash o ho), decide_eq_true_iff]
    exact fun heq => hno (heq ▸ List.mem_map_of_mem ho)
  rw [List.flatMap_append, List.flatMap_cons, List.countP_append, List.countP_append,
    hothers before (fun o ho => hnames.hash o (List.mem_append_left _ ho)) hnodup.1.1,
    hothers after (fun o ho => hnames.hash o
      (List.mem_append_right _ (List.mem_cons_of_mem _ ho))) hnodup.1.2,
    List.countP_replicate, isNamed_name (hnames.hash h hmem), if_pos (decide_eq_true rfl)]
  omega

/-! ### The listing -/

/-- `query_list` lists every membership exactly once: the hosts of a group contain a name
once if the group is among the groups of that host, the empty name read as `all`, and not at
all otherwise. And `_meta.hostvars` maps every name to its variables. -/
def ListsOnce (sets : SetOrder) (hs : List Host) : Prop :=
  ∃ out, queryList sets (hs.map .ok) = .ok out ∧
    (∀ group, ∀ h ∈ hs, (groupHosts out group).countP (isNamed (nameKey h))
      = if group ∈ h.groups.map groupName then 1 else 0) ∧
    ∀ h ∈ hs, (hostvars out).get? (nameKey h) = some h.attrs

/-- The listing of hosts with different names. -/
theorem queryList_eq (sets : SetOrder) {hs : List Host} (hnames : DistinctNames hs) :
    queryList sets (hs.map .ok)
      = .ok (hs.foldl (Listing.add sets) ⟨OrderedDict.empty, OrderedDict.empty⟩).output := by
  rw [queryList, collect_eq_ok_iff.mpr ⟨hs, rfl, hnames.hash, rfl⟩]
  rfl

/-- How often a host is in a group of the listing. The key `_meta` is no group. -/
theorem countP_groupHosts (sets : SetOrder) {hs : List Host} (hnames : DistinctNames hs)
    {h : Host} (hmem : h ∈ hs) (group : Text) :
    (groupHosts (hs.foldl (Listing.add sets) ⟨OrderedDict.empty, OrderedDict.empty⟩).output
        group).countP (isNamed (nameKey h))
      = if group = "_meta".toList then 0 else timesIn h.groups group := by
  split_ifs with hmeta
  · rw [groupHosts, Listing.output, hmeta, get?_set_self]
    rfl
  · rw [groupHosts_output _ hmeta, groups_foldl_add, get?_empty]
    exact countP_hosts hnames hmem group

/-- The name `_meta` is not altered. -/
theorem meta_mem_iff {groups : List Text} :
    "_meta".toList ∈ groups.map groupName ↔ "_meta".toList ∈ groups := by
  rw [List.mem_map]
  constructor
  · rintro ⟨g, hg, heq⟩
    rcases groupName_eq_iff.mp heq with ⟨rfl, -⟩ | ⟨-, hno⟩
    · exact hg
    · exact absurd hno (by decide)
  · exact fun hmem => ⟨_, hmem, groupName_eq_iff.mpr (Or.inl ⟨rfl, by decide⟩)⟩

/-- The groups of one host in the listing. -/
theorem once_iff {groups : List Text} :
    (∀ group, (if group = "_meta".toList then 0 else timesIn groups group)
        = if group ∈ groups.map groupName then 1 else 0) ↔
      ¬ ([] ∈ groups ∧ "all".toList ∈ groups) ∧ "_meta".toList ∉ groups := by
  rw [← timesIn_iff, ← meta_mem_iff]
  constructor
  · intro h
    refine ⟨fun group => ?_, fun hmem => ?_⟩
    · by_cases hgroup : group = "_meta".toList
      · exact timesIn_of_ne (hgroup ▸ by decide)
      · rw [← h group, if_neg hgroup]
    · have hmeta := h "_meta".toList
      rw [if_pos rfl, if_pos hmem] at hmeta
      omega
  · rintro ⟨htimes, hmeta⟩ group
    split_ifs with hgroup hmem
    · exact absurd (hgroup ▸ hmem) hmeta
    · rfl
    · rw [htimes, if_pos ‹_›]
    · rw [htimes, if_neg ‹_›]

/-- **When every membership is listed exactly once**: no host has both the empty name and
`all` among its groups, and none has `_meta`. -/
theorem listsOnce_iff (sets : SetOrder) {hs : List Host} (hnames : DistinctNames hs) :
    ListsOnce sets hs ↔
      ∀ h ∈ hs, ¬ ([] ∈ h.groups ∧ "all".toList ∈ h.groups) ∧ "_meta".toList ∉ h.groups := by
  constructor
  · rintro ⟨out, hout, hgroups, -⟩ h hmem
    rw [queryList_eq sets hnames] at hout
    cases hout
    refine once_iff.mp fun group => ?_
    rw [← countP_groupHosts sets hnames hmem]
    exact hgroups group h hmem
  · intro hall
    refine ⟨_, queryList_eq sets hnames, fun group h hmem => ?_, fun h hmem => ?_⟩
    · rw [countP_groupHosts sets hnames hmem]
      exact once_iff.mpr (hall h hmem) group
    · rw [hostvars_output, vars_foldl_add]
      refine get?_foldl_set_of_mem ?_ _ (List.mem_map_of_mem hmem)
      rw [List.map_map]
      exact hnames.nodup

/-- A host with the groups of an instance without the metadata `kubespray_groups`. -/
theorem listsOnce_empty :
    ListsOnce ⟨List.dedup, fun _ => .refl _⟩
      [⟨.str "node1".toList, OrderedDict.empty, [[], "k8s_cluster".toList]⟩] := by
  refine (listsOnce_iff _ ⟨?_, ?_⟩).mpr ?_
  · intro h hh
    obtain rfl := List.mem_singleton.mp hh
    exact ⟨_, rfl⟩
  · exact List.nodup_singleton _
  · intro h hh
    obtain rfl := List.mem_singleton.mp hh
    exact ⟨by decide, by decide⟩

/-- A host whose metadata `kubespray_groups` is `all,` is in the group `all` twice. -/
theorem listsOnce_fails :
    ¬ ∀ (sets : SetOrder) (hs : List Host), DistinctNames hs → ListsOnce sets hs := by
  intro h
  have hnames : DistinctNames
      [⟨.str "node1".toList, OrderedDict.empty, ["all".toList, []]⟩] := by
    refine ⟨fun h hh => ?_, List.nodup_singleton _⟩
    obtain rfl := List.mem_singleton.mp hh
    exact ⟨_, rfl⟩
  obtain ⟨out, hout, hgroups, -⟩ := h ⟨List.dedup, fun _ => .refl _⟩ _ hnames
  rw [queryList_eq _ hnames] at hout
  cases hout
  have hall := hgroups "all".toList _ List.mem_cons_self
  rw [countP_groupHosts _ hnames List.mem_cons_self] at hall
  exact absurd hall (by decide)

end Kubespray.Terraform
