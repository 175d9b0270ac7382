import Kubespray.Inventory.Assigned
import Kubespray.Inventory.Removal
import Kubespray.Inventory.RoleHistories

/-!
# What a Removal Takes Out

An argument `-x` takes one host out of the host map: the host called `x`, or else the first
one with the address `x`. What is written has no host that is not in the map, except for the
names of groups, which the purge protects.

## Main results

* `allHosts_removeHost`: the host map after a removal.
* `removesTaken_of_writes`: where a host that a removal took is in what is written.
* `removesTaken_history`: so in every run of a history.
-/

namespace Kubespray.Inventory

open OrderedDict Fallible Histories

variable {env : Env} {w w' : Walk} {r : Run} {disk : Disk} {doc : Document}

/-- The host that a removal takes: the one that is called so, or the first one with the
address. -/
def taken (hosts : OrderedDict Text Value) (x : Text) : Option Text :=
  if existsHostname hosts x then some x
  else
    match findByIp x hosts.entries with
    | .ok found => found
    | .error _ => none

/-- The walk of a run over its first arguments. -/
def Run.walkOver (r : Run) (disk : Disk) (args : List Text) : Except Abort Walk := do
  let removal ← removalFirst r.changedHosts
  let cfg ← ensureRequiredGroups roles (← r.base disk)
  Inventory.walkOver r.env cfg (r.add || removal) args

/-- **The host map after a removal**: without the host that it takes. -/
theorem allHosts_removeHost {x : Text} (h : removeHost w x = .ok w') :
    w'.allHosts = (taken w.allHosts x).elim w.allHosts w.allHosts.erase := by
  rw [removeHost] at h
  rw [taken]
  split_ifs at h ⊢
  · cases h
    rfl
  · obtain ⟨found, hfound, h⟩ := ok_of_bind h
    obtain ⟨host, hhost, hsome⟩ := ok_of_bind hfound
    rw [hhost]
    cases host with
    | none =>
        cases hsome
        cases h
        rfl
    | some host =>
        cases hsome
        obtain ⟨hosts, hdelete, h⟩ := ok_of_bind h
        cases h
        rw [deleteHostByIp, hhost] at hdelete
        cases hdelete
        rfl

/-- A host that a removal took, and that no later argument assigns, is not in the map at the
end. -/
theorem notMem_keys_of_taken {x h : Text} {post : List Text} {w₁ : Walk}
    (htaken : taken w.allHosts x = some h) (hstep : stepHost env w ('-' :: x) = .ok w₁)
    (hwalk : post.foldlM (stepHost env) w₁ = .ok w')
    (hagain : ∀ a ∈ assignments env (.ok w₁) post, a.name ≠ h) : h ∉ w'.allHosts.keys := by
  intro hmem
  rcases mem_keys_of_walk hwalk hmem with hkey | ⟨a, ha, hname⟩
  · have hremove : removeHost w x = .ok w₁ := hstep
    rw [allHosts_removeHost hremove, htaken, Option.elim_some, keys_erase, List.mem_filter] at hkey
    exact of_decide_eq_true hkey.2 rfl
  · exact hagain a ha hname

/-- A host that is not in the host list of a run is written where it was carried over and
is protected. -/
theorem mem_writes_of_notMem_hostList (hrun : isHostRun r.argv = true)
    (hdoc : doc ∈ r.writes disk) {h : Text} (hgone : h ∉ r.hostList disk) :
    (h ∈ hostNames doc ↔ h ∈ protectedNames ∧ h ∈ (r.carried disk).hosts) ∧
      ∀ role ∈ hostRoles,
        (h ∈ members doc role ↔ h ∈ protectedNames ∧ h ∈ (r.carried disk).group role) := by
  obtain ⟨conflict, heq⟩ := writes_assignment hrun hdoc
  have hhosts : hostNames doc = _ := congrArg Assignment.hosts heq
  have hgroup : ∀ role, members doc role = _ :=
    fun role => congrFun (congrArg Assignment.group heq) role
  have hkept : kept (r.hostList disk) h = true ↔ h ∈ protectedNames := by
    rw [kept, decide_eq_true_iff, or_iff_right hgone]
  refine ⟨?_, fun role hrole => ?_⟩
  · rw [hhosts, mem_place_hosts, or_iff_left hgone, hkept, and_comm]
  · rw [hgroup]
    constructor
    · intro hmem
      obtain ⟨hold, hk⟩ := (mem_place_group hrole hmem).resolve_right hgone
      exact ⟨hkept.mp hk, hold⟩
    · rintro ⟨hprotected, hold⟩
      exact mem_place_group_of_kept hrole hold (hkept.mpr hprotected)

/-- Every host that a removal of the run takes, and that the run does not assign again
later, is in what is written only if it is protected, and then wherever the file that was
loaded lists it. -/
def RemovesTaken (r : Run) (disk : Disk) (doc : Document) : Prop :=
  ∀ pre x post w h, r.arguments = pre ++ ('-' :: x) :: post →
    r.walkOver disk pre = .ok w → taken w.allHosts x = some h →
    (∀ a ∈ assignments r.env (stepHost r.env w ('-' :: x)) post, a.name ≠ h) →
      (h ∈ hostNames doc ↔ h ∈ protectedNames ∧ h ∈ (r.carried disk).hosts) ∧
        ∀ role ∈ hostRoles,
          (h ∈ members doc role ↔ h ∈ protectedNames ∧ h ∈ (r.carried disk).group role)

/-- **A run removes what its removals take.** -/
theorem removesTaken_of_writes (hrun : isHostRun r.argv = true) (hdoc : doc ∈ r.writes disk) :
    RemovesTaken r disk doc := by
  intro pre x post w h hargs hpre htaken hagain
  refine mem_writes_of_notMem_hostList hrun hdoc ?_
  obtain ⟨removal, base, cfg, expanded, hosts, -, hremoval, -, hcfg, hexpanded, hbuild,
    hbase, hmap, -⟩ := hostMap_of_writes hrun hdoc
  have hsame : r.arguments = expanded := by
    rw [Run.arguments, hexpanded]
  obtain rfl : expanded = pre ++ ('-' :: x) :: post := hsame.symm.trans hargs
  have hwalkOver : Inventory.walkOver r.env cfg (r.add || removal) pre = .ok w := by
    rw [← hpre, Run.walkOver, hremoval, ok_bind, hbase, ok_bind, hcfg, ok_bind]
  obtain ⟨w₀, hstart, hfirst⟩ := ok_of_bind hwalkOver
  obtain ⟨w₀', w', hstart', hwalk, rfl⟩ := buildHostnames_eq_ok_iff.mp hbuild
  obtain rfl : w₀ = w₀' := Except.ok.inj (hstart.symm.trans hstart')
  rw [List.foldlM_append, hfirst, ok_bind, List.foldlM_cons] at hwalk
  obtain ⟨w₁, hstep, hwalk⟩ := ok_of_bind hwalk
  rw [hstep] at hagain
  rw [Run.hostList, hmap]
  exact notMem_keys_of_taken htaken hstep hwalk hagain

/-- **Removals over whole histories.** -/
theorem removesTaken_history (runs : List Run) :
    Along builderStep (fun disk r _ => ∀ doc ∈ r.writes disk, RemovesTaken r disk doc) none
      runs :=
  along_of_invariant (I := fun _ => True)
    (fun _ _ _ _ hstep => ⟨trivial, fun _ hdoc =>
      removesTaken_of_writes (builderStep_cases hstep).1 hdoc⟩) trivial runs

/-- Every host that a removal of the run designates, by its name or by its address, and that
the run does not assign again later, is nowhere in what is written. -/
def RemovesDesignated (r : Run) (disk : Disk) (doc : Document) : Prop :=
  ∀ pre x post w h, r.arguments = pre ++ ('-' :: x) :: post →
    r.walkOver disk pre = .ok w → h ∈ w.allHosts.keys →
    (h = x ∨ ipOf w.allHosts h = some x) →
    (∀ a ∈ assignments r.env (stepHost r.env w ('-' :: x)) post, a.name ≠ h) →
      h ∉ hostNames doc ∧ ∀ role ∈ hostRoles, h ∉ members doc role

/-- A host that is called like a group stays when it is removed. -/
theorem removesDesignated_fails :
    ¬ ∀ runs : List Run,
      Along builderStep (fun disk r _ => removalFirst r.changedHosts = .ok true →
        ∀ doc ∈ r.writes disk, RemovesDesignated r disk doc) none runs := by
  intro h
  let build : Run :=
    { env := .default, files := fun _ => none, argv := ["etcd,10.0.0.1".toList] }
  let remove : Run :=
    { env := .default, files := fun _ => none, argv := ["-etcd".toList] }
  have hbuild := Option.some_get (show (builderStep none build).isSome by decide)
  have hremove := Option.some_get
    (show (builderStep ((builderStep none build).get (by decide)) remove).isSome by decide)
  have hsecond := ((along_cons_of_some hbuild.symm [remove]).mp (h [build, remove])).2
  have hlaw := ((along_cons_of_some hremove.symm []).mp hsecond).1 rfl
  have hdoc := Option.get_mem
    (show (remove.writes ((builderStep none build).get (by decide))).isSome by decide)
  have hgone := (hlaw _ hdoc [] "etcd".toList [] _ "etcd".toList rfl rfl (by decide)
    (Or.inl rfl) (fun a ha => by cases ha)).1
  revert hgone
  decide

end Kubespray.Inventory
