import Kubespray.Inventory.Incremental

/-!
# Where a Fresh Build Puts Its Hosts

A fresh build carries nothing over, so each group is what the run itself puts there, a
piece of the host list. The pieces are taken by slices and by exclusions that read the
groups filled before. From the scale threshold on the control plane is taken behind the
etcd hosts and nodes behind them as well; from the massive threshold on nodes are taken
behind both. On a short host list there may be nothing behind.

## Main results

* `placedExactly_of_writes`: each group of a fresh build from addresses.
* `deployable_iff`: when the groups that the preinstall checks ask for are not empty.
-/

namespace Kubespray.Inventory

open OrderedDict Fallible

variable {env : Env} {conflict : Text → Bool} {hosts : List Text}

/-- Behind the first elements of a list without repetitions is what is not among them. -/
theorem filter_notMem_take {α : Type} [DecidableEq α] {xs : List α} (h : xs.Nodup) (c : ℕ) :
    (xs.filter fun x => decide (x ∉ xs.take c)) = xs.drop c := by
  have hfront : (xs.take c).filter (fun x => decide (x ∉ xs.take c)) = [] := by
    rw [List.filter_eq_nil_iff]
    intro x hx hno
    exact of_decide_eq_true hno hx
  have hback : (xs.drop c).filter (fun x => decide (x ∉ xs.take c)) = xs.drop c := by
    rw [List.filter_eq_self]
    intro x hx
    exact decide_eq_true fun htake => List.disjoint_take_drop h (le_refl c) htake hx
  calc (xs.filter fun x => decide (x ∉ xs.take c))
      = (xs.take c ++ xs.drop c).filter (fun x => decide (x ∉ xs.take c)) := by
        rw [List.take_append_drop]
    _ = xs.drop c := by rw [List.filter_append, hfront, hback, List.nil_append]

/-- A slice with bounds that count from the front. -/
theorem slice_eq {α : Type} (xs : List α) (start stop : ℕ) :
    slice xs start stop = (xs.take stop).drop start := by
  have hstart : sliceBound xs.length start = min start xs.length := by simp [sliceBound]
  have hstop : sliceBound xs.length stop = min stop xs.length := by simp [sliceBound]
  rw [slice, hstart, hstop, ← List.take_eq_take_min, List.drop_eq_drop_iff, List.length_take]
  omega

/-- **The control plane** of a run: from the scale threshold on, it is taken behind the etcd
hosts. -/
theorem controlPlaneHosts_eq (hcontrol : 0 ≤ env.kubeControlHosts) :
    controlPlaneHosts env hosts =
      if (hosts.length : ℤ) < env.scaleThreshold then hosts.take env.kubeControlHosts.toNat
      else (hosts.drop (etcdHostsCount hosts)).take env.kubeControlHosts.toNat := by
  split_ifs with hscale
  · exact controlPlaneHosts_of_small hscale hcontrol
  · have hstop : (etcdHostsCount hosts : ℤ) + env.kubeControlHosts
        = (etcdHostsCount hosts + env.kubeControlHosts.toNat : ℕ) := by omega
    rw [controlPlaneHosts, if_pos (not_lt.mp hscale), hstop, slice_eq, List.drop_take,
      Nat.add_sub_cancel_left]

/-! ### The groups of a placement that starts from nothing -/

section

variable (hnd : hosts.Nodup)
include hnd

/-- Pieces of the host list have no repetitions. -/
theorem nodup_take (n : ℕ) : (hosts.take n).Nodup :=
  hnd.sublist (List.take_sublist _ _)

/-- The hosts of a fresh build. -/
theorem place_none_hosts : (place env conflict hosts .none).hosts = hosts :=
  addKeys_nil_left hnd

/-- The etcd group of a fresh build. -/
theorem place_none_etcd :
    (place env conflict hosts .none).group etcd = hosts.take (etcdHostsCount hosts) :=
  place_etcd.trans (addKeys_nil_left (nodup_take hnd _))

/-- The control plane of a fresh build. -/
theorem place_none_kubeControlPlane (hcontrol : 0 ≤ env.kubeControlHosts) :
    (place env conflict hosts .none).group kubeControlPlane = controlPlaneHosts env hosts := by
  rw [place_kubeControlPlane, controlPlaneHosts_eq hcontrol]
  refine addKeys_nil_left ?_
  split_ifs
  · exact nodup_take hnd _
  · exact hnd.sublist ((List.take_sublist _ _).trans (List.drop_sublist _ _))

/-- **The nodes** of a fresh build: from the scale threshold on, they are behind the etcd
hosts, and from the massive threshold on behind the control plane too. -/
theorem place_none_kubeNode (hcontrol : 0 ≤ env.kubeControlHosts)
    (hmassive : env.scaleThreshold ≤ env.massiveScaleThreshold) :
    (place env conflict hosts .none).group kubeNode =
      if (hosts.length : ℤ) < env.scaleThreshold then hosts
      else if (hosts.length : ℤ) < env.massiveScaleThreshold then
        hosts.drop (etcdHostsCount hosts)
      else
        hosts.drop (etcdHostsCount hosts + env.kubeControlHosts.toNat) := by
  have hnodes : (place env conflict hosts .none).group kubeNode
      = hosts.filter fun h => !excluded env (place env conflict hosts .none) h := by
    rw [place_kubeNode]
    exact addKeys_nil_left (hnd.sublist List.filter_sublist)
  rw [hnodes]
  split_ifs with hscale hmass
  · rw [List.filter_eq_self]
    intro h _
    have hless : (hosts.length : ℤ) < env.massiveScaleThreshold := lt_of_lt_of_le hscale hmassive
    rw [excluded, place_none_hosts hnd]
    simp [not_le.mpr hscale, not_le.mpr hless]
  · rw [← filter_notMem_take hnd]
    refine List.filter_congr fun h _ => ?_
    rw [excluded, place_none_hosts hnd, place_none_etcd hnd]
    simp [not_lt.mp hscale, not_le.mpr hmass]
  · rw [← filter_notMem_take hnd]
    refine List.filter_congr fun h _ => ?_
    rw [List.take_add, excluded, place_none_hosts hnd, place_none_etcd hnd,
      place_none_kubeControlPlane hnd hcontrol, controlPlaneHosts_eq hcontrol, if_neg hscale]
    simp [not_lt.mp hscale, not_lt.mp hmass]

/-- The route reflectors of a fresh build, when no host is called like a key of a group. -/
theorem place_none_calicoRr (hfree : ∀ h ∈ hosts, conflict h = false) :
    (place env conflict hosts .none).group calicoRr =
      if env.scaleThreshold ≤ (hosts.length : ℤ) then hosts.take (etcdHostsCount hosts)
      else [] := by
  have hcalico : calicoHosts env conflict hosts =
      if env.scaleThreshold ≤ (hosts.length : ℤ) then hosts.take (etcdHostsCount hosts)
      else [] := by
    rw [calicoHosts]
    refine if_congr Iff.rfl ?_ rfl
    rw [List.filter_eq_self]
    exact fun h hmem => by rw [hfree h (List.mem_of_mem_take hmem), Bool.not_false]
  rw [place_calicoRr, hcalico]
  refine addKeys_nil_left ?_
  split_ifs
  · exact nodup_take hnd _
  · exact List.nodup_nil

end

/-! ### Builds from addresses -/

variable {files : Text → Option (Option Value)} {disk : Disk} {doc : Document}

/-- Each group of an inventory is the piece of its host list that the thresholds give. -/
structure PlacedExactly (env : Env) (doc : Document) : Prop where
  etcd : members doc etcd = (hostNames doc).take (etcdHostsCount (hostNames doc))
  kubeControlPlane : members doc kubeControlPlane =
    if ((hostNames doc).length : ℤ) < env.scaleThreshold then
      (hostNames doc).take env.kubeControlHosts.toNat
    else
      ((hostNames doc).drop (etcdHostsCount (hostNames doc))).take env.kubeControlHosts.toNat
  kubeNode : members doc kubeNode =
    if ((hostNames doc).length : ℤ) < env.scaleThreshold then hostNames doc
    else if ((hostNames doc).length : ℤ) < env.massiveScaleThreshold then
      (hostNames doc).drop (etcdHostsCount (hostNames doc))
    else
      (hostNames doc).drop (etcdHostsCount (hostNames doc) + env.kubeControlHosts.toNat)
  calicoRr : members doc calicoRr =
    if env.scaleThreshold ≤ ((hostNames doc).length : ℤ) then
      (hostNames doc).take (etcdHostsCount (hostNames doc))
    else
      []

/-- No generated name is the name of a key of a group. -/
theorem calledHosts_of_mem_numberedNames (henv : Numbering env) {n : ℕ} {h : Text}
    (hmem : h ∈ numberedNames env n) : calledHosts h = false := by
  obtain ⟨i, -, rfl⟩ := List.mem_map.mp hmem
  refine decide_eq_false fun hcalled => ?_
  have hhead := congrArg List.head? (List.mem_singleton.mp hcalled)
  rw [generatedName, henv.hostPrefix] at hhead
  cases hhead

/-- **Where a fresh build from addresses puts its hosts**: the distinct addresses are
numbered in order, and each group is the piece of the host list that the thresholds
give. -/
theorem placedExactly_of_writes {args items : List Text} (henv : Numbering env)
    (hargs : AddressArguments env args items) (hcontrol : 1 ≤ env.kubeControlHosts)
    (hmassive : env.scaleThreshold ≤ env.massiveScaleThreshold)
    (hdoc : doc ∈ (freshRun env files args).writes disk) :
    hostNames doc = numberedNames env (givenAddresses env items).length ∧
      PlacedExactly env doc := by
  obtain ⟨-, -, -, hfile⟩ := hostRun_of_writes hargs.isHostRun_freshRun hdoc
  have hopen := opens_of_writes hargs.isHostRun_freshRun hdoc (hostMap_freshRun henv hargs)
  obtain ⟨cfg, hwrites, -, -, hassign⟩ :=
    @writes_freshRun_addresses env files disk _ _ henv hfile hargs hopen
  obtain rfl : cfg.toDocument = doc := Option.some.inj (hwrites.symm.trans hdoc)
  rw [keys_numberedHosts] at hassign
  have hnd : (numberedNames env (givenAddresses env items).length).Nodup := by
    rw [← keys_numberedHosts]
    exact (numberedHosts env items).keys_nodup
  have hhosts : hostNames cfg.toDocument = numberedNames env (givenAddresses env items).length :=
    (congrArg Assignment.hosts hassign).trans (place_none_hosts hnd)
  have hgroup : ∀ role, members cfg.toDocument role = _ :=
    fun role => congrFun (congrArg Assignment.group hassign) role
  refine ⟨hhosts, ?_⟩
  constructor <;> rw [hgroup, hhosts]
  · exact place_none_etcd hnd
  · rw [place_none_kubeControlPlane hnd (by omega), controlPlaneHosts_eq (by omega)]
  · exact place_none_kubeNode hnd (by omega) hmassive
  · exact place_none_calicoRr hnd fun h => calledHosts_of_mem_numberedNames henv

/-- A build of two hosts at the scale threshold and below the massive one. -/
theorem placedExactly_twoHosts :
    let env : Env := { Env.default with scaleThreshold := 2, massiveScaleThreshold := 3 }
    ∃ doc ∈ (freshRun env (fun _ => none) ["10.1.0.1".toList, "10.1.0.2".toList]).writes none,
      hostNames doc = numberedNames env 2 ∧ PlacedExactly env doc := by
  intro env
  have hargument : ∀ t ∈ ["10.1.0.1".toList, "10.1.0.2".toList], AddressArgument env t := by
    intro t ht
    simp only [List.mem_cons, List.not_mem_nil, or_false] at ht
    rcases ht with rfl | rfl <;>
      exact ⟨Or.inl (by decide), by decide, by decide, fun hcomma => absurd hcomma (by decide)⟩
  have hargs : AddressArguments env ["10.1.0.1".toList, "10.1.0.2".toList]
      ["10.1.0.1".toList, "10.1.0.2".toList] :=
    { nonempty := List.cons_ne_nil _ _
      arguments := hargument
      valid := rfl }
  have hdoc := Option.get_mem (show ((freshRun env (fun _ => none)
    ["10.1.0.1".toList, "10.1.0.2".toList]).writes none).isSome by decide)
  exact ⟨_, hdoc, placedExactly_of_writes ⟨rfl, rfl⟩ hargs (by decide) (by decide) hdoc⟩

/-! ### Groups without members -/

/-- The groups that the preinstall checks ask for have members. -/
def Deployable (doc : Document) : Prop :=
  members doc etcd ≠ [] ∧ members doc kubeControlPlane ≠ [] ∧ members doc kubeNode ≠ []

instance (doc : Document) : Decidable (Deployable doc) :=
  inferInstanceAs (Decidable (_ ∧ _ ∧ _))

/-- **Fresh builds are deployable** exactly when they are below the scale threshold, or have
hosts behind the etcd hosts, and behind the control plane too from the massive threshold
on. -/
theorem deployable_iff {r : Run} (hrun : isHostRun r.argv = true)
    (hfresh : r.base disk = .ok .missing) (hcontrol : 1 ≤ r.env.kubeControlHosts)
    (hmassive : r.env.scaleThreshold ≤ r.env.massiveScaleThreshold)
    (hdoc : doc ∈ r.writes disk) (hhosts : hostNames doc ≠ []) :
    Deployable doc ↔
      ((hostNames doc).length : ℤ) < r.env.scaleThreshold ∨
        (etcdHostsCount (hostNames doc) < (hostNames doc).length ∧
          (((hostNames doc).length : ℤ) < r.env.massiveScaleThreshold ∨
            etcdHostsCount (hostNames doc) + r.env.kubeControlHosts
              < (hostNames doc).length)) := by
  obtain ⟨conflict, hassign⟩ := writes_assignment hrun hdoc
  have hnone : r.carried disk = .none := by
    rw [Run.carried, hfresh]
    rfl
  have hnd := hostList_nodup r disk
  rw [hnone] at hassign
  have hall : hostNames doc = r.hostList disk :=
    (congrArg Assignment.hosts hassign).trans (place_none_hosts hnd)
  have hgroup : ∀ role, members doc role = _ :=
    fun role => congrFun (congrArg Assignment.group hassign) role
  have hpos : 0 < (r.hostList disk).length := by
    rw [← hall]
    exact List.length_pos_of_ne_nil hhosts
  have hcount : 1 ≤ etcdHostsCount (r.hostList disk) := by
    rw [etcdHostsCount]
    split_ifs <;> omega
  rw [Deployable, hgroup, hgroup, hgroup, hall, place_none_etcd hnd,
    place_none_kubeControlPlane hnd (by omega), controlPlaneHosts_eq (by omega),
    place_none_kubeNode hnd (by omega) hmassive]
  simp only [← List.length_pos_iff]
  split_ifs <;> simp only [List.length_take, List.length_drop] <;> omega

/-- A build of one host under the default thresholds. -/
theorem deployable_oneHost :
    ∃ doc ∈ (freshRun .default (fun _ => none) ["10.1.0.1".toList]).writes none,
      Deployable doc := by
  have hdoc := Option.get_mem (show ((freshRun .default (fun _ => none)
    ["10.1.0.1".toList]).writes none).isSome by decide)
  exact ⟨_, hdoc, (deployable_iff (by decide) rfl (by decide) (by decide) hdoc
    (by decide)).mpr (Or.inl (by decide))⟩

/-- With a scale threshold of one, the only host becomes the etcd host, and there is
nothing behind it. -/
theorem deployable_fails :
    ¬ ∀ (r : Run) (disk : Disk) (doc : Document), isHostRun r.argv = true →
      r.base disk = .ok .missing → 1 ≤ r.env.kubeControlHosts → 1 ≤ r.env.scaleThreshold →
      r.env.scaleThreshold ≤ r.env.massiveScaleThreshold → doc ∈ r.writes disk →
      hostNames doc ≠ [] → Deployable doc := by
  intro h
  let r : Run := freshRun { Env.default with scaleThreshold := 1 } (fun _ => none)
    ["10.1.0.1".toList]
  have hdoc := Option.get_mem (show (r.writes none).isSome by decide)
  have hdeployable := h r none _ (by decide) rfl (by decide) (by decide) (by decide) hdoc
    (by decide)
  revert hdeployable
  decide

end Kubespray.Inventory
