import Kubespray.Inventory.Config
import Mathlib.Logic.Function.Basic

/-!
# Role Assignments

What a written inventory says about roles, apart from how its YAML is nested: the hosts
of `all` and, for each role group, its members, both in order. This is the abstract
state of the inventory builder. A run acts on it by `place`, given the host list it has
worked out: forget the hosts that are gone (unless their names are protected), then add
hosts to the groups.

`place` adds and never moves: what a group held before is still there when the host is.
Every property of the builder over whole histories comes down to how the members carried
over fit the members added, so the equations of this module separate the two.

## Main results

* `place_etcd`, `place_kubeControlPlane`, `place_kubeNode`, `place_calicoRr`,
  `place_hosts`: each group after a run, as carried-over members and added ones.
-/

namespace Kubespray.Inventory

open OrderedDict

/-- A Python slice bound on a sequence of length `n`: negative bounds count from the end,
and every bound is clipped to the sequence. -/
def sliceBound (n : ℕ) (i : ℤ) : ℕ :=
  if i < 0 then (i + n).toNat else min i.toNat n

/-- `xs[start:stop]`. -/
def slice {α : Type} (xs : List α) (start stop : ℤ) : List α :=
  (xs.take (sliceBound xs.length stop)).drop (sliceBound xs.length start)

/-- A slice takes its elements from the sequence. -/
theorem mem_of_mem_slice {α : Type} {xs : List α} {start stop : ℤ} {x : α}
    (h : x ∈ slice xs start stop) : x ∈ xs :=
  List.mem_of_mem_take (List.mem_of_mem_drop h)

/-- A slice that starts at `c` has nothing from the first `c` elements of a sequence
without repetitions. -/
theorem notMem_take_of_mem_slice {α : Type} {xs : List α} (hnd : xs.Nodup) {c : ℕ} {stop : ℤ}
    {x : α} (h : x ∈ slice xs c stop) : x ∉ xs.take c := by
  intro htake
  have hbound : sliceBound xs.length (c : ℤ) = min c xs.length := by simp [sliceBound]
  have hdrop : x ∈ xs.drop c := by
    have hmem : x ∈ (xs.take (sliceBound xs.length stop)).drop (min c xs.length) := by
      rw [← hbound]
      exact h
    rw [List.drop_take] at hmem
    have hsuffix := List.mem_of_mem_take hmem
    rcases Nat.le_total c xs.length with hle | hle
    · rwa [min_eq_left hle] at hsuffix
    · rw [min_eq_right hle, List.drop_length] at hsuffix
      cases hsuffix
  have hdisj := List.disjoint_take_drop hnd (le_refl c)
  exact hdisj htake hdrop

/-- The hosts of `all` and the members of each role group. -/
structure Assignment where
  hosts : List Text
  group : Text → List Text

/-- The assignment a document states. -/
def assignment (doc : Document) : Assignment :=
  { hosts := hostNames doc, group := members doc }

/-- The assignment a configuration states. -/
def Config.assignment (cfg : Config) : Assignment :=
  { hosts := cfg.hostNames, group := cfg.members }

@[simp] theorem assignment_toDocument (cfg : Config) :
    Inventory.assignment cfg.toDocument = cfg.assignment := rfl

namespace Assignment

/-- No hosts and no members. -/
def none : Assignment :=
  { hosts := [], group := fun _ => [] }

/-- Forget the hosts that fail a test; `k8s_cluster` is passed over. -/
def purge (keep : Text → Bool) (a : Assignment) : Assignment :=
  { hosts := a.hosts.filter keep
    group := fun role =>
      if role = k8sCluster then a.group role else (a.group role).filter keep }

/-- Add hosts to `all`. -/
def addHosts (hs : List Text) (a : Assignment) : Assignment :=
  { a with hosts := addKeys a.hosts hs }

/-- Add hosts to a role group. -/
def assign (role : Text) (hs : List Text) (a : Assignment) : Assignment :=
  { a with group := Function.update a.group role (addKeys (a.group role) hs) }

/-- `k8s_cluster` lists groups and no hosts. -/
def clearCluster (a : Assignment) : Assignment :=
  { a with group := Function.update a.group k8sCluster [] }

/-- The group that hosts are added to. -/
@[simp] theorem assign_group_self (role : Text) (hs : List Text) (a : Assignment) :
    (a.assign role hs).group role = addKeys (a.group role) hs :=
  Function.update_self ..

/-- Any other group. -/
theorem assign_group_of_ne {role other : Text} (h : other ≠ role) (hs : List Text)
    (a : Assignment) : (a.assign role hs).group other = a.group other :=
  Function.update_of_ne h ..

end Assignment

/-! ### The placement of one run -/

variable (env : Env)

/-- `etcd_hosts_count`. -/
def etcdHostsCount (hosts : List Text) : ℕ :=
  if 3 ≤ hosts.length then 3 else 1

/-- The hosts a run puts into `kube_control_plane`. -/
def controlPlaneHosts (hosts : List Text) : List Text :=
  if env.scaleThreshold ≤ hosts.length then
    slice hosts (etcdHostsCount hosts) (etcdHostsCount hosts + env.kubeControlHosts)
  else
    slice hosts 0 env.kubeControlHosts

/-- The scale rules keep a host out of `kube_node`. -/
def excluded (a : Assignment) (host : Text) : Bool :=
  (env.scaleThreshold ≤ a.hosts.length ∧ host ∈ a.group etcd) ∨
    (env.massiveScaleThreshold ≤ a.hosts.length ∧ host ∈ a.group kubeControlPlane)

/-- The hosts a run puts into `calico_rr`, given its test for conflicts. -/
def calicoHosts (conflict : Text → Bool) (hosts : List Text) : List Text :=
  if env.scaleThreshold ≤ hosts.length then
    (hosts.take (etcdHostsCount hosts)).filter fun h => !conflict h
  else
    []

/-- A host stays when it is in the host list or has a protected name. -/
def kept (hosts : List Text) (host : Text) : Bool :=
  host ∈ hosts ∨ host ∈ protectedNames

/-- What a run makes of an assignment, given its host list. -/
def place (conflict : Text → Bool) (hosts : List Text) (a : Assignment) : Assignment :=
  let a := ((a.purge (kept hosts)).addHosts hosts).clearCluster
  let a := a.assign etcd (hosts.take (etcdHostsCount hosts))
  let a := a.assign kubeControlPlane (controlPlaneHosts env hosts)
  let a := a.assign kubeNode (hosts.filter fun h => !excluded env a h)
  a.assign calicoRr (calicoHosts env conflict hosts)

variable {env} {conflict : Text → Bool} {hosts : List Text} {a : Assignment}

/-- The hosts of `all` after a run. -/
@[simp] theorem place_hosts :
    (place env conflict hosts a).hosts = addKeys (a.hosts.filter (kept hosts)) hosts := rfl

/-- The etcd group after a run: the members carried over and the first one or three hosts. -/
theorem place_etcd :
    (place env conflict hosts a).group etcd
      = addKeys ((a.group etcd).filter (kept hosts)) (hosts.take (etcdHostsCount hosts)) := by
  rw [place, Assignment.assign_group_of_ne (by decide), Assignment.assign_group_of_ne (by decide),
    Assignment.assign_group_of_ne (by decide), Assignment.assign_group_self]
  rfl

/-- The control plane after a run: the members carried over and the chosen slice. -/
theorem place_kubeControlPlane :
    (place env conflict hosts a).group kubeControlPlane
      = addKeys ((a.group kubeControlPlane).filter (kept hosts)) (controlPlaneHosts env hosts) := by
  rw [place, Assignment.assign_group_of_ne (by decide), Assignment.assign_group_of_ne (by decide),
    Assignment.assign_group_self, Assignment.assign_group_of_ne (by decide)]
  rfl

/-- The nodes after a run: the members carried over and the hosts that the scale rules,
applied to the groups as they are after the run, do not exclude. -/
theorem place_kubeNode :
    (place env conflict hosts a).group kubeNode
      = addKeys ((a.group kubeNode).filter (kept hosts))
          (hosts.filter fun h => !excluded env (place env conflict hosts a) h) := by
  have hexcl : ∀ h, excluded env (place env conflict hosts a) h
      = excluded env (((((a.purge (kept hosts)).addHosts hosts).clearCluster).assign etcd
          (hosts.take (etcdHostsCount hosts))).assign kubeControlPlane
            (controlPlaneHosts env hosts)) h := by
    intro h
    unfold excluded
    rw [place_etcd, place_kubeControlPlane,
      Assignment.assign_group_of_ne (show etcd ≠ kubeControlPlane by decide),
      Assignment.assign_group_self, Assignment.assign_group_self,
      Assignment.assign_group_of_ne (show kubeControlPlane ≠ etcd by decide)]
    rfl
  rw [List.filter_congr fun h _ => congrArg Bool.not (hexcl h)]
  rw [place, Assignment.assign_group_of_ne (by decide), Assignment.assign_group_self,
    Assignment.assign_group_of_ne (by decide), Assignment.assign_group_of_ne (by decide)]
  rfl

/-- The route reflectors after a run. -/
theorem place_calicoRr :
    (place env conflict hosts a).group calicoRr
      = addKeys ((a.group calicoRr).filter (kept hosts)) (calicoHosts env conflict hosts) := by
  rw [place, Assignment.assign_group_self, Assignment.assign_group_of_ne (by decide),
    Assignment.assign_group_of_ne (by decide), Assignment.assign_group_of_ne (by decide)]
  rfl

end Kubespray.Inventory
