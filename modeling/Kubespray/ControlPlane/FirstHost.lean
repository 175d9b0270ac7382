import Kubespray.Library.Plays
import Kubespray.Text

/-!
# The First Control Plane Host

`define-first-kube-control.yml` chooses the host on which `kubeadm init` may run: a host
that has joined the cluster already, or the first host of the group when there is none.
Every host asks the cluster by itself, but the answer is read by a `run_once` task, which
looks at the first host of the group only.

## Main results

* `firstKubeControlPlane_eq`: what every host chooses, as a function of the answer that the
  first host of the group got.
* `neverASecondCluster_iff`: the choice is a joined host, and `kubeadm init` runs on no
  other host, exactly when the first host of the group has joined.
-/

namespace Kubespray.ControlPlane

open Plays

/-- The facts of a control plane host that the tasks read and set. -/
structure NodeFacts where
  /-- `kube_control_planes_raw`: the node names in the answer of `kubectl get nodes`, or
  `none` when the command failed. -/
  kubeControlPlanesRaw : Option (List Text)
  joinedControlPlanes : Option (List Text)
  firstKubeControlPlane : Option Text

/-- The facts before the tasks. -/
def NodeFacts.initial : NodeFacts :=
  { kubeControlPlanesRaw := none, joinedControlPlanes := none, firstKubeControlPlane := none }

/-- The group `kube_control_plane` and its hosts that have joined the cluster already;
there is at least one. -/
structure ControlGroup where
  group : List Text
  joined : List Text
  joined_subset : ∀ h ∈ joined, h ∈ group
  joined_ne_nil : joined ≠ []
  /-- The control plane nodes in the order in which `kubectl` lists them. -/
  listing : List Text
  /-- They are listed under their inventory names. -/
  mem_listing : ∀ h, h ∈ listing ↔ h ∈ joined
  /-- `kubeadm_already_run.stat.exists`. -/
  kubeadmAlreadyRun : Text → Bool

namespace ControlGroup

variable (c : ControlGroup)

/-- `kubectl get nodes`, which succeeds on the joined hosts. -/
def kubectlGetNodes (host : Text) : Option (List Text) :=
  if host ∈ c.joined then some c.listing else none

/-- `Check which kube-control nodes are already members of the cluster`. -/
def checkMembers (host : Text) (f : NodeFacts) : NodeFacts :=
  { f with kubeControlPlanesRaw := c.kubectlGetNodes host }

/-- `Set fact joined_control_panes`: skipped where the command failed. -/
def readJoined (_host : Text) (f : NodeFacts) : Option (List Text) :=
  f.kubeControlPlanesRaw

/-- `Set fact first_kube_control_plane`:
`joined_control_planes|default([]) | first | default(groups['kube_control_plane']|first)`. -/
def chooseFirst (_host : Text) (f : NodeFacts) : NodeFacts :=
  { f with firstKubeControlPlane :=
      (f.joinedControlPlanes.getD []).head?.or c.group.head? }

/-- The facts after `define-first-kube-control.yml`. -/
def facts : Text → NodeFacts :=
  let checked := each c.group c.checkMembers fun _ => NodeFacts.initial
  let read := once c.group readJoined
    (fun names f => { f with joinedControlPlanes := some names }) checked
  each c.group c.chooseFirst read

/-- The condition of `kubeadm | Initialize first master`. -/
def runsKubeadmInit (host : Text) : Bool :=
  (c.facts host).firstKubeControlPlane = some host && !c.kubeadmAlreadyRun host

/-- All hosts agree on a first control plane host, which has joined, and `kubeadm init`
runs on joined hosts only. -/
structure NeverASecondCluster : Prop where
  agreed : ∃ first ∈ c.joined, ∀ h ∈ c.group,
    (c.facts h).firstKubeControlPlane = some first
  init : ∀ h ∈ c.group, c.runsKubeadmInit h = true → h ∈ c.joined

variable {c} {first : Text} {rest : List Text}

/-- **What every host chooses**: the first node in the answer that the first host of the
group got, or that host itself. -/
theorem firstKubeControlPlane_eq (hgroup : c.group = first :: rest) {h : Text}
    (hmem : h ∈ c.group) : (c.facts h).firstKubeControlPlane
      = ((c.kubectlGetNodes first).getD []).head?.or (some first) := by
  have hin : first ∈ c.group := by
    rw [hgroup]
    exact List.mem_cons_self
  have hasked : ∀ g ∈ c.group, each c.group c.checkMembers (fun _ => NodeFacts.initial) g
      = c.checkMembers g NodeFacts.initial := fun g hg => each_of_mem hg
  have hanswer : readJoined first
      (each c.group c.checkMembers (fun _ => NodeFacts.initial) first)
        = c.kubectlGetNodes first := by
    rw [hasked first hin]
    rfl
  rw [facts, each_of_mem hmem, chooseFirst]
  cases hnodes : c.kubectlGetNodes first with
  | none =>
      rw [hnodes, hgroup] at hanswer
      rw [hgroup, once_of_skip hanswer, ← hgroup, hasked h hmem, hgroup]
      rfl
  | some names =>
      rw [hnodes, hgroup] at hanswer
      rw [hgroup] at hmem ⊢
      rw [once_of_run hanswer hmem]
      rfl

/-- When the first host of the group has joined, every host chooses the node listed
first. -/
theorem firstKubeControlPlane_joined (hgroup : c.group = first :: rest)
    (hfirst : first ∈ c.joined) {h : Text} (hmem : h ∈ c.group) :
    (c.facts h).firstKubeControlPlane = c.listing.head? := by
  have hnodes : c.kubectlGetNodes first = some c.listing := if_pos hfirst
  have hne : c.listing ≠ [] := List.ne_nil_of_mem ((c.mem_listing first).mpr hfirst)
  rw [firstKubeControlPlane_eq hgroup hmem, hnodes, Option.getD_some]
  cases hlisting : c.listing with
  | nil => exact absurd hlisting hne
  | cons name names => rfl

/-- When the first host of the group has not joined, every host chooses it. -/
theorem firstKubeControlPlane_notJoined (hgroup : c.group = first :: rest)
    (hfirst : first ∉ c.joined) {h : Text} (hmem : h ∈ c.group) :
    (c.facts h).firstKubeControlPlane = some first := by
  have hnodes : c.kubectlGetNodes first = none := if_neg hfirst
  rw [firstKubeControlPlane_eq hgroup hmem, hnodes]
  rfl

/-- **Never a second cluster.** The hosts agree on a joined host, and `kubeadm init` runs
on joined hosts only, exactly when the first host of the group has joined. -/
theorem neverASecondCluster_iff (c : ControlGroup) :
    c.NeverASecondCluster ↔ ∀ first ∈ c.group.head?, first ∈ c.joined := by
  cases hgroup : c.group with
  | nil =>
      obtain ⟨h, hh⟩ := List.exists_mem_of_ne_nil _ c.joined_ne_nil
      have hmem := c.joined_subset h hh
      rw [hgroup] at hmem
      cases hmem
  | cons first rest =>
      have hin : first ∈ c.group := by rw [hgroup]; exact List.mem_cons_self
      constructor
      · rintro ⟨⟨chosen, hchosen, hagreed⟩, -⟩ first' hfirst'
        obtain rfl : first = first' := Option.some.inj hfirst'
        by_contra hnot
        have hfirst := hagreed first hin
        rw [firstKubeControlPlane_notJoined hgroup hnot hin] at hfirst
        obtain rfl : first = chosen := Option.some.inj hfirst
        exact hnot hchosen
      · intro h
        have hfirst : first ∈ c.joined := h first rfl
        obtain ⟨chosen, hhead⟩ : ∃ chosen, c.listing.head? = some chosen :=
          Option.ne_none_iff_exists'.mp fun hnone =>
            List.ne_nil_of_mem ((c.mem_listing first).mpr hfirst)
              (List.head?_eq_none_iff.mp hnone)
        have hchosen : chosen ∈ c.joined :=
          (c.mem_listing chosen).mp (List.mem_of_mem_head? hhead)
        refine ⟨⟨chosen, hchosen, fun g hg => ?_⟩, fun g hg hinit => ?_⟩
        · rw [firstKubeControlPlane_joined hgroup hfirst hg, hhead]
        · have hself := of_decide_eq_true ((Bool.and_eq_true _ _).mp hinit).1
          rw [firstKubeControlPlane_joined hgroup hfirst hg, hhead] at hself
          rwa [← Option.some.inj hself]

/-- A new host is listed before the old one, which has joined: `kubeadm init` runs on the
new host. -/
theorem neverASecondCluster_fails : ¬ ∀ c : ControlGroup, c.NeverASecondCluster := by
  intro h
  have hinit := (h
    { group := ["new".toList, "old".toList], joined := ["old".toList]
      joined_subset := by decide, joined_ne_nil := by decide
      listing := ["old".toList], mem_listing := fun _ => Iff.rfl
      kubeadmAlreadyRun := fun host => host = "old".toList }).init
  exact absurd (hinit "new".toList (by decide)) (by decide)

end ControlGroup

end Kubespray.ControlPlane
