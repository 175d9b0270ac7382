import Kubespray.Text

/-!
# Upgrading a Node

The roles `upgrade/pre-upgrade` and `upgrade/post-upgrade` around the roles that upgrade a
node: the node is cordoned and drained when it is ready and schedulable, or always when the
settings say so, and uncordoned at the end. A failure in the block of the drain is rescued.

One of the roles in between drains the node, too. `container-engine` depends on
`validate-container-engine`, which removes another engine than `container_manager` when it
finds one running. Before that it drains the node by `remove-node/pre-remove`, also a node
that was not ready or not schedulable, and nothing uncordons such a node again.

A host is at its next task (`UpgradeHost.next`). How a command ends and what it prints is
the answer of the cluster (`Answer`), and so is whether a drain that used up its retries is
a failure although `failed_when` says that it is none. Of a node the model keeps whether it
is unschedulable and the number of its pods that `kubectl drain` would evict. The pauses
and the roles that do not touch these two are left out. The roles between the two above are
one task, in which the drain for the engine comes first.

## Main results

* `containerEngine_cases`: what the role `container-engine` does to a node.
* `Kept.of_step`: what the tasks make of a cordon from before the upgrade.
* `DrainedFirst.of_step`, `exists_answers_undrained`: when a node is drained first.
* `rank_lt_of_step`, `UpgradeHost.Regular.exists_answers_done`: how a host comes to its end.
-/

namespace Kubespray.Upgrade

/-- The variables that the tasks read. -/
structure UpgradeSettings where
  upgradeNodeAlwaysCordon : Bool
  drainNodes : Bool
  drainPodSelector : Text
  drainFallbackEnabled : Bool
  upgradeNodeUncordonAfterDrainFailure : Bool
  upgradeNodeFailIfDrainFails : Bool
  kubeNetworkPlugin : Text
  containerManager : Text
  allowUngracefulRemoval : Bool
  anyErrorsFatal : Bool

/-- A node as the API server has it. -/
structure Node where
  /-- `.spec.unschedulable`. -/
  unschedulable : Bool
  /-- The pods on the node that `kubectl drain` evicts. -/
  pods : ℕ
  deriving DecidableEq

/-- The tasks of a host, in the order of the roles. -/
inductive UpgradeTask
  | seeReady
  | seeSchedulable
  | setNeedsCordoning
  | cordon
  | ensureVersion
  | drain
  | drainFallback
  | setBackToSchedulable
  | failAfterRescue
  | upgrade
  | waitForCilium
  | uncordon
  | done
  | failed
  deriving DecidableEq

/-- A host in the play: its next task, its node (`none` while it is not registered) and the
facts that the tasks set. -/
structure UpgradeHost where
  next : UpgradeTask
  node : Option Node
  kubectlNodeReady : Text
  kubectlNodeSchedulable : Text
  needsCordoning : Bool
  /-- Recorded for the proofs: the drain in `container-engine` has cordoned the node. -/
  cordonedForEngine : Bool
  deriving DecidableEq

/-- The container engines that `validate-container-engine` looks for. -/
inductive Engine
  | containerd
  | docker
  | crio
  deriving DecidableEq

/-- The name of an engine, as `container_manager` has it. -/
def Engine.name : Engine → Text
  | .containerd => "containerd".toList
  | .docker => "docker".toList
  | .crio => "crio".toList

/-- What `container-engine` finds on a host. -/
structure EngineFacts where
  deployContainerEngine : Bool
  isOstree : Bool
  ansibleDistribution : Text
  kubeletSystemdUnitExists : Bool
  /-- A unit file of the engine was found. -/
  installed : Engine → Bool
  /-- The service of the engine is running. -/
  running : Engine → Bool

/-- The answer of the cluster to a task. -/
structure Answer where
  /-- The command, or the role, succeeds. -/
  ok : Bool
  /-- The status of the node's condition `Ready`. -/
  stdout : Text
  /-- The pods that a failed drain leaves at most. -/
  pods : ℕ
  /-- A drain without retries left counts as failed. -/
  retriesExhausted : Bool
  /-- The facts of the host that `container-engine` asks for. -/
  engines : EngineFacts
  /-- The drain in `container-engine` succeeds. -/
  drained : Bool
  /-- It has cordoned the node when it fails. -/
  cordoned : Bool

/-- Whether a host has a node, and it is unschedulable. -/
def UpgradeHost.unschedulable (h : UpgradeHost) : Bool :=
  h.node.elim false Node.unschedulable

/-- `kubectl cordon` and `kubectl uncordon`. -/
def Node.setUnschedulable (unschedulable : Bool) (n : Node) : Node :=
  { n with unschedulable }

/-- The evictions of a drain, of which some pods are left. -/
def Node.evict (left : ℕ) (n : Node) : Node :=
  { n with pods := min n.pods left }

/-- A command on the node: its effect when it succeeds and when it fails, and the next task.
On a node that is not registered it fails. -/
def UpgradeHost.kubectl (h : UpgradeHost) (a : Answer) (effect failed : Node → Node)
    (success failure : UpgradeTask) : UpgradeHost :=
  match h.node with
  | some n =>
    if a.ok then { h with node := some (effect n), next := success }
    else { h with node := some (failed n), next := failure }
  | none => { h with next := failure }

/-- `.spec.unschedulable` as `jsonpath` prints it. -/
def Node.schedulableStdout (n : Node) : Text :=
  if n.unschedulable then "true".toList else []

/-- `See if node is in ready state`. -/
def seeReady (a : Answer) (h : UpgradeHost) : UpgradeHost :=
  { h with
    next := .seeSchedulable
    kubectlNodeReady := if a.ok ∧ h.node.isSome then a.stdout else [] }

/-- `See if node is schedulable`. -/
def seeSchedulable (a : Answer) (h : UpgradeHost) : UpgradeHost :=
  { h with
    next := .setNeedsCordoning
    kubectlNodeSchedulable := if a.ok then h.node.elim [] Node.schedulableStdout else [] }

/-- The condition of `Set if node needs cordoning`. -/
def cordoningNeeded (s : UpgradeSettings) (h : UpgradeHost) : Bool :=
  decide (h.kubectlNodeReady = "True".toList ∧ h.kubectlNodeSchedulable = []) ||
    s.upgradeNodeAlwaysCordon

/-- `Set if node needs cordoning`, and whether the block of the drain runs. -/
def setNeedsCordoning (s : UpgradeSettings) (h : UpgradeHost) : UpgradeHost :=
  { h with
    needsCordoning := cordoningNeeded s h
    next := if cordoningNeeded s h then .cordon else .upgrade }

/-- The conditions of `Uninstall containerd`, `Uninstall docker` and `Uninstall crio`. The first
one does not hold where docker, which runs on containerd, is installed. -/
def EngineFacts.uninstalls (f : EngineFacts) (containerManager : Text) (e : Engine) : Bool :=
  !(f.isOstree || f.ansibleDistribution = "Flatcar Container Linux by Kinvolk".toList ||
      f.ansibleDistribution = "Flatcar".toList) &&
    containerManager ≠ e.name && (e ≠ .containerd || !f.installed .docker) &&
    f.installed e && f.running e

/-- `container-engine` drains the node: it removes an engine, and the host has a kubelet. -/
def drainsForEngine (s : UpgradeSettings) (f : EngineFacts) : Bool :=
  f.deployContainerEngine && f.kubeletSystemdUnitExists &&
    [Engine.containerd, .docker, .crio].any (f.uninstalls s.containerManager)

/-- The role `container-engine`: `remove-node/pre-remove` drains the node, if it is registered. -/
def containerEngine (s : UpgradeSettings) (a : Answer) (h : UpgradeHost) : UpgradeHost :=
  match h.node with
  | some n =>
    if drainsForEngine s a.engines then
      if a.drained then
        { h with node := some ((n.setUnschedulable true).evict 0), cordonedForEngine := true }
      else if a.cordoned then
        { h with
          node := some ((n.setUnschedulable true).evict a.pods), cordonedForEngine := true }
      else h
    else h
  | none => h

/-- The roles that upgrade a node succeed, which they do not when its drain fails. -/
def rolesSucceed (s : UpgradeSettings) (a : Answer) (h : UpgradeHost) : Bool :=
  a.ok && (!drainsForEngine s a.engines || h.node.isNone || a.drained || s.allowUngracefulRemoval)

/-- The next task of a host, with the answer of the cluster to it. -/
def step (s : UpgradeSettings) (a : Answer) (h : UpgradeHost) : Option UpgradeHost :=
  match h.next with
  | .seeReady => some (seeReady a h)
  | .seeSchedulable => some (seeSchedulable a h)
  | .setNeedsCordoning => some (setNeedsCordoning s h)
  | .cordon =>
    some (h.kubectl a (Node.setUnschedulable true) id .ensureVersion .setBackToSchedulable)
  | .ensureVersion =>
    if s.drainNodes ∧ s.drainPodSelector ≠ [] ∧ a.ok = false then
      some { h with next := .setBackToSchedulable }
    else some { h with next := .drain }
  | .drain =>
    -- The tasks of the fallback have the condition `drain_nodes`, too.
    if s.drainNodes then
      some (h.kubectl a (fun n => (n.setUnschedulable true).evict 0) (Node.evict a.pods) .upgrade
        (if s.drainFallbackEnabled && !a.retriesExhausted then .drainFallback
          else .setBackToSchedulable))
    else some { h with next := .upgrade }
  | .drainFallback =>
    some (h.kubectl a (fun n => (n.setUnschedulable true).evict 0) (Node.evict a.pods) .upgrade
      .setBackToSchedulable)
  | .setBackToSchedulable =>
    if s.upgradeNodeUncordonAfterDrainFailure then
      some (h.kubectl a (Node.setUnschedulable false) id .failAfterRescue .failed)
    else some { h with next := .failAfterRescue }
  | .failAfterRescue =>
    some { h with next := if s.upgradeNodeFailIfDrainFails then .failed else .upgrade }
  | .upgrade =>
    some { containerEngine s a h with
      next := if rolesSucceed s a h then .waitForCilium else .failed }
  | .waitForCilium =>
    if h.needsCordoning ∧ s.kubeNetworkPlugin = "cilium".toList ∧ a.ok = false then
      some { h with next := .failed }
    else some { h with next := .uncordon }
  | .uncordon =>
    if h.needsCordoning then
      some (h.kubectl a (Node.setUnschedulable false) id .done .failed)
    else some { h with next := .done }
  | .done => none
  | .failed => none

/-- What happens to a host besides the play: its node is registered, the scheduler puts a
pod on a node that is not cordoned, pods end. -/
inductive Other : UpgradeHost → UpgradeHost → Prop
  | register (h : UpgradeHost) : h.node = none →
      Other h { h with node := some ⟨false, 0⟩ }
  | schedule (h : UpgradeHost) (n : Node) : h.node = some n → n.unschedulable = false →
      Other h { h with node := some { n with pods := n.pods + 1 } }
  | finish (h : UpgradeHost) (n : Node) (left : ℕ) : h.node = some n →
      Other h { h with node := some (n.evict left) }

variable {s : UpgradeSettings} {a : Answer} {h h' : UpgradeHost}

/-- A command succeeds on a node, or it fails. -/
theorem kubectl_cases {effect failed : Node → Node} {success failure : UpgradeTask}
    (hk : h.kubectl a effect failed success failure = h') :
    (∃ n, h.node = some n ∧ h' = { h with node := some (effect n), next := success }) ∨
      h' = { h with node := h.node.map failed, next := failure } := by
  subst hk
  cases hn : h.node with
  | none =>
      right
      simp only [UpgradeHost.kubectl, hn, Option.map_none]
  | some n =>
      cases hok : a.ok with
      | true => exact Or.inl ⟨n, rfl, by simp [UpgradeHost.kubectl, hn, hok]⟩
      | false => exact Or.inr (by simp [UpgradeHost.kubectl, hn, hok])

/-! ### Cordons from before the upgrade -/

/-- The decision about the cordon was made on these facts. -/
structure Decided (s : UpgradeSettings) (before : Bool) (h : UpgradeHost) : Prop where
  needsCordoning_eq : h.needsCordoning = cordoningNeeded s h
  of_stdout : h.kubectlNodeSchedulable ≠ [] → before = true

/-- What the tasks have done to a node that was unschedulable or not in the beginning. -/
def Kept (s : UpgradeSettings) (before : Bool) (h : UpgradeHost) : Prop :=
  match h.next with
  | .seeReady | .seeSchedulable => h.unschedulable = before ∧ h.cordonedForEngine = false
  | .setNeedsCordoning =>
    (h.unschedulable = before ∧ h.cordonedForEngine = false) ∧
      (h.kubectlNodeSchedulable ≠ [] → before = true)
  | .cordon | .ensureVersion | .drain | .drainFallback | .setBackToSchedulable
  | .failAfterRescue => Decided s before h ∧ h.needsCordoning = true
  | .upgrade | .waitForCilium | .uncordon | .failed =>
    Decided s before h ∧
      (h.needsCordoning = false → h.unschedulable = (before || h.cordonedForEngine))
  | .done =>
    Decided s before h ∧
      h.unschedulable = ((before || h.cordonedForEngine) && !h.needsCordoning)

/-- The decision does not depend on the node and the next task. -/
theorem Decided.set {before : Bool} (hd : Decided s before h) (node : Option Node)
    (next : UpgradeTask) : Decided s before { h with node, next } :=
  ⟨hd.needsCordoning_eq, hd.of_stdout⟩

/-- **What `container-engine` does to a node**: nothing, or it cordons the node and evicts
pods. -/
theorem containerEngine_cases (s : UpgradeSettings) (a : Answer) (h : UpgradeHost) :
    containerEngine s a h = h ∨
      ∃ n left, h.node = some n ∧ containerEngine s a h
        = { h with node := some ((n.setUnschedulable true).evict left), cordonedForEngine := true }
    := by
  rw [containerEngine]
  cases hn : h.node with
  | none => exact Or.inl rfl
  | some n =>
      dsimp only
      split_ifs
      · exact Or.inr ⟨n, 0, rfl, rfl⟩
      · exact Or.inr ⟨n, a.pods, rfl, rfl⟩
      · exact Or.inl rfl
      · exact Or.inl rfl

/-- After the roles the node is upgraded, or the host has failed. -/
theorem step_upgrade (hn : h.next = .upgrade) (hstep : step s a h = some h') :
    ∃ next, (next = .waitForCilium ∨ next = .failed) ∧
      (h' = { h with next } ∨
        ∃ n left, h.node = some n ∧ h' = { h with
          next, node := some ((n.setUnschedulable true).evict left)
          cordonedForEngine := true }) := by
  simp only [step, hn, Option.some.injEq] at hstep
  refine ⟨if rolesSucceed s a h then .waitForCilium else .failed, ?_, ?_⟩
  · split_ifs
    · exact Or.inl rfl
    · exact Or.inr rfl
  · obtain heq | ⟨n, left, hnode, heq⟩ := containerEngine_cases s a h
    · rw [heq] at hstep
      exact Or.inl hstep.symm
    · rw [heq] at hstep
      exact Or.inr ⟨n, left, hnode, hstep.symm⟩

/-- The tasks keep to it. -/
theorem Kept.of_step {before : Bool} (hk : Kept s before h) (hstep : step s a h = some h') :
    Kept s before h' := by
  cases hn : h.next <;> simp only [step, hn, Kept, Option.some.injEq] at hstep hk
  case seeReady =>
      subst hstep
      exact hk
  case seeSchedulable =>
      subst hstep
      refine ⟨hk, fun hne => ?_⟩
      cases hnode : h.node <;>
        simp_all [seeSchedulable, UpgradeHost.unschedulable, Node.schedulableStdout]
  case setNeedsCordoning =>
      obtain ⟨hbefore, hstdout⟩ := hk
      have hd : Decided s before (setNeedsCordoning s h) := ⟨rfl, hstdout⟩
      subst hstep
      cases hc : cordoningNeeded s h with
      | true => simpa [Kept, setNeedsCordoning, hc] using hd
      | false =>
          have hnext : (setNeedsCordoning s h).next = .upgrade := by
            simp [setNeedsCordoning, hc]
          simp only [Kept, hnext]
          refine ⟨hd, fun _ => ?_⟩
          change h.unschedulable = (before || h.cordonedForEngine)
          rw [hbefore.1, hbefore.2, Bool.or_false]
  case cordon =>
      obtain ⟨hd, hneeded⟩ := hk
      obtain ⟨n, -, rfl⟩ | rfl := kubectl_cases hstep
      · exact ⟨hd.set _ _, hneeded⟩
      · exact ⟨hd.set _ _, hneeded⟩
  case ensureVersion =>
      obtain ⟨hd, hneeded⟩ := hk
      split at hstep <;> cases hstep
      · exact ⟨hd.set _ _, hneeded⟩
      · exact ⟨hd.set _ _, hneeded⟩
  case drain =>
      obtain ⟨hd, hneeded⟩ := hk
      have hupgrade : ∀ node, Kept s before { h with node, next := .upgrade } := fun node =>
        ⟨hd.set _ _, fun hno => absurd (hneeded.symm.trans hno) (by simp)⟩
      split at hstep
      · obtain ⟨n, -, rfl⟩ | rfl := kubectl_cases (Option.some.inj hstep)
        · exact hupgrade _
        · cases s.drainFallbackEnabled && !a.retriesExhausted with
          | true => exact ⟨hd.set _ _, hneeded⟩
          | false => exact ⟨hd.set _ _, hneeded⟩
      · cases hstep
        exact hupgrade _
  case drainFallback =>
      obtain ⟨hd, hneeded⟩ := hk
      obtain ⟨n, -, rfl⟩ | rfl := kubectl_cases hstep
      · exact ⟨hd.set _ _, fun hno => absurd (hneeded.symm.trans hno) (by simp)⟩
      · exact ⟨hd.set _ _, hneeded⟩
  case setBackToSchedulable =>
      obtain ⟨hd, hneeded⟩ := hk
      split at hstep
      · obtain ⟨n, -, rfl⟩ | rfl := kubectl_cases (Option.some.inj hstep)
        · exact ⟨hd.set _ _, hneeded⟩
        · exact ⟨hd.set _ _, fun hno => absurd (hneeded.symm.trans hno) (by simp)⟩
      · cases hstep
        exact ⟨hd.set _ _, hneeded⟩
  case failAfterRescue =>
      obtain ⟨hd, hneeded⟩ := hk
      subst hstep
      split <;> exact ⟨hd.set _ _, fun hno => absurd (hneeded.symm.trans hno) (by simp)⟩
  case upgrade =>
      obtain ⟨hd, hkept⟩ := hk
      obtain ⟨next, hnext, rfl | ⟨n, left, -, rfl⟩⟩ :=
        step_upgrade hn (by simpa [step, hn] using hstep)
      · obtain rfl | rfl := hnext <;> exact ⟨⟨hd.1, hd.2⟩, hkept⟩
      · obtain rfl | rfl := hnext <;>
          exact ⟨⟨hd.1, hd.2⟩, fun _ => (Bool.or_true before).symm⟩
  case waitForCilium =>
      split at hstep <;> cases hstep
      · exact ⟨hk.1.set _ _, hk.2⟩
      · exact ⟨hk.1.set _ _, hk.2⟩
  case uncordon =>
      obtain ⟨hd, hkept⟩ := hk
      cases hneeded : h.needsCordoning with
      | true =>
          rw [if_pos hneeded] at hstep
          obtain ⟨n, -, rfl⟩ | rfl := kubectl_cases (Option.some.inj hstep)
          · exact ⟨hd.set _ _, by simp [UpgradeHost.unschedulable, Node.setUnschedulable, hneeded]⟩
          · exact ⟨hd.set _ _, fun hno => absurd (hneeded.symm.trans hno) (by simp)⟩
      | false =>
          rw [if_neg (by simp [hneeded])] at hstep
          cases hstep
          exact ⟨hd.set _ _, (hkept hneeded).trans (by simp [hneeded])⟩
  case done => cases hstep
  case failed => cases hstep

/-- What happens besides the play does not change whether a node is unschedulable. -/
theorem unschedulable_of_other (hother : Other h h') : h'.unschedulable = h.unschedulable := by
  cases hother with
  | register hn => simp [UpgradeHost.unschedulable, hn]
  | schedule n hn => simp [UpgradeHost.unschedulable, hn]
  | finish n left hn => simp [UpgradeHost.unschedulable, hn, Node.evict]

/-- What happens besides the play changes nothing but the node. -/
theorem exists_node_of_other (hother : Other h h') : ∃ node, h' = { h with node } := by
  cases hother <;> exact ⟨_, rfl⟩

/-- What happens besides the play keeps to it, too. -/
theorem Kept.of_other {before : Bool} (hk : Kept s before h) (hother : Other h h') :
    Kept s before h' := by
  have hsame := unschedulable_of_other hother
  obtain ⟨node, rfl⟩ := exists_node_of_other hother
  obtain ⟨next, old, ready, schedulable, needed⟩ := h
  cases next <;> simp only [Kept, hsame] at hk ⊢
  case seeReady | seeSchedulable | setNeedsCordoning => exact hk
  all_goals exact ⟨hk.1.set node _, hk.2⟩

/-! ### Drains -/

/-- The node is cordoned and none of its pods is left. -/
def UpgradeHost.Drained (h : UpgradeHost) : Prop :=
  ∃ n, h.node = some n ∧ n.unschedulable = true ∧ n.pods = 0

/-- The roles that upgrade the node are running, or have run and the node is not uncordoned
yet. -/
def UpgradeHost.Upgrading (h : UpgradeHost) : Prop :=
  h.next = .upgrade ∨ h.next = .waitForCilium ∨ h.next = .uncordon

instance (h : UpgradeHost) : Decidable h.Upgrading :=
  inferInstanceAs (Decidable (_ ∨ _))

/-- A node that needed cordoning is drained while it is upgraded. -/
def DrainedFirst (h : UpgradeHost) : Prop :=
  h.Upgrading → h.needsCordoning = true → h.Drained

/-- The settings that let no undrained node be upgraded. -/
def UpgradeSettings.drainsFirst (s : UpgradeSettings) : Bool :=
  s.drainNodes && s.upgradeNodeFailIfDrainFails

/-- A host that is not upgraded has nothing to show. -/
theorem drainedFirst_of_not (hno : ¬ h.Upgrading) : DrainedFirst h :=
  fun hup => absurd hup hno

/-- With these settings the tasks drain a node before they upgrade it. -/
theorem DrainedFirst.of_step (hs : s.drainsFirst = true) (hd : DrainedFirst h)
    (hstep : step s a h = some h') : DrainedFirst h' := by
  simp only [UpgradeSettings.drainsFirst, Bool.and_eq_true] at hs
  obtain ⟨hdrain, hfail⟩ := hs
  have hdrained : ∀ n : Node, UpgradeHost.Drained
      { h with node := some ((n.setUnschedulable true).evict 0), next := .upgrade } :=
    fun n => ⟨_, rfl, rfl, Nat.min_zero _⟩
  cases hn : h.next <;> simp only [step, hn, Option.some.injEq, hdrain, if_true] at hstep
  case setNeedsCordoning =>
      subst hstep
      intro hup hneeded
      cases hc : cordoningNeeded s h with
      | true => simp [UpgradeHost.Upgrading, setNeedsCordoning, hc] at hup
      | false => simp [setNeedsCordoning, hc] at hneeded
  case drain =>
      obtain ⟨n, -, rfl⟩ | rfl := kubectl_cases hstep
      · exact fun _ _ => hdrained n
      · refine drainedFirst_of_not fun hup => ?_
        cases hf : s.drainFallbackEnabled && !a.retriesExhausted <;>
          simp [UpgradeHost.Upgrading, hf] at hup
  case drainFallback =>
      obtain ⟨n, -, rfl⟩ | rfl := kubectl_cases hstep
      · exact fun _ _ => hdrained n
      · exact drainedFirst_of_not (by simp [UpgradeHost.Upgrading])
  case upgrade =>
      obtain ⟨next, -, rfl | ⟨n, left, hnode, rfl⟩⟩ :=
        step_upgrade hn (by simpa [step, hn] using hstep)
      · exact fun _ hneeded => hd (Or.inl hn) hneeded
      · -- A second drain of a drained node leaves it drained.
        intro _ hneeded
        obtain ⟨m, hm, -, hpods⟩ := hd (Or.inl hn) hneeded
        obtain rfl : n = m := Option.some.inj (hnode.symm.trans hm)
        exact ⟨_, rfl, rfl, by simp [Node.evict, Node.setUnschedulable, hpods]⟩
  case waitForCilium =>
      split at hstep <;> cases hstep
      · exact fun _ hneeded => hd (Or.inr (Or.inl hn)) hneeded
      · exact fun _ hneeded => hd (Or.inr (Or.inl hn)) hneeded
  case seeReady | seeSchedulable | failAfterRescue =>
      subst hstep
      exact drainedFirst_of_not (by simp [UpgradeHost.Upgrading, seeReady, seeSchedulable, hfail])
  case cordon =>
      obtain ⟨n, -, rfl⟩ | rfl := kubectl_cases hstep
      · exact drainedFirst_of_not (by simp [UpgradeHost.Upgrading])
      · exact drainedFirst_of_not (by simp [UpgradeHost.Upgrading])
  case ensureVersion =>
      split at hstep <;> cases hstep <;>
        exact drainedFirst_of_not (by simp [UpgradeHost.Upgrading])
  case setBackToSchedulable | uncordon =>
      split at hstep
      · obtain ⟨n, -, rfl⟩ | rfl := kubectl_cases (Option.some.inj hstep)
        · exact drainedFirst_of_not (by simp [UpgradeHost.Upgrading])
        · exact drainedFirst_of_not (by simp [UpgradeHost.Upgrading])
      · cases hstep
        exact drainedFirst_of_not (by simp [UpgradeHost.Upgrading])
  case done | failed => cases hstep

/-- Nothing that happens besides the play fills a drained node again. -/
theorem DrainedFirst.of_other (hd : DrainedFirst h) (hother : Other h h') : DrainedFirst h' := by
  obtain ⟨node, heq⟩ := exists_node_of_other hother
  subst heq
  intro hup hneeded
  obtain ⟨n, hn, hun, hpods⟩ := hd hup hneeded
  cases hother with
  | register hnone => rw [hnone] at hn; cases hn
  | schedule m hm hfree => rw [hm] at hn; cases hn; rw [hun] at hfree; cases hfree
  | finish m left hm => rw [hm] at hn; cases hn; exact ⟨_, rfl, hun, by simp [Node.evict, hpods]⟩

/-! ### The way through the tasks -/

/-- The tasks that may be left. -/
def UpgradeTask.rank : UpgradeTask → ℕ
  | .seeReady => 12
  | .seeSchedulable => 11
  | .setNeedsCordoning => 10
  | .cordon => 9
  | .ensureVersion => 8
  | .drain => 7
  | .drainFallback => 6
  | .setBackToSchedulable => 5
  | .failAfterRescue => 4
  | .upgrade => 3
  | .waitForCilium => 2
  | .uncordon => 1
  | .done | .failed => 0

/-- A command goes on to one of two tasks. -/
theorem next_kubectl (h : UpgradeHost) (a : Answer) (effect failed : Node → Node)
    (success failure : UpgradeTask) :
    (h.kubectl a effect failed success failure).next = success ∨
      (h.kubectl a effect failed success failure).next = failure := by
  obtain ⟨n, -, heq⟩ | heq := kubectl_cases (rfl : h.kubectl a effect failed success failure = _)
  · exact Or.inl (by rw [heq])
  · exact Or.inr (by rw [heq])

/-- Every task leaves fewer. -/
theorem rank_lt_of_step (hstep : step s a h = some h') : h'.next.rank < h.next.rank := by
  have hcommand : ∀ {effect failed : Node → Node} {success failure : UpgradeTask},
      h.kubectl a effect failed success failure = h' →
      h'.next.rank ≤ max success.rank failure.rank := by
    intro effect failed success failure heq
    subst heq
    obtain hn | hn := next_kubectl h a effect failed success failure <;> rw [hn]
    · exact le_max_left _ _
    · exact le_max_right _ _
  cases hn : h.next <;> simp only [step, hn, Option.some.injEq] at hstep
  case cordon | drainFallback => exact (hcommand hstep).trans_lt (by decide)
  case drain =>
      split at hstep
      · refine (hcommand (Option.some.inj hstep)).trans_lt ?_
        cases s.drainFallbackEnabled && !a.retriesExhausted <;> decide
      · cases hstep
        simp [UpgradeTask.rank]
  case setBackToSchedulable | uncordon =>
      split at hstep
      · exact (hcommand (Option.some.inj hstep)).trans_lt (by decide)
      · cases hstep
        simp [UpgradeTask.rank]
  case ensureVersion | waitForCilium =>
      split at hstep <;> cases hstep <;> simp [UpgradeTask.rank]
  case seeReady | seeSchedulable =>
      subst hstep
      simp [seeReady, seeSchedulable, UpgradeTask.rank]
  case setNeedsCordoning =>
      subst hstep
      cases hc : cordoningNeeded s h <;> simp [setNeedsCordoning, hc, UpgradeTask.rank]
  case failAfterRescue | upgrade =>
      subst hstep
      split <;> simp [UpgradeTask.rank]
  case done | failed => cases hstep

/-- A host that is neither done nor failed has a task to run. -/
theorem exists_step (s : UpgradeSettings) (a : Answer) (hdone : h.next ≠ .done)
    (hfailed : h.next ≠ .failed) : ∃ h', step s a h = some h' := by
  cases hn : h.next <;> simp only [step, hn] <;> first | contradiction | split | skip
  all_goals exact ⟨_, rfl⟩

/-- The tasks of a host with the answers to them, one after the other. -/
def runAnswers (s : UpgradeSettings) (answers : List Answer) (h : UpgradeHost) :
    Option UpgradeHost :=
  answers.foldlM (fun h a => step s a h) h

/-- The answers to some tasks and to those behind them. -/
theorem runAnswers_append (s : UpgradeSettings) (answers more : List Answer) (h : UpgradeHost) :
    runAnswers s (answers ++ more) h = (runAnswers s answers h).bind (runAnswers s more) := by
  rw [runAnswers, List.foldlM_append]
  rfl

/-- The answer to one task. -/
theorem runAnswers_singleton (s : UpgradeSettings) (a : Answer) (h : UpgradeHost) :
    runAnswers s [a] h = step s a h := by
  simp [runAnswers]

/-- A host of the cluster on which no other engine runs. -/
def EngineFacts.unchanged : EngineFacts where
  deployContainerEngine := true
  isOstree := false
  ansibleDistribution := "Ubuntu".toList
  kubeletSystemdUnitExists := true
  installed := fun _ => false
  running := fun _ => false

/-- The cluster does what it is asked to do. -/
def Answer.success : Answer where
  ok := true
  stdout := "True".toList
  pods := 0
  retriesExhausted := true
  engines := .unchanged
  drained := true
  cordoned := true

/-- The command does not succeed, and no more than these pods are left. -/
def Answer.failure (pods : ℕ) : Answer where
  ok := false
  stdout := []
  pods := pods
  retriesExhausted := true
  engines := .unchanged
  drained := false
  cordoned := false

/-- Without another engine there is nothing to drain for. -/
theorem drainsForEngine_unchanged (s : UpgradeSettings) :
    drainsForEngine s .unchanged = false := by
  simp [drainsForEngine, EngineFacts.uninstalls, EngineFacts.unchanged]

/-- Then the role leaves the node alone. -/
theorem containerEngine_success (s : UpgradeSettings) (h : UpgradeHost) :
    containerEngine s Answer.success h = h := by
  cases hn : h.node <;>
    simp [containerEngine, hn, Answer.success, drainsForEngine_unchanged]

/-- A host in the beginning. -/
def UpgradeHost.initial (node : Option Node) : UpgradeHost where
  next := .seeReady
  node := node
  kubectlNodeReady := []
  kubectlNodeSchedulable := []
  needsCordoning := false
  cordonedForEngine := false

/-- A host whose node is registered, before its next task and without a failure so far. -/
structure UpgradeHost.Regular (h : UpgradeHost) : Prop where
  registered : ∃ n, h.node = some n
  next_ne_setBackToSchedulable : h.next ≠ .setBackToSchedulable
  next_ne_failAfterRescue : h.next ≠ .failAfterRescue
  next_ne_failed : h.next ≠ .failed

/-- In the beginning nothing has failed. -/
theorem regular_initial (n : Node) : (UpgradeHost.initial (some n)).Regular :=
  ⟨⟨n, rfl⟩, UpgradeTask.noConfusion, UpgradeTask.noConfusion, UpgradeTask.noConfusion⟩

/-- A command succeeds on a registered node. -/
theorem kubectl_success {n : Node} (hn : h.node = some n) (effect failed : Node → Node)
    (success failure : UpgradeTask) :
    h.kubectl Answer.success effect failed success failure
      = { h with node := some (effect n), next := success } := by
  simp [UpgradeHost.kubectl, hn, Answer.success]

/-- A task that succeeds goes on regularly. -/
theorem UpgradeHost.Regular.of_step (hr : h.Regular) (hstep : step s Answer.success h = some h') :
    h'.Regular := by
  obtain ⟨⟨n, hnode⟩, hset, hfail, hfailed⟩ := hr
  cases hn : h.next <;>
    simp only [step, hn, Option.some.injEq, kubectl_success hnode] at hstep hset hfail hfailed
  case setBackToSchedulable | failAfterRescue | failed => contradiction
  case done => cases hstep
  case setNeedsCordoning =>
      subst hstep
      cases hc : cordoningNeeded s h <;> constructor <;> simp [setNeedsCordoning, hc, hnode]
  case seeReady | seeSchedulable | cordon | drainFallback =>
      subst hstep
      constructor <;> simp [seeReady, seeSchedulable, hnode, Answer.success]
  case upgrade =>
      have hroles : rolesSucceed s Answer.success h = true := by
        simp [rolesSucceed, Answer.success]
      rw [containerEngine_success, if_pos hroles] at hstep
      subst hstep
      constructor <;> simp [hnode]
  case ensureVersion | waitForCilium =>
      rw [if_neg (by simp [Answer.success])] at hstep
      cases hstep
      constructor <;> simp [hnode]
  case drain | uncordon =>
      split at hstep <;> cases hstep <;> constructor <;> simp [hnode]

/-- **A registered node can be upgraded**: every command may succeed. -/
theorem UpgradeHost.Regular.exists_answers_done (hr : h.Regular) :
    ∃ answers h', runAnswers s answers h = some h' ∧ h'.next = .done := by
  induction hrank : h.next.rank using Nat.strongRecOn generalizing h with
  | _ rank ih =>
      by_cases hdone : h.next = .done
      · exact ⟨[], h, rfl, hdone⟩
      · obtain ⟨h₁, hstep⟩ := exists_step s Answer.success hdone hr.next_ne_failed
        obtain ⟨answers, h', hrun, hend⟩ :=
          ih _ (hrank ▸ rank_lt_of_step hstep) (hr.of_step hstep) rfl
        refine ⟨Answer.success :: answers, h', ?_, hend⟩
        rw [runAnswers, List.foldlM_cons, hstep]
        exact hrun

/-- A schedulable node comes to the drain. -/
theorem runAnswers_drain (s : UpgradeSettings) (pods : ℕ) :
    runAnswers s (List.replicate 5 Answer.success) (.initial (some ⟨false, pods⟩))
      = some ⟨.drain, some ⟨true, pods⟩, "True".toList, [], true, false⟩ := by
  have hcordoned : runAnswers s (List.replicate 4 Answer.success) (.initial (some ⟨false, pods⟩))
      = some ⟨.ensureVersion, some ⟨true, pods⟩, "True".toList, [], true, false⟩ := rfl
  have hversion : runAnswers s [Answer.success]
      ⟨.ensureVersion, some ⟨true, pods⟩, "True".toList, [], true, false⟩
      = some ⟨.drain, some ⟨true, pods⟩, "True".toList, [], true, false⟩ :=
    (runAnswers_singleton s _ _).trans (if_neg fun h => Bool.noConfusion h.2.2)
  rw [List.replicate_succ', runAnswers_append, hcordoned]
  exact hversion

/-- **Other settings let an undrained node be upgraded**: without the drain, or when a failed
drain is not an error. -/
theorem exists_answers_undrained (hs : s.drainsFirst = false) (pods : ℕ) :
    ∃ answers h', runAnswers s answers (.initial (some ⟨false, pods + 1⟩)) = some h' ∧
      ¬ DrainedFirst h' := by
  suffices hdrain : ∃ answers unschedulable left, runAnswers s answers
      ⟨.drain, some ⟨true, pods + 1⟩, "True".toList, [], true, false⟩
        = some ⟨.upgrade, some ⟨unschedulable, left⟩, "True".toList, [], true, false⟩ ∧ left ≠ 0 by
    obtain ⟨answers, unschedulable, left, hrun, hleft⟩ := hdrain
    have hall : runAnswers s (List.replicate 5 Answer.success ++ answers)
        (.initial (some ⟨false, pods + 1⟩))
          = some ⟨.upgrade, some ⟨unschedulable, left⟩, "True".toList, [], true, false⟩ := by
      rw [runAnswers_append, runAnswers_drain]
      exact hrun
    refine ⟨_, _, hall, fun hd => ?_⟩
    obtain ⟨n, hn, -, hpods⟩ := hd (Or.inl rfl) rfl
    cases hn
    exact hleft hpods
  obtain ⟨always, drain, selector, fallback, uncordon, fail, plugin, manager, ungraceful, fatal⟩ :=
    s
  cases drain with
  | false => exact ⟨[Answer.success], true, pods + 1, rfl, Nat.succ_ne_zero pods⟩
  | true =>
      obtain rfl : fail = false := by simpa [UpgradeSettings.drainsFirst] using hs
      -- The drain fails and leaves all pods, and the rescue goes on.
      refine ⟨[Answer.failure (pods + 1), Answer.success, Answer.success], !uncordon,
        min (pods + 1) (pods + 1), ?_, by simp⟩
      cases uncordon <;> cases fallback <;> rfl

end Kubespray.Upgrade
