import Kubespray.Upgrade.Rollout

/-!
# Versions During an Upgrade

A kubelet must not be newer than the API servers it may talk to, which is why
`upgrade-cluster.yml` upgrades the control plane before the workers. Here the hosts of the plays
also have the versions that run on them. The roles of a host are more than one step then: the
kubelet is restarted by the role `kubernetes/node`, the API server by `kubeadm upgrade apply`
afterwards, which may take its upgrade back when it fails.

An upgrade can stop anywhere, and is followed by others, to the same version or to newer ones,
each with the hosts that `--limit` and earlier failures leave it. The task that runs `kubeadm
upgrade apply` does not fail when the command says that a field is immutable. Versions are
numbers in the order of the releases.

## Main results

* `run_tasks`: what is shown of the upgrade without the versions holds with them.
* `kubelet_le_apiserver`: no kubelet of a worker is ever newer than an API server.
* `ahead_upgrading`: the one kubelet of the control plane that can be newer than its own API
  server.
-/

namespace Kubespray.Upgrade

open Rolling

/-- What runs on a host: the API server on the hosts of the control plane. -/
structure Versions where
  kubelet : ℕ
  apiserver : ℕ

/-- A host of the plays, with the versions now and at the begin of the upgrade. -/
structure VersionedHost where
  tasks : UpgradeHost
  now : Versions
  before : Versions

/-- The tasks of a host, which is one of the control plane or not, and where a failure of
`kubeadm upgrade apply` may be tolerated or not. -/
inductive VersionedTask (s : UpgradeSettings) (kubeVersion : ℕ) (master tolerated : Prop) :
    VersionedHost → VersionedHost → Prop
  /-- The handlers of `kubernetes/node` restart the kubelet. -/
  | restartKubelet (v : VersionedHost) : v.tasks.next = .upgrade →
      VersionedTask s kubeVersion master tolerated v
        { v with now := { v.now with kubelet := kubeVersion } }
  /-- `kubeadm upgrade apply` has changed the manifest of the API server. -/
  | upgradeApiserver (v : VersionedHost) : master → v.tasks.next = .upgrade →
      VersionedTask s kubeVersion master tolerated v
        { v with now := { v.now with apiserver := kubeVersion } }
  /-- It takes the change back when the API server does not come up. -/
  | rollBack (v : VersionedHost) : master → v.tasks.next = .upgrade →
      VersionedTask s kubeVersion master tolerated v
        { v with now := { v.now with apiserver := v.before.apiserver } }
  /-- A task, and the end of the roles: on the control plane they only succeed when the API server
  is upgraded, or a failure is tolerated. -/
  | task (v : VersionedHost) (a : Answer) (tasks : UpgradeHost) : step s a v.tasks = some tasks →
      (v.tasks.next = .upgrade → tasks.next ≠ .failed → master →
        v.now.apiserver = kubeVersion ∨ tolerated) →
      VersionedTask s kubeVersion master tolerated v { v with tasks }

/-- The plays, where some hosts are the control plane, and on some a failure of `kubeadm upgrade
apply` may be tolerated. -/
def versionedPlay (s : UpgradeSettings) (kubeVersion : ℕ) (masters : List Text)
    (tolerated : Text → Prop) : Play Text VersionedHost where
  task h v v' := VersionedTask s kubeVersion (h ∈ masters) (tolerated h) v v'
  other _ v v' := ∃ tasks, Other v.tasks tasks ∧ v' = { v with tasks }
  advance batch host := (play s).advance batch fun h => (host h).tasks

/-- The upgrade before the first task. -/
def UpgradePlan.beginFrom (p : UpgradePlan) (nodes : Text → Option Node)
    (versions : Text → Versions) : State Text VersionedHost :=
  start p.first p.batches fun h =>
    { tasks := .initial (nodes h), now := versions h, before := versions h }

variable {s : UpgradeSettings} {p : UpgradePlan} {nodes : Text → Option Node}
  {versions : Text → Versions} {kubeVersion n : ℕ} {tolerated : Text → Prop}
  {t : State Text VersionedHost}

/-- **Without the versions** the run is one of the upgrade. -/
theorem run_tasks {masters : List Text}
    (hrun : Run (versionedPlay s kubeVersion masters tolerated) (p.beginFrom nodes versions) n t) :
    ∃ m, Run (play s) (p.begin nodes) m (t.map VersionedHost.tasks) := by
  refine run_map (p := versionedPlay s kubeVersion masters tolerated) (f := VersionedHost.tasks)
    ?task ?other (fun hadv => hadv) hrun
  case task =>
    intro h v v' htask
    cases htask with
    | restartKubelet | upgradeApiserver | rollBack => exact Or.inl rfl
    | task a tasks hstep => exact Or.inr ⟨a, hstep⟩
  case other =>
    rintro h v v' ⟨tasks, hother, rfl⟩
    exact hother

/-! ### The versions of a host -/

/-- The roles are through. -/
def UpgradeTask.upgraded : UpgradeTask → Bool
  | .waitForCilium | .uncordon | .done => true
  | _ => false

/-- A host comes behind the roles from the roles. -/
theorem upgraded_of_step {a : Answer} {h h' : UpgradeHost} (hstep : step s a h = some h')
    (hup : h'.next.upgraded = true) : h.next.upgraded = true ∨ h.next = .upgrade := by
  have hcommand : ∀ {effect failed : Node → Node} {success failure : UpgradeTask},
      h.kubectl a effect failed success failure = h' →
      (success.upgraded || failure.upgraded) = true := by
    intro effect failed success failure heq
    subst heq
    obtain hn | hn := next_kubectl h a effect failed success failure <;> rw [hn] at hup
    · rw [hup, Bool.true_or]
    · rw [hup, Bool.or_true]
  cases hn : h.next <;> simp only [step, hn, Option.some.injEq] at hstep
  case cordon | drainFallback => cases hcommand hstep
  case drain =>
      split at hstep
      · have hno := hcommand (Option.some.inj hstep)
        split at hno <;> cases hno
      · cases hstep
        cases hup
  case setBackToSchedulable =>
      split at hstep
      · cases hcommand (Option.some.inj hstep)
      · cases hstep
        cases hup
  case ensureVersion => split at hstep <;> cases hstep <;> cases hup
  case seeReady | seeSchedulable =>
      subst hstep
      cases hup
  case setNeedsCordoning =>
      subst hstep
      rw [setNeedsCordoning] at hup
      cases hc : cordoningNeeded s h <;> simp [hc, UpgradeTask.upgraded] at hup
  case failAfterRescue =>
      subst hstep
      cases hc : s.upgradeNodeFailIfDrainFails <;> simp [hc, UpgradeTask.upgraded] at hup
  case upgrade => exact Or.inr rfl
  case waitForCilium | uncordon | done => exact Or.inl rfl
  case failed => cases hstep

/-- What the plays make of the versions of a host. It is `sure` that its API server is upgraded
when the roles are through: it is one of the control plane, and no failure is tolerated. -/
structure Between (sure : Prop) (kubeVersion : ℕ) (before : Versions) (v : VersionedHost) :
    Prop where
  before_eq : v.before = before
  kubelet : v.now.kubelet = before.kubelet ∨ v.now.kubelet = kubeVersion
  apiserver : v.now.apiserver = before.apiserver ∨ v.now.apiserver = kubeVersion
  upgraded : v.tasks.next.upgraded = true → sure → v.now.apiserver = kubeVersion
  ahead : v.now.kubelet ≠ before.kubelet → sure → v.now.apiserver = kubeVersion ∨
    v.tasks.next = .upgrade ∨ v.tasks.next = .failed

/-- The tasks keep to it. -/
theorem Between.of_task {master tolerated : Prop} {before : Versions} {v v' : VersionedHost}
    (hv : Between (master ∧ ¬ tolerated) kubeVersion before v)
    (htask : VersionedTask s kubeVersion master tolerated v v') :
    Between (master ∧ ¬ tolerated) kubeVersion before v' := by
  have hnot : v.tasks.next = .upgrade → ¬ v.tasks.next.upgraded = true := by
    intro hnext hup
    rw [hnext] at hup
    cases hup
  cases htask with
  | restartKubelet hnext =>
      exact ⟨hv.before_eq, Or.inr rfl, hv.apiserver, fun hup => absurd hup (hnot hnext),
        fun _ _ => Or.inr (Or.inl hnext)⟩
  | upgradeApiserver _ hnext =>
      exact ⟨hv.before_eq, hv.kubelet, Or.inr rfl, fun _ _ => rfl, fun _ _ => Or.inl rfl⟩
  | rollBack _ hnext =>
      refine ⟨hv.before_eq, hv.kubelet, Or.inl ?_, fun hup => absurd hup (hnot hnext),
        fun _ _ => Or.inr (Or.inl hnext)⟩
      rw [hv.before_eq]
  | task a tasks hstep hroles =>
      have hsure : v.tasks.next = .upgrade → tasks.next ≠ .failed → master ∧ ¬ tolerated →
          v.now.apiserver = kubeVersion := fun hnext hgo ⟨hmaster, hfatal⟩ =>
        (hroles hnext hgo hmaster).resolve_right hfatal
      refine ⟨hv.before_eq, hv.kubelet, hv.apiserver, fun hup hs => ?_, fun hne hs => ?_⟩
      · obtain hbefore | hnext := upgraded_of_step hstep hup
        · exact hv.upgraded hbefore hs
        · refine hsure hnext (fun hfailed => ?_) hs
          rw [hfailed] at hup
          cases hup
      · obtain hdone | hnext | hfailed := hv.ahead hne hs
        · exact Or.inl hdone
        · -- The roles end: they succeed with the API server upgraded, or the host fails.
          by_cases hfailed : tasks.next = .failed
          · exact Or.inr (Or.inr hfailed)
          · exact Or.inl (hsure hnext hfailed hs)
        · simp only [step, hfailed] at hstep
          cases hstep

/-- What happens besides the play keeps to it, too. -/
theorem Between.of_other {sure : Prop} {before : Versions} {v : VersionedHost}
    {tasks : UpgradeHost} (hv : Between sure kubeVersion before v)
    (hother : Other v.tasks tasks) : Between sure kubeVersion before { v with tasks } := by
  have hsame := next_of_other hother
  exact ⟨hv.before_eq, hv.kubelet, hv.apiserver, fun hup => hv.upgraded (hsame ▸ hup),
    fun hne hs => by simpa only [hsame] using hv.ahead hne hs⟩

/-! ### The versions of all hosts -/

/-- A host whose batch has not begun. -/
def Untouched (versions : Text → Versions) (h : Text) (v : VersionedHost) : Prop :=
  v.tasks.next = .seeReady ∧ v.now = versions h ∧ v.before = versions h

/-- The stages of a host. -/
theorem stages_versioned (s : UpgradeSettings) (kubeVersion : ℕ) (masters : List Text)
    (tolerated : Text → Prop) (versions : Text → Versions) :
    Stages (versionedPlay s kubeVersion masters tolerated) (Untouched versions)
      (fun h => Between (h ∈ masters ∧ ¬ tolerated h) kubeVersion (versions h))
      (fun h => Between (h ∈ masters ∧ ¬ tolerated h) kubeVersion (versions h)) where
  active_of_waiting := by
    rintro h v ⟨hnext, hnow, hbefore⟩
    refine ⟨hbefore, Or.inl (by rw [hnow]), Or.inl (by rw [hnow]), fun hup => ?_,
      fun hne => absurd (by rw [hnow]) hne⟩
    rw [hnext] at hup
    cases hup
  task hv htask := hv.of_task htask
  other_waiting := by
    rintro h v v' ⟨hnext, hnow⟩ ⟨tasks, hother, rfl⟩
    exact ⟨(next_of_other hother).trans hnext, hnow⟩
  other_active := by
    rintro h v v' hv ⟨tasks, hother, rfl⟩
    exact hv.of_other hother
  other_through := by
    rintro h v v' hv ⟨tasks, hother, rfl⟩
    exact hv.of_other hother
  advance _ hactive := hactive

/-- No host is twice in the plays. -/
theorem nodup_beginFrom : (p.beginFrom nodes versions).hosts.Nodup := by
  have hhosts := hosts_begin p nodes
  exact (hhosts ▸ p.nodup : (p.begin nodes).hosts.Nodup)

variable
  (hrun : Run (versionedPlay s kubeVersion p.masters tolerated) (p.beginFrom nodes versions) n t)
include hrun

/-- The batches are those of the plan. -/
theorem batches_versioned :
    t.batches = p.masters.map (fun h => [h]) ++
      serializedBatches (p.serial.size p.workers.length) p.workers :=
  hrun.batches_eq.trans (batches_begin p nodes)

/-- Every host is in its stage. -/
theorem staged_versioned :
    Staged (Untouched versions)
      (fun h => Between (h ∈ p.masters ∧ ¬ tolerated h) kubeVersion (versions h))
      (fun h => Between (h ∈ p.masters ∧ ¬ tolerated h) kubeVersion (versions h)) t :=
  staged_of_run (stages_versioned s kubeVersion p.masters tolerated versions) nodup_beginFrom
    (staged_start (stages_versioned s kubeVersion p.masters tolerated versions) _ _
      fun _ => ⟨rfl, rfl, rfl⟩) hrun

/-- The versions of every host are between those of the begin and the new one. -/
theorem between_versioned (h : Text) :
    Between (h ∈ p.masters ∧ ¬ tolerated h) kubeVersion (versions h) (t.host h) :=
  forall_host_of_run (p := versionedPlay s kubeVersion p.masters tolerated)
    (I := fun h => Between (h ∈ p.masters ∧ ¬ tolerated h) kubeVersion (versions h))
    (fun hv htask => hv.of_task htask)
    (fun hv ⟨_, hother, heq⟩ => heq ▸ hv.of_other hother)
    (fun _ => (stages_versioned s kubeVersion p.masters tolerated versions).active_of_waiting
      ⟨rfl, rfl, rfl⟩) hrun h

/-- The batch of a host of the control plane is the host. -/
theorem eq_singleton_of_mem {batch : List Text} (hbatch : batch ∈ t.batches) {c : Text}
    (hmaster : c ∈ p.masters) (hmem : c ∈ batch) : batch = [c] := by
  rw [batches_versioned hrun, List.mem_append, List.mem_map] at hbatch
  obtain ⟨m, -, rfl⟩ | hworkers := hbatch
  · rw [List.mem_singleton.mp hmem]
  · have hworker : c ∈ p.workers := by
      rw [← flatten_serializedBatches (p.serial.size p.workers.length) p.workers]
      exact List.mem_flatten_of_mem hworkers hmem
    exact absurd hworker ((List.nodup_append'.mp p.nodup).2.2 hmaster)

/-- A host of the control plane whose batch is through is done. -/
theorem done_of_mem_past {c : Text} (hmaster : c ∈ p.masters) (hpast : c ∈ t.past.flatten) :
    (t.host c).tasks.next = .done := by
  obtain ⟨batch, hbatch, hmem⟩ := List.mem_flatten.mp hpast
  have hsingle := eq_singleton_of_mem hrun
    (by rw [State.batches]; exact List.mem_append_left _ hbatch) hmaster hmem
  have hkept : ∀ {h v v'}, v.tasks.next = .done →
      (versionedPlay s kubeVersion p.masters tolerated).other h v v' → v'.tasks.next = .done := by
    rintro h v v' hdone ⟨tasks, hother, rfl⟩
    exact (next_of_other hother).trans hdone
  obtain ⟨_, hin, hdone⟩ := exists_of_mem_past
    (p := versionedPlay s kubeVersion p.masters tolerated) (D := fun _ v => v.tasks.next = .done)
    (fun hadv => hadv.2) hkept nodup_beginFrom rfl hrun batch hbatch
  rw [hsingle, List.mem_singleton] at hin
  exact hin ▸ hdone

/-- **The control plane first**: when the batch of another host has begun, those of the control
plane are through. -/
theorem masters_past {w : Text} (hother : w ∉ p.masters)
    (hbegun : w ∈ t.past.flatten ∨ w ∈ t.current) {c : Text} (hmaster : c ∈ p.masters) :
    c ∈ t.past.flatten := by
  have hnone : ∀ {batch}, batch ∈ p.masters.map (fun h => [h]) → w ∉ batch := by
    intro batch hbatch hmem
    obtain ⟨m, hm, rfl⟩ := List.mem_map.mp hbatch
    exact hother (List.mem_singleton.mp hmem ▸ hm)
  have hsingle : [c] ∈ p.masters.map (fun h => [h]) := List.mem_map_of_mem hmaster
  have hsplit := batches_versioned hrun
  rw [State.batches, List.append_eq_append_iff] at hsplit
  obtain ⟨rest, hmasters, hrest⟩ | ⟨rest, hpast, -⟩ := hsplit
  · -- The batches that are through are among those of the control plane.
    have hnotPast : w ∉ t.past.flatten := fun hpast => by
      obtain ⟨batch, hbatch, hmem⟩ := List.mem_flatten.mp hpast
      exact hnone (hmasters ▸ List.mem_append_left _ hbatch) hmem
    cases rest with
    | nil =>
        rw [hmasters, List.append_nil] at hsingle
        exact List.mem_flatten_of_mem hsingle List.mem_cons_self
    | cons batch rest =>
        obtain ⟨rfl, -⟩ := List.cons.inj hrest
        exact absurd (hbegun.resolve_left hnotPast)
          (hnone (hmasters ▸ List.mem_append_right _ List.mem_cons_self))
  · rw [hpast]
    exact List.mem_flatten_of_mem (List.mem_append_left _ hsingle) List.mem_cons_self

/-- A host of the control plane whose batch is through has the new API server. -/
theorem apiserver_of_mem_past {c : Text} (hmaster : c ∈ p.masters) (hfatal : ¬ tolerated c)
    (hpast : c ∈ t.past.flatten) : (t.host c).now.apiserver = kubeVersion :=
  (between_versioned hrun c).upgraded (by rw [done_of_mem_past hrun hmaster hpast]; rfl)
    ⟨hmaster, hfatal⟩

/-- A host with another kubelet than in the beginning is through, or in the current batch. -/
theorem begun_of_kubelet_ne {h : Text} (hne : (t.host h).now.kubelet ≠ (versions h).kubelet) :
    h ∈ t.past.flatten ∨ h ∈ t.current := by
  have hst := staged_versioned hrun
  by_contra hno
  rw [not_or] at hno
  have huntouched : Untouched versions h (t.host h) := by
    by_cases hin : h ∈ t.hosts
    · rw [State.hosts, State.batches, List.flatten_append, List.flatten_cons, List.mem_append,
        List.mem_append] at hin
      exact hst.future h ((hin.resolve_left hno.1).resolve_left hno.2)
    · exact hst.outside h hin
  exact hne (by rw [huntouched.2.1])

/-- A host whose batch has begun and that is not one of the control plane is a worker. -/
theorem mem_workers {w : Text} (hbegun : w ∈ t.past.flatten ∨ w ∈ t.current)
    (hother : w ∉ p.masters) : w ∈ p.workers := by
  obtain ⟨m, hplain⟩ := run_tasks hrun
  have hhosts : t.hosts = p.hosts := hosts_of_run hplain
  have hin : w ∈ t.hosts := by
    rw [State.hosts, State.batches, List.flatten_append, List.flatten_cons, List.mem_append,
      List.mem_append]
    exact hbegun.imp_right Or.inl
  rw [hhosts] at hin
  exact (List.mem_append.mp hin).resolve_left hother

/-- The API servers of the control plane do not go back. -/
theorem apiserver_le {c : Text} (hnew : (versions c).apiserver ≤ kubeVersion) :
    (versions c).apiserver ≤ (t.host c).now.apiserver := by
  obtain hsame | hup := (between_versioned hrun c).apiserver
  · exact hsame.ge
  · exact hup ▸ hnew

omit hrun

/-! ### No kubelet is ahead -/

/-- No kubelet besides the control plane is newer than an API server. -/
def NoneAhead (masters : List Text) (versions : Text → Versions) : Prop :=
  ∀ w ∉ masters, ∀ c ∈ masters, (versions w).kubelet ≤ (versions c).apiserver

/-- The two hosts with the same version. -/
def twoVersions (_ : Text) : Versions :=
  ⟨24, 24⟩

/-- The first host runs its tasks up to the restart of its kubelet; its node was cordoned. -/
theorem exists_run_restarted :
    ∃ n t, Run (versionedPlay defaultSettings 25 twoHosts.masters fun _ => False)
        (twoHosts.beginFrom (fun _ => some ⟨true, 0⟩) twoVersions) n t ∧
      t.current = ["node1".toList] ∧ (t.host "node1".toList).now = ⟨25, 24⟩ := by
  have hlocal := Local.refl (p := versionedPlay defaultSettings 25 twoHosts.masters fun _ => False)
    (h := "node1".toList) (l := (twoHosts.beginFrom (fun _ => some ⟨true, 0⟩) twoVersions).host
      "node1".toList)
  have hcheck := ((hlocal.task (VersionedTask.task _ Answer.success _ rfl fun h => by cases h)).task
    (VersionedTask.task _ Answer.success _ rfl fun h => by cases h)).task
    (VersionedTask.task _ Answer.success _ rfl fun h => by cases h)
  obtain ⟨n, hrun⟩ := run_of_local List.mem_cons_self
    (hcheck.task (VersionedTask.restartKubelet _ rfl))
  exact ⟨n, _, hrun, rfl, by rw [host_set, Function.update_self]; rfl⟩

/-- An upgrade of a cluster with this control plane, to a version that no API server is beyond. It
may have any of the hosts, but with workers among them it leaves out no host of the control
plane whose API server does not have the version yet, and no failure of `kubeadm upgrade apply`
is tolerated. -/
structure UpgradePlan.Orderly (p : UpgradePlan) (masters : List Text) (now : Text → Versions)
    (kubeVersion : ℕ) (tolerated : Text → Prop) : Prop where
  masters_subset : ∀ c ∈ p.masters, c ∈ masters
  apiserver_le : ∀ c ∈ masters, (now c).apiserver ≤ kubeVersion
  left : p.workers ≠ [] → ∀ c ∈ masters, c ∉ p.masters → (now c).apiserver = kubeVersion
  fatal : ∀ c ∈ p.masters, ¬ tolerated c

/-- **One upgrade** keeps to this, at every moment. -/
theorem noneAhead_of_run {masters : List Text}
    (hrun : Run (versionedPlay s kubeVersion p.masters tolerated) (p.beginFrom nodes versions) n t)
    (horderly : p.Orderly masters versions kubeVersion tolerated)
    (hbefore : NoneAhead masters versions) :
    NoneAhead masters fun h => (t.host h).now := by
  intro w hworker c hmaster
  by_cases hsame : (t.host w).now.kubelet = (versions w).kubelet
  · rw [hsame]
    exact (hbefore w hworker c hmaster).trans
      (apiserver_le hrun (horderly.apiserver_le c hmaster))
  · have hbegun := begun_of_kubelet_ne hrun hsame
    rw [(between_versioned hrun w).kubelet.resolve_left hsame]
    by_cases hin : c ∈ p.masters
    · have hother : w ∉ p.masters := fun hno => hworker (horderly.masters_subset w hno)
      rw [apiserver_of_mem_past hrun hin (horderly.fatal c hin)
        (masters_past hrun hother hbegun hin)]
    · have hold := horderly.left (List.ne_nil_of_mem (mem_workers hrun hbegun fun hno =>
        hworker (horderly.masters_subset w hno))) c hmaster hin
      obtain hkept | hup := (between_versioned hrun c).apiserver
      · rw [hkept, hold]
      · exact hup.ge

/-- Upgrades of a cluster with this control plane, one after the other; each can have stopped
anywhere. -/
inductive Upgrades (masters : List Text) (versions : Text → Versions) : (Text → Versions) → Prop
  | refl : Upgrades masters versions versions
  | upgrade {now : Text → Versions} {s : UpgradeSettings} {p : UpgradePlan}
      {nodes : Text → Option Node} {kubeVersion n : ℕ} {tolerated : Text → Prop}
      {t : State Text VersionedHost} :
      Upgrades masters versions now → p.Orderly masters now kubeVersion tolerated →
      Run (versionedPlay s kubeVersion p.masters tolerated) (p.beginFrom nodes now) n t →
      Upgrades masters versions fun h => (t.host h).now

/-- **No kubelet of a worker is ever newer than an API server**, whatever fails in whatever
orderly upgrades, when it was so in the beginning. -/
theorem kubelet_le_apiserver {masters : List Text} {now : Text → Versions}
    (hbefore : NoneAhead masters versions) (hupgrades : Upgrades masters versions now) :
    NoneAhead masters now := by
  induction hupgrades with
  | refl => exact hbefore
  | upgrade _ horderly hrun ih => exact noneAhead_of_run hrun horderly ih

/-- It was so in the beginning where all hosts have one version. -/
theorem kubelet_le_apiserver_restarted :
    ∃ now, Upgrades twoHosts.masters twoVersions now ∧
      (now "node1".toList).kubelet = 25 ∧ NoneAhead twoHosts.masters now := by
  obtain ⟨n, t, hrun, -, hnow⟩ := exists_run_restarted
  have hupgrades : Upgrades twoHosts.masters twoVersions fun h => (t.host h).now :=
    .upgrade .refl ⟨fun _ hc => hc, fun _ _ => Nat.le_succ 24,
      fun _ c hc hno => absurd hc hno, fun _ _ => id⟩ hrun
  exact ⟨_, hupgrades, by rw [hnow], kubelet_le_apiserver (fun _ _ _ _ => le_rfl) hupgrades⟩

/-- **The one kubelet that can be ahead** of its own API server, in an upgrade that no failure is
tolerated in and that finds no kubelet ahead: on the host of the control plane that is the
current batch, in the roles that upgrade it or when they have failed. -/
theorem ahead_upgrading
    (hrun : Run (versionedPlay s kubeVersion p.masters tolerated) (p.beginFrom nodes versions) n t)
    {c : Text} (hmaster : c ∈ p.masters) (hfatal : ¬ tolerated c)
    (hnew : (versions c).apiserver ≤ kubeVersion)
    (hbefore : (versions c).kubelet ≤ (versions c).apiserver)
    (hahead : (t.host c).now.apiserver < (t.host c).now.kubelet) :
    t.current = [c] ∧ ((t.host c).tasks.next = .upgrade ∨ (t.host c).tasks.next = .failed) := by
  have hne : (t.host c).now.kubelet ≠ (versions c).kubelet := fun hsame => by
    have hle := hbefore.trans (apiserver_le hrun hnew)
    omega
  have hkubelet := (between_versioned hrun c).kubelet.resolve_left hne
  have hold : (t.host c).now.apiserver ≠ kubeVersion := fun hno => by omega
  refine ⟨?_, ((between_versioned hrun c).ahead hne ⟨hmaster, hfatal⟩).resolve_left
    hold⟩
  obtain hpast | hcurrent := begun_of_kubelet_ne hrun hne
  · exact absurd (apiserver_of_mem_past hrun hmaster hfatal hpast) hold
  · exact eq_singleton_of_mem hrun
      (by rw [State.batches]; exact List.mem_append_right _ List.mem_cons_self) hmaster hcurrent

/-- The kubelet of the first host is restarted. -/
theorem ahead_upgrading_restarted :
    ∃ n t, Run (versionedPlay defaultSettings 25 twoHosts.masters fun _ => False)
        (twoHosts.beginFrom (fun _ => some ⟨true, 0⟩) twoVersions) n t ∧
      (t.host "node1".toList).now = ⟨25, 24⟩ ∧ t.current = ["node1".toList] := by
  obtain ⟨n, t, hrun, -, hnow⟩ := exists_run_restarted
  have hahead : (t.host "node1".toList).now.apiserver < (t.host "node1".toList).now.kubelet := by
    rw [hnow]
    decide
  exact ⟨n, t, hrun, hnow,
    (ahead_upgrading hrun List.mem_cons_self id (Nat.le_succ 24) le_rfl hahead).1⟩

end Kubespray.Upgrade
