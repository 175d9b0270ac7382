import Kubespray.Library.Rolling
import Kubespray.Upgrade.Nodes

/-!
# Upgrading the Cluster

The plays of `upgrade-cluster.yml` that cordon and drain: the control plane host by host,
then the workers in batches. The hosts of a batch run their tasks in any order, so that what
is shown holds of the order in which the strategy of the play takes them, too.

With `any_errors_fatal`, which is the default, no batch begins after a failure. Without it
the play goes on unless every host of the batch failed. The plays have the hosts that the run
has: `--limit` leaves some out, and without `any_errors_fatal` hosts that failed in an earlier
play are not in the later ones.

## Main results

* `newlyUnschedulable_le`: how many nodes are unavailable at a time.
* `done_unschedulable_iff`: which nodes are left unschedulable.
* `drainedFirst_iff`: when every node is drained before it is upgraded.
* `upgrade_ends`: every upgrade ends, with every host done or a failed one.
-/

namespace Kubespray.Upgrade

open Rolling

/-- The play. -/
def play (s : UpgradeSettings) : Play Text UpgradeHost where
  task _ h h' := ∃ a, step s a h = some h'
  other _ h h' := Other h h'
  advance batch host :=
    (∀ h ∈ batch, (host h).next = .done ∨ s.anyErrorsFatal = false ∧ (host h).next = .failed) ∧
      ∃ h ∈ batch, (host h).next = .done

/-- `serial`: the default of 20%, or a number of hosts. -/
inductive Serial
  | default
  | hosts (n : ℕ)

/-- The size of the batches: of 20% of the hosts the whole part, and at least one host. -/
def Serial.size (serial : Serial) (n : ℕ) : ℕ :=
  match serial with
  | .default => max 1 (n * 20 / 100)
  | .hosts k => k

/-- The hosts of the two plays that are in the run: those of `kube_control_plane`, and those of
`kube_node:calico_rr:!kube_control_plane`. -/
structure UpgradePlan where
  masters : List Text
  workers : List Text
  serial : Serial
  nodup : (masters ++ workers).Nodup
  ne_nil : masters ++ workers ≠ []

/-- All batches: the control plane has `serial: 1`. -/
def UpgradePlan.allBatches (p : UpgradePlan) : List (List Text) :=
  p.masters.map (fun h => [h]) ++ serializedBatches (p.serial.size p.workers.length) p.workers

/-- The first batch. -/
def UpgradePlan.first (p : UpgradePlan) : List Text :=
  p.allBatches.headD []

/-- The batches after the first one. -/
def UpgradePlan.batches (p : UpgradePlan) : List (List Text) :=
  p.allBatches.tail

/-- The hosts. -/
def UpgradePlan.hosts (p : UpgradePlan) : List Text :=
  p.masters ++ p.workers

/-- The largest number of hosts of a batch. -/
def UpgradePlan.batchSize (p : UpgradePlan) : ℕ :=
  max 1 (if p.serial.size p.workers.length = 0 then p.workers.length
    else p.serial.size p.workers.length)

/-- The upgrade before the first task. -/
def UpgradePlan.begin (p : UpgradePlan) (nodes : Text → Option Node) : State Text UpgradeHost :=
  start p.first p.batches fun h => .initial (nodes h)

variable {s : UpgradeSettings} {p : UpgradePlan} {nodes : Text → Option Node}
  {t : State Text UpgradeHost} {n : ℕ}

/-- The batches have the hosts of the plan. -/
theorem flatten_allBatches (p : UpgradePlan) : p.allBatches.flatten = p.hosts := by
  have hsingle : (p.masters.map fun h => [h]).flatten = p.masters := by
    induction p.masters with
    | nil => rfl
    | cons h rest ih => simp [ih]
  rw [UpgradePlan.allBatches, List.flatten_append, hsingle, flatten_serializedBatches]
  rfl

/-- The first batch and the others are all of them. -/
theorem first_cons_batches (p : UpgradePlan) : p.first :: p.batches = p.allBatches := by
  rw [UpgradePlan.first, UpgradePlan.batches]
  cases hall : p.allBatches with
  | nil =>
      have hflat := flatten_allBatches p
      rw [hall] at hflat
      exact absurd hflat.symm p.ne_nil
  | cons batch batches => rfl

/-- The play takes these batches. -/
theorem batches_begin (p : UpgradePlan) (nodes : Text → Option Node) :
    (p.begin nodes).batches = p.allBatches :=
  first_cons_batches p

/-- The play has the hosts of the plan. -/
theorem hosts_begin (p : UpgradePlan) (nodes : Text → Option Node) :
    (p.begin nodes).hosts = p.hosts := by
  rw [State.hosts, batches_begin, flatten_allBatches]

/-- The hosts of a run are the hosts of the plan. -/
theorem hosts_of_run (hrun : Run (play s) (p.begin nodes) n t) : t.hosts = p.hosts := by
  rw [State.hosts, hrun.batches_eq]
  exact hosts_begin p nodes

/-- No batch is empty. -/
theorem ne_nil_of_mem_allBatches {b : List Text} (hb : b ∈ p.allBatches) : b ≠ [] := by
  rw [UpgradePlan.allBatches, List.mem_append, List.mem_map] at hb
  obtain ⟨k, -, rfl⟩ | hb := hb
  · exact List.cons_ne_nil _ _
  · exact ne_nil_of_mem_serializedBatches hb

/-- The current batch is one of the plan. -/
theorem current_mem_batches (hrun : Run (play s) (p.begin nodes) n t) :
    t.current ∈ p.allBatches := by
  rw [← batches_begin p nodes, ← hrun.batches_eq]
  simp [State.batches]

/-- A batch is as large as it may be. -/
theorem length_current_le (hrun : Run (play s) (p.begin nodes) n t) :
    t.current.length ≤ p.batchSize := by
  have hmem := current_mem_batches hrun
  rw [UpgradePlan.allBatches, List.mem_append, List.mem_map] at hmem
  obtain ⟨h, -, hsingle⟩ | hworkers := hmem
  · rw [← hsingle]
    exact le_max_left _ _
  · exact (length_le_of_mem_serializedBatches hworkers).trans (le_max_right _ _)

/-- The defaults of the roles. -/
def defaultSettings : UpgradeSettings where
  upgradeNodeAlwaysCordon := false
  drainNodes := true
  drainPodSelector := []
  drainFallbackEnabled := false
  upgradeNodeUncordonAfterDrainFailure := true
  upgradeNodeFailIfDrainFails := true
  kubeNetworkPlugin := "calico".toList
  containerManager := "containerd".toList
  allowUngracefulRemoval := false
  anyErrorsFatal := true

/-- A host of the control plane and a worker. -/
def twoHosts : UpgradePlan where
  masters := ["node1".toList]
  workers := ["node2".toList]
  serial := .default
  nodup := by decide
  ne_nil := List.cons_ne_nil _ _

/-- The answers of the cluster to a host are steps of its own. -/
theorem local_of_runAnswers {host : Text} {answers : List Answer} {h l l' : UpgradeHost}
    (hl : Local (play s) host h l) (hrun : runAnswers s answers l = some l') :
    Local (play s) host h l' := by
  induction answers generalizing l with
  | nil =>
      obtain rfl : l = l' := by simpa [runAnswers] using hrun
      exact hl
  | cons a answers ih =>
      simp only [runAnswers, List.foldlM_cons, Option.bind_eq_bind, Option.bind_eq_some_iff] at hrun
      obtain ⟨m, hstep, hrest⟩ := hrun
      exact ih (hl.task ⟨a, hstep⟩) hrest

/-- A host of the first batch runs its tasks with these answers. -/
theorem exists_run_first (s : UpgradeSettings) (p : UpgradePlan) (nodes : Text → Option Node)
    {h : Text} (hfirst : h ∈ p.first) (answers : List Answer) {l : UpgradeHost}
    (hrun : runAnswers s answers (.initial (nodes h)) = some l) :
    ∃ n, Run (play s) (p.begin nodes) n ((p.begin nodes).set h l) :=
  run_of_local (s := p.begin nodes) hfirst (local_of_runAnswers Local.refl hrun)

/-! ### How many nodes are unavailable -/

/-- Whether the node of a host was unschedulable before the upgrade. -/
def unschedulableBefore (nodes : Text → Option Node) (h : Text) : Bool :=
  (UpgradeHost.initial (nodes h)).unschedulable

/-- The node is unschedulable, and was not before the upgrade. -/
def newlyUnschedulable (nodes : Text → Option Node) (t : State Text UpgradeHost) (h : Text) :
    Bool :=
  (t.host h).unschedulable && !unschedulableBefore nodes h

/-- A host whose batch has not begun. -/
def Waiting (s : UpgradeSettings) (nodes : Text → Option Node) (h : Text) (l : UpgradeHost) :
    Prop :=
  l.next = .seeReady ∧ Kept s (unschedulableBefore nodes h) l

/-- A host whose batch is through. -/
def Through (s : UpgradeSettings) (nodes : Text → Option Node) (h : Text) (l : UpgradeHost) :
    Prop :=
  (l.next = .done ∨ s.anyErrorsFatal = false ∧ l.next = .failed) ∧
    Kept s (unschedulableBefore nodes h) l

/-- What happens besides the play leaves the next task. -/
theorem next_of_other {h h' : UpgradeHost} (hother : Other h h') : h'.next = h.next := by
  obtain ⟨node, rfl⟩ := exists_node_of_other hother
  rfl

/-- The stages of a host. -/
theorem stages (s : UpgradeSettings) (nodes : Text → Option Node) :
    Stages (play s) (Waiting s nodes) (fun h l => Kept s (unschedulableBefore nodes h) l)
      (Through s nodes) where
  active_of_waiting h := h.2
  task hk := fun ⟨_, hstep⟩ => hk.of_step hstep
  other_waiting h hother := ⟨(next_of_other hother).trans h.1, h.2.of_other hother⟩
  other_active hk hother := hk.of_other hother
  other_through h hother := ⟨by rw [next_of_other hother]; exact h.1, h.2.of_other hother⟩
  advance hadv hactive h hmem := ⟨hadv.1 h hmem, hactive h hmem⟩

/-- Every host is in its stage. -/
theorem staged (hrun : Run (play s) (p.begin nodes) n t) :
    Staged (Waiting s nodes) (fun h l => Kept s (unschedulableBefore nodes h) l)
      (Through s nodes) t := by
  have hnd : (p.begin nodes).hosts.Nodup := by
    rw [hosts_begin]
    exact p.nodup
  exact staged_of_run (stages s nodes) hnd
    (staged_start (stages s nodes) _ _ fun h => ⟨rfl, rfl, rfl⟩) hrun

/-- A host besides the current batch whose node `container-engine` has cordoned although it
needed no cordoning: nothing uncordons it. -/
def leftCordoned (t : State Text UpgradeHost) (h : Text) : Bool :=
  h ∉ t.current ∧ (t.host h).cordonedForEngine = true ∧ (t.host h).needsCordoning = false

/-- **How many nodes are unavailable**: at any moment of the upgrade there are no more nodes
that it has made unschedulable than hosts in a batch and nodes that were left cordoned when
their container engine was replaced, also when it has failed. -/
theorem newlyUnschedulable_le (s : UpgradeSettings) (hfatal : s.anyErrorsFatal = true)
    (p : UpgradePlan) (nodes : Text → Option Node) {t : State Text UpgradeHost} {n : ℕ}
    (hrun : Run (play s) (p.begin nodes) n t) :
    (p.hosts.filter (newlyUnschedulable nodes t)).length
      ≤ p.batchSize + (p.hosts.filter (leftCordoned t)).length := by
  have hcurrent : ∀ h, newlyUnschedulable nodes t h = true → leftCordoned t h = false →
      h ∈ t.current := by
    intro h hnew hnot
    by_contra hno
    refine hno ((staged hrun).mem_current
      (P := fun h l => ¬ ((l.unschedulable && !unschedulableBefore nodes h) = true ∧
        ¬ (l.cordonedForEngine = true ∧ l.needsCordoning = false))) (fun k l hw => ?_)
      (fun k l hthrough => ?_) fun hP => hP ⟨hnew, fun hboth => ?_⟩)
    · obtain ⟨hnext, hk⟩ := hw
      simp only [Kept, hnext] at hk
      simp [hk.1]
    · obtain ⟨hdone | ⟨hoff, -⟩, hk⟩ := hthrough
      · simp only [Kept, hdone] at hk
        rw [hk.2]
        cases unschedulableBefore nodes k <;> simp
      · rw [hfatal] at hoff
        cases hoff
    · exact of_decide_eq_false hnot ⟨hno, hboth⟩
  have hleft : (p.hosts.filter (newlyUnschedulable nodes t)).countP (leftCordoned t)
      ≤ (p.hosts.filter (leftCordoned t)).length := by
    rw [← List.countP_eq_length_filter]
    exact List.filter_sublist.countP_le
  have hnot : (p.hosts.filter (newlyUnschedulable nodes t)).countP (fun h => !leftCordoned t h)
      ≤ t.current.length := by
    rw [List.countP_filter, List.countP_eq_length_filter]
    refine length_filter_le p.nodup fun h _ hboth => ?_
    obtain ⟨hnot, hnew⟩ := Bool.and_eq_true_iff.mp hboth
    exact hcurrent h hnew (by simpa using hnot)
  calc (p.hosts.filter (newlyUnschedulable nodes t)).length
      = (p.hosts.filter (newlyUnschedulable nodes t)).countP (leftCordoned t)
          + (p.hosts.filter (newlyUnschedulable nodes t)).countP fun h => !leftCordoned t h := by
        rw [List.length_eq_countP_add_countP (leftCordoned t)]
        simp
    _ ≤ (p.hosts.filter (leftCordoned t)).length + t.current.length := Nat.add_le_add hleft hnot
    _ ≤ p.batchSize + (p.hosts.filter (leftCordoned t)).length := by
        rw [Nat.add_comm]
        exact Nat.add_le_add_right (length_current_le hrun) _

/-- While the first host is drained one of two nodes is unavailable. -/
theorem newlyUnschedulable_le_cordoned :
    ∃ n t, Run (play defaultSettings) (twoHosts.begin fun _ => some ⟨false, 3⟩) n t ∧
      newlyUnschedulable (fun _ => some ⟨false, 3⟩) t "node1".toList = true ∧
      (twoHosts.hosts.filter (newlyUnschedulable (fun _ => some ⟨false, 3⟩) t)).length
        ≤ twoHosts.batchSize := by
  obtain ⟨n, hrun⟩ := exists_run_first defaultSettings twoHosts (fun _ => some ⟨false, 3⟩)
    List.mem_cons_self (List.replicate 4 Answer.success) rfl
  exact ⟨n, _, hrun, rfl, newlyUnschedulable_le defaultSettings rfl twoHosts _ hrun⟩

/-! ### Which nodes are left unschedulable -/

/-- **Which nodes are left unschedulable**: a node whose upgrade is done is unschedulable
exactly when it was so before or was cordoned for another container engine, cordoning is not
forced, and the node did not look like a ready and schedulable one, as a node does whose query
failed. -/
theorem done_unschedulable_iff (s : UpgradeSettings) (p : UpgradePlan)
    (nodes : Text → Option Node) {t : State Text UpgradeHost} {n : ℕ}
    (hrun : Run (play s) (p.begin nodes) n t) (h : Text) (hdone : (t.host h).next = .done) :
    (t.host h).unschedulable = true ↔
      (unschedulableBefore nodes h = true ∨ (t.host h).cordonedForEngine = true) ∧
        s.upgradeNodeAlwaysCordon = false ∧
        ((t.host h).kubectlNodeReady = "True".toList →
          (t.host h).kubectlNodeSchedulable ≠ []) := by
  have hinit : ∀ k, Kept s (unschedulableBefore nodes k) ((p.begin nodes).host k) :=
    fun _ => ⟨rfl, rfl⟩
  have hk := forall_host_of_run (p := play s)
    (I := fun h l => Kept s (unschedulableBefore nodes h) l)
    (fun hk ⟨_, hstep⟩ => hk.of_step hstep) (fun hk hother => hk.of_other hother) hinit hrun h
  simp only [Kept, hdone] at hk
  obtain ⟨hdecided, hun⟩ := hk
  rw [hun, hdecided.needsCordoning_eq, cordoningNeeded]
  simp only [Bool.and_eq_true, Bool.or_eq_true, Bool.not_eq_true', Bool.or_eq_false_iff,
    decide_eq_false_iff_not, not_and]
  exact and_congr_right fun _ => and_comm

/-- A cordon from before the upgrade is left. -/
theorem done_unschedulable_cordoned :
    ∃ n t, Run (play defaultSettings) (twoHosts.begin fun _ => some ⟨true, 0⟩) n t ∧
      (t.host "node1".toList).next = .done ∧ (t.host "node1".toList).unschedulable = true := by
  obtain ⟨n, hrun⟩ := exists_run_first defaultSettings twoHosts (fun _ => some ⟨true, 0⟩)
    List.mem_cons_self (List.replicate 6 Answer.success) rfl
  exact ⟨n, _, hrun, rfl, (done_unschedulable_iff defaultSettings twoHosts _ hrun _ rfl).mpr
    ⟨Or.inl rfl, rfl, fun _ => List.cons_ne_nil _ _⟩⟩

/-! ### When nodes are drained first -/

/-- Every host can finish by itself: its node can be registered, and its tasks can succeed. -/
theorem exists_local_done (s : UpgradeSettings) (host : Text) (node : Option Node) :
    ∃ l, Local (play s) host (.initial node) l ∧ l.next = .done := by
  have hregistered : ∀ n, Local (play s) host (.initial node) (.initial (some n)) →
      ∃ l, Local (play s) host (.initial node) l ∧ l.next = .done := fun n hl => by
    obtain ⟨answers, l, hrun, hdone⟩ := (regular_initial n).exists_answers_done (s := s)
    exact ⟨l, local_of_runAnswers hl hrun, hdone⟩
  cases node with
  | none => exact hregistered ⟨false, 0⟩ (Local.refl.other (Other.register _ rfl))
  | some n => exact hregistered n Local.refl

/-- Every batch of the plan can be reached with its hosts as they were. -/
theorem exists_run_begin (s : UpgradeSettings) (p : UpgradePlan) (nodes : Text → Option Node)
    {h : Text} (hmem : h ∈ p.hosts) :
    ∃ n t, Run (play s) (p.begin nodes) n t ∧ h ∈ t.current ∧
      t.host h = .initial (nodes h) := by
  have hhosts := hosts_begin p nodes
  have hnd : (p.begin nodes).hosts.Nodup := hhosts ▸ p.nodup
  obtain ⟨batch, hbatch, hin⟩ := List.mem_flatten.mp (hhosts ▸ hmem : h ∈ (p.begin nodes).hosts)
  obtain ⟨n, t, hrun, hcur, hsame⟩ := exists_run_to (p := play s)
    (fun _ l => l.next = .done) hnd
    (fun b _ k _ => exists_local_done s k (nodes k))
    (fun b hb host hdone => by
      have hall : b ∈ p.allBatches := first_cons_batches p ▸ hb
      obtain ⟨k, hk⟩ := List.exists_mem_of_ne_nil b (ne_nil_of_mem_allBatches hall)
      exact ⟨fun k hk => Or.inl (hdone k hk), k, hk, hdone k hk⟩)
    (by simpa [State.batches, UpgradePlan.begin, start] using hbatch)
  exact ⟨n, t, hrun, hcur ▸ hin, hsame h hin⟩

/-- **When nodes are drained first**: in every run every node that needed cordoning is drained
while it is upgraded, exactly when nodes are drained and a failed drain is an error. -/
theorem drainedFirst_iff (s : UpgradeSettings) (p : UpgradePlan) (nodes : Text → Option Node)
    (hfree : ∃ h ∈ p.hosts, ∃ node, nodes h = some node ∧ node.unschedulable = false) :
    (∀ n t, Run (play s) (p.begin nodes) n t → ∀ h, DrainedFirst (t.host h)) ↔
      s.drainsFirst = true := by
  constructor
  · intro hall
    by_contra hno
    obtain ⟨h, hmem, node, hnode, hun⟩ := hfree
    obtain ⟨n, t, hrun, hcur, hinit⟩ := exists_run_begin s p nodes hmem
    obtain ⟨answers, l, hanswers, hbad⟩ :=
      exists_answers_undrained (by simpa using hno) node.pods
    -- A pod is scheduled on the node before its tasks begin.
    have hpod : Local (play s) h (t.host h) (.initial (some ⟨false, node.pods + 1⟩)) := by
      have hother := Other.schedule (.initial (some node)) node rfl hun
      rw [hun] at hother
      rw [hinit, hnode]
      exact Local.refl.other hother
    obtain ⟨m, hrun'⟩ := run_of_local hcur (local_of_runAnswers hpod hanswers)
    have := hall _ _ (hrun.append hrun') h
    simp only [host_set, Function.update_self] at this
    exact hbad this
  · intro hs n t hrun h
    exact forall_host_of_run (p := play s) (I := fun _ l => DrainedFirst l)
      (fun hd ⟨_, hstep⟩ => hd.of_step hs hstep) (fun hd hother => hd.of_other hother)
      (fun _ => drainedFirst_of_not (by simp [UpgradeHost.Upgrading, UpgradePlan.begin, start,
        UpgradeHost.initial])) hrun h

/-- The defaults drain every node first. -/
theorem drainedFirst_default :
    defaultSettings.drainsFirst = true ∧
      ∀ n t, Run (play defaultSettings) (twoHosts.begin fun _ => some ⟨false, 3⟩) n t →
        ∀ h, DrainedFirst (t.host h) :=
  ⟨rfl, (drainedFirst_iff defaultSettings twoHosts (fun _ => some ⟨false, 3⟩)
    ⟨_, List.mem_cons_self, _, rfl, rfl⟩).mpr rfl⟩

/-! ### The end of the upgrade -/

/-- **Every upgrade ends**: its steps are bounded, and where none is left every host is done
or some host has failed. -/
theorem upgrade_ends (s : UpgradeSettings) (p : UpgradePlan) (nodes : Text → Option Node)
    {t : State Text UpgradeHost} {n : ℕ} (hrun : Run (play s) (p.begin nodes) n t) :
    n ≤ 12 * p.hosts.length + p.batches.length ∧
      ((∀ t', ¬ Step (play s) t t') →
        (∀ h ∈ p.hosts, (t.host h).next = .done) ∨ ∃ h ∈ p.hosts, (t.host h).next = .failed) := by
  constructor
  · have hbound := run_le_potential (p := play s) (fun l => l.next.rank)
      (fun ⟨_, hstep⟩ => rank_lt_of_step hstep) (fun hother => by rw [next_of_other hother]) hrun
    have hstart : (p.begin nodes).potential (fun l => l.next.rank)
        = p.batches.length + p.hosts.length * 12 := by
      rw [State.potential, hosts_begin]
      simp [UpgradePlan.begin, start, UpgradeHost.initial, UpgradeTask.rank]
    omega
  · intro hstuck
    by_contra hno
    simp only [not_or, not_forall, not_exists, not_and] at hno
    obtain ⟨⟨h, hmem, hnotDone⟩, hnotFailed⟩ := hno
    have hin : ∀ {k}, k ∈ t.current → k ∈ p.hosts := fun hk => by
      rw [← hosts_of_run hrun]
      exact List.mem_flatten.mpr ⟨t.current, by simp [State.batches], hk⟩
    have hcurrent : ∀ k ∈ t.current, (t.host k).next = .done := by
      intro k hk
      by_contra hnot
      obtain ⟨l, hl⟩ := exists_step s Answer.success hnot (hnotFailed k (hin hk))
      exact hstuck _ (Step.task hk ⟨_, hl⟩)
    obtain ⟨k, hk⟩ :=
      List.exists_mem_of_ne_nil _ (ne_nil_of_mem_allBatches (current_mem_batches hrun))
    have hstaged := staged hrun
    have hhosts := hosts_of_run hrun
    obtain ⟨past, current, future, host⟩ := t
    cases future with
    | cons next future =>
        exact hstuck _ (Step.advance ⟨fun j hj => Or.inl (hcurrent j hj), k, hk, hcurrent k hk⟩)
    | nil =>
        rw [← hhosts, State.hosts, State.batches, List.flatten_append, List.mem_append] at hmem
        obtain hpast | hnow := hmem
        · obtain hdone | ⟨-, hfailed⟩ := (hstaged.past h hpast).1
          · exact hnotDone hdone
          · refine hnotFailed h ?_ hfailed
            rw [← hhosts, State.hosts, State.batches, List.flatten_append]
            exact List.mem_append_left _ hpast
        · exact hnotDone (hcurrent h (by simpa using hnow))

/-- A drain that fails on the first host ends the upgrade. -/
theorem upgrade_ends_failed :
    ∃ n t, Run (play defaultSettings) (twoHosts.begin fun _ => some ⟨false, 3⟩) n t ∧
      (t.host "node1".toList).next = .failed ∧
      n ≤ 12 * twoHosts.hosts.length + twoHosts.batches.length := by
  obtain ⟨n, hrun⟩ := exists_run_first defaultSettings twoHosts (fun _ => some ⟨false, 3⟩)
    List.mem_cons_self
    (List.replicate 5 Answer.success ++ [Answer.failure 3, Answer.success, Answer.success]) rfl
  obtain ⟨hle, -⟩ := upgrade_ends defaultSettings twoHosts _ hrun
  exact ⟨n, _, hrun, rfl, hle⟩

end Kubespray.Upgrade
