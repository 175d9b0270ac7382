import Kubespray.Inventory.Builder
import Kubespray.Library.Histories

/-!
# Histories of the Inventory Builder

A `Run` is one invocation that names hosts: a fresh build, an `add`, or a run whose first
argument is a removal. A history starts without an inventory file and processes runs as
long as they succeed. Each run may have its own environment.

Two things determine what a run writes: the assignment it starts from (`Run.carried`) and
the host list it works out (`Run.hostList`). Both are functions of the file on disk and
of the command line, so conditions on runs are stated with them.

## Main results

* `writes_assignment`: what a run writes is `place` of the two.
* `everyWritten_iff`: a property of everything written is a condition on every run as soon
  as the two agree run by run.
* `everyWritten_of_invariant`: the invariant rule for histories.
-/

namespace Kubespray.Inventory

open OrderedDict Fallible Histories

/-- One invocation of the builder. -/
structure Run where
  env : Env
  /-- The files that `load` may be given. -/
  files : Text → Option (Option Value)
  argv : List Text

namespace Run

/-- Is the command word `add`? -/
def add (r : Run) : Bool :=
  r.argv.head? = some "add".toList

/-- The arguments after the command word. -/
def changedHosts (r : Run) : List Text :=
  if r.add then r.argv.tail else r.argv

/-- The document a run writes, if it writes one. -/
def writes (r : Run) (disk : Disk) : Option Document :=
  match invoke r.env r.files disk r.argv with
  | (some doc, .saved) => some doc
  | _ => none

/-- The document a run starts from. -/
def base (r : Run) (disk : Disk) : Except Abort Document := do
  loadedDocument r.env disk (r.add || (← removalFirst r.changedHosts))

/-- The assignment a run starts from. -/
def carried (r : Run) (disk : Disk) : Assignment :=
  match r.base disk with
  | .ok doc => assignment doc
  | .error _ => .none

/-- The host map a run works out. -/
def hostMap (r : Run) (disk : Disk) : Except Abort (OrderedDict Text Value) := do
  let removal ← removalFirst r.changedHosts
  let cfg ← ensureRequiredGroups roles (← r.base disk)
  buildHostnames r.env cfg (← range2ips r.env r.changedHosts) (r.add || removal)

/-- The host list a run works out. -/
def hostList (r : Run) (disk : Disk) : List Text :=
  match r.hostMap disk with
  | .ok hosts => hosts.keys
  | .error _ => []

end Run

/-- A run that names hosts and succeeds takes the disk to the next one. -/
def builderStep (disk : Disk) (r : Run) : Option Disk :=
  if isHostRun r.argv ∧ (invoke r.env r.files disk r.argv).2.successful then
    some (invoke r.env r.files disk r.argv).1
  else
    none

/-- Every inventory written in the history of the runs satisfies `Q`. -/
def EveryWritten (Q : Run → Document → Prop) (runs : List Run) : Prop :=
  Along builderStep (fun disk r _ => ∀ doc ∈ r.writes disk, Q r doc) none runs

/-- Every run of the history that writes an inventory meets `C`, a condition on the run
and the file it finds. -/
def EveryRun (C : Run → Disk → Prop) (runs : List Run) : Prop :=
  Along builderStep (fun disk r _ => (r.writes disk).isSome → C r disk) none runs

instance (Q : Run → Document → Prop) [∀ r doc, Decidable (Q r doc)] (runs : List Run) :
    Decidable (EveryWritten Q runs) :=
  inferInstanceAs (Decidable (Along _ _ _ _))

variable {r : Run} {disk disk' : Disk} {doc : Document}

/-- A run of a history is an invocation of `hostRun`. -/
theorem invoke_of_isHostRun (h : isHostRun r.argv = true) :
    invoke r.env r.files disk r.argv
      = finishRun r.env disk (hostRun r.env disk r.add r.changedHosts) := by
  unfold invoke Run.changedHosts Run.add
  rw [isHostRun] at h
  cases hargv : r.argv with
  | nil => rfl
  | cons command args =>
      rw [hargv] at h
      by_cases hadd : command = "add".toList
      · subst hadd
        rfl
      · have hno : command ∉ availableCommands := by
          rcases of_decide_eq_true h with hhead | hall
          · exact absurd (Option.some.inj hhead) hadd
          · exact hall command rfl
        have hprint : command ≠ "print_hostnames".toList := by
          rintro rfl
          exact hno (by decide)
        have hhead : decide ((command :: args).head? = some "add".toList) = false :=
          decide_eq_false fun heq => hadd (Option.some.inj heq)
        dsimp only
        rw [if_neg hadd, if_neg hprint, if_neg hno, hhead]
        rfl

/-- A run that wrote a document completed `hostRun` and knows the file to write to. -/
theorem hostRun_of_writes (hrun : isHostRun r.argv = true) (h : doc ∈ r.writes disk) :
    ∃ cfg, hostRun r.env disk r.add r.changedHosts = .ok (some cfg) ∧ doc = cfg.toDocument ∧
      r.env.configFile = true := by
  rw [Run.writes, invoke_of_isHostRun hrun] at h
  cases hres : hostRun r.env disk r.add r.changedHosts with
  | error e =>
      rw [hres] at h
      simp [finishRun] at h
  | ok outcome =>
      rw [hres] at h
      cases outcome with
      | none => simp [finishRun] at h
      | some cfg =>
          by_cases hfile : r.env.configFile = true
          · simp only [finishRun, writeConfig, if_pos hfile, Option.mem_def,
              Option.some.injEq] at h
            exact ⟨cfg, rfl, h.symm, hfile⟩
          · simp [finishRun, writeConfig, hfile] at h

/-- A run that completes `hostRun` and knows the file to write to writes. -/
theorem writes_of_hostRun (hrun : isHostRun r.argv = true) (hfile : r.env.configFile = true)
    {cfg : Config} (h : hostRun r.env disk r.add r.changedHosts = .ok (some cfg)) :
    r.writes disk = some cfg.toDocument := by
  rw [Run.writes, invoke_of_isHostRun hrun, h]
  simp only [finishRun, writeConfig, if_pos hfile]

/-- A run that wrote a document ended well and left it on disk. -/
theorem invoke_of_writes (h : doc ∈ r.writes disk) :
    invoke r.env r.files disk r.argv = (some doc, .saved) := by
  rw [Run.writes] at h
  split at h
  · rename_i heq
    cases h
    exact heq
  · cases h

/-- What a run that writes went through: it loaded a document, expanded its arguments,
built its host map and placed the hosts. -/
theorem hostMap_of_writes (hrun : isHostRun r.argv = true) (h : doc ∈ r.writes disk) :
    ∃ removal base cfg expanded hosts conflict,
      removalFirst r.changedHosts = .ok removal ∧
      loadedDocument r.env disk (r.add || removal) = .ok base ∧
      ensureRequiredGroups roles base = .ok cfg ∧
      range2ips r.env r.changedHosts = .ok expanded ∧
      buildHostnames r.env cfg expanded (r.add || removal) = .ok hosts ∧
      r.base disk = .ok base ∧ r.hostMap disk = .ok hosts ∧
      assignment doc = place r.env conflict hosts.keys (assignment base) := by
  obtain ⟨cfg', hres, rfl, -⟩ := hostRun_of_writes hrun h
  obtain ⟨removal, base, cfg, expanded, hosts, conflict, hremoval, hload, hcfg, hexpanded,
    hhosts, -, hplace⟩ := hostRun_eq_ok hres
  have hbase : r.base disk = .ok base := by
    rw [Run.base, hremoval]
    exact hload
  have hmap : r.hostMap disk = .ok hosts :=
    bind_eq_ok_iff.mpr ⟨removal, hremoval, bind_eq_ok_iff.mpr ⟨base, hbase,
      bind_eq_ok_iff.mpr ⟨cfg, hcfg, bind_eq_ok_iff.mpr ⟨expanded, hexpanded, hhosts⟩⟩⟩⟩
  exact ⟨removal, base, cfg, expanded, hosts, conflict, hremoval, hload, hcfg, hexpanded,
    hhosts, hbase, hmap, (assignment_toDocument cfg').trans hplace⟩

/-- **What a run writes**: the placement of its host list on the assignment it started
from. -/
theorem writes_assignment (hrun : isHostRun r.argv = true) (h : doc ∈ r.writes disk) :
    ∃ conflict, assignment doc
      = place r.env conflict (r.hostList disk) (r.carried disk) := by
  obtain ⟨-, base, -, -, hosts, conflict, -, -, -, -, -, hbase, hmap, hplace⟩ :=
    hostMap_of_writes hrun h
  refine ⟨conflict, ?_⟩
  rw [Run.hostList, Run.carried, hbase, hmap]
  exact hplace

/-- The host list of a run has no repetitions. -/
theorem hostList_nodup (r : Run) (disk : Disk) : (r.hostList disk).Nodup := by
  rw [Run.hostList]
  cases r.hostMap disk with
  | ok hosts => exact hosts.keys_nodup
  | error e => exact List.nodup_nil

/-- The document that a run loads is missing or the one on disk. -/
theorem loadedDocument_cases {env : Env} {load : Bool}
    (h : loadedDocument env disk load = .ok doc) : doc = .missing ∨ disk = some doc := by
  unfold loadedDocument at h
  split_ifs at h
  · cases disk with
    | none => cases h
    | some stored =>
        cases h
        exact Or.inr rfl
  · cases h
    exact Or.inl rfl

/-- A run starts from a missing document or from the one on disk. -/
theorem base_cases (h : r.base disk = .ok doc) : doc = .missing ∨ disk = some doc := by
  obtain ⟨removal, -, hload⟩ := ok_of_bind h
  exact loadedDocument_cases hload

/-- A run starts from the assignment of the file on disk, or from none. -/
theorem carried_cases (r : Run) (disk : Disk) :
    r.carried disk = .none ∨ ∃ doc, disk = some doc ∧ r.carried disk = assignment doc := by
  rw [Run.carried]
  cases hbase : r.base disk with
  | error e => exact Or.inl rfl
  | ok doc =>
      rcases base_cases hbase with rfl | hdisk
      · exact Or.inl rfl
      · exact Or.inr ⟨doc, hdisk, rfl⟩

/-- The groups a run starts from have no repetitions. -/
theorem carried_group_nodup (r : Run) (disk : Disk) (role : Text) :
    ((r.carried disk).group role).Nodup := by
  rcases carried_cases r disk with h | ⟨doc, -, h⟩ <;> rw [h]
  · exact List.nodup_nil
  · exact members_nodup doc role

/-- A successful step that writes nothing leaves the file alone. -/
theorem builderStep_cases (h : builderStep disk r = some disk') :
    isHostRun r.argv = true ∧ (disk' = disk ∨ ∃ doc ∈ r.writes disk, disk' = some doc) := by
  rw [builderStep] at h
  split_ifs at h with hrun
  cases h
  refine ⟨hrun.1, ?_⟩
  have hok := hrun.2
  have hinv : invoke r.env r.files disk r.argv = _ := invoke_of_isHostRun hrun.1
  rw [Run.writes]
  rw [hinv] at hok ⊢
  cases hres : hostRun r.env disk r.add r.changedHosts with
  | error e =>
      rw [hres] at hok
      cases hok
  | ok outcome =>
      cases outcome with
      | none => exact Or.inl rfl
      | some cfg =>
          by_cases hfile : r.env.configFile = true
          · refine Or.inr ⟨cfg.toDocument, ?_, ?_⟩ <;>
              simp [finishRun, writeConfig, hfile]
          · exact Or.inl (by simp [finishRun, writeConfig, hfile])

/-- An invariant of the file: when every run that starts in it writes a file in it, every
step keeps it. -/
theorem disk_invariant {I : Disk → Prop}
    (hstep : ∀ (r : Run) disk doc, I disk → isHostRun r.argv = true → doc ∈ r.writes disk →
      I (some doc))
    (hdisk : I disk) (h : builderStep disk r = some disk') : I disk' := by
  obtain ⟨hrun, rfl | ⟨doc, hdoc, rfl⟩⟩ := builderStep_cases h
  · exact hdisk
  · exact hstep r disk doc hdisk hrun hdoc

/-- A property of everything written is a condition on every run when the two agree on
each run that writes and that finds a file in an invariant. -/
theorem everyWritten_iff_of_invariant {I : Disk → Prop} (hnone : I none)
    (hstep : ∀ (r : Run) disk doc, I disk → isHostRun r.argv = true → doc ∈ r.writes disk →
      I (some doc))
    {Q : Run → Document → Prop} {C : Run → Disk → Prop}
    (h : ∀ r disk doc, I disk → isHostRun r.argv = true → doc ∈ r.writes disk →
      (Q r doc ↔ C r disk))
    (runs : List Run) : EveryWritten Q runs ↔ EveryRun C runs := by
  refine along_congr_of_invariant (I := I)
    (fun disk r disk' hI hs => disk_invariant hstep hI hs) (fun disk r disk' hI hs => ?_)
    hnone runs
  have hrun := (builderStep_cases hs).1
  constructor
  · intro hQ hsome
    obtain ⟨doc, hdoc⟩ := Option.isSome_iff_exists.mp hsome
    exact (h r disk doc hI hrun hdoc).mp (hQ doc hdoc)
  · intro hC doc hdoc
    exact (h r disk doc hI hrun hdoc).mpr (hC (Option.isSome_iff_exists.mpr ⟨doc, hdoc⟩))

/-- **A property of everything written is a condition on every run** when the two agree
on each run that writes. -/
theorem everyWritten_iff {Q : Run → Document → Prop} {C : Run → Disk → Prop}
    (h : ∀ r disk doc, isHostRun r.argv = true → doc ∈ r.writes disk → (Q r doc ↔ C r disk))
    (runs : List Run) : EveryWritten Q runs ↔ EveryRun C runs :=
  everyWritten_iff_of_invariant (I := fun _ => True) trivial (fun _ _ _ _ _ _ => trivial)
    (fun r disk doc _ hrun hdoc => h r disk doc hrun hdoc) runs

/-- **The invariant rule**: a property of assignments that holds of the empty one and that
every placement of a host list preserves holds of everything written. -/
theorem everyWritten_of_invariant {I : Assignment → Prop} (hnone : I .none)
    (hplace : ∀ env conflict hosts a, I a → I (place env conflict hosts a))
    (runs : List Run) : EveryWritten (fun _ doc => I (assignment doc)) runs := by
  refine along_of_invariant (I := fun disk => ∀ doc ∈ disk, I (assignment doc))
    (fun disk r disk' hdisk hstep => ?_) (fun doc hdoc => by cases hdoc) runs
  obtain ⟨hrun, hcases⟩ := builderStep_cases hstep
  have hcarried : I (r.carried disk) := by
    rcases carried_cases r disk with h | ⟨doc, hdoc, h⟩ <;> rw [h]
    · exact hnone
    · exact hdisk doc hdoc
  have hwritten : ∀ doc ∈ r.writes disk, I (assignment doc) := by
    intro doc hdoc
    obtain ⟨conflict, heq⟩ := writes_assignment hrun hdoc
    rw [heq]
    exact hplace r.env conflict (r.hostList disk) (r.carried disk) hcarried
  refine ⟨?_, hwritten⟩
  rcases hcases with rfl | ⟨doc, hdoc, rfl⟩
  · exact hdisk
  · intro doc' hdoc'
    cases hdoc'
    exact hwritten doc hdoc

end Kubespray.Inventory
