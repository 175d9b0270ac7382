import Kubespray.Inventory.Hostnames
import Kubespray.Inventory.Groups

/-!
# Runs of the Inventory Builder

One invocation of `inventory.py`: which command it is, whether the stored inventory is
loaded, and the five steps that distribute the hosts over the groups. The stored
inventory is a `Disk`; an invocation leaves a disk and an `Ending`.

## Main results

* `hostRun_eq_ok`: everything a run that reaches `write_config` has done — the document
  it started from, the host map it built and the assignment it wrote, which is `place` of
  the assignment it started from. All later results about runs start here.
* `placeHosts_assignment`: the five steps refine the abstract `place`.
-/

namespace Kubespray.Inventory

open OrderedDict Fallible

/-- The inventory file: absent, or a document. -/
abbrev Disk := Option Document

/-- How an invocation ended. -/
inductive Ending
  /-- `write_config` wrote the inventory and the run returned. -/
  | saved
  /-- The run returned, but `CONFIG_FILE` is empty and nothing was written. -/
  | unsaved
  /-- `sys.exit(0)` after printing. -/
  | exited
  | aborted (e : Abort)

/-- The invocation ended with status 0. -/
def Ending.successful : Ending → Bool
  | .aborted _ => false
  | _ => true

/-! ### The steps of a run -/

/-- The steps that follow `build_hostnames`: purge, then fill the groups. -/
def placeHosts (env : Env) (hosts : OrderedDict Text Value) (cfg : Config) :
    Except Abort Config := do
  let cfg ← purgeInvalidHosts hosts.keys protectedNames cfg
  let cfg ← setAll hosts cfg
  let cfg := setK8sCluster cfg
  let count := etcdHostsCount hosts.keys
  let cfg ← setEtcd (hosts.keys.take count) cfg
  let cfg ← setKubeControlPlane (controlPlaneHosts env hosts.keys) cfg
  let cfg ← setKubeNode env hosts.keys cfg
  if env.scaleThreshold ≤ hosts.keys.length then
    setCalicoRr (hosts.keys.take count) cfg
  else
    return cfg

/-- `changed_hosts[0][0] == "-"`, on a non-empty list of arguments. -/
def removalFirst (changedHosts : List Text) : Except Abort Bool :=
  match changedHosts with
  | [] => .ok false
  | [] :: _ => .error .indexError
  | (c :: _) :: _ => .ok (c = '-')

/-- The document a run starts from: the stored one when it is to be loaded, else `{}`. -/
def loadedDocument (env : Env) (disk : Disk) (loadPreviousConfig : Bool) :
    Except Abort Document :=
  if env.configFile ∧ loadPreviousConfig then
    match disk with
    | some doc => .ok doc
    | none => .error (.exit 1)
  else
    .ok .missing

/-- The part of `__init__` after the command word: the configuration to be written, or
`none` when there are no arguments and the help text is shown instead. -/
def hostRun (env : Env) (disk : Disk) (add : Bool) (changedHosts : List Text) :
    Except Abort (Option Config) := do
  let loadPreviousConfig := add || (← removalFirst changedHosts)
  let doc ← loadedDocument env disk loadPreviousConfig
  let cfg ← ensureRequiredGroups roles doc
  if changedHosts = [] then
    return none
  else
    let changedHosts ← range2ips env changedHosts
    let hosts ← buildHostnames env cfg changedHosts loadPreviousConfig
    let cfg ← placeHosts env hosts cfg
    return some cfg

/-! ### Loading a JSON file -/

/-- `d.items()`. -/
def Value.items : Value → Except Abort (List (Text × Value))
  | .obj fields => .ok fields
  | _ => .error .attributeError

/-- `opts['ip']`. -/
def Value.ipField : Value → Except Abort Value
  | .obj fields =>
    match fields.lookup "ip".toList with
    | some v => .ok v
    | none => .error .keyError
  | _ => .error .typeError

/-- The options `load_file` writes for a host. -/
def loadedOpts (ip : Value) : Value :=
  .obj [("ansible_host".toList, ip), ("ip".toList, ip), ("access_ip".toList, ip)]

/-- The two additions `load_file` makes for one host of one group. The second one passes no
options, so that they are the empty string, its default. -/
def loadHost (group : Text) (cfg : Config) (e : Text × Value) : Except Abort Config := do
  let ip ← e.2.ipField
  let cfg ← addHostToGroup cfg "all".toList e.1 (loadedOpts ip)
  addHostToGroup cfg group e.1 (.str [])

/-- One group of the data of `load_file`. -/
def loadGroup (cfg : Config) (e : Text × Value) : Except Abort Config := do
  let cfg ← ensureRequiredGroups [e.1] cfg.toDocument
  let hosts ← e.2.items
  hosts.foldlM (loadHost e.1) cfg

/-- One file of `load_file`: `data` is the parsed file, or `none` when it cannot be
opened, or `some none` when it is not JSON. -/
def loadOne (doc : Document) (data : Option (Option Value)) : Except Abort Config := do
  match data with
  | none => .error .osError
  | some none => .error (.exception "Cannot read %s as JSON, or CSV".toList)
  | some (some data) => do
    let cfg ← ensureRequiredGroups roles doc
    let groups ← data.items
    groups.foldlM loadGroup (setK8sCluster cfg)

/-! ### An invocation -/

/-- `write_config`. -/
def writeConfig (env : Env) (disk : Disk) (cfg : Config) : Disk × Ending :=
  if env.configFile then (some cfg.toDocument, .saved) else (disk, .unsaved)

/-- The loop of `load_file` over the files: each file is written before the next one is
read. -/
def loadFiles (env : Env) (files : Text → Option (Option Value)) :
    Disk → Document → List Text → Disk × Ending
  | disk, _, [] => (disk, .exited)
  | disk, doc, f :: fs =>
    match loadOne doc (files f) with
    | .error e => (disk, .aborted e)
    | .ok cfg => loadFiles env files (writeConfig env disk cfg).1 cfg.toDocument fs

/-- `parse_command`, for the commands that do not add hosts; the configuration is still
the empty one when it is called. -/
def parseCommand (env : Env) (files : Text → Option (Option Value)) (disk : Disk)
    (command : Text) (args : List Text) : Disk × Ending :=
  if command = "help".toList ∨ command = "print_cfg".toList then (disk, .exited)
  else if command = "print_ips".toList then (disk, .aborted .keyError)
  else if command = "load".toList then
    if args = [] then (disk, .aborted (.exception "No input file specified.".toList))
    else loadFiles env files disk .missing args
  else (disk, .aborted (.exception "Invalid command specified.".toList))

/-- `print_hostnames`, on the loaded document. -/
def printHostnames (env : Env) (disk : Disk) : Ending :=
  match loadedDocument env disk true with
  | .error e => .aborted e
  | .ok .missing => .aborted .keyError
  | .ok .null => .aborted .typeError
  | .ok (.is all) =>
    match all.hosts with
    | .is _ => .exited
    | .null => .aborted .attributeError
    | .missing => .aborted .keyError

/-- What an invocation makes of the outcome of `hostRun`. -/
def finishRun (env : Env) (disk : Disk) (outcome : Except Abort (Option Config)) :
    Disk × Ending :=
  match outcome with
  | .error e => (disk, .aborted e)
  | .ok none => (disk, .exited)
  | .ok (some cfg) => writeConfig env disk cfg

/-- `KubesprayInventory.__init__`: the arguments of the command line, the files they may
name, and the inventory on disk. -/
def invoke (env : Env) (files : Text → Option (Option Value)) (disk : Disk)
    (argv : List Text) : Disk × Ending :=
  match argv with
  | [] => finishRun env disk (hostRun env disk false [])
  | command :: args =>
    if command = "add".toList then finishRun env disk (hostRun env disk true args)
    else if command = "print_hostnames".toList then (disk, printHostnames env disk)
    else if command ∈ availableCommands then parseCommand env files disk command args
    else finishRun env disk (hostRun env disk false argv)

/-- The invocation names hosts: its first argument is `add`, or no command at all. -/
def isHostRun (argv : List Text) : Bool :=
  argv.head? = some "add".toList ∨ ∀ command ∈ argv.head?, command ∉ availableCommands

/-! ### What a run does -/

/-- The last step of `placeHosts`, which only a run at scale takes. -/
def placeCalicoRr (env : Env) (hostnames : List Text) (cfg : Config) : Except Abort Config :=
  if env.scaleThreshold ≤ hostnames.length then
    setCalicoRr (hostnames.take (etcdHostsCount hostnames)) cfg
  else
    .ok cfg

/-- A run that completed its steps has made `place` of its assignment. -/
theorem assignment_of_steps {env : Env} {hosts : OrderedDict Text Value}
    {cfg c₁ c₂ c₄ c₅ c₆ cfg' : Config}
    (h₁ : purgeInvalidHosts hosts.keys protectedNames cfg = .ok c₁)
    (h₂ : setAll hosts c₁ = .ok c₂)
    (h₄ : setEtcd (hosts.keys.take (etcdHostsCount hosts.keys)) (setK8sCluster c₂) = .ok c₄)
    (h₅ : setKubeControlPlane (controlPlaneHosts env hosts.keys) c₄ = .ok c₅)
    (h₆ : setKubeNode env hosts.keys c₅ = .ok c₆)
    (h : placeCalicoRr env hosts.keys c₆ = .ok cfg') :
    cfg'.assignment = place env (calicoConflict c₆) hosts.keys cfg.assignment := by
  have hnodes : c₆.assignment = _ := setKubeNode_assignment h₆
  rw [setKubeControlPlane_assignment h₅, setEtcd_assignment h₄, setK8sCluster_assignment,
    setAll_assignment h₂, purgeInvalidHosts_assignment h₁] at hnodes
  rw [placeCalicoRr] at h
  unfold place calicoHosts
  dsimp only
  by_cases hscale : env.scaleThreshold ≤ (hosts.keys.length : ℤ)
  · rw [if_pos hscale] at h
    rw [if_pos hscale, setCalicoRr_assignment h, hnodes]
    rfl
  · rw [if_neg hscale] at h
    cases h
    rw [if_neg hscale, assign_nil, hnodes]
    rfl

/-- **The steps refine `place`.** -/
theorem placeHosts_assignment {env : Env} {hosts : OrderedDict Text Value} {cfg cfg' : Config}
    (h : placeHosts env hosts cfg = .ok cfg') :
    ∃ conflict, cfg'.assignment = place env conflict hosts.keys cfg.assignment := by
  obtain ⟨c₁, h₁, h⟩ := ok_of_bind h
  obtain ⟨c₂, h₂, h⟩ := ok_of_bind h
  obtain ⟨c₄, h₄, h⟩ := ok_of_bind h
  obtain ⟨c₅, h₅, h⟩ := ok_of_bind h
  obtain ⟨c₆, h₆, h⟩ := ok_of_bind h
  exact ⟨calicoConflict c₆, assignment_of_steps h₁ h₂ h₄ h₅ h₆ h⟩

/-- **Everything a completed run has done.** It started from a document, expanded its
arguments, built a host map, and wrote the placement of that map's hosts. -/
theorem hostRun_eq_ok {env : Env} {disk : Disk} {add : Bool} {changedHosts : List Text}
    {cfg' : Config} (h : hostRun env disk add changedHosts = .ok (some cfg')) :
    ∃ removal doc cfg expanded hosts conflict,
      removalFirst changedHosts = .ok removal ∧
      loadedDocument env disk (add || removal) = .ok doc ∧
      ensureRequiredGroups roles doc = .ok cfg ∧
      range2ips env changedHosts = .ok expanded ∧
      buildHostnames env cfg expanded (add || removal) = .ok hosts ∧
      cfg.assignment = assignment doc ∧
      cfg'.assignment = place env conflict hosts.keys (assignment doc) := by
  obtain ⟨removal, hremoval, h⟩ := ok_of_bind h
  obtain ⟨doc, hdoc, h⟩ := ok_of_bind h
  obtain ⟨cfg, hcfg, h⟩ := ok_of_bind h
  by_cases hnil : changedHosts = []
  · rw [if_pos hnil] at h
    cases h
  · rw [if_neg hnil] at h
    obtain ⟨expanded, hexpanded, h⟩ := ok_of_bind h
    obtain ⟨hosts, hhosts, h⟩ := ok_of_bind h
    obtain ⟨cfg₁, hplace, h⟩ := ok_of_bind h
    cases h
    have hassign := ensureRequiredGroups_assignment hcfg
    obtain ⟨conflict, hplaced⟩ := placeHosts_assignment hplace
    rw [hassign] at hplaced
    exact ⟨removal, doc, cfg, expanded, hosts, conflict, hremoval, hdoc, hcfg, hexpanded,
      hhosts, hassign, hplaced⟩

end Kubespray.Inventory
