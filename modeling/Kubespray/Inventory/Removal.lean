import Kubespray.Inventory.Runs

/-!
# Runs with Removals

An invocation without a command word may name hosts to remove, `-hostname` or `-address`,
among its arguments. Whether the stored inventory is loaded is decided from the first
argument alone, before any of them is read, although the comment on that test speaks of
every run that removes a node.

## Main results

* `foldlM_stepHost_keeps`: the walk over the arguments keeps every host that no removal
  among them designates.
* `removalRun_keeps_iff`: the written inventory keeps the hosts that no removal
  designates exactly when a removal comes first, or the command line would list them by
  itself, on no inventory at all.
-/

namespace Kubespray.Inventory

open OrderedDict Fallible

variable {env : Env} {r : Run} {doc doc' : Document}

/-- The walk over the hosts of a file, before the first argument. -/
def storedWalk (env : Env) (doc : Document) : Except Abort Walk :=
  (highestHostId env (hostNames doc)).map (Walk.start (storedHosts doc))

/-- One argument designates a host for removal: by its name, by the address the file has
for it, or by the address that the walk so far has for it. -/
def designates (file : OrderedDict Text Value) (w : Except Abort Walk) (h : Text) :
    Text → Bool
  | '-' :: x =>
    x = h || ipOf file h = some x ||
      match w with
      | .ok w => ipOf w.allHosts h = some x
      | .error _ => false
  | _ => false

/-- Some argument of the list designates the host. -/
def designated (env : Env) (file : OrderedDict Text Value) :
    Except Abort Walk → List Text → Text → Bool
  | _, [], _ => false
  | w, arg :: args, h =>
    designates file w h arg || designated env file (w >>= fun w => stepHost env w arg) args h

namespace Run

/-- The arguments of a run with the address ranges written out. -/
def arguments (r : Run) : List Text :=
  match range2ips r.env r.changedHosts with
  | .ok args => args
  | .error _ => []

/-- A removal argument of the run designates the host of the file. -/
def removes (r : Run) (doc : Document) (h : Text) : Bool :=
  designated r.env (storedHosts doc) (storedWalk r.env doc) r.arguments h

end Run

/-- An invocation without a command word that has a removal argument. -/
structure RemovalRun (r : Run) : Prop where
  noCommand : ∀ command ∈ r.argv.head?, command ∉ availableCommands
  removal : ∃ x, '-' :: x ∈ r.argv

/-- Every host of the file that no removal designates is a host of what is written. -/
def KeepsOthers (r : Run) (doc doc' : Document) : Prop :=
  ∀ h ∈ hostNames doc, r.removes doc h = false → h ∈ hostNames doc'

instance (r : Run) (doc doc' : Document) : Decidable (KeepsOthers r doc doc') :=
  inferInstanceAs (Decidable (∀ h ∈ hostNames doc, _ → _))

/-! ### The walk keeps what is not designated -/

/-- An argument that does not designate a host keeps it. -/
theorem stepHost_keeps {file : OrderedDict Text Value} {w w' : Walk} {arg h : Text}
    (hstep : stepHost env w arg = .ok w') (hmem : h ∈ w.allHosts.keys)
    (hno : designates file (.ok w) h arg = false) : h ∈ w'.allHosts.keys := by
  by_contra hlost
  obtain ⟨x, rfl, hx⟩ := stepHost_lost hstep hmem hlost
  simp only [designates, Bool.or_eq_false_iff, decide_eq_false_iff_not] at hno
  exact hx.elim hno.1.1 hno.2

/-- **The walk over the arguments keeps what no argument designates.** -/
theorem foldlM_stepHost_keeps {file : OrderedDict Text Value} {args : List Text} {w w' : Walk}
    {h : Text} (hwalk : args.foldlM (stepHost env) w = .ok w') (hmem : h ∈ w.allHosts.keys)
    (hno : designated env file (.ok w) args h = false) : h ∈ w'.allHosts.keys := by
  induction args generalizing w with
  | nil =>
      cases hwalk
      exact hmem
  | cons arg args ih =>
      obtain ⟨w₁, hstep, hwalk⟩ := foldlM_cons_eq_ok_iff.mp hwalk
      rw [designated, Bool.or_eq_false_iff] at hno
      have hrest : designated env file (stepHost env w arg) args h = false := hno.2
      rw [hstep] at hrest
      exact ih hwalk (stepHost_keeps hstep hmem hno.1) hrest

/-! ### What a removal run starts from -/

namespace RemovalRun

variable (hrun : RemovalRun r)
include hrun

/-- The run is no `add`. -/
theorem add_eq_false : r.add = false := by
  refine decide_eq_false fun hadd => ?_
  exact hrun.noCommand _ hadd (by decide)

/-- All arguments name hosts. -/
theorem changedHosts_eq : r.changedHosts = r.argv := by
  rw [Run.changedHosts, hrun.add_eq_false]
  rfl

/-- The run names hosts. -/
theorem isHostRun_eq : isHostRun r.argv = true :=
  decide_eq_true (Or.inr hrun.noCommand)

end RemovalRun

/-- **Loaded files lose only what is designated**: the host list of a run that builds on
the hosts of a file keeps the others. -/
theorem buildHostnames_keeps {cfg : Config} {args : List Text}
    {hosts : OrderedDict Text Value} {h : Text}
    (hcfg : ensureRequiredGroups roles doc = .ok cfg)
    (hbuild : buildHostnames env cfg args true = .ok hosts) (hmem : h ∈ hostNames doc)
    (hno : designated env (storedHosts doc) (storedWalk env doc) args h = false) :
    h ∈ hosts.keys := by
  obtain ⟨⟨start, highest⟩, hstart, hbuild⟩ := ok_of_bind hbuild
  obtain ⟨w, hwalk, hbuild⟩ := ok_of_bind hbuild
  cases hbuild
  obtain ⟨hhosts, hid⟩ := existingHosts_eq_ok hstart
  cases doc with
  | missing | null => cases hmem
  | is all =>
      rw [ensureRequiredGroups_hosts hcfg] at hhosts
      have hstored : storedHosts (.is all) = start := by
        simp only [storedHosts, hhosts]
      rw [← keys_storedHosts, hstored] at hmem
      have hw : storedWalk env (.is all) = .ok (Walk.start start highest) := by
        rw [storedWalk, ← keys_storedHosts, hstored, hid]
        rfl
      rw [hw] at hno
      exact foldlM_stepHost_keeps hwalk hmem hno

/-- A run that does not load the file starts from the empty document. -/
theorem base_of_not_loaded {disk : Disk} (hadd : r.add = false)
    (hfirst : removalFirst r.changedHosts = .ok false) : r.base disk = .ok .missing := by
  unfold Run.base loadedDocument
  rw [hadd, hfirst]
  exact if_neg (by simp)

/-- A run that does not load the file works out the same host list on no file. -/
theorem hostList_of_not_loaded {disk : Disk} (hadd : r.add = false)
    (hfirst : removalFirst r.changedHosts = .ok false) : r.hostList disk = r.hostList none := by
  unfold Run.hostList Run.hostMap
  rw [base_of_not_loaded hadd hfirst, base_of_not_loaded hadd hfirst]

/-- A run that does not load the file carries nothing over. -/
theorem carried_of_not_loaded {disk : Disk} (hadd : r.add = false)
    (hfirst : removalFirst r.changedHosts = .ok false) : r.carried disk = .none := by
  rw [Run.carried, base_of_not_loaded hadd hfirst]
  rfl

/-- The hosts of what a run writes. -/
theorem mem_hostNames_of_writes {disk : Disk} (hrun : isHostRun r.argv = true)
    (hdoc : doc' ∈ r.writes disk) {h : Text} :
    h ∈ hostNames doc' ↔
      (h ∈ (r.carried disk).hosts ∧ kept (r.hostList disk) h = true) ∨ h ∈ r.hostList disk := by
  obtain ⟨conflict, heq⟩ := writes_assignment hrun hdoc
  have hhosts : hostNames doc' = _ := congrArg Assignment.hosts heq
  rw [hhosts, place_hosts, mem_addKeys, List.mem_filter]

/-- A run whose first argument is a removal lists the hosts of the file that no removal
designates. -/
theorem mem_hostList_of_removalFirst (hrun : RemovalRun r) (hdoc : doc' ∈ r.writes (some doc))
    (hfirst : removalFirst r.changedHosts = .ok true) {h : Text} (hmem : h ∈ hostNames doc)
    (hno : r.removes doc h = false) : h ∈ r.hostList (some doc) := by
  obtain ⟨-, -, -, hfile⟩ := hostRun_of_writes hrun.isHostRun_eq hdoc
  obtain ⟨removal, base, cfg, expanded, hosts, -, hremoval, hload, hcfg, hexpanded, hhosts,
    -, hmap, -⟩ := hostMap_of_writes hrun.isHostRun_eq hdoc
  obtain rfl : removal = true := Except.ok.inj (hremoval.symm.trans hfirst)
  have hbase : base = doc := by
    rw [loadedDocument, hfile, Bool.or_true, if_pos ⟨rfl, rfl⟩] at hload
    cases hload
    rfl
  have hargs : r.arguments = expanded := by
    rw [Run.arguments, hexpanded]
  subst hbase
  rw [Run.removes, hargs] at hno
  rw [Bool.or_true] at hhosts
  rw [Run.hostList, hmap]
  exact buildHostnames_keeps hcfg hhosts hmem hno

/-- **Removal runs and unrelated hosts.** The hosts that no removal designates survive
exactly when the first argument is a removal, so that the file is loaded, or the command
line lists them by itself even where there is no inventory. -/
theorem removalRun_keeps_iff (hrun : RemovalRun r) (hdoc : doc' ∈ r.writes (some doc)) :
    KeepsOthers r doc doc' ↔
      removalFirst r.argv = .ok true ∨
        ∀ h ∈ hostNames doc, r.removes doc h = false → h ∈ r.hostList none := by
  have hadd := hrun.add_eq_false
  obtain ⟨removal, -, -, -, -, -, hfirst, -⟩ := hostMap_of_writes hrun.isHostRun_eq hdoc
  rw [KeepsOthers, ← hrun.changedHosts_eq, hfirst]
  simp only [mem_hostNames_of_writes hrun.isHostRun_eq hdoc]
  cases removal with
  | false =>
      rw [carried_of_not_loaded hadd hfirst, hostList_of_not_loaded hadd hfirst]
      constructor
      · intro hkeep
        exact Or.inr fun h hmem hno =>
          (hkeep h hmem hno).resolve_left fun hold => List.not_mem_nil hold.1
      · rintro (hload | hlisted)
        · cases hload
        · exact fun h hmem hno => Or.inr (hlisted h hmem hno)
  | true =>
      exact ⟨fun _ => Or.inl rfl, fun _ h hmem hno =>
        Or.inr (mem_hostList_of_removalFirst hrun hdoc hfirst hmem hno)⟩

/-- A file with the hosts `node5` and `node6`. -/
def twoNodes : Document :=
  .is
    { hosts := .is ((OrderedDict.empty.set "node5".toList
        (hostOpts "10.0.0.5".toList "10.0.0.5".toList)).set "node6".toList
        (hostOpts "10.0.0.6".toList "10.0.0.6".toList))
      children := .is OrderedDict.empty }

/-- With the removal in front, `-node6 10.0.0.9` keeps `node5`. -/
theorem removalRun_keeps_twoNodes :
    ∃ r : Run, ∃ doc' ∈ r.writes (some twoNodes), KeepsOthers r twoNodes doc' :=
  let r : Run :=
    { env := .default, files := fun _ => none, argv := ["-node6".toList, "10.0.0.9".toList] }
  have hrun : RemovalRun r := ⟨by decide, "node6".toList, by decide⟩
  have hdoc := Option.get_mem (show (r.writes (some twoNodes)).isSome by decide)
  ⟨r, _, hdoc, (removalRun_keeps_iff hrun hdoc).mpr (Or.inl rfl)⟩

/-- With the removal behind, `10.0.0.9 -node6` loses `node5`. -/
theorem removalRun_keeps_fails :
    ¬ ∀ (r : Run) (doc doc' : Document), RemovalRun r → doc' ∈ r.writes (some doc) →
      KeepsOthers r doc doc' := by
  intro h
  let r : Run :=
    { env := .default, files := fun _ => none, argv := ["10.0.0.9".toList, "-node6".toList] }
  have hrun : RemovalRun r := ⟨by decide, "node6".toList, by decide⟩
  have hdoc := Option.get_mem (show (r.writes (some twoNodes)).isSome by decide)
  have hkeep := h r twoNodes _ hrun hdoc
  revert hkeep
  decide

end Kubespray.Inventory
