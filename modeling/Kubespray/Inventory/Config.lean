import Kubespray.Library.OrderedDict
import Kubespray.Text

/-!
# The Data of the Inventory Builder

`contrib/inventory_builder/inventory.py` keeps one nested dictionary, `yaml_config`: the
group `all` with its `hosts` and with `children`, the role groups. This module has the
types of that data and the settings the script reads from its environment.

A file on disk may be anything a user wrote, so at each level of the nesting a key may
be missing or may hold `null`; `Entry` keeps the three cases apart, because the script
treats them differently (a missing key raises, a `null` group is filled in). After
`ensure_required_groups` the level `children` is a dictionary, which is what `Config`
records, so that the later steps need not ask again.

Left out are the parts of a YAML file that no step reads or writes: keys beside `all`,
and the keys beside `hosts` and `children` of the group `all`. Of the role groups the
other keys are kept by name, because `set_calico_rr` looks into them. A role group that
is `null` is counted as one without keys; the purge raises on both.
-/

namespace Kubespray.Inventory

open OrderedDict

/-- A value of a YAML or JSON document. -/
inductive Value
  | null
  | bool (b : Bool)
  | num (literal : Text)
  | str (t : Text)
  | arr (xs : List Value)
  | obj (fields : List (Text × Value))

/-- How a run of the script ends other than by returning. -/
inductive Abort
  /-- `sys.exit` with a non-zero status, after the exception has been printed. -/
  | exit (status : ℕ)
  | valueError (message : Text)
  | exception (message : Text)
  | keyError
  | typeError
  | indexError
  | attributeError
  | unboundLocalError
  | osError
  | calledProcessError

/-- What stands under a key of a document: nothing, `null`, or a value of the expected
shape. -/
inductive Entry (α : Type)
  | missing
  | null
  | is (a : α)

/-- A group below `all.children`. -/
structure Group where
  /-- The key `hosts`: the members with their (usually null) variables. -/
  hosts : Entry (OrderedDict Text Value)
  /-- The key `children`: the names of the groups below this one. -/
  children : Option (List Text)
  /-- The names of any further keys, such as `vars`. -/
  others : List Text

namespace Group

/-- The keys of a group as a dictionary. -/
def keys (g : Group) : List Text :=
  (match g.hosts with
    | .missing => []
    | _ => ["hosts".toList]) ++
  (if g.children.isSome then ["children".toList] else []) ++ g.others

/-- The hosts listed directly in a group. -/
def members (g : Group) : List Text :=
  match g.hosts with
  | .is d => d.keys
  | _ => []

/-- No host is listed twice. -/
theorem members_nodup (g : Group) : g.members.Nodup := by
  rw [members]
  cases g.hosts with
  | is d => exact d.keys_nodup
  | missing | null => exact List.nodup_nil

/-- The group `{'hosts': {}}`. -/
def fresh : Group :=
  { hosts := .is OrderedDict.empty, children := none, others := [] }

@[simp] theorem members_fresh : fresh.members = [] := rfl

end Group

/-- The group `all` of a document. -/
structure AllGroup where
  /-- The key `hosts`: every host with its options. -/
  hosts : Entry (OrderedDict Text Value)
  /-- The key `children`: the role groups. -/
  children : Entry (OrderedDict Text Group)

/-- An inventory document: what is under its key `all`. A `null` document is counted as
one with a `null` group `all`; the script raises the same error on both. -/
abbrev Document := Entry AllGroup

/-- `self.yaml_config` once `ensure_required_groups` has run: the group `all`, whose
children are a dictionary. -/
structure Config where
  hosts : Entry (OrderedDict Text Value)
  children : OrderedDict Text Group

/-- The configuration as the document that is written to disk. -/
def Config.toDocument (cfg : Config) : Document :=
  .is { hosts := cfg.hosts, children := .is cfg.children }

/-! ### Reading a configuration -/

/-- The keys of `all.hosts`. -/
def Config.hostNames (cfg : Config) : List Text :=
  match cfg.hosts with
  | .is d => d.keys
  | _ => []

/-- The hosts of a role group. -/
def Config.members (cfg : Config) (role : Text) : List Text :=
  match cfg.children.get? role with
  | some g => g.members
  | none => []

/-- The keys of `all.hosts` of a document. -/
def hostNames : Document → List Text
  | .is a =>
    match a.hosts with
    | .is d => d.keys
    | _ => []
  | _ => []

/-- The hosts a document lists under `all`, with their options. -/
def storedHosts : Document → OrderedDict Text Value
  | .is all =>
    match all.hosts with
    | .is d => d
    | _ => OrderedDict.empty
  | _ => OrderedDict.empty

/-- The hosts a document names. -/
@[simp] theorem keys_storedHosts (doc : Document) : (storedHosts doc).keys = hostNames doc := by
  cases doc with
  | missing | null => rfl
  | is all =>
      obtain ⟨hosts, children⟩ := all
      cases hosts <;> rfl

/-- The hosts of a role group of a document. -/
def members (doc : Document) (role : Text) : List Text :=
  match doc with
  | .is a =>
    match a.children with
    | .is d =>
      match d.get? role with
      | some g => g.members
      | none => []
    | _ => []
  | _ => []

/-- The hosts of a role group are pairwise distinct. -/
theorem Config.members_nodup (cfg : Config) (role : Text) : (cfg.members role).Nodup := by
  rw [Config.members]
  cases cfg.children.get? role with
  | some g => exact g.members_nodup
  | none => exact List.nodup_nil

/-- The hosts of a role group of a document are pairwise distinct. -/
theorem members_nodup (doc : Document) (role : Text) : (members doc role).Nodup := by
  cases doc with
  | missing | null => exact List.nodup_nil
  | is all =>
      obtain ⟨hosts, children⟩ := all
      cases children with
      | missing | null => exact List.nodup_nil
      | is d => exact Config.members_nodup { hosts := hosts, children := d } role

/-! ### Names and settings -/

/-- The role group `kube_control_plane`. -/
def kubeControlPlane : Text := "kube_control_plane".toList
/-- The role group `kube_node`. -/
def kubeNode : Text := "kube_node".toList
/-- The role group `etcd`. -/
def etcd : Text := "etcd".toList
/-- The group `k8s_cluster`, which lists groups instead of hosts. -/
def k8sCluster : Text := "k8s_cluster".toList
/-- The role group `calico_rr`. -/
def calicoRr : Text := "calico_rr".toList

/-- `ROLES`. -/
def roles : List Text :=
  ["all".toList, kubeControlPlane, kubeNode, etcd, k8sCluster, calicoRr]

/-- `PROTECTED_NAMES`. -/
def protectedNames : List Text := roles

/-- `AVAILABLE_COMMANDS`. -/
def availableCommands : List Text :=
  ["help".toList, "print_cfg".toList, "print_ips".toList, "print_hostnames".toList,
    "load".toList, "add".toList]

/-- Python's classification of characters, as far as the script consults it:
`str.isdigit`, `str.isalpha`, and the value of the decimal digits that `\d` matches and
`int` reads. On the ASCII range the three are fixed. -/
structure CharClass where
  isdigit : Char → Bool
  isalpha : Char → Bool
  decimal : Char → Option ℕ
  isdigit_ascii : ∀ c, c.toNat < 128 → isdigit c = c.isDigit
  isalpha_ascii : ∀ c, c.toNat < 128 → isalpha c = c.isAlpha
  decimal_ascii : ∀ c, c.toNat < 128 →
    decimal c = if c.isDigit then some (c.toNat - '0'.toNat) else none
  /-- A decimal digit is a digit and stands for a number below ten. -/
  decimal_spec : ∀ c n, decimal c = some n → isdigit c = true ∧ n < 10
  /-- No character is both a letter and a digit. -/
  isalpha_not_isdigit : ∀ c, isalpha c = true → isdigit c = false

/-- A character that is an ASCII letter is no ASCII digit. -/
theorem isDigit_eq_false_of_isAlpha {c : Char} (h : c.isAlpha = true) : c.isDigit = false := by
  have hletter : 'A'.val ≤ c.val := by
    rcases Bool.or_eq_true_iff.mp h with hupper | hlower
    · exact (of_decide_eq_true hupper).1
    · have hlow : 'a'.val ≤ c.val := of_decide_eq_true (Bool.and_eq_true_iff.mp hlower).1
      exact UInt32.le_trans (by decide) hlow
  have hdigit : '9'.val < c.val := UInt32.lt_of_lt_of_le (by decide) hletter
  refine Bool.and_eq_false_iff.mpr (Or.inr (decide_eq_false ?_))
  exact UInt32.not_le.mpr hdigit

/-- The classification that knows the ASCII characters only. -/
def CharClass.ascii : CharClass where
  isdigit := Char.isDigit
  isalpha := Char.isAlpha
  decimal c := if c.isDigit then some (c.toNat - '0'.toNat) else none
  isdigit_ascii _ _ := rfl
  isalpha_ascii _ _ := rfl
  decimal_ascii _ _ := rfl
  decimal_spec c n h := by
    by_cases hd : c.isDigit = true
    · rw [if_pos hd] at h
      refine ⟨hd, ?_⟩
      have hval := Option.some.inj h
      simp only [Char.isDigit, Bool.and_eq_true, decide_eq_true_eq, ge_iff_le,
        UInt32.le_iff_toNat_le] at hd
      have h0 : '0'.val.toNat = 48 := rfl
      have h9 : '9'.val.toNat = 57 := rfl
      simp only [Char.toNat] at hval
      omega
    · rw [if_neg hd] at h
      cases h
  isalpha_not_isdigit _ h := isDigit_eq_false_of_isAlpha h

/-- What a run reads from its surroundings: the shell variables, Python's character
classes, and the answers of `ssh` when real hostnames are asked for. -/
structure Env where
  /-- `CONFIG_FILE` is not the empty string. -/
  configFile : Bool
  /-- `KUBE_CONTROL_HOSTS`. -/
  kubeControlHosts : ℤ
  /-- `SCALE_THRESHOLD`. -/
  scaleThreshold : ℤ
  /-- `MASSIVE_SCALE_THRESHOLD`. -/
  massiveScaleThreshold : ℤ
  /-- `HOST_PREFIX`. -/
  hostPrefix : Text
  /-- `USE_REAL_HOSTNAME`. -/
  useRealHostname : Bool
  /-- The answer to the n-th `hostname -s` of the run; `none` when the command fails or
  prints anything but ASCII. -/
  sshReply : ℕ → Option Text
  chars : CharClass

/-- The settings when the environment sets none. -/
def Env.default : Env where
  configFile := true
  kubeControlHosts := 2
  scaleThreshold := 50
  massiveScaleThreshold := 200
  hostPrefix := "node".toList
  useRealHostname := false
  sshReply := fun _ => none
  chars := .ascii

end Kubespray.Inventory
