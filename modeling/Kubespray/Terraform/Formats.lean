import Kubespray.Terraform.Reader
import Kubespray.Terraform.Required

/-!
# Two Formats of One State

A state describes managed resources and data sources, each with a number of instances.
Version 3 lists an instance under the key `type.name[.index]`, and under
`data.type.name[.index]` when it belongs to a data source. Version 4 lists the resources
with a `mode`, which `iterresources` does not look at: it makes the key `type.name[.index]`
of either. Since `iterhosts` decides by the first component of a key, a data source of a
host type is a host in version 4 and not in version 3.

A reading that raises lists no names at all, and one instance is enough for that: every
instance of version 4 is flattened, and every instance of a host type is parsed. So the two
formats can only be said to list the same names where both are read.

## Main results

* `mem_of_convertFields`: flattening keeps the attributes without parts.
* `mem_hostNames_iff`: the names that a reading of records returns.
* `exists_hostNames_v4_iff`, `exists_hostNames_v3_iff`: which states are read.
* `sameHostNames_iff`: when both formats are read and list the same names.
-/

namespace Kubespray.Terraform

open OrderedDict Fallible

/-! ### Objects and their renderings -/

/-- Managed by Terraform, or only read. -/
inductive Mode
  | managed
  | data
deriving DecidableEq

/-- An instance, with its attributes as version 4 nests them and as version 3 lists them. The
two agree in the attributes that name a host. -/
structure ObjectInstance where
  indexKey : Option Json
  nested : List (Text × Json)
  flat : Attributes
  nodup_nested : (nested.map Prod.fst).Nodup
  sameName : ∀ type attr, nameAttribute type = some attr →
    nested.lookup attr = flat.get? attr

/-- A managed resource or a data source. -/
structure Object where
  mode : Mode
  type : Text
  name : Text
  provider : Text
  instances : List ObjectInstance
  noDot_type : '.' ∉ type

/-- The objects of a module. -/
structure ObjectModule where
  path : List Text
  objects : List Object
  path_ne_nil : path ≠ []

variable (repr : Json → Text)

/-- An object in a version 4 state. Its mode is written to a key that is never read. -/
def Object.toV4 (o : Object) : Resource where
  type := o.type
  name := o.name
  provider := o.provider
  instances := o.instances.map fun i => ⟨i.indexKey, .obj i.nested⟩

/-- The key of an instance in a version 3 state. -/
def Object.keyV3 (o : Object) (i : ObjectInstance) : Text :=
  (match o.mode with
    | .managed => []
    | .data => "data.".toList) ++ o.toV4.key repr ⟨i.indexKey, .obj i.nested⟩

/-- A module in a version 3 state. -/
def ObjectModule.toV3 (m : ObjectModule) : Module where
  path := m.path
  resources := m.objects.flatMap fun o => o.instances.map fun i => (o.keyV3 repr i, i.flat)

/-- The version 3 state of the objects. -/
def stateV3 (modules : List ObjectModule) : State :=
  .v3 (modules.map (ObjectModule.toV3 repr))

/-- The version 4 state of the objects. -/
def stateV4 (modules : List ObjectModule) : State :=
  .v4 (modules.flatMap fun m => m.objects.map Object.toV4)

/-- The names of the hosts that `iterhosts` makes of a state file. -/
def hostNames (draw : ℕ → ℕ → ℕ) (file : State) : Except Raised (List Json) := do
  let hosts ← (iterhosts repr (iterresources repr draw [file])).mapM id
  return hosts.map Host.name

/-- The name of a host: the attribute that names hosts of the type. -/
def ObjectInstance.hostName (type : Text) (i : ObjectInstance) : Option Json :=
  (nameAttribute type).bind fun attr => i.nested.lookup attr

/-- The instance of an object is named so. -/
def Named (modules : List ObjectModule) (mode : Mode) (name : Json) : Prop :=
  ∃ m ∈ modules, ∃ o ∈ m.objects, o.mode = mode ∧ ∃ i ∈ o.instances,
    i.hostName o.type = some name

/-- An instance that is read from both renderings. In version 4 its lists have no elements
but texts and objects, and flattened it has the attributes of its type; in version 3 it has
them if it is managed, because a data source is passed over there. -/
structure ObjectInstance.Readable (mode : Mode) (type : Text) (i : ObjectInstance) : Prop where
  flattens : flattensFields i.nested = true
  nested : ∀ draw d n, convert draw 0 [] (.obj i.nested) = .ok (d, n) → HostAttributes type d
  flat : mode = .managed → HostAttributes type i.flat

/-- Both renderings are read, and the same names are listed, whatever the random numbers
are. -/
def SameHostNames (modules : List ObjectModule) : Prop :=
  ∀ draw draw', ∃ names names', hostNames repr draw (stateV4 modules) = .ok names ∧
    hostNames repr draw' (stateV3 repr modules) = .ok names' ∧
    ∀ name, name ∈ names ↔ name ∈ names'

variable {repr} {draw : ℕ → ℕ → ℕ}

/-! ### Flattening keeps the attributes without parts -/

/-- **Flattening keeps the attributes without parts**: what stands under a key without a dot
stood there before. -/
theorem mem_of_convertFields {draw : ℕ → ℕ} {n m : ℕ} {result d : Attributes} {key : Text}
    {v : Json} (hkey : '.' ∉ key) {fields : List (Text × Json)}
    (h : convertFields draw n [] result fields = .ok (d, m)) (hget : d.get? key = some v) :
    result.get? key = some v ∨ (key, v) ∈ fields := by
  have hne : ∀ path k : Text, key ≠ path ++ '.' :: k := by
    rintro path k rfl
    exact hkey (List.mem_append_right _ List.mem_cons_self)
  have hkept : decide (key = key) = true := decide_eq_true rfl
  induction fields generalizing n result with
  | nil =>
      cases h
      exact Or.inl hget
  | cons f rest ih =>
      obtain ⟨name, value⟩ := f
      have hrest : ∀ {r : Attributes} {k : ℕ}, convertFields draw k [] r rest = .ok (d, m) →
          r.get? key = result.get? key →
          result.get? key = some v ∨ (key, v) ∈ (name, value) :: rest := by
        intro r k hconvert hsame
        rw [← hsame]
        exact (ih hconvert).imp_right (List.mem_cons_of_mem _)
      by_cases hvalue : value.isScalar = true
      · rw [convertFields_scalar hvalue, List.nil_append] at h
        by_cases hname : key = name
        · rcases ih h with hset | hmem
          · rw [hname, get?_set_self] at hset
            rw [hname, Option.some.inj hset]
            exact Or.inr List.mem_cons_self
          · exact Or.inr (List.mem_cons_of_mem _ hmem)
        · exact hrest h (get?_set_of_ne _ _ hname)
      · cases value with
        | null | bool | int | float | str => exact absurd rfl hvalue
        | obj inner =>
            rw [convertFields] at h
            refine hrest h ?_
            have hbelow : ∀ k, decide (name ++ '.' :: k = key) = false := fun k =>
              decide_eq_false (hne name k).symm
            rw [List.nil_append, @get?_eq_of_retain _ _ _ (fun k => decide (k = key)) _ _
              (retain_foldl_of_below _ hbelow inner _) key hkept]
            exact get?_set_of_ne _ _ (hne name ['%'])
        | arr xs =>
            rw [convertFields] at h
            obtain ⟨⟨d₁, m₁⟩, helements, hlast⟩ := ok_of_bind h
            refine hrest hlast ?_
            have hbelow : ∀ k, decide (name ++ '.' :: k = key) = false := fun k =>
              decide_eq_false (hne name k).symm
            rw [@get?_eq_of_retain _ _ _ (fun k => decide (k = key)) _ _
              (retain_convertElements _ draw hbelow helements) key hkept]
            split_ifs
            · rfl
            · exact get?_set_of_ne _ _ (hne name ['#'])

/-- A dictionary whose keys are distinct is read at its entries. -/
theorem lookup_of_mem {fields : List (Text × Json)} (hnodup : (fields.map Prod.fst).Nodup)
    {key : Text} {v : Json} (h : (key, v) ∈ fields) : fields.lookup key = some v := by
  induction fields with
  | nil => cases h
  | cons f rest ih =>
      obtain ⟨name, value⟩ := f
      rw [List.map_cons, List.nodup_cons] at hnodup
      rcases List.mem_cons.mp h with heq | hmem
      · obtain ⟨rfl, rfl⟩ := Prod.mk.inj heq
        exact List.lookup_cons_self
      · have hne : (key == name) = false := by
          have hin : key ∈ rest.map Prod.fst := List.mem_map_of_mem hmem
          exact beq_eq_false_iff_ne.mpr fun heq => hnodup.1 (heq ▸ hin)
        rw [List.lookup_cons, hne]
        exact ih hnodup.2 hmem

/-- Names have no dots. -/
theorem noDot_nameAttribute {type attr : Text} (h : nameAttribute type = some attr) :
    '.' ∉ attr := by
  rw [nameAttribute] at h
  split_ifs at h <;> cases h <;> decide

/-! ### Reading records -/

/-- A loop that returns what stands in the items has an item for each result. -/
theorem eq_map_ok_of_mapM_id {ε α : Type} {items : List (Except ε α)} {xs : List α}
    (h : items.mapM id = .ok xs) : items = xs.map .ok := by
  rw [← mapM_eq_ok_iff.mp h, List.map_id]

/-- Every record of a host type has a name in a reading that returns. -/
theorem exists_name_of_type {file : State} {names : List Json}
    (h : hostNames repr draw file = .ok names) {r : Record} {attr : Text}
    (hrecord : .ok r ∈ iterresources repr draw [file])
    (htype : r.type.bind nameAttribute = some attr) :
    ∃ name ∈ names, r.hostName = some name := by
  obtain ⟨hosts, hhosts, h⟩ := ok_of_bind h
  cases h
  obtain ⟨item, hitem⟩ := @exists_hostOf_of_type repr _ _ htype
  have hmem : item ∈ iterhosts repr (iterresources repr draw [file]) :=
    List.mem_filterMap.mpr ⟨_, hrecord, hitem⟩
  rw [eq_map_ok_of_mapM_id hhosts] at hmem
  obtain ⟨host, hhost, rfl⟩ := List.mem_map.mp hmem
  exact ⟨host.name, List.mem_map_of_mem hhost, hostName_of_hostOf hitem⟩

/-- **The names that a reading returns** are those of the records. -/
theorem mem_hostNames_iff {file : State} {names : List Json}
    (h : hostNames repr draw file = .ok names) {name : Json} :
    name ∈ names ↔ ∃ r, .ok r ∈ iterresources repr draw [file] ∧ r.hostName = some name := by
  constructor
  · intro hname
    obtain ⟨hosts, hhosts, h⟩ := ok_of_bind h
    cases h
    obtain ⟨host, hhost, rfl⟩ := List.mem_map.mp hname
    have hitem : .ok host ∈ iterhosts repr (iterresources repr draw [file]) := by
      rw [eq_map_ok_of_mapM_id hhosts]
      exact List.mem_map_of_mem hhost
    obtain ⟨record, hrecord, hok⟩ := List.mem_filterMap.mp hitem
    cases record with
    | error e => cases hok
    | ok r => exact ⟨r, hrecord, hostName_of_hostOf hok⟩
  · rintro ⟨r, hrecord, hname⟩
    obtain ⟨attr, htype, -⟩ := Option.bind_eq_some_iff.mp hname
    obtain ⟨name', hmem, hname'⟩ := exists_name_of_type h hrecord htype
    rwa [Option.some.inj (hname.symm.trans hname')]

/-- No record fails in a reading that returns. -/
theorem noError_of_hostNames {file : State} {names : List Json}
    (h : hostNames repr draw file = .ok names) {e : Raised} :
    .error e ∉ iterresources repr draw [file] := by
  obtain ⟨hosts, hhosts, -⟩ := ok_of_bind h
  intro hmem
  have hitem : .error e ∈ iterhosts repr (iterresources repr draw [file]) :=
    List.mem_filterMap.mpr ⟨_, hmem, rfl⟩
  rw [eq_map_ok_of_mapM_id hhosts] at hitem
  obtain ⟨host, -, hno⟩ := List.mem_map.mp hitem
  cases hno

/-! ### Reading the two renderings -/

/-- What is read of a file comes from its entries. -/
theorem exists_entry_of_mem {file : State} {record : Except Raised Record}
    (h : record ∈ iterresources repr draw [file]) :
    ∃ e ∈ file.entries repr, ∃ n, e.read (draw n) = record := by
  rw [iterresources, List.flatMap_singleton] at h
  obtain ⟨n, hn, hread⟩ := List.mem_mapIdx.mp h
  exact ⟨_, List.getElem_mem hn, n, hread⟩

/-- Every entry of a file is read. -/
theorem exists_read_of_mem {file : State} {e : Entry} (h : e ∈ file.entries repr)
    (draw : ℕ → ℕ → ℕ) : ∃ n, e.read (draw n) ∈ iterresources repr draw [file] := by
  obtain ⟨n, hn, rfl⟩ := List.getElem_of_mem h
  rw [iterresources, List.flatMap_singleton]
  exact ⟨n, List.mem_mapIdx.mpr ⟨n, hn, rfl⟩⟩

/-- The key of an instance names its type first. -/
theorem type_of_key (o : Object) (i : ObjectInstance) (moduleName : Text)
    (attributes : Attributes) :
    (Record.mk moduleName (o.toV4.key repr ⟨i.indexKey, .obj i.nested⟩) attributes).type
      = some o.type := by
  rw [Record.type, Resource.key, List.append_assoc, List.cons_append]
  exact congrArg (Option.map Prod.fst) (splitOnce_append o.noDot_type _)

/-- The key of an instance of a data source names `data` first. -/
theorem type_of_data {o : Object} (hmode : o.mode = .data) (i : ObjectInstance)
    (moduleName : Text) (attributes : Attributes) :
    (Record.mk moduleName (o.keyV3 repr i) attributes).type = some "data".toList := by
  have hdot : '.' ∉ "data".toList := by decide
  rw [Record.type, Object.keyV3, hmode]
  exact congrArg (Option.map Prod.fst) (splitOnce_append hdot _)

/-- That is no type of a host. -/
theorem hostName_of_data {o : Object} (hmode : o.mode = .data) (i : ObjectInstance)
    (moduleName : Text) (attributes : Attributes) :
    (Record.mk moduleName (o.keyV3 repr i) attributes).hostName = none := by
  rw [Record.hostName, type_of_data hmode]
  rfl

/-- The name of an instance as version 4 flattens it. -/
theorem hostName_of_convert {draw : ℕ → ℕ} {o : Object} {i : ObjectInstance} {n : ℕ}
    {attributes : Attributes} {moduleName : Text} {name : Json}
    (h : convert draw 0 [] (.obj i.nested) = .ok (attributes, n))
    (hname : (Record.mk moduleName (o.toV4.key repr ⟨i.indexKey, .obj i.nested⟩)
      attributes).hostName = some name) :
    i.hostName o.type = some name := by
  rw [Record.hostName, type_of_key, Option.bind_some] at hname
  rw [ObjectInstance.hostName]
  obtain ⟨attr, hattribute, hget⟩ := Option.bind_eq_some_iff.mp hname
  rw [hattribute, Option.bind_some]
  rw [convert] at h
  refine lookup_of_mem i.nodup_nested ?_
  exact (mem_of_convertFields (noDot_nameAttribute hattribute) h hget).resolve_left
    fun hno => by cases hno

/-- The name of an instance as version 3 lists it. -/
theorem hostName_of_managed {o : Object} (hmode : o.mode = .managed) (i : ObjectInstance)
    (moduleName : Text) :
    (Record.mk moduleName (o.keyV3 repr i) i.flat).hostName = i.hostName o.type := by
  rw [Object.keyV3, hmode, List.nil_append, Record.hostName, type_of_key, Option.bind_some,
    ObjectInstance.hostName]
  cases hattribute : nameAttribute o.type with
  | none => rfl
  | some attr => exact (i.sameName _ _ hattribute).symm

variable {modules : List ObjectModule} {names : List Json} {name : Json}

/-- The entries of a version 4 state. -/
theorem mem_entries_v4 {e : Entry} : e ∈ (stateV4 modules).entries repr ↔
    ∃ m ∈ modules, ∃ o ∈ m.objects, ∃ i ∈ o.instances,
      Entry.nested ((o.provider.splitOn '.').getLast?.getD [])
        (o.toV4.key repr ⟨i.indexKey, .obj i.nested⟩) (.obj i.nested) = e := by
  rw [stateV4, State.entries, List.mem_flatMap]
  constructor
  · rintro ⟨r, hr, he⟩
    obtain ⟨m, hm, hr⟩ := List.mem_flatMap.mp hr
    obtain ⟨o, ho, rfl⟩ := List.mem_map.mp hr
    obtain ⟨j, hj, rfl⟩ := List.mem_map.mp he
    obtain ⟨i, hi, rfl⟩ := List.mem_map.mp hj
    exact ⟨m, hm, o, ho, i, hi, rfl⟩
  · rintro ⟨m, hm, o, ho, i, hi, rfl⟩
    exact ⟨o.toV4, List.mem_flatMap.mpr ⟨m, hm, List.mem_map_of_mem ho⟩,
      List.mem_map.mpr ⟨_, List.mem_map_of_mem hi, rfl⟩⟩

/-- The entries of a version 3 state. -/
theorem mem_entries_v3 {e : Entry} : e ∈ (stateV3 repr modules).entries repr ↔
    ∃ m ∈ modules, ∃ moduleName, m.path.getLast? = some moduleName ∧ ∃ o ∈ m.objects,
      ∃ i ∈ o.instances, Entry.flat moduleName (o.keyV3 repr i) i.flat = e := by
  rw [stateV3, State.entries, List.mem_flatMap]
  constructor
  · rintro ⟨v, hv, he⟩
    obtain ⟨m, hm, rfl⟩ := List.mem_map.mp hv
    obtain ⟨moduleName, hlast⟩ := Option.isSome_iff_exists.mp
      (List.getLast?_isSome.mpr m.path_ne_nil)
    rw [Module.entries, ObjectModule.toV3, hlast] at he
    obtain ⟨x, hx, rfl⟩ := List.mem_map.mp he
    obtain ⟨o, ho, hx⟩ := List.mem_flatMap.mp hx
    obtain ⟨i, hi, rfl⟩ := List.mem_map.mp hx
    exact ⟨m, hm, moduleName, hlast, o, ho, i, hi, rfl⟩
  · rintro ⟨m, hm, moduleName, hlast, o, ho, i, hi, rfl⟩
    refine ⟨m.toV3 repr, List.mem_map_of_mem hm, ?_⟩
    rw [Module.entries, ObjectModule.toV3, hlast]
    exact List.mem_map.mpr ⟨_, List.mem_flatMap.mpr ⟨o, ho, List.mem_map_of_mem hi⟩, rfl⟩

/-- **The names of a version 4 state** are those of all its objects. -/
theorem mem_hostNames_v4 (h : hostNames repr draw (stateV4 modules) = .ok names) :
    name ∈ names ↔ Named modules .managed name ∨ Named modules .data name := by
  constructor
  · intro hname
    obtain ⟨r, hrecord, hname⟩ := (mem_hostNames_iff h).mp hname
    obtain ⟨e, he, n, hread⟩ := exists_entry_of_mem hrecord
    obtain ⟨m, hm, o, ho, i, hi, rfl⟩ := mem_entries_v4.mp he
    obtain ⟨⟨attributes, k⟩, hconvert, hread⟩ := ok_of_bind hread
    cases hread
    have hnamed := hostName_of_convert hconvert hname
    cases hmode : o.mode with
    | managed => exact Or.inl ⟨m, hm, o, ho, hmode, i, hi, hnamed⟩
    | data => exact Or.inr ⟨m, hm, o, ho, hmode, i, hi, hnamed⟩
  · intro hnamed
    obtain ⟨m, hm, o, ho, i, hi, hnamed⟩ : ∃ m ∈ modules, ∃ o ∈ m.objects, ∃ i ∈ o.instances,
        i.hostName o.type = some name := by
      rcases hnamed with ⟨m, hm, o, ho, -, hnamed⟩ | ⟨m, hm, o, ho, -, hnamed⟩ <;>
        exact ⟨m, hm, o, ho, hnamed⟩
    obtain ⟨n, hread⟩ := exists_read_of_mem
      (mem_entries_v4.mpr ⟨m, hm, o, ho, i, hi, rfl⟩ : _ ∈ (stateV4 modules).entries repr) draw
    rw [Entry.read] at hread
    cases hconvert : convert (draw n) 0 [] (.obj i.nested) with
    | error e =>
        rw [hconvert] at hread
        exact absurd hread (noError_of_hostNames h)
    | ok converted =>
        obtain ⟨attributes, k⟩ := converted
        rw [hconvert, ok_bind] at hread
        obtain ⟨attr, hattr, -⟩ := Option.bind_eq_some_iff.mp hnamed
        have htype := @type_of_key repr o i ((o.provider.splitOn '.').getLast?.getD []) attributes
        obtain ⟨name', hmem, hname'⟩ := exists_name_of_type h hread
          ((congrArg (Option.bind · nameAttribute) htype).trans hattr)
        rwa [← Option.some.inj ((hostName_of_convert hconvert hname').symm.trans hnamed)]

/-- **The names of a version 3 state** are those of its managed resources. -/
theorem mem_hostNames_v3 (h : hostNames repr draw (stateV3 repr modules) = .ok names) :
    name ∈ names ↔ Named modules .managed name := by
  rw [mem_hostNames_iff h]
  constructor
  · rintro ⟨r, hrecord, hname⟩
    obtain ⟨e, he, n, hread⟩ := exists_entry_of_mem hrecord
    obtain ⟨m, hm, moduleName, -, o, ho, i, hi, rfl⟩ := mem_entries_v3.mp he
    cases hread
    cases hmode : o.mode with
    | managed =>
        rw [hostName_of_managed hmode] at hname
        exact ⟨m, hm, o, ho, hmode, i, hi, hname⟩
    | data =>
        rw [hostName_of_data hmode] at hname
        cases hname
  · rintro ⟨m, hm, o, ho, hmode, i, hi, hname⟩
    obtain ⟨moduleName, hlast⟩ := Option.isSome_iff_exists.mp
      (List.getLast?_isSome.mpr m.path_ne_nil)
    obtain ⟨n, hread⟩ := exists_read_of_mem
      (mem_entries_v3.mpr ⟨m, hm, moduleName, hlast, o, ho, i, hi, rfl⟩) draw
    refine ⟨_, hread, ?_⟩
    rw [hostName_of_managed hmode, hname]

/-! ### Which states are read -/

/-- A record is read, and made a host of or passed over. -/
def Handled (repr : Json → Text) (record : Except Raised Record) : Prop :=
  ∃ r, record = .ok r ∧ ∀ item, hostOf repr (.ok r) = some item → ∃ h, item = .ok h

/-- A state is read when each of its entries is handled. -/
theorem exists_hostNames_iff {file : State} :
    (∀ draw, ∃ names, hostNames repr draw file = .ok names) ↔
      ∀ e ∈ file.entries repr, ∀ draw, Handled repr (e.read draw) := by
  have hrun : ∀ draw, (∃ names, hostNames repr draw file = .ok names) ↔
      ∀ record ∈ iterresources repr draw [file], Handled repr record := by
    intro draw
    have hreturn : (∃ names, hostNames repr draw file = .ok names) ↔
        ∃ hosts, (iterhosts repr (iterresources repr draw [file])).mapM id = .ok hosts := by
      rw [hostNames, exists_bind_ok_iff]
      exact exists_congr fun hosts => and_iff_left ⟨_, rfl⟩
    rw [hreturn, exists_mapM_ok_iff, iterhosts]
    simp only [List.mem_filterMap, id_eq]
    constructor
    · intro h record hrecord
      cases record with
      | error e =>
          obtain ⟨host, hno⟩ := h (.error e) ⟨_, hrecord, rfl⟩
          cases hno
      | ok r => exact ⟨r, rfl, fun item hitem => h item ⟨_, hrecord, hitem⟩⟩
    · rintro h item ⟨record, hrecord, hitem⟩
      obtain ⟨r, rfl, hhandled⟩ := h record hrecord
      exact hhandled item hitem
  simp only [hrun]
  constructor
  · intro h e he draw
    obtain ⟨n, hmem⟩ := exists_read_of_mem he fun _ => draw
    exact h _ _ hmem
  · intro h draw record hrecord
    obtain ⟨e, he, n, rfl⟩ := exists_entry_of_mem hrecord
    exact h e he _

/-- A record that is there is handled when it has the attributes of its type. -/
theorem handled_ok_iff {r : Record} {type : Text} (htype : r.type = some type) :
    Handled repr (.ok r) ↔ HostAttributes type r.attributes := by
  rw [← @hostOf_ok_iff repr r type htype, Handled]
  constructor
  · rintro ⟨r', heq, h⟩
    obtain rfl := Except.ok.inj heq
    exact h
  · exact fun h => ⟨r, rfl, h⟩

/-- **Which version 4 states are read**: all instances are flattened, and those of host types
are parsed. -/
theorem exists_hostNames_v4_iff :
    (∀ draw, ∃ names, hostNames repr draw (stateV4 modules) = .ok names) ↔
      ∀ m ∈ modules, ∀ o ∈ m.objects, ∀ i ∈ o.instances, flattensFields i.nested = true ∧
        ∀ draw d n, convert draw 0 [] (.obj i.nested) = .ok (d, n) →
          HostAttributes o.type d := by
  rw [exists_hostNames_iff]
  constructor
  · intro h m hm o ho i hi
    have hread := h _ (mem_entries_v4.mpr ⟨m, hm, o, ho, i, hi, rfl⟩)
    constructor
    · obtain ⟨r, hr, -⟩ := hread fun _ => 0
      exact exists_read_iff.mp ⟨r, hr⟩
    · intro draw d n hconvert
      have hhandled := hread draw
      rw [Entry.read, hconvert, ok_bind] at hhandled
      exact (handled_ok_iff (type_of_key o i _ d)).mp hhandled
  · intro h e he draw
    obtain ⟨m, hm, o, ho, i, hi, rfl⟩ := mem_entries_v4.mp he
    obtain ⟨hflattens, hattributes⟩ := h m hm o ho i hi
    obtain ⟨⟨d, n⟩, hconvert⟩ := (@exists_convert_iff draw 0 [] (.obj i.nested)).mpr hflattens
    rw [Entry.read, hconvert, ok_bind]
    exact (handled_ok_iff (type_of_key o i _ d)).mpr (hattributes draw d n hconvert)

/-- **Which version 3 states are read**: the managed instances of host types are parsed. -/
theorem exists_hostNames_v3_iff :
    (∀ draw, ∃ names, hostNames repr draw (stateV3 repr modules) = .ok names) ↔
      ∀ m ∈ modules, ∀ o ∈ m.objects, ∀ i ∈ o.instances, o.mode = .managed →
        HostAttributes o.type i.flat := by
  have htype : ∀ (o : Object) (i : ObjectInstance) (moduleName : Text), o.mode = .managed →
      (Record.mk moduleName (o.keyV3 repr i) i.flat).type = some o.type := by
    intro o i moduleName hmode
    rw [Object.keyV3, hmode]
    exact type_of_key o i moduleName i.flat
  rw [exists_hostNames_iff]
  constructor
  · intro h m hm o ho i hi hmode
    obtain ⟨moduleName, hlast⟩ := Option.isSome_iff_exists.mp
      (List.getLast?_isSome.mpr m.path_ne_nil)
    exact (handled_ok_iff (htype o i moduleName hmode)).mp
      (h _ (mem_entries_v3.mpr ⟨m, hm, moduleName, hlast, o, ho, i, hi, rfl⟩) fun _ => 0)
  · intro h e he draw
    obtain ⟨m, hm, moduleName, -, o, ho, i, hi, rfl⟩ := mem_entries_v3.mp he
    cases hmode : o.mode with
    | managed =>
        exact (handled_ok_iff (htype o i moduleName hmode)).mpr (h m hm o ho i hi hmode)
    | data =>
        refine (handled_ok_iff (type_of_data hmode i moduleName i.flat)).mpr
          ⟨fun heq => ?_, fun heq => ?_⟩
        · exact absurd heq (by decide)
        · exact absurd heq (by decide)

/-- **When the two formats list the same names**: exactly when all instances are read from
both, and every name of an instance of a data source is also the name of an instance of a
managed resource. -/
theorem sameHostNames_iff (repr : Json → Text) (modules : List ObjectModule) :
    SameHostNames repr modules ↔
      (∀ m ∈ modules, ∀ o ∈ m.objects, ∀ i ∈ o.instances, i.Readable o.mode o.type) ∧
        ∀ name, Named modules .data name → Named modules .managed name := by
  have hsame : ∀ {draw draw' names names'},
      hostNames repr draw (stateV4 modules) = .ok names →
      hostNames repr draw' (stateV3 repr modules) = .ok names' →
      ((∀ name, name ∈ names ↔ name ∈ names') ↔
        ∀ name, Named modules .data name → Named modules .managed name) := by
    intro draw draw' names names' h h'
    refine forall_congr' fun name => ?_
    rw [mem_hostNames_v4 h, mem_hostNames_v3 h']
    tauto
  constructor
  · intro h
    have hv4 := (@exists_hostNames_v4_iff repr modules).mp fun draw => by
      obtain ⟨names, -, hok, -⟩ := h draw fun _ _ => 0
      exact ⟨names, hok⟩
    have hv3 := (@exists_hostNames_v3_iff repr modules).mp fun draw' => by
      obtain ⟨-, names', -, hok, -⟩ := h (fun _ _ => 0) draw'
      exact ⟨names', hok⟩
    obtain ⟨names, names', hok, hok', hnames⟩ := h (fun _ _ => 0) fun _ _ => 0
    refine ⟨fun m hm o ho i hi => ?_, (hsame hok hok').mp hnames⟩
    exact
      { flattens := (hv4 m hm o ho i hi).1
        nested := (hv4 m hm o ho i hi).2
        flat := hv3 m hm o ho i hi }
  · rintro ⟨hreadable, hnamed⟩ draw draw'
    obtain ⟨names, hok⟩ := (@exists_hostNames_v4_iff repr modules).mpr (fun m hm o ho i hi =>
      ⟨(hreadable m hm o ho i hi).flattens, (hreadable m hm o ho i hi).nested⟩) draw
    obtain ⟨names', hok'⟩ := (@exists_hostNames_v3_iff repr modules).mpr (fun m hm o ho i hi =>
      (hreadable m hm o ho i hi).flat) draw'
    exact ⟨names, names', hok, hok', (hsame hok hok').mpr hnamed⟩

/-! ### A managed device and one that is only read -/

/-- The attributes of an Equinix device as version 4 nests them. -/
def deviceNested (name : Text) : List (Text × Json) := [
  ("hostname".toList, .str name),
  ("id".toList, .str name),
  ("operating_system".toList, .str "ubuntu".toList),
  ("locked".toList, .bool false),
  ("plan".toList, .str "c3".toList),
  ("project_id".toList, .str "p".toList),
  ("state".toList, .str "active".toList),
  ("network".toList, .arr [
    .obj [("address".toList, .str "10.0.0.6".toList)],
    .obj [("address".toList, .str "fe80::6".toList)],
    .obj [("address".toList, .str "10.1.0.6".toList)]])]

/-- The attributes of an Equinix device as version 3 lists them. -/
def deviceFlat (name : Text) : Attributes :=
  ofList [
    ("hostname".toList, .str name),
    ("id".toList, .str name),
    ("operating_system".toList, .str "ubuntu".toList),
    ("locked".toList, .str "false".toList),
    ("plan".toList, .str "c3".toList),
    ("project_id".toList, .str "p".toList),
    ("state".toList, .str "active".toList),
    ("network.#".toList, .str ['3']),
    ("network.0.address".toList, .str "10.0.0.6".toList),
    ("network.1.address".toList, .str "fe80::6".toList),
    ("network.2.address".toList, .str "10.1.0.6".toList)]

/-- An instance of an Equinix device. -/
def deviceInstance (name : Text) : ObjectInstance where
  indexKey := none
  nested := deviceNested name
  flat := deviceFlat name
  nodup_nested := by
    rw [deviceNested]
    simp only [List.map_cons, List.map_nil]
    decide
  sameName := by
    intro type attr h
    rw [nameAttribute] at h
    split_ifs at h
    · cases h
      exact (get?_ofList_of_notMem (by simp only [List.map_cons, List.map_nil]; decide)).symm
    · cases h
      refine ((get?_ofList ?_).mpr List.mem_cons_self).symm
      simp only [List.map_cons, List.map_nil]
      decide

/-- An Equinix device. -/
def device (mode : Mode) (name : Text) : Object where
  mode := mode
  type := equinixType
  name := name
  provider := "provider.equinix".toList
  instances := [deviceInstance name]
  noDot_type := by decide

/-- A module with these objects. -/
def rootModule (objects : List Object) : ObjectModule where
  path := ["root".toList]
  objects := objects
  path_ne_nil := List.cons_ne_nil _ _

/-- A device that is only read is a host in version 4 and not in version 3. -/
theorem sameHostNames_fails :
    ¬ SameHostNames (fun _ => [])
      [rootModule [device .managed "a".toList, device .data "b".toList]] := by
  intro h
  obtain ⟨names, names', hok, hok', hnames⟩ := h (fun _ _ => 1) fun _ _ => 1
  have hv4 : hostNames (fun _ => []) (fun _ _ => 1)
      (stateV4 [rootModule [device .managed "a".toList, device .data "b".toList]])
        = .ok [.str "a".toList, .str "b".toList] := by rfl
  have hv3 : hostNames (fun _ => []) (fun _ _ => 1)
      (stateV3 (fun _ => []) [rootModule [device .managed "a".toList, device .data "b".toList]])
        = .ok [.str "a".toList] := by rfl
  obtain rfl := Except.ok.inj (hv4.symm.trans hok)
  obtain rfl := Except.ok.inj (hv3.symm.trans hok')
  have hmem := (hnames (.str "b".toList)).mp (List.mem_cons_of_mem _ List.mem_cons_self)
  rw [List.mem_singleton, Json.str.injEq] at hmem
  exact absurd hmem (by decide)

end Kubespray.Terraform
