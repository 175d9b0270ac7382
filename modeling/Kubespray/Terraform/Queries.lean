import Kubespray.Terraform.Usable

/-!
# The Two Queries

`terraform.py --host` prints the variables of the first host of a name, and `--list` those
of the last. Both modes go through the same stream of hosts. It is one run that lists all
of them, and another that stops at the first match, so only the latter passes over what
raises behind it. An empty name is no name to `main`, which then prints nothing.

The two runs draw random numbers of their own. What `_meta.hostvars` has for a name is read
off the dictionary that is printed. The condition under which the modes agree is about the
entries of the state files: which of them can be used, and which describe an instance of
the name.

## Main results

* `queryHost_eq`: the search ends at the first host of the name.
* `readable_streamOf_iff`: when a run lists all hosts.
* `modesAgree_iff`: when the two modes agree on a name.
-/

namespace Kubespray.Terraform

open OrderedDict Fallible

/-- `terraform.py --host`, on the records of the two passes. -/
def host (repr : Json → Text) (target : Text) (first second : List (Except Raised Record)) :
    Except Raised (Option Attributes) := do
  let hosts ← hostsOf repr first second
  -- an empty text is false, and no other mode was chosen
  if target = [] then return none else return some (← queryHost target hosts)

/-- The entry of a name in `_meta.hostvars`. A run that raises has printed none. -/
def entryOf (target : Text) (listing : Except Raised (OrderedDict Text OutputGroup)) :
    Option Attributes :=
  match listing with
  | .ok out => (hostvars out).get? (.str target)
  | .error _ => none

/-- The variables that were printed. -/
def variablesOf (printed : Except Raised (Option Attributes)) : Attributes :=
  match printed with
  | .ok (some attrs) => attrs
  | .ok none | .error _ => OrderedDict.empty

/-- The two modes agree on a name: the variables that one prints are those of the entry
that the other has, and they are empty exactly when it has none. -/
def ModesAgree (target : Text) (printed : Except Raised (Option Attributes))
    (listing : Except Raised (OrderedDict Text OutputGroup)) : Prop :=
  (∀ attrs, entryOf target listing = some attrs → variablesOf printed = attrs) ∧
    (variablesOf printed = OrderedDict.empty ↔ entryOf target listing = none)

/-! ### One stream -/

/-- The hosts that a stream yields before it raises. -/
def yielded : List (Except Raised Host) → List Host
  | .ok h :: items => h :: yielded items
  | [] | .error _ :: _ => []

/-- Those of a name. -/
def named (target : Text) (items : List (Except Raised Host)) : List Host :=
  (yielded items).filter fun h => h.name.isStr target

/-- No item raises, and the names of all hosts can be keys. -/
def readable (items : List (Except Raised Host)) : Bool :=
  items.all fun
    | .ok h => h.name.key.isOk
    | .error _ => false

/-- Such a stream consists of hosts. -/
theorem readable_iff {items : List (Except Raised Host)} :
    readable items = true ↔
      ∃ hs : List Host, items = hs.map .ok ∧ ∀ h ∈ hs, ∃ k, h.name.key = .ok k := by
  have hkey : ∀ h : Host, h.name.key.isOk = true ↔ ∃ k, h.name.key = .ok k := by
    intro h
    cases h.name.key with
    | error e => exact iff_of_false Bool.false_ne_true fun ⟨k, hk⟩ => by cases hk
    | ok k => exact iff_of_true rfl ⟨k, rfl⟩
  rw [readable, List.all_eq_true]
  constructor
  · intro h
    obtain ⟨hs, hitems⟩ : ∃ hs : List Host, items.map id = hs.map .ok := by
      refine exists_map_ok fun item hitem => ?_
      cases item with
      | error e => exact absurd (h _ hitem) Bool.false_ne_true
      | ok host => exact ⟨host, rfl⟩
    rw [List.map_id] at hitems
    subst hitems
    exact ⟨hs, rfl, fun host hhost => (hkey host).mp (h _ (List.mem_map_of_mem hhost))⟩
  · rintro ⟨hs, rfl, hkeys⟩ item hitem
    obtain ⟨host, hhost, rfl⟩ := List.mem_map.mp hitem
    exact (hkey host).mpr (hkeys host hhost)

/-- What a stream yields that does not raise. -/
theorem yielded_map_ok (hs : List Host) : yielded (hs.map .ok) = hs := by
  induction hs with
  | nil => rfl
  | cons h hs ih => rw [List.map_cons, yielded, ih]

/-- **The search ends at the first host of the name.** -/
theorem queryHost_of_named {target : Text} {items : List (Except Raised Host)} {h : Host}
    (hfirst : (named target items).head? = some h) : queryHost target items = .ok h.attrs := by
  induction items with
  | nil => cases hfirst
  | cons item items ih =>
      cases item with
      | error e => cases hfirst
      | ok h' =>
          rw [queryHost, ok_bind]
          rw [named, yielded, List.filter_cons] at hfirst
          split_ifs at hfirst ⊢ with hname
          · cases hfirst
            rfl
          · exact ih hfirst

/-- Without a host of the name it prints no variables. -/
theorem queryHost_of_unnamed {target : Text} {items : List (Except Raised Host)}
    (hnone : named target items = []) {attrs : Attributes}
    (hok : queryHost target items = .ok attrs) : attrs = OrderedDict.empty := by
  induction items with
  | nil =>
      cases hok
      rfl
  | cons item items ih =>
      obtain ⟨h, rfl, hrest⟩ := ok_of_bind hok
      rw [named, yielded, List.filter_cons] at hnone
      split_ifs at hnone hrest with hname
      exact ih hnone hrest

/-- The key of a name. -/
theorem nameKey_eq_str_iff {h : Host} {target : Text} :
    nameKey h = .str target ↔ h.name.isStr target = true := by
  rw [nameKey]
  cases h.name with
  | null | int | arr | obj | bool => simp [Json.key, Json.isStr]
  | float whole fraction literal => cases fraction <;> simp [Json.key, Json.isStr]
  | str t => simp [Json.key, Json.isStr]

/-- **The listing has the last host of the name**, if nothing raises. -/
theorem entryOf_queryList {sets : SetOrder} {target : Text} {items : List (Except Raised Host)}
    (h : readable items = true) :
    entryOf target (queryList sets items) = (named target items).getLast?.map Host.attrs := by
  obtain ⟨hs, rfl, hkeys⟩ := readable_iff.mp h
  rw [queryList, collect_eq_ok_iff.mpr ⟨hs, rfl, hkeys, rfl⟩]
  simp only [ok_bind, entryOf, pure, Except.pure, hostvars_output, vars_foldl_add]
  rw [get?_foldl_set, get?_empty, Option.or_none, List.filter_map, List.getLast?_map,
    Option.map_map, named, yielded_map_ok]
  have hfilter : hs.filter ((fun x : Key × Attributes => decide (x.1 = .str target)) ∘
      fun h => (nameKey h, h.attrs)) = hs.filter fun h => h.name.isStr target := by
    refine List.filter_congr fun h _ => Bool.eq_iff_iff.mpr ?_
    rw [Function.comp_apply, decide_eq_true_iff]
    exact nameKey_eq_str_iff
  rw [hfilter]
  rfl

/-- Otherwise there is no listing. -/
theorem entryOf_of_raised {sets : SetOrder} {target : Text} {items : List (Except Raised Host)}
    (h : ¬ readable items = true) : entryOf target (queryList sets items) = none := by
  cases hlist : queryList sets items with
  | error e => rfl
  | ok out =>
      obtain ⟨l, hl, -⟩ := ok_of_bind hlist
      obtain ⟨hs, hitems, hkeys, -⟩ := collect_eq_ok_iff.mp hl
      exact absurd (readable_iff.mpr ⟨hs, hitems, hkeys⟩) h

/-! ### The variables of a host -/

/-- A dictionary with an entry is not empty. -/
theorem ne_empty_of_get? {d : Attributes} {key : Text} {v : Json} (h : d.get? key = some v) :
    d ≠ OrderedDict.empty := by
  rintro rfl
  cases h

/-- A dictionary literal with an entry is not empty. -/
theorem ofList_cons_ne_empty (e : Text × Json) (es : List (Text × Json)) :
    (ofList (e :: es) : Attributes) ≠ OrderedDict.empty := by
  have hkey : e.1 ∈ (ofList (e :: es) : Attributes).keys := by
    rw [ofList, keys_foldl_set, mem_addKeys, List.map_cons]
    exact Or.inr List.mem_cons_self
  obtain ⟨v, hv⟩ := mem_keys_iff.mp hkey
  exact ne_empty_of_get? hv

/-- An Equinix host has variables. -/
theorem attrs_of_equinixMetalDevice {repr : Json → Text} {raw : Attributes} {h : Host}
    (hok : equinixMetalDevice repr raw = .ok h) : h.attrs ≠ OrderedDict.empty := by
  obtain ⟨name, -, hok⟩ := ok_of_bind hok
  obtain ⟨id, -, hok⟩ := ok_of_bind hok
  obtain ⟨operatingSystem, -, hok⟩ := ok_of_bind hok
  obtain ⟨lockedValue, -, hok⟩ := ok_of_bind hok
  obtain ⟨locked, -, hok⟩ := ok_of_bind hok
  obtain ⟨plan, -, hok⟩ := ok_of_bind hok
  obtain ⟨projectId, -, hok⟩ := ok_of_bind hok
  obtain ⟨state, -, hok⟩ := ok_of_bind hok
  obtain ⟨network0, -, hok⟩ := ok_of_bind hok
  obtain ⟨network1, -, hok⟩ := ok_of_bind hok
  obtain ⟨network2, -, hok⟩ := ok_of_bind hok
  obtain ⟨groups, -, hok⟩ := ok_of_bind hok
  cases hok
  dsimp only
  rw [equinixAttrs]
  exact ofList_cons_ne_empty _ _

/-- A host that `iterhosts` yields has variables. -/
theorem attrs_of_hostOf {repr : Json → Text} {record : Except Raised Record} {h : Host}
    (hok : hostOf repr record = some (.ok h)) : h.attrs ≠ OrderedDict.empty := by
  cases record with
  | error e => cases hok
  | ok r =>
      rcases type_of_hostOf hok with htype | htype
      · rw [hostOf_equinix htype] at hok
        exact attrs_of_equinixMetalDevice (Option.some.inj hok)
      · rw [hostOf_compute htype] at hok
        obtain ⟨port, -, hport⟩ := (openstackHost_eq_ok (Option.some.inj hok)).port
        exact ne_empty_of_get? hport

/-- `iter_host_ips` leaves variables. -/
theorem attrs_of_updateHost {ips : Ips} {h h' : Host} (hok : updateHost ips h = .ok h') :
    h'.attrs ≠ OrderedDict.empty := by
  obtain ⟨portId, hport, -⟩ := ok_of_bind hok
  rw [subscript_eq_ok_iff] at hport
  exact ne_empty_of_get? ((get?_updateHost hok (by decide)).trans hport)

/-- **Every host that a query receives has variables.** -/
theorem attrs_of_hostsOf {repr : Json → Text} {first second : List (Except Raised Record)}
    {items : List (Except Raised Host)} (hitems : hostsOf repr first second = .ok items)
    {h : Host} (hmem : .ok h ∈ items) : h.attrs ≠ OrderedDict.empty := by
  rw [hostsOf_eq] at hitems
  obtain ⟨ips, -, heq⟩ := ok_of_bind hitems
  cases heq
  obtain ⟨item, hitem, hpass⟩ := List.mem_map.mp hmem
  obtain ⟨record, -, hrecord⟩ := List.mem_filterMap.mp hitem
  rw [passItem] at hpass
  split_ifs at hpass with hips
  · exact attrs_of_hostOf (hpass ▸ hrecord)
  · obtain ⟨parsed, -, hupdate⟩ := ok_of_bind hpass
    exact attrs_of_updateHost hupdate

/-- A host that a stream yields is an item of it. -/
theorem mem_of_mem_named {target : Text} {items : List (Except Raised Host)} {h : Host}
    (hmem : h ∈ named target items) : .ok h ∈ items := by
  have hyielded := List.mem_of_mem_filter hmem
  clear hmem
  induction items with
  | nil => cases hyielded
  | cons item items ih =>
      cases item with
      | error e => cases hyielded
      | ok h' =>
          rcases List.mem_cons.mp hyielded with rfl | hrest
          · exact List.mem_cons_self
          · exact List.mem_cons_of_mem _ (ih hrest)

/-! ### The two modes -/

/-- The stream of hosts of a run, which may raise before the first of them. -/
def stream (repr : Json → Text) (first second : List (Except Raised Record)) :
    List (Except Raised Host) :=
  match hostsOf repr first second with
  | .ok items => items
  | .error e => [.error e]

/-- Every host of a stream has variables. -/
theorem attrs_of_stream {repr : Json → Text} {target : Text}
    {first second : List (Except Raised Record)} {h : Host}
    (hmem : h ∈ named target (stream repr first second)) : h.attrs ≠ OrderedDict.empty := by
  have hitem := mem_of_mem_named hmem
  rw [stream] at hitem
  cases hitems : hostsOf repr first second with
  | error e =>
      rw [hitems] at hitem
      cases List.mem_singleton.mp hitem
  | ok items =>
      rw [hitems] at hitem
      exact attrs_of_hostsOf hitems hitem

/-- The variables of the first host of a name, which must not be empty. -/
def firstVariables (target : Text) (items : List (Except Raised Host)) : Option Attributes :=
  if target = [] then none else (named target items).head?.map Host.attrs

/-- The variables of the last host of a name, if nothing raises. -/
def lastVariables (target : Text) (items : List (Except Raised Host)) : Option Attributes :=
  if readable items then (named target items).getLast?.map Host.attrs else none

/-- There is a first host. -/
theorem firstVariables_eq_some_iff {target : Text} {items : List (Except Raised Host)}
    {attrs : Attributes} : firstVariables target items = some attrs ↔
      target ≠ [] ∧ ∃ h, (named target items).head? = some h ∧ h.attrs = attrs := by
  rw [firstVariables]
  split_ifs with htarget
  · exact iff_of_false (fun hno => by cases hno) fun h => h.1 htarget
  · rw [Option.map_eq_some_iff, and_iff_right htarget]

/-- There is a last host. -/
theorem lastVariables_eq_some_iff {target : Text} {items : List (Except Raised Host)}
    {attrs : Attributes} : lastVariables target items = some attrs ↔
      readable items = true ∧
        ∃ h, (named target items).getLast? = some h ∧ h.attrs = attrs := by
  rw [lastVariables]
  split_ifs with hread
  · rw [Option.map_eq_some_iff, and_iff_right hread]
  · exact iff_of_false (fun hno => by cases hno) fun h => hread h.1

/-- `--host` prints the variables of the first host of the name. -/
theorem variablesOf_host (repr : Json → Text) (target : Text)
    (first second : List (Except Raised Record)) :
    variablesOf (host repr target first second)
      = (firstVariables target (stream repr first second)).getD OrderedDict.empty := by
  rw [host, stream, firstVariables]
  cases hostsOf repr first second with
  | error e => split_ifs <;> rfl
  | ok items =>
      rw [ok_bind]
      split_ifs with htarget
      · rfl
      · cases hfirst : (named target items).head? with
        | none =>
            cases hquery : queryHost target items with
            | error e => rfl
            | ok attrs => exact queryHost_of_unnamed (List.head?_eq_none_iff.mp hfirst) hquery
        | some h =>
            rw [queryHost_of_named hfirst]
            rfl

/-- `--list` has an entry for the last host of the name. -/
theorem entryOf_list (repr : Json → Text) (sets : SetOrder) (target : Text)
    (first second : List (Except Raised Record)) :
    entryOf target (list repr sets first second)
      = lastVariables target (stream repr first second) := by
  have hlist : entryOf target (list repr sets first second)
      = entryOf target (queryList sets (stream repr first second)) := by
    rw [list, stream]
    cases hostsOf repr first second <;> rfl
  rw [hlist, lastVariables]
  split_ifs with hread
  · exact entryOf_queryList hread
  · exact entryOf_of_raised hread

/-- Variables that are not empty are printed exactly when there is an entry with them. -/
theorem printed_eq_entry_iff {printed entry : Option Attributes}
    (hprinted : ∀ attrs, printed = some attrs → attrs ≠ OrderedDict.empty)
    (hentry : ∀ attrs, entry = some attrs → attrs ≠ OrderedDict.empty) :
    (∀ attrs, entry = some attrs → printed.getD OrderedDict.empty = attrs) ∧
        (printed.getD OrderedDict.empty = OrderedDict.empty ↔ entry = none) ↔
      printed = entry := by
  cases printed with
  | none =>
      cases entry with
      | none => simp
      | some attrs => simp
  | some attrs =>
      have hne := hprinted attrs rfl
      cases entry with
      | none => simp [hne]
      | some attrs' => simp [hne, eq_comm]

/-! ### State files -/

section Entries

variable {repr : Json → Text} {target : Text} {es : List Entry}

/-- The stream of the hosts of some entries. -/
def streamOf (repr : Json → Text) (es : List Entry) : List (Except Raised Host) :=
  match ipsOf (es.filterMap fun e => ipOf e.record) with
  | .ok ips => es.filterMap (Entry.item repr ips)
  | .error e => [.error e]

/-- The stream of a run on state files is that of their entries, whatever the random numbers
are. -/
theorem stream_iterresources {files : List State} {draw₁ draw₂ : ℕ → ℕ → ℕ}
    (h : ∀ e ∈ files.flatMap (State.entries repr), ProviderEntry e) :
    stream repr (iterresources repr draw₁ files) (iterresources repr draw₂ files)
      = streamOf repr (files.flatMap (State.entries repr)) := by
  have hhosts := @filterMap_iterresources repr _ (hostOf repr) files draw₁ fun e he draw =>
    (h e he).hostOf_read draw _
  have hips := @filterMap_iterresources repr _ ipOf files draw₂ fun e _ draw =>
    ipOf_read e draw _
  rw [stream, hostsOf_eq, iterips, hips, streamOf]
  cases ipsOf ((files.flatMap (State.entries repr)).filterMap fun e => ipOf e.record) with
  | error e => rfl
  | ok ips =>
      rw [ok_bind, iterhosts, hhosts, List.map_filterMap]
      rfl

/-- An entry describes an instance of the name. -/
def Entry.isNamed (target : Text) (e : Entry) : Bool :=
  e.hostName.any (Json.isStr target)

/-- Every entry can be used, and the names of all instances can be keys. -/
def Listed (es : List Entry) : Prop :=
  (∀ e ∈ es, e.Complete) ∧ ∀ e ∈ es, e.Passes (Associated es) ∧
    ∀ v, e.hostName = some v → ∃ k, v.key = .ok k

/-- An instance of the name stands before every entry that stops the stream. -/
def Met (associated : Prop) (target : Text) : List Entry → Prop
  | [] => False
  | e :: es => e.Passes associated ∧ (e.isNamed target = true ∨ Met associated target es)

/-- A stream lists all hosts when each item is a host whose name can be a key. -/
theorem readable_iff_forall {items : List (Except Raised Host)} :
    readable items = true ↔
      ∀ item ∈ items, ∃ h, item = .ok h ∧ ∃ k, h.name.key = .ok k := by
  rw [readable_iff]
  constructor
  · rintro ⟨hs, rfl, hkeys⟩ item hitem
    obtain ⟨h, hh, rfl⟩ := List.mem_map.mp hitem
    exact ⟨h, rfl, hkeys h hh⟩
  · intro h
    obtain ⟨hs, hitems⟩ := @exists_map_ok _ _ _ id items fun item hitem => by
      obtain ⟨host, heq, -⟩ := h item hitem
      exact ⟨host, heq⟩
    rw [List.map_id] at hitems
    subst hitems
    refine ⟨hs, rfl, fun host hhost => ?_⟩
    obtain ⟨host', heq, hkey⟩ := h _ (List.mem_map_of_mem hhost)
    exact Except.ok.inj heq ▸ hkey

section Items

variable {ips : Ips} {associated : Prop} (hips : ips.keys = [] ↔ ¬ associated)
include hips

/-- An entry is listed when it passes and the name of its instance can be a key. -/
theorem listed_item_iff {e : Entry} (he : e.Complete) :
    (∀ item, e.item repr ips = some item → ∃ h, item = .ok h ∧ ∃ k, h.name.key = .ok k) ↔
      e.Passes associated ∧ ∀ v, e.hostName = some v → ∃ k, v.key = .ok k := by
  rw [← @passes_iff repr ips e associated hips he]
  constructor
  · intro h
    refine ⟨fun item hitem => ?_, fun v hv => ?_⟩
    · obtain ⟨host, hhost, -⟩ := h item hitem
      exact ⟨host, hhost⟩
    · cases hitem : e.item repr ips with
      | none =>
          rw [hostName_of_item_none hitem] at hv
          cases hv
      | some item =>
          obtain ⟨host, rfl, hkey⟩ := h item hitem
          obtain rfl := Option.some.inj ((hostName_of_item hitem).symm.trans hv)
          exact hkey
  · rintro ⟨hpasses, hkeys⟩ item hitem
    obtain ⟨host, rfl⟩ := hpasses item hitem
    exact ⟨host, rfl, hkeys _ (hostName_of_item hitem)⟩

/-- **Which names a run meets**: those of the instances before the first entry that stops the
stream. By induction on the entries. -/
theorem named_ne_nil_iff (hcomplete : ∀ e ∈ es, e.Complete) :
    named target (es.filterMap (Entry.item repr ips)) ≠ [] ↔ Met associated target es := by
  induction es with
  | nil => exact iff_of_false (fun h => h rfl) id
  | cons e es ih =>
      obtain ⟨he, hes⟩ := List.forall_mem_cons.mp hcomplete
      have hpasses := @passes_iff repr ips e associated hips he
      rw [Met, ← hpasses]
      cases hitem : e.item repr ips with
      | none =>
          have hunnamed : e.isNamed target = false := by
            rw [Entry.isNamed, hostName_of_item_none hitem]
            rfl
          rw [List.filterMap_cons_none hitem, ih hes, hunnamed]
          simp
      | some item =>
          rw [List.filterMap_cons_some hitem]
          cases item with
          | error err =>
              refine iff_of_false (fun h => h rfl) fun h => ?_
              obtain ⟨host, hno⟩ := h.1 _ rfl
              cases hno
          | ok h =>
              have hname : e.isNamed target = h.name.isStr target := by
                rw [Entry.isNamed, hostName_of_item hitem]
                rfl
              have hok : ∀ item, some (Except.ok h : Except Raised Host) = some item →
                  ∃ host, item = .ok host := fun item hitem =>
                ⟨h, (Option.some.inj hitem).symm⟩
              rw [and_iff_right hok, hname, named, yielded, List.filter_cons]
              cases h.name.isStr target with
              | true => simp
              | false =>
                  rw [if_neg Bool.false_ne_true, ← named, ih hes]
                  simp

end Items

/-- **When a run lists all hosts**: exactly when every entry can be used. -/
theorem readable_streamOf_iff : readable (streamOf repr es) = true ↔ Listed es := by
  rw [streamOf, Listed, ← @exists_ips_iff es]
  cases hips : ipsOf (es.filterMap fun e => ipOf e.record) with
  | error e =>
      refine iff_of_false Bool.false_ne_true ?_
      rintro ⟨⟨ips, hno⟩, -⟩
      cases hno
  | ok ips =>
      have hcomplete := exists_ips_iff.mp ⟨ips, hips⟩
      rw [and_iff_right ⟨ips, rfl⟩, readable_iff_forall]
      simp only [List.mem_filterMap]
      constructor
      · intro h e he
        refine (@listed_item_iff repr ips _ (keys_eq_nil_iff_of_ips hips) e (hcomplete e he)).mp ?_
        exact fun item hitem => h item ⟨e, he, hitem⟩
      · rintro h item ⟨e, he, hitem⟩
        exact (@listed_item_iff repr ips _ (keys_eq_nil_iff_of_ips hips) e
          (hcomplete e he)).mpr (h e he) item hitem

/-- **When a run finds a host of the name**: exactly when the addresses can be collected and
it meets an instance of the name. -/
theorem named_streamOf_iff : named target (streamOf repr es) ≠ [] ↔
    (∀ e ∈ es, e.Complete) ∧ Met (Associated es) target es := by
  rw [streamOf, ← @exists_ips_iff es]
  cases hips : ipsOf (es.filterMap fun e => ipOf e.record) with
  | error e =>
      refine iff_of_false (fun h => h rfl) ?_
      rintro ⟨⟨ips, hno⟩, -⟩
      cases hno
  | ok ips =>
      rw [and_iff_right ⟨ips, rfl⟩]
      exact named_ne_nil_iff (keys_eq_nil_iff_of_ips hips) (exists_ips_iff.mp ⟨ips, hips⟩)

/-- The hosts of the name in a stream that is listed are those of the entries that describe
an instance of the name. -/
theorem named_of_listed (h : Listed es) :
    ∃ ips, List.Forall₂ (fun e host => e.item repr ips = some (.ok host))
      (es.filter (Entry.isNamed target)) (named target (streamOf repr es)) := by
  obtain ⟨ips, hips⟩ := exists_ips_iff.mpr h.1
  have hread := (@readable_streamOf_iff repr es).mpr h
  rw [streamOf, hips] at hread ⊢
  refine ⟨ips, ?_⟩
  dsimp only at hread ⊢
  rw [readable_iff_forall] at hread
  clear hips h
  induction es with
  | nil => exact List.Forall₂.nil
  | cons e es ih =>
      cases hitem : e.item repr ips with
      | none =>
          have hunnamed : e.isNamed target = false := by
            rw [Entry.isNamed, hostName_of_item_none hitem]
            rfl
          rw [List.filterMap_cons_none hitem] at hread ⊢
          rw [List.filter_cons_of_neg (by rw [hunnamed]; exact Bool.false_ne_true)]
          exact ih hread
      | some item =>
          rw [List.filterMap_cons_some hitem] at hread ⊢
          obtain ⟨⟨host, rfl, -⟩, hrest⟩ := List.forall_mem_cons.mp hread
          have hname : e.isNamed target = host.name.isStr target := by
            rw [Entry.isNamed, hostName_of_item hitem]
            rfl
          rw [named, yielded, List.filter_cons, List.filter_cons, hname]
          split_ifs
          · exact List.Forall₂.cons hitem (ih hrest)
          · exact ih hrest

/-- The first entries correspond. -/
theorem exists_head_of_forall₂ {α β : Type} {R : α → β → Prop} {xs : List α} {ys : List β}
    (h : List.Forall₂ R xs ys) {y : β} (hy : ys.head? = some y) :
    ∃ x, xs.head? = some x ∧ R x y := by
  cases h with
  | nil => cases hy
  | cons hR _ =>
      obtain rfl := Option.some.inj hy
      exact ⟨_, rfl, hR⟩

/-- So do the last ones. -/
theorem exists_getLast_of_forall₂ {α β : Type} {R : α → β → Prop} {xs : List α} {ys : List β}
    (h : List.Forall₂ R xs ys) {y : β} (hy : ys.getLast? = some y) :
    ∃ x, xs.getLast? = some x ∧ R x y := by
  rw [← List.head?_reverse] at hy
  obtain ⟨x, hx, hR⟩ := exists_head_of_forall₂ (List.forall₂_reverse_iff.mpr h) hy
  exact ⟨x, by rwa [List.head?_reverse] at hx, hR⟩

/-- The modes have one host for a name: a run that meets an instance of the name lists
everything; there is none of the empty name; and the first and the last instance of the name
have the same attributes. -/
structure OneHost (target : Text) (es : List Entry) : Prop where
  listed : target ≠ [] → (∀ e ∈ es, e.Complete) → Met (Associated es) target es → Listed es
  unnamed : target = [] → Listed es → ∀ e ∈ es, e.isNamed target = false
  same : target ≠ [] → Listed es → ∀ first last,
    (es.filter (Entry.isNamed target)).head? = some first →
    (es.filter (Entry.isNamed target)).getLast? = some last → SameInstance first last

/-- Instances with the same id have the same type and the same attributes. -/
def IdsIdentify (es : List Entry) : Prop :=
  ∀ e ∈ es, ∀ e' ∈ es, ∀ r r', e.record = .ok r → e'.record = .ok r' →
    (∃ attr, r.type.bind nameAttribute = some attr) →
    (∃ attr, r'.type.bind nameAttribute = some attr) →
    r.attributes.get? "id".toList = r'.attributes.get? "id".toList →
    r.type = r'.type ∧ r.attributes = r'.attributes

/-- The variables of the first host and of the last one are those of one instance. -/
theorem firstVariables_eq_of_oneHost (h : OneHost target es) :
    firstVariables target (streamOf repr es) = lastVariables target (streamOf repr es) := by
  rw [firstVariables, lastVariables]
  by_cases htarget : target = []
  · rw [if_pos htarget]
    split_ifs with hread
    · have hlisted := readable_streamOf_iff.mp hread
      obtain ⟨ips, hhosts⟩ := @named_of_listed repr target es hlisted
      have hnone : es.filter (Entry.isNamed target) = [] :=
        List.filter_eq_nil_iff.mpr fun e he => by
          rw [h.unnamed htarget hlisted e he]
          exact Bool.false_ne_true
      rw [hnone] at hhosts
      rw [List.forall₂_nil_left_iff.mp hhosts]
      rfl
    · rfl
  rw [if_neg htarget]
  by_cases hnamed : named target (streamOf repr es) = []
  · rw [hnamed]
    split_ifs <;> rfl
  · obtain ⟨hcomplete, hmet⟩ := named_streamOf_iff.mp hnamed
    have hlisted := h.listed htarget hcomplete hmet
    obtain ⟨ips, hhosts⟩ := @named_of_listed repr target es hlisted
    rw [if_pos (readable_streamOf_iff.mpr hlisted)]
    obtain ⟨first, hfirst⟩ := Option.isSome_iff_exists.mp (List.isSome_head?.mpr hnamed)
    obtain ⟨last, hlast⟩ := Option.isSome_iff_exists.mp (List.getLast?_isSome.mpr hnamed)
    obtain ⟨e, he, hitem⟩ := exists_head_of_forall₂ hhosts hfirst
    obtain ⟨e', he', hitem'⟩ := exists_getLast_of_forall₂ hhosts hlast
    have hsame := @item_congr repr ips _ _ (h.same htarget hlisted e e' he he')
    rw [hitem, hitem', Option.some.injEq, Except.ok.injEq] at hsame
    rw [hfirst, hlast, hsame]

/-- Where ids identify instances, equal variables come from one instance. -/
theorem oneHost_of_firstVariables_eq (hids : IdsIdentify es)
    (heq : firstVariables target (streamOf repr es) = lastVariables target (streamOf repr es)) :
    OneHost target es where
  listed htarget hcomplete hmet := by
    have hnamed := (@named_streamOf_iff repr target es).mpr ⟨hcomplete, hmet⟩
    obtain ⟨first, hfirst⟩ := Option.isSome_iff_exists.mp (List.isSome_head?.mpr hnamed)
    obtain ⟨hread, -⟩ := lastVariables_eq_some_iff.mp
      (heq ▸ firstVariables_eq_some_iff.mpr ⟨htarget, first, hfirst, rfl⟩)
    exact readable_streamOf_iff.mp hread
  unnamed htarget hlisted := by
    obtain ⟨ips, hhosts⟩ := @named_of_listed repr target es hlisted
    rw [firstVariables, if_pos htarget, lastVariables,
      if_pos (readable_streamOf_iff.mpr hlisted), eq_comm, Option.map_eq_none_iff,
      List.getLast?_eq_none_iff] at heq
    rw [heq] at hhosts
    intro e he
    exact Bool.eq_false_iff.mpr
      (List.filter_eq_nil_iff.mp (List.forall₂_nil_right_iff.mp hhosts) e he)
  same htarget hlisted e e' he he' := by
    obtain ⟨ips, hhosts⟩ := @named_of_listed repr target es hlisted
    obtain ⟨first, hfirst, hitem⟩ := exists_head_of_forall₂ hhosts.flip he
    obtain ⟨last, hlast, hitem'⟩ := exists_getLast_of_forall₂ hhosts.flip he'
    rw [firstVariables, if_neg htarget, lastVariables,
      if_pos (readable_streamOf_iff.mpr hlisted), hfirst, hlast, Option.map_some,
      Option.map_some, Option.some.injEq] at heq
    obtain ⟨r, hr, htype, hid⟩ := id_of_item hitem
    obtain ⟨r', hr', htype', hid'⟩ := id_of_item hitem'
    have hmem : e ∈ es := List.mem_of_mem_filter (List.mem_of_mem_head? he)
    have hmem' : e' ∈ es := List.mem_of_mem_filter (List.mem_of_mem_getLast? he')
    obtain ⟨hsameType, hsame⟩ := hids e hmem e' hmem' r r' hr hr' htype htype'
      (hid.symm.trans ((congrArg (fun attrs : Attributes => attrs.get? "id".toList) heq).trans
        hid'))
    exact ⟨r, r', hr, hr', hsameType, hsame⟩

end Entries

/-- The entries of the files have the attributes of the providers. -/
def ProviderFiles (repr : Json → Text) (files : List State) : Prop :=
  ∀ e ∈ files.flatMap (State.entries repr), ProviderEntry e

/-- The two modes agree on a name, whatever the random numbers of the two runs are. -/
def Agrees (repr : Json → Text) (sets : SetOrder) (target : Text) (files : List State) : Prop :=
  ∀ draw₁ draw₂ draw₃ draw₄, ModesAgree target
    (host repr target (iterresources repr draw₁ files) (iterresources repr draw₂ files))
    (list repr sets (iterresources repr draw₃ files) (iterresources repr draw₄ files))

/-- They agree when the first host of the name has the variables of the last. -/
theorem agrees_iff_firstVariables_eq {repr : Json → Text} (sets : SetOrder) {target : Text}
    {files : List State} (hfiles : ProviderFiles repr files) :
    Agrees repr sets target files ↔
      firstVariables target (streamOf repr (files.flatMap (State.entries repr)))
        = lastVariables target (streamOf repr (files.flatMap (State.entries repr))) := by
  have hrun : ∀ draw₁ draw₂ draw₃ draw₄, ModesAgree target
      (host repr target (iterresources repr draw₁ files) (iterresources repr draw₂ files))
      (list repr sets (iterresources repr draw₃ files) (iterresources repr draw₄ files)) ↔
      firstVariables target (streamOf repr (files.flatMap (State.entries repr)))
        = lastVariables target (streamOf repr (files.flatMap (State.entries repr))) := by
    intro draw₁ draw₂ draw₃ draw₄
    have hstream : ∀ draw draw',
        stream repr (iterresources repr draw files) (iterresources repr draw' files)
          = streamOf repr (files.flatMap (State.entries repr)) := fun draw draw' =>
      stream_iterresources hfiles
    rw [ModesAgree, variablesOf_host, entryOf_list, printed_eq_entry_iff, hstream, hstream]
    · intro attrs hattrs
      obtain ⟨-, h, hfirst, rfl⟩ := firstVariables_eq_some_iff.mp hattrs
      exact attrs_of_stream (List.mem_of_mem_head? hfirst)
    · intro attrs hattrs
      obtain ⟨-, h, hlast, rfl⟩ := lastVariables_eq_some_iff.mp hattrs
      exact attrs_of_stream (List.mem_of_mem_getLast? hlast)
  exact ⟨fun h => (hrun (fun _ _ => 0) (fun _ _ => 0) (fun _ _ => 0) fun _ _ => 0).mp (h _ _ _ _),
    fun h draw₁ draw₂ draw₃ draw₄ => (hrun draw₁ draw₂ draw₃ draw₄).mpr h⟩

/-- **The two modes agree on a name** when it stands for one host, and only then, where the
ids of instances identify them. -/
theorem modesAgree_iff (repr : Json → Text) (sets : SetOrder) (target : Text)
    (files : List State) :
    (ProviderFiles repr files ∧ OneHost target (files.flatMap (State.entries repr)) →
      Agrees repr sets target files) ∧
    (ProviderFiles repr files ∧ IdsIdentify (files.flatMap (State.entries repr)) →
      (Agrees repr sets target files ↔
        OneHost target (files.flatMap (State.entries repr)))) := by
  constructor
  · rintro ⟨hfiles, hone⟩
    exact (agrees_iff_firstVariables_eq sets hfiles).mpr (firstVariables_eq_of_oneHost hone)
  · rintro ⟨hfiles, hids⟩
    rw [agrees_iff_firstVariables_eq sets hfiles]
    exact ⟨oneHost_of_firstVariables_eq hids, firstVariables_eq_of_oneHost⟩

/-- With one instance of a name among entries that can all be used, the name stands for one
host. -/
theorem oneHost_of_single {target : Text} {es : List Entry} {e : Entry} (htarget : target ≠ [])
    (hlisted : Listed es) (hsingle : es.filter (Entry.isNamed target) = [e]) :
    OneHost target es where
  listed _ _ _ := hlisted
  unnamed hno := absurd hno htarget
  same _ _ first last hfirst hlast := by
    rw [hsingle] at hfirst hlast
    cases hfirst
    cases hlast
    have he : e ∈ es := List.mem_of_mem_filter (p := Entry.isNamed target) (by
      rw [hsingle]
      exact List.mem_cons_self)
    obtain ⟨r, hr, -⟩ := hlisted.1 e he
    exact ⟨r, r, hr, hr, rfl, rfl⟩

/-- The modes agree on the first of two instances with different names. -/
theorem modesAgree_twoFiles : Agrees (fun _ => []) listOrder "n1".toList twoFiles := by
  refine (modesAgree_iff _ _ _ _).1 ⟨fun e he => (openstackEntry_twoFiles e he).provider, ?_⟩
  have hlisted : Listed (twoFiles.flatMap (State.entries fun _ => [])) :=
    (@readable_streamOf_iff (fun _ => []) _).mp (by decide +kernel)
  exact oneHost_of_single (by decide) hlisted (by rfl)

/-- Two states with an instance of the same name each. -/
def sameNames : List State :=
  [.v4 [smallResource "node1".toList "first".toList],
    .v4 [smallResource "node1".toList "second".toList]]

/-- One mode prints the port of the first instance, the other that of the second. -/
theorem modesAgree_fails :
    ¬ ∀ (repr : Json → Text) (sets : SetOrder) (target : Text) (files : List State)
      (draw₁ draw₂ draw₃ draw₄ : ℕ → ℕ → ℕ), ModesAgree target
        (host repr target (iterresources repr draw₁ files) (iterresources repr draw₂ files))
        (list repr sets (iterresources repr draw₃ files) (iterresources repr draw₄ files)) := by
  intro h
  obtain ⟨hentry, -⟩ := h (fun _ => []) listOrder "node1".toList sameNames (fun _ n => n)
    (fun _ n => n) (fun _ n => n) (fun _ n => n)
  set run := iterresources (fun _ => []) (fun _ n => n) sameNames
  have hfirst : ((variablesOf (host (fun _ => []) "node1".toList run run)).get?
      "port_id".toList).any (Json.isStr "first".toList) = true := by decide +kernel
  have hlast : (entryOf "node1".toList (list (fun _ => []) listOrder run run)).any (fun attrs =>
      (attrs.get? "port_id".toList).any (Json.isStr "second".toList)) = true := by
    decide +kernel
  obtain ⟨attrs, hattrs, hsecond⟩ := (Option.any_eq_true _ _).mp hlast
  rw [hentry attrs hattrs] at hfirst
  obtain ⟨v, hv, hone⟩ := (Option.any_eq_true _ _).mp hfirst
  rw [hv, Option.any_some, eq_str_of_isStr hone] at hsecond
  exact absurd hsecond (by decide)

end Kubespray.Terraform
