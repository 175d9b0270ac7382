import Kubespray.Terraform.Parsers
import Kubespray.Library.Fallible

/-!
# The Listing

`terraform.py --list` goes through the state files twice: once for the hosts, and before
that for the floating-IP associations, which give the address of a port. When there is an
association, every host passes through `iter_host_ips`. `query_list` then folds the hosts
into one dictionary of groups, under whose key `_meta` stand the variables of all hosts.

The streams of the script are generators. A list of results stands for one: what it
yields up to the first exception.

## Main results

* `hostsOf_eq`, `list_eq`: every host passes through `iter_host_ips` on its own.
* `collect_eq_ok_iff`: when `query_list` succeeds, and what it collects.
-/

namespace Kubespray.Terraform

open OrderedDict Fallible

/-! ### The two passes -/

/-- The parser for a record, or the exception of taking its key apart. -/
def dispatch (repr : Json → Text) (r : Record) :
    Except Raised (Option (Attributes → Except Raised Host)) :=
  match splitOnce '.' r.key with
  | some (type, _) => .ok (parser repr type)
  | none => .error .valueError

/-- What `iterhosts` makes of one record. -/
def hostOf (repr : Json → Text) (record : Except Raised Record) : Option (Except Raised Host) :=
  match record with
  | .error e => some (.error e)
  | .ok r =>
    match dispatch repr r with
    | .error e => some (.error e)
    | .ok none => none
    | .ok (some parse) => some (parse r.attributes)

/-- `iterhosts`. -/
def iterhosts (repr : Json → Text) (resources : List (Except Raised Record)) :
    List (Except Raised Host) :=
  resources.filterMap (hostOf repr)

/-- What `iterips` makes of one record. -/
def ipOf (record : Except Raised Record) : Option (Except Raised (Json × Json)) :=
  match record with
  | .error e => some (.error e)
  | .ok r =>
    match splitOnce '.' r.key with
    | some (type, _) =>
      if type = associateType then some (openstackFloatingIps r.attributes) else none
    | none => some (.error .valueError)

/-- `iterips`. -/
def iterips (resources : List (Except Raised Record)) : List (Except Raised (Json × Json)) :=
  resources.filterMap ipOf

/-- The addresses of the ports. -/
abbrev Ips := OrderedDict Key Json

/-- One assignment of `dict(iterips(...))`. -/
def addIp (ips : Ips) (item : Except Raised (Json × Json)) : Except Raised Ips := do
  let (portId, ip) ← item
  return ips.set (← portId.key) ip

/-- `dict(iterips(...))`. -/
def ipsOf (items : List (Except Raised (Json × Json))) : Except Raised Ips :=
  items.foldlM addIp OrderedDict.empty

/-! ### Floating IPs -/

/-- The update of a host whose port has an address. -/
def withIp (ip : Json) (attrs : Attributes) : Attributes :=
  (((attrs.set "access_ip_v4".toList ip).set "access_ip".toList ip).set
    "public_ipv4".toList ip).set "ansible_host".toList ip

/-- The test `metadata['use_access_ip'] == "0"`, on a host's `metadata`. -/
def refusesAccessIp (metadata : Json) : Except Raised Bool :=
  match metadata with
  | .obj fields => .ok ((fields.lookup "use_access_ip".toList).any (Json.isStr ['0']))
  | .str t => if "use_access_ip".toList <:+: t then .error .typeError else .ok false
  | .arr xs => if xs.any (Json.isStr "use_access_ip".toList) then .error .typeError else .ok false
  | .null | .bool _ | .int _ | .float _ _ _ => .error .typeError

/-- `host[1].pop('access_ip')`. -/
def popAccessIp (attrs : Attributes) : Except Raised Attributes := do
  let _ ← subscript attrs "access_ip".toList
  return attrs.erase "access_ip".toList

/-- One round of `iter_host_ips`. -/
def updateHost (ips : Ips) (h : Host) : Except Raised Host := do
  let portId ← subscript h.attrs "port_id".toList
  let attrs := match ips.get? (← portId.key) with
    | some ip => withIp ip h.attrs
    | none => h.attrs
  if ← refusesAccessIp (← subscript attrs "metadata".toList) then
    return { h with attrs := ← popAccessIp attrs }
  else
    return { h with attrs := attrs }

/-- `iter_host_ips`. -/
def iterHostIps (ips : Ips) (hosts : List (Except Raised Host)) : List (Except Raised Host) :=
  hosts.map fun h => do updateHost ips (← h)

/-- The hosts that `main` hands to a query: they pass through `iter_host_ips` when there is
an association. -/
def hostsOf (repr : Json → Text) (first second : List (Except Raised Record)) :
    Except Raised (List (Except Raised Host)) := do
  let ips ← ipsOf (iterips second)
  let hosts := iterhosts repr first
  return if ips.keys = [] then hosts else iterHostIps ips hosts

/-- What becomes of an item of `iterhosts` before a query. -/
def passItem (ips : Ips) (item : Except Raised Host) : Except Raised Host :=
  if ips.keys = [] then item else (do updateHost ips (← item))

/-! ### Queries -/

/-- What stands under a key of the listing. -/
inductive OutputGroup
  | hosts (names : List Json)
  | hostvars (vars : OrderedDict Key Attributes)

/-- The order in which Python goes through the set of a list. -/
structure SetOrder where
  order : List Text → List Text
  perm : ∀ xs, (order xs).Perm xs.dedup

/-- The empty group name is altered to `all`. -/
def groupName (group : Text) : Text :=
  if group = [] then "all".toList else group

/-- Append a host to a group. -/
def addToGroup (name : Json) (groups : OrderedDict Text (List Json)) (group : Text) :
    OrderedDict Text (List Json) :=
  groups.set (groupName group) ((groups.get? (groupName group)).getD [] ++ [name])

/-- The groups and the variables that `query_list` accumulates. -/
structure Listing where
  groups : OrderedDict Text (List Json)
  vars : OrderedDict Key Attributes

/-- One round of `query_list`. -/
def addHost (sets : SetOrder) (l : Listing) (item : Except Raised Host) :
    Except Raised Listing := do
  let h ← item
  return { groups := (sets.order h.groups).foldl (addToGroup h.name) l.groups
           vars := l.vars.set (← h.name.key) h.attrs }

/-- The loop of `query_list`. -/
def collect (sets : SetOrder) (hosts : List (Except Raised Host)) : Except Raised Listing :=
  hosts.foldlM (addHost sets) ⟨OrderedDict.empty, OrderedDict.empty⟩

/-- The dictionary that `query_list` returns. The key `_meta` replaces a group of that
name. -/
def Listing.output (l : Listing) : OrderedDict Text OutputGroup :=
  (ofList (l.groups.entries.map fun e => (e.1, OutputGroup.hosts e.2))).set "_meta".toList
    (.hostvars l.vars)

/-- `query_list`. -/
def queryList (sets : SetOrder) (hosts : List (Except Raised Host)) :
    Except Raised (OrderedDict Text OutputGroup) := do
  return (← collect sets hosts).output

/-- `query_host`: the search ends at the first host of the name. -/
def queryHost (target : Text) : List (Except Raised Host) → Except Raised Attributes
  | [] => .ok OrderedDict.empty
  | item :: rest => do
    let h ← item
    if h.name.isStr target then return h.attrs else queryHost target rest

/-- `terraform.py --list`, on the records of the two passes. -/
def list (repr : Json → Text) (sets : SetOrder) (first second : List (Except Raised Record)) :
    Except Raised (OrderedDict Text OutputGroup) := do
  queryList sets (← hostsOf repr first second)

/-- Every host passes one by one. -/
theorem hostsOf_eq {repr : Json → Text} {first second : List (Except Raised Record)} :
    hostsOf repr first second = (do
      let ips ← ipsOf (iterips second)
      return (iterhosts repr first).map (passItem ips)) := by
  rw [hostsOf]
  refine bind_congr fun ips => ?_
  have hpass : (if ips.keys = [] then iterhosts repr first
      else iterHostIps ips (iterhosts repr first)) = (iterhosts repr first).map (passItem ips) := by
    split_ifs with hempty
    · have hid : passItem ips = id := funext fun item => if_pos hempty
      rw [hid, List.map_id]
    · exact List.map_congr_left fun item _ => (if_neg hempty).symm
  exact congrArg pure hpass

/-- The listing is made of the hosts that pass. -/
theorem list_eq {repr : Json → Text} {sets : SetOrder}
    {first second : List (Except Raised Record)} :
    list repr sets first second = (do
      let ips ← ipsOf (iterips second)
      queryList sets ((iterhosts repr first).map (passItem ips))) := by
  rw [list, hostsOf_eq, bind_assoc]
  rfl

/-- `iter_host_ips` keeps the name of a host. -/
theorem name_of_updateHost {ips : Ips} {h h' : Host} (hok : updateHost ips h = .ok h') :
    h'.name = h.name := by
  obtain ⟨portId, -, hok⟩ := ok_of_bind hok
  obtain ⟨key, -, hok⟩ := ok_of_bind hok
  obtain ⟨metadata, -, hok⟩ := ok_of_bind hok
  obtain ⟨refused, -, hok⟩ := ok_of_bind hok
  cases refused with
  | false =>
      cases hok
      rfl
  | true =>
      obtain ⟨attrs, -, hok⟩ := ok_of_bind hok
      cases hok
      rfl

/-- An item that passes is a host, which keeps its name. -/
theorem passItem_eq_ok {ips : Ips} {item : Except Raised Host} {h : Host}
    (hpass : passItem ips item = .ok h) : ∃ parsed, item = .ok parsed ∧ h.name = parsed.name := by
  rw [passItem] at hpass
  split_ifs at hpass
  · exact ⟨h, hpass, rfl⟩
  · obtain ⟨parsed, rfl, hupdate⟩ := ok_of_bind hpass
    exact ⟨parsed, rfl, name_of_updateHost hupdate⟩

/-- The hosts that pass have the names they had. -/
theorem names_of_passed {ips : Ips} {hosts hs : List Host}
    (h : hosts.map (passItem ips ∘ .ok) = hs.map .ok) :
    hs.map Host.name = hosts.map Host.name := by
  induction hosts generalizing hs with
  | nil => rw [List.map_eq_nil_iff.mp h.symm]
  | cons host hosts ih =>
      cases hs with
      | nil => cases h
      | cons passed hs =>
          rw [List.map_cons, List.map_cons, List.cons.injEq] at h
          obtain ⟨parsed, heq, hname⟩ := passItem_eq_ok h.1
          cases heq
          rw [List.map_cons, List.map_cons, hname, ih h.2]

/-- Look-ups are all that a host is updated by. -/
theorem passItem_congr {ips ips' : Ips} (h : ∀ port, ips'.get? port = ips.get? port) :
    passItem ips' = passItem ips := by
  have hkeys : ips'.keys = [] ↔ ips.keys = [] := by
    rw [keys_eq_nil_iff, keys_eq_nil_iff]
    exact forall_congr' fun port => by rw [h]
  have hupdate : updateHost ips' = updateHost ips := by
    funext host
    simp only [updateHost, h]
  funext item
  simp only [passItem, hkeys, hupdate]

/-! ### Reading a listing -/

/-- `_meta.hostvars`. -/
def hostvars (output : OrderedDict Text OutputGroup) : OrderedDict Key Attributes :=
  match output.get? "_meta".toList with
  | some (.hostvars vars) => vars
  | _ => OrderedDict.empty

/-- The hosts of a group. -/
def groupHosts (output : OrderedDict Text OutputGroup) (group : Text) : List Json :=
  match output.get? group with
  | some (.hosts names) => names
  | _ => []

/-- The variables of a listing. -/
@[simp] theorem hostvars_output (l : Listing) : hostvars l.output = l.vars := by
  rw [hostvars, Listing.output, get?_set_self]

/-- The groups of a listing. -/
theorem groupHosts_output (l : Listing) {group : Text} (h : group ≠ "_meta".toList) :
    groupHosts l.output group = (l.groups.get? group).getD [] := by
  have hkeys : (l.groups.entries.map fun e => (e.1, OutputGroup.hosts e.2)).map Prod.fst
      = l.groups.keys := by
    rw [List.map_map]
    rfl
  rw [groupHosts, Listing.output, get?_set_of_ne _ _ h]
  cases hget : l.groups.get? group with
  | none =>
      rw [get?_ofList_of_notMem]
      · rfl
      · rw [hkeys]
        exact get?_eq_none_iff.mp hget
  | some names =>
      have hmem := List.mem_map_of_mem (f := fun e => (e.1, OutputGroup.hosts e.2))
        (mem_entries_of_get? hget)
      rw [(get?_ofList (hkeys ▸ l.groups.keys_nodup)).mpr hmem]
      rfl

/-! ### The loop of `query_list` -/

/-- The key of a host in `_meta.hostvars`. -/
def nameKey (h : Host) : Key :=
  match h.name.key with
  | .ok k => k
  | .error _ => .none

/-- One round on a host whose name has a hash. -/
def Listing.add (sets : SetOrder) (l : Listing) (h : Host) : Listing :=
  { groups := (sets.order h.groups).foldl (addToGroup h.name) l.groups
    vars := l.vars.set (nameKey h) h.attrs }

/-- A host is added when its name has a hash. -/
theorem addHost_eq_ok_iff {sets : SetOrder} {l l' : Listing} {item : Except Raised Host} :
    addHost sets l item = .ok l' ↔
      ∃ h, item = .ok h ∧ (∃ k, h.name.key = .ok k) ∧ l' = l.add sets h := by
  rw [addHost]
  constructor
  · intro hadd
    obtain ⟨h, hitem, hrest⟩ := ok_of_bind hadd
    obtain ⟨k, hk, hlast⟩ := ok_of_bind hrest
    cases hlast
    refine ⟨h, hitem, ⟨k, hk⟩, ?_⟩
    rw [Listing.add, nameKey, hk]
  · rintro ⟨h, rfl, ⟨k, hk⟩, rfl⟩
    rw [ok_bind, hk, ok_bind, Listing.add, nameKey, hk]
    rfl

/-- **When `query_list` succeeds, and what it collects**: no host may have failed, and all
names have hashes. -/
theorem collect_eq_ok_iff {sets : SetOrder} {items : List (Except Raised Host)} {l : Listing} :
    collect sets items = .ok l ↔
      ∃ hs : List Host, items = hs.map .ok ∧ (∀ h ∈ hs, ∃ k, h.name.key = .ok k) ∧
        l = hs.foldl (Listing.add sets) ⟨OrderedDict.empty, OrderedDict.empty⟩ := by
  rw [collect]
  generalize (⟨OrderedDict.empty, OrderedDict.empty⟩ : Listing) = start
  induction items generalizing start with
  | nil =>
      constructor
      · intro h
        cases h
        exact ⟨[], rfl, fun h hh => absurd hh List.not_mem_nil, rfl⟩
      · rintro ⟨hs, hmap, -, rfl⟩
        obtain rfl := List.map_eq_nil_iff.mp hmap.symm
        rfl
  | cons item items ih =>
      rw [List.foldlM_cons, bind_eq_ok_iff]
      constructor
      · rintro ⟨next, hadd, hrest⟩
        obtain ⟨h, rfl, hkey, rfl⟩ := addHost_eq_ok_iff.mp hadd
        obtain ⟨hs, rfl, hkeys, rfl⟩ := (ih _).mp hrest
        exact ⟨h :: hs, rfl, List.forall_mem_cons.mpr ⟨hkey, hkeys⟩, rfl⟩
      · rintro ⟨hs, hmap, hkeys, rfl⟩
        cases hs with
        | nil => cases hmap
        | cons h hs =>
            rw [List.map_cons, List.cons.injEq] at hmap
            obtain ⟨rfl, rfl⟩ := hmap
            obtain ⟨hkey, hkeys⟩ := List.forall_mem_cons.mp hkeys
            exact ⟨start.add sets h, addHost_eq_ok_iff.mpr ⟨h, rfl, hkey, rfl⟩,
              (ih _).mpr ⟨hs, rfl, hkeys, rfl⟩⟩

/-- The variables after the loop. -/
theorem vars_foldl_add (sets : SetOrder) (hs : List Host) (l : Listing) :
    (hs.foldl (Listing.add sets) l).vars
      = (hs.map fun h => (nameKey h, h.attrs)).foldl (fun acc x => acc.set x.1 x.2) l.vars := by
  induction hs generalizing l with
  | nil => rfl
  | cons h hs ih => rw [List.foldl_cons, ih, List.map_cons, List.foldl_cons]; rfl

/-- The names after the loop. -/
theorem mem_keys_foldl_add (sets : SetOrder) (hs : List Host) (name : Key) :
    name ∈ (hs.foldl (Listing.add sets) ⟨OrderedDict.empty, OrderedDict.empty⟩).vars.keys ↔
      ∃ h ∈ hs, nameKey h = name := by
  rw [vars_foldl_add, keys_foldl_set, mem_addKeys, keys_empty, List.map_map, List.mem_map]
  exact or_iff_right List.not_mem_nil

/-- The groups after the loop depend on names and groups only. -/
theorem groups_foldl_add_congr {α : Type} (sets : SetOrder) {F G : α → Host}
    (hname : ∀ a, (F a).name = (G a).name) (hgroups : ∀ a, (F a).groups = (G a).groups)
    (xs : List α) {l l' : Listing} (hl : l'.groups = l.groups) :
    ((xs.map F).foldl (Listing.add sets) l').groups
      = ((xs.map G).foldl (Listing.add sets) l).groups := by
  induction xs generalizing l l' with
  | nil => exact hl
  | cons x xs ih =>
      refine ih ?_
      rw [Listing.add, Listing.add, hname, hgroups, hl]

end Kubespray.Terraform
