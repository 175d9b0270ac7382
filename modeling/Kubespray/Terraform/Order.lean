import Kubespray.Terraform.FloatingIps
import Kubespray.Terraform.Readings

/-!
# Any Order of State Files

`os.walk` finds the state files in an unspecified order, and both passes go through them
anew. The inventory does not depend on the orders when the instances have distinct names
and the associations distinct ports: a name is assigned its variables once, a port its
address once, and the hosts of a group are the same in another order.

## Main results

* `ipsOf_perm`: the addresses of the ports do not depend on the order.
* `collect_perm`: what `query_list` collects does not depend on it, but for the order in
  which the hosts of a group stand.
* `list_records`: the random numbers make no difference to a listing.
* `leavesOthers_records_iff`: nor to what a further association changes.
* `list_sameListing`: neither the orders nor the random numbers change the listing.
-/

namespace Kubespray.Terraform

open OrderedDict Fallible

variable {repr : Json → Text}

/-! ### Passes -/

/-- An entry as it is read when all random numbers are zero. -/
def Entry.record (e : Entry) : Except Raised Record :=
  e.read fun _ => 0

/-- The type of an entry is that of its record. -/
theorem Entry.type_eq {e : Entry} {r : Record} (h : e.record = .ok r) : e.type = r.type := by
  rw [Entry.record] at h
  cases e with
  | flat =>
      cases h
      rfl
  | failing => cases h
  | nested moduleName key attributes =>
      cases attributes with
      | null | bool | int | float | str | arr => cases h
      | obj fields =>
          obtain ⟨a, -, hok⟩ := ok_of_bind h
          cases hok
          rfl

/-- A pass is made of the entries of the files, whatever the random numbers are. -/
theorem filterMap_iterresources {α : Type} {f : Except Raised Record → Option α}
    {files : List State} {draw : ℕ → ℕ → ℕ}
    (hf : ∀ e ∈ files.flatMap (State.entries repr), ∀ draw, f (e.read draw) = f e.record) :
    (iterresources repr draw files).filterMap f
      = (files.flatMap (State.entries repr)).filterMap fun e => f e.record := by
  rw [iterresources, List.mapIdx_eq_zipIdx_map, List.filterMap_map]
  have hfst : (files.flatMap (State.entries repr)).filterMap (fun e => f e.record)
      = (files.flatMap (State.entries repr)).zipIdx.filterMap fun x => f x.1.record := by
    conv_lhs => rw [← List.zipIdx_map_fst 0 (files.flatMap (State.entries repr))]
    rw [List.filterMap_map]
    rfl
  rw [hfst]
  refine List.filterMap_congr fun x hx => ?_
  exact hf x.1 (List.fst_mem_of_mem_zipIdx hx) _

/-- The records of some files as they are read when all random numbers are zero. -/
def records (repr : Json → Text) (files : List State) : List (Except Raised Record) :=
  (files.flatMap (State.entries repr)).map Entry.record

/-- **The random numbers make no difference to a listing**, if the hosts have the attributes
of the provider. So what is proved of the listings of records holds of runs that draw random
numbers of their own in each pass. -/
theorem list_records {sets : SetOrder} {first second : List State} {draw₁ draw₂ : ℕ → ℕ → ℕ}
    (hfirst : ∀ e ∈ first.flatMap (State.entries repr), ProviderEntry e) :
    list repr sets (iterresources repr draw₁ first) (iterresources repr draw₂ second)
      = list repr sets (records repr first) (records repr second) := by
  have hhosts := @filterMap_iterresources repr _ (hostOf repr) first draw₁ fun e he draw =>
    (hfirst e he).hostOf_read draw _
  have hips := @filterMap_iterresources repr _ ipOf second draw₂ fun e _ draw =>
    ipOf_read e draw _
  rw [list_eq, list_eq, iterips, hips, iterhosts, hhosts, iterips, iterhosts, records, records,
    List.filterMap_map, List.filterMap_map]
  rfl

/-- **What a further association changes** in two runs, each with random numbers of its own, it
changes in the listings of the records. -/
theorem leavesOthers_records_iff {sets : SetOrder} {before after before' after' : List State}
    (draw : Fin 4 → ℕ → ℕ → ℕ) {key : Key}
    (hbefore : ∀ e ∈ before.flatMap (State.entries repr), ProviderEntry e)
    (hafter : ∀ e ∈ after.flatMap (State.entries repr), ProviderEntry e) :
    LeavesOthers
        (list repr sets (iterresources repr (draw 0) before) (iterresources repr (draw 1) before'))
        (list repr sets (iterresources repr (draw 2) after) (iterresources repr (draw 3) after'))
        key ↔
      LeavesOthers (list repr sets (records repr before) (records repr before'))
        (list repr sets (records repr after) (records repr after')) key := by
  rw [list_records hbefore, list_records hafter]

/-! ### Addresses -/

/-- The assignment that an item of `iterips` makes. -/
def ipPair (item : Except Raised (Json × Json)) : Except Raised (Key × Json) := do
  let (portId, ip) ← item
  return (← portId.key, ip)

/-- The addresses are those of a dictionary of assignments. -/
theorem ipsOf_eq_ok_iff {items : List (Except Raised (Json × Json))} {ips : Ips} :
    ipsOf items = .ok ips ↔
      ∃ pairs : List (Key × Json), items.map ipPair = pairs.map .ok ∧ ips = ofList pairs := by
  refine foldlM_eq_ok_iff fun ips item => ?_
  rw [addIp, ipPair]
  cases item with
  | error e => rfl
  | ok pair =>
      obtain ⟨portId, ip⟩ := pair
      change (do return ips.set (← portId.key) ip : Except Raised Ips)
        = (do let x ← (do return (← portId.key, ip)); return ips.set x.1 x.2)
      cases portId.key with
      | error e => rfl
      | ok key => rfl

/-- **The addresses of distinct ports do not depend on the order.** -/
theorem ipsOf_perm {items items' : List (Except Raised (Json × Json))} {ips : Ips}
    (hperm : items'.Perm items) (h : ipsOf items = .ok ips)
    (hports : ∀ pairs : List (Key × Json), items.map ipPair = pairs.map .ok →
      (pairs.map Prod.fst).Nodup) :
    ∃ ips', ipsOf items' = .ok ips' ∧ ∀ port, ips'.get? port = ips.get? port := by
  obtain ⟨pairs, hpairs, rfl⟩ := ipsOf_eq_ok_iff.mp h
  obtain ⟨pairs', hpairs', hperm'⟩ := exists_map_ok_of_perm (hpairs ▸ hperm.map ipPair)
  exact ⟨ofList pairs', ipsOf_eq_ok_iff.mpr ⟨pairs', hpairs', rfl⟩,
    get?_ofList_perm hperm' (hports pairs hpairs)⟩

/-! ### Hosts of groups -/

/-- The hosts of a group after one of the groups of a host. -/
theorem mem_addToGroup {name x : Json} {groups : OrderedDict Text (List Json)}
    {group g : Text} :
    x ∈ ((addToGroup name groups group).get? g).getD [] ↔
      x ∈ (groups.get? g).getD [] ∨ x = name ∧ groupName group = g := by
  rw [addToGroup, get?_set]
  by_cases hg : g = groupName group
  · rw [if_pos hg, hg, Option.getD_some, List.mem_append, List.mem_singleton]
    exact or_congr_right (and_iff_left rfl).symm
  · rw [if_neg hg]
    exact (or_iff_left fun h => hg h.2.symm).symm

/-- The hosts of a group after the groups of a host. -/
theorem mem_foldl_addToGroup {name x : Json} {gs : List Text}
    {groups : OrderedDict Text (List Json)} {g : Text} :
    x ∈ ((gs.foldl (addToGroup name) groups).get? g).getD [] ↔
      x ∈ (groups.get? g).getD [] ∨ x = name ∧ g ∈ gs.map groupName := by
  induction gs generalizing groups with
  | nil => exact (or_iff_left fun h => List.not_mem_nil h.2).symm
  | cons group gs ih =>
      rw [List.foldl_cons, ih, mem_addToGroup, or_assoc, List.map_cons, List.mem_cons,
        ← and_or_left, eq_comm (a := g)]

/-- **The hosts of a group after the loop.** -/
theorem mem_groups_foldl_add (sets : SetOrder) {hs : List Host} {l : Listing} {x : Json}
    {g : Text} :
    x ∈ ((hs.foldl (Listing.add sets) l).groups.get? g).getD [] ↔
      x ∈ (l.groups.get? g).getD [] ∨ ∃ h ∈ hs, x = h.name ∧ g ∈ h.groups.map groupName := by
  induction hs generalizing l with
  | nil => simp
  | cons h hs ih =>
      have hset : g ∈ (sets.order h.groups).map groupName ↔ g ∈ h.groups.map groupName := by
        simp only [List.mem_map, (sets.perm h.groups).mem_iff, List.mem_dedup]
      rw [List.foldl_cons, ih, Listing.add, mem_foldl_addToGroup, or_assoc, hset]
      simp only [List.mem_cons, exists_eq_or_imp]

/-- **What `query_list` collects does not depend on the order** of hosts with distinct
names, but for the order in which the hosts of a group stand. -/
theorem collect_perm {sets : SetOrder} (sets' : SetOrder)
    {items items' : List (Except Raised Host)} {l : Listing} (hperm : items'.Perm items)
    (h : collect sets items = .ok l)
    (hnames : ∀ hs : List Host, items = hs.map .ok → (∀ h ∈ hs, ∃ k, h.name.key = .ok k) →
      (hs.map nameKey).Nodup) :
    ∃ l', collect sets' items' = .ok l' ∧ (∀ name, l'.vars.get? name = l.vars.get? name) ∧
      ∀ g x, x ∈ (l'.groups.get? g).getD [] ↔ x ∈ (l.groups.get? g).getD [] := by
  obtain ⟨hs, rfl, hkeys, rfl⟩ := collect_eq_ok_iff.mp h
  obtain ⟨hs', rfl, hperm'⟩ := exists_map_ok_of_perm hperm
  have hkeys' : ∀ h ∈ hs', ∃ k, h.name.key = .ok k := fun h hh => hkeys h (hperm'.mem_iff.mp hh)
  refine ⟨_, collect_eq_ok_iff.mpr ⟨hs', rfl, hkeys', rfl⟩, fun name => ?_, fun g x => ?_⟩
  · rw [vars_foldl_add, vars_foldl_add]
    refine get?_ofList_perm (hperm'.map _) ?_ name
    rw [List.map_map]
    exact hnames hs rfl hkeys
  · rw [mem_groups_foldl_add, mem_groups_foldl_add]
    exact or_congr_right (exists_congr fun h => and_congr_left fun _ => hperm'.mem_iff)

/-! ### Names and ports -/

/-- An attribute of the resources of one type, as a key. -/
def resourceKey (type name : Text) (record : Except Raised Record) : Option Key :=
  match record with
  | .ok r => if r.type = some type then attributeKey r.attributes name else none
  | .error _ => none

/-- The name of an instance. -/
def Entry.instanceKey (e : Entry) : Option Key :=
  resourceKey computeType "name".toList e.record

/-- The port that an association gives an address. -/
def Entry.associatedPort (e : Entry) : Option Key :=
  resourceKey associateType "port_id".toList e.record

/-- The attribute of a resource of the type. -/
theorem resourceKey_of_type {type name : Text} {r : Record} (h : r.type = some type) :
    resourceKey type name (.ok r) = attributeKey r.attributes name :=
  if_pos h

/-- Resources of other types are passed over. -/
theorem resourceKey_of_ne {type name : Text} {r : Record} (h : r.type ≠ some type) :
    resourceKey type name (.ok r) = none :=
  if_neg h

/-- An association whose assignment succeeds. -/
theorem associatedPort_of_some {e : Entry} {pair : Key × Json}
    (h : (ipOf e.record).map ipPair = some (.ok pair)) : e.associatedPort = some pair.1 := by
  rw [Entry.associatedPort]
  obtain ⟨item, hitem, hpair⟩ := Option.map_eq_some_iff.mp h
  obtain ⟨⟨portId, ip⟩, rfl, hrest⟩ := ok_of_bind hpair
  obtain ⟨key, hkey, hlast⟩ := ok_of_bind hrest
  cases hlast
  cases hrecord : e.record with
  | error => rw [hrecord] at hitem; cases hitem
  | ok r =>
      rw [hrecord] at hitem
      cases htype : r.type with
      | none =>
          rw [Record.type, Option.map_eq_none_iff] at htype
          simp only [ipOf, htype] at hitem
          cases hitem
      | some type =>
          rw [ipOf_of_type htype] at hitem
          split_ifs at hitem with hassociate
          subst hassociate
          obtain ⟨port, hport, hips⟩ := ok_of_bind (Option.some.inj hitem)
          obtain ⟨address, -, hips⟩ := ok_of_bind hips
          cases hips
          rw [resourceKey_of_type htype]
          exact attributeKey_eq_some (subscript_eq_ok_iff.mp hport) hkey

/-- An entry that `iterips` passes over. -/
theorem associatedPort_of_none {e : Entry} (h : (ipOf e.record).map ipPair = none) :
    e.associatedPort = none := by
  rw [Entry.associatedPort]
  rw [Option.map_eq_none_iff] at h
  cases hrecord : e.record with
  | error => rfl
  | ok r =>
      refine resourceKey_of_ne fun htype => ?_
      rw [hrecord, ipOf_of_type htype, if_pos rfl] at h
      cases h

/-- A host that is collected has the name of its instance. -/
theorem OpenstackEntry.instanceKey_of_some {e : Entry} (he : OpenstackEntry e) {ips : Ips}
    {h : Host} (hitem : (hostOf repr e.record).map (passItem ips) = some (.ok h))
    (hkey : ∃ k, h.name.key = .ok k) : e.instanceKey = some (nameKey h) := by
  obtain ⟨k, hk⟩ := hkey
  obtain ⟨item, hhost, hpass⟩ := Option.map_eq_some_iff.mp hitem
  obtain ⟨parsed, rfl, hname⟩ := passItem_eq_ok hpass
  rw [Entry.instanceKey]
  cases hrecord : e.record with
  | error => rw [hrecord] at hhost; cases hhost
  | ok r =>
      rw [hrecord] at hhost
      have htype : r.type = some computeType :=
        (type_of_hostOf hhost).resolve_left (Entry.type_eq hrecord ▸ he.noEquinix)
      rw [hostOf_compute htype, Option.some.injEq] at hhost
      rw [resourceKey_of_type htype, attributeKey_name (openstackHost_eq_ok hhost) (hname ▸ hk),
        nameKey, nameKey, hname]

/-- An entry that `iterhosts` passes over. -/
theorem instanceKey_of_none {e : Entry} {ips : Ips}
    (h : (hostOf repr e.record).map (passItem ips) = none) : e.instanceKey = none := by
  rw [Entry.instanceKey]
  rw [Option.map_eq_none_iff] at h
  cases hrecord : e.record with
  | error => rfl
  | ok r =>
      refine resourceKey_of_ne fun htype => ?_
      rw [hrecord, hostOf_compute htype] at h
      cases h

/-! ### The listing -/

/-- The same listing, but for the order of hosts in their groups. -/
def SameOutput (out out' : OrderedDict Text OutputGroup) : Prop :=
  (∀ name, (hostvars out').get? name = (hostvars out).get? name) ∧
    ∀ group ≠ "_meta".toList, ∀ host, host ∈ groupHosts out' group ↔ host ∈ groupHosts out group

/-- Two runs that both fail, or that list the same. -/
structure SameListing (run run' : Except Raised (OrderedDict Text OutputGroup)) : Prop where
  forward : ∀ out, run = .ok out → ∃ out', run' = .ok out' ∧ SameOutput out out'
  backward : ∀ out', run' = .ok out' → ∃ out, run = .ok out ∧ SameOutput out' out

/-- Some state files list the entries, in some order. -/
def Lists (repr : Json → Text) (files : List State) (entries : List Entry) : Prop :=
  (files.flatMap (State.entries repr)).Perm entries

section Entries

variable {entries : List Entry} (hentries : ∀ e ∈ entries, OpenstackEntry e)
include hentries

/-- A run on the entries. -/
theorem list_iterresources {sets : SetOrder} {first second : List State}
    {draw₁ draw₂ : ℕ → ℕ → ℕ} (hfirst : Lists repr first entries) :
    list repr sets (iterresources repr draw₁ first) (iterresources repr draw₂ second) = (do
      let ips ← ipsOf ((second.flatMap (State.entries repr)).filterMap fun e => ipOf e.record)
      return (← collect sets ((first.flatMap (State.entries repr)).filterMap fun e =>
        (hostOf repr e.record).map (passItem ips))).output) := by
  rw [list_records fun e he => (hentries e (hfirst.mem_iff.mp he)).provider, list_eq, records,
    records, iterips, iterhosts, List.filterMap_map, List.filterMap_map]
  refine bind_congr fun ips => ?_
  rw [queryList, List.map_filterMap]
  rfl

variable (hnames : (entries.filterMap Entry.instanceKey).Nodup)
  (hports : (entries.filterMap Entry.associatedPort).Nodup)
include hnames hports

/-- A listing that succeeds is the same in every order. -/
theorem exists_sameOutput {sets sets' : SetOrder} {first second first' second' : List State}
    {draw₁ draw₂ draw₁' draw₂' : ℕ → ℕ → ℕ} (hfirst : Lists repr first entries)
    (hsecond : Lists repr second entries) (hfirst' : Lists repr first' entries)
    (hsecond' : Lists repr second' entries) {out : OrderedDict Text OutputGroup}
    (hout : list repr sets (iterresources repr draw₁ first) (iterresources repr draw₂ second)
      = .ok out) :
    ∃ out', list repr sets' (iterresources repr draw₁' first') (iterresources repr draw₂' second')
      = .ok out' ∧ SameOutput out out' := by
  rw [list_iterresources hentries hfirst] at hout
  obtain ⟨ips, hips, hrest⟩ := ok_of_bind hout
  obtain ⟨l, hcollect, hlast⟩ := ok_of_bind hrest
  cases hlast
  -- every port has one address
  obtain ⟨ips', hips', hget⟩ := ipsOf_perm
    ((hsecond'.trans hsecond.symm).filterMap fun e => ipOf e.record) hips fun pairs hpairs => by
      rw [List.map_filterMap] at hpairs
      rw [← filterMap_eq_map hpairs (fun e _ => associatedPort_of_none)
        fun e _ pair _ => associatedPort_of_some]
      exact (hsecond.filterMap _).nodup_iff.mpr hports
  -- every name has the variables of one host
  obtain ⟨l', hcollect', hvars, hgroups⟩ := collect_perm sets'
    ((hfirst'.trans hfirst.symm).filterMap fun e =>
      (hostOf repr e.record).map (passItem ips)) hcollect fun hs hhs hkeys => by
      rw [← filterMap_eq_map hhs (fun e _ => instanceKey_of_none) fun e he h hh hitem =>
        (hentries e (hfirst.mem_iff.mp he)).instanceKey_of_some hitem (hkeys h hh)]
      exact (hfirst.filterMap _).nodup_iff.mpr hnames
  refine ⟨l'.output, ?_, fun name => ?_, fun group hgroup host => ?_⟩
  · rw [list_iterresources hentries hfirst', hips', ok_bind, passItem_congr hget,
      hcollect']
    rfl
  · rw [hostvars_output, hostvars_output, hvars]
  · rw [groupHosts_output _ hgroup, groupHosts_output _ hgroup, hgroups]

/-- **The inventory does not depend on the order of files and resources, nor on the random
numbers**: two runs on the same entries, each of which goes through the files in an order
of its own in each of its two passes, both fail or list the same. -/
theorem list_sameListing {sets sets' : SetOrder} {first second first' second' : List State}
    {draw₁ draw₂ draw₁' draw₂' : ℕ → ℕ → ℕ} (hfirst : Lists repr first entries)
    (hsecond : Lists repr second entries) (hfirst' : Lists repr first' entries)
    (hsecond' : Lists repr second' entries) :
    SameListing
      (list repr sets (iterresources repr draw₁ first) (iterresources repr draw₂ second))
      (list repr sets' (iterresources repr draw₁' first')
        (iterresources repr draw₂' second')) := by
  exact
    { forward := fun out =>
        exists_sameOutput hentries hnames hports hfirst hsecond hfirst' hsecond'
      backward := fun out' =>
        exists_sameOutput hentries hnames hports hfirst' hsecond' hfirst hsecond }

end Entries

/-! ### Two files -/

/-- The attributes of an OpenStack instance in a version 4 state. -/
def smallFields (name port : Text) : List (Text × Json) := [
  ("name".toList, .str name),
  ("id".toList, .str name),
  ("key_pair".toList, .str "k8s".toList),
  ("access_ip_v4".toList, .str "10.0.0.5".toList),
  ("access_ip_v6".toList, .str []),
  ("image_id".toList, .str "i".toList),
  ("flavor_name".toList, .str "f".toList),
  ("metadata".toList, .obj [("use_access_ip".toList, .str ['0'])]),
  ("security_groups".toList, .arr (["default".toList, "k8s".toList].map .str)),
  ("network".toList, .arr [.obj [
    ("fixed_ip_v4".toList, .str "10.0.0.5".toList), ("port".toList, .str port)]])]

/-- They have the types that the provider gives them. -/
theorem instanceShape_smallFields (name port : Text) : InstanceShape (smallFields name port) where
  names := by
    rw [smallFields]
    simp only [List.map_cons, List.map_nil]
    decide
  noDots := by
    have hkeys : ∀ key ∈ (smallFields name port).map Prod.fst, '.' ∉ key := by
      rw [smallFields]
      simp only [List.map_cons, List.map_nil]
      decide
    exact fun f hf => hkeys _ (List.mem_map_of_mem hf)
  noLists := by
    intro key xs hmem
    simp only [smallFields, List.mem_cons, Prod.mk.injEq, reduceCtorEq, and_false, false_or,
      List.not_mem_nil, or_false] at hmem
    rcases hmem with ⟨rfl, -⟩ | ⟨rfl, -⟩
    · decide
    · decide
  securityGroups := by
    intro xs hmem
    simp only [smallFields, List.mem_cons, Prod.mk.injEq, reduceCtorEq, and_false, false_or,
      List.not_mem_nil, or_false, Json.arr.injEq] at hmem
    rcases hmem with ⟨-, rfl⟩ | ⟨hno, -⟩
    · exact ⟨_, rfl⟩
    · exact absurd hno (by decide)
  network := by
    intro blocks hmem
    simp only [smallFields, List.mem_cons, Prod.mk.injEq, reduceCtorEq, and_false, false_or,
      List.not_mem_nil, or_false, Json.arr.injEq] at hmem
    rcases hmem with ⟨hno, -⟩ | ⟨-, rfl⟩
    · exact absurd hno (by decide)
    · refine List.forall_mem_singleton.mpr ⟨_, rfl, ?_⟩
      exact List.forall_mem_cons.mpr ⟨rfl, List.forall_mem_singleton.mpr rfl⟩

/-- An instance in a version 4 state. -/
def smallResource (name port : Text) : Resource :=
  ⟨computeType, name, "openstack".toList, [⟨none, .obj (smallFields name port)⟩]⟩

/-- An association in a version 4 state. -/
def associationResource (port ip : Text) : Resource :=
  ⟨associateType, "fip".toList, "openstack".toList,
    [⟨none, .obj [("port_id".toList, .str port), ("floating_ip".toList, .str ip)]⟩]⟩

/-- Two instances in one file, and an association in another. -/
def twoFiles : List State :=
  [.v4 [smallResource "n1".toList "q".toList, smallResource "n2".toList "r".toList],
    .v4 [associationResource "q".toList "198.51.100.7".toList]]

/-- The same files and resources in the reverse order. -/
def reversedFiles : List State :=
  [.v4 [associationResource "q".toList "198.51.100.7".toList],
    .v4 [smallResource "n2".toList "r".toList, smallResource "n1".toList "q".toList]]

/-- The two files have no device, and instances as the provider has them. -/
theorem openstackEntry_twoFiles :
    ∀ e ∈ twoFiles.flatMap (State.entries fun _ => []), OpenstackEntry e := by
  refine List.forall_mem_cons.mpr ⟨⟨by decide +kernel, ?_⟩, List.forall_mem_cons.mpr
    ⟨⟨by decide +kernel, ?_⟩, List.forall_mem_singleton.mpr ⟨by decide +kernel, ?_⟩⟩⟩
  · rintro - _ _ fields heq
    cases heq
    exact instanceShape_smallFields _ _
  · rintro - _ _ fields heq
    cases heq
    exact instanceShape_smallFields _ _
  · exact fun h => absurd h (by decide +kernel)

/-- The two files list the same, whatever their order is. -/
theorem list_twoFiles :
    SameListing
      (list (fun _ => []) listOrder (iterresources (fun _ => []) (fun _ _ => 1) twoFiles)
        (iterresources (fun _ => []) (fun i j => i + j) twoFiles))
      (list (fun _ => []) listOrder (iterresources (fun _ => []) (fun _ j => j) reversedFiles)
        (iterresources (fun _ => []) (fun i _ => i) twoFiles)) := by
  have hforward : Lists (fun _ => []) twoFiles (twoFiles.flatMap (State.entries fun _ => [])) :=
    List.Perm.refl _
  have hbackward : Lists (fun _ => []) reversedFiles
      (twoFiles.flatMap (State.entries fun _ => [])) :=
    List.reverse_perm (twoFiles.flatMap (State.entries fun _ => []))
  have hnames : ((twoFiles.flatMap (State.entries fun _ => [])).filterMap
      Entry.instanceKey).Nodup := by decide +kernel
  have hports : ((twoFiles.flatMap (State.entries fun _ => [])).filterMap
      Entry.associatedPort).Nodup := by decide +kernel
  exact list_sameListing openstackEntry_twoFiles hnames hports hforward hforward hbackward
    hforward

end Kubespray.Terraform
