import Kubespray.Terraform.Hosts

/-!
# Floating IPs and Unrelated Hosts

As soon as a state has one association, every host passes through `iter_host_ips`. That
has two effects on hosts without a floating IP: `access_ip` is removed where the metadata
refuse it, and a host without `port_id`, which is every Equinix host, makes the run fail.

## Main results

* `list_openstack_iff`: the listing of a state with OpenStack resources only.
* `associationLocal_iff`: when a further association leaves the other hosts as they were.
* `mixed_iff`: when a collection of resources that can be listed one by one can be listed
  together.
-/

namespace Kubespray.Terraform

open OrderedDict Fallible

variable {repr : Json → Text}

/-! ### Addresses of ports -/

/-- There are addresses exactly when there are associations. -/
theorem ipsOf_keys {items : List (Except Raised (Json × Json))} {ips : Ips}
    (h : ipsOf items = .ok ips) : ips.keys = [] ↔ items = [] := by
  have hloop : ∀ (items : List (Except Raised (Json × Json))) {start ips : Ips},
      items.foldlM addIp start = .ok ips → start.keys <+: ips.keys ∧
        (items ≠ [] → ips.keys ≠ []) := by
    intro items
    induction items with
    | nil =>
        intro start ips h
        cases h
        exact ⟨List.prefix_refl _, fun hno => absurd rfl hno⟩
    | cons item items ih =>
        intro start ips h
        obtain ⟨next, hnext, hrest⟩ := foldlM_cons_eq_ok_iff.mp h
        obtain ⟨pair, -, hnext⟩ := ok_of_bind hnext
        obtain ⟨key, -, hset⟩ := ok_of_bind hnext
        cases hset
        obtain ⟨hkept, -⟩ := ih hrest
        rw [keys_set] at hkept
        refine ⟨(prefix_addKey _ _).trans hkept, fun _ hnil => ?_⟩
        have hmem := hkept.subset (mem_addKey.mpr (Or.inr rfl))
        rw [hnil] at hmem
        cases hmem
  constructor
  · intro hkeys
    by_contra hne
    exact (hloop items h).2 hne hkeys
  · rintro rfl
    cases h
    rfl

/-- Loops that start from tables that agree on some ports agree on them afterwards. -/
theorem foldlM_addIp_congr {P : Key → Prop} {items : List (Except Raised (Json × Json))}
    {start start' ips : Ips} (hstart : ∀ port, P port → start'.get? port = start.get? port)
    (h : items.foldlM addIp start = .ok ips) :
    ∃ ips', items.foldlM addIp start' = .ok ips' ∧
      ∀ port, P port → ips'.get? port = ips.get? port := by
  induction items generalizing start start' with
  | nil =>
      cases h
      exact ⟨start', rfl, hstart⟩
  | cons item items ih =>
      obtain ⟨next, hnext, hrest⟩ := foldlM_cons_eq_ok_iff.mp h
      obtain ⟨pair, hpair, hset⟩ := ok_of_bind hnext
      obtain ⟨key, hkey, hlast⟩ := ok_of_bind hset
      cases hlast
      have hagree : ∀ port, P port →
          (start'.set key pair.2).get? port = (start.set key pair.2).get? port := by
        intro port hport
        rw [get?_set, get?_set, hstart port hport]
      obtain ⟨ips', hips', hget⟩ := ih hagree hrest
      refine ⟨ips', ?_, hget⟩
      rw [List.foldlM_cons]
      exact bind_eq_ok_iff.mpr ⟨_, bind_eq_ok_iff.mpr ⟨pair, hpair,
        bind_eq_ok_iff.mpr ⟨key, hkey, rfl⟩⟩, hips'⟩

/-- **One more association** leaves the addresses of the other ports. -/
theorem ipsOf_insert {xs ys : List (Except Raised (Json × Json))} {ips : Ips} {port ip : Json}
    {key : Key} (hkey : port.key = .ok key) (h : ipsOf (xs ++ ys) = .ok ips) :
    ∃ ips', ipsOf (xs ++ .ok (port, ip) :: ys) = .ok ips' ∧
      ∀ other, other ≠ key → ips'.get? other = ips.get? other := by
  rw [ipsOf] at h
  obtain ⟨start, hstart, hrest⟩ := foldlM_append_eq_ok_iff.mp h
  have hnew : addIp start (.ok (port, ip)) = .ok (start.set key ip) :=
    bind_eq_ok_iff.mpr ⟨(port, ip), rfl, bind_eq_ok_iff.mpr ⟨key, hkey, rfl⟩⟩
  obtain ⟨ips', hips', hget⟩ :=
    foldlM_addIp_congr (fun other hother => get?_set_of_ne start ip hother) hrest
  refine ⟨ips', ?_, hget⟩
  rw [ipsOf, List.foldlM_append, hstart, ok_bind, List.foldlM_cons, hnew, ok_bind, hips']

/-! ### OpenStack states -/

/-- The attributes of the OpenStack instances among some records. -/
def instances (rs : List Record) : List Attributes :=
  rs.filterMap fun r => if r.type = some computeType then some r.attributes else none

/-- The value of an attribute, as a key. -/
def attributeKey (raw : Attributes) (name : Text) : Option Key :=
  (raw.get? name).bind fun v => v.key.toOption

/-- The key of the port of an instance. -/
def portKey (raw : Attributes) : Option Key :=
  attributeKey raw "network.0.port".toList

/-- The last instance of a name. -/
def lastNamed (name : Key) (raws : List Attributes) : Option Attributes :=
  (raws.filter fun raw => attributeKey raw "name".toList = some name).getLast?

/-- A record of a state with OpenStack instances and associations only. The port of an
instance is a scalar. -/
structure OpenstackRecord (r : Record) : Prop where
  type : r.type = some computeType ∨ r.type = some associateType
  port : r.type = some computeType →
    ∀ v, r.attributes.get? "network.0.port".toList = some v → ∃ key, v.key = .ok key

/-- The host of an instance that can be parsed. -/
def parsed (repr : Json → Text) (raw : Attributes) : Host :=
  match openstackHost repr raw with
  | .ok h => h
  | .error _ => ⟨.null, OrderedDict.empty, []⟩

/-- The host of an instance as `query_list` receives it. -/
def finalHost (repr : Json → Text) (ips : Ips) (raw : Attributes) : Host :=
  { parsed repr raw with
    attrs :=
      if ips.keys = [] then (parsed repr raw).attrs
      else floating ((portKey raw).bind ips.get?) (refuses raw) (parsed repr raw).attrs }

/-- A value that has a key. -/
theorem attributeKey_eq_some {raw : Attributes} {name : Text} {v : Json} {key : Key}
    (hget : raw.get? name = some v) (hkey : v.key = .ok key) :
    attributeKey raw name = some key := by
  rw [attributeKey, hget, Option.bind_some, hkey]
  rfl

/-- `iterhosts`, on such a state. -/
theorem iterhosts_openstack {rs : List Record} (hrs : ∀ r ∈ rs, OpenstackRecord r) :
    iterhosts repr (rs.map .ok) = (instances rs).map (openstackHost repr) := by
  rw [iterhosts, List.filterMap_map, instances, List.map_filterMap]
  refine List.filterMap_congr fun r hr => ?_
  rw [Function.comp_apply]
  rcases (hrs r hr).type with htype | htype
  · rw [hostOf_compute htype, if_pos htype]
    rfl
  · rw [hostOf_associate htype, if_neg]
    · rfl
    · rw [htype]
      decide

/-- The port of an instance of such a state. -/
theorem exists_port_of_mem_instances {rs : List Record} (hrs : ∀ r ∈ rs, OpenstackRecord r)
    {raw : Attributes} (hraw : raw ∈ instances rs) {v : Json}
    (hv : raw.get? "network.0.port".toList = some v) : ∃ key, v.key = .ok key := by
  obtain ⟨r, hr, hattributes⟩ := List.mem_filterMap.mp hraw
  split_ifs at hattributes with htype
  cases hattributes
  exact (hrs r hr).port htype v hv

/-- An instance that can be parsed passes to the query. -/
theorem passItem_parsed {ips : Ips} {raw : Attributes}
    (hport : ∀ v, raw.get? "network.0.port".toList = some v → ∃ key, v.key = .ok key)
    (hok : openstackHost repr raw = .ok (parsed repr raw)) :
    passItem ips (openstackHost repr raw) = .ok (finalHost repr ips raw) := by
  rw [passItem, finalHost, hok]
  split_ifs with hempty
  · rfl
  · have hvars := openstackHost_eq_ok hok
    obtain ⟨port, hget, -⟩ := hvars.port
    obtain ⟨key, hkey⟩ := hport port hget
    rw [ok_bind, updateHost_openstack hvars hget hkey, portKey, attributeKey_eq_some hget hkey]
    rfl

/-- The name of an instance that can be parsed is the name of its host. -/
theorem attributeKey_name {raw : Attributes} {h : Host} (hvars : OpenstackVars raw h)
    {key : Key} (hkey : h.name.key = .ok key) :
    attributeKey raw "name".toList = some (nameKey h) := by
  rw [attributeKey_eq_some hvars.name hkey, nameKey, hkey]

/-- **The listing of such a state**: every instance can be parsed and has a name, and the
hosts are collected as `query_list` receives them. -/
theorem list_openstack_iff {sets : SetOrder} {rs : List Record}
    {second : List (Except Raised Record)} {ips : Ips} {out : OrderedDict Text OutputGroup}
    (hrs : ∀ r ∈ rs, OpenstackRecord r) (hips : ipsOf (iterips second) = .ok ips) :
    list repr sets (rs.map .ok) second = .ok out ↔
      (∀ raw ∈ instances rs, openstackHost repr raw = .ok (parsed repr raw) ∧
        ∃ key, (parsed repr raw).name.key = .ok key) ∧
      out = (((instances rs).map (finalHost repr ips)).foldl (Listing.add sets)
        ⟨OrderedDict.empty, OrderedDict.empty⟩).output := by
  have hitems : (∀ raw ∈ instances rs, openstackHost repr raw = .ok (parsed repr raw)) →
      (iterhosts repr (rs.map .ok)).map (passItem ips)
        = ((instances rs).map (finalHost repr ips)).map .ok := by
    intro hok
    rw [iterhosts_openstack hrs, List.map_map, List.map_map]
    refine List.map_congr_left fun raw hraw => ?_
    exact passItem_parsed (fun v hv => exists_port_of_mem_instances hrs hraw hv) (hok raw hraw)
  rw [list_eq, hips, ok_bind, queryList, bind_eq_ok_iff]
  constructor
  · rintro ⟨l, hcollect, hout⟩
    obtain ⟨hs, heq, hkeys, rfl⟩ := collect_eq_ok_iff.mp hcollect
    have hok : ∀ raw ∈ instances rs, openstackHost repr raw = .ok (parsed repr raw) := by
      intro raw hraw
      have hmem : passItem ips (openstackHost repr raw) ∈ hs.map Except.ok := by
        rw [← heq, iterhosts_openstack hrs]
        exact List.mem_map_of_mem (List.mem_map_of_mem hraw)
      obtain ⟨h, -, hpass⟩ := List.mem_map.mp hmem
      obtain ⟨inner, hinner, -⟩ := passItem_eq_ok hpass.symm
      rw [parsed, hinner]
    rw [hitems hok] at heq
    have hhs : (instances rs).map (finalHost repr ips) = hs :=
      List.map_injective_iff.mpr (fun a b hab => Except.ok.inj hab) heq
    subst hhs
    refine ⟨fun raw hraw => ⟨hok raw hraw, ?_⟩, (Except.ok.inj hout).symm⟩
    exact hkeys (finalHost repr ips raw) (List.mem_map_of_mem hraw)
  · rintro ⟨hok, rfl⟩
    refine ⟨_, collect_eq_ok_iff.mpr ⟨(instances rs).map (finalHost repr ips),
      hitems fun raw hraw => (hok raw hraw).1, ?_, rfl⟩, rfl⟩
    intro h hh
    obtain ⟨raw, hraw, rfl⟩ := List.mem_map.mp hh
    exact (hok raw hraw).2

/-- The variables of a name are those of the last instance of the name. -/
theorem vars_lastNamed {sets : SetOrder} {raws : List Attributes} {ips : Ips}
    (hok : ∀ raw ∈ raws, openstackHost repr raw = .ok (parsed repr raw) ∧
      ∃ key, (parsed repr raw).name.key = .ok key) (name : Key) :
    ((raws.map (finalHost repr ips)).foldl (Listing.add sets)
        ⟨OrderedDict.empty, OrderedDict.empty⟩).vars.get? name
      = (lastNamed name raws).map fun raw => (finalHost repr ips raw).attrs := by
  rw [vars_foldl_add, get?_foldl_set, get?_empty, Option.or_none, List.map_map,
    List.filter_map, List.getLast?_map, Option.map_map, lastNamed]
  have hfilter : (raws.filter ((fun x : Key × Attributes => decide (x.1 = name)) ∘
        ((fun h => (nameKey h, h.attrs)) ∘ finalHost repr ips)))
      = raws.filter fun raw => attributeKey raw "name".toList = some name := by
    refine List.filter_congr fun raw hraw => ?_
    obtain ⟨hparse, key, hkey⟩ := hok raw hraw
    rw [attributeKey_name (openstackHost_eq_ok hparse) hkey]
    simp only [Function.comp_apply, Option.some.injEq]
    rfl
  rw [hfilter]
  rfl

/-- The port of a host that is listed. -/
theorem port_finalHost {raw : Attributes} {ips : Ips}
    (hok : openstackHost repr raw = .ok (parsed repr raw)) :
    (finalHost repr ips raw).attrs.get? "port_id".toList
      = raw.get? "network.0.port".toList := by
  obtain ⟨port, hget, hport⟩ := (openstackHost_eq_ok hok).port
  rw [hget, ← hport, finalHost]
  dsimp only
  split_ifs
  · rfl
  · exact get?_floating _ _ _ (by decide)

/-- After an association of another port, a host that is listed has the variables it had,
unless it passed through `iter_host_ips` for the first time and refuses its access
address. -/
theorem attrs_finalHost_iff {raw : Attributes} {ips ips' : Ips}
    (hok : openstackHost repr raw = .ok (parsed repr raw)) (hips' : ips'.keys ≠ [])
    (hget : (portKey raw).bind ips'.get? = (portKey raw).bind ips.get?) :
    (finalHost repr ips' raw).attrs = (finalHost repr ips raw).attrs ↔
      (ips.keys ≠ [] ∨ refuses raw = false) := by
  rw [finalHost, finalHost]
  dsimp only
  rw [if_neg hips', hget]
  by_cases hempty : ips.keys = []
  · have hnone : (portKey raw).bind ips.get? = none := by
      cases portKey raw with
      | none => rfl
      | some key =>
          refine get?_eq_none_iff.mpr ?_
          rw [hempty]
          exact List.not_mem_nil
    rw [if_pos hempty, hnone, floating]
    constructor
    · intro heq
      refine Or.inr (Bool.eq_false_iff.mpr fun hrefuses => ?_)
      obtain ⟨v, hv⟩ := (openstackHost_eq_ok hok).accessIp
      rw [if_pos hrefuses] at heq
      rw [← heq, get?_erase_self] at hv
      cases hv
    · rintro (hno | hrefuses)
      · exact absurd hempty hno
      · rw [if_neg (by simp [hrefuses])]
  · rw [if_neg hempty]
    exact iff_of_true rfl (Or.inl hempty)

/-! ### Small states -/

/-- An OpenStack instance: the attributes that its parser needs, and some more. -/
def smallInstance (name port : Text) (more : List (Text × Json)) : Record :=
  ⟨[], "openstack_compute_instance_v2.".toList ++ name, ofList ([
    ("name".toList, .str name),
    ("id".toList, .str name),
    ("key_pair".toList, .str "k8s".toList),
    ("access_ip_v4".toList, .str "10.0.0.5".toList),
    ("access_ip_v6".toList, .str []),
    ("image_id".toList, .str "i".toList),
    ("flavor_name".toList, .str "f".toList),
    ("network.0.fixed_ip_v4".toList, .str "10.0.0.5".toList),
    ("network.0.port".toList, .str port)] ++ more)⟩

/-- An Equinix device. -/
def smallDevice (name : Text) : Record :=
  ⟨[], "equinix_metal_device.".toList ++ name, ofList [
    ("hostname".toList, .str name),
    ("id".toList, .str name),
    ("operating_system".toList, .str "ubuntu".toList),
    ("locked".toList, .bool false),
    ("plan".toList, .str "c3".toList),
    ("project_id".toList, .str "p".toList),
    ("state".toList, .str "active".toList),
    ("network.0.address".toList, .str "10.0.0.6".toList),
    ("network.1.address".toList, .str "fe80::6".toList),
    ("network.2.address".toList, .str "10.1.0.6".toList)]⟩

/-- An association of an address with a port. -/
def smallAssociation (port ip : Text) : Record :=
  ⟨[], "openstack_networking_floatingip_associate_v2.fip".toList, ofList [
    ("port_id".toList, .str port),
    ("floating_ip".toList, .str ip)]⟩

/-- Sets that are gone through in the order of their lists. -/
def listOrder : SetOrder :=
  ⟨List.dedup, fun _ => List.Perm.refl _⟩

/-- An instance that refuses an access address. -/
def refusingInstance : Record :=
  smallInstance "node".toList "q".toList [("metadata.use_access_ip".toList, .str ['0'])]

/-- What a test says of the variables of a listed host. -/
def testHost (test : Attributes → Bool) (name : Text)
    (listing : Except Raised (OrderedDict Text OutputGroup)) : Option Bool :=
  listing.toOption.bind fun out => ((hostvars out).get? (.str name)).map test

/-- Only texts equal a text. -/
theorem eq_str_of_isStr {v : Json} {t : Text} (h : v.isStr t = true) : v = .str t := by
  cases v with
  | str s => rw [of_decide_eq_true h]
  | null | bool | int | float | arr | obj => cases h

/-- The port of a small instance is a scalar. -/
theorem port_smallInstance {r : Record} {port : Text}
    (h : holds r.attributes "network.0.port".toList port = true) (v : Json)
    (hv : r.attributes.get? "network.0.port".toList = some v) : ∃ key, v.key = .ok key := by
  rw [holds, hv] at h
  rw [eq_str_of_isStr h]
  exact ⟨_, rfl⟩

/-- What `iterips` reads off a small association. -/
theorem openstackFloatingIps_smallAssociation (port ip : Text) :
    openstackFloatingIps (smallAssociation port ip).attributes = .ok (.str port, .str ip) := by
  have hget : ∀ {xs : List (Text × Json)} (i : ℕ) {key : Text} {v : Json},
      xs.map Prod.fst = ["port_id".toList, "floating_ip".toList] → xs[i]? = some (key, v) →
      subscript (ofList xs) key = .ok v := by
    intro xs i key v hkeys hi
    refine subscript_eq_ok_iff.mpr ((get?_ofList ?_).mpr (List.mem_of_getElem? hi))
    rw [hkeys]
    decide
  rw [openstackFloatingIps, smallAssociation]
  exact bind_eq_ok_iff.mpr ⟨_, hget 0 rfl rfl, bind_eq_ok_iff.mpr ⟨_, hget 1 rfl rfl, rfl⟩⟩

/-- A listing that succeeds. -/
theorem exists_list_eq_ok {listing : Except Raised (OrderedDict Text OutputGroup)}
    (h : listing.isOk = true) : ∃ out, listing = .ok out := by
  cases listing with
  | ok out => exact ⟨out, rfl⟩
  | error => cases h

/-! ### One more association -/

/-- One more association leaves the other hosts: in the listing, the variables of every
host with another port are as they were, and so are the groups. -/
def LeavesOthers (before after : Except Raised (OrderedDict Text OutputGroup)) (port : Key) :
    Prop :=
  ∃ out out', before = .ok out ∧ after = .ok out' ∧
    (∀ name vars, (hostvars out).get? name = some vars →
      attributeKey vars "port_id".toList ≠ some port →
        (hostvars out').get? name = some vars) ∧
    ∀ group ≠ "_meta".toList, groupHosts out' group = groupHosts out group

/-- There are addresses exactly when such a state has associations. -/
theorem keys_ne_nil_iff {rs : List Record} (hrs : ∀ r ∈ rs, OpenstackRecord r) {ips : Ips}
    (hips : ipsOf (iterips (rs.map .ok)) = .ok ips) :
    ips.keys ≠ [] ↔ ∃ r ∈ rs, r.type = some associateType := by
  rw [ne_eq, ipsOf_keys hips, iterips, List.filterMap_map, List.filterMap_eq_nil_iff]
  push Not
  refine exists_congr fun r => and_congr_right fun hr => ?_
  rw [Function.comp_apply]
  rcases (hrs r hr).type with htype | htype
  · rw [ipOf_of_type htype, htype]
    simp [show computeType ≠ associateType by decide]
  · rw [ipOf_of_type htype, htype]
    simp

/-- The addresses with one more association. -/
theorem ipsOf_insert_record {xs ys : List Record} {new : Record} {port ip : Json} {key : Key}
    {ips : Ips} (hnew : new.type = some associateType)
    (hip : openstackFloatingIps new.attributes = .ok (port, ip)) (hkey : port.key = .ok key)
    (hips : ipsOf (iterips ((xs ++ ys).map .ok)) = .ok ips) :
    ∃ ips', ipsOf (iterips ((xs ++ new :: ys).map .ok)) = .ok ips' ∧ ips'.keys ≠ [] ∧
      ∀ other, other ≠ key → ips'.get? other = ips.get? other := by
  have hnewIp : ipOf (.ok new) = some (.ok (port, ip)) := by
    rw [ipOf_of_type hnew, if_pos rfl, hip]
  have hitems : iterips ((xs ++ new :: ys).map .ok)
      = (xs.map .ok).filterMap ipOf ++ .ok (port, ip) :: (ys.map .ok).filterMap ipOf := by
    rw [iterips, List.map_append, List.map_cons, List.filterMap_append,
      List.filterMap_cons_some hnewIp]
  rw [iterips, List.map_append, List.filterMap_append] at hips
  obtain ⟨ips', hips', hagree⟩ := ipsOf_insert hkey hips
  rw [← hitems] at hips'
  refine ⟨ips', hips', ?_, hagree⟩
  rw [ne_eq, ipsOf_keys hips', hitems]
  exact List.append_ne_nil_of_right_ne_nil _ (List.cons_ne_nil _ _)

/-- An association is no instance. -/
theorem instances_insert {us vs : List Record} {new : Record}
    (hnew : new.type = some associateType) :
    instances (us ++ new :: vs) = instances (us ++ vs) := by
  rw [instances, instances, List.filterMap_append, List.filterMap_append,
    List.filterMap_cons_none]
  rw [if_neg]
  rw [hnew]
  decide

/-- With one more association it is still such a state. -/
theorem openstackRecord_insert {us vs : List Record} {new : Record}
    (hrs : ∀ r ∈ us ++ vs, OpenstackRecord r) (hnew : new.type = some associateType) :
    ∀ r ∈ us ++ new :: vs, OpenstackRecord r := by
  intro r hr
  rw [List.mem_append, List.mem_cons] at hr
  rcases hr with hr | rfl | hr
  · exact hrs r (List.mem_append_left _ hr)
  · refine ⟨Or.inr hnew, fun hcompute => ?_⟩
    rw [hnew] at hcompute
    exact absurd hcompute (by decide)
  · exact hrs r (List.mem_append_right _ hr)

/-- The listed instances of a name are among the instances. -/
theorem mem_of_lastNamed {raws : List Attributes} {name : Key} {raw : Attributes}
    (h : lastNamed name raws = some raw) : raw ∈ raws :=
  List.mem_of_mem_filter (List.mem_of_getLast? h)

/-- Two listings of the same instances agree on the other hosts when these receive the same
variables. -/
theorem leavesOthers_iff {sets : SetOrder} {raws : List Attributes} {ips ips' : Ips} {key : Key}
    (hok : ∀ raw ∈ raws, openstackHost repr raw = .ok (parsed repr raw) ∧
      ∃ key, (parsed repr raw).name.key = .ok key) :
    LeavesOthers
        (.ok ((raws.map (finalHost repr ips)).foldl (Listing.add sets)
          ⟨OrderedDict.empty, OrderedDict.empty⟩).output)
        (.ok ((raws.map (finalHost repr ips')).foldl (Listing.add sets)
          ⟨OrderedDict.empty, OrderedDict.empty⟩).output) key ↔
      ∀ name raw, lastNamed name raws = some raw → portKey raw ≠ some key →
        (finalHost repr ips' raw).attrs = (finalHost repr ips raw).attrs := by
  have hport : ∀ raw ∈ raws,
      attributeKey (finalHost repr ips raw).attrs "port_id".toList = portKey raw := by
    intro raw hraw
    rw [attributeKey, port_finalHost (hok raw hraw).1]
    rfl
  constructor
  · rintro ⟨out, out', hbefore, hafter, hvars, -⟩ name raw hlast hother
    cases hbefore
    cases hafter
    have hentry := hvars name (finalHost repr ips raw).attrs
      (by rw [hostvars_output, vars_lastNamed hok, hlast]; rfl)
      (by rwa [hport raw (mem_of_lastNamed hlast)])
    rw [hostvars_output, vars_lastNamed hok, hlast] at hentry
    exact Option.some.inj hentry
  · intro hsame
    refine ⟨_, _, rfl, rfl, fun name vars hentry hother => ?_, fun group hgroup => ?_⟩
    · rw [hostvars_output, vars_lastNamed hok] at hentry ⊢
      obtain ⟨raw, hlast, rfl⟩ := Option.map_eq_some_iff.mp hentry
      rw [hport raw (mem_of_lastNamed hlast)] at hother
      rw [hlast, Option.map_some, hsame name raw hlast hother]
    · have hgroups := @groups_foldl_add_congr _ sets (finalHost repr ips') (finalHost repr ips)
        (fun _ => rfl) (fun _ => rfl) raws ⟨OrderedDict.empty, OrderedDict.empty⟩ _ rfl
      rw [groupHosts_output _ hgroup, groupHosts_output _ hgroup, hgroups]

/-- **One more association leaves the other hosts** exactly when it is not the first one,
or when no instance that is listed with another port refuses its access address. -/
theorem associationLocal_iff {sets : SetOrder} {us vs xs ys : List Record}
    {new new' : Record} {port ip : Json} {key : Key}
    (hfirst : ∀ r ∈ us ++ vs, OpenstackRecord r) (hsecond : ∀ r ∈ xs ++ ys, OpenstackRecord r)
    (hnew : new.type = some associateType) (hnew' : new'.type = some associateType)
    (hip : openstackFloatingIps new'.attributes = .ok (port, ip)) (hkey : port.key = .ok key)
    {out : OrderedDict Text OutputGroup}
    (hout : list repr sets ((us ++ vs).map .ok) ((xs ++ ys).map .ok) = .ok out) :
    LeavesOthers (list repr sets ((us ++ vs).map .ok) ((xs ++ ys).map .ok))
        (list repr sets ((us ++ new :: vs).map .ok) ((xs ++ new' :: ys).map .ok)) key ↔
      (∃ r ∈ xs ++ ys, r.type = some associateType) ∨
        ∀ name raw, lastNamed name (instances (us ++ vs)) = some raw → portKey raw ≠ some key →
          refuses raw = false := by
  obtain ⟨ips, hips⟩ : ∃ ips, ipsOf (iterips ((xs ++ ys).map .ok)) = .ok ips := by
    obtain ⟨hosts, hhosts, -⟩ := ok_of_bind hout
    obtain ⟨ips, hips, -⟩ := ok_of_bind hhosts
    exact ⟨ips, hips⟩
  obtain ⟨ips', hips', hkeys', hagree⟩ := ipsOf_insert_record hnew' hip hkey hips
  obtain ⟨hok, hbefore⟩ := (list_openstack_iff hfirst hips).mp hout
  have hafter := (@list_openstack_iff repr sets _ _ ips' _ (openstackRecord_insert hfirst hnew)
    hips').mpr ⟨(instances_insert hnew).symm ▸ hok, rfl⟩
  rw [instances_insert hnew] at hafter
  rw [hout, hbefore, hafter, leavesOthers_iff hok, ← keys_ne_nil_iff hsecond hips]
  -- each of the other hosts is as it was or refuses its access address
  have hsame : ∀ name raw, lastNamed name (instances (us ++ vs)) = some raw →
      portKey raw ≠ some key → ((finalHost repr ips' raw).attrs = (finalHost repr ips raw).attrs ↔
        (ips.keys ≠ [] ∨ refuses raw = false)) := by
    intro name raw hlast hport
    refine attrs_finalHost_iff (hok raw (mem_of_lastNamed hlast)).1 hkeys' ?_
    cases hother : portKey raw with
    | none => rfl
    | some other => exact hagree other fun heq => hport (by rw [hother, heq])
  by_cases hempty : ips.keys = []
  · rw [or_iff_right (not_not.mpr hempty)]
    refine forall_congr' fun name => forall_congr' fun raw => forall_congr' fun hlast =>
      forall_congr' fun hport => ?_
    rw [hsame name raw hlast hport, or_iff_right (not_not.mpr hempty)]
  · exact iff_of_true
      (fun name raw hlast hport => (hsame name raw hlast hport).mpr (Or.inl hempty))
      (Or.inl hempty)

/-- The second association of a state leaves an instance of another port, although it
refuses its access address. -/
theorem associationLocal_twoAssociations :
    LeavesOthers
      (list (fun _ => []) listOrder (([refusingInstance] ++ []).map .ok)
        (([smallAssociation "q".toList "198.51.100.7".toList] ++ []).map .ok))
      (list (fun _ => []) listOrder
        (([refusingInstance] ++ smallAssociation "p".toList "198.51.100.8".toList :: []).map .ok)
        (([smallAssociation "q".toList "198.51.100.7".toList]
          ++ smallAssociation "p".toList "198.51.100.8".toList :: []).map .ok))
      (.str "p".toList) := by
  obtain ⟨out, hout⟩ := @exists_list_eq_ok
    (list (fun _ => []) listOrder (([refusingInstance] ++ []).map .ok)
      (([smallAssociation "q".toList "198.51.100.7".toList] ++ []).map .ok)) (by decide +kernel)
  have hfirst : ∀ r ∈ [refusingInstance] ++ [], OpenstackRecord r :=
    List.forall_mem_singleton.mpr ⟨Or.inl (by decide +kernel), fun _ =>
      @port_smallInstance _ "q".toList (by decide +kernel)⟩
  have hsecond : ∀ r ∈ [smallAssociation "q".toList "198.51.100.7".toList] ++ [],
      OpenstackRecord r :=
    List.forall_mem_singleton.mpr ⟨Or.inr (by decide +kernel), fun h =>
      absurd h (by decide +kernel)⟩
  exact (associationLocal_iff hfirst hsecond (by decide +kernel) (by decide +kernel)
    (openstackFloatingIps_smallAssociation _ _) rfl hout).mpr
    (Or.inl ⟨_, List.mem_cons_self, by decide +kernel⟩)

/-- **The first association of a state changes an unrelated host**: it loses its
`access_ip`. -/
theorem associationLocal_fails :
    ¬ LeavesOthers
      (list (fun _ => []) listOrder [.ok refusingInstance] [.ok refusingInstance])
      (list (fun _ => []) listOrder
        [.ok refusingInstance, .ok (smallAssociation "p".toList "198.51.100.7".toList)]
        [.ok refusingInstance, .ok (smallAssociation "p".toList "198.51.100.7".toList)])
      (.str "p".toList) := by
  rintro ⟨out, out', hbefore, hafter, hvars, -⟩
  have hport : testHost (fun vars => (vars.get? "access_ip".toList).isSome
      && attributeKey vars "port_id".toList ≠ some (.str "p".toList)) "node".toList
      (list (fun _ => []) listOrder [.ok refusingInstance] [.ok refusingInstance])
        = some true := by
    decide +kernel
  have hgone : testHost (fun vars => (vars.get? "access_ip".toList).isSome) "node".toList
      (list (fun _ => []) listOrder
        [.ok refusingInstance, .ok (smallAssociation "p".toList "198.51.100.7".toList)]
        [.ok refusingInstance, .ok (smallAssociation "p".toList "198.51.100.7".toList)])
        = some false := by
    decide +kernel
  rw [hbefore] at hport
  rw [hafter] at hgone
  obtain ⟨vars, hget, htest⟩ := Option.map_eq_some_iff.mp hport
  obtain ⟨hlisted, hother⟩ := Bool.and_eq_true_iff.mp htest
  have hsame := hvars _ vars hget (of_decide_eq_true hother)
  have hmap : ((hostvars out').get? (.str "node".toList)).map
      (fun vars => (vars.get? "access_ip".toList).isSome) = some false := hgone
  rw [hsame, Option.map_some, hlisted] at hmap
  cases hmap

/-! ### Mixed collections -/

/-- A record of one of the three types. An instance can be listed alone, and the port of an
OpenStack instance is a scalar; an association gives the address of such a port. -/
structure MixedRecord (repr : Json → Text) (sets : SetOrder) (r : Record) : Prop where
  type : r.type = some computeType ∨ r.type = some equinixType ∨ r.type = some associateType
  alone : r.type ≠ some associateType → ∃ out, list repr sets [.ok r] [.ok r] = .ok out
  port : r.type = some computeType →
    ∀ v, r.attributes.get? "network.0.port".toList = some v → ∃ key, v.key = .ok key
  association : r.type = some associateType →
    ∃ port ip key, openstackFloatingIps r.attributes = .ok (port, ip) ∧ port.key = .ok key

/-- The name of an instance. -/
def instanceName (r : Record) : Option Key :=
  if r.type = some computeType then attributeKey r.attributes "name".toList
  else if r.type = some equinixType then attributeKey r.attributes "hostname".toList
  else none

/-- The host that `iterhosts` makes of a record. -/
def parsedHost (repr : Json → Text) (r : Record) : Option Host :=
  (hostOf repr (.ok r)).bind Except.toOption

namespace MixedRecord

variable {sets : SetOrder} {r : Record}

/-- It has a type. -/
theorem exists_type (h : MixedRecord repr sets r) : ∃ type, r.type = some type := by
  rcases h.type with htype | htype | htype <;> exact ⟨_, htype⟩

/-- An instance that can be listed alone can be parsed, and has a name. -/
theorem parsedHost_eq_some (h : MixedRecord repr sets r) (hinstance : r.type ≠ some associateType) :
    ∃ host, hostOf repr (.ok r) = some (.ok host) ∧ ∃ key, host.name.key = .ok key := by
  obtain ⟨out, hout⟩ := h.alone hinstance
  obtain ⟨item, hitem⟩ : ∃ item, hostOf repr (.ok r) = some item := by
    rcases h.type with htype | htype | htype
    · exact ⟨_, hostOf_compute htype⟩
    · exact ⟨_, hostOf_equinix htype⟩
    · exact absurd htype hinstance
  have hnoIps : iterips [.ok r] = [] := by
    obtain ⟨type, htype⟩ := h.exists_type
    rw [iterips, List.filterMap_cons_none]
    · rfl
    · rw [ipOf_of_type htype, if_neg]
      rintro rfl
      exact hinstance htype
  have hhosts : hostsOf repr [.ok r] [.ok r] = .ok [item] := by
    rw [hostsOf, hnoIps, iterhosts, List.filterMap_cons_some hitem]
    rfl
  rw [list, hhosts, ok_bind] at hout
  obtain ⟨l, hcollect, -⟩ := ok_of_bind hout
  obtain ⟨hs, heq, hkeys, -⟩ := collect_eq_ok_iff.mp hcollect
  cases hs with
  | nil => cases heq
  | cons host hs =>
      rw [List.map_cons, List.cons.injEq] at heq
      rw [heq.1] at hitem
      exact ⟨host, hitem, hkeys host List.mem_cons_self⟩

/-- The stream of hosts has the parsed host of a record, if it has one. -/
theorem hostOf_eq (h : MixedRecord repr sets r) :
    hostOf repr (.ok r) = (parsedHost repr r).map .ok := by
  by_cases hinstance : r.type = some associateType
  · rw [parsedHost, hostOf_associate hinstance]
    rfl
  · obtain ⟨host, hhost, -⟩ := h.parsedHost_eq_some hinstance
    rw [parsedHost, hhost]
    rfl

/-- The parsed host has the name of the instance. -/
theorem instanceName_eq (h : MixedRecord repr sets r) :
    instanceName r = (parsedHost repr r).map nameKey := by
  rw [instanceName]
  by_cases hassociate : r.type = some associateType
  · rw [parsedHost, hostOf_associate hassociate, hassociate]
    rfl
  · obtain ⟨host, hhost, key, hkey⟩ := h.parsedHost_eq_some hassociate
    have hname : nameKey host = key := by rw [nameKey, hkey]
    rw [parsedHost, hhost, Option.bind_some]
    rcases h.type with htype | htype | htype
    · rw [hostOf_compute htype, Option.some.injEq] at hhost
      rw [if_pos htype, attributeKey_name (openstackHost_eq_ok hhost) hkey]
      rfl
    · rw [hostOf_equinix htype, Option.some.injEq] at hhost
      rw [if_neg (by rw [htype]; decide), if_pos htype,
        attributeKey_eq_some (equinixMetalDevice_eq_ok hhost).1 hkey, ← hname]
      rfl
    · exact absurd htype hassociate

end MixedRecord

/-- The addresses of the ports of such a collection. -/
theorem exists_ipsOf {sets : SetOrder} {rs : List Record}
    (hrs : ∀ r ∈ rs, MixedRecord repr sets r) :
    ∃ ips, ipsOf (iterips (rs.map .ok)) = .ok ips := by
  have hloop := @foldlM_succeeds _ _ _ addIp (fun _ => True) (iterips (rs.map .ok))
    (fun ips item hitem _ => ?_) OrderedDict.empty trivial
  · obtain ⟨ips, hips, -⟩ := hloop
    exact ⟨ips, hips⟩
  · obtain ⟨record, hrecord, hip⟩ := List.mem_filterMap.mp hitem
    obtain ⟨r, hr, rfl⟩ := List.mem_map.mp hrecord
    obtain ⟨type, htype⟩ := (hrs r hr).exists_type
    rw [ipOf_of_type htype] at hip
    split_ifs at hip with hassociate
    cases hip
    rw [hassociate] at htype
    obtain ⟨port, ip, key, hpair, hkey⟩ := (hrs r hr).association htype
    exact ⟨ips.set key ip, bind_eq_ok_iff.mpr ⟨(port, ip), hpair,
      bind_eq_ok_iff.mpr ⟨key, hkey, rfl⟩⟩, trivial⟩

section Mixed

variable {sets : SetOrder} {first second : List Record}
  (hfirst : ∀ r ∈ first, MixedRecord repr sets r)
include hfirst

/-- The stream of hosts of such a collection. -/
theorem iterhosts_mixed :
    iterhosts repr (first.map .ok) = (first.filterMap (parsedHost repr)).map .ok := by
  rw [iterhosts, List.filterMap_map, List.map_filterMap]
  exact List.filterMap_congr fun r hr => (hfirst r hr).hostOf_eq

/-- The names of the hosts are the names of the instances. -/
theorem exists_nameKey_iff (name : Key) :
    (∃ h ∈ first.filterMap (parsedHost repr), nameKey h = name) ↔
      ∃ r ∈ first, instanceName r = some name := by
  constructor
  · rintro ⟨h, hmem, rfl⟩
    obtain ⟨r, hr, hparsed⟩ := List.mem_filterMap.mp hmem
    exact ⟨r, hr, by rw [(hfirst r hr).instanceName_eq, hparsed]; rfl⟩
  · rintro ⟨r, hr, hname⟩
    rw [(hfirst r hr).instanceName_eq] at hname
    obtain ⟨h, hparsed, rfl⟩ := Option.map_eq_some_iff.mp hname
    exact ⟨h, List.mem_filterMap.mpr ⟨r, hr, hparsed⟩, rfl⟩

/-- A host of the collection belongs to an instance that can be parsed. -/
theorem exists_record_of_mem {h : Host} (hmem : h ∈ first.filterMap (parsedHost repr)) :
    ∃ r ∈ first, hostOf repr (.ok r) = some (.ok h) ∧ ∃ key, h.name.key = .ok key := by
  obtain ⟨r, hr, hparsed⟩ := List.mem_filterMap.mp hmem
  have hinstance : r.type ≠ some associateType := by
    intro htype
    rw [parsedHost, hostOf_associate htype] at hparsed
    cases hparsed
  obtain ⟨host, hhost, hkey⟩ := (hfirst r hr).parsedHost_eq_some hinstance
  rw [parsedHost, hhost] at hparsed
  cases hparsed
  exact ⟨r, hr, hhost, hkey⟩

/-- Without Equinix devices every host passes through `iter_host_ips`. -/
theorem updateHost_of_noEquinix (hno : ∀ r ∈ first, r.type ≠ some equinixType) (ips : Ips)
    {h : Host} (hmem : h ∈ first.filterMap (parsedHost repr)) :
    ∃ attrs, updateHost ips h = .ok { h with attrs := attrs } := by
  obtain ⟨r, hr, hhost, -⟩ := exists_record_of_mem hfirst hmem
  rcases (hfirst r hr).type with htype | htype | htype
  · rw [hostOf_compute htype, Option.some.injEq] at hhost
    have hvars := openstackHost_eq_ok hhost
    obtain ⟨port, hport, -⟩ := hvars.port
    obtain ⟨key, hkey⟩ := (hfirst r hr).port htype port hport
    exact ⟨_, updateHost_openstack hvars hport hkey⟩
  · exact absurd htype (hno r hr)
  · rw [hostOf_associate htype] at hhost
    cases hhost

/-- When every host of the collection passes, its listing has exactly the instances as
hosts. -/
theorem hostvars_of_passed {items : List (Except Raised Host)} {hs : List Host}
    (hitems : items = hs.map .ok)
    (hnames : hs.map Host.name = (first.filterMap (parsedHost repr)).map Host.name) :
    ∃ out, queryList sets items = .ok out ∧
      ∀ name, name ∈ (hostvars out).keys ↔ ∃ r ∈ first, instanceName r = some name := by
  have hkeys : ∀ h ∈ hs, ∃ key, h.name.key = .ok key := by
    intro h hh
    have hmem : h.name ∈ (first.filterMap (parsedHost repr)).map Host.name :=
      hnames ▸ List.mem_map_of_mem hh
    obtain ⟨parsed, hparsed, hname⟩ := List.mem_map.mp hmem
    obtain ⟨-, -, -, hkey⟩ := exists_record_of_mem hfirst hparsed
    rwa [← hname]
  refine ⟨_, bind_eq_ok_iff.mpr
    ⟨_, collect_eq_ok_iff.mpr ⟨hs, hitems, hkeys, rfl⟩, rfl⟩, fun name => ?_⟩
  have hnameKeys : hs.map nameKey = (first.filterMap (parsedHost repr)).map nameKey := by
    have hfactor : nameKey = (fun name => nameKey ⟨name, OrderedDict.empty, []⟩) ∘ Host.name := rfl
    rw [hfactor, ← List.map_map, ← List.map_map, hnames]
  rw [hostvars_output, mem_keys_foldl_add, ← exists_nameKey_iff hfirst, ← List.mem_map,
    ← List.mem_map, hnameKeys]

/-- **Mixed providers**: a collection of resources that can be listed one by one can be
listed together, with exactly the instances as hosts, if and only if it has no association
or no Equinix device. -/
theorem mixed_iff (hsecond : ∀ r ∈ second, MixedRecord repr sets r) :
    (∃ out, list repr sets (first.map .ok) (second.map .ok) = .ok out ∧
      ∀ name, name ∈ (hostvars out).keys ↔ ∃ r ∈ first, instanceName r = some name) ↔
      (∀ r ∈ second, r.type ≠ some associateType) ∨
        ∀ r ∈ first, r.type ≠ some equinixType := by
  obtain ⟨ips, hips⟩ := exists_ipsOf hsecond
  have hassociation : ips.keys = [] ↔ ∀ r ∈ second, r.type ≠ some associateType := by
    rw [ipsOf_keys hips, iterips, List.filterMap_map, List.filterMap_eq_nil_iff]
    refine forall_congr' fun r => forall_congr' fun hr => ?_
    obtain ⟨type, htype⟩ := (hsecond r hr).exists_type
    rw [Function.comp_apply, ipOf_of_type htype, htype]
    split_ifs with hassociate
    · exact iff_of_false (by simp) fun hno => hno (congrArg some hassociate)
    · exact iff_of_true rfl fun heq => hassociate (Option.some.inj heq)
  rw [← hassociation, list_eq, hips, ok_bind, iterhosts_mixed hfirst, List.map_map]
  constructor
  · rintro ⟨out, hout, -⟩
    by_cases hempty : ips.keys = []
    · exact Or.inl hempty
    -- every host has passed through `iter_host_ips`, so none of them is without a port
    obtain ⟨l, hcollect, -⟩ := ok_of_bind hout
    obtain ⟨hs, hitems, -, -⟩ := collect_eq_ok_iff.mp hcollect
    refine Or.inr fun r hr hequinix => ?_
    obtain ⟨host, hhost, -⟩ :=
      (hfirst r hr).parsedHost_eq_some (by rw [hequinix]; decide)
    have hmem : host ∈ first.filterMap (parsedHost repr) :=
      List.mem_filterMap.mpr ⟨r, hr, by rw [parsedHost, hhost]; rfl⟩
    rw [hostOf_equinix hequinix, Option.some.injEq] at hhost
    have hfails : passItem ips (.ok host) = .error (.keyError "port_id".toList) := by
      rw [passItem, if_neg hempty]
      exact updateHost_of_noPort (equinixMetalDevice_eq_ok hhost).2.1
    have hpassed : passItem ips (.ok host) ∈ hs.map Except.ok :=
      hitems ▸ List.mem_map_of_mem hmem
    obtain ⟨h, -, hok⟩ := List.mem_map.mp hpassed
    rw [hfails] at hok
    cases hok
  · intro hcond
    have hpass : ∀ h ∈ first.filterMap (parsedHost repr), ∃ h', passItem ips (.ok h) = .ok h' := by
      intro h hmem
      rw [passItem]
      split_ifs with hempty
      · exact ⟨h, rfl⟩
      · obtain ⟨attrs, hupdate⟩ :=
          updateHost_of_noEquinix hfirst (hcond.resolve_left hempty) ips hmem
        exact ⟨_, hupdate⟩
    obtain ⟨hs, hitems⟩ := exists_map_ok hpass
    exact hostvars_of_passed hfirst hitems (names_of_passed hitems)

end Mixed

/-- An OpenStack instance and an association are listed together. -/
theorem mixed_openstack :
    ∃ out, list (fun _ => []) listOrder
        ([refusingInstance, smallAssociation "q".toList "198.51.100.7".toList].map .ok)
        ([refusingInstance, smallAssociation "q".toList "198.51.100.7".toList].map .ok)
          = .ok out ∧
      ∀ name, name ∈ (hostvars out).keys ↔
        ∃ r ∈ [refusingInstance, smallAssociation "q".toList "198.51.100.7".toList],
          instanceName r = some name := by
  have hrecords : ∀ r ∈ [refusingInstance, smallAssociation "q".toList "198.51.100.7".toList],
      MixedRecord (fun _ => []) listOrder r := by
    refine List.forall_mem_cons.mpr ⟨?_, List.forall_mem_singleton.mpr ?_⟩
    · exact
        { type := Or.inl (by decide +kernel)
          alone := fun _ => exists_list_eq_ok (by decide +kernel)
          port := fun _ => @port_smallInstance _ "q".toList (by decide +kernel)
          association := fun h => absurd h (by decide +kernel) }
    · exact
        { type := Or.inr (Or.inr (by decide +kernel))
          alone := fun h => absurd (by decide +kernel) h
          port := fun h => absurd h (by decide +kernel)
          association := fun _ =>
            ⟨_, _, _, openstackFloatingIps_smallAssociation _ _, rfl⟩ }
  exact (mixed_iff hrecords hrecords).mpr (Or.inr (by decide +kernel))

/-- **An association makes the listing of an Equinix device fail**, which succeeds without
it. -/
theorem mixed_fails :
    (∃ out, list (fun _ => []) listOrder [.ok (smallDevice "node".toList)]
      [.ok (smallDevice "node".toList)] = .ok out) ∧
    ¬ ∃ out, list (fun _ => []) listOrder
      [.ok (smallDevice "node".toList), .ok (smallAssociation "q".toList "198.51.100.7".toList)]
      [.ok (smallDevice "node".toList), .ok (smallAssociation "q".toList "198.51.100.7".toList)]
        = .ok out := by
  refine ⟨exists_list_eq_ok (by decide +kernel), ?_⟩
  rintro ⟨out, hout⟩
  have hfails : (list (fun _ => []) listOrder
      [.ok (smallDevice "node".toList), .ok (smallAssociation "q".toList "198.51.100.7".toList)]
      [.ok (smallDevice "node".toList),
        .ok (smallAssociation "q".toList "198.51.100.7".toList)]).isOk = false := by
    decide +kernel
  rw [hout] at hfails
  cases hfails

end Kubespray.Terraform
