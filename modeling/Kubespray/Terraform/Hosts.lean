import Kubespray.Terraform.Listing

/-!
# Parsed Hosts

What the two parsers leave in the variables of a host, as far as the later steps read it.
Only OpenStack hosts have a `port_id` and `metadata`, which `iter_host_ips` reads from
every host.

## Main results

* `get?_parseDict`: the entries of a map are the attributes below its name.
* `openstackHost_eq_ok`: the variables of an OpenStack host that later steps read.
* `updateHost_openstack`, `updateHost_of_noPort`: what `iter_host_ips` does with a host.
-/

namespace Kubespray.Terraform

open OrderedDict Fallible

/-! ### Keys -/

/-- A text splits at its first separator. -/
theorem splitOnce_append {sep : Char} {start : Text} (h : sep ∉ start) (rest : Text) :
    splitOnce sep (start ++ sep :: rest) = some (start, rest) := by
  have hstart : ∀ c ∈ start, decide (c ≠ sep) = true := by
    intro c hc
    refine decide_eq_true ?_
    rintro rfl
    exact h hc
  have hdrop : (start ++ sep :: rest).dropWhile (· ≠ sep) = sep :: rest := by
    rw [List.dropWhile_append_of_pos hstart, List.dropWhile_cons_of_neg (by simp)]
  have htake : (start ++ sep :: rest).takeWhile (· ≠ sep) = start := by
    rw [List.takeWhile_append_of_pos hstart, List.takeWhile_cons_of_neg (by simp),
      List.append_nil]
  rw [splitOnce, hdrop, htake]

/-- The parts of a text that was split. -/
theorem splitOnce_eq_some {sep : Char} {t start rest : Text}
    (h : splitOnce sep t = some (start, rest)) : t = start ++ sep :: rest ∧ sep ∉ start := by
  rw [splitOnce] at h
  split at h
  · cases h
  · rename_i c tail hdrop
    cases h
    have hc : c = sep := by
      have hhead := List.head?_dropWhile_not (fun x => decide (x ≠ sep)) t
      rw [hdrop] at hhead
      simpa using hhead
    subst hc
    refine ⟨?_, fun hmem => ?_⟩
    · rw [← hdrop, List.takeWhile_append_dropWhile]
    · have hall := List.all_eq_true.mp List.all_takeWhile _ hmem
      simp at hall

/-- The keys that `_parse_prefix` yields something for. -/
theorem restOfKey_eq_some_iff {start : Text} {sep : Char} (h : sep ∉ start) {key rest : Text} :
    restOfKey start sep key = some rest ↔ key = start ++ sep :: rest ∧ rest ≠ ['#'] := by
  rw [restOfKey]
  constructor
  · intro hrest
    cases hsplit : splitOnce sep key with
    | none =>
        rw [hsplit] at hrest
        cases hrest
    | some parts =>
        obtain ⟨current, rest'⟩ := parts
        rw [hsplit] at hrest
        dsimp only at hrest
        split_ifs at hrest with hcond
        cases hrest
        rw [not_or, not_not] at hcond
        obtain ⟨rfl, hne⟩ := hcond
        exact ⟨(splitOnce_eq_some hsplit).1, hne⟩
  · rintro ⟨rfl, hne⟩
    rw [splitOnce_append h]
    exact if_neg fun hcond => hcond.elim (fun hno => hno rfl) hne

/-- The keys that `_parse_prefix` yields are distinct. -/
theorem nodup_parsePrefix (source : Attributes) {start : Text} {sep : Char} (h : sep ∉ start) :
    ((parsePrefix source start sep).map Prod.fst).Nodup := by
  have hmap : (parsePrefix source start sep).map Prod.fst
      = source.keys.filterMap (restOfKey start sep) := by
    rw [parsePrefix, keys, List.map_filterMap, List.filterMap_map]
    refine List.filterMap_congr fun e _ => ?_
    rw [Option.map_map]
    exact congrFun Option.map_id _
  rw [hmap]
  refine source.keys_nodup.filterMap fun a b rest ha hb => ?_
  rw [Option.mem_def, restOfKey_eq_some_iff h] at ha hb
  rw [ha.1, hb.1]

/-- **The entries of a map are the attributes below its name.** -/
theorem get?_parseDict (source : Attributes) {start : Text} {sep : Char} (h : sep ∉ start)
    {key : Text} (hkey : key ≠ ['#']) :
    (parseDict source start sep).get? key = source.get? (start ++ sep :: key) := by
  refine Option.ext fun v => ?_
  rw [parseDict, get?_ofList (nodup_parsePrefix source h), parsePrefix, List.mem_filterMap]
  constructor
  · rintro ⟨⟨compkey, value⟩, hmem, hrest⟩
    obtain ⟨rest, hsome, heq⟩ := Option.map_eq_some_iff.mp hrest
    cases heq
    rw [← ((restOfKey_eq_some_iff h).mp hsome).1]
    exact get?_of_mem_entries hmem
  · intro hget
    refine ⟨_, mem_entries_of_get? hget, ?_⟩
    rw [(restOfKey_eq_some_iff h).mpr ⟨rfl, hkey⟩]
    rfl

/-! ### OpenStack hosts -/

/-- An attribute that is read is there. -/
theorem subscript_eq_ok_iff {source : Attributes} {key : Text} {v : Json} :
    subscript source key = .ok v ↔ source.get? key = some v := by
  rw [subscript]
  cases source.get? key with
  | none => simp
  | some w => simp

/-- An optional variable changes no other. -/
theorem get?_copyOptional (raw attrs : Attributes) {source variable_ key : Text}
    (h : key ≠ variable_) :
    (copyOptional raw source variable_ attrs).get? key = attrs.get? key := by
  rw [copyOptional]
  cases raw.get? source with
  | none => rfl
  | some v => exact get?_set_of_ne attrs v h

/-- The numbered volume devices change no other variable. -/
theorem get?_setVolumeDevices (devices : List Json) (attrs : Attributes) {key : Text}
    (h : ¬ "disk_volume_device_".toList <+: key) :
    (setVolumeDevices devices attrs).get? key = attrs.get? key := by
  refine get?_foldl_set_of_notMem _ _ fun hmem => ?_
  obtain ⟨e, he, rfl⟩ := List.mem_map.mp hmem
  obtain ⟨i, hi, rfl⟩ := List.mem_mapIdx.mp he
  exact h (List.prefix_append _ _)

/-- The variables that are added to those of the dictionary literal, but for the numbered
volume devices. -/
def laterVariables : List Text :=
  ["ansible_host".toList, "publicly_routable".toList, "ansible_user".toList,
    "ansible_port".toList, "role".toList, "consul_is_server".toList]

/-- Other variables are not changed. -/
theorem get?_openstackLaterAttrs (raw metadata : Attributes) (host : Json) (volumes : Bool)
    (attrs : Attributes) {key : Text} (hlater : key ∉ laterVariables)
    (hdisk : ¬ "disk_volume_device_".toList <+: key) :
    (openstackLaterAttrs raw metadata host volumes attrs).get? key = attrs.get? key := by
  have hne : ∀ name ∈ laterVariables, key ≠ name := fun name hname heq => hlater (heq ▸ hname)
  have hvolumes : ∀ attrs : Attributes,
      (if volumes = true then setVolumeDevices (volumeDevices raw) attrs else attrs).get? key
        = attrs.get? key := by
    intro attrs
    split_ifs
    · exact get?_setVolumeDevices _ _ hdisk
    · rfl
  rw [openstackLaterAttrs, get?_set_of_ne _ _ (hne _ (by decide)), hvolumes,
    get?_copyOptional _ _ (hne _ (by decide)), get?_copyOptional _ _ (hne _ (by decide)),
    get?_set_of_ne _ _ (hne _ (by decide)), get?_set_of_ne _ _ (hne _ (by decide))]

/-- The variables of the dictionary literal of `openstack_host`. -/
def openstackVariables : List Text :=
  ["access_ip_v4".toList, "access_ip_v6".toList, "access_ip".toList, "ip".toList,
    "flavor".toList, "id".toList, "image".toList, "key_pair".toList, "metadata".toList,
    "network".toList, "region".toList, "security_groups".toList, "host_domain".toList,
    "use_host_domain".toList, "public_ipv4".toList, "private_ipv4".toList, "port_id".toList,
    "provider".toList]

/-- The dictionary literal, read at four of its keys. -/
theorem get?_openstackAttrs (raw metadata : Attributes) (network : List Json)
    (accessIpV4 accessIpV6 ip id keyPair port : Json) :
    (openstackAttrs raw metadata network accessIpV4 accessIpV6 ip id keyPair port).get?
        "port_id".toList = some port ∧
      (openstackAttrs raw metadata network accessIpV4 accessIpV6 ip id keyPair port).get?
        "metadata".toList = some (toJson metadata) ∧
      (openstackAttrs raw metadata network accessIpV4 accessIpV6 ip id keyPair port).get?
        "access_ip".toList = some accessIpV4 ∧
      (openstackAttrs raw metadata network accessIpV4 accessIpV6 ip id keyPair port).get?
        "id".toList = some id := by
  have hget : ∀ {xs : List (Text × Json)} (i : ℕ) {key : Text} {v : Json},
      xs.map Prod.fst = openstackVariables → xs[i]? = some (key, v) →
      (ofList xs : Attributes).get? key = some v := by
    intro xs i key v hkeys hi
    refine (get?_ofList ?_).mpr (List.mem_of_getElem? hi)
    rw [hkeys]
    decide
  rw [openstackAttrs]
  refine ⟨hget 16 ?_ ?_, hget 8 ?_ ?_, hget 2 ?_ ?_, hget 5 ?_ ?_⟩ <;> rfl

/-- The variables of an OpenStack host that later steps read. -/
structure OpenstackVars (raw : Attributes) (h : Host) : Prop where
  name : raw.get? "name".toList = some h.name
  port : ∃ port, raw.get? "network.0.port".toList = some port ∧
    h.attrs.get? "port_id".toList = some port
  metadata : h.attrs.get? "metadata".toList
    = some (toJson (parseDict raw "metadata".toList '.'))
  accessIp : ∃ v, h.attrs.get? "access_ip".toList = some v
  id : h.attrs.get? "id".toList = raw.get? "id".toList

/-- **The variables of an OpenStack host that later steps read** are there. -/
theorem openstackHost_eq_ok {repr : Json → Text} {raw : Attributes} {h : Host}
    (hok : openstackHost repr raw = .ok h) : OpenstackVars raw h := by
  obtain ⟨inner, hinner, hok⟩ := ok_of_bind hok
  cases hok
  obtain ⟨name, hname, hinner⟩ := ok_of_bind hinner
  obtain ⟨accessIpV4, -, hinner⟩ := ok_of_bind hinner
  obtain ⟨accessIpV6, -, hinner⟩ := ok_of_bind hinner
  obtain ⟨ip, -, hinner⟩ := ok_of_bind hinner
  obtain ⟨id, hid, hinner⟩ := ok_of_bind hinner
  obtain ⟨keyPair, -, hinner⟩ := ok_of_bind hinner
  obtain ⟨network, -, hinner⟩ := ok_of_bind hinner
  obtain ⟨port, hport, hinner⟩ := ok_of_bind hinner
  obtain ⟨host, -, hinner⟩ := ok_of_bind hinner
  obtain ⟨volumes, -, hinner⟩ := ok_of_bind hinner
  obtain ⟨groups, -, hinner⟩ := ok_of_bind hinner
  cases hinner
  set metadata := parseDict raw "metadata".toList '.'
  have hkept : ∀ key v, key ∉ laterVariables → ¬ "disk_volume_device_".toList <+: key →
      ((openstackLaterAttrs raw metadata host volumes (openstackAttrs raw metadata network
        accessIpV4 accessIpV6 ip id keyPair port)).set "consul_is_server".toList v).get? key
        = (openstackAttrs raw metadata network accessIpV4 accessIpV6 ip id keyPair
          port).get? key := by
    intro key v hlater hdisk
    have hconsul : key ≠ "consul_is_server".toList := by
      rintro rfl
      exact hlater (by decide)
    rw [get?_set_of_ne _ _ hconsul, get?_openstackLaterAttrs _ _ _ _ _ hlater hdisk]
  obtain ⟨hportId, hmetadata, haccess, hidVariable⟩ :=
    get?_openstackAttrs raw metadata network accessIpV4 accessIpV6 ip id keyPair port
  exact
    { name := subscript_eq_ok_iff.mp hname
      port := ⟨port, subscript_eq_ok_iff.mp hport,
        (hkept _ _ (by decide) (by decide)).trans hportId⟩
      metadata := (hkept _ _ (by decide) (by decide)).trans hmetadata
      accessIp := ⟨accessIpV4, (hkept _ _ (by decide) (by decide)).trans haccess⟩
      id := ((hkept _ _ (by decide) (by decide)).trans hidVariable).trans
        (subscript_eq_ok_iff.mp hid).symm }

/-- The variables of an Equinix host have no port, and the id of the device. -/
theorem get?_equinixAttrs (raw : Attributes)
    (name id operatingSystem plan projectId state network0 network1 network2 : Json)
    (locked : Bool) :
    (equinixAttrs raw name id operatingSystem plan projectId state network0 network1 network2
      locked).get? "port_id".toList = none ∧
    (equinixAttrs raw name id operatingSystem plan projectId state network0 network1 network2
      locked).get? "id".toList = some id := by
  rw [equinixAttrs]
  constructor
  · refine get?_ofList_of_notMem ?_
    simp only [List.map_cons, List.map_nil]
    decide
  · refine (get?_ofList ?_).mpr List.mem_cons_self
    simp only [List.map_cons, List.map_nil]
    decide

/-- An Equinix host has a name, the id of the device and no port. -/
theorem equinixMetalDevice_eq_ok {repr : Json → Text} {raw : Attributes} {h : Host}
    (hok : equinixMetalDevice repr raw = .ok h) :
    raw.get? "hostname".toList = some h.name ∧ h.attrs.get? "port_id".toList = none ∧
      h.attrs.get? "id".toList = raw.get? "id".toList := by
  obtain ⟨name, hname, hok⟩ := ok_of_bind hok
  obtain ⟨id, hid, hok⟩ := ok_of_bind hok
  obtain ⟨operatingSystem, -, hok⟩ := ok_of_bind hok
  obtain ⟨lockedValue, -, hok⟩ := ok_of_bind hok
  obtain ⟨locked, -, hok⟩ := ok_of_bind hok
  obtain ⟨plan, -, hok⟩ := ok_of_bind hok
  obtain ⟨projectId, -, hok⟩ := ok_of_bind hok
  obtain ⟨state, -, hok⟩ := ok_of_bind hok
  obtain ⟨network0, -, hok⟩ := ok_of_bind hok
  obtain ⟨network1, -, hok⟩ := ok_of_bind hok
  obtain ⟨network2, -, hok⟩ := ok_of_bind hok
  obtain ⟨groups, -, hok⟩ := ok_of_bind hok
  cases hok
  dsimp only
  obtain ⟨hport, hidVariable⟩ := get?_equinixAttrs raw name id operatingSystem plan projectId
    state network0 network1 network2 locked
  exact ⟨subscript_eq_ok_iff.mp hname, hport,
    hidVariable.trans (subscript_eq_ok_iff.mp hid).symm⟩

/-! ### Floating IPs -/

/-- `iter_host_ips` gives up on a host without a port. -/
theorem updateHost_of_noPort {ips : Ips} {h : Host} (hport : h.attrs.get? "port_id".toList = none) :
    updateHost ips h = .error (.keyError "port_id".toList) := by
  rw [updateHost, subscript, hport]
  rfl

/-- The variables that `iter_host_ips` reads after its update. -/
theorem get?_withIp (ip : Json) (attrs : Attributes) {key : Text}
    (h : key ∉ ["access_ip_v4".toList, "access_ip".toList, "public_ipv4".toList,
      "ansible_host".toList]) :
    (withIp ip attrs).get? key = attrs.get? key := by
  simp only [List.mem_cons, List.not_mem_nil, or_false, not_or] at h
  obtain ⟨h₁, h₂, h₃, h₄⟩ := h
  rw [withIp, get?_set_of_ne _ _ h₄, get?_set_of_ne _ _ h₃, get?_set_of_ne _ _ h₂,
    get?_set_of_ne _ _ h₁]

/-- The variables of an OpenStack host after `iter_host_ips`, given the address of its port
and whether it refuses an access address. -/
def floating (ip : Option Json) (refuses : Bool) (attrs : Attributes) : Attributes :=
  let attrs := match ip with
    | some ip => withIp ip attrs
    | none => attrs
  if refuses then attrs.erase "access_ip".toList else attrs

/-- The update changes only these variables. -/
theorem get?_floating (ip : Option Json) (refuses : Bool) (attrs : Attributes) {key : Text}
    (h : key ∉ ["access_ip_v4".toList, "access_ip".toList, "public_ipv4".toList,
      "ansible_host".toList]) :
    (floating ip refuses attrs).get? key = attrs.get? key := by
  have hne : key ≠ "access_ip".toList := by
    rintro rfl
    exact h (by decide)
  cases ip with
  | none =>
      cases refuses with
      | false => rfl
      | true => exact get?_erase_of_ne attrs hne
  | some ip =>
      cases refuses with
      | false => exact get?_withIp ip attrs h
      | true => exact (get?_erase_of_ne _ hne).trans (get?_withIp ip attrs h)

/-- Does an instance have the metadata entry that refuses an access address? -/
def refuses (raw : Attributes) : Bool :=
  holds raw "metadata.use_access_ip".toList ['0']

/-- Look-up in a dictionary that is held as a value. -/
theorem lookup_entries (d : Attributes) (key : Text) : d.entries.lookup key = d.get? key := by
  rw [get?]
  induction d.entries with
  | nil => rfl
  | cons e entries ih =>
      obtain ⟨k, v⟩ := e
      by_cases h : key = k
      · subst h
        simp
      · have hne : (key == k) = false := by simpa using h
        rw [List.lookup_cons, hne, List.find?_cons_of_neg (by simpa using fun heq => h heq.symm)]
        exact ih

/-- The test on the metadata of an OpenStack host. -/
theorem refusesAccessIp_metadata (raw : Attributes) :
    refusesAccessIp (toJson (parseDict raw "metadata".toList '.')) = .ok (refuses raw) := by
  have hname : "metadata".toList ++ '.' :: "use_access_ip".toList
      = "metadata.use_access_ip".toList := by decide
  have hget := @get?_parseDict raw "metadata".toList '.' (by decide) "use_access_ip".toList
    (by decide)
  rw [hname] at hget
  have hlookup : (parseDict raw "metadata".toList '.').entries.lookup "use_access_ip".toList
      = raw.get? "metadata.use_access_ip".toList :=
    (lookup_entries _ _).trans hget
  have hobj : refusesAccessIp (toJson (parseDict raw "metadata".toList '.'))
      = .ok (((parseDict raw "metadata".toList '.').entries.lookup
        "use_access_ip".toList).any (Json.isStr ['0'])) := rfl
  rw [hobj, hlookup, refuses, holds]

/-- The update leaves an access address to be removed. -/
theorem exists_accessIp_withIp (ip : Json) (attrs : Attributes) :
    ∃ v, (withIp ip attrs).get? "access_ip".toList = some v := by
  refine ⟨ip, ?_⟩
  rw [withIp, get?_set_of_ne _ _ (by decide), get?_set_of_ne _ _ (by decide), get?_set_self]

/-- **What `iter_host_ips` does with an OpenStack host.** -/
theorem updateHost_openstack {ips : Ips} {raw : Attributes} {h : Host}
    (hvars : OpenstackVars raw h) {port : Json} {key : Key}
    (hport : raw.get? "network.0.port".toList = some port) (hkey : port.key = .ok key) :
    updateHost ips h
      = .ok { h with attrs := floating (ips.get? key) (refuses raw) h.attrs } := by
  obtain ⟨port', hport', hget⟩ := hvars.port
  obtain rfl : port' = port := Option.some.inj (hport'.symm.trans hport)
  rw [updateHost, subscript_eq_ok_iff.mpr hget, ok_bind, hkey, ok_bind]
  have hrest : ∀ attrs : Attributes,
      attrs.get? "metadata".toList = some (toJson (parseDict raw "metadata".toList '.')) →
      (∃ v, attrs.get? "access_ip".toList = some v) →
      (do
        if ← refusesAccessIp (← subscript attrs "metadata".toList) then
          return { h with attrs := ← popAccessIp attrs }
        else
          return { h with attrs := attrs } : Except Raised Host)
        = .ok { h with
            attrs := if refuses raw then attrs.erase "access_ip".toList else attrs } := by
    rintro attrs hmetadata ⟨v, hv⟩
    rw [subscript_eq_ok_iff.mpr hmetadata, ok_bind, refusesAccessIp_metadata, ok_bind]
    cases refuses raw with
    | true => simp only [popAccessIp, subscript_eq_ok_iff.mpr hv, if_true]; rfl
    | false => rfl
  cases hip : ips.get? key with
  | none => exact hrest h.attrs hvars.metadata hvars.accessIp
  | some ip =>
      refine hrest (withIp ip h.attrs) ?_ (exists_accessIp_withIp ip h.attrs)
      rw [get?_withIp ip h.attrs (by decide)]
      exact hvars.metadata

/-! ### Kinds of records -/

/-- The type of a resource, as `iterhosts` and `iterips` read it off its key. -/
def Record.type (r : Record) : Option Text :=
  (splitOnce '.' r.key).map Prod.fst

variable {repr : Json → Text}

/-- A record whose key has a type. -/
theorem dispatch_of_type {r : Record} {type : Text} (h : r.type = some type) :
    dispatch repr r = .ok (parser repr type) := by
  obtain ⟨⟨type', rest⟩, hsplit, rfl⟩ := Option.map_eq_some_iff.mp h
  rw [dispatch, hsplit]

/-- `iterhosts` reads OpenStack instances. -/
theorem hostOf_compute {r : Record} (h : r.type = some computeType) :
    hostOf repr (.ok r) = some (openstackHost repr r.attributes) := by
  have hparser : parser repr computeType = some (openstackHost repr) := by
    rw [parser, if_neg (by decide), if_pos rfl]
  simp only [hostOf, dispatch_of_type h, hparser]

/-- `iterhosts` reads Equinix devices. -/
theorem hostOf_equinix {r : Record} (h : r.type = some equinixType) :
    hostOf repr (.ok r) = some (equinixMetalDevice repr r.attributes) := by
  have hparser : parser repr equinixType = some (equinixMetalDevice repr) := by
    rw [parser, if_pos rfl]
  simp only [hostOf, dispatch_of_type h, hparser]

/-- `iterhosts` passes over associations. -/
theorem hostOf_associate {r : Record} (h : r.type = some associateType) :
    hostOf repr (.ok r) = none := by
  have hparser : parser repr associateType = none := by
    rw [parser, if_neg (by decide), if_neg (by decide)]
  simp only [hostOf, dispatch_of_type h, hparser]

/-- `iterhosts` makes a host of no other record. -/
theorem type_of_hostOf {r : Record} {h : Host} (hok : hostOf repr (.ok r) = some (.ok h)) :
    r.type = some equinixType ∨ r.type = some computeType := by
  cases htype : r.type with
  | none =>
      rw [Record.type, Option.map_eq_none_iff] at htype
      simp only [hostOf, dispatch, htype] at hok
      cases hok
  | some type =>
      simp only [hostOf, dispatch_of_type htype, parser] at hok
      by_cases hequinix : type = equinixType
      · exact Or.inl (congrArg some hequinix)
      by_cases hcompute : type = computeType
      · exact Or.inr (congrArg some hcompute)
      rw [if_neg hequinix, if_neg hcompute] at hok
      cases hok

/-- `iterips` reads associations only. -/
theorem ipOf_of_type {r : Record} {type : Text} (h : r.type = some type) :
    ipOf (.ok r)
      = if type = associateType then some (openstackFloatingIps r.attributes) else none := by
  obtain ⟨⟨type', rest⟩, hsplit, rfl⟩ := Option.map_eq_some_iff.mp h
  simp only [ipOf, hsplit]

end Kubespray.Terraform
