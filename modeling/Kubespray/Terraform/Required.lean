import Kubespray.Terraform.Lists

/-!
# What the Parsers Need

The parsers of `terraform.py` take most attributes by subscript and check little of what
they read, so they raise on a resource that lacks one of them. This module says exactly
which attributes a resource must have for its parser to make a host of it. `iterhosts`
does not catch what a parser raises: one resource that falls short ends the whole run.

## Main results

* `exists_equinixMetalDevice_iff`: which devices become hosts.
* `exists_openstackHost_iff`: which instances become hosts.
-/

namespace Kubespray.Terraform

open OrderedDict Fallible

variable {repr : Json → Text} {raw : Attributes}

/-! ### Groups, maps and lists -/

/-- The names of groups are texts. -/
theorem exists_sanitizeGroups_iff {groups : List Json} :
    (∃ names, sanitizeGroups groups = .ok names) ↔ ∀ v ∈ groups, ∃ t, v = .str t := by
  rw [sanitizeGroups, exists_mapM_ok_iff]
  refine forall₂_congr fun v _ => ?_
  cases v with
  | str t => exact iff_of_true ⟨_, rfl⟩ ⟨t, rfl⟩
  | null | bool | int | float | arr | obj =>
      exact iff_of_false not_exists_of_error fun ⟨t, hno⟩ => by cases hno

/-- The index and the field of a key, as `parse_attr_list` takes it apart. -/
def indexAndField (sep : Char) (e : Text × Json) : Except Raised (Text × Text × Json) :=
  match splitOnce sep e.1 with
  | some (index, key) => .ok (index, key, e.2)
  | none => .error .valueError

/-- A key that is taken apart has a separator. -/
theorem exists_indexAndField_iff {sep : Char} {e : Text × Json} :
    (∃ x, indexAndField sep e = .ok x) ↔ sep ∈ e.1 := by
  rw [indexAndField]
  cases hsplit : splitOnce sep e.1 with
  | none =>
      refine iff_of_false not_exists_of_error fun hmem => ?_
      obtain ⟨start, rest, heq, hstart⟩ := List.eq_append_cons_of_mem hmem
      rw [heq, splitOnce_append hstart] at hsplit
      cases hsplit
  | some parts =>
      rw [(splitOnce_eq_some hsplit).1]
      exact iff_of_true ⟨_, rfl⟩ (List.mem_append_right _ List.mem_cons_self)

/-- A list of dictionaries is read when all keys below its name have a field. -/
theorem exists_parseAttrList_iff {start : Text} {sep : Char} :
    (∃ xs, parseAttrList raw start sep = .ok xs) ↔
      ∀ e ∈ parsePrefix raw start sep, sep ∈ e.1 := by
  have hstep : ∀ (attrs : OrderedDict Text Attributes) (e : Text × Json),
      addAttr sep attrs e = (do
        let x ← indexAndField sep e
        return attrs.set x.1 (((attrs.get? x.1).getD OrderedDict.empty).set x.2.1 x.2.2)) := by
    intro attrs e
    rw [addAttr, indexAndField]
    cases splitOnce sep e.1 <;> rfl
  rw [parseAttrList_eq, exists_bind_ok_iff]
  simp only [foldlM_eq_ok_iff hstep]
  constructor
  · rintro ⟨attrs, ⟨ys, hys, -⟩, -⟩ e he
    rw [← exists_indexAndField_iff]
    have hmem := List.mem_map_of_mem (f := indexAndField sep) he
    rw [hys] at hmem
    obtain ⟨y, -, hy⟩ := List.mem_map.mp hmem
    exact ⟨y, hy.symm⟩
  · intro h
    obtain ⟨ys, hys⟩ := exists_map_ok fun e he => exists_indexAndField_iff.mpr (h e he)
    exact ⟨_, ⟨ys, hys, rfl⟩, _, rfl⟩

/-! ### Equinix devices -/

/-- The attributes that `equinix_metal_device` takes by subscript. -/
def deviceKeys : List Text :=
  ["hostname".toList, "id".toList, "operating_system".toList, "locked".toList, "plan".toList,
    "project_id".toList, "state".toList, "network.0.address".toList,
    "network.1.address".toList, "network.2.address".toList]

/-- The attributes of a device that becomes a host: those taken by subscript are there, it is
locked or not, and its tags, which are the names of groups, are texts. -/
structure DeviceAttributes (raw : Attributes) : Prop where
  present : ∀ key ∈ deviceKeys, ∃ v, raw.get? key = some v
  locked : ∀ v, raw.get? "locked".toList = some v → ∃ b, parseBool v = .ok b
  tags : ∀ v ∈ parseList raw "tags".toList '.', ∃ t, v = .str t

/-- **Which devices become hosts.** -/
theorem exists_equinixMetalDevice_iff :
    (∃ h, equinixMetalDevice repr raw = .ok h) ↔ DeviceAttributes raw := by
  simp only [equinixMetalDevice, exists_bind_ok_iff, subscript_eq_ok_iff]
  constructor
  · rintro ⟨name, hname, id, hid, system, hsystem, lockedValue, hvalue, locked, hlocked, plan,
      hplan, project, hproject, state, hstate, address₀, h₀, address₁, h₁, address₂, h₂, groups,
      hgroups, -⟩
    have htags := exists_sanitizeGroups_iff.mp ⟨groups, hgroups⟩
    exact
      { present := by
          simp only [deviceKeys, List.forall_mem_cons]
          exact ⟨⟨_, hname⟩, ⟨_, hid⟩, ⟨_, hsystem⟩, ⟨_, hvalue⟩, ⟨_, hplan⟩, ⟨_, hproject⟩,
            ⟨_, hstate⟩, ⟨_, h₀⟩, ⟨_, h₁⟩, ⟨_, h₂⟩, fun _ hno => absurd hno List.not_mem_nil⟩
        locked := fun v hv => by
          obtain rfl := Option.some.inj (hv.symm.trans hvalue)
          exact ⟨locked, hlocked⟩
        tags := fun v hv => htags v (List.mem_append_right _ hv) }
  · rintro ⟨hpresent, hlocked, htags⟩
    simp only [deviceKeys, List.forall_mem_cons] at hpresent
    obtain ⟨⟨name, hname⟩, ⟨id, hid⟩, ⟨system, hsystem⟩, ⟨lockedValue, hvalue⟩, ⟨plan, hplan⟩,
      ⟨project, hproject⟩, ⟨state, hstate⟩, ⟨address₀, h₀⟩, ⟨address₁, h₁⟩, ⟨address₂, h₂⟩, -⟩ :=
        hpresent
    obtain ⟨locked, hlocked⟩ := hlocked lockedValue hvalue
    refine ⟨name, hname, id, hid, system, hsystem, lockedValue, hvalue, locked, hlocked, plan,
      hplan, project, hproject, state, hstate, address₀, h₀, address₁, h₁, address₂, h₂, ?_⟩
    obtain ⟨groups, hgroups⟩ := (@exists_sanitizeGroups_iff ([
        .str ("equinix_metal_operating_system_".toList ++ pyStr repr system),
        .str ("equinix_metal_locked_".toList ++ pyStr repr (.bool locked)),
        .str ("equinix_metal_state_".toList ++ pyStr repr state),
        .str ("equinix_metal_plan_".toList ++ pyStr repr plan)]
        ++ parseList raw "tags".toList '.')).mpr (by
      intro v hv
      rcases List.mem_append.mp hv with hfirst | htag
      · simp only [List.mem_cons, List.not_mem_nil, or_false] at hfirst
        rcases hfirst with rfl | rfl | rfl | rfl <;> exact ⟨_, rfl⟩
      · exact htags v htag)
    exact ⟨groups, hgroups, _, rfl⟩

/-! ### OpenStack instances -/

/-- The attributes that `openstack_host` takes by subscript, the last two of them out of the
dictionaries of the image and of the flavor. -/
def serverKeys : List Text :=
  ["name".toList, "access_ip_v4".toList, "access_ip_v6".toList,
    "network.0.fixed_ip_v4".toList, "id".toList, "key_pair".toList, "network.0.port".toList,
    "image_id".toList, "flavor_name".toList]

/-- The attributes of an instance that becomes a host: those taken by subscript are there,
its networks are a list of blocks, an IPv6 address that is preferred is a text, its volumes
can be counted, and so is the text of its groups one. -/
structure ServerAttributes (raw : Attributes) : Prop where
  present : ∀ key ∈ serverKeys, ∃ v, raw.get? key = some v
  network : ∀ e ∈ parsePrefix raw "network".toList '.', '.' ∈ e.1
  preferred : holds raw "metadata.prefer_ipv6".toList ['1'] = true →
    ∀ v, raw.get? "access_ip_v6".toList = some v → ∃ t, v = .str t
  volumes : ∀ v, raw.get? "volume.#".toList = some v → ∃ n, pyInt v = .ok n
  groups : ∀ v, raw.get? "metadata.kubespray_groups".toList = some v → ∃ t, v = .str t

/-- The address for `ansible_host` is a text that loses its brackets, or is taken as it is. -/
theorem exists_ansibleHost_iff {accessIpV4 accessIpV6 : Json} :
    (∃ v, ansibleHost raw accessIpV4 accessIpV6 = .ok v) ↔
      (holds raw "metadata.prefer_ipv6".toList ['1'] = true → ∃ t, accessIpV6 = .str t) := by
  rw [ansibleHost]
  split_ifs with hprefer
  · rw [forall_prop_of_true hprefer]
    cases accessIpV6 with
    | str t => exact iff_of_true ⟨_, rfl⟩ ⟨t, rfl⟩
    | null | bool | int | float | arr | obj =>
        exact iff_of_false not_exists_of_error fun ⟨t, hno⟩ => by cases hno
  · exact iff_of_true ⟨_, rfl⟩ fun h => absurd h hprefer

/-- The volumes can be counted, if their number is there. -/
theorem exists_hasVolumes_iff :
    (∃ b, hasVolumes raw = .ok b) ↔
      ∀ v, raw.get? "volume.#".toList = some v → ∃ n, pyInt v = .ok n := by
  rw [hasVolumes]
  cases raw.get? "volume.#".toList with
  | none => exact iff_of_true ⟨_, rfl⟩ fun v hno => by cases hno
  | some count =>
      dsimp only
      rw [exists_bind_ok_iff]
      constructor
      · rintro ⟨n, hn, -⟩ v hv
        obtain rfl := Option.some.inj hv
        exact ⟨n, hn⟩
      · intro h
        obtain ⟨n, hn⟩ := h count rfl
        exact ⟨n, hn, _, rfl⟩

/-- The groups of the metadata are a text, if they are there. -/
theorem exists_kubesprayGroups_iff {metadata : Attributes} :
    (∃ groups, kubesprayGroups metadata = .ok groups) ↔
      ∀ v, metadata.get? "kubespray_groups".toList = some v → ∃ t, v = .str t := by
  rw [kubesprayGroups]
  cases metadata.get? "kubespray_groups".toList with
  | none => exact iff_of_true ⟨_, rfl⟩ fun v hno => by cases hno
  | some v =>
      cases v with
      | str t => exact iff_of_true ⟨_, rfl⟩ fun v hv => ⟨t, (Option.some.inj hv).symm⟩
      | null | bool | int | float | arr | obj =>
          refine iff_of_false not_exists_of_error fun h => ?_
          obtain ⟨t, hno⟩ := h _ rfl
          cases hno

/-- The names of the groups are made of the image, the flavor and the metadata. -/
theorem exists_openstackGroups_iff :
    (∃ groups, openstackGroups repr raw (parseDict raw "metadata".toList '.') = .ok groups) ↔
      (∃ v, raw.get? "image_id".toList = some v) ∧ (∃ v, raw.get? "flavor_name".toList = some v) ∧
        ∀ v, raw.get? "metadata.kubespray_groups".toList = some v → ∃ t, v = .str t := by
  have himage := @get?_parseDict raw "image".toList '_' (by decide) "id".toList (by decide)
  have hflavor := @get?_parseDict raw "flavor".toList '_' (by decide) "name".toList (by decide)
  have hgroups := @get?_parseDict raw "metadata".toList '.' (by decide)
    "kubespray_groups".toList (by decide)
  have hkeys : "image".toList ++ '_' :: "id".toList = "image_id".toList ∧
      "flavor".toList ++ '_' :: "name".toList = "flavor_name".toList ∧
      "metadata".toList ++ '.' :: "kubespray_groups".toList
        = "metadata.kubespray_groups".toList := by decide
  rw [hkeys.1] at himage
  rw [hkeys.2.1] at hflavor
  rw [hkeys.2.2] at hgroups
  simp only [openstackGroups, exists_bind_ok_iff, subscript_eq_ok_iff, himage, hflavor]
  rw [← hgroups, ← exists_kubesprayGroups_iff]
  constructor
  · rintro ⟨image, hi, flavor, hf, groups, hg, -⟩
    exact ⟨⟨image, hi⟩, ⟨flavor, hf⟩, groups, hg⟩
  · rintro ⟨⟨image, hi⟩, ⟨flavor, hf⟩, groups, hg⟩
    exact ⟨image, hi, flavor, hf, groups, hg, _, rfl⟩

/-- **Which instances become hosts.** -/
theorem exists_openstackHost_iff :
    (∃ h, openstackHost repr raw = .ok h) ↔ ServerAttributes raw := by
  have hinner : (∃ h, openstackHost repr raw = .ok h) ↔
      ∃ h, openstackInstance repr raw = .ok h := by
    rw [openstackHost, exists_bind_ok_iff]
    exact exists_congr fun h => and_iff_left ⟨_, rfl⟩
  rw [hinner]
  simp only [openstackInstance, exists_bind_ok_iff, subscript_eq_ok_iff]
  constructor
  · rintro ⟨name, hname, v4, hv4, v6, hv6, ip, hip, id, hid, pair, hpair, network, hnetwork,
      port, hport, host, hhost, volumes, hvolumes, groups, hgroups, -⟩
    obtain ⟨himage, hflavor, hkubespray⟩ := exists_openstackGroups_iff.mp ⟨groups, hgroups⟩
    exact
      { present := by
          simp only [serverKeys, List.forall_mem_cons]
          exact ⟨⟨_, hname⟩, ⟨_, hv4⟩, ⟨_, hv6⟩, ⟨_, hip⟩, ⟨_, hid⟩, ⟨_, hpair⟩, ⟨_, hport⟩,
            himage, hflavor, fun _ hno => absurd hno List.not_mem_nil⟩
        network := exists_parseAttrList_iff.mp ⟨network, hnetwork⟩
        preferred := fun hprefer v hv => by
          obtain rfl := Option.some.inj (hv.symm.trans hv6)
          exact exists_ansibleHost_iff.mp ⟨host, hhost⟩ hprefer
        volumes := exists_hasVolumes_iff.mp ⟨volumes, hvolumes⟩
        groups := hkubespray }
  · rintro ⟨hpresent, hnetwork, hpreferred, hvolumes, hgroups⟩
    simp only [serverKeys, List.forall_mem_cons] at hpresent
    obtain ⟨⟨name, hname⟩, ⟨v4, hv4⟩, ⟨v6, hv6⟩, ⟨ip, hip⟩, ⟨id, hid⟩, ⟨pair, hpair⟩,
      ⟨port, hport⟩, himage, hflavor, -⟩ := hpresent
    obtain ⟨network, hnetwork⟩ := exists_parseAttrList_iff.mpr hnetwork
    obtain ⟨host, hhost⟩ := (@exists_ansibleHost_iff raw v4 v6).mpr fun hprefer =>
      hpreferred hprefer v6 hv6
    obtain ⟨volumes, hvolumes⟩ := exists_hasVolumes_iff.mpr hvolumes
    obtain ⟨groups, hgroups⟩ :=
      (@exists_openstackGroups_iff repr raw).mpr ⟨himage, hflavor, hgroups⟩
    exact ⟨name, hname, v4, hv4, v6, hv6, ip, hip, id, hid, pair, hpair, network, hnetwork,
      port, hport, host, hhost, volumes, hvolumes, groups, hgroups, _, rfl⟩

/-! ### Resources of the two types -/

/-- The attributes that a resource of a type must have. Those of other types are not read. -/
def HostAttributes (type : Text) (raw : Attributes) : Prop :=
  (type = equinixType → DeviceAttributes raw) ∧ (type = computeType → ServerAttributes raw)

/-- **What `iterhosts` needs of a record**: it raises nothing exactly when the record has the
attributes of its type. -/
theorem hostOf_ok_iff {r : Record} {type : Text} (htype : r.type = some type) :
    (∀ item, hostOf repr (.ok r) = some item → ∃ h, item = .ok h) ↔
      HostAttributes type r.attributes := by
  have hparsed : ∀ {parsed : Except Raised Host}, hostOf repr (.ok r) = some parsed →
      ((∀ item, hostOf repr (.ok r) = some item → ∃ h, item = .ok h) ↔ ∃ h, parsed = .ok h) := by
    intro parsed heq
    rw [heq]
    exact ⟨fun h => h parsed rfl, fun h item hitem => Option.some.inj hitem ▸ h⟩
  have hne : computeType ≠ equinixType := by decide
  rw [HostAttributes]
  by_cases hequinix : type = equinixType
  · subst hequinix
    rw [hparsed (hostOf_equinix htype), exists_equinixMetalDevice_iff]
    exact ⟨fun h => ⟨fun _ => h, fun heq => absurd heq.symm hne⟩, fun h => h.1 rfl⟩
  by_cases hcompute : type = computeType
  · subst hcompute
    rw [hparsed (hostOf_compute htype), exists_openstackHost_iff]
    exact ⟨fun h => ⟨fun heq => absurd heq hne, fun _ => h⟩, fun h => h.2 rfl⟩
  · refine iff_of_true (fun item hitem => ?_)
      ⟨fun heq => absurd heq hequinix, fun heq => absurd heq hcompute⟩
    have hparser : parser repr type = none := by
      rw [parser, if_neg hequinix, if_neg hcompute]
    simp only [hostOf, dispatch_of_type htype, hparser] at hitem
    cases hitem

/-! ### Names -/

/-- The attribute that names the hosts of a type. -/
def nameAttribute (type : Text) : Option Text :=
  if type = computeType then some "name".toList
  else if type = equinixType then some "hostname".toList
  else none

/-- The name that a record gives its host. -/
def Record.hostName (r : Record) : Option Json :=
  (r.type.bind nameAttribute).bind fun attr => r.attributes.get? attr

/-- The host that is made of a record has the record's name. -/
theorem hostName_of_hostOf {r : Record} {h : Host} (hok : hostOf repr (.ok r) = some (.ok h)) :
    r.hostName = some h.name := by
  rw [Record.hostName]
  rcases type_of_hostOf hok with htype | htype
  · rw [hostOf_equinix htype, Option.some.injEq] at hok
    rw [htype, Option.bind_some, nameAttribute, if_neg (by decide), if_pos rfl]
    exact (equinixMetalDevice_eq_ok hok).1
  · rw [hostOf_compute htype, Option.some.injEq] at hok
    rw [htype, Option.bind_some, nameAttribute, if_pos rfl]
    exact (openstackHost_eq_ok hok).name

/-- A host, or an exception, is made of every record of a host type. -/
theorem exists_hostOf_of_type {r : Record} {attr : Text}
    (h : r.type.bind nameAttribute = some attr) : ∃ item, hostOf repr (.ok r) = some item := by
  obtain ⟨type, htype, hname⟩ := Option.bind_eq_some_iff.mp h
  rw [nameAttribute] at hname
  split_ifs at hname with hcompute hequinix
  · exact ⟨_, hostOf_compute (htype.trans (congrArg some hcompute))⟩
  · exact ⟨_, hostOf_equinix (htype.trans (congrArg some hequinix))⟩

end Kubespray.Terraform
