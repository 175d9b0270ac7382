import Kubespray.Terraform.Flattening

/-!
# What the Parsers Read

The parser of OpenStack instances passes over most of the attributes that a state file
has. Among those it reads, only the security groups are a list of strings, and of these it
takes the values and not the keys. The parser of Equinix devices does the same with the
facilities and the tags. So a host does not depend on the random keys, if the attributes
have the types that the provider gives them.

## Main results

* `SameReadings.openstackHost_eq`: instances with the same readings make the same host.
* `DeviceShape.equinixMetalDevice_eq`: neither does a device depend on the random keys.
* `ProviderEntry.hostOf_read`, `ipOf_read`: what a step of `iterhosts` or `iterips` makes of
  an entry does not depend on the random numbers.
-/

namespace Kubespray.Terraform

open OrderedDict Fallible

/-! ### The keys that are read -/

/-- The maps and lists that `openstack_host` reads with their keys, and where these are
split. -/
def readMaps : List (Text × Char) :=
  [("metadata".toList, '.'), ("network".toList, '.'), ("flavor".toList, '_'), ("image".toList, '_')]

/-- The keys that `openstack_host` reads, other than those of the security groups. -/
def isRead (key : Text) : Bool :=
  '.' ∉ key || key = "volume.#".toList || isVolumeDevice key ||
    readMaps.any fun m => under m.1 m.2 key

/-- Two instances that `openstack_host` cannot tell apart. -/
structure SameReadings (raw raw' : Attributes) : Prop where
  retained : raw.retain isRead = raw'.retain isRead
  securityGroups : parseList raw "security_groups".toList '.'
    = parseList raw' "security_groups".toList '.'

section Retained

variable {p : Text → Bool} {raw raw' : Attributes} (h : raw.retain p = raw'.retain p)
include h

/-- A subscript that passes is the same. -/
theorem subscript_congr {key : Text} (hkey : p key = true) :
    subscript raw key = subscript raw' key := by
  rw [subscript, subscript, get?_eq_of_retain h hkey]

/-- The entries below a name are the same when they pass. -/
theorem parsePrefix_congr {start : Text} {sep : Char}
    (hbelow : ∀ key, under start sep key = true → p key = true) :
    parsePrefix raw start sep = parsePrefix raw' start sep := by
  have hretained : ∀ d : Attributes,
      parsePrefix d start sep = parsePrefix (d.retain p) start sep := by
    intro d
    rw [parsePrefix, parsePrefix, entries_retain, List.filterMap_filter]
    refine List.filterMap_congr fun e _ => ?_
    split_ifs with hp
    · rfl
    · cases hrest : restOfKey start sep e.1 with
      | none => rfl
      | some rest => exact absurd (hbelow e.1 (by rw [under, hrest]; rfl)) hp
  rw [hretained raw, hretained raw', h]

/-- The volume devices are the same when they pass. -/
theorem volumeDevices_congr (hdevice : ∀ key, isVolumeDevice key = true → p key = true) :
    volumeDevices raw = volumeDevices raw' := by
  have hretained : ∀ d : Attributes, volumeDevices d = volumeDevices (d.retain p) := by
    intro d
    rw [volumeDevices, volumeDevices, entries_retain, List.filter_filter]
    refine congrArg _ (List.filter_congr fun e _ => ?_)
    cases hd : isVolumeDevice e.1 with
    | false => rfl
    | true => rw [hdevice e.1 hd]; rfl
  rw [hretained raw, hretained raw', h]

end Retained

namespace SameReadings

variable {repr : Json → Text} {raw raw' : Attributes} (h : SameReadings raw raw')
include h

/-- They have the same values of the keys that are read. -/
theorem get?_eq {key : Text} (hkey : isRead key = true) : raw.get? key = raw'.get? key :=
  get?_eq_of_retain h.retained hkey

/-- They have the same maps. -/
theorem parsePrefix_eq {m : Text × Char} (hm : m ∈ readMaps) :
    parsePrefix raw m.1 m.2 = parsePrefix raw' m.1 m.2 := by
  refine parsePrefix_congr h.retained fun key hkey => ?_
  have hany : readMaps.any (fun m => under m.1 m.2 key) = true :=
    List.any_eq_true.mpr ⟨m, hm, hkey⟩
  rw [isRead, hany, Bool.or_true]

/-- They have the same volume devices. -/
theorem volumeDevices_eq : volumeDevices raw = volumeDevices raw' := by
  refine volumeDevices_congr h.retained fun key hkey => ?_
  rw [isRead, hkey, Bool.or_true, Bool.true_or]

/-- They have the same flavor and the same image. -/
theorem parseDict_eq : parseDict raw "flavor".toList '_' = parseDict raw' "flavor".toList '_' ∧
    parseDict raw "image".toList '_' = parseDict raw' "image".toList '_' ∧
    parseDict raw "metadata".toList '.' = parseDict raw' "metadata".toList '.' :=
  ⟨congrArg ofList (h.parsePrefix_eq (m := ("flavor".toList, '_')) (by decide)),
    congrArg ofList (h.parsePrefix_eq (m := ("image".toList, '_')) (by decide)),
    congrArg ofList (h.parsePrefix_eq (m := ("metadata".toList, '.')) (by decide))⟩

/-- They have the same variables in the dictionary literal. -/
theorem openstackAttrs_eq : openstackAttrs raw = openstackAttrs raw' := by
  obtain ⟨hflavor, himage, -⟩ := h.parseDict_eq
  funext metadata network accessIpV4 accessIpV6 ip id keyPair port
  rw [openstackAttrs, openstackAttrs, hflavor, himage, h.securityGroups,
    h.get?_eq (by decide), @get?_eq _ _ h "floating_ip".toList (by decide)]

/-- They have the same variables that are added later. -/
theorem openstackLaterAttrs_eq : openstackLaterAttrs raw = openstackLaterAttrs raw' := by
  funext metadata host volumes attrs
  rw [openstackLaterAttrs, openstackLaterAttrs, h.volumeDevices_eq]
  simp only [copyOptional, @get?_eq _ _ h "metadata.ssh_user".toList (by decide),
    @get?_eq _ _ h "metadata.ssh_port".toList (by decide)]

/-- They have the same groups. -/
theorem openstackGroups_eq : openstackGroups repr raw = openstackGroups repr raw' := by
  obtain ⟨hflavor, himage, -⟩ := h.parseDict_eq
  funext metadata
  rw [openstackGroups, openstackGroups, hflavor, himage, h.get?_eq (by decide)]

/-- **Instances with the same readings make the same host.** -/
theorem openstackHost_eq : openstackHost repr raw = openstackHost repr raw' := by
  have hsubscript : ∀ key, isRead key = true → subscript raw key = subscript raw' key :=
    fun _ => subscript_congr h.retained
  have hnetwork : parseAttrList raw "network".toList '.'
      = parseAttrList raw' "network".toList '.' := by
    rw [parseAttrList, parseAttrList, h.parsePrefix_eq (m := ("network".toList, '.')) (by decide)]
  have hhost : ansibleHost raw = ansibleHost raw' := by
    funext accessIpV4 accessIpV6
    rw [ansibleHost, ansibleHost, holds, holds, h.get?_eq (by decide)]
  have hvolumes : hasVolumes raw = hasVolumes raw' := by
    rw [hasVolumes, hasVolumes, h.get?_eq (by decide)]
  rw [openstackHost, openstackHost, openstackInstance, openstackInstance, h.parseDict_eq.2.2,
    hnetwork, hhost, hvolumes, h.openstackAttrs_eq, h.openstackLaterAttrs_eq,
    h.openstackGroups_eq, hsubscript "name".toList (by decide),
    hsubscript "access_ip_v4".toList (by decide), hsubscript "access_ip_v6".toList (by decide),
    hsubscript "network.0.fixed_ip_v4".toList (by decide), hsubscript "id".toList (by decide),
    hsubscript "key_pair".toList (by decide), hsubscript "network.0.port".toList (by decide)]

end SameReadings

/-! ### Instances of the provider -/

/-- The attributes of an OpenStack instance in a version 4 state, as far as the provider's
schema matters: names are distinct and have no dots; the attributes of the metadata, of
the flavor and of the image are not lists; security groups are texts; and the blocks of a
network have scalar fields only. -/
structure InstanceShape (fields : List (Text × Json)) : Prop where
  names : (fields.map Prod.fst).Nodup
  noDots : ∀ f ∈ fields, '.' ∉ f.1
  noLists : ∀ name xs, (name, .arr xs) ∈ fields →
    name ≠ "metadata".toList ∧ ¬ "flavor_".toList <+: name ∧ ¬ "image_".toList <+: name
  securityGroups : ∀ xs, ("security_groups".toList, .arr xs) ∈ fields →
    ∃ ts : List Text, xs = ts.map .str
  network : ∀ blocks, ("network".toList, .arr blocks) ∈ fields →
    ∀ block ∈ blocks, ∃ inner, block = .obj inner ∧ ∀ e ∈ inner, e.2.isScalar = true

/-- Blocks with scalar fields have no random keys. -/
theorem slotsElements_of_scalars {path : Text} {i : ℕ} {blocks : List Json}
    (h : ∀ block ∈ blocks, ∃ inner, block = .obj inner ∧ ∀ e ∈ inner, e.2.isScalar = true) :
    slotsElements path i blocks = [] := by
  have hscalars : ∀ (start : Text) (inner : List (Text × Json)),
      (∀ e ∈ inner, e.2.isScalar = true) → slotsFields start inner = [] := by
    intro start inner hinner
    refine List.eq_nil_iff_forall_not_mem.mpr fun s hs => ?_
    obtain ⟨key, xs, hmem, -⟩ := slotsFields_eq hs
    exact absurd (hinner _ hmem) Bool.false_ne_true
  induction blocks generalizing i with
  | nil => rfl
  | cons block blocks ih =>
      obtain ⟨⟨inner, rfl, hinner⟩, hrest⟩ := List.forall_mem_cons.mp h
      rw [slotsElements, slots, hscalars _ _ hinner, ih hrest]
      rfl

/-- A text that ends in a numeral ends in a digit. -/
theorem getLast?_append_numeral (s : Text) (n : ℕ) :
    ∃ c, (s ++ numeral n).getLast? = some c ∧ c.isDigit = true := by
  have hne : numeral n ≠ [] := Nat.toDigits_ne_nil
  refine ⟨(numeral n).getLast hne, ?_,
    Nat.isDigit_of_mem_toDigits (by decide) (by decide) (List.getLast_mem hne)⟩
  rw [List.getLast?_append_of_ne_nil _ hne, List.getLast?_eq_some_getLast hne]

/-- A random key is not the key of a volume device. -/
theorem isVolumeDevice_of_digit {key : Text} {c : Char} (hlast : key.getLast? = some c)
    (hdigit : c.isDigit = true) : isVolumeDevice key = false := by
  have hline : (if key.getLast? = some '\n' then key.dropLast else key) = key := by
    rw [if_neg]
    rintro hbreak
    rw [hlast, Option.some.injEq] at hbreak
    rw [hbreak] at hdigit
    exact absurd hdigit (by decide)
  rw [isVolumeDevice, hline, Bool.eq_false_iff]
  intro htrue
  obtain ⟨-, hsuffix, -⟩ := of_decide_eq_true htrue
  obtain ⟨before, rfl⟩ := List.isSuffixOf_iff_suffix.mp hsuffix
  rw [List.getLast?_append_of_ne_nil _ (by decide)] at hlast
  cases hlast
  exact absurd hdigit (by decide)

/-- What stands below another name is not read as part of a map whose keys are split at an
underscore. -/
theorem under_underscore {start name rest : Text} (hstart : '.' ∉ start) (hsep : '_' ∉ start)
    (hne : ¬ start ++ ['_'] <+: name) :
    under start '_' (name ++ '.' :: rest) = false := by
  rw [Bool.eq_false_iff, ne_eq, under_eq_true_iff hsep]
  rintro ⟨tail, heq, -⟩
  have hstartPrefix : start ++ ['_'] <+: name ++ '.' :: rest :=
    ⟨tail, by rw [heq, List.append_assoc]; rfl⟩
  have hnamePrefix : name ++ ['.'] <+: name ++ '.' :: rest := ⟨rest, by simp⟩
  have hnoDot : '.' ∉ start ++ ['_'] := by
    rw [List.mem_append, not_or]
    exact ⟨hstart, by decide⟩
  rcases List.prefix_or_prefix_of_prefix hstartPrefix hnamePrefix with hle | hle
  · rcases List.prefix_concat_iff.mp hle with hfull | hshort
    · exact hnoDot (hfull ▸ List.mem_append_right _ List.mem_cons_self)
    · exact hne hshort
  · exact hnoDot (hle.subset (List.mem_append_right _ List.mem_cons_self))

/-- **The random keys of an instance are not read**, but for those of the security groups. -/
theorem InstanceShape.rejects {fields : List (Text × Json)} (h : InstanceShape fields) :
    Rejects isRead (slotsFields [] fields) := by
  intro s hs n
  obtain ⟨name, xs, hmem, hslot, u, rfl⟩ := slotsFields_eq hs
  rw [List.nil_append] at hslot ⊢
  have hname := h.noDots _ hmem
  obtain ⟨hmetadata, hflavor, himage⟩ := h.noLists name xs hmem
  have hnetwork : name ≠ "network".toList := by
    rintro rfl
    rw [slotsElements_of_scalars (h.network xs hmem)] at hslot
    cases hslot
  obtain ⟨c, hlast, hdigit⟩ := getLast?_append_numeral (name ++ '.' :: (u ++ ['.'])) n
  have hvolume := isVolumeDevice_of_digit hlast hdigit
  have hlength : name ++ '.' :: (u ++ ['.']) ++ numeral n ≠ "volume.#".toList := by
    intro heq
    rw [heq] at hlast
    cases hlast
    exact absurd hdigit (by decide)
  have hdot : '.' ∈ name ++ '.' :: (u ++ ['.']) ++ numeral n :=
    List.mem_append_left _ (List.mem_append_right _ List.mem_cons_self)
  have hmaps : readMaps.any (fun m => under m.1 m.2
      (name ++ '.' :: (u ++ ['.']) ++ numeral n)) = false := by
    rw [List.append_assoc, List.cons_append, readMaps, List.any_cons, List.any_cons,
      List.any_cons, List.any_cons, List.any_nil, under_of_other (by decide) hname hmetadata,
      under_of_other (by decide) hname hnetwork,
      under_underscore (by decide) (by decide) hflavor,
      under_underscore (by decide) (by decide) himage]
    rfl
  rw [isRead, hvolume, hmaps, decide_eq_false (not_not.mpr hdot), decide_eq_false hlength]
  rfl

/-! ### Entries -/

/-- Flattening fails or succeeds whatever the random numbers are. -/
theorem convertFields_outcome (draw draw' : ℕ → ℕ) (fields : List (Text × Json)) :
    (∃ e, convertFields draw 0 [] OrderedDict.empty fields = .error e ∧
      convertFields draw' 0 [] OrderedDict.empty fields = .error e) ∨
    ∃ a b, convertFields draw 0 [] OrderedDict.empty fields = .ok a ∧
      convertFields draw' 0 [] OrderedDict.empty fields = .ok b ∧
      ∀ p, Rejects p (slotsFields [] fields) → a.1.retain p = b.1.retain p := by
  have hkept := fun p => kept_convertFields p draw draw' 0 0 [] OrderedDict.empty
    OrderedDict.empty rfl fields
  cases hx : convertFields draw 0 [] OrderedDict.empty fields with
  | error e =>
      have hfails := hkept (fun _ => false) fun _ _ _ => rfl
      rw [hx] at hfails
      cases hy : convertFields draw' 0 [] OrderedDict.empty fields with
      | error e' =>
          rw [hy] at hfails
          exact Or.inl ⟨e, rfl, congrArg Except.error (Except.error.inj hfails).symm⟩
      | ok b =>
          rw [hy] at hfails
          cases hfails
  | ok a =>
      have hsucceeds := hkept (fun _ => false) fun _ _ _ => rfl
      rw [hx] at hsucceeds
      cases hy : convertFields draw' 0 [] OrderedDict.empty fields with
      | error e =>
          rw [hy] at hsucceeds
          cases hsucceeds
      | ok b =>
          refine Or.inr ⟨a, b, rfl, rfl, fun p hp => ?_⟩
          have hsame := hkept p hp
          rw [hx, hy] at hsame
          exact Except.ok.inj hsame

section Flattened

variable {draw draw' : ℕ → ℕ} {fields : List (Text × Json)} {a b : Attributes × ℕ}
  (ha : convertFields draw 0 [] OrderedDict.empty fields = .ok a)
  (hb : convertFields draw' 0 [] OrderedDict.empty fields = .ok b)
  (hretained : ∀ p, Rejects p (slotsFields [] fields) → a.1.retain p = b.1.retain p)
include ha hb hretained

/-- The values below a name do not depend on the random numbers, if a list under that name
consists of texts. -/
theorem parseList_same {group : Text} (hgroup : '.' ∉ group)
    (hnames : (fields.map Prod.fst).Nodup) (hdots : ∀ f ∈ fields, '.' ∉ f.1)
    (htexts : ∀ xs, (group, .arr xs) ∈ fields → ∃ ts : List Text, xs = ts.map .str) :
    parseList a.1 group '.' = parseList b.1 group '.' := by
  by_cases hlist : ∃ xs, (group, .arr xs) ∈ fields
  · obtain ⟨xs, hmem⟩ := hlist
    obtain ⟨ts, rfl⟩ := htexts xs hmem
    rw [parseList_of_strings hgroup hnames hdots hmem ha,
      parseList_of_strings hgroup hnames hdots hmem hb]
  · rw [parseList_eq, parseList_eq, hretained (under group '.')]
    intro s hs n
    obtain ⟨name, xs, hmem, -, u, rfl⟩ := slotsFields_eq hs
    have hname : name ≠ group := by
      rintro rfl
      exact hlist ⟨xs, hmem⟩
    rw [List.nil_append, List.append_assoc, List.cons_append]
    exact under_of_other hgroup (hdots _ hmem) hname _

/-- **The readings of an instance do not depend on the random numbers.** -/
theorem InstanceShape.sameReadings (h : InstanceShape fields) : SameReadings a.1 b.1 :=
  ⟨hretained _ h.rejects,
    parseList_same ha hb hretained (by decide) h.names h.noDots h.securityGroups⟩

end Flattened

/-! ### Devices of the provider -/

/-- The attributes of an Equinix device in a version 4 state, as far as the provider's schema
matters: names are distinct and have no dots, and facilities and tags are texts. -/
structure DeviceShape (fields : List (Text × Json)) : Prop where
  names : (fields.map Prod.fst).Nodup
  noDots : ∀ f ∈ fields, '.' ∉ f.1
  facilities : ∀ xs, ("facilities".toList, .arr xs) ∈ fields → ∃ ts : List Text, xs = ts.map .str
  tags : ∀ xs, ("tags".toList, .arr xs) ∈ fields → ∃ ts : List Text, xs = ts.map .str

/-- The keys that `equinix_metal_device` reads, other than those of the facilities and of the
tags. -/
def isDeviceRead (key : Text) : Bool :=
  '.' ∉ key || key ∈ ["network.0.address".toList, "network.1.address".toList,
    "network.2.address".toList]

/-- No random key is among them: it has a dot, and ends in a digit. -/
theorem rejects_isDeviceRead (fields : List (Text × Json)) :
    Rejects isDeviceRead (slotsFields [] fields) := by
  intro s hs n
  obtain ⟨name, xs, -, -, u, rfl⟩ := slotsFields_eq hs
  rw [List.nil_append]
  obtain ⟨c, hlast, hdigit⟩ := getLast?_append_numeral (name ++ '.' :: (u ++ ['.'])) n
  have hdot : '.' ∈ name ++ '.' :: (u ++ ['.']) ++ numeral n :=
    List.mem_append_left _ (List.mem_append_right _ List.mem_cons_self)
  have hnetwork : name ++ '.' :: (u ++ ['.']) ++ numeral n ∉ ["network.0.address".toList,
      "network.1.address".toList, "network.2.address".toList] := by
    intro hmem
    simp only [List.mem_cons, List.not_mem_nil, or_false] at hmem
    rcases hmem with heq | heq | heq <;>
      · rw [heq] at hlast
        cases hlast
        exact absurd hdigit (by decide)
  rw [isDeviceRead, decide_eq_false (not_not.mpr hdot), decide_eq_false hnetwork]
  rfl

/-- **A device does not depend on the random numbers.** -/
theorem DeviceShape.equinixMetalDevice_eq {repr : Json → Text} {draw draw' : ℕ → ℕ}
    {fields : List (Text × Json)} (h : DeviceShape fields) {a b : Attributes × ℕ}
    (ha : convertFields draw 0 [] OrderedDict.empty fields = .ok a)
    (hb : convertFields draw' 0 [] OrderedDict.empty fields = .ok b)
    (hretained : ∀ p, Rejects p (slotsFields [] fields) → a.1.retain p = b.1.retain p) :
    equinixMetalDevice repr a.1 = equinixMetalDevice repr b.1 := by
  have hsubscript : ∀ key, isDeviceRead key = true → subscript a.1 key = subscript b.1 key :=
    fun _ => subscript_congr (hretained _ (rejects_isDeviceRead fields))
  have hfacilities := parseList_same ha hb hretained (by decide) h.names h.noDots h.facilities
  have htags := parseList_same ha hb hretained (by decide) h.names h.noDots h.tags
  have hattrs : equinixAttrs a.1 = equinixAttrs b.1 := by
    funext name id operatingSystem plan projectId state network0 network1 network2 locked
    rw [equinixAttrs, equinixAttrs, hfacilities, htags]
  rw [equinixMetalDevice, equinixMetalDevice, hattrs, htags,
    hsubscript "hostname".toList (by decide), hsubscript "id".toList (by decide),
    hsubscript "operating_system".toList (by decide), hsubscript "locked".toList (by decide),
    hsubscript "plan".toList (by decide), hsubscript "project_id".toList (by decide),
    hsubscript "state".toList (by decide), hsubscript "network.0.address".toList (by decide),
    hsubscript "network.1.address".toList (by decide),
    hsubscript "network.2.address".toList (by decide)]

/-! ### Steps -/

/-- The type of the resource of an entry. -/
def Entry.type : Entry → Option Text
  | .flat _ key _ | .nested _ key _ => (splitOnce '.' key).map Prod.fst
  | .failing _ => none

/-- An entry of a state without Equinix devices, whose OpenStack instances have the
attributes of the provider. -/
structure OpenstackEntry (e : Entry) : Prop where
  noEquinix : e.type ≠ some equinixType
  shape : e.type = some computeType → ∀ moduleName key fields,
    e = .nested moduleName key (.obj fields) → InstanceShape fields

/-- An entry of a state whose hosts have the attributes of the provider. -/
structure ProviderEntry (e : Entry) : Prop where
  instance_ : e.type = some computeType → ∀ moduleName key fields,
    e = .nested moduleName key (.obj fields) → InstanceShape fields
  device : e.type = some equinixType → ∀ moduleName key fields,
    e = .nested moduleName key (.obj fields) → DeviceShape fields

/-- So has an entry of a state without devices. -/
theorem OpenstackEntry.provider {e : Entry} (h : OpenstackEntry e) : ProviderEntry e :=
  ⟨h.shape, fun htype => absurd htype h.noEquinix⟩

/-- The random numbers change nothing in the reading of an entry, or it is an instance of a
version 4 state that can be flattened with both. -/
theorem read_outcome (e : Entry) (draw draw' : ℕ → ℕ) :
    e.read draw = e.read draw' ∨
    ∃ moduleName key fields a b, e = .nested moduleName key (.obj fields) ∧
      e.read draw = .ok ⟨moduleName, key, a.1⟩ ∧ e.read draw' = .ok ⟨moduleName, key, b.1⟩ ∧
      convertFields draw 0 [] OrderedDict.empty fields = .ok a ∧
      convertFields draw' 0 [] OrderedDict.empty fields = .ok b ∧
      ∀ p, Rejects p (slotsFields [] fields) → a.1.retain p = b.1.retain p := by
  cases e with
  | flat | failing => exact Or.inl rfl
  | nested moduleName key attributes =>
      cases attributes with
      | null | bool | int | float | str | arr => exact Or.inl rfl
      | obj fields =>
          rw [Entry.read, Entry.read, convert, convert]
          rcases convertFields_outcome draw draw' fields with
            ⟨e, hx, hy⟩ | ⟨a, b, ha, hb, hretained⟩
          · rw [hx, hy]
            exact Or.inl rfl
          · rw [ha, hb]
            exact Or.inr ⟨moduleName, key, fields, a, b, rfl, rfl, rfl, ha, hb, hretained⟩

/-- **What `iterhosts` makes of an entry does not depend on the random numbers.** -/
theorem ProviderEntry.hostOf_read {repr : Json → Text} {e : Entry} (h : ProviderEntry e)
    (draw draw' : ℕ → ℕ) : hostOf repr (e.read draw) = hostOf repr (e.read draw') := by
  rcases read_outcome e draw draw' with
    heq | ⟨moduleName, key, fields, a, b, rfl, hread, hread', ha, hb, hretained⟩
  · rw [heq]
  · rw [hread, hread']
    cases htype : (splitOnce '.' key).map Prod.fst with
    | none =>
        rw [Option.map_eq_none_iff] at htype
        simp only [hostOf, dispatch, htype]
    | some type =>
        by_cases hequinix : type = equinixType
        · subst hequinix
          rw [@hostOf_equinix _ ⟨moduleName, key, a.1⟩ htype,
            @hostOf_equinix _ ⟨moduleName, key, b.1⟩ htype]
          exact congrArg some
            ((h.device htype _ _ _ rfl).equinixMetalDevice_eq ha hb hretained)
        by_cases hcompute : type = computeType
        · subst hcompute
          have hsame := (h.instance_ htype _ _ _ rfl).sameReadings ha hb hretained
          rw [@hostOf_compute _ ⟨moduleName, key, a.1⟩ htype,
            @hostOf_compute _ ⟨moduleName, key, b.1⟩ htype]
          exact congrArg some hsame.openstackHost_eq
        · have hparser : parser repr type = none := by
            rw [parser, if_neg hequinix, if_neg hcompute]
          simp only [hostOf, @dispatch_of_type _ ⟨moduleName, key, a.1⟩ _ htype,
            @dispatch_of_type _ ⟨moduleName, key, b.1⟩ _ htype, hparser]

/-- **What `iterips` makes of an entry does not depend on the random numbers.** -/
theorem ipOf_read (e : Entry) (draw draw' : ℕ → ℕ) :
    ipOf (e.read draw) = ipOf (e.read draw') := by
  rcases read_outcome e draw draw' with
    heq | ⟨moduleName, key, fields, a, b, rfl, hread, hread', -, -, hretained⟩
  · rw [heq]
  · rw [hread, hread']
    -- all random keys have dots, and the two that are read have none
    have hsame := hretained (fun key => '.' ∉ key) fun s hs n => by
      obtain ⟨name, xs, -, -, u, rfl⟩ := slotsFields_eq hs
      refine decide_eq_false (not_not.mpr (List.mem_append_left _ ?_))
      exact List.mem_append_right _ List.mem_cons_self
    have hips : openstackFloatingIps a.1 = openstackFloatingIps b.1 := by
      rw [openstackFloatingIps, openstackFloatingIps, subscript_congr hsame (by decide),
        subscript_congr hsame (by decide)]
    cases htype : (splitOnce '.' key).map Prod.fst with
    | none =>
        rw [Option.map_eq_none_iff] at htype
        simp only [ipOf, htype]
    | some type =>
        rw [@ipOf_of_type ⟨moduleName, key, a.1⟩ _ htype,
          @ipOf_of_type ⟨moduleName, key, b.1⟩ _ htype, hips]

end Kubespray.Terraform
