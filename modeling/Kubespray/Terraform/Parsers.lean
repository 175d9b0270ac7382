import Kubespray.Terraform.State

/-!
# Reading Resources

The parsers of `terraform.py`: each makes a host of a resource, that is a name, variables
and group names. They read single attributes by their flat keys, and collect the entries
of lists and maps back with `_parse_prefix`, by splitting keys at their first separator.
-/

namespace Kubespray.Terraform

open OrderedDict

/-! ### Lists and maps -/

/-- `text.split(sep, 1)`, when there is a separator: the text before the first one, and all
that follows it. -/
def splitOnce (sep : Char) (t : Text) : Option (Text × Text) :=
  match t.dropWhile (· ≠ sep) with
  | [] => none
  | _ :: rest => some (t.takeWhile (· ≠ sep), rest)

/-- What `_parse_prefix` yields for one key: what follows the name `start`, if the key is
below that name. The key of the length of a list is passed over. -/
def restOfKey (start : Text) (sep : Char) (compkey : Text) : Option Text :=
  match splitOnce sep compkey with
  | some (current, rest) => if current ≠ start ∨ rest = ['#'] then none else some rest
  | none => none

/-- `_parse_prefix`: the entries below a name, in the order in which the attributes stand,
with their keys cut off behind the separator. -/
def parsePrefix (source : Attributes) (start : Text) (sep : Char) : List (Text × Json) :=
  source.entries.filterMap fun e => (restOfKey start sep e.1).map fun rest => (rest, e.2)

/-- A dictionary as a value. -/
def toJson (d : Attributes) : Json :=
  .obj d.entries

/-- `parse_attr_list`: the entries below a name as a list of dictionaries, one for each
index. It fails at a key that has no second separator. -/
def parseAttrList (source : Attributes) (start : Text) (sep : Char) :
    Except Raised (List Json) := do
  let attrs ← (parsePrefix source start sep).foldlM
    (fun (attrs : OrderedDict Text Attributes) e =>
      match splitOnce sep e.1 with
      | some (index, key) =>
        .ok (attrs.set index (((attrs.get? index).getD OrderedDict.empty).set key e.2))
      | none => .error .valueError)
    OrderedDict.empty
  return attrs.entries.map fun e => toJson e.2

/-- `parse_dict`: the entries below a name as a dictionary. -/
def parseDict (source : Attributes) (start : Text) (sep : Char) : Attributes :=
  ofList (parsePrefix source start sep)

/-- `parse_list`: the values of the entries below a name, whatever their keys are. -/
def parseList (source : Attributes) (start : Text) (sep : Char) : List Json :=
  (parsePrefix source start sep).map Prod.snd

/-- `parse_bool`, which looks at the first letter of a text only. An empty text has none,
and a value of another type has no `lower`. -/
def parseBool : Json → Except Raised Bool
  | .bool b => .ok b
  | .str [] => .error .indexError
  | .str (c :: _) =>
    if c = 't' ∨ c = 'T' then .ok true
    else if c = 'f' ∨ c = 'F' then .ok false
    else .error .valueError
  | .null | .int _ | .float _ _ _ | .arr _ | .obj _ => .error .attributeError

/-- The digits of value zero, by their code points. Nine more follow each of them, so these
stand for all characters of the category of decimal digits. -/
def decimalZeros : List ℕ := [
  0x30, 0x660, 0x6f0, 0x7c0, 0x966, 0x9e6, 0xa66, 0xae6, 0xb66, 0xbe6, 0xc66, 0xce6, 0xd66,
  0xde6, 0xe50, 0xed0, 0xf20, 0x1040, 0x1090, 0x17e0, 0x1810, 0x1946, 0x19d0, 0x1a80, 0x1a90,
  0x1b50, 0x1bb0, 0x1c40, 0x1c50, 0xa620, 0xa8d0, 0xa900, 0xa9d0, 0xa9f0, 0xaa50, 0xabf0,
  0xff10, 0x104a0, 0x10d30, 0x11066, 0x110f0, 0x11136, 0x111d0, 0x112f0, 0x11450, 0x114d0,
  0x11650, 0x116c0, 0x11730, 0x118e0, 0x11950, 0x11c50, 0x11d50, 0x11da0, 0x16a60, 0x16ac0,
  0x16b50, 0x1d7ce, 0x1d7d8, 0x1d7e2, 0x1d7ec, 0x1d7f6, 0x1e140, 0x1e2f0, 0x1e950, 0x1fbf0]

/-- The value of a decimal digit of any script, which is how far it stands behind the zero
of its script. Other characters have none. -/
def digitValue (c : Char) : Option ℕ :=
  (decimalZeros.find? fun first => first ≤ c.toNat ∧ c.toNat < first + 10).map fun first =>
    c.toNat - first

/-- The rest of a number of which `n` has been read: digits, each of which may stand behind
a single underscore. -/
def readDigits (n : ℕ) : Text → Option ℕ
  | [] => some n
  | '_' :: c :: rest => do readDigits (10 * n + (← digitValue c)) rest
  | c :: rest => do readDigits (10 * n + (← digitValue c)) rest

/-- `int`, of text: an optional sign and decimal digits, with white space around. The first
digit has no underscore before it. -/
def parseInt (t : Text) : Except Raised ℤ :=
  let (negative, digits) : Bool × Text :=
    match strip t with
    | '-' :: rest => (true, rest)
    | '+' :: rest => (false, rest)
    | digits => (false, digits)
  match digits with
  | [] => .error .valueError
  | c :: rest =>
    match (digitValue c).bind fun n => readDigits n rest with
    | some n => .ok (if negative then -n else n)
    | none => .error .valueError

/-- `int(value)`. A floating-point number is cut off towards zero. -/
def pyInt : Json → Except Raised ℤ
  | .bool b => .ok (if b then 1 else 0)
  | .int n => .ok n
  | .float whole _ _ => .ok whole
  | .str t => parseInt t
  | .null | .arr _ | .obj _ => .error .typeError

/-- The replacements of `sanitize_groups` in one name: six characters become underscores. -/
def sanitize (t : Text) : Text :=
  t.map fun c => if c ∈ "+-=./ ".toList then '_' else c

/-- `sanitize_groups`, which replaces in every name of a list. A value that is not a text
has no `replace`. -/
def sanitizeGroups (groups : List Json) : Except Raised (List Text) :=
  groups.mapM fun
    | .str t => .ok (sanitize t)
    | _ => .error .attributeError

/-! ### Hosts -/

/-- Does a value equal this text? -/
def Json.isStr (t : Text) : Json → Bool
  | .str s => s = t
  | _ => false

/-- A host: its name, its variables and its groups. -/
structure Host where
  name : Json
  attrs : Attributes
  groups : List Text

/-- The variables of an Equinix host. -/
def equinixAttrs (raw : Attributes)
    (name id operatingSystem plan projectId state network0 network1 network2 : Json)
    (locked : Bool) : Attributes :=
  let flatcar := operatingSystem.isStr "flatcar_stable".toList
  ofList [
    ("id".toList, id),
    ("facilities".toList, .arr (parseList raw "facilities".toList '.')),
    ("hostname".toList, name),
    ("operating_system".toList, operatingSystem),
    ("locked".toList, .bool locked),
    ("tags".toList, .arr (parseList raw "tags".toList '.')),
    ("plan".toList, plan),
    ("project_id".toList, projectId),
    ("state".toList, state),
    ("ansible_host".toList, network0),
    ("ansible_ssh_user".toList, .str (if flatcar then "core".toList else "root".toList)),
    ("ipv4_address".toList, network0),
    ("public_ipv4".toList, network0),
    ("ipv6_address".toList, network1),
    ("public_ipv6".toList, network1),
    ("private_ipv4".toList, network2),
    ("provider".toList, .str "equinix".toList)]

/-- `equinix_metal_device`: the host of an Equinix device. The tags of the device become
groups as they are, beside those that are made of four of its attributes. -/
def equinixMetalDevice (repr : Json → Text) (raw : Attributes) : Except Raised Host := do
  let name ← subscript raw "hostname".toList
  let id ← subscript raw "id".toList
  let operatingSystem ← subscript raw "operating_system".toList
  let locked ← parseBool (← subscript raw "locked".toList)
  let plan ← subscript raw "plan".toList
  let projectId ← subscript raw "project_id".toList
  let state ← subscript raw "state".toList
  let network0 ← subscript raw "network.0.address".toList
  let network1 ← subscript raw "network.1.address".toList
  let network2 ← subscript raw "network.2.address".toList
  let attrs := equinixAttrs raw name id operatingSystem plan projectId state network0 network1
    network2 locked
  let groups ← sanitizeGroups ([
    .str ("equinix_metal_operating_system_".toList ++ pyStr repr operatingSystem),
    .str ("equinix_metal_locked_".toList ++ pyStr repr (.bool locked)),
    .str ("equinix_metal_state_".toList ++ pyStr repr state),
    .str ("equinix_metal_plan_".toList ++ pyStr repr plan)] ++ parseList raw "tags".toList '.')
  return ⟨name, attrs, groups⟩

/-- The second `openstack_floating_ips`, which replaces the first: a port and its address. -/
def openstackFloatingIps (raw : Attributes) : Except Raised (Json × Json) := do
  let portId ← subscript raw "port_id".toList
  let floatingIp ← subscript raw "floating_ip".toList
  return (portId, floatingIp)

/-- The key is in the dictionary and its value equals the text. -/
def holds (d : Attributes) (key t : Text) : Bool :=
  (d.get? key).any (Json.isStr t)

/-- Does a key match `^volume.*.device$`? `.` does not match a line break, and `$` also
matches before a final one. -/
def isVolumeDevice (key : Text) : Bool :=
  let line := if key.getLast? = some '\n' then key.dropLast else key
  "volume".toList.isPrefixOf line ∧ "device".toList.isSuffixOf line ∧ 13 ≤ line.length ∧
    '\n' ∉ line

/-- The values of the volume devices, in order. -/
def volumeDevices (raw : Attributes) : List Json :=
  (raw.entries.filter fun e => isVolumeDevice e.1).map Prod.snd

/-- `'volume.#' in raw_attrs and int(raw_attrs['volume.#']) > 0`. -/
def hasVolumes (raw : Attributes) : Except Raised Bool :=
  match raw.get? "volume.#".toList with
  | some count => do return decide (0 < (← pyInt count))
  | none => .ok false

/-- Copy an optional attribute to a variable. -/
def copyOptional (raw : Attributes) (key variable_ : Text) (attrs : Attributes) : Attributes :=
  match raw.get? key with
  | some v => attrs.set variable_ v
  | none => attrs

/-- `re.sub("[\\[\\]]", "", value)`. -/
def withoutBrackets : Json → Except Raised Json
  | .str t => .ok (.str (t.filter fun c => c ≠ '[' ∧ c ≠ ']'))
  | _ => .error .typeError

/-- The address for `ansible_host`. -/
def ansibleHost (raw : Attributes) (accessIpV4 accessIpV6 : Json) : Except Raised Json :=
  if holds raw "metadata.prefer_ipv6".toList ['1'] then withoutBrackets accessIpV6
  else .ok accessIpV4

/-- `attrs['metadata'].get('kubespray_groups', "").split(",")`. -/
def kubesprayGroups (metadata : Attributes) : Except Raised (List Text) :=
  match metadata.get? "kubespray_groups".toList with
  | some (.str t) => .ok (t.splitOn ',')
  | some _ => .error .attributeError
  | none => .ok [[]]

/-- The variables of an OpenStack host before the optional ones. -/
def openstackAttrs (raw : Attributes) (metadata : Attributes) (network : List Json)
    (accessIpV4 accessIpV6 ip id keyPair port : Json) : Attributes :=
  ofList [
    ("access_ip_v4".toList, accessIpV4),
    ("access_ip_v6".toList, accessIpV6),
    ("access_ip".toList, accessIpV4),
    ("ip".toList, ip),
    ("flavor".toList, toJson (parseDict raw "flavor".toList '_')),
    ("id".toList, id),
    ("image".toList, toJson (parseDict raw "image".toList '_')),
    ("key_pair".toList, keyPair),
    ("metadata".toList, toJson metadata),
    ("network".toList, .arr network),
    ("region".toList, (raw.get? "region".toList).getD (.str [])),
    ("security_groups".toList, .arr (parseList raw "security_groups".toList '.')),
    ("host_domain".toList, .str "novalocal".toList),
    ("use_host_domain".toList, .bool true),
    ("public_ipv4".toList, accessIpV4),
    ("private_ipv4".toList,
      if (raw.get? "floating_ip".toList).isSome then ip else accessIpV4),
    ("port_id".toList, port),
    ("provider".toList, .str "openstack".toList)]

/-- The loop that numbers the volume devices. -/
def setVolumeDevices (devices : List Json) (attrs : Attributes) : Attributes :=
  (devices.mapIdx fun i v => (("disk_volume_device_".toList ++ numeral (i + 1) : Text), v)).foldl
    (fun acc e => acc.set e.1 e.2) attrs

/-- The variables of an OpenStack host that are added to these. -/
def openstackLaterAttrs (raw metadata : Attributes) (host : Json) (volumes : Bool)
    (attrs : Attributes) : Attributes :=
  let attrs := (attrs.set "ansible_host".toList host).set "publicly_routable".toList (.bool true)
  let attrs := copyOptional raw "metadata.ssh_user".toList "ansible_user".toList attrs
  let attrs := copyOptional raw "metadata.ssh_port".toList "ansible_port".toList attrs
  let attrs := if volumes then setVolumeDevices (volumeDevices raw) attrs else attrs
  attrs.set "role".toList ((metadata.get? "role".toList).getD (.str "none".toList))

/-- The group names of an OpenStack host. -/
def openstackGroups (repr : Json → Text) (raw metadata : Attributes) :
    Except Raised (List Text) := do
  let image ← subscript (parseDict raw "image".toList '_') "id".toList
  let flavor ← subscript (parseDict raw "flavor".toList '_') "name".toList
  let fromMetadata := metadata.entries.map fun e =>
    "os_metadata_".toList ++ e.1 ++ '=' :: pyStr repr e.2
  let region := (raw.get? "region".toList).getD (.str [])
  let kubespray ← kubesprayGroups metadata
  return (("os_image=".toList ++ pyStr repr image) :: ("os_flavor=".toList ++ pyStr repr flavor)
    :: fromMetadata ++ ("os_region=".toList ++ pyStr repr region) :: kubespray).map sanitize

/-- `openstack_host`, without its decorator: the host of an OpenStack instance. The
attributes are read in the order of the source, so that the first one that is missing
names the exception. -/
def openstackInstance (repr : Json → Text) (raw : Attributes) : Except Raised Host := do
  let name ← subscript raw "name".toList
  let accessIpV4 ← subscript raw "access_ip_v4".toList
  let accessIpV6 ← subscript raw "access_ip_v6".toList
  let ip ← subscript raw "network.0.fixed_ip_v4".toList
  let id ← subscript raw "id".toList
  let keyPair ← subscript raw "key_pair".toList
  let metadata := parseDict raw "metadata".toList '.'
  let network ← parseAttrList raw "network".toList '.'
  let port ← subscript raw "network.0.port".toList
  let attrs := openstackAttrs raw metadata network accessIpV4 accessIpV6 ip id keyPair port
  let host ← ansibleHost raw accessIpV4 accessIpV6
  let volumes ← hasVolumes raw
  let groups ← openstackGroups repr raw metadata
  return ⟨name, openstackLaterAttrs raw metadata host volumes attrs, groups⟩

/-- `bool(value)`. -/
def Json.truthy : Json → Bool
  | .null => false
  | .bool b => b
  | .int n => n ≠ 0
  | .float whole fraction _ => whole ≠ 0 ∨ fraction
  | .str t => t ≠ []
  | .arr xs => xs ≠ []
  | .obj fields => fields ≠ []

/-- `calculate_mantl_vars`, of the result of the function it decorates: a host with the role
`control` is a Consul server, and one that can be reached is in a group for that. -/
def calculateMantlVars (h : Host) : Host :=
  { name := h.name
    attrs := h.attrs.set "consul_is_server".toList
      (.bool (holds h.attrs "role".toList "control".toList))
    groups := if (h.attrs.get? "publicly_routable".toList).any Json.truthy then
        h.groups ++ ["publicly_routable".toList]
      else h.groups }

/-- `openstack_host`. -/
def openstackHost (repr : Json → Text) (raw : Attributes) : Except Raised Host := do
  return calculateMantlVars (← openstackInstance repr raw)

/-- The type of Equinix devices. -/
def equinixType : Text :=
  "equinix_metal_device".toList

/-- The type of OpenStack instances. -/
def computeType : Text :=
  "openstack_compute_instance_v2".toList

/-- The type of floating-IP associations. -/
def associateType : Text :=
  "openstack_networking_floatingip_associate_v2".toList

/-- `PARSERS`: the parser of a type of resource. Resources of all other types are no
hosts. -/
def parser (repr : Json → Text) (type : Text) : Option (Attributes → Except Raised Host) :=
  if type = equinixType then some (equinixMetalDevice repr)
  else if type = computeType then some (openstackHost repr)
  else none

end Kubespray.Terraform
