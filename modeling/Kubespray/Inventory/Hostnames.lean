import Kubespray.Inventory.Addresses

/-!
# Building the Host Map

`build_hostnames` turns the stored hosts and the command line into the map from hostname
to options that the rest of a run distributes over the role groups. It walks over the
arguments with one map in hand: a removal deletes by hostname or by address, an address
gets a generated (or looked-up) hostname, a letter-first argument names its host itself.

The walk is `stepHost` on a `Walk`. Three of its variables (`hostname`, `ip`,
`access_ip`) are assigned in some branches only and survive from one argument to the
next, so they are part of the state; reading one that was never assigned raises.

## Main results

* `deleteHostByIp_eq_ok`: which host a deletion by address takes.
* `removeHost_spec`: what a removal argument can do to the map.
* `stepHost_guarded`: what an argument can do to the map.
* `stepHost_lost`: the reason why a host left the map.
-/

namespace Kubespray.Inventory

open OrderedDict Fallible

/-! ### Options and identifiers -/

/-- `get_ip_from_opts`. The membership test and the subscript that follow each other in
the source behave differently on every kind of value a file may hold. -/
def getIpFromOpts (opts : Value) : Except Abort Value :=
  let notFound : Abort := .valueError "IP parameter not found in options".toList
  match opts with
  | .obj fields =>
    match fields.lookup "ip".toList with
    | some v => .ok v
    | none => .error notFound
  | .str t => if "ip".toList <:+: t then .error .typeError else .error notFound
  | .arr xs =>
    if xs.any fun | .str t => t = "ip".toList | _ => false then .error .typeError
    else .error notFound
  | .null | .bool _ | .num _ => .error .typeError

/-- The test `ip == get_ip_from_opts(opts)` for a text `ip`. -/
def Value.isStr (ip : Text) : Value → Bool
  | .str t => t = ip
  | _ => false

/-- The options the builder writes for a host. -/
def hostOpts (accessIp ip : Text) : Value :=
  .obj [("ansible_host".toList, .str accessIp), ("ip".toList, .str ip),
    ("access_ip".toList, .str accessIp)]

/-- The options that the builder writes have an address. -/
@[simp] theorem getIpFromOpts_hostOpts (accessIp ip : Text) :
    getIpFromOpts (hostOpts accessIp ip) = .ok (.str ip) := rfl

/-- The digits at the end of a name, as `re.findall("\\d+$", name)` finds them: `$` also
matches before a final line break. -/
def trailingDigits (env : Env) (name : Text) : List ℕ :=
  let reversed := name.reverse
  let line := if reversed.head? = some '\n' then reversed.tail else reversed
  ((line.takeWhile fun c => (env.chars.decimal c).isSome).filterMap env.chars.decimal).reverse

/-- `get_host_id`. -/
def getHostId (env : Env) (host : Text) : Except Abort ℕ :=
  let shortHostname := host.takeWhile (· ≠ '.')
  match trailingDigits env shortHostname with
  | [] => .error (.valueError "Host name must end in an integer".toList)
  | digits => .ok (ofDigits 10 digits)

/-! ### Looking for a host -/

/-- `exists_hostname`. -/
def existsHostname (existingHosts : OrderedDict Text Value) (hostname : Text) : Bool :=
  hostname ∈ existingHosts.keys

/-- The search loop shared by `exists_ip` and `delete_host_by_ip`: the first entry whose
address is `ip`. An entry without an address stops the search with an exception. -/
def findByIp (ip : Text) : List (Text × Value) → Except Abort (Option Text)
  | [] => .ok none
  | (host, opts) :: rest => do
    let v ← getIpFromOpts opts
    if v.isStr ip then return some host else findByIp ip rest

/-- `exists_ip`. -/
def existsIp (existingHosts : OrderedDict Text Value) (ip : Text) : Except Abort Bool :=
  return (← findByIp ip existingHosts.entries).isSome

/-- `delete_host_by_ip`. -/
def deleteHostByIp (existingHosts : OrderedDict Text Value) (ip : Text) :
    Except Abort (OrderedDict Text Value) := do
  match ← findByIp ip existingHosts.entries with
  | some host => return existingHosts.erase host
  | none => .error (.valueError ("Unable to find host by IP: ".toList ++ ip))

/-- The address a host map has for a host, when that host's options are readable. -/
def ipOf (hosts : OrderedDict Text Value) (host : Text) : Option Text :=
  match hosts.get? host with
  | some opts =>
    match getIpFromOpts opts with
    | .ok (.str ip) => some ip
    | _ => none
  | none => none

/-- A host map whose options for a name have an address. -/
theorem ipOf_eq_of_get? {d : OrderedDict Text Value} {name accessIp ip : Text}
    (h : d.get? name = some (hostOpts accessIp ip)) : ipOf d name = some ip := by
  simp only [ipOf, h, getIpFromOpts_hostOpts]

/-- A completed search returns an entry with the address. -/
theorem findByIp_some {ip host : Text} {entries : List (Text × Value)}
    (h : findByIp ip entries = .ok (some host)) :
    ∃ opts, (host, opts) ∈ entries ∧ getIpFromOpts opts = .ok (.str ip) := by
  induction entries with
  | nil => cases h
  | cons e entries ih =>
      obtain ⟨name, opts⟩ := e
      obtain ⟨v, hv, h⟩ := ok_of_bind h
      by_cases hip : v.isStr ip = true
      · rw [if_pos hip] at h
        cases h
        refine ⟨opts, List.mem_cons_self, ?_⟩
        cases v with
        | str t =>
            obtain rfl : t = ip := by simpa [Value.isStr] using hip
            exact hv
        | null | bool | num | arr | obj => cases hip
      · rw [if_neg hip] at h
        obtain ⟨opts', hmem, hget⟩ := ih h
        exact ⟨opts', List.mem_cons_of_mem _ hmem, hget⟩

/-- A completed search that found nothing has read an address, and not this one, from
every entry. -/
theorem findByIp_none {ip : Text} {entries : List (Text × Value)}
    (h : findByIp ip entries = .ok none) {host : Text} {opts : Value}
    (hmem : (host, opts) ∈ entries) :
    ∃ v, getIpFromOpts opts = .ok v ∧ v.isStr ip = false := by
  induction entries with
  | nil => cases hmem
  | cons e entries ih =>
      obtain ⟨name, opts'⟩ := e
      obtain ⟨v, hv, h⟩ := ok_of_bind h
      by_cases hip : v.isStr ip = true
      · rw [if_pos hip] at h
        cases h
      · rw [if_neg hip] at h
        rcases List.mem_cons.mp hmem with heq | hmem
        · obtain ⟨rfl, rfl⟩ := Prod.mk.inj heq
          exact ⟨v, hv, by simpa using hip⟩
        · exact ih h hmem

/-- A deletion by address takes a host that has the address. -/
theorem deleteHostByIp_eq_ok {hosts hosts' : OrderedDict Text Value} {ip : Text}
    (h : deleteHostByIp hosts ip = .ok hosts') :
    ∃ host, ipOf hosts host = some ip ∧ hosts' = hosts.erase host := by
  obtain ⟨found, hfound, h⟩ := ok_of_bind h
  cases found with
  | none => cases h
  | some host =>
      cases h
      obtain ⟨opts, hmem, hget⟩ := findByIp_some hfound
      refine ⟨host, ?_, rfl⟩
      simp only [ipOf, get?_of_mem_entries hmem, hget]

/-! ### The walk over the arguments -/

/-- The variables of the argument loop of `build_hostnames`. -/
structure Walk where
  allHosts : OrderedDict Text Value
  nextHostId : ℕ
  /-- How many hostnames have been asked for over `ssh`. -/
  lookups : ℕ
  hostname : Option Text
  ip : Option Text
  accessIp : Option Text

/-- A variable that was never assigned cannot be read. -/
def readLocal (x : Option Text) : Except Abort Text :=
  match x with
  | some t => .ok t
  | none => .error .unboundLocalError

/-- `"{0}{1}".format(HOST_PREFIX, next_host_id)`. -/
def generatedName (env : Env) (id : ℕ) : Text :=
  env.hostPrefix ++ Nat.toDigits 10 id

/-- The branch of the loop for `-realhost`. -/
def removeHost (w : Walk) (realhost : Text) : Except Abort Walk := do
  if existsHostname w.allHosts realhost then
    return { w with allHosts := w.allHosts.erase realhost }
  else if ← existsIp w.allHosts realhost then
    return { w with allHosts := ← deleteHostByIp w.allHosts realhost }
  else
    return w

/-- The hostname for an address: asked for over `ssh`, or generated. -/
def nextHost (env : Env) (w : Walk) : Except Abort (Text × Walk) :=
  if env.useRealHostname then
    match env.sshReply w.lookups with
    | some reply => .ok (reply, { w with lookups := w.lookups + 1 })
    | none => .error .calledProcessError
  else
    .ok (generatedName env w.nextHostId, { w with nextHostId := w.nextHostId + 1 })

/-- The two addresses of an argument that starts with a digit: `ip,access_ip`, or one
address for both. -/
def unpackAddress (host : Text) : Except Abort (Text × Text) :=
  if ',' ∈ host then
    match host.splitOn ',' with
    | [ip, accessIp] => .ok (ip, accessIp)
    | _ => .error (.valueError "wrong number of values to unpack".toList)
  else
    .ok (host, host)

/-- The branch of the loop for an argument that starts with a digit. -/
def addAddress (env : Env) (w : Walk) (host : Text) : Except Abort Walk := do
  let (ip, accessIp) ← unpackAddress host
  let w := { w with ip := some ip, accessIp := some accessIp }
  if existsHostname w.allHosts host then
    return w
  else if ← existsIp w.allHosts ip then
    return w
  else
    let (name, w) ← nextHost env w
    return { w with allHosts := w.allHosts.set name (hostOpts accessIp ip) }

/-- The variables after the unpacking of an argument that starts with a letter:
`hostname,ip,access_ip` or `hostname,ip`. Without a comma they are left as they were. -/
def unpackHostname (w : Walk) (host : Text) : Except Abort Walk :=
  if ',' ∈ host then
    match host.splitOn ',' with
    | [hostname, ip, accessIp] =>
      .ok { w with hostname := some hostname, ip := some ip, accessIp := some accessIp }
    | [hostname, ip] =>
      .ok { w with hostname := some hostname, ip := some ip, accessIp := some ip }
    | _ => .error (.valueError "wrong number of values to unpack".toList)
  else
    .ok w

/-- The branch of the loop for an argument that starts with a letter. -/
def addHostname (w : Walk) (host : Text) : Except Abort Walk := do
  let w ← unpackHostname w host
  if existsHostname w.allHosts host then
    return w
  else if ← existsIp w.allHosts (← readLocal w.ip) then
    return w
  else
    let opts := hostOpts (← readLocal w.accessIp) (← readLocal w.ip)
    return { w with allHosts := w.allHosts.set (← readLocal w.hostname) opts }

/-- One argument of the loop. -/
def stepHost (env : Env) (w : Walk) (host : Text) : Except Abort Walk :=
  match host with
  | [] => .error .indexError
  | c :: rest =>
    if c = '-' then removeHost w rest
    else if env.chars.isdigit c then addAddress env w host
    else if env.chars.isalpha c then addHostname w host
    else .ok w

/-- The highest id among the stored hosts whose name starts with the prefix. -/
def highestHostId (env : Env) (hosts : List Text) : Except Abort ℕ :=
  hosts.foldlM
    (fun highest host =>
      if env.hostPrefix.isPrefixOf host then do
        let hostId ← getHostId env host
        return if hostId > highest then hostId else highest
      else
        return highest)
    0

/-- The stored hosts and the id to continue from. An exception while reading them is
printed and ends the run with status 1. -/
def existingHosts (env : Env) (cfg : Config) (loadPreviousConfig : Bool) :
    Except Abort (OrderedDict Text Value × ℕ) :=
  if loadPreviousConfig then
    match cfg.hosts with
    | .is hosts =>
      match highestHostId env hosts.keys with
      | .ok highest => .ok (hosts, highest)
      | .error _ => .error (.exit 1)
    | _ => .error (.exit 1)
  else
    .ok (OrderedDict.empty, 0)

/-- The variables of the loop before the first argument. -/
def Walk.start (hosts : OrderedDict Text Value) (highest : ℕ) : Walk where
  allHosts := hosts
  nextHostId := highest + 1
  lookups := 0
  hostname := none
  ip := none
  accessIp := none

/-- `build_hostnames`. -/
def buildHostnames (env : Env) (cfg : Config) (changedHosts : List Text)
    (loadPreviousConfig : Bool) : Except Abort (OrderedDict Text Value) := do
  let (hosts, highest) ← existingHosts env cfg loadPreviousConfig
  let w ← changedHosts.foldlM (stepHost env) (Walk.start hosts highest)
  return w.allHosts

/-- A walk over a loaded file starts from the hosts of the file. -/
theorem existingHosts_eq_ok {env : Env} {cfg : Config} {hosts : OrderedDict Text Value}
    {highest : ℕ} (h : existingHosts env cfg true = .ok (hosts, highest)) :
    cfg.hosts = .is hosts ∧ highestHostId env hosts.keys = .ok highest := by
  rw [existingHosts, if_pos rfl] at h
  cases hcfg : cfg.hosts with
  | missing | null =>
      rw [hcfg] at h
      cases h
  | is d =>
      rw [hcfg] at h
      dsimp only at h
      cases hid : highestHostId env d.keys with
      | error e =>
          rw [hid] at h
          cases h
      | ok n =>
          rw [hid] at h
          cases h
          exact ⟨rfl, hid⟩

/-! ### What one argument does -/

/-- A removal deletes at most one host, which it names or whose address it gives. -/
theorem removeHost_spec {w w' : Walk} {realhost : Text} (h : removeHost w realhost = .ok w') :
    w'.allHosts = w.allHosts ∨
      ∃ host, (host = realhost ∨ ipOf w.allHosts host = some realhost) ∧
        w'.allHosts = w.allHosts.erase host := by
  rw [removeHost] at h
  by_cases hname : existsHostname w.allHosts realhost = true
  · rw [if_pos hname] at h
    cases h
    exact Or.inr ⟨realhost, Or.inl rfl, rfl⟩
  · rw [if_neg hname] at h
    obtain ⟨found, -, h⟩ := ok_of_bind h
    cases found with
    | true =>
        obtain ⟨hosts', hdel, h⟩ := ok_of_bind h
        cases h
        obtain ⟨host, hip, rfl⟩ := deleteHostByIp_eq_ok hdel
        exact Or.inr ⟨host, Or.inr hip, rfl⟩
    | false =>
        cases h
        exact Or.inl rfl

/-- Choosing a hostname: an answer over `ssh`, or the next generated name. -/
theorem nextHost_eq_ok {env : Env} {w w' : Walk} {name : Text}
    (h : nextHost env w = .ok (name, w')) :
    (env.useRealHostname = true ∧ env.sshReply w.lookups = some name ∧
        w' = { w with lookups := w.lookups + 1 }) ∨
      (env.useRealHostname = false ∧ name = generatedName env w.nextHostId ∧
        w' = { w with nextHostId := w.nextHostId + 1 }) := by
  rw [nextHost] at h
  by_cases hreal : env.useRealHostname = true
  · rw [if_pos hreal] at h
    cases hreply : env.sshReply w.lookups with
    | none =>
        rw [hreply] at h
        cases h
    | some reply =>
        rw [hreply] at h
        cases h
        exact Or.inl ⟨hreal, rfl, rfl⟩
  · rw [if_neg hreal] at h
    cases h
    exact Or.inr ⟨Bool.eq_false_iff.mpr hreal, rfl, rfl⟩

/-- Choosing a hostname does not touch the host map. -/
theorem nextHost_allHosts {env : Env} {w w' : Walk} {name : Text}
    (h : nextHost env w = .ok (name, w')) : w'.allHosts = w.allHosts := by
  rcases nextHost_eq_ok h with ⟨-, -, rfl⟩ | ⟨-, -, rfl⟩ <;> rfl

/-- **What an address argument can do**: keep the host map, or assign options with its
two addresses, the first of which no host has yet, under the hostname that was chosen. -/
theorem addAddress_eq_ok {env : Env} {w w' : Walk} {host : Text}
    (h : addAddress env w host = .ok w') :
    ∃ ip accessIp, unpackAddress host = .ok (ip, accessIp) ∧
      (w' = { w with ip := some ip, accessIp := some accessIp } ∨
        ∃ name w₁, existsIp w.allHosts ip = .ok false ∧
          nextHost env { w with ip := some ip, accessIp := some accessIp } = .ok (name, w₁) ∧
          w' = { w₁ with allHosts := w.allHosts.set name (hostOpts accessIp ip) }) := by
  obtain ⟨⟨ip, accessIp⟩, hunpack, h⟩ := ok_of_bind h
  refine ⟨ip, accessIp, hunpack, ?_⟩
  dsimp only at h
  by_cases hex : existsHostname w.allHosts host = true
  · rw [if_pos hex] at h
    cases h
    exact Or.inl rfl
  · rw [if_neg hex] at h
    obtain ⟨found, hfound, h⟩ := ok_of_bind h
    cases found with
    | true =>
        cases h
        exact Or.inl rfl
    | false =>
        obtain ⟨⟨name, w₁⟩, hnext, h⟩ := ok_of_bind h
        cases h
        have hkeep : w₁.allHosts = w.allHosts := by simpa using nextHost_allHosts hnext
        refine Or.inr ⟨name, w₁, hfound, hnext, ?_⟩
        rw [hkeep]

/-- Unpacking an argument does not touch the host map. -/
theorem unpackHostname_allHosts {w w' : Walk} {host : Text}
    (h : unpackHostname w host = .ok w') : w'.allHosts = w.allHosts := by
  rw [unpackHostname] at h
  split_ifs at h
  · split at h <;> cases h <;> rfl
  · cases h
    rfl

/-- A variable that can be read has a value. -/
theorem readLocal_eq_ok {x : Option Text} {t : Text} (h : readLocal x = .ok t) : x = some t := by
  cases x with
  | none => cases h
  | some u =>
      cases h
      rfl

/-- **What a letter-first argument can do**, once it is unpacked: keep the host map, or
assign options under the hostname in hand, with an address that no host has yet. -/
theorem addHostname_eq_ok {w w' : Walk} {host : Text} (h : addHostname w host = .ok w') :
    ∃ w₁, unpackHostname w host = .ok w₁ ∧
      (w' = w₁ ∨ ∃ name ip accessIp, w₁.hostname = some name ∧
        existsIp w.allHosts ip = .ok false ∧
        w' = { w₁ with allHosts := w.allHosts.set name (hostOpts accessIp ip) }) := by
  obtain ⟨w₁, hunpack, h⟩ := ok_of_bind h
  refine ⟨w₁, hunpack, ?_⟩
  rw [← unpackHostname_allHosts hunpack]
  by_cases hex : existsHostname w₁.allHosts host = true
  · rw [if_pos hex] at h
    cases h
    exact Or.inl rfl
  · rw [if_neg hex] at h
    obtain ⟨ip, hip, h⟩ := ok_of_bind h
    obtain ⟨found, hfound, h⟩ := ok_of_bind h
    cases found with
    | true =>
        cases h
        exact Or.inl rfl
    | false =>
        obtain ⟨accessIp, -, h⟩ := ok_of_bind h
        obtain ⟨ip', hip', h⟩ := ok_of_bind h
        obtain ⟨name, hname, h⟩ := ok_of_bind h
        cases h
        -- the address is read twice, and nothing is assigned in between
        obtain rfl : ip = ip' := Except.ok.inj (hip.symm.trans hip')
        exact Or.inr ⟨name, ip, accessIp, readLocal_eq_ok hname, hfound, rfl⟩

/-- **What one argument can do to the host map**: nothing, a deletion, or an assignment of
options that the builder wrote, with an address that no host of the map has. -/
theorem stepHost_guarded {env : Env} {w w' : Walk} {host : Text}
    (h : stepHost env w host = .ok w') :
    w'.allHosts = w.allHosts ∨
      (∃ rest name, host = '-' :: rest ∧ (name = rest ∨ ipOf w.allHosts name = some rest) ∧
        w'.allHosts = w.allHosts.erase name) ∨
      ∃ name accessIp ip, existsIp w.allHosts ip = .ok false ∧
        w'.allHosts = w.allHosts.set name (hostOpts accessIp ip) := by
  cases host with
  | nil => cases h
  | cons c rest =>
      unfold stepHost at h
      dsimp only at h
      by_cases hdash : c = '-'
      · rw [if_pos hdash] at h
        rcases removeHost_spec h with heq | ⟨name, hname, heq⟩
        · exact Or.inl heq
        · exact Or.inr (Or.inl ⟨rest, name, by rw [hdash], hname, heq⟩)
      · rw [if_neg hdash] at h
        by_cases hdigit : env.chars.isdigit c = true
        · rw [if_pos hdigit] at h
          obtain ⟨ip, accessIp, -, rfl | ⟨name, w₁, hip, -, rfl⟩⟩ := addAddress_eq_ok h
          · exact Or.inl rfl
          · exact Or.inr (Or.inr ⟨name, accessIp, ip, hip, rfl⟩)
        · rw [if_neg hdigit] at h
          by_cases halpha : env.chars.isalpha c = true
          · rw [if_pos halpha] at h
            obtain ⟨w₁, hunpack, rfl | ⟨name, ip, accessIp, -, hip, rfl⟩⟩ := addHostname_eq_ok h
            · exact Or.inl (unpackHostname_allHosts hunpack)
            · exact Or.inr (Or.inr ⟨name, accessIp, ip, hip, rfl⟩)
          · rw [if_neg halpha] at h
            cases h
            exact Or.inl rfl

/-- **What one argument can take away**: a host that leaves the map is named by a removal
argument, or carries the address the removal argument gives. -/
theorem stepHost_lost {env : Env} {w w' : Walk} {host name : Text}
    (h : stepHost env w host = .ok w') (hname : name ∈ w.allHosts.keys)
    (hlost : name ∉ w'.allHosts.keys) :
    ∃ x, host = '-' :: x ∧ (x = name ∨ ipOf w.allHosts name = some x) := by
  rcases stepHost_guarded h with heq | ⟨rest, gone, rfl, hgone, heq⟩ | ⟨new, accessIp, ip, -, heq⟩
  · rw [heq] at hlost
    exact absurd hname hlost
  · have hsame : name = gone := by
      by_contra hne
      refine hlost ?_
      rw [heq, keys_erase, List.mem_filter]
      exact ⟨hname, by simpa using hne⟩
    subst hsame
    exact ⟨rest, rfl, hgone.imp_left Eq.symm⟩
  · refine absurd ?_ hlost
    rw [heq, keys_set, mem_addKey]
    exact Or.inl hname

end Kubespray.Inventory
