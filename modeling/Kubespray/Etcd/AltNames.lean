import Kubespray.Etcd.InitialCluster

/-!
# The Alternative Names of the Etcd Certificates

`openssl.conf.j2` prints the section `alt_names` of the request for an etcd certificate.
Its lines are numbered by two counters in one dictionary, which the macro `increment`
updates after each line; `kubespray-defaults` computes the endpoints that the
certificates must cover, `etcd_access_addresses` and `etcd_peer_addresses`, from the same
variables by defaults of its own.

## Main results

* `print_numbered`: printing a line keeps the numbering of both kinds contiguous.
* `values_altNames_ip`: the addresses of the section, in order.
* `altNames_coversEndpoints`: the keys of the section are distinct and contiguous from
  one, and its addresses include the host of every advertised endpoint.
-/

namespace Kubespray.Etcd

/-! ### Numbered lines -/

/-- The keys of the dictionary `counter`. -/
inductive AltKind
  | dns
  | ip
  deriving DecidableEq

/-- The word before the number. -/
def AltKind.label : AltKind → Text
  | .dns => "DNS".toList
  | .ip => "IP".toList

/-- A line `KIND.NUMBER = VALUE` of the section. -/
structure AltName where
  kind : AltKind
  number : ℕ
  value : Text

/-- What stands before the equals sign. -/
def AltName.key (line : AltName) : Text :=
  line.kind.label ++ '.' :: Nat.toDigits 10 line.number

/-- The macro `increment`, with `inc=1`. -/
def increment (counter : AltKind → ℕ) (key : AltKind) : AltKind → ℕ :=
  Function.update counter key (counter key + 1)

/-- A template on its way: the dictionary `counter` and the lines printed so far. -/
structure Rendering where
  counter : AltKind → ℕ
  lines : List AltName

namespace Rendering

/-- One line of the section, such as
`DNS.{{ counter["dns"] }} = {{ host }}{{ increment(counter, 'dns') }}`. -/
def print (kind : AltKind) (r : Rendering) (value : Text) : Rendering where
  counter := increment r.counter kind
  lines := r.lines ++ [{ kind := kind, number := r.counter kind, value := value }]

/-- The dictionary `{'dns': 2,'ip': 1,}` and the line `DNS.1 = localhost`. -/
def start : Rendering where
  counter
    | .dns => 2
    | .ip => 1
  lines := [{ kind := .dns, number := 1, value := "localhost".toList }]

end Rendering

/-- The lists and the name that the deployer may add to the certificates. -/
structure AltNameVars where
  apiserverLoadbalancerDomainName : Option Text
  etcdCertAltNames : List Text
  etcdCertAltIps : List Text

namespace EtcdGroup

variable (g : EtcdGroup) (v : AltNameVars)

/-- One round of the loop over the addresses of the group: `access_ip` if it is set, then
`hostvars[host]['ip'] | default(fallback_ips[host])`. -/
def printAddresses (r : Rendering) (host : Text) : Rendering :=
  let vars := g.vars host
  let r := match vars.accessIp with
    | some accessIp => r.print .ip accessIp.text
    | none => r
  r.print .ip (vars.ip.getD vars.fallbackIp).text

/-- The section up to its last line. -/
def renderAltNames : Rendering :=
  let r := g.hosts.foldl (Rendering.print .dns) .start
  let r := match v.apiserverLoadbalancerDomainName with
    | some name => r.print .dns name
    | none => r
  let r := v.etcdCertAltNames.foldl (Rendering.print .dns) r
  let r := g.hosts.foldl g.printAddresses r
  v.etcdCertAltIps.foldl (Rendering.print .ip) r

/-- The section `alt_names`; the counter is not incremented after its last line. -/
def altNames : List AltName :=
  let r := g.renderAltNames v
  r.lines ++ [{ kind := .ip, number := r.counter .ip, value := "127.0.0.1".toList }]

end EtcdGroup

/-! ### What a rendering has printed -/

/-- The numbers of the lines of a kind. -/
def numbers (kind : AltKind) (lines : List AltName) : List ℕ :=
  (lines.filter fun line => line.kind = kind).map AltName.number

/-- The values of the lines of a kind. -/
def values (kind : AltKind) (lines : List AltName) : List Text :=
  (lines.filter fun line => line.kind = kind).map AltName.value

@[simp] theorem values_append (kind : AltKind) (xs ys : List AltName) :
    values kind (xs ++ ys) = values kind xs ++ values kind ys := by
  rw [values, List.filter_append, List.map_append]
  rfl

@[simp] theorem numbers_append (kind : AltKind) (xs ys : List AltName) :
    numbers kind (xs ++ ys) = numbers kind xs ++ numbers kind ys := by
  rw [numbers, List.filter_append, List.map_append]
  rfl

@[simp] theorem values_singleton (kind : AltKind) (line : AltName) :
    values kind [line] = if line.kind = kind then [line.value] else [] := by
  by_cases h : line.kind = kind <;> simp [values, h]

@[simp] theorem numbers_singleton (kind : AltKind) (line : AltName) :
    numbers kind [line] = if line.kind = kind then [line.number] else [] := by
  by_cases h : line.kind = kind <;> simp [numbers, h]

namespace Rendering

/-- The lines of each kind are numbered from one, and the counter of the kind is the
number that comes next. -/
def Numbered (r : Rendering) : Prop :=
  ∀ kind, 1 ≤ r.counter kind ∧ numbers kind r.lines = List.range' 1 (r.counter kind - 1)

/-- The template starts numbered: `dns` is at two because `localhost` has number one. -/
theorem start_numbered : start.Numbered := by
  intro kind
  cases kind <;> decide

/-- The next number continues the numbering. -/
theorem numbers_next {r : Rendering} (h : r.Numbered) (kind : AltKind) :
    numbers kind r.lines ++ [r.counter kind] = List.range' 1 (r.counter kind) := by
  obtain ⟨hpos, hnumbers⟩ := h kind
  have hlast : 1 + 1 * (r.counter kind - 1) = r.counter kind := by omega
  have hrange := @List.range'_concat 1 1 (r.counter kind - 1)
  rw [hlast, Nat.sub_add_cancel hpos] at hrange
  rw [hnumbers, hrange]

/-- **Printing a line keeps the lines numbered**: its own kind advances by one, the other
kind is untouched. -/
theorem print_numbered {r : Rendering} (h : r.Numbered) (kind : AltKind) (value : Text) :
    (r.print kind value).Numbered := by
  intro other
  by_cases hkind : other = kind
  · subst hkind
    have hcounter : (r.print other value).counter other = r.counter other + 1 :=
      Function.update_self ..
    have hnext := numbers_next h other
    refine ⟨by omega, ?_⟩
    rw [hcounter, Nat.add_sub_cancel, ← hnext, print, numbers_append, numbers_singleton,
      if_pos rfl]
  · have hcounter : (r.print kind value).counter other = r.counter other :=
      Function.update_of_ne hkind ..
    rw [hcounter, print, numbers_append, numbers_singleton, if_neg (Ne.symm hkind),
      List.append_nil]
    exact h other

/-- The values after a line has been printed. -/
theorem values_print (r : Rendering) (kind other : AltKind) (value : Text) :
    values other (r.print kind value).lines
      = values other r.lines ++ if kind = other then [value] else [] := by
  rw [print, values_append, values_singleton]

/-- A loop that prints one line each keeps the lines numbered. -/
theorem foldl_print_numbered {r : Rendering} (h : r.Numbered) (kind : AltKind)
    (xs : List Text) : (xs.foldl (print kind) r).Numbered := by
  induction xs generalizing r with
  | nil => exact h
  | cons x xs ih => exact ih (print_numbered h kind x)

/-- The values after a loop that prints one line each. -/
theorem values_foldl_print (r : Rendering) (kind other : AltKind) (xs : List Text) :
    values other (xs.foldl (print kind) r).lines
      = values other r.lines ++ if kind = other then xs else [] := by
  induction xs generalizing r with
  | nil => simp
  | cons x xs ih =>
      rw [List.foldl_cons, ih, values_print, List.append_assoc]
      by_cases h : kind = other <;> simp [h]

end Rendering

namespace EtcdGroup

open Rendering

variable (g : EtcdGroup) (v : AltNameVars)

/-- The addresses that the section gives for a host. -/
def altAddresses (host : Text) : List Text :=
  ((g.vars host).accessIp.toList ++ [(g.vars host).etcdAddress]).map PlainWord.text

/-- The loop over the addresses keeps the lines numbered, whichever hosts have an
`access_ip`. -/
theorem foldl_printAddresses_numbered {r : Rendering} (h : r.Numbered) (hosts : List Text) :
    (hosts.foldl g.printAddresses r).Numbered := by
  induction hosts generalizing r with
  | nil => exact h
  | cons host hosts ih =>
      refine ih ?_
      rw [printAddresses]
      cases (g.vars host).accessIp with
      | none => exact print_numbered h .ip _
      | some accessIp => exact print_numbered (print_numbered h .ip _) .ip _

/-- The values after the loop over the addresses. -/
theorem values_foldl_printAddresses (r : Rendering) (hosts : List Text) :
    values .ip (hosts.foldl g.printAddresses r).lines
      = values .ip r.lines ++ hosts.flatMap g.altAddresses := by
  induction hosts generalizing r with
  | nil => simp
  | cons host hosts ih =>
      have hround : values .ip (g.printAddresses r host).lines
          = values .ip r.lines ++ g.altAddresses host := by
        rw [printAddresses, altAddresses, HostVars.etcdAddress]
        cases (g.vars host).accessIp with
        | none => simp [values_print]
        | some accessIp => simp [values_print]
      rw [List.foldl_cons, ih, hround, List.flatMap_cons, List.append_assoc]

/-- The optional line for the load balancer keeps the lines numbered. -/
theorem printLoadbalancer_numbered {r : Rendering} (h : r.Numbered) (name : Option Text) :
    (match name with
      | some name => r.print .dns name
      | none => r).Numbered := by
  cases name with
  | none => exact h
  | some name => exact print_numbered h .dns name

/-- The section up to its last line is numbered. -/
theorem renderAltNames_numbered : (g.renderAltNames v).Numbered :=
  foldl_print_numbered (foldl_printAddresses_numbered g
    (foldl_print_numbered (printLoadbalancer_numbered
      (foldl_print_numbered start_numbered .dns g.hosts) _) .dns _) g.hosts) .ip _

/-- The numbers of each kind, in the order of the lines, count from one. -/
theorem numbers_altNames (kind : AltKind) :
    numbers kind (g.altNames v) = List.range' 1 (numbers kind (g.altNames v)).length := by
  have hcount : ∃ n, numbers kind (g.altNames v) = List.range' 1 n := by
    have hnumbered := g.renderAltNames_numbered v
    rw [altNames, numbers_append, numbers_singleton]
    by_cases hkind : AltKind.ip = kind
    · rw [if_pos hkind, hkind]
      exact ⟨_, numbers_next hnumbered kind⟩
    · rw [if_neg hkind, List.append_nil]
      exact ⟨_, (hnumbered kind).2⟩
  obtain ⟨n, hn⟩ := hcount
  rw [hn, List.length_range']

/-- **The addresses of the section**: those of the hosts, those of the deployer, and the
loopback address. -/
theorem values_altNames_ip :
    values .ip (g.altNames v)
      = g.hosts.flatMap g.altAddresses ++ v.etcdCertAltIps ++ ["127.0.0.1".toList] := by
  rw [altNames, renderAltNames, values_append, values_foldl_print, values_foldl_printAddresses,
    values_foldl_print]
  cases v.apiserverLoadbalancerDomainName <;>
    simp [values_foldl_print, values_print, start]

end EtcdGroup

/-- The words before the numbers are told apart by what precedes the dot. -/
theorem AltName.key_inj {a b : AltName} (h : a.key = b.key) :
    a.kind = b.kind ∧ a.number = b.number := by
  obtain ⟨aKind, aNumber, aValue⟩ := a
  obtain ⟨bKind, bNumber, bValue⟩ := b
  cases aKind <;> cases bKind
  · exact ⟨rfl, toDigits_injective (@List.append_cancel_left _ "DNS.".toList _ _ h)⟩
  · cases h
  · cases h
  · exact ⟨rfl, toDigits_injective (@List.append_cancel_left _ "IP.".toList _ _ h)⟩

/-- Lines whose numbers are distinct within each kind have distinct keys. -/
theorem nodup_map_key {lines : List AltName} (h : ∀ kind, (numbers kind lines).Nodup) :
    (lines.map AltName.key).Nodup := by
  induction lines with
  | nil => exact List.nodup_nil
  | cons line lines ih =>
      have hsplit : ∀ kind, numbers kind (line :: lines)
          = (if line.kind = kind then [line.number] else []) ++ numbers kind lines := by
        intro kind
        rw [← List.singleton_append, numbers_append, numbers_singleton]
      have htail : ∀ kind, (numbers kind lines).Nodup := by
        intro kind
        have hall := h kind
        rw [hsplit] at hall
        exact (List.nodup_append.mp hall).2.1
      rw [List.map_cons, List.nodup_cons]
      refine ⟨fun hmem => ?_, ih htail⟩
      obtain ⟨other, hother, hkey⟩ := List.mem_map.mp hmem
      obtain ⟨hkind, hnumber⟩ := AltName.key_inj hkey
      have hall := h line.kind
      rw [hsplit, if_pos rfl, List.singleton_append, List.nodup_cons] at hall
      refine hall.1 (List.mem_map.mpr ⟨other, List.mem_filter.mpr ⟨hother, ?_⟩, hnumber⟩)
      exact decide_eq_true hkind

/-! ### The advertised endpoints -/

/-- The host of a URL with a port, as the programs that dial it take it from there: what
stands between the scheme and the last colon. The templates put no brackets around IPv6
addresses, so the first colon may belong to the address. -/
def endpointHost (url : Text) : Option Text :=
  (afterScheme url).map fun rest => ((rest.reverse.dropWhile (· ≠ ':')).drop 1).reverse

/-- The host of an endpoint is its address. -/
theorem endpointHost_eq {port : Text} (a : Address) (h : ':' ∉ port) :
    endpointHost ("https://".toList ++ a.text ++ ':' :: port) = some a.text := by
  have hscheme : afterScheme ("https://".toList ++ a.text ++ ':' :: port)
      = some (a.text ++ ':' :: port) := by
    rw [List.append_assoc, afterScheme, if_pos (List.prefix_append _ _)]
    rfl
  have hport : ∀ c ∈ port.reverse, decide (c ≠ ':') = true := by
    intro c hc
    exact decide_eq_true fun hcolon => h (hcolon ▸ List.mem_reverse.mp hc)
  rw [endpointHost, hscheme, Option.map_some, List.reverse_append, List.reverse_cons,
    List.append_assoc, List.dropWhile_append_of_pos hport]
  simp

/-- `https://ADDRESS:2379`. -/
def clientUrl (address : Address) : Text :=
  "https://".toList ++ address.text ++ ":2379".toList

namespace EtcdGroup

variable (g : EtcdGroup) (v : AltNameVars)

/-- The URLs of `etcd_access_addresses`. -/
def accessUrls : List Text :=
  g.hosts.map fun item => clientUrl (g.vars item).listedAddress

/-- The URLs of `etcd_peer_addresses`. -/
def peerUrls : List Text :=
  g.hosts.map fun item => peerUrl (g.vars item).listedAddress

/-- `etcd_peer_addresses` lists each peer URL behind the name of its host. -/
theorem etcdPeerAddresses_eq :
    g.etcdPeerAddresses
      = [','].intercalate (g.loop.zipWith (fun item url => g.listedName item ++ '=' :: url)
          g.peerUrls) := by
  have hurls : g.peerUrls = g.loop.map fun item => peerUrl (g.vars item.1).listedAddress := by
    rw [peerUrls, ← g.map_fst_loop, List.map_map]
    rfl
  rw [hurls, List.zipWith_map_right, List.zipWith_self]
  rfl

/-- The section of alternative names is well formed and covers what is advertised. -/
structure CoversEndpoints : Prop where
  /-- No key is given twice: a second value under a key would replace the first. -/
  distinct : ((g.altNames v).map AltName.key).Nodup
  /-- The keys of each kind are numbered from one without a gap. -/
  contiguous : ∀ kind,
    numbers kind (g.altNames v) = List.range' 1 (numbers kind (g.altNames v)).length
  access : ∀ url ∈ g.accessUrls,
    ∃ host ∈ values .ip (g.altNames v), endpointHost url = some host
  peer : ∀ url ∈ g.peerUrls,
    ∃ host ∈ values .ip (g.altNames v), endpointHost url = some host
  loopback : "127.0.0.1".toList ∈ values .ip (g.altNames v)

/-- The addresses of a host of the group are in the section. -/
theorem mem_values_altNames {host : Text} (hhost : host ∈ g.hosts) {address : Text}
    (h : address ∈ g.altAddresses host) : address ∈ values .ip (g.altNames v) := by
  rw [values_altNames_ip, List.append_assoc, List.mem_append]
  exact Or.inl (List.mem_flatMap.mpr ⟨host, hhost, h⟩)

/-- Without an override a host is listed under its `ip` or its fallback address. -/
theorem listedAddress_mem {host : Text} (h : (g.vars host).etcdAccessAddress = none) :
    (g.vars host).listedAddress.text ∈ g.altAddresses host := by
  rw [HostVars.listedAddress, h, altAddresses, List.map_append, List.mem_append]
  exact Or.inr (List.mem_singleton_self _)

/-- Without an override a host's own URLs have its `access_ip`, its `ip` or its fallback
address. -/
theorem ownAccessAddress_mem {host : Text} (h : (g.vars host).etcdAccessAddress = none) :
    (g.vars host).ownAccessAddress.text ∈ g.altAddresses host := by
  rw [HostVars.ownAccessAddress, h, altAddresses, Option.getD_none]
  cases (g.vars host).accessIp <;> simp

/-- **The certificates cover every advertised endpoint**: as long as no host overrides
`etcd_access_address`, the section has distinct keys, contiguous from one, and names the
host of every access URL and of every peer URL, and the loopback address. -/
theorem altNames_coversEndpoints
    (h : ∀ host ∈ g.hosts, (g.vars host).etcdAccessAddress = none) : g.CoversEndpoints v where
  distinct := by
    refine nodup_map_key fun kind => ?_
    rw [g.numbers_altNames v kind]
    exact List.nodup_range'
  contiguous := g.numbers_altNames v
  access url hurl := by
    obtain ⟨host, hhost, rfl⟩ := List.mem_map.mp hurl
    exact ⟨_, g.mem_values_altNames v hhost (g.listedAddress_mem (h host hhost)),
      endpointHost_eq _ (by decide)⟩
  peer url hurl := by
    obtain ⟨host, hhost, rfl⟩ := List.mem_map.mp hurl
    exact ⟨_, g.mem_values_altNames v hhost (g.listedAddress_mem (h host hhost)),
      endpointHost_eq _ (by decide)⟩
  loopback := by
    rw [values_altNames_ip]
    exact List.mem_append_right _ (List.mem_singleton_self _)

/-- Two hosts, of which one has addresses of its own and the other one only its fallback
address, with further names and addresses. -/
theorem altNames_coversEndpoints_mixedHosts :
    (mixedHosts nodeOne nodeTwo nodeTen).CoversEndpoints
      { apiserverLoadbalancerDomainName := some "lb.example.org".toList
        etcdCertAltNames := ["etcd.example.org".toList, "etcd".toList]
        etcdCertAltIps := ["192.0.2.1".toList] } :=
  altNames_coversEndpoints _ _ (by decide)

/-- The host's own peer URL is covered too, though it prefers `access_ip`. -/
theorem altNames_covers_etcdPeerUrl {host : Text} (hhost : host ∈ g.hosts)
    (h : (g.vars host).etcdAccessAddress = none) :
    ∃ address ∈ values .ip (g.altNames v),
      endpointHost (g.vars host).etcdPeerUrl = some address :=
  ⟨_, g.mem_values_altNames v hhost (g.ownAccessAddress_mem h), endpointHost_eq _ (by decide)⟩

end EtcdGroup

end Kubespray.Etcd
