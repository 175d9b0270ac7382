import Kubespray.Terraform.Order
import Kubespray.Terraform.Required

/-!
# Entries That Stop a Run

A run of `terraform.py` goes through the entries of the state files twice. It raises before
the first host when one of them cannot be read, or when an association lacks its port or its
address, and at a host when the attributes of an instance are not those that its parser and
`iter_host_ips` need. This module says both of the entries alone, for entries whose
attributes have the types that the provider gives them: then the random numbers make no
difference.

## Main results

* `exists_ips_iff`: when the addresses of the ports can be collected.
* `passes_iff`: which entries stop the stream of hosts.
* `item_congr`, `id_of_item`: what a host has of its instance.
-/

namespace Kubespray.Terraform

open OrderedDict Fallible

variable {repr : Json → Text} {ips : Ips} {e : Entry} {es : List Entry}

/-! ### Addresses -/

/-- An association that gives its port an address. -/
structure AssociationAttributes (raw : Attributes) : Prop where
  port : ∃ v, raw.get? "port_id".toList = some v ∧ ∃ k, v.key = .ok k
  address : ∃ v, raw.get? "floating_ip".toList = some v

/-- The pair that an association stands for. -/
theorem exists_ipPair_iff {raw : Attributes} :
    (∃ pair, ipPair (openstackFloatingIps raw) = .ok pair) ↔ AssociationAttributes raw := by
  simp only [ipPair, openstackFloatingIps, bind_eq_ok_iff, subscript_eq_ok_iff]
  constructor
  · rintro ⟨-, ⟨port', ip'⟩, ⟨port, hport, ip, hip, heq⟩, k, hk, -⟩
    obtain ⟨rfl, rfl⟩ := Prod.mk.inj (Except.ok.inj heq)
    exact ⟨⟨_, hport, k, hk⟩, _, hip⟩
  · rintro ⟨⟨port, hport, k, hk⟩, ip, hip⟩
    exact ⟨(k, ip), (port, ip), ⟨port, hport, ip, hip, rfl⟩, k, hk, rfl⟩

/-- An entry that does not keep the addresses from being collected: it is read, its key
names a type, and an association gives its port an address. -/
def Entry.Complete (e : Entry) : Prop :=
  ∃ r, e.record = .ok r ∧ ∃ type, r.type = some type ∧
    (type = associateType → AssociationAttributes r.attributes)

/-- The step of `iterips` for an entry. -/
theorem complete_iff :
    (∀ item, ipOf e.record = some item → ∃ pair, ipPair item = .ok pair) ↔ e.Complete := by
  rw [Entry.Complete]
  cases hrecord : e.record with
  | error =>
      refine iff_of_false (fun h => ?_) (by rintro ⟨r, hr, -⟩; cases hr)
      obtain ⟨pair, hno⟩ := h _ rfl
      cases hno
  | ok r =>
      cases htype : r.type with
      | none =>
          refine iff_of_false (fun h => ?_) ?_
          · rw [Record.type, Option.map_eq_none_iff] at htype
            obtain ⟨pair, hno⟩ := h (.error .valueError) (by simp only [ipOf, htype])
            cases hno
          · rintro ⟨r', hr', type, htype', -⟩
            obtain rfl := Except.ok.inj hr'
            rw [htype] at htype'
            cases htype'
      | some type =>
          rw [ipOf_of_type htype]
          constructor
          · intro h
            refine ⟨r, rfl, type, htype, fun hassociate => ?_⟩
            rw [if_pos hassociate] at h
            exact exists_ipPair_iff.mp (h _ rfl)
          · rintro ⟨r', hr', type', htype', hattributes⟩ item hitem
            obtain rfl := Except.ok.inj hr'
            obtain rfl := Option.some.inj (htype.symm.trans htype')
            split_ifs at hitem with hassociate
            obtain rfl := Option.some.inj hitem
            exact exists_ipPair_iff.mpr (hattributes hassociate)

/-- **When the addresses of the ports can be collected.** -/
theorem exists_ips_iff :
    (∃ ips, ipsOf (es.filterMap fun e => ipOf e.record) = .ok ips) ↔ ∀ e ∈ es, e.Complete := by
  have hpairs : (∃ ips, ipsOf (es.filterMap fun e => ipOf e.record) = .ok ips) ↔
      ∃ pairs, (es.filterMap fun e => ipOf e.record).mapM ipPair = .ok pairs := by
    simp only [ipsOf_eq_ok_iff, mapM_eq_ok_iff]
    constructor
    · rintro ⟨-, pairs, hpairs, -⟩
      exact ⟨pairs, hpairs⟩
    · rintro ⟨pairs, hpairs⟩
      exact ⟨_, pairs, hpairs, rfl⟩
  rw [hpairs, exists_mapM_ok_iff]
  simp only [List.mem_filterMap, ← complete_iff]
  constructor
  · exact fun h e he item hitem => h item ⟨e, he, hitem⟩
  · rintro h item ⟨e, he, hitem⟩
    exact h e he item hitem

/-- There is an association. -/
def Associated (es : List Entry) : Prop :=
  ∃ e ∈ es, ∃ r, e.record = .ok r ∧ r.type = some associateType

/-- No address is collected exactly when there is no association. -/
theorem keys_eq_nil_iff_of_ips (hips : ipsOf (es.filterMap fun e => ipOf e.record) = .ok ips) :
    ips.keys = [] ↔ ¬ Associated es := by
  have hcomplete := exists_ips_iff.mp ⟨ips, hips⟩
  rw [ipsOf_keys hips, List.filterMap_eq_nil_iff, Associated]
  simp only [not_exists, not_and]
  refine forall₂_congr fun e he => ?_
  obtain ⟨r, hr, type, htype, -⟩ := hcomplete e he
  rw [hr, ipOf_of_type htype]
  split_ifs with hassociate
  · refine iff_of_false (by simp) fun h => ?_
    exact h r rfl (htype.trans (congrArg some hassociate))
  · refine iff_of_true rfl fun r' hr' htype' => ?_
    obtain rfl := Except.ok.inj hr'
    exact hassociate (Option.some.inj (htype.symm.trans htype'))

/-! ### Hosts -/

/-- What a query receives of an entry. -/
def Entry.item (repr : Json → Text) (ips : Ips) (e : Entry) : Option (Except Raised Host) :=
  (hostOf repr e.record).map (passItem ips)

/-- The attributes that a resource must have for its host to reach a query: those of its
type, and when there are associations no device, and a port that can be looked up. -/
structure Usable (associated : Prop) (type : Text) (raw : Attributes) : Prop where
  attributes : HostAttributes type raw
  noDevice : associated → type ≠ equinixType
  port : associated → type = computeType →
    ∀ v, raw.get? "network.0.port".toList = some v → ∃ k, v.key = .ok k

/-- An entry that stops no query. -/
def Entry.Passes (associated : Prop) (e : Entry) : Prop :=
  ∀ r type, e.record = .ok r → r.type = some type → Usable associated type r.attributes

/-- The name of the host of an entry. -/
def Entry.hostName (e : Entry) : Option Json :=
  match e.record with
  | .ok r => r.hostName
  | .error _ => none

/-- `iter_host_ips` fails on a host whose port has no hash. -/
theorem updateHost_of_noHash {raw : Attributes} {h : Host} (hvars : OpenstackVars raw h)
    {port : Json} {err : Raised} (hport : raw.get? "network.0.port".toList = some port)
    (hkey : port.key = .error err) : updateHost ips h = .error err := by
  obtain ⟨port', hport', hget⟩ := hvars.port
  obtain rfl : port' = port := Option.some.inj (hport'.symm.trans hport)
  rw [updateHost, subscript_eq_ok_iff.mpr hget, ok_bind, hkey]
  rfl

/-- `iter_host_ips` passes an instance whose port has a hash. -/
theorem exists_updateHost_iff {raw : Attributes} {h : Host}
    (hok : openstackHost repr raw = .ok h) :
    (∃ h', updateHost ips h = .ok h') ↔
      ∀ v, raw.get? "network.0.port".toList = some v → ∃ k, v.key = .ok k := by
  have hvars := openstackHost_eq_ok hok
  obtain ⟨port, hport, -⟩ := hvars.port
  constructor
  · rintro ⟨h', hupdate⟩ v hv
    cases hkey : v.key with
    | ok k => exact ⟨k, rfl⟩
    | error err =>
        rw [updateHost_of_noHash hvars hv hkey] at hupdate
        cases hupdate
  · intro h
    obtain ⟨k, hk⟩ := h port hport
    exact ⟨_, updateHost_openstack hvars hport hk⟩

/-- A host passes `iter_host_ips` when there is an address. -/
theorem passItem_of_associated (hips : ips.keys ≠ []) {parsed : Except Raised Host} :
    (∃ h, passItem ips parsed = .ok h) ↔
      ∃ h, parsed = .ok h ∧ ∃ h', updateHost ips h = .ok h' := by
  rw [passItem, if_neg hips, exists_bind_ok_iff]

/-- A record of a type passes when it is usable. -/
theorem exists_passItem_iff {associated : Prop} (hips : ips.keys = [] ↔ ¬ associated)
    {r : Record} {type : Text} (htype : r.type = some type) :
    (∀ item, (hostOf repr (.ok r)).map (passItem ips) = some item → ∃ h, item = .ok h) ↔
      Usable associated type r.attributes := by
  by_cases hassociated : associated
  · have hkeys : ips.keys ≠ [] := fun hno => hips.mp hno hassociated
    simp only [Option.map_eq_some_iff, forall_exists_index, and_imp]
    constructor
    · intro h
      have hok : ∀ parsed, hostOf repr (.ok r) = some parsed →
          ∃ host, parsed = .ok host ∧ ∃ h', updateHost ips host = .ok h' := fun parsed hparsed =>
        (passItem_of_associated hkeys).mp (h _ parsed hparsed rfl)
      exact
        { attributes := (@hostOf_ok_iff repr r type htype).mp fun parsed hparsed => by
            obtain ⟨host, hhost, -⟩ := hok parsed hparsed
            exact ⟨host, hhost⟩
          noDevice := by
            rintro - rfl
            obtain ⟨host, hhost, h', hupdate⟩ := hok _ (hostOf_equinix htype)
            rw [updateHost_of_noPort (equinixMetalDevice_eq_ok hhost).2.1] at hupdate
            cases hupdate
          port := by
            rintro - rfl
            obtain ⟨host, hhost, hupdate⟩ := hok _ (hostOf_compute htype)
            exact (exists_updateHost_iff hhost).mp hupdate }
    · rintro husable item parsed hparsed rfl
      obtain ⟨host, rfl⟩ := (@hostOf_ok_iff repr r type htype).mpr husable.attributes _ hparsed
      refine (passItem_of_associated hkeys).mpr ⟨host, rfl, ?_⟩
      rcases type_of_hostOf hparsed with hequinix | hcompute
      · exact absurd (Option.some.inj (htype.symm.trans hequinix)) (husable.noDevice hassociated)
      · rw [hostOf_compute hcompute, Option.some.injEq] at hparsed
        exact (exists_updateHost_iff hparsed).mpr
          (husable.port hassociated (Option.some.inj (htype.symm.trans hcompute)))
  · have hpass : passItem ips = id := funext fun item => if_pos (hips.mpr hassociated)
    rw [hpass, Option.map_id, id_eq, hostOf_ok_iff htype]
    exact ⟨fun h => ⟨h, fun hno => absurd hno hassociated, fun hno => absurd hno hassociated⟩,
      Usable.attributes⟩

/-- **Which entries stop the stream of hosts.** -/
theorem passes_iff {associated : Prop} (hips : ips.keys = [] ↔ ¬ associated)
    (he : e.Complete) :
    (∀ item, e.item repr ips = some item → ∃ h, item = .ok h) ↔ e.Passes associated := by
  obtain ⟨r, hr, type, htype, -⟩ := he
  rw [Entry.item, hr, exists_passItem_iff hips htype, Entry.Passes]
  constructor
  · intro h r' type' hr' htype'
    obtain rfl := Except.ok.inj (hr.symm.trans hr')
    obtain rfl := Option.some.inj (htype.symm.trans htype')
    exact h
  · exact fun h => h r type hr htype

/-! ### Instances -/

/-- The host of an entry has the name of its instance. -/
theorem hostName_of_item {h : Host} (hitem : e.item repr ips = some (.ok h)) :
    e.hostName = some h.name := by
  obtain ⟨parsed, hparsed, hpass⟩ := Option.map_eq_some_iff.mp hitem
  obtain ⟨host, rfl, hname⟩ := passItem_eq_ok hpass
  rw [Entry.hostName]
  cases hrecord : e.record with
  | error => rw [hrecord] at hparsed; cases hparsed
  | ok r =>
      rw [hrecord] at hparsed
      rw [hname]
      exact hostName_of_hostOf hparsed

/-- An entry that is passed over has no name. -/
theorem hostName_of_item_none (hitem : e.item repr ips = none) : e.hostName = none := by
  rw [Entry.item, Option.map_eq_none_iff] at hitem
  rw [Entry.hostName]
  cases hrecord : e.record with
  | error => rfl
  | ok r =>
      rw [hrecord] at hitem
      change r.hostName = none
      rw [Record.hostName]
      cases htype : r.type.bind nameAttribute with
      | none => rfl
      | some attr =>
          obtain ⟨parsed, hparsed⟩ := @exists_hostOf_of_type repr r attr htype
          rw [hitem] at hparsed
          cases hparsed

/-- `iter_host_ips` changes only the addresses of a host. -/
theorem get?_updateHost {h h' : Host} (hok : updateHost ips h = .ok h') {key : Text}
    (hkey : key ∉ ["access_ip_v4".toList, "access_ip".toList, "public_ipv4".toList,
      "ansible_host".toList]) :
    h'.attrs.get? key = h.attrs.get? key := by
  have hne : key ≠ "access_ip".toList := by
    rintro rfl
    exact hkey (by decide)
  obtain ⟨portId, -, hok⟩ := ok_of_bind hok
  obtain ⟨port, -, hok⟩ := ok_of_bind hok
  obtain ⟨metadata, -, hok⟩ := ok_of_bind hok
  obtain ⟨refused, -, hok⟩ := ok_of_bind hok
  have hlast : ∀ {attrs : Attributes}, attrs.get? key = h.attrs.get? key →
      (if refused = true then do return { h with attrs := ← popAccessIp attrs }
        else return { h with attrs := attrs } : Except Raised Host) = .ok h' →
      h'.attrs.get? key = h.attrs.get? key := by
    intro attrs hsame hok
    cases refused with
    | false =>
        cases hok
        exact hsame
    | true =>
        obtain ⟨popped, hpop, hend⟩ := ok_of_bind hok
        obtain ⟨v, -, herase⟩ := ok_of_bind hpop
        cases hend
        cases herase
        rw [get?_erase_of_ne _ hne]
        exact hsame
  cases hip : ips.get? port with
  | none =>
      rw [hip] at hok
      exact hlast rfl hok
  | some ip =>
      rw [hip] at hok
      exact hlast (get?_withIp _ _ hkey) hok

/-- **The id of an instance is a variable of its host.** -/
theorem id_of_item {h : Host} (hitem : e.item repr ips = some (.ok h)) :
    ∃ r, e.record = .ok r ∧ (∃ attr, r.type.bind nameAttribute = some attr) ∧
      h.attrs.get? "id".toList = r.attributes.get? "id".toList := by
  obtain ⟨parsed, hparsed, hpass⟩ := Option.map_eq_some_iff.mp hitem
  obtain ⟨host, rfl, -⟩ := passItem_eq_ok hpass
  have hkept : h.attrs.get? "id".toList = host.attrs.get? "id".toList := by
    rw [passItem] at hpass
    split_ifs at hpass
    · cases hpass
      rfl
    · exact get?_updateHost hpass (by decide)
  cases hrecord : e.record with
  | error => rw [hrecord] at hparsed; cases hparsed
  | ok r =>
      rw [hrecord] at hparsed
      rw [hkept]
      rcases type_of_hostOf hparsed with htype | htype
      · rw [hostOf_equinix htype, Option.some.injEq] at hparsed
        exact ⟨r, rfl, ⟨"hostname".toList, by rw [htype]; decide⟩,
          (equinixMetalDevice_eq_ok hparsed).2.2⟩
      · rw [hostOf_compute htype, Option.some.injEq] at hparsed
        exact ⟨r, rfl, ⟨"name".toList, by rw [htype]; decide⟩, (openstackHost_eq_ok hparsed).id⟩

/-- Two entries that describe an instance of one type with the same attributes. -/
def SameInstance (e e' : Entry) : Prop :=
  ∃ r r', e.record = .ok r ∧ e'.record = .ok r' ∧ r.type = r'.type ∧
    r.attributes = r'.attributes

/-- They stand for the same host. -/
theorem item_congr {e' : Entry} (h : SameInstance e e') :
    e.item repr ips = e'.item repr ips := by
  obtain ⟨r, r', hr, hr', htype, hattributes⟩ := h
  have hdispatch : dispatch repr r = dispatch repr r' := by
    cases hr₁ : r'.type with
    | none =>
        rw [hr₁] at htype
        rw [Record.type, Option.map_eq_none_iff] at htype hr₁
        rw [dispatch, dispatch, htype, hr₁]
    | some type => rw [dispatch_of_type hr₁, dispatch_of_type (htype.trans hr₁)]
  rw [Entry.item, Entry.item, hr, hr']
  simp only [hostOf, hdispatch, hattributes]

end Kubespray.Terraform
