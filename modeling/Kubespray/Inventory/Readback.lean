import Kubespray.Inventory.Assigned
import Kubespray.Inventory.HostIds
import Kubespray.Inventory.Layout

/-!
# Adding to an Inventory of One's Own

A further `add` starts by reading the stored inventory back: the identifiers in the names
that start with `HOST_PREFIX`, and the addresses in the options. The options are always
the builder's own, so the addresses are there. The names are not: an explicit hostname may
start with the prefix and end in anything, and then the run gives up with status 1.

## Main results

* `optionedDisk_step`: histories leave options that can be read.
* `hostMap_append`: what an `add` of one address makes of a stored inventory.
* `singleAddress_of_accepts`: an argument that is taken for something else is not accepted.
* `accepts_history_iff`: in every history, exactly which stored inventories accept a new
  address and keep what they have.
-/

namespace Kubespray.Inventory

open OrderedDict Fallible Histories

/-! ### Options that the builder wrote -/

/-- Every host has options of the form that the builder writes. -/
def Optioned (d : OrderedDict Text Value) : Prop :=
  ∀ k, ∀ v ∈ d.get? k, ∃ accessIp ip, v = hostOpts accessIp ip

namespace Optioned

variable {d e : OrderedDict Text Value}

theorem empty : Optioned OrderedDict.empty := by
  intro k v hv
  cases hv

theorem set (h : Optioned d) (name accessIp ip : Text) :
    Optioned (d.set name (hostOpts accessIp ip)) := by
  intro k v hv
  rw [get?_set] at hv
  split_ifs at hv with hk
  · cases hv
    exact ⟨accessIp, ip, rfl⟩
  · exact h k v hv

theorem erase (h : Optioned d) (name : Text) : Optioned (d.erase name) := by
  intro k v hv
  by_cases hk : k = name
  · rw [hk, get?_erase_self] at hv
    cases hv
  · rw [get?_erase_of_ne d hk] at hv
    exact h k v hv

theorem retain (h : Optioned d) (keep : Text → Bool) : Optioned (d.retain keep) := by
  intro k v hv
  exact h k v (get?_of_get?_retain hv)

theorem overlay (h : Optioned d) (he : Optioned e) : Optioned (d.overlay e) := by
  intro k v hv
  rw [get?_overlay] at hv
  cases hget : e.get? k with
  | none =>
      rw [hget, Option.none_or] at hv
      exact h k v hv
  | some w =>
      rw [hget, Option.some_or] at hv
      cases hv
      exact he k v hget

/-- The search for an address reads every entry. -/
theorem findByIp_ok (ip : Text) {entries : List (Text × Value)}
    (h : ∀ e ∈ entries, ∃ accessIp ip, e.2 = hostOpts accessIp ip) :
    ∃ found, findByIp ip entries = .ok found := by
  induction entries with
  | nil => exact ⟨none, rfl⟩
  | cons e entries ih =>
      obtain ⟨name, opts⟩ := e
      obtain ⟨accessIp, hostIp, hopts⟩ := h (name, opts) List.mem_cons_self
      obtain rfl : opts = hostOpts accessIp hostIp := hopts
      obtain ⟨found, hfound⟩ := ih fun e he => h e (List.mem_cons_of_mem _ he)
      by_cases hip : (Value.str hostIp).isStr ip = true
      · refine ⟨some name, bind_eq_ok_iff.mpr ⟨_, getIpFromOpts_hostOpts _ _, ?_⟩⟩
        rw [if_pos hip]
        rfl
      · refine ⟨found, bind_eq_ok_iff.mpr ⟨_, getIpFromOpts_hostOpts _ _, ?_⟩⟩
        rw [if_neg hip, hfound]

/-- **`exists_ip` decides whether a host has the address**, on options of the builder's
own. -/
theorem existsIp_ok (h : Optioned d) (ip : Text) :
    ∃ b, existsIp d ip = .ok b ∧ (b = true ↔ ∃ name, ipOf d name = some ip) := by
  obtain ⟨found, hfound⟩ := findByIp_ok ip (forall_get?_iff.mp h)
  refine ⟨found.isSome, bind_eq_ok_iff.mpr ⟨found, hfound, rfl⟩, ?_⟩
  cases found with
  | some name =>
      obtain ⟨opts, hmem, hget⟩ := findByIp_some hfound
      have hip : ipOf d name = some ip := by simp only [ipOf, get?_of_mem_entries hmem, hget]
      simpa using ⟨name, hip⟩
  | none =>
      refine iff_of_false (by simp) ?_
      rintro ⟨name, hname⟩
      obtain ⟨opts, hopts⟩ : ∃ opts, d.get? name = some opts := by
        cases hget : d.get? name with
        | none => simp [ipOf, hget] at hname
        | some opts => exact ⟨opts, rfl⟩
      obtain ⟨accessIp, hostIp, rfl⟩ := h name opts hopts
      obtain ⟨v, hv, hno⟩ := findByIp_none hfound (mem_entries_of_get? hopts)
      simp only [ipOf, hopts, getIpFromOpts_hostOpts, Option.some.injEq] at hname
      rw [getIpFromOpts_hostOpts] at hv
      cases hv
      simp [Value.isStr, hname] at hno

end Optioned

variable {env : Env} {r : Run} {disk : Disk} {doc : Document}

/-- The walk over the arguments keeps the options readable. -/
theorem Optioned.walk {args : List Text} {w w' : Walk} (hw : Optioned w.allHosts)
    (h : args.foldlM (stepHost env) w = .ok w') : Optioned w'.allHosts := by
  refine foldlM_invariant (I := fun w : Walk => Optioned w.allHosts)
    (fun w arg w' _ hw hstep => ?_) hw h
  rcases stepHost_guarded hstep with heq | ⟨-, name, -, -, heq⟩ | ⟨name, accessIp, ip, -, heq⟩
  · rw [heq]
    exact hw
  · rw [heq]
    exact hw.erase name
  · rw [heq]
    exact hw.set name accessIp ip

/-- The inventory file is absent, or the builder wrote it, options included. -/
def OptionedDisk (disk : Disk) : Prop :=
  WrittenDisk disk ∧ ∀ doc ∈ disk, Optioned (storedHosts doc)

/-- Without a file there are no options. -/
theorem optionedDisk_none : OptionedDisk none := by
  constructor <;> intro doc hdoc <;> cases hdoc

/-- The options a run starts from are the builder's own. -/
theorem OptionedDisk.carriedHosts (hdisk : OptionedDisk disk) (r : Run) :
    Optioned (r.carriedHosts disk) := by
  rcases Run.carriedHosts_cases r disk with heq | ⟨doc, hdoc, heq⟩ <;> rw [heq]
  · exact .empty
  · exact hdisk.2 doc hdoc

/-- The host map of a run has the builder's own options. -/
theorem OptionedDisk.hostMap (hdisk : OptionedDisk disk) {hosts : OrderedDict Text Value}
    (h : r.hostMap disk = .ok hosts) : Optioned hosts := by
  obtain ⟨expanded, highest, w, -, hwalk, rfl⟩ := Run.hostMap_walk hdisk.1 h
  exact Optioned.walk (hdisk.carriedHosts r) hwalk

/-- Histories leave options of the builder's own. -/
theorem optionedDisk_step (r : Run) (disk : Disk) (doc : Document) (hdisk : OptionedDisk disk)
    (hrun : isHostRun r.argv = true) (hdoc : doc ∈ r.writes disk) : OptionedDisk (some doc) := by
  refine ⟨writtenDisk_step r disk doc hdisk.1 hrun hdoc, fun doc' hdoc' => ?_⟩
  cases hdoc'
  obtain ⟨hosts, cfg, hmap, -, rfl, hhosts, -⟩ := writes_canonical hdisk.1 hrun hdoc
  rw [storedHosts_toDocument hhosts]
  exact ((hdisk.carriedHosts r).retain _).overlay (hdisk.hostMap hmap)

/-! ### A further `add` -/

/-- `add` with some arguments. -/
def addRun (env : Env) (files : Text → Option (Option Value)) (args : List Text) : Run :=
  { env := env, files := files, argv := "add".toList :: args }

/-- An address that no stored host has. -/
def NewAddress (doc : Document) (x : Text) : Prop :=
  ∀ name, ipOf (storedHosts doc) name ≠ some x

/-- An argument that the loop takes for one address: a word that begins with a digit. Of the
addresses, IPv6 ones may begin with a letter or a colon, and have a comma or a dash in their
scope. -/
structure SingleAddress (env : Env) (x : Text) : Prop where
  digit : x.head?.any env.chars.isdigit = true
  comma : ',' ∉ x
  dash : '-' ∉ x

/-- The hostname that a run gives to the first address it adds. -/
def nextName (env : Env) (highest : ℕ) : Option Text :=
  if env.useRealHostname then env.sshReply 0 else some (generatedName env (highest + 1))

/-- The run writes an inventory in which the address has a host and every stored host has
the options that it had. -/
def Accepts (r : Run) (doc : Document) (x : Text) : Prop :=
  ∃ doc' ∈ r.writes (some doc),
    (∃ name, ipOf (storedHosts doc') name = some x) ∧
    ∀ name, ∀ opts ∈ (storedHosts doc).get? name, opts ∈ (storedHosts doc').get? name

/-- The stored names can be read back, and neither the address nor the hostname that it
will get is one of them. -/
structure ReadsBack (env : Env) (doc : Document) (x : Text) : Prop where
  readable : ∀ name ∈ hostNames doc, ReadableName env name
  unnamed : x ∉ hostNames doc
  fresh : ∀ highest, highestHostId env (hostNames doc) = .ok highest →
    ∀ name ∈ nextName env highest, name ∉ hostNames doc

variable {files : Text → Option (Option Value)} {x : Text}

/-- How such an argument begins. -/
theorem SingleAddress.cases (h : SingleAddress env x) :
    ∃ c rest, x = c :: rest ∧ env.chars.isdigit c = true ∧ c ≠ '-' := by
  cases x with
  | nil => exact absurd h.digit (by simp)
  | cons c rest =>
      refine ⟨c, rest, rfl, by simpa using h.digit, ?_⟩
      rintro rfl
      exact h.dash List.mem_cons_self

/-- Arguments that begin with no dash do not begin with a removal. -/
theorem removalFirst_eq_false {args : List Text}
    (h : ∀ t ∈ args.head?, ∃ c rest, t = c :: rest ∧ c ≠ '-') :
    removalFirst args = .ok false := by
  cases args with
  | nil => rfl
  | cons t args =>
      obtain ⟨c, rest, rfl, hdash⟩ := h t rfl
      rw [removalFirst, decide_eq_false hdash]

/-- Arguments without a dash are not expanded. -/
theorem range2ips_of_noDash {args : List Text} (h : ∀ t ∈ args, '-' ∉ t) :
    range2ips env args = .ok args := by
  have hmap : args.mapM (expandHost env) = .ok (args.map fun t => [t]) := by
    refine mapM_eq_ok_iff.mpr ?_
    rw [List.map_map]
    exact List.map_congr_left fun t ht => if_neg fun hrange => h t ht hrange.1
  rw [range2ips, hmap, ok_bind, ← List.flatMap_def, List.flatMap_singleton']
  rfl

/-- An `add` run names hosts. -/
theorem isHostRun_addRun (env : Env) (files : Text → Option (Option Value)) (args : List Text) :
    isHostRun (addRun env files args).argv = true :=
  decide_eq_true (Or.inl rfl)

/-- An `add` run starts from the stored document. -/
theorem base_addRun (hfile : env.configFile = true) {args : List Text}
    (hremoval : removalFirst args = .ok false) :
    (addRun env files args).base (some doc) = .ok doc := by
  have hargs : (addRun env files args).changedHosts = args := rfl
  rw [Run.base, hargs, hremoval]
  unfold loadedDocument
  exact if_pos ⟨hfile, rfl⟩

/-- An `add` run starts from the stored hosts. -/
theorem carriedHosts_addRun (hfile : env.configFile = true) {args : List Text}
    (hremoval : removalFirst args = .ok false) :
    (addRun env files args).carriedHosts (some doc) = storedHosts doc := by
  rw [Run.carriedHosts, base_addRun hfile hremoval]

/-- The host map of an `add` run is built on the stored hosts. -/
theorem hostMap_addRun (hdoc : Written doc) (hfile : env.configFile = true) {args : List Text}
    (hremoval : removalFirst args = .ok false) {expanded : List Text}
    (hexpanded : range2ips env args = .ok expanded) :
    ∃ cfg, cfg.hosts = .is (storedHosts doc) ∧
      (addRun env files args).hostMap (some doc) = buildHostnames env cfg expanded true := by
  obtain ⟨cfg, hcfg, -, hd⟩ := ensureRequiredGroups_ok (Or.inr hdoc)
  exact ⟨cfg, hd, Run.hostMap_of_parts hremoval (base_addRun hfile hremoval) hcfg hexpanded⟩

/-- The single argument of such a run is no removal. -/
theorem SingleAddress.removalFirst (h : SingleAddress env x) : removalFirst [x] = .ok false := by
  obtain ⟨c, rest, rfl, -, hdash⟩ := h.cases
  refine removalFirst_eq_false fun t ht => ?_
  cases ht
  exact ⟨c, rest, rfl, hdash⟩

/-- **What an `add` of one address makes of a stored inventory**: it gives up when a name
cannot be read back, and otherwise gives the address the next hostname, unless that of a
host is the address itself. -/
theorem hostMap_append (hdoc : Written doc) (hopts : Optioned (storedHosts doc))
    (hfile : env.configFile = true) (h : SingleAddress env x) (hnew : NewAddress doc x) :
    (addRun env files [x]).hostMap (some doc) =
      match highestHostId env (hostNames doc) with
      | .error _ => .error (.exit 1)
      | .ok highest =>
        if x ∈ hostNames doc then .ok (storedHosts doc)
        else
          match nextName env highest with
          | some name => .ok ((storedHosts doc).set name (hostOpts x x))
          | none => .error .calledProcessError := by
  have hexpanded : range2ips env [x] = .ok [x] :=
    range2ips_of_noDash fun t ht => by
      rw [List.mem_singleton.mp ht]
      exact h.dash
  obtain ⟨cfg, hd, hmap⟩ := @hostMap_addRun env doc files hdoc hfile _ h.removalFirst _ hexpanded
  obtain ⟨c, rest, rfl, hdigit, hdash⟩ := h.cases
  rw [hmap, buildHostnames, existingHosts, if_pos rfl, hd]
  dsimp only
  rw [keys_storedHosts]
  cases hid : highestHostId env (hostNames doc) with
  | error e => rfl
  | ok highest =>
      have hunpack : unpackAddress (c :: rest) = .ok (c :: rest, c :: rest) := by
        rw [unpackAddress, if_neg h.comma]
      have hunknown : existsIp (storedHosts doc) (c :: rest) = .ok false := by
        obtain ⟨b, hb, hiff⟩ := hopts.existsIp_ok (c :: rest)
        have hfalse : b = false := by
          rw [Bool.eq_false_iff, ne_eq, hiff, not_exists]
          exact hnew
        rw [hb, hfalse]
      have hstep : ∀ w : Walk, stepHost env w (c :: rest) = addAddress env w (c :: rest) := by
        intro w
        rw [stepHost, if_neg hdash, if_pos hdigit]
      dsimp only
      rw [ok_bind, List.foldlM_cons, hstep, addAddress, hunpack, ok_bind]
      by_cases hname : c :: rest ∈ hostNames doc
      · have hex : existsHostname (storedHosts doc) (c :: rest) = true :=
          decide_eq_true (by rwa [keys_storedHosts])
        rw [if_pos hname]
        simp only [Walk.start, hex]
        rfl
      · have hex : existsHostname (storedHosts doc) (c :: rest) = false :=
          decide_eq_false (by rwa [keys_storedHosts])
        rw [if_neg hname]
        simp only [Walk.start, hex, hunknown, Bool.false_eq_true, if_false]
        rw [ok_bind, if_neg Bool.false_ne_true, nextHost, nextName]
        by_cases hreal : env.useRealHostname = true
        · rw [if_pos hreal, if_pos hreal]
          cases env.sshReply 0 <;> rfl
        · rw [if_neg hreal, if_neg hreal]
          rfl

/-- What is stored after an `add` of one address that worked out its host map. -/
theorem storedHosts_addRun (hdoc : Written doc) (hfile : env.configFile = true)
    (h : SingleAddress env x) {doc' : Document}
    (hwrites : doc' ∈ (addRun env files [x]).writes (some doc)) {hosts : OrderedDict Text Value}
    (hmap : (addRun env files [x]).hostMap (some doc) = .ok hosts)
    (hadd : (storedHosts doc).keys <+: hosts.keys) : storedHosts doc' = hosts := by
  have hdisk : WrittenDisk (some doc) := writtenDisk_some hdoc
  refine storedHosts_of_writes hdisk (isHostRun_addRun env files [x]) hwrites hmap ?_
  rw [carriedHosts_addRun hfile h.removalFirst]
  exact hadd

/-- A run that accepts an address can read the inventory back. -/
theorem readsBack_of_accepts (hdoc : Written doc) (hopts : Optioned (storedHosts doc))
    (hfile : env.configFile = true) (h : SingleAddress env x) (hnew : NewAddress doc x)
    (haccepts : Accepts (addRun env files [x]) doc x) : ReadsBack env doc x := by
  obtain ⟨doc', hwrites, ⟨name, hip⟩, hkeep⟩ := haccepts
  have hdisk : WrittenDisk (some doc) := writtenDisk_some hdoc
  obtain ⟨hosts, -, hmap, -⟩ := writes_canonical hdisk (isHostRun_addRun env files [x]) hwrites
  have happend := @hostMap_append env doc files x hdoc hopts hfile h hnew
  cases hid : highestHostId env (hostNames doc) with
  | error e =>
      rw [hid, hmap] at happend
      cases happend
  | ok highest =>
      rw [hid, hmap] at happend
      dsimp only at happend
      by_cases hx : x ∈ hostNames doc
      · rw [if_pos hx] at happend
        cases happend
        have hsame := storedHosts_addRun hdoc hfile h hwrites hmap (List.prefix_refl _)
        rw [hsame] at hip
        exact absurd hip (hnew name)
      · rw [if_neg hx] at happend
        refine ⟨exists_highestHostId_iff.mp ⟨highest, hid⟩, hx, ?_⟩
        intro highest' hid' next hnext hmem
        obtain rfl : highest = highest' := Except.ok.inj (hid.symm.trans hid')
        rw [Option.mem_def.mp hnext] at happend
        cases happend
        have hset := storedHosts_addRun hdoc hfile h hwrites hmap
          (by rw [keys_set]; exact prefix_addKey _ _)
        obtain ⟨old, hold⟩ := mem_keys_iff.mp (by rwa [keys_storedHosts] : next ∈ _)
        have hsame := hkeep next old hold
        rw [hset, get?_set_self, Option.mem_some_iff] at hsame
        rw [← hsame] at hold
        exact hnew next (ipOf_eq_of_get? hold)

/-- A run that can read the inventory back accepts the address, provided that the look-up
of its hostname, if there is one, is answered. -/
theorem accepts_of_readsBack (hdoc : Written doc) (hopts : Optioned (storedHosts doc))
    (hfile : env.configFile = true)
    (hlookup : env.useRealHostname = true → (env.sshReply 0).isSome = true)
    (h : SingleAddress env x) (hnew : NewAddress doc x) (hread : ReadsBack env doc x) :
    Accepts (addRun env files [x]) doc x := by
  have hdisk : WrittenDisk (some doc) := writtenDisk_some hdoc
  obtain ⟨highest, hid⟩ := exists_highestHostId_iff.mpr hread.readable
  obtain ⟨next, hnext⟩ : ∃ next, nextName env highest = some next := by
    rw [nextName]
    by_cases hreal : env.useRealHostname = true
    · rw [if_pos hreal]
      exact Option.isSome_iff_exists.mp (hlookup hreal)
    · rw [if_neg hreal]
      exact ⟨_, rfl⟩
  have hmap := @hostMap_append env doc files x hdoc hopts hfile h hnew
  rw [hid] at hmap
  dsimp only at hmap
  rw [if_neg hread.unnamed, hnext] at hmap
  obtain ⟨cfg, hwrites, -⟩ :=
    Run.writes_of_hostMap hdisk (isHostRun_addRun env files [x]) hfile (List.cons_ne_nil x []) hmap
  have hset := storedHosts_addRun hdoc hfile h hwrites hmap
    (by rw [keys_set]; exact prefix_addKey _ _)
  refine ⟨cfg.toDocument, hwrites, ⟨next, ?_⟩, fun name opts hget => ?_⟩
  · rw [hset]
    exact ipOf_eq_of_get? (get?_set_self _ _ _)
  · have hne : name ≠ next := by
      rintro rfl
      refine hread.fresh highest hid name hnext ?_
      rw [← keys_storedHosts]
      exact mem_keys_iff.mpr ⟨opts, hget⟩
    rw [hset, get?_set_of_ne _ _ hne]
    exact hget

/-! ### Arguments that are taken for something else -/

/-- **What is unpacked as an address** has no comma and stands in the argument, and it is the
whole argument if that has no comma. -/
theorem ip_of_unpacked {w w₁ : Walk} {t : Text} (hip : w.ip ≠ some x)
    (h : unpacked env w t = .ok w₁) (hw : w₁.ip = some x) :
    ',' ∉ x ∧ x ⊆ t ∧ (',' ∉ t → t = x ∧ startsWithDigit env t = true) := by
  rw [unpacked] at h
  split_ifs at h with hdigit
  · obtain ⟨⟨ip, accessIp⟩, hunpack, h⟩ := ok_of_bind h
    cases h
    obtain rfl := Option.some.inj hw
    rw [unpackAddress] at hunpack
    split_ifs at hunpack with hcomma
    · split at hunpack
      · rename_i hparts
        cases hunpack
        obtain ⟨hno, hsub⟩ := spec_of_mem_splitOn (hparts ▸ List.mem_cons_self)
        exact ⟨hno, hsub, fun h => absurd hcomma h⟩
      · cases hunpack
    · cases hunpack
      exact ⟨hcomma, List.Subset.refl t, fun _ => ⟨rfl, hdigit⟩⟩
  · rw [unpackHostname] at h
    split_ifs at h with hcomma
    · split at h
      · rename_i hparts
        cases h
        obtain rfl := Option.some.inj hw
        obtain ⟨hno, hsub⟩ :=
          spec_of_mem_splitOn (hparts ▸ List.mem_cons_of_mem _ List.mem_cons_self)
        exact ⟨hno, hsub, fun h => absurd hcomma h⟩
      · rename_i hparts
        cases h
        obtain rfl := Option.some.inj hw
        obtain ⟨hno, hsub⟩ :=
          spec_of_mem_splitOn (hparts ▸ List.mem_cons_of_mem _ List.mem_cons_self)
        exact ⟨hno, hsub, fun h => absurd hcomma h⟩
      · cases h
    · cases h
      exact absurd hw hip

/-- One argument, expanded. -/
theorem range2ips_singleton {expanded : List Text} (h : range2ips env [x] = .ok expanded) :
    ∃ texts, expandHost env x = .ok texts ∧ texts = expanded := by
  obtain ⟨parts, hparts, hflat⟩ := ok_of_bind h
  have hmap : [expandHost env x] = parts.map .ok := mapM_eq_ok_iff.mp hparts
  obtain ⟨texts, rfl, htexts⟩ := List.map_eq_singleton_iff.mp hmap.symm
  refine ⟨texts, htexts.symm, ?_⟩
  rw [← Except.ok.inj hflat, List.flatten_singleton]

/-- Neither a host nor the variable of the loop has the address. -/
def Unheard (x : Text) (w : Walk) : Prop :=
  (∀ name, ipOf w.allHosts name ≠ some x) ∧ w.ip ≠ some x

/-- An argument that is not unpacked into the address does not bring it in. -/
theorem Unheard.stepHost {w w' : Walk} {t : Text} (h : Unheard x w)
    (hstep : stepHost env w t = .ok w')
    (hno : ∀ w₁, unpacked env w t = .ok w₁ → w₁.ip ≠ some x) : Unheard x w' := by
  obtain ⟨hhosts, hip⟩ := h
  by_cases hdash : t.head? = some '-'
  · obtain ⟨rest, rfl⟩ := List.head?_eq_some_iff.mp hdash
    have hremove : removeHost w rest = .ok w' := hstep
    refine ⟨fun name hname => ?_, by rw [removeHost_keeps hremove]; exact hip⟩
    rcases removeHost_spec hremove with heq | ⟨gone, -, heq⟩
    · rw [heq] at hname
      exact hhosts name hname
    · rw [heq, ipOf] at hname
      by_cases hgone : name = gone
      · rw [hgone, get?_erase_self] at hname
        cases hname
      · rw [get?_erase_of_ne _ hgone] at hname
        exact hhosts name hname
  · cases hread : isRead env t with
    | false =>
        rw [stepHost_of_not_isRead hread hdash hstep]
        exact ⟨hhosts, hip⟩
    | true =>
        obtain ⟨w₁, hunpack, ⟨-, rfl⟩ | ⟨a, w₂, ha, hname, rfl⟩⟩ :=
          stepHost_isRead_cases hread hstep
        · rw [Unheard, (unpacked_keeps hunpack).1]
          exact ⟨hhosts, hno w' hunpack⟩
        · obtain ⟨-, -, -, w₁', hunpack', haip, -⟩ := assigned_eq_some_iff.mp ha
          obtain rfl : w₁ = w₁' := Except.ok.inj (hunpack.symm.trans hunpack')
          refine ⟨fun name hget => ?_, (nameFor_ip hname).symm ▸ hno w₁ hunpack⟩
          by_cases heq : name = a.name
          · have hassigned : ipOf (a.apply w.allHosts) a.name = some a.ip :=
              ipOf_eq_of_get? (get?_set_self _ _ _)
            rw [heq] at hget
            exact hno w₁ hunpack (haip.trans (hassigned.symm.trans hget))
          · rw [ipOf, HostAssignment.apply, get?_set_of_ne _ _ heq] at hget
            exact hhosts name hget

/-- An argument that is not taken for an address is unpacked into other ones, if into any. -/
theorem SingleAddress.of_unpacked {w w₁ : Walk} {t : Text} {texts : List Text}
    (hexpanded : expandHost env x = .ok texts) (ht : t ∈ texts) (hip : w.ip ≠ some x)
    (h : unpacked env w t = .ok w₁) (hw : w₁.ip = some x) : SingleAddress env x := by
  obtain ⟨hcomma, hsub, hwhole⟩ := ip_of_unpacked hip h hw
  by_cases hrange : IsRange env x
  · exact absurd (hsub hrange.1) (dash_notMem_of_isRange hrange hexpanded ht)
  · rw [expandHost_of_not_isRange hrange] at hexpanded
    cases hexpanded
    obtain rfl := List.mem_singleton.mp ht
    obtain ⟨-, hdigit⟩ := hwhole hcomma
    refine ⟨hdigit, hcomma, fun hdash => hrange ⟨hdash, ?_⟩⟩
    cases t with
    | nil => cases hdash
    | cons c rest =>
        rintro (hhead | hletter)
        · obtain rfl : c = '-' := Option.some.inj hhead
          exact absurd (hdigit.symm.trans (env.chars.isdigit_ascii '-' (by decide))) (by decide)
        · exact absurd (hdigit.symm.trans (env.chars.isalpha_not_isdigit c hletter)) (by decide)

/-- A run that brings in a new address takes the argument for one. -/
theorem singleAddress_of_accepts (hdoc : Written doc) (hnew : NewAddress doc x)
    (haccepts : Accepts (addRun env files [x]) doc x) : SingleAddress env x := by
  by_contra hbare
  obtain ⟨doc', hwrites, ⟨name, hip⟩, -⟩ := haccepts
  have hdisk : WrittenDisk (some doc) := writtenDisk_some hdoc
  have hcarried : ∀ name, ipOf ((addRun env files [x]).carriedHosts (some doc)) name ≠ some x := by
    intro name
    rcases Run.carriedHosts_cases (addRun env files [x]) (some doc) with heq | ⟨doc₁, hdoc₁, heq⟩
    · rw [heq]
      intro hname
      cases hname
    · cases hdoc₁
      rw [heq]
      exact hnew name
  obtain ⟨hosts, cfg, hmap, -, rfl, hhosts, -⟩ :=
    writes_canonical hdisk (isHostRun_addRun env files [x]) hwrites
  obtain ⟨expanded, highest, w, hexpanded, hwalk, rfl⟩ := Run.hostMap_walk hdisk hmap
  obtain ⟨texts, htexts, rfl⟩ := range2ips_singleton hexpanded
  have hunheard : Unheard x w := by
    refine foldlM_invariant (I := Unheard x) (fun w t w' ht hw hstep => ?_) ⟨hcarried, ?_⟩ hwalk
    · exact hw.stepHost hstep fun w₁ hunpack hip =>
        hbare (SingleAddress.of_unpacked htexts ht hw.2 hunpack hip)
    · exact fun h => by cases h
  rw [storedHosts_toDocument hhosts, ipOf, get?_overlay] at hip
  cases hget : w.allHosts.get? name with
  | some opts =>
      rw [hget, Option.some_or] at hip
      exact hunheard.1 name (by rw [ipOf, hget]; exact hip)
  | none =>
      rw [hget, Option.none_or] at hip
      cases hold : (((addRun env files [x]).carriedHosts (some doc)).retain
          (kept w.allHosts.keys)).get? name with
      | none =>
          rw [hold] at hip
          cases hip
      | some opts =>
          rw [hold] at hip
          exact hcarried name (by rw [ipOf, get?_of_get?_retain hold]; exact hip)

/-- **Which of its own inventories the builder accepts**, over whole histories: a further
`add` of a new address succeeds and keeps every host exactly when the loop takes the argument
for an address, the stored names that start with its prefix end in a number and the new
hostname is not taken. -/
theorem accepts_history_iff (runs : List Run) :
    EveryWritten (fun _ doc => ∀ env files x, env.configFile = true →
      (env.useRealHostname = true → (env.sshReply 0).isSome = true) → NewAddress doc x →
        (Accepts (addRun env files [x]) doc x ↔
          SingleAddress env x ∧ ReadsBack env doc x)) runs := by
  refine along_of_invariant (I := OptionedDisk) (fun disk r disk' hdisk hstep => ?_)
    optionedDisk_none runs
  have hrun := (builderStep_cases hstep).1
  refine ⟨disk_invariant optionedDisk_step hdisk hstep, fun doc hdoc => ?_⟩
  have hwritten := optionedDisk_step r disk doc hdisk hrun hdoc
  have hstored := hwritten.1 doc rfl
  have hopts := hwritten.2 doc rfl
  intro env files x hfile hlookup hnew
  constructor
  · intro haccepts
    have hbare := singleAddress_of_accepts hstored hnew haccepts
    exact ⟨hbare, readsBack_of_accepts hstored hopts hfile hbare hnew haccepts⟩
  · rintro ⟨hbare, hread⟩
    exact accepts_of_readsBack hstored hopts hfile hlookup hbare hnew hread

/-- A fresh build with one host, which is called `nodeA`. -/
def nodeARun : Run :=
  { env := .default, files := fun _ => none, argv := ["nodeA,10.0.0.1".toList] }

/-- After a fresh build of `nodeA` the next address aborts the run: the name starts with
the prefix and has no number. -/
theorem accepts_history_fails :
    ¬ ∀ runs, EveryWritten (fun _ doc => ∀ env files x, env.configFile = true →
      (env.useRealHostname = true → (env.sshReply 0).isSome = true) →
        (ipAddress x).isSome = true → NewAddress doc x →
          Accepts (addRun env files [x]) doc x) runs := by
  intro h
  obtain ⟨disk, hstep⟩ := Option.isSome_iff_exists.mp
    (show (builderStep none nodeARun).isSome = true by decide)
  obtain ⟨doc, hdoc⟩ := Option.isSome_iff_exists.mp
    (show (nodeARun.writes none).isSome = true by decide)
  have hnames : (nodeARun.writes none).map hostNames = some ["nodeA".toList] := by decide
  have hips : (nodeARun.writes none).map (fun doc => ipOf (storedHosts doc) "nodeA".toList)
      = some (some "10.0.0.1".toList) := by
    decide
  rw [hdoc, Option.map_some, Option.some.injEq] at hnames hips
  have hnew : NewAddress doc "10.0.0.2".toList := by
    intro name hname
    have hmem : name ∈ hostNames doc := by
      rw [← keys_storedHosts, mem_keys_iff]
      cases hget : (storedHosts doc).get? name with
      | none => simp [ipOf, hget] at hname
      | some opts => exact ⟨opts, rfl⟩
    rw [hnames, List.mem_singleton] at hmem
    rw [hmem, hips] at hname
    exact absurd hname (by decide)
  have hbare : SingleAddress .default "10.0.0.2".toList := ⟨by decide, by decide, by decide⟩
  have hwritten := optionedDisk_step nodeARun none doc optionedDisk_none (by decide) hdoc
  have haccepts := ((along_cons_of_some hstep []).mp (h [nodeARun])).1 doc hdoc
    .default (fun _ => none) "10.0.0.2".toList rfl (fun h => by cases h) (by decide) hnew
  have hread :=
    readsBack_of_accepts (hwritten.1 doc rfl) (hwritten.2 doc rfl) rfl hbare hnew haccepts
  exact absurd (hread.readable "nodeA".toList (by rw [hnames]; decide)) (by decide)

end Kubespray.Inventory
