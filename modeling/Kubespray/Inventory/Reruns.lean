import Kubespray.Inventory.Readback

/-!
# Runs That Change Nothing

An `add` run whose addresses are all stored already executes every step again: it reads
the inventory back, purges, and fills the groups by the same rules. The rules read what
earlier runs of other sizes have left. Placing the same hosts again nevertheless changes
nothing, because each rule depends on the host list and on groups that are filled before
it, and adds what it has added already.

## Main results

* `place_again`: placing the same hosts twice is placing them once.
* `bareDisk_step`: bare addresses leave inventories that can be read back.
* `rerun_history`: over whole histories of bare addresses, such an `add` writes back
  exactly what it loaded.
-/

namespace Kubespray.Inventory

open OrderedDict Fallible Histories

/-! ### Placing the same hosts again -/

section Place

variable {env : Env} {conflict : Text → Bool} {hosts : List Text} {a : Assignment}

/-- Additions that are carried over whole and added again. -/
theorem addKeys_filter_kept {ks added : List Text} (hadded : ∀ h ∈ added, h ∈ hosts) :
    addKeys ((addKeys (ks.filter (kept hosts)) added).filter (kept hosts)) added
      = addKeys (ks.filter (kept hosts)) added := by
  have hkept : (addKeys (ks.filter (kept hosts)) added).filter (kept hosts)
      = addKeys (ks.filter (kept hosts)) added := by
    rw [List.filter_eq_self]
    intro h hmem
    rcases mem_addKeys.mp hmem with hold | hnew
    · exact (List.mem_filter.mp hold).2
    · exact decide_eq_true (Or.inl (hadded h hnew))
  rw [hkept]
  exact addKeys_of_subset fun h hmem => mem_addKeys.mpr (Or.inr hmem)

/-- The scale rules exclude the same hosts after a second placement. -/
theorem excluded_again (h : Text) :
    excluded env (place env conflict hosts (place env conflict hosts a)) h
      = excluded env (place env conflict hosts a) h := by
  have hhosts : (place env conflict hosts (place env conflict hosts a)).hosts
      = (place env conflict hosts a).hosts :=
    addKeys_filter_kept fun h hmem => hmem
  have hetcd : (place env conflict hosts (place env conflict hosts a)).group etcd
      = (place env conflict hosts a).group etcd := by
    rw [place_etcd, place_etcd]
    exact addKeys_filter_kept fun h hmem => List.mem_of_mem_take hmem
  have hcontrol : (place env conflict hosts (place env conflict hosts a)).group kubeControlPlane
      = (place env conflict hosts a).group kubeControlPlane := by
    rw [place_kubeControlPlane, place_kubeControlPlane]
    exact addKeys_filter_kept fun h hmem => mem_of_mem_controlPlaneHosts hmem
  rw [excluded, hhosts, hetcd, hcontrol]
  rfl

/-- **Placing the same hosts again changes no role group.** -/
theorem place_again {role : Text} (hrole : role ∈ hostRoles) :
    (place env conflict hosts (place env conflict hosts a)).group role
      = (place env conflict hosts a).group role := by
  simp only [hostRoles, List.mem_cons, List.not_mem_nil, or_false] at hrole
  rcases hrole with rfl | rfl | rfl | rfl
  · rw [place_etcd, place_etcd]
    exact addKeys_filter_kept fun h hmem => List.mem_of_mem_take hmem
  · rw [place_kubeControlPlane, place_kubeControlPlane]
    exact addKeys_filter_kept fun h hmem => mem_of_mem_controlPlaneHosts hmem
  · rw [place_kubeNode, List.filter_congr fun h _ => congrArg Bool.not (excluded_again h),
      place_kubeNode]
    exact addKeys_filter_kept fun h hmem => List.mem_of_mem_filter hmem
  · rw [place_calicoRr, place_calicoRr]
    exact addKeys_filter_kept fun h hmem => mem_of_mem_calicoHosts hmem

end Place

/-! ### Bare addresses -/

/-- An argument without commas and dashes. -/
def BareArgument (t : Text) : Prop :=
  ',' ∉ t ∧ '-' ∉ t

/-- The hostnames that look-ups answer can be read back. -/
def ReadableReplies (env : Env) : Prop :=
  env.useRealHostname = true → ∀ n, ∀ reply ∈ env.sshReply n, ReadableName env reply

/-- A run with bare addresses, under the prefix and the character classes of a reference
environment; its sizes and thresholds are its own. -/
structure BareRun (ref : Env) (r : Run) : Prop where
  arguments : ∀ t ∈ r.changedHosts, BareArgument t
  hostPrefix : r.env.hostPrefix = ref.hostPrefix
  chars : r.env.chars = ref.chars
  replies : ReadableReplies r.env

/-- Which names can be read back depends on the prefix and the character classes only. -/
theorem readableName_congr {env ref : Env} (hp : env.hostPrefix = ref.hostPrefix)
    (hc : env.chars = ref.chars) {name : Text} :
    ReadableName env name ↔ ReadableName ref name := by
  rw [ReadableName, ReadableName, trailingDigits, trailingDigits, hp, hc]

/-- A generated name can be read back when the prefix has no dot. -/
theorem readableName_generatedName {env : Env} (hdot : '.' ∉ env.hostPrefix) (n : ℕ) :
    ReadableName env (generatedName env n) := fun _ =>
  (exists_getHostId_iff env).mp ⟨_, getHostId_append env hdot n⟩

/-- A bare argument that is taken for an address. -/
def BareAddress (env : Env) (ip : Text) : Prop :=
  BareArgument ip ∧ ip.head?.any env.chars.isdigit = true

/-- Hosts whose names can be read back and whose addresses are bare. -/
def BareHosts (env : Env) (d : OrderedDict Text Value) : Prop :=
  ∀ k, ∀ v ∈ d.get? k, ReadableName env k ∧
    ∃ accessIp ip, v = hostOpts accessIp ip ∧ BareAddress env ip

/-- Assigning options of this form keeps the form. -/
theorem BareHosts.set {env : Env} {d : OrderedDict Text Value} (h : BareHosts env d)
    {name accessIp ip : Text} (hname : ReadableName env name) (hip : BareAddress env ip) :
    BareHosts env (d.set name (hostOpts accessIp ip)) := by
  intro k v hv
  rw [get?_set] at hv
  split_ifs at hv with hk
  · cases hv
    exact ⟨hk ▸ hname, accessIp, ip, rfl, hip⟩
  · exact h k v hv

/-- **What a bare argument can do**: keep the host map, or assign options with the address
under a name that can be read back. No argument gives a hostname. -/
theorem stepHost_bare {env : Env} (hdot : '.' ∉ env.hostPrefix) (hreplies : ReadableReplies env)
    {w w' : Walk} {t : Text} (hbare : BareArgument t) (hname : w.hostname = none)
    (h : stepHost env w t = .ok w') :
    w'.hostname = none ∧ (w'.allHosts = w.allHosts ∨
      ∃ name accessIp ip, w'.allHosts = w.allHosts.set name (hostOpts accessIp ip) ∧
        ReadableName env name ∧ BareAddress env ip) := by
  cases t with
  | nil => cases h
  | cons c rest =>
      have hdash : c ≠ '-' := by
        rintro rfl
        exact hbare.2 List.mem_cons_self
      rw [stepHost, if_neg hdash] at h
      by_cases hdigit : env.chars.isdigit c = true
      · rw [if_pos hdigit] at h
        obtain ⟨ip, accessIp, hunpack, hcases⟩ := addAddress_eq_ok h
        rw [unpackAddress, if_neg hbare.1] at hunpack
        cases hunpack
        rcases hcases with rfl | ⟨name, w₁, -, hnext, rfl⟩
        · exact ⟨hname, Or.inl rfl⟩
        · rcases nextHost_eq_ok hnext with ⟨hreal, hreply, rfl⟩ | ⟨-, rfl, rfl⟩
          · exact ⟨hname, Or.inr ⟨name, _, _, rfl, hreplies hreal _ name hreply,
              hbare, hdigit⟩⟩
          · exact ⟨hname, Or.inr ⟨_, _, _, rfl, readableName_generatedName hdot _,
              hbare, hdigit⟩⟩
      · rw [if_neg hdigit] at h
        by_cases halpha : env.chars.isalpha c = true
        · rw [if_pos halpha] at h
          obtain ⟨w₁, hunpack, hcases⟩ := addHostname_eq_ok h
          rw [unpackHostname, if_neg hbare.1] at hunpack
          cases hunpack
          rcases hcases with rfl | ⟨name, ip, accessIp, hsome, -⟩
          · exact ⟨hname, Or.inl rfl⟩
          · rw [hname] at hsome
            cases hsome
        · rw [if_neg halpha] at h
          cases h
          exact ⟨hname, Or.inl rfl⟩

/-- A walk over bare arguments adds to the hosts it starts from. -/
theorem walk_bare {env : Env} (hdot : '.' ∉ env.hostPrefix) (hreplies : ReadableReplies env)
    {args : List Text} (hargs : ∀ t ∈ args, BareArgument t) {d : OrderedDict Text Value}
    (hd : BareHosts env d) {highest : ℕ} {w : Walk}
    (h : args.foldlM (stepHost env) (Walk.start d highest) = .ok w) :
    d.keys <+: w.allHosts.keys ∧ BareHosts env w.allHosts := by
  have hwalk := foldlM_invariant
    (I := fun w : Walk => w.hostname = none ∧ d.keys <+: w.allHosts.keys ∧
      BareHosts env w.allHosts)
    (fun w t w' ht hw hstep => by
      obtain ⟨hname, hkeys, hhosts⟩ := hw
      obtain ⟨hname', heq | ⟨name, accessIp, ip, heq, hread, hip⟩⟩ :=
        stepHost_bare hdot hreplies (hargs t ht) hname hstep
      · rw [heq]
        exact ⟨hname', hkeys, hhosts⟩
      · rw [heq, keys_set]
        exact ⟨hname', hkeys.trans (prefix_addKey _ _), hhosts.set hread hip⟩)
    (s := Walk.start d highest) ⟨rfl, List.prefix_refl _, hd⟩ h
  exact hwalk.2

/-- The form of the hosts depends on the prefix and the character classes only. -/
theorem bareHosts_congr {env ref : Env} (hp : env.hostPrefix = ref.hostPrefix)
    (hc : env.chars = ref.chars) {d : OrderedDict Text Value} :
    BareHosts env d ↔ BareHosts ref d := by
  simp only [BareHosts, BareAddress, readableName_congr hp hc, hc]

/-- Hosts of this form have options of the builder's own. -/
theorem BareHosts.optioned {env : Env} {d : OrderedDict Text Value} (h : BareHosts env d) :
    Optioned d := by
  intro k v hv
  obtain ⟨-, accessIp, ip, heq, -⟩ := h k v hv
  exact ⟨accessIp, ip, heq⟩

/-- Names of this form can be read back. -/
theorem BareHosts.readable {env : Env} {d : OrderedDict Text Value} (h : BareHosts env d)
    {name : Text} (hname : name ∈ d.keys) : ReadableName env name := by
  obtain ⟨v, hv⟩ := mem_keys_iff.mp hname
  exact (h name v hv).1

/-- An address that a host of this form has is a bare one. -/
theorem BareHosts.bareAddress {env : Env} {d : OrderedDict Text Value} (h : BareHosts env d)
    {name t : Text} (ht : ipOf d name = some t) : BareAddress env t := by
  cases hget : d.get? name with
  | none => simp [ipOf, hget] at ht
  | some opts =>
      obtain ⟨-, accessIp, ip, rfl, hip⟩ := h name opts hget
      rw [ipOf_eq_of_get? hget, Option.some.injEq] at ht
      rwa [← ht]

/-! ### Histories -/

/-- The inventory file is absent, or the builder wrote it from bare addresses. -/
def BareDisk (ref : Env) (disk : Disk) : Prop :=
  WrittenDisk disk ∧ ∀ doc ∈ disk, BareHosts ref (storedHosts doc)

/-- Without a file there are no hosts. -/
theorem bareDisk_none (ref : Env) : BareDisk ref none := by
  constructor <;> intro doc hdoc <;> cases hdoc

variable {ref : Env} {r : Run} {disk : Disk} {doc : Document}

/-- A run with bare addresses adds to the hosts it starts from. -/
theorem BareRun.hostMap (hdot : '.' ∉ ref.hostPrefix) (hr : BareRun ref r)
    (hdisk : BareDisk ref disk) {hosts : OrderedDict Text Value}
    (h : r.hostMap disk = .ok hosts) :
    (r.carriedHosts disk).keys <+: hosts.keys ∧ BareHosts ref hosts := by
  obtain ⟨expanded, highest, w, hexpanded, hwalk, rfl⟩ := Run.hostMap_walk hdisk.1 h
  rw [range2ips_of_noDash fun t ht => (hr.arguments t ht).2] at hexpanded
  cases hexpanded
  have hcarried : BareHosts r.env (r.carriedHosts disk) := by
    rw [bareHosts_congr hr.hostPrefix hr.chars]
    rcases Run.carriedHosts_cases r disk with heq | ⟨doc, hdoc, heq⟩ <;> rw [heq]
    · intro k v hv
      cases hv
    · exact hdisk.2 doc hdoc
  rw [← hr.hostPrefix] at hdot
  rw [← bareHosts_congr hr.hostPrefix hr.chars]
  exact walk_bare hdot hr.replies hr.arguments hcarried hwalk

/-- A run with bare addresses writes its host map as it is. -/
theorem BareRun.storedHosts (hdot : '.' ∉ ref.hostPrefix) (hr : BareRun ref r)
    (hdisk : BareDisk ref disk) (hrun : isHostRun r.argv = true) (hdoc : doc ∈ r.writes disk)
    {hosts : OrderedDict Text Value} (h : r.hostMap disk = .ok hosts) :
    storedHosts doc = hosts :=
  storedHosts_of_writes hdisk.1 hrun hdoc h (hr.hostMap hdot hdisk h).1

/-- **Bare addresses leave inventories that can be read back.** -/
theorem bareDisk_step (hdot : '.' ∉ ref.hostPrefix) (hr : BareRun ref r)
    (hdisk : BareDisk ref disk) (hrun : isHostRun r.argv = true) (hdoc : doc ∈ r.writes disk) :
    BareDisk ref (some doc) := by
  refine ⟨writtenDisk_step r disk doc hdisk.1 hrun hdoc, fun doc' hdoc' => ?_⟩
  cases hdoc'
  obtain ⟨hosts, -, hmap, -⟩ := writes_canonical hdisk.1 hrun hdoc
  rw [hr.storedHosts hdot hdisk hrun hdoc hmap]
  exact (hr.hostMap hdot hdisk hmap).2

/-- The walk over addresses that are all present leaves the host map as it is. -/
theorem walk_present {env : Env} {d : OrderedDict Text Value} (hd : BareHosts env d)
    {args : List Text} (hargs : ∀ t ∈ args, ∃ name, ipOf d name = some t) (highest : ℕ) :
    ∃ w, args.foldlM (stepHost env) (Walk.start d highest) = .ok w ∧ w.allHosts = d := by
  refine foldlM_succeeds (I := fun w : Walk => w.allHosts = d) (fun w t ht hw => ?_) rfl
  obtain ⟨name, hname⟩ := hargs t ht
  obtain ⟨⟨hcomma, hdash⟩, hdigit⟩ := hd.bareAddress hname
  cases t with
  | nil => exact absurd hdigit (by simp)
  | cons c rest =>
      have hne : c ≠ '-' := by
        rintro rfl
        exact hdash List.mem_cons_self
      obtain ⟨found, hfound, hiff⟩ := hd.optioned.existsIp_ok (c :: rest)
      obtain rfl : found = true := hiff.mpr ⟨name, hname⟩
      refine ⟨{ w with ip := some (c :: rest), accessIp := some (c :: rest) }, ?_, hw⟩
      rw [stepHost, if_neg hne, if_pos (by simpa using hdigit), addAddress, unpackAddress,
        if_neg hcomma, ok_bind, hw]
      by_cases hex : existsHostname d (c :: rest) = true
      · simp only [hex, if_true]
        rfl
      · simp only [hex, hfound]
        rfl

/-- A stored inventory that can be read back is its own host map when all arguments are
present. -/
theorem hostMap_present {env : Env} {files : Text → Option (Option Value)}
    (hdoc : Written doc) (hfile : env.configFile = true) (hd : BareHosts env (storedHosts doc))
    {args : List Text} (hargs : ∀ t ∈ args, ∃ name, ipOf (storedHosts doc) name = some t) :
    removalFirst args = .ok false ∧
      (addRun env files args).hostMap (some doc) = .ok (storedHosts doc) := by
  have hbare : ∀ t ∈ args, BareAddress env t := by
    intro t ht
    obtain ⟨name, hname⟩ := hargs t ht
    exact hd.bareAddress hname
  have hremoval : removalFirst args = .ok false := by
    refine removalFirst_eq_false fun t ht => ?_
    obtain ⟨⟨-, hdash⟩, hdigit⟩ := hbare t (List.mem_of_mem_head? ht)
    cases t with
    | nil => exact absurd hdigit (by simp)
    | cons c rest =>
        refine ⟨c, rest, rfl, ?_⟩
        rintro rfl
        exact hdash List.mem_cons_self
  have hexpanded : range2ips env args = .ok args :=
    range2ips_of_noDash fun t ht => (hbare t ht).1.2
  obtain ⟨cfg, hcfg, hmap⟩ := @hostMap_addRun env doc files hdoc hfile _ hremoval _ hexpanded
  obtain ⟨highest, hid⟩ := exists_highestHostId_iff.mpr fun name hname => hd.readable hname
  have hstart : existingHosts env cfg true = .ok (storedHosts doc, highest) := by
    rw [existingHosts, if_pos rfl, hcfg]
    dsimp only
    rw [hid]
  obtain ⟨w, hwalk, hw⟩ := walk_present hd hargs highest
  refine ⟨hremoval, ?_⟩
  rw [hmap, buildHostnames, hstart, ok_bind]
  dsimp only
  rw [hwalk, ok_bind, hw]
  rfl

/-- An `add` run without arguments shows the help text. -/
theorem invoke_add_nil {env : Env} {files : Text → Option (Option Value)}
    (hdoc : Written doc) (hfile : env.configFile = true) :
    invoke env files (some doc) ["add".toList] = (some doc, .exited) := by
  obtain ⟨cfg, hcfg, -⟩ := ensureRequiredGroups_ok (Or.inr hdoc)
  have hload : loadedDocument env (some doc) true = .ok doc := by
    unfold loadedDocument
    exact if_pos ⟨hfile, rfl⟩
  have hrun : hostRun env (some doc) true [] = .ok none :=
    bind_eq_ok_iff.mpr ⟨false, rfl, bind_eq_ok_iff.mpr ⟨doc, hload,
      bind_eq_ok_iff.mpr ⟨cfg, hcfg, rfl⟩⟩⟩
  have hinvoke : invoke env files (some doc) ["add".toList]
      = finishRun env (some doc) (hostRun env (some doc) true []) := rfl
  rw [hinvoke, hrun]
  rfl

/-- **An `add` run whose addresses are all present writes back what it loaded**, when the
inventory was written under the same environment. -/
theorem invoke_present (hdot : '.' ∉ ref.hostPrefix) (hr : BareRun ref r)
    (hdisk : BareDisk ref disk) (hrun : isHostRun r.argv = true) (hdoc : doc ∈ r.writes disk)
    {files : Text → Option (Option Value)} {args : List Text}
    (hargs : ∀ t ∈ args, ∃ name, ipOf (storedHosts doc) name = some t) :
    invoke r.env files (some doc) ("add".toList :: args)
      = (some doc, if args = [] then .exited else .saved) := by
  obtain ⟨-, -, -, hfile⟩ := hostRun_of_writes hrun hdoc
  have hwritten := bareDisk_step hdot hr hdisk hrun hdoc
  have hdocWritten := hwritten.1 doc rfl
  by_cases hnil : args = []
  · rw [hnil, if_pos rfl]
    exact invoke_add_nil hdocWritten hfile
  · have hbare : BareHosts r.env (storedHosts doc) :=
      (bareHosts_congr hr.hostPrefix hr.chars).mpr (hwritten.2 doc rfl)
    obtain ⟨hremoval, hmap⟩ := @hostMap_present doc r.env files hdocWritten hfile hbare _ hargs
    obtain ⟨cfg', hwrites, hcfg', hstored', hassign'⟩ :=
      writes_of_adding hwritten.1 (isHostRun_addRun r.env files args) hfile hnil hmap
        (by rw [carriedHosts_addRun hfile hremoval])
    obtain ⟨hosts, cfg, hmap₀, hcfg, rfl, -, hassign⟩ := writes_canonical hdisk.1 hrun hdoc
    have hstored : storedHosts cfg.toDocument = hosts :=
      hr.storedHosts hdot hdisk hrun hdoc hmap₀
    have hsame : cfg' = cfg := by
      refine hcfg'.ext_stored hcfg hstored' fun role hrole => ?_
      have hnow : cfg'.members role
          = (place r.env calledHosts hosts.keys cfg.assignment).group role := by
        have hcarried : (addRun r.env files args).carried (some cfg.toDocument)
            = cfg.assignment := by
          rw [Run.carried, base_addRun hfile hremoval]
          rfl
        rw [hcarried, hstored] at hassign'
        exact congrFun (congrArg Assignment.group hassign') role
      rw [hnow, hassign, place_again hrole, ← hassign]
      rfl
    have hinvoke := invoke_of_writes hwrites
    rw [if_neg hnil, ← hsame]
    rw [← hsame] at hinvoke
    exact hinvoke

/-- **A no-op `add` over whole histories**: after any runs with bare addresses, each of
its own sizes and thresholds, an `add` under the environment of the last one whose
addresses are all present leaves exactly the inventory that it found. -/
theorem rerun_history (hdot : '.' ∉ ref.hostPrefix) {runs : List Run}
    (hruns : ∀ r ∈ runs, BareRun ref r) :
    EveryWritten (fun r doc => ∀ files args,
      (∀ t ∈ args, ∃ name, ipOf (storedHosts doc) name = some t) →
        invoke r.env files (some doc) ("add".toList :: args)
          = (some doc, if args = [] then .exited else .saved)) runs := by
  refine along_of_along (I := BareDisk ref) (Q := fun _ r _ => BareRun ref r)
    (fun disk r disk' hdisk hstep hr => ?_) (bareDisk_none ref)
    (along_of_forall_mem none hruns)
  obtain ⟨hrun, hcases⟩ := builderStep_cases hstep
  refine ⟨?_, fun doc hdoc files args hargs => invoke_present hdot hr hdisk hrun hdoc hargs⟩
  rcases hcases with rfl | ⟨doc, hdoc, rfl⟩
  · exact hdisk
  · exact bareDisk_step hdot hr hdisk hrun hdoc

/-- A build of one host and an `add` of a second one, the second run at scale. -/
theorem rerun_history_twoRuns :
    EveryWritten (fun r doc => ∀ files args,
      (∀ t ∈ args, ∃ name, ipOf (storedHosts doc) name = some t) →
        invoke r.env files (some doc) ("add".toList :: args)
          = (some doc, if args = [] then .exited else .saved))
      [{ env := .default, files := fun _ => none, argv := ["10.0.0.1".toList] },
       { env := { Env.default with scaleThreshold := 2 }, files := fun _ => none,
         argv := ["add".toList, "10.0.0.2".toList] }] := by
  refine @rerun_history .default (by decide) _ fun r hr => ?_
  have hbare : ∀ t ∈ ["10.0.0.1".toList, "10.0.0.2".toList], BareArgument t := by
    intro t ht
    simp only [List.mem_cons, List.not_mem_nil, or_false] at ht
    rcases ht with rfl | rfl <;> exact ⟨by decide, by decide⟩
  simp only [List.mem_cons, List.not_mem_nil, or_false] at hr
  rcases hr with rfl | rfl
  · exact
      { arguments := fun t ht => hbare t (List.mem_cons.mpr (Or.inl (List.mem_singleton.mp ht)))
        hostPrefix := rfl
        chars := rfl
        replies := fun hreal => by cases hreal }
  · exact
      { arguments := fun t ht => hbare t (List.mem_cons_of_mem _ ht)
        hostPrefix := rfl
        chars := rfl
        replies := fun hreal => by cases hreal }

end Kubespray.Inventory
