import Kubespray.Inventory.Readback

/-!
# Building at Once and Building in Two Runs

A run with the addresses `A` followed by an `add` of the addresses `B` ought to write the
inventory that one run with both writes. The second run of the two starts from what it
reads back: the hosts, the number to continue from, the role groups. Hosts and numbers are
the same then. The loop variables are not carried over, and neither is the choice of the
first run to make a control plane host a node as well.

## Main results

* `walk_addresses`: what the loop over the arguments makes of addresses.
* `place_twice_iff`: when placing a part of the hosts first changes no role group.
* `sameInventory_iff`: when the two ways write the same inventory.
-/

namespace Kubespray.Inventory

open OrderedDict Fallible

/-! ### Addresses on the command line -/

/-- An argument that gives addresses: one address, `ip,access_ip`, or a range. Addresses
have dots or colons, and no address begins like a generated hostname. What begins with a
letter and has a comma gives a hostname. -/
structure AddressArgument (env : Env) (t : Text) : Prop where
  address : '.' ∈ t ∨ ':' ∈ t
  notRemoval : t.head? ≠ some '-'
  notHostname : ¬ env.hostPrefix <+: t
  pair : ',' ∈ t →
    t.head?.any env.chars.isalpha = false ∧ ∃ ip accessIp, t.splitOn ',' = [ip, accessIp]

/-- Arguments of a run that give addresses, and what they expand to. -/
structure AddressArguments (env : Env) (args items : List Text) : Prop where
  nonempty : args ≠ []
  arguments : ∀ t ∈ args, AddressArgument env t
  valid : range2ips env args = .ok items

/-- An expanded argument as the loop expects it. -/
structure AddressItem (env : Env) (t : Text) : Prop where
  cons : ∃ c rest, t = c :: rest ∧ c ≠ '-'
  notHostname : ¬ env.hostPrefix <+: t
  pair : ',' ∈ t →
    t.head?.any env.chars.isalpha = false ∧ ∃ ip accessIp, t.splitOn ',' = [ip, accessIp]

variable {env : Env}

/-- An argument that is not expanded. -/
theorem AddressArgument.item {t : Text} (h : AddressArgument env t) : AddressItem env t where
  cons := by
    cases t with
    | nil => rcases h.address with hmem | hmem <;> cases hmem
    | cons c rest => exact ⟨c, rest, rfl, fun hc => h.notRemoval (by rw [hc, List.head?_cons])⟩
  notHostname := h.notHostname
  pair := h.pair

/-- A printed address, when generated hostnames begin with a letter after `f`. -/
theorem addressItem_exploded (hletter : ∃ c rest, env.hostPrefix = c :: rest ∧ c ∉ addressChars)
    (a : IPAddress) : AddressItem env a.exploded where
  cons := by
    obtain ⟨c, rest, heq⟩ := List.exists_cons_of_ne_nil (exploded_ne_nil a)
    refine ⟨c, rest, heq, ?_⟩
    rintro rfl
    exact absurd (mem_addressChars_of_mem_exploded (heq ▸ List.mem_cons_self)) (by decide)
  notHostname := by
    obtain ⟨c, rest, heq, hc⟩ := hletter
    intro hpre
    rw [heq] at hpre
    exact hc (mem_addressChars_of_mem_exploded (hpre.subset List.mem_cons_self))
  pair hcomma := absurd (mem_addressChars_of_mem_exploded hcomma) (by decide)

/-- What one argument expands to. -/
theorem AddressArgument.expand
    (hletter : ∃ c rest, env.hostPrefix = c :: rest ∧ c ∉ addressChars) {t : Text}
    (h : AddressArgument env t) {ts : List Text} (hexpand : expandHost env t = .ok ts) :
    ∀ u ∈ ts, AddressItem env u := by
  intro u hu
  by_cases hrange : IsRange env t
  · obtain ⟨a, rfl⟩ := exploded_of_isRange hrange hexpand hu
    exact addressItem_exploded hletter a
  · rw [expandHost_of_not_isRange hrange] at hexpand
    cases hexpand
    rw [List.mem_singleton.mp hu]
    exact h.item

/-- **What the arguments of a run expand to.** -/
theorem AddressArguments.items
    (hletter : ∃ c rest, env.hostPrefix = c :: rest ∧ c ∉ addressChars)
    {args items : List Text} (h : AddressArguments env args items) :
    ∀ t ∈ items, AddressItem env t := by
  intro t ht
  obtain ⟨expanded, hmap, hflat⟩ := ok_of_bind h.valid
  cases hflat
  obtain ⟨ts, hts, hmem⟩ := List.mem_flatten.mp ht
  obtain ⟨arg, harg, hexpand⟩ := exists_of_mem_mapM hmap hts
  exact (h.arguments arg harg).expand hletter hexpand t hmem

/-! ### The loop over addresses -/

/-- The `ip` and `access_ip` of an expanded argument that begins with a digit. -/
def givenPair (env : Env) (t : Text) : Option (Text × Text) :=
  if t.head?.any env.chars.isdigit then (unpackAddress t).toOption else none

/-- The distinct addresses that expanded arguments give, in order. -/
def givenAddresses (env : Env) (items : List Text) : List Text :=
  addKeys [] ((items.filterMap (givenPair env)).map Prod.fst)

/-- No argument that begins with a letter stands before the first one that begins with a
digit. -/
def opensWithDigit (env : Env) : List Text → Bool
  | [] => true
  | t :: ts =>
    if t.head?.any env.chars.isdigit then true
    else if t.head?.any env.chars.isalpha then false
    else opensWithDigit env ts

/-- What the loop does with a pair of addresses. -/
def Walk.addPair (env : Env) (w : Walk) (p : Text × Text) : Walk :=
  let known := ∃ name ∈ w.allHosts.keys, ipOf w.allHosts name = some p.1
  { w with
    allHosts :=
      if known then w.allHosts
      else w.allHosts.set (generatedName env w.nextHostId) (hostOpts p.2 p.1)
    nextHostId := if known then w.nextHostId else w.nextHostId + 1
    ip := some p.1
    accessIp := some p.2 }

/-- The first hostnames that the builder generates. -/
def numberedNames (env : Env) (n : ℕ) : List Text :=
  (List.range n).map fun i => generatedName env (i + 1)

/-- The loop has given numbered hostnames to the addresses seen so far, and to nothing
else. -/
structure Numbered (env : Env) (seen : List Text) (w : Walk) : Prop where
  keys : w.allHosts.keys = numberedNames env seen.length
  nextHostId : w.nextHostId = seen.length + 1
  optioned : Optioned w.allHosts
  known : ∀ x, (∃ name, ipOf w.allHosts name = some x) ↔ x ∈ seen
  bound : ∀ x ∈ w.ip, x ∈ seen

/-- The settings under which the builder numbers its hosts. -/
structure Numbering (env : Env) : Prop where
  hostPrefix : env.hostPrefix = "node".toList
  lookups : env.useRealHostname = false

/-- One more generated name. -/
theorem numberedNames_succ (env : Env) (n : ℕ) :
    numberedNames env (n + 1) = numberedNames env n ++ [generatedName env (n + 1)] := by
  rw [numberedNames, List.range_succ, List.map_append]
  rfl

/-- The next generated name is a new one. -/
theorem generatedName_notMem_numberedNames (env : Env) (n : ℕ) :
    generatedName env (n + 1) ∉ numberedNames env n := by
  intro hmem
  obtain ⟨i, hi, heq⟩ := List.mem_map.mp hmem
  have hlt := List.mem_range.mp hi
  have hsame := generatedName_injective env heq
  omega

/-- Fewer names come first. -/
theorem numberedNames_isPrefix (env : Env) {m n : ℕ} (h : m ≤ n) :
    numberedNames env m <+: numberedNames env n := by
  induction n, h using Nat.le_induction with
  | base => exact List.prefix_refl _
  | succ n _ ih =>
      rw [numberedNames_succ]
      exact ih.trans (List.prefix_append _ _)

/-- A host that is known by an address is in the map. -/
theorem mem_keys_of_ipOf {d : OrderedDict Text Value} {name x : Text}
    (h : ipOf d name = some x) : name ∈ d.keys := by
  by_contra hno
  rw [ipOf, get?_eq_none_iff.mpr hno] at h
  cases h

/-- The addresses of a map with one more host. -/
theorem exists_ipOf_set {d : OrderedDict Text Value} {k accessIp ip x : Text}
    (hk : k ∉ d.keys) :
    (∃ name, ipOf (d.set k (hostOpts accessIp ip)) name = some x) ↔
      (∃ name, ipOf d name = some x) ∨ x = ip := by
  have hself : ipOf (d.set k (hostOpts accessIp ip)) k = some ip :=
    ipOf_eq_of_get? (get?_set_self _ _ _)
  have hother : ∀ name, name ≠ k →
      ipOf (d.set k (hostOpts accessIp ip)) name = ipOf d name := by
    intro name hne
    rw [ipOf, get?_set_of_ne _ _ hne, ipOf]
  constructor
  · rintro ⟨name, hname⟩
    by_cases heq : name = k
    · rw [heq, hself] at hname
      exact Or.inr (Option.some.inj hname).symm
    · exact Or.inl ⟨name, by rwa [hother name heq] at hname⟩
  · rintro (⟨name, hname⟩ | rfl)
    · refine ⟨name, ?_⟩
      rwa [hother name]
      rintro rfl
      exact hk (mem_keys_of_ipOf hname)
    · exact ⟨k, hself⟩

namespace Numbered

variable {seen : List Text} {w : Walk} {t : Text} {p : Text × Text}

/-- The loop's own test for an address is membership among those seen. -/
theorem known_iff (hw : Numbered env seen w) (x : Text) :
    (∃ name ∈ w.allHosts.keys, ipOf w.allHosts name = some x) ↔ x ∈ seen := by
  rw [← hw.known]
  constructor
  · rintro ⟨name, -, hname⟩
    exact ⟨name, hname⟩
  · rintro ⟨name, hname⟩
    exact ⟨name, mem_keys_of_ipOf hname, hname⟩

/-- `exists_ip` is that test too. -/
theorem existsIp_eq (hw : Numbered env seen w) (x : Text) :
    existsIp w.allHosts x = .ok (decide (x ∈ seen)) := by
  obtain ⟨b, hb, hiff⟩ := hw.optioned.existsIp_ok x
  rw [hw.known] at hiff
  rw [hb, Except.ok.injEq, Bool.eq_iff_iff, hiff, decide_eq_true_eq]

/-- No argument is called like a numbered host. -/
theorem existsHostname_eq (hw : Numbered env seen w) (ht : AddressItem env t) :
    existsHostname w.allHosts t = false := by
  refine decide_eq_false fun hmem => ?_
  rw [hw.keys] at hmem
  obtain ⟨i, -, rfl⟩ := List.mem_map.mp hmem
  exact ht.notHostname (List.prefix_append _ _)

/-- Adding a pair of addresses numbers one more address. -/
theorem addPair (hw : Numbered env seen w) (p : Text × Text) :
    Numbered env (addKey seen p.1) (w.addPair env p) := by
  by_cases hp : p.1 ∈ seen
  · have hknown := (hw.known_iff p.1).mpr hp
    have heq : w.addPair env p = { w with ip := some p.1, accessIp := some p.2 } := by
      simp only [Walk.addPair, if_pos hknown]
    rw [heq, addKey_of_mem hp]
    exact ⟨hw.keys, hw.nextHostId, hw.optioned, hw.known, fun x hx => by cases hx; exact hp⟩
  · have hunknown := fun h => hp ((hw.known_iff p.1).mp h)
    have hnew : generatedName env w.nextHostId ∉ w.allHosts.keys := by
      rw [hw.keys, hw.nextHostId]
      exact generatedName_notMem_numberedNames env seen.length
    rw [addKey_of_notMem hp]
    exact
      { keys := by
          simp only [Walk.addPair, if_neg hunknown]
          rw [keys_set, addKey_of_notMem hnew, hw.keys, hw.nextHostId, List.length_append,
            List.length_singleton, numberedNames_succ]
        nextHostId := by
          simp only [Walk.addPair, if_neg hunknown]
          rw [hw.nextHostId, List.length_append, List.length_singleton]
        optioned := by
          simp only [Walk.addPair, if_neg hunknown]
          exact hw.optioned.set _ _ _
        known := fun x => by
          simp only [Walk.addPair, if_neg hunknown]
          rw [exists_ipOf_set hnew, hw.known, List.mem_append, List.mem_singleton]
        bound := fun x hx => by
          cases hx
          exact List.mem_append.mpr (Or.inr (List.mem_singleton_self p.1)) }

/-- Adding pairs of addresses one after the other. -/
theorem foldl_addPair (hw : Numbered env seen w) (ps : List (Text × Text)) :
    Numbered env (addKeys seen (ps.map Prod.fst)) (ps.foldl (Walk.addPair env) w) := by
  induction ps generalizing seen w with
  | nil => exact hw
  | cons p ps ih => exact ih (hw.addPair p)

/-- An argument that begins with a digit adds its pair. -/
theorem stepHost_digit (henv : Numbering env) (hw : Numbered env seen w)
    (ht : AddressItem env t) (hp : givenPair env t = some p) :
    stepHost env w t = .ok (w.addPair env p) := by
  obtain ⟨c, rest, rfl, hdash⟩ := ht.cons
  rw [givenPair] at hp
  split_ifs at hp with hdigit
  have hunpack : unpackAddress (c :: rest) = .ok p := by
    cases hres : unpackAddress (c :: rest) with
    | error e =>
        rw [hres] at hp
        cases hp
    | ok q =>
        rw [hres] at hp
        cases hp
        rfl
  rw [stepHost, if_neg hdash, if_pos (by simpa using hdigit), addAddress, hunpack, ok_bind]
  simp only [hw.existsHostname_eq ht, hw.existsIp_eq, Bool.false_eq_true, if_false, ok_bind]
  by_cases hseen : p.1 ∈ seen
  · have hknown := (hw.known_iff p.1).mpr hseen
    simp only [hseen, decide_true, if_true, Walk.addPair, if_pos hknown]
    rfl
  · have hunknown := fun h => hseen ((hw.known_iff p.1).mp h)
    simp only [hseen, decide_false, Bool.false_eq_true, if_false, nextHost, henv.lookups,
      ok_bind, Walk.addPair, if_neg hunknown]
    rfl

/-- Any other argument adds nothing, once `ip` is bound or when it does not begin with a
letter. -/
theorem stepHost_other (hw : Numbered env seen w) (ht : AddressItem env t)
    (hdigit : t.head?.any env.chars.isdigit = false)
    (hbound : w.ip.isSome = true ∨ t.head?.any env.chars.isalpha = false) :
    stepHost env w t = .ok w := by
  have hname := hw.existsHostname_eq ht
  obtain ⟨c, rest, rfl, hdash⟩ := ht.cons
  rw [stepHost, if_neg hdash, if_neg (by simpa using hdigit)]
  by_cases halpha : env.chars.isalpha c = true
  · have hcomma : ',' ∉ c :: rest := by
      intro hmem
      have hno := (ht.pair hmem).1
      simp [halpha] at hno
    obtain ⟨ip, hip⟩ := Option.isSome_iff_exists.mp (hbound.resolve_right (by simp [halpha]))
    have hseen : existsIp w.allHosts ip = .ok true := by
      rw [hw.existsIp_eq, decide_eq_true (hw.bound ip hip)]
    rw [if_pos halpha, addHostname, unpackHostname, if_neg hcomma, ok_bind]
    simp only [hname, hip, readLocal, ok_bind, hseen, Bool.false_eq_true, if_false, if_true]
    rfl
  · rw [if_neg halpha]

/-- An argument that begins with a letter reads `ip`. -/
theorem stepHost_unbound (hw : Numbered env seen w) (ht : AddressItem env t)
    (hdigit : t.head?.any env.chars.isdigit = false)
    (halpha : t.head?.any env.chars.isalpha = true) (hip : w.ip = none) :
    stepHost env w t = .error .unboundLocalError := by
  have hname := hw.existsHostname_eq ht
  have hcomma : ',' ∉ t := by
    intro hmem
    rw [(ht.pair hmem).1] at halpha
    cases halpha
  obtain ⟨c, rest, rfl, hdash⟩ := ht.cons
  rw [stepHost, if_neg hdash, if_neg (by simpa using hdigit), if_pos (by simpa using halpha),
    addHostname, unpackHostname, if_neg hcomma, ok_bind]
  simp only [hname, hip, readLocal, Bool.false_eq_true, if_false]
  rfl

end Numbered

/-- An argument that begins with a digit gives a pair of addresses. -/
theorem AddressItem.givenPair_cases {t : Text} (ht : AddressItem env t) :
    (∃ p, givenPair env t = some p) ∨
      (givenPair env t = none ∧ t.head?.any env.chars.isdigit = false) := by
  rw [givenPair]
  by_cases hdigit : t.head?.any env.chars.isdigit = true
  · refine Or.inl ?_
    rw [if_pos hdigit, unpackAddress]
    by_cases hcomma : ',' ∈ t
    · obtain ⟨ip, accessIp, hsplit⟩ := (ht.pair hcomma).2
      rw [if_pos hcomma, hsplit]
      exact ⟨(ip, accessIp), rfl⟩
    · rw [if_neg hcomma]
      exact ⟨(t, t), rfl⟩
  · exact Or.inr ⟨if_neg hdigit, Bool.eq_false_iff.mpr hdigit⟩

/-- **On addresses the loop numbers one pair after the other**, once `ip` is bound or when
no argument reads it before. -/
theorem walk_addresses (henv : Numbering env) {items : List Text}
    (hitems : ∀ t ∈ items, AddressItem env t) {seen : List Text} {w : Walk}
    (hw : Numbered env seen w)
    (hopen : w.ip.isSome = true ∨ opensWithDigit env items = true) :
    items.foldlM (stepHost env) w
      = .ok ((items.filterMap (givenPair env)).foldl (Walk.addPair env) w) := by
  induction items generalizing seen w with
  | nil => rfl
  | cons t items ih =>
      have ht := hitems t List.mem_cons_self
      have hrest := fun u hu => hitems u (List.mem_cons_of_mem t hu)
      rw [List.foldlM_cons]
      rcases ht.givenPair_cases with ⟨p, hp⟩ | ⟨hp, hdigit⟩
      · rw [hw.stepHost_digit henv ht hp, ok_bind, List.filterMap_cons_some hp,
          ih hrest (hw.addPair p) (Or.inl rfl), List.foldl_cons]
      · rw [opensWithDigit, if_neg (by simp [hdigit])] at hopen
        have hbound : w.ip.isSome = true ∨ t.head?.any env.chars.isalpha = false := by
          refine hopen.imp_right fun hopen => ?_
          by_contra halpha
          rw [if_pos (by simpa using halpha)] at hopen
          cases hopen
        have hnext : w.ip.isSome = true ∨ opensWithDigit env items = true := by
          refine hopen.imp_right fun hopen => ?_
          split_ifs at hopen
          exact hopen
        rw [hw.stepHost_other ht hdigit hbound, ok_bind, List.filterMap_cons_none hp,
          ih hrest hw hnext]

/-- The loop gives up when an argument reads `ip` before it is bound. -/
theorem walk_unbound {items : List Text}
    (hitems : ∀ t ∈ items, AddressItem env t) {seen : List Text} {w : Walk}
    (hw : Numbered env seen w) (hip : w.ip = none) (hopen : opensWithDigit env items = false) :
    items.foldlM (stepHost env) w = .error .unboundLocalError := by
  induction items with
  | nil => cases hopen
  | cons t items ih =>
      have ht := hitems t List.mem_cons_self
      rw [opensWithDigit] at hopen
      split_ifs at hopen with hdigit halpha
      · rw [List.foldlM_cons, hw.stepHost_unbound ht (by simpa using hdigit) halpha hip]
        rfl
      · have halpha' : t.head?.any env.chars.isalpha = false := by simpa using halpha
        rw [List.foldlM_cons, hw.stepHost_other ht (by simpa using hdigit) (Or.inr halpha'),
          ok_bind]
        exact ih (fun u hu => hitems u (List.mem_cons_of_mem t hu)) hopen

/-! ### Host maps -/

/-- The host map of a fresh run with addresses. -/
def numberedHosts (env : Env) (items : List Text) : OrderedDict Text Value :=
  ((items.filterMap (givenPair env)).foldl (Walk.addPair env)
    (Walk.start OrderedDict.empty 0)).allHosts

/-- Before the first argument of a fresh run no address was seen. -/
theorem numbered_start (env : Env) : Numbered env [] (Walk.start OrderedDict.empty 0) where
  keys := rfl
  nextHostId := rfl
  optioned := Optioned.empty
  known x := by
    refine iff_of_false ?_ List.not_mem_nil
    rintro ⟨name, hname⟩
    cases hname
  bound x hx := by cases hx

/-- A walk that ends with the addresses of a fresh run. -/
theorem numbered_walk (env : Env) (items : List Text) :
    Numbered env (givenAddresses env items)
      ((items.filterMap (givenPair env)).foldl (Walk.addPair env)
        (Walk.start OrderedDict.empty 0)) :=
  (numbered_start env).foldl_addPair _

/-- The hostnames of such a run. -/
theorem keys_numberedHosts (env : Env) (items : List Text) :
    (numberedHosts env items).keys = numberedNames env (givenAddresses env items).length :=
  (numbered_walk env items).keys

/-- Adding pairs reads the map and the next number only. -/
theorem foldl_addPair_congr (ps : List (Text × Text)) {v w : Walk}
    (hhosts : v.allHosts = w.allHosts) (hnext : v.nextHostId = w.nextHostId) :
    (ps.foldl (Walk.addPair env) v).allHosts = (ps.foldl (Walk.addPair env) w).allHosts := by
  induction ps generalizing v w with
  | nil => exact hhosts
  | cons p ps ih =>
      refine ih ?_ ?_
      · simp only [Walk.addPair, hhosts, hnext]
      · simp only [Walk.addPair, hhosts, hnext]

/-- The number to continue from, read back from numbered hostnames. -/
theorem highestHostId_numberedNames (henv : Numbering env) (n : ℕ) :
    highestHostId env (numberedNames env n) = .ok n := by
  have hdot : '.' ∉ env.hostPrefix := by
    rw [henv.hostPrefix]
    decide
  have hend : endDigits env env.hostPrefix = [] := by
    have he : env.chars.decimal 'e' = none := by
      rw [env.chars.decimal_ascii 'e' (by decide)]
      rfl
    rw [henv.hostPrefix, endDigits]
    simp [he]
  rw [highestHostId_eq]
  induction n with
  | zero => rfl
  | succ n ih =>
      have hletter : env.hostPrefix.isPrefixOf (generatedName env (n + 1)) = true :=
        List.isPrefixOf_iff_prefix.mpr (List.prefix_append _ _)
      rw [numberedNames_succ, List.foldlM_append, ih, ok_bind, List.foldlM_cons, raiseId,
        if_pos hletter, getHostId_generatedName env hdot hend]
      simp only [ok_bind, gt_iff_lt, Nat.lt_succ_self, if_true]
      rfl

/-! ### Placing a part of the hosts first -/

section Place

variable {conflict : Text → Bool} {first hosts : List Text} {a : Assignment}

/-- Members that are hosts of the run survive its purge. -/
theorem filter_kept_eq_self {ks : List Text} (h : ∀ k ∈ ks, k ∈ hosts) :
    ks.filter (kept hosts) = ks :=
  List.filter_eq_self.mpr fun k hk => decide_eq_true (Or.inl (h k hk))

/-- Below the scale threshold the control plane is taken from the front. -/
theorem controlPlaneHosts_of_small (hscale : (hosts.length : ℤ) < env.scaleThreshold)
    (hcontrol : 0 ≤ env.kubeControlHosts) :
    controlPlaneHosts env hosts = hosts.take env.kubeControlHosts.toNat := by
  have hstop : sliceBound hosts.length env.kubeControlHosts
      = min env.kubeControlHosts.toNat hosts.length := if_neg (not_lt.mpr hcontrol)
  have hstart : sliceBound hosts.length 0 = 0 := by simp [sliceBound]
  rw [controlPlaneHosts, if_neg (not_le.mpr hscale), slice, hstop, hstart, List.drop_zero]
  rcases Nat.le_total env.kubeControlHosts.toNat hosts.length with hle | hle
  · rw [min_eq_left hle]
  · rw [min_eq_right hle, List.take_length, List.take_of_length_le hle]

/-- Below the scale threshold no route reflectors are added. -/
theorem calicoHosts_of_small (hscale : (hosts.length : ℤ) < env.scaleThreshold) :
    calicoHosts env conflict hosts = [] :=
  if_neg (not_le.mpr hscale)

/-- The nodes that a run below the scale threshold adds: from the massive threshold on, it
leaves out the control plane. -/
def nodeHosts (env : Env) (hosts : List Text) : List Text :=
  hosts.filter fun h => !decide (env.massiveScaleThreshold ≤ (hosts.length : ℤ) ∧
    h ∈ hosts.take env.kubeControlHosts.toNat)

/-- The hosts among them. -/
theorem mem_nodeHosts {h : Text} : h ∈ nodeHosts env hosts ↔
    h ∈ hosts ∧ ¬ (env.massiveScaleThreshold ≤ (hosts.length : ℤ) ∧
      h ∈ hosts.take env.kubeControlHosts.toNat) := by
  rw [nodeHosts, List.mem_filter, Bool.not_eq_true', decide_eq_false_iff_not]

/-- The nodes after a run below the scale threshold that only adds hosts, when the control
plane is the one it would have had at once. -/
theorem place_kubeNode_of_small (hnd : hosts.Nodup)
    (hscale : (hosts.length : ℤ) < env.scaleThreshold) (hhosts : a.hosts <+: hosts)
    (hnodes : ∀ h ∈ a.group kubeNode, h ∈ hosts)
    (hcontrol : (place env conflict hosts a).group kubeControlPlane
      = hosts.take env.kubeControlHosts.toNat) :
    (place env conflict hosts a).group kubeNode
      = addKeys (a.group kubeNode) (nodeHosts env hosts) := by
  have hall : (place env conflict hosts a).hosts = hosts := by
    rw [place_hosts, filter_kept_eq_self fun k hk => hhosts.subset hk,
      addKeys_of_prefix hnd hhosts]
  rw [place_kubeNode, filter_kept_eq_self hnodes, nodeHosts]
  refine congrArg (addKeys _) (List.filter_congr fun h _ => ?_)
  rw [excluded, hall, hcontrol]
  simp [not_le.mpr hscale]

variable (hnd : hosts.Nodup) (hscale : (hosts.length : ℤ) < env.scaleThreshold)
  (hcontrol : 1 ≤ env.kubeControlHosts)
include hnd hscale hcontrol

/-- The groups of a fresh run below the scale threshold. -/
theorem place_none_of_small :
    (place env conflict hosts .none).hosts = hosts ∧
      (place env conflict hosts .none).group etcd = hosts.take (etcdHostsCount hosts) ∧
      (place env conflict hosts .none).group kubeControlPlane
        = hosts.take env.kubeControlHosts.toNat ∧
      (place env conflict hosts .none).group kubeNode = nodeHosts env hosts ∧
      (place env conflict hosts .none).group calicoRr = [] := by
  have hcp : (place env conflict hosts .none).group kubeControlPlane
      = hosts.take env.kubeControlHosts.toNat := by
    rw [place_kubeControlPlane, controlPlaneHosts_of_small hscale (by omega)]
    exact addKeys_nil_left (hnd.sublist (List.take_sublist _ _))
  refine ⟨addKeys_nil_left hnd, ?_, hcp, ?_, ?_⟩
  · rw [place_etcd]
    exact addKeys_nil_left (hnd.sublist (List.take_sublist _ _))
  · rw [place_kubeNode_of_small hnd hscale List.nil_prefix
      (fun h hmem => absurd hmem List.not_mem_nil) hcp]
    exact addKeys_nil_left (hnd.sublist List.filter_sublist)
  · rw [place_calicoRr, calicoHosts_of_small hscale]
    rfl

variable (hfirst : first <+: hosts)
include hfirst

/-- The groups after two runs, the first with some of the hosts. -/
theorem place_twice_of_small :
    (place env conflict hosts (place env conflict first .none)).group etcd
        = hosts.take (etcdHostsCount hosts) ∧
      (place env conflict hosts (place env conflict first .none)).group kubeControlPlane
        = hosts.take env.kubeControlHosts.toNat ∧
      (place env conflict hosts (place env conflict first .none)).group kubeNode
        = addKeys (nodeHosts env first) (nodeHosts env hosts) ∧
      (place env conflict hosts (place env conflict first .none)).group calicoRr = [] := by
  have hlength := hfirst.length_le
  obtain ⟨hhosts, hetcd, hcp, hnode, hrr⟩ :=
    @place_none_of_small env conflict first (hnd.sublist hfirst.sublist) (by omega) hcontrol
  have hsub : ∀ h ∈ first, h ∈ hosts := fun h hmem => hfirst.subset hmem
  have hcp₂ : (place env conflict hosts (place env conflict first .none)).group kubeControlPlane
      = hosts.take env.kubeControlHosts.toNat := by
    rw [place_kubeControlPlane, hcp, controlPlaneHosts_of_small hscale (by omega),
      filter_kept_eq_self fun k hk => hsub k (List.mem_of_mem_take hk)]
    exact addKeys_of_prefix (hnd.sublist (List.take_sublist _ _)) (hfirst.take _)
  refine ⟨?_, hcp₂, ?_, ?_⟩
  · have hcount : etcdHostsCount first ≤ etcdHostsCount hosts := by
      rw [etcdHostsCount, etcdHostsCount]
      split_ifs <;> omega
    rw [place_etcd, hetcd, filter_kept_eq_self fun k hk => hsub k (List.mem_of_mem_take hk)]
    exact addKeys_of_prefix (hnd.sublist (List.take_sublist _ _))
      ((hfirst.take _).trans (List.take_prefix_take_left hcount))
  · rw [place_kubeNode_of_small hnd hscale (hhosts.symm ▸ hfirst) ?_ hcp₂, hnode]
    rw [hnode]
    exact fun h hmem => hsub h (List.mem_of_mem_filter hmem)
  · rw [place_calicoRr, hrr, calicoHosts_of_small hscale]
    rfl

/-- The nodes agree unless the first run, not yet at the massive threshold, makes control
plane hosts nodes and the second one reaches it. -/
theorem addKeys_nodeHosts_iff :
    addKeys (nodeHosts env first) (nodeHosts env hosts) = nodeHosts env hosts ↔
      ¬ (0 < first.length ∧ (first.length : ℤ) < env.massiveScaleThreshold ∧
        env.massiveScaleThreshold ≤ hosts.length) := by
  constructor
  · rintro heq ⟨hpos, hlt, hle⟩
    obtain ⟨h, rest, rfl⟩ := List.exists_cons_of_length_pos hpos
    obtain ⟨tail, rfl⟩ := hfirst
    obtain ⟨k, hk⟩ : ∃ k, env.kubeControlHosts.toNat = k + 1 :=
      ⟨env.kubeControlHosts.toNat - 1, by omega⟩
    have hnode : h ∈ nodeHosts env (h :: rest) :=
      mem_nodeHosts.mpr ⟨List.mem_cons_self, fun hno => not_le.mpr hlt hno.1⟩
    have hmem : h ∈ nodeHosts env (h :: rest ++ tail) := by
      rw [← heq]
      exact mem_addKeys.mpr (Or.inl hnode)
    refine (mem_nodeHosts.mp hmem).2 ⟨hle, ?_⟩
    rw [hk, List.cons_append, List.take_succ_cons]
    exact List.mem_cons_self
  · intro hcond
    refine addKeys_of_prefix (hnd.sublist List.filter_sublist) ?_
    obtain ⟨tail, rfl⟩ := hfirst
    have hsame : nodeHosts env first = first.filter fun h =>
        !decide (env.massiveScaleThreshold ≤ ((first ++ tail).length : ℤ) ∧
          h ∈ (first ++ tail).take env.kubeControlHosts.toNat) := by
      refine List.filter_congr fun h hmem => congrArg Bool.not (decide_eq_decide.mpr ?_)
      have htail : h ∉ tail := fun hm => (List.nodup_append.mp hnd).2.2 h hmem h hm rfl
      have hpos := List.length_pos_of_mem hmem
      have htake : h ∈ (first ++ tail).take env.kubeControlHosts.toNat ↔
          h ∈ first.take env.kubeControlHosts.toNat := by
        rw [List.take_append, List.mem_append]
        exact or_iff_left fun hm => htail (List.mem_of_mem_take hm)
      rw [htake, List.length_append]
      rw [List.length_append] at hcond
      constructor
      · rintro ⟨hle, hmem⟩
        exact ⟨by omega, hmem⟩
      · rintro ⟨hle, hmem⟩
        exact ⟨by omega, hmem⟩
    rw [hsame]
    exact (List.prefix_append first tail).filter _

/-- **When placing a part of the hosts first changes no role group.** -/
theorem place_twice_iff :
    (∀ role ∈ hostRoles, (place env conflict hosts (place env conflict first .none)).group role
        = (place env conflict hosts .none).group role) ↔
      ¬ (0 < first.length ∧ (first.length : ℤ) < env.massiveScaleThreshold ∧
        env.massiveScaleThreshold ≤ hosts.length) := by
  obtain ⟨-, hetcd, hcp, hnode, hrr⟩ :=
    @place_none_of_small env conflict hosts hnd hscale hcontrol
  obtain ⟨hetcd₂, hcp₂, hnode₂, hrr₂⟩ :=
    @place_twice_of_small env conflict first hosts hnd hscale hcontrol hfirst
  rw [← addKeys_nodeHosts_iff hnd hscale hcontrol hfirst]
  constructor
  · intro h
    have hnodes := h kubeNode (by decide)
    rwa [hnode, hnode₂] at hnodes
  · intro h role hrole
    simp only [hostRoles, List.mem_cons, List.not_mem_nil, or_false] at hrole
    rcases hrole with rfl | rfl | rfl | rfl
    · rw [hetcd, hetcd₂]
    · rw [hcp, hcp₂]
    · rw [hnode, hnode₂, h]
    · rw [hrr, hrr₂]

end Place

/-! ### The two ways -/

/-- A run that builds an inventory anew. -/
def freshRun (env : Env) (files : Text → Option (Option Value)) (args : List Text) : Run :=
  { env := env, files := files, argv := args }

/-- A run with the arguments `A`, followed by an `add` of `B`, writes the inventory that
one run with both writes. -/
def SameInventory (env : Env) (files : Text → Option (Option Value)) (disk : Disk)
    (A B : List Text) : Prop :=
  ∃ first whole, (freshRun env files A).writes disk = some first ∧
    (addRun env files B).writes (some first) = some whole ∧
    (freshRun env files (A ++ B)).writes disk = some whole

namespace AddressArguments

variable {args items : List Text} {files : Text → Option (Option Value)} {disk : Disk}

/-- Address arguments begin with no removal. -/
theorem removalFirst (h : AddressArguments env args items) :
    removalFirst args = .ok false :=
  removalFirst_eq_false fun t ht => (h.arguments t (List.mem_of_mem_head? ht)).item.cons

/-- The first address argument is no command. -/
theorem notMem_availableCommands (h : AddressArguments env args items) :
    ∀ command ∈ args.head?, command ∉ availableCommands := by
  intro command hhead hmem
  have hplain : ∀ t ∈ availableCommands, '.' ∉ t ∧ ':' ∉ t := by decide
  obtain ⟨hdot, hcolon⟩ := hplain command hmem
  rcases (h.arguments command (List.mem_of_mem_head? hhead)).address with hc | hc
  · exact hdot hc
  · exact hcolon hc

/-- A fresh run names hosts. -/
theorem isHostRun_freshRun (h : AddressArguments env args items) :
    isHostRun (freshRun env files args).argv = true :=
  decide_eq_true (Or.inr h.notMem_availableCommands)

/-- A fresh run is no `add`. -/
theorem add_freshRun (h : AddressArguments env args items) :
    (freshRun env files args).add = false :=
  decide_eq_false fun hadd => h.notMem_availableCommands _ hadd (by decide)

/-- Its arguments are the command line. -/
theorem changedHosts_freshRun (h : AddressArguments env args items) :
    (freshRun env files args).changedHosts = args := by
  rw [Run.changedHosts, h.add_freshRun]
  rfl

/-- It loads nothing. -/
theorem base_freshRun (h : AddressArguments env args items) :
    (freshRun env files args).base disk = .ok .missing := by
  rw [Run.base, h.changedHosts_freshRun, h.removalFirst, h.add_freshRun, ok_bind]
  unfold loadedDocument
  exact if_neg fun hboth => Bool.false_ne_true hboth.2

/-- What a fresh run writes does not depend on the file that it finds. -/
theorem writes_freshRun (h : AddressArguments env args items) :
    (freshRun env files args).writes disk = (freshRun env files args).writes none := by
  have hload : ∀ disk, loadedDocument env disk (false || false) = .ok .missing := by
    intro disk
    unfold loadedDocument
    exact if_neg fun hboth => Bool.false_ne_true hboth.2
  have hsame : ∀ disk, hostRun env disk (freshRun env files args).add
      (freshRun env files args).changedHosts = hostRun env none false args := by
    intro disk
    rw [h.add_freshRun, h.changedHosts_freshRun, hostRun, hostRun, h.removalFirst]
    simp only [ok_bind, hload]
  have hwrites : ∀ disk disk' doc, doc ∈ (freshRun env files args).writes disk →
      doc ∈ (freshRun env files args).writes disk' := by
    intro disk disk' doc hdoc
    obtain ⟨cfg, hcfg, rfl, hfile⟩ := hostRun_of_writes h.isHostRun_freshRun hdoc
    exact writes_of_hostRun h.isHostRun_freshRun hfile
      ((hsame disk').trans ((hsame disk).symm.trans hcfg))
  exact Option.ext fun doc => ⟨hwrites disk none doc, hwrites none disk doc⟩

end AddressArguments

/-- No address begins with the letter that generated hostnames begin with. -/
theorem Numbering.hostPrefix_cons (henv : Numbering env) :
    ∃ c rest, env.hostPrefix = c :: rest ∧ c ∉ addressChars :=
  ⟨'n', "ode".toList, henv.hostPrefix, by decide⟩

/-- More arguments give the addresses of the first ones first. -/
theorem givenAddresses_append (as bs : List Text) :
    (givenAddresses env as).length ≤ (givenAddresses env (as ++ bs)).length := by
  have hsub : ∀ x ∈ givenAddresses env as, x ∈ givenAddresses env (as ++ bs) := by
    intro x hx
    rw [givenAddresses, mem_addKeys] at hx ⊢
    rw [List.filterMap_append, List.map_append, List.mem_append]
    exact hx.imp_right Or.inl
  have hnd : (givenAddresses env as).Nodup := nodup_addKeys List.nodup_nil
  exact (List.subperm_of_subset hnd hsub).length_le

/-- A walk that starts from stored hosts continues as if it had never stopped. -/
theorem numberedHosts_append (as bs : List Text) :
    ((bs.filterMap (givenPair env)).foldl (Walk.addPair env)
      (Walk.start (numberedHosts env as) (givenAddresses env as).length)).allHosts
      = numberedHosts env (as ++ bs) := by
  unfold numberedHosts
  rw [List.filterMap_append, List.foldl_append]
  exact foldl_addPair_congr _ rfl (numbered_walk env as).nextHostId.symm

/-- A walk that starts from stored hosts knows their addresses. -/
theorem numbered_restart (as : List Text) :
    Numbered env (givenAddresses env as)
      (Walk.start (numberedHosts env as) (givenAddresses env as).length) :=
  { numbered_walk env as with
    nextHostId := rfl
    bound := fun x hx => by cases hx }

variable {files : Text → Option (Option Value)} {disk : Disk} {A B as bs : List Text}

/-- **The host map of a fresh run with addresses.** -/
theorem hostMap_freshRun (henv : Numbering env) (hA : AddressArguments env A as) :
    (freshRun env files A).hostMap disk =
      if opensWithDigit env as = true then .ok (numberedHosts env as)
      else .error .unboundLocalError := by
  obtain ⟨cfg, hcfg, -, -⟩ := ensureRequiredGroups_missing
  have hitems := hA.items henv.hostPrefix_cons
  have hmap : (freshRun env files A).hostMap disk = buildHostnames env cfg as false := by
    have hargs := @AddressArguments.changedHosts_freshRun env A as files hA
    rw [Run.hostMap_of_parts (hargs ▸ hA.removalFirst) hA.base_freshRun hcfg
      (hargs ▸ hA.valid), hA.add_freshRun]
    rfl
  have hstart : existingHosts env cfg false = .ok (OrderedDict.empty, 0) := rfl
  rw [hmap, buildHostnames, hstart, ok_bind]
  dsimp only
  by_cases hopen : opensWithDigit env as = true
  · rw [walk_addresses henv hitems (numbered_start env) (Or.inr hopen), ok_bind, if_pos hopen]
    rfl
  · rw [walk_unbound hitems (numbered_start env) rfl (Bool.eq_false_iff.mpr hopen),
      if_neg hopen]
    rfl

/-- **The host map of an `add` of addresses** to such an inventory. -/
theorem hostMap_addRun_numbered (henv : Numbering env) (hfile : env.configFile = true)
    (hB : AddressArguments env B bs) {doc : Document} (hdoc : Written doc)
    (hstored : storedHosts doc = numberedHosts env as) :
    (addRun env files B).hostMap (some doc) =
      if opensWithDigit env bs = true then .ok (numberedHosts env (as ++ bs))
      else .error .unboundLocalError := by
  have hitems := hB.items henv.hostPrefix_cons
  obtain ⟨cfg, hd, hmap⟩ := @hostMap_addRun env doc files hdoc hfile _ hB.removalFirst _ hB.valid
  have hid : highestHostId env (numberedHosts env as).keys
      = .ok (givenAddresses env as).length := by
    rw [keys_numberedHosts, highestHostId_numberedNames henv]
  have hstart : existingHosts env cfg true
      = .ok (numberedHosts env as, (givenAddresses env as).length) := by
    rw [existingHosts, if_pos rfl, hd, hstored]
    dsimp only
    rw [hid]
  rw [hmap, buildHostnames, hstart, ok_bind]
  dsimp only
  by_cases hopen : opensWithDigit env bs = true
  · rw [walk_addresses henv hitems (numbered_restart as) (Or.inr hopen), ok_bind, if_pos hopen,
      numberedHosts_append]
    rfl
  · rw [walk_unbound hitems (numbered_restart as) rfl (Bool.eq_false_iff.mpr hopen),
      if_neg hopen]
    rfl

/-- Arguments of two runs in one. -/
theorem AddressArguments.append (hA : AddressArguments env A as)
    (hB : AddressArguments env B bs) : AddressArguments env (A ++ B) (as ++ bs) where
  nonempty := fun hnil => hA.nonempty (List.append_eq_nil_iff.mp hnil).1
  arguments t ht := (List.mem_append.mp ht).elim (hA.arguments t) (hB.arguments t)
  valid := by
    obtain ⟨xs, hxs, hflat⟩ := ok_of_bind hA.valid
    obtain ⟨ys, hys, hflat'⟩ := ok_of_bind hB.valid
    cases hflat
    cases hflat'
    rw [range2ips, List.mapM_append, hxs, ok_bind, hys, ok_bind, ← List.flatten_append]
    rfl

/-- Opening with a digit, of a longer list. -/
theorem opensWithDigit_append (hA : opensWithDigit env as = true)
    (hB : opensWithDigit env bs = true) : opensWithDigit env (as ++ bs) = true := by
  induction as with
  | nil => exact hB
  | cons t as ih =>
      rw [List.cons_append, opensWithDigit]
      rw [opensWithDigit] at hA
      split_ifs at hA ⊢
      · rfl
      · exact ih hA

/-- **What a fresh run with addresses writes.** -/
theorem writes_freshRun_addresses (henv : Numbering env) (hfile : env.configFile = true)
    (hA : AddressArguments env A as) (hopen : opensWithDigit env as = true) :
    ∃ cfg, (freshRun env files A).writes disk = some cfg.toDocument ∧ Canonical cfg ∧
      storedHosts cfg.toDocument = numberedHosts env as ∧
      cfg.assignment = place env calledHosts (numberedHosts env as).keys .none := by
  have hmap := @hostMap_freshRun env files none A as henv hA
  rw [if_pos hopen] at hmap
  have hbase : (freshRun env files A).base none = .ok .missing := hA.base_freshRun
  have hcarried : (freshRun env files A).carriedHosts none = OrderedDict.empty := by
    rw [Run.carriedHosts, hbase]
    rfl
  have hargs : (freshRun env files A).changedHosts ≠ [] := by
    rw [hA.changedHosts_freshRun]
    exact hA.nonempty
  obtain ⟨cfg, hwrites, hcfg, hstored, hassign⟩ :=
    writes_of_adding (fun doc hdoc => by cases hdoc) hA.isHostRun_freshRun hfile hargs hmap
      (by rw [hcarried]; exact List.nil_prefix)
  have hnone : (freshRun env files A).carried none = .none := by
    rw [Run.carried, hbase]
    rfl
  rw [hnone] at hassign
  exact ⟨cfg, by rw [hA.writes_freshRun, hwrites], hcfg, hstored, hassign⟩

/-- **What a further `add` of addresses writes.** -/
theorem writes_addRun_addresses (henv : Numbering env) (hfile : env.configFile = true)
    (hB : AddressArguments env B bs) (hopen : opensWithDigit env bs = true) {cfg : Config}
    (hcfg : Canonical cfg) (hstored : storedHosts cfg.toDocument = numberedHosts env as) :
    ∃ cfg', (addRun env files B).writes (some cfg.toDocument) = some cfg'.toDocument ∧
      Canonical cfg' ∧ storedHosts cfg'.toDocument = numberedHosts env (as ++ bs) ∧
      cfg'.assignment
        = place env calledHosts (numberedHosts env (as ++ bs)).keys cfg.assignment := by
  have hdoc : Written cfg.toDocument := ⟨cfg, hcfg, rfl⟩
  have hdisk : WrittenDisk (some cfg.toDocument) := writtenDisk_some hdoc
  have hmap := @hostMap_addRun_numbered env files B as bs henv hfile hB _ hdoc hstored
  rw [if_pos hopen] at hmap
  obtain ⟨cfg', hwrites, hcfg', hstored', hassign⟩ :=
    writes_of_adding hdisk (isHostRun_addRun env files B) hfile hB.nonempty hmap (by
      rw [carriedHosts_addRun hfile hB.removalFirst, hstored, keys_numberedHosts,
        keys_numberedHosts]
      exact numberedNames_isPrefix env (givenAddresses_append as bs))
  have hcarried : (addRun env files B).carried (some cfg.toDocument) = cfg.assignment := by
    rw [Run.carried, base_addRun hfile hB.removalFirst]
    rfl
  rw [hcarried] at hassign
  exact ⟨cfg', hwrites, hcfg', hstored', hassign⟩

/-- A run that writes has arguments that open with a digit, when it needs that for its host
map. -/
theorem opens_of_writes {r : Run} {doc : Document} {items : List Text}
    {hosts : OrderedDict Text Value} (hrun : isHostRun r.argv = true)
    (hwrites : r.writes disk = some doc)
    (hmap : r.hostMap disk =
      if opensWithDigit env items = true then .ok hosts else .error .unboundLocalError) :
    opensWithDigit env items = true := by
  obtain ⟨-, -, -, -, hosts', -, -, -, -, -, -, -, hok, -⟩ := hostMap_of_writes hrun hwrites
  by_contra hno
  rw [hmap, if_neg hno] at hok
  cases hok

end Kubespray.Inventory
