import Kubespray.Inventory.AddArguments

/-!
# Requested Addresses

A run of `build_hostnames` that only adds hosts should end with the addresses of the file
and those of the arguments, each at one host. It fails to when the loop takes an argument for
something else, and when an assignment hits the hostname of another host and puts out its
address: the numbers of generated names are known before the loop, and the hostnames of the
arguments come in during it. Both can be told from the loaded hosts and the arguments.

## Main results

* `Apart.walk`: a walk whose names are apart ends with the loaded and the requested addresses.
* `apart_of_held`: where no address is asked for twice, no other walk does.
* `keepsRequested_iff`: when a run ends with exactly the loaded and the requested
  addresses, each at one host.
-/

namespace Kubespray.Inventory

open OrderedDict Fallible

variable {env : Env} {w w' : Walk} {loaded : OrderedDict Text Value} {highest : ℕ}
  {args : List (AddArgument env)}

/-- **A run loses no requested address**: it ends with exactly the loaded and the requested
addresses, each at one host. -/
def KeepsRequested (env : Env) (cfg : Config) (loadPreviousConfig : Bool)
    (loaded : OrderedDict Text Value) (args : List (AddArgument env)) : Prop :=
  ∃ result,
    buildHostnames env cfg (args.map AddArgument.text) loadPreviousConfig = .ok result ∧
      (∀ v, Held result v ↔ Held loaded v ∨ ∃ arg ∈ args, v = .str arg.ip) ∧
      DistinctAddresses result

/-- No host gets in the way of another. The loaded hosts have addresses, which differ, every
argument is heard, and the names that the new addresses are given differ from each other and
from the loaded ones. -/
structure Apart (loaded : OrderedDict Text Value) (highest : ℕ)
    (args : List (AddArgument env)) : Prop where
  distinct : DistinctAddresses loaded
  readable : args ≠ [] → Readable loaded
  heard : Heard loaded highest args
  names : ((given loaded highest args).map HostAssignment.name).Nodup
  unloaded : ∀ a ∈ given loaded highest args, a.name ∉ loaded.keys

/-! ### Names that are apart -/

/-- The first arguments are apart, too. -/
theorem Apart.of_concat {arg : AddArgument env} (h : Apart loaded highest (args ++ [arg])) :
    Apart loaded highest args where
  distinct := h.distinct
  readable _ := h.readable (by simp)
  heard := h.heard.of_append
  names := by
    have hnames := h.names
    rw [given_concat] at hnames
    split_ifs at hnames
    · exact hnames
    · rw [List.map_append] at hnames
      exact hnames.of_append_left
  unloaded a ha := by
    refine h.unloaded a ?_
    rw [given_concat]
    split_ifs
    · exact ha
    · exact List.mem_append_left _ ha

/-- A new host adds its address. -/
theorem held_set_iff {hosts : OrderedDict Text Value} {name : Text} (hnew : name ∉ hosts.keys)
    (accessIp ip : Text) (v : Value) :
    Held (hosts.set name (hostOpts accessIp ip)) v ↔ Held hosts v ∨ v = .str ip := by
  constructor
  · rintro ⟨h, hv⟩
    by_cases hname : h = name
    · rw [hname, addressOf_set_self] at hv
      exact Or.inr (Option.some.inj hv).symm
    · rw [addressOf_set_of_ne _ _ hname] at hv
      exact Or.inl ⟨h, hv⟩
  · rintro (⟨h, hv⟩ | rfl)
    · have hname : h ≠ name := fun heq => hnew (heq ▸ mem_keys_of_addressOf hv)
      exact ⟨h, by rw [addressOf_set_of_ne _ _ hname, hv]⟩
    · exact ⟨name, addressOf_set_self _ _ _ _⟩

/-- Hosts that can be read still can when options are assigned. -/
theorem Readable.set {hosts : OrderedDict Text Value} (h : Readable hosts)
    (name accessIp ip : Text) : Readable (hosts.set name (hostOpts accessIp ip)) := by
  intro k hk
  by_cases hname : k = name
  · exact ⟨_, by rw [hname, addressOf_set_self]⟩
  · rw [addressOf_set_of_ne _ _ hname]
    rw [keys_set, mem_addKey] at hk
    exact h k (hk.resolve_right hname)

/-- What a walk over such arguments has come to. -/
structure Walked (loaded : OrderedDict Text Value) (highest : ℕ) (args : List (AddArgument env))
    (w : Walk) : Prop where
  nextHostId : w.nextHostId = idAfter (highest + 1) (newArguments loaded args)
  keys : ∀ k, k ∈ w.allHosts.keys ↔
    k ∈ loaded.keys ∨ ∃ a ∈ given loaded highest args, a.name = k
  readable : Readable loaded → Readable w.allHosts
  held : ∀ v, Held w.allHosts v ↔ Held loaded v ∨ ∃ arg ∈ args, v = .str arg.ip

/-- Before the first argument. -/
theorem walked_nil :
    Walked loaded highest ([] : List (AddArgument env)) (Walk.start loaded highest) where
  nextHostId := rfl
  keys k := by simp [Walk.start, given, newArguments, Firsts.firsts, assignmentsFrom]
  readable := id
  held v := by simp [Walk.start]

/-- An address has a host when it is loaded or was asked for. -/
theorem Walked.hasAddress_iff (h : Walked loaded highest args w) (ip : Text) :
    hasAddress w.allHosts ip = true ↔
      hasAddress loaded ip = true ∨ ∃ arg ∈ args, arg.ip = ip := by
  rw [Inventory.hasAddress_iff, Inventory.hasAddress_iff, h.held]
  simp only [Value.str.injEq, eq_comm]

/-- One argument more whose address has a host. -/
theorem Walked.pass {arg : AddArgument env} (h : Walked loaded highest args w)
    (hin : hasAddress loaded arg.ip = true ∨ ∃ b ∈ args, b.ip = arg.ip)
    (hhosts : w'.allHosts = w.allHosts) (hnext : w'.nextHostId = w.nextHostId) :
    Walked loaded highest (args ++ [arg]) w' where
  nextHostId := by rw [hnext, h.nextHostId, newArguments_concat, if_pos hin]
  keys := by
    rw [hhosts, given_concat, if_pos hin]
    exact h.keys
  readable := by
    rw [hhosts]
    exact h.readable
  held v := by
    have hthere : Held w.allHosts (.str arg.ip) :=
      Inventory.hasAddress_iff.mp ((h.hasAddress_iff _).mpr hin)
    rw [hhosts, h.held]
    simp only [List.mem_append, List.mem_singleton, or_and_right, exists_or, exists_eq_left,
      ← or_assoc]
    refine (or_iff_left_of_imp ?_).symm
    rintro rfl
    exact (h.held _).mp hthere

/-- One argument more whose address gets a new host. -/
theorem Walked.assign {arg : AddArgument env} (h : Walked loaded highest args w)
    (hnot : ¬ (hasAddress loaded arg.ip = true ∨ ∃ b ∈ args, b.ip = arg.ip))
    (hnew : (arg.assignment w.nextHostId).name ∉ w.allHosts.keys)
    (hhosts : w'.allHosts = (arg.assignment w.nextHostId).apply w.allHosts)
    (hnext : w'.nextHostId = arg.nextId w.nextHostId) :
    Walked loaded highest (args ++ [arg]) w' where
  nextHostId := by
    rw [hnext, h.nextHostId, newArguments_concat, if_neg hnot, idAfter, idAfter,
      List.foldl_append]
    rfl
  keys k := by
    rw [hhosts, given_concat, if_neg hnot, ← h.nextHostId, HostAssignment.apply, keys_set,
      mem_addKey, h.keys]
    simp only [List.mem_append, List.mem_singleton, or_and_right, exists_or,
      exists_eq_left, or_assoc, eq_comm (a := k)]
  readable hloaded := by
    rw [hhosts]
    exact (h.readable hloaded).set _ _ _
  held v := by
    rw [hhosts, HostAssignment.apply, HostAssignment.opts, held_set_iff hnew, h.held]
    simp only [List.mem_append, List.mem_singleton, or_and_right, exists_or,
      exists_eq_left, or_assoc]
    rfl

/-- The last of some arguments that are apart is given a name that no host has. -/
theorem Apart.name_notMem {arg : AddArgument env} (h : Apart loaded highest (args ++ [arg]))
    (hw : Walked loaded highest args w)
    (hnot : ¬ (hasAddress loaded arg.ip = true ∨ ∃ b ∈ args, b.ip = arg.ip)) :
    (arg.assignment w.nextHostId).name ∉ w.allHosts.keys := by
  have hgiven := given_concat loaded highest args arg
  rw [if_neg hnot, ← hw.nextHostId] at hgiven
  rw [hw.keys]
  rintro (hkey | ⟨a, ha, hname⟩)
  · exact h.unloaded (arg.assignment w.nextHostId) (by simp [hgiven]) hkey
  · have hnames := h.names
    rw [hgiven, List.map_append] at hnames
    exact (List.nodup_append.mp hnames).2.2 _ (List.mem_map_of_mem ha) _
      List.mem_cons_self hname

/-- **A walk whose names are apart** gets to its end, with the loaded and the requested
addresses. By induction on the arguments from the last one on: its address is held exactly
when it is loaded or was asked for, and otherwise it goes to a host that is new. -/
theorem Apart.walk (hreal : env.useRealHostname = false) (h : Apart loaded highest args) :
    ∃ w, (args.map AddArgument.text).foldlM (stepHost env) (Walk.start loaded highest) = .ok w ∧
      Walked loaded highest args w := by
  induction args using List.reverseRecOn with
  | nil => exact ⟨_, rfl, walked_nil⟩
  | append_singleton args arg ih =>
      obtain ⟨w, hwalk, hw⟩ := ih h.of_concat
      obtain ⟨hbefore, hmisread, hcalled⟩ := heard_concat_iff.mp h.heard
      have hnotCalled : arg.text ∉ w.allHosts.keys := by
        rw [hw.keys]
        exact hcalled
      have hlookup := existsIp_of_readable (hw.readable (h.readable (by simp))) arg.ip
      have hstep : ∀ w₁, stepHost env w arg.text = .ok w₁ →
          ((args ++ [arg]).map AddArgument.text).foldlM (stepHost env)
            (Walk.start loaded highest) = .ok w₁ := by
        intro w₁ hstep
        rw [List.map_append, List.map_singleton]
        exact foldlM_append_eq_ok_iff.mpr
          ⟨w, hwalk, foldlM_cons_eq_ok_iff.mpr ⟨w₁, hstep, rfl⟩⟩
      by_cases hin : hasAddress loaded arg.ip = true ∨ ∃ b ∈ args, b.ip = arg.ip
      · rw [(hw.hasAddress_iff _).mpr hin] at hlookup
        obtain ⟨-, w₁, hstepHost, hhosts, hnext⟩ :=
          AddArgument.step_held hreal hmisread hnotCalled hlookup
        exact ⟨w₁, hstep w₁ hstepHost, hw.pass hin hhosts hnext⟩
      · rw [Bool.eq_false_iff.mpr (mt (hw.hasAddress_iff _).mp hin)] at hlookup
        obtain ⟨-, w₁, hstepHost, hhosts, hnext⟩ :=
          AddArgument.step_free hreal hmisread hnotCalled hlookup
        exact ⟨w₁, hstep w₁ hstepHost,
          hw.assign hin (h.name_notMem hw hin) hhosts hnext⟩

/-! ### Walks that keep the addresses -/

/-- **The address of a host after a walk**: the last assignment to the host counts. -/
theorem addressOf_walk
    (hwalk : (args.map AddArgument.text).foldlM (stepHost env) w = .ok w') (h : Text) :
    addressOf w'.allHosts h
      = ((lastAssigned (assignments env (.ok w) (args.map AddArgument.text)) h).map
          fun a => .str a.ip).or (addressOf w.allHosts h) := by
  induction args generalizing w with
  | nil =>
      cases hwalk
      rfl
  | cons arg args ih =>
      obtain ⟨w₁, hstep, hwalk⟩ := foldlM_cons_eq_ok_iff.mp hwalk
      rw [ih hwalk, addressOf_stepHost hstep, List.map_cons, assignments_ok_cons, hstep,
        lastAssigned_append, Option.map_or, Option.or_assoc]
      refine congrArg _ ?_
      cases assigned env w arg.text with
      | none => rfl
      | some a =>
          rw [Option.filter_some, Option.toList_some, lastAssigned_singleton]
          by_cases hname : a.name = h <;> simp [hname]

/-- **The address of an argument that is called like a host does not get in**, if no other
argument asks for it, and the loop reads them all. -/
theorem not_held_of_called (hreal : env.useRealHostname = false)
    {before after : List (AddArgument env)} {arg : AddArgument env}
    (honce : AsksOnce loaded (before ++ arg :: after))
    (hread : ∀ b ∈ before ++ arg :: after, ¬ b.Misread)
    (hbefore : (before.map AddArgument.text).foldlM (stepHost env) (Walk.start loaded highest)
      = .ok w)
    (hrest : ((arg :: after).map AddArgument.text).foldlM (stepHost env) w = .ok w')
    (hcalled : arg.text ∈ w.allHosts.keys) : ¬ Held w'.allHosts (.str arg.ip) := by
  obtain ⟨w₁, hstep, hafter⟩ := foldlM_cons_eq_ok_iff.mp hrest
  have hnone : assigned env w arg.text = none :=
    assigned_of_skipped (Or.inl (by simpa [existsHostname] using hcalled))
  have hne : ∀ b ∈ before ++ after, b.ip ≠ arg.ip := by
    intro b hb hip
    have hnodup := honce.nodup
    rw [List.map_append, List.map_cons] at hnodup
    have hout := (List.nodup_cons.mp (List.nodup_middle.mp hnodup)).1
    rw [← List.map_append] at hout
    exact hout (hip ▸ List.mem_map_of_mem hb)
  have hcome : ∀ {ts : List (AddArgument env)} {v : Walk} {b : HostAssignment},
      (∀ c ∈ ts, c ∈ before ++ after) →
      b ∈ assignments env (.ok v) (ts.map AddArgument.text) → b.ip ≠ arg.ip := by
    intro ts v b hts hb hip
    rcases ip_of_mem_assignments hreal hb with ⟨c, hc, -, hcip⟩ | ⟨⟨c, hc, hmisread⟩, -⟩
    · exact hne c (hts c hc) (hcip.trans hip)
    · refine hread c ?_ hmisread
      have hmem := hts c hc
      simp only [List.mem_append, List.mem_cons] at hmem ⊢
      exact hmem.imp_right Or.inr
  intro hheld
  rcases held_walk hafter hheld with hnow | ⟨b, hb, hip⟩
  · rcases held_stepHost hstep hnow with hthen | ⟨a, ha, -⟩
    · rcases held_walk hbefore hthen with hloaded | ⟨b, hb, hip⟩
      · exact honce.new arg (by simp) hloaded
      · exact hcome (fun c hc => List.mem_append_left _ hc) hb (Value.str.inj hip).symm
    · rw [hnone] at ha
      cases ha
  · exact hcome (fun c hc => List.mem_append_right _ hc) hb (Value.str.inj hip).symm

/-- **Where no address is asked for twice**, a walk gets them in only when it hears every
argument. The arguments up to one are heard by induction, so that their names are known. -/
theorem heard_of_held (hreal : env.useRealHostname = false) (honce : AsksOnce loaded args)
    (hwalk : (args.map AddArgument.text).foldlM (stepHost env) (Walk.start loaded highest)
      = .ok w')
    (hheld : ∀ arg ∈ args, Held w'.allHosts (.str arg.ip)) : Heard loaded highest args := by
  have hread : ∀ arg ∈ args, ¬ arg.Misread := by
    intro arg harg hmisread
    rcases held_walk hwalk (hheld arg harg) with hloaded | ⟨b, hb, hip⟩
    · exact honce.new arg harg hloaded
    · rcases ip_of_mem_assignments hreal hb with ⟨c, hc, hcread, hcip⟩ | ⟨-, hinit⟩
      · obtain rfl : c = arg :=
          List.inj_on_of_nodup_map honce.nodup hc harg (by rw [hcip, Value.str.inj hip])
        exact hcread hmisread
      · cases hinit
  have hprefix : ∀ before after, args = before ++ after → Heard loaded highest before := by
    intro before
    induction before using List.reverseRecOn with
    | nil => exact fun _ _ => heard_nil
    | append_singleton before arg ih =>
        intro after heq
        rw [List.append_assoc, List.singleton_append] at heq
        have hheard := ih _ heq
        subst heq
        refine heard_concat_iff.mpr ⟨hheard, hread arg (by simp), ?_⟩
        rw [List.map_append] at hwalk
        obtain ⟨w, hbefore, hrest⟩ := foldlM_append_eq_ok_iff.mp hwalk
        have honceBefore := honce.of_append
        rw [given, honceBefore.newArguments_eq,
          ← (assignments_of_asksOnce hreal hheard honceBefore hbefore).1]
        intro hcalled
        exact not_held_of_called hreal honce hread hbefore hrest
          (mem_keys_walk hbefore hcalled) (hheld arg (by simp))
  exact hprefix args [] (List.append_nil args).symm

/-- Where no address is asked for twice, every argument is given a name. -/
theorem given_of_asksOnce (honce : AsksOnce loaded args) :
    given loaded highest args = assignmentsFrom (highest + 1) args := by
  rw [given, honce.newArguments_eq]

/-- The addresses that are given a name are those that are asked for. -/
theorem map_ip_given (honce : AsksOnce loaded args) :
    (given loaded highest args).map HostAssignment.ip = args.map AddArgument.ip := by
  rw [given_of_asksOnce honce, map_ip_assignmentsFrom]

/-- No argument asks for the address of a loaded host. -/
theorem not_held_of_mem_given (honce : AsksOnce loaded args) {a : HostAssignment}
    (ha : a ∈ given loaded highest args) : ¬ Held loaded (.str a.ip) := by
  have hmem : a.ip ∈ args.map AddArgument.ip := map_ip_given honce ▸ List.mem_map_of_mem ha
  obtain ⟨arg, harg, hip⟩ := List.mem_map.mp hmem
  exact hip ▸ honce.new arg harg

/-- The address of a host after a walk in which every argument is heard. -/
theorem addressOf_heard (hreal : env.useRealHostname = false) (hheard : Heard loaded highest args)
    (honce : AsksOnce loaded args)
    (hwalk : (args.map AddArgument.text).foldlM (stepHost env) (Walk.start loaded highest)
      = .ok w') (h : Text) :
    addressOf w'.allHosts h
      = ((lastAssigned (given loaded highest args) h).map fun a => .str a.ip).or
          (addressOf loaded h) := by
  rw [addressOf_walk hwalk, (assignments_of_asksOnce hreal hheard honce hwalk).1,
    given_of_asksOnce honce]
  rfl

/-- **A requested address that is held is found at the name that it was given**: no later
argument was given the name, too. -/
theorem lastAssigned_of_held (hreal : env.useRealHostname = false)
    (hheard : Heard loaded highest args) (honce : AsksOnce loaded args)
    (hwalk : (args.map AddArgument.text).foldlM (stepHost env) (Walk.start loaded highest)
      = .ok w') {a : HostAssignment} (ha : a ∈ given loaded highest args)
    (hheld : Held w'.allHosts (.str a.ip)) :
    lastAssigned (given loaded highest args) a.name = some a := by
  have hips : ((given loaded highest args).map HostAssignment.ip).Nodup := by
    rw [map_ip_given honce]
    exact honce.nodup
  obtain ⟨h, hv⟩ := hheld
  rw [addressOf_heard hreal hheard honce hwalk] at hv
  cases hlast : lastAssigned (given loaded highest args) h with
  | none =>
      rw [hlast] at hv
      exact absurd ⟨h, hv⟩ (not_held_of_mem_given honce ha)
  | some c =>
      rw [hlast] at hv
      have hsame : c.ip = a.ip := Value.str.inj (Option.some.inj hv)
      obtain ⟨hc, hname⟩ := mem_of_lastAssigned hlast
      obtain rfl : c = a := List.inj_on_of_nodup_map hips hc ha hsame
      rw [hname, hlast]

/-- **Where no address is asked for twice**, a walk that ends with the loaded and the
requested addresses has names that are apart. -/
theorem apart_of_held (hreal : env.useRealHostname = false) (hdistinct : DistinctAddresses loaded)
    (honce : AsksOnce loaded args)
    (hwalk : (args.map AddArgument.text).foldlM (stepHost env) (Walk.start loaded highest)
      = .ok w')
    (hheld : ∀ v, Held loaded v ∨ (∃ arg ∈ args, v = .str arg.ip) → Held w'.allHosts v) :
    Apart loaded highest args := by
  have hheard := heard_of_held hreal honce hwalk fun arg harg =>
    hheld _ (Or.inr ⟨arg, harg, rfl⟩)
  have hlast : ∀ a ∈ given loaded highest args,
      lastAssigned (given loaded highest args) a.name = some a := by
    intro a ha
    have hmem : a.ip ∈ args.map AddArgument.ip := map_ip_given honce ▸ List.mem_map_of_mem ha
    obtain ⟨arg, harg, hip⟩ := List.mem_map.mp hmem
    exact lastAssigned_of_held hreal hheard honce hwalk ha
      (hheld _ (Or.inr ⟨arg, harg, by rw [hip]⟩))
  have hreadable : args ≠ [] → Readable loaded := by
    intro hne
    obtain ⟨arg, rest, rfl⟩ := List.exists_cons_of_ne_nil hne
    obtain ⟨w₁, hstep, -⟩ := foldlM_cons_eq_ok_iff.mp hwalk
    refine readable_of_existsIp (AddArgument.free_of_step hreal (hheard.read arg (by simp)) ?_
      hstep (honce.new arg (by simp)))
    exact (hheard.uncalled [] arg rest rfl).1
  refine ⟨hdistinct, hreadable, hheard, ?_, ?_⟩
  · have hnodup : (given loaded highest args).Nodup := by
      refine List.Nodup.of_map HostAssignment.ip ?_
      rw [map_ip_given honce]
      exact honce.nodup
    refine hnodup.map_on fun a ha b hb heq => ?_
    have hsame := hlast a ha
    rw [heq, hlast b hb] at hsame
    exact (Option.some.inj hsame).symm
  · intro a ha hkey
    have hne : args ≠ [] := by
      rintro rfl
      cases ha
    obtain ⟨v, hv⟩ := hreadable hne a.name hkey
    obtain ⟨h, hh⟩ := hheld v (Or.inl ⟨a.name, hv⟩)
    rw [addressOf_heard hreal hheard honce hwalk] at hh
    cases hlastOf : lastAssigned (given loaded highest args) h with
    | none =>
        rw [hlastOf] at hh
        obtain rfl : h = a.name := hdistinct h a.name v hh hv
        rw [hlast a ha] at hlastOf
        cases hlastOf
    | some c =>
        rw [hlastOf] at hh
        refine not_held_of_mem_given honce (mem_of_lastAssigned hlastOf).1 ⟨a.name, ?_⟩
        rw [hv]
        exact hh.symm

/-! ### A whole run -/

/-- No stored hosts. -/
def noHosts : Config :=
  { hosts := .null, children := OrderedDict.empty }

/-- An address, which gets the name `node1`. -/
def secondAddress : AddArgument .default :=
  .bare "10.1.0.2".toList (by decide) (by decide) (by decide)

/-- A hostname with an address. -/
def withHostname (hostname : Text) (letter : startsWithLetter .default hostname = true)
    (comma : ',' ∉ hostname) : AddArgument .default :=
  .explicit hostname "10.1.0.1".toList none letter comma (by decide) (by simp)

end Kubespray.Inventory
