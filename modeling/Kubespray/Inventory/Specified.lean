import Kubespray.Inventory.AddArguments
import Kubespray.Inventory.Removal

/-!
# Hosts That Are Specified Already

`build_hostnames` is to keep the hosts of the file as they are, and to add or remove what
the arguments say. The branch for hostnames asks whether a host exists that is called like
the *whole argument*, `node1,10.0.0.9`, and not like its hostname: a host of the file gets
other options whenever an argument names it with a free address. A hostname left behind by
an earlier argument, an answer over `ssh` or a generated name can hit a host as well. What
may hit a host can be told from the arguments: the hostnames and addresses that they bring
into the hand of the loop, and how many addresses need a name.

## Main results

* `Tracks.step`, `LeavesAlone.walk`: arguments that leave the hosts of the file alone.
* `get?_walk`: what a host that no removal designates has after the walk.
* `leavesAlone_of_keeps`: where no address is asked for twice, no other arguments do.
* `keepsSpecified_iff`: when the hosts of the file keep their options.
-/

namespace Kubespray.Inventory

open OrderedDict Fallible

variable {env : Env} {w w' : Walk}

/-- The hosts of the file that no removal designates have in the result what they have in
the file. -/
def KeepsSpecified (env : Env) (cfg : Config) (args : List Text)
    (result : OrderedDict Text Value) : Prop :=
  ∀ hosts, cfg.hosts = .is hosts → ∀ h opts, hosts.get? h = some opts →
    designated env hosts (startWalk env cfg true) args h = false → result.get? h = some opts

/-! ### What the arguments bring in -/

/-- The hostname that an argument gives. -/
def namedBy (env : Env) (t : Text) : Option Text :=
  if startsWithLetter env t ∧ ',' ∈ t then (t.splitOn ',').head? else none

/-- The address that an argument asks for. -/
def askedBy (env : Env) (t : Text) : Option Text :=
  if startsWithDigit env t then (t.splitOn ',').head?
  else if startsWithLetter env t ∧ ',' ∈ t then (t.splitOn ',').tail.head?
  else none

/-- The hostname in hand after some arguments. -/
def hostnameInHand (env : Env) (ts : List Text) : Option Text :=
  (ts.filterMap (namedBy env)).getLast?

/-- The address in hand after some arguments. -/
def addressInHand (env : Env) (ts : List Text) : Option Text :=
  (ts.filterMap (askedBy env)).getLast?

/-- A host of the file that no argument removes by its name or by its address. -/
def Kept (hosts : OrderedDict Text Value) (args : List Text) (h : Text) : Prop :=
  h ∈ hosts.keys ∧ ∀ x, '-' :: x ∈ args → x ≠ h ∧ ipOf hosts h ≠ some x

instance (hosts : OrderedDict Text Value) (args : List Text) (h : Text) :
    Decidable (Kept hosts args h) :=
  decidable_of_iff (h ∈ hosts.keys ∧ ∀ t ∈ args, t.head? = some '-' →
      t.tail ≠ h ∧ ipOf hosts h ≠ some t.tail) (by
    refine and_congr_right fun _ => ⟨fun hno x hx => hno ('-' :: x) hx rfl, ?_⟩
    intro hno t ht hdash
    obtain ⟨x, rfl⟩ := List.head?_eq_some_iff.mp hdash
    exact hno x ht)

/-- The address of a host that is kept. -/
def keptAddress (hosts : OrderedDict Text Value) (args : List Text) (x : Text) : Bool :=
  hosts.keys.any fun h => Kept hosts args h ∧ ipOf hosts h = some x

/-- The arguments that may need a name: they start with a digit, and no host that is kept
has the address that they ask for, or is called like them. -/
def needsName (env : Env) (hosts : OrderedDict Text Value) (args : List Text) (t : Text) : Bool :=
  startsWithDigit env t && !decide (Kept hosts args t) &&
    !(askedBy env t).any (keptAddress hosts args)

/-- The names that the loop chooses, in order: answers over `ssh`, or generated names. -/
def chosen (env : Env) (highest k : ℕ) : Option Text :=
  if env.useRealHostname then env.sshReply k else some (generatedName env (highest + 1 + k))

/-- The arguments leave the hosts of the file alone. An argument that starts with a letter, is
not called like a kept host as a whole, and finds the name of a kept host in hand, its own or
one that an earlier argument gave, finds the address of a kept host there, too. And no name
that may be chosen is that of a kept host. -/
structure LeavesAlone (env : Env) (hosts : OrderedDict Text Value) (highest : ℕ)
    (args : List Text) : Prop where
  letters : ∀ before t after, args = before ++ t :: after → startsWithLetter env t = true →
    ¬ Kept hosts args t → ∀ h, hostnameInHand env (before ++ [t]) = some h →
      Kept hosts args h →
        ∃ x, addressInHand env (before ++ [t]) = some x ∧ keptAddress hosts args x = true
  digits : ∀ k < args.countP (needsName env hosts args), ∀ name ∈ chosen env highest k,
    ¬ Kept hosts args name

/-- What one argument more brings into hand. -/
theorem hostnameInHand_concat (ts : List Text) (t : Text) :
    hostnameInHand env (ts ++ [t]) = (namedBy env t).or (hostnameInHand env ts) := by
  rw [hostnameInHand, hostnameInHand, List.filterMap_append, List.getLast?_append]
  cases ht : namedBy env t <;> simp [ht]

/-- The same for the address. -/
theorem addressInHand_concat (ts : List Text) (t : Text) :
    addressInHand env (ts ++ [t]) = (askedBy env t).or (addressInHand env ts) := by
  rw [addressInHand, addressInHand, List.filterMap_append, List.getLast?_append]
  cases ht : askedBy env t <;> simp [ht]

/-- An argument that is not read brings in nothing. -/
theorem namedBy_of_not_isRead {t : Text} (h : isRead env t = false) :
    namedBy env t = none ∧ askedBy env t = none := by
  rw [isRead, Bool.or_eq_false_iff] at h
  rw [namedBy, askedBy, h.1, h.2]
  simp

/-- **Unpacking an argument** takes into hand what it gives. -/
theorem unpacked_inHand {t : Text} (hread : isRead env t = true) {w₁ : Walk}
    (hunpack : unpacked env w t = .ok w₁) :
    w₁.hostname = (namedBy env t).or w.hostname ∧ w₁.ip = (askedBy env t).or w.ip := by
  rw [unpacked] at hunpack
  split_ifs at hunpack with hdigit
  · obtain ⟨⟨ip, accessIp⟩, hp, hw⟩ := ok_of_bind hunpack
    cases hw
    have hletter : startsWithLetter env t = false := by
      by_contra hl
      rw [startsWithDigit_of_letter (by simpa using hl)] at hdigit
      cases hdigit
    have hip : (t.splitOn ',').head? = some ip := by
      rw [unpackAddress] at hp
      split_ifs at hp with hcomma
      · split at hp <;> rename_i hsplit <;> cases hp
        rw [hsplit]
        rfl
      · cases hp
        rw [List.splitOn_eq_singleton hcomma]
        rfl
    rw [namedBy, askedBy, if_neg (by simp [hletter]), if_pos hdigit, hip]
    exact ⟨rfl, rfl⟩
  · have hletter : startsWithLetter env t = true := by
      simpa [isRead, hdigit] using hread
    rw [unpackHostname] at hunpack
    split_ifs at hunpack with hcomma
    · rw [namedBy, askedBy, if_pos ⟨hletter, hcomma⟩, if_neg hdigit, if_pos ⟨hletter, hcomma⟩]
      split at hunpack <;> rename_i hsplit <;> cases hunpack <;> rw [hsplit] <;> exact ⟨rfl, rfl⟩
    · cases hunpack
      rw [namedBy, askedBy, if_neg (by simp [hcomma]), if_neg hdigit, if_neg (by simp [hcomma])]
      exact ⟨rfl, rfl⟩

/-! ### Arguments that leave the file alone -/

/-- What a walk over the first arguments has in hand: every host that is kept is as it was,
the hostname and the address are those of the arguments, and no more names were chosen than
were needed. -/
structure Tracks (env : Env) (hosts : OrderedDict Text Value) (highest : ℕ)
    (args before : List Text) (w : Walk) : Prop where
  kept : ∀ h, Kept hosts args h → w.allHosts.get? h = hosts.get? h
  hostname : w.hostname = hostnameInHand env before
  ip : w.ip = addressInHand env before
  names : ∃ k ≤ before.countP (needsName env hosts args),
    (env.useRealHostname = true → w.lookups = k) ∧
      (env.useRealHostname = false → w.nextHostId = highest + 1 + k)

section Tracks

variable {hosts : OrderedDict Text Value} {highest : ℕ} {args before : List Text} {t : Text}

/-- A kept address is not free. -/
theorem not_free_of_keptAddress (htracks : Tracks env hosts highest args before w) {x : Text}
    (hx : keptAddress hosts args x = true) : existsIp w.allHosts x ≠ .ok false := by
  intro hfree
  obtain ⟨h, -, hh⟩ := List.any_eq_true.mp hx
  obtain ⟨hkept, hip⟩ := of_decide_eq_true hh
  refine addressOf_ne_of_existsIp hfree h ?_
  rw [addressOf, htracks.kept h hkept]
  rw [ipOf] at hip
  cases hget : hosts.get? h with
  | none =>
      rw [hget] at hip
      cases hip
  | some opts =>
      rw [hget] at hip
      dsimp only at hip ⊢
      split at hip
      · rename_i hopts
        cases hip
        rw [hopts]
        rfl
      · cases hip

/-- What is not the name of a host now is not that of a host that is kept. -/
theorem Tracks.not_kept (h : Tracks env hosts highest args before w)
    (hno : existsHostname w.allHosts t = false) : ¬ Kept hosts args t := by
  intro hkept
  obtain ⟨opts, hopts⟩ := mem_keys_iff.mp hkept.1
  rw [← h.kept t hkept] at hopts
  exact of_decide_eq_false hno (mem_keys_iff.mpr ⟨opts, hopts⟩)

/-- An argument whose address is free may need a name: no host that is kept has the address. -/
theorem needsName_of_free (htracks : Tracks env hosts highest args before w) {ip : Text}
    (hdigit : startsWithDigit env t = true) (hno : existsHostname w.allHosts t = false)
    (hin : addressInHand env (before ++ [t]) = some ip)
    (hfree : existsIp w.allHosts ip = .ok false) : needsName env hosts args t = true := by
  rw [needsName, hdigit, decide_eq_false (htracks.not_kept hno), Bool.not_false, Bool.true_and,
    Bool.true_and, Bool.not_eq_true', Bool.eq_false_iff]
  intro hany
  obtain ⟨x, hx, hkept⟩ := (Option.any_eq_true _ _).mp hany
  rw [addressInHand_concat, hx] at hin
  obtain rfl : x = ip := Option.some.inj hin
  exact not_free_of_keptAddress htracks hkept hfree

/-- One argument more that chooses no name. -/
theorem Tracks.concat (h : Tracks env hosts highest args before w)
    (hkept : ∀ g, Kept hosts args g → w'.allHosts.get? g = hosts.get? g)
    (hname : w'.hostname = (namedBy env t).or w.hostname)
    (hip : w'.ip = (askedBy env t).or w.ip)
    (hlook : w'.lookups = w.lookups) (hid : w'.nextHostId = w.nextHostId) :
    Tracks env hosts highest args (before ++ [t]) w' where
  kept := hkept
  hostname := by rw [hostnameInHand_concat, ← h.hostname, hname]
  ip := by rw [addressInHand_concat, ← h.ip, hip]
  names := by
    obtain ⟨k, hk, hnames⟩ := h.names
    refine ⟨k, hk.trans ?_, by rwa [hlook, hid]⟩
    rw [List.countP_append]
    exact Nat.le_add_right _ _

/-- A host that is kept is not removed. -/
theorem Tracks.removeHost (h : Tracks env hosts highest args before w) {x : Text}
    (hmem : '-' :: x ∈ args) (hremove : removeHost w x = .ok w') {g : Text}
    (hg : Kept hosts args g) : w'.allHosts.get? g = hosts.get? g := by
  rcases removeHost_spec hremove with heq | ⟨gone, hgone, heq⟩ <;> rw [heq]
  · exact h.kept g hg
  · rw [get?_erase_of_ne, h.kept g hg]
    rintro rfl
    rcases hgone with rfl | hip
    · exact (hg.2 _ hmem).1 rfl
    · refine (hg.2 x hmem).2 ?_
      rwa [ipOf, h.kept g hg] at hip

/-- Neither is it hit by an assignment to another name. -/
theorem Tracks.apply (h : Tracks env hosts highest args before w) {a : HostAssignment}
    (hnot : ¬ Kept hosts args a.name) {g : Text} (hg : Kept hosts args g) :
    (a.apply w.allHosts).get? g = hosts.get? g := by
  rw [HostAssignment.apply, get?_set_of_ne, h.kept g hg]
  rintro rfl
  exact hnot hg

/-- **An address gets a name that the loop chooses**: one of those that may be chosen. -/
theorem Tracks.concat_chosen (h : Tracks env hosts highest args before w)
    (halone : LeavesAlone env hosts highest args) {after : List Text}
    (hargs : args = before ++ t :: after) (hneeds : needsName env hosts args t = true)
    {w₁ w₂ : Walk} {a : HostAssignment}
    (hname : w₁.hostname = (namedBy env t).or w.hostname)
    (hip : w₁.ip = (askedBy env t).or w.ip)
    (hlook : w₁.lookups = w.lookups) (hid : w₁.nextHostId = w.nextHostId)
    (hnext : nextHost env w₁ = .ok (a.name, w₂)) :
    Tracks env hosts highest args (before ++ [t])
      { w₂ with allHosts := a.apply w.allHosts } := by
  obtain ⟨k, hk, hlookups, hnextId⟩ := h.names
  rw [h.hostname, ← hostnameInHand_concat] at hname
  rw [h.ip, ← addressInHand_concat] at hip
  have hsucc : k + 1 ≤ (before ++ [t]).countP (needsName env hosts args) := by
    rw [List.countP_append, List.countP_cons_of_pos hneeds, List.countP_nil]
    exact Nat.add_le_add_right hk 1
  have hlt : k < args.countP (needsName env hosts args) := by
    have hsub : (before ++ [t]).Sublist args := by simp [hargs]
    exact Nat.lt_of_lt_of_le hsucc hsub.countP_le
  have hnot : a.name ∈ chosen env highest k → ¬ Kept hosts args a.name :=
    halone.digits k hlt a.name
  rcases nextHost_eq_ok hnext with ⟨hreal, hreply, rfl⟩ | ⟨hreal, hgen, rfl⟩
  · rw [hlook, hlookups hreal] at hreply
    have hchosen : a.name ∈ chosen env highest k := by
      rw [chosen, if_pos hreal]
      exact hreply
    exact
      { kept := fun _ => h.apply (hnot hchosen)
        hostname := hname
        ip := hip
        names := ⟨k + 1, hsucc, fun _ => congrArg (· + 1) (hlook.trans (hlookups hreal)),
          fun hoff => absurd hreal (by simp [hoff])⟩ }
  · rw [hid, hnextId hreal] at hgen
    have hchosen : a.name ∈ chosen env highest k := by
      rw [chosen, if_neg (by simp [hreal])]
      exact congrArg some hgen.symm
    exact
      { kept := fun _ => h.apply (hnot hchosen)
        hostname := hname
        ip := hip
        names := ⟨k + 1, hsucc, fun hon => absurd hon (by simp [hreal]),
          fun _ => congrArg (· + 1) (hid.trans (hnextId hreal))⟩ }

/-- **An argument that is read** leaves the hosts alone. -/
theorem Tracks.step_read (h : Tracks env hosts highest args before w)
    (halone : LeavesAlone env hosts highest args) {after : List Text}
    (hargs : args = before ++ t :: after) (hread : isRead env t = true)
    (hstep : stepHost env w t = .ok w') : Tracks env hosts highest args (before ++ [t]) w' := by
  obtain ⟨w₁, hunpack, hcases⟩ := stepHost_isRead_cases hread hstep
  obtain ⟨hname, hip⟩ := unpacked_inHand hread hunpack
  obtain ⟨hhosts, hid, hlook⟩ := unpacked_keeps hunpack
  rcases hcases with ⟨-, rfl⟩ | ⟨a, w₂, ha, hchosen, rfl⟩
  · exact h.concat (fun g hg => by rw [hhosts, h.kept g hg]) hname hip hlook hid
  obtain ⟨-, huncalled, hfree, w₃, hunpack₃, hin, -⟩ := assigned_eq_some_iff.mp ha
  obtain rfl : w₁ = w₃ := Except.ok.inj (hunpack.symm.trans hunpack₃)
  have hinHand : addressInHand env (before ++ [t]) = some a.ip := by
    rw [addressInHand_concat, ← h.ip, ← hip, hin]
  rw [nameFor] at hchosen
  split_ifs at hchosen with hdigit
  · exact h.concat_chosen halone hargs (needsName_of_free h hdigit huncalled hinHand hfree) hname hip
      hlook hid hchosen
  · have hletter : startsWithLetter env t = true := by
      simpa [isRead, hdigit] using hread
    obtain ⟨hostname, hlocal, heq⟩ := ok_of_bind hchosen
    cases heq
    have hown : hostnameInHand env (before ++ [t]) = some a.name := by
      rw [hostnameInHand_concat, ← h.hostname, ← hname]
      exact readLocal_eq_ok hlocal
    refine h.concat (fun g => h.apply fun hbad => ?_) hname hip hlook hid
    obtain ⟨x, hx, hkeptAddress⟩ :=
      halone.letters before t after hargs hletter (h.not_kept huncalled) _ hown hbad
    rw [hinHand] at hx
    obtain rfl : a.ip = x := Option.some.inj hx
    exact not_free_of_keptAddress h hkeptAddress hfree

/-- **One argument** leaves the hosts alone. -/
theorem Tracks.step {after : List Text} (halone : LeavesAlone env hosts highest args)
    (hargs : args = before ++ t :: after) (h : Tracks env hosts highest args before w)
    (hstep : stepHost env w t = .ok w') : Tracks env hosts highest args (before ++ [t]) w' := by
  cases hread : isRead env t with
  | true => exact h.step_read halone hargs hread hstep
  | false =>
      obtain ⟨hnamed, hasked⟩ := namedBy_of_not_isRead hread
      by_cases hdash : t.head? = some '-'
      · obtain ⟨x, rfl⟩ := List.head?_eq_some_iff.mp hdash
        have hremove : Inventory.removeHost w x = .ok w' := hstep
        have hkeeps := removeHost_keeps hremove
        exact h.concat (fun _ => h.removeHost (by simp [hargs]) hremove)
          (by rw [hkeeps, hnamed]; rfl) (by rw [hkeeps, hasked]; rfl) (by rw [hkeeps])
          (by rw [hkeeps])
      · rw [stepHost_of_not_isRead hread hdash hstep]
        exact h.concat h.kept (by rw [hnamed]; rfl) (by rw [hasked]; rfl) rfl rfl

end Tracks

/-- **A walk over arguments that leave the hosts alone** keeps every host that is kept. -/
theorem LeavesAlone.walk {hosts : OrderedDict Text Value} {highest : ℕ} {args : List Text}
    (halone : LeavesAlone env hosts highest args)
    (hwalk : args.foldlM (stepHost env) (Walk.start hosts highest) = .ok w') {h : Text}
    (hkept : Kept hosts args h) : w'.allHosts.get? h = hosts.get? h := by
  have htracks : ∀ before after w, args = before ++ after →
      before.foldlM (stepHost env) (Walk.start hosts highest) = .ok w →
        Tracks env hosts highest args before w := by
    intro before
    induction before using List.reverseRecOn with
    | nil =>
        intro after w _ hw
        cases hw
        exact ⟨fun _ _ => rfl, rfl, rfl, 0, Nat.zero_le _, fun _ => rfl, fun _ => rfl⟩
    | append_singleton before t ih =>
        intro after w hargs hw
        rw [List.append_assoc, List.singleton_append] at hargs
        obtain ⟨w₁, hbefore, hlast⟩ := foldlM_append_eq_ok_iff.mp hw
        obtain ⟨w₂, hstep, hend⟩ := foldlM_cons_eq_ok_iff.mp hlast
        cases hend
        exact (ih _ _ hargs hbefore).step halone hargs hstep
  exact (htracks args [] w' (List.append_nil args).symm hwalk).kept h hkept

/-- A host that no argument designates is kept. -/
theorem kept_of_designated {hosts : OrderedDict Text Value} {args : List Text} {h : Text}
    (hmem : h ∈ hosts.keys) {start : Except Abort Walk}
    (hno : designated env hosts start args h = false) : Kept hosts args h := by
  refine ⟨hmem, fun x hx => ?_⟩
  induction args generalizing start with
  | nil => cases hx
  | cons t ts ih =>
      rw [designated, Bool.or_eq_false_iff] at hno
      rcases List.mem_cons.mp hx with rfl | hx
      · simp only [designates, Bool.or_eq_false_iff, decide_eq_false_iff_not] at hno
        exact hno.1.1
      · exact ih hno.2 hx

/-- **One argument and one host**, which the argument does not designate for removal: the
host has what was assigned to it, or what it had. -/
theorem get?_stepHost {file : OrderedDict Text Value} {t h : Text}
    (hstep : stepHost env w t = .ok w') (hno : designates file (.ok w) h t = false) :
    w'.allHosts.get? h
      = ((lastAssigned (assigned env w t).toList h).map HostAssignment.opts).or
          (w.allHosts.get? h) := by
  by_cases hdash : t.head? = some '-'
  · obtain ⟨x, rfl⟩ := List.head?_eq_some_iff.mp hdash
    rw [assigned_dash]
    simp only [designates, Bool.or_eq_false_iff, decide_eq_false_iff_not] at hno
    rcases removeHost_spec (show removeHost w x = .ok w' from hstep) with
      heq | ⟨gone, hgone, heq⟩ <;> rw [heq]
    · rfl
    · have hne : h ≠ gone := by
        rintro rfl
        exact hgone.elim (fun heq => hno.1.1 heq.symm) hno.2
      rw [get?_erase_of_ne _ hne]
      rfl
  · rw [allHosts_stepHost hdash hstep]
    cases assigned env w t with
    | none => rfl
    | some a =>
        rw [Option.elim_some, HostAssignment.apply, get?_set, Option.toList_some, lastAssigned]
        by_cases heq : h = a.name
        · rw [if_pos heq, List.filter_cons_of_pos (by simpa using heq.symm)]
          rfl
        · rw [if_neg heq, List.filter_cons_of_neg (by simpa using fun h' => heq h'.symm)]
          rfl

/-- **A walk and one host**, which no argument designates for removal: the last assignment
to the host counts. -/
theorem get?_walk {file : OrderedDict Text Value} {args : List Text} {h : Text}
    (hwalk : args.foldlM (stepHost env) w = .ok w')
    (hno : designated env file (.ok w) args h = false) :
    w'.allHosts.get? h
      = ((lastAssigned (assignments env (.ok w) args) h).map HostAssignment.opts).or
          (w.allHosts.get? h) := by
  induction args generalizing w with
  | nil =>
      cases hwalk
      rfl
  | cons t ts ih =>
      obtain ⟨w₁, hstep, hwalk⟩ := foldlM_cons_eq_ok_iff.mp hwalk
      rw [designated, Bool.or_eq_false_iff] at hno
      have hrest : designated env file (stepHost env w t) ts h = false := hno.2
      rw [hstep] at hrest
      rw [ih hwalk hrest, get?_stepHost hstep hno.1, assignments_ok_cons, hstep,
        lastAssigned_append, Option.map_or, Option.or_assoc]

/-! ### Arguments that do not -/

/-- Arguments that add designate no host. -/
theorem designated_text {file : OrderedDict Text Value} (start : Except Abort Walk)
    (args : List (AddArgument env)) (h : Text) :
    designated env file start (args.map AddArgument.text) h = false := by
  induction args generalizing start with
  | nil => rfl
  | cons arg args ih =>
      have hno : designates file start h arg.text = false := by
        obtain ⟨c, rest, htext⟩ := List.exists_cons_of_ne_nil arg.text_ne_nil
        have hdash := arg.head?_text
        rw [htext] at hdash ⊢
        unfold designates
        split
        · rename_i x heq
          rw [heq] at hdash
          exact absurd rfl hdash
        · rfl
      rw [List.map_cons, designated, hno, ih]
      rfl

/-- **Every argument gives a name**: its own, or the next generated one. -/
theorem exists_name_of_mem {arg : AddArgument env} {args : List (AddArgument env)} (id : ℕ)
    (hmem : arg ∈ args) {hostname : Text} (hname : arg.hostname? = some hostname) :
    ∃ a ∈ assignmentsFrom id args, a.name = hostname := by
  induction args generalizing id with
  | nil => cases hmem
  | cons first args ih =>
      rcases List.mem_cons.mp hmem with rfl | hmem
      · exact ⟨_, List.mem_cons_self, by simp [AddArgument.assignment, AddArgument.nameAt, hname]⟩
      · obtain ⟨a, ha, heq⟩ := ih (first.nextId id) hmem
        exact ⟨a, List.mem_cons_of_mem _ ha, heq⟩

/-- **As many names are generated** as arguments give none. -/
theorem exists_generated {args : List (AddArgument env)} {id k : ℕ}
    (hk : k < args.countP fun arg => arg.hostname?.isNone) :
    ∃ a ∈ assignmentsFrom id args, a.name = generatedName env (id + k) := by
  induction args generalizing id k with
  | nil => cases hk
  | cons arg args ih =>
      cases hname : arg.hostname? with
      | some hostname =>
          rw [List.countP_cons_of_neg (by simp [hname])] at hk
          obtain ⟨a, ha, heq⟩ := ih hk
          refine ⟨a, List.mem_cons_of_mem _ ?_, heq⟩
          rwa [AddArgument.nextId, if_neg (by simp [hname])]
      | none =>
          cases k with
          | zero =>
              exact ⟨_, List.mem_cons_self, by simp [AddArgument.assignment, AddArgument.nameAt,
                hname]⟩
          | succ k =>
              rw [List.countP_cons_of_pos (by simp [hname])] at hk
              obtain ⟨a, ha, heq⟩ := @ih (id + 1) k (Nat.lt_of_succ_lt_succ hk)
              refine ⟨a, List.mem_cons_of_mem _ ?_, by rw [heq, Nat.add_right_comm]; rfl⟩
              rwa [AddArgument.nextId, if_pos hname]

/-- The hostname that an argument that adds brings into hand. -/
theorem namedBy_text (arg : AddArgument env) : namedBy env arg.text = arg.hostname? := by
  cases arg with
  | bare ip ne_nil dash comma => rw [AddArgument.text, namedBy, if_neg (by simp [comma])]; rfl
  | pair ip accessIp dash letter comma comma' =>
      rw [AddArgument.text, namedBy, (startsWith_comma ip accessIp).2, if_neg (by simp [letter])]
      rfl
  | explicit hostname ip accessIp letter comma comma' comma'' =>
      cases accessIp with
      | none =>
          rw [AddArgument.text, namedBy, (startsWith_comma hostname ip).2,
            if_pos ⟨letter, by simp⟩, List.splitOn_append_cons_self_of_not_mem comma]
          rfl
      | some accessIp =>
          rw [AddArgument.text, namedBy, (startsWith_comma hostname _).2,
            if_pos ⟨letter, by simp⟩, List.splitOn_append_cons_self_of_not_mem comma]
          rfl

/-- **Where no address is asked for twice**, arguments after which every host of the file has
what it had leave the hosts alone: a host that is given an address anew gets another one. -/
theorem leavesAlone_of_keeps (hreal : env.useRealHostname = false)
    {hosts : OrderedDict Text Value} {highest : ℕ} {adds : List (AddArgument env)}
    (hheard : Heard hosts highest adds) (honce : AsksOnce hosts adds)
    (hwalk : (adds.map AddArgument.text).foldlM (stepHost env) (Walk.start hosts highest)
      = .ok w')
    (hkeeps : ∀ h opts, hosts.get? h = some opts → w'.allHosts.get? h = some opts) :
    LeavesAlone env hosts highest (adds.map AddArgument.text) := by
  obtain ⟨hassigned, -⟩ := assignments_of_asksOnce hreal hheard honce hwalk
  have hfresh : ∀ a ∈ assignmentsFrom (highest + 1) adds, a.name ∉ hosts.keys := by
    intro a ha hkey
    obtain ⟨opts, hopts⟩ := mem_keys_iff.mp hkey
    have hno : designated env hosts (.ok (Walk.start hosts highest))
        (adds.map AddArgument.text) a.name = false := designated_text _ _ _
    have hend := hkeeps a.name opts hopts
    obtain ⟨c, hlast⟩ := exists_lastAssigned ha
    rw [get?_walk hwalk hno, hassigned, hlast] at hend
    obtain ⟨hc, hname⟩ := mem_of_lastAssigned hlast
    have hip : c.ip ∈ adds.map AddArgument.ip :=
      map_ip_assignmentsFrom (highest + 1) adds ▸ List.mem_map_of_mem hc
    obtain ⟨arg, harg, harg_ip⟩ := List.mem_map.mp hip
    refine honce.new arg harg ⟨a.name, ?_⟩
    obtain rfl : c.opts = opts := Option.some.inj hend
    rw [addressOf, hopts, harg_ip]
    rfl
  refine ⟨fun before t after hargs hletter _ h hhand hkept => ?_,
    fun k hk name hname hkept => ?_⟩
  · have hmem : t ∈ adds.map AddArgument.text := by simp [hargs]
    obtain ⟨arg, harg, rfl⟩ := List.mem_map.mp hmem
    have hdigit := (AddArgument.unpacked_of_not_misread hreal (hheard.read arg harg) w').2.1
    rw [startsWithDigit_of_letter hletter] at hdigit
    obtain ⟨hostname, hsome⟩ := Option.ne_none_iff_exists'.mp fun hnone =>
      Bool.false_ne_true (hdigit.mpr hnone)
    rw [hostnameInHand_concat, namedBy_text, hsome] at hhand
    obtain rfl : hostname = h := Option.some.inj hhand
    obtain ⟨a, ha, rfl⟩ := exists_name_of_mem (highest + 1) harg hsome
    exact absurd hkept.1 (hfresh a ha)
  · rw [chosen, if_neg (by simp [hreal])] at hname
    obtain rfl := Option.some.inj hname
    have hle : (adds.map AddArgument.text).countP
          (needsName env hosts (adds.map AddArgument.text))
        ≤ adds.countP fun arg => arg.hostname?.isNone := by
      rw [List.countP_map]
      refine List.countP_mono_left fun arg harg hneeds => ?_
      have hdigit := (AddArgument.unpacked_of_not_misread hreal (hheard.read arg harg) w').2.1
      rw [Option.isNone_iff_eq_none]
      have hleft := (Bool.and_eq_true_iff.mp hneeds).1
      exact hdigit.mp (Bool.and_eq_true_iff.mp hleft).1
    obtain ⟨a, ha, heq⟩ := @exists_generated _ _ (highest + 1) _ (hk.trans_le hle)
    exact hfresh a ha (heq ▸ hkept.1)

/-- A file with one host. -/
def oneNode : Config :=
  { hosts := .is (OrderedDict.empty.set "node1".toList
      (hostOpts "10.0.0.1".toList "10.0.0.1".toList))
    children := OrderedDict.empty }

end Kubespray.Inventory
