import Kubespray.Inventory.Hostnames

/-!
# What the Arguments Assign

An argument of `build_hostnames` that starts with a digit or a letter is unpacked into the
variables of the loop, and then one thing may happen: options are assigned to a hostname.
This module says when, and collects the assignments of a whole list of arguments. What the
loop loses or keeps is a question about these assignments.

## Main results

* `stepHost_eq`: the branches for addresses and for hostnames as one computation.
* `allHosts_stepHost`: what an argument that is no removal makes of the host map.
* `nextHostId_stepHost`: when the counter of generated names moves.
-/

namespace Kubespray.Inventory

open OrderedDict Fallible

/-- Options that the loop assigns to a hostname. -/
structure HostAssignment where
  name : Text
  ip : Text
  accessIp : Text
  deriving DecidableEq

variable (env : Env) (w : Walk) (t : Text)

/-- The argument starts with a digit. -/
def startsWithDigit : Bool :=
  t.head?.any env.chars.isdigit

/-- The argument starts with a letter. -/
def startsWithLetter : Bool :=
  t.head?.any env.chars.isalpha

/-- The argument is an address or a hostname to the loop. -/
def isRead : Bool :=
  startsWithDigit env t || startsWithLetter env t

/-- The variables of the loop once the argument is unpacked. -/
def unpacked : Except Abort Walk :=
  if startsWithDigit env t then do
    let (ip, accessIp) ← unpackAddress t
    return { w with ip := some ip, accessIp := some accessIp }
  else
    unpackHostname w t

/-- The hostname for the argument, in the variables that it was unpacked into. -/
def nameFor : Except Abort (Text × Walk) :=
  if startsWithDigit env t then nextHost env w
  else do return (← readLocal w.hostname, w)

/-- The name that the loop chooses for an address: an answer over `ssh`, or the next
generated name. -/
def nextGenerated : Option Text :=
  if env.useRealHostname then env.sshReply w.lookups else some (generatedName env w.nextHostId)

/-- The hostname in hand once the argument is unpacked. -/
def chosenName : Option Text :=
  if startsWithDigit env t then nextGenerated env w else w.hostname

/-- What the loop assigns on reading an argument: nothing when a host is called like the
argument, or has the address. -/
def assigned : Option HostAssignment :=
  if isRead env t ∧ existsHostname w.allHosts t = false then do
    let w₁ ← (unpacked env w t).toOption
    let ip ← w₁.ip
    let accessIp ← w₁.accessIp
    let name ← chosenName env w₁ t
    match existsIp w.allHosts ip with
    | .ok false => some ⟨name, ip, accessIp⟩
    | _ => none
  else
    none

/-- The options that are assigned. -/
def HostAssignment.opts (a : HostAssignment) : Value :=
  hostOpts a.accessIp a.ip

/-- The host map after an assignment. -/
def HostAssignment.apply (a : HostAssignment) (hosts : OrderedDict Text Value) :
    OrderedDict Text Value :=
  hosts.set a.name a.opts

/-- The assignments that the loop makes on some arguments, in order. -/
def assignments : Except Abort Walk → List Text → List HostAssignment
  | _, [] => []
  | w, t :: ts =>
    (match w with
      | .ok w => (assigned env w t).toList
      | .error _ => []) ++ assignments (w >>= fun w => stepHost env w t) ts

/-- The walk before the first argument. -/
def startWalk (cfg : Config) (loadPreviousConfig : Bool) : Except Abort Walk := do
  let (hosts, highest) ← existingHosts env cfg loadPreviousConfig
  return Walk.start hosts highest

variable {env w t} {w' : Walk}

/-! ### The branches as one -/

/-- A dash is no digit and no letter. -/
theorem isRead_dash (x : Text) : isRead env ('-' :: x) = false := by
  have hdigit : env.chars.isdigit '-' = false := env.chars.isdigit_ascii '-' (by decide)
  have halpha : env.chars.isalpha '-' = false := env.chars.isalpha_ascii '-' (by decide)
  simp [isRead, startsWithDigit, startsWithLetter, hdigit, halpha]

/-- Unpacking an argument touches neither the host map nor the counters. -/
theorem unpacked_keeps {w₁ : Walk} (h : unpacked env w t = .ok w₁) :
    w₁.allHosts = w.allHosts ∧ w₁.nextHostId = w.nextHostId ∧ w₁.lookups = w.lookups := by
  rw [unpacked] at h
  split_ifs at h with hdigit
  · obtain ⟨p, -, h⟩ := ok_of_bind h
    cases h
    exact ⟨rfl, rfl, rfl⟩
  · rw [unpackHostname] at h
    split_ifs at h
    · split at h <;> cases h <;> exact ⟨rfl, rfl, rfl⟩
    · cases h
      exact ⟨rfl, rfl, rfl⟩

/-- **An argument that is read**: it is unpacked, and unless a host is called like it or has
the address, the address gets a hostname and options. -/
theorem stepHost_eq (h : isRead env t = true) :
    stepHost env w t = (do
      let w₁ ← unpacked env w t
      if existsHostname w.allHosts t then return w₁
      else
        let ip ← readLocal w₁.ip
        if ← existsIp w.allHosts ip then return w₁
        else
          let accessIp ← readLocal w₁.accessIp
          let (name, w₂) ← nameFor env w₁ t
          return { w₂ with allHosts := w.allHosts.set name (hostOpts accessIp ip) }) := by
  cases t with
  | nil => cases h
  | cons c rest =>
      have hdash : c ≠ '-' := by
        rintro rfl
        rw [isRead_dash] at h
        cases h
      rw [stepHost, if_neg hdash]
      by_cases hdigit : env.chars.isdigit c = true
      · have hstart : startsWithDigit env (c :: rest) = true := hdigit
        rw [if_pos hdigit, addAddress, unpacked, if_pos hstart]
        cases hunpack : unpackAddress (c :: rest) with
        | error e => rfl
        | ok p =>
            obtain ⟨ip, accessIp⟩ := p
            have hip₁ : ({ w with ip := some ip, accessIp := some accessIp } : Walk).ip
                = some ip := rfl
            simp only [ok_bind, readLocal, nameFor, if_pos hstart]
            cases existsHostname w.allHosts (c :: rest) with
            | true => rfl
            | false =>
                cases hip : existsIp w.allHosts ip with
                | error e => simp [hip, bind, Except.bind, pure, Except.pure]
                | ok found =>
                    cases found with
                    | true => simp [hip, bind, Except.bind, pure, Except.pure]
                    | false =>
                        cases hnext : nextHost env
                            { w with ip := some ip, accessIp := some accessIp } with
                        | error e => simp [hip, hnext, bind, Except.bind, pure, Except.pure]
                        | ok p =>
                            obtain ⟨name, w₂⟩ := p
                            have hkeep := nextHost_allHosts hnext
                            simp [hip, hnext, hkeep, bind, Except.bind, pure, Except.pure]
      · have halpha : env.chars.isalpha c = true := by
          simpa [isRead, startsWithDigit, startsWithLetter, hdigit] using h
        have hstart : startsWithDigit env (c :: rest) = false := by
          simpa [startsWithDigit] using hdigit
        rw [if_neg hdigit, if_pos halpha, addHostname, unpacked, if_neg (by simp [hstart])]
        cases hunpack : unpackHostname w (c :: rest) with
        | error e => rfl
        | ok w₁ =>
            have hkeep := unpackHostname_allHosts hunpack
            simp only [ok_bind, hkeep, nameFor, hstart, Bool.false_eq_true, if_false]
            cases existsHostname w.allHosts (c :: rest) with
            | true => rfl
            | false =>
                cases hip : w₁.ip with
                | none => rfl
                | some ip =>
                    simp only [readLocal, ok_bind]
                    cases existsIp w.allHosts ip with
                    | error e => rfl
                    | ok found =>
                        cases found with
                        | true => rfl
                        | false =>
                            cases haccess : w₁.accessIp with
                            | none => rfl
                            | some accessIp =>
                                cases hname : w₁.hostname with
                                | none => rfl
                                | some hostname =>
                                    simp [hip, haccess, hname, bind, Except.bind, pure,
                                      Except.pure]

/-- The hostname that the loop goes on with. -/
theorem chosenName_of_nameFor {name : Text} (h : nameFor env w t = .ok (name, w')) :
    chosenName env w t = some name := by
  rw [nameFor] at h
  rw [chosenName]
  split_ifs at h ⊢ with hdigit
  · rw [nextGenerated]
    rcases nextHost_eq_ok h with ⟨hreal, hreply, -⟩ | ⟨hreal, rfl, -⟩
    · rw [if_pos hreal, hreply]
    · rw [if_neg (by simp [hreal])]
  · obtain ⟨hostname, hhostname, heq⟩ := ok_of_bind h
    cases heq
    exact readLocal_eq_ok hhostname

/-- Going on with a hostname leaves the address in hand. -/
theorem nameFor_ip {name : Text} (h : nameFor env w t = .ok (name, w')) : w'.ip = w.ip := by
  rw [nameFor] at h
  split_ifs at h
  · rcases nextHost_eq_ok h with ⟨-, -, rfl⟩ | ⟨-, -, rfl⟩ <;> rfl
  · obtain ⟨hostname, -, heq⟩ := ok_of_bind h
    cases heq
    rfl

/-! ### What is assigned -/

/-- **When an argument assigns**: it is read, no host is called like it, and the address in
hand is free. -/
theorem assigned_eq_some_iff {a : HostAssignment} :
    assigned env w t = some a ↔
      isRead env t = true ∧ existsHostname w.allHosts t = false ∧
        existsIp w.allHosts a.ip = .ok false ∧
        ∃ w₁, unpacked env w t = .ok w₁ ∧ w₁.ip = some a.ip ∧ w₁.accessIp = some a.accessIp ∧
          chosenName env w₁ t = some a.name := by
  rw [assigned]
  constructor
  · intro h
    split_ifs at h with hread
    obtain ⟨w₁, hunpack, h⟩ := Option.bind_eq_some_iff.mp h
    obtain ⟨ip, hip, h⟩ := Option.bind_eq_some_iff.mp h
    obtain ⟨accessIp, haccess, h⟩ := Option.bind_eq_some_iff.mp h
    obtain ⟨name, hname, h⟩ := Option.bind_eq_some_iff.mp h
    split at h
    · rename_i hfree
      cases h
      cases hres : unpacked env w t with
      | error e =>
          rw [hres] at hunpack
          cases hunpack
      | ok w₂ =>
          rw [hres] at hunpack
          cases hunpack
          exact ⟨hread.1, hread.2, hfree, w₁, rfl, hip, haccess, hname⟩
    · cases h
  · rintro ⟨hread, hex, hfree, w₁, hunpack, hip, haccess, hname⟩
    simp [hread, hex, hunpack, Except.toOption, hip, haccess, hfree, hname]

/-- A removal assigns nothing. -/
@[simp] theorem assigned_dash (x : Text) : assigned env w ('-' :: x) = none := by
  rw [assigned, if_neg]
  simp [isRead_dash]

/-- What is not read assigns nothing. -/
theorem assigned_of_not_isRead (h : isRead env t = false) : assigned env w t = none := by
  rw [assigned, if_neg]
  simp [h]

/-- The argument is skipped: a host is called like it, or has the address in hand. -/
def Skipped (env : Env) (w : Walk) (t : Text) : Prop :=
  existsHostname w.allHosts t = true ∨
    ∃ w₁ ip, unpacked env w t = .ok w₁ ∧ w₁.ip = some ip ∧ existsIp w.allHosts ip = .ok true

/-- An argument that is skipped assigns nothing. -/
theorem assigned_of_skipped (h : Skipped env w t) : assigned env w t = none := by
  by_contra hne
  obtain ⟨a, ha⟩ := Option.ne_none_iff_exists'.mp hne
  obtain ⟨-, hex, hfree, w₁, hunpack, hip, -⟩ := assigned_eq_some_iff.mp ha
  rcases h with hexists | ⟨w₂, ip, hunpack₂, hip₂, htaken⟩
  · rw [hexists] at hex
    cases hex
  · obtain rfl : w₁ = w₂ := Except.ok.inj (hunpack.symm.trans hunpack₂)
    obtain rfl : a.ip = ip := Option.some.inj (hip.symm.trans hip₂)
    rw [hfree] at htaken
    cases htaken

/-- **What a read argument does**, when it raises nothing: it is skipped and the loop keeps
the unpacked variables, or it assigns. -/
theorem stepHost_isRead_cases (hread : isRead env t = true) (h : stepHost env w t = .ok w') :
    ∃ w₁, unpacked env w t = .ok w₁ ∧
      ((Skipped env w t ∧ w' = w₁) ∨
        ∃ a w₂, assigned env w t = some a ∧ nameFor env w₁ t = .ok (a.name, w₂) ∧
          w' = { w₂ with allHosts := a.apply w.allHosts }) := by
  rw [stepHost_eq hread] at h
  obtain ⟨w₁, hunpack, h⟩ := ok_of_bind h
  refine ⟨w₁, hunpack, ?_⟩
  by_cases hex : existsHostname w.allHosts t = true
  · rw [if_pos hex] at h
    cases h
    exact Or.inl ⟨Or.inl hex, rfl⟩
  · rw [if_neg hex] at h
    obtain ⟨ip, hip, h⟩ := ok_of_bind h
    obtain ⟨found, hfound, h⟩ := ok_of_bind h
    have hip := readLocal_eq_ok hip
    cases found with
    | true =>
        cases h
        exact Or.inl ⟨Or.inr ⟨_, ip, hunpack, hip, hfound⟩, rfl⟩
    | false =>
        obtain ⟨accessIp, haccess, h⟩ := ok_of_bind h
        obtain ⟨⟨name, w₂⟩, hname, h⟩ := ok_of_bind h
        cases h
        refine Or.inr ⟨⟨name, ip, accessIp⟩, w₂, ?_, hname, rfl⟩
        exact assigned_eq_some_iff.mpr ⟨hread, by simpa using hex, hfound, w₁, hunpack, hip,
          readLocal_eq_ok haccess, chosenName_of_nameFor hname⟩

/-- A chosen hostname is one that the loop goes on with. -/
theorem nameFor_of_chosenName {name : Text} (h : chosenName env w t = some name) :
    ∃ w₁, nameFor env w t = .ok (name, w₁) := by
  rw [chosenName] at h
  rw [nameFor]
  split_ifs at h ⊢ with hdigit
  · rw [nextGenerated] at h
    rw [nextHost]
    split_ifs at h ⊢ with hreal
    · rw [h]
      exact ⟨_, rfl⟩
    · cases h
      exact ⟨_, rfl⟩
  · rw [h]
    exact ⟨w, rfl⟩

/-- **An argument that assigns raises nothing.** -/
theorem stepHost_of_assigned {a : HostAssignment} (h : assigned env w t = some a) :
    ∃ w', stepHost env w t = .ok w' ∧ w'.allHosts = a.apply w.allHosts := by
  obtain ⟨hread, hex, hfree, w₁, hunpack, hip, haccess, hname⟩ := assigned_eq_some_iff.mp h
  obtain ⟨w₂, hname⟩ := nameFor_of_chosenName hname
  refine ⟨{ w₂ with allHosts := a.apply w.allHosts }, ?_, rfl⟩
  rw [stepHost_eq hread, hunpack, ok_bind, if_neg (by simp [hex]), hip, haccess]
  simp only [readLocal, ok_bind, hfree, Bool.false_eq_true, if_false, hname]
  rfl

/-- What is neither read nor a removal is passed over. -/
theorem stepHost_of_not_isRead (hread : isRead env t = false) (hdash : t.head? ≠ some '-')
    (h : stepHost env w t = .ok w') : w' = w := by
  cases t with
  | nil => cases h
  | cons c rest =>
      have hneither : env.chars.isdigit c = false ∧ env.chars.isalpha c = false := by
        simpa [isRead, startsWithDigit, startsWithLetter] using hread
      have hc : c ≠ '-' := fun heq => hdash (by rw [heq, List.head?_cons])
      rw [stepHost, if_neg hc, if_neg (by simp [hneither.1]), if_neg (by simp [hneither.2])] at h
      cases h
      rfl

/-- **The host map after an argument that is no removal**: the one before, with what the
argument assigns. -/
theorem allHosts_stepHost (hdash : t.head? ≠ some '-') (h : stepHost env w t = .ok w') :
    w'.allHosts = (assigned env w t).elim w.allHosts fun a => a.apply w.allHosts := by
  cases hread : isRead env t with
  | false =>
      rw [stepHost_of_not_isRead hread hdash h, assigned_of_not_isRead hread]
      rfl
  | true =>
      obtain ⟨w₁, hunpack, ⟨hskip, rfl⟩ | ⟨a, w₂, ha, -, rfl⟩⟩ := stepHost_isRead_cases hread h
      · rw [assigned_of_skipped hskip]
        exact (unpacked_keeps hunpack).1
      · rw [ha]
        rfl

/-- A removal changes the host map and nothing else. -/
theorem removeHost_keeps {x : Text} (h : removeHost w x = .ok w') :
    w' = { w with allHosts := w'.allHosts } := by
  rw [removeHost] at h
  split_ifs at h
  · cases h
    rfl
  · obtain ⟨found, -, h⟩ := ok_of_bind h
    cases found with
    | true =>
        obtain ⟨hosts, -, h⟩ := ok_of_bind h
        cases h
        rfl
    | false =>
        cases h
        rfl

/-- **The counter of generated names** moves when an address is assigned, unless names are
asked for. -/
theorem nextHostId_stepHost (hreal : env.useRealHostname = false)
    (h : stepHost env w t = .ok w') :
    w'.nextHostId =
      if startsWithDigit env t ∧ (assigned env w t).isSome then w.nextHostId + 1
      else w.nextHostId := by
  by_cases hdash : t.head? = some '-'
  · obtain ⟨x, rfl⟩ := List.head?_eq_some_iff.mp hdash
    rw [removeHost_keeps (show removeHost w x = .ok w' from h), assigned_dash, if_neg (by simp)]
  · cases hread : isRead env t with
    | false =>
        rw [stepHost_of_not_isRead hread hdash h, assigned_of_not_isRead hread, if_neg (by simp)]
    | true =>
        obtain ⟨w₁, hunpack, ⟨hskip, rfl⟩ | ⟨a, w₂, ha, hname, rfl⟩⟩ :=
          stepHost_isRead_cases hread h
        · rw [assigned_of_skipped hskip, if_neg (by simp)]
          exact (unpacked_keeps hunpack).2.1
        · rw [ha, ← (unpacked_keeps hunpack).2.1]
          rw [nameFor] at hname
          split_ifs at hname with hdigit
          · rcases nextHost_eq_ok hname with ⟨hlookup, -⟩ | ⟨-, -, rfl⟩
            · rw [hlookup] at hreal
              cases hreal
            · simp [hdigit]
          · obtain ⟨hostname, _, heq⟩ := ok_of_bind hname
            cases heq
            simp [hdigit]

/-! ### The assignments of a walk -/

/-- The assignments of a walk that goes on. -/
@[simp] theorem assignments_ok_cons (ts : List Text) :
    assignments env (.ok w) (t :: ts)
      = (assigned env w t).toList ++ assignments env (stepHost env w t) ts := rfl

/-- A walk that was aborted assigns nothing. -/
@[simp] theorem assignments_error (e : Abort) (ts : List Text) :
    assignments env (.error e) ts = [] := by
  induction ts with
  | nil => rfl
  | cons t ts ih => exact ih

/-- The walk starts from the hosts that are loaded. -/
theorem startWalk_of_existingHosts {cfg : Config} {load : Bool}
    {hosts : OrderedDict Text Value} {highest : ℕ}
    (hload : existingHosts env cfg load = .ok (hosts, highest)) :
    startWalk env cfg load = .ok (Walk.start hosts highest) := by
  rw [startWalk, hload]
  rfl

/-- What a host map and the arguments make a walk over. -/
theorem buildHostnames_eq_ok_iff {cfg : Config} {args : List Text} {load : Bool}
    {hosts : OrderedDict Text Value} :
    buildHostnames env cfg args load = .ok hosts ↔
      ∃ w w', startWalk env cfg load = .ok w ∧ args.foldlM (stepHost env) w = .ok w' ∧
        w'.allHosts = hosts := by
  constructor
  · intro h
    obtain ⟨⟨start, highest⟩, hstart, h⟩ := ok_of_bind h
    obtain ⟨w', hwalk, h⟩ := ok_of_bind h
    cases h
    exact ⟨_, w', startWalk_of_existingHosts hstart, hwalk, rfl⟩
  · rintro ⟨w, w', hstart, hwalk, rfl⟩
    obtain ⟨⟨start, highest⟩, hload, h⟩ := ok_of_bind hstart
    cases h
    rw [buildHostnames, hload, ok_bind]
    dsimp only
    rw [hwalk]
    rfl

/-- The walk after the first arguments. -/
def walkOver (env : Env) (cfg : Config) (loadPreviousConfig : Bool) (args : List Text) :
    Except Abort Walk := do
  let w ← startWalk env cfg loadPreviousConfig
  args.foldlM (stepHost env) w

/-- An argument that raises ends the run. -/
theorem buildHostnames_of_error {cfg : Config} {pre post : List Text} {load : Bool} {e : Abort}
    (hwalk : walkOver env cfg load pre = .ok w) (h : stepHost env w t = .error e) :
    buildHostnames env cfg (pre ++ t :: post) load = .error e := by
  obtain ⟨w₀, hstart, hpre⟩ := ok_of_bind hwalk
  obtain ⟨⟨start, highest⟩, hload, hw⟩ := ok_of_bind hstart
  cases hw
  rw [buildHostnames, hload, ok_bind]
  dsimp only
  rw [List.foldlM_append, hpre, ok_bind, List.foldlM_cons, h]
  rfl

/-- The last of some assignments to a hostname. -/
def lastAssigned (as : List HostAssignment) (h : Text) : Option HostAssignment :=
  (as.filter fun a => a.name = h).getLast?

/-- Later assignments come first. -/
theorem lastAssigned_append (as bs : List HostAssignment) (h : Text) :
    lastAssigned (as ++ bs) h = (lastAssigned bs h).or (lastAssigned as h) := by
  rw [lastAssigned, List.filter_append, List.getLast?_append]
  rfl

/-- One assignment, and a hostname. -/
theorem lastAssigned_singleton (a : HostAssignment) (h : Text) :
    lastAssigned [a] h = if a.name = h then some a else none := by
  rw [lastAssigned]
  split_ifs with hname
  · rw [List.filter_cons_of_pos (by simpa using hname)]
    rfl
  · rw [List.filter_cons_of_neg (by simpa using hname)]
    rfl

/-- The last assignment to a hostname is one of them. -/
theorem mem_of_lastAssigned {as : List HostAssignment} {h : Text} {a : HostAssignment}
    (hlast : lastAssigned as h = some a) : a ∈ as ∧ a.name = h := by
  simpa using List.mem_of_getLast? hlast

/-- A hostname that is assigned is assigned last once. -/
theorem exists_lastAssigned {as : List HostAssignment} {a : HostAssignment} (ha : a ∈ as) :
    ∃ b, lastAssigned as a.name = some b := by
  refine Option.isSome_iff_exists.mp (List.getLast?_isSome.mpr ?_)
  exact List.ne_nil_of_mem (List.mem_filter.mpr ⟨ha, by simp⟩)

/-- **Where a host comes from**: it was there before the walk, or the walk assigned it. -/
theorem mem_keys_of_walk {args : List Text} {h : Text}
    (hwalk : args.foldlM (stepHost env) w = .ok w') (hmem : h ∈ w'.allHosts.keys) :
    h ∈ w.allHosts.keys ∨ ∃ a ∈ assignments env (.ok w) args, a.name = h := by
  induction args generalizing w with
  | nil =>
      cases hwalk
      exact Or.inl hmem
  | cons t ts ih =>
      obtain ⟨w₁, hstep, hwalk⟩ := foldlM_cons_eq_ok_iff.mp hwalk
      rw [assignments_ok_cons, hstep]
      rcases ih hwalk with hkey | ⟨a, ha, hname⟩
      · by_cases hdash : t.head? = some '-'
        · obtain ⟨x, rfl⟩ := List.head?_eq_some_iff.mp hdash
          left
          rcases removeHost_spec (show removeHost w x = .ok w₁ from hstep) with
            heq | ⟨gone, -, heq⟩
          · rwa [heq] at hkey
          · rw [heq, keys_erase] at hkey
            exact (List.mem_filter.mp hkey).1
        · rw [allHosts_stepHost hdash hstep] at hkey
          cases ha : assigned env w t with
          | none =>
              rw [ha] at hkey
              exact Or.inl hkey
          | some a =>
              rw [ha] at hkey
              have hkey : h ∈ addKey w.allHosts.keys a.name := by
                rw [← keys_set]
                exact hkey
              exact (mem_addKey.mp hkey).imp_right fun heq => ⟨a, by simp, heq.symm⟩
      · exact Or.inr ⟨a, List.mem_append_right _ ha, hname⟩

end Kubespray.Inventory
