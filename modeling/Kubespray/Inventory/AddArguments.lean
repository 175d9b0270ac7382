import Kubespray.Inventory.Assigned
import Kubespray.Inventory.Uniqueness
import Kubespray.Library.Firsts

/-!
# Arguments That Add

The arguments of `build_hostnames` that ask for an address, as they may be written, and what
the loop does with one of them when real hostnames are not looked up. Most of this module is
about arguments that are read and whose text is the name of no host. Such an argument is
passed over when its address is held, and otherwise assigns its address to the hostname that
it gives, or to the next generated name. So the names that are assigned can be told from the
arguments alone, as long as their addresses are new.

## Main results

* `AddArgument.step_free`, `AddArgument.step_held`: what one argument does.
* `assignments_of_asksOnce`: what a list of arguments with new addresses assigns.
-/

namespace Kubespray.Inventory

open OrderedDict Fallible Firsts

variable {env : Env} {w w' : Walk}

/-! ### Arguments that add -/

/-- An argument that asks for an address: an address alone, an address with an access
address, or a hostname with one or two addresses. What starts with a letter and has a comma
is the third kind, and what starts with a dash is a removal. -/
inductive AddArgument (env : Env)
  | bare (ip : Text) (ne_nil : ip ≠ []) (dash : ip.head? ≠ some '-') (comma : ',' ∉ ip)
  | pair (ip accessIp : Text) (dash : ip.head? ≠ some '-')
      (letter : startsWithLetter env ip = false) (comma : ',' ∉ ip) (comma' : ',' ∉ accessIp)
  | explicit (hostname ip : Text) (accessIp : Option Text)
      (letter : startsWithLetter env hostname = true) (comma : ',' ∉ hostname)
      (comma' : ',' ∉ ip) (comma'' : ∀ t ∈ accessIp, ',' ∉ t)

namespace AddArgument

/-- The argument as it is written. -/
def text : AddArgument env → Text
  | bare ip _ _ _ => ip
  | pair ip accessIp _ _ _ _ => ip ++ ',' :: accessIp
  | explicit hostname ip none _ _ _ _ => hostname ++ ',' :: ip
  | explicit hostname ip (some accessIp) _ _ _ _ => hostname ++ ',' :: (ip ++ ',' :: accessIp)

/-- The address that the argument asks for. -/
def ip : AddArgument env → Text
  | bare ip _ _ _ => ip
  | pair ip _ _ _ _ _ => ip
  | explicit _ ip _ _ _ _ _ => ip

/-- The address for access, which is the same one unless another is given. -/
def accessIp : AddArgument env → Text
  | bare ip _ _ _ => ip
  | pair _ accessIp _ _ _ _ => accessIp
  | explicit _ ip accessIp _ _ _ _ => accessIp.getD ip

/-- The hostname that the argument gives. -/
def hostname? : AddArgument env → Option Text
  | explicit hostname _ _ _ _ _ _ => some hostname
  | bare .. | pair .. => none

/-- The hostname that its address is assigned to, when `id` is the next number. -/
def nameAt (id : ℕ) (arg : AddArgument env) : Text :=
  arg.hostname?.getD (generatedName env id)

/-- The next number after it has been assigned. -/
def nextId (id : ℕ) (arg : AddArgument env) : ℕ :=
  if arg.hostname? = none then id + 1 else id

/-- What it assigns, when `id` is the next number. -/
def assignment (id : ℕ) (arg : AddArgument env) : HostAssignment :=
  ⟨arg.nameAt id, arg.ip, arg.accessIp⟩

/-- The loop does not look for an address in the argument: it is no `hostname,ip` and starts
with no digit. -/
def Misread (arg : AddArgument env) : Prop :=
  match arg with
  | explicit .. => False
  | _ => startsWithDigit env arg.text = false

end AddArgument

/-- What follows a comma does not matter for how a text starts. -/
theorem startsWith_comma (t rest : Text) :
    startsWithDigit env (t ++ ',' :: rest) = startsWithDigit env t ∧
      startsWithLetter env (t ++ ',' :: rest) = startsWithLetter env t := by
  cases t with
  | nil =>
      exact ⟨env.chars.isdigit_ascii ',' (by decide), env.chars.isalpha_ascii ',' (by decide)⟩
  | cons c t => exact ⟨rfl, rfl⟩

/-- What starts with a letter starts with no digit. -/
theorem startsWithDigit_of_letter {t : Text} (h : startsWithLetter env t = true) :
    startsWithDigit env t = false := by
  cases t with
  | nil => rfl
  | cons c t => exact env.chars.isalpha_not_isdigit c h

namespace AddArgument

/-- An argument that adds is no removal. -/
theorem head?_text (arg : AddArgument env) : arg.text.head? ≠ some '-' := by
  have hcomma : ∀ t rest : Text, t.head? ≠ some '-' → (t ++ ',' :: rest).head? ≠ some '-' := by
    intro t rest h
    cases t with
    | nil => exact fun heq => absurd heq (by simp)
    | cons c t => exact h
  have hletter : ∀ t : Text, startsWithLetter env t = true → t.head? ≠ some '-' := by
    intro t h hhead
    obtain ⟨x, rfl⟩ := List.head?_eq_some_iff.mp hhead
    have hdash := @isRead_dash env x
    rw [isRead, h, Bool.or_true] at hdash
    cases hdash
  cases arg with
  | bare ip ne_nil dash comma => exact dash
  | pair ip accessIp dash letter comma comma' => exact hcomma ip accessIp dash
  | explicit hostname ip accessIp letter comma comma' comma'' =>
      cases accessIp <;> exact hcomma hostname _ (hletter hostname letter)

/-- An argument that adds is not empty. -/
theorem text_ne_nil (arg : AddArgument env) : arg.text ≠ [] := by
  cases arg with
  | bare ip ne_nil dash comma => exact ne_nil
  | pair ip accessIp dash letter comma comma' => simp [text]
  | explicit hostname ip accessIp letter comma comma' comma'' => cases accessIp <;> simp [text]

/-- An argument without an address for the loop is unpacked into nothing. -/
theorem unpacked_of_misread {arg : AddArgument env} (h : arg.Misread)
    (hread : isRead env arg.text = true) : unpacked env w arg.text = .ok w := by
  cases arg with
  | bare ip ne_nil dash comma =>
      have hdigit : startsWithDigit env ip = false := h
      rw [text, unpacked, if_neg (by simp [hdigit]), unpackHostname, if_neg comma]
  | pair ip accessIp dash letter comma comma' =>
      have hdigit : startsWithDigit env (ip ++ ',' :: accessIp) = false := h
      rw [isRead, text, hdigit, (startsWith_comma ip accessIp).2, letter] at hread
      cases hread
  | explicit hostname ip accessIp letter comma comma' comma'' => exact h.elim

/-- **Any other argument is unpacked into its addresses**, and goes on with the hostname that
it gives or with the next generated name. -/
theorem unpacked_of_not_misread (hreal : env.useRealHostname = false) {arg : AddArgument env}
    (h : ¬ arg.Misread) (w : Walk) :
    isRead env arg.text = true ∧
      (startsWithDigit env arg.text = true ↔ arg.hostname? = none) ∧
      ∃ w₁, unpacked env w arg.text = .ok w₁ ∧ w₁.ip = some arg.ip ∧
        w₁.accessIp = some arg.accessIp ∧
        chosenName env w₁ arg.text = some (arg.nameAt w.nextHostId) := by
  have hdigitFirst : ∀ {t : Text} {w₁ : Walk}, startsWithDigit env t = true →
      isRead env t = true ∧
        chosenName env w₁ t = some (generatedName env w₁.nextHostId) := by
    intro t w₁ ht
    refine ⟨by rw [isRead, ht, Bool.true_or], ?_⟩
    rw [chosenName, if_pos ht, nextGenerated, if_neg (by simp [hreal])]
  have hletterFirst : ∀ {t : Text}, startsWithLetter env t = true →
      isRead env t = true ∧ startsWithDigit env t = false ∧
        unpacked env w t = unpackHostname w t ∧ ∀ w₁, chosenName env w₁ t = w₁.hostname := by
    intro t ht
    have hdigit := startsWithDigit_of_letter ht
    refine ⟨by rw [isRead, ht, Bool.or_true], hdigit, ?_, fun w₁ => ?_⟩
    · rw [unpacked, if_neg (by simp [hdigit])]
    · rw [chosenName, if_neg (by simp [hdigit])]
  cases arg with
  | bare ip ne_nil dash comma =>
      have hdigit : startsWithDigit env ip = true := by simpa [Misread, text] using h
      refine ⟨(@hdigitFirst ip w hdigit).1, iff_of_true hdigit rfl,
        { w with ip := some ip, accessIp := some ip }, ?_, rfl, rfl, (hdigitFirst hdigit).2⟩
      rw [text, unpacked, if_pos hdigit, unpackAddress, if_neg comma]
      rfl
  | pair ip accessIp dash letter comma comma' =>
      have hdigit : startsWithDigit env (ip ++ ',' :: accessIp) = true := by
        simpa [Misread, text] using h
      refine ⟨(@hdigitFirst _ w hdigit).1, iff_of_true hdigit rfl,
        { w with ip := some ip, accessIp := some accessIp }, ?_, rfl, rfl,
        (hdigitFirst hdigit).2⟩
      rw [text, unpacked, if_pos hdigit, unpackAddress, if_pos (by simp),
        List.splitOn_append_cons_self_of_not_mem comma, List.splitOn_eq_singleton comma']
      rfl
  | explicit hostname ip accessIp letter comma comma' comma'' =>
      have hne : ¬ (some hostname : Option Text) = none := by simp
      cases accessIp with
      | none =>
          obtain ⟨hread, hdigit, hunpack, hname⟩ := @hletterFirst (hostname ++ ',' :: ip) (by
            rw [(startsWith_comma hostname ip).2, letter])
          refine ⟨hread, iff_of_false (by simp [text, hdigit]) hne, { w with
            hostname := some hostname, ip := some ip, accessIp := some ip }, ?_, rfl, rfl,
            hname _⟩
          rw [text, hunpack, unpackHostname, if_pos (by simp),
            List.splitOn_append_cons_self_of_not_mem comma, List.splitOn_eq_singleton comma']
      | some accessIp =>
          obtain ⟨hread, hdigit, hunpack, hname⟩ :=
            @hletterFirst (hostname ++ ',' :: (ip ++ ',' :: accessIp)) (by
              rw [(startsWith_comma hostname _).2, letter])
          refine ⟨hread, iff_of_false (by simp [text, hdigit]) hne, { w with
            hostname := some hostname, ip := some ip, accessIp := some accessIp }, ?_, rfl, rfl,
            hname _⟩
          rw [text, hunpack, unpackHostname, if_pos (by simp),
            List.splitOn_append_cons_self_of_not_mem comma,
            List.splitOn_append_cons_self_of_not_mem comma',
            List.splitOn_eq_singleton (comma'' accessIp rfl)]

/-- **No argument that adds fails to be unpacked**, and only one that is read puts another
address into the hand of the loop. -/
theorem exists_unpacked (hreal : env.useRealHostname = false) (arg : AddArgument env) (w : Walk)
    (hread : isRead env arg.text = true) :
    ∃ w₁, unpacked env w arg.text = .ok w₁ ∧
      ((¬ arg.Misread ∧ w₁.ip = some arg.ip) ∨ (arg.Misread ∧ w₁.ip = w.ip)) := by
  by_cases h : arg.Misread
  · exact ⟨w, unpacked_of_misread h hread, Or.inr ⟨h, rfl⟩⟩
  · obtain ⟨-, -, w₁, hunpack, hip, -⟩ := unpacked_of_not_misread hreal h w
    exact ⟨w₁, hunpack, Or.inl ⟨h, hip⟩⟩

end AddArgument

/-! ### The addresses of a host map -/

/-- Some host has the address. -/
def Held (hosts : OrderedDict Text Value) (v : Value) : Prop :=
  ∃ h, addressOf hosts h = some v

/-- Some host has the address, which is a text. -/
def hasAddress (hosts : OrderedDict Text Value) (ip : Text) : Bool :=
  hosts.keys.any fun h => (addressOf hosts h).any (Value.isStr ip)

/-- The options of every host have an address. -/
def Readable (hosts : OrderedDict Text Value) : Prop :=
  ∀ h ∈ hosts.keys, ∃ v, addressOf hosts h = some v

/-- A value is a text that it is compared with. -/
theorem isStr_iff {ip : Text} {v : Value} : v.isStr ip = true ↔ v = .str ip := by
  cases v with
  | str t => simp [Value.isStr]
  | null | bool | num | arr | obj => simp [Value.isStr]

/-- A host with an address is in the map. -/
theorem mem_keys_of_addressOf {hosts : OrderedDict Text Value} {h : Text} {v : Value}
    (hv : addressOf hosts h = some v) : h ∈ hosts.keys := by
  by_contra hno
  rw [addressOf, get?_eq_none_iff.mpr hno] at hv
  cases hv

/-- The test for an address. -/
theorem hasAddress_iff {hosts : OrderedDict Text Value} {ip : Text} :
    hasAddress hosts ip = true ↔ Held hosts (.str ip) := by
  rw [hasAddress, List.any_eq_true, Held]
  constructor
  · rintro ⟨h, -, hany⟩
    obtain ⟨v, hv, hstr⟩ := (Option.any_eq_true _ _).mp hany
    exact ⟨h, by rw [hv, isStr_iff.mp hstr]⟩
  · rintro ⟨h, hv⟩
    exact ⟨h, mem_keys_of_addressOf hv, by simp [hv, Value.isStr]⟩

/-- A free address: every host was looked at. -/
theorem readable_of_existsIp {hosts : OrderedDict Text Value} {ip : Text}
    (h : existsIp hosts ip = .ok false) : Readable hosts := by
  obtain ⟨found, hfind, hfound⟩ := ok_of_bind h
  cases found with
  | some host => cases hfound
  | none =>
      intro k hk
      obtain ⟨opts, hopts⟩ := mem_keys_iff.mp hk
      obtain ⟨v, hget, -⟩ := findByIp_none hfind (mem_entries_of_get? hopts)
      exact ⟨v, by rw [addressOf, hopts]; exact congrArg Except.toOption hget⟩

/-- An address that is not free is held. -/
theorem held_of_existsIp {hosts : OrderedDict Text Value} {ip : Text}
    (h : existsIp hosts ip = .ok true) : Held hosts (.str ip) := by
  obtain ⟨found, hfind, hfound⟩ := ok_of_bind h
  cases found with
  | none => cases hfound
  | some host =>
      obtain ⟨opts, hmem, hget⟩ := findByIp_some hfind
      refine ⟨host, ?_⟩
      rw [addressOf, get?_of_mem_entries hmem]
      exact congrArg Except.toOption hget

/-- A search over hosts that can all be read ends. -/
theorem exists_existsIp {hosts : OrderedDict Text Value} (h : Readable hosts) (ip : Text) :
    ∃ b, existsIp hosts ip = .ok b := by
  have hsearch : ∀ entries : List (Text × Value),
      (∀ e ∈ entries, ∃ v, getIpFromOpts e.2 = .ok v) → ∃ r, findByIp ip entries = .ok r := by
    intro entries
    induction entries with
    | nil => exact fun _ => ⟨none, rfl⟩
    | cons e entries ih =>
        intro hread
        obtain ⟨⟨v, hv⟩, hrest⟩ := List.forall_mem_cons.mp hread
        obtain ⟨r, hr⟩ := ih hrest
        rw [findByIp, hv, ok_bind]
        split_ifs
        · exact ⟨_, rfl⟩
        · exact ⟨r, hr⟩
  obtain ⟨r, hr⟩ := hsearch hosts.entries fun e he => by
    obtain ⟨v, hv⟩ := h e.1 (mem_keys_of_mem_entries he)
    rw [addressOf, get?_of_mem_entries he] at hv
    dsimp only at hv
    cases hget : getIpFromOpts e.2 with
    | ok v => exact ⟨v, rfl⟩
    | error err =>
        rw [hget] at hv
        cases hv
  exact ⟨r.isSome, by rw [existsIp, hr]; rfl⟩

/-- **The search for an address** over hosts that can all be read. -/
theorem existsIp_of_readable {hosts : OrderedDict Text Value} (h : Readable hosts) (ip : Text) :
    existsIp hosts ip = .ok (hasAddress hosts ip) := by
  obtain ⟨b, hb⟩ := exists_existsIp h ip
  cases b with
  | true => rw [hb, hasAddress_iff.mpr (held_of_existsIp hb)]
  | false =>
      have hfree : hasAddress hosts ip = false := by
        rw [Bool.eq_false_iff, ne_eq, hasAddress_iff]
        rintro ⟨k, hk⟩
        exact addressOf_ne_of_existsIp hb k hk
      rw [hb, hfree]

/-! ### One argument -/

namespace AddArgument

variable (hreal : env.useRealHostname = false) {arg : AddArgument env} (hread : ¬ arg.Misread)
  (hcalled : arg.text ∉ w.allHosts.keys)
include hreal hread hcalled

/-- **An argument whose address is free** assigns it to its hostname. -/
theorem step_free (hfree : existsIp w.allHosts arg.ip = .ok false) :
    assigned env w arg.text = some (arg.assignment w.nextHostId) ∧
      ∃ w', stepHost env w arg.text = .ok w' ∧
        w'.allHosts = (arg.assignment w.nextHostId).apply w.allHosts ∧
        w'.nextHostId = arg.nextId w.nextHostId := by
  obtain ⟨hisRead, hdigit, w₁, hunpack, hip, haccess, hname⟩ :=
    unpacked_of_not_misread hreal hread w
  have hassigned : assigned env w arg.text = some (arg.assignment w.nextHostId) :=
    assigned_eq_some_iff.mpr ⟨hisRead, by simpa [existsHostname] using hcalled, hfree, w₁,
      hunpack, hip, haccess, hname⟩
  obtain ⟨w', hstep, hhosts⟩ := stepHost_of_assigned hassigned
  refine ⟨hassigned, w', hstep, hhosts, ?_⟩
  rw [nextHostId_stepHost hreal hstep, hassigned, nextId]
  simp only [hdigit, Option.isSome_some, and_true]

/-- **An argument whose address is held** is passed over. -/
theorem step_held (hheld : existsIp w.allHosts arg.ip = .ok true) :
    assigned env w arg.text = none ∧
      ∃ w', stepHost env w arg.text = .ok w' ∧ w'.allHosts = w.allHosts ∧
        w'.nextHostId = w.nextHostId := by
  obtain ⟨hisRead, -, w₁, hunpack, hip, -⟩ := unpacked_of_not_misread hreal hread w
  have hnone : assigned env w arg.text = none :=
    assigned_of_skipped (Or.inr ⟨w₁, _, hunpack, hip, hheld⟩)
  have hstep : stepHost env w arg.text = .ok w₁ := by
    rw [stepHost_eq hisRead, hunpack, ok_bind, if_neg (by simpa [existsHostname] using hcalled),
      hip]
    simp only [readLocal, ok_bind, hheld, if_true]
    rfl
  exact ⟨hnone, w₁, hstep, (unpacked_keeps hunpack).1, (unpacked_keeps hunpack).2.1⟩

/-- An argument that raises nothing and whose address is not held has looked at every host. -/
theorem free_of_step (hstep : stepHost env w arg.text = .ok w')
    (hnot : ¬ Held w.allHosts (.str arg.ip)) : existsIp w.allHosts arg.ip = .ok false := by
  obtain ⟨hisRead, -, w₁, hunpack, hip, -⟩ := unpacked_of_not_misread hreal hread w
  obtain ⟨-, -, ⟨hskip, -⟩ | ⟨a, -, ha, -⟩⟩ := stepHost_isRead_cases hisRead hstep
  · rcases hskip with hex | ⟨w₂, ip, hunpack₂, hip₂, htaken⟩
    · exact absurd (by simpa [existsHostname] using hex) hcalled
    · obtain rfl : w₁ = w₂ := Except.ok.inj (hunpack.symm.trans hunpack₂)
      obtain rfl : arg.ip = ip := Option.some.inj (hip.symm.trans hip₂)
      exact absurd (held_of_existsIp htaken) hnot
  · obtain ⟨-, -, hfree, w₂, hunpack₂, hip₂, -⟩ := assigned_eq_some_iff.mp ha
    obtain rfl : w₁ = w₂ := Except.ok.inj (hunpack.symm.trans hunpack₂)
    rwa [Option.some.inj (hip.symm.trans hip₂)]

end AddArgument

/-- **The address of a host after an argument that adds.** -/
theorem addressOf_stepHost {arg : AddArgument env} (hstep : stepHost env w arg.text = .ok w')
    (h : Text) :
    addressOf w'.allHosts h =
      ((assigned env w arg.text).filter fun a => a.name = h).elim (addressOf w.allHosts h)
        fun a => some (.str a.ip) := by
  rw [allHosts_stepHost arg.head?_text hstep]
  cases assigned env w arg.text with
  | none => rfl
  | some a =>
      rw [Option.elim_some, HostAssignment.apply, Option.filter_some]
      by_cases hname : a.name = h
      · subst hname
        rw [HostAssignment.opts, addressOf_set_self]
        simp
      · rw [addressOf_set_of_ne _ _ (Ne.symm hname)]
        simp [hname]

/-- **Where an address comes from**: it was held before, or the argument assigns it. -/
theorem held_stepHost {arg : AddArgument env} {v : Value}
    (hstep : stepHost env w arg.text = .ok w') (hv : Held w'.allHosts v) :
    Held w.allHosts v ∨ ∃ a, assigned env w arg.text = some a ∧ v = .str a.ip := by
  obtain ⟨h, hv⟩ := hv
  rw [addressOf_stepHost hstep] at hv
  cases ha : assigned env w arg.text with
  | none =>
      rw [ha] at hv
      exact Or.inl ⟨h, hv⟩
  | some a =>
      rw [ha, Option.filter_some] at hv
      split_ifs at hv
      · exact Or.inr ⟨a, rfl, (Option.some.inj hv).symm⟩
      · exact Or.inl ⟨h, hv⟩

/-! ### Several arguments -/

/-- **Where the addresses after a walk come from**: they were held before, or the walk
assigned them. -/
theorem held_walk {args : List (AddArgument env)} {v : Value}
    (hwalk : (args.map AddArgument.text).foldlM (stepHost env) w = .ok w')
    (hv : Held w'.allHosts v) :
    Held w.allHosts v ∨
      ∃ b ∈ assignments env (.ok w) (args.map AddArgument.text), v = .str b.ip := by
  induction args generalizing w with
  | nil =>
      cases hwalk
      exact Or.inl hv
  | cons arg args ih =>
      obtain ⟨w₁, hstep, hwalk⟩ := foldlM_cons_eq_ok_iff.mp hwalk
      rw [List.map_cons, assignments_ok_cons, hstep]
      rcases ih hwalk with hheld | ⟨b, hb, hip⟩
      · rcases held_stepHost hstep hheld with hbefore | ⟨a, ha, hip⟩
        · exact Or.inl hbefore
        · exact Or.inr ⟨a, by simp [ha], hip⟩
      · exact Or.inr ⟨b, List.mem_append_right _ hb, hip⟩

/-- The address in hand after an argument that adds. -/
theorem ip_stepHost (hreal : env.useRealHostname = false) {arg : AddArgument env}
    (hstep : stepHost env w arg.text = .ok w') :
    (¬ arg.Misread ∧ w'.ip = some arg.ip) ∨ (arg.Misread ∧ w'.ip = w.ip) := by
  cases hread : isRead env arg.text with
  | false =>
      rw [stepHost_of_not_isRead hread arg.head?_text hstep]
      refine Or.inr ⟨?_, rfl⟩
      by_contra hnot
      rw [(AddArgument.unpacked_of_not_misread hreal hnot w).1] at hread
      cases hread
  | true =>
      obtain ⟨w₁, hunpack, hip⟩ := arg.exists_unpacked hreal w hread
      obtain ⟨w₂, hunpack₂, hcases⟩ := stepHost_isRead_cases hread hstep
      obtain rfl : w₁ = w₂ := Except.ok.inj (hunpack.symm.trans hunpack₂)
      rcases hcases with ⟨-, rfl⟩ | ⟨a, w₂, -, hname, rfl⟩
      · exact hip
      · exact (nameFor_ip hname) ▸ hip

/-- **The addresses that a walk assigns** are those that its arguments ask for, where they are
read. Only an argument that is misread assigns the address in hand. -/
theorem ip_of_mem_assignments (hreal : env.useRealHostname = false)
    {args : List (AddArgument env)} {b : HostAssignment}
    (hb : b ∈ assignments env (.ok w) (args.map AddArgument.text)) :
    (∃ arg ∈ args, ¬ arg.Misread ∧ arg.ip = b.ip) ∨
      ((∃ arg ∈ args, arg.Misread) ∧ w.ip = some b.ip) := by
  induction args generalizing w with
  | nil => cases hb
  | cons arg args ih =>
      rw [List.map_cons, assignments_ok_cons, List.mem_append, Option.mem_toList] at hb
      rcases hb with hb | hb
      · obtain ⟨hread, -, -, w₁, hunpack, hip, -⟩ := assigned_eq_some_iff.mp hb
        obtain ⟨w₂, hunpack₂, hip₂⟩ := arg.exists_unpacked hreal w hread
        obtain rfl : w₁ = w₂ := Except.ok.inj (hunpack.symm.trans hunpack₂)
        rw [hip] at hip₂
        rcases hip₂ with ⟨hown, heq⟩ | ⟨hmisread, heq⟩
        · exact Or.inl ⟨arg, List.mem_cons_self, hown, (Option.some.inj heq).symm⟩
        · exact Or.inr ⟨⟨arg, List.mem_cons_self, hmisread⟩, heq.symm⟩
      · cases hstep : stepHost env w arg.text with
        | error e =>
            rw [hstep, assignments_error] at hb
            cases hb
        | ok w₁ =>
            rw [hstep] at hb
            rcases ih hb with ⟨later, hlater, hip⟩ | ⟨⟨later, hlater, hmisread⟩, hip⟩
            · exact Or.inl ⟨later, List.mem_cons_of_mem arg hlater, hip⟩
            · rcases ip_stepHost hreal hstep with ⟨hown, heq⟩ | ⟨-, heq⟩
              · rw [heq] at hip
                exact Or.inl ⟨arg, List.mem_cons_self, hown, Option.some.inj hip⟩
              · exact Or.inr ⟨⟨later, List.mem_cons_of_mem arg hlater, hmisread⟩, heq ▸ hip⟩

/-- Arguments that add lose no host. -/
theorem mem_keys_walk {args : List (AddArgument env)} {h : Text}
    (hwalk : (args.map AddArgument.text).foldlM (stepHost env) w = .ok w')
    (hmem : h ∈ w.allHosts.keys ∨
      ∃ a ∈ assignments env (.ok w) (args.map AddArgument.text), a.name = h) :
    h ∈ w'.allHosts.keys := by
  induction args generalizing w with
  | nil =>
      cases hwalk
      exact hmem.resolve_right (by rintro ⟨a, ha, -⟩; cases ha)
  | cons arg args ih =>
      obtain ⟨w₁, hstep, hwalk⟩ := foldlM_cons_eq_ok_iff.mp hwalk
      have hkeys := allHosts_stepHost arg.head?_text hstep
      rw [List.map_cons, assignments_ok_cons, hstep] at hmem
      refine ih hwalk ?_
      cases ha : assigned env w arg.text with
      | none =>
          rw [ha] at hkeys hmem
          rw [hkeys]
          exact hmem
      | some a =>
          rw [ha] at hkeys hmem
          rw [hkeys, Option.elim_some, HostAssignment.apply, keys_set, mem_addKey]
          rcases hmem with hkey | ⟨b, hb, hname⟩
          · exact Or.inl (Or.inl hkey)
          · rcases List.mem_append.mp hb with hb | hb
            · obtain rfl : b = a := by simpa using hb
              exact Or.inl (Or.inr hname.symm)
            · exact Or.inr ⟨b, hb, hname⟩

/-- What is assigned on the last argument comes last. -/
theorem assignments_concat {ts : List Text} {t : Text}
    (hwalk : ts.foldlM (stepHost env) w = .ok w') :
    assignments env (.ok w) (ts ++ [t])
      = assignments env (.ok w) ts ++ (assigned env w' t).toList := by
  induction ts generalizing w with
  | nil =>
      cases hwalk
      simp [assignments]
  | cons u ts ih =>
      obtain ⟨w₁, hstep, hwalk⟩ := foldlM_cons_eq_ok_iff.mp hwalk
      rw [List.cons_append, assignments_ok_cons, assignments_ok_cons, hstep, ih hwalk,
        List.append_assoc]

/-- What arguments assign whose addresses are free when they come, from the number `id` on. -/
def assignmentsFrom (id : ℕ) : List (AddArgument env) → List HostAssignment
  | [] => []
  | arg :: args => arg.assignment id :: assignmentsFrom (arg.nextId id) args

/-- The next number after them. -/
def idAfter (id : ℕ) (args : List (AddArgument env)) : ℕ :=
  args.foldl AddArgument.nextId id

/-- The last of them gets the number that the others leave. -/
theorem assignmentsFrom_concat (id : ℕ) (args : List (AddArgument env)) (arg : AddArgument env) :
    assignmentsFrom id (args ++ [arg])
      = assignmentsFrom id args ++ [arg.assignment (idAfter id args)] := by
  induction args generalizing id with
  | nil => rfl
  | cons first args ih =>
      rw [List.cons_append, assignmentsFrom, ih]
      rfl

/-- They assign the addresses that are asked for. -/
theorem map_ip_assignmentsFrom (id : ℕ) (args : List (AddArgument env)) :
    (assignmentsFrom id args).map HostAssignment.ip = args.map AddArgument.ip := by
  induction args generalizing id with
  | nil => rfl
  | cons arg args ih =>
      rw [assignmentsFrom, List.map_cons, List.map_cons, ih]
      rfl

/-- The arguments that ask for an address that is neither loaded nor asked for before. -/
def newArguments (loaded : OrderedDict Text Value) (args : List (AddArgument env)) :
    List (AddArgument env) :=
  firsts AddArgument.ip (args.filter fun arg => !hasAddress loaded arg.ip)

/-- What they assign, if no assignment overwrites another: the numbers of generated names
begin behind the highest one that is loaded. -/
def given (loaded : OrderedDict Text Value) (highest : ℕ) (args : List (AddArgument env)) :
    List HostAssignment :=
  assignmentsFrom (highest + 1) (newArguments loaded args)

/-- One argument more is new, or asks for an address that is there. -/
theorem newArguments_concat (loaded : OrderedDict Text Value) (args : List (AddArgument env))
    (arg : AddArgument env) :
    newArguments loaded (args ++ [arg])
      = if hasAddress loaded arg.ip = true ∨ ∃ b ∈ args, b.ip = arg.ip then
          newArguments loaded args
        else newArguments loaded args ++ [arg] := by
  rw [newArguments, newArguments, List.filter_append]
  cases hloaded : hasAddress loaded arg.ip with
  | true =>
      rw [List.filter_cons_of_neg (by simp [hloaded]), List.filter_nil, List.append_nil,
        if_pos (Or.inl rfl)]
  | false =>
      rw [List.filter_cons_of_pos (by simp [hloaded]), List.filter_nil, firsts_concat]
      have hbefore : (∃ b ∈ args.filter (fun arg => !hasAddress loaded arg.ip), b.ip = arg.ip) ↔
          false = true ∨ ∃ b ∈ args, b.ip = arg.ip := by
        rw [or_iff_right Bool.false_ne_true]
        constructor
        · rintro ⟨b, hb, heq⟩
          exact ⟨b, List.mem_of_mem_filter hb, heq⟩
        · rintro ⟨b, hb, heq⟩
          exact ⟨b, List.mem_filter.mpr ⟨hb, by rw [heq, hloaded]; rfl⟩, heq⟩
      simp only [hbefore]

/-- What it is given, if it is new. -/
theorem given_concat (loaded : OrderedDict Text Value) (highest : ℕ)
    (args : List (AddArgument env)) (arg : AddArgument env) :
    given loaded highest (args ++ [arg])
      = if hasAddress loaded arg.ip = true ∨ ∃ b ∈ args, b.ip = arg.ip then
          given loaded highest args
        else given loaded highest args
          ++ [arg.assignment (idAfter (highest + 1) (newArguments loaded args))] := by
  rw [given, newArguments_concat]
  split_ifs
  · rfl
  · exact assignmentsFrom_concat (highest + 1) (newArguments loaded args) arg

/-- No address is asked for twice, or is loaded. -/
structure AsksOnce (loaded : OrderedDict Text Value) (args : List (AddArgument env)) : Prop where
  nodup : (args.map AddArgument.ip).Nodup
  new : ∀ arg ∈ args, ¬ Held loaded (.str arg.ip)

/-- Then all arguments are new. -/
theorem AsksOnce.newArguments_eq {loaded : OrderedDict Text Value} {args : List (AddArgument env)}
    (h : AsksOnce loaded args) : newArguments loaded args = args := by
  have hall : args.filter (fun arg => !hasAddress loaded arg.ip) = args := by
    refine List.filter_eq_self.mpr fun arg harg => ?_
    rw [Bool.not_eq_true', Bool.eq_false_iff, ne_eq, hasAddress_iff]
    exact h.new arg harg
  rw [newArguments, hall, firsts_of_nodup h.nodup]

/-- The first arguments ask once, too. -/
theorem AsksOnce.of_append {loaded : OrderedDict Text Value} {xs ys : List (AddArgument env)}
    (h : AsksOnce loaded (xs ++ ys)) : AsksOnce loaded xs where
  nodup := by
    have hnodup := h.nodup
    rw [List.map_append] at hnodup
    exact hnodup.of_append_left
  new arg harg := h.new arg (List.mem_append_left _ harg)

/-- No argument is taken for something else: the loop looks for an address in each, and none
is the name of a host that is loaded or that the arguments before it are given. -/
structure Heard (loaded : OrderedDict Text Value) (highest : ℕ)
    (args : List (AddArgument env)) : Prop where
  read : ∀ arg ∈ args, ¬ arg.Misread
  uncalled : ∀ before arg after, args = before ++ arg :: after →
    arg.text ∉ loaded.keys ∧ ∀ a ∈ given loaded highest before, a.name ≠ arg.text

/-- Neither are the first arguments. -/
theorem Heard.of_append {loaded : OrderedDict Text Value} {highest : ℕ}
    {xs ys : List (AddArgument env)} (h : Heard loaded highest (xs ++ ys)) :
    Heard loaded highest xs where
  read arg harg := h.read arg (List.mem_append_left _ harg)
  uncalled before arg after heq := h.uncalled before arg (after ++ ys) (by simp [heq])

/-- Where there are no arguments, none is taken for something else. -/
theorem heard_nil {loaded : OrderedDict Text Value} {highest : ℕ} :
    Heard loaded highest ([] : List (AddArgument env)) where
  read := fun _ h => nomatch h
  uncalled := fun before _ _ heq => by cases before <;> cases heq

/-- **One argument more that is heard.** -/
theorem heard_concat_iff {loaded : OrderedDict Text Value} {highest : ℕ}
    {args : List (AddArgument env)} {arg : AddArgument env} :
    Heard loaded highest (args ++ [arg]) ↔
      Heard loaded highest args ∧ ¬ arg.Misread ∧
        ¬ (arg.text ∈ loaded.keys ∨ ∃ a ∈ given loaded highest args, a.name = arg.text) := by
  constructor
  · intro h
    obtain ⟨hloaded, hgiven⟩ := h.uncalled args arg [] rfl
    refine ⟨h.of_append, h.read arg (by simp), ?_⟩
    rintro (hkey | ⟨a, ha, hname⟩)
    · exact hloaded hkey
    · exact hgiven a ha hname
  · rintro ⟨h, hread, hcalled⟩
    refine ⟨fun b hb => ?_, fun before b after heq => ?_⟩
    · rcases List.mem_append.mp hb with hb | hb
      · exact h.read b hb
      · rwa [List.mem_singleton.mp hb]
    · rcases after.eq_nil_or_concat with rfl | ⟨rest, last, rfl⟩
      · obtain ⟨rfl, hlast⟩ := List.append_inj' heq rfl
        cases hlast
        exact ⟨fun hkey => hcalled (Or.inl hkey), fun a ha hname => hcalled (Or.inr ⟨a, ha, hname⟩)⟩
      · rw [List.concat_eq_append, ← List.cons_append, ← List.append_assoc] at heq
        obtain ⟨rfl, -⟩ := List.append_inj' heq rfl
        exact h.uncalled before b rest rfl

/-- **What arguments with new addresses assign**, whether or not they overwrite each other. By
induction on the arguments from the last one on: an address that is held has been loaded or
asked for before, so the last one is free. -/
theorem assignments_of_asksOnce (hreal : env.useRealHostname = false)
    {loaded : OrderedDict Text Value} {highest : ℕ} {args : List (AddArgument env)}
    (hheard : Heard loaded highest args) (honce : AsksOnce loaded args)
    (hwalk : (args.map AddArgument.text).foldlM (stepHost env) (Walk.start loaded highest)
      = .ok w') :
    assignments env (.ok (Walk.start loaded highest)) (args.map AddArgument.text)
        = assignmentsFrom (highest + 1) args ∧
      w'.nextHostId = idAfter (highest + 1) args := by
  induction args using List.reverseRecOn generalizing w' with
  | nil =>
      cases hwalk
      exact ⟨rfl, rfl⟩
  | append_singleton args arg ih =>
      rw [List.map_append, List.map_singleton] at hwalk ⊢
      obtain ⟨w, hbefore, hlast⟩ := foldlM_append_eq_ok_iff.mp hwalk
      obtain ⟨w₁, hstep, hend⟩ := foldlM_cons_eq_ok_iff.mp hlast
      cases hend
      obtain ⟨hheardBefore, hread, hnotCalled⟩ := heard_concat_iff.mp hheard
      obtain ⟨hassigned, hid⟩ := ih hheardBefore honce.of_append hbefore
      have hcalled : arg.text ∉ w.allHosts.keys := by
        intro hmem
        refine hnotCalled ((mem_keys_of_walk hbefore hmem).imp_right ?_)
        rw [hassigned, given, honce.of_append.newArguments_eq]
        exact id
      have hnotHeld : ¬ Held w.allHosts (.str arg.ip) := by
        intro hheld
        rcases held_walk hbefore hheld with hkey | ⟨b, hb, hip⟩
        · exact honce.new arg (by simp) hkey
        · rw [hassigned] at hb
          have hmem : b.ip ∈ args.map AddArgument.ip :=
            map_ip_assignmentsFrom (highest + 1) args ▸ List.mem_map_of_mem hb
          have hnodup := honce.nodup
          rw [List.map_append, List.map_singleton] at hnodup
          have hne := (List.nodup_append.mp hnodup).2.2 b.ip hmem arg.ip
            List.mem_cons_self
          exact hne (Value.str.inj hip).symm
      have hfree := AddArgument.free_of_step hreal hread hcalled hstep hnotHeld
      obtain ⟨hlastAssigned, w₂, hstep₂, -, hnext⟩ :=
        AddArgument.step_free hreal hread hcalled hfree
      obtain rfl : w' = w₂ := Except.ok.inj (hstep.symm.trans hstep₂)
      rw [hid] at hlastAssigned hnext
      refine ⟨?_, ?_⟩
      · rw [assignments_concat hbefore, hassigned, hlastAssigned, assignmentsFrom_concat]
        rfl
      · rw [hnext, idAfter, idAfter, List.foldl_append]
        rfl

end Kubespray.Inventory
