import Kubespray.Inventory.Hostnames
import Mathlib.Data.List.TakeWhile

/-!
# Host Identifiers

The builder numbers the hostnames it generates and does not store the number: a later run
reads it back from the names of the inventory, with `get_host_id` on every name that
starts with `HOST_PREFIX`. A name with the prefix but without digits at its end makes the
reading fail.

## Main results

* `exists_highestHostId_iff`: which names the builder can read back.
* `generatedName_notMem_of_lt`: the names that continue the numbering are not yet taken,
  when the prefix has no dot.
* `getHostId_generatedName`: a generated name has the number it was made from, when the
  prefix ends in no digit.
-/

namespace Kubespray.Inventory

open Fallible

variable (env : Env)

/-! ### The digits of generated names -/

/-- Every classification reads an ASCII digit as its value. -/
theorem CharClass.decimal_of_isDigit (chars : CharClass) {c : Char} (h : c.isDigit = true) :
    chars.decimal c = some (c.toNat - '0'.toNat) := by
  have hle : c.val ≤ '9'.val := of_decide_eq_true (Bool.and_eq_true_iff.mp h).2
  have hascii : c.toNat < 128 := lt_of_le_of_lt (UInt32.le_iff_toNat_le.mp hle) (by decide)
  rw [chars.decimal_ascii c hascii, if_pos h]

/-- The digits of a numeral, as numbers. -/
def numeralDigits (n : ℕ) : List ℕ :=
  (Nat.toDigits 10 n).map fun c => c.toNat - '0'.toNat

/-- The digits of a numeral spell its number. -/
theorem ofDigits_numeralDigits (n : ℕ) : ofDigits 10 (numeralDigits n) = n := by
  rw [ofDigits, numeralDigits, List.foldl_map, ← Nat.ofDigitChars_eq_foldl,
    Nat.ofDigitChars_ten_toDigits]

/-- Digits in front do not make a number smaller. -/
theorem ofDigits_le_append (base : ℕ) (front digits : List ℕ) :
    ofDigits base digits ≤ ofDigits base (front ++ digits) := by
  have hmono : ∀ (ds : List ℕ) {m n : ℕ}, m ≤ n →
      ds.foldl (fun acc d => base * acc + d) m ≤ ds.foldl (fun acc d => base * acc + d) n := by
    intro ds
    induction ds with
    | nil => exact fun h => h
    | cons d ds ih => exact fun h => ih (Nat.add_le_add_right (Nat.mul_le_mul_left base h) d)
  rw [ofDigits, ofDigits, List.foldl_append]
  exact hmono digits (Nat.zero_le _)

/-- The digits at the very end of a text. -/
def endDigits (t : Text) : List ℕ :=
  ((t.reverse.takeWhile fun c => (env.chars.decimal c).isSome).filterMap
    env.chars.decimal).reverse

/-- The digits at the end of a name that was made from a prefix and a number. -/
theorem trailingDigits_append (p : Text) (n : ℕ) :
    trailingDigits env (p ++ Nat.toDigits 10 n) = endDigits env p ++ numeralDigits n := by
  have hdigit : ∀ c ∈ Nat.toDigits 10 n, env.chars.decimal c = some (c.toNat - '0'.toNat) :=
    fun c hc => env.chars.decimal_of_isDigit
      (Nat.isDigit_of_mem_toDigits (by decide) (by decide) hc)
  have hline : ((p ++ Nat.toDigits 10 n).reverse).head? ≠ some '\n' := by
    intro hhead
    rw [List.head?_reverse, List.getLast?_append_of_ne_nil _ Nat.toDigits_ne_nil] at hhead
    have hmem := Nat.isDigit_of_mem_toDigits (by decide) (by decide) (List.mem_of_getLast? hhead)
    exact absurd hmem (by decide)
  have htake : ∀ c ∈ (Nat.toDigits 10 n).reverse, (env.chars.decimal c).isSome = true := by
    intro c hc
    rw [hdigit c (List.mem_reverse.mp hc)]
    rfl
  have hnumeral : (Nat.toDigits 10 n).filterMap env.chars.decimal = numeralDigits n := by
    rw [numeralDigits, ← List.filterMap_eq_map]
    exact List.filterMap_congr hdigit
  rw [trailingDigits]
  rw [if_neg hline, List.reverse_append, List.takeWhile_append_of_pos htake,
    List.filterMap_append, List.reverse_append, List.filterMap_reverse, List.reverse_reverse,
    hnumeral]
  rfl

/-- The number read back from a name that was made from a prefix without a dot. -/
theorem getHostId_append {p : Text} (hdot : '.' ∉ p) (n : ℕ) :
    getHostId env (p ++ Nat.toDigits 10 n)
      = .ok (ofDigits 10 (endDigits env p ++ numeralDigits n)) := by
  have hshort : (p ++ Nat.toDigits 10 n).takeWhile (· ≠ '.') = p ++ Nat.toDigits 10 n := by
    rw [List.takeWhile_eq_self_iff]
    intro c hc
    refine decide_eq_true fun heq => ?_
    rw [heq] at hc
    rcases List.mem_append.mp hc with hp | hn
    · exact hdot hp
    · exact absurd (Nat.isDigit_of_mem_toDigits (by decide) (by decide) hn) (by decide)
  have hne : endDigits env p ++ numeralDigits n ≠ [] := by
    intro hnil
    exact Nat.toDigits_ne_nil (List.map_eq_nil_iff.mp (List.append_eq_nil_iff.mp hnil).2)
  rw [getHostId]
  rw [hshort, trailingDigits_append]
  split
  · rename_i heq
    exact absurd heq hne
  · rfl

/-- **A generated name has the number it was made from**, when the prefix ends in no
digit. -/
theorem getHostId_generatedName (hdot : '.' ∉ env.hostPrefix)
    (hend : endDigits env env.hostPrefix = []) (n : ℕ) :
    getHostId env (generatedName env n) = .ok n := by
  rw [generatedName, getHostId_append env hdot, hend, List.nil_append, ofDigits_numeralDigits]

/-- Generated names of different numbers differ. -/
theorem generatedName_injective : Function.Injective (generatedName env) :=
  fun _ _ h => toDigits_injective (List.append_cancel_left h)

/-! ### Reading the names of an inventory -/

/-- A name that the builder can read back: it lacks the prefix, or its first label ends in
a number. -/
def ReadableName (name : Text) : Prop :=
  env.hostPrefix.isPrefixOf name = true →
    trailingDigits env (name.takeWhile (· ≠ '.')) ≠ []

instance (name : Text) : Decidable (ReadableName env name) :=
  inferInstanceAs (Decidable (_ → _))

/-- The identifier of a name can be read exactly when its first label ends in a number. -/
theorem exists_getHostId_iff {name : Text} :
    (∃ n, getHostId env name = .ok n) ↔ trailingDigits env (name.takeWhile (· ≠ '.')) ≠ [] := by
  rw [getHostId]
  cases trailingDigits env (name.takeWhile (· ≠ '.')) with
  | nil => simp
  | cons d ds => simp

/-- One round of the loop over the stored names. -/
def raiseId (highest : ℕ) (name : Text) : Except Abort ℕ :=
  if env.hostPrefix.isPrefixOf name then do
    let hostId ← getHostId env name
    return if hostId > highest then hostId else highest
  else
    return highest

/-- The loop over the stored names, round by round. -/
theorem highestHostId_eq (names : List Text) :
    highestHostId env names = names.foldlM (raiseId env) 0 := rfl

variable {env}

/-- A round on a readable name succeeds. -/
theorem exists_raiseId {name : Text} (h : ReadableName env name) (highest : ℕ) :
    ∃ n, raiseId env highest name = .ok n := by
  rw [raiseId]
  by_cases hprefix : env.hostPrefix.isPrefixOf name = true
  · obtain ⟨hostId, hid⟩ := (exists_getHostId_iff env).mpr (h hprefix)
    rw [if_pos hprefix]
    exact ⟨_, bind_eq_ok_iff.mpr ⟨hostId, hid, rfl⟩⟩
  · rw [if_neg hprefix]
    exact ⟨highest, rfl⟩

/-- A round that succeeds read its name, raises the identifier and takes the name's own
identifier into account. -/
theorem raiseId_eq_ok {name : Text} {highest n : ℕ} (h : raiseId env highest name = .ok n) :
    ReadableName env name ∧ highest ≤ n ∧
      (env.hostPrefix.isPrefixOf name = true → ∀ id, getHostId env name = .ok id → id ≤ n) := by
  rw [raiseId] at h
  by_cases hprefix : env.hostPrefix.isPrefixOf name = true
  · rw [if_pos hprefix] at h
    obtain ⟨hostId, hid, h⟩ := ok_of_bind h
    have hn : (if hostId > highest then hostId else highest) = n := Except.ok.inj h
    refine ⟨fun _ => (exists_getHostId_iff env).mp ⟨hostId, hid⟩, ?_, fun _ id hid' => ?_⟩
    · split_ifs at hn <;> omega
    · rw [hid] at hid'
      cases hid'
      split_ifs at hn <;> omega
  · rw [if_neg hprefix] at h
    cases h
    exact ⟨fun hp => absurd hp hprefix, le_refl _, fun hp => absurd hp hprefix⟩

/-- A reading that succeeds read every name, and its result is at least every
identifier. -/
theorem foldlM_raiseId {names : List Text} {m n : ℕ}
    (h : names.foldlM (raiseId env) m = .ok n) :
    m ≤ n ∧ ∀ name ∈ names, ReadableName env name ∧
      (env.hostPrefix.isPrefixOf name = true → ∀ id, getHostId env name = .ok id → id ≤ n) := by
  induction names generalizing m with
  | nil =>
      cases h
      exact ⟨le_refl _, fun name hname => absurd hname List.not_mem_nil⟩
  | cons name names ih =>
      obtain ⟨k, hk, h⟩ := foldlM_cons_eq_ok_iff.mp h
      obtain ⟨hread, hle, hid⟩ := raiseId_eq_ok hk
      obtain ⟨hrest, hnames⟩ := ih h
      refine ⟨hle.trans hrest, fun other hother => ?_⟩
      rcases List.mem_cons.mp hother with rfl | hmem
      · exact ⟨hread, fun hp id h' => (hid hp id h').trans hrest⟩
      · exact hnames other hmem

/-- **Which inventories the builder can read back.** -/
theorem exists_highestHostId_iff {names : List Text} :
    (∃ n, highestHostId env names = .ok n) ↔ ∀ name ∈ names, ReadableName env name := by
  rw [highestHostId_eq]
  constructor
  · rintro ⟨n, h⟩ name hname
    exact ((foldlM_raiseId h).2 name hname).1
  · intro h
    obtain ⟨n, hn, -⟩ := foldlM_succeeds (f := raiseId env) (I := fun _ => True) (s := 0)
      (fun m name hname _ => by
        obtain ⟨k, hk⟩ := exists_raiseId (h name hname) m
        exact ⟨k, hk, trivial⟩) trivial
    exact ⟨n, hn⟩

/-- **Names with higher numbers than the stored ones are not taken**, when the prefix has no
dot. -/
theorem generatedName_notMem_of_lt (hdot : '.' ∉ env.hostPrefix) {names : List Text}
    {highest n : ℕ} (h : highestHostId env names = .ok highest) (hn : highest < n) :
    generatedName env n ∉ names := by
  intro hmem
  have hprefix : env.hostPrefix.isPrefixOf (generatedName env n) = true :=
    List.isPrefixOf_iff_prefix.mpr (List.prefix_append _ _)
  have hle := ((foldlM_raiseId (highestHostId_eq env names ▸ h)).2 _ hmem).2 hprefix _
    (getHostId_append env hdot n)
  have hge := ofDigits_le_append 10 (endDigits env env.hostPrefix) (numeralDigits n)
  rw [ofDigits_numeralDigits] at hge
  omega

end Kubespray.Inventory
