import Kubespray.Inventory.Config
import Kubespray.Library.Fallible
import Mathlib.Algebra.Ring.Nat

/-!
# Address Ranges on the Command Line

An argument `a-b` of the inventory builder stands for all addresses from `a` to `b`.
`range2ips` expands it through Python's `ipaddress` module: both ends are read as
addresses, turned into integers, and each integer of the range is turned back into an
address and printed in its exploded form.

`ipAddress` follows `ipaddress.ip_address` on text: an IPv4 address in dotted-decimal
form without leading zeros, else an IPv6 address with at most one `::`, an optional
dotted-decimal tail and an optional scope. `ipAddressOfInt` is the same function on an
integer, which has no way to know the family and takes the smaller one that fits.
-/

namespace Kubespray.Inventory

/-! ### Digits -/

/-- The value of a hexadecimal digit. -/
def hexValue (c : Char) : Option ℕ :=
  if c.isDigit then some (c.toNat - '0'.toNat)
  else if 'a' ≤ c ∧ c ≤ 'f' then some (c.toNat - 'a'.toNat + 10)
  else if 'A' ≤ c ∧ c ≤ 'F' then some (c.toNat - 'A'.toNat + 10)
  else none

/-- The number that digits of a base spell. -/
def ofDigits (base : ℕ) (digits : List ℕ) : ℕ :=
  digits.foldl (fun acc d => base * acc + d) 0

/-! ### The `ipaddress` module -/

/-- An address of either family. -/
inductive IPAddress
  | v4 (n : Fin (2 ^ 32))
  | v6 (n : Fin (2 ^ 128))
  deriving DecidableEq

/-- `int(address)`. -/
def IPAddress.toInt : IPAddress → ℕ
  | .v4 n => n
  | .v6 n => n

/-- `IPv4Address._parse_octet`: one to three ASCII digits, no leading zero, at most 255. -/
def parseOctet (t : Text) : Option ℕ :=
  if t ≠ [] ∧ t.all Char.isDigit ∧ t.length ≤ 3 ∧ (t = ['0'] ∨ t.head? ≠ some '0') then
    let n := ofDigits 10 (t.map fun c => c.toNat - '0'.toNat)
    if n ≤ 255 then some n else none
  else
    none

/-- `IPv4Address`, of text. -/
def parseV4 (t : Text) : Option (Fin (2 ^ 32)) := do
  match t.splitOn '.' with
  | [a, b, c, d] =>
    let n := ofDigits 256 [← parseOctet a, ← parseOctet b, ← parseOctet c, ← parseOctet d]
    if h : n < 2 ^ 32 then some ⟨n, h⟩ else none
  | _ => none

/-- `IPv6Address._parse_hextet`: one to four hexadecimal digits. -/
def parseHextet (t : Text) : Option ℕ := do
  if t = [] ∨ 4 < t.length then none
  else some (ofDigits 16 (← t.mapM hexValue))

/-- The parts between the colons, with a dotted-decimal tail replaced by two hextets. -/
def v6Parts (t : Text) : Option (List Text) := do
  let parts := t.splitOn ':'
  if parts.length < 3 then none
  else
    match parts.getLast? with
    | some tail =>
      if '.' ∈ tail then do
        let n ← parseV4 tail
        some (parts.dropLast ++
          [Nat.toDigits 16 (n.val / 2 ^ 16), Nat.toDigits 16 (n.val % 2 ^ 16)])
      else some parts
    | none => none

/-- `IPv6Address._ip_int_from_string`. An empty part away from both ends is the `::`
that stands for a run of zero hextets; there may be one, and an empty part at an end is
allowed only as the outer half of a `::`. -/
def v6Int (t : Text) : Option ℕ := do
  let parts ← v6Parts t
  if 9 < parts.length then none
  else
    let inner := (List.range parts.length).filter fun i =>
      0 < i ∧ i + 1 < parts.length ∧ parts[i]? = some []
    match inner with
    | [] =>
      if parts.length ≠ 8 then none
      else some (ofDigits (2 ^ 16) (← parts.mapM parseHextet))
    | [skip] =>
      let hi ← if parts.head? = some [] then (if skip = 1 then some 0 else none) else some skip
      let below := parts.length - skip - 1
      let lo ← if parts.getLast? = some [] then (if below = 1 then some 0 else none)
        else some below
      if 8 ≤ hi + lo then none
      else
        let high ← (parts.take hi).mapM parseHextet
        let low ← (parts.drop (parts.length - lo)).mapM parseHextet
        some (ofDigits (2 ^ 16) (high ++ List.replicate (8 - (hi + lo)) 0 ++ low))
    | _ => none

/-- `IPv6Address`, of text: the scope after `%` is checked and dropped. -/
def parseV6 (t : Text) : Option (Fin (2 ^ 128)) := do
  if '/' ∈ t then none
  else
    let n ← match t.splitOn '%' with
      | [addr] => v6Int addr
      | [addr, scope] => if scope = [] then none else v6Int addr
      | _ => none
    if h : n < 2 ^ 128 then some ⟨n, h⟩ else none

/-- `ipaddress.ip_address`, of text; `none` is its `ValueError`. -/
def ipAddress (t : Text) : Option IPAddress :=
  match parseV4 t with
  | some n => some (.v4 n)
  | none => (parseV6 t).map .v6

/-- `ipaddress.ip_address`, of an integer. -/
def ipAddressOfInt (n : ℕ) : Option IPAddress :=
  if h : n < 2 ^ 32 then some (.v4 ⟨n, h⟩)
  else if h : n < 2 ^ 128 then some (.v6 ⟨n, h⟩)
  else none

/-- A hextet as four hexadecimal digits. -/
def padHextet (n : ℕ) : Text :=
  List.replicate (4 - (Nat.toDigits 16 n).length) '0' ++ Nat.toDigits 16 n

/-- `address.exploded`. -/
def IPAddress.exploded : IPAddress → Text
  | .v4 n =>
    ['.'].intercalate ([n.val / 2 ^ 24, n.val / 2 ^ 16 % 256, n.val / 2 ^ 8 % 256,
      n.val % 256].map (Nat.toDigits 10))
  | .v6 n =>
    [':'].intercalate ((List.range 8).map fun i =>
      padHextet (n.val / 2 ^ (16 * (7 - i)) % 2 ^ 16))

/-! ### `range2ips` -/

/-- The inner function `ips`: the addresses from one address to another. -/
def ips (startAddress endAddress : Text) : Option (List Text) := do
  let start := (← ipAddress startAddress).toInt
  let stop := (← ipAddress endAddress).toInt
  (List.range (stop + 1 - start)).mapM fun i =>
    (ipAddressOfInt (start + i)).map IPAddress.exploded

/-- What one argument of `range2ips` becomes. An argument is a range when it has a dash
and starts with neither a dash nor a letter; a range has exactly two ends. -/
def expandHost (env : Env) (host : Text) : Except Abort (List Text) :=
  if '-' ∈ host ∧ ¬ (host.head? = some '-' ∨ host.head?.any env.chars.isalpha) then
    match (strip host).splitOn '-' with
    | [start, stop] =>
      match ips start stop with
      | some addresses => .ok addresses
      | none => .error (.exception "Range of ip_addresses isn't valid".toList)
    | _ => .error (.valueError "wrong number of values to unpack".toList)
  else
    .ok [host]

/-- `range2ips`. -/
def range2ips (env : Env) (hosts : List Text) : Except Abort (List Text) := do
  let expanded ← hosts.mapM (expandHost env)
  return expanded.flatten

example : range2ips .default ["10.90.0.2".toList, "10.90.0.4-10.90.0.6".toList, "-node1".toList]
    = .ok ["10.90.0.2".toList, "10.90.0.4".toList, "10.90.0.5".toList, "10.90.0.6".toList,
      "-node1".toList] := by
  rfl

/-! ### What a range expands to -/

/-- Is an argument taken for a range? -/
def IsRange (env : Env) (host : Text) : Prop :=
  '-' ∈ host ∧ ¬ (host.head? = some '-' ∨ host.head?.any env.chars.isalpha)

/-- What is not taken for a range stays. -/
theorem expandHost_of_not_isRange {env : Env} {host : Text} (h : ¬ IsRange env host) :
    expandHost env host = .ok [host] :=
  if_neg h

/-- The characters of printed addresses. -/
def addressChars : Text :=
  "0123456789abcdef.:".toList

/-- The characters of a numeral of base ten or sixteen. -/
theorem mem_addressChars_of_mem_toDigits {b n : ℕ} (hb : 1 < b) (hb' : b ≤ 16) {c : Char}
    (h : c ∈ Nat.toDigits b n) : c ∈ addressChars := by
  induction n using Nat.strong_induction_on with
  | _ n ih =>
      have hdigit : ∀ d : Fin 16, Nat.digitChar d ∈ addressChars := by decide
      rw [Nat.toDigits_eq_if hb] at h
      by_cases hlt : n < b
      · rw [if_pos hlt, List.mem_singleton] at h
        rw [h]
        exact hdigit ⟨n, by omega⟩
      · rw [if_neg hlt, List.mem_append, List.mem_singleton] at h
        rcases h with hfront | rfl
        · exact ih (n / b) (Nat.div_lt_self (by omega) hb) hfront
        · exact hdigit ⟨n % b, lt_of_lt_of_le (Nat.mod_lt n (by omega)) hb'⟩

/-- The characters of a padded hextet. -/
theorem mem_addressChars_of_mem_padHextet {n : ℕ} {c : Char} (h : c ∈ padHextet n) :
    c ∈ addressChars := by
  rcases List.mem_append.mp h with hzero | hdigit
  · rw [List.eq_of_mem_replicate hzero]
    decide
  · exact mem_addressChars_of_mem_toDigits (by decide) (by decide) hdigit

/-- **The characters of a printed address.** -/
theorem mem_addressChars_of_mem_exploded {a : IPAddress} {c : Char} (h : c ∈ a.exploded) :
    c ∈ addressChars := by
  cases a with
  | v4 n =>
      rcases mem_intercalate_singleton h with rfl | ⟨l, hl, hc⟩
      · decide
      · obtain ⟨m, -, rfl⟩ := List.mem_map.mp hl
        exact mem_addressChars_of_mem_toDigits (by decide) (by decide) hc
  | v6 n =>
      rcases mem_intercalate_singleton h with rfl | ⟨l, hl, hc⟩
      · decide
      · obtain ⟨i, -, rfl⟩ := List.mem_map.mp hl
        exact mem_addressChars_of_mem_padHextet hc

/-- A printed address has separators. -/
theorem exploded_ne_nil (a : IPAddress) : a.exploded ≠ [] := by
  have hjoin : ∀ (sep : Char) (l m : Text) (ls : List Text),
      [sep].intercalate (l :: m :: ls) ≠ [] := by
    intro sep l m ls
    rw [List.intercalate_cons_cons]
    simp
  cases a with
  | v4 n => exact hjoin '.' _ _ _
  | v6 n => exact hjoin ':' _ _ _

/-- A range expands to printed addresses. -/
theorem exploded_of_mem_ips {start stop t : Text} {addresses : List Text}
    (h : ips start stop = some addresses) (ht : t ∈ addresses) :
    ∃ a : IPAddress, t = a.exploded := by
  obtain ⟨a, -, hbind⟩ := Option.bind_eq_some_iff.mp h
  obtain ⟨b, -, hmap⟩ := Option.bind_eq_some_iff.mp hbind
  obtain ⟨i, -, hi⟩ := Fallible.exists_of_mem_mapM_option hmap ht
  obtain ⟨x, -, rfl⟩ := Option.map_eq_some_iff.mp hi
  exact ⟨x, rfl⟩

/-- **What is taken for a range** becomes printed addresses, if it becomes anything. -/
theorem exploded_of_isRange {env : Env} {host t : Text} {texts : List Text}
    (hrange : IsRange env host) (h : expandHost env host = .ok texts) (ht : t ∈ texts) :
    ∃ a : IPAddress, t = a.exploded := by
  rw [IsRange] at hrange
  rw [expandHost, if_pos hrange] at h
  split at h
  · split at h
    · rename_i heq
      cases h
      exact exploded_of_mem_ips heq ht
    · cases h
  · cases h

/-- So it is no more the text that it was. -/
theorem dash_notMem_of_isRange {env : Env} {host t : Text} {texts : List Text}
    (hrange : IsRange env host) (h : expandHost env host = .ok texts) (ht : t ∈ texts) :
    '-' ∉ t := by
  obtain ⟨a, rfl⟩ := exploded_of_isRange hrange h ht
  exact fun hdash => absurd (mem_addressChars_of_mem_exploded hdash) (by decide)

end Kubespray.Inventory
