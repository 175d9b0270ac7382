import Kubespray.Inventory.Addresses
import Mathlib.Data.List.DropRight
import Mathlib.Data.List.Range

/-!
# What an Address Range Expands To

`range2ips` replaces each range `a-b` of the command line by the addresses from `a` to `b`.
Between the ends it only knows integers, and `ip_address` of an integer below 2³² is an
IPv4 address. A range of IPv6 addresses that starts there (at `0::1`, say) therefore comes
out with IPv4 addresses in it. The other way to lose a range is its text: `str.split('-')`
must give exactly two parts, and `str.strip` takes trailing white space with it, so the
scope of an IPv6 end must not have a dash and must not be blank.

## Main results

* `ipAddress_rdropWhile`: stripping a text does not make it another address.
* `rangesExpanded_iff`: `range2ips` expands all ranges exactly and in place when, and only
  when, it takes nothing else for a range, no end has a dash, the last end is an address
  without its trailing white space, and no IPv6 range starts below 2³².
-/

namespace Kubespray.Inventory

open Fallible

/-! ### The addresses a range stands for -/

/-- Is it an IPv6 address? -/
def IPAddress.isV6 : IPAddress → Bool
  | .v4 _ => false
  | .v6 _ => true

/-- The address of the same family with another number. -/
def IPAddress.numbered (x : IPAddress) (k : ℕ) : IPAddress :=
  match x with
  | .v4 _ => .v4 (Fin.ofNat _ k)
  | .v6 _ => .v6 (Fin.ofNat _ k)

/-- The addresses from one address to another of its family, in ascending order. -/
def IPAddress.upTo (x y : IPAddress) : List IPAddress :=
  (List.range' x.toInt (y.toInt + 1 - x.toInt)).map x.numbered

/-- The numbers from one address to another. -/
theorem mem_numbers {x y : IPAddress} {k : ℕ} :
    k ∈ List.range' x.toInt (y.toInt + 1 - x.toInt) ↔ x.toInt ≤ k ∧ k ≤ y.toInt := by
  rw [List.mem_range'_1]
  omega

/-! ### Trailing white space -/

/-- White space is neither a digit nor a separator. -/
theorem isSpace_spec {c : Char} (h : isSpace c = true) :
    c.isDigit = false ∧ hexValue c = none ∧ c ≠ '.' ∧ c ≠ ':' ∧ c ≠ '%' ∧ c ≠ '-' := by
  have hcodes : c.toNat ≤ 32 ∨ 0x85 ≤ c.toNat := by
    simp only [isSpace, Bool.or_eq_true, Bool.and_eq_true, decide_eq_true_eq, beq_iff_eq] at h
    omega
  have hrange : ∀ lo hi : Char, lo ≤ c → c ≤ hi → 32 < lo.toNat → 0x85 ≤ hi.toNat := by
    intro lo hi hlo hhi h32
    have hlo : lo.toNat ≤ c.toNat := hlo
    have hhi : c.toNat ≤ hi.toNat := hhi
    omega
  have hdigit : c.isDigit = false := by
    refine Bool.eq_false_iff.mpr fun hd => ?_
    obtain ⟨hlo, hhi⟩ := Bool.and_eq_true_iff.mp hd
    exact absurd (hrange '0' '9' (of_decide_eq_true hlo) (of_decide_eq_true hhi) (by decide))
      (by decide)
  have hlower : ¬ ('a' ≤ c ∧ c ≤ 'f') := fun ⟨hlo, hhi⟩ =>
    absurd (hrange 'a' 'f' hlo hhi (by decide)) (by decide)
  have hupper : ¬ ('A' ≤ c ∧ c ≤ 'F') := fun ⟨hlo, hhi⟩ =>
    absurd (hrange 'A' 'F' hlo hhi (by decide)) (by decide)
  have hne : ∀ d : Char, 32 < d.toNat ∧ d.toNat < 0x85 → c ≠ d := by
    rintro d hd rfl
    omega
  refine ⟨hdigit, ?_, hne _ (by decide), hne _ (by decide), hne _ (by decide),
    hne _ (by decide)⟩
  rw [hexValue, hdigit, if_neg Bool.false_ne_true, if_neg hlower, if_neg hupper]

/-- The last part of a text holds its last character. -/
theorem getLast?_splitOn {sep c : Char} (h : c ≠ sep) (t : Text) :
    ∃ tail, ((t ++ [c]).splitOn sep).getLast? = some (tail ++ [c]) := by
  induction t with
  | nil =>
      refine ⟨[], ?_⟩
      rw [List.nil_append, List.splitOn_eq_singleton (by simpa using h.symm)]
      rfl
  | cons d t ih =>
      obtain ⟨tail, htail⟩ := ih
      rw [List.cons_append, List.splitOn_cons_eq_if_modifyHead]
      split_ifs with hd
      · exact ⟨tail, by rw [List.getLast?_cons, htail]; rfl⟩
      · cases hparts : (t ++ [c]).splitOn sep with
        | nil => exact absurd hparts (List.splitOn_ne_nil sep _)
        | cons part parts =>
            rw [hparts] at htail
            cases parts with
            | nil => exact ⟨d :: tail, by simpa using htail⟩
            | cons next parts =>
                rw [List.getLast?_cons_cons] at htail
                exact ⟨tail, by rw [List.modifyHead_cons, List.getLast?_cons_cons, htail]⟩

/-- An octet has digits only. -/
theorem parseOctet_eq_none {c : Char} {t : Text} (hmem : c ∈ t) (h : c.isDigit = false) :
    parseOctet t = none := by
  refine if_neg fun hoctet => ?_
  rw [List.all_eq_true.mp hoctet.2.1 c hmem] at h
  cases h

/-- An IPv4 address has digits and dots only. -/
theorem parseV4_eq_none {c : Char} {t : Text} (hmem : c ∈ t) (hdot : c ≠ '.')
    (h : c.isDigit = false) : parseV4 t = none := by
  rw [parseV4]
  split
  · rename_i a b d e hparts
    have hjoin : ['.'].intercalate (t.splitOn '.') = t := List.intercalate_splitOn '.'
    rw [← hjoin, hparts] at hmem
    have hoctet : c ∈ a ∨ c ∈ b ∨ c ∈ d ∨ c ∈ e := by
      simpa [List.intercalate, hdot] using hmem
    rcases hoctet with hmem | hmem | hmem | hmem <;>
      simp only [parseOctet_eq_none hmem h, Option.bind_eq_bind, Option.bind_none,
        Option.bind_fun_none]
  · rfl

/-- A hextet has hexadecimal digits only. -/
theorem parseHextet_eq_none {c : Char} {t : Text} (hmem : c ∈ t) (h : hexValue c = none) :
    parseHextet t = none := by
  rw [parseHextet, mapM_eq_none hmem h]
  split_ifs <;> rfl

/-- The last of the parts between the colons ends as the text does. -/
theorem v6Parts_space {c : Char} (h : isSpace c = true) {t : Text} {parts : List Text}
    (hparts : v6Parts (t ++ [c]) = some parts) : ∃ tail, parts.getLast? = some (tail ++ [c]) := by
  obtain ⟨tail, htail⟩ := getLast?_splitOn (isSpace_spec h).2.2.2.1 t
  have hv4 := parseV4_eq_none (List.mem_append_right tail (List.mem_singleton_self c))
    (isSpace_spec h).2.2.1 (isSpace_spec h).1
  simp only [v6Parts, htail, hv4] at hparts
  split_ifs at hparts
  · cases hparts
  · obtain rfl := Option.some.inj hparts
    exact ⟨tail, htail⟩

/-- An IPv6 address without a scope does not end in white space. -/
theorem v6Int_space {c : Char} (h : isSpace c = true) (t : Text) : v6Int (t ++ [c]) = none := by
  rw [v6Int]
  cases hparts : v6Parts (t ++ [c]) with
  | none => rfl
  | some parts =>
      obtain ⟨tail, htail⟩ := v6Parts_space h hparts
      have hnone : ∀ ps : List Text, tail ++ [c] ∈ ps → ps.mapM parseHextet = none :=
        fun ps hmem => mapM_eq_none hmem
          (parseHextet_eq_none (List.mem_append_right tail (List.mem_singleton_self c))
            (isSpace_spec h).2.1)
      have hlast : parts.getLast? ≠ some [] := by
        rw [htail]
        simp
      change (if 9 < parts.length then none else _) = none
      by_cases hlong : 9 < parts.length
      · exact if_pos hlong
      rw [if_neg hlong]
      dsimp only
      split
      · rw [hnone parts (List.mem_of_getLast? htail)]
        split_ifs <;> rfl
      · rename_i skip hinner
        have hskip : skip + 1 < parts.length := by
          have hmem := hinner ▸ List.mem_singleton_self skip
          exact (of_decide_eq_true (List.mem_filter.mp hmem).2).2.1
        -- what follows the run of zero hextets has the last part among it
        have hlow : tail ++ [c] ∈ parts.drop (parts.length - (parts.length - skip - 1)) := by
          refine List.mem_of_getLast? ?_
          rw [List.getLast?_drop, if_neg (by omega), htail]
        simp only [if_neg hlast]
        have hrest : ∀ hi zeros : ℕ, (if 8 ≤ zeros then none else do
            let high ← (parts.take hi).mapM parseHextet
            let low ← (parts.drop (parts.length - (parts.length - skip - 1))).mapM parseHextet
            some (ofDigits (2 ^ 16) (high ++ List.replicate (8 - zeros) 0 ++ low))) = none := by
          intro hi zeros
          split_ifs
          · rfl
          · cases (parts.take hi).mapM parseHextet with
            | none => rfl
            | some high => rw [hnone _ hlow]; rfl
        split_ifs
        · exact hrest 0 _
        · rfl
        · exact hrest skip _
      · rfl

/-- Stripping the end of a text stops at what is not white space. -/
theorem rdropWhile_append_cons {c : Char} (h : isSpace c = false) (t rest : Text) :
    (t ++ c :: rest).rdropWhile isSpace = t ++ c :: rest.rdropWhile isSpace := by
  induction rest using List.reverseRecOn with
  | nil => exact List.rdropWhile_concat_neg isSpace t c (by simp [h])
  | append_singleton rest d ih =>
      by_cases hd : isSpace d = true
      · rw [← List.cons_append, ← List.append_assoc, List.rdropWhile_concat_pos _ _ _ hd, ih,
          List.rdropWhile_concat_pos _ _ _ hd]
      · rw [← List.cons_append, ← List.append_assoc, List.rdropWhile_concat_neg _ _ _ hd,
          List.rdropWhile_concat_neg _ _ _ hd]
        simp

/-- An IPv6 address with a scope is the address before the scope. -/
theorem v6Int_of_parseV6 {addr scope : Text} (h : '%' ∉ addr) {n : Fin (2 ^ 128)}
    (hparse : parseV6 (addr ++ '%' :: scope) = some n) : v6Int addr = some n.val := by
  rw [parseV6, List.splitOn_append_cons_self_of_not_mem h] at hparse
  split_ifs at hparse
  cases hscope : scope.splitOn '%' with
  | nil => exact absurd hscope (List.splitOn_ne_nil '%' scope)
  | cons first rest =>
      rw [hscope] at hparse
      cases rest with
      | cons second rest => cases hparse
      | nil =>
          dsimp only at hparse
          split_ifs at hparse
          · cases hparse
          · obtain ⟨k, hk, hparse⟩ := Option.bind_eq_some_iff.mp hparse
            split_ifs at hparse
            obtain rfl := Option.some.inj hparse
            exact hk

/-- An address that ends in white space has it in its scope. -/
theorem mem_of_parseV6_space {c : Char} (h : isSpace c = true) {t : Text} {n : Fin (2 ^ 128)}
    (hparse : parseV6 (t ++ [c]) = some n) : '%' ∈ t := by
  by_contra hmem
  have hnot : '%' ∉ t ++ [c] := by
    simpa [hmem] using (isSpace_spec h).2.2.2.2.1.symm
  rw [parseV6, List.splitOn_eq_singleton hnot] at hparse
  split_ifs at hparse
  simp only [v6Int_space h, Option.bind_eq_bind, Option.bind_none] at hparse
  cases hparse

/-- What is read as an IPv6 address only. -/
theorem ipAddress_of_notV4 {t : Text} (h : parseV4 t = none) {x : IPAddress}
    (hx : ipAddress t = some x) : ∃ n, parseV6 t = some n ∧ x = .v6 n := by
  rw [ipAddress, h] at hx
  obtain ⟨n, hn, rfl⟩ := Option.map_eq_some_iff.mp hx
  exact ⟨n, hn, rfl⟩

/-- **Stripping a text does not make it another address.** -/
theorem ipAddress_rdropWhile {t : Text} {x y : IPAddress} (hx : ipAddress t = some x)
    (hy : ipAddress (t.rdropWhile isSpace) = some y) : y = x := by
  cases t using List.reverseRecOn with
  | nil => exact Option.some.inj (hy.symm.trans hx)
  | append_singleton t c =>
      by_cases hc : isSpace c = true
      · obtain ⟨n, hn, rfl⟩ := ipAddress_of_notV4 (parseV4_eq_none
          (List.mem_append_right t (List.mem_singleton_self c)) (isSpace_spec hc).2.2.1
          (isSpace_spec hc).1) hx
        obtain ⟨addr, rest, rfl, haddr⟩ :=
          List.eq_append_cons_of_mem (mem_of_parseV6_space hc hn)
        rw [List.append_assoc, List.cons_append] at hn hy
        rw [rdropWhile_append_cons (by decide)] at hy
        obtain ⟨m, hm, rfl⟩ := ipAddress_of_notV4
          (parseV4_eq_none (List.mem_append_right addr List.mem_cons_self) (by decide)
            (by decide)) hy
        have hnum := (v6Int_of_parseV6 haddr hm).symm.trans (v6Int_of_parseV6 haddr hn)
        exact congrArg IPAddress.v6 (Fin.ext (Option.some.inj hnum))
      · rw [List.rdropWhile_concat_neg _ _ _ hc] at hy
        exact Option.some.inj (hy.symm.trans hx)

/-! ### Range arguments -/

/-- A range: two addresses of one family, the first one no later than the last one and
starting with a digit. -/
structure AddressRange where
  start : Text
  stop : Text
  first : IPAddress
  last : IPAddress
  start_eq : ipAddress start = some first
  stop_eq : ipAddress stop = some last
  sameFamily : first.isV6 = last.isV6
  digit : start.head?.any Char.isDigit = true
  le : first.toInt ≤ last.toInt

/-- The argument `a-b`. -/
def AddressRange.text (r : AddressRange) : Text :=
  r.start ++ '-' :: r.stop

/-- The addresses a range stands for, in the form `range2ips` prints. -/
def AddressRange.addresses (r : AddressRange) : List Text :=
  (r.first.upTo r.last).map IPAddress.exploded

/-- The argument splits in two parts that are still addresses. -/
def AddressRange.Splits (r : AddressRange) : Prop :=
  '-' ∉ r.start ∧ '-' ∉ r.stop ∧ (ipAddress (r.stop.rdropWhile isSpace)).isSome

/-- All numbers of the range are read as addresses of its family. -/
def AddressRange.KeepsFamily (r : AddressRange) : Prop :=
  r.first.isV6 → 2 ^ 32 ≤ r.first.toInt

/-- The address a number is taken for. -/
def guessed (k : ℕ) : IPAddress :=
  if k < 2 ^ 32 then .v4 (Fin.ofNat _ k) else .v6 (Fin.ofNat _ k)

/-- The number of an address is taken for some address. -/
theorem ipAddressOfInt_eq {y : IPAddress} {k : ℕ} (hk : k ≤ y.toInt) :
    ipAddressOfInt k = some (guessed k) := by
  have hlt : k < 2 ^ 128 := by
    cases y with
    | v4 n => exact hk.trans_lt (n.isLt.trans (by decide))
    | v6 n => exact hk.trans_lt n.isLt
  rw [ipAddressOfInt, guessed]
  split_ifs with h
  · exact congrArg (some ∘ IPAddress.v4) (Fin.ext (Nat.mod_eq_of_lt h).symm)
  · exact congrArg (some ∘ IPAddress.v6) (Fin.ext (Nat.mod_eq_of_lt hlt).symm)

/-- `ips` prints what the numbers between its ends are taken for. -/
theorem ips_eq {start stop : Text} {x y : IPAddress} (hx : ipAddress start = some x)
    (hy : ipAddress stop = some y) :
    ips start stop = some ((List.range' x.toInt (y.toInt + 1 - x.toInt)).map
      fun k => (guessed k).exploded) := by
  rw [List.range'_eq_map_range, List.map_map]
  simp only [ips, hx, hy, Option.bind_eq_bind, Option.bind_some]
  refine mapM_eq_some fun i hi => ?_
  have hle : x.toInt + i ≤ y.toInt := by
    have := List.mem_range.mp hi
    omega
  rw [ipAddressOfInt_eq hle]
  rfl

/-- IPv4 and IPv6 addresses look different. -/
theorem exploded_ne (m : Fin (2 ^ 32)) (n : Fin (2 ^ 128)) :
    (IPAddress.v4 m).exploded ≠ (IPAddress.v6 n).exploded := by
  intro h
  have hv6 : ':' ∈ (IPAddress.v6 n).exploded := by
    simp [IPAddress.exploded, List.range_succ, List.intercalate]
  have hv4 : ':' ∉ (IPAddress.v4 m).exploded := by
    have hdigits : ∀ k, ':' ∉ Nat.toDigits 10 k := fun k hmem =>
      absurd (Nat.isDigit_of_mem_toDigits (by decide) (by decide) hmem) (by decide)
    simp [IPAddress.exploded, List.intercalate, hdigits]
  exact hv4 (h ▸ hv6)

/-- **The numbers of a range are taken for its addresses** when they keep the family. -/
theorem AddressRange.guessed_iff (r : AddressRange) :
    (List.range' r.first.toInt (r.last.toInt + 1 - r.first.toInt)).map
        (fun k => (guessed k).exploded) = r.addresses ↔ r.KeepsFamily := by
  rw [AddressRange.addresses, IPAddress.upTo, List.map_map, List.map_inj_left]
  constructor
  · intro h hv6
    by_contra hlow
    have hfirst := h r.first.toInt (mem_numbers.mpr ⟨le_rfl, r.le⟩)
    rw [guessed, if_pos (not_le.mp hlow)] at hfirst
    cases hr : r.first with
    | v4 m =>
        rw [hr] at hv6
        cases hv6
    | v6 m =>
        rw [hr] at hfirst
        exact exploded_ne _ _ hfirst
  · intro h k hk
    obtain ⟨hge, hle⟩ := mem_numbers.mp hk
    have hfamily := r.sameFamily
    cases hr : r.first with
    | v4 m =>
        have hlt : k < 2 ^ 32 := by
          cases hl : r.last with
          | v4 n =>
              rw [hl] at hle
              exact hle.trans_lt n.isLt
          | v6 n =>
              rw [hr, hl] at hfamily
              cases hfamily
        rw [guessed, if_pos hlt]
        rfl
    | v6 m =>
        have hlow : ¬ k < 2 ^ 32 := not_lt.mpr ((h (by rw [hr]; rfl)).trans hge)
        rw [guessed, if_neg hlow]
        rfl

/-- A text with a separator has two parts at least. -/
theorem two_le_length_splitOn {sep : Char} {t : Text} (h : sep ∈ t) :
    2 ≤ (t.splitOn sep).length := by
  obtain ⟨u, v, rfl⟩ := List.append_of_mem h
  rw [List.splitOn_append_cons_self, List.length_append]
  have hu := List.length_pos_of_ne_nil (List.splitOn_ne_nil sep u)
  have hv := List.length_pos_of_ne_nil (List.splitOn_ne_nil sep v)
  omega

/-- Stripping white space leaves the dashes. -/
theorem mem_rdropWhile_iff {c : Char} (h : isSpace c = false) (t : Text) :
    c ∈ t.rdropWhile isSpace ↔ c ∈ t := by
  constructor
  · exact fun hmem => (List.rdropWhile_prefix isSpace t).subset hmem
  · intro hmem
    obtain ⟨u, v, rfl⟩ := List.append_of_mem hmem
    rw [rdropWhile_append_cons h]
    exact List.mem_append_right u List.mem_cons_self

/-- A range starts with a digit. -/
theorem AddressRange.exists_start (r : AddressRange) :
    ∃ c t, r.start = c :: t ∧ c.isDigit = true := by
  have h := r.digit
  cases ht : r.start with
  | nil =>
      rw [ht] at h
      cases h
  | cons c t =>
      rw [ht] at h
      exact ⟨c, t, rfl, h⟩

/-- Stripping a range strips its end. -/
theorem AddressRange.strip_text (r : AddressRange) :
    strip r.text = r.start ++ '-' :: r.stop.rdropWhile isSpace := by
  obtain ⟨c, t, ht, hc⟩ := r.exists_start
  have hspace : ¬ isSpace c = true := fun h => by
    rw [(isSpace_spec h).1] at hc
    cases hc
  have hfront : r.text.dropWhile isSpace = r.text := by
    rw [AddressRange.text, ht, List.cons_append, List.dropWhile_cons_of_neg hspace]
  change (r.text.dropWhile isSpace).rdropWhile isSpace = _
  rw [hfront, AddressRange.text, rdropWhile_append_cons (by decide)]

/-- A range is taken for one. -/
theorem AddressRange.isRange (env : Env) (r : AddressRange) : IsRange env r.text := by
  obtain ⟨c, t, ht, hc⟩ := r.exists_start
  refine ⟨List.mem_append_right r.start List.mem_cons_self, ?_⟩
  rw [AddressRange.text, ht, List.cons_append, List.head?_cons]
  rintro (hdash | halpha)
  · rw [Option.some.inj hdash] at hc
    cases hc
  · have hascii : c.toNat < 128 := by
      have h9 : c.toNat ≤ '9'.toNat := of_decide_eq_true (Bool.and_eq_true_iff.mp hc).2
      exact h9.trans_lt (by decide)
    have halpha : env.chars.isalpha c = true := halpha
    rw [env.chars.isalpha_ascii c hascii] at halpha
    rw [isDigit_eq_false_of_isAlpha halpha] at hc
    cases hc

/-- **What a range becomes**: what its numbers are taken for, when it splits. -/
theorem AddressRange.expandHost_iff (env : Env) (r : AddressRange) {addresses : List Text} :
    expandHost env r.text = .ok addresses ↔
      r.Splits ∧ addresses = (List.range' r.first.toInt (r.last.toInt + 1 - r.first.toInt)).map
        fun k => (guessed k).exploded := by
  have hrange := r.isRange env
  rw [IsRange] at hrange
  rw [expandHost, if_pos hrange, r.strip_text, List.splitOn_append_cons_self]
  by_cases hdash : '-' ∈ r.start ∨ '-' ∈ r.stop
  · have hlen : 2 < (r.start.splitOn '-' ++ (r.stop.rdropWhile isSpace).splitOn '-').length := by
      rw [List.length_append]
      have hstart := List.length_pos_of_ne_nil (List.splitOn_ne_nil '-' r.start)
      have hstop :=
        List.length_pos_of_ne_nil (List.splitOn_ne_nil '-' (r.stop.rdropWhile isSpace))
      rcases hdash with h | h
      · have := two_le_length_splitOn h
        omega
      · have := two_le_length_splitOn ((mem_rdropWhile_iff (by decide) r.stop).mpr h)
        omega
    split
    · rename_i hparts
      rw [hparts] at hlen
      exact absurd hlen (lt_irrefl 2)
    · constructor
      · intro h
        cases h
      · rintro ⟨⟨hstart, hstop, -⟩, -⟩
        exact absurd hdash (not_or.mpr ⟨hstart, hstop⟩)
  · obtain ⟨hstart, hstop⟩ := not_or.mp hdash
    rw [List.splitOn_eq_singleton hstart, List.splitOn_eq_singleton
      (mt (mem_rdropWhile_iff (by decide) r.stop).mp hstop), List.singleton_append]
    cases hlast : ipAddress (r.stop.rdropWhile isSpace) with
    | none =>
        have hnone : ips r.start (r.stop.rdropWhile isSpace) = none := by
          rw [ips, r.start_eq, hlast]
          rfl
        simp only [hnone]
        constructor
        · intro h
          cases h
        · rintro ⟨⟨-, -, hsome⟩, -⟩
          rw [hlast] at hsome
          cases hsome
    | some y =>
        obtain rfl := ipAddress_rdropWhile r.stop_eq hlast
        simp only [ips_eq r.start_eq hlast, Except.ok.injEq]
        constructor
        · rintro rfl
          exact ⟨⟨hstart, hstop, by rw [hlast]; rfl⟩, rfl⟩
        · rintro ⟨-, rfl⟩
          rfl

/-! ### The whole command line -/

/-- An argument: a range, or anything else. -/
inductive Argument
  | plain (text : Text) (notRange : ∀ r : AddressRange, text ≠ r.text)
  | range (r : AddressRange)

namespace Argument

/-- The argument as it is written. -/
def text : Argument → Text
  | plain text _ => text
  | range r => r.text

/-- What the argument stands for. -/
def expected : Argument → List Text
  | plain text _ => [text]
  | range r => r.addresses

end Argument

/-- **Ranges are expanded exactly**: each is replaced in place by its addresses, and
everything else is left as it is. -/
def RangesExpanded (env : Env) (args : List Argument) : Prop :=
  range2ips env (args.map Argument.text) = .ok (args.flatMap Argument.expected)

variable {env : Env}

/-- What is left as it is has not been taken for a range. -/
theorem expandHost_eq_singleton_iff {host : Text} :
    expandHost env host = .ok [host] ↔ ¬ IsRange env host := by
  constructor
  · intro h hrange
    exact dash_notMem_of_isRange hrange h (List.mem_singleton_self host) hrange.1
  · exact expandHost_of_not_isRange

/-- How many texts have a dash. -/
def dashed (texts : List Text) : ℕ :=
  texts.countP fun t => '-' ∈ t

/-- What is taken for a range has no dashes left. -/
theorem dashed_of_isRange {host : Text} {texts : List Text} (hrange : IsRange env host)
    (h : expandHost env host = .ok texts) : dashed texts = 0 :=
  List.countP_eq_zero.mpr fun _ ht => by simpa using dash_notMem_of_isRange hrange h ht

/-- No argument gains a text with a dash. -/
theorem dashed_expandHost_le (arg : Argument) {texts : List Text}
    (h : expandHost env arg.text = .ok texts) : dashed texts ≤ dashed arg.expected := by
  by_cases hrange : IsRange env arg.text
  · rw [dashed_of_isRange hrange h]
    exact Nat.zero_le _
  · cases arg with
    | plain text notRange =>
        rw [expandHost_of_not_isRange hrange] at h
        cases h
        exact le_rfl
    | range r => exact absurd (r.isRange env) hrange

/-- Nor do many. -/
theorem dashed_flatten_le {args : List Argument} {parts : List (List Text)}
    (hmap : (args.map Argument.text).map (expandHost env) = parts.map .ok) :
    dashed parts.flatten ≤ dashed (args.flatMap Argument.expected) := by
  induction args generalizing parts with
  | nil =>
      cases parts with
      | nil => exact le_rfl
      | cons => cases hmap
  | cons arg args ih =>
      cases parts with
      | nil => cases hmap
      | cons texts parts =>
          simp only [List.map_cons, List.cons.injEq] at hmap
          rw [List.flatten_cons, List.flatMap_cons, dashed, dashed, List.countP_append,
            List.countP_append]
          exact Nat.add_le_add (dashed_expandHost_le arg hmap.1) (ih hmap.2)

/-- **Arguments that keep their dashes** have not been taken for ranges: no other argument
can make up for a dash that is gone. -/
theorem not_isRange_of_dashed {args : List Argument} {parts : List (List Text)}
    (hmap : (args.map Argument.text).map (expandHost env) = parts.map .ok)
    (hdashed : dashed parts.flatten = dashed (args.flatMap Argument.expected)) {text : Text}
    {notRange : ∀ r : AddressRange, text ≠ r.text} (hmem : .plain text notRange ∈ args) :
    ¬ IsRange env text := by
  induction args generalizing parts with
  | nil => cases hmem
  | cons arg args ih =>
      cases parts with
      | nil => cases hmap
      | cons texts parts =>
          simp only [List.map_cons, List.cons.injEq] at hmap
          rw [List.flatten_cons, List.flatMap_cons, dashed, dashed, List.countP_append,
            List.countP_append] at hdashed
          have hhead : dashed texts ≤ dashed arg.expected := dashed_expandHost_le arg hmap.1
          have htail := dashed_flatten_le hmap.2
          rw [dashed, dashed] at hhead htail
          rcases List.mem_cons.mp hmem with rfl | hmem
          · intro hrange
            have hgone := dashed_of_isRange hrange hmap.1
            have hone : dashed (Argument.plain text notRange).expected = 1 :=
              List.countP_eq_length.mpr fun t ht => by
                rw [List.mem_singleton.mp ht]
                exact decide_eq_true hrange.1
            rw [dashed] at hgone hone
            omega
          · exact ih hmap.2 (by rw [dashed, dashed]; omega) hmem

/-- An argument becomes as many texts as it stands for, unless it is wrongly taken for a
range. -/
theorem length_expandHost {arg : Argument} {texts : List Text}
    (hplain : ∀ text notRange, arg = .plain text notRange → ¬ IsRange env text)
    (h : expandHost env arg.text = .ok texts) : texts.length = arg.expected.length := by
  cases arg with
  | plain text notRange =>
      rw [Argument.text, expandHost_of_not_isRange (hplain text notRange rfl)] at h
      rw [← Except.ok.inj h]
      rfl
  | range r =>
      rw [((r.expandHost_iff env).mp h).2, Argument.expected, AddressRange.addresses,
        IPAddress.upTo, List.map_map, List.length_map, List.length_map]

/-- **The whole list is right when every argument is**: the counts leave no room for one
argument to make up for another. -/
theorem rangesExpanded_iff_forall {args : List Argument} :
    RangesExpanded env args ↔ ∀ arg ∈ args, expandHost env arg.text = .ok arg.expected := by
  constructor
  · intro h
    obtain ⟨parts, hparts, hflat⟩ := ok_of_bind h
    replace hflat : parts.flatten = args.flatMap Argument.expected := Except.ok.inj hflat
    have hmap := mapM_eq_ok_iff.mp hparts
    have hplain : ∀ arg ∈ args, ∀ text notRange, arg = .plain text notRange →
        ¬ IsRange env text := by
      rintro arg hmem text notRange rfl
      exact not_isRange_of_dashed hmap (congrArg dashed hflat) hmem
    clear h hparts
    induction args generalizing parts with
    | nil => exact fun _ harg => nomatch harg
    | cons arg args ih =>
        cases parts with
        | nil => cases hmap
        | cons texts parts =>
            obtain ⟨hhead, htail⟩ := List.forall_mem_cons.mp hplain
            simp only [List.map_cons, List.cons.injEq] at hmap
            rw [List.flatten_cons, List.flatMap_cons] at hflat
            obtain ⟨rfl, hrest⟩ := List.append_inj hflat (length_expandHost hhead hmap.1)
            exact List.forall_mem_cons.mpr ⟨hmap.1, ih parts hrest hmap.2 htail⟩
  · intro h
    refine bind_eq_ok_iff.mpr ⟨args.map Argument.expected, mapM_eq_ok_iff.mpr ?_, ?_⟩
    · rw [List.map_map, List.map_map]
      exact List.map_congr_left h
    · rw [← List.flatMap_def]
      rfl

/-- **When `range2ips` expands ranges exactly.** -/
theorem rangesExpanded_iff (env : Env) (args : List Argument) :
    RangesExpanded env args ↔
      (∀ text notRange, .plain text notRange ∈ args → ¬ IsRange env text) ∧
        ∀ r, .range r ∈ args → r.Splits ∧ r.KeepsFamily := by
  rw [rangesExpanded_iff_forall]
  constructor
  · intro h
    refine ⟨fun text notRange hmem => expandHost_eq_singleton_iff.mp (h _ hmem), fun r hr => ?_⟩
    obtain ⟨hsplits, heq⟩ := (r.expandHost_iff env).mp (h _ hr)
    exact ⟨hsplits, r.guessed_iff.mp heq.symm⟩
  · rintro ⟨hplain, hranges⟩ arg harg
    cases arg with
    | plain text notRange => exact expandHost_of_not_isRange (hplain text notRange harg)
    | range r =>
        obtain ⟨hsplits, hfamily⟩ := hranges r harg
        exact (r.expandHost_iff env).mpr ⟨hsplits, (r.guessed_iff.mpr hfamily).symm⟩

/-- The range from `0::1` to `0::2`. -/
def lowRange : AddressRange where
  start := "0::1".toList
  stop := "0::2".toList
  first := .v6 1
  last := .v6 2
  start_eq := rfl
  stop_eq := rfl
  sameFamily := rfl
  digit := rfl
  le := by decide

/-- An IPv6 range that starts below 2³² comes out with IPv4 addresses. -/
theorem rangesExpanded_fails :
    ¬ ∀ (env : Env) (args : List Argument), RangesExpanded env args := by
  intro h
  have hlow := h .default [.range lowRange]
  have hcode : range2ips .default [lowRange.text] = .ok ["0.0.0.1".toList, "0.0.0.2".toList] :=
    rfl
  have hexpected : Except.ok ["0.0.0.1".toList, "0.0.0.2".toList] = .ok lowRange.addresses :=
    hcode.symm.trans hlow
  exact absurd (Except.ok.inj hexpected) (by decide)

end Kubespray.Inventory
