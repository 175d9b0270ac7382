import Kubespray.Etcd.Members
import Kubespray.Library.LineEdit
import Kubespray.Library.OrderedDict
import Kubespray.Library.Words

/-!
# The Localhost Entries of `/etc/hosts`

The tasks read the names that `/etc/hosts` has for the two addresses of the host itself,
take away those that are not expected, add those that are and write one line for each
address. A line is read when its address is followed by a space; the line that is replaced is
the last one that begins like the address, whatever follows, and to both the dots of an
address stand for any character.

A hosts file is its lines. Its only white space are spaces and tabs, and what follows a `#`
is a comment. Names are compared without regard to case, as the filter `unique` does.

## Main results

* `get?_existingEntries`: the names that are read.
* `preserves_iff`: when no name and no other line is lost.
-/

namespace Kubespray.Preinstall

open Etcd LineEdit LineSearch OrderedDict Words

/-! ### Lines of a hosts file -/

/-- The address and the names of a line. -/
def hostFields (line : Text) : List Text :=
  words isBlank (line.takeWhile (· ≠ '#'))

/-- The address of a line. -/
def hostAddress (line : Text) : Option Text :=
  (hostFields line).head?

/-- The names of a line. -/
def hostNames (line : Text) : List Text :=
  (hostFields line).tail

/-- `str.lower`, for the characters of host names. -/
def lower (name : Text) : Text :=
  name.map Char.toLower

/-- A name is among some names. -/
def Listed (name : Text) (names : List Text) : Prop :=
  ∃ n ∈ names, lower n = lower name

/-- A name is mapped to an address. -/
def Mapped (lines : List Text) (address name : Text) : Prop :=
  ∃ line ∈ lines, hostAddress line = some address ∧ Listed name (hostNames line)

/-! ### The tasks -/

/-- The keys of `etc_hosts_localhost_entries`. -/
inductive Localhost
  | ipv4
  | ipv6
  deriving DecidableEq

/-- The address of a key. -/
def Localhost.key : Localhost → Text
  | .ipv4 => "127.0.0.1".toList
  | .ipv6 => "::1".toList

/-- A word that is not a comment. -/
def isName (name : Text) : Bool :=
  !name.isEmpty && name.all fun c => !isBlank c && c ≠ '#'

/-- A value of `etc_hosts_localhost_entries`. -/
structure LocalhostEntry where
  expected : List Text
  unexpected : List Text
  isName_expected : ∀ name ∈ expected, isName name = true

/-- `etc_hosts_localhost_entries`. -/
def etcHostsLocalhostEntries : Localhost → LocalhostEntry
  | .ipv4 =>
    { expected := ["localhost".toList, "localhost.localdomain".toList]
      unexpected := []
      isName_expected := by decide }
  | .ipv6 =>
    { expected := ["localhost6".toList, "localhost6.localdomain".toList]
      unexpected := ["localhost".toList, "localhost.localdomain".toList]
      isName_expected := by decide }

/-- A name is a word without the start of a comment. -/
theorem isName_iff {name : Text} : isName name = true ↔
    name ≠ [] ∧ ∀ c ∈ name, isBlank c = false ∧ c ≠ '#' := by
  simp [isName]

/-- `regex_replace('[ \t]+', ' ')`, inside a run of blanks or not. -/
def squeezeBlanks : Bool → Text → Text
  | _, [] => []
  | inside, c :: t =>
    if isBlank c then
      if inside then squeezeBlanks true t else ' ' :: squeezeBlanks true t
    else c :: squeezeBlanks false t

/-- `splitted`. -/
def splitted (item : Text) : List Text :=
  (strip ((squeezeBlanks false item).takeWhile (· ≠ '#'))).splitOn ' '

/-- `item is match('^::1 .*') or item is match('^127.0.0.1 .*')`. -/
def isLocalhostLine (item : Text) : Bool :=
  matchesHere (addressPattern "::1 ".toList) item ||
    matchesHere (addressPattern "127.0.0.1 ".toList) item

/-- `etc_hosts_localhosts_dict`. -/
def existingEntries (lines : List Text) : OrderedDict Text (List Text) :=
  ofList ((lines.filter isLocalhostLine).map fun item =>
    ((splitted item).headD [], (splitted item).tail))

/-- The filter `unique`: of the values that it does not tell apart the first one stays. -/
def unique (compared : Text → Text) : List Text → List Text
  | [] => []
  | name :: names =>
    name :: (unique compared names).filter fun n => compared n ≠ compared name

/-- The filter `difference`. -/
def difference (names others : List Text) : List Text :=
  unique id (names.filter (· ∉ others))

/-- The value of `etc_hosts_localhosts_dict_target`. -/
def targetNames (entry : LocalhostEntry) (existing : List Text) : List Text :=
  unique lower (difference existing entry.unexpected ++ entry.expected)

/-- The line for an address. -/
def targetLine (entries : Localhost → LocalhostEntry) (lines : List Text) (k : Localhost) : Text :=
  k.key ++ ' ' :: [' '].intercalate
    (targetNames (entries k) (((existingEntries lines).get? k.key).getD []))

/-- `regexp: "^{{ item.key }}.*$"`. -/
def regexpMatches (k : Localhost) (line : Text) : Bool :=
  matchesHere (addressPattern k.key) line

/-- `Update (if necessary) hosts file`, after the two tasks before it. -/
def updateHosts (entries : Localhost → LocalhostEntry) (lines : List Text) : List Text :=
  [Localhost.ipv4, .ipv6].foldl
    (fun ls k => ensureLine (regexpMatches k) (targetLine entries lines k) ls) lines

/-! ### What is read from a line -/

/-- The white space of a line are spaces and tabs. -/
def PlainLine (line : Text) : Prop :=
  ∀ c ∈ line, isSpace c = true → isBlank c = true

instance (line : Text) : Decidable (PlainLine line) :=
  decidable_of_iff ((line.all fun c => !isSpace c || isBlank c) = true) (by
    simp only [List.all_eq_true, Bool.or_eq_true, Bool.not_eq_true', PlainLine]
    refine forall₂_congr fun c _ => ?_
    cases isSpace c <;> simp)

/-- A comment is the same before and after the blanks are squeezed. -/
theorem takeWhile_squeezeBlanks (inside : Bool) (t : Text) :
    (squeezeBlanks inside t).takeWhile (· ≠ '#')
      = squeezeBlanks inside (t.takeWhile (· ≠ '#')) := by
  induction t generalizing inside with
  | nil => rfl
  | cons c t ih =>
      by_cases hblank : isBlank c = true
      · have hc : c ≠ '#' := by
          rintro rfl
          cases hblank
        rw [List.takeWhile_cons_of_pos (by simp [hc]), squeezeBlanks, squeezeBlanks, if_pos hblank,
          if_pos hblank]
        cases inside with
        | true => exact ih true
        | false => exact (List.takeWhile_cons_of_pos rfl).trans (congrArg _ (ih true))
      · rw [squeezeBlanks, if_neg hblank]
        by_cases hc : c = '#'
        · rw [List.takeWhile_cons_of_neg (by simp [hc]), List.takeWhile_cons_of_neg (by simp [hc]),
            squeezeBlanks]
        · rw [List.takeWhile_cons_of_pos (by simp [hc]), List.takeWhile_cons_of_pos (by simp [hc]),
            squeezeBlanks, if_neg hblank, ih]

/-- A word has no blanks to squeeze. -/
theorem squeezeBlanks_append {w : Text} (hw : ∀ c ∈ w, isBlank c = false) (hne : w ≠ [])
    (inside : Bool) (t : Text) :
    squeezeBlanks inside (w ++ t) = w ++ squeezeBlanks false t := by
  induction w generalizing inside with
  | nil => exact absurd rfl hne
  | cons c w ih =>
      obtain ⟨hc, hw⟩ := List.forall_mem_cons.mp hw
      rw [List.cons_append, squeezeBlanks, if_neg (by simp [hc])]
      cases w with
      | nil => rfl
      | cons d w => exact congrArg _ (ih hw (List.cons_ne_nil d w) false)

/-- After a blank, what is left are the words with one space between them, and perhaps one
behind them. -/
theorem squeezeBlanks_true (t : Text) :
    ∃ trail, (trail = [] ∨ trail = [' ']) ∧
      squeezeBlanks true t
        = [' '].intercalate (words isBlank t) ++ (if words isBlank t = [] then [] else trail) := by
  induction t using word_induction isBlank with
  | nil => exact ⟨[], Or.inl rfl, rfl⟩
  | separator c t hc ih =>
      rw [squeezeBlanks, if_pos hc, words_cons hc]
      exact ih
  | word w hne hw =>
      refine ⟨[], Or.inl rfl, ?_⟩
      have hsqueeze := squeezeBlanks_append hw hne true []
      rw [List.append_nil] at hsqueeze
      rw [words_of_word hne hw, List.intercalate_singleton, hsqueeze]
      simp [squeezeBlanks]
  | cons w c t hne hw hc ih =>
      obtain ⟨trail, htrail, ih⟩ := ih
      rw [squeezeBlanks_append hw hne, squeezeBlanks, if_pos hc, words_word_append hne hw hc]
      cases hwords : words isBlank t with
      | nil =>
          rw [hwords] at ih
          refine ⟨[' '], Or.inr rfl, ?_⟩
          simp only [Bool.false_eq_true, if_false, ih]
          simp
      | cons u us =>
          rw [hwords] at ih
          refine ⟨trail, htrail, ?_⟩
          simp only [Bool.false_eq_true, if_false, ih]
          simp [List.intercalate_cons_cons]

/-- Words with one space between them begin and end with characters of words. -/
theorem intercalate_ends {ws : List Text} (hne : ws ≠ [])
    (hws : ∀ w ∈ ws, w ≠ [] ∧ ∀ c ∈ w, isSpace c = false) :
    ∃ c d, ([' '].intercalate ws).head? = some c ∧ isSpace c = false ∧
      ([' '].intercalate ws).getLast? = some d ∧ isSpace d = false := by
  induction ws with
  | nil => exact absurd rfl hne
  | cons w ws ih =>
      obtain ⟨hw, hchars⟩ := hws w List.mem_cons_self
      obtain ⟨c, rest, rfl⟩ := List.exists_cons_of_ne_nil hw
      refine ⟨c, ?_⟩
      cases ws with
      | nil =>
          refine ⟨(c :: rest).getLast hw, rfl, hchars c List.mem_cons_self, ?_, ?_⟩
          · rw [List.intercalate_singleton, List.getLast?_eq_getLast_of_ne_nil hw]
          · exact hchars _ (List.getLast_mem hw)
      | cons w' ws =>
          obtain ⟨_, d, -, -, hlast, hd⟩ :=
            ih (List.cons_ne_nil w' ws) fun x hx => hws x (List.mem_cons_of_mem _ hx)
          refine ⟨d, ?_, hchars c List.mem_cons_self, ?_, hd⟩
          · rw [List.intercalate_cons_cons]
            rfl
          · rw [List.intercalate_cons_cons, List.append_assoc, List.getLast?_append,
              List.getLast?_append, hlast]
            rfl

/-- **What is read from a line** are its address and its names. -/
theorem splitted_eq {line : Text} (hplain : PlainLine line) (hne : hostFields line ≠ []) :
    splitted line = hostFields line := by
  set t := line.takeWhile (· ≠ '#') with ht
  have hwords : ∀ w ∈ words isBlank t, w ≠ [] ∧ ∀ c ∈ w, isBlank c = false ∧ isSpace c = false := by
    intro w hw
    obtain ⟨hwne, hchars⟩ := of_mem_words hw
    refine ⟨hwne, fun c hc => ⟨(hchars c hc).1, Bool.eq_false_iff.mpr fun hspace => ?_⟩⟩
    have hline : c ∈ line := (List.takeWhile_prefix _).subset (hchars c hc).2
    have hblank := (hchars c hc).1
    rw [hplain c hline hspace] at hblank
    cases hblank
  rw [hostFields, ← ht] at hne ⊢
  obtain ⟨trail, htrail, hsqueeze⟩ := squeezeBlanks_true t
  rw [if_neg hne] at hsqueeze
  obtain ⟨lead, hlead, hfalse⟩ : ∃ lead, (lead = [] ∨ lead = [' ']) ∧
      squeezeBlanks false t = lead ++ squeezeBlanks true t := by
    cases t with
    | nil => exact ⟨[], Or.inl rfl, rfl⟩
    | cons c t =>
        by_cases hblank : isBlank c = true
        · exact ⟨[' '], Or.inr rfl, by simp [squeezeBlanks, hblank]⟩
        · exact ⟨[], Or.inl rfl, by simp [squeezeBlanks, hblank]⟩
  have hspaces : ∀ s : Text, s = [] ∨ s = [' '] → ∀ c ∈ s, isSpace c = true := by
    rintro s (rfl | rfl)
    · exact fun c hc => (by cases hc)
    · exact List.forall_mem_singleton.mpr rfl
  obtain ⟨c, d, hhead, hc, hlast, hd⟩ :=
    intercalate_ends hne fun w hw => ⟨(hwords w hw).1, fun c hc => ((hwords w hw).2 c hc).2⟩
  rw [splitted, takeWhile_squeezeBlanks, ← ht, hfalse, hsqueeze, ← List.append_assoc,
    strip_append (hspaces lead hlead) (hspaces trail htrail) hhead hc hlast hd]
  refine List.splitOn_intercalate ' ' (fun w hw hmem => ?_) hne
  have hblank := ((hwords w hw).2 ' ' hmem).1
  cases hblank

/-! ### Which lines are read, and which are replaced -/

/-- The address stands at the start of the line, with a space behind it. -/
def spaced (k : Localhost) (line : Text) : Bool :=
  decide (k.key ++ [' '] <+: line)

/-- The addresses are words without the start of a comment. -/
theorem key_word (k : Localhost) :
    k.key ≠ [] ∧ ∀ c ∈ k.key, isBlank c = false ∧ c ≠ '#' := by
  have hname : isName k.key = true := by cases k <;> rfl
  exact isName_iff.mp hname

/-- The address of a line that begins with one. -/
theorem hostAddress_of_head {line : Text} {c : Char} (hhead : line.head? = some c)
    (hblank : isBlank c = false) (hc : c ≠ '#') :
    ∃ address, hostAddress line = some address ∧ address <+: line ∧ address.head? = some c := by
  obtain ⟨rest, rfl⟩ := List.head?_eq_some_iff.mp hhead
  have htake : (c :: rest).takeWhile (· ≠ '#') = c :: rest.takeWhile (· ≠ '#') :=
    List.takeWhile_cons_of_pos (by simp [hc])
  refine ⟨_, head?_words (c := c) (by rw [htake]; rfl) hblank, ?_, ?_⟩
  · exact (List.takeWhile_prefix _).trans (List.takeWhile_prefix _)
  · rw [htake, List.takeWhile_cons_of_pos (by simp [hblank])]
    rfl

/-- What a line has that begins like an address. -/
theorem head?_of_matches {k : Localhost} (rest : Text) {line : Text}
    (h : matchesHere (addressPattern (k.key ++ rest)) line = true) :
    line.head? = k.key.head? := by
  cases line with
  | nil => cases k <;> cases h
  | cons c line =>
      have hchar : ∀ p : Char, p ≠ '.' → patternChar p c = true → c = p := by
        intro p hp h
        simp only [patternChar, hp, decide_false, Bool.false_or, decide_eq_true_eq] at h
        exact h.symm
      cases k with
      | ipv4 => exact congrArg some (hchar '1' (by decide) (Bool.and_eq_true_iff.mp h).1)
      | ipv6 => exact congrArg some (hchar ':' (by decide) (Bool.and_eq_true_iff.mp h).1)

/-- The addresses begin with different characters. -/
theorem eq_of_head?_eq {k k' : Localhost} (h : k.key.head? = k'.key.head?) : k = k' := by
  cases k <;> cases k' <;> first | rfl | exact absurd h (by decide)

/-- A line that begins like an address has one that begins so. -/
theorem hostAddress_of_matches {k : Localhost} (rest : Text) {line : Text}
    (h : matchesHere (addressPattern (k.key ++ rest)) line = true) :
    ∃ address, hostAddress line = some address ∧ address <+: line ∧
      address.head? = k.key.head? := by
  have hhead := head?_of_matches rest h
  cases k with
  | ipv4 => exact hostAddress_of_head hhead rfl (by decide)
  | ipv6 => exact hostAddress_of_head hhead rfl (by decide)

/-- A line that begins like one address is not one for the other. -/
theorem eq_of_hostAddress {k k' : Localhost} (rest : Text) {line : Text}
    (h : matchesHere (addressPattern (k.key ++ rest)) line = true)
    (haddress : hostAddress line = some k'.key) : k = k' := by
  obtain ⟨address, heq, -, hhead⟩ := hostAddress_of_matches rest h
  obtain rfl : k'.key = address := Option.some.inj (haddress.symm.trans heq)
  exact eq_of_head?_eq hhead.symm

/-- A text matches the pattern that is made of it. -/
theorem matches_of_prefix {text line : Text} (h : text <+: line) :
    matchesHere (addressPattern text) line = true :=
  matchesHere_iff.mpr ⟨text, h, matches_map_self patternChar_refl text⟩

/-- A line with a space behind the address is one for it. -/
theorem hostAddress_of_spaced {k : Localhost} {line : Text} (h : spaced k line = true) :
    hostAddress line = some k.key ∧ regexpMatches k line = true := by
  have hprefix : k.key ++ [' '] <+: line := of_decide_eq_true h
  refine ⟨?_, matches_of_prefix ((List.prefix_append _ _).trans hprefix)⟩
  obtain ⟨rest, rfl⟩ := hprefix
  obtain ⟨hne, hkey⟩ := key_word k
  rw [hostAddress, hostFields, List.append_assoc,
    List.takeWhile_append_of_pos (by simpa using fun c hc => (hkey c hc).2), List.singleton_append,
    List.takeWhile_cons_of_pos rfl, words_word_append hne (fun c hc => (hkey c hc).1) rfl,
    List.head?_cons]

/-- **The lines that are read for an address** are those with a space behind it. -/
theorem isLocalhostLine_iff {k : Localhost} {line : Text} :
    (isLocalhostLine line = true ∧ hostAddress line = some k.key) ↔ spaced k line = true := by
  constructor
  · rintro ⟨hline, haddress⟩
    have hmatch : matchesHere (addressPattern (k.key ++ [' '])) line = true := by
      rcases Bool.or_eq_true_iff.mp hline with h | h
      · obtain rfl := eq_of_hostAddress (k := .ipv6) [' '] h haddress
        exact h
      · obtain rfl := eq_of_hostAddress (k := .ipv4) [' '] h haddress
        exact h
    obtain ⟨address, heq, hprefix, -⟩ := hostAddress_of_matches [' '] hmatch
    obtain rfl : k.key = address := Option.some.inj (haddress.symm.trans heq)
    obtain ⟨text, htext, hmatches⟩ := matchesHere_iff.mp hmatch
    rw [addressPattern, List.map_append] at hmatches
    obtain ⟨u, v, rfl, hu, hv⟩ := matches_append_iff.mp hmatches
    have hlength : u.length = k.key.length := by
      rw [← List.Forall₂.length_eq hu, List.length_map]
    obtain rfl : u = k.key :=
      List.prefix_of_prefix_length_le ((List.prefix_append u v).trans htext) hprefix hlength.le
        |>.eq_of_length hlength
    cases hv with
    | cons hc hnil =>
        cases hnil
        simp only [patternChar, Char.reduceEq, decide_false, Bool.false_or, decide_eq_true_eq] at hc
        subst hc
        exact decide_eq_true htext
  · intro h
    refine ⟨?_, (hostAddress_of_spaced h).1⟩
    have hmatch := matches_of_prefix (of_decide_eq_true h)
    rw [isLocalhostLine, Bool.or_eq_true_iff]
    cases k with
    | ipv4 => exact Or.inr hmatch
    | ipv6 => exact Or.inl hmatch

/-- **The names that are read** are those of the last line that is. -/
theorem get?_existingEntries {lines : List Text} (hplain : ∀ line ∈ lines, PlainLine line)
    (k : Localhost) :
    (existingEntries lines).get? k.key = (lastLine (spaced k) lines).map hostNames := by
  have hread : ∀ line ∈ lines.filter isLocalhostLine, splitted line = hostFields line := by
    intro line hmem
    obtain ⟨hline, hselected⟩ := List.mem_filter.mp hmem
    refine splitted_eq (hplain line hline) fun hnil => ?_
    have haddress : ∃ address, hostAddress line = some address := by
      rcases Bool.or_eq_true_iff.mp hselected with h | h
      · obtain ⟨address, heq, -⟩ := hostAddress_of_matches (k := .ipv6) [' '] h
        exact ⟨address, heq⟩
      · obtain ⟨address, heq, -⟩ := hostAddress_of_matches (k := .ipv4) [' '] h
        exact ⟨address, heq⟩
    obtain ⟨address, heq⟩ := haddress
    rw [hostAddress, hnil] at heq
    cases heq
  have hkey : ∀ line ∈ lines, (isLocalhostLine line &&
      decide ((splitted line).headD [] = k.key)) = spaced k line := by
    intro line hmem
    rw [Bool.eq_iff_iff, ← isLocalhostLine_iff, Bool.and_eq_true_iff, decide_eq_true_eq]
    refine and_congr_right fun hselected => ?_
    rw [hread line (List.mem_filter.mpr ⟨hmem, hselected⟩), hostAddress]
    cases hostFields line with
    | nil => exact iff_of_false (by cases k <;> decide) (by simp)
    | cons address names => simp
  rw [existingEntries, ofList, get?_foldl_set, get?_empty, Option.or_none, List.filter_map,
    List.filter_filter, List.getLast?_map, Option.map_map, lastLine]
  have hfilter : lines.filter (fun line => ((fun x : Text × List Text => decide (x.1 = k.key)) ∘
      fun item => ((splitted item).headD [], (splitted item).tail)) line && isLocalhostLine line)
      = lines.filter (spaced k) :=
    List.filter_congr fun line hmem => (Bool.and_comm _ _).trans (hkey line hmem)
  rw [hfilter]
  refine Option.map_congr fun line hlast => ?_
  obtain ⟨hmem, hspaced⟩ := lastLine_qualifies (p := spaced k) hlast
  have hline := (isLocalhostLine_iff.mpr hspaced).1
  exact congrArg List.tail (hread line (List.mem_filter.mpr ⟨hmem, hline⟩))

/-! ### What is written -/

/-- The filter adds no names. -/
theorem mem_of_mem_unique {compared : Text → Text} {name : Text} {names : List Text}
    (h : name ∈ unique compared names) : name ∈ names := by
  induction names with
  | nil => cases h
  | cons n names ih =>
      rcases List.mem_cons.mp h with rfl | h
      · exact List.mem_cons_self
      · exact List.mem_cons_of_mem _ (ih (List.mem_of_mem_filter h))

/-- It keeps one of the names that it does not tell apart. -/
theorem exists_mem_unique (compared : Text → Text) {name : Text} {names : List Text}
    (h : name ∈ names) : ∃ n ∈ unique compared names, compared n = compared name := by
  induction names with
  | nil => cases h
  | cons n names ih =>
      rcases List.mem_cons.mp h with rfl | h
      · exact ⟨name, List.mem_cons_self, rfl⟩
      · obtain ⟨m, hm, heq⟩ := ih h
        by_cases hsame : compared m = compared n
        · exact ⟨n, List.mem_cons_self, hsame.symm.trans heq⟩
        · exact ⟨m, List.mem_cons_of_mem _ (List.mem_filter.mpr ⟨hm, by simp [hsame]⟩), heq⟩

/-- The filter `difference` leaves the names that are not taken away. -/
theorem mem_difference {name : Text} {names others : List Text} :
    name ∈ difference names others ↔ name ∈ names ∧ name ∉ others := by
  have hfilter : name ∈ names.filter (· ∉ others) ↔ name ∈ names ∧ name ∉ others := by
    rw [List.mem_filter, decide_eq_true_eq]
  rw [← hfilter]
  constructor
  · exact mem_of_mem_unique
  · intro h
    obtain ⟨n, hn, heq⟩ := exists_mem_unique id h
    obtain rfl : n = name := heq
    exact hn

/-- **The names that are written**: the expected ones, and those that were read and are not
unexpected. -/
theorem listed_targetNames {entry : LocalhostEntry} {existing : List Text} {name : Text} :
    Listed name (targetNames entry existing) ↔
      (∃ n ∈ existing, n ∉ entry.unexpected ∧ lower n = lower name) ∨
        Listed name entry.expected := by
  constructor
  · rintro ⟨n, hn, heq⟩
    rcases List.mem_append.mp (mem_of_mem_unique hn) with hn | hn
    · obtain ⟨hexisting, hunexpected⟩ := mem_difference.mp hn
      exact Or.inl ⟨n, hexisting, hunexpected, heq⟩
    · exact Or.inr ⟨n, hn, heq⟩
  · intro h
    obtain ⟨n, hn, heq⟩ : ∃ n ∈ difference existing entry.unexpected ++ entry.expected,
        lower n = lower name := by
      rcases h with ⟨n, hn, hunexpected, heq⟩ | ⟨n, hn, heq⟩
      · exact ⟨n, List.mem_append_left _ (mem_difference.mpr ⟨hn, hunexpected⟩), heq⟩
      · exact ⟨n, List.mem_append_right _ hn, heq⟩
    obtain ⟨m, hm, hsame⟩ := exists_mem_unique lower hn
    exact ⟨m, hm, hsame.trans heq⟩

/-- The names of a line are names. -/
theorem isName_of_mem_hostNames {name line : Text} (h : name ∈ hostNames line) :
    isName name = true := by
  obtain ⟨hne, hchars⟩ := of_mem_words (List.mem_of_mem_tail h)
  refine isName_iff.mpr ⟨hne, fun c hc => ⟨(hchars c hc).1, ?_⟩⟩
  simpa using List.mem_takeWhile_imp (hchars c hc).2

/-- A line that is written reads back. -/
theorem hostFields_line (k : Localhost) {names : List Text}
    (hnames : ∀ name ∈ names, isName name = true) :
    hostFields (k.key ++ ' ' :: [' '].intercalate names) = k.key :: names := by
  obtain ⟨hne, hkey⟩ := key_word k
  have hjoin : ∀ c ∈ [' '].intercalate names, c ≠ '#' := by
    induction names with
    | nil => exact fun c hc => (by cases hc)
    | cons name names ih =>
        obtain ⟨hname, hnames⟩ := List.forall_mem_cons.mp hnames
        intro c hc
        cases names with
        | nil =>
            rw [List.intercalate_singleton] at hc
            exact ((isName_iff.mp hname).2 c hc).2
        | cons name' names =>
            rw [List.intercalate_cons_cons, List.append_assoc, List.mem_append, List.mem_append,
              List.mem_singleton] at hc
            rcases hc with hc | rfl | hc
            · exact ((isName_iff.mp hname).2 c hc).2
            · decide
            · exact ih hnames c hc
  have hall : (k.key ++ ' ' :: [' '].intercalate names).takeWhile (· ≠ '#')
      = k.key ++ ' ' :: [' '].intercalate names := by
    refine List.takeWhile_eq_self_iff.mpr fun c hc => decide_eq_true ?_
    rcases List.mem_append.mp hc with hc | hc
    · exact (hkey c hc).2
    · rcases List.mem_cons.mp hc with rfl | hc
      · decide
      · exact hjoin c hc
  rw [hostFields, hall, words_word_append hne (fun c hc => (hkey c hc).1) rfl,
    words_intercalate rfl fun name hname =>
      ⟨(isName_iff.mp (hnames name hname)).1, fun c hc =>
        ((isName_iff.mp (hnames name hname)).2 c hc).1⟩]

/-! ### The hosts file afterwards -/

/-- The names that were read for an address. -/
def existingNames (lines : List Text) (k : Localhost) : List Text :=
  ((lastLine (spaced k) lines).map hostNames).getD []

/-- The line that is written for an address has it, and the names. -/
theorem hostFields_targetLine (entries : Localhost → LocalhostEntry) {lines : List Text}
    (hplain : ∀ line ∈ lines, PlainLine line) (k : Localhost) :
    hostFields (targetLine entries lines k)
      = k.key :: targetNames (entries k) (existingNames lines k) := by
  rw [targetLine, get?_existingEntries hplain, ← existingNames]
  refine hostFields_line k fun name hname => ?_
  rcases List.mem_append.mp (mem_of_mem_unique hname) with hname | hname
  · have hexisting := (mem_difference.mp hname).1
    rw [existingNames] at hexisting
    cases hlast : lastLine (spaced k) lines with
    | none =>
        rw [hlast] at hexisting
        cases hexisting
    | some line =>
        rw [hlast] at hexisting
        exact isName_of_mem_hostNames hexisting
  · exact (entries k).isName_expected name hname

/-- A line for another address, or for none. -/
def otherAddress (line : Text) : Bool :=
  hostAddress line ≠ some Localhost.ipv4.key && hostAddress line ≠ some Localhost.ipv6.key

theorem otherAddress_iff {line : Text} :
    otherAddress line = true ↔ ∀ k : Localhost, hostAddress line ≠ some k.key := by
  rw [otherAddress, Bool.and_eq_true, decide_eq_true_eq, decide_eq_true_eq]
  constructor
  · rintro ⟨h4, h6⟩ (_ | _)
    · exact h4
    · exact h6
  · exact fun h => ⟨h .ipv4, h .ipv6⟩

/-- The names of the two addresses are kept, the expected ones added, and the lines for other
addresses left as they were. -/
structure Preserves (entries : Localhost → LocalhostEntry) (lines lines' : List Text) : Prop where
  kept : ∀ (k : Localhost), ∀ line ∈ lines, hostAddress line = some k.key →
    ∀ name ∈ hostNames line, name ∉ (entries k).unexpected → Mapped lines' k.key name
  added : ∀ (k : Localhost), ∀ name ∈ (entries k).expected, Mapped lines' k.key name
  others : lines'.filter otherAddress = lines.filter otherAddress

/-- The line that is replaced may be: it is one for the address, and it is the one that was
read or has no names that would be missed. -/
def Replaceable (entry : LocalhostEntry) (k : Localhost) (lines : List Text) : Prop :=
  ∀ line, lastLine (regexpMatches k) lines = some line →
    hostAddress line = some k.key ∧
      (spaced k line = true ∨
        ∀ name ∈ hostNames line, name ∉ entry.unexpected →
          Listed name entry.expected ∨ Mapped (otherLines (regexpMatches k) lines) k.key name)

/-- No line begins like both addresses. -/
theorem regexpMatches_of_ne {k k' : Localhost} (hne : k ≠ k') {line : Text}
    (h : regexpMatches k line = true) : regexpMatches k' line = false := by
  refine Bool.eq_false_iff.mpr fun h' => hne (eq_of_head?_eq ?_)
  rw [← head?_of_matches [] (by rw [List.append_nil]; exact h),
    ← head?_of_matches [] (by rw [List.append_nil]; exact h')]

/-- A line for one address does not begin like the other one. -/
theorem regexpMatches_of_hostAddress {k k' : Localhost} (hne : k ≠ k') {line : Text}
    (h : hostAddress line = some k.key) : regexpMatches k' line = false :=
  Bool.eq_false_iff.mpr fun h' =>
    hne (eq_of_hostAddress [] (by rw [List.append_nil]; exact h') h).symm

/-- Only the lines for an address count. -/
theorem mapped_congr {ls ls' : List Text} {address name : Text}
    (h : ∀ line, hostAddress line = some address → (line ∈ ls ↔ line ∈ ls')) :
    Mapped ls address name ↔ Mapped ls' address name := by
  constructor
  · rintro ⟨line, hmem, haddress, hlisted⟩
    exact ⟨line, (h line haddress).mp hmem, haddress, hlisted⟩
  · rintro ⟨line, hmem, haddress, hlisted⟩
    exact ⟨line, (h line haddress).mpr hmem, haddress, hlisted⟩

section Update

variable (entries : Localhost → LocalhostEntry) {lines : List Text}
  (hplain : ∀ line ∈ lines, PlainLine line)

include hplain

/-- The line that is written for an address is one. -/
theorem hostAddress_targetLine (k : Localhost) :
    hostAddress (targetLine entries lines k) = some k.key := by
  rw [hostAddress, hostFields_targetLine entries hplain, List.head?_cons]

/-- What writing the line of an address does to its names. -/
theorem mapped_ensureLine (k : Localhost) (ls : List Text) (name : Text) :
    Mapped (ensureLine (regexpMatches k) (targetLine entries lines k) ls) k.key name ↔
      Listed name (targetNames (entries k) (existingNames lines k)) ∨
        Mapped (otherLines (regexpMatches k) ls) k.key name := by
  have hnames : hostNames (targetLine entries lines k)
      = targetNames (entries k) (existingNames lines k) := by
    rw [hostNames, hostFields_targetLine entries hplain, List.tail_cons]
  constructor
  · rintro ⟨line, hmem, haddress, hlisted⟩
    rcases mem_ensureLine.mp hmem with rfl | hmem
    · exact Or.inl (hnames ▸ hlisted)
    · exact Or.inr ⟨line, hmem, haddress, hlisted⟩
  · rintro (hlisted | ⟨line, hmem, haddress, hlisted⟩)
    · exact ⟨_, mem_ensureLine.mpr (Or.inl rfl), hostAddress_targetLine entries hplain k,
        hnames.symm ▸ hlisted⟩
    · exact ⟨line, mem_ensureLine.mpr (Or.inr hmem), haddress, hlisted⟩

/-- A line for one address is neither added nor replaced for the other one. -/
theorem frame_of_hostAddress {k k' : Localhost} (hne : k ≠ k') {line : Text}
    (haddress : hostAddress line = some k.key) :
    regexpMatches k' line = false ∧ line ≠ targetLine entries lines k' := by
  refine ⟨regexpMatches_of_hostAddress hne haddress, fun heq => hne ?_⟩
  rw [heq, hostAddress_targetLine entries hplain, Option.some.injEq] at haddress
  exact eq_of_head?_eq (congrArg List.head? haddress.symm)

/-- **The names of an address afterwards**: those of the line that was written, and of the
other lines. -/
theorem mapped_updateHosts (k : Localhost) (name : Text) :
    Mapped (updateHosts entries lines) k.key name ↔
      Listed name (targetNames (entries k) (existingNames lines k)) ∨
        Mapped (otherLines (regexpMatches k) lines) k.key name := by
  cases k with
  | ipv4 =>
      rw [← mapped_ensureLine entries hplain]
      refine mapped_congr fun line haddress => ?_
      obtain ⟨hmatch, hne⟩ := frame_of_hostAddress entries hplain
        (show Localhost.ipv4 ≠ .ipv6 by decide) haddress
      exact mem_ensureLine_iff hmatch hne
  | ipv6 =>
      refine (mapped_ensureLine entries hplain .ipv6 _ name).trans (or_congr_right ?_)
      refine mapped_congr fun line haddress => ?_
      obtain ⟨hmatch, hne⟩ := frame_of_hostAddress entries hplain
        (show Localhost.ipv6 ≠ .ipv4 by decide) haddress
      exact mem_otherLines_ensureLine
        (regexpMatches_of_hostAddress (by decide) (hostAddress_targetLine entries hplain .ipv4))
        (fun l => regexpMatches_of_ne (by decide)) hmatch hne

/-- The line that is written is not one for another address. -/
theorem otherAddress_targetLine (k : Localhost) :
    otherAddress (targetLine entries lines k) = false :=
  Bool.eq_false_iff.mpr fun h => otherAddress_iff.mp h k (hostAddress_targetLine entries hplain k)

/-- **The lines for other addresses** stay when none of them is the last line that begins like
one of the two. -/
theorem others_updateHosts_iff :
    (updateHosts entries lines).filter otherAddress = lines.filter otherAddress ↔
      ∀ (k : Localhost) line, lastLine (regexpMatches k) lines = some line →
        hostAddress line = some k.key := by
  set lines₁ := ensureLine (regexpMatches .ipv4) (targetLine entries lines .ipv4) lines with hlines₁
  have hlast : lastLine (regexpMatches .ipv6) lines₁ = lastLine (regexpMatches .ipv6) lines :=
    lastLine_ensureLine
      (regexpMatches_of_hostAddress (by decide) (hostAddress_targetLine entries hplain .ipv4))
      fun l => regexpMatches_of_ne (by decide)
  have hupdate : updateHosts entries lines
      = ensureLine (regexpMatches .ipv6) (targetLine entries lines .ipv6) lines₁ := rfl
  have hother : ∀ (k : Localhost) line, lastLine (regexpMatches k) lines = some line →
      (otherAddress line = false ↔ hostAddress line = some k.key) := by
    intro k line hline
    rw [Bool.eq_false_iff, ne_eq, otherAddress_iff, not_forall]
    constructor
    · rintro ⟨k', hk'⟩
      have haddress := not_not.mp hk'
      obtain rfl := eq_of_hostAddress []
        (by rw [List.append_nil]; exact (lastLine_qualifies hline).2) haddress
      exact haddress
    · exact fun haddress => ⟨k, not_not.mpr haddress⟩
  constructor
  · intro heq k line hline
    have hfirst : (lines₁.filter otherAddress).length
        + (if (lastLine (regexpMatches .ipv4) lines).any otherAddress then 1 else 0)
        = (lines.filter otherAddress).length :=
      length_filter_ensureLine (otherAddress_targetLine entries hplain .ipv4)
    have hsecond : ((updateHosts entries lines).filter otherAddress).length
        + (if (lastLine (regexpMatches .ipv6) lines₁).any otherAddress then 1 else 0)
        = (lines₁.filter otherAddress).length :=
      length_filter_ensureLine (otherAddress_targetLine entries hplain .ipv6)
    rw [heq, hlast] at hsecond
    refine (hother k line hline).mp (Bool.eq_false_iff.mpr fun htrue => ?_)
    cases k with
    | ipv4 =>
        rw [hline, Option.any_some, if_pos htrue] at hfirst
        omega
    | ipv6 =>
        rw [hline, Option.any_some, if_pos htrue] at hsecond
        omega
  · intro h
    rw [hupdate, filter_ensureLine (otherAddress_targetLine entries hplain .ipv6), hlines₁,
      filter_ensureLine (otherAddress_targetLine entries hplain .ipv4)]
    · exact fun line hline => (hother .ipv4 line hline).mpr (h .ipv4 line hline)
    · rw [hlast]
      exact fun line hline => (hother .ipv6 line hline).mpr (h .ipv6 line hline)

/-- **When no name and no other line is lost**: for each of the two addresses, the last line that
begins like it, if there is one, may be replaced. -/
theorem preserves_iff :
    Preserves entries lines (updateHosts entries lines) ↔
      ∀ k, Replaceable (entries k) k lines := by
  constructor
  · intro h k line hline
    have haddress := (others_updateHosts_iff entries hplain).mp h.others k line hline
    refine ⟨haddress, ?_⟩
    by_cases hspaced : spaced k line = true
    · exact Or.inl hspaced
    refine Or.inr fun name hname hunexpected => ?_
    have hmapped := h.kept k line (lastLine_qualifies hline).1 haddress name hname hunexpected
    rcases (mapped_updateHosts entries hplain k name).mp hmapped with hlisted | hmapped
    · rcases listed_targetNames.mp hlisted with ⟨n, hn, -, heq⟩ | hlisted
      · -- the line that was read is another one
        right
        rw [existingNames] at hn
        cases hread : lastLine (spaced k) lines with
        | none =>
            rw [hread] at hn
            cases hn
        | some other =>
            rw [hread] at hn
            obtain ⟨hmem, hother⟩ := lastLine_qualifies hread
            have hne : lastLine (regexpMatches k) lines ≠ some other := by
              rw [hline]
              rintro ⟨rfl⟩
              exact hspaced hother
            exact ⟨other, (mem_iff_mem_otherLines.mp hmem).resolve_left hne,
              (hostAddress_of_spaced hother).1, n, hn, heq⟩
      · exact Or.inl hlisted
    · exact Or.inr hmapped
  · intro h
    refine
      { kept := fun k line hmem haddress name hname hunexpected => ?_
        added := fun k name hname => ?_
        others := (others_updateHosts_iff entries hplain).mpr fun k line hline =>
          (h k line hline).1 }
    · rw [mapped_updateHosts entries hplain]
      rcases mem_iff_mem_otherLines (p := regexpMatches k).mp hmem with hline | hother
      · rcases (h k line hline).2 with hspaced | hnames
        · refine Or.inl (listed_targetNames.mpr (Or.inl ⟨name, ?_, hunexpected, rfl⟩))
          rw [existingNames, lastLine_of_qualifies
            (fun l hl => (hostAddress_of_spaced hl).2) hline hspaced]
          exact hname
        · rcases hnames name hname hunexpected with hlisted | hmapped
          · exact Or.inl (listed_targetNames.mpr (Or.inr hlisted))
          · exact Or.inr hmapped
      · exact Or.inr ⟨line, hother, haddress, name, hname, rfl⟩
    · rw [mapped_updateHosts entries hplain]
      exact Or.inl (listed_targetNames.mpr (Or.inr ⟨name, hname, rfl⟩))

end Update

/-- A hosts file with spaces behind the addresses. -/
def spacedHosts : List Text :=
  ["127.0.0.1 localhost registry.local".toList, "::1 ip6-localhost".toList,
    "10.0.0.10 lb.local".toList]

/-- It keeps its names. -/
theorem preserves_spacedHosts : Preserves etcHostsLocalhostEntries spacedHosts
    (updateHosts etcHostsLocalhostEntries spacedHosts) := by
  have hplain : ∀ line ∈ spacedHosts, PlainLine line := by decide
  refine (preserves_iff etcHostsLocalhostEntries hplain).mpr fun k line hline => ?_
  cases k with
  | ipv4 =>
      cases hline
      exact ⟨by decide, Or.inl (by decide)⟩
  | ipv6 =>
      cases hline
      exact ⟨by decide, Or.inl (by decide)⟩

/-- A line with a tab behind the address is replaced but not read. -/
theorem preserves_fails :
    ¬ ∀ lines : List Text, (∀ line ∈ lines, PlainLine line) →
      Preserves etcHostsLocalhostEntries lines (updateHosts etcHostsLocalhostEntries lines) := by
  intro h
  have hkept := (h ["127.0.0.1\tlocalhost build.local".toList] (by decide)).kept
    .ipv4 _ List.mem_cons_self (by decide) "build.local".toList (by decide) (by decide)
  revert hkept
  unfold Mapped Listed
  decide

end Kubespray.Preinstall
