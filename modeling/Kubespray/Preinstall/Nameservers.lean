import Kubespray.Library.Firsts
import Kubespray.Preinstall.EtcHosts
import Kubespray.Preinstall.ResolvConf

/-!
# The Nameservers of a Host

The tasks that set the DNS facts read the nameservers that `/etc/resolv.conf` has, put those of
the cluster in front, and the tasks behind them write all of them back into the file. So what a
run writes is what the next run reads.

A run has the settings of its play, which may differ from those of the run before. The filter
`ipaddr` is a parameter (`Ipaddr`); the filter `unique` does not tell upper from lower case.

## Main results

* `findall_eq`: what the regular expression finds in a file.
* `configuredNameservers_block`: what is configured in a file that a run has written.
-/

namespace Kubespray.Preinstall

open Firsts LineEdit LineSearch Regex

/-! ### Reading the nameservers -/

/-- `nameserver`. -/
def nameserverWord : Text :=
  "nameserver".toList

/-- `^nameserver\s*`, before the group. -/
def nameserverStart : Regex Char :=
  .seq (.lineStart isNewline) (.seq (.lit nameserverWord) (.star (.char isSpace)))

/-- `(.*)`. -/
def restOfLine : Regex Char :=
  .star (.char fun c => !isNewline c)

/-- The value in a line. -/
def nameserverOf (line : Text) : Option Text :=
  if nameserverWord <+: line then
    some ((line.drop nameserverWord.length).dropWhile isSpace |>.takeWhile fun c => !isNewline c)
  else none

/-- Every line with the word has a value. -/
def HasValues (lines : List Text) : Prop :=
  ∀ line ∈ lines, nameserverWord <+: line →
    (line.drop nameserverWord.length).dropWhile isSpace ≠ []

instance (lines : List Text) : Decidable (HasValues lines) :=
  inferInstanceAs (Decidable (∀ line ∈ lines, _))

/-- There is no match but at the begin of a line. -/
theorem firstMatch_nameserver_of_prev {b : Char} (hb : isNewline b = false) (t : Text) :
    firstMatch nameserverStart restOfLine ⟨some b, t⟩ = none := by
  refine firstMatch_eq_none_iff.mpr fun s₁ h => ?_
  have hnone : ends (.lineStart isNewline) (⟨some b, t⟩ : Pos Char) = [] :=
    if_neg (by simp [hb])
  rw [nameserverStart, ends, hnone] at h
  cases h

/-- Nor without the word. -/
theorem firstMatch_nameserver_of_not {b : Option Char} {t : Text} (h : ¬ nameserverWord <+: t) :
    firstMatch nameserverStart restOfLine ⟨b, t⟩ = none := by
  refine firstMatch_eq_none_iff.mpr fun s₁ h₁ => ?_
  obtain ⟨s, hs, h₁⟩ := List.mem_flatMap.mp h₁
  rw [ends] at hs
  split_ifs at hs
  · obtain rfl := List.mem_singleton.mp hs
    rw [ends, ends_lit_of_not_prefix h] at h₁
    cases h₁
  · cases hs

/-- Every match has the word. -/
theorem consumes_nameserverStart : Consumes nameserverStart :=
  .seq_right _ (((consumes_char _).seq_left _).seq_left _)

/-- **The match in a line** ends with it. -/
theorem firstMatch_nameserver {b : Option Char} (hb : b.all isNewline = true) {w v t : Text}
    (hw : ∀ c ∈ w, isSpace c = true) (hv : '\n' ∉ v) (hd : ∀ c ∈ (v ++ t).head?, isSpace c = false)
    (ht : ∀ c ∈ t.head?, c = '\n') :
    firstMatch nameserverStart restOfLine ⟨b, nameserverWord ++ (w ++ (v ++ t))⟩
      = some (behind (some 'r') w (v ++ t), behind (w.getLast?.or (some 'r')) v t) := by
  have hstart : (ends (.lineStart isNewline)
      (⟨b, nameserverWord ++ (w ++ (v ++ t))⟩ : Pos Char)).head?
        = some ⟨b, nameserverWord ++ (w ++ (v ++ t))⟩ := by
    rw [ends, if_pos hb, List.head?_cons]
  have hword : (ends (.lit nameserverWord)
      (⟨b, nameserverWord ++ (w ++ (v ++ t))⟩ : Pos Char)).head?
        = some ⟨some 'r', w ++ (v ++ t)⟩ := by
    rw [ends_lit_append, List.head?_cons]
    rfl
  have hblanks : (ends (.star (.char isSpace)) (⟨some 'r', w ++ (v ++ t)⟩ : Pos Char)).head?
      = some (behind (some 'r') w (v ++ t)) := head?_ends_star_char hw hd _
  have hline : (ends restOfLine (behind (some 'r') w (v ++ t))).head?
      = some (behind (w.getLast?.or (some 'r')) v t) :=
    head?_ends_star_char (isNewline_of_notMem hv) (fun c hc => by rw [ht c hc]; rfl) _
  exact firstMatch_of_head? (head?_ends_seq hstart (head?_ends_seq hword hblanks)) hline

/-- Within a line there is no match before the next line. -/
theorem findFrom_within {c : Char} (hc : isNewline c = false) {u : Text} (hu : '\n' ∉ u)
    (t : Text) :
    findFrom nameserverStart restOfLine ⟨some c, u ++ '\n' :: t⟩
      = findFrom nameserverStart restOfLine (lineBegin t) := by
  induction u generalizing c with
  | nil => exact findFrom_of_none (firstMatch_nameserver_of_prev hc _)
  | cons d u ih =>
      rw [List.cons_append, findFrom_of_none (firstMatch_nameserver_of_prev hc _)]
      have hd := isNewline_of_notMem hu d List.mem_cons_self
      exact ih (by simpa using hd) fun hmem => hu (List.mem_cons_of_mem d hmem)

/-- Nor before the end. -/
theorem findFrom_within_last {c : Char} (hc : isNewline c = false) {u : Text} (hu : '\n' ∉ u) :
    findFrom nameserverStart restOfLine ⟨some c, u⟩ = [] := by
  induction u generalizing c with
  | nil => rfl
  | cons d u ih =>
      rw [findFrom_of_none (firstMatch_nameserver_of_prev hc _)]
      have hd := isNewline_of_notMem hu d List.mem_cons_self
      exact ih (by simpa using hd) fun hmem => hu (List.mem_cons_of_mem d hmem)

/-- A line with the word, in its parts. -/
theorem exists_parts {line : Text} (h : nameserverWord <+: line)
    (hvalue : (line.drop nameserverWord.length).dropWhile isSpace ≠ []) :
    ∃ w v, line = nameserverWord ++ (w ++ v) ∧ (∀ c ∈ w, isSpace c = true) ∧ v ≠ [] ∧
      (∀ c ∈ v.head?, isSpace c = false) ∧
      (line.drop nameserverWord.length).dropWhile isSpace = v := by
  obtain ⟨u, rfl⟩ := h
  rw [List.drop_left] at hvalue ⊢
  refine ⟨u.takeWhile isSpace, u.dropWhile isSpace, ?_, fun c hc => List.mem_takeWhile_imp hc,
    hvalue, fun c hc => ?_, rfl⟩
  · rw [List.takeWhile_append_dropWhile]
  · have hnot := List.head_dropWhile_not isSpace hvalue
    rw [List.head?_eq_some_head hvalue] at hc
    obtain rfl := Option.some.inj hc
    exact hnot

/-- What stands at the begin of a line stands in the line. -/
theorem isPrefix_of_isPrefix_append {w l t : Text} (hw : '\n' ∉ w) (h : w <+: l ++ '\n' :: t) :
    w <+: l := by
  have hline : l ++ ['\n'] <+: l ++ '\n' :: t := ⟨t, by simp⟩
  obtain h | h := List.prefix_or_prefix_of_prefix h hline
  · obtain rfl | h := List.prefix_concat_iff.mp h
    · exact absurd (List.mem_append_right l List.mem_cons_self) hw
    · exact h
  · exact absurd (h.subset (List.mem_append_right l List.mem_cons_self)) hw

/-- **The value of a line** is found, and then what is behind the line: the next lines, or
nothing. -/
theorem findFrom_value {b : Option Char} (hb : b.all isNewline = true) {l t : Text}
    (hl : '\n' ∉ l) (hword : nameserverWord <+: l)
    (hvalue : (l.drop nameserverWord.length).dropWhile isSpace ≠ [])
    (ht : ∀ c ∈ t.head?, c = '\n') :
    ∃ c, isNewline c = false ∧ findFrom nameserverStart restOfLine ⟨b, l ++ t⟩
      = (nameserverOf l).toList ++ findFrom nameserverStart restOfLine ⟨some c, t⟩ := by
  obtain ⟨w, v, hparts, hw, hne, hd, hdrop⟩ := exists_parts hword hvalue
  have hv : '\n' ∉ v := fun hmem => hl (by simp [hparts, hmem])
  obtain ⟨last, hlast⟩ := Option.ne_none_iff_exists'.mp (mt List.getLast?_eq_none_iff.mp hne)
  have hmatch := firstMatch_nameserver hb hw hv (t := t)
    (by rwa [List.head?_append_of_ne_nil _ hne]) ht
  have hof : nameserverOf l = some v := by
    rw [nameserverOf, if_pos hword, hdrop, List.takeWhile_eq_self_iff.mpr (isNewline_of_notMem hv)]
  refine ⟨last, by simpa using isNewline_of_notMem hv last (List.mem_of_getLast? hlast), ?_⟩
  have htext : l ++ t = nameserverWord ++ (w ++ (v ++ t)) := by simp [hparts]
  rw [hof, htext, findFrom_of_match consumes_nameserverStart hmatch]
  simp [behind, hlast]

/-- **A line** is searched for its value. -/
theorem findFrom_line {b : Option Char} (hb : b.all isNewline = true) {l : Text} (hl : '\n' ∉ l)
    (hvalue : nameserverWord <+: l → (l.drop nameserverWord.length).dropWhile isSpace ≠ [])
    (t : Text) :
    findFrom nameserverStart restOfLine ⟨b, l ++ '\n' :: t⟩
      = (nameserverOf l).toList ++ findFrom nameserverStart restOfLine (lineBegin t) := by
  by_cases hword : nameserverWord <+: l
  · obtain ⟨c, hc, heq⟩ := findFrom_value hb hl hword (hvalue hword) (t := '\n' :: t) (by simp)
    rw [heq]
    exact congrArg (_ ++ ·) (findFrom_within hc List.not_mem_nil t)
  · have hnone : firstMatch nameserverStart restOfLine ⟨b, l ++ '\n' :: t⟩ = none :=
      firstMatch_nameserver_of_not fun h => hword (isPrefix_of_isPrefix_append (by decide) h)
    rw [nameserverOf, if_neg hword]
    cases l with
    | nil => exact findFrom_of_none hnone
    | cons c l =>
        have hc := isNewline_of_notMem hl c List.mem_cons_self
        exact (findFrom_of_none hnone).trans
          (findFrom_within (by simpa using hc) (fun h => hl (List.mem_cons_of_mem c h)) t)

/-- So is the last line without its end. -/
theorem findFrom_last {b : Option Char} (hb : b.all isNewline = true) {l : Text} (hl : '\n' ∉ l)
    (hvalue : nameserverWord <+: l → (l.drop nameserverWord.length).dropWhile isSpace ≠ []) :
    findFrom nameserverStart restOfLine ⟨b, l⟩ = (nameserverOf l).toList := by
  by_cases hword : nameserverWord <+: l
  · obtain ⟨c, hc, heq⟩ := findFrom_value hb hl hword (hvalue hword) (t := []) (by simp)
    rwa [List.append_nil, findFrom_nil, List.append_nil] at heq
  · have hnone : firstMatch nameserverStart restOfLine ⟨b, l⟩ = none :=
      firstMatch_nameserver_of_not hword
    rw [nameserverOf, if_neg hword]
    cases l with
    | nil => rfl
    | cons c l =>
        have hc := isNewline_of_notMem hl c List.mem_cons_self
        rw [findFrom_of_none hnone]
        exact findFrom_within_last (by simpa using hc) fun h => hl (List.mem_cons_of_mem c h)

/-- The blanks of a line with and without its end. -/
theorem dropWhile_line {l : Text} (hword : nameserverWord <+: l)
    (hvalue : ((l ++ ['\n']).drop nameserverWord.length).dropWhile isSpace ≠ []) :
    (l.drop nameserverWord.length).dropWhile isSpace ≠ [] ∧
      ((l ++ ['\n']).drop nameserverWord.length).dropWhile isSpace
        = (l.drop nameserverWord.length).dropWhile isSpace ++ ['\n'] := by
  rw [List.drop_append_of_le_length hword.length_le, List.dropWhile_append] at hvalue ⊢
  cases hempty : ((l.drop nameserverWord.length).dropWhile isSpace).isEmpty with
  | true =>
      rw [hempty, if_pos rfl] at hvalue
      exact absurd rfl hvalue
  | false =>
      rw [if_neg Bool.false_ne_true]
      exact ⟨fun hnil => by simp [hnil] at hempty, rfl⟩

/-- The value of a line with and without its end. -/
theorem nameserverOf_line {l : Text} (hl : '\n' ∉ l)
    (hvalue : nameserverWord <+: l ++ ['\n'] →
      ((l ++ ['\n']).drop nameserverWord.length).dropWhile isSpace ≠ []) :
    nameserverOf (l ++ ['\n']) = nameserverOf l := by
  rw [nameserverOf, nameserverOf]
  by_cases hword : nameserverWord <+: l
  · have hword' : nameserverWord <+: l ++ ['\n'] := hword.trans (List.prefix_append _ _)
    rw [if_pos hword, if_pos hword', (dropWhile_line hword (hvalue hword')).2]
    have hline : '\n' ∉ (l.drop nameserverWord.length).dropWhile isSpace := fun h =>
      hl (List.mem_of_mem_drop (List.dropWhile_subset isSpace h))
    rw [List.takeWhile_append_of_pos (isNewline_of_notMem hline),
      List.takeWhile_cons_of_neg (by simp [isNewline]), List.append_nil,
      List.takeWhile_eq_self_iff.mpr (isNewline_of_notMem hline)]
  · rw [if_neg hword, if_neg fun h => hword (isPrefix_of_isPrefix_append (by decide) h)]

/-- **What the expression finds** are the values of the lines. -/
theorem findall_eq {lines : List Text} (h : RawLines '\n' lines) (hvalues : HasValues lines) :
    findall nameserverStart restOfLine lines.flatten = lines.filterMap nameserverOf := by
  suffices hall : ∀ b : Option Char, b.all isNewline = true →
      findFrom nameserverStart restOfLine ⟨b, lines.flatten⟩ = lines.filterMap nameserverOf from
    hall none rfl
  induction h with
  | nil => exact fun b _ => rfl
  | @last l hl hne =>
      intro b hb
      have hline := findFrom_last hb hl fun hword => hvalues l List.mem_cons_self hword
      rw [List.flatten_singleton, hline, List.filterMap_cons, List.filterMap_nil]
      cases nameserverOf l <;> rfl
  | @cons l rs hl hrs ih =>
      intro b hb
      obtain ⟨hfirst, hrest⟩ := List.forall_mem_cons.mp hvalues
      have hline := findFrom_line hb hl (fun hword =>
        (dropWhile_line hword (hfirst (hword.trans (List.prefix_append _ _)))).1) rs.flatten
      rw [List.flatten_cons, List.append_assoc, List.singleton_append, hline, lineBegin,
        ih hrest (some '\n') rfl, List.filterMap_cons, nameserverOf_line hl hfirst]
      cases nameserverOf l <;> rfl

/-- What is found in a text. -/
theorem findall_text {text : Text} (hvalues : HasValues (rawLines '\n' text)) :
    findall nameserverStart restOfLine text
      = (rawLines '\n' text).filterMap nameserverOf := by
  have hflatten : (rawLines '\n' text).flatten = text := flatten_rawLines text
  conv_lhs => rw [← hflatten]
  exact findall_eq (rawLines_spec text) hvalues

/-! ### The facts -/

/-- A text that can stand in a list of nameservers and in a line of the file. -/
def isServer (t : Text) : Bool :=
  !t.isEmpty && t.all fun c => !isSpace c && c != ',' && c != '#' && c.toNat < 128

/-- The address of a nameserver. -/
abbrev Server := { t : Text // isServer t = true }

/-- The filter `ipaddr`: the address in a text, or nothing. -/
structure Ipaddr where
  read : Text → Option Server
  /-- An address is its own. -/
  read_read : ∀ {t : Text} {s : Server}, read t = some s → read s = some s
  /-- It may be written in upper or lower case. -/
  read_lower : ∀ {t u : Text}, lower t = lower u → read t = read u

/-- `dns_mode`; with `none` the file is left alone. -/
inductive DnsMode
  | coredns
  | corednsDual
  | manual

/-- What the DNS tasks read in a run. -/
structure DnsRun where
  dnsEarly : Bool
  dnsLate : Bool
  dnsMode : DnsMode
  enableNodelocaldns : Bool
  nodelocaldnsIp : Server
  skydnsServer : Server
  skydnsServerSecondary : Server
  manualDnsServer : List Server
  upstreamDnsServers : List Server
  nameservers : List Server
  cloudProvider : Option Text
  disableHostNameservers : Bool
  dnsDomain : Text
  searchdomains : List Text
  removeDefaultSearchdomains : Bool
  ndots : Text
  dnsTimeout : Option Text
  dnsAttempts : Option Text
  /-- No comment and no end of a line is in what is written. -/
  plain : ((dnsDomain :: ndots :: searchdomains) ++ dnsTimeout.toList ++ dnsAttempts.toList).all
    (fun t => t.all fun c => c != '#' && c != '\n') = true

/-- `configured_nameservers`. -/
def configuredNameservers (ip : Ipaddr) (content : Text) : List Server :=
  (findall nameserverStart restOfLine content).filterMap ip.read

/-- `cloud_resolver`. -/
def cloudResolver (cloudProvider : Option Text) : List Server :=
  if cloudProvider = some "gce".toList then [⟨"169.254.169.254".toList, by decide⟩]
  else if cloudProvider = some "aws".toList then [⟨"169.254.169.253".toList, by decide⟩]
  else []

/-- `coredns_server`. -/
def corednsServer (r : DnsRun) : List Server :=
  if r.dnsEarly then r.upstreamDnsServers
  else
    match r.dnsMode with
    | .coredns => [r.skydnsServer]
    | .corednsDual => [r.skydnsServer, r.skydnsServerSecondary]
    | .manual => r.manualDnsServer

/-- Whether the cluster DNS is among the nameservers. -/
def withClusterDns (r : DnsRun) : Bool :=
  !r.dnsEarly || r.dnsLate

/-- The nameservers that a run puts in front of those that are configured. -/
def ownNameservers (r : DnsRun) : List Server :=
  (if withClusterDns r then
    (if r.enableNodelocaldns then [r.nodelocaldnsIp] else []) ++
      (if r.enableNodelocaldns then [] else corednsServer r)
  else []) ++ r.nameservers ++ cloudResolver r.cloudProvider

/-- The filter `unique`. -/
def uniqueServers (servers : List Server) : List Server :=
  firsts (fun s => lower s.val) servers

/-- `nameserverentries`, before they are joined. -/
def nameserverentries (r : DnsRun) (configured : List Server) : List Server :=
  uniqueServers (ownNameservers r ++
    if withClusterDns r && r.disableHostNameservers then [] else configured)

/-- `default_searchdomains` and `searchdomains`. -/
def allSearchdomains (r : DnsRun) : List Text :=
  (if !r.removeDefaultSearchdomains || r.searchdomains.isEmpty then
    ["default.svc.".toList ++ r.dnsDomain, "svc.".toList ++ r.dnsDomain]
  else []) ++ r.searchdomains

/-- The values of the block. -/
def resolvValues (r : DnsRun) (entries : List Server) : ResolvValues where
  domainentry := "domain ".toList ++ r.dnsDomain
  searchentries := "search ".toList ++ [' '].intercalate (allSearchdomains r)
  nameserverentries := [','].intercalate (entries.map Subtype.val)
  ndots := r.ndots
  dnsTimeout := r.dnsTimeout
  dnsAttempts := r.dnsAttempts

/-! ### The block -/

/-- The characters of a nameserver. -/
theorem server_chars (s : Server) : ∀ c ∈ s.val, isSpace c = false ∧ c ≠ ',' ∧ c ≠ '#' := by
  have hs := s.property
  simp only [isServer, Bool.and_eq_true, List.all_eq_true] at hs
  intro c hc
  obtain ⟨⟨⟨hspace, hcomma⟩, hhash⟩, -⟩ := hs.2 c hc
  exact ⟨by simpa using hspace, by simpa using hcomma, by simpa using hhash⟩

/-- A nameserver is not empty. -/
theorem server_ne_nil (s : Server) : s.val ≠ [] := by
  have hs := s.property
  simp only [isServer, Bool.and_eq_true] at hs
  exact fun hnil => by simp [hnil] at hs

/-- There is no end of a line in it. -/
theorem newline_notMem_server (s : Server) : '\n' ∉ s.val := fun h => by
  obtain ⟨hspace, -⟩ := server_chars s _ h
  exact absurd hspace (by decide)

/-- A text without a comment and without an end of a line. -/
def OneLine (t : Text) : Prop :=
  '#' ∉ t ∧ '\n' ∉ t

/-- Texts behind each other. -/
theorem OneLine.append {t u : Text} (ht : OneLine t) (hu : OneLine u) : OneLine (t ++ u) :=
  ⟨fun h => (List.mem_append.mp h).elim ht.1 hu.1, fun h => (List.mem_append.mp h).elim ht.2 hu.2⟩

/-- What is written is in one line. -/
theorem oneLine_of_mem {r : DnsRun} {t : Text}
    (h : t ∈ (r.dnsDomain :: r.ndots :: r.searchdomains) ++ r.dnsTimeout.toList
      ++ r.dnsAttempts.toList) : OneLine t := by
  have hall := List.all_eq_true.mp (List.all_eq_true.mp r.plain t h)
  exact ⟨fun hc => by simpa using hall _ hc, fun hc => by simpa using hall _ hc⟩

/-- The line `domain`. -/
theorem oneLine_domainentry (r : DnsRun) (entries : List Server) :
    OneLine (resolvValues r entries).domainentry :=
  OneLine.append ⟨by decide, by decide⟩ (oneLine_of_mem (r := r) (by simp))

/-- The line `search`. -/
theorem oneLine_searchentries (r : DnsRun) (entries : List Server) :
    OneLine (resolvValues r entries).searchentries := by
  have hdomain : OneLine r.dnsDomain := oneLine_of_mem (r := r) (by simp)
  have hall : ∀ d ∈ allSearchdomains r, OneLine d := by
    intro d hd
    rw [allSearchdomains, List.mem_append] at hd
    obtain hd | hd := hd
    · split_ifs at hd
      · obtain rfl | hd := List.mem_cons.mp hd
        · exact OneLine.append ⟨by decide, by decide⟩ hdomain
        · obtain rfl := List.mem_singleton.mp hd
          exact OneLine.append ⟨by decide, by decide⟩ hdomain
      · cases hd
    · exact oneLine_of_mem (r := r) (by simp [hd])
  refine OneLine.append ⟨by decide, by decide⟩ ⟨fun h => ?_, fun h => ?_⟩
  · obtain heq | ⟨d, hd, hc⟩ := mem_intercalate_singleton h
    · exact absurd heq (by decide)
    · exact (hall d hd).1 hc
  · obtain heq | ⟨d, hd, hc⟩ := mem_intercalate_singleton h
    · exact absurd heq (by decide)
    · exact (hall d hd).2 hc

/-- The line `options`, without its end. -/
def optionsText (r : DnsRun) : Text :=
  "options ndots:".toList ++ r.ndots ++ " timeout:".toList ++ r.dnsTimeout.getD "2".toList ++
    " attempts:".toList ++ r.dnsAttempts.getD "2".toList

/-- The line `options`. -/
theorem oneLine_optionsText (r : DnsRun) : OneLine (optionsText r) := by
  have hget : ∀ o : Option Text, (∀ t ∈ o, OneLine t) → OneLine (o.getD "2".toList) := by
    intro o ho
    cases o with
    | none => exact ⟨by decide, by decide⟩
    | some t => exact ho t rfl
  have hndots : OneLine r.ndots := oneLine_of_mem (r := r) (by simp)
  have htimeout := hget r.dnsTimeout fun t ht =>
    oneLine_of_mem (r := r) (by simp [Option.mem_def.mp ht])
  have hattempts := hget r.dnsAttempts fun t ht =>
    oneLine_of_mem (r := r) (by simp [Option.mem_def.mp ht])
  refine (((OneLine.append ?_ hndots).append ?_).append htimeout).append ?_ |>.append hattempts
  · exact ⟨by decide, by decide⟩
  · exact ⟨by decide, by decide⟩
  · exact ⟨by decide, by decide⟩

/-- The nameservers of the block; without any there is one that is empty. -/
def serverTexts (entries : List Server) : List Text :=
  if entries = [] then [[]] else entries.map Subtype.val

/-- The loop of the template over `nameserverentries.split(',')`. -/
theorem splitOn_nameserverentries (r : DnsRun) (entries : List Server) :
    (resolvValues r entries).nameserverentries.splitOn ',' = serverTexts entries := by
  rw [serverTexts]
  split_ifs with h
  · rw [h]
    rfl
  · refine List.splitOn_intercalate ',' (fun l hl => ?_) (mt List.map_eq_nil_iff.mp h)
    obtain ⟨s, -, rfl⟩ := List.mem_map.mp hl
    exact fun hc => (server_chars s _ hc).2.1 rfl

/-- The nameservers are in one line each. -/
theorem oneLine_serverTexts {entries : List Server} {t : Text} (h : t ∈ serverTexts entries) :
    OneLine t := by
  rw [serverTexts] at h
  split_ifs at h
  · obtain rfl := List.mem_singleton.mp h
    exact ⟨List.not_mem_nil, List.not_mem_nil⟩
  · obtain ⟨s, -, rfl⟩ := List.mem_map.mp h
    exact ⟨fun hc => (server_chars s _ hc).2.2 rfl, newline_notMem_server s⟩

/-- The lines of the block before the options, without their ends. -/
def frontTexts (r : DnsRun) (entries : List Server) : List Text :=
  [(resolvValues r entries).domainentry, (resolvValues r entries).searchentries] ++
    (serverTexts entries).map ("nameserver ".toList ++ ·)

/-- The lines of the block, without their ends. -/
def blockTexts (r : DnsRun) (entries : List Server) : List Text :=
  frontTexts r entries ++ [optionsText r]

/-- Each of them is one line. -/
theorem oneLine_blockTexts {r : DnsRun} {entries : List Server} {t : Text}
    (h : t ∈ blockTexts r entries) : OneLine t := by
  simp only [blockTexts, frontTexts, List.mem_append, List.mem_cons, List.mem_map,
    List.not_mem_nil, or_false] at h
  obtain ((rfl | rfl) | ⟨u, hu, rfl⟩) | rfl := h
  · exact oneLine_domainentry r entries
  · exact oneLine_searchentries r entries
  · exact OneLine.append ⟨by decide, by decide⟩ (oneLine_serverTexts hu)
  · exact oneLine_optionsText r

/-- The block is these lines, the last one without its end. -/
theorem block_eq (r : DnsRun) (entries : List Server) :
    (resolvValues r entries).block
      = ((frontTexts r entries).map (· ++ ['\n'])).flatten ++ optionsText r := by
  have hservers : ((serverTexts entries).flatMap fun item =>
        "nameserver ".toList ++ item ++ ['\n'])
      = (((serverTexts entries).map ("nameserver ".toList ++ ·)).map (· ++ ['\n'])).flatten := by
    rw [List.flatMap_def, List.map_map]
    rfl
  rw [frontTexts, List.map_append, List.flatten_append, ← hservers,
    ← splitOn_nameserverentries r entries]
  rfl

/-- The lines make up the block and its end. -/
theorem flatten_blockTexts (r : DnsRun) (entries : List Server) :
    ((blockTexts r entries).map (· ++ ['\n'])).flatten
      = (resolvValues r entries).block ++ ['\n'] := by
  rw [block_eq, blockTexts, List.map_append, List.flatten_append, List.append_assoc,
    List.map_singleton, List.flatten_singleton]

/-- There is no comment in the block. -/
theorem hash_notMem_block (r : DnsRun) (entries : List Server) :
    '#' ∉ (resolvValues r entries).block := by
  intro h
  have hmem : '#' ∈ ((blockTexts r entries).map (· ++ ['\n'])).flatten := by
    rw [flatten_blockTexts]
    exact List.mem_append_left _ h
  obtain ⟨l, hl, hc⟩ := List.mem_flatten.mp hmem
  obtain ⟨t, ht, rfl⟩ := List.mem_map.mp hl
  obtain hc | hc := List.mem_append.mp hc
  · exact (oneLine_blockTexts ht).1 hc
  · exact absurd (List.mem_singleton.mp hc) (by decide)

/-- The values of the block, in which no marker stands. -/
def resolvSettings (r : DnsRun) (entries : List Server) : ResolvSettings :=
  { resolvValues r entries with noMarker := noMarker_of_notMem (hash_notMem_block r entries) }

/-- The block does not end with the end of a line. -/
theorem terminate_block (r : DnsRun) (entries : List Server) :
    terminate (resolvSettings r entries).block
      = ((blockTexts r entries).map (· ++ ['\n'])).flatten := by
  have hlast : (resolvValues r entries).block.getLast? ≠ some '\n' := by
    have hne : optionsText r ≠ [] := List.cons_ne_nil _ _
    rw [block_eq, List.getLast?_append_of_ne_nil _ hne]
    exact fun h => (oneLine_optionsText r).2 (List.mem_of_getLast? h)
  rw [flatten_blockTexts, terminate]
  exact if_neg hlast

/-- The lines of the block with its markers. -/
def blockRawLines (r : DnsRun) (entries : List Server) : List Text :=
  ([beginMarker] ++ blockTexts r entries ++ [endMarker]).map (· ++ ['\n'])

/-- They are the text of the block. -/
theorem flatten_blockRawLines (r : DnsRun) (entries : List Server) :
    (blockRawLines r entries).flatten = blockText (resolvSettings r entries) := by
  rw [blockText, openBlock, terminate_block, blockRawLines]
  simp

/-- They are lines with their ends. -/
theorem rawLines_blockRawLines (r : DnsRun) (entries : List Server) {rs : List Text}
    (h : RawLines '\n' rs) : RawLines '\n' (blockRawLines r entries ++ rs) := by
  have hall : ∀ ts : List Text, (∀ t ∈ ts, '\n' ∉ t) →
      RawLines '\n' (ts.map (· ++ ['\n']) ++ rs) := by
    intro ts hts
    induction ts with
    | nil => exact h
    | cons t ts ih =>
        obtain ⟨ht, hts⟩ := List.forall_mem_cons.mp hts
        exact .cons ht (ih hts)
  refine hall _ fun t ht => ?_
  simp only [List.mem_append, List.mem_singleton] at ht
  obtain (rfl | ht) | rfl := ht
  · decide
  · exact (oneLine_blockTexts ht).2
  · decide

/-! ### What is found in the block -/

/-- A line that begins with another character does not begin with the word. -/
theorem not_word_of_head? {line : Text} {c : Char} (h : line.head? = some c) (hc : c ≠ 'n') :
    ¬ nameserverWord <+: line := by
  rintro ⟨u, rfl⟩
  exact hc (Option.some.inj h).symm

/-- The line of a nameserver, behind the word and the blank. -/
theorem dropWhile_server (s : Server) :
    (("nameserver ".toList ++ s.val ++ ['\n']).drop nameserverWord.length).dropWhile isSpace
      = s.val ++ ['\n'] := by
  obtain ⟨c, u, hs⟩ := List.exists_cons_of_ne_nil (server_ne_nil s)
  have hc : isSpace c = false := (server_chars s c (hs ▸ List.mem_cons_self)).1
  have hdrop : ("nameserver ".toList ++ s.val ++ ['\n']).drop nameserverWord.length
      = ' ' :: (s.val ++ ['\n']) := rfl
  rw [hdrop, List.dropWhile_cons_of_pos (by decide), hs, List.cons_append,
    List.dropWhile_cons_of_neg (by simp [hc])]

/-- The line of a nameserver has it as its value. -/
theorem nameserverOf_server (s : Server) :
    nameserverOf ("nameserver ".toList ++ s.val ++ ['\n']) = some s.val := by
  have hword : nameserverWord <+: "nameserver ".toList ++ s.val ++ ['\n'] :=
    ⟨' ' :: (s.val ++ ['\n']), rfl⟩
  rw [nameserverOf, if_pos hword, dropWhile_server,
    List.takeWhile_append_of_pos (isNewline_of_notMem (newline_notMem_server s)),
    List.takeWhile_cons_of_neg (by simp [isNewline]), List.append_nil]

/-- The lines of the block around its nameservers. -/
theorem blockRawLines_eq (r : DnsRun) {entries : List Server} (hne : entries ≠ []) :
    ∃ before behind, blockRawLines r entries
        = before ++ entries.map (fun s => "nameserver ".toList ++ s.val ++ ['\n']) ++ behind ∧
      ∀ line ∈ before ++ behind, ¬ nameserverWord <+: line := by
  refine ⟨[beginMarker ++ ['\n'], (resolvValues r entries).domainentry ++ ['\n'],
    (resolvValues r entries).searchentries ++ ['\n']],
    [optionsText r ++ ['\n'], endMarker ++ ['\n']], ?_, fun line hline => ?_⟩
  · rw [blockRawLines, blockTexts, frontTexts, serverTexts, if_neg hne]
    simp only [List.map_append, List.map_map, List.map_cons, List.map_nil, List.cons_append,
      List.nil_append, List.append_assoc]
    rfl
  · simp only [List.mem_append, List.mem_cons, List.not_mem_nil, or_false] at hline
    obtain (rfl | rfl | rfl) | rfl | rfl := hline
    · exact not_word_of_head? (c := '#') rfl (by decide)
    · exact not_word_of_head? (c := 'd') rfl (by decide)
    · exact not_word_of_head? (c := 's') rfl (by decide)
    · exact not_word_of_head? (c := 'o') rfl (by decide)
    · exact not_word_of_head? (c := '#') rfl (by decide)

/-- **What is found in the block** are its nameservers. -/
theorem filterMap_blockRawLines (r : DnsRun) {entries : List Server} (hne : entries ≠ []) :
    (blockRawLines r entries).filterMap nameserverOf = entries.map Subtype.val := by
  obtain ⟨before, behind, heq, hno⟩ := blockRawLines_eq r hne
  have hnone : ∀ lines : List Text, (∀ line ∈ lines, ¬ nameserverWord <+: line) →
      lines.filterMap nameserverOf = [] := fun lines h =>
    List.filterMap_eq_nil_iff.mpr fun line hline => if_neg (h line hline)
  have hservers : (entries.map fun s => "nameserver ".toList ++ s.val ++ ['\n']).filterMap
      nameserverOf = entries.map Subtype.val := by
    rw [List.filterMap_map, ← List.filterMap_eq_map]
    exact List.filterMap_congr fun s _ => nameserverOf_server s
  rw [heq, List.filterMap_append, List.filterMap_append, hservers,
    hnone before fun line hline => hno line (List.mem_append_left _ hline),
    hnone behind fun line hline => hno line (List.mem_append_right _ hline), List.append_nil,
    List.nil_append]

/-- Every line of the block with the word has a value. -/
theorem hasValues_blockRawLines (r : DnsRun) {entries : List Server} (hne : entries ≠ []) :
    HasValues (blockRawLines r entries) := by
  obtain ⟨before, behind, heq, hno⟩ := blockRawLines_eq r hne
  intro line hline hword
  rw [heq, List.append_assoc, List.mem_append, List.mem_append] at hline
  obtain hline | hline | hline := hline
  · exact absurd hword (hno line (List.mem_append_left _ hline))
  · obtain ⟨s, -, rfl⟩ := List.mem_map.mp hline
    rw [dropWhile_server]
    exact List.append_ne_nil_of_left_ne_nil (server_ne_nil s) _
  · exact absurd hword (hno line (List.mem_append_right _ hline))

/-- **What is configured** in a file with the block: its nameservers, and those in the lines
behind it. -/
theorem configuredNameservers_block (ip : Ipaddr) (r : DnsRun) {entries : List Server}
    (hne : entries ≠ []) {rs : List Text} (h : RawLines '\n' rs) (hvalues : HasValues rs) :
    configuredNameservers ip (blockText (resolvSettings r entries) ++ rs.flatten)
      = entries.filterMap (fun s => ip.read s.val)
        ++ (rs.filterMap nameserverOf).filterMap ip.read := by
  have hall : HasValues (blockRawLines r entries ++ rs) := fun line hline =>
    (List.mem_append.mp hline).elim (hasValues_blockRawLines r hne line) (hvalues line)
  rw [configuredNameservers, ← flatten_blockRawLines, ← List.flatten_append,
    findall_eq (rawLines_blockRawLines r entries h) hall, List.filterMap_append,
    filterMap_blockRawLines r hne, List.filterMap_append, List.filterMap_map]
  rfl

end Kubespray.Preinstall
