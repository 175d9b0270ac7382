import Kubespray.Preinstall.Nameservers

/-!
# The Nameservers over Many Runs

A run puts its own nameservers in front of those that it finds in the file, and the next run
finds all of them. So no nameserver ever goes away: those of the cluster that an earlier run
had stay behind those of the last one, and those of the host stay at the end.

The files are those without a block, without a line that is just a keyword, and with a value
in every line for a nameserver. The runs are those that keep the nameservers of the host.

## Main results

* `nameservers_of_runs`: the nameservers after any number of runs.
* `resolvConf_converges`: a run that is repeated takes the file over, whatever it has.
-/

namespace Kubespray.Preinstall

open Firsts LineEdit LineSearch

/-- The tasks of a run. -/
def configure (ip : Ipaddr) (r : DnsRun) (content : Text) : Text :=
  updateResolvConf (resolvSettings r (nameserverentries r (configuredNameservers ip content)))
    content

/-- The addresses of nameservers, as the next run reads them. -/
def normalized (ip : Ipaddr) (servers : List Server) : List Server :=
  servers.filterMap fun s => ip.read s.val

/-- The nameservers that are left of earlier runs and of the host. -/
def earlierNameservers (ip : Ipaddr) (runs : List DnsRun) (host : List Server) : List Server :=
  runs.foldl (fun known r => normalized ip (ownNameservers r) ++ known) host

/-- The run keeps the nameservers of the host. -/
def keepsHost (r : DnsRun) : Bool :=
  !(withClusterDns r && r.disableHostNameservers)

/-- Lines of a file that was not configured yet. -/
structure Unconfigured (rs : List Text) : Prop where
  raw : RawLines '\n' rs
  noMarker : NoMarker rs.flatten
  notBare : ∀ kw ∈ keywords, kw ++ ['\n'] ∉ rs
  hasValues : HasValues rs

/-- Some of the lines are such lines. -/
theorem Unconfigured.sublist {rs rs' : List Text} (h : Unconfigured rs) (hsub : rs'.Sublist rs) :
    Unconfigured rs' where
  raw := h.raw.sublist hsub
  noMarker := h.noMarker.sublist h.raw hsub
  notBare kw hkw hmem := h.notBare kw hkw (hsub.subset hmem)
  hasValues line hline := h.hasValues line (hsub.subset hline)

variable {ip : Ipaddr} {r : DnsRun} {rs : List Text}

/-- The lines that a run leaves. -/
def leftLines (rs : List Text) : List Text :=
  dropRuns (keywords.map begins) rs

/-- The nameservers in some lines. -/
def serversIn (ip : Ipaddr) (rs : List Text) : List Server :=
  (rs.filterMap nameserverOf).filterMap ip.read

/-- What is configured in a file without a block. -/
theorem configuredNameservers_lines (h : Unconfigured rs) :
    configuredNameservers ip rs.flatten = serversIn ip rs := by
  rw [configuredNameservers, findall_eq h.raw h.hasValues, serversIn]

/-- **The first run.** -/
theorem configure_lines (h : Unconfigured rs) :
    configure ip r rs.flatten
      = blockText (resolvSettings r (nameserverentries r (serversIn ip rs)))
        ++ (leftLines rs).flatten := by
  have hlines : rawLines '\n' rs.flatten = rs := h.raw.rawLines_flatten
  rw [configure, updateResolvConf_eq _ h.noMarker (by rw [hlines]; exact h.notBare), hlines,
    configuredNameservers_lines h, leftLines]

/-- **A later run** replaces the block of the run before it. -/
theorem configure_block (r₀ : DnsRun) {entries : List Server} (hne : entries ≠ [])
    (h : Unconfigured rs) :
    configure ip r (blockText (resolvSettings r₀ entries) ++ rs.flatten)
      = blockText (resolvSettings r
          (nameserverentries r (normalized ip entries ++ serversIn ip rs)))
        ++ (leftLines rs).flatten := by
  rw [configure, configuredNameservers_block ip r₀ hne h.raw h.hasValues, updateResolvConf,
    blockinfile_replace _ _ h.noMarker, removeBefore_block _ h.noMarker,
    removeAfter_block _ notMem_keywords h.raw h.noMarker h.notBare]
  rfl

/-! ### What is known of nameservers -/

/-- The addresses of nameservers are their own. -/
theorem read_of_mem_normalized {servers : List Server} {s : Server}
    (h : s ∈ normalized ip servers) : ip.read s.val = some s := by
  obtain ⟨t, -, ht⟩ := List.mem_filterMap.mp h
  exact ip.read_read ht

/-- So are those in lines. -/
theorem read_of_mem_serversIn {s : Server} (h : s ∈ serversIn ip rs) :
    ip.read s.val = some s := by
  obtain ⟨t, -, ht⟩ := List.mem_filterMap.mp h
  exact ip.read_read ht

/-- Such nameservers stay what they are. -/
theorem normalized_eq_self {servers : List Server}
    (h : ∀ s ∈ servers, ip.read s.val = some s) : normalized ip servers = servers := by
  rw [normalized, List.filterMap_congr h, List.filterMap_some]

/-- The nameservers left of earlier runs are such. -/
theorem read_of_mem_earlier {runs : List DnsRun} {host : List Server}
    (hhost : ∀ s ∈ host, ip.read s.val = some s) :
    ∀ s ∈ earlierNameservers ip runs host, ip.read s.val = some s := by
  induction runs generalizing host with
  | nil => exact hhost
  | cons r runs ih =>
      refine ih fun s hs => ?_
      exact (List.mem_append.mp hs).elim read_of_mem_normalized (hhost s)

/-- Those of the host are among them. -/
theorem mem_earlier_of_mem_host {runs : List DnsRun} {host : List Server} {s : Server}
    (h : s ∈ host) : s ∈ earlierNameservers ip runs host := by
  induction runs generalizing host with
  | nil => exact h
  | cons r runs ih => exact ih (List.mem_append_right _ h)

/-- **What the next run reads** are the addresses that the run has put there and those that it
found: the lines behind the block add nothing, and neither do repetitions. -/
theorem uniqueServers_next (r' : DnsRun) {known found : List Server}
    (hknown : ∀ s ∈ known, ip.read s.val = some s) (hfound : ∀ s ∈ found, s ∈ known) :
    uniqueServers (ownNameservers r' ++
        (normalized ip (uniqueServers (ownNameservers r ++ known)) ++ found))
      = uniqueServers (ownNameservers r' ++
        (normalized ip (ownNameservers r) ++ known)) := by
  have hread : ∀ s t : Server, lower s.val = lower t.val → ip.read s.val = ip.read t.val :=
    fun _ _ => ip.read_lower
  refine firsts_append_congr _ ?_
  have hthere : ∀ s ∈ found, ∃ t ∈ normalized ip (uniqueServers (ownNameservers r ++ known)),
      lower s.val = lower t.val := by
    intro s hs
    obtain ⟨t, ht, hsame⟩ := exists_mem_firsts (fun s : Server => lower s.val)
      (List.mem_append_right (ownNameservers r) (hfound s hs))
    refine ⟨s, List.mem_filterMap.mpr ⟨t, ht, ?_⟩, rfl⟩
    rw [hread t s hsame]
    exact hknown s (hfound s hs)
  calc firsts (fun s : Server => lower s.val)
        (normalized ip (uniqueServers (ownNameservers r ++ known)) ++ found)
      = firsts (fun s : Server => lower s.val)
          (normalized ip (uniqueServers (ownNameservers r ++ known))) :=
        firsts_append_of_forall hthere
    _ = firsts (fun s : Server => lower s.val)
          (normalized ip (ownNameservers r ++ known)) :=
        firsts_filterMap_firsts hread _
    _ = firsts (fun s : Server => lower s.val)
          (normalized ip (ownNameservers r) ++ known) := by
        rw [normalized, List.filterMap_append]
        exact congrArg (fun l => firsts _ (_ ++ l)) (normalized_eq_self hknown)

/-! ### Many runs -/

/-- A run that keeps the nameservers of the host. -/
theorem nameserverentries_of_keepsHost (h : keepsHost r = true) (configured : List Server) :
    nameserverentries r configured = uniqueServers (ownNameservers r ++ configured) := by
  rw [keepsHost, Bool.not_eq_true'] at h
  rw [nameserverentries, h, if_neg Bool.false_ne_true]

/-- The lines left after any number of runs are lines of the file. -/
theorem iterate_leftLines_sublist (n : ℕ) (rs : List Text) : (leftLines^[n] rs).Sublist rs := by
  induction n generalizing rs with
  | zero => exact List.Sublist.refl rs
  | succ n ih => exact (ih (leftLines rs)).trans (dropRuns_sublist _ rs)

/-- The last of the earlier runs comes first. -/
theorem earlierNameservers_concat (ip : Ipaddr) (runs : List DnsRun) (r : DnsRun)
    (host : List Server) :
    earlierNameservers ip (runs ++ [r]) host
      = normalized ip (ownNameservers r) ++ earlierNameservers ip runs host := by
  rw [earlierNameservers, List.foldl_append]
  rfl

/-- The files after several runs. -/
def configureAll (ip : Ipaddr) (runs : List DnsRun) (content : Text) : Text :=
  runs.foldl (fun file r => configure ip r file) content

/-- The last run. -/
theorem configureAll_concat (ip : Ipaddr) (runs : List DnsRun) (r : DnsRun) (content : Text) :
    configureAll ip (runs ++ [r]) content = configure ip r (configureAll ip runs content) := by
  rw [configureAll, List.foldl_append, List.foldl_cons, List.foldl_nil, configureAll]

/-- After any number of runs the file has the block of the last one and the lines that are
left. -/
theorem configureAll_lines (h : Unconfigured rs) (hhost : serversIn ip rs ≠ [])
    (runs : List DnsRun) (hkeeps : ∀ r' ∈ runs ++ [r], keepsHost r' = true) :
    configureAll ip (runs ++ [r]) rs.flatten
      = blockText (resolvSettings r
          (uniqueServers (ownNameservers r ++ earlierNameservers ip runs (serversIn ip rs))))
        ++ (leftLines^[runs.length + 1] rs).flatten := by
  induction runs using List.reverseRecOn generalizing r with
  | nil =>
      have hfirst : configure ip r rs.flatten = _ := configure_lines h
      rw [nameserverentries_of_keepsHost (hkeeps r (by simp))] at hfirst
      rw [configureAll_concat, configureAll, List.foldl_nil, hfirst]
      rfl
  | append_singleton runs r₁ ih =>
      have hfile := ih (r := r₁) fun r' hr' => hkeeps r' (List.mem_append_left _ hr')
      have hfound : ∀ s ∈ serversIn ip (leftLines^[runs.length + 1] rs),
          s ∈ earlierNameservers ip runs (serversIn ip rs) := fun s hs =>
        mem_earlier_of_mem_host ((((iterate_leftLines_sublist _ rs).filterMap _).filterMap
          _).subset hs)
      have hne : uniqueServers (ownNameservers r₁ ++ earlierNameservers ip runs (serversIn ip rs))
          ≠ [] := by
        obtain ⟨s, hs⟩ := List.exists_mem_of_ne_nil _ hhost
        exact firsts_ne_nil (List.ne_nil_of_mem
          (List.mem_append_right _ (mem_earlier_of_mem_host hs)))
      rw [configureAll_concat, hfile,
        configure_block r₁ hne (h.sublist (iterate_leftLines_sublist _ rs)),
        nameserverentries_of_keepsHost (hkeeps r (by simp)),
        uniqueServers_next r (read_of_mem_earlier fun _ => read_of_mem_serversIn) hfound,
        earlierNameservers_concat, ← Function.iterate_succ_apply' leftLines]
      rw [List.length_append, List.length_singleton]

/-- **The nameservers after any number of runs** that keep those of the host: those of the last
run, then those of the earlier runs, the latest first, and those that the host had before the
first run. -/
theorem nameservers_of_runs (ip : Ipaddr) (runs : List DnsRun) (r : DnsRun) {content : Text}
    (hkeeps : ∀ r' ∈ runs ++ [r], keepsHost r' = true)
    (hlines : Unconfigured (rawLines '\n' content))
    (hhost : configuredNameservers ip content ≠ []) :
    ∃ left : List Text, left.Sublist (rawLines '\n' content) ∧
      configureAll ip (runs ++ [r]) content
        = blockText (resolvSettings r (uniqueServers (ownNameservers r ++
            earlierNameservers ip runs (configuredNameservers ip content)))) ++ left.flatten := by
  have hflatten : (rawLines '\n' content).flatten = content := flatten_rawLines content
  have hconfigured : configuredNameservers ip content = serversIn ip (rawLines '\n' content) := by
    rw [← configuredNameservers_lines hlines, hflatten]
  rw [hconfigured] at hhost ⊢
  have hall := configureAll_lines hlines hhost runs hkeeps
  rw [hflatten] at hall
  exact ⟨_, iterate_leftLines_sublist _ _, hall⟩

/-- The digits and dots of an IPv4 address. -/
def isDotted (c : Char) : Bool :=
  c.isDigit || c == '.'

/-- They are neither upper nor lower case. -/
theorem toLower_of_isDotted {c : Char} (h : isDotted c = true) : c.toLower = c := by
  refine dif_neg ?_
  rintro ⟨hle, -⟩
  simp only [isDotted, Char.isDigit, Bool.or_eq_true, Bool.and_eq_true, decide_eq_true_eq,
    beq_iff_eq] at h
  obtain ⟨-, hdigit⟩ | rfl := h
  · exact absurd (UInt32.le_trans hle hdigit) (by decide)
  · exact absurd hle (by decide)

/-- The addresses of which the filter reads the ones with digits and dots. -/
def dottedAddresses : Ipaddr where
  read t := if h : isServer (lower t) = true ∧ (lower t).all isDotted = true then
      some ⟨lower t, h.1⟩ else none
  read_read := by
    intro t s h
    split_ifs at h with hdotted
    cases h
    have hlower : lower (lower t) = lower t :=
      (List.map_congr_left fun c hc =>
        toLower_of_isDotted (List.all_eq_true.mp hdotted.2 c hc)).trans (List.map_id _)
    simp only [hlower]
    exact dif_pos hdotted
  read_lower := by
    intro t u h
    simp only [h]

/-- The run before the cluster has a DNS. -/
def earlyRun : DnsRun where
  dnsEarly := true
  dnsLate := false
  dnsMode := .coredns
  enableNodelocaldns := true
  nodelocaldnsIp := ⟨"169.254.25.10".toList, by decide⟩
  skydnsServer := ⟨"10.233.0.3".toList, by decide⟩
  skydnsServerSecondary := ⟨"10.233.0.4".toList, by decide⟩
  manualDnsServer := []
  upstreamDnsServers := []
  nameservers := [⟨"8.8.8.8".toList, by decide⟩]
  cloudProvider := none
  disableHostNameservers := false
  dnsDomain := "cluster.local".toList
  searchdomains := []
  removeDefaultSearchdomains := false
  ndots := "2".toList
  dnsTimeout := none
  dnsAttempts := none
  plain := by decide

/-- The run behind it. -/
def lateRun : DnsRun :=
  { earlyRun with dnsEarly := false }

/-- A file of a host with two nameservers. -/
def hostFile : Text :=
  "nameserver 1.1.1.1\noptions edns0\nnameserver 9.9.9.9\n".toList

/-- It was not configured yet. -/
theorem unconfigured_hostFile : Unconfigured (rawLines '\n' hostFile) where
  raw := rawLines_spec _
  noMarker := by
    rw [flatten_rawLines]
    exact noMarker_of_notMem (by decide)
  notBare := by decide
  hasValues := by decide

/-- Its nameservers. -/
theorem configuredNameservers_hostFile : configuredNameservers dottedAddresses hostFile
    = [⟨"1.1.1.1".toList, by decide⟩, ⟨"9.9.9.9".toList, by decide⟩] := by
  rw [configuredNameservers, findall_text (by decide)]
  decide

/-- Before and behind the cluster DNS. -/
theorem nameservers_of_runs_hostFile :
    ∃ left : List Text, left.Sublist (rawLines '\n' hostFile) ∧
      configureAll dottedAddresses ([earlyRun] ++ [lateRun]) hostFile
        = blockText (resolvSettings lateRun
            [⟨"169.254.25.10".toList, by decide⟩, ⟨"8.8.8.8".toList, by decide⟩,
              ⟨"1.1.1.1".toList, by decide⟩, ⟨"9.9.9.9".toList, by decide⟩])
          ++ left.flatten := by
  obtain ⟨left, hsub, heq⟩ := nameservers_of_runs dottedAddresses [earlyRun] lateRun
    (by decide) unconfigured_hostFile
    (by rw [configuredNameservers_hostFile]; exact List.cons_ne_nil _ _)
  rw [configuredNameservers_hostFile] at heq
  refine ⟨left, hsub, heq.trans (congrArg (fun l => blockText (resolvSettings lateRun l) ++ _) ?_)⟩
  decide

/-! ### A run that is repeated -/

/-- The same run again and again. -/
theorem configureAll_replicate (ip : Ipaddr) (r : DnsRun) (n : ℕ) (content : Text) :
    configureAll ip (List.replicate n r) content = (configure ip r)^[n] content := by
  induction n with
  | zero => rfl
  | succ n ih =>
      rw [List.replicate_succ', configureAll_concat, ih, Function.iterate_succ_apply']

/-- A second run adds the addresses of the nameservers as they are read; the others add
nothing. -/
theorem uniqueServers_replicate (ip : Ipaddr) (r : DnsRun) (n : ℕ) (host : List Server) :
    uniqueServers (ownNameservers r ++ earlierNameservers ip (List.replicate (n + 1) r) host)
      = uniqueServers (ownNameservers r ++ (normalized ip (ownNameservers r) ++ host)) := by
  refine firsts_append_congr _ ?_
  induction n with
  | zero => rfl
  | succ n ih =>
      rw [List.replicate_succ', earlierNameservers_concat, firsts_append_congr _ ih]
      exact firsts_append_self _ _

/-- The lines of a file with an option. -/
def optionCount (content : Text) : ℕ :=
  (rawLines '\n' content).countP fun line => (keywords.map begins).any fun p => p line

/-- **A run that is repeated** takes the file over, whatever options it has and wherever they
stand: after twice, and as often as it has lines with options, the file has the block and the
other lines, and stays so. -/
theorem resolvConf_converges (ip : Ipaddr) {r : DnsRun} (hkeeps : keepsHost r = true)
    {content : Text} (hlines : Unconfigured (rawLines '\n' content))
    (hhost : configuredNameservers ip content ≠ []) {n : ℕ} (htwo : 2 ≤ n)
    (hcount : optionCount content ≤ n) :
    (configure ip r)^[n] content
      = blockText (resolvSettings r (uniqueServers (ownNameservers r ++
          (normalized ip (ownNameservers r) ++ configuredNameservers ip content))))
        ++ (otherContent content).flatten := by
  obtain ⟨m, rfl⟩ := Nat.exists_eq_add_of_le' htwo
  have hflatten : (rawLines '\n' content).flatten = content := flatten_rawLines content
  have hconfigured : configuredNameservers ip content = serversIn ip (rawLines '\n' content) := by
    rw [← configuredNameservers_lines hlines, hflatten]
  have hleft : leftLines^[m + 1 + 1] (rawLines '\n' content) = otherContent content := by
    rw [otherContent_eq hlines.notBare]
    exact iterate_dropRuns _ hcount
  rw [hconfigured] at hhost ⊢
  have hall := configureAll_lines hlines hhost (List.replicate (m + 1) r)
    fun r' hr' => by
      rw [← List.replicate_succ', List.mem_replicate] at hr'
      exact hr'.2 ▸ hkeeps
  rw [hflatten, ← List.replicate_succ', configureAll_replicate, uniqueServers_replicate,
    List.length_replicate, hleft] at hall
  exact hall

/-- Three lines with options, of which the first run leaves one. -/
theorem resolvConf_converges_hostFile :
    (configure dottedAddresses earlyRun)^[3] hostFile
      = blockText (resolvSettings earlyRun (uniqueServers (ownNameservers earlyRun ++
          (normalized dottedAddresses (ownNameservers earlyRun) ++
            configuredNameservers dottedAddresses hostFile))))
        ++ (otherContent hostFile).flatten :=
  resolvConf_converges dottedAddresses (by decide) unconfigured_hostFile
    (by rw [configuredNameservers_hostFile]; exact List.cons_ne_nil _ _) (by decide) (by decide)

end Kubespray.Preinstall
