import Kubespray.Library.Fallible
import Kubespray.Library.OrderedDict
import Kubespray.Text

/-!
# The Certificate Script

`make-ssl-etcd.sh` works in an empty directory: it copies the certificate authority there
or makes a new one, issues a key and a certificate for each host it is given, and moves
everything that was made into the certificate directory. Which of the two happens to the
authority depends on `ca-key.pem` alone.

A file is named by what it holds, so `member-HOST.pem` and `member-HOST-key.pem` are
different files for all hosts: groups in which one host is called like another with
`-key` at the end are left out. A key is a number, and `openssl genrsa` returns numbers
that were not in use.

## Main results

* `Issued.trans`, `issued_foldlM`: what a sequence of issuing steps does.
* `makeSslEtcd_made`: everything a completed run of the script does to the directory.
* `Made.trans`: two runs of the script, one after the other.
-/

namespace Kubespray.EtcdCerts

open OrderedDict Fallible

/-! ### Directories -/

/-- The files of the certificate directory. -/
inductive CertFile
  | ca
  | caKey
  | member (host : Text)
  | memberKey (host : Text)
  | admin (host : Text)
  | adminKey (host : Text)
  | node (host : Text)
  | nodeKey (host : Text)
  deriving DecidableEq

/-- A member, admin or node certificate. -/
def CertFile.isCert : CertFile → Bool
  | .member _ | .admin _ | .node _ => true
  | _ => false

/-- The pair for a host of `$HOSTS`. -/
def nodeStem (host : Text) : Text :=
  "node-".toList ++ host

/-- The pair of a file. -/
def CertFile.stem : CertFile → Text
  | .ca | .caKey => "ca".toList
  | .member host | .memberKey host => "member-".toList ++ host
  | .admin host | .adminKey host => "admin-".toList ++ host
  | .node host | .nodeKey host => nodeStem host

/-- The content of a file: a private key, or a certificate for a key. -/
structure Pem where
  key : ℕ
  /-- The key that signed the certificate; a private key is not signed. -/
  signer : Option ℕ
  deriving DecidableEq

/-- A certificate directory. -/
abbrev Directory := OrderedDict CertFile Pem

/-- The member and admin pairs of an etcd host. -/
def memberFiles (host : Text) : List CertFile :=
  [.admin host, .adminKey host, .member host, .memberKey host]

/-- The node pair of a cluster host. -/
def nodeFiles (host : Text) : List CertFile :=
  [.node host, .nodeKey host]

/-! ### The script -/

/-- The working directory of the script, and the next unused key. -/
structure Work where
  files : Directory
  nextKey : ℕ

/-- The common name that `-subj` gives to a pair: `etcd-member-${cn}` for `member-${host}`, where
`cn` is the host without its domain. -/
def commonName (stem : Text) : Text :=
  "etcd-".toList ++ stem.takeWhile (· ≠ '.')

/-- `genrsa`, `req` and `x509` for one host: a new key and its certificate. `req` fails when the
common name has more than 64 characters, and `x509` when the authority's key does not belong to
its certificate. -/
def issue (cert key : CertFile) (w : Work) : Except Text Work :=
  if 64 < (commonName cert.stem).length then .error "openssl req".toList
  else
    match w.files.get? .ca, w.files.get? .caKey with
    | some ca, some caKey =>
      if ca.key = caKey.key then
        .ok { files := (w.files.set key { key := w.nextKey, signer := none }).set cert
                { key := w.nextKey, signer := some caKey.key }
              nextKey := w.nextKey + 1 }
      else .error "openssl x509".toList
    | _, _ => .error "openssl x509".toList

/-- The body of the loop over `$MASTERS`. -/
def issueMember (w : Work) (host : Text) : Except Text Work := do
  let w ← issue (.member host) (.memberKey host) w
  issue (.admin host) (.adminKey host) w

/-- The body of the loop over `$HOSTS`. -/
def issueNode (w : Work) (host : Text) : Except Text Work :=
  issue (.node host) (.nodeKey host) w

/-- `# Root CA`: reuse the authority when its key is there, make a new one otherwise. -/
def rootCa (dir : Directory) (nextKey : ℕ) : Except Text Work :=
  match dir.get? .caKey with
  | some caKey =>
    match dir.get? .ca with
    | some ca =>
      .ok { files := (OrderedDict.empty.set .ca ca).set .caKey caKey
            nextKey := nextKey }
    | none => .error "cp".toList
  | none =>
    .ok { files := (OrderedDict.empty.set .caKey { key := nextKey, signer := none }).set .ca
            { key := nextKey, signer := some nextKey }
          nextKey := nextKey + 1 }

/-- `# Install certs`: an authority that was copied is left out; `mv` fails when nothing
is left to move. -/
def install (dir files : Directory) : Except Text Directory :=
  let made := if .caKey ∈ dir.keys then (files.erase .ca).erase .caKey else files
  if made.keys = [] then .error "mv".toList else .ok (dir.overlay made)

/-- `make-ssl-etcd.sh`, on the certificate directory. -/
def makeSslEtcd (masters hosts : List Text) (dir : Directory) (nextKey : ℕ) :
    Except Text (Directory × ℕ) := do
  let w ← rootCa dir nextKey
  let w ← masters.foldlM issueMember w
  let w ← hosts.foldlM issueNode w
  let dir ← install dir w.files
  return (dir, w.nextKey)

/-! ### What issuing does -/

/-- New files were issued and nothing else changed. -/
structure Issued (fs : List CertFile) (w w' : Work) : Prop where
  notCa : .ca ∉ fs ∧ .caKey ∉ fs
  kept : ∀ f ∉ fs, w'.files.get? f = w.files.get? f
  fresh : ∀ f ∈ fs, ∃ p, w'.files.get? f = some p ∧ w.nextKey ≤ p.key ∧
    (f.isCert = true → ∃ ca, w.files.get? .ca = some ca ∧ p.signer = some ca.key)
  next : w.nextKey ≤ w'.nextKey

/-- Issuing nothing. -/
theorem Issued.refl (w : Work) : Issued [] w w where
  notCa := ⟨List.not_mem_nil, List.not_mem_nil⟩
  kept _ _ := rfl
  fresh _ h := by cases h
  next := le_refl _

/-- **Issuing in sequence.** -/
theorem Issued.trans {fs gs : List CertFile} {w w₁ w₂ : Work} (h₁ : Issued fs w w₁)
    (h₂ : Issued gs w₁ w₂) : Issued (fs ++ gs) w w₂ where
  notCa := by
    simp only [List.mem_append, not_or]
    exact ⟨⟨h₁.notCa.1, h₂.notCa.1⟩, ⟨h₁.notCa.2, h₂.notCa.2⟩⟩
  kept f hf := by
    rw [List.mem_append, not_or] at hf
    rw [h₂.kept f hf.2, h₁.kept f hf.1]
  fresh f hf := by
    by_cases hg : f ∈ gs
    · obtain ⟨p, hp, hkey, hsigned⟩ := h₂.fresh f hg
      refine ⟨p, hp, h₁.next.trans hkey, fun hcert => ?_⟩
      obtain ⟨ca, hca, hsigner⟩ := hsigned hcert
      exact ⟨ca, by rw [← h₁.kept _ h₁.notCa.1, hca], hsigner⟩
    · obtain ⟨p, hp, hrest⟩ := h₁.fresh f ((List.mem_append.mp hf).resolve_right hg)
      exact ⟨p, by rw [h₂.kept f hg, hp], hrest⟩
  next := h₁.next.trans h₂.next

/-- One pair is issued. -/
theorem issue_issued {cert key : CertFile} {w w' : Work} (hne : cert ≠ key)
    (hca : .ca ∉ [cert, key] ∧ .caKey ∉ [cert, key]) (hkey : key.isCert = false)
    (h : issue cert key w = .ok w') : Issued [cert, key] w w' := by
  rw [issue] at h
  split_ifs at h with hlong
  split at h
  · rename_i ca caKey hgetCa hgetKey
    split_ifs at h with hpair
    cases h
    refine ⟨hca, fun f hf => ?_, fun f hf => ?_, Nat.le_succ _⟩
    · rw [List.mem_cons, List.mem_singleton, not_or] at hf
      rw [get?_set_of_ne _ _ hf.1, get?_set_of_ne _ _ hf.2]
    · rcases List.mem_cons.mp hf with rfl | hf
      · exact ⟨_, get?_set_self .., le_refl _, fun _ => ⟨ca, hgetCa, by rw [hpair]⟩⟩
      · obtain rfl := List.mem_singleton.mp hf
        refine ⟨_, (get?_set_of_ne _ _ hne.symm).trans (get?_set_self ..), le_refl _, ?_⟩
        intro hcert
        rw [hkey] at hcert
        cases hcert
  · cases h

/-- The files issued for a host of `$MASTERS`. -/
def issuedMember (host : Text) : List CertFile :=
  [.member host, .memberKey host] ++ [.admin host, .adminKey host]

/-- The two pairs of an etcd host are issued. -/
theorem issueMember_issued {w w' : Work} {host : Text} (h : issueMember w host = .ok w') :
    Issued (issuedMember host) w w' := by
  obtain ⟨w₁, h₁, h₂⟩ := ok_of_bind h
  exact (issue_issued (by simp) (by simp) rfl h₁).trans (issue_issued (by simp) (by simp) rfl h₂)

/-- The pair of a cluster host is issued. -/
theorem issueNode_issued {w w' : Work} {host : Text} (h : issueNode w host = .ok w') :
    Issued (nodeFiles host) w w' :=
  issue_issued (by simp) (by simp) rfl h

/-- **A loop issues the files of its hosts.** -/
theorem issued_foldlM {step : Work → Text → Except Text Work} {files : Text → List CertFile}
    (hstep : ∀ w host w', step w host = .ok w' → Issued (files host) w w')
    {hosts : List Text} {w w' : Work} (h : hosts.foldlM step w = .ok w') :
    Issued (hosts.flatMap files) w w' := by
  induction hosts generalizing w with
  | nil =>
      cases h
      exact Issued.refl _
  | cons host hosts ih =>
      obtain ⟨w₁, h₁, h⟩ := foldlM_cons_eq_ok_iff.mp h
      rw [List.flatMap_cons]
      exact (hstep w host w₁ h₁).trans (ih h)

/-! ### What the script does -/

/-- The files a run of the script makes besides the authority. -/
def madeFiles (masters hosts : List Text) : List CertFile :=
  masters.flatMap issuedMember ++ hosts.flatMap nodeFiles

/-- The files of hosts were made in a certificate directory, with the authority that was
there or with a new one. -/
structure Made (fs : List CertFile) (dir : Directory) (k : ℕ) (dir' : Directory) (k' : ℕ) :
    Prop where
  notCa : .ca ∉ fs ∧ .caKey ∉ fs
  kept : ∀ f ∉ fs, f ≠ .ca → f ≠ .caKey → dir'.get? f = dir.get? f
  reused : dir.get? .caKey ≠ none → dir.get? .ca ≠ none ∧ dir'.get? .ca = dir.get? .ca ∧
    dir'.get? .caKey = dir.get? .caKey
  replaced : dir.get? .caKey = none → dir'.get? .ca = some { key := k, signer := some k } ∧
    dir'.get? .caKey = some { key := k, signer := none }
  fresh : ∀ f ∈ fs, ∃ p, dir'.get? f = some p ∧ k ≤ p.key ∧
    (f.isCert = true → ∃ ca, dir'.get? .ca = some ca ∧ p.signer = some ca.key)
  next : k ≤ k'

/-- The authority after a run of the script. -/
theorem Made.ca_ne_none {fs : List CertFile} {dir dir' : Directory} {k k' : ℕ}
    (h : Made fs dir k dir' k') : dir'.get? .ca ≠ none ∧ dir'.get? .caKey ≠ none := by
  cases hkey : dir.get? .caKey with
  | none =>
      obtain ⟨hca, hcaKey⟩ := h.replaced hkey
      rw [hca, hcaKey]
      exact ⟨Option.some_ne_none _, Option.some_ne_none _⟩
  | some caKey =>
      have hne : dir.get? .caKey ≠ none := by
        rw [hkey]
        exact Option.some_ne_none _
      obtain ⟨hca, hsame, hsameKey⟩ := h.reused hne
      rw [hsame, hsameKey]
      exact ⟨hca, hne⟩

/-- **Running the script twice.** The second run finds the authority of the first. -/
theorem Made.trans {fs gs : List CertFile} {dir dir₁ dir₂ : Directory} {k k₁ k₂ : ℕ}
    (h₁ : Made fs dir k dir₁ k₁) (h₂ : Made gs dir₁ k₁ dir₂ k₂) :
    Made (fs ++ gs) dir k dir₂ k₂ := by
  obtain ⟨-, hca, hcaKey⟩ := h₂.reused h₁.ca_ne_none.2
  refine ⟨?_, fun f hf hfca hfkey => ?_, fun hkey => ?_, fun hkey => ?_, fun f hf => ?_,
    h₁.next.trans h₂.next⟩
  · simp only [List.mem_append, not_or]
    exact ⟨⟨h₁.notCa.1, h₂.notCa.1⟩, ⟨h₁.notCa.2, h₂.notCa.2⟩⟩
  · rw [List.mem_append, not_or] at hf
    rw [h₂.kept f hf.2 hfca hfkey, h₁.kept f hf.1 hfca hfkey]
  · rw [hca, hcaKey]
    exact h₁.reused hkey
  · rw [hca, hcaKey]
    exact h₁.replaced hkey
  · by_cases hg : f ∈ gs
    · obtain ⟨p, hp, hkey, hsigned⟩ := h₂.fresh f hg
      exact ⟨p, hp, h₁.next.trans hkey, hsigned⟩
    · have hfs : f ∈ fs := (List.mem_append.mp hf).resolve_right hg
      obtain ⟨p, hp, hrest⟩ := h₁.fresh f hfs
      have hfca : f ≠ .ca := fun heq => h₁.notCa.1 (heq ▸ hfs)
      have hfkey : f ≠ .caKey := fun heq => h₁.notCa.2 (heq ▸ hfs)
      rw [hca]
      exact ⟨p, by rw [h₂.kept f hg hfca hfkey, hp], hrest⟩

/-- The authority that the script works with. -/
theorem rootCa_eq_ok {dir : Directory} {k : ℕ} {w : Work} (h : rootCa dir k = .ok w) :
    k ≤ w.nextKey ∧ (∀ f, f ≠ .ca → f ≠ .caKey → w.files.get? f = none) ∧
      (dir.get? .caKey ≠ none → dir.get? .ca ≠ none ∧ w.files.get? .ca = dir.get? .ca) ∧
      (dir.get? .caKey = none → w.files.get? .ca = some { key := k, signer := some k } ∧
        w.files.get? .caKey = some { key := k, signer := none }) := by
  rw [rootCa] at h
  cases hkey : dir.get? .caKey with
  | some caKey =>
      rw [hkey] at h
      cases hca : dir.get? .ca with
      | none =>
          rw [hca] at h
          cases h
      | some ca =>
          rw [hca] at h
          cases h
          refine ⟨le_refl _, fun f hf hfkey => ?_, fun _ => ⟨Option.some_ne_none _, ?_⟩,
            fun hnone => by cases hnone⟩
          · rw [get?_set_of_ne _ _ hfkey, get?_set_of_ne _ _ hf, get?_empty]
          · rw [get?_set_of_ne _ _ (by simp), get?_set_self]
  | none =>
      rw [hkey] at h
      cases h
      refine ⟨Nat.le_succ _, fun f hf hfkey => ?_, fun hne => absurd rfl hne, fun _ => ⟨?_, ?_⟩⟩
      · rw [get?_set_of_ne _ _ hf, get?_set_of_ne _ _ hfkey, get?_empty]
      · exact get?_set_self ..
      · rw [get?_set_of_ne _ _ (by simp), get?_set_self]

/-- The directory after installing files. -/
theorem install_eq_ok {dir files dir' : Directory} (h : install dir files = .ok dir') :
    (∀ f, f ≠ .ca → f ≠ .caKey → dir'.get? f = (files.get? f).or (dir.get? f)) ∧
      (dir.get? .caKey ≠ none →
        dir'.get? .ca = dir.get? .ca ∧ dir'.get? .caKey = dir.get? .caKey) ∧
      (dir.get? .caKey = none → ∀ f, dir'.get? f = (files.get? f).or (dir.get? f)) := by
  unfold install at h
  dsimp only at h
  by_cases hkey : .caKey ∈ dir.keys
  · rw [if_pos hkey] at h
    split_ifs at h
    cases h
    refine ⟨fun f hca hcaKey => ?_, fun _ => ⟨?_, ?_⟩, fun hnone => ?_⟩
    · rw [get?_overlay, get?_erase_of_ne _ hcaKey, get?_erase_of_ne _ hca]
    · rw [get?_overlay, get?_erase_of_ne _ (by simp), get?_erase_self, Option.none_or]
    · rw [get?_overlay, get?_erase_self, Option.none_or]
    · exact absurd hkey (get?_eq_none_iff.mp hnone)
  · rw [if_neg hkey] at h
    split_ifs at h
    cases h
    exact ⟨fun f _ _ => get?_overlay .., fun hne => absurd (get?_eq_none_iff.mpr hkey) hne,
      fun _ f => get?_overlay ..⟩

/-- **The script.** A completed run makes the files it was asked for, signed by the
authority that is in the directory afterwards, and touches nothing else. -/
theorem makeSslEtcd_made {masters hosts : List Text} {dir dir' : Directory} {k k' : ℕ}
    (h : makeSslEtcd masters hosts dir k = .ok (dir', k')) :
    Made (madeFiles masters hosts) dir k dir' k' := by
  obtain ⟨w₀, hroot, h⟩ := ok_of_bind h
  obtain ⟨w₁, hmasters, h⟩ := ok_of_bind h
  obtain ⟨w₂, hhosts, h⟩ := ok_of_bind h
  obtain ⟨dir₁, hinstall, h⟩ := ok_of_bind h
  cases h
  have hmembers : Issued (masters.flatMap issuedMember) w₀ w₁ :=
    issued_foldlM (fun _ _ _ hstep => issueMember_issued hstep) hmasters
  have hnodes : Issued (hosts.flatMap nodeFiles) w₁ w₂ :=
    issued_foldlM (fun _ _ _ hstep => issueNode_issued hstep) hhosts
  have hissued : Issued (madeFiles masters hosts) w₀ w₂ := hmembers.trans hnodes
  obtain ⟨hnext, hempty, hreused, hreplaced⟩ := rootCa_eq_ok hroot
  obtain ⟨hother, hold, hnew⟩ := install_eq_ok hinstall
  have hca : dir'.get? .ca = w₀.files.get? .ca := by
    by_cases hkey : dir.get? .caKey = none
    · rw [hnew hkey, hissued.kept _ hissued.notCa.1, (hreplaced hkey).1, Option.some_or]
    · rw [(hold hkey).1, (hreused hkey).2]
  refine ⟨hissued.notCa, fun f hf hfca hfkey => ?_,
    fun hkey => ⟨(hreused hkey).1, hold hkey⟩, fun hkey => ?_, fun f hf => ?_,
    hnext.trans hissued.next⟩
  · rw [hother f hfca hfkey, hissued.kept f hf, hempty f hfca hfkey, Option.none_or]
  · rw [hca, hnew hkey, hissued.kept _ hissued.notCa.2, (hreplaced hkey).2, Option.some_or]
    exact ⟨(hreplaced hkey).1, rfl⟩
  · obtain ⟨p, hp, hkey, hsigned⟩ := hissued.fresh f hf
    have hfca : f ≠ .ca := fun heq => hissued.notCa.1 (heq ▸ hf)
    have hfkey : f ≠ .caKey := fun heq => hissued.notCa.2 (heq ▸ hf)
    rw [hca]
    exact ⟨p, by rw [hother f hfca hfkey, hp, Option.some_or], hnext.trans hkey, hsigned⟩

end Kubespray.EtcdCerts
