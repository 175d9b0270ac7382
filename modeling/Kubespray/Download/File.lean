import Kubespray.Library.Fallible
import Kubespray.Text
import Mathlib.Logic.Function.Basic

/-!
# Downloading Files

`download_file.yml` downloads a file on each host, or, with `download_force_cache`, on one
delegate: from there it is copied back to the Ansible host and pushed to the nodes. The
checksum is verified where the file is downloaded, and what is pushed is whatever lies in the
cache of the Ansible host. The copy back is a task of the delegate as a host of the play, so it
is left out when the delegate does not download the item itself.

A host is a machine of its own, and `localhost` is the Ansible host.

## Main results

* `downloadEach_pinned`: without the cache every host ends with the pinned file.
* `pinned_iff`: when every host does with the cache.
* `pinned_after_delegate`: a play on the delegate alone prepares the later ones.
-/

namespace Kubespray.Download

open Fallible

/-- An entry of `downloads`, for a file. -/
structure Item where
  enabled : Bool
  sha256 : Text
  groups : List Text

/-- `get_url` for one address: on a host, with a checksum and the file that is there, it leaves
this content. When it succeeds, the content has the checksum. -/
structure GetUrl (Content : Type) where
  sha256 : Content → Text
  run : Text → Option Text → Option Content → Except Text Content
  verified : ∀ host sha current content, run host (some sha) current = .ok content →
    sha256 content = sha

/-- The play that runs the role, and its settings. -/
structure DownloadPlay where
  hosts : List Text
  groupNames : Text → List Text
  /-- `groups['kube_control_plane'][0]`. -/
  firstControlPlane : Text
  skipDownloads : Bool
  downloadRunOnce : Bool
  downloadForceCache : Bool
  downloadLocalhost : Bool

/-- The files of one item on all hosts: at `download.dest`, and at `file_path_cached`. -/
structure Stores (Content : Type) where
  dest : Text → Option Content
  cached : Text → Option Content

variable {Content : Type}

/-- The Ansible host. -/
def localhost : Text :=
  "localhost".toList

/-- The `checksum` option: omitted when none is declared. -/
def Item.checksum (item : Item) : Option Text :=
  if item.sha256 = [] then none else some item.sha256

namespace DownloadPlay

variable (p : DownloadPlay) (item : Item) (url : GetUrl Content)

/-- `download_delegate`. -/
def downloadDelegate : Text :=
  if p.downloadLocalhost then localhost else p.firstControlPlane

/-- `download_force_cache`, as the tasks set it. -/
def forceCache : Bool :=
  if p.downloadRunOnce then true else p.downloadForceCache

/-- The conditions of `download | Download files / images`. -/
def includes (host : Text) : Bool :=
  !p.skipDownloads && item.enabled &&
    ((p.downloadRunOnce && host = p.downloadDelegate) ||
      (p.groupNames host).any (· ∈ item.groups))

/-- The hosts that include `download_file.yml`. -/
def included : List Text :=
  p.hosts.filter (p.includes item)

/-- `Download item`, on a host by itself. -/
def downloadHost (s : Stores Content) (host : Text) : Except Text (Stores Content) := do
  let content ← url.run host item.checksum (s.dest host)
  return { s with dest := Function.update s.dest host (some content) }

/-- `Download item`, on the delegate. -/
def downloadDelegated (s : Stores Content) : Except Text (Stores Content) := do
  let content ← url.run p.downloadDelegate item.checksum (s.cached p.downloadDelegate)
  return { s with cached := Function.update s.cached p.downloadDelegate (some content) }

/-- `Copy file back to ansible host file cache`, where `download_delegate ==
inventory_hostname`. -/
def copyBack (s : Stores Content) : Stores Content :=
  if p.downloadLocalhost = false ∧ p.downloadDelegate ∈ p.included item then
    { s with cached := Function.update s.cached localhost (s.cached p.downloadDelegate) }
  else s

/-- `Copy file from cache to nodes, if it is available`. -/
def pushToNodes (s : Stores Content) : Except Text (Stores Content) :=
  match s.cached localhost with
  | some content =>
    .ok { s with dest := fun host =>
            if host ∈ p.included item then some content else s.dest host }
  | none => .error "rsync: link_stat".toList

/-- `download_file.yml` on the hosts that include it. A task that runs once needs one of
them. -/
def downloadFile (s : Stores Content) : Except Text (Stores Content) :=
  if p.included item = [] then .ok s
  else if p.forceCache then do
    let s ← p.downloadDelegated item url s
    p.pushToNodes item (p.copyBack item s)
  else (p.included item).foldlM (downloadHost item url) s

/-- The file has the declared checksum. -/
def IsPinned (url : GetUrl Content) (item : Item) (file : Option Content) : Prop :=
  ∃ content, file = some content ∧ url.sha256 content = item.sha256

/-- Every host that includes the tasks ends with the pinned file. -/
def Pinned (s : Stores Content) : Prop :=
  ∀ host ∈ p.included item, IsPinned url item (s.dest host)

variable {p item url} {s s' : Stores Content} {host : Text} {content : Content}

/-- What was downloaded with a checksum has it. -/
theorem sha256_of_run (hsha : item.sha256 ≠ []) {current : Option Content}
    (h : url.run host item.checksum current = .ok content) :
    url.sha256 content = item.sha256 := by
  rw [Item.checksum, if_neg hsha] at h
  exact url.verified host item.sha256 current content h

/-- A host that downloads for itself has the pinned file, and no other host loses it. -/
theorem downloadHost_pinned (hsha : item.sha256 ≠ []) (h : downloadHost item url s host = .ok s') :
    IsPinned url item (s'.dest host) ∧
      ∀ other, IsPinned url item (s.dest other) → IsPinned url item (s'.dest other) := by
  obtain ⟨content, hrun, h⟩ := ok_of_bind h
  cases h
  have hhost : IsPinned url item (Function.update s.dest host (some content) host) := by
    rw [Function.update_self]
    exact ⟨content, rfl, sha256_of_run hsha hrun⟩
  refine ⟨hhost, fun other hother => ?_⟩
  by_cases heq : other = host
  · subst heq
    exact hhost
  · have hsame : Function.update s.dest host (some content) other = s.dest other :=
      Function.update_of_ne heq ..
    rw [← hsame] at hother
    exact hother

/-- **Without the cache**, every host downloads the pinned file. -/
theorem downloadEach_pinned (hsha : item.sha256 ≠ []) {hosts : List Text}
    (h : hosts.foldlM (downloadHost item url) s = .ok s') :
    ∀ host ∈ hosts, IsPinned url item (s'.dest host) := by
  induction hosts generalizing s with
  | nil =>
      intro host hmem
      cases hmem
  | cons first rest ih =>
      obtain ⟨s₁, hstep, h⟩ := foldlM_cons_eq_ok_iff.mp h
      have hfirst : IsPinned url item (s'.dest first) :=
        foldlM_invariant (fun _ _ _ _ hpinned hstep => (downloadHost_pinned hsha hstep).2 _ hpinned)
          (downloadHost_pinned hsha hstep).1 h
      exact List.forall_mem_cons.mpr ⟨hfirst, ih h⟩

/-- The cache of the Ansible host after the copy back: the delegate's, when the delegate is the
Ansible host or includes the tasks. -/
theorem cached_copyBack : (p.copyBack item s).cached localhost =
    if p.downloadDelegate = localhost ∨ p.downloadDelegate ∈ p.included item then
      s.cached p.downloadDelegate
    else s.cached localhost := by
  rw [copyBack]
  by_cases hlocal : p.downloadDelegate = localhost
  · rw [if_pos (Or.inl hlocal), hlocal]
    split_ifs
    · exact Function.update_self localhost (s.cached localhost) s.cached
    · rfl
  · have hflag : p.downloadLocalhost = false := by
      by_contra hflag
      exact hlocal (if_pos (Bool.not_eq_false _ ▸ hflag))
    by_cases hin : p.downloadDelegate ∈ p.included item
    · rw [if_pos ⟨hflag, hin⟩, if_pos (Or.inr hin)]
      exact Function.update_self localhost (s.cached p.downloadDelegate) s.cached
    · rw [if_neg fun h => hin h.2, if_neg (not_or.mpr ⟨hlocal, hin⟩)]

/-- A completed push leaves the file of the cache on every node. -/
theorem pushToNodes_eq_ok (h : p.pushToNodes item s = .ok s') :
    s'.cached = s.cached ∧ ∀ host ∈ p.included item, s'.dest host = s.cached localhost := by
  rw [pushToNodes] at h
  split at h
  · rename_i content hcached
    cases h
    exact ⟨rfl, fun host hmem => (if_pos hmem).trans hcached.symm⟩
  · cases h

/-- **What a completed download does**: nothing, when no host includes the tasks. Without the
cache every host downloads. With it every host ends with what then lies in the cache of the
Ansible host: the download, or what was there before. -/
theorem downloadFile_eq_ok (h : p.downloadFile item url s = .ok s') :
    (p.included item = [] ∧ s' = s) ∨
      (p.included item ≠ [] ∧ p.forceCache = false ∧
        (p.included item).foldlM (downloadHost item url) s = .ok s') ∨
      (p.included item ≠ [] ∧ p.forceCache = true ∧
        (∀ host ∈ p.included item, s'.dest host = s'.cached localhost) ∧
        ∃ content, url.run p.downloadDelegate item.checksum (s.cached p.downloadDelegate)
            = .ok content ∧
          s'.cached localhost =
            if p.downloadDelegate = localhost ∨ p.downloadDelegate ∈ p.included item then
              some content
            else s.cached localhost) := by
  rw [downloadFile] at h
  split_ifs at h with hnil hforce
  · cases h
    exact Or.inl ⟨hnil, rfl⟩
  · obtain ⟨s₁, hdelegated, h⟩ := ok_of_bind h
    obtain ⟨content, hrun, hdelegated⟩ := ok_of_bind hdelegated
    cases hdelegated
    obtain ⟨hcached, hdest⟩ := pushToNodes_eq_ok h
    refine Or.inr (Or.inr ⟨hnil, hforce, fun host hmem => ?_, content, hrun, ?_⟩)
    · rw [hdest host hmem, hcached]
    · rw [hcached, cached_copyBack]
      split_ifs with hdelegate
      · exact Function.update_self ..
      · exact Function.update_of_ne (fun hlocal => hdelegate (Or.inl hlocal.symm)) ..
  · exact Or.inr (Or.inl ⟨hnil, Bool.eq_false_iff.mpr hforce, h⟩)

/-- Without hosts there is nothing to pin. -/
theorem pinned_of_included_nil (hnil : p.included item = []) : p.Pinned item url s := by
  intro host hmem
  rw [hnil] at hmem
  cases hmem

/-- **Pinned files.** After a completed download every host that includes the tasks has the
pinned file exactly when the cache is not used, the delegate is the Ansible host or includes the
tasks, or the Ansible host has the pinned file already. -/
theorem pinned_iff (p : DownloadPlay) (item : Item) (url : GetUrl Content)
    (hsha : item.sha256 ≠ []) (h : p.downloadFile item url s = .ok s') :
    p.Pinned item url s' ↔ (p.forceCache = true → p.included item ≠ [] →
      p.downloadDelegate = localhost ∨ p.downloadDelegate ∈ p.included item ∨
        IsPinned url item (s.cached localhost)) := by
  rcases downloadFile_eq_ok h with ⟨hnil, -⟩ | ⟨-, hforce, hloop⟩ |
    ⟨hne, hforce, hdest, content, hrun, hcached⟩
  · exact iff_of_true (pinned_of_included_nil hnil) fun _ hne => absurd hnil hne
  · refine iff_of_true (downloadEach_pinned hsha hloop) fun htrue => ?_
    rw [hforce] at htrue
    cases htrue
  · have hpinned : p.Pinned item url s' ↔ IsPinned url item (s'.cached localhost) := by
      obtain ⟨host, hmem⟩ := List.exists_mem_of_ne_nil _ hne
      refine ⟨fun hall => hdest host hmem ▸ hall host hmem, fun hone other hother => ?_⟩
      rwa [hdest other hother]
    rw [hpinned, hcached]
    split_ifs with hdelegate
    · refine iff_of_true ⟨content, rfl, sha256_of_run hsha hrun⟩ fun _ _ => ?_
      exact hdelegate.imp_right Or.inl
    · rw [not_or] at hdelegate
      exact ⟨fun hold _ _ => Or.inr (Or.inr hold), fun hcond =>
        ((hcond hforce hne).resolve_left hdelegate.1).resolve_left hdelegate.2⟩

/-! ### Several plays -/

/-- Downloading on a host leaves the caches alone. -/
theorem cached_downloadEach {hosts : List Text}
    (h : hosts.foldlM (downloadHost item url) s = .ok s') : s'.cached = s.cached := by
  refine foldlM_invariant (I := fun t => t.cached = s.cached) (fun t host t' _ ht hstep => ?_) rfl h
  obtain ⟨content, -, hstep⟩ := ok_of_bind hstep
  cases hstep
  exact ht

/-- **One play**, when the Ansible host has the pinned file: the hosts end with it, and the
Ansible host keeps it. -/
theorem pinned_step (hsha : item.sha256 ≠ []) (hcached : IsPinned url item (s.cached localhost))
    (h : p.downloadFile item url s = .ok s') :
    p.Pinned item url s' ∧ IsPinned url item (s'.cached localhost) := by
  rcases downloadFile_eq_ok h with ⟨hnil, rfl⟩ | ⟨-, -, hloop⟩ |
    ⟨-, -, hdest, content, hrun, hkept⟩
  · exact ⟨pinned_of_included_nil hnil, hcached⟩
  · refine ⟨downloadEach_pinned hsha hloop, ?_⟩
    rwa [cached_downloadEach hloop]
  · have hpinned : IsPinned url item (s'.cached localhost) := by
      rw [hkept]
      split_ifs
      · exact ⟨content, rfl, sha256_of_run hsha hrun⟩
      · exact hcached
    exact ⟨fun host hmem => hdest host hmem ▸ hpinned, hpinned⟩

/-- **Several plays.** Once a play has downloaded the item through the cache with the delegate
among its hosts, every later play ends with the pinned file, whatever its hosts are. -/
theorem pinned_after_delegate (hsha : item.sha256 ≠ []) {first : DownloadPlay}
    {plays : List DownloadPlay} (hforce : first.forceCache = true)
    (hdelegate : first.downloadDelegate ∈ first.included item)
    (h : (first :: plays ++ [p]).foldlM (fun t q => q.downloadFile item url t) s = .ok s') :
    p.Pinned item url s' := by
  obtain ⟨s₂, h, hlast⟩ := foldlM_append_eq_ok_iff.mp h
  obtain ⟨s₁, hfirst, hplays⟩ := foldlM_cons_eq_ok_iff.mp h
  obtain ⟨s₃, hlast, hdone⟩ := foldlM_cons_eq_ok_iff.mp hlast
  cases hdone
  have hfilled : IsPinned url item (s₁.cached localhost) := by
    rcases downloadFile_eq_ok hfirst with ⟨hnil, -⟩ | ⟨-, hno, -⟩ |
      ⟨-, -, -, content, hrun, hcached⟩
    · exact absurd hnil (List.ne_nil_of_mem hdelegate)
    · rw [hforce] at hno
      cases hno
    · rw [hcached, if_pos (Or.inr hdelegate)]
      exact ⟨content, rfl, sha256_of_run hsha hrun⟩
  have hpinned : IsPinned url item (s₂.cached localhost) :=
    foldlM_invariant (I := fun t => IsPinned url item (t.cached localhost))
      (fun _ _ _ _ ht hstep => (pinned_step hsha ht hstep).2) hfilled hplays
  exact (pinned_step hsha hpinned hlast).1

/-! ### A play on some of the hosts -/

/-- The digests of the two contents below; other texts are only marked. -/
def digest (t : Text) : Text :=
  if t = "abc".toList then
    "ba7816bf8f01cfea414140de5dae2223b00361a396177a9cb410ff61f20015ad".toList
  else if t = [] then
    "e3b0c44298fc1c149afbf4c8996fb92427ae41e4649b934ca495991b7852b855".toList
  else '=' :: t

/-- An address that serves `abc`. -/
def abcUrl : GetUrl Text where
  sha256 := digest
  run _ checksum current :=
    if checksum.all fun sha => current.map digest = some sha then .ok (current.getD [])
    else if checksum.all fun sha => digest "abc".toList = sha then .ok "abc".toList
    else .error "The checksum did not match".toList
  verified host sha current content h := by
    split_ifs at h with hcurrent hserved
    · cases h
      have hdigest : current.map digest = some sha := of_decide_eq_true hcurrent
      obtain ⟨old, rfl, hold⟩ := Option.map_eq_some_iff.mp hdigest
      exact hold
    · cases h
      exact of_decide_eq_true hserved

/-- The item that is served. -/
def abcItem : Item where
  enabled := true
  sha256 := "ba7816bf8f01cfea414140de5dae2223b00361a396177a9cb410ff61f20015ad".toList
  groups := ["k8s_cluster".toList]

/-- All files are downloaded once, on `master`. -/
def runOnce (hosts : List Text) : DownloadPlay where
  hosts := hosts
  groupNames _ := ["k8s_cluster".toList]
  firstControlPlane := "master".toList
  skipDownloads := false
  downloadRunOnce := true
  downloadForceCache := false
  downloadLocalhost := false

/-- The Ansible host has the file of an earlier version. -/
def staleCache : Stores Text where
  dest _ := none
  cached host := if host = localhost then some [] else none

theorem pinned_allHosts :
    ∃ s', (runOnce ["master".toList, "node".toList]).downloadFile abcItem abcUrl staleCache
        = .ok s' ∧
      (runOnce ["master".toList, "node".toList]).Pinned abcItem abcUrl s' := by
  have hrun : (runOnce ["master".toList, "node".toList]).downloadFile abcItem abcUrl staleCache
      = .ok _ := rfl
  exact ⟨_, hrun, (pinned_iff _ _ _ (by decide) hrun).mpr fun _ _ => Or.inr (Or.inl (by decide))⟩

/-- In a play on `node` alone the download is not copied back, and the file of the earlier
version is pushed. -/
theorem pinned_fails :
    ∃ s', (runOnce ["node".toList]).downloadFile abcItem abcUrl staleCache = .ok s' ∧
      s'.dest "node".toList = some [] ∧ ¬ (runOnce ["node".toList]).Pinned abcItem abcUrl s' := by
  have hrun : (runOnce ["node".toList]).downloadFile abcItem abcUrl staleCache = .ok _ := rfl
  refine ⟨_, hrun, rfl, fun h => ?_⟩
  obtain ⟨content, hdest, hsha⟩ := h "node".toList (by decide)
  cases hdest
  exact absurd hsha (by decide)

end DownloadPlay

end Kubespray.Download
