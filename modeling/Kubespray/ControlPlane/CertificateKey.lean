import Kubespray.ControlPlane.FirstHost

/-!
# The Certificate Key of the Joining Hosts

`kubeadm-secondary.yml` uploads the certificates of the control plane from the host
`first_kube_control_plane`, and takes the key that decrypts them from the result registered
on `groups['kube_control_plane'][0]`. Where the two are different hosts, the second one has
skipped the upload, and the joining hosts are left with the `kubeadm_certificate_key` that
they had, if any.

## Main results

* `joinCertificateKey_first`, `joinCertificateKey_other`: the key that a joining host gets.
* `usesUploadedKey_iff`: when that is the key that was uploaded.
-/

namespace Kubespray.ControlPlane

open Plays

/-- What `kubeadm init phase upload-certs` prints: the last line is the key that it used. -/
structure UploadOutput where
  stdoutLines : List Text
  key : Text
  getLast?_stdoutLines : stdoutLines.getLast? = some key
  strip_key : strip key = key

/-- `kubeadm`, as far as the tasks read what it prints. -/
structure Kubeadm where
  /-- The certificate key that `kubeadm init` prints on a host. -/
  initKey : Text → Text
  /-- The upload from a host, with the `certificateKey` of its `kubeadm-config.yaml`. -/
  uploadCerts : Text → Option Text → UploadOutput

/-- The facts and the files of a host that the tasks read and set. -/
structure JoinFacts where
  kubeadmCertificateKey : Option Text
  /-- `certificateKey` of `kubeadm-config.yaml`. -/
  configCertificateKey : Option Text
  /-- The registered result, or `none` when the task was skipped. -/
  kubeadmUploadCert : Option UploadOutput
  /-- `certificateKey` of the `JoinConfiguration`, or `none` when there is no such file:
  the template fails where `kubeadm_certificate_key` is undefined. -/
  joinCertificateKey : Option Text

/-- A run of the role on the control plane. -/
structure JoinPlay extends ControlGroup where
  kubeExternalCaMode : Bool
  kubeadm : Kubeadm
  /-- The variable `kubeadm_certificate_key` of each host, where the inventory defines it. -/
  certificateKey : Text → Option Text

namespace JoinPlay

variable (p : JoinPlay)

/-- The facts before the tasks. -/
def initialFacts (host : Text) : JoinFacts where
  kubeadmCertificateKey := p.certificateKey host
  configCertificateKey := none
  kubeadmUploadCert := none
  joinCertificateKey := none

/-- `kubeadm | Create kubeadm config`. -/
def createConfig (_host : Text) (f : JoinFacts) : JoinFacts :=
  { f with configCertificateKey := f.kubeadmCertificateKey }

/-- The key in `hostvars[groups['kube_control_plane'][0]]['kubeadm_init']`, which has no
lines when the task was skipped. With `kube_external_ca_mode` it runs without `--upload-certs`
and prints no key. -/
def keyOfInit : Option Text :=
  (p.group.head?.filter fun host => p.runsKubeadmInit host && !p.kubeExternalCaMode).map
    p.kubeadm.initKey

/-- `set kubeadm certificate key`: where it is not defined. -/
def setInitKey (_host : Text) (f : JoinFacts) : JoinFacts :=
  { f with kubeadmCertificateKey := f.kubeadmCertificateKey.or p.keyOfInit }

/-- The conditions of `Upload certificates so they are fresh and not expired`. -/
def runsUpload (host : Text) : Bool :=
  (p.facts host).firstKubeControlPlane = some host && !p.kubeExternalCaMode

/-- `Upload certificates so they are fresh and not expired`. -/
def uploadCertificates (host : Text) (f : JoinFacts) : JoinFacts :=
  { f with kubeadmUploadCert :=
      if p.runsUpload host then some (p.kubeadm.uploadCerts host f.configCertificateKey)
      else none }

/-- `Parse certificate key if not set`, which runs on the first host of the group and is
skipped when the registered result of that host is. -/
def parseKey (_host : Text) (f : JoinFacts) : Option Text :=
  f.kubeadmUploadCert.bind fun out => out.stdoutLines.getLast?.map strip

/-- The fact that it sets on every host. -/
def setKey (key : Text) (f : JoinFacts) : JoinFacts :=
  { f with kubeadmCertificateKey := some key }

/-- The conditions of `Create kubeadm ControlPlane config`. -/
def joins (host : Text) : Bool :=
  (p.facts host).firstKubeControlPlane ≠ some host && !p.kubeadmAlreadyRun host

/-- `Create kubeadm ControlPlane config`. -/
def createControlPlaneConfig (host : Text) (f : JoinFacts) : JoinFacts :=
  if p.joins host then { f with joinCertificateKey := f.kubeadmCertificateKey } else f

/-- The facts after the upload. -/
def uploadedFacts : Text → JoinFacts :=
  each p.group p.uploadCertificates
    (each p.group p.setInitKey (each p.group createConfig p.initialFacts))

/-- The facts after the tasks. -/
def joinFacts : Text → JoinFacts :=
  each p.group p.createControlPlaneConfig
    (once p.group parseKey setKey p.uploadedFacts)

/-- Every joining host gets the last line that the upload printed. -/
def UsesUploadedKey : Prop :=
  ∀ first ∈ p.group, ∀ out, (p.joinFacts first).kubeadmUploadCert = some out →
    ∀ h ∈ p.group, p.joins h = true →
      ∃ key, (p.joinFacts h).joinCertificateKey = some key ∧ out.stdoutLines.getLast? = some key

variable {p} {first chosen h : Text} {rest : List Text}

/-- The facts of a host of the group after the upload. -/
theorem uploadedFacts_of_mem (hmem : h ∈ p.group) : p.uploadedFacts h =
    { kubeadmCertificateKey := (p.certificateKey h).or p.keyOfInit
      configCertificateKey := p.certificateKey h
      kubeadmUploadCert :=
        if p.runsUpload h then some (p.kubeadm.uploadCerts h (p.certificateKey h)) else none
      joinCertificateKey := none } := by
  rw [uploadedFacts, each_of_mem hmem, each_of_mem hmem, each_of_mem hmem]
  rfl

/-- Writing the file keeps the registered result. -/
theorem kubeadmUploadCert_createControlPlaneConfig (f : JoinFacts) :
    (p.createControlPlaneConfig h f).kubeadmUploadCert = f.kubeadmUploadCert := by
  rw [createControlPlaneConfig]
  split_ifs <;> rfl

/-- The later tasks keep the registered result. -/
theorem kubeadmUploadCert_joinFacts (hmem : h ∈ p.group) : (p.joinFacts h).kubeadmUploadCert =
    if p.runsUpload h then some (p.kubeadm.uploadCerts h (p.certificateKey h)) else none := by
  have hupload := congrArg JoinFacts.kubeadmUploadCert (uploadedFacts_of_mem hmem)
  have hparse : (once p.group parseKey setKey p.uploadedFacts h).kubeadmUploadCert
      = (p.uploadedFacts h).kubeadmUploadCert := by
    cases hgroup : p.group with
    | nil => rfl
    | cons first rest =>
        cases hkey : parseKey first (p.uploadedFacts first) with
        | none => rw [once_of_skip hkey]
        | some key =>
            rw [hgroup] at hmem
            rw [once_of_run hkey hmem, setKey]
  rw [joinFacts, each_of_mem hmem, kubeadmUploadCert_createControlPlaneConfig]
  exact hparse.trans hupload

/-- **The first host of the group uploads**: a joining host gets the key that it printed. -/
theorem joinCertificateKey_first (hgroup : p.group = first :: rest)
    (hupload : p.runsUpload first = true) (hmem : h ∈ p.group) (hjoins : p.joins h = true) :
    (p.joinFacts h).joinCertificateKey
      = some (p.kubeadm.uploadCerts first (p.certificateKey first)).key := by
  have hin : first ∈ p.group := by
    rw [hgroup]
    exact List.mem_cons_self
  have hkey : parseKey first (p.uploadedFacts first)
      = some (p.kubeadm.uploadCerts first (p.certificateKey first)).key := by
    rw [uploadedFacts_of_mem hin, parseKey, if_pos hupload, Option.bind_some,
      UploadOutput.getLast?_stdoutLines, Option.map_some, UploadOutput.strip_key]
  rw [joinFacts, each_of_mem hmem, createControlPlaneConfig, if_pos hjoins]
  rw [hgroup] at hmem ⊢
  rw [once_of_run hkey hmem, setKey]

/-- **The first host of the group does not upload**: a joining host keeps its own key. -/
theorem joinCertificateKey_other (hgroup : p.group = first :: rest)
    (hupload : p.runsUpload first = false) (hmem : h ∈ p.group) (hjoins : p.joins h = true) :
    (p.joinFacts h).joinCertificateKey = (p.certificateKey h).or p.keyOfInit := by
  have hin : first ∈ p.group := by
    rw [hgroup]
    exact List.mem_cons_self
  have hkey : parseKey first (p.uploadedFacts first) = none := by
    rw [uploadedFacts_of_mem hin, parseKey, hupload]
    rfl
  rw [joinFacts, each_of_mem hmem, createControlPlaneConfig, if_pos hjoins]
  have hskip : once p.group parseKey setKey p.uploadedFacts = p.uploadedFacts := by
    rw [hgroup]
    exact once_of_skip hkey
  rw [hskip, uploadedFacts_of_mem hmem]

/-- Every host chooses the same first control plane host: the first host of the group, or,
where that one has joined, the node listed first. -/
theorem exists_chosen (p : JoinPlay) : ∃ first rest chosen, p.group = first :: rest ∧
    chosen ∈ p.group ∧ (∀ h ∈ p.group, (p.facts h).firstKubeControlPlane = some chosen) ∧
    if first ∈ p.joined then p.listing.head? = some chosen else chosen = first := by
  cases hgroup : p.group with
  | nil =>
      obtain ⟨h, hh⟩ := List.exists_mem_of_ne_nil _ p.joined_ne_nil
      have hmem := p.joined_subset h hh
      rw [hgroup] at hmem
      cases hmem
  | cons first rest =>
      by_cases hfirst : first ∈ p.joined
      · have hne : p.listing ≠ [] := List.ne_nil_of_mem ((p.mem_listing first).mpr hfirst)
        obtain ⟨chosen, hhead⟩ : ∃ chosen, p.listing.head? = some chosen :=
          Option.ne_none_iff_exists'.mp (mt List.head?_eq_none_iff.mp hne)
        have hin : chosen ∈ p.group :=
          p.joined_subset chosen ((p.mem_listing chosen).mp (List.mem_of_mem_head? hhead))
        rw [hgroup] at hin
        refine ⟨first, rest, chosen, rfl, hin, fun h hmem => ?_, ?_⟩
        · rw [← hgroup] at hmem
          rw [ControlGroup.firstKubeControlPlane_joined hgroup hfirst hmem, hhead]
        · rw [if_pos hfirst, hhead]
      · refine ⟨first, rest, first, rfl, List.mem_cons_self, fun h hmem => ?_, ?_⟩
        · rw [← hgroup] at hmem
          exact ControlGroup.firstKubeControlPlane_notJoined hgroup hfirst hmem
        · rw [if_neg hfirst]

/-- The upload runs on the chosen host alone. -/
theorem runsUpload_iff
    (hchosen : ∀ h ∈ p.group, (p.facts h).firstKubeControlPlane = some chosen)
    (hmem : h ∈ p.group) :
    p.runsUpload h = true ↔ h = chosen ∧ p.kubeExternalCaMode = false := by
  rw [runsUpload, hchosen h hmem, Bool.and_eq_true, decide_eq_true_iff, Bool.not_eq_true',
    Option.some.injEq]
  exact and_congr_left' eq_comm

/-- The other hosts join, unless they have before. -/
theorem joins_iff (hchosen : ∀ h ∈ p.group, (p.facts h).firstKubeControlPlane = some chosen)
    (hmem : h ∈ p.group) : p.joins h = true ↔ h ≠ chosen ∧ p.kubeadmAlreadyRun h = false := by
  rw [joins, hchosen h hmem, Bool.and_eq_true, decide_eq_true_iff, Bool.not_eq_true', ne_eq,
    Option.some.injEq]
  exact and_congr_left' ne_comm

/-- Where the first host of the group is not the chosen one, it has not run
`kubeadm init`. -/
theorem keyOfInit_eq_none (hgroup : p.group = first :: rest)
    (hfirst : (p.facts first).firstKubeControlPlane = some chosen) (hne : chosen ≠ first) :
    p.keyOfInit = none := by
  have hskip : p.runsKubeadmInit first = false := by
    rw [ControlGroup.runsKubeadmInit, hfirst, decide_eq_false (mt Option.some.inj hne),
      Bool.false_and]
  rw [keyOfInit, hgroup, List.head?_cons, Option.filter_some, if_neg (by rw [hskip]; simp),
    Option.map_none]

/-- **The uploaded key is used** exactly when the first host of the group is the one that
uploads: it has not joined, or `kubectl` lists it first; or when every joining host was
given the uploaded key beforehand. -/
theorem usesUploadedKey_iff (p : JoinPlay) : p.UsesUploadedKey ↔
    p.kubeExternalCaMode = true ∨
    (∀ first ∈ p.group.head?, first ∈ p.joined → p.listing.head? = some first) ∨
    ∀ first ∈ p.listing.head?, ∀ h ∈ p.group, h ≠ first → p.kubeadmAlreadyRun h = false →
      p.certificateKey h = some (p.kubeadm.uploadCerts first (p.certificateKey first)).key := by
  obtain ⟨first, rest, chosen, hgroup, hin, hchosen, hwhich⟩ := exists_chosen p
  have hhead : p.group.head? = some first := by
    rw [hgroup]
    rfl
  have hfirst : first ∈ p.group := List.mem_of_mem_head? hhead
  -- only the chosen host has a registered result
  have honly : ∀ other ∈ p.group, ∀ out, (p.joinFacts other).kubeadmUploadCert = some out →
      other = chosen ∧ p.kubeExternalCaMode = false ∧
        p.kubeadm.uploadCerts chosen (p.certificateKey chosen) = out := by
    intro other hother out hout
    rw [kubeadmUploadCert_joinFacts hother] at hout
    split_ifs at hout with hruns
    obtain ⟨rfl, hca⟩ := (runsUpload_iff hchosen hother).mp hruns
    exact ⟨rfl, hca, Option.some.inj hout⟩
  by_cases heq : chosen = first
  · subst heq
    refine iff_of_true (fun other hother out hout h hmem hjoins => ?_) (Or.inr (Or.inl ?_))
    · obtain ⟨rfl, hca, rfl⟩ := honly other hother out hout
      have hruns := (runsUpload_iff hchosen hother).mpr ⟨rfl, hca⟩
      exact ⟨_, joinCertificateKey_first hgroup hruns hmem hjoins,
        UploadOutput.getLast?_stdoutLines _⟩
    · intro other hother hjoined
      obtain rfl : chosen = other := Option.some.inj (hhead.symm.trans hother)
      rwa [if_pos hjoined] at hwhich
  · have hjoined : first ∈ p.joined := by
      by_contra hnot
      rw [if_neg hnot] at hwhich
      exact heq hwhich
    rw [if_pos hjoined] at hwhich
    have hskip : p.runsUpload first = false := by
      rw [← Bool.not_eq_true, runsUpload_iff hchosen hfirst]
      exact fun h => heq h.1.symm
    have hkept : ∀ h ∈ p.group, p.joins h = true →
        (p.joinFacts h).joinCertificateKey = p.certificateKey h := by
      intro h hmem hjoins
      rw [joinCertificateKey_other hgroup hskip hmem hjoins,
        keyOfInit_eq_none hgroup (hchosen first hfirst) heq, Option.or_none]
    constructor
    · intro huses
      rw [or_iff_not_imp_left, Bool.not_eq_true]
      refine fun hca => Or.inr fun other hother h hmem hne hnot => ?_
      obtain rfl : chosen = other := Option.some.inj (hwhich.symm.trans hother)
      have hout := (kubeadmUploadCert_joinFacts hin).trans
        (if_pos ((runsUpload_iff hchosen hin).mpr ⟨rfl, hca⟩))
      have hjoins := (joins_iff hchosen hmem).mpr ⟨hne, hnot⟩
      obtain ⟨key, hkey, hlast⟩ := huses chosen hin _ hout h hmem hjoins
      rw [UploadOutput.getLast?_stdoutLines] at hlast
      rw [← hkept h hmem hjoins, hkey, hlast]
    · intro hcond other hother out hout h hmem hjoins
      obtain ⟨rfl, hca, rfl⟩ := honly other hother out hout
      rcases hcond with hext | hlisted | hgiven
      · rw [hca] at hext
        cases hext
      · exact absurd (Option.some.inj (hwhich.symm.trans (hlisted first hhead hjoined))) heq
      · obtain ⟨hne, hnot⟩ := (joins_iff hchosen hmem).mp hjoins
        refine ⟨_, ?_, UploadOutput.getLast?_stdoutLines _⟩
        rw [hkept h hmem hjoins, hgiven other hwhich h hmem hne hnot]

/-- One key for all hosts is the uploaded key: `kubeadm` takes the `certificateKey` of its
configuration. -/
theorem usesUploadedKey_of_sameKey {key : Text}
    (hkey : ∀ h ∈ p.group, p.certificateKey h = some key)
    (hupload : ∀ h, (p.kubeadm.uploadCerts h (some key)).key = key) : p.UsesUploadedKey := by
  refine (usesUploadedKey_iff p).mpr (Or.inr (Or.inr fun first hfirst h hmem _ _ => ?_))
  have hin : first ∈ p.group :=
    p.joined_subset first ((p.mem_listing first).mp (List.mem_of_mem_head? hfirst))
  rw [hkey h hmem, hkey first hin, hupload]

/-- `kubeadm` with a fixed key of its own. -/
def fixedKubeadm : Kubeadm where
  initKey _ := "f00d".toList
  uploadCerts _ _ :=
    { stdoutLines := ["[upload-certs] Using certificate key:".toList, "f00d".toList]
      key := "f00d".toList
      getLast?_stdoutLines := rfl
      strip_key := by decide }

/-- `b` and `a` have joined, in this order in the inventory, and `c` is new. No key is
defined beforehand. -/
def reversedGroup : JoinPlay where
  group := ["b".toList, "a".toList, "c".toList]
  joined := ["a".toList, "b".toList]
  joined_subset := by decide
  joined_ne_nil := by decide
  listing := ["a".toList, "b".toList]
  mem_listing _ := Iff.rfl
  kubeadmAlreadyRun host := host = "a".toList || host = "b".toList
  kubeExternalCaMode := false
  kubeadm := fixedKubeadm
  certificateKey _ := none

/-- The certificates are uploaded from `a`, which `kubectl` lists first, and the key is looked
for on `b`, so that `c` gets none. -/
theorem usesUploadedKey_fails :
    (reversedGroup.joinFacts "a".toList).kubeadmUploadCert ≠ none ∧
    reversedGroup.joins "c".toList = true ∧
    (reversedGroup.joinFacts "c".toList).joinCertificateKey = none ∧
    ¬ reversedGroup.UsesUploadedKey := by
  refine ⟨Option.some_ne_none _, by decide, rfl, fun h => ?_⟩
  obtain ⟨key, hkey, -⟩ := h "a".toList (by decide) _ rfl "c".toList (by decide) (by decide)
  cases hkey

end JoinPlay

end Kubespray.ControlPlane
