import Kubespray.EtcdCerts.Authority
import Kubespray.Library.Replication

/-!
# Delivering Certificates

After generation the certificates are copied from the first etcd node to the other hosts
of the play `etcd:kube_control_plane`. Who gets them is mostly decided by `sync_certs`,
which `check_certs.yml` computed before anything was generated: a host is synchronised
when one of the files tracked for it is missing or stale, or when its own certificates
are to be generated. For an etcd host the tracked files are the authority's certificate
and the member and admin pairs; the node pair is tracked on other cluster hosts only.

## Main results

* `syncCerts_eq_false_iff`: the hosts that are not synchronised.
* `run_copied`: what a completed run has copied.
* `delivered_iff`: every host ends with its files exactly when no host that is not
  synchronised needs a new authority or an untracked node pair.
-/

namespace Kubespray.EtcdCerts

open OrderedDict Fallible Replication

variable (s : Settings) (g : Groups) (files : Text → Directory)

/-- The hosts of the play `etcd:kube_control_plane`. -/
def playHosts : List Text :=
  g.etcd ++ g.kubeControlPlane.filter (· ∉ g.etcd)

/-! ### Who is synchronised -/

/-- A file does not exist on the host, or its checksum is not the registered one. -/
def stale (host : Text) (f : CertFile) : Bool :=
  (files host).get? f = none || (files host).get? f ≠ registered (files g.firstEtcd) f

/-- `etcd_member_requires_sync`. -/
def etcdMemberRequiresSync (host : Text) : Bool :=
  host ∈ g.etcd && (.ca :: memberFiles host).any (stale g files host)

/-- `kubernetes_host_requires_sync`. -/
def kubernetesHostRequiresSync (host : Text) : Bool :=
  (host ∈ g.k8sCluster && host ∉ g.etcd) && (.ca :: nodeFiles host).any (stale g files host)

/-- `sync_certs`. -/
def syncCerts (host : Text) : Bool :=
  etcdMemberRequiresSync g files host || kubernetesHostRequiresSync g files host ||
    genMasterCerts s g (files g.firstEtcd) host = some true ||
    genNodeCerts s g (files g.firstEtcd) host = some true

/-! ### Copying -/

/-- The items of `Gather etcd member/admin and kube_control_plane client certs`. -/
def etcdMasterCerts : List CertFile :=
  [.ca, .caKey] ++ g.etcd.flatMap memberFiles ++ g.kubeControlPlane.flatMap nodeFiles

/-- The items of `Gather node certs from first etcd node`. -/
def etcdMasterNodeCerts : List CertFile :=
  g.k8sCluster.flatMap nodeFiles

/-- `my_etcd_node_certs`. -/
def myEtcdNodeCerts (host : Text) : List CertFile :=
  .ca :: nodeFiles host

/-- The hosts for which `Write etcd member/admin and kube_control_plane client certs to
other etcd nodes` runs. -/
def otherEtcdSynced : List Text :=
  (playHosts g).filter fun host =>
    host ∈ g.etcd && syncCerts s g files host && host ≠ g.firstEtcd

/-- The hosts for which `Write node certs to other etcd nodes` runs. -/
def otherEtcdNodes : List Text :=
  (playHosts g).filter fun host =>
    host ∈ g.etcd && host ≠ g.firstEtcd && s.nodesNeedCerts

/-- The hosts for which `gen_nodes_certs_script.yml` is included first. -/
def controlPlaneSynced : List Text :=
  (playHosts g).filter fun host =>
    host ∈ g.kubeControlPlane && syncCerts s g files host && host ∉ g.etcd

/-- The hosts for which `gen_nodes_certs_script.yml` is included again. -/
def clusterSynced : List Text :=
  (playHosts g).filter fun host =>
    s.nodesNeedCerts && (host ∈ g.k8sCluster && syncCerts s g files host && host ∉ g.etcd)

/-- `check_certs.yml` and `gen_certs_script.yml` on the play. The gathering and the
writing of a pair of tasks are one round of copies, since nothing is written to the first
etcd node in between. -/
def run (nextKey : ℕ) : Except Text (Text → Directory) := do
  let made ← generate s g (files g.firstEtcd) nextKey
  let current := Function.update files g.firstEtcd made.1
  let current ← replicate "Gen_certs | Gather etcd member/admin certs".toList g.firstEtcd
    (fun _ => etcdMasterCerts g) (otherEtcdSynced s g files) current
  let current ← replicate "Gen_certs | Gather node certs from first etcd node".toList g.firstEtcd
    (fun _ => etcdMasterNodeCerts g) (otherEtcdNodes s g) current
  let current ← replicate "Gen_certs | Gather node certs".toList g.firstEtcd
    myEtcdNodeCerts (controlPlaneSynced s g files) current
  replicate "Gen_certs | Gather node certs".toList g.firstEtcd
    myEtcdNodeCerts (clusterSynced s g files) current

/-! ### What the delivery promises, and what it needs -/

/-- The host has the files of the first etcd node. -/
def Same (host : Text) (fs : List CertFile) : Prop :=
  ∀ f ∈ fs, (files host).get? f = (files g.firstEtcd).get? f

/-- The host has the files, and they are those of the first etcd node. -/
def Holds (host : Text) (fs : List CertFile) : Prop :=
  ∀ f ∈ fs, (files host).get? f ≠ none ∧ (files host).get? f = (files g.firstEtcd).get? f

instance (host : Text) (fs : List CertFile) : Decidable (Holds g files host fs) :=
  inferInstanceAs (Decidable (∀ f ∈ fs, _))

/-- Every etcd host holds the authority's certificate and its own member and admin pairs,
and every control plane host the authority's certificate and its own node pair. -/
structure Delivered : Prop where
  etcd : ∀ host ∈ g.etcd, Holds g files host (.ca :: memberFiles host)
  controlPlane : ∀ host ∈ g.kubeControlPlane, Holds g files host (.ca :: nodeFiles host)

/-- Nothing calls for synchronising the host: no refresh is forced, its tracked files are
there and current, and the first etcd node has its node pair. -/
structure UpToDate (host : Text) : Prop where
  unforced : host ∈ g.etcd ∨ host ∈ g.k8sCluster → s.forceEtcdCertRefresh = false
  member : host ∈ g.etcd → Holds g files host (.ca :: memberFiles host)
  node : host ∈ g.k8sCluster → host ∉ g.etcd → Holds g files host (.ca :: nodeFiles host)
  nodePair : host ∈ g.k8sCluster → ∀ f ∈ nodeFiles host, (files g.firstEtcd).get? f ≠ none

/-- The authority stays: nothing is generated, or its key is on the first etcd node. -/
def CaKept : Prop :=
  genCerts s g (files g.firstEtcd) = true → (files g.firstEtcd).get? .caKey ≠ none

/-- The node pair of a host that is not synchronised is delivered all the same, or is the
first etcd node's already. -/
def NodePairCovered (host : Text) : Prop :=
  if host ∈ g.etcd then
    (s.nodesNeedCerts = true ∧ host ∈ g.k8sCluster) ∨ Same g files host (nodeFiles host)
  else
    host ∈ g.k8sCluster ∨ Same g files host (.ca :: nodeFiles host)

/-- No host that is up to date needs what only synchronising would bring. -/
def Converges : Prop :=
  ∀ host ∈ playHosts g, host ≠ g.firstEtcd → UpToDate s g files host →
    CaKept s g files ∧ (host ∈ g.kubeControlPlane → NodePairCovered s g files host)

variable {s g files} {files' : Text → Directory} {dir' : Directory} {k k' : ℕ}
variable {host : Text} {f : CertFile}

/-! ### Hosts that are not synchronised -/

/-- A file is current exactly when it is there and is the first etcd node's. -/
theorem stale_eq_false_iff (hf : f ≠ .caKey) : stale g files host f = false ↔
    (files host).get? f ≠ none ∧ (files host).get? f = (files g.firstEtcd).get? f := by
  simp [stale, registered, hf]

/-- The tracked files of a host are current. -/
theorem any_stale_eq_false_iff {fs : List CertFile} (hfs : .caKey ∉ fs) :
    fs.any (stale g files host) = false ↔ Holds g files host fs := by
  rw [List.any_eq_false]
  refine forall₂_congr fun f hf => ?_
  have hne : f ≠ .caKey := fun heq => hfs (heq ▸ hf)
  rw [Bool.not_eq_true, stale_eq_false_iff hne]

/-- A flag is not set when no refresh is forced and the files are there. -/
theorem any_missing_eq_false_iff {dir : Directory} {fs : List CertFile} (hfs : .caKey ∉ fs) :
    fs.any (missing dir) = false ↔ ∀ f ∈ fs, dir.get? f ≠ none := by
  rw [List.any_eq_false]
  refine forall₂_congr fun f hf => ?_
  have hne : f ≠ .caKey := fun heq => hfs (heq ▸ hf)
  simp [missing, registered, hne]

/-- **The hosts that are not synchronised** are those with nothing to synchronise. -/
theorem syncCerts_eq_false_iff : syncCerts s g files host = false ↔ UpToDate s g files host := by
  have hmember : (CertFile.ca :: memberFiles host).any (stale g files host) = false ↔
      Holds g files host (.ca :: memberFiles host) :=
    any_stale_eq_false_iff (by simp [memberFiles])
  have hnode : (CertFile.ca :: nodeFiles host).any (stale g files host) = false ↔
      Holds g files host (.ca :: nodeFiles host) :=
    any_stale_eq_false_iff (by simp [nodeFiles])
  have hmissing : (memberFiles host).any (missing (files g.firstEtcd)) = false ↔ _ :=
    any_missing_eq_false_iff (by simp [memberFiles])
  have hmissingNode : (nodeFiles host).any (missing (files g.firstEtcd)) = false ↔ _ :=
    any_missing_eq_false_iff (by simp [nodeFiles])
  rw [syncCerts, etcdMemberRequiresSync, kubernetesHostRequiresSync]
  simp only [Bool.or_eq_false_iff, Bool.and_eq_false_iff, decide_eq_false_iff_not, hmember, hnode,
    genMasterCerts_iff, genNodeCerts_iff, not_and, not_or, Bool.not_eq_true, hmissing,
    hmissingNode, not_not]
  constructor
  · rintro ⟨⟨⟨hm, hn⟩, hflag⟩, hflagNode⟩
    refine ⟨fun hin => hin.elim (fun hin => (hflag hin).1) fun hin => (hflagNode hin).1,
      fun hin => hm.resolve_left fun hno => hno hin,
      fun hin hout => hn.resolve_left fun hno => hno.elim (fun hno => hno hin) hout,
      fun hin => (hflagNode hin).2⟩
  · intro h
    refine ⟨⟨⟨?_, ?_⟩, fun hin => ⟨h.unforced (Or.inl hin), fun f hf => ?_⟩⟩,
      fun hin => ⟨h.unforced (Or.inr hin), h.nodePair hin⟩⟩
    · by_cases hin : host ∈ g.etcd
      · exact Or.inr (h.member hin)
      · exact Or.inl hin
    · by_cases hout : host ∈ g.etcd
      · exact Or.inl (Or.inr hout)
      · by_cases hin : host ∈ g.k8sCluster
        · exact Or.inr (h.node hin hout)
        · exact Or.inl (Or.inl hin)
    · obtain ⟨hne, hsame⟩ := h.member hin f (List.mem_cons_of_mem _ hf)
      rwa [← hsame]

/-! ### What a run copies -/

/-- The files that a run copies to a host. -/
def Delivers (s : Settings) (g : Groups) (files : Text → Directory) (host : Text)
    (f : CertFile) : Prop :=
  (((host ∈ otherEtcdSynced s g files ∧ f ∈ etcdMasterCerts g) ∨
    (host ∈ otherEtcdNodes s g ∧ f ∈ etcdMasterNodeCerts g)) ∨
    (host ∈ controlPlaneSynced s g files ∧ f ∈ myEtcdNodeCerts host)) ∨
    (host ∈ clusterSynced s g files ∧ f ∈ myEtcdNodeCerts host)

/-- **What a completed run does**: it generates on the first etcd node and copies from
there. -/
theorem run_copied (h : run s g files k = .ok files') :
    ∃ dir' k', generate s g (files g.firstEtcd) k = .ok (dir', k') ∧
      Copied g.firstEtcd (Delivers s g files) (Function.update files g.firstEtcd dir') files' := by
  obtain ⟨⟨dir', k'⟩, hgen, h⟩ := ok_of_bind h
  obtain ⟨files₁, h₁, h⟩ := ok_of_bind h
  obtain ⟨files₂, h₂, h⟩ := ok_of_bind h
  obtain ⟨files₃, h₃, h⟩ := ok_of_bind h
  exact ⟨dir', k', hgen, (((replicate_copied h₁).trans (replicate_copied h₂)).trans
    (replicate_copied h₃)).trans (replicate_copied h)⟩

/-- The hosts of the play. -/
theorem mem_playHosts : host ∈ playHosts g ↔ host ∈ g.etcd ∨ host ∈ g.kubeControlPlane := by
  rw [playHosts, List.mem_append, List.mem_filter, decide_eq_true_eq]
  tauto

/-- A synchronised etcd host is given the authority and the pairs of both groups. -/
theorem delivers_etcd (hetcd : host ∈ g.etcd) (hne : host ≠ g.firstEtcd)
    (hsync : syncCerts s g files host = true) (hf : f ∈ etcdMasterCerts g) :
    Delivers s g files host f := by
  refine Or.inl (Or.inl (Or.inl ⟨List.mem_filter.mpr ⟨mem_playHosts.mpr (Or.inl hetcd), ?_⟩, hf⟩))
  simp [hetcd, hne, hsync]

/-- A synchronised control plane host outside the etcd group is given its node pair. -/
theorem delivers_controlPlane (hcontrol : host ∈ g.kubeControlPlane) (hetcd : host ∉ g.etcd)
    (hsync : syncCerts s g files host = true) (hf : f ∈ myEtcdNodeCerts host) :
    Delivers s g files host f := by
  refine Or.inl (Or.inr ⟨List.mem_filter.mpr ⟨mem_playHosts.mpr (Or.inr hcontrol), ?_⟩, hf⟩)
  simp [hetcd, hcontrol, hsync]

/-- An etcd host that is not synchronised is given node pairs only, and only where the
network plugin needs them; any other host is given nothing. -/
theorem delivers_of_not_synced (hsync : syncCerts s g files host = false)
    (hne : host ≠ g.firstEtcd) : Delivers s g files host f ↔
      host ∈ g.etcd ∧ s.nodesNeedCerts = true ∧ f ∈ etcdMasterNodeCerts g := by
  simp [Delivers, otherEtcdSynced, otherEtcdNodes, controlPlaneSynced, clusterSynced,
    List.mem_filter, hsync, hne, mem_playHosts]
  tauto

/-! ### What changes on the first etcd node -/

/-- The files of a host that is not synchronised are not made anew. -/
theorem kept_of_not_synced (hgen : generate s g (files g.firstEtcd) k = .ok (dir', k'))
    (hsync : syncCerts s g files host = false) (hf : f ∈ memberFiles host ++ nodeFiles host) :
    dir'.get? f = (files g.firstEtcd).get? f := by
  rcases generate_eq_ok hgen with ⟨-, rfl⟩ | ⟨-, hmade, -⟩
  · rfl
  · simp only [syncCerts, Bool.or_eq_false_iff, decide_eq_false_iff_not] at hsync
    have hno : f ∉ generatedFiles s g (files g.firstEtcd) := by
      rw [mem_generatedFiles]
      simp only [memberFiles, nodeFiles, List.mem_append, List.mem_cons, List.not_mem_nil,
        or_false] at hf
      rcases hf with (rfl | rfl | rfl | rfl) | rfl | rfl <;>
        simp [regenerates, hsync.1.2, hsync.2]
    refine hmade.kept f hno ?_ ?_ <;> rintro rfl <;> simp [memberFiles, nodeFiles] at hf

/-- An authority that stays is the one that was there. -/
theorem ca_of_caKept (hgen : generate s g (files g.firstEtcd) k = .ok (dir', k'))
    (hkept : CaKept s g files) : dir'.get? .ca = (files g.firstEtcd).get? .ca := by
  refine ((authority_after_generate hgen).1 ?_).2
  cases hcerts : genCerts s g (files g.firstEtcd) with
  | false => exact Or.inl rfl
  | true => exact Or.inr (hkept hcerts)

/-! ### One host -/

/-- The files that the groups promise a host. -/
def promised (g : Groups) (host : Text) : List CertFile :=
  (if host ∈ g.etcd then .ca :: memberFiles host else []) ++
    (if host ∈ g.kubeControlPlane then .ca :: nodeFiles host else [])

/-- What is promised is expected on the first etcd node. -/
theorem expected_of_promised (hf : f ∈ promised g host) :
    f ∈ expectedFiles g g.kubeControlPlane := by
  rw [promised] at hf
  rcases List.mem_append.mp hf with hf | hf
  · split_ifs at hf with hmem
    · rcases List.mem_cons.mp hf with rfl | hf
      · exact List.mem_cons_self
      · exact List.mem_cons_of_mem _
          (List.mem_append_left _ (List.mem_flatMap.mpr ⟨host, hmem, hf⟩))
    · cases hf
  · split_ifs at hf with hmem
    · rcases List.mem_cons.mp hf with rfl | hf
      · exact List.mem_cons_self
      · exact List.mem_cons_of_mem _
          (List.mem_append_right _ (List.mem_flatMap.mpr ⟨host, hmem, hf⟩))
    · cases hf

/-- The delivery, host by host. -/
theorem delivered_iff_promised :
    Delivered g files ↔ ∀ host ∈ playHosts g, Holds g files host (promised g host) := by
  constructor
  · intro h host _ f hf
    rcases List.mem_append.mp hf with hf | hf
    · split_ifs at hf with hmem
      · exact h.etcd host hmem f hf
      · cases hf
    · split_ifs at hf with hmem
      · exact h.controlPlane host hmem f hf
      · cases hf
  · intro h
    refine ⟨fun host hmem f hf => ?_, fun host hmem f hf => ?_⟩
    · refine h host (mem_playHosts.mpr (Or.inl hmem)) f (List.mem_append_left _ ?_)
      rwa [if_pos hmem]
    · refine h host (mem_playHosts.mpr (Or.inr hmem)) f (List.mem_append_right _ ?_)
      rwa [if_pos hmem]

/-- What is promised to a host of the play includes the authority's certificate. -/
theorem ca_mem_promised (hplay : host ∈ playHosts g) : .ca ∈ promised g host := by
  rw [promised]
  rcases mem_playHosts.mp hplay with hmem | hmem
  · exact List.mem_append_left _ (by rw [if_pos hmem]; exact List.mem_cons_self)
  · exact List.mem_append_right _ (by rw [if_pos hmem]; exact List.mem_cons_self)

/-- **A synchronised host is given everything promised.** -/
theorem delivers_promised (hne : host ≠ g.firstEtcd) (hsync : syncCerts s g files host = true)
    (hf : f ∈ promised g host) : Delivers s g files host f := by
  have hexpected := expected_of_promised hf
  by_cases hetcd : host ∈ g.etcd
  · refine delivers_etcd hetcd hne hsync ?_
    rw [etcdMasterCerts]
    rcases List.mem_cons.mp hexpected with rfl | hmem
    · simp
    · rw [List.append_assoc]
      exact List.mem_append_right _ hmem
  · unfold promised at hf
    rw [if_neg hetcd, List.nil_append] at hf
    split_ifs at hf with hcontrol
    · exact delivers_controlPlane hcontrol hetcd hsync hf
    · cases hf

/-- A node pair is among the gathered ones exactly when its host is in the cluster. -/
theorem mem_etcdMasterNodeCerts (hf : f ∈ nodeFiles host) :
    f ∈ etcdMasterNodeCerts g ↔ host ∈ g.k8sCluster := by
  simp only [nodeFiles, List.mem_cons, List.not_mem_nil, or_false] at hf
  rcases hf with rfl | rfl <;> simp [etcdMasterNodeCerts, nodeFiles]

/-- The gathered files are node pairs. -/
theorem notMem_etcdMasterNodeCerts (hf : f ∈ CertFile.ca :: memberFiles host) :
    f ∉ etcdMasterNodeCerts g := by
  simp only [memberFiles, List.mem_cons, List.not_mem_nil, or_false] at hf
  rcases hf with rfl | rfl | rfl | rfl | rfl <;> simp [etcdMasterNodeCerts, nodeFiles]

/-- **The first etcd node keeps what it has** of the files promised to a host that is not
synchronised, when the authority stays. -/
theorem promised_unchanged (hgen : generate s g (files g.firstEtcd) k = .ok (dir', k'))
    (hkept : CaKept s g files) (hsync : syncCerts s g files host = false)
    (hf : f ∈ promised g host) : dir'.get? f = (files g.firstEtcd).get? f := by
  have hcases : f = .ca ∨ f ∈ memberFiles host ++ nodeFiles host := by
    rcases List.mem_append.mp hf with hf | hf
    · split_ifs at hf
      · exact (List.mem_cons.mp hf).imp_right (List.mem_append_left _)
      · cases hf
    · split_ifs at hf
      · exact (List.mem_cons.mp hf).imp_right (List.mem_append_right _)
      · cases hf
  rcases hcases with rfl | hpair
  · exact ca_of_caKept hgen hkept
  · exact kept_of_not_synced hgen hsync hpair

/-- A host that is up to date has the files promised to it, or is given them all the same,
exactly when its node pair is covered. -/
theorem promised_same_iff (hcurrent : UpToDate s g files host) :
    (∀ f ∈ promised g host,
        (host ∈ g.etcd ∧ s.nodesNeedCerts = true ∧ f ∈ etcdMasterNodeCerts g) ∨
          (files host).get? f = (files g.firstEtcd).get? f) ↔
      (host ∈ g.kubeControlPlane → NodePairCovered s g files host) := by
  constructor
  · intro h hcontrol
    have hpair : ∀ f ∈ .ca :: nodeFiles host, f ∈ promised g host := by
      intro f hf
      refine List.mem_append_right _ ?_
      rwa [if_pos hcontrol]
    rw [NodePairCovered]
    split_ifs with hetcd
    · by_cases hneed : s.nodesNeedCerts = true ∧ host ∈ g.k8sCluster
      · exact Or.inl hneed
      · refine Or.inr fun f hf => ?_
        refine (h f (hpair f (List.mem_cons_of_mem _ hf))).resolve_left fun hdel => ?_
        exact hneed ⟨hdel.2.1, (mem_etcdMasterNodeCerts hf).mp hdel.2.2⟩
    · exact Or.inr fun f hf => (h f (hpair f hf)).resolve_left fun hdel => hetcd hdel.1
  · intro hcovered f hf
    rcases List.mem_append.mp hf with hf | hf
    · split_ifs at hf with hetcd
      · exact Or.inr (hcurrent.member hetcd f hf).2
      · cases hf
    · split_ifs at hf with hcontrol
      · have hpair := hcovered hcontrol
        rw [NodePairCovered] at hpair
        split_ifs at hpair with hetcd
        · rcases List.mem_cons.mp hf with rfl | hf
          · exact Or.inr (hcurrent.member hetcd _ List.mem_cons_self).2
          · rcases hpair with ⟨hneed, hcluster⟩ | hsame
            · exact Or.inl ⟨hetcd, hneed, (mem_etcdMasterNodeCerts hf).mpr hcluster⟩
            · exact Or.inr (hsame f hf)
        · rcases hpair with hcluster | hsame
          · exact Or.inr (hcurrent.node hcluster hetcd f hf).2
          · exact Or.inr (hsame f hf)
      · cases hf

section OneRun

variable (hgen : generate s g (files g.firstEtcd) k = .ok (dir', k'))
variable (hcopy : Copied g.firstEtcd (Delivers s g files)
  (Function.update files g.firstEtcd dir') files')
include hgen hcopy

/-- A host holds what it is promised exactly when each file is delivered or was the same
already. -/
theorem holds_promised_iff (hne : host ≠ g.firstEtcd) :
    Holds g files' host (promised g host) ↔ ∀ f ∈ promised g host,
      Delivers s g files host f ∨ (files host).get? f = dir'.get? f := by
  refine forall₂_congr fun f hf => ?_
  have hthere : dir'.get? f ≠ none := expected_of_generate hgen (expected_of_promised hf)
  have hfirst : (files' g.firstEtcd).get? f = dir'.get? f := by
    rw [hcopy.at_primary, Function.update_self]
  rw [hfirst]
  by_cases hdel : Delivers s g files host f
  · have hcopied := hcopy.copied host f hdel
    rw [Function.update_self] at hcopied
    rw [hcopied]
    exact iff_of_true ⟨hthere, rfl⟩ (Or.inl hdel)
  · have hkept := hcopy.kept host f hdel
    rw [Function.update_of_ne hne] at hkept
    rw [hkept, or_iff_right hdel]
    exact ⟨And.right, fun hsame => ⟨by rwa [hsame], hsame⟩⟩

/-- The first etcd node holds what it is promised. -/
theorem holds_promised_first : Holds g files' g.firstEtcd (promised g g.firstEtcd) := by
  intro f hf
  refine ⟨?_, rfl⟩
  rw [hcopy.at_primary, Function.update_self]
  exact expected_of_generate hgen (expected_of_promised hf)

/-- **A host that is not synchronised** holds what it is promised exactly when the
authority stays and its node pair is covered. -/
theorem holds_promised_iff_of_not_synced (hold : OlderThan k (files host))
    (hplay : host ∈ playHosts g) (hne : host ≠ g.firstEtcd)
    (hsync : syncCerts s g files host = false) :
    Holds g files' host (promised g host) ↔
      CaKept s g files ∧ (host ∈ g.kubeControlPlane → NodePairCovered s g files host) := by
  rw [holds_promised_iff hgen hcopy hne, ← promised_same_iff (syncCerts_eq_false_iff.mp hsync)]
  simp only [delivers_of_not_synced hsync hne]
  constructor
  · intro h
    have hca : (files host).get? .ca = dir'.get? .ca := by
      refine (h .ca (ca_mem_promised hplay)).resolve_left fun hdel => ?_
      have hmem : CertFile.ca ∈ .ca :: memberFiles host := List.mem_cons_self
      exact notMem_etcdMasterNodeCerts hmem hdel.2.2
    have hkept : CaKept s g files := by
      intro hcerts hnone
      have hnew := (authority_after_generate hgen).2 hcerts hnone
      -- the host would hold a certificate that did not exist before
      exact absurd ((hold .ca _ (hca.trans hnew)).1) (Nat.lt_irrefl k)
    refine ⟨hkept, fun f hf => ?_⟩
    rw [← promised_unchanged hgen hkept hsync hf]
    exact h f hf
  · rintro ⟨hkept, h⟩ f hf
    rw [promised_unchanged hgen hkept hsync hf]
    exact h f hf

end OneRun

/-- **Delivery.** After a completed run every etcd host holds the authority's certificate
and its own member and admin pairs, and every control plane host the authority's
certificate and its own node pair, all as on the first etcd node, exactly when no host
that is up to date meets a new authority or a node pair that it is not given. -/
theorem delivered_iff (hold : ∀ host, OlderThan k (files host))
    (h : run s g files k = .ok files') : Delivered g files' ↔ Converges s g files := by
  obtain ⟨dir', k', hgen, hcopy⟩ := run_copied h
  rw [delivered_iff_promised]
  refine forall₂_congr fun host hplay => ?_
  by_cases hne : host = g.firstEtcd
  · subst hne
    exact iff_of_true (holds_promised_first hgen hcopy) fun hno => absurd rfl hno
  rw [← syncCerts_eq_false_iff]
  cases hsync : syncCerts s g files host with
  | true =>
      refine iff_of_true ?_ fun _ hfalse => by cases hfalse
      exact (holds_promised_iff hgen hcopy hne).mpr fun f hf =>
        Or.inl (delivers_promised hne hsync hf)
  | false =>
      rw [holds_promised_iff_of_not_synced hgen hcopy (hold host) hplay hne hsync]
      exact ⟨fun hcond _ _ => hcond, fun hcond => hcond hne rfl⟩

/-! ### An etcd host in the control plane -/

/-- The host `second` is an etcd host and the only control plane host. -/
def stackedGroups : Groups where
  firstEtcd := "first".toList
  otherEtcd := ["second".toList]
  kubeControlPlane := ["second".toList]
  k8sCluster := ["second".toList]

/-- The member and admin pairs of a host, from a key number on. -/
def memberPairs (host : Text) (k : ℕ) : List (CertFile × Pem) :=
  pair (.admin host) (.adminKey host) k 0 ++ pair (.member host) (.memberKey host) (k + 1) 0

/-- The authority and all the pairs of the group: what the first etcd node has once it has
generated them. -/
def allFiles : List (CertFile × Pem) :=
  pair .ca .caKey 0 0 ++ memberPairs "first".toList 1 ++ memberPairs "second".toList 3 ++
    pair (.node "second".toList) (.nodeKey "second".toList) 5 0

/-- Before the first copy: `second` has nothing. -/
def nothingCopied (host : Text) : Directory :=
  if host = "first".toList then directoryOf allFiles else OrderedDict.empty

/-- `second` has its member and admin pairs, and not yet its node pair. -/
def pairsCopied (host : Text) : Directory :=
  if host = "first".toList then directoryOf allFiles
  else directoryOf (pair .ca .caKey 0 0 ++ memberPairs "second".toList 3)

/-- Directories of two hosts are older than a key when the two are. -/
theorem olderThan_ite {dir₁ dir₂ : Directory} (h₁ : OlderThan k dir₁) (h₂ : OlderThan k dir₂)
    (host : Text) : OlderThan k (if host = "first".toList then dir₁ else dir₂) := by
  split_ifs
  · exact h₁
  · exact h₂

/-- A run that finds nothing copied delivers everything. -/
theorem delivered_nothingCopied :
    ∃ files', run plainSettings stackedGroups nothingCopied 6 = .ok files' ∧
      Delivered stackedGroups files' := by
  have hrun : run plainSettings stackedGroups nothingCopied 6 = .ok _ := rfl
  refine ⟨_, hrun, (delivered_iff (olderThan_ite (by decide) (by decide)) hrun).mpr ?_⟩
  rintro host hplay hne hcurrent
  have hsecond : host = "second".toList := by
    rcases mem_playHosts.mp hplay with hmem | hmem
    · exact List.mem_singleton.mp ((List.mem_cons.mp hmem).resolve_left hne)
    · exact List.mem_singleton.mp hmem
  subst hsecond
  exact absurd (syncCerts_eq_false_iff.mpr hcurrent) (by decide)

/-- A run that finds the member and admin pairs of `second` copied leaves it without the
node pair. -/
theorem delivered_fails :
    ¬ ∀ (s : Settings) (g : Groups) (files files' : Text → Directory) (k : ℕ),
      (∀ host, OlderThan k (files host)) → run s g files k = .ok files' →
      Delivered g files' := by
  intro h
  have hdelivered := h plainSettings stackedGroups pairsCopied _ 6
    (olderThan_ite (by decide) (by decide)) rfl
  exact absurd (hdelivered.controlPlane "second".toList (by decide)) (by decide)

end Kubespray.EtcdCerts
