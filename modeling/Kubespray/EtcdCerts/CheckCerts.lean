import Kubespray.EtcdCerts.Script

/-!
# Checking and Generating Certificates

`check_certs.yml` compares the certificate directories with what the groups call for and
sets flags; the first half of `gen_certs_script.yml` runs the certificate script on the
first etcd node for the hosts that were flagged. The check looks at `ca.pem`, but the
authority's key is not among the files it registers.

## Main results

* `mem_generatedFiles`: which files a run makes.
* `generate_eq_ok`: what a completed generation does to the first etcd node.
* `expected_of_generate`: afterwards every expected file is there.
-/

namespace Kubespray.EtcdCerts

open OrderedDict Fallible

/-- The groups the tasks read. -/
structure Groups where
  /-- `groups['etcd'][0]`. -/
  firstEtcd : Text
  otherEtcd : List Text
  kubeControlPlane : List Text
  k8sCluster : List Text

/-- `groups['etcd']`. -/
def Groups.etcd (g : Groups) : List Text :=
  g.firstEtcd :: g.otherEtcd

/-- The settings the tasks read. -/
structure Settings where
  forceEtcdCertRefresh : Bool
  kubeNetworkPlugin : Text
  ciliumDeployAdditionally : Bool
  calicoDatastore : Text

/-- The network plugin talks to etcd, so that all nodes need certificates:
`kube_network_plugin in ["calico", "flannel", "canal", "cilium"] or
cilium_deploy_additionally`, and `kube_network_plugin != "calico" or
calico_datastore == "etcd"`. -/
def Settings.nodesNeedCerts (s : Settings) : Bool :=
  (s.kubeNetworkPlugin ∈ ["calico".toList, "flannel".toList, "canal".toList, "cilium".toList] ||
    s.ciliumDeployAdditionally) &&
  (s.kubeNetworkPlugin ≠ "calico".toList || s.calicoDatastore = "etcd".toList)

variable (s : Settings) (g : Groups) (dir : Directory)

/-! ### The flags -/

/-- `etcdcert_master.files`: the files that match `ca.pem,node*.pem,member*.pem,admin*.pem`
on the first etcd node. -/
def registered (f : CertFile) : Option Pem :=
  if f = .caKey then none else dir.get? f

/-- The file is not among those registered. -/
def missing (f : CertFile) : Bool :=
  (registered dir f).isNone

/-- `expected_files`, for the hosts that need a node certificate. -/
def expectedFiles (hosts : List Text) : List CertFile :=
  .ca :: (g.etcd.flatMap memberFiles ++ hosts.flatMap nodeFiles)

/-- `gen_certs`, set by two tasks. -/
def genCerts : Bool :=
  ((expectedFiles g g.kubeControlPlane).any fun f => s.forceEtcdCertRefresh || missing dir f) ||
  (s.nodesNeedCerts &&
    (expectedFiles g g.k8sCluster).any fun f => s.forceEtcdCertRefresh || missing dir f)

/-- `gen_master_certs[host]`. -/
def genMasterCerts (host : Text) : Option Bool :=
  if host ∈ g.etcd then
    some (s.forceEtcdCertRefresh || (memberFiles host).any (missing dir))
  else none

/-- `gen_node_certs[host]`. -/
def genNodeCerts (host : Text) : Option Bool :=
  if host ∈ g.k8sCluster then
    some (s.forceEtcdCertRefresh || (nodeFiles host).any (missing dir))
  else none

/-! ### Generation -/

/-- A list of hosts in the environment of the script: those whose flag is set. A host
without a flag is an undefined variable. -/
def renderHosts (flags : Text → Option Bool) : List Text → Except Text (List Text)
  | [] => .ok []
  | host :: hosts =>
    match flags host with
    | none => .error "'dict object' has no attribute".toList
    | some flag => do
      let rest ← renderHosts flags hosts
      return if flag then host :: rest else rest

/-- `Gen_certs | run cert generation script for etcd and kube control plane nodes`. -/
def runForControlPlane (nextKey : ℕ) : Except Text (Directory × ℕ) := do
  let masters ← renderHosts (genMasterCerts s g dir) g.etcd
  let hosts ← renderHosts (genNodeCerts s g dir) g.kubeControlPlane
  makeSslEtcd masters hosts dir nextKey

/-- `Gen_certs | run cert generation script for all clients`, on the directory as the first
run left it. -/
def runForClients (dir' : Directory) (nextKey : ℕ) : Except Text (Directory × ℕ) := do
  let hosts ← renderHosts (genNodeCerts s g dir) g.k8sCluster
  makeSslEtcd [] hosts dir' nextKey

/-- The two runs of the script on the first etcd node. -/
def generate (nextKey : ℕ) : Except Text (Directory × ℕ) :=
  if genCerts s g dir then do
    let made ← runForControlPlane s g dir nextKey
    if s.nodesNeedCerts then runForClients s g dir made.1 made.2 else return made
  else
    .ok (dir, nextKey)

/-- A run that generates makes this file anew. -/
def regenerates : CertFile → Bool
  | .member host | .memberKey host | .admin host | .adminKey host =>
    genMasterCerts s g dir host = some true
  | .node host | .nodeKey host =>
    (host ∈ g.kubeControlPlane || (s.nodesNeedCerts && host ∈ g.k8sCluster)) &&
      genNodeCerts s g dir host = some true
  | .ca | .caKey => false

/-- The flagged ones of a list of hosts. -/
def flagged (flags : Text → Option Bool) (hosts : List Text) : List Text :=
  hosts.filter fun host => flags host = some true

/-- The files made by the two runs. -/
def generatedFiles : List CertFile :=
  madeFiles (flagged (genMasterCerts s g dir) g.etcd)
      (flagged (genNodeCerts s g dir) g.kubeControlPlane) ++
    if s.nodesNeedCerts then madeFiles [] (flagged (genNodeCerts s g dir) g.k8sCluster) else []

variable {s g dir} {dir' : Directory} {k k' : ℕ} {f : CertFile} {host : Text}

/-- A completed rendering lists the flagged hosts, and no flag was undefined. -/
theorem renderHosts_eq_ok {flags : Text → Option Bool} {hosts rendered : List Text}
    (h : renderHosts flags hosts = .ok rendered) :
    rendered = flagged flags hosts ∧ ∀ host ∈ hosts, flags host ≠ none := by
  induction hosts generalizing rendered with
  | nil =>
      cases h
      exact ⟨rfl, fun _ hmem => by cases hmem⟩
  | cons host hosts ih =>
      rw [renderHosts] at h
      cases hflag : flags host with
      | none =>
          rw [hflag] at h
          cases h
      | some flag =>
          rw [hflag] at h
          obtain ⟨rest, hrest, h⟩ := ok_of_bind h
          cases h
          obtain ⟨rfl, hdefined⟩ := ih hrest
          constructor
          · cases flag <;> simp [flagged, hflag]
          · intro other hother
            rcases List.mem_cons.mp hother with rfl | hother
            · rw [hflag]
              exact Option.some_ne_none _
            · exact hdefined other hother

/-- The etcd hosts whose member and admin pairs are to be made. -/
theorem genMasterCerts_iff : genMasterCerts s g dir host = some true ↔ host ∈ g.etcd ∧
    (s.forceEtcdCertRefresh = true ∨ (memberFiles host).any (missing dir) = true) := by
  rw [genMasterCerts]
  split_ifs with hmem <;> simp [hmem]

/-- A flagged etcd host makes a run generate. -/
theorem genCerts_of_genMasterCerts (h : genMasterCerts s g dir host = some true) :
    genCerts s g dir = true := by
  obtain ⟨hmem, hforce | hmissing⟩ := genMasterCerts_iff.mp h
  · rw [genCerts, Bool.or_eq_true]
    exact Or.inl (List.any_eq_true.mpr ⟨.ca, List.mem_cons_self, by rw [hforce, Bool.true_or]⟩)
  · obtain ⟨f, hf, hmiss⟩ := List.any_eq_true.mp hmissing
    have hexpected : f ∈ expectedFiles g g.kubeControlPlane :=
      List.mem_cons_of_mem _ (List.mem_append_left _ (List.mem_flatMap.mpr ⟨host, hmem, hf⟩))
    rw [genCerts, Bool.or_eq_true]
    exact Or.inl (List.any_eq_true.mpr ⟨f, hexpected, by rw [hmiss, Bool.or_true]⟩)

/-- The cluster hosts whose node pairs are to be made. -/
theorem genNodeCerts_iff : genNodeCerts s g dir host = some true ↔ host ∈ g.k8sCluster ∧
    (s.forceEtcdCertRefresh = true ∨ (nodeFiles host).any (missing dir) = true) := by
  rw [genNodeCerts]
  split_ifs with hmem <;> simp [hmem]

/-- **Which files a run makes.** -/
theorem mem_generatedFiles : f ∈ generatedFiles s g dir ↔ regenerates s g dir f = true := by
  have hmaster : ∀ host, host ∈ g.etcd ∧ genMasterCerts s g dir host = some true ↔
      genMasterCerts s g dir host = some true := fun host =>
    ⟨And.right, fun h => ⟨(genMasterCerts_iff.mp h).1, h⟩⟩
  rw [generatedFiles]
  cases hneed : s.nodesNeedCerts <;> cases f <;>
    simp [madeFiles, issuedMember, nodeFiles, flagged, regenerates, hmaster, hneed] <;> tauto

/-- **What a completed generation does.** -/
theorem generate_eq_ok (h : generate s g dir k = .ok (dir', k')) :
    (genCerts s g dir = false ∧ dir' = dir) ∨
      (genCerts s g dir = true ∧ Made (generatedFiles s g dir) dir k dir' k' ∧
        ∀ host ∈ g.kubeControlPlane, host ∈ g.k8sCluster) := by
  rw [generate] at h
  cases hgen : genCerts s g dir with
  | false =>
      rw [hgen, if_neg Bool.false_ne_true] at h
      cases h
      exact Or.inl ⟨rfl, rfl⟩
  | true =>
      rw [hgen, if_pos rfl] at h
      obtain ⟨⟨dir₁, k₁⟩, hfirst, h⟩ := ok_of_bind h
      obtain ⟨masters, hmasters, hfirst⟩ := ok_of_bind hfirst
      obtain ⟨hosts, hhosts, hfirst⟩ := ok_of_bind hfirst
      obtain ⟨rfl, -⟩ := renderHosts_eq_ok hmasters
      obtain ⟨rfl, hdefined⟩ := renderHosts_eq_ok hhosts
      refine Or.inr ⟨rfl, ?_, fun host hmem => ?_⟩
      · unfold generatedFiles
        cases hneed : s.nodesNeedCerts with
        | false =>
            rw [hneed, if_neg Bool.false_ne_true] at h
            cases h
            rw [if_neg Bool.false_ne_true, List.append_nil]
            exact makeSslEtcd_made hfirst
        | true =>
            rw [hneed, if_pos rfl] at h
            obtain ⟨clients, hclients, h⟩ := ok_of_bind h
            obtain ⟨rfl, -⟩ := renderHosts_eq_ok hclients
            rw [if_pos rfl]
            exact (makeSslEtcd_made hfirst).trans (makeSslEtcd_made h)
      · by_contra hno
        exact hdefined host hmem (if_neg hno)

/-- A registered file is in the directory. -/
theorem get?_ne_none_of_missing (h : missing dir f = false) : dir.get? f ≠ none := by
  intro hnone
  have hreg : registered dir f = none := by
    rw [registered]
    split_ifs
    · rfl
    · exact hnone
  rw [missing, hreg] at h
  cases h

/-- The member and admin files of an etcd host are there, or it is flagged. -/
theorem memberFiles_or_flag (hmem : host ∈ g.etcd) (hf : f ∈ memberFiles host) :
    dir.get? f ≠ none ∨ genMasterCerts s g dir host = some true := by
  by_cases hmiss : missing dir f = true
  · have hany := List.any_eq_true.mpr ⟨f, hf, hmiss⟩
    exact Or.inr (genMasterCerts_iff.mpr ⟨hmem, Or.inr hany⟩)
  · exact Or.inl (get?_ne_none_of_missing (Bool.eq_false_iff.mpr hmiss))

/-- The node pair of a cluster host is there, or it is flagged. -/
theorem nodeFiles_or_flag (hmem : host ∈ g.k8sCluster) (hf : f ∈ nodeFiles host) :
    dir.get? f ≠ none ∨ genNodeCerts s g dir host = some true := by
  by_cases hmiss : missing dir f = true
  · have hany := List.any_eq_true.mpr ⟨f, hf, hmiss⟩
    exact Or.inr (genNodeCerts_iff.mpr ⟨hmem, Or.inr hany⟩)
  · exact Or.inl (get?_ne_none_of_missing (Bool.eq_false_iff.mpr hmiss))

/-- **After a completed generation every expected file is there.** -/
theorem expected_of_generate (h : generate s g dir k = .ok (dir', k'))
    (hf : f ∈ expectedFiles g g.kubeControlPlane) : dir'.get? f ≠ none := by
  rcases generate_eq_ok h with ⟨hgen, rfl⟩ | ⟨-, hmade, hcluster⟩
  · rw [genCerts, Bool.or_eq_false_iff] at hgen
    have hno := List.any_eq_false.mp hgen.1 f hf
    rw [Bool.or_eq_true, not_or] at hno
    exact get?_ne_none_of_missing (Bool.eq_false_iff.mpr hno.2)
  · have hpresent : dir.get? f ≠ none ∨ regenerates s g dir f = true → f ≠ .ca → f ≠ .caKey →
        dir'.get? f ≠ none := by
      intro hcases hca hkey
      by_cases hfresh : f ∈ generatedFiles s g dir
      · obtain ⟨p, hp, -⟩ := hmade.fresh f hfresh
        rw [hp]
        exact Option.some_ne_none _
      · rw [hmade.kept f hfresh hca hkey]
        exact hcases.resolve_right fun hregen => hfresh (mem_generatedFiles.mpr hregen)
    rcases List.mem_cons.mp hf with rfl | hf
    · exact hmade.ca_ne_none.1
    rcases List.mem_append.mp hf with hf | hf
    · obtain ⟨host, hmem, hf⟩ := List.mem_flatMap.mp hf
      have hcases : dir.get? f ≠ none ∨ genMasterCerts s g dir host = some true :=
        memberFiles_or_flag hmem hf
      simp only [memberFiles, List.mem_cons, List.not_mem_nil, or_false] at hf
      rcases hf with rfl | rfl | rfl | rfl <;>
        exact hpresent (hcases.imp_right decide_eq_true) (by simp) (by simp)
    · obtain ⟨host, hmem, hf⟩ := List.mem_flatMap.mp hf
      have hcases : dir.get? f ≠ none ∨ genNodeCerts s g dir host = some true :=
        nodeFiles_or_flag (hcluster host hmem) hf
      have hregen : genNodeCerts s g dir host = some true →
          ((host ∈ g.kubeControlPlane || (s.nodesNeedCerts && host ∈ g.k8sCluster)) &&
            genNodeCerts s g dir host = some true) = true := by
        intro hflag
        simp [hmem, hflag]
      simp only [nodeFiles, List.mem_cons, List.not_mem_nil, or_false] at hf
      rcases hf with rfl | rfl <;>
        exact hpresent (hcases.imp_right hregen) (by simp) (by simp)

end Kubespray.EtcdCerts
