import Kubespray.EtcdCerts.CheckCerts

/-!
# One Certificate Authority

The certificates on the first etcd node are to be signed by the authority whose
certificate lies next to them. Which certificates are made anew is decided host by host
from the files registered, and whether the authority is replaced is decided by the script
from `ca-key.pem`, which is not registered.

## Main results

* `authority_after_generate`: the authority after a completed generation.
* `Made.signed_iff`: a run of the script leaves one authority exactly when the
  certificates it did not make are signed by the authority it leaves.
* `signedByCa_iff`: all certificates are signed by the authority exactly when the
  authority was not replaced, or every certificate was.
-/

namespace Kubespray.EtcdCerts

open OrderedDict

/-- Every member, admin and node certificate of the directory is signed by the key of
this authority. -/
def SignedBy (ca : Pem) (dir : Directory) : Prop :=
  ∀ f, f.isCert = true → ∀ p ∈ dir.get? f, p.signer = some ca.key

/-- The directory has an authority, and it signed every certificate there. -/
def SignedByCa (dir : Directory) : Prop :=
  ∃ ca ∈ dir.get? .ca, SignedBy ca dir

/-- The keys of a directory are older than the next key of `openssl genrsa`. -/
def OlderThan (k : ℕ) (dir : Directory) : Prop :=
  ∀ f, ∀ p ∈ dir.get? f, p.key < k ∧ ∀ signer ∈ p.signer, signer < k

instance (ca : Pem) (dir : Directory) : Decidable (SignedBy ca dir) :=
  decidable_of_iff (∀ e ∈ dir.entries, e.1.isCert = true → e.2.signer = some ca.key)
    ⟨fun h f hf p hp => h (f, p) (mem_entries_of_get? hp) hf,
      fun h e he hf => h e.1 hf e.2 (get?_of_mem_entries he)⟩

instance (dir : Directory) : Decidable (SignedByCa dir) :=
  inferInstanceAs (Decidable (∃ ca ∈ dir.get? .ca, SignedBy ca dir))

instance (k : ℕ) (dir : Directory) : Decidable (OlderThan k dir) :=
  decidable_of_iff' _ forall_get?_iff

variable {s : Settings} {g : Groups} {dir dir' : Directory} {k k' : ℕ}

/-- **The authority after a completed generation**: the one that was there when its key
was there or nothing was generated, and a new one otherwise. -/
theorem authority_after_generate (h : generate s g dir k = .ok (dir', k')) :
    (genCerts s g dir = false ∨ dir.get? .caKey ≠ none →
      dir.get? .ca ≠ none ∧ dir'.get? .ca = dir.get? .ca) ∧
    (genCerts s g dir = true → dir.get? .caKey = none →
      dir'.get? .ca = some { key := k, signer := some k }) := by
  have hexpected : dir'.get? .ca ≠ none := expected_of_generate h List.mem_cons_self
  rcases generate_eq_ok h with ⟨hgen, rfl⟩ | ⟨hgen, hmade, -⟩
  · exact ⟨fun _ => ⟨hexpected, rfl⟩, fun htrue => by rw [hgen] at htrue; cases htrue⟩
  · refine ⟨fun hcases => ?_, fun _ hkey => (hmade.replaced hkey).1⟩
    have hkey : dir.get? .caKey ≠ none :=
      hcases.resolve_left fun hfalse => by rw [hgen] at hfalse; cases hfalse
    obtain ⟨hca, hsame, -⟩ := hmade.reused hkey
    exact ⟨hca, hsame⟩

/-- A certificate is none of the authority's files. -/
theorem ne_ca_of_isCert {f : CertFile} (h : f.isCert = true) : f ≠ .ca ∧ f ≠ .caKey := by
  constructor <;> rintro rfl <;> cases h

/-- After a run of the script all certificates are signed by the authority exactly when
those that the script did not make are. -/
theorem Made.signed_iff {fs : List CertFile} (h : Made fs dir k dir' k') {ca : Pem}
    (hca : dir'.get? .ca = some ca) : SignedByCa dir' ↔
      ∀ f ∉ fs, f.isCert = true → ∀ p ∈ dir.get? f, p.signer = some ca.key := by
  have hkept : ∀ f ∉ fs, f.isCert = true → dir'.get? f = dir.get? f := fun f hf hcert =>
    h.kept f hf (ne_ca_of_isCert hcert).1 (ne_ca_of_isCert hcert).2
  constructor
  · rintro ⟨ca', hca', hall⟩ f hf hcert p hp
    obtain rfl : ca = ca' := Option.some.inj (hca.symm.trans hca')
    exact hall f hcert p ((hkept f hf hcert).trans hp)
  · intro hothers
    refine ⟨ca, hca, fun f hcert p hp => ?_⟩
    by_cases hf : f ∈ fs
    · obtain ⟨q, hq, -, hsigned⟩ := h.fresh f hf
      obtain rfl : q = p := Option.some.inj (hq.symm.trans hp)
      obtain ⟨ca', hca', hsigner⟩ := hsigned hcert
      obtain rfl : ca = ca' := Option.some.inj (hca.symm.trans hca')
      exact hsigner
    · exact hothers f hf hcert p ((hkept f hf hcert).symm.trans hp)

/-- **One authority.** After a completed run on a directory whose certificates its
authority had signed, all certificates are signed by the authority that is there then,
exactly when nothing was generated, or the authority's key was there, or every
certificate that was there was made anew. -/
theorem signedByCa_iff (hold : OlderThan k dir) (hsigned : ∀ ca ∈ dir.get? .ca, SignedBy ca dir)
    (h : generate s g dir k = .ok (dir', k')) :
    SignedByCa dir' ↔
      genCerts s g dir = false ∨ dir.get? .caKey ≠ none ∨
        ∀ f ∈ dir.keys, f.isCert = true → regenerates s g dir f = true := by
  rcases generate_eq_ok h with ⟨hgen, rfl⟩ | ⟨hgen, hmade, -⟩
  · obtain ⟨ca, hca⟩ :=
      Option.ne_none_iff_exists'.mp (expected_of_generate h List.mem_cons_self)
    exact iff_of_true ⟨ca, hca, hsigned ca hca⟩ (Or.inl hgen)
  rw [hgen, or_iff_right (fun htrue => by cases htrue)]
  cases hkey : dir.get? .caKey with
  | some caKey =>
      have hne : dir.get? .caKey ≠ none := by
        rw [hkey]
        exact Option.some_ne_none _
      obtain ⟨hthere, hsame, -⟩ := hmade.reused hne
      obtain ⟨ca, hca⟩ := Option.ne_none_iff_exists'.mp hthere
      refine iff_of_true ?_ (Or.inl (Option.some_ne_none _))
      exact (hmade.signed_iff (hsame.trans hca)).mpr fun f _ hf p hp => hsigned ca hca f hf p hp
  | none =>
      rw [hmade.signed_iff (hmade.replaced hkey).1, or_iff_right (fun hne => hne rfl)]
      constructor
      · intro hall f hmem hcert
        by_contra hno
        obtain ⟨p, hp⟩ := mem_keys_iff.mp hmem
        -- an old certificate would be signed by the new key
        have hsigner := hall f (fun hfresh => hno (mem_generatedFiles.mp hfresh)) hcert p hp
        exact absurd ((hold f p hp).2 k hsigner) (Nat.lt_irrefl k)
      · intro hall f hno hcert p hp
        have hmem : f ∈ dir.keys := mem_keys_iff.mpr ⟨p, hp⟩
        exact absurd (mem_generatedFiles.mpr (hall f hmem hcert)) hno

/-! ### A group that grows -/

/-- The files of a list. -/
def directoryOf (entries : List (CertFile × Pem)) : Directory :=
  entries.foldl (fun dir e => dir.set e.1 e.2) OrderedDict.empty

/-- A key and its certificate. -/
def pair (cert key : CertFile) (k signer : ℕ) : List (CertFile × Pem) :=
  [(cert, { key := k, signer := some signer }), (key, { key := k, signer := none })]

/-- The authority's certificate and the files of the etcd host `first`, which is also the
only cluster host. -/
def firstHostFiles : List (CertFile × Pem) :=
  (.ca, { key := 0, signer := some 0 }) ::
    (pair (.admin "first".toList) (.adminKey "first".toList) 1 0 ++
      pair (.member "first".toList) (.memberKey "first".toList) 2 0 ++
      pair (.node "first".toList) (.nodeKey "first".toList) 3 0)

/-- The host `second` is added to the group of `first`. -/
def grownGroups : Groups where
  firstEtcd := "first".toList
  otherEtcd := ["second".toList]
  kubeControlPlane := ["first".toList]
  k8sCluster := ["first".toList]

/-- Certificates are not refreshed, and the network plugin does not talk to etcd. -/
def plainSettings : Settings where
  forceEtcdCertRefresh := false
  kubeNetworkPlugin := "weave".toList
  ciliumDeployAdditionally := false
  calicoDatastore := "kdd".toList

/-- While the authority's key is there, the certificates of `second` are signed by the
authority of `first`. -/
theorem signedByCa_grown :
    ∃ dir' k', generate plainSettings grownGroups
        (directoryOf ((.caKey, { key := 0, signer := none }) :: firstHostFiles)) 4
          = .ok (dir', k') ∧ SignedByCa dir' := by
  have hrun : generate plainSettings grownGroups
      (directoryOf ((.caKey, { key := 0, signer := none }) :: firstHostFiles)) 4
        = .ok (_, _) := rfl
  exact ⟨_, _, hrun,
    (signedByCa_iff (by decide) (by decide) hrun).mpr (Or.inr (Or.inl (by decide)))⟩

/-- Without it, `second` brings a new authority, and the certificates of `first` are left
with the old one. -/
theorem signedByCa_fails :
    ¬ ∀ (s : Settings) (g : Groups) (dir dir' : Directory) (k k' : ℕ), OlderThan k dir →
      (∀ ca ∈ dir.get? .ca, SignedBy ca dir) → generate s g dir k = .ok (dir', k') →
      SignedByCa dir' := by
  intro h
  have hsigned := h plainSettings grownGroups (directoryOf firstHostFiles) _ 4 _
    (by decide) (by decide) rfl
  revert hsigned
  decide

end Kubespray.EtcdCerts
