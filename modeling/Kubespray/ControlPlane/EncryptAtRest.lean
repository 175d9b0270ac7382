import Kubespray.Library.Fallible
import Kubespray.Library.Plays
import Kubespray.Text
import Mathlib.Data.List.Nodup

/-!
# Encrypting Secrets at Rest

`encrypt-at-rest.yml` reads the key from `secrets_encryption.yaml` where the file exists,
sets it as `kube_encrypt_token` on all hosts of the group `kube_control_plane`, and then
writes the file from that fact, or from the default where the fact is not set. A playbook
runs the tasks on consecutive batches of the group: all hosts at once in `cluster.yml`, one
at a time in `upgrade-cluster.yml`. A batch without the file that comes before the first one
with it is written with the default.

## Main results

* `runBatch_eq_ok`: what the tasks do on one batch.
* `existingKeyWins_iff`: when every host ends with the key that the cluster had.
-/

namespace Kubespray.ControlPlane

open Plays Fallible

/-- `b64encode` and `b64decode`. -/
structure Base64 where
  encode : Text → Text
  decode : Text → Text
  decode_encode : ∀ t, decode (encode t) = t

/-- What the tasks read of a `secrets_encryption.yaml`, and write to it: the first provider
of its resources, and the secret of its first key. -/
structure SecretsEncryption where
  algorithm : Text
  secret : Text

/-- The settings of the tasks. -/
structure EncryptionSettings where
  base64 : Base64
  kubeEncryptionAlgorithm : Text
  /-- What the default of `kube_encrypt_token` generates. -/
  defaultToken : Text

/-- A control plane host: its file, and the facts that the tasks set. -/
structure EncryptionHost where
  file : Option SecretsEncryption
  kubeEncryptTokenExtracted : Option Text
  kubeEncryptToken : Option Text

variable (s : EncryptionSettings)

/-- The file has this key, for the algorithm of the settings. -/
def SecretsEncryption.carries (f : SecretsEncryption) (key : Text) : Prop :=
  f.algorithm = s.kubeEncryptionAlgorithm ∧ s.base64.decode f.secret = key

instance (f : SecretsEncryption) (key : Text) : Decidable (f.carries s key) :=
  inferInstanceAs (Decidable (_ ∧ _))

/-- The query finds a secret in the file, if there is one. -/
def readable (h : EncryptionHost) : Bool :=
  h.file.all fun f => f.algorithm = s.kubeEncryptionAlgorithm

/-- `Extract secret value from secrets_encryption.yaml`. -/
def extractSecret (_host : Text) (h : EncryptionHost) : EncryptionHost :=
  { h with kubeEncryptTokenExtracted :=
      (h.file.map fun f => s.base64.decode f.secret).or h.kubeEncryptTokenExtracted }

/-- `Set kube_encrypt_token across master nodes`, for one host of the batch. -/
def shareToken (group : List Text) (hosts : Text → EncryptionHost) (host : Text) :
    Text → EncryptionHost :=
  match (hosts host).kubeEncryptTokenExtracted with
  | some key => each group (fun _ h => { h with kubeEncryptToken := some key }) hosts
  | none => hosts

/-- `secrets_encryption.yaml.j2`. -/
def renderSecrets (kubeEncryptToken : Text) : SecretsEncryption where
  algorithm := s.kubeEncryptionAlgorithm
  secret := s.base64.encode kubeEncryptToken

/-- `Write secrets for encrypting secret data at rest`. -/
def writeSecrets (_host : Text) (h : EncryptionHost) : EncryptionHost :=
  { h with file := some (renderSecrets s (h.kubeEncryptToken.getD s.defaultToken)) }

/-- `encrypt-at-rest.yml` on one batch. -/
def runBatch (group : List Text) (hosts : Text → EncryptionHost) (batch : List Text) :
    Except Text (Text → EncryptionHost) :=
  if ∀ host ∈ batch, readable s (hosts host) = true then
    .ok (each batch (writeSecrets s)
      (batch.foldl (shareToken group) (each batch (extractSecret s) hosts)))
  else
    .error "Extract secret value from secrets_encryption.yaml".toList

/-- The batches of a play, which split the group `kube_control_plane`. -/
structure Batches where
  first : List Text
  rest : List (List Text)
  first_ne_nil : first ≠ []
  rest_ne_nil : ∀ batch ∈ rest, batch ≠ []
  nodup : (first :: rest).flatten.Nodup

/-- `groups['kube_control_plane']`. -/
def Batches.group (b : Batches) : List Text :=
  (b.first :: b.rest).flatten

/-- The hosts before the play. -/
def initialHosts (files : Text → Option SecretsEncryption) (host : Text) : EncryptionHost where
  file := files host
  kubeEncryptTokenExtracted := none
  kubeEncryptToken := none

/-- `encrypt-at-rest.yml` on all batches. -/
def encryptAtRest (b : Batches) (files : Text → Option SecretsEncryption) :
    Except Text (Text → EncryptionHost) :=
  (b.first :: b.rest).foldlM (runBatch s b.group) (initialHosts files)

variable {s} {group batch : List Text} {hosts : Text → EncryptionHost} {key : Text} {host : Text}

/-! ### One batch -/

/-- The files of a batch carry the key, and none of its hosts has extracted one before. -/
structure Fresh (s : EncryptionSettings) (key : Text) (hosts : Text → EncryptionHost)
    (batch : List Text) : Prop where
  carries : ∀ host ∈ batch, ∀ f, (hosts host).file = some f → f.carries s key
  extracted : ∀ host ∈ batch, (hosts host).kubeEncryptTokenExtracted = none

/-- What the tasks leave of a batch whose files carry the key. -/
structure BatchDone (s : EncryptionSettings) (key : Text) (group batch : List Text)
    (hosts hosts' : Text → EncryptionHost) : Prop where
  written : ∀ host ∈ batch, (hosts' host).file
    = some (renderSecrets s ((hosts' host).kubeEncryptToken.getD s.defaultToken))
  kept : ∀ host, host ∉ batch → (hosts' host).file = (hosts host).file ∧
    (hosts' host).kubeEncryptTokenExtracted = (hosts host).kubeEncryptTokenExtracted
  shared : ∀ host ∈ group, (hosts' host).kubeEncryptToken =
    if ∃ other ∈ batch, (hosts other).file ≠ none then some key
    else (hosts host).kubeEncryptToken

/-- The template carries the key it is rendered with, and no other. -/
theorem renderSecrets_carries_iff {token : Text} :
    (renderSecrets s token).carries s key ↔ token = key := by
  rw [SecretsEncryption.carries, renderSecrets, s.base64.decode_encode]
  exact and_iff_right rfl

/-- The secret that is extracted from a host of the batch. -/
theorem extracted_of_fresh (h : Fresh s key hosts batch) (hmem : host ∈ batch) :
    (each batch (extractSecret s) hosts host).kubeEncryptTokenExtracted
      = if (hosts host).file = none then none else some key := by
  rw [each_of_mem hmem, extractSecret]
  cases hfile : (hosts host).file with
  | none => rw [if_pos rfl]; exact h.extracted host hmem
  | some f =>
      rw [if_neg (Option.some_ne_none f)]
      exact congrArg some (h.carries host hmem f hfile).2

/-- Sharing a token changes the token only. -/
theorem shareToken_kept (group : List Text) (hosts : Text → EncryptionHost) (sharer host : Text) :
    (shareToken group hosts sharer host).file = (hosts host).file ∧
      (shareToken group hosts sharer host).kubeEncryptTokenExtracted
        = (hosts host).kubeEncryptTokenExtracted := by
  rw [shareToken]
  cases (hosts sharer).kubeEncryptTokenExtracted with
  | none => exact ⟨rfl, rfl⟩
  | some key =>
      dsimp only [each]
      split_ifs <;> exact ⟨rfl, rfl⟩

/-- The token of a host of the group after one host shared what it extracted. -/
theorem shareToken_token (group : List Text) (hosts : Text → EncryptionHost) {sharer : Text}
    (hmem : host ∈ group) : (shareToken group hosts sharer host).kubeEncryptToken
      = (hosts sharer).kubeEncryptTokenExtracted.or (hosts host).kubeEncryptToken := by
  rw [shareToken]
  cases (hosts sharer).kubeEncryptTokenExtracted with
  | none => rfl
  | some key => exact congrArg EncryptionHost.kubeEncryptToken (each_of_mem hmem)

/-- Sharing changes tokens only. -/
theorem foldl_shareToken_kept (group batch : List Text) (hosts : Text → EncryptionHost)
    (host : Text) : (batch.foldl (shareToken group) hosts host).file = (hosts host).file ∧
      (batch.foldl (shareToken group) hosts host).kubeEncryptTokenExtracted
        = (hosts host).kubeEncryptTokenExtracted := by
  induction batch generalizing hosts with
  | nil => exact ⟨rfl, rfl⟩
  | cons sharer batch ih =>
      obtain ⟨hfile, hextracted⟩ := ih (shareToken group hosts sharer)
      obtain ⟨hfile', hextracted'⟩ := shareToken_kept group hosts sharer host
      exact ⟨hfile.trans hfile', hextracted.trans hextracted'⟩

/-- The tokens after all hosts of a batch shared what they extracted. -/
theorem foldl_shareToken_token {group batch : List Text} {hosts : Text → EncryptionHost}
    (hextracted : ∀ sharer ∈ batch, (hosts sharer).kubeEncryptTokenExtracted = none ∨
      (hosts sharer).kubeEncryptTokenExtracted = some key) (hmem : host ∈ group) :
    (batch.foldl (shareToken group) hosts host).kubeEncryptToken
      = if ∃ sharer ∈ batch, (hosts sharer).kubeEncryptTokenExtracted ≠ none then some key
        else (hosts host).kubeEncryptToken := by
  induction batch generalizing hosts with
  | nil => rw [if_neg (by simp)]; rfl
  | cons sharer batch ih =>
      obtain ⟨hsharer, hbatch⟩ := List.forall_mem_cons.mp hextracted
      have hkept : ∀ other, (shareToken group hosts sharer other).kubeEncryptTokenExtracted
          = (hosts other).kubeEncryptTokenExtracted := fun other =>
        (shareToken_kept group hosts sharer other).2
      rw [List.foldl_cons, ih (fun other hother => by rw [hkept]; exact hbatch other hother)]
      simp only [hkept, shareToken_token group hosts hmem, List.exists_mem_cons_iff]
      rcases hsharer with hnone | hsome
      · simp [hnone]
      · simp [hsome]

/-- **What the tasks do on one batch** whose files carry the key. -/
theorem runBatch_eq_ok (group : List Text) (h : Fresh s key hosts batch) :
    ∃ hosts', runBatch s group hosts batch = .ok hosts' ∧
      BatchDone s key group batch hosts hosts' := by
  have hreadable : ∀ host ∈ batch, readable s (hosts host) = true := by
    intro host hmem
    rw [readable]
    cases hfile : (hosts host).file with
    | none => rfl
    | some f => exact decide_eq_true (h.carries host hmem f hfile).1
  set extracted := each batch (extractSecret s) hosts
  set shared := batch.foldl (shareToken group) extracted
  have hextracted : ∀ sharer ∈ batch, (extracted sharer).kubeEncryptTokenExtracted = none ∨
      (extracted sharer).kubeEncryptTokenExtracted = some key := by
    intro sharer hmem
    rw [extracted_of_fresh h hmem]
    split_ifs
    · exact Or.inl rfl
    · exact Or.inr rfl
  have hsame : ∀ host, (each batch (writeSecrets s) shared host).kubeEncryptToken
      = (shared host).kubeEncryptToken := by
    intro host
    rw [each]
    split_ifs <;> rfl
  refine ⟨each batch (writeSecrets s) shared, if_pos hreadable, ?_, ?_, ?_⟩
  · intro host hmem
    rw [hsame, each_of_mem hmem]
    rfl
  · intro host hmem
    have hshared := foldl_shareToken_kept group batch extracted host
    have houtside : extracted host = hosts host := if_neg hmem
    rw [houtside] at hshared
    rw [each, if_neg hmem]
    exact hshared
  · intro host hmem
    rw [hsame, foldl_shareToken_token hextracted hmem]
    have hany : (∃ sharer ∈ batch, (extracted sharer).kubeEncryptTokenExtracted ≠ none) ↔
        ∃ other ∈ batch, (hosts other).file ≠ none := by
      refine exists_congr fun other => and_congr_right fun hother => ?_
      rw [extracted_of_fresh h hother]
      split_ifs with hnone <;> simp [hnone]
    have htoken : (extracted host).kubeEncryptToken = (hosts host).kubeEncryptToken := by
      simp only [extracted, each]
      split_ifs <;> rfl
    rw [htoken]
    exact if_congr hany rfl rfl

/-! ### All batches -/

/-- Every host of the group would write the key. -/
def WouldWrite (s : EncryptionSettings) (key : Text) (group : List Text)
    (hosts : Text → EncryptionHost) : Prop :=
  ∀ host ∈ group, (hosts host).kubeEncryptToken.getD s.defaultToken = key

/-- A batch leaves hosts that would write the key, if they would before or if one of its own
hosts has the file. -/
theorem BatchDone.wouldWrite {hosts' : Text → EncryptionHost}
    (h : BatchDone s key group batch hosts hosts')
    (hbefore : WouldWrite s key group hosts ∨ ∃ other ∈ batch, (hosts other).file ≠ none) :
    WouldWrite s key group hosts' := by
  intro host hmem
  rw [h.shared host hmem]
  split_ifs with hany
  · rfl
  · exact hbefore.resolve_right hany host hmem

/-- A batch of hosts that would write the key then has it. -/
theorem BatchDone.carries {hosts' : Text → EncryptionHost}
    (h : BatchDone s key group batch hosts hosts') (hwrite : WouldWrite s key group hosts')
    (hsub : ∀ host ∈ batch, host ∈ group) (hmem : host ∈ batch) :
    ∃ f, (hosts' host).file = some f ∧ f.carries s key :=
  ⟨_, h.written host hmem, renderSecrets_carries_iff.mpr (hwrite host (hsub host hmem))⟩

/-- A batch leaves hosts outside it as they were. -/
theorem BatchDone.fresh {hosts' : Text → EncryptionHost} {others : List Text}
    (h : BatchDone s key group batch hosts hosts') (hothers : Fresh s key hosts others)
    (hdisj : ∀ host ∈ others, host ∉ batch) : Fresh s key hosts' others where
  carries host hmem f hf := by
    rw [(h.kept host (hdisj host hmem)).1] at hf
    exact hothers.carries host hmem f hf
  extracted host hmem := by
    rw [(h.kept host (hdisj host hmem)).2]
    exact hothers.extracted host hmem

/-- **Later batches** change their own hosts only, and write the key where every host of the
group would. -/
theorem foldlM_runBatch {batches : List (List Text)} (hnodup : batches.flatten.Nodup)
    (hsub : ∀ host ∈ batches.flatten, host ∈ group) (h : Fresh s key hosts batches.flatten) :
    ∃ hosts', batches.foldlM (runBatch s group) hosts = .ok hosts' ∧
      (∀ host, host ∉ batches.flatten → (hosts' host).file = (hosts host).file) ∧
      (WouldWrite s key group hosts →
        ∀ host ∈ batches.flatten, ∃ f, (hosts' host).file = some f ∧ f.carries s key) := by
  induction batches generalizing hosts with
  | nil => exact ⟨hosts, rfl, fun _ _ => rfl, fun _ host hmem => by cases hmem⟩
  | cons batch batches ih =>
      rw [List.flatten_cons] at hnodup hsub h
      obtain ⟨-, hrest, hdisj⟩ := List.nodup_append'.mp hnodup
      have hbatch : ∀ host ∈ batch, host ∈ group := fun host hmem =>
        hsub host (List.mem_append_left _ hmem)
      have hfresh : Fresh s key hosts batch :=
        ⟨fun host hmem => h.carries host (List.mem_append_left _ hmem),
          fun host hmem => h.extracted host (List.mem_append_left _ hmem)⟩
      have hothers : Fresh s key hosts batches.flatten :=
        ⟨fun host hmem => h.carries host (List.mem_append_right _ hmem),
          fun host hmem => h.extracted host (List.mem_append_right _ hmem)⟩
      obtain ⟨hosts₁, hrun, hdone⟩ := runBatch_eq_ok group hfresh
      obtain ⟨hosts', hloop, hkept, hwritten⟩ := ih hrest
        (fun host hmem => hsub host (List.mem_append_right _ hmem))
        (hdone.fresh hothers fun host hmem hin => hdisj hin hmem)
      refine ⟨hosts', ?_, fun host hmem => ?_, fun hwrite host hmem => ?_⟩
      · rw [List.foldlM_cons, hrun]
        exact hloop
      · rw [List.flatten_cons, List.mem_append, not_or] at hmem
        exact (hkept host hmem.2).trans (hdone.kept host hmem.1).1
      · have hwrite₁ := hdone.wouldWrite (Or.inl hwrite)
        by_cases hlater : host ∈ batches.flatten
        · exact hwritten hwrite₁ host hlater
        · rw [hkept host hlater]
          rw [List.flatten_cons] at hmem
          exact hdone.carries hwrite₁ hbatch ((List.mem_append.mp hmem).resolve_right hlater)

/-- **The existing key wins** exactly when the first batch has a host with the file, or the
default is that key: the tasks complete, and then every host of the group has the key. -/
theorem existingKeyWins_iff (s : EncryptionSettings) (b : Batches)
    (files : Text → Option SecretsEncryption) (key : Text)
    (hkey : ∀ host ∈ b.group, ∀ f, files host = some f → f.carries s key) :
    ∃ hosts', encryptAtRest s b files = .ok hosts' ∧
      ((∀ host ∈ b.group, ∃ f, (hosts' host).file = some f ∧ f.carries s key) ↔
        s.defaultToken = key ∨ ∃ host ∈ b.first, files host ≠ none) := by
  have hgroup : b.group = b.first ++ b.rest.flatten := List.flatten_cons
  obtain ⟨-, hrest, hdisj⟩ := List.nodup_append'.mp (List.flatten_cons ▸ b.nodup)
  have hfirst : ∀ host ∈ b.first, host ∈ b.group := fun host hmem => by
    rw [hgroup]
    exact List.mem_append_left _ hmem
  have hlater : ∀ host ∈ b.rest.flatten, host ∈ b.group := fun host hmem => by
    rw [hgroup]
    exact List.mem_append_right _ hmem
  have hfresh : Fresh s key (initialHosts files) b.first :=
    ⟨fun host hmem => hkey host (hfirst host hmem), fun _ _ => rfl⟩
  have hothers : Fresh s key (initialHosts files) b.rest.flatten :=
    ⟨fun host hmem => hkey host (hlater host hmem), fun _ _ => rfl⟩
  obtain ⟨hosts₁, hrun, hdone⟩ := runBatch_eq_ok b.group hfresh
  obtain ⟨hosts', hloop, hkept, hwritten⟩ := foldlM_runBatch hrest hlater
    (hdone.fresh hothers fun host hmem hin => hdisj hin hmem)
  refine ⟨hosts', ?_, ?_⟩
  · rw [encryptAtRest, List.foldlM_cons, hrun]
    exact hloop
  constructor
  · intro hall
    by_contra hno
    rw [not_or] at hno
    -- a host of the first batch has the file that was rendered with the default
    obtain ⟨host, hmem⟩ := List.exists_mem_of_ne_nil _ b.first_ne_nil
    obtain ⟨f, hf, hcarries⟩ := hall host (hfirst host hmem)
    have htoken : (hosts₁ host).kubeEncryptToken = none :=
      (hdone.shared host (hfirst host hmem)).trans (if_neg hno.2)
    rw [hkept host fun hin => hdisj hmem hin, hdone.written host hmem, htoken] at hf
    rw [← Option.some.inj hf, renderSecrets_carries_iff] at hcarries
    exact hno.1 hcarries
  · intro hcond
    have hwrite : WouldWrite s key b.group hosts₁ :=
      hdone.wouldWrite (hcond.imp_left fun heq _ _ => heq)
    intro host hmem
    by_cases hin : host ∈ b.rest.flatten
    · exact hwritten hwrite host hin
    · rw [hkept host hin]
      rw [hgroup] at hmem
      exact hdone.carries hwrite hfirst ((List.mem_append.mp hmem).resolve_right hin)

/-- The two keys below in Base64; other texts are only marked. -/
def keyCodec : Base64 where
  encode t :=
    if t = "default".toList then "ZGVmYXVsdA==".toList
    else if t = "cluster".toList then "Y2x1c3Rlcg==".toList
    else '=' :: t
  decode t :=
    if t = "ZGVmYXVsdA==".toList then "default".toList
    else if t = "Y2x1c3Rlcg==".toList then "cluster".toList
    else t.tail
  decode_encode t := by
    by_cases hdefault : t = "default".toList
    · rw [if_pos hdefault, if_pos rfl, hdefault]
    · rw [if_neg hdefault]
      by_cases hcluster : t = "cluster".toList
      · rw [if_pos hcluster, if_neg (by decide), if_pos rfl, hcluster]
      · have hmark : ∀ text : Text, text.head? ≠ some '=' → '=' :: t ≠ text := by
          rintro text hhead rfl
          exact hhead rfl
        rw [if_neg hcluster, if_neg (hmark "ZGVmYXVsdA==".toList (by decide)),
          if_neg (hmark "Y2x1c3Rlcg==".toList (by decide)), List.tail_cons]

/-- The settings of a run from a machine without the credentials of the cluster. -/
def otherCredentials : EncryptionSettings where
  base64 := keyCodec
  kubeEncryptionAlgorithm := "secretbox".toList
  defaultToken := "default".toList

/-- The file of a cluster whose secrets are encrypted. -/
def clusterFile : SecretsEncryption where
  algorithm := "secretbox".toList
  secret := "Y2x1c3Rlcg==".toList

/-- Only `old` has the file. -/
def oldHasFile (host : Text) : Option SecretsEncryption :=
  if host = "old".toList then some clusterFile else none

/-- The hosts with the file have the key of the cluster. -/
theorem carries_oldHasFile (host : Text) (f : SecretsEncryption)
    (h : oldHasFile host = some f) : f.carries otherCredentials "cluster".toList := by
  rw [oldHasFile] at h
  split_ifs at h
  cases h
  exact ⟨rfl, rfl⟩

/-- All hosts at once. -/
def oneBatch : Batches where
  first := ["new".toList, "old".toList]
  rest := []
  first_ne_nil := List.cons_ne_nil _ _
  rest_ne_nil _ h := by cases h
  nodup := by decide

/-- One host at a time. -/
def oneByOne : Batches where
  first := ["new".toList]
  rest := [["old".toList]]
  first_ne_nil := List.cons_ne_nil _ _
  rest_ne_nil := by decide
  nodup := by decide

theorem existingKeyWins_oneBatch :
    ∃ hosts', encryptAtRest otherCredentials oneBatch oldHasFile = .ok hosts' ∧
      ∀ host ∈ oneBatch.group, ∃ f, (hosts' host).file = some f ∧
        f.carries otherCredentials "cluster".toList := by
  obtain ⟨hosts', hrun, hiff⟩ := existingKeyWins_iff otherCredentials oneBatch oldHasFile
    "cluster".toList fun host _ => carries_oldHasFile host
  exact ⟨hosts', hrun, hiff.mpr (Or.inr ⟨"old".toList, by decide, Option.some_ne_none _⟩)⟩

/-- One host at a time, the host without the file is written first, with another key. -/
theorem existingKeyWins_fails :
    ∃ hosts, encryptAtRest otherCredentials oneByOne oldHasFile = .ok hosts ∧
      (hosts "new".toList).file.map SecretsEncryption.secret = some "ZGVmYXVsdA==".toList ∧
      ¬ ∀ host ∈ oneByOne.group, ∃ f, (hosts host).file = some f ∧
        f.carries otherCredentials "cluster".toList := by
  have hrun : encryptAtRest otherCredentials oneByOne oldHasFile = .ok _ := rfl
  refine ⟨_, hrun, rfl, fun h => ?_⟩
  obtain ⟨f, hf, hcarries⟩ := h "new".toList (by decide)
  cases hf
  exact absurd hcarries (by decide)

end Kubespray.ControlPlane
