import Kubespray.EtcdCerts.Delivery
import Kubespray.Library.Handlers

/-!
# Restarting etcd

The role means to restart etcd when certificates changed: the task `Restart etcd if certs
changed` looks at the fact `etcd_secret_changed`, which the handler `set etcd_secret_changed`
sets. Handlers run at the end of the play, after that task, and this one is defined after the
handler `restart etcd`, so what remains are the other reasons to restart: a new version of
etcd and a new `/etc/etcd.env`. Starting an etcd that is stopped is not counted.

## Main results

* `exists_changed_iff`: the hosts on which the certificates of etcd change.
* `restartedWith_iff`: the hosts on which etcd is restarted.
* `restartedAfterChange_iff`: when every change of certificates is followed by a restart.
-/

namespace Kubespray.EtcdCerts

open OrderedDict Handlers

/-! ### The play -/

/-- The handlers of the role. -/
inductive EtcdHandler
  | restartEtcd
  | restartEtcdEvents
  | backupEtcdData
  | refreshTimeFact
  | setBackupDirectory
  | createBackupDirectory
  | statEtcdV2DataDirectory
  | backupEtcdV2Data
  | backupEtcdV3Data
  | reloadSystemd
  | reloadEtcd
  | reloadEtcdEvents
  | waitForEtcdUp
  | cleanupEtcdBackups
  | removeOldEtcdBackups
  | waitForEtcdEventsUp
  | setEtcdSecretChanged
  deriving DecidableEq

/-- `etcd_deployment_type`, with what tells whether the deployed etcd is the wanted one. -/
inductive EtcdDeployment
  | host (etcdVersion : Text)
  | docker (etcdImageTag : Text)

/-- `etcd_version.lstrip('v')`, or `etcd_image_tag`. -/
def EtcdDeployment.wanted : EtcdDeployment → Text
  | .host etcdVersion => etcdVersion.dropWhile (· = 'v')
  | .docker etcdImageTag => etcdImageTag

/-- A play that runs the role with `etcd_cluster_setup`. -/
structure EtcdPlay where
  settings : Settings
  groups : Groups
  deployment : EtcdDeployment
  /-- What the deployed etcd says about its version or its image. -/
  deployed : Text → Text
  etcdEventsClusterSetup : Bool
  /-- A task notifies `restart etcd-events`: the version or `/etc/etcd-events.env` changes. -/
  eventsOutdated : Text → Bool
  /-- `etcd_cluster_is_healthy.rc == 0`, before the cluster is waited for. -/
  healthy : Bool
  /-- `etcd_member_in_cluster.rc != 0`. -/
  joins : Text → Bool
  /-- `/etc/etcd.env` before the play. -/
  etcdEnv : Text → Option Text
  /-- `etcd.env.j2`, which depends on the health of the cluster. -/
  renderEnv : Text → Bool → Text
  /-- `etcd.env.j2` with the peer addresses of a host that joins. -/
  renderJoinEnv : Text → Text

/-- A host of the play. -/
structure EtcdHost where
  certs : Directory
  etcdSecretChanged : Bool
  etcdEnv : Option Text
  /-- The certificates that were there when the play last restarted etcd. -/
  restartedWith : Option Directory

/-- A task that notifies a handler when its condition holds. -/
def notify (n : EtcdHandler) (cond : Bool) (p : Pending EtcdHandler EtcdHost) :
    Pending EtcdHandler EtcdHost :=
  if cond then { p with notified := n :: p.notified } else p

/-- `Refresh config | Create etcd config file`. -/
def refreshConfig (text : Text) (p : Pending EtcdHandler EtcdHost) :
    Pending EtcdHandler EtcdHost :=
  let p := notify .restartEtcd (p.facts.etcdEnv ≠ some text) p
  { p with facts := { p.facts with etcdEnv := some text } }

namespace EtcdPlay

variable (p : EtcdPlay) (files : Text → Directory)

/-- `check_certs.yml` and `gen_certs_script.yml`, which `run` has done: the fact
`etcd_secret_changed` is reset, and the script, which runs once, notifies on the first host of
the play. Gathering the certificates never reports a change. -/
def afterCerts (certs : Text → Directory) (host : Text) : Pending EtcdHandler EtcdHost :=
  notify .setEtcdSecretChanged
    (host = p.groups.firstEtcd && genCerts p.settings p.groups (files p.groups.firstEtcd))
    { notified := []
      facts :=
        { certs := certs host
          etcdSecretChanged := false
          etcdEnv := p.etcdEnv host
          restartedWith := none } }

/-- `Restart etcd if necessary`: the wanted version or image is not in the output. -/
def outdated (host : Text) : Bool :=
  !decide (p.deployment.wanted <:+: p.deployed host)

/-- `install_host.yml` and `install_docker.yml`. -/
def install (host : Text) (h : Pending EtcdHandler EtcdHost) : Pending EtcdHandler EtcdHost :=
  notify .restartEtcd (p.outdated host) h

/-- `configure.yml`: it waits for the cluster to be healthy before members join. -/
def configure (host : Text) (h : Pending EtcdHandler EtcdHost) : Pending EtcdHandler EtcdHost :=
  let h := refreshConfig (p.renderEnv host p.healthy) h
  if p.joins host then refreshConfig (p.renderJoinEnv host) h else h

/-- `Restart etcd if certs changed` and `Restart etcd-events if certs changed`. -/
def restartIfCertsChanged (h : Pending EtcdHandler EtcdHost) : Pending EtcdHandler EtcdHost :=
  let h := notify .restartEtcd h.facts.etcdSecretChanged h
  notify .restartEtcd (p.etcdEventsClusterSetup && h.facts.etcdSecretChanged) h

/-- The tasks of `main.yml` after the certificates. -/
def roleTasks (host : Text) (h : Pending EtcdHandler EtcdHost) : Pending EtcdHandler EtcdHost :=
  if host ∈ p.groups.etcd then
    let h := p.configure host (p.install host h)
    let h := p.restartIfCertsChanged (refreshConfig (p.renderEnv host true) h)
    notify .restartEtcdEvents (p.etcdEventsClusterSetup && p.eventsOutdated host)
      (refreshConfig (p.renderEnv host true) h)
  else h

/-- A handler without an effect on etcd. -/
def plain (name : EtcdHandler) (notify : List EtcdHandler) : Handler EtcdHandler EtcdHost where
  name := name
  cond _ := true
  action := id
  notify := notify

/-- `restart etcd`. -/
def restartEtcd : Handler EtcdHandler EtcdHost :=
  plain .restartEtcd
    [.backupEtcdData, .reloadSystemd, .reloadEtcd, .waitForEtcdUp, .cleanupEtcdBackups]

/-- The handlers between `restart etcd` and `reload etcd`. -/
def handlersBetween : List (Handler EtcdHandler EtcdHost) :=
  [plain .restartEtcdEvents [.reloadSystemd, .reloadEtcdEvents, .waitForEtcdEventsUp],
    plain .backupEtcdData [.refreshTimeFact, .setBackupDirectory, .createBackupDirectory,
      .statEtcdV2DataDirectory, .backupEtcdV2Data, .backupEtcdV3Data],
    plain .refreshTimeFact [], plain .setBackupDirectory [], plain .createBackupDirectory [],
    plain .statEtcdV2DataDirectory [], plain .backupEtcdV2Data [], plain .backupEtcdV3Data [],
    plain .reloadSystemd []]

/-- `reload etcd`. -/
def reloadEtcd (host : Text) : Handler EtcdHandler EtcdHost where
  name := .reloadEtcd
  cond _ := host ∈ p.groups.etcd
  action h := { h with restartedWith := some h.certs }
  notify := []

/-- The handlers after `reload etcd`. -/
def handlersAfter (host : Text) : List (Handler EtcdHandler EtcdHost) :=
  [{ plain .reloadEtcdEvents [] with cond := fun _ => host ∈ p.groups.etcd },
    plain .waitForEtcdUp [], plain .cleanupEtcdBackups [.removeOldEtcdBackups],
    plain .removeOldEtcdBackups [], plain .waitForEtcdEventsUp [],
    { plain .setEtcdSecretChanged [] with
      action := fun h => { h with etcdSecretChanged := true } }]

/-- `handlers/main.yml`, in its order. -/
def handlers (host : Text) : List (Handler EtcdHandler EtcdHost) :=
  restartEtcd :: handlersBetween ++ p.reloadEtcd host :: p.handlersAfter host

/-- The whole play. -/
def play (nextKey : ℕ) : Except Text (Text → EtcdHost) := do
  let certs ← run p.settings p.groups files nextKey
  return fun host =>
    (flush (p.handlers host) (p.roleTasks host (p.afterCerts files certs host))).facts

/-- The certificates that etcd uses. -/
def ownFiles (host : Text) : List CertFile :=
  [.ca, .member host, .memberKey host]

/-- A run makes the file anew on the first etcd node: the authority when its key is not there,
a pair when it is flagged. -/
def remade (f : CertFile) : Bool :=
  if f = .ca then
    genCerts p.settings p.groups (files p.groups.firstEtcd) &&
      ((files p.groups.firstEtcd).get? .caKey).isNone
  else regenerates p.settings p.groups (files p.groups.firstEtcd) f

/-- The certificates of etcd change on the host: it is the first etcd node or synchronised, and
one of them is made anew, or is not that of the first etcd node. -/
def CertsChange (host : Text) : Prop :=
  (host = p.groups.firstEtcd ∨ syncCerts p.settings p.groups files host = true) ∧
    ∃ f ∈ ownFiles host, p.remade files f = true ∨
      (files host).get? f ≠ (files p.groups.firstEtcd).get? f

/-- On every etcd host whose certificates changed, etcd was restarted afterwards. -/
def RestartedAfterChange (hosts : Text → EtcdHost) : Prop :=
  ∀ host ∈ p.groups.etcd,
    (∃ f ∈ ownFiles host, (hosts host).certs.get? f ≠ (files host).get? f) →
      (hosts host).restartedWith = some (hosts host).certs

/-- The texts that the templates write to `/etc/etcd.env`. -/
def writtenEnvs (host : Text) : List Text :=
  [p.renderEnv host p.healthy] ++ (if p.joins host then [p.renderJoinEnv host] else []) ++
    [p.renderEnv host true]

/-- A reason to restart etcd: the deployed one is not the wanted one, or `/etc/etcd.env`
changes. -/
def RestartsAnyway (host : Text) : Prop :=
  p.outdated host = true ∨ ∃ text ∈ p.writtenEnvs host, p.etcdEnv host ≠ some text

variable {p files} {certs : Text → Directory} {host : Text} {n m : EtcdHandler} {cond : Bool}
variable {text : Text} {h : Pending EtcdHandler EtcdHost}

/-! ### Who is notified -/

/-- A notification changes no fact. -/
@[simp] theorem facts_notify : (notify n cond h).facts = h.facts := by
  rw [notify]
  split_ifs <;> rfl

/-- A notification adds a handler when its condition holds. -/
@[simp] theorem mem_notify :
    m ∈ (notify n cond h).notified ↔ (cond = true ∧ m = n) ∨ m ∈ h.notified := by
  rw [notify]
  split_ifs with hcond <;> simp [hcond]

/-- The file has the text afterwards. -/
@[simp] theorem facts_refreshConfig :
    (refreshConfig text h).facts = { h.facts with etcdEnv := some text } := by
  rw [refreshConfig, facts_notify]

/-- A new text restarts etcd. -/
@[simp] theorem mem_refreshConfig : m ∈ (refreshConfig text h).notified ↔
    (h.facts.etcdEnv ≠ some text ∧ m = .restartEtcd) ∨ m ∈ h.notified := by
  simp [refreshConfig]

/-- The templates of a play, one after the other: etcd is restarted when one of the texts is
not the one that was there first. -/
theorem restartEtcd_mem_foldl {texts : List Text} :
    .restartEtcd ∈ (texts.foldl (fun h text => refreshConfig text h) h).notified ↔
      .restartEtcd ∈ h.notified ∨ ∃ text ∈ texts, h.facts.etcdEnv ≠ some text := by
  induction texts generalizing h with
  | nil => simp
  | cons text texts ih =>
      rw [List.foldl_cons, ih, mem_refreshConfig, facts_refreshConfig, List.exists_mem_cons_iff]
      by_cases henv : h.facts.etcdEnv = some text
      · simp [henv]
      · simp [henv]

/-- The templates leave the fact `etcd_secret_changed` alone. -/
theorem etcdSecretChanged_foldl {texts : List Text} :
    (texts.foldl (fun h text => refreshConfig text h) h).facts.etcdSecretChanged
      = h.facts.etcdSecretChanged := by
  induction texts generalizing h with
  | nil => rfl
  | cons text texts ih => rw [List.foldl_cons, ih, facts_refreshConfig]

/-- While the fact is false, `Restart etcd if certs changed` does nothing. -/
theorem restartIfCertsChanged_of_not (hfact : h.facts.etcdSecretChanged = false) :
    p.restartIfCertsChanged h = h := by
  simp only [restartIfCertsChanged, notify, hfact, Bool.and_false, if_neg Bool.false_ne_true]

/-- The templates up to the task `Restart etcd if certs changed`. -/
theorem refreshConfig_configure : refreshConfig (p.renderEnv host true) (p.configure host h)
    = (p.writtenEnvs host).foldl (fun h text => refreshConfig text h) h := by
  rw [configure, writtenEnvs]
  split_ifs <;> rfl

/-- **The tasks notify `restart etcd`** for the other reasons alone: the fact
`etcd_secret_changed` is still false. -/
theorem restartEtcd_mem_roleTasks (files certs : Text → Directory) (hmem : host ∈ p.groups.etcd) :
    .restartEtcd ∈ (p.roleTasks host (p.afterCerts files certs host)).notified ↔
      p.RestartsAnyway host := by
  have hfact : (p.install host (p.afterCerts files certs host)).facts.etcdSecretChanged
      = false := by
    rw [install, facts_notify, afterCerts, facts_notify]
  have hinstall : .restartEtcd ∈ (p.install host (p.afterCerts files certs host)).notified ↔
      p.outdated host = true := by
    simp [install, afterCerts]
  have henv : (p.install host (p.afterCerts files certs host)).facts.etcdEnv = p.etcdEnv host := by
    rw [install, facts_notify, afterCerts, facts_notify]
  -- the last template finds the text that it writes
  have hdone : ((p.writtenEnvs host).foldl (fun h text => refreshConfig text h)
      (p.install host (p.afterCerts files certs host))).facts.etcdEnv
        = some (p.renderEnv host true) := by
    rw [← refreshConfig_configure, facts_refreshConfig]
  rw [roleTasks, if_pos hmem]
  dsimp only
  rw [refreshConfig_configure, restartIfCertsChanged_of_not (etcdSecretChanged_foldl.trans hfact),
    mem_notify, mem_refreshConfig, hdone, restartEtcd_mem_foldl, hinstall, henv, RestartsAnyway]
  simp

/-- The tasks leave the certificates alone, restart nothing and do not notify `reload etcd`. -/
theorem roleTasks_keeps (p : EtcdPlay) (files certs : Text → Directory) (host : Text) :
    (p.roleTasks host (p.afterCerts files certs host)).facts.certs = certs host ∧
      (p.roleTasks host (p.afterCerts files certs host)).facts.restartedWith = none ∧
      .reloadEtcd ∉ (p.roleTasks host (p.afterCerts files certs host)).notified := by
  rw [roleTasks]
  split_ifs with hmem
  · cases hjoins : p.joins host <;>
      simp [configure, restartIfCertsChanged, install, afterCerts, hjoins]
  · simp [afterCerts]

/-! ### The handlers -/

/-- The handlers before `reload etcd` change nothing, and none but `restart etcd` notifies
it. -/
theorem handlersBetween_plain : ∀ handler ∈ handlersBetween,
    (∀ facts, handler.action facts = facts) ∧ .reloadEtcd ∉ handler.notify := by
  simp [handlersBetween, plain]

/-- The handlers after `reload etcd` set a fact. -/
theorem handlersAfter_keep : ∀ handler ∈ p.handlersAfter host,
    ∀ facts, (handler.action facts).certs = facts.certs ∧
      (handler.action facts).restartedWith = facts.restartedWith := by
  simp [handlersAfter, plain]

/-- **What the handlers do on an etcd host.** They leave the certificates alone, and
`restart etcd` alone leads to `reload etcd`. -/
theorem facts_flush (hmem : host ∈ p.groups.etcd) (hreload : .reloadEtcd ∉ h.notified) :
    (flush (p.handlers host) h).facts.certs = h.facts.certs ∧
      (flush (p.handlers host) h).facts.restartedWith =
        if .restartEtcd ∈ h.notified then some h.facts.certs else h.facts.restartedWith := by
  have hbetween : ∀ q, (handlersBetween.foldl runHandler q).facts = q.facts := fun q =>
    foldl_keeps (q := fun facts => facts)
      (fun handler hin => (handlersBetween_plain handler hin).1) q
  have hnotified : ∀ q, .reloadEtcd ∈ (handlersBetween.foldl runHandler q).notified ↔
      .reloadEtcd ∈ q.notified := fun q =>
    mem_notified_foldl (fun handler hin => (handlersBetween_plain handler hin).2) q
  have hcerts : ∀ q, ((p.handlersAfter host).foldl runHandler q).facts.certs = q.facts.certs :=
    fun q => foldl_keeps (fun handler hin facts => (handlersAfter_keep handler hin facts).1) q
  have hafter : ∀ q, ((p.handlersAfter host).foldl runHandler q).facts.restartedWith
      = q.facts.restartedWith :=
    fun q => foldl_keeps (fun handler hin facts => (handlersAfter_keep handler hin facts).2) q
  rw [flush, handlers, List.cons_append, List.foldl_cons, List.foldl_append, List.foldl_cons,
    hcerts, hafter]
  split_ifs with hrestart
  · have hmemReload : .reloadEtcd ∈
        (handlersBetween.foldl runHandler (runHandler h restartEtcd)).notified := by
      rw [hnotified, runHandler_of_mem hrestart rfl]
      simp [restartEtcd, plain]
    rw [runHandler_of_mem hmemReload (decide_eq_true hmem), hbetween,
      runHandler_of_mem hrestart rfl]
    exact ⟨rfl, rfl⟩
  · have hskip : .reloadEtcd ∉
        (handlersBetween.foldl runHandler (runHandler h restartEtcd)).notified := by
      rwa [hnotified, runHandler_of_notMem hrestart]
    rw [runHandler_of_notMem hskip, hbetween, runHandler_of_notMem hrestart]
    exact ⟨rfl, rfl⟩

/-! ### Which certificates change -/

section OneRun

variable {dir' : Directory} {k k' : ℕ} {f : CertFile}
  (hgen : generate p.settings p.groups (files p.groups.firstEtcd) k = .ok (dir', k'))

include hgen

/-- A file that is made anew has a new key. -/
theorem fresh_of_remade (hf : f ∈ ownFiles host) (hremade : p.remade files f = true) :
    ∃ q, dir'.get? f = some q ∧ k ≤ q.key := by
  by_cases hca : f = .ca
  · subst hca
    rw [remade, if_pos rfl, Bool.and_eq_true, Option.isNone_iff_eq_none] at hremade
    exact ⟨_, (authority_after_generate hgen).2 hremade.1 hremade.2, le_refl k⟩
  · rw [remade, if_neg hca] at hremade
    have hflag : genMasterCerts p.settings p.groups (files p.groups.firstEtcd) host
        = some true := by
      rcases List.mem_cons.mp hf with rfl | hf
      · exact absurd rfl hca
      · rcases List.mem_cons.mp hf with rfl | hf
        · exact of_decide_eq_true hremade
        · obtain rfl := List.mem_singleton.mp hf
          exact of_decide_eq_true hremade
    rcases generate_eq_ok hgen with ⟨hnone, -⟩ | ⟨-, hmade, -⟩
    · rw [genCerts_of_genMasterCerts hflag] at hnone
      cases hnone
    · obtain ⟨q, hq, hkey, -⟩ := hmade.fresh f (mem_generatedFiles.mpr hremade)
      exact ⟨q, hq, hkey⟩

/-- Any other file stays on the first etcd node. -/
theorem kept_of_not_remade (hf : f ∈ ownFiles host) (hremade : p.remade files f = false) :
    dir'.get? f = (files p.groups.firstEtcd).get? f := by
  by_cases hca : f = .ca
  · subst hca
    rw [remade, if_pos rfl, Bool.and_eq_false_iff, Option.isNone_eq_false_iff,
      Option.isSome_iff_ne_none] at hremade
    exact ((authority_after_generate hgen).1 hremade).2
  · rw [remade, if_neg hca] at hremade
    rcases generate_eq_ok hgen with ⟨-, rfl⟩ | ⟨-, hmade, -⟩
    · rfl
    · have hcaKey : f ≠ .caKey := by
        rintro rfl
        simp [ownFiles] at hf
      refine hmade.kept f (fun hin => ?_) hca hcaKey
      rw [mem_generatedFiles.mp hin] at hremade
      cases hremade

/-- The first etcd node's file is another one than that of a host, when it is made anew or was
another one before. -/
theorem get?_ne_iff {other : Text} (hold : OlderThan k (files other)) (hf : f ∈ ownFiles host) :
    dir'.get? f ≠ (files other).get? f ↔
      p.remade files f = true ∨ (files other).get? f ≠ (files p.groups.firstEtcd).get? f := by
  cases hremade : p.remade files f with
  | false =>
      rw [kept_of_not_remade hgen hf hremade, ne_comm, or_iff_right Bool.false_ne_true]
  | true =>
      obtain ⟨q, hq, hkey⟩ := fresh_of_remade hgen hf hremade
      refine iff_of_true (fun hsame => ?_) (Or.inl rfl)
      rw [hq] at hsame
      exact absurd (hold f q hsame.symm).1 (Nat.not_lt.mpr hkey)

end OneRun

/-- The certificates of etcd are copied to synchronised hosts, and are no node pairs. -/
theorem ownFiles_subset (hmem : host ∈ p.groups.etcd) {f : CertFile} (hf : f ∈ ownFiles host) :
    f ∈ etcdMasterCerts p.groups ∧ f ∉ etcdMasterNodeCerts p.groups := by
  have hmember : f ∈ CertFile.ca :: memberFiles host := by
    simp only [ownFiles, List.mem_cons, List.not_mem_nil, or_false] at hf
    rcases hf with rfl | rfl | rfl <;> simp [memberFiles]
  refine ⟨?_, notMem_etcdMasterNodeCerts hmember⟩
  rw [etcdMasterCerts, List.append_assoc]
  rcases List.mem_cons.mp hmember with rfl | hmember
  · exact List.mem_append_left _ List.mem_cons_self
  · exact List.mem_append_right _
      (List.mem_append_left _ (List.mem_flatMap.mpr ⟨host, hmem, hmember⟩))

/-- **Where the certificates of etcd change.** -/
theorem exists_changed_iff {k : ℕ} (hold : ∀ other, OlderThan k (files other))
    (hrun : run p.settings p.groups files k = .ok certs) (hmem : host ∈ p.groups.etcd) :
    (∃ f ∈ ownFiles host, (certs host).get? f ≠ (files host).get? f) ↔
      p.CertsChange files host := by
  obtain ⟨dir', k', hgen, hcopy⟩ := run_copied hrun
  have hnew_iff : (∀ f ∈ ownFiles host, (certs host).get? f = dir'.get? f) →
      ((∃ f ∈ ownFiles host, (certs host).get? f ≠ (files host).get? f) ↔
        ∃ f ∈ ownFiles host, p.remade files f = true ∨
          (files host).get? f ≠ (files p.groups.firstEtcd).get? f) := by
    intro hnew
    refine exists_congr fun f => and_congr_right fun hf => ?_
    rw [hnew f hf, get?_ne_iff hgen (hold host) hf]
  rw [CertsChange]
  by_cases hfirst : host = p.groups.firstEtcd
  · have hnew : ∀ f ∈ ownFiles host, (certs host).get? f = dir'.get? f := by
      intro f _
      rw [hfirst, hcopy.at_primary, Function.update_self]
    rw [hnew_iff hnew, and_iff_right (Or.inl hfirst)]
  · cases hsync : syncCerts p.settings p.groups files host with
    | true =>
        have hnew : ∀ f ∈ ownFiles host, (certs host).get? f = dir'.get? f := by
          intro f hf
          rw [hcopy.copied host f (delivers_etcd hmem hfirst hsync (ownFiles_subset hmem hf).1),
            Function.update_self]
        rw [hnew_iff hnew, and_iff_right (Or.inr rfl)]
    | false =>
        refine iff_of_false ?_ fun h => h.1.elim hfirst Bool.false_ne_true
        rintro ⟨f, hf, hne⟩
        refine hne ((hcopy.kept host f fun hdel => ?_).trans ?_)
        · exact (ownFiles_subset hmem hf).2 ((delivers_of_not_synced hsync hfirst).mp hdel).2.2
        · rw [Function.update_of_ne hfirst]

/-! ### Restarts -/

/-- **A completed play** delivers certificates, and restarts etcd on the hosts with another
reason than these. -/
theorem play_eq_ok {k : ℕ} {hosts : Text → EtcdHost} (h : p.play files k = .ok hosts) :
    ∃ certs, run p.settings p.groups files k = .ok certs ∧
      ∀ host ∈ p.groups.etcd, (hosts host).certs = certs host ∧
        ((hosts host).restartedWith = some (certs host) ↔ p.RestartsAnyway host) := by
  obtain ⟨certs, hrun, h⟩ := Fallible.ok_of_bind h
  refine ⟨certs, hrun, fun host hmem => ?_⟩
  have hhost : (flush (p.handlers host) (p.roleTasks host (p.afterCerts files certs host))).facts
      = hosts host := congrFun (Except.ok.inj h) host
  obtain ⟨hsame, hnone, hreload⟩ := roleTasks_keeps p files certs host
  obtain ⟨hcerts, hrestarted⟩ := facts_flush hmem hreload
  rw [hhost, hsame] at hcerts
  rw [hhost, hsame, hnone] at hrestarted
  refine ⟨hcerts, ?_⟩
  rw [hrestarted, ← restartEtcd_mem_roleTasks files certs hmem]
  split_ifs with hnotified
  · exact iff_of_true rfl hnotified
  · exact iff_of_false not_false hnotified

/-- **A restart after every change** of certificates happens exactly when there is another
reason to restart etcd wherever they change: the deployed etcd is not the wanted one, or
`/etc/etcd.env` changes. -/
theorem restartedAfterChange_iff (p : EtcdPlay) {files : Text → Directory} {k : ℕ}
    {hosts : Text → EtcdHost} (hold : ∀ other, OlderThan k (files other))
    (h : p.play files k = .ok hosts) : p.RestartedAfterChange files hosts ↔
      ∀ host ∈ p.groups.etcd, p.CertsChange files host → p.RestartsAnyway host := by
  obtain ⟨certs, hrun, hhosts⟩ := play_eq_ok h
  refine forall₂_congr fun host hmem => ?_
  obtain ⟨hcerts, hrestarted⟩ := hhosts host hmem
  rw [hcerts, hrestarted, exists_changed_iff hold hrun hmem]

/-! ### A refresh of the certificates -/

/-- The host `first` is the whole cluster. -/
def oneHost : Groups where
  firstEtcd := "first".toList
  otherEtcd := []
  kubeControlPlane := ["first".toList]
  k8sCluster := ["first".toList]

/-- All certificates of `first`. -/
def completeFiles (host : Text) : Directory :=
  if host = "first".toList then
    directoryOf ((.caKey, { key := 0, signer := none }) :: firstHostFiles)
  else OrderedDict.empty

/-- The certificates are refreshed, and nothing else changes. -/
def refresh : EtcdPlay where
  settings := { plainSettings with forceEtcdCertRefresh := true }
  groups := oneHost
  deployment := .host "v3.5.6".toList
  deployed _ := "etcd Version: 3.5.6".toList
  etcdEventsClusterSetup := false
  eventsOutdated _ := false
  healthy := true
  joins _ := false
  etcdEnv _ := some "ETCD_INITIAL_CLUSTER_STATE=existing".toList
  renderEnv _ healthy :=
    if healthy then "ETCD_INITIAL_CLUSTER_STATE=existing".toList
    else "ETCD_INITIAL_CLUSTER_STATE=new".toList
  renderJoinEnv _ := "ETCD_INITIAL_CLUSTER_STATE=existing".toList

/-- A new version of etcd is deployed along with the refresh. -/
def refreshAndUpgrade : EtcdPlay :=
  { refresh with deployed := fun _ => "etcd Version: 3.5.5".toList }

theorem completeFiles_olderThan (host : Text) : OlderThan 4 (completeFiles host) :=
  olderThan_ite (by decide) (by decide) host

theorem restartedAfterChange_upgrade :
    ∃ hosts, refreshAndUpgrade.play completeFiles 4 = .ok hosts ∧
      refreshAndUpgrade.RestartedAfterChange completeFiles hosts := by
  have hrun : refreshAndUpgrade.play completeFiles 4 = .ok _ := rfl
  refine ⟨_, hrun, (restartedAfterChange_iff _ completeFiles_olderThan hrun).mpr ?_⟩
  exact fun _ _ _ => Or.inl rfl

/-- The member certificate of `first` is a new one, and etcd is not restarted. -/
theorem restartedAfterChange_fails :
    ∃ hosts, refresh.play completeFiles 4 = .ok hosts ∧
      ¬ refresh.RestartedAfterChange completeFiles hosts := by
  obtain ⟨hosts, hplay⟩ : ∃ hosts, refresh.play completeFiles 4 = .ok hosts := ⟨_, rfl⟩
  obtain ⟨certs, hrun, hhosts⟩ := play_eq_ok hplay
  have hfirst : "first".toList ∈ refresh.groups.etcd := by decide
  obtain ⟨hcerts, hrestarted⟩ := hhosts _ hfirst
  refine ⟨hosts, hplay, fun h => ?_⟩
  have hrestart := h _ hfirst
  rw [hcerts, hrestarted, exists_changed_iff completeFiles_olderThan hrun hfirst] at hrestart
  rcases hrestart ⟨Or.inl rfl, .member "first".toList, by decide, Or.inl (by decide)⟩ with
    houtdated | ⟨text, htext, hne⟩
  · exact absurd houtdated (by decide)
  · revert text
    decide

end EtcdPlay

end Kubespray.EtcdCerts
