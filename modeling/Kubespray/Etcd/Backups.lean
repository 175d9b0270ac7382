import Mathlib.Data.Char
import Mathlib.Data.List.Lex
import Kubespray.Library.Histories
import Kubespray.Library.Retention
import Kubespray.Library.Tasks
import Kubespray.Text

/-!
# Backups of etcd

Before etcd is restarted, the handlers of the role back up its data, if its cluster is healthy, in
a directory that has the date and the time in its name. When etcd is up again, the oldest
directories are removed, so that `etcd_backup_retention_count` of them are left; a negative number
keeps all. A directory is made before the snapshot is saved in it, and stays when that fails, so
that it counts as one of those that are kept.

Names are sorted by their characters, which is the order of time. Directories `etcd-*` that are not
backups, and such directories in other ones, are left out.

## Main results

* `directory_iff`: which directories are there after any runs of the handlers.
* `snapshot_iff`: which snapshots are there.
-/

namespace Kubespray.Etcd

open Retention Tasks

/-- The handlers that may fail. -/
inductive BackupFailure
  | backup
  | restart
deriving DecidableEq

/-- A run of the handlers on a host, and what comes of its commands, their retries included. -/
structure BackupRun where
  /-- `etcd_backup_directory`. -/
  directory : Text
  /-- `etcd_cluster_is_healthy.rc == 0`. -/
  healthy : Bool
  /-- `Backup etcd v2 data` and `Backup etcd v3 data`. -/
  backsUp : Bool
  /-- `reload etcd` and `wait for etcd up`. -/
  restarts : Bool
  etcdBackupRetentionCount : ℤ

/-- The directories below `etcd_backup_prefix`, and those of them that have a snapshot. -/
structure Backups where
  directories : Finset Text
  snapshots : Finset Text

namespace BackupRun

variable (r : BackupRun)

/-- `Create Backup Directory`. -/
def createBackupDirectory : EStateM BackupFailure Backups PUnit :=
  modify fun s => { s with
    directories := if r.healthy then insert r.directory s.directories else s.directories }

/-- `Backup etcd v2 data` and `Backup etcd v3 data`. -/
def backupEtcdData : EStateM BackupFailure Backups PUnit :=
  attempt (fun s => { s with
    snapshots := if r.healthy && r.backsUp then insert r.directory s.snapshots else s.snapshots })
    (fun _ => !r.healthy || r.backsUp) .backup

/-- `reload etcd` and `wait for etcd up`. -/
def reloadEtcd : EStateM BackupFailure Backups PUnit :=
  ensure (fun _ => r.restarts) .restart

/-- `Remove old etcd backups`. -/
def removeOldBackups : EStateM BackupFailure Backups PUnit :=
  modify fun s =>
    if 0 ≤ r.etcdBackupRetentionCount then
      let kept := keepNewest r.etcdBackupRetentionCount.toNat s.directories
      { directories := kept, snapshots := s.snapshots ∩ kept }
    else s

/-- The handlers of `restart etcd`, in their order. -/
def restartEtcd : EStateM BackupFailure Backups PUnit := do
  r.createBackupDirectory
  r.backupEtcdData
  r.reloadEtcd
  r.removeOldBackups

/-- The directories that there are once the run has made its own. -/
def makes (directories : Finset Text) : Finset Text :=
  if r.healthy then insert r.directory directories else directories

/-- The snapshots that there are once the run has saved its own. -/
def saves (snapshots : Finset Text) : Finset Text :=
  if r.healthy && r.backsUp then insert r.directory snapshots else snapshots

/-- The run comes to `Remove old etcd backups`, and removes some. -/
def cleans : Bool :=
  (!r.healthy || r.backsUp) && r.restarts && decide (0 ≤ r.etcdBackupRetentionCount)

/-- The directories that a run which removes some leaves. -/
def keeps (directories : Finset Text) : Finset Text :=
  keepNewest r.etcdBackupRetentionCount.toNat (r.makes directories)

/-- **What a run leaves.** -/
theorem left_restartEtcd (s : Backups) :
    left (r.restartEtcd s) =
      if r.cleans then
        { directories := r.keeps s.directories
          snapshots := r.saves s.snapshots ∩ r.keeps s.directories }
      else { directories := r.makes s.directories, snapshots := r.saves s.snapshots } := by
  rw [restartEtcd, createBackupDirectory, left_modify_bind, backupEtcdData, left_attempt_bind,
    reloadEtcd, left_ensure_bind, cleans]
  -- The first failure ends the run, and leaves what has been made and saved so far.
  by_cases hsaved : (!r.healthy || r.backsUp) = true
  · by_cases hrestarts : r.restarts = true
    · rw [if_pos hsaved, if_pos hrestarts, hsaved, hrestarts, Bool.true_and, Bool.true_and]
      by_cases hcount : 0 ≤ r.etcdBackupRetentionCount
      · rw [if_pos (decide_eq_true hcount)]
        exact if_pos hcount
      · rw [decide_eq_false hcount, if_neg Bool.false_ne_true]
        exact if_neg hcount
    · rw [if_pos hsaved, if_neg hrestarts, Bool.eq_false_of_not_eq_true hrestarts, Bool.and_false,
        Bool.false_and, if_neg Bool.false_ne_true]
      rfl
  · rw [if_neg hsaved, Bool.eq_false_of_not_eq_true hsaved, Bool.false_and, Bool.false_and,
      if_neg Bool.false_ne_true]
    rfl

/-- The directories that are there once a run has made its own. -/
theorem mem_makes {directories : Finset Text} {x : Text} :
    x ∈ r.makes directories ↔ (r.healthy = true ∧ x = r.directory) ∨ x ∈ directories := by
  rw [makes]
  by_cases hhealthy : r.healthy = true
  · rw [if_pos hhealthy, Finset.mem_insert]
    simp only [hhealthy, true_and]
  · rw [if_neg hhealthy]
    simp only [hhealthy, Bool.false_eq_true, false_and, false_or]

/-- The snapshots that are there once a run has saved its own. -/
theorem mem_saves {snapshots : Finset Text} {x : Text} :
    x ∈ r.saves snapshots ↔
      (r.healthy = true ∧ r.backsUp = true ∧ x = r.directory) ∨ x ∈ snapshots := by
  rw [saves, ← and_assoc, ← Bool.and_eq_true]
  by_cases hsaved : (r.healthy && r.backsUp) = true
  · rw [if_pos hsaved, Finset.mem_insert]
    simp only [hsaved, true_and]
  · rw [if_neg hsaved]
    simp only [hsaved, Bool.false_eq_true, false_and, false_or]

end BackupRun

/-! ### Many runs -/

/-- What many runs leave. -/
def afterAll (runs : List BackupRun) (s : Backups) : Backups :=
  runs.foldl (fun s r => left (r.restartEtcd s)) s

/-- All directories that were ever there. -/
def everMade (runs : List BackupRun) (s : Backups) : Finset Text :=
  runs.foldl (fun directories r => r.makes directories) s.directories

/-- All snapshots that were ever saved. -/
def everSaved (runs : List BackupRun) (s : Backups) : Finset Text :=
  runs.foldl (fun snapshots r => r.saves snapshots) s.snapshots

/-- The time goes on: the directory of each run is later than those that were ever there. -/
def Chronological (runs : List BackupRun) (s : Backups) : Prop :=
  ∀ before r after, runs = before ++ r :: after → r.healthy = true →
    ∀ x ∈ everMade before s, x < r.directory

/-- At each run that removed directories since this one was made, fewer later ones had been made
than the run keeps. -/
def Spared (runs : List BackupRun) (s : Backups) (x : Text) : Prop :=
  ∀ before r after, runs = before ++ r :: after → r.cleans = true →
    x ∈ r.makes (everMade before s) →
    newerCount (r.makes (everMade before s)) x < r.etcdBackupRetentionCount.toNat

variable {runs : List BackupRun} {r : BackupRun} {s : Backups} {x : Text}

/-- One more run. -/
theorem everMade_append_singleton :
    everMade (runs ++ [r]) s = r.makes (everMade runs s) := by
  rw [everMade, List.foldl_append]
  rfl

/-- One more run. -/
theorem everSaved_append_singleton :
    everSaved (runs ++ [r]) s = r.saves (everSaved runs s) := by
  rw [everSaved, List.foldl_append]
  rfl

/-- One more run. -/
theorem afterAll_append_singleton :
    afterAll (runs ++ [r]) s = left (r.restartEtcd (afterAll runs s)) := by
  rw [afterAll, List.foldl_append]
  rfl

/-- A directory that was there before some runs was ever there. -/
theorem mem_everMade_append (later : List BackupRun) (hx : x ∈ everMade runs s) :
    x ∈ everMade (runs ++ later) s := by
  induction later using List.reverseRecOn with
  | nil => rwa [List.append_nil]
  | append_singleton later r ih =>
      rw [← List.append_assoc, everMade_append_singleton]
      exact r.mem_makes.mpr (Or.inr ih)

/-- One more run in the order of time. -/
theorem chronological_append_singleton (runs : List BackupRun) (r : BackupRun) :
    Chronological (runs ++ [r]) s ↔ Chronological runs s ∧
      (r.healthy = true → ∀ x ∈ everMade runs s, x < r.directory) :=
  Histories.forall_split_append_singleton
    (P := fun before (r : BackupRun) => r.healthy = true → ∀ x ∈ everMade before s, x < r.directory)

/-- One more run that may remove the directory. -/
theorem spared_append_singleton :
    Spared (runs ++ [r]) s x ↔ Spared runs s x ∧ (r.cleans = true →
      x ∈ r.makes (everMade runs s) →
      newerCount (r.makes (everMade runs s)) x < r.etcdBackupRetentionCount.toNat) :=
  Histories.forall_split_append_singleton
    (P := fun before (r : BackupRun) => r.cleans = true → x ∈ r.makes (everMade before s) →
      newerCount (r.makes (everMade before s)) x < r.etcdBackupRetentionCount.toNat)

/-- A directory that was not there yet has been spared. -/
theorem spared_of_notMem (hx : x ∉ everMade runs s) : Spared runs s x := by
  rintro before r after rfl - hmade
  rw [← everMade_append_singleton] at hmade
  have hever := mem_everMade_append after hmade
  rw [List.append_assoc] at hever
  exact absurd hever hx

/-! ### What is there -/

/-- The directories that a run leaves. -/
theorem directories_restartEtcd (s : Backups) :
    (left (r.restartEtcd s)).directories =
      if r.cleans then r.keeps s.directories else r.makes s.directories := by
  rw [r.left_restartEtcd]
  split_ifs <;> rfl

/-- What a run makes of the newest ones. -/
theorem newestOf_makes {made there : Finset Text} (h : NewestOf made there)
    (hnew : r.healthy = true → ∀ x ∈ made, x < r.directory) :
    NewestOf (r.makes made) (r.makes there) := by
  rw [BackupRun.makes, BackupRun.makes]
  by_cases hhealthy : r.healthy = true
  · rw [if_pos hhealthy, if_pos hhealthy]
    exact h.insert fun x hx => (hnew hhealthy x hx).le
  · rw [if_neg hhealthy, if_neg hhealthy]
    exact h

/-- **The directories that are there** are the newest of those that were ever there. -/
theorem newestOf_afterAll (hchron : Chronological runs s) :
    NewestOf (everMade runs s) (afterAll runs s).directories := by
  induction runs using List.reverseRecOn with
  | nil => exact NewestOf.refl _
  | append_singleton runs r ih =>
      obtain ⟨hbefore, hnew⟩ := (chronological_append_singleton runs r).mp hchron
      rw [everMade_append_singleton, afterAll_append_singleton, directories_restartEtcd]
      have hmakes := newestOf_makes (ih hbefore) hnew
      split_ifs
      · exact hmakes.keepNewest _
      · exact hmakes

/-- **Which directories are there** after any runs. -/
theorem directory_iff (hchron : Chronological runs s) :
    x ∈ (afterAll runs s).directories ↔ x ∈ everMade runs s ∧ Spared runs s x := by
  induction runs using List.reverseRecOn with
  | nil =>
      refine (and_iff_left ?_).symm
      intro before r after hsplit
      cases before <;> cases hsplit
  | append_singleton runs r ih =>
      obtain ⟨hbefore, hnew⟩ := (chronological_append_singleton runs r).mp hchron
      have hmakes := newestOf_makes (newestOf_afterAll hbefore) hnew
      have hthere : x ∈ r.makes (afterAll runs s).directories ↔
          x ∈ r.makes (everMade runs s) ∧ Spared runs s x := by
        rw [r.mem_makes, r.mem_makes, ih hbefore, or_and_right]
        refine or_congr_left (and_iff_left_of_imp ?_).symm
        -- The directory of the run is new, so that no earlier run can have removed it.
        rintro ⟨hhealthy, rfl⟩
        exact spared_of_notMem fun hever => lt_irrefl _ (hnew hhealthy _ hever)
      rw [afterAll_append_singleton, directories_restartEtcd, everMade_append_singleton,
        spared_append_singleton]
      by_cases hcleans : r.cleans = true
      · rw [if_pos hcleans, BackupRun.keeps, hmakes.mem_keepNewest, hthere]
        simp only [hcleans, forall_const, and_assoc]
        exact and_congr_right fun hx => and_congr_right fun _ => ⟨fun h _ => h, fun h => h hx⟩
      · rw [if_neg hcleans, hthere]
        simp only [hcleans, false_imp_iff, and_true, Bool.false_eq_true]

/-- Every snapshot that was ever saved is in a directory that was ever there. -/
theorem everSaved_subset (hs : s.snapshots ⊆ s.directories) :
    everSaved runs s ⊆ everMade runs s := by
  induction runs using List.reverseRecOn with
  | nil => exact hs
  | append_singleton runs r ih =>
      intro x hx
      rw [everSaved_append_singleton, r.mem_saves] at hx
      rw [everMade_append_singleton, r.mem_makes]
      obtain ⟨hhealthy, -, heq⟩ | hbefore := hx
      · exact Or.inl ⟨hhealthy, heq⟩
      · exact Or.inr (ih hbefore)

/-- The snapshots that a run leaves. -/
theorem snapshots_restartEtcd (s : Backups) :
    (left (r.restartEtcd s)).snapshots =
      if r.cleans then r.saves s.snapshots ∩ r.keeps s.directories else r.saves s.snapshots := by
  rw [r.left_restartEtcd]
  split_ifs <;> rfl

/-- A snapshot goes with its directory. -/
theorem snapshot_iff_directory (hchron : Chronological runs s) (hs : s.snapshots ⊆ s.directories) :
    x ∈ (afterAll runs s).snapshots ↔
      x ∈ everSaved runs s ∧ x ∈ (afterAll runs s).directories := by
  induction runs using List.reverseRecOn with
  | nil => exact (and_iff_left_of_imp fun hx => hs hx).symm
  | append_singleton runs r ih =>
      obtain ⟨hbefore, hnew⟩ := (chronological_append_singleton runs r).mp hchron
      have hsaves : x ∈ r.saves (afterAll runs s).snapshots ↔
          x ∈ r.saves (everSaved runs s) ∧ x ∈ r.makes (afterAll runs s).directories := by
        rw [r.mem_saves, r.mem_saves, r.mem_makes, ih hbefore]
        constructor
        · rintro (⟨hhealthy, hbacksUp, heq⟩ | ⟨hsaved, hthere⟩)
          · exact ⟨Or.inl ⟨hhealthy, hbacksUp, heq⟩, Or.inl ⟨hhealthy, heq⟩⟩
          · exact ⟨Or.inr hsaved, Or.inr hthere⟩
        · rintro ⟨hnow | hsaved, hthere⟩
          · exact Or.inl hnow
          · obtain ⟨hhealthy, rfl⟩ | hthere := hthere
            · exact absurd (hnew hhealthy _ (everSaved_subset hs hsaved)) (lt_irrefl _)
            · exact Or.inr ⟨hsaved, hthere⟩
      rw [afterAll_append_singleton, snapshots_restartEtcd, directories_restartEtcd,
        everSaved_append_singleton]
      by_cases hcleans : r.cleans = true
      · rw [if_pos hcleans, if_pos hcleans, Finset.mem_inter, hsaves, and_assoc]
        refine and_congr_right fun _ => and_iff_right_of_imp fun hkept => ?_
        exact (mem_keepNewest.mp hkept).1
      · rw [if_neg hcleans, if_neg hcleans, hsaves]

/-- **Which snapshots are there** after any runs: those that were saved, and whose directories no
clean-up has removed, at which so many later ones had been made as it keeps. -/
theorem snapshot_iff (hchron : Chronological runs s) (hs : s.snapshots ⊆ s.directories) :
    x ∈ (afterAll runs s).snapshots ↔ x ∈ everSaved runs s ∧ Spared runs s x := by
  rw [snapshot_iff_directory hchron hs, directory_iff hchron]
  exact and_congr_right fun hsaved => and_iff_right (everSaved_subset hs hsaved)

/-- A run that keeps one directory, after which etcd is up. -/
def backupAt (directory : String) (backsUp : Bool) : BackupRun where
  directory := directory.toList
  healthy := true
  backsUp := backsUp
  restarts := true
  etcdBackupRetentionCount := 1

/-- Three runs, of which the second one fails to save its snapshot. -/
def failedOnce : List BackupRun :=
  [backupAt "etcd-1" true, backupAt "etcd-2" false, backupAt "etcd-3" true]

/-- They start with no directories. -/
theorem snapshot_iff_failedOnce :
    "etcd-1".toList ∈ (afterAll failedOnce ⟨∅, ∅⟩).snapshots ↔
      "etcd-1".toList ∈ everSaved failedOnce ⟨∅, ∅⟩ ∧
        Spared failedOnce ⟨∅, ∅⟩ "etcd-1".toList := by
  refine snapshot_iff ?_ (Finset.Subset.refl ∅)
  have hnone : Chronological [] (⟨∅, ∅⟩ : Backups) := fun before r after hsplit => by
    cases before <;> cases hsplit
  have hone := (chronological_append_singleton [] (backupAt "etcd-1" true)).mpr
    ⟨hnone, by decide⟩
  have htwo := (chronological_append_singleton _ (backupAt "etcd-2" false)).mpr ⟨hone, by decide⟩
  exact (chronological_append_singleton _ (backupAt "etcd-3" true)).mpr ⟨htwo, by decide⟩

end Kubespray.Etcd
