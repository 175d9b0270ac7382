import Kubespray.Inventory.Builder

/-!
# Invocations That Fail

What an invocation that ends in an exception or with a non-zero status leaves on disk. A
run that names hosts writes at its very end, so it leaves the file alone. `load` writes
after each of its files: when a later one fails, the inventory of those before it is
already on disk.

## Main results

* `loadFiles_of_failure`, `loadFiles_aborted`: what `load` leaves when it fails, in terms
  of the files before the one that fails.
* `leavesFile_iff`: an invocation that fails leaves the file as it was exactly when the
  files it loaded before failing are none, or state what the file said.
-/

namespace Kubespray.Inventory

open Fallible

/-- The document after some files of `load` have been read, without the writes. -/
def loadFrom (files : Text → Option (Option Value)) (doc : Document) (fs : List Text) :
    Except Abort Document :=
  fs.foldlM (fun doc f => return (← loadOne doc (files f)).toDocument) doc

variable {env : Env} {files : Text → Option (Option Value)} {disk : Disk} {doc : Document}

/-- The first file, then the others. -/
theorem loadFrom_cons {f : Text} {fs : List Text} {doc' : Document} :
    loadFrom files doc (f :: fs) = .ok doc' ↔
      ∃ cfg, loadOne doc (files f) = .ok cfg ∧ loadFrom files cfg.toDocument fs = .ok doc' := by
  rw [loadFrom, List.foldlM_cons, bind_eq_ok_iff]
  constructor
  · rintro ⟨doc₁, h₁, h⟩
    obtain ⟨cfg, hcfg, heq⟩ := ok_of_bind h₁
    cases heq
    exact ⟨cfg, hcfg, h⟩
  · rintro ⟨cfg, hcfg, h⟩
    exact ⟨cfg.toDocument, bind_eq_ok_iff.mpr ⟨cfg, hcfg, rfl⟩, h⟩

/-- What is on disk when `load` has read some files: the document of the last one, or
what was there before the first. -/
def diskAfter (disk : Disk) (loaded : List Text) (doc : Document) : Disk :=
  if loaded = [] then disk else some doc

/-- **`load` up to a file that fails**: the files before it have been written. -/
theorem loadFiles_of_failure (hfile : env.configFile = true) {loaded : List Text} {f : Text}
    {e : Abort} {doc' : Document} (hloaded : loadFrom files doc loaded = .ok doc')
    (hfail : loadOne doc' (files f) = .error e) (rest : List Text) :
    loadFiles env files disk doc (loaded ++ f :: rest)
      = (diskAfter disk loaded doc', .aborted e) := by
  induction loaded generalizing disk doc with
  | nil =>
      cases hloaded
      rw [List.nil_append, loadFiles, hfail]
      rfl
  | cons g loaded ih =>
      obtain ⟨cfg, hcfg, hrest⟩ := loadFrom_cons.mp hloaded
      have hwrite : (writeConfig env disk cfg).1 = some cfg.toDocument := by
        rw [writeConfig, if_pos hfile]
      rw [List.cons_append, loadFiles, hcfg]
      dsimp only
      rw [hwrite, ih hrest, diskAfter, diskAfter, if_neg (List.cons_ne_nil g loaded)]
      cases loaded with
      | nil =>
          cases hrest
          rfl
      | cons => rfl

/-- When `load` fails, it fails at a file, and the files before it can be read. -/
theorem loadFiles_aborted {fs : List Text} {e : Abort}
    (h : (loadFiles env files disk doc fs).2 = .aborted e) :
    ∃ loaded f rest doc', fs = loaded ++ f :: rest ∧ loadFrom files doc loaded = .ok doc' ∧
      loadOne doc' (files f) = .error e := by
  induction fs generalizing disk doc with
  | nil => cases h
  | cons f fs ih =>
      rw [loadFiles] at h
      cases hone : loadOne doc (files f) with
      | error e' =>
          rw [hone] at h
          cases h
          exact ⟨[], f, fs, doc, rfl, rfl, hone⟩
      | ok cfg =>
          rw [hone] at h
          obtain ⟨loaded, g, rest, doc', rfl, hloaded, hfail⟩ := ih h
          exact ⟨f :: loaded, g, rest, doc', rfl, loadFrom_cons.mpr ⟨cfg, hone, hloaded⟩, hfail⟩

/-- Without a file name `load` leaves the disk alone. -/
theorem loadFiles_unsaved (hfile : env.configFile = false) (fs : List Text) :
    (loadFiles env files disk doc fs).1 = disk := by
  induction fs generalizing disk doc with
  | nil => rfl
  | cons f fs ih =>
      have hwrite : ∀ cfg, (writeConfig env disk cfg).1 = disk := fun cfg => by
        rw [writeConfig, hfile, if_neg Bool.false_ne_true]
      rw [loadFiles]
      cases loadOne doc (files f) with
      | error e => rfl
      | ok cfg =>
          dsimp only
          rw [hwrite, ih]

/-- A run that names hosts and fails has written nothing. -/
theorem finishRun_aborted {outcome : Except Abort (Option Config)} {e : Abort}
    (h : (finishRun env disk outcome).2 = .aborted e) : (finishRun env disk outcome).1 = disk := by
  rcases outcome with e' | - | cfg
  · rfl
  · rfl
  · simp only [finishRun, writeConfig] at h
    split_ifs at h

/-- A failed invocation leaves the file as it was. -/
def LeavesFile (env : Env) (files : Text → Option (Option Value)) (disk : Disk)
    (argv : List Text) : Prop :=
  ∀ e, (invoke env files disk argv).2 = .aborted e → (invoke env files disk argv).1 = disk

/-- The files that `load` reads before one that fails: there are none, or the inventory
they make is the one on disk. -/
def LoadsNothingNew (files : Text → Option (Option Value)) (disk : Disk) (fs : List Text) :
    Prop :=
  ∀ loaded f rest doc' e, fs = loaded ++ f :: rest → loadFrom files .missing loaded = .ok doc' →
    loadOne doc' (files f) = .error e → loaded = [] ∨ disk = some doc'

/-- What an invocation of `load` with files comes down to. -/
theorem invoke_load {fs : List Text} (hfs : fs ≠ []) :
    invoke env files disk ("load".toList :: fs) = loadFiles env files disk .missing fs := by
  have hload : invoke env files disk ("load".toList :: fs)
      = parseCommand env files disk "load".toList fs := rfl
  rw [hload, parseCommand, if_neg (by decide), if_neg (by decide), if_pos rfl, if_neg hfs]

/-- An invocation other than `load` with files leaves the file as it was when it fails. -/
theorem leavesFile_of_ne_load {argv : List Text}
    (h : ∀ fs, fs ≠ [] → argv ≠ "load".toList :: fs) : LeavesFile env files disk argv := by
  intro e habort
  unfold invoke at habort ⊢
  cases argv with
  | nil => exact finishRun_aborted habort
  | cons command args =>
      dsimp only at habort ⊢
      split_ifs at habort ⊢ with hadd hprint hcommand
      · exact finishRun_aborted habort
      · rfl
      · unfold parseCommand
        split_ifs with hhelp hips hload hargs
        · rfl
        · rfl
        · rfl
        · exact absurd rfl (hload ▸ h args hargs)
        · rfl
      · exact finishRun_aborted habort

/-- **Which failed invocations leave the file as it was**: all but those of `load` that
have read and written a file before the one that fails, unless what they wrote was on
disk already. -/
theorem leavesFile_iff (env : Env) (files : Text → Option (Option Value)) (disk : Disk)
    (argv : List Text) :
    LeavesFile env files disk argv ↔
      (env.configFile = true → ∀ fs, argv = "load".toList :: fs →
        LoadsNothingNew files disk fs) := by
  constructor
  · rintro h hfile fs rfl loaded f rest doc' e rfl hloaded hfail
    have hne : loaded ++ f :: rest ≠ [] := by simp
    have hrun := @loadFiles_of_failure _ _ disk _ hfile _ _ _ _ hloaded hfail rest
    have hdisk := h e (by rw [invoke_load hne, hrun])
    rw [invoke_load hne, hrun, diskAfter] at hdisk
    by_cases hnil : loaded = []
    · exact Or.inl hnil
    · rw [if_neg hnil] at hdisk
      exact Or.inr hdisk.symm
  · intro h
    by_cases hload : ∃ fs, fs ≠ [] ∧ argv = "load".toList :: fs
    · obtain ⟨fs, hfs, rfl⟩ := hload
      intro e habort
      rw [invoke_load hfs] at habort ⊢
      cases hfile : env.configFile with
      | false => exact loadFiles_unsaved hfile fs
      | true =>
          obtain ⟨loaded, f, rest, doc', rfl, hloaded, hfail⟩ := loadFiles_aborted habort
          rw [loadFiles_of_failure hfile hloaded hfail, diskAfter]
          rcases h hfile _ rfl loaded f rest doc' e rfl hloaded hfail with rfl | hsame
          · rfl
          · rw [hsame]
            exact ite_self _
    · refine leavesFile_of_ne_load fun fs hfs heq => ?_
      exact hload ⟨fs, hfs, heq⟩

/-- Two files are loaded where there is no inventory, one without groups and one that
cannot be opened: the invocation fails and leaves an inventory. -/
theorem leavesFile_fails :
    ¬ ∀ env files disk argv, LeavesFile env files disk argv := by
  intro h
  have hdisk := h .default (fun f => if f = "a.json".toList then some (some (.obj [])) else none)
    none ["load".toList, "a.json".toList, "b.json".toList] .osError rfl
  cases hdisk

end Kubespray.Inventory
