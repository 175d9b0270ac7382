import Kubespray.Tokens.Script
import Kubespray.Library.Fallible

/-!
# The Tokens Role

`check-tokens.yml` compares the token files of the control-plane hosts of a play with the
one of the first control-plane host, and `gen_tokens.yml` generates the tokens there when
they are missing and copies all token files to the other hosts. The comparison is made
before anything is generated; it is by checksum, and a file that is not there counts as one
with an empty checksum. A `run_once` fact is the same on all hosts of the play, so the flags
are facts of the play here.

The script begins with an empty line and is run without a shell, so that no token is ever
generated: the role ends there when the tokens are missing.

## Main results

* `syncTokens_eq_false_iff`: when nothing is copied.
* `role_eq_ok`: what a completed role does.
* `role_agree`: after the role all control-plane hosts of the play have the file of the
  first control-plane host.
-/

namespace Kubespray.Tokens

open OrderedDict Fallible

/-- The checksums of `stat`: different files have different checksums, which are not
empty. -/
structure Checksums where
  sum : Text → Text
  sum_ne_nil : ∀ file, sum file ≠ []
  injective : Function.Injective sum

/-- What the role reads of a play. -/
structure Play where
  /-- `groups['kube_control_plane'][0]`. -/
  firstControlPlane : Text
  otherControlPlane : List Text
  kubeNode : List Text
  /-- `ansible_play_batch`. -/
  batch : List Text
  kubeTokenAuth : Bool

/-- `groups['kube_control_plane']`. -/
def Play.kubeControlPlane (p : Play) : List Text :=
  p.firstControlPlane :: p.otherControlPlane

/-- The token directories of the hosts, and how many tokens have been drawn. -/
structure TokenState where
  dirs : Text → Option TokenDir
  drawn : ℕ

/-- `known_tokens.csv` of a host. -/
def TokenState.known (st : TokenState) (host : Text) : Option Text :=
  (st.dirs host).bind fun dir => dir.get? knownTokens

variable (p : Play) (checksums : Checksums) (random : RandomTokens) (st : TokenState)

/-- `stat.checksum` of a host's file, when it exists. -/
def checksum (host : Text) : Option Text :=
  (st.known host).map checksums.sum

/-- `gen_tokens`. -/
def genTokens : Bool :=
  (checksum checksums st p.firstControlPlane).isNone && p.kubeTokenAuth

/-- `sync_tokens`. -/
def syncTokens : Bool :=
  (p.kubeControlPlane.filter (· ∈ p.batch)).any fun server =>
    (checksum checksums st server).isNone ||
      (checksum checksums st server).getD [] ≠
        (checksum checksums st p.firstControlPlane).getD []

/-- `Make sure the tokens directory exits`. -/
def makeDirectories : TokenState :=
  { st with dirs := fun host =>
      if host ∈ p.batch then some ((st.dirs host).getD OrderedDict.empty) else st.dirs host }

/-- The accounts in the order in which the script is run for them. -/
def accounts : List Text :=
  (p.kubeControlPlane.map fun h => "system:kubectl-".toList ++ h) ++
    p.kubeNode.map fun h => "system:kubelet-".toList ++ h

/-- How `files/kube-gen-token.sh` begins: with an empty line. -/
def kubeGenTokenHead : Text :=
  "\n#!/bin/bash\n".toList

/-- The kernel runs a text file when its very first characters name an interpreter. -/
def isExecutable (file : Text) : Bool :=
  "#!".toList.isPrefixOf file

/-- `Gen_tokens | generate tokens for master components` and `for node components`. The module
`command` runs the script without a shell, which would run a text file that the kernel does
not. -/
def generate : Except Text TokenState :=
  if isExecutable kubeGenTokenHead then
    let s := generateTokens random (accounts p) (st.dirs p.firstControlPlane, st.drawn)
    .ok { dirs := Function.update st.dirs p.firstControlPlane s.1, drawn := s.2 }
  else
    .error "Gen_tokens | generate tokens for master components".toList

/-- `Gen_tokens | Get list of tokens from first master` and `Gather tokens`: `find` fails
without the directory, and `tar` without files. -/
def gatherTokens : Except Text TokenDir :=
  match st.dirs p.firstControlPlane with
  | none => .error "Gen_tokens | Get list of tokens from first master".toList
  | some dir => if dir.keys = [] then .error "Gen_tokens | Gather tokens".toList else .ok dir

/-- `Gen_tokens | Copy tokens on masters`. -/
def copyTokens (tokensData : TokenDir) : TokenState :=
  { st with dirs := fun host =>
      if host ∈ p.batch ∧ host ∈ p.kubeControlPlane ∧ host ≠ p.firstControlPlane then
        some (((st.dirs host).getD OrderedDict.empty).overlay tokensData)
      else st.dirs host }

/-- The state that is gathered from: the directories are made, and the tokens are generated
if they were missing. -/
def generated : Except Text TokenState :=
  if genTokens p checksums st then generate p random (makeDirectories p st)
  else .ok (makeDirectories p st)

/-- The role, with the flags computed before anything is changed. -/
def role : Except Text TokenState := do
  if p.batch = [] then
    return st
  else
    let made ← generated p checksums random st
    if syncTokens p checksums st then return copyTokens p made (← gatherTokens p made)
    else return made

variable {p checksums random st} {st' : TokenState} {host : Text}

/-- **When nothing is copied**: the control-plane hosts of the play have the file of the
first control-plane host. -/
theorem syncTokens_eq_false_iff : syncTokens p checksums st = false ↔
    ∀ server ∈ p.kubeControlPlane, server ∈ p.batch →
      st.known server ≠ none ∧ st.known server = st.known p.firstControlPlane := by
  rw [syncTokens, List.any_eq_false]
  simp only [List.mem_filter, decide_eq_true_eq, and_imp]
  refine forall₃_congr fun server _ _ => ?_
  rw [checksum, checksum]
  cases hserver : st.known server with
  | none => simp
  | some file =>
      cases hfirst : st.known p.firstControlPlane with
      | none => simp [checksums.sum_ne_nil]
      | some file' => simp [checksums.injective.eq_iff]

/-- The files are not changed by making directories. -/
@[simp] theorem known_makeDirectories : (makeDirectories p st).known host = st.known host := by
  rw [TokenState.known, TokenState.known, makeDirectories]
  dsimp only
  split_ifs
  · cases st.dirs host with
    | none => rfl
    | some dir => rfl
  · rfl

/-- Copying does not change the first control-plane host. -/
@[simp] theorem dirs_copyTokens_first (tokensData : TokenDir) :
    (copyTokens p st tokensData).dirs p.firstControlPlane = st.dirs p.firstControlPlane :=
  if_neg fun h => h.2.2 rfl

/-- After copying the other control-plane hosts of the play have the files that were
gathered. -/
theorem known_copyTokens {tokensData : TokenDir} {file : Text}
    (hfile : tokensData.get? knownTokens = some file) (hbatch : host ∈ p.batch)
    (hcontrol : host ∈ p.kubeControlPlane) (hne : host ≠ p.firstControlPlane) :
    (copyTokens p st tokensData).known host = some file := by
  have hdirs : (copyTokens p st tokensData).dirs host
      = some (((st.dirs host).getD OrderedDict.empty).overlay tokensData) :=
    if_pos ⟨hbatch, hcontrol, hne⟩
  rw [TokenState.known, hdirs, Option.bind_some, get?_overlay, hfile]
  rfl

/-- **The script is not executed.** -/
theorem generate_eq_error :
    generate p random st = .error "Gen_tokens | generate tokens for master components".toList :=
  if_neg (by decide)

/-- **A role that goes on has generated nothing**, for the tokens were there. -/
theorem generated_eq_ok (h : generated p checksums random st = .ok st') :
    genTokens p checksums st = false ∧ st' = makeDirectories p st := by
  rw [generated, generate_eq_error] at h
  split_ifs at h with hgen
  cases h
  exact ⟨Bool.eq_false_of_not_eq_true hgen, rfl⟩

/-- Tokens that are not to be generated are there. -/
theorem known_of_genTokens (hauth : p.kubeTokenAuth = true)
    (h : genTokens p checksums st = false) : st.known p.firstControlPlane ≠ none := by
  intro hnone
  rw [genTokens, checksum, hnone, hauth] at h
  cases h

/-- The directory of the first control-plane host is what is gathered. -/
theorem gatherTokens_eq_ok {tokensData : TokenDir} (h : gatherTokens p st = .ok tokensData) :
    st.dirs p.firstControlPlane = some tokensData := by
  rw [gatherTokens] at h
  cases hdir : st.dirs p.firstControlPlane with
  | none =>
      rw [hdir] at h
      cases h
  | some dir =>
      rw [hdir] at h
      dsimp only at h
      split_ifs at h
      cases h
      rfl

/-- **What a completed role does**: the tokens were there, and it copies them unless all
control-plane hosts of the play have the file of the first one. -/
theorem role_eq_ok (h : role p checksums random st = .ok st') :
    (p.batch = [] ∧ st' = st) ∨
      (genTokens p checksums st = false ∧
        ((syncTokens p checksums st = false ∧ st' = makeDirectories p st) ∨
          ∃ tokensData, (makeDirectories p st).dirs p.firstControlPlane = some tokensData ∧
            st' = copyTokens p (makeDirectories p st) tokensData)) := by
  rw [role] at h
  by_cases hbatch : p.batch = []
  · rw [if_pos hbatch] at h
    cases h
    exact Or.inl ⟨hbatch, rfl⟩
  · rw [if_neg hbatch] at h
    obtain ⟨made, hmade, h⟩ := ok_of_bind h
    obtain ⟨hgen, rfl⟩ := generated_eq_ok hmade
    refine Or.inr ⟨hgen, ?_⟩
    cases hsync : syncTokens p checksums st with
    | false =>
        rw [hsync, if_neg Bool.false_ne_true] at h
        cases h
        exact Or.inl ⟨rfl, rfl⟩
    | true =>
        rw [hsync, if_pos rfl] at h
        obtain ⟨tokensData, hgather, h⟩ := ok_of_bind h
        cases h
        exact Or.inr ⟨tokensData, gatherTokens_eq_ok hgather, rfl⟩

/-- **The control planes agree on the token file**: after the role every control-plane host
of the play has the file of the first control-plane host. -/
theorem role_agree (p : Play) (checksums : Checksums) (random : RandomTokens)
    (st st' : TokenState) (hauth : p.kubeTokenAuth = true)
    (h : role p checksums random st = .ok st') :
    ∀ host ∈ p.batch, host ∈ p.kubeControlPlane →
      ∃ file, st'.known host = some file ∧ st'.known p.firstControlPlane = some file := by
  intro host hbatch hcontrol
  rcases role_eq_ok h with ⟨hempty, -⟩ | ⟨hgen, hmade⟩
  · rw [hempty] at hbatch
    cases hbatch
  obtain ⟨file, hfile⟩ := Option.ne_none_iff_exists'.mp (known_of_genTokens hauth hgen)
  refine ⟨file, ?_⟩
  rcases hmade with ⟨hsync, rfl⟩ | ⟨tokensData, hdir, rfl⟩
  · obtain ⟨-, hsame⟩ := syncTokens_eq_false_iff.mp hsync host hcontrol hbatch
    rw [known_makeDirectories, known_makeDirectories, hsame]
    exact ⟨hfile, hfile⟩
  · have hdata : tokensData.get? knownTokens = some file := by
      rw [← @known_makeDirectories p, TokenState.known, hdir] at hfile
      exact hfile
    have hfirst : (copyTokens p (makeDirectories p st) tokensData).known p.firstControlPlane
        = some file := by
      rw [TokenState.known, dirs_copyTokens_first, hdir]
      exact hdata
    refine ⟨?_, hfirst⟩
    by_cases hne : host = p.firstControlPlane
    · rw [hne]
      exact hfirst
    · exact known_copyTokens hdata hbatch hcontrol hne

/-- A play on the second of two control-plane hosts. -/
def secondOnly : Play where
  firstControlPlane := "node1".toList
  otherControlPlane := ["node2".toList]
  kubeNode := ["node3".toList]
  batch := ["node2".toList]
  kubeTokenAuth := true

/-- The first host has tokens for some accounts, and the others have nothing. -/
def tokensFor (accounts : List Text) : TokenState where
  dirs host :=
    if host = "node1".toList then
      some (OrderedDict.empty.set knownTokens
        (csvOf (accounts.map fun account => (['a'], account))))
    else none
  drawn := 0

/-- A checksum for the files of a run: the file itself, marked. -/
def marked : Checksums where
  sum file := '#' :: file
  sum_ne_nil _ := List.cons_ne_nil _ _
  injective := List.cons_injective

/-- The second host gets the file of the first one, which has one account. -/
theorem role_agree_secondOnly :
    ∃ st', role secondOnly marked sameToken (tokensFor ["system:kubectl-node1".toList]) = .ok st' ∧
      ∃ file, st'.known "node2".toList = some file ∧ st'.known "node1".toList = some file := by
  have hrun : role secondOnly marked sameToken (tokensFor ["system:kubectl-node1".toList])
      = .ok _ := rfl
  exact ⟨_, hrun, role_agree _ _ _ _ _ rfl hrun _ (by decide) (by decide)⟩

end Kubespray.Tokens
