import Kubespray.Tokens.Role
import Kubespray.Library.Histories

/-!
# Tokens for Growing Groups

`kube-gen-token.sh` adds what is missing, but the role runs it only when the first
control-plane host has no `known_tokens.csv` at all, and then the run fails. A host that joins
the groups gets no token in a run that completes: the file stays as it was.

## Main results

* `known_of_step`: a run leaves the file of the first control-plane host.
* `tokens_history_iff`: when every run of a history leaves a token for every host.
-/

namespace Kubespray.Tokens

open Histories

/-- A run of the role with token authentication. -/
structure TokenRun extends Play where
  auth : kubeTokenAuth = true

variable (checksums : Checksums) (random : RandomTokens)

/-- One run of the role. -/
def step (st : TokenState) (r : TokenRun) : Option TokenState :=
  (role r.toPlay checksums random st).toOption

/-- The first control-plane host has a line for the account of every control-plane host and
every node of the run. -/
def TokensForAll (_ : TokenState) (r : TokenRun) (st' : TokenState) : Prop :=
  ∀ account ∈ accounts r.toPlay, HasAccount ((st'.known r.firstControlPlane).getD []) account

/-- The first control-plane host has such lines before the run. -/
def Provided (st : TokenState) (r : TokenRun) (_ : TokenState) : Prop :=
  ∀ account ∈ accounts r.toPlay, HasAccount ((st.known r.firstControlPlane).getD []) account

instance (st : TokenState) (r : TokenRun) (st' : TokenState) :
    Decidable (TokensForAll st r st') :=
  inferInstanceAs (Decidable (∀ account ∈ accounts r.toPlay, _))

variable {checksums random} {st st' : TokenState} {r : TokenRun}

/-- **A run leaves the file of the first control-plane host.** -/
theorem known_of_step (h : step checksums random st r = some st') :
    st'.known r.firstControlPlane = st.known r.firstControlPlane := by
  have hrole : role r.toPlay checksums random st = .ok st' := by
    cases hrole : role r.toPlay checksums random st with
    | error e =>
        rw [step, hrole] at h
        cases h
    | ok st₁ =>
        rw [step, hrole] at h
        cases h
        rfl
  rcases role_eq_ok hrole with ⟨-, rfl⟩ | ⟨-, ⟨-, rfl⟩ | ⟨tokensData, hdir, rfl⟩⟩
  · rfl
  · exact known_makeDirectories
  · rw [← @known_makeDirectories r.toPlay st, TokenState.known, TokenState.known,
      dirs_copyTokens_first]

/-- **Every run of a history leaves a token for every host** exactly when each run finds one
for every host. -/
theorem tokens_history_iff (checksums : Checksums) (random : RandomTokens) (st : TokenState)
    (runs : List TokenRun) :
    Along (step checksums random) TokensForAll st runs ↔
      Along (step checksums random) Provided st runs :=
  @along_congr_of_invariant _ _ (step checksums random) TokensForAll Provided (fun _ => True)
    (fun _ _ _ _ _ => trivial)
    (fun _ _ _ _ h => by rw [TokensForAll, Provided, known_of_step h]) st trivial runs

/-- A run for one control-plane host, with these nodes. -/
def growingRun (nodes : List Text) : TokenRun where
  firstControlPlane := "node1".toList
  otherControlPlane := []
  kubeNode := nodes
  batch := ["node1".toList]
  kubeTokenAuth := true
  auth := rfl

/-- There are tokens for `node1`, and `node2` joins in the second run. -/
theorem tokens_history_fails :
    ¬ Along (step marked sameToken) TokensForAll
      (tokensFor ["system:kubectl-node1".toList, "system:kubelet-node1".toList])
      [growingRun ["node1".toList], growingRun ["node1".toList, "node2".toList]] := by
  decide +kernel

end Kubespray.Tokens
