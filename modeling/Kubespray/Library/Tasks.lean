import Mathlib.Logic.Function.Basic

/-!
# Tasks That May Fail

A play that stops where a task fails leaves the hosts as the tasks up to that point have made
them. So a task is a program of `EStateM`: it ends or fails, and leaves a state both ways. The
state is that of a `Fleet`, of hosts with a state of their own and of one that they share.

`Triple P x Q E` is the judgment about such programs: from a state in `P` the program ends in
`Q`, or fails in a state in `E`. Invariants are stated with `Fleet.Holds`: one condition on
what is shared, and one on each host.

## Main results

* `Triple.bind`, `Triple.ite`, `Triple.conseq`: the rules of the judgment.
* `Triple.onHosts`: a task of each host is judged on one host.
* `holds_along`: what every program of a list keeps, however it comes out, holds in the end.
-/

universe u

namespace Tasks

variable {ε σ α β : Type u}

/-- From a state in `P` the program ends in `Q`, or fails in a state in `E`. -/
def Triple (P : σ → Prop) (x : EStateM ε σ α) (Q : α → σ → Prop) (E : σ → Prop) : Prop :=
  ∀ s, P s → match x s with
    | .ok a s' => Q a s'
    | .error _ s' => E s'

/-- The state that a program leaves. -/
def left : EStateM.Result ε σ α → σ
  | .ok _ s => s
  | .error _ s => s

/-- A check of the state. -/
def ensure (c : σ → Bool) (e : ε) : EStateM ε σ PUnit := fun s =>
  if c s then .ok ⟨⟩ s else .error e s

/-- A change that is made in any case, and may end in a failure. -/
def attempt (f : σ → σ) (succeeds : σ → Bool) (e : ε) : EStateM ε σ PUnit := fun s =>
  if succeeds s then .ok ⟨⟩ (f s) else .error e (f s)

/-- What is left when a change is made first. -/
theorem left_modify_bind (f : σ → σ) (g : PUnit → EStateM ε σ α) (s : σ) :
    left ((modify f >>= g) s) = left (g ⟨⟩ (f s)) := rfl

/-- What is left when a change that may fail is made first. -/
theorem left_attempt_bind (f : σ → σ) (succeeds : σ → Bool) (e : ε) (g : PUnit → EStateM ε σ α)
    (s : σ) :
    left ((attempt f succeeds e >>= g) s) = if succeeds s then left (g ⟨⟩ (f s)) else f s := by
  change left (EStateM.bind (attempt f succeeds e) g s) = _
  rw [EStateM.bind, attempt]
  by_cases hc : succeeds s = true
  · rw [if_pos hc, if_pos hc]
  · rw [if_neg hc, if_neg hc]
    rfl

/-- What is left when a check comes first, which is such a change of nothing. -/
theorem left_ensure_bind (c : σ → Bool) (e : ε) (g : PUnit → EStateM ε σ α) (s : σ) :
    left ((ensure c e >>= g) s) = if c s then left (g ⟨⟩ s) else s :=
  left_attempt_bind id c e g s

namespace Triple

variable {P P' E E' : σ → Prop} {Q Q' : α → σ → Prop} {x : EStateM ε σ α}

/-- What is known where a program has ended. -/
theorem of_ok (h : Triple P x Q E) {s s' : σ} {a : α} (hs : P s) (hx : x s = .ok a s') :
    Q a s' := by
  have hend := h s hs
  rw [hx] at hend
  exact hend

/-- A program that does not fail ends. -/
theorem exists_ok (h : Triple P x Q fun _ => False) {s : σ} (hs : P s) :
    ∃ a s', x s = .ok a s' ∧ Q a s' := by
  have hend := h s hs
  cases hx : x s with
  | ok a s' =>
      rw [hx] at hend
      exact ⟨a, s', rfl, hend⟩
  | error e s' =>
      rw [hx] at hend
      exact hend.elim

/-- What is known of the state that is left, however the program comes out. -/
theorem left (h : Triple P x Q E) {I : σ → Prop} (hQ : ∀ a s, Q a s → I s)
    (hE : ∀ s, E s → I s) {s : σ} (hs : P s) : I (Tasks.left (x s)) := by
  have hend := h s hs
  cases hx : x s with
  | ok a s' =>
      rw [hx] at hend
      exact hQ a s' hend
  | error e s' =>
      rw [hx] at hend
      exact hE s' hend

/-- Nothing to do. -/
theorem pure {a : α} (h : ∀ s, P s → Q a s) : Triple P (Pure.pure a : EStateM ε σ α) Q E :=
  fun s hs => h s hs

/-- Reading the state. -/
theorem get {Q : σ → σ → Prop} (h : ∀ s, P s → Q s s) :
    Triple P (MonadState.get : EStateM ε σ σ) Q E :=
  fun s hs => h s hs

/-- A failure. -/
theorem throw {e : ε} (h : ∀ s, P s → E s) : Triple P (MonadExcept.throw e : EStateM ε σ α) Q E :=
  fun s hs => h s hs

/-- What is checked is known when the check has passed. -/
theorem ensure {c : σ → Bool} {e : ε} {Q : PUnit → σ → Prop}
    (h : ∀ s, P s → c s = true → Q ⟨⟩ s) (hE : ∀ s, P s → E s) :
    Triple P (ensure c e) Q E := by
  intro s hs
  rw [Tasks.ensure]
  by_cases hc : c s = true
  · rw [if_pos hc]
    exact h s hs hc
  · rw [if_neg hc]
    exact hE s hs

/-- The change is made both ways. -/
theorem attempt {f : σ → σ} {succeeds : σ → Bool} {e : ε} {Q : PUnit → σ → Prop}
    (h : ∀ s, P s → succeeds s = true → Q ⟨⟩ (f s)) (hE : ∀ s, P s → E (f s)) :
    Triple P (attempt f succeeds e) Q E := by
  intro s hs
  rw [Tasks.attempt]
  by_cases hc : succeeds s = true
  · rw [if_pos hc]
    exact h s hs hc
  · rw [if_neg hc]
    exact hE s hs

/-- **One program and then another.** -/
theorem bind {R : β → σ → Prop} {f : α → EStateM ε σ β} (hx : Triple P x Q E)
    (hf : ∀ a, Triple (Q a) (f a) R E) : Triple P (x >>= f) R E := by
  intro s hs
  have hend := hx s hs
  change match EStateM.bind x f s with
    | .ok b s' => R b s'
    | .error _ s' => E s'
  rw [EStateM.bind]
  cases h : x s with
  | ok a s' =>
      rw [h] at hend
      exact hf a s' hend
  | error e s' =>
      rw [h] at hend
      exact hend

/-- **A choice.** -/
theorem ite {c : Prop} [Decidable c] {y : EStateM ε σ α} (hx : c → Triple P x Q E)
    (hy : ¬ c → Triple P y Q E) : Triple P (if c then x else y) Q E := by
  by_cases hc : c
  · rw [if_pos hc]
    exact hx hc
  · rw [if_neg hc]
    exact hy hc

/-- **Consequence.** -/
theorem conseq (h : Triple P x Q E) (hP : ∀ s, P' s → P s) (hQ : ∀ a s, Q a s → Q' a s)
    (hE : ∀ s, E s → E' s) : Triple P' x Q' E' := by
  intro s hs
  have hend := h s (hP s hs)
  cases hx : x s with
  | ok a s' =>
      rw [hx] at hend
      exact hQ a s' hend
  | error e s' =>
      rw [hx] at hend
      exact hE s' hend

/-- Nothing is asked of failures. -/
theorem weaken (h : Triple P x Q E) : Triple P x Q fun _ => True :=
  h.conseq (fun _ hs => hs) (fun _ _ hs => hs) fun _ _ => trivial

end Triple

/-- **Many programs**, each of which keeps the invariant, however it comes out. -/
theorem holds_along {ι : Type u} {I : σ → Prop} {program : ι → EStateM ε σ α} {is : List ι}
    (hkeep : ∀ i ∈ is, Triple I (program i) (fun _ => I) I) {s : σ} (hs : I s) :
    I (is.foldl (fun s i => left (program i s)) s) := by
  induction is generalizing s with
  | nil => exact hs
  | cons i is ih =>
      exact ih (fun j hj => hkeep j (List.mem_cons_of_mem i hj))
        ((hkeep i List.mem_cons_self).left (fun _ _ h => h) (fun _ h => h) hs)

/-! ### Hosts -/

/-- Hosts with a state of their own, and what they share. -/
structure Fleet (H L G : Type u) where
  host : H → L
  shared : G

variable {H L G : Type u} [DecidableEq H]

/-- A condition on what is shared, and one on each host. -/
def Fleet.Holds (C : G → Prop) (N : H → L → Prop) (s : Fleet H L G) : Prop :=
  C s.shared ∧ ∀ h, N h (s.host h)

/-- A task of each of some hosts. Where it fails the host stays as it is, and the play stops
when the other hosts have run it, too. -/
def onHosts (hosts : List H) (e : ε) (task : G → H → L → Option L) :
    EStateM ε (Fleet H L G) PUnit := fun s =>
  let s' := { s with
    host := fun h => if h ∈ hosts then (task s.shared h (s.host h)).getD (s.host h)
      else s.host h }
  if hosts.all fun h => (task s.shared h (s.host h)).isSome then .ok ⟨⟩ s' else .error e s'

/-- A task on one host. -/
def onHost (host : H) (e : ε) (task : G → L → Option L) : EStateM ε (Fleet H L G) PUnit :=
  onHosts [host] e fun shared _ => task shared

/-- A task of each of some hosts that does not fail. -/
def onAll (hosts : List H) (task : G → H → L → L) : EStateM ε (Fleet H L G) PUnit :=
  modify fun s => { s with
    host := fun h => if h ∈ hosts then task s.shared h (s.host h) else s.host h }

variable {hosts : List H} {e : ε} {task : G → H → L → Option L} {C : G → Prop}
  {N M F : H → L → Prop}

/-- A task that cannot fail. -/
theorem Triple.onAll {task : G → H → L → L}
    (htask : ∀ g h l, h ∈ hosts → C g → N h l → M h (task g h l))
    (hother : ∀ h l, h ∉ hosts → N h l → M h l) {E : Fleet H L G → Prop} :
    Triple (Fleet.Holds C N) (onAll hosts task : EStateM ε _ _) (fun _ => Fleet.Holds C M) E := by
  intro s ⟨hC, hN⟩
  refine ⟨hC, fun h => ?_⟩
  by_cases hmem : h ∈ hosts
  · simp only [if_pos hmem]
    exact htask _ h _ hmem hC (hN h)
  · simp only [if_neg hmem]
    exact hother h _ hmem (hN h)

/-- **A task of each host**: what it makes of one host, and that the other hosts stay as they
are, is all there is to know. -/
theorem Triple.onHosts
    (htask : ∀ g h l l', h ∈ hosts → C g → N h l → task g h l = some l' → M h l')
    (hother : ∀ h l, h ∉ hosts → N h l → M h l)
    (hfail : ∀ h l, N h l → F h l) (hdone : ∀ h l, M h l → F h l) :
    Triple (Fleet.Holds C N) (onHosts hosts e task) (fun _ => Fleet.Holds C M)
      (Fleet.Holds C F) := by
  intro s ⟨hC, hN⟩
  rw [Tasks.onHosts]
  by_cases hall : (hosts.all fun h => (task s.shared h (s.host h)).isSome) = true
  · rw [if_pos hall]
    refine ⟨hC, fun h => ?_⟩
    by_cases hmem : h ∈ hosts
    · obtain ⟨l', hl'⟩ := Option.isSome_iff_exists.mp (List.all_eq_true.mp hall h hmem)
      simp only [if_pos hmem, hl', Option.getD_some]
      exact htask s.shared h _ l' hmem hC (hN h) hl'
    · simp only [if_neg hmem]
      exact hother h _ hmem (hN h)
  · rw [if_neg hall]
    refine ⟨hC, fun h => ?_⟩
    by_cases hmem : h ∈ hosts
    · simp only [if_pos hmem]
      cases hl' : task s.shared h (s.host h) with
      | none => exact hfail h _ (hN h)
      | some l' => exact hdone h l' (htask s.shared h _ l' hmem hC (hN h) hl')
    · simp only [if_neg hmem]
      exact hfail h _ (hN h)

/-- The tasks of the hosts leave what is shared. -/
theorem Triple.onHosts_shared :
    Triple (Fleet.Holds C fun _ _ => True) (Tasks.onHosts hosts e task)
      (fun _ => Fleet.Holds C fun _ _ => True) (Fleet.Holds C fun _ _ => True) :=
  Triple.onHosts (fun _ _ _ _ _ _ _ _ => trivial) (fun _ _ _ _ => trivial) (fun _ _ _ => trivial)
    fun _ _ _ => trivial

/-- So do those that cannot fail. -/
theorem Triple.onAll_shared {task : G → H → L → L} {E : Fleet H L G → Prop} :
    Triple (Fleet.Holds C fun _ _ => True) (Tasks.onAll hosts task : EStateM ε _ _)
      (fun _ => Fleet.Holds C fun _ _ => True) E :=
  Triple.onAll (fun _ _ _ _ _ _ => trivial) fun _ _ _ _ => trivial

/-- A task that no host fails. -/
theorem Triple.onHosts_ends
    (htask : ∀ g h l, h ∈ hosts → C g → N h l → ∃ l', task g h l = some l' ∧ M h l')
    (hother : ∀ h l, h ∉ hosts → N h l → M h l) {E : Fleet H L G → Prop} :
    Triple (Fleet.Holds C N) (Tasks.onHosts hosts e task) (fun _ => Fleet.Holds C M) E := by
  intro s ⟨hC, hN⟩
  have hall : (hosts.all fun h => (task s.shared h (s.host h)).isSome) = true := by
    refine List.all_eq_true.mpr fun h hmem => ?_
    obtain ⟨l', hl', -⟩ := htask _ h _ hmem hC (hN h)
    exact Option.isSome_iff_exists.mpr ⟨l', hl'⟩
  rw [Tasks.onHosts, if_pos hall]
  refine ⟨hC, fun h => ?_⟩
  by_cases hmem : h ∈ hosts
  · obtain ⟨l', hl', hM⟩ := htask _ h _ hmem hC (hN h)
    simp only [if_pos hmem, hl', Option.getD_some]
    exact hM
  · simp only [if_neg hmem]
    exact hother h _ hmem (hN h)

/-- A task that some host fails. -/
theorem Triple.onHosts_fails {h : H} (hmem : h ∈ hosts)
    (htask : ∀ g l, C g → N h l → task g h l = none) {Q : PUnit → Fleet H L G → Prop} :
    Triple (Fleet.Holds C N) (Tasks.onHosts hosts e task) Q (fun _ => True) := by
  intro s ⟨hC, hN⟩
  have hnot : ¬ (hosts.all fun k => (task s.shared k (s.host k)).isSome) = true := by
    intro hall
    have hsome := List.all_eq_true.mp hall h hmem
    rw [htask _ _ hC (hN h)] at hsome
    cases hsome
  rw [Tasks.onHosts, if_neg hnot]
  trivial

end Tasks
