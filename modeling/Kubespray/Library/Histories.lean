import Mathlib.Data.List.Basic

/-!
# Histories of a Partial Step Function

A component that is run again and again on a stored state is a step function
`step : σ → ι → Option σ`: from a state and an input it either fails (`none`) or leaves
a new state. A *history* is a list of inputs processed from a starting state as long as
the steps succeed, and `Along step P s is` says that `P` holds of every step of it
(the state before, the input, the state after).

## Main results

* `along_of_invariant`: the invariant rule — an invariant that holds at the start, that
  every step preserves and that implies `P` of each step gives `P` along every history.
* `along_congr_of_invariant`: two properties equivalent on the steps that start in an
  invariant are equivalent along every history.
* `along_of_along`, `along_congr_of_along`: a condition met along a history can be used at each
  of its steps.
-/

universe u v

namespace Histories

variable {σ : Type u} {ι : Type v} {step : σ → ι → Option σ}
variable {P Q : σ → ι → σ → Prop} {I : σ → Prop}

/-- `P` holds of every step of the history that starts in a state and processes a list
of inputs; the history ends at the first failing step. -/
def Along (step : σ → ι → Option σ) (P : σ → ι → σ → Prop) : σ → List ι → Prop
  | _, [] => True
  | s, i :: is =>
    match step s i with
    | none => True
    | some s' => P s i s' ∧ Along step P s' is

/-- The empty history has no steps. -/
@[simp] theorem along_nil (s : σ) : Along step P s [] := trivial

/-- A history whose first step fails has no steps. -/
theorem along_cons_of_none {s : σ} {i : ι} (h : step s i = none) (is : List ι) :
    Along step P s (i :: is) := by
  simp only [Along, h]

/-- A history whose first step succeeds. -/
theorem along_cons_of_some {s s' : σ} {i : ι} (h : step s i = some s') (is : List ι) :
    Along step P s (i :: is) ↔ P s i s' ∧ Along step P s' is := by
  simp only [Along, h]

/-- A decidable property can be checked along a history by running it. -/
instance decidableAlong [∀ s i s', Decidable (P s i s')] :
    ∀ s is, Decidable (Along step P s is)
  | s, [] => isTrue (along_nil s)
  | s, i :: is =>
    match h : step s i with
    | none => isTrue (along_cons_of_none h is)
    | some s' =>
      haveI := decidableAlong s' is
      decidable_of_iff' _ (along_cons_of_some h is)

/-- **The invariant rule with a side condition**: when every step that starts in the
invariant and meets `Q` keeps the invariant and meets `P`, then a history that meets `Q`
along the way meets `P` along the way. -/
theorem along_of_along
    (hstep : ∀ s i s', I s → step s i = some s' → Q s i s' → I s' ∧ P s i s')
    {s : σ} (hs : I s) {is : List ι} (hQ : Along step Q s is) : Along step P s is := by
  induction is generalizing s with
  | nil => exact along_nil s
  | cons i is ih =>
      cases hi : step s i with
      | none => exact along_cons_of_none hi is
      | some s' =>
          obtain ⟨hq, hrest⟩ := (along_cons_of_some hi is).mp hQ
          obtain ⟨hs', hp⟩ := hstep s i s' hs hi hq
          exact (along_cons_of_some hi is).mpr ⟨hp, ih hs' hrest⟩

/-- A condition on the inputs that all inputs of a history meet is met at every step. -/
theorem along_of_forall_mem {R : ι → Prop} (s : σ) {is : List ι} (h : ∀ i ∈ is, R i) :
    Along step (fun _ i _ => R i) s is := by
  induction is generalizing s with
  | nil => exact along_nil s
  | cons i is ih =>
      cases hi : step s i with
      | none => exact along_cons_of_none hi is
      | some s' =>
          have hrest := ih s' fun j hj => h j (List.mem_cons_of_mem i hj)
          exact (along_cons_of_some hi is).mpr ⟨h i List.mem_cons_self, hrest⟩

/-- **The invariant rule.** -/
theorem along_of_invariant
    (hstep : ∀ s i s', I s → step s i = some s' → I s' ∧ P s i s')
    {s : σ} (hs : I s) (is : List ι) : Along step P s is :=
  along_of_along (Q := fun _ _ _ => True) (fun s i s' hI h _ => hstep s i s' hI h) hs
    (along_of_forall_mem (R := fun _ => True) s fun _ _ => trivial)

/-- Properties equivalent on the steps that start in an invariant are equivalent along
every history that starts in it. -/
theorem along_congr_of_invariant (hI : ∀ s i s', I s → step s i = some s' → I s')
    (hPQ : ∀ s i s', I s → step s i = some s' → (P s i s' ↔ Q s i s'))
    {s : σ} (hs : I s) (is : List ι) : Along step P s is ↔ Along step Q s is :=
  ⟨along_of_along (fun s i s' h hi hp => ⟨hI s i s' h hi, (hPQ s i s' h hi).mp hp⟩) hs,
    along_of_along (fun s i s' h hi hq => ⟨hI s i s' h hi, (hPQ s i s' h hi).mpr hq⟩) hs⟩

/-- Properties equivalent on the steps that meet a condition are equivalent along every history
that meets it along the way. -/
theorem along_congr_of_along {R : σ → ι → σ → Prop}
    (hI : ∀ s i s', I s → step s i = some s' → R s i s' → I s')
    (hPQ : ∀ s i s', I s → step s i = some s' → R s i s' → (P s i s' ↔ Q s i s'))
    {s : σ} (hs : I s) {is : List ι} (hR : Along step R s is) :
    Along step P s is ↔ Along step Q s is := by
  induction is generalizing s with
  | nil => exact iff_of_true (along_nil s) (along_nil s)
  | cons i is ih =>
      cases hi : step s i with
      | none => exact iff_of_true (along_cons_of_none hi is) (along_cons_of_none hi is)
      | some s' =>
          obtain ⟨hr, hrest⟩ := (along_cons_of_some hi is).mp hR
          rw [along_cons_of_some hi, along_cons_of_some hi, hPQ s i s' hs hi hr,
            ih (hI s i s' hs hi hr) hrest]

/-! ### The places in a history -/

/-- What holds at every place in a history, of what was before and the input there, holds at every
place in the history without its last input, and there. -/
theorem forall_split_append_singleton {P : List ι → ι → Prop} {is : List ι} {last : ι} :
    (∀ before i after, is ++ [last] = before ++ i :: after → P before i) ↔
      (∀ before i after, is = before ++ i :: after → P before i) ∧ P is last := by
  constructor
  · refine fun h => ⟨fun before i after heq => ?_, h is last [] rfl⟩
    exact h before i (after ++ [last]) (by rw [heq, List.append_assoc, List.cons_append])
  · rintro ⟨h, hlast⟩ before i after heq
    obtain rfl | ⟨after, last', rfl⟩ := List.eq_nil_or_concat' after
    · obtain ⟨rfl, hi⟩ := List.append_inj' heq rfl
      exact List.head_eq_of_cons_eq hi ▸ hlast
    · rw [← List.cons_append, ← List.append_assoc] at heq
      exact h before i after (List.append_inj' heq rfl).1

end Histories
