import Mathlib.Data.List.Perm.Basic
import Mathlib.Data.Set.List

/-!
# Computations That May Fail

Facts about `Except`-valued programs in the direction proofs about them need: what is
known when the program *succeeded*. A sequence that succeeded had both parts succeed
(`bind_eq_ok_iff`), a loop is taken apart at its first element or between two lists
(`foldlM_cons_eq_ok_iff`, `foldlM_append_eq_ok_iff`), and a loop that succeeded can be
summarised by what each iteration preserves (`foldlM_invariant`) or does to an observation
of the state (`foldlM_observe`). `foldlM_succeeds` is the converse direction for loops, and
`foldlM_simulates` the one for two loops side by side. A loop that collects results has the
results of its elements (`mapM_eq_ok_iff`).
-/

universe u v w

namespace Fallible

variable {ε : Type u} {α β σ τ : Type v} {γ : Type w}

/-- A sequence whose first part succeeded goes on with its result. -/
theorem ok_bind (a : α) (f : α → Except ε β) : (Except.ok a >>= f) = f a := rfl

/-- A sequence succeeds exactly when its parts do. -/
theorem bind_eq_ok_iff {x : Except ε α} {f : α → Except ε β} {b : β} :
    (x >>= f) = .ok b ↔ ∃ a, x = .ok a ∧ f a = .ok b := by
  cases x with
  | error e =>
      constructor
      · intro h
        exact absurd h (by simp [bind, Except.bind])
      · rintro ⟨a, ha, -⟩
        cases ha
  | ok a =>
      constructor
      · intro h
        exact ⟨a, rfl, h⟩
      · rintro ⟨a', ha, h⟩
        cases ha
        exact h

/-- A successful sequence, taken apart. -/
theorem ok_of_bind {x : Except ε α} {f : α → Except ε β} {b : β} (h : (x >>= f) = .ok b) :
    ∃ a, x = .ok a ∧ f a = .ok b :=
  bind_eq_ok_iff.mp h

/-- What a sequence needs: its first part succeeds, and the rest does on its result. -/
theorem exists_bind_ok_iff {x : Except ε α} {f : α → Except ε β} :
    (∃ b, (x >>= f) = .ok b) ↔ ∃ a, x = .ok a ∧ ∃ b, f a = .ok b := by
  constructor
  · rintro ⟨b, h⟩
    obtain ⟨a, ha, hb⟩ := ok_of_bind h
    exact ⟨a, ha, b, hb⟩
  · rintro ⟨a, ha, b, hb⟩
    exact ⟨b, bind_eq_ok_iff.mpr ⟨a, ha, hb⟩⟩

/-- A loop over a first element and some others succeeds when the iterations do. -/
theorem foldlM_cons_eq_ok_iff {f : σ → γ → Except ε σ} {x : γ} {xs : List γ} {s s' : σ} :
    (x :: xs).foldlM f s = .ok s' ↔ ∃ s₁, f s x = .ok s₁ ∧ xs.foldlM f s₁ = .ok s' := by
  rw [List.foldlM_cons]
  exact bind_eq_ok_iff

/-- A loop over two lists is one after the other. -/
theorem foldlM_append_eq_ok_iff {f : σ → γ → Except ε σ} {xs ys : List γ} {s s' : σ} :
    (xs ++ ys).foldlM f s = .ok s' ↔
      ∃ s₁, xs.foldlM f s = .ok s₁ ∧ ys.foldlM f s₁ = .ok s' := by
  rw [List.foldlM_append]
  exact bind_eq_ok_iff

/-- **The loop rule**: what every successful iteration preserves holds after a
successful loop. -/
theorem foldlM_invariant {f : σ → γ → Except ε σ} {I : σ → Prop} {xs : List γ}
    (hstep : ∀ s x s', x ∈ xs → I s → f s x = .ok s' → I s') {s s' : σ} (hs : I s)
    (h : xs.foldlM f s = .ok s') : I s' := by
  induction xs generalizing s with
  | nil =>
      cases h
      exact hs
  | cons x xs ih =>
      obtain ⟨s₁, h₁, h⟩ := foldlM_cons_eq_ok_iff.mp h
      exact ih (fun s x' s' hx => hstep s x' s' (List.mem_cons_of_mem x hx))
        (hstep s x s₁ List.mem_cons_self hs h₁) h

/-- **Observing a loop**: when every successful iteration acts on an observation of the
state as `g` does, the whole loop acts on it as the fold of `g`. -/
theorem foldlM_observe {f : σ → γ → Except ε σ} {obs : σ → τ} {g : τ → γ → τ} {xs : List γ}
    (hstep : ∀ s x s', x ∈ xs → f s x = .ok s' → obs s' = g (obs s) x) {s s' : σ}
    (h : xs.foldlM f s = .ok s') : obs s' = xs.foldl g (obs s) := by
  induction xs generalizing s with
  | nil =>
      cases h
      rfl
  | cons x xs ih =>
      obtain ⟨s₁, h₁, h⟩ := foldlM_cons_eq_ok_iff.mp h
      rw [List.foldl_cons, ← hstep s x s₁ List.mem_cons_self h₁]
      exact ih (fun s x' s' hx => hstep s x' s' (List.mem_cons_of_mem x hx)) h

/-- **The loop rule for success**: when every iteration that starts in an invariant
succeeds and keeps it, so does the loop. -/
theorem foldlM_succeeds {f : σ → γ → Except ε σ} {I : σ → Prop} {xs : List γ}
    (hstep : ∀ s x, x ∈ xs → I s → ∃ s', f s x = .ok s' ∧ I s') {s : σ} (hs : I s) :
    ∃ s', xs.foldlM f s = .ok s' ∧ I s' := by
  induction xs generalizing s with
  | nil => exact ⟨s, rfl, hs⟩
  | cons x xs ih =>
      obtain ⟨s₁, h₁, hs₁⟩ := hstep s x List.mem_cons_self hs
      obtain ⟨s', hloop, hs'⟩ :=
        ih (fun s y hy => hstep s y (List.mem_cons_of_mem x hy)) hs₁
      refine ⟨s', ?_, hs'⟩
      rw [List.foldlM_cons]
      exact bind_eq_ok_iff.mpr ⟨s₁, h₁, hloop⟩

/-- **The simulation rule for loops**: when the iterations of a loop succeed with related
states wherever those of another loop do, so does the loop. -/
theorem foldlM_simulates {f : σ → γ → Except ε σ} {g : τ → γ → Except ε τ} {R : σ → τ → Prop}
    {xs : List γ}
    (hstep : ∀ s t x s', x ∈ xs → R s t → f s x = .ok s' → ∃ t', g t x = .ok t' ∧ R s' t')
    {s s' : σ} {t : τ} (hst : R s t) (h : xs.foldlM f s = .ok s') :
    ∃ t', xs.foldlM g t = .ok t' ∧ R s' t' := by
  induction xs generalizing s t with
  | nil =>
      cases h
      exact ⟨t, rfl, hst⟩
  | cons x xs ih =>
      obtain ⟨s₁, h₁, h⟩ := foldlM_cons_eq_ok_iff.mp h
      obtain ⟨t₁, hg, hst₁⟩ := hstep s t x s₁ List.mem_cons_self hst h₁
      obtain ⟨t', hloop, hst'⟩ :=
        ih (fun s t y s' hy => hstep s t y s' (List.mem_cons_of_mem x hy)) hst₁ h
      exact ⟨t', foldlM_cons_eq_ok_iff.mpr ⟨t₁, hg, hloop⟩, hst'⟩

/-- **A loop over all elements** succeeds when none fails, with their results. -/
theorem mapM_eq_ok_iff {f : γ → Except ε α} {xs : List γ} {ys : List α} :
    xs.mapM f = .ok ys ↔ xs.map f = ys.map .ok := by
  induction xs generalizing ys with
  | nil =>
      constructor
      · intro h
        cases h
        rfl
      · intro h
        obtain rfl := List.map_eq_nil_iff.mp h.symm
        rfl
  | cons x xs ih =>
      rw [List.mapM_cons, bind_eq_ok_iff]
      constructor
      · rintro ⟨y, hy, h⟩
        obtain ⟨rest, hrest, heq⟩ := ok_of_bind h
        cases heq
        rw [List.map_cons, List.map_cons, hy, ih.mp hrest]
      · intro h
        cases ys with
        | nil => cases h
        | cons y rest =>
            rw [List.map_cons, List.map_cons, List.cons.injEq] at h
            exact ⟨y, h.1, bind_eq_ok_iff.mpr ⟨rest, ih.mpr h.2, rfl⟩⟩

/-- The results of a loop over all elements come from the elements. -/
theorem exists_of_mem_mapM {f : γ → Except ε α} {xs : List γ} {ys : List α}
    (h : xs.mapM f = .ok ys) {y : α} (hy : y ∈ ys) : ∃ x ∈ xs, f x = .ok y := by
  have hmem : Except.ok y ∈ xs.map f := mapM_eq_ok_iff.mp h ▸ List.mem_map_of_mem hy
  exact List.mem_map.mp hmem

/-- The same for a loop that fails without a reason. -/
theorem exists_of_mem_mapM_option {f : γ → Option α} {xs : List γ} {ys : List α}
    (h : xs.mapM f = some ys) {y : α} (hy : y ∈ ys) : ∃ x ∈ xs, f x = some y := by
  induction xs generalizing ys with
  | nil =>
      cases h
      cases hy
  | cons x xs ih =>
      rw [List.mapM_cons] at h
      obtain ⟨z, hz, h⟩ := Option.bind_eq_some_iff.mp h
      obtain ⟨rest, hrest, h⟩ := Option.bind_eq_some_iff.mp h
      cases h
      rcases List.mem_cons.mp hy with rfl | hmem
      · exact ⟨x, List.mem_cons_self, hz⟩
      · obtain ⟨x', hx', heq⟩ := ih hrest hmem
        exact ⟨x', List.mem_cons_of_mem x hx', heq⟩

/-- A loop without reasons that is known not to fail. -/
theorem mapM_eq_some {f : γ → Option α} {g : γ → α} {xs : List γ}
    (h : ∀ x ∈ xs, f x = some (g x)) : xs.mapM f = some (xs.map g) := by
  induction xs with
  | nil => rfl
  | cons x xs ih =>
      rw [List.mapM_cons, h x List.mem_cons_self,
        ih fun y hy => h y (List.mem_cons_of_mem x hy)]
      rfl

/-- A loop without reasons fails when one of its elements does. -/
theorem mapM_eq_none {f : γ → Option α} {xs : List γ} {x : γ} (hx : x ∈ xs)
    (h : f x = none) : xs.mapM f = none := by
  induction xs with
  | nil => cases hx
  | cons y ys ih =>
      rw [List.mapM_cons]
      rcases List.mem_cons.mp hx with rfl | hmem
      · rw [h]
        rfl
      · rw [ih hmem]
        cases f y <;> rfl

/-- **A loop over items that may fail** succeeds when no item fails, and does what it does
with the items. -/
theorem foldlM_eq_ok_iff {step : σ → γ → Except ε σ} {item : γ → Except ε α} {f : σ → α → σ}
    (hstep : ∀ s x, step s x = (do return f s (← item x))) {xs : List γ} {s s' : σ} :
    xs.foldlM step s = .ok s' ↔
      ∃ ys : List α, xs.map item = ys.map .ok ∧ s' = ys.foldl f s := by
  induction xs generalizing s with
  | nil =>
      constructor
      · intro h
        cases h
        exact ⟨[], rfl, rfl⟩
      · rintro ⟨ys, hmap, rfl⟩
        obtain rfl := List.map_eq_nil_iff.mp hmap.symm
        rfl
  | cons x xs ih =>
      rw [List.foldlM_cons, bind_eq_ok_iff, hstep]
      constructor
      · rintro ⟨next, hnext, hrest⟩
        obtain ⟨y, hy, heq⟩ := ok_of_bind hnext
        cases heq
        obtain ⟨ys, hmap, rfl⟩ := ih.mp hrest
        exact ⟨y :: ys, by rw [List.map_cons, List.map_cons, hy, hmap], rfl⟩
      · rintro ⟨ys, hmap, rfl⟩
        cases ys with
        | nil => cases hmap
        | cons y ys =>
            rw [List.map_cons, List.map_cons, List.cons.injEq] at hmap
            exact ⟨f s y, bind_eq_ok_iff.mpr ⟨y, hmap.1, rfl⟩, ih.mpr ⟨ys, hmap.2, rfl⟩⟩

/-- Items none of which fails have results. -/
theorem exists_map_ok {f : γ → Except ε α} {xs : List γ} (h : ∀ x ∈ xs, ∃ y, f x = .ok y) :
    ∃ ys : List α, xs.map f = ys.map .ok := by
  have hall : ∀ r ∈ xs.map f, r ∈ Set.range (@Except.ok ε α) := by
    intro r hr
    obtain ⟨x, hx, rfl⟩ := List.mem_map.mp hr
    obtain ⟨y, hy⟩ := h x hx
    exact ⟨y, hy.symm⟩
  have hrange : xs.map f ∈ Set.range (List.map (@Except.ok ε α)) := by
    rw [Set.range_list_map]
    exact hall
  obtain ⟨ys, hys⟩ := hrange
  exact ⟨ys, hys.symm⟩

/-- A loop over all elements succeeds exactly when none of them fails. -/
theorem exists_mapM_ok_iff {f : γ → Except ε α} {xs : List γ} :
    (∃ ys, xs.mapM f = .ok ys) ↔ ∀ x ∈ xs, ∃ y, f x = .ok y := by
  simp only [mapM_eq_ok_iff]
  constructor
  · rintro ⟨ys, h⟩ x hx
    have hmem := List.mem_map_of_mem (f := f) hx
    rw [h] at hmem
    obtain ⟨y, -, hy⟩ := List.mem_map.mp hmem
    exact ⟨y, hy.symm⟩
  · exact exists_map_ok

/-- The same for a loop that counts. -/
theorem exists_mapIdx_ok_iff {f : ℕ → γ → Except ε α} {xs : List γ} :
    (∃ ys : List α, xs.mapIdx f = ys.map .ok) ↔
      ∀ i (h : i < xs.length), ∃ y, f i xs[i] = .ok y := by
  constructor
  · rintro ⟨ys, hys⟩ i hi
    have hlength : i < ys.length := by
      have heq := congrArg List.length hys
      rw [List.length_mapIdx, List.length_map] at heq
      omega
    have hget := List.getElem_of_eq hys (by simpa using hi)
    rw [List.getElem_mapIdx, List.getElem_map] at hget
    exact ⟨ys[i], hget⟩
  · intro h
    rw [List.mapIdx_eq_zipIdx_map]
    refine exists_map_ok fun ⟨x, i⟩ hx => ?_
    obtain ⟨-, hi, heq⟩ := List.mem_zipIdx hx
    rw [Nat.zero_add] at hi
    obtain ⟨y, hy⟩ := h i hi
    exact ⟨y, by rw [← hy, heq]; rfl⟩

/-- Items none of which fails do not fail in another order either. -/
theorem exists_map_ok_of_perm {xs : List (Except ε α)} {ys : List α}
    (h : xs.Perm (ys.map .ok)) : ∃ zs : List α, xs = zs.map .ok ∧ zs.Perm ys := by
  obtain ⟨zs, hzs⟩ : ∃ zs : List α, xs.map id = zs.map .ok := by
    refine exists_map_ok fun x hx => ?_
    obtain ⟨y, -, hy⟩ := List.mem_map.mp (h.mem_iff.mp hx)
    exact ⟨y, hy.symm⟩
  rw [List.map_id] at hzs
  subst hzs
  exact ⟨zs, rfl, (List.map_perm_map_iff fun a b hab => Except.ok.inj hab).mp h⟩

/-- The keys of items none of which fails, read off what the items are made of. -/
theorem filterMap_eq_map {κ : Type v} {f : γ → Option (Except ε α)} {g : γ → Option κ}
    {key : α → κ} {xs : List γ} {ys : List α} (h : xs.filterMap f = ys.map .ok)
    (hnone : ∀ x ∈ xs, f x = none → g x = none)
    (hsome : ∀ x ∈ xs, ∀ y ∈ ys, f x = some (.ok y) → g x = some (key y)) :
    xs.filterMap g = ys.map key := by
  induction xs generalizing ys with
  | nil =>
      obtain rfl := List.map_eq_nil_iff.mp h.symm
      rfl
  | cons x xs ih =>
      obtain ⟨hnone₁, hnone₂⟩ := List.forall_mem_cons.mp hnone
      obtain ⟨hsome₁, hsome₂⟩ := List.forall_mem_cons.mp hsome
      cases hx : f x with
      | none =>
          rw [List.filterMap_cons_none hx] at h
          rw [List.filterMap_cons_none (hnone₁ hx)]
          exact ih h hnone₂ hsome₂
      | some item =>
          rw [List.filterMap_cons_some hx] at h
          cases ys with
          | nil => cases h
          | cons y ys =>
              rw [List.map_cons, List.cons.injEq] at h
              obtain ⟨rfl, hrest⟩ := h
              rw [List.filterMap_cons_some (hsome₁ y List.mem_cons_self hx), List.map_cons,
                ih hrest hnone₂ fun x hx y hy => hsome₂ x hx y (List.mem_cons_of_mem _ hy)]

end Fallible
