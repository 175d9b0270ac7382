import Mathlib.Data.Finset.Sort

/-!
# Keeping the Newest

What is made in the order of time, such as backups under names with their dates, is thinned out
now and then: the newest few of what there is are kept.

What there is then are always the newest of what was ever made (`NewestOf`), so that whether
something is kept depends on how much was made after it, and not on how often the rest has been
thinned out.

## Main results

* `mem_keepNewest`: what is kept is what fewer than so many are newer than.
* `NewestOf.insert`, `NewestOf.keepNewest`: what is there are the newest of what was made.
* `NewestOf.mem_keepNewest`: what is kept, by what was ever made.
-/

universe u

namespace Retention

variable {α : Type u} [LinearOrder α]

/-- The newest of some things, so many at most: all but the first of them in their order. -/
def keepNewest (count : ℕ) (there : Finset α) : Finset α :=
  there \ ((there.sort (· ≤ ·)).take (there.card - count)).toFinset

/-- How many of some things are newer than one. -/
def newerCount (made : Finset α) (x : α) : ℕ :=
  (made.filter (x < ·)).card

/-- The first of an ascending list are those that few are less than. -/
theorem mem_take_iff {l : List α} (hl : l.Pairwise (· < ·)) (k : ℕ) (x : α) :
    x ∈ l.take k ↔ x ∈ l ∧ (l.filter (· < x)).length < k := by
  induction l generalizing k with
  | nil => simp only [List.take_nil, List.not_mem_nil, false_and]
  | cons a l ih =>
      obtain ⟨hfirst, hrest⟩ := List.pairwise_cons.mp hl
      cases k with
      | zero => simp only [List.take_zero, List.not_mem_nil, Nat.not_lt_zero, and_false]
      | succ k =>
          rw [List.take_succ_cons, List.mem_cons, List.mem_cons]
          by_cases hxa : x = a
          · subst hxa
            have hnone : (x :: l).filter (· < x) = [] := by
              refine List.filter_eq_nil_iff.mpr fun b hb => ?_
              obtain rfl | hb := List.mem_cons.mp hb
              · simp only [lt_irrefl, decide_false, Bool.false_eq_true, not_false_eq_true]
              · simp only [(hfirst b hb).le.not_gt, decide_false, Bool.false_eq_true,
                  not_false_eq_true]
            simp only [true_or, hnone, List.length_nil, Nat.zero_lt_succ, and_self]
          · simp only [hxa, false_or, ih hrest k]
            refine and_congr_right fun hx => ?_
            rw [List.filter_cons_of_pos (by simpa using hfirst x hx), List.length_cons,
              Nat.succ_lt_succ_iff]

/-- How many are less and greater than one of some things. -/
theorem card_lt_add_card_gt {there : Finset α} {x : α} (hx : x ∈ there) :
    (there.filter (· < x)).card + newerCount there x + 1 = there.card := by
  have hsplit : there = insert x (there.filter (· < x) ∪ there.filter (x < ·)) := by
    ext y
    simp only [Finset.mem_insert, Finset.mem_union, Finset.mem_filter]
    constructor
    · intro hy
      obtain hlt | rfl | hgt := lt_trichotomy y x
      · exact Or.inr (Or.inl ⟨hy, hlt⟩)
      · exact Or.inl rfl
      · exact Or.inr (Or.inr ⟨hy, hgt⟩)
    · rintro (rfl | ⟨hy, -⟩ | ⟨hy, -⟩)
      · exact hx
      · exact hy
      · exact hy
  have hdisjoint : Disjoint (there.filter (· < x)) (there.filter (x < ·)) :=
    Finset.disjoint_filter.mpr fun y _ hlt hgt => lt_asymm hlt hgt
  conv_rhs => rw [hsplit]
  rw [Finset.card_insert_of_notMem (by simp), Finset.card_union_of_disjoint hdisjoint,
    newerCount]

/-- **What is kept** is what fewer than so many are newer than. -/
theorem mem_keepNewest {count : ℕ} {there : Finset α} {x : α} :
    x ∈ keepNewest count there ↔ x ∈ there ∧ newerCount there x < count := by
  have hlength : ((there.sort (· ≤ ·)).filter (· < x)).length = (there.filter (· < x)).card := by
    rw [← List.toFinset_card_of_nodup ((there.sort_nodup (· ≤ ·)).filter _), List.toFinset_filter,
      Finset.sort_toFinset]
    simp only [decide_eq_true_eq]
  rw [keepNewest, Finset.mem_sdiff, List.mem_toFinset]
  refine and_congr_right fun hx => ?_
  rw [mem_take_iff (there.sortedLT_sort).pairwise, Finset.mem_sort, hlength]
  have hall := card_lt_add_card_gt hx
  simp only [hx, true_and]
  omega

/-- What there is are the newest of what was made. -/
structure NewestOf (made there : Finset α) : Prop where
  subset : there ⊆ made
  newer : ∀ x ∈ there, ∀ y ∈ made, x < y → y ∈ there

variable {made there : Finset α}

/-- What is newer than something that is there. -/
theorem NewestOf.newerCount_eq (h : NewestOf made there) {x : α} (hx : x ∈ there) :
    newerCount there x = newerCount made x := by
  refine congrArg Finset.card ?_
  ext y
  rw [Finset.mem_filter, Finset.mem_filter]
  exact and_congr_left fun hlt => ⟨fun hy => h.subset hy, fun hy => h.newer x hx y hy hlt⟩

/-- At first everything is there. -/
theorem NewestOf.refl (made : Finset α) : NewestOf made made :=
  ⟨Finset.Subset.refl made, fun _ _ _ hy _ => hy⟩

/-- **Something new** is made. -/
theorem NewestOf.insert [DecidableEq α] (h : NewestOf made there) {new : α}
    (hnew : ∀ x ∈ made, x ≤ new) :
    NewestOf (insert new made) (insert new there) := by
  refine ⟨Finset.insert_subset_insert new h.subset, fun x hx y hy hlt => ?_⟩
  obtain rfl | hmade := Finset.mem_insert.mp hy
  · exact Finset.mem_insert_self ..
  · obtain rfl | hthere := Finset.mem_insert.mp hx
    · exact absurd hlt (hnew y hmade).not_gt
    · exact Finset.mem_insert_of_mem (h.newer x hthere y hmade hlt)

/-- **What is kept**, by what was ever made. -/
theorem NewestOf.mem_keepNewest (h : NewestOf made there) {count : ℕ} {x : α} :
    x ∈ keepNewest count there ↔ x ∈ there ∧ newerCount made x < count := by
  rw [Retention.mem_keepNewest]
  exact and_congr_right fun hx => by rw [h.newerCount_eq hx]

/-- **Thinning out** leaves the newest. -/
theorem NewestOf.keepNewest (h : NewestOf made there) (count : ℕ) :
    NewestOf made (keepNewest count there) := by
  refine ⟨Finset.sdiff_subset.trans h.subset, fun x hx y hy hlt => ?_⟩
  rw [h.mem_keepNewest] at hx ⊢
  refine ⟨h.newer x hx.1 y hy hlt, (Finset.card_le_card ?_).trans_lt hx.2⟩
  exact Finset.monotone_filter_right made fun z _ hz => hlt.trans hz

end Retention
