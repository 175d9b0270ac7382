import Mathlib.Data.List.Basic

/-!
# The First of Each Kind

`firsts key` keeps of the members of a list with the same key the first one.

## Main results

* `firsts_append`: what is behind adds the keys that are new.
* `firsts_concat`, `firsts_of_nodup`: one member more, and lists without repetitions.
* `firsts_append_congr`, `firsts_append_of_forall`: what may be exchanged, or left out, behind.
* `firsts_filterMap_firsts`: a map that respects the keys can be applied before or after.
-/

universe u v w

namespace Firsts

variable {α : Type u} {κ : Type v} [DecidableEq κ]

/-- The first member of a list for each key. -/
def firsts (key : α → κ) : List α → List α
  | [] => []
  | a :: l => a :: (firsts key l).filter fun b => key b ≠ key a

variable {key : α → κ}

/-- Nothing is added. -/
theorem mem_of_mem_firsts {a : α} {l : List α} (h : a ∈ firsts key l) : a ∈ l := by
  induction l with
  | nil => cases h
  | cons b l ih =>
      obtain rfl | h := List.mem_cons.mp h
      · exact List.mem_cons_self
      · exact List.mem_cons_of_mem b (ih (List.mem_of_mem_filter h))

/-- No key is lost. -/
theorem exists_mem_firsts (key : α → κ) {a : α} {l : List α} (h : a ∈ l) :
    ∃ b ∈ firsts key l, key b = key a := by
  induction l with
  | nil => cases h
  | cons b l ih =>
      obtain rfl | h := List.mem_cons.mp h
      · exact ⟨a, List.mem_cons_self, rfl⟩
      · obtain ⟨c, hc, heq⟩ := ih h
        by_cases hsame : key c = key b
        · exact ⟨b, List.mem_cons_self, hsame.symm.trans heq⟩
        · exact ⟨c, List.mem_cons_of_mem b (List.mem_filter.mpr ⟨hc, by simp [hsame]⟩), heq⟩

/-- There are firsts where there is something. -/
theorem firsts_ne_nil {l : List α} (h : l ≠ []) : firsts key l ≠ [] := by
  cases l with
  | nil => exact absurd rfl h
  | cons a l => exact List.cons_ne_nil _ _

/-- A selection by key can be made before or after. -/
theorem filter_firsts {q : α → Bool} (hq : ∀ a b, key a = key b → q a = q b) (l : List α) :
    (firsts key l).filter q = firsts key (l.filter q) := by
  induction l with
  | nil => rfl
  | cons a l ih =>
      cases ha : q a with
      | true =>
          rw [firsts, List.filter_cons_of_pos ha, List.filter_cons_of_pos ha, firsts, ← ih,
            List.filter_filter, List.filter_filter]
          exact congrArg (a :: ·) (List.filter_congr fun b _ => Bool.and_comm ..)
      | false =>
          rw [firsts, List.filter_cons_of_neg (by simp [ha]),
            List.filter_cons_of_neg (by simp [ha]), ← ih, List.filter_filter]
          refine List.filter_congr fun b _ => ?_
          by_cases hb : key b = key a
          · rw [hq b a hb, ha, Bool.false_and]
          · simp [hb]

/-- **Behind a list** a list adds the firsts whose keys are new. -/
theorem firsts_append (u v : List α) :
    firsts key (u ++ v)
      = firsts key u ++ (firsts key v).filter fun b => !u.any fun a => key b = key a := by
  induction u with
  | nil => simp [firsts]
  | cons a u ih =>
      rw [List.cons_append, firsts, ih, List.filter_append, List.filter_filter, firsts,
        List.cons_append]
      refine congrArg (fun l => a :: ((firsts key u).filter _ ++ l)) ?_
      refine List.filter_congr fun b _ => ?_
      by_cases hb : key b = key a <;> simp [hb]

/-- Lists with the same firsts can be exchanged. -/
theorem firsts_append_congr (u : List α) {v v' : List α} (h : firsts key v = firsts key v') :
    firsts key (u ++ v) = firsts key (u ++ v') := by
  rw [firsts_append, firsts_append, h]

/-- A list without new keys can be left out. -/
theorem firsts_append_of_forall {u v : List α} (h : ∀ b ∈ v, ∃ a ∈ u, key b = key a) :
    firsts key (u ++ v) = firsts key u := by
  have hnone : ((firsts key v).filter fun b => !u.any fun a => key b = key a) = [] := by
    refine List.filter_eq_nil_iff.mpr fun b hb => ?_
    obtain ⟨a, ha, heq⟩ := h b (mem_of_mem_firsts hb)
    simp only [Bool.not_eq_true', Bool.not_eq_false, List.any_eq_true, decide_eq_true_eq]
    exact ⟨a, ha, heq⟩
  rw [firsts_append, hnone, List.append_nil]

/-- One member more is added if its key is new. -/
theorem firsts_concat (l : List α) (a : α) :
    firsts key (l ++ [a])
      = if ∃ b ∈ l, key b = key a then firsts key l else firsts key l ++ [a] := by
  have hsingle : firsts key [a] = [a] := rfl
  rw [firsts_append, hsingle]
  split_ifs with h
  · obtain ⟨b, hb, heq⟩ := h
    rw [List.filter_cons_of_neg, List.filter_nil, List.append_nil]
    simp only [Bool.not_eq_true', Bool.not_eq_false, List.any_eq_true, decide_eq_true_eq]
    exact ⟨b, hb, heq.symm⟩
  · rw [List.filter_cons_of_pos, List.filter_nil]
    simp only [Bool.not_eq_true', List.any_eq_false, decide_eq_true_eq]
    exact fun b hb heq => h ⟨b, hb, heq.symm⟩

/-- Where no key is repeated, all members are firsts. -/
theorem firsts_of_nodup {l : List α} (h : (l.map key).Nodup) : firsts key l = l := by
  induction l with
  | nil => rfl
  | cons a l ih =>
      rw [List.map_cons, List.nodup_cons] at h
      rw [firsts, ih h.2, List.filter_eq_self.mpr]
      intro b hb
      refine decide_eq_true fun heq => h.1 ?_
      exact heq ▸ List.mem_map_of_mem hb

/-- A list in front once more adds nothing. -/
theorem firsts_append_self (u v : List α) :
    firsts key (u ++ (u ++ v)) = firsts key (u ++ v) := by
  have hself : firsts key (u ++ u) = firsts key u :=
    firsts_append_of_forall fun a ha => ⟨a, ha, rfl⟩
  rw [← List.append_assoc, firsts_append (u ++ u) v, hself, firsts_append u v]
  refine congrArg (firsts key u ++ ·) (List.filter_congr fun b _ => ?_)
  rw [List.any_append, Bool.or_self]

/-- **A map that respects the keys** can be applied before the repetitions are removed. -/
theorem firsts_filterMap_firsts {f : α → Option α} (hf : ∀ a b, key a = key b → f a = f b)
    (l : List α) :
    firsts key ((firsts key l).filterMap f) = firsts key (l.filterMap f) := by
  induction l with
  | nil => rfl
  | cons a l ih =>
      cases ha : f a with
      | none =>
          -- What has the key of `a` has no image, either.
          have hskip : ((firsts key l).filter fun b => key b ≠ key a).filterMap f
              = (firsts key l).filterMap f := by
            rw [List.filterMap_filter]
            refine List.filterMap_congr fun b _ => ?_
            by_cases hb : key b = key a
            · simp [hb, hf b a hb, ha]
            · simp [hb]
          rw [firsts, List.filterMap_cons_none ha, List.filterMap_cons_none ha, hskip, ih]
      | some b =>
          -- What has the key of `a` has the image of `a`, which is there already.
          have hskip : (((firsts key l).filter fun c => key c ≠ key a).filterMap f).filter
                (fun c => key c ≠ key b)
              = ((firsts key l).filterMap f).filter fun c => key c ≠ key b := by
            rw [List.filterMap_filter, List.filter_filterMap, List.filter_filterMap]
            refine List.filterMap_congr fun c _ => ?_
            by_cases hc : key c = key a
            · simp [hc, hf c a hc, ha, Option.filter]
            · simp [hc]
          have hkey : ∀ c d : α, key c = key d →
              decide (key c ≠ key b) = decide (key d ≠ key b) := fun c d h => by rw [h]
          rw [firsts, List.filterMap_cons_some ha, List.filterMap_cons_some ha, firsts, firsts,
            filter_firsts hkey, hskip, ← filter_firsts hkey, ih]

end Firsts
