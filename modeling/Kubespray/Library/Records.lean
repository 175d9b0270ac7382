import Mathlib.Algebra.BigOperators.Group.List.Basic
import Mathlib.Algebra.Ring.Nat
import Mathlib.Data.List.Flatten

/-!
# Texts of Keyed Records

A list of records written one after the other, each as key, separator, value and
terminator. When the values contain neither mark and the keys of *one* of two such texts
do not contain the separator, equal texts have equal records: counting the separators
shows that the keys of the other text do not contain it either, and then the text can be
read from the left.

## Main results

* `append_cons_inj_of_notMem_left`: reading up to the first separator.
* `flatMap_record_eq_iff`: equal texts have equal records.
* `intercalate_map_concat`: separators between records are terminators of all but the last.
-/

universe u v

namespace Records

variable {α : Type u} {ι : Type v}

/-- One record: key, separator, value, terminator. -/
def record (sep stop : α) (key value : List α) : List α :=
  key ++ sep :: (value ++ [stop])

/-- Two texts that agree have the same part before the first separator and the same part
after it. -/
theorem append_cons_inj_of_notMem_left {c : α} {a b x y : List α} (ha : c ∉ a) (hb : c ∉ b)
    (h : a ++ c :: x = b ++ c :: y) : a = b ∧ x = y := by
  induction a generalizing b with
  | nil =>
      cases b with
      | nil => exact ⟨rfl, (List.cons.inj h).2⟩
      | cons d b => exact absurd (List.mem_cons.mpr (Or.inl (List.cons.inj h).1)) hb
  | cons d a ih =>
      cases b with
      | nil => exact absurd (List.mem_cons.mpr (Or.inl (List.cons.inj h).1.symm)) ha
      | cons e b =>
          obtain ⟨hde, h⟩ := List.cons.inj h
          obtain ⟨hab, hxy⟩ := ih (fun hc => ha (List.mem_cons_of_mem d hc))
            (fun hc => hb (List.mem_cons_of_mem e hc)) h
          exact ⟨by rw [hde, hab], hxy⟩

/-- When each of some numbers is taken with one more, and they add up to their count, then
all of them are zero. -/
theorem eq_zero_of_sum_succ {f : ι → ℕ} {ps : List ι}
    (h : (ps.map fun p => f p + 1).sum = ps.length) : ∀ p ∈ ps, f p = 0 := by
  rw [List.sum_map_add, List.map_const', List.sum_replicate_nat, mul_one,
    Nat.add_eq_right] at h
  exact fun p hp => List.sum_eq_zero_iff_forall_eq_nat.mp h _ (List.mem_map_of_mem hp)

variable [DecidableEq α] {sep stop : α} {ps : List ι} {key key' value value' : ι → List α}

/-- A record whose value has no separator counts one more of them than its key. -/
theorem count_record (hne : sep ≠ stop) {k v : List α} (hv : sep ∉ v) :
    (record sep stop k v).count sep = k.count sep + 1 := by
  rw [record, List.count_append, List.count_cons_self, List.count_append,
    List.count_eq_zero_of_not_mem hv, List.count_singleton]
  simp [hne.symm]

/-- The separators of a text of records. -/
theorem count_flatMap_record (hne : sep ≠ stop) (hv : ∀ p ∈ ps, sep ∉ value p) :
    (ps.flatMap fun p => record sep stop (key p) (value p)).count sep
      = (ps.map fun p => (key p).count sep + 1).sum := by
  rw [List.count_flatMap]
  exact congrArg List.sum (List.map_congr_left fun p hp => count_record hne (hv p hp))

/-- **Equal texts have equal records.** -/
theorem flatMap_record_eq_iff (hne : sep ≠ stop) (hkey : ∀ p ∈ ps, sep ∉ key p)
    (hv : ∀ p ∈ ps, sep ∉ value p ∧ stop ∉ value p)
    (hv' : ∀ p ∈ ps, sep ∉ value' p ∧ stop ∉ value' p) :
    (ps.flatMap fun p => record sep stop (key p) (value p))
        = (ps.flatMap fun p => record sep stop (key' p) (value' p)) ↔
      ∀ p ∈ ps, key p = key' p ∧ value p = value' p := by
  constructor
  · intro h
    have hcount := congrArg (List.count sep) h
    rw [count_flatMap_record hne fun p hp => (hv p hp).1,
      count_flatMap_record hne fun p hp => (hv' p hp).1] at hcount
    have hones : (ps.map fun p => (key p).count sep + 1) = ps.map fun _ => 1 :=
      List.map_congr_left fun p hp => by rw [List.count_eq_zero_of_not_mem (hkey p hp)]
    rw [hones, List.map_const', List.sum_replicate_nat, mul_one] at hcount
    have hkey' : ∀ p ∈ ps, sep ∉ key' p := fun p hp =>
      List.count_eq_zero.mp (eq_zero_of_sum_succ hcount.symm p hp)
    clear hcount hones
    induction ps with
    | nil => exact fun p hp => by cases hp
    | cons q ps ih =>
        have hq : q ∈ q :: ps := List.mem_cons_self
        simp only [List.flatMap_cons, record, List.append_assoc, List.cons_append,
          List.nil_append] at h
        obtain ⟨hk, h⟩ := append_cons_inj_of_notMem_left (hkey q hq) (hkey' q hq) h
        obtain ⟨hval, h⟩ := append_cons_inj_of_notMem_left (hv q hq).2 (hv' q hq).2 h
        intro p hp
        rcases List.mem_cons.mp hp with rfl | hp
        · exact ⟨hk, hval⟩
        · refine ih (fun p hp => hkey p (List.mem_cons_of_mem q hp))
            (fun p hp => hv p (List.mem_cons_of_mem q hp))
            (fun p hp => hv' p (List.mem_cons_of_mem q hp)) ?_
            (fun p hp => hkey' p (List.mem_cons_of_mem q hp)) p hp
          simpa only [record, List.append_assoc, List.cons_append, List.nil_append] using h
  · intro h
    exact congrArg List.flatten (List.map_congr_left fun p hp => by
      rw [(h p hp).1, (h p hp).2])

/-- Records separated by a mark are records terminated by it, except for the last. -/
theorem intercalate_map_concat {β : Type u} (stop : β) (f : ι → List β) (ps : List ι)
    (last : List β) :
    [stop].intercalate (ps.map f ++ [last]) = (ps.flatMap fun p => f p ++ [stop]) ++ last := by
  induction ps with
  | nil => simp
  | cons p ps ih =>
      rw [List.map_cons, List.cons_append, List.intercalate_cons_of_ne_nil (by simp), ih,
        List.flatMap_cons]
      simp only [List.append_assoc]

/-- Printing what passes a test is printing nothing for the rest. -/
theorem flatMap_filter {β : Type u} (p : ι → Bool) (f : ι → List β) (ps : List ι) :
    (ps.filter p).flatMap f = ps.flatMap fun x => if p x then f x else [] := by
  induction ps with
  | nil => rfl
  | cons x ps ih =>
      rw [List.filter_cons, List.flatMap_cons]
      split_ifs
      · rw [List.flatMap_cons, ih]
      · rw [ih, List.nil_append]

end Records
