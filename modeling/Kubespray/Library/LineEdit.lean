import Mathlib.Data.List.Basic
import Mathlib.Data.List.Induction
import Mathlib.Data.List.TakeWhile
import Mathlib.Logic.Function.Iterate

/-!
# Editing Lines

A line of a file is replaced where it is, or put at the end when there is none to replace:
of the lines that qualify, the last one is replaced. Or lines are dropped: the first of those
that qualify, with those behind it up to the next one that does not.

## Main results

* `ensureLine_cases`: the two things that can happen.
* `mem_ensureLine`, `filter_ensureLine`: the lines afterwards, and those that nothing
  happened to.
* `dropRuns_eq_filter_iff`: when dropping first runs drops all lines that qualify.
* `iterate_dropRuns`: dropping first runs again and again drops all lines that qualify.
-/

universe u

namespace LineEdit

variable {α : Type u} {p q : α → Bool} {line : α} {lines : List α}

/-- Replace the last line that qualifies. -/
def replaceLast (p : α → Bool) (line : α) : List α → Option (List α)
  | [] => none
  | l :: ls =>
    match replaceLast p line ls with
    | some ls' => some (l :: ls')
    | none => if p l then some (line :: ls) else none

/-- Replace the last line that qualifies, or add the line at the end. -/
def ensureLine (p : α → Bool) (line : α) (lines : List α) : List α :=
  (replaceLast p line lines).getD (lines ++ [line])

/-- No line qualifies, or the last one that does is replaced. -/
theorem replaceLast_cases (p : α → Bool) (line : α) (lines : List α) :
    ((∀ l ∈ lines, p l = false) ∧ replaceLast p line lines = none) ∨
      ∃ s l t, lines = s ++ l :: t ∧ p l = true ∧ (∀ l ∈ t, p l = false) ∧
        replaceLast p line lines = some (s ++ line :: t) := by
  induction lines with
  | nil => exact Or.inl ⟨fun l hl => (by cases hl), rfl⟩
  | cons l ls ih =>
      rw [replaceLast]
      rcases ih with ⟨hnone, heq⟩ | ⟨s, x, t, rfl, hx, hnone, heq⟩
      · rw [heq]
        by_cases hl : p l = true
        · exact Or.inr ⟨[], l, ls, rfl, hl, hnone, if_pos hl⟩
        · refine Or.inl ⟨fun x hx => ?_, if_neg hl⟩
          rcases List.mem_cons.mp hx with rfl | hx
          · exact Bool.eq_false_iff.mpr hl
          · exact hnone x hx
      · rw [heq]
        exact Or.inr ⟨l :: s, x, t, rfl, hx, hnone, rfl⟩

/-- **What happens to the lines**: one is added, or the last that qualifies is replaced. -/
theorem ensureLine_cases (p : α → Bool) (line : α) (lines : List α) :
    ((∀ l ∈ lines, p l = false) ∧ ensureLine p line lines = lines ++ [line]) ∨
      ∃ s l t, lines = s ++ l :: t ∧ p l = true ∧ (∀ l ∈ t, p l = false) ∧
        ensureLine p line lines = s ++ line :: t := by
  rcases replaceLast_cases p line lines with ⟨hnone, heq⟩ | ⟨s, l, t, hlines, hl, hnone, heq⟩
  · exact Or.inl ⟨hnone, by rw [ensureLine, heq, Option.getD_none]⟩
  · exact Or.inr ⟨s, l, t, hlines, hl, hnone, by rw [ensureLine, heq, Option.getD_some]⟩

/-- The last line that qualifies. -/
def lastLine (p : α → Bool) (lines : List α) : Option α :=
  (lines.filter p).getLast?

/-- The lines apart from it. -/
def otherLines (p : α → Bool) (lines : List α) : List α :=
  lines.filter (fun l => !p l) ++ (lines.filter p).dropLast

/-- The last line that qualifies does. -/
theorem lastLine_qualifies {l : α} (h : lastLine p lines = some l) : l ∈ lines ∧ p l = true :=
  List.mem_filter.mp (List.mem_of_getLast? h)

/-- Lines of which one is the last that qualifies. -/
theorem filter_eq_concat {s t : List α} {l : α} (hl : p l = true) (ht : ∀ x ∈ t, p x = false) :
    (s ++ l :: t).filter p = s.filter p ++ [l] := by
  have hnone : t.filter p = [] := List.filter_eq_nil_iff.mpr fun x hx => by simp [ht x hx]
  rw [List.filter_append, List.filter_cons_of_pos hl, hnone]

/-- The others are those that do not qualify, and all but the last that do. -/
theorem mem_otherLines {l : α} :
    l ∈ otherLines p lines ↔ (l ∈ lines ∧ p l = false) ∨ l ∈ (lines.filter p).dropLast := by
  rw [otherLines, List.mem_append, List.mem_filter, Bool.not_eq_true']

/-- A line is the last that qualifies, or one of the others. -/
theorem mem_iff_mem_otherLines {l : α} :
    l ∈ lines ↔ lastLine p lines = some l ∨ l ∈ otherLines p lines := by
  have hqualifies : l ∈ lines.filter p ↔
      lastLine p lines = some l ∨ l ∈ (lines.filter p).dropLast := by
    rw [lastLine]
    induction lines.filter p using List.reverseRecOn with
    | nil => simp
    | append_singleton ls x _ =>
        rw [List.getLast?_concat, List.dropLast_concat, List.mem_append, List.mem_singleton,
          Option.some.injEq, or_comm, eq_comm]
  rw [mem_otherLines, or_left_comm, ← hqualifies, List.mem_filter]
  cases p l <;> simp

/-- **The lines afterwards** are the new one and the others. -/
theorem mem_ensureLine {l : α} :
    l ∈ ensureLine p line lines ↔ l = line ∨ l ∈ otherLines p lines := by
  rw [mem_otherLines]
  rcases ensureLine_cases p line lines with ⟨hnone, heq⟩ | ⟨s, x, t, rfl, hx, hnone, heq⟩
  · have hfilter : lines.filter p = [] :=
      List.filter_eq_nil_iff.mpr fun y hy => by simp [hnone y hy]
    rw [heq, hfilter, List.mem_append, List.mem_singleton, or_comm]
    simp only [List.dropLast_nil, List.not_mem_nil, or_false]
    exact or_congr_right ⟨fun h => ⟨h, hnone l h⟩, And.left⟩
  · rw [heq, filter_eq_concat hx hnone, List.dropLast_concat, List.mem_filter]
    simp only [List.mem_append, List.mem_cons]
    constructor
    · rintro (h | rfl | h)
      · cases hl : p l with
        | true => exact Or.inr (Or.inr ⟨h, rfl⟩)
        | false => exact Or.inr (Or.inl ⟨Or.inl h, rfl⟩)
      · exact Or.inl rfl
      · exact Or.inr (Or.inl ⟨Or.inr (Or.inr h), hnone l h⟩)
    · rintro (rfl | ⟨h | rfl | h, hl⟩ | ⟨h, -⟩)
      · exact Or.inr (Or.inl rfl)
      · exact Or.inl h
      · rw [hx] at hl
        cases hl
      · exact Or.inr (Or.inr h)
      · exact Or.inl h

/-- **The frame rule**: a selection without the new line stays when it did not have the last
line that qualifies. -/
theorem filter_ensureLine (hline : q line = false)
    (hlast : ∀ l, lastLine p lines = some l → q l = false) :
    (ensureLine p line lines).filter q = lines.filter q := by
  rcases ensureLine_cases p line lines with ⟨-, heq⟩ | ⟨s, x, t, rfl, hx, hnone, heq⟩
  · rw [heq, List.filter_append, List.filter_cons_of_neg (by simp [hline]), List.filter_nil,
      List.append_nil]
  · have hqx : q x = false := hlast x (by
      rw [lastLine, filter_eq_concat hx hnone, List.getLast?_concat])
    rw [heq, List.filter_append, List.filter_append, List.filter_cons_of_neg (by simp [hline]),
      List.filter_cons_of_neg (by simp [hqx])]

/-- So does one that has no lines that qualify. -/
theorem filter_ensureLine_of_disjoint (hline : q line = false)
    (hq : ∀ l, p l = true → q l = false) :
    (ensureLine p line lines).filter q = lines.filter q :=
  filter_ensureLine hline fun l hl => hq l (lastLine_qualifies hl).2

/-- So the last line that qualifies for something else stays the last. -/
theorem lastLine_ensureLine (hline : q line = false) (hq : ∀ l, p l = true → q l = false) :
    lastLine q (ensureLine p line lines) = lastLine q lines := by
  rw [lastLine, filter_ensureLine_of_disjoint hline hq, lastLine]

/-- A line that does not qualify stays, and is not added. -/
theorem mem_ensureLine_iff {l : α} (hl : p l = false) (hne : l ≠ line) :
    l ∈ ensureLine p line lines ↔ l ∈ lines := by
  refine mem_ensureLine.trans (Iff.trans ?_ (mem_iff_mem_otherLines (p := p)).symm)
  constructor
  · exact fun h => Or.inr (h.resolve_left hne)
  · rintro (h | h)
    · rw [(lastLine_qualifies h).2] at hl
      cases hl
    · exact Or.inr h

/-- And so do the others. -/
theorem mem_otherLines_ensureLine (hline : q line = false) (hq : ∀ l, p l = true → q l = false)
    {l : α} (hl : p l = false) (hne : l ≠ line) :
    l ∈ otherLines q (ensureLine p line lines) ↔ l ∈ otherLines q lines := by
  rw [mem_otherLines, mem_otherLines, mem_ensureLine_iff hl hne,
    filter_ensureLine_of_disjoint hline hq]

/-- The last line of a stricter selection. -/
theorem lastLine_of_qualifies {l : α} (hqp : ∀ l, q l = true → p l = true)
    (h : lastLine p lines = some l) (hl : q l = true) : lastLine q lines = some l := by
  obtain ⟨init, hinit⟩ := List.getLast?_eq_some_iff.mp h
  have hfilter : lines.filter q = (lines.filter p).filter q := by
    rw [List.filter_filter]
    refine List.filter_congr fun x _ => ?_
    cases hx : q x with
    | true => rw [hqp x hx]; rfl
    | false => rfl
  rw [lastLine, hfilter, hinit, List.filter_append, List.filter_cons_of_pos hl,
    List.filter_nil, List.getLast?_concat]

/-- A selection that had the last line that qualifies loses it. -/
theorem length_filter_ensureLine (hline : q line = false) :
    ((ensureLine p line lines).filter q).length + (if (lastLine p lines).any q then 1 else 0)
      = (lines.filter q).length := by
  rcases ensureLine_cases p line lines with ⟨hnone, heq⟩ | ⟨s, x, t, rfl, hx, hnone, heq⟩
  · have hfilter : lines.filter p = [] :=
      List.filter_eq_nil_iff.mpr fun y hy => by simp [hnone y hy]
    rw [heq, lastLine, hfilter, List.filter_append, List.filter_cons_of_neg (by simp [hline])]
    simp
  · rw [heq, lastLine, filter_eq_concat hx hnone, List.getLast?_concat, List.filter_append,
      List.filter_append, List.filter_cons_of_neg (by simp [hline]), Option.any_some]
    cases hqx : q x with
    | true =>
        rw [List.filter_cons_of_pos hqx, if_pos rfl]
        simp only [List.length_append, List.length_cons]
        omega
    | false =>
        rw [List.filter_cons_of_neg (by simp [hqx])]
        rfl

/-! ### Runs of lines -/

/-- The lines without the first run of those that qualify. -/
def dropRun (p : α → Bool) (lines : List α) : List α :=
  lines.takeWhile (fun l => !p l) ++ (lines.dropWhile fun l => !p l).dropWhile p

/-- The lines that qualify stand together. -/
def OneRun (p : α → Bool) (lines : List α) : Prop :=
  ∀ l ∈ (lines.dropWhile fun l => !p l).dropWhile p, p l = false

instance (p : α → Bool) (lines : List α) : Decidable (OneRun p lines) :=
  inferInstanceAs (Decidable (∀ l ∈ (lines.dropWhile fun l => !p l).dropWhile p, p l = false))

/-- What is left are lines, in their order. -/
theorem dropRun_sublist (p : α → Bool) (lines : List α) : (dropRun p lines).Sublist lines := by
  have hsplit := List.takeWhile_append_dropWhile (p := fun l => !p l) (l := lines)
  have hrun := (List.Sublist.refl (lines.takeWhile fun l => !p l)).append
    (List.dropWhile_sublist p (l := lines.dropWhile fun l => !p l))
  rw [hsplit] at hrun
  exact hrun

/-- The lines that do not qualify, before and behind the first run. -/
theorem filter_eq_runs (p : α → Bool) (lines : List α) :
    lines.filter (fun l => !p l) = lines.takeWhile (fun l => !p l)
      ++ ((lines.dropWhile fun l => !p l).dropWhile p).filter fun l => !p l := by
  have hsplit := List.takeWhile_append_dropWhile (p := fun l => !p l) (l := lines)
  have hrun := List.takeWhile_append_dropWhile (p := p) (l := lines.dropWhile fun l => !p l)
  have hnone : ((lines.dropWhile fun l => !p l).takeWhile p).filter (fun l => !p l) = [] :=
    List.filter_eq_nil_iff.mpr fun l hl => by simp [List.mem_takeWhile_imp hl]
  have hall : (lines.takeWhile fun l => !p l).filter (fun l => !p l)
      = lines.takeWhile fun l => !p l :=
    List.filter_eq_self.mpr fun l hl => List.mem_takeWhile_imp (p := fun l => !p l) hl
  calc lines.filter (fun l => !p l)
      = ((lines.takeWhile fun l => !p l) ++ lines.dropWhile fun l => !p l).filter
          fun l => !p l := by rw [hsplit]
    _ = lines.takeWhile (fun l => !p l)
          ++ (lines.dropWhile fun l => !p l).filter fun l => !p l := by
        rw [List.filter_append, hall]
    _ = _ := by
        conv_lhs => rw [← hrun, List.filter_append, hnone, List.nil_append]

/-- **Dropping one run** drops all lines that qualify when they stand together. -/
theorem dropRun_eq_filter {p : α → Bool} {lines : List α} (h : OneRun p lines) :
    dropRun p lines = lines.filter fun l => !p l := by
  have hrest : ((lines.dropWhile fun l => !p l).dropWhile p).filter (fun l => !p l)
      = (lines.dropWhile fun l => !p l).dropWhile p :=
    List.filter_eq_self.mpr fun l hl => by simp [h l hl]
  rw [dropRun, filter_eq_runs, hrest]

/-- A line that does not qualify stays. -/
theorem mem_dropRun {p : α → Bool} {lines : List α} {l : α} (hl : l ∈ lines)
    (hp : p l = false) : l ∈ dropRun p lines := by
  have hmem : l ∈ lines.filter fun l => !p l := List.mem_filter.mpr ⟨hl, by simp [hp]⟩
  rw [filter_eq_runs] at hmem
  exact (List.mem_append.mp hmem).elim (List.mem_append_left _) fun h =>
    List.mem_append_right _ (List.mem_of_mem_filter h)

/-- One run after the other. -/
def dropRuns (ps : List (α → Bool)) (lines : List α) : List α :=
  ps.foldl (fun ls p => dropRun p ls) lines

/-- The lines of each selection stand together when those of the ones before are gone. -/
def OneRuns : List (α → Bool) → List α → Prop
  | [], _ => True
  | p :: ps, lines => OneRun p lines ∧ OneRuns ps (lines.filter fun l => !p l)

/-- What is left are lines, in their order. -/
theorem dropRuns_sublist (ps : List (α → Bool)) (lines : List α) :
    (dropRuns ps lines).Sublist lines := by
  induction ps generalizing lines with
  | nil => exact List.Sublist.refl _
  | cons p ps ih => exact (ih _).trans (dropRun_sublist p lines)

/-- A line that does not qualify for anything stays. -/
theorem mem_dropRuns {ps : List (α → Bool)} {lines : List α} {l : α} (hl : l ∈ lines)
    (hps : ∀ p ∈ ps, p l = false) : l ∈ dropRuns ps lines := by
  induction ps generalizing lines with
  | nil => exact hl
  | cons p ps ih =>
      obtain ⟨hp, hps⟩ := List.forall_mem_cons.mp hps
      exact ih (mem_dropRun hl hp) hps

/-- **Dropping a run for each of several selections** that have no lines in common drops all
their lines exactly when each of them stands together in turn. -/
theorem dropRuns_eq_filter_iff {ps : List (α → Bool)}
    (hps : ps.Pairwise fun p q => ∀ l, p l = true → q l = false) {lines : List α} :
    dropRuns ps lines = lines.filter (fun l => !ps.any fun p => p l) ↔ OneRuns ps lines := by
  induction ps generalizing lines with
  | nil => exact iff_of_true (List.filter_eq_self.mpr fun l _ => rfl).symm trivial
  | cons p ps ih =>
      obtain ⟨hp, hps⟩ := List.pairwise_cons.mp hps
      have hfilter : lines.filter (fun l => !(p :: ps).any fun p => p l)
          = (lines.filter fun l => !p l).filter fun l => !ps.any fun p => p l := by
        rw [List.filter_filter]
        refine List.filter_congr fun l _ => ?_
        rw [List.any_cons, Bool.not_or, Bool.and_comm]
      rw [hfilter, OneRuns, ← ih hps]
      constructor
      · intro h
        have hrun : OneRun p lines := by
          intro l hl
          refine Bool.eq_false_iff.mpr fun hpl => ?_
          have hmem : l ∈ dropRuns ps (dropRun p lines) :=
            mem_dropRuns (List.mem_append_right _ hl) fun q hq => hp q hq l hpl
          change dropRuns ps (dropRun p lines) = _ at h
          rw [h] at hmem
          have hnot := List.of_mem_filter (List.mem_of_mem_filter hmem)
          simp [hpl] at hnot
        rw [← dropRun_eq_filter hrun] at h ⊢
        exact ⟨hrun, h⟩
      · rintro ⟨hrun, h⟩
        rw [dropRuns, List.foldl_cons, dropRun_eq_filter hrun]
        exact h

/-! ### Dropping runs again and again -/

/-- What does not qualify is left. -/
theorem filter_dropRun {p q : α → Bool} (hpq : ∀ l, p l = true → q l = true) (lines : List α) :
    (dropRun p lines).filter (fun l => !q l) = lines.filter fun l => !q l := by
  have hboth : ∀ ls : List α, (ls.filter fun l => !p l).filter (fun l => !q l)
      = ls.filter fun l => !q l := by
    intro ls
    rw [List.filter_filter]
    refine List.filter_congr fun l _ => ?_
    cases hp : p l with
    | true => simp [hpq l hp]
    | false => simp
  rw [← hboth (dropRun p lines), ← hboth lines, filter_eq_runs p lines]
  refine congrArg (List.filter fun l => !q l) ?_
  rw [dropRun, List.filter_append]
  refine congrArg (· ++ _) (List.filter_eq_self.mpr fun l hl => ?_)
  exact List.mem_takeWhile_imp (p := fun l => !p l) hl

/-- What qualifies for nothing is left. -/
theorem filter_dropRuns (ps : List (α → Bool)) (lines : List α) :
    (dropRuns ps lines).filter (fun l => !ps.any fun p => p l)
      = lines.filter fun l => !ps.any fun p => p l := by
  suffices h : ∀ qs : List (α → Bool), (∀ q ∈ qs, q ∈ ps) → ∀ ls : List α,
      (dropRuns qs ls).filter (fun l => !ps.any fun p => p l)
        = ls.filter fun l => !ps.any fun p => p l from h ps (fun _ h => h) lines
  intro qs hqs
  induction qs with
  | nil => exact fun _ => rfl
  | cons q qs ih =>
      obtain ⟨hq, hqs⟩ := List.forall_mem_cons.mp hqs
      intro ls
      exact (ih hqs (dropRun q ls)).trans
        (filter_dropRun (q := fun l => ps.any fun p => p l)
          (fun l hl => List.any_eq_true.mpr ⟨q, hq, hl⟩) ls)

/-- A run is dropped where a line qualifies. -/
theorem forall_of_dropRun_eq {p : α → Bool} {lines : List α} (h : dropRun p lines = lines) :
    ∀ l ∈ lines, p l = false := by
  have hsplit := List.takeWhile_append_dropWhile (p := fun l => !p l) (l := lines)
  have hrest : (lines.dropWhile fun l => !p l).dropWhile p = lines.dropWhile fun l => !p l := by
    rw [dropRun] at h
    exact List.append_cancel_left (h.trans hsplit.symm)
  have hnil : (lines.dropWhile fun l => !p l) = [] := by
    by_contra hne
    have hhead := List.head_dropWhile_not (fun l => !p l) hne
    obtain ⟨l, ls, heq⟩ := List.exists_cons_of_ne_nil hne
    simp only [heq, List.head_cons, Bool.not_eq_false'] at hhead
    have hlen := (List.dropWhile_suffix p (l := ls)).length_le
    rw [heq, List.dropWhile_cons_of_pos hhead] at hrest
    rw [hrest, List.length_cons] at hlen
    omega
  intro l hl
  simpa using List.dropWhile_eq_nil_iff.mp hnil l hl

/-- Nothing is dropped only where no line qualifies. -/
theorem forall_of_dropRuns_eq {ps : List (α → Bool)} {lines : List α}
    (h : dropRuns ps lines = lines) : ∀ p ∈ ps, ∀ l ∈ lines, p l = false := by
  induction ps with
  | nil => exact fun p hp => absurd hp List.not_mem_nil
  | cons p ps ih =>
      have hfirst : dropRun p lines = lines := by
        refine (dropRun_sublist p lines).eq_of_length_le ?_
        have := (dropRuns_sublist ps (dropRun p lines)).length_le
        rwa [show dropRuns ps (dropRun p lines) = lines from h] at this
      have hrest : dropRuns ps lines = lines := by
        conv_lhs => rw [← hfirst]
        exact h
      exact List.forall_mem_cons.mpr ⟨forall_of_dropRun_eq hfirst, ih hrest⟩

/-- A round drops a line that qualifies, if there is one. -/
theorem countP_dropRuns_lt {ps : List (α → Bool)} {lines : List α}
    (h : dropRuns ps lines ≠ lines) :
    (dropRuns ps lines).countP (fun l => ps.any fun p => p l)
      < lines.countP (fun l => ps.any fun p => p l) := by
  have hlength : (dropRuns ps lines).length < lines.length :=
    lt_of_le_of_ne (dropRuns_sublist ps lines).length_le fun heq =>
      h ((dropRuns_sublist ps lines).eq_of_length heq)
  have hkept := congrArg List.length (filter_dropRuns ps lines)
  have hbefore := List.length_eq_length_filter_add (l := lines) fun l => ps.any fun p => p l
  have hbehind := List.length_eq_length_filter_add (l := dropRuns ps lines)
    fun l => ps.any fun p => p l
  rw [List.countP_eq_length_filter, List.countP_eq_length_filter]
  omega

/-- **Dropping again and again** leaves what qualifies for nothing, after as many rounds as
there are lines that qualify. -/
theorem iterate_dropRuns (ps : List (α → Bool)) {lines : List α} {n : ℕ}
    (hn : lines.countP (fun l => ps.any fun p => p l) ≤ n) :
    (dropRuns ps)^[n] lines = lines.filter fun l => !ps.any fun p => p l := by
  induction n generalizing lines with
  | zero =>
      have hzero := List.countP_eq_zero.mp (Nat.le_zero.mp hn)
      refine (List.filter_eq_self.mpr fun l hl => ?_).symm
      rw [Bool.eq_false_iff.mpr (hzero l hl), Bool.not_false]
  | succ n ih =>
      rw [Function.iterate_succ_apply, ih ?_, filter_dropRuns]
      by_cases hsame : dropRuns ps lines = lines
      · have hnone : lines.countP (fun l => ps.any fun p => p l) = 0 :=
          List.countP_eq_zero.mpr fun l hl => by
            simpa using fun p hp => forall_of_dropRuns_eq hsame p hp l hl
        rw [hsame, hnone]
        exact Nat.zero_le n
      · have := countP_dropRuns_lt hsame
        omega

end LineEdit
