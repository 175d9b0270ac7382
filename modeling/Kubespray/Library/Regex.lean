import Mathlib.Data.List.Infix

/-!
# Regular Expressions That Backtrack

A regular expression is tried at a position of a text and yields the positions where a match
may end, in the order in which a backtracking matcher finds them: the greedy repetitions take
as much as they can first. A match is the first end that the rest of the expression accepts.
Substitution replaces, from left to right, every match by what its first part matched.

## Main results

* `ends_star`: a repetition is one more round, or none.
* `flatMap_star_char`: a repetition of characters that what follows does not give back.
* `sub_of_none`, `subFrom_append`: where nothing matches, nothing is replaced.
* `length_subFrom_le`: a substitution never makes a text longer.
* `findFrom_of_match`, `findFrom_of_none`: what is found, from left to right.
-/

universe u

/-- Regular expressions over an alphabet. -/
inductive Regex (α : Type u)
  | eps
  | char (p : α → Bool)
  | lineStart (newline : α → Bool)
  | seq (r q : Regex α)
  | opt (r : Regex α)
  | star (r : Regex α)
  | ahead (r : Regex α)
  | notAhead (r : Regex α)

namespace Regex

variable {α : Type u}

/-- A position in a text. -/
structure Pos (α : Type u) where
  /-- The character before it. -/
  prev : Option α
  rest : List α

/-- The position behind some characters. -/
def behind (b : Option α) (w t : List α) : Pos α :=
  { prev := w.getLast?.or b
    rest := t }

/-- Rounds of a repetition, at most so many of them, and as many as possible first. -/
def rounds (step : Pos α → List (Pos α)) : ℕ → Pos α → List (Pos α)
  | 0, s => [s]
  | n + 1, s => (step s).flatMap (rounds step n) ++ [s]

/-- Where a match may end, in the order of preference. -/
def ends : Regex α → Pos α → List (Pos α)
  | eps, s => [s]
  | char p, s =>
    match s.rest with
    | [] => []
    | c :: t => if p c then [{ prev := some c, rest := t }] else []
  | lineStart newline, s => if s.prev.all newline then [s] else []
  | seq r q, s => (ends r s).flatMap (ends q)
  | opt r, s => ends r s ++ [s]
  | star r, s => rounds (ends r) s.rest.length s
  | ahead r, s => if (ends r s).isEmpty then [] else [s]
  | notAhead r, s => if (ends r s).isEmpty then [s] else []

/-- A text, character by character. -/
def lit [DecidableEq α] (w : List α) : Regex α :=
  w.foldr (fun c r => seq (char fun d => d = c) r) eps

/-- At least one round. -/
def plus (r : Regex α) : Regex α :=
  seq r (star r)

/-- The preferred match of two expressions in sequence, with the place where the first of them
ends. -/
def firstMatch (g q : Regex α) (s : Pos α) : Option (Pos α × Pos α) :=
  ((ends g s).flatMap fun s₁ => (ends q s₁).map fun s₂ => (s₁, s₂)).head?

/-- Replace the matches behind a position, at most so many steps of them. -/
def subFrom (g q : Regex α) : ℕ → Pos α → List α
  | 0, s => s.rest
  | n + 1, s =>
    match s.rest with
    | [] => []
    | c :: t =>
      match firstMatch g q s with
      | some (s₁, s₂) => (c :: t).take ((c :: t).length - s₁.rest.length) ++ subFrom g q n s₂
      | none => c :: subFrom g q n { prev := some c, rest := t }

/-- Replace every match of two expressions in sequence by what the first one matched. A match
has at least one character. -/
def sub (g q : Regex α) (text : List α) : List α :=
  subFrom g q text.length { prev := none, rest := text }

/-! ### Positions -/

@[simp] theorem behind_nil (b : Option α) (t : List α) : behind b [] t = ⟨b, t⟩ := rfl

/-- Going on over a character. -/
theorem behind_cons (b : Option α) (c : α) (w t : List α) :
    behind b (c :: w) t = behind (some c) w t := by
  cases w with
  | nil => rfl
  | cons d w => rw [behind, behind, List.getLast?_cons_cons, Option.or_of_isSome (by simp),
      Option.or_of_isSome (by simp)]

/-! ### Where matches end -/

/-- Rounds of steps that go forward go forward. -/
theorem suffix_of_mem_rounds {step : Pos α → List (Pos α)}
    (hstep : ∀ s, ∀ s' ∈ step s, s'.rest <:+ s.rest) {n : ℕ} {s s' : Pos α}
    (h : s' ∈ rounds step n s) : s'.rest <:+ s.rest := by
  induction n generalizing s with
  | zero =>
      obtain rfl := List.mem_singleton.mp h
      exact List.suffix_rfl
  | succ n ih =>
      rcases List.mem_append.mp h with h | h
      · obtain ⟨s₁, h₁, h⟩ := List.mem_flatMap.mp h
        exact (ih h).trans (hstep s s₁ h₁)
      · obtain rfl := List.mem_singleton.mp h
        exact List.suffix_rfl

/-- A match ends behind where it began. -/
theorem suffix_of_mem_ends {r : Regex α} {s s' : Pos α} (h : s' ∈ ends r s) :
    s'.rest <:+ s.rest := by
  induction r generalizing s s' with
  | eps =>
      obtain rfl := List.mem_singleton.mp h
      exact List.suffix_rfl
  | char p =>
      obtain ⟨b, rest⟩ := s
      cases rest with
      | nil => cases h
      | cons c t =>
          rw [ends] at h
          dsimp only at h
          split_ifs at h
          · obtain rfl := List.mem_singleton.mp h
            exact List.suffix_cons c t
          · cases h
  | lineStart newline | ahead r _ | notAhead r _ =>
      have hself : s' = s := by
        rw [ends] at h
        split_ifs at h <;> simp_all
      rw [hself]
  | seq r q ihr ihq =>
      obtain ⟨s₁, h₁, h⟩ := List.mem_flatMap.mp h
      exact (ihq h).trans (ihr h₁)
  | opt r ih =>
      rcases List.mem_append.mp h with h | h
      · exact ih h
      · obtain rfl := List.mem_singleton.mp h
        exact List.suffix_rfl
  | star r ih => exact suffix_of_mem_rounds (fun s s' => ih) h

/-! ### Repetitions -/

/-- A match takes at least one character. -/
def Consumes (r : Regex α) : Prop :=
  ∀ s, ∀ s' ∈ ends r s, s'.rest.length < s.rest.length

/-- A character is one. -/
theorem consumes_char (p : α → Bool) : Consumes (char p) := by
  intro s s' h
  obtain ⟨b, rest⟩ := s
  cases rest with
  | nil => cases h
  | cons c t =>
      rw [ends] at h
      dsimp only at h
      split_ifs at h
      · obtain rfl := List.mem_singleton.mp h
        exact Nat.lt_succ_self _
      · cases h

/-- So does a sequence whose first part does. -/
theorem Consumes.seq_left {r : Regex α} (hr : Consumes r) (q : Regex α) :
    Consumes (seq r q) := by
  intro s s' h
  obtain ⟨s₁, h₁, h⟩ := List.mem_flatMap.mp h
  exact (suffix_of_mem_ends h).length_le.trans_lt (hr s s₁ h₁)

/-- And one whose second part does. -/
theorem Consumes.seq_right (r : Regex α) {q : Regex α} (hq : Consumes q) :
    Consumes (seq r q) := by
  intro s s' h
  obtain ⟨s₁, h₁, h⟩ := List.mem_flatMap.mp h
  exact (hq s₁ s' h).trans_le (suffix_of_mem_ends h₁).length_le

/-- The bound on the rounds does not matter when each of them takes a character. -/
theorem rounds_eq {step : Pos α → List (Pos α)}
    (hstep : ∀ s, ∀ s' ∈ step s, s'.rest.length < s.rest.length) {n m : ℕ} {s : Pos α}
    (hn : s.rest.length ≤ n) (hm : s.rest.length ≤ m) : rounds step n s = rounds step m s := by
  have hnil : s.rest.length = 0 → step s = [] := by
    intro hzero
    refine List.eq_nil_iff_forall_not_mem.mpr fun s' h => ?_
    have hlt := hstep s s' h
    omega
  induction n generalizing m s with
  | zero =>
      cases m with
      | zero => rfl
      | succ m => rw [rounds, rounds, hnil (by omega), List.flatMap_nil, List.nil_append]
  | succ n ih =>
      cases m with
      | zero => rw [rounds, rounds, hnil (by omega), List.flatMap_nil, List.nil_append]
      | succ m =>
          rw [rounds, rounds]
          refine congrArg (· ++ [s]) (List.flatMap_congr fun s' h => ?_)
          have hlt := hstep s s' h
          exact ih (by omega) (by omega) fun hzero =>
            List.eq_nil_iff_forall_not_mem.mpr fun s'' h' => by
              have hlt' := hstep s' s'' h'
              omega

/-- **A repetition** is one more round, or none. -/
theorem ends_star {r : Regex α} (hr : Consumes r) (s : Pos α) :
    ends (star r) s = (ends r s).flatMap (ends (star r)) ++ [s] := by
  have hmore : ends (star r) s = rounds (ends r) (s.rest.length + 1) s :=
    rounds_eq hr le_rfl (Nat.le_succ _)
  rw [hmore, rounds]
  refine congrArg (· ++ [s]) (List.flatMap_congr fun s' h => ?_)
  exact rounds_eq hr (hr s s' h).le le_rfl

/-- A repetition ends where no round is possible. -/
theorem ends_star_of_nil {r : Regex α} (hr : Consumes r) {s : Pos α} (h : ends r s = []) :
    ends (star r) s = [s] := by
  rw [ends_star hr, h, List.flatMap_nil, List.nil_append]

/-- It is always possible. -/
theorem ends_star_ne_nil {r : Regex α} (hr : Consumes r) (s : Pos α) : ends (star r) s ≠ [] := by
  rw [ends_star hr]
  exact List.append_ne_nil_of_right_ne_nil _ (List.cons_ne_nil _ _)

/-- The preferred end of a repetition is that of what follows the first round. -/
theorem head?_ends_star {r : Regex α} (hr : Consumes r) {s s' : Pos α}
    (h : (ends r s).head? = some s') : (ends (star r) s).head? = (ends (star r) s').head? := by
  obtain ⟨others, hothers⟩ := List.head?_eq_some_iff.mp h
  rw [ends_star hr, hothers, List.flatMap_cons, List.append_assoc,
    List.head?_append_of_ne_nil _ (ends_star_ne_nil hr s')]

/-- That of at least one round is the same. -/
theorem head?_ends_plus {r : Regex α} (hr : Consumes r) {s : Pos α} (h : ends (plus r) s ≠ []) :
    (ends (plus r) s).head? = (ends (star r) s).head? := by
  rw [ends_star hr]
  exact (List.head?_append_of_ne_nil _ h).symm

/-- **A repetition of characters** that what follows does not begin with is not given back. -/
theorem flatMap_star_char {β : Type*} {p : α → Bool} {f : Pos α → List β}
    (hf : ∀ b c t, p c = true → f ⟨b, c :: t⟩ = []) {w t : List α} (hw : ∀ c ∈ w, p c = true)
    (ht : ∀ c ∈ t.head?, p c = false) (b : Option α) :
    (ends (star (char p)) ⟨b, w ++ t⟩).flatMap f = f (behind b w t) := by
  induction w generalizing b with
  | nil =>
      have hnone : ends (char p) ⟨b, t⟩ = [] := by
        cases t with
        | nil => rfl
        | cons c t => exact if_neg (by simp [ht c rfl])
      rw [List.nil_append, ends_star_of_nil (consumes_char p) hnone]
      exact List.append_nil _
  | cons c w ih =>
      have hc : p c = true := hw c List.mem_cons_self
      have hone : ends (char p) ⟨b, c :: (w ++ t)⟩ = [⟨some c, w ++ t⟩] := if_pos hc
      rw [List.cons_append, ends_star (consumes_char p), hone, List.flatMap_singleton,
        List.flatMap_append, ih (fun d hd => hw d (List.mem_cons_of_mem c hd)),
        List.flatMap_singleton, hf b c (w ++ t) hc, List.append_nil, behind_cons]

/-- The preferred end of a repetition of characters is behind all of them. -/
theorem head?_ends_star_char {p : α → Bool} {w t : List α} (hw : ∀ c ∈ w, p c = true)
    (ht : ∀ c ∈ t.head?, p c = false) (b : Option α) :
    (ends (star (char p)) ⟨b, w ++ t⟩).head? = some (behind b w t) := by
  induction w generalizing b with
  | nil =>
      have hnone : ends (char p) ⟨b, t⟩ = [] := by
        cases t with
        | nil => rfl
        | cons c t => exact if_neg (by simp [ht c rfl])
      rw [List.nil_append, ends_star_of_nil (consumes_char p) hnone]
      rfl
  | cons c w ih =>
      have hone : ends (char p) ⟨b, c :: (w ++ t)⟩ = [⟨some c, w ++ t⟩] :=
        if_pos (hw c List.mem_cons_self)
      have hstep : (ends (char p) ⟨b, c :: (w ++ t)⟩).head? = some ⟨some c, w ++ t⟩ := by
        rw [hone, List.head?_cons]
      rw [List.cons_append, head?_ends_star (consumes_char p) hstep,
        ih (fun d hd => hw d (List.mem_cons_of_mem c hd)), behind_cons]

/-- The preferred end of a sequence, when its second part can follow the preferred end of the
first. -/
theorem head?_ends_seq {r q : Regex α} {s s₁ s₂ : Pos α} (h₁ : (ends r s).head? = some s₁)
    (h₂ : (ends q s₁).head? = some s₂) : (ends (seq r q) s).head? = some s₂ := by
  obtain ⟨others, hothers⟩ := List.head?_eq_some_iff.mp h₁
  obtain ⟨others', hothers'⟩ := List.head?_eq_some_iff.mp h₂
  rw [ends, hothers, List.flatMap_cons, hothers', List.cons_append, List.head?_cons]

/-! ### Texts -/

section Lit

variable [DecidableEq α]

/-- A text that stands there. -/
theorem ends_lit_append (w t : List α) (b : Option α) :
    ends (lit w) ⟨b, w ++ t⟩ = [behind b w t] := by
  induction w generalizing b with
  | nil => rfl
  | cons c w ih =>
      have hone : ends (char fun d => decide (d = c)) ⟨b, c :: (w ++ t)⟩ = [⟨some c, w ++ t⟩] :=
        if_pos (decide_eq_true rfl)
      rw [behind_cons, ← ih (some c)]
      change (ends (char fun d => decide (d = c)) ⟨b, c :: (w ++ t)⟩).flatMap (ends (lit w)) = _
      rw [hone, List.flatMap_singleton]

/-- A text that does not. -/
theorem ends_lit_of_not_prefix {w : List α} {s : Pos α} (h : ¬ w <+: s.rest) :
    ends (lit w) s = [] := by
  induction w generalizing s with
  | nil => exact absurd List.nil_prefix h
  | cons c w ih =>
      obtain ⟨b, rest⟩ := s
      change (ends (char fun d => decide (d = c)) ⟨b, rest⟩).flatMap (ends (lit w)) = _
      cases rest with
      | nil => rfl
      | cons d t =>
          by_cases hd : d = c
          · have hone : ends (char fun d => decide (d = c)) ⟨b, d :: t⟩ = [⟨some d, t⟩] :=
              if_pos (decide_eq_true hd)
            rw [hone, List.flatMap_singleton]
            refine ih fun hprefix => h ?_
            rw [hd]
            exact List.cons_prefix_cons.mpr ⟨rfl, hprefix⟩
          · have hnone : ends (char fun d => decide (d = c)) ⟨b, d :: t⟩ = [] :=
              if_neg (by simp [hd])
            rw [hnone, List.flatMap_nil]

end Lit

/-! ### Substitution -/

section Sub

variable {g q : Regex α}

/-- Where nothing matches, nothing is replaced. -/
theorem subFrom_of_none {n : ℕ} {s : Pos α}
    (h : ∀ b t, t <:+ s.rest → firstMatch g q ⟨b, t⟩ = none) : subFrom g q n s = s.rest := by
  induction n generalizing s with
  | zero => rfl
  | succ n ih =>
      obtain ⟨b, rest⟩ := s
      cases rest with
      | nil => rfl
      | cons c t =>
          rw [subFrom]
          dsimp only
          rw [h b (c :: t) List.suffix_rfl]
          exact congrArg (c :: ·) (ih fun b' t' ht' => h b' t' (ht'.trans (List.suffix_cons c t)))

/-- So the text stays. -/
theorem sub_of_none {text : List α} (h : ∀ b t, t <:+ text → firstMatch g q ⟨b, t⟩ = none) :
    sub g q text = text :=
  subFrom_of_none h

/-- **Before the first match** nothing is replaced. -/
theorem subFrom_append {u v : List α} {n : ℕ} (b : Option α)
    (h : ∀ b t, t <:+ u → t ≠ [] → firstMatch g q ⟨b, t ++ v⟩ = none) :
    subFrom g q (u.length + n) ⟨b, u ++ v⟩ = u ++ subFrom g q n (behind b u v) := by
  induction u generalizing b with
  | nil => rw [List.length_nil, Nat.zero_add, List.nil_append, List.nil_append, behind_nil]
  | cons c u ih =>
      rw [List.length_cons, Nat.add_right_comm, subFrom]
      dsimp only [List.cons_append]
      rw [← List.cons_append, h b (c :: u) List.suffix_rfl (List.cons_ne_nil c u), behind_cons]
      exact congrArg (c :: ·) (ih (some c) fun b' t ht hne =>
        h b' t (ht.trans (List.suffix_cons c u)) hne)

/-- A match is one of each part. -/
theorem mem_of_firstMatch {s s₁ s₂ : Pos α} (h : firstMatch g q s = some (s₁, s₂)) :
    s₁ ∈ ends g s ∧ s₂ ∈ ends q s₁ := by
  obtain ⟨x, hx, hmem⟩ := List.mem_flatMap.mp (List.mem_of_head? h)
  obtain ⟨y, hy, heq⟩ := List.mem_map.mp hmem
  cases heq
  exact ⟨hx, hy⟩

/-- There is no match when the second part cannot follow the first. -/
theorem firstMatch_eq_none_iff {s : Pos α} :
    firstMatch g q s = none ↔ ∀ s₁ ∈ ends g s, ends q s₁ = [] := by
  rw [firstMatch, List.head?_eq_none_iff, List.flatMap_eq_nil_iff]
  exact forall₂_congr fun s₁ _ => List.map_eq_nil_iff

/-- What a match leaves. -/
theorem subFrom_of_match {n : ℕ} {s s₁ s₂ : Pos α} (hne : s.rest ≠ [])
    (h : firstMatch g q s = some (s₁, s₂)) :
    subFrom g q (n + 1) s
      = s.rest.take (s.rest.length - s₁.rest.length) ++ subFrom g q n s₂ := by
  obtain ⟨b, rest⟩ := s
  cases rest with
  | nil => exact absurd rfl hne
  | cons c t =>
      rw [subFrom]
      dsimp only
      rw [h]

/-- **What the first part matched stays**, and what the second part matched is gone. -/
theorem subFrom_of_match_append {n : ℕ} {s s₁ s₂ : Pos α} {u : List α} (hne : s.rest ≠ [])
    (h : firstMatch g q s = some (s₁, s₂)) (hu : s.rest = u ++ s₁.rest) :
    subFrom g q (n + 1) s = u ++ subFrom g q n s₂ := by
  rw [subFrom_of_match hne h, hu, List.length_append, Nat.add_sub_cancel, List.take_left]

/-- A substitution never makes a text longer. -/
theorem length_subFrom_le {n : ℕ} {s : Pos α} : (subFrom g q n s).length ≤ s.rest.length := by
  induction n generalizing s with
  | zero => exact le_rfl
  | succ n ih =>
      obtain ⟨b, rest⟩ := s
      cases rest with
      | nil => exact le_rfl
      | cons c t =>
          cases hmatch : firstMatch g q ⟨b, c :: t⟩ with
          | none =>
              rw [subFrom]
              dsimp only
              rw [hmatch]
              exact Nat.succ_le_succ ih
          | some x =>
              obtain ⟨s₁, s₂⟩ := x
              obtain ⟨h₁, h₂⟩ := mem_of_firstMatch hmatch
              have hle₁ := (suffix_of_mem_ends h₁).length_le
              have hle₂ := (suffix_of_mem_ends h₂).length_le
              have hle := @ih s₂
              rw [subFrom_of_match (List.cons_ne_nil c t) hmatch, List.length_append,
                List.length_take]
              dsimp only at hle₁ ⊢
              omega

/-- Nor does one in a whole text. -/
theorem length_sub_le (text : List α) : (sub g q text).length ≤ text.length :=
  length_subFrom_le

/-- **A match makes the text shorter** when the second part takes a character. -/
theorem length_subFrom_lt (hq : Consumes q) {n : ℕ} {s : Pos α} (h : firstMatch g q s ≠ none) :
    (subFrom g q (n + 1) s).length < s.rest.length := by
  obtain ⟨⟨s₁, s₂⟩, hmatch⟩ := Option.ne_none_iff_exists'.mp h
  obtain ⟨h₁, h₂⟩ := mem_of_firstMatch hmatch
  have hle₁ := (suffix_of_mem_ends h₁).length_le
  have hlt := hq s₁ s₂ h₂
  have hle := @length_subFrom_le _ g q n s₂
  have hne : s.rest ≠ [] := List.length_pos_iff.mp (by omega)
  rw [subFrom_of_match hne hmatch, List.length_append, List.length_take]
  omega

end Sub

/-! ### Finding all matches -/

section Find

variable {g q : Regex α}

/-- What the second part matches, in every match behind a position, at most so many steps. -/
def findSteps (g q : Regex α) : ℕ → Pos α → List (List α)
  | 0, _ => []
  | n + 1, s =>
    match s.rest with
    | [] => []
    | c :: t =>
      match firstMatch g q s with
      | some (s₁, s₂) =>
        s₁.rest.take (s₁.rest.length - s₂.rest.length) :: findSteps g q n s₂
      | none => findSteps g q n { prev := some c, rest := t }

/-- The matches behind a position. -/
def findFrom (g q : Regex α) (s : Pos α) : List (List α) :=
  findSteps g q s.rest.length s

/-- What the second part matches, in every match of two expressions in sequence. -/
def findall (g q : Regex α) (text : List α) : List (List α) :=
  findFrom g q { prev := none, rest := text }

/-- The bound on the steps does not matter when every match takes a character. -/
theorem findSteps_eq (hg : Consumes g) {n m : ℕ} {s : Pos α} (hn : s.rest.length ≤ n)
    (hm : s.rest.length ≤ m) : findSteps g q n s = findSteps g q m s := by
  induction n generalizing m s with
  | zero =>
      have hnil : s.rest = [] := List.length_eq_zero_iff.mp (by omega)
      cases m with
      | zero => rfl
      | succ m => rw [findSteps, findSteps, hnil]
  | succ n ih =>
      cases m with
      | zero =>
          have hnil : s.rest = [] := List.length_eq_zero_iff.mp (by omega)
          rw [findSteps, findSteps, hnil]
      | succ m =>
          obtain ⟨b, rest⟩ := s
          cases rest with
          | nil => rfl
          | cons c t =>
              simp only [List.length_cons, Nat.add_le_add_iff_right] at hn hm
              cases hmatch : firstMatch g q ⟨b, c :: t⟩ with
              | none =>
                  simp only [findSteps, hmatch]
                  exact ih hn hm
              | some x =>
                  obtain ⟨s₁, s₂⟩ := x
                  obtain ⟨h₁, h₂⟩ := mem_of_firstMatch hmatch
                  have hlt := hg _ s₁ h₁
                  have hle := (suffix_of_mem_ends h₂).length_le
                  simp only [List.length_cons] at hlt
                  simp only [findSteps, hmatch]
                  rw [ih (m := m) (by omega) (by omega)]

/-- At the end nothing is found. -/
@[simp] theorem findFrom_nil (b : Option α) : findFrom g q ⟨b, []⟩ = [] := rfl

/-- **A match** is found, and then what is behind it. -/
theorem findFrom_of_match (hg : Consumes g) {s s₁ s₂ : Pos α}
    (h : firstMatch g q s = some (s₁, s₂)) :
    findFrom g q s
      = s₁.rest.take (s₁.rest.length - s₂.rest.length) :: findFrom g q s₂ := by
  obtain ⟨h₁, h₂⟩ := mem_of_firstMatch h
  have hlt := hg s s₁ h₁
  have hle := (suffix_of_mem_ends h₂).length_le
  obtain ⟨b, rest⟩ := s
  cases rest with
  | nil => simp at hlt
  | cons c t =>
      simp only [List.length_cons] at hlt
      simp only [findFrom, List.length_cons, findSteps, h]
      rw [findSteps_eq hg (m := s₂.rest.length) (by omega) le_rfl]

/-- **Where nothing matches** the search goes on behind the next character. -/
theorem findFrom_of_none {b : Option α} {c : α} {t : List α}
    (h : firstMatch g q ⟨b, c :: t⟩ = none) :
    findFrom g q ⟨b, c :: t⟩ = findFrom g q ⟨some c, t⟩ := by
  simp only [findFrom, List.length_cons, findSteps, h]

/-- The match with the preferred ends of both parts. -/
theorem firstMatch_of_head? {s s₁ s₂ : Pos α} (h₁ : (ends g s).head? = some s₁)
    (h₂ : (ends q s₁).head? = some s₂) : firstMatch g q s = some (s₁, s₂) := by
  obtain ⟨others, hothers⟩ := List.head?_eq_some_iff.mp h₁
  obtain ⟨others', hothers'⟩ := List.head?_eq_some_iff.mp h₂
  rw [firstMatch, hothers, List.flatMap_cons, hothers', List.map_cons, List.cons_append,
    List.head?_cons]

end Find

end Regex
