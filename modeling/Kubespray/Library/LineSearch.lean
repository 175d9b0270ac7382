import Mathlib.Data.List.Infix
import Mathlib.Data.List.Forall2

/-!
# Searching Lines for Patterns

A search pattern without repetition is a sequence of tests, one for each position of the
text it matches. A line is found when such a text stands anywhere in it. This covers what
`grep` does with a pattern whose only special character is the dot.

The pattern made from a text by a reflexive test finds at least every line the text
stands in; what else it finds depends on the test, and on the absence of anchors. A file
is searched line by line, and a file that was written line by line has those lines.

## Main results

* `search_iff`: a line is found exactly when a matching text is an infix of it.
* `search_of_isInfix`: lines that contain the text of a reflexive pattern are found.
* `map_filter_eq_iff`: a coarser filter selects the same as a finer one exactly when it
  selects nothing else.
* `lines_flatMap`: the lines of a text that was written line by line.
* `exists_lines`: every text was, up to its last line.
* `RawLines.rawLines_flatten`: the same for lines with their terminators, of which the last
  may lack its own.
-/

universe u v

namespace LineSearch

variable {α : Type u} {β : Type v}

/-- A pattern: the tests that the successive characters have to pass. -/
abbrev Pattern (α : Type u) := List (α → Bool)

/-- The whole text matches the pattern. -/
def Matches (ps : Pattern α) (t : List α) : Prop :=
  List.Forall₂ (fun p x => p x = true) ps t

/-- The pattern matches at the start of the text. -/
def matchesHere : Pattern α → List α → Bool
  | [], _ => true
  | _ :: _, [] => false
  | p :: ps, x :: xs => p x && matchesHere ps xs

/-- The pattern matches somewhere in the line. -/
def search (ps : Pattern α) : List α → Bool
  | [] => matchesHere ps []
  | x :: xs => matchesHere ps (x :: xs) || search ps xs

/-- The lines in which the pattern matches. -/
def grep (ps : Pattern α) (lines : List (List α)) : List (List α) :=
  lines.filter (search ps)

/-- A match at the start is a prefix that matches. -/
theorem matchesHere_iff {ps : Pattern α} {s : List α} :
    matchesHere ps s = true ↔ ∃ t, t <+: s ∧ Matches ps t := by
  induction ps generalizing s with
  | nil => exact iff_of_true rfl ⟨[], List.nil_prefix, List.Forall₂.nil⟩
  | cons p ps ih =>
      cases s with
      | nil =>
          refine iff_of_false Bool.false_ne_true ?_
          rintro ⟨t, hprefix, hmatch⟩
          rw [List.prefix_nil.mp hprefix] at hmatch
          cases hmatch
      | cons x xs =>
          rw [matchesHere, Bool.and_eq_true, ih]
          constructor
          · rintro ⟨hx, t, hprefix, hmatch⟩
            exact ⟨x :: t, List.cons_prefix_cons.mpr ⟨rfl, hprefix⟩, List.Forall₂.cons hx hmatch⟩
          · rintro ⟨t, hprefix, hmatch⟩
            cases hmatch with
            | cons hx hmatch =>
                obtain ⟨rfl, htail⟩ := List.cons_prefix_cons.mp hprefix
                exact ⟨hx, _, htail, hmatch⟩

/-- **Search without anchors**: a line is found exactly when a matching text stands
anywhere in it. -/
theorem search_iff {ps : Pattern α} {s : List α} :
    search ps s = true ↔ ∃ t, t <:+: s ∧ Matches ps t := by
  induction s with
  | nil => simp only [search, matchesHere_iff, List.prefix_nil, List.infix_nil]
  | cons x xs ih =>
      rw [search, Bool.or_eq_true, matchesHere_iff, ih]
      constructor
      · rintro (⟨t, hprefix, hmatch⟩ | ⟨t, hinfix, hmatch⟩)
        · exact ⟨t, hprefix.isInfix, hmatch⟩
        · exact ⟨t, List.infix_cons hinfix, hmatch⟩
      · rintro ⟨t, hinfix, hmatch⟩
        rcases List.infix_cons_iff.mp hinfix with hprefix | hinfix
        · exact Or.inl ⟨t, hprefix, hmatch⟩
        · exact Or.inr ⟨t, hinfix, hmatch⟩

/-- What is found in a text is found in every text around it. -/
theorem search_of_isInfix_of_search {ps : Pattern α} {s s' : List α} (h : s <:+: s')
    (hs : search ps s = true) : search ps s' = true := by
  obtain ⟨t, ht, hmatch⟩ := search_iff.mp hs
  exact search_iff.mpr ⟨t, ht.trans h, hmatch⟩

/-- A pattern in two parts matches a text in two parts. -/
theorem matches_append_iff {ps qs : Pattern α} {t : List α} :
    Matches (ps ++ qs) t ↔ ∃ u v, t = u ++ v ∧ Matches ps u ∧ Matches qs v := by
  induction ps generalizing t with
  | nil =>
      constructor
      · exact fun h => ⟨[], t, rfl, List.Forall₂.nil, h⟩
      · rintro ⟨u, v, rfl, hu, hv⟩
        cases hu
        exact hv
  | cons p ps ih =>
      constructor
      · intro h
        cases h with
        | cons hx h =>
            obtain ⟨u, v, rfl, hu, hv⟩ := ih.mp h
            exact ⟨_ :: u, v, rfl, List.Forall₂.cons hx hu, hv⟩
      · rintro ⟨u, v, rfl, hu, hv⟩
        cases hu with
        | cons hx hu => exact List.Forall₂.cons hx (ih.mpr ⟨_, v, rfl, hu, hv⟩)

/-- The pattern made from a text by a reflexive test matches the text. -/
theorem matches_map_self {test : α → α → Bool} (hrefl : ∀ x, test x x = true) (t : List α) :
    Matches (t.map test) t := by
  induction t with
  | nil => exact List.Forall₂.nil
  | cons x t ih => exact List.Forall₂.cons (hrefl x) ih

/-- **What a reflexive pattern surely finds**: the lines that contain its text. -/
theorem search_of_isInfix {test : α → α → Bool} (hrefl : ∀ x, test x x = true) {t s : List α}
    (h : t <:+: s) : search (t.map test) s = true :=
  search_iff.mpr ⟨t, h, matches_map_self hrefl t⟩

/-- Selecting with a coarser test gives the same as selecting with a finer one exactly
when the coarser test selects nothing else. -/
theorem map_filter_eq_iff {p q : α → Bool} {f : α → β} {xs : List α}
    (hqp : ∀ x, q x = true → p x = true) :
    (xs.filter p).map f = (xs.filter q).map f ↔ ∀ x ∈ xs, q x = false → p x = false := by
  constructor
  · intro heq x hx hq
    have hsub : (xs.filter q).Sublist (xs.filter p) := List.monotone_filter_right xs hqp
    have hlen : (xs.filter q).length = (xs.filter p).length := by
      simpa using (congrArg List.length heq).symm
    have hfilter : xs.filter q = xs.filter p := hsub.eq_of_length hlen
    by_contra hp
    have hmem : x ∈ xs.filter p := List.mem_filter.mpr ⟨hx, by simpa using hp⟩
    rw [← hfilter, List.mem_filter, hq] at hmem
    exact Bool.false_ne_true hmem.2
  · intro h
    have hsame : ∀ x ∈ xs, p x = q x := by
      intro x hx
      cases hq : q x with
      | true => exact hqp x hq
      | false => exact h x hx hq
    rw [List.filter_congr hsame]

/-! ### The lines of a text -/

section Lines

variable [DecidableEq α] {nl : α}

/-- A character in front of the first line. -/
def consToFirst (c : α) : List (List α) → List (List α)
  | [] => [[c]]
  | l :: ls => (c :: l) :: ls

/-- The lines of a text, whose last line may lack its terminator. -/
def lines (nl : α) : List α → List (List α)
  | [] => []
  | c :: t => if c = nl then [] :: lines nl t else consToFirst c (lines nl t)

/-- The first line of a text. -/
theorem lines_append {l : List α} (h : nl ∉ l) (t : List α) :
    lines nl (l ++ nl :: t) = l :: lines nl t := by
  induction l with
  | nil => exact if_pos rfl
  | cons c l ih =>
      rw [List.mem_cons, not_or] at h
      rw [List.cons_append, lines, if_neg fun heq => h.1 heq.symm, ih h.2, consToFirst]

/-- The lines of a text after others. -/
theorem lines_flatMap_append {ls : List (List α)} (h : ∀ l ∈ ls, nl ∉ l) (t : List α) :
    lines nl ((ls.flatMap fun l => l ++ [nl]) ++ t) = ls ++ lines nl t := by
  induction ls with
  | nil => rfl
  | cons l ls ih =>
      obtain ⟨hl, hls⟩ := List.forall_mem_cons.mp h
      rw [List.flatMap_cons, List.append_assoc, List.append_assoc, List.singleton_append,
        lines_append hl, ih hls, List.cons_append]

/-- **A text that was written line by line** has those lines. -/
theorem lines_flatMap {ls : List (List α)} (h : ∀ l ∈ ls, nl ∉ l) :
    lines nl (ls.flatMap fun l => l ++ [nl]) = ls := by
  rw [← List.append_nil (ls.flatMap _), lines_flatMap_append h, lines, List.append_nil]

/-- A line without its terminator. -/
theorem lines_of_notMem {t : List α} (h : nl ∉ t) (hne : t ≠ []) : lines nl t = [t] := by
  induction t with
  | nil => exact absurd rfl hne
  | cons c t ih =>
      rw [List.mem_cons, not_or] at h
      rw [lines, if_neg fun heq => h.1 heq.symm]
      by_cases ht : t = []
      · rw [ht]
        rfl
      · rw [ih h.2 ht]
        rfl

/-- **Every text is written line by line**, up to its last line. -/
theorem exists_lines (nl : α) (t : List α) :
    ∃ (ls : List (List α)) (last : List α), t = (ls.flatMap fun l => l ++ [nl]) ++ last ∧
      (∀ l ∈ ls, nl ∉ l) ∧ nl ∉ last := by
  induction t with
  | nil => exact ⟨[], [], rfl, fun l hl => absurd hl List.not_mem_nil, List.not_mem_nil⟩
  | cons c t ih =>
      obtain ⟨ls, last, rfl, hls, hlast⟩ := ih
      by_cases hc : c = nl
      · refine ⟨[] :: ls, last, by rw [hc]; rfl, ?_, hlast⟩
        exact List.forall_mem_cons.mpr ⟨List.not_mem_nil, hls⟩
      · have hcons : ∀ l : List α, nl ∉ l → nl ∉ c :: l := fun l hl hmem =>
          (List.mem_cons.mp hmem).elim (fun heq => hc heq.symm) hl
        cases ls with
        | nil => exact ⟨[], c :: last, rfl, hls, hcons last hlast⟩
        | cons l ls =>
            obtain ⟨hl, hls⟩ := List.forall_mem_cons.mp hls
            exact ⟨(c :: l) :: ls, last, rfl, List.forall_mem_cons.mpr ⟨hcons l hl, hls⟩, hlast⟩

/-- A line that is not terminated is continued by what is appended. -/
theorem exists_lines_append {l : List α} (h : nl ∉ l) (hne : l ≠ []) (t : List α) :
    ∃ u us, lines nl (l ++ t) = (l ++ u) :: us := by
  obtain ⟨ls, last, rfl, hls, hlast⟩ := exists_lines nl t
  have hnot : ∀ u : List α, nl ∉ u → nl ∉ l ++ u := fun u hu hmem =>
    (List.mem_append.mp hmem).elim h hu
  cases ls with
  | nil =>
      refine ⟨last, [], ?_⟩
      exact lines_of_notMem (hnot last hlast) (List.append_ne_nil_of_left_ne_nil hne _)
  | cons u us =>
      refine ⟨u, lines nl ((us.flatMap fun l => l ++ [nl]) ++ last), ?_⟩
      have happend := lines_append (hnot u (List.forall_mem_cons.mp hls).1)
        ((us.flatMap fun l => l ++ [nl]) ++ last)
      simpa only [List.flatMap_cons, List.append_assoc, List.cons_append,
        List.nil_append] using happend

/-- **What stands in a text stays in it** when something is appended. -/
theorem exists_prefix_lines_append {t line : List α} (h : line ∈ lines nl t) (u : List α) :
    ∃ line' ∈ lines nl (t ++ u), line <+: line' := by
  obtain ⟨ls, last, rfl, hls, hlast⟩ := exists_lines nl t
  rw [List.append_assoc, lines_flatMap_append hls]
  rw [lines_flatMap_append hls, List.mem_append] at h
  rcases h with h | h
  · exact ⟨line, List.mem_append_left _ h, List.prefix_rfl⟩
  · have hne : last ≠ [] := by
      rintro rfl
      cases h
    rw [lines_of_notMem hlast hne, List.mem_singleton] at h
    subst h
    obtain ⟨v, vs, hv⟩ := exists_lines_append hlast hne u
    exact ⟨line ++ v, by rw [hv]; exact List.mem_append_right _ List.mem_cons_self,
      List.prefix_append _ _⟩

/-- The last line of the text is terminated, if there is one. -/
def terminated (nl : α) (t : List α) : Bool :=
  t.getLast?.all fun c => c = nl

/-- The last line is terminated when nothing stands behind the last terminator. -/
theorem terminated_iff {ls : List (List α)} {last : List α} (h : nl ∉ last) :
    terminated nl ((ls.flatMap fun l => l ++ [nl]) ++ last) = true ↔ last = [] := by
  rw [terminated]
  cases last using List.reverseRecOn with
  | nil =>
      refine iff_of_true ?_ rfl
      cases ls using List.reverseRecOn with
      | nil => rfl
      | append_singleton ls l => simp
  | append_singleton last c =>
      refine iff_of_false ?_ (by simp)
      rw [← List.append_assoc, List.getLast?_concat, Option.all_some, decide_eq_true_iff]
      rintro rfl
      exact h (List.mem_append_right _ List.mem_cons_self)

end Lines

/-! ### Lines with their terminators -/

section RawLines

variable {nl : α}

/-- Lines that are terminated, apart perhaps from the last one. -/
inductive RawLines (nl : α) : List (List α) → Prop
  | nil : RawLines nl []
  | last {l : List α} : nl ∉ l → l ≠ [] → RawLines nl [l]
  | cons {l : List α} {rs : List (List α)} :
      nl ∉ l → RawLines nl rs → RawLines nl ((l ++ [nl]) :: rs)

/-- Some of the lines are such lines. -/
theorem RawLines.sublist {rs rs' : List (List α)} (h : RawLines nl rs)
    (hsub : rs'.Sublist rs) : RawLines nl rs' := by
  induction h generalizing rs' with
  | nil => exact List.sublist_nil.mp hsub ▸ .nil
  | last hl hne =>
      rcases List.sublist_singleton.mp hsub with rfl | rfl
      · exact .nil
      · exact .last hl hne
  | cons hl _ ih =>
      rcases List.sublist_cons_iff.mp hsub with htail | ⟨rs₁, rfl, htail⟩
      · exact ih htail
      · exact .cons hl (ih htail)

/-- What stands in a text and has no terminator stands before one or behind it. -/
theorem infix_append_cons {w u v : List α} (hw : nl ∉ w) (h : w <:+: u ++ nl :: v) :
    w <:+: u ∨ w <:+: v := by
  rcases List.infix_append_iff_ne_nil.mp h with h | h | ⟨w₁, w₂, -, hne, rfl, -, h⟩
  · exact Or.inl h
  · rcases List.infix_cons_iff.mp h with h | h
    · cases w with
      | nil => exact Or.inl List.nil_infix
      | cons c w =>
          obtain ⟨rfl, -⟩ := List.cons_prefix_cons.mp h
          exact absurd List.mem_cons_self hw
    · exact Or.inr h
  · cases w₂ with
    | nil => exact absurd rfl hne
    | cons c w₂ =>
        obtain ⟨rfl, -⟩ := List.cons_prefix_cons.mp h
        exact absurd (List.mem_append_right _ List.mem_cons_self) hw

/-- **What stands in such lines** stands in one of them. -/
theorem RawLines.exists_isInfix {rs : List (List α)} (h : RawLines nl rs) {w : List α}
    (hw : nl ∉ w) (hne : w ≠ []) (hstands : w <:+: rs.flatten) : ∃ r ∈ rs, w <:+: r := by
  induction h with
  | nil => exact absurd (List.infix_nil.mp hstands) hne
  | last _ _ =>
      rw [List.flatten_singleton] at hstands
      exact ⟨_, List.mem_cons_self, hstands⟩
  | cons _ _ ih =>
      rw [List.flatten_cons, List.append_assoc, List.singleton_append] at hstands
      rcases infix_append_cons hw hstands with h | h
      · exact ⟨_, List.mem_cons_self, h.trans (List.prefix_append _ _).isInfix⟩
      · obtain ⟨r, hr, h⟩ := ih h
        exact ⟨r, List.mem_cons_of_mem _ hr, h⟩

/-- A character in front of the first of some lines. -/
theorem RawLines.consToFirst {rs : List (List α)} (h : RawLines nl rs) {c : α} (hc : c ≠ nl) :
    RawLines nl (consToFirst c rs) := by
  have hcons : ∀ l : List α, nl ∉ l → nl ∉ c :: l := fun l hl hmem =>
    (List.mem_cons.mp hmem).elim (fun heq => hc heq.symm) hl
  cases h with
  | nil => exact .last (hcons [] List.not_mem_nil) (List.cons_ne_nil c [])
  | last hl _ => exact .last (hcons _ hl) (List.cons_ne_nil c _)
  | cons hl h => exact .cons (hcons _ hl) h

/-- It is in front of the text. -/
theorem flatten_consToFirst (c : α) (rs : List (List α)) :
    (consToFirst c rs).flatten = c :: rs.flatten := by
  cases rs <;> rfl

variable [DecidableEq α]

/-- The lines of a text with their terminators. -/
def rawLines (nl : α) : List α → List (List α)
  | [] => []
  | c :: t => if c = nl then [c] :: rawLines nl t else consToFirst c (rawLines nl t)

/-- The lines of a text are such lines. -/
theorem rawLines_spec (t : List α) : RawLines nl (rawLines nl t) := by
  induction t with
  | nil => exact .nil
  | cons c t ih =>
      rw [rawLines]
      split_ifs with hc
      · subst hc
        exact .cons (l := []) List.not_mem_nil ih
      · exact ih.consToFirst hc

/-- They make up the text. -/
theorem flatten_rawLines (t : List α) : (rawLines nl t).flatten = t := by
  induction t with
  | nil => rfl
  | cons c t ih =>
      rw [rawLines]
      split_ifs
      · rw [List.flatten_cons, ih, List.singleton_append]
      · rw [flatten_consToFirst, ih]

/-- The first line of a text, with its terminator. -/
theorem rawLines_append {l : List α} (h : nl ∉ l) (t : List α) :
    rawLines nl (l ++ nl :: t) = (l ++ [nl]) :: rawLines nl t := by
  induction l with
  | nil => exact if_pos rfl
  | cons c l ih =>
      rw [List.mem_cons, not_or] at h
      rw [List.cons_append, rawLines, if_neg fun heq => h.1 heq.symm, ih h.2]
      rfl

/-- **A text that was put together of such lines** has those lines. -/
theorem RawLines.rawLines_flatten {rs : List (List α)} (h : RawLines nl rs) :
    rawLines nl rs.flatten = rs := by
  induction h with
  | nil => rfl
  | @last l hl hne =>
      rw [List.flatten_singleton]
      induction l with
      | nil => exact absurd rfl hne
      | cons c l ih =>
          rw [List.mem_cons, not_or] at hl
          rw [rawLines, if_neg fun heq => hl.1 heq.symm]
          by_cases hl' : l = []
          · rw [hl']
            rfl
          · rw [ih hl.2 hl']
            rfl
  | cons hl _ ih =>
      rw [List.flatten_cons, List.append_assoc, List.singleton_append, rawLines_append hl, ih]

end RawLines

end LineSearch
