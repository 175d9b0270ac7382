import Mathlib.Data.List.TakeWhile

/-!
# Words

The words of a line: the runs of characters between separators. Any number of separators may
stand between two words, and before the first and behind the last one, so that a line has more
than its words. What is shown of words is shown by `word_induction`, which takes a line from the
left: a separator, a word at its end, or a word and the separator behind it.

## Main results

* `words_append_cons`: the words on the two sides of a separator.
* `word_induction`: how a line is taken apart.
* `words_intercalate`: a line of words with one separator between them has those words.
-/

universe u

namespace Words

variable {α : Type u} {sep : α → Bool}

/-- The words of a line: what stands between separators, without the empty runs that there are
where separators follow each other. -/
def words (sep : α → Bool) (line : List α) : List (List α) :=
  (line.splitOnP sep).filter fun w => !w.isEmpty

/-- No word goes over a separator: the words of a line are those before any separator and
those behind it. -/
theorem words_append_cons {c : α} (hc : sep c = true) (s t : List α) :
    words sep (s ++ c :: t) = words sep s ++ words sep t := by
  rw [words, List.splitOnP_append_cons s t hc, List.filter_append]
  rfl

/-- A separator at the start of a line is not part of a word, and can be left out. -/
theorem words_cons {c : α} (hc : sep c = true) (t : List α) :
    words sep (c :: t) = words sep t :=
  words_append_cons hc [] t

/-- A line without a separator is one word, unless it is empty. -/
theorem words_of_word {w : List α} (hne : w ≠ []) (hw : ∀ c ∈ w, sep c = false) :
    words sep w = [w] := by
  rw [words, List.splitOnP_eq_singleton hw]
  exact List.filter_cons_of_pos (by simp [hne])

/-- **A word at the start** of a line, up to the first separator, is its first word. -/
theorem words_word_append {w : List α} (hne : w ≠ []) (hw : ∀ c ∈ w, sep c = false) {c : α}
    (hc : sep c = true) (t : List α) : words sep (w ++ c :: t) = w :: words sep t := by
  rw [words_append_cons hc, words_of_word hne hw, List.singleton_append]

/-- **Induction over the words of a line.** A line is empty, begins with a separator, is one word,
or begins with a word and the separator behind it. -/
theorem word_induction (sep : α → Bool) {P : List α → Prop} (nil : P [])
    (separator : ∀ c t, sep c = true → P t → P (c :: t))
    (word : ∀ w, w ≠ [] → (∀ c ∈ w, sep c = false) → P w)
    (cons : ∀ w c t, w ≠ [] → (∀ c ∈ w, sep c = false) → sep c = true → P t → P (w ++ c :: t))
    (t : List α) : P t := by
  induction hn : t.length using Nat.strongRecOn generalizing t with
  | ind n ih =>
      subst hn
      cases t with
      | nil => exact nil
      | cons c t =>
          by_cases hc : sep c = true
          · exact separator c t hc (ih t.length (Nat.lt_succ_self _) t rfl)
          · have hspan := List.takeWhile_append_dropWhile (p := fun c => !sep c) (l := c :: t)
            have hne : (c :: t).takeWhile (fun c => !sep c) ≠ [] := by simp [hc]
            have hword : ∀ x ∈ (c :: t).takeWhile (fun c => !sep c), sep x = false := by
              intro x hx
              simpa using List.mem_takeWhile_imp hx
            cases hrest : (c :: t).dropWhile (fun c => !sep c) with
            | nil =>
                rw [hrest, List.append_nil] at hspan
                rw [← hspan]
                exact word _ hne hword
            | cons d rest =>
                have hd : sep d = true := by
                  have hhead := List.head?_dropWhile_not (fun c => !sep c) (c :: t)
                  rw [hrest] at hhead
                  simpa using hhead
                rw [hrest] at hspan
                have hlength := congrArg List.length hspan
                rw [List.length_append, List.length_cons] at hlength
                rw [← hspan]
                exact cons _ d rest hne hword hd (ih rest.length (by omega) rest rfl)

/-- A word has characters, all of them from its line, and none is a separator. -/
theorem of_mem_words {w t : List α} (h : w ∈ words sep t) :
    w ≠ [] ∧ ∀ c ∈ w, sep c = false ∧ c ∈ t := by
  induction t using word_induction sep with
  | nil => cases h
  | separator c t hc ih =>
      rw [words_cons hc] at h
      obtain ⟨hne, hw⟩ := ih h
      exact ⟨hne, fun c hc => ⟨(hw c hc).1, List.mem_cons_of_mem _ (hw c hc).2⟩⟩
  | word u hne hu =>
      rw [words_of_word hne hu, List.mem_singleton] at h
      subst h
      exact ⟨hne, fun c hc => ⟨hu c hc, hc⟩⟩
  | cons u c t hne hu hc ih =>
      rw [words_word_append hne hu hc, List.mem_cons] at h
      rcases h with rfl | h
      · exact ⟨hne, fun c hc => ⟨hu c hc, List.mem_append_left _ hc⟩⟩
      · obtain ⟨hwne, hw⟩ := ih h
        exact ⟨hwne, fun d hd => ⟨(hw d hd).1,
          List.mem_append_right _ (List.mem_cons_of_mem _ (hw d hd).2)⟩⟩

/-- **Words with one separator between them** are the words of their line: joining words and
taking the line apart again gives them back. -/
theorem words_intercalate {c : α} (hc : sep c = true) {ws : List (List α)}
    (hws : ∀ w ∈ ws, w ≠ [] ∧ ∀ c ∈ w, sep c = false) : words sep ([c].intercalate ws) = ws := by
  induction ws with
  | nil => rfl
  | cons w ws ih =>
      obtain ⟨hne, hw⟩ := hws w List.mem_cons_self
      cases ws with
      | nil => rw [List.intercalate_singleton, words_of_word hne hw]
      | cons w' ws =>
          rw [List.intercalate_cons_cons, List.append_assoc]
          exact (words_word_append hne hw hc _).trans
            (congrArg _ (ih fun x hx => hws x (List.mem_cons_of_mem _ hx)))

/-- **The first word** of a line that begins with one goes up to the first separator. -/
theorem head?_words {c : α} {t : List α} (hhead : t.head? = some c) (hc : sep c = false) :
    (words sep t).head? = some (t.takeWhile fun c => !sep c) := by
  have htake : ∀ w : List α, (∀ c ∈ w, sep c = false) → ∀ c ∈ w, (!sep c) = true := by
    intro w hw c hc
    rw [hw c hc]
    rfl
  induction t using word_induction sep with
  | nil => cases hhead
  | separator d t hd _ =>
      obtain rfl : d = c := Option.some.inj hhead
      rw [hd] at hc
      cases hc
  | word w hne hw =>
      rw [words_of_word hne hw, List.takeWhile_eq_self_iff.mpr (htake w hw), List.head?_cons]
  | cons w d t hne hw hd _ =>
      rw [words_word_append hne hw hd, List.takeWhile_append_of_pos (htake w hw),
        List.takeWhile_cons_of_neg (by simp [hd]), List.append_nil, List.head?_cons]

end Words
