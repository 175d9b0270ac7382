import Mathlib.Data.List.Infix

/-!
# Texts

The texts that the scripts and the templates of the repository handle, and the two kinds
of text whose characters matter to them: addresses, which are handed to `grep` as
patterns and printed into URLs, and URLs, which have a host.

## Main results

* `urlHost_isInfix`: the host of a URL stands in the URL.
-/

namespace Kubespray

/-- A Python `str`, as its code points. -/
abbrev Text := List Char

/-- Texts are compared by their characters. -/
instance : LawfulBEq Text := inferInstance

/-- `str.isspace`: the characters that `str.strip` removes. -/
def isSpace (c : Char) : Bool :=
  let n := c.toNat
  (9 ≤ n && n ≤ 13) || (28 ≤ n && n ≤ 32) || n == 0x85 || n == 0xa0 || n == 0x1680 ||
    (0x2000 ≤ n && n ≤ 0x200a) || n == 0x2028 || n == 0x2029 || n == 0x202f ||
    n == 0x205f || n == 0x3000

/-- The blanks that separate the words of a line. -/
def isBlank (c : Char) : Bool :=
  c = ' ' || c = '\t'

/-- `str.strip`, and Jinja's `trim`. -/
def strip (t : Text) : Text :=
  ((t.dropWhile isSpace).reverse.dropWhile isSpace).reverse

/-- The white space around a text that neither begins nor ends with any. -/
theorem strip_append {lead core trail : Text} (hlead : ∀ c ∈ lead, isSpace c = true)
    (htrail : ∀ c ∈ trail, isSpace c = true) {c d : Char} (hhead : core.head? = some c)
    (hc : isSpace c = false) (hlast : core.getLast? = some d) (hd : isSpace d = false) :
    strip (lead ++ core ++ trail) = core := by
  obtain ⟨rest, rfl⟩ := List.head?_eq_some_iff.mp hhead
  obtain ⟨init, hinit⟩ := List.getLast?_eq_some_iff.mp hlast
  have hdrop : ((lead ++ c :: rest ++ trail).dropWhile isSpace) = c :: rest ++ trail := by
    rw [List.append_assoc, List.dropWhile_append_of_pos hlead, List.cons_append,
      List.dropWhile_cons_of_neg (by simp [hc])]
  have hreverse : ∀ x ∈ trail.reverse, isSpace x = true := fun x hx =>
    htrail x (List.mem_reverse.mp hx)
  rw [strip, hdrop, List.reverse_append, List.dropWhile_append_of_pos hreverse, hinit,
    List.reverse_concat, List.dropWhile_cons_of_neg (by simp [hd]), ← List.reverse_concat,
    List.reverse_reverse]

/-- A text that is joined from parts consists of them and of separators. -/
theorem mem_intercalate_singleton {sep c : Char} {ls : List Text}
    (h : c ∈ [sep].intercalate ls) : c = sep ∨ ∃ l ∈ ls, c ∈ l := by
  induction ls with
  | nil => cases h
  | cons l ls ih =>
      cases ls with
      | nil =>
          rw [List.intercalate_singleton] at h
          exact Or.inr ⟨l, List.mem_cons_self, h⟩
      | cons next ls =>
          rw [List.intercalate_cons_cons, List.mem_append, List.mem_append,
            List.mem_singleton] at h
          rcases h with (hl | hsep) | hrest
          · exact Or.inr ⟨l, List.mem_cons_self, hl⟩
          · exact Or.inl hsep
          · rcases ih hrest with hsep | ⟨l', hl', hc⟩
            · exact Or.inl hsep
            · exact Or.inr ⟨l', List.mem_cons_of_mem l hl', hc⟩

/-- The parts of a text between separators have no separator, and their characters are those
of the text. -/
theorem spec_of_mem_splitOn {sep : Char} {t part : Text} (h : part ∈ t.splitOn sep) :
    sep ∉ part ∧ part ⊆ t := by
  induction t generalizing part with
  | nil =>
      rw [List.splitOn_nil, List.mem_singleton] at h
      rw [h]
      exact ⟨List.not_mem_nil, List.Subset.refl []⟩
  | cons c t ih =>
      rw [List.splitOn_cons_eq_if_modifyHead] at h
      split_ifs at h with hsep
      · rcases List.mem_cons.mp h with rfl | h
        · exact ⟨List.not_mem_nil, List.nil_subset _⟩
        · exact ⟨(ih h).1, List.subset_cons_of_subset c (ih h).2⟩
      · cases hparts : t.splitOn sep with
        | nil => exact absurd hparts (List.splitOn_ne_nil sep t)
        | cons first parts =>
            rw [hparts] at h ih
            rcases List.mem_cons.mp h with rfl | h
            · obtain ⟨hno, hsub⟩ := ih List.mem_cons_self
              refine ⟨fun hmem => ?_, List.cons_subset_cons c hsub⟩
              rcases List.mem_cons.mp hmem with rfl | hmem
              · exact hsep (beq_self_eq_true sep)
              · exact hno hmem
            · obtain ⟨hno, hsub⟩ := ih (List.mem_cons_of_mem first h)
              exact ⟨hno, List.subset_cons_of_subset c hsub⟩

/-- A text of some characters has none of the others. -/
theorem notMem_of_all {p : Char → Bool} {t : Text} (ht : t.all p = true) {c : Char}
    (hc : p c = false) : c ∉ t := by
  intro hmem
  rw [List.all_eq_true.mp ht c hmem] at hc
  cases hc

/-! ### Plain words -/

/-- The characters of addresses and of hexadecimal identifiers. -/
def isPlain (c : Char) : Bool :=
  c.isAlphanum || c = '.' || c = ':'

/-- A word of letters, digits, dots and colons: an IPv4 or IPv6 address, or a hexadecimal
identifier. -/
@[ext]
structure PlainWord where
  text : Text
  ne_nil : text ≠ []
  plain : text.all isPlain = true
  deriving DecidableEq

/-- An IPv4 or IPv6 address, in the text form the inventory gives. -/
abbrev Address := PlainWord

/-- A plain word has none of the other characters. -/
theorem PlainWord.notMem (w : PlainWord) {c : Char} (h : isPlain c = false) : c ∉ w.text :=
  notMem_of_all w.plain h

/-! ### Numerals -/

/-- Decimal numerals of different numbers differ. -/
theorem toDigits_injective : Function.Injective (Nat.toDigits 10) := by
  intro m n h
  rw [← Nat.ofDigitChars_ten_toDigits (n := m), h, Nat.ofDigitChars_ten_toDigits]

/-! ### URLs -/

/-- What follows the scheme of a URL. -/
def afterScheme (url : Text) : Option Text :=
  if "https://".toList <+: url then some (url.drop 8)
  else if "http://".toList <+: url then some (url.drop 7)
  else none

/-- The host of a URL: what stands between the scheme and the port, without the brackets
of an IPv6 literal. -/
def urlHost (url : Text) : Option Text :=
  (afterScheme url).map fun rest =>
    match rest.takeWhile (· ≠ '/') with
    | '[' :: literal => literal.takeWhile (· ≠ ']')
    | authority => authority.takeWhile (· ≠ ':')

/-- A URL contains what follows its scheme. -/
theorem afterScheme_suffix {url rest : Text} (h : afterScheme url = some rest) :
    rest <:+ url := by
  rw [afterScheme] at h
  split_ifs at h <;> cases h <;> exact List.drop_suffix ..

/-- **The host of a URL stands in the URL.** -/
theorem urlHost_isInfix {url host : Text} (h : urlHost url = some host) : host <:+: url := by
  obtain ⟨rest, hrest, h⟩ := Option.map_eq_some_iff.mp h
  have hauthority : rest.takeWhile (· ≠ '/') <:+: url :=
    (List.takeWhile_prefix _).isInfix.trans (afterScheme_suffix hrest).isInfix
  split at h
  · rename_i literal heq
    subst h
    rw [heq] at hauthority
    exact (List.takeWhile_prefix _).isInfix.trans
      ((List.suffix_cons '[' literal).isInfix.trans hauthority)
  · subst h
    exact (List.takeWhile_prefix _).isInfix.trans hauthority

end Kubespray
