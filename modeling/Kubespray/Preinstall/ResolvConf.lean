import Kubespray.Library.LineEdit
import Kubespray.Library.LineSearch
import Kubespray.Library.Regex
import Kubespray.Text

/-!
# Taking Over `/etc/resolv.conf`

`blockinfile` writes the settings between two marker lines, in the place of the lines between
the markers when the file has both, else at its begin. Two tasks then remove the other lines
with the same keywords: one in front of the block and one behind it, both keyword by keyword.

The file is its text. The `\s` behind a keyword takes a newline, too: a line that is just a
keyword is removed together with the line behind it. Of the lines with a keyword only those
are removed that stand together with the first one, as the match begins at the marker.

## Main results

* `blockinfile_of_noMarker`, `blockinfile_block`: where the block is written.
* `sub_block`: what is removed for one keyword.
* `takenOver_iff`: when the file is taken over in one pass.
-/

namespace Kubespray.Preinstall

open LineEdit LineSearch

/-! ### The block -/

/-- `# Ansible entries BEGIN`. -/
def beginMarker : Text :=
  "# Ansible entries BEGIN".toList

/-- `# Ansible entries END`. -/
def endMarker : Text :=
  "# Ansible entries END".toList

/-- There is nothing of a block in a text. -/
def NoMarker (t : Text) : Prop :=
  ¬ beginMarker <:+: t ∧ ¬ endMarker <:+: t

instance (t : Text) : Decidable (NoMarker t) :=
  inferInstanceAs (Decidable (_ ∧ _))

/-- The values in the template of the block. -/
structure ResolvValues where
  domainentry : Text
  searchentries : Text
  nameserverentries : Text
  ndots : Text
  dnsTimeout : Option Text
  dnsAttempts : Option Text

/-- `block`. -/
def ResolvValues.block (v : ResolvValues) : Text :=
  (([v.domainentry] ++ [v.searchentries]).flatMap fun item => item ++ ['\n']) ++
    ((v.nameserverentries.splitOn ',').flatMap fun item =>
      "nameserver ".toList ++ item ++ ['\n']) ++
    ("options ndots:".toList ++ v.ndots ++ " timeout:".toList ++ v.dnsTimeout.getD "2".toList ++
      " attempts:".toList ++ v.dnsAttempts.getD "2".toList)

/-- Values without a marker: domains, addresses and numbers. -/
structure ResolvSettings extends ResolvValues where
  noMarker : NoMarker toResolvValues.block

/-- `bytes.splitlines(True)`. -/
def splitlines : Text → List Text
  | [] => []
  | c :: t =>
    if c = '\n' ∨ c = '\r' ∧ t.head? ≠ some '\n' then [c] :: splitlines t
    else consToFirst c (splitlines t)

/-- Add the terminator that is missing. -/
def terminate (t : Text) : Text :=
  if t.getLast? = some '\n' then t else t ++ ['\n']

/-- `blocklines`. -/
def blocklines (block : Text) : List Text :=
  [beginMarker ++ ['\n']] ++ splitlines (terminate block) ++ [endMarker ++ ['\n']]

/-- The number of the last line that is the given one. -/
def lastIndexOf (line : Text) : List Text → Option ℕ
  | [] => none
  | l :: ls =>
    match lastIndexOf line ls with
    | some i => some (i + 1)
    | none => if l = line then some 0 else none

/-- `blockinfile` with `state: present` and `insertbefore: BOF`. -/
def blockinfile (block content : Text) : Text :=
  let lines := splitlines content
  match lastIndexOf (beginMarker ++ ['\n']) lines, lastIndexOf (endMarker ++ ['\n']) lines with
  | some n₀, some n₁ =>
    let before := lines.take (min n₀ n₁)
    (before.dropLast ++ before.getLast?.toList.map terminate ++ blocklines block ++
      lines.drop (max n₀ n₁ + 1)).flatten
  | _, _ => (blocklines block ++ lines).flatten

/-! ### The options -/

/-- The keywords, in the order in which their lines are removed. -/
def keywords : List Text :=
  ["search".toList, "nameserver".toList, "domain".toList, "options".toList]

/-- The end of a line. -/
def isNewline (c : Char) : Bool :=
  c = '\n'

/-- `{{ item[1] }}`: a keyword with `\s`. -/
def keyword (kw : Text) : Regex Char :=
  .seq (.lit kw) (.char isSpace)

/-- `^{{ item[1] }}[^#]*(?=# Ansible entries BEGIN)`. -/
def beforeBlock (kw : Text) : Regex Char :=
  .seq (.lineStart isNewline)
    (.seq (keyword kw) (.seq (.star (.char fun c => c ≠ '#')) (.ahead (.lit beginMarker))))

/-- `(?!^{{ item[1] }}).*\n`. -/
def otherLine (kw : Text) : Regex Char :=
  .seq (.notAhead (.seq (.lineStart isNewline) (keyword kw)))
    (.seq (.star (.char fun c => !isNewline c)) (.char isNewline))

/-- `^{{ item[1] }}.*\n?`. -/
def optionLine (kw : Text) : Regex Char :=
  .seq (.lineStart isNewline)
    (.seq (keyword kw) (.seq (.star (.char fun c => !isNewline c)) (.opt (.char isNewline))))

/-- `# Ansible entries END\n(?:(?!^{{ item[1] }}).*\n)*`, the group `\1`. -/
def upToOptions (kw : Text) : Regex Char :=
  .seq (.lit (endMarker ++ ['\n'])) (.star (otherLine kw))

/-- `(?:^{{ item[1] }}.*\n?)+`. -/
def optionLines (kw : Text) : Regex Char :=
  .plus (optionLine kw)

/-- `Remove search/domain/nameserver options before block`. -/
def removeBefore (kws : List Text) (text : Text) : Text :=
  kws.foldl (fun t kw => Regex.sub .eps (beforeBlock kw) t) text

/-- `Remove search/domain/nameserver options after block`. -/
def removeAfter (kws : List Text) (text : Text) : Text :=
  kws.foldl (fun t kw => Regex.sub (upToOptions kw) (optionLines kw) t) text

/-- The three tasks. -/
def updateResolvConf (settings : ResolvSettings) (content : Text) : Text :=
  removeAfter keywords (removeBefore keywords (blockinfile settings.block content))

/-! ### Being taken over -/

/-- A text begins with a keyword and white space. -/
def begins (kw t : Text) : Bool :=
  decide (kw <+: t) && (t.drop kw.length).head?.any isSpace

/-- A line does, whatever ends it. -/
def isOptionLine (kw line : Text) : Bool :=
  begins kw (line.takeWhile (· ≠ '\n'))

/-- The block up to the marker of its end. -/
def openBlock (settings : ResolvSettings) : Text :=
  beginMarker ++ '\n' :: terminate settings.block

/-- The block with its markers. -/
def blockText (settings : ResolvSettings) : Text :=
  openBlock settings ++ (endMarker ++ ['\n'])

/-- The lines that have nothing to do with the options. -/
def otherContent (content : Text) : List Text :=
  (rawLines '\n' content).filter fun line => !keywords.any fun kw => isOptionLine kw line

/-- The file has the block and the lines without options, and stays so. -/
def TakenOver (settings : ResolvSettings) (content : Text) : Prop :=
  updateResolvConf settings content = blockText settings ++ (otherContent content).flatten ∧
    updateResolvConf settings (updateResolvConf settings content)
      = updateResolvConf settings content

/-! ### Lines with a keyword -/

variable {kw : Text}

/-- What begins with a keyword and white space. -/
theorem begins_iff {t : Text} :
    begins kw t = true ↔ ∃ c u, t = kw ++ c :: u ∧ isSpace c = true := by
  rw [begins, Bool.and_eq_true, decide_eq_true_iff]
  constructor
  · rintro ⟨⟨u, rfl⟩, h⟩
    rw [List.drop_left] at h
    cases u with
    | nil => cases h
    | cons c u => exact ⟨c, u, rfl, h⟩
  · rintro ⟨c, u, rfl, hc⟩
    refine ⟨List.prefix_append _ _, ?_⟩
    rw [List.drop_left]
    exact hc

/-- A line begins with a keyword when the text behind it does. -/
theorem begins_append (hkw : '\n' ∉ kw) {l : Text} (t : Text) :
    begins kw (l ++ '\n' :: t) = true ↔ begins kw l = true ∨ l = kw := by
  constructor
  · intro h
    obtain ⟨c, u, heq, hc⟩ := begins_iff.mp h
    rcases List.append_eq_append_iff.mp heq with ⟨v, hv, hrest⟩ | ⟨v, hv, hrest⟩
    · cases v with
      | nil =>
          rw [List.append_nil] at hv
          exact Or.inr hv.symm
      | cons d v =>
          obtain rfl : '\n' = d := (List.cons.inj hrest).1
          refine absurd ?_ hkw
          rw [hv]
          exact List.mem_append_right _ List.mem_cons_self
    · cases v with
      | nil =>
          rw [List.append_nil] at hv
          exact Or.inr hv
      | cons d v =>
          obtain rfl : c = d := (List.cons.inj hrest).1
          exact Or.inl (begins_iff.mpr ⟨c, v, hv, hc⟩)
  · rintro (h | rfl)
    · obtain ⟨c, u, rfl, hc⟩ := begins_iff.mp h
      exact begins_iff.mpr ⟨c, u ++ '\n' :: t, by rw [List.append_assoc]; rfl, hc⟩
    · exact begins_iff.mpr ⟨'\n', t, rfl, rfl⟩

/-- So it is the first line that counts. -/
theorem begins_flatten (hkw : '\n' ∉ kw) {r : Text} {rs : List Text}
    (h : RawLines '\n' (r :: rs)) : begins kw (r :: rs).flatten = begins kw r := by
  cases h with
  | last _ _ => rw [List.flatten_singleton]
  | @cons l _ hl _ =>
      rw [Bool.eq_iff_iff, List.flatten_cons, List.append_assoc, List.singleton_append,
        begins_append hkw, begins_append hkw]

/-- The lines from the first one with the keyword on. -/
theorem begins_dropWhile (hkw : '\n' ∉ kw) {rs : List Text} (h : RawLines '\n' rs)
    (hne : (rs.dropWhile fun r => !begins kw r) ≠ []) :
    begins kw (rs.dropWhile fun r => !begins kw r).flatten = true := by
  have hraw := h.sublist (List.dropWhile_sublist fun r => !begins kw r)
  have hfirst := List.head_dropWhile_not (fun r => !begins kw r) hne
  obtain ⟨r, rs', heq⟩ := List.exists_cons_of_ne_nil hne
  simp only [heq, List.head_cons, Bool.not_eq_false'] at hfirst
  rw [heq] at hraw ⊢
  rw [begins_flatten hkw hraw, hfirst]

/-- A line with a keyword, unless it is nothing else. -/
theorem isOptionLine_eq (hkw : '\n' ∉ kw) {rs : List Text} (h : RawLines '\n' rs)
    (hbare : kw ++ ['\n'] ∉ rs) : ∀ r ∈ rs, isOptionLine kw r = begins kw r := by
  have htake : ∀ l : Text, '\n' ∉ l → ∀ t, (l ++ t).takeWhile (· ≠ '\n')
      = l ++ t.takeWhile (· ≠ '\n') := fun l hl t =>
    List.takeWhile_append_of_pos fun c hc => by
      simpa using fun heq : c = '\n' => hl (heq ▸ hc)
  induction h with
  | nil => exact fun r hr => absurd hr List.not_mem_nil
  | @last l hl _ =>
      refine List.forall_mem_singleton.mpr ?_
      have heq := htake l hl []
      rw [List.append_nil, List.takeWhile_nil, List.append_nil] at heq
      rw [isOptionLine, heq]
  | @cons l rs hl _ ih =>
      obtain ⟨hne, hbare⟩ := not_or.mp (mt List.mem_cons.mpr hbare)
      refine List.forall_mem_cons.mpr ⟨?_, ih hbare⟩
      have heq := htake l hl ['\n']
      rw [List.takeWhile_cons_of_neg (by simp), List.append_nil] at heq
      have hl' : l ≠ kw := fun heq => hne (congrArg (· ++ ['\n']) heq.symm)
      rw [isOptionLine, heq, Bool.eq_iff_iff, begins_append hkw, or_iff_left hl']

/-- The keywords have no end of a line. -/
theorem notMem_keywords : ∀ kw ∈ keywords, '\n' ∉ kw := by
  decide

/-- A line that is just a keyword has no options. -/
theorem isOptionLine_keywords : ∀ kw ∈ keywords,
    (!keywords.any fun kw' => isOptionLine kw' (kw ++ ['\n'])) = true := by
  decide

/-- A line has one keyword. -/
theorem pairwise_begins :
    (keywords.map begins).Pairwise fun p q => ∀ l, p l = true → q l = false := by
  have hheads : keywords.Pairwise fun kw kw' => kw.head? ≠ kw'.head? := by decide
  have hhead : ∀ kw ∈ keywords, ∀ l, begins kw l = true → l.head? = kw.head? := by
    intro kw hkw l h
    obtain ⟨c, u, rfl, -⟩ := begins_iff.mp h
    have hne : kw ≠ [] := by
      rintro rfl
      exact absurd hkw (by decide)
    rw [List.head?_append_of_ne_nil _ hne]
  refine List.pairwise_map.mpr (hheads.imp_of_mem fun hkw hkw' hne l h => ?_)
  exact Bool.eq_false_iff.mpr fun h' => hne ((hhead _ hkw l h).symm.trans (hhead _ hkw' l h'))

/-! ### The expressions -/

section Expressions

open Regex

/-- A newline behind a position. -/
def lineBegin (t : Text) : Pos Char :=
  ⟨some '\n', t⟩

/-- A keyword that stands there. -/
theorem ends_keyword {c : Char} (hc : isSpace c = true) (b : Option Char) (u : Text) :
    ends (keyword kw) ⟨b, kw ++ c :: u⟩ = [⟨some c, u⟩] := by
  rw [keyword, ends, ends_lit_append, List.flatMap_singleton]
  exact if_pos hc

/-- And one that does not. -/
theorem ends_keyword_of_not {b : Option Char} {t : Text} (h : begins kw t = false) :
    ends (keyword kw) ⟨b, t⟩ = [] := by
  by_cases hstarts : kw <+: t
  · obtain ⟨u, rfl⟩ := hstarts
    rw [keyword, ends, ends_lit_append, List.flatMap_singleton]
    cases u with
    | nil => rfl
    | cons c u =>
        refine if_neg fun hc => ?_
        rw [begins_iff.mpr ⟨c, u, rfl, hc⟩] at h
        cases h
  · rw [keyword, ends, ends_lit_of_not_prefix hstarts, List.flatMap_nil]

/-- At the begin of a line. -/
theorem ends_lineStart (t : Text) : ends (.lineStart isNewline) (lineBegin t) = [lineBegin t] :=
  rfl

/-- The characters of a line are not its end. -/
theorem isNewline_of_notMem {l : Text} (hl : '\n' ∉ l) : ∀ c ∈ l, (!isNewline c) = true := by
  intro c hc
  have hne : c ≠ '\n' := fun heq => hl (heq ▸ hc)
  simp [isNewline, hne]

/-- A repetition does not take the end of a line. -/
theorem flatMap_line {β : Type} {f : Pos Char → List β}
    (hf : ∀ b c t, isNewline c = false → f ⟨b, c :: t⟩ = []) {l t : Text} (hl : '\n' ∉ l)
    (ht : ∀ c ∈ t.head?, c = '\n') (b : Option Char) :
    (ends (.star (.char fun c => !isNewline c)) ⟨b, l ++ t⟩).flatMap f = f (behind b l t) := by
  refine flatMap_star_char (fun b c t hc => hf b c t ?_) (isNewline_of_notMem hl) ?_ b
  · rwa [Bool.not_eq_true'] at hc
  · intro c hc
    rw [ht c hc]
    rfl

/-- What is taken of a line with its end. -/
theorem ends_restOfLine {l t : Text} (hl : '\n' ∉ l) (ht : ∀ c ∈ t.head?, c = '\n')
    (b : Option Char) :
    ends (.seq (.star (.char fun c => !isNewline c)) (.char isNewline)) ⟨b, l ++ t⟩
      = ends (.char isNewline) (behind b l t) :=
  flatMap_line (fun _ _ _ hc => if_neg (by rw [hc]; exact Bool.false_ne_true)) hl ht b

/-- **A line that is passed over** has no keyword. -/
theorem ends_otherLine {l t : Text} (hl : '\n' ∉ l) (h : begins kw (l ++ '\n' :: t) = false) :
    ends (otherLine kw) (lineBegin (l ++ '\n' :: t)) = [lineBegin t] := by
  have hnone : ends (.seq (.lineStart isNewline) (keyword kw)) (lineBegin (l ++ '\n' :: t))
      = [] := by
    rw [ends, ends_lineStart, List.flatMap_singleton]
    exact ends_keyword_of_not h
  rw [otherLine, ends, ends, hnone, List.isEmpty_nil, if_pos rfl, List.flatMap_singleton,
    lineBegin, ends_restOfLine hl (by simp)]
  rfl

/-- A line with the keyword is not. -/
theorem ends_otherLine_of_begins {t : Text} (h : begins kw t = true) :
    ends (otherLine kw) (lineBegin t) = [] := by
  obtain ⟨c, u, rfl, hc⟩ := begins_iff.mp h
  have hsome : ends (.seq (.lineStart isNewline) (keyword kw)) (lineBegin (kw ++ c :: u))
      = [⟨some c, u⟩] := by
    rw [ends, ends_lineStart, List.flatMap_singleton]
    exact ends_keyword hc _ u
  rw [otherLine, ends, ends, hsome]
  rfl

/-- Neither is the last line without its end. -/
theorem ends_otherLine_last {l : Text} (hl : '\n' ∉ l) :
    ends (otherLine kw) (lineBegin l) = [] := by
  have hrest := ends_restOfLine (t := []) hl (by simp) (some '\n')
  rw [List.append_nil] at hrest
  rw [otherLine, ends, List.flatMap_eq_nil_iff]
  intro s hs
  rw [ends] at hs
  split_ifs at hs
  · obtain rfl := List.mem_singleton.mp hs
    exact hrest
  · cases hs

/-- To pass over a line takes it. -/
theorem consumes_otherLine : Consumes (otherLine kw) :=
  .seq_right _ (.seq_right _ (consumes_char _))

/-- To remove one takes it. -/
theorem consumes_optionLine : Consumes (optionLine kw) :=
  .seq_right _ ((Consumes.seq_right _ (consumes_char _)).seq_left _)

/-- Where there is no keyword, nothing is removed. -/
theorem ends_optionLine_of_not {b : Option Char} {t : Text} (h : begins kw t = false) :
    ends (optionLine kw) ⟨b, t⟩ = [] := by
  rw [optionLine, ends, List.flatMap_eq_nil_iff]
  intro s hs
  rw [ends] at hs
  split_ifs at hs
  · obtain rfl := List.mem_singleton.mp hs
    rw [ends, ends_keyword_of_not h, List.flatMap_nil]
  · cases hs

/-- **A line that is removed** has the keyword and is removed with its end. -/
theorem head?_ends_optionLine (kw : Text) {c : Char} (hc : isSpace c = true) {w t : Text}
    (hw : '\n' ∉ w) (ht : ∀ c ∈ t.head?, c = '\n') :
    ∃ b, (ends (optionLine kw) (lineBegin (kw ++ c :: (w ++ t)))).head? = some ⟨b, t.tail⟩ ∧
      (t ≠ [] → b = some '\n') := by
  have hstar : (ends (.star (.char fun c => !isNewline c)) ⟨some c, w ++ t⟩).head?
      = some (behind (some c) w t) :=
    head?_ends_star_char (isNewline_of_notMem hw) (fun c hc => by rw [ht c hc]; rfl) (some c)
  have hstart : (ends (.lineStart isNewline) (lineBegin (kw ++ c :: (w ++ t)))).head?
      = some (lineBegin (kw ++ c :: (w ++ t))) := by rw [ends_lineStart, List.head?_cons]
  have hkeyword : (ends (keyword kw) (lineBegin (kw ++ c :: (w ++ t)))).head?
      = some ⟨some c, w ++ t⟩ := by rw [lineBegin, ends_keyword hc, List.head?_cons]
  cases t with
  | nil =>
      refine ⟨_, head?_ends_seq hstart (head?_ends_seq hkeyword (head?_ends_seq hstar rfl)), ?_⟩
      exact fun hne => absurd rfl hne
  | cons d t =>
      obtain rfl : d = '\n' := ht d rfl
      exact ⟨_, head?_ends_seq hstart (head?_ends_seq hkeyword (head?_ends_seq hstar rfl)),
        fun _ => rfl⟩

/-- Nothing begins with a keyword at the end of the text. -/
theorem begins_nil (kw : Text) : begins kw [] = false := by
  simp [begins]

/-- **The lines that are passed over** are those before the first one with the keyword. -/
theorem flatMap_otherLines {β : Type} {f : Pos Char → List β}
    (hf : ∀ t, begins kw t = false → f (lineBegin t) = []) (hkw : '\n' ∉ kw) {rs : List Text}
    (h : RawLines '\n' rs) :
    (ends (.star (otherLine kw)) (lineBegin rs.flatten)).flatMap f
      = f (lineBegin (rs.dropWhile fun r => !begins kw r).flatten) := by
  induction h with
  | nil =>
      rw [List.flatten_nil, ends_star_of_nil consumes_otherLine
        (ends_otherLine_last List.not_mem_nil), List.flatMap_singleton]
      rfl
  | @last l hl _ =>
      rw [List.flatten_singleton, ends_star_of_nil consumes_otherLine (ends_otherLine_last hl),
        List.flatMap_singleton]
      cases hbegins : begins kw l with
      | true => rw [List.dropWhile_cons_of_neg (by simp [hbegins]), List.flatten_singleton]
      | false =>
          rw [List.dropWhile_cons_of_pos (by simp [hbegins]), hf l hbegins]
          exact (hf [] (begins_nil kw)).symm
  | @cons l rs hl hrs ih =>
      have hfirst := begins_flatten hkw (RawLines.cons hl hrs)
      rw [List.flatten_cons, List.append_assoc, List.singleton_append] at hfirst ⊢
      cases hbegins : begins kw (l ++ ['\n']) with
      | true =>
          rw [hbegins] at hfirst
          rw [List.dropWhile_cons_of_neg (by simp [hbegins]),
            ends_star_of_nil consumes_otherLine (ends_otherLine_of_begins hfirst),
            List.flatMap_singleton, List.flatten_cons, List.append_assoc, List.singleton_append]
      | false =>
          rw [hbegins] at hfirst
          rw [List.dropWhile_cons_of_pos (by simp [hbegins]), ends_star consumes_otherLine,
            ends_otherLine hl hfirst, List.flatMap_singleton, List.flatMap_append,
            List.flatMap_singleton, hf _ hfirst, List.append_nil, ih]

/-- **The lines that are removed** are those up to the next one without the keyword. -/
theorem head?_ends_optionLines (hkw : '\n' ∉ kw) {rs : List Text} (h : RawLines '\n' rs)
    (hbare : kw ++ ['\n'] ∉ rs) :
    ∃ b, (ends (.star (optionLine kw)) (lineBegin rs.flatten)).head?
      = some ⟨b, (rs.dropWhile (begins kw)).flatten⟩ := by
  have hstop : ∀ b t, begins kw t = false →
      (ends (.star (optionLine kw)) ⟨b, t⟩).head? = some ⟨b, t⟩ := by
    intro b t hbegins
    rw [ends_star_of_nil consumes_optionLine (ends_optionLine_of_not hbegins), List.head?_cons]
  induction h with
  | nil => exact ⟨_, hstop _ [] (begins_nil kw)⟩
  | @last l hl _ =>
      rw [List.flatten_singleton]
      cases hbegins : begins kw l with
      | true =>
          obtain ⟨c, u, rfl, hc⟩ := begins_iff.mp hbegins
          have hu : '\n' ∉ u := fun hmem =>
            hl (List.mem_append_right _ (List.mem_cons_of_mem _ hmem))
          obtain ⟨b, hone, -⟩ := head?_ends_optionLine kw hc hu (t := []) (by simp)
          rw [List.append_nil] at hone
          refine ⟨b, ?_⟩
          rw [head?_ends_star consumes_optionLine hone, List.dropWhile_cons_of_pos hbegins]
          exact hstop b [] (begins_nil kw)
      | false =>
          rw [List.dropWhile_cons_of_neg (by simp [hbegins]), List.flatten_singleton]
          exact ⟨_, hstop _ l hbegins⟩
  | @cons l rs hl hrs ih =>
      obtain ⟨hne, hrest⟩ := not_or.mp (mt List.mem_cons.mpr hbare)
      have hl' : l ≠ kw := fun heq => hne (congrArg (· ++ ['\n']) heq.symm)
      have hfirst := begins_flatten hkw (RawLines.cons hl hrs)
      cases hbegins : begins kw (l ++ ['\n']) with
      | true =>
          obtain ⟨c, u, rfl, hc⟩ :=
            begins_iff.mp (((begins_append hkw []).mp hbegins).resolve_right hl')
          have hu : '\n' ∉ u := fun hmem =>
            hl (List.mem_append_right _ (List.mem_cons_of_mem _ hmem))
          obtain ⟨b, hone, hb⟩ :=
            head?_ends_optionLine kw hc hu (t := '\n' :: rs.flatten) (by simp)
          obtain rfl := hb (List.cons_ne_nil _ _)
          have htext : (((kw ++ c :: u) ++ ['\n']) :: rs).flatten
              = kw ++ c :: (u ++ '\n' :: rs.flatten) := by simp
          rw [htext, head?_ends_star consumes_optionLine hone, List.dropWhile_cons_of_pos hbegins]
          exact ih hrest
      | false =>
          rw [hbegins] at hfirst
          rw [List.dropWhile_cons_of_neg (by simp [hbegins])]
          exact ⟨_, hstop _ _ hfirst⟩

/-- A line with the keyword can be removed. -/
theorem ends_optionLines_ne_nil {t : Text} (h : begins kw t = true) :
    ends (optionLines kw) (lineBegin t) ≠ [] := by
  obtain ⟨c, u, rfl, hc⟩ := begins_iff.mp h
  obtain ⟨w, v, rfl, hw, hv⟩ : ∃ w v : Text, u = w ++ v ∧ '\n' ∉ w ∧ ∀ c ∈ v.head?, c = '\n' := by
    by_cases hmem : '\n' ∈ u
    · obtain ⟨w, v, hu, hw⟩ := List.eq_append_cons_of_mem hmem
      exact ⟨w, '\n' :: v, hu, hw, by simp⟩
    · exact ⟨u, [], (List.append_nil u).symm, hmem, by simp⟩
  obtain ⟨b, hone, -⟩ := head?_ends_optionLine kw hc hw hv
  intro hnil
  exact ends_star_ne_nil consumes_optionLine _
    (List.flatMap_eq_nil_iff.mp hnil _ (List.mem_of_head? hone))

/-- What stands behind the end of the block decides what is removed. -/
theorem firstMatch_endMarker (hkw : '\n' ∉ kw) {rs : List Text} (h : RawLines '\n' rs)
    (b : Option Char) :
    firstMatch (upToOptions kw) (optionLines kw) ⟨b, endMarker ++ ['\n'] ++ rs.flatten⟩
      = (ends (optionLines kw) (lineBegin (rs.dropWhile fun r => !begins kw r).flatten)).head?.map
          fun s => (lineBegin (rs.dropWhile fun r => !begins kw r).flatten, s) := by
  have hmarker : ends (upToOptions kw) ⟨b, endMarker ++ ['\n'] ++ rs.flatten⟩
      = ends (.star (otherLine kw)) (lineBegin rs.flatten) := by
    rw [upToOptions, ends, ends_lit_append, List.flatMap_singleton]
    rfl
  have hnone : ∀ t, begins kw t = false →
      ((ends (optionLines kw) (lineBegin t)).map fun s => (lineBegin t, s)) = [] := by
    intro t ht
    have hline : ends (optionLine kw) (lineBegin t) = [] := ends_optionLine_of_not ht
    rw [optionLines, plus, ends, hline, List.flatMap_nil, List.map_nil]
  rw [firstMatch, hmarker, flatMap_otherLines hnone hkw h, List.head?_map]

/-- Without the end of a block there is no match. -/
theorem firstMatch_of_not_prefix {b : Option Char} {t : Text}
    (h : ¬ endMarker ++ ['\n'] <+: t) :
    firstMatch (upToOptions kw) (optionLines kw) ⟨b, t⟩ = none := by
  rw [firstMatch, upToOptions, ends, ends_lit_of_not_prefix h]
  rfl

/-- And nothing is removed. -/
theorem subFrom_of_notInfix {n : ℕ} {s : Pos Char} (h : ¬ endMarker <:+: s.rest) :
    subFrom (upToOptions kw) (optionLines kw) n s = s.rest :=
  subFrom_of_none fun _ _ ht => firstMatch_of_not_prefix fun hstarts =>
    h (((List.prefix_append _ _).trans hstarts).isInfix.trans ht.isInfix)

end Expressions

/-! ### Writing the block -/

/-- There is nothing of a block in a text when what stands in a line of it stands in a text
without. -/
theorem NoMarker.of_infix {t t' : Text} (h : NoMarker t)
    (hline : ∀ w : Text, '\n' ∉ w → w ≠ [] → w <:+: t' → w <:+: t) : NoMarker t' :=
  ⟨fun hstands => h.1 (hline _ (by decide) (by decide) hstands),
    fun hstands => h.2 (hline _ (by decide) (by decide) hstands)⟩

/-- What is terminated has the text, and its end. -/
theorem terminate_eq (t : Text) : ∃ b, terminate t = b ++ ['\n'] ∧ b <+: t := by
  rw [terminate]
  split_ifs with h
  · obtain ⟨b, rfl⟩ := List.getLast?_eq_some_iff.mp h
    exact ⟨b, rfl, List.prefix_append _ _⟩
  · exact ⟨t, rfl, List.prefix_rfl⟩

/-- The lines of a text make it up. -/
theorem flatten_splitlines (t : Text) : (splitlines t).flatten = t := by
  induction t with
  | nil => rfl
  | cons c t ih =>
      rw [splitlines]
      split_ifs
      · rw [List.flatten_cons, ih, List.singleton_append]
      · rw [flatten_consToFirst, ih]

/-- What stands behind the end of a line are lines of their own. -/
theorem splitlines_append (u v : Text) :
    splitlines (u ++ '\n' :: v) = splitlines (u ++ ['\n']) ++ splitlines v := by
  induction u with
  | nil => rfl
  | cons c u ih =>
      have hhead : (u ++ '\n' :: v).head? = (u ++ ['\n']).head? := by cases u <;> rfl
      rw [List.cons_append, List.cons_append, splitlines, splitlines, hhead, ih]
      split_ifs
      · rw [List.cons_append]
      · cases hlines : splitlines (u ++ ['\n']) with
        | nil =>
            have hflatten := flatten_splitlines (u ++ ['\n'])
            rw [hlines] at hflatten
            exact absurd hflatten.symm (by simp)
        | cons l ls => rfl

/-- A line stands in the text. -/
theorem notMem_splitlines {m t : Text} (h : ¬ m <:+: t) : m ++ ['\n'] ∉ splitlines t := by
  intro hmem
  have hline := List.infix_of_mem_flatten hmem
  rw [flatten_splitlines] at hline
  exact h ((List.prefix_append _ _).isInfix.trans hline)

/-- A line that is not there has no number. -/
theorem lastIndexOf_of_notMem {line : Text} {lines : List Text} (h : line ∉ lines) :
    lastIndexOf line lines = none := by
  induction lines with
  | nil => rfl
  | cons l ls ih =>
      obtain ⟨hne, hls⟩ := not_or.mp (mt List.mem_cons.mpr h)
      rw [lastIndexOf, ih hls]
      exact if_neg fun heq => hne heq.symm

/-- The number of a line that does not come again. -/
theorem lastIndexOf_append {line : Text} (s : List Text) {t : List Text} (h : line ∉ t) :
    lastIndexOf line (s ++ line :: t) = some s.length := by
  induction s with
  | nil =>
      rw [List.nil_append, lastIndexOf, lastIndexOf_of_notMem h]
      exact if_pos rfl
  | cons l s ih =>
      rw [List.cons_append, lastIndexOf, ih]
      rfl

section Block

variable (settings : ResolvSettings)

/-- The lines of the block make it up. -/
theorem flatten_blocklines : (blocklines settings.block).flatten = blockText settings := by
  rw [blocklines, List.flatten_append, List.flatten_append, flatten_splitlines]
  simp [blockText, openBlock]

/-- They are its lines. -/
theorem splitlines_block (rest : Text) :
    splitlines (blockText settings ++ rest) = blocklines settings.block ++ splitlines rest := by
  obtain ⟨b, hb, -⟩ := terminate_eq settings.block
  have hbegin : splitlines (beginMarker ++ ['\n']) = [beginMarker ++ ['\n']] := by decide
  have hend : splitlines (endMarker ++ ['\n']) = [endMarker ++ ['\n']] := by decide
  have htext : blockText settings ++ rest
      = beginMarker ++ '\n' :: (b ++ '\n' :: (endMarker ++ '\n' :: rest)) := by
    simp [blockText, openBlock, hb]
  rw [htext, splitlines_append, splitlines_append b, splitlines_append endMarker, hbegin, hend,
    blocklines, hb]
  simp

variable {rest : Text}

/-- Nothing of a block is in the lines between the markers. -/
theorem noMarker_terminate : NoMarker (terminate settings.block) := by
  obtain ⟨b, hb, hstarts⟩ := terminate_eq settings.block
  refine settings.noMarker.of_infix fun w hw hne h => ?_
  rw [hb] at h
  rcases infix_append_cons hw h with h | h
  · exact h.trans hstarts.isInfix
  · exact absurd (List.infix_nil.mp h) hne

/-- **Without a block**, the block is written at the begin. -/
theorem blockinfile_of_noMarker (h : NoMarker rest) :
    blockinfile settings.block rest = blockText settings ++ rest := by
  rw [blockinfile, lastIndexOf_of_notMem (notMem_splitlines h.1),
    lastIndexOf_of_notMem (notMem_splitlines h.2)]
  dsimp only
  rw [List.flatten_append, flatten_blocklines, flatten_splitlines]

/-- **With a block**, the block is written in its place. -/
theorem blockinfile_replace (settings' : ResolvSettings) (h : NoMarker rest) :
    blockinfile settings'.block (blockText settings ++ rest) = blockText settings' ++ rest := by
  set body := splitlines (terminate settings.block) with hbody
  have hlines : splitlines (blockText settings ++ rest)
      = (beginMarker ++ ['\n']) :: (body ++ (endMarker ++ ['\n']) :: splitlines rest) := by
    rw [splitlines_block, blocklines]
    simp [hbody]
  have hbegin : lastIndexOf (beginMarker ++ ['\n']) (splitlines (blockText settings ++ rest))
      = some 0 := by
    rw [hlines]
    refine lastIndexOf_append [] fun hmem => ?_
    rcases List.mem_append.mp hmem with hmem | hmem
    · exact notMem_splitlines (noMarker_terminate settings).1 hmem
    · rcases List.mem_cons.mp hmem with heq | hmem
      · exact absurd heq (by decide)
      · exact notMem_splitlines h.1 hmem
  have hend : lastIndexOf (endMarker ++ ['\n']) (splitlines (blockText settings ++ rest))
      = some (body.length + 1) := by
    rw [hlines]
    exact lastIndexOf_append ((beginMarker ++ ['\n']) :: body) (notMem_splitlines h.2)
  rw [blockinfile, hbegin, hend]
  dsimp only
  have hdrop : (splitlines (blockText settings ++ rest)).drop (max 0 (body.length + 1) + 1)
      = splitlines rest := by
    rw [hlines, Nat.zero_max, List.drop_succ_cons, List.append_cons]
    exact List.drop_left' List.length_append
  rw [hdrop, Nat.zero_min, List.take_zero]
  simp only [List.dropLast_nil, List.getLast?_nil, Option.toList_none, List.map_nil,
    List.nil_append, List.flatten_append, flatten_blocklines, flatten_splitlines]

/-- **With the block**, it is written in its own place. -/
theorem blockinfile_block (h : NoMarker rest) :
    blockinfile settings.block (blockText settings ++ rest) = blockText settings ++ rest :=
  blockinfile_replace settings settings h

end Block

/-! ### Removing the options -/

section Remove

open Regex

variable (settings : ResolvSettings)

/-- The end of the block is not in front of it. -/
theorem endMarker_notInfix : ¬ endMarker <:+: openBlock settings := by
  intro h
  rcases infix_append_cons (by decide) h with h | h
  · exact absurd h (by decide)
  · exact (noMarker_terminate settings).2 h

/-- Nothing of it is reached into from the lines before. -/
theorem endMarker_notPrefix {t v : Text} (ht : t <:+ openBlock settings) (hne : t ≠ []) :
    ¬ endMarker <+: t ++ v := by
  intro h
  rcases List.prefix_or_prefix_of_prefix h (List.prefix_append t v) with h | h
  · exact endMarker_notInfix settings (h.isInfix.trans ht.isInfix)
  · have hnewline : '\n' ∈ t := by
      obtain ⟨b, hb, -⟩ := terminate_eq settings.block
      rw [openBlock, hb, ← List.cons_append, ← List.append_assoc] at ht
      rcases List.suffix_concat_iff.mp ht with heq | ⟨t', rfl, -⟩
      · exact absurd heq hne
      · exact List.mem_append_right _ List.mem_cons_self
    exact absurd (h.subset hnewline) (by decide)

/-- **The end of the block** stands in one place. -/
theorem eq_of_endMarker_isPrefix {t rest : Text} (hrest : ¬ endMarker <:+: rest)
    (ht : t <:+ blockText settings ++ rest) (h : endMarker ++ ['\n'] <+: t) :
    t = endMarker ++ ['\n'] ++ rest := by
  have hmarker : endMarker <+: t := (List.prefix_append _ _).trans h
  have hend : endMarker ++ ['\n'] ++ rest <:+ blockText settings ++ rest :=
    ⟨openBlock settings, (List.append_assoc ..).symm⟩
  rcases List.suffix_or_suffix_of_suffix ht hend with hsuffix | ⟨x, rfl⟩
  · have htext : endMarker ++ ['\n'] ++ rest = '#' :: (endMarker.tail ++ '\n' :: rest) := by
      rw [List.append_assoc]
      rfl
    rw [htext] at hsuffix ⊢
    rcases List.suffix_cons_iff.mp hsuffix with heq | hsuffix
    · exact heq
    · rcases infix_append_cons (by decide) (hmarker.isInfix.trans hsuffix.isInfix) with h | h
      · exact absurd h (by decide)
      · exact absurd h hrest
  · by_cases hx : x = []
    · rw [hx, List.nil_append]
    · obtain ⟨y, hy⟩ := ht
      rw [blockText, List.append_assoc (openBlock settings), ← List.append_assoc y] at hy
      have hopen : y ++ x = openBlock settings := List.append_cancel_right hy
      exact absurd hmarker (endMarker_notPrefix settings ⟨y, hopen⟩ hx)

/-- The marker of the begin is at the begin. -/
theorem beginMarker_notInfix {rest : Text} (h : NoMarker rest) :
    ¬ beginMarker <:+: (blockText settings ++ rest).tail := by
  intro hstands
  have htext : (blockText settings ++ rest).tail = beginMarker.tail ++ '\n' ::
      (terminate settings.block ++ (endMarker ++ '\n' :: rest)) := by
    rw [blockText, openBlock, List.append_assoc, List.append_assoc, List.append_assoc]
    rfl
  rw [htext] at hstands
  obtain ⟨b, hb, -⟩ := terminate_eq settings.block
  have hbody := (noMarker_terminate settings).1
  rw [hb] at hstands hbody
  rw [List.append_assoc, List.singleton_append] at hstands
  rcases infix_append_cons (by decide) hstands with hstands | hstands
  · exact absurd hstands (by decide)
  · rcases infix_append_cons (by decide) hstands with hstands | hstands
    · exact hbody (hstands.trans (List.prefix_append _ _).isInfix)
    · rcases infix_append_cons (by decide) hstands with hstands | hstands
      · exact absurd hstands (by decide)
      · exact h.1 hstands

/-- **In front of the block** nothing is removed. -/
theorem sub_beforeBlock {rest : Text} (h : NoMarker rest) (kw : Text) :
    sub .eps (beforeBlock kw) (blockText settings ++ rest) = blockText settings ++ rest := by
  refine sub_of_none fun b t ht => firstMatch_eq_none_iff.mpr ?_
  refine List.forall_mem_singleton.mpr (List.flatMap_eq_nil_iff.mpr fun s hs => ?_)
  rw [ends] at hs
  split_ifs at hs
  · obtain rfl := List.mem_singleton.mp hs
    cases hbegins : begins kw t with
    | false => rw [ends, ends_keyword_of_not hbegins, List.flatMap_nil]
    | true =>
        obtain ⟨c, u, rfl, hc⟩ := begins_iff.mp hbegins
        rw [ends, ends_keyword hc, List.flatMap_singleton, ends, List.flatMap_eq_nil_iff]
        intro s hs
        obtain ⟨x, hx⟩ := ht
        have htail : (x ++ kw ++ [c]).tail ++ u = (blockText settings ++ rest).tail := by
          rw [← hx, ← List.tail_append_of_ne_nil (by simp)]
          simp
        have hsuffix : s.rest <:+ (blockText settings ++ rest).tail :=
          (suffix_of_mem_ends hs).trans ⟨_, htail⟩
        have hnot : ¬ beginMarker <+: s.rest := fun hstarts =>
          beginMarker_notInfix settings h (hstarts.isInfix.trans hsuffix.isInfix)
        rw [ends, ends_lit_of_not_prefix hnot]
        rfl
  · cases hs

/-- Where no line has the keyword, nothing is removed. -/
theorem sub_block_of_forall (hkw : '\n' ∉ kw) {rs : List Text} (h : RawLines '\n' rs)
    (hno : NoMarker rs.flatten) (hrs : ∀ r ∈ rs, begins kw r = false) :
    sub (upToOptions kw) (optionLines kw) (blockText settings ++ rs.flatten)
      = blockText settings ++ rs.flatten := by
  refine sub_of_none fun b t ht => ?_
  by_cases hstarts : endMarker ++ ['\n'] <+: t
  · have hdrop : rs.dropWhile (fun r => !begins kw r) = [] :=
      List.dropWhile_eq_nil_iff.mpr fun r hr => by simp [hrs r hr]
    have hline : ends (optionLine kw) (lineBegin []) = [] :=
      ends_optionLine_of_not (begins_nil kw)
    rw [eq_of_endMarker_isPrefix settings hno.2 ht hstarts, firstMatch_endMarker hkw h, hdrop,
      List.flatten_nil, optionLines, plus, ends, hline]
    rfl
  · exact firstMatch_of_not_prefix hstarts

/-- What is replaced is behind the block. -/
theorem sub_block_eq (rest : Text) :
    ∃ b n, sub (upToOptions kw) (optionLines kw) (blockText settings ++ rest)
      = openBlock settings ++
        subFrom (upToOptions kw) (optionLines kw) (n + 1) ⟨b, endMarker ++ ['\n'] ++ rest⟩ := by
  have hlength : 0 < (endMarker ++ ['\n'] ++ rest).length := List.length_pos_iff.mpr (by simp)
  refine ⟨(openBlock settings).getLast?.or none, (endMarker ++ ['\n'] ++ rest).length - 1, ?_⟩
  rw [Nat.sub_add_cancel hlength, sub, blockText, List.append_assoc, List.length_append]
  refine subFrom_append none fun b t ht hne => firstMatch_of_not_prefix fun hstarts => ?_
  exact endMarker_notPrefix settings ht hne ((List.prefix_append _ _).trans hstarts)

/-- **What is removed for one keyword**: the first lines with it that stand together. -/
theorem sub_block (hkw : '\n' ∉ kw) {rs : List Text} (h : RawLines '\n' rs)
    (hno : NoMarker rs.flatten) (hbare : kw ++ ['\n'] ∉ rs) :
    sub (upToOptions kw) (optionLines kw) (blockText settings ++ rs.flatten)
      = blockText settings ++ (dropRun (begins kw) rs).flatten := by
  set skipped := rs.takeWhile fun r => !begins kw r with hskipped
  set others := rs.dropWhile fun r => !begins kw r with hothers
  have hsplit : skipped ++ others = rs := List.takeWhile_append_dropWhile
  have hrun : dropRun (begins kw) rs = skipped ++ others.dropWhile (begins kw) := rfl
  by_cases hne : others = []
  · have hall : ∀ r ∈ rs, begins kw r = false := fun r hr => by
      simpa using List.dropWhile_eq_nil_iff.mp hne r hr
    have hself : dropRun (begins kw) rs = rs := by
      rw [hrun, hne, List.dropWhile_nil, ← hne, hsplit]
    rw [sub_block_of_forall settings hkw h hno hall, hself]
  · have hraw : RawLines '\n' others := h.sublist (List.dropWhile_sublist _)
    obtain ⟨b, n, heq⟩ := sub_block_eq settings rs.flatten
    obtain ⟨b', hlast⟩ := head?_ends_optionLines hkw hraw fun hmem =>
      hbare ((List.dropWhile_sublist _).subset hmem)
    have hplus : (ends (optionLines kw) (lineBegin others.flatten)).head?
        = (ends (.star (optionLine kw)) (lineBegin others.flatten)).head? :=
      head?_ends_plus consumes_optionLine
        (ends_optionLines_ne_nil (begins_dropWhile hkw h hne))
    have hmatch := firstMatch_endMarker hkw h b
    rw [← hothers, hplus, hlast] at hmatch
    have htext : endMarker ++ ['\n'] ++ rs.flatten
        = (endMarker ++ ['\n'] ++ skipped.flatten) ++ (lineBegin others.flatten).rest := by
      rw [lineBegin, List.append_assoc _ skipped.flatten, ← List.flatten_append, hsplit]
    -- Behind the lines that are removed there is no other end of a block.
    have hrest : ¬ endMarker <:+: (others.dropWhile (begins kw)).flatten := by
      obtain ⟨x, hx⟩ : others.dropWhile (begins kw) <:+ rs :=
        (List.dropWhile_suffix _).trans (List.dropWhile_suffix _)
      have hsuffix : (others.dropWhile (begins kw)).flatten <:+ rs.flatten :=
        ⟨x.flatten, by rw [← List.flatten_append, hx]⟩
      exact fun hstands => hno.2 (hstands.trans hsuffix.isInfix)
    rw [heq, subFrom_of_match_append (by simp) hmatch htext, subFrom_of_notInfix hrest, hrun,
      List.flatten_append, blockText]
    simp only [List.append_assoc]

/-- **A line with the keyword** makes the text shorter. -/
theorem length_sub_block_lt (hkw : '\n' ∉ kw) {rs : List Text} (h : RawLines '\n' rs) {r : Text}
    (hr : r ∈ rs) (hbegins : begins kw r = true) :
    (sub (upToOptions kw) (optionLines kw) (blockText settings ++ rs.flatten)).length
      < (blockText settings ++ rs.flatten).length := by
  obtain ⟨b, n, heq⟩ := sub_block_eq settings rs.flatten
  have hne : (rs.dropWhile fun r => !begins kw r) ≠ [] := fun hnil => by
    have hnot := List.dropWhile_eq_nil_iff.mp hnil r hr
    simp [hbegins] at hnot
  have hmatch : firstMatch (upToOptions kw) (optionLines kw)
      ⟨b, endMarker ++ ['\n'] ++ rs.flatten⟩ ≠ none := by
    rw [firstMatch_endMarker hkw h, Ne, Option.map_eq_none_iff, List.head?_eq_none_iff]
    exact ends_optionLines_ne_nil (begins_dropWhile hkw h hne)
  have hlt := length_subFrom_lt (n := n) (consumes_optionLine.seq_left _) hmatch
  have htext : blockText settings ++ rs.flatten
      = openBlock settings ++ (endMarker ++ ['\n'] ++ rs.flatten) := List.append_assoc ..
  rw [heq, htext, List.length_append, List.length_append]
  exact Nat.add_lt_add_left hlt _

/-- In front of the block nothing is removed for any keyword. -/
theorem removeBefore_block {rest : Text} (h : NoMarker rest) (kws : List Text) :
    removeBefore kws (blockText settings ++ rest) = blockText settings ++ rest := by
  induction kws with
  | nil => rfl
  | cons kw kws ih =>
      rw [removeBefore, List.foldl_cons, sub_beforeBlock settings h]
      exact ih

/-- There is nothing of a block in some of the lines. -/
theorem NoMarker.sublist {rs rs' : List Text} (hno : NoMarker rs.flatten)
    (h : RawLines '\n' rs) (hsub : rs'.Sublist rs) : NoMarker rs'.flatten := by
  refine hno.of_infix fun w hw hne hstands => ?_
  obtain ⟨r, hr, hstands⟩ := (h.sublist hsub).exists_isInfix hw hne hstands
  exact hstands.trans (List.infix_of_mem_flatten (hsub.subset hr))

/-- One keyword, then the others. -/
theorem removeAfter_cons (kw : Text) (kws : List Text) (t : Text) :
    removeAfter (kw :: kws) t = removeAfter kws (sub (upToOptions kw) (optionLines kw) t) :=
  List.foldl_cons ..

/-- **Keyword by keyword**, the first lines with it that stand together are removed. -/
theorem removeAfter_block {kws : List Text} (hkws : ∀ kw ∈ kws, '\n' ∉ kw) {rs : List Text}
    (h : RawLines '\n' rs) (hno : NoMarker rs.flatten)
    (hbare : ∀ kw ∈ kws, kw ++ ['\n'] ∉ rs) :
    removeAfter kws (blockText settings ++ rs.flatten)
      = blockText settings ++ (dropRuns (kws.map begins) rs).flatten := by
  induction kws generalizing rs with
  | nil => rfl
  | cons kw kws ih =>
      obtain ⟨hkw, hkws⟩ := List.forall_mem_cons.mp hkws
      obtain ⟨hline, hbare⟩ := List.forall_mem_cons.mp hbare
      have hsub := dropRun_sublist (begins kw) rs
      rw [removeAfter_cons, sub_block settings hkw h hno hline]
      exact ih hkws (h.sublist hsub) (hno.sublist h hsub) fun kw' hkw' hmem =>
        hbare kw' hkw' (hsub.subset hmem)

/-- The text does not get longer. -/
theorem length_removeAfter_le (kws : List Text) (t : Text) :
    (removeAfter kws t).length ≤ t.length := by
  induction kws generalizing t with
  | nil => exact le_rfl
  | cons kw kws ih =>
      rw [removeAfter_cons]
      exact (ih _).trans (length_sub_le t)

/-- **Nothing is removed** when no line has a keyword. -/
theorem removeAfter_block_eq_iff {kws : List Text} (hkws : ∀ kw ∈ kws, '\n' ∉ kw)
    {rs : List Text} (h : RawLines '\n' rs) (hno : NoMarker rs.flatten) :
    removeAfter kws (blockText settings ++ rs.flatten) = blockText settings ++ rs.flatten ↔
      ∀ kw ∈ kws, ∀ r ∈ rs, begins kw r = false := by
  induction kws with
  | nil => exact iff_of_true rfl fun kw hkw => absurd hkw List.not_mem_nil
  | cons kw kws ih =>
      obtain ⟨hkw, hkws⟩ := List.forall_mem_cons.mp hkws
      rw [removeAfter_cons, List.forall_mem_cons]
      constructor
      · intro heq
        have hnone : ∀ r ∈ rs, begins kw r = false := by
          intro r hr
          refine Bool.eq_false_iff.mpr fun hbegins => ?_
          have hlt := length_sub_block_lt settings hkw h hr hbegins
          have hle := length_removeAfter_le kws (sub (upToOptions kw) (optionLines kw)
            (blockText settings ++ rs.flatten))
          rw [heq] at hle
          omega
        rw [sub_block_of_forall settings hkw h hno hnone] at heq
        exact ⟨hnone, (ih hkws).mp heq⟩
      · rintro ⟨hnone, hrest⟩
        rw [sub_block_of_forall settings hkw h hno hnone]
        exact (ih hkws).mpr hrest

/-! ### The tasks -/

/-- Without a block, the tasks write it and remove behind it. -/
theorem updateResolvConf_of_noMarker {content : Text} (h : NoMarker content) :
    updateResolvConf settings content = removeAfter keywords (blockText settings ++ content) := by
  rw [updateResolvConf, blockinfile_of_noMarker settings h, removeBefore_block settings h]

/-- With the block, they only remove. -/
theorem updateResolvConf_block {rest : Text} (h : NoMarker rest) :
    updateResolvConf settings (blockText settings ++ rest)
      = removeAfter keywords (blockText settings ++ rest) := by
  rw [updateResolvConf, blockinfile_block settings h, removeBefore_block settings h]

/-- **What the tasks make of a file** without a line that is just a keyword. -/
theorem updateResolvConf_eq {content : Text} (h : NoMarker content)
    (hbare : ∀ kw ∈ keywords, kw ++ ['\n'] ∉ rawLines '\n' content) :
    updateResolvConf settings content = blockText settings
      ++ (dropRuns (keywords.map begins) (rawLines '\n' content)).flatten := by
  have hflatten : (rawLines '\n' content).flatten = content := flatten_rawLines content
  have hno : NoMarker (rawLines '\n' content).flatten := by rwa [hflatten]
  rw [updateResolvConf_of_noMarker settings h, ← removeAfter_block settings notMem_keywords
    (rawLines_spec content) hno hbare, hflatten]

/-- The lines without options are those that the keywords do not select. -/
theorem otherContent_eq {content : Text}
    (hbare : ∀ kw ∈ keywords, kw ++ ['\n'] ∉ rawLines '\n' content) :
    otherContent content
      = (rawLines '\n' content).filter fun line => !(keywords.map begins).any fun p => p line := by
  refine List.filter_congr fun line hline => ?_
  have hsame : ∀ kw ∈ keywords, isOptionLine kw line = begins kw line := fun kw hkw =>
    isOptionLine_eq (notMem_keywords kw hkw) (rawLines_spec content) (hbare kw hkw) line hline
  rw [List.any_map, Bool.not_inj_iff, Bool.eq_iff_iff, List.any_eq_true, List.any_eq_true]
  refine exists_congr fun kw => and_congr_right fun hkw => ?_
  rw [hsame kw hkw, Function.comp_apply]

/-- **When the file is taken over in one pass**: no line is just a keyword, and the lines with
a keyword stand together once those with the keywords before it are gone. -/
theorem takenOver_iff {content : Text} (h : NoMarker content) :
    TakenOver settings content ↔
      (∀ kw ∈ keywords, kw ++ ['\n'] ∉ rawLines '\n' content) ∧
        OneRuns (keywords.map begins) (rawLines '\n' content) := by
  have hraw : RawLines '\n' (rawLines '\n' content) := rawLines_spec content
  have hsub : (otherContent content).Sublist (rawLines '\n' content) := List.filter_sublist
  have hno : NoMarker (otherContent content).flatten := by
    refine NoMarker.sublist ?_ hraw hsub
    rwa [flatten_rawLines]
  -- A second pass finds the block and the other lines.
  have hstable : updateResolvConf settings content
        = blockText settings ++ (otherContent content).flatten →
      (updateResolvConf settings (updateResolvConf settings content)
          = updateResolvConf settings content ↔
        ∀ kw ∈ keywords, ∀ r ∈ otherContent content, begins kw r = false) := by
    intro heq
    rw [heq, updateResolvConf_block settings hno]
    exact removeAfter_block_eq_iff settings notMem_keywords (hraw.sublist hsub) hno
  have hruns : (∀ kw ∈ keywords, kw ++ ['\n'] ∉ rawLines '\n' content) →
      (updateResolvConf settings content = blockText settings ++ (otherContent content).flatten ↔
        OneRuns (keywords.map begins) (rawLines '\n' content)) := by
    intro hbare
    rw [updateResolvConf_eq settings h hbare, List.append_cancel_left_eq,
      ← dropRuns_eq_filter_iff pairwise_begins, ← otherContent_eq hbare]
    refine ⟨fun heq => ?_, congrArg _⟩
    rw [← (hraw.sublist (dropRuns_sublist _ _)).rawLines_flatten, heq,
      (hraw.sublist hsub).rawLines_flatten]
  constructor
  · rintro ⟨heq, hsame⟩
    have hnone := (hstable heq).mp hsame
    have hbare : ∀ kw ∈ keywords, kw ++ ['\n'] ∉ rawLines '\n' content := by
      intro kw hkw hmem
      have hother : kw ++ ['\n'] ∈ otherContent content :=
        List.mem_filter.mpr ⟨hmem, isOptionLine_keywords kw hkw⟩
      have hbegins : begins kw (kw ++ ['\n']) = true := begins_iff.mpr ⟨'\n', [], rfl, rfl⟩
      rw [hnone kw hkw _ hother] at hbegins
      cases hbegins
    exact ⟨hbare, (hruns hbare).mp heq⟩
  · rintro ⟨hbare, hone⟩
    have heq := (hruns hbare).mpr hone
    refine ⟨heq, (hstable heq).mpr fun kw hkw r hr => ?_⟩
    rw [otherContent_eq hbare] at hr
    have hnot : (keywords.map begins).any (fun p => p r) = false := by
      simpa only [Bool.not_eq_true'] using List.of_mem_filter hr
    exact Bool.eq_false_iff.mpr (List.any_eq_false.mp hnot _ (List.mem_map_of_mem hkw))

end Remove

/-- A text without the first character of a marker. -/
theorem noMarker_of_notMem {t : Text} (h : '#' ∉ t) : NoMarker t :=
  ⟨fun hstands => h (hstands.subset (by decide)), fun hstands => h (hstands.subset (by decide))⟩

/-- The settings of a cluster with a local nameserver. -/
def clusterSettings : ResolvSettings :=
  { domainentry := "domain cluster.local".toList
    searchentries := "search default.svc.cluster.local".toList
    nameserverentries := "169.254.25.10".toList
    ndots := "2".toList
    dnsTimeout := none
    dnsAttempts := none
    noMarker := noMarker_of_notMem (by decide) }

/-- A file of a network with two nameservers. -/
theorem takenOver_network : TakenOver clusterSettings
    "search lan\nnameserver 1.1.1.1\nnameserver 8.8.8.8\nsortlist 10.0.0.0\n".toList :=
  (takenOver_iff clusterSettings (noMarker_of_notMem (by decide))).mpr
    ⟨by decide, by decide, by decide, by decide, by decide, trivial⟩

/-- A nameserver behind an option is left. -/
theorem takenOver_fails :
    NoMarker "nameserver 1.1.1.1\noptions edns0\nnameserver 8.8.8.8\n".toList ∧
      ¬ TakenOver clusterSettings
        "nameserver 1.1.1.1\noptions edns0\nnameserver 8.8.8.8\n".toList := by
  have hno : NoMarker "nameserver 1.1.1.1\noptions edns0\nnameserver 8.8.8.8\n".toList :=
    noMarker_of_notMem (by decide)
  refine ⟨hno, fun h => ?_⟩
  have heq := (updateResolvConf_eq clusterSettings hno (by decide)).symm.trans h.1
  exact absurd (List.append_cancel_left heq) (by decide)

end Kubespray.Preinstall
