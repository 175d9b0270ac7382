import Kubespray.Tokens.Script

/-!
# One Token for Each Account

`kube-gen-token.sh` appends to `known_tokens.csv` what it does not find there. It finds an
account in every line in which the name stands between two commas, and takes dots for any
character. What it appends continues the last line of the file, if that was not terminated.

## Main results

* `appended_run`: what a run of the script appends.
* `oneTokenEach_iff`: when every account has exactly one token after it.
-/

namespace Kubespray.Tokens

open OrderedDict LineSearch

/-! ### Lines of accounts -/

/-- The token of a line: its first field. -/
def tokenOf (line : Text) : Text :=
  line.takeWhile (· ≠ ',')

/-- The lines of an account. -/
def linesOf (csv account : Text) : List Text :=
  (lines '\n' csv).filter fun line => accountOf line = account

/-- A line of `known_tokens.csv`: a token, an account, its identifier, and maybe groups. -/
def IsEntry (line : Text) : Prop :=
  ∃ token account rest, ',' ∉ token ∧ ',' ∉ account ∧
    line = token ++ ',' :: (account ++ ',' :: rest)

/-- A file of tokens with at most one line for each account. Its last line may lack its
terminator. -/
structure KnownTokens (csv : Text) : Prop where
  entry : ∀ line ∈ lines '\n' csv, IsEntry line
  atMostOne : ∀ account, (linesOf csv account).length ≤ 1

/-- Some line of the file is found by the search for the account. -/
def taken (csv account : Text) : Bool :=
  (lines '\n' csv).any (search (accountPattern account))

/-- The fields of a line up to its second comma. -/
theorem fields_eq {token account rest : Text} (htoken : ',' ∉ token) (haccount : ',' ∉ account) :
    tokenOf (token ++ ',' :: (account ++ ',' :: rest)) = token ∧
      accountOf (token ++ ',' :: (account ++ ',' :: rest)) = account := by
  have hne : ∀ {t : Text}, ',' ∉ t → ∀ c ∈ t, decide (c ≠ ',') = true := by
    rintro t ht c hc
    refine decide_eq_true ?_
    rintro rfl
    exact ht hc
  have htake : ∀ {t : Text} (u : Text), ',' ∉ t → (t ++ ',' :: u).takeWhile (· ≠ ',') = t := by
    intro t u ht
    rw [List.takeWhile_append_of_pos (hne ht), List.takeWhile_cons_of_neg (by simp),
      List.append_nil]
  refine ⟨htake _ htoken, ?_⟩
  rw [accountOf, List.dropWhile_append_of_pos (hne htoken),
    List.dropWhile_cons_of_neg (by simp), List.drop_one, List.tail_cons, htake _ haccount]

/-- The line of an account, with its fields one after the other. -/
theorem entryLine_eq (token account : Text) :
    entryLine token account = token ++ ',' :: (account ++ ',' :: account) := by
  simp [entryLine]

/-- An account that has a line is found. -/
theorem taken_of_hasAccount {csv account : Text} (h : KnownTokens csv)
    (haccount : HasAccount csv account) : taken csv account = true := by
  obtain ⟨line, hline, rfl⟩ := haccount
  obtain ⟨token, account, rest, htoken, hcomma, rfl⟩ := h.entry line hline
  refine List.any_eq_true.mpr ⟨_, hline, ?_⟩
  rw [(fields_eq htoken hcomma).2]
  refine search_of_isInfix Etcd.patternChar_refl ⟨token, rest, ?_⟩
  simp

/-- The script finds an account when a line of its file is found. -/
theorem found_eq_taken (account : Text) (dir : TokenDir) :
    found account dir = taken (fileOf dir) account := by
  rw [Bool.eq_iff_iff, found, decide_eq_true_eq, grep, ne_eq, List.filter_eq_nil_iff, taken,
    List.any_eq_true]
  simp [fileOf]

/-! ### What a run appends -/

/-- The lines of a file to which the script has appended. -/
theorem lines_append_csvOf {ls : List Text} {last : Text} (hls : ∀ l ∈ ls, '\n' ∉ l)
    (hlast : '\n' ∉ last) {e : Text × Text} {es : List (Text × Text)} (h : PlainEntries (e :: es)) :
    lines '\n' ((ls.flatMap fun l => l ++ ['\n']) ++ last ++ csvOf (e :: es))
      = ls ++ (last ++ entryLine e.1 e.2) :: es.map fun e => entryLine e.1 e.2 := by
  obtain ⟨he, hes⟩ := List.forall_mem_cons.mp h
  have hfirst : '\n' ∉ last ++ entryLine e.1 e.2 := by
    have htoken : '\n' ∉ e.1 := notMem_of_all he.1 (by decide)
    have haccount : '\n' ∉ e.2 := he.2.notMem (by decide)
    simp [entryLine, hlast, htoken, haccount]
  have hcsv : last ++ csvOf (e :: es)
      = (last ++ entryLine e.1 e.2) ++ '\n' :: csvOf es := by
    simp [csvOf]
  rw [List.append_assoc, lines_flatMap_append hls, hcsv, lines_append hfirst, lines_csvOf hes]

/-- A terminated file keeps its lines. -/
theorem lines_append_csvOf_of_terminated {csv : Text} (hcsv : terminated '\n' csv = true)
    {entries : List (Text × Text)} (h : PlainEntries entries) :
    lines '\n' (csv ++ csvOf entries)
      = lines '\n' csv ++ entries.map fun e => entryLine e.1 e.2 := by
  obtain ⟨ls, last, rfl, hls, hlast⟩ := exists_lines '\n' csv
  obtain rfl := (terminated_iff hlast).mp hcsv
  rw [List.append_nil, lines_flatMap_append hls, lines_flatMap hls, lines_csvOf h]

/-- An account that was added is found. -/
theorem taken_of_mem {csv : Text} {entries : List (Text × Text)} (h : PlainEntries entries)
    {e : Text × Text} (he : e ∈ entries) : taken (csv ++ csvOf entries) e.2 = true := by
  obtain ⟨ls, last, rfl, hls, hlast⟩ := exists_lines '\n' csv
  have hfound : ∀ line, entryLine e.1 e.2 <:+: line → search (accountPattern e.2) line = true :=
    fun line hline => search_of_isInfix_of_search hline (search_of_isInfix Etcd.patternChar_refl
      ⟨e.1, e.2, by simp [entryLine]⟩)
  cases entries with
  | nil => cases he
  | cons first es =>
      rw [taken, lines_append_csvOf hls hlast h, List.any_append, List.any_cons,
        Bool.or_eq_true, Bool.or_eq_true, List.any_map, List.any_eq_true, List.any_eq_true]
      rcases List.mem_cons.mp he with rfl | hmem
      · exact Or.inr (Or.inl (hfound _ (List.suffix_append _ _).isInfix))
      · exact Or.inr (Or.inr ⟨e, hmem, hfound _ List.infix_rfl⟩)

/-- An account that was found before is found. -/
theorem taken_append {csv account : Text} (h : taken csv account = true) (t : Text) :
    taken (csv ++ t) account = true := by
  obtain ⟨line, hline, hsearch⟩ := List.any_eq_true.mp h
  obtain ⟨line', hline', hprefix⟩ := exists_prefix_lines_append hline t
  exact List.any_eq_true.mpr ⟨line', hline', search_of_isInfix_of_search hprefix.isInfix hsearch⟩

/-- What is found in a terminated file after some accounts were added. -/
theorem taken_append_csvOf_iff {csv account : Text} (hcsv : terminated '\n' csv = true)
    {entries : List (Text × Text)} (h : PlainEntries entries) :
    taken (csv ++ csvOf entries) account = true ↔
      taken csv account = true ∨ ∃ other ∈ entries.map Prod.snd, Covers account other := by
  have hsearch : ∀ e ∈ entries, search (accountPattern account) (entryLine e.1 e.2) = true ↔
      Covers account e.2 := fun e he =>
    search_entryLine (notMem_of_all (h e he).1 (by decide)) ((h e he).2.notMem (by decide))
  rw [taken, lines_append_csvOf_of_terminated hcsv h, List.any_append, Bool.or_eq_true, ← taken,
    List.any_map, List.any_eq_true]
  refine or_congr_right ?_
  simp only [List.mem_map, exists_exists_and_eq_and]
  exact exists_congr fun e => and_congr_right fun he => hsearch e he

/-- What the script has appended to a file for the accounts that it has gone through. -/
structure Appended (csv : Text) (processed : List Text) (entries : List (Text × Text))
    (dir : TokenDir) : Prop where
  file : fileOf dir = csv ++ csvOf entries
  plain : PlainEntries entries
  listed : ∀ e ∈ entries, e.2 ∈ processed
  nodup : (entries.map Prod.snd).Nodup
  missing : ∀ e ∈ entries, taken csv e.2 = false
  tokenFile : ∀ e ∈ entries, dir.get? (e.2 ++ ".token".toList) = some (e.1 ++ ['\n'])
  accepted : terminated '\n' csv = true →
    entries.map Prod.snd = (processed.filter fun a => !taken csv a).foldl accept []

/-- `touch` changes no other file. -/
theorem get?_touch_of_ne (dir : TokenDir) {name : Text} (h : name ≠ knownTokens) :
    (touch dir).get? name = dir.get? name := by
  rw [touch]
  cases dir.get? knownTokens with
  | some file => rfl
  | none => exact get?_set_of_ne _ _ h

/-- Nor what is in the file. -/
@[simp] theorem fileOf_touch (dir : TokenDir) : fileOf (touch dir) = fileOf dir := by
  rw [fileOf, get?_touch, Option.getD_some]

/-- The files of the tokens have different names. -/
theorem tokenFile_injective : Function.Injective fun account : Text => account ++ ".token".toList :=
  fun _ _ h => List.append_cancel_right h

variable {random : RandomTokens} {csv account : Text} {processed accounts : List Text}
variable {entries : List (Text × Text)} {dir : TokenDir}

/-- A round for an account that the file is found to have. -/
theorem Appended.skip (h : Appended csv processed entries dir)
    (htaken : taken (csv ++ csvOf entries) account = true) :
    Appended csv (processed ++ [account]) entries (touch dir) where
  file := (fileOf_touch dir).trans h.file
  plain := h.plain
  listed e he := List.mem_append_left _ (h.listed e he)
  nodup := h.nodup
  missing := h.missing
  tokenFile e he := (get?_touch_of_ne dir (knownTokens_ne e.2).symm).trans (h.tokenFile e he)
  accepted hcsv := by
    rw [List.filter_append, List.foldl_append, ← h.accepted hcsv]
    rcases (taken_append_csvOf_iff hcsv h.plain).mp htaken with hold | hnew
    · rw [List.filter_cons_of_neg (by simp [hold])]
      rfl
    · by_cases hold : taken csv account = true
      · rw [List.filter_cons_of_neg (by simp [hold])]
        rfl
      · rw [List.filter_cons_of_pos (by simpa using hold)]
        exact (if_pos hnew).symm

/-- A round for an account that it is not found to have. -/
theorem Appended.add (h : Appended csv processed entries dir) (haccount : PlainAccount account)
    (n : ℕ) (htaken : taken (csv ++ csvOf entries) account ≠ true) :
    Appended csv (processed ++ [account]) (entries ++ [(random.token n, account)])
      (addToken (random.token n) account (touch dir)) := by
  have hold : taken csv account = false :=
    Bool.eq_false_iff.mpr fun hold => htaken (taken_append hold _)
  have hnew : account ∉ entries.map Prod.snd := by
    intro hmem
    obtain ⟨e, he, rfl⟩ := List.mem_map.mp hmem
    exact htaken (taken_of_mem h.plain he)
  exact
    { file := by
        rw [fileOf, get?_addToken, Option.getD_some, fileOf_touch, h.file, csvOf, csvOf,
          List.map_append, List.flatMap_append, List.map_singleton, List.flatMap_singleton,
          List.append_assoc]
      plain := by
        rw [PlainEntries, List.forall_mem_append]
        exact ⟨h.plain, List.forall_mem_singleton.mpr ⟨random.alphanum n, haccount⟩⟩
      listed := by
        rw [List.forall_mem_append]
        exact ⟨fun e he => List.mem_append_left _ (h.listed e he),
          List.forall_mem_singleton.mpr (List.mem_append_right _ List.mem_cons_self)⟩
      nodup := by
        rw [List.map_append]
        exact List.nodup_append'.mpr ⟨h.nodup, List.nodup_singleton _, by simpa using hnew⟩
      missing := by
        rw [List.forall_mem_append]
        exact ⟨h.missing, List.forall_mem_singleton.mpr hold⟩
      tokenFile := by
        rw [List.forall_mem_append]
        refine ⟨fun e he => ?_, List.forall_mem_singleton.mpr ?_⟩
        · have hne : e.2 ++ ".token".toList ≠ account ++ ".token".toList := fun heq =>
            hnew (tokenFile_injective heq ▸ List.mem_map_of_mem he)
          rw [addToken, get?_set_of_ne _ _ hne, get?_set_of_ne _ _ (knownTokens_ne e.2).symm,
            get?_touch_of_ne dir (knownTokens_ne e.2).symm, h.tokenFile e he]
        · rw [addToken, get?_set_self]
      accepted := fun hcsv => by
        have huncovered : ¬ ∃ other ∈ entries.map Prod.snd, Covers account other := fun hcovers =>
          htaken ((taken_append_csvOf_iff hcsv h.plain).mpr (Or.inr hcovers))
        rw [List.filter_append, List.foldl_append, ← h.accepted hcsv,
          List.filter_cons_of_pos (by simp [hold]), List.map_append]
        exact (if_neg huncovered).symm }

/-- **One round of the script.** -/
theorem Appended.kubeGenToken (h : Appended csv processed entries dir)
    (haccount : PlainAccount account) (n : ℕ) :
    ∃ dir' n' entries', Tokens.kubeGenToken random (some dir, n) account = (some dir', n') ∧
      Appended csv (processed ++ [account]) entries' dir' := by
  have hround : Tokens.kubeGenToken random (some dir, n) account
      = if found account (touch dir) then (some (touch dir), n)
        else (some (addToken (random.token n) account (touch dir)), n + 1) := rfl
  have hfound : found account (touch dir) = taken (csv ++ csvOf entries) account := by
    rw [found_eq_taken, fileOf_touch, h.file]
  rw [hround, hfound]
  by_cases htaken : taken (csv ++ csvOf entries) account = true
  · exact ⟨touch dir, n, entries, if_pos htaken, h.skip htaken⟩
  · exact ⟨_, n + 1, _, if_neg htaken, h.add haccount n htaken⟩

/-- **What a run of the script appends.** -/
theorem appended_run (haccounts : ∀ account ∈ accounts, PlainAccount account) (dir : TokenDir)
    (n : ℕ) :
    ∃ dir' n' entries, generateTokens random accounts (some dir, n) = (some dir', n') ∧
      Appended (fileOf dir) accounts entries dir' := by
  rw [generateTokens]
  induction accounts using List.reverseRecOn with
  | nil =>
      refine ⟨dir, n, [], rfl, ?_⟩
      exact
        { file := (List.append_nil _).symm
          plain := fun e he => by cases he
          listed := fun e he => by cases he
          nodup := List.nodup_nil
          missing := fun e he => by cases he
          tokenFile := fun e he => by cases he
          accepted := fun _ => rfl }
  | append_singleton accounts account ih =>
      obtain ⟨hbefore, hlast⟩ := List.forall_mem_append.mp haccounts
      obtain ⟨dir₁, n₁, entries₁, hrun, h₁⟩ := ih hbefore
      rw [List.foldl_append, hrun]
      exact h₁.kubeGenToken (List.forall_mem_singleton.mp hlast) n₁

/-! ### Accounts that are accepted -/

/-- An account matches itself. -/
theorem covers_refl (account : Text) : Covers account account :=
  matches_map_self Etcd.patternChar_refl account

/-- Every account of the list matches one that is accepted. -/
theorem exists_covers_of_mem {accounts : List Text} {account : Text} (h : account ∈ accounts) :
    ∃ other ∈ accounts.foldl accept [], Covers account other := by
  induction accounts using List.reverseRecOn with
  | nil => cases h
  | append_singleton accounts last ih =>
      rw [List.foldl_append, List.foldl_cons, List.foldl_nil, accept]
      rcases List.mem_append.mp h with hbefore | hlast
      · obtain ⟨other, hother, hcovers⟩ := ih hbefore
        refine ⟨other, ?_, hcovers⟩
        split_ifs
        · exact hother
        · exact List.mem_append_left _ hother
      · obtain rfl := List.mem_singleton.mp hlast
        split_ifs with hcovered
        · exact hcovered
        · exact ⟨account, List.mem_append_right _ List.mem_cons_self, covers_refl account⟩

/-- An account that is listed again is not accepted again. -/
theorem foldl_accept_addKeys (accounts : List Text) :
    (addKeys [] accounts).foldl accept [] = accounts.foldl accept [] := by
  induction accounts using List.reverseRecOn with
  | nil => rfl
  | append_singleton accounts account ih =>
      have hkeys : addKeys [] (accounts ++ [account]) = addKey (addKeys [] accounts) account := by
        rw [addKeys, List.foldl_append]
        rfl
      rw [hkeys, List.foldl_append, List.foldl_cons, List.foldl_nil]
      by_cases hmem : account ∈ accounts
      · rw [addKey_of_mem (mem_addKeys.mpr (Or.inr hmem)), ih, accept,
          if_pos (exists_covers_of_mem hmem)]
      · rw [addKey_of_notMem fun h => hmem ((mem_addKeys.mp h).resolve_left List.not_mem_nil),
          List.foldl_append, ih, List.foldl_cons, List.foldl_nil]

/-- **All accounts of a list are accepted** exactly when none matches an earlier one. -/
theorem forall_mem_foldl_accept_addKeys_iff (accounts : List Text) :
    (∀ account ∈ accounts, account ∈ accounts.foldl accept []) ↔
      Separate (addKeys [] accounts) := by
  rw [← forall_mem_foldl_accept_iff (nodup_addKeys List.nodup_nil), foldl_accept_addKeys]
  refine forall_congr' fun account => imp_congr_left ?_
  rw [mem_addKeys]
  exact (or_iff_right List.not_mem_nil).symm

/-! ### One token each -/

/-- Every listed account has exactly one line, the lines of accounts that were there before
are unchanged, and each account that was added has a file with the token of its line. -/
structure HasOneEach (accounts : List Text) (dir dir' : TokenDir) : Prop where
  one : ∀ account ∈ accounts, (linesOf (fileOf dir') account).length = 1
  unchanged : ∀ account, HasAccount (fileOf dir) account →
    linesOf (fileOf dir') account = linesOf (fileOf dir) account
  tokenFile : ∀ account ∈ accounts, ¬ HasAccount (fileOf dir) account →
    ∃ line ∈ linesOf (fileOf dir') account,
      dir'.get? (account ++ ".token".toList) = some (tokenOf line ++ ['\n'])

/-- The script gives each account exactly one token. -/
def OneTokenEach (random : RandomTokens) (accounts : List Text) (dir : TokenDir) (n : ℕ) : Prop :=
  ∃ dir' n', generateTokens random accounts (some dir, n) = (some dir', n') ∧
    HasOneEach accounts dir dir'

/-- The search tells the accounts apart: an account without a line is found neither in a
line of the file nor in the line of an account that is added before it. And nothing is
appended to a line that is not terminated. -/
structure Distinguished (accounts : List Text) (csv : Text) : Prop where
  notTaken : ∀ account ∈ accounts, ¬ HasAccount csv account → taken csv account = false
  separate : Separate (addKeys [] (accounts.filter fun account => ¬ HasAccount csv account))
  terminated : terminated '\n' csv = true ∨ ∀ account ∈ accounts, HasAccount csv account

/-- An account has a line when there are lines of it. -/
theorem hasAccount_iff {csv account : Text} :
    HasAccount csv account ↔ linesOf csv account ≠ [] := by
  rw [HasAccount, linesOf, ne_eq, List.filter_eq_nil_iff]
  simp

/-- An account that has a line has one line. -/
theorem KnownTokens.length_eq_one {csv account : Text} (h : KnownTokens csv)
    (haccount : HasAccount csv account) : (linesOf csv account).length = 1 := by
  have hpos := List.length_pos_iff.mpr (hasAccount_iff.mp haccount)
  have hle := h.atMostOne account
  omega

variable {dir' : TokenDir}

/-- No account with a line is added. -/
theorem Appended.notMem_of_hasAccount (h : Appended csv processed entries dir')
    (hcsv : KnownTokens csv) {account : Text} (haccount : HasAccount csv account) :
    account ∉ entries.map Prod.snd := by
  intro hmem
  obtain ⟨e, he, rfl⟩ := List.mem_map.mp hmem
  have htaken := taken_of_hasAccount hcsv haccount
  rw [h.missing e he] at htaken
  exact Bool.false_ne_true htaken

/-- The lines of an account after a run, in a file that was terminated. -/
theorem Appended.linesOf_eq (h : Appended csv processed entries dir')
    (hcsv : LineSearch.terminated '\n' csv = true) (account : Text) :
    linesOf (fileOf dir') account
      = linesOf csv account
        ++ (entries.filter fun e => e.2 = account).map fun e => entryLine e.1 e.2 := by
  rw [linesOf, h.file, lines_append_csvOf_of_terminated hcsv h.plain, List.filter_append, linesOf,
    List.filter_map]
  congr 2
  refine List.filter_congr fun e he => ?_
  rw [Function.comp_apply, accountOf_entryLine (notMem_of_all (h.plain e he).1 (by decide))
    ((h.plain e he).2.notMem (by decide))]

/-- Of entries with different accounts one has the account. -/
theorem filter_eq_singleton {entries : List (Text × Text)} (h : (entries.map Prod.snd).Nodup)
    {e : Text × Text} (he : e ∈ entries) : (entries.filter fun x => x.2 = e.2) = [e] := by
  obtain ⟨before, after, rfl⟩ := List.append_of_mem he
  rw [List.map_append, List.map_cons, List.nodup_middle, List.nodup_cons, List.mem_append,
    not_or] at h
  have hothers : ∀ others : List (Text × Text), e.2 ∉ others.map Prod.snd →
      others.filter (fun x => x.2 = e.2) = [] := by
    intro others hno
    refine List.filter_eq_nil_iff.mpr fun x hx heq => hno ?_
    exact of_decide_eq_true heq ▸ List.mem_map_of_mem hx
  rw [List.filter_append, List.filter_cons_of_pos (by simp), hothers before h.1.1,
    hothers after h.1.2, List.nil_append]

/-- **A run on a terminated file** gives each account one token exactly when it adds all
accounts that have no line. -/
theorem hasOneEach_iff_of_terminated {dir : TokenDir} (hcsv : KnownTokens (fileOf dir))
    (hterminated : LineSearch.terminated '\n' (fileOf dir) = true)
    (h : Appended (fileOf dir) accounts entries dir') :
    HasOneEach accounts dir dir' ↔
      ∀ account ∈ accounts, ¬ HasAccount (fileOf dir) account →
        account ∈ entries.map Prod.snd := by
  have hnone : ∀ {account}, account ∉ entries.map Prod.snd →
      linesOf (fileOf dir') account = linesOf (fileOf dir) account := by
    intro account hno
    rw [h.linesOf_eq hterminated, List.filter_eq_nil_iff.mpr, List.map_nil, List.append_nil]
    intro e he heq
    exact hno (of_decide_eq_true heq ▸ List.mem_map_of_mem he)
  constructor
  · intro heach account hmem hnew
    by_contra hno
    have hone := heach.one account hmem
    rw [hnone hno, not_not.mp (hasAccount_iff.not.mp hnew)] at hone
    exact absurd hone (by decide)
  · intro hall
    have hadded : ∀ account ∈ accounts, ¬ HasAccount (fileOf dir) account →
        ∃ e ∈ entries, e.2 = account ∧
          linesOf (fileOf dir') account = [entryLine e.1 e.2] := by
      intro account hmem hnew
      obtain ⟨e, he, rfl⟩ := List.mem_map.mp (hall account hmem hnew)
      refine ⟨e, he, rfl, ?_⟩
      rw [h.linesOf_eq hterminated, not_not.mp (hasAccount_iff.not.mp hnew), List.nil_append,
        filter_eq_singleton h.nodup he, List.map_singleton]
    exact
      { one := fun account hmem => by
          by_cases hold : HasAccount (fileOf dir) account
          · rw [hnone (h.notMem_of_hasAccount hcsv hold), hcsv.length_eq_one hold]
          · obtain ⟨e, -, -, heq⟩ := hadded account hmem hold
            rw [heq]
            rfl
        unchanged := fun account hold => hnone (h.notMem_of_hasAccount hcsv hold)
        tokenFile := fun account hmem hnew => by
          obtain ⟨e, he, rfl, heq⟩ := hadded account hmem hnew
          refine ⟨entryLine e.1 e.2, heq ▸ List.mem_cons_self, ?_⟩
          rw [h.tokenFile e he, entryLine_eq,
            (fields_eq (notMem_of_all (h.plain e he).1 (by decide))
              ((h.plain e he).2.notMem (by decide))).1] }

/-- When all accounts that have no line are added. -/
theorem Appended.added_iff (h : Appended csv accounts entries dir') (hcsv : KnownTokens csv)
    (hterminated : LineSearch.terminated '\n' csv = true) :
    (∀ account ∈ accounts, ¬ HasAccount csv account → account ∈ entries.map Prod.snd) ↔
      Distinguished accounts csv := by
  have hsame : (∀ account ∈ accounts, ¬ HasAccount csv account → taken csv account = false) →
      (accounts.filter fun a => !taken csv a) = accounts.filter fun a => ¬ HasAccount csv a := by
    intro hnot
    refine List.filter_congr fun account hmem => ?_
    by_cases hold : HasAccount csv account
    · simp [taken_of_hasAccount hcsv hold, hold]
    · simp [hnot account hmem hold, hold]
  constructor
  · intro hall
    have hnot : ∀ account ∈ accounts, ¬ HasAccount csv account → taken csv account = false := by
      intro account hmem hnew
      obtain ⟨e, he, rfl⟩ := List.mem_map.mp (hall account hmem hnew)
      exact h.missing e he
    refine ⟨hnot, ?_, Or.inl hterminated⟩
    rw [← forall_mem_foldl_accept_addKeys_iff, ← hsame hnot, ← h.accepted hterminated]
    intro account hmem
    rw [hsame hnot, List.mem_filter, decide_eq_true_eq] at hmem
    exact hall account hmem.1 hmem.2
  · rintro ⟨hnot, hseparate, -⟩ account hmem hnew
    rw [h.accepted hterminated, hsame hnot]
    refine forall_mem_foldl_accept_addKeys_iff _ |>.mpr hseparate account ?_
    exact List.mem_filter.mpr ⟨hmem, decide_eq_true hnew⟩

/-- What is appended to a line that is not terminated changes the line of its account. -/
theorem Appended.changes_last {e : Text × Text} {es : List (Text × Text)}
    (h : Appended csv processed (e :: es) dir') (hcsv : KnownTokens csv)
    (hterminated : LineSearch.terminated '\n' csv = false) :
    ∃ account, HasAccount csv account ∧ linesOf (fileOf dir') account ≠ linesOf csv account := by
  obtain ⟨ls, last, rfl, hls, hlast⟩ := exists_lines '\n' csv
  have hne : last ≠ [] := fun hno =>
    Bool.false_ne_true (hterminated.symm.trans ((terminated_iff hlast).mpr hno))
  have hlines : lines '\n' ((ls.flatMap fun l => l ++ ['\n']) ++ last) = ls ++ [last] := by
    rw [lines_flatMap_append hls, lines_of_notMem hlast hne]
  have hmem : last ∈ lines '\n' ((ls.flatMap fun l => l ++ ['\n']) ++ last) := by
    rw [hlines]
    exact List.mem_append_right _ List.mem_cons_self
  obtain ⟨token, account, rest, htoken, hcomma, hentry⟩ := hcsv.entry last hmem
  have hfirst : accountOf last = account := by
    rw [hentry, (fields_eq htoken hcomma).2]
  have hlonger : accountOf (last ++ entryLine e.1 e.2) = account := by
    rw [hentry, List.append_assoc, List.cons_append, List.append_assoc, List.cons_append,
      (fields_eq htoken hcomma).2]
  refine ⟨account, ⟨last, hmem, hfirst⟩, fun heq => ?_⟩
  rw [linesOf, linesOf, h.file, lines_append_csvOf hls hlast h.plain, hlines, List.filter_append,
    List.filter_append] at heq
  simp only [List.filter_cons, hlonger, hfirst, decide_true, if_true, List.append_cancel_left_eq,
    List.cons.injEq] at heq
  exact absurd (List.append_right_eq_self.mp heq.1) (by simp [entryLine])

/-- **A run on a file that was not terminated** must not append anything. -/
theorem hasOneEach_iff_of_unterminated {dir : TokenDir} (hcsv : KnownTokens (fileOf dir))
    (hterminated : LineSearch.terminated '\n' (fileOf dir) = false)
    (h : Appended (fileOf dir) accounts entries dir') :
    HasOneEach accounts dir dir' ↔ ∀ account ∈ accounts, HasAccount (fileOf dir) account := by
  have hsame : entries = [] → fileOf dir' = fileOf dir := by
    rintro rfl
    rw [h.file]
    exact List.append_nil _
  constructor
  · intro heach account hmem
    by_contra hnew
    have hone := heach.one account hmem
    cases entries with
    | nil =>
        rw [hsame rfl, not_not.mp (hasAccount_iff.not.mp hnew)] at hone
        exact absurd hone (by decide)
    | cons e es =>
        obtain ⟨last, hlast, hne⟩ := h.changes_last hcsv hterminated
        exact hne (heach.unchanged last hlast)
  · intro hall
    have hfile : fileOf dir' = fileOf dir := by
      refine hsame (List.eq_nil_iff_forall_not_mem.mpr fun e he => ?_)
      exact h.notMem_of_hasAccount hcsv (hall _ (h.listed e he)) (List.mem_map_of_mem he)
    exact
      { one := fun account hmem => by rw [hfile, hcsv.length_eq_one (hall account hmem)]
        unchanged := fun account _ => by rw [hfile]
        tokenFile := fun account hmem hnew => absurd (hall account hmem) hnew }

/-- **When every account has exactly one token** after a run of the script. -/
theorem oneTokenEach_iff (random : RandomTokens) {accounts : List Text} {dir : TokenDir}
    (hcsv : KnownTokens (fileOf dir)) (haccounts : ∀ account ∈ accounts, PlainAccount account)
    (n : ℕ) :
    OneTokenEach random accounts dir n ↔ Distinguished accounts (fileOf dir) := by
  obtain ⟨dir', n', entries, hrun, happended⟩ := @appended_run random accounts haccounts dir n
  have hresult : OneTokenEach random accounts dir n ↔ HasOneEach accounts dir dir' := by
    constructor
    · rintro ⟨dir₁, n₁, hrun₁, heach⟩
      rw [hrun, Prod.mk.injEq, Option.some.injEq] at hrun₁
      exact hrun₁.1 ▸ heach
    · exact fun heach => ⟨dir', n', hrun, heach⟩
  rw [hresult]
  cases hterminated : LineSearch.terminated '\n' (fileOf dir) with
  | true =>
      rw [hasOneEach_iff_of_terminated hcsv hterminated happended,
        happended.added_iff hcsv hterminated]
  | false =>
      rw [hasOneEach_iff_of_unterminated hcsv hterminated happended]
      constructor
      · intro hall
        have hnone : (accounts.filter fun account => ¬ HasAccount (fileOf dir) account) = [] :=
          List.filter_eq_nil_iff.mpr fun account hmem => by simpa using hall account hmem
        exact ⟨fun account hmem hnew => absurd (hall account hmem) hnew,
          by rw [hnone]; exact List.Pairwise.nil, Or.inr hall⟩
      · intro h
        exact h.terminated.resolve_left fun hno => by rw [hterminated] at hno; cases hno

/-- A file that the script wrote has at most one line for each account. -/
theorem knownTokens_csvOf {entries : List (Text × Text)} (h : PlainEntries entries)
    (hnodup : (entries.map Prod.snd).Nodup) : KnownTokens (csvOf entries) where
  entry := by
    intro line hline
    rw [lines_csvOf h] at hline
    obtain ⟨e, he, rfl⟩ := List.mem_map.mp hline
    exact ⟨e.1, e.2, e.2, notMem_of_all (h e he).1 (by decide), (h e he).2.notMem (by decide),
      entryLine_eq e.1 e.2⟩
  atMostOne := by
    intro account
    have hlines : linesOf (csvOf entries) account
        = (entries.filter fun e => e.2 = account).map fun e => entryLine e.1 e.2 := by
      rw [linesOf, lines_csvOf h, List.filter_map]
      congr 1
      refine List.filter_congr fun e he => ?_
      rw [Function.comp_apply, accountOf_entryLine (notMem_of_all (h e he).1 (by decide))
        ((h e he).2.notMem (by decide))]
    rw [hlines, List.length_map]
    by_cases hmem : account ∈ entries.map Prod.snd
    · obtain ⟨e, he, rfl⟩ := List.mem_map.mp hmem
      rw [filter_eq_singleton hnodup he]
      exact le_rfl
    · have hnone : (entries.filter fun e => e.2 = account) = [] :=
        List.filter_eq_nil_iff.mpr fun e he heq =>
          hmem (of_decide_eq_true heq ▸ List.mem_map_of_mem he)
      rw [hnone]
      exact Nat.zero_le _

/-- A directory with the token of one account. -/
def oneToken (account : Text) : TokenDir :=
  OrderedDict.empty.set knownTokens (csvOf [("x1".toList, account)])

/-- Such a directory is in order. -/
theorem knownTokens_oneToken {account : Text} (h : PlainAccount account) :
    KnownTokens (fileOf (oneToken account)) := by
  rw [fileOf, oneToken, get?_set_self, Option.getD_some]
  exact knownTokens_csvOf (List.forall_mem_singleton.mpr ⟨rfl, h⟩) (List.nodup_singleton _)

/-- A node is added to one that has its token, and is listed twice. -/
theorem oneTokenEach_nodes :
    OneTokenEach sameToken
      ["system:kubelet-node1".toList, "system:kubelet-node2".toList,
        "system:kubelet-node2".toList] (oneToken "system:kubelet-node1".toList) 0 := by
  have hplain : ∀ account ∈ ["system:kubelet-node1".toList, "system:kubelet-node2".toList,
      "system:kubelet-node2".toList], account.all isAccountChar = true := by decide
  refine (oneTokenEach_iff _ (knownTokens_oneToken (hplain _ List.mem_cons_self)) hplain 0).mpr ?_
  exact ⟨by decide +kernel, by decide +kernel, Or.inl (by decide +kernel)⟩

/-- The account of `node.1` is skipped for the line of `node-1`. -/
theorem oneTokenEach_fails :
    ¬ ∀ (random : RandomTokens) (accounts : List Text) (dir : TokenDir) (n : ℕ),
      KnownTokens (fileOf dir) → (∀ account ∈ accounts, PlainAccount account) →
        OneTokenEach random accounts dir n := by
  intro h
  have hold : PlainAccount "system:kubelet-node-1".toList := by rw [PlainAccount]; decide
  have hnew : PlainAccount "system:kubelet-node.1".toList := by rw [PlainAccount]; decide
  obtain ⟨dir', n', hrun, heach⟩ := h sameToken ["system:kubelet-node.1".toList]
    (oneToken "system:kubelet-node-1".toList) 0 (knownTokens_oneToken hold)
    (List.forall_mem_singleton.mpr hnew)
  have hdir : dir' = (generateTokens sameToken ["system:kubelet-node.1".toList]
      (some (oneToken "system:kubelet-node-1".toList), 0)).1.getD OrderedDict.empty := by
    rw [hrun, Option.getD_some]
  have hone := heach.one _ List.mem_cons_self
  rw [hdir] at hone
  exact absurd hone (by decide +kernel)

end Kubespray.Tokens
