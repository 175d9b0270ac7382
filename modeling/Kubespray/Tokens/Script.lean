import Kubespray.Etcd.Members
import Kubespray.Library.OrderedDict
import Kubespray.Library.Records

/-!
# The Token Script

`kube-gen-token.sh` keeps `known_tokens.csv`, one line `token,account,account` for each
account, and a file `account.token` beside it. It skips an account for which
`grep ",account,"` finds a line. The account is a pattern there: its dots stand for any
character, so that an account may be skipped for the line of another one.

The random characters of a token come from a stream. `tr` and `dd` leave letters and digits
of them.

## Main results

* `search_entryLine`: whose lines the script takes for those of an account.
* `forall_mem_foldl_accept_iff`: when no account is skipped for another one.
-/

namespace Kubespray.Tokens

open OrderedDict LineSearch

/-- The files of a token directory, by name. -/
abbrev TokenDir := OrderedDict Text Text

/-- The name of the file with all tokens. -/
def knownTokens : Text :=
  "known_tokens.csv".toList

/-- The characters that `tr` and `dd` leave of random ones. -/
structure RandomTokens where
  token : ℕ → Text
  alphanum : ∀ n, (token n).all Char.isAlphanum = true

/-- The token `a`, over and over. -/
def sameToken : RandomTokens where
  token _ := ['a']
  alphanum _ := by decide

/-- The pattern of `grep ",${account},"`, for an account without special characters other
than dots. -/
def accountPattern (account : Text) : Pattern Char :=
  (',' :: account ++ [',']).map Etcd.patternChar

/-- The line of an account. -/
def entryLine (token account : Text) : Text :=
  token ++ ',' :: account ++ ',' :: account

/-- `touch`, when the file is not there. -/
def touch (dir : TokenDir) : TokenDir :=
  match dir.get? knownTokens with
  | some _ => dir
  | none => dir.set knownTokens []

/-- The lines appended to the file and the file written for an account. -/
def addToken (token account : Text) (dir : TokenDir) : TokenDir :=
  (dir.set knownTokens
    ((dir.get? knownTokens).getD [] ++ (entryLine token account ++ ['\n']))).set
    (account ++ ".token".toList) (token ++ ['\n'])

/-- The script has a line for the account already. -/
def found (account : Text) (dir : TokenDir) : Bool :=
  grep (accountPattern account) (lines '\n' ((dir.get? knownTokens).getD [])) ≠ []

/-- One round of the loop of `kube-gen-token.sh`, on the directory and the number of tokens
drawn so far. Without the directory every write fails, and the script goes on. -/
def kubeGenToken (random : RandomTokens) (s : Option TokenDir × ℕ) (account : Text) :
    Option TokenDir × ℕ :=
  match s.1 with
  | none => (none, s.2 + 1)
  | some dir =>
    if found account (touch dir) then (some (touch dir), s.2)
    else (some (addToken (random.token s.2) account (touch dir)), s.2 + 1)

/-- The runs of the script for a list of accounts. -/
def generateTokens (random : RandomTokens) (accounts : List Text) (s : Option TokenDir × ℕ) :
    Option TokenDir × ℕ :=
  accounts.foldl (kubeGenToken random) s

/-- The account of a line: its second field. -/
def accountOf (line : Text) : Text :=
  ((line.dropWhile (· ≠ ',')).drop 1).takeWhile (· ≠ ',')

/-- The file has a line for the account. -/
def HasAccount (csv account : Text) : Prop :=
  ∃ line ∈ lines '\n' csv, accountOf line = account

instance (csv account : Text) : Decidable (HasAccount csv account) :=
  inferInstanceAs (Decidable (∃ line ∈ lines '\n' csv, _))

/-- The characters of the account names: letters, digits and `-_.:`. -/
def isAccountChar (c : Char) : Bool :=
  c.isAlphanum || c ∈ "-_.:".toList

/-- An account name without special characters. -/
def PlainAccount (account : Text) : Prop :=
  account.all isAccountChar = true

/-- The name of an account, read as a pattern, matches the name of another one. -/
def Covers (account other : Text) : Prop :=
  Matches (account.map Etcd.patternChar) other

instance (account other : Text) : Decidable (Covers account other) :=
  inferInstanceAs (Decidable (List.Forall₂ _ _ _))

/-! ### Lines -/

/-- A plain account has no comma and no line break. -/
theorem PlainAccount.notMem {account : Text} (h : PlainAccount account) {c : Char}
    (hc : isAccountChar c = false) : c ∉ account :=
  notMem_of_all h hc

/-- The account of the line of an account. -/
theorem accountOf_entryLine {token account : Text} (htoken : ',' ∉ token)
    (haccount : ',' ∉ account) : accountOf (entryLine token account) = account := by
  have hne : ∀ {t : Text}, ',' ∉ t → ∀ c ∈ t, decide (c ≠ ',') = true := by
    rintro t ht c hc
    refine decide_eq_true ?_
    rintro rfl
    exact ht hc
  rw [accountOf, entryLine, List.append_assoc, List.dropWhile_append_of_pos (hne htoken),
    List.cons_append, List.dropWhile_cons_of_neg (by simp), List.drop_one, List.tail_cons,
    List.takeWhile_append_of_pos (hne haccount), List.takeWhile_cons_of_neg (by simp),
    List.append_nil]

/-- A comma of the pattern matches a comma. -/
theorem matches_comma {t : Text} : Matches [Etcd.patternChar ','] t ↔ t = [','] := by
  constructor
  · intro h
    cases h with
    | cons hx h =>
        cases h
        simpa [Etcd.patternChar, eq_comm] using hx
  · rintro rfl
    exact List.Forall₂.cons (Etcd.patternChar_refl ',') List.Forall₂.nil

/-- The texts that the pattern of an account matches. -/
theorem matches_accountPattern {account t : Text} :
    Matches (accountPattern account) t ↔ ∃ t', t = ',' :: (t' ++ [',']) ∧ Covers account t' := by
  have hpattern : accountPattern account = [Etcd.patternChar ','] ++
      (account.map Etcd.patternChar ++ [Etcd.patternChar ',']) := by
    simp [accountPattern]
  rw [hpattern, matches_append_iff]
  constructor
  · rintro ⟨u, v, rfl, hu, hv⟩
    obtain ⟨t', w, rfl, ht', hw⟩ := matches_append_iff.mp hv
    rw [matches_comma.mp hu, matches_comma.mp hw]
    exact ⟨t', rfl, ht'⟩
  · rintro ⟨t', rfl, ht'⟩
    exact ⟨[','], t' ++ [','], rfl, matches_comma.mpr rfl,
      matches_append_iff.mpr ⟨t', [','], rfl, ht', matches_comma.mpr rfl⟩⟩

/-- Between the two commas of a line stands its account. -/
theorem eq_of_infix_entryLine {token other t : Text} (htoken : ',' ∉ token)
    (hother : ',' ∉ other) (h : ',' :: (t ++ [',']) <:+: entryLine token other) : t = other := by
  obtain ⟨u, v, heq⟩ := h
  -- the line has two commas, so there is none before, between and after those of the pattern
  have hcount := congrArg (List.count ',') heq
  simp only [entryLine, List.count_append, List.count_cons_self,
    List.count_eq_zero_of_not_mem htoken, List.count_eq_zero_of_not_mem hother] at hcount
  have hu : ',' ∉ u := List.count_eq_zero.mp (by omega)
  have ht : ',' ∉ t := List.count_eq_zero.mp (by omega)
  have hsplit : u ++ ',' :: (t ++ ',' :: v) = token ++ ',' :: (other ++ ',' :: other) := by
    simpa [entryLine] using heq
  obtain ⟨-, hrest⟩ := Records.append_cons_inj_of_notMem_left hu htoken hsplit
  exact (Records.append_cons_inj_of_notMem_left ht hother hrest).1

/-- **Whose lines the script takes for those of an account**: those of the accounts that its
name matches as a pattern. -/
theorem search_entryLine {token account other : Text} (htoken : ',' ∉ token)
    (hother : ',' ∉ other) :
    search (accountPattern account) (entryLine token other) = true ↔ Covers account other := by
  rw [search_iff]
  constructor
  · rintro ⟨t, hinfix, hmatch⟩
    obtain ⟨t', rfl, hcovers⟩ := matches_accountPattern.mp hmatch
    rwa [← eq_of_infix_entryLine htoken hother hinfix]
  · intro hcovers
    refine ⟨',' :: (other ++ [',']), ⟨token, other, ?_⟩,
      matches_accountPattern.mpr ⟨other, rfl, hcovers⟩⟩
    simp [entryLine]

/-! ### Accounts that are accepted -/

/-- An account is accepted unless it matches one that was. -/
def accept (accepted : List Text) (account : Text) : List Text :=
  if ∃ other ∈ accepted, Covers account other then accepted else accepted ++ [account]

/-- No account matches one that stands before it. -/
def Separate (accounts : List Text) : Prop :=
  accounts.Pairwise fun earlier later => ¬ Covers later earlier

instance (accounts : List Text) : Decidable (Separate accounts) :=
  inferInstanceAs (Decidable (List.Pairwise _ _))

/-- All of separate accounts are accepted. -/
theorem foldl_accept_of_separate {accounts : List Text} (h : Separate accounts) :
    accounts.foldl accept [] = accounts := by
  induction accounts using List.reverseRecOn with
  | nil => rfl
  | append_singleton accounts account ih =>
      obtain ⟨hbefore, -, hlast⟩ := List.pairwise_append.mp h
      rw [List.foldl_append, ih hbefore, List.foldl_cons, List.foldl_nil, accept, if_neg]
      rintro ⟨other, hother, hcovers⟩
      exact hlast other hother account List.mem_cons_self hcovers

/-- **All of distinct accounts are accepted** exactly when none matches an earlier one. -/
theorem forall_mem_foldl_accept_iff {accounts : List Text} (hnodup : accounts.Nodup) :
    (∀ account ∈ accounts, account ∈ accounts.foldl accept []) ↔ Separate accounts := by
  refine ⟨fun h => ?_, fun h => by rw [foldl_accept_of_separate h]; exact fun _ ha => ha⟩
  induction accounts using List.reverseRecOn with
  | nil => exact List.Pairwise.nil
  | append_singleton accounts last ih =>
      obtain ⟨hbefore, -, hfresh⟩ := List.nodup_append'.mp hnodup
      have hlast : last ∉ accounts := fun hmem => hfresh hmem List.mem_cons_self
      rw [List.foldl_append, List.foldl_cons, List.foldl_nil] at h
      have hseparate : Separate accounts := by
        refine ih hbefore fun account hmem => ?_
        have haccept := h account (List.mem_append_left _ hmem)
        rw [accept] at haccept
        split_ifs at haccept
        · exact haccept
        · refine (List.mem_append.mp haccept).resolve_right fun heq => hlast ?_
          rwa [← List.mem_singleton.mp heq]
      rw [foldl_accept_of_separate hseparate] at h
      refine List.pairwise_append.mpr ⟨hseparate, List.pairwise_singleton _ _, ?_⟩
      intro other hother account haccount hcovers
      obtain rfl := List.mem_singleton.mp haccount
      have haccept := h account (List.mem_append_right _ List.mem_cons_self)
      rw [accept, if_pos ⟨other, hother, hcovers⟩] at haccept
      exact hlast haccept

/-! ### The file -/

/-- The file of a directory, empty when it is not there. -/
def fileOf (dir : TokenDir) : Text :=
  (dir.get? knownTokens).getD []

/-- The file with the lines of some tokens and their accounts. -/
def csvOf (entries : List (Text × Text)) : Text :=
  (entries.map fun e => entryLine e.1 e.2).flatMap fun line => line ++ ['\n']

/-- The tokens are those that were drawn, and the accounts are plain. -/
def PlainEntries (entries : List (Text × Text)) : Prop :=
  ∀ e ∈ entries, e.1.all Char.isAlphanum = true ∧ PlainAccount e.2

variable {random : RandomTokens} {account : Text} {accounts : List Text}
variable {entries : List (Text × Text)} {dir dir' : TokenDir} {n n' : ℕ}

/-- The file of a token is not the file of all tokens. -/
theorem knownTokens_ne (account : Text) : knownTokens ≠ account ++ ".token".toList := by
  intro h
  have hlast := congrArg List.getLast? h
  have htoken : ".token".toList.getLast? = some 'n' := by decide
  have hknown : knownTokens.getLast? = some 'v' := by decide
  rw [List.getLast?_append, htoken, hknown, Option.some_or] at hlast
  exact absurd (Option.some.inj hlast) (by decide)

/-- After `touch` the file is there. -/
@[simp] theorem get?_touch (dir : TokenDir) :
    (touch dir).get? knownTokens = some (fileOf dir) := by
  rw [touch, fileOf]
  cases h : dir.get? knownTokens with
  | some file => exact h
  | none => exact get?_set_self _ _ _

/-- The file after a line was appended. -/
@[simp] theorem get?_addToken (token account : Text) (dir : TokenDir) :
    (addToken token account dir).get? knownTokens
      = some (fileOf dir ++ (entryLine token account ++ ['\n'])) := by
  rw [addToken, get?_set_of_ne _ _ (knownTokens_ne account), get?_set_self, fileOf]

/-- The lines of a file that the script wrote. -/
theorem lines_csvOf (h : PlainEntries entries) :
    lines '\n' (csvOf entries) = entries.map fun e => entryLine e.1 e.2 := by
  refine lines_flatMap fun line hline => ?_
  obtain ⟨e, he, rfl⟩ := List.mem_map.mp hline
  obtain ⟨htoken, haccount⟩ := h e he
  have htoken' : '\n' ∉ e.1 := notMem_of_all htoken (by decide)
  have haccount' : '\n' ∉ e.2 := haccount.notMem (by decide)
  simp [entryLine, htoken', haccount']

end Kubespray.Tokens
