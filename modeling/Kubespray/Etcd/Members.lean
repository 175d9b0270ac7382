import Kubespray.Library.LineSearch
import Kubespray.Text

/-!
# The Member List of an Etcd Cluster

The tasks look at the membership of the cluster through the text that
`etcdctl member list` prints, one line for each member:

    id, status, name, peer URLs, client URLs, is learner

and search that text for an address with `grep`. The pattern is the bare address, so its
dots stand for any character and it may match anywhere in a line.

## Main results

* `search_of_host`, `search_of_url`: a member is found under the host of each of its URLs,
  and under any other text of a URL.
-/

namespace Kubespray.Etcd

open LineSearch

/-- A member of the cluster. One that was added and has not started has no name and no
client URLs yet. -/
structure Member where
  /-- The identifier, printed in hexadecimal. -/
  id : PlainWord
  status : Text
  name : Text
  peerURLs : List Text
  clientURLs : List Text
  isLearner : Bool

namespace Member

/-- The fields of a member in the order they are printed. -/
def fields (m : Member) : List Text :=
  [m.id.text, m.status, m.name, [','].intercalate m.peerURLs, [','].intercalate m.clientURLs,
    if m.isLearner then "true".toList else "false".toList]

/-- The line of `etcdctl member list`. -/
def line (m : Member) : Text :=
  [',', ' '].intercalate m.fields

/-- All URLs of a member. -/
def urls (m : Member) : List Text :=
  m.peerURLs ++ m.clientURLs

/-- Some URL of the member has this host. -/
def hasHost (m : Member) (address : Address) : Bool :=
  m.urls.any fun url => urlHost url = some address.text

end Member

/-- `grep` reads a character of its pattern: a dot matches any character. -/
def patternChar (p c : Char) : Bool :=
  p = '.' || p = c

/-- The pattern that `grep` makes of an address. -/
def addressPattern (address : Text) : Pattern Char :=
  address.map patternChar

/-- `etcdctl member list`. -/
def memberList (members : List Member) : List Text :=
  members.map Member.line

/-! ### What stands in a line -/

/-- Each part stands in the parts joined by a separator. -/
theorem infix_intercalate {sep x : Text} {xs : List Text} (h : x ∈ xs) :
    x <:+: sep.intercalate xs := by
  induction xs with
  | nil => cases h
  | cons y ys ih =>
      cases ys with
      | nil =>
          obtain rfl := List.mem_singleton.mp h
          simp [List.intercalate]
      | cons z zs =>
          have hcons : sep.intercalate (y :: z :: zs) =
              y ++ (sep ++ sep.intercalate (z :: zs)) := by
            simp [List.intercalate]
          rw [hcons]
          rcases List.mem_cons.mp h with rfl | h
          · exact (List.prefix_append ..).isInfix
          · exact (ih h).trans ((List.suffix_append ..).trans (List.suffix_append ..)).isInfix

/-- The line of a member contains each of its URLs. -/
theorem url_infix_line {m : Member} {url : Text} (h : url ∈ m.urls) : url <:+: m.line := by
  have hpart : ∃ part ∈ m.fields, url <:+: part := by
    rcases List.mem_append.mp h with h | h
    · exact ⟨[','].intercalate m.peerURLs, by simp [Member.fields], infix_intercalate h⟩
    · exact ⟨[','].intercalate m.clientURLs, by simp [Member.fields], infix_intercalate h⟩
  obtain ⟨part, hpart, hurl⟩ := hpart
  exact hurl.trans (infix_intercalate hpart)

/-- A character matches itself. -/
theorem patternChar_refl (c : Char) : patternChar c c = true := by
  simp [patternChar]

/-- **A member is found under the host of each of its URLs.** -/
theorem search_of_host {m : Member} {address : Address} (h : m.hasHost address = true) :
    search (addressPattern address.text) m.line = true := by
  obtain ⟨url, hurl, hhost⟩ := List.any_eq_true.mp h
  exact search_of_isInfix patternChar_refl
    ((urlHost_isInfix (of_decide_eq_true hhost)).trans (url_infix_line hurl))

/-- A member is found under any text that stands in one of its URLs. -/
theorem search_of_url {m : Member} {url text : Text} (hurl : url ∈ m.urls)
    (htext : text <:+: url) : search (addressPattern text) m.line = true :=
  search_of_isInfix patternChar_refl (htext.trans (url_infix_line hurl))

/-- The identifier is the first field of the line, as `cut -d, -f1` finds it. -/
theorem takeWhile_line (m : Member) : m.line.takeWhile (· ≠ ',') = m.id.text := by
  have hline : m.line = m.id.text ++ ',' :: ' ' :: [',', ' '].intercalate m.fields.tail := by
    simp [Member.line, Member.fields, List.intercalate]
  have hid : ∀ c ∈ m.id.text, decide (c ≠ ',') = true := by
    rintro c hc
    refine decide_eq_true ?_
    rintro rfl
    exact m.id.notMem (by decide) hc
  rw [hline, List.takeWhile_append_of_pos hid]
  simp

/-! ### Members of small clusters -/

/-- A running etcd member as the roles set it up. -/
def memberOf (id : PlainWord) (name : Text) (address : Address) : Member where
  id := id
  status := "started".toList
  name := name
  peerURLs := ["https://".toList ++ address.text ++ ":2380".toList]
  clientURLs := ["https://".toList ++ address.text ++ ":2379".toList]
  isLearner := false

end Kubespray.Etcd
