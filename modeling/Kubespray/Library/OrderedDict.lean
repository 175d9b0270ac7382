import Mathlib.Data.List.Nodup
import Mathlib.Data.Finset.Card
import Mathlib.Data.Finset.Dedup

/-!
# Insertion-Ordered Dictionaries

A dictionary that remembers the order in which its keys were first inserted: a key
that is assigned again keeps its position, a new key goes to the end, and a key that
is deleted and inserted again moves to the end. Uniqueness of the keys is a field of
the structure, so every operation returns a dictionary and no later proof has to carry
it along.

The order of the keys of a dictionary under assignment is itself a list operation,
`addKey`, and under a loop of assignments its fold `addKeys`; most facts about role
membership are facts about `addKeys` and about `List.filter`.

## Main results

* `keys_set`, `get?_set_self`, `get?_set_of_ne`: assignment, on keys and on values.
* `keys_erase`, `get?_erase_of_ne`: deletion.
* `keys_retain`: the loop that deletes every key failing a test keeps exactly the keys
  passing it, in order.
* `get?_overlay`, `keys_overlay`: copying one dictionary over another, entry by entry.
* `ext_of_get?`: the keys and the values under them determine a dictionary.
* `length_addKeys`: how many keys there are after a loop of assignments.
-/

universe u v

/-- A dictionary with entries in insertion order and pairwise distinct keys. -/
structure OrderedDict (α : Type u) (β : Type v) where
  /-- The entries, oldest key first. -/
  entries : List (α × β)
  /-- No key occurs twice. -/
  nodup_keys : (entries.map Prod.fst).Nodup

namespace OrderedDict

variable {α : Type u} {β : Type v}

/-! ### Growing a list of keys -/

section AddKey

variable [DecidableEq α]

/-- The keys after an assignment to `k`: a known key stays where it is, a new key goes
to the end. -/
def addKey (ks : List α) (k : α) : List α :=
  if k ∈ ks then ks else ks ++ [k]

/-- The keys after a loop of assignments. -/
def addKeys (ks hs : List α) : List α :=
  hs.foldl addKey ks

/-- Assignment to a known key leaves the keys alone. -/
theorem addKey_of_mem {ks : List α} {k : α} (h : k ∈ ks) : addKey ks k = ks :=
  if_pos h

/-- Assignment to a new key appends it. -/
theorem addKey_of_notMem {ks : List α} {k : α} (h : k ∉ ks) : addKey ks k = ks ++ [k] :=
  if_neg h

@[simp] theorem addKeys_nil (ks : List α) : addKeys ks [] = ks := rfl

@[simp] theorem addKeys_cons (ks : List α) (h : α) (hs : List α) :
    addKeys ks (h :: hs) = addKeys (addKey ks h) hs := rfl

/-- An assignment adds to the keys at the end. -/
theorem prefix_addKey (ks : List α) (k : α) : ks <+: addKey ks k := by
  by_cases h : k ∈ ks
  · rw [addKey_of_mem h]
  · rw [addKey_of_notMem h]
    exact List.prefix_append _ _

/-- Membership after one assignment. -/
@[simp] theorem mem_addKey {ks : List α} {k a : α} : a ∈ addKey ks k ↔ a ∈ ks ∨ a = k := by
  by_cases h : k ∈ ks
  · rw [addKey_of_mem h]
    refine ⟨Or.inl, fun ha => ha.elim id fun hak => ?_⟩
    rwa [hak]
  · rw [addKey_of_notMem h, List.mem_append, List.mem_singleton]

/-- Membership after a loop of assignments. -/
@[simp] theorem mem_addKeys {ks hs : List α} {a : α} :
    a ∈ addKeys ks hs ↔ a ∈ ks ∨ a ∈ hs := by
  induction hs generalizing ks with
  | nil => simp
  | cons h hs ih =>
      rw [addKeys_cons, ih, mem_addKey, List.mem_cons]
      tauto

/-- One assignment keeps the keys distinct. -/
theorem nodup_addKey {ks : List α} {k : α} (h : ks.Nodup) : (addKey ks k).Nodup := by
  by_cases hk : k ∈ ks
  · rwa [addKey_of_mem hk]
  · rw [addKey_of_notMem hk]
    exact List.nodup_append'.mpr ⟨h, List.nodup_singleton k, by simpa using hk⟩

/-- A loop of assignments keeps the keys distinct. -/
theorem nodup_addKeys {ks hs : List α} (h : ks.Nodup) : (addKeys ks hs).Nodup := by
  induction hs generalizing ks with
  | nil => exact h
  | cons k hs ih => exact ih (nodup_addKey h)

/-- A loop over distinct new keys appends them in order. -/
theorem addKeys_append_of_disjoint {ks hs : List α} (hnd : hs.Nodup)
    (hdisj : ∀ a ∈ hs, a ∉ ks) : addKeys ks hs = ks ++ hs := by
  induction hs generalizing ks with
  | nil => simp
  | cons k hs ih =>
      have hk : k ∉ ks := hdisj k List.mem_cons_self
      rw [List.nodup_cons] at hnd
      rw [addKeys_cons, addKey_of_notMem hk, ih hnd.2, List.append_assoc, List.singleton_append]
      intro a ha hmem
      rcases List.mem_append.mp hmem with hks | hak
      · exact hdisj a (List.mem_cons_of_mem k ha) hks
      · obtain rfl := List.mem_singleton.mp hak
        exact hnd.1 ha

/-- A loop over known keys leaves the keys alone. -/
theorem addKeys_of_subset {ks hs : List α} (h : ∀ a ∈ hs, a ∈ ks) : addKeys ks hs = ks := by
  induction hs with
  | nil => rfl
  | cons k hs ih =>
      rw [addKeys_cons, addKey_of_mem (h k List.mem_cons_self)]
      exact ih fun a ha => h a (List.mem_cons_of_mem k ha)

/-- A loop over distinct keys that begins with the known ones ends with the looped keys. -/
theorem addKeys_of_prefix {ks hs : List α} (hnd : hs.Nodup) (h : ks <+: hs) :
    addKeys ks hs = hs := by
  obtain ⟨new, rfl⟩ := h
  obtain ⟨-, hnew, hdisj⟩ := List.nodup_append'.mp hnd
  rw [addKeys, List.foldl_append]
  have hknown : ks.foldl addKey ks = ks := addKeys_of_subset fun a ha => ha
  rw [hknown]
  exact addKeys_append_of_disjoint hnew fun a ha hks => hdisj hks ha

/-- Starting from nothing, a loop over distinct keys inserts them in order. -/
theorem addKeys_nil_left {hs : List α} (hnd : hs.Nodup) : addKeys [] hs = hs := by
  rw [addKeys_append_of_disjoint hnd fun a _ => List.not_mem_nil, List.nil_append]

/-- **Counting**: after a loop over distinct keys there are the looped keys and, besides
them, the old keys that the loop did not touch. -/
theorem length_addKeys {ks hs : List α} (hks : ks.Nodup) (hhs : hs.Nodup) :
    (addKeys ks hs).length = (ks.filter (· ∉ hs)).length + hs.length := by
  have hset : (addKeys ks hs).toFinset = (ks.filter (· ∉ hs)).toFinset ∪ hs.toFinset := by
    ext a
    simp only [List.mem_toFinset, mem_addKeys, Finset.mem_union, List.mem_filter,
      decide_eq_true_eq]
    tauto
  have hdisj : Disjoint (ks.filter (· ∉ hs)).toFinset hs.toFinset := by
    rw [Finset.disjoint_left]
    intro a ha
    have := (List.mem_filter.mp (List.mem_toFinset.mp ha)).2
    simpa using this
  calc (addKeys ks hs).length
      = (addKeys ks hs).toFinset.card :=
        (List.toFinset_card_of_nodup (nodup_addKeys hks)).symm
    _ = ((ks.filter (· ∉ hs)).toFinset ∪ hs.toFinset).card := by rw [hset]
    _ = (ks.filter (· ∉ hs)).toFinset.card + hs.toFinset.card :=
        Finset.card_union_of_disjoint hdisj
    _ = (ks.filter (· ∉ hs)).length + hs.length := by
        rw [List.toFinset_card_of_nodup (hks.filter _), List.toFinset_card_of_nodup hhs]

end AddKey

/-! ### Keys and look-up -/

/-- The keys, in insertion order. -/
def keys (d : OrderedDict α β) : List α :=
  d.entries.map Prod.fst

/-- The dictionary without entries. -/
def empty : OrderedDict α β :=
  ⟨[], List.nodup_nil⟩

@[simp] theorem keys_empty : (empty : OrderedDict α β).keys = [] := rfl

/-- The keys are pairwise distinct. -/
theorem keys_nodup (d : OrderedDict α β) : d.keys.Nodup :=
  d.nodup_keys

/-- An entry's key is one of the keys. -/
theorem mem_keys_of_mem_entries {d : OrderedDict α β} {e : α × β} (h : e ∈ d.entries) :
    e.1 ∈ d.keys :=
  List.mem_map_of_mem h

variable [DecidableEq α]

/-- The value stored under a key. -/
def get? (d : OrderedDict α β) (k : α) : Option β :=
  (d.entries.find? fun e => e.1 = k).map Prod.snd

@[simp] theorem get?_empty (k : α) : (empty : OrderedDict α β).get? k = none := rfl

/-- A key without a value is not a key. -/
theorem get?_eq_none_iff {d : OrderedDict α β} {k : α} : d.get? k = none ↔ k ∉ d.keys := by
  rw [get?, Option.map_eq_none_iff, List.find?_eq_none, keys, List.mem_map]
  constructor
  · rintro h ⟨e, he, rfl⟩
    exact h e he (by simp)
  · intro h e he hk
    exact h ⟨e, he, by simpa using hk⟩

/-- Exactly the keys have values. -/
theorem mem_keys_iff {d : OrderedDict α β} {k : α} : k ∈ d.keys ↔ ∃ v, d.get? k = some v := by
  rw [← Option.ne_none_iff_exists', ne_eq, get?_eq_none_iff, not_not]

/-- A stored value belongs to an entry. -/
theorem mem_entries_of_get? {d : OrderedDict α β} {k : α} {v : β} (h : d.get? k = some v) :
    (k, v) ∈ d.entries := by
  obtain ⟨e, he, rfl⟩ := Option.map_eq_some_iff.mp h
  have hk : e.1 = k := by simpa using List.find?_some he
  have hmem := List.mem_of_find?_eq_some he
  rwa [← hk]

/-- An entry is what look-up of its key finds. -/
theorem get?_of_mem_entries {d : OrderedDict α β} {k : α} {v : β} (h : (k, v) ∈ d.entries) :
    d.get? k = some v := by
  obtain ⟨v', hv'⟩ := mem_keys_iff.mp (mem_keys_of_mem_entries h)
  have hmem := mem_entries_of_get? hv'
  have heq : (k, v') = (k, v) := List.inj_on_of_nodup_map d.nodup_keys hmem h rfl
  rw [hv', (Prod.mk.inj heq).2]

/-- A statement about all stored values is one about the entries. -/
theorem forall_get?_iff {d : OrderedDict α β} {P : α → β → Prop} :
    (∀ k, ∀ v ∈ d.get? k, P k v) ↔ ∀ e ∈ d.entries, P e.1 e.2 :=
  ⟨fun h e he => h e.1 e.2 (get?_of_mem_entries he), fun h _ _ hv => h _ (mem_entries_of_get? hv)⟩

/-- **Extensionality**: dictionaries with the same keys in the same order and the same
values under them are equal. -/
theorem ext_of_get? {d e : OrderedDict α β} (hkeys : d.keys = e.keys)
    (h : ∀ k ∈ d.keys, d.get? k = e.get? k) : d = e := by
  have hlength : d.entries.length = e.entries.length := by
    have hmap := congrArg List.length hkeys
    rwa [keys, keys, List.length_map, List.length_map] at hmap
  have hentries : d.entries = e.entries := by
    refine List.ext_getElem hlength fun i hi hi' => ?_
    have hkey : (d.entries[i]).1 = (e.entries[i]).1 := by
      have hget := List.getElem_of_eq hkeys (i := i) (by rwa [keys, List.length_map])
      simpa only [keys, List.getElem_map] using hget
    have hd : d.get? (d.entries[i]).1 = some (d.entries[i]).2 :=
      get?_of_mem_entries (List.getElem_mem hi)
    have he : e.get? (e.entries[i]).1 = some (e.entries[i]).2 :=
      get?_of_mem_entries (List.getElem_mem hi')
    rw [h _ (mem_keys_of_mem_entries (List.getElem_mem hi)), hkey, he] at hd
    exact Prod.ext hkey (Option.some.inj hd).symm
  cases d
  cases e
  congr

/-! ### Assignment -/

/-- Assign a value to a key: in place when the key is known, at the end otherwise. -/
def set (d : OrderedDict α β) (k : α) (v : β) : OrderedDict α β :=
  if h : k ∈ d.keys then
    ⟨d.entries.map fun e => if e.1 = k then (k, v) else e, by
      have hkeys : (d.entries.map fun e => if e.1 = k then (k, v) else e).map Prod.fst
          = d.keys := by
        rw [List.map_map]
        refine List.map_congr_left fun e _ => ?_
        by_cases he : e.1 = k <;> simp [he]
      rw [hkeys]
      exact d.nodup_keys⟩
  else
    ⟨d.entries ++ [(k, v)], by
      rw [List.map_append]
      exact List.nodup_append'.mpr
        ⟨d.nodup_keys, List.nodup_singleton k, List.disjoint_singleton.mpr h⟩⟩

/-- The keys after an assignment. -/
@[simp] theorem keys_set (d : OrderedDict α β) (k : α) (v : β) :
    (d.set k v).keys = addKey d.keys k := by
  rw [set]
  by_cases h : k ∈ d.keys
  · rw [dif_pos h, addKey_of_mem h, keys, List.map_map]
    refine List.map_congr_left fun e _ => ?_
    by_cases he : e.1 = k <;> simp [he]
  · rw [dif_neg h, addKey_of_notMem h, keys, List.map_append]
    rfl

/-- Look-up of the assigned key. -/
@[simp] theorem get?_set_self (d : OrderedDict α β) (k : α) (v : β) :
    (d.set k v).get? k = some v := by
  refine get?_of_mem_entries ?_
  rw [set]
  by_cases h : k ∈ d.keys
  · rw [dif_pos h]
    obtain ⟨e, he, hek⟩ := List.mem_map.mp h
    exact List.mem_map.mpr ⟨e, he, by rw [if_pos hek]⟩
  · rw [dif_neg h]
    exact List.mem_append_right _ (List.mem_singleton_self _)

/-- Look-up of any other key is untouched by an assignment. -/
theorem get?_set_of_ne (d : OrderedDict α β) {k a : α} (v : β) (hne : a ≠ k) :
    (d.set k v).get? a = d.get? a := by
  cases hget : d.get? a with
  | none =>
      rw [get?_eq_none_iff] at hget ⊢
      rw [keys_set, mem_addKey]
      exact fun h => h.elim hget hne
  | some b =>
      have hmem := mem_entries_of_get? hget
      refine get?_of_mem_entries ?_
      rw [set]
      by_cases h : k ∈ d.keys
      · rw [dif_pos h]
        exact List.mem_map.mpr ⟨(a, b), hmem, by rw [if_neg hne]⟩
      · rw [dif_neg h]
        exact List.mem_append_left _ hmem

/-- Look-up after an assignment, in one equation. -/
theorem get?_set (d : OrderedDict α β) (k a : α) (v : β) :
    (d.set k v).get? a = if a = k then some v else d.get? a := by
  by_cases h : a = k
  · rw [if_pos h, h, get?_set_self]
  · rw [if_neg h, get?_set_of_ne d v h]

/-- The later of two assignments to a key counts. -/
theorem set_set (d : OrderedDict α β) (k : α) (v w : β) : (d.set k v).set k w = d.set k w := by
  refine ext_of_get? ?_ fun a _ => ?_
  · rw [keys_set, keys_set, keys_set, addKey_of_mem (mem_addKey.mpr (Or.inr rfl))]
  · rw [get?_set, get?_set, get?_set]
    split_ifs <;> rfl

/-- A new key comes last. -/
theorem entries_set_of_notMem {d : OrderedDict α β} {k : α} (h : k ∉ d.keys) (v : β) :
    (d.set k v).entries = d.entries ++ [(k, v)] := by
  rw [set, dif_neg h]

/-! ### Deletion -/

/-- Delete a key. -/
def erase (d : OrderedDict α β) (k : α) : OrderedDict α β :=
  ⟨d.entries.filter fun e => e.1 ≠ k,
    (List.filter_sublist.map Prod.fst).nodup d.nodup_keys⟩

/-- The keys after a deletion. -/
@[simp] theorem keys_erase (d : OrderedDict α β) (k : α) :
    (d.erase k).keys = d.keys.filter (· ≠ k) := by
  rw [keys, keys, List.filter_map]
  rfl

/-- A deleted key has no value. -/
@[simp] theorem get?_erase_self (d : OrderedDict α β) (k : α) : (d.erase k).get? k = none := by
  rw [get?_eq_none_iff, keys_erase]
  simp

/-- Look-up of any other key is untouched by a deletion. -/
theorem get?_erase_of_ne (d : OrderedDict α β) {k a : α} (hne : a ≠ k) :
    (d.erase k).get? a = d.get? a := by
  cases hget : d.get? a with
  | none =>
      rw [get?_eq_none_iff] at hget ⊢
      rw [keys_erase, List.mem_filter]
      exact fun h => hget h.1
  | some b =>
      refine get?_of_mem_entries (List.mem_filter.mpr ⟨mem_entries_of_get? hget, ?_⟩)
      simpa using hne

/-- The deletion loop: for each key of a copy of `d`, delete it from `d` unless it
passes the test. -/
def retain (p : α → Bool) (d : OrderedDict α β) : OrderedDict α β :=
  d.keys.foldl (fun acc k => if p k then acc else acc.erase k) d

/-- The keys of a partly run deletion loop. -/
theorem keys_foldl_erase (p : α → Bool) (ks : List α) (d : OrderedDict α β) :
    (ks.foldl (fun acc k => if p k then acc else acc.erase k) d).keys
      = d.keys.filter fun a => p a || decide (a ∉ ks) := by
  induction ks generalizing d with
  | nil => simp
  | cons k ks ih =>
      rw [List.foldl_cons, ih]
      by_cases hp : p k = true
      · rw [if_pos hp]
        refine List.filter_congr fun a _ => ?_
        by_cases hak : a = k
        · subst hak; simp [hp]
        · simp [hak]
      · rw [if_neg hp, keys_erase, List.filter_filter]
        refine List.filter_congr fun a _ => ?_
        by_cases hak : a = k
        · subst hak; simp [hp]
        · simp [hak]

/-- **The deletion loop is a filter** on the keys. -/
@[simp] theorem keys_retain (p : α → Bool) (d : OrderedDict α β) :
    (d.retain p).keys = d.keys.filter p := by
  rw [retain, keys_foldl_erase]
  refine List.filter_congr fun a ha => ?_
  simp [ha]

/-- A value whose key passes the test survives a partly run deletion loop. -/
theorem get?_foldl_erase (p : α → Bool) (ks : List α) (d : OrderedDict α β) {a : α}
    (ha : p a = true) :
    (ks.foldl (fun acc k => if p k then acc else acc.erase k) d).get? a = d.get? a := by
  induction ks generalizing d with
  | nil => rfl
  | cons k ks ih =>
      rw [List.foldl_cons, ih]
      by_cases hp : p k = true
      · rw [if_pos hp]
      · rw [if_neg hp]
        refine get?_erase_of_ne d ?_
        rintro rfl
        exact hp ha

/-- The deletion loop leaves the values of the keys that pass the test. -/
theorem get?_retain (p : α → Bool) (d : OrderedDict α β) {a : α} (ha : p a = true) :
    (d.retain p).get? a = d.get? a :=
  get?_foldl_erase p d.keys d ha

/-- What the deletion loop leaves was there. -/
theorem get?_of_get?_retain {p : α → Bool} {d : OrderedDict α β} {a : α} {v : β}
    (h : (d.retain p).get? a = some v) : d.get? a = some v := by
  have hkey : a ∈ (d.retain p).keys := mem_keys_iff.mpr ⟨v, h⟩
  rw [keys_retain] at hkey
  rwa [get?_retain p d (List.mem_filter.mp hkey).2] at h

/-- Dictionaries that agree on what passes a test agree on every key that passes it. -/
theorem get?_eq_of_retain {p : α → Bool} {d d' : OrderedDict α β} (h : d.retain p = d'.retain p)
    {a : α} (ha : p a = true) : d.get? a = d'.get? a := by
  rw [← get?_retain p d ha, h, get?_retain p d' ha]

/-- A deletion loop whose test all keys pass deletes nothing. -/
theorem retain_eq_self {p : α → Bool} {d : OrderedDict α β} (h : ∀ k ∈ d.keys, p k = true) :
    d.retain p = d := by
  refine ext_of_get? ?_ fun k hk => get?_retain p d ?_
  · rw [keys_retain, List.filter_eq_self]
    exact h
  · rw [keys_retain] at hk
    exact (List.mem_filter.mp hk).2

/-! ### Copying over -/

/-- Copy every entry of `e` over `d`. -/
def overlay (d e : OrderedDict α β) : OrderedDict α β :=
  e.entries.foldl (fun acc x => acc.set x.1 x.2) d

/-- A loop of assignments leaves a key that it does not assign. -/
theorem get?_foldl_set_of_notMem (xs : List (α × β)) (d : OrderedDict α β) {a : α}
    (ha : a ∉ xs.map Prod.fst) :
    (xs.foldl (fun acc x => acc.set x.1 x.2) d).get? a = d.get? a := by
  induction xs generalizing d with
  | nil => rfl
  | cons x xs ih =>
      rw [List.map_cons, List.mem_cons, not_or] at ha
      rw [List.foldl_cons, ih _ ha.2, get?_set_of_ne d _ ha.1]

/-- A loop of assignments to distinct keys leaves each with the value it assigned. -/
theorem get?_foldl_set_of_mem {xs : List (α × β)} (hnd : (xs.map Prod.fst).Nodup)
    (d : OrderedDict α β) {a : α} {v : β} (h : (a, v) ∈ xs) :
    (xs.foldl (fun acc x => acc.set x.1 x.2) d).get? a = some v := by
  induction xs generalizing d with
  | nil => exact absurd h List.not_mem_nil
  | cons x xs ih =>
      rw [List.map_cons, List.nodup_cons] at hnd
      rw [List.foldl_cons]
      rcases List.mem_cons.mp h with rfl | hmem
      · rw [get?_foldl_set_of_notMem xs _ hnd.1, get?_set_self]
      · exact ih hnd.2 _ hmem

/-- A loop of assignments to distinct new keys appends its entries. -/
theorem entries_foldl_set {xs : List (α × β)} (hnd : (xs.map Prod.fst).Nodup)
    {d : OrderedDict α β} (hnew : ∀ x ∈ xs, x.1 ∉ d.keys) :
    (xs.foldl (fun acc x => acc.set x.1 x.2) d).entries = d.entries ++ xs := by
  induction xs generalizing d with
  | nil => exact (List.append_nil _).symm
  | cons x xs ih =>
      obtain ⟨hx, hnd⟩ := List.nodup_cons.mp hnd
      rw [List.foldl_cons, ih hnd, entries_set_of_notMem (hnew x List.mem_cons_self),
        List.append_assoc]
      · rfl
      · intro y hy
        rw [keys_set, mem_addKey, not_or]
        refine ⟨hnew y (List.mem_cons_of_mem x hy), fun heq => hx ?_⟩
        rw [← heq]
        exact List.mem_map_of_mem hy

/-- **Look-up after a loop of assignments**: the last one to the key counts. -/
theorem get?_foldl_set (xs : List (α × β)) (d : OrderedDict α β) (k : α) :
    (xs.foldl (fun acc x => acc.set x.1 x.2) d).get? k
      = (((xs.filter fun x => x.1 = k).getLast?).map Prod.snd).or (d.get? k) := by
  induction xs using List.reverseRecOn with
  | nil => rfl
  | append_singleton xs x ih =>
      rw [List.foldl_append, List.foldl_cons, List.foldl_nil, get?_set, ih, List.filter_append]
      by_cases hk : x.1 = k
      · rw [if_pos hk.symm, List.filter_cons_of_pos (by simpa using hk), List.filter_nil,
          List.getLast?_append]
        rfl
      · rw [if_neg fun heq => hk heq.symm, List.filter_cons_of_neg (by simpa using hk),
          List.filter_nil, List.append_nil]

/-- **Look-up after copying over**: the copied entry if there is one, else the old. -/
theorem get?_overlay (d e : OrderedDict α β) (a : α) :
    (d.overlay e).get? a = (e.get? a).or (d.get? a) := by
  cases hget : e.get? a with
  | none =>
      rw [Option.none_or]
      exact get?_foldl_set_of_notMem e.entries d (get?_eq_none_iff.mp hget)
  | some v =>
      rw [Option.some_or]
      exact get?_foldl_set_of_mem e.nodup_keys d (mem_entries_of_get? hget)

/-- The keys after a loop of assignments. -/
theorem keys_foldl_set (xs : List (α × β)) (d : OrderedDict α β) :
    (xs.foldl (fun acc x => acc.set x.1 x.2) d).keys = addKeys d.keys (xs.map Prod.fst) := by
  induction xs generalizing d with
  | nil => rfl
  | cons x xs ih => rw [List.foldl_cons, ih, keys_set, List.map_cons, addKeys_cons]

/-- The keys after copying over. -/
@[simp] theorem keys_overlay (d e : OrderedDict α β) :
    (d.overlay e).keys = addKeys d.keys e.keys :=
  keys_foldl_set e.entries d

/-- Copying over a dictionary whose keys the copied one begins with replaces it. -/
theorem overlay_eq_right {d e : OrderedDict α β} (h : d.keys <+: e.keys) :
    d.overlay e = e := by
  have hkeys : (d.overlay e).keys = e.keys := by
    rw [keys_overlay, addKeys_of_prefix e.keys_nodup h]
  refine ext_of_get? hkeys fun k hk => ?_
  obtain ⟨v, hv⟩ := mem_keys_iff.mp (hkeys ▸ hk)
  rw [get?_overlay, hv, Option.some_or]

/-! ### The entries that pass a test -/

/-- The entries that a deletion loop leaves. -/
theorem entries_retain (p : α → Bool) (d : OrderedDict α β) :
    (d.retain p).entries = d.entries.filter fun e => p e.1 := by
  have hfiltered : ((d.entries.filter fun e => p e.1).map Prod.fst).Nodup :=
    (List.filter_sublist.map Prod.fst).nodup d.nodup_keys
  have heq : d.retain p = ⟨d.entries.filter fun e => p e.1, hfiltered⟩ := by
    refine ext_of_get? ?_ fun k hk => ?_
    · rw [keys_retain, keys, keys, List.filter_map]
      rfl
    · rw [keys_retain] at hk
      obtain ⟨hmem, hp⟩ := List.mem_filter.mp hk
      obtain ⟨v, hv⟩ := mem_keys_iff.mp hmem
      rw [get?_retain p d hp, hv]
      exact (get?_of_mem_entries (List.mem_filter.mpr ⟨mem_entries_of_get? hv, hp⟩)).symm
  rw [heq]

/-- An assignment and a deletion loop. -/
theorem retain_set (p : α → Bool) (d : OrderedDict α β) (k : α) (v : β) :
    (d.set k v).retain p = if p k then (d.retain p).set k v else d.retain p := by
  have hkeys : ((d.set k v).retain p).keys
      = (if p k then (d.retain p).set k v else d.retain p).keys := by
    rw [keys_retain, keys_set]
    by_cases hmem : k ∈ d.keys
    · rw [addKey_of_mem hmem]
      split_ifs with hp
      · rw [keys_set, keys_retain, addKey_of_mem (List.mem_filter.mpr ⟨hmem, hp⟩)]
      · rw [keys_retain]
    · rw [addKey_of_notMem hmem, List.filter_append]
      split_ifs with hp
      · rw [keys_set, keys_retain,
          addKey_of_notMem fun h => hmem (List.mem_filter.mp h).1, List.filter_singleton, hp]
        rfl
      · rw [keys_retain, List.filter_singleton, Bool.eq_false_iff.mpr hp]
        exact List.append_nil _
  refine ext_of_get? hkeys fun a ha => ?_
  rw [keys_retain] at ha
  have hpa := (List.mem_filter.mp ha).2
  rw [get?_retain p _ hpa]
  split_ifs with hp
  · rw [get?_set, get?_set, get?_retain p d hpa]
  · rw [get?_set_of_ne, get?_retain p d hpa]
    rintro rfl
    exact hp hpa

/-- A loop of assignments and a deletion loop. -/
theorem retain_foldl_set (p : α → Bool) (xs : List (α × β)) (d : OrderedDict α β) :
    (xs.foldl (fun acc x => acc.set x.1 x.2) d).retain p
      = (xs.filter fun x => p x.1).foldl (fun acc x => acc.set x.1 x.2) (d.retain p) := by
  induction xs generalizing d with
  | nil => rfl
  | cons x xs ih =>
      rw [List.foldl_cons, ih, retain_set, List.filter_cons]
      split_ifs with hp
      · rfl
      · rfl

/-- **Copying over respects what passes a test.** -/
theorem retain_overlay (p : α → Bool) (d e : OrderedDict α β) :
    (d.overlay e).retain p = (d.retain p).overlay (e.retain p) := by
  rw [overlay, retain_foldl_set, overlay, entries_retain]

/-! ### From a list -/

/-- The dictionary that a list of assignments makes. -/
def ofList (xs : List (α × β)) : OrderedDict α β :=
  xs.foldl (fun acc x => acc.set x.1 x.2) empty

/-- A key that is not in the list has no value. -/
theorem get?_ofList_of_notMem {xs : List (α × β)} {k : α} (h : k ∉ xs.map Prod.fst) :
    (ofList xs : OrderedDict α β).get? k = none :=
  get?_foldl_set_of_notMem xs empty h

/-- **Look-up in the dictionary of distinct assignments.** -/
theorem get?_ofList {xs : List (α × β)} (hnd : (xs.map Prod.fst).Nodup) {k : α} {v : β} :
    (ofList xs : OrderedDict α β).get? k = some v ↔ (k, v) ∈ xs := by
  constructor
  · intro h
    by_cases hk : k ∈ xs.map Prod.fst
    · obtain ⟨e, he, rfl⟩ := List.mem_map.mp hk
      have hget : (ofList xs : OrderedDict α β).get? e.1 = some e.2 :=
        get?_foldl_set_of_mem hnd empty he
      rw [hget] at h
      cases h
      exact he
    · rw [get?_ofList_of_notMem hk] at h
      cases h
  · exact get?_foldl_set_of_mem hnd empty

/-- Distinct assignments make the same look-ups in every order. -/
theorem get?_ofList_perm {xs ys : List (α × β)} (h : xs.Perm ys)
    (hnd : (ys.map Prod.fst).Nodup) (k : α) :
    (ofList xs : OrderedDict α β).get? k = (ofList ys).get? k := by
  refine Option.ext fun v => ?_
  rw [get?_ofList ((h.map Prod.fst).nodup_iff.mpr hnd), get?_ofList hnd, h.mem_iff]

/-- A dictionary without values has no keys. -/
theorem keys_eq_nil_iff {d : OrderedDict α β} : d.keys = [] ↔ ∀ k, d.get? k = none := by
  rw [List.eq_nil_iff_forall_not_mem]
  exact forall_congr' fun k => get?_eq_none_iff.symm

end OrderedDict
