import Kubespray.Terraform.Flattening

/-!
# Lists through the Flattening

A list among the attributes of a version 4 resource is flattened into keys that carry the
index of each element, and `parse_list` and `parse_attr_list` collect the elements again.
Strings and objects of scalars come back in order, whatever the random numbers are. The
flattening itself stops at the first element of any list that is neither a string nor an
object, and then nothing comes back.

## Main results

* `exists_convert_iff`: which attributes can be flattened.
* `parseAttrList_of_objects`: a list of objects is read back as it was.
* `listsSurvive_iff`: when the lists of strings and of objects survive.
-/

namespace Kubespray.Terraform

open OrderedDict Fallible

/-! ### What can be flattened -/

mutual

/-- An element of a list that can be flattened: a string, or an object below which every
list can be. -/
def flattens : Json → Bool
  | .str _ => true
  | .obj fields => flattensFields fields
  | .null | .bool _ | .int _ | .float _ _ _ | .arr _ => false

/-- Every list among the fields of an object has only such elements. -/
def flattensFields : List (Text × Json) → Bool
  | [] => true
  | (_, .arr xs) :: rest => flattensElements xs && flattensFields rest
  | (_, _) :: rest => flattensFields rest

/-- All elements of a list can be flattened. -/
def flattensElements : List Json → Bool
  | [] => true
  | v :: vs => flattens v && flattensElements vs

end

/-- A field without parts can always be flattened. -/
theorem flattensFields_scalar {key : Text} {v : Json} (h : v.isScalar = true)
    (rest : List (Text × Json)) : flattensFields ((key, v) :: rest) = flattensFields rest := by
  cases v with
  | null | bool | int | float | str =>
      rw [flattensFields]
      exact fun _ hno => by cases hno
  | arr | obj => cases h

/-- What raises has no result. -/
theorem not_exists_of_error {α : Type} {e : Raised} :
    ¬ ∃ x, (.error e : Except Raised α) = .ok x := by
  rintro ⟨x, h⟩
  cases h

variable {draw : ℕ → ℕ}

mutual

/-- **Which values can be flattened.** -/
theorem exists_convert_iff {n : ℕ} {start : Text} :
    (v : Json) → (∃ x, convert draw n start v = .ok x) ↔ flattens v = true
  | .str t => by
      rw [convert, flattens]
      exact ⟨fun _ => rfl, fun _ => ⟨_, rfl⟩⟩
  | .obj fields => by
      rw [convert, flattens]
      exact exists_convertFields_iff fields
  | .null => iff_of_false not_exists_of_error Bool.false_ne_true
  | .bool _ => iff_of_false not_exists_of_error Bool.false_ne_true
  | .int _ => iff_of_false not_exists_of_error Bool.false_ne_true
  | .float _ _ _ => iff_of_false not_exists_of_error Bool.false_ne_true
  | .arr _ => iff_of_false not_exists_of_error Bool.false_ne_true

/-- The items of a dictionary. -/
theorem exists_convertFields_iff {n : ℕ} {start : Text} {result : Attributes} :
    (fields : List (Text × Json)) →
      ((∃ x, convertFields draw n start result fields = .ok x) ↔ flattensFields fields = true)
  | [] => ⟨fun _ => rfl, fun _ => ⟨_, rfl⟩⟩
  | (key, .arr xs) :: rest => by
      rw [convertFields, flattensFields, Bool.and_eq_true]
      constructor
      · rintro ⟨x, h⟩
        obtain ⟨⟨d, m⟩, helements, hrest⟩ := ok_of_bind h
        exact ⟨(exists_convertElements_iff xs).mp ⟨_, helements⟩,
          (exists_convertFields_iff rest).mp ⟨_, hrest⟩⟩
      · rintro ⟨helements, hrest⟩
        obtain ⟨⟨d, m⟩, helements⟩ := (exists_convertElements_iff xs).mpr helements
        obtain ⟨x, hrest⟩ := (exists_convertFields_iff rest).mpr hrest
        exact ⟨x, bind_eq_ok_iff.mpr ⟨_, helements, hrest⟩⟩
  | (key, .obj inner) :: rest => by
      rw [convertFields, flattensFields]
      · exact exists_convertFields_iff rest
      · exact fun _ hno => by cases hno
  | (key, .null) :: rest => by
      rw [convertFields_scalar rfl, flattensFields_scalar rfl]
      exact exists_convertFields_iff rest
  | (key, .bool _) :: rest => by
      rw [convertFields_scalar rfl, flattensFields_scalar rfl]
      exact exists_convertFields_iff rest
  | (key, .int _) :: rest => by
      rw [convertFields_scalar rfl, flattensFields_scalar rfl]
      exact exists_convertFields_iff rest
  | (key, .float _ _ _) :: rest => by
      rw [convertFields_scalar rfl, flattensFields_scalar rfl]
      exact exists_convertFields_iff rest
  | (key, .str _) :: rest => by
      rw [convertFields_scalar rfl, flattensFields_scalar rfl]
      exact exists_convertFields_iff rest

/-- The elements of a list. -/
theorem exists_convertElements_iff {n i : ℕ} {path : Text} {result : Attributes} :
    (xs : List Json) →
      ((∃ x, convertElements draw n path i result xs = .ok x) ↔ flattensElements xs = true)
  | [] => ⟨fun _ => rfl, fun _ => ⟨_, rfl⟩⟩
  | v :: vs => by
      rw [convertElements, flattensElements, Bool.and_eq_true]
      constructor
      · rintro ⟨x, h⟩
        obtain ⟨⟨d, m⟩, hfirst, hrest⟩ := ok_of_bind h
        exact ⟨(exists_convert_iff v).mp ⟨_, hfirst⟩,
          (exists_convertElements_iff vs).mp ⟨_, hrest⟩⟩
      · rintro ⟨hfirst, hrest⟩
        obtain ⟨⟨d, m⟩, hfirst⟩ := (exists_convert_iff v).mpr hfirst
        obtain ⟨x, hrest⟩ := (exists_convertElements_iff vs).mpr hrest
        exact ⟨x, bind_eq_ok_iff.mpr ⟨_, hfirst, hrest⟩⟩

end

/-! ### Objects of scalars -/

/-- The fields of a non-empty object of scalars. -/
structure IsRecord (o : List (Text × Json)) : Prop where
  nonempty : o ≠ []
  nodup : (o.map Prod.fst).Nodup
  scalar : ∀ e ∈ o, e.2.isScalar = true

/-- What `_parse_prefix` yields for the fields of some objects, with the index of each. -/
def indexed : ℕ → List (List (Text × Json)) → List (Text × Json)
  | _, [] => []
  | i, o :: os => o.map (fun e => (numeral i ++ '.' :: e.1, e.2)) ++ indexed (i + 1) os

/-- A numeral has no dot. -/
theorem noDot_numeral (n : ℕ) : '.' ∉ numeral n := fun h =>
  absurd (Nat.isDigit_of_mem_toDigits (by decide) (by decide) h) (by decide)

/-- Each of them has an index, a dot and a field. -/
theorem exists_of_mem_indexed {i : ℕ} {xs : List (List (Text × Json))} {e : Text × Json}
    (h : e ∈ indexed i xs) : ∃ j k, e.1 = numeral j ++ '.' :: k := by
  induction xs generalizing i with
  | nil => cases h
  | cons o os ih =>
      rcases List.mem_append.mp h with hfirst | hrest
      · obtain ⟨f, -, rfl⟩ := List.mem_map.mp hfirst
        exact ⟨i, f.1, rfl⟩
      · exact ih hrest

/-- Scalars are flattened one after the other. -/
theorem convertFields_scalars {n : ℕ} {start : Text} {result : Attributes}
    {o : List (Text × Json)} (h : ∀ e ∈ o, e.2.isScalar = true) :
    convertFields draw n start result o
      = .ok (o.foldl (fun acc e => acc.set (start ++ e.1) e.2) result, n) := by
  induction o generalizing result with
  | nil => rfl
  | cons e o ih =>
      rw [convertFields_scalar (h e List.mem_cons_self),
        ih fun f hf => h f (List.mem_cons_of_mem e hf), List.foldl_cons]

/-- The entries of a flattened object of scalars. -/
theorem entries_convert_record {n m : ℕ} {start : Text} {d : Attributes}
    {o : List (Text × Json)} (ho : IsRecord o)
    (h : convert draw n start (.obj o) = .ok (d, m)) :
    d.entries = o.map fun e => (start ++ e.1, e.2) := by
  rw [convert, convertFields_scalars ho.scalar, Except.ok.injEq, Prod.mk.injEq] at h
  rw [← h.1, ← List.foldl_map (f := fun e : Text × Json => (start ++ e.1, e.2))
    (g := fun (acc : Attributes) x => acc.set x.1 x.2), entries_foldl_set]
  · rfl
  · rw [List.map_map]
    have hkeys : (o.map (Prod.fst ∘ fun e : Text × Json => (start ++ e.1, e.2)))
        = (o.map Prod.fst).map (start ++ ·) := by
      rw [List.map_map]
      rfl
    rw [hkeys]
    exact ho.nodup.map fun _ _ heq => List.append_cancel_left heq
  · exact fun x _ => List.not_mem_nil

section Objects

variable {group : Text} (hgroup : '.' ∉ group)
include hgroup

/-- **The fields of the objects of a list stand in order.** Their keys begin with the index
of the object. -/
theorem entries_of_objects {n m i : ℕ} {result d : Attributes}
    {xs : List (List (Text × Json))} (hxs : ∀ o ∈ xs, IsRecord o)
    (hresult : ∀ k ∈ (result.retain (under group '.')).keys,
      ∃ j < i, (group ++ '.' :: numeral j ++ ['.']) <+: k)
    (h : convertElements draw n group i result (xs.map .obj) = .ok (d, m)) :
    (d.retain (under group '.')).entries
      = (result.retain (under group '.')).entries
        ++ (indexed i xs).map fun e => (group ++ '.' :: e.1, e.2) := by
  induction xs generalizing n i result with
  | nil =>
      cases h
      exact (List.append_nil _).symm
  | cons o os ih =>
      rw [List.map_cons, convertElements] at h
      obtain ⟨⟨e, m₁⟩, hobject, hrest⟩ := ok_of_bind h
      obtain ⟨ho, hos⟩ := List.forall_mem_cons.mp hxs
      have hentries := entries_convert_record ho hobject
      have hkey : ∀ k ∈ e.keys, ∃ f, k = group ++ '.' :: numeral i ++ ['.'] ++ f := by
        intro k hk
        rw [keys, hentries, List.map_map] at hk
        obtain ⟨f, -, rfl⟩ := List.mem_map.mp hk
        exact ⟨f.1, rfl⟩
      have hunder : e.retain (under group '.') = e := by
        refine retain_eq_self fun k hk => ?_
        obtain ⟨f, rfl⟩ := hkey k hk
        refine (under_eq_true_iff hgroup).mpr ⟨numeral i ++ '.' :: f, by simp, fun heq => ?_⟩
        have hdot : '.' ∈ ['#'] := heq ▸ List.mem_append_right _ List.mem_cons_self
        exact absurd hdot (by decide)
      have hnew : ∀ x ∈ e.entries, x.1 ∉ (result.retain (under group '.')).keys := by
        intro x hx hmem
        obtain ⟨f, hf⟩ := hkey x.1 (mem_keys_of_mem_entries hx)
        obtain ⟨j, hj, hstart⟩ := hresult x.1 hmem
        rw [hf] at hstart
        exact absurd (eq_of_numeral_start hstart) (Nat.ne_of_lt hj)
      have hover : ((result.overlay e).retain (under group '.')).entries
          = (result.retain (under group '.')).entries ++ e.entries := by
        rw [retain_overlay, hunder, overlay, entries_foldl_set e.nodup_keys hnew]
      rw [ih hos ?_ hrest, hover, hentries, indexed, List.map_append, List.append_assoc,
        List.map_map]
      · congr 2
        refine List.map_congr_left fun f _ => ?_
        simp
      · intro k hk
        rw [retain_overlay, hunder, keys_overlay, mem_addKeys] at hk
        rcases hk with hk | hk
        · obtain ⟨j, hj, hstart⟩ := hresult k hk
          exact ⟨j, Nat.lt_succ_of_lt hj, hstart⟩
        · obtain ⟨f, rfl⟩ := hkey k hk
          exact ⟨i, Nat.lt_succ_self i, List.prefix_append _ _⟩

/-- `_parse_prefix` reads the entries below its name. -/
theorem parsePrefix_eq (source : Attributes) {rests : List (Text × Json)}
    (hrests : ∀ e ∈ rests, e.1 ≠ ['#'])
    (h : (source.retain (under group '.')).entries
      = rests.map fun e => (group ++ '.' :: e.1, e.2)) :
    parsePrefix source group '.' = rests := by
  have hfilter : parsePrefix source group '.'
      = (source.retain (under group '.')).entries.filterMap fun e =>
          (restOfKey group '.' e.1).map fun rest => (rest, e.2) := by
    rw [parsePrefix, entries_retain, List.filterMap_filter]
    refine List.filterMap_congr fun e _ => ?_
    rw [under]
    cases restOfKey group '.' e.1 <;> rfl
  rw [hfilter, h, List.filterMap_map]
  refine (List.filterMap_congr fun e he => ?_).trans (List.filterMap_some)
  have hrest := (restOfKey_eq_some_iff hgroup).mpr ⟨rfl, hrests e he⟩
  simp only [Function.comp_apply, hrest, Option.map_some]

end Objects

/-! ### Collecting the fields of objects -/

/-- One round of the loop of `parse_attr_list`. -/
def addAttr (sep : Char) (attrs : OrderedDict Text Attributes) (e : Text × Json) :
    Except Raised (OrderedDict Text Attributes) :=
  match splitOnce sep e.1 with
  | some (index, key) =>
    .ok (attrs.set index (((attrs.get? index).getD OrderedDict.empty).set key e.2))
  | none => .error .valueError

/-- `parse_attr_list`, round by round. -/
theorem parseAttrList_eq (source : Attributes) (start : Text) (sep : Char) :
    parseAttrList source start sep = (do
      let attrs ← (parsePrefix source start sep).foldlM (addAttr sep) OrderedDict.empty
      return attrs.entries.map fun e => toJson e.2) := rfl

/-- A field goes to the object with its index. -/
theorem addAttr_indexed (attrs : OrderedDict Text Attributes) (i : ℕ) (e : Text × Json) :
    addAttr '.' attrs (numeral i ++ '.' :: e.1, e.2)
      = .ok (attrs.set (numeral i)
          (((attrs.get? (numeral i)).getD OrderedDict.empty).set e.1 e.2)) := by
  rw [addAttr]
  dsimp only
  rw [splitOnce_append (noDot_numeral i)]

/-- The fields of an object that has been begun. -/
theorem foldlM_addAttr (attrs : OrderedDict Text Attributes) (i : ℕ) (d : Attributes)
    (o : List (Text × Json)) :
    (o.map fun e => (numeral i ++ '.' :: e.1, e.2)).foldlM (addAttr '.')
        (attrs.set (numeral i) d)
      = .ok (attrs.set (numeral i) (o.foldl (fun acc e => acc.set e.1 e.2) d)) := by
  induction o generalizing d with
  | nil => rfl
  | cons e o ih =>
      rw [List.map_cons, List.foldlM_cons, addAttr_indexed, ok_bind, get?_set_self,
        Option.getD_some, set_set, ih, List.foldl_cons]

/-- The fields of a new object. -/
theorem foldlM_addAttr_record {attrs : OrderedDict Text Attributes} {i : ℕ}
    {o : List (Text × Json)} (ho : o ≠ []) (hnew : numeral i ∉ attrs.keys) :
    (o.map fun e => (numeral i ++ '.' :: e.1, e.2)).foldlM (addAttr '.') attrs
      = .ok (attrs.set (numeral i) (ofList o)) := by
  obtain ⟨e, rest, rfl⟩ := List.exists_cons_of_ne_nil ho
  rw [List.map_cons, List.foldlM_cons, addAttr_indexed, ok_bind, get?_eq_none_iff.mpr hnew,
    Option.getD_none, foldlM_addAttr]
  rfl

/-- An object of fields with different names is the dictionary of its fields. -/
theorem toJson_ofList {o : List (Text × Json)} (hnd : (o.map Prod.fst).Nodup) :
    toJson (ofList o) = .obj o := by
  rw [toJson, ofList, entries_foldl_set hnd fun x _ => List.not_mem_nil]
  rfl

/-- **The objects are collected in order.** -/
theorem foldlM_indexed {i : ℕ} {attrs : OrderedDict Text Attributes}
    {xs : List (List (Text × Json))} (hxs : ∀ o ∈ xs, IsRecord o)
    (hattrs : ∀ k ∈ attrs.keys, ∃ j < i, k = numeral j) :
    ∃ attrs', (indexed i xs).foldlM (addAttr '.') attrs = .ok attrs' ∧
      attrs'.entries.map (fun e => toJson e.2)
        = attrs.entries.map (fun e => toJson e.2) ++ xs.map .obj := by
  induction xs generalizing i attrs with
  | nil => exact ⟨attrs, rfl, (List.append_nil _).symm⟩
  | cons o os ih =>
      obtain ⟨ho, hos⟩ := List.forall_mem_cons.mp hxs
      have hnew : numeral i ∉ attrs.keys := by
        intro hmem
        obtain ⟨j, hj, heq⟩ := hattrs _ hmem
        exact absurd (toDigits_injective heq) (Nat.ne_of_gt hj)
      obtain ⟨attrs', hrest, hentries⟩ := @ih (i + 1) (attrs.set (numeral i) (ofList o)) hos (by
        intro k hk
        rw [keys_set, mem_addKey] at hk
        rcases hk with hk | rfl
        · obtain ⟨j, hj, rfl⟩ := hattrs k hk
          exact ⟨j, Nat.lt_succ_of_lt hj, rfl⟩
        · exact ⟨i, Nat.lt_succ_self i, rfl⟩)
      refine ⟨attrs', ?_, ?_⟩
      · rw [indexed, List.foldlM_append, foldlM_addAttr_record ho.nonempty hnew, ok_bind, hrest]
      · rw [hentries, entries_set_of_notMem hnew, List.map_append, List.append_assoc]
        rw [List.map_singleton, toJson_ofList ho.nodup]
        rfl

/-! ### The two kinds of lists -/

/-- **A list of objects of scalars is read back as it was**, if its name and the others
have no dots. -/
theorem parseAttrList_of_objects {n m : ℕ} {group : Text} {d : Attributes}
    {fields : List (Text × Json)} {xs : List (List (Text × Json))} (hgroup : '.' ∉ group)
    (hnames : (fields.map Prod.fst).Nodup) (hdots : ∀ f ∈ fields, '.' ∉ f.1)
    (hmem : (group, .arr (xs.map .obj)) ∈ fields) (hxs : ∀ o ∈ xs, IsRecord o)
    (h : convertFields draw n [] OrderedDict.empty fields = .ok (d, m)) :
    parseAttrList d group '.' = .ok (xs.map .obj) := by
  obtain ⟨n₁, m₁, start, d₁, helements, hstart, hlast⟩ :=
    exists_elements hgroup hnames hdots hmem h
  have hentries := entries_of_objects hgroup hxs ?_ helements
  · rw [hstart, ← hlast] at hentries
    have hprefix : parsePrefix d group '.' = indexed 0 xs := by
      refine parsePrefix_eq hgroup d (fun e he heq => ?_) hentries
      obtain ⟨j, k, hjk⟩ := exists_of_mem_indexed he
      have hdot : '.' ∈ ['#'] := heq ▸ hjk ▸ List.mem_append_right _ List.mem_cons_self
      exact absurd hdot (by decide)
    obtain ⟨attrs, hcollect, hvalues⟩ := @foldlM_indexed 0 OrderedDict.empty xs hxs
      fun k hk => absurd hk List.not_mem_nil
    rw [parseAttrList_eq, hprefix, hcollect, ok_bind]
    exact congrArg Except.ok hvalues
  · rw [hstart]
    exact fun k hk => absurd hk List.not_mem_nil

/-- The attributes of an instance, as a state file has them: an object without dots in its
names. -/
structure Undotted (fields : List (Text × Json)) : Prop where
  nodup : (fields.map Prod.fst).Nodup
  noDot : ∀ f ∈ fields, '.' ∉ f.1

/-- Every list of strings and every list of non-empty objects of scalars is read back from
the flattened attributes as it was. -/
def ListsSurvive (draw : ℕ → ℕ) (fields : List (Text × Json)) : Prop :=
  (∀ k ts, (k, .arr (List.map Json.str ts)) ∈ fields →
      ∃ d n, convert draw 0 [] (.obj fields) = .ok (d, n) ∧
        parseList d k '.' = ts.map .str) ∧
    ∀ k xs, (k, .arr (List.map Json.obj xs)) ∈ fields → (∀ o ∈ xs, IsRecord o) →
      ∃ d n, convert draw 0 [] (.obj fields) = .ok (d, n) ∧
        parseAttrList d k '.' = .ok (xs.map .obj)

/-- There is a list of strings, or a list of non-empty objects of scalars. -/
def HasReadableList (fields : List (Text × Json)) : Prop :=
  (∃ k ts, (k, .arr (List.map Json.str ts)) ∈ fields) ∨
    ∃ k xs, (k, .arr (List.map Json.obj xs)) ∈ fields ∧ ∀ o ∈ xs, IsRecord o

/-- **Lists survive the flattening** exactly when all elements of all lists that it walks
over are strings and objects, or when there is no list to be read back. -/
theorem listsSurvive_iff (draw : ℕ → ℕ) {fields : List (Text × Json)} (hf : Undotted fields) :
    ListsSurvive draw fields ↔ (HasReadableList fields → flattensFields fields = true) := by
  constructor
  · rintro ⟨hstrings, hobjects⟩ hsome
    have hconvert : ∃ x, convert draw 0 [] (.obj fields) = .ok x := by
      rcases hsome with ⟨k, ts, hmem⟩ | ⟨k, xs, hmem, hxs⟩
      · obtain ⟨d, n, h, -⟩ := hstrings k ts hmem
        exact ⟨(d, n), h⟩
      · obtain ⟨d, n, h, -⟩ := hobjects k xs hmem hxs
        exact ⟨(d, n), h⟩
    exact (exists_convert_iff (.obj fields)).mp hconvert
  · intro h
    have hconvert : HasReadableList fields →
        ∃ d n, convertFields draw 0 [] OrderedDict.empty fields = .ok (d, n) := by
      intro hsome
      obtain ⟨⟨d, n⟩, hok⟩ := (exists_convertFields_iff fields).mpr (h hsome)
      exact ⟨d, n, hok⟩
    constructor
    · intro k ts hmem
      obtain ⟨d, n, hok⟩ := hconvert (Or.inl ⟨k, ts, hmem⟩)
      refine ⟨d, n, by rw [convert, hok], ?_⟩
      exact parseList_of_strings (hf.noDot _ hmem) hf.nodup hf.noDot hmem hok
    · intro k xs hmem hxs
      obtain ⟨d, n, hok⟩ := hconvert (Or.inr ⟨k, xs, hmem, hxs⟩)
      refine ⟨d, n, by rw [convert, hok], ?_⟩
      exact parseAttrList_of_objects (hf.noDot _ hmem) hf.nodup hf.noDot hmem hxs hok

/-- Attributes with a list of strings and a list of objects. -/
theorem listsSurvive_tags :
    ListsSurvive (fun n => n) [("tags".toList, .arr [.str "a".toList, .str "b".toList]),
      ("network".toList, .arr [.obj [("address".toList, .str "10.0.0.1".toList)]])] :=
  (listsSurvive_iff _ ⟨by decide, by decide⟩).mpr fun _ => by decide

/-- With a list of numbers beside it, a list of strings is not read back. -/
theorem listsSurvive_fails :
    ¬ ∀ (draw : ℕ → ℕ) (fields : List (Text × Json)), Undotted fields →
      ListsSurvive draw fields := by
  intro h
  obtain ⟨d, n, hconvert, -⟩ := (h (fun n => n)
    [("tags".toList, .arr [.str "a".toList]), ("ports".toList, .arr [.int 80])]
    ⟨by decide, by decide⟩).1 "tags".toList ["a".toList] List.mem_cons_self
  cases hconvert

end Kubespray.Terraform
