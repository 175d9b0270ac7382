import Kubespray.Terraform.Hosts

/-!
# Random Keys

`convert_to_v3_structure` ends the key of a string in a list with a random number. What a
reader of the flattened attributes sees does not depend on these numbers as long as it
passes over the keys that may end in one.

## Main results

* `kept_convert`: the entries with other keys do not depend on the random numbers.
* `retain_convert`: flattening writes below its start only.
* `parseList_of_strings`: a list of strings is read back as it was.
-/

namespace Kubespray.Terraform

open OrderedDict Fallible

/-! ### Where random numbers stand -/

mutual

/-- The texts that `convert_to_v3_structure` puts before a random number. -/
def slots (start : Text) : Json → List Text
  | .str _ => [start]
  | .obj fields => slotsFields start fields
  | .null | .bool _ | .int _ | .float _ _ _ | .arr _ => []

/-- Those of the items of a dictionary. -/
def slotsFields (start : Text) : List (Text × Json) → List Text
  | [] => []
  | (key, .arr xs) :: rest => slotsElements (start ++ key) 0 xs ++ slotsFields start rest
  | (_, _) :: rest => slotsFields start rest

/-- Those of the elements of a list. -/
def slotsElements (path : Text) (i : ℕ) : List Json → List Text
  | [] => []
  | v :: vs => slots (path ++ '.' :: numeral i ++ ['.']) v ++ slotsElements path (i + 1) vs

end

/-- A value without parts. -/
def Json.isScalar : Json → Bool
  | .null | .bool _ | .int _ | .float _ _ _ | .str _ => true
  | .arr _ | .obj _ => false

/-- A value without parts keeps its key. -/
theorem convertFields_scalar {draw : ℕ → ℕ} {n : ℕ} {start key : Text} {result : Attributes}
    {v : Json} (h : v.isScalar = true) (rest : List (Text × Json)) :
    convertFields draw n start result ((key, v) :: rest)
      = convertFields draw n start (result.set (start ++ key) v) rest := by
  cases v with
  | null | bool | int | float | str => rw [convertFields] <;> exact fun _ hno => by cases hno
  | arr | obj => cases h

/-- The test fails on every key that may end in a random number. -/
def Rejects (p : Text → Bool) (starts : List Text) : Prop :=
  ∀ s ∈ starts, ∀ n, p (s ++ numeral n) = false

/-- What passes a test of the flattened attributes. -/
def kept (p : Text → Bool) (flattened : Except Raised (Attributes × ℕ)) :
    Except Raised Attributes :=
  flattened.map fun x => x.1.retain p

/-- Sequences whose parts agree on what passes a test agree on it. -/
theorem kept_bind {p : Text → Bool} {x y : Except Raised (Attributes × ℕ)}
    {f g : Attributes × ℕ → Except Raised (Attributes × ℕ)} (hxy : kept p x = kept p y)
    (hfg : ∀ a b, a.1.retain p = b.1.retain p → kept p (f a) = kept p (g b)) :
    kept p (x >>= f) = kept p (y >>= g) := by
  cases x with
  | error e =>
      cases y with
      | error e' => exact congrArg Except.error (Except.error.inj hxy)
      | ok b => cases hxy
  | ok a =>
      cases y with
      | error e => cases hxy
      | ok b => exact hfg a b (Except.ok.inj hxy)

/-- The entries of a dictionary below another key, after a test. -/
theorem retain_foldl_below (p : Text → Bool) (start : Text) (inner : List (Text × Json))
    (d : Attributes) :
    (inner.foldl (fun acc e => acc.set (start ++ '.' :: e.1) e.2) d).retain p
      = ((inner.map fun e => (start ++ '.' :: e.1, e.2)).filter fun x => p x.1).foldl
        (fun acc x => acc.set x.1 x.2) (d.retain p) := by
  rw [← retain_foldl_set, List.foldl_map]

variable (p : Text → Bool) (draw draw' : ℕ → ℕ)

/-- An item without parts, given what becomes of the others. -/
theorem kept_scalar {n n' : ℕ} {start key : Text} {result result' : Attributes} {v : Json}
    {rest : List (Text × Json)} (hv : v.isScalar = true)
    (hresult : result.retain p = result'.retain p)
    (hrest : ∀ r r' : Attributes, r.retain p = r'.retain p →
      kept p (convertFields draw n start r rest) = kept p (convertFields draw' n' start r' rest)) :
    kept p (convertFields draw n start result ((key, v) :: rest))
      = kept p (convertFields draw' n' start result' ((key, v) :: rest)) := by
  rw [convertFields_scalar hv, convertFields_scalar hv]
  exact hrest _ _ (by rw [retain_set, retain_set, hresult])

mutual

/-- **The entries with other keys do not depend on the random numbers.** -/
theorem kept_convert (n n' : ℕ) (start : Text) :
    (v : Json) → Rejects p (slots start v) →
      kept p (convert draw n start v) = kept p (convert draw' n' start v)
  | .str t, h => by
      have hdraw : ∀ m, (OrderedDict.empty.set (start ++ numeral m) (Json.str t)).retain p
          = OrderedDict.empty.retain p := by
        intro m
        rw [retain_set, h start List.mem_cons_self m]
        rfl
      rw [convert, convert]
      exact congrArg Except.ok ((hdraw _).trans (hdraw _).symm)
  | .obj fields, h => by
      rw [convert, convert]
      exact kept_convertFields n n' start _ _ rfl fields h
  | .null, _ => rfl
  | .bool _, _ => rfl
  | .int _, _ => rfl
  | .float _ _ _, _ => rfl
  | .arr _, _ => rfl

/-- The items of a dictionary. -/
theorem kept_convertFields (n n' : ℕ) (start : Text) (result result' : Attributes)
    (hresult : result.retain p = result'.retain p) :
    (fields : List (Text × Json)) → Rejects p (slotsFields start fields) →
      kept p (convertFields draw n start result fields)
        = kept p (convertFields draw' n' start result' fields)
  | [], _ => congrArg Except.ok hresult
  | (key, .arr xs) :: rest, h => by
      have hlength : (if xs = [] then result
            else result.set (start ++ key ++ ".#".toList) (.int xs.length)).retain p
          = (if xs = [] then result'
            else result'.set (start ++ key ++ ".#".toList) (.int xs.length)).retain p := by
        split_ifs
        · exact hresult
        · rw [retain_set, retain_set, hresult]
      rw [convertFields, convertFields]
      refine kept_bind (kept_convertElements n n' (start ++ key) 0 _ _ hlength xs ?_) ?_
      · exact fun s hs => h s (List.mem_append_left _ hs)
      · exact fun a b hab => kept_convertFields _ _ start _ _ hab rest
          fun s hs => h s (List.mem_append_right _ hs)
  | (key, .obj inner) :: rest, h => by
      rw [convertFields, convertFields]
      refine kept_convertFields _ _ start _ _ ?_ rest h
      rw [retain_foldl_below, retain_foldl_below, retain_set, retain_set, hresult]
  | (_, .null) :: rest, h =>
      kept_scalar p draw draw' rfl hresult fun _ _ hr =>
        kept_convertFields _ _ start _ _ hr rest h
  | (_, .bool _) :: rest, h =>
      kept_scalar p draw draw' rfl hresult fun _ _ hr =>
        kept_convertFields _ _ start _ _ hr rest h
  | (_, .int _) :: rest, h =>
      kept_scalar p draw draw' rfl hresult fun _ _ hr =>
        kept_convertFields _ _ start _ _ hr rest h
  | (_, .float _ _ _) :: rest, h =>
      kept_scalar p draw draw' rfl hresult fun _ _ hr =>
        kept_convertFields _ _ start _ _ hr rest h
  | (_, .str _) :: rest, h =>
      kept_scalar p draw draw' rfl hresult fun _ _ hr =>
        kept_convertFields _ _ start _ _ hr rest h

/-- The elements of a list. -/
theorem kept_convertElements (n n' : ℕ) (path : Text) (i : ℕ) (result result' : Attributes)
    (hresult : result.retain p = result'.retain p) :
    (xs : List Json) → Rejects p (slotsElements path i xs) →
      kept p (convertElements draw n path i result xs)
        = kept p (convertElements draw' n' path i result' xs)
  | [], _ => congrArg Except.ok hresult
  | v :: vs, h => by
      rw [convertElements, convertElements]
      refine kept_bind (kept_convert _ _ _ v fun s hs => h s (List.mem_append_left _ hs)) ?_
      intro a b hab
      refine kept_convertElements _ _ path (i + 1) _ _ ?_ vs
        fun s hs => h s (List.mem_append_right _ hs)
      rw [retain_overlay, retain_overlay, hab, hresult]

end

/-- A list in a dictionary is a list in a larger one. -/
theorem slotsFields_cons {s start : Text} {f : Text × Json} {rest : List (Text × Json)}
    (h : ∃ key xs, (key, .arr xs) ∈ rest ∧ s ∈ slotsElements (start ++ key) 0 xs ∧
      ∃ u, s = start ++ key ++ '.' :: (u ++ ['.'])) :
    ∃ key xs, (key, .arr xs) ∈ f :: rest ∧ s ∈ slotsElements (start ++ key) 0 xs ∧
      ∃ u, s = start ++ key ++ '.' :: (u ++ ['.']) := by
  obtain ⟨key, xs, hmem, hslot⟩ := h
  exact ⟨key, xs, List.mem_cons_of_mem _ hmem, hslot⟩

mutual

/-- A random number stands directly after the start, or after a dot. -/
theorem slots_eq {s start : Text} :
    {v : Json} → s ∈ slots start v → ∃ t, s = start ++ t ∧ (t = [] ∨ ∃ u, t = u ++ ['.'])
  | .str _, h => ⟨[], by rw [List.append_nil]; exact List.mem_singleton.mp h, Or.inl rfl⟩
  | .obj fields, h => by
      rw [slots] at h
      obtain ⟨key, xs, -, -, u, rfl⟩ := slotsFields_eq h
      refine ⟨key ++ '.' :: (u ++ ['.']), ?_, Or.inr ⟨key ++ '.' :: u, ?_⟩⟩
      · rw [List.append_assoc]
      · rw [List.append_assoc, List.cons_append]
  | .null, h => by cases h
  | .bool _, h => by cases h
  | .int _, h => by cases h
  | .float _ _ _, h => by cases h
  | .arr _, h => by cases h

/-- The random numbers below a dictionary belong to lists in it. -/
theorem slotsFields_eq {s start : Text} :
    {fields : List (Text × Json)} → s ∈ slotsFields start fields →
      ∃ key xs, (key, .arr xs) ∈ fields ∧ s ∈ slotsElements (start ++ key) 0 xs ∧
        ∃ u, s = start ++ key ++ '.' :: (u ++ ['.'])
  | [], h => by cases h
  | (key, .arr xs) :: rest, h => by
      rw [slotsFields, List.mem_append] at h
      rcases h with h | h
      · exact ⟨key, xs, List.mem_cons_self, h, slotsElements_eq h⟩
      · exact slotsFields_cons (slotsFields_eq h)
  | (_, .obj _) :: _, h => slotsFields_cons (slotsFields_eq h)
  | (_, .null) :: _, h => slotsFields_cons (slotsFields_eq h)
  | (_, .bool _) :: _, h => slotsFields_cons (slotsFields_eq h)
  | (_, .int _) :: _, h => slotsFields_cons (slotsFields_eq h)
  | (_, .float _ _ _) :: _, h => slotsFields_cons (slotsFields_eq h)
  | (_, .str _) :: _, h => slotsFields_cons (slotsFields_eq h)

/-- The random numbers of a list stand after a dot. -/
theorem slotsElements_eq {s path : Text} {i : ℕ} :
    {xs : List Json} → s ∈ slotsElements path i xs → ∃ u, s = path ++ '.' :: (u ++ ['.'])
  | [], h => by cases h
  | v :: vs, h => by
      rw [slotsElements, List.mem_append] at h
      rcases h with h | h
      · obtain ⟨t, rfl, rfl | ⟨u, rfl⟩⟩ := slots_eq h
        · exact ⟨numeral i, by simp⟩
        · exact ⟨numeral i ++ '.' :: u, by simp⟩
      · exact slotsElements_eq h

end

/-! ### Where flattening writes -/

/-- The test fails on every key with this start. -/
def Below (start : Text) : Prop :=
  ∀ k, p (start ++ k) = false

/-- Then it fails below every key with this start. -/
theorem Below.path {p : Text → Bool} {start : Text} (h : Below p start) (key k : Text) :
    p (start ++ key ++ '.' :: k) = false := by
  rw [List.append_assoc]
  exact h _

/-- An assignment below a start does not pass. -/
theorem retain_set_below {start : Text} (h : Below p start) (k : Text) (v : Json)
    (d : Attributes) : (d.set (start ++ k) v).retain p = d.retain p := by
  rw [retain_set, h k]
  rfl

/-- Nor do the entries of a dictionary below a path. -/
theorem retain_foldl_of_below {path : Text} (h : ∀ k, p (path ++ '.' :: k) = false)
    (inner : List (Text × Json)) (d : Attributes) :
    (inner.foldl (fun acc e => acc.set (path ++ '.' :: e.1) e.2) d).retain p = d.retain p := by
  have hnone : (inner.map fun e => (path ++ '.' :: e.1, e.2)).filter (fun x => p x.1) = [] := by
    rw [List.filter_eq_nil_iff]
    intro x hx
    obtain ⟨e, -, rfl⟩ := List.mem_map.mp hx
    rw [h]
    exact Bool.false_ne_true
  rw [retain_foldl_below, hnone]
  rfl

/-- An item without parts below it, given what becomes of the others. -/
theorem retain_scalar {n m : ℕ} {start key : Text} {result d : Attributes} {v : Json}
    {rest : List (Text × Json)} (hv : v.isScalar = true) (hp : Below p start)
    (h : convertFields draw n start result ((key, v) :: rest) = .ok (d, m))
    (hrest : ∀ r : Attributes, convertFields draw n start r rest = .ok (d, m) →
      d.retain p = r.retain p) :
    d.retain p = result.retain p := by
  rw [convertFields_scalar hv] at h
  rw [hrest _ h, retain_set_below p hp]

mutual

/-- **Flattening writes below its start only.** -/
theorem retain_convert {n m : ℕ} {start : Text} {d : Attributes} (hp : Below p start) :
    {v : Json} → convert draw n start v = .ok (d, m) → d.retain p = OrderedDict.empty
  | .str t, h => by
      rw [convert, Except.ok.injEq, Prod.mk.injEq] at h
      rw [← h.1, retain_set_below p hp]
      rfl
  | .obj fields, h => by
      rw [convert] at h
      exact retain_convertFields hp h
  | .null, h => by cases h
  | .bool _, h => by cases h
  | .int _, h => by cases h
  | .float _ _ _, h => by cases h
  | .arr _, h => by cases h

/-- The items of a dictionary. -/
theorem retain_convertFields {n m : ℕ} {start : Text} {result d : Attributes}
    (hp : Below p start) : {fields : List (Text × Json)} →
      convertFields draw n start result fields = .ok (d, m) → d.retain p = result.retain p
  | [], h => by
      cases h
      rfl
  | (key, .arr xs) :: rest, h => by
      rw [convertFields] at h
      obtain ⟨⟨d₁, m₁⟩, helements, hrest⟩ := ok_of_bind h
      rw [retain_convertFields hp hrest, retain_convertElements (hp.path key) helements]
      split_ifs
      · rfl
      · rw [List.append_assoc, retain_set_below p hp]
  | (key, .obj inner) :: rest, h => by
      rw [convertFields] at h
      rw [retain_convertFields hp h, retain_foldl_of_below p (hp.path key), List.append_assoc,
        retain_set_below p hp]
  | (_, .null) :: _, h => retain_scalar p draw rfl hp h fun _ => retain_convertFields hp
  | (_, .bool _) :: _, h => retain_scalar p draw rfl hp h fun _ => retain_convertFields hp
  | (_, .int _) :: _, h => retain_scalar p draw rfl hp h fun _ => retain_convertFields hp
  | (_, .float _ _ _) :: _, h => retain_scalar p draw rfl hp h fun _ => retain_convertFields hp
  | (_, .str _) :: _, h => retain_scalar p draw rfl hp h fun _ => retain_convertFields hp

/-- The elements of a list. -/
theorem retain_convertElements {n m i : ℕ} {path : Text} {result d : Attributes}
    (hp : ∀ k, p (path ++ '.' :: k) = false) : {xs : List Json} →
      convertElements draw n path i result xs = .ok (d, m) → d.retain p = result.retain p
  | [], h => by
      cases h
      rfl
  | v :: vs, h => by
      rw [convertElements] at h
      obtain ⟨⟨e, m₁⟩, hentries, hrest⟩ := ok_of_bind h
      have hbelow : Below p (path ++ '.' :: numeral i ++ ['.']) := by
        intro k
        rw [List.append_assoc, List.append_assoc, List.cons_append]
        exact hp _
      rw [retain_convertElements hp hrest, retain_overlay, retain_convert hbelow hentries]
      rfl

end

/-! ### Lists of strings -/

/-- Does `_parse_prefix` yield something for this key? -/
def under (start : Text) (sep : Char) (key : Text) : Bool :=
  (restOfKey start sep key).isSome

/-- The keys that `_parse_prefix` yields something for. -/
theorem under_eq_true_iff {start : Text} {sep : Char} (h : sep ∉ start) {key : Text} :
    under start sep key = true ↔ ∃ rest, key = start ++ sep :: rest ∧ rest ≠ ['#'] := by
  rw [under, Option.isSome_iff_exists]
  exact exists_congr fun rest => restOfKey_eq_some_iff h

/-- A list is read from the entries below its name. -/
theorem parseList_eq (source : Attributes) (start : Text) (sep : Char) :
    parseList source start sep = (source.retain (under start sep)).entries.map Prod.snd := by
  rw [parseList, parsePrefix, entries_retain]
  induction source.entries with
  | nil => rfl
  | cons e entries ih =>
      rw [List.filter_cons, List.filterMap_cons, under]
      cases restOfKey start sep e.1 with
      | none => exact ih
      | some rest => exact congrArg (e.2 :: ·) ih

/-- The items of a dictionary, in two parts. -/
theorem convertFields_append {n : ℕ} {start : Text} {result : Attributes}
    (xs ys : List (Text × Json)) :
    convertFields draw n start result (xs ++ ys) = (do
      let (result, n) ← convertFields draw n start result xs
      convertFields draw n start result ys) := by
  induction xs generalizing n result with
  | nil => rfl
  | cons x xs ih =>
      obtain ⟨key, v⟩ := x
      by_cases hv : v.isScalar = true
      · rw [List.cons_append, convertFields_scalar hv, convertFields_scalar hv, ih]
      · cases v with
        | null | bool | int | float | str => exact absurd rfl hv
        | obj inner => rw [List.cons_append, convertFields, convertFields, ih]
        | arr xs =>
            rw [List.cons_append, convertFields, convertFields, bind_assoc]
            exact bind_congr fun x => ih

/-- The numeral in a key of an element is its index. -/
theorem eq_of_numeral_start {path : Text} {i j : ℕ} {rest : Text}
    (h : (path ++ '.' :: numeral j ++ ['.']) <+: (path ++ '.' :: numeral i ++ ['.'] ++ rest)) :
    j = i := by
  obtain ⟨tail, heq⟩ := h
  simp only [List.append_assoc, List.cons_append, List.append_cancel_left_eq, List.cons.injEq,
    true_and, List.nil_append] at heq
  have hdot : ∀ k, '.' ∉ numeral k := fun k hk =>
    absurd (Nat.isDigit_of_mem_toDigits (by decide) (by decide) hk) (by decide)
  have hsplit := congrArg (splitOnce '.') heq
  rw [splitOnce_append (hdot j), splitOnce_append (hdot i), Option.some.injEq,
    Prod.mk.injEq] at hsplit
  exact toDigits_injective hsplit.1

section Strings

variable {draw} {group : Text} (hgroup : '.' ∉ group)
include hgroup

/-- What stands below another name is not read. -/
theorem under_of_other {name : Text} (hname : '.' ∉ name) (hne : name ≠ group) (k : Text) :
    under group '.' (name ++ '.' :: k) = false := by
  rw [Bool.eq_false_iff, ne_eq, under_eq_true_iff hgroup]
  rintro ⟨rest, heq, -⟩
  have hsplit := congrArg (splitOnce '.') heq
  rw [splitOnce_append hname, splitOnce_append hgroup, Option.some.injEq, Prod.mk.injEq] at hsplit
  exact hne hsplit.1

/-- Nor is what has no name above it. -/
theorem under_of_noDot {name : Text} (hname : '.' ∉ name) : under group '.' name = false := by
  rw [Bool.eq_false_iff, ne_eq, under_eq_true_iff hgroup]
  rintro ⟨rest, rfl, -⟩
  exact hname (List.mem_append_right _ List.mem_cons_self)

/-- Items of other names leave what is read. -/
theorem retain_of_others {n m : ℕ} {result d : Attributes} {fields : List (Text × Json)}
    (hfields : ∀ f ∈ fields, '.' ∉ f.1 ∧ f.1 ≠ group)
    (h : convertFields draw n [] result fields = .ok (d, m)) :
    d.retain (under group '.') = result.retain (under group '.') := by
  induction fields generalizing n result with
  | nil =>
      cases h
      rfl
  | cons f rest ih =>
      obtain ⟨⟨hdot, hne⟩, hrest⟩ := List.forall_mem_cons.mp hfields
      obtain ⟨name, v⟩ := f
      have hbelow : ∀ k, under group '.' (name ++ '.' :: k) = false :=
        under_of_other hgroup hdot hne
      by_cases hv : v.isScalar = true
      · rw [convertFields_scalar hv] at h
        rw [ih hrest h, List.nil_append, retain_set, under_of_noDot hgroup hdot]
        rfl
      · cases v with
        | null | bool | int | float | str => exact absurd rfl hv
        | obj inner =>
            have hlength : under group '.' (name ++ ".%".toList) = false := hbelow ['%']
            rw [convertFields] at h
            rw [ih hrest h, List.nil_append, retain_foldl_of_below _ hbelow, retain_set, hlength]
            rfl
        | arr xs =>
            have hlength : under group '.' (name ++ ".#".toList) = false := hbelow ['#']
            rw [convertFields] at h
            obtain ⟨⟨d₁, m₁⟩, helements, hlast⟩ := ok_of_bind h
            rw [ih hrest hlast, retain_convertElements _ _ hbelow helements]
            split_ifs
            · rfl
            · rw [retain_set, List.nil_append, hlength]
              rfl

/-- **The strings of a list are read in order.** Their keys differ in the index, whatever
the random numbers are. -/
theorem values_of_strings {n m i : ℕ} {result d : Attributes} {ts : List Text}
    (hresult : ∀ k ∈ (result.retain (under group '.')).keys,
      ∃ j < i, (group ++ '.' :: numeral j ++ ['.']) <+: k)
    (h : convertElements draw n group i result (ts.map .str) = .ok (d, m)) :
    (d.retain (under group '.')).entries.map Prod.snd
      = (result.retain (under group '.')).entries.map Prod.snd ++ ts.map .str := by
  induction ts generalizing n i result with
  | nil =>
      cases h
      exact (List.append_nil _).symm
  | cons t ts ih =>
      rw [List.map_cons, convertElements] at h
      obtain ⟨⟨e, m₁⟩, hentries, hrest⟩ := ok_of_bind h
      rw [convert, Except.ok.injEq, Prod.mk.injEq] at hentries
      obtain ⟨rfl, rfl⟩ := hentries
      set k := group ++ '.' :: numeral i ++ ['.'] ++ numeral (draw n)
      have hk : under group '.' k = true := by
        refine (under_eq_true_iff hgroup).mpr ⟨numeral i ++ ['.'] ++ numeral (draw n), ?_, ?_⟩
        · simp only [k, List.append_assoc, List.cons_append]
        · intro heq
          have hdot : '.' ∈ ['#'] := heq ▸ List.mem_append_left _
            (List.mem_append_right _ List.mem_cons_self)
          exact absurd hdot (by decide)
      have hnew : k ∉ (result.retain (under group '.')).keys := by
        intro hmem
        obtain ⟨j, hj, hkept⟩ := hresult k hmem
        exact absurd (eq_of_numeral_start hkept) (Nat.ne_of_lt hj)
      have hset : ((result.overlay (OrderedDict.empty.set k (.str t))).retain (under group '.'))
          = (result.retain (under group '.')).set k (.str t) := by
        rw [overlay, entries_set_of_notMem List.not_mem_nil]
        exact (retain_set _ _ _ _).trans (if_pos hk)
      rw [ih ?_ hrest, hset, entries_set_of_notMem hnew, List.map_append, List.append_assoc]
      · rfl
      · intro k' hk'
        rw [hset, keys_set, mem_addKey] at hk'
        rcases hk' with hk' | rfl
        · obtain ⟨j, hj, hkept⟩ := hresult k' hk'
          exact ⟨j, Nat.lt_succ_of_lt hj, hkept⟩
        · exact ⟨i, Nat.lt_succ_self i, List.prefix_append _ _⟩

/-- **What is read below the name of an item** is what this item was flattened to, if its
name and the others have no dots. -/
theorem exists_item {n m : ℕ} {d : Attributes} {fields : List (Text × Json)} {v : Json}
    (hnames : (fields.map Prod.fst).Nodup) (hdots : ∀ f ∈ fields, '.' ∉ f.1)
    (hmem : (group, v) ∈ fields)
    (h : convertFields draw n [] OrderedDict.empty fields = .ok (d, m)) :
    ∃ n₁ m₁ start d₁, convertFields draw n₁ [] start [(group, v)] = .ok (d₁, m₁) ∧
      start.retain (under group '.') = OrderedDict.empty ∧
      d.retain (under group '.') = d₁.retain (under group '.') := by
  obtain ⟨before, after, rfl⟩ := List.append_of_mem hmem
  rw [List.map_append, List.map_cons, List.nodup_middle, List.nodup_cons, List.mem_append,
    not_or] at hnames
  have hothers : ∀ fs : List (Text × Json), (∀ f ∈ fs, '.' ∉ f.1) → group ∉ fs.map Prod.fst →
      ∀ f ∈ fs, '.' ∉ f.1 ∧ f.1 ≠ group := fun fs hfs hno f hf =>
    ⟨hfs f hf, fun heq => hno (heq ▸ List.mem_map_of_mem hf)⟩
  rw [convertFields_append] at h
  obtain ⟨⟨d₁, m₁⟩, hbefore, hrest⟩ := ok_of_bind h
  have hempty := retain_of_others hgroup (hothers before
    (fun f hf => hdots f (List.mem_append_left _ hf)) hnames.1.1) hbefore
  have hitem : convertFields draw m₁ [] d₁ ([(group, v)] ++ after) = .ok (d, m) := hrest
  rw [convertFields_append] at hitem
  obtain ⟨⟨d₂, m₂⟩, hitem, hafter⟩ := ok_of_bind hitem
  have hlast := retain_of_others hgroup (hothers after
    (fun f hf => hdots f (List.mem_append_right _ (List.mem_cons_of_mem _ hf)))
    hnames.1.2) hafter
  exact ⟨m₁, m₂, d₁, d₂, hitem, hempty, hlast⟩

/-- Below the name of a list stand its flattened elements. -/
theorem exists_elements {n m : ℕ} {d : Attributes} {fields : List (Text × Json)}
    {xs : List Json} (hnames : (fields.map Prod.fst).Nodup) (hdots : ∀ f ∈ fields, '.' ∉ f.1)
    (hmem : (group, .arr xs) ∈ fields)
    (h : convertFields draw n [] OrderedDict.empty fields = .ok (d, m)) :
    ∃ n₁ m₁ start d₁, convertElements draw n₁ group 0 start xs = .ok (d₁, m₁) ∧
      start.retain (under group '.') = OrderedDict.empty ∧
      d.retain (under group '.') = d₁.retain (under group '.') := by
  obtain ⟨n₁, m₁, start, d₁, hitem, hempty, hlast⟩ := exists_item hgroup hnames hdots hmem h
  rw [convertFields] at hitem
  obtain ⟨⟨d₂, m₂⟩, helements, hdone⟩ := ok_of_bind hitem
  cases hdone
  -- the length of the list is not read as one of its elements
  have hlength : under group '.' ([] ++ group ++ ".#".toList) = false := by
    rw [Bool.eq_false_iff, ne_eq, under_eq_true_iff hgroup]
    rintro ⟨rest, heq, hne⟩
    exact hne (List.cons.inj (List.append_cancel_left heq)).2.symm
  refine ⟨n₁, m₁, _, d₁, helements, ?_, hlast⟩
  split_ifs
  · exact hempty
  · rw [retain_set, hlength]
    exact hempty

/-- **A list of strings is read back as it was**, if its name and the others have no dots. -/
theorem parseList_of_strings {n m : ℕ} {d : Attributes} {fields : List (Text × Json)}
    {ts : List Text} (hnames : (fields.map Prod.fst).Nodup) (hdots : ∀ f ∈ fields, '.' ∉ f.1)
    (hmem : (group, .arr (ts.map .str)) ∈ fields)
    (h : convertFields draw n [] OrderedDict.empty fields = .ok (d, m)) :
    parseList d group '.' = ts.map .str := by
  obtain ⟨n₁, m₁, start, d₁, helements, hstart, hlast⟩ :=
    exists_elements hgroup hnames hdots hmem h
  have hvalues := values_of_strings hgroup ?_ helements
  · rw [parseList_eq, hlast, hvalues, hstart]
    rfl
  · rw [hstart]
    exact fun k hk => absurd hk List.not_mem_nil

end Strings

end Kubespray.Terraform
