import Kubespray.Terraform.Lists

/-!
# Maps through the Flattening

`convert_to_v3_structure` puts the number of the entries of a map beside them, under the
key `%`, as it puts the length of a list under `#`. `_parse_prefix` passes over `#` only.
So what is read of a map has an entry that the map did not have, and an OpenStack host is
in a group that none of its metadata stands for.

## Main results

* `parsePrefix_of_map`: a map is read back after the number of its entries.
* `mapsSurvive_iff`: only attributes without a map survive.
* `openstackHost_of_metadata`: where the number of the metadata of a host goes.
-/

namespace Kubespray.Terraform

open OrderedDict Fallible

variable {draw : ℕ → ℕ}

/-- The entries of a map of scalars, none of them under `#` or `%`. -/
structure IsMap (inner : List (Text × Json)) : Prop where
  nodup : (inner.map Prod.fst).Nodup
  keys : ∀ e ∈ inner, e.1 ≠ ['#'] ∧ e.1 ≠ ['%']
  scalar : ∀ e ∈ inner, e.2.isScalar = true

/-- The number of the entries of a map, as the flattening adds it. -/
def counted (inner : List (Text × Json)) : List (Text × Json) :=
  (['%'], .int inner.length) :: inner

/-- The keys of a counted map are distinct. -/
theorem IsMap.nodup_counted {inner : List (Text × Json)} (h : IsMap inner) :
    ((counted inner).map Prod.fst).Nodup := by
  refine List.nodup_cons.mpr ⟨fun hmem => ?_, h.nodup⟩
  obtain ⟨e, he, heq⟩ := List.mem_map.mp hmem
  exact (h.keys e he).2 heq

/-- **A map is read back after the number of its entries**, if its name and the others have
no dots. -/
theorem parsePrefix_of_map {n m : ℕ} {group : Text} {d : Attributes}
    {fields inner : List (Text × Json)} (hf : Undotted fields)
    (hmem : (group, .obj inner) ∈ fields) (hinner : IsMap inner)
    (h : convertFields draw n [] OrderedDict.empty fields = .ok (d, m)) :
    parsePrefix d group '.' = counted inner := by
  have hgroup : '.' ∉ group := hf.noDot _ hmem
  obtain ⟨n₁, m₁, start, d₁, hitem, hempty, hlast⟩ :=
    exists_item hgroup hf.nodup hf.noDot hmem h
  have hnot : ∀ e ∈ counted inner, e.1 ≠ ['#'] := by
    intro e he
    rcases List.mem_cons.mp he with rfl | he
    · exact fun heq => absurd (List.cons.inj heq).1 (by decide)
    · exact (hinner.keys e he).1
  have hd₁ : d₁ = (counted inner).foldl (fun acc e => acc.set (group ++ '.' :: e.1) e.2) start := by
    rw [convertFields] at hitem
    cases hitem
    rfl
  have hpass : ((counted inner).map fun e => (group ++ '.' :: e.1, e.2)).filter
      (fun x => under group '.' x.1) = (counted inner).map fun e => (group ++ '.' :: e.1, e.2) := by
    refine List.filter_eq_self.mpr fun x hx => ?_
    obtain ⟨e, he, rfl⟩ := List.mem_map.mp hx
    exact (under_eq_true_iff hgroup).mpr ⟨e.1, rfl, hnot e he⟩
  refine parsePrefix_eq hgroup d hnot ?_
  rw [hlast, hd₁, retain_foldl_below, hpass, hempty, entries_foldl_set]
  · rfl
  · have hkeys : ((counted inner).map fun e => (group ++ '.' :: e.1, e.2)).map Prod.fst
        = ((counted inner).map Prod.fst).map (fun k => group ++ '.' :: k) := by
      rw [List.map_map, List.map_map]
      rfl
    rw [hkeys]
    exact hinner.nodup_counted.map fun _ _ heq => (List.cons.inj (List.append_cancel_left heq)).2
  · exact fun x _ => List.not_mem_nil

/-- What is read of a map is not the map. -/
theorem parseDict_ne_of_map {n m : ℕ} {group : Text} {d : Attributes}
    {fields inner : List (Text × Json)} (hf : Undotted fields)
    (hmem : (group, .obj inner) ∈ fields) (hinner : IsMap inner)
    (h : convert draw n [] (.obj fields) = .ok (d, m)) :
    parseDict d group '.' ≠ ofList inner := by
  rw [convert] at h
  rw [parseDict, parsePrefix_of_map hf hmem hinner h]
  intro heq
  have hnumber : (ofList (counted inner) : Attributes).get? ['%'] = some (.int inner.length) :=
    (get?_ofList hinner.nodup_counted).mpr List.mem_cons_self
  have hnone : (ofList inner : Attributes).get? ['%'] = none :=
    get?_ofList_of_notMem (List.nodup_cons.mp hinner.nodup_counted).1
  rw [heq, hnone] at hnumber
  cases hnumber

/-- Every map of scalars is read back from the flattened attributes as it was. -/
def MapsSurvive (draw : ℕ → ℕ) (fields : List (Text × Json)) : Prop :=
  ∀ k inner, (k, .obj inner) ∈ fields → IsMap inner →
    ∃ d n, convert draw 0 [] (.obj fields) = .ok (d, n) ∧ parseDict d k '.' = ofList inner

/-- **No map survives the flattening**: the attributes for which every map does are those
without a map. -/
theorem mapsSurvive_iff (draw : ℕ → ℕ) {fields : List (Text × Json)} (hf : Undotted fields) :
    MapsSurvive draw fields ↔ ¬ ∃ k inner, (k, .obj inner) ∈ fields ∧ IsMap inner := by
  constructor
  · rintro h ⟨k, inner, hmem, hinner⟩
    obtain ⟨d, n, hconvert, hread⟩ := h k inner hmem hinner
    exact parseDict_ne_of_map hf hmem hinner hconvert hread
  · exact fun hno k inner hmem hinner => absurd ⟨k, inner, hmem, hinner⟩ hno

/-- Attributes that are texts. -/
theorem mapsSurvive_texts : MapsSurvive (fun n => n)
    [("name".toList, .str "node1".toList), ("region".toList, .str "north".toList)] := by
  refine (mapsSurvive_iff _ ⟨by decide, by decide⟩).mpr ?_
  rintro ⟨k, inner, hmem, -⟩
  simp at hmem

/-- The metadata of a host with one entry. -/
theorem mapsSurvive_fails :
    ¬ ∀ (draw : ℕ → ℕ) (fields : List (Text × Json)), Undotted fields →
      MapsSurvive draw fields := by
  intro h
  have hf : Undotted
      [("metadata".toList, .obj [("ssh_user".toList, .str "ubuntu".toList)])] :=
    ⟨by decide, by decide⟩
  have hinner : IsMap [("ssh_user".toList, .str "ubuntu".toList)] :=
    ⟨by decide, by decide, by decide⟩
  obtain ⟨d, n, hconvert, hread⟩ := h (fun n => n) _ hf _ _ List.mem_cons_self hinner
  exact parseDict_ne_of_map hf List.mem_cons_self hinner hconvert hread

/-! ### The metadata of a host -/

/-- Every entry of the metadata of a host stands for a group. -/
theorem metadata_group_mem {repr : Json → Text} {raw : Attributes} {h : Host} {e : Text × Json}
    (hok : openstackHost repr raw = .ok h)
    (he : e ∈ (parseDict raw "metadata".toList '.').entries) :
    sanitize ("os_metadata_".toList ++ e.1 ++ '=' :: pyStr repr e.2) ∈ h.groups := by
  obtain ⟨made, hmade, hlast⟩ := ok_of_bind hok
  cases hlast
  obtain ⟨name, -, hmade⟩ := ok_of_bind hmade
  obtain ⟨accessIpV4, -, hmade⟩ := ok_of_bind hmade
  obtain ⟨accessIpV6, -, hmade⟩ := ok_of_bind hmade
  obtain ⟨ip, -, hmade⟩ := ok_of_bind hmade
  obtain ⟨id, -, hmade⟩ := ok_of_bind hmade
  obtain ⟨keyPair, -, hmade⟩ := ok_of_bind hmade
  obtain ⟨network, -, hmade⟩ := ok_of_bind hmade
  obtain ⟨port, -, hmade⟩ := ok_of_bind hmade
  obtain ⟨host, -, hmade⟩ := ok_of_bind hmade
  obtain ⟨volumes, -, hmade⟩ := ok_of_bind hmade
  obtain ⟨groups, hgroups, hmade⟩ := ok_of_bind hmade
  cases hmade
  obtain ⟨image, -, hgroups⟩ := ok_of_bind hgroups
  obtain ⟨flavor, -, hgroups⟩ := ok_of_bind hgroups
  obtain ⟨kubespray, -, hgroups⟩ := ok_of_bind hgroups
  cases hgroups
  have hmem : sanitize ("os_metadata_".toList ++ e.1 ++ '=' :: pyStr repr e.2)
      ∈ (("os_image=".toList ++ pyStr repr image) :: ("os_flavor=".toList ++ pyStr repr flavor)
        :: (parseDict raw "metadata".toList '.').entries.map (fun e =>
          "os_metadata_".toList ++ e.1 ++ '=' :: pyStr repr e.2)
        ++ ("os_region=".toList ++ pyStr repr ((raw.get? "region".toList).getD (.str [])))
        :: kubespray).map sanitize := by
    refine List.mem_map_of_mem (List.mem_append_left _ ?_)
    exact List.mem_cons_of_mem _ (List.mem_cons_of_mem _
      (List.mem_map_of_mem (f := fun e : Text × Json =>
        "os_metadata_".toList ++ e.1 ++ '=' :: pyStr repr e.2) he))
  rw [calculateMantlVars]
  dsimp only
  split_ifs
  · exact List.mem_append_left _ hmem
  · exact hmem

/-- **Where the number of the metadata of a host goes**: into its variable `metadata`, and
into the name of a group. -/
theorem openstackHost_of_metadata {repr : Json → Text} {n m : ℕ} {d : Attributes}
    {fields inner : List (Text × Json)} {h : Host} (hf : Undotted fields)
    (hmem : ("metadata".toList, .obj inner) ∈ fields) (hinner : IsMap inner)
    (hflat : convertFields draw n [] OrderedDict.empty fields = .ok (d, m))
    (hok : openstackHost repr d = .ok h) :
    h.attrs.get? "metadata".toList = some (.obj (counted inner)) ∧
      sanitize ("os_metadata_%=".toList ++ intText inner.length) ∈ h.groups := by
  have hread : parseDict d "metadata".toList '.' = ofList (counted inner) := by
    rw [parseDict, parsePrefix_of_map hf hmem hinner hflat]
  constructor
  · rw [(openstackHost_eq_ok hok).metadata, hread, toJson_ofList hinner.nodup_counted]
  · refine metadata_group_mem hok (e := (['%'], .int inner.length)) ?_
    rw [hread]
    exact mem_entries_of_get? ((get?_ofList hinner.nodup_counted).mpr List.mem_cons_self)

end Kubespray.Terraform
