import Kubespray.Terraform.Lists

/-!
# The Version 4 Reader

`iterresources` flattens the attributes of every instance before any later step looks at
the type of the resource. So one list whose elements cannot be flattened, in a resource
that the inventory does not use, ends the whole reading.

## Main results

* `exists_read_iff`: when the step for one instance yields a record.
* `readsEvery_iff`: when the reading yields a record for every instance.
-/

namespace Kubespray.Terraform

open OrderedDict Fallible

variable {repr : Json → Text}

/-- The keys of the instances of some resources. -/
def instanceKeys (repr : Json → Text) (resources : List Resource) : List Text :=
  resources.flatMap fun r => r.instances.map (r.key repr)

/-- The reading of a version 4 state yields one record for every instance, and raises
nothing. -/
def ReadsEvery (repr : Json → Text) (draw : ℕ → ℕ → ℕ) (resources : List Resource) : Prop :=
  ∃ records : List Record, iterresources repr draw [.v4 resources] = records.map .ok ∧
    records.map Record.key = instanceKeys repr resources

/-- The key of an entry. -/
def Entry.key : Entry → Text
  | .flat _ key _ | .nested _ key _ => key
  | .failing _ => []

/-- The step for one instance yields a record when its attributes can be flattened. -/
theorem exists_read_iff {draw : ℕ → ℕ} {moduleName key : Text} {fields : List (Text × Json)} :
    (∃ r, (Entry.nested moduleName key (.obj fields)).read draw = .ok r) ↔
      flattensFields fields = true := by
  have hfields : (∃ x, convertFields draw 0 [] empty fields = .ok x) ↔
      flattensFields fields = true := exists_convertFields_iff fields
  rw [← hfields, Entry.read, convert]
  constructor
  · rintro ⟨r, h⟩
    obtain ⟨x, hx, -⟩ := ok_of_bind h
    exact ⟨x, hx⟩
  · rintro ⟨x, hx⟩
    exact ⟨_, bind_eq_ok_iff.mpr ⟨x, hx, rfl⟩⟩

/-- The record of an instance has the key of the instance. -/
theorem key_of_read {draw : ℕ → ℕ} {moduleName key : Text} {attributes : Json} {r : Record}
    (h : (Entry.nested moduleName key attributes).read draw = .ok r) : r.key = key := by
  cases attributes with
  | null | bool | int | float | str | arr => cases h
  | obj fields =>
      obtain ⟨a, -, hok⟩ := ok_of_bind h
      cases hok
      rfl

/-- The entries of a version 4 state are its instances. -/
theorem mem_entries_resources {resources : List Resource} {e : Entry} :
    e ∈ resources.flatMap (Resource.entries repr) ↔
      ∃ r ∈ resources, ∃ i ∈ r.instances, e = .nested ((r.provider.splitOn '.').getLast?.getD [])
        (r.key repr i) i.attributes := by
  simp only [List.mem_flatMap, Resource.entries, List.mem_map, eq_comm]

/-- The records that are read have the keys of their instances. -/
theorem keys_of_reads {draw : ℕ → ℕ → ℕ} {resources : List Resource} {records : List Record}
    (h : iterresources repr draw [.v4 resources] = records.map .ok) :
    records.map Record.key = instanceKeys repr resources := by
  set entries := resources.flatMap (Resource.entries repr) with hentries
  have hreads : entries.mapIdx (fun i e => e.read (draw i)) = records.map .ok := by
    rw [← h, iterresources, List.flatMap_singleton]
    rfl
  have hlength : records.length = entries.length := by
    simpa using (congrArg List.length hreads).symm
  have hkeys : instanceKeys repr resources = entries.map Entry.key := by
    rw [hentries, List.map_flatMap, instanceKeys]
    refine List.flatMap_congr fun r _ => ?_
    rw [Resource.entries, List.map_map]
    rfl
  rw [hkeys]
  refine List.ext_getElem (by simpa using hlength) fun i hi _ => ?_
  rw [List.length_map] at hi
  have hi' : i < entries.length := hlength ▸ hi
  have hread : entries[i].read (draw i) = .ok records[i] := by
    have hget := List.getElem_of_eq hreads (by simpa using hi')
    rwa [List.getElem_mapIdx, List.getElem_map] at hget
  rw [List.getElem_map, List.getElem_map]
  obtain ⟨r, -, instance_, -, heq⟩ := mem_entries_resources.mp (List.getElem_mem hi')
  rw [heq] at hread ⊢
  exact key_of_read hread

/-- **The reader handles a state** exactly when the attributes of each of its instances can
be flattened, whatever the type of the resource. -/
theorem readsEvery_iff (draw : ℕ → ℕ → ℕ) {resources : List Resource}
    (hobjects : ∀ r ∈ resources, ∀ i ∈ r.instances, ∃ fields, i.attributes = .obj fields) :
    ReadsEvery repr draw resources ↔
      ∀ r ∈ resources, ∀ i ∈ r.instances, flattens i.attributes = true := by
  have hsteps : ReadsEvery repr draw resources ↔
      ∀ i (h : i < (resources.flatMap (Resource.entries repr)).length), ∃ record,
        (resources.flatMap (Resource.entries repr))[i].read (draw i) = .ok record := by
    rw [← exists_mapIdx_ok_iff]
    constructor
    · rintro ⟨records, hreads, -⟩
      exact ⟨records, by rwa [iterresources, List.flatMap_singleton] at hreads⟩
    · rintro ⟨records, hreads⟩
      have hok : iterresources repr draw [.v4 resources] = records.map .ok := by
        rwa [iterresources, List.flatMap_singleton]
      exact ⟨records, hok, keys_of_reads hok⟩
  rw [hsteps]
  constructor
  · intro h r hr instance_ hinstance
    obtain ⟨i, hi, heq⟩ := List.mem_iff_getElem.mp
      (mem_entries_resources.mpr ⟨r, hr, instance_, hinstance, rfl⟩)
    obtain ⟨record, hread⟩ := h i hi
    obtain ⟨fields, hfields⟩ := hobjects r hr instance_ hinstance
    rw [heq, hfields] at hread
    rw [hfields, flattens]
    exact exists_read_iff.mp ⟨record, hread⟩
  · intro h i hi
    obtain ⟨r, hr, instance_, hinstance, heq⟩ :=
      mem_entries_resources.mp (List.getElem_mem hi)
    obtain ⟨fields, hfields⟩ := hobjects r hr instance_ hinstance
    have hflattens := h r hr instance_ hinstance
    rw [hfields, flattens] at hflattens
    rw [heq, hfields]
    exact exists_read_iff.mpr hflattens

/-- A resource with one instance that the inventory does not use. -/
def unusedResource (attributes : Json) : Resource :=
  ⟨"openstack_networking_secgroup_v2".toList, "base".toList, "provider.openstack".toList,
    [⟨none, attributes⟩]⟩

/-- A list of texts can be flattened. -/
theorem readsEvery_texts : ReadsEvery (fun _ => []) (fun _ n => n)
    [unusedResource (.obj [("tags".toList, .arr [.str "a".toList])])] := by
  refine (readsEvery_iff _ ?_).mpr ?_
  · intro r hr i hi
    obtain rfl := List.mem_singleton.mp hr
    obtain rfl := List.mem_singleton.mp hi
    exact ⟨_, rfl⟩
  · intro r hr i hi
    obtain rfl := List.mem_singleton.mp hr
    obtain rfl := List.mem_singleton.mp hi
    rfl

/-- A list of numbers cannot, in a resource that the inventory does not use. -/
theorem readsEvery_fails :
    ¬ ∀ (repr : Json → Text) (draw : ℕ → ℕ → ℕ) (resources : List Resource),
      (∀ r ∈ resources, ∀ i ∈ r.instances, ∃ fields, i.attributes = .obj fields) →
        ReadsEvery repr draw resources := by
  intro h
  obtain ⟨records, hreads, -⟩ := h (fun _ => []) (fun _ n => n)
    [unusedResource (.obj [("ports".toList, .arr [.int 80])])] (by
      intro r hr i hi
      obtain rfl := List.mem_singleton.mp hr
      obtain rfl := List.mem_singleton.mp hi
      exact ⟨_, rfl⟩)
  cases records with
  | nil => cases hreads
  | cons r rs => cases (List.cons.inj hreads).1

end Kubespray.Terraform
