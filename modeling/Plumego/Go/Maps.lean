/-
Module: Plumego.Go.Maps
Purpose: Go maps, most of them with string keys: their key-value pairs, how insertion and
  deletion change them, and the order in which `range` visits them.
Trusted boundary: the order of a `range` loop is left open; `MapOrder` is any
  choice of it.
Main exports: StringMap, MapOrder, mapValues, keepEntries, values_insert_perm, values_erase_perm
-/
import Mathlib.Data.List.AList
import Plumego.Go.Strings

namespace Plumego.Go

variable {V : Type}

/-- A Go `map[string]V`. -/
abbrev StringMap (V : Type) := AList (fun _ : Bytes => V)

/-- Equality of maps, in a form that evaluates. -/
instance [DecidableEq V] : DecidableEq (StringMap V) := fun first second =>
  decidable_of_iff (first.entries = second.entries) AList.ext_iff.symm

/-- The key-value pairs of a map, in some order. -/
def pairs (map : StringMap V) : List (Bytes × V) :=
  map.entries.map fun entry => (entry.1, entry.2)

/-- The values of a map, in some order. -/
def values (map : StringMap V) : List V := (pairs map).map Prod.snd

/-- An order for every `range` loop over a map. -/
structure MapOrder (V : Type) where
  list : StringMap V → List (Bytes × V)
  perm : ∀ map, (list map).Perm (pairs map)

/-- A `range` loop that changes the value of every key by itself. -/
def mapValues {W : Type} (change : Bytes → V → W) (map : StringMap V) : StringMap W where
  entries := map.entries.map fun entry => ⟨entry.1, change entry.1 entry.2⟩
  nodupKeys := by
    rw [List.NodupKeys, List.keys, List.map_map]
    exact map.nodupKeys

@[simp] theorem lookup_mapValues {W : Type} (change : Bytes → V → W) (map : StringMap V)
    (key : Bytes) :
    (mapValues change map).lookup key = (map.lookup key).map (change key) := by
  have changed : ∀ entries : List (Σ _ : Bytes, V),
      List.dlookup key (entries.map fun entry => (⟨entry.1, change entry.1 entry.2⟩ : Σ _ : Bytes, W)) =
        (List.dlookup key entries).map (change key) := fun entries => List.dlookup_map₂ key
  exact changed map.entries

/-- A `range` loop that deletes the entries that do not pass a test. -/
def keepEntries {K : Type} (keep : K → V → Bool) (map : AList (fun _ : K => V)) :
    AList (fun _ : K => V) where
  entries := map.entries.filter fun entry => keep entry.1 entry.2
  nodupKeys := List.NodupKeys.sublist List.filter_sublist map.nodupKeys

/-- The order in which the model lists a map. -/
def listedOrder (V : Type) : MapOrder V := ⟨pairs, fun _ => List.Perm.refl _⟩

theorem mem_pairs {map : StringMap V} {key : Bytes} {value : V} :
    (key, value) ∈ pairs map ↔ map.lookup key = some value := by
  rw [← Option.mem_def, AList.mem_lookup_iff, pairs, List.mem_map]
  constructor
  · rintro ⟨⟨otherKey, otherValue⟩, member, same⟩
    rw [Prod.mk.injEq] at same
    obtain ⟨rfl, rfl⟩ := same
    exact member
  · intro member
    exact ⟨⟨key, value⟩, member, rfl⟩

theorem lookup_keepEntries {K : Type} [DecidableEq K] {keep : K → V → Bool}
    {map : AList (fun _ : K => V)} {key : K} {value : V} :
    (keepEntries keep map).lookup key = some value ↔
      map.lookup key = some value ∧ keep key value = true := by
  rw [← Option.mem_def, ← Option.mem_def, AList.mem_lookup_iff, AList.mem_lookup_iff, keepEntries,
    List.mem_filter]

theorem mem_values {map : StringMap V} {value : V} :
    value ∈ values map ↔ ∃ key, map.lookup key = some value := by
  rw [values, List.mem_map]
  constructor
  · rintro ⟨⟨key, found⟩, member, rfl⟩
    exact ⟨key, mem_pairs.mp member⟩
  · rintro ⟨key, found⟩
    exact ⟨(key, value), mem_pairs.mpr found, rfl⟩

@[simp] theorem values_empty : values (∅ : StringMap V) = [] := rfl

theorem keys_pairs (map : StringMap V) : (pairs map).map Prod.fst = map.keys := by
  rw [pairs, List.map_map]
  rfl

theorem nodup_pairs_keys (map : StringMap V) : ((pairs map).map Prod.fst).Nodup := by
  rw [keys_pairs]
  exact map.keys_nodup

@[simp] theorem length_values (map : StringMap V) :
    (values map).length = map.keys.length := by
  rw [← keys_pairs, values, List.length_map, List.length_map]

/-- A new key adds its value. -/
theorem values_insert_perm {map : StringMap V} {key : Bytes} (value : V)
    (absent : map.lookup key = none) :
    (values (map.insert key value)).Perm (value :: values map) := by
  have notMem : key ∉ map := AList.lookup_eq_none.mp absent
  rw [values, values, pairs, pairs, AList.entries_insert_of_notMem notMem]
  exact List.Perm.refl _

/-- Deleting a key takes its value away. -/
theorem values_erase_perm {map : StringMap V} {key : Bytes} {value : V}
    (found : map.lookup key = some value) :
    (values map).Perm (value :: values (map.erase key)) := by
  have member : key ∈ map := AList.lookup_isSome.mp (by rw [found]; rfl)
  obtain ⟨stored, front, back, notFront, split, erased⟩ := List.exists_of_kerase member
  have storedEq : stored = value := by
    have inEntries : (⟨key, stored⟩ : Sigma fun _ : Bytes => V) ∈ map.entries := by
      rw [split]
      simp
    have lookupEq := AList.mem_lookup_iff.mpr inEntries
    rw [Option.mem_def, found, Option.some.injEq] at lookupEq
    exact lookupEq.symm
  subst storedEq
  have erasedEq : (map.erase key).entries = front ++ back := erased
  rw [values, values, pairs, pairs, erasedEq, split]
  simp

/-- Inserting replaces what was under the key. -/
theorem insert_erase (map : StringMap V) (key : Bytes) (value : V) :
    (map.erase key).insert key value = map.insert key value := by
  have notMem : key ∉ map.erase key := by simp
  refine AList.ext ?_
  rw [AList.entries_insert_of_notMem notMem, AList.entries_insert]
  rfl

/-- Erasing only drops entries. -/
theorem lookup_of_erase {map : StringMap V} {key other : Bytes} {value : V}
    (found : (map.erase key).lookup other = some value) : map.lookup other = some value := by
  by_cases same : other = key
  · rw [same, AList.lookup_erase] at found
    cases found
  · rwa [AList.lookup_erase_ne same] at found

end Plumego.Go
