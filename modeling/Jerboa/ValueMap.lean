import Mathlib.Data.List.AList

/-!
# Finite maps by value

A finite map is an association list without repeated keys.  Beside the lookup
by key, programs also go over the values of a map: they drop all keys with a
given value, and they search for the only value that meets a condition.
-/

abbrev ValueMap (Key Value : Type*) := AList fun _ : Key => Value

namespace ValueMap

variable {Key Value : Type*} [DecidableEq Key]

def values (map : ValueMap Key Value) : List Value :=
  map.entries.map Sigma.snd

theorem mem_values {map : ValueMap Key Value} {value : Value} :
    value ∈ values map ↔ ∃ key, map.lookup key = some value := by
  constructor
  · intro member
    obtain ⟨⟨key, other⟩, entry, rfl⟩ := List.mem_map.mp member
    exact ⟨key, AList.mem_lookup_iff.mpr entry⟩
  · rintro ⟨key, found⟩
    exact List.mem_map.mpr ⟨⟨key, value⟩, AList.mem_lookup_iff.mp found, rfl⟩

theorem lookup_insert_cases (map : ValueMap Key Value) (key other : Key) (value : Value) :
    (map.insert key value).lookup other = if other = key then some value else map.lookup other := by
  split
  · rename_i same
    rw [same, AList.lookup_insert]
  · rename_i different
    exact AList.lookup_insert_ne different

theorem lookup_erase_cases (map : ValueMap Key Value) (key other : Key) :
    (map.erase key).lookup other = if other = key then none else map.lookup other := by
  split
  · rename_i same
    rw [same, AList.lookup_erase]
  · rename_i different
    exact AList.lookup_erase_ne different

theorem mem_values_insert {map : ValueMap Key Value} {key : Key} {value other : Value} :
    other ∈ values (map.insert key value) ↔
      other = value ∨ ∃ key', key' ≠ key ∧ map.lookup key' = some other := by
  rw [mem_values]
  simp only [lookup_insert_cases]
  constructor
  · intro ⟨key', found⟩
    split at found
    · exact .inl (Option.some.inj found).symm
    · rename_i different
      exact .inr ⟨key', different, found⟩
  · rintro (rfl | ⟨key', different, found⟩)
    · exact ⟨key, if_pos rfl⟩
    · exact ⟨key', by rw [if_neg different, found]⟩

def keepValues (map : ValueMap Key Value) (keep : Value → Bool) : ValueMap Key Value where
  entries := map.entries.filter fun entry => keep entry.2
  nodupKeys := List.NodupKeys.sublist List.filter_sublist map.nodupKeys

theorem lookup_keepValues (map : ValueMap Key Value) (keep : Value → Bool) (key : Key) :
    (keepValues map keep).lookup key = (map.lookup key).filter keep := by
  apply Option.ext
  intro other
  rw [Option.filter_eq_some_iff]
  constructor
  · intro found
    have entry := AList.mem_lookup_iff.mp found
    obtain ⟨old, kept⟩ := List.mem_filter.mp entry
    exact ⟨AList.mem_lookup_iff.mpr old, kept⟩
  · intro ⟨found, kept⟩
    apply AList.mem_lookup_iff.mpr
    apply List.mem_filter.mpr
    exact ⟨AList.mem_lookup_iff.mp found, kept⟩

def mapValues (map : ValueMap Key Value) (change : Value → Value) : ValueMap Key Value where
  entries := map.entries.map fun entry => ⟨entry.1, change entry.2⟩
  nodupKeys := by
    have sameKeys : (map.entries.map fun entry =>
        (⟨entry.1, change entry.2⟩ : Sigma fun _ : Key => Value)).keys = map.entries.keys := by
      simp only [List.keys, List.map_map, Function.comp_def]
    rw [List.NodupKeys, sameKeys]
    exact map.nodupKeys

theorem lookup_mapValues (map : ValueMap Key Value) (change : Value → Value) (key : Key) :
    (mapValues map change).lookup key = (map.lookup key).map change := by
  apply Option.ext
  intro other
  rw [Option.map_eq_some_iff]
  constructor
  · intro found
    have entry := AList.mem_lookup_iff.mp found
    obtain ⟨⟨name, value⟩, old, same⟩ := List.mem_map.mp entry
    cases same
    exact ⟨value, AList.mem_lookup_iff.mpr old, rfl⟩
  · rintro ⟨value, found, rfl⟩
    apply AList.mem_lookup_iff.mpr
    exact List.mem_map.mpr ⟨⟨key, value⟩, AList.mem_lookup_iff.mp found, rfl⟩

end ValueMap

section OnlyMatch

variable {Value : Type*} [DecidableEq Value]

def onlyMatch (condition : Value → Bool) (list : List Value) : Option Value :=
  (list.find? condition).filter fun value =>
    list.all fun other => decide (condition other = true → other = value)

theorem onlyMatch_eq_some_iff {condition : Value → Bool} {list : List Value} {value : Value} :
    onlyMatch condition list = some value ↔
      value ∈ list ∧ condition value = true ∧
        ∀ other ∈ list, condition other = true → other = value := by
  simp only [onlyMatch, Option.filter_eq_some_iff, List.all_eq_true, decide_eq_true_eq]
  constructor
  · intro ⟨found, unique⟩
    exact ⟨List.mem_of_find?_eq_some found, List.find?_some found, unique⟩
  · intro ⟨member, holds, unique⟩
    refine ⟨?_, unique⟩
    cases found : list.find? condition with
    | none => exact absurd holds (by simpa using List.find?_eq_none.mp found value member)
    | some first =>
      rw [unique first (List.mem_of_find?_eq_some found) (List.find?_some found)]

theorem onlyMatch_congr {condition : Value → Bool} {left right : List Value}
    (same : ∀ value, value ∈ left ↔ value ∈ right) :
    onlyMatch condition left = onlyMatch condition right := by
  apply Option.ext
  intro value
  simp only [onlyMatch_eq_some_iff, same]

end OnlyMatch
