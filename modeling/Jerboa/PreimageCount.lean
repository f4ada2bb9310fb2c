import Mathlib.Data.Finset.Card
import Mathlib.Logic.Function.Basic

/-!
# How many keys a partial map sends to a value

The number of keys with a given value, followed through changes of the map at
single keys.
-/

namespace PreimageCount

variable {Key Value : Type*}

/-- The map sends `n` keys to the value. -/
def Counts (map : Key → Option Value) (value : Value) (n : Nat) : Prop :=
  ∃ keys : Finset Key, (∀ key, key ∈ keys ↔ map key = some value) ∧ keys.card = n

variable {map : Key → Option Value} {value : Value} {n m : Nat}

theorem counts_zero (absent : ∀ key, map key ≠ some value) : Counts map value 0 :=
  ⟨∅, by simpa using absent, rfl⟩

theorem Counts.exists_key (counts : Counts map value n) (positive : 1 ≤ n) :
    ∃ key, map key = some value := by
  obtain ⟨keys, mem_keys, rfl⟩ := counts
  obtain ⟨key, member⟩ := Finset.card_pos.mp positive
  exact ⟨key, (mem_keys key).mp member⟩

variable [DecidableEq Key] [DecidableEq Value]

def hits (child : Option Value) (value : Value) : Nat :=
  if child = some value then 1 else 0

theorem Counts.update (counts : Counts map value n) (key : Key) (child : Option Value)
    (balance : m + hits (map key) value = n + hits child value) :
    Counts (Function.update map key child) value m := by
  obtain ⟨keys, mem_keys, rfl⟩ := counts
  have mem_others : ∀ other, other ≠ key →
      (other ∈ keys ↔ Function.update map key child other = some value) := by
    intro other different
    rw [mem_keys, Function.update_of_ne different]
  by_cases gets : child = some value
  · refine ⟨insert key keys, ?_, ?_⟩
    · intro other
      by_cases same : other = key
      · simp [same, gets]
      · rw [Finset.mem_insert, or_iff_right same, mem_others other same]
    · by_cases had : map key = some value
      · rw [Finset.insert_eq_of_mem ((mem_keys key).mpr had)]
        simp only [hits, had, gets, if_true] at balance
        omega
      · rw [Finset.card_insert_of_notMem fun member => had ((mem_keys key).mp member)]
        simp only [hits, had, gets, if_true, if_false] at balance
        omega
  · refine ⟨keys.erase key, ?_, ?_⟩
    · intro other
      by_cases same : other = key
      · simp [same, gets]
      · rw [Finset.mem_erase, and_iff_right same, mem_others other same]
    · by_cases had : map key = some value
      · rw [Finset.card_erase_of_mem ((mem_keys key).mpr had)]
        simp only [hits, had, gets, if_true, if_false] at balance
        omega
      · rw [Finset.erase_eq_of_notMem fun member => had ((mem_keys key).mp member)]
        simp only [hits, had, gets, if_false] at balance
        omega

end PreimageCount
