import Mathlib.Data.List.Basic

/-!
# Slices of arrays

A slice is the front part of an array: its items are the first cells of the
array, and the cells behind them keep whatever they held before.  Slicing again
up to the capacity shows those cells, copying overwrites the front of a slice,
and appending uses the cells behind the items as long as they suffice.
-/

structure ArraySlice (α : Type*) where
  cells : List α
  length : Nat
  bounded : length ≤ cells.length

namespace ArraySlice

open List

variable {α : Type*}

def items (s : ArraySlice α) : List α :=
  s.cells.take s.length

def cap (s : ArraySlice α) : Nat :=
  s.cells.length

def empty : ArraySlice α :=
  ⟨[], 0, Nat.le_refl 0⟩

/-- A slice of a new array, all of whose cells are `zero`; `none` if the length
exceeds the capacity. -/
def make (zero : α) (length capacity : Nat) : Option (ArraySlice α) :=
  if bounded : length ≤ capacity then
    some ⟨List.replicate capacity zero, length, by simpa using bounded⟩
  else none

/-- The slice of the same array with another length; `none` beyond the
capacity. -/
def upTo (s : ArraySlice α) (length : Nat) : Option (ArraySlice α) :=
  if bounded : length ≤ s.cap then some ⟨s.cells, length, bounded⟩ else none

def itemsFrom (s : ArraySlice α) (start : Nat) : Option (List α) :=
  if start ≤ s.length then some (s.items.drop start) else none

/-- Overwrite the front of the slice with as much of `source` as fits; the
number is how many items were copied. -/
def copy (s : ArraySlice α) (source : List α) : ArraySlice α × Nat :=
  let count := min s.length source.length
  (⟨source.take count ++ s.cells.drop count, s.length, by
      have bounded := s.bounded
      simp only [length_append, length_take, length_drop]
      omega⟩, count)

/-- Append items, in the array of the slice if its capacity allows it and in a
new one otherwise. -/
def append (s : ArraySlice α) (more : List α) : ArraySlice α :=
  if fits : s.length + more.length ≤ s.cap then
    ⟨s.items ++ more ++ s.cells.drop (s.length + more.length), s.length + more.length, by
      have bounded := s.bounded
      simp only [items, length_append, length_take, length_drop]
      omega⟩
  else
    ⟨s.items ++ more, s.length + more.length, by
      have bounded := s.bounded
      simp only [items, length_append, length_take]
      omega⟩

@[simp]
theorem length_items (s : ArraySlice α) : s.items.length = s.length := by
  rw [items, length_take]
  exact Nat.min_eq_left s.bounded

@[simp]
theorem items_empty : (empty : ArraySlice α).items = [] :=
  rfl

@[simp]
theorem length_empty : (empty : ArraySlice α).length = 0 :=
  rfl

theorem make_eq_some (zero : α) {length capacity : Nat} (bounded : length ≤ capacity) :
    ∃ s : ArraySlice α, make zero length capacity = some s ∧ s.length = length ∧
      s.cap = capacity := by
  rw [make, dif_pos bounded]
  exact ⟨_, rfl, rfl, length_replicate⟩

variable {s : ArraySlice α}

theorem upTo_eq_some {length : Nat} (bounded : length ≤ s.cap) :
    ∃ t, s.upTo length = some t ∧ t.cells = s.cells ∧ t.length = length := by
  rw [upTo, dif_pos bounded]
  exact ⟨_, rfl, rfl, rfl⟩

theorem itemsFrom_eq_some {start : Nat} (inside : start ≤ s.length) :
    s.itemsFrom start = some (s.items.drop start) :=
  if_pos inside

@[simp]
theorem cap_copy (s : ArraySlice α) (source : List α) : (s.copy source).1.cap = s.cap := by
  have bounded := s.bounded
  simp only [copy, cap, length_append, length_take, length_drop]
  omega

theorem items_copy {source : List α} (full : source.length = s.length) :
    (s.copy source).1.items = source := by
  simp [copy, items, ← full]

theorem cells_copy {source : List α} (short : source.length ≤ s.length) :
    (s.copy source).2 = source.length ∧
      (s.copy source).1.cells.take source.length = source := by
  have count : min s.length source.length = source.length := Nat.min_eq_right short
  simp [copy, count]

@[simp]
theorem items_append (s : ArraySlice α) (more : List α) :
    (s.append more).items = s.items ++ more := by
  have total : (s.items ++ more).length = s.length + more.length := by simp
  unfold append
  split
  · simp only [items] at total ⊢
    rw [← total, take_left]
  · simp only [items] at total ⊢
    rw [← total, take_length]

end ArraySlice
