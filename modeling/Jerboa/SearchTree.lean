import Mathlib.Data.List.TakeWhile
import Mathlib.Data.Tree.Basic
import Mathlib.Order.Lattice
import Mathlib.Tactic.Tauto

/-!
# Search trees

Binary trees whose values are ordered by a key: the search for the last value at
or before a key, against the values in order, and what insertion and removal have
to do to the values whatever they do to the shape.
-/

namespace SearchTree

open List

variable {α κ : Type} [LinearOrder κ] {key : α → κ} {k : κ}

def toList : BinaryTree α → List α
  | .nil => []
  | .node value left right => toList left ++ value :: toList right

theorem toList_map (f : α → α) (t : BinaryTree α) : toList (t.map f) = (toList t).map f := by
  induction t with
  | nil => rfl
  | node value left right ihLeft ihRight => simp [BinaryTree.map, toList, ihLeft, ihRight]

/-- The search down the tree; an answer from the right is compared once more. -/
def maxLte (key : α → κ) (k : κ) : BinaryTree α → Option α
  | .nil => none
  | .node value left right =>
    if k = key value then some value
    else if key value < k then
      match maxLte key k right with
      | none => some value
      | some next => if k < key next then some value else some next
    else maxLte key k left

def first : BinaryTree α → Option α
  | .nil => none
  | .node value left _ => (first left).or (some value)

variable {t : BinaryTree α} {value : α}

theorem first_eq (t : BinaryTree α) : first t = (toList t).head? := by
  induction t with
  | nil => rfl
  | node value left right ihLeft => rw [first, ihLeft, toList, head?_append, head?_cons]

/-- The values are in the order of their keys. -/
def Ordered (key : α → κ) (values : List α) : Prop :=
  values.Pairwise fun first second => key first < key second

/-- Where a search ends among the values: at one that is not beyond the key, with
all values after it beyond, or at none if all are. -/
def Ends (key : α → κ) (k : κ) (values : List α) : Option α → Prop
  | none => ∀ other ∈ values, k < key other
  | some value => key value ≤ k ∧ ∃ before after, values = before ++ value :: after ∧
      ∀ other ∈ after, k < key other

theorem ends_maxLte (ordered : Ordered key (toList t)) :
    Ends key k (toList t) (maxLte key k t) := by
  induction t with
  | nil => simp [maxLte, toList, Ends]
  | node value left right ihLeft ihRight =>
    obtain ⟨early, late, -⟩ := pairwise_append.mp ordered
    obtain ⟨next, later⟩ := pairwise_cons.mp late
    rw [maxLte, toList]
    split
    · rename_i same
      exact ⟨same.ge, _, _, rfl, same ▸ next⟩
    split
    · rename_i lower
      have ends := ihRight later
      cases found : maxLte key k right with
      | none =>
        rw [found] at ends
        exact ⟨lower.le, _, _, rfl, ends⟩
      | some last =>
        rw [found] at ends
        obtain ⟨atMost, before, after, split, beyond⟩ := ends
        dsimp only
        rw [if_neg atMost.not_gt]
        exact ⟨atMost, toList left ++ value :: before, after, by simp [split], beyond⟩
    · rename_i differs above
      have higher : k < key value := lt_of_le_of_ne (not_lt.mp above) differs
      have rest : ∀ other ∈ value :: toList right, k < key other :=
        forall_mem_cons.mpr ⟨higher, fun other member => higher.trans (next other member)⟩
      have ends := ihLeft early
      cases found : maxLte key k left with
      | none =>
        rw [found] at ends
        exact forall_mem_append.mpr ⟨ends, rest⟩
      | some last =>
        rw [found] at ends
        obtain ⟨atMost, before, after, split, beyond⟩ := ends
        exact ⟨atMost, before, after ++ value :: toList right, by simp [split],
          forall_mem_append.mpr ⟨beyond, rest⟩⟩

/-- The value of a search, or else the first one. -/
def seek (key : α → κ) (k : κ) (t : BinaryTree α) : Option α :=
  (maxLte key k t).or (first t)

theorem toList_of_seek_none (found : seek key k t = none) : toList t = [] := by
  rw [seek, Option.or_eq_none_iff, first_eq, head?_eq_none_iff] at found
  exact found.2

theorem exists_of_seek (ordered : Ordered key (toList t)) (found : seek key k t = some value) :
    ∃ before after, toList t = before ++ value :: after ∧ (before ≠ [] → key value ≤ k) ∧
      ∀ other ∈ after, k < key other := by
  have ends := ends_maxLte (k := k) ordered
  rw [seek] at found
  cases search : maxLte key k t with
  | none =>
    rw [search, Option.none_or, first_eq] at found
    rw [search] at ends
    obtain ⟨after, split⟩ := head?_eq_some_iff.mp found
    exact ⟨[], after, split, nofun, fun other member => ends other (split ▸ mem_cons_of_mem _ member)⟩
  | some last =>
    rw [search, Option.some_or] at found
    rw [search] at ends
    cases found
    obtain ⟨atMost, before, after, split, beyond⟩ := ends
    exact ⟨before, after, split, fun _ => atMost, beyond⟩

variable {before after : List α}

theorem ordered_middle : Ordered key (before ++ value :: after) ↔
    Ordered key (before ++ after) ∧ (∀ other ∈ before, key other < key value) ∧
      ∀ other ∈ after, key value < key other := by
  simp only [Ordered, pairwise_append, pairwise_cons, forall_mem_cons, forall_and]
  tauto

section

variable [DecidableEq α]

/-- A value and those after it, one after another. -/
def onwards (t : BinaryTree α) (value : α) : List α :=
  (toList t).dropWhile (· ≠ value)

def replace (t : BinaryTree α) (value other : α) : BinaryTree α :=
  t.map fun v => if v = value then other else v

theorem onwards_eq (ordered : Ordered key (toList t)) (split : toList t = before ++ value :: after) :
    onwards t value = value :: after := by
  rw [split] at ordered
  have others : ∀ other ∈ before, other ≠ value :=
    fun other member same => ((ordered_middle.mp ordered).2.1 other member).ne (same ▸ rfl)
  rw [onwards, split, dropWhile_append_of_pos (by simpa using others)]
  simp

theorem toList_replace (ordered : Ordered key (toList t))
    (split : toList t = before ++ value :: after) (other : α) :
    toList (replace t value other) = before ++ other :: after := by
  rw [split] at ordered
  obtain ⟨-, lower, upper⟩ := ordered_middle.mp ordered
  have early : ∀ v ∈ before, (if v = value then other else v) = v :=
    fun v member => if_neg fun same : v = value => (lower v member).ne (congrArg key same)
  have late : ∀ v ∈ after, (if v = value then other else v) = v :=
    fun v member => if_neg fun same : v = value => (upper v member).ne' (congrArg key same)
  rw [replace, toList_map, split, map_append, map_cons, if_pos rfl, map_congr_left early,
    map_congr_left late, map_id', map_id']

end

/-- Insertion and removal: they may give a tree any shape. -/
structure Updates (key : α → κ) where
  insertNode : BinaryTree α → α → Option (BinaryTree α)
  removeByKey : BinaryTree α → κ → Option (BinaryTree α)
  toList_insertNode : ∀ t value, Ordered key (toList t) →
    (insertNode t value).map toList =
      if (toList t).any (key · = key value) then none
      else some ((toList t).takeWhile (key · < key value) ++
        value :: (toList t).dropWhile (key · < key value))
  toList_removeByKey : ∀ t k, Ordered key (toList t) →
    (removeByKey t k).map toList =
      if (toList t).any (key · = k) then some ((toList t).filter (key · ≠ k)) else none

namespace Updates

variable (updates : Updates key)

theorem insertNode_eq (ordered : Ordered key (before ++ value :: after))
    (split : toList t = before ++ after) :
    ∃ u, updates.insertNode t value = some u ∧ toList u = before ++ value :: after := by
  obtain ⟨others, lower, upper⟩ := ordered_middle.mp ordered
  have fresh : (before ++ after).any (key · = key value) = false := by
    simp only [any_append, Bool.or_eq_false_iff, any_eq_false, decide_eq_true_eq]
    exact ⟨fun other member => (lower other member).ne, fun other member => (upper other member).ne'⟩
  have stays : (after.takeWhile (key · < key value) = []) ∧
      after.dropWhile (key · < key value) = after := by
    cases after with
    | nil => simp
    | cons other after => simp [(upper other mem_cons_self).le]
  have inserted := updates.toList_insertNode t value (split ▸ others)
  rw [split, fresh, if_neg (by simp), takeWhile_append_of_pos (by simpa using lower),
    dropWhile_append_of_pos (by simpa using lower), stays.1, stays.2, append_nil] at inserted
  exact Option.map_eq_some_iff.mp inserted

theorem removeByKey_eq (ordered : Ordered key (toList t))
    (split : toList t = before ++ value :: after) :
    ∃ u, updates.removeByKey t (key value) = some u ∧ toList u = before ++ after := by
  have removed := updates.toList_removeByKey t (key value) ordered
  rw [split] at ordered removed
  obtain ⟨-, lower, upper⟩ := ordered_middle.mp ordered
  have kept : (before ++ value :: after).filter (key · ≠ key value) = before ++ after := by
    rw [filter_append, filter_cons_of_neg (by simp), filter_eq_self.mpr, filter_eq_self.mpr]
    · exact fun other member => decide_eq_true (upper other member).ne'
    · exact fun other member => decide_eq_true (lower other member).ne
  rw [if_pos (by simp), kept] at removed
  exact Option.map_eq_some_iff.mp removed

end Updates

/-- The tree with all values along its right side. -/
def spine : List α → BinaryTree α
  | [] => .nil
  | value :: values => .node value .nil (spine values)

theorem toList_spine (values : List α) : toList (spine values) = values := by
  induction values with
  | nil => rfl
  | cons value values ih => simp [spine, toList, ih]

def spineUpdates (key : α → κ) : Updates key where
  insertNode t value :=
    if (toList t).any (key · = key value) then none
    else some (spine ((toList t).takeWhile (key · < key value) ++
      value :: (toList t).dropWhile (key · < key value)))
  removeByKey t k :=
    if (toList t).any (key · = k) then some (spine ((toList t).filter (key · ≠ k))) else none
  toList_insertNode t value _ := by
    split <;> simp [toList_spine]
  toList_removeByKey t k _ := by
    split <;> simp [toList_spine]

end SearchTree
