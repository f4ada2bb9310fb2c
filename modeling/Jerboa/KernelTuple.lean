import Mathlib.Data.List.Basic

/-!
# Tuples of the kernel

The values that the kernel keeps its configuration in: strings and tuples, with
`get` and `set` of `runtime/tuple.c`.  The root tuple and the tuples found in it
are wrapped for copy on write (`tuple_notifier_wrap`), so that what is set at
run time stands before the tuple of the image and never changes it.
-/

namespace Jerboa.Kernel

open List

/-- A value; symbols are interned, so they are their text. -/
inductive Value
  | string (text : List Char)
  | tuple (entries : List (List Char × Value))
  | cow (parent parentCopy : List (List Char × Value))

abbrev Table := List (List Char × Value)

/-! ### Tables -/

def tableFind (t : Table) (key : List Char) : Option Value :=
  (t.find? fun entry => entry.1 = key).map Prod.snd

/-- `table_set`; setting nothing removes the key. -/
def tableSet (t : Table) (key : List Char) (value : Option Value) : Table :=
  t.filter (fun entry => entry.1 ≠ key) ++ (value.map fun v => (key, v)).toList

theorem tableFind_filter_self (t : Table) (key : List Char) :
    tableFind (t.filter fun entry => entry.1 ≠ key) key = none := by
  simp [tableFind, find?_eq_none]

theorem tableFind_filter_of_ne {key other : List Char} (different : other ≠ key) (t : Table) :
    tableFind (t.filter fun entry => entry.1 ≠ key) other = tableFind t other := by
  rw [tableFind, tableFind, find?_filter]
  congr 2
  funext entry
  by_cases here : entry.1 = other <;> simp [here, different]

theorem tableFind_append (t rest : Table) (key : List Char) :
    tableFind (t ++ rest) key = (tableFind t key).or (tableFind rest key) := by
  unfold tableFind
  rw [find?_append]
  cases t.find? fun entry => entry.1 = key <;> rfl

theorem tableFind_tableSet (t : Table) (key : List Char) (value : Option Value)
    (other : List Char) :
    tableFind (tableSet t key value) other = if other = key then value else tableFind t other := by
  rw [tableSet, tableFind_append]
  split
  · rename_i same
    subst same
    rw [tableFind_filter_self]
    cases value <;> simp [tableFind]
  · rename_i different
    rw [tableFind_filter_of_ne different]
    cases value with
    | none => simp [tableFind]
    | some v =>
      have missing : tableFind [(key, v)] other = none := by
        simp [tableFind, Ne.symm different]
      simp [missing]

/-! ### Values -/

/-- `is_composite`, which is `is_tuple` here. -/
def Value.isComposite : Value → Bool
  | .string _ => false
  | .tuple _ | .cow .. => true

/-- `tuple_notifier_wrap(v, true)` of a composite value of the image. -/
def Value.wrap : Value → Value
  | .tuple entries => .cow entries []
  | v => v

def Value.parentGet : Value → List Char → Option Value
  | .cow parent _, key => (tableFind parent key).map Value.wrap
  | _, _ => none

def Value.get : Value → List Char → Option Value
  | .string _, _ => none
  | .tuple entries, key => tableFind entries key
  | .cow parent parentCopy, key =>
    (tableFind parentCopy key).or ((tableFind parent key).map Value.wrap)

/-- `set`; a wrapped tuple only ever changes its copy. -/
def Value.set : Value → List Char → Option Value → Value
  | .string text, _, _ => .string text
  | .tuple entries, key, value => .tuple (tableSet entries key value)
  | .cow parent parentCopy, key, value => .cow parent (tableSet parentCopy key value)

def Value.getTuple (t : Value) (key : List Char) : Option Value :=
  (t.get key).filter Value.isComposite

theorem get_wrapped (image : Table) (key : List Char) :
    (Value.cow image []).get key = (tableFind image key).map Value.wrap :=
  rfl

@[simp]
theorem isComposite_set (t : Value) (key : List Char) (value : Option Value) :
    (t.set key value).isComposite = t.isComposite := by
  cases t <;> rfl

@[simp]
theorem parentGet_set (t : Value) (key : List Char) (value : Option Value) :
    (t.set key value).parentGet = t.parentGet := by
  funext other
  cases t <;> rfl

variable {t : Value}

theorem get_set_self (composite : t.isComposite = true) (key : List Char)
    (value : Option Value) : (t.set key value).get key = value.or (t.parentGet key) := by
  cases t with
  | string text => simp [Value.isComposite] at composite
  | tuple entries => simp [Value.set, Value.get, Value.parentGet, tableFind_tableSet]
  | cow parent parentCopy => simp [Value.set, Value.get, Value.parentGet, tableFind_tableSet]

theorem get_set_of_ne {key other : List Char} (different : other ≠ key)
    (value : Option Value) : (t.set key value).get other = t.get other := by
  cases t with
  | string text => rfl
  | tuple entries => simp [Value.set, Value.get, tableFind_tableSet, different]
  | cow parent parentCopy => simp [Value.set, Value.get, tableFind_tableSet, different]

/-! ### Setting many names -/

def lastValue (pairs : List (List Char × List Char)) (key : List Char) : Option (List Char) :=
  (pairs.reverse.find? fun pair => pair.1 = key).map Prod.snd

theorem lastValue_cons (pair : List Char × List Char) (pairs : List (List Char × List Char))
    (key : List Char) :
    lastValue (pair :: pairs) key =
      (lastValue pairs key).or (if pair.1 = key then some pair.2 else none) := by
  unfold lastValue
  rw [reverse_cons, find?_append]
  cases pairs.reverse.find? fun pair => pair.1 = key with
  | some found => rfl
  | none =>
    by_cases same : pair.1 = key <;> simp [same]

theorem mem_of_lastValue {pairs : List (List Char × List Char)} {key value : List Char}
    (last : lastValue pairs key = some value) : (key, value) ∈ pairs := by
  obtain ⟨⟨name, _⟩, found, rfl⟩ := Option.map_eq_some_iff.mp last
  have same : name = key := by simpa using find?_some found
  exact same ▸ mem_reverse.mp (mem_of_find?_eq_some found)

def setAll (convert : List Char → Option Value) (t : Value) (pairs : List (List Char × List Char)) :
    Value :=
  pairs.foldl (fun t pair => t.set pair.1 (convert pair.2)) t

variable {convert : List Char → Option Value}

theorem isComposite_setAll (pairs : List (List Char × List Char)) :
    (setAll convert t pairs).isComposite = t.isComposite := by
  unfold setAll
  induction pairs generalizing t with
  | nil => rfl
  | cons pair pairs ih =>
    rw [foldl_cons, ih, isComposite_set]

theorem get_setAll
    (composite : t.isComposite = true) (pairs : List (List Char × List Char)) (key : List Char) :
    (setAll convert t pairs).get key =
      (lastValue pairs key).elim (t.get key) fun value => (convert value).or (t.parentGet key) := by
  unfold setAll
  induction pairs generalizing t with
  | nil => rfl
  | cons pair pairs ih =>
    rw [foldl_cons, ih (by rw [isComposite_set]; exact composite), lastValue_cons,
      parentGet_set]
    cases lastValue pairs key with
    | some value => rfl
    | none =>
      by_cases same : pair.1 = key
      · simp [same, get_set_self composite]
      · simp [same, get_set_of_ne (Ne.symm same)]

end Jerboa.Kernel
