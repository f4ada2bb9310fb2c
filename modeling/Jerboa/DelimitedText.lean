import Mathlib.Data.List.Basic
import Mathlib.Data.List.TakeWhile

/-!
# Delimited text

Texts that are cut at the first occurrence of a separator, and texts that are a
sequence of non-empty fields between separators.  A reader that takes one field
after the other sees exactly the fields that a writer has joined, as long as
they are non-empty and do not contain the separator.
-/

namespace DelimitedText

open List

variable {α σ : Type*} [DecidableEq α] {separator : α}

theorem all_ne_of_not_mem {front : List α} (free : separator ∉ front) :
    ∀ a ∈ front, decide (a ≠ separator) = true := by
  intro a inside
  simpa using fun same : a = separator => free (same ▸ inside)

/-! ### The first separator -/

def cut (separator : α) (text : List α) : Option (List α × List α) :=
  match text.dropWhile (· ≠ separator) with
  | [] => none
  | _ :: rest => some (text.takeWhile (· ≠ separator), rest)

theorem cut_append {front : List α} (free : separator ∉ front) (rest : List α) :
    cut separator (front ++ separator :: rest) = some (front, rest) := by
  unfold cut
  rw [dropWhile_append_of_pos (all_ne_of_not_mem free),
    takeWhile_append_of_pos (all_ne_of_not_mem free)]
  simp

theorem cut_of_not_mem {text : List α} (free : separator ∉ text) : cut separator text = none := by
  unfold cut
  rw [dropWhile_eq_nil_iff.mpr (all_ne_of_not_mem free)]

theorem cut_eq_some {text front rest : List α} (found : cut separator text = some (front, rest)) :
    text = front ++ separator :: rest ∧ separator ∉ front := by
  by_cases inside : separator ∈ text
  · obtain ⟨before, after, rfl, free⟩ := eq_append_cons_of_mem inside
    rw [cut_append free] at found
    cases found
    exact ⟨rfl, free⟩
  · rw [cut_of_not_mem inside] at found
    simp at found

/-! ### The last separator -/

def cutLast (separator : α) (text : List α) : Option (List α × List α) :=
  (cut separator text.reverse).map fun (back, front) => (front.reverse, back.reverse)

theorem cutLast_append {rest : List α} (free : separator ∉ rest) (front : List α) :
    cutLast separator (front ++ separator :: rest) = some (front, rest) := by
  have reversed : (front ++ separator :: rest).reverse =
      rest.reverse ++ separator :: front.reverse := by simp
  rw [cutLast, reversed, cut_append (by simpa using free)]
  simp

theorem cutLast_eq_some {text front rest : List α}
    (found : cutLast separator text = some (front, rest)) :
    text = front ++ separator :: rest ∧ separator ∉ rest := by
  obtain ⟨⟨back, before⟩, cutAt, same⟩ := Option.map_eq_some_iff.mp found
  cases same
  obtain ⟨whole, free⟩ := cut_eq_some cutAt
  exact ⟨by simpa using congrArg List.reverse whole, by simpa using free⟩

theorem exists_cutLast {β : Type*} {mark : β} {text : List β} (inside : mark ∈ text) :
    ∃ front rest, text = front ++ mark :: rest ∧ mark ∉ rest := by
  obtain ⟨before, after, whole, free⟩ :=
    eq_append_cons_of_mem (mem_reverse.mpr inside)
  refine ⟨after.reverse, before.reverse, ?_, by simpa using free⟩
  simpa using congrArg List.reverse whole

theorem not_mem_of_mem_splitOn {text part : List α} (member : part ∈ text.splitOn separator) :
    separator ∉ part := by
  induction text generalizing part with
  | nil =>
    rw [splitOn_nil, mem_singleton] at member
    simp [member]
  | cons first text ih =>
    rw [splitOn_cons_eq_if_modifyHead] at member
    split at member
    · rcases mem_cons.mp member with rfl | later
      · simp
      · exact ih later
    · rename_i other
      cases parts : text.splitOn separator with
      | nil => simp [parts] at member
      | cons head tail =>
        rw [parts, modifyHead_cons, mem_cons] at member
        cases member with
        | inl here =>
          have rest : separator ∉ head := ih (parts ▸ mem_cons_self)
          rw [here, mem_cons, not_or]
          exact ⟨fun same => other (beq_iff_eq.mpr same.symm), rest⟩
        | inr later => exact ih (parts ▸ mem_cons_of_mem head later)

theorem intercalate_concat {β : Type*} (mark : β) (fields : List (List β)) (field : List β) :
    [mark].intercalate (fields ++ [field]) =
      fields.flatMap (fun earlier => earlier ++ [mark]) ++ field := by
  induction fields with
  | nil => simp
  | cons first rest ih =>
    cases rest with
    | nil => simp
    | cons second others =>
      rw [cons_append, cons_append, intercalate_cons_cons, ← cons_append,
        ih]
      simp

/-! ### One field after the other -/

def nextField (separator : α) (text : List α) : Option (List α × List α) :=
  match text.dropWhile (· = separator) with
  | [] => none
  | first :: rest =>
    some (first :: rest.takeWhile (· ≠ separator), rest.dropWhile (· ≠ separator))

theorem length_of_nextField {text field rest : List α}
    (next : nextField separator text = some (field, rest)) : rest.length < text.length := by
  unfold nextField at next
  split at next
  · simp at next
  · rename_i first tail dropped
    cases next
    have shorter := length_dropWhile_le (fun a => decide (a = separator)) text
    have shorterTail := length_dropWhile_le (fun a => decide (a ≠ separator)) tail
    rw [dropped, length_cons] at shorter
    omega

def foldFields (separator : α) (handle : σ → List α → σ) (state : σ) (text : List α) : σ :=
  match next : nextField separator text with
  | none => state
  | some (field, rest) =>
    have := length_of_nextField next
    foldFields separator handle (handle state field) rest
termination_by text.length

variable {handle : σ → List α → σ} {state : σ}

theorem foldFields_of_none {text : List α} (next : nextField separator text = none) :
    foldFields separator handle state text = state := by
  rw [foldFields]
  split
  · rfl
  · rename_i found
    simp [next] at found

theorem foldFields_of_some {text field rest : List α}
    (next : nextField separator text = some (field, rest)) :
    foldFields separator handle state text =
      foldFields separator handle (handle state field) rest := by
  rw [foldFields]
  split
  · rename_i found
    simp [next] at found
  · rename_i found
    rw [next] at found
    cases found
    rfl

theorem foldFields_separator (text : List α) :
    foldFields separator handle state (separator :: text) =
      foldFields separator handle state text := by
  have same : nextField separator (separator :: text) = nextField separator text := by
    simp [nextField]
  cases next : nextField separator text with
  | none => rw [foldFields_of_none next, foldFields_of_none (same.trans next)]
  | some found => rw [foldFields_of_some next, foldFields_of_some (same.trans next)]

theorem foldFields_nil : foldFields separator handle state [] = state :=
  foldFields_of_none rfl

variable {field : List α}

theorem nextField_append (nonempty : field ≠ []) (free : separator ∉ field)
    {rest : List α} (ends : rest.takeWhile (· ≠ separator) = []) :
    nextField separator (field ++ rest) = some (field, rest) := by
  obtain ⟨first, tail, rfl⟩ := exists_cons_of_ne_nil nonempty
  have different : first ≠ separator := fun same => free (same ▸ mem_cons_self)
  have freeTail := all_ne_of_not_mem fun inside => free (mem_cons_of_mem first inside)
  have stop : rest.dropWhile (· ≠ separator) = rest := by
    have whole := takeWhile_append_dropWhile (p := fun a => decide (a ≠ separator)) (l := rest)
    rw [ends, nil_append] at whole
    exact whole
  simp only [nextField, cons_append, dropWhile_cons, different, decide_false,
    Bool.false_eq_true, if_false]
  rw [takeWhile_append_of_pos freeTail, dropWhile_append_of_pos freeTail, ends, stop,
    append_nil]

theorem foldFields_append (nonempty : field ≠ []) (free : separator ∉ field)
    (rest : List α) :
    foldFields separator handle state (field ++ separator :: rest) =
      foldFields separator handle (handle state field) rest := by
  rw [foldFields_of_some (nextField_append nonempty free (by simp)), foldFields_separator]

theorem foldFields_single (nonempty : field ≠ []) (free : separator ∉ field) :
    foldFields separator handle state field = handle state field := by
  have ends : ([] : List α).takeWhile (· ≠ separator) = [] := rfl
  have next := nextField_append nonempty free ends
  rw [append_nil] at next
  rw [foldFields_of_some next, foldFields_nil]

theorem foldFields_intercalate {fields : List (List α)}
    (proper : ∀ field ∈ fields, field ≠ [] ∧ separator ∉ field) :
    foldFields separator handle state ([separator].intercalate fields) =
      fields.foldl handle state := by
  induction fields generalizing state with
  | nil => exact foldFields_nil
  | cons field fields ih =>
    obtain ⟨nonempty, free⟩ := proper field mem_cons_self
    cases fields with
    | nil =>
      simp only [intercalate_singleton, foldl_cons, foldl_nil]
      exact foldFields_single nonempty free
    | cons second fields =>
      rw [intercalate_cons_cons, append_assoc, singleton_append,
        foldFields_append nonempty free, foldl_cons]
      exact ih (forall_mem_cons.mp proper).2

theorem foldFields_flatMap {fields : List (List α)}
    (proper : ∀ field ∈ fields, field ≠ [] ∧ separator ∉ field) :
    foldFields separator handle state (fields.flatMap fun field => separator :: field) =
      fields.foldl handle state := by
  induction fields generalizing state with
  | nil => exact foldFields_nil
  | cons field fields ih =>
    obtain ⟨nonempty, free⟩ := proper field mem_cons_self
    have ends : (fields.flatMap fun field => separator :: field).takeWhile (· ≠ separator) = [] := by
      cases fields <;> simp
    rw [flatMap_cons, cons_append, foldFields_separator,
      foldFields_of_some (nextField_append nonempty free ends), foldl_cons]
    exact ih (forall_mem_cons.mp proper).2

/-! ### Surrounding space -/

def isSpaceCode (code : Nat) : Bool :=
  (9 ≤ code && code ≤ 13) || code = 32 || code = 0x85 || code = 0xa0 || code = 0x1680 ||
    (0x2000 ≤ code && code ≤ 0x200a) || code = 0x2028 || code = 0x2029 || code = 0x202f ||
    code = 0x205f || code = 0x3000

def isSpace (c : Char) : Bool :=
  isSpaceCode c.toNat

def trimSpace (text : List Char) : List Char :=
  ((text.dropWhile isSpace).reverse.dropWhile isSpace).reverse

theorem dropWhile_eq_self_of_head {α : Type*} {p : α → Bool} {text : List α}
    (head : ∀ first, text.head? = some first → p first = false) : text.dropWhile p = text := by
  cases text with
  | nil => rfl
  | cons first rest => simp [head first rfl]

theorem trimSpace_eq_self {text : List Char}
    (head : ∀ first, text.head? = some first → isSpace first = false)
    (last : ∀ final, text.getLast? = some final → isSpace final = false) :
    trimSpace text = text := by
  have back : text.reverse.dropWhile isSpace = text.reverse := by
    apply dropWhile_eq_self_of_head
    intro first found
    rw [head?_reverse] at found
    exact last first found
  rw [trimSpace, dropWhile_eq_self_of_head head, back, reverse_reverse]

end DelimitedText
