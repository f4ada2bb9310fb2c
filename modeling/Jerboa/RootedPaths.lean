import Jerboa.DelimitedText
import Jerboa.OpsExtract

/-!
# Cleaned paths

What `path.Clean` and `filepath.Join` make of the components of a path from the
root: names, without `.`, `..` and empty components.
-/

namespace Jerboa.Image

open Utf8Text

theorem mem_foldl_cleanStep {rooted : Bool} {components stack : List Bytes} {component : Bytes}
    (member : component ∈ components.foldl (cleanStep rooted) stack) :
    component ∈ stack ∨ component ∈ components ∧ component ≠ [] := by
  induction components generalizing stack with
  | nil => exact .inl member
  | cons first components ih =>
    rcases ih member with before | ⟨later, ne_nil⟩
    · have step : component ∈ stack ∨ component = first ∧ first ≠ [] := by
        unfold cleanStep at before
        split at before
        · exact .inl before
        · rename_i kept
          have some : first ≠ [] := fun empty => kept (.inl empty)
          split at before
          · split at before
            · split at before
              · simp at before
              · exact .inr ⟨List.mem_singleton.mp before, some⟩
            · split at before
              · exact (List.mem_cons.mp before).symm.imp id fun same => ⟨same, some⟩
              · exact .inl (List.mem_cons_of_mem _ before)
          · exact (List.mem_cons.mp before).symm.imp id fun same => ⟨same, some⟩
      apply step.imp id
      intro here
      exact ⟨here.1 ▸ List.mem_cons_self, here.1 ▸ here.2⟩
    · exact .inr ⟨List.mem_cons_of_mem first later, ne_nil⟩

end Jerboa.Image

namespace Jerboa.Packages

open Utf8Text PosixFiles

theorem cleanStep_rooted {stack : List Bytes} (areNames : ∀ name ∈ stack, IsName name)
    (component : Bytes) :
    Image.cleanStep true stack component =
      if component = [] ∨ component = dot then stack
      else if component = dotDot then stack.tail
      else component :: stack := by
  have isDot : utf8 "." = dot := by decide
  have isDotDot : utf8 ".." = dotDot := by decide
  unfold Image.cleanStep
  rw [isDot, isDotDot]
  split
  · rfl
  · split
    · cases stack with
      | nil => rfl
      | cons last others => exact if_neg (areNames last List.mem_cons_self).2.2
    · rfl

theorem join_component {component : Bytes} (isName : IsName component) (single : slash ∉ component)
    (base : Location) : join base component = base ++ [component] := by
  obtain ⟨nonempty, notDot, notUp⟩ := isName
  have isDot : utf8 "." = dot := by decide
  have isDotDot : utf8 ".." = dotDot := by decide
  simp [join, List.splitOn_eq_singleton single, Image.cleanStep, isDot, isDotDot, nonempty, notDot,
    notUp]

theorem filepathRel_append (base rest : Location) : filepathRel base (base ++ rest) = rest := by
  induction base with
  | nil => simp [filepathRel]
  | cons name base ih => simpa [filepathRel] using ih

/-- The components that `path.Clean` leaves of a path from the root. -/
def cleanParts (path : Bytes) : Location :=
  ((path.splitOn slash).foldl (Image.cleanStep true) []).reverse

theorem pathClean_rooted (path : Bytes) :
    Image.pathClean (slash :: path) = slash :: [slash].intercalate (cleanParts (slash :: path)) := by
  have rooted : (slash :: path).head? = some Image.slash := rfl
  simp only [Image.pathClean, rooted, decide_true, if_true]
  rfl

theorem isName_of_mem_foldl {stack : List Bytes} (areNames : ∀ name ∈ stack, IsName name)
    (components : List Bytes) :
    ∀ name ∈ components.foldl (Image.cleanStep true) stack, IsName name := by
  induction components generalizing stack with
  | nil => exact areNames
  | cons component components ih =>
    apply ih
    rw [cleanStep_rooted areNames]
    split
    · exact areNames
    · rename_i some
      split
      · exact fun name member => areNames name (List.mem_of_mem_tail member)
      · rename_i notUp
        intro name member
        rcases List.mem_cons.mp member with rfl | old
        · exact ⟨fun empty => some (.inl empty), fun same => some (.inr same), notUp⟩
        · exact areNames name old

def IsComponent (component : Bytes) : Prop :=
  IsName component ∧ slash ∉ component

theorem isComponent_of_mem_cleanParts {path : Bytes} :
    ∀ component ∈ cleanParts path, IsComponent component := by
  intro component member
  rw [cleanParts, List.mem_reverse] at member
  refine ⟨isName_of_mem_foldl (by simp) _ component member, ?_⟩
  rcases Image.mem_foldl_cleanStep member with none | ⟨inside, -⟩
  · cases none
  · exact DelimitedText.not_mem_of_mem_splitOn inside

variable {components : List Bytes}

theorem foldl_cleanStep_components
    (areNames : ∀ component ∈ components, IsName component) (stack : List Bytes) :
    components.foldl (Image.cleanStep true) stack = components.reverse ++ stack := by
  have isDot : utf8 "." = dot := by decide
  have isDotDot : utf8 ".." = dotDot := by decide
  induction components generalizing stack with
  | nil => rfl
  | cons component components ih =>
    obtain ⟨nonempty, notDot, notUp⟩ := areNames component List.mem_cons_self
    rw [List.foldl_cons, ih (List.forall_mem_cons.mp areNames).2]
    simp [Image.cleanStep, isDot, isDotDot, nonempty, notDot, notUp]

theorem splitOn_rooted
    (areComponents : ∀ component ∈ components, IsComponent component) (some : components ≠ []) :
    (slash :: [slash].intercalate components).splitOn slash = [] :: components := by
  have pieces := List.splitOn_intercalate slash (fun c member => (areComponents c member).2) some
  rw [← List.nil_append (slash :: _), List.splitOn_append_cons_self, List.splitOn_nil, pieces]
  rfl

theorem join_rooted
    (areComponents : ∀ component ∈ components, IsComponent component) (base : Location) :
    join base (slash :: [slash].intercalate components) = base ++ components := by
  have skip (stack : List Bytes) : Image.cleanStep true stack [] = stack := rfl
  by_cases none : components = []
  · subst none
    have pieces : (slash :: [slash].intercalate []).splitOn slash = [[], []] := by decide
    rw [join, pieces, List.foldl_cons, List.foldl_cons, List.foldl_nil, skip, skip,
      List.reverse_reverse, List.append_nil]
  · rw [join, splitOn_rooted areComponents none, List.foldl_cons, skip,
      foldl_cleanStep_components fun component member => (areComponents component member).1]
    simp

end Jerboa.Packages
