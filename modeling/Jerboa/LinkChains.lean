import Mathlib.Data.Option.Basic
import Mathlib.Logic.Function.Basic

/-!
# Chains of links that end at a file

Some paths hold content and some are links to a path.  Replacing a link by a
copy of the content at its target changes nothing about where the chains lead.
-/

namespace LinkChains

open Function

variable {Path Content : Type*}

/-- The chain of links from a path ends at a file with this content. -/
inductive Leads (files : Path → Option Content) (isLink : Path → Path → Prop) :
    Path → Content → Prop
  | file {path : Path} {content : Content} :
      files path = some content → Leads files isLink path content
  | link {path target : Path} {content : Content} :
      isLink path target → Leads files isLink target content → Leads files isLink path content

variable {files : Path → Option Content} {isLink remaining : Path → Path → Prop}
  {path : Path} {content : Content}

theorem leads_of_stuck (stuck : ∀ path target, isLink path target → files target = none) :
    Leads files isLink path content ↔ files path = some content := by
  constructor
  · intro leads
    induction leads with
    | file found => exact found
    | link link _ ih =>
      rw [stuck _ _ link] at ih
      cases ih
  · exact .file

theorem leads_copy [DecidableEq Path] {copy target : Path} {copied : Content}
    (isLinked : ∀ other, isLink copy other ↔ other = target)
    (others : ∀ path other, remaining path other ↔ isLink path other ∧ path ≠ copy)
    (fresh : ∀ path other, isLink path other → files path = none)
    (found : files target = some copied) :
    Leads (update files copy (some copied)) remaining path content ↔
      Leads files isLink path content := by
  have linked := (isLinked target).mpr rfl
  constructor
  · intro leads
    induction leads with
    | @file path content atPath =>
      by_cases same : path = copy
      · rw [same, update_self] at atPath
        cases atPath
        exact same ▸ .link linked (.file found)
      · rw [update_of_ne same] at atPath
        exact .file atPath
    | link link _ ih => exact .link ((others _ _).mp link).1 ih
  · intro leads
    induction leads with
    | @file path content atPath =>
      refine .file ?_
      rw [update_of_ne]
      · exact atPath
      · rintro rfl
        rw [fresh _ _ linked] at atPath
        cases atPath
    | @link path next content link further ih =>
      by_cases same : path = copy
      · subst same
        obtain rfl := (isLinked next).mp link
        -- the target is a file, so it is not a link itself
        cases further with
        | file atTarget =>
          rw [found] at atTarget
          exact .file (by rw [update_self, atTarget])
        | link again _ =>
          rw [fresh _ _ again] at found
          cases found
      · exact .link ((others _ _).mpr ⟨link, same⟩) ih

end LinkChains
