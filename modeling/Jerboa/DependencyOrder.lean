import Mathlib.Data.Fintype.Card
import Mathlib.Data.List.Lex
import Mathlib.Data.Set.Finite.Basic
import Mathlib.Logic.Relation
import Mathlib.Order.WellFounded

/-!
# Orders that respect dependencies

A schedule lists every name once and puts what a name needs before it.  When
names are ordered, the schedule that always takes the least name whose needs
are met comes first in the lexicographic order of all schedules.
-/

namespace Jerboa.DependencyOrder

open List

variable {Name : Type*} (names : List Name) (needs : Name → Name → Prop)

/-- A name that may come next once `done` have come. -/
structure Eligible (done : List Name) (name : Name) : Prop where
  known : name ∈ names
  unplaced : name ∉ done
  met : ∀ need, needs name need → need ∈ done

def Respects (order : List Name) : Prop :=
  ∀ earlier name later, order = earlier ++ name :: later →
    ∀ need, needs name need → need ∈ earlier

/-- A list of all names that respects what they need. -/
structure IsSchedule (order : List Name) : Prop where
  perm : order.Perm names
  respects : Respects needs order

def HasCycle : Prop := ∃ name, Relation.TransGen needs name name

variable {names needs}

theorem Respects.mem_earlier {order : List Name} (respects : Respects needs order)
    {earlier later : List Name} {name need : Name}
    (split : order = earlier ++ name :: later)
    (chain : Relation.TransGen needs name need) : need ∈ earlier := by
  induction chain with
  | single direct => exact respects earlier name later split _ direct
  | @tail middle last _ step before =>
    obtain ⟨first, second, earlier_eq⟩ := append_of_mem before
    have middle_split : order = first ++ middle :: (second ++ name :: later) := by
      simp [split, earlier_eq]
    have before_middle := respects first middle _ middle_split last step
    simp [earlier_eq, before_middle]

theorem IsSchedule.eligible {order earlier later : List Name} {name : Name}
    (schedule : IsSchedule names needs order) (nodup : names.Nodup)
    (split : order = earlier ++ name :: later) : Eligible names needs earlier name where
  known := schedule.perm.mem_iff.mp (by simp [split])
  unplaced := by
    have order_nodup : order.Nodup := schedule.perm.nodup_iff.mpr nodup
    rw [split] at order_nodup
    exact fun before => (nodup_append.mp order_nodup).2.2 name before name (by simp) rfl
  met := schedule.respects earlier name later split

theorem IsSchedule.not_hasCycle {order : List Name} (nodup : names.Nodup)
    (closed : ∀ name need, needs name need → name ∈ names)
    (schedule : IsSchedule names needs order) : ¬ HasCycle needs := by
  rintro ⟨name, cycle⟩
  obtain ⟨next, direct, -⟩ := Relation.TransGen.head'_iff.mp cycle
  have known : name ∈ names := closed name next direct
  have member : name ∈ order := schedule.perm.mem_iff.mpr known
  obtain ⟨earlier, later, split⟩ := append_of_mem member
  exact (schedule.eligible nodup split).unplaced (schedule.respects.mem_earlier split cycle)

theorem hasCycle_of_stuck {done : List Name}
    (closed : ∀ name ∈ names, ∀ need, needs name need → need ∈ names)
    (stuck : ∀ name, ¬ Eligible names needs done name)
    (left : ∃ name ∈ names, name ∉ done) : HasCycle needs := by
  by_contra acyclic
  -- Without a cycle the indirect needs of the finitely many names are well founded.
  let below : {name // name ∈ names} → {name // name ∈ names} → Prop :=
    fun first second => Relation.TransGen needs second.1 first.1
  have transitive : IsTrans _ below := ⟨fun _ _ _ first second => second.trans first⟩
  have irreflexive : Std.Irrefl below := ⟨fun name cycle => acyclic ⟨name.1, cycle⟩⟩
  have finite : Finite {name // name ∈ names} := finite_toSet names
  have wellFounded : WellFounded below := Finite.wellFounded_of_trans_of_irrefl below
  obtain ⟨name, known, notDone⟩ := left
  obtain ⟨least, least_left, minimal⟩ :=
    wellFounded.has_min {name | name.1 ∉ done} ⟨⟨name, known⟩, notDone⟩
  refine stuck least.1 ⟨least.2, least_left, fun need needed => ?_⟩
  by_contra need_left
  exact minimal ⟨need, closed least.1 least.2 need needed⟩ need_left (.single needed)

section Least

variable [LinearOrder Name]

variable (names needs) in
def TakesLeast (order : List Name) : Prop :=
  ∀ earlier name later, order = earlier ++ name :: later →
    Eligible names needs earlier name ∧
      ∀ other, Eligible names needs earlier other → name ≤ other

variable {order : List Name}

theorem TakesLeast.respects (least : TakesLeast names needs order) :
    Respects needs order :=
  fun earlier name later split => (least earlier name later split).1.met

theorem TakesLeast.nil : TakesLeast names needs ([] : List Name) := by
  intro earlier name later split
  simp at split

theorem TakesLeast.append {name : Name}
    (least : TakesLeast names needs order) (eligible : Eligible names needs order name)
    (minimal : ∀ other, Eligible names needs order other → name ≤ other) :
    TakesLeast names needs (order ++ [name]) := by
  intro earlier last later split
  rcases eq_nil_or_concat later with rfl | ⟨before, final, rfl⟩
  · obtain ⟨rfl, same⟩ := append_inj' split rfl
    obtain rfl : name = last := by simpa using same
    exact ⟨eligible, minimal⟩
  · rw [concat_eq_append, ← cons_append, ← append_assoc] at split
    exact least earlier last before (append_inj' split rfl).1

theorem TakesLeast.of_append {order rest : List Name}
    (least : TakesLeast names needs (order ++ rest)) : TakesLeast names needs order := by
  intro earlier name later split
  exact least earlier name (later ++ rest) (by simp [split])

theorem TakesLeast.nodup (least : TakesLeast names needs order) :
    order.Nodup := by
  induction order using List.reverseRecOn with
  | nil => exact nodup_nil
  | append_singleton order name before =>
    have fresh : name ∉ order := (least order name [] rfl).1.unplaced
    rw [← concat_eq_append]
    exact List.Nodup.concat fresh (before least.of_append)

theorem TakesLeast.subset (least : TakesLeast names needs order) :
    order ⊆ names := by
  intro name member
  obtain ⟨earlier, later, split⟩ := append_of_mem member
  exact (least earlier name later split).1.known

theorem TakesLeast.le_of_common {order other : List Name} (nodup : names.Nodup)
    (least : TakesLeast names needs order) (schedule : IsSchedule names needs other)
    (rest : List Name) : ∀ done otherRest : List Name, order = done ++ rest →
    other = done ++ otherRest → rest ≤ otherRest := by
  induction rest with
  | nil =>
    intro done otherRest _ _
    cases otherRest with
    | nil => exact le_refl []
    | cons => exact le_of_lt List.Lex.nil
  | cons name rest remaining =>
    intro done otherRest split otherSplit
    have eligible := (least done name rest split).1
    cases otherRest with
    | nil =>
      -- The other schedule would be over although a name is left.
      rw [append_nil] at otherSplit
      have complete : name ∈ done := otherSplit ▸ schedule.perm.mem_iff.mpr eligible.known
      exact absurd complete eligible.unplaced
    | cons otherName otherRest =>
      have otherEligible := schedule.eligible nodup otherSplit
      rcases lt_or_eq_of_le ((least done name rest split).2 otherName otherEligible) with
        smaller | rfl
      · exact le_of_lt (List.Lex.rel smaller)
      · refine cons_le_cons name (remaining (done ++ [name]) otherRest ?_ ?_)
        · simp [split]
        · simp [otherSplit]

theorem TakesLeast.le {order other : List Name} (nodup : names.Nodup)
    (least : TakesLeast names needs order) (schedule : IsSchedule names needs other) :
    order ≤ other :=
  least.le_of_common nodup schedule order [] other rfl rfl

end Least

end Jerboa.DependencyOrder
