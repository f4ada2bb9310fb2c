import Mathlib.Logic.Function.Basic

/-!
# Holding a lock

Threads that take and release one lock, each at some point of its program.  As
long as only the holder is at a point inside the lock, no two threads are.
-/

variable {Thread Point : Type*}

def Exclusive (inside : Point → Bool) (holder : Option Thread) (threads : Thread → Point) : Prop :=
  ∀ t, inside (threads t) = true → holder = some t

namespace Exclusive

open Function

variable {inside : Point → Bool} {holder : Option Thread} {threads : Thread → Point}

theorem eq (exclusive : Exclusive inside holder threads) {t u : Thread}
    (first : inside (threads t) = true) (second : inside (threads u) = true) : t = u :=
  Option.some.inj ((exclusive t first).symm.trans (exclusive u second))

theorem outside_of_free (exclusive : Exclusive inside none threads) (t : Thread) :
    inside (threads t) = false := by
  rw [Bool.eq_false_iff]
  intro isInside
  exact absurd (exclusive t isInside).symm (Option.some_ne_none t)

theorem outside_of_ne (exclusive : Exclusive inside holder threads) {t u : Thread}
    (isInside : inside (threads t) = true) (other : u ≠ t) : inside (threads u) = false := by
  rw [Bool.eq_false_iff]
  intro alsoInside
  exact other (exclusive.eq alsoInside isInside)

variable [DecidableEq Thread]

theorem acquire (exclusive : Exclusive inside none threads) (t : Thread) (point : Point) :
    Exclusive inside (some t) (update threads t point) := by
  intro u isInside
  by_cases same : u = t
  · rw [same]
  · rw [update_of_ne same, exclusive.outside_of_free u] at isInside
    exact Bool.noConfusion isInside

theorem goOn (exclusive : Exclusive inside holder threads) {t : Thread}
    (isInside : inside (threads t) = true) (point : Point) :
    Exclusive inside (if inside point then holder else none)
      (update threads t point) := by
  intro u nowInside
  by_cases same : u = t
  · subst same
    rw [update_self] at nowInside
    rw [if_pos nowInside]
    exact exclusive u isInside
  · rw [update_of_ne same, exclusive.outside_of_ne isInside same] at nowInside
    exact Bool.noConfusion nowInside

theorem elsewhere (exclusive : Exclusive inside holder threads) (t : Thread) {point : Point}
    (outside : inside point = false) : Exclusive inside holder (update threads t point) := by
  intro u nowInside
  by_cases same : u = t
  · subst same
    rw [update_self, outside] at nowInside
    exact Bool.noConfusion nowInside
  · rw [update_of_ne same] at nowInside
    exact exclusive u nowInside

end Exclusive
