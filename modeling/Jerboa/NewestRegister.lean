import Mathlib.Order.Lattice
import Mathlib.Data.List.Basic

/-!
# Registers that keep the newest value

A register holds one stamped value and takes over another one only if that is
strictly newer, so among values of one stamp the first to arrive stays.  What
a register holds after a list of values does not depend on their order and
number exactly when the newest ones agree.
-/

namespace NewestRegister

variable {Value Stamp : Type*} [LinearOrder Stamp] (stamp : Value → Stamp)

def offer (current value : Value) : Value :=
  if stamp current < stamp value then value else current

def offerAll (current : Value) (values : List Value) : Value :=
  values.foldl (offer stamp) current

@[simp]
theorem offerAll_nil (current : Value) : offerAll stamp current [] = current :=
  rfl

theorem offerAll_cons (current value : Value) (values : List Value) :
    offerAll stamp current (value :: values) =
      offerAll stamp (offer stamp current value) values :=
  rfl

variable {stamp}

theorem le_stamp_offer (current value : Value) :
    stamp current ≤ stamp (offer stamp current value) ∧
      stamp value ≤ stamp (offer stamp current value) := by
  unfold offer
  split
  · rename_i newer
    exact ⟨newer.le, le_rfl⟩
  · rename_i notNewer
    exact ⟨le_rfl, not_lt.mp notNewer⟩

theorem le_stamp_offerAll (current : Value) (values : List Value) :
    stamp current ≤ stamp (offerAll stamp current values) ∧
      ∀ value ∈ values, stamp value ≤ stamp (offerAll stamp current values) := by
  induction values generalizing current with
  | nil => simp
  | cons value values ih =>
    rw [offerAll_cons]
    have step : stamp current ≤ stamp (offer stamp current value) ∧
        stamp value ≤ stamp (offer stamp current value) := le_stamp_offer current value
    have rest := ih (offer stamp current value)
    refine ⟨step.1.trans rest.1, ?_⟩
    intro other member
    cases List.mem_cons.mp member with
    | inl same => exact same ▸ step.2.trans rest.1
    | inr later => exact rest.2 other later

variable {current : Value} {values : List Value}

theorem offerAll_eq_self (noneNewer : ∀ value ∈ values, stamp value ≤ stamp current) :
    offerAll stamp current values = current := by
  induction values with
  | nil => rfl
  | cons value values ih =>
    have kept : offer stamp current value = current :=
      if_neg (not_lt.mpr (noneNewer value List.mem_cons_self))
    rw [offerAll_cons, kept]
    exact ih (List.forall_mem_cons.mp noneNewer).2

theorem offerAll_eq_or_mem (current : Value) (values : List Value) :
    offerAll stamp current values = current ∨
      offerAll stamp current values ∈ values ∧
        stamp current < stamp (offerAll stamp current values) := by
  induction values generalizing current with
  | nil => exact .inl rfl
  | cons value values ih =>
    rw [offerAll_cons]
    by_cases newer : stamp current < stamp value
    · have taken : offer stamp current value = value := if_pos newer
      rw [taken]
      right
      cases ih value with
      | inl same => exact ⟨by rw [same]; exact List.mem_cons_self, by rw [same]; exact newer⟩
      | inr later => exact ⟨List.mem_cons_of_mem _ later.1, newer.trans later.2⟩
    · have kept : offer stamp current value = current := if_neg newer
      rw [kept]
      cases ih current with
      | inl same => exact .inl same
      | inr later => exact .inr ⟨List.mem_cons_of_mem _ later.1, later.2⟩

theorem offerAll_cons_newest {value : Value} (newer : stamp current < stamp value)
    (newest : ∀ other ∈ values, stamp other ≤ stamp value) :
    offerAll stamp current (value :: values) = value := by
  have taken : offer stamp current value = value := if_pos newer
  rw [offerAll_cons, taken]
  exact offerAll_eq_self newest

/-- A value of a list that is newer than the register and older than no other
value of the list. -/
def IsNewest (stamp : Value → Stamp) (current : Value) (values : List Value)
    (value : Value) : Prop :=
  value ∈ values ∧ stamp current < stamp value ∧
    ∀ other ∈ values, stamp other ≤ stamp value

def NewestAgree (stamp : Value → Stamp) (current : Value) (values : List Value) : Prop :=
  ∀ left right, IsNewest stamp current values left →
    IsNewest stamp current values right → left = right

theorem IsNewest.congr {value : Value} {others : List Value}
    (same : ∀ value, value ∈ values ↔ value ∈ others) (newest : IsNewest stamp current values value) :
    IsNewest stamp current others value :=
  ⟨(same value).mp newest.1, newest.2.1,
    fun other member => newest.2.2 other ((same other).mpr member)⟩

theorem isNewest_offerAll (changed : offerAll stamp current values ≠ current) :
    IsNewest stamp current values (offerAll stamp current values) := by
  obtain ⟨member, newer⟩ := (offerAll_eq_or_mem current values).resolve_left changed
  exact ⟨member, newer, (le_stamp_offerAll current values).2⟩

theorem offerAll_eq_self_iff :
    offerAll stamp current values = current ↔
      ∀ value ∈ values, stamp value ≤ stamp current := by
  constructor
  · intro same value member
    have bound : stamp value ≤ stamp (offerAll stamp current values) :=
      (le_stamp_offerAll current values).2 value member
    rwa [same] at bound
  · exact offerAll_eq_self

theorem newestAgree_of_cons
    (same : ∀ value ∈ values,
      offerAll stamp current (value :: values) = offerAll stamp current values) :
    NewestAgree stamp current values := by
  intro left right leftNewest rightNewest
  calc
    left = offerAll stamp current (left :: values) :=
      (offerAll_cons_newest leftNewest.2.1 leftNewest.2.2).symm
    _ = offerAll stamp current values := same left leftNewest.1
    _ = offerAll stamp current (right :: values) := (same right rightNewest.1).symm
    _ = right := offerAll_cons_newest rightNewest.2.1 rightNewest.2.2

/-- If the newest values of a list agree, the register depends on nothing but
the set of the values. -/
theorem offerAll_congr {others : List Value} (agree : NewestAgree stamp current values)
    (same : ∀ value, value ∈ others ↔ value ∈ values) :
    offerAll stamp current others = offerAll stamp current values := by
  by_cases unchanged : offerAll stamp current values = current
  · rw [unchanged]
    apply offerAll_eq_self
    intro value member
    exact offerAll_eq_self_iff.mp unchanged value ((same value).mp member)
  · have changed : offerAll stamp current others ≠ current := by
      intro unchangedOthers
      apply unchanged
      apply offerAll_eq_self
      intro value member
      exact offerAll_eq_self_iff.mp unchangedOthers value ((same value).mpr member)
    exact agree _ _ ((isNewest_offerAll changed).congr same) (isNewest_offerAll unchanged)

end NewestRegister
