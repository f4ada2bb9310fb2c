import Jerboa.TransitionSystem
import Mathlib.Data.Multiset.AddSub
import Mathlib.Tactic

/-!
# Priority queues of the kernel

The heap of `pqueue.c`: a vector of elements in which no element has a higher
priority than its parent.  The keys of the elements may change before a call of
`pqueue_reorder`, and then the sort function answers as another order.

Positions are u32 numbers, and `vector_set` counts the bytes of a vector by an
int: with 2^28 elements it can fail, and then an assertion halts the kernel.
-/

namespace Jerboa.Kernel

/-- The answers of a sort function, a strict weak order: `sort a b` if `b` has
the higher priority. -/
structure Priority (α : Type*) where
  sort : α → α → Bool
  asymm : sort a b = true → sort b a = false
  weak : sort a b = false → sort b c = false → sort a c = false

structure Pqueue (α : Type*) where
  body : Array α
  priority : Priority α

namespace Pqueue

variable {α : Type*}

def index (n : Nat) : Nat :=
  n % 2 ^ 32

/-- Positions are off by 1 from vector references. -/
def ref (x : Nat) : Nat :=
  if x = 0 then 2 ^ 32 - 1 else x - 1

def vectorSet (body : Array α) (offset : Nat) (value : α) : Option (Array α) :=
  if (offset + 1) * 8 % 2 ^ 32 < 2 ^ 31 then some (body.setIfInBounds offset value) else none

def qcompare (q : Pqueue α) (x y : Nat) : Bool :=
  match q.body[ref x]?, q.body[ref y]? with
  | some a, some b => q.priority.sort a b
  | _, _ => false

def swap (q : Pqueue α) (x y : Nat) : Option (Pqueue α) := do
  let temp ← q.body[ref x]?
  let other ← q.body[ref y]?
  let body ← vectorSet q.body (ref x) other
  let body ← vectorSet body (ref y) temp
  return { q with body := body }

def largerChild (q : Pqueue α) (i : Nat) : Nat :=
  if i < index q.body.size ∧ q.qcompare i (index (i + 1)) then index (i + 1) else i

/-- `heal_down`, with a bound on the turns of its loop. -/
def healDown : Nat → Pqueue α → Nat → Option (Pqueue α)
  | 0, _, _ => none
  | turns + 1, q, place =>
    let i := q.largerChild (index (2 * place))
    if index (2 * place) ≤ index q.body.size ∧ q.qcompare place i then
      (q.swap place i).bind fun q => healDown turns q i
    else some q

def healUp (q : Pqueue α) (place : Nat) : Option (Pqueue α) :=
  if 1 < place ∧ q.qcompare (place / 2) place then
    (q.swap (place / 2) place).bind fun q => q.healUp (place / 2)
  else some q

/-- `add_pqueue`: a parent is positive just if the place is not the first. -/
def addPqueue (q : Pqueue α) (i : Nat) : Option (Pqueue α) :=
  q.healUp i

def insert (q : Pqueue α) (v : α) : Option (Pqueue α) :=
  let q := { q with body := q.body.push v }
  q.addPqueue (index q.body.size)

def removeAt (q : Pqueue α) (i : Nat) : Option (Pqueue α) := do
  let n ← q.body.back?
  let body := q.body.pop
  if i ≠ body.size then
    let q := { q with body := ← vectorSet body i n }
    let idx := index (i + 1)
    if 1 < idx ∧ q.qcompare (idx / 2) idx then q.healUp idx
    else q.healDown (q.body.size + 1) idx
  else return { q with body := body }

def remove [DecidableEq α] (q : Pqueue α) (v : α) : Option (Pqueue α × Bool) :=
  match q.body.toList.findIdx? (· = v) with
  | none => some (q, false)
  | some i => (q.removeAt i).map (·, true)

/-- `pqueue_pop`; no element is null, so `vector_peek` finds one unless the
vector is empty. -/
def pop (q : Pqueue α) : Option (Pqueue α × Option α) :=
  match q.body[0]?, q.body.back? with
  | some result, some n =>
    let body := q.body.pop
    if 0 < body.size then do
      let q := { q with body := ← vectorSet body 0 n }
      (q.healDown (q.body.size + 1) 1).map (·, some result)
    else some ({ q with body := body }, some result)
  | _, _ => some (q, none)

def peek (q : Pqueue α) : Option α :=
  q.body[0]?

/-- The loop of `pqueue_reorder` from position `i` down. -/
def healFrom : Nat → Pqueue α → Option (Pqueue α)
  | 0, q => some q
  | i + 1, q => (healDown (q.body.size + 1) q (i + 1)).bind (healFrom i)

def reorder (q : Pqueue α) : Option (Pqueue α) :=
  q.healFrom (index (q.body.size / 2))

/-! ### The order of a heap -/

def contents (q : Pqueue α) : Multiset α :=
  q.body.toList

/-- The element at position `y` has a higher priority than that at `x`. -/
def before (q : Pqueue α) (x y : Nat) : Bool :=
  match q.body[x - 1]?, q.body[y - 1]? with
  | some a, some b => q.priority.sort a b
  | _, _ => false

/-- From the parent at `low` on, no child has a higher priority than its
parent. -/
def InOrder (low : Nat) (q : Pqueue α) : Prop :=
  ∀ i, 1 < i → low ≤ i / 2 → q.before (i / 2) i = false

variable {q : Pqueue α} {x y z place low : Nat}

theorem inside_of_before (less : q.before x y = true) :
    x - 1 < q.body.size ∧ y - 1 < q.body.size := by
  by_contra outside
  rw [not_and_or, not_lt, not_lt] at outside
  rcases outside with outside | outside <;>
    simp [before, Array.getElem?_eq_none outside] at less

theorem before_outside (outside : q.body.size < y) : q.before x y = false := by
  by_contra less
  have inside := (inside_of_before (by simpa using less)).2
  omega

theorem before_asymm (less : q.before x y = true) : q.before y x = false := by
  obtain ⟨insideX, insideY⟩ := inside_of_before less
  simp only [before, Array.getElem?_eq_getElem insideX, Array.getElem?_eq_getElem insideY]
    at less ⊢
  exact q.priority.asymm less

theorem before_weak (inside : y - 1 < q.body.size) (first : q.before x y = false)
    (second : q.before y z = false) : q.before x z = false := by
  by_contra less
  obtain ⟨insideX, insideZ⟩ := inside_of_before (by simpa using less)
  simp only [before, Array.getElem?_eq_getElem inside, Array.getElem?_eq_getElem insideX,
    Array.getElem?_eq_getElem insideZ] at first second less
  exact less (q.priority.weak first second)

/-! ### Positions below 2^28 -/

/-- An int counts the bytes of the vector. -/
def Small (q : Pqueue α) : Prop :=
  q.body.size < 2 ^ 28

def swapped (q : Pqueue α) (x y : Nat) : Pqueue α :=
  { q with body := q.body.swapIfInBounds (x - 1) (y - 1) }

theorem index_eq {n : Nat} (small : n < 2 ^ 32) : index n = n :=
  Nat.mod_eq_of_lt small

theorem ref_eq (pos : 0 < x) : ref x = x - 1 :=
  if_neg pos.ne'

theorem qcompare_eq (posX : 0 < x) (posY : 0 < y) : q.qcompare x y = q.before x y := by
  simp only [qcompare, before, ref_eq posX, ref_eq posY]

theorem vectorSet_eq {body : Array α} {offset : Nat} (small : offset + 1 < 2 ^ 28) (value : α) :
    vectorSet body offset value = some (body.setIfInBounds offset value) := by
  have few : (offset + 1) * 8 % 2 ^ 32 < 2 ^ 31 := by omega
  rw [vectorSet, if_pos few]

theorem swap_eq (small : q.Small) (posX : 0 < x) (posY : 0 < y) (less : q.before x y = true) :
    q.swap x y = some (q.swapped x y) := by
  unfold Small at small
  obtain ⟨insideX, insideY⟩ := inside_of_before less
  have exchanged : (q.body.setIfInBounds (x - 1) q.body[y - 1]).setIfInBounds (y - 1) q.body[x - 1] =
      q.body.swapIfInBounds (x - 1) (y - 1) := by
    simp [Array.swapIfInBounds, insideX, insideY, Array.swap, Array.setIfInBounds]
  rw [swap, ref_eq posX, ref_eq posY, Array.getElem?_eq_getElem insideX,
    Array.getElem?_eq_getElem insideY]
  simp [vectorSet_eq (show x - 1 + 1 < 2 ^ 28 by omega),
    vectorSet_eq (show y - 1 + 1 < 2 ^ 28 by omega), exchanged, swapped]

theorem before_swapped (less : q.before x y = true) (posX : 0 < x) (posY : 0 < y) {i j : Nat}
    (posI : 0 < i) (posJ : 0 < j) :
    (q.swapped x y).before i j = q.before (Equiv.swap x y i) (Equiv.swap x y j) := by
  obtain ⟨insideX, insideY⟩ := inside_of_before less
  have moved {k : Nat} (pos : 0 < k) :
      (q.swapped x y).body[k - 1]? = q.body[Equiv.swap x y k - 1]? := by
    simp only [swapped, Array.swapIfInBounds, dif_pos insideX, dif_pos insideY, Array.getElem?_swap,
      Equiv.swap_apply_def]
    split_ifs with isY isX isX' isY' <;> grind
  simp only [before, moved posI, moved posJ]
  rfl

/-- The element at `place` may have a lower priority than its children. -/
structure Sinking (low place : Nat) (q : Pqueue α) : Prop where
  others : ∀ i, 1 < i → low ≤ i / 2 → i / 2 ≠ place → q.before (i / 2) i = false
  above : low ≤ place / 2 → ∀ i, i / 2 = place → q.before (place / 2) i = false

/-- The element at `place` may have a higher priority than its parent. -/
structure Rising (place : Nat) (q : Pqueue α) : Prop where
  others : ∀ i, 1 < i → i ≠ place → q.before (i / 2) i = false
  above : 1 < place → ∀ i, i / 2 = place → q.before (place / 2) i = false

/-- The child of the element at `place` that none of its children comes before. -/
theorem largerChild_spec (small : q.Small) (pos : 0 < place) (inside : place ≤ q.body.size) :
    (q.largerChild (2 * place)) / 2 = place ∧
      (2 * place ≤ q.body.size → q.largerChild (2 * place) ≤ q.body.size) ∧
      ∀ i, i / 2 = place → i ≠ q.largerChild (2 * place) →
        q.before (q.largerChild (2 * place)) i = false := by
  unfold Small at small
  rw [largerChild, index_eq (show q.body.size < 2 ^ 32 by omega),
    index_eq (show 2 * place + 1 < 2 ^ 32 by omega),
    qcompare_eq (by omega) (by omega)]
  split
  · rename_i right
    refine ⟨by omega, by omega, fun i child different => ?_⟩
    obtain rfl : i = 2 * place := by omega
    exact before_asymm right.2
  · rename_i left
    refine ⟨by omega, by omega, fun i child different => ?_⟩
    obtain rfl : i = 2 * place + 1 := by omega
    by_contra less
    have inside := (inside_of_before (by simpa using less)).2
    exact left ⟨by omega, by simpa using less⟩

theorem Sinking.swapped (sinking : q.Sinking low place) (lowPos : 0 < low) (lowLe : low ≤ place)
    {i : Nat} (child : i / 2 = place)
    (larger : ∀ j, j / 2 = place → j ≠ i → q.before i j = false)
    (less : q.before place i = true) : (q.swapped place i).Sinking low i := by
  have swapped {j k : Nat} := before_swapped less (i := j) (j := k) (by omega) (by omega)
  constructor
  · intro j above inside notChild
    rw [swapped (by omega) (by omega)]
    by_cases isI : j = i
    · rw [isI, child, Equiv.swap_apply_left, Equiv.swap_apply_right]
      exact before_asymm less
    · by_cases sibling : j / 2 = place
      · rw [sibling, Equiv.swap_apply_left, Equiv.swap_apply_of_ne_of_ne (by omega) isI]
        exact larger j sibling isI
      · rw [Equiv.swap_apply_of_ne_of_ne sibling notChild]
        by_cases isPlace : j = place
        · rw [isPlace, Equiv.swap_apply_left]
          exact sinking.above (isPlace ▸ inside) i child
        · rw [Equiv.swap_apply_of_ne_of_ne isPlace isI]
          exact sinking.others j above inside sibling
  · intro inside j grandchild
    rw [child, swapped (by omega) (by omega), Equiv.swap_apply_left,
      Equiv.swap_apply_of_ne_of_ne (by omega) (by omega), ← grandchild]
    exact sinking.others j (by omega) (by omega) (by omega)

/-- A loop ends with a heap of the same elements. -/
def Heals (low : Nat) (q : Pqueue α) (result : Option (Pqueue α)) : Prop :=
  ∃ after, result = some after ∧ after.InOrder low ∧ after.contents = q.contents

theorem contents_swapped (q : Pqueue α) (x y : Nat) : (q.swapped x y).contents = q.contents := by
  apply Multiset.coe_eq_coe.mpr
  simp only [swapped, Array.swapIfInBounds]
  split
  · split
    · exact Array.perm_iff_toList_perm.mp (Array.swap_perm ..)
    · exact .refl _
  · exact .refl _

theorem size_swapped (q : Pqueue α) (x y : Nat) : (q.swapped x y).body.size = q.body.size :=
  Array.size_swapIfInBounds ..

theorem Heals.of_swapped {result : Option (Pqueue α)}
    (heals : (q.swapped x y).Heals low result) : q.Heals low result := by
  obtain ⟨after, ends, inOrder, same⟩ := heals
  exact ⟨after, ends, inOrder, same.trans (contents_swapped ..)⟩

theorem Sinking.healDown (turns : Nat) (sinking : q.Sinking low place) (small : q.Small)
    (lowPos : 0 < low) (lowLe : low ≤ place) (inside : place ≤ q.body.size)
    (enough : q.body.size < turns + place) : q.Heals low (healDown turns q place) := by
  unfold Small at small
  induction turns generalizing q place with
  | zero => omega
  | succ turns ih =>
    obtain ⟨child, isChild, larger⟩ := largerChild_spec small (by omega) inside
    unfold Pqueue.healDown
    rw [index_eq (show 2 * place < 2 ^ 32 by omega), index_eq (show q.body.size < 2 ^ 32 by omega)]
    dsimp only
    generalize q.largerChild (2 * place) = i at child isChild larger
    split
    · rename_i goesOn
      have within := isChild goesOn.1
      have less : q.before place i = true := by
        rw [← qcompare_eq (by omega) (by omega)]
        exact goesOn.2
      rw [swap_eq small (by omega) (by omega) less]
      have size := size_swapped q place i
      exact (ih (sinking.swapped lowPos lowLe child larger less) (by omega) (by omega) (by omega)
        (by omega)).of_swapped
    · rename_i ends
      refine ⟨q, rfl, fun k above inside => ?_, rfl⟩
      by_cases ofPlace : k / 2 = place
      · by_cases within : k ≤ q.body.size
        · have reached := isChild (by omega)
          have stays : q.before place i = false := by
            by_contra less
            apply ends
            rw [qcompare_eq (by omega) (by omega)]
            exact ⟨by omega, by simpa using less⟩
          rw [ofPlace]
          by_cases isLarger : k = i
          · rwa [isLarger]
          · exact before_weak (by omega) stays (larger k ofPlace isLarger)
        · exact before_outside (by omega)
      · exact sinking.others k above inside ofPlace

theorem Rising.swapped (rising : q.Rising place) (below : 1 < place)
    (less : q.before (place / 2) place = true) :
    (q.swapped (place / 2) place).Rising (place / 2) := by
  have swapped {j k : Nat} := before_swapped less (i := j) (j := k) (by omega) (by omega)
  have parent := (inside_of_before less).1
  constructor
  · intro i above notParent
    rw [swapped (by omega) (by omega)]
    by_cases isPlace : i = place
    · rw [isPlace, Equiv.swap_apply_left, Equiv.swap_apply_right]
      exact before_asymm less
    · rw [Equiv.swap_apply_of_ne_of_ne notParent isPlace]
      by_cases sibling : i / 2 = place / 2
      · rw [sibling, Equiv.swap_apply_left]
        exact before_weak parent (before_asymm less) (sibling ▸ rising.others i above isPlace)
      · by_cases child : i / 2 = place
        · rw [child, Equiv.swap_apply_right]
          exact rising.above below i child
        · rw [Equiv.swap_apply_of_ne_of_ne sibling child]
          exact rising.others i above isPlace
  · intro top i child
    have upper := rising.others (place / 2) top (by omega)
    rw [swapped (by omega) (by omega), Equiv.swap_apply_of_ne_of_ne (by omega) (by omega)]
    by_cases isPlace : i = place
    · rw [isPlace, Equiv.swap_apply_right]
      exact upper
    · rw [Equiv.swap_apply_of_ne_of_ne (by omega) isPlace]
      exact before_weak parent upper (child ▸ rising.others i (by omega) isPlace)

theorem Rising.healUp (rising : q.Rising place) (small : q.Small) (inside : place ≤ q.body.size) :
    q.Heals 1 (q.healUp place) := by
  unfold Small at small
  induction place using Nat.strongRecOn generalizing q with
  | ind place ih =>
    have compared (below : 1 < place) : q.qcompare (place / 2) place = q.before (place / 2) place :=
      qcompare_eq (by omega) (by omega)
    unfold Pqueue.healUp
    split
    · rename_i goesOn
      rw [compared goesOn.1] at goesOn
      rw [swap_eq small (by omega) (by omega) goesOn.2]
      have size := size_swapped q (place / 2) place
      exact (ih (place / 2) (by omega) (rising.swapped goesOn.1 goesOn.2) (by omega)
        (by omega)).of_swapped
    · rename_i ends
      refine ⟨q, rfl, fun i above _ => ?_, rfl⟩
      by_cases isPlace : i = place
      · subst isPlace
        by_contra less
        exact ends ⟨above, by simpa [compared above] using less⟩
      · exact rising.others i above isPlace

/-- The first element has the highest priority. -/
theorem InOrder.first (inOrder : q.InOrder 1) (i : Nat) : q.before 1 i = false := by
  induction i using Nat.strongRecOn with
  | ind i ih =>
    by_cases inside : 1 < i ∧ i ≤ q.body.size
    · exact before_weak (by omega) (ih (i / 2) (by omega)) (inOrder i inside.1 (by omega))
    · by_contra less
      have less : q.before 1 i = true := by simpa using less
      have bound := (inside_of_before less).2
      have same : q.before i 1 = q.before 1 i := by
        simp only [before, show i - 1 = 1 - 1 by omega]
      rw [before_asymm less, less] at same
      cases same

/-! ### Calls -/

/-- What a queue is between calls: a heap of the elements it should hold. -/
structure Holds (q : Pqueue α) (held : Multiset α) : Prop where
  inOrder : q.InOrder 1
  contents : q.contents = held

variable {held : Multiset α}

theorem Holds.size (holds : q.Holds held) : q.body.size = held.card := by
  rw [← holds.contents, Pqueue.contents, Multiset.coe_card, Array.length_toList]

theorem Heals.holds {result : Option (Pqueue α)} (heals : q.Heals 1 result)
    (contents : q.contents = held) : ∃ after, result = some after ∧ after.Holds held := by
  obtain ⟨after, ends, inOrder, same⟩ := heals
  exact ⟨after, ends, inOrder, same.trans contents⟩

theorem Holds.insert (holds : q.Holds held) (v : α) (room : held.card + 1 < 2 ^ 28) :
    ∃ after, q.insert v = some after ∧ after.Holds (v ::ₘ held) := by
  rw [← holds.size] at room
  have size : (q.body.push v).size = q.body.size + 1 := Array.size_push ..
  have rising : Rising (q.body.size + 1) { q with body := q.body.push v } := by
    constructor
    · intro i above different
      by_cases old : i ≤ q.body.size
      · rw [← holds.inOrder i above (by omega)]
        simp only [before, Array.getElem?_push, if_neg (show i - 1 ≠ q.body.size by omega),
          if_neg (show i / 2 - 1 ≠ q.body.size by omega)]
      · exact before_outside (by simp; omega)
    · intro _ i child
      exact before_outside (by simp; omega)
  rw [Pqueue.insert, addPqueue]
  dsimp only
  rw [size, index_eq (by omega)]
  apply (rising.healUp (by rw [Small, size]; exact room) (by rw [size])).holds
  rw [← holds.contents]
  simp [Pqueue.contents]

/-- The vector with the last element in the place of the one at `i`. -/
theorem contents_replaced {rest : Array α} {n v : α} {i : Nat} (body : q.body = rest.push n)
    (found : q.body[i]? = some v) :
    q.contents = v ::ₘ (rest.setIfInBounds i n).toList := by
  rw [contents, body, Array.toList_push, ← Multiset.coe_add, Multiset.add_comm,
    Multiset.coe_singleton, Multiset.singleton_add, Array.toList_setIfInBounds]
  rw [body, Array.getElem?_push] at found
  by_cases last : i = rest.size
  · rw [if_pos last] at found
    cases found
    rw [List.set_eq_of_length_le (by simp [last])]
  · rw [if_neg last] at found
    obtain ⟨inside, isV⟩ := Array.getElem?_eq_some_iff.mp found
    have placed := List.set_perm_cons_eraseIdx (l := rest.toList) inside n
    have before := List.getElem_cons_eraseIdx_perm (l := rest.toList) inside
    rw [← Multiset.coe_eq_coe] at placed before
    rw [placed, ← before, ← Multiset.cons_coe, ← Multiset.cons_coe, Multiset.cons_swap]
    exact congrArg (fun head => head ::ₘ n ::ₘ (rest.toList.eraseIdx i : Multiset α)) isV

theorem Holds.removeAt [DecidableEq α] (holds : q.Holds held) (small : q.Small) {i : Nat} {v : α}
    (found : q.body[i]? = some v) :
    ∃ after, q.removeAt i = some after ∧ after.Holds (held.erase v) := by
  unfold Small at small
  obtain ⟨inside, -⟩ := Array.getElem?_eq_some_iff.mp found
  obtain ⟨rest, n, body⟩ := Array.exists_push_of_size_pos (Nat.zero_lt_of_lt inside)
  have count : q.body.size = rest.size + 1 := by rw [body, Array.size_push]
  set r : Pqueue α := { q with body := rest.setIfInBounds i n } with isR
  have size : r.body.size = rest.size := Array.size_setIfInBounds ..
  have held : r.contents = held.erase v := by
    rw [← holds.contents, contents_replaced body found, Multiset.erase_cons_head]
    rfl
  have same {j k : Nat} (posJ : 0 < j) (le : j ≤ k) (within : k ≤ rest.size) (neJ : j ≠ i + 1)
      (neK : k ≠ i + 1) : r.before j k = q.before j k := by
    simp only [isR, before, body, Array.getElem?_push, Array.getElem?_setIfInBounds,
      if_neg (show i ≠ j - 1 by omega), if_neg (show i ≠ k - 1 by omega),
      if_neg (show j - 1 ≠ rest.size by omega), if_neg (show k - 1 ≠ rest.size by omega)]
  have others (k : Nat) (below : 1 < k) (neK : k ≠ i + 1) (neJ : k / 2 ≠ i + 1) :
      r.before (k / 2) k = false := by
    by_cases within : k ≤ rest.size
    · rw [same (by omega) (by omega) within neJ neK]
      exact holds.inOrder k below (by omega)
    · exact before_outside (by omega)
  have above (below : 1 < i + 1) (k : Nat) (child : k / 2 = i + 1) :
      r.before ((i + 1) / 2) k = false := by
    by_cases within : k ≤ rest.size
    · rw [same (by omega) (by omega) within (by omega) (by omega)]
      exact before_weak (by omega) (holds.inOrder (i + 1) below (by omega))
        (child ▸ holds.inOrder k (by omega) (by omega))
    · exact before_outside (by omega)
  have removed : q.removeAt i =
      if i ≠ rest.size then
        if 1 < i + 1 ∧ r.before ((i + 1) / 2) (i + 1) then r.healUp (i + 1)
        else r.healDown (r.body.size + 1) (i + 1)
      else some { q with body := rest } := by
    have compared (below : 1 < i + 1) :
        r.qcompare ((i + 1) / 2) (i + 1) = r.before ((i + 1) / 2) (i + 1) :=
      qcompare_eq (by omega) (by omega)
    have both : (1 < i + 1 ∧ r.qcompare ((i + 1) / 2) (i + 1) = true) ↔
        1 < i + 1 ∧ r.before ((i + 1) / 2) (i + 1) = true :=
      and_congr_right fun below => by rw [compared below]
    simp only [Pqueue.removeAt, body, Array.back?_push, Array.pop_push, Option.bind_eq_bind,
      Option.bind_some, vectorSet_eq (show i + 1 < 2 ^ 28 by omega),
      index_eq (show i + 1 < 2 ^ 32 by omega), ← isR, both]
    rfl
  rw [removed]
  split_ifs with last rises
  · refine Heals.holds (Rising.healUp ⟨fun k below neK => ?_, above⟩ (by rw [Small]; omega)
      (by omega)) held
    by_cases child : k / 2 = i + 1
    · rw [child]
      exact before_weak (inside_of_before rises.2).1 (before_asymm rises.2)
        (above rises.1 k child)
    · exact others k below neK child
  · refine Heals.holds (Sinking.healDown _ ⟨fun k below _ neJ => ?_,
      fun low k => above (by omega) k⟩ (by rw [Small]; omega) Nat.one_pos (by omega) (by omega)
      (by omega)) held
    by_cases isPlace : k = i + 1
    · rw [isPlace] at below ⊢
      by_contra less
      exact rises ⟨below, by simpa using less⟩
    · exact others k below isPlace neJ
  · have unchanged : rest.setIfInBounds i n = rest := by
      apply Array.setIfInBounds_eq_of_size_le
      omega
    rw [isR, unchanged] at held others
    refine ⟨_, rfl, fun k below _ => ?_, held⟩
    by_cases within : k ≤ rest.size
    · exact others k below (by omega) (by omega)
    · exact before_outside (show rest.size < k by omega)

theorem InOrder.healFrom {i : Nat} (inOrder : q.InOrder (i + 1)) (small : q.Small)
    (inside : i ≤ q.body.size) : q.Heals 1 (healFrom i q) := by
  induction i generalizing q with
  | zero => exact ⟨q, rfl, inOrder, rfl⟩
  | succ i ih =>
    obtain ⟨after, ends, kept, same⟩ := Sinking.healDown (q.body.size + 1)
      ⟨fun k below low ne => inOrder k below (by omega), fun low => by omega⟩ small i.succ_pos le_rfl
      inside (by omega)
    have size : after.body.size = q.body.size := by
      simpa [Pqueue.contents] using congrArg Multiset.card same
    obtain ⟨final, done, ordered, stays⟩ := ih kept (by rwa [Small, size]) (by omega)
    exact ⟨final, by rw [Pqueue.healFrom, ends, Option.bind_some, done], ordered, stays.trans same⟩

theorem Holds.reorder (holds : q.Holds held) (small : q.Small) (priority : Priority α) :
    ∃ after, ({ q with priority := priority } : Pqueue α).reorder = some after ∧
      after.Holds held := by
  unfold Small at small
  have half : index (q.body.size / 2) = q.body.size / 2 := index_eq (by omega)
  have ordered : InOrder (q.body.size / 2 + 1) { q with priority := priority } := by
    intro i below low
    exact before_outside (show q.body.size < i by omega)
  have healed := ordered.healFrom small (show q.body.size / 2 ≤ q.body.size by omega)
  rw [Pqueue.reorder, half]
  exact healed.holds holds.contents

theorem pop_eq {v : α} (found : q.body[0]? = some v) :
    q.pop = (q.removeAt 0).map (·, some v) := by
  obtain ⟨inside, -⟩ := Array.getElem?_eq_some_iff.mp found
  obtain ⟨rest, n, body⟩ := Array.exists_push_of_size_pos inside
  rw [pop, found]
  by_cases more : 0 < rest.size
  · simp [Pqueue.removeAt, body, more, more.ne, index_eq, Option.map_bind]
  · simp [Pqueue.removeAt, body, Nat.eq_zero_of_not_pos more]

inductive Call (α : Type*)
  | insert (v : α)
  | remove (v : α)
  | pop
  | reorder (priority : Priority α)

/-- A queue and the elements that were inserted and not yet removed. -/
structure Use (α : Type*) where
  q : Pqueue α
  held : Multiset α

def Use.call [DecidableEq α] (use : Use α) : Call α → Option (Use α)
  | .insert v => (use.q.insert v).map (⟨·, v ::ₘ use.held⟩)
  | .remove v => (use.q.remove v).map (⟨·.1, use.held.erase v⟩)
  | .pop => use.q.pop.map fun popped => ⟨popped.1, popped.2.elim use.held use.held.erase⟩
  | .reorder priority => ({ use.q with priority := priority } : Pqueue α).reorder.map (⟨·, use.held⟩)

/-- An insertion finds fewer than 2^28 - 1 elements. -/
def Use.HasRoom (use : Use α) : Call α → Prop
  | .insert _ => use.held.card + 1 < 2 ^ 28
  | _ => True

/-- An answer of `pqueue_pop` or `pqueue_peek`: an element that none of those
held comes before. -/
def Highest (q : Pqueue α) (held : Multiset α) : Option α → Prop
  | none => held = 0
  | some v => v ∈ held ∧ ∀ other ∈ held, q.priority.sort v other = false

theorem Holds.highest (holds : q.Holds held) : q.Highest held q.peek := by
  rw [peek, ← holds.contents]
  cases found : q.body[0]? with
  | none =>
    have empty : q.body = #[] := Array.size_eq_zero_iff.mp (by simpa using found)
    simp [Highest, Pqueue.contents, empty]
  | some v =>
    refine ⟨by simpa [Pqueue.contents] using Array.mem_of_getElem? found, fun other member => ?_⟩
    obtain ⟨i, isOther⟩ := Array.getElem?_of_mem (Array.mem_def.mpr member)
    have first := holds.inOrder.first (i + 1)
    simpa [before, found, isOther] using first

theorem Holds.pop [DecidableEq α] (holds : q.Holds held) (small : q.Small) :
    ∃ after, q.pop = some (after, q.peek) ∧ after.Holds (q.peek.elim held held.erase) := by
  rw [peek]
  cases found : q.body[0]? with
  | none => exact ⟨q, by simp [Pqueue.pop, found], holds⟩
  | some v =>
    obtain ⟨after, removed, kept⟩ := holds.removeAt small found
    exact ⟨after, by rw [pop_eq found, removed]; rfl, kept⟩

theorem Holds.remove [DecidableEq α] (holds : q.Holds held) (small : q.Small) (v : α) :
    ∃ after, q.remove v = some (after, decide (v ∈ held)) ∧ after.Holds (held.erase v) := by
  have isHeld : v ∈ held ↔ v ∈ q.body.toList := by
    rw [← holds.contents, Pqueue.contents, Multiset.mem_coe]
  unfold Pqueue.remove
  split
  · rename_i absent
    have notHeld : v ∉ held := by
      rw [isHeld]
      intro member
      simpa using List.findIdx?_eq_none_iff.mp absent v member
    rw [Multiset.erase_of_notMem notHeld, decide_eq_false notHeld]
    exact ⟨q, rfl, holds⟩
  · rename_i i found
    obtain ⟨inside, isV, -⟩ := List.findIdx?_eq_some_iff_getElem.mp found
    have atI : q.body.toList[i] = v := of_decide_eq_true isV
    obtain ⟨after, removed, kept⟩ :=
      holds.removeAt small (Array.getElem?_eq_some_iff.mpr ⟨inside, atI⟩)
    rw [decide_eq_true (isHeld.mpr (atI ▸ List.getElem_mem inside))]
    exact ⟨after, by rw [removed]; rfl, kept⟩

/-- What every call keeps. -/
structure Use.Sound (use : Use α) : Prop where
  holds : use.q.Holds use.held
  few : use.held.card < 2 ^ 28

theorem Use.Sound.small {use : Use α} (sound : use.Sound) : use.q.Small := by
  rw [Small, sound.holds.size]
  exact sound.few

theorem Use.Sound.call [DecidableEq α] {use : Use α} (sound : use.Sound) {c : Call α}
    (room : use.HasRoom c) : ∃ after, use.call c = some after ∧ after.Sound := by
  have fewer (v : α) : (use.held.erase v).card < 2 ^ 28 :=
    (Multiset.card_le_card (Multiset.erase_le v _)).trans_lt sound.few
  cases c with
  | insert v =>
    obtain ⟨after, ends, holds⟩ := sound.holds.insert v room
    exact ⟨⟨after, v ::ₘ use.held⟩, by rw [Use.call, ends]; rfl, holds,
      by rwa [Multiset.card_cons]⟩
  | remove v =>
    obtain ⟨after, ends, holds⟩ := sound.holds.remove sound.small v
    exact ⟨⟨after, _⟩, by rw [Use.call, ends]; rfl, holds, fewer v⟩
  | pop =>
    obtain ⟨after, ends, holds⟩ := sound.holds.pop sound.small
    refine ⟨⟨after, _⟩, by rw [Use.call, ends]; rfl, holds, ?_⟩
    cases use.q.peek with
    | none => exact sound.few
    | some v => exact fewer v
  | reorder priority =>
    obtain ⟨after, ends, holds⟩ := sound.holds.reorder sound.small priority
    exact ⟨⟨after, _⟩, by rw [Use.call, ends]; rfl, holds, sound.few⟩

def Use.empty (priority : Priority α) : Use α :=
  ⟨⟨#[], priority⟩, 0⟩

def useSystem [DecidableEq α] (priority : Priority α) : TransitionSystem (Use α) (Call α) where
  initial use := use = .empty priority
  step := Use.call

def natPriority : Priority Nat where
  sort a b := decide (a < b)
  asymm less := by simp only [decide_eq_true_eq, decide_eq_false_iff_not] at less ⊢; omega
  weak first second := by simp only [decide_eq_false_iff_not] at first second ⊢; omega

def zeros (n : Nat) : Pqueue Nat :=
  ⟨Array.replicate n 0, natPriority⟩

theorem insert_zeros (n : Nat) : (zeros n).insert 0 = some (zeros (n + 1)) := by
  have equal (x y : Nat) : (zeros (n + 1)).qcompare x y = false := by
    rw [qcompare]
    split
    · rename_i first second
      rw [Array.getElem?_eq_some_iff] at first second
      simp_all [zeros, natPriority]
    · rfl
  have pushed : ({ zeros n with body := (zeros n).body.push 0 } : Pqueue Nat) = zeros (n + 1) := by
    rw [zeros, ← Array.replicate_succ, zeros]
  rw [Pqueue.insert, pushed, addPqueue, healUp, if_neg (by simp [equal])]

theorem insert_full {n : Nat} (full : n + 1 = 2 ^ 28) : (zeros n).insert 1 = none := by
  have size : ((zeros n).body.push 1).size = n + 1 := by simp [zeros]
  have parent : ((zeros n).body.push 1)[(n + 1) / 2 - 1]? = some 0 := by
    have inside : (n + 1) / 2 - 1 < n := by omega
    rw [Array.getElem?_push, if_neg (by simpa [zeros] using inside.ne)]
    exact Array.getElem?_replicate.trans (if_pos inside)
  have last : ((zeros n).body.push 1)[n]? = some 1 := by
    rw [Array.getElem?_push, if_pos (by simp [zeros])]
  have refused (body : Array Nat) (value : Nat) : vectorSet body n value = none := by
    have bytes : ¬ (n + 1) * 8 % 2 ^ 32 < 2 ^ 31 := by omega
    rw [vectorSet, if_neg bytes]
  rw [Pqueue.insert, addPqueue]
  dsimp only
  rw [size, index_eq (by omega), healUp, if_pos]
  · rw [swap]
    simp [ref_eq, refused]
  · refine ⟨by omega, ?_⟩
    rw [qcompare_eq (by omega) (by omega), before, parent, Nat.add_sub_cancel, last]
    rfl

end Pqueue

end Jerboa.Kernel
