import Jerboa.SearchTree

/-!
# Range maps

The kernel keeps sets of points as ranges in a search tree ordered by their starts.
The searches go down the tree; how insertion and removal balance it is a parameter.
A call that reaches `halt` or a failing assertion gives `none`.
-/

namespace Jerboa.Kernel

open List

/-- The points from `start` up to, but not including, `stop`. -/
structure PointRange where
  start : Nat
  stop : Nat
deriving DecidableEq, Repr

namespace PointRange

instance : Membership Nat PointRange where
  mem range point := range.start ≤ point ∧ point < range.stop

@[simp]
theorem mem_iff {range : PointRange} {point : Nat} :
    point ∈ range ↔ range.start ≤ point ∧ point < range.stop :=
  Iff.rfl

def intersection (a b : PointRange) : PointRange :=
  if min a.stop b.stop ≤ max a.start b.start then ⟨0, 0⟩
  else ⟨max a.start b.start, min a.stop b.stop⟩

def span (range : PointRange) : Nat :=
  range.stop - range.start

theorem span_intersection_pos {a b : PointRange} :
    0 < (a.intersection b).span ↔ max a.start b.start < min a.stop b.stop := by
  unfold intersection span
  split <;> dsimp only <;> omega

theorem intersection_eq {a b : PointRange} (meets : max a.start b.start < min a.stop b.stop) :
    a.intersection b = ⟨max a.start b.start, min a.stop b.stop⟩ :=
  if_neg (by omega)

end PointRange

namespace RangeMap

/-! ### The code -/

open SearchTree (toList)

abbrev RangeTree := BinaryTree PointRange

/-- `rangemap_lookup_at_or_next` and the nodes after the one that it returns. -/
def lookupAtOrNext (point : Nat) (t : RangeTree) : List PointRange :=
  match SearchTree.seek PointRange.start point t with
  | none => []
  | some n => (SearchTree.onwards t n).dropWhile (·.stop ≤ point)

def ofRange (t : RangeTree) (k : PointRange) : List PointRange :=
  (lookupAtOrNext k.start t).takeWhile fun curr => 0 < (k.intersection curr).span

variable (updates : SearchTree.Updates PointRange.start)

def insert (t : RangeTree) (n : PointRange) : Option (RangeTree × Bool) :=
  if (ofRange t n).any fun curr => curr.start < n.stop ∧ 0 < (curr.intersection n).span then
    some (t, false)
  else (updates.insertNode t n).map (·, true)

def reinsert (t : RangeTree) (n k : PointRange) : Option (RangeTree × Bool) := do
  let rest ← updates.removeByKey t n.start
  match ← insert updates rest k with
  | (changed, true) => some (changed, true)
  | (rest, false) =>
    match ← insert updates rest n with
    | (restored, true) => some (restored, false)
    | (_, false) => none

/-- The loop of `rangemap_insert_range` once a node is merged: the merged node
grows over the nodes that are removed. -/
def mergeInto (r : PointRange) (t : RangeTree) (merged : PointRange) :
    List PointRange → Option RangeTree
  | [] => some t
  | n :: nodes =>
    if n.start ≤ r.stop then
      let grown := ⟨merged.start, if merged.stop < n.stop then n.stop else merged.stop⟩
      match updates.removeByKey (SearchTree.replace t merged grown) n.start with
      | none => none
      | some t => mergeInto r t grown nodes
    else some t

def firstTouched (t : RangeTree) (r : PointRange) : List PointRange :=
  match SearchTree.seek PointRange.start r.start t with
  | none => []
  | some n =>
    if n.stop < r.start then (SearchTree.onwards t n).tail else SearchTree.onwards t n

/-- `rangemap_insert_range`; `memory` says whether a node can be allocated. -/
def insertRange (memory : Bool) (t : RangeTree) (r : PointRange) : Option (RangeTree × Bool) :=
  let create : Option (RangeTree × Bool) :=
    if memory then (insert updates t r).map (·.1, true) else some (t, false)
  match firstTouched t r with
  | [] => create
  | n :: nodes =>
    if n.start ≤ r.stop then
      -- the first node is changed where it stands in the tree
      let start := if r.start < n.start then r.start else n.start
      let stop := if n.stop < r.stop then r.stop else n.stop
      (mergeInto updates r (SearchTree.replace t n ⟨start, stop⟩) ⟨start, stop⟩ nodes).map (·, true)
    else create

def insertHole (memory : Bool) (t : RangeTree) (r : PointRange) : Option (RangeTree × Bool) :=
  match ofRange t r with
  | [] => some (t, false)
  | curr :: _ =>
    if r.start < curr.start ∨ curr.stop < r.stop then some (t, false)
    else if curr.start < r.start then
      if r.stop < curr.stop then
        if memory then
          match reinsert updates t curr ⟨curr.start, r.start⟩ with
          | none => none
          | some (t, _) => (insert updates t ⟨r.stop, curr.stop⟩).map (·.1, true)
        else some (t, false)
      else (reinsert updates t curr ⟨curr.start, r.start⟩).map (·.1, true)
    else if r.stop < curr.stop then
      (reinsert updates t curr ⟨r.stop, curr.stop⟩).map (·.1, true)
    else (updates.removeByKey t curr.start).map (·, true)

/-! ### What a map covers -/

def Covers (nodes : List PointRange) (point : Nat) : Prop :=
  ∃ node ∈ nodes, point ∈ node

@[simp]
theorem covers_nil (point : Nat) : ¬ Covers [] point := by
  simp [Covers]

@[simp]
theorem covers_cons (node : PointRange) (nodes : List PointRange) (point : Nat) :
    Covers (node :: nodes) point ↔ point ∈ node ∨ Covers nodes point := by
  simp [Covers]

@[simp]
theorem covers_append (first second : List PointRange) (point : Nat) :
    Covers (first ++ second) point ↔ Covers first point ∨ Covers second point := by
  simp [Covers, or_and_right, exists_or]

/-- The nodes are sorted, none is empty, and no two of them touch. -/
structure Separated (nodes : List PointRange) : Prop where
  nonempty : ∀ node ∈ nodes, node.start < node.stop
  apart : nodes.Pairwise fun first second => first.stop < second.start

variable {t : RangeTree} {nodes before after : List PointRange} {node r : PointRange} {point : Nat}

theorem separated_nil : Separated [] :=
  ⟨by simp, .nil⟩

theorem separated_append : Separated (before ++ after) ↔
    Separated before ∧ Separated after ∧ ∀ n ∈ before, ∀ m ∈ after, n.stop < m.start := by
  constructor
  · rintro ⟨nonempty, apart⟩
    obtain ⟨first, second, across⟩ := pairwise_append.mp apart
    obtain ⟨early, late⟩ := forall_mem_append.mp nonempty
    exact ⟨⟨early, first⟩, ⟨late, second⟩, across⟩
  · rintro ⟨first, second, across⟩
    exact ⟨forall_mem_append.mpr ⟨first.nonempty, second.nonempty⟩,
      pairwise_append.mpr ⟨first.apart, second.apart, across⟩⟩

theorem separated_cons : Separated (node :: nodes) ↔
    node.start < node.stop ∧ (∀ n ∈ nodes, node.stop < n.start) ∧ Separated nodes := by
  constructor
  · rintro ⟨nonempty, apart⟩
    obtain ⟨first, rest⟩ := forall_mem_cons.mp nonempty
    exact ⟨first, (pairwise_cons.mp apart).1, rest, apart.of_cons⟩
  · rintro ⟨first, next, rest⟩
    exact ⟨forall_mem_cons.mpr ⟨first, rest.nonempty⟩, .cons next rest.apart⟩

theorem separated_middle : Separated (before ++ node :: after) ↔
    Separated (before ++ after) ∧ node.start < node.stop ∧
      (∀ n ∈ before, n.stop < node.start) ∧ ∀ n ∈ after, node.stop < n.start := by
  simp only [separated_append, separated_cons, forall_mem_cons, imp_and, forall_and]
  tauto

/-! ### Places -/

theorem Separated.sorted (separated : Separated nodes) : SearchTree.Ordered PointRange.start nodes := by
  apply separated.apart.imp_of_mem
  intro first second isFirst _ before
  have wide := separated.nonempty first isFirst
  omega

theorem lookupAtOrNext_eq (sorted : SearchTree.Ordered PointRange.start (toList t))
    (ordered : (toList t).Pairwise fun first second => first.stop ≤ second.start) :
    lookupAtOrNext point t = (toList t).dropWhile (·.stop ≤ point) := by
  rw [lookupAtOrNext]
  split
  · rename_i none
    rw [SearchTree.toList_of_seek_none none, dropWhile_nil]
  · rename_i n found
    obtain ⟨before, after, split, lower, -⟩ := SearchTree.exists_of_seek sorted found
    rw [SearchTree.onwards_eq sorted split, split, dropWhile_append_of_pos]
    intro m member
    rw [split] at ordered
    have follows := (pairwise_append.mp ordered).2.2 m member n mem_cons_self
    exact decide_eq_true (follows.trans (lower (ne_nil_of_mem member)))

theorem Separated.lookupAtOrNext (separated : Separated (toList t)) :
    lookupAtOrNext point t = (toList t).dropWhile (·.stop ≤ point) :=
  lookupAtOrNext_eq separated.sorted (separated.apart.imp Nat.le_of_lt)

theorem insert_between (separated : Separated (before ++ node :: after))
    (split : toList t = before ++ after) :
    ∃ u, insert updates t node = some (u, true) ∧ toList u = before ++ node :: after := by
  obtain ⟨others, nonempty, early, late⟩ := separated_middle.mp separated
  have skipped : ∀ n ∈ before, decide (n.stop ≤ node.start) = true :=
    fun n member => decide_eq_true (early n member).le
  have visits : ofRange t node = [] := by
    rw [ofRange, (split ▸ others : Separated (toList t)).lookupAtOrNext, split,
      dropWhile_append_of_pos skipped]
    cases after with
    | nil => rfl
    | cons n after =>
      have apart := late n mem_cons_self
      have wide := others.nonempty n (by simp)
      rw [dropWhile_cons_of_neg (by rw [decide_eq_true_eq]; omega), takeWhile_cons_of_neg]
      rw [decide_eq_true_eq, PointRange.span_intersection_pos]
      omega
  obtain ⟨u, inserted, same⟩ := updates.insertNode_eq separated.sorted split
  exact ⟨u, by rw [insert, visits, inserted]; rfl, same⟩

theorem reinsert_between {k : PointRange} (separated : Separated (before ++ node :: after))
    (split : toList t = before ++ node :: after) (changed : Separated (before ++ k :: after)) :
    ∃ u, reinsert updates t node k = some (u, true) ∧ toList u = before ++ k :: after := by
  obtain ⟨rest, removed, others⟩ := updates.removeByKey_eq (split ▸ separated.sorted) split
  obtain ⟨u, inserted, same⟩ := insert_between updates changed others
  exact ⟨u, by simp [reinsert, removed, inserted], same⟩

/-! ### Inserting a range -/

theorem mergeInto_spec {merged : PointRange}
    (sorted : SearchTree.Ordered PointRange.start (toList t))
    (split : toList t = before ++ merged :: nodes) (nonempty : merged.start < merged.stop)
    (touches : merged.start ≤ r.stop) (reaches : r.stop ≤ merged.stop) (separated : Separated nodes)
    (past : ∀ n ∈ nodes, r.stop < n.start → merged.stop < n.start) :
    ∃ u stop rest, mergeInto updates r t merged nodes = some u ∧
      toList u = before ++ ⟨merged.start, stop⟩ :: rest ∧
      Separated (⟨merged.start, stop⟩ :: rest) ∧
      ∀ point, Covers (⟨merged.start, stop⟩ :: rest) point ↔ point ∈ merged ∨ Covers nodes point := by
  induction nodes generalizing t merged with
  | nil =>
    exact ⟨t, merged.stop, [], rfl, split, separated_cons.mpr ⟨nonempty, by simp, separated⟩, by simp⟩
  | cons n nodes ih =>
    obtain ⟨wide, apart, rest⟩ := separated_cons.mp separated
    obtain ⟨first, later⟩ := forall_mem_cons.mp past
    rw [mergeInto]
    split
    · rename_i touched
      have highest : (if merged.stop < n.stop then n.stop else merged.stop) =
          max merged.stop n.stop := by
        split <;> omega
      dsimp only
      rw [highest]
      have place := SearchTree.toList_replace sorted split ⟨merged.start, max merged.stop n.stop⟩
      rw [split] at sorted
      have middle := SearchTree.ordered_middle.mp sorted
      have lower : merged.start < n.start := middle.2.2 n mem_cons_self
      have changed : SearchTree.Ordered PointRange.start
          (before ++ ⟨merged.start, max merged.stop n.stop⟩ :: n :: nodes) :=
        SearchTree.ordered_middle.mpr middle
      rw [append_cons] at changed place
      obtain ⟨u, removed, others⟩ := updates.removeByKey_eq (place ▸ changed) place
      rw [removed]
      have left := (SearchTree.ordered_middle.mp changed).1
      rw [← append_cons] at left others
      obtain ⟨v, stop, kept, run, same, final, covered⟩ := ih (others ▸ left) others
        (by dsimp only; omega) touches (by dsimp only; omega) rest (by
          intro m member far
          have beyond := apart m member
          have bound := later m member far
          dsimp only
          omega)
      refine ⟨v, stop, kept, run, same, final, fun point => ?_⟩
      rw [covered, covers_cons, ← or_assoc]
      apply or_congr_left
      simp only [PointRange.mem_iff]
      omega
    · rename_i far
      refine ⟨t, merged.stop, n :: nodes, rfl, split, separated_cons.mpr ⟨nonempty, ?_, separated⟩,
        by simp⟩
      have next := first (by omega)
      refine forall_mem_cons.mpr ⟨next, fun m member => ?_⟩
      have beyond := apart m member
      dsimp only
      omega

theorem firstTouched_spec (separated : Separated (toList t)) (r : PointRange) :
    ∃ before, toList t = before ++ firstTouched t r ∧ (∀ n ∈ before, n.stop < r.start) ∧
      ∀ n ∈ firstTouched t r, r.start ≤ n.stop := by
  rw [firstTouched]
  split
  · rename_i none
    exact ⟨[], SearchTree.toList_of_seek_none none, by simp, by simp⟩
  · rename_i n found
    obtain ⟨before, after, split, lower, upper⟩ := SearchTree.exists_of_seek separated.sorted found
    rw [SearchTree.onwards_eq separated.sorted split]
    rw [split] at separated
    obtain ⟨-, -, earlier, -⟩ := separated_middle.mp separated
    have early : ∀ m ∈ before, m.stop < r.start := fun m member =>
      (earlier m member).trans_le (lower (ne_nil_of_mem member))
    have late : ∀ m ∈ after, r.start ≤ m.stop := fun m member =>
      (upper m member).le.trans (separated.nonempty m (by simp [member])).le
    split
    · rename_i ended
      exact ⟨before ++ [n], by simpa using split, forall_mem_append.mpr ⟨early, by simpa using ended⟩,
        late⟩
    · rename_i reached
      exact ⟨before, split, early, forall_mem_cons.mpr ⟨by omega, late⟩⟩

/-- What a call should do: it keeps the map separated; if it returns true then
`inside` holds and the points are covered as it should be, and otherwise they
are covered as before. -/
def Meets (nodes : List PointRange) (inside : Prop) (covered : Nat → Prop)
    (result : Option (RangeTree × Bool)) : Prop :=
  ∃ after returned, result = some (after, returned) ∧ Separated (toList after) ∧
    (returned = true → inside) ∧
    ∀ point, Covers (toList after) point ↔
      if returned = true then covered point else Covers nodes point

theorem meets_unchanged (separated : Separated (toList t)) {inside : Prop} {covered : Nat → Prop} :
    Meets (toList t) inside covered (some (t, false)) :=
  ⟨t, false, rfl, separated, nofun, fun _ => Iff.rfl⟩

theorem insert_meets (separated : Separated (toList t)) (split : toList t = before ++ after)
    (nonempty : r.start < r.stop) (early : ∀ n ∈ before, n.stop < r.start)
    (late : ∀ n ∈ after, r.stop < n.start) (memory : Bool) :
    Meets (toList t) True (fun point => Covers (toList t) point ∨ point ∈ r)
      (if memory then (insert updates t r).map (·.1, true) else some (t, false)) := by
  cases memory with
  | false => exact meets_unchanged separated
  | true =>
    have inserted := separated_middle.mpr ⟨split ▸ separated, nonempty, early, late⟩
    obtain ⟨u, run, same⟩ := insert_between updates inserted split
    rw [if_pos rfl, run]
    refine ⟨u, true, rfl, same ▸ inserted, fun _ => trivial, fun point => ?_⟩
    rw [if_pos rfl]
    simp only [same, split, covers_append, covers_cons]
    tauto

theorem merge_meets (separated : Separated (toList t)) (split : toList t = before ++ node :: after)
    (nonempty : r.start < r.stop) (early : ∀ n ∈ before, n.stop < r.start)
    (reached : r.start ≤ node.stop) (touches : node.start ≤ r.stop) {start stop : Nat}
    (lowest : start = min node.start r.start) (highest : stop = max node.stop r.stop) :
    Meets (toList t) True (fun point => Covers (toList t) point ∨ point ∈ r)
      ((mergeInto updates r (SearchTree.replace t node ⟨start, stop⟩) ⟨start, stop⟩ after).map
        (·, true)) := by
  have place := SearchTree.toList_replace separated.sorted split ⟨start, stop⟩
  rw [split] at separated
  obtain ⟨others, inside, lower, upper⟩ := separated_middle.mp separated
  obtain ⟨first, second, -⟩ := separated_append.mp others
  have sorted : SearchTree.Ordered PointRange.start (before ++ ⟨start, stop⟩ :: after) := by
    refine SearchTree.ordered_middle.mpr ⟨others.sorted, fun m member => ?_, fun m member => ?_⟩
    · have ended := early m member
      have earlier := lower m member
      have wide := first.nonempty m member
      dsimp only
      omega
    · have later := upper m member
      dsimp only
      omega
  obtain ⟨u, last, rest, run, same, merged, covered⟩ :=
    mergeInto_spec updates (r := r) (place ▸ sorted) place (by dsimp only; omega)
      (by dsimp only; omega) (by dsimp only; omega) second (by
        intro m member far
        have beyond := upper m member
        dsimp only
        omega)
  rw [run]
  refine ⟨u, true, rfl, ?_, fun _ => trivial, fun point => ?_⟩
  · rw [same]
    obtain ⟨wide, next, -⟩ := separated_cons.mp merged
    dsimp only at wide next
    refine separated_append.mpr ⟨first, merged, fun m member => ?_⟩
    have ended := early m member
    have earlier := lower m member
    refine forall_mem_cons.mpr ⟨by dsimp only; omega, fun k isLater => ?_⟩
    have later := next k isLater
    omega
  · have both : start ≤ point ∧ point < stop ↔
        (node.start ≤ point ∧ point < node.stop) ∨ r.start ≤ point ∧ point < r.stop := by
      omega
    rw [if_pos rfl, same, split, covers_append, covered]
    simp only [covers_append, covers_cons, PointRange.mem_iff, both]
    tauto

theorem insertRange_meets (memory : Bool) (separated : Separated (toList t))
    (nonempty : r.start < r.stop) :
    Meets (toList t) True (fun point => Covers (toList t) point ∨ point ∈ r)
      (insertRange updates memory t r) := by
  obtain ⟨before, whole, early, late⟩ := firstTouched_spec separated r
  unfold insertRange
  dsimp only
  split
  · rename_i none
    rw [none] at whole
    exact insert_meets updates separated whole nonempty early (by simp) memory
  · rename_i n after found
    rw [found] at whole late
    split
    · rename_i touches
      apply merge_meets updates separated whole nonempty early (late n mem_cons_self) touches
      · split <;> omega
      · split <;> omega
    · rename_i apart
      apply insert_meets updates separated whole nonempty early
      rw [whole] at separated
      obtain ⟨inside, next, -⟩ := separated_cons.mp (separated_append.mp separated).2.1
      refine forall_mem_cons.mpr ⟨by omega, fun m member => ?_⟩
      have later := next m member
      omega

/-! ### Inserting a hole -/

theorem hole_meets (pieces : List PointRange) (separated : Separated (toList t))
    (whole : toList t = before ++ node :: after)
    (inside : node.start ≤ r.start ∧ r.stop ≤ node.stop) {u : RangeTree}
    (split : Separated (before ++ (pieces ++ after))) (same : toList u = before ++ (pieces ++ after))
    (covered : ∀ point, Covers pieces point ↔ point ∈ node ∧ point ∉ r) :
    Meets (toList t) (∃ n ∈ toList t, n.start ≤ r.start ∧ r.stop ≤ n.stop)
      (fun point => Covers (toList t) point ∧ point ∉ r) (some (u, true)) := by
  rw [whole] at separated ⊢
  refine ⟨u, true, rfl, same ▸ split, fun _ => ⟨node, by simp, inside⟩, fun point => ?_⟩
  have others : Covers before point ∨ Covers after point → point ∉ r := by
    obtain ⟨-, -, lower, upper⟩ := separated_middle.mp separated
    rintro (⟨n, member, inNode⟩ | ⟨n, member, inNode⟩)
    · have apart := lower n member
      simp only [PointRange.mem_iff] at inNode ⊢
      omega
    · have apart := upper n member
      simp only [PointRange.mem_iff] at inNode ⊢
      omega
  rw [if_pos rfl, same]
  simp only [covers_append, covers_cons, covered]
  tauto

theorem insertHole_meets (memory : Bool) (separated : Separated (toList t))
    (nonempty : r.start < r.stop) :
    Meets (toList t) (∃ n ∈ toList t, n.start ≤ r.start ∧ r.stop ≤ n.stop)
      (fun point => Covers (toList t) point ∧ point ∉ r) (insertHole updates memory t r) := by
  unfold insertHole
  split
  · exact meets_unchanged separated
  · rename_i curr _ found
    obtain ⟨before, after, whole⟩ : ∃ before after, toList t = before ++ curr :: after := by
      apply append_of_mem
      have member : curr ∈ ofRange t r := found ▸ mem_cons_self
      rw [ofRange, separated.lookupAtOrNext] at member
      exact (dropWhile_sublist _).mem ((takeWhile_sublist _).mem member)
    have kept := whole ▸ separated
    obtain ⟨others, wide, lower, upper⟩ := separated_middle.mp kept
    split
    · exact meets_unchanged separated
    rename_i inside
    have within : curr.start ≤ r.start ∧ r.stop ≤ curr.stop := by omega
    have left (early : curr.start < r.start) :
        Separated (before ++ ⟨curr.start, r.start⟩ :: after) :=
      separated_middle.mpr ⟨others, early, lower, fun n member => by
        have later := upper n member
        dsimp only
        omega⟩
    split
    · rename_i early
      obtain ⟨u, run, same⟩ := reinsert_between updates kept whole (left early)
      rw [run]
      split
      · split
        · rename_i late _
          have both : Separated ((before ++ [⟨curr.start, r.start⟩]) ++
              ⟨r.stop, curr.stop⟩ :: after) := by
            refine separated_middle.mpr ⟨by simpa using left early, late, ?_, upper⟩
            refine forall_mem_append.mpr ⟨fun n member => ?_, by simpa using nonempty⟩
            have earlier := lower n member
            dsimp only
            omega
          rw [append_cons] at same
          obtain ⟨v, inserted, final⟩ := insert_between updates both same
          rw [append_assoc] at both final
          dsimp only
          rw [inserted]
          apply hole_meets [_, _] separated whole within both final
          intro point
          simp only [covers_cons, covers_nil, or_false, PointRange.mem_iff]
          omega
        · exact meets_unchanged separated
      · apply hole_meets [_] separated whole within (left early) same
        intro point
        simp only [covers_cons, covers_nil, or_false, PointRange.mem_iff]
        omega
    · split
      · rename_i late
        have right : Separated (before ++ ⟨r.stop, curr.stop⟩ :: after) :=
          separated_middle.mpr ⟨others, late, fun n member => by
            have earlier := lower n member
            dsimp only
            omega, upper⟩
        obtain ⟨u, run, same⟩ := reinsert_between updates kept whole right
        rw [run]
        apply hole_meets [_] separated whole within right same
        intro point
        simp only [covers_cons, covers_nil, or_false, PointRange.mem_iff]
        omega
      · obtain ⟨u, run, same⟩ := updates.removeByKey_eq separated.sorted whole
        rw [run]
        apply hole_meets [] separated whole within others same
        intro point
        simp only [covers_nil, false_iff, PointRange.mem_iff]
        omega

/-! ### Runs of calls -/

inductive RangeCall
  | insertRange (r : PointRange) (memory : Bool)
  | insertHole (r : PointRange) (memory : Bool)

namespace RangeCall

def range : RangeCall → PointRange
  | .insertRange r _ | .insertHole r _ => r

def perform (t : RangeTree) : RangeCall → Option (RangeTree × Bool)
  | .insertRange r memory => RangeMap.insertRange updates memory t r
  | .insertHole r memory => RangeMap.insertHole updates memory t r

def Allowed (nodes : List PointRange) : RangeCall → Prop
  | .insertRange _ _ => True
  | .insertHole r _ => ∃ n ∈ nodes, n.start ≤ r.start ∧ r.stop ≤ n.stop

def Covered (nodes : List PointRange) (point : Nat) : RangeCall → Prop
  | .insertRange r _ => Covers nodes point ∨ point ∈ r
  | .insertHole r _ => Covers nodes point ∧ point ∉ r

theorem perform_meets (call : RangeCall) (nonempty : call.range.start < call.range.stop)
    (separated : Separated (toList t)) :
    Meets (toList t) (call.Allowed (toList t)) (fun point => call.Covered (toList t) point)
      (call.perform updates t) := by
  cases call with
  | insertRange r memory => exact insertRange_meets updates memory separated nonempty
  | insertHole r memory => exact insertHole_meets updates memory separated nonempty

end RangeCall

def afterCalls (t : RangeTree) (calls : List RangeCall) : Option RangeTree :=
  calls.foldlM (fun t call => (call.perform updates t).map (·.1)) t

theorem separated_afterCalls {calls : List RangeCall} (separated : Separated (toList t))
    (nonempty : ∀ call ∈ calls, call.range.start < call.range.stop) :
    ∃ after, afterCalls updates t calls = some after ∧ Separated (toList after) := by
  induction calls generalizing t with
  | nil => exact ⟨t, rfl, separated⟩
  | cons call calls ih =>
    obtain ⟨first, rest⟩ := forall_mem_cons.mp nonempty
    obtain ⟨next, returned, performed, kept, -⟩ := call.perform_meets updates first separated
    obtain ⟨after, run, final⟩ := ih kept rest
    refine ⟨after, ?_, final⟩
    rw [afterCalls, foldlM_cons, performed]
    exact run

/-- After any calls on the empty map with ranges that are not empty, the nodes
are sorted, not empty and do not touch; and the next call leaves them so,
covers the points it should if it returns true (a hole only inside a node) and
the same points as before if it returns false; however the tree is balanced. -/
theorem range_map_calls (updates : SearchTree.Updates PointRange.start) (calls : List RangeCall)
    (nonempty : ∀ call ∈ calls, call.range.start < call.range.stop) :
    ∃ t, afterCalls updates .nil calls = some t ∧ Separated (toList t) ∧
      ∀ call : RangeCall, call.range.start < call.range.stop →
        ∃ after returned, call.perform updates t = some (after, returned) ∧
          Separated (toList after) ∧ (returned = true → call.Allowed (toList t)) ∧
          ∀ point, Covers (toList after) point ↔
            if returned = true then call.Covered (toList t) point
            else Covers (toList t) point := by
  obtain ⟨t, run, separated⟩ := @separated_afterCalls updates .nil _ separated_nil nonempty
  exact ⟨t, run, separated, fun call isRange => call.perform_meets updates isRange separated⟩

/-- The range from 1 to 9 with a hole from 4 to 6. -/
theorem range_map_calls_hole :
    ∃ t, afterCalls (SearchTree.spineUpdates _) .nil
        [.insertRange ⟨1, 9⟩ true, .insertHole ⟨4, 6⟩ true] = some t ∧
      toList t = [⟨1, 4⟩, ⟨6, 9⟩] ∧ Separated (toList t) := by
  obtain ⟨t, run, separated, -⟩ := range_map_calls (SearchTree.spineUpdates _)
    [.insertRange ⟨1, 9⟩ true, .insertHole ⟨4, 6⟩ true] (by decide)
  have left : (afterCalls (SearchTree.spineUpdates _) .nil
      [.insertRange ⟨1, 9⟩ true, .insertHole ⟨4, 6⟩ true]).map toList =
        some [⟨1, 4⟩, ⟨6, 9⟩] := by
    decide
  rw [run] at left
  exact ⟨t, run, Option.some.inj left, separated⟩

end RangeMap

end Jerboa.Kernel
