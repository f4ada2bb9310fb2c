import Jerboa.RangeMap
import Mathlib.Data.List.Pairwise

/-!
# Looking through a range

`rangemap_range_lookup_with_gaps` offers the nodes that meet a range and the gaps
between them to two handlers, until one of them returns false.
-/

namespace Jerboa.Kernel.RangeMap

open List
open SearchTree (toList)

/-! ### The code -/

/-- A call of the gap handler or of the node handler. -/
inductive Visit
  | gap (range : PointRange)
  | node (node : PointRange)
deriving DecidableEq, Repr

/-- `RM_MATCH`, `RM_NOMATCH` and `RM_ABORT`. -/
inductive LookupResult
  | matched
  | noMatch
  | abort
deriving DecidableEq, Repr

/-- The variables of `rangemap_range_lookup_internal` and the calls it made. -/
structure Lookup where
  lastedge : Nat
  isMatch : Bool
  calls : List Visit

variable (answer : List Visit → Visit → Bool) (q : PointRange)

def Visit.part : Visit → PointRange
  | .gap range => range
  | .node n => n.intersection q

def Visit.node? : Visit → Option PointRange
  | .gap _ => none
  | .node n => some n

namespace Lookup

/-- A handler is called if there is something to call it for; its answer may
depend on the calls before. -/
def offer (s : Lookup) (visit : Visit) : Lookup × Bool :=
  if 0 < (visit.part q).span then
    ({ s with isMatch := true, calls := s.calls ++ [visit] }, answer s.calls visit)
  else (s, true)

def gap (s : Lookup) (edge : Nat) : Lookup × Bool :=
  s.offer answer q (.gap (PointRange.intersection ⟨s.lastedge, edge⟩ q))

/-- The loop over the nodes and the gap after the last of them; the flag says
that no handler has returned false. -/
def visitAll : Lookup → List PointRange → Lookup × Bool
  | s, [] => s.gap answer q q.stop
  | s, curr :: nodes =>
    match s.gap answer q curr.start with
    | (s, false) => (s, false)
    | (s, true) =>
      match offer answer q { s with lastedge := curr.stop } (.node curr) with
      | (s, false) => (s, false)
      | (s, true) => visitAll s nodes

end Lookup

def rangeLookupWithGaps (t : RangeTree) : List Visit × LookupResult :=
  match Lookup.visitAll answer q ⟨q.start, false, []⟩ (ofRange t q) with
  | (s, false) => (s.calls, .abort)
  | (s, true) => (s.calls, if s.isMatch then .matched else .noMatch)

/-! ### Parts of a range -/

/-- Ranges in increasing order, none empty, that have each point from `start` to
`stop` once and no other. -/
structure Divides (start stop : Nat) (parts : List PointRange) : Prop where
  nonempty : ∀ part ∈ parts, part.start < part.stop
  ordered : parts.Pairwise fun first second => first.stop ≤ second.start
  covers : ∀ point, Covers parts point ↔ start ≤ point ∧ point < stop

theorem Divides.concat {start edge : Nat} {parts : List PointRange} {part : PointRange}
    (divides : Divides start edge parts) (begun : start ≤ edge) (next : part.start = edge)
    (nonempty : edge < part.stop) : Divides start part.stop (parts ++ [part]) where
  nonempty := forall_mem_append.mpr ⟨divides.nonempty, by simpa [next] using nonempty⟩
  ordered := by
    refine pairwise_append.mpr ⟨divides.ordered, pairwise_singleton _ _, ?_⟩
    intro earlier member last isLast
    have wide := divides.nonempty earlier member
    have inside := (divides.covers (earlier.stop - 1)).mp
      ⟨earlier, member, PointRange.mem_iff.mpr (by omega)⟩
    rw [mem_singleton.mp isLast, next]
    omega
  covers point := by
    simp only [covers_append, covers_cons, covers_nil, or_false, divides.covers,
      PointRange.mem_iff, next]
    omega

def Approved (calls : List Visit) : Prop :=
  ∀ before visit after, calls = before ++ visit :: after → answer before visit = true

variable {answer q} {calls : List Visit}

theorem approved_concat {visit : Visit} :
    Approved answer (calls ++ [visit]) ↔ Approved answer calls ∧ answer calls visit = true := by
  constructor
  · intro approved
    refine ⟨?_, approved calls visit [] rfl⟩
    intro before other after same
    exact approved before other (after ++ [visit]) (by rw [same]; simp)
  · rintro ⟨earlier, last⟩ before other after same
    rcases eq_nil_or_concat after with rfl | ⟨after, final, rfl⟩
    · obtain ⟨rfl, isLast⟩ := append_inj' same rfl
      cases isLast
      exact last
    · have parts : calls ++ [visit] = (before ++ other :: after) ++ [final] := by simpa using same
      exact earlier before other after (append_inj' parts rfl).1

/-! ### Partial lookups -/

/-- How far a lookup has come: if it goes on, its calls divide the range up to
`edge`, and the node handler was called for the nodes `handled`. -/
structure Lookup.Reaches (answer : List Visit → Visit → Bool) (q : PointRange) (edge : Nat)
    (handled : List PointRange) (lookup : Lookup × Bool) : Prop where
  begun : q.start ≤ edge
  approved : lookup.2 = true ↔ Approved answer lookup.1.calls
  divides : lookup.2 = true → Divides q.start edge (lookup.1.calls.map (Visit.part q))
  handles : lookup.2 = true → lookup.1.calls.filterMap Visit.node? = handled
  isMatch : lookup.1.calls ≠ [] → lookup.1.isMatch = true

namespace Lookup

variable {s : Lookup} {edge : Nat} {handled : List PointRange}

theorem Reaches.offer (reaches : Reaches answer q edge handled (s, true)) (visit : Visit)
    {target : Nat}
    (called : 0 < (visit.part q).span → (visit.part q).start = edge ∧ (visit.part q).stop = target)
    (skipped : ¬0 < (visit.part q).span → edge = target ∧ visit.node? = none) :
    Reaches answer q target (handled ++ visit.node?.toList) (s.offer answer q visit) := by
  unfold Lookup.offer
  split
  · rename_i nonempty
    obtain ⟨next, rfl⟩ := called nonempty
    have wide : edge < (visit.part q).stop := by
      unfold PointRange.span at nonempty
      omega
    refine ⟨reaches.begun.trans wide.le, ?_, fun _ => ?_, fun _ => ?_, fun _ => rfl⟩
    · rw [approved_concat, ← reaches.approved]
      simp
    · rw [map_append]
      exact (reaches.divides rfl).concat reaches.begun next wide
    · rw [filterMap_append, reaches.handles rfl]
      cases visit <;> rfl
  · rename_i empty
    obtain ⟨rfl, none⟩ := skipped empty
    rwa [none, Option.toList_none, append_nil]

theorem Reaches.stopped (reaches : Reaches answer q edge handled (s, false)) {later : Nat}
    (begun : q.start ≤ later) (others : List PointRange) : Reaches answer q later others (s, false) :=
  ⟨begun, reaches.approved, nofun, nofun, reaches.isMatch⟩

theorem Reaches.gap (reaches : Reaches answer q (min s.lastedge q.stop) handled (s, true))
    {target : Nat} (upper : target ≤ q.stop) :
    Reaches answer q (max (min s.lastedge q.stop) target) handled (s.gap answer q target) := by
  have begun := reaches.begun
  rw [← append_nil handled]
  apply reaches.offer (.gap _)
  all_goals
    rw [Visit.part, PointRange.span_intersection_pos]
    dsimp only
    intro meets
  · rw [PointRange.intersection_eq meets]
    dsimp only
    omega
  · exact ⟨by omega, rfl⟩

/-- The calls divide the whole range, if the nodes follow one another and all of
them meet it. -/
theorem Reaches.visitAll {nodes : List PointRange}
    (reaches : Reaches answer q (min s.lastedge q.stop) handled (s, true))
    (meet : ∀ n ∈ nodes, max n.start q.start < min n.stop q.stop)
    (later : ∀ n ∈ nodes, s.lastedge ≤ max n.start q.start)
    (ordered : nodes.Pairwise fun first second => first.stop ≤ second.start) :
    Reaches answer q q.stop (handled ++ nodes) (s.visitAll answer q nodes) := by
  have begun := reaches.begun
  induction nodes generalizing s handled with
  | nil =>
    have reached := reaches.gap le_rfl
    rwa [max_eq_right (by omega), ← append_nil handled] at reached
  | cons curr nodes ih =>
    obtain ⟨meets, meetLater⟩ := forall_mem_cons.mp meet
    obtain ⟨next, -⟩ := forall_mem_cons.mp later
    have reached := @Reaches.gap _ _ _ _ reaches curr.start (by omega)
    rw [Lookup.visitAll]
    generalize s.gap answer q curr.start = result at reached ⊢
    obtain ⟨found, goesOn⟩ := result
    cases goesOn with
    | false => exact reached.stopped (by omega) _
    | true =>
      have moved : Reaches answer q (max (min s.lastedge q.stop) curr.start) handled
          ({ found with lastedge := curr.stop }, true) :=
        ⟨reached.begun, reached.approved, reached.divides, reached.handles, reached.isMatch⟩
      have visited : Reaches answer q (min curr.stop q.stop) (handled ++ [curr])
          (Lookup.offer answer q { found with lastedge := curr.stop } (.node curr)) := by
        apply moved.offer (.node curr)
        all_goals rw [Visit.part, PointRange.span_intersection_pos]
        · rw [PointRange.intersection_eq meets]
          dsimp only
          omega
        · intro misses
          omega
      have edge : (Lookup.offer answer q { found with lastedge := curr.stop } (.node curr)).1.lastedge =
          curr.stop := by
        unfold Lookup.offer
        split <;> rfl
      dsimp only
      generalize Lookup.offer answer q { found with lastedge := curr.stop } (.node curr) = result
        at visited edge ⊢
      obtain ⟨s, goesOn⟩ := result
      cases goesOn with
      | false => exact visited.stopped (by omega) _
      | true =>
        dsimp only at edge
        obtain ⟨follow, rest⟩ := pairwise_cons.mp ordered
        rw [← edge] at visited
        rw [append_cons]
        refine ih visited meetLater (fun n member => ?_) rest visited.begun
        have first := follow n member
        omega

end Lookup

/-! ### Whole lookups -/

variable {t : RangeTree}

theorem meets_of_mem_ofRange {n : PointRange} (member : n ∈ ofRange t q) : max n.start q.start < min n.stop q.stop := by
  have meets := mem_takeWhile_imp member
  rw [decide_eq_true_eq, PointRange.span_intersection_pos] at meets
  omega

theorem ordered_of_disjoint {nodes : List PointRange}
    (sorted : nodes.Pairwise fun first second => first.start < second.start)
    (disjoint : nodes.Pairwise fun first second => ∀ point, point ∈ first → point ∉ second)
    (wide : ∀ n ∈ nodes, n.start < n.stop) :
    nodes.Pairwise fun first second => first.stop ≤ second.start := by
  apply (sorted.and disjoint).imp_of_mem
  rintro first second - isSecond ⟨earlier, apart⟩
  have inside := wide second isSecond
  have outside := apart second.start
  simp only [PointRange.mem_iff] at outside
  omega

theorem ofRange_sublist (t : RangeTree) (q : PointRange) :
    (ofRange t q).Sublist (toList t) := by
  refine (takeWhile_sublist _).trans ?_
  unfold lookupAtOrNext
  split
  · exact nil_sublist _
  · exact (dropWhile_sublist _).trans (dropWhile_sublist _)

/-- From a node that ends beyond the start of the range, the loop takes the nodes
that meet it. -/
theorem takeWhile_meets {nodes : List PointRange}
    (ordered : nodes.Pairwise fun first second => first.stop ≤ second.start)
    (wide : ∀ n ∈ nodes, n.start < n.stop) (beyond : ∀ n ∈ nodes, q.start < n.stop)
    (nonempty : q.start < q.stop) :
    (nodes.takeWhile fun n => 0 < (q.intersection n).span) =
      nodes.filter fun n => 0 < (q.intersection n).span := by
  induction nodes with
  | nil => rfl
  | cons n nodes ih =>
    obtain ⟨follow, rest⟩ := pairwise_cons.mp ordered
    obtain ⟨nWide, wides⟩ := forall_mem_cons.mp wide
    obtain ⟨nBeyond, beyonds⟩ := forall_mem_cons.mp beyond
    by_cases meets : 0 < (q.intersection n).span
    · simp [meets, ih rest wides beyonds]
    · rw [takeWhile_cons_of_neg (by simpa using meets), filter_cons_of_neg (by simpa using meets),
        eq_comm, filter_eq_nil_iff]
      intro m member
      have later := follow m member
      rw [PointRange.span_intersection_pos] at meets
      rw [decide_eq_true_eq, PointRange.span_intersection_pos]
      omega

theorem dropWhile_takeWhile_eq_filter {nodes : List PointRange}
    (ordered : nodes.Pairwise fun first second => first.stop ≤ second.start)
    (wide : ∀ n ∈ nodes, n.start < n.stop) (nonempty : q.start < q.stop) :
    ((nodes.dropWhile (·.stop ≤ q.start)).takeWhile fun n => 0 < (q.intersection n).span) =
      nodes.filter fun n => 0 < (q.intersection n).span := by
  induction nodes with
  | nil => rfl
  | cons n nodes ih =>
    obtain ⟨follow, rest⟩ := pairwise_cons.mp ordered
    obtain ⟨nWide, wides⟩ := forall_mem_cons.mp wide
    by_cases early : n.stop ≤ q.start
    · have misses : ¬ 0 < (q.intersection n).span := by
        rw [PointRange.span_intersection_pos]
        omega
      rw [dropWhile_cons_of_pos (by simpa using early), filter_cons_of_neg (by simpa using misses)]
      exact ih rest wides
    · rw [dropWhile_cons_of_neg (by simpa using early)]
      apply takeWhile_meets ordered wide _ nonempty
      refine forall_mem_cons.mpr ⟨by omega, ?_⟩
      intro m member
      have later := follow m member
      have inside := wides m member
      omega

/-- A gap has no point of a node that is handled. -/
theorem Divides.not_mem_gap {start stop : Nat} (divides : Divides start stop (calls.map (Visit.part q)))
    {gap n : PointRange} (isGap : .gap gap ∈ calls) (isNode : .node n ∈ calls) {point : Nat}
    (inGap : point ∈ gap) : point ∉ n.intersection q := by
  let Apart (first second : Visit) : Prop := ∀ point, point ∈ first.part q → point ∉ second.part q
  have apart : calls.Pairwise Apart := by
    apply (pairwise_map.mp divides.ordered).imp
    intro first second before point
    simp only [PointRange.mem_iff]
    omega
  have symm : Std.Symm Apart :=
    ⟨fun _ _ separate point inSecond inFirst => separate point inFirst inSecond⟩
  exact apart.forall isGap isNode (by simp) point inGap

/-- The calls of the handlers are about parts of the range that divide it in
increasing order; a lookup returns `RM_MATCH`, or `RM_ABORT` if a handler returned
false.  If no node is empty, the node handler is called for the nodes that meet the
range, and the gaps hold no point of any node. -/
theorem range_lookup_divides (answer : List Visit → Visit → Bool) (t : RangeTree)
    (sorted : (toList t).Pairwise fun first second => first.start < second.start)
    (disjoint : (toList t).Pairwise fun first second => ∀ point, point ∈ first → point ∉ second)
    (q : PointRange) (nonempty : q.start < q.stop) :
    ((rangeLookupWithGaps answer q t).2 = .abort ↔
      ¬Approved answer (rangeLookupWithGaps answer q t).1) ∧
    (Approved answer (rangeLookupWithGaps answer q t).1 →
      (rangeLookupWithGaps answer q t).2 = .matched ∧
        Divides q.start q.stop ((rangeLookupWithGaps answer q t).1.map (Visit.part q)) ∧
        ((∀ n ∈ toList t, n.start < n.stop) →
          (rangeLookupWithGaps answer q t).1.filterMap Visit.node? =
              ((toList t).filter fun n => 0 < (q.intersection n).span) ∧
            ∀ gap, .gap gap ∈ (rangeLookupWithGaps answer q t).1 →
              ∀ point ∈ gap, ¬ Covers (toList t) point)) := by
  have ordered : (ofRange t q).Pairwise fun first second => first.stop ≤ second.start := by
    apply ordered_of_disjoint (sorted.sublist (ofRange_sublist t q))
      (disjoint.sublist (ofRange_sublist t q))
    intro n member
    have meets := meets_of_mem_ofRange member
    omega
  have start : Lookup.Reaches answer q (min (Lookup.mk q.start false []).lastedge q.stop) []
      (⟨q.start, false, []⟩, true) := by
    refine ⟨le_min le_rfl nonempty.le, by simp [Approved], fun _ => ⟨by simp, .nil, ?_⟩, by simp,
      by simp⟩
    intro point
    simp only [map_nil, covers_nil, false_iff]
    omega
  have reaches := start.visitAll (fun _ member => meets_of_mem_ofRange member)
    (fun _ _ => le_max_right _ _) ordered
  unfold rangeLookupWithGaps
  generalize Lookup.visitAll answer q ⟨q.start, false, []⟩ (ofRange t q) = result at reaches ⊢
  obtain ⟨s, goesOn⟩ := result
  have approved := reaches.approved
  cases goesOn with
  | false => simpa using approved
  | true =>
    have divides := reaches.divides rfl
    have some : s.calls ≠ [] := by
      intro none
      have covered := (divides.covers q.start).mpr ⟨le_rfl, nonempty⟩
      simp [none] at covered
    have isMatch := reaches.isMatch some
    have handles := reaches.handles rfl
    dsimp only at approved isMatch handles ⊢
    rw [nil_append] at handles
    refine ⟨by simp [isMatch, ← approved], fun _ => ⟨by simp [isMatch], divides, ?_⟩⟩
    intro wide
    rw [handles]
    have follow := ordered_of_disjoint sorted disjoint wide
    have whole := dropWhile_takeWhile_eq_filter follow wide nonempty
    rw [← lookupAtOrNext_eq sorted follow, ← ofRange] at whole
    refine ⟨whole, ?_⟩
    rintro gap isGap point inGap ⟨n, isNode, inNode⟩
    have inRange := (divides.covers point).mp ⟨_, mem_map_of_mem isGap, inGap⟩
    have meets : max n.start q.start < min n.stop q.stop := by
      simp only [PointRange.mem_iff] at inNode
      omega
    have handled : n ∈ s.calls.filterMap Visit.node? := by
      rw [handles, whole, mem_filter, decide_eq_true_eq, PointRange.span_intersection_pos]
      exact ⟨isNode, by omega⟩
    obtain ⟨visit, isVisit, same⟩ := mem_filterMap.mp handled
    cases visit with
    | gap _ => cases same
    | node _ =>
      cases same
      apply divides.not_mem_gap isGap isVisit inGap
      rw [PointRange.intersection_eq meets]
      simp only [PointRange.mem_iff] at inNode ⊢
      omega

/-- Two nodes and the gap between them. -/
theorem range_lookup_divides_three :
    rangeLookupWithGaps (fun _ _ => true) ⟨3, 8⟩ (.node ⟨6, 9⟩ (.node ⟨2, 4⟩ .nil .nil) .nil) =
        ([.node ⟨2, 4⟩, .gap ⟨4, 6⟩, .node ⟨6, 9⟩], .matched) ∧
      Divides 3 8 [⟨3, 4⟩, ⟨4, 6⟩, ⟨6, 8⟩] := by
  have called : rangeLookupWithGaps (fun _ _ => true) ⟨3, 8⟩
      (.node ⟨6, 9⟩ (.node ⟨2, 4⟩ .nil .nil) .nil) =
        ([.node ⟨2, 4⟩, .gap ⟨4, 6⟩, .node ⟨6, 9⟩], .matched) := by
    decide
  have divided := (range_lookup_divides (fun _ _ => true)
    (.node ⟨6, 9⟩ (.node ⟨2, 4⟩ .nil .nil) .nil) (by simp [toList]) (by simp [toList]; omega)
    ⟨3, 8⟩ (by decide)).2 fun _ _ _ _ => rfl
  rw [called] at divided
  exact ⟨called, divided.2.1⟩

end Jerboa.Kernel.RangeMap
