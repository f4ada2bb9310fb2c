import Jerboa.IdHeapFailures
import Jerboa.TransitionSystem

/-!
# The alignment of allocations of an id heap

Without randomised starts, an allocation should be aligned to the least power of
two that is not below its number of pages.  The search starts at the hint of its
order; orders from ten on share the hint of order nine.
-/

namespace Jerboa.Kernel

open List

namespace IdRange

/-- A range of fewer than 2^31 pages, whose bitmap starts at a whole word, and
whose hints are aligned. -/
structure Hinted (ir : IdRange) : Prop where
  bitmapStart : ir.bitmapStart = ir.r.start - ir.r.start % 64
  maxbits : ir.r.start < ir.r.stop → ir.b.maxbits = ir.r.stop - ir.bitmapStart
  short : ir.r.stop - ir.r.start < 2 ^ 31
  hints : ∀ order, order < 10 → ir.nextBit order = 0 ∨ 2 ^ order ∣ ir.bitmapStart + ir.nextBit order

/-- The shared hint, where the search for so many pages would start at it, is
aligned for them. -/
def HintFits (pages : Nat) (subrange : PointRange) (ir : IdRange) : Prop :=
  let ri := ir.window pages subrange
  10 ≤ findOrder pages → ri.start ≤ ir.nextBit 9 → ir.nextBit 9 < ri.stop →
    ir.nextBit 9 < ri.start + margin pages ri → 2 ^ findOrder pages ∣ ir.bitmapStart + ir.nextBit 9

instance (pages : Nat) (subrange : PointRange) (ir : IdRange) :
    Decidable (ir.HintFits pages subrange) :=
  inferInstanceAs (Decidable (_ → _ → _ → _ → _))

variable {ir ir' : IdRange} {pages random page : Nat} {subrange q : PointRange}

theorem dvd_roundUp (x s : Nat) : s ∣ roundUp x s :=
  Nat.dvd_mul_left s _

theorem dvd_margin (pages : Nat) (ri : PointRange) : 2 ^ findOrder pages ∣ margin pages ri := by
  unfold margin
  dsimp only
  split
  · exact Nat.dvd_sub (Nat.dvd_mul_left _ _) (dvd_refl _)
  · exact Nat.dvd_zero _

namespace Hinted

section

variable (hinted : ir.Hinted)

include hinted

theorem word_start : 64 ∣ ir.bitmapStart := by
  have start := hinted.bitmapStart
  omega

theorem setNextBit {order bit : Nat}
    (aligned : 2 ^ order ∣ ir.bitmapStart + bit) : (ir.setNextBit order bit).Hinted := by
  unfold IdRange.setNextBit
  split
  · refine { hinted with hints := fun other small => ?_ }
    by_cases same : other = order
    · subst same
      exact .inr (by simpa using aligned)
    · simpa only [Function.update_of_ne same] using hinted.hints other small
  · exact hinted

theorem withBits {b : Bitmap} (same : b.maxbits = ir.b.maxbits) :
    ({ ir with b := b } : IdRange).Hinted :=
  { hinted with maxbits := fun nonempty => same.trans (hinted.maxbits nonempty) }

theorem window_aligned (meets : 0 < (ir.r.intersection subrange).span) :
    2 ^ findOrder pages ∣ ir.bitmapStart + (ir.window pages subrange).start := by
  have start := hinted.bitmapStart
  have inside : ir.r.start ≤ (ir.r.intersection subrange).start := by
    rw [PointRange.intersection_eq (PointRange.span_intersection_pos.mp meets)]
    exact le_max_left _ _
  have later : (ir.r.intersection subrange).start ≤
      roundUp (ir.r.intersection subrange).start (2 ^ findOrder pages) := by
    have positive : 0 < 2 ^ findOrder pages := Nat.two_pow_pos _
    have division := Nat.div_add_mod ((ir.r.intersection subrange).start + (2 ^ findOrder pages - 1))
      (2 ^ findOrder pages)
    have small := Nat.mod_lt ((ir.r.intersection subrange).start + (2 ^ findOrder pages - 1)) positive
    rw [roundUp, Nat.mul_comm]
    omega
  rw [window, Nat.add_sub_cancel' (by omega)]
  exact dvd_roundUp _ _

theorem startBit_aligned (fits : ir.HintFits pages subrange)
    (aligned : 2 ^ findOrder pages ∣ ir.bitmapStart + (ir.window pages subrange).start) :
    2 ^ findOrder pages ∣
      ir.bitmapStart + ir.startBit false random pages (ir.window pages subrange) := by
  have moved : 2 ^ findOrder pages ∣ ir.bitmapStart +
      ((ir.window pages subrange).start + margin pages (ir.window pages subrange)) := by
    rw [← Nat.add_assoc]
    exact Nat.dvd_add aligned (dvd_margin _ _)
  simp only [startBit, Bool.false_eq_true, false_and, if_false]
  split
  · rename_i inside
    rcases Nat.lt_or_ge (ir.nextBit (min (findOrder pages) 9)) ((ir.window pages subrange).start +
      margin pages (ir.window pages subrange)) with early | late
    · rw [Nat.min_eq_left early.le]
      rcases Nat.lt_or_ge (findOrder pages) 10 with small | large
      · rw [Nat.min_eq_left (by omega)] at inside early ⊢
        rcases hinted.hints _ small with zero | hint
        · rwa [zero, ← Nat.le_zero.mp (zero ▸ inside.1)]
        · exact hint
      · rw [Nat.min_eq_right (by omega)] at inside early ⊢
        exact fits large inside.1 inside.2 early
    · rwa [Nat.min_eq_right late]
  · exact aligned

theorem alloc (fits : ir.HintFits pages subrange)
    (allocated : ir.alloc false random pages subrange = some (page, ir')) :
    ir'.Hinted ∧ 2 ^ findOrder pages ∣ page := by
  simp only [IdRange.alloc] at allocated
  split at allocated
  · cases allocated
  · rename_i valid
    obtain ⟨⟨bit, b⟩, found, same⟩ := Option.map_eq_some_iff.mp allocated
    cases same
    have first : 2 ^ findOrder pages ∣ _ :=
      hinted.window_aligned (Nat.pos_of_ne_zero fun empty => valid (.inl empty))
    have result : b.maxbits = ir.b.maxbits ∧ 2 ^ findOrder pages ∣ ir.bitmapStart + bit := by
      split at found
      · rename_i searched
        obtain ⟨rfl, -, isFound⟩ := Bitmap.found_allocWithinRange (searched.trans found)
        exact ⟨rfl, isFound.aligned _ hinted.word_start (hinted.startBit_aligned fits first)⟩
      · split at found
        · obtain ⟨rfl, -, isFound⟩ := Bitmap.found_allocWithinRange found
          exact ⟨rfl, isFound.aligned _ hinted.word_start first⟩
        · cases found
    refine ⟨(hinted.withBits result.1).setNextBit ?_, result.2⟩
    rw [← Nat.add_assoc]
    exact Nat.dvd_add result.2 (dvd_refl _)

theorem dealloc {freed : Nat}
    (deallocated : ir.dealloc q = some (ir', freed)) : ir'.Hinted := by
  obtain ⟨b, cleared, same⟩ := Option.map_eq_some_iff.mp deallocated
  obtain ⟨rfl, -⟩ := Prod.mk.inj same
  obtain ⟨fits, bits⟩ := Bitmap.dealloc_eq_some cleared
  have kept := hinted.withBits (show b.maxbits = ir.b.maxbits by rw [bits]; rfl)
  split
  · rename_i exact
    apply kept.setNextBit
    have power := Nat.two_pow_pos (findOrder (q.intersection ir.r).span)
    have meets := (@PointRange.span_intersection_pos q ir.r).mp (by omega)
    have start := hinted.bitmapStart
    have maxbits := hinted.maxbits (by omega)
    have short := hinted.short
    have bit : ir.bitmapStart + intBit ((q.intersection ir.r).start - ir.bitmapStart) =
        (q.intersection ir.r).start := by
      simp only [intBit, PointRange.intersection_eq meets, PointRange.span] at fits ⊢
      split at fits <;> split <;> omega
    rw [bit, ← exact.1]
    exact Nat.dvd_of_mod_eq_zero exact.2.1
  · exact kept

theorem hintFits (zero : ir.nextBit 9 = 0) : ir.HintFits pages subrange := by
  intro large lower upper early
  rw [zero] at lower upper ⊢
  by_cases meets : 0 < (ir.r.intersection subrange).span
  · have aligned : 2 ^ findOrder pages ∣ _ := hinted.window_aligned meets
    rwa [Nat.le_zero.mp lower] at aligned
  · rw [PointRange.span_intersection_pos] at meets
    rw [window, PointRange.intersection, if_pos (by omega)] at upper
    dsimp only at upper
    omega

end

end Hinted

end IdRange

/-! ### Heaps -/

theorem forall_lookupWithGaps {property : IdRange → Prop} {q : PointRange}
    {handle : IdRange → Option (IdRange × Nat)}
    (keeps : ∀ ir ir' pages, property ir → handle ir = some (ir', pages) → property ir')
    {irs : List IdRange} (before : ∀ ir ∈ irs, property ir) (edge : Nat) :
    ∀ ir ∈ (lookupWithGaps q handle edge irs).1, property ir := by
  fun_induction lookupWithGaps q handle edge irs with
  | case1 | case3 | case4 | case5 => exact before
  | case2 edge ir irs skipped rest ih =>
    obtain ⟨first, others⟩ := forall_mem_cons.mp before
    exact forall_mem_cons.mpr ⟨first, ih others⟩
  | case6 edge ir irs reached meets joined changed pages handled rest ih =>
    obtain ⟨first, others⟩ := forall_mem_cons.mp before
    exact forall_mem_cons.mpr ⟨keeps ir changed pages first handled, ih others⟩

theorem allocRanges_hinted {random : Nat → Nat} {pages page : Nat} {subrange : PointRange}
    {irs irs' : List IdRange} (hinted : ∀ ir ∈ irs, ir.Hinted)
    (fits : ∀ ir ∈ irs, ir.HintFits pages subrange)
    (allocated : IdHeap.allocRanges false random pages subrange irs = some (page, irs')) :
    (∀ ir ∈ irs', ir.Hinted) ∧ 2 ^ findOrder pages ∣ page := by
  induction irs generalizing irs' with
  | nil => cases allocated
  | cons ir irs ih =>
    obtain ⟨first, others⟩ := forall_mem_cons.mp hinted
    obtain ⟨firstFits, othersFit⟩ := forall_mem_cons.mp fits
    rw [IdHeap.allocRanges] at allocated
    split at allocated
    · rename_i here
      cases allocated
      obtain ⟨kept, aligned⟩ := first.alloc firstFits here
      exact ⟨forall_mem_cons.mpr ⟨kept, others⟩, aligned⟩
    · obtain ⟨⟨later, rest⟩, found, same⟩ := Option.map_eq_some_iff.mp allocated
      cases same
      obtain ⟨kept, aligned⟩ := ih others othersFit found
      exact ⟨forall_mem_cons.mpr ⟨first, kept⟩, aligned⟩

namespace IdHeap

def Hinted (h : IdHeap) : Prop :=
  h.randomize = false ∧ ∀ ir ∈ h.ranges, ir.Hinted

variable {h h' : IdHeap} {random : Nat → Nat} {pages : Nat} {subrange : PointRange}

theorem Hinted.allocFrom (hinted : h.Hinted) (fits : ∀ ir ∈ h.ranges, ir.HintFits pages subrange) :
    (h.allocFrom random pages subrange).1.Hinted ∧
      ∀ page, (h.allocFrom random pages subrange).2 = some page → 2 ^ findOrder pages ∣ page := by
  unfold IdHeap.allocFrom
  rw [hinted.1]
  split
  · rename_i found
    obtain ⟨kept, aligned⟩ := allocRanges_hinted hinted.2 fits found
    refine ⟨⟨rfl, kept⟩, ?_⟩
    rintro _ ⟨⟩
    exact aligned
  · exact ⟨hinted, by rintro _ ⟨⟩⟩

theorem Hinted.addRange (hinted : h.Hinted) {base length : Nat} {memory ok : Bool}
    (small : h.rangeLength base length / h.pageSize < 2 ^ 31)
    (added : h.addRange base length memory = some (h', ok)) :
    h'.Hinted ∧ ∀ ir ∈ h'.ranges, ir ∈ h.ranges ∨ ir.nextBit 9 = 0 := by
  revert added
  fun_cases IdHeap.addRange h base length memory with
  | case1 | case2 => rintro ⟨⟩
  | case3 | case4 =>
    rintro ⟨⟩
    exact ⟨hinted, fun _ old => .inl old⟩
  | case5 length valid start new inserted available map ir =>
    rintro ⟨⟩
    have short : length / h.pageSize < 2 ^ 31 := small
    have bits (start pages : Nat) (few : pages < 2 ^ 31)
        (upward : start < (start + pages) % 2 ^ 64) :
        pages + start % 64 = (start + pages) % 2 ^ 64 - (start - start % 64) := by
      omega
    have ends : new.stop ≤ start + length / h.pageSize := Nat.mod_le _ _
    have isNew : ir.Hinted :=
      ⟨rfl, bits start _ short, by simp only [ir, new] at ends ⊢; omega, fun _ _ => .inl rfl⟩
    have member : ∀ other, other ∈ h.ranges.takeWhile (fun other => other.r.start < start) ++
        ir :: h.ranges.dropWhile (fun other => other.r.start < start) →
          other ∈ h.ranges ∨ other = ir := by
      intro other isMember
      rcases mem_append.mp isMember with early | late
      · exact .inl ((takeWhile_sublist _).subset early)
      · rcases mem_cons.mp late with same | later
        · exact .inr same
        · exact .inl ((dropWhile_sublist _).subset later)
    refine ⟨⟨hinted.1, fun other isMember => ?_⟩, fun other isMember => ?_⟩
    · rcases member other isMember with old | rfl
      · exact hinted.2 other old
      · exact isNew
    · rcases member other isMember with old | rfl
      · exact .inl old
      · exact .inr rfl

end IdHeap

inductive IdCall
  | alloc (random : Nat → Nat) (count : Nat) (parent : Option (Nat × Nat × Bool))
  | allocSubrange (random : Nat → Nat) (count start stop : Nat)
  | dealloc (a count : Nat)

namespace IdCall

def perform (h : IdHeap) : IdCall → Option (IdHeap × Option Nat)
  | .alloc random count parent => h.alloc random count parent
  | .allocSubrange random count start stop => some (h.allocSubrange random count start stop)
  | .dealloc a count => (h.dealloc a count).map (·, none)

def pages (h : IdHeap) : IdCall → Nat
  | .alloc _ count _ | .allocSubrange _ count _ _ => h.pagesFromBytes count
  | .dealloc _ _ => 0

/-- The condition on a call: in every range where the search would start at the
shared hint, the hint is aligned for the pages; and a range from the parent has
fewer than 2^31 pages. -/
def HintsFit (h : IdHeap) : IdCall → Prop
  | .alloc _ count parent =>
    (∀ ir ∈ h.ranges, ir.HintFits (h.pagesFromBytes count) ⟨0, infinity⟩) ∧
      ∀ base length memory, parent = some (base, length, memory) →
        h.rangeLength base length / h.pageSize < 2 ^ 31
  | .allocSubrange _ count start stop =>
    ∀ ir ∈ h.ranges, ir.HintFits (h.pagesFromBytes count) (h.pageRange start stop)
  | .dealloc _ _ => True

theorem perform_hinted {h h' : IdHeap} {call : IdCall} {result : Option Nat} (hinted : h.Hinted)
    (fits : call.HintsFit h) (performed : call.perform h = some (h', result)) :
    h'.Hinted ∧ ∀ page, result = some page → 2 ^ findOrder (call.pages h) ∣ page := by
  cases call with
  | alloc random count parent =>
    have here := @IdHeap.Hinted.allocFrom h random _ _ hinted fits.1
    revert performed fits
    simp only [perform]
    fun_cases IdHeap.alloc h random count parent with
    | case1 =>
      rintro - ⟨⟩
      exact ⟨hinted, by rintro _ ⟨⟩⟩
    | case2 parent asked after page found =>
      rintro - ⟨⟩
      rw [found] at here
      exact here
    | case3 =>
      rintro - ⟨⟩
      exact ⟨hinted, by rintro _ ⟨⟩⟩
    | case4 => nofun
    | case5 asked after full base length memory failed added =>
      rintro fits ⟨⟩
      exact ⟨(hinted.addRange (fits.2 base length memory rfl) added).1, by rintro _ ⟨⟩⟩
    | case6 asked after full base length memory grown added =>
      intro fits performed
      obtain ⟨kept, members⟩ := hinted.addRange (fits.2 base length memory rfl) added
      obtain ⟨rfl, rfl⟩ := Prod.mk.inj (Option.some.inj performed)
      refine kept.allocFrom fun ir member => ?_
      rcases members ir member with old | zero
      · exact fits.1 ir old
      · exact (kept.2 ir member).hintFits zero
  | allocSubrange random count start stop =>
    obtain rfl := congrArg Prod.fst (Option.some.inj performed)
    obtain rfl := congrArg Prod.snd (Option.some.inj performed)
    unfold IdHeap.allocSubrange
    dsimp only
    split
    · exact ⟨hinted, by rintro _ ⟨⟩⟩
    · exact hinted.allocFrom fits
  | dealloc a count =>
    obtain ⟨after, freed, same⟩ := Option.map_eq_some_iff.mp performed
    cases same
    refine ⟨?_, by rintro _ ⟨⟩⟩
    revert freed
    fun_cases IdHeap.dealloc h a count with
    | case1 =>
      rintro ⟨⟩
      exact hinted
    | case2 => nofun
    | case3 valid q done enough =>
      rintro ⟨⟩
      exact ⟨hinted.1, forall_lookupWithGaps (fun _ _ _ kept => kept.dealloc) hinted.2 _⟩

end IdCall

/-- The calls on a heap whose ranges have fewer than 2^31 pages and no hints
yet. -/
def idSystem : TransitionSystem IdHeap IdCall where
  initial h := h.Hinted ∧ ∀ ir ∈ h.ranges, ir.nextBit = fun _ => 0
  step h call := (call.perform h).map Prod.fst

/-- In every run whose calls all meet the condition, the pages that a call
returns start at a multiple of the least power of two that is not below their
number. -/
theorem allocations_aligned {h h' : IdHeap} {call : IdCall} {page : Nat}
    (reached : idSystem.ReachableUnder (fun h call => call.HintsFit h) h)
    (fits : call.HintsFit h) (performed : call.perform h = some (h', some page)) :
    ∃ order, call.pages h ≤ 2 ^ order ∧ (∀ k, call.pages h ≤ 2 ^ k → order ≤ k) ∧
      2 ^ order ∣ page := by
  have hinted : h.Hinted := by
    refine TransitionSystem.ReachableUnder.invariant (fun h first => And.left first) ?_ reached
    intro state label target _ kept allowed stepped
    obtain ⟨⟨after, result⟩, performed, rfl⟩ := Option.map_eq_some_iff.mp stepped
    exact (IdCall.perform_hinted kept allowed performed).1
  exact ⟨findOrder (call.pages h), le_two_pow_findOrder _, fun _ => findOrder_le,
    (IdCall.perform_hinted hinted fits performed).2 page rfl⟩

def wideHeap : IdHeap :=
  { byteHeap [] with ranges := [⟨⟨0, 4096⟩, ⟨4096, fun _ => false⟩, 0, fun _ => 0⟩] }

theorem wideHeap_hinted : idSystem.initial wideHeap := by
  refine ⟨⟨rfl, forall_mem_singleton.mpr ⟨rfl, fun _ => rfl, by decide, fun _ _ => .inl rfl⟩⟩, ?_⟩
  exact forall_mem_singleton.mpr rfl

def allocBytes (count : Nat) : IdCall :=
  .alloc (fun _ => 0) count none

/-- The heap after two allocations of 512 pages, which leave the shared hint at
page 1024. -/
def wideHeapUsed : IdHeap :=
  ((wideHeap.allocFrom (fun _ => 0) 512 ⟨0, infinity⟩).1.allocFrom (fun _ => 0) 512
    ⟨0, infinity⟩).1

theorem wideHeapUsed_reached :
    idSystem.ReachableUnder (fun h call => call.HintsFit h) wideHeapUsed := by
  have small (h : IdHeap) (bytes : h.pageOrder = 0) : (allocBytes 512).HintsFit h := by
    have pages : findOrder (h.pagesFromBytes 512) = 9 := by
      rw [IdHeap.pagesFromBytes, IdHeap.pageSize, bytes]
      rfl
    refine ⟨fun ir _ large => ?_, by rintro _ _ _ ⟨⟩⟩
    rw [pages] at large
    omega
  have first := TransitionSystem.ReachableUnder.next (.start wideHeap_hinted) (small _ rfl) rfl
  exact first.next (small _ rfl) rfl

/-- A third allocation, of 1024 pages, starts at the shared hint. -/
theorem allocations_aligned_shared :
    ∃ h' order, (allocBytes 1024).perform wideHeapUsed = some (h', some 1024) ∧
      1024 ≤ 2 ^ order ∧ 2 ^ order ∣ 1024 := by
  have returned : ((allocBytes 1024).perform wideHeapUsed).map Prod.snd = some (some 1024) := by
    decide
  obtain ⟨⟨h', page⟩, performed, rfl⟩ := Option.map_eq_some_iff.mp returned
  obtain ⟨order, above, -, divides⟩ := allocations_aligned wideHeapUsed_reached
    (show (allocBytes 1024).HintsFit wideHeapUsed from
      ⟨by decide, by rintro _ _ _ ⟨⟩⟩) performed
  exact ⟨h', order, performed, above, divides⟩

/-- After 512 pages, the 1024 pages that are asked for start at the hint of order
nine, at page 512. -/
theorem shared_hint_misaligned :
    ((wideHeap.alloc (fun _ => 0) 512 none).bind fun first =>
      (first.1.alloc (fun _ => 0) 1024 none).map Prod.snd) = some (some 512) ∧
        findOrder 1024 = 10 ∧ ¬ 2 ^ 10 ∣ 512 := by
  decide

end Jerboa.Kernel
