import Jerboa.IdHeap

/-!
# Failed calls that change the ranges of an id heap

A failed `add_range` or `set_area` should leave the heap as it was.
-/

namespace Jerboa.Kernel

inductive AreaCall
  | addRange (base length : Nat) (memory : Bool)
  | setArea (base length : Nat) (allocate : Bool)

/-- The first range that `set_area` comes to refuses the pages: there are none,
they start before it, or they are not all as they should be in it. -/
def IdRange.refuses (allocate : Bool) (q : PointRange) (ir : IdRange) : Prop :=
  let bit := intBit (q.start - ir.bitmapStart)
  let pages := min q.stop ir.r.stop - q.start
  q.stop ≤ q.start ∨ q.start < ir.r.start ∨ ir.b.maxbits < bit + pages ∨
    ∃ k, bit ≤ k ∧ k < bit + pages ∧ ir.b.bits k = allocate

namespace AreaCall

def perform (h : IdHeap) : AreaCall → Option (IdHeap × Bool)
  | .addRange base length memory => h.addRange base length memory
  | .setArea base length allocate => h.setArea base length allocate

/-- A failure comes before anything is changed: `add_range` has the memory for a
bitmap or a conflicting range, and `set_area` fails at the first range. -/
def failsEarly (h : IdHeap) : AreaCall → Prop
  | .addRange base length memory =>
    memory = true ∨ h.insertRange ⟨base / h.pageSize,
      (base / h.pageSize + h.rangeLength base length / h.pageSize) % 2 ^ 64⟩ = some false
  | .setArea base length allocate =>
    ∀ ir, h.ranges.find? (fun ir => (h.areaPages base length).start < ir.r.stop) = some ir →
      ir.refuses allocate (h.areaPages base length)

end AreaCall

section Marking

variable {ir : IdRange} {q : PointRange} {allocate : Bool} (nonempty : q.start < q.stop)
  (lower : ir.r.start ≤ q.start) (upper : q.start < ir.r.stop)

include nonempty lower upper

theorem setIntersection_eq : ir.setIntersection allocate q =
    (ir.b.rangeCheckAndSet (intBit (q.start - ir.bitmapStart)) (min q.stop ir.r.stop - q.start)
      true allocate).map fun b => ({ ir with b := b }, 0) := by
  have pages : q.intersection ir.r = ⟨q.start, min q.stop ir.r.stop⟩ := by
    rw [PointRange.intersection_eq (by omega), max_eq_left lower]
  simp only [IdRange.setIntersection, pages, PointRange.span]

theorem setIntersection_of_refuses (refuses : ir.refuses allocate q) :
    ir.setIntersection allocate q = none := by
  rw [setIntersection_eq nonempty lower upper, Option.map_eq_none_iff, Bitmap.rangeCheckAndSet]
  rcases refuses with empty | early | long | ⟨k, first, last, isSet⟩
  · omega
  · omega
  · exact if_pos (.inr long)
  · split
    · rfl
    · apply if_pos
      refine ⟨rfl, Bool.eq_false_iff.mpr fun checked => ?_⟩
      have other := Bitmap.checkRange_iff.mp checked k first last
      rw [isSet] at other
      cases allocate <;> cases other

theorem setIntersection_of_accepts (accepts : ¬ ir.refuses allocate q) :
    ∃ changed, ir.setIntersection allocate q = some (changed, 0) ∧ changed ≠ ir := by
  simp only [IdRange.refuses, not_or, not_exists, not_and, Nat.not_lt] at accepts
  obtain ⟨-, -, short, free⟩ := accepts
  have unset : ir.b.checkRange (intBit (q.start - ir.bitmapStart))
      (min q.stop ir.r.stop - q.start) (!allocate) = true :=
    Bitmap.checkRange_iff.mpr fun k first last => Bool.eq_not_iff.mpr (free k first last)
  rw [setIntersection_eq nonempty lower upper, Bitmap.rangeCheckAndSet, if_neg (by omega),
    if_neg (by simp [unset])]
  refine ⟨_, rfl, fun same => ?_⟩
  have bits := congrArg (fun ir : IdRange => ir.b.bits (intBit (q.start - ir.bitmapStart))) same
  simp only [Bitmap.bits_setRange] at bits
  rw [if_pos (by omega)] at bits
  exact free _ le_rfl (by omega) bits.symm

end Marking

/-- A lookup that marks leaves the ranges as they are exactly if the first range
it comes to refuses. -/
theorem lookupWithGaps_eq_iff {irs : List IdRange} {q : PointRange} {allocate : Bool} :
    (lookupWithGaps q (IdRange.setIntersection allocate q) q.start irs).1 = irs ↔
      ∀ ir, irs.find? (fun ir => q.start < ir.r.stop) = some ir → ir.refuses allocate q := by
  induction irs with
  | nil => simp [lookupWithGaps]
  | cons ir irs ih =>
    simp only [lookupWithGaps]
    by_cases earlier : ir.r.stop ≤ q.start
    · rw [if_pos earlier, List.find?_cons_of_neg (by simpa using earlier), ← ih]
      simp
    rw [if_neg earlier, List.find?_cons_of_pos (by simpa using earlier)]
    simp only [Option.some.injEq, forall_eq']
    have meets := @PointRange.span_intersection_pos q ir.r
    have gap := @PointRange.span_intersection_pos ⟨q.start, ir.r.start⟩ q
    dsimp only at gap
    split
    · refine iff_of_true rfl ?_
      simp only [IdRange.refuses]
      omega
    split
    · exact iff_of_true rfl (.inr (.inl (by omega)))
    have nonempty : q.start < q.stop := by omega
    have lower : ir.r.start ≤ q.start := by omega
    by_cases refuses : ir.refuses allocate q
    · rw [setIntersection_of_refuses nonempty lower (by omega) refuses]
      exact iff_of_true rfl refuses
    · obtain ⟨changed, marked, different⟩ :=
        setIntersection_of_accepts nonempty lower (by omega) refuses
      rw [marked]
      simp [different, refuses]

theorem setArea_failed {h h' : IdHeap} {base length : Nat} {allocate : Bool}
    (failed : h.setArea base length allocate = some (h', false)) :
    h' = { h with ranges := (lookupWithGaps (h.areaPages base length)
      (IdRange.setIntersection allocate (h.areaPages base length))
      (h.areaPages base length).start h.ranges).1 } := by
  revert failed
  fun_cases IdHeap.setArea h base length allocate with
  | case1 q done failure =>
    rintro ⟨⟩
    rfl
  | case2 | case3 | case4 => nofun

/-- A failed call leaves the heap as it was exactly if it fails early. -/
theorem failed_area_call_iff (h h' : IdHeap) (call : AreaCall)
    (failed : call.perform h = some (h', false)) : h' = h ↔ call.failsEarly h := by
  cases call with
  | setArea base length allocate =>
    rw [setArea_failed failed]
    refine Iff.trans ?_ lookupWithGaps_eq_iff
    exact ⟨congrArg IdHeap.ranges, fun same => by rw [same]⟩
  | addRange base length memory =>
    revert failed
    simp only [AreaCall.perform]
    fun_cases IdHeap.addRange h base length memory with
    | case1 | case2 => nofun
    | case3 length valid start new conflict =>
      rintro ⟨⟩
      exact iff_of_true rfl (.inr conflict)
    | case4 length valid start new inserted absent =>
      rintro ⟨⟩
      refine iff_of_false (fun same => ?_) ?_
      · have freed := congrArg (fun h => h.freed.length) same
        simp at freed
      · rintro (memory | conflict)
        · cases memory.symm.trans absent
        · exact nomatch Option.some.inj (inserted.symm.trans conflict)
    | case5 => nofun

/-- A heap of single bytes with the ranges that start at the numbers, of 64 each. -/
def byteHeap (starts : List Nat) : IdHeap where
  pageOrder := 0
  randomize := false
  ranges := starts.map fun start => ⟨⟨start, start + 64⟩, ⟨64, fun _ => false⟩, start, fun _ => 0⟩
  allocated := 0
  total := 64 * starts.length
  freed := []

theorem failed_area_call_conflict :
    ∃ h', AreaCall.perform (byteHeap [0]) (.addRange 0 64 true) = some (h', false) ∧
      h' = byteHeap [0] :=
  ⟨byteHeap [0], rfl, (failed_area_call_iff _ _ (.addRange 0 64 true) rfl).mpr (.inl rfl)⟩

/-- Without memory for a bitmap the node of the range stays in the map, and an
area over two ranges with a gap between them is marked in the first. -/
theorem failed_area_calls_change_heap :
    (∃ h', AreaCall.perform (byteHeap []) (.addRange 0 64 false) = some (h', false) ∧
      h' ≠ byteHeap []) ∧
    ∃ h', AreaCall.perform (byteHeap [0, 128]) (.setArea 0 192 true) = some (h', false) ∧
      h' ≠ byteHeap [0, 128] := by
  refine ⟨⟨_, rfl, fun same => ?_⟩, ⟨_, rfl, fun same => ?_⟩⟩
  · have freed := congrArg (fun h => h.freed.length) same
    cases freed
  · have bits := congrArg (fun h => h.ranges.map fun ir => ir.b.bits 0) same
    revert bits
    decide

end Jerboa.Kernel
