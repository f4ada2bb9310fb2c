import Jerboa.PageBitmap
import Jerboa.RangeMap

/-!
# Id heaps

`runtime/heap/id.c`: ranges of pages with a bitmap each, and for every order of
allocations below ten the bit at which the next search starts.  A call that
faults or fails an assertion gives `none`.
-/

namespace Jerboa.Kernel

/-- `struct id_range`; its range is in pages. -/
structure IdRange where
  r : PointRange
  b : Bitmap
  bitmapStart : Nat
  nextBit : Nat → Nat

/-- `struct id_heap`.  `freed` are the nodes that are still in the range map
although their memory has been freed. -/
structure IdHeap where
  pageOrder : Nat
  randomize : Bool
  ranges : List IdRange
  allocated : Nat
  total : Nat
  freed : List PointRange

def infinity : Nat := 2 ^ 64 - 1

def roundUp (x s : Nat) : Nat := (x + (s - 1)) / s * s

def pad (x s : Nat) : Nat := roundUp x s % 2 ^ 64

def intBit (n : Nat) : Nat :=
  if n % 2 ^ 32 < 2 ^ 31 then n % 2 ^ 32 else 2 ^ 64 - 2 ^ 32 + n % 2 ^ 32

namespace IdRange

/-- The bits that `id_alloc_from_range` searches for so many pages. -/
def window (ir : IdRange) (pages : Nat) (subrange : PointRange) : PointRange :=
  let ri := ir.r.intersection subrange
  ⟨roundUp ri.start (2 ^ findOrder pages) - ir.bitmapStart, ri.stop - ir.bitmapStart⟩

def margin (pages : Nat) (ri : PointRange) : Nat :=
  let rounded := 2 ^ findOrder pages
  let span := ri.span / rounded * rounded
  if rounded < span then span - rounded else 0

/-- The bit at which the search starts; `random` is what `random_u64` gives. -/
def startBit (ir : IdRange) (randomize : Bool) (random pages : Nat) (ri : PointRange) : Nat :=
  if randomize ∧ 0 < margin pages ri then ri.start + random % margin pages ri
  else
    let next := ir.nextBit (min (findOrder pages) 9)
    if ri.start ≤ next ∧ next < ri.stop then min next (ri.start + margin pages ri) else ri.start

def setNextBit (ir : IdRange) (order bit : Nat) : IdRange :=
  if order < 10 then { ir with nextBit := Function.update ir.nextBit order bit } else ir

def alloc (ir : IdRange) (randomize : Bool) (random pages : Nat) (subrange : PointRange) :
    Option (Nat × IdRange) :=
  let ri := ir.window pages subrange
  if (ir.r.intersection subrange).span = 0 ∨ ri.stop < ri.start ∨ ri.span < pages then none
  else
    let start := ir.startBit randomize random pages ri
    let found :=
      match ir.b.allocWithinRange pages start ri.stop with
      | some found => some found
      | none => if ri.start < start then ir.b.allocWithinRange pages ri.start start else none
    found.map fun found => (ir.bitmapStart + found.1,
      { ir with b := found.2 }.setNextBit (findOrder pages) (found.1 + 2 ^ findOrder pages))

/-- `dealloc_from_range`: the range and the pages taken off. -/
def dealloc (q : PointRange) (ir : IdRange) : Option (IdRange × Nat) :=
  let ri := q.intersection ir.r
  let bit := intBit (ri.start - ir.bitmapStart)
  let pages := ri.span
  let order := findOrder pages
  (ir.b.dealloc bit pages).map fun b =>
    let ir := { ir with b := b }
    (if pages = 2 ^ order ∧ ri.start % pages = 0 ∧ bit < ir.nextBit (min order 9) then
        ir.setNextBit order bit
      else ir, pages)

def setIntersection (allocate : Bool) (q : PointRange) (ir : IdRange) : Option (IdRange × Nat) :=
  let ri := q.intersection ir.r
  (ir.b.rangeCheckAndSet (intBit (ri.start - ir.bitmapStart)) ri.span true allocate).map fun b =>
    ({ ir with b := b }, 0)

end IdRange

/-- `rangemap_range_lookup_with_gaps` with a gap handler that gives up: the
ranges, the sum of what the node handler gives, and whether it did not give
up. -/
def lookupWithGaps (q : PointRange) (handle : IdRange → Option (IdRange × Nat)) :
    (lastedge : Nat) → List IdRange → List IdRange × Nat × Bool
  | lastedge, [] =>
    ([], 0, decide (((⟨lastedge, q.stop⟩ : PointRange).intersection q).span = 0))
  | lastedge, ir :: irs =>
    if ir.r.stop ≤ q.start then
      let rest := lookupWithGaps q handle lastedge irs
      (ir :: rest.1, rest.2)
    else if (q.intersection ir.r).span = 0 then
      (ir :: irs, 0, decide (((⟨lastedge, q.stop⟩ : PointRange).intersection q).span = 0))
    else if 0 < ((⟨lastedge, ir.r.start⟩ : PointRange).intersection q).span then
      (ir :: irs, 0, false)
    else
      match handle ir with
      | none => (ir :: irs, 0, false)
      | some (changed, pages) =>
        let rest := lookupWithGaps q handle ir.r.stop irs
        (changed :: rest.1, pages + rest.2.1, rest.2.2)

namespace IdHeap

def pageSize (h : IdHeap) : Nat := 2 ^ h.pageOrder

def pagesFromBytes (h : IdHeap) (count : Nat) : Nat :=
  pad count h.pageSize / h.pageSize

/-- The loop over the ranges in `id_alloc`; each draws its own random number. -/
def allocRanges (randomize : Bool) (random : Nat → Nat) (pages : Nat) (subrange : PointRange) :
    List IdRange → Option (Nat × List IdRange)
  | [] => none
  | ir :: irs =>
    match ir.alloc randomize (random ir.r.start) pages subrange with
    | some (page, changed) => some (page, changed :: irs)
    | none =>
      (allocRanges randomize random pages subrange irs).map fun rest => (rest.1, ir :: rest.2)

def allocFrom (h : IdHeap) (random : Nat → Nat) (pages : Nat) (subrange : PointRange) :
    IdHeap × Option Nat :=
  match allocRanges h.randomize random pages subrange h.ranges with
  | some (page, ranges) =>
    ({ h with ranges := ranges, allocated := h.allocated + pages * h.pageSize }, some page)
  | none => (h, none)

def rangeLength (h : IdHeap) (base length : Nat) : Nat :=
  if length = infinity then (length - base) / (h.pageSize * 64) * (h.pageSize * 64) else length

/-- `rangemap_insert` into the ranges; any tree of them gives the same. -/
def insertRange (h : IdHeap) (new : PointRange) : Option Bool :=
  let t := SearchTree.spine (h.ranges.map IdRange.r)
  (RangeMap.insert (SearchTree.spineUpdates _) t new).map (·.2)

/-- `id_add_range`; `memory` says whether a bitmap can be allocated. -/
def addRange (h : IdHeap) (base length : Nat) (memory : Bool) : Option (IdHeap × Bool) :=
  let length := h.rangeLength base length
  if length < h.pageSize ∨ base % h.pageSize ≠ 0 ∨ length % h.pageSize ≠ 0 then none
  else
    let start := base / h.pageSize
    let new : PointRange := ⟨start, (start + length / h.pageSize) % 2 ^ 64⟩
    match h.insertRange new with
    | none => none
    | some false => some (h, false)
    | some true =>
      if memory = false then some ({ h with freed := new :: h.freed }, false)
      else
        let map : Bitmap := ⟨length / h.pageSize + start % 64, fun _ => false⟩
        let ir : IdRange := ⟨new, map.setRange 0 (start % 64) true, start - start % 64, fun _ => 0⟩
        some ({ h with
          ranges := h.ranges.takeWhile (fun other => other.r.start < start) ++
            ir :: h.ranges.dropWhile fun other => other.r.start < start
          total := h.total + length }, true)

/-- `id_alloc`; `parent` is what the parent heap gives when no range has room. -/
def alloc (h : IdHeap) (random : Nat → Nat) (count : Nat) (parent : Option (Nat × Nat × Bool)) :
    Option (IdHeap × Option Nat) :=
  if count = 0 then some (h, none)
  else
    match h.allocFrom random (h.pagesFromBytes count) ⟨0, infinity⟩ with
    | (after, some page) => some (after, some page)
    | (_, none) =>
      match parent with
      | none => some (h, none)
      | some (base, length, memory) =>
        match h.addRange base length memory with
        | none => none
        | some (failed, false) => some (failed, none)
        | some (grown, true) =>
          -- the ranges that were there have no room, so the new one is tried
          some (grown.allocFrom random (h.pagesFromBytes count) ⟨0, infinity⟩)

def pageRange (h : IdHeap) (start stop : Nat) : PointRange :=
  ⟨pad start h.pageSize / h.pageSize, if stop = infinity then infinity else stop / h.pageSize⟩

def allocSubrange (h : IdHeap) (random : Nat → Nat) (count start stop : Nat) :
    IdHeap × Option Nat :=
  let subrange := h.pageRange start stop
  if count = 0 ∨ subrange.stop < subrange.start ∨ subrange.span = 0 ∨ subrange.start = infinity ∨
      subrange.span < h.pagesFromBytes count then (h, none)
  else h.allocFrom random (h.pagesFromBytes count) subrange

def dealloc (h : IdHeap) (a count : Nat) : Option IdHeap :=
  if count = 0 ∨ a % h.pageSize ≠ 0 ∨ count % h.pageSize ≠ 0 then some h
  else
    let q : PointRange := ⟨a / h.pageSize, (a + count) % 2 ^ 64 / h.pageSize⟩
    let done := lookupWithGaps q (IdRange.dealloc q) q.start h.ranges
    if h.allocated < done.2.1 * h.pageSize then none
    else some { h with ranges := done.1, allocated := h.allocated - done.2.1 * h.pageSize }

def areaPages (h : IdHeap) (base length : Nat) : PointRange :=
  let base := base - base % h.pageSize
  ⟨base / h.pageSize, (base + pad length h.pageSize) % 2 ^ 64 / h.pageSize⟩

def setArea (h : IdHeap) (base length : Nat) (allocate : Bool) : Option (IdHeap × Bool) :=
  let q := h.areaPages base length
  let length := pad length h.pageSize
  let done := lookupWithGaps q (IdRange.setIntersection allocate q) q.start h.ranges
  if done.2.2 = false ∨ q.span = 0 then some ({ h with ranges := done.1 }, false)
  else if allocate then
    some ({ h with ranges := done.1, allocated := h.allocated + length }, true)
  else if h.allocated < length then none
  else some ({ h with ranges := done.1, allocated := h.allocated - length }, true)

end IdHeap

end Jerboa.Kernel
