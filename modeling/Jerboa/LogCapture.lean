import Jerboa.ArraySlice
import Mathlib.Data.List.DropRight

/-!
# Log capture

The `safeBuffer` of `internal/vm/types.go`, which keeps the last bytes that a
guest has written to its console.
-/

namespace Jerboa.LogCapture

open List

def defaultVMLogMaxBytes : Int := 4194304

structure SafeBuffer where
  buf : ArraySlice UInt8
  max : Int

/-- The capacity that a write works with: the field, resolved from
`vmLogMaxBytes` if it is not set yet. -/
def resolveMax (vmLogMaxBytes max : Int) : Int :=
  if max ≤ 0 then
    if vmLogMaxBytes ≤ 0 then defaultVMLogMaxBytes else vmLogMaxBytes
  else max

/-- The buffer in an array of at least `max` cells. -/
def grow (buf : ArraySlice UInt8) (max : Nat) : Option (ArraySlice UInt8) :=
  if buf.cap < max then do
    let grown ← ArraySlice.make 0 buf.length max
    return (grown.copy buf.items).1
  else some buf

/-- The buffer after its oldest bytes have made room for `n` more. -/
def dropOldest (buf : ArraySlice UInt8) (max n : Nat) : Option (ArraySlice UInt8) :=
  if max < buf.length + n then do
    let overflow := buf.length + n - max
    let kept ← buf.itemsFrom overflow
    let (shifted, count) := buf.copy kept
    shifted.upTo count
  else some buf

/-- `safeBuffer.Write`: the number of bytes that it returns and the buffer after
it.  `vmLogMaxBytes` is what the atomic holds at the time, and `none` stands for
an index out of range. -/
def SafeBuffer.write (b : SafeBuffer) (vmLogMaxBytes : Int) (p : List UInt8) :
    Option (Nat × SafeBuffer) :=
  let resolved := resolveMax vmLogMaxBytes b.max
  let max := resolved.toNat
  let n := p.length
  if n = 0 then some (0, ⟨b.buf, resolved⟩)
  else do
    let buf ← grow b.buf max
    if max ≤ n then
      let whole ← buf.upTo max
      return (n, ⟨(whole.copy (p.drop (n - max))).1, resolved⟩)
    else
      let buf ← dropOldest buf max n
      return (n, ⟨buf.append p, resolved⟩)

def SafeBuffer.bytes (b : SafeBuffer) : List UInt8 :=
  b.buf.items

/-- Writes one after the other, each with what `vmLogMaxBytes` holds at its time:
the numbers that they return and the buffer at the end. -/
def SafeBuffer.writes (b : SafeBuffer) : List (Int × List UInt8) → Option (List Nat × SafeBuffer)
  | [] => some ([], b)
  | (vmLogMaxBytes, p) :: rest => do
      let (n, b) ← b.write vmLogMaxBytes p
      let (ns, b) ← b.writes rest
      return (n :: ns, b)

/-! ### One write -/

theorem resolveMax_of_pos {max : Int} (positive : 0 < max) (vmLogMaxBytes : Int) :
    resolveMax vmLogMaxBytes max = max :=
  if_neg (by omega)

theorem grow_eq_some (buf : ArraySlice UInt8) (max : Nat) (short : buf.length ≤ max) :
    ∃ grown, grow buf max = some grown ∧ grown.items = buf.items ∧ max ≤ grown.cap := by
  unfold grow
  split
  · obtain ⟨fresh, made, length, capacity⟩ := ArraySlice.make_eq_some (0 : UInt8) short
    refine ⟨(fresh.copy buf.items).1, by simp [made], ?_, by simp [capacity]⟩
    exact ArraySlice.items_copy (by simp [length])
  · exact ⟨buf, rfl, rfl, by omega⟩

theorem dropOldest_eq_some (buf : ArraySlice UInt8) {max n : Nat} (less : n ≤ max) :
    ∃ kept, dropOldest buf max n = some kept ∧
      kept.items = buf.items.drop (buf.length + n - max) := by
  unfold dropOldest
  split
  · have inside : buf.length + n - max ≤ buf.length := by omega
    have shorter : (buf.items.drop (buf.length + n - max)).length ≤ buf.length := by simp
    obtain ⟨count, front⟩ := ArraySlice.cells_copy shorter
    have room : (buf.copy (buf.items.drop (buf.length + n - max))).2 ≤
        (buf.copy (buf.items.drop (buf.length + n - max))).1.cap := by
      rw [count, ArraySlice.cap_copy]
      exact shorter.trans buf.bounded
    obtain ⟨kept, resliced, cells, length⟩ := ArraySlice.upTo_eq_some room
    refine ⟨kept, ?_, ?_⟩
    · simp [ArraySlice.itemsFrom_eq_some inside, resliced]
    · rw [ArraySlice.items, cells, length, count, front]
  · rename_i fits
    refine ⟨buf, rfl, ?_⟩
    rw [show buf.length + n - max = 0 by omega, drop_zero]

variable {max : Nat}

theorem rtake_append {α : Type*} {written chunk : List α}
    (less : chunk.length ≤ max) :
    (written ++ chunk).rtake max =
      (written.rtake max).drop ((written.rtake max).length + chunk.length - max) ++ chunk := by
  simp only [List.rtake, length_append, length_drop, drop_drop]
  rw [drop_append_of_le_length (by omega)]
  congr 2
  omega

theorem rtake_append_of_le {α : Type*} {written chunk : List α}
    (more : max ≤ chunk.length) :
    (written ++ chunk).rtake max = chunk.drop (chunk.length - max) := by
  simp only [List.rtake, length_append]
  rw [drop_append, drop_of_length_le (by omega), nil_append]
  congr 1
  omega

/-- The buffer has the capacity `max` and holds the end of what was written. -/
structure Holds (max : Nat) (written : List UInt8) (b : SafeBuffer) : Prop where
  capacity : b.max = max
  kept : b.bytes = written.rtake max

theorem Holds.write {written : List UInt8} {b : SafeBuffer}
    (holds : Holds max written b) (positive : 0 < max) (vmLogMaxBytes : Int) (p : List UInt8) :
    ∃ after, b.write vmLogMaxBytes p = some (p.length, after) ∧ Holds max (written ++ p) after := by
  have resolved : resolveMax vmLogMaxBytes b.max = max := by
    rw [holds.capacity]
    exact resolveMax_of_pos (by omega) vmLogMaxBytes
  have short : b.buf.length ≤ max := by
    rw [← ArraySlice.length_items, show b.buf.items = written.rtake max from holds.kept]
    simp only [List.rtake, length_drop]
    omega
  obtain ⟨grown, grows, same, room⟩ := grow_eq_some b.buf max short
  have before : grown.items = written.rtake max := same.trans holds.kept
  by_cases nothing : p.length = 0
  · obtain rfl := length_eq_zero_iff.mp nothing
    exact ⟨⟨b.buf, max⟩, by simp [SafeBuffer.write, resolved], rfl,
      by simpa [SafeBuffer.bytes] using holds.kept⟩
  · by_cases large : max ≤ p.length
    · obtain ⟨whole, resliced, -, length⟩ := ArraySlice.upTo_eq_some room
      refine ⟨⟨(whole.copy (p.drop (p.length - max))).1, max⟩, ?_, rfl, ?_⟩
      · simp [SafeBuffer.write, resolved, nothing, grows, large, resliced]
      · rw [rtake_append_of_le large]
        exact ArraySlice.items_copy (by rw [length, length_drop]; omega)
    · have less : p.length ≤ max := by omega
      obtain ⟨kept, dropped, items⟩ := dropOldest_eq_some grown less
      refine ⟨⟨kept.append p, max⟩, ?_, rfl, ?_⟩
      · simp [SafeBuffer.write, resolved, nothing, grows, large, dropped]
      · rw [rtake_append less, ← before, ArraySlice.length_items, ← items]
        exact ArraySlice.items_append kept p

theorem Holds.writes {written : List UInt8} {b : SafeBuffer}
    (holds : Holds max written b) (positive : 0 < max) (chunks : List (Int × List UInt8)) :
    ∃ after, b.writes chunks = some (chunks.map fun chunk => chunk.2.length, after) ∧
      Holds max (written ++ (chunks.map Prod.snd).flatten) after := by
  induction chunks generalizing written b with
  | nil => exact ⟨b, rfl, by simpa using holds⟩
  | cons chunk chunks ih =>
    obtain ⟨next, wrote, held⟩ := holds.write positive chunk.1 chunk.2
    obtain ⟨after, rest, ends⟩ := ih held
    refine ⟨after, ?_, ?_⟩
    · simp [SafeBuffer.writes, wrote, rest]
    · simpa [append_assoc] using ends

/-- Every write returns the length of its chunk, and the buffer holds the last
bytes of everything that was written, as many as its capacity allows. -/
theorem bytes_after_writes (max : Int) (positive : 0 < max) (chunks : List (Int × List UInt8)) :
    ∃ after,
      (⟨ArraySlice.empty, max⟩ : SafeBuffer).writes chunks =
          some (chunks.map fun chunk => chunk.2.length, after) ∧
        after.bytes =
          (chunks.map Prod.snd).flatten.rtake
            (min max.toNat (chunks.map Prod.snd).flatten.length) := by
  have start : Holds max.toNat [] ⟨ArraySlice.empty, max⟩ := by
    refine ⟨?_, ?_⟩
    · exact (Int.toNat_of_nonneg (Int.le_of_lt positive)).symm
    · simp [SafeBuffer.bytes]
  obtain ⟨after, wrote, held⟩ := start.writes (by omega) chunks
  refine ⟨after, wrote, ?_⟩
  rw [held.kept, nil_append, List.rtake, List.rtake]
  congr 1
  omega

theorem bytes_after_three_writes :
    ∃ after,
      (⟨ArraySlice.empty, 3⟩ : SafeBuffer).writes [(0, [1, 2]), (0, [3, 4]), (0, [])] =
          some ([2, 2, 0], after) ∧
        after.bytes = [2, 3, 4] :=
  bytes_after_writes 3 (by decide) [(0, [1, 2]), (0, [3, 4]), (0, [])]

end Jerboa.LogCapture
