import Jerboa.PageBitmap
import Mathlib.Order.Bounds.Basic

/-!
# The first fit of the bitmap allocator

`bitmap_alloc_within_range` in the 64-bit arithmetic of the code, over a map that
is extended as the search goes on.  Where no sum carries out of a word it is the
search of `PageBitmap`, and that finds the first aligned block of free bits.
-/

namespace Jerboa.Kernel

/-- A bitmap with a buffer for the first `mapbits` of its bits.  A map without a
limit has `-1ull << 6` bits. -/
structure BufferedBitmap extends Bitmap where
  mapbits : Nat
  bounded : maxbits ≤ 2 ^ 64 - 64

namespace Bitmap

/-! ### The search in 64 bits -/

/-- The bits in the buffer after `bitmap_extend`, which is taken to succeed. -/
def extend (mapbits i : Nat) : Nat :=
  if i < mapbits then mapbits else (i / 4096 + 1) * 4096

theorem lt_extend (mapbits i : Nat) : i < extend mapbits i := by
  unfold extend
  split <;> omega

section Search

variable (b : Bitmap) (nbits stride endbit : Nat)

/-- The bit that is found and the bits in the buffer then.  The search faults where
it reads a word outside of the buffer. -/
def searchWords64 : (tries mapbits bit : Nat) → Option (Option Nat × Nat)
  | 0, _, _ => none
  | tries + 1, mapbits, bit =>
    if endbit < bit then some (none, mapbits)
    else
      let mapbits := extend mapbits ((bit + nbits) % 2 ^ 64)
      -- the words are read in order, up to the first that has a bit set
      if mapbits < bit + nbits ∧ b.checkRange bit (mapbits - bit) false = true then none
      else if b.checkRange bit nbits false then some (some bit, mapbits)
      else searchWords64 tries mapbits ((bit + stride) % 2 ^ 64)

def searchBits64 : (tries mapbits bit : Nat) → Option (Option Nat × Nat)
  | 0, _, _ => none
  | tries + 1, mapbits, bit =>
    if endbit < bit then some (none, mapbits)
    else
      let word := bit - bit % 64
      let mapbits := extend mapbits ((word + 64) % 2 ^ 64)
      if mapbits < word + 64 then none
      else if (List.range 64).all fun i => b.bits (word + i) then
        searchBits64 tries mapbits ((word + 64) % 2 ^ 64)
      else
        match b.searchOffsets nbits stride endbit word 64 (bit % 64) with
        | some found => some (found, mapbits)
        | none => searchBits64 tries mapbits ((word + 64) % 2 ^ 64)

end Search

end Bitmap

/-- The end of the call: the bits of the block are set. -/
def BufferedBitmap.give (b : BufferedBitmap) (nbits : Nat) (bit : Option Nat) (mapbits : Nat) :
    BufferedBitmap :=
  match bit with
  | none => { b with mapbits := mapbits }
  | some bit => { b with bits := (b.setRange bit nbits true).bits, mapbits := mapbits }

/-- The bit that is returned, or none for `INVALID_PHYSICAL`, and the map.  There
is no result if the call faults or does not return. -/
def BufferedBitmap.allocWithinRange64 (b : BufferedBitmap) (nbits start stop : Nat) :
    Option (Option Nat × BufferedBitmap) :=
  let stride := 2 ^ findOrder nbits
  let endbit := min stop b.maxbits
  if endbit < (start + nbits) % 2 ^ 64 then some (none, b)
  else
    let last := (endbit + 2 ^ 64 - nbits) % 2 ^ 64
    (if 64 ≤ stride then b.searchWords64 nbits stride last (endbit + 1) b.mapbits start
      else b.searchBits64 nbits stride last (endbit + 1) b.mapbits start).map
        fun (bit, mapbits) => (bit, b.give nbits bit mapbits)

namespace Bitmap

variable {b : Bitmap} {nbits stride endbit tries start stop low middle high : Nat}

theorem searchWords64_beyond (beyond : endbit < start) (mapbits : Nat) :
    b.searchWords64 nbits stride endbit (tries + 1) mapbits start = some (none, mapbits) :=
  if_pos beyond

theorem searchBits64_beyond (beyond : endbit < start) (mapbits : Nat) :
    b.searchBits64 nbits stride endbit (tries + 1) mapbits start = some (none, mapbits) :=
  if_pos beyond

/-- A search that finds a block, or in which no step carries, is the one of
`PageBitmap`. -/
theorem searchWords64_eq (wide : 64 ≤ stride) (last : endbit + nbits < 2 ^ 64)
    (enough : endbit + 1 - start < tries)
    (walks : 2 ^ 64 ≤ endbit + stride →
      (b.searchWords nbits stride endbit tries start).isSome = true) (mapbits : Nat) :
    ∃ after, b.searchWords64 nbits stride endbit tries mapbits start =
      some (b.searchWords nbits stride endbit tries start, after) := by
  induction tries generalizing start mapbits with
  | zero => omega
  | succ tries ih =>
    rw [searchWords64, searchWords] at *
    split
    · exact ⟨mapbits, rfl⟩
    · rename_i inside
      have buffered := lt_extend mapbits (start + nbits)
      rw [Nat.mod_eq_of_lt (by omega : start + nbits < 2 ^ 64), if_neg (by omega)]
      rw [if_neg inside] at walks
      split
      · exact ⟨_, rfl⟩
      · rename_i taken
        rw [if_neg taken] at walks
        have noCarry : start + stride < 2 ^ 64 := by
          by_contra carries
          obtain ⟨found, result⟩ := Option.isSome_iff_exists.mp (walks (by omega))
          have lower := (found_searchWords wide result).lower
          have upper := (found_searchWords wide result).upper
          omega
        rw [Nat.mod_eq_of_lt noCarry]
        exact ih (by omega) walks _

theorem searchBits64_eq (last : endbit + 64 < 2 ^ 64) (enough : endbit + 1 - start < tries)
    (mapbits : Nat) :
    ∃ after, b.searchBits64 nbits stride endbit tries mapbits start =
      some (b.searchBits nbits stride endbit tries start, after) := by
  induction tries generalizing start mapbits with
  | zero => omega
  | succ tries ih =>
    rw [searchBits64, searchBits]
    split
    · exact ⟨mapbits, rfl⟩
    · have buffered := lt_extend mapbits (start - start % 64 + 64)
      have noCarry : (start - start % 64 + 64) % 2 ^ 64 = start - start % 64 + 64 :=
        Nat.mod_eq_of_lt (by omega)
      simp only [noCarry]
      rw [if_neg (by omega)]
      split
      · exact ih (by omega) _
      · cases b.searchOffsets nbits stride endbit (start - start % 64) 64 (start % 64) with
        | some found => exact ⟨_, rfl⟩
        | none => exact ih (by omega) _

/-- No sum of the call carries that it goes on with: not the one for the first
block, unless the range is as long as a block, and not the one for the next block
after the last, unless an earlier one is found. -/
structure NoCarry (b : Bitmap) (nbits stride start stop : Nat) (found : Prop) : Prop where
  first : start + nbits = 2 ^ 64 → nbits ≤ min stop b.maxbits
  next : 2 ^ 64 ≤ min stop b.maxbits - nbits + stride → found

/-! ### What the search passes over -/

def FreeBlock (b : Bitmap) (nbits bit : Nat) : Prop :=
  ∀ other, bit ≤ other → other < bit + nbits → b.bits other = false

/-- No free block begins from one bit on and before another. -/
def Passed (b : Bitmap) (nbits stride low high : Nat) : Prop :=
  ∀ bit, stride ∣ bit → low ≤ bit → bit < high → ¬b.FreeBlock nbits bit

theorem passed_of_le (none : high ≤ low) : b.Passed nbits stride low high :=
  fun bit _ lower upper => by omega

theorem Passed.trans (first : b.Passed nbits stride low middle)
    (second : b.Passed nbits stride middle high) : b.Passed nbits stride low high := by
  intro bit divides lower upper
  by_cases early : bit < middle
  · exact first bit divides lower early
  · exact second bit divides (by omega) upper

theorem Passed.next (aligned : stride ∣ low) (taken : ¬b.FreeBlock nbits low)
    (later : b.Passed nbits stride (low + stride) high) : b.Passed nbits stride low high := by
  intro bit divides lower upper
  by_cases first : bit = low
  · exact first ▸ taken
  · have gap := Nat.le_of_dvd (by omega) (Nat.dvd_sub divides aligned)
    exact later bit divides (by omega) upper

theorem passed_searchWords (wide : 0 < stride) (aligned : stride ∣ start)
    (enough : endbit < start + tries) :
    b.Passed nbits stride start
      ((b.searchWords nbits stride endbit tries start).getD (endbit + 1)) := by
  fun_induction searchWords b nbits stride endbit tries start with
  | case1 => exact passed_of_le enough
  | case2 tries start beyond => exact passed_of_le beyond
  | case3 => exact passed_of_le le_rfl
  | case4 tries start inside taken ih =>
    exact .next aligned (fun free => taken (checkRange_iff.mpr free))
      (ih ((Nat.dvd_add_right aligned).mpr dvd_rfl) (by omega))

theorem passed_searchOffsets {word wordOffset : Nat} (aligned : stride ∣ word + wordOffset)
    (inside : wordOffset < 64) (wide : 0 < stride) (enough : 64 ≤ wordOffset + tries) :
    b.Passed nbits stride (word + wordOffset)
      (((b.searchOffsets nbits stride endbit word tries wordOffset).map
        (·.getD (endbit + 1))).getD (word + 64)) := by
  have notFree {offset : Nat} (taken : ¬b.maskFree nbits word offset = true) :
      ¬b.FreeBlock nbits (word + offset) := fun free =>
    taken (maskFree_iff.mpr fun i _ lower upper => free (word + i) (by omega) (by omega))
  fun_induction searchOffsets b nbits stride endbit word tries wordOffset with
  | case1 => omega
  | case2 tries wordOffset beyond => exact passed_of_le beyond
  | case3 => exact passed_of_le le_rfl
  | case4 tries wordOffset reached taken more ih =>
    refine .next aligned (notFree taken) ?_
    have further := (Nat.dvd_add_right aligned).mpr dvd_rfl
    rw [Nat.add_assoc] at further ⊢
    exact ih further more (by omega)
  | case5 tries wordOffset reached taken last =>
    exact .next aligned (notFree taken) (passed_of_le (by simp; omega))

theorem passed_searchBits (positive : 0 < nbits) (wide : 0 < stride) (divides : stride ∣ 64)
    (aligned : stride ∣ start) (enough : endbit < start + tries) :
    b.Passed nbits stride start
      ((b.searchBits nbits stride endbit tries start).getD (endbit + 1)) := by
  have word (bit : Nat) : stride ∣ bit - bit % 64 + 64 := dvd_trans divides (by omega)
  have inWord {bit : Nat} (aligned : stride ∣ bit) : b.Passed nbits stride bit
      (((b.searchOffsets nbits stride endbit (bit - bit % 64) 64 (bit % 64)).map
        (·.getD (endbit + 1))).getD (bit - bit % 64 + 64)) := by
    have whole : bit - bit % 64 + bit % 64 = bit := Nat.sub_add_cancel (Nat.mod_le _ _)
    have passed := @passed_searchOffsets b nbits stride endbit 64 (bit - bit % 64) (bit % 64)
      (by rwa [whole]) (Nat.mod_lt _ (by decide)) wide (by omega)
    rwa [whole] at passed
  fun_induction searchBits b nbits stride endbit tries start with
  | case1 => exact passed_of_le enough
  | case2 tries start beyond => exact passed_of_le beyond
  | case3 tries start inside _ full ih =>
    refine Passed.trans ?_ (ih (word start) (by omega))
    intro bit _ lower upper free
    have set := List.all_eq_true.mp full (bit - (start - start % 64)) (by simp; omega)
    rw [Nat.add_sub_cancel' (by omega), free bit le_rfl (by omega)] at set
    cases set
  | case4 tries start inside _ room found here =>
    have passed := inWord aligned
    rw [here] at passed
    exact passed
  | case5 tries start inside _ room next ih =>
    have passed := inWord aligned
    rw [next] at passed
    exact passed.trans (ih (word start) (by omega))

/-! ### First fit -/

/-- An aligned block of free bits in the range. -/
structure Fits (b : Bitmap) (nbits stride start stop bit : Nat) : Prop where
  aligned : stride ∣ bit
  lower : start ≤ bit
  upper : bit + nbits ≤ min stop b.maxbits
  free : b.FreeBlock nbits bit

theorem mod_add_le {bit : Nat} (divides : stride ∣ 64) (aligned : stride ∣ bit) :
    bit % 64 + stride ≤ 64 := by
  have below := Nat.mod_lt bit (show 64 > 0 by decide)
  have rest := Nat.le_of_dvd (by omega) (Nat.dvd_sub divides ((Nat.dvd_mod_iff divides).mpr aligned))
  omega

theorem passed_allocWithinRange (positive : 0 < nbits) (aligned : 2 ^ findOrder nbits ∣ start) :
    b.Passed nbits (2 ^ findOrder nbits) start
      (((b.allocWithinRange nbits start stop).map Prod.fst).getD (min stop b.maxbits + 1 - nbits)) := by
  have wide : 0 < 2 ^ findOrder nbits := Nat.two_pow_pos _
  simp only [allocWithinRange]
  split
  · exact passed_of_le (by simp; omega)
  · have past : min stop b.maxbits + 1 - nbits = min stop b.maxbits - nbits + 1 := by omega
    simp only [Option.map_map, Function.comp_def, Option.map_id', past]
    have enough : min stop b.maxbits - nbits < start + (min stop b.maxbits + 1) := by omega
    split
    · exact passed_searchWords wide aligned enough
    · rename_i narrow
      exact passed_searchBits positive wide (stride_dvd_word (by omega)) aligned enough

end Bitmap

namespace BufferedBitmap

variable {b : BufferedBitmap} {nbits start stop : Nat}

@[simp]
theorem give_maxbits (b : BufferedBitmap) (nbits : Nat) (bit : Option Nat) (mapbits : Nat) :
    (b.give nbits bit mapbits).maxbits = b.maxbits := by
  cases bit <;> rfl

theorem allocWithinRange64_eq (positive : 0 < nbits) (small : nbits ≤ 2 ^ 63)
    (aligned : 2 ^ findOrder nbits ∣ start) (isWord : start < 2 ^ 64)
    (noCarry : b.NoCarry nbits (2 ^ findOrder nbits) start stop
      ((b.allocWithinRange nbits start stop).isSome = true)) :
    ∃ mapbits, b.allocWithinRange64 nbits start stop =
      some ((b.allocWithinRange nbits start stop).map Prod.fst,
        b.give nbits ((b.allocWithinRange nbits start stop).map Prod.fst) mapbits) := by
  have bounded := b.bounded
  have whole : start + nbits ≤ 2 ^ 64 := by
    have room := le_two_pow_findOrder nbits
    have order : findOrder nbits ≤ 64 := (findOrder_le small).trans (by decide)
    have before := Nat.le_of_dvd (by omega) (Nat.dvd_sub (Nat.pow_dvd_pow 2 order) aligned)
    omega
  obtain ⟨first, next⟩ := noCarry
  have last : min stop b.maxbits - nbits + 64 < 2 ^ 64 := by omega
  by_cases outside : min stop b.maxbits < start + nbits
  · have fails : b.allocWithinRange nbits start stop = none := if_pos outside
    rw [fails]
    refine ⟨b.mapbits, ?_⟩
    simp only [allocWithinRange64]
    split
    · cases b
      simp only [give, Option.map_none]
    · -- the sum carried, and the first bit is beyond the last
      rename_i passes
      have carried : start + nbits = 2 ^ 64 := by omega
      have isLast : (min stop b.maxbits + 2 ^ 64 - nbits) % 2 ^ 64 = min stop b.maxbits - nbits := by
        have long := first carried
        omega
      have beyond : min stop b.maxbits - nbits < start := by omega
      rw [isLast, Bitmap.searchWords64_beyond beyond, Bitmap.searchBits64_beyond beyond, ite_self]
      simp only [Option.map_some, Option.map_none]
  · have isLast : (min stop b.maxbits + 2 ^ 64 - nbits) % 2 ^ 64 = min stop b.maxbits - nbits := by
      omega
    simp only [Bitmap.allocWithinRange, if_neg outside] at next ⊢
    simp only [allocWithinRange64, Nat.mod_eq_of_lt (by omega : start + nbits < 2 ^ 64),
      if_neg outside, isLast]
    split
    · rename_i wide
      rw [if_pos wide, Option.isSome_map] at next
      obtain ⟨mapbits, found⟩ := Bitmap.searchWords64_eq wide
        (by omega : min stop b.maxbits - nbits + nbits < 2 ^ 64) (by omega) next b.mapbits
      refine ⟨mapbits, ?_⟩
      simp [found, Function.comp_def]
    · obtain ⟨mapbits, found⟩ := @Bitmap.searchBits64_eq b.toBitmap nbits (2 ^ findOrder nbits) _
        (min stop b.maxbits + 1) start last (by omega) b.mapbits
      refine ⟨mapbits, ?_⟩
      simp [found, Function.comp_def]

/-- The map of a heap without a limit, in which bit 0 is set. -/
def fdMap : BufferedBitmap :=
  ⟨⟨2 ^ 64 - 64, fun bit => bit = 0⟩, 4096, le_rfl⟩

end BufferedBitmap

end Jerboa.Kernel
