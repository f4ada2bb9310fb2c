import Mathlib.Data.Nat.Log
import Mathlib.Tactic.IntervalCases

/-!
# The bitmap allocator

`runtime/bitmap.c`: a bit is set if its page is in use.  Masks of words are sets
of bit positions; the bits that the buffer does not hold yet are zero.
-/

namespace Jerboa.Kernel

open List

def findOrder (x : Nat) : Nat :=
  if 1 < x then Nat.log2 (x - 1) + 1 else 0

theorem le_two_pow_findOrder (x : Nat) : x ≤ 2 ^ findOrder x := by
  unfold findOrder
  split
  · have below := @Nat.lt_log2_self (x - 1)
    omega
  · simpa using by omega

theorem findOrder_le {x k : Nat} (fits : x ≤ 2 ^ k) : findOrder x ≤ k := by
  unfold findOrder
  split
  · rename_i more
    exact (Nat.log2_lt (by omega)).mpr (by omega)
  · exact Nat.zero_le k

theorem stride_dvd_word {nbits : Nat} (narrow : 2 ^ findOrder nbits < 64) : 2 ^ findOrder nbits ∣ 64 := by
  have order : findOrder nbits < 6 := (Nat.pow_lt_pow_iff_right (by decide)).mp narrow
  exact Nat.pow_dvd_pow 2 order.le

structure Bitmap where
  maxbits : Nat
  bits : Nat → Bool

structure WordMask where
  word : Nat
  mask : Nat → Bool

namespace Bitmap

/-- The words and masks of `for_range_in_map`: the first word, the whole words
after it and the word in which the range ends. -/
def rangeMasks (start nbits : Nat) : List WordMask :=
  let stop := start + nbits
  let head := start % 64
  let tail := stop % 64
  let single := decide (head + nbits ≤ 64)
  if nbits = 0 then []
  else
    ⟨start / 64, fun i => (head = 0 || head ≤ i) && (tail = 0 || !single || i < tail)⟩ ::
      if single then []
      else
        ((List.range (stop / 64 - (start / 64 + 1))).map fun k =>
          ⟨start / 64 + 1 + k, fun _ => true⟩) ++
        if tail = 0 then [] else [⟨stop / 64, fun i => i < tail⟩]

def checkRange (b : Bitmap) (start nbits : Nat) (val : Bool) : Bool :=
  (rangeMasks start nbits).all fun m =>
    (List.range 64).all fun i => !m.mask i || b.bits (64 * m.word + i) == val

def setRange (b : Bitmap) (start nbits : Nat) (val : Bool) : Bitmap :=
  { b with bits := fun bit =>
      if (rangeMasks start nbits).any fun m => m.word = bit / 64 && m.mask (bit % 64) then val
      else b.bits bit }

/-- `bitmap_range_check_and_set`, without the map if it returns false. -/
def rangeCheckAndSet (b : Bitmap) (start nbits : Nat) (validate set : Bool) : Option Bitmap :=
  if b.maxbits ≤ start ∨ b.maxbits < start + nbits then none
  else if validate ∧ b.checkRange start nbits (!set) = false then none
  else some (b.setRange start nbits set)

/-- `bitmap_dealloc`, without the map if it returns false. -/
def dealloc (b : Bitmap) (bit size : Nat) : Option Bitmap :=
  if b.maxbits < (bit + size) % 2 ^ 64 then none
  else if b.checkRange bit size true = false then none
  else some (b.setRange bit size false)

/-! ### The search of `bitmap_alloc_internal` -/

section Search

variable (b : Bitmap) (nbits stride endbit : Nat)

def searchWords : (tries bit : Nat) → Option Nat
  | 0, _ => none
  | tries + 1, bit =>
    if endbit < bit then none
    else if b.checkRange bit nbits false then some bit
    else searchWords tries (bit + stride)

/-- No bit of the word at `bit` is set under the mask of `nbits` from `wordOffset`
on, which the end of the word cuts. -/
def maskFree (bit wordOffset : Nat) : Bool :=
  (List.range 64).all fun i =>
    !(decide (wordOffset ≤ i) && decide (i < wordOffset + nbits)) || !b.bits (bit + i)

/-- The loop over the offsets in the word at `bit`; `none` goes on to the next
word. -/
def searchOffsets (bit : Nat) : (tries wordOffset : Nat) → Option (Option Nat)
  | 0, _ => none
  | tries + 1, wordOffset =>
    if endbit < bit + wordOffset then some none
    else if b.maskFree nbits bit wordOffset then some (some (bit + wordOffset))
    else if wordOffset + stride < 64 then searchOffsets bit tries (wordOffset + stride)
    else none

def searchBits : (tries bit : Nat) → Option Nat
  | 0, _ => none
  | tries + 1, bit =>
    if endbit < bit then none
    else
      let word := bit - bit % 64
      if (List.range 64).all fun i => b.bits (word + i) then searchBits tries (word + 64)
      else
        match b.searchOffsets nbits stride endbit word 64 (bit % 64) with
        | some found => found
        | none => searchBits tries (word + 64)

end Search

/-- `bitmap_alloc_within_range`: the first bit of the pages, and the map. -/
def allocWithinRange (b : Bitmap) (nbits start stop : Nat) : Option (Nat × Bitmap) :=
  let stride := 2 ^ findOrder nbits
  let endbit := min stop b.maxbits
  if endbit < start + nbits then none
  else
    (if 64 ≤ stride then b.searchWords nbits stride (endbit - nbits) (endbit + 1) start
      else b.searchBits nbits stride (endbit - nbits) (endbit + 1) start).map
        fun bit => (bit, b.setRange bit nbits true)

/-! ### What the loops do -/

theorem masked_iff {start nbits bit : Nat} :
    ((rangeMasks start nbits).any fun m => m.word = bit / 64 && m.mask (bit % 64)) = true ↔
      start ≤ bit ∧ bit < start + nbits := by
  simp only [rangeMasks]
  split
  · rename_i empty
    simp [empty]
  · rw [any_cons]
    split
    · rename_i single
      simp only [decide_eq_true_eq] at single
      simp [single]
      omega
    · rename_i many
      simp only [decide_eq_true_eq] at many
      have middle : ((List.range ((start + nbits) / 64 - (start / 64 + 1))).any fun k =>
          decide (start / 64 + 1 + k = bit / 64)) = true ↔
            start / 64 < bit / 64 ∧ bit / 64 < (start + nbits) / 64 := by
        simp only [any_eq_true, mem_range, decide_eq_true_eq]
        constructor
        · rintro ⟨k, inside, same⟩
          omega
        · rintro ⟨lower, upper⟩
          exact ⟨bit / 64 - (start / 64 + 1), by omega, by omega⟩
      by_cases whole : (start + nbits) % 64 = 0
      · simp [many, whole, any_map, Function.comp_def, middle]
        omega
      · simp [many, whole, any_map, Function.comp_def, middle]
        omega

theorem bits_setRange (b : Bitmap) (start nbits : Nat) (val : Bool) (bit : Nat) :
    (b.setRange start nbits val).bits bit =
      if start ≤ bit ∧ bit < start + nbits then val else b.bits bit := by
  simp only [setRange, masked_iff]

theorem checkRange_iff {b : Bitmap} {start nbits : Nat} {val : Bool} :
    b.checkRange start nbits val = true ↔
      ∀ bit, start ≤ bit → bit < start + nbits → b.bits bit = val := by
  simp only [checkRange, all_eq_true, mem_range, Bool.or_eq_true, Bool.not_eq_true',
    beq_iff_eq]
  constructor
  · intro checked bit lower upper
    obtain ⟨m, member, found⟩ := any_eq_true.mp (masked_iff.mpr ⟨lower, upper⟩)
    simp only [Bool.and_eq_true, decide_eq_true_eq] at found
    have isVal := (checked m member (bit % 64) (Nat.mod_lt _ (by decide))).resolve_left
      (by simp [found.2])
    rwa [found.1, Nat.div_add_mod] at isVal
  · intro all m member i inside
    refine or_iff_not_imp_left.mpr fun masked => ?_
    have split : (64 * m.word + i) / 64 = m.word ∧ (64 * m.word + i) % 64 = i := by omega
    obtain ⟨lower, upper⟩ := (@masked_iff start nbits (64 * m.word + i)).mp
      (any_eq_true.mpr ⟨m, member, by simpa [split.1, split.2] using masked⟩)
    exact all _ lower upper

theorem dealloc_eq_some {b b' : Bitmap} {bit size : Nat} (cleared : b.dealloc bit size = some b') :
    (bit + size) % 2 ^ 64 ≤ b.maxbits ∧ b' = b.setRange bit size false := by
  simp only [dealloc] at cleared
  split at cleared
  · cases cleared
  · split at cleared
    · cases cleared
    · exact ⟨by omega, (Option.some.inj cleared).symm⟩

/-- What the search knows of the bit it returns.  A search from an aligned bit
gives an aligned one, and the bits of the pages are free, but with a stride
below a word only those in the word of the first. -/
structure Found (b : Bitmap) (nbits stride endbit start bit : Nat) : Prop where
  lower : start ≤ bit
  upper : bit ≤ endbit
  aligned : ∀ base, 64 ∣ base → stride ∣ base + start → stride ∣ base + bit
  free : ∀ other, bit ≤ other → other < bit + nbits → 64 ≤ stride ∨ other / 64 = bit / 64 →
    b.bits other = false

variable {b : Bitmap} {nbits stride endbit start bit tries : Nat}

theorem found_searchWords (wide : 64 ≤ stride)
    (result : b.searchWords nbits stride endbit tries start = some bit) :
    Found b nbits stride endbit start bit := by
  fun_induction searchWords b nbits stride endbit tries start with
  | case1 | case2 => cases result
  | case3 tries start inside free =>
    cases result
    exact ⟨le_rfl, by omega, fun _ _ divides => divides,
      fun other lower upper _ => checkRange_iff.mp free other lower upper⟩
  | case4 tries start inside taken ih =>
    obtain ⟨lower, upper, aligned, free⟩ := ih result
    refine ⟨by omega, upper, fun base whole divides => aligned base whole ?_, free⟩
    rw [← Nat.add_assoc]
    exact Nat.dvd_add divides (dvd_refl stride)

theorem maskFree_iff {wordOffset : Nat} : b.maskFree nbits bit wordOffset = true ↔
    ∀ i, i < 64 → wordOffset ≤ i → i < wordOffset + nbits → b.bits (bit + i) = false := by
  simp only [maskFree, all_eq_true, mem_range, Bool.or_eq_true, Bool.not_eq_true',
    Bool.and_eq_false_iff, decide_eq_false_iff_not, Nat.not_le, Nat.not_lt]
  refine forall₂_congr fun i inside => ?_
  constructor
  · intro masked lower upper
    exact masked.resolve_left (by omega)
  · intro free
    by_cases inMask : wordOffset ≤ i ∧ i < wordOffset + nbits
    · exact .inr (free inMask.1 inMask.2)
    · exact .inl (by omega)

theorem found_searchOffsets {word wordOffset : Nat} (narrow : stride < 64) (atWord : 64 ∣ word)
    (inside : wordOffset < 64)
    (result : b.searchOffsets nbits stride endbit word tries wordOffset = some (some bit)) :
    Found b nbits stride endbit (word + wordOffset) bit := by
  fun_induction searchOffsets b nbits stride endbit word tries wordOffset with
  | case1 | case2 => cases result
  | case3 tries wordOffset reached free =>
    obtain rfl := Option.some.inj (Option.some.inj result)
    refine ⟨le_rfl, by omega, fun _ _ divides => divides, fun other lower upper same => ?_⟩
    have isFree := maskFree_iff.mp free (other - word) (by omega) (by omega) (by omega)
    rwa [Nat.add_sub_cancel' (by omega)] at isFree
  | case4 tries wordOffset reached taken more ih =>
    obtain ⟨lower, upper, aligned, free⟩ := ih more result
    refine ⟨by omega, upper, fun base whole divides => aligned base whole ?_, free⟩
    rw [← Nat.add_assoc, ← Nat.add_assoc]
    rw [← Nat.add_assoc] at divides
    exact Nat.dvd_add divides (dvd_refl stride)
  | case5 => cases result

theorem Found.of_nextWord (divides : stride ∣ 64)
    (found : Found b nbits stride endbit (start - start % 64 + 64) bit) :
    Found b nbits stride endbit start bit where
  lower := by
    have later := found.lower
    omega
  upper := found.upper
  aligned base whole _ := found.aligned base whole (dvd_trans divides (by omega))
  free := found.free

theorem found_searchBits (narrow : stride < 64) (divides : stride ∣ 64)
    (result : b.searchBits nbits stride endbit tries start = some bit) :
    Found b nbits stride endbit start bit := by
  fun_induction searchBits b nbits stride endbit tries start with
  | case1 | case2 => cases result
  | case3 tries start inside word full ih => exact (ih result).of_nextWord divides
  | case4 tries start inside word room found here =>
    subst result
    have atStart := found_searchOffsets narrow (by omega) (Nat.mod_lt _ (by decide)) here
    rwa [Nat.sub_add_cancel (Nat.mod_le _ _)] at atStart
  | case5 tries start inside word room next ih => exact (ih result).of_nextWord divides

theorem found_allocWithinRange {stop : Nat} {b' : Bitmap}
    (result : b.allocWithinRange nbits start stop = some (bit, b')) :
    b' = b.setRange bit nbits true ∧ bit + nbits ≤ min stop b.maxbits ∧
      Found b nbits (2 ^ findOrder nbits) (min stop b.maxbits - nbits) start bit := by
  simp only [allocWithinRange] at result
  split at result
  · cases result
  · obtain ⟨found, search, same⟩ := Option.map_eq_some_iff.mp result
    obtain ⟨rfl, rfl⟩ := Prod.mk.inj same
    have isFound : Found b nbits (2 ^ findOrder nbits) (min stop b.maxbits - nbits) start found := by
      split at search
      · rename_i wide
        exact found_searchWords wide search
      · rename_i narrow
        exact found_searchBits (by omega) (stride_dvd_word (by omega)) search
    have upper := isFound.upper
    exact ⟨rfl, by omega, isFound⟩

end Bitmap

end Jerboa.Kernel
