import Jerboa.MemorySize

/-!
# Volume sizes

`ParseSize` reads a signed number of 64 bits and multiplies it by its unit in 64
bits: a negative number passes, and a large product wraps.
-/

namespace Jerboa.Volume

open Vm

def suffixes : Char → Option Int
  | 'K' => some (2 ^ 10)
  | 'M' => some (2 ^ 20)
  | 'G' => some (2 ^ 30)
  | _ => none

/-- `ParseSize`; its error quotes the text. -/
def parseSize (s : String) : Except String Int :=
  match s.toList.getLast? with
  | none => .ok 0
  | some last =>
    match suffixes last with
    | some mul =>
      match atoi64 (String.ofList s.toList.dropLast) with
      | .error _ => .error s
      | .ok n => .ok ((n * mul).bmod (2 ^ 64))
    | none =>
      match atoi64 s with
      | .error _ => .error s
      | .ok n => .ok n

/-! ### What a size stands for -/

def sizeFactor (s : String) : Option Int :=
  s.toList.getLast?.bind suffixes

/-- The integer in the text, of any size. -/
def sizeNumber (s : String) : Option Int :=
  atoi (if (sizeFactor s).isSome then String.ofList s.toList.dropLast else s)

def sizeBytes (s : String) : Option Int :=
  (sizeNumber s).map (· * (sizeFactor s).getD 1)

/-- A result is the size that the text stands for, and not negative. -/
def SizeExact (s : String) : Prop :=
  ∀ n, parseSize s = .ok n → sizeBytes s = some n ∧ 0 ≤ n

variable {s : String} {n : Int}

theorem atoi64_eq_ok : atoi64 s = .ok n ↔ atoi s = some n ∧ -2 ^ 63 ≤ n ∧ n < 2 ^ 63 := by
  unfold atoi64
  cases atoi s with
  | none => simp
  | some value =>
    simp only [Option.some.injEq]
    split
    · rw [Except.ok.injEq]
      omega
    · simp only [reduceCtorEq, false_iff]
      omega

theorem suffixes_pos {last : Char} {mul : Int} (known : suffixes last = some mul) : 1 ≤ mul := by
  revert known
  fun_cases suffixes last <;> rintro ⟨⟩ <;> decide

theorem parseSize_eq_ok (nonempty : s ≠ "") :
    parseSize s = .ok n ↔ ∃ value, (sizeNumber s = some value ∧ -2 ^ 63 ≤ value ∧ value < 2 ^ 63) ∧
      n = (value * (sizeFactor s).getD 1).bmod (2 ^ 64) := by
  have reads (numeral : String) (scale : Int → Int) :
      (match atoi64 numeral with
        | .error _ => .error s
        | .ok n => .ok (scale n) : Except String Int) = .ok n ↔
        ∃ value, (atoi numeral = some value ∧ -2 ^ 63 ≤ value ∧ value < 2 ^ 63) ∧
          n = scale value := by
    simp only [← atoi64_eq_ok]
    cases atoi64 numeral <;> simp [eq_comm]
  obtain ⟨last, isLast⟩ : ∃ last, s.toList.getLast? = some last := by
    refine ⟨_, List.getLast?_eq_some_getLast ?_⟩
    simpa using nonempty
  simp only [parseSize, sizeNumber, sizeFactor, isLast, Option.bind_some]
  cases suffixes last with
  | some mul => exact reads ..
  | none =>
    refine (reads s id).trans (exists_congr fun value => and_congr_right fun bounds => ?_)
    simp only [Option.getD_none, Int.mul_one]
    rw [Int.bmod_eq_of_le (by omega) (by omega), id]

/-- A size is read as it stands exactly if its number, should it fit in 64 bits,
is not negative and the product with the unit fits as well. -/
theorem size_exact_iff (nonempty : s ≠ "") :
    SizeExact s ↔ ∀ value, sizeNumber s = some value → -2 ^ 63 ≤ value → value < 2 ^ 63 →
      0 ≤ value ∧ value * (sizeFactor s).getD 1 < 2 ^ 63 := by
  have positive : 1 ≤ (sizeFactor s).getD 1 := by
    cases isFactor : sizeFactor s with
    | none => exact le_rfl
    | some mul =>
      obtain ⟨last, -, known⟩ := Option.bind_eq_some_iff.mp isFactor
      exact suffixes_pos known
  simp only [SizeExact, parseSize_eq_ok nonempty, sizeBytes]
  generalize (sizeFactor s).getD 1 = mul at positive ⊢
  constructor
  · intro exact value isNumber lower upper
    obtain ⟨same, notNegative⟩ := exact _ ⟨value, ⟨isNumber, lower, upper⟩, rfl⟩
    rw [isNumber, Option.map_some, Option.some.injEq] at same
    have bound := @Int.bmod_lt (value * mul) (2 ^ 64) (by decide)
    rw [← same] at notNegative bound
    exact ⟨nonneg_of_mul_nonneg_left notNegative (by omega), by omega⟩
  · rintro fits n ⟨value, ⟨isNumber, lower, upper⟩, rfl⟩
    obtain ⟨notNegative, small⟩ := fits value isNumber lower upper
    have product : 0 ≤ value * mul := Int.mul_nonneg notNegative (by omega)
    rw [Int.bmod_eq_of_le (by omega) (by omega), isNumber]
    exact ⟨rfl, product⟩

theorem size_exact_iff_512M : parseSize "512M" = .ok 536870912 ∧ SizeExact "512M" := by
  refine ⟨by decide, (size_exact_iff (by decide)).mpr ?_⟩
  have number : sizeNumber "512M" = some 512 := by decide
  have factor : (sizeFactor "512M").getD 1 = 2 ^ 20 := by decide
  rw [number, factor]
  rintro value ⟨⟩ - -
  decide

/-- A product that wraps to 1024, and a negative size. -/
theorem size_not_exact :
    parseSize "18014398509481985K" = .ok 1024 ∧ ¬ SizeExact "18014398509481985K" ∧
      parseSize "-1K" = .ok (-1024) ∧ ¬ SizeExact "-1K" := by
  have wraps : parseSize "18014398509481985K" = .ok 1024 := by decide
  have negative : parseSize "-1K" = .ok (-1024) := by decide
  refine ⟨wraps, fun exact => ?_, negative, fun exact => ?_⟩
  · exact absurd (exact _ wraps).1 (by decide)
  · exact absurd (exact _ negative).2 (by decide)

end Jerboa.Volume
