import Jerboa.DelimitedText
import Jerboa.VMConfig
import Mathlib.Tactic

/-!
# Memory sizes

`validateVMConfig` accepts a memory size as QEMU writes it, and the Firecracker
backend turns the same text into MiB with `parseMiB`, which looks at the last
character only.
-/

namespace Jerboa.Vm

open DelimitedText List

inductive ParseMiBError
  | atoi (text : String)
  | lessThanMiB (memory : String)
deriving DecidableEq, Repr

/-- `strconv.Atoi` on a platform whose `int` has 64 bits. -/
def atoi64 (text : String) : Except ParseMiBError Int :=
  match atoi text with
  | none => .error (.atoi text)
  | some value =>
    if -9223372036854775808 ≤ value ∧ value ≤ 9223372036854775807 then .ok value
    else .error (.atoi text)

/-- `parseMiB`; the product of the gigabyte branch wraps. -/
def parseMiB (memory : String) : Except ParseMiBError Int :=
  let mem := trimSpace memory.toList
  match mem.getLast? with
  | none => .ok 128
  | some suffix =>
    let front := String.ofList mem.dropLast
    if suffix = 'M' ∨ suffix = 'm' then atoi64 front
    else if suffix = 'G' ∨ suffix = 'g' then
      (atoi64 front).map fun n => (n * 1024).bmod 18446744073709551616
    else if suffix = 'K' ∨ suffix = 'k' then
      match atoi64 front with
      | .error e => .error e
      | .ok n =>
        if n < 1024 then .error (.lessThanMiB (String.ofList mem)) else .ok (n / 1024)
    else atoi64 (String.ofList mem)

def memoryDigits (memory : String) : List Char :=
  memory.toList.takeWhile isDigit

def memoryUnit (memory : String) : List Char :=
  memory.toList.dropWhile isDigit

def decimalValue (digits : List Char) : Nat :=
  digits.foldl (fun value c => value * 10 + (c.toNat - '0'.toNat)) 0

def unitBytes (unit : List Char) : Nat :=
  match unit.head?.map Char.toUpper with
  | some 'K' => 2 ^ 10
  | some 'G' => 2 ^ 30
  | some 'T' => 2 ^ 40
  | _ => 2 ^ 20

def memoryBytes (memory : String) : Nat :=
  decimalValue (memoryDigits memory) * unitBytes (memoryUnit memory)

def knownUnits : List (List Char) :=
  [[], ['K'], ['k'], ['M'], ['m'], ['G'], ['g']]

/-! ### Accepted sizes -/

/-- Every unit that `memoryRe` accepts. -/
def acceptedUnits : List (List Char) :=
  [] :: (['K', 'k', 'M', 'm', 'G', 'g', 'T', 't'].flatMap fun unit =>
    [[unit], [unit, 'i'], [unit, 'B'], [unit, 'b'], [unit, 'i', 'B'], [unit, 'i', 'b']])

theorem mem_acceptedUnits {unit : List Char} (accepted : matchesMemoryUnit unit = true) :
    unit ∈ acceptedUnits := by
  cases unit with
  | nil => decide
  | cons first rest =>
    simp only [matchesMemoryUnit, Bool.and_eq_true, contains_iff_mem] at accepted
    obtain ⟨letter, suffix⟩ := accepted
    apply mem_cons_of_mem
    refine mem_flatMap.mpr ⟨first, letter, ?_⟩
    split at suffix <;> simp_all

theorem matchesMemory_of_valid {cfg : Config} (valid : validateVMConfig cfg = .ok ()) :
    matchesMemory cfg.memory = true := by
  unfold validateVMConfig at valid
  obtain ⟨-, valid⟩ := ite_error_eq_ok.mp valid
  obtain ⟨-, valid⟩ := ite_error_eq_ok.mp valid
  obtain ⟨accepted, -⟩ := ite_error_eq_ok.mp valid
  simpa using accepted

/-- A memory size that passes validation: a positive numeral and a unit. -/
structure AcceptedSize (memory : String) : Prop where
  text : memory.toList = memoryDigits memory ++ memoryUnit memory
  digits : ∀ c ∈ memoryDigits memory, isDigit c = true
  nonempty : memoryDigits memory ≠ []
  positive : 0 < decimalValue (memoryDigits memory)
  unit : memoryUnit memory ∈ acceptedUnits

theorem le_foldl_digits (digits : List Char) (value : Nat) :
    value ≤ digits.foldl (fun value c => value * 10 + (c.toNat - '0'.toNat)) value := by
  induction digits generalizing value with
  | nil => exact le_refl _
  | cons c rest ih =>
    rw [foldl_cons]
    exact le_trans (by omega) (ih _)

theorem digit_pos {c : Char} (digit : isDigit c = true) (nonzero : c ≠ '0') :
    0 < c.toNat - '0'.toNat := by
  simp only [isDigit, Bool.and_eq_true, decide_eq_true_eq, Char.le_def] at digit
  have low : '0'.toNat ≤ c.toNat := digit.1
  have apart : c.toNat ≠ '0'.toNat := by
    intro same
    exact nonzero (Char.toNat_inj.mp same)
  omega

variable {memory : String} {digits : List Char} {letter : Char}

theorem acceptedSize (accepted : matchesMemory memory = true) :
    AcceptedSize memory := by
  unfold matchesMemory at accepted
  split at accepted
  · cases accepted
  · rename_i first rest text
    simp only [Bool.and_eq_true, decide_eq_true_eq] at accepted
    obtain ⟨⟨digit, nonzero⟩, unit⟩ := accepted
    have digits : memoryDigits memory = first :: rest.takeWhile isDigit := by
      simp [memoryDigits, text, digit]
    constructor
    · exact (takeWhile_append_dropWhile).symm
    · intro c inside
      exact mem_takeWhile_imp inside
    · simp [digits]
    · rw [digits, decimalValue, foldl_cons]
      have first_pos := digit_pos digit nonzero
      exact lt_of_lt_of_le (by omega) (le_foldl_digits _ _)
    · have behind : memoryUnit memory = rest.dropWhile isDigit := by
        simp [memoryUnit, text, digit]
      rw [behind]
      exact mem_acceptedUnits unit

/-! ### Reading numerals -/

theorem atoiDigits_eq_foldl (all : ∀ c ∈ digits, isDigit c = true) (value : Nat) :
    atoiDigits digits value =
      some (digits.foldl (fun value c => value * 10 + (c.toNat - '0'.toNat)) value) := by
  induction digits generalizing value with
  | nil => rfl
  | cons c rest ih =>
    have digit := all c mem_cons_self
    rw [atoiDigits, if_pos digit, foldl_cons]
    exact ih (forall_mem_cons.mp all).2 _

theorem atoiDigits_append (all : ∀ c ∈ digits, isDigit c = true) (notDigit : isDigit letter = false)
    (rest : List Char) (value : Nat) :
    atoiDigits (digits ++ letter :: rest) value = none := by
  induction digits generalizing value with
  | nil => simp [atoiDigits, notDigit]
  | cons c digits ih =>
    have digit := all c mem_cons_self
    rw [cons_append, atoiDigits, if_pos digit]
    exact ih (forall_mem_cons.mp all).2 _

theorem atoi_of_digit {first : Char} (digit : isDigit first = true) (rest : List Char) :
    atoi (String.ofList (first :: rest)) = (atoiDigits (first :: rest) 0).map Int.ofNat := by
  have unsigned : first ≠ '+' ∧ first ≠ '-' := by
    constructor <;> rintro rfl <;> exact absurd digit (by decide)
  simp only [atoi, String.toList_ofList]
  split <;> simp_all

theorem atoi64_digits (all : ∀ c ∈ digits, isDigit c = true) (nonempty : digits ≠ [])
    (small : decimalValue digits ≤ 9223372036854775807) :
    atoi64 (String.ofList digits) = .ok (decimalValue digits) := by
  cases digits with
  | nil => exact absurd rfl nonempty
  | cons first rest =>
    have read : atoi (String.ofList (first :: rest)) =
        some (Int.ofNat (decimalValue (first :: rest))) := by
      rw [atoi_of_digit (all first mem_cons_self), atoiDigits_eq_foldl all]
      rfl
    simp only [atoi64, read]
    rw [if_pos (by simp only [Int.ofNat_eq_natCast]; omega)]
    rfl

theorem atoi64_unit (all : ∀ c ∈ digits, isDigit c = true) (nonempty : digits ≠ [])
    (notDigit : isDigit letter = false) (rest : List Char) :
    ∃ e, atoi64 (String.ofList (digits ++ letter :: rest)) = .error e := by
  cases digits with
  | nil => exact absurd rfl nonempty
  | cons first tail =>
    have read : atoi (String.ofList (first :: tail ++ letter :: rest)) = none := by
      rw [cons_append, atoi_of_digit (all first mem_cons_self), ← cons_append,
        atoiDigits_append all notDigit]
      rfl
    simp only [atoi64, read]
    exact ⟨_, rfl⟩

/-! ### Reading sizes -/

theorem isSpace_of_isDigit {c : Char} (digit : isDigit c = true) : isSpace c = false := by
  simp only [isDigit, Bool.and_eq_true, decide_eq_true_eq, Char.le_def] at digit
  have low : 48 ≤ c.toNat := digit.1
  have high : c.toNat ≤ 57 := digit.2
  simp only [isSpace, isSpaceCode, Bool.or_eq_false_iff, Bool.and_eq_false_iff, decide_eq_false_iff_not]
  omega

theorem isSpace_of_acceptedUnit : ∀ unit ∈ acceptedUnits, ∀ c ∈ unit, isSpace c = false := by
  have checked : (acceptedUnits.all fun unit => unit.all fun c => !isSpace c) = true := by decide
  simpa only [all_eq_true, Bool.not_eq_true'] using checked

theorem AcceptedSize.trimSpace_eq (size : AcceptedSize memory) :
    trimSpace memory.toList = memoryDigits memory ++ memoryUnit memory := by
  have visible : ∀ c ∈ memory.toList, isSpace c = false := by
    intro c inside
    rw [size.text, mem_append] at inside
    rcases inside with digit | unit
    · exact isSpace_of_isDigit (size.digits c digit)
    · exact isSpace_of_acceptedUnit _ size.unit c unit
  rw [← size.text]
  apply trimSpace_eq_self
  · intro first found
    exact visible first (mem_of_head? found)
  · intro final found
    exact visible final (mem_of_getLast? found)

theorem parseMiB_of_suffix {front : List Char} {suffix : Char}
    (trimmed : trimSpace memory.toList = front ++ [suffix]) :
    parseMiB memory =
      if suffix = 'M' ∨ suffix = 'm' then atoi64 (String.ofList front)
      else if suffix = 'G' ∨ suffix = 'g' then
        (atoi64 (String.ofList front)).map fun n => (n * 1024).bmod 18446744073709551616
      else if suffix = 'K' ∨ suffix = 'k' then
        match atoi64 (String.ofList front) with
        | .error e => .error e
        | .ok n =>
          if n < 1024 then .error (.lessThanMiB (String.ofList (front ++ [suffix])))
          else .ok (n / 1024)
      else atoi64 (String.ofList (front ++ [suffix])) := by
  simp [parseMiB, trimmed]

theorem suffix_of_unknown : ∀ unit ∈ acceptedUnits, unit ∉ knownUnits →
    ∃ first ∈ unit.head?, ∃ suffix ∈ unit.getLast?, isDigit first = false ∧
      suffix ∉ ['M', 'm', 'G', 'g', 'K', 'k'] := by
  have checked : (acceptedUnits.all fun unit => decide (unit ∈ knownUnits) ||
      (unit.head?.any fun first => !isDigit first) &&
        unit.getLast?.any fun suffix => decide (suffix ∉ ['M', 'm', 'G', 'g', 'K', 'k'])) = true := by
    decide
  intro unit accepted unknown
  have both := all_eq_true.mp checked unit accepted
  rw [decide_eq_false unknown, Bool.false_or, Bool.and_eq_true, Option.any_eq_true,
    Option.any_eq_true] at both
  obtain ⟨⟨first, begins, letter⟩, suffix, ends, other⟩ := both
  exact ⟨first, begins, suffix, ends, by simpa using letter, of_decide_eq_true other⟩

theorem parseMiB_unknown (size : AcceptedSize memory) (unknown : memoryUnit memory ∉ knownUnits) :
    ∃ e, parseMiB memory = .error e := by
  obtain ⟨first, begins, suffix, ends, letter, other⟩ :=
    suffix_of_unknown _ size.unit unknown
  have trimmed : trimSpace memory.toList =
      (memoryDigits memory ++ (memoryUnit memory).dropLast) ++ [suffix] := by
    rw [size.trimSpace_eq, append_assoc, dropLast_append_getLast? _ ends]
  have unit : memoryUnit memory = first :: (memoryUnit memory).tail := by
    cases behind : memoryUnit memory with
    | nil => simp [behind] at begins
    | cons head tail => simp_all
  simp only [mem_cons, not_mem_nil, or_false, not_or] at other
  rw [parseMiB_of_suffix trimmed, ← trimmed, size.trimSpace_eq]
  simp only [other, false_or, if_false]
  rw [unit]
  exact atoi64_unit size.digits size.nonempty letter _

theorem parseMiB_bare (size : AcceptedSize memory) (bare : memoryUnit memory = [])
    (small : decimalValue (memoryDigits memory) ≤ 9223372036854775807) :
    parseMiB memory = .ok (decimalValue (memoryDigits memory)) := by
  have trimmed : trimSpace memory.toList =
      (memoryDigits memory).dropLast ++ [(memoryDigits memory).getLast size.nonempty] := by
    rw [size.trimSpace_eq, bare, append_nil, dropLast_append_getLast]
  have digit := size.digits _ (getLast_mem size.nonempty)
  have other : ∀ letter ∈ ['M', 'm', 'G', 'g', 'K', 'k'],
      (memoryDigits memory).getLast size.nonempty ≠ letter := by
    intro letter listed same
    have letters : (['M', 'm', 'G', 'g', 'K', 'k'].all fun c => !isDigit c) = true := by decide
    have notDigit := all_eq_true.mp letters letter listed
    rw [same] at digit
    simp [digit] at notDigit
  simp only [forall_mem_cons, not_mem_nil, false_imp_iff, implies_true, and_true,
    ne_eq] at other
  rw [parseMiB_of_suffix trimmed, ← trimmed, size.trimSpace_eq, bare, append_nil]
  simp only [other, or_self, if_false]
  exact atoi64_digits size.digits size.nonempty small

theorem AcceptedSize.trimSpace_letter (size : AcceptedSize memory)
    (unit : memoryUnit memory = [letter]) :
    trimSpace memory.toList = memoryDigits memory ++ [letter] := by
  rw [size.trimSpace_eq, unit]

section Letters

variable {memory : String} (size : AcceptedSize memory) {letter : Char}
  (unit : memoryUnit memory = [letter])

include size unit

theorem parseMiB_mega (mega : letter = 'M' ∨ letter = 'm')
    (small : decimalValue (memoryDigits memory) ≤ 9223372036854775807) :
    parseMiB memory = .ok (decimalValue (memoryDigits memory)) := by
  rw [parseMiB_of_suffix (size.trimSpace_letter unit), if_pos mega]
  exact atoi64_digits size.digits size.nonempty small

theorem parseMiB_giga (giga : letter = 'G' ∨ letter = 'g')
    (small : decimalValue (memoryDigits memory) * 1024 ≤ 9223372036854775807) :
    parseMiB memory = .ok (decimalValue (memoryDigits memory) * 1024) := by
  have read := atoi64_digits size.digits size.nonempty (by omega)
  have notMega : ¬ (letter = 'M' ∨ letter = 'm') := by
    rcases giga with rfl | rfl <;> decide
  rw [parseMiB_of_suffix (size.trimSpace_letter unit), if_neg notMega, if_pos giga, read]
  simp only [Except.map]
  rw [Int.bmod_eq_of_le (by omega) (by omega)]

theorem parseMiB_kilo (kilo : letter = 'K' ∨ letter = 'k')
    (large : 1024 ≤ decimalValue (memoryDigits memory))
    (small : decimalValue (memoryDigits memory) ≤ 9223372036854775807) :
    parseMiB memory = .ok (decimalValue (memoryDigits memory) / 1024) := by
  have read := atoi64_digits size.digits size.nonempty small
  have notMega : ¬ (letter = 'M' ∨ letter = 'm') := by
    rcases kilo with rfl | rfl <;> decide
  have notGiga : ¬ (letter = 'G' ∨ letter = 'g') := by
    rcases kilo with rfl | rfl <;> decide
  rw [parseMiB_of_suffix (size.trimSpace_letter unit), if_neg notMega, if_neg notGiga,
    if_pos kilo, read]
  simp only
  rw [if_neg (by omega)]

end Letters

theorem parseMiB_known (size : AcceptedSize memory) (known : memoryUnit memory ∈ knownUnits)
    {mib : Nat} (small : mib < 2 ^ 31) (whole : memoryBytes memory = mib * 2 ^ 20) :
    parseMiB memory = .ok mib := by
  have positive := size.positive
  have kibibyte : unitBytes ['K'] = 2 ^ 10 ∧ unitBytes ['k'] = 2 ^ 10 := by decide
  have mebibyte : unitBytes [] = 2 ^ 20 ∧ unitBytes ['M'] = 2 ^ 20 ∧ unitBytes ['m'] = 2 ^ 20 := by
    decide
  have gibibyte : unitBytes ['G'] = 2 ^ 30 ∧ unitBytes ['g'] = 2 ^ 30 := by decide
  rw [memoryBytes] at whole
  simp only [knownUnits, mem_cons, not_mem_nil, or_false] at known
  rcases known with unit | unit | unit | unit | unit | unit | unit
  all_goals rw [unit] at whole
  · rw [mebibyte.1] at whole
    rw [parseMiB_bare size unit (by omega)]
    congr 2
    omega
  · rw [kibibyte.1] at whole
    rw [parseMiB_kilo size unit (.inl rfl) (by omega) (by omega)]
    congr 1
    omega
  · rw [kibibyte.2] at whole
    rw [parseMiB_kilo size unit (.inr rfl) (by omega) (by omega)]
    congr 1
    omega
  · rw [mebibyte.2.1] at whole
    rw [parseMiB_mega size unit (.inl rfl) (by omega)]
    congr 2
    omega
  · rw [mebibyte.2.2] at whole
    rw [parseMiB_mega size unit (.inr rfl) (by omega)]
    congr 2
    omega
  · rw [gibibyte.1] at whole
    rw [parseMiB_giga size unit (.inl rfl) (by omega)]
    congr 1
    omega
  · rw [gibibyte.2] at whole
    rw [parseMiB_giga size unit (.inr rfl) (by omega)]
    congr 1
    omega

/-- A size that passes validation and is a whole number of MiB is read by
`parseMiB` as that number exactly when it has no unit, or one of the letters K,
M and G alone. -/
theorem parseMiB_agrees_iff {cfg : Config} (valid : validateVMConfig cfg = .ok ()) {mib : Nat}
    (whole : memoryBytes cfg.memory = mib * 2 ^ 20) (small : mib < 2 ^ 31) :
    parseMiB cfg.memory = .ok (mib : Int) ↔ memoryUnit cfg.memory ∈ knownUnits := by
  have size := acceptedSize (matchesMemory_of_valid valid)
  constructor
  · intro agrees
    by_contra unknown
    obtain ⟨e, failed⟩ := parseMiB_unknown size unknown
    rw [failed] at agrees
    cases agrees
  · intro known
    exact parseMiB_known size known small whole

def sized (memory : String) : Config :=
  { Config.zero with imagePath := "/img", memory := memory }

theorem parseMiB_agrees_iff_1G :
    parseMiB "1G" = .ok 1024 ↔ memoryUnit "1G" ∈ knownUnits :=
  @parseMiB_agrees_iff (sized "1G") (by decide) 1024 (by decide +kernel) (by decide)

/-- The size that the comment on the pattern gives as an example. -/
theorem parseMiB_rejects_2GiB :
    validateVMConfig (sized "2GiB") = .ok () ∧ memoryBytes "2GiB" = 2048 * 2 ^ 20 ∧
      parseMiB "2GiB" = .error (.atoi "2GiB") := by
  decide

end Jerboa.Vm
