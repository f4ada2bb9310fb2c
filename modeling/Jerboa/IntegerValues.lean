import Jerboa.KernelText

/-!
# Integers as values

The 64-bit integers that tuples hold: tagged immediates up to 61 bits, and
decimal text beyond.  The bound of the immediates is inclusive, and `2 ^ 61` has
the bit that is the sign of an immediate.
-/

namespace Jerboa.Kernel

open List

/-- A 64-bit word read as an `s64`. -/
def signed (word : Nat) : Int :=
  if word < 2 ^ 63 then word else word - 2 ^ 64

inductive IntegerValue
  | immediate (word : Nat)
  | indirect (text : List Char)
deriving DecidableEq, Repr

/-- `print_number` in base 10 without padding. -/
def printNumber (x : Nat) : List Char :=
  if 0 < x / 10 then printNumber (x / 10) ++ [Nat.digitChar (x % 10)]
  else [Nat.digitChar (x % 10)]

def printSignedNumber (x : Int) : List Char :=
  if x < 0 then '-' :: printNumber (-x % 2 ^ 64).toNat else printNumber x.toNat

def parseSignedInt : List Char → Option Int
  | '-' :: text => (parseInt 10 text).map fun result => signed ((2 ^ 64 - result) % 2 ^ 64)
  | text => (parseInt 10 text).map signed

/-- `tagged_immediate_unsigned` and `tagged_immediate_signed`: the lower 62 bits
over the encoding. -/
def taggedImmediate (n : Int) : Nat :=
  (n % 2 ^ 62).toNat * 4 + 1

def immMax : Int := 2 ^ 61

def immSintMin : Int := -2 ^ 61

def valueFromU64 (n : Nat) : IntegerValue :=
  if immMax < n then .indirect (printNumber n) else .immediate (taggedImmediate n)

def valueFromS64 (n : Int) : IntegerValue :=
  if immMax < n ∨ n < immSintMin then .indirect (printSignedNumber n)
  else .immediate (taggedImmediate n)

def u64FromValue : IntegerValue → Option Nat
  | .immediate word => some (word / 4)
  | .indirect text => parseInt 10 text

def s64FromValue : IntegerValue → Option Int
  | .immediate word => some (signed word / 4)
  | .indirect text => parseSignedInt text

def isSignedIntegerValue : IntegerValue → Bool
  | .immediate word => signed word / 4 < 0
  | .indirect text => text.head? = some '-'

/-! ### Decimal text -/

theorem digitOf_digitChar : ∀ r < 10, digitOf (Nat.digitChar r) = some r := by
  decide

theorem leadingDigits_printNumber (x : Nat) (rest : List Char) :
    (leadingDigits 10 (printNumber x ++ rest)).foldl
        (fun result v => (result * 10 + v) % 2 ^ 64) 0 =
      (leadingDigits 10 rest).foldl (fun result v => (result * 10 + v) % 2 ^ 64) (x % 2 ^ 64) := by
  fun_induction printNumber x generalizing rest with
  | case1 x more ih =>
    have below : x % 10 < 10 := Nat.mod_lt _ (by decide)
    rw [append_assoc, ih]
    simp only [singleton_append, leadingDigits, digitOf_digitChar _ below, below, if_true,
      foldl_cons]
    congr 1
    omega
  | case2 x last =>
    have below : x % 10 < 10 := Nat.mod_lt _ (by decide)
    simp only [singleton_append, leadingDigits, digitOf_digitChar _ below, below, if_true,
      foldl_cons, Nat.zero_mul, Nat.zero_add]
    congr 2
    omega

theorem printNumber_head (x : Nat) : ∃ r < 10, (printNumber x).head? = some (Nat.digitChar r) := by
  fun_induction printNumber x with
  | case1 x more ih =>
    obtain ⟨r, below, head⟩ := ih
    exact ⟨r, below, by rw [head?_append, head]; rfl⟩
  | case2 x last => exact ⟨x % 10, Nat.mod_lt _ (by decide), rfl⟩

theorem parseInt_printNumber {x : Nat} (word : x < 2 ^ 64) :
    parseInt 10 (printNumber x) = some x := by
  obtain ⟨r, below, head⟩ := printNumber_head x
  obtain ⟨rest, isText⟩ := head?_eq_some_iff.mp head
  have value := leadingDigits_printNumber x []
  rw [append_nil] at value
  rw [isText] at value ⊢
  simp only [parseInt, leadingDigits, digitOf_digitChar r below, below, if_true] at value ⊢
  rw [value, foldl_nil, Nat.mod_eq_of_lt word]

theorem printNumber_unsigned (x : Nat) : (printNumber x).head? ≠ some '-' := by
  obtain ⟨r, below, head⟩ := printNumber_head x
  have digits : ∀ r < 10, Nat.digitChar r ≠ '-' := by decide
  simp [head, digits r below]

theorem parseSignedInt_printNumber {x : Nat} (word : x < 2 ^ 64) :
    parseSignedInt (printNumber x) = some (signed x) := by
  unfold parseSignedInt
  split
  · rename_i text isText
    exact absurd (by rw [isText]; rfl) (printNumber_unsigned x)
  · rw [parseInt_printNumber word]
    rfl

/-! ### Round trips -/

theorem signed_taggedImmediate {n : Int} (low : immSintMin ≤ n) (high : n ≤ immMax) :
    signed (taggedImmediate n) / 4 = if n = 2 ^ 61 then -2 ^ 61 else n := by
  unfold signed taggedImmediate
  unfold immSintMin at low
  unfold immMax at high
  split_ifs <;> omega

theorem u64_from_value_iff {n : Nat} (word : n < 2 ^ 64) :
    (u64FromValue (valueFromU64 n) = some n ∧ isSignedIntegerValue (valueFromU64 n) = false) ↔
      n ≠ 2 ^ 61 := by
  unfold valueFromU64
  split
  · rename_i large
    unfold immMax at large
    simp only [u64FromValue, isSignedIntegerValue, parseInt_printNumber word,
      printNumber_unsigned, decide_false, and_self, true_iff]
    omega
  · rename_i small
    have kept : taggedImmediate n / 4 = n := by
      unfold taggedImmediate
      unfold immMax at small
      omega
    simp only [u64FromValue, isSignedIntegerValue, kept, true_and, decide_eq_false_iff_not,
      signed_taggedImmediate (show immSintMin ≤ (n : Int) by unfold immSintMin; omega)
        (not_lt.mp small)]
    split <;> omega

theorem s64_from_value_iff {n : Int} (low : -2 ^ 63 ≤ n) (high : n < 2 ^ 63) :
    (s64FromValue (valueFromS64 n) = some n ∧
      (isSignedIntegerValue (valueFromS64 n) = true ↔ n < 0)) ↔ n ≠ 2 ^ 61 := by
  unfold valueFromS64
  split
  · rename_i large
    unfold immMax immSintMin at large
    refine iff_of_true ?_ (by omega)
    unfold printSignedNumber
    split
    · rename_i negative
      have word : (-n % 2 ^ 64).toNat < 2 ^ 64 := by omega
      simp only [s64FromValue, isSignedIntegerValue, parseSignedInt, parseInt_printNumber word,
        Option.map_some, head?_cons, decide_true, negative, and_true, signed,
        Option.some.injEq]
      split_ifs <;> omega
    · rename_i positive
      have word : n.toNat < 2 ^ 64 := by omega
      simp only [s64FromValue, isSignedIntegerValue, parseSignedInt_printNumber word,
        printNumber_unsigned, decide_false, positive, Bool.false_eq_true, and_true, signed,
        Option.some.injEq]
      split_ifs <;> omega
  · rename_i small
    obtain ⟨upper, lower⟩ := not_or.mp small
    simp only [s64FromValue, isSignedIntegerValue, Option.some.injEq, decide_eq_true_eq,
      signed_taggedImmediate (not_lt.mp lower) (not_lt.mp upper)]
    split <;> omega

/-- Every integer comes back from its value with its sign, as a `u64` and as an
`s64`, exactly if it is not `2 ^ 61`. -/
theorem integer_values_iff (n : BitVec 64) :
    ((u64FromValue (valueFromU64 n.toNat) = some n.toNat ∧
      isSignedIntegerValue (valueFromU64 n.toNat) = false) ↔ n.toNat ≠ 2 ^ 61) ∧
    ((s64FromValue (valueFromS64 n.toInt) = some n.toInt ∧
      (isSignedIntegerValue (valueFromS64 n.toInt) = true ↔ n.toInt < 0)) ↔
        n.toInt ≠ 2 ^ 61) :=
  ⟨u64_from_value_iff n.isLt, s64_from_value_iff n.le_toInt n.toInt_lt⟩

/-- The bound is inclusive: its immediate has the sign bit set. -/
theorem immediate_bound_negative :
    u64FromValue (valueFromU64 (2 ^ 61)) = some (2 ^ 61) ∧
      isSignedIntegerValue (valueFromU64 (2 ^ 61)) = true ∧
      s64FromValue (valueFromS64 (2 ^ 61)) = some (-2 ^ 61) := by
  decide

end Jerboa.Kernel
