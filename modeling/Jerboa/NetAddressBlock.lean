import Jerboa.NetAddressText

/-!
# CIDR blocks as intervals of numbers

An IPv4 address is a number below `2 ^ 32`, and an IPv4 block of prefix length
`p` is an aligned interval of `2 ^ (32 - p)` of them.  The byte-wise mask
comparisons of `IPNet.contains` are shown to decide membership in the
interval.
-/

namespace NetAddress

def bytesOf (value : Nat) : IP :=
  [UInt8.ofNat (value / 16777216), UInt8.ofNat (value / 65536),
    UInt8.ofNat (value / 256), UInt8.ofNat value]

def blockSize (prefixLength : Nat) : Nat :=
  2 ^ (32 - prefixLength)

/-- An IPv4 block in canonical form: the network number has no host bits. -/
structure IsBlock (block : IPNet) (base prefixLength : Nat) : Prop where
  prefix_le : prefixLength ≤ 32
  base_lt : base < 4294967296
  aligned : blockSize prefixLength ∣ base
  ip_eq : block.ip = bytesOf base
  mask_eq : block.mask = cidrMask prefixLength 32

theorem bytesOf_injective {first second : Nat}
    (firstLt : first < 4294967296) (secondLt : second < 4294967296)
    (same : bytesOf first = bytesOf second) : first = second := by
  simp only [bytesOf, List.cons.injEq, and_true, ← UInt8.toNat_inj,
    UInt8.toNat_ofNat'] at same
  omega

theorem exists_bytesOf (a b c d : UInt8) :
    ∃ value < 4294967296, [a, b, c, d] = bytesOf value := by
  have ha := a.toNat_lt
  have hb := b.toNat_lt
  have hc := c.toNat_lt
  have hd := d.toNat_lt
  refine ⟨a.toNat * 16777216 + b.toNat * 65536 + c.toNat * 256 + d.toNat,
    by omega, ?_⟩
  simp only [bytesOf, List.cons.injEq, and_true, ← UInt8.toNat_inj,
    UInt8.toNat_ofNat']
  omega

/-- The mask byte that starts with `ones` ones, all of them when there are
eight or more. -/
def onesByte (ones : Nat) : UInt8 :=
  if 8 ≤ ones then 255 else maskByte ones

theorem onesByte_min (ones : Nat) : onesByte ones = onesByte (min ones 8) := by
  by_cases full : 8 ≤ ones
  · simp [onesByte, full]
  · rw [Nat.min_eq_left (by omega)]

theorem cidrMaskBytes_succ (length ones : Nat) :
    cidrMaskBytes (length + 1) ones =
      onesByte ones :: cidrMaskBytes length (ones - 8) := by
  rw [cidrMaskBytes, onesByte]
  split
  · rfl
  · rw [(by omega : ones - 8 = 0)]

theorem cidrMaskBytes_length (length ones : Nat) :
    (cidrMaskBytes length ones).length = length := by
  induction length generalizing ones with
  | zero => rfl
  | succ length ih => rw [cidrMaskBytes_succ, List.length_cons, ih]

theorem cidrMask_eq (prefixLength : Nat) :
    cidrMask prefixLength 32 =
      [onesByte prefixLength, onesByte (prefixLength - 8),
        onesByte (prefixLength - 16), onesByte (prefixLength - 24)] := by
  change cidrMaskBytes 4 prefixLength = _
  simp only [cidrMaskBytes_succ, Nat.sub_sub]
  rfl

theorem toNat_and_onesByte {byte : Nat} (small : byte < 256) (ones : Nat) :
    (UInt8.ofNat byte &&& onesByte ones).toNat =
      byte / 2 ^ (8 - ones) * 2 ^ (8 - ones) := by
  have table : ∀ byte < 256, ∀ ones < 9,
      (UInt8.ofNat byte &&& onesByte ones).toNat =
        byte / 2 ^ (8 - ones) * 2 ^ (8 - ones) := by
    decide +kernel
  rw [onesByte_min, (by omega : 8 - ones = 8 - min ones 8)]
  exact table byte small (min ones 8) (by omega)

theorem and_onesByte_eq_iff (first second ones : Nat) :
    UInt8.ofNat first &&& onesByte ones = UInt8.ofNat second &&& onesByte ones ↔
      first % 256 / 2 ^ (8 - ones) = second % 256 / 2 ^ (8 - ones) := by
  have reduce (value : Nat) : UInt8.ofNat value = UInt8.ofNat (value % 256) := by
    apply UInt8.toNat_inj.mp
    simp
  rw [reduce first, reduce second, ← UInt8.toNat_inj,
    toNat_and_onesByte (Nat.mod_lt _ (by omega)),
    toNat_and_onesByte (Nat.mod_lt _ (by omega))]
  constructor
  · intro same
    exact Nat.eq_of_mul_eq_mul_right (Nat.two_pow_pos _) same
  · intro same
    rw [same]

/-- A prefix ends within the first `width` bits or in the byte behind them. -/
theorem leadingBits_cases (width prefixLength : Nat) :
    (2 ^ (width + 8 - prefixLength) = 256 * 2 ^ (width - prefixLength) ∧
      prefixLength - width = 0) ∨
    ∃ low < 8, width + 8 - prefixLength = low ∧ 8 - (prefixLength - width) = low ∧
      width - prefixLength = 0 := by
  by_cases within : prefixLength ≤ width
  · refine .inl ⟨?_, by omega⟩
    rw [(by omega : width + 8 - prefixLength = 8 + (width - prefixLength)), pow_add]
    norm_num
  · exact .inr ⟨_, by omega, rfl, by omega, by omega⟩

/-- The leading `prefixLength` of `width + 8` bits agree exactly when the
leading ones of the first `width` agree and so do those left for the last
byte. -/
theorem leadingBits_eq_iff (first second width prefixLength : Nat) :
    first / 2 ^ (width + 8 - prefixLength) = second / 2 ^ (width + 8 - prefixLength) ↔
      first / 256 / 2 ^ (width - prefixLength) =
          second / 256 / 2 ^ (width - prefixLength) ∧
        first % 256 / 2 ^ (8 - (prefixLength - width)) =
          second % 256 / 2 ^ (8 - (prefixLength - width)) := by
  rcases leadingBits_cases width prefixLength with ⟨power, whole⟩ | ⟨low, few, size, rest, none⟩
  · rw [power, whole, ← Nat.div_div_eq_div_mul, ← Nat.div_div_eq_div_mul]
    norm_num
  · rw [size, rest, none]
    interval_cases low <;> omega

theorem zipWith_mask_eq_iff {first second prefixLength : Nat}
    (firstLt : first < 4294967296) (secondLt : second < 4294967296) :
    List.zipWith (· &&& ·) (bytesOf first) (cidrMask prefixLength 32) =
        List.zipWith (· &&& ·) (bytesOf second) (cidrMask prefixLength 32) ↔
      first / blockSize prefixLength = second / blockSize prefixLength := by
  have topFirst : first / 256 / 256 / 256 = first / 16777216 % 256 := by omega
  have topSecond : second / 256 / 256 / 256 = second / 16777216 % 256 := by omega
  have second16 (value : Nat) : value / 256 / 256 = value / 65536 := by omega
  rw [cidrMask_eq, blockSize, leadingBits_eq_iff first second 24,
    leadingBits_eq_iff (first / 256) (second / 256) 16,
    leadingBits_eq_iff (first / 256 / 256) (second / 256 / 256) 8,
    topFirst, topSecond, second16, second16]
  simp only [bytesOf, List.zipWith_cons_cons, List.zipWith_nil_left,
    List.cons.injEq, and_true, and_onesByte_eq_iff, and_assoc]

@[simp]
theorem bytesOf_length (value : Nat) : (bytesOf value).length = 4 :=
  rfl

@[simp]
theorem to4_bytesOf (value : Nat) : to4 (bytesOf value) = some (bytesOf value) := by
  simp [to4]

@[simp]
theorem cidrMask_length (prefixLength : Nat) :
    (cidrMask prefixLength 32).length = 4 :=
  cidrMaskBytes_length _ _

theorem blockSize_pos (prefixLength : Nat) : 0 < blockSize prefixLength :=
  Nat.two_pow_pos _

variable {base prefixLength : Nat} {block : IPNet}

theorem IsBlock.end_le (isBlock : IsBlock block base prefixLength) :
    base + blockSize prefixLength ≤ 4294967296 := by
  obtain ⟨multiple, rfl⟩ := isBlock.aligned
  obtain ⟨count, size⟩ : blockSize prefixLength ∣ 4294967296 := by
    change 2 ^ (32 - prefixLength) ∣ 2 ^ 32
    exact Nat.pow_dvd_pow 2 (Nat.sub_le _ _)
  have baseLt := isBlock.base_lt
  rw [size] at baseLt ⊢
  have fewer : multiple < count := Nat.lt_of_mul_lt_mul_left baseLt
  rw [← Nat.mul_succ]
  exact Nat.mul_le_mul_left _ fewer

theorem contains_iff (isBlock : IsBlock block base prefixLength) {value : Nat}
    (valueLt : value < 4294967296) :
    block.contains (bytesOf value) = true ↔
      base ≤ value ∧ value < base + blockSize prefixLength := by
  have masked : block.contains (bytesOf value) = true ↔
      base / blockSize prefixLength = value / blockSize prefixLength := by
    rw [← zipWith_mask_eq_iff isBlock.base_lt valueLt]
    simp [IPNet.contains, networkNumberAndMask, isBlock.ip_eq, isBlock.mask_eq]
  obtain ⟨multiple, rfl⟩ := isBlock.aligned
  have positive := blockSize_pos prefixLength
  rw [masked, Nat.mul_div_cancel_left _ positive, eq_comm, Nat.div_eq_iff positive]
  rw [Nat.mul_comm]
  omega

/-! ### Carry-free arithmetic inside a block -/

theorem aligned_split (width : Nat)
    (aligned : 2 ^ (width + 8 - prefixLength) ∣ base) :
    2 ^ (8 - (prefixLength - width)) ∣ base % 256 ∧
      2 ^ (width - prefixLength) ∣ base / 256 := by
  rcases leadingBits_cases width prefixLength with ⟨power, whole⟩ | ⟨low, few, size, rest, none⟩
  · rw [power] at aligned
    obtain ⟨multiple, rfl⟩ := aligned
    rw [Nat.mul_assoc, Nat.mul_mod_right, Nat.mul_div_cancel_left _ (by omega)]
    exact ⟨Nat.dvd_zero _, Nat.dvd_mul_right _ _⟩
  · rw [size] at aligned
    rw [rest, none]
    interval_cases low <;> omega

theorem aligned_bytes (aligned : blockSize prefixLength ∣ base) :
    2 ^ (8 - (prefixLength - 24)) ∣ base % 256 ∧
      2 ^ (8 - (prefixLength - 16)) ∣ base / 256 % 256 ∧
      2 ^ (8 - (prefixLength - 8)) ∣ base / 65536 % 256 ∧
      2 ^ (8 - prefixLength) ∣ base / 16777216 % 256 := by
  obtain ⟨low, aligned⟩ := aligned_split 24 aligned
  obtain ⟨second, aligned⟩ := aligned_split 16 aligned
  obtain ⟨third, aligned⟩ := aligned_split 8 aligned
  obtain ⟨top, -⟩ := aligned_split 0 aligned
  rw [Nat.div_div_eq_div_mul] at third
  rw [Nat.div_div_eq_div_mul, Nat.div_div_eq_div_mul] at top
  exact ⟨low, second, third, top⟩

def addBytes (base offset : Nat) : IP :=
  List.zipWith (· + ·) (bytesOf base) (bytesOf offset)

/-- A byte sum agrees with an aligned byte under the mask exactly when the
summand has no bit under it. -/
theorem add_and_onesByte_eq_iff {base ones : Nat} (offset : Nat)
    (aligned : 2 ^ (8 - ones) ∣ base % 256) :
    UInt8.ofNat base &&& onesByte ones =
        (UInt8.ofNat base + UInt8.ofNat offset) &&& onesByte ones ↔
      UInt8.ofNat offset &&& onesByte ones = UInt8.ofNat 0 &&& onesByte ones := by
  rw [← UInt8.ofNat_add, and_onesByte_eq_iff, and_onesByte_eq_iff]
  have bound : 8 - ones ≤ 8 := Nat.sub_le _ _
  generalize 8 - ones = low at bound aligned
  interval_cases low <;> omega

/-- The byte-wise sum of a base and an offset stays in the block exactly when
the offset, read modulo `2 ^ 32`, is below its size. -/
theorem contains_addBytes_iff (isBlock : IsBlock block base prefixLength) (offset : Nat) :
    block.contains (addBytes base offset) = true ↔
      offset % 4294967296 < blockSize prefixLength := by
  obtain ⟨low, second, third, top⟩ := aligned_bytes isBlock.aligned
  have sameBytes : bytesOf offset = bytesOf (offset % 4294967296) := by
    simp only [bytesOf, List.cons.injEq, and_true, ← UInt8.toNat_inj,
      UInt8.toNat_ofNat']
    omega
  have noBits := @zipWith_mask_eq_iff (offset % 4294967296) 0 prefixLength
    (by omega) (by omega)
  rw [Nat.zero_div, Nat.div_eq_zero_iff, or_iff_right (blockSize_pos _).ne'] at noBits
  rw [← noBits, ← sameBytes]
  simp [IPNet.contains, networkNumberAndMask, isBlock.ip_eq, isBlock.mask_eq, addBytes,
    to4, cidrMask_eq, bytesOf, add_and_onesByte_eq_iff, low, second, third, top]

theorem offset_split {offset prefixLength : Nat} (width : Nat)
    (small : offset < 2 ^ (width + 8 - prefixLength)) :
    offset % 256 < 2 ^ (8 - (prefixLength - width)) ∧
      offset / 256 < 2 ^ (width - prefixLength) := by
  have agree := (leadingBits_eq_iff offset 0 width prefixLength).mp
    (by rw [Nat.zero_div, Nat.div_eq_of_lt small])
  rw [Nat.zero_mod, Nat.zero_div, Nat.zero_div, Nat.div_eq_zero_iff_lt (by positivity), Nat.div_eq_zero_iff_lt (by positivity)] at agree
  exact agree.symm

theorem add_lt_of_aligned {base offset ones : Nat}
    (aligned : 2 ^ (8 - ones) ∣ base % 256) (small : offset % 256 < 2 ^ (8 - ones)) :
    base % 256 + offset % 256 < 256 := by
  have bound : 8 - ones ≤ 8 := Nat.sub_le _ _
  generalize 8 - ones = low at bound aligned small
  interval_cases low <;> omega

/-- Adding an offset below the size of a block to its base never carries from
one byte to the next. -/
theorem addBytes_eq (isBlock : IsBlock block base prefixLength) {offset : Nat}
    (small : offset < blockSize prefixLength) :
    addBytes base offset = bytesOf (base + offset) := by
  obtain ⟨low, second, third, top⟩ := aligned_bytes isBlock.aligned
  obtain ⟨lowOffset, small⟩ := offset_split 24 small
  obtain ⟨secondOffset, small⟩ := offset_split 16 small
  obtain ⟨thirdOffset, small⟩ := offset_split 8 small
  have lowSum := add_lt_of_aligned low lowOffset
  have secondSum := add_lt_of_aligned second secondOffset
  have thirdSum := add_lt_of_aligned third thirdOffset
  simp only [addBytes, bytesOf, List.zipWith_cons_cons, List.zipWith_nil_left,
    List.cons.injEq, and_true, ← UInt8.toNat_inj, UInt8.toNat_add, UInt8.toNat_ofNat']
  omega

theorem lastOffset_split (width prefixLength : Nat) :
    (2 ^ (width + 8 - prefixLength) - 1) % 256 = 2 ^ (8 - (prefixLength - width)) - 1 ∧
      (2 ^ (width + 8 - prefixLength) - 1) / 256 = 2 ^ (width - prefixLength) - 1 := by
  rcases leadingBits_cases width prefixLength with ⟨power, whole⟩ | ⟨low, few, size, rest, none⟩
  · have positive : 0 < 2 ^ (width - prefixLength) := by positivity
    rw [power, whole]
    norm_num
    omega
  · rw [size, rest, none]
    interval_cases low <;> omega

theorem or_not_onesByte {base ones : Nat} (aligned : 2 ^ (8 - ones) ∣ base % 256) :
    UInt8.ofNat base ||| ~~~ onesByte ones =
      UInt8.ofNat base + UInt8.ofNat (2 ^ (8 - ones) - 1) := by
  have table : ∀ byte < 256, ∀ ones < 9, 2 ^ (8 - ones) ∣ byte →
      UInt8.ofNat byte ||| ~~~ onesByte ones =
        UInt8.ofNat byte + UInt8.ofNat (2 ^ (8 - ones) - 1) := by
    decide +kernel
  have reduce : UInt8.ofNat base = UInt8.ofNat (base % 256) := by
    apply UInt8.toNat_inj.mp
    simp
  rw [(by omega : 8 - ones = 8 - min ones 8)] at aligned ⊢
  rw [onesByte_min, reduce]
  exact table (base % 256) (Nat.mod_lt _ (by omega)) (min ones 8) (by omega) aligned

theorem bytesOf_lastOffset (prefixLength : Nat) :
    bytesOf (blockSize prefixLength - 1) =
      [UInt8.ofNat (2 ^ (8 - prefixLength) - 1),
        UInt8.ofNat (2 ^ (8 - (prefixLength - 8)) - 1),
        UInt8.ofNat (2 ^ (8 - (prefixLength - 16)) - 1),
        UInt8.ofNat (2 ^ (8 - (prefixLength - 24)) - 1)] := by
  obtain ⟨low, rest24⟩ := lastOffset_split 24 prefixLength
  obtain ⟨second, rest16⟩ := lastOffset_split 16 prefixLength
  obtain ⟨third, rest8⟩ := lastOffset_split 8 prefixLength
  obtain ⟨top, -⟩ := lastOffset_split 0 prefixLength
  simp only [bytesOf, blockSize, List.cons.injEq, and_true, ← UInt8.toNat_inj,
    UInt8.toNat_ofNat']
  rw [← rest16, ← rest24] at third
  rw [← rest8, ← rest16, ← rest24] at top
  rw [← rest24] at second
  simp only [Nat.reduceAdd, Nat.sub_zero] at low second third top
  omega

theorem zipWith_or_not_mask (isBlock : IsBlock block base prefixLength) :
    List.zipWith (fun byte ones => byte ||| ~~~ ones) block.ip block.mask =
      bytesOf (base + (blockSize prefixLength - 1)) := by
  obtain ⟨low, second, third, top⟩ := aligned_bytes isBlock.aligned
  have positive := blockSize_pos prefixLength
  rw [← addBytes_eq isBlock (by omega), addBytes, bytesOf_lastOffset, isBlock.ip_eq,
    isBlock.mask_eq, cidrMask_eq]
  simp only [bytesOf, List.zipWith_cons_cons, List.zipWith_nil_left, or_not_onesByte low,
    or_not_onesByte second, or_not_onesByte third, or_not_onesByte top]

end NetAddress
