import Jerboa.NetAddressBlock

/-!
# Blocks read from text

What `ParseCIDR` returns for an IPv4 block, in either byte length, and that
printing such a block and reading it again gives its four-byte form.
-/

namespace NetAddress

open List


variable {base prefixLength n : Nat} {ip : IP} {block : IPNet} {bytes : List UInt8}
  {text : List Char}

theorem and_onesByte_of_aligned {ones : Nat} (aligned : 2 ^ (8 - ones) ∣ base % 256) :
    UInt8.ofNat base &&& onesByte ones = UInt8.ofNat base := by
  have reduce : UInt8.ofNat base = UInt8.ofNat (base % 256) := by
    apply UInt8.toNat_inj.mp
    simp
  apply UInt8.toNat_inj.mp
  rw [reduce, toNat_and_onesByte (Nat.mod_lt _ (by omega)), Nat.div_mul_cancel aligned]
  simp

theorem zipWith_mask_eq_bytesOf {value : Nat} (valueLt : value < 4294967296) :
    List.zipWith (· &&& ·) (bytesOf value) (cidrMask prefixLength 32) =
      bytesOf (value / blockSize prefixLength * blockSize prefixLength) := by
  have positive := blockSize_pos prefixLength
  have baseLe : value / blockSize prefixLength * blockSize prefixLength ≤ value :=
    Nat.div_mul_le_self _ _
  have sameBlock :=
    (@zipWith_mask_eq_iff value (value / blockSize prefixLength * blockSize prefixLength)
      prefixLength valueLt (by omega)).mpr (by rw [Nat.mul_div_cancel _ positive])
  obtain ⟨low, second, third, top⟩ :=
    aligned_bytes (Nat.dvd_mul_left (blockSize prefixLength) (value / blockSize prefixLength))
  rw [sameBlock, cidrMask_eq]
  simp only [bytesOf, zipWith_cons_cons, zipWith_nil_left,
    and_onesByte_of_aligned low, and_onesByte_of_aligned second,
    and_onesByte_of_aligned third, and_onesByte_of_aligned top]

theorem exists_isBlock (four : ip.length = 4) (prefixLe : prefixLength ≤ 32) :
    ∃ base, IsBlock ⟨List.zipWith (· &&& ·) ip (cidrMask prefixLength 32),
      cidrMask prefixLength 32⟩ base prefixLength := by
  obtain ⟨a, b, c, d, rfl⟩ : ∃ a b c d, ip = [a, b, c, d] := by
    rw [length_eq_four] at four
    exact four
  obtain ⟨value, valueLt, bytes⟩ := exists_bytesOf a b c d
  have baseLe : value / blockSize prefixLength * blockSize prefixLength ≤ value :=
    Nat.div_mul_le_self _ _
  refine ⟨value / blockSize prefixLength * blockSize prefixLength, prefixLe, by omega,
    Nat.dvd_mul_left _ _, ?_, rfl⟩
  rw [bytes, zipWith_mask_eq_bytesOf valueLt]

theorem simpleMaskLength_cidrMask (prefixLe : prefixLength ≤ 32) :
    simpleMaskLength (cidrMask prefixLength 32) = some prefixLength := by
  have table : ∀ n < 33, simpleMaskLength (cidrMask n 32) = some n := by
    decide +kernel
  exact table prefixLength (by omega)

theorem ipString_bytesOf (value : Nat) : ipString (bytesOf value) = dotted (bytesOf value) := by
  simp [ipString]

theorem string_of_isBlock (isBlock : IsBlock block base prefixLength) :
    block.string = dotted (bytesOf base) ++ ['/'] ++ decimal prefixLength := by
  simp [IPNet.string, networkNumberAndMask, isBlock.ip_eq, isBlock.mask_eq,
    simpleMaskLength_cidrMask isBlock.prefix_le, ipString_bytesOf]

theorem ipString_bytesOf_injective {first second : Nat}
    (firstLt : first < 4294967296) (secondLt : second < 4294967296)
    (same : ipString (bytesOf first) = ipString (bytesOf second)) : first = second := by
  rw [ipString_bytesOf, ipString_bytesOf] at same
  exact bytesOf_injective firstLt secondLt (dotted_injective same)

theorem colon_mem_appendTo6_later (ip : IP) (run : Option (Nat × Nat)) (fuel : Nat)
    {i : Nat} (more : i < 8) (later : 0 < i) :
    ':' ∈ appendTo6 ip run (fuel + 1) i := by
  rcases run with - | ⟨first, last⟩
  · simp [appendTo6, more, later]
  · by_cases atRun : i = first
    · simp only [appendTo6, Nat.not_le.mpr more, if_false, if_pos atRun]
      split <;> simp
    · simp [appendTo6, more, later, atRun]

theorem colon_mem_appendTo6 (ip : IP) (run : Option (Nat × Nat)) (fuel : Nat) :
    ':' ∈ appendTo6 ip run (fuel + 1 + 1) 0 := by
  have second := colon_mem_appendTo6_later ip run fuel (by omega : 1 < 8) (by omega)
  rcases run with - | ⟨first, last⟩
  · rw [appendTo6]
    simp [second]
  · rw [appendTo6]
    by_cases atRun : 0 = first
    · simp only [Nat.not_le.mpr (by omega : 0 < 8), if_false, if_pos atRun]
      split <;> simp
    · simp [atRun, second]

theorem colon_mem_ipString (notV4 : to4 ip = none) (notNil : ip ≠ []) :
    ':' ∈ ipString ip := by
  simp [ipString, notV4, notNil, colon_mem_appendTo6 ip (zeroRun ip) 6]

theorem ipString_ne_of_not_v4 (notV4 : to4 ip = none) (notNil : ip ≠ []) (value : Nat) :
    ipString ip ≠ ipString (bytesOf value) := by
  intro same
  have colon := colon_mem_ipString notV4 notNil
  rw [same, ipString_bytesOf] at colon
  exact ne_of_mem_dotted colon (y := ':') (by decide) (by decide) rfl

theorem parseCIDR_string (isBlock : IsBlock block base prefixLength) :
    parseCIDR block.string = some block := by
  rw [string_of_isBlock isBlock]
  have read := parseCIDR_dotted (UInt8.ofNat (base / 16777216)) (UInt8.ofNat (base / 65536))
    (UInt8.ofNat (base / 256)) (UInt8.ofNat base) isBlock.prefix_le
  rw [show [UInt8.ofNat (base / 16777216), UInt8.ofNat (base / 65536),
    UInt8.ofNat (base / 256), UInt8.ofNat base] = bytesOf base from rfl,
    zipWith_mask_eq_bytesOf isBlock.base_lt, Nat.div_mul_cancel isBlock.aligned] at read
  rw [read, ← isBlock.ip_eq, ← isBlock.mask_eq]

theorem contains_eq_of_networkNumberAndMask {first second : IPNet}
    (same : networkNumberAndMask first = networkNumberAndMask second) (ip : IP) :
    first.contains ip = second.contains ip := by
  rw [IPNet.contains, IPNet.contains, same]

theorem string_eq_of_networkNumberAndMask {first second : IPNet}
    (same : networkNumberAndMask first = networkNumberAndMask second) :
    first.string = second.string := by
  rw [IPNet.string, IPNet.string, same]

theorem full_of_and_onesByte_eq {byte : UInt8} {ones : Nat}
    (allOnes : byte &&& onesByte ones = 255) : 8 ≤ ones := by
  have table : ∀ byte < 256, ∀ ones < 8, UInt8.ofNat byte &&& onesByte ones ≠ 255 := by
    decide +kernel
  by_contra partly
  apply table byte.toNat byte.toNat_lt ones (by omega)
  rw [UInt8.ofNat_toNat, allOnes]

/-- A sixteen-byte masked address that is still v4-mapped kept all of its
first 96 bits, so its last four bytes are a masked IPv4 address. -/
theorem mapped_mask (sixteen : ip.length = 16)
    (mapped : (List.zipWith (· &&& ·) ip (cidrMask n 128)).take 12 = v4InV6Prefix) :
    96 ≤ n ∧ (cidrMask n 128).drop 12 = cidrMask (n - 96) 32 := by
  have bytes : cidrMask n 128 = (List.range 16).map fun i => onesByte (n - 8 * i) := by
    change cidrMaskBytes 16 n = _
    simp only [cidrMaskBytes_succ, Nat.sub_sub]
    rfl
  have twelfth := congrArg (·[11]?) mapped
  obtain ⟨byte, atEleven⟩ : ∃ byte, ip[11]? = some byte :=
    ⟨_, getElem?_eq_getElem (by omega)⟩
  simp only [bytes, getElem?_take, getElem?_zipWith, atEleven] at twelfth
  have kept : 8 ≤ n - 88 := by
    apply full_of_and_onesByte_eq
    simpa [v4InV6Prefix] using twelfth
  refine ⟨by omega, ?_⟩
  rw [bytes, cidrMask_eq]
  simp [range_succ_eq_map, Nat.sub_sub]

theorem length_of_expandEllipsis {scan : V6Scan} (expanded : expandEllipsis scan = some bytes) :
    16 ≤ bytes.length := by
  unfold expandEllipsis at expanded
  split at expanded
  · simp at expanded
  · split at expanded
    · obtain ⟨position, -, rfl⟩ := Option.map_eq_some_iff.mp expanded
      simp only [length_append, length_take, length_replicate,
        length_drop]
      omega
    · split at expanded
      · cases expanded
        omega
      · simp at expanded

theorem length_of_parseIPv6Body (parsed : parseIPv6Body text = some bytes) : 16 ≤ bytes.length := by
  unfold parseIPv6Body at parsed
  split at parsed
  · cases parsed
    simp
  · obtain ⟨scan, -, expanded⟩ := Option.bind_eq_some_iff.mp parsed
    exact length_of_expandEllipsis expanded
  · obtain ⟨scan, -, expanded⟩ := Option.bind_eq_some_iff.mp parsed
    exact length_of_expandEllipsis expanded

theorem length_of_parseAddr_v6 {zone : List Char} (parsed : parseAddr text = some (.v6 bytes zone)) : 16 ≤ bytes.length := by
  unfold parseAddr at parsed
  split at parsed
  · simp [parseIPv4] at parsed
  · simp only [parseIPv6] at parsed
    split at parsed
    · obtain ⟨body, read, same⟩ := Option.map_eq_some_iff.mp parsed
      obtain ⟨rfl, -⟩ := Addr.v6.inj same
      exact length_of_parseIPv6Body read
    · split at parsed
      · simp at parsed
      · obtain ⟨body, read, same⟩ := Option.map_eq_some_iff.mp parsed
        obtain ⟨rfl, -⟩ := Addr.v6.inj same
        exact length_of_parseIPv6Body read
  · simp at parsed

theorem parseCIDR_eq_some (parsed : parseCIDR text = some block) :
    ∃ addr addrText n, parseAddr addrText = some addr ∧ n ≤ addr.bitLen ∧
      block.mask = cidrMask n addr.bitLen ∧
      applyMask addr.as16 (cidrMask n addr.bitLen) = some block.ip := by
  unfold parseCIDR at parsed
  split at parsed
  · simp at parsed
  · split at parsed
    · rename_i addr n readAddr _
      split at parsed
      · simp at parsed
      · rename_i bounds
        obtain ⟨ip, masked, rfl⟩ := Option.map_eq_some_iff.mp parsed
        exact ⟨addr, _, n, readAddr, by omega, rfl, masked⟩
    · simp at parsed

theorem applyMask_v4 {bytes : IP}
    (masked : applyMask (v4InV6Prefix ++ bytes) (cidrMask n 32) = some ip) :
    bytes.length = 4 ∧ ip = List.zipWith (· &&& ·) bytes (cidrMask n 32) := by
  have twelve : v4InV6Prefix.length = 12 := rfl
  by_cases four : bytes.length = 4
  · refine ⟨four, ?_⟩
    simpa [applyMask, four, twelve, take_left' twelve, drop_left' twelve]
      using masked.symm
  · have notSixteen : 12 + bytes.length ≠ 16 := by omega
    simp only [applyMask, cidrMask_length, length_append, twelve, notSixteen] at masked
    simp at masked
    omega

/-- Masking a sixteen-byte address, and what is left of it when the result is
still an IPv4 address. -/
theorem applyMask_v6 {bytes ip4 : IP} (long : 16 ≤ bytes.length)
    (masked : applyMask bytes (cidrMask n 128) = some ip) (isV4 : to4 ip = some ip4) :
    bytes.length = 16 ∧ 96 ≤ n ∧ (cidrMask n 128).drop 12 = cidrMask (n - 96) 32 ∧
      ip4 = List.zipWith (· &&& ·) (bytes.drop 12) (cidrMask (n - 96) 32) ∧
      ip = v4InV6Prefix ++ ip4 := by
  have maskLength : (cidrMask n 128).length = 16 := cidrMaskBytes_length _ _
  have notFour : bytes.length ≠ 4 := by omega
  simp only [applyMask, maskLength, notFour, false_and, and_false, if_false,
    Nat.reduceEqDiff, Option.ite_none_right_eq_some, Option.some.injEq] at masked
  obtain ⟨sixteen, rfl⟩ := masked
  have resultLength :
      (List.zipWith (· &&& ·) bytes (cidrMask n 128)).length = 16 := by
    simp [sixteen, maskLength]
  simp only [to4, resultLength, Nat.reduceEqDiff, if_false, true_and,
    Option.ite_none_right_eq_some, Option.some.injEq] at isV4
  obtain ⟨mapped, rfl⟩ := isV4
  obtain ⟨kept, tail⟩ := mapped_mask sixteen mapped
  refine ⟨sixteen, kept, tail, ?_, ?_⟩
  · rw [drop_zipWith, tail]
  · rw [← mapped, take_append_drop]

/-- Every block that `ParseCIDR` returns for IPv4 has a canonical four-byte
form; its own bytes are either those or their v4-mapped sixteen-byte form. -/
theorem exists_isBlock_of_parseCIDR {ip4 : IP} (parsed : parseCIDR text = some block)
    (isV4 : to4 block.ip = some ip4) :
    ∃ canonical base prefixLength, IsBlock canonical base prefixLength ∧
      networkNumberAndMask block = networkNumberAndMask canonical ∧
      (block.ip = bytesOf base ∨ block.ip = v4InV6Prefix ++ bytesOf base) := by
  obtain ⟨addr, addrText, n, readAddr, bound, mask, masked⟩ := parseCIDR_eq_some parsed
  obtain ⟨blockIP, blockMask⟩ := block
  simp only at mask masked isV4
  subst mask
  cases addr with
  | v4 bytes =>
    obtain ⟨four, rfl⟩ := applyMask_v4 masked
    obtain ⟨base, isBlock⟩ := exists_isBlock four bound
    exact ⟨_, base, n, isBlock, rfl, .inl isBlock.ip_eq⟩
  | v6 bytes zone =>
    obtain ⟨sixteen, kept, tail, rfl, rfl⟩ :=
      applyMask_v6 (length_of_parseAddr_v6 readAddr) masked isV4
    have bound128 : n ≤ 128 := bound
    have tailLength : (bytes.drop 12).length = 4 := by simp [sixteen]
    obtain ⟨base, isBlock⟩ := exists_isBlock tailLength (by omega : n - 96 ≤ 32)
    refine ⟨_, base, n - 96, isBlock, ?_, .inr ?_⟩
    · have mapped : to4 (v4InV6Prefix ++ List.zipWith (· &&& ·) (bytes.drop 12)
          (cidrMask (n - 96) 32)) = some (List.zipWith (· &&& ·) (bytes.drop 12)
            (cidrMask (n - 96) 32)) := isV4
      have maskLength : (cidrMask n 128).length = 16 := cidrMaskBytes_length _ _
      have four : to4 (List.zipWith (· &&& ·) (bytes.drop 12)
          (cidrMask (n - 96) 32)) = some (List.zipWith (· &&& ·) (bytes.drop 12)
            (cidrMask (n - 96) 32)) := by
        simp [to4, sixteen]
      simp [networkNumberAndMask, mapped, four, maskLength, tail, Addr.bitLen]
    · rw [← isBlock.ip_eq]

end NetAddress
