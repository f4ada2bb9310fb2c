import Jerboa.NetAddress
import Mathlib.Tactic

/-!
# Reading back printed addresses

Dotted decimal notation and CIDR notation of IPv4 addresses are read back as
the address they were printed from.  The network store keeps subnets and
allocated addresses as text, so these round trips carry every fact about the
text over to the bytes.
-/

namespace NetAddress

open List

variable {n : Nat}

theorem decimalDigit_digitChar (small : n < 10) :
    decimalDigit (digitChar n) = some n := by
  interval_cases n <;> decide

/-! ### Dotted decimal notation -/

theorem parseIPv4Fields_digit (small : n < 10) (rest : List Char)
    (fields : List UInt8) (val digLen : Nat)
    (noLeadingZero : ¬ (digLen = 1 ∧ val = 0)) (fits : val * 10 + n ≤ 255) :
    parseIPv4Fields (digitChar n :: rest) fields val digLen =
      parseIPv4Fields rest fields (val * 10 + n) (digLen + 1) := by
  rw [parseIPv4Fields, decimalDigit_digitChar small]
  simp only [if_neg noLeadingZero, if_neg (by omega : ¬ 255 < val * 10 + n)]

theorem parseIPv4Fields_decimal (small : n ≤ 255) (rest : List Char)
    (fields : List UInt8) :
    ∃ digLen, 0 < digLen ∧
      parseIPv4Fields (decimal n ++ rest) fields 0 0 =
        parseIPv4Fields rest fields n digLen := by
  unfold decimal
  split
  · refine ⟨1, by omega, ?_⟩
    rw [singleton_append, parseIPv4Fields_digit (by omega) _ _ _ _ (by omega) (by omega)]
    simp
  · split
    · refine ⟨2, by omega, ?_⟩
      rw [cons_append, singleton_append,
        parseIPv4Fields_digit (by omega) _ _ _ _ (by omega) (by omega),
        parseIPv4Fields_digit (by omega) _ _ _ _ (by omega) (by omega)]
      congr 1
      omega
    · refine ⟨3, by omega, ?_⟩
      rw [cons_append, cons_append, singleton_append,
        parseIPv4Fields_digit (by omega) _ _ _ _ (by omega) (by omega),
        parseIPv4Fields_digit (by omega) _ _ _ _ (by omega) (by omega),
        parseIPv4Fields_digit (by omega) _ _ _ _ (by omega) (by omega)]
      congr 1
      omega

theorem parseIPv4Fields_dot {rest : List Char} (more : rest ≠ [])
    (fields : List UInt8) (room : fields.length < 3) (val : Nat)
    {digLen : Nat} (digits : 0 < digLen) :
    parseIPv4Fields ('.' :: rest) fields val digLen =
      parseIPv4Fields rest (fields ++ [UInt8.ofNat val]) 0 0 := by
  rw [parseIPv4Fields]
  have notDigit : decimalDigit '.' = none := by decide
  simp only [notDigit, if_true]
  rw [if_neg (by simp [more]; omega), if_neg (by omega)]

theorem parseIPv4Fields_octet (byte : UInt8) {rest : List Char} (more : rest ≠ [])
    (fields : List UInt8) (room : fields.length < 3) :
    parseIPv4Fields (decimal byte.toNat ++ '.' :: rest) fields 0 0 =
      parseIPv4Fields rest (fields ++ [byte]) 0 0 := by
  have bound : byte.toNat ≤ 255 := by have := byte.toNat_lt; omega
  obtain ⟨digLen, digits, read⟩ :=
    parseIPv4Fields_decimal bound ('.' :: rest) fields
  rw [read, parseIPv4Fields_dot more fields room _ digits]
  simp

theorem decimal_ne_nil (n : Nat) : decimal n ≠ [] := by
  unfold decimal
  split
  · simp
  · split <;> simp

theorem dotted_four (a b c d : UInt8) :
    dotted [a, b, c, d] =
      decimal a.toNat ++ '.' :: (decimal b.toNat ++ '.' ::
        (decimal c.toNat ++ '.' :: decimal d.toNat)) := by
  simp [dotted, List.intercalate, List.intersperse]

theorem parseIPv4Fields_dotted (a b c d : UInt8) :
    parseIPv4Fields (dotted [a, b, c, d]) [] 0 0 = some [a, b, c, d] := by
  have bound : d.toNat ≤ 255 := by have := d.toNat_lt; omega
  obtain ⟨digLen, -, read⟩ := parseIPv4Fields_decimal bound [] [a, b, c]
  rw [append_nil] at read
  rw [dotted_four, parseIPv4Fields_octet a (by simp) _ (by simp),
    parseIPv4Fields_octet b (by simp) _ (by simp),
    parseIPv4Fields_octet c (decimal_ne_nil _) _ (by simp)]
  simp [read, parseIPv4Fields]

theorem isDigit_of_mem_decimal (small : n < 1000) {c : Char}
    (member : c ∈ decimal n) : '0' ≤ c ∧ c ≤ '9' := by
  have digit : ∀ k < 10, '0' ≤ digitChar k ∧ digitChar k ≤ '9' := by decide
  unfold decimal at member
  split at member
  · simp only [mem_singleton] at member
    exact member ▸ digit _ (by omega)
  · split at member
    · simp only [mem_cons, not_mem_nil, or_false] at member
      rcases member with rfl | rfl
      · exact digit _ (by omega)
      · exact digit _ (by omega)
    · simp only [mem_cons, not_mem_nil, or_false] at member
      rcases member with rfl | rfl | rfl
      · exact digit _ (by omega)
      · exact digit _ (by omega)
      · exact digit _ (by omega)

theorem digit_or_dot_of_mem_dotted {a b c d : UInt8} {x : Char}
    (member : x ∈ dotted [a, b, c, d]) : ('0' ≤ x ∧ x ≤ '9') ∨ x = '.' := by
  have bound (byte : UInt8) : byte.toNat < 1000 := by
    have := byte.toNat_lt
    omega
  rw [dotted_four] at member
  simp only [mem_append, mem_cons] at member
  rcases member with h | rfl | h | rfl | h | rfl | h
  · exact .inl (isDigit_of_mem_decimal (bound a) h)
  · exact .inr rfl
  · exact .inl (isDigit_of_mem_decimal (bound b) h)
  · exact .inr rfl
  · exact .inl (isDigit_of_mem_decimal (bound c) h)
  · exact .inr rfl
  · exact .inl (isDigit_of_mem_decimal (bound d) h)

theorem ne_of_mem_dotted {a b c d : UInt8} {x y : Char}
    (member : x ∈ dotted [a, b, c, d])
    (other : ¬ ('0' ≤ y ∧ y ≤ '9')) (notDot : y ≠ '.') : x ≠ y := by
  rintro rfl
  rcases digit_or_dot_of_mem_dotted member with digit | dot
  · exact other digit
  · exact notDot dot

theorem parseAddr_dotted (a b c d : UInt8) :
    parseAddr (dotted [a, b, c, d]) = some (.v4 [a, b, c, d]) := by
  have first : (dotted [a, b, c, d]).find?
      (fun c => c = '.' ∨ c = ':' ∨ c = '%') = some '.' := by
    have noneInOctet : (decimal a.toNat).find?
        (fun c => c = '.' ∨ c = ':' ∨ c = '%') = none := by
      rw [find?_eq_none]
      intro x member
      have digit := isDigit_of_mem_decimal
        (by have := a.toNat_lt; omega) member
      simp only [decide_eq_true_eq]
      rintro (rfl | rfl | rfl)
      · exact absurd digit (by decide)
      · exact absurd digit (by decide)
      · exact absurd digit (by decide)
    rw [dotted_four, find?_append, noneInOctet]
    simp
  rw [parseAddr, first]
  simp [parseIPv4, parseIPv4Fields_dotted]

theorem parseIP_dotted (a b c d : UInt8) :
    parseIP (dotted [a, b, c, d]) = some (v4InV6Prefix ++ [a, b, c, d]) := by
  simp [parseIP, parseAddr_dotted, Addr.zone, Addr.as16]

theorem dotted_injective {a b c d a' b' c' d' : UInt8}
    (same : dotted [a, b, c, d] = dotted [a', b', c', d']) :
    [a, b, c, d] = [a', b', c', d'] := by
  have read := parseIPv4Fields_dotted a b c d
  rw [same, parseIPv4Fields_dotted] at read
  exact (Option.some.inj read).symm

/-! ### CIDR notation -/

theorem dtoi_digit (small : n < 10) (rest : List Char) (acc digits : Nat)
    (fits : acc * 10 + n < 0xFFFFFF) :
    dtoi (digitChar n :: rest) acc digits =
      dtoi rest (acc * 10 + n) (digits + 1) := by
  rw [dtoi, decimalDigit_digitChar small]
  simp only [if_neg (by omega : ¬ 0xFFFFFF ≤ acc * 10 + n)]

theorem dtoi_decimal (small : n < 100) :
    dtoi (decimal n) 0 0 = some n := by
  unfold decimal
  split
  · rw [dtoi_digit (by omega) _ _ _ (by omega)]
    simp [dtoi]
  · rw [dtoi_digit (by omega) _ _ _ (by omega),
      dtoi_digit (by omega) _ _ _ (by omega)]
    simp only [dtoi, if_neg (by omega : ¬ 0 + 1 + 1 = 0)]
    congr 1
    omega

theorem ne_slash_of_mem_dotted (a b c d : UInt8) :
    ∀ x ∈ dotted [a, b, c, d], decide (x ≠ '/') = true := by
  intro x member
  exact decide_eq_true (ne_of_mem_dotted member (by decide) (by decide))

theorem takeWhile_slash (a b c d : UInt8) (rest : List Char) :
    (dotted [a, b, c, d] ++ '/' :: rest).takeWhile (· ≠ '/') =
      dotted [a, b, c, d] := by
  rw [takeWhile_append_of_pos (ne_slash_of_mem_dotted a b c d)]
  simp

theorem dropWhile_slash (a b c d : UInt8) (rest : List Char) :
    (dotted [a, b, c, d] ++ '/' :: rest).dropWhile (· ≠ '/') = '/' :: rest := by
  rw [dropWhile_append_of_pos (ne_slash_of_mem_dotted a b c d)]
  simp

theorem parseCIDR_dotted (a b c d : UInt8) (length : n ≤ 32) :
    parseCIDR (dotted [a, b, c, d] ++ ['/'] ++ decimal n) =
      some ⟨List.zipWith (· &&& ·) [a, b, c, d] (cidrMask n 32),
        cidrMask n 32⟩ := by
  have text : dotted [a, b, c, d] ++ ['/'] ++ decimal n =
      dotted [a, b, c, d] ++ '/' :: decimal n := by simp
  have maskLength : (cidrMask n 32).length = 4 := by
    interval_cases n <;> decide
  rw [text, parseCIDR, dropWhile_slash, takeWhile_slash]
  simp only [parseAddr_dotted, dtoi_decimal (by omega : n < 100)]
  rw [if_neg (by simp [Addr.zone, Addr.bitLen]; omega)]
  simp [applyMask, Addr.as16, Addr.bitLen, v4InV6Prefix, maskLength]

end NetAddress
