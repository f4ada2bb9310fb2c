import Jerboa.NetworkAllocation

/-!
# The gateway of a network

`parseSubnet` takes the network address of a subnet, overwrites its byte 3 with
1 and calls the result the gateway.  A v4-mapped address has sixteen bytes, and
byte 3 is not its last one.
-/

namespace Jerboa.NetworkStore

open NetAddress

variable {block : IPNet} {base prefixLength : Nat}

/-- The recorded gateway is an address of the subnet, and a usable host when
the subnet has two of them. -/
def GatewayFits (block : IPNet) (gateway : String) : Prop :=
  ∃ ip, ip.length = 4 ∧ ipText ip = gateway ∧ block.contains ip = true ∧
    ((∃ first second, first ≠ second ∧ UsableHost block first ∧ UsableHost block second) →
      UsableHost block ip)

/-- The network address is held in four bytes and ends in 0, or it is a single
address that ends in 1. -/
def EndsInGateway (block : IPNet) : Prop :=
  block.ip.length = 4 ∧
    ((block.ip[3]? = some 0 ∧ block.mask ≠ cidrMask 32 32) ∨
      (block.ip[3]? = some 1 ∧ block.mask = cidrMask 32 32))

/-! ### Blocks of four bytes -/

theorem set_bytesOf (value : Nat) :
    (bytesOf value).set 3 1 = bytesOf (value - value % 256 + 1) := by
  simp only [bytesOf, List.set_cons_succ, List.set_cons_zero, List.cons.injEq, and_true,
    ← UInt8.toNat_inj, UInt8.toNat_ofNat']
  refine ⟨by omega, by omega, by omega, ?_⟩
  simp
  omega

theorem blockSize_eq_one_iff (bound : prefixLength ≤ 32) :
    blockSize prefixLength = 1 ↔ prefixLength = 32 := by
  simp only [blockSize, Nat.pow_eq_one]
  omega

theorem cidrMask_eq_full_iff (bound : prefixLength ≤ 32) :
    cidrMask prefixLength 32 = cidrMask 32 32 ↔ prefixLength = 32 := by
  constructor
  · intro same
    have lengths := congrArg simpleMaskLength same
    rw [simpleMaskLength_cidrMask bound, simpleMaskLength_cidrMask (le_refl 32)] at lengths
    exact Option.some.inj lengths
  · rintro rfl
    rfl

theorem ipText_bytesOf_injective {ip : IP} {value : Nat} (four : ip.length = 4)
    (valueLt : value < 4294967296) (same : ipText ip = ipText (bytesOf value)) :
    ip = bytesOf value := by
  obtain ⟨a, b, c, d, rfl⟩ := List.length_eq_four.mp four
  obtain ⟨other, otherLt, bytes⟩ := exists_bytesOf a b c d
  rw [bytes] at same ⊢
  rw [ipString_bytesOf_injective otherLt valueLt (String.ofList_injective same)]

section

variable (isBlock : IsBlock block base prefixLength)

include isBlock

theorem endsInGateway_iff :
    EndsInGateway block ↔
      (base % 256 = 0 ∧ prefixLength ≠ 32) ∨ (base % 256 = 1 ∧ prefixLength = 32) := by
  have full := cidrMask_eq_full_iff isBlock.prefix_le
  have byte (value : Nat) (small : value < 256) :
      (bytesOf base)[3]? = some (UInt8.ofNat value) ↔ base % 256 = value := by
    simp only [bytesOf, List.getElem?_cons_succ, List.getElem?_cons_zero, Option.some.injEq,
      ← UInt8.toNat_inj, UInt8.toNat_ofNat']
    omega
  have zero := byte 0 (by omega)
  have one := byte 1 (by omega)
  simp only [EndsInGateway, isBlock.ip_eq, isBlock.mask_eq, bytesOf_length, true_and, ne_eq, full]
  rw [← zero, ← one]
  rfl

/-- The gateway is in the subnet exactly when overwriting the last byte goes
one up from an even start, or changes nothing. -/
theorem contains_gateway_iff :
    block.contains (bytesOf (base - base % 256 + 1)) = true ↔
      (base % 256 = 0 ∧ prefixLength ≠ 32) ∨ (base % 256 = 1 ∧ prefixLength = 32) := by
  have baseLt := isBlock.base_lt
  have single := blockSize_eq_one_iff isBlock.prefix_le
  have positive := blockSize_pos prefixLength
  rw [contains_iff isBlock (by omega), ne_eq, ← single]
  constructor
  · rintro ⟨low, high⟩
    rcases Nat.lt_or_ge 1 (blockSize prefixLength) with wide | narrow
    · -- a block of more than one address starts at an even number
      have even : 2 ∣ base := by
        apply Dvd.dvd.trans _ isBlock.aligned
        apply dvd_pow_self 2
        intro zero
        rw [blockSize, zero] at wide
        exact absurd wide (by decide)
      omega
    · omega
  · rintro (⟨zero, wide⟩ | ⟨one, narrow⟩) <;> omega

theorem four_le_blockSize {first second : IP}
    (different : first ≠ second) (firstUsable : UsableHost block first)
    (secondUsable : UsableHost block second) : 4 ≤ blockSize prefixLength := by
  obtain ⟨i, iPositive, iBelow, rfl⟩ := (usableHost_iff isBlock).mp firstUsable
  obtain ⟨j, jPositive, jBelow, rfl⟩ := (usableHost_iff isBlock).mp secondUsable
  have apart : i ≠ j := by
    rintro rfl
    exact different rfl
  omega

theorem usableHost_gateway (zero : base % 256 = 0)
    (four : 4 ≤ blockSize prefixLength) :
    UsableHost block (bytesOf (base - base % 256 + 1)) := by
  have endLe := isBlock.end_le
  refine (usableHost_iff isBlock).mpr ⟨1, by omega, by omega, ?_⟩
  rw [addressAt, zero]
  rfl

theorem gatewayFits_isBlock :
    GatewayFits block (ipText (block.ip.set 3 1)) ↔ EndsInGateway block := by
  have baseLt := isBlock.base_lt
  rw [endsInGateway_iff isBlock, ← contains_gateway_iff isBlock, isBlock.ip_eq, set_bytesOf]
  constructor
  · rintro ⟨ip, four, same, inside, -⟩
    rwa [ipText_bytesOf_injective four (by omega) same] at inside
  · intro inside
    refine ⟨_, rfl, rfl, inside, ?_⟩
    rintro ⟨first, second, different, firstUsable, secondUsable⟩
    have wide := four_le_blockSize isBlock different firstUsable secondUsable
    have single := blockSize_eq_one_iff isBlock.prefix_le
    rcases (contains_gateway_iff isBlock).mp inside with ⟨zero, -⟩ | ⟨-, full⟩
    · exact usableHost_gateway isBlock zero wide
    · omega

end

/-! ### Blocks of sixteen bytes -/

theorem to4_set_mapped (ip4 : IP) : to4 ((v4InV6Prefix ++ ip4).set 3 1) = none := by
  simp [to4, v4InV6Prefix]

theorem not_gatewayFits_mapped {ip4 : IP} (mapped : block.ip = v4InV6Prefix ++ ip4) :
    ¬ GatewayFits block (ipText (block.ip.set 3 1)) := by
  rintro ⟨ip, four, same, -⟩
  obtain ⟨a, b, c, d, rfl⟩ := List.length_eq_four.mp four
  obtain ⟨value, valueLt, bytes⟩ := exists_bytesOf a b c d
  rw [bytes, mapped] at same
  apply ipString_ne_of_not_v4 (to4_set_mapped ip4) _ value
  · exact (String.ofList_injective same).symm
  · simp [v4InV6Prefix]

theorem parseCIDR_v4_cases {text : List Char} {ip4 : IP} (parsed : parseCIDR text = some block)
    (isV4 : to4 block.ip = some ip4) :
    (∃ base prefixLength, IsBlock block base prefixLength) ∨
      ∃ ip4, block.ip = v4InV6Prefix ++ ip4 := by
  obtain ⟨addr, addrText, n, readAddr, bound, mask, masked⟩ := parseCIDR_eq_some parsed
  obtain ⟨blockIP, blockMask⟩ := block
  simp only at mask masked isV4
  subst mask
  cases addr with
  | v4 bytes =>
    obtain ⟨four, rfl⟩ := applyMask_v4 masked
    obtain ⟨base, isBlock⟩ := exists_isBlock four bound
    exact .inl ⟨base, n, isBlock⟩
  | v6 bytes zone =>
    obtain ⟨-, -, -, -, mapped⟩ :=
      applyMask_v6 (length_of_parseAddr_v6 readAddr) masked isV4
    exact .inr ⟨ip4, mapped⟩

theorem parseSubnet_eq_ok {subnet : String} {gateway : IP}
    (accepted : parseSubnet subnet = .ok (block, gateway)) :
    parseCIDR subnet.toList = some block ∧ (∃ ip4, to4 block.ip = some ip4) ∧
      gateway = block.ip.set 3 1 := by
  simp only [parseSubnet] at accepted
  split at accepted
  · cases accepted
  · rename_i parsed read
    split at accepted
    · cases accepted
    · rename_i isV4
      simp only [Except.ok.injEq, Prod.mk.injEq] at accepted
      obtain ⟨rfl, rfl⟩ := accepted
      exact ⟨read, Option.ne_none_iff_exists'.mp isV4, rfl⟩

/-- The gateway that `Create` records for a subnet that `parseSubnet` accepts
is in the subnet, and a usable host if there are two, exactly when the network
address has four bytes and ends in 0, or is a single address ending in 1. -/
theorem gateway_fits_iff (sha256Hex : String → String) {store target : Store}
    {name subnet driver : String} {network : Network} {gateway : IP}
    (accepted : parseSubnet subnet = .ok (block, gateway))
    (created : create sha256Hex store name subnet driver = .ok (network, target)) :
    GatewayFits block network.gateway ↔ EndsInGateway block := by
  obtain ⟨parsed, ⟨ip4, isV4⟩, rfl⟩ := parseSubnet_eq_ok accepted
  have recorded : network.gateway = ipText (block.ip.set 3 1) := by
    obtain ⟨-, -, ipNet, gatewayIP, chosen, rfl, -⟩ := create_eq_ok created
    have given : subnet ≠ "" := by
      rintro rfl
      exact absurd parsed (by simp [parseCIDR])
    simp only [chooseSubnet, given, if_false, accepted] at chosen
    split at chosen
    · cases chosen
    · simp only [Except.ok.injEq, Prod.mk.injEq] at chosen
      rw [← chosen.2]
      rfl
  rw [recorded]
  rcases parseCIDR_v4_cases parsed isV4 with ⟨base, prefixLength, isBlock⟩ | ⟨bytes, mapped⟩
  · exact gatewayFits_isBlock isBlock
  · apply iff_of_false (not_gatewayFits_mapped mapped)
    rintro ⟨four, -⟩
    rw [mapped] at four
    simp [v4InV6Prefix] at four

theorem gateway_fits_iff_slash24 :
    ∃ network target, create (fun _ => "") [] "app" "10.0.0.0/24" "" = .ok (network, target) ∧
      network.gateway = "10.0.0.1" ∧
      (GatewayFits ⟨[10, 0, 0, 0], [255, 255, 255, 0]⟩ network.gateway ↔
        EndsInGateway ⟨[10, 0, 0, 0], [255, 255, 255, 0]⟩) := by
  have created : create (fun _ => "") [] "app" "10.0.0.0/24" "" =
      .ok (⟨"app", "app", "10.0.0.0/24", "10.0.0.1", "jerboa-br-app", "bridge"⟩,
        [("app", ⟨⟨"app", "app", "10.0.0.0/24", "10.0.0.1", "jerboa-br-app", "bridge"⟩,
          ⟨["10.0.0.1"], 2⟩⟩)]) := by
    decide
  have accepted : parseSubnet "10.0.0.0/24" =
      .ok (⟨[10, 0, 0, 0], [255, 255, 255, 0]⟩, [10, 0, 0, 1]) := by
    decide
  exact ⟨_, _, created, rfl, gateway_fits_iff _ accepted created⟩

/-- The upper half of a /24 gets a gateway in the lower half. -/
theorem gateway_outside_subnet :
    ∃ network target, create (fun _ => "") [] "app" "10.0.0.128/25" "" = .ok (network, target) ∧
      parseSubnet "10.0.0.128/25" =
        .ok (⟨[10, 0, 0, 128], [255, 255, 255, 128]⟩, [10, 0, 0, 1]) ∧
      ¬ GatewayFits ⟨[10, 0, 0, 128], [255, 255, 255, 128]⟩ network.gateway := by
  have created : create (fun _ => "") [] "app" "10.0.0.128/25" "" =
      .ok (⟨"app", "app", "10.0.0.128/25", "10.0.0.1", "jerboa-br-app", "bridge"⟩,
        [("app", ⟨⟨"app", "app", "10.0.0.128/25", "10.0.0.1", "jerboa-br-app", "bridge"⟩,
          ⟨["10.0.0.1"], 2⟩⟩)]) := by
    decide
  refine ⟨_, _, created, by decide, ?_⟩
  rintro ⟨ip, four, same, inside, -⟩
  have text : "10.0.0.1" = ipText (bytesOf 167772161) := by decide
  rw [ipText_bytesOf_injective four (by decide) (same.trans text)] at inside
  exact absurd inside (by decide)

end Jerboa.NetworkStore
