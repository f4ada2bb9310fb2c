import Jerboa.NetworkOccupancy
import Mathlib.Data.Set.Lattice
import Mathlib.Order.CompletePartialOrder

/-!
# Networks keep apart

`Create` tests a new subnet against the base addresses of the others, and a
new bridge name against the names in use.  Every store that a run leaves behind
has networks with disjoint subnets and different bridges.
-/

namespace Jerboa.NetworkStore

open NetAddress TransitionSystem List

/-! ### Blocks that overlap -/

theorem contains_of_to4 {ip ip4 : IP} (isV4 : to4 ip = some ip4) (block : IPNet) :
    block.contains ip = block.contains ip4 := by
  obtain ⟨a, b, c, d, rfl⟩ := exists_bytes_of_to4 isV4
  have four : to4 [a, b, c, d] = some [a, b, c, d] := by simp [to4]
  simp only [IPNet.contains, isV4, four, Option.getD_some]

variable {base prefixLength : Nat} {block ipNet : IPNet} {network : Network} {store : Store}
  {allocated : List AllocatedNet} {gatewayIP : IP} {sha256Hex : String → String} {name : String}

theorem exists_value_of_contains (isBlock : IsBlock block base prefixLength) {ip : IP}
    (contains : block.contains ip = true) :
    ∃ value < 4294967296, to4 ip = some (bytesOf value) := by
  have four : ((to4 ip).getD ip).length = 4 := by
    have same : networkNumberAndMask block = some (bytesOf base, cidrMask prefixLength 32) := by
      simp [networkNumberAndMask, isBlock.ip_eq, isBlock.mask_eq]
    simp only [IPNet.contains, same, Bool.and_eq_true, decide_eq_true_eq] at contains
    simpa using contains.1
  cases isV4 : to4 ip with
  | none =>
    rw [isV4, Option.getD_none] at four
    simp [to4, four] at isV4
  | some ip4 =>
    obtain ⟨a, b, c, d, rfl⟩ := exists_bytes_of_to4 isV4
    obtain ⟨value, valueLt, bytes⟩ := exists_bytesOf a b c d
    exact ⟨value, valueLt, by rw [bytes]⟩

theorem contains_base (isBlock : IsBlock block base prefixLength) :
    block.contains block.ip = true := by
  rw [isBlock.ip_eq, contains_iff isBlock isBlock.base_lt]
  have positive := blockSize_pos prefixLength
  omega

theorem subnetsOverlap_iff {first second : IPNet} {base' prefixLength' : Nat}
    (isBlock : IsBlock first base prefixLength) (isBlock' : IsBlock second base' prefixLength') :
    subnetsOverlap first second = true ↔
      ∃ ip, first.contains ip = true ∧ second.contains ip = true := by
  rw [subnetsOverlap, Bool.or_eq_true]
  constructor
  · rintro (inFirst | inSecond)
    · exact ⟨second.ip, inFirst, contains_base isBlock'⟩
    · exact ⟨first.ip, contains_base isBlock, inSecond⟩
  · intro ⟨ip, inFirst, inSecond⟩
    obtain ⟨value, valueLt, isV4⟩ := exists_value_of_contains isBlock inFirst
    rw [contains_of_to4 isV4, contains_iff isBlock valueLt] at inFirst
    rw [contains_of_to4 isV4, contains_iff isBlock' valueLt] at inSecond
    rw [isBlock'.ip_eq, isBlock.ip_eq, contains_iff isBlock isBlock'.base_lt,
      contains_iff isBlock' isBlock.base_lt]
    omega

/-! ### The networks of a store -/

def networks (store : Store) : List Network :=
  store.map fun entry => entry.2.metadata

def addresses (network : Network) : Set IP :=
  { ip | ∃ block, parseCIDR network.subnet.toList = some block ∧ block.contains ip = true }

def HasBlock (network : Network) (block : IPNet) : Prop :=
  network.subnet = netText block ∧ ∃ base prefixLength, IsBlock block base prefixLength

theorem HasBlock.parse (hasBlock : HasBlock network block) :
    parseCIDR network.subnet.toList = some block := by
  obtain ⟨text, base, prefixLength, isBlock⟩ := hasBlock
  rw [text, netText, String.toList_ofList]
  exact parseCIDR_string isBlock

theorem HasBlock.mem_addresses (hasBlock : HasBlock network block) (ip : IP) :
    ip ∈ addresses network ↔ block.contains ip = true := by
  simp [addresses, hasBlock.parse]

theorem exists_hasBlock (invariant : Invariant store) (member : network ∈ networks store) :
    ∃ block, HasBlock network block := by
  obtain ⟨entry, inStore, rfl⟩ := mem_map.mp member
  obtain ⟨block, base, prefixLength, wellFormed⟩ := invariant.wellFormed entry inStore
  exact ⟨block, wellFormed.subnet_eq, base, prefixLength, wellFormed.isBlock⟩

theorem mem_allocatedSubnets (member : network ∈ networks store) (hasBlock : HasBlock network block) :
    ⟨block, network.name⟩ ∈ allocatedSubnets store := by
  obtain ⟨entry, inStore, rfl⟩ := mem_map.mp member
  apply mem_filterMap.mpr
  refine ⟨entry, ?_, by rw [hasBlock.parse]; rfl⟩
  exact (perm_insertionSort _ store).mem_iff.mpr inStore

theorem exists_of_mem_allocatedSubnets {a : AllocatedNet} (member : a ∈ allocatedSubnets store) :
    ∃ network ∈ networks store, parseCIDR network.subnet.toList = some a.ipNet := by
  obtain ⟨entry, inDir, parsed⟩ := mem_filterMap.mp member
  obtain ⟨block, read, rfl⟩ := Option.map_eq_some_iff.mp parsed
  have inStore := (perm_insertionSort _ store).mem_iff.mp inDir
  exact ⟨_, mem_map_of_mem inStore, read⟩

/-! ### The subnet of a new network -/

theorem overlappingSubnet_eq_none {candidate : IPNet} :
    overlappingSubnet candidate allocated = none ↔
      ∀ a ∈ allocated, subnetsOverlap candidate a.ipNet = false := by
  simp [overlappingSubnet, find?_eq_none]

/-- A subnet that may be given to a new network: a block, in the form that its
text reads back as, that overlaps none in use. -/
def Free (store : Store) (ipNet : IPNet) : Prop :=
  ∃ block base prefixLength, IsBlock block base prefixLength ∧ netText ipNet = netText block ∧
    ∀ a ∈ allocatedSubnets store, subnetsOverlap block a.ipNet = false

theorem subnetsOverlap_eq (isBlock : IsBlock block base prefixLength)
    (same : networkNumberAndMask ipNet = networkNumberAndMask block)
    (bytes : ipNet.ip = bytesOf base ∨ ipNet.ip = v4InV6Prefix ++ bytesOf base) (other : IPNet) :
    subnetsOverlap ipNet other = subnetsOverlap block other := by
  have isV4 : to4 ipNet.ip = some (bytesOf base) := by
    rcases bytes with four | mapped
    · rw [four, to4_bytesOf]
    · rw [mapped]
      simp [to4, v4InV6Prefix, bytesOf]
  rw [subnetsOverlap, subnetsOverlap, contains_eq_of_networkNumberAndMask same,
    contains_of_to4 isV4, isBlock.ip_eq]

theorem free_of_parseSubnet {cidr : String} (parsed : parseSubnet cidr = .ok (ipNet, gatewayIP))
    (free : overlappingSubnet ipNet (allocatedSubnets store) = none) : Free store ipNet := by
  obtain ⟨-, block, base, prefixLength, isBlock, same, bytes⟩ :=
    exists_isBlock_of_parseSubnet parsed
  refine ⟨block, base, prefixLength, isBlock, ?_, ?_⟩
  · rw [netText, netText, string_eq_of_networkNumberAndMask same]
  · intro a member
    rw [← subnetsOverlap_eq isBlock same bytes]
    exact overlappingSubnet_eq_none.mp free a member

def candidateNet (i : Nat) : IPNet :=
  ⟨[10, 100, UInt8.ofNat i, 0], cidrMask 24 32⟩

theorem isBlock_candidateNet {i : Nat} (small : i < 256) :
    IsBlock (candidateNet i) (174325760 + i * 256) 24 :=
  isBlock_candidate small

theorem allocateSubnetLoop_found {candidates : List Nat}
    (found : allocateSubnetLoop [10, 100, 0, 0] allocated candidates = some (ipNet, gatewayIP)) :
    ∃ i ∈ candidates, ipNet = candidateNet i ∧ overlappingSubnet ipNet allocated = none := by
  induction candidates with
  | nil => simp [allocateSubnetLoop] at found
  | cons i rest ih =>
    rw [allocateSubnetLoop] at found
    split at found
    · rename_i free
      obtain ⟨rfl, rfl⟩ : _ ∧ _ := by simpa using found
      exact ⟨i, by simp, rfl, free⟩
    · obtain ⟨j, member, same, free⟩ := ih found
      exact ⟨j, by simp [member], same, free⟩

theorem allocateSubnetLoop_exhausted {candidates : List Nat}
    (exhausted : allocateSubnetLoop [10, 100, 0, 0] allocated candidates = none) :
    ∀ i ∈ candidates, overlappingSubnet (candidateNet i) allocated ≠ none := by
  induction candidates with
  | nil => simp
  | cons i rest ih =>
    rw [allocateSubnetLoop] at exhausted
    split at exhausted
    · simp at exhausted
    · rename_i conflict overlap
      rw [forall_mem_cons]
      refine ⟨?_, ih exhausted⟩
      rw [show candidateNet i = ⟨([10, 100, 0, 0].set 2 (UInt8.ofNat i)).set 3 0,
        cidrMask 24 32⟩ from rfl, overlap]
      simp

theorem to4_defaultNet : to4 defaultNet.ip = some [10, 100, 0, 0] := by
  decide

theorem chooseSubnet_free {subnet : String}
    (chosen : chooseSubnet store subnet = .ok (ipNet, gatewayIP)) : Free store ipNet := by
  simp only [chooseSubnet] at chosen
  split at chosen
  · cases loop : allocateSubnetLoop [10, 100, 0, 0] (allocatedSubnets store) (List.range 256) with
    | none => simp [allocateSubnet, to4_defaultNet, loop] at chosen
    | some found =>
      obtain rfl : found = (ipNet, gatewayIP) := by
        simpa [allocateSubnet, to4_defaultNet, loop] using chosen
      obtain ⟨i, member, rfl, free⟩ := allocateSubnetLoop_found loop
      exact ⟨_, _, _, isBlock_candidateNet (mem_range.mp member), rfl,
        overlappingSubnet_eq_none.mp free⟩
  · split at chosen
    · simp at chosen
    · rename_i parsed
      split at chosen
      · simp at chosen
      · rename_i free
        obtain ⟨rfl, rfl⟩ : _ ∧ _ := by simpa using chosen
        exact free_of_parseSubnet parsed free

/-! ### Bridge names -/

def IsHex (text : String) : Prop :=
  ∀ c ∈ text.toList, c ∈ "0123456789abcdef".toList

theorem utf8ByteSize_le_of_isHex {digits : List Char}
    (hex : ∀ c ∈ digits, c ∈ "0123456789abcdef".toList) :
    (String.ofList digits).utf8ByteSize ≤ digits.length := by
  induction digits with
  | nil => simp
  | cons digit rest ih =>
    rw [forall_mem_cons] at hex
    have oneByte : digit.utf8Size = 1 := by
      have all : ("0123456789abcdef".toList.all fun c => c.utf8Size == 1) = true := by decide
      exact eq_of_beq (all_eq_true.mp all digit hex.1)
    have shorter := ih hex.2
    rw [String.ofList_cons, String.utf8ByteSize_append, String.utf8ByteSize_singleton, oneByte,
      length_cons]
    omega

theorem deriveBridgeName_short (hex : ∀ text, IsHex (sha256Hex text)) (name : String) :
    (deriveBridgeName sha256Hex name).utf8ByteSize ≤ maxIfaceNameLen := by
  simp only [deriveBridgeName]
  split
  · assumption
  · have digits := @utf8ByteSize_le_of_isHex
      ((sha256Hex name).toList.take (maxIfaceNameLen - bridgePrefix.utf8ByteSize))
      (fun c member => hex name c (mem_of_mem_take member))
    have size : bridgePrefix.utf8ByteSize = 10 := by decide
    rw [String.utf8ByteSize_append]
    rw [length_take, size] at digits
    simp only [size, maxIfaceNameLen] at digits ⊢
    omega

theorem ensureBridgeAvailable_eq_ok {bridge : String} :
    ensureBridgeAvailable store name bridge = .ok () ↔
      ∀ network ∈ networks store, network.bridge = bridge → network.name = name := by
  have mem_readDir : ∀ entry, entry ∈ readDir store ↔ entry ∈ store :=
    fun _ => (perm_insertionSort _ store).mem_iff
  unfold ensureBridgeAvailable
  cases search : (readDir store).find? fun entry =>
      entry.2.metadata.name ≠ name ∧ entry.2.metadata.bridge = bridge with
  | none =>
    simp only [true_iff]
    intro network member sameBridge
    obtain ⟨entry, inStore, rfl⟩ := mem_map.mp member
    have absent := find?_eq_none.mp search entry ((mem_readDir entry).mpr inStore)
    by_contra other
    simp [other, sameBridge] at absent
  | some entry =>
    simp only [reduceCtorEq, false_iff]
    intro unique
    have inStore := (mem_readDir entry).mp (mem_of_find?_eq_some search)
    have found := find?_some search
    simp only [decide_eq_true_eq] at found
    exact found.1 (unique _ (mem_map_of_mem inStore) found.2)

theorem name_ne_of_findDir (invariant : Invariant store) (missing : findDir store name = none)
    (member : network ∈ networks store) :
    network.name ≠ name := by
  intro same
  obtain ⟨entry, inStore, rfl⟩ := mem_map.mp member
  obtain ⟨_, _, _, wellFormed⟩ := invariant.wellFormed entry inStore
  apply not_mem_keys_of_findDir missing
  rw [← same, wellFormed.name_eq]
  exact mem_map_of_mem inStore

/-! ### Runs -/

/-- Subnets without a common address, and different bridges with names that the
kernel takes. -/
structure Separated (networks : List Network) : Prop where
  blocks : ∀ network ∈ networks, (parseCIDR network.subnet.toList).isSome
  subnets : networks.Pairwise fun first second => Disjoint (addresses first) (addresses second)
  bridges : (networks.map Network.bridge).Nodup
  bridgeNames : ∀ network ∈ networks, network.bridge.utf8ByteSize ≤ maxIfaceNameLen

/-- What every run keeps of the networks themselves. -/
structure Apart (sha256Hex : String → String) (networks : List Network) : Prop where
  subnets : networks.Pairwise fun first second => Disjoint (addresses first) (addresses second)
  bridges : (networks.map Network.bridge).Nodup
  derived : ∀ network ∈ networks, network.bridge = deriveBridgeName sha256Hex network.name

theorem networks_writeNetworkState (store : Store) (name : String) (state : NetworkState) :
    networks (writeNetworkState store name state) = networks store := by
  rw [networks, writeNetworkState, map_map]
  apply map_congr_left
  intro entry _
  simp only [Function.comp]
  split <;> rfl

theorem Apart.create {target : Store} (invariant : Invariant store)
    (apart : Apart sha256Hex (networks store)) {subnet driver : String}
    (created : create sha256Hex store name subnet driver = .ok (network, target)) :
    Apart sha256Hex (networks target) := by
  obtain ⟨valid, missing, ipNet, gatewayIP, chosen, same, available, rfl⟩ := create_eq_ok created
  obtain ⟨block, base, prefixLength, isBlock, text, free⟩ := chooseSubnet_free chosen
  have hasBlock : HasBlock network block := ⟨by rw [same, ← text]; rfl, base, prefixLength, isBlock⟩
  have added : networks (store ++ [(name, newNetwork sha256Hex name driver ipNet gatewayIP)]) =
      networks store ++ [network] := by
    rw [networks, map_append, same]
    rfl
  rw [added]
  constructor
  · rw [pairwise_append]
    refine ⟨apart.subnets, pairwise_singleton _ _, ?_⟩
    intro old member new isNew
    obtain rfl := mem_singleton.mp isNew
    obtain ⟨block', hasBlock'⟩ := exists_hasBlock invariant member
    obtain ⟨base', prefixLength', isBlock'⟩ := hasBlock'.2
    rw [Set.disjoint_left]
    intro ip inOld inNew
    have overlap := (subnetsOverlap_iff isBlock isBlock').mpr
      ⟨ip, (hasBlock.mem_addresses ip).mp inNew, (hasBlock'.mem_addresses ip).mp inOld⟩
    rw [free _ (mem_allocatedSubnets member hasBlock')] at overlap
    simp at overlap
  · rw [map_append, nodup_append]
    refine ⟨apart.bridges, by simp, ?_⟩
    rintro bridge old new isNew rfl
    obtain rfl : bridge = network.bridge := by simpa using isNew
    obtain ⟨other, member, bridgeEq⟩ := mem_map.mp old
    have sameName := (ensureBridgeAvailable_eq_ok.mp available) other member bridgeEq
    exact name_ne_of_findDir invariant missing member sameName
  · intro other member
    rcases mem_append.mp member with old | new
    · exact apart.derived other old
    · obtain rfl := mem_singleton.mp new
      rw [same]
      rfl

theorem Apart.sublist {fewer more : List Network} (apart : Apart sha256Hex more)
    (sublist : fewer.Sublist more) : Apart sha256Hex fewer where
  subnets := apart.subnets.sublist sublist
  bridges := apart.bridges.sublist (sublist.map _)
  derived network member := apart.derived network (sublist.subset member)

theorem Apart.step {target : Store} {call : Call} (invariant : Invariant store)
    (apart : Apart sha256Hex (networks store)) (stepped : step sha256Hex store call = some target) :
    Apart sha256Hex (networks target) := by
  rcases step_cases stepped with rfl | ⟨_, _, _, _, created⟩ | ⟨_, removed⟩ | ⟨_, _, reserved⟩ |
    ⟨_, _, allocated⟩ | ⟨_, _, released⟩
  · exact apart
  · exact apart.create invariant created
  · obtain rfl := remove_eq_ok removed
    exact apart.sublist (filter_sublist.map _)
  · obtain ⟨_, _, -, rfl⟩ := reserveIP_eq_ok reserved
    rwa [networks_writeNetworkState]
  · obtain ⟨_, _, _, -, -, -, rfl⟩ := allocateIP_eq_ok allocated
    rwa [networks_writeNetworkState]
  · obtain ⟨_, -, rfl⟩ := releaseIP_eq_ok released
    rwa [networks_writeNetworkState]

theorem apart_of_reachable (reached : (system sha256Hex).Reachable store) :
    Apart sha256Hex (networks store) := by
  induction reached with
  | start first =>
    obtain rfl := first
    exact ⟨List.Pairwise.nil, nodup_nil, by simp [networks]⟩
  | next previous _ stepped ih => exact ih.step (invariant_of_reachable previous) stepped

theorem separated_of_reachable (hex : ∀ text, IsHex (sha256Hex text))
    (reached : (system sha256Hex).Reachable store) : Separated (networks store) := by
  have apart := apart_of_reachable reached
  refine ⟨?_, apart.subnets, apart.bridges, ?_⟩
  · intro network member
    obtain ⟨block, hasBlock⟩ := exists_hasBlock (invariant_of_reachable reached) member
    rw [hasBlock.parse]
    rfl
  · intro network member
    rw [apart.derived network member]
    exact deriveBridgeName_short hex network.name

/-! ### When no subnet is given -/

/-- Every block of 256 addresses that `Create` tries has an address in common
with a network of the store. -/
def NoCandidate (store : Store) : Prop :=
  ∀ i < 256, ∃ network ∈ networks store, ∃ ip, (candidateNet i).contains ip = true ∧
    ip ∈ addresses network

def BridgeTaken (sha256Hex : String → String) (store : Store) (name : String) : Prop :=
  ∃ network ∈ networks store, network.bridge = deriveBridgeName sha256Hex name

theorem noCandidate_of_exhausted (invariant : Invariant store)
    (exhausted : allocateSubnetLoop [10, 100, 0, 0] (allocatedSubnets store) (List.range 256) =
      none) : NoCandidate store := by
  intro i small
  have overlaps := allocateSubnetLoop_exhausted exhausted i (mem_range.mpr small)
  rw [Ne, overlappingSubnet_eq_none] at overlaps
  push Not at overlaps
  obtain ⟨a, member, overlap⟩ := overlaps
  obtain ⟨network, inStore, read⟩ := exists_of_mem_allocatedSubnets member
  obtain ⟨block, hasBlock⟩ := exists_hasBlock invariant inStore
  obtain ⟨base, prefixLength, isBlock⟩ := hasBlock.2
  obtain rfl : block = a.ipNet := by
    rw [hasBlock.parse] at read
    exact Option.some.inj read
  obtain ⟨ip, inCandidate, inBlock⟩ :=
    (subnetsOverlap_iff (isBlock_candidateNet small) isBlock).mp (by simpa using overlap)
  exact ⟨network, inStore, ip, inCandidate, (hasBlock.mem_addresses ip).mpr inBlock⟩

/-- With a valid name and no subnet, `Create` fails only for want of a block or
of a bridge name. -/
theorem create_default_error (invariant : Invariant store)
    (apart : Apart sha256Hex (networks store)) {driver : String} {e : NetworkError}
    (valid : networkDir name = .ok ()) (failed : create sha256Hex store name "" driver = .error e) :
    NoCandidate store ∨ BridgeTaken sha256Hex store name := by
  simp only [create, valid] at failed
  split at failed
  · -- a network of this name has the bridge of the name
    rename_i present
    obtain ⟨dir, found⟩ := Option.isSome_iff_exists.mp present
    obtain ⟨_, _, _, wellFormed⟩ := invariant.wellFormed _ (mem_of_findDir found)
    have member : dir.metadata ∈ networks store :=
      mem_map.mpr ⟨(name, dir), mem_of_findDir found, rfl⟩
    refine .inr ⟨dir.metadata, member, ?_⟩
    rw [apart.derived _ member, wellFormed.name_eq]
  · cases loop : allocateSubnetLoop [10, 100, 0, 0] (allocatedSubnets store) (List.range 256) with
    | none => exact .inl (noCandidate_of_exhausted invariant loop)
    | some found =>
      right
      obtain ⟨ipNet, gatewayIP⟩ := found
      have chosen : chooseSubnet store "" = .ok (ipNet, gatewayIP) := by
        simp [chooseSubnet, allocateSubnet, to4_defaultNet, loop]
      rw [chosen] at failed
      have unavailable : ensureBridgeAvailable store name (deriveBridgeName sha256Hex name) ≠
          .ok () := by
        intro available
        simp [newNetwork, available] at failed
      rw [Ne, ensureBridgeAvailable_eq_ok] at unavailable
      push Not at unavailable
      obtain ⟨network, member, taken, -⟩ := unavailable
      exact ⟨network, member, taken⟩

/-- In every run the networks keep apart, and a network without a given subnet
is refused only for its name, for want of a free block or for want of its
bridge. -/
theorem networks_separated {sha256Hex : String → String} (hex : ∀ text, IsHex (sha256Hex text))
    {store : Store} (reached : (system sha256Hex).Reachable store) :
    Separated (networks store) ∧
      ∀ name driver e, create sha256Hex store name "" driver = .error e →
        networkDir name ≠ .ok () ∨ NoCandidate store ∨ BridgeTaken sha256Hex store name := by
  refine ⟨separated_of_reachable hex reached, ?_⟩
  intro name driver e failed
  by_cases valid : networkDir name = .ok ()
  · exact .inr (create_default_error (invariant_of_reachable reached) (apart_of_reachable reached)
      valid failed)
  · exact .inl valid

/-- A network gets the first block beside a wider subnet. -/
theorem networks_separated_beside :
    ∃ store, (system fun _ => "").run []
        [.create "wide" "10.100.0.0/23" "", .create "app" "" ""] = some store ∧
      (networks store).map Network.subnet = ["10.100.0.0/23", "10.100.2.0/24"] ∧
      Separated (networks store) := by
  have ran : ((system fun _ => "").run []
      [.create "wide" "10.100.0.0/23" "", .create "app" "" ""]).map
        (fun store => (networks store).map Network.subnet) =
      some ["10.100.0.0/23", "10.100.2.0/24"] := by
    decide
  obtain ⟨store, run, subnets⟩ := Option.map_eq_some_iff.mp ran
  have hex : ∀ text : String, IsHex ((fun _ => "") text) := by simp [IsHex]
  exact ⟨store, run, subnets, (networks_separated hex ((Reachable.start rfl).run run)).1⟩

/-- Every block and every bridge name is free, but the empty name is not one. -/
theorem create_default_invalid_name :
    (∃ e, create (fun _ => "") [] "" "" "" = .error e) ∧ ¬ NoCandidate [] ∧
      ¬ BridgeTaken (fun _ => "") [] "" := by
  refine ⟨⟨_, rfl⟩, ?_, ?_⟩
  · intro exhausted
    obtain ⟨network, member, -⟩ := exhausted 0 (by decide)
    simp [networks] at member
  · rintro ⟨network, member, -⟩
    simp [networks] at member

end Jerboa.NetworkStore
