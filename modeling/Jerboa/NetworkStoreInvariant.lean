import Jerboa.NetworkAddressSearch

/-!
# Well-formed network directories

Every directory that a run of calls leaves in the store belongs to an IPv4
block whose text reads back, has its gateway no higher than the first host of
the block, and a cursor that never passes the block's end.
-/

namespace Jerboa.NetworkStore

open NetAddress TransitionSystem List

/-- What every run keeps of a directory: `block` is the subnet, an interval of
addresses that starts at `base`. -/
structure WellFormed (name : String) (dir : NetworkDir) (block : IPNet)
    (base prefixLength : Nat) : Prop where
  nameValid : networkDir name = .ok ()
  name_eq : dir.metadata.name = name
  isBlock : IsBlock block base prefixLength
  subnet_eq : dir.metadata.subnet = netText block
  gateway_low : ∀ value, base + 1 < value → value < 4294967296 →
    ipText (bytesOf value) ≠ dir.metadata.gateway
  cursor_ge : 2 ≤ dir.state.nextIndex
  cursor_le : CursorBound prefixLength dir.state.nextIndex

structure Invariant (store : Store) : Prop where
  distinct : (store.map Prod.fst).Nodup
  wellFormed : ∀ entry ∈ store, ∃ block base prefixLength,
    WellFormed entry.1 entry.2 block base prefixLength

/-! ### The subnet of a new network -/

/-- A chosen subnet with its gateway: the gateway is no higher than the first
host of the block. -/
def Chosen (ipNet : IPNet) (gatewayIP : IP) : Prop :=
  ∃ block base prefixLength, IsBlock block base prefixLength ∧
    netText ipNet = netText block ∧
    ∀ value, base + 1 < value → value < 4294967296 →
      ipText (bytesOf value) ≠ ipText gatewayIP

theorem set_lastByte_bytesOf (base : Nat) :
    (bytesOf base).set 3 1 = bytesOf (base - base % 256 + 1) := by
  simp only [bytesOf, set_cons_succ, set_cons_zero, List.cons.injEq, and_true,
    ← UInt8.toNat_inj, UInt8.toNat_ofNat']
  have one : (1 : UInt8).toNat = 1 := rfl
  omega

theorem gateway_low_of_base {base value : Nat} (baseLt : base < 4294967296)
    (high : base + 1 < value) (valueLt : value < 4294967296) :
    ipText (bytesOf value) ≠ ipText ((bytesOf base).set 3 1) := by
  intro same
  rw [set_lastByte_bytesOf] at same
  have equal := ipText_injective valueLt (by omega) same
  omega

theorem gateway_of_mapped (base value : Nat) :
    ipText (bytesOf value) ≠ ipText ((v4InV6Prefix ++ bytesOf base).set 3 1) := by
  intro same
  refine ipString_ne_of_not_v4 ?_ ?_ value (String.ofList_injective same).symm
  · simp [v4InV6Prefix, bytesOf, to4]
  · simp [v4InV6Prefix]

variable {gatewayIP : IP} {ipNet : IPNet} {store target : Store} {subnet name : String}
  {dir : NetworkDir} {sha256Hex : String → String}

theorem exists_isBlock_of_parseSubnet {cidr : String}
    (parsed : parseSubnet cidr = .ok (ipNet, gatewayIP)) :
    gatewayIP = ipNet.ip.set 3 1 ∧ ∃ block base prefixLength, IsBlock block base prefixLength ∧
      networkNumberAndMask ipNet = networkNumberAndMask block ∧
      (ipNet.ip = bytesOf base ∨ ipNet.ip = v4InV6Prefix ++ bytesOf base) := by
  unfold parseSubnet at parsed
  split at parsed
  · simp at parsed
  · rename_i read
    split at parsed
    · simp at parsed
    · rename_i isV4
      obtain ⟨rfl, rfl⟩ : _ ∧ _ := by simpa using parsed
      obtain ⟨ip4, isV4⟩ := Option.ne_none_iff_exists'.mp isV4
      exact ⟨rfl, exists_isBlock_of_parseCIDR read isV4⟩

theorem parseSubnet_chosen {cidr : String} (parsed : parseSubnet cidr = .ok (ipNet, gatewayIP)) :
    Chosen ipNet gatewayIP := by
  obtain ⟨rfl, block, base, prefixLength, isBlock, same, bytes⟩ :=
    exists_isBlock_of_parseSubnet parsed
  refine ⟨block, base, prefixLength, isBlock, ?_, ?_⟩
  · rw [netText, netText, string_eq_of_networkNumberAndMask same]
  · intro value high valueLt
    rcases bytes with four | mapped
    · rw [four]
      exact gateway_low_of_base isBlock.base_lt high valueLt
    · rw [mapped]
      exact gateway_of_mapped base value

theorem isBlock_candidate {i : Nat} (small : i < 256) :
    IsBlock ⟨[10, 100, UInt8.ofNat i, 0], cidrMask 24 32⟩ (174325760 + i * 256) 24 := by
  refine ⟨by omega, by omega, ?_, ?_, rfl⟩
  · change 256 ∣ _
    omega
  · simp only [bytesOf, List.cons.injEq, and_true, ← UInt8.toNat_inj, UInt8.toNat_ofNat']
    have ten : (10 : UInt8).toNat = 10 := rfl
    have hundred : (100 : UInt8).toNat = 100 := rfl
    have zero : (0 : UInt8).toNat = 0 := rfl
    omega

theorem allocateSubnetLoop_chosen {allocated : List AllocatedNet} {candidates : List Nat}
    (small : ∀ i ∈ candidates, i < 256)
    (found : allocateSubnetLoop [10, 100, 0, 0] allocated candidates = some (ipNet, gatewayIP)) :
    Chosen ipNet gatewayIP := by
  induction candidates with
  | nil => simp [allocateSubnetLoop] at found
  | cons i rest ih =>
    rw [allocateSubnetLoop] at found
    split at found
    · obtain ⟨rfl, rfl⟩ : _ ∧ _ := by simpa using found
      have isBlock := isBlock_candidate (small i (by simp))
      refine ⟨_, _, _, isBlock, rfl, ?_⟩
      intro value high valueLt
      have low := gateway_low_of_base isBlock.base_lt high valueLt
      rw [← isBlock.ip_eq] at low
      exact low
    · exact ih (fun j member => small j (by simp [member])) found

theorem chooseSubnet_chosen (chosen : chooseSubnet store subnet = .ok (ipNet, gatewayIP)) :
    Chosen ipNet gatewayIP := by
  simp only [chooseSubnet] at chosen
  split at chosen
  · have base : to4 defaultNet.ip = some [10, 100, 0, 0] := by decide
    rw [allocateSubnet, base, Option.bind_some] at chosen
    split at chosen
    · simp at chosen
    · rename_i found
      cases chosen
      exact allocateSubnetLoop_chosen (by simp) found
  · split at chosen
    · simp at chosen
    · rename_i parsed
      split at chosen
      · simp at chosen
      · obtain ⟨rfl, rfl⟩ : _ ∧ _ := by simpa using chosen
        exact parseSubnet_chosen parsed

/-! ### Directories by name -/

theorem mem_of_findDir (found : findDir store name = some dir) : (name, dir) ∈ store := by
  obtain ⟨⟨key, value⟩, hit, rfl⟩ := Option.map_eq_some_iff.mp found
  have keyEq : key = name := by simpa using find?_some hit
  exact keyEq ▸ mem_of_find?_eq_some hit

theorem eq_of_mem_of_findDir (distinct : (store.map Prod.fst).Nodup) {other : NetworkDir}
    (found : findDir store name = some dir) (member : (name, other) ∈ store) : other = dir := by
  have same := inj_on_of_nodup_map distinct member (mem_of_findDir found) rfl
  exact (Prod.mk.inj same).2

theorem not_mem_keys_of_findDir (missing : findDir store name = none) :
    name ∉ store.map Prod.fst := by
  intro member
  obtain ⟨entry, inStore, rfl⟩ := mem_map.mp member
  have absent := find?_eq_none.mp (Option.map_eq_none_iff.mp missing) entry inStore
  simp at absent

theorem keys_writeNetworkState (store : Store) (name : String) (state : NetworkState) :
    (writeNetworkState store name state).map Prod.fst = store.map Prod.fst := by
  rw [writeNetworkState, map_map]
  apply map_congr_left
  intro entry _
  simp only [Function.comp]
  split <;> rfl

theorem mem_writeNetworkState (distinct : (store.map Prod.fst).Nodup)
    (found : findDir store name = some dir) {state : NetworkState} {entry : String × NetworkDir}
    (member : entry ∈ writeNetworkState store name state) :
    entry = (name, { dir with state := state }) ∨ (entry ∈ store ∧ entry.1 ≠ name) := by
  obtain ⟨⟨key, old⟩, inStore, rfl⟩ := mem_map.mp member
  by_cases named : key = name
  · subst named
    rw [eq_of_mem_of_findDir distinct found inStore]
    simp
  · simp [named, inStore]

/-! ### What a call can do -/

theorem readNetwork_eq_ok (read : readNetwork store name = .ok dir) :
    networkDir name = .ok () ∧ findDir store name = some dir := by
  unfold readNetwork at read
  split at read
  · simp at read
  · split at read
    · simp at read
    · rename_i valid _ _ found
      cases read
      exact ⟨valid, found⟩

theorem create_eq_ok {driver : String} {network : Network}
    (created : create sha256Hex store name subnet driver = .ok (network, target)) :
    networkDir name = .ok () ∧ findDir store name = none ∧
      ∃ ipNet gatewayIP, chooseSubnet store subnet = .ok (ipNet, gatewayIP) ∧
        network = (newNetwork sha256Hex name driver ipNet gatewayIP).metadata ∧
        ensureBridgeAvailable store name network.bridge = .ok () ∧
        target = store ++ [(name, newNetwork sha256Hex name driver ipNet gatewayIP)] := by
  simp only [create] at created
  split at created
  · simp at created
  · split at created
    · simp at created
    · rename_i valid missing
      split at created
      · simp at created
      · rename_i ipNet gatewayIP chosen
        split at created
        · simp at created
        · rename_i available
          obtain ⟨rfl, rfl⟩ : _ ∧ _ := by simpa using created
          exact ⟨valid, by simpa using missing, ipNet, gatewayIP, chosen, rfl, available, rfl⟩

theorem remove_eq_ok (removed : remove store name = .ok target) :
    target = store.filter fun entry => entry.1 ≠ name := by
  unfold remove at removed
  cases read : readNetwork store name with
  | error e => simp [read, Except.map] at removed
  | ok dir =>
    rw [read] at removed
    exact (Except.ok.inj removed).symm

theorem reserveIP_eq_ok {ip : String} (reserved : reserveIP store name ip = .ok target) :
    ∃ dir allocatedIPs, findDir store name = some dir ∧
      target = writeNetworkState store name
        { dir.state with allocatedIPs := allocatedIPs } := by
  simp only [reserveIP] at reserved
  split at reserved
  · simp at reserved
  · rename_i dir read
    refine ⟨dir, ?_⟩
    repeat' split at reserved
    all_goals simp only [reduceCtorEq, Except.ok.injEq] at reserved
    exact ⟨_, (readNetwork_eq_ok read).2, reserved.symm⟩

theorem releaseIP_eq_ok {ip : String} (released : releaseIP store name ip = .ok target) :
    ∃ dir, findDir store name = some dir ∧
      target = writeNetworkState store name
        { dir.state with allocatedIPs := dir.state.allocatedIPs.erase ip } := by
  unfold releaseIP at released
  split at released
  · simp at released
  · rename_i dir read
    exact ⟨dir, (readNetwork_eq_ok read).2, (Except.ok.inj released).symm⟩

theorem allocateIP_eq_ok {ip : IP} (allocated : allocateIP store name = some (.ok (ip, target))) :
    ∃ dir block nextIndex, findDir store name = some dir ∧
      parseCIDR dir.metadata.subnet.toList = some block ∧
      searchIP block dir.state.allocatedIPs (dir.state.allocatedIPs.length + 1)
        dir.state.nextIndex = .found ip nextIndex ∧
      target = writeNetworkState store name
        { allocatedIPs := dir.state.allocatedIPs ++ [ipText ip], nextIndex := nextIndex } := by
  unfold allocateIP at allocated
  split at allocated
  · simp at allocated
  · rename_i dir read
    split at allocated
    · simp at allocated
    · rename_i block parsed
      split at allocated
      · simp at allocated
      · simp at allocated
      · rename_i found nextIndex search
        obtain ⟨rfl, rfl⟩ : _ ∧ _ := by simpa using allocated
        exact ⟨dir, block, nextIndex, (readNetwork_eq_ok read).2, parsed, search, rfl⟩

/-- A call that fails leaves the store as it is. -/
theorem step_cases {call : Call} (stepped : step sha256Hex store call = some target) :
    target = store ∨
      (∃ name subnet driver network,
        create sha256Hex store name subnet driver = .ok (network, target)) ∨
      (∃ name, remove store name = .ok target) ∨
      (∃ name ip, reserveIP store name ip = .ok target) ∨
      (∃ name ip, allocateIP store name = some (.ok (ip, target))) ∨
      ∃ name ip, releaseIP store name ip = .ok target := by
  cases call with simp only [step] at stepped
  | create name subnet driver =>
    split at stepped <;> cases stepped
    · exact .inr (.inl ⟨_, _, _, _, ‹_›⟩)
    · exact .inl rfl
  | remove name =>
    split at stepped <;> cases stepped
    · exact .inr (.inr (.inl ⟨_, ‹_›⟩))
    · exact .inl rfl
  | reserveIP name ip =>
    split at stepped <;> cases stepped
    · exact .inr (.inr (.inr (.inl ⟨_, _, ‹_›⟩)))
    · exact .inl rfl
  | allocateIP name =>
    split at stepped <;> cases stepped
    · exact .inr (.inr (.inr (.inr (.inl ⟨_, _, ‹_›⟩))))
    · exact .inl rfl
  | releaseIP name ip =>
    split at stepped <;> cases stepped
    · exact .inr (.inr (.inr (.inr (.inr ⟨_, _, ‹_›⟩))))
    · exact .inl rfl

/-! ### Every run keeps the directories well formed -/

theorem newNetwork_wellFormed (sha256Hex : String → String) (driver : String)
    (valid : networkDir name = .ok ()) (chosen : Chosen ipNet gatewayIP) :
    ∃ block base prefixLength,
      WellFormed name (newNetwork sha256Hex name driver ipNet gatewayIP)
        block base prefixLength := by
  obtain ⟨block, base, prefixLength, isBlock, text, low⟩ := chosen
  exact ⟨block, base, prefixLength, valid, rfl, isBlock, text, low, le_rfl,
    fun _ => le_max_left _ _⟩

theorem WellFormed.parse_subnet {block : IPNet} {base prefixLength : Nat}
    (wellFormed : WellFormed name dir block base prefixLength) :
    parseCIDR dir.metadata.subnet.toList = some block := by
  rw [wellFormed.subnet_eq, netText, String.toList_ofList]
  exact parseCIDR_string wellFormed.isBlock

section

variable (invariant : Invariant store)

include invariant

theorem Invariant.write (found : findDir store name = some dir)
    {state : NetworkState}
    (cursor : ∀ block base prefixLength, WellFormed name dir block base prefixLength →
      2 ≤ state.nextIndex ∧ CursorBound prefixLength state.nextIndex) :
    Invariant (writeNetworkState store name state) := by
  refine ⟨?_, ?_⟩
  · rw [keys_writeNetworkState]
    exact invariant.distinct
  · intro entry member
    rcases mem_writeNetworkState invariant.distinct found member with rfl | ⟨old, -⟩
    · obtain ⟨block, base, prefixLength, wellFormed⟩ :=
        invariant.wellFormed _ (mem_of_findDir found)
      obtain ⟨low, high⟩ := cursor block base prefixLength wellFormed
      exact ⟨block, base, prefixLength,
        { wellFormed with cursor_ge := low, cursor_le := high }⟩
    · exact invariant.wellFormed entry old

theorem Invariant.write_allocated
    (found : findDir store name = some dir) (allocatedIPs : List String) :
    Invariant (writeNetworkState store name
      { dir.state with allocatedIPs := allocatedIPs }) :=
  invariant.write found fun _ _ _ wellFormed => ⟨wellFormed.cursor_ge, wellFormed.cursor_le⟩

theorem Invariant.create {driver : String} {network : Network}
    (created : create sha256Hex store name subnet driver = .ok (network, target)) :
    Invariant target := by
  obtain ⟨valid, missing, ipNet, gatewayIP, chosen, -, -, rfl⟩ := create_eq_ok created
  refine ⟨?_, ?_⟩
  · rw [map_append, nodup_append]
    refine ⟨invariant.distinct, by simp, ?_⟩
    rintro key old other new rfl
    have keyEq : key = name := by simpa using new
    exact not_mem_keys_of_findDir missing (keyEq ▸ old)
  · intro entry member
    rcases mem_append.mp member with old | new
    · exact invariant.wellFormed entry old
    · obtain rfl := mem_singleton.mp new
      exact newNetwork_wellFormed sha256Hex driver valid (chooseSubnet_chosen chosen)

theorem Invariant.remove (removed : remove store name = .ok target) :
    Invariant target := by
  obtain rfl := remove_eq_ok removed
  refine ⟨?_, ?_⟩
  · exact invariant.distinct.sublist (filter_sublist.map _)
  · intro entry member
    exact invariant.wellFormed entry (mem_of_mem_filter member)

theorem Invariant.allocateIP {ip : IP}
    (allocated : allocateIP store name = some (.ok (ip, target))) : Invariant target := by
  obtain ⟨dir, block, nextIndex, found, parsed, search, rfl⟩ := allocateIP_eq_ok allocated
  apply invariant.write found
  intro block' base prefixLength wellFormed
  obtain rfl : block = block' := by
    rw [wellFormed.parse_subnet] at parsed
    exact (Option.some.inj parsed).symm
  obtain ⟨i, low, inRange, rfl, -⟩ :=
    searchIP_found wellFormed.isBlock wellFormed.cursor_le search
  have cursor := wellFormed.cursor_ge
  refine ⟨by simp only; omega, ?_⟩
  intro positive
  rcases inRange with zero | below
  · omega
  · exact le_max_of_le_right below

theorem Invariant.step {call : Call} (stepped : step sha256Hex store call = some target) :
    Invariant target := by
  rcases step_cases stepped with rfl | ⟨_, _, _, _, created⟩ | ⟨_, removed⟩ | ⟨_, _, reserved⟩ |
    ⟨_, _, allocated⟩ | ⟨_, _, released⟩
  · exact invariant
  · exact invariant.create created
  · exact invariant.remove removed
  · obtain ⟨dir, allocatedIPs, found, rfl⟩ := reserveIP_eq_ok reserved
    exact invariant.write_allocated found allocatedIPs
  · exact invariant.allocateIP allocated
  · obtain ⟨dir, found, rfl⟩ := releaseIP_eq_ok released
    exact invariant.write_allocated found _

end

theorem invariant_of_reachable (reached : (system sha256Hex).Reachable store) :
    Invariant store := by
  apply Reachable.invariant _ _ reached
  · rintro _ rfl
    exact ⟨nodup_nil, by simp⟩
  · intro store call target invariant stepped
    exact invariant.step stepped

end Jerboa.NetworkStore
