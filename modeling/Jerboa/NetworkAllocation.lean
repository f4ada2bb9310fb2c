import Jerboa.NetworkStoreInvariant

/-!
# What AllocateIP gives out, and when it gives up

The two directions of the address allocator over every history of calls.  The
cursor only moves forward, so an address released below it is never offered
again, and the search makes no exception for the broadcast address, so it is
handed out once nothing below it is free.
-/

namespace Jerboa.NetworkStore

open NetAddress TransitionSystem

variable {store : Store} {name : String} {dir : NetworkDir} {block : IPNet}
  {base prefixLength : Nat}

theorem networkOrBroadcast_iff (isBlock : IsBlock block base prefixLength) {value : Nat}
    (valueLt : value < 4294967296) :
    networkOrBroadcast block (bytesOf value) = true ↔
      value = base ∨ value = base + (blockSize prefixLength - 1) := by
  have endLe := isBlock.end_le
  have positive := blockSize_pos prefixLength
  have last := zipWith_or_not_mask isBlock
  have maskLength : block.mask.length = 4 := by simp [isBlock.mask_eq]
  rw [isBlock.ip_eq] at last
  simp only [networkOrBroadcast, isBlock.ip_eq, to4_bytesOf, maskLength, last]
  constructor
  · intro atEnd
    have either : bytesOf value = bytesOf base ∨
        bytesOf value = bytesOf (base + (blockSize prefixLength - 1)) := by
      simpa using atEnd
    exact either.imp (bytesOf_injective valueLt isBlock.base_lt)
      (bytesOf_injective valueLt (by omega))
  · rintro (rfl | rfl) <;> simp

theorem allocateIP_eq (found : findDir store name = some dir)
    (wellFormed : WellFormed name dir block base prefixLength) :
    allocateIP store name =
      match searchIP block dir.state.allocatedIPs
          (dir.state.allocatedIPs.length + 1) dir.state.nextIndex with
      | .searching => none
      | .exhausted => some (.error (.noAvailableIPs name dir.metadata.subnet))
      | .found ip nextIndex =>
        some (.ok (ip, writeNetworkState store name
          { allocatedIPs := dir.state.allocatedIPs ++ [ipText ip]
            nextIndex := nextIndex })) := by
  have read : readNetwork store name = .ok dir := by
    simp [readNetwork, wellFormed.nameValid, found]
  have parsed := wellFormed.parse_subnet
  cases search : searchIP block dir.state.allocatedIPs (dir.state.allocatedIPs.length + 1)
      dir.state.nextIndex with
  | searching => simp [allocateIP, read, parsed, search]
  | exhausted => simp [allocateIP, read, parsed, search]
  | found ip nextIndex => simp [allocateIP, read, parsed, search]

/-! ### Giving up -/

def UsableHost (block : IPNet) (ip : IP) : Prop :=
  ip.length = 4 ∧ block.contains ip = true ∧ networkOrBroadcast block ip = false

theorem usableHost_iff (isBlock : IsBlock block base prefixLength) {ip : IP} :
    UsableHost block ip ↔
      ∃ j, 0 < j ∧ j + 1 < blockSize prefixLength ∧ ip = bytesOf (addressAt base j) := by
  have endLe := isBlock.end_le
  constructor
  · rintro ⟨four, inside, notEnd⟩
    obtain ⟨a, b, c, d, rfl⟩ := List.length_eq_four.mp four
    obtain ⟨value, valueLt, bytes⟩ := exists_bytesOf a b c d
    rw [bytes] at inside notEnd ⊢
    rw [contains_iff isBlock valueLt] at inside
    have notEnds : ¬ (value = base ∨ value = base + (blockSize prefixLength - 1)) := by
      rw [← networkOrBroadcast_iff isBlock valueLt, notEnd]
      simp
    refine ⟨value - base, by omega, by omega, ?_⟩
    rw [addressAt, Nat.mod_eq_of_lt (by omega), Nat.add_sub_cancel' inside.1]
  · rintro ⟨j, positive, below, rfl⟩
    rw [addressAt, Nat.mod_eq_of_lt (by omega)]
    refine ⟨rfl, (contains_iff isBlock (by omega)).mpr (by omega), ?_⟩
    rw [Bool.eq_false_iff, Ne, networkOrBroadcast_iff isBlock (by omega)]
    omega

/-- Some address from the cursor on is free, or nothing usable below the cursor
is; the search of the whole space always goes round. -/
def CursorComplete (state : NetworkState) (base prefixLength : Nat) : Prop :=
  prefixLength = 0 ∨
    (∃ j, state.nextIndex ≤ j ∧ j < blockSize prefixLength ∧
      ¬ Taken state.allocatedIPs base j) ∨
    ∀ j, 0 < j → j + 1 < blockSize prefixLength → j < state.nextIndex →
      Taken state.allocatedIPs base j

/-- The call fails exactly when the subnet is not the whole space and every
address from the cursor on is taken. -/
theorem allocateIP_error_iff (found : findDir store name = some dir)
    (wellFormed : WellFormed name dir block base prefixLength) :
    (∃ e, allocateIP store name = some (.error e)) ↔
      0 < prefixLength ∧ ∀ j, dir.state.nextIndex ≤ j → j < blockSize prefixLength →
        Taken dir.state.allocatedIPs base j := by
  rw [allocateIP_eq found wellFormed]
  cases search : searchIP block dir.state.allocatedIPs
      (dir.state.allocatedIPs.length + 1) dir.state.nextIndex with
  | found ip nextIndex =>
    obtain ⟨i, low, inRange, -, -, free, -⟩ :=
      searchIP_found wellFormed.isBlock wellFormed.cursor_le search
    simp only [Option.some.injEq, reduceCtorEq, exists_false, false_iff]
    rintro ⟨positive, allTaken⟩
    rcases inRange with zero | below
    · omega
    · exact free (allTaken i low below)
  | exhausted => simpa using searchIP_exhausted wellFormed.isBlock search
  | searching =>
    obtain ⟨zero, -⟩ := searchIP_searching wellFormed.isBlock search
    simp [zero]

/-- On every store a run leaves behind, a failing `AllocateIP` means that the
subnet is used up exactly when its cursor is complete. -/
theorem allocateIP_error_exhausted_iff {sha256Hex : String → String}
    (reached : (system sha256Hex).Reachable store)
    (found : findDir store name = some dir) :
    ∃ block base prefixLength, parseCIDR dir.metadata.subnet.toList = some block ∧
      IsBlock block base prefixLength ∧
      ((∀ e, allocateIP store name = some (.error e) →
          ∀ ip, UsableHost block ip → ipText ip ∈ dir.state.allocatedIPs) ↔
        CursorComplete dir.state base prefixLength) := by
  obtain ⟨block, base, prefixLength, wellFormed⟩ :=
    (invariant_of_reachable reached).wellFormed _ (mem_of_findDir found)
  refine ⟨block, base, prefixLength, wellFormed.parse_subnet, wellFormed.isBlock, ?_⟩
  have fails := allocateIP_error_iff found wellFormed
  constructor
  · intro usedUp
    by_contra incomplete
    simp only [CursorComplete, not_or, not_exists, not_and, not_not] at incomplete
    obtain ⟨positive, allTaken, missing⟩ := incomplete
    obtain ⟨e, failed⟩ := fails.mpr ⟨Nat.pos_of_ne_zero positive, allTaken⟩
    apply missing
    intro j low below _
    exact usedUp e failed _ ((usableHost_iff wellFormed.isBlock).mpr ⟨j, low, below, rfl⟩)
  · intro complete e failed ip usable
    obtain ⟨positive, allTaken⟩ := fails.mp ⟨e, failed⟩
    obtain ⟨j, low, below, rfl⟩ := (usableHost_iff wellFormed.isBlock).mp usable
    rcases complete with zero | ⟨free, fromCursor, inside, notTaken⟩ | belowTaken
    · omega
    · exact absurd (allTaken free fromCursor inside) notTaken
    · by_cases passed : j < dir.state.nextIndex
      · exact belowTaken j low below passed
      · exact allTaken j (by omega) (by omega)

def twoHosts : Network :=
  { id := "n", name := "n", subnet := "10.0.0.0/30", gateway := "10.0.0.1",
    bridge := "jerboa-br-n", driver := "bridge" }

theorem reachable_of_run (calls : List Call) {target : Store}
    (ran : (system fun name => name).run [] calls = some target) :
    (system fun name => name).Reachable target :=
  (Reachable.start rfl).run ran

/-- The state of a network of two hosts after both, and then the broadcast
address, were handed out. -/
def exhaustedDir : NetworkDir where
  metadata := twoHosts
  state := { allocatedIPs := ["10.0.0.1", "10.0.0.2", "10.0.0.3"], nextIndex := 4 }

theorem allocateIP_error_exhausted_iff_exhaustedDir :
    (∃ e, allocateIP [("n", exhaustedDir)] "n" = some (.error e)) ∧
      ∃ block base prefixLength, parseCIDR exhaustedDir.metadata.subnet.toList = some block ∧
        IsBlock block base prefixLength ∧ CursorComplete exhaustedDir.state base prefixLength ∧
        ∀ ip, UsableHost block ip → ipText ip ∈ exhaustedDir.state.allocatedIPs := by
  have reached : (system fun name => name).Reachable [("n", exhaustedDir)] :=
    reachable_of_run [.create "n" "10.0.0.0/30" "", .allocateIP "n", .allocateIP "n"]
      (by decide)
  have fails : allocateIP [("n", exhaustedDir)] "n" =
      some (.error (.noAvailableIPs "n" "10.0.0.0/30")) := by decide
  obtain ⟨block, base, prefixLength, parsed, isBlock, iff⟩ :=
    allocateIP_error_exhausted_iff reached (show findDir _ "n" = some exhaustedDir by decide)
  have read : parseCIDR exhaustedDir.metadata.subnet.toList =
      some ⟨[10, 0, 0, 0], [255, 255, 255, 252]⟩ := by decide
  obtain rfl : block = ⟨[10, 0, 0, 0], [255, 255, 255, 252]⟩ :=
    Option.some.inj (parsed.symm.trans read)
  obtain rfl : base = 167772160 := bytesOf_injective isBlock.base_lt (by decide) isBlock.ip_eq.symm
  have complete : CursorComplete exhaustedDir.state 167772160 prefixLength := by
    refine .inr (.inr ?_)
    intro j low _ below
    have small : j < 4 := below
    interval_cases j <;> decide
  exact ⟨⟨_, fails⟩, _, _, _, parsed, isBlock, complete, iff.mpr complete _ fails⟩

def releasedDir : NetworkDir where
  metadata := twoHosts
  state := { allocatedIPs := ["10.0.0.1", "10.0.0.3"], nextIndex := 4 }

theorem releasedDir_reachable :
    (system fun name => name).Reachable [("n", releasedDir)] :=
  reachable_of_run [.create "n" "10.0.0.0/30" "", .allocateIP "n", .allocateIP "n",
    .releaseIP "n" "10.0.0.2"] (by decide)

/-- The cursor never goes back to a released address: the call fails while
`10.0.0.2` is free. -/
theorem allocateIP_error_not_exhausted :
    ¬ ∀ (store : Store) (name : String) (dir : NetworkDir) (block : IPNet),
      (system fun name => name).Reachable store → findDir store name = some dir →
      parseCIDR dir.metadata.subnet.toList = some block →
      ∀ e, allocateIP store name = some (.error e) →
        ∀ ip, UsableHost block ip → ipText ip ∈ dir.state.allocatedIPs := by
  intro claimed
  have member := claimed [("n", releasedDir)] "n" releasedDir
    ⟨[10, 0, 0, 0], [255, 255, 255, 252]⟩ releasedDir_reachable (by decide)
    (by decide) (.noAvailableIPs "n" "10.0.0.0/30") (by decide +kernel)
    [10, 0, 0, 2] ⟨rfl, by decide, by decide⟩
  revert member
  decide

/-! ### Giving out -/

def Reserved (block : IPNet) (gateway : String) (ip : IP) : Prop :=
  networkOrBroadcast block ip = true ∨ ipText ip = gateway

/-- Whenever an address that must not be given out is free at or above the
cursor, a free host address comes before it. -/
def HostFirst (dir : NetworkDir) (block : IPNet) (base prefixLength : Nat) : Prop :=
  ∀ i, dir.state.nextIndex ≤ i → InRange prefixLength i →
    Reserved block dir.metadata.gateway (bytesOf (addressAt base i)) →
    ¬ Taken dir.state.allocatedIPs base i →
    ∃ j, dir.state.nextIndex ≤ j ∧ j < i ∧
      ¬ Reserved block dir.metadata.gateway (bytesOf (addressAt base j)) ∧
      ¬ Taken dir.state.allocatedIPs base j

theorem inRange_mod_lt {index : Nat} (inRange : InRange prefixLength index) :
    index % 4294967296 < blockSize prefixLength := by
  rcases inRange with whole | below
  · subst whole
    exact Nat.mod_lt _ (by omega)
  · have smaller := Nat.mod_le index 4294967296
    omega

theorem allocateIP_ok_of_first_free (found : findDir store name = some dir)
    (wellFormed : WellFormed name dir block base prefixLength) {i : Nat}
    (low : dir.state.nextIndex ≤ i) (inRange : InRange prefixLength i)
    (free : ¬ Taken dir.state.allocatedIPs base i)
    (first : ∀ j, dir.state.nextIndex ≤ j → j < i → Taken dir.state.allocatedIPs base j) :
    ∃ target, allocateIP store name = some (.ok (bytesOf (addressAt base i), target)) := by
  rw [allocateIP_eq found wellFormed]
  cases search : searchIP block dir.state.allocatedIPs
      (dir.state.allocatedIPs.length + 1) dir.state.nextIndex with
  | found ip nextIndex =>
    obtain ⟨k, lowK, -, -, rfl, freeK, firstK⟩ :=
      searchIP_found wellFormed.isBlock wellFormed.cursor_le search
    obtain rfl : k = i := by
      rcases Nat.lt_trichotomy k i with before | same | after
      · exact absurd (first k lowK before) freeK
      · exact same
      · exact absurd (firstK i low after) free
    exact ⟨_, rfl⟩
  | exhausted =>
    obtain ⟨positive, allTaken⟩ := searchIP_exhausted wellFormed.isBlock search
    rcases inRange with zero | below
    · omega
    · exact absurd (allTaken i low below) free
  | searching =>
    exact absurd ((searchIP_searching wellFormed.isBlock search).2 i) free

/-- On every store a run leaves behind, whatever `AllocateIP` returns is a free
host address other than the gateway exactly when a host comes first. -/
theorem allocateIP_usable_iff {sha256Hex : String → String}
    (reached : (system sha256Hex).Reachable store)
    (found : findDir store name = some dir) :
    ∃ block base prefixLength, parseCIDR dir.metadata.subnet.toList = some block ∧
      IsBlock block base prefixLength ∧
      ((∀ ip target, allocateIP store name = some (.ok (ip, target)) →
          block.contains ip = true ∧ networkOrBroadcast block ip = false ∧
            ipText ip ≠ dir.metadata.gateway ∧ ipText ip ∉ dir.state.allocatedIPs) ↔
        HostFirst dir block base prefixLength) := by
  obtain ⟨block, base, prefixLength, wellFormed⟩ :=
    (invariant_of_reachable reached).wellFormed _ (mem_of_findDir found)
  have isBlock := wellFormed.isBlock
  refine ⟨block, base, prefixLength, wellFormed.parse_subnet, isBlock, ?_⟩
  constructor
  · intro usable i low inRange reserved free
    -- the first free number is what the call returns
    classical
    have someFree : ∃ j, dir.state.nextIndex ≤ j ∧ ¬ Taken dir.state.allocatedIPs base j :=
      ⟨i, low, free⟩
    obtain ⟨firstLow, firstFree⟩ := Nat.find_spec someFree
    have firstLe : Nat.find someFree ≤ i := Nat.find_min' someFree ⟨low, free⟩
    have before : ∀ j, dir.state.nextIndex ≤ j → j < Nat.find someFree →
        Taken dir.state.allocatedIPs base j := by
      intro j lowJ below
      by_contra freeJ
      exact Nat.find_min someFree below ⟨lowJ, freeJ⟩
    have firstInRange : InRange prefixLength (Nat.find someFree) :=
      inRange.imp id fun below => by omega
    obtain ⟨target, returned⟩ :=
      allocateIP_ok_of_first_free found wellFormed firstLow firstInRange firstFree before
    obtain ⟨-, notEnd, notGateway, -⟩ := usable _ _ returned
    have notReserved : ¬ Reserved block dir.metadata.gateway
        (bytesOf (addressAt base (Nat.find someFree))) := by
      rintro (atEnd | gateway)
      · simp [notEnd] at atEnd
      · exact notGateway gateway
    have strictly : Nat.find someFree ≠ i := by
      intro same
      exact notReserved (same ▸ reserved)
    exact ⟨_, firstLow, by omega, notReserved, firstFree⟩
  · intro hostFirst ip target returned
    obtain ⟨dir', block', nextIndex, found', parsed, search, -⟩ := allocateIP_eq_ok returned
    obtain rfl : dir' = dir := Option.some.inj (found'.symm.trans found)
    obtain rfl : block' = block :=
      Option.some.inj (parsed.symm.trans wellFormed.parse_subnet)
    obtain ⟨i, low, inRange, -, rfl, free, first⟩ :=
      searchIP_found isBlock wellFormed.cursor_le search
    have small := inRange_mod_lt inRange
    have endLe := isBlock.end_le
    have notReserved : ¬ Reserved block' dir'.metadata.gateway
        (bytesOf (addressAt base i)) := by
      intro reserved
      obtain ⟨j, lowJ, below, -, freeJ⟩ := hostFirst i low inRange reserved free
      exact freeJ (first j lowJ below)
    simp only [Reserved, not_or, Bool.not_eq_true] at notReserved
    refine ⟨?_, notReserved.1, notReserved.2, free⟩
    rw [contains_iff isBlock (by unfold addressAt; omega)]
    unfold addressAt
    omega

def fullDir : NetworkDir where
  metadata := twoHosts
  state := { allocatedIPs := ["10.0.0.1", "10.0.0.2"], nextIndex := 3 }

theorem fullDir_reachable : (system fun name => name).Reachable [("n", fullDir)] :=
  reachable_of_run [.create "n" "10.0.0.0/30" "", .allocateIP "n"] (by decide)

/-- The state of a network of two hosts that was just created. -/
def createdDir : NetworkDir where
  metadata := twoHosts
  state := { allocatedIPs := ["10.0.0.1"], nextIndex := 2 }

theorem allocateIP_usable_iff_createdDir :
    allocateIP [("n", createdDir)] "n" = some (.ok ([10, 0, 0, 2], [("n", fullDir)])) ∧
      ∃ block base prefixLength, parseCIDR createdDir.metadata.subnet.toList = some block ∧
        IsBlock block base prefixLength ∧ HostFirst createdDir block base prefixLength := by
  have reached : (system fun name => name).Reachable [("n", createdDir)] :=
    reachable_of_run [.create "n" "10.0.0.0/30" ""] (by decide)
  have returned : allocateIP [("n", createdDir)] "n" =
      some (.ok ([10, 0, 0, 2], [("n", fullDir)])) := by decide
  obtain ⟨block, base, prefixLength, parsed, isBlock, iff⟩ :=
    allocateIP_usable_iff reached (show findDir _ "n" = some createdDir by decide)
  refine ⟨returned, block, base, prefixLength, parsed, isBlock, iff.mp ?_⟩
  obtain rfl : block = ⟨[10, 0, 0, 0], [255, 255, 255, 252]⟩ :=
    Option.some.inj (parsed.symm.trans (by decide))
  intro ip target given
  cases given.symm.trans returned
  decide

/-- The broadcast address `10.0.0.3` is handed out. -/
theorem allocateIP_returns_broadcast :
    ¬ ∀ (store : Store) (name : String) (dir : NetworkDir) (block : IPNet),
      (system fun name => name).Reachable store → findDir store name = some dir →
      parseCIDR dir.metadata.subnet.toList = some block →
      ∀ ip target, allocateIP store name = some (.ok (ip, target)) →
        block.contains ip = true ∧ networkOrBroadcast block ip = false ∧
          ipText ip ≠ dir.metadata.gateway ∧ ipText ip ∉ dir.state.allocatedIPs := by
  intro claimed
  have returned : allocateIP [("n", fullDir)] "n" = some (.ok ([10, 0, 0, 3],
      [("n", { fullDir with
        state := { allocatedIPs := ["10.0.0.1", "10.0.0.2", "10.0.0.3"],
                   nextIndex := 4 } })])) := by
    decide
  obtain ⟨-, notEnd, -⟩ := claimed [("n", fullDir)] "n" fullDir
    ⟨[10, 0, 0, 0], [255, 255, 255, 252]⟩ fullDir_reachable (by decide)
    (by decide) _ _ returned
  revert notEnd
  decide

end Jerboa.NetworkStore
