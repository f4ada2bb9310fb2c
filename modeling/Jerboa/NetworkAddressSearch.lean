import Jerboa.NetAddressCanonical
import Jerboa.NetworkStore
import Mathlib.Data.Finset.Card
import Mathlib.Data.Fintype.Basic

/-!
# The address search of the network store

`nextIP` numbers the addresses of a subnet from its network address, wrapping
at `2 ^ 32` only.  The search of `AllocateIP` takes the first of them at or
after the cursor whose text is not allocated, and stops at the first number
that lies outside the subnet.
-/

namespace Jerboa.NetworkStore

open NetAddress

variable {block : IPNet} {base prefixLength : Nat}

theorem ipText_injective {first second : Nat}
    (firstLt : first < 4294967296) (secondLt : second < 4294967296)
    (same : ipText (bytesOf first) = ipText (bytesOf second)) : first = second :=
  ipString_bytesOf_injective firstLt secondLt (String.ofList_injective same)

theorem addIndex_bytesOf (base index : Nat) :
    addIndex 4 (bytesOf base) index = addBytes base index := by
  simp only [addIndex, bytesOf, addBytes, List.modify_succ_cons, List.modify_zero_cons,
    List.zipWith_cons_cons, List.zipWith_nil_left, List.cons.injEq, and_true,
    ← UInt8.toNat_inj, UInt8.toNat_add, UInt8.toNat_ofNat']
  omega

def addressAt (base index : Nat) : Nat :=
  base + index % 4294967296

theorem nextIP_eq (isBlock : IsBlock block base prefixLength) (index : Nat) :
    nextIP block index =
      if index % 4294967296 < blockSize prefixLength then
        some (bytesOf (addressAt base index))
      else none := by
  have sum : addIndex 4 block.ip index = addBytes base index := by
    rw [isBlock.ip_eq, addIndex_bytesOf]
  have inside := contains_addBytes_iff isBlock index
  simp only [nextIP, sum]
  by_cases small : index % 4294967296 < blockSize prefixLength
  · have wrapped : addBytes base index = addBytes base (index % 4294967296) := by
      simp only [addBytes, bytesOf, List.zipWith_cons_cons, List.zipWith_nil_left,
        List.cons.injEq, and_true, ← UInt8.toNat_inj, UInt8.toNat_add,
        UInt8.toNat_ofNat']
      omega
    rw [if_pos (inside.mpr small), if_pos small, wrapped, addBytes_eq isBlock small,
      addressAt]
  · rw [if_neg (fun contained => small (inside.mp contained)), if_neg small]

/-- The numbers that the search reaches before it stops: those below the size
of the subnet, and every number of the subnet that is the whole space. -/
def InRange (prefixLength index : Nat) : Prop :=
  prefixLength = 0 ∨ index < blockSize prefixLength

instance (prefixLength index : Nat) : Decidable (InRange prefixLength index) :=
  inferInstanceAs (Decidable (_ ∨ _))

def SearchSpec (block : IPNet) (allocated : List String) (fuel index : Nat) :
    Search → Prop
  | .found ip nextIndex => ∃ i, index ≤ i ∧ nextIndex = i + 1 ∧
      nextIP block i = some ip ∧ ipText ip ∉ allocated ∧
      ∀ j, index ≤ j → j < i →
        ∃ candidate, nextIP block j = some candidate ∧ ipText candidate ∈ allocated
  | .exhausted => ∃ i, index ≤ i ∧ nextIP block i = none ∧
      ∀ j, index ≤ j → j < i →
        ∃ candidate, nextIP block j = some candidate ∧ ipText candidate ∈ allocated
  | .searching => ∀ j, index ≤ j → j < index + fuel →
      ∃ candidate, nextIP block j = some candidate ∧ ipText candidate ∈ allocated

theorem searchIP_spec (block : IPNet) (allocated : List String) (fuel index : Nat) :
    SearchSpec block allocated fuel index (searchIP block allocated fuel index) := by
  induction fuel generalizing index with
  | zero =>
    intro j low high
    omega
  | succ fuel ih =>
    rw [searchIP]
    cases next : nextIP block index with
    | none => exact ⟨index, le_rfl, next, fun j low high => by omega⟩
    | some candidate =>
      by_cases taken : ipText candidate ∈ allocated
      · -- one more turn; the candidate of this one joins those already seen
        have extend {bound : Nat} (seen : ∀ j, index + 1 ≤ j → j < bound →
            ∃ candidate, nextIP block j = some candidate ∧
              ipText candidate ∈ allocated) :
            ∀ j, index ≤ j → j < bound → ∃ candidate,
              nextIP block j = some candidate ∧ ipText candidate ∈ allocated := by
          intro j low high
          rcases Nat.eq_or_lt_of_le low with rfl | later
          · exact ⟨candidate, next, taken⟩
          · exact seen j later high
        simp only [if_pos taken]
        have later := ih (index + 1)
        revert later
        cases searchIP block allocated fuel (index + 1) with
        | found ip nextIndex =>
          rintro ⟨i, low, rfl, hit, free, seen⟩
          exact ⟨i, by omega, rfl, hit, free, extend seen⟩
        | exhausted =>
          rintro ⟨i, low, outside, seen⟩
          exact ⟨i, by omega, outside, extend seen⟩
        | searching =>
          intro seen
          exact extend fun j low high => seen j low (by omega)
      · simp only [if_neg taken]
        exact ⟨index, le_rfl, rfl, next, taken, fun j low high => by omega⟩

/-! ### The search on a subnet -/

def Taken (allocated : List String) (base index : Nat) : Prop :=
  ipText (bytesOf (addressAt base index)) ∈ allocated

instance (allocated : List String) (base index : Nat) :
    Decidable (Taken allocated base index) :=
  inferInstanceAs (Decidable (_ ∈ _))

/-- A cursor that has not passed the end of its subnet, as far as it has one. -/
def CursorBound (prefixLength cursor : Nat) : Prop :=
  0 < prefixLength → cursor ≤ max 2 (blockSize prefixLength)

theorem nextIP_eq_some (isBlock : IsBlock block base prefixLength) {index : Nat} {ip : IP}
    (next : nextIP block index = some ip) :
    index % 4294967296 < blockSize prefixLength ∧ ip = bytesOf (addressAt base index) := by
  rw [nextIP_eq isBlock] at next
  by_cases small : index % 4294967296 < blockSize prefixLength
  · rw [if_pos small] at next
    exact ⟨small, (Option.some.inj next).symm⟩
  · simp [small] at next

variable {allocated : List String} {cursor : Nat}

theorem taken_of_candidate (isBlock : IsBlock block base prefixLength) {index : Nat}
    (seen : ∃ candidate, nextIP block index = some candidate ∧ ipText candidate ∈ allocated) :
    index % 4294967296 < blockSize prefixLength ∧ Taken allocated base index := by
  obtain ⟨candidate, next, member⟩ := seen
  obtain ⟨small, rfl⟩ := nextIP_eq_some isBlock next
  exact ⟨small, member⟩

theorem blockSize_lt {prefixLength : Nat} (positive : 0 < prefixLength) :
    2 * blockSize prefixLength ≤ 4294967296 := by
  have bound : 2 ^ (32 - prefixLength) ≤ 2 ^ 31 :=
    Nat.pow_le_pow_right (by omega) (by omega)
  rw [blockSize]
  omega

section

variable (isBlock : IsBlock block base prefixLength)

include isBlock

theorem searchIP_found {fuel nextIndex : Nat} {ip : IP}
    (bounded : CursorBound prefixLength cursor)
    (search : searchIP block allocated fuel cursor = .found ip nextIndex) :
    ∃ i, cursor ≤ i ∧ InRange prefixLength i ∧ nextIndex = i + 1 ∧
      ip = bytesOf (addressAt base i) ∧ ¬ Taken allocated base i ∧
      ∀ j, cursor ≤ j → j < i → Taken allocated base j := by
  have spec := searchIP_spec block allocated fuel cursor
  rw [search] at spec
  obtain ⟨i, low, rfl, next, free, seen⟩ := spec
  obtain ⟨small, rfl⟩ := nextIP_eq_some isBlock next
  refine ⟨i, low, ?_, rfl, rfl, free,
    fun j low high => (taken_of_candidate isBlock (seen j low high)).2⟩
  by_contra outside
  -- the first number past the end lies between the cursor and the hit
  have positive : 0 < prefixLength := by
    by_contra zero
    exact outside (.inl (by omega))
  have high : blockSize prefixLength ≤ i := by
    by_contra below
    exact outside (.inr (by omega))
  have cursorLe := bounded positive
  have sizeBound := blockSize_lt positive
  have stop : max cursor (blockSize prefixLength) % 4294967296 <
      blockSize prefixLength := by
    rcases Nat.eq_or_lt_of_le (max_le low high) with same | before
    · rw [same]
      exact small
    · exact (taken_of_candidate isBlock (seen _ (le_max_left _ _) before)).1
  rw [Nat.mod_eq_of_lt (by omega)] at stop
  omega

/-- A search that gives up has met every number of the subnet from the cursor
on, and the subnet is not the whole space. -/
theorem searchIP_exhausted {fuel : Nat}
    (search : searchIP block allocated fuel cursor = .exhausted) :
    0 < prefixLength ∧ ∀ j, cursor ≤ j → j < blockSize prefixLength →
      Taken allocated base j := by
  have spec := searchIP_spec block allocated fuel cursor
  rw [search] at spec
  obtain ⟨i, low, outside, seen⟩ := spec
  have past : blockSize prefixLength ≤ i % 4294967296 := by
    by_contra small
    rw [nextIP_eq isBlock, if_pos (by omega)] at outside
    simp at outside
  have wrapped : i % 4294967296 < 4294967296 := Nat.mod_lt _ (by omega)
  constructor
  · by_contra zero
    have whole : blockSize prefixLength = 4294967296 := by
      rw [(by omega : prefixLength = 0)]
      rfl
    omega
  · intro j fromCursor below
    have before : j < i := by
      have smaller := Nat.mod_le i 4294967296
      omega
    exact (taken_of_candidate isBlock (seen j fromCursor before)).2

theorem addressAt_injective {i j : Nat}
    (smallI : i % 4294967296 < blockSize prefixLength)
    (smallJ : j % 4294967296 < blockSize prefixLength)
    (same : ipText (bytesOf (addressAt base i)) = ipText (bytesOf (addressAt base j))) :
    i % 4294967296 = j % 4294967296 := by
  have room := isBlock.end_le
  have equal : addressAt base i = addressAt base j := by
    apply ipText_injective _ _ same
    all_goals
      unfold addressAt
      omega
  unfold addressAt at equal
  omega

/-- A search that is still running after one turn more than there are
allocated addresses never ends: the subnet is the whole space and all of it is
allocated. -/
theorem searchIP_searching
    (search : searchIP block allocated (allocated.length + 1) cursor = .searching) :
    prefixLength = 0 ∧ ∀ j, Taken allocated base j := by
  have spec := searchIP_spec block allocated (allocated.length + 1) cursor
  rw [search] at spec
  have seen (k : Nat) (inWindow : k < allocated.length + 1) :=
    taken_of_candidate isBlock (spec (cursor + k) (by omega) (by omega))
  have long : 4294967296 ≤ allocated.length := by
    by_contra short
    -- the window has more numbers than there are allocated texts
    obtain ⟨i, iIn, j, jIn, different, same⟩ :=
      Finset.exists_ne_map_eq_of_card_lt_of_maps_to
        (s := Finset.range (allocated.length + 1)) (t := allocated.toFinset)
        (f := fun k => ipText (bytesOf (addressAt base (cursor + k))))
        (by
          have bound := allocated.toFinset_card_le
          rw [Finset.card_range]
          omega)
        (fun k kIn => List.mem_toFinset.mpr (seen k (Finset.mem_range.mp kIn)).2)
    rw [Finset.mem_range] at iIn jIn
    have residues := addressAt_injective isBlock (seen i iIn).1 (seen j jIn).1 same
    omega
  -- the window then covers every residue
  have residue (j : Nat) : ∃ k < allocated.length + 1,
      (cursor + k) % 4294967296 = j % 4294967296 := by
    refine ⟨(j % 4294967296 + (4294967296 - cursor % 4294967296)) % 4294967296,
      by omega, by omega⟩
  constructor
  · by_contra positive
    have small := blockSize_lt (Nat.pos_of_ne_zero positive)
    obtain ⟨k, inWindow, last⟩ := residue 4294967295
    have inside := (seen k inWindow).1
    omega
  · intro j
    obtain ⟨k, inWindow, same⟩ := residue j
    have taken := (seen k inWindow).2
    rwa [Taken, addressAt, same] at taken

end

end Jerboa.NetworkStore
