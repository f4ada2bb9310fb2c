import Jerboa.DaemonEffects

/-!
# VM IDs

An ID is twelve hexadecimal digits.  Distinct IDs give distinct TAP devices,
and an ID that is nobody's name resolves to the VM that has it or to none.
-/

namespace Jerboa.Daemon

open Vm List

def IsID (text : String) : Prop :=
  ∃ bytes : List UInt8, bytes.length = 6 ∧ text = newID bytes

theorem isAlphanumeric_hexChar (n : Fin 16) : isAlphanumeric (NetAddress.hexChar n) = true := by
  revert n
  decide

theorem isAlphanumeric_of_mem_newID {bytes : List UInt8} {c : Char}
    (member : c ∈ (newID bytes).toList) : isAlphanumeric c = true := by
  rw [newID, String.toList_ofList] at member
  obtain ⟨byte, -, digit⟩ := mem_flatMap.mp member
  have high : byte.toNat / 16 < 16 := by
    have := byte.toNat_lt
    omega
  have low : byte.toNat % 16 < 16 := Nat.mod_lt _ (by omega)
  simp only [mem_cons, not_mem_nil, or_false] at digit
  rcases digit with rfl | rfl
  · exact isAlphanumeric_hexChar ⟨_, high⟩
  · exact isAlphanumeric_hexChar ⟨_, low⟩

theorem IsID.length {text : String} (isID : IsID text) : text.toList.length = 12 := by
  obtain ⟨bytes, six, rfl⟩ := isID
  rw [newID, String.toList_ofList, length_flatMap]
  simp [six]

theorem IsID.tapDeviceName {text : String} (isID : IsID text) :
    tapDeviceName text = "jt-" ++ text := by
  have length := isID.length
  obtain ⟨bytes, -, rfl⟩ := isID
  have all : (newID bytes).toList.filter isAlphanumeric = (newID bytes).toList :=
    filter_eq_self.mpr fun c member => isAlphanumeric_of_mem_newID member
  rw [Vm.tapDeviceName, all, take_of_length_le (by omega), String.ofList_toList]

theorem tapDeviceName_injective {first second : String} (firstID : IsID first)
    (secondID : IsID second) (same : tapDeviceName first = tapDeviceName second) :
    first = second := by
  rw [firstID.tapDeviceName, secondID.tapDeviceName] at same
  exact String.append_right_inj _ |>.mp same

theorem resolve_isID {s : Shared} {ref : String} (pick : Nat) (isID : IsID ref)
    (keys : ∀ entry ∈ s.vms, IsID entry.1)
    (names : ∀ entry ∈ s.vms, (s.vm entry.2).cfg.name ≠ ref) :
    s.resolve ref pick = s.get ref := by
  cases found : s.get ref with
  | some p => exact Shared.resolve_of_get found pick
  | none =>
    have noName : s.vms.filter (fun entry => (s.vm entry.2).cfg.name = ref) = [] := by
      rw [filter_eq_nil_iff]
      intro entry member
      simpa using names entry member
    have noPrefix :
        s.vms.filter (fun entry => ref.toList.isPrefixOf entry.1.toList) = [] := by
      rw [filter_eq_nil_iff]
      intro entry member isPrefix
      have same : ref.toList = entry.1.toList :=
        (List.isPrefixOf_iff_prefix.mp isPrefix).eq_of_length
          (by rw [isID.length, (keys entry member).length])
      rw [Shared.get, Option.map_eq_none_iff, find?_eq_none] at found
      exact found entry member (by simpa using (String.toList_inj.mp same).symm)
    rw [Shared.get, Option.map_eq_none_iff] at found
    simp only [Shared.resolve, resolveEntry, found, noName, noPrefix, Option.map_none]

end Jerboa.Daemon
