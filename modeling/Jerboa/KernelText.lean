import Jerboa.Utf8Text

/-!
# Characters of the kernel

`utf8_decode`, `push_character` and the loop `string_foreach` of
`runtime/text.h`, and `parse_int`.  The decoder does not look at the bytes that go on, and a
byte that starts nothing is a (signed) character of its own.
-/

namespace Jerboa.Kernel

open Utf8Text List

def characterInvalid : Nat := 0xffffffff

def utf8Length (x : UInt8) : Nat :=
  if ~~~x &&& 0x80 ≠ 0 then 1
  else if x &&& 0xe0 = 0xc0 then 2
  else if x &&& 0xf0 = 0xe0 then 3
  else if x &&& 0xf8 = 0xf0 then 4
  else 1

/-- The bits of a first byte that belong to the character; alone it is a `char`,
which is signed. -/
def leadingBits (length : Nat) (x : UInt8) : Nat :=
  match length with
  | 1 => if x < 0x80 then x.toNat else 0xffffff00 + x.toNat
  | 2 => (x &&& 0x3f).toNat
  | 3 => (x &&& 0x1f).toNat
  | _ => (x &&& 0xf).toNat

def utf8Decode : Bytes → Option (Nat × Nat)
  | [] => none
  | first :: rest =>
    let length := utf8Length first
    if rest.length + 1 < length then none
    else
      some ((rest.take (length - 1)).foldl (fun c x => c <<< 6 ||| (x &&& 0x3f).toNat)
        (leadingBits length first), length)

def pushCharacter (s : Bytes) (c : Nat) : Bytes :=
  s ++
    if c < 0x80 then [UInt8.ofNat c]
    else if c < 0x800 then [UInt8.ofNat (0xc0 ||| c >>> 6), UInt8.ofNat (0x80 ||| c &&& 0x3f)]
    else if c < 0x10000 then
      [UInt8.ofNat (0xe0 ||| c >>> 12), UInt8.ofNat (0x80 ||| c >>> 6 &&& 0x3f),
        UInt8.ofNat (0x80 ||| c &&& 0x3f)]
    else if c < 0x110000 then
      [UInt8.ofNat (0xf0 ||| c >>> 18), UInt8.ofNat (0x80 ||| c >>> 12 &&& 0x3f),
        UInt8.ofNat (0x80 ||| c >>> 6 &&& 0x3f), UInt8.ofNat (0x80 ||| c &&& 0x3f)]
    else []

def popCharacter (bytes : Bytes) : Option (Nat × Nat) :=
  (utf8Decode bytes).filter fun next => next.1 ≠ characterInvalid

/-- The characters that `string_foreach` goes over. -/
def characters (bytes : Bytes) : List Nat :=
  scan popCharacter 0 bytes

/-! ### Pushing encodes -/

theorem continuing_eq : ∀ x < 0x40, 0x80 ||| x = 0x80 + x := by
  decide

theorem leading_two_eq : ∀ x < 0x20, 0xc0 ||| x = 0xc0 + x := by
  decide

theorem leading_three_eq : ∀ x < 0x10, 0xe0 ||| x = 0xe0 + x := by
  decide

theorem leading_four_eq : ∀ x < 0x8, 0xf0 ||| x = 0xf0 + x := by
  decide

theorem continuing_mod (x : Nat) : 0x80 ||| x &&& 0x3f = 0x80 + x % 0x40 := by
  rw [show x &&& 0x3f = x % 0x40 from Nat.and_two_pow_sub_one_eq_mod x 6]
  exact continuing_eq _ (Nat.mod_lt x (by decide))

theorem pushCharacter_eq (s : Bytes) (c : Nat) : pushCharacter s c = s ++ encode c := by
  rw [pushCharacter, encode]
  congr 1
  simp only [continuing_mod, Nat.shiftRight_eq_div_pow, Nat.reducePow]
  split_ifs with one two three four
  · rfl
  · rw [leading_two_eq _ (by omega)]
  · rw [leading_three_eq _ (by omega)]
  · rw [leading_four_eq _ (by omega)]
  · rfl

/-! ### Decoding takes back what was encoded -/

theorem utf8Length_one : ∀ x < 0x80, utf8Length (UInt8.ofNat x) = 1 := by
  decide

theorem utf8Length_two : ∀ x < 0x20, utf8Length (UInt8.ofNat (0xc0 + x)) = 2 ∧
    leadingBits 2 (UInt8.ofNat (0xc0 + x)) = x := by
  decide

theorem utf8Length_three : ∀ x < 0x10, utf8Length (UInt8.ofNat (0xe0 + x)) = 3 ∧
    leadingBits 3 (UInt8.ofNat (0xe0 + x)) = x := by
  decide

theorem utf8Length_four : ∀ x < 0x8, utf8Length (UInt8.ofNat (0xf0 + x)) = 4 ∧
    leadingBits 4 (UInt8.ofNat (0xf0 + x)) = x := by
  decide

theorem continuing_bits : ∀ x < 0x40, (UInt8.ofNat (0x80 + x) &&& 0x3f).toNat = x := by
  decide

theorem shifted_bits {c x : Nat} (small : x < 0x40) :
    c <<< 6 ||| (UInt8.ofNat (0x80 + x) &&& 0x3f).toNat = c * 0x40 + x := by
  rw [continuing_bits x small, ← Nat.shiftLeft_add_eq_or_of_lt small, Nat.shiftLeft_eq]

theorem utf8Decode_encode {c : Nat} (small : c < 0x110000) (rest : Bytes) :
    utf8Decode (encode c ++ rest) = some (c, (encode c).length) := by
  have continuing (n : Nat) : n % 0x40 < 0x40 := Nat.mod_lt n (by decide)
  unfold encode
  split_ifs with one two three
  · have ascii : UInt8.ofNat c < 0x80 := by
      rw [UInt8.lt_iff_toNat_lt, toNat_ofNat (by omega)]
      exact one
    simp [utf8Decode, utf8Length_one c one, leadingBits, ascii,
      toNat_ofNat (show c < 0x100 by omega)]
  · obtain ⟨length, bits⟩ := utf8Length_two (c / 0x40) (by omega)
    simp only [utf8Decode, cons_append, nil_append, length, bits, take_succ_cons,
      take_zero, foldl_cons, foldl_nil, shifted_bits (continuing _),
      length_cons, length_nil]
    rw [if_neg (by omega)]
    congr 2
    omega
  · obtain ⟨length, bits⟩ := utf8Length_three (c / 0x1000) (by omega)
    simp only [utf8Decode, cons_append, nil_append, length, bits, take_succ_cons,
      take_zero, foldl_cons, foldl_nil, shifted_bits (continuing _),
      length_cons, length_nil]
    rw [if_neg (by omega)]
    congr 2
    omega
  · obtain ⟨length, bits⟩ := utf8Length_four (c / 0x40000) (by omega)
    simp only [utf8Decode, cons_append, nil_append, length, bits, take_succ_cons,
      take_zero, foldl_cons, foldl_nil, shifted_bits (continuing _),
      length_cons, length_nil]
    rw [if_neg (by omega)]
    congr 2
    omega

theorem characters_encodeAll {text : List Nat} (small : ∀ c ∈ text, c < 0x110000) (rest : Bytes) :
    characters (encodeAll text ++ rest) = text ++ characters rest := by
  apply scan_encodeAll small
  intro c member rest
  have valid : c ≠ characterInvalid := Nat.ne_of_lt (Nat.lt_trans (small c member) (by decide))
  rw [popCharacter, utf8Decode_encode (small c member), Option.filter_some_pos]
  simpa using valid

/-! ### Numbers -/

def digitOf (x : Char) : Option Nat :=
  if 'a' ≤ x ∧ x ≤ 'f' then some (x.toNat - 'a'.toNat + 10)
  else if 'A' ≤ x ∧ x ≤ 'F' then some (x.toNat - 'A'.toNat + 10)
  else if '0' ≤ x ∧ x ≤ '9' then some (x.toNat - '0'.toNat)
  else none

def leadingDigits (base : Nat) : List Char → List Nat
  | [] => []
  | x :: rest =>
    match digitOf x with
    | some v => if v < base then v :: leadingDigits base rest else []
    | none => []

/-- `parse_int`: an unsigned 64-bit number; what follows the digits is left. -/
def parseInt (base : Nat) (text : List Char) : Option Nat :=
  match leadingDigits base text with
  | [] => none
  | v :: digits => some ((v :: digits).foldl (fun result v => (result * base + v) % 2 ^ 64) 0)

end Jerboa.Kernel
