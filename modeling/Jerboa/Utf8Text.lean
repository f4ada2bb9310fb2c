import Mathlib.Tactic

/-!
# Text in UTF-8

Characters are numbers and text is bytes.  A reader takes one character after
the other off the front of the bytes; `scan` is the loop of every such reader,
and it gives back what was encoded as soon as its reading step does.
-/

namespace Utf8Text

open List

abbrev Bytes := List UInt8

/-! ### Encoding -/

def encode (c : Nat) : Bytes :=
  if c < 0x80 then [UInt8.ofNat c]
  else if c < 0x800 then [UInt8.ofNat (0xc0 + c / 0x40), UInt8.ofNat (0x80 + c % 0x40)]
  else if c < 0x10000 then
    [UInt8.ofNat (0xe0 + c / 0x1000), UInt8.ofNat (0x80 + c / 0x40 % 0x40),
      UInt8.ofNat (0x80 + c % 0x40)]
  else if c < 0x110000 then
    [UInt8.ofNat (0xf0 + c / 0x40000), UInt8.ofNat (0x80 + c / 0x1000 % 0x40),
      UInt8.ofNat (0x80 + c / 0x40 % 0x40), UInt8.ofNat (0x80 + c % 0x40)]
  else []

def encodeAll (text : List Nat) : Bytes :=
  text.flatMap encode

@[simp]
theorem encodeAll_nil : encodeAll [] = [] :=
  rfl

@[simp]
theorem encodeAll_cons (c : Nat) (text : List Nat) :
    encodeAll (c :: text) = encode c ++ encodeAll text :=
  flatMap_cons

@[simp]
theorem encodeAll_append (first second : List Nat) :
    encodeAll (first ++ second) = encodeAll first ++ encodeAll second :=
  flatMap_append

def utf8 (literal : String) : Bytes :=
  encodeAll (literal.toList.map Char.toNat)

variable {c n x y : Nat} {text : List Nat}

theorem encode_of_ascii (ascii : c < 0x80) : encode c = [UInt8.ofNat c] :=
  if_pos ascii

theorem encode_ne_nil (small : c < 0x110000) : encode c ≠ [] := by
  unfold encode
  split_ifs <;> simp

theorem le_of_mem_encode {byte : UInt8} (large : 0x80 ≤ c) (member : byte ∈ encode c) :
    0x80 ≤ byte.toNat := by
  unfold encode at member
  split_ifs at member
  · omega
  all_goals
    simp only [mem_cons, not_mem_nil, or_false] at member
  · rcases member with rfl | rfl <;> rw [UInt8.toNat_ofNat'] <;> omega
  · rcases member with rfl | rfl | rfl <;> rw [UInt8.toNat_ofNat'] <;> omega
  · rcases member with rfl | rfl | rfl | rfl <;> rw [UInt8.toNat_ofNat'] <;> omega

theorem mem_encodeAll_ascii (ascii : c < 0x80) :
    UInt8.ofNat c ∈ encodeAll text ↔ c ∈ text := by
  constructor
  · intro member
    obtain ⟨other, inside, byte⟩ := mem_flatMap.mp member
    by_cases small : other < 0x80
    · rw [encode_of_ascii small, mem_singleton] at byte
      have same := congrArg UInt8.toNat byte
      rw [UInt8.toNat_ofNat', UInt8.toNat_ofNat'] at same
      have : c = other := by omega
      exact this ▸ inside
    · have large := le_of_mem_encode (by omega) byte
      rw [UInt8.toNat_ofNat'] at large
      omega
  · intro inside
    exact mem_flatMap.mpr ⟨c, inside, by rw [encode_of_ascii ascii]; exact mem_singleton_self _⟩

/-! ### Reading -/

/-- A loop that reads characters until nothing can be read; `skip` bytes belong
to the last one. -/
def scan (read : Bytes → Option (Nat × Nat)) : Nat → Bytes → List Nat
  | _, [] => []
  | skip + 1, _ :: rest => scan read skip rest
  | 0, byte :: rest =>
    match read (byte :: rest) with
    | none => []
    | some (c, width) => c :: scan read (width - 1) rest

def Reads (read : Bytes → Option (Nat × Nat)) (c : Nat) : Prop :=
  ∀ rest, read (encode c ++ rest) = some (c, (encode c).length)

variable {read : Bytes → Option (Nat × Nat)}

theorem scan_skip (skipped rest : Bytes) :
    scan read skipped.length (skipped ++ rest) = scan read 0 rest := by
  induction skipped with
  | nil => rfl
  | cons byte skipped ih => exact ih

theorem scan_encode (small : c < 0x110000) (reads : Reads read c) (rest : Bytes) :
    scan read 0 (encode c ++ rest) = c :: scan read 0 rest := by
  have step := reads rest
  cases bytes : encode c with
  | nil => exact absurd bytes (encode_ne_nil small)
  | cons byte others =>
    rw [bytes] at step
    rw [cons_append] at step ⊢
    rw [scan, step]
    exact congrArg _ (scan_skip others rest)

theorem scan_encodeAll (small : ∀ c ∈ text, c < 0x110000) (reads : ∀ c ∈ text, Reads read c)
    (rest : Bytes) :
    scan read 0 (encodeAll text ++ rest) = text ++ scan read 0 rest := by
  induction text with
  | nil => rfl
  | cons c text ih =>
    rw [forall_mem_cons] at small reads
    rw [encodeAll_cons, append_assoc, scan_encode small.1 reads.1, ih small.2 reads.2]
    rfl

/-! ### Valid text -/

def IsScalar (c : Nat) : Prop :=
  c < 0xd800 ∨ 0xe000 ≤ c ∧ c < 0x110000

instance (c : Nat) : Decidable (IsScalar c) :=
  inferInstanceAs (Decidable (_ ∨ _))

theorem IsScalar.lt (scalar : IsScalar c) : c < 0x110000 := by
  unfold IsScalar at scalar
  omega

def IsText (bytes : Bytes) : Prop :=
  ∃ text : List Nat, (∀ c ∈ text, c < 0x110000) ∧ bytes = encodeAll text

theorem isText_nil : IsText [] :=
  ⟨[], by simp, rfl⟩

theorem IsText.append {first second : Bytes} (left : IsText first) (right : IsText second) :
    IsText (first ++ second) := by
  obtain ⟨text, small, rfl⟩ := left
  obtain ⟨more, smallMore, rfl⟩ := right
  refine ⟨text ++ more, ?_, (encodeAll_append text more).symm⟩
  intro c member
  rcases mem_append.mp member with inside | inside
  · exact small c inside
  · exact smallMore c inside

theorem toNat_lt (c : Char) : c.toNat < 0x110000 := by
  have valid := c.valid
  simp only [UInt32.isValidChar, Nat.isValidChar] at valid
  change c.val.toNat < 0x110000
  omega

theorem isText_utf8 (literal : String) : IsText (utf8 literal) := by
  refine ⟨literal.toList.map Char.toNat, ?_, rfl⟩
  intro c member
  obtain ⟨character, -, rfl⟩ := mem_map.mp member
  exact toNat_lt character

def IsValid (bytes : Bytes) : Prop :=
  ∃ text : List Nat, (∀ c ∈ text, IsScalar c) ∧ bytes = encodeAll text

theorem IsValid.isText {bytes : Bytes} (valid : IsValid bytes) : IsText bytes := by
  obtain ⟨text, scalars, rfl⟩ := valid
  exact ⟨text, fun c member => (scalars c member).lt, rfl⟩

/-! ### Reading with replacement

The way of Go's `range` over a string: what is not valid UTF-8 is read byte by
byte, each as the replacement character. -/

def replacement : Nat := 0xfffd

/-- The length that a first byte announces, with the bounds of the second byte. -/
def announced (first : UInt8) : Option (Nat × UInt8 × UInt8) :=
  if 0xc2 ≤ first ∧ first ≤ 0xdf then some (2, 0x80, 0xbf)
  else if first = 0xe0 then some (3, 0xa0, 0xbf)
  else if first = 0xed then some (3, 0x80, 0x9f)
  else if 0xe1 ≤ first ∧ first ≤ 0xef then some (3, 0x80, 0xbf)
  else if first = 0xf0 then some (4, 0x90, 0xbf)
  else if 0xf1 ≤ first ∧ first ≤ 0xf3 then some (4, 0x80, 0xbf)
  else if first = 0xf4 then some (4, 0x80, 0x8f)
  else none

def continuation (low high byte : UInt8) : Option Nat :=
  if low ≤ byte ∧ byte ≤ high then some (byte.toNat % 0x40) else none

def sequence : Bytes → Option (Nat × Nat)
  | [] => none
  | first :: rest => do
      if first < 0x80 then
        return (first.toNat, 1)
      let (size, low, high) ← announced first
      let (second :: rest) := rest | none
      let second ← continuation low high second
      if size = 2 then
        return (first.toNat % 0x20 * 0x40 + second, 2)
      let (third :: rest) := rest | none
      let third ← continuation 0x80 0xbf third
      if size = 3 then
        return ((first.toNat % 0x10 * 0x40 + second) * 0x40 + third, 3)
      let (fourth :: _) := rest | none
      let fourth ← continuation 0x80 0xbf fourth
      return (((first.toNat % 0x08 * 0x40 + second) * 0x40 + third) * 0x40 + fourth, 4)

def readRune (bytes : Bytes) : Option (Nat × Nat) :=
  (sequence bytes).or (some (replacement, 1))

def runes (bytes : Bytes) : List Nat :=
  scan readRune 0 bytes

theorem toNat_ofNat (small : n < 0x100) : (UInt8.ofNat n).toNat = n := by
  rw [UInt8.toNat_ofNat']
  omega

theorem continuation_ofNat {low high : UInt8} (lower : low.toNat ≤ 0x80 + n)
    (upper : 0x80 + n ≤ high.toNat) (small : n < 0x40) :
    continuation low high (UInt8.ofNat (0x80 + n)) = some n := by
  have byte : (UInt8.ofNat (0x80 + n)).toNat = 0x80 + n := toNat_ofNat (by omega)
  rw [continuation, if_pos, byte]
  · congr 1
    omega
  · rw [UInt8.le_iff_toNat_le, UInt8.le_iff_toNat_le, byte]
    exact ⟨lower, upper⟩

theorem continuation_any (small : n < 0x40) :
    continuation 0x80 0xbf (UInt8.ofNat (0x80 + n)) = some n := by
  apply continuation_ofNat _ _ small
  · exact Nat.le_add_right _ _
  · change 0x80 + n ≤ 0xbf
    omega

/-- The second byte, whose bounds are tighter behind two of the first ones. -/
theorem continuation_second {a b : Nat} {low high : UInt8} (small : y < 0x40)
    (lower : x = a → low.toNat ≤ 0x80 + y) (upper : x = b → 0x80 + y ≤ high.toNat) :
    continuation (if x = a then low else 0x80) (if x = b then high else 0xbf)
      (UInt8.ofNat (0x80 + y)) = some y := by
  apply continuation_ofNat _ _ small
  · split_ifs with first
    · exact lower first
    · exact Nat.le_add_right _ _
  · split_ifs with last
    · exact upper last
    · exact Nat.add_le_add_left (Nat.le_of_lt_succ small) 0x80

theorem announced_two : ∀ x < 0x20, 2 ≤ x →
    announced (UInt8.ofNat (0xc0 + x)) = some (2, 0x80, 0xbf) := by
  decide

theorem announced_three : ∀ x < 0x10, announced (UInt8.ofNat (0xe0 + x)) =
    some (3, if x = 0 then 0xa0 else 0x80, if x = 13 then 0x9f else 0xbf) := by
  decide

theorem announced_four : ∀ x < 5, announced (UInt8.ofNat (0xf0 + x)) =
    some (4, if x = 0 then 0x90 else 0x80, if x = 4 then 0x8f else 0xbf) := by
  decide

theorem not_ascii (large : 0x80 ≤ n) (small : n < 0x100) : ¬UInt8.ofNat n < 0x80 := by
  rw [UInt8.lt_iff_toNat_lt, toNat_ofNat small]
  exact Nat.not_lt.mpr large

theorem sequence_one (small : c < 0x80) (rest : Bytes) :
    sequence (UInt8.ofNat c :: rest) = some (c, 1) := by
  have ascii : UInt8.ofNat c < 0x80 := by
    rw [UInt8.lt_iff_toNat_lt, toNat_ofNat (by omega)]
    exact small
  simp [sequence, ascii, toNat_ofNat (show c < 0x100 by omega)]

theorem sequence_two (first : 2 ≤ x ∧ x < 0x20) (second : y < 0x40) (rest : Bytes) :
    sequence (UInt8.ofNat (0xc0 + x) :: UInt8.ofNat (0x80 + y) :: rest) =
      some (x * 0x40 + y, 2) := by
  have leading : (0xc0 + x) % 0x20 = x := by omega
  simp only [sequence, not_ascii (show 0x80 ≤ 0xc0 + x by omega) (by omega), if_false,
    toNat_ofNat (show 0xc0 + x < 0x100 by omega), announced_two x first.2 first.1,
    continuation_any second, leading, Option.bind_eq_bind, Option.bind_some, if_true,
    Option.pure_def]

theorem sequence_three {z : Nat} (first : x < 0x10) (second : y < 0x40) (third : z < 0x40)
    (long : x = 0 → 0x20 ≤ y) (scalar : x = 13 → y < 0x20) (rest : Bytes) :
    sequence (UInt8.ofNat (0xe0 + x) :: UInt8.ofNat (0x80 + y) :: UInt8.ofNat (0x80 + z) :: rest) =
      some ((x * 0x40 + y) * 0x40 + z, 3) := by
  have leading : (0xe0 + x) % 0x10 = x := by omega
  have next : continuation (if x = 0 then 0xa0 else 0x80) (if x = 13 then 0x9f else 0xbf)
      (UInt8.ofNat (0x80 + y)) = some y :=
    continuation_second second (fun zero => Nat.add_le_add_left (long zero) 0x80)
      fun surrogate => Nat.add_le_add_left (Nat.le_of_lt_succ (scalar surrogate)) 0x80
  simp only [sequence, not_ascii (show 0x80 ≤ 0xe0 + x by omega) (by omega), if_false,
    toNat_ofNat (show 0xe0 + x < 0x100 by omega), announced_three x first, next,
    continuation_any third, leading, Option.bind_eq_bind, Option.bind_some, if_true,
    Option.pure_def, Nat.reduceEqDiff]

theorem sequence_four {z w : Nat} (first : x < 5) (second : y < 0x40) (third : z < 0x40)
    (fourth : w < 0x40) (long : x = 0 → 0x10 ≤ y) (last : x = 4 → y < 0x10) (rest : Bytes) :
    sequence (UInt8.ofNat (0xf0 + x) :: UInt8.ofNat (0x80 + y) :: UInt8.ofNat (0x80 + z) ::
      UInt8.ofNat (0x80 + w) :: rest) = some (((x * 0x40 + y) * 0x40 + z) * 0x40 + w, 4) := by
  have leading : (0xf0 + x) % 0x08 = x := by omega
  have next : continuation (if x = 0 then 0x90 else 0x80) (if x = 4 then 0x8f else 0xbf)
      (UInt8.ofNat (0x80 + y)) = some y :=
    continuation_second second (fun zero => Nat.add_le_add_left (long zero) 0x80)
      fun final => Nat.add_le_add_left (Nat.le_of_lt_succ (last final)) 0x80
  simp only [sequence, not_ascii (show 0x80 ≤ 0xf0 + x by omega) (by omega), if_false,
    toNat_ofNat (show 0xf0 + x < 0x100 by omega), announced_four x first, next,
    continuation_any third, continuation_any fourth, leading, Option.bind_eq_bind,
    Option.bind_some, Option.pure_def, Nat.reduceEqDiff]

theorem sequence_encode (scalar : IsScalar c) (rest : Bytes) :
    sequence (encode c ++ rest) = some (c, (encode c).length) := by
  have bound := scalar.lt
  unfold IsScalar at scalar
  unfold encode
  split_ifs with one two three
  · exact sequence_one one rest
  · refine (sequence_two (by omega) (Nat.mod_lt _ (by decide)) rest).trans ?_
    congr 2
    omega
  · refine (sequence_three (by omega) (Nat.mod_lt _ (by decide)) (Nat.mod_lt _ (by decide))
      (by omega) (by omega) rest).trans ?_
    congr 2
    omega
  · refine (sequence_four (by omega) (Nat.mod_lt _ (by decide)) (Nat.mod_lt _ (by decide))
      (Nat.mod_lt _ (by decide)) (by omega) (by omega) rest).trans ?_
    congr 2
    omega

theorem runes_encodeAll (scalars : ∀ c ∈ text, IsScalar c) :
    runes (encodeAll text) = text := by
  have reads : ∀ c ∈ text, Reads readRune c := by
    intro c member rest
    rw [readRune, sequence_encode (scalars c member)]
    rfl
  have back := scan_encodeAll (fun c member => (scalars c member).lt) reads []
  rwa [append_nil, scan, append_nil] at back

theorem isScalar_toNat (c : Char) : IsScalar c.toNat := by
  have valid := c.valid
  simp only [UInt32.isValidChar, Nat.isValidChar] at valid
  change c.val.toNat < 0xd800 ∨ 0xe000 ≤ c.val.toNat ∧ c.val.toNat < 0x110000
  omega

theorem isValid_utf8 (literal : String) : IsValid (utf8 literal) := by
  refine ⟨literal.toList.map Char.toNat, ?_, rfl⟩
  intro c member
  obtain ⟨character, -, rfl⟩ := mem_map.mp member
  exact isScalar_toNat character

theorem utf8_append (first second : String) :
    utf8 (first ++ second) = utf8 first ++ utf8 second := by
  simp [utf8]

theorem mem_utf8_ascii (letter : Char) (ascii : letter.toNat < 0x80) {text : String} :
    UInt8.ofNat letter.toNat ∈ utf8 text ↔ letter ∈ text.toList := by
  rw [utf8, mem_encodeAll_ascii ascii, mem_map]
  constructor
  · rintro ⟨other, inside, same⟩
    rwa [← Char.toNat_inj.mp same]
  · intro inside
    exact ⟨letter, inside, rfl⟩

theorem runes_utf8 (literal : String) : runes (utf8 literal) = literal.toList.map Char.toNat := by
  apply runes_encodeAll
  intro c member
  obtain ⟨character, -, rfl⟩ := mem_map.mp member
  exact isScalar_toNat character

theorem utf8_injective : Function.Injective utf8 := by
  intro first second same
  have characters := (runes_utf8 first).symm.trans ((congrArg runes same).trans (runes_utf8 second))
  have toNat : Function.Injective Char.toNat := fun a b equal =>
    Char.ext (UInt32.toNat_inj.mp equal)
  exact String.toList_inj.mp (map_injective_iff.mpr toNat characters)

end Utf8Text
