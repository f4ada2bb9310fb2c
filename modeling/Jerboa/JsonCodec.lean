import Mathlib.Tactic

/-!
# Records as JSON

JSON values, and codecs that write a record member by member and read it back in
the way of Go's `encoding/json`: a member that is missing or null leaves the zero
value, and a member that is tagged `omitempty` is not written for the zero value.
Objects are those that a codec writes, so every key is there at most once.
-/

namespace Jerboa

inductive Json
  | null
  | bool (value : Bool)
  | number (value : Int)
  | string (text : String)
  | array (items : List Json)
  | object (members : List (String × Json))

namespace Json

/-- How values of a type are written and read.  Several values can be written in
the same way; all of them are read as their normal form. -/
structure Codec (α : Type) where
  zero : α
  encode : α → Json
  decode : Json → Option α
  normal : α → α
  normal_zero : normal zero = zero
  decode_encode : ∀ value, decode (encode value) = some (normal value)

namespace Codec

variable {α β : Type}

/-! ### Members of an object -/

def member (codec : Codec α) (key : String) (value : α) : List (String × Json) :=
  [(key, codec.encode value)]

/-- A member that is tagged `omitempty`. -/
def omitEmpty [DecidableEq α] (codec : Codec α) (key : String) (value : α) :
    List (String × Json) :=
  if value = codec.zero then [] else [(key, codec.encode value)]

def read (codec : Codec α) (key : String) (members : List (String × Json)) : Option α :=
  (members.lookup key).elim (some codec.zero) codec.decode

@[simp]
theorem read_nil (codec : Codec α) (key : String) : codec.read key [] = some codec.zero :=
  rfl

@[simp]
theorem read_member_self (codec : Codec α) (key : String) (value : α)
    (members : List (String × Json)) :
    codec.read key (codec.member key value ++ members) = some (codec.normal value) := by
  simp [read, member, codec.decode_encode]

theorem read_member_of_ne (codec : Codec α) (other : Codec β) {key written : String}
    (different : key ≠ written) (value : β) (members : List (String × Json)) :
    codec.read key (other.member written value ++ members) = codec.read key members := by
  simp [read, member, List.lookup_cons, beq_false_of_ne different]

theorem read_omitEmpty_of_ne [DecidableEq β] (codec : Codec α) (other : Codec β)
    {key written : String} (different : key ≠ written) (value : β)
    (members : List (String × Json)) :
    codec.read key (other.omitEmpty written value ++ members) = codec.read key members := by
  unfold omitEmpty
  split
  · rfl
  · exact read_member_of_ne codec other different value members

theorem read_omitEmpty_self [DecidableEq α] (codec : Codec α) (key : String) (value : α)
    {members : List (String × Json)} (missing : codec.read key members = some codec.zero) :
    codec.read key (codec.omitEmpty key value ++ members) = some (codec.normal value) := by
  unfold omitEmpty
  split
  · rename_i isZero
    rw [List.nil_append, missing, isZero, codec.normal_zero]
  · exact read_member_self codec key value members

/-! ### Types -/

def string : Codec String where
  zero := ""
  encode := .string
  decode
    | .string text => some text
    | .null => some ""
    | _ => none
  normal := id
  normal_zero := rfl
  decode_encode _ := rfl

def bool : Codec Bool where
  zero := false
  encode := .bool
  decode
    | .bool value => some value
    | .null => some false
    | _ => none
  normal := id
  normal_zero := rfl
  decode_encode _ := rfl

/-- `int` and `int64`; the numbers that are written come from such a type, so
none of them is out of range. -/
def int : Codec Int where
  zero := 0
  encode := .number
  decode
    | .number value => some value
    | .null => some 0
    | _ => none
  normal := id
  normal_zero := rfl
  decode_encode _ := rfl

/-- An `int` that counts something. -/
def nat : Codec Nat where
  zero := 0
  encode value := .number value
  decode
    | .number value => if 0 ≤ value then some value.toNat else none
    | .null => some 0
    | _ => none
  normal := id
  normal_zero := rfl
  decode_encode value := by simp

/-- An unsigned type of a fixed width; a number that does not fit is refused. -/
def unsigned (limit : Nat) (ofNat : Nat → α) (toNat : α → Nat)
    (bounded : ∀ value, toNat value < limit)
    (ofNat_toNat : ∀ value, ofNat (toNat value) = value) : Codec α where
  zero := ofNat 0
  encode value := .number (toNat value)
  decode
    | .number value => if 0 ≤ value ∧ value < limit then some (ofNat value.toNat) else none
    | .null => some (ofNat 0)
    | _ => none
  normal := id
  normal_zero := rfl
  decode_encode value := by simp [bounded value, ofNat_toNat]

def uint16 : Codec UInt16 :=
  unsigned (2 ^ 16) UInt16.ofNat UInt16.toNat UInt16.toNat_lt fun _ => UInt16.ofNat_toNat

def uint64 : Codec UInt64 :=
  unsigned (2 ^ 64) UInt64.ofNat UInt64.toNat UInt64.toNat_lt fun _ => UInt64.ofNat_toNat

/-- A slice; the empty one is written as null, as a slice that was never set is. -/
def slice (codec : Codec α) : Codec (List α) where
  zero := []
  encode
    | [] => .null
    | first :: others => .array ((first :: others).map codec.encode)
  decode
    | .array items => items.mapM codec.decode
    | .null => some []
    | _ => none
  normal values := values.map codec.normal
  normal_zero := rfl
  decode_encode values := by
    have each (values : List α) :
        (values.map codec.encode).mapM codec.decode = some (values.map codec.normal) := by
      induction values with
      | nil => rfl
      | cons value values ih => simp [codec.decode_encode, ih]
    cases values with
    | nil => rfl
    | cons first others => exact each (first :: others)

def pointer (codec : Codec α) (notNull : ∀ value, codec.encode value ≠ .null) :
    Codec (Option α) where
  zero := none
  encode value := value.elim .null codec.encode
  decode
    | .null => some none
    | json => (codec.decode json).map some
  normal value := value.map codec.normal
  normal_zero := rfl
  decode_encode value := by
    cases value with
    | none => rfl
    | some value =>
      have written := codec.decode_encode value
      have present := notNull value
      cases json : codec.encode value with
      | null => exact absurd json present
      | _ =>
        rw [json] at written
        simp [json, written]

def text (ofText : String → α) (toText : α → String)
    (toText_ofText : ∀ text, toText (ofText text) = text) : Codec α where
  zero := ofText ""
  encode value := .string (toText value)
  decode
    | .string text => some (ofText text)
    | .null => some (ofText "")
    | _ => none
  normal value := ofText (toText value)
  normal_zero := by rw [toText_ofText]
  decode_encode _ := rfl

def struct (zero : α) (normal : α → α) (members : α → List (String × Json))
    (ofMembers : List (String × Json) → Option α) (normal_zero : normal zero = zero)
    (ofMembers_members : ∀ value, ofMembers (members value) = some (normal value)) : Codec α where
  zero := zero
  encode value := .object (members value)
  decode
    | .object members => ofMembers members
    | .null => some zero
    | _ => none
  normal := normal
  normal_zero := normal_zero
  decode_encode := ofMembers_members

theorem struct_encode_ne_null {zero : α} {normal : α → α} {members : α → List (String × Json)}
    {ofMembers : List (String × Json) → Option α} {normal_zero : normal zero = zero}
    {ofMembers_members : ∀ value, ofMembers (members value) = some (normal value)} (value : α) :
    (struct zero normal members ofMembers normal_zero ofMembers_members).encode value ≠ .null :=
  Json.noConfusion

end Codec

end Json

end Jerboa
