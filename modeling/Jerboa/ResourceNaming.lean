import Mathlib.Data.List.Basic

/-!
# Resource names

The rules `internal/naming` imposes on names of networks and volumes before
they become a path component.
-/

namespace Jerboa.Naming

def maxResourceNameLen : Nat := 64

/-- The reason `ValidateResourceName` refuses a name; each is one of its error
texts and carries the kind of resource and the name they quote. -/
inductive InvalidResourceName
  | empty (kind : String)
  | tooLong (kind name : String)
  | pathSeparator (kind name : String)
  | badCharacter (kind name : String)
  | trailingDot (kind name : String)
  | reservedDevice (kind name : String)
deriving DecidableEq, Repr

def isAlphanumeric (c : Char) : Bool :=
  ('a' ≤ c && c ≤ 'z') || ('A' ≤ c && c ≤ 'Z') || ('0' ≤ c && c ≤ '9')

/-- `resourceNameRe`: `^[a-zA-Z0-9][a-zA-Z0-9_.-]*$`. -/
def matchesResourceName : List Char → Bool
  | [] => false
  | first :: rest =>
    isAlphanumeric first &&
      rest.all fun c => isAlphanumeric c || c = '_' || c = '.' || c = '-'

def hasDoubleDot : List Char → Bool
  | '.' :: '.' :: _ => true
  | _ :: rest => hasDoubleDot rest
  | [] => false

def windowsReserved : List String :=
  ["CON", "PRN", "AUX", "NUL",
    "COM1", "COM2", "COM3", "COM4", "COM5", "COM6", "COM7", "COM8", "COM9",
    "LPT1", "LPT2", "LPT3", "LPT4", "LPT5", "LPT6", "LPT7", "LPT8", "LPT9"]

def toUpper (text : List Char) : List Char :=
  text.map Char.toUpper

def validateResourceName (kind name : String) : Except InvalidResourceName Unit :=
  let text := name.toList
  if name = "" then .error (.empty kind)
  else if maxResourceNameLen < name.utf8ByteSize then .error (.tooLong kind name)
  else if text.any (fun c => c = '/' || c = '\\') || hasDoubleDot text then
    .error (.pathSeparator kind name)
  else if !matchesResourceName text then .error (.badCharacter kind name)
  else if text.getLast? = some '.' then .error (.trailingDot kind name)
  else if String.ofList (toUpper (text.takeWhile (· ≠ '.'))) ∈ windowsReserved then
    .error (.reservedDevice kind name)
  else .ok ()

theorem validateResourceName_ok {kind name : String}
    (accepted : validateResourceName kind name = .ok ()) :
    name ≠ "" ∧ '/' ∉ name.toList ∧ hasDoubleDot name.toList = false ∧
      matchesResourceName name.toList = true := by
  simp only [validateResourceName] at accepted
  split_ifs at accepted with empty long separators plain trailing reserved
  simp only [Bool.or_eq_true, not_or, Bool.not_eq_true, List.any_eq_false,
    decide_eq_false_iff_not] at separators
  refine ⟨empty, fun inside => ?_, separators.2, by simpa using plain⟩
  exact absurd rfl (separators.1 '/' inside).1

end Jerboa.Naming
