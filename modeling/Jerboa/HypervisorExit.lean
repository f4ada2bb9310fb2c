import Mathlib.Data.List.Infix

/-!
# Reading a hypervisor's exit

`internal/vm/exit.go`: the guest's own exit code hidden in the process status,
and what counts as a failure for the restart policy.
-/

namespace Jerboa.Vm

/-- The result of `cmd.Wait`: no error, an exit status (`-1` for a process that
was signaled), or any other error. -/
inductive WaitErr
  | clean
  | exited (status : Int)
  | other
deriving DecidableEq, Repr

/-- `guestExitCode`; `none` stands for `ok = false`. -/
def guestExitCode : WaitErr → Option Nat
  | .clean => none
  | .other => none
  | .exited status =>
    if status ≤ 0 then none
    else if status % 2 = 0 then none
    else some (status / 2).toNat

/-- `unicode.ToLower` on the characters that can become a letter of the texts
searched for; the dotted capital I is the only one outside ASCII. -/
def lowerChar (c : Char) : Char :=
  if c = 'İ' then 'i' else c.toLower

def splitLines : List Char → List (List Char)
  | [] => [[]]
  | c :: rest =>
    if c = '\n' then [] :: splitLines rest
    else
      match splitLines rest with
      | [] => [[c]]
      | line :: lines => (c :: line) :: lines

def containsText (text : List Char) (part : String) : Bool :=
  text.tails.any fun rest => part.toList.isPrefixOf rest

/-- Whether one line of stderr is a diagnostic of QEMU's own.  Surrounding
space, which the source trims, plays no part in the tests. -/
def qemuDiagnostic (line : List Char) : Bool :=
  let lower := line.map lowerChar
  containsText lower "qemu" && containsText line ":" && !containsText lower "warning:"

def qemuErrored (stderr : String) : Bool :=
  (splitLines stderr.toList).any qemuDiagnostic

def isFailureExit (waitErr : WaitErr) (qemuStderr : String) : Bool :=
  match guestExitCode waitErr with
  | none => waitErr ≠ .clean
  | some code => if code ≠ 0 then true else qemuErrored qemuStderr

end Jerboa.Vm
