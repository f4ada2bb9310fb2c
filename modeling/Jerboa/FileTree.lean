import Jerboa.KernelText
import Jerboa.ValueMap
import Mathlib.Logic.Function.Basic

/-!
# Directories, links and paths of a filesystem

The metadata tuples of one filesystem, each known by a number, and the path
resolution of `fs/fs.c` over them.  Nothing is mounted on its directories and
it is the filesystem at `/`, so that `lookup_follow` only looks an entry up
and the parent it reports is the directory it looked in.
-/

namespace Jerboa.Kernel

open Utf8Text

inductive Errno
  | eperm
  | enoent
  | eexist
  | enotdir
  | eisdir
  | einval
  | enospc
  | erofs
  | emlink
  | enametoolong
  | enotempty
  | eloop
deriving DecidableEq, Repr

/-- The attributes of a metadata tuple: `children`, `..`, `linktarget` and
`nlink`. -/
structure FileNode where
  children : Option (ValueMap Bytes Nat)
  parent : Option Nat
  linktarget : Option Bytes
  nlink : Option Nat

def FileNode.empty : FileNode :=
  ⟨none, none, none, none⟩

/-- The tuples of a filesystem; `files` are the ones in the table of that name
and `next` is the first number that no tuple has. -/
structure FileTree where
  root : Nat
  nodes : Nat → FileNode
  files : Nat → Bool
  next : Nat

def dot : Bytes := [0x2e]

def dotDot : Bytes := [0x2e, 0x2e]

def slash : UInt8 := 0x2f

def nameMax : Nat := 255

namespace FileTree

variable (tree : FileTree)

def entry (t : Nat) (name : Bytes) : Option Nat :=
  (tree.nodes t).children.bind fun children => children.lookup name

def isDir (t : Nat) : Bool :=
  (tree.nodes t).children.isSome

def isSymlink (t : Nat) : Bool :=
  (tree.nodes t).linktarget.isSome

def lookup (t : Nat) (a : Bytes) : Option Nat :=
  if a = dotDot then (tree.nodes t).parent
  else if a = dot then some t
  else tree.entry t a

end FileTree

/-! ### The text of a path -/

/-- `push_character` into the buffer for one name. -/
def pushName (a : Bytes) (c : Nat) : Option Bytes :=
  if c < 0x110000 ∧ (pushCharacter a c).length ≤ nameMax then some (pushCharacter a c) else none

/-- How the text of a path ends: with a name that no slash follows (it may be
empty), with bytes that are not a character, or with a name that is too long. -/
inductive PathEnd
  | last (name : Bytes)
  | invalid
  | tooLong
deriving DecidableEq, Repr

/-- A name that a slash follows, and whether something comes after the slash. -/
structure PathStep where
  name : Bytes
  more : Bool
deriving DecidableEq, Repr

/-- The text part of the loop of `filesystem_resolve_sstring`: the names that it
completes at a slash, and how it ends.  `skip` bytes belong to the character
that was read last, and `a` is the name so far. -/
def pathSteps : (path : Bytes) → (skip : Nat) → (a : Bytes) → List PathStep × PathEnd
  | [], _, a => ([], .last a)
  | _ :: path, skip + 1, a => pathSteps path skip a
  | byte :: path, 0, a =>
    match utf8Decode (byte :: path) with
    | none => ([], .invalid)
    | some (c, nbytes) =>
      if c = slash.toNat then
        let rest := pathSteps path (nbytes - 1) []
        if a = [] then rest
        else (⟨a, decide (path ≠ [] ∧ byte = slash)⟩ :: rest.1, rest.2)
      else
        match pushName a c with
        | none => ([], .tooLong)
        | some a => pathSteps path (nbytes - 1) a

/-! ### Resolution -/

/-- What `filesystem_resolve_sstring` gives: an entry and its parent, or an
error and the parent it reports.  `reached` is an entry with a null parent, the
directory that a path comes to before bytes that are no character; paths start
from directories, so it is no link.  `overflow` stands for links nested deeper
than the stack allows. -/
inductive Resolution
  | found (entry parent : Nat)
  | reached (entry : Nat)
  | failed (err : Errno) (parent : Option Nat)
  | overflow
deriving DecidableEq, Repr

inductive Followed
  | to (target : Nat)
  | failed (err : Errno)
  | overflow
deriving DecidableEq, Repr

def symlinkHopsMax : Nat := 8

namespace FileTree

variable (tree : FileTree)

def resolveLast (t p : Nat) : PathEnd → Resolution
  | .last name =>
    if name = [] then .found t p
    else if tree.isDir t = false then .failed .enotdir none
    else
      match tree.lookup t name with
      | none => .failed .enoent (some t)
      | some entry => .found entry t
  | .invalid => .reached t
  | .tooLong => .failed .enametoolong (some p)

/-- The loop of `filesystem_resolve_sstring` over the names that a slash
follows. -/
def resolveSteps (followLinks : Nat → Nat → Followed) (pathEnd : PathEnd) :
    (t p : Nat) → List PathStep → Resolution
  | t, p, [] => tree.resolveLast t p pathEnd
  | t, _, step :: steps =>
    -- an error before more of the path reports no parent
    let reported := if step.more then none else some t
    match tree.lookup t step.name with
    | none => .failed .enoent reported
    | some entry =>
      match followLinks entry t with
      | .overflow => .overflow
      | .failed err => .failed err reported
      | .to target =>
        if tree.isDir target then resolveSteps followLinks pathEnd target t steps
        else .failed .enotdir none

def start (cwd : Nat) (path : Bytes) : Nat :=
  if path.head? = some slash then tree.root else cwd

def resolveWith (followLinks : Nat → Nat → Followed) (cwd : Nat) (path : Bytes) : Resolution :=
  if path = [] then .failed .enoent (some cwd)
  else
    let text := pathSteps path 0 []
    tree.resolveSteps followLinks text.2 (tree.start cwd path) (tree.start cwd path) text.1

/-- The loop of `filesystem_follow_links`, with the number of further links it
accepts. -/
def followHops (resolve : Nat → Bytes → Resolution) : (hops : Nat) → (link parent : Nat) → Followed
  | hops, link, parent =>
    match (tree.nodes link).linktarget with
    | none => .to link
    | some target =>
      match resolve parent target with
      | .overflow => .overflow
      | .failed err _ => .failed err
      | .reached entry => .to entry
      | .found entry entryParent =>
        if tree.isSymlink entry then
          match hops with
          | 0 => .failed .eloop
          | hops + 1 => followHops resolve hops entry entryParent
        else .to entry

/-- `filesystem_follow_links`, on a stack with room for `depth` calls of it that
are following a link. -/
def followLinks : (depth : Nat) → (link parent : Nat) → Followed
  | 0, link, _ => if tree.isSymlink link then .overflow else .to link
  | depth + 1, link, parent =>
    if tree.isSymlink link then
      tree.followHops (tree.resolveWith (followLinks depth)) symlinkHopsMax link parent
    else .to link

def resolve (depth : Nat) (cwd : Nat) (path : Bytes) : Resolution :=
  tree.resolveWith (tree.followLinks depth) cwd path

/-- `filesystem_resolve_sstring_follow`: the parent is the one of the path, also
when a link was followed. -/
def resolveFollow (depth : Nat) (cwd : Nat) (path : Bytes) : Resolution :=
  match tree.resolve depth cwd path with
  | .overflow => .overflow
  | .failed err parent => .failed err parent
  | .reached entry => .reached entry
  | .found entry parent =>
    match tree.followLinks depth entry parent with
    | .overflow => .overflow
    | .failed err => .failed err (some parent)
    | .to target => .found target parent

end FileTree

end Jerboa.Kernel
