import Mathlib.Data.List.Infix

/-!
# Paths over several filesystems

`filesystem_get_node` over whatever `lookup_follow` finds under a name: a tuple
of the same filesystem, or of another one that is mounted there.  A path that
never leaves the root filesystem is found in the same way whatever is mounted
elsewhere.
-/

namespace Jerboa.Kernel

/-- The outcome of a resolution: an entry with its parent, an error, a way out
of the root filesystem, or the end of the stack. -/
inductive Walk (T : Type)
  | found (t p : T)
  | missing
  | crossed
  | exhausted
  deriving DecidableEq, Repr

variable {T U : Type}

def Walk.andThen : Walk T → (T → T → Walk T) → Walk T
  | .found t p, next => next t p
  | .missing, _ => .missing
  | .crossed, _ => .crossed
  | .exhausted, _ => .exhausted

/-- What path resolution asks of tuples. -/
structure Lookups (T : Type) where
  root : T
  lookupFollow : (t : T) → (a : List Char) → Walk T
  isDir : T → Bool
  linktarget : T → Option (List Char)

namespace Lookups

variable (fs : Lookups T)

def components (path : List Char) : List (List Char) :=
  (path.splitOn '/').filter (· ≠ [])

/-- The loop of `filesystem_resolve_sstring` over the names of a path; the last
one is only looked up, unless a slash follows it. -/
def resolveFrom (followLinks : T → T → Walk T) (slash : Bool) :
    (t p : T) → List (List Char) → Walk T
  | t, p, [] => .found t p
  | t, _, a :: names =>
    if names = [] ∧ slash = false then
      if fs.isDir t then fs.lookupFollow t a else .missing
    else
      (fs.lookupFollow t a).andThen fun entry parent =>
        (followLinks entry parent).andThen fun target _ =>
          if fs.isDir target then resolveFrom followLinks slash target parent names
          else .missing

def resolve (followLinks : T → T → Walk T) (cwd : T) (path : List Char) : Walk T :=
  if path = [] then .missing
  else
    let start := if path.head? = some '/' then fs.root else cwd
    fs.resolveFrom followLinks (path.getLast? = some '/') start start (components path)

/-- One turn of the loop of `filesystem_follow_links`. -/
def hop (resolve : T → List Char → Walk T) (again : T → T → Walk T) (link parent : T) : Walk T :=
  match fs.linktarget link with
  | none => .found link parent
  | some target =>
    (resolve parent target).andThen fun next nextParent =>
      if (fs.linktarget next).isSome then again next nextParent else .found next nextParent

def followHops (resolve : T → List Char → Walk T) : (hops : Nat) → (link parent : T) → Walk T
  | 0 => fs.hop resolve fun _ _ => .missing
  | hops + 1 => fs.hop resolve (followHops resolve hops)

def symlinkHopsMax : Nat := 8

def followLinks : (depth : Nat) → (link parent : T) → Walk T
  | 0, link, parent => if (fs.linktarget link).isSome then .exhausted else .found link parent
  | depth + 1, link, parent =>
    fs.followHops (fs.resolve (followLinks depth)) symlinkHopsMax link parent

/-- `depth` is the nesting of symbolic links inside the targets of others that
the stack has room for. -/
def getNode (depth : Nat) (path : List Char) : Walk T :=
  (fs.resolve (fs.followLinks depth) fs.root path).andThen (fs.followLinks depth)

end Lookups

/-! ### Tuples among more tuples -/

def Walk.Within (place : T → U) (first : Walk T) (second : Walk U) : Prop :=
  ∀ t p, first = .found t p → second = .found (place t) (place p)

/-- Whatever is found with the first lookups is found with the second ones. -/
structure Lookups.Within (place : T → U) (fs : Lookups T) (other : Lookups U) : Prop where
  root : place fs.root = other.root
  lookupFollow : ∀ t a, (fs.lookupFollow t a).Within place (other.lookupFollow (place t) a)
  isDir : ∀ t, other.isDir (place t) = fs.isDir t
  linktarget : ∀ t, other.linktarget (place t) = fs.linktarget t

variable {place : T → U} {fs : Lookups T} {other : Lookups U}

namespace Walk

theorem within_found (t p : T) : (Walk.found t p).Within place (.found (place t) (place p)) := by
  rintro _ _ ⟨⟩
  rfl

theorem Within.andThen {first : Walk T} {second : Walk U} {next : T → T → Walk T}
    {further : U → U → Walk U} (within : first.Within place second)
    (nextWithin : ∀ t p, (next t p).Within place (further (place t) (place p))) :
    (first.andThen next).Within place (second.andThen further) := by
  cases first with
  | found t p =>
    rw [within t p rfl]
    exact nextWithin t p
  | missing | crossed | exhausted => nofun

end Walk

namespace Lookups.Within

variable (within : fs.Within place other) {follow : T → T → Walk T} {followOther : U → U → Walk U}

include within

theorem resolveFrom
    (follows : ∀ link parent, (follow link parent).Within place
      (followOther (place link) (place parent)))
    (slash : Bool) (names : List (List Char)) (t p : T) :
    (fs.resolveFrom follow slash t p names).Within place
      (other.resolveFrom followOther slash (place t) (place p) names) := by
  induction names generalizing t p with
  | nil => exact Walk.within_found t p
  | cons a names ih =>
    unfold Lookups.resolveFrom
    rw [within.isDir]
    split
    · split
      · exact within.lookupFollow t a
      · nofun
    · apply (within.lookupFollow t a).andThen
      intro entry parent
      apply (follows entry parent).andThen
      intro target _
      rw [within.isDir]
      split
      · exact ih target parent
      · nofun

theorem resolve
    (follows : ∀ link parent, (follow link parent).Within place
      (followOther (place link) (place parent))) (cwd : T) (path : List Char) :
    (fs.resolve follow cwd path).Within place (other.resolve followOther (place cwd) path) := by
  unfold Lookups.resolve
  split
  · nofun
  · rw [← within.root, ← apply_ite place]
    exact within.resolveFrom follows _ _ _ _

variable {resolve : T → List Char → Walk T} {resolveOther : U → List Char → Walk U}

theorem hop {again : T → T → Walk T} {further : U → U → Walk U}
    (resolves : ∀ cwd path, (resolve cwd path).Within place (resolveOther (place cwd) path))
    (goesOn : ∀ link parent, (again link parent).Within place (further (place link) (place parent)))
    (link parent : T) :
    (fs.hop resolve again link parent).Within place
      (other.hop resolveOther further (place link) (place parent)) := by
  unfold Lookups.hop
  rw [within.linktarget]
  cases fs.linktarget link with
  | none => exact Walk.within_found link parent
  | some target =>
    apply (resolves parent target).andThen
    intro next nextParent
    rw [within.linktarget]
    split
    · exact goesOn next nextParent
    · exact Walk.within_found next nextParent

theorem followHops
    (resolves : ∀ cwd path, (resolve cwd path).Within place (resolveOther (place cwd) path))
    (hops : Nat) (link parent : T) :
    (fs.followHops resolve hops link parent).Within place
      (other.followHops resolveOther hops (place link) (place parent)) := by
  induction hops generalizing link parent with
  | zero =>
    apply within.hop resolves
    nofun
  | succ hops ih => exact within.hop resolves ih link parent

theorem followLinks (depth : Nat) (link parent : T) :
    (fs.followLinks depth link parent).Within place
      (other.followLinks depth (place link) (place parent)) := by
  induction depth generalizing link parent with
  | zero =>
    unfold Lookups.followLinks
    rw [within.linktarget]
    split
    · nofun
    · exact Walk.within_found link parent
  | succ depth ih => exact within.followHops (within.resolve ih) symlinkHopsMax link parent

theorem getNode (depth : Nat) (path : List Char) :
    (fs.getNode depth path).Within place (other.getNode depth path) := by
  have resolved := within.resolve (within.followLinks depth) fs.root path
  rw [within.root] at resolved
  exact resolved.andThen (within.followLinks depth)

end Lookups.Within

/-! ### The root filesystem -/

structure Filesystem where
  root : Nat
  lookup : (t : Nat) → (name : List Char) → Option Nat
  isDir : Nat → Bool
  linktarget : Nat → Option (List Char)

/-- The root filesystem, and what the volumes hold, by their position. -/
structure RootFs extends Filesystem where
  volume : Nat → Filesystem
  depth : Nat

namespace RootFs

variable (fs : RootFs) (isMount : Nat → Bool)

/-- The part of the root filesystem from which no path leads into a directory
where something may be mounted. -/
def inside : Lookups Nat where
  root := fs.root
  lookupFollow t a :=
    match fs.lookup t a with
    | none => .missing
    | some entry => if isMount entry then .crossed else .found entry t
  isDir := fs.isDir
  linktarget := fs.linktarget

def getNode (path : List Char) : Walk Nat :=
  (fs.inside isMount).getNode fs.depth path

end RootFs

end Jerboa.Kernel
