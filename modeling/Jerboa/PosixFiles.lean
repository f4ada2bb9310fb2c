import Jerboa.Utf8Text
import Mathlib.Data.List.Infix
import Mathlib.Logic.Function.Basic

/-!
# Files, directories and symbolic links of a host

A location is the list of names from the root of the file system, without any
link in between; the tree says what is there.  Paths are resolved as the
operating system does it, component by component, with the target of a link
in place of its name.  The locations that an operation creates or writes are
kept, so that one can say where a program wrote.
-/

namespace PosixFiles

open Utf8Text List Function

abbrev Location := List Bytes

def slash : UInt8 := 0x2f

def dot : Bytes := [0x2e]

def dotDot : Bytes := [0x2e, 0x2e]

def IsName (component : Bytes) : Prop :=
  component ≠ [] ∧ component ≠ dot ∧ component ≠ dotDot

theorem isName_of_step {component : Bytes} (notEmpty : ¬(component = [] ∨ component = dot))
    (notUp : component ≠ dotDot) : IsName component :=
  ⟨fun same => notEmpty (.inl same), fun same => notEmpty (.inr same), notUp⟩

inductive FileKind
  | dir
  | file (content : Bytes)
  | symlink (target : Bytes)
deriving DecidableEq, Repr

/-- A tree of files with the locations written so far. -/
structure Disk where
  nodes : Location → Option FileKind
  root : nodes [] = some .dir
  closed : ∀ location name, nodes (location ++ [name]) ≠ none → nodes location = some .dir
  written : List Location

/-! ### Resolution -/

/-- How a resolution ends: at a location, at a name that a directory does not
have, at a name before the last one that is not there, or with another error. -/
inductive Walked
  | arrived (location : Location)
  | vacant (parent : Location) (name : Bytes)
  | missing
  | failed
deriving DecidableEq, Repr

namespace Disk

variable (disk : Disk)

/-- The components of a path, with `follow` for the links that are met.  A link
at the end is followed only if `followLast` is set. -/
def walkFrom (followLast : Bool) (follow : Location → List Bytes → Walked) :
    Location → List Bytes → Walked
  | current, [] => .arrived current
  | current, component :: rest =>
    if component = [] ∨ component = dot then walkFrom followLast follow current rest
    else if component = dotDot then walkFrom followLast follow current.dropLast rest
    else
      match disk.nodes (current ++ [component]) with
      | none => if rest = [] then .vacant current component else .missing
      | some .dir => walkFrom followLast follow (current ++ [component]) rest
      | some (.file _) => if rest = [] then .arrived (current ++ [component]) else .failed
      | some (.symlink target) =>
        if rest = [] ∧ followLast = false then .arrived (current ++ [component])
        else
          follow (if target.head? = some slash then [] else current)
            (target.splitOn slash ++ rest)

/-- The resolution that follows at most `links` links. -/
def walk (followLast : Bool) : (links : Nat) → Location → List Bytes → Walked
  | 0 => disk.walkFrom followLast fun _ _ => .failed
  | links + 1 => disk.walkFrom followLast (walk followLast links)

def maxLinks : Nat := 40

def stat (path : Location) : Walked :=
  disk.walk true maxLinks [] path

def lstat (path : Location) : Walked :=
  disk.walk false maxLinks [] path

def isLink (location : Location) : Bool :=
  match disk.nodes location with
  | some (.symlink _) => true
  | _ => false

/-! ### Operations

An operation gives the tree after it and whether it succeeded; what it did
before it failed stays. -/

def create (parent : Location) (name : Bytes) (kind : FileKind)
    (isDir : disk.nodes parent = some .dir) (isFree : disk.nodes (parent ++ [name]) = none) :
    Disk where
  nodes := update disk.nodes (parent ++ [name]) (some kind)
  root := by
    rw [update_of_ne (by simp)]
    exact disk.root
  closed := by
    intro location other present
    have oldDir : disk.nodes location = some .dir := by
      by_cases same : location ++ [other] = parent ++ [name]
      · rw [(append_inj' same rfl).1]
        exact isDir
      · rw [update_of_ne same] at present
        exact disk.closed location other present
    rw [update_of_ne]
    · exact oldDir
    · intro same
      rw [same, isFree] at oldDir
      cases oldDir
  written := disk.written ++ [parent ++ [name]]

def overwrite (location : Location) (old new : Bytes)
    (isFile : disk.nodes location = some (.file old)) : Disk where
  nodes := update disk.nodes location (some (.file new))
  root := by
    rw [update_of_ne]
    · exact disk.root
    · intro same
      rw [← same, disk.root] at isFile
      cases isFile
  closed := by
    intro parent name present
    have oldPresent : disk.nodes (parent ++ [name]) ≠ none := by
      by_cases same : parent ++ [name] = location
      · rw [same, isFile]
        simp
      · rwa [update_of_ne same] at present
    have oldDir := disk.closed parent name oldPresent
    rw [update_of_ne]
    · exact oldDir
    · intro same
      rw [same, isFile] at oldDir
      cases oldDir
  written := disk.written ++ [location]

def createAt (kind : FileKind) (parent : Location) (name : Bytes) : Disk × Bool :=
  if isDir : disk.nodes parent = some .dir then
    if isFree : disk.nodes (parent ++ [name]) = none then
      (disk.create parent name kind isDir isFree, true)
    else (disk, false)
  else (disk, false)

/-- `mkdir`, which is content with a directory that is already there. -/
def mkdir (path : Location) : Disk × Bool :=
  match disk.lstat path with
  | .vacant parent name => disk.createAt .dir parent name
  | .arrived location => (disk, disk.nodes location = some .dir)
  | .missing | .failed => (disk, false)

def symlink (target : Bytes) (path : Location) : Disk × Bool :=
  match disk.lstat path with
  | .vacant parent name => disk.createAt (.symlink target) parent name
  | .arrived _ | .missing | .failed => (disk, false)

/-- Opening a file for writing, created or truncated, and writing its content. -/
def writeFile (content : Bytes) (path : Location) : Disk × Bool :=
  match disk.stat path with
  | .vacant parent name => disk.createAt (.file content) parent name
  | .arrived location =>
    match found : disk.nodes location with
    | some (.file old) => (disk.overwrite location old content found, true)
    | _ => (disk, false)
  | .missing | .failed => (disk, false)

/-- A directory with all directories above it, for a path given from its end. -/
def mkdirAllReversed : Location → Disk × Bool
  | [] => (disk, true)
  | name :: above =>
    match disk.stat (name :: above).reverse with
    | .arrived location => (disk, disk.nodes location = some .dir)
    | .vacant _ _ | .missing | .failed =>
      let made := mkdirAllReversed above
      if made.2 then made.1.mkdir (name :: above).reverse else made

def mkdirAll (path : Location) : Disk × Bool :=
  disk.mkdirAllReversed path.reverse

def clear (directory : Location) (keep : Bytes → Bool) : Disk where
  nodes location :=
    if directory <+: location ∧
        ((location.drop directory.length).head?.any fun name => !keep name) = true then none
    else disk.nodes location
  root := by
    simp [disk.root]
  closed := by
    intro location name present
    rw [ite_ne_left_iff] at present
    have oldDir := disk.closed location name present.2.symm
    rw [if_neg, oldDir]
    rintro ⟨⟨rest, rfl⟩, dropped⟩
    apply present.1
    refine ⟨⟨rest ++ [name], by simp⟩, ?_⟩
    rw [append_assoc, drop_left]
    rw [drop_left] at dropped
    cases rest with
    | nil => simp at dropped
    | cons first rest => simpa using dropped
  written := disk.written

def ofDirectories (directories : List Location) : Disk where
  nodes location :=
    if location = [] ∨ ∃ directory ∈ directories, location <+: directory then some .dir else none
  root := if_pos (.inl rfl)
  closed := by
    intro location name present
    rw [ite_ne_right_iff] at present
    rcases present.1 with empty | ⟨directory, member, below⟩
    · simp at empty
    · exact if_pos (.inr ⟨directory, member, (prefix_append _ _).trans below⟩)
  written := []

theorem isLink_ofDirectories (directories : List Location) (location : Location) :
    (ofDirectories directories).isLink location = false := by
  unfold isLink ofDirectories
  dsimp only
  split
  · rename_i found
    split at found <;> cases found
  · rfl

/-! ### Paths without links -/

def Linkless (path : Location) : Prop :=
  ∀ above, above <+: path → disk.isLink above = false

variable {disk}

variable {path location : Location} {followLast : Bool} {content : Bytes}

theorem Linkless.above {above : Location} (linkless : disk.Linkless path)
    (isPrefix : above <+: path) : disk.Linkless above :=
  fun higher isHigher => linkless higher (isHigher.trans isPrefix)

def IsAt (path : Location) : Walked → Prop
  | .arrived location => location = path
  | .vacant parent name => parent ++ [name] = path
  | .missing | .failed => True

variable {follow : Location → List Bytes → Walked}

theorem walkFrom_linkless {current names : List Bytes}
    (areNames : ∀ name ∈ names, IsName name)
    (linkless : ∀ above, above <+: names → disk.isLink (current ++ above) = false) :
    IsAt (current ++ names) (disk.walkFrom followLast follow current names) := by
  induction names generalizing current with
  | nil => exact (append_nil current).symm
  | cons name names ih =>
    obtain ⟨notEmpty, notDot, notDotDot⟩ := areNames name mem_cons_self
    have notLink := linkless [name] ⟨names, rfl⟩
    have further := @ih (current ++ [name])
      (forall_mem_cons.mp areNames).2
      (by
        intro above isPrefix
        rw [append_assoc]
        exact linkless _ ((prefix_cons_inj name).mpr isPrefix))
    rw [append_assoc, singleton_append] at further
    simp only [walkFrom, notEmpty, notDot, notDotDot, or_self, if_false]
    split
    case h_2 => exact further
    case h_4 target found => simp [isLink, found] at notLink
    all_goals
      split
      · rename_i last
        subst last
        rfl
      · trivial

theorem walk_linkless (areNames : ∀ name ∈ path, IsName name) (linkless : disk.Linkless path)
    (followLast : Bool) (links : Nat) :
    IsAt path (disk.walk followLast links [] path) := by
  cases links with
  | zero => exact walkFrom_linkless areNames linkless
  | succ links => exact walkFrom_linkless areNames linkless

theorem walkFrom_dirs {current names rest : List Bytes}
    (areNames : ∀ name ∈ names, IsName name)
    (dirs : ∀ above, above <+: names → disk.nodes (current ++ above) = some .dir) :
    disk.walkFrom followLast follow current (names ++ rest) =
      disk.walkFrom followLast follow (current ++ names) rest := by
  induction names generalizing current with
  | nil => simp
  | cons name names ih =>
    obtain ⟨notEmpty, notDot, notDotDot⟩ := areNames name mem_cons_self
    have found := dirs [name] ⟨names, rfl⟩
    have further := @ih (current ++ [name])
      (forall_mem_cons.mp areNames).2
      (by
        intro above isPrefix
        rw [append_assoc]
        exact dirs _ ((prefix_cons_inj name).mpr isPrefix))
    rw [append_assoc, singleton_append] at further
    simp only [cons_append, walkFrom, notEmpty, notDot, notDotDot, or_self, if_false, found]
    exact further

theorem dir_above {above : Location} (present : disk.nodes location ≠ none)
    (isPrefix : above <+: location) (proper : above ≠ location) :
    disk.nodes above = some .dir := by
  induction location using List.reverseRecOn with
  | nil => exact absurd (prefix_nil.mp isPrefix) proper
  | append_singleton location name ih =>
    have parentDir := disk.closed location name present
    cases prefix_concat_iff.mp isPrefix with
    | inl same => exact absurd same proper
    | inr inParent =>
      by_cases isParent : above = location
      · rw [isParent]
        exact parentDir
      · exact ih (by rw [parentDir]; simp) inParent isParent

theorem walk_of_present (areNames : ∀ name ∈ path, IsName name) (present : disk.nodes path ≠ none)
    (stays : followLast = false ∨ disk.isLink path = false) (links : Nat) :
    disk.walk followLast (links + 1) [] path = .arrived path := by
  cases eq_nil_or_concat' path with
  | inl isRoot =>
    rw [isRoot]
    rfl
  | inr concat =>
    obtain ⟨above, name, rfl⟩ := concat
    have dirs : ∀ higher, higher <+: above → disk.nodes ([] ++ higher) = some .dir := by
      intro higher isPrefix
      apply dir_above present (isPrefix.trans (prefix_append _ _))
      rintro rfl
      have tooLong := isPrefix.length_le
      simp at tooLong
    obtain ⟨notEmpty, notDot, notUp⟩ := areNames name mem_concat_self
    rw [walk,
      walkFrom_dirs (fun other member => areNames other (mem_append_left _ member)) dirs]
    simp only [walkFrom, nil_append, notEmpty, notDot, notUp, or_self, if_false]
    split
    · contradiction
    · rfl
    · rfl
    · rename_i target found
      rw [if_pos ⟨trivial, stays.resolve_right (by simp [isLink, found])⟩]

theorem lstat_of_present (areNames : ∀ name ∈ path, IsName name) (present : disk.nodes path ≠ none) : disk.lstat path = .arrived path :=
  walk_of_present areNames present (.inl rfl) 39

theorem isLink_of_absent {below : Location} (absent : disk.nodes location = none)
    (isPrefix : location <+: below) : disk.isLink below = false := by
  unfold isLink
  split
  · rename_i target found
    by_cases same : location = below
    · rw [same, found] at absent
      cases absent
    · have isDir := dir_above (by rw [found]; simp) isPrefix same
      rw [absent] at isDir
      cases isDir
  · rfl

/-! ### What operations do -/

/-- After some operations: new writes are at allowed locations that were not
directories, new links are the expected ones, and directories stay. -/
structure Extends (allowed : Location → Prop) (expected : Location → Bytes → Prop)
    (before after : Disk) : Prop where
  written : ∃ new, after.written = before.written ++ new ∧
    ∀ location ∈ new, allowed location ∧ before.nodes location ≠ some .dir
  links : ∀ location target, after.nodes location = some (.symlink target) →
    before.nodes location = some (.symlink target) ∨ expected location target
  dirs : ∀ location, before.nodes location = some .dir → after.nodes location = some .dir

namespace Extends

variable {allowed wider : Location → Prop} {expected more : Location → Bytes → Prop}
  {before middle after : Disk}

theorem refl (disk : Disk) : Extends allowed expected disk disk where
  written := ⟨[], by simp, by simp⟩
  links := fun _ _ found => .inl found
  dirs := fun _ found => found

theorem trans (first : Extends allowed expected before middle)
    (second : Extends allowed expected middle after) : Extends allowed expected before after where
  written := by
    obtain ⟨early, firstWritten, earlyAllowed⟩ := first.written
    obtain ⟨late, secondWritten, lateAllowed⟩ := second.written
    refine ⟨early ++ late, by rw [secondWritten, firstWritten, append_assoc], ?_⟩
    intro location member
    cases mem_append.mp member with
    | inl isEarly => exact earlyAllowed location isEarly
    | inr isLate =>
      obtain ⟨isAllowed, notDir⟩ := lateAllowed location isLate
      exact ⟨isAllowed, fun wasDir => notDir (first.dirs location wasDir)⟩
  links := by
    intro location target found
    cases second.links location target found with
    | inl inMiddle => exact first.links location target inMiddle
    | inr isExpected => exact .inr isExpected
  dirs := fun location wasDir => second.dirs location (first.dirs location wasDir)

theorem mono (extends' : Extends allowed expected before after)
    (isWider : ∀ location, allowed location → wider location)
    (isMore : ∀ location target, expected location target → more location target) :
    Extends wider more before after where
  written := by
    obtain ⟨new, same, newAllowed⟩ := extends'.written
    exact ⟨new, same, fun location member =>
      ⟨isWider location (newAllowed location member).1, (newAllowed location member).2⟩⟩
  links := by
    intro location target found
    cases extends'.links location target found with
    | inl old => exact .inl old
    | inr new => exact .inr (isMore location target new)
  dirs := extends'.dirs

theorem linkless (extends' : Extends allowed (fun _ _ => False) before after) {path : Location}
    (linkless : before.Linkless path) : after.Linkless path := by
  intro above isPrefix
  have notLink := linkless above isPrefix
  unfold isLink at notLink ⊢
  split
  · rename_i target found
    cases extends'.links above target found with
    | inl old => simp [old] at notLink
    | inr impossible => exact impossible.elim
  · rfl

end Extends

theorem extends_createAt (disk : Disk) (kind : FileKind) (parent : Location) (name : Bytes) :
    Extends (fun location => location = parent ++ [name])
      (fun location target => location = parent ++ [name] ∧ kind = .symlink target)
      disk (disk.createAt kind parent name).1 := by
  fun_cases createAt disk kind parent name
  case case1 isDir isFree =>
    constructor
    · refine ⟨[parent ++ [name]], rfl, ?_⟩
      intro location member
      rw [mem_singleton.mp member, isFree]
      simp
    · intro location target found
      by_cases same : location = parent ++ [name]
      · right
        subst same
        simp only [create, update_self, Option.some.injEq] at found
        exact ⟨rfl, found⟩
      · left
        simpa only [create, update_of_ne same] using found
    · intro location isDir
      have different : location ≠ parent ++ [name] := by
        rintro rfl
        rw [isFree] at isDir
        cases isDir
      simpa only [create, update_of_ne different] using isDir
  all_goals exact .refl disk

theorem extends_overwrite (disk : Disk) {old : Bytes} (new : Bytes)
    (isFile : disk.nodes location = some (.file old)) :
    Extends (fun other => other = location) (fun _ _ => False)
      disk (disk.overwrite location old new isFile) where
  written := by
    refine ⟨[location], rfl, ?_⟩
    intro other member
    rw [mem_singleton.mp member, isFile]
    simp
  links := by
    intro other target found
    by_cases same : other = location
    · subst same
      simp [overwrite] at found
    · left
      simpa only [overwrite, update_of_ne same] using found
  dirs := by
    intro other isDir
    have different : other ≠ location := by
      rintro rfl
      rw [isFile] at isDir
      cases isDir
    simpa only [overwrite, update_of_ne different] using isDir

section Paths

variable {path : Location} (areNames : ∀ name ∈ path, IsName name)

include areNames

theorem extends_mkdir (linkless : disk.Linkless path) :
    Extends (fun location => location = path) (fun _ _ => False) disk (disk.mkdir path).1 := by
  have ended := walk_linkless areNames linkless false maxLinks
  fun_cases mkdir disk path
  case case1 parent name isVacant =>
    rw [← lstat, isVacant] at ended
    subst ended
    exact (extends_createAt disk .dir parent name).mono (fun _ same => same) (by simp)
  all_goals exact .refl disk

theorem extends_symlink (linkless : disk.Linkless path) (target : Bytes) :
    Extends (fun location => location = path)
      (fun location text => location = path ∧ text = target)
      disk (disk.symlink target path).1 := by
  have ended := walk_linkless areNames linkless false maxLinks
  fun_cases symlink disk target path
  case case1 parent name isVacant =>
    rw [← lstat, isVacant] at ended
    subst ended
    exact (extends_createAt disk (.symlink target) parent name).mono (fun _ same => same)
      (by simp +contextual)
  all_goals exact .refl disk

theorem extends_writeFile (linkless : disk.Linkless path) (content : Bytes) :
    Extends (fun location => location = path) (fun _ _ => False)
      disk (disk.writeFile content path).1 := by
  have ended := walk_linkless areNames linkless true maxLinks
  fun_cases writeFile disk content path
  case case1 parent name isVacant =>
    rw [← stat, isVacant] at ended
    subst ended
    exact (extends_createAt disk (.file content) parent name).mono (fun _ same => same) (by simp)
  case case2 location arrived old isFile =>
    rw [← stat, arrived] at ended
    subst ended
    exact extends_overwrite disk content isFile
  all_goals exact .refl disk

end Paths

theorem extends_mkdirAllReversed {reversed : Location} (areNames : ∀ name ∈ reversed, IsName name)
    (linkless : disk.Linkless reversed.reverse) :
    Extends (fun location => location <+: reversed.reverse) (fun _ _ => False)
      disk (disk.mkdirAllReversed reversed).1 := by
  induction reversed with
  | nil => exact .refl disk
  | cons name above ih =>
    have isPrefix : above.reverse <+: (name :: above).reverse := ⟨[name], by simp⟩
    have early := (ih (forall_mem_cons.mp areNames).2
      (linkless.above isPrefix)).mono
        (fun _ isAbove => isAbove.trans isPrefix) (fun _ _ impossible => impossible)
    have late := @extends_mkdir _ (name :: above).reverse
      (fun other member => areNames other (mem_reverse.mp member)) (early.linkless linkless)
    have both := early.trans (late.mono
      (fun _ same => same ▸ prefix_refl _) (fun _ _ impossible => impossible))
    unfold mkdirAllReversed
    split
    · exact .refl disk
    all_goals
      dsimp only
      split
      · exact both
      · exact early

theorem extends_mkdirAll (areNames : ∀ name ∈ path, IsName name) (linkless : disk.Linkless path) :
    Extends (fun location => location <+: path) (fun _ _ => False)
      disk (disk.mkdirAll path).1 := by
  have reversed := @extends_mkdirAllReversed disk path.reverse
    (fun name member => areNames name (mem_reverse.mp member))
    (by rwa [reverse_reverse])
  rwa [reverse_reverse] at reversed

/-! ### What stays -/

section

variable (present : disk.nodes location ≠ none)

include present

theorem nodes_createAt_of_present (kind : FileKind)
    (parent : Location) (name : Bytes) :
    (disk.createAt kind parent name).1.nodes location = disk.nodes location := by
  fun_cases createAt disk kind parent name
  case case1 isFree =>
    have other : location ≠ parent ++ [name] := by
      rintro rfl
      exact present isFree
    simp only [create, update_of_ne other]
  all_goals rfl

theorem nodes_mkdir_of_present (path : Location) :
    (disk.mkdir path).1.nodes location = disk.nodes location := by
  fun_cases mkdir disk path
  · exact nodes_createAt_of_present present .dir _ _
  all_goals rfl

end

theorem mkdirAll_rule {motive : Disk → Prop} (start : motive disk)
    (step : ∀ made path, motive made → motive (made.mkdir path).1) (path : Location) :
    motive (disk.mkdirAll path).1 := by
  have kept (reversed : Location) : motive (disk.mkdirAllReversed reversed).1 := by
    fun_induction mkdirAllReversed disk reversed
    all_goals first
      | assumption
      | exact step _ _ (by assumption)
  exact kept path.reverse

theorem nodes_mkdirAll_of_present (present : disk.nodes location ≠ none) (path : Location) :
    (disk.mkdirAll path).1.nodes location = disk.nodes location := by
  refine mkdirAll_rule (motive := fun made => made.nodes location = disk.nodes location) rfl ?_ path
  intro made path same
  rw [nodes_mkdir_of_present (by rw [same]; exact present), same]

theorem nodes_writeFile (areNames : ∀ name ∈ path, IsName name) (linkless : disk.Linkless path)
    (wrote : (disk.writeFile content path).2 = true) (location : Location) :
    (disk.writeFile content path).1.nodes location =
      if location = path then some (.file content) else disk.nodes location := by
  have ended := walk_linkless areNames linkless true maxLinks
  revert wrote
  fun_cases writeFile disk content path
  case case1 parent name isVacant =>
    rw [← stat, isVacant] at ended
    subst ended
    fun_cases createAt disk (.file content) parent name
    · intro _
      simp only [create, update_apply]
    all_goals nofun
  case case2 arrivedAt arrived old isFile =>
    rw [← stat, arrived] at ended
    subst ended
    intro _
    simp only [overwrite, update_apply]
  all_goals nofun

/-! ### Contents -/

def fileAt (disk : Disk) (location : Location) : Option Bytes :=
  match disk.nodes location with
  | some (.file content) => some content
  | _ => none

theorem nodes_of_fileAt (found : disk.fileAt location = some content) :
    disk.nodes location = some (.file content) := by
  unfold fileAt at found
  split at found
  · cases found
    assumption
  · cases found

theorem fileAt_mkdir (disk : Disk) (path : Location) : (disk.mkdir path).1.fileAt = disk.fileAt := by
  fun_cases mkdir disk path
  case case1 parent name _ =>
    fun_cases createAt disk .dir parent name
    case case1 isFree =>
      funext location
      by_cases same : location = parent ++ [name]
      · simp [fileAt, create, same, isFree]
      · simp only [fileAt, create, update_of_ne same]
    all_goals rfl
  all_goals rfl

theorem fileAt_mkdirAll (disk : Disk) (path : Location) :
    (disk.mkdirAll path).1.fileAt = disk.fileAt := by
  refine mkdirAll_rule (motive := fun made => made.fileAt = disk.fileAt) rfl ?_ path
  intro made path same
  rw [fileAt_mkdir, same]

theorem stat_of_file (areNames : ∀ name ∈ path, IsName name)
    (found : disk.nodes path = some (.file content)) : disk.stat path = .arrived path :=
  walk_of_present areNames (by simp [found]) (.inr (by simp [isLink, found])) 39

end Disk

end PosixFiles
