import Jerboa.FileTree

/-!
# The calls that change a filesystem tree

`filesystem_mkdir`, `filesystem_get_node`, `filesystem_symlink`,
`filesystem_link`, `filesystem_delete`, `filesystem_rename` and
`filesystem_exchange` of `fs/fs.c` on one filesystem of `fs/tfs.c`.  A call
resolves its paths and takes the names of entries from their text, writes
records to the log, and then changes the tuples.

Around a log write of a renamed directory the kernel takes the `..` out of all
tuples below it and sets them to the parents again, which leaves the tree as it
was when every `..` is the parent; this is left out, and so are the times, the
notifications and the contents of files.
-/

namespace Jerboa.Kernel

open Utf8Text

/-! ### The name in the text of a path -/

/-- `utf8_find_r`: the place of the last `c`.  `skip` bytes belong to the
character that was read last. -/
def utf8FindR (c : Nat) : (x : Bytes) → (skip offset : Nat) → (found : Option Nat) → Option Nat
  | [], _, _, found => found
  | _ :: x, skip + 1, offset, found => utf8FindR c x skip (offset + 1) found
  | byte :: x, 0, offset, found =>
    match popCharacter (byte :: x) with
    | none => found
    | some (decoded, nbytes) =>
      utf8FindR c x (nbytes - 1) (offset + 1) (if decoded = c then some offset else found)

def pathFindLastDelim (path : Bytes) : Option Nat :=
  utf8FindR slash.toNat path 0 0 none

def filenameFromPath (path : Bytes) : Bytes :=
  match pathFindLastDelim path with
  | none => path
  | some filename => path.drop (filename + 1)

/-- `dirname_from_path`, into a buffer of `NAME_MAX + 1` bytes. -/
def dirnameFromPath (path : Bytes) : Option Bytes :=
  let dirname :=
    match pathFindLastDelim path with
    | none => path
    | some lastDelim =>
      if lastDelim < path.length - 1 then path.drop (lastDelim + 1)
      else
        -- the path ends with a slash
        match pathFindLastDelim path.dropLast with
        | none => path.dropLast
        | some delim => (path.take lastDelim).drop (delim + 1)
  if nameMax + 1 ≤ dirname.length then none else some dirname

/-! ### Changes of tuples -/

def u64Max : Nat := 0xffffffffffffffff

namespace FileTree

variable (tree : FileTree)

def update (t : Nat) (change : FileNode → FileNode) : FileTree :=
  { tree with nodes := Function.update tree.nodes t (change (tree.nodes t)) }

def setEntry (t : Nat) (name : Bytes) (child : Option Nat) : FileTree :=
  tree.update t fun node =>
    { node with
      children := node.children.map fun children =>
        match child with
        | none => children.erase name
        | some child => children.insert name child }

def setParent (t : Nat) (parent : Option Nat) : FileTree :=
  tree.update t fun node => { node with parent := parent }

def fsdirSetParent (t parent : Nat) : FileTree :=
  if tree.isDir t then tree.setParent t (some parent) else tree

def setNlink (t count : Nat) : FileTree :=
  tree.update t fun node => { node with nlink := some count }

def setFile (t : Nat) (present : Bool) : FileTree :=
  { tree with files := Function.update tree.files t present }

def newEntry (node : FileNode) : FileTree :=
  { tree with
    nodes := Function.update tree.nodes tree.next node
    next := tree.next + 1 }

def linkCount (t : Nat) : Nat :=
  (tree.nodes t).nlink.getD 1

/-- `--link_count` of `fs_unlink`. -/
def linksLeft (t : Nat) : Nat :=
  if tree.linkCount t = 0 then u64Max else tree.linkCount t - 1

/-- `fs_unlink`; it returns the links that are left. -/
def fsUnlink (t : Nat) : FileTree :=
  if tree.linksLeft t = 0 then tree.setFile t false else tree.setNlink t (tree.linksLeft t)

def isEmpty (t : Nat) : Bool :=
  (tree.nodes t).children.any fun children => children.entries.isEmpty

/-- The loop of `file_tuple_is_ancestor`.  A climb of more steps than there are
tuples does not end, and one that comes to a tuple without `..` faults. -/
def climb (t : Nat) : (steps : Nat) → (p : Nat) → Option Bool
  | 0, _ => none
  | steps + 1, p =>
    if p = t then some true
    else
      match (tree.nodes p).parent with
      | none => none
      | some up => if up = p then some false else climb t steps up

def fileTupleIsAncestor (t p : Nat) : Option Bool :=
  tree.climb t (tree.next + 1) p

end FileTree

/-! ### The log -/

structure LogImage where
  entries : Nat → Bytes → Option Nat
  counts : Nat → Nat

inductive LogRecord
  | entry (t : Nat) (name : Bytes) (child : Option Nat)
  | nlink (t count : Nat)
deriving DecidableEq, Repr

def LogImage.replay (image : LogImage) : LogRecord → LogImage
  | .entry t name child =>
    { image with
      entries := Function.update image.entries t (Function.update (image.entries t) name child) }
  | .nlink t count => { image with counts := Function.update image.counts t count }

def FileTree.image (tree : FileTree) : LogImage :=
  ⟨tree.entry, tree.linkCount⟩

/-- How a write to the log goes: whether the log accepts it, whether it starts a
rebuild of the log, and whether the new log accepts it too if there is one. -/
structure LogAnswer where
  accepted : Bool
  rebuild : Bool
  tempAccepted : Bool
deriving DecidableEq, Repr

/-- A filesystem: the tuples in memory, what is in the log, and what is in the
new log during a rebuild. -/
structure Tfs where
  tree : FileTree
  ro : Bool
  log : LogImage
  tempLog : Option LogImage

abbrev Status := Except Errno Unit

namespace Tfs

def tempAfter (fs : Tfs) (answer : LogAnswer) : Option LogImage :=
  match fs.tempLog with
  | some image => some image
  | none => if answer.rebuild then some fs.tree.image else none

def writeEav (fs : Tfs) (answer : LogAnswer) (record : LogRecord) : Tfs × Bool :=
  if answer.accepted then
    let log := fs.log.replay record
    match fs.tempAfter answer with
    | none => ({ fs with log := log }, true)
    | some image =>
      if answer.tempAccepted then
        ({ fs with log := log, tempLog := some (image.replay record) }, true)
      else ({ fs with log := log, tempLog := some image }, false)
  else (fs, false)

def writeBoth (fs : Tfs) (answers : Nat → LogAnswer) (first second : LogRecord) : Tfs × Bool :=
  let written := fs.writeEav (answers 0) first
  if written.2 then written.1.writeEav (answers 1) second else written

def setTree (fs : Tfs) (tree : FileTree) : Tfs :=
  { fs with tree := tree }

/-- `fs_create_dir_entry` for a new tuple, with `tfs_create`.  It faults when
the parent is not a directory. -/
def createDirEntry (fs : Tfs) (answers : Nat → LogAnswer) (parent : Nat) (name : Bytes)
    (node : FileNode) : Option (Tfs × Status) :=
  if fs.ro then some (fs, .error .erofs)
  else if fs.tree.isDir parent = false then none
  else
    let md := fs.tree.next
    let written := fs.writeEav (answers 0) (.entry parent name (some md))
    if written.2 then
      let tree := ((fs.tree.newEntry node).setFile md true).setEntry parent name (some md)
      some (written.1.setTree (tree.fsdirSetParent md parent), .ok ())
    else some (written.1, .error .enospc)

/-- `fs_create_dir_entry` for a tuple that gets a further link, with `tfs_link`. -/
def linkDirEntry (fs : Tfs) (answers : Nat → LogAnswer) (parent : Nat) (name : Bytes)
    (md : Nat) : Option (Tfs × Status) :=
  if fs.ro then some (fs, .error .erofs)
  else if fs.tree.isDir parent = false then none
  else
    let written := fs.writeBoth answers (.entry parent name (some md))
      (.nlink md (fs.tree.linkCount md))
    if written.2 then
      let tree := fs.tree.setEntry parent name (some md)
      some (written.1.setTree (tree.fsdirSetParent md parent), .ok ())
    else some (written.1, .error .enospc)

/-- `tfs_file_unlink`; whether the count is written is not looked at. -/
def fileUnlink (fs : Tfs) (answer : LogAnswer) (t : Nat) : Tfs :=
  let linkCount := fs.tree.linksLeft t
  let fs := fs.setTree (fs.tree.fsUnlink t)
  if 0 < linkCount then (fs.writeEav answer (.nlink t linkCount)).1 else fs

end Tfs

/-! ### What the calls find -/

/-- What a call does after it has looked at its arguments: it faults, it
returns, or it goes on. -/
inductive Prepared (Args : Type)
  | fault
  | done (status : Status)
  | go (args : Args)

namespace Prepared

instance : Monad Prepared where
  pure := .go
  bind prepared next :=
    match prepared with
    | .fault => .fault
    | .done status => .done status
    | .go args => next args

def require (condition : Bool) (err : Errno) : Prepared Unit :=
  if condition then .go () else .done (.error err)

theorem bind_eq_go {First Second : Type} {prepared : Prepared First}
    {next : First → Prepared Second} {args : Second} :
    prepared >>= next = .go args ↔ ∃ first, prepared = .go first ∧ next first = .go args := by
  cases prepared with
  | fault => exact ⟨nofun, nofun⟩
  | done status => exact ⟨nofun, nofun⟩
  | go first =>
    constructor
    · intro ran
      exact ⟨first, rfl, ran⟩
    · rintro ⟨other, same, ran⟩
      cases same
      exact ran

theorem require_eq_go {condition : Bool} {err : Errno} {next : Unit} :
    require condition err = .go next ↔ condition = true := by
  cases condition with
  | true => exact ⟨fun _ => rfl, fun _ => rfl⟩
  | false => exact ⟨nofun, nofun⟩

end Prepared

structure PathTarget where
  entry : Option Nat
  parent : Nat
deriving DecidableEq, Repr

/-- The parent can be null. -/
structure Existing where
  entry : Nat
  parent : Option Nat
deriving DecidableEq, Repr

namespace Resolution

def existing : Resolution → Prepared Existing
  | .overflow => .fault
  | .failed err _ => .done (.error err)
  | .reached entry => .go ⟨entry, none⟩
  | .found entry parent => .go ⟨entry, some parent⟩

def target : Resolution → Prepared PathTarget
  | .overflow => .fault
  | .reached _ => .done (.error .enoent)
  | .found entry parent => .go ⟨some entry, parent⟩
  | .failed .enoent (some parent) => .go ⟨none, parent⟩
  | .failed err _ => .done (.error err)

/-- The last name of the path must be missing; otherwise the call returns
`found`. -/
def missing (found : Status) : Resolution → Prepared Nat
  | .overflow => .fault
  | .reached _ => .done found
  | .found _ _ => .done found
  | .failed .enoent (some parent) => .go parent
  | .failed err _ => .done (.error err)

end Resolution

structure EntryArgs where
  parent : Nat
  name : Bytes
deriving DecidableEq, Repr

structure LinkArgs where
  newparent : Nat
  newname : Bytes
  old : Nat
  linkCount : Nat
deriving DecidableEq, Repr

structure DeleteArgs where
  parent : Nat
  name : Bytes
  t : Nat
deriving DecidableEq, Repr

structure RenameArgs where
  oldparent : Nat
  oldname : Bytes
  old : Nat
  newparent : Nat
  newname : Bytes
  new : Option Nat
deriving DecidableEq, Repr

structure ExchangeArgs where
  parent1 : Nat
  name1 : Bytes
  n1 : Nat
  parent2 : Nat
  name2 : Bytes
  n2 : Nat
deriving DecidableEq, Repr

def pathMax : Nat := 4096

namespace Tfs

variable (depth : Nat) (fs : Tfs)

def getMeta (n : Nat) : Prepared Unit :=
  Prepared.require (fs.tree.files n) .enoent

/-- A null parent has no inode that is found again. -/
def getParent : Option Nat → Prepared Nat
  | none => .done (.error .enoent)
  | some parent => do
    fs.getMeta parent
    return parent

def resolvePath (follow : Bool) (cwd : Nat) (path : Bytes) : Resolution :=
  if follow then fs.tree.resolveFollow depth cwd path else fs.tree.resolve depth cwd path

def prepareMkdir (cwd : Nat) (path : Bytes) : Prepared EntryArgs := do
  fs.getMeta cwd
  let parent ← (fs.tree.resolve depth cwd path).missing (.error .eexist)
  match dirnameFromPath path with
  | none => .done (.error .enametoolong)
  | some name => .go ⟨parent, name⟩

def prepareCreate (cwd : Nat) (path : Bytes) (follow excl : Bool) : Prepared EntryArgs := do
  fs.getMeta cwd
  let parent ← (fs.resolvePath depth follow cwd path).missing
    (if excl then .error .eexist else .ok ())
  return ⟨parent, filenameFromPath path⟩

def prepareSymlink (cwd : Nat) (path target : Bytes) : Prepared EntryArgs := do
  Prepared.require (target.length < pathMax) .enametoolong
  fs.getMeta cwd
  let parent ← (fs.tree.resolve depth cwd path).missing (.error .eexist)
  return ⟨parent, filenameFromPath path⟩

def prepareLink (oldwd : Nat) (oldpath : Bytes) (newwd : Nat) (newpath : Bytes)
    (follow : Bool) : Prepared LinkArgs := do
  Prepared.require (oldpath ≠ [] ∧ newpath ≠ []) .enoent
  fs.getMeta oldwd
  let old ← (fs.resolvePath depth follow oldwd oldpath).existing
  Prepared.require (!fs.tree.isDir old.entry) .eperm
  fs.getMeta newwd
  let newparent ← (fs.tree.resolve depth newwd newpath).missing (.error .eexist)
  Prepared.require (!fs.ro) .erofs
  fs.getMeta old.entry
  let _ ← fs.getParent old.parent
  Prepared.require ((fs.tree.nodes old.entry).nlink ≠ some u64Max) .emlink
  return ⟨newparent, filenameFromPath newpath, old.entry, fs.tree.linkCount old.entry⟩

def prepareDelete (cwd : Nat) (path : Bytes) (directory : Bool) : Prepared DeleteArgs := do
  fs.getMeta cwd
  let found ← (fs.tree.resolve depth cwd path).existing
  if directory then
    Prepared.require (fs.tree.isDir found.entry) .enotdir
    Prepared.require (fs.tree.isEmpty found.entry) .enotempty
  else
    Prepared.require (!fs.tree.isDir found.entry) .eisdir
  Prepared.require (!fs.ro) .erofs
  match found.parent with
  | none => .fault
  | some parent => return ⟨parent, filenameFromPath path, found.entry⟩

/-- The checks of `filesystem_rename` and `filesystem_exchange` once both paths
are resolved. -/
def checkOld (old : Existing) : Prepared Nat := do
  Prepared.require (!fs.ro) .erofs
  fs.getMeta old.entry
  fs.getParent old.parent

def prepareRename (oldwd : Nat) (oldpath : Bytes) (newwd : Nat) (newpath : Bytes)
    (noreplace : Bool) : Prepared RenameArgs := do
  Prepared.require (oldpath ≠ [] ∧ newpath ≠ []) .enoent
  fs.getMeta oldwd
  let old ← (fs.tree.resolve depth oldwd oldpath).existing
  fs.getMeta newwd
  let new ← (fs.tree.resolve depth newwd newpath).target
  let oldparent ← fs.checkOld old
  Prepared.require (!(new.entry.isSome && noreplace)) .eexist
  if new.parent = oldparent ∧ new.entry = some old.entry then .done (.ok ())
  else return ⟨oldparent, filenameFromPath oldpath, old.entry, new.parent,
    filenameFromPath newpath, new.entry⟩

def prepareExchange (wd1 : Nat) (path1 : Bytes) (wd2 : Nat) (path2 : Bytes) :
    Prepared ExchangeArgs := do
  fs.getMeta wd1
  let n1 ← (fs.tree.resolve depth wd1 path1).existing
  fs.getMeta wd2
  let n2 ← (fs.tree.resolve depth wd2 path2).existing
  let parent1 ← fs.checkOld n1
  match n2.parent with
  | none => .fault
  | some parent2 =>
    if parent1 = parent2 ∧ n1.entry = n2.entry then .done (.ok ())
    else return ⟨parent1, filenameFromPath path1, n1.entry, parent2, filenameFromPath path2,
      n2.entry⟩

/-- The use of `file_tuple_is_ancestor` in `fs_check_rename`. -/
def checkAncestor (t p : Nat) : Prepared Unit :=
  match fs.tree.fileTupleIsAncestor t p with
  | none => .fault
  | some isAncestor => Prepared.require (!isAncestor) .einval

def fsCheckRename (args : RenameArgs) : Prepared Unit := do
  match args.new with
  | none => pure ()
  | some new =>
    if fs.tree.isDir new then
      Prepared.require (fs.tree.isDir args.old) .eisdir
      Prepared.require (fs.tree.isEmpty new) .enotempty
    else
      Prepared.require (!fs.tree.isDir args.old) .enotdir
  fs.checkAncestor args.old args.newparent

/-- `fs_check_rename` with `exchange`. -/
def fsCheckExchange (args : ExchangeArgs) : Prepared Unit := do
  fs.checkAncestor args.n1 args.parent2
  fs.checkAncestor args.n2 args.parent1

/-! ### What the calls do -/

def proceed {Args : Type} (prepared : Prepared Args)
    (commit : Args → Option (Tfs × Status)) : Option (Tfs × Status) :=
  match prepared with
  | .fault => none
  | .done status => some (fs, status)
  | .go args => commit args

/-- The changes of `filesystem_link`; a link that is not made takes the count
back. -/
def commitLink (answers : Nat → LogAnswer) (args : LinkArgs) : Option (Tfs × Status) :=
  let counted := fs.setTree (fs.tree.setNlink args.old (args.linkCount + 1))
  match counted.linkDirEntry answers args.newparent args.newname args.old with
  | none => none
  | some (fs, .ok ()) => some (fs, .ok ())
  | some (fs, .error err) =>
    some (fs.setTree (fs.tree.setNlink args.old args.linkCount), .error err)

def commitDelete (answers : Nat → LogAnswer) (args : DeleteArgs) : Option (Tfs × Status) :=
  if fs.tree.isDir args.parent = false then none
  else
    let written := fs.writeEav (answers 0) (.entry args.parent args.name none)
    if written.2 then
      let fs := written.1.fileUnlink (answers 1) args.t
      some (fs.setTree ((fs.tree.setEntry args.parent args.name none).setParent args.t none),
        .ok ())
    else some (written.1, .error .enospc)

def commitRename (answers : Nat → LogAnswer) (args : RenameArgs) : Option (Tfs × Status) :=
  fs.proceed (fs.fsCheckRename args) fun _ =>
    if fs.tree.isDir args.oldparent = false ∨ fs.tree.isDir args.newparent = false then none
    else
      let written := fs.writeBoth answers (.entry args.newparent args.newname (some args.old))
        (.entry args.oldparent args.oldname none)
      if written.2 then
        let fs := match args.new with
          | none => written.1
          | some new => written.1.fileUnlink (answers 2) new
        let tree := ((fs.tree.setEntry args.oldparent args.oldname none).setEntry args.newparent
          args.newname (some args.old)).fsdirSetParent args.old args.newparent
        let tree := match args.new with
          | none => tree
          | some new => tree.setParent new none
        some (fs.setTree tree, .ok ())
      else some (written.1, .error .enospc)

def commitExchange (answers : Nat → LogAnswer) (args : ExchangeArgs) : Option (Tfs × Status) :=
  fs.proceed (fs.fsCheckExchange args) fun _ =>
    if fs.tree.isDir args.parent1 = false ∨ fs.tree.isDir args.parent2 = false then none
    else
      let written := fs.writeBoth answers (.entry args.parent2 args.name2 (some args.n1))
        (.entry args.parent1 args.name1 (some args.n2))
      if written.2 then
        let tree := (fs.tree.setEntry args.parent1 args.name1 (some args.n2)).fsdirSetParent args.n2
          args.parent1
        let tree := (tree.setEntry args.parent2 args.name2 (some args.n1)).fsdirSetParent args.n1
          args.parent2
        some (written.1.setTree tree, .ok ())
      else some (written.1, .error .enospc)

def newDir : FileNode :=
  { FileNode.empty with children := some ∅ }

end Tfs

inductive FsCall
  | mkdir (cwd : Nat) (path : Bytes)
  | create (cwd : Nat) (path : Bytes) (follow excl : Bool)
  | symlink (cwd : Nat) (path target : Bytes)
  | link (oldwd : Nat) (oldpath : Bytes) (newwd : Nat) (newpath : Bytes) (follow : Bool)
  | delete (cwd : Nat) (path : Bytes) (directory : Bool)
  | rename (oldwd : Nat) (oldpath : Bytes) (newwd : Nat) (newpath : Bytes) (noreplace : Bool)
  | exchange (wd1 : Nat) (path1 : Bytes) (wd2 : Nat) (path2 : Bytes)
deriving DecidableEq, Repr

/-- A call, with the answers of the log to its writes: the filesystem after it
and what it returns.  `none` stands for a fault of the kernel. -/
def Tfs.call (depth : Nat) (fs : Tfs) (answers : Nat → LogAnswer) :
    FsCall → Option (Tfs × Status)
  | .mkdir cwd path =>
    fs.proceed (fs.prepareMkdir depth cwd path) fun args =>
      fs.createDirEntry answers args.parent args.name Tfs.newDir
  | .create cwd path follow excl =>
    fs.proceed (fs.prepareCreate depth cwd path follow excl) fun args =>
      fs.createDirEntry answers args.parent args.name FileNode.empty
  | .symlink cwd path target =>
    fs.proceed (fs.prepareSymlink depth cwd path target) fun args =>
      fs.createDirEntry answers args.parent args.name
        { FileNode.empty with linktarget := some target }
  | .link oldwd oldpath newwd newpath follow =>
    fs.proceed (fs.prepareLink depth oldwd oldpath newwd newpath follow) (fs.commitLink answers)
  | .delete cwd path directory =>
    fs.proceed (fs.prepareDelete depth cwd path directory) (fs.commitDelete answers)
  | .rename oldwd oldpath newwd newpath noreplace =>
    fs.proceed (fs.prepareRename depth oldwd oldpath newwd newpath noreplace)
      (fs.commitRename answers)
  | .exchange wd1 path1 wd2 path2 =>
    fs.proceed (fs.prepareExchange depth wd1 path1 wd2 path2) (fs.commitExchange answers)

end Jerboa.Kernel
