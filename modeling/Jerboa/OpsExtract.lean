import Jerboa.ManifestBuilder
import Jerboa.PosixFiles

/-!
# Extracting a package archive

`OpsStore.Extract` of `internal/package/ops_store.go` on a system with `/` as
separator.  A cleaned absolute path is the list of its components, and the path
of the package directory has no symbolic link in it.  Permission bits and log
lines are left out; reading and writing fail only for the reasons modelled.
-/

namespace Jerboa.Packages

open Utf8Text PosixFiles

/-! ### Paths -/

/-- `filepath.Join` of an absolute path and another. -/
def join (base : Location) (path : Bytes) : Location :=
  ((path.splitOn slash).foldl (Image.cleanStep true) base.reverse).reverse

/-- `filepath.Rel` of two absolute paths, as components. -/
def filepathRel : (base target : Location) → Location
  | first :: base, name :: target =>
    if first = name then filepathRel base target
    else (first :: base).map (fun _ => dotDot) ++ name :: target
  | base, target => base.map (fun _ => dotDot) ++ target

def withinDir (dir path : Location) : Bool :=
  (filepathRel dir path).head? ≠ some dotDot

def safePath (baseDir : Location) (entryName : Bytes) : Bool :=
  let cleanName := Image.pathClean entryName
  if cleanName = dot then false
  else if (dotDot ++ [slash]) <+: cleanName ∨ cleanName = dotDot then false
  else baseDir <+: join baseDir cleanName

def isLocal (path : Bytes) : Bool :=
  if path.head? = some slash ∨ path = [] then false
  else
    let parts := path.splitOn slash
    let path := if dot ∈ parts ∨ dotDot ∈ parts then Image.pathClean path else path
    !(path = dotDot ∨ (dotDot ++ [slash]) <+: path)

/-- The loop of `traversesSymlink` over the components of a path. -/
def traversesFrom (disk : Disk) : (cur : Location) → (parts : List Bytes) → Bool
  | _, [] => false
  | cur, part :: parts =>
    if part = [] ∨ part = dot then traversesFrom disk cur parts
    else
      let cur := if part = dotDot then cur.dropLast else cur ++ [part]
      match disk.lstat cur with
      | .vacant _ _ | .missing => false
      | .failed => true
      | .arrived location =>
        if disk.isLink location then true else traversesFrom disk cur parts

def traversesSymlink (disk : Disk) (dir path : Location) : Bool :=
  traversesFrom disk dir (filepathRel dir path)

def resolveLinkname (dir target : Location) (linkname : Bytes) : Option Location :=
  if linkname = [] ∨ linkname.head? = some slash then none
  else
    let src := join target.dropLast linkname
    if withinDir dir src then some src else none

/-- `filepath.EvalSymlinks`, which gives up after 255 links. -/
def evalSymlinks (disk : Disk) (path : Location) : Walked :=
  disk.walk true 255 [] path

/-- The loop of `evalSymlinksLenient`, for a path given from its end and the
components already taken off. -/
def evalReversed (disk : Disk) : (cur remainder : Location) → Option Location
  | cur, remainder =>
    match evalSymlinks disk cur.reverse with
    | .arrived resolved => some (resolved ++ remainder)
    | .failed => none
    | .vacant _ _ | .missing =>
      match cur with
      | [] => none
      | base :: parent => evalReversed disk parent (base :: remainder)

def evalSymlinksLenient (disk : Disk) (path : Location) : Option Location :=
  evalReversed disk path.reverse []

def resolvesWithinDir (disk : Disk) (dir path : Location) : Bool :=
  let realDir :=
    match evalSymlinks disk dir with
    | .arrived location => location
    | .vacant _ _ | .missing | .failed => dir
  match evalSymlinksLenient disk path with
  | none => false
  | some resolved => withinDir realDir resolved

/-! ### Archives -/

inductive Typeflag
  | dir
  | reg
  | link
  | symlink
  | other
deriving DecidableEq, Repr

structure TarEntry where
  name : Bytes
  typeflag : Typeflag
  linkname : Bytes
  content : Bytes
deriving DecidableEq, Repr

/-- The archive of a package: whether it can be opened, its entries, and
whether it ends after them without an error. -/
structure Archive where
  opens : Bool
  entries : List TarEntry
  endsWell : Bool

/-- `pendingLink` (its `linkname` is only logged). -/
structure PendingLink where
  path : Location
  resolved : Location
deriving DecidableEq, Repr

structure Extraction where
  disk : Disk
  stripPrefix : Bytes
  pendingLinks : List PendingLink
  budget : Int

/-- What stays the same during an extraction: `runtime.GOOS == "linux"` and the
package directory. -/
structure Extractor where
  linux : Bool
  dir : Location

namespace Extractor

variable (extractor : Extractor)

def extractDir (state : Extraction) (target : Location) : Extraction × Bool :=
  let made := state.disk.mkdirAll target
  ({ state with disk := made.1 }, made.2)

/-- The entry for a regular file; at most one byte more than the budget is
written. -/
def extractReg (state : Extraction) (target : Location) (content : Bytes) : Extraction × Bool :=
  let made := state.disk.mkdirAll target.dropLast
  if made.2 = false then ({ state with disk := made.1 }, false)
  else
    let copied := content.take (state.budget + 1).toNat
    let out := made.1.writeFile copied target
    if out.2 = false then ({ state with disk := out.1 }, false)
    else
      let budget := state.budget - copied.length
      ({ state with disk := out.1, budget := budget }, decide (0 ≤ budget))

def extractSymlink (state : Extraction) (target : Location) (linkname : Bytes) : Extraction :=
  if resolvesWithinDir state.disk extractor.dir target = false then state
  else
    match resolveLinkname extractor.dir target linkname with
    | none => state
    | some linkTarget =>
      if resolvesWithinDir state.disk extractor.dir linkTarget = false then state
      else if extractor.linux then
        { state with disk := (state.disk.symlink linkname target).1 }
      else
        { state with pendingLinks := state.pendingLinks ++ [⟨target, linkTarget⟩] }

/-- The entry name after the leading directory of the archive is stripped, and
that directory from then on. -/
def strip (stripPrefix : Bytes) (entry : TarEntry) : Bytes × Bytes :=
  let stripPrefix :=
    if stripPrefix = [] ∧ entry.typeflag = .dir ∧ slash ∈ entry.name then entry.name
    else stripPrefix
  if stripPrefix <+: entry.name then (stripPrefix, entry.name.drop stripPrefix.length)
  else (stripPrefix, entry.name)

/-- One turn of the loop in `Extract`; the flag says whether it goes on. -/
def extractEntry (state : Extraction) (entry : TarEntry) : Extraction × Bool :=
  if utf8 "._" <+: Image.filepathBase entry.name then (state, true)
  else
    let stripped := strip state.stripPrefix entry
    let state := { state with stripPrefix := stripped.1 }
    let entryName := stripped.2
    let target := join extractor.dir entryName
    if entryName = [] ∨ entryName = [slash] ∨ Image.pathClean entryName = dot then (state, true)
    else if safePath extractor.dir entryName = false then (state, true)
    else if isLocal entryName = false then (state, true)
    else if ¬(extractor.dir <+: target ∧ target ≠ extractor.dir) then (state, true)
    else if traversesSymlink state.disk extractor.dir target then (state, true)
    else
      match entry.typeflag with
      | .dir => extractDir state target
      | .reg => extractReg state target entry.content
      | .symlink => (extractor.extractSymlink state target entry.linkname, true)
      | .link | .other => (state, true)

def extractEntries : Extraction → List TarEntry → Extraction × Bool
  | state, [] => (state, true)
  | state, entry :: entries =>
    let next := extractor.extractEntry state entry
    if next.2 then extractEntries next.1 entries else next

/-- `copyFileContents`; a failure is only logged by its caller. -/
def copyFileContents (disk : Disk) (content : Bytes) (dst : Location) : Disk :=
  let made := disk.mkdirAll dst.dropLast
  if made.2 then (made.1.writeFile content dst).1 else made.1

/-- One pass of `materializeLinks`: the tree after it and the links that are
left. -/
def materializePass : Disk → List PendingLink → Disk × List PendingLink
  | disk, [] => (disk, [])
  | disk, link :: links =>
    match disk.stat link.resolved with
    | .arrived location =>
      match disk.nodes location with
      | some (.file content) => materializePass (copyFileContents disk content link.path) links
      | _ =>
        let rest := materializePass disk links
        (rest.1, link :: rest.2)
    | .vacant _ _ | .missing | .failed =>
      let rest := materializePass disk links
      (rest.1, link :: rest.2)

/-- `materializeLinks`; every pass but the last leaves fewer links, so there are
no more passes than links. -/
def materializeLinks : (passes : Nat) → Disk → List PendingLink → Disk
  | 0, disk, _ => disk
  | passes + 1, disk, links =>
    let pass := materializePass disk links
    if pass.2.length = links.length then pass.1
    else materializeLinks passes pass.1 pass.2

/-- The files that `discardExtracted` keeps. -/
def keptName (disk : Disk) (dir : Location) (name : Bytes) : Bool :=
  disk.nodes (dir ++ [name]) ≠ some .dir ∧
    (utf8 ".tar.gz" <:+ name ∨ name = utf8 "manifest.json")

def discardExtracted (disk : Disk) (dir : Location) : Disk :=
  disk.clear dir (keptName disk dir)

def maxExtractedBytes : Int := 4 * 2 ^ 30

/-- `Extract` for a valid reference: the tree after it and whether it returned
`nil`.  `extracted` is what `IsExtracted` says. -/
def extract (extracted : Bool) (disk : Disk) (archive : Archive) : Disk × Bool :=
  if extracted then (disk, true)
  else if archive.opens = false then (discardExtracted disk extractor.dir, false)
  else
    let done := extractor.extractEntries ⟨disk, [], [], maxExtractedBytes⟩ archive.entries
    if done.2 ∧ archive.endsWell then
      let links := done.1.pendingLinks
      (materializeLinks links.length done.1.disk links, true)
    else (discardExtracted done.1.disk extractor.dir, false)

end Extractor

end Jerboa.Packages
