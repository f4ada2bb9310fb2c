import Jerboa.ValueMap
import Jerboa.TransitionSystem

/-!
# The image store

`image.Store` keeps a disk image and its manifest in a directory named by the
hash of the disk, and a file of references from `name:tag` to hashes.
-/

namespace Jerboa.Image

/-! ### Manifests -/

/-- A point in time and the offset of its zone, in seconds. -/
structure Timestamp where
  unixNano : Int
  offset : Int
deriving DecidableEq

structure Config where
  memory : String
  cpus : Int
  env : List String
  ports : List String
deriving DecidableEq

structure Manifest where
  schemaVersion : Int
  name : String
  tag : String
  created : Timestamp
  config : Config
  diskDigest : String
  diskSize : Int
deriving DecidableEq

def schemaVersion : Int := 1

/-- What a time reads back as from its RFC 3339 text, which gives the offset in
minutes; `none` if the year does not have four digits or the offset is a day or
more, which `MarshalJSON` refuses. -/
def Timestamp.written (t : Timestamp) : Option Timestamp :=
  let seconds := t.unixNano / 1000000000 + t.offset
  let offset := t.offset.tdiv 60 * 60
  if -62167219200 ≤ seconds ∧ seconds ≤ 253402300799 ∧ offset.natAbs < 86400 then
    some { unixNano := t.unixNano + (t.offset - offset) * 1000000000, offset := offset }
  else none

/-- `Marshal`: the manifest that the JSON text stands for. -/
def marshal (m : Manifest) : Option Manifest :=
  m.created.written.map fun created => { m with created := created }

inductive ManifestError
  | unsupportedSchemaVersion (version : Int)
  | nameRequired
  | tagRequired
  | diskDigestRequired
  | diskDigestNotSha256
  | diskSizeNotPositive
deriving DecidableEq

def digestLabel : String := "sha256:"

def validate (m : Manifest) : Except ManifestError Unit :=
  if m.schemaVersion ≠ schemaVersion then .error (.unsupportedSchemaVersion m.schemaVersion)
  else if m.name = "" then .error .nameRequired
  else if m.tag = "" then .error .tagRequired
  else if m.diskDigest = "" then .error .diskDigestRequired
  else if m.diskDigest.utf8ByteSize < 8 ∨ ¬ digestLabel.toList <+: m.diskDigest.toList then
    .error .diskDigestNotSha256
  else if m.diskSize ≤ 0 then .error .diskSizeNotPositive
  else .ok ()

def IsDigest (text : String) : Prop :=
  text.toList.length = 64 ∧ ∀ c ∈ text.toList, c ∈ "0123456789abcdef".toList

/-- The hash function of the store, in hexadecimal. -/
structure Hash where
  hex : List UInt8 → String
  isDigest : ∀ data, IsDigest (hex data)

def Hash.fileSHA256 (hash : Hash) (data : List UInt8) : String :=
  digestLabel ++ hash.hex data

def trimDigestLabel (text : String) : String :=
  if digestLabel.toList <+: text.toList then
    String.ofList (text.toList.drop digestLabel.toList.length)
  else text

def stripPrefix (digest : String) : String :=
  trimDigestLabel digest

/-! ### The store -/

structure ImageDir where
  disk : Option (List UInt8)
  manifest : Option Manifest
deriving DecidableEq

/-- The references in `refs.json` and the image directories. -/
structure Store where
  refs : ValueMap String String
  dirs : ValueMap String ImageDir

def Store.empty : Store where
  refs := ∅
  dirs := ∅

/-- `os.MkdirAll` of an image directory: its files if it exists. -/
def Store.mkdir (s : Store) (sha : String) : ImageDir :=
  (s.dirs.lookup sha).getD ⟨none, none⟩

inductive PutError
  | marshal
deriving DecidableEq

/-- `put`, with the contents of the file at `diskPath`.  Renaming the file into
the store or copying it leaves the same store. -/
def Store.put (hash : Hash) (s : Store) (name tag : String) (m : Manifest) (disk : List UInt8) :
    Except PutError Manifest × Store :=
  let digest := hash.fileSHA256 disk
  let m := { m with diskDigest := digest }
  let sha := stripPrefix digest
  let dir := { s.mkdir sha with disk := some disk }
  match marshal m with
  | none => (.error .marshal, { s with dirs := s.dirs.insert sha dir })
  | some data =>
    (.ok m, { refs := s.refs.insert (name ++ ":" ++ tag) sha
              dirs := s.dirs.insert sha { dir with manifest := some data } })

/-! ### Looking up -/

/-- The loop of `findBySHA` over the digests, in the order the map gives. -/
def findBySHALoop (needle : String) : String → List String → Option String
  | found, [] => if found ≠ "" then some found else none
  | found, sha :: rest =>
    if sha = needle ∨ needle.toList <+: sha.toList then
      if found ≠ "" ∧ found ≠ sha then none else findBySHALoop needle sha rest
    else findBySHALoop needle found rest

def findBySHA (refs : ValueMap String String) (ref : String) : Option String :=
  findBySHALoop (trimDigestLabel ref) "" (ValueMap.values refs)

def latest (ref : String) : String :=
  ref ++ ":latest"

inductive GetError
  | notFound (ref : String)
  | readManifest (sha : String)
  | parseManifest (sha : String) (error : ManifestError)
  | integrityMismatch (ref : String)
  | readDisk (sha : String)
deriving DecidableEq

def Store.resolveRef (s : Store) (ref : String) : Except GetError String :=
  match s.refs.lookup ref with
  | some sha => .ok sha
  | none =>
    let bare := if ':' ∈ ref.toList then none else s.refs.lookup (latest ref)
    match bare with
    | some sha => .ok sha
    | none =>
      match findBySHA s.refs ref with
      | some sha => .ok sha
      | none => .error (.notFound ref)

def Store.readManifest (s : Store) (sha : String) : Except GetError Manifest :=
  match (s.dirs.lookup sha).bind ImageDir.manifest with
  | none => .error (.readManifest sha)
  | some data =>
    match validate data with
    | .error e => .error (.parseManifest sha e)
    | .ok () => .ok data

/-- `Resolve`, with the directory in place of the path. -/
def Store.resolve (s : Store) (ref : String) : Except GetError (Manifest × String) :=
  match s.resolveRef ref with
  | .error e => .error e
  | .ok sha =>
    match s.readManifest sha with
    | .error e => .error e
    | .ok m =>
      if m.diskDigest ≠ digestLabel ++ sha then .error (.integrityMismatch ref)
      else .ok (m, sha)

/-- `Get`, with the contents of the disk in place of its path. -/
def Store.get (hash : Hash) (s : Store) (ref : String) :
    Except GetError (Manifest × List UInt8) :=
  match s.resolve ref with
  | .error e => .error e
  | .ok (m, sha) =>
    match (s.dirs.lookup sha).bind ImageDir.disk with
    | none => .error (.readDisk sha)
    | some disk =>
      if hash.fileSHA256 disk ≠ m.diskDigest then .error (.integrityMismatch ref)
      else .ok (m, disk)

/-! ### Removing -/

inductive RemoveError
  | notFound (ref : String)
deriving DecidableEq

/-- What `Remove` finds: the reference it takes and the digest. -/
def Store.removeTarget (s : Store) (ref : String) : Option (String × String) :=
  match s.refs.lookup ref with
  | some sha => some (ref, sha)
  | none =>
    let bare := if ':' ∈ ref.toList then none else s.refs.lookup (latest ref)
    match bare with
    | some sha => some (latest ref, sha)
    | none => (findBySHA s.refs ref).map fun sha => (ref, sha)

/-- The references after `Remove`: without the one it names, or without all of
the digest. -/
def Store.unref (s : Store) (ref sha : String) : ValueMap String String :=
  if (s.refs.lookup ref).isSome then s.refs.erase ref
  else ValueMap.keepValues s.refs fun digest => digest ≠ sha

def Store.remove (s : Store) (ref : String) : Except RemoveError Unit × Store :=
  match s.removeTarget ref with
  | none => (.error (.notFound ref), s)
  | some (ref, sha) =>
    let refs := s.unref ref sha
    if sha ∈ ValueMap.values refs then (.ok (), { s with refs := refs })
    else (.ok (), { refs := refs, dirs := s.dirs.erase sha })

inductive Label
  | put (name tag : String) (m : Manifest) (disk : List UInt8)
  | remove (ref : String)

def Store.step (hash : Hash) (s : Store) : Label → Store
  | .put name tag m disk => (s.put hash name tag m disk).2
  | .remove ref => (s.remove ref).2

def system (hash : Hash) : TransitionSystem Store Label where
  initial s := s = Store.empty
  step s label := some (s.step hash label)

end Jerboa.Image
