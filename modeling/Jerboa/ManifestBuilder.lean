import Jerboa.Utf8Text
import Jerboa.ValueMap
import Mathlib.Data.List.Sort

/-!
# Building manifests

`BuildManifest` and `BuildVolumeManifest` of `internal/image/builder.go` write
the text that `mkfs` makes a file system from.  Strings are their bytes, and
what panics has no result.
-/

namespace Jerboa.Image

open Utf8Text

/-! ### Paths

The functions of `path` and `path/filepath` on a system with `/` as separator,
where `ToSlash` changes nothing. -/

def slash : UInt8 := 0x2f

def fieldsFunc (path : Bytes) : List Bytes :=
  (path.splitOn slash).filter (· ≠ [])

/-- One component on the way through `path.Clean`, the last one first. -/
def cleanStep (rooted : Bool) (components : List Bytes) (component : Bytes) : List Bytes :=
  if component = [] ∨ component = utf8 "." then components
  else if component = utf8 ".." then
    match components with
    | [] => if rooted then [] else [component]
    | last :: others => if last = utf8 ".." then component :: components else others
  else component :: components

def pathClean (path : Bytes) : Bytes :=
  let rooted := path.head? = some slash
  let components := ((path.splitOn slash).foldl (cleanStep rooted) []).reverse
  let cleaned := [slash].intercalate components
  if rooted then slash :: cleaned
  else if cleaned = [] then utf8 "."
  else cleaned

/-- `filepath.Abs`, with nothing in place of an error; `cwd` is the working
directory if there is one. -/
def filepathAbs (cwd : Option Bytes) (path : Bytes) : Bytes :=
  if path.head? = some slash then pathClean path
  else cwd.elim [] fun directory => pathClean (directory ++ slash :: path)

def filepathBase (path : Bytes) : Bytes :=
  if path = [] then utf8 "."
  else ((fieldsFunc path).getLast?).getD [slash]

/-! ### Files and directories of a manifest -/

structure File where
  hostPath : Bytes
  guestPath : Bytes
  isDir : Bool := false

/-- `manifestNode`; the node of a file has no map of children. -/
inductive ManifestNode
  | file (hostPath : Bytes)
  | dir (children : List (Bytes × ManifestNode))

def newManifestNode : ManifestNode :=
  .dir []

def childAt (children : List (Bytes × ManifestNode)) (part : Bytes) : Option ManifestNode :=
  (children.find? fun entry => entry.1 = part).map Prod.snd

def setChild (children : List (Bytes × ManifestNode)) (part : Bytes) (child : ManifestNode) :
    List (Bytes × ManifestNode) :=
  children.filter (fun entry => entry.1 ≠ part) ++ [(part, child)]

/-- `insertManifestFile`; an entry cannot be assigned where there is no map. -/
def insertManifestFile : List Bytes → Bytes → ManifestNode → Option ManifestNode
  | [], _, node => some node
  | _ :: _, _, .file _ => none
  | [part], hostPath, .dir children => some (.dir (setChild children part (.file hostPath)))
  | part :: parts, hostPath, .dir children => do
      let child ← insertManifestFile parts hostPath ((childAt children part).getD newManifestNode)
      return .dir (setChild children part child)

def insertManifestDir : List Bytes → ManifestNode → Option ManifestNode
  | [], node => some node
  | _ :: _, .file _ => none
  | part :: parts, .dir children => do
      let child ← insertManifestDir parts ((childAt children part).getD newManifestNode)
      return .dir (setChild children part child)

def File.guestParts (f : File) : List Bytes :=
  fieldsFunc (if f.guestPath = [] then filepathBase f.hostPath else f.guestPath)

def insertEntry (cwd : Option Bytes) (root : ManifestNode) (f : File) : Option ManifestNode :=
  if f.isDir then insertManifestDir f.guestParts root
  else insertManifestFile f.guestParts (filepathAbs cwd f.hostPath) root

def containsAny (s : Bytes) (chars : Bytes) : Bool :=
  s.any fun byte => byte ∈ chars

def manifestNameTerminals : Bytes := utf8 " \t\n\r()[]:|/\"\\"

def manifestValueTerminals : Bytes := utf8 " \t\n\r()[]"

def quoted (s : Bytes) : Bytes :=
  utf8 "\"" ++
    ((runes s).flatMap fun r =>
      (if r = '"'.toNat ∨ r = '\\'.toNat then utf8 "\\" else []) ++ encode r) ++
    utf8 "\""

def manifestName (name : Bytes) : Bytes :=
  if containsAny name manifestNameTerminals then quoted name else name

def manifestValue (v : Bytes) : Bytes :=
  if containsAny v (manifestValueTerminals ++ utf8 "\"\\") then quoted v else v

/-! ### Writing -/

def sortByKey {α : Type} (entries : List (Bytes × α)) : List (Bytes × α) :=
  entries.insertionSort fun first second => first.1 ≤ second.1

def writeEntries (indent : Bytes) (texts : List (Bytes × Bytes)) : Bytes :=
  (sortByKey texts).flatMap fun entry => indent ++ manifestName entry.1 ++ utf8 ":" ++ entry.2

def directoryText (indent lines : Bytes) : Bytes :=
  utf8 "(\n" ++ (indent ++ utf8 "    ") ++ utf8 "children:(\n" ++ lines ++
    (indent ++ utf8 "    ") ++ utf8 ")\n" ++ indent ++ utf8 ")\n"

mutual

def ManifestNode.text (indent : Bytes) : ManifestNode → Bytes
  | .file hostPath =>
    if hostPath ≠ [] then utf8 "(contents:(host:\"" ++ hostPath ++ utf8 "\"))\n"
    else directoryText indent []
  | .dir children =>
    directoryText indent
      (writeEntries (indent ++ utf8 "        ") (childTexts (indent ++ utf8 "        ") children))

def childTexts (indent : Bytes) : List (Bytes × ManifestNode) → List (Bytes × Bytes)
  | [] => []
  | (key, child) :: children => (key, child.text indent) :: childTexts indent children

end

def writeManifestChildren (indent : Bytes) : ManifestNode → Bytes
  | .file _ => []
  | .dir children => writeEntries indent (childTexts indent children)

def buildVolumeManifest (cwd : Option Bytes) (files : List File) : Option Bytes := do
  let root ← files.foldlM (insertEntry cwd) newManifestNode
  return utf8 "(\n    children:(\n" ++ writeManifestChildren (utf8 "        ") root ++
    utf8 "    )\n)"

/-! ### Program images -/

/-- The fields of `BuildConfig` that go into the manifest. -/
structure BuildConfig where
  binaryPath : Bytes
  programPath : Bytes
  pkgFiles : List File
  entrypoint : Bytes
  args : List Bytes
  env : ValueMap Bytes Bytes
  diskSize : Bytes

namespace BuildConfig

variable (cfg : BuildConfig)

def progGuest : Bytes :=
  let cleaned := (pathClean (slash :: cfg.programPath)).drop 1
  if cfg.programPath ≠ [] ∧ cleaned ≠ [] then cleaned else utf8 "program"

def progRef : Bytes :=
  slash :: cfg.progGuest

def argv : List Bytes :=
  (if cfg.entrypoint ≠ [] then [slash :: cfg.entrypoint] else []) ++ cfg.args

def files : List File :=
  cfg.pkgFiles ++ [{ hostPath := cfg.binaryPath, guestPath := cfg.progGuest }]

def argumentsText : Bytes :=
  if cfg.argv ≠ [] then
    utf8 "    arguments:(0:" ++ manifestValue cfg.progRef ++
      ((cfg.argv.zipIdx 1).flatMap fun item =>
        utf8 " " ++ utf8 (Nat.repr item.2) ++ utf8 ":" ++ manifestValue item.1) ++
      utf8 ")\n"
  else []

def environmentText : Bytes :=
  utf8 "    environment:(" ++
    ((cfg.env.keys.insertionSort (· ≤ ·)).flatMap fun k =>
      manifestName k ++ utf8 ":" ++ manifestValue ((cfg.env.lookup k).getD []) ++ utf8 " ") ++
    utf8 ")\n"

end BuildConfig

def buildManifest (cwd : Option Bytes) (cfg : BuildConfig) : Option Bytes := do
  let root ← cfg.files.foldlM (insertEntry cwd) newManifestNode
  return utf8 "(\n    children:(\n" ++ writeManifestChildren (utf8 "        ") root ++
    utf8 "    )\n    program:" ++ manifestValue cfg.progRef ++ utf8 "\n" ++
    cfg.argumentsText ++ cfg.environmentText ++
    (if cfg.diskSize ≠ [] then utf8 "    imagesize:" ++ cfg.diskSize ++ utf8 "\n" else []) ++
    utf8 ")"

end Jerboa.Image
