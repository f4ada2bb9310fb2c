import Jerboa.DelimitedText
import Jerboa.OpsExtract
import Jerboa.ResourceNaming
import Jerboa.RootedPaths

/-!
# The directories of cached packages

`PackageDir`, `validateOpsRef` and `List` of `internal/package/ops_store.go`.  A
package is kept in a directory that is named after its name and its version with
an underscore in between; `List` takes such a name apart at its last underscore.
-/

namespace Jerboa.Packages

open Utf8Text PosixFiles List

structure OpsRef where
  nspace : String
  name : String
  version : String
deriving DecidableEq, Repr

def validateOpsRef (ref : OpsRef) : Except Naming.InvalidResourceName Unit := do
  Naming.validateResourceName "ops namespace" ref.nspace
  Naming.validateResourceName "ops package" ref.name
  Naming.validateResourceName "ops package version" ref.version

def dirName (ref : OpsRef) : Bytes :=
  utf8 (ref.name ++ "_" ++ ref.version)

def packageDir (root : Location) (ref : OpsRef) : Location :=
  join (join root (utf8 ref.nspace)) (dirName ref)

def underscore : UInt8 := 0x5f

def splitOpsDirName (dirName : Bytes) : Bytes × Bytes :=
  (DelimitedText.cutLast underscore dirName).getD (dirName, [])

structure DirEntry where
  name : Bytes
  isDir : Bool
deriving DecidableEq, Repr

structure OpsPackage where
  nspace : Bytes
  name : Bytes
  version : Bytes
deriving DecidableEq, Repr

def listNamespace (nspace : Bytes) (pkgEntries : List DirEntry) : List OpsPackage :=
  (pkgEntries.filter DirEntry.isDir).map fun pkgEntry =>
    ⟨nspace, (splitOpsDirName pkgEntry.name).1, (splitOpsDirName pkgEntry.name).2⟩

/-- `List`, for what `os.ReadDir` returns of each directory. -/
def list (readDir : Location → Option (List DirEntry)) (root : Location) :
    Option (List OpsPackage) :=
  (readDir root).map fun nsEntries =>
    (nsEntries.filter DirEntry.isDir).flatMap fun nsEntry =>
      ((readDir (join root nsEntry.name)).map (listNamespace nsEntry.name)).getD []

/-! ### Accepted coordinates -/

theorem validateOpsRef_ok {ref : OpsRef} (accepted : validateOpsRef ref = .ok ()) :
    Naming.validateResourceName "ops namespace" ref.nspace = .ok () ∧
      Naming.validateResourceName "ops package" ref.name = .ok () ∧
        Naming.validateResourceName "ops package version" ref.version = .ok () := by
  unfold validateOpsRef at accepted
  cases nspace : Naming.validateResourceName "ops namespace" ref.nspace with
  | error reason => rw [nspace] at accepted; cases accepted
  | ok =>
    rw [nspace] at accepted
    cases name : Naming.validateResourceName "ops package" ref.name with
    | error reason => rw [name] at accepted; cases accepted
    | ok =>
      rw [name] at accepted
      exact ⟨rfl, rfl, accepted⟩

theorem join_utf8 {text : String} (nonempty : text ≠ "") (notDot : text ≠ ".")
    (notUp : text ≠ "..") (single : '/' ∉ text.toList) (base : Location) :
    join base (utf8 text) = base ++ [utf8 text] := by
  apply join_component
  · refine ⟨fun same => nonempty (utf8_injective same), fun same => notDot (utf8_injective ?_),
      fun same => notUp (utf8_injective ?_)⟩
    · rw [same]
      decide
    · rw [same]
      decide
  · exact fun inside => single ((mem_utf8_ascii '/' (by decide)).mp inside)

theorem join_nspace {ref : OpsRef} (accepted : validateOpsRef ref = .ok ()) (base : Location) :
    join base (utf8 ref.nspace) = base ++ [utf8 ref.nspace] := by
  obtain ⟨nonempty, single, up, word⟩ := Naming.validateResourceName_ok (validateOpsRef_ok accepted).1
  refine join_utf8 nonempty (fun same => ?_) (fun same => ?_) single base
  · rw [same] at word
    exact absurd word (by decide)
  · rw [same] at up
    exact absurd up (by decide)

theorem packageDir_eq {ref : OpsRef} (accepted : validateOpsRef ref = .ok ()) (root : Location) :
    packageDir root ref = root ++ [utf8 ref.nspace, dirName ref] := by
  obtain ⟨-, name, version⟩ := validateOpsRef_ok accepted
  have first := (Naming.validateResourceName_ok name).2.1
  have second := (Naming.validateResourceName_ok version).2.1
  have letters : (ref.name ++ "_" ++ ref.version).toList =
      ref.name.toList ++ '_' :: ref.version.toList := by simp
  have other (text : String) (free : '_' ∉ text.toList) :
      ref.name ++ "_" ++ ref.version ≠ text := by
    intro same
    apply free
    rw [← same, letters]
    simp
  have single : '/' ∉ (ref.name ++ "_" ++ ref.version).toList := by
    rw [letters]
    simp [first, second]
  rw [packageDir, join_nspace accepted, dirName,
    join_utf8 (other "" (by decide)) (other "." (by decide)) (other ".." (by decide)) single,
    append_assoc, singleton_append]

/-! ### Two packages in one directory -/

/-- The version of the first package begins with what the name of the second one
ends with. -/
def Shifted (first second : OpsRef) : Prop :=
  ∃ middle : String, second.name = first.name ++ "_" ++ middle ∧
    first.version = middle ++ "_" ++ second.version

theorem dirName_eq_iff (first second : OpsRef) :
    dirName first = dirName second ↔
      first.name = second.name ∧ first.version = second.version ∨
        Shifted first second ∨ Shifted second first := by
  have letters (ref : OpsRef) : (ref.name ++ "_" ++ ref.version).toList =
      ref.name.toList ++ '_' :: ref.version.toList := by simp
  have shifted {first second : OpsRef} {middle : List Char}
      (names : second.name.toList = first.name.toList ++ '_' :: middle)
      (versions : first.version.toList = middle ++ '_' :: second.version.toList) :
      Shifted first second := by
    refine ⟨String.ofList middle, ?_, ?_⟩
    · rw [← String.toList_inj, names]
      simp
    · rw [← String.toList_inj, versions]
      simp
  constructor
  · intro same
    have texts := congrArg String.toList (utf8_injective same)
    rw [letters, letters] at texts
    rcases append_eq_append_iff.mp texts with ⟨rest, names, versions⟩ | ⟨rest, names, versions⟩
    · cases rest with
      | nil =>
        rw [append_nil] at names
        rw [nil_append] at versions
        exact .inl ⟨(String.toList_inj.mp names).symm,
          String.toList_inj.mp (List.cons.inj versions).2⟩
      | cons letter middle =>
        obtain ⟨rfl, rest⟩ := List.cons.inj versions
        exact .inr (.inl (shifted names rest))
    · cases rest with
      | nil =>
        rw [append_nil] at names
        rw [nil_append] at versions
        exact .inl ⟨String.toList_inj.mp names,
          (String.toList_inj.mp (List.cons.inj versions).2).symm⟩
      | cons letter middle =>
        obtain ⟨rfl, rest⟩ := List.cons.inj versions
        exact .inr (.inr (shifted names rest))
  · rintro (⟨names, versions⟩ | ⟨middle, names, versions⟩ | ⟨middle, names, versions⟩)
    · rw [dirName, dirName, names, versions]
    · rw [dirName, dirName, names, versions]
      simp only [String.append_assoc]
    · rw [dirName, dirName, names, versions]
      simp only [String.append_assoc]

/-- Two different packages share a directory exactly if they are in one
namespace and the underscore between name and version can be read in two
places. -/
theorem packageDir_ne_iff {first second : OpsRef} (firstAccepted : validateOpsRef first = .ok ())
    (secondAccepted : validateOpsRef second = .ok ()) (different : first ≠ second)
    (root : Location) :
    packageDir root first ≠ packageDir root second ↔
      ¬(first.nspace = second.nspace ∧ (Shifted first second ∨ Shifted second first)) := by
  rw [packageDir_eq firstAccepted, packageDir_eq secondAccepted, not_iff_not]
  simp only [append_cancel_left_eq, List.cons.injEq, and_true, utf8_injective.eq_iff,
    dirName_eq_iff]
  constructor
  · rintro ⟨nspace, ⟨names, versions⟩ | shifted⟩
    · refine absurd ?_ different
      obtain ⟨_, _, _⟩ := first
      obtain ⟨_, _, _⟩ := second
      simp_all
    · exact ⟨nspace, shifted⟩
  · rintro ⟨nspace, shifted⟩
    exact ⟨nspace, .inr shifted⟩

/-! ### Listing a store -/

/-- `readDir` returns what is on the disk, in any order. -/
def Reads (disk : Disk) (readDir : Location → Option (List DirEntry)) : Prop :=
  ∀ directory, disk.nodes directory = some .dir →
    ∃ entries, readDir directory = some entries ∧ ∀ entry, entry ∈ entries ↔
      ∃ kind, disk.nodes (directory ++ [entry.name]) = some kind ∧
        (entry.isDir = true ↔ kind = .dir)

/-- Two levels below the root stand these directories, and on the way to them
their parents; what is in them does not matter. -/
structure HoldsExactly (disk : Disk) (root : Location) (directories : List Location) : Prop where
  isDir : disk.nodes root = some .dir
  parents : ∀ name, disk.nodes (root ++ [name]) =
    if ∃ directory ∈ directories, root ++ [name] <+: directory then some .dir else none
  exact : ∀ parent name, disk.nodes (root ++ [parent, name]) =
    if root ++ [parent, name] ∈ directories then some .dir else none

def Reports (readDir : Location → Option (List DirEntry)) (root : Location)
    (refs : List OpsRef) : Prop :=
  ∃ result, list readDir root = some result ∧ ∀ package, package ∈ result ↔
    ∃ ref ∈ refs, package = ⟨utf8 ref.nspace, utf8 ref.name, utf8 ref.version⟩

section Listing

variable {disk : Disk} {readDir : Location → Option (List DirEntry)} {root : Location}
  {refs : List OpsRef}

theorem Reads.directories (reads : Reads disk readDir) {directory : Location}
    (isDir : disk.nodes directory = some .dir) :
    ∃ entries, readDir directory = some entries ∧ ∀ name,
      (∃ entry ∈ entries.filter DirEntry.isDir, entry.name = name) ↔
        disk.nodes (directory ++ [name]) = some .dir := by
  obtain ⟨entries, read, exact⟩ := reads directory isDir
  refine ⟨entries, read, fun name => ⟨?_, fun present => ?_⟩⟩
  · rintro ⟨entry, member, rfl⟩
    obtain ⟨listed, marked⟩ := mem_filter.mp member
    obtain ⟨kind, present, directory⟩ := (exact entry).mp listed
    rwa [directory.mp marked] at present
  · refine ⟨⟨name, true⟩, mem_filter.mpr ⟨(exact ⟨name, true⟩).mpr ?_, rfl⟩, rfl⟩
    exact ⟨.dir, present, by simp⟩

theorem HoldsExactly.parent_iff (holds : HoldsExactly disk root (refs.map (packageDir root)))
    (accepted : ∀ ref ∈ refs, validateOpsRef ref = .ok ()) (name : Bytes) :
    disk.nodes (root ++ [name]) = some .dir ↔ ∃ ref ∈ refs, utf8 ref.nspace = name := by
  rw [holds.parents]
  constructor
  · intro present
    rw [Option.ite_none_right_eq_some] at present
    obtain ⟨⟨directory, member, above⟩, -⟩ := present
    obtain ⟨ref, inside, rfl⟩ := mem_map.mp member
    rw [packageDir_eq (accepted ref inside), prefix_append_right_inj] at above
    exact ⟨ref, inside, (cons_prefix_cons.mp above).1.symm⟩
  · rintro ⟨ref, inside, rfl⟩
    rw [if_pos]
    refine ⟨packageDir root ref, mem_map_of_mem inside, ?_⟩
    rw [packageDir_eq (accepted ref inside), prefix_append_right_inj]
    exact cons_prefix_cons.mpr ⟨rfl, nil_prefix⟩

theorem HoldsExactly.directory_iff (holds : HoldsExactly disk root (refs.map (packageDir root)))
    (accepted : ∀ ref ∈ refs, validateOpsRef ref = .ok ()) (parent name : Bytes) :
    disk.nodes (root ++ [parent, name]) = some .dir ↔
      ∃ ref ∈ refs, utf8 ref.nspace = parent ∧ dirName ref = name := by
  rw [holds.exact, Option.ite_none_right_eq_some, mem_map]
  constructor
  · rintro ⟨⟨ref, inside, same⟩, -⟩
    rw [packageDir_eq (accepted ref inside), append_cancel_left_eq] at same
    simp only [List.cons.injEq, and_true] at same
    exact ⟨ref, inside, same⟩
  · rintro ⟨ref, inside, rfl, rfl⟩
    exact ⟨⟨ref, inside, packageDir_eq (accepted ref inside) root⟩, rfl⟩

theorem mem_list_iff (reads : Reads disk readDir)
    (holds : HoldsExactly disk root (refs.map (packageDir root)))
    (accepted : ∀ ref ∈ refs, validateOpsRef ref = .ok ()) :
    ∃ result, list readDir root = some result ∧ ∀ package, package ∈ result ↔
      ∃ ref ∈ refs, package = ⟨utf8 ref.nspace, (splitOpsDirName (dirName ref)).1,
        (splitOpsDirName (dirName ref)).2⟩ := by
  obtain ⟨nsEntries, read, namespaces⟩ := reads.directories holds.isDir
  -- one namespace
  have packages (nspace : Bytes) (present : disk.nodes (root ++ [nspace]) = some .dir)
      (package : OpsPackage) :
      package ∈ ((readDir (join root nspace)).map (listNamespace nspace)).getD [] ↔
        ∃ ref ∈ refs, utf8 ref.nspace = nspace ∧ package = ⟨nspace,
          (splitOpsDirName (dirName ref)).1, (splitOpsDirName (dirName ref)).2⟩ := by
    obtain ⟨owner, known, rfl⟩ := (holds.parent_iff accepted nspace).mp present
    obtain ⟨pkgEntries, readPackages, names⟩ := reads.directories present
    rw [join_nspace (accepted owner known), readPackages]
    simp only [Option.map_some, Option.getD_some, listNamespace, mem_map]
    constructor
    · rintro ⟨entry, member, rfl⟩
      have there := (names entry.name).mp ⟨entry, member, rfl⟩
      rw [append_assoc, singleton_append] at there
      obtain ⟨ref, inside, same, name⟩ := (holds.directory_iff accepted _ _).mp there
      exact ⟨ref, inside, same, by rw [name]⟩
    · rintro ⟨ref, inside, same, rfl⟩
      have there := (holds.directory_iff accepted _ _).mpr ⟨ref, inside, same, rfl⟩
      obtain ⟨entry, member, name⟩ := (names (dirName ref)).mpr (by simpa using there)
      exact ⟨entry, member, by rw [name]⟩
  refine ⟨_, by rw [list, read]; rfl, fun package => ?_⟩
  rw [mem_flatMap]
  constructor
  · rintro ⟨nsEntry, member, listed⟩
    have present := (namespaces nsEntry.name).mp ⟨nsEntry, member, rfl⟩
    obtain ⟨ref, inside, same, rfl⟩ := (packages nsEntry.name present package).mp listed
    exact ⟨ref, inside, by rw [same]⟩
  · rintro ⟨ref, inside, rfl⟩
    have present := (holds.parent_iff accepted (utf8 ref.nspace)).mpr ⟨ref, inside, rfl⟩
    obtain ⟨nsEntry, member, name⟩ := (namespaces (utf8 ref.nspace)).mpr present
    refine ⟨nsEntry, member, ?_⟩
    rw [name]
    exact (packages _ present _).mpr ⟨ref, inside, rfl, rfl⟩

end Listing

/-! ### A store for every set of packages -/

def readDirectories (directories : List Location) (location : Location) :
    Option (List DirEntry) :=
  some (directories.filterMap fun directory =>
    if location <+: directory then
      ((directory.drop location.length).head?).map fun name => ⟨name, true⟩
    else none)

theorem reads_ofDirectories (directories : List Location) :
    Reads (Disk.ofDirectories directories) (readDirectories directories) := by
  intro location _
  refine ⟨_, rfl, fun entry => ?_⟩
  simp only [mem_filterMap, Option.ite_none_right_eq_some, Option.map_eq_some_iff,
    Disk.ofDirectories, append_eq_nil_iff, cons_ne_nil, and_false, false_or]
  constructor
  · rintro ⟨directory, member, ⟨rest, rfl⟩, name, head, rfl⟩
    rw [drop_left] at head
    obtain ⟨more, rfl⟩ : ∃ more, rest = name :: more := head?_eq_some_iff.mp head
    exact ⟨.dir, ⟨⟨_, member, more, by simp⟩, rfl⟩, by simp⟩
  · rintro ⟨kind, ⟨⟨directory, member, more, rfl⟩, same⟩, marked⟩
    cases same
    obtain ⟨name, isDir⟩ := entry
    obtain rfl : isDir = true := marked.mpr rfl
    exact ⟨_, member, ⟨name :: more, by simp⟩, name, by simp, rfl⟩

theorem holdsExactly_ofDirectories {root : Location} {refs : List OpsRef}
    (accepted : ∀ ref ∈ refs, validateOpsRef ref = .ok ()) :
    HoldsExactly (Disk.ofDirectories (root :: refs.map (packageDir root))) root
      (refs.map (packageDir root)) := by
  have longer (front : Location) (nonempty : front ≠ []) : ¬ root ++ front <+: root := by
    intro short
    have length := short.length_le
    rw [length_append] at length
    exact nonempty (length_eq_zero_iff.mp (by omega))
  refine ⟨if_pos (.inr ⟨root, mem_cons_self, prefix_refl _⟩), fun name => ?_,
    fun parent name => ?_⟩
  · simp [Disk.ofDirectories, longer]
  · have full (ref : OpsRef) (inside : ref ∈ refs) :
        root ++ [parent, name] <+: packageDir root ref ↔
          packageDir root ref = root ++ [parent, name] := by
      rw [packageDir_eq (accepted ref inside), prefix_append_right_inj,
        append_cancel_left_eq]
      simp [cons_prefix_cons, eq_comm]
    have known : (∃ ref ∈ refs, root ++ [parent, name] <+: packageDir root ref) ↔
        ∃ ref ∈ refs, packageDir root ref = root ++ [parent, name] :=
      exists_congr fun ref => and_congr_right fun inside => full ref inside
    simp [Disk.ofDirectories, longer, known]

/-! ### What `List` returns -/

theorem underscore_mem_utf8 {text : String} : underscore ∈ utf8 text ↔ '_' ∈ text.toList :=
  mem_utf8_ascii '_' (by decide)

theorem dirName_eq (ref : OpsRef) :
    dirName ref = utf8 ref.name ++ underscore :: utf8 ref.version := by
  have letter : utf8 "_" = [underscore] := by decide
  rw [dirName, utf8_append, utf8_append, letter, append_assoc, singleton_append]

theorem splitOpsDirName_dirName {ref : OpsRef} (free : '_' ∉ ref.version.toList) :
    splitOpsDirName (dirName ref) = (utf8 ref.name, utf8 ref.version) := by
  rw [splitOpsDirName, dirName_eq,
    DelimitedText.cutLast_append (fun inside => free (underscore_mem_utf8.mp inside))]
  rfl

theorem underscore_not_mem_split (text : Bytes) : underscore ∉ (splitOpsDirName text).2 := by
  rw [splitOpsDirName]
  cases found : DelimitedText.cutLast underscore text with
  | none => simp
  | some parts => exact (DelimitedText.cutLast_eq_some found).2

/-- Different packages have different directories exactly if no underscore can
be read in two ways, and `List` returns what is in the store exactly if no
version has an underscore. -/
theorem package_directories_iff (root : Location) :
    (∀ first second : OpsRef, validateOpsRef first = .ok () → validateOpsRef second = .ok () →
      first ≠ second →
        (packageDir root first ≠ packageDir root second ↔
          ¬(first.nspace = second.nspace ∧ (Shifted first second ∨ Shifted second first)))) ∧
      ∀ (refs : List OpsRef) (disk : Disk) (readDir : Location → Option (List DirEntry)),
        (∀ ref ∈ refs, validateOpsRef ref = .ok ()) → Reads disk readDir →
          HoldsExactly disk root (refs.map (packageDir root)) →
            (Reports readDir root refs ↔ ∀ ref ∈ refs, '_' ∉ ref.version.toList) := by
  refine ⟨fun first second firstAccepted secondAccepted different =>
    packageDir_ne_iff firstAccepted secondAccepted different root, ?_⟩
  intro refs disk readDir accepted reads holds
  obtain ⟨result, listed, members⟩ := mem_list_iff reads holds accepted
  constructor
  · rintro ⟨reported, same, exact⟩ ref inside marked
    obtain rfl : result = reported := Option.some.inj (listed.symm.trans same)
    obtain ⟨other, -, package⟩ := (members _).mp ((exact _).mpr ⟨ref, inside, rfl⟩)
    have version := congrArg OpsPackage.version package
    apply underscore_not_mem_split (dirName other)
    simp only at version
    rw [← version]
    exact underscore_mem_utf8.mpr marked
  · intro free
    refine ⟨result, listed, fun package => (members package).trans ?_⟩
    constructor
    · rintro ⟨ref, inside, rfl⟩
      exact ⟨ref, inside, by rw [splitOpsDirName_dirName (free ref inside)]⟩
    · rintro ⟨ref, inside, rfl⟩
      exact ⟨ref, inside, by rw [splitOpsDirName_dirName (free ref inside)]⟩

def nodeVersions : List OpsRef :=
  [⟨"eyberg", "node_js", "v14.2.0"⟩, ⟨"eyberg", "node_js", "v16"⟩]

theorem two_versions_listed :
    Reports (readDirectories ([utf8 "store"] :: nodeVersions.map (packageDir [utf8 "store"])))
      [utf8 "store"] nodeVersions := by
  have accepted : ∀ ref ∈ nodeVersions, validateOpsRef ref = .ok () := by decide
  exact ((package_directories_iff [utf8 "store"]).2 nodeVersions _ _ accepted
    (reads_ofDirectories _) (holdsExactly_ofDirectories accepted)).mpr (by decide)

/-- Two packages of one namespace in one directory. -/
theorem packages_share_directory :
    validateOpsRef ⟨"eyberg", "node", "v16_arm"⟩ = .ok () ∧
      validateOpsRef ⟨"eyberg", "node_v16", "arm"⟩ = .ok () ∧
        packageDir [utf8 "store"] ⟨"eyberg", "node", "v16_arm"⟩ =
          packageDir [utf8 "store"] ⟨"eyberg", "node_v16", "arm"⟩ := by
  decide

end Jerboa.Packages
