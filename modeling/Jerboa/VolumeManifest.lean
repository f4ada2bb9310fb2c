import Jerboa.ManifestTree

/-!
# Volume manifests

The files that a volume is seeded with and the host paths that `mkfs` reads from
the manifest.  Names are quoted where they have to be, but a name that starts a
comment is not, and host paths are written between quotes as they are.
-/

namespace Jerboa.Image

open Utf8Text Kernel

def childrenEntry (children : List (Bytes × ManifestNode)) : Entries :=
  [(utf8 "children", .tuple (setEntries [] (sortByKey (childValues children))))]

theorem reading_childrenSection {children : List (Bytes × ManifestNode)}
    (readable : (ManifestNode.dir children).Readable) :
    Reading ⟨.parseTuple, []⟩ (utf8 "(\n    children:(\n" ++
        writeManifestChildren (utf8 "        ") (.dir children) ++ utf8 "    )\n")
      ⟨.isEndOfTuple (childrenEntry children), []⟩ := by
  have enter : Reading ⟨.parseTuple, []⟩ (utf8 "(\n    ") ⟨.isEndOfTuple [], []⟩ :=
    reading_utf8 _ fun _ => rfl
  have start : Reading ⟨.parseValue false, [.entry [] (utf8 "children")]⟩ (utf8 "(\n")
      ⟨.isEndOfTuple [], [.entry [] (utf8 "children")]⟩ := reading_utf8 _ fun _ => rfl
  rw [show utf8 "(\n    children:(\n" =
      utf8 "(\n    " ++ (utf8 "children" ++ utf8 ":") ++ utf8 "(\n" from rfl]
  cases readable with
  | dir _ names nodes =>
    have lines := reading_writeEntries isBlank_eight names fun entry member =>
      (nodes entry member).reads isBlank_eight
    exact (((enter.append (reading_plainName _ (by decide))).append start).append
      (lines.frame _)).append (reading_utf8 _ fun _ => rfl)

/-- The files of a volume can be placed and written down: each has a name, the
names of their guest paths are read back, and so are the host paths of the files
that no later one replaces. -/
structure Seedable (cwd : Option Bytes) (files : List File) : Prop where
  named : ∀ f ∈ files, f.isDir = false → f.guestParts ≠ []
  names : ∀ f ∈ files, ∀ part ∈ f.guestParts, ReadableName part
  hosts : ∀ path hostPath, hostOf cwd files path = some hostPath → ReadableHost hostPath

theorem filepathAbs_ne_nil {cwd : Option Bytes} {path : Bytes} (absolute : path.head? = some slash) :
    filepathAbs cwd path ≠ [] := by
  rw [filepathAbs, if_pos absolute, pathClean]
  simp [absolute]

/-- The manifest of a volume that is seeded from files which stand in no other's
way is one tuple, and it names for every path the file of the last request. -/
theorem volume_manifest_read {cwd : Option Bytes} {files : List File}
    (absolute : ∀ f ∈ files, f.isDir = false → f.hostPath.head? = some slash)
    (leaves : ∀ f ∈ files, ∀ g ∈ files, f.LeavesWay g) (seedable : Seedable cwd files) :
    ∃ text root, buildVolumeManifest cwd files = some text ∧
      (tupleParser.feed text).finished = [root] ∧ (tupleParser.feed text).errors = [] ∧
      ∀ path, hostAt path root = hostOf cwd files path := by
  have apart : ([] ++ files).Pairwise File.Apart :=
    List.pairwise_of_forall_mem_list fun f inside g other =>
      ⟨leaves f inside g other, fun _ => leaves g other f inside⟩
  obtain ⟨node, inserted, fileAt⟩ :
      ∃ root, files.foldlM (insertEntry cwd) newManifestNode = some root ∧
        ∀ path, root.fileAt path = hostOf cwd ([] ++ files) path :=
    fileAt_foldlM apart seedable.named fileAt_newManifestNode
  have readable := (named_foldlM named_newManifestNode seedable.names inserted).readable
    fun path hostPath found => seedable.hosts path hostPath ((fileAt path).symm.trans found)
  obtain ⟨children, rfl⟩ := exists_dir_foldlM inserted
  have parsed : tupleParser.feed _ = { finished := [(ManifestNode.dir children).value], .. } :=
    (reading_childrenSection readable).feed_closed
  have text : buildVolumeManifest cwd files = some (utf8 "(\n    children:(\n" ++
      writeManifestChildren (utf8 "        ") (.dir children) ++ utf8 "    )\n" ++ utf8 ")") := by
    rw [buildVolumeManifest, inserted, List.append_assoc]
    rfl
  refine ⟨_, (ManifestNode.dir children).value, text, ?_, ?_, ?_⟩
  · rw [parsed]
  · rw [parsed]
  · intro path
    rw [hostAt_value readable, fileAt]
    change (hostOf cwd files path).filter _ = hostOf cwd files path
    cases found : hostOf cwd files path with
    | none => rfl
    | some hostPath =>
      obtain ⟨f, member, isFile, -, rfl⟩ := exists_of_hostOf found
      apply Option.filter_some_pos
      simpa using filepathAbs_ne_nil (absolute f member isFile)

def seedBase : File :=
  { hostPath := utf8 "/seed/base dir", guestPath := utf8 "pg data/base" }

def seedConf : File :=
  { hostPath := utf8 "/seed/conf", guestPath := utf8 "conf" }

theorem volume_manifest_read_seeded :
    ∃ text root, buildVolumeManifest none [seedBase, seedConf] = some text ∧
      (tupleParser.feed text).finished = [root] ∧ (tupleParser.feed text).errors = [] ∧
      ∀ path, hostAt path root = hostOf none [seedBase, seedConf] path := by
  have quotedName : ReadableName (utf8 "pg data") :=
    ⟨by decide, fun _ => ⟨"pg data".toList.map Char.toNat, by decide, rfl⟩,
      fun plain => absurd plain (by decide)⟩
  have plainName {literal : String} (plain : IsPlainName (utf8 literal)) :
      ReadableName (utf8 literal) := plain.readable (isText_utf8 literal)
  have host {literal : String} (plain : containsAny (utf8 literal) (utf8 "\"\\") = false) :
      ReadableHost (utf8 literal) := ⟨isText_utf8 literal, plain⟩
  apply volume_manifest_read (by decide +kernel) (by decide +kernel)
  have baseParts : seedBase.guestParts = [utf8 "pg data", utf8 "base"] := by decide +kernel
  have confParts : seedConf.guestParts = [utf8 "conf"] := by decide +kernel
  have baseHost : filepathAbs none seedBase.hostPath = utf8 "/seed/base dir" := by decide +kernel
  have confHost : filepathAbs none seedConf.hostPath = utf8 "/seed/conf" := by decide
  refine ⟨by decide, ?_, ?_⟩
  · rw [List.forall_mem_cons, List.forall_mem_singleton, baseParts, confParts,
      List.forall_mem_cons, List.forall_mem_singleton, List.forall_mem_singleton]
    exact ⟨⟨quotedName, plainName (by decide)⟩, plainName (by decide)⟩
  · intro path hostPath found
    obtain ⟨f, member, -, -, rfl⟩ := exists_of_hostOf found
    rcases List.mem_pair.mp member with rfl | rfl
    · exact baseHost ▸ host (by decide)
    · exact confHost ▸ host (by decide)

def plantedFiles : List File :=
  [{ hostPath := utf8 "/a\"))x:(contents:(host:\"/etc/shadow", guestPath := utf8 "f" }]

/-- A host path that no entry has appears in the parsed tree. -/
theorem volume_manifest_planted :
    (∀ f ∈ plantedFiles, f.hostPath.head? = some slash) ∧
      ((buildVolumeManifest none plantedFiles).map fun text =>
        (tupleParser.feed text).finished.map (hostAt [utf8 "x"])) =
          some [some (utf8 "/etc/shadow")] ∧
      hostOf none plantedFiles [utf8 "x"] = none := by
  decide +kernel

end Jerboa.Image
