import Jerboa.ManifestTree
import Jerboa.RootedPaths

/-!
# Which files a manifest keeps

Building the tree of a manifest fails where an entry goes below a file, since a
file has no map of children, and a file that takes the place of a directory drops
what was below.  The tree has every file of the package exactly where no file lies
on the way to another one.
-/

namespace Jerboa.Image

open Utf8Text List

variable {cwd : Option Bytes}

/-! ### The components of a cleaned path -/

theorem fieldsFunc_intercalate {components : List Bytes}
    (areNames : ∀ component ∈ components, component ≠ [] ∧ slash ∉ component)
    (ne_nil : components ≠ []) : fieldsFunc ([slash].intercalate components) = components := by
  rw [fieldsFunc, splitOn_intercalate slash (fun c member => (areNames c member).2) ne_nil,
    filter_eq_self]
  intro component member
  exact decide_eq_true (areNames component member).1

theorem fieldsFunc_progGuest_ne_nil (cfg : BuildConfig) : fieldsFunc cfg.progGuest ≠ [] := by
  simp only [BuildConfig.progGuest]
  split
  · rename_i configured
    revert configured
    simp only [pathClean, head?_cons, if_true, drop_succ_cons, drop_zero,
      decide_true]
    intro configured
    rw [fieldsFunc_intercalate]
    · intro empty
      exact configured.2 (by rw [empty]; rfl)
    · intro component member
      rw [mem_reverse] at member
      rcases mem_foldl_cleanStep member with inStack | ⟨inPath, ne_nil⟩
      · simp at inStack
      · exact ⟨ne_nil, DelimitedText.not_mem_of_mem_splitOn inPath⟩
    · intro empty
      exact configured.2 (by rw [empty]; rfl)
  · decide

def BuildConfig.program (cfg : BuildConfig) : File :=
  { hostPath := cfg.binaryPath, guestPath := cfg.progGuest }

theorem BuildConfig.program_guestParts_ne_nil (cfg : BuildConfig) :
    cfg.program.guestParts ≠ [] := by
  have some : cfg.progGuest ≠ [] := by
    intro empty
    exact fieldsFunc_progGuest_ne_nil cfg (by rw [empty]; rfl)
  rw [File.guestParts, BuildConfig.program, if_neg some]
  exact fieldsFunc_progGuest_ne_nil cfg

/-! ### What stays in the tree -/

variable {inserted node : ManifestNode} {f : File} {path : List Bytes} {files : List File}
  {cfg : BuildConfig}

theorem open_of_insertManifestFile {parts : List Bytes} {hostPath : Bytes}
    (result : insertManifestFile parts hostPath node = some inserted) : node.Open parts := by
  induction parts generalizing node inserted with
  | nil =>
    intro above isPrefix proper
    exact absurd (prefix_nil.mp isPrefix) proper
  | cons part parts ih =>
    cases node with
    | file other => cases parts <;> simp [insertManifestFile] at result
    | dir children =>
      intro above isPrefix proper
      cases above with
      | nil => rfl
      | cons first above =>
        obtain ⟨rfl, below⟩ := cons_prefix_cons.mp isPrefix
        have properBelow : above ≠ parts := fun same => proper (by rw [same])
        cases parts with
        | nil => exact absurd (prefix_nil.mp below) properBelow
        | cons next parts =>
          rw [insertManifestFile_cons] at result
          obtain ⟨child, childResult, -⟩ := Option.bind_eq_some_iff.mp result
          have childOpen := ih childResult above below properBelow
          rwa [fileAt_getD] at childOpen

theorem open_of_insertManifestDir {parts : List Bytes}
    (result : insertManifestDir parts node = some inserted) : node.Open parts := by
  induction parts generalizing node inserted with
  | nil =>
    intro above isPrefix proper
    exact absurd (prefix_nil.mp isPrefix) proper
  | cons part parts ih =>
    cases node with
    | file other => simp [insertManifestDir] at result
    | dir children =>
      rw [insertManifestDir] at result
      obtain ⟨child, childResult, -⟩ := Option.bind_eq_some_iff.mp result
      intro above isPrefix proper
      cases above with
      | nil => rfl
      | cons first above =>
        obtain ⟨rfl, below⟩ := cons_prefix_cons.mp isPrefix
        have childOpen := ih childResult above below fun same => proper (by rw [same])
        rwa [fileAt_getD] at childOpen

theorem open_of_insertEntry (result : insertEntry cwd node f = some inserted) :
    node.Open f.guestParts := by
  unfold insertEntry at result
  split at result
  · exact open_of_insertManifestDir result
  · exact open_of_insertManifestFile result

theorem fileAt_insertEntry (result : insertEntry cwd node f = some inserted) (path : List Bytes) :
    inserted.fileAt path =
      if f.isDir = false ∧ f.guestParts ≠ [] ∧ f.guestParts <+: path then
        if path = f.guestParts then some (filepathAbs cwd f.hostPath) else none
      else node.fileAt path := by
  obtain ⟨other, sameResult, fileAt⟩ : ∃ other, insertEntry cwd node f = some other ∧ _ :=
    insertEntry_of_open (open_of_insertEntry result)
  obtain rfl : other = inserted := Option.some.inj (sameResult.symm.trans result)
  exact fileAt path

def ManifestNode.Blocked (node : ManifestNode) (path : List Bytes) : Prop :=
  ∃ above, above <+: path ∧ (node.fileAt above).isSome

theorem ManifestNode.Blocked.insertEntry (blocked : node.Blocked path)
    (result : Image.insertEntry cwd node f = some inserted) : inserted.Blocked path := by
  obtain ⟨above, isPrefix, occupied⟩ := blocked
  by_cases replaced : f.isDir = false ∧ f.guestParts ≠ [] ∧ f.guestParts <+: above
  · -- the new file is at or above the one that was there
    refine ⟨f.guestParts, replaced.2.2.trans isPrefix, ?_⟩
    rw [fileAt_insertEntry result, if_pos ⟨replaced.1, replaced.2.1, prefix_refl _⟩]
    simp
  · refine ⟨above, isPrefix, ?_⟩
    rw [fileAt_insertEntry result, if_neg replaced]
    exact occupied

theorem ManifestNode.Blocked.foldlM {root : ManifestNode} (blocked : node.Blocked path)
    (result : files.foldlM (Image.insertEntry cwd) node = some root) {g : File} (member : g ∈ files)
    (isPrefix : path <+: g.guestParts) : path = g.guestParts := by
  induction files generalizing node with
  | nil => simp at member
  | cons f files ih =>
    rw [foldlM_cons] at result
    obtain ⟨inserted, step, rest⟩ := Option.bind_eq_some_iff.mp result
    rcases mem_cons.mp member with rfl | later
    · obtain ⟨above, higher, occupied⟩ := blocked
      by_contra proper
      have strictly : above ≠ g.guestParts := by
        rintro rfl
        exact proper (isPrefix.eq_of_length_le higher.length_le)
      have free := open_of_insertEntry step above (higher.trans isPrefix) strictly
      simp [free] at occupied
    · exact ih (blocked.insertEntry step) rest later

theorem leavesWay_of_foldlM {root : ManifestNode}
    (result : files.foldlM (insertEntry cwd) node = some root) :
    files.Pairwise File.LeavesWay := by
  induction files generalizing node with
  | nil => exact List.Pairwise.nil
  | cons f files ih =>
    rw [foldlM_cons] at result
    obtain ⟨inserted, step, rest⟩ := Option.bind_eq_some_iff.mp result
    apply List.Pairwise.cons _ (ih rest)
    intro g member isFile isNamed isPrefix
    have blocked : inserted.Blocked f.guestParts := by
      refine ⟨f.guestParts, prefix_refl _, ?_⟩
      rw [fileAt_insertEntry step, if_pos ⟨isFile, isNamed, prefix_refl _⟩]
      simp
    exact blocked.foldlM rest member isPrefix

theorem fileAt_below {above : List Bytes} (isPrefix : above <+: path)
    (atAbove : (node.fileAt above).isSome) (atPath : (node.fileAt path).isSome) :
    above = path := by
  induction above generalizing node path with
  | nil =>
    cases node with
    | file hostPath =>
      cases path with
      | nil => rfl
      | cons part parts => simp [ManifestNode.fileAt] at atPath
    | dir children => simp [ManifestNode.fileAt] at atAbove
  | cons part above ih =>
    obtain ⟨rest, rfl⟩ := isPrefix
    cases node with
    | file hostPath => simp [ManifestNode.fileAt] at atAbove
    | dir children =>
      rw [cons_append, ManifestNode.fileAt] at atPath
      rw [ManifestNode.fileAt] at atAbove
      cases child : childAt children part with
      | none => simp [child] at atAbove
      | some next =>
        rw [child, Option.bind_some] at atAbove atPath
        rw [cons_append, ← ih (prefix_append above rest) atAbove atPath]

theorem hostOf_isSome (member : f ∈ files) (isFile : f.isDir = false) :
    (hostOf cwd files f.guestParts).isSome := by
  rw [hostOf, Option.isSome_map, find?_isSome]
  exact ⟨f, mem_reverse.mpr member, by simp [isFile]⟩

theorem hostOf_eq_some_iff {hostPath : Bytes} :
    hostOf cwd files path = some hostPath ↔
      ∃ before f after, files = before ++ f :: after ∧ f.isDir = false ∧ f.guestParts = path ∧
        filepathAbs cwd f.hostPath = hostPath ∧
        ∀ g ∈ after, g.isDir = false → g.guestParts ≠ path := by
  rw [hostOf, Option.map_eq_some_iff]
  constructor
  · rintro ⟨f, found, same⟩
    obtain ⟨here, after, before, split, others⟩ := find?_eq_some_iff_append.mp found
    rw [Bool.and_eq_true, Bool.not_eq_true', decide_eq_true_iff] at here
    refine ⟨before.reverse, f, after.reverse, ?_, here.1, here.2, same, ?_⟩
    · rw [← reverse_reverse files, split]
      simp
    · intro g member isFile atPath
      have notHere := others g (mem_reverse.mp member)
      simp [isFile, atPath] at notHere
  · rintro ⟨before, f, after, rfl, isFile, atPath, same, others⟩
    refine ⟨f, find?_eq_some_iff_append.mpr ⟨by simp [isFile, atPath], after.reverse,
      before.reverse, by simp, ?_⟩, same⟩
    intro g member
    by_cases isFileToo : g.isDir = false
    · simp [others g (mem_reverse.mp member) isFileToo]
    · simp [isFileToo]

/-! ### The files of a package -/

/-- All entries are inserted, and every file of the package that no later file
and not the program replaces is in the tree with its own host path. -/
def BuildConfig.KeepsFiles (cwd : Option Bytes) (cfg : BuildConfig) : Prop :=
  ∃ root, cfg.files.foldlM (insertEntry cwd) newManifestNode = some root ∧
    ∀ before f after, cfg.pkgFiles = before ++ f :: after → f.isDir = false →
      (∀ g ∈ after, g.isDir = false → g.guestParts ≠ f.guestParts) →
      cfg.program.guestParts ≠ f.guestParts →
        root.fileAt f.guestParts = some (filepathAbs cwd f.hostPath)

/-- Every file of the package has a name, and no file, the program among them,
lies on the way to another file or to a later directory. -/
def BuildConfig.Insertable (cfg : BuildConfig) : Prop :=
  (∀ f ∈ cfg.pkgFiles, f.isDir = false → f.guestParts ≠ []) ∧ cfg.files.Pairwise File.Apart

instance (cfg : BuildConfig) : Decidable cfg.Insertable :=
  inferInstanceAs (Decidable (_ ∧ _))

theorem BuildConfig.files_eq (cfg : BuildConfig) : cfg.files = cfg.pkgFiles ++ [cfg.program] :=
  rfl

theorem BuildConfig.Insertable.keepsFiles (insertable : cfg.Insertable) :
    cfg.KeepsFiles cwd := by
  have named : ∀ f ∈ cfg.files, f.isDir = false → f.guestParts ≠ [] := by
    intro f member isFile
    rw [cfg.files_eq, mem_append, mem_singleton] at member
    rcases member with inPackage | rfl
    · exact insertable.1 f inPackage isFile
    · exact cfg.program_guestParts_ne_nil
  obtain ⟨root, result, fileAt⟩ :
      ∃ root, cfg.files.foldlM (insertEntry cwd) newManifestNode = some root ∧
        ∀ path, root.fileAt path = hostOf cwd ([] ++ cfg.files) path :=
    fileAt_foldlM insertable.2 named fileAt_newManifestNode
  refine ⟨root, result, ?_⟩
  intro before f after split isFile others notProgram
  rw [fileAt, nil_append, cfg.files_eq, hostOf_concat, if_neg fun both => notProgram both.2]
  exact hostOf_eq_some_iff.mpr ⟨before, f, after, split, isFile, rfl, rfl, others⟩

theorem fileAt_of_keepsFiles (keeps : cfg.KeepsFiles cwd) :
    ∃ root, cfg.files.foldlM (insertEntry cwd) newManifestNode = some root ∧
      ∀ path hostPath, hostOf cwd cfg.files path = some hostPath →
        root.fileAt path = some hostPath := by
  obtain ⟨root, result, kept⟩ := keeps
  refine ⟨root, result, ?_⟩
  intro path hostPath found
  rw [cfg.files_eq, hostOf_concat] at found
  split at found
  · rename_i atProgram
    rw [cfg.files_eq, foldlM_append] at result
    obtain ⟨node, -, rest⟩ := Option.bind_eq_some_iff.mp result
    rw [foldlM_cons] at rest
    obtain ⟨inserted, step, last⟩ := Option.bind_eq_some_iff.mp rest
    cases last
    rw [fileAt_insertEntry step, atProgram.2.symm,
      if_pos ⟨atProgram.1, cfg.program_guestParts_ne_nil, prefix_refl _⟩, if_pos rfl]
    exact found
  · rename_i notProgram
    obtain ⟨before, f, after, split, isFile, rfl, rfl, others⟩ := hostOf_eq_some_iff.mp found
    exact kept before f after split isFile others fun same => notProgram ⟨rfl, same⟩

theorem BuildConfig.KeepsFiles.insertable (keeps : cfg.KeepsFiles cwd) :
    cfg.Insertable := by
  obtain ⟨root, result, fileAt⟩ := fileAt_of_keepsFiles keeps
  have present : ∀ f ∈ cfg.files, f.isDir = false → (root.fileAt f.guestParts).isSome := by
    intro f member isFile
    have occupied : (hostOf cwd cfg.files f.guestParts).isSome := hostOf_isSome member isFile
    obtain ⟨hostPath, found⟩ := Option.isSome_iff_exists.mp occupied
    rw [fileAt _ hostPath found]
    rfl
  have named : ∀ f ∈ cfg.files, f.isDir = false → f.guestParts ≠ [] := by
    intro f member isFile empty
    have atRoot := present f member isFile
    obtain ⟨children, rfl⟩ := exists_dir_foldlM result
    simp [empty, ManifestNode.fileAt] at atRoot
  constructor
  · intro f member
    exact named f (mem_append_left _ member)
  · apply (leavesWay_of_foldlM result).imp_of_mem
    intro f g first second leaves
    refine ⟨leaves, ?_⟩
    intro isFile isFileToo _ isPrefix
    exact fileAt_below isPrefix (present g second isFileToo) (present f first isFile)

/-- Building the tree never fails and keeps every file of the package that is not
replaced exactly where all files have a name and no file lies on the way to another
file or to a later directory. -/
theorem manifest_keeps_files_iff (cwd : Option Bytes) (cfg : BuildConfig) :
    cfg.KeepsFiles cwd ↔ cfg.Insertable :=
  ⟨fun keeps => keeps.insertable, fun insertable => insertable.keepsFiles⟩

def packageBelowFile : BuildConfig where
  binaryPath := utf8 "/build/app"
  programPath := []
  pkgFiles :=
    [{ hostPath := utf8 "/pkg/lib", guestPath := utf8 "lib" },
      { hostPath := utf8 "/pkg/libc.so", guestPath := utf8 "lib/libc.so" }]
  entrypoint := []
  args := []
  env := {}
  diskSize := []

theorem manifest_below_file_fails :
    packageBelowFile.files.foldlM (insertEntry none) newManifestNode = none ∧
      ¬packageBelowFile.KeepsFiles none := by
  have fails : (packageBelowFile.files.foldlM (insertEntry none) newManifestNode).isNone := by
    decide
  have none := Option.isNone_iff_eq_none.mp fails
  refine ⟨none, ?_⟩
  rintro ⟨root, result, -⟩
  simp [none] at result

end Jerboa.Image
