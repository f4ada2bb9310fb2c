import Jerboa.FileTreeShape

/-!
# What one call keeps of the tree

A call finds tuples by resolving its paths, and takes the names of the entries
that it sets from the text of the paths.  A call for which the two agree keeps
the tree well formed.
-/

namespace Jerboa.Kernel

open Utf8Text Function Prepared

namespace FileTree

variable {tree : FileTree}

/-! ### What the edits keep -/

def NameFree (tree : FileTree) (parent : Nat) (name : Bytes) : Prop :=
  PlainName name ∧ (tree.entry parent name).all (fun t => !tree.isDir t) = true

instance (tree : FileTree) (parent : Nat) (name : Bytes) : Decidable (tree.NameFree parent name) :=
  inferInstanceAs (Decidable (_ ∧ _))

variable {name newname oldname : Bytes} {parent t newparent old oldparent : Nat}

theorem NameFree.free (nameFree : tree.NameFree parent name) (live : tree.files parent = true)
    (dir : tree.isDir parent = true) :
    DirectoryTree.Free PlainName tree.shape (parent, name) := by
  refine ⟨live, dir, nameFree.1, ?_⟩
  intro t entry
  have file := nameFree.2
  rw [show tree.entry parent name = some t from entry, Option.all_some, Bool.not_eq_true'] at file
  intro isDir
  cases file.symm.trans isDir

theorem entry_of_isEmpty (isEmpty : tree.isEmpty t = true) (name : Bytes) :
    tree.entry t name = none := by
  rw [FileTree.isEmpty, Option.any_eq_true] at isEmpty
  obtain ⟨children, isChildren, noEntries⟩ := isEmpty
  rw [entry, isChildren]
  have noneLeft : children.entries = [] := List.isEmpty_iff.mp noEntries
  simp [AList.lookup, noneLeft]

theorem entry_of_file (file : tree.isDir t = false) (name : Bytes) :
    tree.entry t name = none := by
  rw [isDir, Option.isSome_eq_false_iff, Option.isNone_iff_eq_none] at file
  rw [entry, file]
  rfl

theorem not_above_of_climb {steps p : Nat} (climbed : tree.climb t steps p = some false) :
    ¬ tree.shape.Above t p := by
  induction steps generalizing p with
  | zero => cases climbed
  | succ steps ih =>
    rw [climb] at climbed
    split at climbed
    · cases climbed
    · rename_i different
      intro above
      obtain same | ⟨up, under, rest⟩ := Relation.ReflTransGen.cases_head above
      · exact different same
      · have parent : (tree.nodes p).parent = some up := under.2
        rw [parent] at climbed
        simp only at climbed
        split at climbed
        · rename_i isTop
          subst isTop
          have stays : ∀ {other}, tree.shape.Above other up → other = up := by
            intro other way
            induction way with
            | refl => rfl
            | tail _ step same =>
              rw [same] at step
              exact Option.some.inj (step.2.symm.trans under.2)
          exact different (stays rest).symm
        · exact ih climbed rest

section

variable (wellFormed : tree.WellFormed)

include wellFormed

theorem WellFormed.placed (entry : tree.entry parent name = some t) :
    tree.shape.Placed PlainName (parent, name) t :=
  @DirectoryTree.WellFormed.placed _ _ _ _ _ _ wellFormed.shape (parent, name) t entry

theorem WellFormed.linkCount_pos (entry : tree.entry parent name = some t) : 1 ≤ tree.linkCount t :=
  @DirectoryTree.WellFormed.count_pos _ _ _ _ _ _ wellFormed.shape (parent, name) t entry

theorem WellFormed.fileParent (live : tree.files t = true)
    (file : tree.isDir t = false) : (tree.nodes t).parent = none := by
  apply wellFormed.shape.file_parent live
  intro isDir
  cases file.symm.trans isDir

theorem WellFormed.shape_created (live : tree.files parent = true)
    (dir : tree.isDir parent = true) {node : FileNode} (fresh : node.Fresh) :
    (((tree.newEntry node).setFile tree.next true).place parent name tree.next).shape =
        (tree.shape.adopt tree.next node.children.isSome).attach (parent, name) tree.next := by
  have parentNe : parent ≠ tree.next := by
    intro same
    rw [same, wellFormed.next tree.next le_rfl] at live
    cases live
  have stillDir : ((tree.newEntry node).setFile tree.next true).isDir parent = true := by
    simpa only [isDir, setFile, newEntry, update_of_ne parentNe] using dir
  have nextParent : (((tree.newEntry node).setFile tree.next true).nodes tree.next).parent =
      none := by
    simpa only [setFile, newEntry, update_self] using fresh.parent
  rw [shape_place stillDir name fun _ => nextParent, shape_newEntry wellFormed fresh]

theorem WellFormed.not_live_next : ¬ tree.shape.live tree.next := by
  intro isLive
  cases (wellFormed.next tree.next le_rfl).symm.trans isLive

theorem WellFormed.created (live : tree.files parent = true)
    (dir : tree.isDir parent = true) (nameFree : tree.NameFree parent name) {node : FileNode}
    (fresh : node.Fresh) :
    (((tree.newEntry node).setFile tree.next true).place parent name tree.next).WellFormed := by
  constructor
  · rw [wellFormed.shape_created live dir fresh]
    exact wellFormed.shape.created (nameFree.free live dir) wellFormed.not_live_next _
  · intro t beyond
    rw [next_place] at beyond
    have later : tree.next + 1 ≤ t := beyond
    have different : t ≠ tree.next := by omega
    simp only [files_place, setFile, newEntry, update_of_ne different]
    exact wellFormed.next t (by omega)

theorem WellFormed.shape_linked (dir : tree.isDir parent = true)
    (fileLive : tree.files t = true) (file : tree.isDir t = false) :
    ((tree.setNlink t (tree.linkCount t + 1)).place parent name t).shape =
      (tree.shape.gainLink t).attach (parent, name) t := by
  have counted := shape_setNlink tree t (tree.linkCount t + 1)
  have stillDir : (tree.setNlink t (tree.linkCount t + 1)).shape.dir parent := by
    rw [counted]
    exact dir
  have noParent : (tree.setNlink t (tree.linkCount t + 1)).shape.parent t = none := by
    rw [counted]
    exact wellFormed.fileParent fileLive file
  rw [shape_place stillDir name fun _ => noParent, counted]
  rfl

theorem WellFormed.linked (live : tree.files parent = true)
    (dir : tree.isDir parent = true) (nameFree : tree.NameFree parent name)
    (fileLive : tree.files t = true) (file : tree.isDir t = false) :
    ((tree.setNlink t (tree.linkCount t + 1)).place parent name t).WellFormed := by
  constructor
  · rw [wellFormed.shape_linked dir fileLive file]
    apply wellFormed.shape.linked (nameFree.free live dir) fileLive
    intro isDir
    cases file.symm.trans isDir
  · rw [files_place, next_place]
    exact wellFormed.next

theorem WellFormed.shape_removed (entry : tree.entry parent name = some t) :
    (((tree.fsUnlink t).setEntry parent name none).setParent t none).shape =
      (tree.shape.detach (parent, name) t).dropLink t := by
  have unlinked := shape_fsUnlink (wellFormed.linkCount_pos entry)
  have stillDir : (tree.fsUnlink t).shape.dir parent := by
    rw [unlinked]
    exact (wellFormed.placed entry).from_dir
  rw [shape_setParent, shape_setEntry stillDir, unlinked]
  rfl

theorem WellFormed.removed (entry : tree.entry parent name = some t)
    (empty : ∀ name, tree.entry t name = none) :
    (((tree.fsUnlink t).setEntry parent name none).setParent t none).WellFormed := by
  constructor
  · rw [wellFormed.shape_removed entry]
    exact @DirectoryTree.WellFormed.removed _ _ _ _ _ _ wellFormed.shape (parent, name) t entry empty
  · intro other beyond
    have before : (tree.fsUnlink t).next ≤ other := beyond
    rw [next_fsUnlink] at before
    exact files_fsUnlink (wellFormed.next other before)

theorem WellFormed.shape_moved
    (entry : tree.entry oldparent oldname = some old) (dir : tree.isDir newparent = true) :
    ((tree.setEntry oldparent oldname none).place newparent newname old).shape =
        (tree.shape.detach (oldparent, oldname) old).attach (newparent, newname) old := by
  have placed := wellFormed.placed entry
  have emptied : (tree.setEntry oldparent oldname none).shape =
      { tree.shape with
        entry := Function.update tree.shape.entry (oldparent, oldname) none } :=
    shape_setEntry placed.from_dir oldname none
  have fileParent : (tree.setEntry oldparent oldname none).isDir old = false →
      (tree.setEntry oldparent oldname none).shape.parent old = none := by
    rw [isDir_setEntry, emptied]
    exact wellFormed.fileParent placed.live
  rw [shape_place (by rwa [isDir_setEntry]) newname fileParent, emptied,
    ← DirectoryTree.detach_attach]

theorem WellFormed.moved
    (entry : tree.entry oldparent oldname = some old) (live : tree.files newparent = true)
    (dir : tree.isDir newparent = true) (nameFree : tree.NameFree newparent newname)
    (notAbove : ¬ tree.shape.Above old newparent) :
    ((tree.setEntry oldparent oldname none).place newparent newname old).WellFormed := by
  constructor
  · rw [wellFormed.shape_moved entry dir]
    exact @DirectoryTree.WellFormed.moved _ _ _ _ _ _ wellFormed.shape old (oldparent, oldname)
      (newparent, newname) entry (nameFree.free live dir) notAbove
  · rw [files_place, next_place]
    exact wellFormed.next

theorem WellFormed.shape_replaced {new : Nat}
    (different : (oldparent, oldname) ≠ (newparent, newname))
    (entry : tree.entry oldparent oldname = some old)
    (taken : tree.entry newparent newname = some new) :
    ((((tree.fsUnlink new).setEntry oldparent oldname none).place newparent newname old).setParent
      new none).shape =
        (((tree.shape.detach (newparent, newname) new).dropLink new).detach (oldparent, oldname)
          old).attach (newparent, newname) old := by
  have placed := wellFormed.placed entry
  have unlinked := shape_fsUnlink (wellFormed.linkCount_pos taken)
  have stillDir : ∀ {t}, tree.isDir t = true → (tree.fsUnlink new).isDir t = true := by
    intro t dir
    have shapeDir : (tree.fsUnlink new).shape.dir t := unlinked ▸ dir
    exact shapeDir
  have emptied : ((tree.fsUnlink new).setEntry oldparent oldname none).shape =
      { tree.shape.dropLink new with
        entry := Function.update tree.shape.entry (oldparent, oldname) none } := by
    rw [shape_setEntry (stillDir placed.from_dir), unlinked]
    rfl
  have fileParent : ((tree.fsUnlink new).setEntry oldparent oldname none).isDir old = false →
      ((tree.fsUnlink new).setEntry oldparent oldname none).shape.parent old = none := by
    intro file
    have shapeFile : ¬ ((tree.fsUnlink new).setEntry oldparent oldname none).shape.dir old := by
      intro isDir
      cases file.symm.trans isDir
    rw [emptied] at shapeFile ⊢
    exact wellFormed.shape.file_parent placed.live shapeFile
  -- a directory has one entry, so the two places lead to different directories
  have sameFile : old = new → ¬ tree.shape.dir old := by
    intro same isDir
    exact different (@DirectoryTree.WellFormed.dir_entry_unique _ _ _ _ _ _ wellFormed.shape
      (newparent, newname) (oldparent, oldname) old isDir (same ▸ taken) entry)
  rw [shape_setParent, shape_place _ newname fileParent, emptied,
    ← DirectoryTree.detach_replaced sameFile]
  rw [isDir_setEntry]
  exact stillDir (wellFormed.placed taken).from_dir

theorem WellFormed.replaced {new : Nat}
    (different : (oldparent, oldname) ≠ (newparent, newname))
    (entry : tree.entry oldparent oldname = some old)
    (taken : tree.entry newparent newname = some new) (empty : ∀ name, tree.entry new name = none)
    (notAbove : ¬ tree.shape.Above old newparent) :
    ((((tree.fsUnlink new).setEntry oldparent oldname none).place newparent newname old).setParent
      new none).WellFormed := by
  constructor
  · rw [wellFormed.shape_replaced different entry taken]
    exact @DirectoryTree.WellFormed.replaced _ _ _ _ _ _ wellFormed.shape (oldparent, oldname)
      (newparent, newname) old new different entry taken empty notAbove
  · intro other beyond
    simp only [setParent, setEntry, update, next_place, next_fsUnlink] at beyond
    simp only [setParent, setEntry, update, files_place]
    exact files_fsUnlink (wellFormed.next other beyond)

theorem WellFormed.shape_exchanged {parent1 n1 parent2 n2 : Nat}
    {name1 name2 : Bytes} (entry1 : tree.entry parent1 name1 = some n1)
    (entry2 : tree.entry parent2 name2 = some n2) :
    ((tree.place parent1 name1 n2).place parent2 name2 n1).shape =
        (tree.shape.attach (parent1, name1) n2).attach (parent2, name2) n1 := by
  have placed1 := wellFormed.placed entry1
  have placed2 := wellFormed.placed entry2
  have first := shape_place placed1.from_dir name1 (wellFormed.fileParent placed2.live)
  have stillDir : (tree.place parent1 name1 n2).shape.dir parent2 := by
    rw [first]
    exact placed2.from_dir
  have fileParent : (tree.place parent1 name1 n2).isDir n1 = false →
      (tree.place parent1 name1 n2).shape.parent n1 = none := by
    intro file
    have shapeFile : ¬ (tree.place parent1 name1 n2).shape.dir n1 := by
      intro isDir
      cases file.symm.trans isDir
    rw [first] at shapeFile ⊢
    by_cases same : n1 = n2
    · rw [same] at shapeFile ⊢
      exact (update_self ..).trans (if_neg shapeFile)
    · exact (update_of_ne same ..).trans
        (wellFormed.shape.file_parent placed1.live shapeFile)
  rw [shape_place stillDir name2 fileParent, first]

theorem WellFormed.exchanged {parent1 n1 parent2 n2 : Nat}
    {name1 name2 : Bytes} (different : (parent1, name1) ≠ (parent2, name2))
    (entry1 : tree.entry parent1 name1 = some n1) (entry2 : tree.entry parent2 name2 = some n2)
    (notAbove1 : ¬ tree.shape.Above n1 parent2) (notAbove2 : ¬ tree.shape.Above n2 parent1) :
    ((tree.place parent1 name1 n2).place parent2 name2 n1).WellFormed := by
  constructor
  · rw [wellFormed.shape_exchanged entry1 entry2, ← DirectoryTree.detach_exchanged]
    exact @DirectoryTree.WellFormed.exchanged _ _ _ _ _ _ wellFormed.shape (parent1, name1)
      (parent2, name2) n1 n2 different entry1 entry2 notAbove1 notAbove2
  · rw [files_place, files_place, next_place, next_place]
    exact wellFormed.next

end

end FileTree

theorem Resolution.target_live {tree : FileTree} {resolution : Resolution} {found : PathTarget}
    (live : resolution.Live tree) (target : resolution.target = .go found) :
    tree.files found.parent = true := by
  unfold Resolution.target at target
  split at target <;> cases target
  · exact live.2
  · exact live

theorem Resolution.missing_live {tree : FileTree} {resolution : Resolution} {status : Status}
    {parent : Nat} (live : resolution.Live tree)
    (missing : resolution.missing status = .go parent) : tree.files parent = true := by
  unfold Resolution.missing at missing
  split at missing <;> cases missing
  exact live

/-! ### Names that agree with the entries -/

def Prepared.All {Args : Type} (condition : Args → Prop) : Prepared Args → Prop
  | .go args => condition args
  | _ => True

instance {Args : Type} (condition : Args → Prop) [DecidablePred condition] :
    (prepared : Prepared Args) → Decidable (prepared.All condition)
  | .fault => isTrue trivial
  | .done _ => isTrue trivial
  | .go args => inferInstanceAs (Decidable (condition args))

def RenameArgs.Agree (args : RenameArgs) (tree : FileTree) : Prop :=
  tree.entry args.oldparent args.oldname = some args.old ∧
    if args.new.isSome then tree.entry args.newparent args.newname = args.new
    else tree.NameFree args.newparent args.newname

instance (args : RenameArgs) (tree : FileTree) : Decidable (args.Agree tree) :=
  inferInstanceAs (Decidable (tree.entry args.oldparent args.oldname = some args.old ∧
    if args.new.isSome then tree.entry args.newparent args.newname = args.new
    else tree.NameFree args.newparent args.newname))

def ExchangeArgs.Agree (args : ExchangeArgs) (tree : FileTree) : Prop :=
  tree.entry args.parent1 args.name1 = some args.n1 ∧
    tree.entry args.parent2 args.name2 = some args.n2

instance (args : ExchangeArgs) (tree : FileTree) : Decidable (args.Agree tree) :=
  inferInstanceAs (Decidable (_ ∧ _))

/-- The names that a call takes from the text of its paths agree with what it
has found by resolving them, if it comes to use them: a new name is a plain one
that no directory has, and the name of an entry leads to the tuple found. -/
def FsCall.NamesAgree (depth : Nat) (fs : Tfs) : FsCall → Prop
  | .mkdir cwd path =>
    (fs.prepareMkdir depth cwd path).All fun args => fs.tree.NameFree args.parent args.name
  | .create cwd path follow excl =>
    (fs.prepareCreate depth cwd path follow excl).All fun args =>
      fs.tree.NameFree args.parent args.name
  | .symlink cwd path target =>
    (fs.prepareSymlink depth cwd path target).All fun args =>
      fs.tree.NameFree args.parent args.name
  | .link oldwd oldpath newwd newpath follow =>
    (fs.prepareLink depth oldwd oldpath newwd newpath follow).All fun args =>
      fs.tree.NameFree args.newparent args.newname
  | .delete cwd path directory =>
    (fs.prepareDelete depth cwd path directory).All fun args =>
      fs.tree.entry args.parent args.name = some args.t
  | .rename oldwd oldpath newwd newpath noreplace =>
    (fs.prepareRename depth oldwd oldpath newwd newpath noreplace).All fun args =>
      (fs.fsCheckRename args).All fun _ => args.Agree fs.tree
  | .exchange wd1 path1 wd2 path2 =>
    (fs.prepareExchange depth wd1 path1 wd2 path2).All fun args =>
      (fs.fsCheckExchange args).All fun _ => args.Agree fs.tree

instance (depth : Nat) (fs : Tfs) : (call : FsCall) → Decidable (call.NamesAgree depth fs)
  | .mkdir .. => inferInstanceAs (Decidable (Prepared.All _ _))
  | .create .. => inferInstanceAs (Decidable (Prepared.All _ _))
  | .symlink .. => inferInstanceAs (Decidable (Prepared.All _ _))
  | .link .. => inferInstanceAs (Decidable (Prepared.All _ _))
  | .delete .. => inferInstanceAs (Decidable (Prepared.All _ _))
  | .rename .. => inferInstanceAs (Decidable (Prepared.All _ _))
  | .exchange .. => inferInstanceAs (Decidable (Prepared.All _ _))

namespace Tfs

variable {fs fs' : Tfs} {depth : Nat} {answers : Nat → LogAnswer} {status : Status}

variable {cwd : Nat} {path : Bytes} {next : Unit} {args : RenameArgs}

section

variable (wellFormed : fs.tree.WellFormed)

include wellFormed

theorem resolvePath_live (follow : Bool)
    (live : fs.tree.files cwd = true) (path : Bytes) :
    (fs.resolvePath depth follow cwd path).Live fs.tree := by
  rw [resolvePath]
  split
  · exact wellFormed.resolveFollow_live depth live path
  · exact wellFormed.resolve_live depth live path

variable {args : EntryArgs}

theorem prepareMkdir_live (prepared : fs.prepareMkdir depth cwd path = .go args) :
    fs.tree.files args.parent = true := by
  simp only [prepareMkdir, bind_eq_go, getMeta, require_eq_go] at prepared
  obtain ⟨-, live, parent, missing, rest⟩ := prepared
  split at rest
  · cases rest
  · cases rest
    exact Resolution.missing_live (wellFormed.resolve_live depth live path) missing

theorem prepareCreate_live {follow excl : Bool}
    (prepared : fs.prepareCreate depth cwd path follow excl = .go args) :
    fs.tree.files args.parent = true := by
  simp only [prepareCreate, bind_eq_go, getMeta, require_eq_go] at prepared
  obtain ⟨-, live, parent, missing, rest⟩ := prepared
  cases rest
  exact Resolution.missing_live (resolvePath_live wellFormed follow live path) missing

theorem prepareSymlink_live {target : Bytes}
    (prepared : fs.prepareSymlink depth cwd path target = .go args) :
    fs.tree.files args.parent = true := by
  simp only [prepareSymlink, bind_eq_go, getMeta, require_eq_go] at prepared
  obtain ⟨-, -, -, live, parent, missing, rest⟩ := prepared
  cases rest
  exact Resolution.missing_live (wellFormed.resolve_live depth live path) missing

end

/-- What a link is made of: a file, and a parent in the table of files. -/
structure LinkArgs.Found (args : LinkArgs) (tree : FileTree) : Prop where
  newparent : tree.files args.newparent = true
  old : tree.files args.old = true
  file : tree.isDir args.old = false
  linkCount : args.linkCount = tree.linkCount args.old

theorem prepareLink_found (wellFormed : fs.tree.WellFormed) {oldwd newwd : Nat}
    {oldpath newpath : Bytes} {follow : Bool} {args : LinkArgs}
    (prepared : fs.prepareLink depth oldwd oldpath newwd newpath follow = .go args) :
    LinkArgs.Found args fs.tree := by
  simp only [prepareLink, bind_eq_go, getMeta, require_eq_go] at prepared
  obtain ⟨-, -, -, oldwdLive, old, existing, -, file, -, newwdLive, newparent, missing, -, -, -,
    oldLive, -, -, -, -, rest⟩ := prepared
  cases rest
  exact ⟨Resolution.missing_live (wellFormed.resolve_live depth newwdLive newpath) missing,
    oldLive, by simpa using file, rfl⟩

theorem prepareDelete_found {directory : Bool} {args : DeleteArgs}
    (prepared : fs.prepareDelete depth cwd path directory = .go args) (name : Bytes) :
    fs.tree.entry args.t name = none := by
  simp only [prepareDelete, bind_eq_go, getMeta, require_eq_go] at prepared
  obtain ⟨-, -, found, -, checks⟩ := prepared
  split at checks
  · simp only [bind_eq_go, require_eq_go] at checks
    obtain ⟨-, -, -, isEmpty, -, -, rest⟩ := checks
    split at rest <;> cases rest
    exact FileTree.entry_of_isEmpty isEmpty name
  · simp only [bind_eq_go, require_eq_go] at checks
    obtain ⟨-, file, -, -, rest⟩ := checks
    split at rest <;> cases rest
    exact FileTree.entry_of_file (by simpa using file) name

theorem prepareRename_found (wellFormed : fs.tree.WellFormed) {oldwd newwd : Nat}
    {oldpath newpath : Bytes} {noreplace : Bool}
    (prepared : fs.prepareRename depth oldwd oldpath newwd newpath noreplace = .go args) :
    fs.tree.files args.newparent = true ∧
      ¬ (args.newparent = args.oldparent ∧ args.new = some args.old) := by
  simp only [prepareRename, bind_eq_go, getMeta, require_eq_go] at prepared
  obtain ⟨-, -, -, -, old, -, -, newwdLive, new, target, oldparent, -, -, -, rest⟩ := prepared
  split at rest
  · cases rest
  · rename_i different
    cases rest
    exact ⟨Resolution.target_live (wellFormed.resolve_live depth newwdLive newpath) target,
      different⟩

theorem prepareExchange_found {wd1 wd2 : Nat} {path1 path2 : Bytes} {args : ExchangeArgs}
    (prepared : fs.prepareExchange depth wd1 path1 wd2 path2 = .go args) :
    ¬ (args.parent2 = args.parent1 ∧ some args.n2 = some args.n1) := by
  simp only [prepareExchange, bind_eq_go] at prepared
  obtain ⟨-, -, n1, -, -, -, n2, -, parent1, -, rest⟩ := prepared
  split at rest
  · cases rest
  · split at rest
    · cases rest
    · rename_i different
      cases rest
      rintro ⟨sameParent, same⟩
      exact different ⟨sameParent.symm, (Option.some.inj same).symm⟩

theorem checkAncestor_notAbove {t p : Nat} (checked : fs.checkAncestor t p = .go next) :
    ¬ fs.tree.shape.Above t p := by
  rw [checkAncestor] at checked
  split at checked
  · cases checked
  · rename_i isAncestor climbed
    rw [require_eq_go, Bool.not_eq_true'] at checked
    rw [checked] at climbed
    exact FileTree.not_above_of_climb climbed

theorem fsCheckRename_found (checked : fs.fsCheckRename args = .go next) :
    (∀ new, args.new = some new → ∀ name, fs.tree.entry new name = none) ∧
      ¬ fs.tree.shape.Above args.old args.newparent := by
  rw [fsCheckRename] at checked
  split at checked
  · rename_i noNew
    refine ⟨?_, checkAncestor_notAbove checked⟩
    intro new isNew
    cases noNew.symm.trans isNew
  · rename_i new isNew
    suffices found : (∀ name, fs.tree.entry new name = none) ∧
        ¬ fs.tree.shape.Above args.old args.newparent by
      refine ⟨?_, found.2⟩
      intro other isOther
      cases isNew.symm.trans isOther
      exact found.1
    split at checked
    · simp only [bind_eq_go, require_eq_go] at checked
      obtain ⟨-, -, -, isEmpty, ancestor⟩ := checked
      exact ⟨FileTree.entry_of_isEmpty isEmpty, checkAncestor_notAbove ancestor⟩
    · rename_i file
      simp only [bind_eq_go] at checked
      obtain ⟨-, -, ancestor⟩ := checked
      exact ⟨FileTree.entry_of_file (by simpa using file), checkAncestor_notAbove ancestor⟩

/-! ### What the calls keep -/

@[simp]
theorem writeEav_tree (fs : Tfs) (answer : LogAnswer) (record : LogRecord) :
    (fs.writeEav answer record).1.tree = fs.tree := by
  simp only [writeEav]
  split
  · split
    · rfl
    · split <;> rfl
  · rfl

@[simp]
theorem writeBoth_tree (fs : Tfs) (answers : Nat → LogAnswer) (first second : LogRecord) :
    (fs.writeBoth answers first second).1.tree = fs.tree := by
  simp only [writeBoth]
  split
  · rw [writeEav_tree, writeEav_tree]
  · rw [writeEav_tree]

@[simp]
theorem fileUnlink_tree (fs : Tfs) (answer : LogAnswer) (t : Nat) :
    (fs.fileUnlink answer t).tree = fs.tree.fsUnlink t := by
  simp only [fileUnlink]
  split
  · rw [writeEav_tree]
    rfl
  · rfl

theorem createDirEntry_cases {parent : Nat} {name : Bytes} {node : FileNode}
    (created : fs.createDirEntry answers parent name node = some (fs', status)) :
    (status ≠ .ok () ∧ fs'.tree = fs.tree) ∨
      fs.tree.isDir parent = true ∧
        fs'.tree = ((fs.tree.newEntry node).setFile fs.tree.next true).place parent name
          fs.tree.next := by
  revert created
  fun_cases createDirEntry <;> rintro ⟨⟩
  case case1 => exact .inl ⟨nofun, rfl⟩
  case case3 dir _ _ _ _ => exact .inr ⟨by simpa using dir, rfl⟩
  case case4 => exact .inl ⟨nofun, writeEav_tree ..⟩

theorem commitLink_cases {args : LinkArgs}
    (linked : fs.commitLink answers args = some (fs', status)) :
    (status ≠ .ok () ∧ fs'.tree = (fs.tree.setNlink args.old (args.linkCount + 1)).setNlink
        args.old args.linkCount) ∨
      fs.tree.isDir args.newparent = true ∧
        fs'.tree = (fs.tree.setNlink args.old (args.linkCount + 1)).place args.newparent
          args.newname args.old := by
  simp only [commitLink, linkDirEntry] at linked
  split at linked
  · cases linked
  · rename_i made isMade
    cases linked
    split at isMade
    · cases isMade
    split at isMade
    · cases isMade
    rename_i dir
    split at isMade
    · cases isMade
      simp only [setTree, FileTree.isDir_setNlink, Bool.not_eq_false] at dir
      exact .inr ⟨dir, rfl⟩
    · cases isMade
  · rename_i failed err isFailed
    cases linked
    split at isFailed
    · cases isFailed
      exact .inl ⟨nofun, rfl⟩
    split at isFailed
    · cases isFailed
    split at isFailed
    · cases isFailed
    · cases isFailed
      refine .inl ⟨nofun, ?_⟩
      rw [setTree, writeBoth_tree]
      rfl

theorem commitDelete_cases {args : DeleteArgs}
    (deleted : fs.commitDelete answers args = some (fs', status)) :
    fs'.tree = fs.tree ∨
      fs'.tree = ((fs.tree.fsUnlink args.t).setEntry args.parent args.name none).setParent args.t
        none := by
  simp only [commitDelete] at deleted
  split at deleted
  · cases deleted
  split at deleted
  · cases deleted
    simp only [setTree, fileUnlink_tree, writeEav_tree, or_true]
  · cases deleted
    exact .inl (writeEav_tree ..)

theorem commitRename_cases (renamed : fs.commitRename answers args = some (fs', status)) :
    fs'.tree = fs.tree ∨ fs.fsCheckRename args = .go () ∧ fs.tree.isDir args.newparent = true ∧
      ((args.new = none ∧
          fs'.tree = (fs.tree.setEntry args.oldparent args.oldname none).place args.newparent
            args.newname args.old) ∨
        ∃ new, args.new = some new ∧
          fs'.tree = (((fs.tree.fsUnlink new).setEntry args.oldparent args.oldname none).place
            args.newparent args.newname args.old).setParent new none) := by
  simp only [commitRename, proceed] at renamed
  split at renamed
  · cases renamed
  · cases renamed
    exact .inl rfl
  rename_i checked
  split at renamed
  · cases renamed
  rename_i dirs
  have dir : fs.tree.isDir args.newparent = true := by
    simpa using (not_or.mp dirs).2
  split at renamed
  · refine .inr ⟨checked, dir, ?_⟩
    cases isNew : args.new with
    | none =>
      rw [isNew] at renamed
      cases renamed
      simp only [setTree, writeBoth_tree, FileTree.place, true_and, true_or]
    | some new =>
      rw [isNew] at renamed
      cases renamed
      refine .inr ⟨new, rfl, ?_⟩
      simp only [setTree, fileUnlink_tree, writeBoth_tree, FileTree.place]
  · cases renamed
    exact .inl (writeBoth_tree ..)

theorem commitExchange_cases {args : ExchangeArgs}
    (exchanged : fs.commitExchange answers args = some (fs', status)) :
    fs'.tree = fs.tree ∨ fs.fsCheckExchange args = .go () ∧
      fs'.tree = (fs.tree.place args.parent1 args.name1 args.n2).place args.parent2
        args.name2 args.n1 := by
  simp only [commitExchange, proceed] at exchanged
  split at exchanged
  · cases exchanged
  · cases exchanged
    exact .inl rfl
  rename_i checked
  split at exchanged
  · cases exchanged
  split at exchanged
  · cases exchanged
    exact .inr ⟨checked, rfl⟩
  · cases exchanged
    exact .inl (writeBoth_tree ..)

theorem keys_ne {tree : FileTree} {parent1 parent2 t1 t2 : Nat} {name1 name2 : Bytes}
    (entry1 : tree.entry parent1 name1 = some t1) (entry2 : tree.entry parent2 name2 = some t2)
    (different : ¬ (parent2 = parent1 ∧ some t2 = some t1)) :
    (parent1, name1) ≠ (parent2, name2) := by
  rintro ⟨⟩
  exact different ⟨rfl, entry2.symm.trans entry1⟩

theorem newDir_fresh : newDir.Fresh :=
  ⟨by rintro _ ⟨⟩; rfl, rfl, rfl⟩

theorem file_fresh (linktarget : Option Bytes) :
    { FileNode.empty with linktarget := linktarget }.Fresh :=
  ⟨by rintro _ ⟨⟩, rfl, rfl⟩

theorem proceed_rule {Args : Type} {prepared : Prepared Args}
    {commit : Args → Option (Tfs × Status)} {property : FileTree → Prop} (before : property fs.tree)
    (keeps : ∀ args, prepared = .go args → commit args = some (fs', status) → property fs'.tree)
    (called : fs.proceed prepared commit = some (fs', status)) : property fs'.tree := by
  cases prepared with
  | fault => cases called
  | done status =>
    cases called
    exact before
  | go args => exact keeps args rfl called

section

variable (wellFormed : fs.tree.WellFormed)

include wellFormed

theorem createDirEntry_wellFormed {parent : Nat} {name : Bytes}
    (live : fs.tree.files parent = true) (nameFree : fs.tree.NameFree parent name)
    {node : FileNode} (fresh : node.Fresh)
    (created : fs.createDirEntry answers parent name node = some (fs', status)) :
    fs'.tree.WellFormed := by
  rcases createDirEntry_cases created with ⟨-, same⟩ | ⟨dir, same⟩ <;> rw [same]
  · exact wellFormed
  · exact wellFormed.created live dir nameFree fresh

/-- A call whose names agree with the entries keeps the tree well formed,
whatever the log answers. -/
theorem call_wellFormed {call : FsCall}
    (agree : call.NamesAgree depth fs) (called : fs.call depth answers call = some (fs', status)) :
    fs'.tree.WellFormed := by
  cases call
  all_goals
    refine proceed_rule wellFormed (fun args prepared committed => ?_) called
    simp only [FsCall.NamesAgree, prepared, Prepared.All] at agree
  case mkdir =>
    exact createDirEntry_wellFormed wellFormed (prepareMkdir_live wellFormed prepared) agree
      newDir_fresh committed
  case create =>
    exact createDirEntry_wellFormed wellFormed (prepareCreate_live wellFormed prepared) agree
      (file_fresh none) committed
  case symlink =>
    exact createDirEntry_wellFormed wellFormed (prepareSymlink_live wellFormed prepared) agree
      (file_fresh _) committed
  case link =>
    have found := prepareLink_found wellFormed prepared
    rcases commitLink_cases committed with ⟨-, same⟩ | ⟨dir, same⟩ <;> rw [same, found.linkCount]
    · constructor
      · rw [FileTree.shape_setNlink_back]
        exact wellFormed.shape
      · exact wellFormed.next
    · exact wellFormed.linked found.newparent dir agree found.old found.file
  case delete =>
    rcases commitDelete_cases committed with same | same <;> rw [same]
    · exact wellFormed
    · exact wellFormed.removed agree (prepareDelete_found prepared)
  case rename =>
    rcases commitRename_cases committed with same | ⟨checked, dir, edited⟩
    · rwa [same]
    simp only [checked] at agree
    obtain ⟨live, different⟩ := prepareRename_found wellFormed prepared
    obtain ⟨empty, notAbove⟩ := fsCheckRename_found checked
    obtain ⟨entry, target⟩ := agree
    rcases edited with ⟨isNew, same⟩ | ⟨new, isNew, same⟩ <;> rw [isNew] at target <;> rw [same]
    · exact wellFormed.moved entry live dir target notAbove
    · exact wellFormed.replaced (keys_ne entry target (isNew ▸ different)) entry target
        (empty new isNew) notAbove
  case exchange =>
    rcases commitExchange_cases committed with same | ⟨checked, same⟩ <;> rw [same]
    · exact wellFormed
    simp only [checked] at agree
    simp only [fsCheckExchange, bind_eq_go] at checked
    obtain ⟨_, above1, above2⟩ := checked
    exact wellFormed.exchanged (keys_ne agree.1 agree.2 (prepareExchange_found prepared)) agree.1
      agree.2 (checkAncestor_notAbove above1) (checkAncestor_notAbove above2)

end

end Tfs

end Jerboa.Kernel
