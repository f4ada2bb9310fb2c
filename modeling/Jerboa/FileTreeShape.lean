import Jerboa.DirectoryEdits
import Jerboa.FileTreeCalls

/-!
# The shape of a filesystem tree

The directory tree that the tuples of a filesystem stand for: the entries, the
`..` of the directories, the link counts, and the tuples in the table of files.
The changes that the calls make to tuples are edits of this directory tree, and
the resolution of a path stays on tuples in the table of files.
-/

namespace Jerboa.Kernel

open Utf8Text Function

def PlainName (name : Bytes) : Prop :=
  name ≠ [] ∧ name ≠ dot ∧ name ≠ dotDot

instance (name : Bytes) : Decidable (PlainName name) :=
  inferInstanceAs (Decidable (_ ∧ _ ∧ _))

/-- A node as the calls create it. -/
structure FileNode.Fresh (node : FileNode) : Prop where
  empty : ∀ children, node.children = some children → children = ∅
  parent : node.parent = none
  nlink : node.nlink = none

namespace FileTree

def shape (tree : FileTree) : DirectoryTree Nat Bytes where
  root := tree.root
  entry key := tree.entry key.1 key.2
  dir t := tree.isDir t = true
  parent t := (tree.nodes t).parent
  count := tree.linkCount
  live t := tree.files t = true

/-- The directory tree is well formed, and new tuples have numbers of their
own. -/
structure WellFormed (tree : FileTree) : Prop where
  shape : tree.shape.WellFormed PlainName []
  next : ∀ t, tree.next ≤ t → tree.files t = false

variable {tree : FileTree}

/-! ### Changes of tuples -/

theorem nodes_update (tree : FileTree) (t : Nat) (change : FileNode → FileNode) (other : Nat) :
    (tree.update t change).nodes other =
      if other = t then change (tree.nodes t) else tree.nodes other := by
  simp only [update, update_apply]

theorem field_update {α : Type} (field : FileNode → α) {change : FileNode → FileNode}
    (kept : ∀ node, field (change node) = field node) (tree : FileTree) (t other : Nat) :
    field ((tree.update t change).nodes other) = field (tree.nodes other) := by
  rw [nodes_update]
  split
  · rename_i same
    rw [kept, same]
  · rfl

theorem shape_setParent (tree : FileTree) (t : Nat) (parent : Option Nat) :
    (tree.setParent t parent).shape =
      { tree.shape with parent := Function.update tree.shape.parent t parent } := by
  apply DirectoryTree.ext
  · rfl
  · funext key
    simp only [shape, entry, setParent]
    rw [field_update FileNode.children]
    intro node
    rfl
  · funext other
    simp only [shape, isDir, setParent]
    rw [field_update FileNode.children]
    intro node
    rfl
  · funext other
    simp only [shape, setParent, nodes_update, update_apply]
    split <;> rfl
  · funext other
    simp only [shape, linkCount, setParent]
    rw [field_update FileNode.nlink]
    intro node
    rfl
  · rfl

theorem shape_setNlink (tree : FileTree) (t count : Nat) :
    (tree.setNlink t count).shape =
      { tree.shape with count := Function.update tree.shape.count t count } := by
  apply DirectoryTree.ext
  · rfl
  · funext key
    simp only [shape, entry, setNlink]
    rw [field_update FileNode.children]
    intro node
    rfl
  · funext other
    simp only [shape, isDir, setNlink]
    rw [field_update FileNode.children]
    intro node
    rfl
  · funext other
    apply field_update FileNode.parent
    intro node
    rfl
  · funext other
    simp only [shape, linkCount, setNlink, nodes_update, update_apply]
    split <;> rfl
  · rfl

theorem shape_setNlink_back (tree : FileTree) (t count : Nat) :
    ((tree.setNlink t count).setNlink t (tree.linkCount t)).shape = tree.shape := by
  rw [shape_setNlink, shape_setNlink]
  apply DirectoryTree.ext <;> try rfl
  exact (update_idem ..).trans (update_eq_self ..)

@[simp]
theorem isDir_setNlink (tree : FileTree) (t count other : Nat) :
    (tree.setNlink t count).isDir other = tree.isDir other := by
  simp only [isDir, setNlink]
  rw [field_update FileNode.children]
  intro node
  rfl

@[simp]
theorem linkCount_setNlink (tree : FileTree) (t count : Nat) :
    (tree.setNlink t count).linkCount t = count := by
  simp only [linkCount, setNlink, nodes_update, if_true, Option.getD_some]

theorem entry_setEntry {t : Nat} (dir : tree.isDir t = true) (name : Bytes) (child : Option Nat)
    (other : Nat) (key : Bytes) :
    (tree.setEntry t name child).entry other key =
      if (other, key) = (t, name) then child else tree.entry other key := by
  obtain ⟨children, isChildren⟩ := Option.isSome_iff_exists.mp dir
  simp only [entry, setEntry, nodes_update, Prod.mk.injEq]
  by_cases same : other = t
  · subst same
    rw [if_pos rfl, isChildren]
    cases child with
    | none => simp [ValueMap.lookup_erase_cases]
    | some child => simp [ValueMap.lookup_insert_cases]
  · rw [if_neg same, if_neg fun both => same both.1]

@[simp]
theorem isDir_setEntry (tree : FileTree) (t : Nat) (name : Bytes) (child : Option Nat)
    (other : Nat) : (tree.setEntry t name child).isDir other = tree.isDir other := by
  simp only [isDir, setEntry, nodes_update]
  split
  · rename_i same
    rw [same, Option.isSome_map]
  · rfl

theorem shape_setEntry {t : Nat} (dir : tree.isDir t = true) (name : Bytes)
    (child : Option Nat) :
    (tree.setEntry t name child).shape =
      { tree.shape with entry := Function.update tree.shape.entry (t, name) child } := by
  apply DirectoryTree.ext
  · rfl
  · funext key
    simp only [shape, entry_setEntry dir, update_apply]
  · funext other
    simp only [shape, isDir_setEntry]
  · funext other
    apply field_update FileNode.parent
    intro node
    rfl
  · funext other
    simp only [shape, linkCount, setEntry]
    rw [field_update FileNode.nlink]
    intro node
    rfl
  · rfl

theorem shape_setFile (tree : FileTree) (t : Nat) (present : Bool) :
    (tree.setFile t present).shape =
      { tree.shape with live := Function.update tree.shape.live t (present = true) } := by
  apply DirectoryTree.ext <;> try rfl
  funext other
  simp only [shape, setFile, update_apply]
  split <;> rfl

/-- A tuple as an entry, which a directory has as its parent. -/
def place (tree : FileTree) (parent : Nat) (name : Bytes) (t : Nat) : FileTree :=
  (tree.setEntry parent name (some t)).fsdirSetParent t parent

theorem shape_place {parent : Nat} (dir : tree.isDir parent = true) (name : Bytes) {t : Nat}
    (fileParent : tree.isDir t = false → (tree.nodes t).parent = none) :
    (tree.place parent name t).shape = tree.shape.attach (parent, name) t := by
  rw [place, fsdirSetParent, isDir_setEntry]
  cases isDir : tree.isDir t with
  | true =>
    have shapeDir : tree.shape.dir t := isDir
    rw [if_pos rfl, shape_setParent, shape_setEntry dir, DirectoryTree.attach, if_pos shapeDir]
  | false =>
    have shapeFile : ¬ tree.shape.dir t := Bool.not_eq_true _ ▸ isDir
    have none : tree.shape.parent t = none := fileParent isDir
    rw [if_neg (by simp), shape_setEntry dir, DirectoryTree.attach, if_neg shapeFile, ← none,
      update_eq_self]

theorem shape_fsUnlink {t : Nat} (counted : 1 ≤ tree.linkCount t) :
    (tree.fsUnlink t).shape = tree.shape.dropLink t := by
  have left : tree.linksLeft t = tree.linkCount t - 1 := by
    rw [linksLeft, if_neg (by omega)]
  rw [fsUnlink, left, DirectoryTree.dropLink]
  by_cases last : tree.linkCount t = 1
  · rw [if_pos (by omega), shape_setFile]
    simp only [shape, last, if_true, Bool.false_eq_true]
  · rw [if_neg (by omega), shape_setNlink]
    simp only [shape, last, if_false]

theorem shape_newEntry (wellFormed : tree.WellFormed) {node : FileNode} (fresh : node.Fresh) :
    ((tree.newEntry node).setFile tree.next true).shape =
      tree.shape.adopt tree.next node.children.isSome := by
  have noEntry : ∀ name, tree.entry tree.next name = none := by
    intro name
    by_contra present
    obtain ⟨t, found⟩ := Option.ne_none_iff_exists'.mp present
    have live := (@DirectoryTree.WellFormed.placed _ _ _ _ _ _ wellFormed.shape
      (tree.next, name) t found).from_live
    have dead := wellFormed.next tree.next le_rfl
    cases dead.symm.trans live
  rw [shape_setFile]
  apply DirectoryTree.ext
  · rfl
  · funext key
    simp only [shape, entry, newEntry, DirectoryTree.adopt, update_apply]
    split
    · rename_i same
      have old := noEntry key.2
      rw [entry] at old
      rw [same, old]
      cases children : node.children with
      | none => rfl
      | some children' =>
        rw [fresh.empty children' children]
        rfl
    · rfl
  · funext other
    simp only [shape, isDir, newEntry, DirectoryTree.adopt, update_apply]
    split <;> rfl
  · funext other
    simp only [shape, newEntry, DirectoryTree.adopt, update_apply]
    split
    · exact fresh.parent
    · rfl
  · funext other
    simp only [shape, linkCount, newEntry, DirectoryTree.adopt, update_apply]
    split
    · rw [fresh.nlink]
      rfl
    · rfl
  · funext other
    simp only [shape, newEntry, DirectoryTree.adopt]

theorem image_eq_of_shape {other : FileTree} (same : tree.shape = other.shape) :
    tree.image = other.image := by
  have entries : tree.entry = other.entry := by
    funext t name
    exact congrArg (fun shape => shape.entry (t, name)) same
  have counts : tree.linkCount = other.linkCount := congrArg DirectoryTree.count same
  rw [image, image, entries, counts]

/-! ### The table of files -/

section

variable (tree)

@[simp]
theorem files_place (parent : Nat) (name : Bytes) (t : Nat) :
    (tree.place parent name t).files = tree.files := by
  rw [place, fsdirSetParent]
  split <;> rfl

@[simp]
theorem next_place (parent : Nat) (name : Bytes) (t : Nat) :
    (tree.place parent name t).next = tree.next := by
  rw [place, fsdirSetParent]
  split <;> rfl

@[simp]
theorem next_fsUnlink (t : Nat) : (tree.fsUnlink t).next = tree.next := by
  rw [fsUnlink]
  split <;> rfl

end

theorem files_fsUnlink {t other : Nat} (absent : tree.files other = false) :
    (tree.fsUnlink t).files other = false := by
  rw [fsUnlink]
  split
  · simp only [setFile, update_apply, absent, ite_self]
  · exact absent

end FileTree

/-! ### Resolution stays in the table of files -/

def Resolution.Live (tree : FileTree) : Resolution → Prop
  | .found entry parent => tree.files entry = true ∧ tree.files parent = true
  | .reached entry => tree.files entry = true
  | .failed _ (some parent) => tree.files parent = true
  | _ => True

def Followed.Live (tree : FileTree) : Followed → Prop
  | .to target => tree.files target = true
  | _ => True

namespace FileTree

variable {tree : FileTree}

section

variable (wellFormed : tree.WellFormed)

include wellFormed

theorem WellFormed.lookup_live {t found : Nat} {a : Bytes}
    (live : tree.files t = true) (lookup : tree.lookup t a = some found) :
    tree.files found = true := by
  rw [FileTree.lookup] at lookup
  split at lookup
  · exact (wellFormed.shape.parent_live live lookup).1
  · split at lookup
    · cases lookup
      exact live
    · exact (@DirectoryTree.WellFormed.placed _ _ _ _ _ _ wellFormed.shape (t, a) found lookup).live

theorem WellFormed.resolveLast_live {t p : Nat}
    (live : tree.files t = true) (parentLive : tree.files p = true) (pathEnd : PathEnd) :
    Resolution.Live tree (tree.resolveLast t p pathEnd) := by
  cases pathEnd with
  | last name =>
    rw [resolveLast]
    split
    · exact ⟨live, parentLive⟩
    · split
      · trivial
      · split
        · exact live
        · rename_i entry lookup
          exact ⟨wellFormed.lookup_live live lookup, live⟩
  | invalid => exact live
  | tooLong => exact parentLive

variable {followLinks : Nat → Nat → Followed}

theorem WellFormed.resolveSteps_live
    (follows : ∀ link parent, tree.files link = true → tree.files parent = true →
      Followed.Live tree (followLinks link parent))
    (pathEnd : PathEnd) (steps : List PathStep) {t p : Nat}
    (live : tree.files t = true) (parentLive : tree.files p = true) :
    Resolution.Live tree (tree.resolveSteps followLinks pathEnd t p steps) := by
  induction steps generalizing t p with
  | nil => exact wellFormed.resolveLast_live live parentLive pathEnd
  | cons step steps ih =>
    have reported : ∀ err, Resolution.Live tree
        (.failed err (if step.more then none else some t)) := by
      intro err
      split
      · trivial
      · exact live
    simp only [resolveSteps]
    split
    · exact reported .enoent
    · rename_i entry lookup
      have followed := follows entry t (wellFormed.lookup_live live lookup) live
      split
      · trivial
      · rename_i err _
        exact reported err
      · rename_i target isTarget
        rw [isTarget] at followed
        split
        · exact ih followed live
        · trivial

theorem WellFormed.start_live {cwd : Nat}
    (live : tree.files cwd = true) (path : Bytes) : tree.files (tree.start cwd path) = true := by
  rw [start]
  split
  · exact wellFormed.shape.root_live
  · exact live

theorem WellFormed.resolveWith_live
    (follows : ∀ link parent, tree.files link = true → tree.files parent = true →
      Followed.Live tree (followLinks link parent))
    {cwd : Nat} (live : tree.files cwd = true) (path : Bytes) :
    Resolution.Live tree (tree.resolveWith followLinks cwd path) := by
  rw [resolveWith]
  split
  · exact live
  · exact wellFormed.resolveSteps_live follows _ _ (wellFormed.start_live live path)
      (wellFormed.start_live live path)

end

theorem followHops_live {resolve : Nat → Bytes → Resolution}
    (resolves : ∀ cwd path, tree.files cwd = true → Resolution.Live tree (resolve cwd path))
    (hops : Nat) {link parent : Nat} (live : tree.files link = true)
    (parentLive : tree.files parent = true) :
    Followed.Live tree (tree.followHops resolve hops link parent) := by
  fun_induction tree.followHops resolve hops link parent with
  | case1 => exact live
  | case2 => trivial
  | case3 => trivial
  | case4 hops link parent target _ entry isReached =>
    have resolved := resolves parent target parentLive
    rwa [isReached] at resolved
  | case5 => trivial
  | case6 link parent target _ entry entryParent isFound _ hops ih =>
    have resolved := resolves parent target parentLive
    rw [isFound] at resolved
    exact ih resolved.1 resolved.2
  | case7 hops link parent target _ entry entryParent isFound _ =>
    have resolved := resolves parent target parentLive
    rw [isFound] at resolved
    exact resolved.1

theorem WellFormed.followLinks_live (wellFormed : tree.WellFormed) (depth : Nat) (link parent : Nat)
    (live : tree.files link = true) (parentLive : tree.files parent = true) :
    Followed.Live tree (tree.followLinks depth link parent) := by
  induction depth generalizing link parent with
  | zero =>
    rw [followLinks]
    split
    · trivial
    · exact live
  | succ depth ih =>
    rw [followLinks]
    split
    · apply followHops_live _ _ live parentLive
      intro cwd path cwdLive
      exact wellFormed.resolveWith_live ih cwdLive path
    · exact live

theorem WellFormed.resolve_live (wellFormed : tree.WellFormed) (depth : Nat) {cwd : Nat}
    (live : tree.files cwd = true) (path : Bytes) :
    Resolution.Live tree (tree.resolve depth cwd path) :=
  wellFormed.resolveWith_live (wellFormed.followLinks_live depth) live path

theorem WellFormed.resolveFollow_live (wellFormed : tree.WellFormed) (depth : Nat) {cwd : Nat}
    (live : tree.files cwd = true) (path : Bytes) :
    Resolution.Live tree (tree.resolveFollow depth cwd path) := by
  have resolved := wellFormed.resolve_live depth live path
  rw [resolveFollow]
  split
  · trivial
  · rename_i isFailed
    rwa [isFailed] at resolved
  · rename_i isReached
    rwa [isReached] at resolved
  · rename_i entry parent isFound
    rw [isFound] at resolved
    have followed := wellFormed.followLinks_live depth entry parent resolved.1 resolved.2
    split
    · trivial
    · exact resolved.2
    · rename_i target isTarget
      rw [isTarget] at followed
      exact ⟨followed, resolved.2⟩

end FileTree

end Jerboa.Kernel
