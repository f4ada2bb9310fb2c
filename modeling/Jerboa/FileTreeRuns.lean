import Jerboa.FileTreeSteps
import Jerboa.TransitionSystem

/-!
# Trees after any calls

In runs in which the names that the calls take from their paths agree with the
entries they find, the tree keeps its shape.  They do not agree for a path that
ends with a slash or a dot, and then a directory can be deleted and stay
reachable.
-/

namespace Jerboa.Kernel

open Utf8Text

/-! ### The shape that the tree keeps -/

namespace FileTree

variable {tree : FileTree}

def HasEntry (tree : FileTree) (dir t : Nat) : Prop :=
  ∃ name, tree.entry dir name = some t

def Reachable (tree : FileTree) (t : Nat) : Prop :=
  Relation.ReflTransGen tree.HasEntry tree.root t

/-- A directory that is reachable is in one directory under one name, and that
is its `..`; none is its own ancestor; nothing deleted is reachable; and the
names of entries are plain. -/
structure Sound (tree : FileTree) : Prop where
  one_entry : ∀ t, tree.Reachable t → tree.isDir t = true → t ≠ tree.root →
    ∃ dir name, tree.isDir dir = true ∧ tree.entry dir name = some t ∧
      (tree.nodes t).parent = some dir ∧
      ∀ dir' name', tree.entry dir' name' = some t → dir' = dir ∧ name' = name
  acyclic : ∀ t, tree.Reachable t → tree.isDir t = true →
    ¬ Relation.TransGen tree.HasEntry t t
  live : ∀ t, tree.Reachable t → tree.files t = true
  names : ∀ t name child, tree.Reachable t → tree.entry t name = some child → PlainName name

theorem WellFormed.reachable_live (wellFormed : tree.WellFormed) {t : Nat}
    (reachable : tree.Reachable t) : tree.files t = true := by
  induction reachable with
  | refl => exact wellFormed.shape.root_live
  | tail _ hasEntry _ =>
    obtain ⟨name, entry⟩ := hasEntry
    exact (wellFormed.placed entry).live

theorem WellFormed.above_of_entries (wellFormed : tree.WellFormed) {dir t : Nat}
    (isDir : tree.isDir t = true) (entries : Relation.TransGen tree.HasEntry dir t) :
    Relation.TransGen tree.shape.Under t dir := by
  induction entries with
  | single hasEntry =>
    obtain ⟨name, entry⟩ := hasEntry
    have placed := wellFormed.placed entry
    exact .single ⟨placed.ne_root, placed.parent isDir⟩
  | tail _ hasEntry ih =>
    obtain ⟨name, entry⟩ := hasEntry
    have placed := wellFormed.placed entry
    exact .head ⟨placed.ne_root, placed.parent isDir⟩ (ih placed.from_dir)

theorem WellFormed.sound (wellFormed : tree.WellFormed) : tree.Sound := by
  constructor
  · intro t reachable isDir notRoot
    have live := wellFormed.reachable_live reachable
    obtain ⟨key, entry⟩ := wellFormed.shape.dir_entry live isDir notRoot (List.not_mem_nil)
    have placed := wellFormed.shape.placed entry
    refine ⟨key.1, key.2, placed.from_dir, entry, placed.parent isDir, ?_⟩
    intro dir name other
    have same := @DirectoryTree.WellFormed.dir_entry_unique _ _ _ _ _ _ wellFormed.shape key
      (dir, name) t isDir entry other
    exact ⟨congrArg Prod.fst same, congrArg Prod.snd same⟩
  · intro t reachable isDir cycle
    have rooted := wellFormed.shape.rooted (wellFormed.reachable_live reachable) isDir
    exact DirectoryTree.not_transGen_of_rooted rooted (wellFormed.above_of_entries isDir cycle)
  · intro t reachable
    exact wellFormed.reachable_live reachable
  · intro t name child _ entry
    exact (wellFormed.placed entry).plain

end FileTree

namespace Tfs

def accepting (rebuild : Nat → Bool) (write : Nat) : LogAnswer :=
  ⟨true, rebuild write, true⟩

/-- Calls on a filesystem that is writable and starts with a well-formed tree,
with a stack that has room for `depth` calls following links. -/
def callSystem (depth : Nat) : TransitionSystem Tfs (FsCall × (Nat → Bool)) where
  initial fs := fs.ro = false ∧ fs.tree.WellFormed
  step fs label := (fs.call depth (accepting label.2) label.1).map Prod.fst

/-- In every run whose calls take names that agree with the entries found, the
tree keeps its shape. -/
theorem tree_sound_of_calls (depth : Nat) {fs : Tfs}
    (reached : (callSystem depth).ReachableUnder
      (fun fs label => label.1.NamesAgree depth fs) fs) :
    fs.tree.Sound := by
  apply FileTree.WellFormed.sound
  induction reached with
  | start first => exact first.2
  | next _ agree stepped wellFormed =>
    obtain ⟨result, called, rfl⟩ := Option.map_eq_some_iff.mp stepped
    exact call_wellFormed wellFormed agree called

def emptyRoot : FileTree where
  root := 0
  nodes t := if t = 0 then { newDir with parent := some 0 } else FileNode.empty
  files t := t = 0
  next := 1

theorem emptyRoot_entry (t : Nat) (name : Bytes) : emptyRoot.entry t name = none := by
  simp only [FileTree.entry, emptyRoot]
  split <;> rfl

theorem emptyRoot_wellFormed : emptyRoot.WellFormed := by
  have isRoot : ∀ {t}, emptyRoot.files t = true → t = 0 := by
    intro t live
    simpa [emptyRoot] using live
  have noEntry : ∀ {key t}, emptyRoot.shape.entry key ≠ some t := by
    intro key t entry
    cases (emptyRoot_entry key.1 key.2).symm.trans entry
  constructor
  · constructor
    case root_live => rfl
    case root_dir => rfl
    case root_parent => rfl
    case placed =>
      intro key t entry
      exact absurd entry noEntry
    case loose_live => simp
    case loose_ne_root => simp
    case loose_parent => simp
    case dir_entry =>
      intro t live _ notRoot
      exact absurd (isRoot live) notRoot
    case dir_count =>
      intro t live _
      rw [isRoot live]
      rfl
    case topped =>
      intro t live _
      exact ⟨0, .inl rfl, isRoot live ▸ .refl⟩
    case file_parent =>
      intro t live file
      exact absurd (isRoot live ▸ rfl) file
    case length_le =>
      intro keys t leads
      have noKeys : keys = [] := by
        apply List.eq_nil_iff_forall_not_mem.mpr
        intro key member
        exact noEntry (leads.entry key member)
      simp [noKeys]
  · intro t beyond
    have positive : 1 ≤ t := beyond
    simp only [emptyRoot, decide_eq_false_iff_not]
    omega

def emptyTfs : Tfs :=
  ⟨emptyRoot, false, emptyRoot.image, none⟩

def mkdirAndRename : List (FsCall × (Nat → Bool)) :=
  [(.mkdir 0 [0x64], fun _ => false), (.rename 0 [0x64] 0 [0x65] false, fun _ => false)]

theorem tree_sound_of_calls_rename :
    ∃ fs, (callSystem 0).runUnder (fun fs label => label.1.NamesAgree 0 fs) emptyTfs
        mkdirAndRename = some fs ∧
      fs.tree.entry 0 [0x65] = some 1 ∧ fs.tree.Sound := by
  have ends : ((callSystem 0).runUnder (fun fs label => label.1.NamesAgree 0 fs) emptyTfs
      mkdirAndRename).map (fun fs => fs.tree.entry 0 [0x65]) = some (some 1) := by
    decide
  obtain ⟨fs, ran, entry⟩ := Option.map_eq_some_iff.mp ends
  have initial : (callSystem 0).initial emptyTfs := ⟨rfl, emptyRoot_wellFormed⟩
  exact ⟨fs, ran, entry,
    tree_sound_of_calls 0 (TransitionSystem.ReachableUnder.run (.start initial) ran)⟩

def mkdirAndRmdir : List (FsCall × (Nat → Bool)) :=
  [(.mkdir 0 [0x64], fun _ => false), (.delete 0 [0x64, 0x2f] true, fun _ => false)]

/-- A directory that is removed under a path with a slash at its end stays
reachable. -/
theorem removed_stays_reachable :
    ∃ fs, (callSystem 0).Reachable fs ∧ ¬ fs.tree.Sound := by
  have ends : ((callSystem 0).run emptyTfs mkdirAndRmdir).map
      (fun fs => (fs.tree.root, fs.tree.entry 0 [0x64], fs.tree.files 1)) =
        some (0, some 1, false) := by
    decide
  obtain ⟨fs, ran, facts⟩ := Option.map_eq_some_iff.mp ends
  obtain ⟨root, entry, deleted⟩ : fs.tree.root = 0 ∧ fs.tree.entry 0 [0x64] = some 1 ∧
      fs.tree.files 1 = false := by
    simpa using facts
  have initial : (callSystem 0).initial emptyTfs := ⟨rfl, emptyRoot_wellFormed⟩
  refine ⟨fs, TransitionSystem.Reachable.run (.start initial) ran, ?_⟩
  intro sound
  have reachable : fs.tree.Reachable 1 := by
    apply Relation.ReflTransGen.single
    exact ⟨[0x64], root.symm ▸ entry⟩
  cases deleted.symm.trans (sound.live 1 reachable)

end Tfs

end Jerboa.Kernel
