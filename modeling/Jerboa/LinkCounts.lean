import Jerboa.CreatedEntries
import Jerboa.PreimageCount

/-!
# Link counts

In runs of successful calls whose names agree with the entries that are found,
the link count of a regular file is the number of its entries, and the file is
in the table of files as long as it has one.
-/

namespace Jerboa.Kernel

open Utf8Text PreimageCount DirectoryTree Function

/-! ### Edits of a directory tree -/

def Counted (regular : Nat → Prop) (tree : DirectoryTree Nat Bytes) : Prop :=
  ∀ t, tree.live t → regular t → 1 ≤ tree.count t ∧ Counts tree.entry t (tree.count t)

namespace Counted

variable {regular : Nat → Prop} {tree : DirectoryTree Nat Bytes} {key source target : Nat × Bytes}
  {t other : Nat}

section

variable (counted : Counted regular tree)

include counted

theorem created {regular' : Nat → Prop}
    (others : ∀ other, other ≠ t → regular' other → regular other)
    (fresh : ∀ key, tree.entry key ≠ some t)
    (spared : ∀ old, tree.entry key = some old → ¬ regular old) (isDir : Bool) :
    Counted regular' ((tree.adopt t isDir).attach key t) := by
  intro other live isRegular
  by_cases same : other = t
  · subst same
    simp only [attach, adopt, update_self]
    exact ⟨le_rfl, (counts_zero fresh).update key _ (by simp [hits, fresh key])⟩
  · simp only [attach, adopt, update_of_ne same] at live ⊢
    have wasRegular := others other same isRegular
    obtain ⟨positive, counts⟩ := counted other live wasRegular
    have notHad : tree.entry key ≠ some other := fun had => spared other had wasRegular
    exact ⟨positive, counts.update key _ (by simp [hits, notHad, Ne.symm same])⟩

theorem linked (spared : ∀ old, tree.entry key = some old → ¬ regular old) :
    Counted regular ((tree.gainLink t).attach key t) := by
  intro other live isRegular
  obtain ⟨positive, counts⟩ := counted other live isRegular
  have notHad : tree.entry key ≠ some other := fun had => spared other had isRegular
  by_cases same : other = t
  · subst same
    simp only [attach, gainLink, update_self]
    exact ⟨by omega, counts.update key _ (by simp [hits, notHad])⟩
  · simp only [attach, gainLink, update_of_ne same]
    exact ⟨positive, counts.update key _ (by simp [hits, notHad, Ne.symm same])⟩

theorem removed (entry : tree.entry key = some t) :
    Counted regular ((tree.detach key t).dropLink t) := by
  intro other live isRegular
  by_cases same : other = t
  · subst same
    by_cases last : tree.count other = 1
    · simp [detach, dropLink, last] at live
    · have wasLive : tree.live other := (live_dropLink (.inr last)).mp live
      obtain ⟨positive, counts⟩ := counted other wasLive isRegular
      simp only [detach, dropLink, last, if_false, update_self]
      exact ⟨by omega, counts.update key _ (by simp [hits, entry]; omega)⟩
  · have wasLive : tree.live other := (live_dropLink (.inl same)).mp live
    obtain ⟨positive, counts⟩ := counted other wasLive isRegular
    have kept : ((tree.detach key t).dropLink t).count other = tree.count other := by
      by_cases last : tree.count t = 1
      · simp only [detach, dropLink, last, if_true]
      · simp only [detach, dropLink, last, if_false, update_of_ne same]
    rw [kept]
    exact ⟨positive, counts.update key _ (by simp [hits, entry, Ne.symm same])⟩

theorem moved (entry : tree.entry source = some t)
    (spared : ∀ old, tree.entry target = some old → ¬ regular old) :
    Counted regular ((tree.detach source t).attach target t) := by
  intro other live isRegular
  obtain ⟨positive, counts⟩ := counted other live isRegular
  have notHad : Function.update tree.entry source none target ≠ some other := by
    rw [update_apply]
    split
    · nofun
    · exact fun had => spared other had isRegular
  have taken := counts.update (m := tree.count other - hits (some t) other) source none (by
    simp only [hits, entry, reduceCtorEq, if_false]
    split_ifs <;> omega)
  refine ⟨positive, taken.update (m := tree.count other) target (some t) ?_⟩
  simp only [hits, notHad, if_false]
  split_ifs <;> omega

theorem exchanged (different : source ≠ target)
    (entry : tree.entry source = some t) (otherEntry : tree.entry target = some other) :
    Counted regular ((tree.attach source other).attach target t) := by
  intro node live isRegular
  obtain ⟨positive, counts⟩ := counted node live isRegular
  have first := counts.update
    (m := tree.count node + hits (some other) node - hits (some t) node) source (some other) (by
      simp only [hits, entry]
      split_ifs <;> omega)
  refine ⟨positive, first.update (m := tree.count node) target (some t) ?_⟩
  rw [update_of_ne different.symm, otherEntry]
  simp only [hits]
  split_ifs <;> omega

end

end Counted

/-! ### Tuples of regular files -/

namespace FileTree

variable (tree : FileTree)

/-- `is_regular`; sockets and special files are not created here. -/
def isRegular (t : Nat) : Bool :=
  !tree.isDir t && !tree.isSymlink t

def links (t : Nat) : Option Bytes :=
  (tree.nodes t).linktarget

variable {tree} {t : Nat}

theorem links_update {change : FileNode → FileNode}
    (kept : ∀ node, (change node).linktarget = node.linktarget) :
    (tree.update t change).links = tree.links :=
  funext fun other => field_update FileNode.linktarget kept tree t other

@[simp]
theorem links_setEntry (name : Bytes) (child : Option Nat) :
    (tree.setEntry t name child).links = tree.links :=
  links_update fun _ => rfl

@[simp]
theorem links_setParent (parent : Option Nat) : (tree.setParent t parent).links = tree.links :=
  links_update fun _ => rfl

@[simp]
theorem links_setNlink (count : Nat) : (tree.setNlink t count).links = tree.links :=
  links_update fun _ => rfl

@[simp]
theorem links_place (parent : Nat) (name : Bytes) :
    (tree.place parent name t).links = tree.links := by
  rw [place, fsdirSetParent]
  split
  · rw [links_setParent, links_setEntry]
  · exact links_setEntry ..

@[simp]
theorem links_fsUnlink : (tree.fsUnlink t).links = tree.links := by
  rw [fsUnlink]
  split
  · rfl
  · exact links_setNlink _

theorem isRegular_congr {after : FileTree} (dir : after.shape.dir t ↔ tree.shape.dir t)
    (links : after.links t = tree.links t) : after.isRegular t = tree.isRegular t := by
  have sameDir : after.isDir t = tree.isDir t := Bool.eq_iff_iff.mpr dir
  have sameLink : after.isSymlink t = tree.isSymlink t := congrArg Option.isSome links
  rw [isRegular, isRegular, sameDir, sameLink]

def CountsLinks (tree : FileTree) : Prop :=
  Counted (fun t => tree.isRegular t = true) tree.shape

theorem CountsLinks.of_shape {after : FileTree} {shape : DirectoryTree Nat Bytes}
    (isShape : after.shape = shape) (dir : shape.dir = tree.shape.dir)
    (links : after.links = tree.links)
    (counted : Counted (fun t => tree.isRegular t = true) shape) : after.CountsLinks := by
  have same : after.isRegular = tree.isRegular := by
    funext t
    exact isRegular_congr (by rw [isShape, dir]) (by rw [links])
  rw [CountsLinks, same, isShape]
  exact counted

end FileTree

/-! ### Calls -/

def FsCall.newPlace (depth : Nat) (fs : Tfs) : FsCall → Option (Nat × Bytes)
  | .rename oldwd oldpath newwd newpath noreplace =>
    (fs.prepareRename depth oldwd oldpath newwd newpath noreplace).args?.bind fun args =>
      if args.new.isNone then some (args.newparent, args.newname) else none
  | call => call.place depth fs

def FsCall.sparesFiles (depth : Nat) (fs : Tfs) (call : FsCall) : Bool :=
  (call.newPlace depth fs).all fun key =>
    (fs.tree.entry key.1 key.2).all fun t => !fs.tree.isRegular t

namespace Tfs

variable {fs fs' : Tfs} {depth : Nat} {answers : Nat → LogAnswer}

theorem not_regular_of_spares {call : FsCall} {key : Nat × Bytes} {old : Nat}
    (spares : call.sparesFiles depth fs = true) (place : call.newPlace depth fs = some key)
    (entry : fs.tree.shape.entry key = some old) : ¬ fs.tree.isRegular old = true := by
  have found : fs.tree.entry key.1 key.2 = some old := entry
  rw [FsCall.sparesFiles, place, Option.all_some, found, Option.all_some] at spares
  simpa using spares

theorem createDirEntry_countsLinks (wellFormed : fs.tree.WellFormed)
    (counts : fs.tree.CountsLinks) {parent : Nat} {name : Bytes}
    (live : fs.tree.files parent = true) {node : FileNode} (fresh : node.Fresh)
    (spared : ∀ old, fs.tree.shape.entry (parent, name) = some old →
      ¬ fs.tree.isRegular old = true)
    (created : fs.createDirEntry answers parent name node = some (fs', .ok ())) :
    fs'.tree.CountsLinks := by
  obtain ⟨-, shape⟩ := createDirEntry_shape wellFormed live fresh created
  rw [FileTree.CountsLinks, shape]
  refine Counted.created counts ?_ ?_ spared _
  · intro other different isRegular
    have links : fs'.tree.links other = fs.tree.links other := by
      rcases createDirEntry_cases created with ⟨failed, -⟩ | ⟨-, same⟩
      · exact absurd rfl failed
      · rw [same, FileTree.links_place]
        exact congrArg FileNode.linktarget (update_of_ne different ..)
    rwa [FileTree.isRegular_congr _ links] at isRegular
    rw [shape]
    exact iff_of_eq (update_of_ne different ..)
  · intro key entry
    exact wellFormed.not_live_next (wellFormed.shape.placed entry).live

theorem call_countsLinks (wellFormed : fs.tree.WellFormed) (counts : fs.tree.CountsLinks)
    {call : FsCall} (agree : call.NamesAgree depth fs) (spares : call.sparesFiles depth fs = true)
    (called : fs.call depth answers call = some (fs', .ok ())) : fs'.tree.CountsLinks := by
  have spared : ∀ {key}, call.newPlace depth fs = some key → ∀ old,
      fs.tree.shape.entry key = some old → ¬ fs.tree.isRegular old = true :=
    fun place _ entry => not_regular_of_spares spares place entry
  cases call
  all_goals
    refine proceed_rule counts (fun args prepared committed => ?_) called
    simp only [FsCall.NamesAgree, prepared, Prepared.All] at agree
    simp only [FsCall.newPlace, FsCall.place, prepared, Prepared.args?, Option.map_some] at spared
  case mkdir =>
    exact createDirEntry_countsLinks wellFormed counts (prepareMkdir_live wellFormed prepared)
      newDir_fresh (spared rfl) committed
  case create =>
    exact createDirEntry_countsLinks wellFormed counts (prepareCreate_live wellFormed prepared)
      (file_fresh none) (spared rfl) committed
  case symlink =>
    exact createDirEntry_countsLinks wellFormed counts (prepareSymlink_live wellFormed prepared)
      (file_fresh _) (spared rfl) committed
  case link =>
    obtain ⟨-, shape⟩ := commitLink_shape wellFormed (prepareLink_found wellFormed prepared) committed
    refine .of_shape shape rfl ?_ (Counted.linked counts (spared rfl))
    rcases commitLink_cases committed with ⟨failed, -⟩ | ⟨-, same⟩
    · exact absurd rfl failed
    · simp [same]
  case delete =>
    rcases commitDelete_cases committed with same | same <;> rw [same]
    · exact counts
    · exact .of_shape (wellFormed.shape_removed agree) rfl (by simp) (Counted.removed counts agree)
  case rename =>
    rcases commitRename_cases committed with same | ⟨checked, dir, edited⟩
    · rwa [same]
    simp only [checked] at agree
    obtain ⟨entry, target⟩ := agree
    rcases edited with ⟨isNew, same⟩ | ⟨new, isNew, same⟩ <;> rw [isNew] at target <;> rw [same]
    · exact .of_shape (wellFormed.shape_moved entry dir) rfl (by simp)
        (Counted.moved counts entry (spared (by simp [isNew])))
    · have different := keys_ne entry target (isNew ▸ (prepareRename_found wellFormed prepared).2)
      refine .of_shape (wellFormed.shape_replaced different entry target) rfl (by simp)
        (Counted.moved (Counted.removed counts target) ?_ ?_)
      · exact (update_of_ne different ..).trans entry
      · intro old found
        cases found.symm.trans (update_self ..)
  case exchange =>
    rcases commitExchange_cases committed with same | ⟨checked, same⟩ <;> rw [same]
    · exact counts
    simp only [checked] at agree
    exact .of_shape (wellFormed.shape_exchanged agree.1 agree.2) rfl (by simp)
      (Counted.exchanged counts (keys_ne agree.1 agree.2 (prepareExchange_found prepared)) agree.1
        agree.2)

/-! ### Runs -/

/-- Successful calls, with any answers of the log, on a filesystem that starts
well formed and with its links counted. -/
def successSystem (depth : Nat) : TransitionSystem Tfs (FsCall × (Nat → LogAnswer)) where
  initial fs := fs.tree.WellFormed ∧ fs.tree.CountsLinks
  step fs label :=
    match fs.call depth label.2 label.1 with
    | some (fs', .ok ()) => some fs'
    | _ => none

/-- The names of a call agree with what it has found, and the entry it makes
takes the place of no regular file. -/
def linksSafely (depth : Nat) (fs : Tfs) (label : FsCall × (Nat → LogAnswer)) : Prop :=
  label.1.NamesAgree depth fs ∧ label.1.sparesFiles depth fs = true

instance (depth : Nat) (fs : Tfs) (label : FsCall × (Nat → LogAnswer)) :
    Decidable (linksSafely depth fs label) :=
  inferInstanceAs (Decidable (_ ∧ _))

theorem countsLinks_of_calls {fs : Tfs}
    (reached : (successSystem depth).ReachableUnder (linksSafely depth) fs) :
    fs.tree.WellFormed ∧ fs.tree.CountsLinks := by
  induction reached with
  | start first => exact first
  | next _ safely stepped ih =>
    simp only [successSystem] at stepped
    split at stepped
    · cases stepped
      rename_i called
      exact ⟨call_wellFormed ih.1 safely.1 called,
        call_countsLinks ih.1 ih.2 safely.1 safely.2 called⟩
    · cases stepped

/-- The link count of a regular file is the number of its entries, and it is in
the table of files exactly while it has entries. -/
theorem link_counts_of_calls (depth : Nat) {fs : Tfs}
    (reached : (successSystem depth).ReachableUnder (linksSafely depth) fs) {t : Nat}
    (regular : fs.tree.isRegular t = true) :
    (fs.tree.files t = true →
        Counts (fun key : Nat × Bytes => fs.tree.entry key.1 key.2) t (fs.tree.linkCount t)) ∧
      (fs.tree.files t = true ↔ ∃ dir name, fs.tree.entry dir name = some t) := by
  obtain ⟨wellFormed, counts⟩ := countsLinks_of_calls reached
  refine ⟨fun live => (counts t live regular).2, ?_, ?_⟩
  · intro live
    obtain ⟨positive, counted⟩ := counts t live regular
    obtain ⟨key, entry⟩ := counted.exists_key positive
    exact ⟨key.1, key.2, entry⟩
  · rintro ⟨dir, name, entry⟩
    exact (wellFormed.placed entry).live

theorem emptyTfs_initial (depth : Nat) : (successSystem depth).initial emptyTfs := by
  refine ⟨emptyRoot_wellFormed, ?_⟩
  intro t live regular
  have isRoot : t = 0 := by
    simpa [emptyTfs, emptyRoot, FileTree.shape] using live
  rw [isRoot] at regular
  exact absurd regular (by decide)

def plainAnswers : Nat → LogAnswer :=
  accepting fun _ => false

/-- `a` is created, gets the further name `b`, and loses the name `a`. -/
def linkAndDelete : List (FsCall × (Nat → LogAnswer)) :=
  [(.create 0 [0x61] false false, plainAnswers), (.link 0 [0x61] 0 [0x62] false, plainAnswers),
    (.delete 0 [0x61] false, plainAnswers)]

theorem link_counts_of_calls_delete :
    ∃ fs, (successSystem 0).runUnder (linksSafely 0) emptyTfs linkAndDelete = some fs ∧
      Counts (fun key : Nat × Bytes => fs.tree.entry key.1 key.2) 1 1 := by
  have ends : ((successSystem 0).runUnder (linksSafely 0) emptyTfs linkAndDelete).map
      (fun fs => (fs.tree.isRegular 1, fs.tree.files 1, fs.tree.linkCount 1)) =
        some (true, true, 1) := by
    decide
  obtain ⟨fs, ran, facts⟩ := Option.map_eq_some_iff.mp ends
  simp only [Prod.mk.injEq] at facts
  obtain ⟨regular, live, count⟩ := facts
  have counts := (link_counts_of_calls 0 (TransitionSystem.ReachableUnder.run
    (.start (emptyTfs_initial 0)) ran) regular).1 live
  rw [count] at counts
  exact ⟨fs, ran, counts⟩

/-- `a` is created, and deleted under a longer encoding of its name. -/
def deleteOverlong : List (FsCall × (Nat → LogAnswer)) :=
  [(.create 0 [0x61] false false, plainAnswers), (.delete 0 [0xc1, 0xa1] false, plainAnswers)]

/-- The resolution reads the encoding as `a`, and the entry that is removed is
the one with the bytes of the path: the file is dropped and keeps its entry. -/
theorem dropped_file_keeps_entry :
    ∃ fs, (successSystem 0).Reachable fs ∧ PlainName (filenameFromPath [0xc1, 0xa1]) ∧
      fs.tree.isRegular 1 = true ∧ fs.tree.entry 0 [0x61] = some 1 ∧ fs.tree.files 1 = false := by
  have ends : ((successSystem 0).run emptyTfs deleteOverlong).map
      (fun fs => (fs.tree.isRegular 1, fs.tree.entry 0 [0x61], fs.tree.files 1)) =
        some (true, some 1, false) := by
    decide
  obtain ⟨fs, ran, facts⟩ := Option.map_eq_some_iff.mp ends
  simp only [Prod.mk.injEq] at facts
  obtain ⟨regular, entry, dropped⟩ := facts
  exact ⟨fs, TransitionSystem.Reachable.run (.start (emptyTfs_initial 0)) ran, by decide, regular,
    entry, dropped⟩

end Tfs

end Jerboa.Kernel
