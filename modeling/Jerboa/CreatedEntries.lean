import Jerboa.FileTreeRuns

/-!
# Entries that creating calls make

A call that creates an entry decides by resolving the path whether the name is
free, and writes the entry under the last name in the text of the path.  Where
the two read the same last name, the call adds one entry and leaves all others as
they are exactly when no symbolic link has that name.
-/

namespace Jerboa.Kernel

open Utf8Text

/-- One entry is new, under a name that was free, and all others are as before. -/
def FileTree.AddsOne (before after : FileTree) : Prop :=
  ∃ dir name t, before.entry dir name = none ∧ after.entry dir name = some t ∧
    ∀ dir' name', (dir', name') ≠ (dir, name) → after.entry dir' name' = before.entry dir' name'

def Prepared.args? {Args : Type} : Prepared Args → Option Args
  | .go args => some args
  | _ => none

theorem Prepared.args?_eq_some {Args : Type} {prepared : Prepared Args} {args : Args} :
    prepared.args? = some args ↔ prepared = .go args := by
  cases prepared with
  | go other => simp [args?]
  | _ => simp [args?]

/-- Where a creating call makes an entry: the directory in which the resolution
of the path ends, and the name in the text of the path. -/
def FsCall.place (depth : Nat) (fs : Tfs) : FsCall → Option (Nat × Bytes)
  | .mkdir cwd path =>
    (fs.prepareMkdir depth cwd path).args?.map fun args => (args.parent, args.name)
  | .create cwd path follow excl =>
    (fs.prepareCreate depth cwd path follow excl).args?.map fun args => (args.parent, args.name)
  | .symlink cwd path target =>
    (fs.prepareSymlink depth cwd path target).args?.map fun args => (args.parent, args.name)
  | .link oldwd oldpath newwd newpath follow =>
    (fs.prepareLink depth oldwd oldpath newwd newpath follow).args?.map fun args =>
      (args.newparent, args.newname)
  | .delete .. | .rename .. | .exchange .. => none

/-! ### The last name of a path -/

/-- The parent that a resolution reports. -/
def Resolution.parent? : Resolution → Option Nat
  | .found _ parent => some parent
  | .failed _ parent => parent
  | _ => none

/-- The names before the last one and the last one, as the resolution reads a
path.  A slash at its end is read only if `slashed`. -/
def lastName (slashed : Bool) (path : Bytes) : Option (List PathStep × Bytes) :=
  match pathSteps path 0 [] with
  | (steps, .last []) =>
    if slashed then steps.getLast?.map fun step => (steps.dropLast, step.name) else none
  | (steps, .last name) => some (steps, name)
  | _ => none

theorem Resolution.missing_eq_go {resolution : Resolution} {status : Status}
    {parent : Nat} (missing : resolution.missing status = .go parent) :
    resolution = .failed .enoent (some parent) := by
  unfold Resolution.missing at missing
  split at missing <;> cases missing
  rfl

namespace FsCall

/-- Where the path of a new entry starts, its text, and whether the call takes a
name that a slash follows. -/
def newPath : FsCall → Nat × Bytes × Bool
  | .mkdir cwd path => (cwd, path, true)
  | .create cwd path _ _ | .symlink cwd path _ => (cwd, path, false)
  | .link _ _ newwd newpath _ => (newwd, newpath, false)
  | .delete cwd path _ | .rename cwd path _ _ _ | .exchange cwd path _ _ => (cwd, path, false)

def names (call : FsCall) : Option (List PathStep × Bytes) :=
  lastName call.newPath.2.2 call.newPath.2.1

/-- The resolution reads `name` as the last name of the path, and every slash
before it as one that more follows. -/
def EndsIn (call : FsCall) (name : Bytes) : Prop :=
  ∃ before, call.names = some (before, name) ∧ PlainName name ∧ ∀ step ∈ before, step.more = true

/-- The last name of the path is that of a symbolic link. -/
def endsAtLink (depth : Nat) (tree : FileTree) (call : FsCall) : Bool :=
  call.names.any fun (before, name) =>
    let start := tree.start call.newPath.1 call.newPath.2.1
    match tree.resolveSteps (tree.followLinks depth) (.last name) start start before with
    | .found entry _ => tree.isSymlink entry
    | _ => false

end FsCall

namespace FileTree

variable {tree : FileTree} {follow : Nat → Nat → Followed} {before : List PathStep} {name : Bytes}
  {parent : Nat}

theorem lookup_of_plain (plain : PlainName name) (t : Nat) :
    tree.lookup t name = tree.entry t name := by
  rw [lookup, if_neg plain.2.2, if_neg plain.2.1]

/-- Names that more follows lead to a directory from which the rest is resolved,
or the resolution ends there and reports no parent. -/
theorem resolveSteps_append (more : ∀ step ∈ before, step.more = true) (t p : Nat) :
    (∃ dir up, ∀ pathEnd rest, tree.resolveSteps follow pathEnd t p (before ++ rest) =
      tree.resolveSteps follow pathEnd dir up rest) ∨
    ∃ stopped : Resolution, stopped.parent? = none ∧
      ∀ pathEnd rest, tree.resolveSteps follow pathEnd t p (before ++ rest) = stopped := by
  induction before generalizing t p with
  | nil => exact .inl ⟨t, p, fun _ _ => rfl⟩
  | cons step steps ih =>
    obtain ⟨stepMore, stepsMore⟩ := List.forall_mem_cons.mp more
    simp only [List.cons_append, resolveSteps, stepMore, if_true]
    cases looked : tree.lookup t step.name with
    | none => exact .inr ⟨.failed .enoent none, rfl, fun _ _ => rfl⟩
    | some entry =>
      cases followed : follow entry t with
      | overflow => exact .inr ⟨.overflow, rfl, fun _ _ => by simp only [followed]⟩
      | failed err => exact .inr ⟨.failed err none, rfl, fun _ _ => by simp only [followed]⟩
      | «to» target =>
        simp only [followed]
        cases tree.isDir target with
        | false => exact .inr ⟨.failed .enotdir none, rfl, fun _ _ => rfl⟩
        | true => exact ih stepsMore target t

/-- What the last name gives in the directory that the others lead to. -/
def lastFound (tree : FileTree) (parent : Nat) (name : Bytes) : Resolution :=
  (tree.lookup parent name).elim (.failed .enoent (some parent)) fun entry => .found entry parent

theorem resolveLast_of_dir (named : name ≠ []) (isDir : tree.isDir parent = true) (up : Nat) :
    tree.resolveLast parent up (.last name) = tree.lastFound parent name := by
  rw [resolveLast, if_neg named, if_neg (by simp [isDir]), lastFound]
  cases tree.lookup parent name <;> rfl

theorem resolveSteps_last (named : name ≠ []) (more : ∀ step ∈ before, step.more = true) {t p : Nat}
    (reported : (tree.resolveSteps follow (.last name) t p before).parent? = some parent) :
    tree.resolveSteps follow (.last name) t p before = tree.lastFound parent name := by
  rcases resolveSteps_append more t p with ⟨dir, up, goes⟩ | ⟨stopped, noParent, stops⟩
  · have ends := goes (.last name) []
    rw [List.append_nil, resolveSteps] at ends
    rw [ends] at reported ⊢
    cases isDir : tree.isDir dir with
    | false => simp [resolveLast, named, isDir, Resolution.parent?] at reported
    | true =>
      rw [resolveLast_of_dir named isDir] at reported ⊢
      have same : dir = parent := by
        unfold lastFound at reported
        cases looked : tree.lookup dir name <;> simpa [looked, Resolution.parent?] using reported
      rw [same]
  · have ends := stops (.last name) []
    rw [List.append_nil] at ends
    rw [ends, noParent] at reported
    cases reported

/-- A slash behind the last name has it followed if it is a link. -/
theorem resolveSteps_slash (named : name ≠ []) (more : ∀ step ∈ before, step.more = true)
    (isDir : tree.isDir parent = true) {slashed : Bool} {t p : Nat}
    (resolved : tree.resolveSteps follow (.last []) t p (before ++ [⟨name, slashed⟩]) =
      .failed .enoent (some parent)) :
    tree.resolveSteps follow (.last name) t p before = tree.lastFound parent name ∧
      ∀ link, tree.lookup parent name = some link → follow link parent = .failed .enoent := by
  rcases resolveSteps_append more t p with ⟨dir, up, goes⟩ | ⟨stopped, noParent, stops⟩
  · have ends := goes (.last name) []
    rw [List.append_nil, resolveSteps] at ends
    rw [goes, resolveSteps] at resolved
    have atParent : dir = parent ∧
        ∀ link, tree.lookup dir name = some link → follow link dir = .failed .enoent := by
      cases looked : tree.lookup dir name with
      | none => cases slashed <;> simp_all
      | some entry =>
        cases followed : follow entry dir with
        | overflow => simp [looked, followed] at resolved
        | failed err => cases slashed <;> simp_all
        | «to» target =>
          simp only [looked, followed, resolveSteps, resolveLast, if_true] at resolved
          split at resolved <;> cases resolved
    obtain ⟨rfl, links⟩ := atParent
    exact ⟨ends.trans (resolveLast_of_dir named isDir up), links⟩
  · rw [stops] at resolved
    rw [resolved] at noParent
    cases noParent

theorem isSymlink_of_not_followed {depth link : Nat} {err : Errno}
    (followed : tree.followLinks depth link parent = .failed err) :
    tree.isSymlink link = true := by
  by_contra file
  cases depth <;> simp [followLinks, file] at followed

theorem resolve_of_lastName {depth cwd : Nat} {path : Bytes}
    (names : lastName false path = some (before, name)) :
    tree.resolve depth cwd path =
      tree.resolveSteps (tree.followLinks depth) (.last name) (tree.start cwd path)
        (tree.start cwd path) before := by
  rw [resolve, resolveWith]
  rw [lastName] at names
  split
  · rename_i empty
    subst empty
    cases names
  · split at names
    · cases names
    · rename_i text
      cases names
      rw [text]
    · cases names

theorem resolve_of_slash {depth cwd : Nat} {path : Bytes}
    (names : lastName true path = some (before, name)) :
    tree.resolve depth cwd path =
        tree.resolveSteps (tree.followLinks depth) (.last name) (tree.start cwd path)
          (tree.start cwd path) before ∨
      ∃ slashed, tree.resolve depth cwd path =
        tree.resolveSteps (tree.followLinks depth) (.last []) (tree.start cwd path)
          (tree.start cwd path) (before ++ [⟨name, slashed⟩]) := by
  rw [lastName] at names
  split at names
  · rename_i steps text
    simp only [if_true, Option.map_eq_some_iff] at names
    obtain ⟨⟨_, slashed⟩, isLast, rfl, rfl⟩ := names
    right
    refine ⟨slashed, ?_⟩
    have path_ne : path ≠ [] := by
      rintro rfl
      cases text
      cases isLast
    rw [resolve, resolveWith, if_neg path_ne, text]
    simp [List.dropLast_append_getLast? _ isLast]
  · rename_i steps other _ text
    left
    cases names
    have plain : lastName false path = some (before, name) := by
      simp_all [lastName]
    exact resolve_of_lastName plain
  · cases names

end FileTree

theorem FileTree.addsOne_iff {before after : FileTree} {key : Nat × Bytes} {t : Nat}
    (changed : after.shape.entry = Function.update before.shape.entry key (some t)) :
    before.AddsOne after ↔ before.entry key.1 key.2 = none := by
  have entries : ∀ dir name, after.entry dir name =
      if (dir, name) = key then some t else before.entry dir name := by
    intro dir name
    exact (congrFun changed (dir, name)).trans (Function.update_apply ..)
  constructor
  · rintro ⟨dir, name, new, free, made, -⟩
    rw [entries] at made
    split at made
    · rename_i same
      rwa [← same]
    · cases free.symm.trans made
  · intro free
    refine ⟨key.1, key.2, t, free, ?_, ?_⟩
    · rw [entries, if_pos rfl]
    · intro dir name different
      rw [entries, if_neg different]

namespace Tfs

variable {fs fs' : Tfs} {depth : Nat} {answers : Nat → LogAnswer}

theorem createDirEntry_shape (wellFormed : fs.tree.WellFormed) {parent : Nat} {name : Bytes}
    (live : fs.tree.files parent = true) {node : FileNode} (fresh : node.Fresh)
    (created : fs.createDirEntry answers parent name node = some (fs', .ok ())) :
    fs.tree.isDir parent = true ∧ fs'.tree.shape =
      (fs.tree.shape.adopt fs.tree.next node.children.isSome).attach (parent, name) fs.tree.next := by
  rcases createDirEntry_cases created with ⟨failed, -⟩ | ⟨dir, same⟩
  · exact absurd rfl failed
  · rw [same]
    exact ⟨dir, wellFormed.shape_created live dir fresh⟩

theorem commitLink_shape (wellFormed : fs.tree.WellFormed) {args : LinkArgs}
    (found : LinkArgs.Found args fs.tree)
    (linked : fs.commitLink answers args = some (fs', .ok ())) :
    fs.tree.isDir args.newparent = true ∧ fs'.tree.shape =
      (fs.tree.shape.gainLink args.old).attach (args.newparent, args.newname) args.old := by
  rcases commitLink_cases linked with ⟨failed, -⟩ | ⟨dir, same⟩
  · exact absurd rfl failed
  · rw [same, found.linkCount]
    exact ⟨dir, wellFormed.shape_linked dir found.old found.file⟩

theorem entries_of_creating_call (wellFormed : fs.tree.WellFormed) {call : FsCall}
    {key : Nat × Bytes} (place : call.place depth fs = some key)
    (called : fs.call depth answers call = some (fs', .ok ())) :
    fs.tree.isDir key.1 = true ∧
      ∃ t, fs'.tree.shape.entry = Function.update fs.tree.shape.entry key (some t) := by
  cases call
  case delete => cases place
  case rename => cases place
  case exchange => cases place
  all_goals
    obtain ⟨args, prepared, rfl⟩ := Option.map_eq_some_iff.mp place
    rw [Prepared.args?_eq_some] at prepared
    simp only [call, proceed, prepared] at called
  case mkdir =>
    obtain ⟨dir, shape⟩ :=
      createDirEntry_shape wellFormed (prepareMkdir_live wellFormed prepared) newDir_fresh called
    rw [shape]
    exact ⟨dir, _, rfl⟩
  case create =>
    obtain ⟨dir, shape⟩ :=
      createDirEntry_shape wellFormed (prepareCreate_live wellFormed prepared) (file_fresh none)
        called
    rw [shape]
    exact ⟨dir, _, rfl⟩
  case symlink =>
    obtain ⟨dir, shape⟩ :=
      createDirEntry_shape wellFormed (prepareSymlink_live wellFormed prepared) (file_fresh _)
        called
    rw [shape]
    exact ⟨dir, _, rfl⟩
  case link =>
    obtain ⟨dir, shape⟩ :=
      commitLink_shape wellFormed (prepareLink_found wellFormed prepared) called
    rw [shape]
    exact ⟨dir, _, rfl⟩

/-- What a call finds under the name that it is about to make: nothing, or a
link that it could not follow. -/
structure LastName (depth : Nat) (tree : FileTree) (cwd : Nat) (path : Bytes)
    (before : List PathStep) (key : Nat × Bytes) : Prop where
  found : tree.resolveSteps (tree.followLinks depth) (.last key.2) (tree.start cwd path)
    (tree.start cwd path) before = tree.lastFound key.1 key.2
  links : ∀ link, tree.lookup key.1 key.2 = some link → tree.isSymlink link = true

section LastNames

variable {tree : FileTree} {cwd : Nat} {path : Bytes} {before : List PathStep} {key : Nat × Bytes}

theorem LastName.of_missing (named : key.2 ≠ []) (more : ∀ step ∈ before, step.more = true)
    (missing : tree.resolveSteps (tree.followLinks depth) (.last key.2) (tree.start cwd path)
      (tree.start cwd path) before = .failed .enoent (some key.1)) :
    LastName depth tree cwd path before key := by
  have found := FileTree.resolveSteps_last named more (congrArg Resolution.parent? missing)
  refine ⟨found, ?_⟩
  intro link isLink
  rw [found, FileTree.lastFound, isLink] at missing
  cases missing

theorem LastName.of_follow (named : key.2 ≠ []) (more : ∀ step ∈ before, step.more = true)
    (names : lastName false path = some (before, key.2))
    (missing : tree.resolveFollow depth cwd path = .failed .enoent (some key.1)) :
    LastName depth tree cwd path before key := by
  rw [FileTree.resolveFollow, FileTree.resolve_of_lastName names] at missing
  split at missing
  · cases missing
  · rename_i resolved
    cases missing
    exact .of_missing named more resolved
  · cases missing
  · rename_i entry parent resolved
    split at missing
    · cases missing
    · rename_i followed
      cases missing
      have found := FileTree.resolveSteps_last named more (congrArg Resolution.parent? resolved)
      refine ⟨found, ?_⟩
      intro link isLink
      rw [found, FileTree.lastFound, isLink] at resolved
      cases resolved
      exact FileTree.isSymlink_of_not_followed followed
    · cases missing

theorem LastName.of_slash (named : key.2 ≠ []) (more : ∀ step ∈ before, step.more = true)
    (isDir : tree.isDir key.1 = true) (names : lastName true path = some (before, key.2))
    (missing : tree.resolve depth cwd path = .failed .enoent (some key.1)) :
    LastName depth tree cwd path before key := by
  rcases FileTree.resolve_of_slash names with plain | ⟨slashed, withSlash⟩
  · exact .of_missing named more (plain.symm.trans missing)
  · obtain ⟨found, links⟩ :=
      FileTree.resolveSteps_slash named more isDir (withSlash.symm.trans missing)
    refine ⟨found, ?_⟩
    intro link isLink
    exact FileTree.isSymlink_of_not_followed (links link isLink)

end LastNames

theorem lastName_of_place {call : FsCall} {key : Nat × Bytes} {before : List PathStep}
    (place : call.place depth fs = some key) (isDir : fs.tree.isDir key.1 = true)
    (names : call.names = some (before, key.2)) (named : key.2 ≠ [])
    (more : ∀ step ∈ before, step.more = true) :
    LastName depth fs.tree call.newPath.1 call.newPath.2.1 before key := by
  cases call
  case delete => cases place
  case rename => cases place
  case exchange => cases place
  all_goals
    obtain ⟨args, prepared, rfl⟩ := Option.map_eq_some_iff.mp place
    rw [Prepared.args?_eq_some] at prepared
  case mkdir cwd path =>
    simp only [prepareMkdir, Prepared.bind_eq_go] at prepared
    obtain ⟨-, -, parent, missing, rest⟩ := prepared
    split at rest <;> cases rest
    exact .of_slash named more isDir names (Resolution.missing_eq_go missing)
  case create cwd path follow excl =>
    simp only [prepareCreate, Prepared.bind_eq_go] at prepared
    obtain ⟨-, -, parent, missing, ⟨⟩⟩ := prepared
    have missing := Resolution.missing_eq_go missing
    cases follow with
    | true => exact .of_follow named more names missing
    | false => exact .of_missing named more ((FileTree.resolve_of_lastName names).symm.trans missing)
  case symlink cwd path target =>
    simp only [prepareSymlink, Prepared.bind_eq_go] at prepared
    obtain ⟨-, -, -, -, parent, missing, ⟨⟩⟩ := prepared
    exact .of_missing named more
      ((FileTree.resolve_of_lastName names).symm.trans (Resolution.missing_eq_go missing))
  case link oldwd oldpath newwd newpath follow =>
    simp only [prepareLink, Prepared.bind_eq_go] at prepared
    obtain ⟨-, -, -, -, old, -, -, -, -, -, parent, missing, -, -, -, -, -, -, -, -, rest⟩ := prepared
    cases rest
    exact .of_missing named more
      ((FileTree.resolve_of_lastName names).symm.trans (Resolution.missing_eq_go missing))

theorem entry_eq_none_iff {call : FsCall} {key : Nat × Bytes}
    (place : call.place depth fs = some key) (isDir : fs.tree.isDir key.1 = true)
    (ends : call.EndsIn key.2) :
    fs.tree.entry key.1 key.2 = none ↔ call.endsAtLink depth fs.tree = false := by
  obtain ⟨before, names, plain, more⟩ := ends
  obtain ⟨found, links⟩ := lastName_of_place place isDir names plain.1 more
  rw [FsCall.endsAtLink, names, Option.any_some]
  dsimp only
  rw [found, FileTree.lastFound, FileTree.lookup_of_plain plain]
  rw [FileTree.lookup_of_plain plain] at links
  cases entry : fs.tree.entry key.1 key.2 with
  | none => simp
  | some link => simp [links link entry]

def danglingLink : FsCall × (Nat → Bool) :=
  (.symlink 0 [0x6c] [0x6d], fun _ => false)

end Tfs

end Jerboa.Kernel
