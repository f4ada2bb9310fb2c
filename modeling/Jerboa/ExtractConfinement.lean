import Jerboa.OpsExtract
import Jerboa.PosixWalks
import Jerboa.RootedPaths

/-!
# What an archive can do to the host

An entry is written only to a path that no symbolic link stands on, so it lands
where the path says.  A link is judged by its tidied target, which is where the
operating system goes if every `..` in the target comes back to the directory of
the name before it.
-/

namespace Jerboa.Packages

open Utf8Text PosixFiles List

/-! ### Joined paths -/

theorem join_eq_tidy {base : Location} (areNames : ∀ name ∈ base, IsName name) (path : Bytes) :
    join base path =
      (Disk.tidy base (path.splitOn slash)).1 ++ (Disk.tidy base (path.splitOn slash)).2 := by
  have folded : ∀ components : List Bytes,
      (components.foldl (Image.cleanStep true) base.reverse).reverse =
        (Disk.tidy base components).1 ++ (Disk.tidy base components).2 := by
    intro components
    induction components using List.reverseRecOn with
    | nil => simp [Disk.tidy]
    | append_singleton components component ih =>
      have stackNames : ∀ name ∈ components.foldl (Image.cleanStep true) base.reverse,
          IsName name := by
        intro name member
        rw [← mem_reverse, ih, mem_append] at member
        cases member with
        | inl inBase => exact areNames name ((Disk.tidy_base base components).subset inBase)
        | inr inNames => exact Disk.isName_of_mem_tidy name inNames
      rw [foldl_append, foldl_cons, foldl_nil, cleanStep_rooted stackNames,
        Disk.tidy_concat, Disk.tidyStep]
      split
      · exact ih
      · split
        · rw [← dropLast_reverse, ih]
          split
          · rename_i noNames
            simp [noNames]
          · rename_i someNames
            exact dropLast_append_of_ne_nil someNames
        · rw [reverse_cons, ih, append_assoc]
  exact folded (path.splitOn slash)

theorem isName_of_mem_join {base : Location} (areNames : ∀ name ∈ base, IsName name)
    (path : Bytes) : ∀ name ∈ join base path, IsName name := by
  intro name member
  rw [join_eq_tidy areNames, mem_append] at member
  cases member with
  | inl inBase => exact areNames name ((Disk.tidy_base base _).subset inBase)
  | inr inNames => exact Disk.isName_of_mem_tidy name inNames

theorem prefix_of_withinDir {dir path : Location} (within : withinDir dir path = true) :
    dir <+: path := by
  have notUp : (filepathRel dir path).head? ≠ some dotDot := by simpa [withinDir] using within
  induction dir generalizing path with
  | nil => exact nil_prefix
  | cons first dir ih =>
    cases path with
    | nil => simp [filepathRel] at notUp
    | cons name path =>
      rw [filepathRel] at notUp
      split at notUp
      · rename_i same
        rw [same]
        apply (prefix_cons_inj name).mpr
        apply ih _ notUp
        simpa [withinDir] using notUp
      · simp at notUp

/-! ### Paths without links -/

theorem linkless_of_traversesFrom {disk : Disk} {cur : Location} {parts : List Bytes}
    (curNames : ∀ name ∈ cur, IsName name) (areNames : ∀ name ∈ parts, IsName name)
    (clear : traversesFrom disk cur parts = false) (above : Location) (isPrefix : above <+: parts)
    (notHere : above ≠ []) : disk.isLink (cur ++ above) = false := by
  induction parts generalizing cur above with
  | nil => exact absurd (prefix_nil.mp isPrefix) notHere
  | cons part parts ih =>
    obtain ⟨notEmpty, notDot, notUp⟩ := areNames part mem_cons_self
    obtain ⟨deeper, rfl⟩ : ∃ deeper, above = part :: deeper := by
      cases above with
      | nil => exact absurd rfl notHere
      | cons first deeper =>
        rw [(cons_prefix_cons.mp isPrefix).1]
        exact ⟨deeper, rfl⟩
    have below : cur ++ part :: deeper = cur ++ [part] ++ deeper := by simp
    have nextNames : ∀ name ∈ cur ++ [part], IsName name := by
      intro name member
      cases mem_append.mp member with
      | inl old => exact curNames name old
      | inr new =>
        rw [mem_singleton.mp new]
        exact areNames part mem_cons_self
    rw [below]
    by_cases absent : disk.nodes (cur ++ [part]) = none
    · exact Disk.isLink_of_absent absent (prefix_append _ _)
    · simp only [traversesFrom, notEmpty, notDot, notUp, or_self, if_false,
        Disk.lstat_of_present nextNames absent] at clear
      split at clear
      · cases clear
      · rename_i notLink
        by_cases here : deeper = []
        · rw [here, append_nil]
          simpa using notLink
        · exact ih nextNames (forall_mem_cons.mp areNames).2
            clear deeper (cons_prefix_cons.mp isPrefix).2 here

structure Extractor.Ready (extractor : Extractor) (disk : Disk) : Prop where
  names : ∀ name ∈ extractor.dir, IsName name
  isDir : disk.nodes extractor.dir = some .dir

namespace Extractor

variable {extractor : Extractor} {disk : Disk}

theorem Ready.dirs (ready : extractor.Ready disk) {above : Location}
    (isPrefix : above <+: extractor.dir) : disk.nodes above = some .dir := by
  by_cases whole : above = extractor.dir
  · rw [whole]
    exact ready.isDir
  · exact Disk.dir_above (by rw [ready.isDir]; simp) isPrefix whole

theorem Ready.linkless (ready : extractor.Ready disk) {target : Location}
    (areNames : ∀ name ∈ target, IsName name) (inside : extractor.dir <+: target)
    (clear : traversesSymlink disk extractor.dir target = false) : disk.Linkless target := by
  obtain ⟨parts, rfl⟩ := inside
  rw [traversesSymlink, filepathRel_append] at clear
  intro above isPrefix
  cases prefix_or_prefix_of_prefix isPrefix (prefix_append extractor.dir parts) with
  | inl high =>
    unfold Disk.isLink
    rw [ready.dirs high]
  | inr low =>
    obtain ⟨deeper, rfl⟩ := low
    by_cases here : deeper = []
    · unfold Disk.isLink
      rw [here, append_nil, ready.isDir]
    · exact linkless_of_traversesFrom ready.names
        (fun name member => areNames name (mem_append_right _ member)) clear deeper
        ((prefix_append_right_inj _).mp isPrefix) here

/-! ### One entry -/

def Inside (extractor : Extractor) (location : Location) : Prop :=
  extractor.dir <+: location ∧ location ≠ extractor.dir

/-- What is known of a link that is made for one of the entries: its tidied target
is inside. -/
structure Judged (extractor : Extractor) (entries : List TarEntry) (location : Location)
    (target : Bytes) : Prop where
  asked : ∃ entry ∈ entries, entry.linkname = target
  linux : extractor.linux = true
  relative : target.head? ≠ some slash
  inside : extractor.dir <+: (Disk.tidy location.dropLast (target.splitOn slash)).1 ++
    (Disk.tidy location.dropLast (target.splitOn slash)).2

theorem Judged.of_resolveLinkname {entries : List TarEntry} {entry : TarEntry}
    (isEntry : entry ∈ entries) {location linkTarget : Location}
    (areNames : ∀ name ∈ location, IsName name) (isLinux : extractor.linux = true)
    (resolved : resolveLinkname extractor.dir location entry.linkname = some linkTarget) :
    extractor.Judged entries location entry.linkname := by
  simp only [resolveLinkname] at resolved
  split at resolved
  · cases resolved
  · rename_i relative
    refine ⟨⟨entry, isEntry, rfl⟩, isLinux, fun isAbsolute => relative (.inr isAbsolute), ?_⟩
    rw [← join_eq_tidy fun name member => areNames name (mem_of_mem_dropLast member)]
    split at resolved
    · rename_i within
      exact prefix_of_withinDir within
    · cases resolved

/-- A path below the package directory that no link stands on. -/
structure Open (extractor : Extractor) (disk : Disk) (path : Location) : Prop where
  names : ∀ name ∈ path, IsName name
  inside : extractor.Inside path
  linkless : disk.Linkless path

theorem Ready.inside (ready : extractor.Ready disk) {path location : Location}
    (inside : extractor.dir <+: path) (isPrefix : location <+: path)
    (notDir : disk.nodes location ≠ some .dir) : extractor.Inside location := by
  cases prefix_or_prefix_of_prefix inside isPrefix with
  | inl below =>
    refine ⟨below, ?_⟩
    rintro rfl
    exact notDir ready.isDir
  | inr above => exact absurd (ready.dirs above) notDir

variable {path : Location}

theorem Ready.extends (ready : extractor.Ready disk)
    (inside : extractor.dir <+: path) {expected more : Location → Bytes → Prop} {after : Disk}
    (step : Disk.Extends (fun location => location <+: path) expected disk after)
    (isMore : ∀ location target, expected location target → more location target) :
    Disk.Extends extractor.Inside more disk after where
  written := by
    obtain ⟨new, same, onPath⟩ := step.written
    refine ⟨new, same, ?_⟩
    intro location member
    obtain ⟨isPrefix, notDir⟩ := onPath location member
    exact ⟨ready.inside inside isPrefix notDir, notDir⟩
  links := by
    intro location target found
    cases step.links location target found with
    | inl old => exact .inl old
    | inr new => exact .inr (isMore location target new)
  dirs := step.dirs

theorem Ready.of_extends {allowed : Location → Prop} {expected : Location → Bytes → Prop}
    {after : Disk} (ready : extractor.Ready disk)
    (step : Disk.Extends allowed expected disk after) : extractor.Ready after :=
  ⟨ready.names, step.dirs _ ready.isDir⟩

theorem Open.parent (isOpen : extractor.Open disk path) :
    (∀ name ∈ path.dropLast, IsName name) ∧ disk.Linkless path.dropLast ∧
      extractor.dir <+: path.dropLast := by
  refine ⟨fun name member => isOpen.names name (mem_of_mem_dropLast member),
    isOpen.linkless.above (List.dropLast_prefix path), ?_⟩
  obtain ⟨⟨rest, same⟩, different⟩ := isOpen.inside
  cases eq_nil_or_concat' rest with
  | inl none =>
    rw [none, append_nil] at same
    exact absurd same.symm different
  | inr concat =>
    obtain ⟨rest, last, rfl⟩ := concat
    rw [← same, ← append_assoc, dropLast_concat]
    exact prefix_append _ _

/-- Only what is inside changes, and no link is made. -/
def Writes (extractor : Extractor) (disk after : Disk) : Prop :=
  Disk.Extends extractor.Inside (fun _ _ => False) disk after

theorem Ready.writes (ready : extractor.Ready disk) (inside : extractor.dir <+: path)
    {after : Disk}
    (step : Disk.Extends (fun location => location <+: path) (fun _ _ => False) disk after) :
    extractor.Writes disk after :=
  ready.extends inside step fun _ _ impossible => impossible

theorem Ready.writes_parent (ready : extractor.Ready disk) (isOpen : extractor.Open disk path) :
    extractor.Writes disk (disk.mkdirAll path.dropLast).1 :=
  ready.writes isOpen.parent.2.2 (Disk.extends_mkdirAll isOpen.parent.1 isOpen.parent.2.1)

theorem Open.of_writes {after : Disk} (isOpen : extractor.Open disk path)
    (step : extractor.Writes disk after) : extractor.Open after path :=
  ⟨isOpen.names, isOpen.inside, step.linkless isOpen.linkless⟩

theorem Ready.writes_file (ready : extractor.Ready disk) (isOpen : extractor.Open disk path)
    (content : Bytes) :
    extractor.Writes disk ((disk.mkdirAll path.dropLast).1.writeFile content path).1 := by
  have made := ready.writes_parent isOpen
  have open' := isOpen.of_writes made
  have written := Disk.extends_writeFile open'.names open'.linkless content
  exact made.trans ((ready.of_extends made).writes open'.inside.1
    (written.mono (fun _ same => same ▸ prefix_refl _) fun _ _ impossible => impossible))

/-- The links to be made later are on open paths, and there are none on Linux. -/
def PendingOpen (extractor : Extractor) (state : Extraction) : Prop :=
  ∀ link ∈ state.pendingLinks, extractor.linux = false ∧ extractor.Open state.disk link.path

variable {entries : List TarEntry} {state after : Extraction}

theorem PendingOpen.of_extends (pending : extractor.PendingOpen state)
    (step : Disk.Extends extractor.Inside (extractor.Judged entries) state.disk after.disk)
    (same : after.pendingLinks = state.pendingLinks) : extractor.PendingOpen after := by
  intro link member
  rw [same] at member
  obtain ⟨notLinux, isOpen⟩ := pending link member
  refine ⟨notLinux, isOpen.of_writes (step.mono (fun _ inside => inside) ?_)⟩
  intro _ _ judged
  exact absurd judged.linux (by simp [notLinux])

/-- What an entry does to the state of an extraction. -/
structure Advances (extractor : Extractor) (entries : List TarEntry) (disk : Disk)
    (after : Extraction) : Prop where
  extends_disk : Disk.Extends extractor.Inside (extractor.Judged entries) disk after.disk
  pending : extractor.PendingOpen after

theorem Advances.of_same
    (pending : extractor.PendingOpen state) (sameDisk : after.disk = state.disk)
    (sameLinks : after.pendingLinks = state.pendingLinks) :
    extractor.Advances entries state.disk after := by
  have step : Disk.Extends extractor.Inside (extractor.Judged entries) state.disk after.disk := by
    rw [sameDisk]
    exact .refl _
  exact ⟨step, pending.of_extends step sameLinks⟩

theorem Advances.of_written (pending : extractor.PendingOpen state)
    (step : extractor.Writes state.disk after.disk)
    (sameLinks : after.pendingLinks = state.pendingLinks) :
    extractor.Advances entries state.disk after := by
  have wider : Disk.Extends extractor.Inside (extractor.Judged entries) state.disk after.disk :=
    step.mono (fun _ inside => inside) fun _ _ impossible => impossible.elim
  exact ⟨wider, pending.of_extends wider sameLinks⟩

theorem Ready.extractReg (state : Extraction) (ready : extractor.Ready state.disk)
    (pending : extractor.PendingOpen state) {target : Location}
    (isOpen : extractor.Open state.disk target) (content : Bytes) :
    extractor.Advances entries state.disk (Extractor.extractReg state target content).1 := by
  fun_cases Extractor.extractReg state target content
  · exact .of_written pending (ready.writes_parent isOpen) rfl
  all_goals exact .of_written pending (ready.writes_file isOpen _) rfl

theorem Ready.extractSymlink (state : Extraction) (ready : extractor.Ready state.disk)
    (pending : extractor.PendingOpen state) {target : Location}
    (isOpen : extractor.Open state.disk target) {entry : TarEntry} (isEntry : entry ∈ entries) :
    extractor.Advances entries state.disk
      (extractor.extractSymlink state target entry.linkname) := by
  fun_cases Extractor.extractSymlink extractor state target entry.linkname
  case case4 linkTarget resolved _ isLinux =>
    have step : Disk.Extends (· <+: target) (extractor.Judged entries) state.disk _ :=
      (Disk.extends_symlink isOpen.names isOpen.linkless _).mono
        (fun _ same => same ▸ prefix_refl _) (by
          rintro _ _ ⟨rfl, rfl⟩
          exact .of_resolveLinkname isEntry isOpen.names isLinux resolved)
    have wider := ready.extends isOpen.inside.1 step fun _ _ same => same
    exact ⟨wider, pending.of_extends wider rfl⟩
  case case5 linkTarget resolved _ notLinux =>
    refine ⟨.refl _, ?_⟩
    intro link member
    cases mem_append.mp member with
    | inl old => exact pending link old
    | inr new =>
      rw [mem_singleton.mp new]
      exact ⟨by simpa using notLinux, isOpen⟩
  all_goals exact .of_same pending rfl rfl

theorem Ready.extractEntry (ready : extractor.Ready state.disk)
    (pending : extractor.PendingOpen state) {entry : TarEntry} (isEntry : entry ∈ entries) :
    extractor.Advances entries state.disk (extractor.extractEntry state entry).1 := by
  have areNames := isName_of_mem_join ready.names (strip state.stripPrefix entry).2
  have isOpen (inside : ¬¬extractor.Inside (join extractor.dir (strip state.stripPrefix entry).2))
      (clear : ¬traversesSymlink state.disk extractor.dir
        (join extractor.dir (strip state.stripPrefix entry).2) = true) :
      extractor.Open state.disk (join extractor.dir (strip state.stripPrefix entry).2) :=
    have within := not_not.mp inside
    ⟨areNames, within, ready.linkless areNames within.1 (by simpa using clear)⟩
  fun_cases Extractor.extractEntry extractor state entry
  case case7 inside clear _ =>
    exact .of_written pending (ready.writes (isOpen inside clear).inside.1
      (Disk.extends_mkdirAll areNames (isOpen inside clear).linkless)) rfl
  case case8 next _ _ _ _ _ inside clear _ =>
    exact Ready.extractReg next ready pending (isOpen inside clear) _
  case case9 next _ _ _ _ _ inside clear _ =>
    exact Ready.extractSymlink next ready pending (isOpen inside clear) isEntry
  all_goals exact .of_same pending rfl rfl

/-! ### Whole archives -/

theorem Ready.extractEntries (ready : extractor.Ready state.disk)
    (pending : extractor.PendingOpen state) {some : List TarEntry} (areEntries : some ⊆ entries) :
    extractor.Advances entries state.disk (extractor.extractEntries state some).1 := by
  induction some generalizing state with
  | nil => exact .of_same pending rfl rfl
  | cons entry others ih =>
    obtain ⟨isEntry, othersToo⟩ := cons_subset.mp areEntries
    have step := ready.extractEntry pending isEntry
    simp only [Extractor.extractEntries]
    split
    · have rest := ih (ready.of_extends step.extends_disk) step.pending othersToo
      exact ⟨step.extends_disk.trans rest.extends_disk, rest.pending⟩
    · exact step

section

variable (ready : extractor.Ready disk)

include ready

theorem Ready.writes_copy {path : Location} (isOpen : extractor.Open disk path) (content : Bytes) :
    extractor.Writes disk (copyFileContents disk content path) := by
  fun_cases copyFileContents disk content path
  · exact ready.writes_file isOpen content
  · exact ready.writes_parent isOpen

/-- One pass over the links to be made writes inside, and the links that are
left were there before. -/
theorem Ready.materializePass {links : List PendingLink}
    (areOpen : ∀ link ∈ links, extractor.Open disk link.path) :
    extractor.Writes disk (Extractor.materializePass disk links).1 ∧
      ∀ link ∈ (Extractor.materializePass disk links).2, link ∈ links := by
  induction links generalizing disk with
  | nil => exact ⟨.refl disk, fun _ member => member⟩
  | cons link links ih =>
    have rest := @ih disk ready (forall_mem_cons.mp areOpen).2
    have waiting : ∀ other ∈ link :: (Extractor.materializePass disk links).2,
        other ∈ link :: links := by
      intro other member
      cases mem_cons.mp member with
      | inl same => exact same ▸ mem_cons_self
      | inr old => exact mem_cons_of_mem _ (rest.2 other old)
    unfold Extractor.materializePass
    split
    · split
      · rename_i content _
        have copied := ready.writes_copy (areOpen link mem_cons_self) content
        obtain ⟨further, old⟩ := ih (ready.of_extends copied) fun other member =>
          (areOpen other (mem_cons_of_mem _ member)).of_writes copied
        exact ⟨copied.trans further, fun other member => mem_cons_of_mem _ (old other member)⟩
      · exact ⟨rest.1, waiting⟩
    all_goals exact ⟨rest.1, waiting⟩

theorem Ready.materializeLinks {links : List PendingLink}
    (areOpen : ∀ link ∈ links, extractor.Open disk link.path) (passes : Nat) :
    extractor.Writes disk (Extractor.materializeLinks passes disk links) := by
  induction passes generalizing disk links with
  | zero => exact .refl disk
  | succ passes ih =>
    obtain ⟨pass, left⟩ := ready.materializePass areOpen
    simp only [Extractor.materializeLinks]
    split
    · exact pass
    · exact pass.trans (ih (ready.of_extends pass) fun link member =>
        (areOpen link (left link member)).of_writes pass)

theorem Ready.start (entries : List TarEntry) :
    extractor.Advances entries disk
      (extractor.extractEntries ⟨disk, [], [], maxExtractedBytes⟩ entries).1 :=
  @Ready.extractEntries extractor entries ⟨disk, [], [], maxExtractedBytes⟩ ready
    (fun _ member => absurd member (by simp)) entries (Subset.refl _)

theorem Ready.extends_extract {extracted : Bool} {archive : Archive}
    (returned : (extractor.extract extracted disk archive).2 = true) :
    Disk.Extends extractor.Inside (extractor.Judged archive.entries) disk
      (extractor.extract extracted disk archive).1 := by
  revert returned
  fun_cases extract extractor extracted disk archive
  · exact fun _ => .refl disk
  · nofun
  · intro _
    have entries := ready.start archive.entries
    have areOpen link member := (entries.pending link member).2
    exact entries.extends_disk.trans (((ready.of_extends entries.extends_disk).materializeLinks
      areOpen _).mono (fun _ inside => inside) fun _ _ impossible => impossible.elim)
  · nofun

end

/-- Whatever the archive holds, all that an extraction creates or writes is
below the package directory. -/
theorem extract_writes_inside (extractor : Extractor) (disk : Disk)
    (ready : extractor.Ready disk) (extracted : Bool) (archive : Archive) :
    ∃ new, (extractor.extract extracted disk archive).1.written = disk.written ++ new ∧
      ∀ location ∈ new, extractor.dir <+: location ∧ location ≠ extractor.dir := by
  have inside {after : Disk} {expected : Location → Bytes → Prop}
      (step : Disk.Extends extractor.Inside expected disk after) :
      ∃ new, after.written = disk.written ++ new ∧
        ∀ location ∈ new, extractor.dir <+: location ∧ location ≠ extractor.dir := by
    obtain ⟨new, same, inside⟩ := step.written
    exact ⟨new, same, fun location member => (inside location member).1⟩
  by_cases returned : (extractor.extract extracted disk archive).2 = true
  · exact inside (ready.extends_extract returned)
  · -- what was written before the failure was written by entries
    revert returned
    fun_cases extract extractor extracted disk archive
    · nofun
    · exact fun _ => ⟨[], (append_nil _).symm, by simp⟩
    · nofun
    · exact fun _ => (inside (ready.start archive.entries).extends_disk :)

/-! ### Later reads -/

def exampleHost : Disk where
  nodes location :=
    if location = [] ∨ location = [utf8 "p"] then some .dir
    else if location = [utf8 "secret"] then some (.file [])
    else none
  root := by simp
  closed := by
    intro location name present
    have top : location = [] := by
      by_contra deep
      apply present
      have long : ∀ other : Bytes, location ++ [name] ≠ [other] := by
        intro other same
        have shorter := congrArg List.length same
        have positive := length_pos_of_ne_nil deep
        simp at shorter
        exact deep shorter
      rw [if_neg (by simp [long]), if_neg (long _)]
    simp [top]
  written := []

def exampleExtractor : Extractor :=
  ⟨true, [utf8 "p"]⟩

def linkArchive (links : List (String × String)) : Archive :=
  ⟨true, links.map fun link => ⟨utf8 link.1, .symlink, utf8 link.2, []⟩, true⟩

theorem exampleExtractor_ready : exampleExtractor.Ready exampleHost where
  names := by
    intro name member
    rw [mem_singleton.mp member]
    unfold IsName
    decide
  isDir := by simp [exampleHost, exampleExtractor]

theorem exampleHost_linkless (location : Location) : exampleHost.isLink location = false := by
  simp only [Disk.isLink, exampleHost]
  split
  · rename_i found
    split at found
    · cases found
    · split at found
      · cases found
      · cases found
  · rfl

theorem extract_writes_inside_link :
    ∃ new, (exampleExtractor.extract false exampleHost (linkArchive [("s", ".")])).1.written =
        exampleHost.written ++ new ∧
      ∀ location ∈ new, exampleExtractor.dir <+: location ∧ location ≠ exampleExtractor.dir :=
  extract_writes_inside exampleExtractor exampleHost exampleExtractor_ready false
    (linkArchive [("s", ".")])

end Extractor

end Jerboa.Packages
