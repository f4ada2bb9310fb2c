import Jerboa.RootedPaths

/-!
# The build context of a client

`extractBuildContext` of `internal/apiserver/imagebuild.go` unpacks the tar
stream of a client into a directory of the daemon and stops once it has written
more than the limit.  Permission bits are left out, and a write fails only where
the disk has something in the way.
-/

namespace Jerboa.BuildContext

open Utf8Text PosixFiles Packages List

/-- `pkg.File` as it is returned; a directory has no host path. -/
structure ContextFile where
  hostPath : Option Location
  guestPath : Bytes
  isDir : Bool
deriving DecidableEq, Repr

inductive ContextError
  | readTar
  | escapes (guestPath : Bytes)
  | mkdir (name : Bytes)
  | create (dest : Location)
  | exceeds (max : Nat)
deriving DecidableEq, Repr

def ContextError.isFileOperation : ContextError → Bool
  | .mkdir _ | .create _ => true
  | .readTar | .escapes _ | .exceeds _ => false

def trimSlash (name : Bytes) : Bytes :=
  if name.getLast? = some slash then name.dropLast else name

def guestPath (name : Bytes) : Bytes :=
  Image.pathClean (slash :: trimSlash name)

def safeJoin (base : Location) (guestPath : Bytes) : Except ContextError Location :=
  let dest := join base guestPath
  if (filepathRel base dest).head? = some dotDot then .error (.escapes guestPath) else .ok dest

structure Context where
  disk : Disk
  files : List ContextFile
  remaining : Int
  wrote : Nat

/-- `writeFileFromTar`: the disk after it, the bytes that it wrote and its error. -/
def writeFileFromTar (max : Nat) (disk : Disk) (dest : Location) (content : Bytes) (budget : Int) :
    Disk × Nat × Option ContextError :=
  if budget ≤ 0 then (disk, 0, some (.exceeds max))
  else
    let copied := content.take (budget + 1).toNat
    let out := disk.writeFile copied dest
    if out.2 = false then (out.1, 0, some (.create dest))
    else if budget < copied.length then (out.1, copied.length, some (.exceeds max))
    else (out.1, copied.length, none)

def extractDir (s : Context) (dest : Location) (name guestPath : Bytes) :
    Context × Option ContextError :=
  let made := s.disk.mkdirAll dest
  if made.2 = false then ({ s with disk := made.1 }, some (.mkdir name))
  else ({ s with disk := made.1, files := s.files ++ [⟨none, guestPath.drop 1, true⟩] }, none)

def extractReg (max : Nat) (s : Context) (dest : Location) (name guestPath content : Bytes) :
    Context × Option ContextError :=
  let made := s.disk.mkdirAll dest.dropLast
  if made.2 = false then ({ s with disk := made.1 }, some (.mkdir name))
  else
    match writeFileFromTar max made.1 dest content s.remaining with
    | (disk, n, some failure) => ({ s with disk := disk, wrote := s.wrote + n }, some failure)
    | (disk, n, none) =>
      ({ disk := disk
         files := s.files ++ [⟨some dest, guestPath.drop 1, false⟩]
         remaining := s.remaining - n
         wrote := s.wrote + n }, none)

def extractEntry (max : Nat) (dir : Location) (s : Context) (entry : TarEntry) :
    Context × Option ContextError :=
  let path := guestPath entry.name
  match entry.typeflag with
  | .dir =>
    match safeJoin dir path with
    | .error failure => (s, some failure)
    | .ok dest => extractDir s dest entry.name path
  | .reg =>
    match safeJoin dir path with
    | .error failure => (s, some failure)
    | .ok dest => extractReg max s dest entry.name path entry.content
  | .link | .symlink | .other => (s, none)

def extractEntries (max : Nat) (dir : Location) : Context → List TarEntry →
    Context × Option ContextError
  | s, [] => (s, none)
  | s, entry :: entries =>
    match extractEntry max dir s entry with
    | (s, some failure) => (s, some failure)
    | (s, none) => extractEntries max dir s entries

structure Outcome where
  disk : Disk
  wrote : Nat
  result : Except ContextError (List ContextFile)

/-- `extractBuildContext` with `max` for `maxBuildContextBytes`. -/
def extractBuildContext (max : Nat) (disk : Disk) (dir : Location) (archive : Archive) : Outcome :=
  match extractEntries max dir ⟨disk, [], max, 0⟩ archive.entries with
  | (s, some failure) => ⟨s.disk, s.wrote, .error failure⟩
  | (s, none) =>
    ⟨s.disk, s.wrote, if archive.endsWell then .ok s.files else .error .readTar⟩

def parts (name : Bytes) : Location :=
  cleanParts (slash :: trimSlash name)

theorem isName_of_mem_parts {name : Bytes} : ∀ part ∈ parts name, IsName part :=
  fun part member => (isComponent_of_mem_cleanParts part member).1

theorem safeJoin_guestPath (dir : Location) (name : Bytes) :
    safeJoin dir (guestPath name) = .ok (dir ++ parts name) := by
  have dest : join dir (guestPath name) = dir ++ parts name := by
    rw [guestPath, pathClean_rooted, join_rooted isComponent_of_mem_cleanParts]
    rfl
  have inside : (parts name).head? ≠ some dotDot := by
    intro up
    have member := mem_of_mem_head? up
    exact (isName_of_mem_parts _ member).2.2 rfl
  simp only [safeJoin, dest, filepathRel_append, if_neg inside]

/-! ### A directory without links -/

/-- The directory is there, and no link stands in it. -/
structure Ready (dir : Location) (disk : Disk) : Prop where
  areNames : ∀ name ∈ dir, IsName name
  isDir : disk.nodes dir = some .dir
  linkless : ∀ location, dir <+: location → disk.isLink location = false

abbrev Within (dir : Location) (before after : Disk) : Prop :=
  Disk.Extends (fun location => dir <+: location) (fun _ _ => False) before after

variable {dir : Location} {disk before after : Disk}

theorem Ready.above (ready : Ready dir disk) {location : Location} (isPrefix : location <+: dir) :
    disk.nodes location = some .dir := by
  by_cases same : location = dir
  · rw [same]
    exact ready.isDir
  · exact Disk.dir_above (by rw [ready.isDir]; simp) isPrefix same

theorem Ready.linkless_path (ready : Ready dir disk) {rest path : Location}
    (below : path <+: dir ++ rest) : disk.Linkless path := by
  intro above isPrefix
  rcases prefix_or_prefix_of_prefix (isPrefix.trans below) (prefix_append dir rest) with
    higher | lower
  · simp [Disk.isLink, ready.above higher]
  · exact ready.linkless above lower

theorem Ready.names (ready : Ready dir disk) {rest : Location}
    (areNames : ∀ name ∈ rest, IsName name) : ∀ name ∈ dir ++ rest, IsName name :=
  forall_mem_append.mpr ⟨ready.areNames, areNames⟩

theorem Ready.preserved (ready : Ready dir before) (within : Within dir before after) :
    Ready dir after where
  areNames := ready.areNames
  isDir := within.dirs dir ready.isDir
  linkless := by
    intro location below
    have notLink := ready.linkless location below
    unfold Disk.isLink at notLink ⊢
    split
    · rename_i target found
      rcases within.links location target found with old | impossible
      · simp [old] at notLink
      · exact impossible.elim
    · rfl

theorem Ready.mkdirAll (ready : Ready dir disk) {rest path : Location}
    (areNames : ∀ name ∈ rest, IsName name) (below : path <+: dir ++ rest) :
    Within dir disk (disk.mkdirAll path).1 := by
  have made := Disk.extends_mkdirAll
    (fun name member => ready.names areNames name (below.subset member))
    (ready.linkless_path below)
  refine ⟨?_, made.links, made.dirs⟩
  obtain ⟨new, written, allowed⟩ := made.written
  refine ⟨new, written, fun location member => ⟨?_, (allowed location member).2⟩⟩
  obtain ⟨above, notDir⟩ := allowed location member
  rcases prefix_or_prefix_of_prefix (above.trans below) (prefix_append dir rest) with
    higher | lower
  · exact absurd (ready.above higher) notDir
  · exact lower

theorem Ready.writeFile (ready : Ready dir disk) {rest : Location}
    (areNames : ∀ name ∈ rest, IsName name) (content : Bytes) :
    Within dir disk (disk.writeFile content (dir ++ rest)).1 := by
  have linkless := ready.linkless_path (prefix_refl (dir ++ rest))
  exact (Disk.extends_writeFile (ready.names areNames) linkless content).mono
    (fun location same => same ▸ prefix_append dir rest) (fun _ _ impossible => impossible)

/-! ### What has been written -/

def isRegular (entry : TarEntry) : Bool :=
  entry.typeflag = .reg

def total (entries : List TarEntry) : Nat :=
  ((entries.filter isRegular).map fun entry => entry.content.length).sum

def lastContent (dir : Location) (entries : List TarEntry) (location : Location) : Option Bytes :=
  ((entries.filter fun entry => isRegular entry ∧ dir ++ parts entry.name = location).getLast?).map
    TarEntry.content

theorem total_append (first second : List TarEntry) :
    total (first ++ second) = total first + total second := by
  simp [total]

theorem total_singleton (entry : TarEntry) :
    total [entry] = if isRegular entry then entry.content.length else 0 := by
  by_cases regular : isRegular entry = true <;> simp [total, regular]

theorem lastContent_concat (entries : List TarEntry) (entry : TarEntry) (location : Location) :
    lastContent dir (entries ++ [entry]) location =
      if isRegular entry ∧ dir ++ parts entry.name = location then some entry.content
      else lastContent dir entries location := by
  by_cases last : isRegular entry = true ∧ dir ++ parts entry.name = location
  · simp [lastContent, last]
  · rw [lastContent, filter_append, filter_singleton]
    simp [lastContent, last]

def InTime (max : Nat) (entries : List TarEntry) : Prop :=
  ∀ earlier entry later, entries = earlier ++ entry :: later → isRegular entry = true →
    total earlier < max

theorem InTime.concat {max : Nat} {seen : List TarEntry} {entry : TarEntry}
    (inTime : InTime max seen) (last : isRegular entry = true → total seen < max) :
    InTime max (seen ++ [entry]) := by
  intro earlier other later split regular
  rcases eq_nil_or_concat later with rfl | ⟨front, other', rfl⟩
  · obtain ⟨rfl, ⟨⟩⟩ := append_inj' split rfl
    exact last regular
  · rw [concat_eq_append, ← cons_append, ← append_assoc] at split
    obtain ⟨rfl, -⟩ := append_inj' split rfl
    exact inTime earlier other front rfl regular

structure Progress (max : Nat) (dir : Location) (start : Disk) (seen : List TarEntry)
    (s : Context) : Prop where
  within : Within dir start s.disk
  spent : s.wrote = total seen
  left : s.remaining = max - total seen
  bounded : total seen ≤ max
  inTime : InTime max seen
  holds : ∀ location content, lastContent dir seen location = some content →
    s.disk.nodes location = some (.file content)
  files : ∀ file ∈ s.files, file.isDir = false →
    ∃ entry ∈ seen, isRegular entry = true ∧ file.hostPath = some (dir ++ parts entry.name) ∧
      file.guestPath = (guestPath entry.name).drop 1

/-- How an entry ends the extraction: a file operation failed, or the limit was
used up or is exceeded by a regular entry. -/
structure Stopped (max : Nat) (dir : Location) (start : Disk) (seen : List TarEntry)
    (entry : TarEntry) (s : Context) (failure : ContextError) : Prop where
  within : Within dir start s.disk
  spent : s.wrote ≤ max + 1
  reason : failure.isFileOperation = true ∨
    isRegular entry = true ∧ (max ≤ total seen ∨ max < total seen + entry.content.length)

def Turned (max : Nat) (dir : Location) (start : Disk) (seen : List TarEntry) (entry : TarEntry) :
    Context × Option ContextError → Prop
  | (s, none) => Progress max dir start (seen ++ [entry]) s
  | (s, some failure) => Stopped max dir start seen entry s failure

variable {max : Nat} {start : Disk} {seen : List TarEntry} {s : Context} {entry : TarEntry}

section

variable (progress : Progress max dir start seen s)

include progress

theorem Progress.quiet (other : isRegular entry = false)
    {after : Context} (within : Within dir s.disk after.disk)
    (kept : ∀ location, s.disk.nodes location ≠ none →
      after.disk.nodes location = s.disk.nodes location)
    (spent : after.wrote = s.wrote) (left : after.remaining = s.remaining)
    (files : ∀ file ∈ after.files, file.isDir = false → file ∈ s.files) :
    Progress max dir start (seen ++ [entry]) after := by
  have same : total (seen ++ [entry]) = total seen := by
    simp [total_append, total_singleton, other]
  refine ⟨progress.within.trans within, ?_, ?_, ?_, ?_, ?_, ?_⟩
  · rw [spent, same, progress.spent]
  · rw [left, same, progress.left]
  · rw [same]
    exact progress.bounded
  · exact progress.inTime.concat fun regular => absurd regular (by simp [other])
  · intro location content found
    rw [lastContent_concat, if_neg (by simp [other])] at found
    have there := progress.holds location content found
    rw [kept location (by rw [there]; simp), there]
  · intro file member regular
    obtain ⟨earlier, inside, rest⟩ := progress.files file (files file member regular) regular
    exact ⟨earlier, mem_append_left _ inside, rest⟩

theorem Progress.stopped_by_file {failure : ContextError}
    (operation : failure.isFileOperation = true) {disk : Disk} (within : Within dir s.disk disk) :
    Stopped max dir start seen entry { s with disk := disk } failure := by
  refine ⟨progress.within.trans within, ?_, .inl operation⟩
  have bounded := progress.bounded
  simp only [progress.spent]
  omega

theorem Progress.extractDir (ready : Ready dir start)
    (other : isRegular entry = false) :
    Turned max dir start seen entry
      (extractDir s (dir ++ parts entry.name) entry.name (guestPath entry.name)) := by
  have made := (ready.preserved progress.within).mkdirAll isName_of_mem_parts
    (prefix_refl (dir ++ parts entry.name))
  unfold BuildContext.extractDir
  dsimp only
  split
  · exact progress.stopped_by_file rfl made
  · refine @Progress.quiet _ _ _ _ _ _ progress other _ made
      (fun location present => Disk.nodes_mkdirAll_of_present present _) rfl rfl ?_
    intro file member regular
    rcases mem_append.mp member with old | new
    · exact old
    · rw [mem_singleton.mp new] at regular
      cases regular

theorem Progress.file (regular : isRegular entry = true)
    (more : total seen < max) (fits : total seen + entry.content.length ≤ max) {after : Disk}
    (within : Within dir s.disk after)
    (nodes : ∀ location, after.nodes location =
      if location = dir ++ parts entry.name then some (.file entry.content)
      else (s.disk.mkdirAll (dir ++ parts entry.name).dropLast).1.nodes location) :
    Progress max dir start (seen ++ [entry])
      { disk := after
        files := s.files ++ [⟨some (dir ++ parts entry.name), (guestPath entry.name).drop 1, false⟩]
        remaining := s.remaining - entry.content.length
        wrote := s.wrote + entry.content.length } := by
  have sum : total (seen ++ [entry]) = total seen + entry.content.length := by
    simp [total_append, total_singleton, regular]
  refine ⟨progress.within.trans within, ?_, ?_, ?_, ?_, ?_, ?_⟩
  · rw [sum, progress.spent]
  · simp only [sum, progress.left]
    omega
  · rw [sum]
    exact fits
  · exact progress.inTime.concat fun _ => more
  · intro location content found
    rw [lastContent_concat] at found
    simp only [regular, true_and] at found
    rw [nodes location]
    by_cases here : location = dir ++ parts entry.name
    · rw [if_pos here.symm] at found
      rw [if_pos here, Option.some.inj found]
    · rw [if_neg fun same => here same.symm] at found
      have there := progress.holds location content found
      rw [if_neg here, Disk.nodes_mkdirAll_of_present (by rw [there]; simp), there]
  · intro file member isFile
    rcases mem_append.mp member with old | new
    · obtain ⟨earlier, inside, rest⟩ := progress.files file old isFile
      exact ⟨earlier, mem_append_left _ inside, rest⟩
    · rw [mem_singleton.mp new]
      exact ⟨entry, by simp, regular, rfl, rfl⟩

end

theorem Progress.extractReg (progress : Progress max dir start seen s) (ready : Ready dir start)
    (regular : isRegular entry = true) :
    Turned max dir start seen entry
      (extractReg max s (dir ++ parts entry.name) entry.name (guestPath entry.name)
        entry.content) := by
  have here := ready.preserved progress.within
  have made := here.mkdirAll isName_of_mem_parts (List.dropLast_prefix (dir ++ parts entry.name))
  have there := here.preserved made
  have bounded := progress.bounded
  have spent := progress.spent
  have left := progress.left
  unfold BuildContext.extractReg
  dsimp only
  split
  · exact progress.stopped_by_file rfl made
  · have written (content : Bytes) := there.writeFile (@isName_of_mem_parts entry.name) content
    fun_cases writeFileFromTar max (s.disk.mkdirAll (dir ++ parts entry.name).dropLast).1
      (dir ++ parts entry.name) entry.content s.remaining
    case case1 used =>
      exact ⟨progress.within.trans made, by simp only; omega, .inr ⟨regular, .inl (by omega)⟩⟩
    case case2 => exact progress.stopped_by_file rfl (made.trans (written _))
    case case3 used copied _ _ large =>
      have length : copied.length = min _ _ := length_take
      exact ⟨progress.within.trans (made.trans (written _)), by simp only; omega,
        .inr ⟨regular, .inr (by omega)⟩⟩
    case case4 used copied _ opened fits =>
      have length : copied.length = min _ _ := length_take
      have whole : copied = entry.content := take_of_length_le (by omega)
      have nodes := Disk.nodes_writeFile (ready.names isName_of_mem_parts)
        (there.linkless_path (prefix_refl _)) (by simpa using opened)
      rw [whole] at fits
      simp only [whole]
      exact progress.file regular (by omega) (by omega) (made.trans (written _))
        fun location => (nodes location).trans (by rw [whole])

theorem Progress.extractEntry (progress : Progress max dir start seen s) (ready : Ready dir start)
    (entry : TarEntry) : Turned max dir start seen entry (extractEntry max dir s entry) := by
  have ignored (other : isRegular entry = false) : Turned max dir start seen entry (s, none) :=
    progress.quiet other (.refl _) (fun _ _ => rfl) rfl rfl fun _ member _ => member
  unfold BuildContext.extractEntry
  simp only [safeJoin_guestPath]
  cases flag : entry.typeflag with
  | dir => exact progress.extractDir ready (by simp [isRegular, flag])
  | reg => exact progress.extractReg ready (by simp [isRegular, flag])
  | link | symlink | other => exact ignored (by simp [isRegular, flag])

/-! ### Whole streams -/

theorem Progress.extractEntries (progress : Progress max dir start seen s) (ready : Ready dir start)
    (entries : List TarEntry) :
    (∃ after, extractEntries max dir s entries = (after, none) ∧
        Progress max dir start (seen ++ entries) after) ∨
      ∃ earlier entry later after failure, entries = earlier ++ entry :: later ∧
        extractEntries max dir s entries = (after, some failure) ∧
          total (seen ++ earlier) ≤ max ∧
            Stopped max dir start (seen ++ earlier) entry after failure := by
  induction entries generalizing seen s with
  | nil => exact .inl ⟨s, rfl, by simpa using progress⟩
  | cons entry entries ih =>
    have turned := progress.extractEntry ready entry
    cases stepped : BuildContext.extractEntry max dir s entry with
    | mk next failure =>
      rw [stepped] at turned
      cases failure with
      | some failure =>
        have stopped : Stopped max dir start seen entry next failure := turned
        refine .inr ⟨[], entry, entries, next, failure, rfl, ?_, ?_, ?_⟩
        · rw [BuildContext.extractEntries, stepped]
        · simpa using progress.bounded
        · simpa using stopped
      | none =>
        have continued : BuildContext.extractEntries max dir s (entry :: entries) =
            BuildContext.extractEntries max dir next entries := by
          rw [BuildContext.extractEntries, stepped]
        have further : Progress max dir start (seen ++ [entry]) next := turned
        rw [continued]
        rcases ih further with ⟨after, run, done⟩ |
          ⟨earlier, other, later, after, failure, rfl, run, bounded, stopped⟩
        · exact .inl ⟨after, run, by simpa using done⟩
        · exact .inr ⟨entry :: earlier, other, later, after, failure, rfl, run,
            by simpa using bounded, by simpa using stopped⟩

/-- What the extraction of a stream of entries is to do: write below the
directory only, at most one byte more than the limit, succeed exactly if the
regular entries stay within the limit, and then return files that hold the
content of the last entry for their path. -/
structure Sound (max : Nat) (disk : Disk) (dir : Location) (entries : List TarEntry)
    (outcome : Outcome) : Prop where
  confined : ∃ new, outcome.disk.written = disk.written ++ new ∧
    ∀ location ∈ new, dir <+: location
  bounded : outcome.wrote ≤ max + 1
  exact : (∃ files, outcome.result = .ok files) ↔ total entries ≤ max
  contents : ∀ files, outcome.result = .ok files → ∀ file ∈ files, file.isDir = false →
    ∃ location content, file.hostPath = some location ∧
      lastContent dir entries location = some content ∧
        outcome.disk.nodes location = some (.file content)

theorem Within.confined (within : Within dir before after) :
    ∃ new, after.written = before.written ++ new ∧ ∀ location ∈ new, dir <+: location := by
  obtain ⟨new, written, allowed⟩ := within.written
  exact ⟨new, written, fun location member => (allowed location member).1⟩

theorem exists_lastContent {entries : List TarEntry} (inside : entry ∈ entries)
    (regular : isRegular entry = true) :
    ∃ content, lastContent dir entries (dir ++ parts entry.name) = some content := by
  have member : entry ∈ entries.filter fun other =>
      isRegular other ∧ dir ++ parts other.name = dir ++ parts entry.name :=
    mem_filter.mpr ⟨inside, by simp [regular]⟩
  rw [lastContent, getLast?_eq_some_getLast (ne_nil_of_mem member)]
  exact ⟨_, rfl⟩

theorem inTime_nil (max : Nat) : InTime max [] := by
  intro earlier entry later split
  simp at split

theorem progress_start (max : Nat) (disk : Disk) (dir : Location) :
    Progress max dir disk [] ⟨disk, [], max, 0⟩ :=
  ⟨.refl disk, rfl, by simp [total], Nat.zero_le _, inTime_nil max, nofun, nofun⟩

/-- Where no file operation fails, the extraction does what it is to do exactly
if no regular entry, not even an empty one, comes when the limit has been
reached without being exceeded. -/
theorem build_context_sound_iff (max : Nat) (disk : Disk) (dir : Location)
    (entries : List TarEntry) (ready : Ready dir disk)
    (operations : ∀ failure,
      (extractBuildContext max disk dir ⟨true, entries, true⟩).result = .error failure →
        failure.isFileOperation = false) :
    Sound max disk dir entries (extractBuildContext max disk dir ⟨true, entries, true⟩) ↔
      (total entries ≤ max → InTime max entries) := by
  revert operations
  rcases (progress_start max disk dir).extractEntries ready entries with ⟨s, run, progress⟩ |
      ⟨earlier, entry, later, s, failure, split, run, before, stopped⟩
  · rw [nil_append] at progress
    have outcome : extractBuildContext max disk dir ⟨true, entries, true⟩ =
        ⟨s.disk, s.wrote, .ok s.files⟩ := by
      rw [extractBuildContext, run]
      rfl
    intro _
    rw [outcome]
    refine ⟨fun _ _ => progress.inTime, fun _ => ⟨progress.within.confined, ?_, ?_, ?_⟩⟩
    · have bounded := progress.bounded
      simp only [progress.spent]
      omega
    · exact ⟨fun _ => progress.bounded, fun _ => ⟨_, rfl⟩⟩
    · intro files returned file member isFile
      cases returned
      obtain ⟨entry, inside, regular, hostPath, -⟩ := progress.files file member isFile
      obtain ⟨content, last⟩ := exists_lastContent inside regular
      exact ⟨_, content, hostPath, last, progress.holds _ content last⟩
  · rw [nil_append] at before stopped
    have outcome : extractBuildContext max disk dir ⟨true, entries, true⟩ =
        ⟨s.disk, s.wrote, .error failure⟩ := by
      rw [extractBuildContext, run]
    intro operations
    rw [outcome] at operations ⊢
    rcases stopped.reason with operation | ⟨regular, reason⟩
    · exact absurd (operations failure rfl) (by simp [operation])
    · have sum : total entries = total earlier + entry.content.length + total later := by
        rw [split, total_append, ← singleton_append, total_append, total_singleton,
          if_pos regular]
        omega
      constructor
      · intro sound within
        obtain ⟨files, returned⟩ := sound.exact.mpr within
        cases returned
      · intro inTime
        have exceeded : max < total entries := by
          by_contra within
          have room := inTime (by omega) earlier entry later split regular
          omega
        refine ⟨stopped.within.confined, stopped.spent, ?_, nofun⟩
        constructor
        · rintro ⟨files, returned⟩
          cases returned
        · intro within
          omega

def contextDisk : Disk :=
  .ofDirectories [[utf8 "context"]]

theorem ready_contextDisk : Ready [utf8 "context"] contextDisk :=
  ⟨by unfold IsName; decide, by decide, fun _ _ => Disk.isLink_ofDirectories _ _⟩

def regularEntry (name : String) (content : Bytes) : TarEntry :=
  ⟨utf8 name, .reg, [], content⟩

theorem build_context_sound_full :
    Sound 4 contextDisk [utf8 "context"]
      [regularEntry "../a" [1], regularEntry "b/c" [], regularEntry "a" [2, 3, 4]]
      (extractBuildContext 4 contextDisk [utf8 "context"] ⟨true,
        [regularEntry "../a" [1], regularEntry "b/c" [], regularEntry "a" [2, 3, 4]], true⟩) := by
  have succeeded : (extractBuildContext 4 contextDisk [utf8 "context"] ⟨true,
      [regularEntry "../a" [1], regularEntry "b/c" [], regularEntry "a" [2, 3, 4]], true⟩).result =
      .ok [⟨some [utf8 "context", utf8 "a"], utf8 "a", false⟩,
        ⟨some [utf8 "context", utf8 "b", utf8 "c"], utf8 "b/c", false⟩,
        ⟨some [utf8 "context", utf8 "a"], utf8 "a", false⟩] := by decide
  refine (build_context_sound_iff 4 contextDisk [utf8 "context"] _ ready_contextDisk ?_).mpr ?_
  · intro failure failed
    rw [succeeded] at failed
    cases failed
  · intro _
    exact (((inTime_nil 4).concat fun _ => by decide).concat fun _ => by decide).concat
      fun _ => by decide

/-- Four bytes are allowed and four are there, but the empty file that follows
them ends the extraction. -/
theorem empty_file_after_limit :
    (extractBuildContext 4 contextDisk [utf8 "context"]
        ⟨true, [regularEntry "a" [1, 2, 3, 4], regularEntry "b" []], true⟩).result =
        .error (.exceeds 4) ∧
      total [regularEntry "a" [1, 2, 3, 4], regularEntry "b" []] ≤ 4 := by
  decide

end Jerboa.BuildContext
