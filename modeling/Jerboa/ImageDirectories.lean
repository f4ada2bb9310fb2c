import Jerboa.ImageStoreSteps

/-!
# The directories of the image store

`Remove` deletes a directory when the last reference to its digest goes, but
`put` moves a reference to another digest without looking at the one it leaves,
and makes the directory before it knows that the manifest can be written.
-/

namespace Jerboa.Image

variable {hash : Hash} {s : Store}

/-- The directories are the digests in use, and each has its manifest. -/
structure Store.Exact (s : Store) : Prop where
  directories : ∀ sha, (s.dirs.lookup sha).isSome ↔ sha ∈ ValueMap.values s.refs
  manifests : ∀ sha dir, s.dirs.lookup sha = some dir →
    ∃ m, dir.manifest = some m ∧ m.diskDigest = digestLabel ++ sha

/-- A put whose manifest cannot be written is of a disk the store has; any other
leaves no digest without a reference. -/
def Store.Tidy (hash : Hash) (s : Store) : Label → Prop
  | .put name tag m disk =>
    if m.created.written = none then hash.hex disk ∈ ValueMap.values s.refs
    else ∀ old, s.refs.lookup (refOf name tag) = some old → old ≠ hash.hex disk →
      ∃ other, other ≠ refOf name tag ∧ s.refs.lookup other = some old
  | .remove _ => True

theorem exact_empty : Store.empty.Exact where
  directories sha := by simp [Store.empty, ValueMap.values]
  manifests sha dir found := by simp [Store.empty] at found

/-! ### Putting -/

variable {name tag : String} {disk : List UInt8}

theorem exact_put_unwritable_iff {m : Manifest}
    (exact : s.Exact) (unwritable : m.created.written = none) :
    (s.put hash name tag m disk).2.Exact ↔ hash.hex disk ∈ ValueMap.values s.refs := by
  rw [put_of_unwritable unwritable]
  constructor
  · intro after
    apply (after.directories (hash.hex disk)).mp
    simp
  · intro referenced
    obtain ⟨dir, found⟩ := Option.isSome_iff_exists.mp ((exact.directories _).mpr referenced)
    constructor
    · intro sha
      simp only [ValueMap.lookup_insert_cases]
      by_cases same : sha = hash.hex disk
      · simp [same, referenced]
      · simp [same, exact.directories sha]
    · intro sha dir' found'
      simp only [ValueMap.lookup_insert_cases] at found'
      split at found'
      · rename_i same
        obtain rfl := Option.some.inj found'
        simpa [Store.mkdir, found, same] using exact.manifests _ _ found
      · exact exact.manifests sha dir' found'

theorem exact_put_written_iff {m : Manifest}
    {created : Timestamp} (exact : s.Exact) (written : m.created.written = some created) :
    (s.put hash name tag m disk).2.Exact ↔
      ∀ old, s.refs.lookup (refOf name tag) = some old → old ≠ hash.hex disk →
        ∃ other, other ≠ refOf name tag ∧ s.refs.lookup other = some old := by
  rw [put_of_written written]
  constructor
  · -- the directory of the digest left behind is still there
    intro after old found different
    have present : (s.dirs.lookup old).isSome :=
      (exact.directories old).mpr (ValueMap.mem_values.mpr ⟨_, found⟩)
    have referenced := (after.directories old).mp
      (by simpa [ValueMap.lookup_insert_cases, different] using present)
    exact (ValueMap.mem_values_insert.mp referenced).resolve_left different
  · intro kept
    constructor
    · intro sha
      simp only [ValueMap.lookup_insert_cases, ValueMap.mem_values_insert]
      by_cases same : sha = hash.hex disk
      · simp [same]
      · simp only [same, if_false, false_or, exact.directories sha, ValueMap.mem_values]
        constructor
        · intro ⟨ref, found⟩
          by_cases moved : ref = refOf name tag
          · exact kept sha (moved ▸ found) same
          · exact ⟨ref, moved, found⟩
        · intro ⟨ref, _, found⟩
          exact ⟨ref, found⟩
    · intro sha dir found
      simp only [ValueMap.lookup_insert_cases] at found
      split at found
      · rename_i same
        cases found
        exact ⟨_, rfl, by rw [same]; rfl⟩
      · exact exact.manifests sha dir found

theorem exact_remove {ref : String} (exact : s.Exact) : (s.remove ref).2.Exact := by
  cases target : s.removeTarget ref with
  | none => rwa [remove_of_no_target target]
  | some found =>
    obtain ⟨key, sha⟩ := found
    constructor
    · intro digest
      rw [remove_dirs target, remove_refs target]
      by_cases same : digest = sha
      · subst same
        have present := (exact.directories digest).mpr (mem_values_of_removeTarget target)
        by_cases referenced : digest ∈ ValueMap.values (s.unref key digest)
        · simp [referenced, present]
        · simp [referenced]
      · simp [same, mem_values_unref target same, exact.directories digest]
    · intro digest dir present
      rw [remove_dirs target] at present
      split at present
      · simp at present
      · exact exact.manifests digest dir present

/-! ### Runs -/

theorem exact_step_iff (exact : s.Exact) (label : Label) :
    (s.step hash label).Exact ↔ s.Tidy hash label := by
  cases label with
  | put name tag m disk =>
    simp only [Store.step, Store.Tidy]
    cases written : m.created.written with
    | none => simpa using exact_put_unwritable_iff exact written
    | some created => simpa using exact_put_written_iff exact written
  | remove ref => simpa [Store.step, Store.Tidy] using exact_remove exact

theorem exact_of_reachable (reached : (system hash).ReachableUnder (Store.Tidy hash) s) :
    s.Exact := by
  induction reached with
  | start first =>
    obtain rfl := first
    exact exact_empty
  | next previous tidy stepped ih =>
    cases stepped
    exact (exact_step_iff ih _).mpr tidy

/-- In every run whose puts are tidy, the directories are exactly the digests in
use; and a put that is not tidy ends this. -/
theorem directories_exact (reached : (system hash).ReachableUnder (Store.Tidy hash) s) :
    s.Exact ∧ ∀ label, (s.step hash label).Exact ↔ s.Tidy hash label :=
  ⟨exact_of_reachable reached, exact_step_iff (exact_of_reachable reached)⟩

theorem tidy_hello :
    s.Tidy hash (.put name tag helloManifest disk) ↔
      ∀ old, s.refs.lookup (refOf name tag) = some old → old ≠ hash.hex disk →
        ∃ other, other ≠ refOf name tag ∧ s.refs.lookup other = some old := by
  simp [Store.Tidy, helloManifest_written]

/-- A second name keeps the first disk when `hello:latest` moves to another. -/
def keptDisk : List Label :=
  [.put "hello" "latest" helloManifest [0], .put "hello" "1.0" helloManifest [0],
    .put "hello" "latest" helloManifest [1]]

theorem directories_exact_keptDisk :
    ∃ s, (system headHash).run Store.empty keptDisk = some s ∧ s.dirs.keys.length = 2 ∧
      s.Exact := by
  refine ⟨_, rfl, by decide, ?_⟩
  have first : Store.empty.Tidy headHash (.put "hello" "latest" helloManifest [0]) := by
    simp [tidy_hello, Store.empty]
  have second : (Store.empty.step headHash (.put "hello" "latest" helloManifest [0])).Tidy headHash
      (.put "hello" "1.0" helloManifest [0]) := by
    have unused : (Store.empty.step headHash (.put "hello" "latest" helloManifest [0])).refs.lookup
        (refOf "hello" "1.0") = none := by decide
    simp [tidy_hello, unused]
  have third : ((Store.empty.step headHash (.put "hello" "latest" helloManifest [0])).step headHash
      (.put "hello" "1.0" helloManifest [0])).Tidy headHash
      (.put "hello" "latest" helloManifest [1]) := by
    rw [tidy_hello]
    rintro old found -
    refine ⟨refOf "hello" "1.0", by decide, ?_⟩
    rw [← found]
    decide
  exact (directories_exact (((TransitionSystem.ReachableUnder.start rfl).next first rfl).next
    second rfl |>.next third rfl)).1

/-- `hello:latest` is put again with another disk. -/
def retag : List Label :=
  [.put "hello" "latest" helloManifest [0], .put "hello" "latest" helloManifest [1]]

/-- The directory of the first disk stays, without a reference, whatever hash
tells the two disks apart. -/
theorem retag_leaves_directory :
    ¬ ∃ hash : Hash, hash.hex [0] ≠ hash.hex [1] ∧
      ∀ s, (system hash).run Store.empty retag = some s → s.Exact := by
  intro ⟨hash, apart, exact⟩
  have first : (Store.empty.step hash (.put "hello" "latest" helloManifest [0])).Exact := by
    apply (exact_step_iff exact_empty _).mpr
    simp [tidy_hello, Store.empty]
  have tidy := (exact_step_iff first _).mp (exact _ rfl)
  rw [tidy_hello] at tidy
  -- the only reference is the one that moves
  have refs : (Store.empty.step hash (.put "hello" "latest" helloManifest [0])).refs =
      (∅ : ValueMap String String).insert (refOf "hello" "latest") (hash.hex [0]) := by
    rw [Store.step, put_of_written helloManifest_written]
    rfl
  rw [refs] at tidy
  obtain ⟨other, different, found⟩ := tidy (hash.hex [0]) (AList.lookup_insert _) apart
  rw [ValueMap.lookup_insert_cases, if_neg different] at found
  simp at found

end Jerboa.Image
