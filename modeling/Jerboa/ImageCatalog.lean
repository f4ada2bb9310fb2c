import Jerboa.ImageStoreSteps

/-!
# What the image store is for

A catalog says which image was last put under each reference.  The store keeps
one manifest for each disk, whatever the number of its names, so it follows the
catalog only as long as the names of one disk are put with the same manifest.
-/

namespace Jerboa.Image

variable {hash : Hash} {s : Store}

/-! ### Catalogs -/

abbrev Catalog := ValueMap String (Manifest × List UInt8)

variable {c : Catalog}

namespace Catalog

def put (c : Catalog) (name tag : String) (m : Manifest) (disk : List UInt8) : Catalog :=
  if m.created.written = none then c else c.insert (refOf name tag) (m, disk)

def digests (hash : Hash) (c : Catalog) : List String :=
  (ValueMap.values c).map fun image => hash.hex image.2

/-- A reference, a bare name or the start of a digest is removed: in the last
case, all references to the disk. -/
def remove (hash : Hash) (c : Catalog) (ref : String) : Catalog :=
  if (c.lookup ref).isSome then c.erase ref
  else if ':' ∉ ref.toList ∧ (c.lookup (latest ref)).isSome then c.erase (latest ref)
  else
    match onlyMatch (matchesDigest ref) (digests hash c) with
    | none => c
    | some sha => ValueMap.keepValues c fun image => hash.hex image.2 ≠ sha

def step (hash : Hash) (c : Catalog) : Label → Catalog
  | .put name tag m disk => c.put name tag m disk
  | .remove ref => c.remove hash ref

end Catalog

def catalogued (hash : Hash) : TransitionSystem (Store × Catalog) Label where
  initial state := state = (Store.empty, ∅)
  step state label := some (state.1.step hash label, state.2.step hash label)

/-! ### The store of a catalog -/

def Manifest.Same (left right : Manifest) : Prop :=
  left.name = right.name ∧ left.tag = right.tag ∧ left.config = right.config

instance (left right : Manifest) : Decidable (left.Same right) :=
  inferInstanceAs (Decidable (_ ∧ _ ∧ _))

def Holds (hash : Hash) (dir : ImageDir) (m : Manifest) (disk : List UInt8) : Prop :=
  dir.disk = some disk ∧ ∃ stored, dir.manifest = some stored ∧ stored.Same m ∧
    validate stored = .ok () ∧ stored.diskDigest = hash.fileSHA256 disk

structure Represents (hash : Hash) (s : Store) (c : Catalog) : Prop where
  refs : ∀ ref, s.refs.lookup ref = (c.lookup ref).map fun image => hash.hex image.2
  dirs : ∀ ref m disk, c.lookup ref = some (m, disk) →
    ∃ dir, s.dirs.lookup (hash.hex disk) = some dir ∧ Holds hash dir m disk

theorem represents_empty : Represents hash Store.empty ∅ where
  refs ref := by simp [Store.empty]
  dirs ref m disk found := by simp at found

namespace Represents

section

variable (represents : Represents hash s c)

include represents

theorem lookup_isSome (ref : String) :
    (s.refs.lookup ref).isSome = (c.lookup ref).isSome := by
  rw [represents.refs, Option.isSome_map]

theorem mem_values_iff (sha : String) :
    sha ∈ ValueMap.values s.refs ↔ sha ∈ c.digests hash := by
  simp only [Catalog.digests, List.mem_map, ValueMap.mem_values, represents.refs,
    Option.map_eq_some_iff]
  constructor
  · intro ⟨ref, image, found, same⟩
    exact ⟨image, ⟨ref, found⟩, same⟩
  · intro ⟨image, ⟨ref, found⟩, same⟩
    exact ⟨ref, image, found, same⟩

theorem isDigest :
    ∀ sha ∈ ValueMap.values s.refs, IsDigest sha := by
  intro sha member
  rw [represents.mem_values_iff] at member
  obtain ⟨image, _, rfl⟩ := List.mem_map.mp member
  exact hash.isDigest image.2

theorem findBySHA_digests (ref : String) :
    findBySHA s.refs ref = onlyMatch (matchesDigest ref) (c.digests hash) := by
  rw [findBySHA_eq represents.isDigest]
  exact onlyMatch_congr represents.mem_values_iff

end

end Represents

/-! ### Steps -/

/-- The store has no other disk under the hash of the one that is put, and a
manifest that can be written passes its check and agrees with the one kept for
the other names of the disk. -/
def Store.Follows (hash : Hash) (s : Store) : Label → Prop
  | .put name tag m disk =>
    (∀ dir, s.dirs.lookup (hash.hex disk) = some dir → dir.disk = some disk) ∧
    (m.created.written ≠ none →
      validate { m with diskDigest := hash.fileSHA256 disk } = .ok () ∧
      ∀ other dir stored, other ≠ refOf name tag →
        s.refs.lookup other = some (hash.hex disk) →
        s.dirs.lookup (hash.hex disk) = some dir → dir.manifest = some stored →
        stored.Same m)
  | .remove _ => True

namespace Represents

section

variable (represents : Represents hash s c)

include represents

theorem put_unwritable {name tag : String} {m : Manifest} {disk : List UInt8}
    (apart : ∀ dir, s.dirs.lookup (hash.hex disk) = some dir → dir.disk = some disk)
    (unwritable : m.created.written = none) :
    Represents hash (s.put hash name tag m disk).2 (c.put name tag m disk) := by
  rw [put_of_unwritable unwritable, Catalog.put, if_pos unwritable]
  refine ⟨represents.refs, ?_⟩
  intro ref m' disk' found
  obtain ⟨dir, present, holds⟩ := represents.dirs ref m' disk' found
  simp only [ValueMap.lookup_insert_cases]
  by_cases same : hash.hex disk' = hash.hex disk
  · rw [same] at present
    have kept : { s.mkdir (hash.hex disk) with disk := some disk } = dir := by
      simp [Store.mkdir, present, ← apart dir present]
    exact ⟨dir, by simp [same, kept], holds⟩
  · exact ⟨dir, by simp [same, present], holds⟩

theorem put_written {name tag : String} {m : Manifest} {disk : List UInt8} {created : Timestamp} (follows : s.Follows hash (.put name tag m disk))
    (written : m.created.written = some created) :
    Represents hash (s.put hash name tag m disk).2 (c.put name tag m disk) := by
  obtain ⟨apart, agrees⟩ := follows
  obtain ⟨valid, agrees⟩ := agrees (by simp [written])
  rw [put_of_written written, Catalog.put, if_neg (by simp [written])]
  constructor
  · intro ref
    simp only [ValueMap.lookup_insert_cases, represents.refs]
    split <;> rfl
  · intro ref m' disk' found
    simp only [ValueMap.lookup_insert_cases] at found ⊢
    split at found
    · -- the reference that is put
      cases found
      refine ⟨_, if_pos rfl, rfl, _, rfl, ⟨rfl, rfl, rfl⟩, valid, rfl⟩
    · rename_i other
      obtain ⟨dir, present, holdsDisk, stored, kept, sameStored, rest⟩ :=
        represents.dirs ref m' disk' found
      by_cases same : hash.hex disk' = hash.hex disk
      · -- another name of the same disk: its manifest is overwritten
        have lookup : s.refs.lookup ref = some (hash.hex disk) := by
          rw [represents.refs, found, ← same]
          rfl
        rw [same] at present
        have sameDisk : disk = disk' := by
          have equal := (apart dir present).symm.trans holdsDisk
          exact Option.some.inj equal
        have agree := agrees ref dir stored other lookup present kept
        refine ⟨_, if_pos same, by rw [sameDisk], _, rfl, ?_, valid, ?_⟩
        · exact ⟨agree.1.symm.trans sameStored.1, agree.2.1.symm.trans sameStored.2.1,
            agree.2.2.symm.trans sameStored.2.2⟩
        · simp [Hash.fileSHA256, same]
      · exact ⟨dir, by rw [if_neg same, present], holdsDisk, stored, kept, sameStored, rest⟩

theorem of_removed {ref : String} {c' : Catalog}
    (refs : ∀ other, (s.remove ref).2.refs.lookup other =
      (c'.lookup other).map fun image => hash.hex image.2)
    (fewer : ∀ other image, c'.lookup other = some image → c.lookup other = some image) :
    Represents hash (s.remove ref).2 c' := by
  refine ⟨refs, ?_⟩
  intro other m disk found
  obtain ⟨dir, present, holds⟩ := represents.dirs other m disk (fewer other _ found)
  refine ⟨dir, ?_, holds⟩
  rw [← present]
  cases target : s.removeTarget ref with
  | none => rw [remove_of_no_target target]
  | some taken =>
    obtain ⟨key, sha⟩ := taken
    have referenced : hash.hex disk ∈ ValueMap.values (s.unref key sha) := by
      rw [← remove_refs target]
      exact ValueMap.mem_values.mpr ⟨other, by rw [refs, found]; rfl⟩
    rw [remove_dirs target, if_neg]
    rintro ⟨same, unreferenced⟩
    exact unreferenced (same ▸ referenced)

theorem remove_named {ref key sha : String}
    (target : s.removeTarget ref = some (key, sha)) (named : s.refs.lookup key = some sha) :
    Represents hash (s.remove ref).2 (c.erase key) := by
  apply represents.of_removed
  · intro other
    rw [remove_refs target, Store.unref, if_pos (by rw [named]; rfl)]
    simp only [ValueMap.lookup_erase_cases, represents.refs]
    split <;> rfl
  · intro other image found
    rw [ValueMap.lookup_erase_cases] at found
    split at found
    · simp at found
    · exact found

theorem remove_digest {ref sha : String}
    (target : s.removeTarget ref = some (ref, sha)) (unnamed : s.refs.lookup ref = none) :
    Represents hash (s.remove ref).2
      (ValueMap.keepValues c fun image => hash.hex image.2 ≠ sha) := by
  apply represents.of_removed
  · intro other
    rw [remove_refs target, Store.unref, if_neg (by simp [unnamed])]
    simp only [ValueMap.lookup_keepValues, represents.refs]
    cases c.lookup other with
    | none => rfl
    | some image => by_cases same : hash.hex image.2 = sha <;> simp [same, Option.filter_some]
  · intro other image found
    rw [ValueMap.lookup_keepValues, Option.filter_eq_some_iff] at found
    exact found.1

theorem remove (ref : String) :
    Represents hash (s.remove ref).2 (c.remove hash ref) := by
  unfold Catalog.remove
  simp only [← represents.lookup_isSome, ← represents.findBySHA_digests]
  split
  · rename_i named
    obtain ⟨sha, found⟩ := Option.isSome_iff_exists.mp named
    exact represents.remove_named (by simp [Store.removeTarget, found]) found
  · rename_i unnamed
    have missing : s.refs.lookup ref = none := by simpa using unnamed
    split
    · rename_i bare
      obtain ⟨sha, found⟩ := Option.isSome_iff_exists.mp bare.2
      exact represents.remove_named (by simp [Store.removeTarget, missing, bare.1, found]) found
    · rename_i qualified
      have noLatest : (if ':' ∈ ref.toList then none else s.refs.lookup (latest ref)) = none := by
        split
        · rfl
        · simp_all
      have target : s.removeTarget ref = (findBySHA s.refs ref).map fun sha => (ref, sha) := by
        simp only [Store.removeTarget, missing, noLatest]
      split
      · rename_i search
        rw [remove_of_no_target (by rw [target, search]; rfl)]
        exact represents
      · rename_i sha search
        exact represents.remove_digest (by rw [target, search]; rfl) missing

theorem step {label : Label} (follows : s.Follows hash label) :
    Represents hash (s.step hash label) (c.step hash label) := by
  cases label with
  | put name tag m disk =>
    cases written : m.created.written with
    | none => exact represents.put_unwritable follows.1 written
    | some created => exact represents.put_written follows written
  | remove ref => exact represents.remove ref

end

end Represents

theorem represents_of_reachable {state : Store × Catalog}
    (reached : (catalogued hash).ReachableUnder (fun state => state.1.Follows hash) state) :
    Represents hash state.1 state.2 := by
  induction reached with
  | start first =>
    obtain rfl := first
    exact represents_empty
  | next previous follows stepped ih =>
    cases stepped
    exact ih.step follows

/-! ### Getting -/

def Answers : Except GetError (Manifest × List UInt8) → Option (Manifest × List UInt8) → Prop
  | .ok (m, disk), some (m', disk') => m.Same m' ∧ disk = disk'
  | .error _, none => True
  | _, _ => False

def Store.NoDigest (s : Store) (name tag : String) : Prop :=
  s.refs.lookup (refOf name tag) = none → name = "sha256" →
    onlyMatch (fun sha => decide (tag.toList <+: sha.toList)) (ValueMap.values s.refs) = none

variable {disk : List UInt8}

theorem get_of_holds {ref : String} {dir : ImageDir} {m : Manifest}
    (resolved : s.resolveRef ref = .ok (hash.hex disk))
    (present : s.dirs.lookup (hash.hex disk) = some dir) (holds : Holds hash dir m disk) :
    ∃ stored, s.get hash ref = .ok (stored, disk) ∧ stored.Same m := by
  obtain ⟨holdsDisk, stored, kept, same, valid, label⟩ := holds
  refine ⟨stored, ?_, same⟩
  simp [Store.get, Store.resolve, resolved, Store.readManifest, present, kept, valid, label,
    holdsDisk, Hash.fileSHA256]

theorem Represents.get_of_resolved (represents : Represents hash s c) {ref sha : String}
    (resolved : s.resolveRef ref = .ok sha) {other : String} {m : Manifest}
    (found : c.lookup other = some (m, disk)) (digest : hash.hex disk = sha) :
    ∃ stored, s.get hash ref = .ok (stored, disk) ∧ stored.Same m := by
  obtain ⟨dir, present, holds⟩ := represents.dirs other m disk found
  subst digest
  exact get_of_holds resolved present holds

theorem mem_refOf_colon (name tag : String) : ':' ∈ (refOf name tag).toList := by
  simp [refOf]

theorem get_of_unmatched {ref : String} (missing : s.refs.lookup ref = none)
    (colon : ':' ∈ ref.toList) (search : findBySHA s.refs ref = none) :
    s.get hash ref = .error (.notFound ref) := by
  simp [Store.get, Store.resolve, Store.resolveRef, missing, colon, search]

theorem trimDigestLabel_sha256 (tag : String) : trimDigestLabel (refOf "sha256" tag) = tag := by
  have label : (refOf "sha256" tag).toList = digestLabel.toList ++ tag.toList := by
    simp [refOf, digestLabel]
  simp [trimDigestLabel, label]

theorem mem_trimDigestLabel_colon {name : String} (other : name ≠ "sha256") (tag : String) :
    ':' ∈ (trimDigestLabel (refOf name tag)).toList := by
  unfold trimDigestLabel
  split
  · rename_i labelled
    obtain ⟨rest, split⟩ := labelled
    rw [← split, List.drop_left, String.toList_ofList]
    have parts : "sha256".toList ++ ':' :: rest = name.toList ++ ':' :: tag.toList := by
      have text : (refOf name tag).toList = name.toList ++ ':' :: tag.toList := by simp [refOf]
      rw [← text, ← split]
      rfl
    rcases List.append_eq_append_iff.mp parts with ⟨more, nameEq, restEq⟩ | ⟨more, labelEq, restEq⟩
    · cases more with
      | nil => exact absurd (String.toList_inj.mp (by simpa using nameEq)) other
      | cons first more =>
        obtain ⟨-, rfl⟩ := List.cons.inj restEq
        simp
    · cases more with
      | nil => exact absurd (String.toList_inj.mp (by simpa using labelEq.symm)) other
      | cons first more =>
        obtain ⟨rfl, -⟩ := List.cons.inj restEq
        have inLabel : ':' ∈ "sha256".toList := by rw [labelEq]; simp
        exact absurd inLabel (by decide)
  · exact mem_refOf_colon name tag

theorem Represents.findBySHA_refOf (represents : Represents hash s c) (name tag : String) :
    findBySHA s.refs (refOf name tag) =
      if name = "sha256" then
        onlyMatch (fun sha => decide (tag.toList <+: sha.toList)) (ValueMap.values s.refs)
      else none := by
  split
  · rename_i sha256
    subst sha256
    rw [findBySHA_eq represents.isDigest]
    unfold matchesDigest
    rw [trimDigestLabel_sha256]
  · rename_i other
    rw [Option.eq_none_iff_forall_ne_some]
    intro sha search
    rw [findBySHA_eq represents.isDigest, onlyMatch_eq_some_iff] at search
    have colon := (of_decide_eq_true search.2.1).subset (mem_trimDigestLabel_colon other tag)
    exact (represents.isDigest sha search.1).no_colon colon

theorem Represents.answers_iff (represents : Represents hash s c) (name tag : String) :
    Answers (s.get hash (refOf name tag)) (c.lookup (refOf name tag)) ↔ s.NoDigest name tag := by
  have search := represents.findBySHA_refOf name tag
  cases found : c.lookup (refOf name tag) with
  | some image =>
    obtain ⟨m, disk⟩ := image
    have lookup : s.refs.lookup (refOf name tag) = some (hash.hex disk) := by
      rw [represents.refs, found]
      rfl
    have resolved : s.resolveRef (refOf name tag) = .ok (hash.hex disk) := by
      simp [Store.resolveRef, lookup]
    obtain ⟨stored, get, same⟩ := represents.get_of_resolved resolved found rfl
    simp [get, Answers, same, Store.NoDigest, lookup]
  | none =>
    have missing : s.refs.lookup (refOf name tag) = none := by
      rw [represents.refs, found]
      rfl
    cases searched : findBySHA s.refs (refOf name tag) with
    | none =>
      rw [get_of_unmatched missing (mem_refOf_colon name tag) searched]
      rw [searched] at search
      simp only [Answers, true_iff]
      intro _ sha256
      rw [search, if_pos sha256]
    | some sha =>
      -- the only digest that starts with the tag is that of some image
      have resolved : s.resolveRef (refOf name tag) = .ok sha := by
        simp [Store.resolveRef, missing, mem_refOf_colon, searched]
      obtain ⟨image, member, digest⟩ :=
        List.mem_map.mp ((represents.mem_values_iff sha).mp (findBySHA_mem searched))
      obtain ⟨other, foundOther⟩ := ValueMap.mem_values.mp member
      obtain ⟨stored, get, -⟩ := represents.get_of_resolved resolved foundOther digest
      rw [searched] at search
      have sha256 : name = "sha256" := by
        by_contra other
        simp [other] at search
      rw [get]
      simp only [Answers, false_iff]
      intro noDigest
      rw [if_pos sha256, noDigest missing sha256] at search
      simp at search

theorem follows_of_dir {name tag : String} {m : Manifest}
    (valid : validate { m with diskDigest := hash.fileSHA256 disk } = .ok ())
    (same : ∀ dir ∈ s.dirs.lookup (hash.hex disk),
      dir.disk = some disk ∧ ∀ stored ∈ dir.manifest, stored.Same m) :
    s.Follows hash (.put name tag m disk) := by
  constructor
  · intro dir present
    exact (same dir present).1
  · intro _
    refine ⟨valid, ?_⟩
    intro other dir stored _ _ present kept
    exact (same dir present).2 stored kept

theorem follows_remove (ref : String) : s.Follows hash (.remove ref) :=
  trivial

def twoDisks : List Label :=
  [.put "hello" "latest" helloManifest [0], .put "hello" "stable" helloManifest [0],
    .put "hello" "next" helloManifest [1], .remove "hello"]

def smallManifest : Manifest :=
  { helloManifest with tag := "small" }

def aliases : List Label :=
  [.put "hello" "latest" helloManifest [0], .put "hello" "small" smallManifest [0]]

end Jerboa.Image
