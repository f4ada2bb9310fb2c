import Jerboa.ImageStore

/-!
# What the calls of the image store do

One lemma for each way a call ends, so that the proofs about runs do not look
into `put`, `remove` and `findBySHA` again.
-/

namespace Jerboa.Image

variable {hash : Hash} {s : Store}

/-! ### Digests -/

@[simp]
theorem stripPrefix_fileSHA256 (hash : Hash) (disk : List UInt8) :
    stripPrefix (hash.fileSHA256 disk) = hash.hex disk := by
  simp [stripPrefix, trimDigestLabel, Hash.fileSHA256]

theorem IsDigest.ne_empty {text : String} (digest : IsDigest text) : text ≠ "" := by
  rintro rfl
  exact absurd digest.1 (by decide)

theorem IsDigest.no_colon {text : String} (digest : IsDigest text) : ':' ∉ text.toList :=
  fun member => absurd (digest.2 ':' member) (by decide)

variable {disk : List UInt8} {m : Manifest} {needle sha ref key : String}

theorem validate_digest (version : m.schemaVersion = schemaVersion) (name : m.name ≠ "")
    (tag : m.tag ≠ "") (size : 0 < m.diskSize) (digest : m.diskDigest = hash.fileSHA256 disk) :
    validate m = .ok () := by
  have hexSize : (hash.hex disk).utf8ByteSize ≠ 0 := by
    simpa [String.utf8ByteSize_eq_zero_iff] using (hash.isDigest disk).ne_empty
  have longEnough : ¬ m.diskDigest.utf8ByteSize < 8 := by
    have labelSize : digestLabel.utf8ByteSize = 7 := by decide
    rw [digest, Hash.fileSHA256, String.utf8ByteSize_append]
    omega
  have labelled : digestLabel.toList <+: m.diskDigest.toList := by
    simp [digest, Hash.fileSHA256]
  have nonempty : m.diskDigest ≠ "" := by
    intro empty
    simp [empty] at longEnough
  have positive : ¬ m.diskSize ≤ 0 := by omega
  simp [validate, version, name, tag, nonempty, longEnough, labelled, positive]

def refOf (name tag : String) : String :=
  name ++ ":" ++ tag

theorem put_of_unwritable {name tag : String} (unwritable : m.created.written = none) :
    (s.put hash name tag m disk).2 =
      { s with dirs := s.dirs.insert (hash.hex disk)
                { s.mkdir (hash.hex disk) with disk := some disk } } := by
  simp [Store.put, marshal, unwritable]

theorem put_of_written {name tag : String} {created : Timestamp}
    (written : m.created.written = some created) :
    (s.put hash name tag m disk).2 =
      { refs := s.refs.insert (refOf name tag) (hash.hex disk)
        dirs := s.dirs.insert (hash.hex disk)
          { disk := some disk
            manifest := some
              { m with created := created, diskDigest := hash.fileSHA256 disk } } } := by
  simp [Store.put, marshal, written, refOf]

/-! ### Searching by digest -/

def matchesDigest (ref sha : String) : Bool :=
  decide ((trimDigestLabel ref).toList <+: sha.toList)

theorem findBySHALoop_mem {found : String} {shas : List String}
    (search : findBySHALoop needle found shas = some sha) :
    sha ≠ "" ∧ (sha = found ∨ sha ∈ shas) := by
  induction shas generalizing found with
  | nil =>
    simp only [findBySHALoop] at search
    split at search
    · rename_i nonempty
      cases search
      exact ⟨nonempty, .inl rfl⟩
    · simp at search
  | cons first rest ih =>
    simp only [findBySHALoop] at search
    split at search
    · split at search
      · simp at search
      · obtain ⟨nonempty, same | member⟩ := ih search
        · exact ⟨nonempty, .inr (by simp [same])⟩
        · exact ⟨nonempty, .inr (by simp [member])⟩
    · obtain ⟨nonempty, same | member⟩ := ih search
      · exact ⟨nonempty, .inl same⟩
      · exact ⟨nonempty, .inr (by simp [member])⟩

variable {refs : ValueMap String String}

theorem findBySHA_mem (search : findBySHA refs ref = some sha) :
    sha ∈ ValueMap.values refs := by
  obtain ⟨nonempty, initial | member⟩ := findBySHALoop_mem search
  · exact absurd initial nonempty
  · exact member

theorem findBySHALoop_found {found : String} (nonempty : found ≠ "") (shas : List String) :
    findBySHALoop needle found shas =
      if ∀ sha ∈ shas, needle.toList <+: sha.toList → sha = found then some found else none := by
  induction shas with
  | nil => simp [findBySHALoop, nonempty]
  | cons sha rest ih =>
    simp only [findBySHALoop]
    by_cases matched : needle.toList <+: sha.toList
    · by_cases same : found = sha
      · subst same
        simp [matched, ih]
      · have different : sha ≠ found := fun equal => same equal.symm
        simp [matched, nonempty, same, different]
    · have unequal : sha ≠ needle := by
        rintro rfl
        exact matched List.prefix_rfl
      simp [matched, unequal, ih]

theorem findBySHALoop_start {shas : List String} (nonempty : ∀ sha ∈ shas, sha ≠ "") :
    findBySHALoop needle "" shas =
      onlyMatch (fun sha => decide (needle.toList <+: sha.toList)) shas := by
  induction shas with
  | nil => rfl
  | cons sha rest ih =>
    simp only [List.forall_mem_cons] at nonempty
    by_cases matched : needle.toList <+: sha.toList
    · -- the first match is the answer unless a later one differs
      simp only [findBySHALoop, matched, or_true, if_true, ne_eq, not_true_eq_false, false_and,
        if_false, findBySHALoop_found nonempty.1]
      simp only [onlyMatch, List.find?_cons, matched, decide_true, Option.filter_some]
      apply if_congr _ rfl rfl
      simp only [List.all_eq_true, List.forall_mem_cons, decide_eq_true_eq, implies_true,
        true_and]
    · have unequal : sha ≠ needle := by
        rintro rfl
        exact matched List.prefix_rfl
      simp [findBySHALoop, matched, unequal, ih nonempty.2, onlyMatch]

/-- Whatever order the map gives its entries in, the search finds the only
digest that starts with the text. -/
theorem findBySHA_eq (digests : ∀ sha ∈ ValueMap.values refs, IsDigest sha) (ref : String) :
    findBySHA refs ref = onlyMatch (matchesDigest ref) (ValueMap.values refs) :=
  findBySHALoop_start fun sha member => (digests sha member).ne_empty

/-! ### Removing -/

section

variable (target : s.removeTarget ref = some (key, sha))

include target

theorem removeTarget_cases :
    s.refs.lookup key = some sha ∨
      s.refs.lookup key = none ∧ findBySHA s.refs ref = some sha := by
  revert target
  fun_cases Store.removeTarget s ref
  case case1 found lookup =>
      rintro ⟨⟩
      exact .inl lookup
  case case2 missing bare found lookup =>
      rintro ⟨⟩
      have present : (if ':' ∈ ref.toList then none else s.refs.lookup (latest ref)) =
        some sha := lookup
      split at present
      · simp at present
      · exact .inl present
  case case3 missing bare lookup =>
      intro target
      obtain ⟨found, search, same⟩ := Option.map_eq_some_iff.mp target
      cases same
      exact .inr ⟨missing, search⟩

theorem mem_values_of_removeTarget :
    sha ∈ ValueMap.values s.refs := by
  rcases removeTarget_cases target with named | ⟨_, search⟩
  · exact ValueMap.mem_values.mpr ⟨key, named⟩
  · exact findBySHA_mem search

theorem mem_values_unref {digest : String}
    (different : digest ≠ sha) :
    digest ∈ ValueMap.values (s.unref key sha) ↔ digest ∈ ValueMap.values s.refs := by
  simp only [ValueMap.mem_values]
  apply exists_congr
  intro other
  rcases removeTarget_cases target with named | ⟨unnamed, _⟩
  · simp only [Store.unref, named, Option.isSome_some, if_true, ValueMap.lookup_erase_cases]
    by_cases same : other = key
    · subst same
      simp [named, different.symm]
    · simp [same]
  · simp [Store.unref, unnamed, ValueMap.lookup_keepValues, Option.filter_eq_some_iff, different]

end

theorem remove_of_no_target (missing : s.removeTarget ref = none) :
    (s.remove ref).2 = s := by
  simp [Store.remove, missing]

theorem remove_refs (target : s.removeTarget ref = some (key, sha)) :
    (s.remove ref).2.refs = s.unref key sha := by
  simp only [Store.remove, target]
  split <;> rfl

theorem remove_dirs (target : s.removeTarget ref = some (key, sha)) (digest : String) :
    (s.remove ref).2.dirs.lookup digest =
      if digest = sha ∧ sha ∉ ValueMap.values (s.unref key sha) then none
      else s.dirs.lookup digest := by
  simp only [Store.remove, target]
  split
  · rename_i referenced
    simp [referenced]
  · rename_i unreferenced
    simp [unreferenced, ValueMap.lookup_erase_cases]

def helloManifest : Manifest where
  schemaVersion := schemaVersion
  name := "hello"
  tag := "latest"
  created := ⟨0, 0⟩
  config := { memory := "256M", cpus := 1, env := [], ports := [] }
  diskDigest := ""
  diskSize := 1

theorem helloManifest_written : helloManifest.created.written = some ⟨0, 0⟩ := by
  decide

def headHash : Hash where
  hex data := String.ofList (List.replicate 64 (if data.headD 0 = 0 then '0' else '1'))
  isDigest data := by
    simp only [IsDigest, String.toList_ofList, List.length_replicate, List.mem_replicate, true_and]
    rintro c ⟨_, rfl⟩
    split <;> decide

end Jerboa.Image
