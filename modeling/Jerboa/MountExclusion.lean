import Jerboa.KernelStorage

/-!
# One filesystem per disk

`volume_mount` does not look at the flag `mounting` or at the filesystem of the
volume.  A disk carries at most one filesystem as long as every call of
`storage_set_mountpoints` selects each volume with at most one usable mount
point, and no volume that is being mounted or is mounted.
-/

namespace Jerboa.Kernel

open List Storage

namespace Storage

/-! ### Applications and mounts to be made -/

def live (s : Storage) (i : Nat) : Nat :=
  (s.started.countP fun application => application.volume = i) +
    s.mounted.countP fun application => application.volume = i

/-- The volume to whose init handler `volume_mount` is about to be applied. -/
def applies (fs : RootFs) (s : Storage) : Option Nat :=
  match s.todo with
  | [] => none
  | (i, mountPoint) :: _ => if (s.mountDir fs mountPoint).isSome then some i else none

/-- With some volumes mounted somewhere, the mount point leads to a directory of
the root filesystem. -/
def Usable (fs : RootFs) (mountPoint : List Char) : Prop :=
  ∃ s, (storage fs).Reachable s ∧ (s.mountDir fs mountPoint).isSome = true

noncomputable instance (fs : RootFs) : DecidablePred (Usable fs) :=
  Classical.decPred _

noncomputable def requests (fs : RootFs) (todo : List (Nat × List Char)) (i : Nat) : Nat :=
  todo.countP fun request => request.1 = i ∧ Usable fs request.2

noncomputable def keysOf (fs : RootFs) (mounts : List (List Char × List Char)) (disk : Disk) : Nat :=
  mounts.countP fun entry => volumeMatch entry.1 disk = true ∧ Usable fs entry.2

theorem requests_selected (fs : RootFs) (volumes : List Volume) (entry : List Char × List Char)
    (i : Nat) :
    requests fs ((selected volumes entry.1).map fun j => (j, entry.2)) i =
      if i ∈ selected volumes entry.1 ∧ Usable fs entry.2 then 1 else 0 := by
  rw [requests, countP_map]
  by_cases good : Usable fs entry.2
  · have same : ((fun request : Nat × List Char => decide (request.1 = i ∧ Usable fs request.2)) ∘
        fun j => (j, entry.2)) = fun j => j == i := by
      funext j
      simp only [Function.comp_apply, good, and_true]
      rfl
    rw [same, ← count_eq_countP, (nodup_selected volumes entry.1).count]
    simp [good]
  · simp [good]

theorem requests_setMountpoints (fs : RootFs) (s : Storage)
    (mounts : List (List Char × List Char)) {i : Nat} {v : Volume} (isVolume : s.volumes[i]? = some v) :
    requests fs (s.setMountpoints mounts).todo i = keysOf fs mounts v.disk := by
  simp only [setMountpoints]
  induction mounts with
  | nil => rfl
  | cons entry mounts ih =>
    have here := requests_selected fs s.volumes entry i
    simp only [mem_selected, isVolume, Option.some.injEq, exists_eq_left'] at here
    simp only [requests, keysOf] at here ih ⊢
    rw [flatMap_cons, countP_append, here, ih, countP_cons, Nat.add_comm]
    simp [Bool.and_eq_true]

theorem lt_of_mem_setMountpoints {s : Storage} {mounts : List (List Char × List Char)}
    {request : Nat × List Char} (asked : request ∈ (s.setMountpoints mounts).todo) :
    request.1 < s.volumes.length := by
  obtain ⟨entry, -, inside⟩ := mem_flatMap.mp asked
  obtain ⟨i, chosen, rfl⟩ := mem_map.mp inside
  obtain ⟨v, isVolume, -⟩ := mem_selected.mp chosen
  exact (List.getElem?_eq_some_iff.mp isVolume).1

theorem todo_volumeAdd (s : Storage) (disk : Disk) :
    (s.volumeAdd disk).todo = [] ∨
      ∃ mountPoint, (s.volumeAdd disk).todo = [(s.volumes.length, mountPoint)] := by
  unfold volumeAdd
  cases s.mounts with
  | none => exact .inl rfl
  | some mounts =>
    dsimp only
    cases mounts.find? fun entry => volumeMatch entry.1 disk with
    | none => exact .inl rfl
    | some entry => exact .inr ⟨entry.2, rfl⟩

theorem requests_volumeAdd (fs : RootFs) (s : Storage) (disk : Disk) (i : Nat) :
    requests fs (s.volumeAdd disk).todo i ≤ if i = s.volumes.length then 1 else 0 := by
  rcases todo_volumeAdd s disk with none | ⟨mountPoint, one⟩
  · simp [none, requests]
  · rw [one, requests]
    by_cases here : i = s.volumes.length
    · simp only [here, if_true]
      exact countP_le_length
    · have there : s.volumes.length ≠ i := Ne.symm here
      simp [here, there]

/-! ### The invariant -/

/-- Filesystems and mounts to be made belong to known volumes, the two fields of
a volume tell whether it has a filesystem, and no volume has or will have two. -/
structure Exclusive (fs : RootFs) (s : Storage) : Prop where
  todo : ∀ request ∈ s.todo, request.1 < s.volumes.length
  known : ∀ i, s.volumes.length ≤ i → s.live i = 0
  started : ∀ i v, s.volumes[i]? = some v → v.mounting = false →
    (s.started.countP fun application => application.volume = i) = 0
  mounted : ∀ i v, s.volumes[i]? = some v → v.fs = none →
    (s.mounted.countP fun application => application.volume = i) = 0
  single : ∀ i, s.live i + requests fs s.todo i ≤ 1

theorem Exclusive.initial (fs : RootFs) : Exclusive fs initial where
  todo := by simp [Storage.initial]
  known := by simp [Storage.initial, live]
  started := by simp [Storage.initial]
  mounted := by simp [Storage.initial]
  single := by simp [Storage.initial, live, requests]

variable {fs : RootFs} {s : Storage}

/-- No volume is selected by two usable mount points, or while it has a
filesystem. -/
def SelectsOnce (fs : RootFs) (s : Storage) (mounts : List (List Char × List Char)) : Prop :=
  ∀ v ∈ s.volumes, keysOf fs mounts v.disk ≤ if v.mounting || v.fs.isSome then 0 else 1

section

variable (exclusive : Exclusive fs s)

include exclusive

theorem Exclusive.setMountpoints {mounts : List (List Char × List Char)}
    (once : SelectsOnce fs s mounts) : Exclusive fs (s.setMountpoints mounts) where
  todo _ asked := lt_of_mem_setMountpoints asked
  known := exclusive.known
  started := exclusive.started
  mounted := exclusive.mounted
  single i := by
    cases isVolume : s.volumes[i]? with
    | none =>
      have outside := List.getElem?_eq_none_iff.mp isVolume
      have none : requests fs (s.setMountpoints mounts).todo i = 0 := by
        apply countP_eq_zero.mpr
        intro request asked
        have inside := lt_of_mem_setMountpoints asked
        have different : request.1 ≠ i := by omega
        simp [different]
      have noFilesystem : s.live i = 0 := exclusive.known i outside
      show s.live i + _ ≤ 1
      omega
    | some v =>
      have bound := once v (mem_of_getElem? isVolume)
      have before := exclusive.single i
      show s.live i + _ ≤ 1
      rw [requests_setMountpoints fs s mounts isVolume]
      split at bound
      · omega
      · rename_i idle
        simp only [Bool.or_eq_true, not_or, Bool.not_eq_true, Option.isSome_eq_false_iff,
          Option.isNone_iff_eq_none] at idle
        have noStarted := exclusive.started i v isVolume idle.1
        have noMounted := exclusive.mounted i v isVolume idle.2
        simp only [live, noStarted, noMounted]
        omega

theorem Exclusive.volumeAdd (disk : Disk) :
    Exclusive fs (s.volumeAdd disk) := by
  have fresh : s.live s.volumes.length = 0 := exclusive.known _ (Nat.le_refl _)
  simp only [live, Nat.add_eq_zero_iff] at fresh
  have lookup : ∀ i v, (s.volumeAdd disk).volumes[i]? = some v →
      s.volumes[i]? = some v ∨ i = s.volumes.length := by
    intro i v isVolume
    have inside := (List.getElem?_eq_some_iff.mp isVolume).1
    simp only [Storage.volumeAdd, length_append, length_singleton] at inside
    by_cases last : i = s.volumes.length
    · exact .inr last
    · left
      rw [← isVolume]
      exact (getElem?_append_left (by omega)).symm
  constructor
  · intro request asked
    have length : (s.volumeAdd disk).volumes.length = s.volumes.length + 1 := by
      simp [Storage.volumeAdd]
    rcases todo_volumeAdd s disk with none | ⟨mountPoint, one⟩
    · simp [none] at asked
    · rw [one, mem_singleton] at asked
      rw [asked, length]
      exact Nat.lt_succ_self _
  · intro i outside
    simp only [Storage.volumeAdd, length_append, length_singleton] at outside
    exact exclusive.known i (by omega)
  · intro i v isVolume idle
    rcases lookup i v isVolume with old | rfl
    · exact exclusive.started i v old idle
    · exact fresh.1
  · intro i v isVolume idle
    rcases lookup i v isVolume with old | rfl
    · exact exclusive.mounted i v old idle
    · exact fresh.2
  · intro i
    have before := exclusive.single i
    have added := requests_volumeAdd fs s disk i
    show s.live i + _ ≤ 1
    split at added
    · rename_i here
      have none : s.live i = 0 := exclusive.known i (by omega)
      omega
    · omega

theorem Exclusive.volumeMount (reached : (storage fs).Reachable s) {i : Nat}
    {mountPoint : List Char} {todo : List (Nat × List Char)} (next : s.todo = (i, mountPoint) :: todo) :
    Exclusive fs (volumeMount fs { s with todo := todo } i mountPoint) := by
  have asked : ∀ request ∈ todo, request.1 < s.volumes.length := by
    intro request later
    apply exclusive.todo
    rw [next]
    exact mem_cons_of_mem _ later
  have here : i < s.volumes.length := by
    apply exclusive.todo (i, mountPoint)
    rw [next]
    exact mem_cons_self
  have split : ∀ j, requests fs s.todo j =
      requests fs todo j + if i = j ∧ Usable fs mountPoint then 1 else 0 := by
    intro j
    rw [next, requests, countP_cons]
    simp [requests]
  have sameDir : mountDir fs { s with todo := todo } mountPoint = s.mountDir fs mountPoint := rfl
  unfold Storage.volumeMount
  rw [sameDir]
  cases accepted : s.mountDir fs mountPoint with
  | none =>
    refine ⟨asked, exclusive.known, exclusive.started, exclusive.mounted, ?_⟩
    intro j
    have before := exclusive.single j
    have parts := split j
    show s.live j + requests fs todo j ≤ 1
    omega
  | some found =>
    obtain ⟨dir, readonly⟩ := found
    have good : Usable fs mountPoint := ⟨s, reached, by rw [accepted]; rfl⟩
    have more : ∀ j, ((⟨s.applied, i, dir, readonly⟩ :: s.started).countP
        fun application => application.volume = j) =
        (s.started.countP fun application => application.volume = j) + if i = j then 1 else 0 := by
      intro j
      rw [countP_cons]
      simp
    constructor
    · simpa using asked
    · intro j outside
      simp only [length_modify] at outside
      have none := exclusive.known j outside
      have different : i ≠ j := by omega
      simp only [live, more, different, if_false] at none ⊢
      exact none
    · intro j v isVolume idle
      rw [getElem?_modify] at isVolume
      obtain ⟨old, wasVolume, isNew⟩ := Option.map_eq_some_iff.mp isVolume
      by_cases same : i = j
      · simp only [same, if_true] at isNew
        rw [← isNew] at idle
        simp at idle
      · simp only [same, if_false] at isNew
        have none := exclusive.started j old wasVolume (isNew ▸ idle)
        simp only [more, same, if_false]
        exact none
    · intro j v isVolume idle
      rw [getElem?_modify] at isVolume
      obtain ⟨old, wasVolume, isNew⟩ := Option.map_eq_some_iff.mp isVolume
      apply exclusive.mounted j old wasVolume
      rw [← idle, ← isNew]
      split <;> rfl
    · intro j
      have before := exclusive.single j
      have parts := split j
      simp only [live] at before
      simp only [live, more]
      simp only [good, and_true] at parts
      omega

theorem Exclusive.volumeLink {application : Application}
    (inProgress : application ∈ s.started) (ok : Bool) :
    Exclusive fs (s.volumeLink application ok) := by
  have fewer : ∀ j, (s.started.countP fun other => other.volume = j) =
      ((s.started.erase application).countP fun other => other.volume = j) +
        if application.volume = j then 1 else 0 := by
    intro j
    rw [(perm_cons_erase inProgress).countP_eq, countP_cons]
    simp
  have more : ∀ j, ((s.volumeLink application ok).mounted.countP fun other => other.volume = j) =
      (s.mounted.countP fun other => other.volume = j) +
        if ok = true ∧ application.volume = j then 1 else 0 := by
    intro j
    cases ok with
    | false => simp [Storage.volumeLink]
    | true => simp [Storage.volumeLink, countP_cons]
  have live_le : ∀ j, (s.volumeLink application ok).live j ≤ s.live j := by
    intro j
    have parts := fewer j
    have added := more j
    simp only [live, Storage.volumeLink] at parts added ⊢
    rw [added, parts]
    by_cases here : application.volume = j
    · simp only [here, and_true, if_true]
      split <;> omega
    · simp only [here, and_false, if_false]
      omega
  have lookup : ∀ j v, (s.volumeLink application ok).volumes[j]? = some v →
      ∃ old, s.volumes[j]? = some old ∧ (application.volume ≠ j → v = old) ∧
        (v.fs = none → old.fs = none ∧ (ok = true → application.volume ≠ j)) := by
    intro j v isVolume
    simp only [Storage.volumeLink, getElem?_modify] at isVolume
    obtain ⟨old, wasVolume, rfl⟩ := Option.map_eq_some_iff.mp isVolume
    refine ⟨old, wasVolume, ?_, ?_⟩
    · intro different
      simp [different]
    · by_cases here : application.volume = j
      · cases ok with
        | false => simp [here]
        | true => simp [here]
      · simp [here]
  constructor
  · intro request asked
    rw [show (s.volumeLink application ok).volumes.length = s.volumes.length from length_modify ..]
    exact exclusive.todo request asked
  · intro j outside
    rw [show (s.volumeLink application ok).volumes.length = s.volumes.length from
      length_modify ..] at outside
    exact Nat.le_zero.mp ((live_le j).trans (exclusive.known j outside).le)
  · intro j v isVolume idle
    obtain ⟨old, wasVolume, unchanged, -⟩ := lookup j v isVolume
    have parts := fewer j
    show ((s.started.erase application).countP fun other => other.volume = j) = 0
    by_cases here : application.volume = j
    · have before := exclusive.single j
      simp only [live, parts, here, if_true] at before
      omega
    · have none := exclusive.started j old wasVolume (unchanged here ▸ idle)
      omega
  · intro j v isVolume none
    obtain ⟨old, wasVolume, -, kept⟩ := lookup j v isVolume
    obtain ⟨wasNone, elsewhere⟩ := kept none
    rw [more, exclusive.mounted j old wasVolume wasNone]
    simpa using elsewhere
  · intro j
    exact (Nat.add_le_add_right (live_le j) _).trans (exclusive.single j)

end

end Storage

/-! ### Runs -/

def Storage.CallAllowed (fs : RootFs) (s : Storage) : StorageLabel → Prop
  | .setMountpoints mounts => SelectsOnce fs s mounts
  | _ => True

theorem Storage.Exclusive.step {fs : RootFs} {s target : Storage} {label : StorageLabel}
    (reached : (storage fs).Reachable s) (exclusive : Exclusive fs s) (allowed : CallAllowed fs s label)
    (stepped : step fs s label = some target) : Exclusive fs target := by
  cases label with
  | volumeAdd disk =>
    simp only [Storage.step, Option.ite_none_right_eq_some, Option.some.injEq] at stepped
    exact stepped.2 ▸ exclusive.volumeAdd disk
  | setMountpoints mounts =>
    simp only [Storage.step, Option.ite_none_right_eq_some, Option.some.injEq] at stepped
    exact stepped.2 ▸ exclusive.setMountpoints allowed
  | volumeMount =>
    simp only [Storage.step] at stepped
    split at stepped
    · simp at stepped
    · rename_i i mountPoint todo next
      exact Option.some.inj stepped ▸ exclusive.volumeMount reached next
  | volumeLink made ok =>
    obtain ⟨application, found, rfl⟩ := Option.map_eq_some_iff.mp stepped
    exact exclusive.volumeLink (mem_of_find?_eq_some found) ok

def emptyVolume : Filesystem where
  root := 0
  lookup _ name := if name = "..".toList then some 0 else none
  isDir t := t = 0
  linktarget _ := none

def twoDirectories : RootFs where
  root := 0
  lookup t name :=
    if t = 0 ∧ name = "data".toList then some 1
    else if t = 0 ∧ name = "srv".toList then some 2
    else if name = "..".toList then some 0
    else none
  isDir t := t ≤ 2
  linktarget _ := none
  volume _ := emptyVolume
  depth := 0

def dataDisk : Disk := ⟨List.replicate 16 0, "data".toList, 1⟩

def logsDisk : Disk := ⟨List.replicate 16 1, "logs".toList, 2⟩

/-- The calls select no volume twice, be the mount points usable or not. -/
def Storage.MatchesOnce (s : Storage) : StorageLabel → Prop
  | .setMountpoints mounts => ∀ v ∈ s.volumes,
    (mounts.countP fun entry => volumeMatch entry.1 v.disk) ≤
      if v.mounting || v.fs.isSome then 0 else 1
  | _ => True

instance (s : Storage) : (label : StorageLabel) → Decidable (s.MatchesOnce label)
  | .setMountpoints _ => inferInstanceAs (Decidable (∀ v ∈ s.volumes, _ ≤ _))
  | .volumeAdd _ | .volumeMount | .volumeLink _ _ => .isTrue trivial

theorem Storage.MatchesOnce.callAllowed {fs : RootFs} {s : Storage} {label : StorageLabel}
    (once : s.MatchesOnce label) : CallAllowed fs s label := by
  cases label with
  | setMountpoints mounts =>
    intro v member
    apply Nat.le_trans (countP_mono_left _) (once v member)
    intro entry _ chosen
    exact (of_decide_eq_true chosen).1
  | _ => trivial

/-- The tuple is replaced when the first volume is mounted and the second is
there. -/
def mountBoth : List StorageLabel :=
  [.volumeAdd dataDisk, .setMountpoints [("data".toList, "/data".toList)], .volumeMount,
    .volumeLink 0 true, .volumeAdd logsDisk, .setMountpoints [("logs".toList, "/srv".toList)],
    .volumeMount, .volumeLink 1 true]

/-- A tuple with the volume that is already mounted, as after the injection of
mounts over those of the manifest. -/
def mountTwice : List StorageLabel :=
  [.volumeAdd dataDisk, .setMountpoints [("data".toList, "/data".toList)], .volumeMount,
    .volumeLink 0 true, .setMountpoints [("data".toList, "/srv".toList)]]

end Jerboa.Kernel
