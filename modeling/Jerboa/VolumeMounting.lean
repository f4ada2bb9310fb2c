import Jerboa.GuestMounts
import Jerboa.KernelStorage
import Mathlib.Data.List.Perm.Basic

/-!
# Volumes at their guest paths

The mounts tuple that the daemon injects selects volumes by label, and every
volume ends at the directory its guest path names, whatever the order in which
disks are attached and the tuple is applied.
-/

namespace Jerboa.Kernel

open Vm List

/-! ### What a guest path names -/

def guestDir (fs : RootFs) (vol : VolumeMount) : Option Nat :=
  match fs.getNode (fun _ => false) vol.guestPath.toList with
  | .found t _ => some t
  | _ => none

def otherDirs (fs : RootFs) (vols : List VolumeMount) (vol : VolumeMount) (t : Nat) : Bool :=
  vols.any fun other => other.label ≠ vol.label ∧ guestDir fs other = some t

def volumeLabelMaxLen : Nat := 32

/-- Volumes with distinct labels, at directories of the root filesystem. -/
structure VolumesNamed (fs : RootFs) (vols : List VolumeMount) : Prop where
  labels : (vols.map VolumeMount.label).Nodup
  readWrite : ∀ vol ∈ vols, vol.readOnly = false
  label : ∀ vol ∈ vols, vol.label ≠ "" ∧ vol.label.toList.length ≤ volumeLabelMaxLen
  guestPath : ∀ vol ∈ vols, vol.guestPath ≠ "" ∧
    ∃ dir, guestDir fs vol = some dir ∧ dir ≠ fs.root ∧ fs.isDir dir = true
  distinct : (vols.map (guestDir fs)).Nodup

structure Attached (vols : List VolumeMount) (disks : List (Disk × VolumeMount)) : Prop where
  volumes : (disks.map Prod.snd).Perm vols
  label : ∀ pair ∈ disks, pair.1.label = pair.2.label.toList

/-- No guest path has an option, no label reads as the attachment id of another
disk, and no guest path goes through the directory of another volume. -/
structure PlainVolumes (fs : RootFs) (vols : List VolumeMount) (disks : List (Disk × VolumeMount)) :
    Prop where
  option : ∀ vol ∈ vols, ¬":ro".toList <:+: vol.guestPath.toList
  attachId : ∀ vol ∈ vols, ∀ pair ∈ disks, pair.2.label ≠ vol.label →
    attachMatch vol.label.toList pair.1.attachId = false
  passage : ∀ vol ∈ vols, fs.getNode (otherDirs fs vols vol) vol.guestPath.toList =
    fs.getNode (fun _ => false) vol.guestPath.toList

/-- The order in which the mounts tuple of a guest is iterated. -/
structure ListsMounts (root : Value) (mounts : List (List Char × List Char)) : Prop where
  keys : (mounts.map Prod.fst).Nodup
  entries : ∀ label path, (label, path) ∈ mounts ↔ mountOf root label = some (.string path)

/-! ### What is used of the disks and the tuple -/

/-- Each key of the tuple selects one disk, and leads to the directory of its
volume while the others are mounted. -/
structure Selects (fs : RootFs) (root : Value) (disks : List (Disk × VolumeMount)) : Prop where
  labels : (disks.map fun pair => pair.2.label).Nodup
  tuple : ∀ label path, mountOf root label = some (.string path) ↔
    ∃ pair ∈ disks, pair.1.label = label ∧ pair.2.guestPath.toList = path
  match_iff : ∀ pair ∈ disks, ∀ other ∈ disks,
    volumeMatch pair.1.label other.1 = true ↔ pair.2.label = other.2.label
  mountDir : ∀ pair ∈ disks, ∃ dir p, guestDir fs pair.2 = some dir ∧ dir ≠ fs.root ∧
    fs.isDir dir = true ∧ mountOption pair.2.guestPath.toList = (pair.2.guestPath.toList, false) ∧
    fs.getNode (otherDirs fs (disks.map Prod.snd) pair.2) pair.2.guestPath.toList = .found dir p

theorem otherDirs_perm (fs : RootFs) {vols other : List VolumeMount} (same : vols.Perm other)
    (vol : VolumeMount) : otherDirs fs vols vol = otherDirs fs other vol := by
  funext t
  rw [otherDirs, otherDirs, Bool.eq_iff_iff, any_eq_true, any_eq_true]
  simp only [same.mem_iff]

variable {fs : RootFs}

theorem lastGuestPath_eq_some {vols : List VolumeMount}
    (named : VolumesNamed fs vols) (label path : List Char) :
    lastGuestPath vols label = some path ↔
      ∃ vol ∈ vols, vol.label.toList = label ∧ vol.guestPath.toList = path := by
  have all : mountedVolumes vols = vols := by
    apply filter_eq_self.mpr
    intro vol member
    simp [(named.label vol member).1, (named.guestPath vol member).1]
  rw [lastGuestPath, all]
  constructor
  · intro last
    obtain ⟨vol, found, rfl⟩ := Option.map_eq_some_iff.mp last
    have member := mem_reverse.mp (mem_of_find?_eq_some found)
    exact ⟨vol, member, by simpa using find?_some found, rfl⟩
  · rintro ⟨vol, member, rfl, rfl⟩
    cases found : vols.reverse.find? fun other => other.label.toList = vol.label.toList with
    | none =>
      have never := find?_eq_none.mp found vol (mem_reverse.mpr member)
      simp at never
    | some other =>
      have otherMember := mem_reverse.mp (mem_of_find?_eq_some found)
      have sameText : other.label.toList = vol.label.toList := by simpa using find?_some found
      have same : other = vol :=
        inj_on_of_nodup_map named.labels otherMember member (String.toList_inj.mp sameText)
      rw [same, Option.map_some]

variable {image : Table}

theorem mountOf_eq_some {cfg : Config} (accepted : Accepted cfg)
    (baked : Baked image "mounts".toList []) (named : VolumesNamed fs cfg.volumes)
    (label path : List Char) :
    mountOf (qemuRoot cfg image) label = some (.string path) ↔
      ∃ vol ∈ cfg.volumes, vol.label.toList = label ∧ vol.guestPath.toList = path := by
  rw [mountOf_qemuRoot accepted baked, ← lastGuestPath_eq_some named]
  cases lastGuestPath cfg.volumes label <;> simp [tableFind]

variable {disks : List (Disk × VolumeMount)}

theorem selects_of_plain {cfg : Config} (accepted : Accepted cfg)
    (baked : Baked image "mounts".toList []) (named : VolumesNamed fs cfg.volumes)
    (attached : Attached cfg.volumes disks) (plain : PlainVolumes fs cfg.volumes disks) :
    Selects fs (qemuRoot cfg image) disks := by
  have volume : ∀ pair ∈ disks, pair.2 ∈ cfg.volumes := by
    intro pair member
    exact attached.volumes.mem_iff.mp (mem_map_of_mem member)
  constructor
  · have perm := attached.volumes.map VolumeMount.label
    rw [map_map] at perm
    exact perm.nodup_iff.mpr named.labels
  · intro label path
    rw [mountOf_eq_some accepted baked named]
    constructor
    · rintro ⟨vol, member, rfl, rfl⟩
      obtain ⟨pair, inDisks, rfl⟩ := mem_map.mp (attached.volumes.mem_iff.mpr member)
      exact ⟨pair, inDisks, attached.label pair inDisks, rfl⟩
    · rintro ⟨pair, inDisks, rfl, rfl⟩
      exact ⟨pair.2, volume pair inDisks, (attached.label pair inDisks).symm, rfl⟩
  · intro pair member other otherMember
    have inVolumes := volume pair member
    have short : pair.2.label.toList.length < 36 := by
      have bound := (named.label pair.2 inVolumes).2
      unfold volumeLabelMaxLen at bound
      omega
    have noNul : '\x00' ∉ pair.2.label.toList := by
      intro inside
      have allowed := any_eq_false.mp (accepted.volumes pair.2 inVolumes).labelSafe _ inside
      simp at allowed
    rw [attached.label pair member, volumeMatch_of_short short noNul, attached.label other otherMember]
    by_cases same : pair.2.label = other.2.label
    · simp [same]
    · have sameText : pair.2.label.toList ≠ other.2.label.toList :=
        fun text => same (String.toList_inj.mp text)
      simp [same, sameText, plain.attachId pair.2 inVolumes other otherMember (Ne.symm same)]
  · intro pair member
    have inVolumes := volume pair member
    obtain ⟨-, dir, isDir, notRoot, directory⟩ := named.guestPath pair.2 inVolumes
    have found : ∃ p, fs.getNode (fun _ => false) pair.2.guestPath.toList = .found dir p := by
      unfold guestDir at isDir
      split at isDir
      · rename_i t p walk
        exact ⟨p, Option.some.inj isDir ▸ walk⟩
      · simp at isDir
    obtain ⟨p, walk⟩ := found
    refine ⟨dir, p, isDir, notRoot, directory,
      mountOption_of_not_infix (plain.option pair.2 inVolumes), ?_⟩
    rw [otherDirs_perm fs attached.volumes, plain.passage pair.2 inVolumes, walk]

/-! ### Boots -/

namespace Storage

/-- The steps of a boot: the disks are attached in their order, the tuple is
applied once, in one of the given orders, and every initialisation succeeds. -/
def BootStep (orders : List (List Char × List Char) → Prop) (disks : List (Disk × VolumeMount))
    (s : Storage) : StorageLabel → Prop
  | .volumeAdd disk => (disks[s.volumes.length]?).map Prod.fst = some disk
  | .setMountpoints mounts => s.mounts = none ∧ orders mounts
  | .volumeMount => True
  | .volumeLink _ ok => ok = true

instance (orders : List (List Char × List Char) → Prop) [DecidablePred orders]
    (disks : List (Disk × VolumeMount)) (s : Storage) :
    (label : StorageLabel) → Decidable (s.BootStep orders disks label)
  | .volumeAdd _ => inferInstanceAs (Decidable (_ = _))
  | .setMountpoints _ => inferInstanceAs (Decidable (_ ∧ _))
  | .volumeMount => .isTrue trivial
  | .volumeLink _ _ => inferInstanceAs (Decidable (_ = _))

def BootDone (disks : List (Disk × VolumeMount)) (s : Storage) : Prop :=
  s.volumes.length = disks.length ∧ s.mounts ≠ none ∧ s.todo = [] ∧ s.started = []

instance (disks : List (Disk × VolumeMount)) (s : Storage) : Decidable (s.BootDone disks) :=
  inferInstanceAs (Decidable (_ ∧ _ ∧ _ ∧ _))

/-- The filesystem of a volume, read-write and for the directory of its guest
path. -/
def AsAsked (fs : RootFs) (disks : List (Disk × VolumeMount)) (application : Application) : Prop :=
  application.readonly = false ∧ ∃ disk vol, disks[application.volume]? = some (disk, vol) ∧
    guestDir fs vol = some application.mountDir

def MountedAsAsked (fs : RootFs) (disks : List (Disk × VolumeMount)) (s : Storage) : Prop :=
  (s.mounted.map Application.volume).Perm (List.range disks.length) ∧
    ∀ application ∈ s.mounted, AsAsked fs disks application

def handled (s : Storage) : List Nat :=
  s.todo.map Prod.fst ++ (s.started.map Application.volume ++ s.mounted.map Application.volume)

/-- Once the tuple is applied, every volume is handled exactly once. -/
structure Booting (fs : RootFs) (root : Value) (disks : List (Disk × VolumeMount)) (s : Storage) :
    Prop where
  volumes : s.volumes.map Volume.disk = (disks.map Prod.fst).take s.volumes.length
  mounts : ∀ mounts, s.mounts = some mounts → ListsMounts root mounts
  handled : s.handled.Perm (if s.mounts = none then [] else List.range s.volumes.length)
  todo : ∀ request ∈ s.todo, ∃ disk vol, disks[request.1]? = some (disk, vol) ∧
    request.2 = vol.guestPath.toList
  started : ∀ application ∈ s.started, AsAsked fs disks application
  mounted : ∀ application ∈ s.mounted, AsAsked fs disks application

variable {fs : RootFs} {root : Value} {disks : List (Disk × VolumeMount)} {s : Storage}

theorem map_disk_modify (volumes : List Volume) (i : Nat) {change : Volume → Volume}
    (sameDisk : ∀ v, (change v).disk = v.disk) :
    (volumes.modify i change).map Volume.disk = volumes.map Volume.disk := by
  apply ext_getElem?
  intro j
  rw [getElem?_map, getElem?_map, getElem?_modify]
  cases volumes[j]? with
  | none => rfl
  | some v =>
    by_cases here : i = j
    · simp [here, sameDisk]
    · simp [here]

theorem Booting.initial : Booting fs root disks Storage.initial where
  volumes := rfl
  mounts := by simp [Storage.initial]
  handled := by simp [Storage.initial, Storage.handled]
  todo := by simp [Storage.initial]
  started := by simp [Storage.initial]
  mounted := by simp [Storage.initial]

theorem Booting.disk (booting : Booting fs root disks s) {i : Nat} {v : Volume}
    (isVolume : s.volumes[i]? = some v) : ∃ vol, disks[i]? = some (v.disk, vol) := by
  have inside := (List.getElem?_eq_some_iff.mp isVolume).1
  have same : (s.volumes.map Volume.disk)[i]? = some v.disk := by
    rw [getElem?_map, isVolume, Option.map_some]
  rw [booting.volumes, getElem?_take_of_lt inside, getElem?_map] at same
  obtain ⟨⟨disk, vol⟩, isDisk, rfl⟩ := Option.map_eq_some_iff.mp same
  exact ⟨vol, isDisk⟩

section

variable (selects : Selects fs root disks)

include selects

variable {mounts : List (List Char × List Char)} {vol : VolumeMount} {disk : Disk}

theorem key_of_match
    (lists : ListsMounts root mounts) {entry : List Char × List Char} (inMounts : entry ∈ mounts) (inDisks : (disk, vol) ∈ disks)
    (chosen : volumeMatch entry.1 disk = true) :
    entry.1 = disk.label ∧ entry.2 = vol.guestPath.toList := by
  obtain ⟨pair, member, isKey, isPath⟩ :=
    (selects.tuple entry.1 entry.2).mp ((lists.entries entry.1 entry.2).mp inMounts)
  rw [← isKey] at chosen
  have label := (selects.match_iff pair member (disk, vol) inDisks).mp chosen
  have same : pair = (disk, vol) := inj_on_of_nodup_map selects.labels member inDisks label
  exact ⟨by rw [← isKey, same], by rw [← isPath, same]⟩

theorem own_key (lists : ListsMounts root mounts)
    (inDisks : (disk, vol) ∈ disks) : (disk.label, vol.guestPath.toList) ∈ mounts :=
  (lists.entries _ _).mpr ((selects.tuple _ _).mpr ⟨(disk, vol), inDisks, rfl, rfl⟩)

theorem Booting.setMountpoints (booting : Booting fs root disks s)
    (first : s.mounts = none)
    (lists : ListsMounts root mounts) : Booting fs root disks (s.setMountpoints mounts) := by
  have idle : s.started = [] ∧ s.mounted = [] := by
    have empty := booting.handled
    simp only [first, if_true, perm_nil, Storage.handled, append_eq_nil_iff,
      map_eq_nil_iff] at empty
    exact empty.2
  have indices : (s.setMountpoints mounts).todo.map Prod.fst =
      mounts.flatMap fun entry => selected s.volumes entry.1 := by
    simp only [Storage.setMountpoints, map_flatMap, map_map]
    congr 1
    funext entry
    exact map_id _
  constructor
  · exact booting.volumes
  · intro other isMounts
    exact Option.some.inj isMounts ▸ lists
  · have whole : (s.setMountpoints mounts).handled =
        mounts.flatMap fun entry => selected s.volumes entry.1 := by
      rw [Storage.handled, indices]
      simp [Storage.setMountpoints, idle]
    have set : (s.setMountpoints mounts).mounts ≠ none := by simp [Storage.setMountpoints]
    rw [whole, if_neg set]
    apply (perm_ext_iff_of_nodup ?_ nodup_range).mpr
    · intro i
      rw [mem_range]
      constructor
      · intro inside
        obtain ⟨entry, -, chosen⟩ := mem_flatMap.mp inside
        obtain ⟨v, isVolume, -⟩ := mem_selected.mp chosen
        exact (List.getElem?_eq_some_iff.mp isVolume).1
      · intro inside
        have isVolume := getElem?_eq_getElem inside
        obtain ⟨vol, isDisk⟩ := booting.disk isVolume
        exact mem_flatMap.mpr ⟨_, own_key selects lists (mem_of_getElem? isDisk),
          mem_selected.mpr ⟨_, isVolume, volumeMatch_label _⟩⟩
    · -- Two keys that select one volume are both its label.
      apply nodup_flatMap.mpr
      refine ⟨fun entry _ => nodup_selected s.volumes entry.1, ?_⟩
      have distinct := pairwise_map.mp lists.keys
      apply distinct.imp_of_mem
      intro entry other inMounts otherInMounts different i chosen otherChosen
      obtain ⟨v, isVolume, matched⟩ := mem_selected.mp chosen
      obtain ⟨w, isOther, otherMatched⟩ := mem_selected.mp otherChosen
      obtain rfl : v = w := Option.some.inj (isVolume.symm.trans isOther)
      obtain ⟨vol, isDisk⟩ := booting.disk isVolume
      have inDisks := mem_of_getElem? isDisk
      have isLabel := (key_of_match selects lists inMounts inDisks matched).1
      have otherIsLabel := (key_of_match selects lists otherInMounts inDisks otherMatched).1
      exact different (isLabel.trans otherIsLabel.symm)
  · intro request asked
    obtain ⟨entry, inMounts, inside⟩ := mem_flatMap.mp asked
    obtain ⟨i, chosen, rfl⟩ := mem_map.mp inside
    obtain ⟨v, isVolume, matched⟩ := mem_selected.mp chosen
    obtain ⟨vol, isDisk⟩ := booting.disk isVolume
    exact ⟨v.disk, vol, isDisk,
      (key_of_match selects lists inMounts (mem_of_getElem? isDisk) matched).2⟩
  · exact booting.started
  · exact booting.mounted

theorem todo_volumeAdd_of_lists (isMounts : s.mounts = some mounts)
    (lists : ListsMounts root mounts)
    (inDisks : (disk, vol) ∈ disks) :
    (s.volumeAdd disk).todo = [(s.volumes.length, vol.guestPath.toList)] := by
  simp only [Storage.volumeAdd, isMounts]
  cases found : mounts.find? fun entry => volumeMatch entry.1 disk with
  | none =>
    have never := find?_eq_none.mp found _ (own_key selects lists inDisks)
    exact absurd (volumeMatch_label disk) never
  | some entry =>
    have inMounts := mem_of_find?_eq_some found
    have matched : volumeMatch entry.1 disk = true := by simpa using find?_some found
    rw [Option.map_some, (key_of_match selects lists inMounts inDisks matched).2]
    rfl

theorem Booting.volumeAdd (booting : Booting fs root disks s)
    (free : s.todo = [])
    (isNext : disks[s.volumes.length]? = some (disk, vol)) :
    Booting fs root disks (s.volumeAdd disk) := by
  have inDisks := mem_of_getElem? isNext
  have before := booting.handled
  simp only [Storage.handled, free, map_nil, nil_append] at before
  have volumes : (s.volumeAdd disk).volumes.map Volume.disk =
      (disks.map Prod.fst).take (s.volumeAdd disk).volumes.length := by
    have fst : (disks.map Prod.fst)[s.volumes.length]? = some disk := by
      rw [getElem?_map, isNext, Option.map_some]
    simp only [Storage.volumeAdd, map_append, map_cons, map_nil, length_append,
      length_singleton, booting.volumes, take_add_one, fst, Option.toList_some]
  cases isMounts : s.mounts with
  | none =>
    have none : (s.volumeAdd disk).todo = [] := by simp [Storage.volumeAdd, isMounts]
    refine ⟨volumes, booting.mounts, ?_, ?_, booting.started, booting.mounted⟩
    · rw [Storage.handled, none]
      simpa [Storage.volumeAdd, isMounts] using before
    · simp [none]
  | some mounts =>
    have one := todo_volumeAdd_of_lists selects isMounts (booting.mounts mounts isMounts) inDisks
    refine ⟨volumes, booting.mounts, ?_, ?_, booting.started, booting.mounted⟩
    · have set : (s.volumeAdd disk).mounts ≠ none := by simp [Storage.volumeAdd, isMounts]
      have length : (s.volumeAdd disk).volumes.length = s.volumes.length + 1 := by
        simp [Storage.volumeAdd]
      simp only [isMounts, reduceCtorEq, if_false] at before
      rw [Storage.handled, one, if_neg set, length, range_succ]
      exact (before.cons _).trans (perm_append_singleton _ _).symm
    · intro request asked
      rw [one, mem_singleton] at asked
      exact ⟨disk, vol, by rw [asked]; exact isNext, by rw [asked]⟩

variable {todo : List (Nat × List Char)}

theorem Booting.mountDir_eq (booting : Booting fs root disks s)
    {i : Nat} {mountPoint : List Char}
    (next : s.todo = (i, mountPoint) :: todo) :
    ∃ disk vol dir, disks[i]? = some (disk, vol) ∧ guestDir fs vol = some dir ∧
      s.mountDir fs mountPoint = some (dir, false) := by
  obtain ⟨disk, vol, isDisk, isPath⟩ := booting.todo (i, mountPoint) (next ▸ mem_cons_self)
  dsimp only at isDisk isPath
  obtain ⟨dir, p, isDir, notRoot, directory, option, walk⟩ :=
    selects.mountDir _ (mem_of_getElem? isDisk)
  refine ⟨disk, vol, dir, isDisk, isDir, ?_⟩
  rw [isPath]
  apply mountDir_of_getNode _ option walk notRoot directory
  intro application inMounted
  obtain ⟨-, otherDisk, other, isOther, otherDir⟩ := booting.mounted application inMounted
  apply any_eq_true.mpr
  refine ⟨other, mem_map_of_mem (mem_of_getElem? isOther), ?_⟩
  have elsewhere : application.volume ≠ i := by
    intro same
    have once : s.handled.Nodup := by
      apply booting.handled.nodup_iff.mpr
      split
      · exact nodup_nil
      · exact nodup_range
    rw [Storage.handled, next, map_cons, cons_append, nodup_cons] at once
    apply once.1
    rw [← same]
    apply mem_append_right
    exact mem_append_right _ (mem_map_of_mem inMounted)
  have different : other.label ≠ vol.label := by
    intro same
    have labels := selects.labels
    have first : (disks.map fun pair => pair.2.label)[application.volume]? = some other.label := by
      rw [getElem?_map, isOther, Option.map_some]
    have second : (disks.map fun pair => pair.2.label)[i]? = some other.label := by
      rw [getElem?_map, isDisk, Option.map_some, same]
    have inside := (List.getElem?_eq_some_iff.mp first).1
    exact elsewhere ((getElem?_inj inside labels).mp (first.trans second.symm))
  exact decide_eq_true ⟨different, otherDir⟩

theorem Booting.volumeMount (booting : Booting fs root disks s)
    {i : Nat} {mountPoint : List Char}
    (next : s.todo = (i, mountPoint) :: todo) :
    Booting fs root disks (volumeMount fs { s with todo := todo } i mountPoint) := by
  obtain ⟨disk, vol, dir, isDisk, isDir, accepted⟩ := booting.mountDir_eq selects next
  have sameDir : mountDir fs { s with todo := todo } mountPoint = s.mountDir fs mountPoint := rfl
  unfold Storage.volumeMount
  rw [sameDir, accepted]
  constructor
  · have sameDisks : (s.volumes.modify i fun v => { v with mounting := true }).map Volume.disk =
        s.volumes.map Volume.disk := map_disk_modify _ _ fun _ => rfl
    simpa [sameDisks] using booting.volumes
  · exact booting.mounts
  · have before := booting.handled
    simp only [Storage.handled, next, map_cons, cons_append, length_modify] at before ⊢
    exact perm_middle.trans before
  · intro request asked
    exact booting.todo request (next ▸ mem_cons_of_mem _ asked)
  · intro application member
    rcases mem_cons.mp member with rfl | old
    · exact ⟨rfl, disk, vol, isDisk, isDir⟩
    · exact booting.started application old
  · exact booting.mounted

end

theorem Booting.volumeLink (booting : Booting fs root disks s) {application : Application}
    (inProgress : application ∈ s.started) : Booting fs root disks (s.volumeLink application true) := by
  have length : (s.volumeLink application true).volumes.length = s.volumes.length := by
    simp [Storage.volumeLink]
  constructor
  · rw [length, ← booting.volumes]
    exact map_disk_modify _ _ fun _ => rfl
  · exact booting.mounts
  · rw [length]
    refine List.Perm.trans ?_ booting.handled
    apply List.Perm.append_left
    have split := ((perm_cons_erase inProgress).map Application.volume).append_right
      (s.mounted.map Application.volume)
    exact perm_middle.trans split.symm
  · exact booting.todo
  · intro other member
    exact booting.started other (mem_of_mem_erase member)
  · intro other member
    rcases mem_cons.mp member with rfl | old
    · exact booting.started other inProgress
    · exact booting.mounted other old

theorem Booting.step (selects : Selects fs root disks) (booting : Booting fs root disks s)
    {label : StorageLabel} {target : Storage} (allowed : BootStep (ListsMounts root) disks s label)
    (stepped : step fs s label = some target) : Booting fs root disks target := by
  cases label with
  | volumeAdd disk =>
    simp only [Storage.step, Option.ite_none_right_eq_some, Option.some.injEq] at stepped
    obtain ⟨⟨_, vol⟩, isNext, rfl⟩ := Option.map_eq_some_iff.mp allowed
    exact stepped.2 ▸ booting.volumeAdd selects stepped.1 isNext
  | setMountpoints mounts =>
    simp only [Storage.step, Option.ite_none_right_eq_some, Option.some.injEq] at stepped
    exact stepped.2 ▸ booting.setMountpoints selects allowed.1 allowed.2
  | volumeMount =>
    simp only [Storage.step] at stepped
    split at stepped
    · simp at stepped
    · rename_i i mountPoint todo next
      exact Option.some.inj stepped ▸ booting.volumeMount selects next
  | volumeLink made ok =>
    obtain ⟨application, found, rfl⟩ := Option.map_eq_some_iff.mp stepped
    have succeeded : ok = true := allowed
    rw [succeeded]
    exact booting.volumeLink (mem_of_find?_eq_some found)

end Storage

/-- In every boot of an accepted configuration whose volumes have plain guest
paths and labels, all volumes end mounted read-write, each once and at the
directory its guest path names. -/
theorem volumes_mounted_as_asked {fs : RootFs} {cfg : Config} {image : Table}
    {disks : List (Disk × VolumeMount)} (valid : validateVMConfig cfg = .ok ())
    (baked : Baked image "mounts".toList []) (named : VolumesNamed fs cfg.volumes)
    (attached : Attached cfg.volumes disks) (plain : PlainVolumes fs cfg.volumes disks) {s : Storage}
    (reached : (storage fs).ReachableUnder (Storage.BootStep (ListsMounts (qemuRoot cfg image)) disks) s)
    (done : s.BootDone disks) : s.MountedAsAsked fs disks := by
  have selects := selects_of_plain (accepted_of_valid valid) baked named attached plain
  have booting : Storage.Booting fs (qemuRoot cfg image) disks s := by
    refine reached.invariant ?_ ?_
    · intro state isInitial
      exact isInitial ▸ Storage.Booting.initial
    · intro state label target _ held allowed stepped
      exact held.step selects allowed stepped
  obtain ⟨all, applied, noTodo, noStarted⟩ := done
  have handled := booting.handled
  simp only [Storage.handled, noTodo, noStarted, applied, if_false, map_nil, nil_append,
    all] at handled
  exact ⟨handled, booting.mounted⟩

/-! ### Boots with a given order of the tuple -/

variable {mounts : List (List Char × List Char)}

theorem reachableUnder_of_run {root : Value} (lists : ListsMounts root mounts) {s : Storage}
    {labels : List StorageLabel}
    (ran : (storage fs).runUnder (Storage.BootStep (· = mounts) disks) Storage.initial labels =
      some s) : (storage fs).ReachableUnder (Storage.BootStep (ListsMounts root) disks) s := by
  have reached := TransitionSystem.ReachableUnder.run (.start rfl) ran
  apply reached.mono
  intro state label allowed
  cases label with
  | volumeAdd disk => exact allowed
  | setMountpoints given => exact ⟨allowed.1, allowed.2 ▸ lists⟩
  | volumeMount => trivial
  | volumeLink made ok => exact allowed

theorem listsMounts_of_keys {cfg : Config} (accepted : Accepted cfg)
    (baked : Baked image "mounts".toList []) (named : VolumesNamed fs cfg.volumes)
    (same : mounts.Perm (cfg.volumes.map fun vol => (vol.label.toList, vol.guestPath.toList))) :
    ListsMounts (qemuRoot cfg image) mounts := by
  constructor
  · have keys := same.map Prod.fst
    rw [map_map] at keys
    apply keys.nodup_iff.mpr
    have texts := named.labels.map fun _ _ equal => String.toList_injective equal
    rwa [map_map] at texts
  · intro label path
    rw [mountOf_eq_some accepted baked named, same.mem_iff]
    simp

def threeDirectories : RootFs where
  root := 0
  lookup t name :=
    if t = 0 ∧ name = "data".toList then some 1
    else if t = 0 ∧ name = "data:ro".toList then some 2
    else if t = 0 ∧ name = "srv".toList then some 3
    else if name = "..".toList then some 0
    else none
  isDir t := t ≤ 3
  linktarget _ := none
  volume _ := { root := 0, lookup _ _ := none, isDir _ := true, linktarget _ := none }
  depth := 0

def volumesConfig : Config :=
  { Config.zero with
    imagePath := "disk.img", memory := "256M",
    volumes := [⟨"a.raw", "/data", false, "data"⟩, ⟨"b.raw", "/srv/../srv", false, "%2"⟩] }

def volumesDisks : List (Disk × VolumeMount) :=
  [(⟨List.replicate 16 1, "%2".toList, 2⟩, ⟨"b.raw", "/srv/../srv", false, "%2"⟩),
    (⟨List.replicate 16 2, "data".toList, 1⟩, ⟨"a.raw", "/data", false, "data"⟩)]

def volumesOrder : List (List Char × List Char) :=
  [("data".toList, "/data".toList), ("%2".toList, "/srv/../srv".toList)]

def volumesBoot : List StorageLabel :=
  [.volumeAdd ⟨List.replicate 16 1, "%2".toList, 2⟩, .setMountpoints volumesOrder, .volumeMount, .volumeAdd ⟨List.replicate 16 2, "data".toList, 1⟩, .volumeMount,
    .volumeLink 1 true, .volumeLink 0 true]

theorem volumesNamed_volumesConfig : VolumesNamed threeDirectories volumesConfig.volumes where
  labels := by decide
  readWrite := by decide
  label := by decide
  guestPath := by
    intro vol member
    simp only [volumesConfig, mem_cons, not_mem_nil, or_false] at member
    rcases member with rfl | rfl
    · exact ⟨by decide, 1, by decide, by decide, by decide⟩
    · exact ⟨by decide, 3, by decide, by decide, by decide⟩
  distinct := by decide

theorem volumes_mounted_as_asked_interleaved :
    (((storage threeDirectories).runUnder (Storage.BootStep (· = volumesOrder) volumesDisks)
        Storage.initial volumesBoot).map fun s => (decide (s.BootDone volumesDisks), s.mounted)) =
        some (true, [⟨0, 0, 3, false⟩, ⟨1, 1, 1, false⟩]) ∧
      ∀ s ∈ (storage threeDirectories).runUnder (Storage.BootStep (· = volumesOrder) volumesDisks)
        Storage.initial volumesBoot, s.MountedAsAsked threeDirectories volumesDisks := by
  have valid : validateVMConfig volumesConfig = .ok () := by decide
  have baked : Baked [] "mounts".toList [] := .inr ⟨rfl, rfl⟩
  have attached : Attached volumesConfig.volumes volumesDisks := ⟨by decide, by decide⟩
  have plain : PlainVolumes threeDirectories volumesConfig.volumes volumesDisks :=
    ⟨by decide, by decide, by decide⟩
  have lists : ListsMounts (qemuRoot volumesConfig []) volumesOrder :=
    listsMounts_of_keys (accepted_of_valid valid) baked volumesNamed_volumesConfig (List.Perm.refl _)
  have ended : (((storage threeDirectories).runUnder
      (Storage.BootStep (· = volumesOrder) volumesDisks) Storage.initial volumesBoot).map fun s =>
        (decide (s.BootDone volumesDisks), s.mounted)) =
        some (true, [⟨0, 0, 3, false⟩, ⟨1, 1, 1, false⟩]) := by
    decide
  refine ⟨ended, ?_⟩
  intro s ran
  have isDone : s.BootDone volumesDisks := by
    rw [Option.mem_def.mp ran, Option.map_some, Option.some.injEq, Prod.mk.injEq] at ended
    exact of_decide_eq_true ended.1
  exact volumes_mounted_as_asked valid baked volumesNamed_volumesConfig attached plain
    (reachableUnder_of_run lists ran) isDone

def optionConfig : Config :=
  { Config.zero with
    imagePath := "disk.img", memory := "256M",
    volumes := [⟨"a.raw", "/data:ro", false, "data"⟩] }

def optionDisks : List (Disk × VolumeMount) :=
  [(⟨List.replicate 16 1, "data".toList, 1⟩, ⟨"a.raw", "/data:ro", false, "data"⟩)]

def optionBoot : List StorageLabel :=
  [.volumeAdd ⟨List.replicate 16 1, "data".toList, 1⟩,
    .setMountpoints [("data".toList, "/data:ro".toList)], .volumeMount, .volumeLink 0 true]

theorem volumesNamed_optionConfig : VolumesNamed threeDirectories optionConfig.volumes where
  labels := by decide
  readWrite := by decide
  label := by decide
  guestPath := by
    intro vol member
    obtain rfl := mem_singleton.mp member
    exact ⟨by decide, 2, by decide, by decide, by decide⟩
  distinct := by decide

/-- The volume ends read-only at `/data`. -/
theorem volume_mounted_elsewhere :
    validateVMConfig optionConfig = .ok () ∧
      VolumesNamed threeDirectories optionConfig.volumes ∧
      Attached optionConfig.volumes optionDisks ∧
      ∃ s, (storage threeDirectories).ReachableUnder
          (Storage.BootStep (ListsMounts (qemuRoot optionConfig [])) optionDisks) s ∧
        s.BootDone optionDisks ∧ s.mounted = [⟨0, 0, 1, true⟩] ∧
        ¬s.MountedAsAsked threeDirectories optionDisks := by
  have valid : validateVMConfig optionConfig = .ok () := by decide
  have baked : Baked [] "mounts".toList [] := .inr ⟨rfl, rfl⟩
  have lists : ListsMounts (qemuRoot optionConfig []) [("data".toList, "/data:ro".toList)] :=
    listsMounts_of_keys (accepted_of_valid valid) baked volumesNamed_optionConfig (List.Perm.refl _)
  have ended : (((storage threeDirectories).runUnder
      (Storage.BootStep (· = [("data".toList, "/data:ro".toList)]) optionDisks) Storage.initial
        optionBoot).map fun s => (decide (s.BootDone optionDisks), s.mounted)) =
          some (true, [⟨0, 0, 1, true⟩]) := by
    decide
  obtain ⟨s, ran, result⟩ := Option.map_eq_some_iff.mp ended
  obtain ⟨isDone, isMounted⟩ := Prod.mk.inj result
  refine ⟨valid, volumesNamed_optionConfig, ⟨by decide, by decide⟩, s,
    reachableUnder_of_run lists ran, of_decide_eq_true isDone, isMounted, ?_⟩
  intro asked
  have readWrite := (asked.2 ⟨0, 0, 1, true⟩ (isMounted ▸ mem_singleton_self _)).1
  simp at readWrite

end Jerboa.Kernel
