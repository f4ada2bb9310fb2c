import Jerboa.KernelText
import Jerboa.RootFilesystem
import Jerboa.TransitionSystem
import Mathlib.Data.List.Nodup
import Mathlib.Tactic

/-!
# Volumes of the kernel

The volumes of `storage.c`: how a key of the mounts tuple selects volumes, how
its value selects a directory, and the state machine of `volume_add`,
`storage_set_mountpoints` and the completions of volume initialisation.  Both
calls hold the storage lock, so they do not overlap; `volume_link` does not take
it and can come between any two mounts of one call.
-/

namespace Jerboa.Kernel

/-! ### Selecting volumes -/

/-- What a disk says about its volume, with the id it was attached under. -/
structure Disk where
  uuid : List UInt8
  label : List Char
  attachId : Int
  deriving DecidableEq, Repr

/-- `buf_hex_cmp`, as the test for equality. -/
def hexEqual : (buf : List UInt8) → (hex : List Char) → Bool
  | [], _ => true
  | byte :: buf, msn :: lsn :: hex =>
    (match digitOf msn, digitOf lsn with
      | some n1, some n2 => n1 * 16 + n2 = byte.toNat
      | _, _ => false) && hexEqual buf hex
  | _ :: _, _ => false

def attachMatch (key : List Char) (attachId : Int) : Bool :=
  match key with
  | '%' :: digits => parseInt 10 digits = some (attachId % 2 ^ 64).toNat
  | _ => false

def uuidMatch (key : List Char) (uuid : List UInt8) : Bool :=
  key.length = 36 &&
    hexEqual (uuid.take 4) key && key[8]? = some '-' &&
    hexEqual ((uuid.drop 4).take 2) (key.drop 9) && key[13]? = some '-' &&
    hexEqual ((uuid.drop 6).take 2) (key.drop 14) && key[18]? = some '-' &&
    hexEqual ((uuid.drop 8).take 2) (key.drop 19) && key[23]? = some '-' &&
    hexEqual ((uuid.drop 10).take 6) (key.drop 24)

/-- `volume_match`.  `buffer_compare_with_sstring` also lets the key end in the
NUL of the label. -/
def volumeMatch (key : List Char) (disk : Disk) : Bool :=
  attachMatch key disk.attachId || key = disk.label || key = disk.label ++ ['\x00'] ||
    uuidMatch key disk.uuid

theorem volumeMatch_label (disk : Disk) : volumeMatch disk.label disk = true := by
  simp [volumeMatch]

theorem volumeMatch_of_short {key : List Char} (short : key.length < 36) (noNul : '\x00' ∉ key)
    (disk : Disk) :
    volumeMatch key disk = (attachMatch key disk.attachId || decide (key = disk.label)) := by
  have noUuid : uuidMatch key disk.uuid = false := by
    have length : key.length ≠ 36 := by omega
    simp [uuidMatch, length]
  have notPadded : key ≠ disk.label ++ ['\x00'] := by
    intro padded
    apply noNul
    rw [padded]
    simp
  simp [volumeMatch, noUuid, notPadded]

/-! ### Selecting a directory -/

def bufferStrstr (str : List Char) : List Char → Option Nat
  | [] => if str = [] then some 0 else none
  | x :: rest =>
    if str.isPrefixOf (x :: rest) then some 0 else (bufferStrstr str rest).map (· + 1)

theorem infix_of_bufferStrstr {str text : List Char} {i : Nat}
    (found : bufferStrstr str text = some i) : str <:+: text := by
  induction text generalizing i with
  | nil =>
    simp only [bufferStrstr] at found
    split at found
    · rename_i empty
      exact empty ▸ List.infix_refl _
    · simp at found
  | cons x rest ih =>
    rw [bufferStrstr] at found
    split at found
    · rename_i here
      exact (List.isPrefixOf_iff_prefix.mp here).isInfix
    · obtain ⟨j, later, -⟩ := Option.map_eq_some_iff.mp found
      exact (ih later).trans (List.suffix_cons x rest).isInfix

/-- The option at the end of a mount point, as `volume_mount` reads it: the path
before it and whether the volume is read-only. -/
def mountOption (mountPoint : List Char) : List Char × Bool :=
  match bufferStrstr ":ro".toList mountPoint with
  | some (i + 1) => (mountPoint.take (i + 1), true)
  | _ => (mountPoint, false)

theorem mountOption_of_not_infix {mountPoint : List Char} (plain : ¬":ro".toList <:+: mountPoint) :
    mountOption mountPoint = (mountPoint, false) := by
  unfold mountOption
  cases found : bufferStrstr ":ro".toList mountPoint with
  | none => rfl
  | some i => exact absurd (infix_of_bufferStrstr found) plain

/-! ### The state machine -/

/-- `struct volume`: the disk, the flag `mounting` and the mounted filesystem
with its directory. -/
structure Volume where
  disk : Disk
  mounting : Bool
  fs : Option Nat
  mountDir : Option Nat
  deriving DecidableEq, Repr

/-- One application of the init handler of a volume: the filesystem it makes,
for which directory, read-only or not. -/
structure Application where
  fs : Nat
  volume : Nat
  mountDir : Nat
  readonly : Bool
  deriving DecidableEq, Repr

/-- The global `storage`.  Volumes are known by their position; `mounts` is the
tuple in the order in which it is iterated, `todo` the mounts that the call in
progress has yet to make, `started` the applications in progress and `mounted`
those whose filesystem has been mounted. -/
structure Storage where
  volumes : List Volume
  mounts : Option (List (List Char × List Char))
  todo : List (Nat × List Char)
  applied : Nat
  started : List Application
  mounted : List Application

/-- After `init_volumes` and `storage_set_root_fs`. -/
def Storage.initial : Storage where
  volumes := []
  mounts := none
  todo := []
  applied := 0
  started := []
  mounted := []

/-! ### Lookups across the mounts -/

/-- A tuple of the root filesystem, or of the one that an application has made. -/
structure Node where
  fs : Option Application
  t : Nat
  deriving DecidableEq, Repr

def RootFs.at (fs : RootFs) : Option Application → Filesystem
  | none => fs.toFilesystem
  | some application => fs.volume application.volume

namespace Storage

variable (fs : RootFs) (s : Storage)

/-- `storage_get_mountpoint` for the root of a filesystem: a volume knows the last
one that was mounted. -/
def getMountpoint (application : Application) : Option Nat :=
  (s.volumes.find? fun v => v.fs = some application.fs).bind Volume.mountDir

def lookupFollow (n : Node) (a : List Char) : Walk Node :=
  match (fs.at n.fs).lookup n.t a, n.fs with
  | none, _ => .missing
  | some t, none =>
    match s.mounted.find? fun application => application.mountDir = t with
    | some application => .found ⟨some application, (fs.volume application.volume).root⟩ n
    | none => .found ⟨none, t⟩ n
  | some t, some application =>
    match if t = n.t ∧ a = "..".toList then s.getMountpoint application else none with
    | none => .found ⟨some application, t⟩ n
    | some mp =>
      match fs.lookup mp a with
      | none => .missing
      | some t => .found ⟨none, t⟩ ⟨none, mp⟩

def lookups : Lookups Node where
  root := ⟨none, fs.root⟩
  lookupFollow := s.lookupFollow fs
  isDir n := (fs.at n.fs).isDir n.t
  linktarget n := (fs.at n.fs).linktarget n.t

def mountDir (mountPoint : List Char) : Option (Nat × Bool) :=
  match (s.lookups fs).getNode fs.depth (mountOption mountPoint).1 with
  | .found ⟨none, t⟩ _ =>
    if t ≠ fs.root ∧ fs.isDir t then some (t, (mountOption mountPoint).2) else none
  | _ => none

variable {fs s}

theorem inside_within {isMount : Nat → Bool}
    (mounts : ∀ application ∈ s.mounted, isMount application.mountDir = true) :
    (fs.inside isMount).Within (fun t => ⟨none, t⟩) (s.lookups fs) where
  root := rfl
  isDir _ := rfl
  linktarget _ := rfl
  lookupFollow t a := by
    intro entry parent found
    simp only [RootFs.inside] at found
    split at found
    · cases found
    · rename_i isEntry
      split at found
      · cases found
      · rename_i free
        cases found
        have none : (s.mounted.find? fun application => application.mountDir = entry) = none := by
          apply List.find?_eq_none.mpr
          intro application member here
          exact free (of_decide_eq_true here ▸ mounts application member)
        simp [lookups, lookupFollow, RootFs.at, isEntry, none]

theorem mountDir_of_getNode {isMount : Nat → Bool} {mountPoint path : List Char} {readonly : Bool}
    {dir p : Nat} (mounts : ∀ application ∈ s.mounted, isMount application.mountDir = true)
    (option : mountOption mountPoint = (path, readonly))
    (walk : fs.getNode isMount path = .found dir p) (notRoot : dir ≠ fs.root)
    (isDir : fs.isDir dir = true) : s.mountDir fs mountPoint = some (dir, readonly) := by
  have found := (inside_within mounts).getNode _ _ _ _ walk
  simp [mountDir, option, found, notRoot, isDir]

end Storage

/-! ### Steps -/

inductive StorageLabel
  | volumeAdd (disk : Disk)
  | setMountpoints (mounts : List (List Char × List Char))
  | volumeMount
  | volumeLink (fs : Nat) (ok : Bool)
  deriving DecidableEq, Repr

namespace Storage

/-- `volume_add`: the mounts it asks for, at most one. -/
def volumeAdd (s : Storage) (disk : Disk) : Storage :=
  { s with
    volumes := s.volumes ++ [⟨disk, false, none, none⟩]
    todo := match s.mounts with
      | none => []
      | some mounts =>
        ((mounts.find? fun entry => volumeMatch entry.1 disk).map fun entry =>
          (s.volumes.length, entry.2)).toList }

def selected (volumes : List Volume) (key : List Char) : List Nat :=
  (volumes.zipIdx.filter fun tagged => volumeMatch key tagged.1.disk).map Prod.snd

theorem mem_selected {volumes : List Volume} {key : List Char} {i : Nat} :
    i ∈ selected volumes key ↔ ∃ v, volumes[i]? = some v ∧ volumeMatch key v.disk = true := by
  simp [selected, List.mem_zipIdx_iff_getElem?]

theorem nodup_selected (volumes : List Volume) (key : List Char) :
    (selected volumes key).Nodup := by
  have indices : (volumes.zipIdx.map Prod.snd).Nodup := by
    rw [List.zipIdx_map_snd]
    exact List.nodup_range'
  exact indices.sublist (List.filter_sublist.map Prod.snd)

def setMountpoints (s : Storage) (mounts : List (List Char × List Char)) : Storage :=
  { s with
    mounts := some mounts
    todo := mounts.flatMap fun entry => (selected s.volumes entry.1).map fun i => (i, entry.2) }

def volumeMount (fs : RootFs) (s : Storage) (i : Nat) (mountPoint : List Char) : Storage :=
  match s.mountDir fs mountPoint with
  | none => s
  | some (dir, readonly) =>
    { s with
      volumes := s.volumes.modify i fun v => { v with mounting := true }
      applied := s.applied + 1
      started := ⟨s.applied, i, dir, readonly⟩ :: s.started }

/-- `volume_link` for an application, with the outcome of the initialisation
and of `filesystem_mount`. -/
def volumeLink (s : Storage) (application : Application) (ok : Bool) : Storage :=
  { s with
    volumes := s.volumes.modify application.volume fun v =>
      if ok then
        { v with
          mounting := false, fs := some application.fs, mountDir := some application.mountDir }
      else { v with mounting := false }
    started := s.started.erase application
    mounted := if ok then application :: s.mounted else s.mounted }

def step (fs : RootFs) (s : Storage) : StorageLabel → Option Storage
  | .volumeAdd disk => if s.todo = [] then some (s.volumeAdd disk) else none
  | .setMountpoints mounts => if s.todo = [] then some (s.setMountpoints mounts) else none
  | .volumeMount =>
    match s.todo with
    | [] => none
    | (i, mountPoint) :: todo => some (volumeMount fs { s with todo := todo } i mountPoint)
  | .volumeLink made ok =>
    (s.started.find? fun application => application.fs = made).map fun application =>
      s.volumeLink application ok

end Storage

def storage (fs : RootFs) : TransitionSystem Storage StorageLabel where
  initial := (· = Storage.initial)
  step := Storage.step fs

end Jerboa.Kernel
