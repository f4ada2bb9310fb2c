import Jerboa.GuestEnvironment

/-!
# The mount points of a guest

QEMU and Firecracker deliver the same mount points: the label of every volume
that has a label and a guest path leads to the guest path of the last such
volume.
-/

namespace Jerboa.Kernel

open DelimitedText Vm List

/-! ### Mount points under QEMU -/

variable {cfg : Config} {entries image : Table}

theorem mountedVolume_accepted (accepted : Accepted cfg) {vol : VolumeMount}
    (mounted : vol ∈ mountedVolumes cfg.volumes) :
    VolumeAccepted vol ∧ vol.label.toList ≠ [] ∧ vol.guestPath.toList ≠ [] ∧
      hasBootArgUnsafe vol.guestPath.toList = false := by
  obtain ⟨inVolumes, given⟩ := mem_filter.mp mounted
  simp only [decide_eq_true_eq] at given
  have volume := accepted.volumes vol inVolumes
  refine ⟨volume, ?_, ?_, (volume.guestPath given.2).2⟩
  · simpa using given.1
  · simpa using given.2

theorem mountLine_volume (accepted : Accepted cfg) {vol : VolumeMount}
    (mounted : vol ∈ mountedVolumes cfg.volumes) :
    mountLine (vol.label.toList ++ ':' :: vol.guestPath.toList) =
      some (vol.label.toList, vol.guestPath.toList) := by
  obtain ⟨volume, label, path, safe⟩ := mountedVolume_accepted accepted mounted
  have noReturn : (vol.label.toList ++ ':' :: vol.guestPath.toList).getLast? ≠ some '\r' := by
    intro last
    have inLine := mem_of_getLast? last
    simp only [mem_append, mem_cons] at inLine
    rcases inLine with inLabel | colon | inPath
    · exact not_mem_of_safe volume.labelSafe (by simp) inLabel
    · simp at colon
    · exact not_mem_of_safe safe (by simp) inPath
  simp only [mountLine, noReturn, if_false]
  rw [cut_append volume.label.2.1]
  simp [label, path]

theorem splitOn_mounts (accepted : Accepted cfg) (some : mountedVolumes cfg.volumes ≠ []) :
    (joinLines ((mountedVolumes cfg.volumes).map fun vol =>
        vol.label.toList ++ ':' :: vol.guestPath.toList)).splitOn '\n' =
      (mountedVolumes cfg.volumes).map fun vol =>
        vol.label.toList ++ ':' :: vol.guestPath.toList := by
  apply splitOn_intercalate
  · intro line member
    obtain ⟨vol, mounted, rfl⟩ := mem_map.mp member
    obtain ⟨volume, -, -, safe⟩ := mountedVolume_accepted accepted mounted
    have inLabel : '\n' ∉ vol.label.toList := not_mem_of_safe volume.labelSafe (by simp)
    have inPath : '\n' ∉ vol.guestPath.toList := not_mem_of_safe safe (by simp)
    simp [inLabel, inPath]
  · simpa using some

theorem filterMap_mountLine (accepted : Accepted cfg) :
    ((mountedVolumes cfg.volumes).map fun vol =>
      vol.label.toList ++ ':' :: vol.guestPath.toList).filterMap mountLine = mountPairs cfg := by
  rw [filterMap_map, mountPairs, ← filterMap_eq_map]
  apply filterMap_congr
  intro vol mounted
  exact mountLine_volume accepted mounted

theorem fwCfgReadFile_mounts (cfg : Config) :
    fwCfgReadFile (fwCfgFiles (guestArgs cfg)) "opt/uni/mounts".toList =
      if mountedVolumes cfg.volumes = [] then none
      else some (joinLines ((mountedVolumes cfg.volumes).map fun vol =>
        vol.label.toList ++ ':' :: vol.guestPath.toList)) := by
  rw [fwCfgFiles_guestArgs, append_assoc, fwCfgReadFile_append_of_ne,
    fwCfgReadFile_append_of_ne, mountFile]
  · split
    · rfl
    · rename_i nonempty
      obtain ⟨first, rest, isVolumes⟩ := exists_cons_of_ne_nil nonempty
      apply fwCfgReadFile_cons
      rw [isVolumes, map_cons]
      exact joinLines_ne_nil (by simp) _
  · intro file member
    rw [name_of_mem_networkFile file member]
    decide
  · intro file member
    rw [name_of_mem_envFile file member]
    decide

theorem isComposite_envInjectFromFwCfg (files : List (List Char × List Char)) (root : Value) :
    (envInjectFromFwCfg files root).isComposite = root.isComposite := by
  unfold envInjectFromFwCfg
  split
  · rfl
  · exact isComposite_set _ _ _

theorem isComposite_netInjectFromFwCfg (files : List (List Char × List Char)) (root : Value) :
    (netInjectFromFwCfg files root).isComposite = root.isComposite := by
  unfold netInjectFromFwCfg
  split
  · rfl
  · rw [isComposite_set, isComposite_set, isComposite_set]

theorem child_qemuRoot_mounts (accepted : Accepted cfg) (image : Table) :
    child (qemuRoot cfg image) "mounts".toList =
      setAll fileValue (child (.cow image []) "mounts".toList) (mountPairs cfg) := by
  unfold qemuRoot bootRoot
  rw [cmdlineApply_nil]
  generalize isRoot : netInjectFromFwCfg (fwCfgFiles (guestArgs cfg))
    (envInjectFromFwCfg (fwCfgFiles (guestArgs cfg)) (.cow image [])) = root
  have composite : root.isComposite = true := by
    rw [← isRoot, isComposite_netInjectFromFwCfg, isComposite_envInjectFromFwCfg]
    rfl
  have others : root.get "mounts".toList = (Value.cow image []).get "mounts".toList := by
    rw [← isRoot, get_netInjectFromFwCfg _ _ (by decide), get_envInjectFromFwCfg _ _ (by decide)]
  rw [mountsInjectFromFwCfg, fwCfgReadFile_mounts, ← child_of_get others]
  by_cases none : mountedVolumes cfg.volumes = []
  · simp only [none, if_true, mountPairs, map_nil]
    rfl
  · have added : mountPairs cfg ≠ [] := by simpa [mountPairs] using none
    simp only [none, if_false]
    rw [splitOn_mounts accepted none, filterMap_mountLine accepted, if_neg added]
    apply child_of_some
    · rw [get_set_self composite]
      rfl
    · exact (isComposite_setAll _).trans (isComposite_child _ _)

theorem child_firecrackerRoot_mounts (accepted : Accepted cfg)
    (baked : Baked image "mounts".toList entries) :
    child (firecrackerRoot cfg image) "mounts".toList =
      setAll optionValue (child (.cow image []) "mounts".toList) (mountPairs cfg) := by
  rw [firecrackerRoot_eq accepted, child_foldl baked.hosts (name_ne_of_plain (by decide)),
    mountOptions_inScope]

/-! ### Agreement -/

def mountOf (root : Value) (label : List Char) : Option Value :=
  (child root "mounts".toList).get label

/-- The guest path of the last volume with the label, among those that have a
label and a guest path. -/
def lastGuestPath (vols : List VolumeMount) (label : List Char) : Option (List Char) :=
  ((mountedVolumes vols).reverse.find? fun vol => vol.label.toList = label).map fun vol =>
    vol.guestPath.toList

theorem lastValue_mountPairs (cfg : Config) (label : List Char) :
    lastValue (mountPairs cfg) label = lastGuestPath cfg.volumes label := by
  rw [lastValue, lastGuestPath, mountPairs, ← map_reverse, find?_map, Option.map_map]
  rfl

theorem mountOf_qemuRoot (accepted : Accepted cfg) (baked : Baked image "mounts".toList entries)
    (label : List Char) :
    mountOf (qemuRoot cfg image) label =
      ((lastGuestPath cfg.volumes label).map Value.string).or
        ((tableFind entries label).map Value.wrap) := by
  have composite := isComposite_child (.cow image []) "mounts".toList
  rw [mountOf, child_qemuRoot_mounts accepted, get_setAll composite, (baked.child_get label).1,
    (baked.child_get label).2, lastValue_mountPairs]
  cases lastGuestPath cfg.volumes label <;> simp [fileValue]

theorem mountOf_firecrackerRoot (accepted : Accepted cfg)
    (baked : Baked image "mounts".toList entries) (label : List Char) :
    mountOf (firecrackerRoot cfg image) label =
      ((lastGuestPath cfg.volumes label).map Value.string).or
        ((tableFind entries label).map Value.wrap) := by
  have composite := isComposite_child (.cow image []) "mounts".toList
  rw [mountOf, child_firecrackerRoot_mounts accepted baked, get_setAll composite,
    (baked.child_get label).1, (baked.child_get label).2, lastValue_mountPairs]
  cases last : lastGuestPath cfg.volumes label with
  | none => simp
  | some path =>
    have nonempty : path ≠ [] := by
      obtain ⟨vol, found, rfl⟩ := Option.map_eq_some_iff.mp last
      have mounted := mem_reverse.mp (mem_of_find?_eq_some found)
      exact (mountedVolume_accepted accepted mounted).2.2.1
    simp [optionValue, nonempty]

/-- Both hypervisors deliver the same mount points: those of the volumes that
have a label and a guest path, the last one of a label, over those of the
image. -/
theorem mounts_agree {cfg : Config} (valid : validateVMConfig cfg = .ok ())
    {image entries : Table} (baked : Baked image "mounts".toList entries) (label : List Char) :
    mountOf (qemuRoot cfg image) label = mountOf (firecrackerRoot cfg image) label ∧
      mountOf (qemuRoot cfg image) label =
        ((lastGuestPath cfg.volumes label).map Value.string).or
          ((tableFind entries label).map Value.wrap) := by
  have accepted := accepted_of_valid valid
  have underQemu := mountOf_qemuRoot accepted baked label
  exact ⟨underQemu.trans (mountOf_firecrackerRoot accepted baked label).symm, underQemu⟩

def mountsConfig : Config :=
  { Config.zero with
    imagePath := "disk.img", memory := "256M",
    volumes := [⟨"a.raw", "/old", false, "data"⟩, ⟨"b.raw", "", false, "data"⟩,
      ⟨"c.raw", "/srv/x=1,y.z", false, "data"⟩] }

theorem mounts_agree_repeated :
    validateVMConfig mountsConfig = .ok () ∧
      mountOf (qemuRoot mountsConfig []) "data".toList =
        mountOf (firecrackerRoot mountsConfig []) "data".toList ∧
      mountOf (qemuRoot mountsConfig []) "data".toList =
        some (.string "/srv/x=1,y.z".toList) := by
  have valid : validateVMConfig mountsConfig = .ok () := by decide
  have baked : Baked [] "mounts".toList [] := .inr ⟨rfl, rfl⟩
  have last : lastGuestPath mountsConfig.volumes "data".toList = some "/srv/x=1,y.z".toList := by
    decide
  obtain ⟨same, value⟩ := mounts_agree valid baked "data".toList
  rw [last] at value
  exact ⟨valid, same, value⟩

end Jerboa.Kernel
