import Jerboa.AcceptedConfig
import Jerboa.ResourceNaming

/-!
# Volumes

The labels that `internal/volume` gives to volumes, and the decision to format
the disk of a volume before it is attached.
-/

namespace Jerboa.Volume

open Vm Naming List

/-! ### Labels -/

def maxLabelLen : Nat := 31

/-- `SanitizeLabel`, on the ASCII names that `Create` accepts. -/
def sanitizeLabel (name : String) : String :=
  if maxLabelLen < name.utf8ByteSize then String.ofList (name.toList.take maxLabelLen) else name

/-- `validateVMConfig` accepts every volume with the label that it accepts without
one. -/
def LabelAccepted (label : String) : Prop :=
  ∀ (cfg : Config) (vol : VolumeMount),
    validateVMConfig { cfg with volumes := [{ vol with label := "" }] } = .ok () →
      validateVMConfig { cfg with volumes := [{ vol with label := label }] } = .ok ()

theorem length_le_utf8ByteSize (text : List Char) :
    text.length ≤ (String.ofList text).utf8ByteSize := by
  induction text with
  | nil => exact Nat.zero_le _
  | cons c rest ih =>
    rw [String.ofList_cons, String.utf8ByteSize_append, String.utf8ByteSize_singleton,
      length_cons]
    have positive := c.utf8Size_pos
    omega

theorem toList_sanitizeLabel (name : String) :
    (sanitizeLabel name).toList = name.toList.take maxLabelLen := by
  unfold sanitizeLabel
  split
  · exact String.toList_ofList
  · rename_i short
    have length := length_le_utf8ByteSize name.toList
    rw [String.ofList_toList] at length
    rw [take_of_length_le (by omega)]

theorem mem_sanitizeLabel_iff {name : String} {c : Char} :
    c ∈ (sanitizeLabel name).toList ↔ ∃ i, i < maxLabelLen ∧ name.toList[i]? = some c := by
  rw [toList_sanitizeLabel, mem_iff_getElem?]
  refine exists_congr fun i => ?_
  rw [getElem?_take]
  split
  · rename_i inside
    simp [inside]
  · rename_i outside
    simp [outside]

theorem sanitizeLabel_eq_iff {first second : String} :
    sanitizeLabel first = sanitizeLabel second ↔
      ∀ i, i < maxLabelLen → first.toList[i]? = second.toList[i]? := by
  rw [← String.toList_inj, toList_sanitizeLabel, toList_sanitizeLabel, List.ext_getElem?_iff]
  refine forall_congr' fun i => ?_
  rw [getElem?_take, getElem?_take]
  split
  · rename_i inside
    simp [inside]
  · rename_i outside
    simp [outside]

def isNameChar (c : Char) : Bool :=
  Naming.isAlphanumeric c || c = '_' || c = '.' || c = '-'

def labelUnsafe (label : List Char) : Bool :=
  hasBootArgUnsafe label || label.any fun c => c = '=' || c = ':' || c = '.'

theorem isNameChar_of_matches {name : List Char} (matched : matchesResourceName name = true) :
    ∀ c ∈ name, isNameChar c = true := by
  cases name with
  | nil => nofun
  | cons first rest =>
    simp only [matchesResourceName, Bool.and_eq_true, all_eq_true] at matched
    refine forall_mem_cons.mpr ⟨?_, matched.2⟩
    simp [isNameChar, matched.1]

theorem labelUnsafe_iff {label : List Char} (named : ∀ c ∈ label, isNameChar c = true) :
    labelUnsafe label = true ↔ '.' ∈ label := by
  simp only [labelUnsafe, hasBootArgUnsafe, Bool.or_eq_true, any_eq_true, decide_eq_true_eq]
  constructor
  · have other (d : Char) (unnamed : isNameChar d = false) : d ∉ label := by
      intro member
      cases unnamed.symm.trans (named d member)
    rintro (⟨c, member, bad⟩ | ⟨c, member, bad⟩)
    · rcases bad with (((((rfl | rfl) | rfl) | rfl) | rfl) | rfl) | rfl <;>
        exact absurd member (other _ (by decide))
    · rcases bad with (rfl | rfl) | rfl
      · exact absurd member (other _ (by decide))
      · exact absurd member (other _ (by decide))
      · exact member
  · intro member
    exact .inr ⟨'.', member, .inr rfl⟩

theorem validateVMConfig_volumes (cfg : Config) {others : List VolumeMount}
    (valid : validateVMConfig { cfg with volumes := others } = .ok ()) (vols : List VolumeMount) :
    validateVMConfig { cfg with volumes := vols } = checkVolumes 0 vols := by
  simp only [validateVMConfig, ite_error_eq_ok] at valid ⊢
  obtain ⟨imagePath, memory, size, cpus, network, bridge, health, valid⟩ := valid
  rw [if_neg imagePath, if_neg memory, if_neg size, if_neg cpus, if_neg network, if_neg bridge,
    if_neg health]
  cases ports : checkPortMaps 0 cfg.portMaps with
  | error e => simp [ports] at valid
  | ok =>
    simp only [ports, ite_error_eq_ok] at valid
    obtain ⟨ipAddress, gateway, mask, valid⟩ := valid
    dsimp only
    rw [if_neg ipAddress, if_neg gateway, if_neg mask]
    cases env : checkEnv 0 cfg.env with
    | error e => simp [env] at valid
    | ok => rfl

theorem checkVolumes_label {vol : VolumeMount} {label : String}
    (valid : checkVolumes 0 [{ vol with label := "" }] = .ok ()) :
    checkVolumes 0 [{ vol with label := label }] = .ok () ↔ labelUnsafe label.toList = false := by
  simp only [checkVolumes, ite_error_eq_ok, and_true] at valid ⊢
  obtain ⟨diskPath, -, guestPath⟩ := valid
  exact ⟨fun checked => Bool.eq_false_iff.mpr checked.2.1,
    fun safe => ⟨diskPath, Bool.eq_false_iff.mp safe, guestPath⟩⟩

def plainConfig : Config :=
  { Config.zero with imagePath := "app.img", memory := "1G" }

theorem labelAccepted_iff {label : String} :
    LabelAccepted label ↔ labelUnsafe label.toList = false := by
  constructor
  · intro accepted
    have valid : validateVMConfig
        { plainConfig with volumes := [⟨"disk.img", "", false, ""⟩] } = .ok () := by decide
    have checked := accepted plainConfig ⟨"disk.img", "", false, ""⟩ valid
    rw [validateVMConfig_volumes plainConfig valid] at checked
    exact (checkVolumes_label (by decide)).mp checked
  · intro safe cfg vol valid
    rw [validateVMConfig_volumes cfg valid]
    rw [validateVMConfig_volumes cfg valid] at valid
    exact (checkVolumes_label valid).mpr safe

/-- The label of a name that `Create` accepts is accepted unless one of its
characters is a dot. -/
theorem labelAccepted_sanitizeLabel_iff {name : String}
    (valid : validateResourceName "volume" name = .ok ()) :
    LabelAccepted (sanitizeLabel name) ↔ ∀ i, i < maxLabelLen → name.toList[i]? ≠ some '.' := by
  have named : ∀ c ∈ (sanitizeLabel name).toList, isNameChar c = true := by
    intro c member
    rw [toList_sanitizeLabel] at member
    exact isNameChar_of_matches (validateResourceName_ok valid).2.2.2 c (mem_of_mem_take member)
  rw [labelAccepted_iff, Bool.eq_false_iff, ne_eq, labelUnsafe_iff named, mem_sanitizeLabel_iff]
  simp

/-- Two volumes have different labels, which are both accepted, exactly if their
names differ within the length of a label and have no dot there. -/
theorem volume_labels_iff {first second : String}
    (validFirst : validateResourceName "volume" first = .ok ())
    (validSecond : validateResourceName "volume" second = .ok ()) :
    (sanitizeLabel first ≠ sanitizeLabel second ∧ LabelAccepted (sanitizeLabel first) ∧
        LabelAccepted (sanitizeLabel second)) ↔
      (∃ i, i < maxLabelLen ∧ first.toList[i]? ≠ second.toList[i]?) ∧
        ∀ i, i < maxLabelLen → first.toList[i]? ≠ some '.' ∧ second.toList[i]? ≠ some '.' := by
  rw [labelAccepted_sanitizeLabel_iff validFirst, labelAccepted_sanitizeLabel_iff validSecond,
    ne_eq, sanitizeLabel_eq_iff]
  simp only [not_forall, exists_prop, ← forall_and]

theorem volume_labels_data_logs :
    sanitizeLabel "data" ≠ sanitizeLabel "logs" ∧ LabelAccepted (sanitizeLabel "data") ∧
      LabelAccepted (sanitizeLabel "logs") :=
  (volume_labels_iff (by decide) (by decide)).mpr ⟨⟨0, by decide⟩, by decide⟩

/-- Names that agree in 31 characters have one label, and a name may have a dot
that its label may not have. -/
theorem volume_labels_fail :
    (validateResourceName "volume" "project-alpha-postgres-database-1" = .ok () ∧
      validateResourceName "volume" "project-alpha-postgres-database-2" = .ok () ∧
      sanitizeLabel "project-alpha-postgres-database-1" =
        sanitizeLabel "project-alpha-postgres-database-2") ∧
    validateResourceName "volume" "app.data" = .ok () ∧
      ¬ LabelAccepted (sanitizeLabel "app.data") := by
  refine ⟨by decide, by decide, ?_⟩
  rw [labelAccepted_iff]
  decide

/-! ### Formatting -/

/-- `tfsMagic`: the first bytes of a disk with a filesystem. -/
def tfsMagic : List UInt8 := "NVMTFS".toList.map Char.toUInt8

inductive OpenError
  | notExist
  | other (text : String)
deriving DecidableEq

/-- What happens while the start of a disk is read: opening may fail, and `Read`
may fail or return fewer bytes than asked for. -/
structure Probe where
  openError : Option OpenError
  readError : Bool
  count : Nat

abbrev Disks := String → Option (List UInt8)

def isFormatted (disks : Disks) (probe : Probe) (path : String) : Except String Bool :=
  match probe.openError, disks path with
  | some .notExist, _ | none, none => .ok false
  | some (.other text), _ => .error ("open volume " ++ path ++ ": " ++ text)
  | none, some disk =>
    let head := disk.take (min probe.count tfsMagic.length)
    if probe.readError ∨ head.length < tfsMagic.length then .ok false else .ok (head == tfsMagic)

/-- What `EnsureFormatted` does: it returns, or runs the formatter. -/
inductive Ensured
  | keeps
  | refuses (text : String)
  | formats (path label : String) (sizeBytes : Int)
deriving DecidableEq

/-- `EnsureFormatted`; `size` is what `os.Stat` gives, and `format` says whether
there is a formatter. -/
def ensureFormatted (disks : Disks) (probe : Probe) (size : Option Int) (path label : String)
    (sizeBytes : Int) (format : Bool) : Ensured :=
  match isFormatted disks probe path with
  | .error text => .refuses text
  | .ok true => .keeps
  | .ok false =>
    if !format then .refuses ("volume " ++ path ++ " not formatted and no formatter available")
    else if label = "" then .refuses ("volume " ++ path ++ ": empty label")
    else .formats path label (if sizeBytes ≤ 0 then size.getD sizeBytes else sizeBytes)

theorem isFormatted_of_header {disks : Disks} {path : String} {disk : List UInt8}
    (there : disks path = some disk) (header : tfsMagic <+: disk) (probe : Probe) :
    isFormatted disks probe path ≠ .ok false ↔
      probe.openError ≠ some .notExist ∧
        (probe.openError = none → probe.readError = false ∧ tfsMagic.length ≤ probe.count) := by
  obtain ⟨rest, rfl⟩ := header
  simp only [isFormatted, there]
  cases probe.openError with
  | some error => cases error <;> simp
  | none =>
    by_cases whole : tfsMagic.length ≤ probe.count
    · simp [whole]
    · have short : min probe.count tfsMagic.length = probe.count := by omega
      simp [short, whole]

/-- With a header on the disk, the formatter is spared exactly if the start of the
disk is read in full or the error of opening it is not that of a missing file,
or if there is no formatter or no label. -/
theorem ensureFormatted_spares_iff {disks : Disks} {path : String} {disk : List UInt8}
    (there : disks path = some disk) (header : tfsMagic <+: disk) (probe : Probe)
    (size : Option Int) (label : String) (sizeBytes : Int) (format : Bool) :
    (∀ label' sizeBytes', ensureFormatted disks probe size path label sizeBytes format ≠
        .formats path label' sizeBytes') ↔
      (probe.openError ≠ some .notExist ∧
        (probe.openError = none → probe.readError = false ∧ tfsMagic.length ≤ probe.count)) ∨
      format = false ∨ label = "" := by
  rw [← isFormatted_of_header there header]
  fun_cases ensureFormatted disks probe size path label sizeBytes format with
  | case1 text failed => simp [failed]
  | case2 formatted => simp [formatted]
  | case3 raw absent => simp_all
  | case4 raw present empty => simp [empty]
  | case5 raw present given => simp_all

def formattedDisk (path : String) : Disks := fun other =>
  if other = path then some (tfsMagic ++ [0, 0]) else none

theorem ensureFormatted_spares_readable :
    ensureFormatted (formattedDisk "v/disk.img") ⟨none, false, 6⟩ none "v/disk.img" "v" 0 true ≠
      .formats "v/disk.img" "v" 0 :=
  (ensureFormatted_spares_iff rfl (prefix_append _ _) _ _ _ _ _).mpr (.inl (by decide)) "v" 0

/-- After an I/O error of the read the formatter runs on a disk with a filesystem. -/
theorem ensureFormatted_formats_unreadable :
    ensureFormatted (formattedDisk "v/disk.img") ⟨none, true, 0⟩ (some 8) "v/disk.img" "v" 0 true =
      .formats "v/disk.img" "v" 8 := by
  decide

end Jerboa.Volume
