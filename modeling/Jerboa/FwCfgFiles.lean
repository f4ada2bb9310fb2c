import Jerboa.BootOptions

/-!
# Files of the fw_cfg device

What QEMU makes of the arguments is what the daemon has put into them: commas
are doubled and collapsed, and every file is found under its name.
-/

namespace Jerboa.Vm

open DelimitedText

theorem escapeFwCfgValue_cons (c : Char) (s : List Char) :
    escapeFwCfgValue (c :: s) =
      (if c = ',' then [',', ','] else [c]) ++ escapeFwCfgValue s :=
  rfl

theorem collapseCommas_cons {c : Char} (other : c ≠ ',') (rest : List Char) :
    collapseCommas (c :: rest) = c :: collapseCommas rest := by
  cases rest <;> simp [collapseCommas, other]

theorem collapseCommas_escape (s : List Char) : collapseCommas (escapeFwCfgValue s) = s := by
  induction s with
  | nil => rfl
  | cons c s ih =>
    rw [escapeFwCfgValue_cons]
    by_cases comma : c = ','
    · subst comma
      simp [collapseCommas, ih]
    · rw [if_neg comma, List.singleton_append, collapseCommas_cons comma, ih]

/-! ### Files -/

theorem fwCfgFile_option {name : List Char} (noComma : ',' ∉ name) (content : List Char) :
    fwCfgFile ("name=".toList ++ name ++ ",string=".toList ++ escapeFwCfgValue content) =
      some (name, content) := by
  have key : '=' ∉ "name".toList := by decide
  have stringKey : '=' ∉ "string".toList := by decide
  have text : "name=".toList ++ name ++ ",string=".toList ++ escapeFwCfgValue content =
      "name".toList ++ '=' :: (name ++ ',' :: ("string".toList ++ '=' ::
        escapeFwCfgValue content)) := by
    simp
  rw [fwCfgFile, text, cut_append key]
  simp only
  rw [cut_append noComma]
  simp only
  rw [cut_append stringKey]
  simp only [Option.map_some, collapseCommas_escape]

theorem fwCfgFiles_append {name : String} (noComma : ',' ∉ name.toList) (content : List Char)
    (rest : List (List Char)) :
    fwCfgFiles (fwCfgArgs name content ++ rest) = (name.toList, content) :: fwCfgFiles rest := by
  rw [fwCfgArgs, List.cons_append, List.cons_append, List.nil_append, fwCfgFiles,
    if_pos rfl, fwCfgFile_option noComma]
  rfl

def envFile (cfg : Config) : List (List Char × List Char) :=
  if cfg.env = [] then []
  else [("opt/uni/env".toList, joinLines (cfg.env.map String.toList))]

def networkFile (cfg : Config) : List (List Char × List Char) :=
  if cfg.ipAddress = "" ∨ cfg.gatewayIP = "" then []
  else [("opt/uni/network".toList,
    cfg.ipAddress.toList ++ '/' :: (netMask cfg).toList ++ ',' :: cfg.gatewayIP.toList)]

def mountFile (cfg : Config) : List (List Char × List Char) :=
  if mountedVolumes cfg.volumes = [] then []
  else [("opt/uni/mounts".toList, joinLines ((mountedVolumes cfg.volumes).map fun vol =>
    vol.label.toList ++ ':' :: vol.guestPath.toList))]

theorem fwCfgFiles_guestArgs (cfg : Config) :
    fwCfgFiles (guestArgs cfg) = envFile cfg ++ networkFile cfg ++ mountFile cfg := by
  have env : ',' ∉ "opt/uni/env".toList := by decide
  have network : ',' ∉ "opt/uni/network".toList := by decide
  have mounts : ',' ∉ "opt/uni/mounts".toList := by decide
  have mountPart : fwCfgFiles (buildMountArgs cfg.volumes) = mountFile cfg := by
    unfold buildMountArgs mountFile
    by_cases none : mountedVolumes cfg.volumes = []
    · simp [none, fwCfgFiles]
    · have part := fwCfgFiles_append mounts (joinLines ((mountedVolumes cfg.volumes).map fun vol =>
        vol.label.toList ++ ':' :: vol.guestPath.toList)) []
      rw [List.append_nil] at part
      simp only [List.map_eq_nil_iff, none, if_false]
      exact part
  have networkPart : fwCfgFiles (buildNetworkCfgArgs cfg ++ buildMountArgs cfg.volumes) =
      networkFile cfg ++ mountFile cfg := by
    unfold buildNetworkCfgArgs networkFile
    split
    · exact mountPart
    · rw [fwCfgFiles_append network, mountPart]
      rfl
  unfold guestArgs buildEnvArgs envFile
  rw [List.append_assoc]
  split
  · exact networkPart
  · rw [fwCfgFiles_append env, networkPart]
    rfl

end Jerboa.Vm

namespace Jerboa.Kernel

open DelimitedText Vm

/-! ### Reading a file -/

theorem fwCfgReadFile_append_of_ne {files rest : List (List Char × List Char)} {name : List Char}
    (other : ∀ file ∈ files, file.1 ≠ name) :
    fwCfgReadFile (files ++ rest) name = fwCfgReadFile rest name := by
  unfold fwCfgReadFile
  rw [List.find?_append, List.find?_eq_none.mpr]
  · rfl
  · intro file member
    simpa using other file member

theorem fwCfgReadFile_cons {name content : List Char} (nonempty : content ≠ [])
    (rest : List (List Char × List Char)) :
    fwCfgReadFile ((name, content) :: rest) name = some content := by
  simp [fwCfgReadFile, nonempty]

theorem name_of_mem_envFile {cfg : Config} : ∀ file ∈ envFile cfg, file.1 = "opt/uni/env".toList := by
  unfold envFile
  split <;> simp

theorem name_of_mem_networkFile {cfg : Config} :
    ∀ file ∈ networkFile cfg, file.1 = "opt/uni/network".toList := by
  unfold networkFile
  split <;> simp

theorem name_of_mem_mountFile {cfg : Config} :
    ∀ file ∈ mountFile cfg, file.1 = "opt/uni/mounts".toList := by
  unfold mountFile
  split <;> simp

theorem fwCfgReadFile_nil (name : List Char) : fwCfgReadFile [] name = none :=
  rfl

theorem joinLines_ne_nil {first : List Char} (nonempty : first ≠ []) (rest : List (List Char)) :
    joinLines (first :: rest) ≠ [] := by
  cases rest with
  | nil => simpa [joinLines] using nonempty
  | cons second rest => simp [joinLines, nonempty]

end Jerboa.Kernel
