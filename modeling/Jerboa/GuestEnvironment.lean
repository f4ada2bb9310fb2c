import Jerboa.FwCfgFiles

/-!
# The environment of a guest

QEMU and Firecracker deliver the same environment as long as every variable
that is given without a value in the end is empty in the image too: the
command line of Firecracker unsets such a variable, the file of QEMU sets it to
the empty text.
-/

namespace Jerboa.Kernel

open DelimitedText Vm List

variable {key : List Char} {cfg : Config} {entries image : Table}

section

variable (files : List (List Char × List Char))

theorem get_netInjectFromFwCfg (root : Value)
    (other : key ≠ "ipaddr".toList ∧ key ≠ "netmask".toList ∧ key ≠ "gateway".toList) :
    (netInjectFromFwCfg files root).get key = root.get key := by
  unfold netInjectFromFwCfg
  split
  · rfl
  · rw [get_set_of_ne other.2.2, get_set_of_ne other.2.1, get_set_of_ne other.1]

theorem get_mountsInjectFromFwCfg (root : Value)
    (other : key ≠ "mounts".toList) :
    (mountsInjectFromFwCfg files root).1.get key = root.get key := by
  unfold mountsInjectFromFwCfg
  split
  · rfl
  · simp only
    split
    · rfl
    · exact get_set_of_ne other _

theorem get_envInjectFromFwCfg (root : Value)
    (other : key ≠ "environment".toList) :
    (envInjectFromFwCfg files root).get key = root.get key := by
  unfold envInjectFromFwCfg
  split
  · rfl
  · exact get_set_of_ne other _

end

/-! ### The two root tuples -/

theorem cmdlineApply_nil (t : Value) : cmdlineApply [] t = t :=
  foldFields_nil

theorem firecrackerRoot_eq (accepted : Accepted cfg) (image : Table) :
    firecrackerRoot cfg image = (bootOptions cfg).foldl BootOption.apply (.cow image []) :=
  cmdlineApply_bootArgs accepted (.cow image [])

def Baked (image : Table) (scope : List Char) (entries : Table) : Prop :=
  tableFind image scope = some (.tuple entries) ∨ tableFind image scope = none ∧ entries = []

theorem Baked.hosts {scope : List Char} (baked : Baked image scope entries) :
    Hosts (.cow image []) scope := by
  refine ⟨rfl, fun v found => ?_⟩
  rw [get_wrapped] at found
  rcases baked with present | ⟨missing, -⟩
  · rw [present] at found
    obtain rfl : Value.cow entries [] = v := Option.some.inj found
    rfl
  · simp [missing] at found

theorem Baked.child_get {scope : List Char} (baked : Baked image scope entries) (key : List Char) :
    (child (.cow image []) scope).get key = (tableFind entries key).map Value.wrap ∧
      (child (.cow image []) scope).parentGet key = (tableFind entries key).map Value.wrap := by
  rcases baked with present | ⟨missing, rfl⟩
  · have found : (Value.cow image []).get scope = some (.cow entries []) := by
      rw [get_wrapped, present]
      rfl
    rw [child_of_some found rfl]
    exact ⟨rfl, rfl⟩
  · have found : (Value.cow image []).get scope = none := by
      rw [get_wrapped, missing]
      rfl
    rw [child_of_none found]
    exact ⟨rfl, rfl⟩

/-! ### The environment under QEMU -/

def fileValue (value : List Char) : Option Value :=
  some (.string value)

theorem injectPair_entry {kv : String} {value : List Char} (entry : EnvEntry kv.toList key value)
    (env : Value) :
    injectPair env kv.toList = env.set (envPair kv).1 (fileValue (envPair kv).2) := by
  have noEquals : '=' ∉ key := not_mem_of_matchesEnvKey entry.key (by decide) (by decide)
  have nonempty : key ≠ [] := by
    rintro rfl
    simpa [matchesEnvKey] using entry.key
  rw [envPair_of_entry entry, entry.text, injectPair, cut_append noEquals]
  exact if_neg nonempty

theorem foldFields_env (accepted : Accepted cfg) (env : Value) :
    foldFields '\n' injectPair env (joinLines (cfg.env.map String.toList)) =
      setAll fileValue env (cfg.env.map envPair) := by
  rw [joinLines, foldFields_intercalate, foldl_map, setAll, foldl_map]
  · apply foldl_ext
    intro env kv member
    obtain ⟨key, value, entry⟩ := accepted.env kv member
    exact injectPair_entry entry env
  · intro line member
    obtain ⟨kv, inEnv, rfl⟩ := mem_map.mp member
    obtain ⟨key, value, entry⟩ := accepted.env kv inEnv
    rw [entry.text]
    refine ⟨by simp, ?_⟩
    have inKey : '\n' ∉ key := not_mem_of_matchesEnvKey entry.key (by decide) (by decide)
    have inValue : '\n' ∉ value := not_mem_of_safe entry.value (by simp)
    simp [inKey, inValue]

theorem fwCfgReadFile_env (accepted : Accepted cfg) :
    fwCfgReadFile (fwCfgFiles (guestArgs cfg)) "opt/uni/env".toList =
      if cfg.env = [] then none else some (joinLines (cfg.env.map String.toList)) := by
  rw [fwCfgFiles_guestArgs, append_assoc, envFile]
  split
  · rw [nil_append, fwCfgReadFile_append_of_ne, ← append_nil (mountFile cfg),
      fwCfgReadFile_append_of_ne, fwCfgReadFile_nil]
    · intro file member
      rw [name_of_mem_mountFile file member]
      decide
    · intro file member
      rw [name_of_mem_networkFile file member]
      decide
  · rename_i nonempty
    obtain ⟨first, rest, isEnv⟩ := exists_cons_of_ne_nil nonempty
    have firstNonempty : first.toList ≠ [] := by
      obtain ⟨key, value, entry⟩ := accepted.env first (by rw [isEnv]; exact mem_cons_self)
      rw [entry.text]
      simp
    rw [singleton_append, fwCfgReadFile_cons]
    rw [isEnv, map_cons]
    exact joinLines_ne_nil firstNonempty _

theorem child_qemuRoot_env (accepted : Accepted cfg) (image : Table) :
    child (qemuRoot cfg image) "environment".toList =
      setAll fileValue (child (.cow image []) "environment".toList) (cfg.env.map envPair) := by
  have others : (qemuRoot cfg image).get "environment".toList =
      (envInjectFromFwCfg (fwCfgFiles (guestArgs cfg)) (.cow image [])).get
        "environment".toList := by
    unfold qemuRoot bootRoot
    rw [get_mountsInjectFromFwCfg _ _ (by decide), get_netInjectFromFwCfg _ _ (by decide),
      cmdlineApply_nil]
  rw [child_of_get others, envInjectFromFwCfg, fwCfgReadFile_env accepted]
  by_cases none : cfg.env = []
  · simp only [none, if_true, map_nil]
    rfl
  · simp only [none, if_false]
    apply child_of_some
    · rw [get_set_self rfl, foldFields_env accepted]
      rfl
    · rw [isComposite_setAll]
      exact isComposite_child _ _

theorem child_firecrackerRoot_env (accepted : Accepted cfg)
    (baked : Baked image "environment".toList entries) :
    child (firecrackerRoot cfg image) "environment".toList =
      setAll optionValue (child (.cow image []) "environment".toList) (cfg.env.map envPair) := by
  rw [firecrackerRoot_eq accepted, child_foldl baked.hosts (name_ne_of_plain (by decide)),
    envOptions_inScope]

/-! ### Agreement -/

def environmentOf (root : Value) (key : List Char) : Option Value :=
  (child root "environment".toList).get key

theorem map_wrap_eq_string {found : Option Value} {text : List Char} :
    found.map Value.wrap = some (.string text) ↔ found = some (.string text) := by
  cases found with
  | none => simp
  | some v => cases v <;> simp [Value.wrap]

/-- The guest gets one environment from both hypervisors if and only if every
variable whose last entry has no value is empty in the image. -/
theorem environments_agree_iff {cfg : Config} (valid : validateVMConfig cfg = .ok ())
    {image entries : Table} (baked : Baked image "environment".toList entries) :
    (∀ key, environmentOf (qemuRoot cfg image) key =
        environmentOf (firecrackerRoot cfg image) key) ↔
      ∀ key, lastValue (cfg.env.map envPair) key = some [] →
        tableFind entries key = some (.string []) := by
  have accepted := accepted_of_valid valid
  unfold environmentOf
  rw [child_qemuRoot_env accepted image, child_firecrackerRoot_env accepted baked]
  apply forall_congr'
  intro key
  have composite := isComposite_child (.cow image []) "environment".toList
  rw [get_setAll composite, get_setAll composite, (baked.child_get key).1, (baked.child_get key).2]
  cases lastValue (cfg.env.map envPair) key with
  | none => simp
  | some value =>
    by_cases empty : value = []
    · subst empty
      simp only [fileValue, optionValue, Option.elim_some, if_true, Option.none_or,
        Option.some_or, forall_const]
      rw [eq_comm, map_wrap_eq_string]
    · simp [fileValue, optionValue, empty]

def envConfig (env : List String) : Config :=
  { Config.zero with imagePath := "disk.img", memory := "256M", env := env }

def envImage (entries : Table) : Table :=
  [("environment".toList, .tuple entries)]

theorem baked_envImage (entries : Table) :
    Baked (envImage entries) "environment".toList entries :=
  .inl rfl

/-- Repeated names, a value with punctuation and a variable that is empty in
the image too. -/
theorem environments_agree_repeated :
    validateVMConfig (envConfig ["A=", "A=x=1,2", "B="]) = .ok () ∧
      ∀ key, environmentOf (qemuRoot (envConfig ["A=", "A=x=1,2", "B="])
          (envImage [("B".toList, .string [])])) key =
        environmentOf (firecrackerRoot (envConfig ["A=", "A=x=1,2", "B="])
          (envImage [("B".toList, .string [])])) key := by
  have valid : validateVMConfig (envConfig ["A=", "A=x=1,2", "B="]) = .ok () := by decide
  have pairs : (envConfig ["A=", "A=x=1,2", "B="]).env.map envPair =
      [("A".toList, []), ("A".toList, "x=1,2".toList), ("B".toList, [])] := by
    decide
  refine ⟨valid, (environments_agree_iff valid (baked_envImage _)).mpr ?_⟩
  intro key last
  rw [pairs] at last
  have member := mem_of_lastValue last
  simp only [mem_cons, Prod.mk.injEq, not_mem_nil, or_false] at member
  rcases member with ⟨rfl, -⟩ | ⟨-, value⟩ | ⟨rfl, -⟩
  · exact absurd last (by decide)
  · simp at value
  · rfl

/-- A variable without a value reaches the guest under QEMU only. -/
theorem environments_differ_empty :
    validateVMConfig (envConfig ["DEBUG="]) = .ok () ∧
      environmentOf (qemuRoot (envConfig ["DEBUG="]) (envImage [])) "DEBUG".toList =
        some (.string []) ∧
      environmentOf (firecrackerRoot (envConfig ["DEBUG="]) (envImage [])) "DEBUG".toList =
        none := by
  have valid : validateVMConfig (envConfig ["DEBUG="]) = .ok () := by decide
  have accepted := accepted_of_valid valid
  have composite := isComposite_child (.cow (envImage []) []) "environment".toList
  have shown := (baked_envImage []).child_get "DEBUG".toList
  have last : lastValue ((envConfig ["DEBUG="]).env.map envPair) "DEBUG".toList = some [] := by
    decide
  refine ⟨valid, ?_, ?_⟩
  · rw [environmentOf, child_qemuRoot_env accepted, get_setAll composite, last]
    rfl
  · rw [environmentOf, child_firecrackerRoot_env accepted (baked_envImage []),
      get_setAll composite, last, shown.2]
    rfl

end Jerboa.Kernel
