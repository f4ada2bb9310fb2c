import Jerboa.AcceptedConfig
import Jerboa.GuestDelivery
import Jerboa.NetAddressCharacters
import Jerboa.NetAddressText

/-!
# Options of the boot arguments

The boot arguments of an accepted configuration are a list of options, each of
which sets one name of the root tuple or of one tuple in it.
-/

namespace Jerboa.Kernel

open DelimitedText Vm NetAddress List

/-! ### One option -/

def setOption (t : Value) (name value : List Char) : Value :=
  t.set name (if value = [] then none else some (.string value))

def changeTuple (cfg : Value) (scope : List Char) (change : Value → Value) : Value :=
  match cfg.get scope with
  | none => cfg.set scope (some (change (.tuple [])))
  | some child => if child.isComposite then cfg.set scope (some (change child)) else cfg

variable {name scope : List Char} {o : BootOption} {options : List BootOption} {cfg : Config}
  {t : Value}

theorem cmdlineApplyOption_of_cut {opt value : List Char} (cfg : Value)
    (found : cut '=' opt = some (name, value)) :
    cmdlineApplyOption opt cfg =
      if cmdlineGetPrefix opt ≠ 0 ∧ cmdlineGetPrefix opt < name.length then
        changeTuple cfg (opt.take (cmdlineGetPrefix opt))
          (cmdlineApplyOption (opt.drop (cmdlineGetPrefix opt + 1)))
      else setOption cfg name value := by
  rw [cmdlineApplyOption]
  split
  · rename_i missing
    simp [found] at missing
  · rename_i name' value' found'
    rw [found] at found'
    obtain ⟨rfl, rfl⟩ := Prod.mk.inj (Option.some.inj found')
    simp only [dite_eq_ite, changeTuple]
    rfl

theorem cmdlineApplyOption_plain (noEquals : '=' ∉ name) (noDot : '.' ∉ name) (value : List Char)
    (cfg : Value) :
    cmdlineApplyOption (name ++ '=' :: value) cfg = setOption cfg name value := by
  rw [cmdlineApplyOption_of_cut cfg (cut_append noEquals value), if_neg]
  rintro ⟨nonzero, inside⟩
  unfold cmdlineGetPrefix at nonzero inside
  split at inside
  · simp_all
  · rename_i front rest found
    -- the first dot stands in the value
    obtain ⟨split, -⟩ := cut_eq_some found
    have dotAt : (name ++ '=' :: value)[front.length]? = some '.' := by
      rw [split]
      simp
    rw [getElem?_append_left inside] at dotAt
    exact noDot (mem_of_getElem? dotAt)

theorem cmdlineApplyOption_scoped (nonempty : scope ≠ []) (noDot : '.' ∉ scope)
    (noEquals : '=' ∉ scope) (noEqualsName : '=' ∉ name) (value : List Char) (cfg : Value) :
    cmdlineApplyOption (scope ++ '.' :: (name ++ '=' :: value)) cfg =
      changeTuple cfg scope (cmdlineApplyOption (name ++ '=' :: value)) := by
  have prefixEq : cmdlineGetPrefix (scope ++ '.' :: (name ++ '=' :: value)) = scope.length := by
    rw [cmdlineGetPrefix, cut_append noDot]
  have found : cut '=' (scope ++ '.' :: (name ++ '=' :: value)) =
      some (scope ++ '.' :: name, value) := by
    have free : '=' ∉ scope ++ '.' :: name := by
      simp [noEquals, noEqualsName]
    rw [← cut_append free value]
    simp
  rw [cmdlineApplyOption_of_cut cfg found, prefixEq, if_pos]
  · simp
  · simpa using nonempty

/-! ### The options of a configuration -/

structure BootOption where
  scope : Option (List Char)
  name : List Char
  value : List Char

def BootOption.text (o : BootOption) : List Char :=
  match o.scope with
  | none => o.name ++ '=' :: o.value
  | some scope => scope ++ '.' :: (o.name ++ '=' :: o.value)

def BootOption.apply (t : Value) (o : BootOption) : Value :=
  match o.scope with
  | none => setOption t o.name o.value
  | some scope => changeTuple t scope fun child => setOption child o.name o.value

/-- The punctuation of an option stands where it should. -/
structure BootOption.Proper (o : BootOption) : Prop where
  scope : ∀ scope ∈ o.scope, scope ≠ [] ∧ '.' ∉ scope ∧ '=' ∉ scope ∧ ' ' ∉ scope
  name : '.' ∉ o.name ∧ '=' ∉ o.name ∧ ' ' ∉ o.name
  value : ' ' ∉ o.value

theorem BootOption.Proper.cmdlineApplyOption (proper : o.Proper) (t : Value) :
    cmdlineApplyOption o.text t = BootOption.apply t o := by
  obtain ⟨noDot, noEquals, -⟩ := proper.name
  unfold BootOption.text BootOption.apply
  cases isScope : o.scope with
  | none => exact cmdlineApplyOption_plain noEquals noDot o.value t
  | some scope =>
    obtain ⟨nonempty, scopeDot, scopeEquals, -⟩ := proper.scope scope isScope
    simp only
    rw [cmdlineApplyOption_scoped nonempty scopeDot scopeEquals noEquals]
    congr 1
    funext child
    exact cmdlineApplyOption_plain noEquals noDot o.value child

theorem BootOption.Proper.field (proper : o.Proper) :
    o.text ≠ [] ∧ ' ' ∉ o.text := by
  obtain ⟨-, -, noBlank⟩ := proper.name
  unfold BootOption.text
  cases isScope : o.scope with
  | none => simp [noBlank, proper.value]
  | some scope =>
    obtain ⟨-, -, -, scopeBlank⟩ := proper.scope scope isScope
    simp [noBlank, proper.value, scopeBlank]

theorem cmdlineApply_options (proper : ∀ o ∈ options, o.Proper) {cmdline : List Char}
    (text : ' ' :: cmdline = options.flatMap fun o => ' ' :: o.text) (t : Value) :
    cmdlineApply cmdline t = options.foldl BootOption.apply t := by
  have fields : (options.map BootOption.text).flatMap (fun field => ' ' :: field) =
      options.flatMap fun o => ' ' :: o.text := by
    rw [flatMap_map]
  unfold cmdlineApply
  rw [← foldFields_separator, text, ← fields, foldFields_flatMap, foldl_map]
  · apply foldl_ext
    intro t o member
    exact (proper o member).cmdlineApplyOption t
  · intro field member
    obtain ⟨o, inOptions, rfl⟩ := mem_map.mp member
    exact (proper o inOptions).field

def standardOptions : List BootOption :=
  [⟨none, "console".toList, "ttyS0".toList⟩, ⟨none, "reboot".toList, "k".toList⟩,
    ⟨none, "panic".toList, "1".toList⟩, ⟨none, "pci".toList, "off".toList⟩]

def envPair (kv : String) : List Char × List Char :=
  (cut '=' kv.toList).getD ([], [])

def envOptions (cfg : Config) : List BootOption :=
  cfg.env.map fun kv => ⟨some "environment".toList, (envPair kv).1, (envPair kv).2⟩

def networkOptions (cfg : Config) : List BootOption :=
  if cfg.networkName ≠ "" ∧ cfg.ipAddress ≠ "" then
    [⟨some "en1".toList, "ipaddr".toList, cfg.ipAddress.toList⟩,
      ⟨some "en1".toList, "netmask".toList, Vm.cidrToNetmask (netMask cfg)⟩] ++
      if cfg.gatewayIP ≠ "" then
        [⟨some "en1".toList, "gateway".toList, cfg.gatewayIP.toList⟩]
      else []
  else []

def mountOptions (cfg : Config) : List BootOption :=
  (mountedVolumes cfg.volumes).map fun vol =>
    ⟨some "mounts".toList, vol.label.toList, vol.guestPath.toList⟩

def bootOptions (cfg : Config) : List BootOption :=
  standardOptions ++ envOptions cfg ++ networkOptions cfg ++ mountOptions cfg

theorem envPair_of_entry {kv : String} {key value : List Char}
    (entry : EnvEntry kv.toList key value) : envPair kv = (key, value) := by
  have noEquals : '=' ∉ key := not_mem_of_matchesEnvKey entry.key (by decide) (by decide)
  rw [envPair, entry.text, cut_append noEquals]
  rfl

theorem standardOptions_text :
    (standardOptions.flatMap fun o => ' ' :: o.text) = ' ' :: standardBootArgs := by
  decide

theorem envOptions_text (accepted : Accepted cfg) :
    ((envOptions cfg).flatMap fun o => ' ' :: o.text) =
      cfg.env.flatMap fun kv => " environment.".toList ++ kv.toList := by
  rw [envOptions, flatMap_map]
  apply flatMap_congr
  intro kv member
  obtain ⟨key, value, entry⟩ := accepted.env kv member
  rw [envPair_of_entry entry, entry.text]
  simp [BootOption.text]

theorem networkOptions_text (cfg : Config) :
    ((networkOptions cfg).flatMap fun o => ' ' :: o.text) = networkBootArgs cfg := by
  unfold networkOptions networkBootArgs
  split
  · split <;> simp [BootOption.text]
  · rfl

theorem mountOptions_text (cfg : Config) :
    ((mountOptions cfg).flatMap fun o => ' ' :: o.text) =
      (mountedVolumes cfg.volumes).flatMap fun vol =>
        " mounts.".toList ++ vol.label.toList ++ '=' :: vol.guestPath.toList := by
  rw [mountOptions, flatMap_map]
  apply flatMap_congr
  intro vol member
  simp [BootOption.text]

theorem bootArgs_eq_options (accepted : Accepted cfg) :
    ' ' :: buildFCBootArgs cfg = (bootOptions cfg).flatMap fun o => ' ' :: o.text := by
  rw [bootOptions, flatMap_append, flatMap_append, flatMap_append,
    standardOptions_text, envOptions_text accepted, networkOptions_text, mountOptions_text,
    buildFCBootArgs, cons_append, cons_append, cons_append]

/-! ### Accepted configurations make proper options -/

theorem standardOptions_proper : ∀ o ∈ standardOptions, o.Proper := by
  intro o member
  simp only [standardOptions, mem_cons, not_mem_nil, or_false] at member
  rcases member with rfl | rfl | rfl | rfl
  all_goals exact ⟨by simp, by decide, by decide⟩

section

variable (accepted : Accepted cfg)

include accepted

theorem envOptions_proper :
    ∀ o ∈ envOptions cfg, o.Proper := by
  intro o member
  obtain ⟨kv, inEnv, rfl⟩ := mem_map.mp member
  obtain ⟨key, value, entry⟩ := accepted.env kv inEnv
  rw [envPair_of_entry entry]
  have free {c : Char} (other : isAlphanumeric c = false) (notUnderscore : c ≠ '_') : c ∉ key :=
    not_mem_of_matchesEnvKey entry.key other notUnderscore
  refine ⟨?_, ⟨free (by decide) (by decide), free (by decide) (by decide),
    free (by decide) (by decide)⟩, not_mem_of_safe entry.value (.inl rfl)⟩
  rintro scope ⟨⟩
  decide

theorem networkOptions_proper :
    ∀ o ∈ networkOptions cfg, o.Proper := by
  have en1 : ∀ scope ∈ some "en1".toList,
      scope ≠ [] ∧ '.' ∉ scope ∧ '=' ∉ scope ∧ ' ' ∉ scope := by
    rintro scope ⟨⟩
    decide
  have ipaddr : '.' ∉ "ipaddr".toList ∧ '=' ∉ "ipaddr".toList ∧ ' ' ∉ "ipaddr".toList := by decide
  have netmask : '.' ∉ "netmask".toList ∧ '=' ∉ "netmask".toList ∧ ' ' ∉ "netmask".toList := by
    decide
  have gateway : '.' ∉ "gateway".toList ∧ '=' ∉ "gateway".toList ∧ ' ' ∉ "gateway".toList := by
    decide
  have blank : isAddressChar ' ' = false := by decide
  intro o member
  unfold networkOptions at member
  split at member
  · rename_i given
    rcases mem_append.mp member with always | last
    · simp only [mem_cons, not_mem_nil, or_false] at always
      rcases always with rfl | rfl
      · exact ⟨en1, ipaddr, not_mem_of_parseIP (accepted.ipAddress given.2) blank⟩
      · refine ⟨en1, netmask, fun inside => ?_⟩
        exact ne_of_mem_dotted inside (by decide) (by decide) rfl
    · split at last
      · rename_i hasGateway
        obtain rfl := mem_singleton.mp last
        exact ⟨en1, gateway, not_mem_of_parseIP (accepted.gatewayIP hasGateway) blank⟩
      · simp at last
  · simp at member

theorem mountOptions_proper :
    ∀ o ∈ mountOptions cfg, o.Proper := by
  intro o member
  obtain ⟨vol, mounted, rfl⟩ := mem_map.mp member
  obtain ⟨inVolumes, given⟩ := mem_filter.mp mounted
  obtain ⟨labelSafe, ⟨noEquals, -, noDot⟩, guestPath⟩ := accepted.volumes vol inVolumes
  have hasPath : vol.guestPath ≠ "" := by
    simp only [decide_eq_true_eq] at given
    exact given.2
  refine ⟨?_, ⟨noDot, noEquals, not_mem_of_safe labelSafe (.inl rfl)⟩,
    not_mem_of_safe (guestPath hasPath).2 (.inl rfl)⟩
  rintro scope ⟨⟩
  decide

theorem bootOptions_proper :
    ∀ o ∈ bootOptions cfg, o.Proper := by
  intro o member
  simp only [bootOptions, mem_append] at member
  rcases member with ((standard | env) | network) | mount
  · exact standardOptions_proper o standard
  · exact envOptions_proper accepted o env
  · exact networkOptions_proper accepted o network
  · exact mountOptions_proper accepted o mount

theorem cmdlineApply_bootArgs (t : Value) :
    cmdlineApply (buildFCBootArgs cfg) t = (bootOptions cfg).foldl BootOption.apply t :=
  cmdlineApply_options (bootOptions_proper accepted) (bootArgs_eq_options accepted) t

end

/-! ### The tuple of a scope -/

def child (t : Value) (scope : List Char) : Value :=
  (t.getTuple scope).getD (.tuple [])

/-- What stands under the symbol is a tuple. -/
structure Hosts (t : Value) (scope : List Char) : Prop where
  composite : t.isComposite = true
  tuple : ∀ v ∈ t.get scope, v.isComposite = true

theorem child_of_get {scope' : List Char} {t' : Value} (same : t'.get scope' = t.get scope) :
    child t' scope' = child t scope := by
  rw [child, Value.getTuple, same]
  rfl

theorem child_of_some {v : Value} (found : t.get scope = some v) (composite : v.isComposite = true) : child t scope = v := by
  rw [child, Value.getTuple, found, Option.filter_some, if_pos composite]
  rfl

theorem child_of_none (missing : t.get scope = none) :
    child t scope = .tuple [] := by
  rw [child, Value.getTuple, missing]
  rfl

theorem isComposite_child (t : Value) (scope : List Char) : (child t scope).isComposite = true := by
  unfold child Value.getTuple
  cases found : (t.get scope).filter Value.isComposite with
  | none => rfl
  | some v => exact (Option.filter_eq_some_iff.mp found).2

theorem isComposite_setOption (t : Value) (name value : List Char) :
    (setOption t name value).isComposite = t.isComposite :=
  isComposite_set t name _

theorem changeTuple_of_hosts (hosts : Hosts t scope) (change : Value → Value) :
    changeTuple t scope change = t.set scope (some (change (child t scope))) := by
  unfold changeTuple
  cases found : t.get scope with
  | none => rw [child_of_none found]
  | some v =>
    have composite := hosts.tuple v found
    rw [child_of_some found composite]
    exact if_pos composite

theorem get_changeTuple_of_ne {other : List Char} (different : other ≠ scope)
    (change : Value → Value) : (changeTuple t scope change).get other = t.get other := by
  unfold changeTuple
  split
  · exact get_set_of_ne different _
  · split
    · exact get_set_of_ne different _
    · rfl

theorem isComposite_changeTuple (t : Value) (scope : List Char) (change : Value → Value) :
    (changeTuple t scope change).isComposite = t.isComposite := by
  unfold changeTuple
  split
  · exact isComposite_set t scope _
  · split
    · exact isComposite_set t scope _
    · rfl

def BootOption.inScope (scope : List Char) (o : BootOption) : Option (List Char × List Char) :=
  if o.scope = some scope then some (o.name, o.value) else none

theorem BootOption.apply_inside (hosts : Hosts t scope) (inside : o.scope = some scope) :
    Hosts (BootOption.apply t o) scope ∧
      child (BootOption.apply t o) scope = setOption (child t scope) o.name o.value := by
  have applied : BootOption.apply t o =
      t.set scope (some (setOption (child t scope) o.name o.value)) := by
    rw [BootOption.apply, inside]
    exact changeTuple_of_hosts hosts _
  have composite : (setOption (child t scope) o.name o.value).isComposite = true := by
    rw [isComposite_setOption]
    exact isComposite_child t scope
  have found : (BootOption.apply t o).get scope =
      some (setOption (child t scope) o.name o.value) := by
    rw [applied, get_set_self hosts.composite]
    rfl
  refine ⟨⟨?_, ?_⟩, ?_⟩
  · rw [applied, isComposite_set]
    exact hosts.composite
  · intro v isValue
    rw [found] at isValue
    exact Option.some.inj isValue ▸ composite
  · exact child_of_some found composite

theorem BootOption.apply_outside (outside : o.scope ≠ some scope)
    (name : o.scope = none → o.name ≠ scope) :
    (BootOption.apply t o).get scope = t.get scope ∧
      (BootOption.apply t o).isComposite = t.isComposite := by
  unfold BootOption.apply
  cases isScope : o.scope with
  | none => exact ⟨get_set_of_ne (Ne.symm (name isScope)) _, isComposite_setOption t _ _⟩
  | some other =>
    have different : scope ≠ other := fun same => outside (by rw [isScope, same])
    exact ⟨get_changeTuple_of_ne different _, isComposite_changeTuple t other _⟩

def optionValue (value : List Char) : Option Value :=
  if value = [] then none else some (.string value)

theorem child_foldl (hosts : Hosts t scope) (names : ∀ o ∈ options, o.scope = none → o.name ≠ scope) :
    child (options.foldl BootOption.apply t) scope =
      setAll optionValue (child t scope) (options.filterMap (BootOption.inScope scope)) := by
  induction options generalizing t with
  | nil => rfl
  | cons o options ih =>
    have later := fun other member => names other (mem_cons_of_mem o member)
    rw [foldl_cons, filterMap_cons]
    by_cases inside : o.scope = some scope
    · obtain ⟨hosts', childAfter⟩ := BootOption.apply_inside hosts inside
      rw [ih hosts' later, childAfter, BootOption.inScope, if_pos inside]
      rfl
    · obtain ⟨get, composite⟩ :=
        BootOption.apply_outside (t := t) inside (names o mem_cons_self)
      have hosts' : Hosts (BootOption.apply t o) scope :=
        ⟨by rw [composite]; exact hosts.composite, by rw [get]; exact hosts.tuple⟩
      rw [ih hosts' later, child_of_get get, BootOption.inScope, if_neg inside]

/-! ### The options of each scope -/

theorem filterMap_inScope {other : List Char} (all : ∀ o ∈ options, o.scope = some other) :
    options.filterMap (BootOption.inScope scope) =
      if other = scope then options.map fun o => (o.name, o.value) else [] := by
  split
  · rename_i same
    rw [← filterMap_eq_map]
    apply filterMap_congr
    intro o member
    rw [BootOption.inScope, if_pos (same ▸ all o member)]
    rfl
  · rename_i different
    rw [filterMap_eq_nil_iff]
    intro o member
    simp [BootOption.inScope, all o member, different]

theorem scope_of_mem_standardOptions : ∀ o ∈ standardOptions, o.scope = none := by
  simp [standardOptions]

theorem scope_of_mem_envOptions :
    ∀ o ∈ envOptions cfg, o.scope = some "environment".toList := by
  intro o member
  obtain ⟨kv, -, rfl⟩ := mem_map.mp member
  rfl

theorem scope_of_mem_networkOptions :
    ∀ o ∈ networkOptions cfg, o.scope = some "en1".toList := by
  unfold networkOptions
  split
  · split <;> simp
  · simp

theorem scope_of_mem_mountOptions :
    ∀ o ∈ mountOptions cfg, o.scope = some "mounts".toList := by
  intro o member
  obtain ⟨vol, -, rfl⟩ := mem_map.mp member
  rfl

theorem name_ne_of_plain (other : ∀ o ∈ standardOptions, o.name ≠ scope) :
    ∀ o ∈ bootOptions cfg, o.scope = none → o.name ≠ scope := by
  intro o member plain
  simp only [bootOptions, mem_append] at member
  rcases member with ((standard | env) | network) | mount
  · exact other o standard
  · simp [scope_of_mem_envOptions o env] at plain
  · simp [scope_of_mem_networkOptions o network] at plain
  · simp [scope_of_mem_mountOptions o mount] at plain

theorem bootOptions_inScope (cfg : Config) (scope : List Char) :
    (bootOptions cfg).filterMap (BootOption.inScope scope) =
      (if "environment".toList = scope then (envOptions cfg).map fun o => (o.name, o.value) else []) ++
      (if "en1".toList = scope then (networkOptions cfg).map fun o => (o.name, o.value) else []) ++
        if "mounts".toList = scope then (mountOptions cfg).map fun o => (o.name, o.value) else [] := by
  have standard : standardOptions.filterMap (BootOption.inScope scope) = [] := by
    rw [filterMap_eq_nil_iff]
    intro o member
    simp [BootOption.inScope, scope_of_mem_standardOptions o member]
  rw [bootOptions, filterMap_append, filterMap_append, filterMap_append, standard,
    filterMap_inScope scope_of_mem_envOptions, filterMap_inScope scope_of_mem_networkOptions,
    filterMap_inScope scope_of_mem_mountOptions, nil_append]

theorem envOptions_inScope (cfg : Config) :
    (bootOptions cfg).filterMap (BootOption.inScope "environment".toList) =
      cfg.env.map envPair := by
  rw [bootOptions_inScope]
  simp [envOptions]

def mountPairs (cfg : Config) : List (List Char × List Char) :=
  (mountedVolumes cfg.volumes).map fun vol => (vol.label.toList, vol.guestPath.toList)

theorem mountOptions_inScope (cfg : Config) :
    (bootOptions cfg).filterMap (BootOption.inScope "mounts".toList) = mountPairs cfg := by
  rw [bootOptions_inScope]
  simp [mountOptions, mountPairs]

theorem networkOptions_inScope (cfg : Config) :
    (bootOptions cfg).filterMap (BootOption.inScope "en1".toList) =
      (networkOptions cfg).map fun o => (o.name, o.value) := by
  rw [bootOptions_inScope]
  simp

end Jerboa.Kernel
