import Jerboa.HostDelivery

/-!
# Accepted configurations

What `validateVMConfig` establishes about the texts that are handed to the
guest, and which characters an accepted address consists of.
-/

namespace Jerboa.Vm

open DelimitedText NetAddress

/-! ### Environment and volumes -/

theorem cutEquals_eq_cut (text : List Char) : cutEquals text = cut '=' text := by
  unfold cutEquals cut
  cases text.dropWhile (· ≠ '=') <;> rfl

theorem not_mem_of_safe {text : List Char} (safe : hasBootArgUnsafe text = false) {c : Char}
    (blank : c = ' ' ∨ c = '\t' ∨ c = '\r' ∨ c = '\n') : c ∉ text := by
  intro inside
  have allowed := List.any_eq_false.mp safe c inside
  rcases blank with rfl | rfl | rfl | rfl <;> simp at allowed

theorem isKeyChar_of_mem {key : List Char} (matched : matchesEnvKey key = true) {c : Char}
    (inside : c ∈ key) : isAlphanumeric c = true ∨ c = '_' := by
  cases key with
  | nil => simp [matchesEnvKey] at matched
  | cons first rest =>
    simp only [matchesEnvKey, Bool.and_eq_true, Bool.or_eq_true, List.all_eq_true,
      decide_eq_true_eq] at matched
    rcases List.mem_cons.mp inside with rfl | later
    · rcases matched.1 with (lower | upper) | underscore
      · exact .inl (by simp [isAlphanumeric, lower])
      · exact .inl (by simp [isAlphanumeric, upper])
      · exact .inr underscore
    · exact matched.2 c later

theorem not_mem_of_matchesEnvKey {key : List Char} (matched : matchesEnvKey key = true) {c : Char}
    (other : isAlphanumeric c = false) (notUnderscore : c ≠ '_') : c ∉ key := by
  intro inside
  rcases isKeyChar_of_mem matched inside with alphanumeric | underscore
  · simp [other] at alphanumeric
  · exact notUnderscore underscore

structure EnvEntry (kv key value : List Char) : Prop where
  text : kv = key ++ '=' :: value
  key : matchesEnvKey key = true
  value : hasBootArgUnsafe value = false

theorem envEntry_of_checkEnv {env : List String} {index : Nat} (checked : checkEnv index env = .ok ()) :
    ∀ kv ∈ env, ∃ key value, EnvEntry kv.toList key value := by
  induction env generalizing index with
  | nil => simp
  | cons first rest ih =>
    rw [checkEnv, cutEquals_eq_cut] at checked
    split at checked
    · simp at checked
    · rename_i key value found
      split at checked
      · simp at checked
      · rename_i matched
        split at checked
        · simp at checked
        · rename_i safe
          intro kv member
          rcases List.mem_cons.mp member with rfl | later
          · exact ⟨key, value, (cut_eq_some found).1, by simpa using matched, by simpa using safe⟩
          · exact ih checked kv later

structure VolumeAccepted (vol : VolumeMount) : Prop where
  labelSafe : hasBootArgUnsafe vol.label.toList = false
  label : '=' ∉ vol.label.toList ∧ ':' ∉ vol.label.toList ∧ '.' ∉ vol.label.toList
  guestPath : vol.guestPath ≠ "" →
    vol.guestPath.toList.head? = some '/' ∧ hasBootArgUnsafe vol.guestPath.toList = false

theorem volumeAccepted_of_checkVolumes {vols : List VolumeMount} {index : Nat}
    (checked : checkVolumes index vols = .ok ()) : ∀ vol ∈ vols, VolumeAccepted vol := by
  induction vols generalizing index with
  | nil => simp
  | cons first rest ih =>
    rw [checkVolumes] at checked
    split at checked
    · simp at checked
    · split at checked
      · simp at checked
      · rename_i label
        split at checked
        · simp at checked
        · rename_i guestPath
          intro vol member
          rcases List.mem_cons.mp member with rfl | later
          · simp only [Bool.or_eq_true, not_or, Bool.not_eq_true] at label
            have allowed := List.any_eq_false.mp label.2
            refine ⟨label.1, ⟨?_, ?_, ?_⟩, fun given => ?_⟩
            · intro inside
              simpa using allowed _ inside
            · intro inside
              simpa using allowed _ inside
            · intro inside
              simpa using allowed _ inside
            · push Not at guestPath
              obtain ⟨absolute, safe⟩ := guestPath given
              exact ⟨absolute, by simpa using safe⟩
          · exact ih checked vol later

/-- What `validateVMConfig` establishes about the texts for the guest. -/
structure Accepted (cfg : Config) : Prop where
  ipAddress : cfg.ipAddress ≠ "" → parseIP cfg.ipAddress.toList ≠ none
  gatewayIP : cfg.gatewayIP ≠ "" → parseIP cfg.gatewayIP.toList ≠ none
  subnetMask : cfg.subnetMask ≠ "" → subnetMaskValid cfg.subnetMask = true
  env : ∀ kv ∈ cfg.env, ∃ key value, EnvEntry kv.toList key value
  volumes : ∀ vol ∈ cfg.volumes, VolumeAccepted vol

theorem accepted_of_valid {cfg : Config} (valid : validateVMConfig cfg = .ok ()) :
    Accepted cfg := by
  unfold validateVMConfig at valid
  -- the checks before that of the ports say nothing about the guest
  iterate 7 obtain ⟨-, valid⟩ := ite_error_eq_ok.mp valid
  cases ports : checkPortMaps 0 cfg.portMaps with
  | error e =>
    rw [ports] at valid
    cases valid
  | ok _ =>
    rw [ports] at valid
    obtain ⟨ipAddress, valid⟩ := ite_error_eq_ok.mp valid
    obtain ⟨gatewayIP, valid⟩ := ite_error_eq_ok.mp valid
    obtain ⟨subnetMask, valid⟩ := ite_error_eq_ok.mp valid
    cases env : checkEnv 0 cfg.env with
    | error e =>
      rw [env] at valid
      cases valid
    | ok _ =>
      rw [env] at valid
      push Not at ipAddress gatewayIP subnetMask
      refine ⟨ipAddress, gatewayIP, ?_, envEntry_of_checkEnv env,
        volumeAccepted_of_checkVolumes valid⟩
      intro given
      simpa using subnetMask given

end Jerboa.Vm
