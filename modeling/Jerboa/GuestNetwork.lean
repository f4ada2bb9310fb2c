import Jerboa.GuestMounts

/-!
# The static network configuration of a guest

`validateVMConfig` accepts every address that `net.ParseIP` accepts and every
mask that `strconv.Atoi` accepts; the kernel reads dotted quads and plain digits
from the file of QEMU.
-/

namespace Jerboa.Kernel

open DelimitedText Vm NetAddress List

/-! ### Masks -/

theorem parseCidr_eq_atoiDigits (text : List Char) (value : Nat) :
    parseCidr text value = atoiDigits text value := by
  induction text generalizing value with
  | nil => rfl
  | cons c rest ih =>
    rw [parseCidr, atoiDigits]
    split
    · exact ih _
    · rfl

theorem atoiDigits_isSome_iff (text : List Char) (value : Nat) :
    (atoiDigits text value).isSome ↔ text.all isDigit = true := by
  induction text generalizing value with
  | nil => simp [atoiDigits]
  | cons c rest ih =>
    rw [atoiDigits]
    by_cases digit : isDigit c = true
    · simp [digit, ih]
    · simp [digit]

theorem atoi_cases {text : String} {value : Int} (parsed : atoi text = some value) :
    (∃ n, atoiDigits text.toList 0 = some n ∧ value = Int.ofNat n) ∨
      ∃ sign digits, text.toList = sign :: digits ∧ (sign = '+' ∨ sign = '-') ∧
        digits.all isDigit = true := by
  unfold atoi at parsed
  split at parsed
  · simp at parsed
  · simp at parsed
  · simp at parsed
  · rename_i digits _ isText
    obtain ⟨n, found, -⟩ := Option.map_eq_some_iff.mp parsed
    exact .inr ⟨'+', digits, isText, .inl rfl, (atoiDigits_isSome_iff _ 0).mp (by simp [found])⟩
  · rename_i digits _ isText
    obtain ⟨n, found, -⟩ := Option.map_eq_some_iff.mp parsed
    exact .inr ⟨'-', digits, isText, .inr rfl, (atoiDigits_isSome_iff _ 0).mp (by simp [found])⟩
  · obtain ⟨n, found, rfl⟩ := Option.map_eq_some_iff.mp parsed
    exact .inl ⟨n, found, rfl⟩

theorem dottedNetmask_agree : ∀ n < 33, cidrToNetmask n = some (dottedNetmask n) := by
  decide

theorem cidrToNetmask_agree {text : String} {n : Nat} (parsed : atoi text = some (Int.ofNat n))
    (small : n ≤ 32) : cidrToNetmask n = some (Vm.cidrToNetmask text) := by
  have length : cidrLength text = n := by
    rw [cidrLength, parsed]
    simp only [Int.ofNat_eq_natCast]
    rw [if_neg (by omega)]
    exact Int.toNat_natCast n
  rw [dottedNetmask_agree n (by omega), Vm.cidrToNetmask, length]

/-! ### Addresses -/

theorem isDigit_eq_decimalDigit (c : Char) : isDigit c = (decimalDigit c).isSome := by
  unfold isDigit decimalDigit
  by_cases low : '0' ≤ c <;> by_cases high : c ≤ '9' <;> simp [low, high]

theorem parseIp4String_of_accepted {s : List Char} (parsed : parseIP s ≠ none) :
    parseIp4String s = if ':' ∈ s then none else some s := by
  unfold parseIp4String
  by_cases colon : ':' ∈ s
  · have refused : ¬ (s.all (fun c => c = '.' || isDigit c) = true ∧ s.count '.' = 3) := by
      rintro ⟨chars, -⟩
      have allowed := all_eq_true.mp chars ':' colon
      simp [isDigit] at allowed
    rw [if_neg refused, if_pos colon]
    split <;> rfl
  · obtain ⟨chars, dots, short⟩ := quad_of_parseIP parsed colon
    have nonempty : s.length ≠ 0 := by
      intro empty
      rw [length_eq_zero_iff.mp empty] at dots
      simp at dots
    have allowed : s.all (fun c => c = '.' || isDigit c) = true := by
      rw [all_eq_true]
      intro c inside
      rcases chars c inside with digit | dot
      · simp [isDigit_eq_decimalDigit, digit]
      · simp [dot]
    rw [if_neg (by omega), if_pos ⟨allowed, dots⟩, if_neg colon]

theorem trimGateway_of_accepted {s : List Char} (parsed : parseIP s ≠ none) :
    trimGateway s = s := by
  have kept : s.reverse.dropWhile (fun c => c = '\n' || c = '\r' || c = ' ') = s.reverse := by
    cases isReverse : s.reverse with
    | nil => rfl
    | cons last rest =>
      have inside : last ∈ s := by
        rw [← mem_reverse, isReverse]
        exact mem_cons_self
      have stays : (last = '\n' || last = '\r' || last = ' ') = false := by
        have allowed := isAddressChar_of_parseIP parsed last inside
        by_contra blank
        simp only [Bool.not_eq_false, Bool.or_eq_true, decide_eq_true_eq] at blank
        rcases blank with (rfl | rfl) | rfl <;> simp [isAddressChar, hexDigit] at allowed
      rw [dropWhile_cons, stays]
      rfl
  rw [trimGateway, kept, reverse_reverse]

/-! ### The file of QEMU -/

def plainMask (cfg : Config) : Bool :=
  (netMask cfg).toList.all isDigit

/-- A dotted quad for the guest and for its gateway, and a mask of plain
digits. -/
def plainNetwork (cfg : Config) : Bool :=
  ':' ∉ cfg.ipAddress.toList && ':' ∉ cfg.gatewayIP.toList && plainMask cfg

variable {cfg : Config}

theorem atoi_netMask (accepted : Accepted cfg) :
    ∃ value : Int, atoi (netMask cfg) = some value ∧ 0 ≤ value ∧ value ≤ 32 := by
  unfold netMask
  split
  · exact ⟨24, by decide, by decide, by decide⟩
  · rename_i given
    have valid := accepted.subnetMask given
    unfold subnetMaskValid at valid
    split at valid
    · simp at valid
    · rename_i value parsed
      simp only [Bool.and_eq_true, decide_eq_true_eq] at valid
      exact ⟨value, parsed, valid.1, valid.2⟩

theorem comma_not_mem_netMask (accepted : Accepted cfg) :
    ',' ∉ (netMask cfg).toList := by
  obtain ⟨value, parsed, -, -⟩ := atoi_netMask accepted
  have notDigit : isDigit ',' = false := by decide
  intro inside
  rcases atoi_cases parsed with ⟨n, digits, -⟩ | ⟨sign, digits, isText, isSign, allDigits⟩
  · have all := (atoiDigits_isSome_iff (netMask cfg).toList 0).mp (by simp [digits])
    simp [all_eq_true.mp all ',' inside] at notDigit
  · rw [isText] at inside
    rcases mem_cons.mp inside with rfl | later
    · simp at isSign
    · simp [all_eq_true.mp allDigits ',' later] at notDigit

theorem parseCidr_netMask (accepted : Accepted cfg) :
    (plainMask cfg = true → (parseCidr (netMask cfg).toList 0).bind cidrToNetmask =
      some (Vm.cidrToNetmask (netMask cfg))) ∧
      (plainMask cfg = false → parseCidr (netMask cfg).toList 0 = none) := by
  obtain ⟨value, parsed, low, high⟩ := atoi_netMask accepted
  rw [parseCidr_eq_atoiDigits, plainMask]
  refine ⟨fun plain => ?_, fun signed => ?_⟩
  · rcases atoi_cases parsed with ⟨n, digits, rfl⟩ | ⟨sign, digits, isText, isSign, -⟩
    · rw [digits]
      refine cidrToNetmask_agree parsed ?_
      simp only [Int.ofNat_eq_natCast] at high
      omega
    · rw [isText] at plain
      rcases isSign with rfl | rfl <;> simp [isDigit] at plain
  · rw [← Option.not_isSome_iff_eq_none, atoiDigits_isSome_iff, signed]
    simp

theorem parseNetworkFile_eq (accepted : Accepted cfg) (ip : cfg.ipAddress ≠ "")
    (gateway : cfg.gatewayIP ≠ "") :
    parseNetworkFile
        (cfg.ipAddress.toList ++ '/' :: (netMask cfg).toList ++ ',' :: cfg.gatewayIP.toList) =
      if plainNetwork cfg then
        some (cfg.ipAddress.toList, Vm.cidrToNetmask (netMask cfg), cfg.gatewayIP.toList)
      else none := by
  have parsedIP := accepted.ipAddress ip
  have parsedGateway := accepted.gatewayIP gateway
  have noSlash : '/' ∉ cfg.ipAddress.toList := not_mem_of_parseIP parsedIP (by decide)
  have masks := parseCidr_netMask accepted
  rw [parseNetworkFile, append_assoc, cons_append, cut_append noSlash]
  simp only [Option.bind_eq_bind, Option.bind_some]
  rw [cut_append (comma_not_mem_netMask accepted)]
  simp only [Option.bind_some]
  rw [parseIp4String_of_accepted parsedIP, trimGateway_of_accepted parsedGateway,
    parseIp4String_of_accepted parsedGateway]
  unfold plainNetwork
  by_cases colonIP : ':' ∈ cfg.ipAddress.toList
  · simp [colonIP]
  · by_cases colonGateway : ':' ∈ cfg.gatewayIP.toList
    · simp [colonIP, colonGateway]
    · cases plain : plainMask cfg with
      | false => simp [colonIP, colonGateway, masks.2 plain]
      | true =>
        obtain ⟨n, digits, mask⟩ := Option.bind_eq_some_iff.mp (masks.1 plain)
        simp [colonIP, colonGateway, digits, mask]

theorem fwCfgReadFile_network (ip : cfg.ipAddress ≠ "")
    (gateway : cfg.gatewayIP ≠ "") :
    fwCfgReadFile (fwCfgFiles (guestArgs cfg)) "opt/uni/network".toList =
      some (cfg.ipAddress.toList ++ '/' :: (netMask cfg).toList ++
        ',' :: cfg.gatewayIP.toList) := by
  rw [fwCfgFiles_guestArgs, append_assoc, fwCfgReadFile_append_of_ne, networkFile,
    if_neg (by simp [ip, gateway]), singleton_append]
  · exact fwCfgReadFile_cons (by simp) _
  · intro file member
    rw [name_of_mem_envFile file member]
    decide

/-! ### Agreement -/

/-- The static network configuration in a tuple. -/
structure HasNetwork (t : Value) (ip mask gateway : List Char) : Prop where
  ipaddr : t.get "ipaddr".toList = some (.string ip)
  netmask : t.get "netmask".toList = some (.string mask)
  gateway : t.get "gateway".toList = some (.string gateway)

/-- The image has no network configuration of its own. -/
structure NoNetwork (image : Table) : Prop where
  ipaddr : tableFind image "ipaddr".toList = none
  en1 : tableFind image "en1".toList = none

theorem qemuRoot_network (accepted : Accepted cfg) (ip : cfg.ipAddress ≠ "")
    (gateway : cfg.gatewayIP ≠ "") (image : Table) :
    (plainNetwork cfg = true → HasNetwork (qemuRoot cfg image) cfg.ipAddress.toList
      (Vm.cidrToNetmask (netMask cfg)) cfg.gatewayIP.toList) ∧
      (plainNetwork cfg = false → (qemuRoot cfg image).get "ipaddr".toList =
        (Value.cow image []).get "ipaddr".toList) := by
  unfold qemuRoot bootRoot
  rw [cmdlineApply_nil]
  generalize isRoot : envInjectFromFwCfg (fwCfgFiles (guestArgs cfg)) (.cow image []) = root
  have composite : root.isComposite = true := by
    rw [← isRoot, isComposite_envInjectFromFwCfg]
    rfl
  have injected : netInjectFromFwCfg (fwCfgFiles (guestArgs cfg)) root =
      if plainNetwork cfg then
        ((root.set "ipaddr".toList (some (.string cfg.ipAddress.toList))).set "netmask".toList
          (some (.string (Vm.cidrToNetmask (netMask cfg))))).set "gateway".toList
            (some (.string cfg.gatewayIP.toList))
      else root := by
    rw [netInjectFromFwCfg, fwCfgReadFile_network ip gateway, Option.bind_some,
      parseNetworkFile_eq accepted ip gateway]
    cases plainNetwork cfg <;> rfl
  rw [injected]
  refine ⟨fun plain => ?_, fun other => ?_⟩
  · rw [if_pos plain]
    constructor
    · rw [get_mountsInjectFromFwCfg _ _ (by decide), get_set_of_ne (by decide),
        get_set_of_ne (by decide), get_set_self composite]
      rfl
    · rw [get_mountsInjectFromFwCfg _ _ (by decide), get_set_of_ne (by decide),
        get_set_self (by simpa using composite)]
      rfl
    · rw [get_mountsInjectFromFwCfg _ _ (by decide), get_set_self (by simpa using composite)]
      rfl
  · rw [if_neg (by simp [other]), get_mountsInjectFromFwCfg _ _ (by decide), ← isRoot,
      get_envInjectFromFwCfg _ _ (by decide)]

theorem firecrackerRoot_network (accepted : Accepted cfg)
    (name : cfg.networkName ≠ "") (ip : cfg.ipAddress ≠ "") (gateway : cfg.gatewayIP ≠ "")
    {image : Table} (none : tableFind image "en1".toList = none) :
    HasNetwork (child (firecrackerRoot cfg image) "en1".toList) cfg.ipAddress.toList
      (Vm.cidrToNetmask (netMask cfg)) cfg.gatewayIP.toList := by
  have baked : Baked image "en1".toList [] := .inr ⟨none, rfl⟩
  have composite := isComposite_child (.cow image []) "en1".toList
  have pairs : (networkOptions cfg).map (fun o => (o.name, o.value)) =
      [("ipaddr".toList, cfg.ipAddress.toList),
        ("netmask".toList, Vm.cidrToNetmask (netMask cfg)),
        ("gateway".toList, cfg.gatewayIP.toList)] := by
    simp [networkOptions, name, ip, gateway]
  have mask : Vm.cidrToNetmask (netMask cfg) ≠ [] := by
    rw [Vm.cidrToNetmask, dottedNetmask, dotted_four]
    simp
  rw [firecrackerRoot_eq accepted, child_foldl baked.hosts (name_ne_of_plain (by decide)),
    networkOptions_inScope, pairs]
  have given {key value : List Char} (nonempty : value ≠ [])
      (last : lastValue [("ipaddr".toList, cfg.ipAddress.toList),
        ("netmask".toList, Vm.cidrToNetmask (netMask cfg)),
        ("gateway".toList, cfg.gatewayIP.toList)] key = some value) :
      (setAll optionValue (child (.cow image []) "en1".toList)
        [("ipaddr".toList, cfg.ipAddress.toList),
          ("netmask".toList, Vm.cidrToNetmask (netMask cfg)),
          ("gateway".toList, cfg.gatewayIP.toList)]).get key = some (.string value) := by
    rw [get_setAll composite, last, Option.elim_some, optionValue, if_neg nonempty]
    rfl
  exact ⟨given (by simpa using ip) rfl, given mask rfl, given (by simpa using gateway) rfl⟩

/-- The guest gets the same complete configuration from both hypervisors if and
only if the addresses are dotted quads and the mask is written in digits. -/
theorem networks_agree_iff {cfg : Config} (valid : validateVMConfig cfg = .ok ())
    (name : cfg.networkName ≠ "") (ip : cfg.ipAddress ≠ "") (gateway : cfg.gatewayIP ≠ "")
    {image : Table} (none : NoNetwork image) :
    (∃ ip mask gateway, HasNetwork (qemuRoot cfg image) ip mask gateway ∧
        HasNetwork (child (firecrackerRoot cfg image) "en1".toList) ip mask gateway) ↔
      plainNetwork cfg = true := by
  have accepted := accepted_of_valid valid
  have qemu := qemuRoot_network accepted ip gateway image
  constructor
  · rintro ⟨ip, mask, gateway, network, -⟩
    by_contra other
    have unset := qemu.2 (by simpa using other)
    rw [get_wrapped, none.ipaddr, network.ipaddr] at unset
    simp at unset
  · intro plain
    exact ⟨_, _, _, qemu.1 plain, firecrackerRoot_network accepted name ip gateway none.en1⟩

def networkConfig (ip mask gateway : String) : Config :=
  { Config.zero with
    imagePath := "disk.img", memory := "256M", networkName := "app", ipAddress := ip,
    subnetMask := mask, gatewayIP := gateway }

theorem networks_agree_padded :
    ∃ ip mask gateway,
      HasNetwork (qemuRoot (networkConfig "10.0.0.2" "024" "10.0.0.1") []) ip mask gateway ∧
        HasNetwork (child (firecrackerRoot (networkConfig "10.0.0.2" "024" "10.0.0.1") [])
          "en1".toList) ip mask gateway :=
  (networks_agree_iff (by decide) (by decide) (by decide) (by decide) ⟨rfl, rfl⟩).mpr (by decide)

/-- A mask with a sign is accepted, but the guest has no address under QEMU. -/
theorem networks_differ_signed :
    validateVMConfig (networkConfig "10.0.0.2" "+24" "10.0.0.1") = .ok () ∧
      (qemuRoot (networkConfig "10.0.0.2" "+24" "10.0.0.1") []).get "ipaddr".toList = none ∧
      HasNetwork (child (firecrackerRoot (networkConfig "10.0.0.2" "+24" "10.0.0.1") [])
        "en1".toList) "10.0.0.2".toList "255.255.255.0".toList "10.0.0.1".toList := by
  have valid : validateVMConfig (networkConfig "10.0.0.2" "+24" "10.0.0.1") = .ok () := by decide
  have accepted := accepted_of_valid valid
  refine ⟨valid, ?_, ?_⟩
  · exact (qemuRoot_network accepted (by decide) (by decide) []).2 (by decide)
  · have bare : tableFind [] "en1".toList = none := rfl
    have network := firecrackerRoot_network accepted (by decide) (by decide) (by decide) bare
    have mask : Vm.cidrToNetmask (netMask (networkConfig "10.0.0.2" "+24" "10.0.0.1")) =
        "255.255.255.0".toList := by
      decide
    rw [mask] at network
    exact network

end Jerboa.Kernel
