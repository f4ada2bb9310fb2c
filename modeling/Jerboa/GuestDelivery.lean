import Jerboa.HostDelivery
import Jerboa.KernelTuple

/-!
# How the guest receives its configuration

The kernel merges the options of its command line into the root tuple
(`kernel/init.c`) and later the fw_cfg files of QEMU (`unix/env_inject.c`,
`unix/net_inject.c` and `unix/mount_inject.c`, called from `kernel/stage3.c`).
-/

namespace Jerboa.Kernel

open DelimitedText

/-! ### The command line -/

/-- `cmdline_get_prefix`: the length of what stands before the first dot. -/
def cmdlineGetPrefix (opt : List Char) : Nat :=
  match cut '.' opt with
  | none => 0
  | some (front, _) => front.length

theorem length_drop_lt_of_cut {opt name value : List Char} {n : Nat}
    (found : cut '=' opt = some (name, value)) (inside : n < name.length) :
    (opt.drop (n + 1)).length < opt.length := by
  obtain ⟨rfl, -⟩ := cut_eq_some found
  simp only [List.length_drop, List.length_append]
  omega

/-- `cmdline_apply_option`: every dot before the name leads into a tuple; an
option without a value unsets its name. -/
def cmdlineApplyOption (opt : List Char) (cfg : Value) : Value :=
  match found : cut '=' opt with
  | none => cfg
  | some (name, value) =>
    let prefixLength := cmdlineGetPrefix opt
    if inside : prefixLength ≠ 0 ∧ prefixLength < name.length then
      have := length_drop_lt_of_cut found inside.2
      let s := opt.take prefixLength
      let rest := opt.drop (prefixLength + 1)
      match cfg.get s with
      | none => cfg.set s (some (cmdlineApplyOption rest (.tuple [])))
      | some child =>
        if child.isComposite then cfg.set s (some (cmdlineApplyOption rest child)) else cfg
    else cfg.set name (if value = [] then none else some (.string value))
termination_by opt.length

def cmdlineApply (cmdline : List Char) (t : Value) : Value :=
  foldFields ' ' (fun t opt => cmdlineApplyOption opt t) t cmdline

/-! ### fw_cfg files -/

/-- `fw_cfg_read_file`; an empty file counts as none. -/
def fwCfgReadFile (files : List (List Char × List Char)) (name : List Char) :
    Option (List Char) :=
  ((files.find? fun file => file.1 = name).map Prod.snd).filter fun content => content ≠ []

def injectPair (env : Value) (line : List Char) : Value :=
  match cut '=' line with
  | none => env
  | some (key, value) => if key = [] then env else env.set key (some (.string value))

def envInjectFromFwCfg (files : List (List Char × List Char)) (root : Value) : Value :=
  match fwCfgReadFile files "opt/uni/env".toList with
  | none => root
  | some raw =>
    let env := (root.getTuple "environment".toList).getD (.tuple [])
    root.set "environment".toList (some (foldFields '\n' injectPair env raw))

/-- `parse_ip4_string`: three dots and digits, at most fifteen characters. -/
def parseIp4String (s : List Char) : Option (List Char) :=
  if s.length = 0 ∨ 15 < s.length then none
  else if s.all (fun c => c = '.' || Vm.isDigit c) ∧ s.count '.' = 3 then some s
  else none

/-- The digits of the CIDR suffix in `net_inject_from_fw_cfg`. -/
def parseCidr : List Char → (cidr : Nat) → Option Nat
  | [], cidr => some cidr
  | c :: rest, cidr =>
    if Vm.isDigit c then parseCidr rest (cidr * 10 + (c.toNat - '0'.toNat)) else none

def cidrToNetmask (cidr : Nat) : Option (List Char) :=
  if 32 < cidr then none
  else
    let mask : Nat := if cidr = 0 then 0 else 2 ^ 32 - 1 - (2 ^ (32 - cidr) - 1)
    some (NetAddress.dotted [UInt8.ofNat (mask / 2 ^ 24), UInt8.ofNat (mask / 2 ^ 16),
      UInt8.ofNat (mask / 2 ^ 8), UInt8.ofNat mask])

def trimGateway (text : List Char) : List Char :=
  (text.reverse.dropWhile fun c => c = '\n' || c = '\r' || c = ' ').reverse

def parseNetworkFile (raw : List Char) : Option (List Char × List Char × List Char) := do
  let (ip, rest) ← cut '/' raw
  let (cidrText, gateway) ← cut ',' rest
  let ipBuf ← parseIp4String ip
  let cidr ← parseCidr cidrText 0
  let gwBuf ← parseIp4String (trimGateway gateway)
  let maskBuf ← cidrToNetmask cidr
  return (ipBuf, maskBuf, gwBuf)

def netInjectFromFwCfg (files : List (List Char × List Char)) (root : Value) : Value :=
  match (fwCfgReadFile files "opt/uni/network".toList).bind parseNetworkFile with
  | none => root
  | some (ip, mask, gateway) =>
    ((root.set "ipaddr".toList (some (.string ip))).set "netmask".toList
      (some (.string mask))).set "gateway".toList (some (.string gateway))

/-- One line of `opt/uni/mounts`; `none` if it is empty or malformed. -/
def mountLine (line : List Char) : Option (List Char × List Char) :=
  let line := if line.getLast? = some '\r' then line.dropLast else line
  match cut ':' line with
  | none => none
  | some (label, path) => if label = [] ∨ path = [] then none else some (label, path)

/-- `mounts_inject_from_fw_cfg`, with whether a mount point was added. -/
def mountsInjectFromFwCfg (files : List (List Char × List Char)) (root : Value) : Value × Bool :=
  match fwCfgReadFile files "opt/uni/mounts".toList with
  | none => (root, false)
  | some raw =>
    let added := (raw.splitOn '\n').filterMap mountLine
    if added = [] then (root, false)
    else
      let mounts := (root.getTuple "mounts".toList).getD (.tuple [])
      (root.set "mounts".toList (some (added.foldl (fun mounts entry =>
        mounts.set entry.1 (some (.string entry.2))) mounts)), true)

/-- The root tuple after `fsstarted` and the injections of `startup`. -/
def bootRoot (cmdline : List Char) (files : List (List Char × List Char)) (image : Table) : Value :=
  (mountsInjectFromFwCfg files (netInjectFromFwCfg files (envInjectFromFwCfg files
    (cmdlineApply cmdline (.cow image []))))).1

def qemuRoot (cfg : Vm.Config) (image : Table) : Value :=
  bootRoot [] (Vm.fwCfgFiles (Vm.guestArgs cfg)) image

def firecrackerRoot (cfg : Vm.Config) (image : Table) : Value :=
  bootRoot (Vm.buildFCBootArgs cfg) [] image

end Jerboa.Kernel
