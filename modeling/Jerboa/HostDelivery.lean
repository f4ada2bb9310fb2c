import Jerboa.VMConfig
import Jerboa.DelimitedText
import Mathlib.Tactic

/-!
# How the host hands a configuration to the guest

Under QEMU the environment, the mount points and the static network
configuration are files of the fw_cfg device (`internal/vm/qemu.go`); under
Firecracker they are options of the kernel's boot arguments
(`internal/vm/firecracker.go`).
-/

namespace Jerboa.Vm

open DelimitedText

/-! ### fw_cfg files -/

def escapeFwCfgValue (s : List Char) : List Char :=
  s.flatMap fun c => if c = ',' then [',', ','] else [c]

def fwCfgArgs (name : String) (content : List Char) : List (List Char) :=
  ["-fw_cfg".toList, "name=".toList ++ name.toList ++ ",string=".toList ++ escapeFwCfgValue content]

def joinLines (entries : List (List Char)) : List Char :=
  ['\n'].intercalate entries

def mountedVolumes (vols : List VolumeMount) : List VolumeMount :=
  vols.filter fun vol => vol.label ≠ "" ∧ vol.guestPath ≠ ""

def buildMountArgs (vols : List VolumeMount) : List (List Char) :=
  let entries := (mountedVolumes vols).map fun vol =>
    vol.label.toList ++ ':' :: vol.guestPath.toList
  if entries = [] then [] else fwCfgArgs "opt/uni/mounts" (joinLines entries)

def buildEnvArgs (env : List String) : List (List Char) :=
  if env = [] then [] else fwCfgArgs "opt/uni/env" (joinLines (env.map String.toList))

def netMask (cfg : Config) : String :=
  if cfg.subnetMask = "" then "24" else cfg.subnetMask

def buildNetworkCfgArgs (cfg : Config) : List (List Char) :=
  if cfg.ipAddress = "" ∨ cfg.gatewayIP = "" then []
  else fwCfgArgs "opt/uni/network"
    (cfg.ipAddress.toList ++ '/' :: (netMask cfg).toList ++ ',' :: cfg.gatewayIP.toList)

def guestArgs (cfg : Config) : List (List Char) :=
  buildEnvArgs cfg.env ++ buildNetworkCfgArgs cfg ++ buildMountArgs cfg.volumes

/-- QEMU reads an option value: a doubled comma is a comma, a single one ends
the value. -/
def collapseCommas : List Char → List Char
  | [] => []
  | [c] => if c = ',' then [] else [c]
  | c :: next :: rest =>
    if c = ',' then if next = ',' then ',' :: collapseCommas rest else []
    else c :: collapseCommas (next :: rest)

/-- The file that a `-fw_cfg` option defines, as QEMU reads it. -/
def fwCfgFile (option : List Char) : Option (List Char × List Char) :=
  match cut '=' option with
  | none => none
  | some (_, rest) =>
    match cut ',' rest with
    | none => none
    | some (name, rest) => (cut '=' rest).map fun content => (name, collapseCommas content.2)

def fwCfgFiles : List (List Char) → List (List Char × List Char)
  | flag :: option :: rest =>
    if flag = "-fw_cfg".toList then (fwCfgFile option).toList ++ fwCfgFiles rest
    else fwCfgFiles (option :: rest)
  | _ => []

/-! ### Boot arguments -/

/-- The prefix length that `cidrToNetmask` reads; invalid input gives `24`. -/
def cidrLength (cidr : String) : Nat :=
  match atoi cidr with
  | none => 24
  | some value => if value < 0 ∨ 32 < value then 24 else value.toNat

/-- The mask that `cidrToNetmask` prints for a prefix length. -/
def dottedNetmask (n : Nat) : List Char :=
  let mask : Nat := if n = 0 then 0 else 0xffffffff * 2 ^ (32 - n) % 2 ^ 32
  NetAddress.dotted [UInt8.ofNat (mask / 2 ^ 24), UInt8.ofNat (mask / 2 ^ 16),
    UInt8.ofNat (mask / 2 ^ 8), UInt8.ofNat mask]

def cidrToNetmask (cidr : String) : List Char :=
  dottedNetmask (cidrLength cidr)

def networkBootArgs (cfg : Config) : List Char :=
  if cfg.networkName ≠ "" ∧ cfg.ipAddress ≠ "" then
    " en1.ipaddr=".toList ++ cfg.ipAddress.toList ++
      " en1.netmask=".toList ++ cidrToNetmask (netMask cfg) ++
      if cfg.gatewayIP ≠ "" then " en1.gateway=".toList ++ cfg.gatewayIP.toList else []
  else []

def standardBootArgs : List Char :=
  "console=ttyS0 reboot=k panic=1 pci=off".toList

def buildFCBootArgs (cfg : Config) : List Char :=
  standardBootArgs ++
    cfg.env.flatMap (fun kv => " environment.".toList ++ kv.toList) ++
    networkBootArgs cfg ++
    (mountedVolumes cfg.volumes).flatMap fun vol =>
      " mounts.".toList ++ vol.label.toList ++ '=' :: vol.guestPath.toList

end Jerboa.Vm
