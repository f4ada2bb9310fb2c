import Jerboa.NetAddress

/-!
# VM configurations

`vm.Config` with the checks that `internal/vm` makes on it before a VM is
registered or started, and the derived TAP device name.
-/

namespace Jerboa.Vm

/-- `RestartPolicy`; the type is a string in the source, so any text can
arrive. -/
inductive RestartPolicy
  | unset
  | never
  | onFailure
  | always
  | other (text : String)
deriving DecidableEq, Repr

structure RestartConfig where
  policy : RestartPolicy
  maxRetries : Int
deriving DecidableEq, Repr

structure PortMap where
  hostPort : UInt16
  guestPort : UInt16
  protocol : String
  bindAddr : String
deriving DecidableEq, Repr

structure VolumeMount where
  diskPath : String
  guestPath : String
  readOnly : Bool
  label : String
deriving DecidableEq, Repr

/-- `HealthCheckConfig`; durations in nanoseconds. -/
structure HealthCheckConfig where
  type : String
  port : Int
  path : String
  interval : Int
  timeout : Int
  retries : Int
deriving DecidableEq, Repr

structure Config where
  imageDigest : String
  imagePath : String
  imageRef : String
  memory : String
  cpus : Int
  networkName : String
  tapName : String
  portMaps : List PortMap
  env : List String
  name : String
  volumes : List VolumeMount
  attach : Bool
  ipAddress : String
  gatewayIP : String
  bridgeName : String
  subnetMask : String
  healthCheck : Option HealthCheckConfig
  restart : RestartConfig
  cpuShares : UInt64
  memoryMax : Int
  diskIOPS : UInt64
  diskBPS : Int
deriving DecidableEq, Repr

def Config.zero : Config where
  imageDigest := ""
  imagePath := ""
  imageRef := ""
  memory := ""
  cpus := 0
  networkName := ""
  tapName := ""
  portMaps := []
  env := []
  name := ""
  volumes := []
  attach := false
  ipAddress := ""
  gatewayIP := ""
  bridgeName := ""
  subnetMask := ""
  healthCheck := none
  restart := { policy := .unset, maxRetries := 0 }
  cpuShares := 0
  memoryMax := 0
  diskIOPS := 0
  diskBPS := 0

/-! ### Character classes -/

def isLower (c : Char) : Bool := 'a' ≤ c && c ≤ 'z'

def isUpper (c : Char) : Bool := 'A' ≤ c && c ≤ 'Z'

def isDigit (c : Char) : Bool := '0' ≤ c && c ≤ '9'

def isAlphanumeric (c : Char) : Bool := isLower c || isUpper c || isDigit c

/-- The class of `logicalNetworkNameRe` and `networkNameRe`. -/
def isInterfaceChar (c : Char) : Bool :=
  isAlphanumeric c || c = '_' || c = '.' || c = ':' || c = '-'

def matchesInterfaceName (limit : Nat) (text : String) : Bool :=
  text.toList ≠ [] && text.toList.length ≤ limit && text.toList.all isInterfaceChar

/-- The optional unit of `memoryRe`: `([KkMmGgTt]i?[Bb]?)?$`. -/
def matchesMemoryUnit : List Char → Bool
  | [] => true
  | unit :: rest =>
    (['K', 'k', 'M', 'm', 'G', 'g', 'T', 't'].contains unit) &&
      match rest with
      | [] => true
      | ['i'] => true
      | ['B'] => true
      | ['b'] => true
      | ['i', 'B'] => true
      | ['i', 'b'] => true
      | _ => false

/-- `memoryRe`: `^[1-9][0-9]*([KkMmGgTt]i?[Bb]?)?$`. -/
def matchesMemory (text : String) : Bool :=
  match text.toList with
  | [] => false
  | first :: rest =>
    isDigit first && first ≠ '0' && matchesMemoryUnit (rest.dropWhile isDigit)

/-- `envKeyRe`: `^[A-Za-z_][A-Za-z0-9_]*$`. -/
def matchesEnvKey : List Char → Bool
  | [] => false
  | first :: rest =>
    (isLower first || isUpper first || first = '_') &&
      rest.all fun c => isAlphanumeric c || c = '_'

def hasBootArgUnsafe (text : List Char) : Bool :=
  text.any fun c =>
    c = ' ' || c = '\t' || c = '\r' || c = '\n' || c = '\x0b' || c = '\x0c' || c = '\x00'

/-- `strings.Cut(text, "=")`; `none` when there is no `=`. -/
def cutEquals (text : List Char) : Option (List Char × List Char) :=
  match text.dropWhile (· ≠ '=') with
  | [] => none
  | _ :: value => some (text.takeWhile (· ≠ '='), value)

/-- The digits of `strconv.Atoi`; a value too large for an `int` is far out of
every range checked here, so it is kept as it is. -/
def atoiDigits : List Char → (value : Nat) → Option Nat
  | [], value => some value
  | c :: rest, value =>
    if isDigit c then atoiDigits rest (value * 10 + (c.toNat - '0'.toNat)) else none

def atoi (text : String) : Option Int :=
  match text.toList with
  | [] => none
  | ['+'] => none
  | ['-'] => none
  | '+' :: digits => (atoiDigits digits 0).map Int.ofNat
  | '-' :: digits => (atoiDigits digits 0).map fun value => - Int.ofNat value
  | digits => (atoiDigits digits 0).map Int.ofNat

/-! ### Validation -/

/-- The field that `validateVMConfig` complains about, with what its message
quotes. -/
inductive ConfigError
  | imagePathRequired
  | memoryRequired
  | memoryInvalid (memory : String)
  | cpusNegative (cpus : Int)
  | networkNameInvalid (name : String)
  | bridgeNameInvalid (name : String)
  | healthCheckInvalid
  | portProtocolInvalid (index : Nat) (protocol : String)
  | portZero (index : Nat)
  | ipAddressInvalid (ip : String)
  | gatewayIPInvalid (ip : String)
  | subnetMaskInvalid (mask : String)
  | envNotKeyValue (index : Nat) (entry : String)
  | envKeyInvalid (index : Nat) (key : List Char)
  | envValueUnsafe (index : Nat) (key : List Char)
  | volumeDiskPathRequired (index : Nat)
  | volumeLabelInvalid (index : Nat) (label : String)
  | volumeGuestPathInvalid (index : Nat) (path : String)
deriving DecidableEq, Repr

def checkPortMaps : (index : Nat) → List PortMap → Except ConfigError Unit
  | _, [] => .ok ()
  | index, pm :: rest =>
    if pm.protocol ≠ "" ∧ pm.protocol ≠ "tcp" ∧ pm.protocol ≠ "udp" then
      .error (.portProtocolInvalid index pm.protocol)
    else if pm.hostPort = 0 ∨ pm.guestPort = 0 then .error (.portZero index)
    else checkPortMaps (index + 1) rest

def checkEnv : (index : Nat) → List String → Except ConfigError Unit
  | _, [] => .ok ()
  | index, kv :: rest =>
    match cutEquals kv.toList with
    | none => .error (.envNotKeyValue index kv)
    | some (key, value) =>
      if !matchesEnvKey key then .error (.envKeyInvalid index key)
      else if hasBootArgUnsafe value then .error (.envValueUnsafe index key)
      else checkEnv (index + 1) rest

def checkVolumes : (index : Nat) → List VolumeMount → Except ConfigError Unit
  | _, [] => .ok ()
  | index, vol :: rest =>
    if vol.diskPath = "" then .error (.volumeDiskPathRequired index)
    else if hasBootArgUnsafe vol.label.toList ||
        vol.label.toList.any (fun c => c = '=' || c = ':' || c = '.') then
      .error (.volumeLabelInvalid index vol.label)
    else if vol.guestPath ≠ "" ∧
        (vol.guestPath.toList.head? ≠ some '/' ∨
          hasBootArgUnsafe vol.guestPath.toList) then
      .error (.volumeGuestPathInvalid index vol.guestPath)
    else checkVolumes (index + 1) rest

def healthCheckValid (hc : HealthCheckConfig) : Bool :=
  (hc.type = "tcp" || hc.type = "http") && 1 ≤ hc.port && hc.port ≤ 65535

def subnetMaskValid (mask : String) : Bool :=
  match atoi mask with
  | none => false
  | some value => 0 ≤ value && value ≤ 32

def validateVMConfig (cfg : Config) : Except ConfigError Unit :=
  if cfg.imagePath = "" then .error .imagePathRequired
  else if cfg.memory = "" then .error .memoryRequired
  else if !matchesMemory cfg.memory then .error (.memoryInvalid cfg.memory)
  else if cfg.cpus < 0 then .error (.cpusNegative cfg.cpus)
  else if cfg.networkName ≠ "" ∧ !matchesInterfaceName 128 cfg.networkName then
    .error (.networkNameInvalid cfg.networkName)
  else if cfg.bridgeName ≠ "" ∧ !matchesInterfaceName 15 cfg.bridgeName then
    .error (.bridgeNameInvalid cfg.bridgeName)
  else if !cfg.healthCheck.all healthCheckValid then .error .healthCheckInvalid
  else
    match checkPortMaps 0 cfg.portMaps with
    | .error e => .error e
    | .ok () =>
      if cfg.ipAddress ≠ "" ∧ NetAddress.parseIP cfg.ipAddress.toList = none then
        .error (.ipAddressInvalid cfg.ipAddress)
      else if cfg.gatewayIP ≠ "" ∧ NetAddress.parseIP cfg.gatewayIP.toList = none then
        .error (.gatewayIPInvalid cfg.gatewayIP)
      else if cfg.subnetMask ≠ "" ∧ !subnetMaskValid cfg.subnetMask then
        .error (.subnetMaskInvalid cfg.subnetMask)
      else
        match checkEnv 0 cfg.env with
        | .error e => .error e
        | .ok () => checkVolumes 0 cfg.volumes

theorem ite_error_eq_ok {ε α : Type} {condition : Prop} [Decidable condition] {e : ε}
    {rest : Except ε α} {result : α} :
    (if condition then .error e else rest) = .ok result ↔ ¬condition ∧ rest = .ok result := by
  by_cases holds : condition
  · simp [holds]
  · simp [holds]

/-- `validatePortNetwork`: published ports need a network and a guest
address. -/
def validatePortNetwork (cfg : Config) : Bool :=
  cfg.portMaps = [] || (cfg.networkName ≠ "" && cfg.ipAddress ≠ "")

/-- `tapDeviceName`: `jt-` and the letters and digits of the VM ID, cut to
what an interface name can hold. -/
def tapDeviceName (id : String) : String :=
  "jt-" ++ String.ofList ((id.toList.filter isAlphanumeric).take 12)

end Jerboa.Vm
