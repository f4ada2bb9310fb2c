import Jerboa.NetAddress
import Jerboa.ResourceNaming
import Jerboa.TransitionSystem
import Mathlib.Data.List.Sort

/-!
# The network store

`internal/network/store.go`: networks with their subnets, gateways and bridge
names, and the addresses allocated in each.  The directory tree under the
store root is a list of named directories; file operations succeed.  Every
operation runs under the store's mutex, so it is one atomic step.
-/

namespace Jerboa.NetworkStore

open NetAddress

/-- `Network`, the contents of `meta.json` (its creation time is not used). -/
structure Network where
  id : String
  name : String
  subnet : String
  gateway : String
  bridge : String
  driver : String
deriving DecidableEq, Repr

structure NetworkState where
  allocatedIPs : List String
  nextIndex : Nat
deriving DecidableEq, Repr

structure NetworkDir where
  metadata : Network
  state : NetworkState
deriving DecidableEq, Repr

abbrev Store := List (String × NetworkDir)

/-- The errors of the store, one for each place that returns one. -/
inductive NetworkError
  | invalidName (reason : Naming.InvalidResourceName)
  | alreadyExists (name : String)
  | noAvailableSubnet (base : String)
  | invalidSubnet (subnet : String)
  | onlyIPv4 (subnet : String)
  | overlaps (subnet conflict : String)
  | bridgeCollides (name bridge existing : String)
  | notFound (name : String)
  | notIPv4 (ip : String)
  | corruptSubnet (subnet : String)
  | outsideSubnet (ip name subnet : String)
  | networkOrBroadcastAddress (ip name subnet : String)
  | ipAlreadyAllocated (ip name : String)
  | noAvailableIPs (name subnet : String)
deriving DecidableEq, Repr

def ipText (ip : IP) : String :=
  String.ofList (ipString ip)

def netText (ipNet : IPNet) : String :=
  String.ofList ipNet.string

def defaultSubnetCIDR : String := "10.100.0.0/16"

def bridgePrefix : String := "jerboa-br-"

/-- `maxIfaceNameLen`, the Linux limit on interface names. -/
def maxIfaceNameLen : Nat := 15

/-- `deriveBridgeName`; `sha256Hex` is the hexadecimal SHA-256 digest. -/
def deriveBridgeName (sha256Hex : String → String) (name : String) : String :=
  let candidate := bridgePrefix ++ name
  if candidate.utf8ByteSize ≤ maxIfaceNameLen then candidate
  else
    bridgePrefix ++ String.ofList
      ((sha256Hex name).toList.take (maxIfaceNameLen - bridgePrefix.utf8ByteSize))

def findDir (store : Store) (name : String) : Option NetworkDir :=
  (store.find? fun entry => entry.1 = name).map Prod.snd

def writeNetworkState (store : Store) (name : String) (state : NetworkState) : Store :=
  store.map fun entry =>
    if entry.1 = name then (entry.1, { entry.2 with state := state }) else entry

def readDir (store : Store) : Store :=
  store.insertionSort fun first second => first.1 ≤ second.1

/-- `networkDir`; joining a validated name to the root cannot escape it. -/
def networkDir (name : String) : Except NetworkError Unit :=
  (Naming.validateResourceName "network" name).mapError NetworkError.invalidName

/-- `readMeta` and `readState`, which fail together. -/
def readNetwork (store : Store) (name : String) : Except NetworkError NetworkDir :=
  match networkDir name with
  | .error e => .error e
  | .ok () =>
    match findDir store name with
    | none => .error (.notFound name)
    | some dir => .ok dir

/-! ### Subnets -/

structure AllocatedNet where
  ipNet : IPNet
  name : String

/-- `allocatedSubnetsLocked`; a subnet that does not parse is skipped. -/
def allocatedSubnets (store : Store) : List AllocatedNet :=
  (readDir store).filterMap fun entry =>
    (parseCIDR entry.2.metadata.subnet.toList).map fun ipNet =>
      ⟨ipNet, entry.2.metadata.name⟩

def subnetsOverlap (a b : IPNet) : Bool :=
  a.contains b.ip || b.contains a.ip

/-- `overlappingSubnet`; the source returns the empty name for none. -/
def overlappingSubnet (candidate : IPNet) (allocated : List AllocatedNet) :
    Option String :=
  (allocated.find? fun a => subnetsOverlap candidate a.ipNet).map AllocatedNet.name

/-- `parseSubnet`: the block and its gateway, whose byte 3 is set to 1. -/
def parseSubnet (cidr : String) : Except NetworkError (IPNet × IP) :=
  match parseCIDR cidr.toList with
  | none => .error (.invalidSubnet cidr)
  | some ipNet =>
    if to4 ipNet.ip = none then .error (.onlyIPv4 cidr)
    else .ok (ipNet, ipNet.ip.set 3 1)

/-- The loop of `allocateSubnet` over the candidates still to be tried. -/
def allocateSubnetLoop (baseIP : IP) (allocated : List AllocatedNet) :
    List Nat → Option (IPNet × IP)
  | [] => none
  | i :: rest =>
    let subnetIP := (baseIP.set 2 (UInt8.ofNat i)).set 3 0
    let cidr : IPNet := ⟨subnetIP, cidrMask 24 32⟩
    match overlappingSubnet cidr allocated with
    | none => some (cidr, subnetIP.set 3 1)
    | some _ => allocateSubnetLoop baseIP allocated rest

/-- `allocateSubnet`: the first free /24 below the base network. -/
def allocateSubnet (baseNet : IPNet) (allocated : List AllocatedNet) :
    Except NetworkError (IPNet × IP) :=
  match (to4 baseNet.ip).bind fun baseIP =>
      allocateSubnetLoop baseIP allocated (List.range 256) with
  | none => .error (.noAvailableSubnet (netText baseNet))
  | some found => .ok found

def defaultNet : IPNet :=
  (parseCIDR defaultSubnetCIDR.toList).getD ⟨[], []⟩

def chooseSubnet (store : Store) (subnet : String) :
    Except NetworkError (IPNet × IP) :=
  let allocated := allocatedSubnets store
  if subnet = "" then allocateSubnet defaultNet allocated
  else
    match parseSubnet subnet with
    | .error e => .error e
    | .ok (ipNet, gatewayIP) =>
      match overlappingSubnet ipNet allocated with
      | some conflict => .error (.overlaps (netText ipNet) conflict)
      | none => .ok (ipNet, gatewayIP)

def ensureBridgeAvailable (store : Store) (name bridge : String) :
    Except NetworkError Unit :=
  match (readDir store).find? fun entry =>
      entry.2.metadata.name ≠ name ∧ entry.2.metadata.bridge = bridge with
  | some entry => .error (.bridgeCollides name bridge entry.2.metadata.name)
  | none => .ok ()

/-! ### Operations -/

def newNetwork (sha256Hex : String → String) (name driver : String)
    (ipNet : IPNet) (gatewayIP : IP) : NetworkDir where
  metadata :=
    { id := name
      name := name
      subnet := netText ipNet
      gateway := ipText gatewayIP
      bridge := deriveBridgeName sha256Hex name
      driver := if driver = "" then "bridge" else driver }
  state :=
    { allocatedIPs := [ipText gatewayIP]
      nextIndex := 2 }

def create (sha256Hex : String → String) (store : Store)
    (name subnet driver : String) : Except NetworkError (Network × Store) :=
  match networkDir name with
  | .error e => .error e
  | .ok () =>
    if (findDir store name).isSome then .error (.alreadyExists name)
    else
      match chooseSubnet store subnet with
      | .error e => .error e
      | .ok (ipNet, gatewayIP) =>
        let dir := newNetwork sha256Hex name driver ipNet gatewayIP
        match ensureBridgeAvailable store name dir.metadata.bridge with
        | .error e => .error e
        | .ok () => .ok (dir.metadata, store ++ [(name, dir)])

def get (store : Store) (name : String) : Except NetworkError Network :=
  (readNetwork store name).map NetworkDir.metadata

/-- `Store.Remove`; tearing down the bridge does not touch the store. -/
def remove (store : Store) (name : String) : Except NetworkError Store :=
  (readNetwork store name).map fun _ => store.filter fun entry => entry.1 ≠ name

def networkOrBroadcast (ipNet : IPNet) (ip : IP) : Bool :=
  match to4 ipNet.ip, to4 ip with
  | some base, some v4 =>
    if ipNet.mask.length ≠ 4 then false
    else v4 = base || v4 = List.zipWith (fun b m => b ||| ~~~ m) base ipNet.mask
  | _, _ => false

def reserveIP (store : Store) (name ip : String) : Except NetworkError Store :=
  match readNetwork store name with
  | .error e => .error e
  | .ok dir =>
    match (parseIP ip.toList).bind fun parsed =>
        (to4 parsed).map fun _ => parsed with
    | none => .error (.notIPv4 ip)
    | some parsed =>
      match parseCIDR dir.metadata.subnet.toList with
      | none => .error (.corruptSubnet dir.metadata.subnet)
      | some ipNet =>
        if !ipNet.contains parsed then
          .error (.outsideSubnet ip name dir.metadata.subnet)
        else if networkOrBroadcast ipNet parsed then
          .error (.networkOrBroadcastAddress ip name dir.metadata.subnet)
        else
          let want := ipText parsed
          if want ∈ dir.state.allocatedIPs then
            .error (.ipAlreadyAllocated want name)
          else
            .ok (writeNetworkState store name
              { dir.state with
                allocatedIPs := dir.state.allocatedIPs ++ [want] })

/-- The loop of `nextIP`: bytes `i - 1` down to `0` of the address each take
one byte of the index, without carry. -/
def addIndex : (i : Nat) → IP → (index : Nat) → IP
  | 0, ip, _ => ip
  | i + 1, ip, index =>
    addIndex i (ip.modify i (· + UInt8.ofNat (index % 256))) (index / 256)

def nextIP (ipNet : IPNet) (index : Nat) : Option IP :=
  let ip := addIndex 4 ipNet.ip index
  if ipNet.contains ip then some ip else none

inductive Search
  | found (ip : IP) (nextIndex : Nat)
  | exhausted
  | searching
deriving DecidableEq, Repr

def searchIP (ipNet : IPNet) (allocated : List String) : (fuel index : Nat) → Search
  | 0, _ => .searching
  | fuel + 1, index =>
    match nextIP ipNet index with
    | none => .exhausted
    | some candidate =>
      if ipText candidate ∈ allocated then
        searchIP ipNet allocated fuel (index + 1)
      else .found candidate (index + 1)

/-- `Store.AllocateIP`.  One turn more than there are allocated addresses is
enough, unless the loop never ends; `none` is a call that does not return. -/
def allocateIP (store : Store) (name : String) :
    Option (Except NetworkError (IP × Store)) :=
  match readNetwork store name with
  | .error e => some (.error e)
  | .ok dir =>
    match parseCIDR dir.metadata.subnet.toList with
    | none => some (.error (.corruptSubnet dir.metadata.subnet))
    | some ipNet =>
      match searchIP ipNet dir.state.allocatedIPs
          (dir.state.allocatedIPs.length + 1) dir.state.nextIndex with
      | .searching => none
      | .exhausted => some (.error (.noAvailableIPs name dir.metadata.subnet))
      | .found ip nextIndex =>
        some (.ok (ip, writeNetworkState store name
          { allocatedIPs :=
              dir.state.allocatedIPs ++ [ipText ip]
            nextIndex := nextIndex }))

/-- `Store.ReleaseIP`: the first entry with exactly this text is dropped. -/
def releaseIP (store : Store) (name ip : String) : Except NetworkError Store :=
  match readNetwork store name with
  | .error e => .error e
  | .ok dir =>
    .ok (writeNetworkState store name
      { dir.state with allocatedIPs := dir.state.allocatedIPs.erase ip })

inductive Call
  | create (name subnet driver : String)
  | remove (name : String)
  | reserveIP (name ip : String)
  | allocateIP (name : String)
  | releaseIP (name ip : String)
deriving DecidableEq, Repr

/-- The store a call leaves behind; a call that returns an error changes
nothing, and a call that does not return leads nowhere. -/
def step (sha256Hex : String → String) (store : Store) : Call → Option Store
  | .create name subnet driver =>
    match create sha256Hex store name subnet driver with
    | .ok (_, store) => some store
    | .error _ => some store
  | .remove name =>
    match remove store name with
    | .ok store => some store
    | .error _ => some store
  | .reserveIP name ip =>
    match reserveIP store name ip with
    | .ok store => some store
    | .error _ => some store
  | .allocateIP name =>
    match allocateIP store name with
    | some (.ok (_, store)) => some store
    | some (.error _) => some store
    | none => none
  | .releaseIP name ip =>
    match releaseIP store name ip with
    | .ok store => some store
    | .error _ => some store

def system (sha256Hex : String → String) : TransitionSystem Store Call where
  initial store := store = []
  step := step sha256Hex

end Jerboa.NetworkStore
