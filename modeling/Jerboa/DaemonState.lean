import Jerboa.HypervisorExit
import Jerboa.NetworkStore
import Jerboa.VMStore
import Mathlib.Logic.Function.Basic

/-!
# The state of the daemon

The VM objects of the daemon's heap, the registry and the persisted records of
the VM store, the network store and the server's locks, with every elementary
update that a goroutine makes to them in one critical section.
-/

namespace Jerboa.Daemon

open Vm

/-- The address of a VM object.  Goroutines hold addresses, so an object stays
when it leaves the registry. -/
abbrev Ref := Nat

abbrev ThreadId := Nat

inductive Process
  | none
  | alive
  | exited (waitErr : WaitErr) (stderr : String)
deriving DecidableEq, Repr

/-- A VM object with its process.  `origin` is the VM of the request that the
object goes back to through replacements; the program does not keep it. -/
structure Object where
  vm : VM
  process : Process
  origin : Ref

inductive Cause
  | request
  | handleStart
  | restartVM
deriving DecidableEq, Repr

/-- What the properties of the manager speak about: a VM was registered, as a
replacement of `parent` if it has one, or a Stop, Kill or Remove call on a VM
returned nil. -/
inductive Event
  | created (vm : Ref) (parent : Option Ref) (cause : Cause)
  | returned (vm : Ref)
deriving DecidableEq, Repr

structure Shared where
  heap : Ref → Object
  heapNext : Nat
  vms : List (String × Ref)
  kind : StoreKind
  records : List VMState
  networks : NetworkStore.Store
  resourceMu : Option ThreadId
  nameMu : Option ThreadId
  /-- `Server.starting`, the VM IDs with a start in flight. -/
  starting : List String
  history : List Event

def Shared.vm (s : Shared) (p : Ref) : VM :=
  (s.heap p).vm

def Shared.update (s : Shared) (p : Ref) (change : VM → VM) : Shared :=
  { s with
    heap := Function.update s.heap p { s.heap p with vm := change (s.vm p) } }

def Shared.get (s : Shared) (id : String) : Option Ref :=
  (s.vms.find? fun entry => entry.1 = id).map Prod.snd

/-- `MemoryStore.Resolve` on entries with an ID.  Several can have the name; `pick`
is the one that the iteration over the map meets first. -/
def resolveEntry {α : Type} (name : α → String) (entries : List (String × α)) (nameOrID : String)
    (pick : Nat) : Option (String × α) :=
  match entries.find? fun entry => entry.1 = nameOrID with
  | some entry => some entry
  | none =>
    match entries.filter fun entry => name entry.2 = nameOrID with
    | [] =>
      match entries.filter fun entry => nameOrID.toList.isPrefixOf entry.1.toList with
      | [entry] => some entry
      | _ => none
    | entry :: named => some ((entry :: named).getD (pick % (named.length + 1)) entry)

def Shared.resolve (s : Shared) (nameOrID : String) (pick : Nat) : Option Ref :=
  (resolveEntry (fun p => (s.vm p).cfg.name) s.vms nameOrID pick).map Prod.snd

/-! ### The managers -/

inductive Manager
  | qemu
  | firecracker
deriving DecidableEq, Repr

/-- Whether the files that `Start` makes before the launch can be made: the copy
of the image, and the configuration and the log of Firecracker. -/
structure BootFiles where
  image : Bool
  config : Bool
  log : Bool
deriving DecidableEq, Repr

/-- QEMU only copies an image of the store, which has a digest. -/
def Manager.prepared (m : Manager) (files : BootFiles) (cfg : Config) : Bool :=
  match m with
  | .qemu => cfg.imageDigest = "" || files.image
  | .firecracker => files.image && files.config && files.log

/-- The `pid` of a VM once its process is attached, which Firecracker does not
record. -/
def Manager.attachedPid (m : Manager) (pid : Nat) (v : VM) : Nat :=
  match m with
  | .qemu => pid
  | .firecracker => v.pid

/-- `newID`: six random bytes in hexadecimal. -/
def newID (bytes : List UInt8) : String :=
  String.ofList (bytes.flatMap fun byte =>
    [NetAddress.hexChar (byte.toNat / 16), NetAddress.hexChar (byte.toNat % 16)])

inductive Action
  | skip
  | transition (vm : Ref) (target : State)
  | assignTap (vm : Ref)
  | launch (vm : Ref)
  | attach (vm : Ref) (pid : Nat) (now : Time)
  | setExplicitStop (vm : Ref)
  | register (id : String) (cfg : Config) (now : Time) (parent : Option Ref) (cause : Cause)
  | unregister (id : String)
  | save (vm : Ref)
  | remove (id : String)
  | setRestartCount (vm : Ref) (count : Nat)
  | markStopped (vm : Ref) (now : Time)
  | setNetworks (networks : NetworkStore.Store)
  | lockResource (thread : ThreadId)
  | unlockResource
  | lockName (thread : ThreadId)
  | unlockName
  | claimStart (id : String)
  | releaseStart (id : String)

/-- `v.transition(target)`; an edge that is not allowed changes nothing. -/
def moveTo (target : State) (v : VM) : VM :=
  (v.transition target).getD v

def withTap (v : VM) : VM :=
  if v.cfg.networkName ≠ "" ∧ v.cfg.tapName = "" then
    { v with cfg := { v.cfg with tapName := tapDeviceName v.id } }
  else v

def Shared.newObject (s : Shared) (id : String) (cfg : Config) (now : Time)
    (parent : Option Ref) : Object where
  vm := newVM id cfg now
  process := .none
  origin := match parent with
    | none => s.heapNext
    | some p => (s.heap p).origin

def Shared.act (s : Shared) : Action → Shared
  | .skip => s
  | .transition p target => s.update p (moveTo target)
  | .assignTap p => s.update p withTap
  | .launch p =>
    { s with heap := Function.update s.heap p { s.heap p with process := .alive } }
  | .attach p pid now =>
    s.update p fun v => { v with hasProc := true, pid := pid, startedAt := some now }
  | .setExplicitStop p => s.update p fun v => { v with explicitStop := true }
  | .register id cfg now parent cause =>
    { s with
      heap := Function.update s.heap s.heapNext (s.newObject id cfg now parent)
      heapNext := s.heapNext + 1
      vms := s.vms.filter (fun entry => entry.1 ≠ id) ++ [(id, s.heapNext)]
      history := .created s.heapNext parent cause :: s.history }
  | .unregister id => { s with vms := s.vms.filter fun entry => entry.1 ≠ id }
  | .save p =>
    if (s.get (s.vm p).id).isSome then
      { s with records := writeRecord s.kind s.records (s.vm p).snapshot }
    else s
  | .remove id =>
    { s with
      vms := s.vms.filter fun entry => entry.1 ≠ id
      records := s.records.filter fun row => row.id ≠ id }
  | .setRestartCount p count => s.update p fun v => { v with restartCount := count }
  | .markStopped p now => s.update p fun v => { v with stoppedAt := some now }
  | .setNetworks networks => { s with networks := networks }
  | .lockResource t => { s with resourceMu := some t }
  | .unlockResource => { s with resourceMu := none }
  | .lockName t => { s with nameMu := some t }
  | .unlockName => { s with nameMu := none }
  | .claimStart id => { s with starting := id :: s.starting }
  | .releaseStart id => { s with starting := s.starting.filter (· ≠ id) }

end Jerboa.Daemon
