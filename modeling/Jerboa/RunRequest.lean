import Jerboa.DaemonEffects

/-!
# One Run request

`handleRun` with `createUnique` and the methods of the two managers, as one
function of the server state, the parameters and the answers of the
environment.  The only other goroutine is the monitor that an aborted `Start`
leaves behind; the environment decides whether it is done before `Remove` looks
at the VM.
-/

namespace Jerboa.Daemon

open Vm

/-- What the environment answers during one request. -/
structure Answers where
  /-- The image, or none if it or a volume is refused. -/
  image : Option ResolvedImage
  /-- `AllocateIP` or `ReserveIP` can write the state of the network. -/
  addressWritten : Bool
  bytes : List UInt8
  now : Time
  pid : Nat
  /-- The record of the VM can be written. -/
  persisted : Bool
  files : BootFiles
  launched : Bool
  limited : Bool
  saved : Bool
  published : Bool
  waitErr : WaitErr
  stderr : String
  /-- The monitor of an aborted VM is done before `Remove` is called. -/
  stoppedInTime : Bool
  /-- The record of the VM can be deleted. -/
  deleted : Bool
  /-- `ReleaseIP` can write the state of the network. -/
  releaseWritten : Bool

inductive RunError
  | image
  | network
  | address
  | create
  | start
  | cleanup
  | release
deriving DecidableEq, Repr

inductive RunResult
  | info (vm : Ref)
  | error (e : RunError)
deriving DecidableEq, Repr

inductive StartEnd
  | started
  | failed
  | aborted (vm : Ref)
deriving DecidableEq, Repr

namespace Shared

def note (s : Shared) (events : List Event) : Shared :=
  { s with history := events ++ s.history }

def exited (s : Shared) (p : Ref) (waitErr : WaitErr) (stderr : String) : Shared :=
  { s with
    heap := Function.update s.heap p { s.heap p with process := .exited waitErr stderr } }

/-! ### Methods of the managers -/

def create (a : Answers) (s : Shared) (cfg : Config) : Shared × Option Ref :=
  match validateVMConfig cfg with
  | .error _ => (s, none)
  | .ok () =>
    if a.bytes.length = 6 then
      let registered := s.act (.register (newID a.bytes) cfg a.now none .request)
      if a.persisted then (registered.act (.save s.heapNext), some s.heapNext)
      else (registered.act (.unregister (registered.vm s.heapNext).id), none)
    else (s, none)

def abort (s : Shared) (vm : Ref) : Shared × StartEnd :=
  (s.act (.setExplicitStop vm), .aborted vm)

/-- `Start` from the launch of the process. -/
def startLaunched (manager : Manager) (a : Answers) (s : Shared) (vm : Ref) : Shared × StartEnd :=
  let s := (s.act (.launch vm)).act (.attach vm (manager.attachedPid a.pid (s.vm vm)) a.now)
  if (0 < (s.vm vm).cfg.cpuShares ∨ 0 < (s.vm vm).cfg.memoryMax) ∧ !a.limited then s.abort vm
  else if .running ∈ validTransitions (s.vm vm).state then
    let s := s.act (.transition vm .running)
    let s := s.act (if a.saved then .save vm else .skip)
    if (s.vm vm).cfg.portMaps ≠ [] ∧ !a.published then s.abort vm else (s, .started)
  else s.abort vm

def start (manager : Manager) (a : Answers) (s : Shared) (id : String) : Shared × StartEnd :=
  match s.resolve id 0 with
  | none => (s, .failed)
  | some vm =>
    if validatePortNetwork (s.vm vm).cfg ∧ .starting ∈ validTransitions (s.vm vm).state then
      let s := (s.act (.transition vm .starting)).act (.assignTap vm)
      if manager.prepared a.files (s.vm vm).cfg ∧ a.launched then s.startLaunched manager a vm
      else (s.act (.transition vm .stopped), .failed)
    else (s, .failed)

def monitorAborted (a : Answers) (s : Shared) (vm : Ref) : Shared :=
  let s := (s.exited vm a.waitErr a.stderr).act (.markStopped vm a.now)
  (s.act (.transition vm .stopped)).act (if a.saved then .save vm else .skip)

def removeVM (a : Answers) (s : Shared) (id : String) : Shared × Bool :=
  match s.resolve id 0 with
  | none => (s, false)
  | some vm =>
    if (s.vm vm).state = .stopped ∨ (s.vm vm).state = .created then
      if (s.get (s.vm vm).id).isSome then
        if a.deleted then ((s.act (.remove (s.vm vm).id)).note [.returned vm], true)
        else (s.act (.unregister (s.vm vm).id), false)
      else (s, false)
    else (s, false)

/-! ### The handler -/

/-- The address of a request, with the parameters that the network completes
and the networks afterwards; `none` if the search for an address does not
end. -/
def assignAddress (a : Answers) (networks : NetworkStore.Store) (p : RunParams) :
    Option (Except RunError (RunParams × String × NetworkStore.Store)) :=
  if p.networkName = "" then some (.ok (p, "", networks))
  else
    match NetworkStore.get networks p.networkName with
    | .error _ =>
      if p.ipAddress = "" then some (.error .network) else some (.ok (p, "", networks))
    | .ok n =>
      if p.ipAddress = "" then
        match NetworkStore.allocateIP networks p.networkName with
        | none => none
        | some (.error _) => some (.error .address)
        | some (.ok (ip, networks)) =>
          if a.addressWritten then
            some (.ok (withNetwork p (NetworkStore.ipText ip) n, NetworkStore.ipText ip,
              networks))
          else some (.error .address)
      else
        match NetworkStore.reserveIP networks p.networkName p.ipAddress with
        | .error _ => some (.error .address)
        | .ok networks =>
          if a.addressWritten then
            some (.ok (withNetwork p p.ipAddress n, p.ipAddress, networks))
          else some (.error .address)

def createUnique (t : ThreadId) (a : Answers) (s : Shared) (cfg : Config) : Shared × Option Ref :=
  if cfg.name = "" then s.create a cfg
  else
    let s := s.act (.lockName t)
    if s.vms.any fun entry => (s.vm entry.2).cfg.name = cfg.name then (s.act .unlockName, none)
    else
      let (s, created) := s.create a cfg
      (s.act .unlockName, created)

def release (a : Answers) (s : Shared) (job : RunJob) : Shared :=
  if a.releaseWritten then s.act (.setNetworks (releaseAssigned s.networks job)) else s

def rollBack (a : Answers) (s : Shared) (job : RunJob) (vm : Ref) : RunResult × Shared :=
  match s.removeVM a (s.vm vm).id with
  | (s, false) => (.error .cleanup, s)
  | (s, true) =>
    (.error (if job.assignedIP ≠ "" ∧ !a.releaseWritten then .release else .start),
      s.release a job)

/-- `handleRun` once the configuration is complete, up to the unlock. -/
def runVM (manager : Manager) (t : ThreadId) (a : Answers) (s : Shared) (job : RunJob) :
    RunResult × Shared :=
  match s.createUnique t a job.cfg with
  | (s, none) => (.error .create, s.release a job)
  | (s, some vm) =>
    match s.start manager a (s.vm vm).id with
    | (s, .started) => (.info vm, s)
    | (s, .failed) => s.rollBack a job vm
    | (s, .aborted aborted) =>
      if a.stoppedInTime then (s.monitorAborted a aborted).rollBack a job vm
      else
        let (result, s) := s.rollBack a job vm
        (result, s.monitorAborted a aborted)

/-- `handleRun` in goroutine `t`, with everything it leaves behind; `none` if it
does not return. -/
def handleRun (manager : Manager) (t : ThreadId) (a : Answers) (s : Shared) (p : RunParams) :
    Option (RunResult × Shared) :=
  let s := s.act (.lockResource t)
  let finish := fun (result : RunResult × Shared) => (result.1, result.2.act .unlockResource)
  match a.image with
  | none => some (finish (.error .image, s))
  | some img =>
    match assignAddress a s.networks p with
    | none => none
    | some (.error e) => some (finish (.error e, s))
    | some (.ok (p, assignedIP, networks)) =>
      some (finish ((s.act (.setNetworks networks)).runVM manager t a
        (runJob p img assignedIP)))

end Shared

end Jerboa.Daemon
