import Jerboa.DaemonState
import Jerboa.TransitionSystem

/-!
# The goroutines of the daemon

The methods of `QEMUManager`, its monitor and restart goroutines, and the
`Run` and `Start` handlers of the API server, as programs whose every move is
one critical section.  A goroutine is a stack of frames: a move changes the top
frame, calls a method or returns from one.
-/

namespace Jerboa.Daemon

open Vm

structure ManifestConfig where
  memory : String
  cpus : Int
  /-- The baked port maps, if there are any and they parse. -/
  ports : Option (List PortMap)

structure ResolvedImage where
  imagePath : String
  imageDigest : String
  imageRef : String
  manifest : Option ManifestConfig

/-- What the environment decides in one move: whether an external operation
succeeds, the order of a map iteration, random bytes, the time, a new process
ID and the result of resolving an image. -/
structure Choice where
  ok : Bool
  pick : Nat
  bytes : List UInt8
  now : Time
  pid : Nat
  image : Option ResolvedImage

/-- `api.RunParams`, its wire types converted. -/
structure RunParams where
  image : String
  imagePath : String
  memory : String
  cpus : Int
  networkName : String
  portMaps : List PortMap
  env : List String
  name : String
  autoRemove : Bool
  volumes : List VolumeMount
  attach : Bool
  ipAddress : String
  gatewayIP : String
  bridgeName : String
  subnetMask : String
  healthCheck : Option HealthCheckConfig
  restart : Option RestartConfig
  cpuShares : UInt64
  memoryMax : Int
  diskIOPS : UInt64
  diskBPS : Int

def maskFromCIDR (subnet : String) : String :=
  if subnet.toList.contains '/' then
    String.ofList (subnet.toList.reverse.takeWhile (· ≠ '/')).reverse
  else ""

/-- The configuration that `handleRun` builds: run parameters first, then the
defaults of the image, then the fallbacks. -/
def runConfig (p : RunParams) (img : ResolvedImage) : Config :=
  let manifestMemory := (img.manifest.map ManifestConfig.memory).getD ""
  let manifestCPUs := (img.manifest.map ManifestConfig.cpus).getD 0
  let memory := if p.memory = "" then manifestMemory else p.memory
  let cpus := if p.cpus = 0 then manifestCPUs else p.cpus
  { imageDigest := img.imageDigest
    imagePath := img.imagePath
    imageRef := img.imageRef
    memory := if memory = "" then "256M" else memory
    cpus := if cpus = 0 then 1 else cpus
    networkName := p.networkName
    tapName := ""
    portMaps :=
      if p.portMaps = [] ∧ p.networkName ≠ "" then
        (img.manifest.bind ManifestConfig.ports).getD []
      else p.portMaps
    env := p.env
    name := p.name
    volumes := p.volumes
    attach := p.attach
    ipAddress := p.ipAddress
    gatewayIP := p.gatewayIP
    bridgeName := p.bridgeName
    subnetMask := p.subnetMask
    healthCheck := p.healthCheck
    restart := p.restart.getD { policy := .unset, maxRetries := 0 }
    cpuShares := p.cpuShares
    memoryMax := p.memoryMax
    diskIOPS := p.diskIOPS
    diskBPS := p.diskBPS }

def withNetwork (p : RunParams) (ip : String) (n : NetworkStore.Network) : RunParams :=
  { p with
    ipAddress := ip
    gatewayIP := if p.gatewayIP = "" then n.gateway else p.gatewayIP
    bridgeName := if p.bridgeName = "" then n.bridge else p.bridgeName
    subnetMask := if p.subnetMask = "" then maskFromCIDR n.subnet else p.subnetMask }

/-! ### Frames -/

inductive CreatePc
  | validate (cfg : Config) (parent : Option Ref) (cause : Cause)
  | register (cfg : Config) (parent : Option Ref) (cause : Cause)
  | persist (vm : Ref)

inductive StartPc
  | resolve (ref : String)
  | transition (vm : Ref)
  | assignTap (vm : Ref)
  | bootImage (vm : Ref)
  | fail (vm : Ref)
  | launch (vm : Ref)
  | attach (vm : Ref)
  | limits (vm : Ref)
  | run (vm : Ref)
  | save (vm : Ref)
  | publish (vm : Ref)
  | monitor (vm : Ref)
  | abort (vm : Ref)
  | abortMonitor (vm : Ref)

inductive StopPc
  | resolve (ref : String)
  | check (vm : Ref)
  | transition (vm : Ref)
  | save (vm : Ref)
  | flag (vm : Ref)
  | signal (vm : Ref)
  | wait (vm : Ref)
  | kill (vm : Ref)

inductive RemovePc
  | resolve (ref : String)
  | check (vm : Ref)
  | delete (vm : Ref)

/-- `QEMUManager.monitor`; `explicitStop` is the value it read. -/
inductive MonitorPc
  | wait (vm : Ref)
  | stop (vm : Ref) (explicitStop : Bool)
  | save (vm : Ref) (explicitStop : Bool)
  | decide (vm : Ref) (explicitStop : Bool)

inductive RestartPc
  | sleep (old : Ref)
  | creating (old : Ref) (restarts : Nat)
  | setCount (old new : Ref) (restarts : Nat)
  | save (old new : Ref)
  | start (old new : Ref)
  | starting (old : Ref)
  | remove (old : Ref)

inductive AdoptPc
  | poll (vm : Ref)
  | stop (vm : Ref)
  | save (vm : Ref)

inductive AutoRemovePc
  | wait (vm : Ref)
  | removing

structure RunJob where
  cfg : Config
  assignedIP : String
  autoRemove : Bool

/-- `Server.handleRun` with `createUnique`. -/
inductive RunPc
  | lock (p : RunParams)
  | prepare (p : RunParams)
  | network (p : RunParams) (img : ResolvedImage)
  | address (p : RunParams) (img : ResolvedImage) (n : NetworkStore.Network)
  | unique (job : RunJob)
  | checkName (job : RunJob)
  | creating (job : RunJob)
  | unlockName (job : RunJob) (result : Option Ref)
  | created (job : RunJob) (vm : Ref)
  | starting (job : RunJob) (vm : Ref)
  | startFailed (job : RunJob) (vm : Ref)
  | removing (job : RunJob) (vm : Ref)
  | release (job : RunJob)
  | finish (job : RunJob) (vm : Ref)
  | unlock

inductive HandleStartPc
  | lock (ref : String)
  | get (ref : String)
  | claim (old : Ref)
  | reget (id : String)
  | check (id : String) (old : Ref)
  | starting (id : String)
  | creating (id : String) (old : Ref)
  | created (id : String) (old new : Ref)
  | replacing (id : String) (old new : Ref)
  | cleanup (id : String) (vm : Ref)
  | removing (id : String)
  | release (id : String)
  | unlock

inductive Frame
  | create (pc : CreatePc)
  | start (pc : StartPc)
  | stop (force : Bool) (pc : StopPc)
  | remove (pc : RemovePc)
  | monitor (pc : MonitorPc)
  | restartVM (pc : RestartPc)
  | adoptMonitor (pc : AdoptPc)
  | autoRemove (pc : AutoRemovePc)
  | handleRun (pc : RunPc)
  | handleStart (pc : HandleStartPc)

/-- What a method returns: whether its error is nil, or the new VM. -/
inductive Value
  | ok (success : Bool)
  | vm (created : Option Ref)

inductive Outcome
  | goto (frame : Frame)
  | call (waiting callee : Frame)
  | ret (value : Value)

structure Move where
  action : Action := .skip
  events : List Event := []
  spawn : Option Frame := none
  outcome : Outcome

/-! ### Methods of the manager -/

def CreatePc.move (s : Shared) (c : Choice) : CreatePc → Move
  | .validate cfg parent cause =>
    match validateVMConfig cfg with
    | .error _ => { outcome := .ret (.vm none) }
    | .ok () => { outcome := .goto (.create (.register cfg parent cause)) }
  | .register cfg parent cause =>
    -- `rand.Read` fills all six bytes or fails
    if c.bytes.length = 6 then
      { action := .register (newID c.bytes) cfg c.now parent cause
        outcome := .goto (.create (.persist s.heapNext)) }
    else { outcome := .ret (.vm none) }
  | .persist vm =>
    if c.ok then { action := .save vm, outcome := .ret (.vm (some vm)) }
    else { action := .unregister (s.vm vm).id, outcome := .ret (.vm none) }

def StartPc.move (s : Shared) (c : Choice) : StartPc → Move
  | .resolve ref =>
    match s.resolve ref c.pick with
    | none => { outcome := .ret (.ok false) }
    | some vm => { outcome := .goto (.start (.transition vm)) }
  | .transition vm =>
    if validatePortNetwork (s.vm vm).cfg ∧ .starting ∈ validTransitions (s.vm vm).state then
      { action := .transition vm .starting, outcome := .goto (.start (.assignTap vm)) }
    else { outcome := .ret (.ok false) }
  | .assignTap vm =>
    { action := .assignTap vm, outcome := .goto (.start (.bootImage vm)) }
  | .bootImage vm =>
    if (s.vm vm).cfg.imageDigest ≠ "" ∧ !c.ok then
      { outcome := .goto (.start (.fail vm)) }
    else { outcome := .goto (.start (.launch vm)) }
  | .fail vm => { action := .transition vm .stopped, outcome := .ret (.ok false) }
  | .launch vm =>
    if c.ok then { action := .launch vm, outcome := .goto (.start (.attach vm)) }
    else { outcome := .goto (.start (.fail vm)) }
  | .attach vm =>
    { action := .attach vm c.pid c.now, outcome := .goto (.start (.limits vm)) }
  | .limits vm =>
    if (0 < (s.vm vm).cfg.cpuShares ∨ 0 < (s.vm vm).cfg.memoryMax) ∧ !c.ok then
      { outcome := .goto (.start (.abort vm)) }
    else { outcome := .goto (.start (.run vm)) }
  | .run vm =>
    if .running ∈ validTransitions (s.vm vm).state then
      { action := .transition vm .running, outcome := .goto (.start (.save vm)) }
    else { outcome := .goto (.start (.abort vm)) }
  | .save vm =>
    { action := if c.ok then .save vm else .skip
      outcome := .goto (.start (.publish vm)) }
  | .publish vm =>
    if (s.vm vm).cfg.portMaps ≠ [] ∧ !c.ok then
      { outcome := .goto (.start (.abort vm)) }
    else { outcome := .goto (.start (.monitor vm)) }
  | .monitor vm => { spawn := some (.monitor (.wait vm)), outcome := .ret (.ok true) }
  | .abort vm =>
    { action := .setExplicitStop vm, outcome := .goto (.start (.abortMonitor vm)) }
  | .abortMonitor vm =>
    { spawn := some (.monitor (.wait vm)), outcome := .ret (.ok false) }

def StopPc.move (s : Shared) (c : Choice) (force : Bool) : StopPc → Option Move
  | .resolve ref =>
    match s.resolve ref c.pick with
    | none => some { outcome := .ret (.ok false) }
    | some vm => some { outcome := .goto (.stop force (.check vm)) }
  | .check vm =>
    if (s.vm vm).state = .stopped then
      some { events := [.returned vm], outcome := .ret (.ok true) }
    else some { outcome := .goto (.stop force (.transition vm)) }
  | .transition vm =>
    if .stopping ∈ validTransitions (s.vm vm).state then
      some { action := .transition vm .stopping
             outcome := .goto (.stop force (.save vm)) }
    else some { outcome := .ret (.ok false) }
  | .save vm =>
    some { action := if c.ok then .save vm else .skip
           outcome := .goto (.stop force (.flag vm)) }
  | .flag vm =>
    some { action := .setExplicitStop vm, outcome := .goto (.stop force (.signal vm)) }
  | .signal vm =>
    if !(s.vm vm).hasProc then
      some { events := [.returned vm], outcome := .ret (.ok true) }
    else if force then some { outcome := .goto (.stop force (.kill vm)) }
    else if c.ok then some { outcome := .goto (.stop force (.wait vm)) }
    else some { outcome := .goto (.stop force (.kill vm)) }
  | .wait vm =>
    -- the done channel, or else the grace period or a cancelled context
    if c.ok then
      if (s.vm vm).done then
        some { events := [.returned vm], outcome := .ret (.ok true) }
      else none
    else some { outcome := .goto (.stop force (.kill vm)) }
  | .kill vm =>
    if c.ok then some { events := [.returned vm], outcome := .ret (.ok true) }
    else some { outcome := .ret (.ok false) }

def RemovePc.move (s : Shared) (c : Choice) : RemovePc → Move
  | .resolve ref =>
    match s.resolve ref c.pick with
    | none => { outcome := .ret (.ok false) }
    | some vm => { outcome := .goto (.remove (.check vm)) }
  | .check vm =>
    if (s.vm vm).state = .stopped ∨ (s.vm vm).state = .created then
      { outcome := .goto (.remove (.delete vm)) }
    else { outcome := .ret (.ok false) }
  | .delete vm =>
    if (s.get (s.vm vm).id).isSome then
      if c.ok then
        { action := .remove (s.vm vm).id
          events := [.returned vm]
          outcome := .ret (.ok true) }
      else { action := .unregister (s.vm vm).id, outcome := .ret (.ok false) }
    else { outcome := .ret (.ok false) }

def shouldRestart (v : VM) (process : Process) : Bool :=
  let wanted := match v.cfg.restart.policy, process with
    | .always, _ => true
    | .onFailure, .exited waitErr stderr => isFailureExit waitErr stderr
    | _, _ => false
  wanted && (v.cfg.restart.maxRetries ≤ 0 || (v.restartCount : Int) < v.cfg.restart.maxRetries)

def MonitorPc.move (s : Shared) (c : Choice) : MonitorPc → Option Move
  | .wait vm =>
    match (s.heap vm).process with
    | .exited _ _ =>
      some { action := .markStopped vm c.now
             outcome := .goto (.monitor (.stop vm (s.vm vm).explicitStop)) }
    | _ => none
  | .stop vm explicitStop =>
    some { action := .transition vm .stopped
           outcome := .goto (.monitor (.save vm explicitStop)) }
  | .save vm explicitStop =>
    some { action := if c.ok then .save vm else .skip
           outcome := .goto (.monitor (.decide vm explicitStop)) }
  | .decide vm explicitStop =>
    if !explicitStop && shouldRestart (s.vm vm) (s.heap vm).process then
      some { spawn := some (.restartVM (.sleep vm)), outcome := .ret (.ok true) }
    else some { outcome := .ret (.ok true) }

def RestartPc.move (s : Shared) (c : Choice) : RestartPc → Option Move
  | .sleep old =>
    some { outcome := .call (.restartVM (.creating old (s.vm old).restartCount))
             (.create (.register (s.vm old).cfg (some old) .restartVM)) }
  | .creating _ _ => none
  | .setCount old new restarts =>
    some { action := .setRestartCount new (restarts + 1)
           outcome := .goto (.restartVM (.save old new)) }
  | .save old new =>
    some { action := if c.ok then .save new else .skip
           outcome := .goto (.restartVM (.start old new)) }
  | .start old new =>
    some { outcome := .call (.restartVM (.starting old)) (.start (.resolve (s.vm new).id)) }
  | .starting _ => none
  | .remove old =>
    if (s.get (s.vm old).id).isSome then
      some { action := if c.ok then .remove (s.vm old).id else .unregister (s.vm old).id
             outcome := .ret (.ok true) }
    else some { outcome := .ret (.ok true) }

def AdoptPc.move (s : Shared) (c : Choice) : AdoptPc → Option Move
  | .poll vm =>
    match (s.heap vm).process with
    | .exited _ _ => some { outcome := .goto (.adoptMonitor (.stop vm)) }
    | _ => none
  | .stop vm =>
    some { action := .transition vm .stopped
           outcome := .goto (.adoptMonitor (.save vm)) }
  | .save vm =>
    some { action := if c.ok then .save vm else .skip, outcome := .ret (.ok true) }

/-! ### Handlers of the server -/

def AutoRemovePc.move (s : Shared) : AutoRemovePc → Option Move
  | .wait vm =>
    if (s.vm vm).done then
      some { outcome := .call (.autoRemove .removing) (.remove (.resolve (s.vm vm).id)) }
    else none
  | .removing => none

/-- The network store after `ReleaseIP` of an address the server assigned. -/
def releaseAssigned (networks : NetworkStore.Store) (job : RunJob) : NetworkStore.Store :=
  if job.assignedIP = "" then networks
  else
    match NetworkStore.releaseIP networks job.cfg.networkName job.assignedIP with
    | .ok networks => networks
    | .error _ => networks

def runJob (p : RunParams) (img : ResolvedImage) (assignedIP : String) : RunJob where
  cfg := runConfig p img
  assignedIP := assignedIP
  autoRemove := p.autoRemove

def RunPc.move (s : Shared) (t : ThreadId) (c : Choice) : RunPc → Option Move
  | .lock p =>
    if s.resourceMu = none then
      some { action := .lockResource t, outcome := .goto (.handleRun (.prepare p)) }
    else none
  | .prepare p =>
    match c.image with
    | none => some { outcome := .goto (.handleRun .unlock) }
    | some img => some { outcome := .goto (.handleRun (.network p img)) }
  | .network p img =>
    if p.networkName = "" then
      some { outcome := .goto (.handleRun (.unique (runJob p img ""))) }
    else
      match NetworkStore.get s.networks p.networkName with
      | .error _ =>
        if p.ipAddress = "" then some { outcome := .goto (.handleRun .unlock) }
        else some { outcome := .goto (.handleRun (.unique (runJob p img ""))) }
      | .ok n => some { outcome := .goto (.handleRun (.address p img n)) }
  | .address p img n =>
    if p.ipAddress = "" then
      match NetworkStore.allocateIP s.networks p.networkName with
      | none => none
      | some (.error _) => some { outcome := .goto (.handleRun .unlock) }
      | some (.ok (ip, networks)) =>
        let ip := NetworkStore.ipText ip
        some { action := .setNetworks networks
               outcome := .goto (.handleRun (.unique
                 (runJob (withNetwork p ip n) img ip))) }
    else
      match NetworkStore.reserveIP s.networks p.networkName p.ipAddress with
      | .error _ => some { outcome := .goto (.handleRun .unlock) }
      | .ok networks =>
        some { action := .setNetworks networks
               outcome := .goto (.handleRun (.unique
                 (runJob (withNetwork p p.ipAddress n) img p.ipAddress))) }
  | .unique job =>
    if job.cfg.name = "" then
      some { outcome := .call (.handleRun (.creating job))
               (.create (.validate job.cfg none .request)) }
    else if s.nameMu = none then
      some { action := .lockName t, outcome := .goto (.handleRun (.checkName job)) }
    else none
  | .checkName job =>
    if s.vms.any fun entry => (s.vm entry.2).cfg.name = job.cfg.name then
      some { outcome := .goto (.handleRun (.unlockName job none)) }
    else
      some { outcome := .call (.handleRun (.creating job))
               (.create (.validate job.cfg none .request)) }
  | .creating _ => none
  | .unlockName job result =>
    match result with
    | none => some { action := .unlockName, outcome := .goto (.handleRun (.release job)) }
    | some vm =>
      some { action := .unlockName, outcome := .goto (.handleRun (.created job vm)) }
  | .created job vm =>
    some { outcome := .call (.handleRun (.starting job vm))
             (.start (.resolve (s.vm vm).id)) }
  | .starting _ _ => none
  | .startFailed job vm =>
    some { outcome := .call (.handleRun (.removing job vm))
             (.remove (.resolve (s.vm vm).id)) }
  | .removing _ _ => none
  | .release job =>
    some { action := .setNetworks (releaseAssigned s.networks job)
           outcome := .goto (.handleRun .unlock) }
  | .finish job vm =>
    some { spawn := if job.autoRemove then some (.autoRemove (.wait vm)) else none
           outcome := .goto (.handleRun .unlock) }
  | .unlock => some { action := .unlockResource, outcome := .ret (.ok true) }

def HandleStartPc.move (s : Shared) (t : ThreadId) (c : Choice) : HandleStartPc → Option Move
  | .lock ref =>
    if s.resourceMu = none then
      some { action := .lockResource t, outcome := .goto (.handleStart (.get ref)) }
    else none
  | .get ref =>
    match s.resolve ref c.pick with
    | none => some { outcome := .goto (.handleStart .unlock) }
    | some old => some { outcome := .goto (.handleStart (.claim old)) }
  | .claim old =>
    if (s.vm old).id ∈ s.starting then some { outcome := .goto (.handleStart .unlock) }
    else
      some { action := .claimStart (s.vm old).id
             outcome := .goto (.handleStart (.reget (s.vm old).id)) }
  | .reget id =>
    match s.resolve id c.pick with
    | none => some { outcome := .goto (.handleStart (.release id)) }
    | some old => some { outcome := .goto (.handleStart (.check id old)) }
  | .check id old =>
    match (s.vm old).state with
    | .created =>
      some { outcome := .call (.handleStart (.starting id))
               (.start (.resolve (s.vm old).id)) }
    | .stopped =>
      some { outcome := .call (.handleStart (.creating id old))
               (.create (.validate (s.vm old).cfg (some old) .handleStart)) }
    | _ => some { outcome := .goto (.handleStart (.release id)) }
  | .starting _ => none
  | .creating _ _ => none
  | .created id old new =>
    some { outcome := .call (.handleStart (.replacing id old new))
             (.start (.resolve (s.vm new).id)) }
  | .replacing _ _ _ => none
  | .cleanup id vm =>
    some { outcome := .call (.handleStart (.removing id))
             (.remove (.resolve (s.vm vm).id)) }
  | .removing _ => none
  | .release id =>
    some { action := .releaseStart id, outcome := .goto (.handleStart .unlock) }
  | .unlock => some { action := .unlockResource, outcome := .ret (.ok true) }

/-! ### The daemon as a transition system -/

def Frame.move (s : Shared) (t : ThreadId) (c : Choice) : Frame → Option Move
  | .create pc => some (pc.move s c)
  | .start pc => some (pc.move s c)
  | .stop force pc => pc.move s c force
  | .remove pc => some (pc.move s c)
  | .monitor pc => pc.move s c
  | .restartVM pc => pc.move s c
  | .adoptMonitor pc => pc.move s c
  | .autoRemove pc => pc.move s
  | .handleRun pc => pc.move s t c
  | .handleStart pc => pc.move s t c

/-- How a waiting frame goes on when its callee returns; the last method of a
goroutine leaves nothing. -/
def Frame.resume : Frame → Value → List Frame
  | .restartVM (.creating old restarts), .vm (some new) =>
    [.restartVM (.setCount old new restarts)]
  | .restartVM (.starting old), .ok true => [.restartVM (.remove old)]
  | .handleRun (.creating job), .vm result =>
    if job.cfg.name = "" then
      match result with
      | none => [.handleRun (.release job)]
      | some vm => [.handleRun (.created job vm)]
    else [.handleRun (.unlockName job result)]
  | .handleRun (.starting job vm), .ok true => [.handleRun (.finish job vm)]
  | .handleRun (.starting job vm), .ok false => [.handleRun (.startFailed job vm)]
  | .handleRun (.removing job _), .ok true => [.handleRun (.release job)]
  | .handleRun (.removing _ _), .ok false => [.handleRun .unlock]
  | .handleStart (.starting id), _ => [.handleStart (.release id)]
  | .handleStart (.creating id old), .vm (some new) => [.handleStart (.created id old new)]
  | .handleStart (.creating id _), .vm none => [.handleStart (.release id)]
  | .handleStart (.replacing id old _), .ok true => [.handleStart (.cleanup id old)]
  | .handleStart (.replacing id _ new), .ok false => [.handleStart (.cleanup id new)]
  | .handleStart (.removing id), _ => [.handleStart (.release id)]
  | _, _ => []

def Outcome.stack (rest : List Frame) : Outcome → List Frame
  | .goto frame => frame :: rest
  | .call waiting callee => callee :: waiting :: rest
  | .ret value =>
    match rest with
    | [] => []
    | caller :: rest => caller.resume value ++ rest

structure World extends Shared where
  threads : ThreadId → List Frame
  threadNext : Nat

def World.spawn (w : World) (frame : Frame) : World :=
  { w with
    threads := Function.update w.threads w.threadNext [frame]
    threadNext := w.threadNext + 1 }

/-- Carries out a move of goroutine `t`, whose other frames are `rest`. -/
def World.perform (w : World) (t : ThreadId) (rest : List Frame) (m : Move) : World :=
  let shared := w.toShared.act m.action
  let moved : World :=
    { toShared := { shared with history := m.events ++ shared.history }
      threads := Function.update w.threads t (m.outcome.stack rest)
      threadNext := w.threadNext }
  match m.spawn with
  | none => moved
  | some frame => moved.spawn frame

inductive ApiCall
  | run (p : RunParams)
  | start (ref : String)
  | stop (force : Bool) (ref : String)
  | remove (ref : String)
  /-- `QEMUManager.Create` and `QEMUManager.Start` without the server. -/
  | managerCreate (cfg : Config)
  | managerStart (ref : String)

def ApiCall.frame : ApiCall → Frame
  | .run p => .handleRun (.lock p)
  | .start ref => .handleStart (.lock ref)
  | .stop force ref => .stop force (.resolve ref)
  | .remove ref => .remove (.resolve ref)
  | .managerCreate cfg => .create (.validate cfg none .request)
  | .managerStart ref => .start (.resolve ref)

/-- A call arrives, a goroutine moves, a hypervisor process exits, or the
health checker reports on a VM. -/
inductive Label
  | call (call : ApiCall)
  | thread (t : ThreadId) (choice : Choice)
  | exit (vm : Ref) (waitErr : WaitErr) (stderr : String)
  | probe (vm : Ref) (status : String)

def World.exited (w : World) (p : Ref) (waitErr : WaitErr) (stderr : String) : World :=
  { w with
    heap := Function.update w.heap p { w.heap p with process := .exited waitErr stderr } }

def World.probed (w : World) (p : Ref) (status : String) : World :=
  { w with toShared := w.toShared.update p fun v => { v with healthStatus := status } }

def World.step (w : World) : Label → Option World
  | .call call => some (w.spawn call.frame)
  | .thread t choice =>
    match w.threads t with
    | [] => none
    | frame :: rest => (frame.move w.toShared t choice).map (w.perform t rest)
  | .exit vm waitErr stderr =>
    if (w.heap vm).process = .alive then some (w.exited vm waitErr stderr) else none
  | .probe vm status => some (w.probed vm status)

def World.initial (kind : StoreKind) (networks : NetworkStore.Store) : World where
  heap := fun _ => ⟨newVM "" Config.zero 0, .none, 0⟩
  heapNext := 0
  vms := []
  kind := kind
  records := []
  networks := networks
  resourceMu := none
  nameMu := none
  starting := []
  history := []
  threads := fun _ => []
  threadNext := 0

/-- Every interleaving of calls, goroutines and process exits from an empty
registry. -/
def system : TransitionSystem World Label where
  initial w := ∃ kind networks sha256Hex,
    (NetworkStore.system sha256Hex).Reachable networks ∧ w = World.initial kind networks
  step := World.step

theorem reachableUnder_initial (allowed : World → Label → Prop) (kind : StoreKind) :
    system.ReachableUnder allowed (World.initial kind []) :=
  .start ⟨kind, [], id, .start rfl, rfl⟩

/-- Everything succeeds; the random bytes are those of goroutine `t`. -/
def Choice.success (t : ThreadId) : Choice where
  ok := true
  pick := 0
  bytes := List.replicate 6 (UInt8.ofNat t)
  now := 0
  pid := 1
  image := some { imagePath := "disk.img", imageDigest := "", imageRef := "", manifest := none }

def alwaysRestarted : Config :=
  { Config.zero with
    imagePath := "disk.img", memory := "256M", restart := { policy := .always, maxRetries := 0 } }

def movesOf (t : ThreadId) (n : Nat) : List Label :=
  List.replicate n (.thread t (.success t))

def createAndStart : List Label :=
  [.call (.managerCreate alwaysRestarted)] ++ movesOf 0 3 ++
    [.call (.managerStart "000000000000")] ++ movesOf 1 11

end Jerboa.Daemon
