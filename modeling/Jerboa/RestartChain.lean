import Jerboa.DaemonPrograms
import Mathlib.Tactic

/-!
# Restart chains

The monitor of a VM replaces it by a new VM when its process exits and the
restart policy asks for it, after a backoff that grows with the number of
restarts.  The backoff is modelled bit by bit, and a chain of replacements goes
back to one `Run`, with the goroutines of all its VMs in any interleaving.
-/

namespace Jerboa

open Vm Daemon

namespace RestartChain

/-! ### The backoff -/

/-- `time.Duration`: nanoseconds in a signed 64-bit word. -/
abbrev Duration := BitVec 64

def second : Duration := 1000000000#64

/-- `time.Duration(1<<uint(restartCount)) * unit`, cut off at `limit`.  The
shift and the product wrap as `int64` does. -/
def cappedBackoff (unit limit : Duration) (restartCount : Nat) : Duration :=
  let backoff := (1#64 <<< restartCount) * unit
  if limit.slt backoff then limit else backoff

def qemuBackoff (restartCount : Nat) : Duration :=
  cappedBackoff second (30#64 * second) restartCount

def firecrackerBackoff (restartCount : Nat) : Duration :=
  cappedBackoff second (30#64 * second) restartCount

/-- The backoff at `n` restarts is between one second and thirty, and no
smaller number of restarts has a longer one. -/
def Sound (backoff : Nat → Duration) (n : Nat) : Prop :=
  second.toInt ≤ (backoff n).toInt ∧ (backoff n).toInt ≤ (30#64 * second).toInt ∧
    ∀ m, m ≤ n → (backoff m).toInt ≤ (backoff n).toInt

def wrappedCounts : List Nat :=
  [37, 41, 42, 45, 47, 50, 51, 53]

theorem cappedBackoff_le (unit limit : Duration) (n : Nat) :
    (cappedBackoff unit limit n).toInt ≤ limit.toInt := by
  simp only [cappedBackoff]
  split
  · exact le_refl _
  · rename_i within
    rw [BitVec.slt_iff_toInt_lt] at within
    omega

theorem qemuBackoff_of_wide {n : Nat} (wide : 64 ≤ n) : qemuBackoff n = 0#64 := by
  have shifted : 1#64 <<< n = 0#64 := BitVec.shiftLeft_eq_zero wide
  simp only [qemuBackoff, cappedBackoff, shifted]
  decide

theorem qemuBackoff_reaches_second : ∀ n < 64,
    second.toInt ≤ (qemuBackoff n).toInt ↔ n ≤ 33 ∨ n ∈ wrappedCounts := by
  decide

theorem qemuBackoff_eq_limit : ∀ n < 64, 5 ≤ n →
    second.toInt ≤ (qemuBackoff n).toInt → qemuBackoff n = 30#64 * second := by
  decide

theorem qemuBackoff_doubles : ∀ n < 5, ∀ m ≤ n,
    (qemuBackoff m).toInt ≤ (qemuBackoff n).toInt := by
  decide

theorem qemuBackoff_mono {n : Nat} (narrow : n < 64)
    (reaches : second.toInt ≤ (qemuBackoff n).toInt) {m : Nat} (le : m ≤ n) :
    (qemuBackoff m).toInt ≤ (qemuBackoff n).toInt := by
  by_cases early : n < 5
  · exact qemuBackoff_doubles n early m le
  · rw [qemuBackoff_eq_limit n narrow (by omega) reaches]
    exact cappedBackoff_le _ _ _

theorem sound_qemuBackoff_iff (n : Nat) :
    Sound qemuBackoff n ↔ second.toInt ≤ (qemuBackoff n).toInt := by
  constructor
  · intro sound
    exact sound.1
  · intro reaches
    have narrow : n < 64 := by
      by_contra wide
      rw [qemuBackoff_of_wide (by omega)] at reaches
      exact absurd reaches (by decide)
    exact ⟨reaches, cappedBackoff_le _ _ _, fun m le => qemuBackoff_mono narrow reaches le⟩

/-- Both managers wait between one second and thirty, and no shorter than after
fewer restarts, exactly up to thirty-three restarts and at the few counts beyond
where the wrapped product happens to be large. -/
theorem restart_backoff_sound_iff (n : Nat) :
    (Sound qemuBackoff n ∧ Sound firecrackerBackoff n) ↔ n ≤ 33 ∨ n ∈ wrappedCounts := by
  have same : firecrackerBackoff = qemuBackoff := rfl
  rw [same, and_self, sound_qemuBackoff_iff]
  by_cases narrow : n < 64
  · exact qemuBackoff_reaches_second n narrow
  · rw [qemuBackoff_of_wide (by omega)]
    have beyond : ∀ count ∈ wrappedCounts, count < 64 := by decide
    constructor
    · intro reaches
      exact absurd reaches (by decide)
    · intro counted
      rcases counted with low | wrapped
      · omega
      · exact absurd (beyond n wrapped) narrow

/-- After thirty-four restarts the product is negative and is not cut off. -/
theorem restart_backoff_negative :
    (qemuBackoff 34).toInt = -1266874889709551616 ∧
      ¬ Sound qemuBackoff 34 ∧ ¬ Sound firecrackerBackoff 34 := by
  have short : ¬ second.toInt ≤ (qemuBackoff 34).toInt := by decide
  exact ⟨by decide, fun sound => short sound.1, fun sound => short sound.1⟩

/-! ### The goroutines of a chain -/

/-- What happens around one `Start`: whether the boot files can be made, the
process launched, the limits applied and the ports published. -/
structure StartEnv where
  bootFiles : BootFiles
  launch : Bool
  limits : Bool
  publish : Bool
  pid : Nat
  now : Time

/-- `monitor`; `explicitStop` is the value it read.  A VM without a monitor has
none running yet. -/
inductive MonitorPc
  | none
  | wait
  | stop (explicitStop : Bool)
  | decide (explicitStop : Bool)
  | returned
deriving DecidableEq, Repr

/-- `restartVM` for one VM: not called, at one of its steps, or returned, with
the old VM removed or after a `Start` that failed. -/
inductive RestartPc
  | none
  | backoff
  | create (restartCount : Nat)
  | setCount (new restartCount : Nat)
  | start (new : Nat)
  | remove
  | removed
  | failed
deriving DecidableEq, Repr

def RestartPc.pending : RestartPc → Bool
  | .none | .removed | .failed => false
  | _ => true

def RestartPc.replaced : RestartPc → Bool
  | .none | .backoff | .create _ => false
  | _ => true

structure Replica where
  vm : VM
  process : Process
  monitor : MonitorPc
  restart : RestartPc

def Replica.create (id : String) (cfg : Config) (now : Time) : Replica where
  vm := newVM id cfg now
  process := .none
  monitor := .none
  restart := .none

/-- `abort` in `Start`: the killed process is left to a monitor that does not
restart it. -/
def Replica.abort (r : Replica) (v : VM) : Replica :=
  { r with vm := { v with explicitStop := true }, process := .alive, monitor := .wait }

end RestartChain

namespace Daemon.Manager

open RestartChain

def attach (m : Manager) (env : StartEnv) (v : VM) : VM :=
  { v with hasProc := true, pid := m.attachedPid env.pid v, startedAt := some env.now }

/-- `Start` of either manager, with whether it returns nil.  The body is one
step of the chain: nothing else touches the VM before its monitor is spawned at
the end. -/
def start (m : Manager) (env : StartEnv) (r : Replica) : Replica × Bool :=
  if !validatePortNetwork r.vm.cfg then (r, false)
  else
    match r.vm.transition .starting with
    | none => (r, false)
    | some starting =>
      let v := withTap starting
      if !m.prepared env.bootFiles v.cfg || !env.launch then
        ({ r with vm := moveTo .stopped v }, false)
      else
        let v := m.attach env v
        if (0 < v.cfg.cpuShares || 0 < v.cfg.memoryMax) && !env.limits then
          (r.abort v, false)
        else
          match v.transition .running with
          | none => (r.abort v, false)
          | some v =>
            if v.cfg.portMaps ≠ [] ∧ !env.publish then (r.abort v, false)
            else ({ r with vm := v, process := .alive, monitor := .wait }, true)

/-- The decision at the end of `monitor`.  Firecracker has no exit code of the
guest: any error of its process counts as a failure. -/
def shouldRestart (m : Manager) (v : VM) (process : Process) : Bool :=
  match m with
  | .qemu => Daemon.shouldRestart v process
  | .firecracker =>
    let wanted := match v.cfg.restart.policy, process with
      | .always, _ => true
      | .onFailure, .exited waitErr _ => waitErr ≠ .clean
      | _, _ => false
    wanted && (v.cfg.restart.maxRetries ≤ 0 ||
      (v.restartCount : Int) < v.cfg.restart.maxRetries)

end Daemon.Manager

namespace RestartChain

/-- The VMs of a chain, in the order of their creation, and the part of the
registry that holds them. -/
structure Chain where
  size : Nat
  replica : Nat → Replica
  vms : List (String × Nat)

namespace Chain

def update (c : Chain) (i : Nat) (r : Replica) : Chain :=
  { c with replica := Function.update c.replica i r }

def get (c : Chain) (id : String) : Option Nat :=
  (c.vms.find? fun entry => entry.1 = id).map Prod.snd

def goto (c : Chain) (i : Nat) (pc : RestartPc) : Chain :=
  c.update i { c.replica i with restart := pc }

def removeVM (c : Chain) (id : String) : Chain :=
  { c with vms := c.vms.filter fun entry => entry.1 ≠ id }

/-- The registry has one VM under an ID. -/
def append (c : Chain) (id : String) (r : Replica) : Chain where
  size := c.size + 1
  replica := Function.update c.replica c.size r
  vms := (c.removeVM id).vms ++ [(id, c.size)]

def monitorStep (m : Manager) (c : Chain) (i : Nat) : Option Chain :=
  let r := c.replica i
  match r.monitor with
  | .wait =>
    match r.process with
    | .exited _ _ => some (c.update i { r with monitor := .stop r.vm.explicitStop })
    | _ => none
  | .stop explicitStop =>
    some (c.update i
      { r with vm := moveTo .stopped r.vm, monitor := .decide explicitStop })
  | .decide explicitStop =>
    if !explicitStop && m.shouldRestart r.vm r.process then
      some (c.update i { r with monitor := .returned, restart := .backoff })
    else some (c.update i { r with monitor := .returned })
  | _ => none

/-- A move of the goroutine `restartVM` of one VM; `id` names a VM it creates. -/
def restartStep (m : Manager) (c : Chain) (i : Nat) (id : String) (env : StartEnv) :
    Option Chain :=
  let old := c.replica i
  match old.restart with
  | .backoff => some (c.goto i (.create old.vm.restartCount))
  | .create restartCount =>
    some ((c.append id (.create id old.vm.cfg env.now)).goto i (.setCount c.size restartCount))
  | .setCount new restartCount =>
    let r := c.replica new
    some ((c.update new { r with vm := { r.vm with restartCount := restartCount + 1 } }).goto i
      (.start new))
  | .start new =>
    match c.get (c.replica new).vm.id with
    | none => some (c.goto i .failed)
    | some found =>
      let started := m.start env (c.replica found)
      some ((c.update found started.1).goto i (if started.2 then .remove else .failed))
  | .remove => some ((c.removeVM old.vm.id).goto i .removed)
  | _ => none

end Chain

inductive Label
  | exit (i : Nat) (waitErr : WaitErr) (stderr : String)
  | monitor (i : Nat)
  | restart (i : Nat) (id : String) (env : StartEnv)

def step (m : Manager) (c : Chain) : Label → Option Chain
  | .exit i waitErr stderr =>
    if i < c.size ∧ (c.replica i).process = .alive then
      some (c.update i { c.replica i with process := .exited waitErr stderr })
    else none
  | .monitor i => if i < c.size then c.monitorStep m i else none
  | .restart i id env => if i < c.size then c.restartStep m i id env else none

/-- The chain when `Run` has returned: one VM, created and started. -/
def Chain.ofRun (m : Manager) (id : String) (cfg : Config) (created : Time) (env : StartEnv) :
    Chain where
  size := 1
  replica := fun _ => (m.start env (.create id cfg created)).1
  vms := [(id, 0)]

def system (m : Manager) (restart : RestartConfig) : TransitionSystem Chain Label where
  initial c := ∃ id cfg created env, cfg.restart = restart ∧
    (m.start env (.create id cfg created)).2 = true ∧ c = .ofRun m id cfg created env
  step := step m

namespace Chain

def settled (c : Chain) : Bool :=
  (List.range c.size).all fun i => !(c.replica i).restart.pending

def replacements (c : Chain) : Nat :=
  c.size - 1

def registered (c : Chain) : List Nat :=
  c.vms.map Prod.snd

end Chain

/-- The ID that a step draws for a replacement, if it draws one, is that of no VM
of the chain. -/
def drawsFresh (c : Chain) : Label → Bool
  | .restart i id _ =>
    match (c.replica i).restart with
    | .create _ => (List.range c.size).all fun j => (c.replica j).vm.id ≠ id
    | _ => true
  | _ => true

/-- The `Start` that a step makes for a replacement, if it makes one, succeeds. -/
def replacementStarts (m : Manager) (c : Chain) : Label → Bool
  | .restart i _ env =>
    match (c.replica i).restart with
    | .start new => (m.start env (c.replica new)).2
    | _ => true
  | _ => true

end RestartChain

end Jerboa
