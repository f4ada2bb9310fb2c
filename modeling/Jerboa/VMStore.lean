import Jerboa.VMConfig
import Mathlib.Data.List.Basic

/-!
# VM records and their stores

The lifecycle states of a VM, what `FileStore` and `SQLiteStore` persist of it,
and how a later daemon process reads the records back.
-/

namespace Jerboa.Vm

abbrev Time := Nat

/-- `State`; a record read back from disk can hold any text. -/
inductive State
  | created
  | starting
  | running
  | stopping
  | stopped
  | unknown (text : String)
deriving DecidableEq, Repr

def validTransitions : State → List State
  | .created => [.starting]
  | .starting => [.running, .stopped]
  | .running => [.stopping, .stopped]
  | .stopping => [.stopped]
  | .stopped => []
  | .unknown _ => []

/-- `VM`; the process handle, the done channel and the other pointers are kept
as far as the lifecycle depends on them. -/
structure VM where
  id : String
  cfg : Config
  state : State
  createdAt : Time
  startedAt : Option Time
  stoppedAt : Option Time
  daemonRecovered : Bool
  healthStatus : String
  restartCount : Nat
  pid : Nat
  hasProc : Bool
  done : Bool
  explicitStop : Bool
deriving DecidableEq, Repr

/-- The VM that `MemoryStore.Create` registers. -/
def newVM (id : String) (cfg : Config) (now : Time) : VM where
  id := id
  cfg := cfg
  state := .created
  createdAt := now
  startedAt := none
  stoppedAt := none
  daemonRecovered := false
  healthStatus := ""
  restartCount := 0
  pid := 0
  hasProc := false
  done := false
  explicitStop := false

/-- `VM.transition`, `none` for an edge that is not allowed. -/
def VM.transition (v : VM) (target : State) : Option VM :=
  if target ∈ validTransitions v.state then
    some { v with state := target, done := v.done || target = .stopped }
  else none

/-- `vmState`, the contents of `state.json` and of a row of the `vms` table. -/
structure VMState where
  id : String
  config : Config
  state : State
  createdAt : Time
  startedAt : Option Time
  stoppedAt : Option Time
  daemonRecovered : Bool
  healthStatus : String
  restartCount : Nat
  pid : Nat
deriving DecidableEq, Repr

def VM.snapshot (v : VM) : VMState where
  id := v.id
  config := v.cfg
  state := v.state
  createdAt := v.createdAt
  startedAt := v.startedAt
  stoppedAt := v.stoppedAt
  daemonRecovered := v.daemonRecovered
  healthStatus := v.healthStatus
  restartCount := v.restartCount
  pid := v.pid

/-! ### Restoring -/

/-- What a restore observes of the host: which processes are alive and run the
hypervisor of a VM, and the time. -/
structure Host where
  processAlive : Nat → Bool
  processOwnsVM : Nat → String → Bool
  now : Time

/-- The test of `recoverVM` for a process that survived the daemon. -/
def Host.survived (host : Host) (pid : Nat) (id : String) : Bool :=
  0 < pid && host.processAlive pid && host.processOwnsVM pid id

/-- `recoverVM`: the VM is adopted with its process, or marked stopped. -/
def recoverVM (host : Host) (v : VM) (pid : Nat) : VM :=
  if host.survived pid v.id then
    { v with state := .running, pid := pid, hasProc := true }
  else
    { v with
      state := .stopped
      stoppedAt := some host.now
      daemonRecovered := true
      done := true }

/-- The VM object that `Restore` of either store builds from a record, before
it looks at the state.  The `daemon_recovered` flag is not read back. -/
def loadVM (st : VMState) : VM where
  id := st.id
  cfg := st.config
  state := st.state
  createdAt := st.createdAt
  startedAt := st.startedAt
  stoppedAt := st.stoppedAt
  daemonRecovered := false
  healthStatus := st.healthStatus
  restartCount := st.restartCount
  pid := 0
  hasProc := false
  done := false
  explicitStop := false

def restoreVM (host : Host) (st : VMState) : VM :=
  let v := loadVM st
  match st.state with
  | .running => recoverVM host v st.pid
  | .starting => recoverVM host v st.pid
  | .stopped => { v with done := true }
  | _ => v

def putVM (vms : List (String × VM)) (v : VM) : List (String × VM) :=
  vms.filter (fun entry => entry.1 ≠ v.id) ++ [(v.id, v)]

inductive StoreKind
  | file
  | sqlite
deriving DecidableEq, Repr

/-- A record in the file store, or a row with the upsert of the SQLite store,
which keeps the creation time of an existing row. -/
def writeRecord (kind : StoreKind) (records : List VMState) (st : VMState) : List VMState :=
  if records.any fun row => row.id = st.id then
    records.map fun row =>
      if row.id = st.id then
        match kind with
        | .file => st
        | .sqlite => { st with createdAt := row.createdAt }
      else row
  else records ++ [st]

def restoreAll (host : Host) (records : List VMState) : List (String × VM) :=
  records.foldl (fun vms st => putVM vms (restoreVM host st)) []

@[simp]
theorem recoverVM_id (host : Host) (v : VM) (pid : Nat) : (recoverVM host v pid).id = v.id := by
  unfold recoverVM
  split <;> rfl

@[simp]
theorem restoreVM_id (host : Host) (st : VMState) : (restoreVM host st).id = st.id := by
  simp only [restoreVM]
  split <;> simp [loadVM]

theorem restoreAll_keys (host : Host) (records : List VMState) :
    (restoreAll host records).map Prod.fst =
      records.foldl (fun ids st => ids.filter (· ≠ st.id) ++ [st.id]) [] := by
  unfold restoreAll
  have general (vms : List (String × VM)) :
      (records.foldl (fun vms st => putVM vms (restoreVM host st)) vms).map Prod.fst =
        records.foldl (fun ids st => ids.filter (· ≠ st.id) ++ [st.id])
          (vms.map Prod.fst) := by
    induction records generalizing vms with
    | nil => rfl
    | cons st rest ih =>
      rw [List.foldl_cons, ih, List.foldl_cons]
      congr 1
      simp [putVM, List.filter_map, Function.comp_def]
  exact general []

end Jerboa.Vm
