import Jerboa.DelimitedText
import Jerboa.ManifestBuilder
import Jerboa.RestartChainOrder

/-!
# The API sockets of Firecracker

`FirecrackerManager` names the API socket of a VM after the reference it was
called with: `Start` launches the process on the socket of its own argument, and
`Stop` asks the socket of its own argument to shut down.  The store resolves
several references to one VM.
-/

namespace Jerboa.Firecracker

open Vm Daemon Image Utf8Text RestartChain List

def filepathJoin (elements : List Bytes) : Bytes :=
  match elements.dropWhile (· = []) with
  | [] => []
  | parts => pathClean ([slash].intercalate parts)

/-- `fcSocketPath`, the default of `vmSockPath`; `tempDir` is `os.TempDir()`. -/
def fcSocketPath (tempDir : Bytes) (id : String) : Bytes :=
  filepathJoin [tempDir, utf8 ("fc-" ++ id ++ ".sock")]

/-! ### The manager -/

structure Instance where
  replica : Replica
  apiSock : Option Bytes

/-- The part of `FirecrackerManager` that `Start` and `Stop` use, with the
sockets that `shutdownAPI` has been called with, the first one first. -/
structure FirecrackerManager where
  tempDir : Bytes
  /-- `os.TempDir` falls back to `/tmp`. -/
  tempDir_ne : tempDir ≠ []
  vms : List (String × Instance)
  distinct : (vms.map Prod.fst).Nodup
  shutdownRequests : List Bytes

namespace FirecrackerManager

def index (m : FirecrackerManager) : List (String × String) :=
  m.vms.map fun entry => (entry.1, entry.2.replica.vm.cfg.name)

def resolve (m : FirecrackerManager) (nameOrID : String) (pick : Nat) : Option String :=
  (resolveEntry id m.index nameOrID pick).map Prod.fst

def get (m : FirecrackerManager) (id : String) : Option Instance :=
  (m.vms.find? fun entry => entry.1 = id).map Prod.snd

def update (m : FirecrackerManager) (id : String) (changed : Instance) : FirecrackerManager :=
  { m with
    vms := m.vms.map fun entry => if entry.1 = id then (entry.1, changed) else entry
    distinct := by
      have keys : (m.vms.map fun entry => if entry.1 = id then (entry.1, changed) else entry).map
          Prod.fst = m.vms.map Prod.fst := by
        rw [map_map]
        apply map_congr_left
        intro entry _
        simp only [Function.comp_apply]
        split <;> rfl
      rw [keys]
      exact m.distinct }

end FirecrackerManager

/-- Whether `Start` gets as far as launching a process. -/
def launches (env : StartEnv) (v : VM) : Bool :=
  validatePortNetwork v.cfg && (v.transition .starting).isSome &&
    Manager.firecracker.prepared env.bootFiles v.cfg && env.launch

/-- `FirecrackerManager.Start`, with whether it returns nil. -/
def FirecrackerManager.start (m : FirecrackerManager) (id : String) (pick : Nat) (env : StartEnv) :
    FirecrackerManager × Bool :=
  match (m.resolve id pick).bind fun key => (m.get key).map fun found => (key, found) with
  | none => (m, false)
  | some (key, found) =>
    let sockPath := fcSocketPath m.tempDir id
    let started := Manager.firecracker.start env found.replica
    (m.update key
      { replica := started.1
        apiSock := if launches env found.replica.vm then some sockPath else found.apiSock },
      started.2)

/-- `FirecrackerManager.Stop` up to its request for a shutdown.  What follows,
the signals and the wait for the process, asks no other socket. -/
def FirecrackerManager.stop (m : FirecrackerManager) (id : String) (pick : Nat) :
    FirecrackerManager :=
  match (m.resolve id pick).bind fun key => (m.get key).map fun found => (key, found) with
  | none => m
  | some (key, found) =>
    if found.replica.vm.state = .stopped then m
    else
      match found.replica.vm.transition .stopping with
      | none => m
      | some v =>
        let m := m.update key
          { found with replica := { found.replica with vm := { v with explicitStop := true } } }
        if !v.hasProc then m
        else { m with shutdownRequests := m.shutdownRequests ++ [fcSocketPath m.tempDir id] }

/-! ### References -/

namespace FirecrackerManager

variable {m : FirecrackerManager} {key : String} {found changed : Instance}

theorem mem_of_get (present : m.get key = some found) : (key, found) ∈ m.vms := by
  obtain ⟨entry, first, rfl⟩ := Option.map_eq_some_iff.mp present
  have named : entry.1 = key := by simpa using find?_some first
  rw [← named]
  exact mem_of_find?_eq_some first

theorem get_update_self (present : m.get key = some found) :
    (m.update key changed).get key = some changed := by
  obtain ⟨entry, first, -⟩ := Option.map_eq_some_iff.mp present
  have named : entry.1 = key := by simpa using find?_some first
  have sameKey : ((fun entry : String × Instance => decide (entry.1 = key)) ∘ fun entry =>
      if entry.1 = key then (entry.1, changed) else entry) =
        fun entry => decide (entry.1 = key) := by
    funext entry
    simp only [Function.comp_apply]
    split <;> rfl
  simp only [get, update, find?_map, sameKey, first, Option.map_some, named, if_true]

theorem index_update (present : m.get key = some found)
    (name : changed.replica.vm.cfg.name = found.replica.vm.cfg.name) :
    (m.update key changed).index = m.index := by
  simp only [index, update, map_map]
  apply map_congr_left
  intro entry listed
  simp only [Function.comp_apply]
  split
  · rename_i here
    have same : entry.2 = found := by
      have whole : entry = (key, found) :=
        inj_on_of_nodup_map m.distinct listed (mem_of_get present) here
      rw [whole]
    rw [name, same]
  · rfl

end FirecrackerManager

variable {env : StartEnv}

theorem start_launches {r : Replica}
    (started : (Manager.firecracker.start env r).2 = true) :
    launches env r.vm = true ∧ (Manager.firecracker.start env r).1.vm.state = .running ∧
      (Manager.firecracker.start env r).1.vm.hasProc = true := by
  revert started
  fun_cases Manager.start .firecracker env r with
  | case7 publishable starting begun v launched w limited running ran published =>
    intro _
    simp only [Manager.prepared, Bool.or_eq_true, Bool.not_eq_true', not_or,
      Bool.not_eq_false] at launched publishable
    simp only [VM.transition, Option.ite_none_right_eq_some, Option.some.injEq] at ran
    obtain ⟨-, rfl⟩ := ran
    exact ⟨by simp [launches, Manager.prepared, publishable, begun, launched], rfl, rfl⟩
  | _ => exact Bool.noConfusion

theorem stop_running {m : FirecrackerManager} {id key : String} {pick : Nat} {found : Instance}
    (resolved : m.resolve id pick = some key) (present : m.get key = some found)
    (running : found.replica.vm.state = .running) (hasProc : found.replica.vm.hasProc = true) :
    (m.stop id pick).shutdownRequests = m.shutdownRequests ++ [fcSocketPath m.tempDir id] := by
  have moves : found.replica.vm.transition .stopping =
      some { found.replica.vm with state := .stopping, done := found.replica.vm.done || false } := by
    simp [VM.transition, running, validTransitions]
  simp only [FirecrackerManager.stop, resolved, Option.bind_some, present, Option.map_some,
    running, reduceCtorEq, if_false, moves, hasProc, Bool.not_true]
  rfl

variable {m started : FirecrackerManager}

/-- What a successful `Start` leaves: the VM runs on the socket of the
reference, and every reference resolves as before. -/
theorem start_succeeds {id key : String} {pick : Nat} (resolved : m.resolve id pick = some key)
    (starts : m.start id pick env = (started, true)) :
    ∃ running, started.get key = some running ∧
      running.apiSock = some (fcSocketPath m.tempDir id) ∧
      running.replica.vm.state = .running ∧ running.replica.vm.hasProc = true ∧
      started.tempDir = m.tempDir ∧ started.shutdownRequests = m.shutdownRequests ∧
      ∀ nameOrID pick, started.resolve nameOrID pick = m.resolve nameOrID pick := by
  cases present : m.get key with
  | none => simp [FirecrackerManager.start, resolved, present] at starts
  | some found =>
    simp only [FirecrackerManager.start, resolved, Option.bind_some, present, Option.map_some,
      Prod.mk.injEq] at starts
    obtain ⟨rfl, succeeded⟩ := starts
    obtain ⟨launched, running, hasProc⟩ := start_launches succeeded
    have kept := start_kept .firecracker env found.replica
    refine ⟨_, FirecrackerManager.get_update_self present, by simp [launched], running, hasProc,
      rfl, rfl, ?_⟩
    intro nameOrID pick
    rw [FirecrackerManager.resolve, FirecrackerManager.index_update present kept.name]
    rfl

/-! ### Paths of sockets -/

/-- A component that `path.Clean` keeps. -/
structure Plain (component : Bytes) : Prop where
  nonempty : component ≠ []
  notDot : component ≠ utf8 "."
  notDotDot : component ≠ utf8 ".."
  single : slash ∉ component

theorem cleanStep_plain {component : Bytes} (plain : Plain component) (rooted : Bool)
    (components : List Bytes) :
    cleanStep rooted components component = component :: components := by
  simp [cleanStep, plain.nonempty, plain.notDot, plain.notDotDot]

theorem filepathJoin_plain {directory : Bytes} (nonempty : directory ≠ []) :
    ∃ front, ∀ component, Plain component →
      filepathJoin [directory, component] = front ++ component := by
  let rooted : Bool := directory.head? = some slash
  let components := ((directory.splitOn slash).foldl (cleanStep rooted) []).reverse
  refine ⟨(if rooted then [slash] else []) ++
    components.flatMap (fun earlier => earlier ++ [slash]), ?_⟩
  intro component plain
  have joined : filepathJoin [directory, component] =
      pathClean (directory ++ slash :: component) := by
    simp [filepathJoin, nonempty]
  have head : (directory ++ slash :: component).head? = directory.head? := by
    rw [head?_append_of_ne_nil _ nonempty]
  have split : (directory ++ slash :: component).splitOn slash =
      directory.splitOn slash ++ [component] := by
    rw [splitOn_append_cons_self, splitOn_eq_singleton plain.single]
  rw [joined, pathClean]
  simp only [head, split, foldl_append, foldl_cons, foldl_nil,
    cleanStep_plain plain, reverse_cons, DelimitedText.intercalate_concat]
  by_cases atRoot : directory.head? = some slash
  · simp [rooted, components, atRoot]
  · simp [rooted, components, atRoot, plain.nonempty]

theorem plain_socketName {id : String} (plain : '/' ∉ id.toList) :
    Plain (utf8 ("fc-" ++ id ++ ".sock")) := by
  have long : 2 < ("fc-" ++ id ++ ".sock").toList.length := by
    simp only [String.toList_append, length_append]
    have letters : ("fc-" : String).toList.length = 3 := by decide
    omega
  have other (text : String) (short : text.toList.length ≤ 2) :
      utf8 ("fc-" ++ id ++ ".sock") ≠ utf8 text := by
    intro same
    rw [utf8_injective same] at long
    omega
  exact
    { nonempty := other "" (by decide)
      notDot := other "." (by decide)
      notDotDot := other ".." (by decide)
      single := by
        intro inside
        have letter := (mem_utf8_ascii '/' (by decide)).mp inside
        simp [plain] at letter }

theorem fcSocketPath_eq_iff {tempDir : Bytes} (nonempty : tempDir ≠ []) {first second : String}
    (firstPlain : '/' ∉ first.toList) (secondPlain : '/' ∉ second.toList) :
    fcSocketPath tempDir first = fcSocketPath tempDir second ↔ first = second := by
  obtain ⟨front, joined⟩ := filepathJoin_plain nonempty
  rw [fcSocketPath, fcSocketPath, joined _ (plain_socketName firstPlain),
    joined _ (plain_socketName secondPlain)]
  constructor
  · intro same
    have names := utf8_injective (append_cancel_left same)
    simpa using names
  · rintro rfl
    rfl

/-- The shutdown request of a `Stop` goes to the socket that the process of
the VM was launched with. -/
def ShutdownReaches (started stopped : FirecrackerManager) (key : String) : Prop :=
  ∃ running sock, started.get key = some running ∧ running.apiSock = some sock ∧
    stopped.shutdownRequests = started.shutdownRequests ++ [sock]

theorem shutdownReaches_iff {key first second : String}
    {pick pick' : Nat} (firstResolves : m.resolve first pick = some key)
    (secondResolves : m.resolve second pick' = some key)
    (starts : m.start first pick env = (started, true)) :
    ShutdownReaches started (started.stop second pick') key ↔
      fcSocketPath m.tempDir first = fcSocketPath m.tempDir second := by
  obtain ⟨running, present, launchedOn, isRunning, hasProc, tempDir, requests, resolves⟩ :=
    start_succeeds firstResolves starts
  have asked := stop_running ((resolves second pick').trans secondResolves) present isRunning hasProc
  constructor
  · rintro ⟨other, sock, found, onSock, reached⟩
    obtain rfl : other = running := Option.some.inj (found.symm.trans present)
    obtain rfl : sock = fcSocketPath m.tempDir first :=
      Option.some.inj (onSock.symm.trans launchedOn)
    rw [asked, tempDir] at reached
    simpa using reached.symm
  · intro same
    refine ⟨running, _, present, launchedOn, ?_⟩
    rw [asked, tempDir, same]

/-- After a successful `Start`, the request of a `Stop` reaches the process
exactly when both references give the same socket, which for references without
a slash means that they are the same. -/
theorem shutdown_independent_of_reference_iff {m started : FirecrackerManager}
    {key first second : String} {pick pick' : Nat} {env : StartEnv}
    (firstResolves : m.resolve first pick = some key)
    (secondResolves : m.resolve second pick' = some key)
    (starts : m.start first pick env = (started, true)) :
    (ShutdownReaches started (started.stop second pick') key ↔
      fcSocketPath m.tempDir first = fcSocketPath m.tempDir second) ∧
    ('/' ∉ first.toList → '/' ∉ second.toList →
      (ShutdownReaches started (started.stop second pick') key ↔ first = second)) := by
  have reaches := shutdownReaches_iff firstResolves secondResolves starts
  constructor
  · exact reaches
  · intro firstPlain secondPlain
    rw [reaches, fcSocketPath_eq_iff m.tempDir_ne firstPlain secondPlain]

def oneVM : FirecrackerManager where
  tempDir := utf8 "/tmp"
  tempDir_ne := by decide
  vms := [("0a1b2c3d4e5f", ⟨.create "0a1b2c3d4e5f" { Config.zero with name := "web" } 0, none⟩)]
  distinct := by decide
  shutdownRequests := []

theorem shutdown_independent_of_reference_iff_oneVM :
    ∃ started, oneVM.start "web" 0 fortunate = (started, true) ∧
      ShutdownReaches started (started.stop "web" 0) "0a1b2c3d4e5f" := by
  have ok : (oneVM.start "web" 0 fortunate).2 = true := by decide
  have starts : oneVM.start "web" 0 fortunate = ((oneVM.start "web" 0 fortunate).1, true) :=
    Prod.ext rfl ok
  exact ⟨_, starts, (shutdown_independent_of_reference_iff (by decide)
    (by decide) starts).1.mpr rfl⟩

/-- The VM is started by its name and stopped by its ID. -/
theorem shutdown_misses_process :
    ∃ started, oneVM.start "web" 0 fortunate = (started, true) ∧
      oneVM.resolve "web" 0 = some "0a1b2c3d4e5f" ∧
      oneVM.resolve "0a1b2c3d4e5f" 0 = some "0a1b2c3d4e5f" ∧
      ¬ ShutdownReaches started (started.stop "0a1b2c3d4e5f" 0) "0a1b2c3d4e5f" := by
  have ok : (oneVM.start "web" 0 fortunate).2 = true := by decide
  refine ⟨(oneVM.start "web" 0 fortunate).1, Prod.ext rfl ok, by decide,
    by decide, ?_⟩
  rintro ⟨running, sock, present, launchedOn, reached⟩
  have on : (((oneVM.start "web" 0 fortunate).1.get "0a1b2c3d4e5f").bind Instance.apiSock) =
      some (utf8 "/tmp/fc-web.sock") := by
    decide
  have asked : ((oneVM.start "web" 0 fortunate).1.stop "0a1b2c3d4e5f" 0).shutdownRequests =
      [utf8 "/tmp/fc-0a1b2c3d4e5f.sock"] := by
    decide
  rw [present, Option.bind_some, launchedOn] at on
  rw [asked, Option.some.inj on] at reached
  exact absurd reached (by decide)

end Jerboa.Firecracker
