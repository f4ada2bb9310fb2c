import Jerboa.AddressRelease

/-!
# Removing networks

`handleNetworkRemove` counts the running VMs of a network and then removes it,
without the lock that Run and Start requests hold.  Nothing else removes a
network, and a VM that runs on it when the request lists the VMs has stopped
running before the network goes.  A VM that starts later is not seen.
-/

namespace Jerboa.Daemon

open Vm NetworkStore

/-- `handleNetworkRemove`: VMs of the list that it has not looked at, with the
number of running ones among the others, or the call of `Store.Remove`. -/
inductive NetworkRemovePc
  | count (vms : List Ref) (inUse : Nat)
  | remove

/-- A request with the VMs that ran on its network when it listed the VMs; the
program does not keep them. -/
structure NetworkRemoval where
  name : String
  running : List Ref
  pc : NetworkRemovePc

structure NetworkServer where
  world : World
  requests : List NetworkRemoval

inductive NetworkLabel
  | daemon (label : Label)
  | networkRemove (name : String)
  | request (i : Nat)

def runsOn (w : World) (name : String) (p : Ref) : Bool :=
  (w.vm p).cfg.networkName = name ∧ (w.vm p).state = .running

def inStore (networks : Store) (name : String) : Bool :=
  (gatewayOf networks name).isSome

namespace NetworkServer

def requestStep (s : NetworkServer) (i : Nat) : NetworkRemoval → NetworkServer
  | ⟨name, running, .count (p :: vms) inUse⟩ =>
    let inUse := if runsOn s.world name p then inUse + 1 else inUse
    { s with requests := s.requests.set i ⟨name, running, .count vms inUse⟩ }
  | ⟨name, running, .count [] inUse⟩ =>
    if 0 < inUse then { s with requests := s.requests.eraseIdx i }
    else { s with requests := s.requests.set i ⟨name, running, .remove⟩ }
  | ⟨name, _, .remove⟩ =>
    let networks := (remove s.world.networks name).toOption.getD s.world.networks
    { world := { s.world with networks := networks }, requests := s.requests.eraseIdx i }

def step (s : NetworkServer) : NetworkLabel → Option NetworkServer
  | .daemon label => (s.world.step label).map fun next => { s with world := next }
  | .networkRemove name =>
    let vms := s.world.vms.map Prod.snd
    let running := vms.filter (runsOn s.world name)
    some { s with requests := s.requests ++ [⟨name, running, .count vms 0⟩] }
  | .request i => (s.requests[i]?).map (s.requestStep i)

end NetworkServer

def networkSystem : TransitionSystem NetworkServer NetworkLabel where
  initial s := system.initial s.world ∧ s.requests = []
  step := NetworkServer.step

/-! ### Steps of the daemon -/

def age : State → Nat
  | .created => 0
  | .starting => 1
  | .running => 2
  | .stopping => 3
  | .stopped | .unknown _ => 4

variable {s : Shared} {w next : World} {label : Label} {p : Ref}

theorem age_lt_of_mem {before after : State} (valid : after ∈ validTransitions before) :
    age before < age after := by
  cases before <;> simp only [validTransitions, List.mem_cons, List.not_mem_nil, or_false] at valid
  all_goals grind [age]

theorem eq_running_of_age {state : State} (same : age state = age .running) :
    state = .running := by
  cases state <;> simp_all [age]

theorem act_age (a : Action) (known : p < s.heapNext) :
    age (s.vm p).state ≤ age ((s.act a).vm p).state := by
  apply act_vm_invariant (fun v => age (s.vm p).state ≤ age v.state) a known
  case moveTo_kept =>
    intro target v older
    rcases moveTo_cases target v with same | ⟨valid, same⟩
    · rwa [same]
    · rw [same]
      exact older.trans (age_lt_of_mem valid).le
  all_goals simp

theorem gatewayOf_of_move {t : ThreadId} {choice : Choice} {top : Frame} {m : Move}
    (moved : top.move s t choice = some m) (name : String) :
    gatewayOf (s.act m.action).networks name = gatewayOf s.networks name := by
  cases action : m.action with
  | setNetworks networks =>
    change gatewayOf networks name = _
    rcases setNetworks_of_move moved action with ⟨_, _, allocated⟩ | ⟨_, _, reserved⟩ |
      ⟨job, -, rfl⟩
    · obtain ⟨_, _, _, -, -, -, rfl⟩ := allocateIP_eq_ok allocated
      exact gatewayOf_write ..
    · obtain ⟨_, _, -, rfl⟩ := reserveIP_eq_ok reserved
      exact gatewayOf_write ..
    · rcases releaseAssigned_cases s.networks job with same | ⟨-, released⟩
      · rw [same]
      · obtain ⟨_, -, written⟩ := releaseIP_eq_ok released
        rw [written]
        exact gatewayOf_write ..
  | register => rfl
  | _ => rw [act_networks_of_isQuiet rfl]

/-- What a step of the daemon keeps of a VM and its network. -/
theorem networks_step (stepped : w.step label = some next) :
    (∀ name, inStore next.networks name = inStore w.networks name) ∧
      ∀ p, p < w.heapNext → p < next.heapNext ∧
        (next.vm p).cfg.networkName = (w.vm p).cfg.networkName ∧
        age (w.vm p).state ≤ age (next.vm p).state := by
  rcases step_cases stepped with ⟨call, -, rfl⟩ | ⟨t, choice, frame, rest, m, -, -, moved, rfl⟩ |
    ⟨heap, observed, rfl⟩
  · exact ⟨fun _ => rfl, fun _ known => ⟨known, rfl, le_rfl⟩⟩
  · refine ⟨fun name => ?_, fun p known => ?_⟩
    · rw [inStore, inStore, perform_networks, gatewayOf_of_move moved]
    · rw [perform_vm, perform_heapNext]
      exact ⟨Nat.lt_of_lt_of_le known (heapNext_le_act _ _),
        ((Shared.Kept.act _ _).request p known).networkName, act_age _ known⟩
  · refine ⟨fun _ => rfl, fun p known => ⟨known, ?_⟩⟩
    have same := (observed p).2
    simp only [Shared.vm] at same ⊢
    rw [same]
    exact ⟨rfl, le_rfl⟩

theorem inStore_remove {networks : Store} {name other : String} (different : other ≠ name) :
    inStore ((remove networks name).toOption.getD networks) other = inStore networks other := by
  cases removed : remove networks name with
  | error _ => rfl
  | ok target =>
    obtain rfl := remove_eq_ok removed
    have found : findDir (networks.filter fun entry => entry.1 ≠ name) other =
        findDir networks other := by
      rw [findDir, findDir, List.find?_filter]
      congr 2
      funext entry
      by_cases same : entry.1 = other <;> simp [same, different]
    simp only [inStore, gatewayOf, readNetwork, Except.toOption, Option.getD_some, found]

theorem World.Grounded.step (grounded : w.Grounded) (stepped : w.step label = some next) :
    next.Grounded := by
  rcases step_cases stepped with ⟨call, -, rfl⟩ | ⟨t, choice, frame, rest, m, -, stack, moved, rfl⟩ |
    ⟨heap, observed, rfl⟩
  · exact grounded.spawn (by cases call <;> rfl)
  · exact grounded.perform stack moved
  · refine { grounded with registered_id := fun entry member => ?_ }
    exact (congrArg VM.id (observed _).2).trans (grounded.registered_id entry member)

/-! ### Requests -/

/-- The request will count `p` or has counted a VM. -/
def NetworkRemovePc.Covers (p : Ref) : NetworkRemovePc → Prop
  | .count vms inUse => p ∈ vms ∨ 0 < inUse
  | .remove => False

/-- A VM that ran on the network of a request when it listed the VMs. -/
structure NetworkRemoval.Checks (w : World) (request : NetworkRemoval) (p : Ref) : Prop where
  known : p < w.heapNext
  named : (w.vm p).cfg.networkName = request.name
  ran : age .running ≤ age (w.vm p).state
  covered : (w.vm p).state = .running → request.pc.Covers p

theorem NetworkRemoval.Checks.step {request : NetworkRemoval} (checks : request.Checks w p)
    (stepped : w.step label = some next) : request.Checks next p := by
  obtain ⟨known, named, older⟩ := (networks_step stepped).2 p checks.known
  refine ⟨known, named.trans checks.named, checks.ran.trans older, fun running => ?_⟩
  -- a VM that has stopped does not run again
  rw [running] at older
  exact checks.covered (eq_running_of_age (le_antisymm older checks.ran))

structure NetworkServer.Sound (s : NetworkServer) : Prop where
  grounded : s.world.Grounded
  checks : ∀ request ∈ s.requests, ∀ p ∈ request.running, request.Checks s.world p

theorem NetworkServer.Sound.set {s : NetworkServer} (sound : s.Sound) {name : String}
    {running : List Ref} {pc later : NetworkRemovePc} (member : ⟨name, running, pc⟩ ∈ s.requests)
    (covers : ∀ p, runsOn s.world name p = true → pc.Covers p → later.Covers p) (i : Nat) :
    { s with requests := s.requests.set i ⟨name, running, later⟩ }.Sound := by
  refine { sound with checks := fun other among p ran => ?_ }
  rcases List.mem_or_eq_of_mem_set among with old | rfl
  · exact sound.checks other old p ran
  · have checks := sound.checks _ member p ran
    refine { checks with covered := fun runs => covers p ?_ (checks.covered runs) }
    exact decide_eq_true ⟨checks.named, runs⟩

theorem NetworkServer.Sound.requestStep {s : NetworkServer} (sound : s.Sound) {i : Nat}
    {request : NetworkRemoval} (member : request ∈ s.requests) :
    (s.requestStep i request).Sound := by
  fun_cases s.requestStep i request with
  | case1 name running q vms inUse counted =>
    refine sound.set member (fun p runs covers => ?_) i
    rcases covers with listed | found
    · rcases List.mem_cons.mp listed with rfl | rest
      · exact .inr (by simp [counted, runs])
      · exact .inl rest
    · exact .inr (by grind)
  | case2 =>
    refine { sound with checks := fun other among => ?_ }
    exact sound.checks other (List.mem_of_mem_eraseIdx among)
  | case3 name running inUse none =>
    refine sound.set member (fun p _ covers => ?_) i
    exact covers.elim (absurd · List.not_mem_nil) none
  | case4 =>
    refine ⟨{ sound.grounded with }, fun other among q ran => ?_⟩
    exact { sound.checks other (List.mem_of_mem_eraseIdx among) q ran with }

theorem requests_sound {s : NetworkServer} (reached : networkSystem.Reachable s) :
    s.Sound := by
  refine reached.invariant ?_ ?_
  · rintro state ⟨initial, none⟩
    exact ⟨grounded_of_reachable (.start initial : system.Reachable _), by simp [none]⟩
  · intro state label target sound stepped
    cases label with
    | daemon label =>
      obtain ⟨next, moved, rfl⟩ := Option.map_eq_some_iff.mp stepped
      exact ⟨sound.grounded.step moved, fun request member p ran =>
        (sound.checks request member p ran).step moved⟩
    | networkRemove name =>
      cases stepped
      refine { sound with checks := fun request member p ran => ?_ }
      rcases List.mem_append.mp member with old | new
      · exact sound.checks request old p ran
      · obtain rfl := List.mem_singleton.mp new
        obtain ⟨listed, runs⟩ := List.mem_filter.mp ran
        obtain ⟨entry, registered, rfl⟩ := List.mem_map.mp listed
        obtain ⟨named, state⟩ := of_decide_eq_true runs
        exact ⟨sound.grounded.registered_lt entry registered, named, by rw [state],
          fun _ => .inl listed⟩
    | request i =>
      obtain ⟨request, at_, rfl⟩ := Option.map_eq_some_iff.mp stepped
      exact sound.requestStep (List.mem_of_getElem? at_)

/-- A network leaves the store only by a request to remove it, and no VM that
ran on it when the request listed the VMs runs by then. -/
theorem removed_network_unused {s target : NetworkServer} (reached : networkSystem.Reachable s)
    {label : NetworkLabel} (stepped : s.step label = some target) {name : String}
    (stored : inStore s.world.networks name = true)
    (gone : inStore target.world.networks name = false) :
    ∃ i request, label = .request i ∧ s.requests[i]? = some request ∧ request.name = name ∧
      ∀ p ∈ request.running, age .running < age (target.world.vm p).state := by
  have sound := requests_sound reached
  cases label with
  | daemon label =>
    obtain ⟨next, moved, rfl⟩ := Option.map_eq_some_iff.mp stepped
    simp [(networks_step moved).1, stored] at gone
  | networkRemove other =>
    cases stepped
    simp [stored] at gone
  | request i =>
    obtain ⟨request, at_, rfl⟩ := Option.map_eq_some_iff.mp stepped
    revert gone
    fun_cases s.requestStep i request with
    | case1 | case2 | case3 => simp [stored]
    | case4 other running networks =>
      intro gone
      refine ⟨i, _, rfl, at_, ?_, fun p ran => ?_⟩
      · by_contra different
        simp [networks, inStore_remove (Ne.symm different), stored] at gone
      · obtain ⟨-, -, ran, covered⟩ := sound.checks _ (List.mem_of_getElem? at_) p ran
        exact lt_of_le_of_ne ran fun same => covered (eq_running_of_age same.symm)

/-! ### A network with one VM -/

def quietServer : NetworkServer :=
  ⟨World.initial .file appNetworks, []⟩

theorem networkSystem_initial_app : networkSystem.initial quietServer := by
  obtain ⟨kind, networks, hash, reached, -, same⟩ := freshSystem_initial_app
  exact ⟨⟨kind, networks, hash, reached, same⟩, rfl⟩

/-- The VM runs when the request lists it and exits before it is looked at. -/
def removeExited : List NetworkLabel :=
  (.call (.run appParams) :: movesOf 0 24).map .daemon ++ [.networkRemove "app"] ++
    (.exit 0 .clean "" :: movesOf 1 4).map .daemon ++ [.request 0, .request 0]

theorem removed_network_unused_exited :
    ∃ s target, networkSystem.run quietServer removeExited = some s ∧
      s.step (.request 0) = some target ∧
      s.requests.map (·.running) = [[0]] ∧
      ∃ i request, NetworkLabel.request 0 = .request i ∧ s.requests[i]? = some request ∧
        request.name = "app" ∧
        ∀ p ∈ request.running, age .running < age (target.world.vm p).state := by
  have ran : ((networkSystem.run quietServer removeExited).bind fun s =>
      (s.step (.request 0)).map fun target =>
        (s.requests.map (·.running), inStore s.world.networks "app",
          inStore target.world.networks "app")) = some ([[0]], true, false) := by
    decide
  obtain ⟨s, run, rest⟩ := Option.bind_eq_some_iff.mp ran
  obtain ⟨target, stepped, seen⟩ := Option.map_eq_some_iff.mp rest
  obtain ⟨listed, stored, gone⟩ : _ ∧ _ ∧ _ := by simpa only [Prod.mk.injEq] using seen
  exact ⟨s, target, run, stepped, listed, removed_network_unused
    (.run (.start networkSystem_initial_app) run) stepped stored gone⟩

end Jerboa.Daemon
