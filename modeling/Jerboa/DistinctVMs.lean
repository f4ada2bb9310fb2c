import Jerboa.OrderlyServer

/-!
# Names, addresses and TAP devices of live VMs

Under the API server, two VMs that are starting or running never share a name,
an address of a stored network or a TAP device, as long as every replacement
takes the place of a registered VM whose lineage is stopped.
-/

namespace Jerboa.Daemon

open Vm NetworkStore

variable {w : World}

def isLive : Vm.State → Bool
  | .starting | .running => true
  | _ => false

/-- Two VMs share a name, an address of a network that the store holds, or a
TAP device. -/
def Shared.Clash (s : Shared) (p q : Ref) : Prop :=
  (s.vm p).cfg.name ≠ "" ∧ (s.vm p).cfg.name = (s.vm q).cfg.name ∨
    ((NetworkStore.get s.networks (s.vm p).cfg.networkName).isOk = true ∧
      (s.vm p).cfg.networkName = (s.vm q).cfg.networkName ∧
      (s.vm p).cfg.ipAddress = (s.vm q).cfg.ipAddress) ∨
    (s.vm p).cfg.tapName ≠ "" ∧ (s.vm p).cfg.tapName = (s.vm q).cfg.tapName

def Shared.LiveApart (s : Shared) : Prop :=
  ∀ e ∈ s.vms, ∀ f ∈ s.vms, e.2 ≠ f.2 → isLive (s.vm e.2).state = true →
    isLive (s.vm f.2).state = true → ¬ s.Clash e.2 f.2

theorem heldIPs_of_get_isOk {store : Store} {name : String}
    (held : (NetworkStore.get store name).isOk = true) : (heldIPs store name).isSome := by
  unfold NetworkStore.get at held
  cases read : readNetwork store name with
  | error e => simp [read, Except.map, Except.isOk, Except.toBool] at held
  | ok dir => simp [heldIPs, read]

theorem Shared.Lineage.origin_of_tap {s : Shared} (lineage : s.Lineage) {p q : Nat}
    (knownP : p < s.heapNext) (knownQ : q < s.heapNext) (tapped : (s.vm p).cfg.tapName ≠ "")
    (same : (s.vm p).cfg.tapName = (s.vm q).cfg.tapName) :
    (s.heap p).origin = (s.heap q).origin := by
  rcases lineage.taps p knownP with none | ⟨first, knownFirst, fromP, tapP⟩
  · exact absurd none tapped
  · rcases lineage.taps q knownQ with none | ⟨second, knownSecond, fromQ, tapQ⟩
    · exact absurd (same.trans none) tapped
    · rw [tapP, tapQ] at same
      have sameID := tapDeviceName_injective (lineage.ids_drawn first knownFirst)
        (lineage.ids_drawn second knownSecond) same
      rw [← fromP, ← fromQ, lineage.ids_distinct first second knownFirst knownSecond sameID]

theorem Shared.Lineage.liveApart {s : Shared} (lineage : s.Lineage)
    (known : ∀ entry ∈ s.vms, entry.2 < s.heapNext) : s.LiveApart := by
  intro e memberE f memberF different liveE liveF clash
  have sameLineage : (s.heap e.2).origin = (s.heap f.2).origin := by
    rcases clash with ⟨named, name⟩ | ⟨held, network, address⟩ | ⟨tapped, tap⟩
    · exact lineage.names_unique e memberE f memberF named name
    · refine lineage.addresses_unique e memberE f memberF (heldIPs_of_get_isOk held) ?_
      exact ⟨network.symm, by rw [address]⟩
    · exact lineage.origin_of_tap (known e memberE) (known f memberF) tapped tap
  rcases lineage.one_alive e memberE f memberF different sameLineage with stopped | stopped
  · simp [stopped, isLive] at liveE
  · simp [stopped, isLive] at liveF

/-- In every state of an orderly run, distinct live VMs do not clash. -/
theorem live_vms_apart (reached : system.ReachableUnder World.InOrder w) : w.LiveApart :=
  have orderly := orderly_of_reachable reached
  orderly.lineage.liveApart orderly.grounded.registered_lt

/-! ### Two replacements of one VM -/

def Label.fromServer : Label → Bool
  | .call (.managerCreate _) | .call (.managerStart _) => false
  | _ => true

def webParams : RunParams where
  image := "web"
  imagePath := ""
  memory := ""
  cpus := 0
  networkName := ""
  portMaps := []
  env := []
  name := "web"
  autoRemove := false
  volumes := []
  attach := false
  ipAddress := ""
  gatewayIP := ""
  bridgeName := ""
  subnetMask := ""
  healthCheck := none
  restart := some { policy := .always, maxRetries := 0 }
  cpuShares := 0
  memoryMax := 0
  diskIOPS := 0
  diskBPS := 0

/-- VM 0 runs and its process exits; goroutine 1 monitors it and starts
`restartVM` as goroutine 2. -/
def runThenExit : List Label :=
  [.call (.run webParams)] ++ movesOf 0 23 ++ [.exit 0 .clean ""] ++ movesOf 1 4

def restarted : List Label :=
  runThenExit ++ movesOf 2 17

/-- A Start request replaces VM 0 while `restartVM` sleeps, and `restartVM`
replaces it again. -/
def startedAndRestarted : List Label :=
  runThenExit ++ [.call (.start "web")] ++ movesOf 3 26 ++ movesOf 2 17

def Shared.liveNames (s : Shared) : List (String × Bool) :=
  s.vms.map fun e => ((s.vm e.2).cfg.name, isLive (s.vm e.2).state)

theorem live_vms_apart_restarted :
    ((system.runUnder World.InOrder (World.initial .file []) restarted).map fun w =>
        w.liveNames) = some [("web", false), ("web", true)] ∧
      ∀ w ∈ system.runUnder World.InOrder (World.initial .file []) restarted, w.LiveApart :=
  ⟨by decide +kernel, fun _ ran => live_vms_apart ((reachableUnder_initial _ _).run ran)⟩

/-- Two running VMs have one name. -/
theorem live_vms_clash :
    system.initial (World.initial .file []) ∧
      (∀ label ∈ startedAndRestarted, label.fromServer = true) ∧
      ∃ w, system.run (World.initial .file []) startedAndRestarted = some w ∧ ¬ w.LiveApart := by
  refine ⟨⟨.file, [], id, .start rfl, rfl⟩, by decide, ?_⟩
  have ran : ((system.run (World.initial .file []) startedAndRestarted).map fun w =>
      (w.vms, w.liveNames)) = some ([("030303030303", 1), ("020202020202", 2)],
        [("web", true), ("web", true)]) := by
    decide +kernel
  obtain ⟨w, run, final⟩ := Option.map_eq_some_iff.mp ran
  obtain ⟨vms, live⟩ := Prod.mk.inj final
  refine ⟨w, run, fun apart => ?_⟩
  simp only [Shared.liveNames, vms, List.map_cons, List.map_nil, List.cons.injEq, Prod.mk.injEq,
    and_true] at live
  obtain ⟨⟨firstName, firstLive⟩, secondName, secondLive⟩ := live
  refine apart ("030303030303", 1) (by simp [vms]) ("020202020202", 2) (by simp [vms]) (by decide)
    firstLive secondLive (.inl ⟨?_, ?_⟩)
  · rw [firstName]
    decide
  · rw [firstName, secondName]

end Jerboa.Daemon
