import Jerboa.DaemonSteps

/-!
# A daemon that comes back

The daemon can crash between any two critical sections.  A new process reads
the records of the VM store, adopts the hypervisor processes that survived and
marks the other VMs as stopped.
-/

namespace Jerboa.Daemon

open Vm List

/-! ### The new process -/

def World.restored (host : Host) (w : World) : List (String × VM) :=
  restoreAll host w.records

def restoredObject (v : VM) (p : Ref) : Object where
  vm := v
  process := if v.hasProc then .alive else .none
  origin := p

def adoptedRefs (vms : List (String × VM)) : List Ref :=
  (List.range vms.length).filter fun p => (vms[p]?).any fun entry => entry.2.hasProc

/-- The records once `Restore` has saved the VMs it marked as stopped. -/
def persistRecovered (kind : StoreKind) (records : List VMState) (vms : List (String × VM)) :
    List VMState :=
  (vms.filter fun entry => entry.2.daemonRecovered).foldl
    (fun records entry => writeRecord kind records entry.2.snapshot) records

/-- The daemon after a crash: nothing is left of the old process but the
records and the networks. -/
def World.restore (host : Host) (w : World) : World where
  heap p := match (w.restored host)[p]? with
    | some entry => restoredObject entry.2 p
    | none => ⟨newVM "" Config.zero 0, .none, p⟩
  heapNext := (w.restored host).length
  vms := (w.restored host).mapIdx fun p entry => (entry.1, p)
  kind := w.kind
  records := persistRecovered w.kind w.records (w.restored host)
  networks := w.networks
  resourceMu := none
  nameMu := none
  starting := []
  history := []
  threads t := match (adoptedRefs (w.restored host))[t]? with
    | some p => [.adoptMonitor (.poll p)]
    | none => []
  threadNext := (adoptedRefs (w.restored host)).length

inductive CrashLabel
  | daemon (label : Label)
  | crash (host : Host)

def crashSystem : TransitionSystem World CrashLabel where
  initial := system.initial
  step w label := match label with
    | .daemon label => system.step w label
    | .crash host => some (w.restore host)

/-! ### Records -/

def knownState : State → Bool
  | .unknown _ => false
  | _ => true

theorem knownState_of_mem_validTransitions {state target : State}
    (valid : target ∈ validTransitions state) : knownState target = true := by
  cases state <;> simp only [validTransitions, mem_cons, not_mem_nil, or_false] at valid
  all_goals rcases valid with rfl | rfl <;> rfl

theorem moveTo_known (target : State) {v : VM} (known : knownState v.state = true) :
    knownState (moveTo target v).state = true := by
  rcases moveTo_cases target v with same | ⟨valid, same⟩
  · rwa [same]
  · rw [same]
    exact knownState_of_mem_validTransitions valid

/-- What every run keeps of the heap and of the records. -/
structure Shared.Recorded (s : Shared) : Prop where
  vm_known : ∀ p, knownState (s.vm p).state = true
  record_known : ∀ st ∈ s.records, knownState st.state = true
  ids_nodup : (s.records.map VMState.id).Nodup

theorem writeRecord_ids (kind : StoreKind) (records : List VMState) (st : VMState) :
    (writeRecord kind records st).map VMState.id =
      if st.id ∈ records.map VMState.id then records.map VMState.id
      else records.map VMState.id ++ [st.id] := by
  have present : (records.any fun row => row.id = st.id) = true ↔
      st.id ∈ records.map VMState.id := by
    simp [any_eq_true, mem_map]
  unfold writeRecord
  by_cases exists_ : st.id ∈ records.map VMState.id
  · rw [if_pos (present.mpr exists_), if_pos exists_, map_map]
    refine map_congr_left fun row _ => ?_
    simp only [Function.comp_apply]
    split
    · rename_i same
      cases kind <;> exact same.symm
    · rfl
  · rw [if_neg (fun any => exists_ (present.mp any)), if_neg exists_, map_append]
    rfl

variable {kind : StoreKind} {records : List VMState} {st : VMState} {w : World}

theorem mem_writeRecord {row : VMState} (member : row ∈ writeRecord kind records st) :
    row ∈ records ∨ row.state = st.state := by
  unfold writeRecord at member
  split at member
  · obtain ⟨old, inRecords, rfl⟩ := mem_map.mp member
    split
    · cases kind <;> exact .inr rfl
    · exact .inl inRecords
  · rcases mem_append.mp member with old | new
    · exact .inl old
    · exact .inr (by rw [mem_singleton.mp new])

theorem writeRecord_nodup (st : VMState) (nodup : (records.map VMState.id).Nodup) :
    ((writeRecord kind records st).map VMState.id).Nodup := by
  rw [writeRecord_ids]
  split
  · exact nodup
  · rename_i fresh
    exact nodup_append.mpr ⟨nodup, nodup_singleton _, fun id member other new same =>
      fresh (by rw [mem_singleton.mp new] at same; exact same ▸ member)⟩

theorem Shared.Recorded.update {s : Shared} (recorded : s.Recorded) (p : Ref)
    {change : VM → VM}
    (kept : ∀ v, knownState v.state = true → knownState (change v).state = true) :
    (s.update p change).Recorded where
  vm_known q :=
    update_vm_invariant (fun v => knownState v.state = true) kept (recorded.vm_known q)
  record_known := recorded.record_known
  ids_nodup := recorded.ids_nodup

theorem Shared.Recorded.act {s : Shared} (recorded : s.Recorded) (a : Action) :
    (s.act a).Recorded := by
  cases a with
  | transition p target => exact recorded.update p fun v => moveTo_known target
  | assignTap p => exact recorded.update p fun v known => by rwa [withTap_state]
  | attach p _ _ | setExplicitStop p | setRestartCount p _ | markStopped p _ =>
    simp only [Shared.act]
    exact recorded.update p fun v known => known
  | launch p =>
    refine ⟨fun q => ?_, recorded.record_known, recorded.ids_nodup⟩
    rw [act_launch_vm]
    exact recorded.vm_known q
  | register id cfg now parent cause =>
    refine ⟨fun q => ?_, recorded.record_known, recorded.ids_nodup⟩
    by_cases new : q = s.heapNext
    · subst new
      simp [Shared.act, Shared.vm, Shared.newObject, newVM, knownState]
    · have same : (s.act (.register id cfg now parent cause)).vm q = s.vm q := by
        simp [Shared.act, Shared.vm, Function.update_of_ne new]
      rw [same]
      exact recorded.vm_known q
  | save p =>
    simp only [Shared.act]
    split
    · refine ⟨recorded.vm_known, fun st member => ?_, writeRecord_nodup _ recorded.ids_nodup⟩
      rcases mem_writeRecord member with old | same
      · exact recorded.record_known st old
      · rw [same]
        exact recorded.vm_known p
    · exact recorded
  | remove id =>
    refine ⟨recorded.vm_known, fun st member =>
      recorded.record_known st (mem_of_mem_filter member), ?_⟩
    exact recorded.ids_nodup.sublist (filter_sublist.map _)
  | _ => exact { recorded with }

theorem Shared.Recorded.perform (recorded : w.Recorded) (t : ThreadId) (rest : List Frame)
    (m : Move) : (w.perform t rest m).Recorded := by
  rw [perform_toShared]
  exact { recorded.act m.action with }

/-! ### Restored VMs -/

/-- The lifecycle can go on from here: the VM was never started, runs with a
live process that the daemon holds, or is stopped, as its done channel tells. -/
structure Settled (host : Host) (v : VM) : Prop where
  state : v.state = .created ∨
    (v.state = .running ∧ v.hasProc = true ∧ host.survived v.pid v.id = true) ∨
    v.state = .stopped
  done : v.done = true ↔ v.state = .stopped

theorem recoverVM_settled (host : Host) {v : VM} (pid : Nat) (notDone : v.done = false) :
    Settled host (recoverVM host v pid) := by
  unfold recoverVM
  split
  · rename_i survived
    exact ⟨.inr (.inl ⟨rfl, rfl, survived⟩), by simp [notDone]⟩
  · exact ⟨.inr (.inr rfl), by simp⟩

theorem restoreVM_settled (host : Host) (known : knownState st.state = true)
    (notStopping : st.state ≠ .stopping) : Settled host (restoreVM host st) := by
  unfold restoreVM
  cases state : st.state with
  | created => exact ⟨.inl state, by simp [loadVM, state]⟩
  | starting => exact recoverVM_settled host st.pid rfl
  | running => exact recoverVM_settled host st.pid rfl
  | stopping => exact absurd state notStopping
  | stopped => exact ⟨.inr (.inr state), by simp [loadVM, state]⟩
  | unknown text => simp [state, knownState] at known

theorem restoreVM_stopping (host : Host) (stopping : st.state = .stopping) :
    (restoreVM host st).state = .stopping := by
  simp [restoreVM, stopping, loadVM]

theorem restoreVM_known (host : Host) (known : knownState st.state = true) :
    knownState (restoreVM host st).state = true := by
  by_cases stopping : st.state = .stopping
  · rw [restoreVM_stopping host stopping]
    rfl
  · rcases (restoreVM_settled host known stopping).state with same | ⟨same, -⟩ | same <;>
      rw [same] <;> rfl

theorem restoreAll_eq_map (host : Host) (nodup : (records.map VMState.id).Nodup) :
    restoreAll host records = records.map fun st => (st.id, restoreVM host st) := by
  have general (records : List VMState) (vms : List (String × VM))
      (distinct : (vms.map Prod.fst ++ records.map VMState.id).Nodup) :
      records.foldl (fun vms st => putVM vms (restoreVM host st)) vms =
        vms ++ records.map fun st => (st.id, restoreVM host st) := by
    induction records generalizing vms with
    | nil => simp
    | cons st rest ih =>
      have new : st.id ∉ vms.map Prod.fst := by
        intro member
        rw [map_cons, nodup_append] at distinct
        exact distinct.2.2 _ member _ mem_cons_self rfl
      have put : putVM vms (restoreVM host st) = vms ++ [(st.id, restoreVM host st)] := by
        rw [putVM, restoreVM_id, filter_eq_self.mpr]
        intro entry member
        simpa using fun same => new (mem_map.mpr ⟨entry, member, same⟩)
      rw [foldl_cons, put, ih]
      · simp
      · simpa [append_assoc] using distinct
  exact general records [] (by simpa using nodup)

theorem mem_persistRecovered {vms : List (String × VM)} {row : VMState}
    (member : row ∈ persistRecovered kind records vms) :
    row ∈ records ∨ ∃ entry ∈ vms, row.state = entry.2.state := by
  unfold persistRecovered at member
  have general (chosen : List (String × VM)) (records : List VMState)
      (member : row ∈ chosen.foldl
        (fun records entry => writeRecord kind records entry.2.snapshot) records) :
      row ∈ records ∨ ∃ entry ∈ chosen, row.state = entry.2.state := by
    induction chosen generalizing records with
    | nil => exact .inl member
    | cons entry rest ih =>
      rcases ih _ member with written | ⟨later, inRest, same⟩
      · rcases mem_writeRecord written with old | same
        · exact .inl old
        · exact .inr ⟨entry, mem_cons_self, same⟩
      · exact .inr ⟨later, mem_cons_of_mem _ inRest, same⟩
  rcases general _ records member with old | ⟨entry, chosen, same⟩
  · exact .inl old
  · exact .inr ⟨entry, mem_of_mem_filter chosen, same⟩

theorem persistRecovered_nodup (vms : List (String × VM)) (nodup : (records.map VMState.id).Nodup) :
    ((persistRecovered kind records vms).map VMState.id).Nodup := by
  unfold persistRecovered
  generalize (vms.filter fun entry => entry.2.daemonRecovered) = chosen
  induction chosen generalizing records with
  | nil => exact nodup
  | cons entry rest ih => exact ih (writeRecord_nodup _ nodup)

theorem restore_vm {host : Host} {p : Nat} {entry : String × VM}
    (found : (w.restored host)[p]? = some entry) : (w.restore host).vm p = entry.2 := by
  simp [World.restore, Shared.vm, found, restoredObject]

theorem Shared.Recorded.restored_known (recorded : w.Recorded) {host : Host} {entry : String × VM}
    (member : entry ∈ w.restored host) :
    knownState entry.2.state = true := by
  rw [World.restored, restoreAll_eq_map host recorded.ids_nodup] at member
  obtain ⟨st, inRecords, rfl⟩ := mem_map.mp member
  exact restoreVM_known host (recorded.record_known st inRecords)

theorem Shared.Recorded.restore (recorded : w.Recorded) (host : Host) :
    (w.restore host).Recorded where
  vm_known p := by
    cases found : (w.restored host)[p]? with
    | none => simp [World.restore, Shared.vm, found, newVM, knownState]
    | some entry =>
      rw [restore_vm found]
      exact recorded.restored_known (mem_of_getElem? found)
  record_known st member := by
    rcases mem_persistRecovered member with old | ⟨entry, restored, same⟩
    · exact recorded.record_known st old
    · rw [same]
      exact recorded.restored_known restored
  ids_nodup := persistRecovered_nodup _ recorded.ids_nodup

theorem recorded_of_reachable (reached : crashSystem.Reachable w) : w.Recorded := by
  have initially : ∀ w : World, crashSystem.initial w → w.Recorded := by
    rintro w ⟨kind, networks, sha256Hex, -, rfl⟩
    exact ⟨fun _ => rfl, by simp [World.initial], by simp [World.initial]⟩
  refine reached.invariant initially ?_
  intro w label target recorded stepped
  cases label with
  | crash host =>
    cases stepped
    exact recorded.restore host
  | daemon label =>
    rcases step_cases stepped with ⟨call, rfl, rfl⟩ |
      ⟨t, choice, frame, rest, m, rfl, stack, moved, rfl⟩ | ⟨heap, observed, rfl⟩
    · exact { recorded with }
    · exact recorded.perform t rest m
    · refine { recorded with vm_known := fun q => ?_ }
      exact (congrArg (fun v => knownState v.state) (observed q).2).trans (recorded.vm_known q)

end Jerboa.Daemon
