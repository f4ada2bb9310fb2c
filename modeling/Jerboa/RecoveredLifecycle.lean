import Jerboa.CrashRecovery

/-!
# The lifecycle of a restored VM

A VM that a restore leaves created, running with an adopted process or stopped
can be taken through Stop, the exit of its process and Remove.  A VM whose
record says stopping is stuck: no goroutine waits for its process, Stop and
Remove both refuse it.
-/

namespace Jerboa.Daemon

open Vm List

def Label.concerns (p : Ref) : Label → Bool
  | .thread _ _ => true
  | .exit q _ _ => q = p
  | _ => false

/-- Moves of goroutines and the exit of the VM's process lead from one state to
another. -/
def World.Leads (p : Ref) (w target : World) : Prop :=
  ∃ labels, (∀ label ∈ labels, label.concerns p = true) ∧ system.run w labels = some target

/-- Stop, the exit of the process and Remove can take the VM out of the
registry.  A VM that was never started has nothing to stop. -/
def World.CanStopAndRemove (w : World) (id : String) (p : Ref) : Prop :=
  ∃ middle final,
    World.Leads p (w.spawn (ApiCall.stop false id).frame) middle ∧
    ((w.vm p).state ≠ .created → (middle.vm p).state = .stopped) ∧
    World.Leads p (middle.spawn (ApiCall.remove id).frame) final ∧
    final.get id = none

/-- Moves of goroutines and the exit of the VM's process can bring about a
property. -/
def World.CanReach (p : Ref) (goal : World → Prop) (w : World) : Prop :=
  ∃ target, World.Leads p w target ∧ goal target

variable {w target : World} {s : Shared} {id : String} {p : Nat} {v : VM} {process : Process}
  {t u : Nat} {frame : Frame} {rest : List Frame} {m : Move} {goal : World → Prop}

theorem World.CanReach.here (reached : goal w) : World.CanReach p goal w :=
  ⟨w, ⟨[], by simp, rfl⟩, reached⟩

theorem World.CanReach.step {label : Label} {next : World} (concerned : label.concerns p = true)
    (stepped : system.step w label = some next) (later : World.CanReach p goal next) :
    World.CanReach p goal w := by
  obtain ⟨target, ⟨labels, concern, ran⟩, reached⟩ := later
  refine ⟨target, ⟨label :: labels, forall_mem_cons.mpr ⟨concerned, concern⟩, ?_⟩, reached⟩
  rw [TransitionSystem.run_cons, stepped]
  exact ran

theorem World.CanReach.move {choice : Choice} (stack : w.threads t = frame :: rest)
    (moved : frame.move w.toShared t choice = some m)
    (later : World.CanReach p goal (w.perform t rest m)) : World.CanReach p goal w := by
  have stepped : system.step w (.thread t choice) = some (w.perform t rest m) := by
    simp [system, World.step, stack, moved]
  exact .step rfl stepped later

/-! ### What the runs look at -/

/-- A registered VM with the value of its object and its process. -/
structure Shared.Tracks (s : Shared) (id : String) (p : Ref) (v : VM) (process : Process) :
    Prop where
  get : s.get id = some p
  vm : s.vm p = v
  process : (s.heap p).process = process

theorem Shared.Tracks.update (tracks : s.Tracks id p v process) (change : VM → VM) :
    (s.update p change).Tracks id p (change v) process where
  get := tracks.get
  vm := by rw [update_vm_self, tracks.vm]
  process := by simp [Shared.update, tracks.process]

theorem Shared.Tracks.save (tracks : s.Tracks id p v process) (q : Ref) :
    (s.act (.save q)).Tracks id p v process := by
  simp only [Shared.act]
  split
  · exact { tracks with }
  · exact tracks

theorem Shared.Tracks.exited (tracks : w.Tracks id p v process) (waitErr : WaitErr)
    (stderr : String) : (w.exited p waitErr stderr).Tracks id p v (.exited waitErr stderr) where
  get := tracks.get
  vm := by rw [exited_vm, tracks.vm]
  process := by simp [World.exited]

theorem perform_threads_self (alone : m.spawn = none) :
    (w.perform t rest m).threads t = m.outcome.stack rest := by
  simp [World.perform, alone]

theorem perform_threads_ne (alone : m.spawn = none) (different : u ≠ t) :
    (w.perform t rest m).threads u = w.threads u := by
  simp [World.perform, alone, Function.update_of_ne different]

theorem spawn_threads_self (w : World) (frame : Frame) :
    (w.spawn frame).threads w.threadNext = [frame] := by
  simp [World.spawn]

theorem spawn_threads_ne (w : World) (frame : Frame) (different : u ≠ w.threadNext) :
    (w.spawn frame).threads u = w.threads u := by
  simp [World.spawn, Function.update_of_ne different]

theorem Shared.Tracks.resolve (tracks : s.Tracks id p v process) (pick : Nat) :
    s.resolve id pick = some p :=
  Shared.resolve_of_get tracks.get pick

theorem World.CanReach.goto (action : Action) (next : Frame) (stack : w.threads t = [frame])
    (moved : frame.move w.toShared t (.success 0) = some ⟨action, [], none, .goto next⟩)
    (tracks : (w.toShared.act action).Tracks id p v process)
    (later : ∀ w', w'.threads t = [next] → (∀ u ≠ t, w'.threads u = w.threads u) →
      w'.Tracks id p v process → World.CanReach p goal w') : World.CanReach p goal w :=
  .move stack moved (later _ (perform_threads_self rfl) (fun _ => perform_threads_ne rfl)
    { tracks with })

theorem get_remove (s : Shared) (id : String) : (s.act (.remove id)).get id = none := by
  simp [Shared.act, Shared.get, find?_eq_none]

theorem World.canReach_removed (tracks : w.Tracks id p v process) (identity : v.id = id)
    (state : v.state = .stopped ∨ v.state = .created) :
    World.CanReach p (fun final => final.get id = none)
      (w.spawn (ApiCall.remove id).frame) := by
  have resolved := tracks.resolve (Choice.success 0).pick
  refine .goto .skip (.remove (.check p)) (spawn_threads_self w _)
    (by simp [ApiCall.frame, Frame.move, RemovePc.move, World.spawn, resolved]) tracks
    fun w₁ stack₁ _ tracks₁ => ?_
  refine .goto .skip (.remove (.delete p)) stack₁
    (by simp [Frame.move, RemovePc.move, tracks₁.vm, state]) tracks₁
    fun w₂ stack₂ _ tracks₂ => ?_
  have moved : (Frame.remove (.delete p)).move w₂.toShared w.threadNext (.success 0) =
      some ⟨.remove id, [.returned p], none, .ret (.ok true)⟩ := by
    simp [Frame.move, RemovePc.move, tracks₂.vm, identity, tracks₂.get, Choice.success]
  refine .move stack₂ moved (.here ?_)
  rw [perform_toShared]
  exact get_remove w₂.toShared id

/-! ### Stop -/

theorem World.CanReach.stop (tracks : w.Tracks id p v process)
    (later : ∀ w', w'.threads w.threadNext = [.stop false (.check p)] →
      (∀ u ≠ w.threadNext, w'.threads u = w.threads u) → w'.Tracks id p v process →
        World.CanReach p goal w') :
    World.CanReach p goal (w.spawn (ApiCall.stop false id).frame) := by
  have resolved := tracks.resolve (Choice.success 0).pick
  refine .goto .skip (.stop false (.check p)) (spawn_threads_self w _)
    (by simp [ApiCall.frame, Frame.move, StopPc.move, World.spawn, resolved]) tracks
    fun w' stack others tracks' => later w' stack (fun u different => ?_) tracks'
  rw [others u different, spawn_threads_ne w _ different]

theorem World.canReach_stopped_of_stopped (tracks : w.Tracks id p v process)
    (stopped : v.state = .stopped) :
    World.CanReach p (fun middle => middle.Tracks id p v process)
      (w.spawn (ApiCall.stop false id).frame) := by
  refine .stop tracks fun w₁ stack₁ _ tracks₁ => ?_
  have moved : (Frame.stop false (.check p)).move w₁.toShared w.threadNext (.success 0) =
      some ⟨.skip, [.returned p], none, .ret (.ok true)⟩ := by
    simp [Frame.move, StopPc.move, tracks₁.vm, stopped]
  exact .move stack₁ moved (.here { tracks₁ with })

theorem World.canReach_refused_of_created (tracks : w.Tracks id p v process)
    (created : v.state = .created) :
    World.CanReach p (fun middle => middle.Tracks id p v process)
      (w.spawn (ApiCall.stop false id).frame) := by
  refine .stop tracks fun w₁ stack₁ _ tracks₁ => ?_
  refine .goto .skip (.stop false (.transition p)) stack₁
    (by simp [Frame.move, StopPc.move, tracks₁.vm, created]) tracks₁
    fun w₂ stack₂ _ tracks₂ => ?_
  have moved : (Frame.stop false (.transition p)).move w₂.toShared w.threadNext (.success 0) =
      some ⟨.skip, [], none, .ret (.ok false)⟩ := by
    simp [Frame.move, StopPc.move, tracks₂.vm, created, validTransitions]
  exact .move stack₂ moved (.here { tracks₂ with })

theorem World.canReach_stopped_of_adopted (tracks : w.Tracks id p v .alive)
    (running : v.state = .running) (hasProc : v.hasProc = true)
    (adopted : w.threads u = [.adoptMonitor (.poll p)]) (started : u ≠ w.threadNext) :
    World.CanReach p (fun middle => ∃ stopped process, middle.Tracks id p stopped process ∧
        stopped.id = v.id ∧ stopped.state = .stopped)
      (w.spawn (ApiCall.stop false id).frame) := by
  refine .stop tracks fun w₁ stack₁ others₁ tracks₁ => ?_
  refine .goto .skip (.stop false (.transition p)) stack₁
    (by simp [Frame.move, StopPc.move, tracks₁.vm, running]) tracks₁
    fun w₂ stack₂ others₂ tracks₂ => ?_
  refine .goto (.transition p .stopping) (.stop false (.save p)) stack₂
    (by simp [Frame.move, StopPc.move, tracks₂.vm, running, validTransitions])
    (tracks₂.update (moveTo .stopping)) fun w₃ stack₃ others₃ tracks₃ => ?_
  refine .goto (.save p) (.stop false (.flag p)) stack₃
    (by simp [Frame.move, StopPc.move, Choice.success]) (tracks₃.save p)
    fun w₄ stack₄ others₄ tracks₄ => ?_
  refine .goto (.setExplicitStop p) (.stop false (.signal p)) stack₄ rfl
    (tracks₄.update fun v => { v with explicitStop := true })
    fun w₅ stack₅ others₅ tracks₅ => ?_
  have stopping : moveTo .stopping v = { v with state := .stopping } := by
    simp [moveTo, VM.transition, running, validTransitions]
  rw [stopping] at tracks₅
  refine .goto .skip (.stop false (.wait p)) stack₅
    (by simp [Frame.move, StopPc.move, tracks₅.vm, hasProc, Choice.success]) tracks₅
    fun w₆ stack₆ others₆ tracks₆ => ?_
  have exits : system.step w₆ (.exit p .clean "") = some (w₆.exited p .clean "") := by
    simp [system, World.step, tracks₆.process]
  have tracks₇ := tracks₆.exited .clean ""
  refine .step (by simp [Label.concerns]) exits ?_
  have polling : (w₆.exited p .clean "").threads u = [.adoptMonitor (.poll p)] := by
    have kept : w₆.threads u = w.threads u := by
      rw [others₆ u started, others₅ u started, others₄ u started, others₃ u started,
        others₂ u started, others₁ u started]
    exact kept.trans adopted
  refine .goto .skip (.adoptMonitor (.stop p)) polling
    (by simp [Frame.move, AdoptPc.move, tracks₇.process]) tracks₇
    fun w₈ stack₈ others₈ tracks₈ => ?_
  refine .goto (.transition p .stopped) (.adoptMonitor (.save p)) stack₈ rfl
    (tracks₈.update (moveTo .stopped)) fun w₉ _ others₉ tracks₉ => ?_
  have waiting : w₉.threads w.threadNext = [.stop false (.wait p)] := by
    rw [others₉ _ (Ne.symm started), others₈ _ (Ne.symm started)]
    exact stack₆
  have moved : (Frame.stop false (.wait p)).move w₉.toShared w.threadNext (.success 0) =
      some ⟨.skip, [.returned p], none, .ret (.ok true)⟩ := by
    simp [Frame.move, StopPc.move, tracks₉.vm, Choice.success, moveTo, VM.transition, validTransitions]
  refine .move waiting moved (.here ⟨_, _, { tracks₉ with }, ?_, ?_⟩)
  · rw [moveTo_id]
  · simp [moveTo, VM.transition, validTransitions]

/-! ### Every restored VM -/

/-- What a crash is expected to leave: every restored VM is settled and can be
stopped and removed. -/
def World.RestoresSettled (host : Host) (w : World) : Prop :=
  ∀ entry ∈ (w.restore host).vms,
    Settled host ((w.restore host).vm entry.2) ∧
      (w.restore host).CanStopAndRemove entry.1 entry.2

theorem Shared.Recorded.restored_eq (recorded : w.Recorded) (host : Host) :
    w.restored host = w.records.map fun st => (st.id, restoreVM host st) :=
  restoreAll_eq_map host recorded.ids_nodup

theorem restore_keys (w : World) (host : Host) :
    (w.restore host).vms.map Prod.fst = (w.restored host).map Prod.fst := by
  refine ext_getElem? fun p => ?_
  simp only [World.restore, getElem?_map, getElem?_mapIdx, Option.map_map]
  rfl

variable {host : Host} {st : VMState}

section

variable (recorded : w.Recorded)

include recorded

variable {p : Ref}

theorem Shared.Recorded.mem_restore_vms {id : String} :
    (id, p) ∈ (w.restore host).vms ↔
      ∃ st, w.records[p]? = some st ∧ st.id = id := by
  simp only [World.restore, recorded.restored_eq host, mem_iff_getElem?,
    getElem?_mapIdx, getElem?_map, Option.map_map, Option.map_eq_some_iff]
  constructor
  · rintro ⟨q, st, found, same⟩
    simp only [Function.comp_apply, Prod.mk.injEq] at same
    obtain ⟨rfl, rfl⟩ := same
    exact ⟨st, found, rfl⟩
  · rintro ⟨st, found, rfl⟩
    exact ⟨p, st, found, rfl⟩

theorem Shared.Recorded.restored_at (found : w.records[p]? = some st) :
    (w.restored host)[p]? = some (st.id, restoreVM host st) := by
  simp [recorded.restored_eq host, found]

theorem Shared.Recorded.restore_vm (found : w.records[p]? = some st) :
    (w.restore host).vm p = restoreVM host st :=
  Daemon.restore_vm (recorded.restored_at found)

theorem Shared.Recorded.restore_tracks (host : Host)
    (found : w.records[p]? = some st) :
    (w.restore host).Tracks st.id p (restoreVM host st)
      (if (restoreVM host st).hasProc then .alive else .none) where
  get := by
    refine get_of_mem_vms ?_ (recorded.mem_restore_vms.mpr ⟨st, found, rfl⟩)
    rw [restore_keys, recorded.restored_eq host, map_map]
    exact recorded.ids_nodup
  vm := recorded.restore_vm found
  process := by simp [World.restore, recorded.restored_at found, restoredObject]

theorem Shared.Recorded.exists_adoptMonitor
    (found : w.records[p]? = some st) (adopted : (restoreVM host st).hasProc = true) :
    ∃ u, u ≠ (w.restore host).threadNext ∧
      (w.restore host).threads u = [.adoptMonitor (.poll p)] := by
  obtain ⟨inBounds, same⟩ := List.getElem?_eq_some_iff.mp
    (show (w.restored host)[p]? = _ from recorded.restored_at found)
  have member : p ∈ adoptedRefs (w.restored host) := by
    simp [adoptedRefs, mem_filter, same, adopted, inBounds]
  obtain ⟨u, there⟩ := mem_iff_getElem?.mp member
  obtain ⟨below, -⟩ := List.getElem?_eq_some_iff.mp there
  exact ⟨u, Nat.ne_of_lt below, by simp [World.restore, there]⟩

theorem Shared.Recorded.canReach_stopped
    (found : w.records[p]? = some st) (settled : Settled host (restoreVM host st)) :
    World.CanReach p (fun middle => ∃ v process, middle.Tracks st.id p v process ∧
        v.id = st.id ∧ (v.state = .stopped ∨
          (v.state = .created ∧ (restoreVM host st).state = .created)))
      ((w.restore host).spawn (ApiCall.stop false st.id).frame) := by
  have tracks := recorded.restore_tracks host found
  rcases settled.state with created | ⟨running, hasProc, -⟩ | stopped
  · obtain ⟨middle, leads, kept⟩ := World.canReach_refused_of_created tracks created
    exact ⟨middle, leads, _, _, kept, restoreVM_id host st, .inr ⟨created, created⟩⟩
  · obtain ⟨u, started, polling⟩ := recorded.exists_adoptMonitor found hasProc
    rw [if_pos hasProc] at tracks
    obtain ⟨middle, leads, v, process, kept, identity, stopped⟩ :=
      World.canReach_stopped_of_adopted tracks running hasProc polling started
    exact ⟨middle, leads, v, process, kept, identity.trans (restoreVM_id host st),
      .inl stopped⟩
  · obtain ⟨middle, leads, kept⟩ := World.canReach_stopped_of_stopped tracks stopped
    exact ⟨middle, leads, _, _, kept, restoreVM_id host st, .inl stopped⟩

theorem Shared.Recorded.canStopAndRemove
    (found : w.records[p]? = some st) (settled : Settled host (restoreVM host st)) :
    (w.restore host).CanStopAndRemove st.id p := by
  obtain ⟨middle, leads, v, process, tracks, identity, state⟩ :=
    recorded.canReach_stopped found settled
  obtain ⟨final, removing, removed⟩ :=
    World.canReach_removed tracks identity (state.imp_right And.left)
  refine ⟨middle, final, leads, fun ran => ?_, removing, removed⟩
  rw [recorded.restore_vm found] at ran
  rw [tracks.vm]
  exact state.resolve_right fun created => ran created.2

theorem Shared.Recorded.not_restoresSettled (found : w.records[p]? = some st)
    (stopping : st.state = .stopping) : ¬w.RestoresSettled host := by
  intro settles
  have settled := (settles (st.id, p) (recorded.mem_restore_vms.mpr ⟨st, found, rfl⟩)).1
  rw [recorded.restore_vm found] at settled
  have state := settled.state
  simp [restoreVM_stopping host stopping] at state

end

/-- After a crash anywhere in a run, every VM comes back settled, ready to be
stopped and removed, exactly when no record says stopping. -/
theorem restoresSettled_iff (reached : crashSystem.Reachable w) (host : Host) :
    w.RestoresSettled host ↔ ∀ st ∈ w.records, st.state ≠ .stopping := by
  have recorded := recorded_of_reachable reached
  constructor
  · intro settles st member stopping
    obtain ⟨p, found⟩ := mem_iff_getElem?.mp member
    exact recorded.not_restoresSettled found stopping settles
  · rintro noneStopping ⟨id, p⟩ member
    obtain ⟨st, found, rfl⟩ := recorded.mem_restore_vms.mp member
    have inRecords := mem_of_getElem? found
    have settled := restoreVM_settled host (recorded.record_known st inRecords)
      (noneStopping st inRecords)
    refine ⟨?_, recorded.canStopAndRemove found settled⟩
    rw [recorded.restore_vm found]
    exact settled

/-! ### Two crashes -/

def noProcesses : Host where
  processAlive _ := false
  processOwnsVM _ _ := false
  now := 0

theorem crashReachable_of_reachable (reached : system.Reachable w) : crashSystem.Reachable w := by
  induction reached with
  | start first => exact .start first
  | @next state target label previous _ stepped ih =>
    have daemonStep : crashSystem.step state (.daemon label) = some target := stepped
    exact ih.next daemonStep

theorem crashReachable_of_run {kind : StoreKind} {labels : List Label}
    (ran : system.run (World.initial kind []) labels = some w) : crashSystem.Reachable w :=
  crashReachable_of_reachable (.run (reachableUnder_initial _ kind) ran)

theorem restoresSettled_iff_createAndStart :
    ∃ w, system.run (World.initial .file []) createAndStart = some w ∧
      w.records.map VMState.state = [.running] ∧ w.RestoresSettled noProcesses := by
  have ran : ((system.run (World.initial .file []) createAndStart).map fun w =>
      w.records.map VMState.state) = some [.running] := by
    decide
  obtain ⟨w, run, states⟩ := Option.map_eq_some_iff.mp ran
  refine ⟨w, run, states, (restoresSettled_iff (crashReachable_of_run run) _).mpr ?_⟩
  intro st member stopping
  have inStates := mem_map_of_mem (f := VMState.state) member
  simp [states, stopping] at inStates

def crashInStop : List Label :=
  createAndStart ++ [.call (.stop false "000000000000")] ++ movesOf 3 4

/-- The VM comes back in state stopping, which nothing leaves. -/
theorem stopping_vm_not_settled :
    system.initial (World.initial .file []) ∧
      ∃ w, system.run (World.initial .file []) crashInStop = some w ∧
        ¬ w.RestoresSettled noProcesses := by
  refine ⟨⟨.file, [], id, .start rfl, rfl⟩, ?_⟩
  have ran : ((system.run (World.initial .file []) crashInStop).map fun w =>
      w.records.map VMState.state) = some [.stopping] := by
    decide
  obtain ⟨w, run, states⟩ := Option.map_eq_some_iff.mp ran
  have recorded := recorded_of_reachable (crashReachable_of_run run)
  obtain ⟨st, one, stopping⟩ := map_eq_singleton_iff.mp states
  have found : w.records[0]? = some st := by simp [one]
  exact ⟨w, run, recorded.not_restoresSettled found stopping⟩

/-! ### The done channel -/

def DoneAgrees (v : VM) : Prop :=
  v.done = true ↔ v.state = .stopped

def Shared.DoneAgree (s : Shared) : Prop :=
  ∀ p, DoneAgrees (s.vm p)

theorem DoneAgrees.moveTo (target : State) (v : VM) (agrees : DoneAgrees v) :
    DoneAgrees (moveTo target v) := by
  rcases moveTo_cases target v with same | ⟨valid, same⟩
  · rwa [same]
  · have running : v.state ≠ .stopped := by
      intro stopped
      simp [stopped, validTransitions] at valid
    have isOpen : v.done = false := by simpa [DoneAgrees, running] using agrees
    simp [same, DoneAgrees, isOpen]

theorem DoneAgrees.withTap (v : VM) (agrees : DoneAgrees v) : DoneAgrees (withTap v) := by
  unfold Daemon.withTap
  split <;> exact agrees

theorem DoneAgrees.restoreVM (host : Host) (st : VMState) : DoneAgrees (restoreVM host st) := by
  cases state : st.state with
  | stopping | unknown => simp [DoneAgrees, Vm.restoreVM, state, loadVM]
  | _ => exact (restoreVM_settled host (by simp [state, knownState]) (by simp [state])).done

theorem Shared.DoneAgree.act {s : Shared} (agree : s.DoneAgree) (a : Action) :
    (s.act a).DoneAgree := by
  intro p
  cases a with
  | transition _ target => exact update_vm_invariant DoneAgrees (.moveTo target) (agree p)
  | assignTap => exact update_vm_invariant DoneAgrees .withTap (agree p)
  | attach | setExplicitStop | setRestartCount | markStopped =>
    simp only [Shared.act]
    exact update_vm_invariant DoneAgrees (fun _ agrees => agrees) (agree p)
  | launch =>
    rw [act_launch_vm]
    exact agree p
  | register =>
    by_cases new : p = s.heapNext
    · subst new
      simp [DoneAgrees, Shared.act, Shared.vm, Shared.newObject, newVM]
    · simpa [Shared.act, Shared.vm, Function.update_of_ne new] using agree p
  | save =>
    simp only [Shared.act]
    split <;> exact agree p
  | _ => exact agree p

/-- Whatever calls, exits and crashes there are, the done channel of a VM is closed
exactly when the VM is stopped, so no transition closes it a second time. -/
theorem done_closed_once (reached : crashSystem.Reachable w) (p : Ref) :
    ((w.vm p).done = true ↔ (w.vm p).state = .stopped) ∧
      ∀ target ∈ validTransitions (w.vm p).state, (w.vm p).done = false := by
  have initially : ∀ w : World, crashSystem.initial w → w.DoneAgree := by
    rintro w ⟨kind, networks, sha256Hex, -, rfl⟩ p
    simp [DoneAgrees, World.initial, Shared.vm, newVM]
  have agree : w.DoneAgree := by
    refine TransitionSystem.ReachableUnder.invariant initially ?_ reached
    intro w label target earlier agree _ stepped p
    cases label with
    | crash host =>
      cases stepped
      cases found : (w.restored host)[p]? with
      | none => simp [DoneAgrees, World.restore, Shared.vm, found, newVM]
      | some entry =>
        rw [restore_vm found]
        have member := mem_of_getElem? found
        rw [World.restored,
          restoreAll_eq_map host (recorded_of_reachable earlier).ids_nodup] at member
        obtain ⟨st, -, rfl⟩ := mem_map.mp member
        exact .restoreVM host st
    | daemon label =>
      rcases step_cases stepped with ⟨call, rfl, rfl⟩ |
        ⟨t, choice, frame, rest, m, rfl, stack, moved, rfl⟩ | ⟨heap, observed, rfl⟩
      · exact agree p
      · rw [perform_vm]
        exact agree.act m.action p
      · rw [DoneAgrees, Shared.vm, (observed p).2]
        exact agree p
  refine ⟨agree p, fun target valid => ?_⟩
  rw [Bool.eq_false_iff]
  intro done
  simp [(agree p).mp done, validTransitions] at valid

theorem done_closed_once_createAndStart :
    ∃ w, system.run (World.initial .file []) createAndStart = some w ∧
      (w.vm 0).state = .running ∧ (w.vm 0).done = false := by
  have ran : ((system.run (World.initial .file []) createAndStart).map fun w =>
      (w.vm 0).state) = some .running := by
    decide
  obtain ⟨w, run, running⟩ := Option.map_eq_some_iff.mp ran
  refine ⟨w, run, running, (done_closed_once (crashReachable_of_run run) 0).2 .stopped ?_⟩
  rw [running]
  decide

end Jerboa.Daemon
