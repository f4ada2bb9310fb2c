import Jerboa.RunProgress

/-!
# Orderly runs of the server

While every registration draws a fresh ID and every replacement takes the place
of a registered VM whose lineage is stopped, the lineages stay as they should
be through all moves of the server's handlers and the manager's goroutines.
-/

namespace Jerboa.Daemon

open Vm NetworkStore

variable {w : World} {t : ThreadId} {choice : Choice} {top : Frame} {rest : List Frame}
  {m : Move}

/-! ### Registrations -/

variable {cause : Cause} {cfg : Config} {s : Shared} {networks : Store} {frame : Frame}

theorem Shared.DrawsFresh.freshID (lineage : s.Lineage) {parent : Option Ref}
    (six : choice.bytes.length = 6) (fresh : s.DrawsFresh (newID choice.bytes) cfg parent)
    (known : ∀ old ∈ parent, old < s.heapNext)
    (sound : (Frame.create (.register cfg parent cause)).Sound s) :
    s.FreshID (newID choice.bytes) cfg where
  isID := ⟨choice.bytes, six, rfl⟩
  ids q knownQ := (fresh.1 q knownQ).1
  names q knownQ := (fresh.1 q knownQ).2
  ownName := fresh.2.1
  newName q knownQ := by
    cases parent with
    | none => exact fresh.2.2 rfl q knownQ
    | some old =>
      rw [sound.1.name]
      exact lineage.names_apart old q (known old rfl) knownQ

/-- A VM without a parent is created by a Run request that has checked its name
and reserved its address. -/
theorem World.Orderly.founder (orderly : w.Orderly)
    (stack : w.threads t = .create (.register cfg none cause) :: rest) : w.Joins cfg none := by
  have shape := orderly.shape t
  have atStage := orderly.stages t
  have noTap := orderly.sound t _ (World.Orderly.top_mem stack)
  rw [stack] at shape atStage
  obtain ⟨caller, rfl, calls⟩ := shape.caller rfl
  cases calls with
  | runCreating config parent =>
    obtain rfl : cfg = _ := config
    obtain ⟨reserved, nameFree⟩ := atStage
    exact .founder orderly.lineage orderly.grounded.registered_lt noTap nameFree
      reserved.unused reserved.taken
  | restartCreating parent => simp [CreatePc.HasParent] at parent
  | startCreating parent => simp [CreatePc.HasParent] at parent

theorem World.Orderly.joins (orderly : w.Orderly) {parent : Option Ref}
    (stack : w.threads t = .create (.register cfg parent cause) :: rest)
    (replaceable : ∀ old ∈ parent, w.Replaceable old) : w.Joins cfg parent := by
  cases parent with
  | none => exact orderly.founder stack
  | some old =>
    obtain ⟨⟨entry, registered, rfl⟩, stopped⟩ := replaceable old rfl
    obtain ⟨same, tap⟩ := orderly.sound t _ (World.Orderly.top_mem stack)
    exact .replacement orderly.lineage orderly.grounded.registered_lt registered same tap stopped

/-! ### Network updates -/

theorem setNetworks_of_move (moved : top.move s t choice = some m)
    (action : m.action = .setNetworks networks) :
    (∃ name ip, allocateIP s.networks name = some (.ok (ip, networks))) ∨
      (∃ name ip, reserveIP s.networks name ip = .ok networks) ∨
      ∃ job, top = .handleRun (.release job) ∧ networks = releaseAssigned s.networks job := by
  have critical := (conduct_of_move moved).1.networks networks action
  cases top with
  | handleRun pc =>
    revert action moved
    simp only [Frame.move]
    fun_cases RunPc.move s t choice pc
    all_goals rintro action ⟨⟩
    case case11 p img n _ ip networks allocated _ =>
      cases action
      exact .inl ⟨_, _, allocated⟩
    case case13 p img n _ networks reserved =>
      cases action
      exact .inr (.inl ⟨_, _, reserved⟩)
    case case26 job =>
      exact .inr (.inr ⟨job, rfl, (Action.setNetworks.inj action).symm⟩)
    all_goals simp at action
  | handleStart pc =>
    revert action moved
    simp only [Frame.move]
    fun_cases HandleStartPc.move s t choice pc
    all_goals rintro action ⟨⟩
    all_goals simp at action
  | _ => simp [Frame.critical] at critical

/-- One network holds other addresses, among them those of its registered VMs. -/
theorem Shared.Lineage.readdressed (lineage : s.Lineage) {name : String} {ips now : List String}
    (held : heldIPs s.networks name = some ips)
    (after : ∀ other, heldIPs networks other =
      if other = name then some now else heldIPs s.networks other)
    (taken : ∀ e ∈ s.vms, (s.vm e.2).cfg.networkName = name → ∀ text ∈ ips,
      canonicalIP (s.vm e.2).cfg.ipAddress = some text → text ∈ now) :
    (s.act (.setNetworks networks)).Lineage := by
  refine lineage.setNetworks (fun other => ?_)
    fun e member old new before heldNow text inOld canonical => ?_
  · rw [after]
    split
    · rename_i same
      simp [same, held]
    · rfl
  · rw [after] at heldNow
    split at heldNow
    · rename_i same
      rw [same, held] at before
      cases before
      cases heldNow
      exact taken e member same text inOld canonical
    · rw [before] at heldNow
      exact Option.some.inj heldNow ▸ inOld

theorem Shared.Lineage.grown (lineage : s.Lineage) {name text : String} {ips : List String}
    (held : heldIPs s.networks name = some ips)
    (after : ∀ other, heldIPs networks other =
      if other = name then some (ips ++ [text]) else heldIPs s.networks other) :
    (s.act (.setNetworks networks)).Lineage :=
  lineage.readdressed held after fun _ _ _ _ inOld _ => List.mem_append_left _ inOld

theorem Shared.Lineage.shrunk (lineage : s.Lineage) {job : RunJob}
    (assigned : job.cfg.ipAddress = job.assignedIP) (unused : s.Unused job)
    (released : releaseIP s.networks job.cfg.networkName job.assignedIP = .ok networks) :
    (s.act (.setNetworks networks)).Lineage := by
  obtain ⟨ips, held, after⟩ := releaseIP_held released
  refine lineage.readdressed held after fun e member same text inOld canonical => ?_
  refine (List.mem_erase_of_ne ?_).mpr inOld
  rintro rfl
  refine unused (by simp [held]) e member ⟨same, ?_⟩
  rw [canonical, assigned]
  exact (canonicalIP_idem canonical).symm

/-! ### The invariant is kept -/

theorem Shared.Lineage.withHistory (lineage : s.Lineage) (history : List Event) :
    { s with history := history }.Lineage :=
  { lineage with }

theorem World.Orderly.lineage_perform (orderly : w.Orderly) (stack : w.threads t = top :: rest)
    (moved : top.move w.toShared t choice = some m) (inOrder : top.InOrder w.toShared choice) :
    (w.perform t rest m).Lineage := by
  have lineage := orderly.lineage
  have known := orderly.grounded.registered_lt
  rw [perform_toShared]
  refine Shared.Lineage.withHistory ?_ _
  rcases (conduct_of_move moved).2.quiet with quiet | ⟨cfg, parent, cause, rfl⟩ | ⟨-, networks, action⟩
  · exact lineage.act_quiet known quiet
  · cases moved
    simp only [CreatePc.move]
    split
    · rename_i six
      obtain ⟨fresh, replaceable⟩ := inOrder six
      have inStack := World.Orderly.top_mem stack
      have freshID := fresh.freshID lineage six
        (fun old isParent => orderly.grounded.refs_lt t _ inStack old (by
          simpa [Frame.refs, CreatePc.refs] using isParent))
        (orderly.sound t _ inStack)
      exact lineage.register rfl known freshID (orderly.joins stack replaceable)
    · exact lineage.act_quiet known rfl
  · rw [action]
    rcases setNetworks_of_move moved action with ⟨name, ip, allocated⟩ | ⟨name, ip, reserved⟩ |
      ⟨job, rfl, rfl⟩
    · obtain ⟨ips, held, -, -, after⟩ := allocateIP_held orderly.store allocated
      exact lineage.grown held after
    · obtain ⟨ips, text, held, -, -, after⟩ := reserveIP_held reserved
      exact lineage.grown held after
    · rcases releaseAssigned_cases w.networks job with same | ⟨assigned, released⟩
      · rw [same]
        exact lineage.setNetworks (fun _ => rfl) fun _ _ _ _ before now _ inOld _ =>
          Option.some.inj (before.symm.trans now) ▸ inOld
      · have shape := orderly.shape t
        have atStage := orderly.stages t
        rw [stack] at shape atStage
        obtain rfl := shape.eq_nil rfl
        obtain ⟨isAssigned, unused⟩ : job.Assigned ∧ w.Unused job := atStage
        exact lineage.shrunk (isAssigned assigned) unused released

theorem World.Orderly.store_perform (orderly : w.Orderly)
    (moved : top.move w.toShared t choice = some m) :
    NetworkStore.Invariant (w.perform t rest m).networks := by
  have store := orderly.store
  rw [perform_networks]
  rcases (conduct_of_move moved).2.quiet with quiet | ⟨cfg, parent, cause, rfl⟩ | ⟨-, networks, action⟩
  · rw [act_networks_of_isQuiet quiet]
    exact store
  · cases moved
    simp only [CreatePc.move]
    split <;> exact store
  · rw [action]
    rcases setNetworks_of_move moved action with ⟨name, ip, allocated⟩ | ⟨name, ip, reserved⟩ |
      ⟨job, -, rfl⟩
    · exact store.allocateIP allocated
    · obtain ⟨dir, allocatedIPs, found, rfl⟩ := reserveIP_eq_ok reserved
      exact store.write_allocated found allocatedIPs
    · rcases releaseAssigned_cases w.networks job with same | ⟨-, released⟩
      · rw [same]
        exact store
      · obtain ⟨dir, found, written⟩ := releaseIP_eq_ok released
        rw [written]
        exact store.write_allocated found _

theorem heapNext_of_call {waiting callee : Frame} (moved : top.move w.toShared t choice = some m)
    (outcome : m.outcome = .call waiting callee) :
    (w.perform t rest m).heapNext = w.heapNext := by
  rw [perform_heapNext]
  rcases act_created w.toShared m.action with
    ⟨same, -⟩ | ⟨id, cfg, now, parent, cause, action, -⟩
  · exact same
  · obtain ⟨rfl, six, rfl⟩ := register_of_move moved action
    cases moved
    simp [CreatePc.move, six] at outcome

theorem World.Orderly.callers_known (orderly : w.Orderly) (stack : w.threads t = top :: rest)
    (moved : top.move w.toShared t choice = some m) (member : frame ∈ (m.outcome.stack rest).tail) :
    ∀ r ∈ frame.refs, r < w.heapNext := by
  have waiting {frame : Frame} (member : frame ∈ rest) : ∀ r ∈ frame.refs, r < w.heapNext :=
    orderly.grounded.refs_lt t frame (by rw [stack]; exact List.mem_cons_of_mem _ member)
  cases outcome : m.outcome with
  | goto next =>
    rw [outcome] at member
    exact waiting member
  | call caller callee =>
    rw [← heapNext_of_call moved outcome]
    have after := (orderly.grounded.perform stack moved).refs_lt t frame
    refine after ?_
    rcases threads_perform w t t rest m with ⟨new, -, late, -⟩ | ⟨-, same⟩ | ⟨other, -⟩
    · exact absurd late (Nat.ne_of_lt (orderly.grounded.started stack))
    · rw [same]
      exact List.mem_of_mem_tail member
    · exact absurd rfl other
  | ret value =>
    rw [outcome] at member
    have shape := orderly.shape t
    rw [stack] at shape
    rcases shape.cases with ⟨rfl, -⟩ | ⟨caller, rfl, -⟩
    · simp [Outcome.stack] at member
    · rw [Outcome.stack, List.append_nil] at member
      revert member
      fun_cases Frame.resume caller value
      all_goals simp

theorem World.Orderly.own (orderly : w.Orderly) (stack : w.threads t = top :: rest) (pick : Nat) :
    ∀ caller ∈ rest, ∀ p ∈ caller.refs, ∀ q, w.resolve (w.vm p).id pick = some q → q = p := by
  intro caller member p holds q resolved
  have known := orderly.grounded.refs_lt t caller
    (by rw [stack]; exact List.mem_cons_of_mem _ member) p holds
  exact orderly.lineage.resolve_own orderly.grounded.registered_lt
    orderly.grounded.registered_id known resolved

theorem World.Orderly.perform (orderly : w.Orderly) (stack : w.threads t = top :: rest)
    (moved : top.move w.toShared t choice = some m) (inOrder : top.InOrder w.toShared choice) :
    (w.perform t rest m).Orderly := by
  have kept := Shared.Kept.perform w t rest m
  have grounded := orderly.grounded.perform stack moved
  have inStack := World.Orderly.top_mem stack
  have shape := orderly.shape t
  rw [stack] at shape
  have own := orderly.own stack choice.pick
  refine ⟨grounded, orderly.lineage_perform stack moved inOrder, orderly.store_perform moved,
    fun u frame member => ?_, fun u => ?_, orderly.locked.perform shape stack moved, fun u => ?_⟩
  · rcases mem_threads_perform stack member with old | new | ⟨caller, -, value, -, resumed⟩
    · exact kept.sound (orderly.grounded.refs_lt u frame old) (orderly.sound u frame old)
    · have sound := makesSound_of_move orderly.lineage (orderly.grounded.refs_lt t top inStack)
        (orderly.sound t top inStack) moved frame new
      have same : (w.toShared.act m.action).Kept (w.perform t rest m).toShared := by
        rw [perform_toShared]
        exact .of_vm rfl (fun _ => rfl) (fun _ => rfl) (fun _ => rfl) (fun _ => rfl) fun _ => rfl
      refine same.sound (fun r holds => ?_) sound
      rw [← perform_heapNext w t rest m]
      exact grounded.refs_lt u frame member r holds
    · exact sound_of_mem_resume resumed
  · rcases threads_perform w t u rest m with ⟨new, spawned, -, same⟩ | ⟨rfl, same⟩ | ⟨-, same⟩
    · rw [same]
      have root := (conduct_of_move moved).2.spawned
      rw [spawned] at root
      exact root
    · rw [same]
      exact kept.shape (fun frame member => orderly.callers_known stack moved member)
        (shape.move own moved)
    · rw [same]
      exact kept.shape (fun frame member => orderly.grounded.refs_lt u frame
        (List.mem_of_mem_tail member)) (orderly.shape u)
  · rcases threads_perform w t u rest m with ⟨new, spawned, -, same⟩ | ⟨rfl, same⟩ | ⟨other, same⟩
    · rw [same, stage_of_outside ((conduct_of_move moved).1.spawned new spawned)]
      trivial
    · rw [same]
      exact orderly.atStage_own stack moved inOrder own
    · rw [same]
      exact orderly.atStage_other stack moved inOrder (Ne.symm other)

/-! ### Calls, exits and health reports -/

def Frame.isArrival : Frame → Bool
  | .handleRun (.lock _) | .handleStart (.lock _) | .stop _ (.resolve _)
  | .remove (.resolve _) => true
  | _ => false

/-- A call that arrives holds nothing yet. -/
structure Frame.Arrives (s : Shared) (frame : Frame) : Prop where
  root : frame.isRoot = true
  sound : frame.Sound s
  outside : frame.critical = false
  free : ∀ p, ¬ frame.Grips s p
  notCall : frame.isStartCall = false

theorem arrives_of_isArrival (s : Shared) (arrival : frame.isArrival = true) :
    frame.Arrives s := by
  revert arrival
  fun_cases Frame.isArrival frame
  all_goals intro arrival
  all_goals first
    | exact ⟨rfl, trivial, rfl, fun _ grips => grips, rfl⟩
    | simp at arrival

/-- A step that leaves the VMs as far as lineages go and only lets calls arrive
keeps the invariant. -/
theorem World.Orderly.undisturbed {next : World} (orderly : w.Orderly) (grounded : next.Grounded)
    (kept : w.toShared.Kept next.toShared) (heapNext : next.heapNext = w.heapNext)
    (vms : next.vms = w.vms) (networks : next.networks = w.networks)
    (resourceMu : next.resourceMu = w.resourceMu)
    (taps : ∀ p, (next.vm p).cfg.tapName = (w.vm p).cfg.tapName)
    (threads : ∀ u, next.threads u = w.threads u ∨
      ∃ frame, next.threads u = [frame] ∧ frame.isArrival = true) : next.Orderly := by
  have origin {u : ThreadId} {frame : Frame} (member : frame ∈ next.threads u) :
      frame ∈ w.threads u ∨ frame.isArrival = true := by
    rcases threads u with same | ⟨new, same, arrival⟩
    · rw [same] at member
      exact .inl member
    · rw [same, List.mem_singleton] at member
      exact .inr (member ▸ arrival)
  have known := orderly.grounded.registered_lt
  refine ⟨grounded, ?_, networks ▸ orderly.store, fun u frame member => ?_, fun u => ?_,
    fun u frame member critical => ?_, fun u => ?_⟩
  · exact orderly.lineage.of_kept kept heapNext known (vms ▸ List.Sublist.refl _)
      (fun p _ => .inl (taps p)) networks
  · rcases origin member with old | arrival
    · exact kept.sound (orderly.grounded.refs_lt u frame old) (orderly.sound u frame old)
    · exact (arrives_of_isArrival _ arrival).sound
  · rcases threads u with same | ⟨new, same, arrival⟩
    · rw [same]
      exact kept.shape (fun frame member => orderly.grounded.refs_lt u frame
        (List.mem_of_mem_tail member)) (orderly.shape u)
    · rw [same]
      exact (arrives_of_isArrival next.toShared arrival).root
  · rcases origin member with old | arrival
    · rw [resourceMu]
      exact orderly.locked u frame old critical
    · simp [(arrives_of_isArrival next.toShared arrival).outside] at critical
  · have atStage : next.AtStage u (stage (w.threads u)) := by
      refine (orderly.stages u).of_kept kept known (fun e member => vms ▸ member) networks
        fun v _ frame member => (origin member).imp_right fun arrival => ?_
      exact ⟨(arrives_of_isArrival _ arrival).free, (arrives_of_isArrival w.toShared arrival).notCall⟩
    rcases threads u with same | ⟨new, same, arrival⟩
    · rw [same]
      exact atStage
    · rw [same, stage_of_outside (arrives_of_isArrival w.toShared arrival).outside]
      trivial

theorem World.Orderly.spawn (orderly : w.Orderly) (grounded : (w.spawn frame).Grounded)
    (arrival : frame.isArrival = true) :
    (w.spawn frame).Orderly := by
  refine orderly.undisturbed grounded (.of_vm rfl (fun _ => rfl) (fun _ => rfl) (fun _ => rfl)
    (fun _ => rfl) fun _ => rfl) rfl rfl rfl rfl (fun _ => rfl) fun u => ?_
  by_cases fresh : u = w.threadNext
  · exact .inr ⟨frame, by simp [World.spawn, fresh], arrival⟩
  · exact .inl (by simp [World.spawn, Function.update_of_ne fresh])

theorem World.Orderly.observed {heap : Ref → Object} (orderly : w.Orderly)
    (observed : w.Observed heap) (grounded : { w with heap := heap }.Grounded) :
    { w with heap := heap }.Orderly := by
  have vm (q : Ref) : { w with heap := heap }.vm q = _ := (observed q).2
  refine orderly.undisturbed grounded (.of_vm rfl ?_ ?_ (fun q => (observed q).1) ?_ ?_) rfl rfl
    rfl rfl ?_ fun _ => .inl rfl
  all_goals
    intro q
    rw [vm]

theorem orderly_of_reachable (reached : system.ReachableUnder World.InOrder w) : w.Orderly := by
  refine reached.invariant ?_ ?_
  · rintro w ⟨kind, networks, sha256Hex, built, rfl⟩
    refine ⟨⟨fun _ _ => rfl, ?_, ?_, ?_⟩, ⟨?_, ?_, ?_, ?_, ?_, ?_, ?_, ?_, ?_, ?_, ?_⟩,
      invariant_of_reachable built, ?_, fun _ => trivial, ?_, fun _ => trivial⟩
    all_goals simp [World.initial, World.Locked]
  · intro w label target reached orderly inOrder stepped
    have grounded := grounded_of_reachable (reached.next inOrder stepped)
    rcases step_cases stepped with ⟨call, rfl, rfl⟩ |
      ⟨t, choice, top, rest, m, rfl, stack, moved, rfl⟩ | ⟨heap, observed, rfl⟩
    · refine orderly.spawn grounded ?_
      cases call with
      | managerCreate cfg => exact inOrder.elim
      | managerStart ref => exact inOrder.elim
      | _ => rfl
    · exact orderly.perform stack moved (inOrder top (by rw [stack]; rfl))
    · exact orderly.observed observed grounded

end Jerboa.Daemon
