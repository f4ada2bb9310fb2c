import Jerboa.RunStages

/-!
# The moves of a Run request

Each move of a Run request leads from a stage to the next one, and leaves what
the next stage relies on: an address is reserved before it is used, a name is
checked before it is taken, and an address is released only when no VM uses it.
-/

namespace Jerboa.Daemon

open Vm NetworkStore

variable {w : World} {t : ThreadId} {choice : Choice} {top : Frame} {rest : List Frame}
  {m : Move} {job : RunJob} {p : Nat}

/-! ### Moves that register nothing -/

theorem mem_perform_vms_of_isQuiet (quiet : m.action.isQuiet = true) {e : String × Ref}
    (member : e ∈ (w.perform t rest m).vms) : e ∈ w.vms := by
  rw [perform_vms] at member
  exact (act_vms_sublist_of_isQuiet quiet).subset member

theorem perform_networks_of_isQuiet (quiet : m.action.isQuiet = true) :
    (w.perform t rest m).networks = w.networks := by
  rw [perform_networks]
  exact act_networks_of_isQuiet quiet

section

variable (grounded : w.Grounded)

include grounded

theorem Shared.Unused.quiet (quiet : m.action.isQuiet = true)
    (unused : w.Unused job) : (w.perform t rest m).Unused job :=
  unused.of_kept (.perform w t rest m) grounded.registered_lt
    (fun _ member => mem_perform_vms_of_isQuiet quiet member) (perform_networks_of_isQuiet quiet)

theorem Shared.Reserved.quiet (quiet : m.action.isQuiet = true)
    (reserved : w.Reserved job) : (w.perform t rest m).Reserved job :=
  reserved.of_kept (.perform w t rest m) grounded.registered_lt
    (fun _ member => mem_perform_vms_of_isQuiet quiet member) (perform_networks_of_isQuiet quiet)

theorem Shared.NameFree.quiet (quiet : m.action.isQuiet = true)
    (nameFree : w.NameFree job) : (w.perform t rest m).NameFree job :=
  nameFree.of_kept (.perform w t rest m) grounded.registered_lt
    (fun _ member => mem_perform_vms_of_isQuiet quiet member)

/-- A request keeps its VM when it registers nothing and starts no goroutine
that could replace the VM. -/
theorem World.Owned.quiet (quiet : m.action.isQuiet = true)
    (spawned : ∀ new ∈ m.spawn, ¬ new.Grips w.toShared p ∧ new.isStartCall = false)
    (owned : w.Owned t job p) : (w.perform t rest m).Owned t job p := by
  refine owned.of_kept (.perform w t rest m) grounded.registered_lt
    (fun _ member => mem_perform_vms_of_isQuiet quiet member) (perform_networks_of_isQuiet quiet)
    fun u away frame member => ?_
  rcases threads_perform w t u rest m with ⟨new, spawn, -, same⟩ | ⟨mine, -⟩ | ⟨-, same⟩
  · rw [same, List.mem_singleton] at member
    exact .inr (member ▸ spawned new spawn)
  · exact absurd mine away
  · rw [same] at member
    exact .inl member

theorem World.Owned.deleted (quiet : m.action.isQuiet = true)
    (gone : ∀ e ∈ (w.perform t rest m).vms, e.1 ≠ (w.vm p).id) (owned : w.Owned t job p) :
    (w.perform t rest m).Unused job := by
  intro held e member uses
  have old := mem_perform_vms_of_isQuiet quiet member
  rw [perform_networks_of_isQuiet quiet] at held
  have isP := owned.only held e old
    (((Shared.Kept.perform w t rest m).uses (grounded.registered_lt e old)).mp uses)
  apply gone e member
  rw [← grounded.registered_id e old, isP]

end

theorem Shared.Lineage.reserved {s target : Shared} (lineage : s.Lineage)
    (heap : target.heap = s.heap) (vms : target.vms = s.vms) {ips : List String} {text : String}
    (held : heldIPs s.networks job.cfg.networkName = some ips)
    (canonical : canonicalIP job.cfg.ipAddress = some text) (free : text ∉ ips)
    (after : heldIPs target.networks job.cfg.networkName = some (ips ++ [text]))
    (assigned : job.Assigned) : target.Reserved job where
  assigned := assigned
  unused _ e member uses := by
    rw [vms] at member
    rw [Shared.Uses, Shared.vm, heap] at uses
    obtain ⟨network, address⟩ := uses
    obtain ⟨other, taken, same⟩ := lineage.addresses_taken e member ips (by
      rw [← held, ← network]
      rfl)
    rw [Shared.vm, address, canonical] at same
    exact free (Option.some.inj same ▸ taken)
  taken now heldNow := by
    rw [after] at heldNow
    cases heldNow
    exact ⟨text, by simp, canonical⟩

theorem Shared.Reserved.of_not_held {s : Shared} (assigned : job.Assigned)
    (missing : heldIPs s.networks job.cfg.networkName = none) : s.Reserved job where
  assigned := assigned
  unused held := by simp [missing] at held
  taken ips held := by simp [missing] at held

theorem runJob_ipAddress (p : RunParams) (img : ResolvedImage) (n : Network) (ip : String) :
    (runJob (withNetwork p ip n) img ip).Assigned :=
  fun _ => rfl

theorem RunPc.atStage (orderly : w.Orderly) (pc : RunPc) (stack : w.threads t = [.handleRun pc]) :
    ∀ m ∈ pc.move w.toShared t choice,
      (w.perform t [] m).AtStage t (stage (m.outcome.stack [])) := by
  have grounded := orderly.grounded
  have atStage := orderly.stages t
  rw [stack] at atStage
  revert atStage
  fun_cases RunPc.move w.toShared t choice pc
  all_goals rintro atStage _ ⟨⟩
  case case5 p img unnamed =>
    refine .of_not_held (fun named => absurd rfl named) ?_
    have name : (runJob p img "").cfg.networkName = "" := unnamed
    rw [name]
    exact heldIPs_empty _
  case case7 p img _ _ missing _ =>
    exact .of_not_held (fun named => absurd rfl named) (heldIPs_of_get_error missing)
  case case11 p img n _ ip networks allocated _ =>
    obtain ⟨ips, held, free, canonical, after⟩ := allocateIP_held orderly.store allocated
    exact orderly.lineage.reserved rfl rfl held canonical free
      ((after _).trans (if_pos rfl)) (runJob_ipAddress p img n _)
  case case13 p img n _ networks reserved =>
    obtain ⟨ips, text, held, canonical, free, after⟩ := reserveIP_held reserved
    exact orderly.lineage.reserved rfl rfl held canonical free
      ((after _).trans (if_pos rfl)) (runJob_ipAddress p img n _)
  case case14 job unnamed =>
    exact ⟨Shared.Reserved.quiet grounded rfl atStage, fun named => absurd unnamed named⟩
  case case15 job _ _ => exact Shared.Reserved.quiet grounded rfl atStage
  case case17 job _ => exact ⟨atStage.assigned, Shared.Unused.quiet grounded rfl atStage.unused⟩
  case case18 job free =>
    refine ⟨Shared.Reserved.quiet grounded rfl atStage, Shared.NameFree.quiet grounded rfl ?_⟩
    intro _ e member same
    exact free (List.any_eq_true.mpr ⟨e, member, by simpa using same⟩)
  case case20 job => exact ⟨atStage.1, Shared.Unused.quiet grounded rfl atStage.2⟩
  case case21 job vm => exact World.Owned.quiet grounded rfl (by simp) atStage
  case case22 job vm => exact World.Owned.quiet grounded rfl (by simp) atStage
  case case24 job vm => exact World.Owned.quiet grounded rfl (by simp) atStage
  all_goals trivial

/-! ### Moves of the methods it calls -/

theorem World.Owned.registered (orderly : w.Orderly) {cfg : Config} {parent : Option Ref}
    {cause : Cause} {next : Outcome}
    (fresh : w.DrawsFresh (newID choice.bytes) cfg parent) (reserved : w.Reserved job) :
    (w.perform t rest ⟨.register (newID choice.bytes) cfg choice.now parent cause, [], none,
      next⟩).Owned t job w.heapNext where
  assigned := reserved.assigned
  known := Nat.lt_succ_self _
  only held e member uses := by
    rcases register_mem_cases rfl orderly.grounded.registered_lt member with ⟨old, -⟩ | ⟨rfl, -⟩
    · have usesBefore := ((Shared.Kept.perform w t rest _).uses
        (orderly.grounded.registered_lt e old)).mp uses
      exact absurd usesBefore (reserved.unused held e old)
    · rfl
  alone u away frame member grips := by
    rcases threads_perform w t u rest ⟨.register (newID choice.bytes) cfg choice.now parent cause,
      [], none, next⟩ with ⟨new, spawn, -, -⟩ | ⟨mine, -⟩ | ⟨-, same⟩
    · simp at spawn
    · exact absurd mine away
    · rw [same] at member
      exact Nat.lt_irrefl _
        (orderly.grounded.refs_lt u frame member w.heapNext (refs_of_grips grips))
  uncalled u away ref member := by
    have newVM : (w.perform t rest ⟨.register (newID choice.bytes) cfg choice.now parent cause, [],
        none, next⟩).vm w.heapNext = Vm.newVM (newID choice.bytes) cfg choice.now := by
      rw [perform_vm, register_vm_new]
    rcases threads_perform w t u rest ⟨.register (newID choice.bytes) cfg choice.now parent cause,
      [], none, next⟩ with ⟨new, spawn, -, -⟩ | ⟨mine, -⟩ | ⟨-, same⟩
    · simp at spawn
    · exact absurd mine away
    · rw [same] at member
      obtain ⟨q, knownQ, rfl⟩ := orderly.sound u _ member
      rw [newVM]
      exact (fresh.1 q knownQ).1

theorem stage_resume_none : stage ((Frame.handleRun (.creating job)).resume (.vm none) ++ []) =
    .released job := by
  simp only [Frame.resume]
  split <;> rfl

theorem stage_resume_some {vm : Ref} :
    stage ((Frame.handleRun (.creating job)).resume (.vm (some vm)) ++ []) = .owned job vm := by
  simp only [Frame.resume]
  split <;> rfl

theorem CreatePc.atStage (orderly : w.Orderly) (pc : CreatePc)
    (stack : w.threads t = [.create pc, .handleRun (.creating job)])
    (inOrder : (Frame.create pc).InOrder w.toShared choice) :
    (w.perform t [.handleRun (.creating job)] (pc.move w.toShared choice)).AtStage t
      (stage ((pc.move w.toShared choice).outcome.stack [.handleRun (.creating job)])) := by
  have grounded := orderly.grounded
  have atStage := orderly.stages t
  rw [stack] at atStage
  revert atStage inOrder
  fun_cases CreatePc.move w.toShared choice pc
  all_goals intro inOrder atStage
  case case1 cfg parent cause _ _ =>
    rw [Outcome.stack, stage_resume_none]
    exact ⟨atStage.1.assigned, Shared.Unused.quiet grounded rfl atStage.1.unused⟩
  case case2 cfg parent cause _ =>
    exact ⟨Shared.Reserved.quiet grounded rfl atStage.1,
      Shared.NameFree.quiet grounded rfl atStage.2⟩
  case case3 cfg parent cause six =>
    exact World.Owned.registered orderly (inOrder six).1 atStage.1
  case case4 cfg parent cause _ =>
    rw [Outcome.stack, stage_resume_none]
    exact ⟨atStage.1.assigned, Shared.Unused.quiet grounded rfl atStage.1.unused⟩
  case case5 vm _ =>
    rw [Outcome.stack, stage_resume_some]
    exact World.Owned.quiet grounded rfl (by simp) atStage
  case case6 vm _ =>
    rw [Outcome.stack, stage_resume_none]
    refine ⟨atStage.assigned, World.Owned.deleted grounded rfl ?_ atStage⟩
    intro e member
    simpa using (List.mem_filter.mp member).2

theorem StartPc.atStage (orderly : w.Orderly) {vm : Ref} (pc : StartPc)
    (stack : w.threads t = [.start pc, .handleRun (.starting job vm)]) :
    (w.perform t [.handleRun (.starting job vm)] (pc.move w.toShared choice)).AtStage t
      (stage ((pc.move w.toShared choice).outcome.stack [.handleRun (.starting job vm)])) := by
  have owned := orderly.stages t
  have sound := orderly.sound t (.start pc) (by simp [stack])
  rw [stack] at owned
  replace owned : w.Owned t job vm := owned
  have quiet {m : Move} (isQuiet : m.action.isQuiet = true) (none : m.spawn = none) :
      (w.perform t [.handleRun (.starting job vm)] m).Owned t job vm :=
    World.Owned.quiet orderly.grounded isQuiet (by simp [none]) owned
  revert sound
  fun_cases StartPc.move w.toShared choice pc
  all_goals intro sound
  case case21 p =>
    -- the monitor of a failed start sees the explicit stop
    refine World.Owned.quiet orderly.grounded rfl ?_ owned
    rintro _ ⟨⟩
    refine ⟨fun both => ?_, rfl⟩
    obtain ⟨rfl, unset⟩ := both
    exact absurd unset (by rw [show (w.vm _).explicitStop = true from sound]; simp)
  all_goals first
    | trivial
    | exact quiet rfl rfl
    | exact quiet (by split <;> rfl) rfl

theorem RemovePc.atStage (orderly : w.Orderly) {vm : Ref} (pc : RemovePc)
    (targets : pc.Targets w.toShared vm)
    (stack : w.threads t = [.remove pc, .handleRun (.removing job vm)]) :
    (w.perform t [.handleRun (.removing job vm)] (pc.move w.toShared choice)).AtStage t
      (stage ((pc.move w.toShared choice).outcome.stack [.handleRun (.removing job vm)])) := by
  have owned := orderly.stages t
  rw [stack] at owned
  replace owned : w.Owned t job vm := owned
  revert targets
  fun_cases RemovePc.move w.toShared choice pc
  all_goals intro targets
  case case5 p _ _ =>
    obtain rfl : p = vm := targets
    refine ⟨owned.assigned, World.Owned.deleted orderly.grounded rfl ?_ owned⟩
    intro e member
    simpa using (List.mem_filter.mp member).2
  all_goals first
    | trivial
    | exact World.Owned.quiet orderly.grounded rfl (by simp) owned

/-! ### Everything else is idle -/

theorem isHandleRun_of_stage {stack : List Frame} (busy : stage stack ≠ .idle) :
    stack.getLast?.any Frame.isHandleRun = true := by
  revert busy
  fun_cases stage stack
  all_goals first
    | exact fun _ => rfl
    | exact fun busy => absurd rfl busy

theorem stage_of_caller {callee caller : Frame} (notRun : caller.isHandleRun = false) :
    stage [callee, caller] = .idle := by
  by_contra busy
  have run : caller.isHandleRun = true := isHandleRun_of_stage busy
  simp [notRun] at run

theorem stage_of_resume {caller : Frame} {value : Value} (notRun : caller.isHandleRun = false) :
    stage (caller.resume value) = .idle := by
  revert notRun
  fun_cases Frame.resume caller value
  all_goals intro notRun
  all_goals first
    | rfl
    | simp [Frame.isHandleRun] at notRun

theorem stage_of_root (notRun : top.isHandleRun = false) {s : Shared}
    (moved : top.move s t choice = some m) : stage (m.outcome.stack []) = .idle := by
  by_contra busy
  have run := isHandleRun_of_stage busy
  have none := (conduct_of_move moved).2.runs.resolve_left (by simp [notRun])
  rw [Move.frames, List.all_append, Bool.and_eq_true] at none
  cases outcome : m.outcome <;> simp_all [Outcome.stack, Outcome.frames]

theorem stage_of_callee {s : Shared} {caller : Frame} (notRun : caller.isHandleRun = false)
    (goesOn : m.outcome.GoesOn (Calls s caller)) : stage (m.outcome.stack [caller]) = .idle := by
  cases outcome : m.outcome with
  | goto next => exact stage_of_caller notRun
  | call waiting callee =>
    rw [outcome] at goesOn
    exact goesOn.elim
  | ret value =>
    rw [Outcome.stack, List.append_nil]
    exact stage_of_resume notRun

theorem World.Orderly.atStage_own (orderly : w.Orderly) (stack : w.threads t = top :: rest)
    (moved : top.move w.toShared t choice = some m) (inOrder : top.InOrder w.toShared choice)
    (own : ∀ caller ∈ rest, ∀ p ∈ caller.refs, ∀ q,
      w.resolve (w.vm p).id choice.pick = some q → q = p) :
    (w.perform t rest m).AtStage t (stage (m.outcome.stack rest)) := by
  have shape := orderly.shape t
  rw [stack] at shape
  rcases shape.cases with ⟨rfl, root⟩ | ⟨caller, rfl, calls⟩
  · cases notRun : top.isHandleRun with
    | false =>
      rw [stage_of_root notRun moved]
      trivial
    | true =>
      cases top with
      | handleRun pc => exact RunPc.atStage orderly pc stack m moved
      | _ => simp [Frame.isHandleRun] at notRun
  · cases notRun : caller.isHandleRun with
    | false =>
      have goesOn := goesOn_of_move calls (own caller List.mem_cons_self) moved
      rw [stage_of_callee notRun goesOn]
      trivial
    | true =>
      cases calls
      all_goals obtain rfl := Option.some.inj moved
      case runCreating _ _ => exact CreatePc.atStage orderly _ stack inOrder
      case runStarting _ => exact StartPc.atStage orderly _ stack
      case runRemoving targets => exact RemovePc.atStage orderly _ targets stack
      all_goals simp [Frame.isHandleRun] at notRun

end Jerboa.Daemon
