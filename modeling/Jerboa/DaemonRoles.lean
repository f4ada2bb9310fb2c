import Jerboa.DaemonSteps

/-!
# The roles of goroutines towards a VM

A frame can still lead to a monitor of a VM, has already decided on its
restart, or is stopping it.  For every program, where the role of a frame comes
from, and which roles report a stop or register a replacement.
-/

namespace Jerboa.Daemon

open Vm

inductive Role
  | other
  /-- About to leave the created state. -/
  | starting (vm : Ref)
  /-- On the way to a monitor that reads the explicit-stop flag. -/
  | live (vm : Ref)
  /-- Past the flag, on the way to a replacement. -/
  | pending (vm : Ref)
  /-- In Stop or Kill, the VM in state stopping and the flag not yet set. -/
  | stopping (vm : Ref)
  /-- In Stop or Kill with the flag set. -/
  | flagged (vm : Ref)
deriving DecidableEq

def CreatePc.role : CreatePc → Role
  | .validate _ (some old) .restartVM | .register _ (some old) .restartVM => .pending old
  | _ => .other

def StartPc.role : StartPc → Role
  | .resolve _ | .fail _ => .other
  | .transition vm => .starting vm
  | .assignTap vm | .bootImage vm | .launch vm | .attach vm | .limits vm | .run vm | .save vm
  | .publish vm | .monitor vm | .abort vm | .abortMonitor vm => .live vm

def StopPc.role : StopPc → Role
  | .resolve _ | .check _ | .transition _ => .other
  | .save vm | .flag vm => .stopping vm
  | .signal vm | .wait vm | .kill vm => .flagged vm

def MonitorPc.role : MonitorPc → Role
  | .wait vm => .live vm
  | .stop vm false | .save vm false | .decide vm false => .pending vm
  | _ => .other

def RestartPc.role : RestartPc → Role
  | .sleep old => .pending old
  | _ => .other

def Frame.role : Frame → Role
  | .create pc => pc.role
  | .start pc => pc.role
  | .stop _ pc => pc.role
  | .monitor pc => pc.role
  | .restartVM pc => pc.role
  | _ => .other

theorem role_of_isResumed {frame : Frame} (resumed : frame.isResumed = true) :
    frame.role = .other := by
  cases frame with
  | restartVM pc => cases pc <;> first | rfl | simp [Frame.isResumed] at resumed
  | _ => first | rfl | simp [Frame.isResumed] at resumed

/-! ### Where roles come from -/

def RoleStep (s : Shared) (top : Frame) (action : Action) : Role → Prop
  | .other => True
  | .starting p => ∃ id, (id, p) ∈ s.vms
  | .live p => top.role = .live p ∨ (top.role = .starting p ∧ (s.vm p).state = .created)
  | .pending p =>
    top.role = .pending p ∨ (top = .monitor (.wait p) ∧ (s.vm p).explicitStop = false)
  | .stopping p =>
    top.role = .stopping p ∨
      ∃ force, top = .stop force (.transition p) ∧
        .stopping ∈ validTransitions (s.vm p).state
  | .flagged p =>
    top.role = .flagged p ∨ (top.role = .stopping p ∧ action = .setExplicitStop p)

def FollowsRoles (s : Shared) (top : Frame) (m : Move) : Prop :=
  ∀ frame ∈ m.frames, RoleStep s top m.action frame.role

variable {s : Shared} {action : Action} {role : Role} {top : Frame} {m : Move}

theorem FollowsRoles.of_other (others : (m.frames.all fun frame => frame.role = .other) = true) :
    FollowsRoles s top m := by
  intro frame member
  have other : frame.role = .other := by simpa using List.all_eq_true.mp others frame member
  rw [other]
  trivial

theorem FollowsRoles.goto {top next : Frame} {events : List Event}
    (follows : RoleStep s top action next.role) :
    FollowsRoles s top ⟨action, events, none, .goto next⟩ :=
  forall_frames_goto follows

theorem FollowsRoles.spawn {top new : Frame} {events : List Event} {value : Value}
    (follows : RoleStep s top action new.role) :
    FollowsRoles s top ⟨action, events, some new, .ret value⟩ :=
  forall_frames_spawn follows

theorem starting_mem_validTransitions {state : State}
    (valid : .starting ∈ validTransitions state) : state = .created := by
  cases state <;> simp_all [validTransitions]

/-! ### Who reports and who registers -/

def Action.isRegister : Action → Bool
  | .register .. => true
  | _ => false

/-- A report that a call returned comes from Stop or Kill with the flag set,
from their early return on a stopped VM, or from Remove, and a replacement by
`restartVM` from a pending frame. -/
structure ReportsRoles (s : Shared) (top : Frame) (m : Move) : Prop where
  returned : ∀ event ∈ m.events, ∃ p, event = .returned p ∧
    (top.role = .flagged p ∨
      (∃ force, top = .stop force (.check p) ∧ (s.vm p).state = .stopped) ∨
      (top = .remove (.delete p) ∧ (s.get (s.vm p).id).isSome ∧
        m.action = .remove (s.vm p).id))
  restarts : ∀ id cfg now old, m.action = .register id cfg now (some old) .restartVM →
    top.role = .pending old

theorem ReportsRoles.of_silent (noEvents : m.events = [])
    (noRegister : m.action.isRegister = false) : ReportsRoles s top m where
  returned := by simp [noEvents]
  restarts id cfg now old action := by simp [action, Action.isRegister] at noRegister

theorem ReportsRoles.of_returned {p : Ref} {spawn : Option Frame} {outcome : Outcome}
    (source : top.role = .flagged p ∨
      (∃ force, top = .stop force (.check p) ∧ (s.vm p).state = .stopped) ∨
      (top = .remove (.delete p) ∧ (s.get (s.vm p).id).isSome ∧
        action = .remove (s.vm p).id)) (noRegister : action.isRegister = false) :
    ReportsRoles s top ⟨action, [.returned p], spawn, outcome⟩ where
  returned event member := ⟨p, List.mem_singleton.mp member, source⟩
  restarts id cfg now old registered := by
    obtain rfl : action = .register id cfg now (some old) .restartVM := registered
    simp [Action.isRegister] at noRegister

theorem roles_of_move {t : ThreadId} {choice : Choice}
    (moved : top.move s t choice = some m) : FollowsRoles s top m ∧ ReportsRoles s top m := by
  apply move_induction (fun top m => FollowsRoles s top m ∧ ReportsRoles s top m) moved
  case' create =>
    intro pc
    cases pc
    case validate cfg parent cause =>
      rw [CreatePc.move]
      split
      · exact ⟨.of_other rfl, .of_silent rfl rfl⟩
      · refine ⟨.goto ?_, .of_silent rfl rfl⟩
        cases parent with
        | none => trivial
        | some old =>
          cases cause with
          | restartVM => exact .inl rfl
          | _ => trivial
    case register cfg parent cause =>
      rw [CreatePc.move]
      split
      · refine ⟨.of_other rfl, by simp, fun id cfg' now old registered => ?_⟩
        simp only [Action.register.injEq] at registered
        obtain ⟨-, -, -, rfl, rfl⟩ := registered
        rfl
      · exact ⟨.of_other rfl, .of_silent rfl rfl⟩
    all_goals
      rw [CreatePc.move]
      split
  case' start =>
    intro pc
    cases pc
    case resolve ref =>
      rw [StartPc.move]
      cases found : s.resolve ref choice.pick with
      | none => exact ⟨.of_other rfl, .of_silent rfl rfl⟩
      | some vm => exact ⟨.goto (mem_vms_of_resolve found), .of_silent rfl rfl⟩
    case transition vm =>
      rw [StartPc.move]
      split
      · rename_i valid
        exact ⟨.goto (.inr ⟨rfl, starting_mem_validTransitions valid.2⟩), .of_silent rfl rfl⟩
      · exact ⟨.of_other rfl, .of_silent rfl rfl⟩
    all_goals
      rw [StartPc.move]
      try split
  case' stop =>
    intro force pc
    cases pc
    case check vm =>
      rw [StopPc.move]
      split <;> rintro _ ⟨⟩
      · rename_i stopped
        exact ⟨.of_other rfl, .of_returned (.inr (.inl ⟨force, rfl, stopped⟩)) rfl⟩
      · exact ⟨.of_other rfl, .of_silent rfl rfl⟩
    case transition vm =>
      rw [StopPc.move]
      split <;> rintro _ ⟨⟩
      · rename_i valid
        exact ⟨.goto (.inr ⟨force, rfl, valid⟩), .of_silent rfl rfl⟩
      · exact ⟨.of_other rfl, .of_silent rfl rfl⟩
    case flag vm =>
      rintro _ ⟨⟩
      exact ⟨.goto (.inr ⟨rfl, rfl⟩), .of_silent rfl rfl⟩
    all_goals
      rw [StopPc.move]
      (repeat' split) <;> rintro _ ⟨⟩
  case' remove =>
    intro pc
    cases pc
    case delete vm =>
      rw [RemovePc.move]
      split
      · rename_i registered
        split
        · exact ⟨.of_other rfl, .of_returned (.inr (.inr ⟨rfl, registered, rfl⟩)) rfl⟩
        · exact ⟨.of_other rfl, .of_silent rfl rfl⟩
      · exact ⟨.of_other rfl, .of_silent rfl rfl⟩
    all_goals
      rw [RemovePc.move]
      split
  case' monitor =>
    intro pc
    cases pc
    case wait vm =>
      rw [MonitorPc.move]
      split <;> rintro _ ⟨⟩
      refine ⟨.goto ?_, .of_silent rfl rfl⟩
      cases flag : (s.vm vm).explicitStop with
      | false => exact .inr ⟨rfl, flag⟩
      | true => trivial
    case decide vm explicitStop =>
      rw [MonitorPc.move]
      split <;> rintro _ ⟨⟩
      · rename_i decided
        obtain ⟨rfl, -⟩ : explicitStop = false ∧ _ := by simpa using decided
        exact ⟨.spawn (.inl rfl), .of_silent rfl rfl⟩
      · exact ⟨.of_other rfl, .of_silent rfl rfl⟩
    case' stop vm explicitStop | save vm explicitStop =>
      cases explicitStop <;> rintro _ ⟨⟩
  case' restartVM =>
    intro pc
    cases pc
    case sleep old =>
      rintro _ ⟨⟩
      exact ⟨forall_frames_call trivial (.inl rfl), .of_silent rfl rfl⟩
    all_goals
      rw [RestartPc.move]
      (repeat' split) <;> rintro _ ⟨⟩
  case' handleRun =>
    intro pc
    cases pc
    case' finish job vm => cases autoRemove : job.autoRemove
    case' unlockName job result => cases result
    all_goals
      rw [RunPc.move]
      (repeat' split) <;> rintro _ ⟨⟩
  case' adoptMonitor =>
    intro pc
    cases pc <;> rw [AdoptPc.move] <;> (repeat' split) <;> rintro _ ⟨⟩
  case' autoRemove =>
    intro pc
    cases pc <;> rw [AutoRemovePc.move] <;> (repeat' split) <;> rintro _ ⟨⟩
  case' handleStart =>
    intro pc
    cases pc <;> rw [HandleStartPc.move] <;> (repeat' split) <;> rintro _ ⟨⟩
  -- the other moves keep the role of the frame or give it up
  all_goals first
    | exact ⟨.of_other rfl, .of_silent rfl rfl⟩
    | exact ⟨.of_other rfl, .of_silent rfl (by split <;> rfl)⟩
    | exact ⟨.of_other rfl, .of_returned (.inl rfl) rfl⟩
    | exact ⟨.goto (.inl rfl), .of_silent rfl rfl⟩
    | exact ⟨.goto (.inl rfl), .of_silent rfl (by split <;> rfl)⟩
    | exact ⟨.spawn (.inl rfl), .of_silent rfl rfl⟩

/-! ### Roles in a state -/

def World.HasRole (w : World) (role : Role) : Prop :=
  ∃ frame ∈ w.frames, frame.role = role

instance (w : World) (role : Role) : Decidable (w.HasRole role) :=
  inferInstanceAs (Decidable (∃ frame ∈ w.frames, frame.role = role))

variable {w : World} {t : ThreadId} {choice : Choice} {top : Frame} {rest : List Frame}
  {m : Move} {p : Nat}

theorem World.Grounded.hasRole_top (grounded : w.Grounded) (stack : w.threads t = top :: rest) :
    w.HasRole top.role :=
  ⟨top, grounded.mem_frames (by rw [stack]; exact List.mem_cons_self), rfl⟩

theorem World.Grounded.hasRole_perform (grounded : w.Grounded) (stack : w.threads t = top :: rest)
    (moved : top.move w.toShared t choice = some m) (has : (w.perform t rest m).HasRole role) :
    role = .other ∨ w.HasRole role ∨ RoleStep w.toShared top m.action role := by
  obtain ⟨frame, member, rfl⟩ := has
  rcases grounded.mem_frames_perform stack member with old | new | resumed
  · exact .inr (.inl ⟨frame, old, rfl⟩)
  · exact .inr (.inr ((roles_of_move moved).1 frame new))
  · exact .inl (role_of_isResumed resumed)

theorem World.Grounded.hasRole_spawn {new : Frame} (grounded : w.Grounded)
    (other : new.role = .other) (has : (w.spawn new).HasRole role) :
    role = .other ∨ w.HasRole role := by
  obtain ⟨frame, member, rfl⟩ := has
  rcases grounded.mem_frames_spawn member with old | rfl
  · exact .inr ⟨frame, old, rfl⟩
  · exact .inl other

/-! A role after a move was there before, or the move is one of a few. -/

section

variable (grounded : w.Grounded) (stack : w.threads t = top :: rest) (moved : top.move w.toShared t choice = some m)

include grounded stack moved

theorem World.Grounded.pending_perform (has : (w.perform t rest m).HasRole (.pending p)) :
    w.HasRole (.pending p) ∨
      (top = .monitor (.wait p) ∧ (w.vm p).explicitStop = false) := by
  rcases grounded.hasRole_perform stack moved has with other | old | same | new
  · simp at other
  · exact .inl old
  · exact .inl (same ▸ grounded.hasRole_top stack)
  · exact .inr new

theorem World.Grounded.live_perform (has : (w.perform t rest m).HasRole (.live p)) :
    w.HasRole (.live p) ∨ (w.HasRole (.starting p) ∧ (w.vm p).state = .created) := by
  rcases grounded.hasRole_perform stack moved has with other | old | same | ⟨same, created⟩
  · simp at other
  · exact .inl old
  · exact .inl (same ▸ grounded.hasRole_top stack)
  · exact .inr ⟨same ▸ grounded.hasRole_top stack, created⟩

theorem World.Grounded.starting_perform (has : (w.perform t rest m).HasRole (.starting p)) :
    w.HasRole (.starting p) ∨ ∃ id, (id, p) ∈ w.vms := by
  rcases grounded.hasRole_perform stack moved has with other | old | registered
  · simp at other
  · exact .inl old
  · exact .inr registered

theorem World.Grounded.stopping_perform (has : (w.perform t rest m).HasRole (.stopping p)) :
    w.HasRole (.stopping p) ∨
      ∃ force, top = .stop force (.transition p) ∧
        .stopping ∈ validTransitions (w.vm p).state := by
  rcases grounded.hasRole_perform stack moved has with other | old | same | new
  · simp at other
  · exact .inl old
  · exact .inl (same ▸ grounded.hasRole_top stack)
  · exact .inr new

theorem World.Grounded.flagged_perform (has : (w.perform t rest m).HasRole (.flagged p)) :
    w.HasRole (.flagged p) ∨
      (w.HasRole (.stopping p) ∧ m.action = .setExplicitStop p) := by
  rcases grounded.hasRole_perform stack moved has with other | old | same | ⟨same, flag⟩
  · simp at other
  · exact .inl old
  · exact .inl (same ▸ grounded.hasRole_top stack)
  · exact .inr ⟨same ▸ grounded.hasRole_top stack, flag⟩

end

def Role.vm : Role → Option Ref
  | .other => none
  | .starting vm | .live vm | .pending vm | .stopping vm | .flagged vm => some vm

theorem mem_refs_of_role {frame : Frame} {r : Ref} (plays : frame.role.vm = some r) :
    r ∈ frame.refs := by
  cases frame with
  | create pc =>
    revert plays
    simp only [Frame.role]
    fun_cases CreatePc.role pc <;> simp +contextual [Role.vm, Frame.refs, CreatePc.refs]
  | start pc => cases pc <;> simp_all [Frame.role, StartPc.role, Role.vm, Frame.refs, StartPc.refs]
  | stop force pc => cases pc <;> simp_all [Frame.role, StopPc.role, Role.vm, Frame.refs, StopPc.refs]
  | monitor pc =>
    revert plays
    simp only [Frame.role]
    fun_cases MonitorPc.role pc <;> simp +contextual [Role.vm, Frame.refs, MonitorPc.refs]
  | restartVM pc =>
    cases pc <;> simp_all [Frame.role, RestartPc.role, Role.vm, Frame.refs, RestartPc.refs]
  | _ => simp [Frame.role, Role.vm] at plays

theorem World.Grounded.role_lt (grounded : w.Grounded) (has : w.HasRole role)
    (plays : role.vm = some p) : p < w.heapNext := by
  obtain ⟨frame, member, rfl⟩ := has
  obtain ⟨u, inStack⟩ := exists_thread_of_mem_frames member
  exact grounded.refs_lt u frame inStack p (mem_refs_of_role plays)

end Jerboa.Daemon
