import Jerboa.ServerLock

/-!
# Goroutines that can replace a VM

A frame has a grip on a VM while it can still lead to its start or its
replacement.  Outside the server's lock, grips only pass from frame to frame:
a goroutine gets one from the goroutine that started it, for a VM it registers
itself, or for the VM whose ID it was asked to start.
-/

namespace Jerboa.Daemon

open Vm List

def Frame.Grips (s : Shared) (r : Ref) : Frame → Prop
  | .create pc => r ∈ pc.refs
  | .start pc => r ∈ pc.refs
  | .monitor (.wait p) => p = r ∧ (s.vm r).explicitStop = false
  | .monitor (.stop p explicitStop) => p = r ∧ explicitStop = false
  | .monitor (.save p explicitStop) => p = r ∧ explicitStop = false
  | .monitor (.decide p explicitStop) => p = r ∧ explicitStop = false
  | .restartVM pc => r ∈ pc.refs
  | _ => False

variable {s : Shared} {choice : Choice} {m : Move} {t : ThreadId} {top : Frame}

theorem Shared.Kept.grips {target : Shared} (kept : s.Kept target) {r : Nat}
    (known : r < s.heapNext) {frame : Frame} (grips : frame.Grips target r) :
    frame.Grips s r := by
  cases frame with
  | monitor pc =>
    cases pc with
    | wait p =>
      refine ⟨grips.1, ?_⟩
      cases flag : (s.vm r).explicitStop with
      | false => rfl
      | true =>
        have set := kept.explicitStop r known flag
        rw [grips.2] at set
        simp at set
    | _ => exact grips
  | _ => exact grips

def FollowsGrips (s : Shared) (pick : Nat) (top : Frame) (m : Move) : Prop :=
  ∀ frame ∈ m.frames, ∀ r, frame.Grips s r →
    top.Grips s r ∨ r = s.heapNext ∨
      ∃ ref, top = .start (.resolve ref) ∧ s.resolve ref pick = some r

theorem followsGrips_of_move (outside : top.critical = false) (moved : top.move s t choice = some m) :
    FollowsGrips s choice.pick top m := by
  revert outside
  apply move_induction (fun top m => top.critical = false → FollowsGrips s choice.pick top m) moved
  case' create =>
    intro pc _
    fun_cases CreatePc.move s choice pc
    case case3 =>
      exact forall_frames_goto fun r grips => .inr (.inl (mem_singleton.mp grips))
  case' start =>
    intro pc _
    fun_cases StartPc.move s choice pc
    case case2 ref vm found _ =>
      refine forall_frames_goto fun r grips => .inr (.inr ⟨ref, rfl, ?_⟩)
      rw [mem_singleton.mp grips]
      exact found
  case' monitor =>
    intro pc
    fun_cases MonitorPc.move s choice pc <;> rintro _ ⟨⟩ -
    case case1 vm _ _ _ =>
      refine forall_frames_goto fun r grips => .inl ⟨grips.1, ?_⟩
      obtain ⟨rfl, unset⟩ := grips
      exact unset
    case case5 vm explicitStop decided =>
      refine forall_frames_spawn fun r grips => .inl ⟨(mem_singleton.mp grips).symm, ?_⟩
      cases explicitStop with
      | false => rfl
      | true => simp at decided
  case' restartVM =>
    intro pc
    fun_cases RestartPc.move s choice pc <;> rintro _ ⟨⟩ -
    case case5 old new =>
      refine forall_frames_call (fun r grips => .inl ?_) fun r grips => ?_
      · rw [mem_singleton.mp grips]
        exact mem_cons_self
      · simp [Frame.Grips, StartPc.refs] at grips
  case handleRun =>
    intro pc m moved outside
    cases pc with
    | lock p =>
      revert moved
      simp only [RunPc.move]
      split
      all_goals rintro ⟨⟩
      exact forall_frames_goto fun r grips => grips.elim
    | _ => simp [Frame.critical] at outside
  case handleStart =>
    intro pc m moved outside
    cases pc with
    | lock ref =>
      revert moved
      simp only [HandleStartPc.move]
      split
      all_goals rintro ⟨⟩
      exact forall_frames_goto fun r grips => grips.elim
    | _ => simp [Frame.critical] at outside
  case' stop => intro force pc; fun_cases StopPc.move s choice force pc <;> rintro _ ⟨⟩ -
  case' remove => intro pc _; fun_cases RemovePc.move s choice pc
  case' adoptMonitor => intro pc; fun_cases AdoptPc.move s choice pc <;> rintro _ ⟨⟩ -
  case' autoRemove => intro pc; fun_cases AutoRemovePc.move s pc <;> rintro _ ⟨⟩ -
  -- the other moves keep the grip of the frame, or have none
  all_goals first
    | exact forall_frames_ret
    | exact forall_frames_goto fun r grips => .inl grips
    | exact forall_frames_call (fun r grips => .inl grips) fun r grips => .inl grips
    | exact forall_frames_spawn fun r grips => .inl (mem_singleton.mpr grips.1.symm)

theorem grips_of_ret {value : Value} (moved : top.move s t choice = some m)
    (ret : m.outcome = .ret value) {r : Ref} (returned : r ∈ value.refs) : top.Grips s r := by
  rcases (conduct_of_move moved).2.returns with ⟨pc, rfl⟩ | noVM
  · cases moved
    revert ret
    fun_cases CreatePc.move s choice pc
    all_goals rintro ⟨⟩
    all_goals first
      | exact returned
      | simp [Value.refs] at returned
  · rw [ret] at noVM
    cases value with
    | ok success => simp [Value.refs] at returned
    | vm created =>
      cases created with
      | none => simp [Value.refs] at returned
      | some q => simp [Outcome.returnsNoVM] at noVM

theorem grips_of_mem_resume {caller frame : Frame} {value : Value} {r : Ref}
    (member : frame ∈ caller.resume value) (grips : frame.Grips s r) :
    caller.Grips s r ∨ r ∈ value.refs := by
  revert member grips
  fun_cases Frame.resume caller value
  all_goals simp +contextual [Frame.Grips, RestartPc.refs, Value.refs]

theorem grips_of_startCall (outside : top.critical = false) (moved : top.move s t choice = some m)
    {ref : String} (calls : .start (.resolve ref) ∈ m.frames) :
    ∃ r, top.Grips s r ∧ ref = (s.vm r).id := by
  rcases (conduct_of_move moved).2.calls with critical | ⟨old, new, rfl⟩ | none
  · simp [outside] at critical
  · cases moved
    simp only [Move.frames, Outcome.frames, Option.toList_none, append_nil, mem_cons,
      Frame.start.injEq, StartPc.resolve.injEq, reduceCtorEq, not_mem_nil, or_false] at calls
    exact ⟨new, by simp [Frame.Grips, RestartPc.refs], calls⟩
  · have notCall := all_eq_true.mp none _ calls
    simp [Frame.isStartCall] at notCall

end Jerboa.Daemon
