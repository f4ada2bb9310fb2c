import Jerboa.LineageRegistration

/-!
# What the frames of the daemon carry

The frames that create a replacement carry the request of the VM they replace,
those that start a VM carry the ID of one, and a failed start has set the
explicit-stop flag before its monitor runs.
-/

namespace Jerboa.Daemon

open Vm NetworkStore

def CreatePc.Sound (s : Shared) : CreatePc → Prop
  | .validate cfg none _ | .register cfg none _ => cfg.tapName = ""
  | .validate cfg (some old) _ | .register cfg (some old) _ =>
    SameRequest cfg (s.vm old).cfg ∧ s.TapOf (s.heap old).origin cfg.tapName
  | .persist _ => True

def StartPc.Sound (s : Shared) : StartPc → Prop
  | .resolve ref => ∃ q, q < s.heapNext ∧ (s.vm q).id = ref
  | .abortMonitor vm => (s.vm vm).explicitStop = true
  | _ => True

def RunPc.Sound : RunPc → Prop
  | .unique job | .checkName job => job.cfg.tapName = ""
  | _ => True

def Frame.Sound (s : Shared) : Frame → Prop
  | .create pc => pc.Sound s
  | .start pc => pc.Sound s
  | .handleRun pc => pc.Sound
  | _ => True

variable {s target : Shared}

theorem Shared.Kept.sound (kept : s.Kept target) {frame : Frame}
    (known : ∀ r ∈ frame.refs, r < s.heapNext) (sound : frame.Sound s) :
    frame.Sound target := by
  cases frame with
  | create pc =>
    revert known sound
    simp only [Frame.refs, Frame.Sound]
    fun_cases CreatePc.Sound target pc
    all_goals simp only [CreatePc.Sound, CreatePc.refs, Option.toList_some, List.mem_singleton,
      forall_eq]
    all_goals first
      | exact fun _ sound => sound
      | skip
    all_goals
      intro knownOld sound
      obtain ⟨same, tap⟩ := sound
      rw [kept.origin _ knownOld]
      exact ⟨same.trans (kept.request _ knownOld).symm, kept.tapOf tap⟩
  | start pc =>
    cases pc with
    | resolve ref =>
      obtain ⟨q, knownQ, same⟩ := sound
      exact ⟨q, Nat.lt_of_lt_of_le knownQ kept.heapNext_le, (kept.id q knownQ).trans same⟩
    | abortMonitor vm => exact kept.explicitStop vm (known vm List.mem_cons_self) sound
    | _ => trivial
  | handleRun pc => exact sound
  | _ => trivial

def MakesSound (s : Shared) (m : Move) : Prop :=
  ∀ frame ∈ m.frames, frame.Sound (s.act m.action)

theorem makesSound_of_move (lineage : s.Lineage) {t : ThreadId} {choice : Choice} {top : Frame}
    {m : Move} (known : ∀ r ∈ top.refs, r < s.heapNext) (sound : top.Sound s)
    (moved : top.move s t choice = some m) : MakesSound s m := by
  revert known sound
  apply move_induction
    (fun top m => (∀ r ∈ top.refs, r < s.heapNext) → top.Sound s → MakesSound s m) moved
  case create =>
    intro pc _ sound
    fun_cases CreatePc.move s choice pc
    case case2 cfg parent cause _ _ =>
      refine forall_frames_goto ?_
      cases parent <;> exact sound
    all_goals first
      | exact forall_frames_ret
      | exact forall_frames_goto trivial
  case restartVM =>
    intro pc
    fun_cases RestartPc.move s choice pc <;> rintro _ ⟨⟩ known -
    case case1 old =>
      have knownOld : old < s.heapNext := known old List.mem_cons_self
      exact forall_frames_call trivial ⟨.refl _, lineage.taps old knownOld⟩
    case case5 old new =>
      exact forall_frames_call trivial ⟨new, known new (by simp [Frame.refs, RestartPc.refs]), rfl⟩
    all_goals first
      | exact forall_frames_ret
      | exact forall_frames_goto trivial
  case handleRun =>
    intro pc
    fun_cases RunPc.move s t choice pc <;> rintro _ ⟨⟩ known sound
    case case22 job vm =>
      exact forall_frames_call trivial ⟨vm, known vm List.mem_cons_self, rfl⟩
    case case27 job vm =>
      cases job.autoRemove <;>
        simp [MakesSound, Move.frames, Outcome.frames, Frame.Sound, RunPc.Sound]
    all_goals first
      | exact forall_frames_goto trivial
      | exact forall_frames_goto rfl
      | exact forall_frames_goto sound
      | exact forall_frames_call trivial sound
      | exact forall_frames_call trivial trivial
      | exact forall_frames_ret
  case handleStart =>
    intro pc
    fun_cases HandleStartPc.move s t choice pc <;> rintro _ ⟨⟩ known -
    all_goals first
      | exact forall_frames_goto trivial
      | exact forall_frames_ret
      | exact forall_frames_call trivial trivial
      | exact forall_frames_call trivial
          ⟨_, known _ (by simp [Frame.refs, HandleStartPc.refs]), rfl⟩
      | exact forall_frames_call trivial
          ⟨.refl _, lineage.taps _ (known _ (by simp [Frame.refs, HandleStartPc.refs]))⟩
  case' start =>
    intro pc _ _
    fun_cases StartPc.move s choice pc
    case case20 vm => exact forall_frames_goto (by simp [Frame.Sound, StartPc.Sound, Shared.act])
  case' stop => intro force pc; fun_cases StopPc.move s choice force pc <;> rintro _ ⟨⟩ - -
  case' remove => intro pc _ _; fun_cases RemovePc.move s choice pc
  case' monitor =>
    intro pc
    cases pc <;> rw [MonitorPc.move] <;> (repeat' split) <;> rintro _ ⟨⟩ - -
  case' adoptMonitor =>
    intro pc
    cases pc <;> rw [AdoptPc.move] <;> (repeat' split) <;> rintro _ ⟨⟩ - -
  case' autoRemove => intro pc; fun_cases AutoRemovePc.move s pc <;> rintro _ ⟨⟩ - -
  all_goals first
    | exact forall_frames_ret
    | exact forall_frames_goto trivial
    | exact forall_frames_spawn trivial
    | exact forall_frames_call trivial trivial

theorem sound_of_mem_resume {caller frame : Frame} {value : Value}
    (member : frame ∈ caller.resume value) : frame.Sound s := by
  revert member
  fun_cases Frame.resume caller value
  all_goals simp +contextual [Frame.Sound, RunPc.Sound]

end Jerboa.Daemon
