import Jerboa.DaemonEffects

/-!
# What a step of the daemon can do

The cases of a step, and the frames that a move puts on the stacks.
-/

namespace Jerboa.Daemon

open Vm List Function

def Outcome.frames : Outcome → List Frame
  | .goto frame => [frame]
  | .call waiting callee => [callee, waiting]
  | .ret _ => []

def Move.frames (m : Move) : List Frame :=
  m.outcome.frames ++ m.spawn.toList

section Frames

variable {property : Frame → Prop} {action : Action} {events : List Event} {next waiting callee
  new : Frame} {value : Value}

theorem forall_frames_goto (holds : property next) :
    ∀ frame ∈ Move.frames ⟨action, events, none, .goto next⟩, property frame := by
  simpa [Move.frames, Outcome.frames] using holds

theorem forall_frames_call (holdsWaiting : property waiting) (holdsCallee : property callee) :
    ∀ frame ∈ Move.frames ⟨action, events, none, .call waiting callee⟩, property frame := by
  simpa [Move.frames, Outcome.frames] using ⟨holdsCallee, holdsWaiting⟩

theorem forall_frames_ret :
    ∀ frame ∈ Move.frames ⟨action, events, none, .ret value⟩, property frame := by
  simp [Move.frames, Outcome.frames]

theorem forall_frames_spawn (holds : property new) :
    ∀ frame ∈ Move.frames ⟨action, events, some new, .ret value⟩, property frame := by
  simpa [Move.frames, Outcome.frames] using holds

end Frames

def Frame.isResumed : Frame → Bool
  | .restartVM (.setCount ..) => true
  | .restartVM (.remove _) => true
  | .handleRun _ => true
  | .handleStart _ => true
  | _ => false

variable {frame top : Frame} {w : World} {m : Move} {rest : List Frame} {t : ThreadId} {s : Shared}

theorem isResumed_of_mem_resume {caller : Frame} {value : Value}
    (member : frame ∈ caller.resume value) : frame.isResumed = true := by
  revert member
  fun_cases Frame.resume caller value
  all_goals simp +contextual [Frame.isResumed]

@[simp]
theorem exited_vm (w : World) (p q : Ref) (waitErr : WaitErr) (stderr : String) :
    (w.exited p waitErr stderr).vm q = w.vm q := by
  by_cases same : q = p
  · subst same
    simp [World.exited, Shared.vm]
  · simp [World.exited, Shared.vm, update_of_ne same]

/-- A heap in which only processes and health statuses differ. -/
def World.Observed (w : World) (heap : Ref → Object) : Prop :=
  ∀ q, (heap q).origin = (w.heap q).origin ∧
    (heap q).vm = { w.vm q with healthStatus := (heap q).vm.healthStatus }

theorem step_cases {target : World} {label : Label} (stepped : w.step label = some target) :
    (∃ call, label = .call call ∧ target = w.spawn call.frame) ∨
      (∃ t choice frame rest m, label = .thread t choice ∧ w.threads t = frame :: rest ∧
        frame.move w.toShared t choice = some m ∧ target = w.perform t rest m) ∨
      ∃ heap, w.Observed heap ∧ target = { w with heap := heap } := by
  cases label with
  | call call => exact .inl ⟨call, rfl, (Option.some.inj stepped).symm⟩
  | thread t choice =>
    simp only [World.step] at stepped
    split at stepped
    · simp at stepped
    · rename_i frame rest stack
      obtain ⟨m, moved, rfl⟩ := Option.map_eq_some_iff.mp stepped
      exact .inr (.inl ⟨t, choice, frame, rest, m, rfl, stack, moved, rfl⟩)
  | exit p waitErr stderr =>
    simp only [World.step] at stepped
    split at stepped
    · refine .inr (.inr ⟨_, fun q => ?_, (Option.some.inj stepped).symm⟩)
      by_cases same : q = p <;> simp [same, Shared.vm]
    · simp at stepped
  | probe p status =>
    refine .inr (.inr ⟨_, fun q => ?_, (Option.some.inj stepped).symm⟩)
    by_cases same : q = p <;> simp [same, Shared.vm]

theorem threads_perform (w : World) (t u : ThreadId) (rest : List Frame) (m : Move) :
    (∃ new, m.spawn = some new ∧ u = w.threadNext ∧ (w.perform t rest m).threads u = [new]) ∨
      (u = t ∧ (w.perform t rest m).threads u = m.outcome.stack rest) ∨
      (u ≠ t ∧ (w.perform t rest m).threads u = w.threads u) := by
  unfold World.perform
  cases spawned : m.spawn with
  | none =>
    refine .inr ?_
    by_cases same : u = t
    · exact .inl ⟨same, by simp [same]⟩
    · exact .inr ⟨same, by simp [same]⟩
  | some new =>
    by_cases fresh : u = w.threadNext
    · exact .inl ⟨new, rfl, fresh, by simp [World.spawn, fresh]⟩
    · refine .inr ?_
      simp only [World.spawn, update_of_ne fresh]
      by_cases same : u = t
      · exact .inl ⟨same, by simp [same]⟩
      · exact .inr ⟨same, by simp [same]⟩

theorem mem_stack (member : frame ∈ m.outcome.stack rest) :
    frame ∈ rest ∨ frame ∈ m.frames ∨
      ∃ caller ∈ rest, ∃ value, m.outcome = .ret value ∧ frame ∈ caller.resume value := by
  cases outcome : m.outcome with
  | goto next =>
    rw [outcome] at member
    rcases mem_cons.mp member with rfl | old
    · exact .inr (.inl (by simp [Move.frames, outcome, Outcome.frames]))
    · exact .inl old
  | call waiting callee =>
    rw [outcome] at member
    simp only [Outcome.stack, mem_cons] at member
    rcases member with rfl | rfl | old
    · exact .inr (.inl (by simp [Move.frames, outcome, Outcome.frames]))
    · exact .inr (.inl (by simp [Move.frames, outcome, Outcome.frames]))
    · exact .inl old
  | ret value =>
    rw [outcome] at member
    cases rest with
    | nil => simp [Outcome.stack] at member
    | cons caller rest =>
      rcases mem_append.mp member with resumed | old
      · exact .inr (.inr ⟨caller, by simp, value, rfl, resumed⟩)
      · exact .inl (by simp [old])

theorem mem_threads_perform {u : ThreadId} (stack : w.threads t = top :: rest)
    (member : frame ∈ (w.perform t rest m).threads u) :
    frame ∈ w.threads u ∨ frame ∈ m.frames ∨
      ∃ caller ∈ rest, ∃ value, m.outcome = .ret value ∧ frame ∈ caller.resume value := by
  rcases threads_perform w t u rest m with ⟨new, spawned, -, same⟩ | ⟨rfl, same⟩ | ⟨-, same⟩
  · rw [same, mem_singleton] at member
    exact .inr (.inl (by simp [Move.frames, spawned, member]))
  · rw [same] at member
    rw [stack]
    exact (mem_stack member).imp_left (mem_cons_of_mem _)
  · rw [same] at member
    exact .inl member

theorem mem_threads_spawn {u : ThreadId} {new : Frame} (member : frame ∈ (w.spawn new).threads u) :
    frame ∈ w.threads u ∨ frame = new := by
  by_cases fresh : u = w.threadNext
  · subst fresh
    simp only [World.spawn, update_self, mem_singleton] at member
    exact .inr member
  · simp only [World.spawn, update_of_ne fresh] at member
    exact .inl member

theorem perform_toShared (w : World) (t : ThreadId) (rest : List Frame) (m : Move) :
    (w.perform t rest m).toShared =
      { w.toShared.act m.action with
        history := m.events ++ (w.toShared.act m.action).history } := by
  unfold World.perform
  cases m.spawn <;> rfl

theorem perform_vm (w : World) (t : ThreadId) (rest : List Frame) (m : Move) (p : Ref) :
    (w.perform t rest m).vm p = (w.toShared.act m.action).vm p := by
  rw [perform_toShared]
  rfl

theorem perform_vms (w : World) (t : ThreadId) (rest : List Frame) (m : Move) :
    (w.perform t rest m).vms = (w.toShared.act m.action).vms := by
  rw [perform_toShared]

theorem perform_heapNext (w : World) (t : ThreadId) (rest : List Frame) (m : Move) :
    (w.perform t rest m).heapNext = (w.toShared.act m.action).heapNext := by
  rw [perform_toShared]

theorem perform_history (w : World) (t : ThreadId) (rest : List Frame) (m : Move) :
    (w.perform t rest m).history = m.events ++ (w.toShared.act m.action).history := by
  rw [perform_toShared]

theorem perform_networks (w : World) (t : ThreadId) (rest : List Frame) (m : Move) :
    (w.perform t rest m).networks = (w.toShared.act m.action).networks := by
  rw [perform_toShared]

theorem move_induction {c : Choice} (property : Frame → Move → Prop)
    (moved : top.move s t c = some m) (create : ∀ pc, property (.create pc) (pc.move s c))
    (start : ∀ pc, property (.start pc) (pc.move s c))
    (stop : ∀ force pc, ∀ m ∈ pc.move s c force, property (.stop force pc) m)
    (remove : ∀ pc, property (.remove pc) (pc.move s c))
    (monitor : ∀ pc, ∀ m ∈ pc.move s c, property (.monitor pc) m)
    (restartVM : ∀ pc, ∀ m ∈ pc.move s c, property (.restartVM pc) m)
    (adoptMonitor : ∀ pc, ∀ m ∈ pc.move s c, property (.adoptMonitor pc) m)
    (autoRemove : ∀ pc, ∀ m ∈ pc.move s, property (.autoRemove pc) m)
    (handleRun : ∀ pc, ∀ m ∈ pc.move s t c, property (.handleRun pc) m)
    (handleStart : ∀ pc, ∀ m ∈ pc.move s t c, property (.handleStart pc) m) :
    property top m := by
  cases top with
  | create pc => exact Option.some.inj moved ▸ create pc
  | start pc => exact Option.some.inj moved ▸ start pc
  | stop force pc => exact stop force pc m moved
  | remove pc => exact Option.some.inj moved ▸ remove pc
  | monitor pc => exact monitor pc m moved
  | restartVM pc => exact restartVM pc m moved
  | adoptMonitor pc => exact adoptMonitor pc m moved
  | autoRemove pc => exact autoRemove pc m moved
  | handleRun pc => exact handleRun pc m moved
  | handleStart pc => exact handleStart pc m moved

/-! The VM objects that a frame holds. -/

def CreatePc.refs : CreatePc → List Ref
  | .validate _ parent _ | .register _ parent _ => parent.toList
  | .persist vm => [vm]

def StartPc.refs : StartPc → List Ref
  | .resolve _ => []
  | .transition vm | .assignTap vm | .bootImage vm | .fail vm | .launch vm | .attach vm
  | .limits vm | .run vm | .save vm | .publish vm | .monitor vm | .abort vm
  | .abortMonitor vm => [vm]

def StopPc.refs : StopPc → List Ref
  | .resolve _ => []
  | .check vm | .transition vm | .save vm | .flag vm | .signal vm | .wait vm | .kill vm => [vm]

def RemovePc.refs : RemovePc → List Ref
  | .resolve _ => []
  | .check vm | .delete vm => [vm]

def MonitorPc.refs : MonitorPc → List Ref
  | .wait vm | .stop vm _ | .save vm _ | .decide vm _ => [vm]

def RestartPc.refs : RestartPc → List Ref
  | .sleep old | .creating old _ | .starting old | .remove old => [old]
  | .setCount old new _ | .save old new | .start old new => [old, new]

def AdoptPc.refs : AdoptPc → List Ref
  | .poll vm | .stop vm | .save vm => [vm]

def AutoRemovePc.refs : AutoRemovePc → List Ref
  | .wait vm => [vm]
  | .removing => []

def RunPc.refs : RunPc → List Ref
  | .lock _ | .prepare _ | .network _ _ | .address _ _ _ | .unique _ | .checkName _
  | .creating _ | .release _ | .unlock => []
  | .unlockName _ result => result.toList
  | .created _ vm | .starting _ vm | .startFailed _ vm | .removing _ vm | .finish _ vm => [vm]

def HandleStartPc.refs : HandleStartPc → List Ref
  | .lock _ | .get _ | .reget _ | .starting _ | .removing _ | .release _ | .unlock => []
  | .claim old | .check _ old | .creating _ old | .cleanup _ old => [old]
  | .created _ old new | .replacing _ old new => [old, new]

def Frame.refs : Frame → List Ref
  | .create pc => pc.refs
  | .start pc => pc.refs
  | .stop _ pc => pc.refs
  | .remove pc => pc.refs
  | .monitor pc => pc.refs
  | .restartVM pc => pc.refs
  | .adoptMonitor pc => pc.refs
  | .autoRemove pc => pc.refs
  | .handleRun pc => pc.refs
  | .handleStart pc => pc.refs


def Value.refs : Value → List Ref
  | .ok _ => []
  | .vm created => created.toList

def Outcome.refs : Outcome → List Ref
  | .goto frame => frame.refs
  | .call waiting callee => callee.refs ++ waiting.refs
  | .ret value => value.refs

def Move.refs (m : Move) : List Ref :=
  m.outcome.refs ++ m.spawn.toList.flatMap Frame.refs

theorem mem_refs_of_mem_frames {r : Ref} (new : frame ∈ m.frames) (holds : r ∈ frame.refs) :
    r ∈ m.refs := by
  rcases mem_append.mp new with stacked | spawned
  · refine mem_append_left _ ?_
    cases outcome : m.outcome with
    | goto next => simp_all [Outcome.frames, Outcome.refs]
    | call waiting callee =>
      rw [outcome] at stacked
      simp only [Outcome.frames, mem_cons, not_mem_nil, or_false] at stacked
      rcases stacked with rfl | rfl <;> simp [Outcome.refs, holds]
    | ret value => simp [outcome, Outcome.frames] at stacked
  · exact mem_append_right _ (mem_flatMap.mpr ⟨frame, spawned, holds⟩)

def HandsOn (s : Shared) (top : Frame) (m : Move) : Prop :=
  ∀ r ∈ m.refs, r ∈ top.refs ∨ (∃ id, (id, r) ∈ s.vms) ∨
    (r = s.heapNext ∧ ∃ id cfg now parent cause, m.action = .register id cfg now parent cause)

theorem HandsOn.of_subset (kept : m.refs ⊆ top.refs) :
    HandsOn s top m :=
  fun _ member => .inl (kept member)

theorem HandsOn.of_resolve {ref : String} {pick : Nat} {vm : Ref}
    (found : s.resolve ref pick = some vm) (only : m.refs = [vm]) :
    HandsOn s top m := by
  intro r member
  rw [only, mem_singleton] at member
  exact .inr (.inl (member ▸ mem_vms_of_resolve found))

theorem handsOn_of_move {choice : Choice} (moved : top.move s t choice = some m) :
    HandsOn s top m := by
  apply move_induction (HandsOn s) moved
  case' create =>
    intro pc
    cases pc
    case register cfg parent cause =>
      rw [CreatePc.move]
      split
      · simp [HandsOn, Move.refs, Outcome.refs, Frame.refs, CreatePc.refs]
      · exact .of_subset (nil_subset _)
    all_goals
      rw [CreatePc.move]
      split
  case' start =>
    intro pc
    cases pc
    case resolve ref =>
      rw [StartPc.move]
      cases found : s.resolve ref choice.pick with
      | none => exact .of_subset (nil_subset _)
      | some vm => exact .of_resolve found rfl
    all_goals
      rw [StartPc.move]
      try split
  case' stop =>
    intro force pc
    cases pc
    case resolve ref =>
      rw [StopPc.move]
      cases found : s.resolve ref choice.pick with
      | none =>
        rintro _ ⟨⟩
        exact .of_subset (nil_subset _)
      | some vm =>
        rintro _ ⟨⟩
        exact .of_resolve found rfl
    all_goals
      rw [StopPc.move]
      (repeat' split) <;> rintro _ ⟨⟩
  case' remove =>
    intro pc
    cases pc
    case resolve ref =>
      rw [RemovePc.move]
      cases found : s.resolve ref choice.pick with
      | none => exact .of_subset (nil_subset _)
      | some vm => exact .of_resolve found rfl
    all_goals
      rw [RemovePc.move]
      (repeat' split)
  case' handleRun =>
    intro pc
    cases pc
    case finish job vm =>
      rintro _ ⟨⟩
      apply HandsOn.of_subset
      cases job.autoRemove <;>
        simp [Move.refs, Outcome.refs, Frame.refs, RunPc.refs, AutoRemovePc.refs]
    case' unlockName job result => cases result
    all_goals
      rw [RunPc.move]
      (repeat' split) <;> rintro _ ⟨⟩
  case' handleStart =>
    intro pc
    cases pc
    case get ref =>
      rw [HandleStartPc.move]
      cases found : s.resolve ref choice.pick with
      | none =>
        rintro _ ⟨⟩
        exact .of_subset (nil_subset _)
      | some old =>
        rintro _ ⟨⟩
        exact .of_resolve found rfl
    case reget id =>
      rw [HandleStartPc.move]
      cases found : s.resolve id choice.pick with
      | none =>
        rintro _ ⟨⟩
        exact .of_subset (nil_subset _)
      | some old =>
        rintro _ ⟨⟩
        exact .of_resolve found rfl
    all_goals
      rw [HandleStartPc.move]
      (repeat' split) <;> rintro _ ⟨⟩
  case' monitor =>
    intro pc
    cases pc <;> rw [MonitorPc.move] <;> (repeat' split) <;> rintro _ ⟨⟩
  case' restartVM =>
    intro pc
    cases pc <;> rw [RestartPc.move] <;> (repeat' split) <;> rintro _ ⟨⟩
  case' adoptMonitor =>
    intro pc
    cases pc <;> rw [AdoptPc.move] <;> (repeat' split) <;> rintro _ ⟨⟩
  case' autoRemove =>
    intro pc
    cases pc <;> rw [AutoRemovePc.move] <;> (repeat' split) <;> rintro _ ⟨⟩
  -- the other moves hand on what the frame holds already
  all_goals
    apply HandsOn.of_subset
    first
      | exact List.Subset.refl _
      | exact nil_subset _
      | simp [Move.refs, Outcome.refs, Frame.refs, RestartPc.refs, HandleStartPc.refs,
          CreatePc.refs, StartPc.refs]

theorem refs_of_mem_resume {caller : Frame} {value : Value} (member : frame ∈ caller.resume value) :
    frame.refs ⊆ caller.refs ++ value.refs := by
  revert member
  fun_cases Frame.resume caller value
  all_goals simp +contextual [Frame.refs, RestartPc.refs, RunPc.refs, HandleStartPc.refs, Value.refs]

/-! ### Grounded states -/

/-- Only started goroutines have frames, every address in use is allocated, and
the registry keys are the IDs. -/
structure World.Grounded (w : World) : Prop where
  idle : ∀ t : Nat, w.threadNext ≤ t → w.threads t = []
  refs_lt : ∀ t, ∀ frame ∈ w.threads t, ∀ r ∈ frame.refs, r < w.heapNext
  registered_lt : ∀ entry ∈ w.vms, entry.2 < w.heapNext
  registered_id : ∀ entry ∈ w.vms, (w.vm entry.2).id = entry.1

theorem World.Grounded.started {t : Nat} (grounded : w.Grounded) (stack : w.threads t = top :: rest) : t < w.threadNext := by
  by_contra late
  simp [grounded.idle t (by omega)] at stack

theorem perform_threadNext (w : World) (t : ThreadId) (rest : List Frame) (m : Move) :
    (w.perform t rest m).threadNext =
      if m.spawn.isSome then w.threadNext + 1 else w.threadNext := by
  unfold World.perform
  cases m.spawn <;> rfl

theorem World.Grounded.threads_beyond {t u : Nat} (grounded : w.Grounded)
    (stack : w.threads t = top :: rest) (beyond : (w.perform t rest m).threadNext ≤ u) :
    (w.perform t rest m).threads u = [] := by
  have started := grounded.started stack
  rw [perform_threadNext] at beyond
  rcases threads_perform w t u rest m with ⟨new, spawned, rfl, -⟩ | ⟨rfl, -⟩ | ⟨-, same⟩
  · rw [spawned, Option.isSome_some, if_pos rfl] at beyond
    omega
  · split at beyond <;> omega
  · rw [same]
    refine grounded.idle u ?_
    split at beyond <;> omega

theorem World.Grounded.spawn (grounded : w.Grounded) (holdsNothing : frame.refs = []) :
    (w.spawn frame).Grounded where
  idle t beyond := by
    have later : w.threadNext + 1 ≤ t := beyond
    have different : t ≠ w.threadNext := by omega
    simp only [World.spawn, update_of_ne different]
    exact grounded.idle t (by omega)
  refs_lt t new member r holds := by
    rcases mem_threads_spawn member with old | rfl
    · exact grounded.refs_lt t new old r holds
    · simp [holdsNothing] at holds
  registered_lt := grounded.registered_lt
  registered_id := grounded.registered_id

theorem World.Grounded.perform {choice : Choice} (grounded : w.Grounded)
    (stack : w.threads t = top :: rest) (moved : top.move w.toShared t choice = some m) :
    (w.perform t rest m).Grounded where
  idle u beyond := grounded.threads_beyond stack beyond
  refs_lt u frame member r holds := by
    have grows : w.heapNext ≤ (w.perform t rest m).heapNext := by
      rw [perform_toShared]
      exact heapNext_le_act w.toShared m.action
    have handed : r ∈ m.refs → r < (w.perform t rest m).heapNext := by
      intro member
      rcases handsOn_of_move moved r member with held | ⟨id, registered⟩ |
        ⟨rfl, id, cfg, now, parent, cause, action⟩
      · exact Nat.lt_of_lt_of_le (grounded.refs_lt t top (by simp [stack]) r held) grows
      · exact Nat.lt_of_lt_of_le (grounded.registered_lt _ registered) grows
      · rw [perform_toShared, action]
        exact Nat.lt_succ_self _
    rcases mem_threads_perform stack member with old | new | ⟨caller, waiting, value, ret, resumed⟩
    · exact Nat.lt_of_lt_of_le (grounded.refs_lt u frame old r holds) grows
    · exact handed (mem_refs_of_mem_frames new holds)
    · rcases mem_append.mp (refs_of_mem_resume resumed holds) with kept | returned
      · have bound := grounded.refs_lt t caller (by simp [stack, waiting]) r kept
        exact Nat.lt_of_lt_of_le bound grows
      · exact handed (by simp [Move.refs, ret, Outcome.refs, returned])
  registered_lt entry member := by
    rw [perform_toShared] at member ⊢
    have grows := heapNext_le_act w.toShared m.action
    rcases mem_act_vms member with old | ⟨id, cfg, now, parent, cause, action, rfl⟩
    · exact Nat.lt_of_lt_of_le (grounded.registered_lt entry old) grows
    · rw [action]
      exact Nat.lt_succ_self _
  registered_id entry member := by
    rw [perform_toShared] at member ⊢
    rcases mem_act_vms member with old | ⟨id, cfg, now, parent, cause, action, rfl⟩
    · exact (act_id m.action (grounded.registered_lt entry old)).trans
        (grounded.registered_id entry old)
    · simp [action, Shared.act, Shared.vm, Shared.newObject, newVM]

theorem grounded_of_reachable {allowed : World → Label → Prop}
    (reached : system.ReachableUnder allowed w) : w.Grounded := by
  refine reached.invariant ?_ ?_
  · rintro w ⟨kind, networks, sha256Hex, -, rfl⟩
    exact ⟨fun _ _ => rfl, by simp [World.initial], by simp [World.initial],
      by simp [World.initial]⟩
  · intro w label target _ grounded _ stepped
    rcases step_cases stepped with ⟨call, rfl, rfl⟩ |
      ⟨t, choice, frame, rest, m, rfl, stack, moved, rfl⟩ | ⟨heap, observed, rfl⟩
    · exact grounded.spawn (by cases call <;> rfl)
    · exact grounded.perform stack moved
    · refine { grounded with registered_id := fun entry member => ?_ }
      exact (congrArg VM.id (observed _).2).trans (grounded.registered_id entry member)

/-! ### The frames of a state -/

def World.frames (w : World) : List Frame :=
  (List.range w.threadNext).flatMap w.threads

theorem World.Grounded.mem_frames {t : Nat} (grounded : w.Grounded) (member : frame ∈ w.threads t) :
    frame ∈ w.frames := by
  have started : t < w.threadNext := by
    by_contra late
    simp [grounded.idle t (by omega)] at member
  exact mem_flatMap.mpr ⟨t, mem_range.mpr started, member⟩

theorem exists_thread_of_mem_frames (member : frame ∈ w.frames) :
    ∃ t, frame ∈ w.threads t := by
  obtain ⟨t, -, inStack⟩ := mem_flatMap.mp member
  exact ⟨t, inStack⟩

theorem World.Grounded.mem_frames_perform (grounded : w.Grounded)
    (stack : w.threads t = top :: rest) (member : frame ∈ (w.perform t rest m).frames) :
    frame ∈ w.frames ∨ frame ∈ m.frames ∨ frame.isResumed = true := by
  obtain ⟨u, inStack⟩ := exists_thread_of_mem_frames member
  rcases mem_threads_perform stack inStack with old | new | ⟨_, _, _, _, resumed⟩
  · exact .inl (grounded.mem_frames old)
  · exact .inr (.inl new)
  · exact .inr (.inr (isResumed_of_mem_resume resumed))

theorem World.Grounded.mem_frames_spawn {new : Frame} (grounded : w.Grounded)
    (member : frame ∈ (w.spawn new).frames) : frame ∈ w.frames ∨ frame = new := by
  obtain ⟨u, inStack⟩ := exists_thread_of_mem_frames member
  exact (mem_threads_spawn inStack).imp_left grounded.mem_frames

end Jerboa.Daemon
