import Jerboa.DaemonStacks

/-!
# The server's lock and the grip of goroutines on a VM

`handleRun` and `handleStart` hold `resourceMu` from their first step to their
last, so only one of them is under way, and only it touches the networks.  The
goroutines outside the lock reach a VM only if they already had a grip on it.
-/

namespace Jerboa.Daemon

open Vm NetworkStore List

/-! ### The lock -/

/-- Inside the critical section of `handleRun` or `handleStart`. -/
def Frame.critical : Frame → Bool
  | .handleRun (.lock _) => false
  | .handleRun _ => true
  | .handleStart (.lock _) => false
  | .handleStart _ => true
  | _ => false

def Action.isServer : Action → Bool
  | .lockResource _ => true
  | .unlockResource => true
  | .setNetworks _ => true
  | _ => false

/-- What a move of a goroutine does about the lock. -/
structure LockMove (s : Shared) (t : ThreadId) (top : Frame) (m : Move) : Prop where
  lock : ∀ u, m.action = .lockResource u → u = t ∧ s.resourceMu = none
  unlock : m.action = .unlockResource → top.critical = true ∧ m.frames = []
  networks : ∀ networks, m.action = .setNetworks networks → top.critical = true
  enters : ∀ frame ∈ m.frames, frame.critical = true →
    top.critical = true ∨ m.action = .lockResource t
  spawned : ∀ frame ∈ m.spawn, frame.critical = false

variable {top : Frame} {s : Shared} {t : ThreadId} {m : Move}

theorem LockMove.of_outside (action : m.action.isServer = false)
    (frames : (m.frames.all fun frame => !frame.critical) = true) : LockMove s t top m where
  lock u same := by simp [same, Action.isServer] at action
  unlock same := by simp [same, Action.isServer] at action
  networks _ same := by simp [same, Action.isServer] at action
  enters frame member critical := by
    have outside := all_eq_true.mp frames frame member
    simp [critical] at outside
  spawned frame new := by
    have member : frame ∈ m.frames := mem_append_right _ (Option.mem_toList.mpr new)
    simpa using all_eq_true.mp frames frame member

theorem LockMove.of_inside
    (critical : top.critical = true) (notLock : ∀ u, m.action ≠ .lockResource u)
    (unlock : m.action = .unlockResource → m.frames = [])
    (spawned : ∀ frame ∈ m.spawn, frame.critical = false) : LockMove s t top m where
  lock u same := absurd same (notLock u)
  unlock same := ⟨critical, unlock same⟩
  networks _ _ := critical
  enters _ _ _ := .inl critical
  spawned := spawned

theorem LockMove.of_lock {next : Frame} (free : s.resourceMu = none) :
    LockMove s t top { action := .lockResource t, outcome := .goto next } where
  lock u same := ⟨(Action.lockResource.inj same).symm, free⟩
  unlock := by simp
  networks := by simp
  enters _ _ _ := .inr rfl
  spawned := by simp

theorem critical_of_mem_resume {caller frame : Frame} {value : Value}
    (member : frame ∈ caller.resume value) (critical : frame.critical = true) :
    caller.critical = true := by
  revert member critical
  fun_cases Frame.resume caller value
  all_goals simp +contextual [Frame.critical]

def Outcome.returnsNoVM : Outcome → Bool
  | .ret (.vm (some _)) => false
  | _ => true

def Frame.isStartCall : Frame → Bool
  | .start (.resolve _) => true
  | _ => false

def Frame.isHandleRun : Frame → Bool
  | .handleRun _ => true
  | _ => false

def Action.dropped : Action → Option String
  | .unregister id | .remove id => some id
  | _ => none

def Frame.takesOut (choice : Choice) : Frame → Option Ref
  | .remove (.delete vm) | .restartVM (.remove vm) => some vm
  | .create (.persist vm) => if choice.ok then none else some vm
  | _ => none

/-- What is the same for the moves of all programs: which frames they start,
which return a VM, which do more to the VMs than change them, which lead to a
`Start` or a Run request, and which take a VM out of the registry. -/
structure Regular (s : Shared) (choice : Choice) (top : Frame) (m : Move) : Prop where
  root : top.isRoot = true → RootOutcome s m.outcome
  spawned : m.spawn.all Frame.isRoot = true
  returns : (∃ pc, top = .create pc) ∨ m.outcome.returnsNoVM = true
  quiet : m.action.isQuiet = true ∨ (∃ cfg parent cause, top = .create (.register cfg parent cause)) ∨
    (top.critical = true ∧ ∃ networks, m.action = .setNetworks networks)
  calls : top.critical = true ∨ (∃ old new, top = .restartVM (.start old new)) ∨
    (m.frames.all fun frame => !frame.isStartCall) = true
  runs : top.isHandleRun = true ∨ (m.frames.all fun frame => !frame.isHandleRun) = true
  dropped : ∀ id, m.action.dropped = some id → ∃ vm ∈ top.takesOut choice, id = (s.vm vm).id

theorem conduct_of_move {choice : Choice} (moved : top.move s t choice = some m) :
    LockMove s t top m ∧ Regular s choice top m := by
  apply move_induction (fun top m => LockMove s t top m ∧ Regular s choice top m) moved
  case' create => intro pc; cases pc <;> rw [CreatePc.move] <;> split
  case' start => intro pc; cases pc <;> rw [StartPc.move] <;> try split
  case' stop =>
    intro force pc
    cases pc <;> rw [StopPc.move] <;> (repeat' split) <;> rintro _ ⟨⟩
  case' remove => intro pc; cases pc <;> rw [RemovePc.move] <;> (repeat' split)
  case' monitor =>
    intro pc
    cases pc <;> rw [MonitorPc.move] <;> (repeat' split) <;> rintro _ ⟨⟩
  case' restartVM =>
    intro pc
    cases pc <;> rw [RestartPc.move] <;> (repeat' split) <;> rintro _ ⟨⟩
  case' adoptMonitor =>
    intro pc
    cases pc <;> rw [AdoptPc.move] <;> (repeat' split) <;> rintro _ ⟨⟩
  case' autoRemove =>
    intro pc
    cases pc <;> rw [AutoRemovePc.move] <;> (repeat' split) <;> rintro _ ⟨⟩
  case' handleRun =>
    intro pc
    cases pc
    case' lock p =>
      rw [RunPc.move]
      split <;> rintro _ ⟨⟩
      refine ⟨.of_lock ‹_›, ?_⟩
    case' finish job vm =>
      rintro _ ⟨⟩
      cases job.autoRemove
    case' unlockName job result => cases result <;> rintro _ ⟨⟩
    case' prepare | network | address | unique | checkName | creating | created | starting
        | startFailed | removing | release | unlock =>
      rw [RunPc.move]
      (repeat' split) <;> rintro _ ⟨⟩
  case' handleStart =>
    intro pc
    cases pc
    case' lock ref =>
      rw [HandleStartPc.move]
      split <;> rintro _ ⟨⟩
      refine ⟨.of_lock ‹_›, ?_⟩
    case' get | claim | reget | check | starting | creating | created | replacing | cleanup
        | removing | release | unlock =>
      rw [HandleStartPc.move]
      (repeat' split) <;> rintro _ ⟨⟩
  -- the programs of the manager do not touch the lock
  all_goals try refine ⟨?_, ?_⟩
  all_goals first
    | exact .of_outside rfl rfl
    | exact .of_outside (by split <;> rfl) rfl
    | exact .of_inside rfl (by simp) (by first | exact fun _ => rfl | simp) (by simp [Frame.critical])
    | constructor
      · first
          | exact fun _ => rfl
          | exact fun _ => trivial
          | exact fun root => Bool.noConfusion root
          | exact fun _ => .restartCreating rfl
          | exact fun _ => .restartStarting
          | exact fun _ => .autoRemoving
          | exact fun _ => .runCreating rfl rfl
          | exact fun _ => .runStarting rfl
          | exact fun _ => .runRemoving rfl
          | exact fun _ => .startCreating rfl
          | exact fun _ => .startStarting
          | exact fun _ => .startReplacing
          | exact fun _ => .startRemoving
      · rfl
      · first | exact .inr rfl | exact .inl ⟨_, rfl⟩
      · first
          | exact .inl rfl
          | exact .inr (.inl ⟨_, _, _, rfl⟩)
          | exact .inr (.inr ⟨rfl, _, rfl⟩)
      · first | exact .inr (.inr rfl) | exact .inl rfl | exact .inr (.inl ⟨_, _, rfl⟩)
      · first | exact .inr rfl | exact .inl rfl
      · first
          | (rintro _ ⟨⟩; done)
          | (rintro _ ⟨⟩; exact ⟨_, rfl, rfl⟩)
          | (rintro _ ⟨⟩; exact ⟨_, by simp [Frame.takesOut, *], rfl⟩)

theorem Shape.move {choice : Choice} {rest : List Frame} (shape : Shape s (top :: rest))
    (own : ∀ caller ∈ rest, ∀ p ∈ caller.refs, ∀ q,
      s.resolve (s.vm p).id choice.pick = some q → q = p) (moved : top.move s t choice = some m) :
    Shape s (m.outcome.stack rest) := by
  rcases shape.cases with ⟨rfl, root⟩ | ⟨caller, rfl, calls⟩
  · have outcome := (conduct_of_move moved).2.root root
    cases kind : m.outcome with
    | ret value => trivial
    | _ =>
      rw [kind] at outcome
      exact outcome
  · have outcome := goesOn_of_move calls (own caller mem_cons_self) moved
    cases kind : m.outcome with
    | goto next =>
      rw [kind] at outcome
      exact outcome
    | call waiting callee =>
      rw [kind] at outcome
      exact outcome.elim
    | ret value =>
      rw [Outcome.stack, append_nil]
      exact shape_resume caller value

def World.Locked (w : World) : Prop :=
  ∀ t, ∀ frame ∈ w.threads t, frame.critical = true → w.resourceMu = some t

theorem act_resourceMu (s : Shared) (a : Action) :
    (s.act a).resourceMu = s.resourceMu ∨
      (∃ t, a = .lockResource t ∧ (s.act a).resourceMu = some t) ∨ a = .unlockResource := by
  cases a with
  | lockResource t => exact .inr (.inl ⟨t, rfl, rfl⟩)
  | unlockResource => exact .inr (.inr rfl)
  | save p =>
    refine .inl ?_
    simp only [Shared.act]
    split <;> rfl
  | _ => exact .inl rfl

theorem Move.outcome_of_frames_nil (nil : m.frames = []) :
    ∃ value, m.outcome = .ret value := by
  have none := (append_eq_nil_iff.mp nil).1
  cases outcome : m.outcome with
  | ret value => exact ⟨value, rfl⟩
  | goto next => simp [outcome, Outcome.frames] at none
  | call waiting callee => simp [outcome, Outcome.frames] at none

theorem Shape.eq_nil {rest : List Frame}
    (shape : Shape s (top :: rest)) (critical : top.critical = true) : rest = [] := by
  rcases shape.cases with ⟨nil, -⟩ | ⟨caller, -, calls⟩
  · exact nil
  · cases calls <;> simp [Frame.critical] at critical

variable {w : World} {t : ThreadId} {choice : Choice} {top : Frame} {rest : List Frame}
  {m : Move}

theorem World.Locked.perform (locked : w.Locked) (shape : Shape w.toShared (top :: rest))
    (stack : w.threads t = top :: rest) (moved : top.move w.toShared t choice = some m) :
    (w.perform t rest m).Locked := by
  have move := (conduct_of_move moved).1
  have holder {u : ThreadId} {frame : Frame} (member : frame ∈ w.threads u)
      (critical : frame.critical = true) (free : m.action ≠ .unlockResource) :
      (w.perform t rest m).resourceMu = some u := by
    have held := locked u frame member critical
    rw [perform_toShared]
    rcases act_resourceMu w.toShared m.action with same | ⟨v, action, -⟩ | action
    · exact same.trans held
    · simp [(move.lock v action).2] at held
    · exact absurd action free
  have acquired (action : m.action = .lockResource t) :
      (w.perform t rest m).resourceMu = some t := by
    rw [perform_toShared, action]
    rfl
  have mine {frame : Frame} (member : frame ∈ top :: rest) : frame ∈ w.threads t := by
    rw [stack]
    exact member
  intro u frame member critical
  by_cases unlocks : m.action = .unlockResource
  · -- the lock is given back with the last frame of the goroutine that held it
    obtain ⟨inside, nil⟩ := move.unlock unlocks
    obtain ⟨value, outcome⟩ := Move.outcome_of_frames_nil nil
    obtain rfl := shape.eq_nil inside
    have held := locked t top (mine mem_cons_self) inside
    rcases threads_perform w t u [] m with ⟨new, spawned, -, -⟩ | ⟨-, same⟩ | ⟨other, same⟩
    · simp [Move.frames, spawned] at nil
    · simp [same, outcome, Outcome.stack] at member
    · rw [same] at member
      have heldToo := locked u frame member critical
      rw [held] at heldToo
      exact absurd (Option.some.inj heldToo).symm other
  · rcases threads_perform w t u rest m with ⟨new, spawned, -, same⟩ | ⟨rfl, same⟩ | ⟨-, same⟩
    · rw [same, mem_singleton] at member
      subst member
      simp [move.spawned frame spawned] at critical
    · rw [same] at member
      rcases mem_stack member with old | new | ⟨caller, waiting, value, -, resumed⟩
      · exact holder (mine (mem_cons_of_mem _ old)) critical unlocks
      · rcases move.enters frame new critical with inside | action
        · exact holder (mine mem_cons_self) inside unlocks
        · exact acquired action
      · exact holder (mine (mem_cons_of_mem _ waiting))
          (critical_of_mem_resume resumed critical) unlocks
    · rw [same] at member
      exact holder member critical unlocks

end Jerboa.Daemon
