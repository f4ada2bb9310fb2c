import Jerboa.LineageRegistration

/-!
# The stacks of the daemon's goroutines

A handler calls at most one method of the manager at a time, and that method
works on what the handler called it for.
-/

namespace Jerboa.Daemon

open Vm NetworkStore

variable {s target : Shared}

/-! ### Who calls whom -/

/-- Frames that a call of the server or a goroutine of the manager starts with
and stays in. -/
def Frame.isRoot : Frame → Bool
  | .create _ | .start _ => false
  | _ => true

def CreatePc.HasParent (parent : Option Ref) : CreatePc → Prop
  | .validate _ p _ | .register _ p _ => p = parent
  | .persist _ => True

def CreatePc.HasConfig (cfg : Config) : CreatePc → Prop
  | .validate c _ _ | .register c _ _ => c = cfg
  | .persist _ => True

def StartPc.Targets (s : Shared) (vm : Ref) : StartPc → Prop
  | .resolve ref => ref = (s.vm vm).id
  | .transition p | .assignTap p | .bootImage p | .fail p | .launch p | .attach p | .limits p
  | .run p | .save p | .publish p | .monitor p | .abort p | .abortMonitor p => p = vm

def RemovePc.Targets (s : Shared) (vm : Ref) : RemovePc → Prop
  | .resolve ref => ref = (s.vm vm).id
  | .check p | .delete p => p = vm

/-- The callee works on what its caller wants. -/
inductive Calls (s : Shared) : Frame → Frame → Prop
  | runCreating {job : RunJob} {pc : CreatePc} (config : pc.HasConfig job.cfg)
      (parent : pc.HasParent none) : Calls s (.handleRun (.creating job)) (.create pc)
  | runStarting {job : RunJob} {vm : Ref} {pc : StartPc} (targets : pc.Targets s vm) :
      Calls s (.handleRun (.starting job vm)) (.start pc)
  | runRemoving {job : RunJob} {vm : Ref} {pc : RemovePc} (targets : pc.Targets s vm) :
      Calls s (.handleRun (.removing job vm)) (.remove pc)
  | restartCreating {old : Ref} {restarts : Nat} {pc : CreatePc}
      (parent : pc.HasParent (some old)) : Calls s (.restartVM (.creating old restarts)) (.create pc)
  | restartStarting {old : Ref} {pc : StartPc} : Calls s (.restartVM (.starting old)) (.start pc)
  | autoRemoving {pc : RemovePc} : Calls s (.autoRemove .removing) (.remove pc)
  | startCreating {id : String} {old : Ref} {pc : CreatePc} (parent : pc.HasParent (some old)) :
      Calls s (.handleStart (.creating id old)) (.create pc)
  | startStarting {id : String} {pc : StartPc} : Calls s (.handleStart (.starting id)) (.start pc)
  | startReplacing {id : String} {old new : Ref} {pc : StartPc} :
      Calls s (.handleStart (.replacing id old new)) (.start pc)
  | startRemoving {id : String} {pc : RemovePc} :
      Calls s (.handleStart (.removing id)) (.remove pc)

variable {vm : Ref} {choice : Choice} {m : Move} {t : ThreadId} {top : Frame}

theorem Shared.Kept.startTargets (kept : s.Kept target) (known : vm < s.heapNext) {pc : StartPc}
    (targets : pc.Targets s vm) : pc.Targets target vm := by
  cases pc with
  | resolve ref => exact targets.trans (kept.id vm known).symm
  | _ => exact targets

theorem Shared.Kept.removeTargets (kept : s.Kept target) (known : vm < s.heapNext) {pc : RemovePc}
    (targets : pc.Targets s vm) : pc.Targets target vm := by
  cases pc with
  | resolve ref => exact targets.trans (kept.id vm known).symm
  | _ => exact targets

theorem Shared.Kept.calls (kept : s.Kept target) {caller callee : Frame}
    (known : ∀ r ∈ caller.refs, r < s.heapNext) (calls : Calls s caller callee) :
    Calls target caller callee := by
  cases calls with
  | runCreating config parent => exact .runCreating config parent
  | runStarting targets =>
    exact .runStarting (kept.startTargets (known _ List.mem_cons_self) targets)
  | runRemoving targets =>
    exact .runRemoving (kept.removeTargets (known _ List.mem_cons_self) targets)
  | restartCreating parent => exact .restartCreating parent
  | restartStarting => exact .restartStarting
  | autoRemoving => exact .autoRemoving
  | startCreating parent => exact .startCreating parent
  | startStarting => exact .startStarting
  | startReplacing => exact .startReplacing
  | startRemoving => exact .startRemoving

theorem Shared.Lineage.resolve_own (lineage : s.Lineage)
    (known : ∀ entry ∈ s.vms, entry.2 < s.heapNext)
    (keyed : ∀ entry ∈ s.vms, (s.vm entry.2).id = entry.1) {p q : Nat} {pick : Nat}
    (knownP : p < s.heapNext) (resolved : s.resolve (s.vm p).id pick = some q) : q = p := by
  rw [resolve_isID pick (lineage.ids_drawn p knownP)] at resolved
  · have registered := mem_vms_of_get resolved
    exact lineage.ids_distinct q p (known _ registered) knownP (keyed _ registered)
  · intro entry member
    rw [← keyed entry member]
    exact lineage.ids_drawn _ (known entry member)
  · exact fun entry member => lineage.names_apart _ p (known entry member) knownP

def Shape (s : Shared) : List Frame → Prop
  | [] => True
  | [frame] => frame.isRoot = true
  | [callee, caller] => Calls s caller callee
  | _ => False

def RootOutcome (s : Shared) : Outcome → Prop
  | .goto next => next.isRoot = true
  | .call waiting callee => Calls s waiting callee
  | .ret _ => True

/-! Callees go on with the same target. -/

def Outcome.GoesOn (property : Frame → Prop) : Outcome → Prop
  | .goto next => property next
  | .call _ _ => False
  | .ret _ => True

variable {property : Frame → Prop}

theorem CreatePc.goesOn (c : Choice) {parent : Option Ref} (pc : CreatePc)
    (hasParent : pc.HasParent parent)
    (holds : ∀ pc', pc'.HasParent parent → (∀ cfg, pc.HasConfig cfg → pc'.HasConfig cfg) →
      property (.create pc')) : (pc.move s c).outcome.GoesOn property := by
  fun_cases CreatePc.move s c pc
  case case2 => exact holds _ hasParent fun _ hasConfig => hasConfig
  case case3 => exact holds _ trivial fun _ _ => trivial
  all_goals trivial

theorem StartPc.goesOn (c : Choice) (pc : StartPc) (targets : pc.Targets s vm)
    (own : ∀ q, s.resolve (s.vm vm).id c.pick = some q → q = vm)
    (holds : ∀ pc', pc'.Targets s vm → property (.start pc')) :
    (pc.move s c).outcome.GoesOn property := by
  fun_cases StartPc.move s c pc
  case case2 ref p found =>
    obtain rfl : ref = (s.vm vm).id := targets
    exact holds _ (own p found)
  all_goals first
    | trivial
    | exact holds _ targets

theorem RemovePc.goesOn (c : Choice) (pc : RemovePc) (targets : pc.Targets s vm)
    (own : ∀ q, s.resolve (s.vm vm).id c.pick = some q → q = vm)
    (holds : ∀ pc', pc'.Targets s vm → property (.remove pc')) :
    (pc.move s c).outcome.GoesOn property := by
  fun_cases RemovePc.move s c pc
  case case2 ref p found =>
    obtain rfl : ref = (s.vm vm).id := targets
    exact holds _ (own p found)
  all_goals first
    | trivial
    | exact holds _ targets

theorem StartPc.goesOn_start (c : Choice) (pc : StartPc) (holds : ∀ pc', property (.start pc')) :
    (pc.move s c).outcome.GoesOn property := by
  fun_cases StartPc.move s c pc
  all_goals first
    | trivial
    | exact holds _

theorem RemovePc.goesOn_remove (c : Choice) (pc : RemovePc)
    (holds : ∀ pc', property (.remove pc')) : (pc.move s c).outcome.GoesOn property := by
  fun_cases RemovePc.move s c pc
  all_goals first
    | trivial
    | exact holds _

theorem goesOn_of_move {caller : Frame} (calls : Calls s caller top)
    (own : ∀ p ∈ caller.refs, ∀ q, s.resolve (s.vm p).id choice.pick = some q → q = p)
    (moved : top.move s t choice = some m) : m.outcome.GoesOn (Calls s caller) := by
  cases calls
  all_goals cases moved
  case runCreating config parent =>
    exact CreatePc.goesOn choice _ parent fun _ parent configs =>
      .runCreating (configs _ config) parent
  case runStarting targets =>
    exact StartPc.goesOn choice _ targets (own _ List.mem_cons_self) fun _ => .runStarting
  case runRemoving targets =>
    exact RemovePc.goesOn choice _ targets (own _ List.mem_cons_self) fun _ => .runRemoving
  case restartCreating parent =>
    exact CreatePc.goesOn choice _ parent fun _ parent _ => .restartCreating parent
  case startCreating parent =>
    exact CreatePc.goesOn choice _ parent fun _ parent _ => .startCreating parent
  case restartStarting => exact StartPc.goesOn_start choice _ fun _ => .restartStarting
  case startStarting => exact StartPc.goesOn_start choice _ fun _ => .startStarting
  case startReplacing => exact StartPc.goesOn_start choice _ fun _ => .startReplacing
  case autoRemoving => exact RemovePc.goesOn_remove choice _ fun _ => .autoRemoving
  case startRemoving => exact RemovePc.goesOn_remove choice _ fun _ => .startRemoving

variable {rest : List Frame}

/-- A stack is a root alone, or a frame that its caller waits for. -/
theorem Shape.cases (shape : Shape s (top :: rest)) :
    (rest = [] ∧ top.isRoot = true) ∨ ∃ caller, rest = [caller] ∧ Calls s caller top := by
  cases rest with
  | nil => exact .inl ⟨rfl, shape⟩
  | cons caller more =>
    cases more with
    | nil => exact .inr ⟨caller, rfl, shape⟩
    | cons _ _ => exact shape.elim

theorem Shape.caller (shape : Shape s (top :: rest))
    (called : top.isRoot = false) : ∃ caller, rest = [caller] ∧ Calls s caller top := by
  refine shape.cases.resolve_left fun ⟨_, root⟩ => ?_
  simp [called] at root

theorem shape_resume (caller : Frame) (value : Value) : Shape s (caller.resume value) := by
  fun_cases Frame.resume caller value
  all_goals first | rfl | trivial

theorem Shared.Kept.shape (kept : s.Kept target) {stack : List Frame}
    (known : ∀ frame ∈ stack.tail, ∀ r ∈ frame.refs, r < s.heapNext) (shape : Shape s stack) :
    Shape target stack := by
  cases stack with
  | nil => trivial
  | cons callee rest =>
    rcases shape.cases with ⟨rfl, root⟩ | ⟨caller, rfl, calls⟩
    · exact root
    · exact kept.calls (known caller List.mem_cons_self) calls

end Jerboa.Daemon
