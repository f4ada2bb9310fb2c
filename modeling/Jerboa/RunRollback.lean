import Jerboa.AddressRelease
import Jerboa.RunRequest
import Mathlib.Data.List.Perm.Basic

/-!
# A failed Run request

A Run request that fails leaves the registry and the allocated addresses as
they were, unless its VM is still running when it is to be removed, the address
is written in another way than the store writes it, a file cannot be written or
the new ID is in use.
-/

namespace Jerboa.Daemon

open Vm NetworkStore Shared

def Allocated (networks : Store) (name text : String) : Prop :=
  ∃ ips, heldIPs networks name = some ips ∧ text ∈ ips

structure Shared.Restored (before after : Shared) : Prop where
  vms : ∀ entry, entry ∈ after.vms ↔ entry ∈ before.vms
  addresses : ∀ name text, Allocated after.networks name text ↔ Allocated before.networks name text

/-- What holds of the server between calls. -/
structure Shared.Consistent (s : Shared) : Prop where
  networks : NetworkStore.Invariant s.networks
  registered : ∀ entry ∈ s.vms, entry.2 < s.heapNext

/-! ### The condition -/

namespace Shared

/-- `createUnique` gets as far as registering a VM. -/
def Registers (a : Answers) (s : Shared) (cfg : Config) : Prop :=
  (cfg.name = "" ∨ ∀ entry ∈ s.vms, (s.vm entry.2).cfg.name ≠ cfg.name) ∧
    validateVMConfig cfg = .ok () ∧ a.bytes.length = 6

def UnusedID (a : Answers) (s : Shared) : Prop :=
  ∀ entry ∈ s.vms, entry.1 ≠ newID a.bytes

end Shared

/-- `Start` launches the process and then cannot apply the limits or publish
the ports. -/
def Manager.Aborts (manager : Manager) (a : Answers) (cfg : Config) : Prop :=
  validatePortNetwork cfg = true ∧ manager.prepared a.files cfg = true ∧ a.launched = true ∧
    ((0 < cfg.cpuShares ∨ 0 < cfg.memoryMax) ∧ a.limited = false ∨
      cfg.portMaps ≠ [] ∧ a.published = false)

/-- The request can be undone: an address is written as the store writes it and
can be given back, the ID is new, the record can be deleted if an address
depends on it, and an aborted VM stops before it is removed. -/
def RollsBack (manager : Manager) (a : Answers) (s : Shared) (p : RunParams) : Prop :=
  ∀ img q assignedIP networks, a.image = some img →
    assignAddress a s.networks p = some (.ok (q, assignedIP, networks)) →
      (assignedIP ≠ "" → (p.ipAddress = "" ∨ canonicalIP p.ipAddress = some p.ipAddress) ∧
        a.releaseWritten = true) ∧
      (s.Registers a (runConfig q img) → s.UnusedID a ∧
        (a.persisted = true → (assignedIP ≠ "" → a.deleted = true) ∧
          (manager.Aborts a (runConfig q img) → a.stoppedInTime = true)))

/-! ### The address -/

section Address

variable {a : Answers} {networks target : Store} {p q : RunParams} {assignedIP : String}

/-- The network `name` has the address `text` in `target`, and had not before. -/
structure Taken (networks target : Store) (name : String) (ips : List String) (text : String) :
    Prop where
  held : heldIPs networks name = some ips
  free : text ∉ ips
  after : ∀ other, heldIPs target other =
    if other = name then some (ips ++ [text]) else heldIPs networks other

theorem assignAddress_held (invariant : Invariant networks)
    (assigned : assignAddress a networks p = some (.ok (q, assignedIP, target))) :
    q.networkName = p.networkName ∧
      (assignedIP = "" ∧ target = networks ∨
        assignedIP ≠ "" ∧ ∃ ips text, Taken networks target p.networkName ips text ∧
          (text = assignedIP ↔ p.ipAddress = "" ∨ canonicalIP p.ipAddress = some p.ipAddress)) := by
  revert assigned
  fun_cases assignAddress a networks p
  all_goals rintro ⟨⟩
  case case1 => exact ⟨rfl, .inl ⟨rfl, rfl⟩⟩
  case case3 => exact ⟨rfl, .inl ⟨rfl, rfl⟩⟩
  case case6 unset ip written allocated =>
    obtain ⟨ips, held, free, canonical, after⟩ := allocateIP_held invariant allocated
    exact ⟨rfl, .inr ⟨ne_empty_of_canonicalIP canonical, ips, ipText ip, ⟨held, free, after⟩,
      by simp [unset]⟩⟩
  case case9 given written reserved =>
    obtain ⟨ips, text, held, canonical, free, after⟩ := reserveIP_held reserved
    refine ⟨rfl, .inr ⟨given, ips, text, ⟨held, free, after⟩, ?_⟩⟩
    rw [canonical, Option.some.injEq]
    simp [given]

variable {ips : List String}

theorem Taken.not_allocated {name text : String}
    (taken : Taken networks target name ips text) : ¬Allocated networks name text := by
  rintro ⟨before, isHeld, inside⟩
  obtain rfl := Option.some.inj (taken.held.symm.trans isHeld)
  exact taken.free inside

theorem releaseAssigned_allocated {text : String} {job : RunJob}
    (isNetwork : job.cfg.networkName = p.networkName) (given : job.assignedIP ≠ "")
    (taken : Taken networks target p.networkName ips text) :
    (∀ name other, Allocated (releaseAssigned target job) name other ↔ Allocated networks name other) ↔
      text = job.assignedIP := by
  have now : heldIPs target p.networkName = some (ips ++ [text]) := by rw [taken.after, if_pos rfl]
  obtain ⟨missing, -⟩ | ⟨before, isHeld, released, -⟩ := releaseAssigned_held target job fun _ => given
  · rw [isNetwork, now] at missing
    simp at missing
  rw [isNetwork] at isHeld released
  obtain rfl := Option.some.inj (now.symm.trans isHeld)
  constructor
  · intro same
    by_contra different
    have kept : Allocated (releaseAssigned target job) p.networkName text := by
      refine ⟨_, by rw [released, if_pos rfl], ?_⟩
      exact (List.mem_erase_of_ne different).mpr (by simp)
    exact taken.not_allocated ((same p.networkName text).mp kept)
  · rintro rfl name other
    unfold Allocated
    rw [released, List.erase_append_right _ taken.free, List.erase_cons_head, List.append_nil,
      taken.after]
    by_cases here : name = p.networkName
    · rw [here, if_pos rfl, taken.held]
    · rw [if_neg here, if_neg here]

theorem Taken.changed {name text : String}
    (taken : Taken networks target name ips text) :
    ¬∀ name other, Allocated target name other ↔ Allocated networks name other := by
  intro same
  have kept : Allocated target name text := ⟨_, by rw [taken.after, if_pos rfl], by simp⟩
  exact taken.not_allocated ((same name text).mp kept)

end Address

/-! ### The registry -/

section Registry

variable {s : Shared} {a : Answers}

def withNew (s : Shared) (a : Answers) : List (String × Ref) :=
  s.vms.filter (fun entry => entry.1 ≠ newID a.bytes) ++ [(newID a.bytes, s.heapNext)]

def withoutNew (s : Shared) (a : Answers) : List (String × Ref) :=
  s.vms.filter fun entry => entry.1 ≠ newID a.bytes

theorem filter_withNew (s : Shared) (a : Answers) :
    (withNew s a).filter (fun entry => entry.1 ≠ newID a.bytes) = withoutNew s a := by
  simp [withNew, withoutNew, List.filter_append]

theorem find_withNew (s : Shared) (a : Answers) :
    ((withNew s a).find? fun entry => entry.1 = newID a.bytes) =
      some (newID a.bytes, s.heapNext) := by
  have none : (s.vms.filter fun entry => entry.1 ≠ newID a.bytes).find?
      (fun entry => entry.1 = newID a.bytes) = none := by
    apply List.find?_eq_none.mpr
    intro entry member
    simpa using (List.mem_filter.mp member).2
  rw [withNew, List.find?_append, none]
  simp

theorem mem_withoutNew_iff (s : Shared) (a : Answers) :
    (∀ entry, entry ∈ withoutNew s a ↔ entry ∈ s.vms) ↔ s.UnusedID a := by
  constructor
  · intro same entry member
    simpa using (List.mem_filter.mp ((same entry).mpr member)).2
  · intro fresh entry
    rw [withoutNew, List.filter_eq_self.mpr]
    intro other member
    simpa using fresh other member

theorem not_mem_withNew (consistent : s.Consistent) (a : Answers) :
    ¬∀ entry, entry ∈ withNew s a ↔ entry ∈ s.vms := by
  intro same
  have inside := (same (newID a.bytes, s.heapNext)).mp (by simp [withNew])
  exact Nat.lt_irrefl _ (consistent.registered _ inside)

/-- The registry and the networks are as given, and the object of one VM is `v`. -/
structure Shared.Has (vms : List (String × Ref)) (networks : Store) (vm : Ref) (v : VM)
    (s : Shared) : Prop where
  vms : s.vms = vms
  networks : s.networks = networks
  vm : s.vm vm = v

section Has

variable {vms : List (String × Ref)} {networks : Store} {vm : Ref} {v : VM}

theorem Shared.Has.update (has : s.Has vms networks vm v) (change : VM → VM) :
    (s.update vm change).Has vms networks vm (change v) :=
  ⟨has.vms, has.networks, by rw [update_vm_self, has.vm]⟩

theorem Shared.Has.save (has : s.Has vms networks vm v) (saved : Bool) :
    (s.act (if saved then .save vm else .skip)).Has vms networks vm v := by
  cases saved with
  | false => exact has
  | true =>
    simp only [if_true, act]
    split
    · exact { has with }
    · exact has

theorem Shared.Has.process (has : s.Has vms networks vm v) (process : Process) :
    Shared.Has vms networks vm v
      { s with heap := Function.update s.heap vm { s.heap vm with process := process } } :=
  { has with vm := by simpa [Shared.vm] using has.vm }

end Has

inductive Creates (s : Shared) (a : Answers) (cfg : Config) (registers : Prop) :
    Shared × Option Ref → Prop
  | refused (refused : ¬registers) (vms : after.vms = s.vms)
      (networks : after.networks = s.networks) : Creates s a cfg registers (after, none)
  | lost (does : registers) (lost : a.persisted = false) (vms : after.vms = withoutNew s a)
      (networks : after.networks = s.networks) : Creates s a cfg registers (after, none)
  | made (does : registers) (persisted : a.persisted = true)
      (made : after.Has (withNew s a) s.networks s.heapNext (newVM (newID a.bytes) cfg a.now)) :
      Creates s a cfg registers (after, some s.heapNext)

theorem create_creates (a : Answers) (s : Shared) (cfg : Config) :
    Creates s a cfg (validateVMConfig cfg = .ok () ∧ a.bytes.length = 6) (s.create a cfg) := by
  unfold Shared.create
  cases valid : validateVMConfig cfg with
  | error e => exact .refused (by simp) rfl rfl
  | ok checked =>
    by_cases bytes : a.bytes.length = 6
    · rw [if_pos bytes]
      cases persisted : a.persisted with
      | false =>
        refine .lost ⟨rfl, bytes⟩ persisted ?_ rfl
        have isID : ((s.act (.register (newID a.bytes) cfg a.now none .request)).vm
            s.heapNext).id = newID a.bytes := by
          simp [act, vm, newObject, newVM]
        rw [isID]
        exact filter_withNew s a
      | true =>
        exact .made ⟨rfl, bytes⟩ persisted
          (Shared.Has.save (s := s.act (.register (newID a.bytes) cfg a.now none .request))
            ⟨rfl, rfl, by simp [act, vm, newObject]⟩ true)
    · rw [if_neg bytes]
      exact .refused (by simp [bytes]) rfl rfl

theorem createUnique_creates (t : ThreadId) (a : Answers) (s : Shared) (cfg : Config) :
    Creates s a cfg (s.Registers a cfg) (s.createUnique t a cfg) := by
  unfold createUnique Shared.Registers
  by_cases unnamed : cfg.name = ""
  · simpa only [unnamed, if_true, true_or, true_and] using create_creates a s cfg
  · simp only [if_neg unnamed]
    by_cases inUse : ((s.act (.lockName t)).vms.any fun entry =>
        ((s.act (.lockName t)).vm entry.2).cfg.name = cfg.name) = true
    · rw [if_pos inUse]
      refine .refused ?_ rfl rfl
      rintro ⟨free | free, -⟩
      · exact unnamed free
      · obtain ⟨entry, member, same⟩ := List.any_eq_true.mp inUse
        exact free entry member (of_decide_eq_true same)
    · rw [if_neg inUse]
      have free : ∀ entry ∈ s.vms, (s.vm entry.2).cfg.name ≠ cfg.name := by
        intro entry member same
        exact inUse (List.any_eq_true.mpr ⟨entry, member, decide_eq_true same⟩)
      have created := create_creates a (s.act (.lockName t)) cfg
      generalize (s.act (.lockName t)).create a cfg = result at created ⊢
      cases created with
      | refused refused vms networks => exact .refused (fun both => refused both.2) vms networks
      | lost passed lost vms networks => exact .lost ⟨.inr free, passed⟩ lost vms networks
      | made passed persisted made =>
        exact .made ⟨.inr free, passed⟩ persisted { made with }

theorem Shared.Has.get {after : Shared} {networks : Store} {vm : Ref} {v : VM}
    (has : after.Has (withNew s a) networks vm v) :
    after.get (newID a.bytes) = some s.heapNext := by
  rw [Shared.get, has.vms, find_withNew]
  rfl

end Registry

/-! ### Methods on one VM -/

section Methods

variable {manager : Manager} {a : Answers} {s : Shared} {vms : List (String × Ref)}
  {networks : Store} {vm : Ref} {v : VM}

theorem Shared.Has.monitorAborted (has : s.Has vms networks vm v)
    (busy : v.state = .starting ∨ v.state = .running) :
    ∃ w : VM, (s.monitorAborted a vm).Has vms networks vm w ∧ w.id = v.id ∧ w.state = .stopped := by
  have marked := (has.process (.exited a.waitErr a.stderr)).update fun v =>
    { v with stoppedAt := some a.now }
  refine ⟨_, (marked.update (moveTo .stopped)).save a.saved, moveTo_id .stopped _, ?_⟩
  rcases busy with state | state <;> simp [moveTo, VM.transition, state, validTransitions]

inductive StartLeaves (aborts : Prop) (vms : List (String × Ref)) (networks : Store) (vm : Ref)
    (id : String) : Shared × StartEnd → Prop
  | started : StartLeaves aborts vms networks vm id (after, .started)
  | failed (has : after.Has vms networks vm w) (isID : w.id = id) (goesOn : ¬aborts)
      (idle : w.state = .stopped ∨ w.state = .created) :
      StartLeaves aborts vms networks vm id (after, .failed)
  | aborted (has : after.Has vms networks vm w) (isID : w.id = id) (isAborted : aborts)
      (busy : w.state = .starting ∨ w.state = .running) :
      StartLeaves aborts vms networks vm id (after, .aborted vm)

theorem startLaunched_leaves (has : s.Has vms networks vm v) (starting : v.state = .starting)
    (checked : validatePortNetwork v.cfg = true) (prepared : manager.prepared a.files v.cfg = true)
    (launched : a.launched = true) :
    StartLeaves (manager.Aborts a v.cfg) vms networks vm v.id (s.startLaunched manager a vm) := by
  unfold startLaunched
  dsimp only
  rw [has.vm]
  generalize manager.attachedPid a.pid v = pid
  have attached : Shared.Has vms networks vm _ ((s.act (.launch vm)).act (.attach vm pid a.now)) :=
    (has.process .alive).update fun v =>
      { v with hasProc := true, pid := pid, startedAt := some a.now }
  have running : Shared.Has vms networks vm _ ((((s.act (.launch vm)).act
      (.attach vm pid a.now)).act (.transition vm .running)).act (if a.saved then .save vm else .skip)) :=
    (attached.update (moveTo .running)).save a.saved
  have isRunning : moveTo .running
      { v with hasProc := true, pid := pid, startedAt := some a.now } =
        { v with hasProc := true, pid := pid, startedAt := some a.now, state := .running } := by
    simp [moveTo, VM.transition, starting, validTransitions]
  rw [isRunning] at running
  rw [attached.vm, running.vm]
  dsimp only
  split
  · rename_i unlimited
    exact .aborted (attached.update fun v => { v with explicitStop := true }) rfl
      ⟨checked, prepared, launched, .inl (by simpa using unlimited)⟩ (.inl starting)
  · rw [if_pos (by simp [starting, validTransitions])]
    split
    · rename_i unpublished
      exact .aborted (running.update fun v => { v with explicitStop := true }) rfl
        ⟨checked, prepared, launched, .inr (by simpa using unpublished)⟩ (.inr rfl)
    · exact .started

theorem withTap_cfg (v : VM) :
    (withTap v).cfg = { v.cfg with tapName := (withTap v).cfg.tapName } := by
  unfold withTap
  split <;> rfl

theorem start_leaves (manager : Manager) (a : Answers) (has : s.Has vms networks vm v) {id : String}
    (registered : s.get id = some vm) (created : v.state = .created) :
    StartLeaves (manager.Aborts a v.cfg) vms networks vm v.id (s.start manager a id) := by
  have resolved := resolve_of_get registered 0
  have tapped : Shared.Has vms networks vm _ ((s.act (.transition vm .starting)).act (.assignTap vm)) :=
    (has.update (moveTo .starting)).update withTap
  have valid : State.starting ∈ validTransitions v.state := by simp [created, validTransitions]
  have isStarting : moveTo .starting v = { v with state := .starting } := by
    simp [moveTo, VM.transition, valid]
  rw [isStarting] at tapped
  have isCfg := withTap_cfg { v with state := .starting }
  have starting := withTap_state { v with state := .starting }
  have sameID := withTap_id { v with state := .starting }
  generalize withTap { v with state := .starting } = w at tapped isCfg starting sameID
  have samePrepared : manager.prepared a.files w.cfg = manager.prepared a.files v.cfg := by rw [isCfg]; rfl
  have sameAborts : manager.Aborts a w.cfg = manager.Aborts a v.cfg := by rw [isCfg]; rfl
  rw [start, resolved]
  dsimp only
  rw [has.vm, tapped.vm]
  by_cases checked : validatePortNetwork v.cfg = true
  · rw [if_pos ⟨checked, valid⟩]
    split
    · rename_i launched
      have checkedTap : validatePortNetwork w.cfg = true := by rw [isCfg]; exact checked
      rw [← sameAborts, ← sameID]
      exact startLaunched_leaves tapped starting checkedTap launched.1 launched.2
    · rename_i unlaunched
      rw [samePrepared] at unlaunched
      refine .failed (tapped.update (moveTo .stopped)) ((moveTo_id _ w).trans sameID)
        (fun aborts => unlaunched ⟨aborts.2.1, aborts.2.2.1⟩) (.inl ?_)
      simp [moveTo, VM.transition, starting, validTransitions]
  · rw [if_neg fun both => checked both.1]
    exact .failed has rfl (fun aborts => checked aborts.1) (.inr created)

def releasedNetworks (a : Answers) (networks : Store) (job : RunJob) : Store :=
  if a.releaseWritten then releaseAssigned networks job else networks

theorem release_eq (a : Answers) (s : Shared) (job : RunJob) :
    (s.release a job).vms = s.vms ∧
      (s.release a job).networks = releasedNetworks a s.networks job := by
  unfold release releasedNetworks
  split <;> exact ⟨rfl, rfl⟩

/-- The new VM is taken out of the registry if it is not in use; its address is
given back if its record is deleted as well. -/
theorem Shared.Has.rollBack {after : Shared}
    (has : after.Has (withNew s a) networks s.heapNext v) (isID : v.id = newID a.bytes) (job : RunJob) :
    (v.state = .stopped ∨ v.state = .created →
      (after.rollBack a job s.heapNext).2.vms = withoutNew s a ∧
        (after.rollBack a job s.heapNext).2.networks =
          if a.deleted then releasedNetworks a networks job else networks) ∧
    (v.state = .starting ∨ v.state = .running → (after.rollBack a job s.heapNext).2 = after) := by
  have resolved := resolve_of_get has.get 0
  have without : after.vms.filter (fun entry => entry.1 ≠ newID a.bytes) = withoutNew s a := by
    rw [has.vms, filter_withNew]
  unfold Shared.rollBack Shared.removeVM
  rw [has.vm, isID, resolved]
  dsimp only
  rw [has.vm, isID, has.get]
  constructor
  · intro idle
    rw [if_pos idle]
    cases a.deleted with
    | false => exact ⟨without, has.networks⟩
    | true =>
      have release := release_eq a ((after.act (.remove (newID a.bytes))).note [.returned s.heapNext]) job
      exact ⟨release.1.trans without, release.2.trans (by rw [← has.networks]; rfl)⟩
  · rintro (state | state) <;> simp [state]

end Methods

/-! ### The request -/

/-- What a failed request leaves of registry and networks. -/
inductive RunLeaves (manager : Manager) (a : Answers) (s : Shared) (job : RunJob) (after : Shared) : Prop
  | unregistered (refused : ¬s.Registers a job.cfg) (vms : after.vms = s.vms)
      (networks : after.networks = releasedNetworks a s.networks job)
  | unpersisted (registers : s.Registers a job.cfg) (lost : a.persisted = false)
      (vms : after.vms = withoutNew s a)
      (networks : after.networks = releasedNetworks a s.networks job)
  | removed (registers : s.Registers a job.cfg) (persisted : a.persisted = true)
      (inTime : manager.Aborts a job.cfg → a.stoppedInTime = true)
      (vms : after.vms = withoutNew s a)
      (networks : after.networks =
        if a.deleted then releasedNetworks a s.networks job else s.networks)
  | stays (registers : s.Registers a job.cfg) (persisted : a.persisted = true)
      (aborts : manager.Aborts a job.cfg) (late : a.stoppedInTime = false)
      (vms : after.vms = withNew s a) (networks : after.networks = s.networks)

theorem Shared.restored_unlock_iff (before after : Shared) :
    before.Restored (after.act .unlockResource) ↔ before.Restored after :=
  ⟨fun restored => ⟨restored.vms, restored.addresses⟩,
    fun restored => ⟨restored.vms, restored.addresses⟩⟩

theorem runVM_leaves (manager : Manager) (t : ThreadId) (a : Answers) (s : Shared) (job : RunJob)
    {e : RunError} (failed : (s.runVM manager t a job).1 = .error e) :
    RunLeaves manager a s job (s.runVM manager t a job).2 := by
  have created := createUnique_creates t a s job.cfg
  unfold runVM at failed ⊢
  generalize s.createUnique t a job.cfg = result at created failed ⊢
  cases created with
  | @refused s₁ refused vms networks =>
    have release := release_eq a s₁ job
    rw [vms, networks] at release
    exact .unregistered refused release.1 release.2
  | @lost s₁ registers lost vms networks =>
    have release := release_eq a s₁ job
    rw [vms, networks] at release
    exact .unpersisted registers lost release.1 release.2
  | @made s₁ registers persisted made =>
    dsimp only at failed ⊢
    have leaves := start_leaves manager a made made.get rfl
    rw [made.vm] at failed ⊢
    change StartLeaves (manager.Aborts a job.cfg) _ _ _ (newID a.bytes)
      (s₁.start manager a (newVM (newID a.bytes) job.cfg a.now).id) at leaves
    generalize s₁.start manager a (newVM (newID a.bytes) job.cfg a.now).id = started
      at leaves failed ⊢
    cases leaves with
    | started => simp at failed
    | failed has isID goesOn idle =>
      obtain ⟨vms, networks⟩ := (has.rollBack isID job).1 idle
      exact .removed registers persisted (fun aborts => absurd aborts goesOn) vms networks
    | aborted has isID aborts busy =>
      dsimp only at failed ⊢
      cases inTime : a.stoppedInTime with
      | true =>
        obtain ⟨w, monitored, sameID, stopped⟩ := has.monitorAborted (a := a) busy
        obtain ⟨vms, networks⟩ := (monitored.rollBack (sameID.trans isID) job).1 (.inl stopped)
        exact .removed registers persisted (fun _ => inTime) vms networks
      | false =>
        simp only [Bool.false_eq_true, if_false, (has.rollBack isID job).2 busy]
        obtain ⟨w, monitored, -⟩ := has.monitorAborted (a := a) busy
        exact .stays registers persisted aborts inTime monitored.vms monitored.networks

/-- How the addresses come out: as before, if there was none to give back or it
was given back under its own text. -/
theorem restores_addresses_iff {a : Answers} {networks target : Store} {p q : RunParams}
    {assignedIP : String} (invariant : Invariant networks) (img : ResolvedImage)
    (assigned : assignAddress a networks p = some (.ok (q, assignedIP, target))) :
    ((∀ name text, Allocated (releasedNetworks a target (runJob q img assignedIP)) name text ↔
        Allocated networks name text) ↔
      (assignedIP ≠ "" → (p.ipAddress = "" ∨ canonicalIP p.ipAddress = some p.ipAddress) ∧
        a.releaseWritten = true)) ∧
    ((∀ name text, Allocated target name text ↔ Allocated networks name text) ↔
      ¬assignedIP ≠ "") := by
  obtain ⟨isNetwork, ⟨rfl, rfl⟩ | ⟨given, ips, text, taken, sameText⟩⟩ :=
    assignAddress_held invariant assigned
  · have same : releasedNetworks a target (runJob q img "") = target := by
      unfold releasedNetworks releaseAssigned
      simp [runJob]
    rw [same]
    simp
  · refine ⟨?_, by simp [given, taken.changed]⟩
    unfold releasedNetworks
    cases a.releaseWritten with
    | false => simpa [given] using taken.changed
    | true =>
      have released : (∀ name other, Allocated (releaseAssigned target (runJob q img assignedIP))
          name other ↔ Allocated networks name other) ↔ text = assignedIP :=
        releaseAssigned_allocated isNetwork given taken
      simp only [if_true, and_true, given, ne_eq, not_false_eq_true, forall_const]
      rw [released, sameText]

theorem RunLeaves.restored_iff {manager : Manager} {a : Answers} {before s after : Shared}
    {job : RunJob} (leaves : RunLeaves manager a s job after) (consistent : before.Consistent)
    (sameVMs : s.vms = before.vms) (sameHeap : s.heapNext = before.heapNext)
    {given released : Prop}
    (onRelease : (∀ name text, Allocated (releasedNetworks a s.networks job) name text ↔
      Allocated before.networks name text) ↔ (given → released))
    (onKeep : (∀ name text, Allocated s.networks name text ↔ Allocated before.networks name text) ↔
      ¬given) :
    before.Restored after ↔ (given → released) ∧ (s.Registers a job.cfg → before.UnusedID a ∧
      (a.persisted = true → (given → a.deleted = true) ∧
        (manager.Aborts a job.cfg → a.stoppedInTime = true))) := by
  have without : (∀ entry, entry ∈ withoutNew s a ↔ entry ∈ before.vms) ↔ before.UnusedID a := by
    rw [withoutNew, sameVMs]
    exact mem_withoutNew_iff before a
  have restored : before.Restored after ↔ (∀ entry, entry ∈ after.vms ↔ entry ∈ before.vms) ∧
      ∀ name text, Allocated after.networks name text ↔ Allocated before.networks name text :=
    ⟨fun both => ⟨both.vms, both.addresses⟩, fun both => ⟨both.1, both.2⟩⟩
  rw [restored]
  cases leaves with
  | unregistered refused vms networks =>
    rw [vms, networks, sameVMs, onRelease]
    simp [refused]
  | unpersisted registers lost vms networks =>
    rw [vms, networks, without, onRelease]
    simp [registers, lost, and_comm]
  | removed registers persisted inTime vms networks =>
    rw [vms, networks, without]
    cases a.deleted with
    | true =>
      simp only [if_true, onRelease]
      grind
    | false =>
      simp only [Bool.false_eq_true, if_false, onKeep]
      grind
  | stays registers persisted aborts late vms networks =>
    have different : ¬∀ entry, entry ∈ after.vms ↔ entry ∈ before.vms := by
      rw [vms, withNew, sameVMs, sameHeap]
      exact not_mem_withNew consistent a
    refine iff_of_false (fun both => different both.1) ?_
    intro both
    have inTime := ((both.2 registers).2 persisted).2 aborts
    simp [late] at inTime

/-- A failed Run request leaves the registered VMs and the allocated addresses
as they were exactly if it can be undone. -/
theorem failed_run_restores_iff {manager : Manager} {t : ThreadId} {a : Answers} {s after : Shared}
    {p : RunParams} {e : RunError} (consistent : s.Consistent)
    (failed : s.handleRun manager t a p = some (.error e, after)) :
    s.Restored after ↔ RollsBack manager a s p := by
  have unchanged : s.Restored ((s.act (.lockResource t)).act .unlockResource) :=
    ⟨fun _ => Iff.rfl, fun _ _ => Iff.rfl⟩
  revert failed
  fun_cases handleRun manager t a s p
  case case4 img isImage q assignedIP networks assigned =>
    intro failed
    obtain ⟨isError, rfl⟩ := Prod.mk.inj (Option.some.inj failed)
    have leaves := runVM_leaves manager t a _ _ isError
    obtain ⟨onRelease, onKeep⟩ := restores_addresses_iff consistent.networks img assigned
    have iff := leaves.restored_iff consistent rfl rfl onRelease onKeep
    refine (s.restored_unlock_iff _).trans (iff.trans
      ⟨?_, fun undone => undone img q assignedIP networks isImage assigned⟩)
    intro undone img' q' assignedIP' networks' isImage' assigned'
    cases isImage.symm.trans isImage'
    cases assigned.symm.trans assigned'
    exact undone
  all_goals rintro ⟨⟩
  case case1 isImage =>
    refine iff_of_true unchanged ?_
    intro img q assignedIP networks found
    simp [isImage] at found
  case case3 assigned =>
    refine iff_of_true unchanged ?_
    intro img q assignedIP networks _ found
    cases assigned.symm.trans found

/-! ### Requests that fail -/

def appServer : Shared :=
  (World.initial .file appNetworks).toShared

theorem appServer_consistent : appServer.Consistent := by
  obtain ⟨_, networks, _, reached, -, same⟩ := freshSystem_initial_app
  have isNetworks : networks = appNetworks := by
    have fields := congrArg (fun w : World => w.networks) same
    exact fields.symm
  exact ⟨invariant_of_reachable (isNetworks ▸ reached), by simp [appServer, World.initial]⟩

def portParams (ipAddress : String) : RunParams :=
  { appParams with ipAddress := ipAddress, portMaps := [⟨8080, 80, "tcp", ""⟩] }

def portAnswers (launched stoppedInTime : Bool) : Answers where
  image := some { imagePath := "disk.img", imageDigest := "", imageRef := "", manifest := none }
  addressWritten := true
  bytes := List.replicate 6 0
  now := 0
  pid := 1
  persisted := true
  files := ⟨true, true, true⟩
  launched := launched
  limited := true
  saved := true
  published := false
  waitErr := .clean
  stderr := ""
  stoppedInTime := stoppedInTime
  deleted := true
  releaseWritten := true

/-- The launch fails; the request gives its address back and takes its VM out of
the registry. -/
theorem failed_run_restores_iff_unlaunched :
    ∃ after, appServer.handleRun .firecracker 0 (portAnswers false false) (portParams "10.1.0.5") =
        some (.error .start, after) ∧
      appServer.Restored after ∧
      RollsBack .firecracker (portAnswers false false) appServer (portParams "10.1.0.5") := by
  have ended : ((appServer.handleRun .firecracker 0 (portAnswers false false)
      (portParams "10.1.0.5")).map fun result => (result.1, result.2.vms, result.2.networks)) =
        some (.error .start, appServer.vms, appServer.networks) := by
    decide
  obtain ⟨⟨_, after⟩, failed, same⟩ := Option.map_eq_some_iff.mp ended
  simp only [Prod.mk.injEq] at same
  obtain ⟨rfl, vms, networks⟩ := same
  have restored : appServer.Restored after := by
    refine ⟨fun entry => ?_, fun name text => ?_⟩
    · rw [vms]
    · rw [networks]
  exact ⟨after, failed, restored, (failed_run_restores_iff appServer_consistent failed).mp restored⟩

theorem not_restored_of_vms {after : Shared} {entry : String × Ref} (stays : after.vms = [entry]) :
    ¬appServer.Restored after := by
  intro restored
  have inside := (restored.vms entry).mp (by simp [stays])
  simp [appServer, World.initial] at inside

theorem not_restored_of_held {after : Shared}
    (kept : heldIPs after.networks "app" = some ["10.1.0.1", "10.1.0.5"]) :
    ¬appServer.Restored after := by
  intro restored
  obtain ⟨ips, held, inside⟩ :=
    (restored.addresses "app" "10.1.0.5").mp ⟨["10.1.0.1", "10.1.0.5"], kept, by decide⟩
  have before : heldIPs appServer.networks "app" = some ["10.1.0.1"] := by decide
  obtain rfl := Option.some.inj (before.symm.trans held)
  exact absurd inside (by decide)

/-- The port cannot be published: the VM is still running when it is to be
removed, so it stays registered, under both managers.  And an address in another
spelling is not given back. -/
theorem failed_run_not_restored :
    (∃ after, appServer.handleRun .qemu 0 (portAnswers true false) (portParams "10.1.0.5") =
        some (.error .cleanup, after) ∧ ¬appServer.Restored after) ∧
      (∃ after, appServer.handleRun .firecracker 0 (portAnswers true false)
        (portParams "10.1.0.5") = some (.error .cleanup, after) ∧ ¬appServer.Restored after) ∧
      ∃ after, appServer.handleRun .qemu 0 (portAnswers false false)
        (portParams "::ffff:10.1.0.5") = some (.error .start, after) ∧
          ¬appServer.Restored after := by
  have stays : ∀ manager, ((appServer.handleRun manager 0 (portAnswers true false)
      (portParams "10.1.0.5")).map fun result => (result.1, result.2.vms)) =
        some (.error .cleanup, [("000000000000", 0)]) := by
    intro manager
    cases manager <;> decide
  have kept : ((appServer.handleRun .qemu 0 (portAnswers false false)
      (portParams "::ffff:10.1.0.5")).map fun result =>
        (result.1, heldIPs result.2.networks "app")) =
          some (.error .start, some ["10.1.0.1", "10.1.0.5"]) := by
    decide
  have left (manager : Manager) : ∃ after, appServer.handleRun manager 0 (portAnswers true false)
      (portParams "10.1.0.5") = some (.error .cleanup, after) ∧ ¬appServer.Restored after := by
    obtain ⟨⟨_, after⟩, failed, same⟩ := Option.map_eq_some_iff.mp (stays manager)
    obtain ⟨rfl, vms⟩ := Prod.mk.inj same
    exact ⟨after, failed, not_restored_of_vms vms⟩
  refine ⟨left .qemu, left .firecracker, ?_⟩
  · obtain ⟨⟨_, after⟩, failed, same⟩ := Option.map_eq_some_iff.mp kept
    obtain ⟨rfl, held⟩ := Prod.mk.inj same
    exact ⟨after, failed, not_restored_of_held held⟩

end Jerboa.Daemon
