import Jerboa.FrameData
import Jerboa.ReplacementGrip

/-!
# The stages of a Run request

Between the check of its name and the start of its VM, a Run request relies on
what it has seen: nobody has the name, the address is reserved for it, and once
its VM is registered nobody else can start or replace it.  Other goroutines do
not disturb this.
-/

namespace Jerboa.Daemon

open Vm NetworkStore List

/-! ### What a request relies on -/

def RunJob.Assigned (job : RunJob) : Prop :=
  job.assignedIP ≠ "" → job.cfg.ipAddress = job.assignedIP

def Shared.Unused (s : Shared) (job : RunJob) : Prop :=
  (heldIPs s.networks job.cfg.networkName).isSome →
    ∀ e ∈ s.vms, ¬ s.Uses e.2 job.cfg.networkName job.cfg.ipAddress

/-- The address of the request is reserved and nobody uses it. -/
structure Shared.Reserved (s : Shared) (job : RunJob) : Prop where
  assigned : job.Assigned
  unused : s.Unused job
  taken : ∀ ips, heldIPs s.networks job.cfg.networkName = some ips →
    ∃ text ∈ ips, canonicalIP job.cfg.ipAddress = some text

def Shared.NameFree (s : Shared) (job : RunJob) : Prop :=
  job.cfg.name ≠ "" → ∀ e ∈ s.vms, (s.vm e.2).cfg.name ≠ job.cfg.name

/-- The VM of the request is the only user of its address, and no other
goroutine can start or replace it. -/
structure World.Owned (w : World) (t : ThreadId) (job : RunJob) (p : Ref) : Prop where
  assigned : job.Assigned
  known : p < w.heapNext
  only : (heldIPs w.networks job.cfg.networkName).isSome →
    ∀ e ∈ w.vms, w.Uses e.2 job.cfg.networkName job.cfg.ipAddress → e.2 = p
  alone : ∀ u, u ≠ t → ∀ frame ∈ w.threads u, ¬ frame.Grips w.toShared p
  uncalled : ∀ u, u ≠ t → ∀ ref, .start (.resolve ref) ∈ w.threads u → ref ≠ (w.vm p).id

inductive Stage
  | idle
  | reserved (job : RunJob)
  | checked (job : RunJob)
  | owned (job : RunJob) (vm : Ref)
  | released (job : RunJob)

def stage : List Frame → Stage
  | [.handleRun (.unique job)] | [.handleRun (.checkName job)] => .reserved job
  | [.create (.validate ..), .handleRun (.creating job)]
  | [.create (.register ..), .handleRun (.creating job)] => .checked job
  | [.create (.persist vm), .handleRun (.creating job)]
  | [.handleRun (.unlockName job (some vm))] | [.handleRun (.created job vm)]
  | [.start _, .handleRun (.starting job vm)] | [.handleRun (.startFailed job vm)]
  | [.remove _, .handleRun (.removing job vm)] => .owned job vm
  | [.handleRun (.unlockName job none)] | [.handleRun (.release job)] => .released job
  | _ => .idle

def World.AtStage (w : World) (t : ThreadId) : Stage → Prop
  | .idle => True
  | .reserved job => w.Reserved job
  | .checked job => w.Reserved job ∧ w.NameFree job
  | .owned job vm => w.Owned t job vm
  | .released job => job.Assigned ∧ w.Unused job

theorem critical_of_stage {stack : List Frame} (busy : stage stack ≠ .idle) :
    ∃ frame ∈ stack, frame.critical = true := by
  revert busy
  fun_cases stage stack
  all_goals first
    | exact fun _ => ⟨_, mem_cons_self, rfl⟩
    | exact fun _ => ⟨_, mem_cons_of_mem _ mem_cons_self, rfl⟩
    | exact fun busy => absurd rfl busy

theorem stage_of_outside {frame : Frame} (outside : frame.critical = false) :
    stage [frame] = .idle := by
  by_contra busy
  obtain ⟨other, member, critical⟩ := critical_of_stage busy
  simp [mem_singleton.mp member, outside] at critical

/-! ### Steps that register nothing -/

section Quiet

variable {s target : Shared} {job : RunJob}

theorem Shared.Unused.of_kept (unused : s.Unused job) (kept : s.Kept target)
    (known : ∀ entry ∈ s.vms, entry.2 < s.heapNext) (vms : ∀ e ∈ target.vms, e ∈ s.vms)
    (networks : target.networks = s.networks) : target.Unused job := by
  intro held e member uses
  rw [networks] at held
  exact unused held e (vms e member) ((kept.uses (known e (vms e member))).mp uses)

theorem Shared.Reserved.of_kept (reserved : s.Reserved job) (kept : s.Kept target)
    (known : ∀ entry ∈ s.vms, entry.2 < s.heapNext) (vms : ∀ e ∈ target.vms, e ∈ s.vms)
    (networks : target.networks = s.networks) : target.Reserved job where
  assigned := reserved.assigned
  unused := reserved.unused.of_kept kept known vms networks
  taken := by
    rw [networks]
    exact reserved.taken

theorem Shared.NameFree.of_kept (nameFree : s.NameFree job) (kept : s.Kept target)
    (known : ∀ entry ∈ s.vms, entry.2 < s.heapNext) (vms : ∀ e ∈ target.vms, e ∈ s.vms) :
    target.NameFree job := by
  intro named e member
  rw [(kept.request _ (known e (vms e member))).name]
  exact nameFree named e (vms e member)

variable {w next : World} {t : ThreadId}

/-- A request keeps its VM when nothing is registered and the new frames can
neither start nor replace the VM. -/
theorem World.Owned.of_kept {p : Nat} (owned : w.Owned t job p)
    (kept : w.toShared.Kept next.toShared) (known : ∀ entry ∈ w.vms, entry.2 < w.heapNext)
    (vms : ∀ e ∈ next.vms, e ∈ w.vms) (networks : next.networks = w.networks)
    (frames : ∀ u, u ≠ t → ∀ frame ∈ next.threads u, frame ∈ w.threads u ∨
      ¬ frame.Grips w.toShared p ∧ frame.isStartCall = false) : next.Owned t job p where
  assigned := owned.assigned
  known := Nat.lt_of_lt_of_le owned.known kept.heapNext_le
  only held e member uses := by
    rw [networks] at held
    have old := vms e member
    exact owned.only held e old ((kept.uses (known e old)).mp uses)
  alone u away frame member grips := by
    have gripped := kept.grips owned.known grips
    rcases frames u away frame member with old | ⟨free, -⟩
    · exact owned.alone u away frame old gripped
    · exact free gripped
  uncalled u away ref member := by
    rw [kept.id p owned.known]
    rcases frames u away _ member with old | ⟨-, notCall⟩
    · exact owned.uncalled u away ref old
    · simp [Frame.isStartCall] at notCall

theorem World.AtStage.of_kept {current : Stage} (atStage : w.AtStage t current)
    (kept : w.toShared.Kept next.toShared) (known : ∀ entry ∈ w.vms, entry.2 < w.heapNext)
    (vms : ∀ e ∈ next.vms, e ∈ w.vms) (networks : next.networks = w.networks)
    (frames : ∀ u, u ≠ t → ∀ frame ∈ next.threads u, frame ∈ w.threads u ∨
      (∀ p, ¬ frame.Grips w.toShared p) ∧ frame.isStartCall = false) :
    next.AtStage t current := by
  cases current with
  | idle => trivial
  | reserved job => exact Shared.Reserved.of_kept atStage kept known vms networks
  | checked job =>
    exact ⟨atStage.1.of_kept kept known vms networks, atStage.2.of_kept kept known vms⟩
  | owned job vm =>
    refine World.Owned.of_kept atStage kept known vms networks fun u away frame member => ?_
    exact (frames u away frame member).imp_right fun ⟨free, notCall⟩ => ⟨free vm, notCall⟩
  | released job => exact ⟨atStage.1, atStage.2.of_kept kept known vms networks⟩

end Quiet

/-- The drawn ID is not the ID or the name of any VM so far, and the name of a
new request is not the ID of one. -/
def Shared.DrawsFresh (s : Shared) (id : String) (cfg : Config) (parent : Option Ref) : Prop :=
  (∀ q, q < s.heapNext → (s.vm q).id ≠ id ∧ (s.vm q).cfg.name ≠ id) ∧ cfg.name ≠ id ∧
    (parent = none → ∀ q, q < s.heapNext → cfg.name ≠ (s.vm q).id)

/-- The VM is still registered, and every registered VM of its lineage is
stopped. -/
def Shared.Replaceable (s : Shared) (old : Ref) : Prop :=
  (∃ e ∈ s.vms, e.2 = old) ∧
    ∀ e ∈ s.vms, (s.heap e.2).origin = (s.heap old).origin → (s.vm e.2).state = .stopped

def Frame.InOrder (s : Shared) (choice : Choice) : Frame → Prop
  | .create (.register cfg parent _) =>
    choice.bytes.length = 6 → s.DrawsFresh (newID choice.bytes) cfg parent ∧
      ∀ old ∈ parent, s.Replaceable old
  | _ => True

def World.InOrder (w : World) : Label → Prop
  | .call (.managerCreate _) | .call (.managerStart _) => False
  | .thread t choice => ∀ top ∈ (w.threads t).head?, top.InOrder w.toShared choice
  | _ => True

instance (s : Shared) (id : String) (cfg : Config) (parent : Option Ref) :
    Decidable (s.DrawsFresh id cfg parent) :=
  inferInstanceAs (Decidable ((∀ q, q < s.heapNext → (s.vm q).id ≠ id ∧ (s.vm q).cfg.name ≠ id) ∧
    cfg.name ≠ id ∧ (parent = none → ∀ q, q < s.heapNext → cfg.name ≠ (s.vm q).id)))

instance (s : Shared) (old : Ref) : Decidable (s.Replaceable old) :=
  inferInstanceAs (Decidable ((∃ e ∈ s.vms, e.2 = old) ∧
    ∀ e ∈ s.vms, (s.heap e.2).origin = (s.heap old).origin → (s.vm e.2).state = .stopped))

instance (s : Shared) (choice : Choice) : (frame : Frame) → Decidable (frame.InOrder s choice)
  | .create (.register cfg parent _) =>
    inferInstanceAs (Decidable (choice.bytes.length = 6 →
      s.DrawsFresh (newID choice.bytes) cfg parent ∧ ∀ old ∈ parent, s.Replaceable old))
  | .create (.validate ..) | .create (.persist _) | .start _ | .stop .. | .remove _
  | .monitor _ | .restartVM _ | .adoptMonitor _ | .autoRemove _ | .handleRun _
  | .handleStart _ => isTrue trivial

instance (w : World) : (label : Label) → Decidable (w.InOrder label)
  | .call (.managerCreate _) | .call (.managerStart _) => isFalse id
  | .call (.run _) | .call (.start _) | .call (.stop ..) | .call (.remove _) | .exit ..
  | .probe .. => isTrue trivial
  | .thread t choice =>
    inferInstanceAs (Decidable (∀ top ∈ (w.threads t).head?, top.InOrder w.toShared choice))

/-! ### The invariant of the server -/

structure World.Orderly (w : World) : Prop where
  grounded : w.Grounded
  lineage : w.Lineage
  store : NetworkStore.Invariant w.networks
  sound : ∀ t, ∀ frame ∈ w.threads t, frame.Sound w.toShared
  shape : ∀ t, Shape w.toShared (w.threads t)
  locked : w.Locked
  stages : ∀ t, w.AtStage t (stage (w.threads t))

section Others

variable {w : World} {t u : ThreadId} {choice : Choice} {top : Frame} {rest : List Frame}
  {m : Move}

theorem World.Orderly.top_mem (stack : w.threads t = top :: rest) : top ∈ w.threads t := by
  rw [stack]
  exact mem_cons_self

variable {frame : Frame}

theorem World.Orderly.outside (orderly : w.Orderly) (other : u ≠ t)
    (busy : stage (w.threads u) ≠ .idle) (member : frame ∈ w.threads t) :
    frame.critical = false := by
  obtain ⟨inside, there, critical⟩ := critical_of_stage busy
  have held := orderly.locked u inside there critical
  cases outside : frame.critical with
  | false => rfl
  | true =>
    rw [orderly.locked t frame member outside] at held
    exact absurd (Option.some.inj held).symm other

theorem register_of_move {s : Shared} (moved : top.move s t choice = some m)
    {id : String} {cfg : Config} {now : Time} {parent : Option Ref} {cause : Cause}
    (action : m.action = .register id cfg now parent cause) :
    top = .create (.register cfg parent cause) ∧ choice.bytes.length = 6 ∧
      id = newID choice.bytes := by
  rcases (conduct_of_move moved).2.quiet with quiet | ⟨cfg', parent', cause', rfl⟩ | ⟨-, networks, other⟩
  · simp [action, Action.isQuiet] at quiet
  · cases moved
    simp only [CreatePc.move] at action
    split at action
    · rename_i six
      simp only [Action.register.injEq] at action
      obtain ⟨rfl, rfl, -, rfl, rfl⟩ := action
      exact ⟨rfl, six, rfl⟩
    · simp at action
  · simp [action] at other

theorem parent_of_outside {s : Shared} {cfg : Config} {parent : Option Ref} {cause : Cause}
    (shape : Shape s (.create (.register cfg parent cause) :: rest))
    (outside : ∀ frame ∈ rest, frame.critical = false) : ∃ old, parent = some old := by
  obtain ⟨caller, rfl, calls⟩ := shape.caller rfl
  have notCritical := outside caller mem_cons_self
  cases calls with
  | restartCreating hasParent => exact ⟨_, hasParent⟩
  | _ => simp [Frame.critical] at notCritical

theorem Shared.Kept.perform (w : World) (t : ThreadId) (rest : List Frame) (m : Move) :
    w.toShared.Kept (w.perform t rest m).toShared := by
  rw [perform_toShared]
  exact { Shared.Kept.act w.toShared m.action with }

theorem World.Orderly.networks_outside (stack : w.threads t = top :: rest)
    (moved : top.move w.toShared t choice = some m) (outside : top.critical = false) :
    (w.perform t rest m).networks = w.networks := by
  rw [perform_networks]
  rcases (conduct_of_move moved).2.quiet with quiet | ⟨cfg, parent, cause, rfl⟩ | ⟨critical, -⟩
  · exact act_networks_of_isQuiet quiet
  · cases moved
    simp only [CreatePc.move]
    split <;> rfl
  · simp [critical] at outside

theorem refs_of_grips {s : Shared} {r : Ref} (grips : frame.Grips s r) :
    r ∈ frame.refs := by
  cases frame with
  | create pc => exact grips
  | start pc => exact grips
  | restartVM pc => exact grips
  | monitor pc => cases pc <;> exact mem_singleton.mpr grips.1.symm
  | _ => exact grips.elim

variable {job : RunJob} {p : Nat} (orderly : w.Orderly) (stack : w.threads t = top :: rest)
  (moved : top.move w.toShared t choice = some m)

include orderly stack moved

theorem World.Orderly.alone_outside (outside : top.critical = false)
    (owned : w.Owned u job p) (other : t ≠ u) {v : ThreadId} (away : v ≠ u)
    (member : frame ∈ (w.perform t rest m).threads v) :
    ¬ frame.Grips (w.perform t rest m).toShared p := by
  intro gripsAfter
  have grips := (Shared.Kept.perform w t rest m).grips owned.known gripsAfter
  have topFree := owned.alone t other top (World.Orderly.top_mem stack)
  rcases mem_threads_perform stack member with old | new | ⟨caller, waiting, value, ret, resumed⟩
  · exact owned.alone v away frame old grips
  · rcases followsGrips_of_move outside moved frame new p grips with top' | rfl |
      ⟨ref, rfl, resolved⟩
    · exact topFree top'
    · exact Nat.lt_irrefl _ owned.known
    · -- the ID it was asked to start is that of another VM
      have inStack := World.Orderly.top_mem stack
      obtain ⟨q, knownQ, rfl⟩ := orderly.sound t _ inStack
      have same := orderly.lineage.resolve_own orderly.grounded.registered_lt
        orderly.grounded.registered_id knownQ resolved
      exact owned.uncalled t other _ inStack (same ▸ rfl)
  · rcases grips_of_mem_resume resumed grips with kept | returned
    · refine owned.alone t other caller ?_ kept
      rw [stack]
      exact mem_cons_of_mem _ waiting
    · exact topFree (grips_of_ret moved ret returned)

theorem World.Orderly.uncalled_outside (outside : top.critical = false)
    (owned : w.Owned u job p) (other : t ≠ u) {v : ThreadId} (away : v ≠ u) {ref : String}
    (member : .start (.resolve ref) ∈ (w.perform t rest m).threads v) :
    ref ≠ ((w.perform t rest m).vm p).id := by
  rw [(Shared.Kept.perform w t rest m).id p owned.known]
  rcases mem_threads_perform stack member with old | new | ⟨caller, waiting, value, ret, resumed⟩
  · exact owned.uncalled v away ref old
  · rintro rfl
    have inStack := World.Orderly.top_mem stack
    obtain ⟨r, grips, same⟩ := grips_of_startCall outside moved new
    have knownR := orderly.grounded.refs_lt t top inStack r (refs_of_grips grips)
    have isP := orderly.lineage.ids_distinct p r owned.known knownR same
    exact owned.alone t other top inStack (isP ▸ grips)
  · have impossible := isResumed_of_mem_resume resumed
    simp [Frame.isResumed] at impossible

variable (inOrder : top.InOrder w.toShared choice)

include inOrder

section

variable (outside : ∀ frame ∈ top :: rest, frame.critical = false)

include outside

/-- What a goroutine outside the lock registers has the request of a registered
VM on which it had a grip. -/
theorem World.Orderly.newcomer {e : String × Ref}
    (member : e ∈ (w.perform t rest m).vms) :
    e ∈ w.vms ∨ ∃ entry ∈ w.vms,
      SameRequest ((w.perform t rest m).vm e.2).cfg (w.vm entry.2).cfg ∧
        top.Grips w.toShared entry.2 := by
  rw [perform_toShared] at member
  rcases mem_act_vms member with old | ⟨id, cfg, now, parent, cause, action, rfl⟩
  · exact .inl old
  · obtain ⟨rfl, six, rfl⟩ := register_of_move moved action
    have shape := orderly.shape t
    rw [stack] at shape
    obtain ⟨old, rfl⟩ := parent_of_outside shape fun frame inRest =>
      outside frame (mem_cons_of_mem _ inRest)
    obtain ⟨-, replaceable⟩ := inOrder six
    obtain ⟨⟨entry, registered, rfl⟩, -⟩ := replaceable old rfl
    have sound := (orderly.sound t _ (World.Orderly.top_mem stack)).1
    refine .inr ⟨entry, registered, ?_, mem_singleton_self _⟩
    rw [perform_vm, action, register_vm_new]
    exact sound

theorem World.Orderly.unused_outside (unused : w.Unused job) : (w.perform t rest m).Unused job := by
  intro held e member uses
  rw [World.Orderly.networks_outside stack moved (outside top mem_cons_self)] at held
  have kept := Shared.Kept.perform w t rest m
  rcases orderly.newcomer stack moved inOrder outside member with old | ⟨entry, old, same, -⟩
  · exact unused held e old ((kept.uses (orderly.grounded.registered_lt e old)).mp uses)
  · refine unused held entry old ?_
    rw [Shared.Uses, ← same.networkName, ← same.ipAddress]
    exact uses

theorem World.Orderly.nameFree_outside (nameFree : w.NameFree job) :
    (w.perform t rest m).NameFree job := by
  intro named e member
  have kept := Shared.Kept.perform w t rest m
  rcases orderly.newcomer stack moved inOrder outside member with old | ⟨entry, old, same, -⟩
  · rw [(kept.request _ (orderly.grounded.registered_lt e old)).name]
    exact nameFree named e old
  · rw [same.name]
    exact nameFree named entry old

theorem World.Orderly.owned_outside (other : t ≠ u) (owned : w.Owned u job p) :
    (w.perform t rest m).Owned u job p where
  assigned := owned.assigned
  known := Nat.lt_of_lt_of_le owned.known (Shared.Kept.perform w t rest m).heapNext_le
  only held e member uses := by
    have topOutside := outside top mem_cons_self
    rw [World.Orderly.networks_outside stack moved topOutside] at held
    have kept := Shared.Kept.perform w t rest m
    rcases orderly.newcomer stack moved inOrder outside member with old | ⟨entry, old, same, grips⟩
    · exact owned.only held e old ((kept.uses (orderly.grounded.registered_lt e old)).mp uses)
    · have usesOld : w.Uses entry.2 job.cfg.networkName job.cfg.ipAddress := by
        rw [Shared.Uses, ← same.networkName, ← same.ipAddress]
        exact uses
      have isP := owned.only held entry old usesOld
      exact absurd (isP ▸ grips) (owned.alone t other top (World.Orderly.top_mem stack))
  alone v away frame member := orderly.alone_outside stack moved
    (outside top mem_cons_self) owned other away member
  uncalled v away ref member := orderly.uncalled_outside stack moved
    (outside top mem_cons_self) owned other away member

end

theorem World.Orderly.atStage_other (other : t ≠ u) :
    (w.perform t rest m).AtStage u (stage (w.threads u)) := by
  have atStage := orderly.stages u
  by_cases busy : stage (w.threads u) = .idle
  · rw [busy]
    trivial
  · have outside : ∀ frame ∈ top :: rest, frame.critical = false := fun frame member =>
      orderly.outside (Ne.symm other) busy (by rw [stack]; exact member)
    have networks := World.Orderly.networks_outside stack moved (outside top mem_cons_self)
    have reservedKept {job : RunJob} (reserved : w.Reserved job) :
        (w.perform t rest m).Reserved job :=
      ⟨reserved.assigned,
        orderly.unused_outside stack moved inOrder outside reserved.unused,
        by rw [networks]; exact reserved.taken⟩
    cases current : stage (w.threads u) with
    | idle => trivial
    | reserved job =>
      rw [current] at atStage
      exact reservedKept atStage
    | checked job =>
      rw [current] at atStage
      exact ⟨reservedKept atStage.1,
        orderly.nameFree_outside stack moved inOrder outside atStage.2⟩
    | owned job vm =>
      rw [current] at atStage
      exact orderly.owned_outside stack moved inOrder outside other atStage
    | released job =>
      rw [current] at atStage
      exact ⟨atStage.1, orderly.unused_outside stack moved inOrder outside atStage.2⟩

end Others

end Jerboa.Daemon
