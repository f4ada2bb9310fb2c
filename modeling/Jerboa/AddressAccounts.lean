import Jerboa.OrderlyServer

/-!
# Who an allocated address belongs to

Every allocated address of a network is its gateway, belongs to a registered VM
or is on its way to one in a Run request.  The server gives an address back only
when a Run request fails, so this holds as long as no other VM leaves the
registry with an address that nobody else has.
-/

namespace Jerboa.Daemon

open Vm NetworkStore

def Stage.job : Stage → Option RunJob
  | .idle => none
  | .reserved job | .checked job | .owned job _ | .released job => some job

def Shared.Used (s : Shared) (name text : String) : Prop :=
  ∃ e ∈ s.vms, (s.vm e.2).cfg.networkName = name ∧
    canonicalIP (s.vm e.2).cfg.ipAddress = some text

def World.Pending (w : World) (name text : String) : Prop :=
  ∃ t job, (stage (w.threads t)).job = some job ∧ job.cfg.networkName = name ∧
    canonicalIP job.cfg.ipAddress = some text

/-! ### VMs that leave the registry -/

def rollsBack (choice : Choice) : List Frame → Bool
  | [.create (.persist _), .handleRun (.creating _)] => true
  | [.remove (.delete _), .handleRun (.removing _ _)] => choice.ok
  | _ => false

/-- Another registered VM has the address of the VM, if its network is one of
the store. -/
def Shared.Spare (s : Shared) (p : Ref) : Prop :=
  (heldIPs s.networks (s.vm p).cfg.networkName).isSome →
    ∃ f ∈ s.vms, f.2 ≠ p ∧ s.Uses f.2 (s.vm p).cfg.networkName (s.vm p).cfg.ipAddress

def Frame.ReleasesCanonical : Frame → Prop
  | .handleRun (.release job) =>
    job.assignedIP ≠ "" → canonicalIP job.assignedIP = some job.assignedIP
  | _ => True

/-- Every registration is in order; a VM leaves the registry only in the
rollback of its own Run request or if another VM has its address; and what is
released is the text of the store. -/
def World.Retains (w : World) (label : Label) : Prop :=
  w.InOrder label ∧
    match label with
    | .thread t choice => ∀ top ∈ (w.threads t).head?,
        (∀ vm ∈ top.takesOut choice, rollsBack choice (w.threads t) = true ∨ w.Spare vm) ∧
          top.ReleasesCanonical
    | _ => True

/-- The VM of a request has its address, and is registered if the network is
one of the store. -/
structure Shared.Stays (s : Shared) (job : RunJob) (p : Ref) : Prop where
  uses : s.Uses p job.cfg.networkName job.cfg.ipAddress
  registered : (heldIPs s.networks job.cfg.networkName).isSome → ∃ e ∈ s.vms, e.2 = p

structure World.Accounted (w : World) : Prop where
  orderly : w.Orderly
  nodup : ∀ name ips, heldIPs w.networks name = some ips → ips.Nodup
  gateway : ∀ name ips, heldIPs w.networks name = some ips →
    ∃ gateway ∈ ips, gatewayOf w.networks name = some gateway
  covered : ∀ name ips, heldIPs w.networks name = some ips → ∀ text ∈ ips,
    gatewayOf w.networks name = some text ∨ w.Used name text ∨ w.Pending name text
  taken : ∀ t job, (stage (w.threads t)).job = some job → ∀ ips,
    heldIPs w.networks job.cfg.networkName = some ips → job.assignedIP ≠ "" ∧
      ∃ text ∈ ips, canonicalIP job.cfg.ipAddress = some text ∧
        gatewayOf w.networks job.cfg.networkName ≠ some text
  stays : ∀ t job p, stage (w.threads t) = .owned job p → w.Stays job p

variable {w : World} {t u : ThreadId} {choice : Choice} {top : Frame} {rest : List Frame}
  {m : Move}

theorem World.Orderly.stage_unique (orderly : w.Orderly)
    (busy : stage (w.threads t) ≠ .idle) (busyToo : stage (w.threads u) ≠ .idle) : t = u := by
  obtain ⟨frame, member, critical⟩ := critical_of_stage busy
  obtain ⟨frame', member', critical'⟩ := critical_of_stage busyToo
  have held := orderly.locked t frame member critical
  rw [orderly.locked u frame' member' critical'] at held
  exact (Option.some.inj held).symm

/-! ### What a move does to the stage of its goroutine -/

/-- How a move changes the request of its goroutine: not at all, by reserving an
address, by leaving the VM registered, or by releasing the address. -/
inductive JobMove (top : Frame) (m : Move) : Stage → Stage → Prop
  | same {before after : Stage} (job : after.job = before.job)
      (owned : ∀ job vm, after = .owned job vm → before = .owned job vm ∨
        ∃ cfg parent cause, top = .create (.register cfg parent cause)) :
      JobMove top m before after
  | reserves {job : RunJob} {pc : RunPc} (run : top = .handleRun pc) :
      JobMove top m .idle (.reserved job)
  | leaves {job : RunJob} {vm : Ref} : JobMove top m (.owned job vm) .idle
  | releases {job : RunJob} (release : top = .handleRun (.release job)) :
      JobMove top m (.released job) .idle

theorem JobMove.kept {before after : Stage} (job : after.job = before.job)
    (owned : ∀ job vm, after = .owned job vm → before = .owned job vm) :
    JobMove top m before after :=
  .same job fun job vm isOwned => .inl (owned job vm isOwned)

theorem RunPc.jobMove (s : Shared) (pc : RunPc) :
    ∀ m ∈ pc.move s t choice,
      JobMove (.handleRun pc) m (stage [.handleRun pc]) (stage (m.outcome.stack [])) := by
  fun_cases RunPc.move s t choice pc
  all_goals rintro _ ⟨⟩
  all_goals first
    | exact .kept rfl fun _ _ isOwned => isOwned
    | exact .kept rfl fun _ _ isOwned => by simp [stage, Outcome.stack] at isOwned
    | exact .reserves rfl
    | exact .releases rfl

variable {job : RunJob} {vm p : Ref} {s : Shared} {e : String × Ref} {name text : String}

theorem CreatePc.jobMove (s : Shared) (pc : CreatePc) :
    JobMove (.create pc) (pc.move s choice) (stage [.create pc, .handleRun (.creating job)])
      (stage ((pc.move s choice).outcome.stack [.handleRun (.creating job)])) := by
  fun_cases CreatePc.move s choice pc
  case case2 => exact .kept rfl fun _ _ isOwned => by simp [stage, Outcome.stack] at isOwned
  case case3 cfg parent cause _ => exact .same rfl fun _ _ _ => .inr ⟨cfg, parent, cause, rfl⟩
  case case5 vm _ =>
    rw [Outcome.stack, stage_resume_some]
    exact .kept rfl fun _ _ isOwned => isOwned
  all_goals
    rw [Outcome.stack, stage_resume_none]
    exact .kept rfl fun _ _ isOwned => by simp at isOwned

theorem StartPc.jobMove (s : Shared) (pc : StartPc) :
    JobMove (.start pc) (pc.move s choice) (stage [.start pc, .handleRun (.starting job vm)])
      (stage ((pc.move s choice).outcome.stack [.handleRun (.starting job vm)])) := by
  fun_cases StartPc.move s choice pc
  all_goals first
    | exact .kept rfl fun _ _ isOwned => isOwned
    | exact .leaves

theorem RemovePc.jobMove (s : Shared) (pc : RemovePc) :
    JobMove (.remove pc) (pc.move s choice) (stage [.remove pc, .handleRun (.removing job vm)])
      (stage ((pc.move s choice).outcome.stack [.handleRun (.removing job vm)])) := by
  fun_cases RemovePc.move s choice pc
  all_goals first
    | exact .kept rfl fun _ _ isOwned => isOwned
    | exact .kept rfl fun _ _ isOwned => by simp [stage, Outcome.stack, Frame.resume] at isOwned
    | exact .leaves

theorem stage_of_notRun {frame : Frame} (notRun : frame.isHandleRun = false) :
    stage [frame] = .idle := by
  by_contra busy
  have run : frame.isHandleRun = true := isHandleRun_of_stage busy
  simp [notRun] at run

theorem mem_act_vms_or_dropped {a : Action} (member : e ∈ s.vms)
    (fresh : ∀ id cfg now parent cause, a = .register id cfg now parent cause → e.1 ≠ id) :
    e ∈ (s.act a).vms ∨ a.dropped = some e.1 := by
  cases a with
  | register id cfg now parent cause =>
    have other := fresh id cfg now parent cause rfl
    exact .inl (List.mem_append_left _ (List.mem_filter.mpr ⟨member, by simpa using other⟩))
  | unregister id =>
    by_cases same : e.1 = id
    · exact .inr (congrArg some same.symm)
    · exact .inl (List.mem_filter.mpr ⟨member, by simpa using same⟩)
  | remove id =>
    by_cases same : e.1 = id
    · exact .inr (congrArg some same.symm)
    · exact .inl (List.mem_filter.mpr ⟨member, by simpa using same⟩)
  | save p =>
    refine .inl ?_
    simp only [Shared.act]
    split <;> exact member
  | _ => exact .inl member

theorem refs_of_takesOut {frame : Frame} (out : vm ∈ frame.takesOut choice) :
    vm ∈ frame.refs := by
  revert out
  fun_cases Frame.takesOut choice frame
  all_goals simp +contextual [Frame.refs, RemovePc.refs, RestartPc.refs, CreatePc.refs]

/-! ### Addresses in use stay accounted for -/

structure World.Allows (w : World) (t : ThreadId) (choice : Choice) (top : Frame) : Prop where
  inOrder : top.InOrder w.toShared choice
  takesOut : ∀ vm ∈ top.takesOut choice, rollsBack choice (w.threads t) = true ∨ w.Spare vm
  canonical : top.ReleasesCanonical

theorem used_of_mem (kept : w.toShared.Kept (w.perform t rest m).toShared)
    (known : e.2 < w.heapNext) (member : e ∈ (w.perform t rest m).vms)
    (network : (w.vm e.2).cfg.networkName = name)
    (address : canonicalIP (w.vm e.2).cfg.ipAddress = some text) :
    (w.perform t rest m).Used name text := by
  have same := kept.request e.2 known
  exact ⟨e, member, same.networkName.trans network, by rw [same.ipAddress, address]⟩

theorem rollsBack_cases {stack : List Frame} (rollback : rollsBack choice stack = true) :
    (∃ p job, stack = [.create (.persist p), .handleRun (.creating job)]) ∨
      ∃ p job q, stack = [.remove (.delete p), .handleRun (.removing job q)] ∧
        choice.ok = true := by
  revert rollback
  fun_cases rollsBack choice stack
  case case1 p job => exact fun _ => .inl ⟨p, job, rfl⟩
  case case2 p job q => exact fun ok => .inr ⟨p, job, q, rfl, ok⟩
  case case3 => simp

theorem job_of_rollsBack (shape : Shape w.toShared (top :: rest)) (out : vm ∈ top.takesOut choice)
    (rollback : rollsBack choice (top :: rest) = true) (registered : (w.get (w.vm vm).id).isSome)
    (moved : top.move w.toShared t choice = some m) :
    ∃ job, stage (top :: rest) = .owned job vm ∧ stage (m.outcome.stack rest) = .released job := by
  rcases rollsBack_cases rollback with ⟨p, job, same⟩ | ⟨p, job, q, same, ok⟩
  · obtain ⟨rfl, rfl⟩ := List.cons.inj same
    cases moved
    simp only [Frame.takesOut, Option.mem_def] at out
    split at out
    · simp at out
    · rename_i failed
      cases out
      refine ⟨job, rfl, ?_⟩
      simp only [CreatePc.move, failed]
      exact stage_resume_none
  · obtain ⟨rfl, rfl⟩ := List.cons.inj same
    cases moved
    obtain rfl : p = vm := Option.some.inj out
    have calls : Calls w.toShared (.handleRun (.removing job q)) (.remove (.delete p)) := shape
    cases calls with
    | runRemoving targets =>
      obtain rfl : p = q := targets
      refine ⟨job, rfl, ?_⟩
      simp only [RemovePc.move, registered, ok, if_true]
      rfl

theorem World.Orderly.get_isSome (orderly : w.Orderly) (member : e ∈ w.vms) :
    (w.get (w.vm e.2).id).isSome := by
  rw [orderly.grounded.registered_id e member,
    get_of_mem_vms (p := e.2) orderly.lineage.keys_nodup member]
  rfl

theorem World.Accounted.not_spare (accounted : w.Accounted)
    (owned : stage (w.threads t) = .owned job p)
    (held : (heldIPs w.networks job.cfg.networkName).isSome) : ¬ w.Spare p := by
  intro spare
  have stays := accounted.stays t job p owned
  have atStage := accounted.orderly.stages t
  rw [owned] at atStage
  obtain ⟨f, member, other, uses⟩ := spare (by rw [stays.uses.1]; exact held)
  apply other
  apply World.Owned.only atStage held f member
  exact ⟨uses.1.trans stays.uses.1, uses.2.trans stays.uses.2⟩

theorem Shared.Stays.of_kept {target : Shared} {p : Nat} (stays : s.Stays job p)
    (kept : s.Kept target) (known : p < s.heapNext)
    (held : (heldIPs target.networks job.cfg.networkName).isSome →
      (heldIPs s.networks job.cfg.networkName).isSome)
    (member : (heldIPs s.networks job.cfg.networkName).isSome →
      ∀ e ∈ s.vms, e.2 = p → e ∈ target.vms) :
    target.Stays job p where
  uses := (kept.uses known).mpr stays.uses
  registered heldAfter := by
    obtain ⟨e, inVms, same⟩ := stays.registered (held heldAfter)
    exact ⟨e, member (held heldAfter) e inVms same, same⟩

theorem stays_of_registered {cfg : Config} {parent : Option Ref} {cause : Cause}
    (shape : Shape w.toShared (.create (.register cfg parent cause) :: rest))
    (moved : (Frame.create (.register cfg parent cause)).move w.toShared t choice = some m)
    (owned : stage (m.outcome.stack rest) = .owned job p) : (w.perform t rest m).Stays job p := by
  cases moved
  obtain ⟨caller, rfl, calls⟩ := shape.caller rfl
  simp only [CreatePc.move] at owned ⊢
  split at owned
  · rename_i six
    cases calls with
    | runCreating config _ =>
      obtain ⟨rfl, rfl⟩ := Stage.owned.inj owned
      obtain rfl : cfg = _ := config
      simp only [six, if_true]
      constructor
      · rw [Shared.Uses, perform_vm, register_vm_new]
        exact ⟨rfl, rfl⟩
      · intro _
        refine ⟨(newID choice.bytes, w.heapNext), ?_, rfl⟩
        rw [perform_vms]
        exact List.mem_append_right _ (List.mem_singleton_self _)
    | restartCreating _ => simp [Outcome.stack, stage] at owned
    | startCreating _ => simp [Outcome.stack, stage] at owned
  · cases calls with
    | runCreating _ _ =>
      rw [Outcome.stack, stage_resume_none] at owned
      simp at owned
    | restartCreating _ => simp [Outcome.stack, Frame.resume, stage] at owned
    | startCreating _ => simp [Outcome.stack, Frame.resume, stage] at owned

/-! ### What a move keeps -/

section

variable (stack : w.threads t = top :: rest) (moved : top.move w.toShared t choice = some m)

include stack moved

theorem World.Orderly.jobMove (orderly : w.Orderly) :
    JobMove top m (stage (top :: rest)) (stage (m.outcome.stack rest)) := by
  have shape := orderly.shape t
  rw [stack] at shape
  rcases shape.cases with ⟨rfl, root⟩ | ⟨caller, rfl, calls⟩
  · cases notRun : top.isHandleRun with
    | false =>
      rw [stage_of_root notRun moved, stage_of_notRun notRun]
      exact .kept rfl fun _ _ isOwned => isOwned
    | true =>
      cases top with
      | handleRun pc => exact RunPc.jobMove w.toShared pc m moved
      | _ => simp [Frame.isHandleRun] at notRun
  · cases notRun : caller.isHandleRun with
    | false =>
      have own := orderly.own stack choice.pick caller List.mem_cons_self
      rw [stage_of_callee notRun (goesOn_of_move calls own moved), stage_of_caller notRun]
      exact .kept rfl fun _ _ isOwned => isOwned
    | true =>
      cases calls
      all_goals obtain rfl := Option.some.inj moved
      case runCreating _ _ => exact CreatePc.jobMove w.toShared _
      case runStarting _ => exact StartPc.jobMove w.toShared _
      case runRemoving _ => exact RemovePc.jobMove w.toShared _
      all_goals simp [Frame.isHandleRun] at notRun

theorem World.Orderly.registered_perform (orderly : w.Orderly)
    (inOrder : top.InOrder w.toShared choice) (member : e ∈ w.vms) :
    e ∈ (w.perform t rest m).vms ∨ e.2 ∈ top.takesOut choice := by
  have keyed := orderly.grounded.registered_id e member
  have known := orderly.grounded.registered_lt e member
  rw [perform_vms]
  refine (mem_act_vms_or_dropped member ?_).imp_right fun dropped => ?_
  · intro id cfg now parent cause action
    obtain ⟨rfl, six, rfl⟩ := register_of_move moved action
    rw [← keyed]
    exact ((inOrder six).1.1 e.2 known).1
  · obtain ⟨vm, out, sameID⟩ := (conduct_of_move moved).2.dropped _ dropped
    have knownVM := orderly.grounded.refs_lt t top (World.Orderly.top_mem stack) vm
      (refs_of_takesOut out)
    rw [← keyed] at sameID
    exact orderly.lineage.ids_distinct e.2 vm known knownVM sameID ▸ out

/-- What a registered VM has of a network stays in use, or becomes what a Run
request is about to release. -/
theorem World.Accounted.used_perform (accounted : w.Accounted) (allows : w.Allows t choice top)
    (held : (heldIPs w.networks name).isSome) (used : w.Used name text) :
    (w.perform t rest m).Used name text ∨
      ∃ job, stage (m.outcome.stack rest) = .released job ∧ job.cfg.networkName = name ∧
        canonicalIP job.cfg.ipAddress = some text := by
  have orderly := accounted.orderly
  have kept := Shared.Kept.perform w t rest m
  obtain ⟨e, member, network, address⟩ := used
  have known := orderly.grounded.registered_lt e member
  rcases orderly.registered_perform stack moved allows.inOrder member with stays | out
  · exact .inl (used_of_mem kept known stays network address)
  · rcases allows.takesOut e.2 out with rollback | spare
    · have shape := orderly.shape t
      rw [stack] at shape rollback
      obtain ⟨job, owned, released⟩ := job_of_rollsBack shape out rollback
        (orderly.get_isSome member) moved
      obtain ⟨sameNetwork, sameAddress⟩ := (accounted.stays t job e.2 (by rw [stack, owned])).uses
      refine .inr ⟨job, released, sameNetwork.symm.trans network, ?_⟩
      rw [← sameAddress, address]
    · obtain ⟨f, memberF, other, sameNetwork, sameAddress⟩ :=
        spare (by rw [network]; exact held)
      have staysF : f ∈ (w.perform t rest m).vms := by
        refine (orderly.registered_perform stack moved allows.inOrder memberF).resolve_right ?_
        intro outF
        exact other (Option.some.inj (outF.symm.trans out))
      exact .inl (used_of_mem kept (orderly.grounded.registered_lt f memberF) staysF
        (sameNetwork.trans network) (sameAddress.trans address))

theorem stage_perform (grounded : w.Grounded) :
    (u = t ∧ stage ((w.perform t rest m).threads u) = stage (m.outcome.stack rest)) ∨
      (u ≠ t ∧ stage ((w.perform t rest m).threads u) = stage (w.threads u)) := by
  rcases threads_perform w t u rest m with ⟨new, spawned, fresh, same⟩ | ⟨mine, same⟩ | ⟨other, same⟩
  · have idle := stage_of_outside ((conduct_of_move moved).1.spawned new spawned)
    refine .inr ⟨?_, ?_⟩
    · rintro rfl
      exact absurd fresh (Nat.ne_of_lt (grounded.started stack))
    · rw [same, idle, grounded.idle u (Nat.le_of_eq fresh.symm)]
      rfl
  · exact .inl ⟨mine, by rw [same]⟩
  · exact .inr ⟨other, by rw [same]⟩

theorem pending_own (grounded : w.Grounded)
    (isJob : (stage (m.outcome.stack rest)).job = some job)
    (address : canonicalIP job.cfg.ipAddress = some text) :
    (w.perform t rest m).Pending job.cfg.networkName text := by
  rcases stage_perform (u := t) stack moved grounded with ⟨-, same⟩ | ⟨other, -⟩
  · exact ⟨t, job, by rw [same, isJob], rfl, address⟩
  · exact absurd rfl other

theorem World.Accounted.covered_perform (accounted : w.Accounted)
    (allows : w.Allows t choice top) (notRelease : ∀ job, top ≠ .handleRun (.release job))
    (held : (heldIPs w.networks name).isSome) (covered : w.Used name text ∨ w.Pending name text) :
    (w.perform t rest m).Used name text ∨ (w.perform t rest m).Pending name text := by
  have grounded := accounted.orderly.grounded
  have jobMove := accounted.orderly.jobMove stack moved
  have fromUsed (used : w.Used name text) :
      (w.perform t rest m).Used name text ∨ (w.perform t rest m).Pending name text := by
    refine (accounted.used_perform stack moved allows held used).imp_right ?_
    rintro ⟨job, released, rfl, address⟩
    exact pending_own stack moved grounded (by rw [released]; rfl) address
  rcases covered with used | ⟨u, job, isJob, rfl, address⟩
  · exact fromUsed used
  · by_cases mine : u = t
    · subst mine
      rw [stack] at isJob
      generalize before : stage (top :: rest) = current at jobMove isJob
      generalize after : stage (m.outcome.stack rest) = next at jobMove
      cases jobMove with
      | same job' _ =>
        refine .inr (pending_own stack moved grounded ?_ address)
        rw [after, job', isJob]
      | reserves _ => simp [Stage.job] at isJob
      | leaves =>
        -- the request ends with its VM registered
        rename_i owner vm
        obtain rfl : owner = job := Option.some.inj isJob
        have stays := accounted.stays u owner vm (by rw [stack, before])
        obtain ⟨e, member, rfl⟩ := stays.registered held
        exact fromUsed ⟨e, member, stays.uses.1, by rw [stays.uses.2, address]⟩
      | releases release => exact absurd release (notRelease _)
    · rcases stage_perform (u := u) stack moved grounded with ⟨mine', -⟩ | ⟨-, same⟩
      · exact absurd mine' mine
      · exact .inr ⟨u, job, by rw [same, isJob], rfl, address⟩

theorem World.Accounted.stays_perform (accounted : w.Accounted) (allows : w.Allows t choice top)
    (networks : (w.perform t rest m).networks = w.networks)
    (owned : stage ((w.perform t rest m).threads u) = .owned job p) :
    (w.perform t rest m).Stays job p := by
  have orderly := accounted.orderly
  have jobMove := orderly.jobMove stack moved
  have kept := Shared.Kept.perform w t rest m
  have shape := orderly.shape t
  rw [stack] at shape
  have fromOwned (before : stage (w.threads u) = .owned job p)
      (noRollback : rollsBack choice (w.threads t) = true → ∀ e ∈ w.vms, e.2 = p →
        e.2 ∈ top.takesOut choice → False) : (w.perform t rest m).Stays job p := by
    have atStage := orderly.stages u
    rw [before] at atStage
    refine (accounted.stays u job p before).of_kept kept (World.Owned.known atStage)
      (by rw [networks]; exact id) fun held e member same => ?_
    refine (orderly.registered_perform stack moved allows.inOrder member).resolve_right fun out => ?_
    rcases allows.takesOut e.2 out with rollback | spare
    · exact noRollback rollback e member same out
    · exact accounted.not_spare before held (same ▸ spare)
  rcases stage_perform (u := u) stack moved orderly.grounded with ⟨rfl, after⟩ | ⟨other, after⟩
  · rw [after] at owned
    rw [owned] at jobMove
    generalize before : stage (top :: rest) = current at jobMove
    cases jobMove with
    | same _ ownedBefore =>
      rcases ownedBefore job p rfl with rfl | ⟨cfg, parent, cause, rfl⟩
      · refine fromOwned (by rw [stack, before]) fun rollback e member _ out => ?_
        rw [stack] at rollback
        obtain ⟨_, -, released⟩ := job_of_rollsBack shape out rollback
          (orderly.get_isSome member) moved
        simp [owned] at released
      · exact stays_of_registered shape moved owned
  · rw [after] at owned
    refine fromOwned owned fun rollback _ _ _ _ => ?_
    -- the goroutine that rolls back is inside the lock too
    refine other (orderly.stage_unique (by simp [owned]) ?_)
    rcases rollsBack_cases rollback with ⟨q, job', same⟩ | ⟨q, job', r, same, -⟩
    all_goals simp [same, stage]

end

end Jerboa.Daemon
