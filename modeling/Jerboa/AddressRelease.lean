import Jerboa.AddressAccounts
import Jerboa.DistinctVMs

/-!
# Addresses of removed VMs

`handleRun` assigns an address and gives it back when it fails, but neither
`handleRemove` nor `autoRemove` releases the address of the VM that they remove.
-/

namespace Jerboa.Daemon

open Vm NetworkStore List

variable {w : World} {t u : ThreadId} {choice : Choice} {top : Frame} {rest : List Frame}
  {m : Move}

/-! ### Network updates -/

variable {networks : Store} {s : Shared} {job : RunJob}

theorem used_setNetworks (action : m.action = .setNetworks networks) {name text : String}
    (used : w.Used name text) : (w.perform t rest m).Used name text := by
  obtain ⟨e, member, network, address⟩ := used
  refine ⟨e, ?_, ?_, ?_⟩
  · rw [perform_vms, action]
    exact member
  · rw [perform_vm, action]
    exact network
  · rw [perform_vm, action]
    exact address

/-- A Run request takes an address that no network update has taken before. -/
structure Takes (before after : Store) (job : RunJob) (ips : List String) (text : String) :
    Prop where
  held : heldIPs before job.cfg.networkName = some ips
  canonical : canonicalIP job.cfg.ipAddress = some text
  free : text ∉ ips
  assigned : job.assignedIP ≠ ""
  heldAfter : ∀ other, heldIPs after other =
    if other = job.cfg.networkName then some (ips ++ [text]) else heldIPs before other
  gateways : ∀ other, gatewayOf after other = gatewayOf before other

theorem RunPc.addresses (store : NetworkStore.Invariant s.networks) (pc : RunPc) :
    ∀ m ∈ pc.move s t choice, m.action = .setNetworks networks →
      (∃ job ips text, stage [.handleRun pc] = .idle ∧
        stage (m.outcome.stack []) = .reserved job ∧ Takes s.networks networks job ips text) ∨
      ∃ job, pc = .release job ∧ networks = releaseAssigned s.networks job := by
  cases pc
  case address p img n =>
    rw [RunPc.move]
    split
    · split <;> rintro _ ⟨⟩ action
      · simp at action
      · rename_i ip _ allocated
        cases action
        obtain ⟨ips, held, free, canonical, after⟩ := allocateIP_held store allocated
        refine .inl ⟨_, ips, _, rfl, rfl, held, canonical, free, ne_empty_of_canonicalIP canonical,
          after, fun other => ?_⟩
        obtain ⟨_, _, _, -, -, -, rfl⟩ := allocateIP_eq_ok allocated
        exact gatewayOf_write _ _ _ other
    · rename_i given
      split <;> rintro _ ⟨⟩ action
      · simp at action
      · rename_i reserved
        cases action
        obtain ⟨ips, text, held, canonical, free, after⟩ := reserveIP_held reserved
        refine .inl ⟨_, ips, text, rfl, rfl, held, canonical, free, given, after, fun other => ?_⟩
        obtain ⟨_, _, -, rfl⟩ := reserveIP_eq_ok reserved
        exact gatewayOf_write _ _ _ other
  case release job =>
    rintro _ ⟨⟩ action
    exact .inr ⟨job, rfl, (Action.setNetworks.inj action).symm⟩
  case' unlockName job result => cases result
  -- the other moves leave the networks alone
  all_goals
    rw [RunPc.move]
    (repeat' split) <;> rintro _ ⟨⟩ action <;> simp at action

theorem RunPc.unstored (pc : RunPc) :
    ∀ m ∈ pc.move s t choice, stage [.handleRun pc] = .idle →
      stage (m.outcome.stack []) = .reserved job → m.action.isQuiet = true →
        heldIPs s.networks job.cfg.networkName = none := by
  cases pc
  case network p img =>
    rw [RunPc.move]
    split
    · rename_i unnamed
      rintro _ ⟨⟩ - after -
      cases after
      have name : (runJob p img "").cfg.networkName = "" := unnamed
      rw [name]
      exact heldIPs_empty _
    · split
      · rename_i missing
        split <;> rintro _ ⟨⟩ - after - <;> cases after
        exact heldIPs_of_get_error missing
      · rintro _ ⟨⟩ - after -
        cases after
  case' unlockName job result => cases result
  all_goals
    rw [RunPc.move]
    (repeat' split) <;> rintro _ ⟨⟩ before after quiet
  all_goals first
    | (simp [stage] at before; done)
    | (simp [stage, Outcome.stack] at after; done)
    | simp [Action.isQuiet] at quiet

theorem World.Orderly.others_idle (orderly : w.Orderly) (stack : w.threads t = top :: rest)
    (critical : top.critical = true) (other : u ≠ t) : stage (w.threads u) = .idle := by
  by_contra busy
  obtain ⟨frame, member, inside⟩ := critical_of_stage busy
  have mine := orderly.locked t top (World.Orderly.top_mem stack) critical
  rw [orderly.locked u frame member inside] at mine
  exact other (Option.some.inj mine)

theorem World.Orderly.stage_inside (orderly : w.Orderly) (stack : w.threads t = top :: rest)
    (moved : top.move w.toShared t choice = some m) (critical : top.critical = true)
    (busy : stage ((w.perform t rest m).threads u) ≠ .idle) :
    stage ((w.perform t rest m).threads u) = stage (m.outcome.stack rest) := by
  rcases stage_perform (u := u) stack moved orderly.grounded with ⟨-, after⟩ | ⟨other, after⟩
  · exact after
  · rw [after, orderly.others_idle stack critical other] at busy
    exact absurd rfl busy

theorem stage_ne_idle {current : Stage} (isJob : current.job = some job) :
    current ≠ .idle := by
  rintro rfl
  simp [Stage.job] at isJob

theorem World.Orderly.job_before (orderly : w.Orderly) (stack : w.threads t = top :: rest)
    (critical : top.critical = true) (isJob : (stage (w.threads u)).job = some job) :
    (stage (top :: rest)).job = some job := by
  by_cases mine : u = t
  · rw [← stack, ← mine]
    exact isJob
  · rw [orderly.others_idle stack critical mine] at isJob
    simp [Stage.job] at isJob

/-- The accounts after a step, from what it does to each network. -/
theorem World.Accounted.of_account {next : World} (accounted : w.Accounted)
    (orderly : next.Orderly)
    (gateways : ∀ name, gatewayOf next.networks name = gatewayOf w.networks name)
    (account : ∀ name ips', heldIPs next.networks name = some ips' →
      ∃ ips, heldIPs w.networks name = some ips ∧ (ips.Nodup → ips'.Nodup) ∧
        (∀ text ∈ ips, gatewayOf w.networks name = some text → text ∈ ips') ∧
        ∀ text ∈ ips', next.Pending name text ∨ text ∈ ips ∧
          (w.Used name text ∨ w.Pending name text → next.Used name text ∨ next.Pending name text))
    (taken : ∀ t job, (stage (next.threads t)).job = some job → ∀ ips,
      heldIPs next.networks job.cfg.networkName = some ips → job.assignedIP ≠ "" ∧
        ∃ text ∈ ips, canonicalIP job.cfg.ipAddress = some text ∧
          gatewayOf w.networks job.cfg.networkName ≠ some text)
    (stays : ∀ t job p, stage (next.threads t) = .owned job p → next.Stays job p) :
    next.Accounted where
  orderly := orderly
  nodup name ips' held := by
    obtain ⟨ips, before, nodup, -⟩ := account name ips' held
    exact nodup (accounted.nodup name ips before)
  gateway name ips' held := by
    obtain ⟨ips, before, -, keeps, -⟩ := account name ips' held
    obtain ⟨gateway, inIPs, isGateway⟩ := accounted.gateway name ips before
    exact ⟨gateway, keeps gateway inIPs isGateway, (gateways name).trans isGateway⟩
  covered name ips' held text inIPs := by
    obtain ⟨ips, before, -, -, covers⟩ := account name ips' held
    rcases covers text inIPs with pending | ⟨old, covered⟩
    · exact .inr (.inr pending)
    · rw [gateways]
      exact (accounted.covered name ips before text old).imp_right covered
  taken := by simpa only [gateways] using taken
  stays := stays

theorem World.Accounted.takes {ips : List String} {text : String} (accounted : w.Accounted)
    (orderly : (w.perform t rest m).Orderly) (stack : w.threads t = top :: rest)
    (moved : top.move w.toShared t choice = some m) (critical : top.critical = true)
    (action : m.action = .setNetworks networks) (before : stage (top :: rest) = .idle)
    (after : stage (m.outcome.stack rest) = .reserved job)
    (takes : Takes w.networks networks job ips text) : (w.perform t rest m).Accounted := by
  have updated : (w.perform t rest m).networks = networks := by
    rw [perform_networks, action]
    rfl
  have stillCovered {name text : String} (covered : w.Used name text ∨ w.Pending name text) :
      (w.perform t rest m).Used name text ∨ (w.perform t rest m).Pending name text := by
    rcases covered with used | ⟨u, other, isJob, -⟩
    · exact .inl (used_setNetworks action used)
    · have mine := accounted.orderly.job_before stack critical isJob
      simp [before, Stage.job] at mine
  apply accounted.of_account orderly
  · intro name
    rw [updated, takes.gateways]
  · intro name ips' held
    rw [updated, takes.heldAfter] at held
    split at held
    · rename_i same
      subst same
      cases held
      refine ⟨ips, takes.held, fun nodup => ?_, fun _ inOld _ => mem_append_left _ inOld,
        fun text' inIPs => ?_⟩
      · simpa using nodup.concat takes.free
      · rcases mem_append.mp inIPs with inOld | isNew
        · exact .inr ⟨inOld, stillCovered⟩
        · obtain rfl := mem_singleton.mp isNew
          exact .inl (pending_own stack moved accounted.orderly.grounded
            (by rw [after]; rfl) takes.canonical)
    · exact ⟨ips', held, id, fun _ inIPs _ => inIPs, fun _ inIPs => .inr ⟨inIPs, stillCovered⟩⟩
  · intro u other isJob ips' held
    rw [accounted.orderly.stage_inside stack moved critical (stage_ne_idle isJob), after] at isJob
    obtain rfl : job = other := Option.some.inj isJob
    rw [updated, takes.heldAfter, if_pos rfl] at held
    cases held
    refine ⟨takes.assigned, text, by simp, takes.canonical, fun isGateway => ?_⟩
    obtain ⟨gateway, inIPs, same⟩ := accounted.gateway _ ips takes.held
    obtain rfl := Option.some.inj (isGateway.symm.trans same)
    exact takes.free inIPs
  · intro u other p owned
    have mine := accounted.orderly.stage_inside (u := u) stack moved critical (by simp [owned])
    rw [owned, after] at mine
    simp at mine

theorem World.Accounted.releases (accounted : w.Accounted) (orderly : (w.perform t [] m).Orderly)
    (stack : w.threads t = [.handleRun (.release job)])
    (moved : (Frame.handleRun (.release job)).move w.toShared t choice = some m)
    (canonical : (Frame.handleRun (.release job)).ReleasesCanonical) :
    (w.perform t [] m).Accounted := by
  have isStage : stage (w.threads t) = .released job := by rw [stack]; rfl
  have action : m.action = .setNetworks (releaseAssigned w.networks job) := by
    cases moved
    rfl
  have after : stage (m.outcome.stack []) = .idle := by
    cases moved
    rfl
  have updated : (w.perform t [] m).networks = releaseAssigned w.networks job := by
    rw [perform_networks, action]
    rfl
  have allIdle (u : ThreadId) : stage ((w.perform t [] m).threads u) = .idle := by
    by_contra busy
    exact busy ((accounted.orderly.stage_inside stack moved rfl busy).trans after)
  have taken := accounted.taken t job (by rw [isStage]; rfl)
  obtain ⟨isAssigned, -⟩ : job.Assigned ∧ w.Unused job := by
    have atStage := accounted.orderly.stages t
    rw [isStage] at atStage
    exact atStage
  have given : (heldIPs w.networks job.cfg.networkName).isSome → job.assignedIP ≠ "" := by
    intro held
    obtain ⟨ips, held⟩ := Option.isSome_iff_exists.mp held
    exact (taken ips held).1
  -- what is covered by anything but this request stays covered
  have stillCovered {name text : String} (notOwn : job.cfg.networkName = name →
      canonicalIP job.cfg.ipAddress ≠ some text) (covered : w.Used name text ∨ w.Pending name text) :
      (w.perform t [] m).Used name text ∨ (w.perform t [] m).Pending name text := by
    rcases covered with used | ⟨u, other, isJob, network, address⟩
    · exact .inl (used_setNetworks action used)
    · obtain rfl : job = other :=
        Option.some.inj (accounted.orderly.job_before stack rfl isJob)
      exact absurd address (notOwn network)
  suffices both : (∀ name, gatewayOf (w.perform t [] m).networks name =
      gatewayOf w.networks name) ∧ _ from
    accounted.of_account orderly both.1 both.2
      (fun u _ isJob => absurd (allIdle u) (stage_ne_idle isJob))
      fun u _ _ owned => by simp [allIdle u] at owned
  rw [updated]
  rcases releaseAssigned_held w.networks job given with ⟨unstored, same⟩ |
    ⟨ips, held, heldAfter, gateways⟩
  · rw [same]
    refine ⟨fun _ => rfl, fun name ips held => ⟨ips, held, id, fun _ inIPs _ => inIPs,
      fun text inIPs => .inr ⟨inIPs, stillCovered ?_⟩⟩⟩
    rintro rfl
    simp [unstored] at held
  · obtain ⟨assigned, text, inIPs, address, notGateway⟩ := taken ips held
    have sameText : job.assignedIP = text := by
      have given := canonical assigned
      rw [← isAssigned assigned, address] at given
      exact (isAssigned assigned).symm.trans (Option.some.inj given).symm
    rw [sameText] at heldAfter
    refine ⟨gateways, fun name ips' heldNow => ?_⟩
    rw [heldAfter] at heldNow
    split at heldNow
    · rename_i same
      subst same
      cases heldNow
      refine ⟨ips, held, fun nodup => nodup.erase _, fun gateway inOld isGateway => ?_,
        fun text' inNow => ?_⟩
      · refine (mem_erase_of_ne ?_).mpr inOld
        rintro rfl
        exact notGateway isGateway
      · obtain ⟨different, inOld⟩ := (accounted.nodup _ ips held).mem_erase_iff.mp inNow
        refine .inr ⟨inOld, stillCovered fun _ own => ?_⟩
        exact different (Option.some.inj (own.symm.trans address))
    · rename_i other
      exact ⟨ips', heldNow, id, fun _ inIPs _ => inIPs, fun _ inIPs =>
        .inr ⟨inIPs, stillCovered fun same => absurd same.symm other⟩⟩

/-! ### The accounts are kept -/

theorem Shape.eq_nil_of_run (shape : Shape s (top :: rest)) (run : top.isHandleRun = true) :
    rest = [] := by
  rcases shape.cases with ⟨nil, -⟩ | ⟨caller, -, calls⟩
  · exact nil
  · cases calls <;> simp [Frame.isHandleRun] at run

theorem World.Accounted.keeps (accounted : w.Accounted) (orderly : (w.perform t rest m).Orderly)
    (stack : w.threads t = top :: rest) (moved : top.move w.toShared t choice = some m)
    (allows : w.Allows t choice top)
    (networks : (w.perform t rest m).networks = w.networks)
    (quiet : top.isHandleRun = true → m.action.isQuiet = true) :
    (w.perform t rest m).Accounted := by
  have notRelease (job : RunJob) : top ≠ .handleRun (.release job) := by
    rintro rfl
    cases moved
    exact absurd (quiet rfl) (by simp [Action.isQuiet])
  apply accounted.of_account orderly
  · simp [networks]
  · intro name ips held
    rw [networks] at held
    exact ⟨ips, held, id, fun _ inIPs _ => inIPs, fun text inIPs => .inr ⟨inIPs,
      accounted.covered_perform stack moved allows notRelease (by simp [held])⟩⟩
  · intro u job isJob ips held
    rw [networks] at held
    rcases stage_perform (u := u) stack moved accounted.orderly.grounded with
      ⟨rfl, after⟩ | ⟨-, after⟩
    · rw [after] at isJob
      have jobMove := accounted.orderly.jobMove stack moved
      generalize before : stage (top :: rest) = current at jobMove
      generalize next : stage (m.outcome.stack rest) = target at jobMove isJob
      cases jobMove with
      | same job' _ =>
        refine accounted.taken u job ?_ ips held
        rw [stack, before, ← job', isJob]
      | reserves run =>
        cases isJob
        subst run
        have shape := accounted.orderly.shape u
        rw [stack] at shape
        obtain rfl := shape.eq_nil_of_run rfl
        rw [RunPc.unstored _ m moved before next (quiet rfl)] at held
        simp at held
      | leaves => simp [Stage.job] at isJob
      | releases _ => simp [Stage.job] at isJob
    · rw [after] at isJob
      exact accounted.taken u job isJob ips held
  · intro u job p owned
    exact accounted.stays_perform stack moved allows networks owned

theorem World.Accounted.perform (accounted : w.Accounted) (stack : w.threads t = top :: rest)
    (moved : top.move w.toShared t choice = some m) (allows : w.Allows t choice top) :
    (w.perform t rest m).Accounted := by
  have orderly := accounted.orderly.perform stack moved allows.inOrder
  have shape := accounted.orderly.shape t
  rw [stack] at shape
  rcases (conduct_of_move moved).2.quiet with quiet | ⟨cfg, parent, cause, rfl⟩ | ⟨critical, networks, action⟩
  · apply accounted.keeps orderly stack moved allows
    · rw [perform_networks, act_networks_of_isQuiet quiet]
    · exact fun _ => quiet
  · apply accounted.keeps orderly stack moved allows
    · cases moved
      rw [perform_networks]
      simp only [CreatePc.move]
      split <;> rfl
    · simp [Frame.isHandleRun]
  · obtain rfl := shape.eq_nil critical
    cases top with
    | handleRun pc =>
      rcases RunPc.addresses accounted.orderly.store pc m moved action with
        ⟨job, ips, text, before, after, takes⟩ | ⟨job, rfl, rfl⟩
      · exact accounted.takes orderly stack moved critical action before after takes
      · exact accounted.releases orderly stack moved allows.canonical
    | handleStart pc =>
      -- a Start request keeps the address of the VM that it replaces
      revert action moved
      simp only [Frame.move]
      fun_cases HandleStartPc.move w.toShared t choice pc
      all_goals rintro action ⟨⟩
      all_goals simp at action
    | _ => simp [Frame.critical] at critical

theorem World.Accounted.undisturbed {next : World} (accounted : w.Accounted)
    (orderly : next.Orderly) (vms : next.vms = w.vms) (networks : next.networks = w.networks)
    (cfg : ∀ p, (next.vm p).cfg = (w.vm p).cfg)
    (stages : ∀ u, stage (next.threads u) = stage (w.threads u)) : next.Accounted := by
  have used (name text : String) : w.Used name text → next.Used name text := by
    rintro ⟨e, member, network, address⟩
    exact ⟨e, vms ▸ member, by rw [cfg, network], by rw [cfg, address]⟩
  have pending (name text : String) : w.Pending name text → next.Pending name text := by
    rintro ⟨u, job, isJob, network, address⟩
    exact ⟨u, job, by rw [stages, isJob], network, address⟩
  apply accounted.of_account orderly
  · simp [networks]
  · intro name ips held
    rw [networks] at held
    exact ⟨ips, held, id, fun _ inIPs _ => inIPs, fun text inIPs => .inr ⟨inIPs,
      Or.imp (used name text) (pending name text)⟩⟩
  · intro u job isJob
    rw [stages] at isJob
    rw [networks]
    exact accounted.taken u job isJob
  · intro u job p owned
    rw [stages] at owned
    obtain ⟨uses, registered⟩ := accounted.stays u job p owned
    refine ⟨?_, ?_⟩
    · rw [Shared.Uses, cfg]
      exact uses
    · rw [networks, vms]
      exact registered

theorem World.Accounted.spawn {frame : Frame} (accounted : w.Accounted)
    (orderly : (w.spawn frame).Orderly) (arrival : frame.isArrival = true) :
    (w.spawn frame).Accounted := by
  refine accounted.undisturbed orderly rfl rfl (fun _ => rfl) fun u => ?_
  by_cases fresh : u = w.threadNext
  · have idle : w.threads u = [] := accounted.orderly.grounded.idle u (Nat.le_of_eq fresh.symm)
    have arrived : (w.spawn frame).threads u = [frame] := by simp [World.spawn, fresh]
    rw [arrived, idle]
    exact stage_of_outside (arrives_of_isArrival w.toShared arrival).outside
  · simp [World.spawn, Function.update_of_ne fresh]

/-! ### Runs of the server -/

def Untouched (networks : Store) : Prop :=
  ∀ e ∈ networks, e.2.state.allocatedIPs = [e.2.metadata.gateway]

def freshSystem : TransitionSystem World Label where
  initial w := ∃ kind networks sha256Hex, (NetworkStore.system sha256Hex).Reachable networks ∧
    Untouched networks ∧ w = World.initial kind networks
  step := World.step

theorem reachableUnder_of_fresh {allowed : World → Label → Prop}
    (reached : freshSystem.ReachableUnder allowed w) : system.ReachableUnder allowed w := by
  refine TransitionSystem.ReachableUnder.of_initial ?_ ?_ reached
  rotate_left
  · rfl
  rintro w ⟨kind, networks, sha256Hex, built, -, rfl⟩
  exact ⟨kind, networks, sha256Hex, built, rfl⟩

theorem accounted_initial {kind : StoreKind} (untouched : Untouched networks)
    (orderly : (World.initial kind networks).Orderly) :
    (World.initial kind networks).Accounted := by
  have only {name : String} {ips : List String} (held : heldIPs networks name = some ips) :
      ∃ gateway, gatewayOf networks name = some gateway ∧ ips = [gateway] := by
    cases read : readNetwork networks name with
    | error e => simp [heldIPs, read] at held
    | ok dir =>
      rw [heldIPs_of_read read] at held
      have member := mem_of_findDir (readNetwork_eq_ok read).2
      refine ⟨dir.metadata.gateway, by simp [gatewayOf, read], ?_⟩
      rw [← untouched _ member]
      exact (Option.some.inj held).symm
  refine ⟨orderly, ?_, ?_, ?_, ?_, ?_⟩
  · intro name ips held
    obtain ⟨gateway, -, rfl⟩ := only held
    exact nodup_singleton gateway
  · intro name ips held
    obtain ⟨gateway, isGateway, rfl⟩ := only held
    exact ⟨gateway, mem_singleton_self _, isGateway⟩
  · intro name ips held text inIPs
    obtain ⟨gateway, isGateway, rfl⟩ := only held
    exact .inl (mem_singleton.mp inIPs ▸ isGateway)
  · intro t job isJob
    simp [World.initial, stage, Stage.job] at isJob
  · intro t job p owned
    simp [World.initial, stage] at owned

theorem accounted_of_reachable (reached : freshSystem.ReachableUnder World.Retains w) :
    w.Accounted := by
  have inOrder {w : World} (reached : freshSystem.ReachableUnder World.Retains w) : w.Orderly :=
    orderly_of_reachable ((reachableUnder_of_fresh reached).mono fun _ _ retains => retains.1)
  refine reached.invariant ?_ ?_
  · intro w first
    have orderly := inOrder (.start first)
    obtain ⟨kind, networks, sha256Hex, -, untouched, rfl⟩ := first
    exact accounted_initial untouched orderly
  · intro w label target reached accounted retains stepped
    have orderly := inOrder (reached.next retains stepped)
    rcases step_cases stepped with ⟨call, rfl, rfl⟩ |
      ⟨t, choice, top, rest, m, rfl, stack, moved, rfl⟩ | ⟨heap, observed, rfl⟩
    · refine accounted.spawn orderly ?_
      cases call with
      | managerCreate cfg => exact retains.1.elim
      | managerStart ref => exact retains.1.elim
      | _ => rfl
    · have isTop : top ∈ (w.threads t).head? := by rw [stack]; rfl
      obtain ⟨takesOut, canonical⟩ := retains.2 top isTop
      exact accounted.perform stack moved ⟨retains.1 top isTop, takesOut, canonical⟩
    · exact accounted.undisturbed orderly rfl rfl (fun q => (congrArg VM.cfg (observed q).2 :))
        fun _ => rfl

/-- The allocated addresses of every network are its gateway, the addresses of
the registered VMs and those of the Run request in progress. -/
def World.AddressesExact (w : World) : Prop :=
  ∀ name ips, heldIPs w.networks name = some ips → ∀ text,
    text ∈ ips ↔ gatewayOf w.networks name = some text ∨ w.Used name text ∨ w.Pending name text

theorem World.Accounted.addressesExact (accounted : w.Accounted) : w.AddressesExact := by
  intro name ips held text
  constructor
  · exact accounted.covered name ips held text
  · rintro (gateway | ⟨e, member, rfl, address⟩ | ⟨t, job, isJob, rfl, address⟩)
    · obtain ⟨other, inIPs, isGateway⟩ := accounted.gateway name ips held
      exact Option.some.inj (gateway.symm.trans isGateway) ▸ inIPs
    · obtain ⟨other, inIPs, canonical⟩ :=
        accounted.orderly.lineage.addresses_taken e member ips held
      exact Option.some.inj (address.symm.trans canonical) ▸ inIPs
    · obtain ⟨-, other, inIPs, canonical, -⟩ := accounted.taken t job isJob ips held
      exact Option.some.inj (address.symm.trans canonical) ▸ inIPs

theorem World.Orderly.not_pending (orderly : w.Orderly) (unlocked : w.resourceMu = none)
    (name text : String) : ¬ w.Pending name text := by
  rintro ⟨t, job, isJob, -, -⟩
  obtain ⟨frame, member, critical⟩ := critical_of_stage (stage_ne_idle isJob)
  have held := orderly.locked t frame member critical
  simp [unlocked] at held

/-- As long as no VM leaves the registry with an address of its own, the
allocated addresses are accounted for; while no Run or Start request is in
progress, they are the gateways and the addresses of the registered VMs. -/
theorem allocated_addresses_exact (reached : freshSystem.ReachableUnder World.Retains w) :
    w.AddressesExact ∧ (w.resourceMu = none → ∀ name text, ¬ w.Pending name text) := by
  have accounted := accounted_of_reachable reached
  exact ⟨accounted.addressesExact, accounted.orderly.not_pending⟩

instance (networks : Store) : Decidable (Untouched networks) :=
  inferInstanceAs (Decidable (∀ e ∈ networks, e.2.state.allocatedIPs = [e.2.metadata.gateway]))

instance (s : Shared) (p : Ref) : Decidable (s.Spare p) :=
  inferInstanceAs (Decidable ((heldIPs s.networks (s.vm p).cfg.networkName).isSome →
    ∃ f ∈ s.vms, f.2 ≠ p ∧ (s.vm f.2).cfg.networkName = (s.vm p).cfg.networkName ∧
      canonicalIP (s.vm f.2).cfg.ipAddress = canonicalIP (s.vm p).cfg.ipAddress))

instance (frame : Frame) : Decidable frame.ReleasesCanonical := by
  unfold Frame.ReleasesCanonical
  split <;> infer_instance

instance (w : World) : (label : Label) → Decidable (w.Retains label)
  | .call call => inferInstanceAs (Decidable (w.InOrder (.call call) ∧ True))
  | .exit p waitErr stderr => inferInstanceAs (Decidable (w.InOrder (.exit p waitErr stderr) ∧ True))
  | .probe p status => inferInstanceAs (Decidable (w.InOrder (.probe p status) ∧ True))
  | .thread t choice => inferInstanceAs (Decidable (w.InOrder (.thread t choice) ∧
      ∀ top ∈ (w.threads t).head?,
        (∀ vm ∈ top.takesOut choice, rollsBack choice (w.threads t) = true ∨ w.Spare vm) ∧
          top.ReleasesCanonical))

def appNetworks : Store :=
  ((NetworkStore.system fun _ => "").run [] [.create "app" "10.1.0.0/24" ""]).getD []

def appParams : RunParams :=
  { webParams with networkName := "app", restart := none }

theorem freshSystem_initial_app : freshSystem.initial (World.initial .file appNetworks) := by
  refine ⟨.file, appNetworks, fun _ => "", ?_, by decide, rfl⟩
  have ran : (NetworkStore.system fun _ => "").run [] [.create "app" "10.1.0.0/24" ""] =
      some appNetworks := by
    decide
  exact (TransitionSystem.Reachable.start rfl).run ran

/-- A VM runs, and a second Run request takes an address but is refused for
its name. -/
theorem allocated_addresses_exact_app :
    ∃ w, freshSystem.runUnder World.Retains (World.initial .file appNetworks)
        ([.call (.run appParams)] ++ movesOf 0 24 ++ [.call (.run appParams)] ++ movesOf 2 9) =
          some w ∧
      heldIPs w.networks "app" = some ["10.1.0.1", "10.1.0.2"] ∧ w.resourceMu = none ∧
      w.AddressesExact ∧ ∀ name text, ¬ w.Pending name text := by
  have ran : ((freshSystem.runUnder World.Retains (World.initial .file appNetworks)
      ([.call (.run appParams)] ++ movesOf 0 24 ++ [.call (.run appParams)] ++ movesOf 2 9)).map
        fun w => (heldIPs w.networks "app", w.resourceMu)) =
      some (some ["10.1.0.1", "10.1.0.2"], none) := by
    decide
  obtain ⟨w, run, final⟩ := Option.map_eq_some_iff.mp ran
  obtain ⟨held, unlocked⟩ := Prod.mk.inj final
  have exact := allocated_addresses_exact
    ((TransitionSystem.ReachableUnder.start freshSystem_initial_app).run run)
  exact ⟨w, run, held, unlocked, exact.1, exact.2 unlocked⟩

/-- A VM runs, its process exits and it is removed; its address stays
allocated. -/
theorem removed_vm_keeps_address :
    freshSystem.initial (World.initial .file appNetworks) ∧
      ∃ w, freshSystem.run (World.initial .file appNetworks)
          ([.call (.run appParams)] ++ movesOf 0 24 ++ [.exit 0 .clean ""] ++ movesOf 1 4 ++
            [.call (.remove "web")] ++ movesOf 2 3) = some w ∧
        w.vms = [] ∧ w.resourceMu = none ∧ ¬ w.AddressesExact := by
  refine ⟨freshSystem_initial_app, ?_⟩
  have ran : ((freshSystem.run (World.initial .file appNetworks)
      ([.call (.run appParams)] ++ movesOf 0 24 ++ [.exit 0 .clean ""] ++ movesOf 1 4 ++
        [.call (.remove "web")] ++ movesOf 2 3)).map fun w =>
          (heldIPs w.networks "app", gatewayOf w.networks "app", w.threadNext, w.vms.isEmpty &&
            w.resourceMu.isNone && (List.range 3).all fun t => (w.threads t).isEmpty)) =
      some (some ["10.1.0.1", "10.1.0.2"], some "10.1.0.1", 3, true) := by
    decide
  obtain ⟨w, run, final⟩ := Option.map_eq_some_iff.mp ran
  simp only [Prod.mk.injEq, Bool.and_eq_true, List.isEmpty_iff, Option.isNone_iff_eq_none,
    all_eq_true, mem_range] at final
  obtain ⟨held, gateway, started, ⟨vms, unlocked⟩, finished⟩ := final
  refine ⟨w, run, vms, unlocked, fun exact => ?_⟩
  have reached := (TransitionSystem.Reachable.start freshSystem_initial_app).run run
  have idle (t : Nat) : w.threads t = [] := by
    by_cases old : t < 3
    · exact finished t old
    · exact (grounded_of_reachable (reachableUnder_of_fresh reached)).idle t (by omega)
  rcases (exact "app" _ held "10.1.0.2").mp (by simp) with isGateway | ⟨e, member, -⟩ |
    ⟨t, job, isJob, -⟩
  · simp [gateway] at isGateway
  · simp [vms] at member
  · simp [idle t, stage, Stage.job] at isJob

end Jerboa.Daemon
