import Jerboa.DaemonRoles

/-!
# Explicit stops and the restart policy

Stop, Kill and Remove against the monitor and restart goroutines of the same
VM.  The flag that tells an explicit stop from an exit is set after the state
has changed, and nothing reads it between the monitor's look at it and the
replacement, so a stop that comes in between is lost.
-/

namespace Jerboa.Daemon

open Vm List

/-- A replacement by `restartVM` is not later than the return of a call that
stopped its VM. -/
def Event.Respects (later earlier : Event) : Prop :=
  match later, earlier with
  | .created _ (some old) .restartVM, .returned vm => vm ≠ old
  | _, _ => True

instance (later earlier : Event) : Decidable (later.Respects earlier) := by
  unfold Event.Respects
  split <;> infer_instance

theorem Event.respects_iff {later earlier : Event} :
    later.Respects earlier ↔
      ∀ vm old, later = .created vm (some old) .restartVM → earlier ≠ .returned old := by
  unfold Event.Respects
  split
  · simp
  · rename_i unrelated
    simp only [true_iff]
    rintro vm old rfl rfl
    exact unrelated _ _ _ rfl rfl

/-- No VM is replaced by `restartVM` once a Stop, Kill or Remove of it returned
nil; the history has the newest event first. -/
def World.StopsAreFinal (w : World) : Prop :=
  w.history.Pairwise Event.Respects

/-- Some goroutine can still end in a replacement of the VM: the restart is
decided, or a monitor will find the flag unset. -/
def World.CanRestart (w : World) (p : Ref) : Prop :=
  w.HasRole (.pending p) ∨
    ((w.vm p).explicitStop = false ∧
      (w.HasRole (.live p) ∨ ((w.vm p).state = .created ∧ w.HasRole (.starting p))))

instance (w : World) (p : Ref) : Decidable (w.CanRestart p) := by
  unfold World.CanRestart
  infer_instance

def Frame.InTime (w : World) : Frame → Prop
  | .stop _ (.check p) => (w.vm p).state = .stopped → ¬ w.CanRestart p
  | .stop _ (.transition p) =>
    .stopping ∈ validTransitions (w.vm p).state → ¬ w.HasRole (.pending p)
  | .remove (.delete p) => (w.get (w.vm p).id).isSome → ¬ w.CanRestart p
  | .monitor (.wait p) => (w.vm p).explicitStop = false → ¬ w.HasRole (.stopping p)
  | _ => True

instance (w : World) (frame : Frame) : Decidable (frame.InTime w) := by
  unfold Frame.InTime
  split <;> infer_instance

/-- Stop and Kill change a VM's state before its monitor sees the exit, no
monitor looks at the flag between that change and the flag, and neither an
early return nor a removal leaves a goroutine that can restart the VM. -/
def World.InTime (w : World) : Label → Prop
  | .thread t _ => ∀ top ∈ (w.threads t).head?, top.InTime w
  | _ => True

instance (w : World) (label : Label) : Decidable (w.InTime label) := by
  unfold World.InTime
  split <;> infer_instance

/-! ### The invariant -/

/-- No goroutine can restart the VM, now or later. -/
structure World.Quiet (w : World) (p : Ref) : Prop where
  allocated : p < w.heapNext
  notPending : ¬ w.HasRole (.pending p)
  unarmed : (w.vm p).explicitStop = true ∨
    (¬ w.HasRole (.live p) ∧
      ((w.vm p).state ≠ .created ∨
        ((∀ entry ∈ w.vms, entry.2 ≠ p) ∧ ¬ w.HasRole (.starting p))))

/-- A VM being stopped has no restart pending, and a stopped one is quiet. -/
structure World.StopsSeen (w : World) : Prop where
  stopping : ∀ p, w.HasRole (.stopping p) → ¬ w.HasRole (.pending p)
  flagged : ∀ p, w.HasRole (.flagged p) →
    (w.vm p).explicitStop = true ∧ ¬ w.HasRole (.pending p)
  quiet : ∀ p, .returned p ∈ w.history → w.Quiet p
  final : w.StopsAreFinal

variable {w : World} {t : ThreadId} {choice : Choice} {top : Frame} {rest : List Frame}
  {m : Move} {p : Nat}

theorem World.StopsSeen.of_same {target : World} (seen : w.StopsSeen)
    (roles : ∀ role, target.HasRole role → role = .other ∨ w.HasRole role)
    (flags : ∀ p, (target.vm p).explicitStop = (w.vm p).explicitStop)
    (states : ∀ p, (target.vm p).state = (w.vm p).state) (vms : target.vms = w.vms)
    (history : target.history = w.history) (heapNext : target.heapNext = w.heapNext) :
    target.StopsSeen where
  stopping p has pending :=
    seen.stopping p ((roles _ has).resolve_left (by simp))
      ((roles _ pending).resolve_left (by simp))
  flagged p has := by
    obtain ⟨flag, notPending⟩ := seen.flagged p ((roles _ has).resolve_left (by simp))
    exact ⟨(flags p).trans flag, fun pending =>
      notPending ((roles _ pending).resolve_left (by simp))⟩
  quiet p returned := by
    obtain ⟨allocated, notPending, unarmed⟩ := seen.quiet p (history ▸ returned)
    refine ⟨heapNext ▸ allocated, fun pending =>
      notPending ((roles _ pending).resolve_left (by simp)), ?_⟩
    rw [flags, states, vms]
    refine unarmed.imp_right fun ⟨notLive, rest⟩ => ⟨fun live =>
      notLive ((roles _ live).resolve_left (by simp)), rest.imp_right fun ⟨gone, notStarting⟩ =>
        ⟨gone, fun starting => notStarting ((roles _ starting).resolve_left (by simp))⟩⟩
  final := by
    unfold World.StopsAreFinal
    rw [history]
    exact seen.final

/-! ### One move -/

theorem World.Quiet.perform (quiet : w.Quiet p) (grounded : w.Grounded)
    (stack : w.threads t = top :: rest) (moved : top.move w.toShared t choice = some m) :
    (w.perform t rest m).Quiet p where
  allocated := by
    rw [perform_heapNext]
    exact Nat.lt_of_lt_of_le quiet.allocated (heapNext_le_act _ _)
  notPending pending := by
    rcases grounded.pending_perform stack moved pending with old | ⟨rfl, unset⟩
    · exact quiet.notPending old
    · rcases quiet.unarmed with flag | ⟨notLive, -⟩
      · simp [flag] at unset
      · exact notLive (grounded.hasRole_top stack)
  unarmed := by
    rw [perform_vm, perform_vms]
    rcases quiet.unarmed with flag | ⟨notLive, dead⟩
    · exact .inl (act_explicitStop m.action quiet.allocated flag)
    · refine .inr ⟨fun live => ?_, ?_⟩
      · rcases grounded.live_perform stack moved live with old | ⟨starting, created⟩
        · exact notLive old
        · rcases dead with notCreated | ⟨-, notStarting⟩
          · exact notCreated created
          · exact notStarting starting
      · rcases dead with notCreated | ⟨gone, notStarting⟩
        · exact .inl (act_not_created m.action quiet.allocated notCreated)
        · refine .inr ⟨fun entry member same => ?_, fun starting => ?_⟩
          · rcases mem_act_vms member with old | ⟨id, cfg, now, parent, cause, -, rfl⟩
            · exact gone entry old same
            · exact absurd same (Nat.ne_of_gt quiet.allocated)
          · rcases grounded.starting_perform stack moved starting with old | ⟨id, registered⟩
            · exact notStarting old
            · exact gone _ registered rfl

theorem World.Quiet.of_not_canRestart (allocated : p < w.heapNext)
    (cannot : ¬ w.CanRestart p)
    (spent : (w.vm p).state ≠ .created ∨ ∀ entry ∈ w.vms, entry.2 ≠ p) : w.Quiet p := by
  simp only [World.CanRestart, not_or, not_and] at cannot
  obtain ⟨notPending, unset⟩ := cannot
  refine ⟨allocated, notPending, ?_⟩
  cases flag : (w.vm p).explicitStop with
  | true => exact .inl rfl
  | false =>
    obtain ⟨notLive, notStarting⟩ := unset flag
    refine .inr ⟨notLive, ?_⟩
    by_cases created : (w.vm p).state = .created
    · exact .inr ⟨spent.resolve_left (not_not_intro created), notStarting created⟩
    · exact .inl created

theorem World.InTime.frame (inTime : w.InTime (.thread t choice))
    (stack : w.threads t = top :: rest) : top.InTime w :=
  inTime top (by rw [stack]; rfl)

theorem delete_frames {s : Shared} (moved : (Frame.remove (.delete p)).move s t choice = some m) :
    m.frames = [] := by
  cases moved
  simp only [RemovePc.move]
  split
  · split <;> rfl
  · rfl

theorem World.Quiet.of_remove (grounded : w.Grounded)
    (stack : w.threads t = .remove (.delete p) :: rest)
    (moved : (Frame.remove (.delete p)).move w.toShared t choice = some m)
    (action : m.action = .remove (w.vm p).id) (cannot : ¬ w.CanRestart p) :
    (w.perform t rest m).Quiet p := by
  have roles : ∀ role, (w.perform t rest m).HasRole role → role = .other ∨ w.HasRole role := by
    rintro _ ⟨frame, member, rfl⟩
    rcases grounded.mem_frames_perform stack member with old | new | resumed
    · exact .inr ⟨frame, old, rfl⟩
    · simp [delete_frames moved] at new
    · exact .inl (role_of_isResumed resumed)
  have sameVM : (w.perform t rest m).vm p = w.vm p := by
    rw [perform_vm, action]
    rfl
  have allocated : p < w.heapNext :=
    grounded.refs_lt t _ (by rw [stack]; exact mem_cons_self) p mem_cons_self
  refine .of_not_canRestart ?_ (fun can => cannot ?_) (.inr fun entry member same => ?_)
  · rw [perform_heapNext, action]
    exact allocated
  · rw [World.CanRestart, sameVM] at can
    exact can.imp (fun pending => (roles _ pending).resolve_left (by simp)) <| And.imp_right <|
      Or.imp (fun live => (roles _ live).resolve_left (by simp)) <| And.imp_right
        fun starting => (roles _ starting).resolve_left (by simp)
  · rw [perform_vms, action] at member
    obtain ⟨registered, keyed⟩ := mem_filter.mp member
    rw [← same, grounded.registered_id entry registered] at keyed
    simp at keyed

section

variable (seen : w.StopsSeen) (grounded : w.Grounded) (stack : w.threads t = top :: rest) (moved : top.move w.toShared t choice = some m)

include seen grounded stack moved

theorem World.StopsSeen.quiet_of_event (inTime : top.InTime w) (reported : .returned p ∈ m.events) :
    (w.perform t rest m).Quiet p := by
  obtain ⟨q, same, source⟩ := (roles_of_move moved).2.returned _ reported
  obtain rfl : p = q := by simpa using same
  rcases source with flagged | ⟨force, rfl, stopped⟩ | ⟨rfl, registered, action⟩
  · have has : w.HasRole (.flagged p) := flagged ▸ grounded.hasRole_top stack
    obtain ⟨flag, notPending⟩ := seen.flagged p has
    exact World.Quiet.perform ⟨grounded.role_lt has rfl, notPending, .inl flag⟩ grounded
      stack moved
  · have allocated : p < w.heapNext :=
      grounded.refs_lt t _ (by rw [stack]; exact mem_cons_self) p mem_cons_self
    exact World.Quiet.perform (.of_not_canRestart allocated (inTime stopped)
      (.inl (by simp [stopped]))) grounded stack moved
  · exact .of_remove grounded stack moved action (inTime registered)

theorem World.StopsSeen.stopping_perform
    (inTime : top.InTime w) (has : (w.perform t rest m).HasRole (.stopping p)) :
    ¬ (w.perform t rest m).HasRole (.pending p) := by
  intro pending
  rcases grounded.stopping_perform stack moved has with stopping | ⟨force, rfl, valid⟩
  · rcases grounded.pending_perform stack moved pending with old | ⟨rfl, unset⟩
    · exact seen.stopping p stopping old
    · exact inTime unset stopping
  · rcases grounded.pending_perform stack moved pending with old | ⟨different, -⟩
    · exact inTime valid old
    · simp at different

theorem World.StopsSeen.flagged_perform
    (inTime : top.InTime w) (has : (w.perform t rest m).HasRole (.flagged p)) :
    ((w.perform t rest m).vm p).explicitStop = true ∧
      ¬ (w.perform t rest m).HasRole (.pending p) := by
  rw [perform_vm]
  rcases grounded.flagged_perform stack moved has with flagged | ⟨stopping, action⟩
  · obtain ⟨flag, notPending⟩ := seen.flagged p flagged
    refine ⟨act_explicitStop m.action (grounded.role_lt flagged rfl) flag, fun pending => ?_⟩
    rcases grounded.pending_perform stack moved pending with old | ⟨-, unset⟩
    · exact notPending old
    · simp [flag] at unset
  · refine ⟨by rw [action]; simp [Shared.act], fun pending => ?_⟩
    rcases grounded.pending_perform stack moved pending with old | ⟨rfl, unset⟩
    · exact seen.stopping p stopping old
    · exact inTime unset stopping

theorem World.StopsSeen.final_perform :
    (w.perform t rest m).StopsAreFinal := by
  have reports := (roles_of_move moved).2
  have acted : (w.toShared.act m.action).history.Pairwise Event.Respects := by
    rcases act_created w.toShared m.action with
      ⟨-, same⟩ | ⟨id, cfg, now, parent, cause, action, -, same⟩
    · rw [same]
      exact seen.final
    · rw [same]
      refine pairwise_cons.mpr ⟨fun earlier member => ?_, seen.final⟩
      rw [Event.respects_iff]
      rintro vm old created rfl
      simp only [Event.created.injEq] at created
      obtain ⟨-, rfl, rfl⟩ := created
      have pending := reports.restarts id cfg now old action
      exact (seen.quiet old member).notPending (pending ▸ grounded.hasRole_top stack)
  have reported : ∀ later ∈ m.events, ∀ earlier, later.Respects earlier := by
    intro later member earlier
    obtain ⟨p, rfl, -⟩ := reports.returned later member
    trivial
  unfold World.StopsAreFinal
  rw [perform_history]
  exact pairwise_append.mpr
    ⟨pairwise_of_forall_mem_list fun later member earlier _ => reported later member earlier,
      acted, fun later member earlier _ => reported later member earlier⟩

theorem World.StopsSeen.perform (inTime : top.InTime w) : (w.perform t rest m).StopsSeen where
  stopping _ has := seen.stopping_perform grounded stack moved inTime has
  flagged _ has := seen.flagged_perform grounded stack moved inTime has
  quiet p returned := by
    rw [perform_history, mem_append] at returned
    rcases returned with new | old
    · exact seen.quiet_of_event grounded stack moved inTime new
    · refine (seen.quiet p ?_).perform grounded stack moved
      rcases act_created w.toShared m.action with ⟨-, same⟩ | ⟨_, _, _, _, _, -, -, same⟩
      · rwa [same] at old
      · rw [same] at old
        exact (mem_cons.mp old).resolve_left (by simp)
  final := seen.final_perform grounded stack moved

end

theorem stopsSeen_of_reachable (reached : system.ReachableUnder World.InTime w) :
    w.StopsSeen := by
  refine reached.invariant ?_ ?_
  · rintro w ⟨kind, networks, sha256Hex, -, rfl⟩
    have noRole : ∀ role, ¬ (World.initial kind networks).HasRole role := by
      rintro role ⟨frame, member, -⟩
      simp [World.frames, World.initial] at member
    exact ⟨fun p has => absurd has (noRole _), fun p has => absurd has (noRole _),
      by simp [World.initial], List.Pairwise.nil⟩
  · intro w label target reached seen inTime stepped
    have grounded := grounded_of_reachable reached
    rcases step_cases stepped with ⟨call, rfl, rfl⟩ |
      ⟨t, choice, frame, rest, m, rfl, stack, moved, rfl⟩ | ⟨heap, observed, rfl⟩
    · refine seen.of_same (fun role => grounded.hasRole_spawn ?_) (fun _ => rfl) (fun _ => rfl)
        rfl rfl rfl
      cases call <;> rfl
    · exact seen.perform grounded stack moved (inTime.frame stack)
    · exact seen.of_same (fun _ => .inr) (fun q => (congrArg VM.explicitStop (observed q).2 :))
        (fun q => (congrArg VM.state (observed q).2 :)) rfl rfl rfl

/-- In every run whose stops are in time, no VM is replaced by `restartVM`
after a Stop, Kill or Remove of it returned nil. -/
theorem stops_are_final (reached : system.ReachableUnder World.InTime w) : w.StopsAreFinal :=
  (stopsSeen_of_reachable reached).final

/-! ### Two orders of an exit and a stop -/

def stopThenExit : List Label :=
  createAndStart ++ [.call (.stop false "000000000000")] ++ movesOf 3 6 ++
    [.exit 0 .clean ""] ++ movesOf 2 4 ++ movesOf 3 1

/-- The process exits, and Stop comes when the monitor has marked the VM as
stopped but not yet started `restartVM`. -/
def exitThenStop : List Label :=
  createAndStart ++ [.exit 0 .clean ""] ++ movesOf 2 2 ++
    [.call (.stop false "000000000000")] ++ movesOf 3 2 ++ movesOf 2 2 ++ movesOf 4 2

theorem stops_are_final_stopThenExit :
    ((system.runUnder World.InTime (World.initial .file []) stopThenExit).map
        fun w => w.history) = some [.returned 0, .created 0 none .request] ∧
      ∀ w ∈ system.runUnder World.InTime (World.initial .file []) stopThenExit,
        w.StopsAreFinal :=
  ⟨by decide, fun _ ran => stops_are_final ((reachableUnder_initial _ _).run ran)⟩

/-- `restartVM` replaces a VM after Stop returned nil. -/
theorem restart_after_stop :
    system.initial (World.initial .file []) ∧
      ∃ w, system.run (World.initial .file []) exitThenStop = some w ∧ ¬ w.StopsAreFinal := by
  refine ⟨⟨.file, [], id, .start rfl, rfl⟩, ?_⟩
  have ran : ((system.run (World.initial .file []) exitThenStop).map fun w => w.history) =
      some [.created 1 (some 0) .restartVM, .returned 0, .created 0 none .request] := by
    decide
  obtain ⟨w, run, history⟩ := Option.map_eq_some_iff.mp ran
  refine ⟨w, run, ?_⟩
  rw [World.StopsAreFinal, history]
  decide

end Jerboa.Daemon
