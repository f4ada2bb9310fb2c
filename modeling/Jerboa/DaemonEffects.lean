import Jerboa.DaemonPrograms
import Jerboa.NetworkOccupancy

/-!
# What a critical section can change

For every field of the shared state, the critical sections that touch it, and
what of a VM object never changes once it is there: its identity and origin,
and the stopped state and the explicit-stop flag once they are reached.
-/

namespace Jerboa.Daemon

open Vm List Function

variable {s : Shared} {p q : Nat}

@[simp]
theorem update_vm_self (s : Shared) (p : Ref) (change : VM → VM) :
    (s.update p change).vm p = change (s.vm p) := by
  simp [Shared.update, Shared.vm]

theorem update_vm_ne (s : Shared) (change : VM → VM) (different : q ≠ p) :
    (s.update p change).vm q = s.vm q := by
  simp [Shared.update, Shared.vm, update_of_ne different]

theorem update_vm (s : Shared) (p q : Ref) (change : VM → VM) :
    (s.update p change).vm q = if q = p then change (s.vm p) else s.vm q := by
  by_cases same : q = p
  · subst same
    simp
  · rw [update_vm_ne s change same, if_neg same]

theorem update_vm_invariant (property : VM → Prop) {change : VM → VM}
    (kept : ∀ v, property v → property (change v)) (held : property (s.vm q)) :
    property ((s.update p change).vm q) := by
  rw [update_vm]
  split
  · rename_i same
    exact kept _ (same ▸ held)
  · exact held

/-! ### Transitions -/

theorem moveTo_cases (target : State) (v : VM) :
    moveTo target v = v ∨
      (target ∈ validTransitions v.state ∧
        moveTo target v = { v with state := target, done := v.done || target = .stopped }) := by
  unfold moveTo VM.transition
  by_cases valid : target ∈ validTransitions v.state
  · exact .inr ⟨valid, by simp [valid]⟩
  · exact .inl (by simp [valid])

theorem moveTo_stopped (target : State) {v : VM} (stopped : v.state = .stopped) :
    (moveTo target v).state = .stopped := by
  rcases moveTo_cases target v with same | ⟨valid, -⟩
  · rw [same, stopped]
  · simp [stopped, validTransitions] at valid

@[simp]
theorem moveTo_explicitStop (target : State) (v : VM) :
    (moveTo target v).explicitStop = v.explicitStop := by
  rcases moveTo_cases target v with same | ⟨-, same⟩ <;> rw [same]

@[simp]
theorem moveTo_id (target : State) (v : VM) : (moveTo target v).id = v.id := by
  rcases moveTo_cases target v with same | ⟨-, same⟩ <;> rw [same]

@[simp]
theorem moveTo_cfg (target : State) (v : VM) : (moveTo target v).cfg = v.cfg := by
  rcases moveTo_cases target v with same | ⟨-, same⟩ <;> rw [same]

@[simp]
theorem withTap_id (v : VM) : (withTap v).id = v.id := by
  unfold withTap
  split <;> rfl

@[simp]
theorem withTap_state (v : VM) : (withTap v).state = v.state := by
  unfold withTap
  split <;> rfl

@[simp]
theorem withTap_explicitStop (v : VM) : (withTap v).explicitStop = v.explicitStop := by
  unfold withTap
  split <;> rfl

/-! ### Existing objects -/

theorem act_launch_vm (s : Shared) (p q : Ref) : (s.act (.launch p)).vm q = s.vm q := by
  by_cases same : q = p
  · simp [Shared.act, Shared.vm, same]
  · simp [Shared.act, Shared.vm, update_of_ne same]

theorem act_vm_invariant (property : VM → Prop) (a : Action) (known : q < s.heapNext)
    (moveTo_kept : ∀ target v, property v → property (moveTo target v))
    (withTap_kept : ∀ v, property v → property (withTap v))
    (explicitStop_kept : ∀ v, property v → property { v with explicitStop := true })
    (attach_kept : ∀ v pid now, property v →
      property { v with hasProc := true, pid := pid, startedAt := some now })
    (restartCount_kept : ∀ v count, property v → property { v with restartCount := count })
    (stoppedAt_kept : ∀ v now, property v → property { v with stoppedAt := some now })
    (held : property (s.vm q)) : property ((s.act a).vm q) := by
  cases a with
  | transition p target => exact update_vm_invariant property (moveTo_kept target) held
  | assignTap p => exact update_vm_invariant property withTap_kept held
  | setExplicitStop p => exact update_vm_invariant property explicitStop_kept held
  | attach p pid now => exact update_vm_invariant property (attach_kept · pid now) held
  | setRestartCount p count => exact update_vm_invariant property (restartCount_kept · count) held
  | markStopped p now => exact update_vm_invariant property (stoppedAt_kept · now) held
  | launch p => rwa [act_launch_vm]
  | register id cfg now parent cause =>
    have different : q ≠ s.heapNext := Nat.ne_of_lt known
    simpa [Shared.act, Shared.vm, update_of_ne different] using held
  | save p =>
    simp only [Shared.act]
    split <;> exact held
  | _ => exact held

theorem act_id (a : Action) (known : q < s.heapNext) : ((s.act a).vm q).id = (s.vm q).id := by
  apply act_vm_invariant (fun v => v.id = (s.vm q).id) a known
  all_goals simp

theorem act_stopped (a : Action) (known : q < s.heapNext)
    (stopped : (s.vm q).state = .stopped) : ((s.act a).vm q).state = .stopped := by
  apply act_vm_invariant (fun v => v.state = .stopped) a known
  case moveTo_kept => exact fun target v held => moveTo_stopped target held
  all_goals simp [stopped]

theorem act_explicitStop (a : Action) (known : q < s.heapNext)
    (flagged : (s.vm q).explicitStop = true) : ((s.act a).vm q).explicitStop = true := by
  apply act_vm_invariant (fun v => v.explicitStop = true) a known
  all_goals simp [flagged]

theorem act_not_created (a : Action) (known : q < s.heapNext)
    (notCreated : (s.vm q).state ≠ .created) : ((s.act a).vm q).state ≠ .created := by
  apply act_vm_invariant (fun v => v.state ≠ .created) a known
  case moveTo_kept =>
    intro target v held
    rcases moveTo_cases target v with same | ⟨valid, same⟩
    · rwa [same]
    · rw [same]
      rintro rfl
      cases state : v.state <;> simp [state, validTransitions] at valid
  all_goals simp [notCreated]

theorem act_origin (a : Action) (known : q < s.heapNext) :
    ((s.act a).heap q).origin = (s.heap q).origin := by
  cases a with
  | register id cfg now parent cause =>
    have different : q ≠ s.heapNext := Nat.ne_of_lt known
    simp [Shared.act, update_of_ne different]
  | save p =>
    simp only [Shared.act]
    split <;> rfl
  | launch p | transition p _ | assignTap p | attach p _ _ | setExplicitStop p
  | setRestartCount p _ | markStopped p _ =>
    by_cases same : q = p
    · subst same
      simp [Shared.act, Shared.update]
    · simp [Shared.act, Shared.update, update_of_ne same]
  | _ => rfl

/-! ### The registry and the history -/

theorem act_created (s : Shared) (a : Action) :
    ((s.act a).heapNext = s.heapNext ∧ (s.act a).history = s.history) ∨
      ∃ id cfg now parent cause, a = .register id cfg now parent cause ∧
        (s.act a).heapNext = s.heapNext + 1 ∧
        (s.act a).history = .created s.heapNext parent cause :: s.history := by
  cases a with
  | register id cfg now parent cause => exact .inr ⟨_, _, _, _, _, rfl, rfl, rfl⟩
  | save p =>
    refine .inl ?_
    simp only [Shared.act]
    split <;> exact ⟨rfl, rfl⟩
  | _ => exact .inl ⟨rfl, rfl⟩

theorem heapNext_le_act (s : Shared) (a : Action) : s.heapNext ≤ (s.act a).heapNext := by
  rcases act_created s a with ⟨same, -⟩ | ⟨_, _, _, _, _, -, same, -⟩ <;> omega

theorem mem_act_vms {a : Action} {entry : String × Ref} (member : entry ∈ (s.act a).vms) :
    entry ∈ s.vms ∨
      ∃ id cfg now parent cause, a = .register id cfg now parent cause ∧
        entry = (id, s.heapNext) := by
  cases a with
  | register id cfg now parent cause =>
    rcases mem_append.mp member with old | new
    · exact .inl (mem_of_mem_filter old)
    · exact .inr ⟨id, cfg, now, parent, cause, rfl, mem_singleton.mp new⟩
  | save p =>
    refine .inl ?_
    simp only [Shared.act] at member
    split at member <;> exact member
  | unregister id => exact .inl (mem_of_mem_filter member)
  | remove id => exact .inl (mem_of_mem_filter member)
  | _ => exact .inl member

theorem mem_vms_of_get {id : String} (found : s.get id = some p) : (id, p) ∈ s.vms := by
  obtain ⟨⟨key, value⟩, hit, rfl⟩ := Option.map_eq_some_iff.mp found
  have keyEq : key = id := by simpa using find?_some hit
  exact keyEq ▸ mem_of_find?_eq_some hit

theorem get_of_mem_vms {id : String} (nodup : (s.vms.map Prod.fst).Nodup)
    (member : (id, p) ∈ s.vms) : s.get id = some p := by
  cases found : s.get id with
  | none =>
    rw [Shared.get, Option.map_eq_none_iff, find?_eq_none] at found
    simpa using found _ member
  | some q =>
    have same := inj_on_of_nodup_map nodup (mem_vms_of_get found) member rfl
    rw [(Prod.mk.inj same).2]

theorem mem_of_resolveEntry {α : Type} {name : α → String} {entries : List (String × α)}
    {ref : String} {pick : Nat} {entry : String × α}
    (resolved : resolveEntry name entries ref pick = some entry) : entry ∈ entries := by
  unfold resolveEntry at resolved
  split at resolved
  · rename_i found
    cases resolved
    exact mem_of_find?_eq_some found
  · split at resolved
    · split at resolved
      · rename_i single
        cases resolved
        exact mem_of_mem_filter (single ▸ mem_singleton_self entry)
      · cases resolved
    · rename_i first named matching
      cases resolved
      have inBounds : pick % (named.length + 1) < (first :: named).length :=
        Nat.mod_lt _ (by omega)
      apply mem_of_mem_filter
      rw [matching, getD_eq_getElem?_getD, getElem?_eq_getElem inBounds]
      exact getElem_mem inBounds

theorem mem_vms_of_resolve {ref : String} {pick : Nat}
    (resolved : s.resolve ref pick = some p) : ∃ id, (id, p) ∈ s.vms := by
  obtain ⟨entry, isEntry, rfl⟩ := Option.map_eq_some_iff.mp resolved
  exact ⟨entry.1, mem_of_resolveEntry isEntry⟩

theorem Shared.resolve_of_get {ref : String} (found : s.get ref = some p) (pick : Nat) :
    s.resolve ref pick = some p := by
  obtain ⟨entry, isEntry, rfl⟩ := Option.map_eq_some_iff.mp found
  rw [Shared.resolve, resolveEntry, isEntry]
  rfl

/-! ### Giving back an address -/

open NetworkStore

theorem releaseAssigned_cases (networks : Store) (job : RunJob) :
    releaseAssigned networks job = networks ∨ job.assignedIP ≠ "" ∧
      releaseIP networks job.cfg.networkName job.assignedIP =
        .ok (releaseAssigned networks job) := by
  unfold releaseAssigned
  split
  · exact .inl rfl
  · rename_i assigned
    split
    · rename_i released
      exact .inr ⟨assigned, released⟩
    · exact .inl rfl

/-- A Run request gives back its address: nothing changes if its network is
not one of the store, and otherwise the address is no longer held. -/
theorem releaseAssigned_held (networks : Store) (job : RunJob)
    (given : (heldIPs networks job.cfg.networkName).isSome → job.assignedIP ≠ "") :
    (heldIPs networks job.cfg.networkName = none ∧ releaseAssigned networks job = networks) ∨
      ∃ ips, heldIPs networks job.cfg.networkName = some ips ∧
        (∀ other, heldIPs (releaseAssigned networks job) other =
          if other = job.cfg.networkName then some (ips.erase job.assignedIP)
          else heldIPs networks other) ∧
        ∀ other, gatewayOf (releaseAssigned networks job) other = gatewayOf networks other := by
  cases released : releaseIP networks job.cfg.networkName job.assignedIP with
  | error e =>
    refine .inl ⟨?_, ?_⟩
    · unfold releaseIP at released
      split at released
      · rename_i e read
        simp [heldIPs, read]
      · simp at released
    · unfold releaseAssigned
      split
      · rfl
      · rw [released]
  | ok target =>
    obtain ⟨ips, held, after⟩ := releaseIP_held released
    have update : releaseAssigned networks job = target := by
      rw [releaseAssigned, if_neg (given (by simp [held])), released]
    refine .inr ⟨ips, held, update ▸ after, ?_⟩
    obtain ⟨dir, -, written⟩ := releaseIP_eq_ok released
    rw [update, written]
    exact gatewayOf_write _ _ _

end Jerboa.Daemon
