import Jerboa.DaemonEffects
import Jerboa.RestartChain

/-!
# The order of restart chains

In every interleaving each VM of a chain but the last has been replaced by the
next one, whose count is one higher, and is in the registry until its
`restartVM` removes it.  When no `Start` of a replacement fails, a chain at rest
has its last VM in the registry and no other.
-/

namespace Jerboa.RestartChain

open Vm Daemon List Chain

/-! ### What one step does -/

namespace Chain

variable (c : Chain) (i : Nat)

@[simp]
theorem size_update (r : Replica) : (c.update i r).size = c.size := rfl

@[simp]
theorem replica_update_self (r : Replica) : (c.update i r).replica i = r := by
  simp [update]

theorem replica_update_of_ne {j : Nat} (ne : j ≠ i) (r : Replica) :
    (c.update i r).replica j = c.replica j := by
  simp [update, ne]

theorem goto_update_comm {j : Nat} (ne : i ≠ j) (r : Replica) (pc : RestartPc) :
    (c.update j r).goto i pc = (c.goto i pc).update j r := by
  have kept := replica_update_of_ne c j ne r
  simp only [goto, kept]
  simp only [update, Function.update_comm ne]

def previous (j : Nat) : RestartPc :=
  if j = 0 then .none else (c.replica (j - 1)).restart

theorem previous_succ : c.previous (i + 1) = (c.replica i).restart := by
  simp [previous]

theorem previous_update_of_ne {j : Nat} (ne : j ≠ i + 1) (r : Replica) :
    (c.update i r).previous j = c.previous j := by
  by_cases zero : j = 0
  · simp [previous, zero]
  · simp only [previous, zero, if_false]
    rw [replica_update_of_ne]
    omega

end Chain

/-- What the lifecycle of a VM leaves alone. -/
structure Kept (v v' : VM) : Prop where
  id : v'.id = v.id
  restartCount : v'.restartCount = v.restartCount
  config : v'.cfg.restart = v.cfg.restart
  name : v'.cfg.name = v.cfg.name

theorem Kept.trans {v v' v'' : VM} (first : Kept v v') (second : Kept v' v'') : Kept v v'' where
  id := second.id.trans first.id
  restartCount := second.restartCount.trans first.restartCount
  config := second.config.trans first.config
  name := second.name.trans first.name

theorem Kept.transition {v v' : VM} {target : State} (moved : v.transition target = some v') :
    Kept v v' := by
  simp only [VM.transition, Option.ite_none_right_eq_some, Option.some.injEq] at moved
  obtain ⟨_, rfl⟩ := moved
  exact ⟨rfl, rfl, rfl, rfl⟩

theorem Kept.moveTo (target : State) (v : VM) : Kept v (moveTo target v) := by
  simp only [Daemon.moveTo]
  cases moved : v.transition target with
  | none => exact ⟨rfl, rfl, rfl, rfl⟩
  | some v' => exact Kept.transition moved

theorem Kept.withTap (v : VM) : Kept v (withTap v) := by
  simp only [Daemon.withTap]
  split <;> exact ⟨rfl, rfl, rfl, rfl⟩

theorem Kept.attach (m : Manager) (env : StartEnv) (v : VM) : Kept v (m.attach env v) := by
  cases m <;> exact ⟨rfl, rfl, rfl, rfl⟩

theorem Kept.launched {v starting : VM} (begun : v.transition .starting = some starting)
    (m : Manager) (env : StartEnv) : Kept v (m.attach env (Daemon.withTap starting)) :=
  ((Kept.transition begun).trans (.withTap starting)).trans (.attach m env _)

theorem Kept.abort {v v' : VM} (kept : Kept v v') (r : Replica) : Kept v (r.abort v').vm :=
  { kept with }

theorem start_restart (m : Manager) (env : StartEnv) (r : Replica) :
    (m.start env r).1.restart = r.restart := by
  fun_cases Manager.start m env r <;> rfl

theorem start_kept (m : Manager) (env : StartEnv) (r : Replica) :
    Kept r.vm (m.start env r).1.vm := by
  fun_cases Manager.start m env r with
  | case1 unpublishable => exact ⟨rfl, rfl, rfl, rfl⟩
  | case2 publishable refused => exact ⟨rfl, rfl, rfl, rfl⟩
  | case3 publishable starting begun v failed =>
    exact ((Kept.transition begun).trans (.withTap starting)).trans (.moveTo .stopped v)
  | case4 publishable starting begun v launched w unlimited =>
    exact (Kept.launched begun m env).abort r
  | case5 publishable starting begun v launched w limited refused =>
    exact (Kept.launched begun m env).abort r
  | case6 publishable starting begun v launched w limited running ran unpublished =>
    exact ((Kept.launched begun m env).trans (.transition ran)).abort r
  | case7 publishable starting begun v launched w limited running ran published =>
    exact (Kept.launched begun m env).trans (.transition ran)

/-! ### The order of a chain -/

def MonitorPc.watching : MonitorPc → Bool
  | .none | .returned => false
  | _ => true

def RestartPc.preparing : RestartPc → Bool
  | .setCount _ _ | .start _ => true
  | _ => false

/-- The goroutine of the VM at `j` holds the count and the successor of `j`. -/
def RestartPc.Points (j : Nat) : RestartPc → Prop
  | .create restartCount => restartCount = j
  | .setCount new restartCount => new = j + 1 ∧ restartCount = j
  | .start new => new = j + 1
  | _ => True

/-- The place of one VM in a chain of `size` VMs; `previous` is the `restartVM`
of the VM before it. -/
structure Fits (restart : RestartConfig) (strict : Prop) (size j : Nat) (previous : RestartPc)
    (r : Replica) : Prop where
  replaced_iff : r.restart.replaced = true ↔ j + 1 < size
  points : r.restart.Points j
  preparing : r.restart.preparing = true → j + 2 = size
  unstarted : previous.preparing = true → r.monitor = .none
  counted : (∀ new restartCount, previous ≠ .setCount new restartCount) → r.vm.restartCount = j
  monitored : r.restart ≠ .none → r.monitor = .returned
  bounded : r.restart ≠ .none → 0 < restart.maxRetries → (j : Int) < restart.maxRetries
  configured : r.vm.cfg.restart = restart
  unfailed : strict → r.restart ≠ .failed

/-- The entries of the VMs whose `restartVM` has not removed them. -/
def listing (size : Nat) (replica : Nat → Replica) : List (String × Nat) :=
  ((List.range size).filter fun j => (replica j).restart ≠ .removed).map
    fun j => ((replica j).vm.id, j)

/-- Every VM but the last has been replaced, by the next one; no `Start` of a
replacement has failed if none may. -/
structure Orderly (restart : RestartConfig) (strict : Prop) (c : Chain) : Prop where
  nonempty : 0 < c.size
  fits : ∀ j, j < c.size → Fits restart strict c.size j (c.previous j) (c.replica j)
  distinct : ∀ i j, i < c.size → j < c.size →
    (c.replica i).vm.id = (c.replica j).vm.id → i = j
  entries : c.vms = listing c.size c.replica

variable {restart : RestartConfig} {strict : Prop} {c : Chain} {i : Nat} {size : Nat}

theorem listing_congr {before after : Nat → Replica}
    (ids : ∀ j, j < size → (after j).vm.id = (before j).vm.id)
    (removed : ∀ j, j < size → ((after j).restart = .removed ↔ (before j).restart = .removed)) :
    listing size after = listing size before := by
  have same : (List.range size).filter (fun j => (after j).restart ≠ .removed) =
      (List.range size).filter fun j => (before j).restart ≠ .removed := by
    apply filter_congr
    intro j inside
    simp [removed j (mem_range.mp inside)]
  rw [listing, listing, same]
  apply map_congr_left
  intro j kept
  rw [ids j (mem_range.mp (mem_filter.mp kept).1)]

theorem Fits.kept {previous : RestartPc} {r r' : Replica}
    (fits : Fits restart strict size i previous r) (same : r'.restart = r.restart)
    (kept : Kept r.vm r'.vm) (unstarted : previous.preparing = true → r'.monitor = .none)
    (monitored : r.restart ≠ .none → r'.monitor = .returned) :
    Fits restart strict size i previous r' := by
  obtain ⟨vm, process, monitor, _⟩ := r'
  obtain rfl := same
  exact
    { fits with
      unstarted := unstarted
      counted := fun other => kept.restartCount.trans (fits.counted other)
      monitored := monitored
      configured := kept.config.trans fits.configured }

variable {r : Replica}

theorem Orderly.fits_update (orderly : Orderly restart strict c)
    (own : Fits restart strict c.size i (c.previous i) r)
    (next : i + 1 < c.size → Fits restart strict c.size (i + 1) r.restart (c.replica (i + 1)))
    (j : Nat) (inside : j < c.size) :
    Fits restart strict c.size j ((c.update i r).previous j) ((c.update i r).replica j) := by
  by_cases here : j = i
  · subst here
    rw [replica_update_self, previous_update_of_ne c j (by omega)]
    exact own
  · rw [replica_update_of_ne c i here]
    by_cases after : j = i + 1
    · subst after
      rw [previous_succ, replica_update_self]
      exact next inside
    · rw [previous_update_of_ne c i after]
      exact orderly.fits j inside

theorem Chain.vm_id_update (id : r.vm.id = (c.replica i).vm.id) (j : Nat) :
    ((c.update i r).replica j).vm.id = (c.replica j).vm.id := by
  by_cases here : j = i
  · rw [here, replica_update_self, id]
  · rw [replica_update_of_ne c i here]

theorem Chain.vm_id_goto (pc : RestartPc) (j : Nat) :
    ((c.goto i pc).replica j).vm.id = (c.replica j).vm.id := by
  apply vm_id_update
  rfl

theorem Orderly.update (orderly : Orderly restart strict c)
    (own : Fits restart strict c.size i (c.previous i) r)
    (next : i + 1 < c.size → Fits restart strict c.size (i + 1) r.restart (c.replica (i + 1)))
    (id : r.vm.id = (c.replica i).vm.id)
    (removed : r.restart = .removed ↔ (c.replica i).restart = .removed) :
    Orderly restart strict (c.update i r) := by
  have sameRemoved (j : Nat) :
      ((c.update i r).replica j).restart = .removed ↔ (c.replica j).restart = .removed := by
    by_cases here : j = i
    · rw [here, replica_update_self, removed]
    · rw [replica_update_of_ne c i here]
  constructor
  · exact orderly.nonempty
  · exact orderly.fits_update own next
  · intro j k insideJ insideK same
    rw [vm_id_update id, vm_id_update id] at same
    exact orderly.distinct j k insideJ insideK same
  · exact orderly.entries.trans (listing_congr (fun j _ => vm_id_update id j)
      fun j _ => sameRemoved j).symm

theorem Orderly.rewrite (orderly : Orderly restart strict c) (inside : i < c.size)
    (same : r.restart = (c.replica i).restart) (kept : Kept (c.replica i).vm r.vm)
    (unstarted : (c.previous i).preparing = true → r.monitor = .none)
    (monitored : (c.replica i).restart ≠ .none → r.monitor = .returned) :
    Orderly restart strict (c.update i r) := by
  apply orderly.update ((orderly.fits i inside).kept same kept unstarted monitored)
  · intro next
    rw [same, ← previous_succ]
    exact orderly.fits (i + 1) next
  · exact kept.id
  · rw [same]

theorem Orderly.goto (orderly : Orderly restart strict c) {pc : RestartPc}
    (own : Fits restart strict c.size i (c.previous i) { c.replica i with restart := pc })
    (next : i + 1 < c.size → Fits restart strict c.size (i + 1) pc (c.replica (i + 1)))
    (removed : pc = .removed ↔ (c.replica i).restart = .removed) :
    Orderly restart strict (c.goto i pc) :=
  orderly.update own next rfl removed

theorem Fits.early {previous : RestartPc}
    (fits : Fits restart strict size i previous r) (started : r.monitor ≠ .none) :
    previous.preparing = false ∧ r.vm.restartCount = i := by
  have early : previous.preparing = false := by
    cases preparing : previous.preparing with
    | false => rfl
    | true => exact absurd (fits.unstarted preparing) started
  refine ⟨early, fits.counted ?_⟩
  rintro new restartCount rfl
  exact Bool.noConfusion early

theorem Fits.spawned {previous : RestartPc}
    (fits : Fits restart strict size i previous r) (spawned : r.restart ≠ .none) :
    previous.preparing = false ∧ r.vm.restartCount = i :=
  fits.early (by simp [fits.monitored spawned])

theorem Fits.last {previous : RestartPc}
    (fits : Fits restart strict size i previous r) (alone : r.restart.replaced = false) :
    ¬ i + 1 < size := by
  rw [← fits.replaced_iff, alone]
  exact Bool.noConfusion

section

variable (orderly : Orderly restart strict c)

include orderly

/-- A goroutine that prepares a replacement holds the VM behind its own, the last
one. -/
theorem Orderly.prepared (inside : i < c.size) {pc : RestartPc} (at_ : (c.replica i).restart = pc)
    (preparing : pc.preparing = true) : pc.Points i ∧ i + 2 = c.size := by
  subst at_
  exact ⟨(orderly.fits i inside).points, (orderly.fits i inside).preparing preparing⟩

theorem Orderly.exit (inside : i < c.size) (process : Process) :
    Orderly restart strict (c.update i { c.replica i with process := process }) :=
  orderly.rewrite inside rfl ⟨rfl, rfl, rfl, rfl⟩ (orderly.fits i inside).unstarted
    (orderly.fits i inside).monitored

theorem Orderly.watch (inside : i < c.size)
    (watching : (c.replica i).monitor.watching = true) {r : Replica}
    (same : r.restart = (c.replica i).restart) (kept : Kept (c.replica i).vm r.vm) :
    Orderly restart strict (c.update i r) := by
  have fits := orderly.fits i inside
  apply orderly.rewrite inside same kept
  · rw [(fits.early (by rintro none; simp [none, MonitorPc.watching] at watching)).1]
    exact Bool.noConfusion
  · intro spawned
    rw [fits.monitored spawned] at watching
    exact Bool.noConfusion watching

end

variable {m : Manager}

theorem maxRetries_of_shouldRestart {v : VM} {process : Process}
    (wanted : m.shouldRestart v process = true) (limited : 0 < v.cfg.restart.maxRetries) :
    (v.restartCount : Int) < v.cfg.restart.maxRetries := by
  cases m
  all_goals
    simp only [Manager.shouldRestart, Daemon.shouldRestart, Bool.and_eq_true, Bool.or_eq_true,
      decide_eq_true_eq] at wanted
    omega

theorem Orderly.spawn (orderly : Orderly restart strict c) (inside : i < c.size)
    (watching : (c.replica i).monitor.watching = true)
    (wanted : m.shouldRestart (c.replica i).vm (c.replica i).process = true) :
    Orderly restart strict
      (c.update i { c.replica i with monitor := .returned, restart := .backoff }) := by
  have fits := orderly.fits i inside
  obtain ⟨early, count⟩ := fits.early (by rintro none; simp [none, MonitorPc.watching] at watching)
  have idle : (c.replica i).restart = .none := by
    by_contra spawned
    rw [fits.monitored spawned] at watching
    exact Bool.noConfusion watching
  have last := fits.last (by rw [idle]; rfl)
  apply orderly.update
  · exact
      { fits with
        replaced_iff := by simpa [RestartPc.replaced] using last
        points := trivial
        preparing := Bool.noConfusion
        unstarted := by rw [early]; exact Bool.noConfusion
        monitored := fun _ => rfl
        bounded := by
          intro _ limited
          have bound := maxRetries_of_shouldRestart wanted (fits.configured ▸ limited)
          rwa [fits.configured, count] at bound
        unfailed := by simp }
  · intro next
    exact absurd next last
  · rfl
  · simp [idle]

variable {target : Chain}

theorem Orderly.monitorStep (orderly : Orderly restart strict c) (inside : i < c.size)
    (stepped : c.monitorStep m i = some target) : Orderly restart strict target := by
  revert stepped
  fun_cases Chain.monitorStep m c i with
  | case1 r waiting waitErr stderr exited =>
    rintro ⟨⟩
    exact orderly.watch inside (congrArg MonitorPc.watching waiting) rfl ⟨rfl, rfl, rfl, rfl⟩
  | case2 => rintro ⟨⟩
  | case3 r explicitStop stopping =>
    rintro ⟨⟩
    exact orderly.watch inside (congrArg MonitorPc.watching stopping) rfl (.moveTo _ _)
  | case4 r explicitStop deciding wanted =>
    rintro ⟨⟩
    rw [Bool.and_eq_true] at wanted
    exact orderly.spawn inside (congrArg MonitorPc.watching deciding) wanted.2
  | case5 r explicitStop deciding unwanted =>
    rintro ⟨⟩
    exact orderly.watch inside (congrArg MonitorPc.watching deciding) rfl ⟨rfl, rfl, rfl, rfl⟩
  | case6 => rintro ⟨⟩

theorem Fits.goto {previous pc : RestartPc}
    (fits : Fits restart strict size i previous r) (spawned : r.restart ≠ .none)
    (replaced : pc.replaced = true ↔ i + 1 < size) (points : pc.Points i)
    (preparing : pc.preparing = true → i + 2 = size) (unfailed : strict → pc ≠ .failed) :
    Fits restart strict size i previous { r with restart := pc } :=
  { fits with
    replaced_iff := replaced
    points := points
    preparing := preparing
    monitored := fun _ => fits.monitored spawned
    bounded := fun _ => fits.bounded spawned
    unfailed := unfailed }

theorem Orderly.backoff (orderly : Orderly restart strict c) (inside : i < c.size)
    (at_ : (c.replica i).restart = .backoff) :
    Orderly restart strict (c.goto i (.create (c.replica i).vm.restartCount)) := by
  have fits := orderly.fits i inside
  have spawned : (c.replica i).restart ≠ .none := by simp [at_]
  have last := fits.last (by rw [at_]; rfl)
  apply orderly.goto
  · apply fits.goto spawned
    · simpa [RestartPc.replaced] using last
    · exact (fits.spawned spawned).2
    · exact Bool.noConfusion
    · simp
  · intro next
    exact absurd next last
  · simp [at_]

/-- The chain `c'` is `c` with a new VM `r` behind the last one, `i`, whose
goroutine waits to set its count. -/
structure Extended (c c' : Chain) (i : Nat) (r : Replica) : Prop where
  last : c.size = i + 1
  size : c'.size = i + 2
  older : ∀ j, j < i → c'.replica j = c.replica j
  own : c'.replica i = { c.replica i with restart := .setCount (i + 1) i }
  newest : c'.replica (i + 1) = r
  vms : c'.vms = c.vms ++ [(r.vm.id, i + 1)]

theorem extended_create {id : String} (unlisted : ∀ entry ∈ c.vms, entry.1 ≠ id) (cfg : Config)
    (now : Time) (last : c.size = i + 1) :
    Extended c ((c.append id (.create id cfg now)).goto i (.setCount c.size i)) i
      (.create id cfg now) where
  last := last
  size := by simp [Chain.goto, Chain.append, last]
  older := by
    intro j before
    simp [Chain.goto, Chain.update, Chain.append, show j ≠ i by omega, show j ≠ c.size by omega]
  own := by simp [Chain.goto, Chain.update, Chain.append, last]
  newest := by simp [Chain.goto, Chain.update, Chain.append, last]
  vms := by
    have kept : (c.removeVM id).vms = c.vms := filter_eq_self.mpr (by simpa using unlisted)
    simp [Chain.goto, Chain.update, Chain.append, kept, last, Replica.create, newVM]

section Extended

variable {c' : Chain} {r : Replica} (extended : Extended c c' i r)

include extended

theorem Extended.previous {j : Nat} (within : j ≤ i) : c'.previous j = c.previous j := by
  by_cases zero : j = 0
  · simp [Chain.previous, zero]
  · simp [Chain.previous, zero, extended.older (j - 1) (by omega)]

theorem Extended.fits (orderly : Orderly restart strict c) (spawned : (c.replica i).restart ≠ .none)
    (idle : r.restart = .none) (unwatched : r.monitor = .none)
    (configured : r.vm.cfg.restart = restart) (j : Nat) (inside : j < c'.size) :
    Fits restart strict c'.size j (c'.previous j) (c'.replica j) := by
  have last := extended.last
  rw [extended.size] at inside ⊢
  have fitsLast := orderly.fits i (by omega)
  rcases Nat.lt_trichotomy j i with before | rfl | after
  · -- an older VM was replaced before, and no replacement is being prepared
    have fits := orderly.fits j (by omega)
    rw [extended.previous (by omega), extended.older j before]
    exact
      { fits with
        replaced_iff := by
          rw [fits.replaced_iff]
          omega
        preparing := by
          intro preparing
          have next := fits.preparing preparing
          obtain rfl : i = j + 1 := by omega
          rw [← c.previous_succ j, (fitsLast.spawned spawned).1] at preparing
          exact Bool.noConfusion preparing }
  · rw [extended.previous (by omega), extended.own]
    exact
      { fitsLast with
        replaced_iff := by simp [RestartPc.replaced]
        points := ⟨rfl, rfl⟩
        preparing := fun _ => rfl
        monitored := fun _ => fitsLast.monitored spawned
        bounded := fun _ => fitsLast.bounded spawned
        unfailed := by simp }
  · obtain rfl : j = i + 1 := by omega
    rw [previous_succ, extended.own, extended.newest]
    exact
      { replaced_iff := by simp [idle, RestartPc.replaced]
        points := by rw [idle]; trivial
        preparing := by simp [idle, RestartPc.preparing]
        unstarted := fun _ => unwatched
        counted := fun other => absurd rfl (other (i + 1) i)
        monitored := fun busy => absurd idle busy
        bounded := fun busy => absurd idle busy
        configured := configured
        unfailed := by simp [idle] }

theorem Extended.vm_id (j : Nat) (inside : j < c.size) :
    (c'.replica j).vm.id = (c.replica j).vm.id := by
  have last := extended.last
  by_cases before : j < i
  · rw [extended.older j before]
  · obtain rfl : j = i := by omega
    rw [extended.own]

theorem Extended.distinct (orderly : Orderly restart strict c)
    (fresh : ∀ j, j < c.size → (c.replica j).vm.id ≠ r.vm.id) (j k : Nat)
    (insideJ : j < c'.size) (insideK : k < c'.size)
    (same : (c'.replica j).vm.id = (c'.replica k).vm.id) : j = k := by
  have last := extended.last
  rw [extended.size] at insideJ insideK
  by_cases oldJ : j < c.size
  · by_cases oldK : k < c.size
    · rw [extended.vm_id j oldJ, extended.vm_id k oldK] at same
      exact orderly.distinct j k oldJ oldK same
    · obtain rfl : k = i + 1 := by omega
      rw [extended.vm_id j oldJ, extended.newest] at same
      exact absurd same (fresh j oldJ)
  · obtain rfl : j = i + 1 := by omega
    by_cases oldK : k < c.size
    · rw [extended.vm_id k oldK, extended.newest] at same
      exact absurd same.symm (fresh k oldK)
    · omega

theorem Extended.entries (orderly : Orderly restart strict c)
    (unremoved : (c.replica i).restart ≠ .removed) (idle : r.restart = .none) :
    c'.vms = listing c'.size c'.replica := by
  have last := extended.last
  have size : c'.size = c.size + 1 := by rw [extended.size, last]
  rw [extended.vms, orderly.entries, size, listing, listing, range_succ, filter_append,
    map_append]
  congr 1
  · refine (listing_congr extended.vm_id fun j inside => ?_).symm
    by_cases before : j < i
    · rw [extended.older j before]
    · obtain rfl : j = i := by omega
      rw [extended.own]
      simp [unremoved]
  · simp [last, extended.newest, idle]

end Extended

section

variable (orderly : Orderly restart strict c) (inside : i < c.size)

include orderly inside

theorem Orderly.create {restartCount : Nat}
    (at_ : (c.replica i).restart = .create restartCount) {id : String}
    (unused : ∀ j, j < c.size → (c.replica j).vm.id ≠ id) (now : Time) :
    Orderly restart strict ((c.append id (.create id (c.replica i).vm.cfg now)).goto i
      (.setCount c.size restartCount)) := by
  have fits := orderly.fits i inside
  have last : c.size = i + 1 := by
    have later := fits.last (by rw [at_]; rfl)
    omega
  have points : restartCount = i := by
    have points := fits.points
    rwa [at_] at points
  subst points
  have unlisted : ∀ entry ∈ c.vms, entry.1 ≠ id := by
    intro entry listed
    rw [orderly.entries, listing, mem_map] at listed
    obtain ⟨j, member, rfl⟩ := listed
    exact unused j (mem_range.mp (mem_of_mem_filter member))
  have extended := extended_create unlisted (c.replica restartCount).vm.cfg now last
  exact
    { nonempty := by rw [extended.size]; omega
      fits := extended.fits orderly (by simp [at_]) rfl rfl fits.configured
      distinct := extended.distinct orderly unused
      entries := extended.entries orderly (by simp [at_]) rfl }

theorem Orderly.setCount
    {new restartCount : Nat} (at_ : (c.replica i).restart = .setCount new restartCount) :
    Orderly restart strict
      ((c.update new { c.replica new with
        vm := { (c.replica new).vm with restartCount := restartCount + 1 } }).goto i
          (.start new)) := by
  obtain ⟨⟨rfl, rfl⟩, latest⟩ := orderly.prepared inside at_ rfl
  have next := orderly.fits (restartCount + 1) (by omega)
  have unstarted := next.unstarted (by rw [previous_succ, at_]; rfl)
  -- the new count first, while the goroutine still says that it is not set
  set counted := c.update (restartCount + 1) { c.replica (restartCount + 1) with
    vm := { (c.replica (restartCount + 1)).vm with restartCount := restartCount + 1 } } with named
  have orderly' : Orderly restart strict counted := by
    apply orderly.update
    · exact { next with counted := fun _ => rfl }
    · intro beyond
      omega
    · rfl
    · rfl
  have same : counted.replica restartCount = c.replica restartCount := by
    rw [named, replica_update_of_ne]
    omega
  have fits' := orderly'.fits restartCount inside
  apply orderly'.goto
  · apply fits'.goto
    · simp [same, at_]
    · exact iff_of_true rfl (by simp [named]; omega)
    · rfl
    · intro _
      exact latest
    · simp
  · intro beyond
    have next' := orderly'.fits (restartCount + 1) beyond
    rw [named, replica_update_self] at next' ⊢
    exact { next' with unstarted := fun _ => unstarted, counted := fun _ => rfl }
  · simp [same, at_]

theorem Orderly.get
    (kept : (c.replica i).restart ≠ .removed) : c.get (c.replica i).vm.id = some i := by
  have present : ((c.replica i).vm.id, i) ∈ c.vms := by
    rw [orderly.entries, listing, mem_map]
    exact ⟨i, mem_filter.mpr ⟨mem_range.mpr inside, by simp [kept]⟩, rfl⟩
  simp only [Chain.get]
  cases found : c.vms.find? fun entry => entry.1 = (c.replica i).vm.id with
  | none =>
    rw [find?_eq_none] at found
    exact absurd (decide_eq_true rfl) (found _ present)
  | some entry =>
    have named : entry.1 = (c.replica i).vm.id := by simpa using find?_some found
    have held := mem_of_find?_eq_some found
    rw [orderly.entries, listing, mem_map] at held
    obtain ⟨j, listed, rfl⟩ := held
    have insideJ := mem_range.mp (mem_filter.mp listed).1
    simp [orderly.distinct j i insideJ inside named]

theorem Orderly.get_replacement {new : Nat}
    (at_ : (c.replica i).restart = .start new) : c.get (c.replica new).vm.id = some new := by
  obtain ⟨rfl, latest⟩ := orderly.prepared inside at_ rfl
  apply orderly.get (by omega)
  intro removed
  have early := ((orderly.fits (i + 1) (by omega)).spawned (by simp [removed])).1
  rw [previous_succ, at_] at early
  exact Bool.noConfusion early

theorem Orderly.start {m : Manager}
    {new : Nat} (at_ : (c.replica i).restart = .start new) (env : StartEnv) {pc : RestartPc}
    (ended : pc = .remove ∨ pc = .failed) (unfailed : strict → pc ≠ .failed) :
    Orderly restart strict ((c.update new (m.start env (c.replica new)).1).goto i pc) := by
  have fits := orderly.fits i inside
  obtain ⟨rfl, latest⟩ := orderly.prepared inside at_ rfl
  have next := orderly.fits (i + 1) (by omega)
  have previous := c.previous_succ i
  rw [at_] at previous
  have count : (c.replica (i + 1)).vm.restartCount = i + 1 := by
    apply next.counted
    rw [previous]
    intro new restartCount other
    cases other
  have idle : (c.replica (i + 1)).restart = .none := by
    by_contra spawned
    have early := (next.spawned spawned).1
    rw [previous] at early
    exact Bool.noConfusion early
  obtain ⟨replaced, points, prepared, kept⟩ : pc.replaced = true ∧ pc.Points i ∧
      pc.preparing = false ∧ pc ≠ .removed := by
    rcases ended with rfl | rfl <;> simp [RestartPc.replaced, RestartPc.Points, RestartPc.preparing]
  -- the goroutine first, so that the replacement may have a monitor
  rw [goto_update_comm c i (by omega)]
  have orderly' : Orderly restart strict (c.goto i pc) := by
    apply orderly.goto
    · exact fits.goto (by simp [at_]) (iff_of_true replaced (by omega)) points (by simp [prepared])
        unfailed
    · exact fun _ => { next with unstarted := by simp [prepared], counted := fun _ => count }
    · simp [at_, kept]
  have same : (c.goto i pc).replica (i + 1) = c.replica (i + 1) :=
    replica_update_of_ne c i (by omega) _
  rw [← same]
  apply orderly'.rewrite
  · exact latest ▸ (by omega)
  · exact start_restart m env _
  · exact start_kept m env _
  · rw [previous_succ]
    simp [Chain.goto, prepared]
  · rw [same]
    intro spawned
    exact absurd idle spawned

theorem Orderly.entries_removeVM :
    c.vms.filter (fun entry => entry.1 ≠ (c.replica i).vm.id) =
      listing c.size (c.goto i .removed).replica := by
  simp only [listing, vm_id_goto]
  rw [orderly.entries, listing, filter_map, filter_filter]
  congr 1
  apply filter_congr
  intro j listed
  have insideJ := mem_range.mp listed
  by_cases here : j = i
  · simp [here, Chain.goto]
  · have other : (c.replica j).vm.id ≠ (c.replica i).vm.id := by
      intro same
      exact here (orderly.distinct j i insideJ inside same)
    simp [other, Chain.goto, replica_update_of_ne c i here]

theorem Orderly.remove (at_ : (c.replica i).restart = .remove) :
    Orderly restart strict ((c.removeVM (c.replica i).vm.id).goto i .removed) := by
  have fits := orderly.fits i inside
  have replaced : i + 1 < c.size := fits.replaced_iff.mp (by rw [at_]; rfl)
  have next := orderly.fits (i + 1) replaced
  have count : (c.replica (i + 1)).vm.restartCount = i + 1 := by
    apply next.counted
    rw [previous_succ, at_]
    intro new restartCount other
    cases other
  have own : Fits restart strict c.size i (c.previous i) { c.replica i with restart := .removed } :=
    fits.goto (by simp [at_]) (iff_of_true rfl replaced) trivial Bool.noConfusion (by simp)
  have later : i + 1 < c.size →
      Fits restart strict c.size (i + 1) RestartPc.removed (c.replica (i + 1)) := by
    intro _
    exact { next with unstarted := Bool.noConfusion, counted := fun _ => count }
  have sameId (j : Nat) : ((c.goto i .removed).replica j).vm.id = (c.replica j).vm.id :=
    vm_id_goto .removed j
  constructor
  · exact orderly.nonempty
  · exact orderly.fits_update own later
  · intro j k insideJ insideK same
    exact orderly.distinct j k insideJ insideK ((sameId j).symm.trans (same.trans (sameId k)))
  · exact orderly.entries_removeVM inside

end

theorem Orderly.restartStep (orderly : Orderly restart strict c) (inside : i < c.size)
    {id : String} {env : StartEnv}
    (fresh : drawsFresh c (.restart i id env) = true)
    (starts : strict → replacementStarts m c (.restart i id env) = true)
    (stepped : c.restartStep m i id env = some target) : Orderly restart strict target := by
  simp only [Chain.restartStep, drawsFresh, replacementStarts] at fresh starts stepped
  cases at_ : (c.replica i).restart with
  | none | removed | failed =>
    rw [at_] at stepped
    cases stepped
  | backoff =>
    rw [at_] at stepped
    cases stepped
    exact orderly.backoff inside at_
  | create restartCount =>
    rw [at_] at fresh stepped
    cases stepped
    exact orderly.create inside at_ (by simpa using fresh) env.now
  | setCount new restartCount =>
    rw [at_] at stepped
    cases stepped
    exact orderly.setCount inside at_
  | start new =>
    rw [at_] at starts stepped
    dsimp only at starts stepped
    rw [orderly.get_replacement inside at_] at stepped
    cases stepped
    apply orderly.start inside at_
    · split
      · exact .inl rfl
      · exact .inr rfl
    · intro isStrict
      rw [if_pos (starts isStrict)]
      simp
  | remove =>
    rw [at_] at stepped
    cases stepped
    exact orderly.remove inside at_

theorem Orderly.step (orderly : Orderly restart strict c) {label : Label}
    (fresh : drawsFresh c label = true) (starts : strict → replacementStarts m c label = true)
    (stepped : RestartChain.step m c label = some target) : Orderly restart strict target := by
  cases label with
  | exit i waitErr stderr =>
    simp only [RestartChain.step, Option.ite_none_right_eq_some, Option.some.injEq] at stepped
    obtain ⟨⟨inside, _⟩, rfl⟩ := stepped
    exact orderly.exit inside _
  | monitor i =>
    simp only [RestartChain.step, Option.ite_none_right_eq_some] at stepped
    exact orderly.monitorStep stepped.1 stepped.2
  | restart i id env =>
    simp only [RestartChain.step, Option.ite_none_right_eq_some] at stepped
    exact orderly.restartStep stepped.1 fresh starts stepped.2

theorem Orderly.ofRun {id : String} {cfg : Config} {created : Time}
    {env : StartEnv} (configured : cfg.restart = restart) :
    Orderly restart strict (.ofRun m id cfg created env) := by
  have kept := start_kept m env (.create id cfg created)
  have idle : (m.start env (.create id cfg created)).1.restart = .none :=
    start_restart m env (.create id cfg created)
  constructor
  · exact Nat.one_pos
  · intro j inside
    obtain rfl : j = 0 := Nat.lt_one_iff.mp inside
    exact
      { replaced_iff := by simp [Chain.ofRun, idle, RestartPc.replaced]
        points := by simp [Chain.ofRun, idle, RestartPc.Points]
        preparing := by simp [Chain.ofRun, idle, RestartPc.preparing]
        unstarted := Bool.noConfusion
        counted := fun _ => kept.restartCount
        monitored := fun busy => absurd idle busy
        bounded := fun busy => absurd idle busy
        configured := kept.config.trans configured
        unfailed := by simp [Chain.ofRun, idle] }
  · intro j k insideJ insideK _
    rw [Nat.lt_one_iff.mp insideJ, Nat.lt_one_iff.mp insideK]
  · have sameId : (m.start env (.create id cfg created)).1.vm.id = id := kept.id
    simp [listing, Chain.ofRun, idle, sameId]

theorem orderly_of_reachable {allowed : Chain → Label → Prop}
    (fresh : ∀ c label, allowed c label → drawsFresh c label = true)
    (reached : (system m restart).ReachableUnder allowed c) :
    Orderly restart (∀ c label, allowed c label → replacementStarts m c label = true) c := by
  apply reached.invariant
  · rintro first ⟨id, cfg, created, env, configured, _, rfl⟩
    exact .ofRun configured
  · intro state label target _ orderly meets stepped
    exact orderly.step (fresh state label meets) (fun starts => starts state label meets) stepped

/-! ### Chains without a failed start -/

theorem Orderly.replacements_le (orderly : Orderly restart strict c) (limited : 0 < restart.maxRetries) :
    (c.replacements : Int) ≤ restart.maxRetries := by
  have nonempty := orderly.nonempty
  simp only [Chain.replacements]
  by_cases single : c.size = 1
  · omega
  · -- the VM before the last one had a retry left
    have fits := orderly.fits (c.size - 2) (by omega)
    have replaced := fits.replaced_iff.mpr (by omega)
    have spawned : (c.replica (c.size - 2)).restart ≠ .none := by
      intro idle
      rw [idle] at replaced
      exact Bool.noConfusion replaced
    have bound := fits.bounded spawned limited
    omega

theorem Chain.not_pending_of_settled (settled : c.settled = true) {j : Nat} (inside : j < c.size) :
    (c.replica j).restart.pending = false := by
  simp only [Chain.settled, all_eq_true, mem_range, Bool.not_eq_true'] at settled
  exact settled j inside

theorem Orderly.removed_iff (orderly : Orderly restart True c) (settled : c.settled = true)
    {j : Nat} (inside : j < c.size) :
    (c.replica j).restart = .removed ↔ j + 1 < c.size := by
  rw [← (orderly.fits j inside).replaced_iff]
  have returned := not_pending_of_settled settled inside
  have started := (orderly.fits j inside).unfailed trivial
  cases at_ : (c.replica j).restart <;>
    simp_all [RestartPc.replaced, RestartPc.pending]

theorem Orderly.registered (orderly : Orderly restart True c) (settled : c.settled = true) :
    c.registered = [c.replacements] := by
  have nonempty := orderly.nonempty
  obtain ⟨last, size⟩ : ∃ last, c.size = last + 1 := ⟨c.size - 1, by omega⟩
  have earlier : ((List.range last).filter fun j => (c.replica j).restart ≠ .removed) = [] := by
    rw [filter_eq_nil_iff]
    intro j listed
    have before := mem_range.mp listed
    have removed := (orderly.removed_iff settled (by omega)).mpr
      (show j + 1 < c.size by omega)
    simp [removed]
  have kept : (c.replica last).restart ≠ .removed := by
    intro removed
    have beyond := (orderly.removed_iff settled (by omega)).mp removed
    omega
  rw [Chain.registered, orderly.entries, listing, map_map, size, range_succ,
    filter_append, earlier]
  simp [kept, Chain.replacements, size]

theorem Orderly.restartCount (orderly : Orderly restart strict c) (settled : c.settled = true) :
    (c.replica c.replacements).vm.restartCount = c.replacements := by
  have nonempty := orderly.nonempty
  apply (orderly.fits c.replacements (Nat.sub_one_lt_of_lt nonempty)).counted
  intro new restartCount other
  by_cases single : c.replacements = 0
  · rw [Chain.previous, if_pos single] at other
    cases other
  · rw [Chain.previous, if_neg single] at other
    have inside : c.replacements - 1 < c.size := by
      simp only [Chain.replacements]
      omega
    have returned := not_pending_of_settled settled inside
    rw [other] at returned
    exact Bool.noConfusion returned

/-- While every replacement gets an ID of its own and its `Start` succeeds, a chain
with no pending `restartVM` has exactly one VM in the registry, whose count is the number of
replacements, and the replacements never outnumber the retries. -/
theorem restart_chain_registers_one {m : Manager}
    (reached : (system m restart).ReachableUnder
      (fun c label => drawsFresh c label = true ∧ replacementStarts m c label = true) c) :
    (c.settled = true →
      ∃ i, c.registered = [i] ∧ (c.replica i).vm.restartCount = c.replacements) ∧
    (0 < restart.maxRetries → (c.replacements : Int) ≤ restart.maxRetries) := by
  have orderly : Orderly restart True c := by
    simpa using orderly_of_reachable (fun _ _ meets => meets.1) reached
  constructor
  · intro settled
    exact ⟨c.replacements, orderly.registered settled, orderly.restartCount settled⟩
  · exact orderly.replacements_le

/-! ### Processes -/

/-- A process that is alive has a monitor that waits for it. -/
def Chain.Watched (c : Chain) : Prop :=
  ∀ j, (c.replica j).process = .alive → (c.replica j).monitor = .wait

theorem Chain.Watched.update (watched : c.Watched)
    (own : r.process = .alive → r.monitor = .wait) : (c.update i r).Watched := by
  intro j
  by_cases same : j = i
  · subst same
    rwa [replica_update_self]
  · rw [replica_update_of_ne _ _ same]
    exact watched j

theorem Chain.Watched.goto (watched : c.Watched) (pc : RestartPc) : (c.goto i pc).Watched :=
  watched.update (watched i)

theorem start_watched (m : Manager) (env : StartEnv) (watched : r.process = .alive → r.monitor = .wait) :
    (m.start env r).1.process = .alive → (m.start env r).1.monitor = .wait := by
  fun_cases Manager.start m env r with
  | case1 | case2 | case3 => exact watched
  | _ => exact fun _ => rfl

theorem Chain.Watched.monitorStep {m : Manager} {target : Chain} (watched : c.Watched) :
    c.monitorStep m i = some target → target.Watched := by
  fun_cases Chain.monitorStep m c i
  all_goals rintro ⟨⟩
  case case1 exited =>
    exact watched.update fun alive => absurd (exited.symm.trans alive) nofun
  case case3 at_ | case4 at_ _ | case5 at_ _ =>
    exact watched.update fun alive => absurd (at_.symm.trans (watched i alive)) nofun

theorem Chain.Watched.restartStep {m : Manager} {id : String} {env : StartEnv} {target : Chain}
    (watched : c.Watched) : c.restartStep m i id env = some target → target.Watched := by
  intro stepped
  simp only [Chain.restartStep] at stepped
  cases at_ : (c.replica i).restart with
  | none | removed | failed =>
    rw [at_] at stepped
    cases stepped
  | backoff =>
    rw [at_] at stepped
    cases stepped
    exact watched.goto _
  | create restartCount =>
    rw [at_] at stepped
    cases stepped
    have appended : (c.append id (.create id (c.replica i).vm.cfg env.now)).Watched :=
      watched.update nofun
    exact appended.goto _
  | setCount new restartCount =>
    rw [at_] at stepped
    cases stepped
    apply Chain.Watched.goto
    exact watched.update (watched new)
  | start new =>
    rw [at_] at stepped
    dsimp only at stepped
    split at stepped
    · cases stepped
      exact watched.goto _
    · rename_i found _
      cases stepped
      exact (watched.update (start_watched m env (watched found))).goto _
  | remove =>
    rw [at_] at stepped
    cases stepped
    exact Chain.Watched.goto watched _

/-- However the `Start` of replacements ends, as long as each gets an ID of its
own, only the newest VM of a chain can have a live process, and the replacements
never outnumber the retries. -/
theorem live_process_newest {m : Manager}
    (reached : (system m restart).ReachableUnder (fun c label => drawsFresh c label = true) c) :
    (∀ i, i < c.size → (c.replica i).process = .alive → i + 1 = c.size) ∧
      (0 < restart.maxRetries → (c.replacements : Int) ≤ restart.maxRetries) := by
  have orderly := orderly_of_reachable (fun _ _ fresh => fresh) reached
  have watched : c.Watched := by
    apply reached.invariant
    · rintro first ⟨id, cfg, created, env, -, -, rfl⟩ j
      exact start_watched m env nofun
    · intro state label target _ watched _ stepped
      cases label with
      | exit i waitErr stderr =>
        obtain ⟨-, same⟩ := Option.ite_none_right_eq_some.mp stepped
        cases same
        exact watched.update nofun
      | monitor i => exact watched.monitorStep (Option.ite_none_right_eq_some.mp stepped).2
      | restart i id env => exact watched.restartStep (Option.ite_none_right_eq_some.mp stepped).2
  refine ⟨fun i inside alive => ?_, orderly.replacements_le⟩
  have fits := orderly.fits i inside
  by_contra older
  -- a VM that was replaced has no monitor left
  have replaced := fits.replaced_iff.mpr (by omega)
  have returned := fits.monitored fun idle => by
    rw [idle] at replaced
    exact Bool.noConfusion replaced
  exact absurd (returned.symm.trans (watched i alive)) nofun

def restless : Config :=
  { Config.zero with restart := { policy := .always, maxRetries := 0 } }

def fortunate : StartEnv where
  bootFiles := ⟨true, true, true⟩
  launch := true
  limits := true
  publish := true
  pid := 7
  now := 0

def oneRestart (env : StartEnv) : List Label :=
  [.exit 0 .clean "", .monitor 0, .monitor 0, .monitor 0] ++
    List.replicate 5 (.restart 0 "000000000001" env)

theorem initial_restless (m : Manager) :
    (system m restless.restart).initial (.ofRun m "000000000000" restless 0 fortunate) :=
  ⟨"000000000000", restless, 0, fortunate, rfl, by cases m <;> decide, rfl⟩

theorem restart_chain_registers_one_oneRestart :
    (((system .qemu restless.restart).runUnder
        (fun c label => drawsFresh c label = true ∧ replacementStarts .qemu c label = true)
        (.ofRun .qemu "000000000000" restless 0 fortunate) (oneRestart fortunate)).map
          fun c => (c.settled, c.replacements)) = some (true, 1) ∧
      ∀ c ∈ (system .qemu restless.restart).runUnder
          (fun c label => drawsFresh c label = true ∧ replacementStarts .qemu c label = true)
          (.ofRun .qemu "000000000000" restless 0 fortunate) (oneRestart fortunate),
        c.settled = true →
          ∃ i, c.registered = [i] ∧ (c.replica i).vm.restartCount = c.replacements :=
  ⟨by decide, fun _ ran => (restart_chain_registers_one
    (.run (.start (initial_restless .qemu)) ran)).1⟩

theorem live_process_newest_oneRestart :
    ∃ c, (system .qemu restless.restart).runUnder (fun c label => drawsFresh c label = true)
        (.ofRun .qemu "000000000000" restless 0 fortunate) (oneRestart fortunate) = some c ∧
      (c.replica 1).process = .alive ∧
      ∀ i, i < c.size → (c.replica i).process = .alive → i + 1 = c.size := by
  have ran : (((system .qemu restless.restart).runUnder (fun c label => drawsFresh c label = true)
      (.ofRun .qemu "000000000000" restless 0 fortunate) (oneRestart fortunate)).map
        fun c => (c.replica 1).process) = some .alive := by
    decide
  obtain ⟨c, run, alive⟩ := Option.map_eq_some_iff.mp ran
  exact ⟨c, run, alive, (live_process_newest (.run (.start (initial_restless .qemu)) run)).1⟩

/-- The replacement cannot be launched, and both VMs stay in the registry. -/
theorem two_vms_after_failed_start :
    ∃ c, (system .qemu restless.restart).ReachableUnder (fun c label => drawsFresh c label = true) c ∧
      c.settled = true ∧
      ¬ ∃ i, c.registered = [i] := by
  have ran : (((system .qemu restless.restart).runUnder (fun c label => drawsFresh c label = true)
      (.ofRun .qemu "000000000000" restless 0 fortunate)
      ((oneRestart { fortunate with launch := false }).dropLast)).map
        fun c => (c.settled, c.registered)) = some (true, [0, 1]) := by
    decide
  obtain ⟨c, run, ended⟩ := Option.map_eq_some_iff.mp ran
  simp only [Prod.mk.injEq] at ended
  refine ⟨c, .run (.start (initial_restless .qemu)) run, ended.1, ?_⟩
  rintro ⟨i, single⟩
  rw [ended.2] at single
  simp at single

end Jerboa.RestartChain
