import Jerboa.TfsLogInvariant
import Mathlib.Data.List.Perm.Basic

/-!
# What a completed flush has made durable

A completion handler of `log_flush` that is applied with `STATUS_OK` should
find every entry accepted before the call on the device.  This holds as long as
a call that finds entries staged starts a flush itself.
-/

namespace Jerboa.Tlog

open List

variable {fs : Fs} {log next : Log}

/-! ### Asynchronous events -/

variable {index : Nat}

theorem mem_of_getElem? {α : Type} {list : List α} {x y : α}
    (found : list[index]? = some x) (member : y ∈ list) : y = x ∨ y ∈ list.eraseIdx index := by
  obtain ⟨bound, rfl⟩ := List.getElem?_eq_some_iff.mp found
  have perm := getElem_cons_eraseIdx_perm bound
  rcases mem_cons.mp (perm.mem_iff.mpr member) with same | other
  · exact .inl same
  · exact .inr other

theorem completeWrite_grows {done : Pending}
    (found : log.pending[index]? = some done) : log.Grows (log.completeWrite index done) := by
  have stored : ∀ cell, log.Stored cell → (log.completeWrite index done).Stored cell := by
    rintro cell ⟨write, member, inWrite⟩
    refine ⟨write, ?_, inWrite⟩
    unfold Log.completeWrite
    split <;> exact mem_append_left _ member
  have last : done.write ∈ (log.completeWrite index done).completed := by
    unfold Log.completeWrite
    split <;> exact mem_append_right _ (mem_singleton_self _)
  refine ⟨⟨[], ?_⟩, stored, ?_⟩
  · unfold Log.completeWrite
    split <;> simp [Log.mergeJoin]
  · rintro cell ⟨p, member, brings⟩
    rcases mem_of_getElem? found member with rfl | other
    · rcases brings with now | ⟨old, sector, span, next, later⟩
      · exact .inl ⟨p.write, last, now⟩
      · refine .inr ⟨⟨(old.linked sector span).flushed, .join⟩, ?_, .inl ?_⟩
        · simp only [Log.completeWrite, next]
          exact mem_append_right _ (mem_singleton_self _)
        · simp only [Ext.flushed, Ext.linked, append_assoc]
          rw [drop_append]
          exact mem_append_left _ later
    · refine .inr ⟨p, ?_, brings⟩
      unfold Log.completeWrite
      split
      · exact other
      · exact mem_append_left _ other

theorem completeWrite_sound (core : log.Core) (handled : log.Handled)
    {done : Pending} (found : log.pending[index]? = some done) :
    (log.completeWrite index done).Sound := by
  have grows := completeWrite_grows found
  have bound := (List.getElem?_eq_some_iff.mp found).1
  have shorter : (log.pending.eraseIdx index).length = log.pending.length - 1 :=
    length_eraseIdx_of_lt bound
  have inFlight : log.flushing = true := by
    by_contra idle
    rw [core.idle (by simpa using idle)] at bound
    simp at bound
  have count := core.merge inFlight
  have ends : log.jobs.countP Job.isFlushComplete = 0 := by
    rw [core.ends, if_neg]
    rintro ⟨-, none⟩
    simp [none] at bound
  have placed : ∀ cell, log.IsEntryByte log.entries.length cell → cell ∈ log.tupleStaging ∨
      (log.completeWrite index done).Stored cell ∨
      (log.completeWrite index done).Underway cell := by
    intro cell isByte
    rcases core.placed cell isByte with staged | stored | underway
    · exact .inl staged
    · exact .inr (.inl (grows.stored cell stored))
    · exact .inr (grows.underway cell underway)
  refine ⟨?_, handled.of_grows grows ?_ ?_ ?_⟩
  · cases next : done.next with
    | join =>
      simp only [Log.completeWrite, next] at placed ⊢
      refine { core with placed, merge := fun _ => ?_, idle := fun idle => ?_, ends := ?_ }
      · simp only [Log.mergeJoin]
        omega
      · simp [Log.mergeJoin, inFlight] at idle
      · simp only [Log.mergeJoin, inFlight, true_and, if_true]
        by_cases lastOne : log.mergeCount = 1
        · have none : log.pending.eraseIdx index = [] := by
            apply eq_nil_of_length_eq_zero
            omega
          rw [if_pos lastOne, if_pos none, countP_append, ends]
          rfl
        · have others : log.pending.eraseIdx index ≠ [] := by
            apply ne_nil_of_length_pos
            omega
          rw [if_neg lastOne, if_neg others, ends]
    | link old sector span =>
      simp only [Log.completeWrite, next] at placed ⊢
      refine { core with placed, merge := fun _ => ?_, idle := fun idle => ?_, ends := ?_ }
      · simp only [length_append, length_singleton]
        omega
      · simp [inFlight] at idle
      · simp [ends]
  · unfold Log.completeWrite
    split <;> exact fun _ member => member
  · intro handler member
    unfold Log.completeWrite at member
    split at member
    · simp only [Log.mergeJoin] at member
      split at member
      · simpa using member
      · exact member
    · exact member
  · unfold Log.completeWrite
    split <;> rfl

theorem Log.Handled.runCompletions (handled : log.Handled) {status : Status}
    (noPending : status = .ok → log.pending = []) :
    (log.runFlushCompletions status).Handled where
  queued handler member := by simp [Log.runFlushCompletions] at member
  scheduled handler member := by
    rcases mem_append.mp member with old | new
    · exact handled.scheduled handler old
    · obtain ⟨queued, inQueue, same⟩ := mem_map.mp new
      obtain ⟨rfl, ok⟩ := Job.completion.inj same
      exact (handled.queued queued inQueue).stored (noPending ok)
  applied := handled.applied

theorem countP_completions (handlers : List Handler) (status : Status) :
    (handlers.map fun handler => Job.completion handler status).countP Job.isFlushComplete = 0 := by
  simp [countP_map, countP_eq_zero, Job.isFlushComplete]

theorem runCompletions_ends (log : Log) (status : Status) :
    (log.runFlushCompletions status).jobs.countP Job.isFlushComplete =
      log.jobs.countP Job.isFlushComplete := by
  rw [Log.runFlushCompletions, countP_append, countP_completions, Nat.add_zero]

theorem flushComplete_sound (core : log.Core) (handled : log.Handled)
    {status : Status} (found : log.jobs[index]? = some (.flushComplete status)) :
    (log.runJob index (.flushComplete status)).Sound := by
  obtain ⟨bound, job⟩ := List.getElem?_eq_some_iff.mp found
  have perm := getElem_cons_eraseIdx_perm bound
  have counted := perm.countP_eq Job.isFlushComplete
  rw [job, countP_cons_of_pos rfl, core.ends] at counted
  have ended : log.flushing = true ∧ log.pending = [] := by
    by_contra running
    rw [if_neg running] at counted
    omega
  rw [if_pos ended] at counted
  have erased : { log with jobs := log.jobs.eraseIdx index, dirty := false }.Handled :=
    handled.of_grows ⟨⟨[], by simp⟩, fun _ held => held, fun _ underway => .inr underway⟩
      (fun _ member => member) (fun _ member => mem_of_mem_eraseIdx member) rfl
  have ran := @Log.Handled.runCompletions _ erased status fun _ => ended.2
  refine ⟨{ core with dirty := nofun, merge := nofun, idle := fun _ => ended.2, ends := ?_ },
    { ran with }⟩
  have same := runCompletions_ends
    { log with jobs := log.jobs.eraseIdx index, dirty := false } status
  have none : (log.jobs.eraseIdx index).countP Job.isFlushComplete = 0 := by omega
  rw [none] at same
  simpa [Log.runJob, Log.logFlushComplete] using same

theorem completion_sound (core : log.Core) (handled : log.Handled)
    {handler : Handler} {status : Status}
    (found : log.jobs[index]? = some (.completion handler status)) :
    (log.runJob index (.completion handler status)).Sound := by
  obtain ⟨bound, job⟩ := List.getElem?_eq_some_iff.mp found
  have counted := (getElem_cons_eraseIdx_perm bound).countP_eq Job.isFlushComplete
  rw [job, countP_cons_of_neg (by simp [Job.isFlushComplete]), core.ends] at counted
  refine ⟨{ core with ends := counted }, handled.queued, fun other member => ?_,
    fun a member ok => ?_⟩
  · exact handled.scheduled other (mem_of_mem_eraseIdx member)
  · rcases mem_append.mp member with old | new
    · exact handled.applied a old ok
    · obtain rfl := mem_singleton.mp new
      obtain rfl : status = .ok := ok
      exact handled.scheduled handler (List.mem_of_getElem? found)

theorem sound_of_reachable (space : ∀ i, (fs.reserve i).isSome = true)
    (reached : (system fs).ReachableUnder Log.InOrder log) : log.Sound := by
  refine reached.invariant ?_ ?_
  · rintro log ⟨current, total, obsolete, start, -, rfl⟩
    refine ⟨⟨?_, ?_, ?_, ?_, ?_, ?_, ?_, ?_⟩, ⟨?_, ?_, ?_⟩⟩
    all_goals simp [Log.opened, start, Log.IsEntryByte]
  · rintro log label target - ⟨core, handled⟩ inOrder (stepped : log.step fs label = some target)
    revert stepped
    fun_cases Log.step fs log label
    case case2 bytes total allowed =>
      rintro ⟨⟩
      exact stage_sound space core handled (not_or.mp allowed).2 total 0
    case case4 bytes obsolete allowed =>
      rintro ⟨⟩
      exact stage_sound space core handled (not_or.mp allowed).2 1 obsolete
    case case6 completion _ =>
      rintro ⟨⟩
      exact logFlush_sound space core handled inOrder
    case case8 =>
      rintro ⟨⟩
      exact logFlush_sound space core handled trivial
    case case9 index =>
      intro stepped
      obtain ⟨done, found, rfl⟩ := Option.map_eq_some_iff.mp stepped
      exact completeWrite_sound core handled found
    case case10 index =>
      intro stepped
      obtain ⟨job, found, rfl⟩ := Option.map_eq_some_iff.mp stepped
      cases job with
      | flushComplete status => exact flushComplete_sound core handled found
      | completion handler status => exact completion_sound core handled found
    case case11 =>
      rintro ⟨⟩
      exact ⟨{ core with }, { handled with }⟩
    case case13 status _ =>
      rintro ⟨⟩
      have noPending : status = .ok → log.pending = [] := by
        rintro rfl
        exact core.idle inOrder
      exact ⟨{ core with ends := (runCompletions_ends log status).trans core.ends },
        { handled.runCompletions noPending with }⟩
    all_goals rintro ⟨⟩

/-- In every run whose flush calls are in order, every completed flush has made
durable what was accepted before it. -/
theorem flush_durable (space : ∀ i, (fs.reserve i).isSome = true)
    (reached : (system fs).ReachableUnder Log.InOrder log) : log.Durable :=
  fun a member ok => ((sound_of_reachable space reached).2.applied a member ok).2

/-! ### A write during a flush -/

instance (log : Log) : (label : Label) → Decidable (log.InOrder label)
  | .flush true => inferInstanceAs (Decidable (log.tupleStaging ≠ [] →
      log.dirty = true ∧ log.flushing = false ∧ log.state ≠ .compacting))
  | .switched .ok => inferInstanceAs (Decidable (log.flushing = false))
  | .write .. | .writeEav .. | .flush false | .timer | .complete _ | .run _ | .relock _
  | .switched .failed => isTrue trivial

def roomyFs : Fs where
  blocksizeOrder := 9
  blocksizeOrder_le := by decide
  uuid := List.replicate 16 0
  uuid_length := by decide
  label := []
  label_length := by decide
  reserve i := some (1024 * (i + 1))

theorem initial_opened (total obsolete : Nat) :
    (system roomyFs).initial (Log.opened (Ext.init roomyFs 1 1024) total obsolete) :=
  ⟨_, total, obsolete, rfl, by decide, rfl⟩

def emptyLog : Log :=
  Log.opened (Ext.init roomyFs 1 1024) 0 0

/-- A log of which nothing is in use any more. -/
def obsoleteLog : Log :=
  Log.opened (Ext.init roomyFs 1 1024) 8192 8192

/-- An entry is written and flushed, the flush begins a compaction, and a second
flush waits for the new log. -/
def flushThenCompact : List Label :=
  [.write [7] 1, .flush true, .relock true, .complete 0, .run 0, .run 0, .flush true,
    .switched .ok, .run 0]

/-- A second entry is written and flushed while the flush of the first is in
flight. -/
def writeDuringFlush : List Label :=
  [.write [7] 1, .flush true, .write [8] 1, .flush true, .complete 0, .run 0, .run 0, .run 0]

def Applied.sources (a : Applied) : List (Nat × Nat) :=
  a.completed.flatMap fun write => write.cells.filterMap Cell.source

theorem flush_durable_flushThenCompact :
    (((system roomyFs).runUnder Log.InOrder obsoleteLog flushThenCompact).map fun log =>
        (log.replaced, log.applied.map Applied.sources)) = some (true, [[(0, 0)], [(0, 0)]]) ∧
      ∀ log ∈ (system roomyFs).runUnder Log.InOrder obsoleteLog flushThenCompact, log.Durable :=
  ⟨by decide, fun _ ran => flush_durable (fun _ => rfl)
    ((TransitionSystem.ReachableUnder.start (initial_opened 8192 8192)).run ran)⟩

/-- The handler of the second flush is applied with `STATUS_OK` although the
second entry has not been written. -/
theorem flush_not_durable :
    (system roomyFs).initial emptyLog ∧ (∀ i, (roomyFs.reserve i).isSome = true) ∧
      ∃ log, (system roomyFs).run emptyLog writeDuringFlush = some log ∧ ¬ log.Durable := by
  refine ⟨initial_opened 0 0, fun _ => rfl, ?_⟩
  have written : (((system roomyFs).run emptyLog writeDuringFlush).map fun log => log.entries) =
      some [[7], [8]] := by
    decide
  have reported : (((system roomyFs).run emptyLog writeDuringFlush).map fun log =>
      log.applied.map fun a => (a.handler.accepted, a.status, a.sources)) =
        some [(1, .ok, [(0, 0)]), (2, .ok, [(0, 0)])] := by
    decide
  obtain ⟨log, run, entries⟩ := Option.map_eq_some_iff.mp written
  rw [run] at reported
  have handlers : (log.applied.map fun a => (a.handler.accepted, a.status, a.sources)) =
      [(1, .ok, [(0, 0)]), (2, .ok, [(0, 0)])] :=
    Option.some.inj reported
  refine ⟨log, run, fun durable => ?_⟩
  have second : (2, Status.ok, [(0, 0)]) ∈
      log.applied.map fun a => (a.handler.accepted, a.status, a.sources) := by
    rw [handlers]
    simp
  obtain ⟨a, member, same⟩ := mem_map.mp second
  obtain ⟨accepted, same⟩ := Prod.mk.inj same
  obtain ⟨status, sources⟩ := Prod.mk.inj same
  -- the only byte of the second entry
  have isByte : log.IsEntryByte a.handler.accepted ⟨8, some (1, 0)⟩ :=
    ⟨1, [8], by omega, by simp [entries], by decide⟩
  obtain ⟨write, completed, inWrite⟩ := durable a member status _ isByte
  have stored : (1, 0) ∈ a.sources :=
    mem_flatMap.mpr ⟨write, completed, mem_filterMap.mpr ⟨_, inWrite, rfl⟩⟩
  simp [sources] at stored

end Jerboa.Tlog
