import Jerboa.TfsLogStaging

/-!
# What the TFS log keeps track of

Whatever the order of calls, no accepted entry is lost: its bytes are staged,
under way or stored.  The handlers that `log_flush` queues wait for entries
that are under way, as long as a call that finds entries staged starts a flush
itself.
-/

namespace Jerboa.Tlog

open List

variable {fs : Fs} {log next : Log}

def Log.IsEntryByte (log : Log) (count : Nat) (cell : Cell) : Prop :=
  ∃ number bytes, number < count ∧ log.entries[number]? = some bytes ∧
    cell ∈ entryCells number bytes

def Log.Stored (log : Log) (cell : Cell) : Prop :=
  ∃ write ∈ log.completed, cell ∈ write.cells

/-- When a handler was applied with `STATUS_OK`, every byte of every entry
accepted before its `log_flush` call was in a completed storage write. -/
def Log.Durable (log : Log) : Prop :=
  ∀ a ∈ log.applied, a.status = .ok → ∀ cell, log.IsEntryByte a.handler.accepted cell →
    ∃ write ∈ a.completed, cell ∈ write.cells

/-- A `log_flush` call with a handler that finds entries staged starts a flush
itself, and a compaction replaces the log only when no flush is in flight. -/
def Log.InOrder (log : Log) : Label → Prop
  | .flush true =>
    log.tupleStaging ≠ [] → log.dirty = true ∧ log.flushing = false ∧ log.state ≠ .compacting
  | .switched .ok => log.flushing = false
  | _ => True

/-! ### The invariant -/

def Job.isFlushComplete : Job → Bool
  | .flushComplete _ => true
  | .completion _ _ => false

/-- What holds whatever the order of calls: no entry is lost, and the merge of
a flush counts its storage writes. -/
structure Log.Core (log : Log) : Prop where
  start_le : log.current.start ≤ log.current.staging.length
  lengths_pos : ∀ length ∈ log.encodingLengths, 0 < length
  lengths_sum : log.encodingLengths.sum = log.tupleStaging.length
  placed : ∀ cell, log.IsEntryByte log.entries.length cell →
    cell ∈ log.tupleStaging ∨ log.Stored cell ∨ log.Underway cell
  dirty : log.flushing = true → log.dirty = true
  merge : log.flushing = true → log.mergeCount = log.pending.length
  idle : log.flushing = false → log.pending = []
  ends : log.jobs.countP Job.isFlushComplete =
    if log.flushing = true ∧ log.pending = [] then 1 else 0

/-- The first `count` entries exist, and all their bytes have the property. -/
def Log.Covers (log : Log) (count : Nat) (property : Cell → Prop) : Prop :=
  count ≤ log.entries.length ∧ ∀ cell, log.IsEntryByte count cell → property cell

/-- Handlers in the queue wait for entries that are stored or under way;
handlers scheduled or applied with `STATUS_OK` have theirs stored. -/
structure Log.Handled (log : Log) : Prop where
  queued : ∀ handler ∈ log.flushCompletions,
    log.Covers handler.accepted fun cell => log.Stored cell ∨ log.Underway cell
  scheduled : ∀ handler, .completion handler .ok ∈ log.jobs →
    log.Covers handler.accepted log.Stored
  applied : ∀ a ∈ log.applied, a.status = .ok →
    log.Covers a.handler.accepted fun cell => ∃ write ∈ a.completed, cell ∈ write.cells

def Log.Sound (log : Log) : Prop :=
  log.Core ∧ log.Handled

/-- Entries and stored bytes only become more, and bytes under way get
stored. -/
structure Log.Grows (log next : Log) : Prop where
  entries : ∃ more, next.entries = log.entries ++ more
  stored : ∀ cell, log.Stored cell → next.Stored cell
  underway : ∀ cell, log.Underway cell → next.Stored cell ∨ next.Underway cell

theorem Log.Grows.isEntryByte (grows : log.Grows next) {count : Nat}
    (bounded : count ≤ log.entries.length) {cell : Cell} (isByte : next.IsEntryByte count cell) :
    log.IsEntryByte count cell := by
  obtain ⟨number, bytes, small, found, member⟩ := isByte
  obtain ⟨more, entries⟩ := grows.entries
  rw [entries, getElem?_append_left (by omega)] at found
  exact ⟨number, bytes, small, found, member⟩

theorem Log.Grows.covers (grows : log.Grows next) {count : Nat} {before after : Cell → Prop}
    (implies : ∀ cell, before cell → after cell) (covers : log.Covers count before) :
    next.Covers count after := by
  refine ⟨?_, fun cell isByte => implies cell (covers.2 cell (grows.isEntryByte covers.1 isByte))⟩
  obtain ⟨more, entries⟩ := grows.entries
  have bounded := covers.1
  rw [entries, length_append]
  omega

theorem Log.Handled.of_grows (handled : log.Handled) (grows : log.Grows next)
    (queue : ∀ handler ∈ next.flushCompletions, handler ∈ log.flushCompletions)
    (jobs : ∀ handler, .completion handler .ok ∈ next.jobs →
      .completion handler .ok ∈ log.jobs)
    (applied : next.applied = log.applied) : next.Handled where
  queued handler member := by
    refine grows.covers (fun cell => ?_) (handled.queued handler (queue handler member))
    rintro (stored | underway)
    · exact .inl (grows.stored cell stored)
    · exact grows.underway cell underway
  scheduled handler member :=
    grows.covers grows.stored (handled.scheduled handler (jobs handler member))
  applied a member ok := by
    rw [applied] at member
    exact grows.covers (fun _ held => held) (handled.applied a member ok)

/-! ### Starting a flush -/

theorem mem_flushed {ext : Ext} (start_le : ext.start ≤ ext.staging.length) {cell : Cell}
    (member : cell ∈ ext.staging.drop ext.start) : cell ∈ ext.flushed.cells := by
  rw [Ext.flushed, drop_append_of_le_length start_le]
  exact mem_append_left _ member

/-- A flush puts everything staged under way. -/
structure Log.Flushes (log next : Log) : Prop where
  core : next.Core
  grows : log.Grows next
  staging : next.tupleStaging = []
  queue : next.flushCompletions = log.flushCompletions
  jobs : next.jobs = log.jobs
  applied : next.applied = log.applied
  entries : next.entries = log.entries

theorem startFlush_flushes (space : ∀ i, (fs.reserve i).isSome = true) (core : log.Core)
    (isDirty : log.dirty = true) (notFlushing : log.flushing = false) :
    log.Flushes (log.startFlush fs) := by
  have noPending := core.idle notFlushing
  obtain ⟨written, wrote, carries, empty, noLengths, start_le⟩ :=
    logWriteInternal_spec space log.beginFlush core.lengths_pos core.lengths_sum core.start_le
  have flush : log.startFlush fs = written.writeCurrent fs := by rw [Log.startFlush, wrote]
  have rest := carries.rest
  have arrives (cell : Cell) (held : log.InTransit cell) :
      (log.startFlush fs).Underway cell := by
    rw [flush]
    rcases carries.transit cell held with staged | current | ⟨p, member, brings⟩
    · simp [empty] at staged
    · exact ⟨_, mem_append_right _ (mem_singleton_self _),
        .inl (mem_flushed start_le current)⟩
    · exact ⟨p, mem_append_left _ member, brings⟩
  have entries : (log.startFlush fs).entries = log.entries := by rw [flush, rest]; rfl
  have completed : (log.startFlush fs).completed = log.completed := by rw [flush, rest]; rfl
  have jobs : (log.startFlush fs).jobs = log.jobs := by rw [flush, rest]; rfl
  have stored (cell : Cell) (held : log.Stored cell) : (log.startFlush fs).Stored cell := by
    rw [Log.Stored, completed]
    exact held
  refine ⟨⟨?_, ?_, ?_, ?_, ?_, ?_, ?_, ?_⟩, ⟨⟨[], by simp [entries]⟩, stored, ?_⟩, ?_, ?_, jobs,
    ?_, entries⟩
  · rw [flush]
    exact advance_start_le fs _
  · simp [flush, Log.writeCurrent, noLengths]
  · simp [flush, Log.writeCurrent, noLengths, empty]
  · intro cell isByte
    rw [Log.IsEntryByte, entries] at isByte
    rcases core.placed cell isByte with staged | held | underway
    · exact .inr (.inr (arrives cell (.inl staged)))
    · exact .inr (.inl (stored cell held))
    · exact .inr (.inr (arrives cell (.inr (.inr underway))))
  · intro _
    rw [flush, rest]
    exact isDirty
  · intro _
    have count : written.mergeCount + log.pending.length = 1 + written.pending.length :=
      carries.merge
    rw [noPending, length_nil] at count
    simp only [flush, Log.writeCurrent, length_append, length_singleton]
    omega
  · intro idle
    rw [flush, rest] at idle
    simp [Log.writeCurrent, Log.beginFlush, Log.applyMerge] at idle
  · have before := core.ends
    simp only [notFlushing, Bool.false_eq_true, false_and, if_false] at before
    rw [jobs, before]
    simp [flush, Log.writeCurrent]
  · exact fun cell underway => .inr (arrives cell (.inr (.inr underway)))
  · rw [flush]
    exact empty
  · rw [flush, rest]
    rfl
  · rw [flush, rest]
    rfl

/-! ### Calls -/

theorem Log.Core.covers_all (core : log.Core) (empty : log.tupleStaging = []) :
    log.Covers log.entries.length fun cell => log.Stored cell ∨ log.Underway cell := by
  refine ⟨Nat.le_refl _, fun cell isByte => ?_⟩
  rcases core.placed cell isByte with staged | placed
  · simp [empty] at staged
  · exact placed

theorem Log.Covers.stored {count : Nat} (noPending : log.pending = [])
    (covers : log.Covers count fun cell => log.Stored cell ∨ log.Underway cell) :
    log.Covers count log.Stored := by
  refine ⟨covers.1, fun cell isByte => ?_⟩
  rcases covers.2 cell isByte with stored | ⟨p, member, -⟩
  · exact stored
  · simp [noPending] at member

theorem Log.Handled.queue (handled : log.Handled) (core : log.Core)
    (empty : log.tupleStaging = []) :
    { log with
      flushCompletions := log.flushCompletions ++ [Handler.mk log.entries.length] }.Handled where
  queued handler member := by
    rcases mem_append.mp member with old | new
    · exact handled.queued handler old
    · rw [mem_singleton.mp new]
      exact core.covers_all empty
  scheduled := handled.scheduled
  applied := handled.applied

theorem Log.Handled.schedule (handled : log.Handled) {handler : Handler}
    (covers : log.Covers handler.accepted log.Stored) :
    { log with jobs := log.jobs ++ [Job.completion handler .ok] }.Handled where
  queued := handled.queued
  scheduled other member := by
    rcases mem_append.mp member with old | new
    · exact handled.scheduled other old
    · obtain ⟨rfl, -⟩ := Job.completion.inj (mem_singleton.mp new)
      exact covers
  applied := handled.applied

/-- Handlers queued before or by the call that starts a flush wait for what is
under way from then on. -/
theorem Log.Flushes.handled (flushes : log.Flushes next)
    (scheduled : ∀ handler, .completion handler .ok ∈ log.jobs →
      log.Covers handler.accepted log.Stored)
    (applied : ∀ a ∈ log.applied, a.status = .ok →
      log.Covers a.handler.accepted fun cell => ∃ write ∈ a.completed, cell ∈ write.cells)
    (bounded : ∀ handler ∈ log.flushCompletions, handler.accepted ≤ log.entries.length) :
    next.Handled where
  queued handler member := by
    rw [flushes.queue] at member
    obtain ⟨-, all⟩ := flushes.core.covers_all flushes.staging
    have small := bounded handler member
    rw [← flushes.entries] at small
    refine ⟨small, fun cell isByte => all cell ?_⟩
    obtain ⟨number, bytes, less, found, inEntry⟩ := isByte
    exact ⟨number, bytes, Nat.lt_of_lt_of_le less small, found, inEntry⟩
  scheduled handler member := by
    rw [flushes.jobs] at member
    exact flushes.grows.covers flushes.grows.stored (scheduled handler member)
  applied a member ok := by
    rw [flushes.applied] at member
    exact flushes.grows.covers (fun _ held => held) (applied a member ok)

theorem logFlush_sound (space : ∀ i, (fs.reserve i).isSome = true) (core : log.Core)
    (handled : log.Handled) {completion : Bool} (inOrder : log.InOrder (.flush completion)) :
    (log.logFlush fs completion).Sound := by
  have emptyUnless (called : completion = true)
      (busy : ¬ (log.dirty = true ∧ log.flushing = false ∧ log.state ≠ .compacting)) :
      log.tupleStaging = [] := by
    subst called
    by_contra staged
    exact busy (inOrder staged)
  unfold Log.logFlush
  by_cases clean : log.dirty = false ∧ log.state ≠ .compacting
  · have isClean : (!log.dirty && log.state != .compacting) = true := by simp [clean]
    have notFlushing : log.flushing = false := by
      by_contra flushing
      have dirty := core.dirty (by simpa using flushing)
      simp [clean.1] at dirty
    rw [if_pos isClean]
    cases completion with
    | false => exact ⟨core, handled⟩
    | true =>
      have empty := emptyUnless rfl (by simp [clean.1])
      rw [if_pos rfl]
      refine ⟨{ core with ends := ?_ },
        handled.schedule ((core.covers_all empty).stored (core.idle notFlushing))⟩
      rw [countP_append, core.ends]
      simp [Job.isFlushComplete]
  · have notClean : ¬ (!log.dirty && log.state != .compacting) = true := by
      simpa using clean
    rw [if_neg notClean]
    by_cases waits : (log.flushing || log.state = .compacting) = true
    · rw [if_pos waits]
      cases completion with
      | false => exact ⟨core, handled⟩
      | true =>
        have empty := emptyUnless rfl (by
          rintro ⟨-, notFlushing, notCompacting⟩
          simp [notFlushing, notCompacting] at waits)
        exact ⟨{ core with }, handled.queue core empty⟩
    · rw [if_neg waits]
      simp only [Bool.or_eq_true, decide_eq_true_eq, not_or] at waits
      have notFlushing : log.flushing = false := by simpa using waits.1
      have isDirty : log.dirty = true := by
        by_contra notDirty
        exact clean ⟨by simpa using notDirty, waits.2⟩
      have bounded := fun handler member => (handled.queued handler member).1
      cases completion with
      | false =>
        have flushes := startFlush_flushes space core isDirty notFlushing
        exact ⟨flushes.core, flushes.handled handled.scheduled handled.applied bounded⟩
      | true =>
        let queued : Log :=
          { log with flushCompletions := log.flushCompletions ++ [⟨log.entries.length⟩] }
        have queuedCore : queued.Core := { core with }
        have flushes := startFlush_flushes space queuedCore isDirty notFlushing
        refine ⟨flushes.core, flushes.handled handled.scheduled handled.applied ?_⟩
        intro handler member
        rcases mem_append.mp member with old | new
        · exact bounded handler old
        · cases mem_singleton.mp new
          exact Nat.le_refl _

theorem push_sound (core : log.Core) (handled : log.Handled) {bytes : List UInt8}
    (some : bytes ≠ []) (total obsolete : Nat) :
    (log.push bytes total obsolete).Sound := by
  have grows : log.Grows (log.push bytes total obsolete) :=
    ⟨⟨[bytes], rfl⟩, fun _ held => held, fun _ underway => .inr underway⟩
  refine ⟨{ core with lengths_pos := ?_, lengths_sum := ?_, placed := ?_ },
    handled.of_grows grows (fun _ member => member) (fun _ member => member) rfl⟩
  · intro length member
    rcases mem_append.mp member with old | new
    · exact core.lengths_pos length old
    · rw [mem_singleton.mp new]
      exact length_pos_of_ne_nil some
  · simp [Log.push, core.lengths_sum, entryCells]
  · intro cell ⟨number, content, small, found, inEntry⟩
    by_cases new : number < log.entries.length
    · have isByte : log.IsEntryByte log.entries.length cell :=
        grows.isEntryByte (Nat.le_refl _) ⟨number, content, new, found, inEntry⟩
      rcases core.placed cell isByte with staged | placed
      · exact .inl (mem_append_left _ staged)
      · exact .inr placed
    · have last : number = log.entries.length := by
        simp only [Log.push, length_append, length_singleton] at small
        omega
      subst last
      simp only [Log.push, getElem?_concat_length, Option.some.injEq] at found
      rw [← found] at inEntry
      exact .inl (mem_append_right _ inEntry)

theorem stage_sound (space : ∀ i, (fs.reserve i).isSome = true) (core : log.Core)
    (handled : log.Handled) {bytes : List UInt8} (some : bytes ≠ []) (total obsolete : Nat) :
    (log.stage fs bytes total obsolete).Sound := by
  obtain ⟨pushedCore, pushedHandled⟩ := push_sound core handled some total obsolete
  unfold Log.stage
  split
  · exact ⟨core, handled⟩
  · unfold Log.logSetDirty
    split
    · split
      · exact logFlush_sound space pushedCore pushedHandled trivial
      · exact ⟨pushedCore, pushedHandled⟩
    · exact ⟨{ pushedCore with dirty := fun _ => rfl }, { pushedHandled with }⟩

end Jerboa.Tlog
