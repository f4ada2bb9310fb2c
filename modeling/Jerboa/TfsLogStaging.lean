import Jerboa.TfsLog

/-!
# Moving staged entries into log extensions

`log_write_internal` empties the staging buffer.  Whatever was staged, in the
current extension or under way to the device stays in one of these places, and
each extension it leaves behind has a write under way that will bring it.
-/

namespace Jerboa.Tlog

open List

variable {fs : Fs} {log next : Log}

/-! ### Bytes on their way -/

def Pending.Brings (cell : Cell) (p : Pending) : Prop :=
  cell ∈ p.write.cells ∨ ∃ old sector span, p.next = .link old sector span ∧
    cell ∈ old.staging.drop old.start

def Log.Underway (log : Log) (cell : Cell) : Prop :=
  ∃ p ∈ log.pending, p.Brings cell

def Log.InTransit (log : Log) (cell : Cell) : Prop :=
  cell ∈ log.tupleStaging ∨ cell ∈ log.current.staging.drop log.current.start ∨
    log.Underway cell

/-- A step of `log_write_internal` loses no byte, adds a storage write for every
handler it takes from the merge, and changes nothing else. -/
structure Log.Carries (log next : Log) : Prop where
  transit : ∀ cell, log.InTransit cell → next.InTransit cell
  merge : next.mergeCount + log.pending.length = log.mergeCount + next.pending.length
  rest : next = { log with
    current := next.current
    tupleStaging := next.tupleStaging
    encodingLengths := next.encodingLengths
    mergeCount := next.mergeCount
    reserved := next.reserved
    pending := next.pending }

theorem Log.Carries.refl (log : Log) : log.Carries log :=
  ⟨fun _ held => held, rfl, rfl⟩

theorem Log.Carries.trans {middle : Log} (first : log.Carries middle)
    (second : middle.Carries next) : log.Carries next where
  transit cell held := second.transit cell (first.transit cell held)
  merge := by
    have before := first.merge
    have after := second.merge
    omega
  rest := by
    rw [second.rest, first.rest]

/-! ### Sizes -/

theorem length_varintHigh_le (strides x : Nat) : (varintHigh strides x).length ≤ strides := by
  induction strides generalizing x with
  | zero => simp [varintHigh]
  | succ strides ih =>
    rw [varintHigh]
    split
    · simp
    · have shorter := ih (x / 128)
      simp only [length_append, length_singleton]
      omega

theorem length_varint_le (x : Nat) : (varint x).length ≤ maxVarintSize := by
  have high := length_varintHigh_le (maxVarintSize - 1) (x / 128)
  simp only [varint, length_append, length_singleton]
  simp only [maxVarintSize] at high ⊢
  omega

theorem length_init_le (fs : Fs) (sector span : Nat) :
    (Ext.init fs sector span).staging.length ≤ 74 := by
  have version := length_varint_le tfsVersion
  have spanBytes := length_varint_le span
  have uuid := fs.uuid_length
  have label := fs.label_length
  simp only [maxVarintSize] at version spanBytes
  simp only [Ext.init, framing, length_map, length_append, tfsMagic, length_cons,
    length_nil]
  split
  · simp only [length_append, length_cons, length_nil]
    omega
  · simp only [length_nil]
    omega

theorem size_default (fs : Fs) {ext : Ext}
    (span : ext.span = tfsLogDefaultExtensionSize / 2 ^ fs.blocksizeOrder) :
    ext.size fs = 524288 := by
  have divides : 2 ^ fs.blocksizeOrder ∣ tfsLogDefaultExtensionSize := by
    have power : tfsLogDefaultExtensionSize = 2 ^ 19 := by decide
    rw [power]
    exact Nat.pow_dvd_pow 2 fs.blocksizeOrder_le
  rw [Ext.size, span, Nat.div_mul_cancel divides]
  rfl

/-! ### Making room -/

/-- The current extension can take part of an entry. -/
structure Log.HasRoom (fs : Fs) (log : Log) : Prop where
  start_le : log.current.start ≤ log.current.staging.length
  fits : log.current.staging.length + (tfsExtensionLinkBytes + tupleAvailableMinSize) <
    log.current.size fs

theorem advance_start_le (fs : Fs) (ext : Ext) :
    (ext.advance fs).start ≤ (ext.advance fs).staging.length :=
  Nat.sub_le _ _

theorem logExtend_spec (space : ∀ i, (fs.reserve i).isSome = true) (log : Log) :
    ∃ next, log.applyMerge.logExtend fs = (true, next) ∧ log.Carries next ∧
      next.tupleStaging = log.tupleStaging ∧ next.HasRoom fs := by
  obtain ⟨sector, reserved⟩ := Option.isSome_iff_exists.mp (space log.reserved)
  unfold Log.logExtend
  rw [Log.applyMerge, reserved]
  refine ⟨_, rfl, ⟨fun cell held => ?_, ?_, rfl⟩, rfl, advance_start_le fs _, ?_⟩
  · rcases held with staged | current | ⟨p, member, brings⟩
    · exact .inl staged
    · refine .inr (.inr ⟨_, mem_append_right _ (mem_singleton_self _), .inr ?_⟩)
      exact ⟨_, _, _, rfl, current⟩
    · exact .inr (.inr ⟨p, mem_append_left _ member, brings⟩)
  · simp only [length_append, length_singleton]
    omega
  · have header := length_init_le fs sector (tfsLogDefaultExtensionSize / 2 ^ fs.blocksizeOrder)
    rw [size_default fs rfl]
    simp only [Ext.advance, tfsExtensionLinkBytes, tupleAvailableMinSize,
      tupleAvailableHeaderSize, maxVarintSize]
    omega

theorem makeRoom_spec (space : ∀ i, (fs.reserve i).isSome = true) {log : Log}
    (start_le : log.current.start ≤ log.current.staging.length) :
    ∃ next, log.makeRoom fs = (true, next) ∧ log.Carries next ∧
      next.tupleStaging = log.tupleStaging ∧ next.HasRoom fs := by
  unfold Log.makeRoom
  split
  · exact logExtend_spec space log
  · rename_i roomy
    obtain ⟨fits, -⟩ := not_or.mp roomy
    exact ⟨log, rfl, .refl log, rfl, start_le, Nat.lt_of_not_le fits⟩

/-! ### Writing entries -/

theorem Log.HasRoom.room_pos (hasRoom : log.HasRoom fs) {remaining : Nat} (some : 0 < remaining) :
    0 < log.room fs remaining := by
  have fits := hasRoom.fits
  simp only [Log.room, tfsExtensionLinkBytes, tupleAvailableMinSize, tupleAvailableHeaderSize,
    maxVarintSize] at fits ⊢
  omega

theorem writePart_carries (start_le : log.current.start ≤ log.current.staging.length)
    (first : Bool) (remaining length : Nat) :
    log.Carries (log.writePart first remaining length) where
  transit cell held := by
    rcases held with staged | current | underway
    · rw [← take_append_drop length log.tupleStaging] at staged
      rcases mem_append.mp staged with moved | kept
      · refine .inr (.inl ?_)
        simp only [Log.writePart]
        rw [append_assoc, drop_append_of_le_length start_le]
        exact mem_append_right _ (mem_append_right _ moved)
      · exact .inl kept
    · refine .inr (.inl ?_)
      simp only [Log.writePart]
      rw [append_assoc, drop_append_of_le_length start_le]
      exact mem_append_left _ current
    · exact .inr (.inr underway)
  merge := rfl
  rest := rfl

theorem writePart_start_le (start_le : log.current.start ≤ log.current.staging.length)
    (first : Bool) (remaining length : Nat) :
    (log.writePart first remaining length).current.start ≤
      (log.writePart first remaining length).current.staging.length := by
  simp only [Log.writePart, length_append]
  omega

/-- What the loops of `log_write_internal` do: the first `count` staged bytes
leave the staging buffer, and nothing is lost. -/
structure Log.Moves (log : Log) (count : Nat) (next : Log) : Prop where
  carries : log.Carries next
  staging : next.tupleStaging = log.tupleStaging.drop count
  start_le : next.current.start ≤ next.current.staging.length

theorem Log.Moves.trans {middle : Log} {first second : Nat} (before : log.Moves first middle)
    (after : middle.Moves second next) : log.Moves (first + second) next where
  carries := before.carries.trans after.carries
  staging := by rw [after.staging, before.staging, drop_drop]
  start_le := after.start_le

theorem writePart_moves {ready : Log} (carries : log.Carries ready)
    (staging : ready.tupleStaging = log.tupleStaging) (hasRoom : ready.HasRoom fs) (first : Bool)
    (remaining length : Nat) : log.Moves length (ready.writePart first remaining length) where
  carries := carries.trans (writePart_carries hasRoom.start_le first remaining length)
  staging := by
    rw [← staging]
    rfl
  start_le := writePart_start_le hasRoom.start_le first remaining length

section

variable (space : ∀ i, (fs.reserve i).isSome = true)

include space

theorem writeTuple_spec {steps remaining : Nat}
    (enough : remaining ≤ steps) (some : 0 < remaining) (first : Bool) {log : Log}
    (start_le : log.current.start ≤ log.current.staging.length) :
    ∃ next, log.writeTuple fs steps first remaining = (true, next) ∧
      log.Moves remaining next := by
  induction steps generalizing remaining first log with
  | zero => omega
  | succ steps ih =>
    obtain ⟨ready, made, carries, staging, hasRoom⟩ := makeRoom_spec space start_le
    have progress := hasRoom.room_pos some
    have bounded : ready.room fs remaining ≤ remaining := Nat.min_le_right _ _
    have part := writePart_moves carries staging hasRoom first remaining
      (ready.room fs remaining)
    simp only [Log.writeTuple, made]
    split
    · rename_i complete
      have all : ready.room fs remaining = remaining := by omega
      rw [all] at part ⊢
      exact ⟨_, rfl, part⟩
    · rename_i left
      have shorter : remaining - ready.room fs remaining ≤ steps := by omega
      obtain ⟨next, wrote, moves⟩ := ih shorter (Nat.pos_of_ne_zero left) false part.start_le
      refine ⟨next, wrote, ?_⟩
      have total := part.trans moves
      rwa [Nat.add_sub_cancel' bounded] at total

theorem writeTuples_spec {lengths : List Nat}
    (positive : ∀ length ∈ lengths, 0 < length) {log : Log}
    (start_le : log.current.start ≤ log.current.staging.length) :
    ∃ next, log.writeTuples fs lengths = (true, next) ∧ log.Moves lengths.sum next := by
  induction lengths generalizing log with
  | nil => exact ⟨log, rfl, .refl log, rfl, start_le⟩
  | cons remaining lengths ih =>
    obtain ⟨middle, wrote, moves⟩ := writeTuple_spec space (Nat.le_refl remaining)
      (positive remaining mem_cons_self) true start_le
    obtain ⟨next, rest, movesRest⟩ := ih
      (forall_mem_cons.mp positive).2 moves.start_le
    refine ⟨next, ?_, ?_⟩
    · simp only [Log.writeTuples, wrote, rest]
    · rw [sum_cons]
      exact moves.trans movesRest

theorem logWriteInternal_spec (log : Log)
    (positive : ∀ length ∈ log.encodingLengths, 0 < length)
    (sum : log.encodingLengths.sum = log.tupleStaging.length)
    (start_le : log.current.start ≤ log.current.staging.length) :
    ∃ next, log.logWriteInternal fs = (true, next) ∧ log.Carries next ∧
      next.tupleStaging = [] ∧ next.encodingLengths = [] ∧
      next.current.start ≤ next.current.staging.length := by
  obtain ⟨written, wrote, moves⟩ := writeTuples_spec space positive start_le
  refine ⟨{ written with encodingLengths := [] }, by rw [Log.logWriteInternal, wrote],
    ⟨moves.carries.transit, moves.carries.merge, ?_⟩, ?_, rfl, moves.start_le⟩
  · rw [moves.carries.rest]
  · change written.tupleStaging = []
    rw [moves.staging, sum, drop_length]

end

end Jerboa.Tlog
