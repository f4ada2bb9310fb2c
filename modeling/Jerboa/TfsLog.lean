import Jerboa.TransitionSystem
import Mathlib.Tactic

/-!
# The log of a TFS volume

`log_write` and `log_write_eav` encode entries into a staging buffer.
`log_flush` copies the staged entries into the current log extension, linking
new extensions as they fill up, and writes the extensions to storage.  Writes
complete later, in any order; the last one to complete ends the flush and runs
the completion handlers that were queued meanwhile.

Every staged byte carries the entry it comes from, so that one can say which
entries a storage write contains.
-/

namespace Jerboa.Tlog

/-! ### Bytes and buffers -/

/-- A staged byte: its value, and which byte of which entry it is if it is not
part of the log's framing. -/
structure Cell where
  value : UInt8
  source : Option (Nat × Nat)
deriving DecidableEq

def framing (bytes : List UInt8) : List Cell :=
  bytes.map fun byte => ⟨byte, none⟩

def entryCells (number : Nat) (bytes : List UInt8) : List Cell :=
  bytes.zipIdx.map fun byte => ⟨byte.1, some (number, byte.2)⟩

def tfsMagic : List UInt8 := [0x4e, 0x56, 0x4d, 0x54, 0x46, 0x53]
def tfsVersion : Nat := 5

def endOfLog : UInt8 := 1
def tupleAvailable : UInt8 := 2
def tupleExtended : UInt8 := 3
def logExtensionLink : UInt8 := 5

def maxVarintSize : Nat := 10
def tfsExtensionLinkBytes : Nat := 1 + 2 * maxVarintSize
def tupleAvailableHeaderSize : Nat := 1 + 2 * maxVarintSize
def tupleAvailableMinSize : Nat := tupleAvailableHeaderSize + 32
def tfsLogMaxTupleStagingBytes : Nat := 32 * 1024 * 1024
def tfsLogDefaultExtensionSize : Nat := 512 * 1024
def tfsLogCompactObsolete : Nat := 8192
def tfsLogCompactRatio : Nat := 2

/-- The high 7-bit strides of a variable-length integer, at most `strides`. -/
def varintHigh : Nat → Nat → List UInt8
  | 0, _ => []
  | strides + 1, x =>
    if x = 0 then []
    else varintHigh strides (x / 128) ++ [UInt8.ofNat (128 + x % 128)]

def varint (x : Nat) : List UInt8 :=
  varintHigh (maxVarintSize - 1) (x / 128) ++ [UInt8.ofNat (x % 128)]

/-! ### The log -/

/-- What the log uses of its filesystem; `reserve i` is the outcome of the
`i`-th reservation of log space. -/
structure Fs where
  blocksizeOrder : Nat
  blocksizeOrder_le : blocksizeOrder ≤ 19
  uuid : List UInt8
  uuid_length : uuid.length = 16
  label : List UInt8
  label_length : label.length < 32
  reserve : Nat → Option Nat

/-- A log extension with its staging buffer: the bytes up to the buffer's end,
and the offset of the next storage write. -/
structure Ext where
  sector : Nat
  span : Nat
  staging : List Cell
  start : Nat
  oldEncoding : Bool
deriving DecidableEq

def Ext.size (fs : Fs) (ext : Ext) : Nat :=
  ext.span * 2 ^ fs.blocksizeOrder

inductive Status
  | ok
  | failed
deriving DecidableEq

structure Write where
  sector : Nat
  start : Nat
  cells : List Cell
deriving DecidableEq

inductive Then
  /-- the flush's merge -/
  | join
  /-- `log_extend_link` of the old extension to the new one, then the merge -/
  | link (old : Ext) (sector span : Nat)
deriving DecidableEq

structure Pending where
  write : Write
  next : Then
deriving DecidableEq

/-- A completion handler passed to `log_flush`, with the number of entries that
the log had accepted by then. -/
structure Handler where
  accepted : Nat
deriving DecidableEq

inductive Job
  | flushComplete (status : Status)
  | completion (handler : Handler) (status : Status)
deriving DecidableEq

/-- A handler that was applied, and the storage writes complete by then. -/
structure Applied where
  handler : Handler
  status : Status
  completed : List Write

inductive State
  | linked
  | compacting
  | failed
deriving DecidableEq

structure Log where
  totalEntries : Nat
  obsoleteEntries : Nat
  current : Ext
  tupleStaging : List Cell
  encodingLengths : List Nat
  flushTimer : Bool
  flushCompletions : List Handler
  dirty : Bool
  flushing : Bool
  state : State
  /-- Set when a compaction has put a new log in this one's place. -/
  replaced : Bool
  /-- The merge of the running flush. -/
  mergeCount : Nat
  mergeStatus : Status
  /-- `log_flush` calls that have to take the lock again. -/
  relocking : Nat
  reserved : Nat
  pending : List Pending
  jobs : List Job
  /-- The entries accepted so far, the storage writes complete so far, and the
  handlers applied so far. -/
  entries : List (List UInt8)
  completed : List Write
  applied : List Applied

def Log.applyMerge (log : Log) : Log :=
  { log with mergeCount := log.mergeCount + 1 }

/-- `merge_join`: the last to join schedules `log_flush_complete`. -/
def Log.mergeJoin (log : Log) (status : Status) : Log :=
  let last := if status = .ok then log.mergeStatus else status
  { log with
    mergeCount := log.mergeCount - 1
    mergeStatus := last
    jobs := if log.mergeCount = 1 then log.jobs ++ [.flushComplete last] else log.jobs }

/-! ### Extensions -/

/-- The storage write of `flush_log_extension`; what the last block holds past
the end of the log is left out. -/
def Ext.flushed (ext : Ext) : Write where
  sector := ext.sector
  start := ext.start
  cells := (ext.staging ++ framing [endOfLog]).drop ext.start

/-- The extension after `flush_log_extension` without release: the next write
starts with the block the log ends in. -/
def Ext.advance (fs : Fs) (ext : Ext) : Ext :=
  { ext with start := ext.staging.length - ext.staging.length % 2 ^ fs.blocksizeOrder }

/-- `log_extension_init` of an extension that `open_log_extension` gave. -/
def Ext.init (fs : Fs) (sector span : Nat) : Ext where
  sector := sector
  span := span
  staging := framing (tfsMagic ++ varint tfsVersion ++ varint span ++
    if sector = 0 then fs.uuid ++ fs.label ++ [0] else [])
  start := 0
  oldEncoding := false

def Ext.linked (old : Ext) (sector span : Nat) : Ext :=
  { old with
    staging := old.staging ++ framing ([logExtensionLink] ++ varint sector ++ varint span) }

/-- `log_extend`; without space it fails, and the handler is told. -/
def Log.logExtend (fs : Fs) (log : Log) : Bool × Log :=
  match fs.reserve log.reserved with
  | none => (false, { log with reserved := log.reserved + 1 }.mergeJoin .failed)
  | some sector =>
    let span := tfsLogDefaultExtensionSize / 2 ^ fs.blocksizeOrder
    let new := Ext.init fs sector span
    (true, { log with
      reserved := log.reserved + 1
      current := new.advance fs
      pending := log.pending ++ [⟨new.flushed, .link log.current sector span⟩] })

/-! ### Staged entries -/

def Log.makeRoom (fs : Fs) (log : Log) : Bool × Log :=
  if log.current.size fs ≤
        log.current.staging.length + (tfsExtensionLinkBytes + tupleAvailableMinSize) ∨
      log.current.oldEncoding then
    log.applyMerge.logExtend fs
  else (true, log)

def Log.room (fs : Fs) (log : Log) (remaining : Nat) : Nat :=
  min (log.current.size fs -
    (log.current.staging.length + tfsExtensionLinkBytes + tupleAvailableHeaderSize)) remaining

/-- The next `length` staged bytes go to the current extension, the first part
of an entry with its whole length. -/
def Log.writePart (log : Log) (first : Bool) (remaining length : Nat) : Log :=
  let head :=
    if first then [tupleAvailable] ++ varint remaining ++ varint length
    else [tupleExtended] ++ varint length
  { log with
    current := { log.current with
      staging := log.current.staging ++ framing head ++ log.tupleStaging.take length }
    tupleStaging := log.tupleStaging.drop length }

/-- The inner loop of `log_write_internal`, which takes at least one byte a
time. -/
def Log.writeTuple (fs : Fs) : Nat → Bool → Nat → Log → Bool × Log
  | 0, _, _, log => (true, log)
  | steps + 1, first, remaining, log =>
    match log.makeRoom fs with
    | (false, log) => (false, log)
    | (true, log) =>
      let length := log.room fs remaining
      let log := log.writePart first remaining length
      if remaining - length = 0 then (true, log)
      else log.writeTuple fs steps false (remaining - length)

def Log.writeTuples (fs : Fs) : List Nat → Log → Bool × Log
  | [], log => (true, log)
  | remaining :: lengths, log =>
    match log.writeTuple fs remaining true remaining with
    | (false, log) => (false, log)
    | (true, log) => log.writeTuples fs lengths

def Log.logWriteInternal (fs : Fs) (log : Log) : Bool × Log :=
  match log.writeTuples fs log.encodingLengths with
  | (false, log) => (false, log)
  | (true, log) => (true, { log with encodingLengths := [] })

/-! ### Flushing -/

def Log.runFlushCompletions (log : Log) (status : Status) : Log :=
  { log with
    jobs := log.jobs ++ log.flushCompletions.map fun handler => .completion handler status
    flushCompletions := [] }

/-- `log_flush` takes the log for a flush, with the merge for its writes. -/
def Log.beginFlush (log : Log) : Log :=
  { log with
    flushTimer := false
    flushing := true
    mergeCount := 0
    mergeStatus := .ok }.applyMerge

def Log.writeCurrent (fs : Fs) (log : Log) : Log :=
  { log with
    current := log.current.advance fs
    pending := log.pending ++ [⟨log.current.flushed, .join⟩]
    relocking := log.relocking + 1 }

/-- `log_flush` from the point where it starts a flush to where it has to take
the lock again. -/
def Log.startFlush (fs : Fs) (log : Log) : Log :=
  match log.beginFlush.logWriteInternal fs with
  | (true, log) => log.writeCurrent fs
  | (false, log) => { log with state := .failed }.writeCurrent fs

def Log.logFlush (fs : Fs) (log : Log) (completion : Bool) : Log :=
  let handler : Handler := ⟨log.entries.length⟩
  if !log.dirty && log.state != .compacting then
    if completion then { log with jobs := log.jobs ++ [.completion handler .ok] } else log
  else
    let queued :=
      if completion then
        { log with flushCompletions := log.flushCompletions ++ [handler] }
      else log
    if log.flushing || log.state = .compacting then queued else queued.startFlush fs

/-- The rest of `log_flush`: when much of the log is obsolete, a compaction
begins, unless memory or space for the new log is missing. -/
def Log.relock (log : Log) (available : Bool) : Log :=
  { log with
    relocking := log.relocking - 1
    state :=
      if log.state = .linked ∧ tfsLogCompactObsolete ≤ log.obsoleteEntries ∧
          log.totalEntries ≤ tfsLogCompactRatio * log.obsoleteEntries ∧ available then
        .compacting
      else log.state }

def Log.logFlushComplete (log : Log) (status : Status) : Log :=
  let clean : Log := { log with dirty := false }
  { clean.runFlushCompletions status with flushing := false }

def Log.logSwitchComplete (log : Log) (status : Status) : Log :=
  let switched : Log :=
    { log with
      state := if status = .ok then log.state else .linked
      replaced := status = .ok }
  switched.runFlushCompletions status

def Log.logSetDirty (fs : Fs) (log : Log) : Log :=
  if log.dirty then
    if log.current.size fs / 2 ≤ log.tupleStaging.length then log.logFlush fs false else log
  else { log with dirty := true, flushTimer := true }

def Log.push (log : Log) (bytes : List UInt8) (total obsolete : Nat) : Log :=
  { log with
    tupleStaging := log.tupleStaging ++ entryCells log.entries.length bytes
    encodingLengths := log.encodingLengths ++ [bytes.length]
    totalEntries := log.totalEntries + total
    obsoleteEntries := log.obsoleteEntries + obsolete
    entries := log.entries ++ [bytes] }

def Log.stage (fs : Fs) (log : Log) (bytes : List UInt8) (total obsolete : Nat) : Log :=
  if log.state = .failed ∨ tfsLogMaxTupleStagingBytes ≤ log.tupleStaging.length then log
  else (log.push bytes total obsolete).logSetDirty fs

/-- `log_write_eav`; `obsolete` is what `encode_eav` adds. -/
def Log.logWriteEav (fs : Fs) (log : Log) (bytes : List UInt8) (obsolete : Nat) : Log :=
  log.stage fs bytes 1 obsolete

/-- `log_write`; `total` is what `encode_tuple` adds. -/
def Log.logWrite (fs : Fs) (log : Log) (bytes : List UInt8) (total : Nat) : Log :=
  log.stage fs bytes total 0

/-! ### The system -/

/-- A storage write completes: its bytes are on the device, and what waits for
it goes on. -/
def Log.completeWrite (log : Log) (index : Nat) (done : Pending) : Log :=
  let log := { log with
    pending := log.pending.eraseIdx index
    completed := log.completed ++ [done.write] }
  match done.next with
  | .join => log.mergeJoin .ok
  | .link old sector span =>
    { log with pending := log.pending ++ [⟨(old.linked sector span).flushed, .join⟩] }

def Log.runJob (log : Log) (index : Nat) (job : Job) : Log :=
  let log := { log with jobs := log.jobs.eraseIdx index }
  match job with
  | .flushComplete status => log.logFlushComplete status
  | .completion handler status =>
    { log with applied := log.applied ++ [⟨handler, status, log.completed⟩] }

inductive Label
  | write (bytes : List UInt8) (total : Nat)
  | writeEav (bytes : List UInt8) (obsolete : Nat)
  | flush (completion : Bool)
  | timer
  | complete (index : Nat)
  | run (index : Nat)
  | relock (available : Bool)
  | switched (status : Status)
deriving DecidableEq

/-- One call or one asynchronous event.  A log that a compaction has replaced
gets no more calls; the encoders always give at least one byte. -/
def Log.step (fs : Fs) (log : Log) : Label → Option Log
  | .write bytes total =>
    if log.replaced ∨ bytes = [] then none else some (log.logWrite fs bytes total)
  | .writeEav bytes obsolete =>
    if log.replaced ∨ bytes = [] then none else some (log.logWriteEav fs bytes obsolete)
  | .flush completion => if log.replaced then none else some (log.logFlush fs completion)
  | .timer => if log.replaced ∨ !log.flushTimer then none else some (log.logFlush fs false)
  | .complete index => (log.pending[index]?).map (log.completeWrite index)
  | .run index => (log.jobs[index]?).map (log.runJob index)
  | .relock available => if 0 < log.relocking then some (log.relock available) else none
  | .switched status =>
    if log.state = .compacting ∧ !log.replaced then some (log.logSwitchComplete status)
    else none

def Log.opened (current : Ext) (totalEntries obsoleteEntries : Nat) : Log where
  totalEntries := totalEntries
  obsoleteEntries := obsoleteEntries
  current := current
  tupleStaging := []
  encodingLengths := []
  flushTimer := false
  flushCompletions := []
  dirty := false
  flushing := false
  state := .linked
  replaced := false
  mergeCount := 0
  mergeStatus := .ok
  relocking := 0
  reserved := 0
  pending := []
  jobs := []
  entries := []
  completed := []
  applied := []

def system (fs : Fs) : TransitionSystem Log Label where
  initial log := ∃ current total obsolete, current.start = 0 ∧
    (∀ cell ∈ current.staging, cell.source = none) ∧ log = Log.opened current total obsolete
  step := Log.step fs

end Jerboa.Tlog
