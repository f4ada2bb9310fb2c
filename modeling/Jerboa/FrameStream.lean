import Jerboa.ByteSource
import Mathlib.Algebra.Group.Nat.Defs
import Mathlib.Data.List.Basic

/-!
# Framed streams

`internal/api/framing.go`: a stream of bytes sent over a connection as frames,
each with its length in front, and ended by a frame of length zero.  The reader
keeps how much of the current frame it has not returned yet as a `uint32`, and
compares that with the size of its buffer cut to 32 bits.
-/

namespace Jerboa.Framing

open List

def maxFrameSize : Nat := 67108864

/-- `binary.BigEndian.PutUint32` of `uint32(length)`. -/
def putUint32 (length : Nat) : List UInt8 :=
  [UInt8.ofNat (length / 16777216), UInt8.ofNat (length / 65536), UInt8.ofNat (length / 256),
    UInt8.ofNat length]

def uint32 : List UInt8 → UInt32
  | [a, b, c, d] =>
    UInt32.ofNat (a.toNat * 16777216 + b.toNat * 65536 + c.toNat * 256 + d.toNat)
  | _ => 0

/-! ### The writer -/

/-- The connection under a frame writer: what it has taken, and for each of the
next writes whether it fails. -/
structure Sink where
  written : List UInt8
  failures : List Bool

inductive WriteError
  | header
  | payload
  | terminator
deriving DecidableEq, Repr

def Sink.write (w : Sink) (p : List UInt8) : Option Sink :=
  if w.failures.headD false then none else some ⟨w.written ++ p, w.failures.tail⟩

def write (w : Sink) (p : List UInt8) : Except WriteError (Nat × Sink) :=
  if p.length = 0 then .ok (0, w)
  else
    match w.write (putUint32 p.length) with
    | none => .error .header
    | some w =>
      match w.write p with
      | none => .error .payload
      | some w => .ok (p.length, w)

def close (w : Sink) : Except WriteError Sink :=
  match w.write (putUint32 0) with
  | none => .error .terminator
  | some w => .ok w

/-- A sequence of writes and the `Close` at the end. -/
def send (w : Sink) : List (List UInt8) → Except WriteError Sink
  | [] => close w
  | p :: rest => do
      let (_, w) ← write w p
      send w rest

/-! ### The reader -/

structure FrameReader where
  remaining : UInt32
  done : Bool
deriving DecidableEq, Repr

/-- The errors of the frame reader; `io.EOF` is the one that ends the stream. -/
inductive ReadError
  | eof
  | header (cause : ByteSource.Error)
  | frameTooLarge (n : UInt32)
  | payload (cause : ByteSource.Error)
deriving DecidableEq, Repr

def newFrameReader : FrameReader :=
  ⟨0, false⟩

/-- The first part of `Read`: at the end of a frame, the header of the next. -/
def FrameReader.nextFrame (fr : FrameReader) (r : ByteSource) :
    Option ReadError × FrameReader × ByteSource :=
  if fr.remaining = 0 then
    let (hdr, failed, r) := r.readFull 4
    match failed with
    | some cause => (some (.header cause), fr, r)
    | none =>
      let n := uint32 hdr
      if n = 0 then (some .eof, ⟨fr.remaining, true⟩, r)
      else if maxFrameSize < n.toNat then (some (.frameTooLarge n), fr, r)
      else (none, ⟨n, fr.done⟩, r)
  else (none, fr, r)

def FrameReader.read (fr : FrameReader) (r : ByteSource) (size : Nat) :
    List UInt8 × Option ReadError × FrameReader × ByteSource :=
  if fr.done then ([], some .eof, fr, r)
  else
    match fr.nextFrame r with
    | (some failure, fr, r) => ([], some failure, fr, r)
    | (none, fr, r) =>
      -- the comparison sees the low 32 bits of the size only
      let toRead := if fr.remaining < UInt32.ofNat size then fr.remaining.toNat else size
      let (bytes, failed, r) := r.read toRead
      (bytes, failed.map .payload, ⟨fr.remaining - UInt32.ofNat bytes.length, fr.done⟩, r)

structure Received where
  bytes : List UInt8
  failure : Option ReadError
  source : ByteSource

def FrameReader.readAll (fr : FrameReader) (r : ByteSource) : List Nat → Received
  | [] => ⟨[], none, r⟩
  | size :: sizes =>
    match fr.read r size with
    | (bytes, some failure, _, r) => ⟨bytes, some failure, r⟩
    | (bytes, none, fr, r) =>
      let later := fr.readAll r sizes
      ⟨bytes ++ later.bytes, later.failure, later.source⟩

/-! ### Frames on the wire -/

def frame (chunk : List UInt8) : List UInt8 :=
  putUint32 chunk.length ++ chunk

variable {length : Nat} {rest chunk : List UInt8}

theorem uint32_putUint32 (small : length < 4294967296) :
    (uint32 (putUint32 length)).toNat = length := by
  simp only [uint32, putUint32, UInt8.toNat_ofNat', UInt32.toNat_ofNat']
  omega

theorem write_of_ne_nil {w : Sink} {p : List UInt8} (reliable : w.failures = [])
    (some : p ≠ []) : write w p = .ok (p.length, ⟨w.written ++ frame p, []⟩) := by
  have length : p.length ≠ 0 := fun none => some (length_eq_zero_iff.mp none)
  simp [write, length, Sink.write, reliable, frame]

/-- A connection that never fails gets one frame for every chunk that is not
empty, and the terminator. -/
theorem send_eq {w : Sink} (reliable : w.failures = []) (chunks : List (List UInt8)) :
    send w chunks =
      .ok ⟨w.written ++ ((chunks.filter (· ≠ [])).flatMap frame ++ putUint32 0), []⟩ := by
  induction chunks generalizing w with
  | nil => simp [send, close, Sink.write, reliable]
  | cons p rest ih =>
    by_cases nothing : p = []
    · subst nothing
      have skipped : write w [] = .ok (0, w) := rfl
      have sent : send w ([] :: rest) = send w rest := by
        rw [send, skipped]
        rfl
      rw [sent, ih reliable]
      simp
    · have sent : send w (p :: rest) = send ⟨w.written ++ frame p, []⟩ rest := by
        rw [send, write_of_ne_nil reliable nothing]
        rfl
      rw [sent, ih rfl]
      simp [nothing]

/-! ### One read -/

/-- A buffer size whose low 32 bits are compared with the rest of a frame as the
size itself would be. -/
def Comparable (size : Nat) : Prop :=
  size < 4294967296 ∨ maxFrameSize < size % 4294967296

instance (size : Nat) : Decidable (Comparable size) :=
  inferInstanceAs (Decidable (_ ∨ _))

/-- The reader is at the end of `current`, with the frames `later` and the
trailing data still to come. -/
structure Ahead (current : List UInt8) (later : List (List UInt8)) (trailing : List UInt8)
    (fr : FrameReader) (r : ByteSource) : Prop where
  going : fr.done = false
  left : fr.remaining.toNat = current.length
  small : current.length ≤ maxFrameSize
  frames : ∀ chunk ∈ later, chunk ≠ [] ∧ chunk.length ≤ maxFrameSize
  pending : r.pending = current ++ (later.flatMap frame ++ (putUint32 0 ++ trailing))

variable {current trailing : List UInt8} {later : List (List UInt8)} {fr : FrameReader}
  {r : ByteSource} {size : Nat}

theorem readFull_header (pending : r.pending = putUint32 length ++ rest) :
    ∃ after, r.readFull 4 = (putUint32 length, none, after) ∧ after.pending = rest ∧
      (r.shorts = [] → after.shorts = []) := by
  have there : 4 ≤ r.pending.length := by simp [pending, putUint32]
  obtain ⟨after, reads, left, full⟩ := ByteSource.readFull_eq there
  refine ⟨after, ?_, ?_, full⟩
  · simpa [pending, putUint32] using reads
  · simpa [pending, putUint32] using left

theorem Ahead.nextFrame_nil (ahead : Ahead [] [] trailing fr r) :
    ∃ after, fr.nextFrame r = (some .eof, ⟨fr.remaining, true⟩, after) ∧
      after.pending = trailing := by
  have finished : fr.remaining = 0 := UInt32.toNat_inj.mp ahead.left
  obtain ⟨after, reads, left, -⟩ := readFull_header (by simpa using ahead.pending)
  refine ⟨after, ?_, left⟩
  rw [FrameReader.nextFrame, if_pos finished, reads]
  rfl

theorem Ahead.remaining_ne (ahead : Ahead current later trailing fr r) (nonempty : current ≠ []) :
    fr.remaining ≠ 0 := by
  intro zero
  have left := ahead.left
  rw [zero] at left
  exact nonempty (length_eq_zero_iff.mp left.symm)

/-- Within a frame `Read` needs no header. -/
theorem Ahead.read_within (ahead : Ahead current later trailing fr r) (nonempty : current ≠ [])
    {toRead : Nat} {after : ByteSource} {bytes : List UInt8} {failed : Option ByteSource.Error}
    (compared :
      (if fr.remaining < UInt32.ofNat size then fr.remaining.toNat else size) = toRead)
    (reads : r.read toRead = (bytes, failed, after)) :
    fr.read r size =
      (bytes, failed.map .payload, ⟨fr.remaining - UInt32.ofNat bytes.length, fr.done⟩,
        after) := by
  rw [FrameReader.read, if_neg (by simp [ahead.going]), FrameReader.nextFrame,
    if_neg (ahead.remaining_ne nonempty)]
  simp only [compared, reads]

/-- At the end of a frame `Read` goes on as if it had begun in the next one. -/
theorem Ahead.read_next (ahead : Ahead [] (chunk :: later) trailing fr r) :
    ∃ started after, (∀ size, fr.read r size = started.read after size) ∧ chunk ≠ [] ∧
      Ahead chunk later trailing started after ∧ (r.shorts = [] → after.shorts = []) := by
  have finished : fr.remaining = 0 := UInt32.toNat_inj.mp ahead.left
  obtain ⟨nonempty, small⟩ := ahead.frames chunk mem_cons_self
  have length : (uint32 (putUint32 chunk.length)).toNat = chunk.length :=
    uint32_putUint32 (by simp only [maxFrameSize] at small; omega)
  have pending : r.pending = putUint32 chunk.length ++
      (chunk ++ (later.flatMap frame ++ (putUint32 0 ++ trailing))) := by
    simpa [frame] using ahead.pending
  obtain ⟨after, reads, left, full⟩ := readFull_header pending
  have opened : Ahead chunk later trailing ⟨uint32 (putUint32 chunk.length), fr.done⟩ after :=
    ⟨ahead.going, length, small,
      (forall_mem_cons.mp ahead.frames).2, left⟩
  have positive : uint32 (putUint32 chunk.length) ≠ 0 := opened.remaining_ne nonempty
  refine ⟨_, after, fun size => ?_, nonempty, opened, full⟩
  have header : fr.nextFrame r = (none, ⟨uint32 (putUint32 chunk.length), fr.done⟩, after) := by
    rw [FrameReader.nextFrame, if_pos finished, reads]
    simp only [positive, if_false]
    rw [if_neg (by omega)]
  rw [FrameReader.read, FrameReader.read, header, FrameReader.nextFrame, if_neg positive,
    if_neg (by simp [ahead.going]), if_neg (by simp [ahead.going])]

theorem toRead_le {remaining : UInt32} (comparable : Comparable size)
    (small : remaining.toNat ≤ maxFrameSize) :
    (if remaining < UInt32.ofNat size then remaining.toNat else size) ≤ remaining.toNat := by
  split
  · exact Nat.le_refl _
  · rename_i below
    rw [UInt32.lt_iff_toNat_lt, UInt32.toNat_ofNat'] at below
    rcases comparable with fits | high
    · rw [Nat.mod_eq_of_lt fits] at below
      omega
    · omega

section

variable (ahead : Ahead current later trailing fr r)

include ahead

theorem Ahead.read_current (nonempty : current ≠ [])
    (positive : 0 < size) (comparable : Comparable size) :
    ∃ bytes rest started after,
      fr.read r size = (bytes, none, started, after) ∧ bytes ≠ [] ∧ current = bytes ++ rest ∧
        Ahead rest later trailing started after ∧ (r.shorts = [] → after.shorts = []) := by
  have length := length_pos_iff.mpr nonempty
  have more : r.pending ≠ [] := by simp [ahead.pending, nonempty]
  have bound := toRead_le comparable (ahead.left ▸ ahead.small)
  have asked : 0 < if fr.remaining < UInt32.ofNat size then fr.remaining.toNat else size := by
    split
    · rw [ahead.left]
      exact length
    · exact positive
  obtain ⟨n, failed, after, reads, some, atMost, -, left, failure, full⟩ :=
    ByteSource.read_eq asked more
  have within : n ≤ current.length := by
    rw [← ahead.left]
    exact Nat.le_trans atMost bound
  have taken : r.pending.take n = current.take n := by
    rw [ahead.pending, take_append_of_le_length within]
  have dropped : r.pending.drop n =
      current.drop n ++ (later.flatMap frame ++ (putUint32 0 ++ trailing)) := by
    rw [ahead.pending, drop_append_of_le_length within]
  have going : failed = none := by
    apply failure
    rw [dropped]
    simp [putUint32]
  have small := ahead.small
  have whole : (UInt32.ofNat n).toNat = n := by
    rw [UInt32.toNat_ofNat']
    simp only [maxFrameSize] at small
    omega
  have covered : UInt32.ofNat n ≤ fr.remaining := by
    rw [UInt32.le_iff_toNat_le, whole, ahead.left]
    exact within
  refine ⟨current.take n, current.drop n, ⟨fr.remaining - UInt32.ofNat n, fr.done⟩, after, ?_, ?_,
    (take_append_drop n current).symm,
    ⟨ahead.going, ?_, ?_, ahead.frames, left.trans dropped⟩, fun whole => (full whole).1⟩
  · rw [ahead.read_within nonempty rfl reads]
    simp only [going, taken, length_take, Nat.min_eq_left within, Option.map_none]
  · rw [← length_pos_iff, length_take]
    omega
  · rw [UInt32.toNat_sub_of_le _ _ covered, whole, ahead.left, length_drop]
  · rw [length_drop]
    omega

theorem Ahead.read (positive : 0 < size)
    (comparable : Comparable size) :
    (∃ bytes rest frames started after,
        fr.read r size = (bytes, none, started, after) ∧ bytes ≠ [] ∧
          current ++ later.flatten = bytes ++ (rest ++ frames.flatten) ∧
            Ahead rest frames trailing started after) ∨
      current ++ later.flatten = [] ∧
        ∃ started after, fr.read r size = ([], some .eof, started, after) ∧
          after.pending = trailing := by
  by_cases unfinished : current ≠ []
  · obtain ⟨bytes, rest, started, after, reads, some, split, next, -⟩ :=
      ahead.read_current unfinished positive comparable
    exact .inl ⟨bytes, rest, later, started, after, reads, some, by simp [split], next⟩
  · rw [not_not] at unfinished
    subst unfinished
    cases later with
    | nil =>
      obtain ⟨after, header, left⟩ := ahead.nextFrame_nil
      refine .inr ⟨rfl, ⟨fr.remaining, true⟩, after, ?_, left⟩
      rw [FrameReader.read, if_neg (by simp [ahead.going]), header]
    | cons chunk later =>
      obtain ⟨begun, middle, same, nonempty, opened, -⟩ := ahead.read_next
      obtain ⟨bytes, rest, started, after, reads, some, split, next, -⟩ :=
        opened.read_current nonempty positive comparable
      exact .inl ⟨bytes, rest, later, started, after, (same size).trans reads, some,
        by simp [split], next⟩

end

/-- What was received is the text and its end, with the connection behind the
terminator, or, after no more reads than the text has bytes, a beginning of it. -/
def Delivered (text trailing : List UInt8) (reads : Nat) (received : Received) : Prop :=
  received.failure = none ∧ received.bytes <+: text ∧ reads ≤ text.length ∨
    received.failure = some .eof ∧ received.bytes = text ∧ received.source.pending = trailing

instance (text trailing : List UInt8) (reads : Nat) (received : Received) :
    Decidable (Delivered text trailing reads received) :=
  inferInstanceAs (Decidable (_ ∨ _))

theorem Ahead.readAll (ahead : Ahead current later trailing fr r) (sizes : List Nat)
    (positive : ∀ size ∈ sizes, 0 < size) (comparable : ∀ size ∈ sizes, Comparable size) :
    Delivered (current ++ later.flatten) trailing sizes.length (fr.readAll r sizes) := by
  induction sizes generalizing current later fr r with
  | nil => exact .inl ⟨rfl, nil_prefix, Nat.zero_le _⟩
  | cons size sizes ih =>
    rcases ahead.read (positive size mem_cons_self)
        (comparable size mem_cons_self) with
      ⟨bytes, rest, frames, started, after, reads, some, split, next⟩ |
        ⟨nothing, started, after, reads, left⟩
    · have length := length_pos_iff.mpr some
      simp only [FrameReader.readAll, reads, split]
      rcases ih next (forall_mem_cons.mp positive).2
          (forall_mem_cons.mp comparable).2 with
        ⟨going, part, bound⟩ | ⟨ended, all, behind⟩
      · refine .inl ⟨going, prefix_append_right_inj bytes |>.mpr part, ?_⟩
        simp only [length_append, length_cons] at bound ⊢
        omega
      · exact .inr ⟨ended, by simp [all], behind⟩
    · simp only [FrameReader.readAll, reads]
      exact .inr ⟨rfl, nothing.symm, left⟩

/-! ### A buffer that is too large -/

/-- A buffer that compares as smaller than the frame takes what follows the
frame, too. -/
theorem Ahead.read_large (ahead : Ahead current later trailing fr r) (nonempty : current ≠ [])
    (full : r.shorts = []) (large : current.length < size)
    (low : size % 4294967296 ≤ current.length) :
    (fr.read r size).1 = r.pending.take size := by
  have more : r.pending ≠ [] := by simp [ahead.pending, nonempty]
  have compared : ¬ fr.remaining < UInt32.ofNat size := by
    rw [UInt32.lt_iff_toNat_lt, UInt32.toNat_ofNat', ahead.left]
    omega
  obtain ⟨n, failed, after, reads, -, -, -, -, -, whole⟩ :=
    ByteSource.read_eq (Nat.zero_lt_of_lt large) more
  rw [ahead.read_within nonempty (if_neg compared) reads, (whole full).2, ← take_eq_take_min]

theorem read_isPrefix (fr : FrameReader) (r : ByteSource) (size : Nat) (sizes : List Nat) :
    (fr.read r size).1 <+: (fr.readAll r (size :: sizes)).bytes := by
  rw [FrameReader.readAll]
  split <;> simp_all

theorem Ahead.overread (ahead : Ahead [] [chunk] [] fr r) (full : r.shorts = [])
    (large : chunk.length < size) (low : size % 4294967296 ≤ chunk.length) (sizes : List Nat) :
    chunk.length < (fr.readAll r (size :: sizes)).bytes.length := by
  obtain ⟨started, after, same, nonempty, opened, fuller⟩ := ahead.read_next
  have received := (read_isPrefix fr r size sizes).length_le
  have terminator : (putUint32 0).length = 4 := rfl
  rw [same, opened.read_large nonempty (fuller full) large low, opened.pending] at received
  simp only [flatMap_nil, nil_append, append_nil, length_take,
    length_append, terminator] at received
  omega

/-- Whatever the sizes before it, a buffer whose size does not compare as it
should can be made to take more than the text. -/
theorem exists_overread (sizes : List Nat) (positive : ∀ size ∈ sizes, 0 < size)
    (large : ∃ size ∈ sizes, ¬ Comparable size) :
    ∃ chunks : List (List UInt8),
      (∀ chunk ∈ chunks, chunk ≠ [] ∧ chunk.length ≤ maxFrameSize) ∧
        ∀ fr r, Ahead [] chunks [] fr r → r.shorts = [] →
          chunks.flatten.length < (fr.readAll r sizes).bytes.length := by
  induction sizes with
  | nil => simp at large
  | cons size sizes ih =>
    rw [forall_mem_cons] at positive
    by_cases comparable : Comparable size
    · have later : ∃ size ∈ sizes, ¬ Comparable size := by
        obtain ⟨bad, inside, incomparable⟩ := large
        rcases mem_cons.mp inside with rfl | inside
        · exact absurd comparable incomparable
        · exact ⟨bad, inside, incomparable⟩
      obtain ⟨chunks, proper, more⟩ := ih positive.2 later
      refine ⟨[0] :: chunks, ?_, fun fr r ahead full => ?_⟩
      · exact forall_mem_cons.mpr ⟨⟨by simp, by decide⟩, proper⟩
      · -- the buffer takes the frame of one byte, and no more
        obtain ⟨begun, middle, same, nonempty, opened, fuller⟩ := ahead.read_next
        obtain ⟨bytes, rest, started, after, reads, some, split, next, fullest⟩ :=
          opened.read_current nonempty positive.1 comparable
        obtain ⟨rfl, rfl⟩ : bytes = [0] ∧ rest = [] := by
          cases bytes <;> simp_all
        have received := more _ _ next (fullest (fuller full))
        simp only [FrameReader.readAll, same, reads, flatten_cons, singleton_append,
          length_cons]
        omega
    · simp only [Comparable, maxFrameSize, not_or, Nat.not_lt] at comparable
      have length : (List.replicate (max 1 (size % 4294967296)) (0 : UInt8)).length =
          max 1 (size % 4294967296) := length_replicate
      refine ⟨[List.replicate (max 1 (size % 4294967296)) 0], ?_, fun fr r ahead full => ?_⟩
      · rw [forall_mem_singleton, ← length_pos_iff, length, maxFrameSize]
        omega
      · rw [flatten_singleton]
        exact ahead.overread full (by omega) (by omega) sizes

/-! ### The stream -/

/-- What the comment above `frameReader` promises, for buffers of these sizes:
whatever is written in whatever chunks, whatever follows on the connection and
however the bytes arrive, the reads deliver what was written. -/
def Faithful (sizes : List Nat) : Prop :=
  ∀ chunks : List (List UInt8), (∀ chunk ∈ chunks, chunk.length ≤ maxFrameSize) →
    ∃ w, send ⟨[], []⟩ chunks = .ok w ∧ ∀ (trailing : List UInt8) (shorts : List Nat) (eager : Bool),
      Delivered chunks.flatten trailing sizes.length
        (newFrameReader.readAll ⟨w.written ++ trailing, shorts, eager⟩ sizes)

theorem flatten_filter_ne_nil (chunks : List (List UInt8)) :
    (chunks.filter (· ≠ [])).flatten = chunks.flatten := by
  induction chunks with
  | nil => rfl
  | cons chunk chunks ih =>
    by_cases nothing : chunk = [] <;> simp_all

/-- The reader returns exactly what was written, then the end of the stream, if
and only if no buffer is so large that the low 32 bits of its size are at most
the length of the largest frame. -/
theorem frames_delivered_iff (sizes : List Nat) (positive : ∀ size ∈ sizes, 0 < size) :
    Faithful sizes ↔ ∀ size ∈ sizes, size < 2 ^ 32 ∨ maxFrameSize < size % 2 ^ 32 := by
  constructor
  · intro faithful
    by_contra bad
    simp only [not_forall, not_or, Nat.not_lt, exists_prop] at bad
    obtain ⟨chunks, proper, more⟩ := exists_overread sizes positive (by
      obtain ⟨size, inside, large, low⟩ := bad
      exact ⟨size, inside, by simp only [Comparable]; omega⟩)
    obtain ⟨w, sent, delivered⟩ := faithful chunks fun chunk inside => (proper chunk inside).2
    have all : chunks.filter (· ≠ []) = chunks :=
      filter_eq_self.mpr fun chunk inside => by simpa using (proper chunk inside).1
    rw [send_eq rfl, all] at sent
    cases sent
    have longer := more newFrameReader
      ⟨[] ++ (chunks.flatMap frame ++ putUint32 0) ++ [], [], false⟩
      ⟨rfl, rfl, Nat.zero_le _, proper, by simp⟩ rfl
    rcases delivered [] [] false with ⟨-, part, -⟩ | ⟨-, same, -⟩
    · exact absurd part.length_le (Nat.not_le.mpr longer)
    · exact absurd (congrArg List.length same) (Nat.ne_of_gt longer)
  · intro comparable chunks small
    refine ⟨_, send_eq rfl chunks, ?_⟩
    intro trailing shorts eager
    have start : Ahead [] (chunks.filter (· ≠ [])) trailing newFrameReader
        ⟨[] ++ ((chunks.filter (· ≠ [])).flatMap frame ++ putUint32 0) ++ trailing, shorts,
          eager⟩ := by
      refine ⟨rfl, rfl, Nat.zero_le _, ?_, by simp⟩
      intro chunk inside
      obtain ⟨listed, nonempty⟩ := mem_filter.mp inside
      exact ⟨by simpa using nonempty, small chunk listed⟩
    have delivered := start.readAll sizes positive comparable
    rwa [nil_append, flatten_filter_ne_nil] at delivered

theorem frames_delivered_two_buffers : Faithful [32768, 5] := by
  refine (frames_delivered_iff [32768, 5] ?_).mpr ?_
  · decide
  · decide

/-- One byte is written, and a buffer of 4 GiB takes the terminator with it. -/
theorem large_buffer_reads_terminator : ¬ Faithful [4294967296] := by
  intro faithful
  obtain ⟨w, sent, delivered⟩ := faithful [[7]] (by decide)
  obtain rfl : ⟨[0, 0, 0, 1, 7, 0, 0, 0, 0], []⟩ = w := Except.ok.inj sent
  have received : (newFrameReader.readAll ⟨[0, 0, 0, 1, 7, 0, 0, 0, 0], [], false⟩
      [4294967296]).bytes = [7, 0, 0, 0, 0] := by decide
  rcases delivered [] [] false with ⟨-, part, -⟩ | ⟨-, same, -⟩
  · exact absurd part.length_le (by simp [received])
  · exact absurd same (by simp [received])

end Jerboa.Framing
