import Mathlib.Data.List.Basic

/-!
# Byte sources with short reads

A reader of a byte stream in the manner of an operating system: a read returns
at least one byte and at most as many as it was asked for, and it may return
fewer than there are.  Reading a fixed number of bytes repeats such reads until
they have all arrived.
-/

structure ByteSource where
  pending : List UInt8
  /-- Each of the next reads returns at most one byte more than its entry; reads
  beyond the list return as much as they can. -/
  shorts : List Nat
  /-- The end of the stream is reported together with its last bytes. -/
  eager : Bool
deriving DecidableEq, Repr

namespace ByteSource

open List

inductive Error
  | eof
  | unexpectedEOF
deriving DecidableEq, Repr

def granted (s : ByteSource) (size : Nat) : Nat :=
  match s.shorts with
  | [] => min size s.pending.length
  | short :: _ => min (short + 1) (min size s.pending.length)

def read (s : ByteSource) (size : Nat) : List UInt8 × Option Error × ByteSource :=
  if size = 0 then ([], none, s)
  else if s.pending = [] then ([], some .eof, s)
  else
    let n := s.granted size
    let rest := s.pending.drop n
    (s.pending.take n, if s.eager && rest.isEmpty then some .eof else none,
      ⟨rest, s.shorts.tail, s.eager⟩)

/-- Reads until `need` more bytes have arrived after the `got` that are there;
every read brings at least one, so `need` reads are enough. -/
def readAtLeast : Nat → Nat → Nat → ByteSource → List UInt8 × Option Error × ByteSource
  | 0, _, _, s => ([], none, s)
  | fuel + 1, got, need, s =>
    let (bytes, failed, s) := s.read need
    if need ≤ bytes.length then (bytes, none, s)
    else
      match failed with
      | some _ => (bytes, some (if got + bytes.length = 0 then .eof else .unexpectedEOF), s)
      | none =>
        let (more, failed, s) :=
          readAtLeast fuel (got + bytes.length) (need - bytes.length) s
        (bytes ++ more, failed, s)

def readFull (s : ByteSource) (need : Nat) : List UInt8 × Option Error × ByteSource :=
  readAtLeast need 0 need s

variable {s : ByteSource} {size need : Nat}

theorem granted_pos (positive : 0 < size) (more : s.pending ≠ []) : 0 < s.granted size := by
  have length := length_pos_iff.mpr more
  unfold granted
  split <;> omega

theorem granted_le (s : ByteSource) (size : Nat) :
    s.granted size ≤ size ∧ s.granted size ≤ s.pending.length := by
  unfold granted
  split <;> omega

/-- A read takes some bytes from the front, and all that fit if no reads are
short; it reports the end of the stream only if none are left. -/
theorem read_eq (positive : 0 < size) (more : s.pending ≠ []) :
    ∃ n failed after, s.read size = (s.pending.take n, failed, after) ∧
      0 < n ∧ n ≤ size ∧ n ≤ s.pending.length ∧ after.pending = s.pending.drop n ∧
        (s.pending.drop n ≠ [] → failed = none) ∧
          (s.shorts = [] → after.shorts = [] ∧ n = min size s.pending.length) := by
  obtain ⟨atMost, available⟩ := granted_le s size
  have reads : s.read size = (s.pending.take (s.granted size),
      if s.eager && (s.pending.drop (s.granted size)).isEmpty then some .eof else none,
      ⟨s.pending.drop (s.granted size), s.shorts.tail, s.eager⟩) := by
    rw [read, if_neg (by omega), if_neg more]
  refine ⟨s.granted size, _, _, reads, granted_pos positive more, atMost, available, rfl, ?_, ?_⟩
  · intro left
    simp only [isEmpty_eq_false_iff.mpr left, Bool.and_false, Bool.false_eq_true, if_false]
  · intro full
    simp [granted, full]

theorem readAtLeast_eq {fuel got : Nat} (enough : need ≤ fuel) (there : need ≤ s.pending.length) :
    ∃ after, readAtLeast fuel got need s = (s.pending.take need, none, after) ∧
      after.pending = s.pending.drop need ∧ (s.shorts = [] → after.shorts = []) := by
  induction fuel generalizing got need s with
  | zero =>
    obtain rfl : need = 0 := by omega
    exact ⟨s, rfl, rfl, id⟩
  | succ fuel ih =>
    by_cases nothing : need = 0
    · subst nothing
      exact ⟨s, rfl, rfl, id⟩
    have more : s.pending ≠ [] := by
      intro none
      simp [none] at there
      omega
    obtain ⟨n, failed, after, reads, some, atMost, available, left, failure, full⟩ :=
      read_eq (Nat.pos_of_ne_zero nothing) more
    have length : (s.pending.take n).length = n := by
      rw [length_take]
      omega
    rw [readAtLeast, reads]
    simp only [length]
    by_cases all : need ≤ n
    · obtain rfl : n = need := by omega
      exact ⟨after, if_pos (Nat.le_refl n), left, fun whole => (full whole).1⟩
    · have rest : s.pending.drop n ≠ [] := by
        rw [← length_pos_iff, length_drop]
        omega
      have room : need - n ≤ after.pending.length := by
        rw [left, length_drop]
        omega
      obtain ⟨final, reads, pending, later⟩ := @ih after _ (got + n) (by omega) room
      refine ⟨final, ?_, ?_, fun whole => later (full whole).1⟩
      · rw [if_neg all, failure rest]
        simp only [reads, left]
        rw [← take_append_drop n (s.pending.take need), take_take, drop_take,
          Nat.min_eq_left atMost]
      · rw [pending, left, drop_drop]
        congr 1
        omega

theorem readFull_eq (there : need ≤ s.pending.length) :
    ∃ after, s.readFull need = (s.pending.take need, none, after) ∧
      after.pending = s.pending.drop need ∧ (s.shorts = [] → after.shorts = []) :=
  readAtLeast_eq (Nat.le_refl need) there

end ByteSource
