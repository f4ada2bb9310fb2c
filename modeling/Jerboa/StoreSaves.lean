import Jerboa.LockHolder
import Jerboa.VMRecordStore

/-!
# Saves that race with a removal

Monitors, health checks and managers save a VM at any time, each of them in a
goroutine of its own, while somebody removes it.  `Save` looks the VM up again
under the mutex of the store, so what `Remove` has deleted stays deleted.
-/

namespace Jerboa.Daemon

open Vm Function

inductive SavePc
  | idle
  /-- `Save` has locked the store and calls `Get`. -/
  | saveGet
  | saveRead
  | saveMkdir (st : VMState)
  | saveTmp (st : VMState)
  | saveRename (st : VMState)
  | saveUpsert (st : VMState)
  | saveUnlock
  | removeMemory
  | removeRecord
  | removeUnlock
  | removeFailed
  | removed
  | refused
  /-- The goroutine has locked the store for another VM. -/
  | otherVM
  /-- The goroutine has locked the VM and sets fields of it. -/
  | changing
deriving DecidableEq

def SavePc.locksStore : SavePc → Bool
  | .idle => false
  | .removed => false
  | .refused => false
  | .changing => false
  | _ => true

/-- The state that a `Save` has read and not yet written. -/
def SavePc.saving : SavePc → Option VMState
  | .saveMkdir st => some st
  | .saveTmp st => some st
  | .saveRename st => some st
  | .saveUpsert st => some st
  | _ => none

theorem SavePc.saving_of_outside {pc : SavePc} (outside : pc.locksStore = false) :
    pc.saving = none := by
  cases pc with
  | idle | removed | refused | changing => rfl
  | _ => exact Bool.noConfusion outside

/-- What goroutines do next; one that is inside a call goes on with it. -/
inductive SaveMove
  | callSave
  | callRemove
  | callOther
  | lockVM
  | setVM (v : VM)
  | goOn

structure SaveState (time : TimeText) (kind : StoreKind) where
  /-- `Get` finds the VM. -/
  registered : Bool
  vm : VM
  vmMu : Option ThreadId
  storeMu : Option ThreadId
  dir : Bool
  /-- `state.json.tmp`. -/
  tmp : Option (recordFormat time kind).Record
  /-- `state.json`, or the row. -/
  record : Option (recordFormat time kind).Record
  removeCalled : Bool
  threads : ThreadId → SavePc
  /-- `Remove` has deleted the record; the program does not keep this. -/
  deleted : Bool
  /-- The state that the last `Save` has read, and the state that was written
  last; the program keeps neither. -/
  lastRead : Option VMState
  lastWritten : Option VMState

namespace SaveState

variable {time : TimeText} {kind : StoreKind}

def goTo (s : SaveState time kind) (t : ThreadId) (pc : SavePc) : SaveState time kind :=
  { s with threads := update s.threads t pc }

def lock (s : SaveState time kind) (t : ThreadId) (pc : SavePc) : Option (SaveState time kind) :=
  if s.storeMu = none then some { s.goTo t pc with storeMu := some t } else none

def unlock (s : SaveState time kind) (t : ThreadId) (pc : SavePc) : SaveState time kind :=
  { s.goTo t pc with storeMu := none }

/-- The next step of a goroutine, with its effects in the order of `writeState`,
`writeVM` and `Remove`. -/
def next (s : SaveState time kind) (t : ThreadId) : SavePc → SaveMove → Option (SaveState time kind)
  | .idle, .callSave => s.lock t .saveGet
  | .idle, .callRemove =>
    if s.removeCalled then none
    else { s with removeCalled := true }.lock t .removeMemory
  | .idle, .callOther => s.lock t .otherVM
  | .idle, .lockVM =>
    if s.vmMu = none then some { s.goTo t .changing with vmMu := some t } else none
  | .changing, .setVM v =>
    if v.id = s.vm.id ∧ v.createdAt = s.vm.createdAt then some { s with vm := v } else none
  | .changing, .goOn => some { s.goTo t .idle with vmMu := none }
  | .otherVM, .goOn => some (s.unlock t .idle)
  | .saveGet, .goOn => some (s.goTo t (if s.registered then .saveRead else .saveUnlock))
  | .saveRead, .goOn =>
    if s.vmMu = none then
      some { s.goTo t (match kind with
        | .file => .saveMkdir s.vm.snapshot
        | .sqlite => .saveUpsert s.vm.snapshot) with lastRead := some s.vm.snapshot }
    else none
  | .saveMkdir st, .goOn => some { s.goTo t (.saveTmp st) with dir := true }
  | .saveTmp st, .goOn =>
    some { s.goTo t (.saveRename st) with tmp := some ((recordFormat time kind).write none st) }
  | .saveRename st, .goOn =>
    some { s.goTo t .saveUnlock with record := s.tmp, tmp := none, lastWritten := some st }
  | .saveUpsert st, .goOn =>
    some { s.goTo t .saveUnlock with
      record := some ((recordFormat time kind).write s.record st)
      lastWritten := some st }
  | .saveUnlock, .goOn => some (s.unlock t .idle)
  | .removeMemory, .goOn =>
    some (if s.registered then { s.goTo t .removeRecord with registered := false }
      else s.goTo t .removeFailed)
  | .removeRecord, .goOn =>
    some { s.goTo t .removeUnlock with dir := false, tmp := none, record := none, deleted := true }
  | .removeUnlock, .goOn => some (s.unlock t .removed)
  | .removeFailed, .goOn => some (s.unlock t .refused)
  | _, _ => none

def restored (s : SaveState time kind) (host : Host) : Option VM :=
  (s.record.bind (recordFormat time kind).read).map (restoreVM host)

end SaveState

def saveSystem (time : TimeText) (kind : StoreKind) :
    TransitionSystem (SaveState time kind) (ThreadId × SaveMove) where
  initial s := s.registered = true ∧ s.vmMu = none ∧ s.storeMu = none ∧ s.dir = false ∧
    s.tmp = none ∧ s.record = none ∧ s.removeCalled = false ∧ (∀ t, s.threads t = .idle) ∧
    s.deleted = false ∧ s.lastRead = none ∧ s.lastWritten = none
  step s label := s.next label.1 (s.threads label.1) label.2

namespace SaveState

variable {time : TimeText} {kind : StoreKind}

/-! ### What holds inside the calls -/

structure Saving (s : SaveState time kind) (st : VMState) : Prop where
  registered : s.registered = true
  created : st.createdAt = s.vm.createdAt
  read : s.lastRead = some st

def Stage (s : SaveState time kind) : SavePc → Prop
  | .saveRead => s.registered = true
  | .saveMkdir st => s.Saving st
  | .saveTmp st => s.Saving st
  | .saveRename st => s.Saving st ∧ s.tmp = some ((recordFormat time kind).write none st)
  | .saveUpsert st => s.Saving st
  | .removeRecord => s.registered = false
  | .removeUnlock => s.deleted = true
  | .removed => s.deleted = true
  | _ => True

/-- What every run keeps. -/
structure Sound (s : SaveState time kind) : Prop where
  exclusive : Exclusive SavePc.locksStore s.storeMu s.threads
  staged : ∀ t, s.Stage (s.threads t)
  kept : s.deleted = false →
    s.record.map (recordFormat time kind).read = s.lastWritten.map fun st => some (normalState st)
  creation : ∀ st, s.lastWritten = some st → st.createdAt = s.vm.createdAt
  caughtUp : (∀ t, s.storeMu = some t → (s.threads t).saving = none) →
    s.lastRead = s.lastWritten
  gone : s.deleted = true →
    s.registered = false ∧ s.dir = false ∧ s.tmp = none ∧ s.record = none

/-- What every step keeps. -/
structure Follows (s target : SaveState time kind) : Prop extends target.Sound where
  stays : s.deleted = true → target.deleted = true

variable {pc : SavePc} {s target : SaveState time kind} {t : ThreadId}

theorem stage_of_outside (outside : pc.locksStore = false)
    (deleted : pc = .removed → s.deleted = true) : s.Stage pc := by
  cases pc with
  | removed => exact deleted rfl
  | idle | refused | changing => trivial
  | _ => exact Bool.noConfusion outside

theorem Sound.inside (sound : s.Sound) (isInside : (s.threads t).locksStore = true) (pc : SavePc)
    (threads : target.threads = update s.threads t pc)
    (storeMu : target.storeMu = if pc.locksStore then s.storeMu else none) (stage : target.Stage pc)
    (deleted : s.deleted = true → target.deleted = true)
    (kept : target.deleted = false → target.record.map (recordFormat time kind).read =
      target.lastWritten.map fun st => some (normalState st))
    (creation : ∀ st, target.lastWritten = some st → st.createdAt = target.vm.createdAt)
    (caughtUp : pc.saving = none → target.lastRead = target.lastWritten)
    (gone : target.deleted = true →
      target.registered = false ∧ target.dir = false ∧ target.tmp = none ∧ target.record = none) :
    s.Follows target where
  exclusive := by
    rw [threads, storeMu]
    exact sound.exclusive.goOn isInside pc
  staged := by
    intro u
    rw [threads]
    by_cases same : u = t
    · subst same
      rw [update_self]
      exact stage
    · rw [update_of_ne same]
      apply stage_of_outside (sound.exclusive.outside_of_ne isInside same)
      intro atEnd
      have before := sound.staged u
      rw [atEnd] at before
      exact deleted before
  kept := kept
  creation := creation
  caughtUp := by
    intro idle
    apply caughtUp
    cases locks : pc.locksStore with
    | false => exact SavePc.saving_of_outside locks
    | true =>
      have holds := idle t (by rw [storeMu, locks, if_pos rfl]; exact sound.exclusive t isInside)
      rwa [threads, update_self] at holds
  gone := gone
  stays := deleted

/-- What a step leaves as it is that does not touch the records. -/
structure Apart (s target : SaveState time kind) : Prop where
  registered : target.registered = s.registered
  created : target.vm.createdAt = s.vm.createdAt
  dir : target.dir = s.dir
  tmp : target.tmp = s.tmp
  record : target.record = s.record
  deleted : target.deleted = s.deleted
  lastRead : target.lastRead = s.lastRead
  lastWritten : target.lastWritten = s.lastWritten

theorem Saving.apart {st : VMState} (saving : s.Saving st) (apart : s.Apart target) :
    target.Saving st :=
  ⟨apart.registered.trans saving.registered, saving.created.trans apart.created.symm,
    apart.lastRead.trans saving.read⟩

theorem Apart.stage (apart : s.Apart target) (stage : s.Stage pc) : target.Stage pc := by
  cases pc with
  | saveMkdir | saveTmp | saveUpsert => exact Saving.apart stage apart
  | saveRename => exact ⟨stage.1.apart apart, apart.tmp.trans stage.2⟩
  | saveRead | removeRecord => exact apart.registered.trans stage
  | removeUnlock | removed => exact apart.deleted.trans stage
  | _ => trivial

theorem Apart.sound (apart : s.Apart target) (sound : s.Sound)
    (exclusive : Exclusive SavePc.locksStore target.storeMu target.threads)
    (threads : target.threads = update s.threads t pc) (stage : target.Stage pc)
    (caughtUp : (∀ t, target.storeMu = some t → (target.threads t).saving = none) →
      s.lastRead = s.lastWritten) :
    s.Follows target where
  exclusive := exclusive
  staged := by
    intro u
    rw [threads]
    by_cases same : u = t
    · subst same
      rw [update_self]
      exact stage
    · rw [update_of_ne same]
      exact apart.stage (sound.staged u)
  kept := by
    rw [apart.deleted, apart.record, apart.lastWritten]
    exact sound.kept
  creation := by
    rw [apart.lastWritten, apart.created]
    exact sound.creation
  caughtUp := by
    rw [apart.lastRead, apart.lastWritten]
    exact caughtUp
  gone := by
    rw [apart.deleted, apart.registered, apart.dir, apart.tmp, apart.record]
    exact sound.gone
  stays := by
    rw [apart.deleted]
    exact id

section

variable (sound : s.Sound)

include sound

theorem Sound.caughtUp_inside (isInside : (s.threads t).locksStore = true)
    (idle : (s.threads t).saving = none) : s.lastRead = s.lastWritten := by
  apply sound.caughtUp
  intro u holds
  rw [sound.exclusive t isInside] at holds
  rwa [← Option.some.inj holds]

theorem Sound.lock (locked : s.lock t pc = some target)
    (stage : ∀ s : SaveState time kind, s.Stage pc) : s.Follows target := by
  obtain ⟨free, same⟩ := Option.ite_none_right_eq_some.mp locked
  cases same
  have exclusive := sound.exclusive
  rw [free] at exclusive
  have apart : s.Apart { s.goTo t pc with storeMu := some t } :=
    ⟨rfl, rfl, rfl, rfl, rfl, rfl, rfl, rfl⟩
  refine apart.sound sound (exclusive.acquire t pc) rfl (stage _) fun _ => ?_
  apply sound.caughtUp
  rw [free]
  nofun

theorem Sound.goTo (isInside : (s.threads t).locksStore = true)
    (idle : (s.threads t).saving = none) (locks : pc.locksStore = true) (stage : s.Stage pc) :
    s.Follows (s.goTo t pc) := by
  have exclusive := sound.exclusive.goOn isInside pc
  rw [if_pos locks] at exclusive
  have apart : s.Apart (s.goTo t pc) := ⟨rfl, rfl, rfl, rfl, rfl, rfl, rfl, rfl⟩
  exact apart.sound sound exclusive rfl (apart.stage stage) fun _ =>
    sound.caughtUp_inside isInside idle

theorem Sound.unlock (isInside : (s.threads t).locksStore = true)
    (idle : (s.threads t).saving = none) (locks : pc.locksStore = false) (stage : s.Stage pc) :
    s.Follows (s.unlock t pc) := by
  have exclusive := sound.exclusive.goOn isInside pc
  rw [if_neg (by rw [locks]; exact Bool.noConfusion)] at exclusive
  have apart : s.Apart (s.unlock t pc) := ⟨rfl, rfl, rfl, rfl, rfl, rfl, rfl, rfl⟩
  exact apart.sound sound exclusive rfl (apart.stage stage) fun _ =>
    sound.caughtUp_inside isInside idle

theorem Sound.elsewhere (apart : s.Apart target) (storeMu : target.storeMu = s.storeMu)
    (threads : target.threads = update s.threads t pc) (outside : pc.locksStore = false)
    (idle : (s.threads t).saving = none) (stage : target.Stage pc) : s.Follows target := by
  refine apart.sound sound ?_ threads stage fun free => ?_
  · rw [storeMu, threads]
    exact sound.exclusive.elsewhere t outside
  · apply sound.caughtUp
    intro u holds
    by_cases same : u = t
    · rwa [same]
    · have waits := free u (storeMu.trans holds)
      rwa [threads, update_of_ne same] at waits

theorem Sound.not_deleted (registered : s.registered = true) :
    s.deleted = false := by
  rw [Bool.eq_false_iff]
  intro deleted
  rw [(sound.gone deleted).1] at registered
  exact Bool.noConfusion registered

theorem Sound.saving (registered : s.registered = true)
    (isInside : (s.threads t).locksStore = true) (pc : SavePc)
    (threads : target.threads = update s.threads t pc)
    (storeMu : target.storeMu = if pc.locksStore then s.storeMu else none) (stage : target.Stage pc)
    (deleted : target.deleted = s.deleted)
    (kept : target.record.map (recordFormat time kind).read =
      target.lastWritten.map fun st => some (normalState st))
    (creation : ∀ st, target.lastWritten = some st → st.createdAt = target.vm.createdAt)
    (caughtUp : pc.saving = none → target.lastRead = target.lastWritten) :
    s.Follows target := by
  have present := sound.not_deleted registered
  refine sound.inside isInside pc threads storeMu stage ?_ (fun _ => kept) creation caughtUp ?_
  · rw [present]
    exact Bool.noConfusion
  · rw [deleted, present]
    exact Bool.noConfusion

theorem Sound.read_write (registered : s.registered = true) {st : VMState}
    (created : st.createdAt = s.vm.createdAt) :
    (recordFormat time kind).read ((recordFormat time kind).write s.record st) =
      some (normalState st) := by
  have before : ∀ row, s.record = some row → ∃ last, (recordFormat time kind).read row = some last ∧
      last.createdAt = st.createdAt := by
    intro row found
    have kept := sound.kept (sound.not_deleted registered)
    rw [found, Option.map_some] at kept
    obtain ⟨last, isLast, read⟩ := Option.map_eq_some_iff.mp kept.symm
    exact ⟨normalState last, read.symm, (sound.creation last isLast).trans created.symm⟩
  have readable : ∀ row, s.record = some row → ((recordFormat time kind).read row).isSome := by
    intro row found
    obtain ⟨last, read, -⟩ := before row found
    rw [read]
    rfl
  have creation : (recordFormat time kind).creation s.record st = st.createdAt := by
    apply (creation_eq_iff readable st).mpr
    intro _ row other found read
    obtain ⟨last, readLast, same⟩ := before row found
    obtain rfl : last = other := Option.some.inj (readLast.symm.trans read)
    exact same
  rw [(recordFormat time kind).read_write _ st readable, creation]
  rfl

end

theorem read_write_none (st : VMState) :
    (recordFormat time kind).read ((recordFormat time kind).write none st) =
      some (normalState st) := by
  have readable : ∀ row, (none : Option (recordFormat time kind).Record) = some row →
      ((recordFormat time kind).read row).isSome := by
    intro row found
    exact absurd found.symm (Option.some_ne_none row)
  have creation : (recordFormat time kind).creation none st = st.createdAt := by
    cases kind <;> rfl
  rw [(recordFormat time kind).read_write _ st readable, creation]
  rfl

/-! ### Every step -/

theorem goOn_of_next {move : SaveMove} (isInside : pc.locksStore = true)
    (stepped : s.next t pc move = some target) : move = .goOn := by
  cases move with
  | goOn => rfl
  | _ =>
    cases pc with
    | idle | changing | removed | refused => exact Bool.noConfusion isInside
    | _ => exact nomatch stepped

/-- The steps of a goroutine that has not locked the store. -/
theorem Sound.next_outside (sound : s.Sound) {move : SaveMove} (atPc : s.threads t = pc)
    (outside : pc.locksStore = false) (stepped : s.next t pc move = some target) :
    s.Follows target := by
  have idle : (s.threads t).saving = none := atPc ▸ SavePc.saving_of_outside outside
  have stays : s.threads = update s.threads t pc := by
    rw [← atPc, update_eq_self]
  cases pc with
  | idle =>
    cases move with
    | callSave | callOther => exact sound.lock stepped fun _ => trivial
    | callRemove =>
      obtain ⟨-, locked⟩ := Option.ite_none_left_eq_some.mp stepped
      have called : s.Follows { s with removeCalled := true } :=
        sound.elsewhere ⟨rfl, rfl, rfl, rfl, rfl, rfl, rfl, rfl⟩ rfl stays rfl idle trivial
      exact { called.lock locked fun _ => trivial with }
    | lockVM =>
      obtain ⟨-, same⟩ := Option.ite_none_right_eq_some.mp stepped
      cases same
      exact sound.elsewhere ⟨rfl, rfl, rfl, rfl, rfl, rfl, rfl, rfl⟩ rfl rfl rfl idle trivial
    | setVM | goOn => exact nomatch stepped
  | changing =>
    cases move with
    | setVM v =>
      obtain ⟨⟨-, created⟩, same⟩ := Option.ite_none_right_eq_some.mp stepped
      cases same
      exact sound.elsewhere ⟨rfl, created, rfl, rfl, rfl, rfl, rfl, rfl⟩ rfl stays rfl idle trivial
    | goOn =>
      cases stepped
      exact sound.elsewhere ⟨rfl, rfl, rfl, rfl, rfl, rfl, rfl, rfl⟩ rfl rfl rfl idle trivial
    | _ => exact nomatch stepped
  | removed | refused => exact nomatch stepped
  | _ => exact Bool.noConfusion outside

/-- The steps of a goroutine that has locked the store. -/
theorem Sound.next_inside (sound : s.Sound) (atPc : s.threads t = pc)
    (locks : pc.locksStore = true) (stepped : s.next t pc .goOn = some target) :
    s.Follows target := by
  have stage := sound.staged t
  have isInside : (s.threads t).locksStore = true := atPc ▸ locks
  rw [atPc] at stage
  have caughtUp (idle : pc.saving = none) : s.lastRead = s.lastWritten :=
    sound.caughtUp_inside isInside (atPc ▸ idle)
  cases pc with
  | idle | changing | removed | refused => exact Bool.noConfusion locks
  | otherVM | saveUnlock | removeFailed =>
    cases stepped
    exact sound.unlock isInside (atPc ▸ rfl) rfl trivial
  | removeUnlock =>
    cases stepped
    exact sound.unlock isInside (atPc ▸ rfl) rfl stage
  | saveGet =>
    cases stepped
    cases registered : s.registered with
    | true => exact sound.goTo isInside (atPc ▸ rfl) rfl registered
    | false => exact sound.goTo isInside (atPc ▸ rfl) rfl trivial
  | saveRead =>
    obtain ⟨-, same⟩ := Option.ite_none_right_eq_some.mp stepped
    cases same
    have kept := sound.kept (sound.not_deleted stage)
    cases kind with
    | file =>
      exact sound.saving stage isInside (.saveMkdir _) rfl rfl ⟨stage, rfl, rfl⟩ rfl kept
        sound.creation nofun
    | sqlite =>
      exact sound.saving stage isInside (.saveUpsert _) rfl rfl ⟨stage, rfl, rfl⟩ rfl kept
        sound.creation nofun
  | saveMkdir st =>
    cases stepped
    exact sound.saving stage.registered isInside (.saveTmp st) rfl rfl
      ⟨stage.registered, stage.created, stage.read⟩ rfl
      (sound.kept (sound.not_deleted stage.registered)) sound.creation nofun
  | saveTmp st =>
    cases stepped
    exact sound.saving stage.registered isInside (.saveRename st) rfl rfl
      ⟨⟨stage.registered, stage.created, stage.read⟩, rfl⟩ rfl
      (sound.kept (sound.not_deleted stage.registered)) sound.creation nofun
  | saveRename st =>
    cases stepped
    refine sound.saving stage.1.registered isInside .saveUnlock rfl rfl trivial rfl ?_ ?_
      fun _ => stage.1.read
    · change s.tmp.map (recordFormat time kind).read = some (some (normalState st))
      rw [stage.2, Option.map_some, read_write_none]
    · rintro last ⟨⟩
      exact stage.1.created
  | saveUpsert st =>
    cases stepped
    refine sound.saving stage.registered isInside .saveUnlock rfl rfl trivial rfl ?_ ?_
      fun _ => stage.read
    · exact congrArg some (sound.read_write stage.registered stage.created)
    · rintro last ⟨⟩
      exact stage.created
  | removeMemory =>
    cases stepped
    cases registered : s.registered with
    | true =>
      exact sound.inside isInside .removeRecord rfl rfl rfl id sound.kept sound.creation
        (fun _ => caughtUp rfl) fun deleted => ⟨rfl, (sound.gone deleted).2⟩
    | false => exact sound.goTo isInside (atPc ▸ rfl) rfl trivial
  | removeRecord =>
    cases stepped
    exact sound.inside isInside .removeUnlock rfl rfl rfl (fun _ => rfl) Bool.noConfusion
      sound.creation (fun _ => caughtUp rfl) fun _ => ⟨stage, rfl, rfl, rfl⟩

theorem Sound.next (sound : s.Sound) {move : SaveMove}
    (stepped : s.next t (s.threads t) move = some target) : s.Follows target := by
  cases locks : (s.threads t).locksStore with
  | false => exact sound.next_outside rfl locks stepped
  | true =>
    obtain rfl := goOn_of_next locks stepped
    exact sound.next_inside rfl locks stepped

end SaveState

variable {kind : StoreKind} {time : TimeText}

theorem sound_of_reachable {s : SaveState time kind} (reached : (saveSystem time kind).Reachable s) : s.Sound := by
  apply reached.invariant
  · rintro s ⟨-, -, -, -, -, noRecord, -, idle, present, neverRead, neverWritten⟩
    constructor
    · intro t locks
      rw [idle t] at locks
      exact Bool.noConfusion locks
    · intro t
      rw [idle t]
      trivial
    · intro _
      rw [noRecord, neverWritten]
      rfl
    · intro st isLast
      simp [neverWritten] at isLast
    · intro _
      rw [neverRead, neverWritten]
    · rw [present]
      exact Bool.noConfusion
  · intro s label target sound stepped
    exact (sound.next stepped).toSound

theorem deleted_of_run {s later : SaveState time kind} {labels : List (ThreadId × SaveMove)}
    (sound : s.Sound) (deleted : s.deleted = true)
    (ran : (saveSystem time kind).run s labels = some later) : later.deleted = true := by
  induction labels generalizing s with
  | nil =>
    cases ran
    exact deleted
  | cons label labels ih =>
    obtain ⟨middle, stepped, rest⟩ := Option.bind_eq_some_iff.mp ran
    have follows := sound.next stepped
    exact ih follows.toSound (follows.stays deleted) rest

def newSaveState : SaveState unaryTime .file where
  registered := true
  vm := firstVM
  vmMu := none
  storeMu := none
  dir := false
  tmp := none
  record := none
  removeCalled := false
  threads _ := .idle
  deleted := false
  lastRead := none
  lastWritten := none

def saveOnce : List (ThreadId × SaveMove) :=
  [(0, .callSave), (0, .goOn), (0, .goOn), (0, .goOn), (0, .goOn), (0, .goOn), (0, .goOn)]

def saveAndRemove : List (ThreadId × SaveMove) :=
  saveOnce ++ [(1, .callRemove), (1, .goOn), (1, .goOn), (1, .goOn)]

def saveAgain : List (ThreadId × SaveMove) :=
  [(0, .callSave), (0, .goOn), (0, .goOn)]

end Jerboa.Daemon
