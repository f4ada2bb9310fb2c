import Jerboa.TransitionSystem
import Jerboa.VMRecords

/-!
# Saving VMs and restoring them

The registry of a store and its records, over any run of the daemon and any
number of restarts.  A saved VM that is created or stopped comes back in every
field but one: `DaemonRecovered` is written and never read, so it is lost.
-/

namespace Jerboa.Daemon

open Vm List

/-- A format of records.  `creation` is the creation time of the record that is
written over another one. -/
structure RecordFormat where
  Record : Type
  write : Option Record → VMState → Record
  read : Record → Option VMState
  creation : Option Record → VMState → Time
  read_write : ∀ old st, (∀ record, old = some record → (read record).isSome) →
    read (write old st) = some { normalState st with createdAt := creation old st }

def recordFormat (time : TimeText) : StoreKind → RecordFormat
  | .file => {
      Record := Json
      write := fun _ st => time.vmStateCodec.encode st
      read := time.vmStateCodec.decode
      creation := fun _ st => st.createdAt
      read_write := fun _ st _ => time.vmStateCodec.decode_encode st }
  | .sqlite => {
      Record := Row
      write := time.upsertVM
      read := time.scanRow
      creation := fun old st => (old.bind time.scanRow).elim st.createdAt VMState.createdAt
      read_write := time.scanRow_upsertVM }

variable {time : TimeText} {kind : StoreKind}

/-- The creation time of a written record is the VM's, but for a row that is there
already with another one. -/
theorem creation_eq_iff {old : Option (recordFormat time kind).Record}
    (readable : ∀ row, old = some row → ((recordFormat time kind).read row).isSome) (st : VMState) :
    (recordFormat time kind).creation old st = st.createdAt ↔
      (kind = .sqlite → ∀ row before, old = some row →
        (recordFormat time kind).read row = some before → before.createdAt = st.createdAt) := by
  cases kind with
  | file => exact ⟨fun _ isSqlite => StoreKind.noConfusion isSqlite, fun _ => rfl⟩
  | sqlite =>
    cases old with
    | none =>
      refine ⟨?_, fun _ => rfl⟩
      intro _ _ row before present
      exact absurd present.symm (Option.some_ne_none row)
    | some row =>
      obtain ⟨before, read⟩ := Option.isSome_iff_exists.mp (readable row rfl)
      have same : (recordFormat time .sqlite).creation (some row) st = before.createdAt := by
        change ((some row).bind (recordFormat time .sqlite).read).elim _ _ = _
        rw [Option.bind_some, read]
        rfl
      rw [same]
      constructor
      · rintro created - row' before' present read'
        cases present
        obtain rfl : before = before' := Option.some.inj (read.symm.trans read')
        exact created
      · intro every
        exact every rfl row before rfl read

/-! ### A store -/

/-- The registry of a store, and what it has persisted: the `state.json` files
under the names of their directories, or the rows under their primary keys. -/
structure RecordStore (format : RecordFormat) where
  vms : ValueMap String VM
  records : ValueMap String format.Record

namespace RecordStore

variable {format : RecordFormat}

/-- `Save`: nothing is written for a VM that is not registered. -/
def save (s : RecordStore format) (v : VM) : RecordStore format :=
  if (s.vms.lookup v.id).isSome then
    { s with records := s.records.insert v.id (format.write (s.records.lookup v.id) v.snapshot) }
  else s

def loaded (s : RecordStore format) : List VMState :=
  (ValueMap.values s.records).filterMap format.read

def registerAll (host : Host) (states : List VMState) : ValueMap String VM :=
  states.foldl (fun vms st => vms.insert st.id (restoreVM host st)) ∅

def restart (s : RecordStore format) (host : Host) : RecordStore format :=
  ((s.loaded.map (restoreVM host)).filter VM.daemonRecovered).foldl save
    { vms := registerAll host s.loaded, records := s.records }

def restarts (s : RecordStore format) (hosts : List Host) : RecordStore format :=
  hosts.foldl restart s

end RecordStore

inductive StoreLabel
  /-- `Create` with the ID that `newID` has drawn. -/
  | create (id : String) (cfg : Config) (now : Time)
  /-- Some fields of a registered VM are set; its ID and its creation time never
  are. -/
  | change (v : VM)
  | save (id : String)
  | remove (id : String)
  | restart (host : Host)

def storeSystem (format : RecordFormat) : TransitionSystem (RecordStore format) StoreLabel where
  initial s := s.vms = ∅ ∧ s.records = ∅
  step s label := match label with
    | .create id cfg now =>
      some (RecordStore.save { s with vms := s.vms.insert id (newVM id cfg now) }
        (newVM id cfg now))
    | .change v =>
      if (s.vms.lookup v.id).any fun old => old.createdAt = v.createdAt then
        some { s with vms := s.vms.insert v.id v }
      else none
    | .save id => (s.vms.lookup id).map s.save
    | .remove id =>
      if (s.vms.lookup id).isSome then
        some { vms := s.vms.erase id, records := s.records.erase id }
      else none
    | .restart host => some (s.restart host)

/-! ### Runs -/

namespace RecordStore

variable {format : RecordFormat}

/-- Every record can be read, is that of its key and belongs to a registered VM. -/
structure Tied (s : RecordStore format) : Prop where
  keyed : ∀ id v, s.vms.lookup id = some v → v.id = id
  recorded : ∀ id record, s.records.lookup id = some record →
    ∃ st, format.read record = some st ∧ st.id = id ∧ (s.vms.lookup id).isSome

@[simp]
theorem save_vms (s : RecordStore format) (v : VM) : (s.save v).vms = s.vms := by
  unfold save
  split <;> rfl

variable {id : String}

theorem lookup_save_of_ne (s : RecordStore format) {v : VM} (other : id ≠ v.id) :
    (s.save v).records.lookup id = s.records.lookup id := by
  unfold save
  split
  · exact AList.lookup_insert_ne other
  · rfl

variable {s : RecordStore format}

theorem Tied.readable (tied : s.Tied) (id : String) :
    ∀ record, s.records.lookup id = some record → (format.read record).isSome := by
  intro record found
  obtain ⟨st, read, -⟩ := tied.recorded id record found
  rw [read]
  rfl

theorem Tied.read_save (tied : s.Tied) {v : VM}
    (registered : (s.vms.lookup v.id).isSome) :
    ∃ record, (s.save v).records.lookup v.id = some record ∧
      format.read record = some { normalState v.snapshot with
        createdAt := format.creation (s.records.lookup v.id) v.snapshot } := by
  refine ⟨format.write (s.records.lookup v.id) v.snapshot, ?_, ?_⟩
  · rw [save, if_pos registered]
    exact AList.lookup_insert _
  · exact format.read_write _ _ (tied.readable v.id)

theorem Tied.save (tied : s.Tied) (v : VM) : (s.save v).Tied := by
  by_cases registered : (s.vms.lookup v.id).isSome
  · constructor
    · rw [save_vms]
      exact tied.keyed
    · intro id record found
      rw [save_vms]
      by_cases same : id = v.id
      · subst same
        obtain ⟨written, here, read⟩ := tied.read_save registered
        obtain rfl : written = record := Option.some.inj (here.symm.trans found)
        exact ⟨_, read, rfl, registered⟩
      · rw [lookup_save_of_ne s same] at found
        exact tied.recorded id record found
  · rw [RecordStore.save, if_neg registered]
    exact tied

theorem foldl_save_vms (s : RecordStore format) (list : List VM) :
    (list.foldl RecordStore.save s).vms = s.vms := by
  induction list generalizing s with
  | nil => rfl
  | cons v list ih => rw [foldl_cons, ih, save_vms]

theorem Tied.foldl_save (tied : s.Tied) (list : List VM) :
    (list.foldl RecordStore.save s).Tied := by
  induction list generalizing s with
  | nil => exact tied
  | cons v list ih => exact ih (tied.save v)

theorem lookup_foldl_save (s : RecordStore format) {list : List VM}
    (others : ∀ v ∈ list, id ≠ v.id) :
    (list.foldl RecordStore.save s).records.lookup id = s.records.lookup id := by
  induction list generalizing s with
  | nil => rfl
  | cons v list ih =>
    rw [forall_mem_cons] at others
    rw [foldl_cons, ih (s.save v) others.2, lookup_save_of_ne s others.1]

/-! ### Restoring -/

theorem mem_loaded {st : VMState} :
    st ∈ s.loaded ↔
      ∃ id record, s.records.lookup id = some record ∧ format.read record = some st := by
  rw [loaded, mem_filterMap]
  simp only [ValueMap.mem_values]
  constructor
  · rintro ⟨record, ⟨id, found⟩, read⟩
    exact ⟨id, record, found, read⟩
  · rintro ⟨id, record, found, read⟩
    exact ⟨record, ⟨id, found⟩, read⟩

theorem Tied.loaded_unique (tied : s.Tied)
    {record : format.Record} {st : VMState} (found : s.records.lookup id = some record)
    (read : format.read record = some st) :
    ∀ other ∈ s.loaded, other.id = st.id → other = st := by
  intro other member same
  obtain ⟨otherId, otherRecord, otherFound, otherRead⟩ := mem_loaded.mp member
  obtain ⟨st', read', isId, -⟩ := tied.recorded id record found
  obtain rfl : st' = st := Option.some.inj (read'.symm.trans read)
  obtain ⟨other', otherRead', isOtherId, -⟩ := tied.recorded otherId otherRecord otherFound
  obtain rfl : other' = other := Option.some.inj (otherRead'.symm.trans otherRead)
  obtain rfl : otherId = id := by rw [← isOtherId, ← isId, same]
  obtain rfl : record = otherRecord := Option.some.inj (found.symm.trans otherFound)
  exact Option.some.inj (otherRead.symm.trans read)

theorem lookup_registerAll (host : Host) {states : List VMState} {st : VMState}
    (member : st ∈ states) (unique : ∀ other ∈ states, other.id = st.id → other = st) :
    (registerAll host states).lookup st.id = some (restoreVM host st) := by
  induction states using List.reverseRecOn with
  | nil => simp at member
  | append_singleton states last ih =>
    rw [registerAll, foldl_append, foldl_cons, foldl_nil,
      ValueMap.lookup_insert_cases]
    split
    · rename_i same
      rw [unique last (by simp) same.symm]
    · rename_i different
      have earlier : st ∈ states := by
        rcases mem_append.mp member with inside | isLast
        · exact inside
        · exact absurd (by rw [mem_singleton.mp isLast]) different
      exact ih earlier fun other inside => unique other (mem_append_left _ inside)

theorem mem_of_lookup_registerAll {host : Host} {states : List VMState} {v : VM}
    (found : (registerAll host states).lookup id = some v) :
    ∃ st ∈ states, st.id = id ∧ v = restoreVM host st := by
  induction states using List.reverseRecOn with
  | nil => simp [registerAll] at found
  | append_singleton states last ih =>
    rw [registerAll, foldl_append, foldl_cons, foldl_nil,
      ValueMap.lookup_insert_cases] at found
    split at found
    · rename_i same
      exact ⟨last, by simp, same.symm, (Option.some.inj found).symm⟩
    · obtain ⟨st, member, isId, isRestored⟩ := ih found
      exact ⟨st, mem_append_left _ member, isId, isRestored⟩

theorem Tied.registered (tied : s.Tied) (host : Host) :
    ({ vms := registerAll host s.loaded, records := s.records } : RecordStore format).Tied := by
  constructor
  · intro id v found
    obtain ⟨st, -, isId, rfl⟩ := mem_of_lookup_registerAll found
    rw [restoreVM_id, isId]
  · intro id record found
    change s.records.lookup id = some record at found
    change ∃ st, _ ∧ _ ∧ ((registerAll host s.loaded).lookup id).isSome
    obtain ⟨st, read, isId, -⟩ := tied.recorded id record found
    refine ⟨st, read, isId, ?_⟩
    have registered := lookup_registerAll host (mem_loaded.mpr ⟨id, record, found, read⟩)
      (tied.loaded_unique found read)
    rw [← isId, registered]
    rfl

theorem Tied.restart (tied : s.Tied) (host : Host) :
    (s.restart host).Tied :=
  (tied.registered host).foldl_save _

def AtRest (state : State) : Prop :=
  state = .created ∨ state = .stopped

theorem restoreVM_not_recovered (host : Host) {st : VMState} (atRest : AtRest st.state) :
    (restoreVM host st).daemonRecovered = false := by
  rcases atRest with created | stopped
  · simp [restoreVM, created, loadVM]
  · simp [restoreVM, stopped, loadVM]

theorem Tied.restart_atRest (tied : s.Tied) (host : Host)
    {record : format.Record} {st : VMState} (found : s.records.lookup st.id = some record)
    (read : format.read record = some st) (atRest : AtRest st.state) :
    (s.restart host).vms.lookup st.id = some (restoreVM host st) ∧
      (s.restart host).records.lookup st.id = some record := by
  have unique := tied.loaded_unique found read
  constructor
  · rw [RecordStore.restart, foldl_save_vms]
    exact lookup_registerAll host (mem_loaded.mpr ⟨st.id, record, found, read⟩) unique
  · rw [RecordStore.restart, lookup_foldl_save, found]
    intro v member same
    obtain ⟨inLoaded, recovered⟩ := mem_filter.mp member
    obtain ⟨other, otherLoaded, rfl⟩ := mem_map.mp inLoaded
    rw [restoreVM_id] at same
    obtain rfl := unique other otherLoaded same.symm
    rw [restoreVM_not_recovered host atRest] at recovered
    exact Bool.noConfusion recovered

theorem Tied.restarts_atRest (tied : s.Tied) {hosts : List Host}
    {record : format.Record} {st : VMState} (found : s.records.lookup st.id = some record)
    (read : format.read record = some st) (atRest : AtRest st.state) (host : Host) :
    ∃ last, (s.restarts (host :: hosts)).vms.lookup st.id = some (restoreVM last st) := by
  induction hosts generalizing s host with
  | nil => exact ⟨host, (tied.restart_atRest host found read atRest).1⟩
  | cons next hosts ih =>
    exact ih (tied.restart host) (tied.restart_atRest host found read atRest).2 next

end RecordStore

theorem RecordStore.Tied.register {format : RecordFormat} {s : RecordStore format} (tied : s.Tied)
    (v : VM) : ({ s with vms := s.vms.insert v.id v } : RecordStore format).Tied := by
  constructor
  · intro id w found
    rw [ValueMap.lookup_insert_cases] at found
    split at found
    · rename_i same
      rw [← Option.some.inj found, same]
    · exact tied.keyed id w found
  · intro id record found
    obtain ⟨st, read, isId, registered⟩ := tied.recorded id record found
    refine ⟨st, read, isId, ?_⟩
    rw [ValueMap.lookup_insert_cases]
    split
    · rfl
    · exact registered

theorem tied_of_reachable {format : RecordFormat} {s : RecordStore format}
    (reached : (storeSystem format).Reachable s) : s.Tied := by
  apply reached.invariant
  · rintro s ⟨noVMs, noRecords⟩
    constructor
    · simp [noVMs]
    · simp [noRecords]
  · intro s label target tied stepped
    cases label with
    | create id cfg now =>
      cases stepped
      exact (tied.register (newVM id cfg now)).save _
    | change v =>
      obtain ⟨-, same⟩ := Option.ite_none_right_eq_some.mp stepped
      cases same
      exact tied.register v
    | save id =>
      obtain ⟨v, -, rfl⟩ := Option.map_eq_some_iff.mp stepped
      exact tied.save v
    | remove id =>
      obtain ⟨-, same⟩ := Option.ite_none_right_eq_some.mp stepped
      cases same
      constructor
      · intro other v found
        rw [ValueMap.lookup_erase_cases] at found
        split at found
        · simp at found
        · exact tied.keyed other v found
      · intro other record found
        rw [ValueMap.lookup_erase_cases] at found
        rw [ValueMap.lookup_erase_cases]
        split at found
        · simp at found
        · rename_i different
          rw [if_neg different]
          exact tied.recorded other record found
    | restart host =>
      cases stepped
      exact tied.restart host

/-! ### What comes back -/

/-- The fields of a VM that a restored one should have. -/
structure SameRecord (v w : VM) : Prop where
  id : w.id = v.id
  cfg : normalConfig w.cfg = normalConfig v.cfg
  state : w.state = v.state
  createdAt : w.createdAt = v.createdAt
  startedAt : w.startedAt = v.startedAt
  stoppedAt : w.stoppedAt = v.stoppedAt
  daemonRecovered : w.daemonRecovered = v.daemonRecovered
  healthStatus : w.healthStatus = v.healthStatus
  restartCount : w.restartCount = v.restartCount

/-- A VM that is saved is there with all its fields after any number of restarts. -/
def RecordStore.ComesBack {format : RecordFormat} (s : RecordStore format) (v : VM) : Prop :=
  ∀ host hosts, ∃ w,
    ((s.save v).restarts (host :: hosts)).vms.lookup v.id = some w ∧ SameRecord v w

theorem normalConfig_idem (cfg : Config) : normalConfig (normalConfig cfg) = normalConfig cfg := by
  have policy : policyCodec.normal (policyCodec.normal cfg.restart.policy) =
      policyCodec.normal cfg.restart.policy := by
    change Policy.ofText (Policy.text (Policy.ofText _)) = _
    rw [Policy.text_ofText]
    rfl
  simp only [normalConfig, restartCodec, Json.Codec.struct, policy]

theorem normalState_atRest {st : VMState} (atRest : RecordStore.AtRest st.state) :
    (normalState st).state = st.state := by
  rcases atRest with created | stopped
  · simp only [normalState, created]
    rfl
  · simp only [normalState, stopped]
    rfl

theorem sameRecord_restoreVM_iff (host : Host) {v : VM} (atRest : RecordStore.AtRest v.state)
    (createdAt : Time) :
    SameRecord v (restoreVM host { normalState v.snapshot with createdAt := createdAt }) ↔
      v.daemonRecovered = false ∧ createdAt = v.createdAt := by
  have state : (normalState v.snapshot).state = v.state := normalState_atRest atRest
  have restored : ∃ done, restoreVM host { normalState v.snapshot with createdAt := createdAt } =
      { loadVM { normalState v.snapshot with createdAt := createdAt } with done := done } := by
    rcases atRest with created | stopped
    · exact ⟨false, by simp only [restoreVM, state, created]; rfl⟩
    · exact ⟨true, by simp only [restoreVM, state, stopped]⟩
  obtain ⟨done, same⟩ := restored
  rw [same]
  constructor
  · intro kept
    exact ⟨kept.daemonRecovered.symm, kept.createdAt⟩
  · rintro ⟨flag, created⟩
    exact {
      id := rfl
      cfg := normalConfig_idem v.cfg
      state := state
      createdAt := created
      startedAt := rfl
      stoppedAt := rfl
      daemonRecovered := flag.symm
      healthStatus := rfl
      restartCount := rfl }

/-- A registered VM that is created or stopped, once saved, is restored with all
its fields in every later process exactly if it does not have the flag of a
recovered VM, and no row under its ID has another creation time. -/
theorem restored_with_all_fields_iff {s : RecordStore (recordFormat time kind)}
    (reached : (storeSystem (recordFormat time kind)).Reachable s) {v : VM}
    (registered : s.vms.lookup v.id = some v)
    (atRest : v.state = .created ∨ v.state = .stopped) :
    s.ComesBack v ↔
      v.daemonRecovered = false ∧
        (kind = .sqlite → ∀ row st, s.records.lookup v.id = some row →
          (recordFormat time kind).read row = some st → st.createdAt = v.createdAt) := by
  have tied := tied_of_reachable reached
  have present : (s.vms.lookup v.id).isSome := by rw [registered]; rfl
  obtain ⟨record, found, read⟩ := tied.read_save present
  have isAtRest : RecordStore.AtRest (normalState v.snapshot).state := by
    rw [@normalState_atRest v.snapshot atRest]
    exact atRest
  have restored (host : Host) (hosts : List Host) :=
    @RecordStore.Tied.restarts_atRest _ _ (tied.save v) hosts record _ found read isAtRest host
  have creation := creation_eq_iff (tied.readable v.id) v.snapshot
  refine Iff.trans ?_ (and_congr Iff.rfl creation)
  constructor
  · intro every
    obtain ⟨w, isW, same⟩ := every ⟨fun _ => false, fun _ _ => false, 0⟩ []
    obtain ⟨last, isLast⟩ := restored ⟨fun _ => false, fun _ _ => false, 0⟩ []
    obtain rfl := Option.some.inj (isLast.symm.trans isW)
    exact (sameRecord_restoreVM_iff last atRest _).mp same
  · intro kept host hosts
    obtain ⟨last, isLast⟩ := restored host hosts
    exact ⟨_, isLast, (sameRecord_restoreVM_iff last atRest _).mpr kept⟩

/-! ### Runs of a store -/

def unaryTime : TimeText where
  format t := String.ofList (List.replicate t '1')
  parse text := some text.length
  parse_format t := by simp

def emptyHost : Host := ⟨fun _ => false, fun _ _ => false, 2⟩

def firstVM : VM := newVM "0a1b2c3d4e5f" Config.zero 1

def createdStore : RecordStore (recordFormat unaryTime .sqlite) :=
  RecordStore.save ⟨(∅ : ValueMap String VM).insert firstVM.id firstVM, ∅⟩ firstVM

theorem restored_with_all_fields_iff_created : createdStore.ComesBack firstVM := by
  have start : (storeSystem (recordFormat unaryTime .sqlite)).Reachable ⟨∅, ∅⟩ :=
    .start ⟨rfl, rfl⟩
  have stepped : (storeSystem (recordFormat unaryTime .sqlite)).step ⟨∅, ∅⟩
      (.create "0a1b2c3d4e5f" Config.zero 1) = some createdStore := rfl
  have registered : createdStore.vms.lookup firstVM.id = some firstVM := by decide
  have row : ((createdStore.records.lookup firstVM.id).bind
      (recordFormat unaryTime .sqlite).read).map VMState.createdAt = some 1 := by decide
  refine (restored_with_all_fields_iff (start.next stepped) registered (.inl rfl)).mpr ⟨rfl, ?_⟩
  intro _ record st found read
  rw [found, Option.bind_some, read] at row
  exact Option.some.inj row

/-- After any run, a restart registers the VMs that have a record, each as its
record is read, and no others. -/
theorem restart_registers_records {format : RecordFormat} {s : RecordStore format}
    (reached : (storeSystem format).Reachable s) (host : Host) (id : String) :
    (s.restart host).vms.lookup id =
      ((s.records.lookup id).bind format.read).map (restoreVM host) := by
  have tied := tied_of_reachable reached
  rw [RecordStore.restart, RecordStore.foldl_save_vms]
  cases found : s.records.lookup id with
  | none =>
    rw [Option.bind_none, Option.map_none, Option.eq_none_iff_forall_ne_some]
    intro v registered
    obtain ⟨st, member, isId, -⟩ := RecordStore.mem_of_lookup_registerAll registered
    obtain ⟨key, record, recorded, read⟩ := RecordStore.mem_loaded.mp member
    obtain ⟨other, readOther, isKey, -⟩ := tied.recorded key record recorded
    obtain rfl : other = st := Option.some.inj (readOther.symm.trans read)
    rw [← isKey, isId, found] at recorded
    cases recorded
  | some record =>
    obtain ⟨st, read, rfl, -⟩ := tied.recorded id record found
    rw [Option.bind_some, read]
    exact RecordStore.lookup_registerAll host
      (RecordStore.mem_loaded.mpr ⟨st.id, record, found, read⟩) (tied.loaded_unique found read)

theorem restart_registers_records_created :
    (createdStore.restart emptyHost).vms.lookup firstVM.id = some firstVM := by
  have start : (storeSystem (recordFormat unaryTime .sqlite)).Reachable ⟨∅, ∅⟩ :=
    .start ⟨rfl, rfl⟩
  have created : (storeSystem (recordFormat unaryTime .sqlite)).step ⟨∅, ∅⟩
      (.create "0a1b2c3d4e5f" Config.zero 1) = some createdStore := rfl
  rw [restart_registers_records (start.next created)]
  decide

def crashedRun : List StoreLabel :=
  [.create "0a1b2c3d4e5f" Config.zero 1, .change { firstVM with state := .running, pid := 7 },
    .save "0a1b2c3d4e5f", .restart emptyHost]

def markedVM : VM :=
  { firstVM with state := .stopped, stoppedAt := some 2, daemonRecovered := true, done := true }

def LosesMark (kind : StoreKind) : Prop :=
  ∃ s, (storeSystem (recordFormat unaryTime kind)).Reachable s ∧
    s.vms.lookup markedVM.id = some markedVM ∧
    ((s.save markedVM).restart emptyHost).vms.lookup markedVM.id =
      some { markedVM with daemonRecovered := false }

theorem losesMark_of_run {kind : StoreKind}
    (evaluated : ((storeSystem (recordFormat unaryTime kind)).run ⟨∅, ∅⟩ crashedRun).any (fun s =>
      s.vms.lookup markedVM.id = some markedVM ∧
        ((s.save markedVM).restart emptyHost).vms.lookup markedVM.id =
          some { markedVM with daemonRecovered := false }) = true) : LosesMark kind := by
  obtain ⟨s, ran, holds⟩ := (Option.any_eq_true _ _).mp evaluated
  exact ⟨s, .run (.start ⟨rfl, rfl⟩) ran, of_decide_eq_true holds⟩

theorem recovered_mark_lost : LosesMark .file ∧ LosesMark .sqlite :=
  ⟨losesMark_of_run (by decide), losesMark_of_run (by decide)⟩

end Jerboa.Daemon
