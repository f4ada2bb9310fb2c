import Jerboa.VMStore

/-!
# Migrating file-store VMs to SQLite

`Migrator.Migrate` reads the directories of the file store and hands every VM
that is not yet known to `writeVM`.  `writeVM` skips a VM that is not in the
in-memory registry, and the migrator registers the VM only afterwards, so the
database never changes.
-/

namespace Jerboa.Vm

open List

/-- `SQLiteStore`: the in-memory registry and the rows of the table, whose
primary key is the VM ID. -/
structure SQLiteStore where
  vms : List (String × VM)
  db : List VMState

def SQLiteStore.ofDatabase (db : List VMState) : SQLiteStore where
  vms := []
  db := db

def SQLiteStore.get (s : SQLiteStore) (id : String) : Option VM :=
  (s.vms.find? fun entry => entry.1 = id).map Prod.snd

def SQLiteStore.writeVM (s : SQLiteStore) (v : VM) : SQLiteStore :=
  if (s.get v.id).isNone then s else { s with db := writeRecord .sqlite s.db v.snapshot }

/-- `SQLiteStore.Restore`, without the write-back of recovered VMs, which comes
after the registry is filled. -/
def SQLiteStore.restore (host : Host) (s : SQLiteStore) : SQLiteStore :=
  { s with vms := restoreAll host s.db }

/-- One entry of the file store's directory: `state` is the parsed contents of
its `state.json`, and `now` the time at which the migrator handles it. -/
structure DirEntry where
  name : String
  isDir : Bool
  state : Option VMState
  now : Time

def migratedVM (st : VMState) (now : Time) : VM :=
  let v := loadVM st
  let v := match st.state with
    | .running | .starting =>
      { v with
        state := .stopped
        stoppedAt := some now
        daemonRecovered := true
        done := true }
    | .stopped => { v with done := true }
    | _ => v
  { v with healthStatus := "", daemonRecovered := v.daemonRecovered || st.daemonRecovered }

def migrateEntry (progress : SQLiteStore × Nat) (entry : DirEntry) : SQLiteStore × Nat :=
  let (s, migrated) := progress
  if !entry.isDir then progress
  else
    match entry.state with
    | none => progress
    | some st =>
      if (s.get st.id).isSome then progress
      else
        let v := migratedVM st entry.now
        let s := s.writeVM v
        ({ s with vms := putVM s.vms v }, migrated + 1)

/-- `Migrator.Migrate`: the store afterwards and the number of migrated VMs. -/
def migrate (s : SQLiteStore) (entries : List DirEntry) : SQLiteStore × Nat :=
  entries.foldl migrateEntry (s, 0)

theorem migratedVM_id (st : VMState) (now : Time) : (migratedVM st now).id = st.id := by
  unfold migratedVM
  simp only
  split <;> rfl

theorem migrateEntry_db (progress : SQLiteStore × Nat) (entry : DirEntry) :
    (migrateEntry progress entry).1.db = progress.1.db := by
  obtain ⟨s, migrated⟩ := progress
  simp only [migrateEntry]
  split
  · rfl
  · split
    · rfl
    · split
      · rfl
      · rename_i st _ unknown
        have missing : s.get (migratedVM st entry.now).id = none := by
          simpa [migratedVM_id] using unknown
        simp [SQLiteStore.writeVM, missing]

theorem migrate_db (s : SQLiteStore) (entries : List DirEntry) :
    (migrate s entries).1.db = s.db := by
  unfold migrate
  generalize 0 = migrated
  induction entries generalizing s migrated with
  | nil => rfl
  | cons entry rest ih =>
    rw [foldl_cons]
    generalize step : migrateEntry (s, migrated) entry = progress
    obtain ⟨s', migrated'⟩ := progress
    have unchanged := migrateEntry_db (s, migrated) entry
    rw [step] at unchanged
    rw [ih s' migrated']
    exact unchanged

def readableStates (entries : List DirEntry) : List VMState :=
  entries.filterMap fun entry => if entry.isDir then entry.state else none

theorem readableStates_cons (entry : DirEntry) (rest : List DirEntry) :
    readableStates (entry :: rest) = readableStates [entry] ++ readableStates rest := by
  rw [← singleton_append, readableStates, filterMap_append]
  rfl

theorem migrateEntry_count_le (progress : SQLiteStore × Nat) (entry : DirEntry) :
    progress.2 ≤ (migrateEntry progress entry).2 := by
  simp only [migrateEntry]
  repeat' split
  all_goals omega

theorem foldl_count_le (progress : SQLiteStore × Nat) (entries : List DirEntry) :
    progress.2 ≤ (entries.foldl migrateEntry progress).2 := by
  induction entries generalizing progress with
  | nil => exact Nat.le_refl _
  | cons entry rest ih =>
    exact Nat.le_trans (migrateEntry_count_le progress entry) (ih _)

theorem migrateEntry_unreadable (progress : SQLiteStore × Nat) {entry : DirEntry}
    (unreadable : readableStates [entry] = []) : migrateEntry progress entry = progress := by
  simp only [readableStates, filterMap_cons, filterMap_nil] at unreadable
  simp only [migrateEntry]
  cases isDir : entry.isDir with
  | false => rfl
  | true =>
    cases state : entry.state with
    | none => rfl
    | some st => simp [isDir, state] at unreadable

theorem migrate_count_eq_zero_iff (db : List VMState) (entries : List DirEntry) :
    (migrate (.ofDatabase db) entries).2 = 0 ↔ readableStates entries = [] := by
  unfold migrate
  induction entries with
  | nil => simp [readableStates]
  | cons entry rest ih =>
    rw [foldl_cons, readableStates_cons, append_eq_nil_iff]
    by_cases unreadable : readableStates [entry] = []
    · rw [migrateEntry_unreadable _ unreadable, ih]
      simp [unreadable]
    · -- the first readable record is migrated, since the registry is empty
      have counted : (migrateEntry (.ofDatabase db, 0) entry).2 = 1 := by
        simp only [readableStates, filterMap_cons, filterMap_nil] at unreadable
        cases isDir : entry.isDir with
        | false => simp [isDir] at unreadable
        | true =>
          cases state : entry.state with
          | none => simp [isDir, state] at unreadable
          | some st =>
            simp [migrateEntry, isDir, state, SQLiteStore.get,
              SQLiteStore.ofDatabase]
      have grows := foldl_count_le (migrateEntry (.ofDatabase db, 0) entry) rest
      simp only [unreadable, false_and, iff_false]
      omega

/-- What a later process finds: as many VMs more as were migrated, the
migrated ones being those registered by the migrator, each with the data of a
readable record of its ID and at rest. -/
def MigrationPersisted (before after : Host) (db : List VMState)
    (entries : List DirEntry) : Prop :=
  let result := migrate (.ofDatabase db) entries
  let old := ((SQLiteStore.ofDatabase db).restore before).vms
  let new := ((SQLiteStore.ofDatabase result.1.db).restore after).vms
  new.length = old.length + result.2 ∧
    (∀ id, id ∈ new.map Prod.fst ↔
      id ∈ old.map Prod.fst ∨ id ∈ result.1.vms.map Prod.fst) ∧
    ∀ id ∈ result.1.vms.map Prod.fst, ∃ st ∈ readableStates entries, ∃ v,
      st.id = id ∧ (id, v) ∈ new ∧ v.cfg = st.config ∧ v.createdAt = st.createdAt ∧
        v.restartCount = st.restartCount ∧ (v.state = .stopped ∨ v.state = .created)

theorem migrate_vms_of_unreadable (s : SQLiteStore) {entries : List DirEntry}
    (unreadable : readableStates entries = []) : migrate s entries = (s, 0) := by
  unfold migrate
  generalize 0 = migrated
  induction entries with
  | nil => rfl
  | cons entry rest ih =>
    rw [readableStates_cons, append_eq_nil_iff] at unreadable
    rw [foldl_cons, migrateEntry_unreadable _ unreadable.1, ih unreadable.2]

/-- The migrated VMs are there after a restart exactly when there were none. -/
theorem migrationPersisted_iff (before after : Host) (db : List VMState)
    (entries : List DirEntry) :
    MigrationPersisted before after db entries ↔ readableStates entries = [] := by
  have sameSize : (restoreAll after db).length = (restoreAll before db).length := by
    rw [← length_map Prod.fst, restoreAll_keys, ← length_map Prod.fst,
      restoreAll_keys]
  constructor
  · intro persisted
    rw [← migrate_count_eq_zero_iff db]
    have count := persisted.1
    rw [migrate_db] at count
    simp only [SQLiteStore.restore, SQLiteStore.ofDatabase, sameSize] at count
    exact Nat.left_eq_add.mp count
  · intro unreadable
    simp only [MigrationPersisted, migrate_vms_of_unreadable _ unreadable,
      SQLiteStore.restore, SQLiteStore.ofDatabase, map_nil, not_mem_nil,
      or_false, false_implies, implies_true, and_true]
    refine ⟨sameSize, ?_⟩
    intro id
    rw [restoreAll_keys, restoreAll_keys]

def createdEntry : DirEntry where
  name := "0a1b2c3d4e5f"
  isDir := true
  state := some ((newVM "0a1b2c3d4e5f" { Config.zero with imagePath := "disk.img" } 1).snapshot)
  now := 5

/-- The VM is reported as migrated and is gone after a restart. -/
theorem migrated_vm_lost :
    ¬ MigrationPersisted ⟨fun _ => false, fun _ _ => false, 6⟩
      ⟨fun _ => false, fun _ _ => false, 9⟩ [] [createdEntry] := by
  intro persisted
  have count := persisted.1
  revert count
  decide

end Jerboa.Vm
