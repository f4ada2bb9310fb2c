import Jerboa.GossipRuns
import Jerboa.NewestRegister
import Mathlib.Algebra.Order.Group.Int

/-!
# The order of gossip

What a list of entries about one known member leaves is a status and a report,
the address and counts with the time they are from.  The report is a register
that keeps the newest one; among the entries that call the member gone the
last one decides.
-/

namespace Jerboa.Cluster

open List

/-! ### Reports -/

/-- The part of a member that newer entries replace as a whole. -/
structure Report where
  addr : String
  vmCount : Int
  cpuCap : Int
  memCap : Int
  lastSeen : Time
deriving DecidableEq, Repr

def Member.report (member : Member) : Report :=
  ⟨member.addr, member.vmCount, member.cpuCap, member.memCap, member.lastSeen⟩

def MemberEntry.report (text : TimeText) (entry : MemberEntry) : Report :=
  (entry.discovered text).report

/-- The entries whose report `mergeEntriesLocked` looks at. -/
def MemberEntry.isUpdate (entry : MemberEntry) : Bool :=
  decide (¬(entry.status = .dead ∨ entry.status = .left))

variable {entry : MemberEntry} {entries : List MemberEntry}

theorem MemberEntry.isUpdate_iff :
    entry.isUpdate = true ↔ ¬entry.status.IsGone :=
  decide_eq_true_iff

def updates (text : TimeText) (entries : List MemberEntry) : List Report :=
  (entries.filter MemberEntry.isUpdate).map (MemberEntry.report text)

def mergeStatus (status : MemberStatus) (entry : MemberEntry) : MemberStatus :=
  if entry.status = .dead ∨ entry.status = .left then entry.status
  else if entry.status = .alive ∧ status = .suspect then .alive
  else status

theorem mergeStatus_of_gone (status : MemberStatus) (gone : entry.status.IsGone) :
    mergeStatus status entry = entry.status :=
  if_pos gone

theorem mergeStatus_of_update (status : MemberStatus) (notGone : ¬entry.status.IsGone) :
    mergeStatus status entry =
      if entry.status = .alive ∧ status = .suspect then .alive else status :=
  if_neg notGone

theorem Member.merge_status (text : TimeText) (entry : MemberEntry) (existing : Member) :
    (existing.merge text entry).status = mergeStatus existing.status entry := by
  simp only [Member.merge, mergeStatus]
  split
  · rename_i gone
    have notAlive : entry.status ≠ .alive := MemberStatus.IsGone.ne_alive gone
    simp [notAlive]
  · split
    · split
      · rfl
      · rfl
    · split
      · rfl
      · rfl

theorem Member.merge_report (text : TimeText) (entry : MemberEntry) (existing : Member) :
    (existing.merge text entry).report =
      if entry.isUpdate then
        NewestRegister.offer Report.lastSeen existing.report (entry.report text)
      else existing.report := by
  -- the last `if` of `merge` changes nothing but the status
  have statusOnly : ∀ updated : Member,
      (if entry.status = .alive ∧ updated.status = .suspect then
        { updated with status := .alive } else updated).report = updated.report := by
    intro updated
    split
    · rfl
    · rfl
  rw [Member.merge, statusOnly]
  by_cases gone : entry.status.IsGone
  · rw [if_neg fun isUpdate => MemberEntry.isUpdate_iff.mp isUpdate gone]
    have kept : entry.status = .dead ∨ entry.status = .left := gone
    rw [if_pos kept]
    rfl
  · rw [if_pos (MemberEntry.isUpdate_iff.mpr gone), NewestRegister.offer]
    have replaced : ¬(entry.status = .dead ∨ entry.status = .left) := gone
    rw [if_neg replaced]
    by_cases newer : existing.lastSeen < (text.parse entry.lastSeen).getD 0
    · rw [if_pos newer]
      exact (if_pos newer).symm
    · rw [if_neg newer]
      exact (if_neg newer).symm

def Member.mergeAll (text : TimeText) (member : Member) (entries : List MemberEntry) : Member :=
  entries.foldl (fun existing entry => existing.merge text entry) member

theorem Member.mergeAll_status (text : TimeText) (member : Member) (entries : List MemberEntry) :
    (member.mergeAll text entries).status = entries.foldl mergeStatus member.status := by
  induction entries generalizing member with
  | nil => rfl
  | cons entry entries ih =>
    exact (ih (member.merge text entry)).trans (by rw [merge_status]; rfl)

theorem Member.mergeAll_report (text : TimeText) (member : Member) (entries : List MemberEntry) :
    (member.mergeAll text entries).report =
      NewestRegister.offerAll Report.lastSeen member.report (updates text entries) := by
  induction entries generalizing member with
  | nil => rfl
  | cons entry entries ih =>
    have rest := ih (member.merge text entry)
    rw [merge_report] at rest
    apply rest.trans
    by_cases isUpdate : entry.isUpdate = true
    · simp only [updates, filter_cons_of_pos isUpdate, map_cons,
        NewestRegister.offerAll_cons, if_pos isUpdate]
    · simp only [updates, filter_cons_of_neg isUpdate, if_neg isUpdate]

theorem Member.mergeAll_id (text : TimeText) (member : Member) (entries : List MemberEntry) :
    (member.mergeAll text entries).id = member.id := by
  induction entries generalizing member with
  | nil => rfl
  | cons entry entries ih => exact (ih (member.merge text entry)).trans (merge_id text entry member)

theorem Member.eq_iff {left right : Member} (sameID : left.id = right.id) :
    left = right ↔ left.status = right.status ∧ left.report = right.report := by
  constructor
  · intro same
    rw [same]
    exact ⟨rfl, rfl⟩
  · intro both
    cases left
    cases right
    simp_all [Member.report]

theorem SwimCluster.find_mergeEntriesLocked (text : TimeText) {cluster : SwimCluster} {id : String}
    {member : Member} (remote : id ≠ cluster.localMember.id) (found : cluster.find id = some member)
    (about : ∀ entry ∈ entries, entry.id = id ∧ validEntry entry = true) :
    (cluster.mergeEntriesLocked text entries).find id = some (member.mergeAll text entries) := by
  induction entries generalizing cluster member with
  | nil => exact found
  | cons entry entries ih =>
    obtain ⟨sameID, valid⟩ := about entry mem_cons_self
    have merged : (cluster.mergeEntry text entry).find id = some (member.merge text entry) := by
      rw [find_mergeEntry, if_pos ⟨sameID.symm, remote, valid⟩, found]
      rfl
    have stillRemote : id ≠ (cluster.mergeEntry text entry).localMember.id := by
      rw [mergeEntry_localMember]
      exact remote
    exact ih stillRemote merged (forall_mem_cons.mp about).2

/-! ### Statuses -/

theorem foldl_mergeStatus_gone {status gone : MemberStatus} (isGone : gone.IsGone)
    (only : ∀ entry ∈ entries, entry.status.IsGone → entry.status = gone)
    (reached : status = gone ∨ ∃ entry ∈ entries, entry.status = gone) :
    entries.foldl mergeStatus status = gone := by
  induction entries generalizing status with
  | nil =>
    cases reached with
    | inl same => exact same
    | inr member =>
      obtain ⟨entry, inNil, _⟩ := member
      cases inNil
  | cons entry entries ih =>
    apply ih (forall_mem_cons.mp only).2
    by_cases entryGone : entry.status.IsGone
    · left
      rw [mergeStatus_of_gone status entryGone]
      exact only entry mem_cons_self entryGone
    · cases reached with
      | inl same =>
        left
        have notSuspect : status ≠ .suspect := same ▸ isGone.ne_suspect
        rw [mergeStatus_of_update status entryGone, if_neg fun both => notSuspect both.2]
        exact same
      | inr member =>
        obtain ⟨other, inEntries, otherGone⟩ := member
        cases mem_cons.mp inEntries with
        | inl same =>
          rw [same] at otherGone
          exact absurd (otherGone ▸ isGone) entryGone
        | inr later => exact .inr ⟨other, later, otherGone⟩

theorem foldl_mergeStatus_of_updates {status : MemberStatus}
    (updatesOnly : ∀ entry ∈ entries, ¬entry.status.IsGone) :
    entries.foldl mergeStatus status =
      if status = .suspect ∧ ∃ entry ∈ entries, entry.status = .alive then .alive else status := by
  induction entries generalizing status with
  | nil => simp
  | cons entry entries ih =>
    have rest := fun status => @ih status fun other later =>
      updatesOnly other (mem_cons_of_mem _ later)
    rw [foldl_cons, rest,
      mergeStatus_of_update status (updatesOnly entry mem_cons_self)]
    by_cases suspected : status = .suspect
    · by_cases alive : entry.status = .alive
      · simp [suspected, alive]
      · simp [suspected, alive]
    · simp [suspected]

def GoneAgree (entries : List MemberEntry) : Prop :=
  ¬((∃ entry ∈ entries, entry.status = .dead) ∧ ∃ entry ∈ entries, entry.status = .left)

theorem foldl_mergeStatus_congr_iff (status : MemberStatus) :
    (∀ others : List MemberEntry, (∀ entry, entry ∈ others ↔ entry ∈ entries) →
        others.foldl mergeStatus status = entries.foldl mergeStatus status) ↔
      GoneAgree entries := by
  constructor
  · intro independent both
    obtain ⟨⟨dead, inDead, isDead⟩, left, inLeft, isLeft⟩ := both
    -- the last of the entries that say the member is gone decides
    have last : ∀ entry ∈ entries, entry.status.IsGone →
        entries.foldl mergeStatus status = entry.status := by
      intro entry member gone
      have same := independent (entries ++ [entry]) (by simp [member])
      rw [← same, foldl_append]
      exact mergeStatus_of_gone _ gone
    have asDead := last dead inDead (.inl isDead)
    have asLeft := last left inLeft (.inr isLeft)
    rw [asDead, isDead, isLeft] at asLeft
    cases asLeft
  · intro agree others same
    by_cases someGone : ∃ entry ∈ entries, entry.status.IsGone
    · obtain ⟨entry, member, gone⟩ := someGone
      have only : ∀ other ∈ entries, other.status.IsGone → other.status = entry.status := by
        intro other otherMember otherGone
        cases gone with
        | inl dead =>
          cases otherGone with
          | inl otherDead => rw [dead, otherDead]
          | inr otherLeft =>
            exact absurd ⟨⟨entry, member, dead⟩, other, otherMember, otherLeft⟩ agree
        | inr left =>
          cases otherGone with
          | inl otherDead =>
            exact absurd ⟨⟨other, otherMember, otherDead⟩, entry, member, left⟩ agree
          | inr otherLeft => rw [left, otherLeft]
      rw [foldl_mergeStatus_gone gone only (.inr ⟨entry, member, rfl⟩)]
      apply foldl_mergeStatus_gone gone
      · intro other otherMember
        exact only other ((same other).mp otherMember)
      · exact .inr ⟨entry, (same entry).mpr member, rfl⟩
    · have updatesOnly : ∀ entry ∈ entries, ¬entry.status.IsGone :=
        fun entry member gone => someGone ⟨entry, member, gone⟩
      rw [foldl_mergeStatus_of_updates updatesOnly, foldl_mergeStatus_of_updates]
      · simp only [same]
      · intro entry member
        exact updatesOnly entry ((same entry).mp member)

/-! ### Records -/

theorem mem_updates_congr (text : TimeText) {others : List MemberEntry}
    (same : ∀ entry, entry ∈ others ↔ entry ∈ entries) (report : Report) :
    report ∈ updates text others ↔ report ∈ updates text entries := by
  simp only [updates, mem_map, mem_filter, same]

/-- The record that entries about one member leave depends on nothing but the
set of the entries, for just those lists that do not call the member both dead
and left and whose newest reports agree. -/
theorem Member.mergeAll_congr_iff (text : TimeText) (member : Member)
    (entries : List MemberEntry) :
    (∀ others : List MemberEntry, (∀ entry, entry ∈ others ↔ entry ∈ entries) →
        member.mergeAll text others = member.mergeAll text entries) ↔
      GoneAgree entries ∧
        NewestRegister.NewestAgree Report.lastSeen member.report (updates text entries) := by
  have sameID : ∀ left right : List MemberEntry,
      (member.mergeAll text left).id = (member.mergeAll text right).id := by
    intro left right
    rw [mergeAll_id, mergeAll_id]
  constructor
  · intro independent
    constructor
    · apply (foldl_mergeStatus_congr_iff member.status).mp
      intro others same
      rw [← mergeAll_status text, ← mergeAll_status text, independent others same]
    · apply NewestRegister.newestAgree_of_cons
      intro report reported
      obtain ⟨entry, kept, rfl⟩ := mem_map.mp reported
      obtain ⟨inEntries, isUpdate⟩ := mem_filter.mp kept
      have same := independent (entry :: entries) (by simp [inEntries])
      have reports := congrArg Member.report same
      rw [mergeAll_report, mergeAll_report] at reports
      rwa [updates, filter_cons_of_pos isUpdate, map_cons] at reports
  · rintro ⟨gone, newest⟩ others same
    apply (Member.eq_iff (sameID others entries)).mpr
    constructor
    · rw [mergeAll_status, mergeAll_status]
      exact (foldl_mergeStatus_congr_iff _).mpr gone others same
    · rw [mergeAll_report, mergeAll_report]
      exact NewestRegister.offerAll_congr newest (mem_updates_congr text same)

/-- Two nodes that receive the same valid entries about a remote member they
know, in any order and any number of times, end with the same record for just
those entries that do not call the member both dead and left and whose newest
reports agree. -/
theorem gossip_converges_iff (text : TimeText) (cluster : SwimCluster) (id : String)
    (member : Member) (known : cluster.remotes.lookup id = some member)
    (entries : List MemberEntry)
    (about : ∀ entry ∈ entries, entry.id = id ∧ validEntry entry = true) :
    (∀ others : List MemberEntry, (∀ entry, entry ∈ others ↔ entry ∈ entries) →
        (cluster.mergeEntriesLocked text others).find id =
          (cluster.mergeEntriesLocked text entries).find id) ↔
      GoneAgree entries ∧
        NewestRegister.NewestAgree Report.lastSeen member.report (updates text entries) := by
  have remote := cluster.ne_local_of_lookup known
  have found : cluster.find id = some member :=
    (SwimCluster.find_remote remote).trans known
  rw [← member.mergeAll_congr_iff text entries]
  have records : ∀ others : List MemberEntry, (∀ entry, entry ∈ others ↔ entry ∈ entries) →
      (cluster.mergeEntriesLocked text others).find id = some (member.mergeAll text others) := by
    intro others same
    apply SwimCluster.find_mergeEntriesLocked text remote found
    intro entry inOthers
    exact about entry ((same entry).mp inOthers)
  have record := records entries fun _ => Iff.rfl
  constructor
  · intro independent others same
    apply Option.some.inj
    rw [← records others same, ← record]
    exact independent others same
  · intro independent others same
    rw [records others same, record, independent others same]

def entryAboutB (status : MemberStatus) (vmCount : Int) : MemberEntry :=
  ⟨"b", "10.0.0.2:7946", status, vmCount, 4, 1024, "2026-01-01T00:00:00Z"⟩

/-- A node `a` that knows `b`, by a clock that reads every text as one time. -/
def nodeThatKnowsB (text : TimeText) : SwimCluster :=
  (SwimCluster.newSwimCluster "a" "10.0.0.1:7946" 0 0 0).mergeEntriesLocked text
    [entryAboutB .alive 0]

theorem gossip_converges_iff_suspects :
    let text : TimeText := ⟨fun _ => some 1, fun _ => ""⟩
    let member := (entryAboutB .alive 0).discovered text
    let entries := [entryAboutB .suspect 1, entryAboutB .dead 2]
    ((∀ others : List MemberEntry, (∀ entry, entry ∈ others ↔ entry ∈ entries) →
        ((nodeThatKnowsB text).mergeEntriesLocked text others).find "b" =
          ((nodeThatKnowsB text).mergeEntriesLocked text entries).find "b") ↔
      GoneAgree entries ∧
        NewestRegister.NewestAgree Report.lastSeen member.report (updates text entries)) :=
  gossip_converges_iff ⟨fun _ => some 1, fun _ => ""⟩ (nodeThatKnowsB ⟨fun _ => some 1, fun _ => ""⟩)
    "b" _ rfl [entryAboutB .suspect 1, entryAboutB .dead 2] (by decide)

/-- Two entries, one that says the member is dead and one that it has left: the
one that comes last decides. -/
theorem gossip_order_matters :
    ¬∀ (text : TimeText) (cluster : SwimCluster) (id : String) (member : Member)
      (entries others : List MemberEntry), cluster.remotes.lookup id = some member →
        (∀ entry ∈ entries, entry.id = id ∧ validEntry entry = true) → entries.Perm others →
          (cluster.mergeEntriesLocked text others).find id =
            (cluster.mergeEntriesLocked text entries).find id := by
  intro independent
  have same := independent ⟨fun _ => some 1, fun _ => ""⟩
    (nodeThatKnowsB ⟨fun _ => some 1, fun _ => ""⟩) "b" _
    [entryAboutB .dead 0, entryAboutB .left 0] [entryAboutB .left 0, entryAboutB .dead 0]
    rfl (by decide) (List.Perm.swap _ _ _)
  exact absurd same (by decide)

end Jerboa.Cluster
