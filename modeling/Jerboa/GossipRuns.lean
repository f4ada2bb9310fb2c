import Jerboa.ClusterMembers

/-!
# What gossip can do to a member table

Every operation on the member table is an event with the data the network and
the clock supply, which may be anything.  One relation says what an event, and
so a run of events, can do to the remote members; the local member is followed
separately.
-/

namespace Jerboa.Cluster

/-- `dead` and `left`, the statuses of a member that is gone. -/
def MemberStatus.IsGone (status : MemberStatus) : Prop :=
  status = .dead ∨ status = .left

/-- The checks of `validEntry` on the ID and the address. -/
def Member.HasValidIdentity (member : Member) : Prop :=
  matchesMemberID member.id = true ∧ validAddr member.addr = true

/-! ### One member -/

/-- What can become of a remote member. -/
structure Member.Follows (old new : Member) : Prop where
  id : new.id = old.id
  addr : new.addr = old.addr ∨ validAddr new.addr = true
  gone : old.status.IsGone → new.status.IsGone

namespace Member.Follows

theorem refl (member : Member) : member.Follows member :=
  ⟨rfl, .inl rfl, fun gone => gone⟩

theorem trans {first second third : Member} (before : first.Follows second)
    (after : second.Follows third) : first.Follows third where
  id := after.id.trans before.id
  addr := by
    cases after.addr with
    | inl kept =>
      rw [kept]
      exact before.addr
    | inr valid => exact .inr valid
  gone := fun gone => after.gone (before.gone gone)

theorem hasValidIdentity {old new : Member} (follows : old.Follows new)
    (valid : old.HasValidIdentity) : new.HasValidIdentity := by
  constructor
  · rw [follows.id]
    exact valid.1
  · cases follows.addr with
    | inl kept =>
      rw [kept]
      exact valid.2
    | inr fresh => exact fresh

theorem withStatus (member : Member) {status : MemberStatus}
    (gone : member.status.IsGone → status.IsGone) :
    member.Follows { member with status := status } :=
  ⟨rfl, .inl rfl, gone⟩

end Member.Follows

namespace MemberStatus

theorem IsGone.ne_suspect {status : MemberStatus} (gone : status.IsGone) : status ≠ .suspect := by
  cases gone with
  | inl dead => simp [dead]
  | inr left => simp [left]

theorem IsGone.ne_alive {status : MemberStatus} (gone : status.IsGone) : status ≠ .alive := by
  cases gone with
  | inl dead => simp [dead]
  | inr left => simp [left]

end MemberStatus

namespace Member

theorem follows_seen (member : Member) (now : Time) : member.Follows (member.seen now) :=
  ⟨rfl, .inl rfl, fun gone => gone⟩

theorem follows_recovered (member : Member) (now : Time) :
    member.Follows (member.recovered now) := by
  unfold recovered
  split
  · rename_i suspected
    exact (member.follows_seen now).trans (.withStatus _ fun gone => absurd suspected gone.ne_suspect)
  · exact member.follows_seen now

theorem follows_checked (member : Member) (now : Time) : member.Follows (member.checked now) := by
  -- the second `if` looks at the member the first one leaves
  have later : ∀ suspected : Member, suspected.Follows
      (if suspected.status = .suspect ∧ now - suspected.lastSeen > deadTimeout then
        { suspected with status := .dead } else suspected) := by
    intro suspected
    split
    · exact .withStatus _ fun _ => .inl rfl
    · exact .refl _
  apply Follows.trans _ (later _)
  split
  · rename_i expired
    exact .withStatus _ fun gone => absurd expired.1 gone.ne_alive
  · exact .refl _

theorem follows_merge (text : TimeText) {entry : MemberEntry} (valid : validEntry entry = true)
    (existing : Member) : existing.Follows (existing.merge text entry) := by
  have later : ∀ updated : Member, updated.Follows
      (if entry.status = .alive ∧ updated.status = .suspect then
        { updated with status := .alive } else updated) := by
    intro updated
    split
    · rename_i suspected
      exact .withStatus _ fun gone => absurd suspected.2 gone.ne_suspect
    · exact .refl _
  apply Follows.trans _ (later _)
  split
  · rename_i gone
    exact .withStatus _ fun _ => gone
  · split
    · exact ⟨rfl, .inr (validEntry_iff.mp valid).2.1, fun gone => gone⟩
    · exact .refl _

end Member

/-! ### The table -/

namespace SwimCluster

/-- What can become of a table: its remote members go their way, and the ones
that are added have a valid ID and address. -/
structure Follows (before after : SwimCluster) : Prop where
  localID : after.localMember.id = before.localMember.id
  known : ∀ id member, id ≠ before.localMember.id → before.find id = some member →
    ∃ later, after.find id = some later ∧ member.Follows later
  added : ∀ id member, id ≠ before.localMember.id → before.find id = none →
    after.find id = some member → member.HasValidIdentity

theorem Follows.refl (cluster : SwimCluster) : cluster.Follows cluster where
  localID := rfl
  known := fun _ member _ found => ⟨member, found, .refl member⟩
  added := by
    intro id member _ absent found
    rw [absent] at found
    cases found

theorem Follows.trans {first second third : SwimCluster} (before : first.Follows second)
    (after : second.Follows third) : first.Follows third where
  localID := after.localID.trans before.localID
  known := by
    intro id member remote found
    obtain ⟨middle, foundMiddle, start⟩ := before.known id member remote found
    have stillRemote : id ≠ second.localMember.id := before.localID ▸ remote
    obtain ⟨last, foundLast, finish⟩ := after.known id middle stillRemote foundMiddle
    exact ⟨last, foundLast, start.trans finish⟩
  added := by
    intro id member remote absent found
    have stillRemote : id ≠ second.localMember.id := before.localID ▸ remote
    cases middle : second.find id with
    | none => exact after.added id member stillRemote middle found
    | some early =>
      have valid := before.added id early remote absent middle
      obtain ⟨last, foundLast, follows⟩ := after.known id early stillRemote middle
      rw [found] at foundLast
      cases foundLast
      exact follows.hasValidIdentity valid

theorem follows_adjust (cluster : SwimCluster) {change : Member → Member}
    (keepsID : ∀ member, (change member).id = member.id)
    (follows : ∀ member : Member,
      member.id ≠ cluster.localMember.id → member.Follows (change member)) :
    cluster.Follows (cluster.adjust change keepsID) where
  localID := keepsID cluster.localMember
  known := by
    intro id member remote found
    refine ⟨change member, ?_, follows member ?_⟩
    · rw [find_adjust, found]
      rfl
    · rw [id_of_find found]
      exact remote
  added := by
    intro id member _ absent found
    rw [find_adjust, absent] at found
    cases found

theorem follows_adjustAt (cluster : SwimCluster) (id : String) {change : Member → Member}
    (keepsID : ∀ member, (change member).id = member.id)
    (follows : id ≠ cluster.localMember.id → ∀ member : Member, member.Follows (change member)) :
    cluster.Follows (cluster.adjustAt id change keepsID) := by
  apply follows_adjust
  intro member remote
  split
  · rename_i same
    exact follows (same ▸ remote) member
  · exact .refl member

theorem follows_mergeEntry (text : TimeText) (cluster : SwimCluster) (entry : MemberEntry) :
    cluster.Follows (cluster.mergeEntry text entry) where
  localID := by rw [mergeEntry_localMember]
  known := by
    intro id member remote found
    rw [find_mergeEntry, found]
    split
    · rename_i about
      exact ⟨member.merge text entry, rfl, member.follows_merge text about.2.2⟩
    · exact ⟨member, rfl, .refl member⟩
  added := by
    intro id member remote absent found
    rw [find_mergeEntry, absent] at found
    split at found
    · rename_i about
      obtain rfl : entry.discovered text = member := Option.some.inj found
      have valid := validEntry_iff.mp about.2.2
      exact ⟨valid.1, valid.2.1⟩
    · cases found

theorem follows_mergeEntriesLocked (text : TimeText) (cluster : SwimCluster)
    (entries : List MemberEntry) :
    cluster.Follows (cluster.mergeEntriesLocked text entries) := by
  induction entries generalizing cluster with
  | nil => exact .refl cluster
  | cons entry entries ih =>
    exact (follows_mergeEntry text cluster entry).trans (ih (cluster.mergeEntry text entry))

end SwimCluster

/-! ### Events -/

/-- What can happen to a node, with what the network and the clock supply. -/
inductive Event
  | handleGossip (payload : GossipPayload) (now : Time)
  | gossipReply (remote : GossipPayload) (now : Time)
  | joinReply (entries : List MemberEntry)
  | gossipFailed (addr : String)
  | suspicionTick (now : Time)
  | leave
  | updateLocal (vmCount cpuCap memCap : Int) (now : Time)

namespace SwimCluster

def step (text : TimeText) (cluster : SwimCluster) : Event → SwimCluster
  | .handleGossip payload now => (cluster.handleGossip text payload now).1
  | .gossipReply remote now => cluster.gossipReply text remote now
  -- `Join` merges what a seed answers
  | .joinReply entries => cluster.mergeEntriesLocked text entries
  | .gossipFailed addr => cluster.markSuspect addr
  | .suspicionTick now => cluster.checkSuspicions now
  | .leave => cluster.leave
  | .updateLocal vmCount cpuCap memCap now => cluster.updateLocal vmCount cpuCap memCap now

def run (text : TimeText) (cluster : SwimCluster) (events : List Event) : SwimCluster :=
  events.foldl (step text) cluster

theorem follows_handleGossip (text : TimeText) (cluster : SwimCluster) (payload : GossipPayload)
    (now : Time) : cluster.Follows (cluster.handleGossip text payload now).1 := by
  simp only [handleGossip]
  apply (follows_mergeEntriesLocked text cluster payload.members).trans
  exact follows_adjustAt _ _ _ fun _ member => member.follows_recovered now

theorem follows_gossipReply (text : TimeText) (cluster : SwimCluster) (remote : GossipPayload)
    (now : Time) : cluster.Follows (cluster.gossipReply text remote now) := by
  unfold gossipReply
  apply (follows_mergeEntriesLocked text cluster remote.members).trans
  exact follows_adjustAt _ _ _ fun _ member => member.follows_seen now

theorem follows_markSuspect (cluster : SwimCluster) (addr : String) :
    cluster.Follows (cluster.markSuspect addr) := by
  unfold markSuspect
  apply follows_adjust
  intro member _
  split
  · rename_i reached
    exact .withStatus _ fun gone => absurd reached.2.2 gone.ne_alive
  · exact .refl member

theorem follows_checkSuspicions (cluster : SwimCluster) (now : Time) :
    cluster.Follows (cluster.checkSuspicions now) := by
  unfold checkSuspicions
  apply follows_adjust
  intro member remote
  rw [if_pos remote]
  exact member.follows_checked now

theorem follows_adjustAt_local (cluster : SwimCluster) {change : Member → Member}
    (keepsID : ∀ member, (change member).id = member.id) :
    cluster.Follows (cluster.adjustAt cluster.localMember.id change keepsID) := by
  apply follows_adjustAt
  intro remote
  exact absurd rfl remote

theorem follows_step (text : TimeText) (cluster : SwimCluster) (event : Event) :
    cluster.Follows (cluster.step text event) := by
  cases event with
  | handleGossip payload now => exact follows_handleGossip text cluster payload now
  | gossipReply remote now => exact follows_gossipReply text cluster remote now
  | joinReply entries => exact follows_mergeEntriesLocked text cluster entries
  | gossipFailed addr => exact follows_markSuspect cluster addr
  | suspicionTick now => exact follows_checkSuspicions cluster now
  | leave =>
    simp only [step, leave]
    exact follows_adjustAt_local cluster _
  | updateLocal vmCount cpuCap memCap now =>
    simp only [step, updateLocal]
    exact follows_adjustAt_local cluster _

theorem follows_run (text : TimeText) (cluster : SwimCluster) (events : List Event) :
    cluster.Follows (cluster.run text events) := by
  induction events generalizing cluster with
  | nil => exact .refl cluster
  | cons event events ih =>
    exact (follows_step text cluster event).trans (ih (cluster.step text event))

/-- The local member is as `NewSwimCluster` made it or as `Leave` left it. -/
def LocalSettled (cluster : SwimCluster) : Prop :=
  cluster.localMember.status = .alive ∨ cluster.localMember.status = .left

variable {cluster : SwimCluster}

theorem step_localMember_status (text : TimeText)
    (settled : cluster.LocalSettled) (event : Event) :
    (cluster.step text event).localMember.status = cluster.localMember.status ∨
      event = .leave ∧ (cluster.step text event).localMember.status = .left := by
  cases event with
  | handleGossip payload now =>
    left
    have merged := mergeEntriesLocked_localMember text cluster payload.members
    have notSuspect : cluster.localMember.status ≠ .suspect := by
      cases settled with
      | inl alive => simp [alive]
      | inr gone => simp [gone]
    simp only [step, handleGossip, adjustAt, adjust_localMember, merged, Member.recovered,
      Member.seen, if_neg notSuspect]
    split
    · rfl
    · rfl
  | gossipReply remote now =>
    left
    have merged := mergeEntriesLocked_localMember text cluster remote.members
    simp only [step, gossipReply, adjustAt, adjust_localMember, merged, Member.seen]
    split
    · rfl
    · rfl
  | joinReply entries =>
    left
    exact congrArg Member.status (mergeEntriesLocked_localMember text cluster entries)
  | gossipFailed addr =>
    left
    simp [step, markSuspect]
  | suspicionTick now =>
    left
    simp [step, checkSuspicions]
  | leave =>
    right
    simp [step, leave, adjustAt]
  | updateLocal vmCount cpuCap memCap now =>
    left
    simp [step, updateLocal, adjustAt]

theorem LocalSettled.step (text : TimeText)
    (settled : cluster.LocalSettled) (event : Event) :
    (cluster.step text event).LocalSettled := by
  cases step_localMember_status text settled event with
  | inl kept =>
    unfold LocalSettled
    rw [kept]
    exact settled
  | inr gone => exact .inr gone.2

theorem LocalSettled.run (text : TimeText)
    (settled : cluster.LocalSettled) (events : List Event) :
    (cluster.run text events).LocalSettled := by
  induction events generalizing cluster with
  | nil => exact settled
  | cons event events ih => exact ih (settled.step text event)

/-- Every run of events, from every table of valid remote members: a remote
member that is gone stays gone, the status of the local member changes only
when it leaves, no member is dropped, and every remote member has a valid ID
and address. -/
theorem members_of_run (text : TimeText) (cluster : SwimCluster)
    (settled : cluster.LocalSettled)
    (valid : ∀ id member, cluster.remotes.lookup id = some member → member.HasValidIdentity)
    (events later : List Event) :
    let now := cluster.run text events
    let afterwards := now.run text later
    (∀ id member, now.remotes.lookup id = some member → member.status.IsGone →
      ∃ last, afterwards.remotes.lookup id = some last ∧
        last.status ≠ .alive ∧ last.status ≠ .suspect) ∧
    (∀ event, (now.step text event).localMember.status ≠ now.localMember.status →
      event = .leave ∧ now.localMember.status = .alive ∧
        (now.step text event).localMember.status = .left) ∧
    (∀ id, (now.find id).isSome → (afterwards.find id).isSome) ∧
    (∀ id member, now.remotes.lookup id = some member → member.HasValidIdentity) := by
  intro now afterwards
  have goneOn : now.Follows afterwards := follows_run text now later
  refine ⟨?_, ?_, ?_, ?_⟩
  · intro id member found gone
    have remote := now.ne_local_of_lookup found
    obtain ⟨last, foundLast, follows⟩ :=
      goneOn.known id member remote ((find_remote remote).trans found)
    have stillRemote : id ≠ afterwards.localMember.id := goneOn.localID ▸ remote
    rw [find_remote stillRemote] at foundLast
    exact ⟨last, foundLast, (follows.gone gone).ne_alive, (follows.gone gone).ne_suspect⟩
  · intro event changed
    have settledNow : now.LocalSettled := settled.run text events
    cases step_localMember_status text settledNow event with
    | inl kept => exact absurd kept changed
    | inr left =>
      refine ⟨left.1, ?_, left.2⟩
      cases settledNow with
      | inl alive => exact alive
      | inr gone => exact absurd (left.2.trans gone.symm) changed
  · intro id present
    by_cases isLocal : id = now.localMember.id
    · have stillLocal : id = afterwards.localMember.id := isLocal.trans goneOn.localID.symm
      rw [stillLocal, find_local]
      rfl
    · obtain ⟨member, found⟩ := Option.isSome_iff_exists.mp present
      obtain ⟨last, foundLast, _⟩ := goneOn.known id member isLocal found
      rw [foundLast]
      rfl
  · intro id member found
    have come : cluster.Follows now := follows_run text cluster events
    have remote := now.ne_local_of_lookup found
    have wasRemote : id ≠ cluster.localMember.id := come.localID ▸ remote
    have foundNow := (find_remote remote).trans found
    cases before : cluster.find id with
    | none => exact come.added id member wasRemote before foundNow
    | some early =>
      obtain ⟨last, foundLast, follows⟩ := come.known id early wasRemote before
      rw [foundNow] at foundLast
      cases foundLast
      rw [find_remote wasRemote] at before
      exact follows.hasValidIdentity (valid id early before)

/-- A node that knows a member `b` which died: an entry that calls it alive
again, with a newer time, changes nothing. -/
theorem members_of_run_dead :
    let text : TimeText := ⟨fun _ => some 1, fun _ => ""⟩
    let entry : MemberEntry := ⟨"b", "10.0.0.2:7946", .dead, 0, 4, 1024, ""⟩
    let cluster := newSwimCluster "a" "10.0.0.1:7946" 0 0 0
    let now := cluster.run text [.handleGossip ⟨"b", [entry]⟩ 0]
    let afterwards := now.run text [.handleGossip ⟨"b", [{ entry with status := .alive }]⟩ 0]
    ∃ member, now.remotes.lookup "b" = some member ∧ member.status.IsGone ∧
      ∃ last, afterwards.remotes.lookup "b" = some last ∧
        last.status ≠ .alive ∧ last.status ≠ .suspect := by
  intro text entry cluster now afterwards
  have all := members_of_run text cluster (.inl rfl) (by
    intro id member found
    rw [show cluster.remotes = ∅ from rfl, AList.lookup_empty] at found
    cases found)
    [.handleGossip ⟨"b", [entry]⟩ 0] [.handleGossip ⟨"b", [{ entry with status := .alive }]⟩ 0]
  have gone : ((entry.discovered text).recovered 0).status.IsGone := .inl rfl
  have found : now.remotes.lookup "b" = some ((entry.discovered text).recovered 0) := by
    decide
  exact ⟨(entry.discovered text).recovered 0, found, gone, all.1 "b" _ found gone⟩

end SwimCluster

end Jerboa.Cluster
