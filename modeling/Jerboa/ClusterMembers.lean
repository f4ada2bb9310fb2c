import Jerboa.ValueMap
import Mathlib.Data.List.Basic

/-!
# The member table of a cluster node

`internal/cluster/cluster.go`: the member table of a node and the operations
that change it.  Every operation holds the cluster's mutex while it changes
the table, so each is one atomic step; the network is seen only through the
payloads it delivers and the calls that fail.  Log lines are left out.
-/

namespace Jerboa.Cluster

/-- `MemberStatus`: a text, of which four values have a meaning. -/
inductive MemberStatus
  | alive
  | suspect
  | dead
  | left
  | other (text : String)
deriving DecidableEq, Repr

abbrev Time := Int

/-- The RFC 3339 texts of `time.Parse` and `Time.Format`. -/
structure TimeText where
  parse : String → Option Time
  format : Time → String

structure Member where
  id : String
  addr : String
  status : MemberStatus
  vmCount : Int
  cpuCap : Int
  memCap : Int
  lastSeen : Time
deriving DecidableEq, Repr

structure MemberEntry where
  id : String
  addr : String
  status : MemberStatus
  vmCount : Int
  cpuCap : Int
  memCap : Int
  lastSeen : String
deriving DecidableEq, Repr

structure GossipPayload where
  memberID : String
  members : List MemberEntry
deriving DecidableEq, Repr

/-! ### Entries that may be merged -/

def isMemberIDChar (char : Char) : Bool :=
  char.isAlphanum || char == '.' || char == '_' || char == ':' || char == '-'

def matchesMemberID (id : String) : Bool :=
  let chars := id.toList
  chars.all isMemberIDChar && decide (1 ≤ chars.length) && decide (chars.length ≤ 128)

def lastColon (text : List Char) : Option Nat :=
  (text.reverse.idxOf? ':').map fun index => text.length - 1 - index

/-- `net.SplitHostPort`; `none` stands for its errors, whose texts nothing
here reads. -/
def splitHostPort (hostport : List Char) : Option (List Char × List Char) :=
  -- no bracket may stand after the part that was already looked at
  let finish (host : List Char) (opened closed colon : Nat) :=
    if '[' ∈ hostport.drop opened ∨ ']' ∈ hostport.drop closed then none
    else some (host, hostport.drop (colon + 1))
  match lastColon hostport with
  | none => none
  | some colon =>
    if hostport.head? = some '[' then
      match hostport.idxOf? ']' with
      | none => none
      | some closing =>
        if closing + 1 = colon then
          finish ((hostport.take closing).drop 1) 1 (closing + 1) colon
        else none
    else if ':' ∈ hostport.take colon then none
    else finish (hostport.take colon) 0 0 colon

/-- The address check of `validEntry`: a host and a port, both not empty. -/
def validAddr (addr : String) : Bool :=
  match splitHostPort addr.toList with
  | none => false
  | some (host, port) => !host.isEmpty && !port.isEmpty

def validEntry (entry : MemberEntry) : Bool :=
  matchesMemberID entry.id && validAddr entry.addr &&
    match entry.status with
    | .alive | .suspect | .dead | .left => true
    | .other _ => false

theorem validEntry_iff {entry : MemberEntry} :
    validEntry entry = true ↔ matchesMemberID entry.id = true ∧ validAddr entry.addr = true ∧
      ∀ text, entry.status ≠ .other text := by
  unfold validEntry
  cases entry.status <;> simp

/-! ### The table -/

/-- The member table of a `SwimCluster`.  The map `members` of the source holds
the local member, by a pointer to the field `local`, and the remote ones, each
under its own ID. -/
structure SwimCluster where
  localMember : Member
  remotes : ValueMap String Member
  named : ∀ id member, remotes.lookup id = some member → member.id = id
  foreign : remotes.lookup localMember.id = none

namespace SwimCluster

def newSwimCluster (id addr : String) (vmCount cpuCap memCap : Int) : SwimCluster where
  localMember :=
    { id := id
      addr := addr
      status := .alive
      vmCount := vmCount
      cpuCap := cpuCap
      memCap := memCap
      lastSeen := 0 }
  remotes := ∅
  named := by
    intro key member found
    rw [AList.lookup_empty] at found
    cases found
  foreign := AList.lookup_empty _

def find (cluster : SwimCluster) (id : String) : Option Member :=
  if id = cluster.localMember.id then some cluster.localMember else cluster.remotes.lookup id

def members (cluster : SwimCluster) : List Member :=
  cluster.localMember :: ValueMap.values cluster.remotes

/-- Change every member of the table in place: `for _, m := range c.members`. -/
def adjust (cluster : SwimCluster) (change : Member → Member)
    (keepsID : ∀ member, (change member).id = member.id) : SwimCluster where
  localMember := change cluster.localMember
  remotes := ValueMap.mapValues cluster.remotes change
  named := by
    intro id member found
    rw [ValueMap.lookup_mapValues, Option.map_eq_some_iff] at found
    obtain ⟨old, present, rfl⟩ := found
    rw [keepsID]
    exact cluster.named id old present
  foreign := by
    rw [ValueMap.lookup_mapValues, keepsID, cluster.foreign]
    rfl

theorem ite_id {condition : Member → Prop} [DecidablePred condition] {change : Member → Member}
    (keepsID : ∀ member, (change member).id = member.id) (member : Member) :
    (if condition member then change member else member).id = member.id := by
  split
  · exact keepsID member
  · rfl

/-- Change one member in place: `if m, ok := c.members[id]; ok`. -/
def adjustAt (cluster : SwimCluster) (id : String) (change : Member → Member)
    (keepsID : ∀ member, (change member).id = member.id) : SwimCluster :=
  cluster.adjust (fun member => if member.id = id then change member else member) (ite_id keepsID)

/-- `c.members[member.ID] = &member` for a member that is not in the table. -/
def insert (cluster : SwimCluster) (member : Member) (absent : cluster.find member.id = none) :
    SwimCluster where
  localMember := cluster.localMember
  remotes := cluster.remotes.insert member.id member
  named := by
    intro id other found
    rw [ValueMap.lookup_insert_cases] at found
    split at found
    · rename_i same
      rw [← Option.some.inj found, same]
    · exact cluster.named id other found
  foreign := by
    have different : cluster.localMember.id ≠ member.id := by
      intro same
      simp [find, ← same] at absent
    rw [ValueMap.lookup_insert_cases, if_neg different]
    exact cluster.foreign

theorem find_local (cluster : SwimCluster) :
    cluster.find cluster.localMember.id = some cluster.localMember :=
  if_pos rfl

theorem find_remote {cluster : SwimCluster} {id : String} (remote : id ≠ cluster.localMember.id) :
    cluster.find id = cluster.remotes.lookup id :=
  if_neg remote

theorem ne_local_of_lookup (cluster : SwimCluster) {id : String} {member : Member}
    (found : cluster.remotes.lookup id = some member) : id ≠ cluster.localMember.id := by
  intro isLocal
  rw [isLocal, cluster.foreign] at found
  cases found

theorem id_of_find {cluster : SwimCluster} {id : String} {member : Member}
    (found : cluster.find id = some member) : member.id = id := by
  unfold find at found
  split at found
  · rename_i isLocal
    rw [← Option.some.inj found, isLocal]
  · exact cluster.named id member found

section

variable (cluster : SwimCluster)

@[simp]
theorem adjust_localMember (change : Member → Member)
    (keepsID : ∀ member, (change member).id = member.id) :
    (cluster.adjust change keepsID).localMember = change cluster.localMember :=
  rfl

theorem find_adjust (change : Member → Member)
    (keepsID : ∀ member, (change member).id = member.id) (id : String) :
    (cluster.adjust change keepsID).find id = (cluster.find id).map change := by
  simp only [find, adjust, keepsID, ValueMap.lookup_mapValues]
  split
  · rfl
  · rfl

theorem find_adjustAt (id other : String) (change : Member → Member)
    (keepsID : ∀ member, (change member).id = member.id) :
    (cluster.adjustAt id change keepsID).find other =
      if other = id then (cluster.find other).map change else cluster.find other := by
  rw [adjustAt, find_adjust]
  cases found : cluster.find other with
  | none => simp
  | some member =>
    have named : member.id = other := id_of_find found
    simp only [Option.map_some, named]
    split
    · rfl
    · rfl

theorem find_insert (member : Member)
    (absent : cluster.find member.id = none) (id : String) :
    (cluster.insert member absent).find id =
      if id = member.id then some member else cluster.find id := by
  by_cases isLocal : id = cluster.localMember.id
  · have different : id ≠ member.id := by
      intro same
      rw [← same, isLocal, find_local] at absent
      cases absent
    rw [if_neg different, isLocal, find_local]
    exact find_local (cluster.insert member absent)
  · simp only [find, insert, if_neg isLocal, ValueMap.lookup_insert_cases]

end

end SwimCluster

/-! ### The operations -/

def MemberEntry.discovered (text : TimeText) (entry : MemberEntry) : Member where
  id := entry.id
  addr := entry.addr
  status := entry.status
  vmCount := entry.vmCount
  cpuCap := entry.cpuCap
  memCap := entry.memCap
  -- a text that does not parse gives the zero time
  lastSeen := (text.parse entry.lastSeen).getD 0

namespace Member

/-- The part of `mergeEntriesLocked` that works on a known member. -/
def merge (text : TimeText) (entry : MemberEntry) (existing : Member) : Member :=
  let entryTime := (text.parse entry.lastSeen).getD 0
  let updated :=
    if entry.status = .dead ∨ entry.status = .left then { existing with status := entry.status }
    else if existing.lastSeen < entryTime then
      { existing with
        addr := entry.addr
        vmCount := entry.vmCount
        cpuCap := entry.cpuCap
        memCap := entry.memCap
        lastSeen := entryTime }
    else existing
  if entry.status = .alive ∧ updated.status = .suspect then { updated with status := .alive }
  else updated

def seen (now : Time) (member : Member) : Member :=
  { member with lastSeen := now }

def recovered (now : Time) (member : Member) : Member :=
  if (member.seen now).status = .suspect then { member.seen now with status := .alive }
  else member.seen now

/-- `suspTimeout` and `deadTimeout`, as `NewSwimCluster` sets them. -/
def suspTimeout : Int := 15 * 1000000000

@[inherit_doc suspTimeout]
def deadTimeout : Int := 30 * 1000000000

def checked (now : Time) (member : Member) : Member :=
  let suspected :=
    if member.status = .alive ∧ now - member.lastSeen > suspTimeout then
      { member with status := .suspect }
    else member
  if suspected.status = .suspect ∧ now - suspected.lastSeen > deadTimeout then
    { suspected with status := .dead }
  else suspected

theorem merge_id (text : TimeText) (entry : MemberEntry) (existing : Member) :
    (existing.merge text entry).id = existing.id := by
  simp only [merge]
  split <;> split <;> (try split) <;> rfl

theorem recovered_id (now : Time) (member : Member) : (member.recovered now).id = member.id := by
  unfold recovered
  split <;> rfl

theorem checked_id (now : Time) (member : Member) : (member.checked now).id = member.id := by
  simp only [checked]
  split <;> split <;> rfl

end Member

namespace SwimCluster

def mergeEntry (text : TimeText) (cluster : SwimCluster) (entry : MemberEntry) : SwimCluster :=
  if entry.id = cluster.localMember.id then cluster
  else if validEntry entry = false then cluster
  else if absent : cluster.find entry.id = none then
    cluster.insert (entry.discovered text) absent
  else cluster.adjustAt entry.id (Member.merge text entry) (Member.merge_id text entry)

def mergeEntriesLocked (text : TimeText) (cluster : SwimCluster) (entries : List MemberEntry) :
    SwimCluster :=
  entries.foldl (mergeEntry text) cluster

def toEntriesLocked (text : TimeText) (cluster : SwimCluster) : List MemberEntry :=
  cluster.members.map fun member =>
    { id := member.id
      addr := member.addr
      status := member.status
      vmCount := member.vmCount
      cpuCap := member.cpuCap
      memCap := member.memCap
      lastSeen := text.format member.lastSeen }

/-- `HandleGossip`: the table after it and the payload it answers with. -/
def handleGossip (text : TimeText) (cluster : SwimCluster) (payload : GossipPayload)
    (now : Time) : SwimCluster × GossipPayload :=
  let merged := cluster.mergeEntriesLocked text payload.members
  let heard := merged.adjustAt payload.memberID (Member.recovered now) (Member.recovered_id now)
  (heard, { memberID := heard.localMember.id, members := heard.toEntriesLocked text })

def gossipReply (text : TimeText) (cluster : SwimCluster) (remote : GossipPayload)
    (now : Time) : SwimCluster :=
  (cluster.mergeEntriesLocked text remote.members).adjustAt remote.memberID (Member.seen now)
    fun _ => rfl

/-- `markSuspect`, which `doGossip` calls when the request failed. -/
def markSuspect (cluster : SwimCluster) (addr : String) : SwimCluster :=
  cluster.adjust
    (fun member =>
      if member.addr = addr ∧ member.id ≠ cluster.localMember.id ∧ member.status = .alive then
        { member with status := .suspect }
      else member)
    (ite_id fun _ => rfl)

def checkSuspicions (cluster : SwimCluster) (now : Time) : SwimCluster :=
  cluster.adjust
    (fun member =>
      if member.id ≠ cluster.localMember.id then member.checked now else member)
    (ite_id (Member.checked_id now))

def leave (cluster : SwimCluster) : SwimCluster :=
  cluster.adjustAt cluster.localMember.id (fun member => { member with status := .left })
    fun _ => rfl

/-- `UpdateLocal`; `now` is the later of the two times it reads. -/
def updateLocal (cluster : SwimCluster) (vmCount cpuCap memCap : Int) (now : Time) : SwimCluster :=
  cluster.adjustAt cluster.localMember.id
    (fun member =>
      { member with vmCount := vmCount, cpuCap := cpuCap, memCap := memCap, lastSeen := now })
    fun _ => rfl

theorem find_mergeEntry (text : TimeText) (cluster : SwimCluster) (entry : MemberEntry)
    (id : String) :
    (cluster.mergeEntry text entry).find id =
      if id = entry.id ∧ id ≠ cluster.localMember.id ∧ validEntry entry = true then
        some (((cluster.find id).map (Member.merge text entry)).getD (entry.discovered text))
      else cluster.find id := by
  unfold mergeEntry
  split
  · rename_i isLocal
    rw [if_neg]
    intro both
    exact both.2.1 (both.1.trans isLocal)
  · rename_i notLocal
    split
    · rename_i invalid
      rw [if_neg]
      intro both
      rw [invalid] at both
      cases both.2.2
    · rename_i notInvalid
      have valid : validEntry entry = true := by simpa using notInvalid
      by_cases same : id = entry.id
      · rw [if_pos ⟨same, same ▸ notLocal, valid⟩]
        split
        · rename_i absent
          rw [same, absent]
          exact (find_insert cluster (entry.discovered text) absent entry.id).trans (if_pos rfl)
        · rename_i present
          obtain ⟨member, found⟩ := Option.ne_none_iff_exists'.mp present
          rw [find_adjustAt, if_pos same, same, found]
          rfl
      · rw [if_neg fun both => same both.1]
        split
        · rename_i absent
          exact (find_insert cluster (entry.discovered text) absent id).trans (if_neg same)
        · rw [find_adjustAt, if_neg same]

theorem mergeEntry_localMember (text : TimeText) (cluster : SwimCluster) (entry : MemberEntry) :
    (cluster.mergeEntry text entry).localMember = cluster.localMember := by
  unfold mergeEntry
  split
  · rfl
  · rename_i notLocal
    split
    · rfl
    · split
      · rfl
      · exact if_neg fun same => notLocal same.symm

theorem mergeEntriesLocked_localMember (text : TimeText) (cluster : SwimCluster)
    (entries : List MemberEntry) :
    (cluster.mergeEntriesLocked text entries).localMember = cluster.localMember := by
  induction entries generalizing cluster with
  | nil => rfl
  | cons entry entries ih =>
    exact (ih (cluster.mergeEntry text entry)).trans (mergeEntry_localMember text cluster entry)

end SwimCluster

end Jerboa.Cluster
