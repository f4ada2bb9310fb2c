import Jerboa.DelimitedText
import Jerboa.NetAddress
import Jerboa.Utf8Text
import Jerboa.VMStore

/-!
# Names for guests

`internal/scheduler/resolver.go` and `internal/dnsserver/dnsserver.go`: the DNS
server that the guests ask finds the network of the caller from its source
address and looks a name up among the running VMs of that network; everything
else goes to an upstream resolver.
-/

namespace Jerboa.GuestNames

open Vm Utf8Text List

/-! ### The resolver -/

/-- `Record`, with its texts as bytes where a query is compared with them. -/
structure Record where
  name : Bytes
  network : Bytes
  ip : String
  vmID : Bytes
deriving DecidableEq, Repr

def vmToRecord (v : VM) : Option Record :=
  if v.state ≠ .running then none
  else if v.cfg.networkName = "" ∨ v.cfg.ipAddress = "" then none
  else
    some
      { name := utf8 (if v.cfg.name = "" then v.id else v.cfg.name)
        network := utf8 v.cfg.networkName
        ip := v.cfg.ipAddress
        vmID := utf8 v.id }

def records (vms : List VM) (network : Bytes) : List Record :=
  (vms.filterMap vmToRecord).filter fun rec => network = [] || rec.network = network

def blank (text : Bytes) : Bool :=
  (runes text).all DelimitedText.isSpaceCode

def dot : UInt8 := 0x2e

/-- `splitScopedName`: what stands before and after the last dot. -/
def splitScopedName (name : Bytes) : Bytes × Bytes :=
  let parts := name.splitOn dot
  if parts.length < 2 then (name, [])
  else ([dot].intercalate parts.dropLast, parts.getLast?.getD [])

inductive ResolveError
  | nameEmpty
  | ambiguous (host : Bytes)
  | notFoundInNetwork (host network : Bytes)
  | notFound (host : Bytes)
deriving DecidableEq, Repr

def resolve (vms : List VM) (name network : Bytes) : Except ResolveError Record :=
  if blank name then .error .nameEmpty
  else
    let (host, scope) := splitScopedName name
    let network := if network = [] then scope else network
    let found := (records vms network).filter fun rec => rec.name = host || rec.vmID = host
    match found with
    | [rec] => .ok rec
    | _ =>
      if 1 < found.length ∧ network = [] then .error (.ambiguous host)
      else if network ≠ [] then .error (.notFoundInNetwork host network)
      else .error (.notFound host)

/-- `Resolver.NetworkForIP`; the empty network stands for none. -/
def networkForIP (vms : List VM) (ip : String) : Bytes :=
  if blank (utf8 ip) then []
  else (((records vms []).find? fun rec => rec.ip = ip).map Record.network).getD []

/-! ### The server -/

inductive QueryType
  | a
  | other
deriving DecidableEq, Repr

structure Question where
  id : UInt16
  name : Bytes
  type : QueryType
deriving DecidableEq, Repr

inductive Response
  | answerA (id : UInt16) (name : Bytes) (ip : NetAddress.IP)
  | forwarded (reply : Bytes)
  | nxdomain (id : UInt16) (name : Bytes)
deriving DecidableEq, Repr

def trimDot (name : Bytes) : Bytes :=
  if name.getLast? = some dot then name.dropLast else name

def parseTo4 (text : String) : Option NetAddress.IP :=
  (NetAddress.parseIP text.toList).bind NetAddress.to4

/-- A query: its bytes and, if `dnsmessage` can parse them, its question. -/
structure Query where
  raw : Bytes
  question : Option Question

/-- The upstream resolver, if there is one, as what it replies to a query. -/
structure Server where
  upstream : Option (Bytes → Option Bytes)

/-- The address that the registry gives for a question from `srcIP`.  The two
calls of `List` each return the VMs in an order of their own. -/
def ownAnswer (forIP forName : List VM) (q : Question) (srcIP : String) :
    Option NetAddress.IP :=
  if q.type = .a then
    let network := networkForIP forIP srcIP
    if network ≠ [] then
      match resolve forName (trimDot q.name) network with
      | .ok rec => parseTo4 rec.ip
      | .error _ => none
    else none
  else none

/-- `buildResponse`; a query that does not parse gets no answer. -/
def buildResponse (s : Server) (forIP forName : List VM) (query : Query) (srcIP : String) :
    Option Response :=
  query.question.map fun q =>
    match ownAnswer forIP forName q srcIP with
    | some ip => .answerA q.id q.name ip
    | none =>
      match s.upstream.bind fun forward => forward query.raw with
      | some reply => .forwarded reply
      | none => .nxdomain q.id q.name

/-! ### The records of one network -/

def ofNetwork (vms : List VM) (network : String) : List VM :=
  vms.filter fun v => v.cfg.networkName = network

variable {rec : Record} {network srcIP : String} {vms listing : List VM} {guest : VM}
  {address : String → Address} {q : Question}

theorem vmToRecord_eq_some {v : VM} (made : vmToRecord v = some rec) :
    v.state = .running ∧ v.cfg.networkName ≠ "" ∧ v.cfg.ipAddress ≠ "" ∧
      rec.network = utf8 v.cfg.networkName ∧ rec.ip = v.cfg.ipAddress := by
  simp only [vmToRecord] at made
  split at made
  · cases made
  · rename_i running
    split at made
    · cases made
    · rename_i addressed
      cases made
      push Not at running addressed
      exact ⟨running, addressed.1, addressed.2, rfl, rfl⟩

theorem records_utf8 (vms : List VM) (named : network ≠ "") :
    records vms (utf8 network) = (ofNetwork vms network).filterMap vmToRecord := by
  have nonempty : utf8 network ≠ [] := fun empty => named (utf8_injective empty)
  simp only [records, ofNetwork, nonempty, decide_false, Bool.false_or]
  induction vms with
  | nil => rfl
  | cons v rest ih =>
    cases made : vmToRecord v with
    | none =>
      by_cases inside : v.cfg.networkName = network <;>
        simp [made, inside, ih]
    | some rec =>
      obtain ⟨-, -, -, recorded, -⟩ := vmToRecord_eq_some made
      by_cases inside : v.cfg.networkName = network
      · simp [made, inside, recorded, ih]
      · have other : rec.network ≠ utf8 network := by
          rw [recorded]
          exact fun same => inside (utf8_injective same)
        simp [made, inside, other, ih]

theorem exists_vm_of_mem_records {network : Bytes} (listed : rec ∈ records vms network) :
    ∃ v ∈ vms, vmToRecord v = some rec := by
  simp only [records, mem_filter, mem_filterMap] at listed
  exact listed.1

/-! ### The network of the caller -/

variable {Address : Type*}

/-- A running VM with an address. -/
structure Guest (vms : List VM) (guest : VM) : Prop where
  listed : guest ∈ vms
  running : guest.state = .running
  addressed : guest.cfg.ipAddress ≠ ""

/-- Running VMs have different addresses; `address` reads the text of an
address, as the text itself or as the number it stands for. -/
def DistinctAddresses (address : String → Address) (vms : List VM) : Prop :=
  ∀ v w, Guest vms v → Guest vms w → address v.cfg.ipAddress = address w.cfg.ipAddress → v = w

theorem guest_of_record {network : Bytes} (listed : rec ∈ records vms network) :
    ∃ v, Guest vms v ∧ vmToRecord v = some rec := by
  obtain ⟨v, inside, made⟩ := exists_vm_of_mem_records listed
  obtain ⟨running, -, addressed, -⟩ := vmToRecord_eq_some made
  exact ⟨v, ⟨inside, running, addressed⟩, made⟩

theorem Guest.record (isGuest : Guest vms guest) (named : guest.cfg.networkName ≠ "") :
    ∃ rec ∈ records vms [], vmToRecord guest = some rec := by
  have made : ∃ rec, vmToRecord guest = some rec := by
    simp [vmToRecord, isGuest.running, isGuest.addressed, named]
  obtain ⟨rec, made⟩ := made
  refine ⟨rec, ?_, made⟩
  simp only [records, decide_true, Bool.true_or, filter_true, mem_filterMap]
  exact ⟨guest, isGuest.listed, made⟩

/-- The network that the server finds for a source address depends on nothing
but the VM that has the address. -/
theorem networkForIP_guest (distinct : DistinctAddresses address vms) (isGuest : Guest vms guest)
    (source : address guest.cfg.ipAddress = address srcIP) :
    networkForIP vms srcIP =
      if blank (utf8 srcIP) ∨ guest.cfg.ipAddress ≠ srcIP then []
      else utf8 guest.cfg.networkName := by
  simp only [networkForIP]
  by_cases isBlank : blank (utf8 srcIP) = true
  · simp [isBlank]
  simp only [isBlank, if_false, false_or, Bool.false_eq_true]
  cases found : (records vms []).find? fun rec => rec.ip = srcIP with
  | some rec =>
    obtain ⟨v, asGuest, made⟩ := guest_of_record (mem_of_find?_eq_some found)
    obtain ⟨-, -, -, network, ip⟩ := vmToRecord_eq_some made
    have matched : rec.ip = srcIP := by simpa using find?_some found
    have same : v = guest := by
      apply distinct v guest asGuest isGuest
      rw [source, ← ip, matched]
    subst same
    rw [if_neg (by simp [← ip, matched])]
    simp [network]
  | none =>
    by_cases own : guest.cfg.ipAddress = srcIP
    · -- the guest has no record, so it is in no network
      have unnamed : guest.cfg.networkName = "" := by
        by_contra named
        obtain ⟨rec, listed, made⟩ := isGuest.record named
        obtain ⟨-, -, -, -, ip⟩ := vmToRecord_eq_some made
        rw [find?_eq_none] at found
        exact found rec listed (by simp [ip, own])
      simp [unnamed, own, utf8]
    · simp [own]

theorem networkForIP_cases (distinct : DistinctAddresses address vms) (isGuest : Guest vms guest)
    (source : address guest.cfg.ipAddress = address srcIP) :
    networkForIP vms srcIP = [] ∨
      (guest.cfg.networkName ≠ "" ∧ networkForIP vms srcIP = utf8 guest.cfg.networkName) := by
  rw [networkForIP_guest distinct isGuest source]
  split
  · exact .inl rfl
  · by_cases named : guest.cfg.networkName = ""
    · exact .inl (by rw [named]; rfl)
    · exact .inr ⟨named, rfl⟩

/-! ### Two registries -/

theorem resolve_eq_ok_iff (vms : List VM) (name : Bytes) {network : Bytes}
    (named : network ≠ []) (rec : Record) :
    resolve vms name network = .ok rec ↔
      blank name = false ∧ ((records vms network).filter fun rec =>
        rec.name = (splitScopedName name).1 || rec.vmID = (splitScopedName name).1) = [rec] := by
  simp only [resolve, named, if_false]
  by_cases isBlank : blank name = true
  · simp [isBlank]
  · simp only [isBlank, if_false, true_and, Bool.false_eq_true]
    split
    · rename_i only found
      simp [found]
    · rename_i several
      constructor
      · intro resolved
        split at resolved
        · cases resolved
        · simp at resolved
      · intro single
        exact absurd single (several rec)

theorem resolve_congr {first second : List VM} (named : network ≠ "")
    (agree : (ofNetwork first network).Perm (ofNetwork second network)) (name : Bytes)
    (rec : Record) :
    resolve first name (utf8 network) = .ok rec ↔ resolve second name (utf8 network) = .ok rec := by
  have nonempty : utf8 network ≠ [] := fun empty => named (utf8_injective empty)
  have same := (agree.filterMap vmToRecord).filter fun rec =>
    rec.name = (splitScopedName name).1 || rec.vmID = (splitScopedName name).1
  rw [resolve_eq_ok_iff first name nonempty, resolve_eq_ok_iff second name nonempty,
    records_utf8 first named, records_utf8 second named]
  apply and_congr_right
  intro _
  rw [← perm_singleton, ← perm_singleton]
  exact ⟨same.symm.trans, same.trans⟩

theorem ofNetwork_perm (listed : listing.Perm vms) (network : String) :
    (ofNetwork listing network).Perm (ofNetwork vms network) :=
  listed.filter _

theorem Guest.perm (listed : listing.Perm vms) {v : VM} :
    Guest listing v ↔ Guest vms v := by
  constructor
  · intro isGuest
    exact ⟨listed.mem_iff.mp isGuest.listed, isGuest.running, isGuest.addressed⟩
  · intro isGuest
    exact ⟨listed.mem_iff.mpr isGuest.listed, isGuest.running, isGuest.addressed⟩

theorem DistinctAddresses.perm (distinct : DistinctAddresses address vms)
    (listed : listing.Perm vms) :
    DistinctAddresses address listing := by
  intro v w first second same
  exact distinct v w ((Guest.perm listed).mp first) ((Guest.perm listed).mp second) same

theorem ownAnswer_eq_some_iff {forIP forName : List VM} (named : network ≠ "")
    (found : networkForIP forIP srcIP = utf8 network) (ip : NetAddress.IP) :
    ownAnswer forIP forName q srcIP = some ip ↔
      q.type = .a ∧ ∃ rec, resolve forName (trimDot q.name) (utf8 network) = .ok rec ∧
        parseTo4 rec.ip = some ip := by
  have nonempty : utf8 network ≠ [] := fun empty => named (utf8_injective empty)
  simp only [ownAnswer, found, ne_eq, nonempty, not_false_eq_true, if_true]
  by_cases typeA : q.type = .a
  · cases resolved : resolve forName (trimDot q.name) (utf8 network) with
    | error e => simp [typeA]
    | ok rec => simp [typeA]
  · simp [typeA]

theorem ownAnswer_of_none {forIP forName : List VM} (unknown : networkForIP forIP srcIP = []) :
    ownAnswer forIP forName q srcIP = none := by
  simp [ownAnswer, unknown]

theorem ownAnswer_congr {first second : List VM} (firstDistinct : DistinctAddresses address first)
    (secondDistinct : DistinctAddresses address second) (firstGuest : Guest first guest)
    (secondGuest : Guest second guest) (source : address guest.cfg.ipAddress = address srcIP)
    {firstNames secondNames : List VM}
    (agree : (ofNetwork firstNames guest.cfg.networkName).Perm
      (ofNetwork secondNames guest.cfg.networkName)) (q : Question) :
    ownAnswer first firstNames q srcIP = ownAnswer second secondNames q srcIP := by
  have same : networkForIP first srcIP = networkForIP second srcIP := by
    rw [networkForIP_guest firstDistinct firstGuest source,
      networkForIP_guest secondDistinct secondGuest source]
  rcases networkForIP_cases firstDistinct firstGuest source with unknown | ⟨named, known⟩
  · rw [ownAnswer_of_none unknown, ownAnswer_of_none (same.symm.trans unknown)]
  · apply Option.ext
    intro ip
    rw [ownAnswer_eq_some_iff named known,
      ownAnswer_eq_some_iff named (same.symm.trans known)]
    simp only [resolve_congr named agree]

theorem ownAnswer_from_network {names : List VM} (distinct : DistinctAddresses address vms)
    (isGuest : Guest vms guest) (source : address guest.cfg.ipAddress = address srcIP)
    {ip : NetAddress.IP} (answered : ownAnswer vms names q srcIP = some ip) :
    ∃ v ∈ names, v.state = .running ∧ v.cfg.networkName = guest.cfg.networkName ∧
      parseTo4 v.cfg.ipAddress = some ip := by
  rcases networkForIP_cases distinct isGuest source with unknown | ⟨named, known⟩
  · rw [ownAnswer_of_none unknown] at answered
    cases answered
  · obtain ⟨-, rec, resolved, parsed⟩ := (ownAnswer_eq_some_iff named known ip).mp answered
    have nonempty : utf8 guest.cfg.networkName ≠ [] := fun empty => named (utf8_injective empty)
    have single := ((resolve_eq_ok_iff names _ nonempty rec).mp resolved).2
    have listed : rec ∈ records names (utf8 guest.cfg.networkName) := by
      have only : rec ∈ [rec] := mem_singleton_self rec
      rw [← single] at only
      exact (mem_filter.mp only).1
    rw [records_utf8 names named, mem_filterMap] at listed
    obtain ⟨v, inNetwork, made⟩ := listed
    obtain ⟨inside, network⟩ := mem_filter.mp inNetwork
    obtain ⟨running, -, -, -, address⟩ := vmToRecord_eq_some made
    refine ⟨v, inside, running, by simpa using network, ?_⟩
    rw [← address, parsed]

/-- What the guest DNS server answers a VM of a network is the same for all
registries that agree on the VMs of that network and give running VMs different
addresses, and an address that it answers from the registry is that of a running
VM of the network. -/
theorem guest_answers_depend_on_own_network (address : String → Address) (s : Server)
    {first second : List VM} {network : String}
    (agree : (ofNetwork first network).Perm (ofNetwork second network))
    (firstDistinct : DistinctAddresses address first)
    (secondDistinct : DistinctAddresses address second)
    {guest : VM} (isGuest : Guest first guest) (member : guest.cfg.networkName = network)
    {srcIP : String} (source : address guest.cfg.ipAddress = address srcIP)
    {firstForIP firstForName secondForIP secondForName : List VM}
    (firstLists : firstForIP.Perm first ∧ firstForName.Perm first)
    (secondLists : secondForIP.Perm second ∧ secondForName.Perm second) (query : Query) :
    buildResponse s firstForIP firstForName query srcIP =
        buildResponse s secondForIP secondForName query srcIP ∧
      ∀ id name ip, buildResponse s firstForIP firstForName query srcIP =
          some (.answerA id name ip) →
        ∃ v ∈ first, v.state = .running ∧ v.cfg.networkName = network ∧
          parseTo4 v.cfg.ipAddress = some ip := by
  subst member
  have inSecond : Guest second guest := by
    have listed : guest ∈ ofNetwork first guest.cfg.networkName :=
      mem_filter.mpr ⟨isGuest.listed, by simp⟩
    exact ⟨(mem_filter.mp (agree.mem_iff.mp listed)).1, isGuest.running, isGuest.addressed⟩
  have asFirst := (Guest.perm firstLists.1).mpr isGuest
  have distinct := firstDistinct.perm firstLists.1
  have names : (ofNetwork firstForName guest.cfg.networkName).Perm
      (ofNetwork secondForName guest.cfg.networkName) :=
    ((ofNetwork_perm firstLists.2 _).trans agree).trans (ofNetwork_perm secondLists.2 _).symm
  constructor
  · simp only [buildResponse, ownAnswer_congr distinct (secondDistinct.perm secondLists.1) asFirst
      ((Guest.perm secondLists.1).mpr inSecond) source names]
  · intro id name ip answered
    obtain ⟨q, -, response⟩ := Option.map_eq_some_iff.mp answered
    cases own : ownAnswer firstForIP firstForName q srcIP with
    | none =>
      rw [own] at response
      simp only at response
      split at response <;> cases response
    | some address =>
      rw [own] at response
      simp only [Response.answerA.injEq] at response
      obtain ⟨v, listed, running, inNetwork, parsed⟩ :=
        ownAnswer_from_network distinct asFirst source own
      refine ⟨v, firstLists.2.mem_iff.mp listed, running, inNetwork, ?_⟩
      rw [parsed, response.2.2]

def runningVM (id name network ip : String) : VM :=
  { newVM id { Config.zero with name := name, networkName := network, ipAddress := ip } 0 with
    state := .running }

/-- Two VMs of one network, and in the second registry a third one of another
network under a name of the first. -/
def twoVMs : List VM :=
  [runningVM "00000000000a" "web" "shop" "10.0.0.2", runningVM "00000000000b" "db" "shop" "10.0.0.3"]

def threeVMs : List VM :=
  runningVM "00000000000c" "db" "lab" "10.1.0.3" :: twoVMs

def askForDb : Query where
  raw := []
  question := some { id := 7, name := utf8 "db.", type := .a }

theorem guest_answers_depend_on_own_network_threeVMs :
    buildResponse ⟨none⟩ twoVMs twoVMs askForDb "10.0.0.2" =
        some (.answerA 7 (utf8 "db.") [10, 0, 0, 3]) ∧
      buildResponse ⟨none⟩ twoVMs twoVMs askForDb "10.0.0.2" =
        buildResponse ⟨none⟩ threeVMs threeVMs askForDb "10.0.0.2" := by
  have distinct (vms : List VM) (apart : (vms.map fun v => v.cfg.ipAddress).Nodup) :
      DistinctAddresses id vms := by
    intro v w first second same
    exact inj_on_of_nodup_map apart first.listed second.listed same
  have agree : (ofNetwork twoVMs "shop").Perm (ofNetwork threeVMs "shop") := by decide
  exact ⟨by decide, (guest_answers_depend_on_own_network id ⟨none⟩ agree
    (distinct twoVMs (by decide)) (distinct threeVMs (by decide))
    ⟨mem_cons_self, rfl, by decide⟩ rfl rfl ⟨.refl _, .refl _⟩ ⟨.refl _, .refl _⟩ askForDb).1⟩

end Jerboa.GuestNames
