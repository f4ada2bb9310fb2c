import Jerboa.DaemonSteps
import Jerboa.NetworkOccupancy
import Jerboa.VMIdentity

/-!
# Lineages of VMs

A VM and its replacements form a lineage, which goes back to one Run request
and shares its name, network and address.  While every replacement takes the
place of a registered VM in a lineage that is otherwise stopped, at most one VM
of a lineage is alive.
-/

namespace Jerboa.Daemon

open Vm NetworkStore

/-- Two configurations have the name, the network and the address of one Run
request. -/
structure SameRequest (first second : Config) : Prop where
  name : first.name = second.name
  networkName : first.networkName = second.networkName
  ipAddress : first.ipAddress = second.ipAddress

theorem SameRequest.refl (cfg : Config) : SameRequest cfg cfg :=
  ⟨rfl, rfl, rfl⟩

theorem SameRequest.symm {first second : Config} (same : SameRequest first second) :
    SameRequest second first :=
  ⟨same.name.symm, same.networkName.symm, same.ipAddress.symm⟩

theorem SameRequest.trans {first second third : Config} (left : SameRequest first second)
    (right : SameRequest second third) : SameRequest first third :=
  ⟨left.name.trans right.name, left.networkName.trans right.networkName,
    left.ipAddress.trans right.ipAddress⟩

def Shared.Uses (s : Shared) (p : Ref) (networkName ipAddress : String) : Prop :=
  (s.vm p).cfg.networkName = networkName ∧
    canonicalIP (s.vm p).cfg.ipAddress = canonicalIP ipAddress

def Shared.TapOf (s : Shared) (origin : Ref) (tapName : String) : Prop :=
  tapName = "" ∨
    ∃ r, r < s.heapNext ∧ (s.heap r).origin = origin ∧ tapName = tapDeviceName (s.vm r).id

structure Shared.Lineage (s : Shared) : Prop where
  ids_distinct : ∀ p q, p < s.heapNext → q < s.heapNext → (s.vm p).id = (s.vm q).id → p = q
  ids_drawn : ∀ p, p < s.heapNext → IsID (s.vm p).id
  names_apart : ∀ p q, p < s.heapNext → q < s.heapNext → (s.vm p).cfg.name ≠ (s.vm q).id
  keys_nodup : (s.vms.map Prod.fst).Nodup
  origin_lt : ∀ p, p < s.heapNext → (s.heap p).origin < s.heapNext
  request : ∀ p q, p < s.heapNext → q < s.heapNext →
    (s.heap p).origin = (s.heap q).origin → SameRequest (s.vm p).cfg (s.vm q).cfg
  taps : ∀ p, p < s.heapNext → s.TapOf (s.heap p).origin (s.vm p).cfg.tapName
  one_alive : ∀ e ∈ s.vms, ∀ f ∈ s.vms, e.2 ≠ f.2 →
    (s.heap e.2).origin = (s.heap f.2).origin →
      (s.vm e.2).state = .stopped ∨ (s.vm f.2).state = .stopped
  names_unique : ∀ e ∈ s.vms, ∀ f ∈ s.vms, (s.vm e.2).cfg.name ≠ "" →
    (s.vm e.2).cfg.name = (s.vm f.2).cfg.name → (s.heap e.2).origin = (s.heap f.2).origin
  addresses_unique : ∀ e ∈ s.vms, ∀ f ∈ s.vms,
    (heldIPs s.networks (s.vm e.2).cfg.networkName).isSome →
      s.Uses f.2 (s.vm e.2).cfg.networkName (s.vm e.2).cfg.ipAddress →
        (s.heap e.2).origin = (s.heap f.2).origin
  addresses_taken : ∀ e ∈ s.vms, ∀ ips,
    heldIPs s.networks (s.vm e.2).cfg.networkName = some ips →
      ∃ text ∈ ips, canonicalIP (s.vm e.2).cfg.ipAddress = some text

/-! ### Steps that leave lineages alone -/

/-- What stays of the heap: identities, requests and origins, and the stopped
state. -/
structure Shared.Kept (s target : Shared) : Prop where
  heapNext_le : s.heapNext ≤ target.heapNext
  id : ∀ p, p < s.heapNext → (target.vm p).id = (s.vm p).id
  request : ∀ p, p < s.heapNext → SameRequest (target.vm p).cfg (s.vm p).cfg
  origin : ∀ p, p < s.heapNext → (target.heap p).origin = (s.heap p).origin
  stopped : ∀ p, p < s.heapNext → (s.vm p).state = .stopped → (target.vm p).state = .stopped
  explicitStop : ∀ p, p < s.heapNext → (s.vm p).explicitStop = true →
    (target.vm p).explicitStop = true

variable {s target : Shared}

theorem Shared.Kept.act (s : Shared) (a : Action) : s.Kept (s.act a) where
  heapNext_le := heapNext_le_act s a
  id p known := act_id a known
  request p known := by
    apply act_vm_invariant (fun v => SameRequest v.cfg (s.vm p).cfg) a known
    case withTap_kept =>
      intro v same
      unfold withTap
      split
      · exact ⟨same.name, same.networkName, same.ipAddress⟩
      · exact same
    case held => exact .refl _
    all_goals simp
  origin p known := act_origin a known
  stopped p known := act_stopped a known
  explicitStop p known := act_explicitStop a known

/-- A step that changes no object but in what a lineage does not look at. -/
theorem Shared.Kept.of_vm (heapNext : target.heapNext = s.heapNext)
    (id : ∀ p, (target.vm p).id = (s.vm p).id) (cfg : ∀ p, (target.vm p).cfg = (s.vm p).cfg)
    (origin : ∀ p, (target.heap p).origin = (s.heap p).origin)
    (state : ∀ p, (target.vm p).state = (s.vm p).state)
    (explicitStop : ∀ p, (target.vm p).explicitStop = (s.vm p).explicitStop) : s.Kept target where
  heapNext_le := heapNext.ge
  id p _ := id p
  request p _ := cfg p ▸ .refl _
  origin p _ := origin p
  stopped p _ stopped := (state p).trans stopped
  explicitStop p _ set := (explicitStop p).trans set

theorem Shared.Kept.uses (kept : s.Kept target) {p : Nat} (known : p < s.heapNext)
    {networkName ipAddress : String} :
    target.Uses p networkName ipAddress ↔ s.Uses p networkName ipAddress := by
  have same := kept.request p known
  rw [Shared.Uses, Shared.Uses, same.networkName, same.ipAddress]

theorem Shared.Kept.tapOf (kept : s.Kept target) {origin : Ref} {tapName : String}
    (held : s.TapOf origin tapName) : target.TapOf origin tapName := by
  refine held.imp_right fun ⟨r, known, from_, tap⟩ => ⟨r, ?_, ?_, ?_⟩
  · exact Nat.lt_of_lt_of_le known kept.heapNext_le
  · rw [kept.origin r known, from_]
  · rw [kept.id r known, tap]

theorem Shared.Lineage.of_kept (lineage : s.Lineage) (kept : s.Kept target)
    (heapNext : target.heapNext = s.heapNext)
    (known : ∀ entry ∈ s.vms, entry.2 < s.heapNext) (vms : target.vms.Sublist s.vms)
    (taps : ∀ p, p < s.heapNext → (target.vm p).cfg.tapName = (s.vm p).cfg.tapName ∨
      (target.vm p).cfg.tapName = tapDeviceName (s.vm p).id)
    (networks : target.networks = s.networks) : target.Lineage where
  ids_distinct p q := by
    rw [heapNext]
    intro knownP knownQ
    rw [kept.id p knownP, kept.id q knownQ]
    exact lineage.ids_distinct p q knownP knownQ
  ids_drawn p := by
    rw [heapNext]
    intro knownP
    rw [kept.id p knownP]
    exact lineage.ids_drawn p knownP
  names_apart p q := by
    rw [heapNext]
    intro knownP knownQ
    rw [kept.id q knownQ, (kept.request p knownP).name]
    exact lineage.names_apart p q knownP knownQ
  keys_nodup := lineage.keys_nodup.sublist (vms.map _)
  origin_lt p := by
    rw [heapNext]
    intro knownP
    rw [kept.origin p knownP]
    exact lineage.origin_lt p knownP
  request p q := by
    rw [heapNext]
    intro knownP knownQ same
    rw [kept.origin p knownP, kept.origin q knownQ] at same
    exact (kept.request p knownP).trans
      ((lineage.request p q knownP knownQ same).trans (kept.request q knownQ).symm)
  taps p := by
    rw [heapNext]
    intro knownP
    rw [kept.origin p knownP]
    rcases taps p knownP with same | assigned
    · rw [same]
      exact kept.tapOf (lineage.taps p knownP)
    · rw [assigned]
      exact kept.tapOf (.inr ⟨p, knownP, rfl, rfl⟩)
  one_alive e memberE f memberF different same := by
    have knownE := known e (vms.subset memberE)
    have knownF := known f (vms.subset memberF)
    rw [kept.origin _ knownE, kept.origin _ knownF] at same
    exact (lineage.one_alive e (vms.subset memberE) f (vms.subset memberF) different same).imp
      (kept.stopped _ knownE) (kept.stopped _ knownF)
  names_unique e memberE f memberF := by
    have knownE := known e (vms.subset memberE)
    have knownF := known f (vms.subset memberF)
    rw [(kept.request _ knownE).name, (kept.request _ knownF).name, kept.origin _ knownE,
      kept.origin _ knownF]
    exact lineage.names_unique e (vms.subset memberE) f (vms.subset memberF)
  addresses_unique e memberE f memberF := by
    have knownE := known e (vms.subset memberE)
    have knownF := known f (vms.subset memberF)
    rw [networks, (kept.request _ knownE).networkName, (kept.request _ knownE).ipAddress,
      kept.uses knownF, kept.origin _ knownE, kept.origin _ knownF]
    exact lineage.addresses_unique e (vms.subset memberE) f (vms.subset memberF)
  addresses_taken e memberE := by
    have knownE := known e (vms.subset memberE)
    rw [networks, (kept.request _ knownE).networkName, (kept.request _ knownE).ipAddress]
    exact lineage.addresses_taken e (vms.subset memberE)

def Action.isQuiet : Action → Bool
  | .register .. => false
  | .setNetworks _ => false
  | _ => true

variable {a : Action}

theorem act_heapNext_of_isQuiet (quiet : a.isQuiet = true) :
    (s.act a).heapNext = s.heapNext := by
  rcases act_created s a with ⟨same, -⟩ | ⟨_, _, _, _, _, rfl, -⟩
  · exact same
  · simp [Action.isQuiet] at quiet

theorem act_networks_of_isQuiet (quiet : a.isQuiet = true) :
    (s.act a).networks = s.networks := by
  cases a with
  | setNetworks networks => simp [Action.isQuiet] at quiet
  | save p =>
    simp only [Shared.act]
    split <;> rfl
  | _ => rfl

theorem act_vms_sublist_of_isQuiet (quiet : a.isQuiet = true) :
    (s.act a).vms.Sublist s.vms := by
  cases a with
  | register id cfg now parent cause => simp [Action.isQuiet] at quiet
  | unregister id => exact List.filter_sublist
  | remove id => exact List.filter_sublist
  | save p =>
    simp only [Shared.act]
    split <;> exact List.Sublist.refl _
  | _ => exact List.Sublist.refl _

theorem act_tapName (a : Action) {p : Nat} (known : p < s.heapNext) :
    ((s.act a).vm p).cfg.tapName = (s.vm p).cfg.tapName ∨
      ((s.act a).vm p).cfg.tapName = tapDeviceName (s.vm p).id := by
  suffices kept : ((s.act a).vm p).id = (s.vm p).id ∧
      (((s.act a).vm p).cfg.tapName = (s.vm p).cfg.tapName ∨
        ((s.act a).vm p).cfg.tapName = tapDeviceName (s.vm p).id) from kept.2
  apply act_vm_invariant (fun v => v.id = (s.vm p).id ∧ (v.cfg.tapName = (s.vm p).cfg.tapName ∨
    v.cfg.tapName = tapDeviceName (s.vm p).id)) a known
  case withTap_kept =>
    rintro v ⟨id, name⟩
    refine ⟨(withTap_id v).trans id, ?_⟩
    unfold withTap
    split
    · exact .inr (by rw [← id])
    · exact name
  all_goals simp +contextual

theorem Shared.Lineage.act_quiet (lineage : s.Lineage)
    (known : ∀ entry ∈ s.vms, entry.2 < s.heapNext) (quiet : a.isQuiet = true) :
    (s.act a).Lineage :=
  lineage.of_kept (.act s a) (act_heapNext_of_isQuiet quiet) known
    (act_vms_sublist_of_isQuiet quiet) (fun _ knownP => act_tapName a knownP)
    (act_networks_of_isQuiet quiet)

/-- The networks hold at least the addresses of the registered VMs, and the
same networks are held. -/
theorem Shared.Lineage.setNetworks (lineage : s.Lineage) {networks : Store}
    (held : ∀ name, (heldIPs networks name).isSome = (heldIPs s.networks name).isSome)
    (taken : ∀ e ∈ s.vms, ∀ old ips,
      heldIPs s.networks (s.vm e.2).cfg.networkName = some old →
      heldIPs networks (s.vm e.2).cfg.networkName = some ips →
      ∀ text ∈ old, canonicalIP (s.vm e.2).cfg.ipAddress = some text → text ∈ ips) :
    (s.act (.setNetworks networks)).Lineage where
  ids_distinct := lineage.ids_distinct
  ids_drawn := lineage.ids_drawn
  names_apart := lineage.names_apart
  keys_nodup := lineage.keys_nodup
  origin_lt := lineage.origin_lt
  request := lineage.request
  taps := lineage.taps
  one_alive := lineage.one_alive
  names_unique := lineage.names_unique
  addresses_unique e memberE f memberF isHeld := by
    refine lineage.addresses_unique e memberE f memberF ?_
    rw [← held]
    exact isHeld
  addresses_taken e memberE ips heldNow := by
    have before : (heldIPs s.networks (s.vm e.2).cfg.networkName).isSome := by
      rw [← held]
      exact Option.isSome_iff_exists.mpr ⟨ips, heldNow⟩
    obtain ⟨old, heldBefore⟩ := Option.isSome_iff_exists.mp before
    obtain ⟨text, member, canonical⟩ := lineage.addresses_taken e memberE old heldBefore
    exact ⟨text, taken e memberE old ips heldBefore heldNow text member canonical, canonical⟩

end Jerboa.Daemon
