import Jerboa.VMLineage

/-!
# Registering a VM in its lineage

A new VM starts a lineage of its own or replaces a VM of an existing one.  When
it fits there, all lineages stay as they should be.
-/

namespace Jerboa.Daemon

open Vm NetworkStore List

variable {s : Shared}

def Shared.originOf (s : Shared) (parent : Option Ref) : Ref :=
  match parent with
  | none => s.heapNext
  | some old => (s.heap old).origin

/-- A new VM fits into its lineage: it has the lineage's request, the other
registered VMs of the lineage are stopped, and no other lineage has its name or
address. -/
structure Shared.Joins (s : Shared) (cfg : Config) (parent : Option Ref) : Prop where
  origin_le : s.originOf parent ≤ s.heapNext
  request : ∀ q, q < s.heapNext → (s.heap q).origin = s.originOf parent →
    SameRequest cfg (s.vm q).cfg
  tap : s.TapOf (s.originOf parent) cfg.tapName
  stopped : ∀ e ∈ s.vms, (s.heap e.2).origin = s.originOf parent →
    (s.vm e.2).state = .stopped
  name : cfg.name ≠ "" → ∀ e ∈ s.vms, (s.vm e.2).cfg.name = cfg.name →
    (s.heap e.2).origin = s.originOf parent
  address : (heldIPs s.networks cfg.networkName).isSome → ∀ e ∈ s.vms,
    s.Uses e.2 cfg.networkName cfg.ipAddress → (s.heap e.2).origin = s.originOf parent
  taken : ∀ ips, heldIPs s.networks cfg.networkName = some ips →
    ∃ text ∈ ips, canonicalIP cfg.ipAddress = some text

/-- The drawn ID is not the ID or the name of any VM so far, and a new name is
not the ID of one. -/
structure Shared.FreshID (s : Shared) (id : String) (cfg : Config) : Prop where
  isID : IsID id
  ids : ∀ q, q < s.heapNext → (s.vm q).id ≠ id
  names : ∀ q, q < s.heapNext → (s.vm q).cfg.name ≠ id
  ownName : cfg.name ≠ id
  newName : ∀ q, q < s.heapNext → cfg.name ≠ (s.vm q).id

section Register

variable {id : String} {cfg : Config} {now : Time} {parent : Option Ref} {cause : Cause}

theorem register_vm_new :
    (s.act (.register id cfg now parent cause)).vm s.heapNext = newVM id cfg now := by
  simp [Shared.act, Shared.vm, Shared.newObject]

theorem register_origin_new :
    ((s.act (.register id cfg now parent cause)).heap s.heapNext).origin =
      s.originOf parent := by
  cases parent <;> simp [Shared.act, Shared.newObject, Shared.originOf]

theorem register_vm_old {p : Nat} (known : p < s.heapNext) :
    (s.act (.register id cfg now parent cause)).vm p = s.vm p := by
  simp [Shared.act, Shared.vm, Function.update_of_ne (Nat.ne_of_lt known)]

theorem register_origin_old {p : Nat} (known : p < s.heapNext) :
    ((s.act (.register id cfg now parent cause)).heap p).origin = (s.heap p).origin := by
  simp [Shared.act, Function.update_of_ne (Nat.ne_of_lt known)]

variable {target : Shared} (registered : s.act (.register id cfg now parent cause) = target)

include registered

theorem register_cases {p : Nat} (known : p < target.heapNext) :
    (p < s.heapNext ∧ target.vm p = s.vm p ∧ (target.heap p).origin = (s.heap p).origin) ∨
      p = s.heapNext ∧ target.vm p = newVM id cfg now ∧
        (target.heap p).origin = s.originOf parent := by
  subst registered
  rcases Nat.lt_succ_iff_lt_or_eq.mp known with old | rfl
  · exact .inl ⟨old, register_vm_old old, register_origin_old old⟩
  · exact .inr ⟨rfl, register_vm_new, register_origin_new⟩

theorem register_mem_cases (known : ∀ entry ∈ s.vms, entry.2 < s.heapNext) {e : String × Ref}
    (member : e ∈ target.vms) :
    (e ∈ s.vms ∧ target.vm e.2 = s.vm e.2 ∧ (target.heap e.2).origin = (s.heap e.2).origin) ∨
      e = (id, s.heapNext) ∧ target.vm e.2 = newVM id cfg now ∧
        (target.heap e.2).origin = s.originOf parent := by
  subst registered
  rcases mem_append.mp member with old | new
  · have inRegistry := mem_of_mem_filter old
    have below := known e inRegistry
    exact .inl ⟨inRegistry, register_vm_old below, register_origin_old below⟩
  · obtain rfl := mem_singleton.mp new
    exact .inr ⟨rfl, register_vm_new, register_origin_new⟩

theorem Shared.Lineage.register (lineage : s.Lineage)
    (known : ∀ entry ∈ s.vms, entry.2 < s.heapNext) (fresh : s.FreshID id cfg)
    (joins : s.Joins cfg parent) : target.Lineage where
  ids_distinct p q knownP knownQ same := by
    rcases register_cases registered knownP with ⟨oldP, vmP, -⟩ | ⟨rfl, vmP, -⟩ <;>
      rcases register_cases registered knownQ with ⟨oldQ, vmQ, -⟩ | ⟨rfl, vmQ, -⟩ <;>
      simp only [vmP, vmQ] at same
    · exact lineage.ids_distinct p q oldP oldQ same
    · exact absurd same (fresh.ids p oldP)
    · exact absurd same.symm (fresh.ids q oldQ)
    · rfl
  ids_drawn p knownP := by
    rcases register_cases registered knownP with ⟨oldP, vmP, -⟩ | ⟨rfl, vmP, -⟩ <;> rw [vmP]
    · exact lineage.ids_drawn p oldP
    · exact fresh.isID
  names_apart p q knownP knownQ := by
    rcases register_cases registered knownP with ⟨oldP, vmP, -⟩ | ⟨rfl, vmP, -⟩ <;>
      rcases register_cases registered knownQ with ⟨oldQ, vmQ, -⟩ | ⟨rfl, vmQ, -⟩ <;> simp only [vmP, vmQ]
    · exact lineage.names_apart p q oldP oldQ
    · exact fresh.names p oldP
    · exact fresh.newName q oldQ
    · exact fresh.ownName
  keys_nodup := by
    simp only [← registered, Shared.act, map_append, map_cons, map_nil]
    refine nodup_append.mpr
      ⟨lineage.keys_nodup.sublist (filter_sublist.map _), nodup_singleton _, ?_⟩
    intro key member other new same
    obtain ⟨entry, kept, rfl⟩ := mem_map.mp member
    rw [mem_singleton.mp new] at same
    simp [same] at kept
  origin_lt p knownP := by
    rcases register_cases registered knownP with ⟨oldP, -, originP⟩ | ⟨rfl, -, originP⟩ <;> rw [originP]
    · exact registered ▸ Nat.lt_succ_of_lt (lineage.origin_lt p oldP)
    · exact registered ▸ Nat.lt_succ_of_le joins.origin_le
  request p q knownP knownQ same := by
    rcases register_cases registered knownP with ⟨oldP, vmP, originP⟩ | ⟨rfl, vmP, originP⟩ <;>
      rcases register_cases registered knownQ with ⟨oldQ, vmQ, originQ⟩ | ⟨rfl, vmQ, originQ⟩ <;>
      simp only [originP, originQ] at same <;> simp only [vmP, vmQ]
    · exact lineage.request p q oldP oldQ same
    · exact (joins.request p oldP same).symm
    · exact joins.request q oldQ same.symm
    · exact .refl _
  taps p knownP := by
    rcases register_cases registered knownP with ⟨oldP, vmP, originP⟩ | ⟨rfl, vmP, originP⟩ <;>
      rw [originP, vmP]
    · exact (registered ▸ Shared.Kept.act s _).tapOf (lineage.taps p oldP)
    · exact (registered ▸ Shared.Kept.act s _).tapOf joins.tap
  one_alive e memberE f memberF different same := by
    rcases register_mem_cases registered known memberE with ⟨oldE, vmE, originE⟩ | ⟨rfl, vmE, originE⟩ <;>
      rcases register_mem_cases registered known memberF with ⟨oldF, vmF, originF⟩ | ⟨rfl, vmF, originF⟩ <;>
      simp only [originE, originF] at same <;> simp only [vmE, vmF]
    · exact lineage.one_alive e oldE f oldF different same
    · exact .inl (joins.stopped e oldE same)
    · exact .inr (joins.stopped f oldF same.symm)
    · exact absurd rfl different
  names_unique e memberE f memberF named same := by
    rcases register_mem_cases registered known memberE with ⟨oldE, vmE, originE⟩ | ⟨rfl, vmE, originE⟩ <;>
      rcases register_mem_cases registered known memberF with ⟨oldF, vmF, originF⟩ | ⟨rfl, vmF, originF⟩ <;>
      simp only [vmE, vmF] at named same <;> simp only [originE, originF]
    · exact lineage.names_unique e oldE f oldF named same
    · exact joins.name (fun empty => named (same.trans empty)) e oldE same
    · exact (joins.name named f oldF same.symm).symm
  addresses_unique e memberE f memberF held uses := by
    rcases register_mem_cases registered known memberE with ⟨oldE, vmE, originE⟩ | ⟨rfl, vmE, originE⟩ <;>
      rcases register_mem_cases registered known memberF with ⟨oldF, vmF, originF⟩ | ⟨rfl, vmF, originF⟩ <;>
      simp only [Shared.Uses, vmE, vmF] at held uses <;> simp only [originE, originF] <;>
      rw [← registered] at held
    · exact lineage.addresses_unique e oldE f oldF held uses
    · have sameNetwork : cfg.networkName = (s.vm e.2).cfg.networkName := uses.1
      exact joins.address (sameNetwork ▸ held) e oldE ⟨sameNetwork.symm, uses.2.symm⟩
    · exact (joins.address held f oldF uses).symm
  addresses_taken e memberE ips held := by
    rcases register_mem_cases registered known memberE with ⟨oldE, vmE, -⟩ | ⟨rfl, vmE, -⟩ <;>
      rw [vmE] at held ⊢ <;> rw [← registered] at held
    · exact lineage.addresses_taken e oldE ips held
    · exact joins.taken ips held

end Register

theorem Shared.Joins.replacement (lineage : s.Lineage)
    (known : ∀ entry ∈ s.vms, entry.2 < s.heapNext) {cfg : Config} {entry : String × Ref}
    (registered : entry ∈ s.vms) (same : SameRequest cfg (s.vm entry.2).cfg)
    (tap : s.TapOf (s.heap entry.2).origin cfg.tapName)
    (stopped : ∀ e ∈ s.vms, (s.heap e.2).origin = (s.heap entry.2).origin →
      (s.vm e.2).state = .stopped) : s.Joins cfg (some entry.2) where
  origin_le := Nat.le_of_lt (lineage.origin_lt _ (known entry registered))
  request q knownQ sameOrigin :=
    same.trans (lineage.request _ q (known entry registered) knownQ sameOrigin.symm)
  tap := tap
  stopped := stopped
  name named e memberE sameName := by
    rw [same.name] at named sameName
    exact (lineage.names_unique entry registered e memberE named sameName.symm).symm
  address held e memberE uses := by
    rw [same.networkName, same.ipAddress] at uses
    rw [same.networkName] at held
    exact (lineage.addresses_unique entry registered e memberE held uses).symm
  taken ips held := by
    rw [same.networkName] at held
    rw [same.ipAddress]
    exact lineage.addresses_taken entry registered ips held

theorem Shared.Joins.founder (lineage : s.Lineage)
    (known : ∀ entry ∈ s.vms, entry.2 < s.heapNext) {cfg : Config} (noTap : cfg.tapName = "")
    (nameFree : cfg.name ≠ "" → ∀ e ∈ s.vms, (s.vm e.2).cfg.name ≠ cfg.name)
    (unused : (heldIPs s.networks cfg.networkName).isSome →
      ∀ e ∈ s.vms, ¬ s.Uses e.2 cfg.networkName cfg.ipAddress)
    (taken : ∀ ips, heldIPs s.networks cfg.networkName = some ips →
      ∃ text ∈ ips, canonicalIP cfg.ipAddress = some text) : s.Joins cfg none where
  origin_le := Nat.le_refl _
  request q knownQ sameOrigin :=
    absurd sameOrigin (Nat.ne_of_lt (lineage.origin_lt q knownQ))
  tap := .inl noTap
  stopped e memberE sameOrigin :=
    absurd sameOrigin (Nat.ne_of_lt (lineage.origin_lt _ (known e memberE)))
  name named e memberE sameName := absurd sameName (nameFree named e memberE)
  address held e memberE uses := absurd uses (unused held e memberE)
  taken := taken

end Jerboa.Daemon
