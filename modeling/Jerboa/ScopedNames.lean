import Jerboa.GuestNames

/-!
# Scoped names

`Resolve` of `internal/scheduler/resolver.go` cuts the name that it is given at
its last dot, whether or not what stands behind the dot is the network that it
is to look in.  Which names of VMs lead back to them, and what a record that was
found has to do with the name, follows from that cut.
-/

namespace Jerboa.GuestNames

open Vm Utf8Text List

variable {name network : Bytes} {rec : Record} {vms : List VM}

theorem splitScopedName_of_not_mem (free : dot ∉ name) :
    splitScopedName name = (name, []) := by
  simp [splitScopedName, splitOn_eq_singleton free]

theorem splitScopedName_append {scope : Bytes} (free : dot ∉ scope) (host : Bytes) :
    splitScopedName (host ++ dot :: scope) = (host, scope) := by
  have parts : (host ++ dot :: scope).splitOn dot = host.splitOn dot ++ [scope] := by
    rw [splitOn_append_cons_self, splitOn_eq_singleton free]
  simp [splitScopedName, parts, intercalate_splitOn]

/-! ### Records of a registry -/

theorem vmToRecord_names {v : VM} (made : vmToRecord v = some rec) :
    rec.vmID = utf8 v.id ∧ (rec.name = utf8 v.cfg.name ∨ rec.name = utf8 v.id) := by
  by_cases unnamed : v.cfg.name = ""
  · simp only [vmToRecord, unnamed, if_true] at made
    split_ifs at made
    cases made
    exact ⟨rfl, .inr rfl⟩
  · simp only [vmToRecord, unnamed, if_false] at made
    split_ifs at made
    cases made
    exact ⟨rfl, .inl rfl⟩

theorem mem_records_iff :
    rec ∈ records vms network ↔
      (∃ v ∈ vms, vmToRecord v = some rec) ∧ (network = [] ∨ rec.network = network) := by
  simp [records]

theorem network_ne_nil (listed : rec ∈ records vms network) : rec.network ≠ [] := by
  obtain ⟨v, -, made⟩ := exists_vm_of_mem_records listed
  obtain ⟨-, named, -, recorded, -⟩ := vmToRecord_eq_some made
  rw [recorded]
  exact fun empty => named (utf8_injective empty)

theorem record_inj (distinct : (vms.map VM.id).Nodup) {first second : Record}
    (firstListed : first ∈ records vms network) (secondListed : second ∈ records vms network)
    (same : first.vmID = second.vmID) :
    first = second := by
  obtain ⟨v, inside, made⟩ := exists_vm_of_mem_records firstListed
  obtain ⟨w, other, wMade⟩ := exists_vm_of_mem_records secondListed
  rw [(vmToRecord_names made).1, (vmToRecord_names wMade).1] at same
  obtain rfl := inj_on_of_nodup_map distinct inside other (utf8_injective same)
  exact Option.some.inj (made.symm.trans wMade)

theorem nodup_records (distinct : (vms.map VM.id).Nodup) (network : Bytes) :
    (records vms network).Nodup := by
  refine List.Nodup.filter _ (List.Pairwise.filterMap vmToRecord ?_ (pairwise_map.mp distinct))
  rintro v w different first firstMade second secondMade rfl
  apply different
  have same := (vmToRecord_names firstMade).1.symm.trans (vmToRecord_names secondMade).1
  exact utf8_injective same

theorem filter_eq_singleton_iff {α : Type*} {items : List α} (distinct : items.Nodup)
    {p : α → Bool} {item : α} :
    items.filter p = [item] ↔
      item ∈ items ∧ p item = true ∧ ∀ other ∈ items, p other = true → other = item := by
  rw [← perm_singleton, perm_ext_iff_of_nodup (distinct.filter p) (nodup_singleton _)]
  simp only [mem_filter, mem_singleton]
  constructor
  · intro exact
    obtain ⟨inside, holds⟩ := (exact item).mpr rfl
    exact ⟨inside, holds, fun other listed found => (exact other).mp ⟨listed, found⟩⟩
  · rintro ⟨inside, holds, only⟩ other
    constructor
    · rintro ⟨listed, found⟩
      exact only other listed found
    · rintro rfl
      exact ⟨inside, holds⟩

/-- `Resolve` in a network finds the record whose name or ID is the name before
its last dot, if there is just one. -/
theorem resolve_eq_ok (distinct : (vms.map VM.id).Nodup) (named : network ≠ []) :
    resolve vms name network = .ok rec ↔
      blank name = false ∧ rec ∈ records vms network ∧
        (rec.name = (splitScopedName name).1 ∨ rec.vmID = (splitScopedName name).1) ∧
          ∀ other ∈ records vms network,
            other.name = (splitScopedName name).1 ∨ other.vmID = (splitScopedName name).1 →
              other = rec := by
  rw [resolve_eq_ok_iff vms name named, filter_eq_singleton_iff (nodup_records distinct network)]
  simp only [Bool.or_eq_true, decide_eq_true_eq]

/-! ### Names that lead back -/

/-- The name is more than white space; and if it has a dot, what stands before
the last one is the ID of the VM itself and no other record of the network has
that for its name. -/
structure LeadsBack (vms : List VM) (rec : Record) : Prop where
  visible : blank rec.name = false
  own : ∀ host scope, rec.name = host ++ dot :: scope → dot ∉ scope →
    rec.vmID = host ∧
      ∀ other ∈ records vms rec.network, other.vmID ≠ rec.vmID → other.name ≠ host

/-- The name of a record differs from the names and the IDs of the other running
VMs of its network. -/
def Unshared (vms : List VM) (rec : Record) : Prop :=
  ∀ w ∈ vms, w.state = .running → utf8 w.cfg.networkName = rec.network → utf8 w.id ≠ rec.vmID →
    rec.name ≠ utf8 w.cfg.name ∧ rec.name ≠ utf8 w.id

instance (vms : List VM) (rec : Record) : Decidable (Unshared vms rec) :=
  inferInstanceAs (Decidable (∀ w ∈ vms, w.state = .running →
    utf8 w.cfg.networkName = rec.network → utf8 w.id ≠ rec.vmID →
      rec.name ≠ utf8 w.cfg.name ∧ rec.name ≠ utf8 w.id))

theorem Unshared.record {other : Record} (unshared : Unshared vms rec) (named : rec.network ≠ [])
    (listed : other ∈ records vms rec.network) (different : other.vmID ≠ rec.vmID) :
    other.name ≠ rec.name ∧ other.vmID ≠ rec.name := by
  obtain ⟨⟨w, inside, made⟩, network⟩ := mem_records_iff.mp listed
  obtain ⟨running, -, -, recorded, -⟩ := vmToRecord_eq_some made
  obtain ⟨id, name⟩ := vmToRecord_names made
  have inNetwork : utf8 w.cfg.networkName = rec.network := by
    rw [← recorded]
    exact network.resolve_left named
  obtain ⟨notName, notID⟩ := unshared w inside running inNetwork (id ▸ different)
  refine ⟨?_, fun same => notID (same.symm.trans id)⟩
  rcases name with byName | byID
  · exact fun same => notName (same.symm.trans byName)
  · exact fun same => notID (same.symm.trans byID)

theorem host_ne_name (host scope : Bytes) : host ≠ host ++ dot :: scope := by
  intro same
  have length := congrArg List.length same
  simp at length

/-- A name that no other VM of the network has leads back to its record, except
for what the cut at the last dot does to it. -/
theorem resolve_own_name_iff (distinct : (vms.map VM.id).Nodup) (listed : rec ∈ records vms network)
    (unshared : Unshared vms rec) :
    resolve vms rec.name rec.network = .ok rec ↔ LeadsBack vms rec := by
  have named := network_ne_nil listed
  have own : rec ∈ records vms rec.network :=
    mem_records_iff.mpr ⟨(mem_records_iff.mp listed).1, .inr rfl⟩
  rw [resolve_eq_ok distinct named]
  by_cases dotted : dot ∈ rec.name
  · obtain ⟨host, scope, name, free⟩ := DelimitedText.exists_cutLast dotted
    have cut : splitScopedName rec.name = (host, scope) := by
      rw [name]
      exact splitScopedName_append free host
    have notHost : rec.name ≠ host := fun same => host_ne_name host scope (same.symm.trans name)
    rw [cut]
    constructor
    · rintro ⟨visible, -, found, only⟩
      refine ⟨visible, fun host' scope' name' free' => ?_⟩
      have same := splitScopedName_append free' host'
      rw [← name', cut] at same
      cases same
      refine ⟨found.resolve_left notHost, fun other there different shared => different ?_⟩
      rw [only other there (.inl shared)]
    · rintro ⟨visible, leads⟩
      obtain ⟨id, alone⟩ := leads host scope name free
      refine ⟨visible, own, .inr id, fun other there found => ?_⟩
      by_contra different
      have otherID : other.vmID ≠ rec.vmID := fun same => different (record_inj distinct there own same)
      rcases found with byName | byID
      · exact alone other there otherID byName
      · exact otherID (byID.trans id.symm)
  · rw [splitScopedName_of_not_mem dotted]
    constructor
    · rintro ⟨visible, -⟩
      refine ⟨visible, fun host scope name _ => absurd ?_ dotted⟩
      rw [name]
      simp
    · rintro ⟨visible, -⟩
      refine ⟨visible, own, .inl rfl, fun other there found => ?_⟩
      by_contra different
      obtain ⟨notName, notID⟩ := unshared.record named there
        fun same => different (record_inj distinct there own same)
      exact found.elim notName notID

/-! ### What is found -/

/-- The record belongs to the network, and its name or ID is the name asked for
or that name without the network behind it. -/
def Answers (name network : Bytes) (rec : Record) : Prop :=
  rec.network = network ∧
    ∃ text, (text = name ∨ name = text ++ dot :: network) ∧ (rec.name = text ∨ rec.vmID = text)

theorem answers_of_resolve (distinct : (vms.map VM.id).Nodup) (named : network ≠ [])
    (found : resolve vms name network = .ok rec) :
    rec.network = network ∧
      (rec.name = (splitScopedName name).1 ∨ rec.vmID = (splitScopedName name).1) := by
  obtain ⟨-, listed, matched, -⟩ := (resolve_eq_ok distinct named).mp found
  exact ⟨(mem_records_iff.mp listed).2.resolve_left named, matched⟩

theorem dot_mem_utf8 {text : String} : dot ∈ utf8 text ↔ '.' ∈ text.toList :=
  mem_utf8_ascii '.' (by decide)

theorem blank_of_dot {text : String} (dotted : '.' ∈ text.toList) : blank (utf8 text) = false := by
  rw [blank, runes_utf8, all_eq_false]
  exact ⟨'.'.toNat, mem_map_of_mem dotted, by decide⟩

theorem resolve_by_id {name host scope network : String}
    (whole : utf8 name = utf8 host ++ dot :: utf8 scope) (free : dot ∉ utf8 scope)
    (named : network ≠ "") :
    resolve [runningVM host "" network "10.0.0.2"] (utf8 name) (utf8 network) =
      .ok ⟨utf8 host, utf8 network, "10.0.0.2", utf8 host⟩ := by
  have nonempty : utf8 network ≠ [] := fun empty => named (utf8_injective empty)
  have distinct : ([runningVM host "" network "10.0.0.2"].map VM.id).Nodup := nodup_singleton _
  have made : vmToRecord (runningVM host "" network "10.0.0.2") =
      some ⟨utf8 host, utf8 network, "10.0.0.2", utf8 host⟩ := by
    simp [vmToRecord, runningVM, newVM, Config.zero, named]
  have dotted : '.' ∈ name.toList := dot_mem_utf8.mp (by rw [whole]; simp)
  rw [resolve_eq_ok distinct nonempty, whole, splitScopedName_append free, ← whole]
  refine ⟨blank_of_dot dotted, mem_records_iff.mpr ⟨⟨_, mem_singleton_self _, made⟩, .inr rfl⟩,
    .inl rfl, fun other there _ => ?_⟩
  obtain ⟨⟨v, inside, otherMade⟩, -⟩ := mem_records_iff.mp there
  rw [mem_singleton.mp inside, made] at otherMade
  exact (Option.some.inj otherMade).symm

/-- Whatever the registry, `Resolve` answers with a record that the name stands
for exactly if the name has no dot or ends with the network behind its last
one. -/
theorem answers_iff {name network : String} (named : network ≠ "") :
    (∀ vms : List VM, (vms.map VM.id).Nodup → ∀ rec,
        resolve vms (utf8 name) (utf8 network) = .ok rec →
          Answers (utf8 name) (utf8 network) rec) ↔
      '.' ∉ name.toList ∨ '.' ∉ network.toList ∧ ∃ host : String, name = host ++ "." ++ network := by
  have nonempty : utf8 network ≠ [] := fun empty => named (utf8_injective empty)
  have letter : utf8 "." = [dot] := by decide
  have joined (host scope : String) :
      utf8 (host ++ "." ++ scope) = utf8 host ++ dot :: utf8 scope := by
    rw [utf8_append, utf8_append, letter, append_assoc, singleton_append]
  constructor
  · intro sound
    by_cases dotted : '.' ∈ name.toList
    · obtain ⟨hostText, scopeText, text, scopeFree⟩ := DelimitedText.exists_cutLast dotted
      have whole : name = String.ofList hostText ++ "." ++ String.ofList scopeText := by
        rw [← String.toList_inj, text]
        simp
      have free : dot ∉ utf8 (String.ofList scopeText) := fun inside =>
        scopeFree (by simpa using dot_mem_utf8.mp inside)
      have bytes := (congrArg utf8 whole).trans (joined _ _)
      obtain ⟨-, found, asked, matched⟩ := sound [_] (nodup_singleton _) _
        (resolve_by_id bytes free named)
      obtain rfl : utf8 (String.ofList hostText) = found := matched.elim id id
      rcases asked with same | suffix
      · exact absurd (same.trans bytes) (host_ne_name _ _)
      · have scope : String.ofList scopeText = network := by
          rw [bytes, append_cancel_left_eq] at suffix
          exact utf8_injective (List.cons.inj suffix).2
        rw [scope] at whole free
        exact .inr ⟨fun inside => free (dot_mem_utf8.mpr inside), _, whole⟩
    · exact .inl dotted
  · intro plain vms distinct rec found
    obtain ⟨inNetwork, matched⟩ := answers_of_resolve distinct nonempty found
    refine ⟨inNetwork, (splitScopedName (utf8 name)).1, ?_, matched⟩
    rcases plain with undotted | ⟨undotted, host, rfl⟩
    · exact .inl (by rw [splitScopedName_of_not_mem fun inside => undotted (dot_mem_utf8.mp inside)])
    · rw [joined, splitScopedName_append fun inside => undotted (dot_mem_utf8.mp inside)]
      exact .inr rfl

/-- Which listed records their names lead back to, and for which names the
record that is found is the one that the name stands for. -/
theorem scoped_names_iff (vms : List VM) (distinct : (vms.map VM.id).Nodup)
    (name network : String) (named : network ≠ "") :
    (∀ (scope : Bytes) (rec : Record), rec ∈ records vms scope → Unshared vms rec →
        ∀ listing : List VM, listing.Perm vms →
          (resolve listing rec.name rec.network = .ok rec ↔ LeadsBack vms rec)) ∧
      ((∀ others : List VM, (others.map VM.id).Nodup → ∀ rec,
          resolve others (utf8 name) (utf8 network) = .ok rec →
            Answers (utf8 name) (utf8 network) rec) ↔
        '.' ∉ name.toList ∨
          '.' ∉ network.toList ∧ ∃ host : String, name = host ++ "." ++ network) := by
  refine ⟨?_, answers_iff named⟩
  intro scope rec listed unshared listing same
  obtain ⟨v, -, made⟩ := exists_vm_of_mem_records listed
  obtain ⟨-, namedVM, -, inNetwork, -⟩ := vmToRecord_eq_some made
  rw [← resolve_own_name_iff distinct listed unshared, inNetwork]
  exact resolve_congr namedVM (ofNetwork_perm same _) rec.name rec

def dottedVMs : List VM :=
  [runningVM "00000000000a" "web" "shop" "10.0.0.2",
    runningVM "00000000000b" "db.main" "shop" "10.0.0.3"]

theorem scoped_names_web :
    resolve dottedVMs (utf8 "web") (utf8 "shop") =
      .ok ⟨utf8 "web", utf8 "shop", "10.0.0.2", utf8 "00000000000a"⟩ := by
  refine ((scoped_names_iff dottedVMs (by decide) "web" "shop" (by decide)).1 []
    ⟨utf8 "web", utf8 "shop", "10.0.0.2", utf8 "00000000000a"⟩ (by decide) (by decide) dottedVMs
    (.refl _)).mpr ⟨by decide, ?_⟩
  intro host scope name _
  have plain : dot ∉ utf8 "web" := by decide
  refine absurd ?_ plain
  rw [show utf8 "web" = host ++ dot :: scope from name]
  simp

/-- A record with a dot in its name is not found under it, and a name behind
which another network stands is found. -/
theorem dotted_name_not_found :
    ⟨utf8 "db.main", utf8 "shop", "10.0.0.3", utf8 "00000000000b"⟩ ∈ records dottedVMs [] ∧
      Unshared dottedVMs ⟨utf8 "db.main", utf8 "shop", "10.0.0.3", utf8 "00000000000b"⟩ ∧
        resolve dottedVMs (utf8 "db.main") (utf8 "shop") =
            .error (.notFoundInNetwork (utf8 "db") (utf8 "shop")) ∧
          resolve dottedVMs (utf8 "web.lab") (utf8 "shop") =
            .ok ⟨utf8 "web", utf8 "shop", "10.0.0.2", utf8 "00000000000a"⟩ := by
  decide

end Jerboa.GuestNames
