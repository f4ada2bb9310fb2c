import Jerboa.NetworkStoreInvariant

/-!
# The addresses a network holds

`AllocatedIPs` keeps addresses as text, in the form that `net.IP.String` gives
them.  What reserving, allocating and releasing an address does to these lists,
network by network.
-/

namespace Jerboa.NetworkStore

open NetAddress

def canonicalIP (ip : String) : Option String :=
  ((parseIP ip.toList).bind fun parsed => (to4 parsed).map fun _ => parsed).map ipText

def heldIPs (store : Store) (name : String) : Option (List String) :=
  match readNetwork store name with
  | .ok dir => some dir.state.allocatedIPs
  | .error _ => none

def gatewayOf (store : Store) (name : String) : Option String :=
  match readNetwork store name with
  | .ok dir => some dir.metadata.gateway
  | .error _ => none

theorem exists_bytes_of_to4 {ip ip4 : IP} (isV4 : to4 ip = some ip4) :
    ∃ a b c d, ip4 = [a, b, c, d] := by
  unfold to4 at isV4
  have length : ip4.length = 4 := by
    split at isV4
    · rename_i four
      rw [← Option.some.inj isV4, four]
    · split at isV4
      · rename_i sixteen
        rw [← Option.some.inj isV4, List.length_drop, sixteen.1]
      · simp at isV4
  match ip4, length with
  | [a, b, c, d], _ => exact ⟨a, b, c, d, rfl⟩

theorem canonicalIP_ipText {ip ip4 : IP} (isV4 : to4 ip = some ip4) :
    canonicalIP (ipText ip) = some (ipText ip) := by
  obtain ⟨a, b, c, d, rfl⟩ := exists_bytes_of_to4 isV4
  have text : ipText ip = String.ofList (dotted [a, b, c, d]) := by
    simp [ipText, ipString, isV4]
  have mapped : to4 (v4InV6Prefix ++ [a, b, c, d]) = some [a, b, c, d] := by
    simp [to4, v4InV6Prefix]
  rw [canonicalIP, text, String.toList_ofList, parseIP_dotted]
  simp [mapped, ipText, ipString]

variable {ip name : String} {store target : Store}

theorem canonicalIP_idem {text : String} (canonical : canonicalIP ip = some text) :
    canonicalIP text = some text := by
  obtain ⟨parsed, read, rfl⟩ := Option.map_eq_some_iff.mp canonical
  obtain ⟨address, -, mapped⟩ := Option.bind_eq_some_iff.mp read
  obtain ⟨ip4, isV4, rfl⟩ := Option.map_eq_some_iff.mp mapped
  exact canonicalIP_ipText isV4

/-! ### Lists of held addresses -/

theorem ne_empty_of_canonicalIP {text : String} (canonical : canonicalIP ip = some text) :
    ip ≠ "" := by
  intro empty
  have invalid : canonicalIP "" = none := by decide
  rw [empty, invalid] at canonical
  simp at canonical

theorem heldIPs_of_read {dir : NetworkDir} (read : readNetwork store name = .ok dir) :
    heldIPs store name = some dir.state.allocatedIPs := by
  simp [heldIPs, read]

theorem heldIPs_of_get_error {e : NetworkError} (missing : get store name = .error e) :
    heldIPs store name = none := by
  unfold get at missing
  cases read : readNetwork store name with
  | error _ => simp [heldIPs, read]
  | ok dir => simp [read, Except.map] at missing

theorem heldIPs_empty (store : Store) : heldIPs store "" = none := by
  have invalid : ∃ e, networkDir "" = .error e := ⟨_, rfl⟩
  obtain ⟨e, invalid⟩ := invalid
  simp [heldIPs, readNetwork, invalid]

theorem findDir_write (name other : String) (state : NetworkState) :
    findDir (writeNetworkState store name state) other =
      (findDir store other).map fun dir =>
        if other = name then { dir with state := state } else dir := by
  unfold findDir writeNetworkState
  induction store with
  | nil => rfl
  | cons entry rest ih =>
    by_cases here : entry.1 = other
    · by_cases named : entry.1 = name
      · simp [← here, named]
      · simp [← here, named]
    · have skipped : (if entry.1 = name then (entry.1, { entry.2 with state := state })
          else entry).1 ≠ other := by
        split <;> exact here
      simp only [List.map_cons, List.find?_cons, here, skipped, decide_false]
      exact ih

theorem heldIPs_write {dir : NetworkDir} (read : readNetwork store name = .ok dir)
    (state : NetworkState) (other : String) :
    heldIPs (writeNetworkState store name state) other =
      if other = name then some state.allocatedIPs else heldIPs store other := by
  obtain ⟨valid, found⟩ := readNetwork_eq_ok read
  unfold heldIPs readNetwork
  rw [findDir_write]
  by_cases same : other = name
  · subst same
    simp [valid, found]
  · cases networkDir other with
    | error e => simp [same]
    | ok _ => cases findDir store other <;> simp [same]

theorem gatewayOf_write (store : Store) (name : String) (state : NetworkState) (other : String) :
    gatewayOf (writeNetworkState store name state) other = gatewayOf store other := by
  unfold gatewayOf readNetwork
  rw [findDir_write]
  cases networkDir other with
  | error e => rfl
  | ok _ =>
    cases findDir store other with
    | none => rfl
    | some dir => by_cases same : other = name <;> simp [same]

theorem reserveIP_held (reserved : reserveIP store name ip = .ok target) :
    ∃ ips text, heldIPs store name = some ips ∧ canonicalIP ip = some text ∧ text ∉ ips ∧
      ∀ other, heldIPs target other =
        if other = name then some (ips ++ [text]) else heldIPs store other := by
  simp only [reserveIP] at reserved
  split at reserved
  · simp at reserved
  · rename_i dir read
    split at reserved
    · simp at reserved
    · rename_i parsed isV4
      split at reserved
      · simp at reserved
      · repeat' split at reserved
        all_goals simp only [reduceCtorEq, Except.ok.injEq] at reserved
        rename_i free
        subst reserved
        exact ⟨_, ipText parsed, heldIPs_of_read read, by simp [canonicalIP, isV4], free,
          fun other => heldIPs_write read _ other⟩

theorem allocateIP_held (invariant : Invariant store) {ip : IP}
    (allocated : allocateIP store name = some (.ok (ip, target))) :
    ∃ ips, heldIPs store name = some ips ∧ ipText ip ∉ ips ∧
      canonicalIP (ipText ip) = some (ipText ip) ∧
      ∀ other, heldIPs target other =
        if other = name then some (ips ++ [ipText ip]) else heldIPs store other := by
  obtain ⟨dir, block, nextIndex, found, parsed, search, rfl⟩ := allocateIP_eq_ok allocated
  obtain ⟨block', base, prefixLength, wellFormed⟩ :=
    invariant.wellFormed _ (mem_of_findDir found)
  obtain rfl : block = block' := by
    rw [wellFormed.parse_subnet] at parsed
    exact (Option.some.inj parsed).symm
  have read : readNetwork store name = .ok dir := by
    simp [readNetwork, wellFormed.nameValid, found]
  obtain ⟨i, -, -, -, rfl, free, -⟩ :=
    searchIP_found wellFormed.isBlock wellFormed.cursor_le search
  have isV4 : to4 (bytesOf (addressAt base i)) = some (bytesOf (addressAt base i)) := by
    simp [to4, bytesOf]
  exact ⟨_, heldIPs_of_read read, free, canonicalIP_ipText isV4,
    fun other => heldIPs_write read _ other⟩

theorem releaseIP_held (released : releaseIP store name ip = .ok target) :
    ∃ ips, heldIPs store name = some ips ∧
      ∀ other, heldIPs target other =
        if other = name then some (ips.erase ip) else heldIPs store other := by
  unfold releaseIP at released
  split at released
  · simp at released
  · rename_i dir read
    cases released
    exact ⟨_, heldIPs_of_read read, fun other => heldIPs_write read _ other⟩

theorem exists_releaseIP {ips : List String} (held : heldIPs store name = some ips) (ip : String) :
    ∃ released, releaseIP store name ip = .ok released := by
  unfold heldIPs at held
  cases read : readNetwork store name with
  | error e => simp [read] at held
  | ok dir =>
    simp only [releaseIP, read]
    exact ⟨_, rfl⟩

/-! ### Releasing what was reserved -/

/-- Releasing an address under the text it was reserved with brings back the
set of held addresses exactly when that text is the canonical one. -/
theorem release_restores_iff {store reserved : Store} {name ip : String} {held : List String}
    (before : heldIPs store name = some held) (accepted : reserveIP store name ip = .ok reserved) :
    (∃ released after, releaseIP reserved name ip = .ok released ∧
      heldIPs released name = some after ∧ ∀ address, address ∈ after ↔ address ∈ held) ↔
      canonicalIP ip = some ip := by
  obtain ⟨ips, text, holding, canonical, free, target⟩ := reserveIP_held accepted
  obtain rfl : held = ips := Option.some.inj (before.symm.trans holding)
  have holdingBoth : heldIPs reserved name = some (held ++ [text]) := by simp [target]
  constructor
  · rintro ⟨released, after, releases, remaining, same⟩
    obtain ⟨ips, holding', target'⟩ := releaseIP_held releases
    obtain rfl : held ++ [text] = ips := Option.some.inj (holdingBoth.symm.trans holding')
    have left : (held ++ [text]).erase ip = after := by
      simpa [target'] using remaining
    -- under any other text the address stays
    by_cases own : ip = text
    · rw [own, canonicalIP_idem canonical]
    · have stays : text ∈ after := by
        rw [← left, List.mem_erase_of_ne (Ne.symm own)]
        simp
      exact absurd ((same text).mp stays) free
  · intro own
    obtain rfl : text = ip := Option.some.inj (canonical.symm.trans own)
    obtain ⟨released, releases⟩ := exists_releaseIP holdingBoth text
    obtain ⟨ips, holding', target'⟩ := releaseIP_held releases
    obtain rfl : held ++ [text] = ips := Option.some.inj (holdingBoth.symm.trans holding')
    refine ⟨released, held, releases, ?_, fun _ => Iff.rfl⟩
    rw [target', if_pos rfl, List.erase_append_right _ free]
    simp

def appStore : Store :=
  [("app", ⟨⟨"app", "app", "10.0.0.0/24", "10.0.0.1", "jerboa-br-app", "bridge"⟩,
    ⟨["10.0.0.1"], 2⟩⟩)]

theorem release_restores_iff_app :
    ∃ reserved, reserveIP appStore "app" "10.0.0.5" = .ok reserved ∧
      ((∃ released after, releaseIP reserved "app" "10.0.0.5" = .ok released ∧
        heldIPs released "app" = some after ∧
          ∀ address, address ∈ after ↔ address ∈ ["10.0.0.1"]) ↔
        canonicalIP "10.0.0.5" = some "10.0.0.5") := by
  have accepted : reserveIP appStore "app" "10.0.0.5" =
      .ok (writeNetworkState appStore "app" ⟨["10.0.0.1", "10.0.0.5"], 2⟩) := by
    decide
  exact ⟨_, accepted, release_restores_iff (by decide) accepted⟩

/-- An address reserved in its v4-mapped form is not released under it. -/
theorem mapped_address_stays :
    ∃ reserved released, reserveIP appStore "app" "::ffff:10.0.0.5" = .ok reserved ∧
      releaseIP reserved "app" "::ffff:10.0.0.5" = .ok released ∧
      heldIPs appStore "app" = some ["10.0.0.1"] ∧
      heldIPs released "app" = some ["10.0.0.1", "10.0.0.5"] := by
  have accepted : reserveIP appStore "app" "::ffff:10.0.0.5" =
      .ok (writeNetworkState appStore "app" ⟨["10.0.0.1", "10.0.0.5"], 2⟩) := by
    decide
  have released : releaseIP (writeNetworkState appStore "app" ⟨["10.0.0.1", "10.0.0.5"], 2⟩)
      "app" "::ffff:10.0.0.5" =
      .ok (writeNetworkState appStore "app" ⟨["10.0.0.1", "10.0.0.5"], 2⟩) := by
    decide
  exact ⟨_, _, accepted, released, by decide, by decide⟩

end Jerboa.NetworkStore
