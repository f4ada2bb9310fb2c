import Jerboa.DirectoryTree
import Mathlib.Data.List.Perm.Basic
import Mathlib.Logic.Function.Basic

/-!
# Edits of directory trees

An edit makes nodes loose (`detach`, `adopt`, `gainLink`) and then gives them an
entry (`attach`) or takes the link away (`dropLink`).  Each of these steps keeps
a tree well formed, and so do the edits made of them: creating, linking,
removing, moving and exchanging entries.
-/

namespace DirectoryTree

open List Function

variable {Node Name : Type*} [DecidableEq Node]

def adopt (tree : DirectoryTree Node Name) (node : Node) (isDir : Bool) :
    DirectoryTree Node Name :=
  { tree with
    dir := Function.update tree.dir node (isDir = true)
    parent := Function.update tree.parent node none
    count := Function.update tree.count node 1
    live := Function.update tree.live node True }

def gainLink (tree : DirectoryTree Node Name) (node : Node) : DirectoryTree Node Name :=
  { tree with count := Function.update tree.count node (tree.count node + 1) }

/-- A link of a node taken away; with the last one the node is no longer live. -/
def dropLink (tree : DirectoryTree Node Name) (node : Node) : DirectoryTree Node Name :=
  { tree with
    count := if tree.count node = 1 then tree.count
      else Function.update tree.count node (tree.count node - 1)
    live := if tree.count node = 1 then Function.update tree.live node False else tree.live }

def detach [DecidableEq Name] (tree : DirectoryTree Node Name) (key : Node × Name) (node : Node) :
    DirectoryTree Node Name :=
  { tree with
    entry := Function.update tree.entry key none
    parent := Function.update tree.parent node none }

open Classical in
noncomputable def attach [DecidableEq Name] (tree : DirectoryTree Node Name) (key : Node × Name)
    (node : Node) : DirectoryTree Node Name :=
  { tree with
    entry := Function.update tree.entry key (some node)
    parent := Function.update tree.parent node (if tree.dir node then some key.1 else none) }

/-! ### Edits at one node -/

/-- What an edit at one node leaves alone: the other nodes, and the entries of
directories among them.  The loose nodes were `loose` and are `left`. -/
structure EditsAt (node : Node) (loose left : List Node) (tree edited : DirectoryTree Node Name) :
    Prop where
  root : edited.root = tree.root
  ne_root : node ≠ tree.root
  same : ∀ other, other ≠ node → edited.dir other = tree.dir other ∧
    edited.parent other = tree.parent other ∧ edited.count other = tree.count other ∧
    edited.live other = tree.live other ∧ left.count other = loose.count other
  entry : ∀ {key other}, other ≠ node → edited.entry key = some other →
    tree.entry key = some other
  dir_entry : ∀ {key other}, other ≠ node → tree.dir other → tree.entry key = some other →
    edited.entry key = some other

/-- An edit keeps a tree well formed if it does so at its node and leaves the
entries and the ways up in order. -/
theorem WellFormed.edit {plain : Name → Prop} {node : Node} {loose left : List Node}
    {tree edited : DirectoryTree Node Name} (wellFormed : tree.WellFormed plain loose)
    (edits : EditsAt node loose left tree edited)
    (placed : ∀ {key target}, edited.entry key = some target → Placed plain edited key target)
    (loose_live : node ∈ left → edited.live node)
    (loose_parent : node ∈ left → edited.parent node = none)
    (dir_entry : edited.live node → edited.dir node → node ∉ left →
      ∃ key, edited.entry key = some node)
    (dir_count : edited.live node → edited.dir node → edited.count node = 1)
    (topped : ∀ {other}, edited.live other → edited.dir other →
      ∃ top, (top = tree.root ∨ top ∈ left) ∧ edited.Above top other)
    (file_parent : edited.live node → ¬ edited.dir node → edited.parent node = none)
    (length_le : ∀ {keys}, edited.Leads keys node →
      keys.length + left.count node ≤ edited.count node) : edited.WellFormed plain left := by
  have stays {other : Node} (different : other ≠ node) : other ∈ left ↔ other ∈ loose := by
    rw [← count_pos_iff, ← count_pos_iff, (edits.same other different).2.2.2.2]
  have root := edits.same tree.root edits.ne_root.symm
  constructor
  case placed => exact placed
  case topped => exact fun live dir => edits.root.symm ▸ topped live dir
  case root_live => rw [edits.root, root.2.2.2.1]; exact wellFormed.root_live
  case root_dir => rw [edits.root, root.1]; exact wellFormed.root_dir
  case root_parent => rw [edits.root, root.2.1]; exact wellFormed.root_parent
  -- the others at the node by assumption, elsewhere as before
  case loose_live =>
    intro other member
    by_cases same : other = node
    · exact same ▸ loose_live (same ▸ member)
    · rw [(edits.same other same).2.2.2.1]
      exact wellFormed.loose_live ((stays same).mp member)
  case loose_ne_root =>
    intro other member
    rw [edits.root]
    by_cases same : other = node
    · exact same ▸ edits.ne_root
    · exact wellFormed.loose_ne_root ((stays same).mp member)
  case loose_parent =>
    intro other member
    by_cases same : other = node
    · exact same ▸ loose_parent (same ▸ member)
    · rw [(edits.same other same).2.1]
      exact wellFormed.loose_parent ((stays same).mp member)
  case dir_entry =>
    intro other live dir notRoot notLoose
    by_cases same : other = node
    · exact same ▸ dir_entry (same ▸ live) (same ▸ dir) (same ▸ notLoose)
    · obtain ⟨isDir, -, -, isLive, -⟩ := edits.same other same
      rw [isDir] at dir
      obtain ⟨key, found⟩ := wellFormed.dir_entry (isLive ▸ live) dir (edits.root ▸ notRoot)
        fun member => notLoose ((stays same).mpr member)
      exact ⟨key, edits.dir_entry same dir found⟩
  case dir_count =>
    intro other live dir
    by_cases same : other = node
    · exact same ▸ dir_count (same ▸ live) (same ▸ dir)
    · obtain ⟨isDir, -, count, isLive, -⟩ := edits.same other same
      rw [count]
      exact wellFormed.dir_count (isLive ▸ live) (isDir ▸ dir)
  case file_parent =>
    intro other live file
    by_cases same : other = node
    · exact same ▸ file_parent (same ▸ live) (same ▸ file)
    · obtain ⟨isDir, parent, -, isLive, -⟩ := edits.same other same
      rw [parent]
      exact wellFormed.file_parent (isLive ▸ live) (isDir ▸ file)
  case length_le =>
    intro keys target leads
    by_cases same : target = node
    · exact same ▸ length_le (same ▸ leads)
    · obtain ⟨-, -, count, -, inLoose⟩ := edits.same target same
      rw [count, inLoose]
      apply wellFormed.length_le
      exact ⟨leads.nodup, fun key member => edits.entry same (leads.entry key member)⟩

/-! ### Edits that keep the entries -/

theorem live_dropLink {tree : DirectoryTree Node Name} {node other : Node}
    (kept : other ≠ node ∨ tree.count node ≠ 1) :
    (tree.dropLink node).live other ↔ tree.live other := by
  simp only [dropLink]
  split
  · rename_i last
    rw [update_of_ne (kept.resolve_right fun more => more last)]
  · rfl

namespace WellFormed

variable {plain : Name → Prop} {loose : List Node} {tree : DirectoryTree Node Name}

section

variable (wellFormed : tree.WellFormed plain loose)

include wellFormed

theorem adopt {node : Node}
    (fresh : ¬ tree.live node) (isDir : Bool) :
    (tree.adopt node isDir).WellFormed plain (node :: loose) := by
  have liveNe : ∀ {other}, tree.live other → other ≠ node := by
    intro other live same
    exact fresh (same ▸ live)
  have edits : EditsAt node loose (node :: loose) tree (tree.adopt node isDir) := by
    refine ⟨rfl, (liveNe wellFormed.root_live).symm, fun other different => ?_,
      fun _ found => found, fun _ _ found => found⟩
    simp [DirectoryTree.adopt, different, count_cons_of_ne (Ne.symm different)]
  apply wellFormed.edit edits
  case placed =>
    intro key target found
    have stays := wellFormed.placed found
    obtain ⟨-, -, -, fromLive, -⟩ := edits.same key.1 (liveNe stays.from_live)
    obtain ⟨dir, parent, -, live, -⟩ := edits.same target (liveNe stays.live)
    constructor
    · exact fromLive ▸ stays.from_live
    · rw [(edits.same key.1 (liveNe stays.from_live)).1]
      exact stays.from_dir
    · exact stays.plain
    · exact live ▸ stays.live
    · exact stays.ne_root
    · rw [dir, parent]
      exact stays.parent
  case dir_entry => exact fun _ _ notLoose => absurd mem_cons_self notLoose
  case topped =>
    intro other live dir
    by_cases same : other = node
    · exact ⟨node, .inr mem_cons_self, same ▸ .refl⟩
    · simp only [DirectoryTree.adopt, update_of_ne same] at live dir
      obtain ⟨top, isTop, above⟩ := wellFormed.topped live dir
      refine ⟨top, isTop.imp id (mem_cons_of_mem node), above_of_agree ?_ above⟩
      intro up upAbove next under
      have upLive := (wellFormed.above_dir live dir upAbove).1
      exact ⟨under.1, (edits.same up (liveNe upLive)).2.1.trans under.2⟩
  case length_le =>
    intro keys leads
    have noKeys : keys = [] := by
      apply eq_nil_iff_forall_not_mem.mpr
      intro key member
      exact fresh (wellFormed.placed (leads.entry key member)).live
    have notLoose : node ∉ loose := by
      intro member
      exact fresh (wellFormed.loose_live member)
    simp [noKeys, DirectoryTree.adopt, count_eq_zero.mpr notLoose]
  all_goals simp [DirectoryTree.adopt]

theorem gainLink {node : Node}
    (live : tree.live node) (file : ¬ tree.dir node) :
    (tree.gainLink node).WellFormed plain (node :: loose) := by
  have notRoot : node ≠ tree.root := by
    intro same
    exact file (same ▸ wellFormed.root_dir)
  have edits : EditsAt node loose (node :: loose) tree (tree.gainLink node) := by
    refine ⟨rfl, notRoot, fun other different => ?_, fun _ found => found, fun _ _ found => found⟩
    simp [DirectoryTree.gainLink, different, count_cons_of_ne (Ne.symm different)]
  apply wellFormed.edit edits
  case placed =>
    intro key target found
    exact { wellFormed.placed found with }
  case loose_live => exact fun _ => live
  case loose_parent => exact fun _ => wellFormed.file_parent live file
  case topped =>
    intro other otherLive dir
    obtain ⟨top, isTop, above⟩ := wellFormed.topped otherLive dir
    exact ⟨top, isTop.imp id (mem_cons_of_mem node), above⟩
  case file_parent => exact wellFormed.file_parent
  case length_le =>
    intro keys leads
    have bound := wellFormed.length_le (⟨leads.nodup, leads.entry⟩ : tree.Leads keys node)
    simp only [DirectoryTree.gainLink, update_self, count_cons_self]
    omega
  all_goals exact fun _ dir => absurd dir file

theorem dropLink {node : Node}
    (isLoose : node ∈ loose) (empty : ∀ name, tree.entry (node, name) = none) :
    (tree.dropLink node).WellFormed plain (loose.erase node) := by
  have atMost := wellFormed.count_loose_le node
  have positive := count_pos_iff.mpr isLoose
  have nodeLive := wellFormed.loose_live isLoose
  have edits : EditsAt node loose (loose.erase node) tree (tree.dropLink node) := by
    refine ⟨rfl, wellFormed.loose_ne_root isLoose, fun other different => ?_,
      fun _ found => found, fun _ _ found => found⟩
    by_cases last : tree.count node = 1 <;>
      simp [DirectoryTree.dropLink, last, different, count_erase_of_ne different]
  have more (live : (tree.dropLink node).live node) : tree.count node ≠ 1 := by
    intro last
    simp [DirectoryTree.dropLink, last] at live
  have wasLive {other : Node} (live : (tree.dropLink node).live other) : tree.live other := by
    by_cases same : other = node
    · exact same ▸ nodeLive
    · exact (live_dropLink (.inl same)).mp live
  have dirNe {other : Node} (live : (tree.dropLink node).live other) (dir : tree.dir other) :
      other ≠ node := by
    rintro rfl
    exact more live (wellFormed.dir_count nodeLive dir)
  apply wellFormed.edit edits
  case placed =>
    intro key target found
    have stays := wellFormed.placed found
    have keyNe : key.1 ≠ node := by
      intro same
      have absent := empty key.2
      rw [← same] at absent
      cases absent.symm.trans found
    have kept : target ≠ node ∨ tree.count node ≠ 1 := by
      by_cases same : target = node
      · have bound := wellFormed.count_pos (same ▸ found)
        exact .inr (by omega)
      · exact .inl same
    exact { stays with
      from_live := (live_dropLink (.inl keyNe)).mpr stays.from_live
      live := (live_dropLink kept).mpr stays.live }
  case loose_live =>
    intro member
    have twice := count_pos_iff.mpr member
    rw [count_erase_self] at twice
    exact (live_dropLink (.inr (by omega))).mpr nodeLive
  case loose_parent => exact fun _ => wellFormed.loose_parent isLoose
  case dir_entry => exact fun live dir => absurd rfl (dirNe live dir)
  case dir_count => exact fun live dir => absurd rfl (dirNe live dir)
  case topped =>
    intro other live dir
    obtain ⟨top, isTop, above⟩ := wellFormed.topped (wasLive live) dir
    have topNe : top ≠ node := by
      intro same
      exact wellFormed.not_above_of_empty isLoose empty (wasLive live) dir (dirNe live dir)
        (same ▸ above)
    exact ⟨top, isTop.imp id (mem_erase_of_ne topNe).mpr, above⟩
  case file_parent => exact fun _ => wellFormed.file_parent nodeLive
  case length_le =>
    intro keys leads
    have bound := wellFormed.length_le (⟨leads.nodup, leads.entry⟩ : tree.Leads keys node)
    rw [count_erase_self]
    by_cases last : tree.count node = 1
    · simp only [DirectoryTree.dropLink, if_pos last]
      omega
    · simp only [DirectoryTree.dropLink, if_neg last, update_self]
      omega

end

end WellFormed

/-! ### Edits of entries -/

variable [DecidableEq Name]

section Equalities

variable {tree : DirectoryTree Node Name} {first second : Node × Name} {node other : Node}

theorem detach_attach :
    (tree.detach first node).attach second node =
      { tree with entry := Function.update tree.entry first none }.attach second node := by
  apply DirectoryTree.ext <;> try rfl
  exact update_idem ..

theorem detach_replaced (sameFile : node = other → ¬ tree.dir node) :
    (((tree.detach second other).dropLink other).detach first node).attach second node =
      { ({ tree.dropLink other with
            entry := Function.update tree.entry first none }.attach second node) with
        parent := update
          ({ tree.dropLink other with
              entry := Function.update tree.entry first none }.attach second node).parent
          other none } := by
  rw [detach_attach]
  apply DirectoryTree.ext <;> try rfl
  · funext key
    simp only [attach, dropLink, detach, update_apply]
    split_ifs <;> rfl
  · by_cases same : node = other
    · subst same
      funext key
      by_cases isNode : key = node
      · rw [isNode]
        simp only [attach, update_self]
        exact if_neg (sameFile rfl)
      · simp only [attach, dropLink, detach, update_of_ne isNode]
    · exact update_comm (Ne.symm same) ..

theorem detach_exchanged :
    (((tree.detach first node).detach second other).attach first other).attach second node =
      (tree.attach first other).attach second node := by
  apply DirectoryTree.ext <;> try rfl
  · funext key
    simp only [attach, detach, update_apply]
    split_ifs <;> rfl
  · funext key
    by_cases isNode : key = node
    · rw [isNode]
      simp only [attach, update_self]
      rfl
    · by_cases isOther : key = other
      · rw [isOther] at isNode ⊢
        simp only [attach, update_of_ne isNode, update_self]
        rfl
      · simp only [attach, detach, update_of_ne isNode, update_of_ne isOther]

end Equalities

section Ancestors

variable {tree : DirectoryTree Node Name} {key : Node × Name} {node up below : Node}

theorem above_detach (notAbove : ¬ tree.Above node below) (above : tree.Above up below) :
    (tree.detach key node).Above up below := by
  apply above_of_agree _ above
  intro other otherAbove next under
  have different : other ≠ node := by
    intro same
    exact notAbove (same ▸ otherAbove)
  refine ⟨under.1, ?_⟩
  simp only [detach, update_of_ne different]
  exact under.2

theorem above_of_detach (above : (tree.detach key node).Above up below) :
    tree.Above up below := by
  apply above_of_agree _ above
  intro other _ next under
  refine ⟨under.1, ?_⟩
  obtain ⟨-, parent⟩ := under
  simp only [detach, update_apply] at parent
  split at parent
  · cases parent
  · exact parent

theorem above_attach (loose : tree.parent node = none) (above : tree.Above up below) :
    (tree.attach key node).Above up below := by
  apply above_of_agree _ above
  intro other _ next under
  have different : other ≠ node := by
    intro same
    rw [same, Under, loose] at under
    cases under.2
  refine ⟨under.1, ?_⟩
  simp only [attach, update_of_ne different]
  exact under.2

end Ancestors

namespace WellFormed

variable {plain : Name → Prop} {loose : List Node} {tree : DirectoryTree Node Name}

theorem detach (wellFormed : tree.WellFormed plain loose) {key : Node × Name} {node : Node}
    (entry : tree.entry key = some node) :
    (tree.detach key node).WellFormed plain (node :: loose) := by
  have placed := wellFormed.placed entry
  have entryOf {other : Node × Name} {target : Node}
      (found : (tree.detach key node).entry other = some target) :
      other ≠ key ∧ tree.entry other = some target := by
    by_cases same : other = key
    · simp [DirectoryTree.detach, same] at found
    · simp only [DirectoryTree.detach, update_of_ne same] at found
      exact ⟨same, found⟩
  have edits : EditsAt node loose (node :: loose) tree (tree.detach key node) := by
    refine ⟨rfl, placed.ne_root, fun other different => ?_, fun _ found => (entryOf found).2,
      fun different _ found => ?_⟩
    · simp [DirectoryTree.detach, different, count_cons_of_ne (Ne.symm different)]
    · refine (update_of_ne ?_ ..).trans found
      rintro rfl
      exact different (Option.some.inj (found.symm.trans entry))
  apply wellFormed.edit edits
  case placed =>
    intro other target found
    obtain ⟨different, oldFound⟩ := entryOf found
    have stays := wellFormed.placed oldFound
    refine { stays with parent := fun dir => ?_ }
    rw [(edits.same target _).2.1]
    · exact stays.parent dir
    · rintro rfl
      exact different (wellFormed.dir_entry_unique dir entry oldFound)
  case loose_live => exact fun _ => placed.live
  case dir_entry => exact fun _ _ notLoose => absurd mem_cons_self notLoose
  case dir_count => exact wellFormed.dir_count
  case topped =>
    intro other live dir
    obtain ⟨top, isTop, above⟩ := wellFormed.topped live dir
    -- the way up ends at the node if it comes by it
    induction above using Relation.ReflTransGen.head_induction_on with
    | refl => exact ⟨top, isTop.imp id (mem_cons_of_mem node), .refl⟩
    | @head child up under _ ih =>
      by_cases same : child = node
      · exact ⟨node, .inr mem_cons_self, same ▸ .refl⟩
      · obtain ⟨upLive, upDir⟩ := wellFormed.parent_live live under.2
        obtain ⟨top, isTop, above⟩ := ih upLive upDir
        exact ⟨top, isTop, .head ⟨under.1, (edits.same child same).2.1.trans under.2⟩ above⟩
  case length_le =>
    intro keys leads
    have leads : tree.Leads (key :: keys) node := by
      constructor
      · exact leads.nodup.cons fun member => (entryOf (leads.entry key member)).1 rfl
      · exact forall_mem_cons.mpr
          ⟨entry, fun place member => (entryOf (leads.entry place member)).2⟩
    have bound := wellFormed.length_le leads
    have same : (tree.detach key node).count node = tree.count node := rfl
    rw [length_cons] at bound
    rw [count_cons_self]
    omega
  all_goals simp [DirectoryTree.detach]

theorem attach (wellFormed : tree.WellFormed plain loose) {key : Node × Name} {node : Node}
    (isLoose : node ∈ loose) (free : Free plain tree key)
    (rooted : tree.Above tree.root key.1) :
    (tree.attach key node).WellFormed plain (loose.erase node) := by
  have notRoot := wellFormed.loose_ne_root isLoose
  have nodeLive := wellFormed.loose_live isLoose
  have entryOf {other : Node × Name} {target : Node}
      (found : (tree.attach key node).entry other = some target) :
      (other = key ∧ target = node) ∨ tree.entry other = some target := by
    by_cases same : other = key
    · subst same
      simp only [DirectoryTree.attach, update_self, Option.some.injEq] at found
      exact .inl ⟨rfl, found.symm⟩
    · simp only [DirectoryTree.attach, update_of_ne same] at found
      exact .inr found
  have edits : EditsAt node loose (loose.erase node) tree (tree.attach key node) := by
    refine ⟨rfl, notRoot, fun other different => ?_, fun different found => ?_,
      fun _ dir found => ?_⟩
    · simp [DirectoryTree.attach, different, count_erase_of_ne different]
    · exact (entryOf found).resolve_left fun new => different new.2
    · refine (update_of_ne ?_ ..).trans found
      rintro rfl
      exact free.file _ found dir
  have parentOfDir (dir : tree.dir node) : (tree.attach key node).parent node = some key.1 := by
    simp only [DirectoryTree.attach, if_pos dir, update_self]
  have parentOfFile (file : ¬ tree.dir node) : (tree.attach key node).parent node = none := by
    simp only [DirectoryTree.attach, if_neg file, update_self]
  have aboveOf {up below : Node} (above : tree.Above up below) :
      (tree.attach key node).Above up below :=
    above_attach (wellFormed.loose_parent isLoose) above
  apply wellFormed.edit edits
  case placed =>
    intro other target found
    obtain ⟨rfl, rfl⟩ | oldFound := entryOf found
    · exact ⟨free.live, free.dir, free.plain, nodeLive, notRoot, parentOfDir⟩
    · have stays := wellFormed.placed oldFound
      refine { stays with parent := fun dir => ?_ }
      rw [(edits.same target _).2.1]
      · exact stays.parent dir
      · rintro rfl
        exact wellFormed.not_mem_loose_of_entry dir oldFound isLoose
  case loose_live => exact fun _ => nodeLive
  case loose_parent =>
    intro member
    -- a node that is loose twice counts two links
    apply parentOfFile
    intro dir
    have twice := count_pos_iff.mpr member
    rw [count_erase_self] at twice
    have bound := wellFormed.count_loose_le node
    rw [wellFormed.dir_count nodeLive dir] at bound
    omega
  case dir_entry =>
    exact fun _ _ _ => ⟨key, by simp only [DirectoryTree.attach, update_self]⟩
  case dir_count => exact wellFormed.dir_count
  case topped =>
    intro other live dir
    obtain ⟨top, isTop, above⟩ := wellFormed.topped live dir
    by_cases same : top = node
    · have nodeDir := (wellFormed.above_dir live dir above).2
      rw [same] at above nodeDir
      exact ⟨tree.root, .inl rfl,
        (aboveOf above).trans (.head ⟨notRoot, parentOfDir nodeDir⟩ (aboveOf rooted))⟩
    · exact ⟨top, isTop.imp id (mem_erase_of_ne same).mpr, aboveOf above⟩
  case file_parent => exact fun _ => parentOfFile
  case length_le =>
    intro keys leads
    have fewer : tree.Leads (keys.erase key) node := by
      refine ⟨leads.nodup.erase key, fun place member => ?_⟩
      obtain ⟨different, member⟩ := (leads.nodup.mem_erase_iff).mp member
      exact (entryOf (leads.entry place member)).resolve_left fun new => different new.1
    have bound := wellFormed.length_le fewer
    have positive := count_pos_iff.mpr isLoose
    have shorter : keys.length ≤ (keys.erase key).length + 1 := by
      rw [length_erase]
      split <;> omega
    have same : (tree.attach key node).count node = tree.count node := rfl
    rw [count_erase_self, same]
    omega

/-! ### The edits of a tree without loose nodes -/

section

variable (wellFormed : tree.WellFormed plain [])

include wellFormed

variable {key : Node × Name} {node : Node}

theorem created (free : Free plain tree key) (fresh : ¬ tree.live node) (isDir : Bool) :
    ((tree.adopt node isDir).attach key node).WellFormed plain [] := by
  have liveNe : ∀ {other}, tree.live other → other ≠ node := by
    intro other live same
    exact fresh (same ▸ live)
  have adopted := wellFormed.adopt fresh isDir
  have keyNe := liveNe free.live
  have stillFree : Free plain (tree.adopt node isDir) key := by
    constructor
    · simp only [DirectoryTree.adopt, update_of_ne keyNe, free.live]
    · simp only [DirectoryTree.adopt, update_of_ne keyNe, free.dir]
    · exact free.plain
    · intro other entry
      simp only [DirectoryTree.adopt, update_of_ne (liveNe (wellFormed.placed entry).live)]
      exact free.file other entry
  have rooted : (tree.adopt node isDir).Above tree.root key.1 := by
    apply above_of_agree _ (wellFormed.rooted free.live free.dir)
    intro other above up under
    have different := liveNe (wellFormed.above_dir free.live free.dir above).1
    refine ⟨under.1, ?_⟩
    simp only [DirectoryTree.adopt, update_of_ne different]
    exact under.2
  have attached := adopted.attach mem_cons_self stillFree rooted
  rwa [erase_cons_head] at attached

theorem linked (free : Free plain tree key) (live : tree.live node) (file : ¬ tree.dir node) :
    ((tree.gainLink node).attach key node).WellFormed plain [] := by
  have gained := wellFormed.gainLink live file
  have stillFree : Free plain (tree.gainLink node) key := { free with }
  have attached := gained.attach mem_cons_self stillFree
    (wellFormed.rooted free.live free.dir)
  rwa [erase_cons_head] at attached

theorem removed
    (entry : tree.entry key = some node) (empty : ∀ name, tree.entry (node, name) = none) :
    ((tree.detach key node).dropLink node).WellFormed plain [] := by
  have stillEmpty : ∀ name, (tree.detach key node).entry (node, name) = none := by
    intro name
    simp only [DirectoryTree.detach, update_apply, empty, ite_self]
  have dropped := (wellFormed.detach entry).dropLink mem_cons_self stillEmpty
  rwa [erase_cons_head] at dropped

theorem moved {source target : Node × Name}
    (entry : tree.entry source = some node) (free : Free plain tree target)
    (notAbove : ¬ tree.Above node target.1) :
    ((tree.detach source node).attach target node).WellFormed plain [] := by
  have stillFree : Free plain (tree.detach source node) target := by
    refine { free with file := fun other found => ?_ }
    simp only [DirectoryTree.detach, update_apply] at found
    split at found
    · cases found
    · exact free.file other found
  have rooted : (tree.detach source node).Above tree.root target.1 :=
    above_detach notAbove (wellFormed.rooted free.live free.dir)
  have attached := (wellFormed.detach entry).attach mem_cons_self stillFree rooted
  rwa [erase_cons_head] at attached

theorem replaced {source target : Node × Name}
    {node other : Node} (different : source ≠ target) (entry : tree.entry source = some node)
    (taken : tree.entry target = some other) (empty : ∀ name, tree.entry (other, name) = none)
    (notAbove : ¬ tree.Above node target.1) :
    ((((tree.detach target other).dropLink other).detach source node).attach target
      node).WellFormed plain [] := by
  have placed := wellFormed.placed taken
  have keyNe : target.1 ≠ other := by
    intro same
    exact wellFormed.not_above_of_entry taken (same ▸ .refl)
  apply (wellFormed.removed taken empty).moved
  · simp only [DirectoryTree.dropLink, DirectoryTree.detach, update_of_ne different]
    exact entry
  · constructor
    · exact (live_dropLink (.inl keyNe)).mpr placed.from_live
    · exact placed.from_dir
    · exact placed.plain
    · simp only [DirectoryTree.dropLink, DirectoryTree.detach, update_self]
      intro found absent
      cases absent
  · intro above
    have before : (tree.detach target other).Above node target.1 := above
    exact notAbove (above_of_detach before)

theorem exchanged {first second : Node × Name}
    {node other : Node} (different : first ≠ second) (entry : tree.entry first = some node)
    (otherEntry : tree.entry second = some other) (notAbove : ¬ tree.Above node second.1)
    (otherNotAbove : ¬ tree.Above other first.1) :
    ((((tree.detach first node).detach second other).attach first other).attach second
      node).WellFormed plain [] := by
  have placed := wellFormed.placed entry
  have otherPlaced := wellFormed.placed otherEntry
  have stays : (tree.detach first node).entry second = some other := by
    simp only [DirectoryTree.detach, update_of_ne different.symm, otherEntry]
  have detached := (wellFormed.detach entry).detach stays
  -- both directories of the entries stay below the root
  have firstRooted : ((tree.detach first node).detach second other).Above tree.root first.1 := by
    apply above_detach
    · intro above
      exact otherNotAbove (above_of_detach above)
    · exact above_detach (wellFormed.not_above_of_entry entry)
        (wellFormed.rooted placed.from_live placed.from_dir)
  have secondRooted : ((tree.detach first node).detach second other).Above tree.root second.1 := by
    apply above_detach
    · intro above
      exact wellFormed.not_above_of_entry otherEntry (above_of_detach above)
    · exact above_detach notAbove
        (wellFormed.rooted otherPlaced.from_live otherPlaced.from_dir)
  have firstFree : Free plain ((tree.detach first node).detach second other) first := by
    refine ⟨placed.from_live, placed.from_dir, placed.plain, ?_⟩
    simp [DirectoryTree.detach, different]
  have attached := detached.attach mem_cons_self firstFree firstRooted
  rw [erase_cons_head] at attached
  have secondFree : Free plain (((tree.detach first node).detach second other).attach first other)
      second := by
    refine ⟨otherPlaced.from_live, otherPlaced.from_dir, otherPlaced.plain, ?_⟩
    simp [DirectoryTree.attach, DirectoryTree.detach, different.symm]
  have otherParent := detached.loose_parent (mem_cons_self : other ∈ [other, node])
  have rooted : (((tree.detach first node).detach second other).attach first other).Above
      tree.root second.1 := above_attach otherParent secondRooted
  have both := attached.attach mem_cons_self secondFree rooted
  rwa [erase_cons_head] at both

end

end WellFormed

end DirectoryTree
