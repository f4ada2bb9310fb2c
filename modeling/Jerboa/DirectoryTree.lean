import Mathlib.Data.List.Count
import Mathlib.Data.List.Nodup
import Mathlib.Logic.Relation

/-!
# Directory trees with hard links

What a tree of directories is, apart from how its nodes are stored: which node
each entry leads to, which nodes are directories, what their parents are, and
how many links a node counts.  A directory has one entry, other nodes may have
several.

A well-formed tree may have loose nodes, which count a link that no entry leads
to; it is well formed in the usual sense when no node is loose.
-/

/-- The entries, parents and link counts of a tree.  An entry is named by the
node it is in and its name there. -/
@[ext]
structure DirectoryTree (Node Name : Type*) where
  root : Node
  entry : Node × Name → Option Node
  dir : Node → Prop
  parent : Node → Option Node
  count : Node → Nat
  live : Node → Prop

namespace DirectoryTree

variable {Node Name : Type*}

def Under (tree : DirectoryTree Node Name) (child up : Node) : Prop :=
  child ≠ tree.root ∧ tree.parent child = some up

def Above (tree : DirectoryTree Node Name) (up below : Node) : Prop :=
  Relation.ReflTransGen tree.Under below up

/-- Different entries that all lead to one node. -/
structure Leads (tree : DirectoryTree Node Name) (keys : List (Node × Name)) (node : Node) :
    Prop where
  nodup : keys.Nodup
  entry : ∀ key ∈ keys, tree.entry key = some node

/-- An entry of a live directory for a live node below the root. -/
structure Placed (plain : Name → Prop) (tree : DirectoryTree Node Name) (key : Node × Name)
    (node : Node) : Prop where
  from_live : tree.live key.1
  from_dir : tree.dir key.1
  plain : plain key.2
  live : tree.live node
  ne_root : node ≠ tree.root
  parent : tree.dir node → tree.parent node = some key.1

/-- Entries are between live nodes and have plain names; every directory but
the root counts one link and, unless it is loose, is an entry of its parent and
below the root; no node has more entries than it counts links. -/
structure WellFormed [DecidableEq Node] (plain : Name → Prop) (loose : List Node)
    (tree : DirectoryTree Node Name) : Prop where
  root_live : tree.live tree.root
  root_dir : tree.dir tree.root
  root_parent : tree.parent tree.root = some tree.root
  placed : ∀ {key node}, tree.entry key = some node → Placed plain tree key node
  loose_live : ∀ {node}, node ∈ loose → tree.live node
  loose_ne_root : ∀ {node}, node ∈ loose → node ≠ tree.root
  loose_parent : ∀ {node}, node ∈ loose → tree.parent node = none
  dir_entry : ∀ {node}, tree.live node → tree.dir node → node ≠ tree.root → node ∉ loose →
    ∃ key, tree.entry key = some node
  dir_count : ∀ {node}, tree.live node → tree.dir node → tree.count node = 1
  topped : ∀ {node}, tree.live node → tree.dir node →
    ∃ top, (top = tree.root ∨ top ∈ loose) ∧ tree.Above top node
  file_parent : ∀ {node}, tree.live node → ¬ tree.dir node → tree.parent node = none
  length_le : ∀ {keys node}, tree.Leads keys node →
    keys.length + loose.count node ≤ tree.count node

/-- A place for an entry: in a live directory, under a plain name that no
directory has. -/
structure Free (plain : Name → Prop) (tree : DirectoryTree Node Name) (key : Node × Name) :
    Prop where
  live : tree.live key.1
  dir : tree.dir key.1
  plain : plain key.2
  file : ∀ node, tree.entry key = some node → ¬ tree.dir node

section Ancestors

variable {tree changed : DirectoryTree Node Name} {below up child node : Node}

theorem not_transGen_of_rooted (rooted : tree.Above tree.root node) :
    ¬ Relation.TransGen tree.Under node node := by
  induction rooted using Relation.ReflTransGen.head_induction_on with
  | refl =>
    intro cycle
    obtain ⟨up, under, -⟩ := Relation.TransGen.head'_iff.mp cycle
    exact under.1 rfl
  | @head child up under _ ih =>
    intro cycle
    obtain ⟨other, first, rest⟩ := Relation.TransGen.head'_iff.mp cycle
    obtain rfl : up = other := Option.some.inj (under.2.symm.trans first.2)
    exact ih (Relation.TransGen.tail' rest under)

theorem not_above_of_under (rooted : tree.Above tree.root child) (under : tree.Under child up) :
    ¬ tree.Above child up := by
  intro above
  exact not_transGen_of_rooted rooted (Relation.TransGen.head' under above)

theorem above_of_agree
    (agree : ∀ node, tree.Above node below → ∀ up, tree.Under node up → changed.Under node up)
    (above : tree.Above up below) : changed.Above up below := by
  induction above with
  | refl => exact .refl
  | tail previous under ih => exact ih.tail (agree _ previous _ under)

end Ancestors

/-! ### Facts about well-formed trees -/

variable [DecidableEq Node]

namespace WellFormed

variable {plain : Name → Prop} {loose : List Node} {tree : DirectoryTree Node Name}

section

variable (wellFormed : tree.WellFormed plain loose)

include wellFormed

theorem parent_live {node up : Node}
    (live : tree.live node) (parent : tree.parent node = some up) :
    tree.live up ∧ tree.dir up := by
  by_cases dir : tree.dir node
  · by_cases isRoot : node = tree.root
    · rw [isRoot, wellFormed.root_parent] at parent
      cases parent
      exact ⟨wellFormed.root_live, wellFormed.root_dir⟩
    · by_cases isLoose : node ∈ loose
      · rw [wellFormed.loose_parent isLoose] at parent
        cases parent
      · obtain ⟨key, entry⟩ := wellFormed.dir_entry live dir isRoot isLoose
        have placed := wellFormed.placed entry
        rw [placed.parent dir] at parent
        cases parent
        exact ⟨placed.from_live, placed.from_dir⟩
  · rw [wellFormed.file_parent live dir] at parent
    cases parent

theorem above_dir {node up : Node}
    (live : tree.live node) (dir : tree.dir node) (above : tree.Above up node) :
    tree.live up ∧ tree.dir up := by
  induction above with
  | refl => exact ⟨live, dir⟩
  | tail _ under ih => exact wellFormed.parent_live ih.1 under.2

theorem count_pos {key : Node × Name} {node : Node}
    (entry : tree.entry key = some node) : 1 + loose.count node ≤ tree.count node := by
  have leads : tree.Leads [key] node := by
    constructor
    · exact List.nodup_singleton key
    · simpa using entry
  exact wellFormed.length_le leads

theorem dir_entry_unique {key other : Node × Name}
    {node : Node} (dir : tree.dir node) (entry : tree.entry key = some node)
    (second : tree.entry other = some node) : other = key := by
  by_contra different
  have leads : tree.Leads [other, key] node := by
    constructor
    · simpa using different
    · simp [entry, second]
  have bound := wellFormed.length_le leads
  rw [wellFormed.dir_count (wellFormed.placed entry).live dir] at bound
  simp only [List.length_cons, List.length_nil] at bound
  omega

theorem count_loose_le (node : Node) :
    loose.count node ≤ tree.count node := by
  have leads : tree.Leads [] node := ⟨List.nodup_nil, by simp⟩
  simpa using wellFormed.length_le leads

theorem not_mem_loose_of_entry {key : Node × Name}
    {node : Node} (dir : tree.dir node) (entry : tree.entry key = some node) : node ∉ loose := by
  intro isLoose
  have bound := wellFormed.count_pos entry
  rw [wellFormed.dir_count (wellFormed.placed entry).live dir] at bound
  have positive := List.count_pos_iff.mpr isLoose
  omega

theorem not_above_of_empty {node other : Node}
    (isLoose : node ∈ loose) (empty : ∀ name, tree.entry (node, name) = none)
    (live : tree.live other) (dir : tree.dir other) (different : other ≠ node) :
    ¬ tree.Above node other := by
  intro above
  obtain same | ⟨child, up, under⟩ := Relation.ReflTransGen.cases_tail above
  · exact different same.symm
  · obtain ⟨childLive, childDir⟩ := wellFormed.above_dir live dir up
    have notLoose : child ∉ loose := by
      intro member
      rw [Under, wellFormed.loose_parent member] at under
      cases under.2
    obtain ⟨key, entry⟩ := wellFormed.dir_entry childLive childDir under.1 notLoose
    have parent := (wellFormed.placed entry).parent childDir
    obtain rfl : node = key.1 := Option.some.inj (under.2.symm.trans parent)
    cases (empty key.2).symm.trans entry

end

theorem rooted (wellFormed : tree.WellFormed plain []) {node : Node} (live : tree.live node)
    (dir : tree.dir node) : tree.Above tree.root node := by
  obtain ⟨top, isTop, above⟩ := wellFormed.topped live dir
  obtain rfl : top = tree.root := by simpa using isTop
  exact above

theorem not_above_of_entry (wellFormed : tree.WellFormed plain []) {key : Node × Name}
    {node : Node} (entry : tree.entry key = some node) : ¬ tree.Above node key.1 := by
  intro above
  have placed := wellFormed.placed entry
  have dir := (wellFormed.above_dir placed.from_live placed.from_dir above).2
  exact not_above_of_under (wellFormed.rooted placed.live dir) ⟨placed.ne_root, placed.parent dir⟩
    above

end WellFormed

end DirectoryTree
