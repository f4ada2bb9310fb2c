import Jerboa.ManifestText

/-!
# The tree of a manifest

The files of a manifest are inserted one after the other into a tree of
directories.  The tree has each file at its guest path, and what the parser
reads has the tree's host paths at the same places.
-/

namespace Jerboa.Image

open Utf8Text Kernel List ManifestNode

/-! ### Host paths in a tuple -/

def stringText : ParsedValue → Option Bytes
  | .string text => some text
  | _ => none

/-- `contents.host` of the node at a path of a children tree. -/
def hostAt : List Bytes → ParsedValue → Option Bytes
  | [], node => ((node.get (utf8 "contents")).bind (·.get (utf8 "host"))).bind stringText
  | part :: parts, node =>
    ((node.get (utf8 "children")).bind (·.get part)).bind (hostAt parts)

def ManifestNode.fileAt : List Bytes → ManifestNode → Option Bytes
  | [], .file hostPath => some hostPath
  | [], .dir _ => none
  | _ :: _, .file _ => none
  | part :: parts, .dir children => (childAt children part).bind (fileAt parts)

theorem get_tuple_eq_some {entries : Entries} (distinct : (entries.map Prod.fst).Nodup)
    {name : Bytes} {value : ParsedValue} :
    (ParsedValue.tuple entries).get name = some value ↔ (name, value) ∈ entries := by
  induction entries with
  | nil => simp [ParsedValue.get]
  | cons entry entries ih =>
    rw [map_cons, nodup_cons] at distinct
    rw [mem_cons]
    by_cases same : entry.1 = name
    · have other : (name, value) ∉ entries := by
        intro member
        exact distinct.1 (same ▸ mem_map_of_mem (f := Prod.fst) member)
      subst same
      simp [ParsedValue.get, other, Prod.ext_iff, eq_comm]
    · have later : (ParsedValue.tuple (entry :: entries)).get name =
          (ParsedValue.tuple entries).get name := by
        simp [ParsedValue.get, same]
      rw [later, ih distinct.2]
      simp [Prod.ext_iff, Ne.symm same]

theorem get_sortByKey {entries : Entries} (distinct : (entries.map Prod.fst).Nodup)
    (name : Bytes) :
    (ParsedValue.tuple (sortByKey entries)).get name = (ParsedValue.tuple entries).get name := by
  have perm : (sortByKey entries).Perm entries := perm_insertionSort _ _
  have sorted : ((sortByKey entries).map Prod.fst).Nodup :=
    (perm.map Prod.fst).nodup_iff.mpr distinct
  ext value
  rw [get_tuple_eq_some sorted, get_tuple_eq_some distinct, mem_sortByKey]

theorem get_childValues (children : List (Bytes × ManifestNode)) (part : Bytes) :
    (ParsedValue.tuple (childValues children)).get part =
      (childAt children part).map value := by
  rw [childValues_eq, ParsedValue.get, childAt, find?_map, Option.map_map, Option.map_map]
  rfl

variable {node inserted : ManifestNode} {children : List (Bytes × ManifestNode)} {part : Bytes}
  {parts : List Bytes} {files : List File} {f : File}

theorem hostAt_value (readable : node.Readable) (path : List Bytes) :
    hostAt path node.value = (node.fileAt path).filter (· ≠ []) := by
  induction path generalizing node with
  | nil =>
    cases readable with
    | @file hostPath _ =>
      by_cases empty : hostPath = []
      · subst empty
        rfl
      · rw [show (file hostPath).value =
            .tuple [(utf8 "contents", .tuple [(utf8 "host", .string hostPath)])] from
          if_pos empty]
        rw [fileAt, Option.filter_some_pos (by simpa using empty)]
        simp [hostAt, ParsedValue.get, stringText]
    | dir => rfl
  | cons part parts ih =>
    cases readable with
    | @file hostPath _ =>
      rw [value]
      split <;> rfl
    | @dir children distinct _ nodes =>
      have keys : ((childValues children).map Prod.fst) = children.map Prod.fst := by
        rw [childValues_eq, map_map]
        rfl
      have perm : (sortByKey (childValues children)).Perm (childValues children) :=
        perm_insertionSort _ _
      have sorted : ((sortByKey (childValues children)).map Prod.fst).Nodup :=
        (perm.map Prod.fst).nodup_iff.mpr (keys ▸ distinct)
      have found : hostAt (part :: parts) (dir children).value =
          ((childAt children part).map value).bind (hostAt parts) := by
        rw [← get_childValues, ← get_sortByKey (keys ▸ distinct)]
        have inner := get_tuple_setEntries sorted [] part
        rw [show (ParsedValue.tuple []).get part = none from rfl, Option.or_none] at inner
        rw [← inner]
        rfl
      rw [found, fileAt]
      cases here : childAt children part with
      | none => rfl
      | some child =>
        obtain ⟨entry, member, rfl⟩ := Option.map_eq_some_iff.mp here
        exact ih (nodes entry (mem_of_find?_eq_some member))

/-! ### Inserting -/

theorem childAt_setChild (children : List (Bytes × ManifestNode)) (part other : Bytes)
    (child : ManifestNode) :
    childAt (setChild children part child) other =
      if other = part then some child else childAt children other :=
  find?_replaced children part other child

theorem nodup_setChild (distinct : (children.map Prod.fst).Nodup) (part : Bytes)
    (child : ManifestNode) :
    ((setChild children part child).map Prod.fst).Nodup := by
  rw [setChild, map_append, nodup_append]
  refine ⟨distinct.sublist (filter_sublist.map _), nodup_singleton _, ?_⟩
  intro name member last isLast
  obtain ⟨entry, kept, rfl⟩ := mem_map.mp member
  obtain rfl : last = part := by simpa using isLast
  simpa using (mem_filter.mp kept).2

variable {entry : Bytes × ManifestNode}

theorem mem_setChild {child : ManifestNode}
    (member : entry ∈ setChild children part child) :
    entry ∈ children ∨ entry = (part, child) := by
  rcases mem_append.mp member with kept | new
  · exact .inl (mem_filter.mp kept).1
  · exact .inr (mem_singleton.mp new)

theorem fileAt_newManifestNode (path : List Bytes) : newManifestNode.fileAt path = none := by
  cases path <;> rfl

theorem fileAt_getD (child : Option ManifestNode) (path : List Bytes) :
    (child.getD newManifestNode).fileAt path = child.bind (fileAt path) := by
  cases child with
  | none => exact fileAt_newManifestNode path
  | some child => rfl

theorem fileAt_setChild (children : List (Bytes × ManifestNode)) (part : Bytes)
    (child : ManifestNode) (path : List Bytes) :
    (dir (setChild children part child)).fileAt path =
      if path.head? = some part then child.fileAt path.tail
      else (dir children).fileAt path := by
  cases path with
  | nil => rfl
  | cons first path =>
    rw [fileAt, fileAt, childAt_setChild]
    by_cases same : first = part
    · simp [same]
    · simp [same]

def ManifestNode.Open (node : ManifestNode) (path : List Bytes) : Prop :=
  ∀ above, above <+: path → above ≠ path → node.fileAt above = none

theorem ManifestNode.Open.child (isOpen : (dir children).Open (part :: parts)) :
    ((childAt children part).getD newManifestNode).Open parts := by
  intro above isPrefix proper
  rw [fileAt_getD]
  apply isOpen (part :: above)
  · exact cons_prefix_cons.mpr ⟨rfl, isPrefix⟩
  · exact fun same => proper (List.cons.inj same).2

theorem insertManifestFile_cons (part next : Bytes) (parts : List Bytes) (hostPath : Bytes)
    (children : List (Bytes × ManifestNode)) :
    insertManifestFile (part :: next :: parts) hostPath (.dir children) =
      (insertManifestFile (next :: parts) hostPath
        ((childAt children part).getD newManifestNode)).bind fun child =>
          some (.dir (setChild children part child)) :=
  rfl

theorem insertManifestFile_of_open (hostPath : Bytes) (isOpen : node.Open parts)
    (ne_nil : parts ≠ []) :
    ∃ inserted, insertManifestFile parts hostPath node = some inserted ∧
      ∀ path, inserted.fileAt path =
        if path = parts then some hostPath
        else if parts <+: path then none
        else node.fileAt path := by
  induction parts generalizing node with
  | nil => exact absurd rfl ne_nil
  | cons part parts ih =>
    cases node with
    | file other =>
      have blocked := isOpen [] nil_prefix (Ne.symm ne_nil)
      simp [fileAt] at blocked
    | dir children =>
      have below (child : ManifestNode)
          (fileAt : ∀ path, child.fileAt path =
            if path = parts then some hostPath else if parts <+: path then none
            else ((childAt children part).getD newManifestNode).fileAt path)
          (path : List Bytes) :
          (dir (setChild children part child)).fileAt path =
            if path = part :: parts then some hostPath
            else if part :: parts <+: path then none
            else (dir children).fileAt path := by
        rw [fileAt_setChild]
        cases path with
        | nil => simp
        | cons first path =>
          by_cases same : first = part
          · subst same
            rw [head?_cons, if_pos rfl, tail_cons, fileAt, fileAt_getD]
            simp only [List.cons.injEq, true_and, cons_prefix_cons]
            rfl
          · simp [same, Ne.symm same]
      cases parts with
      | nil =>
        refine ⟨_, rfl, below _ ?_⟩
        intro path
        cases path with
        | nil => rfl
        | cons first path => simp [fileAt]
      | cons next parts =>
        obtain ⟨child, inserted, fileAt⟩ := ih isOpen.child (by simp)
        exact ⟨_, by rw [insertManifestFile_cons, inserted]; rfl, below child fileAt⟩

theorem insertManifestDir_of_open (isOpen : node.Open parts) :
    ∃ inserted, insertManifestDir parts node = some inserted ∧
      ∀ path, inserted.fileAt path = node.fileAt path := by
  induction parts generalizing node with
  | nil => exact ⟨node, by cases node <;> rfl, fun path => rfl⟩
  | cons part parts ih =>
    cases node with
    | file other =>
      have blocked := isOpen [] nil_prefix (by simp)
      simp [fileAt] at blocked
    | dir children =>
      obtain ⟨child, inserted, fileAt⟩ := ih isOpen.child
      refine ⟨_, by rw [insertManifestDir, inserted]; rfl, ?_⟩
      intro path
      rw [fileAt_setChild]
      split
      · rename_i inside
        obtain ⟨path, rfl⟩ := head?_eq_some_iff.mp inside
        rw [tail_cons, fileAt, fileAt_getD]
        rfl
      · rfl

/-! ### Readable trees -/

/-- A tree whose names are read back. -/
inductive ManifestNode.Named : ManifestNode → Prop
  | file (hostPath : Bytes) : Named (.file hostPath)
  | dir {children : List (Bytes × ManifestNode)} (distinct : (children.map Prod.fst).Nodup)
      (names : ∀ entry ∈ children, ReadableName entry.1)
      (nodes : ∀ entry ∈ children, Named entry.2) : Named (.dir children)

theorem childAt_of_mem (distinct : (children.map Prod.fst).Nodup)
    (member : entry ∈ children) : childAt children entry.1 = some entry.2 := by
  induction children with
  | nil => exact absurd member not_mem_nil
  | cons first children ih =>
    rw [map_cons, nodup_cons] at distinct
    rcases mem_cons.mp member with rfl | later
    · simp [childAt]
    · have other : first.1 ≠ entry.1 := by
        intro same
        exact distinct.1 (same ▸ mem_map_of_mem (f := Prod.fst) later)
      rw [← ih distinct.2 later, childAt, find?_cons_of_neg (by simpa using other)]
      rfl

theorem ManifestNode.Named.readable (named : node.Named)
    (hosts : ∀ path hostPath, node.fileAt path = some hostPath → ReadableHost hostPath) :
    node.Readable := by
  induction named with
  | file hostPath => exact .file (hosts [] hostPath rfl)
  | @dir children distinct names _ ih =>
    refine .dir distinct names fun entry member => ih entry member ?_
    intro path hostPath found
    apply hosts (entry.1 :: path) hostPath
    rw [fileAt, childAt_of_mem distinct member]
    exact found

theorem named_newManifestNode : newManifestNode.Named :=
  .dir nodup_nil (by simp) (by simp)

theorem named_getD (nodes : ∀ entry ∈ children, entry.2.Named) (part : Bytes) :
    ((childAt children part).getD newManifestNode).Named := by
  cases here : childAt children part with
  | none => exact named_newManifestNode
  | some child =>
    obtain ⟨entry, member, rfl⟩ := Option.map_eq_some_iff.mp here
    exact nodes entry (mem_of_find?_eq_some member)

theorem named_setChild (named : (ManifestNode.dir children).Named) (name : ReadableName part)
    {child : ManifestNode} (node : child.Named) :
    (ManifestNode.dir (setChild children part child)).Named := by
  cases named with
  | dir distinct names nodes =>
    apply ManifestNode.Named.dir (nodup_setChild distinct part child)
    · intro entry member
      rcases mem_setChild member with old | rfl
      · exact names entry old
      · exact name
    · intro entry member
      rcases mem_setChild member with old | rfl
      · exact nodes entry old
      · exact node

theorem ManifestNode.Named.nodes (named : (ManifestNode.dir children).Named) :
    ∀ entry ∈ children, entry.2.Named := by
  cases named with
  | dir _ _ nodes => exact nodes

theorem named_insertManifestFile {hostPath : Bytes} (named : node.Named)
    (names : ∀ part ∈ parts, ReadableName part)
    (result : insertManifestFile parts hostPath node = some inserted) : inserted.Named := by
  induction parts generalizing node inserted with
  | nil =>
    obtain rfl : node = inserted := by
      cases node <;> exact Option.some.inj result
    exact named
  | cons part parts ih =>
    rw [forall_mem_cons] at names
    cases node with
    | file other => cases parts <;> simp [insertManifestFile] at result
    | dir children =>
      cases parts with
      | nil =>
        cases result
        exact named_setChild named names.1 (.file hostPath)
      | cons next parts =>
        rw [insertManifestFile_cons] at result
        obtain ⟨child, childResult, same⟩ := Option.bind_eq_some_iff.mp result
        cases same
        exact named_setChild named names.1 (ih (named_getD named.nodes part) names.2 childResult)

theorem named_insertManifestDir (named : node.Named) (names : ∀ part ∈ parts, ReadableName part)
    (result : insertManifestDir parts node = some inserted) : inserted.Named := by
  induction parts generalizing node inserted with
  | nil =>
    obtain rfl : node = inserted := by
      cases node <;> exact Option.some.inj result
    exact named
  | cons part parts ih =>
    rw [forall_mem_cons] at names
    cases node with
    | file other => simp [insertManifestDir] at result
    | dir children =>
      rw [insertManifestDir] at result
      obtain ⟨child, childResult, same⟩ := Option.bind_eq_some_iff.mp result
      cases same
      exact named_setChild named names.1 (ih (named_getD named.nodes part) names.2 childResult)

/-! ### All files -/

/-- The file is not on the way to the entry; one without a name is nowhere. -/
def File.LeavesWay (f g : File) : Prop :=
  f.isDir = false → f.guestParts ≠ [] → f.guestParts <+: g.guestParts →
    f.guestParts = g.guestParts

instance (f g : File) : Decidable (f.LeavesWay g) :=
  inferInstanceAs (Decidable (_ → _ → _ → _))

/-- A file and an entry after it do not lie on each other's way, except that a
file may take the place of a directory. -/
def File.Apart (f g : File) : Prop :=
  f.LeavesWay g ∧ (f.isDir = false → g.LeavesWay f)

instance (f g : File) : Decidable (f.Apart g) :=
  inferInstanceAs (Decidable (_ ∧ (_ → _)))

def hostOf (cwd : Option Bytes) (files : List File) (path : List Bytes) : Option Bytes :=
  (files.reverse.find? fun f => !f.isDir && decide (f.guestParts = path)).map fun f =>
    filepathAbs cwd f.hostPath

variable {cwd : Option Bytes}

theorem hostOf_concat (files : List File) (f : File) (path : List Bytes) :
    hostOf cwd (files ++ [f]) path =
      if f.isDir = false ∧ f.guestParts = path then some (filepathAbs cwd f.hostPath)
      else hostOf cwd files path := by
  rw [hostOf, hostOf, reverse_append, reverse_singleton, singleton_append,
    find?_cons]
  by_cases here : f.isDir = false ∧ f.guestParts = path
  · simp [here]
  · rw [if_neg here]
    split
    · rename_i isHere
      rw [Bool.and_eq_true, Bool.not_eq_true', decide_eq_true_iff] at isHere
      exact absurd isHere here
    · rfl

theorem exists_of_hostOf {path : List Bytes} {hostPath : Bytes}
    (found : hostOf cwd files path = some hostPath) :
    ∃ f ∈ files, f.isDir = false ∧ f.guestParts = path ∧ filepathAbs cwd f.hostPath = hostPath := by
  obtain ⟨f, member, same⟩ := Option.map_eq_some_iff.mp found
  have isHere := find?_some member
  rw [Bool.and_eq_true, Bool.not_eq_true', decide_eq_true_iff] at isHere
  exact ⟨f, mem_reverse.mp (mem_of_find?_eq_some member), isHere.1, isHere.2, same⟩

theorem insertEntry_of_open (isOpen : node.Open f.guestParts) :
    ∃ inserted, insertEntry cwd node f = some inserted ∧
      ∀ path, inserted.fileAt path =
        if f.isDir = false ∧ f.guestParts ≠ [] ∧ f.guestParts <+: path then
          if path = f.guestParts then some (filepathAbs cwd f.hostPath) else none
        else node.fileAt path := by
  unfold insertEntry
  by_cases isDir : f.isDir = true
  · obtain ⟨inserted, result, fileAt⟩ := insertManifestDir_of_open isOpen
    refine ⟨inserted, by rw [if_pos isDir, result], ?_⟩
    intro path
    rw [fileAt, if_neg (by simp [isDir])]
  · have isFile : f.isDir = false := Bool.eq_false_iff.mpr isDir
    rw [if_neg isDir]
    by_cases root : f.guestParts = []
    · refine ⟨node, by rw [root]; cases node <;> rfl, ?_⟩
      intro path
      rw [if_neg (by simp [root])]
    · obtain ⟨inserted, result, fileAt⟩ :=
        insertManifestFile_of_open (filepathAbs cwd f.hostPath) isOpen root
      refine ⟨inserted, result, ?_⟩
      intro path
      rw [fileAt]
      by_cases here : path = f.guestParts
      · simp [here, isFile, root]
      · by_cases below : f.guestParts <+: path
        · simp [here, isFile, root, below]
        · simp [here, below]

/-- Where no file lies on the way to a later entry, all of them are inserted, and
every file of the tree is one of them. -/
theorem foldlM_insertEntry (leaves : files.Pairwise File.LeavesWay)
    (earlier : ∀ path, (node.fileAt path).isSome → ∀ g ∈ files, path <+: g.guestParts →
      path = g.guestParts) :
    ∃ root, files.foldlM (insertEntry cwd) node = some root ∧
      ∀ path hostPath, root.fileAt path = some hostPath → node.fileAt path = some hostPath ∨
        ∃ f ∈ files, f.isDir = false ∧ filepathAbs cwd f.hostPath = hostPath := by
  induction files generalizing node with
  | nil => exact ⟨node, rfl, fun path hostPath => .inl⟩
  | cons f files ih =>
    rw [pairwise_cons] at leaves
    have isOpen : node.Open f.guestParts := by
      intro above isPrefix proper
      by_contra occupied
      exact proper (earlier above (Option.isSome_iff_ne_none.mpr occupied) f mem_cons_self
        isPrefix)
    obtain ⟨inserted, result, fileAt⟩ :
        ∃ inserted, insertEntry cwd node f = some inserted ∧ _ := insertEntry_of_open isOpen
    have later : ∀ path, (inserted.fileAt path).isSome → ∀ g ∈ files, path <+: g.guestParts →
        path = g.guestParts := by
      intro path occupied g member isPrefix
      rw [fileAt] at occupied
      split at occupied
      · rename_i inside
        split at occupied
        · rename_i here
          subst here
          exact leaves.1 g member inside.1 inside.2.1 isPrefix
        · simp at occupied
      · exact earlier path occupied g (mem_cons_of_mem f member) isPrefix
    obtain ⟨root, rest, hosts⟩ := ih leaves.2 later
    refine ⟨root, by rw [foldlM_cons, result]; exact rest, ?_⟩
    intro path hostPath found
    rcases hosts path hostPath found with old | ⟨g, member, isFile, same⟩
    · rw [fileAt] at old
      split at old
      · rename_i inside
        split at old
        · exact .inr ⟨f, mem_cons_self, inside.1, Option.some.inj old⟩
        · simp at old
      · exact .inl old
    · exact .inr ⟨g, mem_cons_of_mem f member, isFile, same⟩

/-- Where entries stand apart, all of them are inserted, and the tree has the last
file of each path. -/
theorem fileAt_foldlM {earlier : List File} (apart : (earlier ++ files).Pairwise File.Apart)
    (named : ∀ f ∈ earlier ++ files, f.isDir = false → f.guestParts ≠ [])
    (before : ∀ path, node.fileAt path = hostOf cwd earlier path) :
    ∃ root, files.foldlM (insertEntry cwd) node = some root ∧
      ∀ path, root.fileAt path = hostOf cwd (earlier ++ files) path := by
  induction files generalizing earlier node with
  | nil =>
    rw [append_nil]
    exact ⟨node, rfl, before⟩
  | cons f files ih =>
    have isApart : ∀ g ∈ earlier, g.Apart f := by
      intro g member
      exact (pairwise_append.mp apart).2.2 g member f mem_cons_self
    have isOpen : node.Open f.guestParts := by
      intro above isPrefix proper
      rw [before]
      by_contra occupied
      obtain ⟨hostPath, found⟩ := Option.ne_none_iff_exists'.mp occupied
      obtain ⟨g, member, isFile, rfl, -⟩ := exists_of_hostOf found
      exact proper ((isApart g member).1 isFile
        (named g (mem_append_left _ member) isFile) isPrefix)
    obtain ⟨inserted, step, fileAt⟩ :
        ∃ inserted, insertEntry cwd node f = some inserted ∧ _ := insertEntry_of_open isOpen
    have rearranged : earlier ++ f :: files = earlier ++ [f] ++ files := by
      rw [append_assoc, singleton_append]
    have some := named f (mem_append_right _ mem_cons_self)
    rw [rearranged] at apart named ⊢
    rw [foldlM_cons, step]
    apply ih apart named
    intro path
    rw [fileAt, hostOf_concat]
    by_cases isFile : f.isDir = false
    · by_cases here : path = f.guestParts
      · subst here
        simp [isFile, some isFile]
      · by_cases below : f.guestParts <+: path
        · rw [if_pos ⟨isFile, some isFile, below⟩, if_neg here, if_neg fun both => here both.2.symm]
          -- a file further down would have this one on its way
          symm
          by_contra occupied
          obtain ⟨hostPath, found⟩ := Option.ne_none_iff_exists'.mp occupied
          obtain ⟨g, member, isFileToo, rfl, -⟩ := exists_of_hostOf found
          exact here ((isApart g member).2 isFileToo isFile (some isFile) below).symm
        · rw [if_neg fun all => below all.2.2, if_neg fun both => here both.2.symm, before]
    · rw [if_neg fun all => isFile all.1, if_neg fun both => isFile both.1, before]

theorem named_insertEntry (named : node.Named) (names : ∀ part ∈ f.guestParts, ReadableName part)
    (result : insertEntry cwd node f = some inserted) : inserted.Named := by
  unfold insertEntry at result
  split at result
  · exact named_insertManifestDir named names result
  · exact named_insertManifestFile named names result

theorem named_foldlM {root : ManifestNode} (named : node.Named)
    (names : ∀ f ∈ files, ∀ part ∈ f.guestParts, ReadableName part)
    (result : files.foldlM (insertEntry cwd) node = some root) : root.Named := by
  induction files generalizing node with
  | nil =>
    cases result
    exact named
  | cons f files ih =>
    rw [forall_mem_cons] at names
    rw [foldlM_cons] at result
    obtain ⟨inserted, step, rest⟩ := Option.bind_eq_some_iff.mp result
    exact ih (named_insertEntry named names.1 step) names.2 rest

theorem exists_dir_insertEntry (result : insertEntry cwd (.dir children) f = some inserted) :
    ∃ children, inserted = .dir children := by
  unfold insertEntry at result
  split at result
  · cases parts : f.guestParts with
    | nil =>
      rw [parts] at result
      exact ⟨_, (Option.some.inj result).symm⟩
    | cons part parts' =>
      rw [parts, insertManifestDir] at result
      obtain ⟨child, -, same⟩ := Option.bind_eq_some_iff.mp result
      exact ⟨_, (Option.some.inj same).symm⟩
  · rcases parts : f.guestParts with _ | ⟨part, _ | ⟨next, parts'⟩⟩
    · rw [parts] at result
      exact ⟨_, (Option.some.inj result).symm⟩
    · rw [parts] at result
      exact ⟨_, (Option.some.inj result).symm⟩
    · rw [parts, insertManifestFile_cons] at result
      obtain ⟨child, -, same⟩ := Option.bind_eq_some_iff.mp result
      exact ⟨_, (Option.some.inj same).symm⟩

theorem exists_dir_foldlM {root : ManifestNode}
    (result : files.foldlM (insertEntry cwd) (.dir children) = some root) :
    ∃ children, root = .dir children := by
  induction files generalizing children with
  | nil => exact ⟨children, (Option.some.inj result).symm⟩
  | cons f files ih =>
    rw [foldlM_cons] at result
    obtain ⟨inserted, step, rest⟩ := Option.bind_eq_some_iff.mp result
    obtain ⟨more, rfl⟩ := exists_dir_insertEntry step
    exact ih rest

end Jerboa.Image
