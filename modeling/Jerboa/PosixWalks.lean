import Jerboa.PosixFiles

/-!
# Where paths go

The resolution of a path as a relation, with the number of links followed.  A
path can be tidied without looking at any files: a name and the `..` after it
cancel.  The tidied path goes to the same place if every such `..` comes back to
the directory in which the name stands.
-/

namespace PosixFiles

open Utf8Text List

namespace Disk

variable (disk : Disk)

/-- A path goes from one location to another, through a number of links. -/
inductive Goes : Nat → Location → List Bytes → Location → Prop
  | done (current : Location) : Goes 0 current [] current
  | skip {count : Nat} {current last : Location} {component : Bytes} {rest : List Bytes}
      (empty : component = [] ∨ component = dot) (next : Goes count current rest last) :
      Goes count current (component :: rest) last
  | up {count : Nat} {current last : Location} {rest : List Bytes}
      (next : Goes count current.dropLast rest last) :
      Goes count current (dotDot :: rest) last
  | enter {count : Nat} {current last : Location} {name : Bytes} {rest : List Bytes}
      (isName : IsName name) (found : disk.nodes (current ++ [name]) = some .dir)
      (next : Goes count (current ++ [name]) rest last) :
      Goes count current (name :: rest) last
  | file {current : Location} {name content : Bytes}
      (isName : IsName name) (found : disk.nodes (current ++ [name]) = some (.file content)) :
      Goes 0 current [name] (current ++ [name])
  | link {count : Nat} {current last : Location} {name target : Bytes} {rest : List Bytes}
      (isName : IsName name) (found : disk.nodes (current ++ [name]) = some (.symlink target))
      (next : Goes count (if target.head? = some slash then [] else current)
        (target.splitOn slash ++ rest) last) :
      Goes (count + 1) current (name :: rest) last

variable {disk}

theorem walkFrom_goes {follow : Location → List Bytes → Walked} {links : Nat}
    (sound : ∀ current components location, follow current components = .arrived location →
      ∃ count, count < links ∧ disk.Goes count current components location)
    {current location : Location} {components : List Bytes}
    (arrived : disk.walkFrom true follow current components = .arrived location) :
    ∃ count, count ≤ links ∧ disk.Goes count current components location := by
  induction components generalizing current with
  | nil =>
    cases arrived
    exact ⟨0, Nat.zero_le _, .done _⟩
  | cons component rest ih =>
    rw [walkFrom] at arrived
    split at arrived
    · rename_i empty
      obtain ⟨count, few, next⟩ := ih arrived
      exact ⟨count, few, .skip empty next⟩
    · rename_i notEmpty
      split at arrived
      · rename_i isUp
        obtain ⟨count, few, next⟩ := ih arrived
        exact ⟨count, few, isUp ▸ .up next⟩
      · rename_i notUp
        have isName := isName_of_step notEmpty notUp
        cases found : disk.nodes (current ++ [component]) with
        | none =>
          simp only [found] at arrived
          split at arrived <;> cases arrived
        | some kind =>
          cases kind with
          | dir =>
            simp only [found] at arrived
            obtain ⟨count, few, next⟩ := ih arrived
            exact ⟨count, few, .enter isName found next⟩
          | file content =>
            simp only [found] at arrived
            split at arrived <;> cases arrived
            rename_i last
            exact ⟨0, Nat.zero_le _, last ▸ .file isName found⟩
          | symlink target =>
            simp only [found, Bool.true_eq_false, and_false, if_false] at arrived
            obtain ⟨count, few, next⟩ := sound _ _ _ arrived
            exact ⟨count + 1, few, .link isName found next⟩

theorem walk_goes {links : Nat} {current location : Location} {components : List Bytes}
    (arrived : disk.walk true links current components = .arrived location) :
    ∃ count, count ≤ links ∧ disk.Goes count current components location := by
  induction links generalizing current components location with
  | zero =>
    apply walkFrom_goes _ arrived
    intro _ _ _ impossible
    cases impossible
  | succ links ih =>
    apply walkFrom_goes _ arrived
    intro current components location further
    obtain ⟨count, few, next⟩ := ih further
    exact ⟨count, by omega, next⟩

variable {current last : Location} {count : Nat}

theorem Goes.split {components early late : List Bytes}
    (goes : disk.Goes count current components last) (parts : components = early ++ late) :
    ∃ first second middle, first + second = count ∧ disk.Goes first current early middle ∧
      disk.Goes second middle late last := by
  induction goes generalizing early with
  | done current =>
    obtain ⟨rfl, rfl⟩ := append_eq_nil_iff.mp parts.symm
    exact ⟨0, 0, current, rfl, .done current, .done current⟩
  | skip empty next ih =>
    rcases cons_eq_append_iff.mp parts with ⟨rfl, rfl⟩ | ⟨early, rfl, same⟩
    · exact ⟨0, _, _, Nat.zero_add _, .done _, .skip empty next⟩
    · obtain ⟨first, second, middle, sum, before, after⟩ := ih same
      exact ⟨first, second, middle, sum, .skip empty before, after⟩
  | up next ih =>
    rcases cons_eq_append_iff.mp parts with ⟨rfl, rfl⟩ | ⟨early, rfl, same⟩
    · exact ⟨0, _, _, Nat.zero_add _, .done _, .up next⟩
    · obtain ⟨first, second, middle, sum, before, after⟩ := ih same
      exact ⟨first, second, middle, sum, .up before, after⟩
  | enter isName found next ih =>
    rcases cons_eq_append_iff.mp parts with ⟨rfl, rfl⟩ | ⟨early, rfl, same⟩
    · exact ⟨0, _, _, Nat.zero_add _, .done _, .enter isName found next⟩
    · obtain ⟨first, second, middle, sum, before, after⟩ := ih same
      exact ⟨first, second, middle, sum, .enter isName found before, after⟩
  | file isName found =>
    rcases cons_eq_append_iff.mp parts with ⟨rfl, rfl⟩ | ⟨early, rfl, same⟩
    · exact ⟨0, 0, _, rfl, .done _, .file isName found⟩
    · obtain ⟨rfl, rfl⟩ := append_eq_nil_iff.mp same.symm
      exact ⟨0, 0, _, rfl, .file isName found, .done _⟩
  | @link count current last name target rest isName found next ih =>
    rcases cons_eq_append_iff.mp parts with ⟨rfl, rfl⟩ | ⟨early, rfl, same⟩
    · exact ⟨0, _, _, Nat.zero_add _, .done _, .link isName found next⟩
    · obtain ⟨first, second, middle, sum, before, after⟩ :=
        @ih (target.splitOn slash ++ early) (by rw [same]; exact (append_assoc _ _ _).symm)
      exact ⟨first + 1, second, middle, by omega, .link isName found before, after⟩

/-- How a path that begins with a name goes on. -/
theorem Goes.name_cases {name : Bytes} {rest : List Bytes}
    (goes : disk.Goes count current (name :: rest) last) (isName : IsName name) :
    (disk.nodes (current ++ [name]) = some .dir ∧ disk.Goes count (current ++ [name]) rest last) ∨
    (∃ content, disk.nodes (current ++ [name]) = some (.file content) ∧ count = 0 ∧ rest = [] ∧
      last = current ++ [name]) ∨
    ∃ target fewer, disk.nodes (current ++ [name]) = some (.symlink target) ∧ count = fewer + 1 ∧
      disk.Goes fewer (if target.head? = some slash then [] else current)
        (target.splitOn slash ++ rest) last := by
  cases goes with
  | skip empty _ => exact absurd empty (by simp [isName.1, isName.2.1])
  | up _ => exact absurd rfl isName.2.2
  | enter _ found next => exact .inl ⟨found, next⟩
  | file _ found => exact .inr (.inl ⟨_, found, rfl, rfl, rfl⟩)
  | link _ found next => exact .inr (.inr ⟨_, _, found, rfl, next⟩)

/-- Parts that go on from each other make a path, if the first ends at a
directory or the second is empty. -/
theorem Goes.append_name {count more : Nat} {current middle last : Location}
    {early : List Bytes} {name : Bytes} (before : disk.Goes count current early middle)
    (after : disk.Goes more middle [name] last) (isName : IsName name) :
    disk.Goes (count + more) current (early ++ [name]) last := by
  induction before with
  | done current => rwa [Nat.zero_add]
  | skip empty next ih => exact .skip empty (ih after)
  | up next ih => exact .up (ih after)
  | enter isNameHere found next ih => exact .enter isNameHere found (ih after)
  | @file current other content isNameHere found =>
    -- below a file there is nothing
    have below : disk.nodes ((current ++ [other]) ++ [name]) = none := by
      by_contra present
      have isDir := disk.closed _ _ present
      rw [found] at isDir
      cases isDir
    rcases after.name_cases isName with ⟨foundBelow, -⟩ | ⟨_, foundBelow, -⟩ | ⟨_, _, foundBelow, -⟩
    all_goals
      rw [below] at foundBelow
      cases foundBelow
  | link isNameHere found next ih =>
    rw [Nat.add_right_comm, cons_append]
    apply Goes.link isNameHere found
    rw [← append_assoc]
    exact ih after

/-! ### Tidying -/

/-- One component of a path, for the location and the names after it that the
components before amount to. -/
def tidyStep (state : Location × List Bytes) (component : Bytes) : Location × List Bytes :=
  if component = [] ∨ component = dot then state
  else if component = dotDot then
    if state.2 = [] then (state.1.dropLast, []) else (state.1, state.2.dropLast)
  else (state.1, state.2 ++ [component])

def tidy (start : Location) (components : List Bytes) : Location × List Bytes :=
  components.foldl tidyStep (start, [])

theorem tidy_concat (start : Location) (components : List Bytes) (component : Bytes) :
    tidy start (components ++ [component]) = tidyStep (tidy start components) component := by
  rw [tidy, foldl_append]
  rfl

theorem tidy_base (start : Location) (components : List Bytes) :
    (tidy start components).1 <+: start := by
  induction components using List.reverseRecOn with
  | nil => exact prefix_refl start
  | append_singleton components component ih =>
    rw [tidy_concat]
    fun_cases tidyStep (tidy start components) component
    case case2 => exact ( dropLast_prefix _).trans ih
    all_goals exact ih

theorem isName_of_mem_tidy {start : Location} {components : List Bytes} :
    ∀ name ∈ (tidy start components).2, IsName name := by
  induction components using List.reverseRecOn with
  | nil => exact fun _ member => absurd member not_mem_nil
  | append_singleton components component ih =>
    rw [tidy_concat]
    fun_cases tidyStep (tidy start components) component
    · exact ih
    · exact fun _ member => absurd member not_mem_nil
    · exact fun name member => ih name (mem_of_mem_dropLast member)
    · rename_i notEmpty notUp
      intro name member
      cases mem_append.mp member with
      | inl old => exact ih name old
      | inr new =>
        rw [mem_singleton.mp new]
        exact isName_of_step notEmpty notUp

variable (disk) in
/-- Every `..` of a path that cancels a name comes back to the directory in which
the name stands. -/
def Straight (start : Location) (components : List Bytes) : Prop :=
  ∀ before base names name, before ++ [dotDot] <+: components →
    tidy start before = (base, names ++ [name]) →
      ∀ first second parent last, disk.Goes first base names parent →
        disk.Goes second parent [name] last → last.dropLast = parent

theorem Goes.tidy {start last : Location} {components : List Bytes}
    (goes : disk.Goes count start components last) (straight : disk.Straight start components) :
    ∃ fewer ≤ count,
      disk.Goes fewer (Disk.tidy start components).1 (Disk.tidy start components).2 last := by
  induction components using List.reverseRecOn generalizing count last with
  | nil => exact ⟨count, le_rfl, goes⟩
  | append_singleton components component ih =>
    obtain ⟨first, second, middle, rfl, before, after⟩ := goes.split rfl
    obtain ⟨fewer, few, tidied⟩ := ih before fun early base names name isPrefix =>
      straight early base names name (isPrefix.trans (prefix_append _ _))
    rw [tidy_concat]
    fun_cases tidyStep (Disk.tidy start components) component
    case case1 empty =>
      cases after with
      | skip _ next =>
        cases next
        exact ⟨fewer, few, tidied⟩
      | up _ => simp [dotDot, dot] at empty
      | enter isName _ _ | file isName _ | link isName _ _ =>
        exact absurd empty (by simp [isName.1, isName.2.1])
    case case4 notEmpty notUp =>
      exact ⟨fewer + second, by omega, tidied.append_name after (isName_of_step notEmpty notUp)⟩
    all_goals
      obtain rfl : component = dotDot := by assumption
      have moved : second = 0 ∧ last = middle.dropLast := by
        cases after with
        | skip empty _ => contradiction
        | up next =>
          cases next
          exact ⟨rfl, rfl⟩
        | enter isName _ _ | file isName _ | link isName _ _ => exact absurd rfl isName.2.2
      obtain ⟨rfl, rfl⟩ := moved
    case case2 noNames _ _ =>
      rw [noNames] at tidied
      cases tidied
      exact ⟨0, Nat.zero_le _, .done _⟩
    case case3 someNames _ _ =>
      obtain ⟨names, name, parts⟩ :=
        (eq_nil_or_concat' (Disk.tidy start components).2).resolve_left someNames
      rw [parts] at tidied
      obtain ⟨early, late, parent, rfl, toParent, toName⟩ := tidied.split rfl
      have back := straight components _ names name (prefix_refl _) (Prod.ext rfl parts) early late
        parent middle toParent toName
      rw [parts, dropLast_concat, back]
      exact ⟨early, by omega, toParent⟩

/-! ### Confinement -/

theorem Goes.eq_of_dirs {names : List Bytes}
    (goes : disk.Goes count current names last) (areNames : ∀ name ∈ names, IsName name)
    (dirs : ∀ above, above <+: names → disk.nodes (current ++ above) = some .dir) :
    count = 0 ∧ last = current ++ names := by
  induction goes with
  | done current => exact ⟨rfl, (append_nil current).symm⟩
  | skip empty _ _ =>
    obtain ⟨notEmpty, notDot, _⟩ := areNames _ mem_cons_self
    simp [notEmpty, notDot] at empty
  | up _ _ => exact absurd rfl (areNames _ mem_cons_self).2.2
  | @enter count current last name rest _ _ _ ih =>
    have further := ih (forall_mem_cons.mp areNames).2 (by
      intro above isPrefix
      rw [append_assoc]
      exact dirs _ ((prefix_cons_inj name).mpr isPrefix))
    rwa [append_assoc, singleton_append] at further
  | file _ found =>
    have isDir := dirs _ (prefix_refl _)
    rw [found] at isDir
    cases isDir
  | @link count current last name target rest _ found _ _ =>
    have isDir := dirs [name] ⟨rest, rfl⟩
    rw [found] at isDir
    cases isDir

variable (disk) in
/-- The links inside a directory are straight and, when tidied, lead inside. -/
structure LinksInside (directory : Location) : Prop where
  relative : ∀ location target, directory <+: location →
    disk.nodes location = some (.symlink target) → target.head? ≠ some slash
  inside : ∀ location target, directory <+: location →
    disk.nodes location = some (.symlink target) →
      directory <+: (Disk.tidy location.dropLast (target.splitOn slash)).1 ++
        (Disk.tidy location.dropLast (target.splitOn slash)).2
  straight : ∀ location target, directory <+: location →
    disk.nodes location = some (.symlink target) →
      disk.Straight location.dropLast (target.splitOn slash)

theorem Goes.inside {directory : Location}
    (isDir : disk.nodes directory = some .dir) (links : disk.LinksInside directory) {names : List Bytes}
    (goes : disk.Goes count current names last) (inside : directory <+: current)
    (onlyNames : ∀ name ∈ names, IsName name) : directory <+: last := by
  -- by the number of links, and for each number by the names still to go
  induction count using Nat.strong_induction_on generalizing current last names with
  | _ count outer =>
    induction names generalizing current with
    | nil =>
      cases goes
      exact inside
    | cons name names inner =>
      have restNames : ∀ other ∈ names, IsName other :=
        (forall_mem_cons.mp onlyNames).2
      have deeper : directory <+: current ++ [name] := inside.trans (prefix_append _ _)
      rcases goes.name_cases (onlyNames name mem_cons_self) with
        ⟨-, next⟩ | ⟨-, -, -, -, rfl⟩ | ⟨target, others, found, rfl, next⟩
      · exact inner next deeper restNames
      · exact deeper
      · rw [if_neg (links.relative _ target deeper found)] at next
        obtain ⟨first, second, middle, sum, toMiddle, onward⟩ := next.split rfl
        have straight := links.straight _ target deeper found
        have leads := links.inside _ target deeper found
        rw [dropLast_concat] at straight leads
        obtain ⟨fewer, few, tidied⟩ := toMiddle.tidy straight
        have middleInside : directory <+: middle := by
          have base := tidy_base current (target.splitOn slash)
          have tidyNames := @isName_of_mem_tidy current (target.splitOn slash)
          cases prefix_or_prefix_of_prefix base inside with
          | inr above => exact outer fewer (by omega) tidied above tidyNames
          | inl below =>
            -- the path climbs out of the directory and comes back into it
            obtain ⟨down, rfl⟩ := below
            obtain ⟨further, split⟩ := leads
            rw [append_assoc] at split
            have names := append_cancel_left split
            rw [← names] at tidied tidyNames
            obtain ⟨early, late, entry, total, toEntry, onwards⟩ := tidied.split rfl
            obtain ⟨rfl, rfl⟩ := toEntry.eq_of_dirs
              (fun other member => tidyNames other (mem_append_left _ member)) (by
                intro above isPrefix
                by_cases whole : above = down
                · rw [whole]
                  exact isDir
                · apply dir_above (by rw [isDir]; simp)
                    ((prefix_append_right_inj _).mpr isPrefix)
                  intro same
                  exact whole (append_cancel_left same))
            exact outer late (by omega) onwards (prefix_refl _)
              fun other member => tidyNames other (mem_append_right _ member)
        exact outer second (by omega) onward middleInside restNames

end Disk

end PosixFiles
