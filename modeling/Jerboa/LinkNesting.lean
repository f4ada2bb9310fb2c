import Jerboa.FileTree
import Mathlib.Data.List.Basic

/-!
# How deep symbolic links nest

A link that is a component of a path before a slash is followed by a call of
`filesystem_follow_links` of its own, and while that call resolves the target
of its link it can meet further links before slashes.  The hop counter is local
to each call, so nothing but the links themselves bounds the recursion.

`Leads` says where names and links lead, without any stack.  A link nests
`depth` further links if following it meets one that nests one fewer.
-/

namespace Jerboa.Kernel

open Utf8Text

def slashedNames (path : Bytes) : List Bytes :=
  (pathSteps path 0 []).1.map PathStep.name

def pathEnd (path : Bytes) : PathEnd :=
  (pathSteps path 0 []).2

/-- The resolution comes to an entry. -/
def Resolution.arrives : Resolution → Bool
  | .found _ _ => true
  | .reached _ => true
  | _ => false

/-- What is to be walked: names from a directory, or a link with the number of
further links accepted after it. -/
inductive Route
  | names (t p : Nat) (names : List Bytes)
  | link (hops link parent : Nat)

namespace FileTree

variable (tree : FileTree)

/-- Where a route leads to, and the parent of that. -/
inductive Leads : Route → Nat → Nat → Prop
  | arrived (t p : Nat) : Leads (.names t p []) t p
  | through {t p entry target targetParent last lastParent : Nat} {name : Bytes}
      {names : List Bytes}
      (found : tree.lookup t name = some entry)
      (followed : Leads (.link symlinkHopsMax entry t) target targetParent)
      (dir : tree.isDir target = true)
      (rest : Leads (.names target t names) last lastParent) :
      Leads (.names t p (name :: names)) last lastParent
  | plain {link : Nat} (notLink : tree.isSymlink link = false) (hops parent : Nat) :
      Leads (.link hops link parent) link parent
  | lastHop {link parent t p entry entryParent : Nat} {path : Bytes}
      (target : (tree.nodes link).linktarget = some path) (text : path ≠ [])
      (walked : Leads (.names (tree.start parent path) (tree.start parent path)
        (slashedNames path)) t p)
      (ended : tree.resolveLast t p (pathEnd path) = .found entry entryParent)
      (notLink : tree.isSymlink entry = false) (hops : Nat) :
      Leads (.link hops link parent) entry entryParent
  | stray {link parent t p entry : Nat} {path : Bytes}
      (target : (tree.nodes link).linktarget = some path) (text : path ≠ [])
      (walked : Leads (.names (tree.start parent path) (tree.start parent path)
        (slashedNames path)) t p)
      (ended : tree.resolveLast t p (pathEnd path) = .reached entry) (hops : Nat) :
      Leads (.link hops link parent) entry p
  | hop {hops link parent t p entry entryParent last lastParent : Nat} {path : Bytes}
      (target : (tree.nodes link).linktarget = some path) (text : path ≠ [])
      (walked : Leads (.names (tree.start parent path) (tree.start parent path)
        (slashedNames path)) t p)
      (ended : tree.resolveLast t p (pathEnd path) = .found entry entryParent)
      (isLink : tree.isSymlink entry = true)
      (followed : Leads (.link hops entry entryParent) last lastParent) :
      Leads (.link (hops + 1) link parent) last lastParent

def ResolvesTo (cwd : Nat) (path : Bytes) (resolution : Resolution) : Prop :=
  path ≠ [] ∧ ∃ t p,
    tree.Leads (.names (tree.start cwd path) (tree.start cwd path) (slashedNames path)) t p ∧
      tree.resolveLast t p (pathEnd path) = resolution

def Passes (cwd : Nat) (path : Bytes) (inner innerParent : Nat) : Prop :=
  path ≠ [] ∧ ∃ before name after p, slashedNames path = before ++ name :: after ∧
    tree.Leads (.names (tree.start cwd path) (tree.start cwd path) before) innerParent p ∧
      tree.lookup innerParent name = some inner

/-- A number of hops from a link to another, each by the target of one link. -/
inductive HopsTo : Nat → Nat → Nat → Nat → Nat → Prop
  | here (link parent : Nat) : HopsTo 0 link parent link parent
  | step {count link parent entry entryParent last lastParent : Nat} {path : Bytes}
      (target : (tree.nodes link).linktarget = some path)
      (resolved : tree.ResolvesTo parent path (.found entry entryParent))
      (isLink : tree.isSymlink entry = true)
      (rest : HopsTo count entry entryParent last lastParent) :
      HopsTo (count + 1) link parent last lastParent

/-- Following a link meets an entry before a slash, in its own target or in the
target of a link it hops to. -/
def Meets (link parent inner innerParent : Nat) : Prop :=
  ∃ count last lastParent path, count ≤ symlinkHopsMax ∧
    tree.HopsTo count link parent last lastParent ∧
      (tree.nodes last).linktarget = some path ∧
        tree.Passes lastParent path inner innerParent

/-- A link that meets a link that meets a link, and so on, `depth` times. -/
def Nests : (depth link parent : Nat) → Prop
  | 0, link, _ => tree.isSymlink link = true
  | depth + 1, link, parent =>
    ∃ inner innerParent, tree.Meets link parent inner innerParent ∧
      Nests depth inner innerParent

/-- A path that meets a link which nests `depth` others. -/
def NestsOn (depth cwd : Nat) (path : Bytes) : Prop :=
  ∃ inner innerParent, tree.Passes cwd path inner innerParent ∧
    tree.Nests depth inner innerParent

def EndlessHops (link parent : Nat) : Prop :=
  ∀ count, ∃ last lastParent, tree.HopsTo count link parent last lastParent

variable {tree}

variable {link entry p parent t cwd hops depth last lastParent : Nat} {path : Bytes}
  {resolve : Nat → Bytes → Resolution} {resolution : Resolution}

theorem isSymlink_of_linktarget (target : (tree.nodes link).linktarget = some path) :
    tree.isSymlink link = true := by
  rw [isSymlink, target]
  rfl

theorem followHops_of_plain (notLink : tree.isSymlink link = false) :
    tree.followHops resolve hops link parent = .to link := by
  have noTarget : (tree.nodes link).linktarget = none := by simpa [isSymlink] using notLink
  unfold followHops
  simp only [noTarget]

theorem followLinks_succ : tree.followLinks (depth + 1) link parent =
    tree.followHops (tree.resolve depth) symlinkHopsMax link parent := by
  rw [followLinks]
  split
  · rfl
  · rename_i notLink
    rw [followHops_of_plain (by simpa using notLink)]

/-! ### The function finds what the relation says -/

variable {follow : Nat → Nat → Followed}

theorem resolveSteps_leads (sound : ∀ link parent target, follow link parent = .to target →
      ∃ q, tree.Leads (.link symlinkHopsMax link parent) target q)
    {ending : PathEnd} {steps : List PathStep} (arrives : resolution.arrives = true)
    (resolved : tree.resolveSteps follow ending t p steps = resolution) :
    ∃ u v, tree.Leads (.names t p (steps.map PathStep.name)) u v ∧
      tree.resolveLast u v ending = resolution := by
  induction steps generalizing t p with
  | nil => exact ⟨t, p, .arrived t p, resolved⟩
  | cons step steps ih =>
    rw [resolveSteps] at resolved
    cases found : tree.lookup t step.name with
    | none =>
      simp only [found] at resolved
      subst resolved
      cases arrives
    | some entry =>
      simp only [found] at resolved
      split at resolved
      · subst resolved
        cases arrives
      · subst resolved
        cases arrives
      · rename_i target followed
        split at resolved
        · rename_i dir
          obtain ⟨u, v, rest, ended⟩ := ih resolved
          obtain ⟨q, leads⟩ := sound _ _ _ followed
          exact ⟨u, v, .through found leads dir rest, ended⟩
        · subst resolved
          cases arrives

theorem resolveWith_leads (sound : ∀ link parent target, follow link parent = .to target →
      ∃ q, tree.Leads (.link symlinkHopsMax link parent) target q)
    (arrives : resolution.arrives = true)
    (resolved : tree.resolveWith follow cwd path = resolution) :
    tree.ResolvesTo cwd path resolution := by
  unfold resolveWith at resolved
  split at resolved
  · subst resolved
    cases arrives
  · rename_i text
    exact ⟨text, resolveSteps_leads sound arrives resolved⟩

theorem followLinks_leads {target : Nat}
    (followed : tree.followLinks depth link parent = .to target) :
    ∃ q, tree.Leads (.link symlinkHopsMax link parent) target q := by
  induction depth generalizing link parent target with
  | zero =>
    unfold followLinks at followed
    split at followed
    · cases followed
    · rename_i notLink
      cases followed
      exact ⟨parent, .plain (by simpa using notLink) _ _⟩
  | succ depth ih =>
    rw [followLinks_succ] at followed
    have sound {cwd path resolution} (arrives : Resolution.arrives resolution = true) :
        tree.resolve depth cwd path = resolution → tree.ResolvesTo cwd path resolution :=
      resolveWith_leads (fun _ _ _ => ih) arrives
    generalize symlinkHopsMax = hops at followed
    fun_induction followHops tree (tree.resolve depth) hops link parent
    case case1 link parent noTarget =>
      cases followed
      exact ⟨parent, .plain (by rw [isSymlink, noTarget]; rfl) _ _⟩
    case case4 hasTarget entry isReached =>
      cases followed
      obtain ⟨text, t, p, walked, ended⟩ := sound rfl isReached
      exact ⟨p, .stray hasTarget text walked ended _⟩
    case case6 hasTarget entry entryParent found isLink hops ihHops =>
      obtain ⟨text, t, p, walked, ended⟩ := sound rfl found
      obtain ⟨q, leads⟩ := ihHops followed
      exact ⟨q, .hop hasTarget text walked ended isLink leads⟩
    case case7 hasTarget entry entryParent found notLink =>
      cases followed
      obtain ⟨text, t, p, walked, ended⟩ := sound rfl found
      exact ⟨_, .lastHop hasTarget text walked ended (by simpa using notLink) _⟩
    all_goals cases followed

theorem resolve_leads (found : tree.resolve depth cwd path = .found entry parent) :
    tree.ResolvesTo cwd path (.found entry parent) :=
  resolveWith_leads (fun _ _ _ => followLinks_leads) rfl found

/-! ### The relation says what the function finds, if the stack suffices -/

def Takes (tree : FileTree) : Route → Nat → Nat → Prop
  | .names t p names, last, lastParent =>
    ∀ depth ending rest, ∀ steps : List PathStep, steps.map PathStep.name = names →
      tree.resolveSteps (tree.followLinks depth) ending t p (steps ++ rest) =
          tree.resolveSteps (tree.followLinks depth) ending last lastParent rest ∨
        tree.resolveSteps (tree.followLinks depth) ending t p (steps ++ rest) = .overflow
  | .link hops link parent, last, _ =>
    ∀ depth, tree.followHops (tree.resolve depth) hops link parent = .to last ∨
      tree.followHops (tree.resolve depth) hops link parent = .overflow

theorem followLinks_of_takes (takes : tree.Takes (.link symlinkHopsMax link parent) last lastParent)
    (depth : Nat) :
    tree.followLinks depth link parent = .to last ∨
      tree.followLinks depth link parent = .overflow := by
  cases depth with
  | zero =>
    by_cases isLink : tree.isSymlink link = true
    · exact .inr (if_pos isLink)
    · have arrives := takes 0
      rw [followHops_of_plain (by simpa using isLink)] at arrives
      rw [followLinks, if_neg isLink]
      exact arrives
  | succ depth =>
    rw [followLinks_succ]
    exact takes depth

theorem resolve_of_takes (text : path ≠ [])
    (takes : tree.Takes (.names (tree.start cwd path) (tree.start cwd path)
      (slashedNames path)) t p) (ended : tree.resolveLast t p (pathEnd path) = resolution)
    (depth : Nat) :
    tree.resolve depth cwd path = resolution ∨ tree.resolve depth cwd path = .overflow := by
  have walked := takes depth (pathEnd path) [] (pathSteps path 0 []).1 rfl
  rw [List.append_nil] at walked
  rw [resolve, resolveWith, if_neg text]
  cases walked with
  | inl same => exact .inl (same.trans ended)
  | inr overflowed => exact .inr overflowed

theorem followHops_of_target (target : (tree.nodes link).linktarget = some path) :
    (resolve parent path = .overflow →
      tree.followHops resolve hops link parent = .overflow) ∧
    (∀ entry entryParent, resolve parent path = .found entry entryParent →
      tree.isSymlink entry = false → tree.followHops resolve hops link parent = .to entry) ∧
    (∀ entry, resolve parent path = .reached entry →
      tree.followHops resolve hops link parent = .to entry) ∧
    (∀ entry entryParent fewer, resolve parent path = .found entry entryParent →
      tree.isSymlink entry = true → hops = fewer + 1 →
        tree.followHops resolve hops link parent =
          tree.followHops resolve fewer entry entryParent) := by
  refine ⟨?_, ?_, ?_, ?_⟩
  · intro overflowed
    unfold followHops
    simp only [target, overflowed]
  · intro entry entryParent found notLink
    unfold followHops
    simp [target, found, notLink]
  · intro entry reached
    unfold followHops
    simp only [target, reached]
  · intro entry entryParent fewer found isLink more
    subst more
    rw [followHops]
    simp only [target, found, isLink, if_true]

theorem Leads.takes {route : Route} (leads : tree.Leads route last lastParent) :
    tree.Takes route last lastParent := by
  induction leads with
  | arrived t p =>
    intro depth ending rest steps noNames
    obtain rfl : steps = [] := List.map_eq_nil_iff.mp noNames
    exact .inl rfl
  | @through t p entry target _ _ _ _ _ found followed dir rest ihFollowed ihRest =>
    intro depth ending later steps names
    cases steps with
    | nil => cases names
    | cons step steps =>
      obtain ⟨rfl, restNames⟩ := List.cons.inj names
      simp only [List.cons_append, resolveSteps, found]
      cases followLinks_of_takes ihFollowed depth with
      | inl same =>
        simp only [same, dir, if_true]
        exact ihRest depth ending later steps restNames
      | inr overflowed =>
        right
        simp only [overflowed]
  | plain notLink hops parent => exact fun depth => .inl (followHops_of_plain notLink)
  | lastHop target text walked ended notLink hops ihWalked =>
    intro depth
    cases resolve_of_takes text ihWalked ended depth with
    | inl found => exact .inl ((followHops_of_target target).2.1 _ _ found notLink)
    | inr overflowed => exact .inr ((followHops_of_target target).1 overflowed)
  | stray target text walked ended hops ihWalked =>
    intro depth
    cases resolve_of_takes text ihWalked ended depth with
    | inl reached => exact .inl ((followHops_of_target target).2.2.1 _ reached)
    | inr overflowed => exact .inr ((followHops_of_target target).1 overflowed)
  | hop target text walked ended isLink followed ihWalked ihFollowed =>
    intro depth
    cases resolve_of_takes text ihWalked ended depth with
    | inl found =>
      rw [(followHops_of_target target).2.2.2 _ _ _ found isLink rfl]
      exact ihFollowed depth
    | inr overflowed => exact .inr ((followHops_of_target target).1 overflowed)

theorem ResolvesTo.takes (resolves : tree.ResolvesTo cwd path resolution) (depth : Nat) :
    tree.resolve depth cwd path = resolution ∨ tree.resolve depth cwd path = .overflow := by
  obtain ⟨text, t, p, walked, ended⟩ := resolves
  exact resolve_of_takes text walked.takes ended depth

/-! ### Overflow -/

theorem exists_of_resolveSteps_overflow {ending : PathEnd} {steps : List PathStep}
    (overflowed : tree.resolveSteps (tree.followLinks depth) ending t p steps = .overflow) :
    ∃ before name after inner innerParent q,
      steps.map PathStep.name = before ++ name :: after ∧
        tree.Leads (.names t p before) innerParent q ∧
          tree.lookup innerParent name = some inner ∧
            tree.followLinks depth inner innerParent = .overflow := by
  fun_induction resolveSteps tree (tree.followLinks depth) ending t p steps
  case case1 t p =>
    revert overflowed
    fun_cases resolveLast tree t p ending <;> nofun
  case case3 p t step steps entry found deeper =>
    exact ⟨[], step.name, steps.map PathStep.name, entry, t, p, rfl, .arrived t p, found, deeper⟩
  case case5 step steps entry found target followed dir ih =>
    obtain ⟨before, name, after, inner, innerParent, q, split, leads, foundInner, deeper⟩ :=
      ih overflowed
    obtain ⟨_, toTarget⟩ := followLinks_leads followed
    refine ⟨step.name :: before, name, after, inner, innerParent, q, ?_,
      .through found toTarget dir leads, foundInner, deeper⟩
    rw [List.map_cons, split, List.cons_append]
  all_goals cases overflowed

theorem resolve_overflow_cases :
    tree.resolve depth cwd path = .overflow ↔
      ∃ inner innerParent, tree.Passes cwd path inner innerParent ∧
        tree.followLinks depth inner innerParent = .overflow := by
  constructor
  · intro overflowed
    unfold FileTree.resolve FileTree.resolveWith at overflowed
    split at overflowed
    · cases overflowed
    · rename_i text
      obtain ⟨before, name, after, inner, innerParent, q, split, leads, found, deeper⟩ :=
        exists_of_resolveSteps_overflow overflowed
      exact ⟨inner, innerParent, ⟨text, before, name, after, q, split, leads, found⟩, deeper⟩
  · rintro ⟨inner, innerParent, ⟨text, before, name, after, q, split, leads, found⟩, deeper⟩
    obtain ⟨early, late, parts, sameEarly, sameLate⟩ := List.map_eq_append_iff.mp split
    obtain ⟨step, later, rfl, rfl, _⟩ := List.map_eq_cons_iff.mp sameLate
    rw [FileTree.resolve, FileTree.resolveWith, if_neg text]
    simp only [parts]
    cases leads.takes depth (pathSteps path 0 []).2 (step :: later) early sameEarly with
    | inl same =>
      rw [same]
      simp only [resolveSteps, found, deeper]
    | inr overflowed => exact overflowed

theorem followHops_overflow_iff :
    tree.followHops (tree.resolve depth) hops link parent = .overflow ↔
      ∃ count last lastParent path, count ≤ hops ∧
        tree.HopsTo count link parent last lastParent ∧
          (tree.nodes last).linktarget = some path ∧
            tree.resolve depth lastParent path = .overflow := by
  constructor
  · intro overflowed
    fun_induction followHops tree (tree.resolve depth) hops link parent
    case case2 link parent path target deeper =>
      exact ⟨0, link, parent, path, Nat.zero_le _, .here link parent, target, deeper⟩
    case case6 target entry entryParent found isLink hops ih =>
      obtain ⟨count, last, lastParent, path, few, hopsTo, lastTarget, deeper⟩ := ih overflowed
      exact ⟨count + 1, last, lastParent, path, by omega,
        .step target (resolve_leads found) isLink hopsTo, lastTarget, deeper⟩
    all_goals cases overflowed
  · rintro ⟨count, last, lastParent, path, few, hopsTo, lastTarget, deeper⟩
    induction hopsTo generalizing hops with
    | here link parent => exact (followHops_of_target lastTarget).1 deeper
    | step target resolved isLink rest ih =>
      cases resolved.takes depth with
      | inl found =>
        obtain ⟨fewer, rfl⟩ : ∃ fewer, hops = fewer + 1 := ⟨hops - 1, by omega⟩
        rw [(followHops_of_target target).2.2.2 _ _ _ found isLink rfl]
        exact ih (by omega) lastTarget deeper
      | inr overflowed => exact (followHops_of_target target).1 overflowed

theorem followLinks_overflow_iff :
    tree.followLinks depth link parent = .overflow ↔ tree.Nests depth link parent := by
  induction depth generalizing link parent with
  | zero =>
    simp only [followLinks, Nests]
    split
    · rename_i isLink
      simp [isLink]
    · rename_i notLink
      simp [notLink]
  | succ depth ih =>
    rw [followLinks_succ, followHops_overflow_iff]
    simp only [Nests, Meets, resolve_overflow_cases, ih]
    constructor
    · rintro ⟨count, last, lastParent, path, few, hopsTo, target, inner, innerParent, passes,
        nests⟩
      exact ⟨inner, innerParent, ⟨count, last, lastParent, path, few, hopsTo, target, passes⟩,
        nests⟩
    · rintro ⟨inner, innerParent, ⟨count, last, lastParent, path, few, hopsTo, target, passes⟩,
        nests⟩
      exact ⟨count, last, lastParent, path, few, hopsTo, target, inner, innerParent, passes,
        nests⟩

theorem followHops_of_hopsTo (hopsTo : tree.HopsTo (hops + 1) link parent last lastParent) :
    tree.followHops (tree.resolve depth) hops link parent = .failed .eloop ∨
      tree.followHops (tree.resolve depth) hops link parent = .overflow := by
  induction hops generalizing link parent with
  | zero =>
    cases hopsTo with
    | step target resolved isLink rest =>
      cases resolved.takes depth with
      | inl found =>
        left
        unfold followHops
        simp only [target, found, isLink, if_true]
      | inr overflowed => exact .inr ((followHops_of_target target).1 overflowed)
  | succ hops ih =>
    cases hopsTo with
    | step target resolved isLink rest =>
      cases resolved.takes depth with
      | inl found =>
        rw [(followHops_of_target target).2.2.2 _ _ _ found isLink rfl]
        exact ih rest
      | inr overflowed => exact .inr ((followHops_of_target target).1 overflowed)

theorem EndlessHops.followLinks (endless : tree.EndlessHops link parent) (depth : Nat) :
    tree.followLinks depth link parent = .failed .eloop ∨
      tree.followLinks depth link parent = .overflow := by
  obtain ⟨last, lastParent, hopsTo⟩ := endless (symlinkHopsMax + 1)
  have isLink : tree.isSymlink link = true := by
    cases hopsTo with
    | step target _ _ _ => exact isSymlink_of_linktarget target
  cases depth with
  | zero => exact .inr (if_pos isLink)
  | succ depth =>
    rw [followLinks_succ]
    exact followHops_of_hopsTo hopsTo

theorem resolve_overflow_iff :
    tree.resolve depth cwd path = .overflow ↔ tree.NestsOn depth cwd path := by
  simp only [resolve_overflow_cases, followLinks_overflow_iff, NestsOn]

theorem resolveFollow_overflow_iff :
    tree.resolveFollow depth cwd path = .overflow ↔
      tree.NestsOn depth cwd path ∨
        ∃ entry parent, tree.ResolvesTo cwd path (.found entry parent) ∧
          tree.Nests depth entry parent := by
  rw [← resolve_overflow_iff]
  constructor
  · fun_cases resolveFollow tree depth cwd path
    case case1 inside => exact fun _ => .inl inside
    case case4 entry parent found deeper =>
      exact fun _ => .inr ⟨entry, parent, resolve_leads found, followLinks_overflow_iff.mp deeper⟩
    all_goals nofun
  · unfold resolveFollow
    rintro (inside | ⟨entry, parent, resolves, nests⟩)
    · rw [inside]
    · cases resolves.takes depth with
      | inl found =>
        rw [found]
        simp only [followLinks_overflow_iff.mpr nests]
      | inr overflowed => rw [overflowed]

end FileTree

/-- A stack with room for `depth` calls of `filesystem_follow_links` suffices for
just those paths that meet no link, before a slash or at their end, that nests
`depth` others; and hops that never end are an error. -/
theorem resolution_fits_iff (tree : FileTree) (depth cwd : Nat) (path : Bytes) :
    (tree.resolve depth cwd path ≠ .overflow ↔ ¬tree.NestsOn depth cwd path) ∧
    (tree.resolveFollow depth cwd path ≠ .overflow ↔
      ¬tree.NestsOn depth cwd path ∧
        ∀ entry parent, tree.ResolvesTo cwd path (.found entry parent) →
          ¬tree.Nests depth entry parent) ∧
    ∀ link parent, tree.EndlessHops link parent → ¬tree.Nests depth link parent →
      tree.followLinks depth link parent = .failed .eloop := by
  refine ⟨not_congr FileTree.resolve_overflow_iff, ?_, ?_⟩
  · rw [ne_eq, FileTree.resolveFollow_overflow_iff, not_or]
    constructor
    · intro both
      exact ⟨both.1, fun entry parent resolves nests => both.2 ⟨entry, parent, resolves, nests⟩⟩
    · intro both
      refine ⟨both.1, ?_⟩
      rintro ⟨entry, parent, resolves, nests⟩
      exact both.2 entry parent resolves nests
  · intro link parent endless shallow
    cases endless.followLinks depth with
    | inl eloop => exact eloop
    | inr overflowed => exact absurd (FileTree.followLinks_overflow_iff.mp overflowed) shallow

def linkInRoot (target : Bytes) : FileTree where
  root := 0
  nodes
    | 0 => { FileNode.empty with children := some (AList.insert [0x61] 1 ∅), parent := some 0 }
    | 1 => { FileNode.empty with linktarget := some target }
    | _ => FileNode.empty
  files t := decide (t < 2)
  next := 2

/-- The link `a` to `a`, which is met again at the end of its own target, is an
error. -/
theorem resolution_fits_iff_self :
    (linkInRoot [0x61]).followLinks 1 1 0 = .failed .eloop := by
  have hop : (linkInRoot [0x61]).ResolvesTo 0 [0x61] (.found 1 0) :=
    ⟨by decide, 0, 0, .arrived 0 0, rfl⟩
  have endless : (linkInRoot [0x61]).EndlessHops 1 0 := by
    intro count
    induction count with
    | zero => exact ⟨1, 0, .here 1 0⟩
    | succ count ih =>
      obtain ⟨last, lastParent, rest⟩ := ih
      exact ⟨last, lastParent, .step rfl hop rfl rest⟩
  apply (resolution_fits_iff (linkInRoot [0x61]) 1 0 [0x61]).2.2 1 0 endless
  rw [← FileTree.followLinks_overflow_iff]
  decide

/-- The link `a` to `a/b`, which is met again before the slash of its own
target: no stack suffices. -/
theorem resolution_overflows :
    ¬∀ (tree : FileTree) (cwd : Nat) (path : Bytes),
      ∃ depth, tree.resolveFollow depth cwd path ≠ .overflow := by
  intro enough
  obtain ⟨depth, fits⟩ := enough (linkInRoot [0x61, 0x2f, 0x62]) 0 [0x61]
  apply fits
  rw [FileTree.resolveFollow_overflow_iff]
  have meets : (linkInRoot [0x61, 0x2f, 0x62]).Meets 1 0 1 0 :=
    ⟨0, 1, 0, _, by decide, .here 1 0, rfl, by decide, [], [0x61], [], 0, rfl, .arrived 0 0, rfl⟩
  have nests : ∀ depth, (linkInRoot [0x61, 0x2f, 0x62]).Nests depth 1 0 := by
    intro depth
    induction depth with
    | zero => rfl
    | succ depth ih => exact ⟨1, 0, meets, ih⟩
  exact .inr ⟨1, 0, ⟨by decide, 0, 0, .arrived 0 0, rfl⟩, nests depth⟩

end Jerboa.Kernel
