import Jerboa.DelimitedText

/-!
# Nested virtualization in .wslconfig

`setNestedVirtualization` of `internal/wsldistro/wslconfig.go` edits the lines
of a configuration file: it replaces the first assignment of the key in the
first `[wsl2]` section, or inserts one behind the header, or appends a section.
-/

namespace Jerboa.WslConfig

open DelimitedText List

abbrev Line := List Char

def bom : Char := '\uFEFF'

def nestedVirtKey : Line := "nestedVirtualization".toList

def assignment : Line := "nestedVirtualization=true".toList

def wsl2Header : Line := "[wsl2]".toList

/-- Of the letters here, `s` has a third variant under simple folding. -/
def foldRune (c : Char) : Char :=
  if c = '\u017F' then 's' else c.toLower

/-- `strings.EqualFold` with a text in ASCII that has no `k`. -/
def equalFold (text pattern : Line) : Bool :=
  text.map foldRune = pattern.map foldRune

def isNestedVirtKey (line : Line) : Bool :=
  (cut '=' line).any fun (key, _) => equalFold (trimSpace key) nestedVirtKey

def nestedVirtTrue (line : Line) : Bool :=
  equalFold (trimSpace (((cut '=' line).map Prod.snd).getD [])) "true".toList

def isHeader (line : Line) : Bool :=
  (trimSpace line).head? = some '[' && (trimSpace line).getLast? = some ']'

def opensWSL2 (line : Line) : Bool :=
  isHeader line && equalFold (trimSpace line) wsl2Header

def assigns (line : Line) : Bool :=
  !isHeader line && isNestedVirtKey (trimSpace line)

def isQuiet (line : Line) : Bool :=
  !isHeader line && !assigns line

/-- How the loop over the lines ends: at an assignment of `true` or of another
value, or with the index of the header, if there was one. -/
inductive Scan
  | enabled
  | assigned (i : Nat)
  | ended (wsl2Start : Option Nat)
deriving DecidableEq

def scan (inWSL2 : Bool) (wsl2Start : Option Nat) (i : Nat) : List Line → Scan
  | [] => .ended wsl2Start
  | line :: lines =>
    if isHeader line then
      if inWSL2 then .ended wsl2Start
      else if equalFold (trimSpace line) wsl2Header then scan true (some i) (i + 1) lines
      else scan inWSL2 wsl2Start (i + 1) lines
    else if inWSL2 && isNestedVirtKey (trimSpace line) then
      if nestedVirtTrue (trimSpace line) then .enabled else .assigned i
    else scan inWSL2 wsl2Start (i + 1) lines

def trimBOM (content : List Char) : List Char :=
  if content.head? = some bom then content.tail else content

def lines (content : List Char) : List Line :=
  (trimBOM content).splitOn '\n'

def join (lines : List Line) : List Char :=
  ['\n'].intercalate lines

def setNestedVirtualization (content : List Char) : List Char × Bool :=
  match scan false none 0 (lines content) with
  | .enabled => (content, false)
  | .assigned i => (join ((lines content).set i assignment), true)
  | .ended (some start) =>
    let insertAt := start + 1
    (join ((lines content).take insertAt ++ assignment :: (lines content).drop insertAt), true)
  | .ended none =>
    let text := trimBOM content
    let text := if text ≠ [] ∧ text.getLast? ≠ some '\n' then text ++ ['\n'] else text
    (text ++ "[wsl2]\nnestedVirtualization=true\n".toList, true)

/-! ### Sections -/

/-- The lines up to the first `[wsl2]` header, the lines of the section before an
assignment, and what follows. -/
structure Section (front : List Line) (header : Line) (body : List Line) : Prop where
  outside : ∀ line ∈ front, opensWSL2 line = false
  opens : opensWSL2 header = true
  quiet : ∀ line ∈ body, isQuiet line = true

variable {front body rest all : List Line} {header line : Line} {start i : Nat}

theorem scan_outside (outside : ∀ line ∈ front, opensWSL2 line = false) (i : Nat) :
    scan false none i (front ++ rest) = scan false none (i + front.length) rest := by
  induction front generalizing i with
  | nil => rfl
  | cons line front ih =>
    rw [forall_mem_cons] at outside
    have later : i + 1 + front.length = i + (front.length + 1) := by omega
    rw [cons_append, scan, ih outside.2, length_cons, later]
    have notOpen := outside.1
    cases isHead : isHeader line <;> simp_all [opensWSL2]

theorem scan_quiet (quiet : ∀ line ∈ body, isQuiet line = true) (i : Nat) :
    scan true (some start) i (body ++ rest) = scan true (some start) (i + body.length) rest := by
  induction body generalizing i with
  | nil => rfl
  | cons line body ih =>
    rw [forall_mem_cons] at quiet
    have later : i + 1 + body.length = i + (body.length + 1) := by omega
    rw [cons_append, scan, ih quiet.2, length_cons, later]
    have notHeader := quiet.1
    simp_all [isQuiet, assigns]

theorem Section.scan_eq (split : Section front header body) :
    scan false none 0 (front ++ header :: (body ++ rest)) =
      scan true (some front.length) (front.length + 1 + body.length) rest := by
  have opens := split.opens
  rw [opensWSL2, Bool.and_eq_true] at opens
  rw [scan_outside split.outside, scan, if_pos opens.1, if_pos opens.2, Nat.zero_add]
  exact scan_quiet split.quiet _

theorem scan_assigns (found : assigns line = true) :
    scan true (some start) i (line :: rest) =
      if nestedVirtTrue (trimSpace line) then .enabled else .assigned i := by
  rw [assigns, Bool.and_eq_true, Bool.not_eq_true'] at found
  simp [scan, found]

theorem scan_ended (ends : ∀ line ∈ rest.head?, isHeader line = true) :
    scan true (some start) i rest = .ended (some start) := by
  cases rest with
  | nil => rfl
  | cons line rest => simp [scan, ends line rfl]

theorem exists_span {α : Type} (p : α → Bool) (all : List α) :
    ∃ front rest, all = front ++ rest ∧ (∀ a ∈ front, p a = true) ∧
      ∀ a ∈ rest.head?, p a = false := by
  refine ⟨_, _, takeWhile_append_dropWhile.symm, fun _ => mem_takeWhile_imp,
    fun a first => ?_⟩
  have ends := head?_dropWhile_not p all
  rw [Option.mem_def.mp first] at ends
  simpa using ends

/-- A file has no `[wsl2]` section, or its first one has an assignment, or ends
without one. -/
theorem lines_cases (all : List Line) :
    (∀ line ∈ all, opensWSL2 line = false) ∨
      ∃ front header body rest, Section front header body ∧
        all = front ++ header :: (body ++ rest) ∧
          ((∃ line later, rest = line :: later ∧ assigns line = true) ∨
            ∀ line ∈ rest.head?, isHeader line = true) := by
  obtain ⟨front, rest, rfl, outside, opens⟩ := exists_span (fun line => !opensWSL2 line) all
  cases rest with
  | nil => exact .inl (by simpa using outside)
  | cons header inner =>
    obtain ⟨body, rest, rfl, quiet, ends⟩ := exists_span isQuiet inner
    refine .inr ⟨front, header, body, rest,
      ⟨by simpa using outside, by simpa using opens header rfl, quiet⟩, rfl, ?_⟩
    cases rest with
    | nil => exact .inr (by simp)
    | cons line later =>
      have ended := ends line rfl
      rw [isQuiet, Bool.and_eq_false_iff, Bool.not_eq_false', Bool.not_eq_false'] at ended
      rcases ended with isHead | found
      · exact .inr (by simpa using isHead)
      · exact .inl ⟨line, later, rfl, found⟩

/-! ### What the edit leaves -/

/-- There is a `[wsl2]` section whose first assignment of the key has the value
true. -/
def Enabled (all : List Line) : Prop :=
  ∃ front header body line rest, all = front ++ header :: (body ++ line :: rest) ∧
    opensWSL2 header = true ∧ (∀ other ∈ body, isQuiet other = true) ∧
      assigns line = true ∧ nestedVirtTrue (trimSpace line) = true

/-- The lines stay in order, apart from one assignment that may be replaced, and
at most one assignment and one header are added. -/
structure Kept (before after : List Line) : Prop where
  order : before.Sublist after ∨ ∃ front line rest, assigns line = true ∧
    before = front ++ line :: rest ∧ after = front ++ assignment :: rest
  assignments : after.countP assigns ≤ before.countP assigns + 1
  headers : after.countP isHeader ≤ before.countP isHeader + 1

structure TurnsOn (content result : List Char) : Prop where
  enabled : Enabled (lines result)
  kept : Kept (lines content) (lines result)
  stable : setNestedVirtualization result = (result, false)

theorem Section.enabled {content : List Char} (split : Section front header body)
    (found : assigns line = true) (isTrue : nestedVirtTrue (trimSpace line) = true)
    (same : lines content = front ++ header :: (body ++ line :: rest)) :
    Enabled (lines content) ∧ setNestedVirtualization content = (content, false) := by
  refine ⟨⟨front, header, body, line, rest, same, split.opens, split.quiet, found, isTrue⟩, ?_⟩
  rw [setNestedVirtualization, same, split.scan_eq, scan_assigns found, if_pos isTrue]

theorem head?_join (line : Line) (rest : List Line) :
    (join (line :: rest)).head? = some bom ↔ line.head? = some bom := by
  cases line <;> cases rest <;> simp [join, intercalate_cons_cons, bom]

theorem join_lines (content : List Char) : join (lines content) = trimBOM content :=
  intercalate_splitOn _

section

variable {content : List Char} (single : ¬[bom, bom] <+: content)

include single

theorem head?_lines (all : lines content = line :: rest) : line.head? ≠ some bom := by
  rw [Ne, ← head?_join line rest, ← all, join_lines, trimBOM]
  split
  · rename_i marked
    intro again
    obtain ⟨tail, rfl⟩ := head?_eq_some_iff.mp marked
    obtain ⟨later, same⟩ := head?_eq_some_iff.mp again
    exact single ⟨later, by simpa using same.symm⟩
  · assumption

theorem lines_join (known : ∀ line ∈ header :: rest, line ∈ lines content ∨
      line ∈ [wsl2Header, assignment, []])
    (first : (lines content).head? = some header ∨ header = wsl2Header) :
    lines (join (header :: rest)) = header :: rest := by
  have unmarked : (join (header :: rest)).head? ≠ some bom := by
    rw [Ne, head?_join]
    rcases first with same | rfl
    · obtain ⟨others, all⟩ := head?_eq_some_iff.mp same
      exact head?_lines single all
    · decide
  rw [lines, trimBOM, if_neg unmarked]
  refine splitOn_intercalate _ (fun line member => ?_) (cons_ne_nil _ _)
  rcases known line member with old | new
  · exact not_mem_of_mem_splitOn old
  · exact (by decide : ∀ line ∈ [wsl2Header, assignment, []], '\n' ∉ line) line new

theorem Section.turnsOn (split : Section front header body)
    (known : ∀ line ∈ front ++ header :: (body ++ assignment :: rest),
      line ∈ lines content ∨ line ∈ [wsl2Header, assignment, []])
    (first : (lines content).head? = (front ++ [header]).head? ∨
      front = [] ∧ header = wsl2Header)
    (kept : Kept (lines content) (front ++ header :: (body ++ assignment :: rest))) :
    TurnsOn content (join (front ++ header :: (body ++ assignment :: rest))) := by
  have same : lines (join (front ++ header :: (body ++ assignment :: rest))) =
      front ++ header :: (body ++ assignment :: rest) := by
    cases front with
    | nil => exact lines_join single known (by simpa using first)
    | cons => exact lines_join single known (.inl (by simpa using first))
  obtain ⟨enabled, stable⟩ := split.enabled (by decide) (by decide) same
  exact ⟨enabled, same.symm ▸ kept, stable⟩

end

theorem Section.nil (split : Section front header body) : Section front header [] :=
  ⟨split.outside, split.opens, by simp⟩

theorem assignment_counts : assigns assignment = true ∧ isHeader assignment = false := by
  decide

theorem kept_assigned (found : assigns line = true) :
    Kept (front ++ line :: rest) (front ++ assignment :: rest) := by
  have plain : isHeader line = false := by
    simp only [assigns, Bool.and_eq_true, Bool.not_eq_true'] at found
    exact found.1
  refine ⟨.inr ⟨front, line, rest, found, rfl, rfl⟩, ?_, ?_⟩
  · simp [assignment_counts, found]
  · simp [assignment_counts, plain]

theorem kept_inserted (front rest : List Line) :
    Kept (front ++ rest) (front ++ assignment :: rest) := by
  refine ⟨.inl ((List.Sublist.refl front).append (sublist_cons_self _ _)), ?_, ?_⟩
  · simp [assignment_counts, Nat.add_assoc]
  · simp [assignment_counts]

theorem kept_appended (all : List Line) (known : all = front ∨ all = front ++ [[]]) :
    Kept all (front ++ [wsl2Header, assignment, []]) := by
  have counts : [wsl2Header, assignment, []].countP assigns = 1 ∧
      [wsl2Header, assignment, []].countP isHeader = 1 := by decide
  refine ⟨.inl ?_, ?_, ?_⟩
  · rcases known with rfl | rfl
    · exact sublist_append_left _ _
    · exact (List.Sublist.refl front).append (by decide)
  · rcases known with rfl | rfl <;> simp [counts]
  · rcases known with rfl | rfl <;> simp [counts]

theorem join_appended (front : List Line) :
    join (front ++ [wsl2Header, assignment, []]) =
      (front.flatMap fun line => line ++ ['\n']) ++
        "[wsl2]\nnestedVirtualization=true\n".toList := by
  have whole := intercalate_concat '\n' (front ++ [wsl2Header, assignment]) []
  rw [flatMap_append, append_assoc, append_assoc] at whole
  exact whole

/-- The text that the new section is appended to ends with a line break. -/
theorem exists_appended (content : List Char) :
    ∃ front, (lines content = front ∨ lines content = front ++ [[]]) ∧
      (if trimBOM content ≠ [] ∧ (trimBOM content).getLast? ≠ some '\n' then
        trimBOM content ++ ['\n'] else trimBOM content) =
        front.flatMap fun line => line ++ ['\n'] := by
  have text := join_lines content
  rcases eq_nil_or_concat (lines content) with empty | ⟨front, last, all⟩
  · exact absurd empty (splitOn_ne_nil _ _)
  · rw [concat_eq_append] at all
    rw [all, join, intercalate_concat] at text
    by_cases empty : last = []
    · subst empty
      refine ⟨front, .inr all, ?_⟩
      rw [append_nil] at text
      rw [← text, if_neg]
      rcases eq_nil_or_concat front with rfl | ⟨earlier, line, rfl⟩ <;> simp
    · have free : '\n' ∉ last :=
        not_mem_of_mem_splitOn (show last ∈ lines content by simp [all])
      refine ⟨front ++ [last], .inl all, ?_⟩
      rw [← text, if_pos]
      · simp
      · refine ⟨by simp [empty], fun ended => free ?_⟩
        rw [getLast?_append_of_ne_nil _ empty] at ended
        exact mem_of_getLast? ended

/-- A file that does not begin with two byte-order marks gets nested
virtualization, keeps its lines, and is not changed again. -/
theorem nested_virtualization_set {content : List Char} (single : ¬[bom, bom] <+: content) :
    TurnsOn content (setNestedVirtualization content).1 := by
  rcases lines_cases (lines content) with
    outside | ⟨front, header, body, rest, split, all, ended⟩
  · have ends : scan false none 0 (lines content ++ []) = .ended none :=
      scan_outside outside 0
    obtain ⟨front, known, text⟩ := exists_appended content
    have inside : ∀ line ∈ front, line ∈ lines content := by
      rcases known with all | all <;> simp +contextual [all]
    have split : Section front wsl2Header [] :=
      ⟨fun line member => outside line (inside line member), by decide, by simp⟩
    rw [append_nil] at ends
    rw [setNestedVirtualization, ends]
    simp only [text, ← join_appended]
    refine split.turnsOn single ?_ ?_ (kept_appended _ known)
    · exact fun line member => (mem_append.mp member).imp_left (inside line)
    · cases front with
      | nil => exact .inr ⟨rfl, rfl⟩
      | cons line front => exact .inl (by rcases known with all | all <;> simp [all])
  · rcases ended with ⟨line, later, rfl, found⟩ | ends
    · by_cases isTrue : nestedVirtTrue (trimSpace line) = true
      · obtain ⟨enabled, same⟩ := split.enabled found isTrue all
        rw [same]
        exact ⟨enabled, ⟨.inl (List.Sublist.refl _), Nat.le_succ _, Nat.le_succ _⟩, same⟩
      · have kept : Kept ((front ++ header :: body) ++ line :: later) _ := kept_assigned found
        have turnsOn : TurnsOn content (join (front ++ header :: (body ++ assignment :: later))) :=
          split.turnsOn single (by simp only [all, mem_append, mem_cons]; grind)
            (.inl (by rw [all]; cases front <;> rfl)) (by simpa [all] using kept)
        rw [setNestedVirtualization, all, split.scan_eq, scan_assigns found, if_neg isTrue]
        simpa [set_append, show ¬ front.length + 1 + body.length < front.length by omega,
          show front.length + 1 + body.length - front.length = body.length + 1 by omega]
          using turnsOn
    · have kept := kept_inserted (front ++ [header]) (body ++ rest)
      have turnsOn :
          TurnsOn content (join (front ++ header :: ([] ++ assignment :: (body ++ rest)))) :=
        split.nil.turnsOn single (by simp only [all, mem_append, mem_cons]; grind)
          (.inl (by rw [all]; cases front <;> rfl)) (by simpa [all] using kept)
      rw [setNestedVirtualization, all, split.scan_eq, scan_ended ends]
      simpa [take_append, take_of_length_le] using turnsOn

theorem nested_virtualization_set_spare :
    TurnsOn "[wsl2]\nmemory=4GB".toList "[wsl2]\nnestedVirtualization=true\nmemory=4GB".toList :=
  @nested_virtualization_set "[wsl2]\nmemory=4GB".toList (by decide)

end Jerboa.WslConfig
