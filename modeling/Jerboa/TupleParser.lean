import Jerboa.KernelText

/-!
# The tuple parser

`runtime/tuple_parser.c` reads tuples one character at a time.  A parser there
is a closure that returns the parser of the next character; here it is the
closure's data: where in the syntax the parser stands, the tuples and vectors
that are still open around it, and what the two handlers have been called with.
-/

namespace Jerboa.Kernel

open Utf8Text List

inductive ParsedValue
  | string (text : Bytes)
  | tuple (entries : List (Bytes × ParsedValue))
  | vector (elements : List ParsedValue)

abbrev Entries := List (Bytes × ParsedValue)

/-- `set` of a tuple; symbols are interned, so they are their text. -/
def setEntry (entries : Entries) (name : Bytes) (value : ParsedValue) : Entries :=
  entries.filter (fun entry => entry.1 ≠ name) ++ [(name, value)]

def ParsedValue.get : ParsedValue → Bytes → Option ParsedValue
  | .tuple entries, name => (entries.find? fun entry => entry.1 = name).map Prod.snd
  | _, _ => none

inductive ParseError
  | leadingChar (c : Nat)
  | propertyDiscriminator (c : Nat)
  deriving DecidableEq

def charset (elements : String) : List Nat :=
  elements.toList.map Char.toNat

def whitespace : List Nat := charset " \n\r\t"

def valueTerminal : List Nat := charset "()[]" ++ whitespace

def propertySigils : List Nat := charset ":|/"

def nameTerminal : List Nat := charset "()[]" ++ propertySigils ++ whitespace

/-! ### Parsers -/

/-- Where a string goes when it is complete: it names an entry of a tuple, or it
is a value. -/
inductive Target
  | name (entries : Entries)
  | value

/-- `value_complete`: the tuple or vector that waits for a value. -/
inductive Frame
  | entry (entries : Entries) (name : Bytes)
  | element (elements : List ParsedValue)

inductive Mode
  | parseTuple
  | isEndOfTuple (entries : Entries)
  /-- `is_end_of_vector`, behind blanks only at first -/
  | isEndOfVector (elements : List ParsedValue) (blanks : Bool)
  | dispatchProperty (entries : Entries) (name : Bytes)
  /-- `parse_value`, behind blanks in a vector -/
  | parseValue (blanks : Bool)
  | parseValueString
  | quotedString (target : Target) (s : Bytes)
  | escapedCharacter (target : Target) (s : Bytes)
  | terminal (target : Target) (s : Bytes)
  | kill
  | diverges

structure Parser where
  mode : Mode
  /-- `til_newline`, which comes back to the blanks -/
  comment : Bool := false
  /-- the completions, innermost first; `bridge_completion` is below them all -/
  stack : List Frame := []
  finished : List ParsedValue := []
  errors : List ParseError := []

namespace Parser

/-- `eat_whitespace` before a parser; `p` is the parser that waits behind it. -/
def eatWhitespace (p : Parser) (finish : Nat → Parser) (c : Nat) : Parser :=
  if c = '#'.toNat then { p with comment := true }
  else if c ∈ whitespace then p
  else finish c

def fail (p : Parser) (error : ParseError) : Parser :=
  { p with mode := .kill, errors := p.errors ++ [error] }

def complete (p : Parser) (value : ParsedValue) : Parser :=
  match p.stack with
  | .entry entries name :: stack =>
    { p with mode := .isEndOfTuple (setEntry entries name value), stack }
  | .element elements :: stack =>
    { p with mode := .isEndOfVector (elements ++ [value]) false, stack }
  | [] => { p with mode := .parseTuple, finished := p.finished ++ [value] }

def parseTuple (p : Parser) (c : Nat) : Parser :=
  if c ≠ '('.toNat then p.fail (.leadingChar c)
  else { p with mode := .isEndOfTuple [] }

def dispatchProperty (p : Parser) (entries : Entries) (name : Bytes) (c : Nat) : Parser :=
  if c = ':'.toNat then
    { p with mode := .parseValue false, stack := .entry entries name :: p.stack }
  else p.fail (.propertyDiscriminator c)

def nameComplete (p : Parser) (entries : Entries) (name : Bytes) : Parser :=
  { p with mode := .dispatchProperty entries name }

def terminalName (p : Parser) (entries : Entries) (s : Bytes) (c : Nat) : Parser :=
  if c ∈ nameTerminal then
    eatWhitespace (p.nameComplete entries s) (p.dispatchProperty entries s) c
  else { p with mode := .terminal (.name entries) (pushCharacter s c) }

def parseName (p : Parser) (entries : Entries) (c : Nat) : Parser :=
  if c = '"'.toNat then { p with mode := .quotedString (.name entries) [] }
  else p.terminalName entries [] c

/-- `is_end_of_tuple`; the blanks before a name are eaten already. -/
def isEndOfTuple (p : Parser) (entries : Entries) (c : Nat) : Parser :=
  if c = ')'.toNat then p.complete (.tuple entries)
  else p.parseName entries c

/-- `terminal` of a value, with the parser that checks for the end of the tuple
or vector around it. -/
def terminalValue (p : Parser) (check : Parser → Nat → Parser) (s : Bytes) (c : Nat) : Parser :=
  if c ∈ valueTerminal then check (p.complete (.string s)) c
  else { p with mode := .terminal .value (pushCharacter s c) }

def parseValueString (p : Parser) (check : Parser → Nat → Parser) (c : Nat) : Parser :=
  if c = '"'.toNat then { p with mode := .quotedString .value [] }
  else p.terminalValue check [] c

def parseValue (p : Parser) (check : Parser → Nat → Parser) (c : Nat) : Parser :=
  if c = '('.toNat then { p with mode := .isEndOfTuple [] }
  else if c = '['.toNat then { p with mode := .isEndOfVector [] true }
  else eatWhitespace { p with mode := .parseValueString } (p.parseValueString check) c

/-- `is_end_of_vector`.  A closing parenthesis is an empty element and comes
back here, time and again. -/
def isEndOfVector (p : Parser) (elements : List ParsedValue) (c : Nat) : Parser :=
  if c = ']'.toNat then p.complete (.vector elements)
  else
    let p := { p with stack := .element elements :: p.stack, mode := .parseValue true }
    eatWhitespace p (p.parseValue fun p _ => { p with mode := .diverges }) c

/-- The parser that a completed value returns, on the character that ended it. -/
def check (p : Parser) (c : Nat) : Parser :=
  match p.mode with
  | .isEndOfTuple entries => eatWhitespace p (p.isEndOfTuple entries) c
  | .isEndOfVector elements _ => p.isEndOfVector elements c
  | _ => p

def completeString (p : Parser) (s : Bytes) : Target → Parser
  | .name entries => p.nameComplete entries s
  | .value => p.complete (.string s)

def quotedString (p : Parser) (target : Target) (s : Bytes) (c : Nat) : Parser :=
  if c = '"'.toNat then p.completeString s target
  else if c = '\\'.toNat then { p with mode := .escapedCharacter target s }
  else { p with mode := .quotedString target (pushCharacter s c) }

def apply (p : Parser) (c : Nat) : Parser :=
  if p.comment then { p with comment := c ≠ '\n'.toNat }
  else
    match p.mode with
    | .parseTuple => eatWhitespace p p.parseTuple c
    | .isEndOfTuple entries => eatWhitespace p (p.isEndOfTuple entries) c
    | .isEndOfVector elements true => eatWhitespace p (p.isEndOfVector elements) c
    | .isEndOfVector elements false => p.isEndOfVector elements c
    | .dispatchProperty entries name => eatWhitespace p (p.dispatchProperty entries name) c
    | .parseValue true => eatWhitespace p (p.parseValue check) c
    | .parseValue false => p.parseValue check c
    | .parseValueString => eatWhitespace p (p.parseValueString check) c
    | .quotedString target s => p.quotedString target s c
    | .escapedCharacter target s => { p with mode := .quotedString target (pushCharacter s c) }
    | .terminal (.name entries) s => p.terminalName entries s c
    | .terminal .value s => p.terminalValue check s c
    | .kill => p
    | .diverges => p

def feed (p : Parser) (s : Bytes) : Parser :=
  (characters s).foldl apply p

end Parser

def tupleParser : Parser :=
  { mode := .parseTuple }

/-! ### Entries of a tuple -/

theorem find?_replaced {Value : Type} (entries : List (Bytes × Value)) (name other : Bytes)
    (value : Value) :
    ((entries.filter (fun entry => entry.1 ≠ name) ++ [(name, value)]).find? fun entry =>
        entry.1 = other).map Prod.snd =
      if other = name then some value
      else (entries.find? fun entry => entry.1 = other).map Prod.snd := by
  rw [find?_append, find?_filter]
  by_cases same : other = name
  · subst same
    have gone : entries.find? (fun _ => false) = none := by
      simp [find?_eq_none]
    simp [gone]
  · have kept : (fun entry : Bytes × Value =>
        !decide (entry.1 = name) && decide (entry.1 = other)) =
        fun entry => decide (entry.1 = other) := by
      funext entry
      by_cases here : entry.1 = other <;> simp [here, same]
    simp [kept, same, Ne.symm same]

theorem get_tuple_setEntry (entries : Entries) (name other : Bytes) (value : ParsedValue) :
    (ParsedValue.tuple (setEntry entries name value)).get other =
      if other = name then some value else (ParsedValue.tuple entries).get other :=
  find?_replaced entries name other value

def setEntries (entries : Entries) (more : Entries) : Entries :=
  more.foldl (fun entries entry => setEntry entries entry.1 entry.2) entries

theorem get_tuple_setEntries {more : Entries} (distinct : (more.map Prod.fst).Nodup)
    (entries : Entries) (name : Bytes) :
    (ParsedValue.tuple (setEntries entries more)).get name =
      ((ParsedValue.tuple more).get name).or ((ParsedValue.tuple entries).get name) := by
  induction more generalizing entries with
  | nil => rfl
  | cons entry more ih =>
    rw [map_cons, nodup_cons] at distinct
    rw [setEntries, foldl_cons]
    refine (ih distinct.2 _).trans ?_
    rw [get_tuple_setEntry]
    by_cases same : name = entry.1
    · have missing : (ParsedValue.tuple more).get name = none := by
        rw [ParsedValue.get, Option.map_eq_none_iff, find?_eq_none]
        intro other member here
        have : other.1 = entry.1 := (of_decide_eq_true here).trans same
        exact distinct.1 (mem_map.mpr ⟨other, member, this⟩)
      rw [missing]
      simp [ParsedValue.get, same]
    · rw [if_neg same]
      simp [ParsedValue.get, Ne.symm same]

/-! ### Passing over text -/

/-- Where a parser stands between comments, with the innermost completions. -/
structure Place where
  mode : Mode
  frames : List Frame := []

def Place.within (place : Place) (p : Parser) : Parser :=
  { p with mode := place.mode, comment := false, stack := place.frames ++ p.stack }

/-- The characters take a parser from one place to the other. -/
def Runs (before : Place) (text : List Nat) (after : Place) : Prop :=
  ∀ p, text.foldl Parser.apply (before.within p) = after.within p

/-- The text takes a parser from one place to the other. -/
structure Reading (before : Place) (text : Bytes) (after : Place) : Prop where
  isText : IsText text
  feed : ∀ p, (before.within p).feed text = after.within p

variable {before middle after : Place} {text : List Nat} {c : Nat} {entries : Entries}

theorem Runs.append {more : List Nat} (first : Runs before text middle)
    (second : Runs middle more after) : Runs before (text ++ more) after := by
  intro p
  rw [foldl_append, first, second]

theorem Runs.frame (runs : Runs before text after) (frames : List Frame) :
    Runs ⟨before.mode, before.frames ++ frames⟩ text ⟨after.mode, after.frames ++ frames⟩ := by
  intro p
  have run := runs { p with stack := frames ++ p.stack }
  simpa only [Place.within, append_assoc] using run

theorem Parser.feed_encodeAll {p : Parser} (small : ∀ c ∈ text, c < 0x110000) :
    p.feed (encodeAll text) = text.foldl apply p := by
  have all := characters_encodeAll small []
  rw [append_nil, show characters [] = [] from rfl, append_nil] at all
  rw [feed, all]

theorem Parser.feed_append {p : Parser} {first : Bytes} (text : IsText first) (rest : Bytes) :
    p.feed (first ++ rest) = (p.feed first).feed rest := by
  obtain ⟨text, small, rfl⟩ := text
  rw [feed_encodeAll small, feed, characters_encodeAll small, foldl_append]
  rfl

theorem Runs.reading (runs : Runs before text after) (small : ∀ c ∈ text, c < 0x110000) :
    Reading before (encodeAll text) after :=
  ⟨⟨text, small, rfl⟩, fun p => (Parser.feed_encodeAll small).trans (runs p)⟩

theorem reading_utf8 (literal : String)
    (runs : Runs before (literal.toList.map Char.toNat) after) :
    Reading before (utf8 literal) after := by
  apply runs.reading
  intro c member
  obtain ⟨character, -, rfl⟩ := mem_map.mp member
  exact toNat_lt character

theorem Reading.nil (place : Place) : Reading place [] place :=
  ⟨isText_nil, fun _ => rfl⟩

theorem Reading.append {first second : Bytes} (left : Reading before first middle)
    (right : Reading middle second after) : Reading before (first ++ second) after := by
  refine ⟨left.isText.append right.isText, fun p => ?_⟩
  rw [Parser.feed_append left.isText, left.feed, right.feed]

theorem Reading.frame {text : Bytes} (reading : Reading before text after)
    (frames : List Frame) :
    Reading ⟨before.mode, before.frames ++ frames⟩ text ⟨after.mode, after.frames ++ frames⟩ := by
  refine ⟨reading.isText, fun p => ?_⟩
  have read := reading.feed { p with stack := frames ++ p.stack }
  simpa only [Place.within, append_assoc] using read

theorem Reading.feed_closed {text : Bytes}
    (reading : Reading ⟨.parseTuple, []⟩ text ⟨.isEndOfTuple entries, []⟩) :
    tupleParser.feed (text ++ utf8 ")") =
      { mode := .parseTuple, finished := [.tuple entries] } := by
  rw [Parser.feed_append reading.isText]
  exact congrArg (Parser.feed · (utf8 ")")) (reading.feed tupleParser)

/-! ### Strings -/

namespace Parser

/-- Characters that do not end the text of a name or value are pushed to it. -/
theorem runs_terminal {target : Target} {ends : List Nat}
    (push : ∀ s, ∀ c ∉ ends, Runs ⟨.terminal target s, []⟩ [c]
      ⟨.terminal target (pushCharacter s c), []⟩)
    (s : Bytes) (plain : ∀ c ∈ text, c ∉ ends) :
    Runs ⟨.terminal target s, []⟩ text ⟨.terminal target (s ++ encodeAll text), []⟩ := by
  induction text generalizing s with
  | nil => simp [Runs]
  | cons c text ih =>
    rw [forall_mem_cons] at plain
    rw [encodeAll_cons, ← append_assoc, ← pushCharacter_eq]
    exact (push s c plain.1).append (ih _ plain.2)

def escape (c : Nat) : List Nat :=
  if c = '"'.toNat ∨ c = '\\'.toNat then ['\\'.toNat, c] else [c]

theorem runs_escape (target : Target) (s : Bytes) (c : Nat) :
    Runs ⟨.quotedString target s, []⟩ (escape c)
      ⟨.quotedString target (pushCharacter s c), []⟩ := by
  intro p
  unfold escape
  split
  · simp [Place.within, apply, quotedString]
  · rename_i plain
    obtain ⟨quote, backslash⟩ := not_or.mp plain
    change c ≠ 34 at quote
    change c ≠ 92 at backslash
    simp [Place.within, apply, quotedString, quote, backslash]

theorem runs_quotedString (target : Target) (s : Bytes) (text : List Nat) :
    Runs ⟨.quotedString target s, []⟩ (text.flatMap escape)
      ⟨.quotedString target (s ++ encodeAll text), []⟩ := by
  induction text generalizing s with
  | nil => simp [Runs]
  | cons c text ih =>
    rw [flatMap_cons, encodeAll_cons, ← append_assoc, ← pushCharacter_eq]
    exact (runs_escape target s c).append (ih _)

theorem not_mem_whitespace_of_nameTerminal (plain : c ∉ nameTerminal) : c ∉ whitespace :=
  fun blank => plain (mem_append_right _ blank)

theorem not_mem_whitespace_of_valueTerminal (plain : c ∉ valueTerminal) : c ∉ whitespace :=
  fun blank => plain (mem_append_right _ blank)

theorem runs_plainName (hash : c ≠ '#'.toNat) (quote : c ≠ '"'.toNat)
    (plain : ∀ d ∈ c :: text, d ∉ nameTerminal) :
    Runs ⟨.isEndOfTuple entries, []⟩ (c :: text)
      ⟨.terminal (.name entries) (encodeAll (c :: text)), []⟩ := by
  rw [forall_mem_cons] at plain
  have closing : c ≠ ')'.toNat := by
    rintro rfl
    exact plain.1 (by decide)
  have first : Runs ⟨.isEndOfTuple entries, []⟩ [c]
      ⟨.terminal (.name entries) (pushCharacter [] c), []⟩ := by
    intro p
    simp only [foldl_cons, foldl_nil, Place.within, apply, eatWhitespace, hash,
      not_mem_whitespace_of_nameTerminal plain.1, isEndOfTuple, closing, parseName, quote,
      terminalName, plain.1, if_false, Bool.false_eq_true]
  rw [encodeAll_cons, ← nil_append (encode c), ← pushCharacter_eq]
  apply first.append (runs_terminal _ _ plain.2)
  intro s d ends p
  simp [Place.within, apply, terminalName, ends]

theorem runs_quotedName (entries : Entries) (text : List Nat) :
    Runs ⟨.isEndOfTuple entries, []⟩ ('"'.toNat :: (text.flatMap escape ++ ['"'.toNat]))
      ⟨.dispatchProperty entries (encodeAll text), []⟩ := by
  have first : Runs ⟨.isEndOfTuple entries, []⟩ ['"'.toNat]
      ⟨.quotedString (.name entries) [], []⟩ := fun _ => rfl
  exact first.append ((runs_quotedString _ [] text).append fun _ => rfl)

theorem runs_plainValue (hash : c ≠ '#'.toNat) (quote : c ≠ '"'.toNat)
    (plain : ∀ d ∈ c :: text, d ∉ valueTerminal) :
    Runs ⟨.parseValue false, []⟩ (c :: text) ⟨.terminal .value (encodeAll (c :: text)), []⟩ := by
  rw [forall_mem_cons] at plain
  have opening : c ≠ '('.toNat := by
    rintro rfl
    exact plain.1 (by decide)
  have bracket : c ≠ '['.toNat := by
    rintro rfl
    exact plain.1 (by decide)
  have first : Runs ⟨.parseValue false, []⟩ [c] ⟨.terminal .value (pushCharacter [] c), []⟩ := by
    intro p
    simp only [foldl_cons, foldl_nil, Place.within, apply, parseValue, opening, bracket,
      eatWhitespace, hash, not_mem_whitespace_of_valueTerminal plain.1, parseValueString, quote,
      terminalValue, plain.1, if_false, Bool.false_eq_true]
  rw [encodeAll_cons, ← nil_append (encode c), ← pushCharacter_eq]
  apply first.append (runs_terminal _ _ plain.2)
  intro s d ends p
  simp [Place.within, apply, terminalValue, ends]

theorem runs_quotedValue (text : List Nat) :
    Runs ⟨.parseValue false, []⟩ ('"'.toNat :: (text.flatMap escape))
      ⟨.quotedString .value (encodeAll text), []⟩ := by
  have first : Runs ⟨.parseValue false, []⟩ ['"'.toNat] ⟨.quotedString .value [], []⟩ :=
    fun _ => rfl
  exact first.append (runs_quotedString _ [] text)

end Parser

end Jerboa.Kernel
