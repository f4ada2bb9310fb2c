import Jerboa.ManifestBuilder
import Jerboa.TupleParser

/-!
# Manifests read back

What the tuple parser makes of the pieces of a manifest: a name, a value, the
entries of a tuple, and the lines of a directory tree.
-/

namespace Jerboa.Image

open Utf8Text Kernel List

/-! ### Names and values -/

theorem quoted_eq (s : Bytes) :
    quoted s = encodeAll ('"'.toNat :: ((runes s).flatMap Parser.escape ++ ['"'.toNat])) := by
  have body : ((runes s).flatMap fun r =>
      (if r = '"'.toNat ∨ r = '\\'.toNat then utf8 "\\" else []) ++ encode r) =
      encodeAll ((runes s).flatMap Parser.escape) := by
    rw [encodeAll, flatMap_assoc]
    congr 1
    funext r
    unfold Parser.escape
    split <;> simp [utf8]
  rw [quoted, body, encodeAll_cons, encodeAll_append]
  rfl

def hash : UInt8 := 0x23

structure ReadableName (name : Bytes) : Prop where
  ne_nil : name ≠ []
  valid : containsAny name manifestNameTerminals = true → IsValid name
  plain : containsAny name manifestNameTerminals = false → IsText name ∧ name.head? ≠ some hash

structure ReadableValue (v : Bytes) : Prop where
  valid : containsAny v (manifestValueTerminals ++ utf8 "\"\\") = true → IsValid v
  plain : containsAny v (manifestValueTerminals ++ utf8 "\"\\") = false →
    IsText v ∧ v.head? ≠ some hash

structure ReadableHost (hostPath : Bytes) : Prop where
  isText : IsText hostPath
  plain : containsAny hostPath (utf8 "\"\\") = false

variable {text : List Nat} {name v indent : Bytes} {c : Nat}

theorem quoted_encodeAll (scalars : ∀ c ∈ text, IsScalar c) :
    quoted (encodeAll text) =
      encodeAll ('"'.toNat :: (text.flatMap Parser.escape ++ ['"'.toNat])) := by
  rw [quoted_eq, runes_encodeAll scalars]

theorem lt_of_mem_quoted (scalars : ∀ c ∈ text, IsScalar c) :
    ∀ c ∈ '"'.toNat :: (text.flatMap Parser.escape ++ ['"'.toNat]), c < 0x110000 := by
  intro c member
  rw [mem_cons, mem_append, mem_singleton, mem_flatMap] at member
  rcases member with rfl | ⟨r, inside, escaped⟩ | rfl
  · exact toNat_lt '"'
  · unfold Parser.escape at escaped
    split at escaped
    · rw [mem_cons, mem_singleton] at escaped
      rcases escaped with rfl | rfl
      · exact toNat_lt '\\'
      · exact (scalars _ inside).lt
    · rw [mem_singleton] at escaped
      exact escaped ▸ (scalars _ inside).lt
  · exact toNat_lt '"'

theorem not_mem_of_containsAny {chars : Bytes} (free : containsAny (encodeAll text) chars = false)
    (member : c ∈ text) (ascii : c < 0x80) :
    UInt8.ofNat c ∉ chars := by
  intro inside
  have found : containsAny (encodeAll text) chars = true := by
    rw [containsAny, any_eq_true]
    exact ⟨_, (mem_encodeAll_ascii ascii).mpr member, decide_eq_true inside⟩
  rw [free] at found
  exact Bool.false_ne_true found

theorem nameTerminal_bytes : (nameTerminal.all fun c =>
    decide (c < 0x80) && decide (UInt8.ofNat c ∈ manifestNameTerminals)) = true := by
  decide

theorem valueTerminal_bytes : (valueTerminal.all fun c =>
    decide (c < 0x80) && decide (UInt8.ofNat c ∈ manifestValueTerminals ++ utf8 "\"\\")) = true := by
  decide

theorem not_mem_nameTerminal (free : containsAny (encodeAll text) manifestNameTerminals = false)
    (member : c ∈ text) :
    c ∉ nameTerminal := by
  intro terminal
  have bytes := all_eq_true.mp nameTerminal_bytes c terminal
  rw [Bool.and_eq_true, decide_eq_true_iff, decide_eq_true_iff] at bytes
  exact not_mem_of_containsAny free member bytes.1 bytes.2

theorem not_mem_valueTerminal
    (free : containsAny (encodeAll text) (manifestValueTerminals ++ utf8 "\"\\") = false)
    (member : c ∈ text) : c ∉ valueTerminal := by
  intro terminal
  have bytes := all_eq_true.mp valueTerminal_bytes c terminal
  rw [Bool.and_eq_true, decide_eq_true_iff, decide_eq_true_iff] at bytes
  exact not_mem_of_containsAny free member bytes.1 bytes.2

theorem ne_hash_of_head (plain : (encodeAll (c :: text)).head? ≠ some hash) : c ≠ '#'.toNat := by
  rintro rfl
  exact plain rfl

variable {entries inner : Entries} {frames : List Frame} {after : Place}

theorem reading_manifestName (readable : ReadableName name) :
    Reading ⟨.isEndOfTuple entries, []⟩ (manifestName name ++ utf8 ":")
      ⟨.parseValue false, [.entry entries name]⟩ := by
  by_cases special : containsAny name manifestNameTerminals = true
  · obtain ⟨text, scalars, rfl⟩ := readable.valid special
    rw [manifestName, if_pos special, quoted_encodeAll scalars]
    exact ((Parser.runs_quotedName entries text).reading (lt_of_mem_quoted scalars)).append
      (reading_utf8 ":" fun _ => rfl)
  · have free := Bool.eq_false_iff.mpr special
    obtain ⟨⟨text, small, rfl⟩, head⟩ := readable.plain free
    cases text with
    | nil => exact absurd rfl readable.ne_nil
    | cons c text =>
      have plain : ∀ d ∈ c :: text, d ∉ nameTerminal := fun d => not_mem_nameTerminal free
      have quote : c ≠ '"'.toNat := by
        rintro rfl
        exact not_mem_of_containsAny free mem_cons_self (by decide) (by decide)
      rw [manifestName, if_neg special]
      exact ((Parser.runs_plainName (ne_hash_of_head head) quote plain).reading small).append
        (reading_utf8 ":" fun _ => rfl)

def IsPlainName (name : Bytes) : Prop :=
  name ≠ [] ∧ containsAny name manifestNameTerminals = false ∧ name.head? ≠ some hash

instance (name : Bytes) : Decidable (IsPlainName name) :=
  inferInstanceAs (Decidable (_ ∧ _))

theorem IsPlainName.readable (plain : IsPlainName name) (isText : IsText name) :
    ReadableName name :=
  ⟨plain.1, fun special => absurd special (by rw [plain.2.1]; exact Bool.false_ne_true),
    fun _ => ⟨isText, plain.2.2⟩⟩

theorem IsPlainName.manifestName (plain : IsPlainName name) :
    manifestName name = name :=
  if_neg (by rw [plain.2.1]; exact Bool.false_ne_true)

theorem reading_plainName (literal : String) (plain : IsPlainName (utf8 literal)) :
    Reading ⟨.isEndOfTuple entries, []⟩ (utf8 literal ++ utf8 ":")
      ⟨.parseValue false, [.entry entries (utf8 literal)]⟩ := by
  have named : Reading ⟨.isEndOfTuple entries, []⟩ _ _ :=
    reading_manifestName (plain.readable (isText_utf8 literal))
  rwa [plain.manifestName] at named

theorem lt_of_mem_valueTerminal : ∀ c ∈ valueTerminal, c < 0x110000 := by
  decide

/-- A value ends before a character that the tuple around it goes on with. -/
theorem reading_manifestValue (readable : ReadableValue v) (ne_nil : v ≠ []) {ending : Nat}
    (ends : ending ∈ valueTerminal)
    (closes : Runs ⟨.isEndOfTuple (setEntry entries name (.string v)), frames⟩ [ending] after) :
    Reading ⟨.parseValue false, .entry entries name :: frames⟩
      (manifestValue v ++ encodeAll [ending]) after := by
  have small : ∀ c ∈ [ending], c < 0x110000 :=
    forall_mem_singleton.mpr (lt_of_mem_valueTerminal ending ends)
  by_cases special : containsAny v (manifestValueTerminals ++ utf8 "\"\\") = true
  · obtain ⟨text, scalars, rfl⟩ := readable.valid special
    rw [manifestValue, if_pos special, quoted_encodeAll scalars]
    have quote : Runs ⟨.quotedString .value (encodeAll text), .entry entries name :: frames⟩
        ['"'.toNat] ⟨.isEndOfTuple (setEntry entries name (.string (encodeAll text))), frames⟩ :=
      fun _ => rfl
    have whole := ((Parser.runs_quotedValue text).frame (.entry entries name :: frames)).append quote
    exact (whole.reading (lt_of_mem_quoted scalars)).append (closes.reading small)
  · have free := Bool.eq_false_iff.mpr special
    obtain ⟨⟨text, smallText, rfl⟩, head⟩ := readable.plain free
    cases text with
    | nil => exact absurd rfl ne_nil
    | cons c text =>
      have plain : ∀ d ∈ c :: text, d ∉ valueTerminal := fun d => not_mem_valueTerminal free
      have quote : c ≠ '"'.toNat := by
        rintro rfl
        exact not_mem_of_containsAny free mem_cons_self (by decide) (by decide)
      rw [manifestValue, if_neg special]
      refine ((Parser.runs_plainValue (ne_hash_of_head head) quote plain).frame
        (.entry entries name :: frames)).reading smallText |>.append (Runs.reading ?_ small)
      intro p
      rw [← closes p]
      simp [Place.within, Parser.apply, Parser.terminalValue, ends, Parser.check, Parser.complete]

/-! ### The entries of a tuple -/

def IsClosing (closing : String) : Prop :=
  closing = ")" ∨ closing = " )"

theorem reading_lastValue {outer : Entries} {key : Bytes} (readable : ReadableValue v)
    {closing : String} (closes : IsClosing closing) :
    Reading ⟨.parseValue false, [.entry entries name, .entry outer key]⟩
      (manifestValue v ++ utf8 closing)
      ⟨.isEndOfTuple (setEntry outer key (.tuple (setEntry entries name (.string v)))), []⟩ := by
  by_cases empty : v = []
  · subst empty
    rcases closes with rfl | rfl
    · exact reading_utf8 _ fun _ => rfl
    · exact reading_utf8 _ fun _ => rfl
  · rcases closes with rfl | rfl
    · exact reading_manifestValue readable empty (show ')'.toNat ∈ valueTerminal by decide)
        fun _ => rfl
    · have blank : Reading _ _ ⟨.isEndOfTuple (setEntry entries name (.string v)),
          [.entry outer key]⟩ :=
        reading_manifestValue readable empty (show ' '.toNat ∈ valueTerminal by decide)
          fun _ => rfl
      rw [show utf8 " )" = encodeAll [' '.toNat] ++ utf8 ")" from rfl, ← append_assoc]
      exact blank.append (reading_utf8 ")" fun _ => rfl)

def entryText (entry : Bytes × Bytes) : Bytes :=
  manifestName entry.1 ++ utf8 ":" ++ manifestValue entry.2

def stringEntry (entry : Bytes × Bytes) : Bytes × ParsedValue :=
  (entry.1, .string entry.2)

/-- Entries that are read back: only the last value may be empty. -/
structure ReadableEntries (items : List (Bytes × Bytes)) : Prop where
  names : ∀ item ∈ items, ReadableName item.1
  values : ∀ item ∈ items, ReadableValue item.2
  ne_nil : ∀ item ∈ items.dropLast, item.2 ≠ []

theorem reading_entries {outer : Entries} {key : Bytes} {closing : String}
    (closes : IsClosing closing) {item : Bytes × Bytes} {items : List (Bytes × Bytes)}
    (readable : ReadableEntries (item :: items)) :
    Reading ⟨.isEndOfTuple entries, [.entry outer key]⟩
      (entryText item ++ (items.flatMap fun item => utf8 " " ++ entryText item) ++ utf8 closing)
      ⟨.isEndOfTuple (setEntry outer key
        (.tuple (setEntries entries ((item :: items).map stringEntry)))), []⟩ := by
  induction items generalizing item entries with
  | nil =>
    rw [flatMap_nil, append_nil, entryText, append_assoc]
    exact ((reading_manifestName (readable.names item mem_cons_self)).frame _).append
      (reading_lastValue (readable.values item mem_cons_self) closes)
  | cons next items ih =>
    have later : ReadableEntries (next :: items) :=
      ⟨(forall_mem_cons.mp readable.names).2,
        (forall_mem_cons.mp readable.values).2,
        (forall_mem_cons.mp readable.ne_nil).2⟩
    have blank : Reading _ _ ⟨.isEndOfTuple (setEntry entries item.1 (.string item.2)),
        [.entry outer key]⟩ :=
      reading_manifestValue (readable.values item mem_cons_self)
        (readable.ne_nil item mem_cons_self) (show ' '.toNat ∈ valueTerminal by decide)
        fun _ => rfl
    have read := ((reading_manifestName (readable.names item mem_cons_self)).frame _).append
      (blank.append (ih later))
    rw [flatMap_cons, entryText]
    simp only [append_assoc] at read ⊢
    exact read

/-! ### Directory trees -/

mutual

def ManifestNode.value : ManifestNode → ParsedValue
  | .file hostPath =>
    if hostPath ≠ [] then
      .tuple [(utf8 "contents", .tuple [(utf8 "host", .string hostPath)])]
    else .tuple [(utf8 "children", .tuple [])]
  | .dir children =>
    .tuple [(utf8 "children", .tuple (setEntries [] (sortByKey (childValues children))))]

def childValues : List (Bytes × ManifestNode) → Entries
  | [] => []
  | (key, child) :: children => (key, child.value) :: childValues children

end

theorem childValues_eq (children : List (Bytes × ManifestNode)) :
    childValues children = children.map fun entry => (entry.1, entry.2.value) := by
  induction children with
  | nil => rfl
  | cons entry children ih => rw [childValues, ih, map_cons]

theorem childTexts_eq (indent : Bytes) (children : List (Bytes × ManifestNode)) :
    childTexts indent children = children.map fun entry => (entry.1, entry.2.text indent) := by
  induction children with
  | nil => rfl
  | cons entry children ih => rw [childTexts, ih, map_cons]

theorem sortByKey_map {α β : Type} (change : α → β) (entries : List (Bytes × α)) :
    sortByKey (entries.map fun entry => (entry.1, change entry.2)) =
      (sortByKey entries).map fun entry => (entry.1, change entry.2) := by
  symm
  apply map_insertionSort
  intro first _ second _
  rfl

/-- A tree whose names and host paths are read back. -/
inductive ManifestNode.Readable : ManifestNode → Prop
  | file {hostPath : Bytes} (host : ReadableHost hostPath) : Readable (.file hostPath)
  | dir {children : List (Bytes × ManifestNode)} (distinct : (children.map Prod.fst).Nodup)
      (names : ∀ entry ∈ children, ReadableName entry.1)
      (nodes : ∀ entry ∈ children, Readable entry.2) : Readable (.dir children)

def IsBlank (indent : Bytes) : Prop :=
  ∃ n, indent = encodeAll (List.replicate n ' '.toNat)

theorem IsBlank.append {first second : Bytes} (left : IsBlank first) (right : IsBlank second) :
    IsBlank (first ++ second) := by
  obtain ⟨n, rfl⟩ := left
  obtain ⟨m, rfl⟩ := right
  exact ⟨n + m, by rw [← encodeAll_append, replicate_append_replicate]⟩

theorem isBlank_four : IsBlank (utf8 "    ") :=
  ⟨4, rfl⟩

theorem isBlank_eight : IsBlank (utf8 "        ") :=
  ⟨8, rfl⟩

theorem reading_blank (blank : IsBlank indent) :
    Reading ⟨.isEndOfTuple entries, frames⟩ indent ⟨.isEndOfTuple entries, frames⟩ := by
  obtain ⟨n, rfl⟩ := blank
  apply Runs.reading
  · induction n with
    | zero => exact fun _ => rfl
    | succ n ih => exact Runs.append (fun _ => rfl : Runs _ [' '.toNat] _) ih
  · intro c member
    rw [eq_of_mem_replicate member]
    exact toNat_lt ' '

theorem reading_directoryText {lines : Bytes} (blank : IsBlank indent)
    (reads : Reading ⟨.isEndOfTuple [], []⟩ lines ⟨.isEndOfTuple inner, []⟩) :
    Reading ⟨.parseValue false, [.entry entries name]⟩ (directoryText indent lines)
      ⟨.isEndOfTuple (setEntry entries name (.tuple [(utf8 "children", .tuple inner)])), []⟩ := by
  have wider := blank.append isBlank_four
  -- into the scope, through the lines, and out of it again
  have enter : Reading ⟨.parseValue false, [.entry entries name]⟩ (utf8 "(\n")
      ⟨.isEndOfTuple [], [.entry entries name]⟩ := reading_utf8 _ fun _ => rfl
  have descend : Reading ⟨.isEndOfTuple [], [.entry entries name]⟩
      (utf8 "children" ++ utf8 ":" ++ utf8 "(\n")
      ⟨.isEndOfTuple [], [.entry [] (utf8 "children"), .entry entries name]⟩ :=
    ((reading_plainName _ (by decide)).frame _).append (reading_utf8 _ fun _ => rfl)
  have ascend : Reading ⟨.isEndOfTuple inner, [.entry [] (utf8 "children"), .entry entries name]⟩
      (utf8 ")\n") ⟨.isEndOfTuple [(utf8 "children", .tuple inner)], [.entry entries name]⟩ :=
    reading_utf8 _ fun _ => rfl
  exact ((((((enter.append (reading_blank wider)).append descend).append (reads.frame _)).append
    (reading_blank wider)).append ascend).append (reading_blank blank)).append
    (reading_utf8 _ fun _ => rfl)

theorem reading_hostPath {hostPath : Bytes} (readable : ReadableHost hostPath) :
    Reading ⟨.quotedString .value [], []⟩ hostPath ⟨.quotedString .value hostPath, []⟩ := by
  obtain ⟨text, small, rfl⟩ := readable.isText
  have unescaped : text.flatMap Parser.escape = text := by
    have each : ∀ c ∈ text, Parser.escape c = [c] := by
      intro c member
      rw [Parser.escape, if_neg]
      rintro (rfl | rfl)
      · exact not_mem_of_containsAny readable.plain member (by decide) (by decide)
      · exact not_mem_of_containsAny readable.plain member (by decide) (by decide)
    rw [flatMap_congr each, flatMap_singleton']
  have runs := Parser.runs_quotedString .value [] text
  rw [unescaped] at runs
  exact runs.reading small

def Reads (node : ManifestNode) (indent : Bytes) : Prop :=
  ∀ entries name, Reading ⟨.parseValue false, [.entry entries name]⟩ (node.text indent)
    ⟨.isEndOfTuple (setEntry entries name node.value), []⟩

theorem reading_children (blank : IsBlank indent)
    {items : List (Bytes × ManifestNode)} (names : ∀ entry ∈ items, ReadableName entry.1)
    (reads : ∀ entry ∈ items, Reads entry.2 indent) :
    Reading ⟨.isEndOfTuple entries, []⟩
      (items.flatMap fun entry =>
        indent ++ manifestName entry.1 ++ utf8 ":" ++ entry.2.text indent)
      ⟨.isEndOfTuple (setEntries entries (items.map fun entry => (entry.1, entry.2.value))), []⟩ := by
  induction items generalizing entries with
  | nil => exact .nil _
  | cons entry items ih =>
    rw [forall_mem_cons] at names reads
    have read := (reading_blank blank).append ((reading_manifestName names.1).append
      ((reads.1 entries entry.1).append (ih names.2 reads.2)))
    rw [flatMap_cons]
    simp only [append_assoc] at read ⊢
    exact read

theorem writeEntries_childTexts (indent : Bytes) (children : List (Bytes × ManifestNode)) :
    writeEntries indent (childTexts indent children) =
      (sortByKey children).flatMap fun entry =>
        indent ++ manifestName entry.1 ++ utf8 ":" ++ entry.2.text indent := by
  rw [writeEntries, childTexts_eq, sortByKey_map, flatMap_map]

theorem mem_sortByKey {α : Type} {entries : List (Bytes × α)} {entry : Bytes × α} :
    entry ∈ sortByKey entries ↔ entry ∈ entries :=
  mem_insertionSort _

theorem reads_file {hostPath : Bytes} (host : ReadableHost hostPath) (blank : IsBlank indent) :
    Reads (.file hostPath) indent := by
  intro entries name
  by_cases empty : hostPath = []
  · subst empty
    exact reading_directoryText blank (.nil _)
  · have text : (ManifestNode.file hostPath).text indent =
        utf8 "(contents:(host:\"" ++ hostPath ++ utf8 "\"))\n" := if_pos empty
    have value : (ManifestNode.file hostPath).value =
        .tuple [(utf8 "contents", .tuple [(utf8 "host", .string hostPath)])] := if_pos empty
    have opened {frames : List Frame} : Reading ⟨.parseValue false, frames⟩ (utf8 "(")
        ⟨.isEndOfTuple [], frames⟩ := reading_utf8 _ fun _ => rfl
    rw [text, value, show utf8 "(contents:(host:\"" = utf8 "(" ++ (utf8 "contents" ++ utf8 ":") ++
      utf8 "(" ++ (utf8 "host" ++ utf8 ":") ++ utf8 "\"" from rfl]
    have inside := (((opened.append
      ((reading_plainName "contents" (by decide)).frame [.entry entries name])).append opened).append
      ((reading_plainName "host" (by decide)).frame _)).append
      (reading_utf8 "\"" fun _ => rfl : Reading _ _ ⟨.quotedString .value [], _⟩)
    exact (inside.append ((reading_hostPath host).frame _)).append (reading_utf8 _ fun _ => rfl)

variable {children : List (Bytes × ManifestNode)}

theorem reading_writeEntries (blank : IsBlank indent)
    (names : ∀ entry ∈ children, ReadableName entry.1)
    (reads : ∀ entry ∈ children, Reads entry.2 indent) :
    Reading ⟨.isEndOfTuple [], []⟩ (writeEntries indent (childTexts indent children))
      ⟨.isEndOfTuple (setEntries [] (sortByKey (childValues children))), []⟩ := by
  rw [writeEntries_childTexts, childValues_eq, sortByKey_map]
  apply reading_children blank
  · exact fun entry member => names entry (mem_sortByKey.mp member)
  · exact fun entry member => reads entry (mem_sortByKey.mp member)

theorem ManifestNode.Readable.reads {node : ManifestNode} (readable : node.Readable)
    (blank : IsBlank indent) : Reads node indent := by
  induction readable generalizing indent with
  | file host => exact reads_file host blank
  | dir _ names _ ih =>
    have wider := blank.append isBlank_eight
    intro entries name
    rw [ManifestNode.text, ManifestNode.value]
    exact reading_directoryText blank
      (reading_writeEntries wider names fun entry member => ih entry member wider)

end Jerboa.Image
