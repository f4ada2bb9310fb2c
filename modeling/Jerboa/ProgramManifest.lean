import Jerboa.VolumeManifest

/-!
# Program manifests

What `mkfs` reads of the program, its arguments and its environment.  A value
that starts a comment is not quoted, and an empty value is not written down, so
that both change what is read after them.
-/

namespace Jerboa.Image

open Utf8Text Kernel List

/-! ### Conditions -/

/-- Read as a comment: unquoted, and starting with the character of comments. -/
def StartsComment (special s : Bytes) : Prop :=
  containsAny s special = false ∧ s.head? = some hash

instance (special s : Bytes) : Decidable (StartsComment special s) :=
  inferInstanceAs (Decidable (_ ∧ _))

theorem readableName_of_valid {name : Bytes} (ne_nil : name ≠ []) (valid : IsValid name)
    (plain : ¬StartsComment manifestNameTerminals name) : ReadableName name :=
  ⟨ne_nil, fun _ => valid, fun free => ⟨valid.isText, fun head => plain ⟨free, head⟩⟩⟩

theorem readableValue_of_valid {v : Bytes} (valid : IsValid v)
    (plain : ¬StartsComment (manifestValueTerminals ++ utf8 "\"\\") v) : ReadableValue v :=
  ⟨fun _ => valid, fun free => ⟨valid.isText, fun head => plain ⟨free, head⟩⟩⟩

namespace BuildConfig

variable (cfg : BuildConfig)

def envEntries : List (Bytes × Bytes) :=
  (cfg.env.keys.insertionSort (· ≤ ·)).map fun k => (k, (cfg.env.lookup k).getD [])

def argEntries : List (Bytes × Bytes) :=
  ((cfg.progRef :: cfg.argv).zipIdx).map fun item => (utf8 (Nat.repr item.2), item.1)

/-- The strings of the configuration that the manifest is made for. -/
structure WellFormed (cwd : Option Bytes) : Prop where
  names : ∀ f ∈ cfg.files, ∀ part ∈ f.guestParts, ReadableName part
  hosts : ∀ f ∈ cfg.files, f.isDir = false → ReadableHost (filepathAbs cwd f.hostPath)
  program : IsValid cfg.progRef
  argv : ∀ v ∈ cfg.argv, IsValid v
  keys : ∀ k ∈ cfg.env.keys, k ≠ [] ∧ IsValid k
  values : ∀ k v, cfg.env.lookup k = some v → IsValid v
  diskSize : cfg.diskSize = []

/-- No file is in the way of a later one, nothing is read as a comment, and only
the last argument and the last value of the environment are empty. -/
structure Written : Prop where
  files : cfg.files.Pairwise File.LeavesWay
  argv : ∀ v ∈ cfg.argv, ¬StartsComment (manifestValueTerminals ++ utf8 "\"\\") v
  keys : ∀ k ∈ cfg.env.keys, ¬StartsComment manifestNameTerminals k
  values : ∀ entry ∈ cfg.envEntries,
    ¬StartsComment (manifestValueTerminals ++ utf8 "\"\\") entry.2
  someArg : ∀ v ∈ cfg.argv.dropLast, v ≠ []
  someValue : ∀ entry ∈ cfg.envEntries.dropLast, entry.2 ≠ []

structure Describes (root : ParsedValue) : Prop where
  program : root.get (utf8 "program") = some (.string cfg.progRef)
  arguments : cfg.argv ≠ [] → ∃ arguments : Entries,
    root.get (utf8 "arguments") = some (.tuple arguments) ∧
      ∀ key value, (ParsedValue.tuple arguments).get key = some value ↔
        ∃ i v, (cfg.progRef :: cfg.argv)[i]? = some v ∧ key = utf8 (Nat.repr i) ∧
          value = .string v
  environment : ∃ environment : Entries,
    root.get (utf8 "environment") = some (.tuple environment) ∧
      ∀ key, (ParsedValue.tuple environment).get key = (cfg.env.lookup key).map .string

end BuildConfig

/-! ### Indices as names -/

theorem digitByte_of_mem_repr {i : Nat} {byte : UInt8} (member : byte ∈ utf8 (Nat.repr i)) :
    ∃ n < 10, byte = UInt8.ofNat (0x30 + n) := by
  obtain ⟨c, inside, encoded⟩ := mem_flatMap.mp member
  obtain ⟨character, digit, rfl⟩ := mem_map.mp inside
  rw [Nat.repr_eq_ofList_toDigits, String.toList_ofList] at digit
  have isDigit := Nat.isDigit_of_mem_toDigits (by decide) (by decide) digit
  rw [Char.isDigit, Bool.and_eq_true, decide_eq_true_iff, decide_eq_true_iff] at isDigit
  have lower : 0x30 ≤ character.toNat := isDigit.1
  have upper : character.toNat ≤ 0x39 := isDigit.2
  rw [encode_of_ascii (by omega), mem_singleton] at encoded
  exact ⟨character.toNat - 0x30, by omega, by rw [encoded]; congr 1; omega⟩

theorem digitBytes_plain : ∀ n < 10, UInt8.ofNat (0x30 + n) ∉ manifestNameTerminals ∧
    UInt8.ofNat (0x30 + n) ≠ hash := by
  decide

theorem isPlainName_repr (i : Nat) : IsPlainName (utf8 (Nat.repr i)) := by
  have plain {byte : UInt8} (member : byte ∈ utf8 (Nat.repr i)) :
      byte ∉ manifestNameTerminals ∧ byte ≠ hash := by
    obtain ⟨n, small, rfl⟩ := digitByte_of_mem_repr member
    exact digitBytes_plain n small
  refine ⟨?_, ?_, ?_⟩
  · intro empty
    have same : utf8 (Nat.repr i) = utf8 "" := empty
    exact Nat.repr_ne_empty (utf8_injective same)
  · rw [containsAny, any_eq_false]
    intro byte member
    simpa using (plain member).1
  · intro head
    exact (plain (mem_of_mem_head? head)).2 rfl

theorem repr_injective : Function.Injective fun i => utf8 (Nat.repr i) := by
  intro i j same
  have digits : Nat.toDigits 10 i = Nat.toDigits 10 j := by
    have texts := congrArg String.toList (utf8_injective same)
    rwa [Nat.repr_eq_ofList_toDigits, Nat.repr_eq_ofList_toDigits, String.toList_ofList,
      String.toList_ofList] at texts
  rw [← Nat.ofDigitChars_ten_toDigits (n := i), digits, Nat.ofDigitChars_ten_toDigits]

/-! ### Reading a tuple of strings -/

def entriesText : List (Bytes × Bytes) → Bytes
  | [] => []
  | item :: items => entryText item ++ items.flatMap fun item => utf8 " " ++ entryText item

theorem flatMap_trailing (item : Bytes × Bytes) (items : List (Bytes × Bytes)) :
    ((item :: items).flatMap fun item => entryText item ++ utf8 " ") =
      entriesText (item :: items) ++ utf8 " " := by
  induction items generalizing item with
  | nil => simp [entriesText]
  | cons next items ih =>
    rw [flatMap_cons, ih next]
    simp [entriesText, append_assoc]

variable {items : List (Bytes × Bytes)} {entries : Entries}

def withStrings (entries : Entries) (name : String) (items : List (Bytes × Bytes)) : Entries :=
  setEntry entries (utf8 name) (.tuple (setEntries [] (items.map stringEntry)))

theorem reading_strings {key : Bytes} {closing : String} (closes : IsClosing closing)
    (readable : ReadableEntries items) :
    Reading ⟨.isEndOfTuple [], [.entry entries key]⟩ (entriesText items ++ utf8 closing)
      ⟨.isEndOfTuple (setEntry entries key
        (.tuple (setEntries [] (items.map stringEntry)))), []⟩ := by
  cases items with
  | nil =>
    rcases closes with rfl | rfl
    · exact reading_utf8 _ fun _ => rfl
    · exact reading_utf8 _ fun _ => rfl
  | cons item items => exact reading_entries closes readable

theorem reading_section (name : String) {closing : String} (plain : IsPlainName (utf8 name))
    (closes : IsClosing closing) (readable : ReadableEntries items) :
    Reading ⟨.isEndOfTuple entries, []⟩ (utf8 "    " ++ (utf8 name ++ utf8 ":") ++ utf8 "(" ++
        (entriesText items ++ utf8 closing) ++ utf8 "\n")
      ⟨.isEndOfTuple (withStrings entries name items), []⟩ :=
  ((((reading_blank isBlank_four).append (reading_plainName name plain)).append
    (reading_utf8 "(" fun _ => rfl)).append (reading_strings closes readable)).append
    (reading_utf8 "\n" fun _ => rfl)

/-! ### The sections of a program manifest -/

namespace BuildConfig

variable {cfg : BuildConfig} {cwd : Option Bytes}

theorem argumentsText_eq (someArg : cfg.argv ≠ []) :
    cfg.argumentsText = utf8 "    " ++ (utf8 "arguments" ++ utf8 ":") ++ utf8 "(" ++
      (entriesText cfg.argEntries ++ utf8 ")") ++ utf8 "\n" := by
  have entry (v : Bytes) (i : Nat) :
      entryText (utf8 (Nat.repr i), v) = utf8 (Nat.repr i) ++ utf8 ":" ++ manifestValue v := by
    rw [entryText, (isPlainName_repr i).manifestName]
  rw [argumentsText, if_pos someArg, argEntries, zipIdx_cons, map_cons, entriesText,
    flatMap_map]
  simp only [entry]
  rw [show utf8 "    arguments:(0:" = utf8 "    " ++ (utf8 "arguments" ++ utf8 ":") ++ utf8 "(" ++
      (utf8 (Nat.repr 0) ++ utf8 ":") from rfl, show utf8 ")\n" = utf8 ")" ++ utf8 "\n" from rfl]
  simp only [append_assoc, Nat.zero_add]

def closing (cfg : BuildConfig) : String :=
  if cfg.envEntries = [] then ")" else " )"

theorem isClosing_closing (cfg : BuildConfig) : IsClosing cfg.closing := by
  unfold closing IsClosing
  split
  · exact .inl rfl
  · exact .inr rfl

theorem environmentText_eq :
    cfg.environmentText = utf8 "    " ++ (utf8 "environment" ++ utf8 ":") ++ utf8 "(" ++
      (entriesText cfg.envEntries ++ utf8 cfg.closing) ++ utf8 "\n" := by
  have body : ((cfg.env.keys.insertionSort (· ≤ ·)).flatMap fun k =>
      manifestName k ++ utf8 ":" ++ manifestValue ((cfg.env.lookup k).getD []) ++ utf8 " ") =
      cfg.envEntries.flatMap fun item => entryText item ++ utf8 " " := by
    rw [envEntries, flatMap_map]
    rfl
  rw [environmentText, body, closing, show utf8 "    environment:(" =
      utf8 "    " ++ (utf8 "environment" ++ utf8 ":") ++ utf8 "(" from rfl,
    show utf8 ")\n" = utf8 ")" ++ utf8 "\n" from rfl]
  cases entries : cfg.envEntries with
  | nil => simp [entriesText]
  | cons item items =>
    rw [flatMap_trailing, if_neg (by simp), show utf8 " )" = utf8 " " ++ utf8 ")" from rfl]
    simp only [append_assoc]

theorem progRef_readable (wellFormed : cfg.WellFormed cwd) : ReadableValue cfg.progRef := by
  apply readableValue_of_valid wellFormed.program
  rintro ⟨-, head⟩
  have slashed : slash = hash := Option.some.inj head
  exact absurd slashed (by decide)

theorem argEntries_readable (wellFormed : cfg.WellFormed cwd) (written : cfg.Written) :
    ReadableEntries cfg.argEntries := by
  have element {v : Bytes} {i : Nat} (member : (v, i) ∈ (cfg.progRef :: cfg.argv).zipIdx) :
      v ∈ cfg.progRef :: cfg.argv := (mem_zipIdx' member).2 ▸ getElem_mem _
  refine ⟨?_, ?_, ?_⟩
  · intro item member
    obtain ⟨⟨v, i⟩, -, rfl⟩ := mem_map.mp member
    exact (isPlainName_repr i).readable (isText_utf8 _)
  · intro item member
    obtain ⟨⟨v, i⟩, inside, rfl⟩ := mem_map.mp member
    rcases mem_cons.mp (element inside) with rfl | arg
    · exact progRef_readable wellFormed
    · exact readableValue_of_valid (wellFormed.argv v arg) (written.argv v arg)
  · intro item member
    have values : cfg.argEntries.map Prod.snd = cfg.progRef :: cfg.argv := by
      rw [argEntries, map_map]
      exact zipIdx_map_fst 0 _
    have early : item.2 ∈ (cfg.progRef :: cfg.argv).dropLast := by
      rw [← values, ← map_dropLast]
      exact mem_map_of_mem member
    cases args : cfg.argv with
    | nil => simp [args] at early
    | cons first rest =>
      rw [args, dropLast_cons_cons] at early
      rcases mem_cons.mp early with isProgram | arg
      · rw [isProgram]
        exact cons_ne_nil _ _
      · exact written.someArg item.2 (args ▸ arg)

theorem envEntries_readable (wellFormed : cfg.WellFormed cwd) (written : cfg.Written) :
    ReadableEntries cfg.envEntries := by
  refine ⟨?_, ?_, written.someValue⟩
  · intro item member
    obtain ⟨k, inside, rfl⟩ := mem_map.mp member
    have key := (mem_insertionSort _).mp inside
    exact readableName_of_valid (wellFormed.keys k key).1 (wellFormed.keys k key).2
      (written.keys k key)
  · intro item member
    refine readableValue_of_valid ?_ (written.values item member)
    obtain ⟨k, inside, rfl⟩ := mem_map.mp member
    have key := (mem_insertionSort _).mp inside
    obtain ⟨v, found⟩ := Option.isSome_iff_exists.mp (AList.lookup_isSome.mpr key)
    change IsValid ((cfg.env.lookup k).getD [])
    rw [found]
    exact wellFormed.values k v found

theorem nodup_argEntries : (cfg.argEntries.map Prod.fst).Nodup := by
  rw [argEntries, map_map]
  have indices : ((cfg.progRef :: cfg.argv).zipIdx.map Prod.snd).Nodup := by
    rw [zipIdx_map_snd]
    exact nodup_range'
  have mapped := indices.map repr_injective
  rwa [map_map] at mapped

theorem nodup_envEntries : (cfg.envEntries.map Prod.fst).Nodup := by
  have keys : cfg.envEntries.map Prod.fst = cfg.env.keys.insertionSort (· ≤ ·) := by
    rw [envEntries, map_map]
    exact map_id _
  rw [keys]
  exact (perm_insertionSort _ _).nodup_iff.mpr cfg.env.nodupKeys

theorem get_withStrings_tuple {items : List (Bytes × Bytes)} (distinct : (items.map Prod.fst).Nodup)
    (key : Bytes) :
    (ParsedValue.tuple (setEntries [] (items.map stringEntry))).get key =
      (ParsedValue.tuple (items.map stringEntry)).get key := by
  have names : ((items.map stringEntry).map Prod.fst).Nodup := by
    rw [map_map]
    exact distinct
  rw [get_tuple_setEntries names]
  exact Option.or_none

theorem get_arguments (key : Bytes) (value : ParsedValue) :
    (ParsedValue.tuple (setEntries [] (cfg.argEntries.map stringEntry))).get key = some value ↔
      ∃ i v, (cfg.progRef :: cfg.argv)[i]? = some v ∧ key = utf8 (Nat.repr i) ∧
        value = .string v := by
  have names : ((cfg.argEntries.map stringEntry).map Prod.fst).Nodup := by
    rw [map_map]
    exact nodup_argEntries
  rw [get_withStrings_tuple nodup_argEntries, get_tuple_eq_some names]
  constructor
  · intro member
    obtain ⟨item, inside, same⟩ := mem_map.mp member
    obtain ⟨⟨v, i⟩, element, rfl⟩ := mem_map.mp inside
    cases same
    exact ⟨i, v, mem_zipIdx_iff_getElem?.mp element, rfl, rfl⟩
  · rintro ⟨i, v, element, rfl, rfl⟩
    exact mem_map.mpr ⟨(utf8 (Nat.repr i), v), mem_map.mpr
      ⟨(v, i), mem_zipIdx_iff_getElem?.mpr element, rfl⟩, rfl⟩

theorem get_environment (key : Bytes) :
    (ParsedValue.tuple (setEntries [] (cfg.envEntries.map stringEntry))).get key =
      (cfg.env.lookup key).map .string := by
  have names : ((cfg.envEntries.map stringEntry).map Prod.fst).Nodup := by
    rw [map_map]
    exact nodup_envEntries
  ext value
  rw [get_withStrings_tuple nodup_envEntries, get_tuple_eq_some names, Option.map_eq_some_iff]
  constructor
  · intro member
    obtain ⟨item, inside, same⟩ := mem_map.mp member
    obtain ⟨k, sorted, rfl⟩ := mem_map.mp inside
    cases same
    have key := (mem_insertionSort _).mp sorted
    obtain ⟨v, found⟩ := Option.isSome_iff_exists.mp (AList.lookup_isSome.mpr key)
    exact ⟨v, found, by rw [found]; rfl⟩
  · rintro ⟨v, found, rfl⟩
    have isKey : key ∈ cfg.env.keys := AList.lookup_isSome.mp (by rw [found]; rfl)
    refine mem_map.mpr ⟨(key, v), mem_map.mpr ⟨key, ?_, by rw [found]; rfl⟩, rfl⟩
    exact (mem_insertionSort _).mpr isKey

/-! ### Reading a program manifest -/

theorem reading_program (wellFormed : cfg.WellFormed cwd) :
    Reading ⟨.isEndOfTuple entries, []⟩ (utf8 "    " ++ (utf8 "program" ++ utf8 ":") ++
        (manifestValue cfg.progRef ++ utf8 "\n"))
      ⟨.isEndOfTuple (setEntry entries (utf8 "program") (.string cfg.progRef)), []⟩ :=
  ((reading_blank isBlank_four).append (reading_plainName "program" (by decide))).append
    (reading_manifestValue (progRef_readable wellFormed) (cons_ne_nil _ _)
      (show '\n'.toNat ∈ valueTerminal by decide) fun _ => rfl)

def withArguments (cfg : BuildConfig) (entries : Entries) : Entries :=
  if cfg.argv ≠ [] then withStrings entries "arguments" cfg.argEntries else entries

theorem reading_argumentsText (wellFormed : cfg.WellFormed cwd) (written : cfg.Written) :
    Reading ⟨.isEndOfTuple entries, []⟩ cfg.argumentsText
      ⟨.isEndOfTuple (cfg.withArguments entries), []⟩ := by
  by_cases someArg : cfg.argv ≠ []
  · rw [argumentsText_eq someArg, withArguments, if_pos someArg]
    exact reading_section "arguments" (by decide) (.inl rfl)
      (argEntries_readable wellFormed written)
  · rw [argumentsText, if_neg someArg, withArguments, if_neg someArg]
    exact .nil _

theorem reading_environmentText (wellFormed : cfg.WellFormed cwd) (written : cfg.Written) :
    Reading ⟨.isEndOfTuple entries, []⟩ cfg.environmentText
      ⟨.isEndOfTuple (withStrings entries "environment" cfg.envEntries), []⟩ := by
  rw [environmentText_eq]
  exact reading_section "environment" (by decide) cfg.isClosing_closing
    (envEntries_readable wellFormed written)

def rootEntries (cfg : BuildConfig) (children : List (Bytes × ManifestNode)) : Entries :=
  withStrings (cfg.withArguments
    (setEntry (childrenEntry children) (utf8 "program") (.string cfg.progRef)))
    "environment" cfg.envEntries

theorem describes_rootEntries (children : List (Bytes × ManifestNode)) :
    cfg.Describes (.tuple (cfg.rootEntries children)) := by
  have names : utf8 "program" ≠ utf8 "environment" ∧ utf8 "program" ≠ utf8 "arguments" ∧
      utf8 "arguments" ≠ utf8 "environment" := by
    decide
  refine ⟨?_, ?_, ?_⟩
  · rw [rootEntries, withStrings, get_tuple_setEntry, if_neg names.1, withArguments]
    split
    · rw [withStrings, get_tuple_setEntry, if_neg names.2.1, get_tuple_setEntry, if_pos rfl]
    · rw [get_tuple_setEntry, if_pos rfl]
  · intro someArg
    refine ⟨setEntries [] (cfg.argEntries.map stringEntry), ?_, get_arguments⟩
    rw [rootEntries, withStrings, get_tuple_setEntry, if_neg names.2.2, withArguments,
      if_pos someArg, withStrings, get_tuple_setEntry, if_pos rfl]
  · refine ⟨setEntries [] (cfg.envEntries.map stringEntry), ?_, get_environment⟩
    rw [rootEntries, withStrings, get_tuple_setEntry, if_pos rfl]

end BuildConfig

open BuildConfig in
/-- A program manifest is read back as its configuration. -/
theorem program_manifest_read {cwd : Option Bytes} {cfg : BuildConfig}
    (wellFormed : cfg.WellFormed cwd) (written : cfg.Written) :
    ∃ text root, buildManifest cwd cfg = some text ∧
      (tupleParser.feed text).finished = [root] ∧ (tupleParser.feed text).errors = [] ∧
      cfg.Describes root := by
  have nothing : ∀ path, (newManifestNode.fileAt path).isSome → ∀ g ∈ cfg.files,
      path <+: g.guestParts → path = g.guestParts := by
    intro path occupied
    simp [fileAt_newManifestNode] at occupied
  obtain ⟨node, inserted, hosts⟩ : ∃ root,
      cfg.files.foldlM (insertEntry cwd) newManifestNode = some root ∧ _ :=
    foldlM_insertEntry written.files nothing
  have readable : node.Readable := by
    apply (named_foldlM named_newManifestNode wellFormed.names inserted).readable
    intro path hostPath found
    rcases hosts path hostPath found with old | ⟨f, member, isFile, rfl⟩
    · simp [fileAt_newManifestNode] at old
    · exact wellFormed.hosts f member isFile
  obtain ⟨children, rfl⟩ := exists_dir_foldlM inserted
  have reading := (((reading_childrenSection readable).append (reading_program wellFormed)).append
    (reading_argumentsText wellFormed written)).append (reading_environmentText wellFormed written)
  have parsed : tupleParser.feed _ = { finished := [.tuple (cfg.rootEntries children)], .. } :=
    reading.feed_closed
  have text : buildManifest cwd cfg = some (utf8 "(\n    children:(\n" ++
      writeManifestChildren (utf8 "        ") (.dir children) ++ utf8 "    )\n" ++
        (utf8 "    " ++ (utf8 "program" ++ utf8 ":") ++ (manifestValue cfg.progRef ++ utf8 "\n")) ++
        cfg.argumentsText ++ cfg.environmentText ++ utf8 ")") := by
    rw [buildManifest, inserted, wellFormed.diskSize,
      show utf8 "    )\n    program:" = utf8 "    )\n" ++ (utf8 "    " ++
        (utf8 "program" ++ utf8 ":")) from rfl]
    simp [append_assoc]
  refine ⟨_, .tuple (cfg.rootEntries children), text, ?_, ?_, describes_rootEntries children⟩
  · rw [parsed]
  · rw [parsed]

def program (first second value : String) : BuildConfig :=
  { binaryPath := utf8 "/out/app"
    programPath := []
    pkgFiles := []
    entrypoint := []
    args := [utf8 first, utf8 second]
    env := AList.singleton (utf8 "HOME") (utf8 value)
    diskSize := [] }

theorem program_wellFormed (first second value : String) :
    (program first second value).WellFormed none := by
  have parts : File.guestParts { hostPath := utf8 "/out/app", guestPath := utf8 "program" } =
      [utf8 "program"] := by
    decide +kernel
  have host : filepathAbs none (utf8 "/out/app") = utf8 "/out/app" := by decide +kernel
  refine ⟨?_, ?_, isValid_utf8 "/program", ?_, ?_, ?_, rfl⟩
  · intro f member
    obtain rfl := mem_singleton.mp member
    change ∀ part ∈ File.guestParts { hostPath := utf8 "/out/app", guestPath := utf8 "program" },
      ReadableName part
    rw [parts, forall_mem_singleton]
    exact (show IsPlainName (utf8 "program") by decide).readable (isText_utf8 _)
  · intro f member _
    obtain rfl := mem_singleton.mp member
    change ReadableHost (filepathAbs none (utf8 "/out/app"))
    rw [host]
    exact ⟨isText_utf8 _, by decide⟩
  · intro v member
    rcases mem_pair.mp member with rfl | rfl
    · exact isValid_utf8 first
    · exact isValid_utf8 second
  · intro k member
    obtain rfl := mem_singleton.mp member
    exact ⟨show utf8 "HOME" ≠ [] by decide, isValid_utf8 "HOME"⟩
  · intro k v found
    have entry := AList.mem_lookup_iff.mp found
    obtain ⟨-, same⟩ := Sigma.mk.inj (mem_singleton.mp entry)
    exact eq_of_heq same ▸ isValid_utf8 value

theorem program_manifest_read_app :
    ∃ text root, buildManifest none (program "-c" "two words" "") = some text ∧
      (tupleParser.feed text).finished = [root] ∧ (tupleParser.feed text).errors = [] ∧
      (program "-c" "two words" "").Describes root := by
  apply program_manifest_read (program_wellFormed _ _ _)
  exact ⟨pairwise_singleton _ _, by decide +kernel, by decide +kernel, by decide +kernel,
    by decide, by decide⟩

/-- An empty argument takes the one after it as its value. -/
theorem program_manifest_misread : (program "" "b" "").WellFormed none ∧
    ¬∃ text root, buildManifest none (program "" "b" "") = some text ∧
      (tupleParser.feed text).finished = [root] ∧ (tupleParser.feed text).errors = [] ∧
      (program "" "b" "").Describes root := by
  refine ⟨program_wellFormed _ _ _, ?_⟩
  rintro ⟨text, root, built, finished, -, describes⟩
  have read : ((buildManifest none (program "" "b" "")).map fun text =>
      (tupleParser.feed text).finished.map fun root =>
        ((root.get (utf8 "arguments")).bind (·.get (utf8 "1"))).bind stringText) =
      some [some (utf8 "2:b")] := by
    decide +kernel
  obtain ⟨arguments, found, elements⟩ := describes.arguments (cons_ne_nil _ _)
  have first := (elements (utf8 "1") (.string [])).mpr ⟨1, [], rfl, rfl, rfl⟩
  rw [built, Option.map_some, finished, map_singleton, found, Option.bind_some, first] at read
  exact absurd read (by decide)

end Jerboa.Image
