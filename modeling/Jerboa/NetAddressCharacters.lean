import Jerboa.NetAddress

/-!
# The characters of an address

Which characters the texts that `net.ParseIP` accepts consist of, and the shape
of those that are in dotted decimal notation.
-/

namespace NetAddress

open List

/-! ### Dotted decimal notation -/

/-- The octet being read by `parseIPv4Fields`: its digits have no leading
zero. -/
structure Octet (val digLen : Nat) : Prop where
  empty : digLen = 0 → val = 0
  one : digLen = 1 → val ≤ 9
  two : digLen = 2 → 10 ≤ val
  three : digLen = 3 → 100 ≤ val
  short : digLen ≤ 3

variable {c : Char} {s : List Char}

theorem decimalDigit_lt {digit : Nat} (isDigit : decimalDigit c = some digit) :
    digit ≤ 9 := by
  unfold decimalDigit at isDigit
  split at isDigit
  · rename_i range
    cases isDigit
    have upper : c.toNat ≤ '9'.toNat := range.2
    have nine : '9'.toNat = 57 := rfl
    have zero : '0'.toNat = 48 := rfl
    omega
  · simp at isDigit

theorem Octet.next {val digLen digit : Nat} (octet : Octet val digLen) (isDigit : digit ≤ 9)
    (noLeadingZero : ¬ (digLen = 1 ∧ val = 0)) (small : ¬ 255 < val * 10 + digit) :
    Octet (val * 10 + digit) (digLen + 1) := by
  obtain ⟨empty, one, two, three, short⟩ := octet
  constructor <;> omega

/-- What `parseIPv4Fields` accepts: digits and dots, one octet of at most three
digits for each field that is missing. -/
theorem shape_of_parseIPv4Fields {fields out : List UInt8} {val digLen : Nat}
    (octet : Octet val digLen) (few : fields.length ≤ 3)
    (parsed : parseIPv4Fields s fields val digLen = some out) :
    (∀ c ∈ s, (decimalDigit c).isSome ∨ c = '.') ∧ s.count '.' = 3 - fields.length ∧
      s.length + digLen ≤ 3 + 4 * (3 - fields.length) := by
  fun_induction parseIPv4Fields s fields val digLen
  case case2 missing =>
    have short := octet.short
    refine ⟨by simp, ?_, ?_⟩
    · rw [count_nil]
      omega
    · rw [length_nil]
      omega
  case case5 c rest _ _ _ digit isDigit noLeadingZero small ih =>
    have notDot : c ≠ '.' := by
      rintro rfl
      simp [decimalDigit] at isDigit
    obtain ⟨chars, dots, length⟩ :=
      ih (octet.next (decimalDigit_lt isDigit) noLeadingZero small) few parsed
    refine ⟨forall_mem_cons.mpr ⟨.inl (by simp [isDigit]), chars⟩, ?_, ?_⟩
    · rw [count_cons_of_ne notDot]
      exact dots
    · rw [length_cons]
      omega
  case case8 fields _ _ _ _ missing ih =>
    have start : Octet 0 0 := by constructor <;> simp
    have short := octet.short
    rw [length_append, length_singleton] at ih
    obtain ⟨chars, dots, length⟩ := ih start (by omega) parsed
    refine ⟨forall_mem_cons.mpr ⟨.inr rfl, chars⟩, ?_, ?_⟩
    · rw [count_cons_self]
      omega
    · rw [length_cons]
      omega
  all_goals cases parsed

/-! ### Hexadecimal notation -/

def isAddressChar (c : Char) : Bool :=
  (hexDigit c).isSome || c = ':' || c = '.'

theorem hexDigit_of_decimalDigit (isDigit : (decimalDigit c).isSome) :
    (hexDigit c).isSome := by
  unfold decimalDigit at isDigit
  split at isDigit
  · rename_i range
    simp [hexDigit, range]
  · simp at isDigit

theorem isAddressChar_of_parseIPv4Fields {out : List UInt8}
    (parsed : parseIPv4Fields s [] 0 0 = some out) : ∀ c ∈ s, isAddressChar c = true := by
  have start : Octet 0 0 := by constructor <;> simp
  intro c inside
  rcases (shape_of_parseIPv4Fields start (by simp) parsed).1 c inside with digit | dot
  · simp [isAddressChar, hexDigit_of_decimalDigit digit]
  · simp [isAddressChar, dot]

theorem isAddressChar_of_parseHexGroup {rest : List Char} {acc off acc' off' : Nat}
    (parsed : parseHexGroup s acc off = some (acc', off', rest))
    (later : ∀ c ∈ rest, isAddressChar c = true) : ∀ c ∈ s, isAddressChar c = true := by
  fun_induction parseHexGroup s acc off
  case case4 digit isDigit _ ih =>
    exact forall_mem_cons.mpr ⟨by simp [isAddressChar, isDigit], ih parsed⟩
  all_goals cases parsed
  all_goals exact later

theorem isAddressChar_of_parseIPv6Loop {fuel : Nat} {start scan : V6Scan}
    (parsed : parseIPv6Loop fuel start = some scan) (whole : scan.rest = []) :
    ∀ c ∈ start.rest, isAddressChar c = true := by
  have colon : isAddressChar ':' = true := by decide
  fun_induction parseIPv6Loop fuel start
  case case1 =>
    cases parsed
    simp [whole]
  case case6 quad _ _ =>
    obtain ⟨fields, quad, -⟩ := Option.map_eq_some_iff.mp parsed
    exact isAddressChar_of_parseIPv4Fields quad
  case case7 => exact isAddressChar_of_parseHexGroup (by assumption) (by simp)
  case' case11 => apply isAddressChar_of_parseHexGroup (by assumption)
  case' case12 ih | case13 ih =>
    have after := ih parsed
    apply isAddressChar_of_parseHexGroup (by assumption)
  case case11 | case12 | case13 => simp_all
  all_goals cases parsed

theorem isAddressChar_of_parseIPv6Body {bytes : List UInt8} (parsed : parseIPv6Body s = some bytes) : ∀ c ∈ s, isAddressChar c = true := by
  have colon : isAddressChar ':' = true := by decide
  have whole {scan : V6Scan} (expanded : expandEllipsis scan = some bytes) : scan.rest = [] := by
    by_contra more
    simp [expandEllipsis, more] at expanded
  unfold parseIPv6Body at parsed
  split at parsed
  · simp [colon]
  · obtain ⟨scan, loop, expanded⟩ := Option.bind_eq_some_iff.mp parsed
    have after := isAddressChar_of_parseIPv6Loop loop (whole expanded)
    simpa [colon] using after
  · obtain ⟨scan, loop, expanded⟩ := Option.bind_eq_some_iff.mp parsed
    exact isAddressChar_of_parseIPv6Loop loop (whole expanded)

/-! ### Accepted texts -/

section

variable (parsed : parseIP s ≠ none)

include parsed

theorem parseIP_cases :
    (∃ out, parseIPv4Fields s [] 0 0 = some out) ∨
      ':' ∈ s ∧ ∃ bytes, parseIPv6Body s = some bytes := by
  revert parsed
  fun_cases parseIP s
  case case1 addr isAddr noZone =>
    intro _
    revert isAddr
    fun_cases parseAddr s
    · intro isAddr
      obtain ⟨out, fields, -⟩ := Option.map_eq_some_iff.mp isAddr
      exact .inl ⟨out, fields⟩
    · rename_i firstColon
      intro isAddr
      refine .inr ⟨mem_of_find?_eq_some firstColon, ?_⟩
      revert isAddr
      fun_cases parseIPv6 s
      case case1 noPercent =>
        have whole : s.takeWhile (· ≠ '%') = s := by
          have parts := takeWhile_append_dropWhile (p := fun c => decide (c ≠ '%')) (l := s)
          rw [noPercent, append_nil] at parts
          exact parts
        intro isAddr
        obtain ⟨bytes, body, -⟩ := Option.map_eq_some_iff.mp isAddr
        exact ⟨bytes, whole ▸ body⟩
      case case3 someZone =>
        intro isAddr
        obtain ⟨bytes, -, rfl⟩ := Option.map_eq_some_iff.mp isAddr
        exact absurd noZone someZone
      all_goals nofun
    · nofun
  all_goals exact fun impossible => absurd rfl impossible

theorem isAddressChar_of_parseIP :
    ∀ c ∈ s, isAddressChar c = true := by
  rcases parseIP_cases parsed with ⟨out, fields⟩ | ⟨-, bytes, body⟩
  · exact isAddressChar_of_parseIPv4Fields fields
  · exact isAddressChar_of_parseIPv6Body body

theorem not_mem_of_parseIP (other : isAddressChar c = false) :
    c ∉ s := by
  intro inside
  simp [isAddressChar_of_parseIP parsed c inside] at other

theorem quad_of_parseIP (noColon : ':' ∉ s) :
    (∀ c ∈ s, (decimalDigit c).isSome ∨ c = '.') ∧ s.count '.' = 3 ∧ s.length ≤ 15 := by
  have start : Octet 0 0 := by constructor <;> simp
  rcases parseIP_cases parsed with ⟨out, fields⟩ | ⟨colon, -⟩
  · exact shape_of_parseIPv4Fields start (by simp) fields
  · exact absurd colon noColon

end

end NetAddress
