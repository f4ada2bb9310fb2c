import Mathlib.Data.List.Basic

/-!
# IP addresses and CIDR blocks

The part of Go's `net` and `net/netip` packages that the network store uses:
textual addresses in both families, CIDR notation, masking and containment.
Addresses and masks are byte slices of length 4 or 16, as in Go, and every
function follows the library's byte loops.
-/

namespace NetAddress

abbrev IP := List UInt8

abbrev IPMask := List UInt8

structure IPNet where
  ip : IP
  mask : IPMask
deriving DecidableEq, Repr

/-- `netip.Addr`: an IPv4 address, or an IPv6 address with a zone. -/
inductive Addr
  | v4 (bytes : List UInt8)
  | v6 (bytes : List UInt8) (zone : List Char)
deriving DecidableEq, Repr

def v4InV6Prefix : List UInt8 :=
  [0, 0, 0, 0, 0, 0, 0, 0, 0, 0, 255, 255]

def Addr.bitLen : Addr → Nat
  | .v4 _ => 32
  | .v6 _ _ => 128

def Addr.as16 : Addr → IP
  | .v4 bytes => v4InV6Prefix ++ bytes
  | .v6 bytes _ => bytes

def Addr.zone : Addr → List Char
  | .v4 _ => []
  | .v6 _ zone => zone

def to4 (ip : IP) : Option IP :=
  if ip.length = 4 then some ip
  else if ip.length = 16 ∧ ip.take 12 = v4InV6Prefix then some (ip.drop 12)
  else none

/-! ### Parsing -/

def decimalDigit (c : Char) : Option Nat :=
  if '0' ≤ c ∧ c ≤ '9' then some (c.toNat - '0'.toNat) else none

def hexDigit (c : Char) : Option Nat :=
  if '0' ≤ c ∧ c ≤ '9' then some (c.toNat - '0'.toNat)
  else if 'a' ≤ c ∧ c ≤ 'f' then some (c.toNat - 'a'.toNat + 10)
  else if 'A' ≤ c ∧ c ≤ 'F' then some (c.toNat - 'A'.toNat + 10)
  else none

/-- The loop of `netip.parseIPv4Fields`: `fields` are the octets already
closed by a dot, `val` and `digLen` the octet being read.  A dot that follows
no digit of its own octet, or that ends the text, is refused. -/
def parseIPv4Fields : List Char → (fields : List UInt8) →
    (val digLen : Nat) → Option (List UInt8)
  | [], fields, val, _ =>
    if fields.length < 3 then none else some (fields ++ [UInt8.ofNat val])
  | c :: rest, fields, val, digLen =>
    match decimalDigit c with
    | some digit =>
      if digLen = 1 ∧ val = 0 then none
      else if 255 < val * 10 + digit then none
      else parseIPv4Fields rest fields (val * 10 + digit) (digLen + 1)
    | none =>
      if c = '.' then
        if digLen = 0 ∨ rest = [] then none
        else if fields.length = 3 then none
        else parseIPv4Fields rest (fields ++ [UInt8.ofNat val]) 0 0
      else none

def parseIPv4 (s : List Char) : Option Addr :=
  (parseIPv4Fields s [] 0 0).map Addr.v4

/-- One hexadecimal group: its value, its number of digits and the text after
it.  More than four digits are refused. -/
def parseHexGroup : List Char → (acc off : Nat) →
    Option (Nat × Nat × List Char)
  | [], acc, off => some (acc, off, [])
  | c :: rest, acc, off =>
    match hexDigit c with
    | none => some (acc, off, c :: rest)
    | some digit =>
      if 3 < off then none
      else parseHexGroup rest (acc * 16 + digit) (off + 1)

/-- The state of the loop of `netip.parseIPv6`: the bytes written so far, the
position of the ellipsis and the text still to be read. -/
structure V6Scan where
  bytes : List UInt8
  ellipsis : Option Nat
  rest : List Char

/-- The loop of `netip.parseIPv6`, one hexadecimal group at a time; each turn
writes two bytes, so eight turns fill an address. -/
def parseIPv6Loop : (fuel : Nat) → V6Scan → Option V6Scan
  | 0, scan => some scan
  | fuel + 1, ⟨bytes, ellipsis, s⟩ =>
    match parseHexGroup s 0 0 with
    | none => none
    | some (acc, off, rest) =>
      if off = 0 then none
      else if rest.head? = some '.' then
        -- a trailing dotted quad takes the last four bytes
        if ellipsis = none ∧ bytes.length ≠ 12 then none
        else if 16 < bytes.length + 4 then none
        else (parseIPv4Fields s [] 0 0).map fun fields =>
          ⟨bytes ++ fields, ellipsis, []⟩
      else
        let bytes := bytes ++ [UInt8.ofNat (acc / 256), UInt8.ofNat acc]
        match rest with
        | [] => some ⟨bytes, ellipsis, []⟩
        | [_] => none
        | colon :: next :: rest =>
          if colon ≠ ':' then none
          else if next = ':' then
            if ellipsis ≠ none then none
            else if rest = [] then some ⟨bytes, some bytes.length, []⟩
            else parseIPv6Loop fuel ⟨bytes, some bytes.length, rest⟩
          else parseIPv6Loop fuel ⟨bytes, ellipsis, next :: rest⟩

/-- Zero bytes replace the ellipsis; without one the address must be full, and
with one it must not be. -/
def expandEllipsis (scan : V6Scan) : Option (List UInt8) :=
  if scan.rest ≠ [] then none
  else if scan.bytes.length < 16 then
    scan.ellipsis.map fun position =>
      scan.bytes.take position ++
        List.replicate (16 - scan.bytes.length) 0 ++ scan.bytes.drop position
  else if scan.ellipsis = none then some scan.bytes
  else none

/-- `netip.parseIPv6`, the zone already split off. -/
def parseIPv6Body (s : List Char) : Option (List UInt8) :=
  match s with
  | ':' :: ':' :: [] => some (List.replicate 16 0)
  | ':' :: ':' :: rest => (parseIPv6Loop 8 ⟨[], some 0, rest⟩).bind expandEllipsis
  | s => (parseIPv6Loop 8 ⟨[], none, s⟩).bind expandEllipsis

def parseIPv6 (s : List Char) : Option Addr :=
  let address := s.takeWhile (· ≠ '%')
  match s.dropWhile (· ≠ '%') with
  | [] => (parseIPv6Body address).map fun bytes => Addr.v6 bytes []
  | _ :: zone =>
    if zone = [] then none
    else (parseIPv6Body address).map fun bytes => Addr.v6 bytes zone

/-- `netip.ParseAddr`: the first dot, colon or percent sign decides. -/
def parseAddr (s : List Char) : Option Addr :=
  match s.find? fun c => c = '.' ∨ c = ':' ∨ c = '%' with
  | some '.' => parseIPv4 s
  | some ':' => parseIPv6 s
  | _ => none

def parseIP (s : List Char) : Option IP :=
  match parseAddr s with
  | some addr => if addr.zone = [] then some addr.as16 else none
  | none => none

/-- `net.dtoi` on a text that must be read to its end. -/
def dtoi : List Char → (n digits : Nat) → Option Nat
  | [], n, digits => if digits = 0 then none else some n
  | c :: rest, n, digits =>
    match decimalDigit c with
    | none => none
    | some digit =>
      if 0xFFFFFF ≤ n * 10 + digit then none
      else dtoi rest (n * 10 + digit) (digits + 1)

/-! ### Masks and blocks -/

def maskByte (n : Nat) : UInt8 :=
  ~~~ ((255 : UInt8) >>> UInt8.ofNat n)

/-- The loop of `net.CIDRMask` over the bytes still to be written. -/
def cidrMaskBytes : (length ones : Nat) → IPMask
  | 0, _ => []
  | length + 1, ones =>
    if 8 ≤ ones then 255 :: cidrMaskBytes length (ones - 8)
    else maskByte ones :: cidrMaskBytes length 0

def cidrMask (ones bits : Nat) : IPMask :=
  cidrMaskBytes (bits / 8) ones

def applyMask (ip : IP) (mask : IPMask) : Option IP :=
  let mask :=
    if mask.length = 16 ∧ ip.length = 4 ∧ (mask.take 12).all (· = 255) then
      mask.drop 12
    else mask
  let ip :=
    if mask.length = 4 ∧ ip.length = 16 ∧ ip.take 12 = v4InV6Prefix then
      ip.drop 12
    else ip
  if ip.length = mask.length then some (List.zipWith (· &&& ·) ip mask)
  else none

def parseCIDR (s : List Char) : Option IPNet :=
  match s.dropWhile (· ≠ '/') with
  | [] => none
  | _ :: maskText =>
    match parseAddr (s.takeWhile (· ≠ '/')), dtoi maskText 0 0 with
    | some addr, some n =>
      if addr.zone ≠ [] ∨ addr.bitLen < n then none
      else
        let mask := cidrMask n addr.bitLen
        (applyMask addr.as16 mask).map fun ip => ⟨ip, mask⟩
    | _, _ => none

def networkNumberAndMask (block : IPNet) : Option (IP × IPMask) :=
  match to4 block.ip with
  | some ip =>
    if block.mask.length = 4 then some (ip, block.mask)
    else if block.mask.length = 16 then some (ip, block.mask.drop 12)
    else none
  | none =>
    if block.ip.length = 16 ∧ block.mask.length = 16 then
      some (block.ip, block.mask)
    else none

def IPNet.contains (block : IPNet) (ip : IP) : Bool :=
  match networkNumberAndMask block with
  | none => false
  | some (number, mask) =>
    let ip := (to4 ip).getD ip
    ip.length = number.length &&
      List.zipWith (· &&& ·) number mask = List.zipWith (· &&& ·) ip mask

/-! ### Printing -/

def digitChar (n : Nat) : Char :=
  Char.ofNat ('0'.toNat + n)

/-- `strconv.Itoa` on numbers below a thousand, the only ones printed here. -/
def decimal (n : Nat) : List Char :=
  if n < 10 then [digitChar n]
  else if n < 100 then [digitChar (n / 10), digitChar (n % 10)]
  else [digitChar (n / 100), digitChar (n / 10 % 10), digitChar (n % 10)]

def dotted (bytes : List UInt8) : List Char :=
  List.intercalate ['.'] (bytes.map fun byte => decimal byte.toNat)

def hexChar (n : Nat) : Char :=
  if n < 10 then digitChar n else Char.ofNat ('a'.toNat + (n - 10))

/-- `netip.appendHex`: no leading zeros. -/
def hexGroup (n : Nat) : List Char :=
  if n < 16 then [hexChar n]
  else if n < 256 then [hexChar (n / 16), hexChar (n % 16)]
  else if n < 4096 then
    [hexChar (n / 256), hexChar (n / 16 % 16), hexChar (n % 16)]
  else
    [hexChar (n / 4096), hexChar (n / 256 % 16), hexChar (n / 16 % 16),
      hexChar (n % 16)]

def v6u16 (ip : IP) (i : Nat) : Nat :=
  (ip.getD (2 * i) 0).toNat * 256 + (ip.getD (2 * i + 1) 0).toNat

def zeroRunEnd (ip : IP) : (fuel i : Nat) → Nat
  | 0, i => i
  | fuel + 1, i =>
    if i < 8 ∧ v6u16 ip i = 0 then zeroRunEnd ip fuel (i + 1) else i

def zeroRun (ip : IP) : Option (Nat × Nat) :=
  (List.range 8).foldl (fun best i =>
    let j := zeroRunEnd ip 8 i
    let bestLength := match best with
      | none => 0
      | some (first, last) => last - first
    if 2 ≤ j - i ∧ bestLength < j - i then some (i, j) else best) none

/-- `netip.Addr.appendTo6` from group `i` on. -/
def appendTo6 (ip : IP) (run : Option (Nat × Nat)) : (fuel i : Nat) → List Char
  | 0, _ => []
  | fuel + 1, i =>
    if 8 ≤ i then []
    else
      match run with
      | some (first, last) =>
        if i = first then
          if 8 ≤ last then [':', ':']
          else [':', ':'] ++ hexGroup (v6u16 ip last) ++
            appendTo6 ip run fuel (last + 1)
        else
          (if 0 < i then [':'] else []) ++ hexGroup (v6u16 ip i) ++
            appendTo6 ip run fuel (i + 1)
      | none =>
        (if 0 < i then [':'] else []) ++ hexGroup (v6u16 ip i) ++
          appendTo6 ip run fuel (i + 1)

/-- `net.IP.String` for addresses of four or sixteen bytes. -/
def ipString (ip : IP) : List Char :=
  match to4 ip with
  | some ip4 => dotted ip4
  | none => if ip = [] then "<nil>".toList else appendTo6 ip (zeroRun ip) 8 0

/-- `net.simpleMaskLength`: the leading ones of a mask that has no other. -/
def simpleMaskLength : IPMask → Option Nat
  | [] => some 0
  | byte :: rest =>
    if byte = 255 then (simpleMaskLength rest).map (· + 8)
    else
      match (List.range 8).find? fun n => maskByte n = byte with
      | some n => if rest.all (· = 0) then some n else none
      | none => none

def maskString (mask : IPMask) : List Char :=
  mask.flatMap fun byte => [hexChar (byte.toNat / 16), hexChar (byte.toNat % 16)]

def IPNet.string (block : IPNet) : List Char :=
  match networkNumberAndMask block with
  | none => "<nil>".toList
  | some (number, mask) =>
    ipString number ++ ['/'] ++
      match simpleMaskLength mask with
      | some n => decimal n
      | none => maskString mask

end NetAddress
