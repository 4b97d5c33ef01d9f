import PyAppRunner.Base.Text

/-! IP addresses and networks: the part of `ipaddress` that reads an address, writes it and
asks whether it is in a network. -/
namespace PyAppRunner.Base.Ip

/-- An `IPv4Address` or an `IPv6Address` with its zone. -/
inductive Address where
  | v4 (ip : BitVec 32)
  | v6 (ip : BitVec 128) (scope : Option (List Char))
deriving DecidableEq

/-- A network: its address, and its mask. -/
inductive Network where
  | v4 (address netmask : BitVec 32)
  | v6 (address netmask : BitVec 128)
deriving DecidableEq

/-- `address in network`: never, if one is IPv4 and the other IPv6. -/
def Network.contains : Network → Address → Bool
  | .v4 address netmask, .v4 ip => ip &&& netmask == address
  | .v6 address netmask, .v6 ip _ => ip &&& netmask == address
  | _, _ => false

/-! ### Reading -/

def isDigit (c : Char) : Bool := '0' ≤ c && c ≤ '9'

/-- The value of a hexadecimal digit, in either case. -/
def hexDigit (c : Char) : Option Nat :=
  if isDigit c then some (c.toNat - '0'.toNat)
  else if 'a' ≤ c && c ≤ 'f' then some (c.toNat - 'a'.toNat + 10)
  else if 'A' ≤ c && c ≤ 'F' then some (c.toNat - 'A'.toNat + 10)
  else none

/-- The number that digits of a base make. -/
def number (base : Nat) (digits : List Nat) : Nat := digits.foldl (fun n d => base * n + d) 0

/-- `_parse_octet`: no leading zeros. -/
def parseOctet (s : List Char) : Option Nat :=
  if s = [] ∨ !s.all isDigit ∨ 3 < s.length ∨ (s ≠ ['0'] ∧ s.head? = some '0') then none
  else
    let octet := number 10 (s.map fun c => c.toNat - '0'.toNat)
    if 255 < octet then none else some octet

/-- `IPv4Address(s)`. -/
def parseV4 (s : List Char) : Option (BitVec 32) :=
  match (Text.split '.' s).mapM parseOctet with
  | some [a, b, c, d] => some (BitVec.ofNat 32 (number 256 [a, b, c, d]))
  | _ => none

/-- `_parse_hextet`. -/
def parseHextet (s : List Char) : Option Nat :=
  if s = [] ∨ 4 < s.length then none else (s.mapM hexDigit).map (number 16)

/-- `'%x' % n`. -/
def hexText (n : Nat) : List Char := Nat.toDigits 16 n

/-- An IPv4 address at the end stands for two groups. -/
def withoutV4 (parts : List (List Char)) : Option (List (List Char)) :=
  match parts.getLast? with
  | none => none
  | some last =>
    if '.' ∈ last then
      (parseV4 last).map fun ip =>
        parts.dropLast ++ [hexText (ip.toNat / 65536 % 65536), hexText (ip.toNat % 65536)]
    else some parts

/-- The groups of an address: where `::` stands there are as many of them zero as are missing. -/
def hextets (parts : List (List Char)) : Option (List Nat) :=
  -- Empty parts other than the first and the last.
  match (List.range parts.length).filter fun i => 0 < i ∧ i + 1 < parts.length ∧ parts[i]? = some [] with
  | [] =>
    if parts.length ≠ 8 then none else parts.mapM parseHextet
  | [skip] =>
    let high := if parts.head? = some [] then skip - 1 else skip
    let after := parts.length - skip - 1
    let low := if parts.getLast? = some [] then after - 1 else after
    if (parts.head? = some [] ∧ high ≠ 0) ∨ (parts.getLast? = some [] ∧ low ≠ 0) ∨ 8 ≤ high + low then none
    else do
      let above ← (parts.take high).mapM parseHextet
      let below ← (parts.drop (parts.length - low)).mapM parseHextet
      some (above ++ List.replicate (8 - (high + low)) 0 ++ below)
  | _ => none

/-- `_split_scope_id`. -/
def splitScope (s : List Char) : Option (List Char × Option (List Char)) :=
  if '%' ∉ s then some (s, none)
  else
    let scope := (s.dropWhile (· ≠ '%')).drop 1
    if scope = [] ∨ '%' ∈ scope then none else some (s.takeWhile (· ≠ '%'), some scope)

/-- `IPv6Address(s)`. -/
def parseV6 (s : List Char) : Option Address := do
  if '/' ∈ s then none
  let (address, scope) ← splitScope s
  let parts := Text.split ':' address
  if parts.length < 3 then none
  let parts ← withoutV4 parts
  if 9 < parts.length then none
  let groups ← hextets parts
  some (.v6 (BitVec.ofNat 128 (number 65536 groups)) scope)

/-- `ipaddress.ip_address(s)`; `none` is `ValueError`. -/
def ipAddress (s : List Char) : Option Address := (parseV4 s).map .v4 <|> parseV6 s

/-! ### Writing -/

/-- The longest run of zeros so far, and the one that is going on. -/
structure ZeroRun where
  bestStart : Nat
  bestLen : Nat
  start : Nat
  len : Nat

/-- The run of zeros after one more group. -/
def ZeroRun.next (r : ZeroRun) (index : Nat) (hextet : List Char) : ZeroRun :=
  if hextet = ['0'] then
    let start := if r.len = 0 then index else r.start
    if r.bestLen < r.len + 1 then ⟨start, r.len + 1, start, r.len + 1⟩
    else {r with start := start, len := r.len + 1}
  else {r with start := 0, len := 0}

/-- `_compress_hextets`. -/
def compress (hextets : List (List Char)) : List (List Char) :=
  let run : ZeroRun := hextets.zipIdx.foldl (fun r p => ZeroRun.next r p.2 p.1) ⟨0, 0, 0, 0⟩
  if 1 < run.bestLen then
    let stop := run.bestStart + run.bestLen
    let rest := if stop = hextets.length then [[]] else hextets.drop stop
    let short := hextets.take run.bestStart ++ [] :: rest
    if run.bestStart = 0 then [] :: short else short
  else hextets

/-- The numbers an address is written as, the first one first. -/
def groups (base count n : Nat) : List Nat :=
  ((List.range count).map fun i => n / Nat.pow base i % base).reverse

/-- `str(address)`. -/
def Address.text : Address → List Char
  | .v4 ip => ['.'].intercalate ((groups 256 4 ip.toNat).map (Nat.toDigits 10))
  | .v6 ip scope =>
    let written := [':'].intercalate (compress ((groups 65536 8 ip.toNat).map hexText))
    match scope with
    | none => written
    | some scope => written ++ '%' :: scope

example : (ipAddress "2001:0db8::0:0:1.2.3.4".toList).map Address.text = some "2001:db8::102:304".toList := by
  decide +kernel

/-! ### IPv4 addresses written as IPv6 -/

/-- `ipv4_mapped`: `::ffff:a.b.c.d`. -/
def ipv4Mapped (ip : BitVec 128) : Option (BitVec 32) :=
  if ip.toNat / 4294967296 = 0xFFFF then some (BitVec.ofNat 32 ip.toNat) else none

/-- The IPv4 address, where it is one in either notation. -/
def Address.unmapped : Address → Address
  | .v4 ip => .v4 ip
  | .v6 ip scope =>
    match ipv4Mapped ip with
    | some low => .v4 low
    | none => .v6 ip scope

theorem unmapped_unmapped (a : Address) : a.unmapped.unmapped = a.unmapped := by
  cases a with
  | v4 ip => rfl
  | v6 ip scope =>
    cases h : ipv4Mapped ip with
    | none => simp [Address.unmapped, h]
    | some low => simp [Address.unmapped, h]

end PyAppRunner.Base.Ip
