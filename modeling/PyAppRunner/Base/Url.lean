import Mathlib.Data.List.Basic

/-! `bytes.decode("utf-8", "replace")`, and `urllib.parse.unquote_plus`, which uses it. -/
namespace PyAppRunner.Base.Url

/-- A character that is not complete yet: its bits so far, and the ranges of the bytes that
have to follow. -/
structure Pending where
  bits : Nat
  first : Nat × Nat
  more : Nat

/-- What stands for bytes that are no character. -/
def replacement : Char := Char.ofNat 0xFFFD

/-- A byte where a character may start. -/
def start (b : Nat) : Option Pending × List Char :=
  if b < 0x80 then (none, [Char.ofNat b])
  else if 0xC2 ≤ b ∧ b ≤ 0xDF then (some ⟨b - 0xC0, (0x80, 0xBF), 0⟩, [])
  else if b = 0xE0 then (some ⟨0, (0xA0, 0xBF), 1⟩, [])
  -- What would be a surrogate is no character.
  else if b = 0xED then (some ⟨0xD, (0x80, 0x9F), 1⟩, [])
  else if 0xE1 ≤ b ∧ b ≤ 0xEF then (some ⟨b - 0xE0, (0x80, 0xBF), 1⟩, [])
  else if b = 0xF0 then (some ⟨0, (0x90, 0xBF), 2⟩, [])
  else if 0xF1 ≤ b ∧ b ≤ 0xF3 then (some ⟨b - 0xF0, (0x80, 0xBF), 2⟩, [])
  else if b = 0xF4 then (some ⟨4, (0x80, 0x8F), 2⟩, [])
  else (none, [replacement])

/-- The next byte. One that does not continue the character may start another. -/
def next : Option Pending → Nat → Option Pending × List Char
  | none, b => start b
  | some p, b =>
    if p.first.1 ≤ b ∧ b ≤ p.first.2 then
      let bits := 64 * p.bits + (b - 0x80)
      match p.more with
      | 0 => (none, [Char.ofNat bits])
      | more + 1 => (some ⟨bits, (0x80, 0xBF), more⟩, [])
    else ((start b).1, replacement :: (start b).2)

def decodeReplace : Option Pending → List Nat → List Char
  | none, [] => []
  | some _, [] => [replacement]
  | p, b :: rest => (next p b).2 ++ decodeReplace (next p b).1 rest

def hexDigit (c : Char) : Option Nat :=
  if c.isDigit then some (c.toNat - '0'.toNat)
  else if 'a' ≤ c ∧ c ≤ 'f' then some (c.toNat - 'a'.toNat + 10)
  else if 'A' ≤ c ∧ c ≤ 'F' then some (c.toNat - 'A'.toNat + 10)
  else none

/-- `unquote_to_bytes` of ASCII. A percent sign without two digits after it stays. -/
def unquoteToBytes : List Char → List Nat
  | [] => []
  | '%' :: a :: b :: rest =>
    match hexDigit a, hexDigit b with
    | some high, some low => (16 * high + low) :: unquoteToBytes rest
    | _, _ => '%'.toNat :: unquoteToBytes (a :: b :: rest)
  | c :: rest => c.toNat :: unquoteToBytes rest

/-- `unquote`: each run of ASCII characters is bytes of its own. -/
def unquote (s : List Char) : List Char :=
  let isAscii (c : Char) : Bool := c.toNat < 128
  (s.splitBy fun a b => isAscii a == isAscii b).flatMap fun run =>
    if run.all isAscii then decodeReplace none (unquoteToBytes run) else run

/-- `unquote_plus`. -/
def unquotePlus (s : List Char) : List Char := unquote (s.map fun c => if c = '+' then ' ' else c)

example : unquotePlus "%C3%A9%zz".toList = "é%zz".toList := by decide

end PyAppRunner.Base.Url
