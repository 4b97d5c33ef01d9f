import PyAppRunner.Base.Text

/-! `decimal.Decimal`: the texts it is made from, and `==`.

A text may have white space around it, underscores anywhere, and the decimal digits of any
script. Numbers that the widest context cannot hold exactly are refused. Two numbers are
equal when their values are, whatever their exponents; a quiet NaN equals nothing, and a
signaling one cannot be compared. -/
namespace PyAppRunner.Base

/-- A number is `± coefficient * 10 ^ exponent`. -/
inductive Decimal where
  | finite (negative : Bool) (coefficient : Nat) (exponent : Int)
  | infinity (negative : Bool)
  | nan (signaling negative : Bool) (payload : Nat)
deriving DecidableEq

namespace Decimal

def isNan : Decimal → Bool
  | .nan _ _ _ => true
  | _ => false

def isSnan : Decimal → Bool
  | .nan signaling _ _ => signaling
  | _ => false

/-- The coefficient with its sign. -/
def signed (negative : Bool) (coefficient : Nat) : Int := if negative then -coefficient else coefficient

/-- The value of a number in units of `10 ^ unit`, for a unit that is not above its exponent. -/
def scaled (negative : Bool) (coefficient : Nat) (exponent unit : Int) : Int :=
  signed negative (coefficient * Nat.pow 10 (exponent - unit).toNat)

/-- `==`, with `none` for `InvalidOperation`. -/
def equals : Decimal → Decimal → Option Bool
  | .finite s c e, .finite t d f => some (scaled s c e (min e f) = scaled t d f (min e f))
  | .infinity s, .infinity t => some (s == t)
  | a, b => if a.isSnan || b.isSnan then none else some false

/-- A value equals itself, a NaN apart. -/
theorem equals_self (d : Decimal) :
    equals d d = if d.isSnan then none else some !d.isNan := by
  cases d with
  | finite s c e => simp [equals, isSnan, isNan]
  | infinity s => simp [equals, isSnan, isNan]
  | nan signaling s p => cases signaling <;> rfl

/-! ### Texts -/

/-- The value of a decimal digit. -/
def digitValue (c : Char) : Option Nat :=
  (Text.decimalZeros.find? fun start => start ≤ c.toNat && c.toNat < start + 10).map (c.toNat - ·)

/-- Every decimal digit as the ASCII one. -/
def asciiDigit (c : Char) : Char :=
  match digitValue c with
  | some d => Nat.digitChar d
  | none => c

def isDigit (c : Char) : Bool := '0' ≤ c && c ≤ '9'

/-- The number that digits stand for. -/
def valueOf (digits : List Char) : Nat := digits.foldl (fun n c => 10 * n + (c.toNat - '0'.toNat)) 0

/-- The limits of the widest context: the precision, the largest adjusted exponent and the
smallest exponent. -/
def maxPrec : Nat := 999999999999999999
/-- The exponent limit of the context. -/
def maxEmax : Int := 999999999999999999
/-- The least exponent that is not rounded away. -/
def minEtiny : Int := -1999999999999999997

/-- How many digits a number is written with. -/
def numDigits (n : Nat) : Nat := (Nat.toDigits 10 n).length

/-- A number that the widest context holds exactly. -/
def fits (coefficient : Nat) (exponent : Int) : Bool :=
  numDigits coefficient ≤ maxPrec && exponent + (numDigits coefficient - 1 : Nat) ≤ maxEmax && minEtiny ≤ exponent

/-- `[sign] digits`, to the end. -/
def readExponent (s : List Char) : Option Int :=
  let (negative, digits) := match s with
    | '-' :: rest => (true, rest)
    | '+' :: rest => (false, rest)
    | _ => (false, s)
  if digits ≠ [] ∧ digits.all isDigit then some (signed negative (valueOf digits)) else none

/-- `decimal-part [exponent-part]`. -/
def readNumber (negative : Bool) (s : List Char) : Option Decimal :=
  let whole := s.takeWhile isDigit
  let rest := s.dropWhile isDigit
  let (fraction, rest) := match rest with
    | '.' :: after => (after.takeWhile isDigit, after.dropWhile isDigit)
    | _ => ([], rest)
  let exponent := match rest with
    | [] => some 0
    | c :: after => if c = 'e' ∨ c = 'E' then readExponent after else none
  match exponent with
  | none => none
  | some e =>
    let coefficient := valueOf (whole ++ fraction)
    if whole ++ fraction ≠ [] ∧ fits coefficient (e - fraction.length) then
      some (.finite negative coefficient (e - fraction.length))
    else none

/-- `'NaN' [digits]`. -/
def readNan (signaling negative : Bool) (payload : List Char) : Option Decimal :=
  if payload.all isDigit then some (.nan signaling negative (valueOf payload)) else none

/-- What follows the sign. -/
def readUnsigned (negative : Bool) (s : List Char) : Option Decimal :=
  let lower := s.map Char.toLower
  if lower = "inf".toList ∨ lower = "infinity".toList then some (.infinity negative)
  else if lower.take 3 = "nan".toList then readNan false negative (s.drop 3)
  else if lower.take 4 = "snan".toList then readNan true negative (s.drop 4)
  else readNumber negative s

/-- `Decimal(text)`, with `none` for `InvalidOperation`. -/
def ofText (text : String) : Option Decimal :=
  match ((Text.strip text.toList).filter (· ≠ '_')).map asciiDigit with
  | '-' :: rest => readUnsigned true rest
  | '+' :: rest => readUnsigned false rest
  | s => readUnsigned false s

example : ofText " 1_0.50E-1 " = some (.finite false 1050 (-3)) := by decide +kernel
example : ofText "-sNaN12" = some (.nan true true 12) := by decide +kernel
example : ofText "1e" = none ∧ ofText "." = none ∧ ofText "--1" = none := by decide +kernel

/-- `Decimal(str(n))`. -/
def ofInt (n : Int) : Decimal := .finite (n < 0) n.natAbs 0

end Decimal

end PyAppRunner.Base
