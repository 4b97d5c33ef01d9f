import PyAppRunner.Base.Casing
import PyAppRunner.Base.Decimal
import PyAppRunner.Base.Objects

/-! `load_config`: the defaults of a project, with the variables of the environment in them.

The words of a variable's name, lowered, are the path of the value. What comes first in it has to be
in the config already. Levels that are missing are made; a scalar in the way is kept, and the variable
is ignored. The variables are read after `load_dotenv`, in the order in which the environment lists
them. -/
namespace PyAppRunner.Config
open Base Base.Objects

/-- A key of the config. -/
abbrev Key := List Char

/-- What is no list and no dict. The defaults may hold anything. -/
inductive Atom (α : Type) where
  | none
  | int (n : Int)
  | str (s : List Char)
  | other (a : α)
deriving DecidableEq

variable {α : Type}

/-- What `replace_rec` raises: its own message, or what `int` says to a text. -/
inductive ValueError where
  | raised (message : List Char)
  | int (value : List Char)
deriving DecidableEq

/-! ### Values -/

/-- Digits that are no decimal digits: first and last of each range. -/
def otherDigits : List (Nat × Nat) :=
  [(0xB2, 0xB3), (0xB9, 0xB9), (0x1369, 0x1371), (0x19DA, 0x19DA), (0x2070, 0x2070), (0x2074, 0x2079), (0x2080, 0x2089),
    (0x2460, 0x2468), (0x2474, 0x247C), (0x2488, 0x2490), (0x24EA, 0x24EA), (0x24F5, 0x24FD), (0x24FF, 0x24FF),
    (0x2776, 0x277E), (0x2780, 0x2788), (0x278A, 0x2792), (0x10A40, 0x10A43), (0x10E60, 0x10E68), (0x11052, 0x1105A),
    (0x1F100, 0x1F10A)]

/-- `str.isdigit()`. -/
def isDigits (s : List Char) : Bool :=
  !s.isEmpty && s.all fun c =>
    Text.isDecimal c || otherDigits.any fun range => range.1 ≤ c.toNat && c.toNat ≤ range.2

/-- `sys.get_int_max_str_digits()`. -/
def maxStrDigits : Nat := 4300

/-- `int(value)`, of digits. -/
def intOf (value : List Char) : Except ValueError Nat :=
  if value.all Text.isDecimal ∧ value.length ≤ maxStrDigits then .ok (Decimal.valueOf (value.map Decimal.asciiDigit))
  else .error (.int value)

/-- A plain integer becomes an `int`. -/
def coerceValue : Value Key (Atom α) → Except ValueError (Value Key (Atom α))
  | .atom (.str value) =>
    if isDigits value then
      match intOf value with
      | .error e => .error e
      | .ok n => if Nat.toDigits 10 n = value then .ok (.atom (.int n)) else .ok (.atom (.str value))
    else .ok (.atom (.str value))
  | value => .ok value

/-- `strip(" \r\n\t\\")`. -/
def stripMarks (item : List Char) : List Char :=
  let isMark (c : Char) : Bool := c = ' ' || c = '\r' || c = '\n' || c = '\t' || c = '\\'
  ((item.dropWhile isMark).reverse.dropWhile isMark).reverse

/-- A value is split, its parts stripped, and empty parts left out. -/
def parseSplittedValues (value : List Char) (separator : Char) : List (List Char) :=
  ((Text.split separator value).map stripMarks).filter fun item =>
    match item with
    | [] => false
    | c :: _ => c ≠ '#'

/-! ### Writing into the config -/

/-- The dicts the caller has, those of the config, and the identity the next dict gets. -/
structure World (α : Type) where
  defaults : Object Key (Atom α)
  config : Object Key (Atom α)
  next : Nat
  /-- The variables that were ignored, as they are logged. -/
  ignored : List (Key × ValueError)

/-- `finalDict[key] = x`, which is seen wherever the dict is. -/
def World.set (w : World α) (finalDict : Nat) (key : Key) (x : Value Key (Atom α)) : World α :=
  { w with defaults := w.defaults.write finalDict key x, config := w.config.write finalDict key x }

/-- A new dict under a key. -/
def World.create (w : World α) (finalDict : Nat) (key : Key) : World α :=
  { w with next := w.next + 1 }.set finalDict key (.dict w.next [])

/-- The text of the error. -/
def descendMessage (key : Key) : List Char :=
  "Cannot descend into non-dict config key '".toList ++ key ++ "': it already holds a scalar value".toList

/-- `finalDict` comes with what it holds: nothing is written to it but what this call writes. Setting
its key to what the inner call returns sets it to the dict that is there. -/
def replaceRec : List Key → Object Key (Atom α) → Value Key (Atom α) → World α → World α × Option ValueError
  | [], _, _, w => (w, none)
  | [key], finalDict, finalValue, w =>
    match coerceValue finalValue with
    | .error e => (w, some e)
    | .ok v => (w.set finalDict.id key v, none)
  | key :: key' :: keys, finalDict, finalValue, w =>
    match finalDict.get key with
    | none => replaceRec (key' :: keys) ⟨w.next, []⟩ finalValue (w.create finalDict.id key)
    | some (.dict id entries) => replaceRec (key' :: keys) ⟨id, entries⟩ finalValue w
    | some (.atom _) => (w, some (.raised (descendMessage key)))
    | some (.list _) => (w, some (.raised (descendMessage key)))

/-- The path of a variable. -/
def keysOf (letters : Casing) (name : Key) : List Key := (Text.split '_' name).map letters.lower

/-- A list for the names that say so, and else the text itself. -/
def newValue (splitValueKeys : List Key) (name : Key) (value : List Char) : Value Key (Atom α) :=
  if name ∈ splitValueKeys then .list ((parseSplittedValues value ',').map fun item => .atom (.str item))
  else .atom (.str value)

/-- What the loop does with one variable. -/
def visit (letters : Casing) (splitValueKeys : List Key) (w : World α) (entry : Key × List Char) : World α :=
  match keysOf letters entry.1 with
  | [] => w
  | key :: keys =>
    match w.config.get key with
    | none => w
    | some (.atom .none) => w
    | some _ =>
      match replaceRec (key :: keys) w.config (newValue splitValueKeys entry.1 entry.2) w with
      | (w', none) => w'
      | (w', some e) => { w' with ignored := w'.ignored ++ [(entry.1, e)] }

/-- `deepcopy(defaults)`: dicts that no one else has, shared as the defaults share theirs. -/
def copied (defaults : Object Key (Atom α)) : World α where
  defaults := defaults
  config := defaults.relabel (· + defaults.value.fresh)
  next := defaults.value.fresh + defaults.value.fresh
  ignored := []

/-- The config is there unless the program exits for want of `APP_ENV`. -/
def loadConfig (letters : Casing) (defaults : Option (Object Key (Atom α))) (splitValueKeys : Option (List Key))
    (environ : List (Key × List Char)) : Option (World α) :=
  match environ.lookup "APP_ENV".toList with
  | none => none
  | some [] => none
  | some (c :: appEnv) =>
    let world := copied (defaults.getD ⟨0, []⟩)
    let world := world.set world.config.id "environment".toList (.atom (.str (c :: appEnv)))
    some (environ.foldl (visit letters (splitValueKeys.getD [])) world)

end PyAppRunner.Config
