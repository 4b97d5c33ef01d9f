import Mathlib.Data.List.Dedup
import Mathlib.Data.List.Sort
import PyAppRunner.Base.Text

/-! Migration files, the rows of the tracking table, and the state of each name.

A name that is on disk or in the table has one of four states; two of them block
everything else. The scans that `apply` makes of a file before it runs anything are
here too. -/
namespace PyAppRunner.Migrations
open Base

/-- A file as `load_migration` reads it; `stamp` is the timestamp its name starts with. -/
structure MigrationFile where
  name : String
  stamp : String
  sql : String
  checksum : String
  noTransaction : Bool
  foreignKeysOff : Bool
deriving DecidableEq

/-- A row of the tracking table, without when and by whom it was written. -/
structure AppliedRow where
  name : String
  checksum : String
deriving DecidableEq

/-- The four states of a name. -/
inductive State where
  | applied
  | pending
  | drift
  | missing
deriving DecidableEq

/-- A line of the report. -/
structure MigrationState where
  name : String
  state : State
  file : Option MigrationFile
  row : Option AppliedRow

/-! ### The scans -/

/-- A line that starts with a backslash, white space aside. -/
def isMetaCommand (line : List Char) : Bool := (line.dropWhile Text.isSpace).head? == some '\\'

/-- `find_meta_commands`: line numbers, from 1, and the lines without trailing white space. -/
def findMetaCommands (sql : String) : List (Nat × String) :=
  (((Text.split '\n' sql.toList).zipIdx 1).filter fun line => isMetaCommand line.1).map fun line =>
    (line.2, String.ofList (Text.rstrip line.1))

/-- The text without its `--` comments. The flag says whether the text so far ends inside one. -/
def stripLineComments : Bool → List Char → List Char
  | _, [] => []
  | true, c :: rest => if c = '\n' then c :: stripLineComments false rest else stripLineComments true rest
  | false, '-' :: '-' :: rest => stripLineComments true rest
  | false, c :: rest => c :: stripLineComments false rest

/-- The pieces between semicolons that are not blank, comments left out. -/
def countStatements (sql : String) : Nat :=
  ((Text.split ';' (stripLineComments false sql.toList)).filter fun part => Text.strip part ≠ []).length

/-! ### States -/

/-- `sorted` of a set of names. -/
def sortedNames (names : List String) : List String := names.dedup.insertionSort (· ≤ ·)

/-- A dictionary by name: of several files under one name, the last. -/
def byName (files : List MigrationFile) (name : String) : Option MigrationFile :=
  files.reverse.find? fun f => f.name = name

/-- The last row of a name. -/
def rowsByName (rows : List AppliedRow) (name : String) : Option AppliedRow :=
  rows.reverse.find? fun r => r.name = name

/-- The state, by the file and the row of a name. -/
def stateOf (file : Option MigrationFile) (row : Option AppliedRow) : State :=
  match file, row with
  | none, _ => .missing
  | some _, none => .pending
  | some f, some r => if r.checksum ≠ f.checksum then .drift else .applied

/-- `compute_states`: every name of a file or a row, in order. -/
def computeStates (files : List MigrationFile) (rows : List AppliedRow) : List MigrationState :=
  (sortedNames (files.map (·.name) ++ rows.map (·.name))).map fun name =>
    ⟨name, stateOf (byName files name) (rowsByName rows name), byName files name, rowsByName rows name⟩

/-- The names that are still to be applied. -/
def pending (states : List MigrationState) : List MigrationState :=
  states.filter fun s => s.state = .pending

/-- States that must be resolved before anything may be applied. -/
def blocking (states : List MigrationState) : List MigrationState :=
  states.filter fun s => s.state = .drift || s.state = .missing

end PyAppRunner.Migrations
