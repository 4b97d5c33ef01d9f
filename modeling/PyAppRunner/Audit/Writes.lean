import PyAppRunner.Audit.Diff
import PyAppRunner.Base.Program
import PyAppRunner.Sql.Statement

/-! `Audit.update` and `Audit.delete`, a statement at a time.

Both read the rows their condition matches and lock them, then run the write with the
same condition, and record an event for each row that was read. What other sessions do
in between, and while either statement waits, is given with the call. -/
namespace PyAppRunner.Audit
open Base Sql

/-! The events that the calls make; `record` takes any text for one. -/

def AuditEvent.created : String := "created"
def AuditEvent.updated : String := "updated"
def AuditEvent.deleted : String := "deleted"

/-- Where a request came from, as far as it says. -/
structure RequestContext where
  requestId : String
  url : String
  ipAddress : String
  userAgent : String
  actorType : String
  actorId : String
  actorName : String

/-- One row of the trail, before it is serialised. -/
structure AuditEvent (V : Type) where
  event : String
  entityType : String
  entityId : String
  module : String
  oldValues : Option (Dict V)
  newValues : Option (Dict V)
  tags : List String
  context : Option (Dict V)
  origin : RequestContext

/-- A field that is still empty is filled in. -/
def orElse (field value : String) : String := if field = "" then value else field

/-- What the event leaves open is taken from the context. -/
def AuditEvent.withResolved {V : Type} (e : AuditEvent V) (context : RequestContext) : AuditEvent V :=
  {e with origin :=
    { requestId := orElse e.origin.requestId context.requestId
      url := orElse e.origin.url context.url
      ipAddress := orElse e.origin.ipAddress context.ipAddress
      userAgent := orElse e.origin.userAgent context.userAgent
      actorType := orElse e.origin.actorType context.actorType
      actorId := orElse e.origin.actorId context.actorId
      actorName := orElse e.origin.actorName context.actorName }}

/-- What an audited call raises. -/
inductive Fault where
  | notATableName
  | emptyCondition
  | tooManyRows (matched : Nat)
  /-- The event could not be written. -/
  | store (error : String)
  /-- The database refused the statement. -/
  | badStatement
  /-- A statement waits for another session still: the call has not returned. -/
  | waiting
deriving DecidableEq

/-- Of a schema, or of all of them, and a table. -/
abbrev TableKey := Option String × String

/-- The settings. `exclude` is as `_validated_exclude` leaves it. -/
structure Settings where
  strict : Bool
  maxRows : Int
  idKey : String
  exclude : List (TableKey × List String)

/-- The columns that the table has, and what the database makes of values: whether
`column = value` holds of what the column has, which it never does of `NULL`, and what the
column holds once a value is written. -/
structure Columns (V : Type) where
  names : List String
  equals : String → Option V → Option V → Bool
  stored : String → Option V → Option V

/-- All of these are columns of the table. -/
def Columns.knows {V : Type} (columns : Columns V) (d : Dict V) : Bool := (d.map Prod.fst).all columns.names.contains

/-- What can follow a `SET`: at least one column, and only those that are there. -/
def Columns.sets {V : Type} (columns : Columns V) (data : Dict V) : Bool := !data.isEmpty && columns.knows data

/-- What a call meets: the statements of others while its read waits, from then until its
write starts, and while that waits; which events cannot be written; and the ambient
request context. -/
structure Env (κ V : Type) where
  whileReading : List (Statement κ (Dict V))
  beforeWriting : List (Statement κ (Dict V))
  whileWriting : List (Statement κ (Dict V))
  storeFails : AuditEvent V → Option String
  context : RequestContext

/-- The table, and what was recorded, each event with the row it is about, and what was
only warned of. `changed` is history: the rows the write statement changed, as it
found them. -/
structure State (κ V : Type) where
  table : Table κ (Dict V)
  log : List (Nat × AuditEvent V)
  warnings : List Fault
  changed : List (Nat × Dict V)

/-! ### Table names -/

/-- One part of a table name, as the pattern has it. -/
def isIdentifier : List Char → Bool
  | [] => false
  | first :: rest => (first.isAlpha || first = '_') && rest.all fun c => c.isAlphanum || c = '_'

/-- `assert_table_name`: one identifier or two with a dot. `$` lets a newline at the end pass. -/
def isTableName (table : String) : Bool :=
  let name := if table.toList.getLast? = some '\n' then table.toList.dropLast else table.toList
  match name.dropWhile (· ≠ '.') with
  | [] => isIdentifier name
  | _ :: second => isIdentifier (name.takeWhile (· ≠ '.')) && isIdentifier second

variable {κ V : Type} [DecidableEq κ] (py : Values V) (columns : Columns V) (audit : Settings)

/-- `_table_key`: what is before the last dot, and after it. -/
def tableKey (table : String) : TableKey :=
  let reversed := (py.lower table).toList.reverse
  let schema := ((reversed.dropWhile (· ≠ '.')).drop 1).reverse
  (if schema = [] then none else some (String.ofList schema), String.ofList (reversed.takeWhile (· ≠ '.')).reverse)

/-- The columns to redact. A table without a schema is matched in every schema. -/
def excluded (table : String) : List String :=
  let key := tableKey py table
  (audit.exclude.filter fun entry =>
    entry.1.2 = key.2 && (entry.1.1.isNone || key.1.isNone || entry.1.1 = key.1)).flatMap Prod.snd

/-- An event with the excluded columns of its table redacted. -/
def redacted (event : AuditEvent V) : AuditEvent V :=
  let excluded := excluded py audit event.entityType
  {event with
    oldValues := event.oldValues.map fun values => mask py values excluded
    newValues := event.newValues.map fun values => mask py values excluded}

/-! ### A call -/

/-- A call on the audit object: it may raise, and what it has written by then stays. -/
abbrev Call (κ V α : Type) := Program (State κ V) Fault α

/-- `_fail`: raised, or only logged. -/
def fail (fault : Fault) : Call κ V Unit :=
  if audit.strict then Program.raise fault
  else Program.modify fun s => {s with warnings := s.warnings ++ [fault]}

/-- `assert_table_name`. -/
def assertTableName (table : String) : Call κ V Unit :=
  if isTableName table then pure () else Program.raise .notATableName

/-- The database refuses a statement that names another column or lacks a part, before it runs. -/
def assertStatement (parses : Bool) : Call κ V Unit :=
  if parses then pure () else Program.raise .badStatement

/-- `_assert_within_limit`: no limit below one. -/
def assertWithinLimit (matched : Nat) : Call κ V Unit :=
  if audit.maxRows < 1 || (matched : Int) ≤ audit.maxRows then pure () else fail audit (.tooManyRows matched)

/-- `_condition`: `column = value`, all of them. -/
def condition (cond : Dict V) : Nat → Dict V → Bool := fun _ row =>
  cond.all fun kv => columns.equals kv.1 (row.get kv.1) kv.2

/-- The others' statements take effect. -/
def others (c : κ) (stmts : List (Statement κ (Dict V))) : Call κ V Unit :=
  Program.modify fun s => {s with table := s.table.meanwhile c stmts}

/-- A statement of `c` with a `WHERE` that does `f` to the rows: those it gets in the end. -/
def statement (c : κ) (p : Nat → Dict V → Bool) (f : Dict V → Option (Dict V)) (waiting : List (Statement κ (Dict V))) :
    Call κ V (List (Nat × Dict V)) := do
  let s ← Program.get
  let p := Table.again (s.table.found c p) p
  others c waiting
  let s ← Program.get
  if s.table.blocked c p then Program.raise .waiting
  else do
    Program.modify fun s => {s with table := s.table.modify c p f}
    pure (s.table.rows c p)

/-- `_rows`: `SELECT … FOR UPDATE`. -/
def rows (c : κ) (env : Env κ V) (cond : Dict V) : Call κ V (List (Nat × Dict V)) :=
  statement c (condition columns cond) some env.whileReading

/-- The write, after whatever others did since the read. -/
def write (c : κ) (env : Env κ V) (cond : Dict V) (f : Dict V → Option (Dict V)) : Call κ V Nat := do
  others c env.beforeWriting
  let changed ← statement c (condition columns cond) f env.whileWriting
  Program.modify fun s => {s with changed := changed}
  pure changed.length

/-- `record`: redacted, with the ambient context, on the caller's cursor. -/
def record (env : Env κ V) (row : Nat) (event : AuditEvent V) : Call κ V Unit :=
  let event := (redacted py audit event).withResolved env.context
  match env.storeFails event with
  | some error => fail audit (.store error)
  | none => Program.modify fun s => {s with log := s.log ++ [(row, event)]}

/-- The event of a row, if it has one. -/
def recordRow (env : Env κ V) (eventOf : Dict V → Option (AuditEvent V)) (row : Nat × Dict V) : Call κ V Unit :=
  match eventOf row.2 with
  | none => pure ()
  | some event => record py audit env row.1 event

/-- One event after another. The first that fails ends the call. -/
def recordRows (env : Env κ V) (eventOf : Dict V → Option (AuditEvent V)) : List (Nat × Dict V) → Call κ V Unit
  | [] => pure ()
  | row :: rest => do
    recordRow py audit env eventOf row
    recordRows env eventOf rest

/-- `_row_id`. -/
def rowId (row : Dict V) : String := ((row.get audit.idKey).map py.str).getD ""

/-- What the caller passes besides what to write: the table, and what goes into its events. -/
structure Request (V : Type) where
  table : String
  module : String
  tags : List String
  context : Option (Dict V)

/-- An event as `update` and `delete` make it, with nothing known of where it comes from. -/
def eventFor (req : Request V) (kind : String) (row : Dict V) (values : Option (Dict V) × Option (Dict V)) :
    AuditEvent V where
  event := kind
  entityType := req.table
  entityId := rowId py audit row
  module := req.module
  oldValues := values.1
  newValues := values.2
  tags := req.tags
  context := req.context
  origin := ⟨"", "", "", "", "", "", ""⟩

/-- The event of a row that an update changes, if anything shows. -/
def updatedEvent (req : Request V) (data row : Dict V) : Option (AuditEvent V) :=
  let values := between py (some row) (some data) []
  match values.2 with
  | none => none
  | some _ => some (eventFor py audit req AuditEvent.updated row values)

/-- A deleted row has no new values. -/
def deletedEvent (req : Request V) (row : Dict V) : Option (AuditEvent V) :=
  some (eventFor py audit req AuditEvent.deleted row ((between py (some row) none []).1, none))

/-- `SET`: a column that is not named keeps what it has. -/
def setColumns (data row : Dict V) : Dict V :=
  row.map fun kv => (kv.1, ((data.lookup kv.1).map (columns.stored kv.1)).getD kv.2)

/-- Without a condition nothing follows the `WHERE` of the statement, and without data nothing the `SET`:
the read is let through, the write is not. -/
def update (c : κ) (env : Env κ V) (req : Request V) (data cond : Dict V) : Call κ V Nat := do
  assertTableName req.table
  assertStatement (columns.knows cond)
  let found ← rows columns c env cond
  assertWithinLimit audit found.length
  assertStatement (!cond.isEmpty && columns.sets data)
  let affected ← write columns c env cond fun row => some (setColumns columns data row)
  recordRows py audit env (updatedEvent py audit req data) found
  pure affected

/-- `Audit.delete`: read and lock, delete, then record what was read. -/
def delete (c : κ) (env : Env κ V) (req : Request V) (cond : Dict V) : Call κ V Nat := do
  assertTableName req.table
  if cond.isEmpty then Program.raise .emptyCondition
  else do
    assertStatement (columns.knows cond)
    let found ← rows columns c env cond
    assertWithinLimit audit found.length
    let affected ← write columns c env cond fun _ => none
    recordRows py audit env (deletedEvent py audit req) found
    pure affected

/-- Before the call. -/
def State.start (t : Table κ (Dict V)) : State κ V := ⟨t, [], [], []⟩

end PyAppRunner.Audit
