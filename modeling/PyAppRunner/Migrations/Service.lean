import PyAppRunner.Migrations.Commands
import PyAppRunner.Migrations.New
import PyAppRunner.Migrations.Targets

/-! `init_service` of the migrations: a command over the targets of the configuration.

`status` and `apply` go through every target, one after the other, and the others refuse
to choose one. Every command first makes sure that the tracking table is there, and creates
it where it is not: `status` too. Whatever happens, the process ends with an exit code: an
exception that a command lets through, an interrupt included, is a 1. -/
namespace PyAppRunner.Migrations.Service
open Base Targets
variable {σ : Type}

/-- The arguments of a step of the command line. -/
inductive Step where
  | new (name : String)
  | status (check : Bool)
  | apply (dryRun : Bool) (upTo : Option String)
  | baseline (upTo : Option String) (yes : Bool)
  | repair (name : String)
  | other (step : String)

/-- As it is typed on the command line. -/
def Step.name : Step → String
  | .new _ => "new"
  | .status _ => "status"
  | .apply _ _ => "apply"
  | .baseline _ _ => "baseline"
  | .repair _ => "repair"
  | .other step => step

/-- A line on the terminal, by what it reports. -/
inductive Said where
  | report (r : Report)
  | line (l : Line)
  | notice (n : Notice)
  | unknownCommand (step : String)
  | notTracking (table : String) (missing found : List String)
  | noTarget (requested : String) (configured : List String)
  | needsTarget (step : String) (configured : List String)

/-- What a connection reaches. Several tracking tables may lie in one. -/
inductive Database where
  | sqlite (path : String)
  | postgres (host : Option String) (port : Port) (database : Option String)
deriving DecidableEq

/-- The database behind a connection. -/
def database : Physical → Database
  | .sqlite path _ => .sqlite path
  | .postgres host port database _ => .postgres host port database

/-- `EXPECTED_COLUMNS`, sorted. -/
def expectedColumns : List String := ["applied_at", "applied_by", "checksum", "duration_ms", "id", "name"]

/-- A table under the name of a tracking table. -/
structure Tracking where
  columns : List String
  rows : List AppliedRow

/-- The table that `ensure_table` creates. -/
def Tracking.created : Tracking := ⟨expectedColumns, []⟩

/-- What there is of a database for a command: the tracking table, if it is there, and all else. -/
structure Held (σ : Type) where
  table : Option Tracking
  data : σ

namespace Held
variable (h : Held σ)

/-- The tracking table once it is sure to be there. -/
def tracking : Tracking := h.table.getD .created

/-- `_create_table`. -/
def ensured : Held σ := {h with table := some h.tracking}

/-- The tracking rows and all else, as the commands have it. -/
def db : Db σ := ⟨h.tracking.rows, h.data⟩

/-- What a command leaves that made sure of the table. -/
def leave (db : Db σ) : Held σ := ⟨some {h.tracking with rows := db.rows}, db.data⟩

end Held

/-- The tables that the targets track in, what else is in the databases, and the directories. -/
structure World (σ : Type) where
  tables : Physical → Option Tracking
  data : Database → σ
  dirs : String → Directory

namespace World

/-- A database as a command sees it, with one tracking table. -/
def view (w : World σ) (place : Physical) : Held σ := ⟨w.tables place, w.data (database place)⟩

/-- The table and the data of the target are written back. Tables of other places stay. -/
def put (place : Physical) (h : Held σ) (w : World σ) : World σ :=
  {w with
    tables := Function.update w.tables place h.table
    data := Function.update w.data (database place) h.data}

end World

/-- What the command on a target meets. `broken` is an exception from outside, or an
interrupt, with what it leaves of the database. -/
structure Meets (σ : Type) where
  connects : Bool
  /-- Of a connection to SQLite. -/
  autocommit : Bool
  broken : Option (Held σ)
  behaviour : Behaviour σ
  stamping : Stamping σ
  prompt : String → Option String
  updated : Bool

/-! ### One target -/

section
variable (realpath : String → String) (digest : Bytes → String) (config : Config)

/-- `connect`: the tracking table of the target and the connection to its database. -/
def connect (m : Meets σ) (t : Target) : Option (Physical × Connection) :=
  match config.db.lookup t.db with
  | none => none
  | some entry =>
    match dbDriver entry with
    | .error _ => none
    | .ok driver =>
      if m.connects then some (physicalTable realpath entry t.table, ⟨driver = sqlite, driver ≠ sqlite || m.autocommit⟩)
      else none

/-- What a command returned, with `none` for an exception, and what it left and printed. -/
structure Returned (σ : Type) where
  code : Option Nat
  held : Held σ
  said : List Said

/-- The columns that a tracking table has and this one has not. -/
def missingColumns (table : Tracking) : List String := expectedColumns.filter fun c => !table.columns.contains c

/-- The table has what a tracking table has. -/
def tracks (table : Tracking) : Bool := (missingColumns table).isEmpty

/-- `check_columns`: what `ensure_table` raises for another table, each command returns as a 1. -/
def notTracking (t : Target) (h : Held σ) : Returned σ :=
  ⟨some 1, h, [.notTracking t.table (missingColumns h.tracking) (sortedNames h.tracking.columns)]⟩

/-- The command on a connection. One that is refused for its connection has not come to the table. -/
def command (step : Step) (m : Meets σ) (t : Target) (conn : Connection) (dir : Directory) (h : Held σ) : Returned σ :=
  match step with
  | .status check =>
    if !tracks h.tracking then notTracking t h
    else
      let ran := cmdStatus (discover digest dir) check h.db
      ⟨ran.exit, h.leave ran.db, ran.out.map .line⟩
  | .apply dryRun upTo =>
    if conn.autocommit && !tracks h.tracking then notTracking t h
    else match applyIn (discover digest dir) m.behaviour conn dryRun upTo h.db with
    | none => ⟨none, h.ensured, []⟩
    | some after => ⟨some after.exit, if conn.autocommit then h.leave after.db else h, after.out.map .report⟩
  | .baseline upTo yes =>
    if conn.autocommit && !tracks h.tracking then notTracking t h
    else
      let ran := cmdBaseline m.stamping conn (discover digest dir) upTo yes m.prompt h.db
      ⟨ran.exit, if conn.autocommit then h.leave ran.db else h, ran.out.map .line⟩
  | .repair name =>
    let ran := cmdRepair digest conn dir name m.updated h.db
    -- The table is made sure of once the file is loaded, just before the update. An update that
    -- does not go through tells whether the command comes to it.
    if (cmdRepair digest conn dir name false h.db).exit.isSome then ⟨ran.exit, h, ran.out.map .line⟩
    else if !tracks h.tracking then notTracking t h
    else ⟨ran.exit, h.leave ran.db, ran.out.map .line⟩
  | .new _ => ⟨some 1, h, [.unknownCommand step.name]⟩
  | .other _ => ⟨some 1, h, [.unknownCommand step.name]⟩

/-- How the process ended. `ran` is history: the targets that were reached, in order, each with
the code of its command. -/
structure Result (σ : Type) where
  exit : Nat
  world : World σ
  ran : List (Target × Option Nat)
  out : List (Option String × Said)

/-- The tracking table at a place, once it is sure to be there. -/
def World.tracking (w : World σ) (place : Physical) : Tracking := (w.view place).tracking

/-- The command runs on the target's database, and nothing breaks it off. -/
structure Reached (m : Meets σ) (t : Target) : Prop where
  connects : ∃ place conn, connect realpath config m t = some (place, conn)
  broken : m.broken = none

/-- What the loop learns of a target: the code of its command, or `none` where there is no connection or the
command was broken off. -/
def Told (step : Step) (m : Meets σ) (t : Target) (w : World σ) (code : Option Nat) : Prop :=
  code = none ∧ ¬ Reached realpath config m t ∨
  ∃ place conn, connect realpath config m t = some (place, conn) ∧ m.broken = none ∧
    code = (command digest step m t conn (w.dirs t.directory) (w.view place)).code

/-- Only the tables of these targets are written, and their databases. -/
structure Untouched (targets : List Target) (w w' : World σ) : Prop where
  tables : ∀ place, (∀ t ∈ targets, tableOf realpath config.db t ≠ some place) → w'.tables place = w.tables place
  data : ∀ d, (∀ t ∈ targets, (tableOf realpath config.db t).map database ≠ some d) → w'.data d = w.data d
  dirs : w'.dirs = w.dirs

/-- Nothing is changed, but that tracking tables of these targets are created where there were none. -/
structure OnlyCreates (targets : List Target) (w w' : World σ) : Prop where
  tables : ∀ place, w'.tables place = w.tables place ∨ w.tables place = none ∧ w'.tables place = some .created ∧
    ∃ t ∈ targets, tableOf realpath config.db t = some place
  data : w'.data = w.data
  dirs : w'.dirs = w.dirs

end

section
variable {realpath : String → String} {digest : Bytes → String} {config : Config} {step : Step} {m : Meets σ} {t : Target}
  {w w' w'' : World σ} {targets selected : List Target} {place : Physical} {conn : Connection} {db : Db σ} {h : Held σ}

theorem tracking_congr (htables : w'.tables place = w.tables place) : w'.tracking place = w.tracking place :=
  congrArg (fun table : Option Tracking => table.getD .created) htables

theorem Untouched.refl : Untouched realpath config targets w w := ⟨fun _ _ => rfl, fun _ _ => rfl, rfl⟩

theorem Untouched.trans (h : Untouched realpath config targets w w') (h' : Untouched realpath config targets w' w'') :
    Untouched realpath config targets w w'' where
  tables place hplace := (h'.tables place hplace).trans (h.tables place hplace)
  data d hd := (h'.data d hd).trans (h.data d hd)
  dirs := h'.dirs.trans h.dirs

theorem Untouched.more {targets' : List Target} (h : Untouched realpath config targets w w')
    (hsub : ∀ t ∈ targets, t ∈ targets') : Untouched realpath config targets' w w' where
  tables place hplace := h.tables place fun t ht => hplace t (hsub t ht)
  data d hd := h.data d fun t ht => hd t (hsub t ht)
  dirs := h.dirs

section
variable {meets : Target → Meets σ} {targetCode : Nat} {said : List Said} (multi : Bool) (rest : List Target) (code : Nat)

end

theorem OnlyCreates.refl : OnlyCreates realpath config targets w w := ⟨fun _ => .inl rfl, rfl, rfl⟩

theorem OnlyCreates.trans (h : OnlyCreates realpath config targets w w') (h' : OnlyCreates realpath config targets w' w'') :
    OnlyCreates realpath config targets w w'' where
  tables place := by
    obtain hsame | ⟨hnone, hcreated, hin⟩ := h.tables place
    · rw [← hsame]
      exact h'.tables place
    · obtain hsame | ⟨hnone', -⟩ := h'.tables place
      · exact .inr ⟨hnone, hsame.trans hcreated, hin⟩
      · rw [hcreated] at hnone'
        cases hnone'
  data := h'.data.trans h.data
  dirs := h'.dirs.trans h.dirs

theorem OnlyCreates.more {targets' : List Target} (h : OnlyCreates realpath config targets w w')
    (hsub : ∀ t ∈ targets, t ∈ targets') : OnlyCreates realpath config targets' w w' where
  tables place := (h.tables place).imp_right fun ⟨hnone, hcreated, t, ht, hplace⟩ => ⟨hnone, hcreated, t, hsub t ht, hplace⟩
  data := h.data
  dirs := h.dirs

/-- A table is as it was, once it is sure to be there. -/
theorem OnlyCreates.tracking (h : OnlyCreates realpath config targets w w') (place : Physical) :
    w'.tracking place = w.tracking place := by
  obtain hsame | ⟨hnone, hcreated, -⟩ := h.tables place
  · exact tracking_congr hsame
  · show (w'.tables place).getD .created = (w.tables place).getD .created
    rw [hnone, hcreated]
    rfl

theorem OnlyCreates.isSome (h : OnlyCreates realpath config targets w w') (hthere : (w.tables place).isSome = true) :
    (w'.tables place).isSome = true := by
  obtain hsame | ⟨-, hcreated, -⟩ := h.tables place
  · rwa [hsame]
  · rw [hcreated]
    rfl

end

/-- No table is there yet, and every directory has the two files. -/
def fresh : World Unit := ⟨fun _ => none, fun _ => (), fun _ => twoFiles⟩

/-- A template is not needed, and the file can be written. -/
def disk : Disk := ⟨fun _ => some [], none, true⟩

def morning : DateTime := ⟨⟨2026, 8, 4⟩, 9, 15, 30, 0, none⟩

end PyAppRunner.Migrations.Service
