import Mathlib.Data.List.Nodup
import PyAppRunner.Base.Text

/-! `resolve_targets`: the databases and tracking tables that are migrated.

Two targets may share a database but not a database and a tracking table. The check compares
the entries as they are written, so that one table written in two ways passes it. -/
namespace PyAppRunner.Migrations.Targets
open Base

/-! ### The configuration -/

/-- A port, as a number or as a text. -/
inductive Port where
  | number (n : Int)
  | text (s : String)
deriving DecidableEq

/-- An entry of `config["db"]`, as far as the targets read it. -/
structure DbEntry where
  driver : Option String
  hostname : Option String
  port : Option Port
  database : Option String
deriving DecidableEq

/-- An entry of `config["migrations"]["targets"]`. -/
structure Entry where
  db : Option String
  dir : Option String
  table : Option String

/-- `config["migrations"]`. Of `dir` and `table` it matters whether the key is there, also
with `None` under it. -/
structure Settings where
  dir : Option (Option String)
  table : Option (Option String)
  targets : Option (List (String × Option Entry))

/-- The parts of the configuration that are read. -/
structure Config where
  currentPath : Option String
  db : List (String × DbEntry)
  settings : Settings

/-- A target, once its settings are resolved. -/
structure Target where
  name : String
  db : String
  directory : String
  table : String
deriving DecidableEq

/-- What resolving raises. -/
inductive TargetError where
  | mixed (keys : List String)
  | noTargets
  | unknownDb (target db : String)
  | relativeDir (dir : String)
  | unknownDriver (driver : String)
  | shared (clash target table : String)
deriving DecidableEq

/-- `value or default`, for a text. -/
def orElse (value : Option String) (default : String) : String :=
  match value with
  | none => default
  | some s => if s = "" then default else s

/-- The directory of a target that names none. -/
def defaultDir : String := "data/migrations"

/-- The tracking table of a target that names none. -/
def defaultTable : String := "migrations"

/-- The name of the target where the settings are flat. -/
def defaultTarget : String := "main"

/-- `_resolve_directory`, without what `pathlib` does to a path as it joins it. -/
def resolveDirectory (rawDir : Option String) (config : Config) : Except TargetError String :=
  let directory := orElse rawDir defaultDir
  if directory.toList.head? = some '/' then .ok directory
  else match config.currentPath with
    | none => .error (.relativeDir directory)
    | some path => .ok (path ++ "/" ++ directory)

/-! ### The check -/

def pgsql : String := "pgsql"

def sqlite : String := "sqlite"

/-- The driver of an entry. One that says nothing is taken for `pgsql`. -/
def dbDriver (entry : DbEntry) : Except TargetError String :=
  let driver := orElse entry.driver pgsql
  if driver = pgsql ∨ driver = sqlite then .ok driver else .error (.unknownDriver driver)

/-- `db_config.get("port") or 5432`. -/
def portOrDefault : Option Port → Port
  | none => .number 5432
  | some (.number n) => if n = 0 then .number 5432 else .number n
  | some (.text s) => if s = "" then .number 5432 else .text s

/-- The tuples of `_database_identity`. Those of SQLite have `None` for a port, which those of
Postgres never have. -/
inductive Identity where
  | sqlite (path : String)
  | postgres (hostname : Option String) (port : Port) (database : Option String)
deriving DecidableEq

section
variable (realpath : String → String)

/-- `_database_identity`; `str(None)` is a path like any other. -/
def databaseIdentity (entry : DbEntry) : Except TargetError Identity :=
  match dbDriver entry with
  | .error e => .error e
  | .ok driver =>
    if driver = sqlite then .ok (.sqlite (realpath (entry.database.getD "None")))
    else .ok (.postgres entry.hostname (portOrDefault entry.port) entry.database)

/-- The loop of `_reject_shared_tracking_tables`. -/
def rejectShared (db : List (String × DbEntry)) :
    List ((Identity × String) × String) → List Target → Except TargetError Unit
  | _, [] => .ok ()
  | seen, target :: rest =>
    match db.lookup target.db with
    | none => .error (.unknownDb target.name target.db)
    | some entry =>
      match databaseIdentity realpath entry with
      | .error e => .error e
      | .ok identity =>
        match seen.lookup (identity, target.table) with
        | some clash => .error (.shared clash target.name target.table)
        | none => rejectShared db (((identity, target.table), target.name) :: seen) rest

/-- One target of the `targets` shape. -/
def resolveTarget (config : Config) (name : String) (raw : Option Entry) : Except TargetError Target :=
  let entry := raw.getD ⟨none, none, none⟩
  let dbName := orElse entry.db name
  if (config.db.lookup dbName).isNone then .error (.unknownDb name dbName)
  else match resolveDirectory entry.dir config with
    | .error e => .error e
    | .ok directory => .ok ⟨name, dbName, directory, orElse entry.table defaultTable⟩

/-- Target after target. The first error ends it. -/
def resolveEach (config : Config) : List (String × Option Entry) → Except TargetError (List Target)
  | [] => .ok []
  | (name, raw) :: rest =>
    match resolveTarget config name raw with
    | .error e => .error e
    | .ok target =>
      match resolveEach config rest with
      | .error e => .error e
      | .ok targets => .ok (target :: targets)

/-- The keys of the flat shape that are there, sorted. -/
def flatKeys (settings : Settings) : List String :=
  (if settings.dir.isSome then ["dir"] else []) ++ (if settings.table.isSome then ["table"] else [])

/-- `resolve_targets`. -/
def resolveTargets (config : Config) : Except TargetError (List Target) :=
  match config.settings.targets with
  | some raw =>
    if flatKeys config.settings ≠ [] then .error (.mixed (flatKeys config.settings))
    else if raw = [] then .error .noTargets
    else match resolveEach config raw with
      | .error e => .error e
      | .ok targets =>
        match rejectShared realpath config.db [] targets with
        | .error e => .error e
        | .ok () => .ok targets
  | none =>
    match resolveDirectory config.settings.dir.join config with
    | .error e => .error e
    | .ok directory =>
      .ok [⟨defaultTarget, defaultTarget, directory, orElse config.settings.table.join defaultTable⟩]

/-! ### The tables themselves -/

/-- Without the case of ASCII letters, as host names are compared, and names in SQLite. -/
def foldCase (s : String) : String := String.ofList (s.toList.map Char.toLower)

/-- Decimal digits. -/
def readDigits (ds : List Char) : Option Nat :=
  if ds ≠ [] ∧ ds.all (fun c => '0' ≤ c && c ≤ '9') then some (ds.foldl (fun n c => 10 * n + (c.toNat - '0'.toNat)) 0)
  else none

/-- Decimal digits with white space around them and a sign before them. -/
def readNumber (s : String) : Option Int :=
  match Text.strip s.toList with
  | '-' :: ds => (readDigits ds).map fun n => -(n : Int)
  | '+' :: ds => (readDigits ds).map fun n => (n : Int)
  | ds => (readDigits ds).map fun n => (n : Int)

/-- The port a server is asked for; a text that is no number stays one. -/
def portNumber (port : Option Port) : Port :=
  match portOrDefault port with
  | .number n => .number n
  | .text s =>
    match readNumber s with
    | some n => .number n
    | none => .text s

/-- A table of a database, however the configuration writes it. -/
inductive Physical where
  | sqlite (path table : String)
  | postgres (host : Option String) (port : Port) (database : Option String) (table : String)
deriving DecidableEq

/-- The driver of an entry is SQLite. -/
def DbEntry.isSqlite (entry : DbEntry) : Bool := orElse entry.driver pgsql = sqlite

/-- Where the tracking table of an entry lies. -/
def physicalTable (entry : DbEntry) (table : String) : Physical :=
  if entry.isSqlite then .sqlite (realpath (entry.database.getD "None")) (foldCase table)
  else .postgres (entry.hostname.map foldCase) (portNumber entry.port) entry.database table

/-- The table a target keeps its rows in. -/
def tableOf (db : List (String × DbEntry)) (target : Target) : Option Physical :=
  (db.lookup target.db).map fun entry => physicalTable realpath entry target.table

/-- One table that two entries write differently: a host in other letters or a port in
another form, or, for SQLite, a table in other letters. -/
inductive TwoSpellings (a : DbEntry) (table : String) (b : DbEntry) (table' : String) : Prop where
  | postgres (ha : a.isSqlite = false) (hb : b.isSqlite = false)
    (host : a.hostname.map foldCase = b.hostname.map foldCase) (port : portNumber a.port = portNumber b.port)
    (database : a.database = b.database) (table_eq : table = table')
    (differ : a.hostname ≠ b.hostname ∨ portOrDefault a.port ≠ portOrDefault b.port)
  | sqlite (ha : a.isSqlite = true) (hb : b.isSqlite = true)
    (path : realpath (a.database.getD "None") = realpath (b.database.getD "None"))
    (table_eq : foldCase table = foldCase table') (differ : table ≠ table')

variable {realpath}

theorem databaseIdentity_ok {entry : DbEntry} {identity : Identity}
    (h : databaseIdentity realpath entry = .ok identity) :
    identity = if entry.isSqlite then .sqlite (realpath (entry.database.getD "None"))
      else .postgres entry.hostname (portOrDefault entry.port) entry.database := by
  unfold databaseIdentity at h
  split at h
  · cases h
  · next driver hdriver =>
    have hname : driver = orElse entry.driver pgsql := by
      unfold dbDriver at hdriver
      simp only at hdriver
      split_ifs at hdriver
      exact (Except.ok.inj hdriver).symm
    rw [hname] at h
    simp only [DbEntry.isSqlite, decide_eq_true_eq]
    split_ifs at h ⊢
    · exact (Except.ok.inj h).symm
    · exact (Except.ok.inj h).symm

theorem portNumber_congr {a b : Option Port} (h : portOrDefault a = portOrDefault b) : portNumber a = portNumber b := by
  rw [portNumber, portNumber, h]

/-- Two entries write one table exactly when they write it alike or in two spellings. -/
theorem physicalTable_eq_iff {a b : DbEntry} {i j : Identity} (ha : databaseIdentity realpath a = .ok i)
    (hb : databaseIdentity realpath b = .ok j) (table table' : String) :
    physicalTable realpath a table = physicalTable realpath b table' ↔
      (i, table) = (j, table') ∨ TwoSpellings realpath a table b table' := by
  rw [databaseIdentity_ok ha, databaseIdentity_ok hb, physicalTable, physicalTable]
  have hmixed (hne : a.isSqlite ≠ b.isSqlite) : ¬ TwoSpellings realpath a table b table' := by
    intro hspelt
    cases hspelt with
    | postgres ha hb => exact hne (ha.trans hb.symm)
    | sqlite ha hb => exact hne (ha.trans hb.symm)
  cases hsa : a.isSqlite <;> cases hsb : b.isSqlite
  · simp only [Bool.false_eq_true, if_false, Physical.postgres.injEq, Prod.mk.injEq, Identity.postgres.injEq]
    constructor
    · rintro ⟨hhost, hport, hdatabase, htable⟩
      by_cases hsame : a.hostname = b.hostname ∧ portOrDefault a.port = portOrDefault b.port
      · exact .inl ⟨⟨hsame.1, hsame.2, hdatabase⟩, htable⟩
      · exact .inr (.postgres hsa hsb hhost hport hdatabase htable (not_and_or.1 hsame))
    · rintro (⟨⟨hhost, hport, hdatabase⟩, htable⟩ | hspelt)
      · exact ⟨by rw [hhost], portNumber_congr hport, hdatabase, htable⟩
      · cases hspelt with
        | postgres _ _ hhost hport hdatabase htable _ => exact ⟨hhost, hport, hdatabase, htable⟩
        | sqlite ha' =>
          rw [hsa] at ha'
          cases ha'
  · have := hmixed (by rw [hsa, hsb]; decide)
    simp [this]
  · have := hmixed (by rw [hsa, hsb]; decide)
    simp [this]
  · simp only [if_true, Physical.sqlite.injEq, Prod.mk.injEq, Identity.sqlite.injEq]
    constructor
    · rintro ⟨hpath, htable⟩
      by_cases hsame : table = table'
      · exact .inl ⟨hpath, hsame⟩
      · exact .inr (.sqlite hsa hsb hpath htable hsame)
    · rintro (⟨hpath, htable⟩ | hspelt)
      · exact ⟨hpath, by rw [htable]⟩
      · cases hspelt with
        | postgres ha' =>
          rw [hsa] at ha'
          cases ha'
        | sqlite _ _ hpath htable _ => exact ⟨hpath, htable⟩

/-! ### What the check lets through -/

/-- The entry of a target and what the check compares of it. -/
def Compared (realpath : String → String) (db : List (String × DbEntry)) (target : Target) (entry : DbEntry)
    (identity : Identity) : Prop :=
  db.lookup target.db = some entry ∧ databaseIdentity realpath entry = .ok identity

theorem rejectShared_ok {db : List (String × DbEntry)} {seen : List ((Identity × String) × String)}
    {targets : List Target} (h : rejectShared realpath db seen targets = .ok ()) :
    (∀ t ∈ targets, ∃ entry identity, Compared realpath db t entry identity ∧
      seen.lookup (identity, t.table) = none) ∧
    targets.Pairwise fun t t' => ∀ entry identity entry' identity', Compared realpath db t entry identity →
      Compared realpath db t' entry' identity' → (identity, t.table) ≠ (identity', t'.table) := by
  induction targets generalizing seen with
  | nil => exact ⟨fun t ht => (List.not_mem_nil ht).elim, List.Pairwise.nil⟩
  | cons target rest ih =>
    rw [rejectShared] at h
    split at h
    · cases h
    · next entry hentry =>
      split at h
      · cases h
      · next identity hidentity =>
        split at h
        · cases h
        · next hnew =>
          obtain ⟨hseen, hpairs⟩ := ih h
          -- What the later targets are compared with is the key of this one and what was seen before it.
          have hlater : ∀ t ∈ rest, ∃ entry' identity', Compared realpath db t entry' identity' ∧
              (identity', t.table) ≠ (identity, target.table) ∧ seen.lookup (identity', t.table) = none := by
            intro t ht
            obtain ⟨entry', identity', hcompared, hlookup⟩ := hseen t ht
            rw [List.lookup_cons] at hlookup
            split at hlookup
            · cases hlookup
            · next hne => exact ⟨entry', identity', hcompared, by simpa using hne, hlookup⟩
          refine ⟨?_, List.pairwise_cons.2 ⟨?_, hpairs⟩⟩
          · intro t ht
            obtain rfl | ht := List.mem_cons.1 ht
            · exact ⟨entry, identity, ⟨hentry, hidentity⟩, hnew⟩
            · obtain ⟨entry', identity', hcompared, -, hlookup⟩ := hlater t ht
              exact ⟨entry', identity', hcompared, hlookup⟩
          · intro t ht e i e' i' hone htwo
            obtain ⟨entry', identity', ⟨hlook, hid⟩, hne, -⟩ := hlater t ht
            obtain rfl := Option.some.inj (hentry.symm.trans hone.1)
            obtain rfl := Except.ok.inj (hidentity.symm.trans hone.2)
            obtain rfl := Option.some.inj (hlook.symm.trans htwo.1)
            obtain rfl := Except.ok.inj (hid.symm.trans htwo.2)
            exact hne.symm

end

/-- No two targets write one table in two spellings. -/
def OneSpelling (realpath : String → String) (config : Config) (targets : List Target) : Prop :=
  targets.Pairwise fun t t' => ∀ entry entry', config.db.lookup t.db = some entry →
    config.db.lookup t'.db = some entry' → ¬ TwoSpellings realpath entry t.table entry' t'.table

/-- No two targets keep their rows in one table of one database. -/
def TablesApart (realpath : String → String) (config : Config) (targets : List Target) : Prop :=
  targets.Pairwise fun t t' => tableOf realpath config.db t ≠ tableOf realpath config.db t'

theorem apart_iff_of_reject {realpath : String → String} {config : Config} {targets : List Target}
    (h : rejectShared realpath config.db [] targets = .ok ()) :
    TablesApart realpath config targets ↔ OneSpelling realpath config targets := by
  obtain ⟨hall, hpairs⟩ := rejectShared_ok h
  constructor
  · intro hapart
    refine List.Pairwise.imp_of_mem (fun {t t'} ht ht' hne entry entry' hentry hentry' hspelt => ?_) hapart
    obtain ⟨e, i, ⟨hlook, hid⟩, -⟩ := hall t ht
    obtain ⟨e', i', ⟨hlook', hid'⟩, -⟩ := hall t' ht'
    obtain rfl := Option.some.inj (hlook.symm.trans hentry)
    obtain rfl := Option.some.inj (hlook'.symm.trans hentry')
    apply hne
    rw [tableOf, tableOf, hlook, hlook']
    exact congrArg some ((physicalTable_eq_iff hid hid' _ _).2 (.inr hspelt))
  · intro hspelling
    refine List.Pairwise.imp_of_mem (fun {t t'} ht ht' hboth heq => ?_) (hspelling.and hpairs)
    obtain ⟨e, i, ⟨hlook, hid⟩, -⟩ := hall t ht
    obtain ⟨e', i', ⟨hlook', hid'⟩, -⟩ := hall t' ht'
    rw [tableOf, tableOf, hlook, hlook'] at heq
    obtain halike | hspelt := (physicalTable_eq_iff hid hid' _ _).1 (Option.some.inj heq)
    · exact hboth.2 e i e' i' ⟨hlook, hid⟩ ⟨hlook', hid'⟩ halike
    · exact hboth.1 e e' hlook hlook' hspelt

/-- **When accepted targets have their own tables.** Exactly when none of them writes the
table of another in another spelling. -/
theorem targets_apart_iff (realpath : String → String) (config : Config) (targets : List Target)
    (h : resolveTargets realpath config = .ok targets) :
    TablesApart realpath config targets ↔ OneSpelling realpath config targets := by
  unfold resolveTargets at h
  split at h
  · split_ifs at h
    split at h
    · cases h
    · split at h
      · cases h
      · next hreject =>
        cases h
        exact apart_iff_of_reject hreject
  · split at h
    · cases h
    · -- The flat shape has one target.
      cases h
      exact iff_of_true (List.pairwise_singleton _ _) (List.pairwise_singleton _ _)

/-- Two keys for one server, each with the default table or, for the second, another. -/
def twoKeys (port : Option Port) (table : Option String) : Config where
  currentPath := some "/srv/app"
  db := [("main", ⟨none, some "db.example.org", none, some "app"⟩), ("gis", ⟨none, some "db.example.org", port, some "app"⟩)]
  settings := ⟨none, none, some [("main", none), ("gis", some ⟨none, none, table⟩)]⟩

/-- The targets of `twoKeys`. -/
def twoTargets (table : String) : List Target :=
  [⟨"main", "main", "/srv/app/data/migrations", "migrations"⟩, ⟨"gis", "gis", "/srv/app/data/migrations", table⟩]

theorem own_table_is_apart :
    resolveTargets id (twoKeys none (some "gis_migrations")) = .ok (twoTargets "gis_migrations") ∧
      OneSpelling id (twoKeys none (some "gis_migrations")) (twoTargets "gis_migrations") := by
  have hok : resolveTargets id (twoKeys none (some "gis_migrations")) = .ok (twoTargets "gis_migrations") := by decide
  exact ⟨hok, (targets_apart_iff id _ _ hok).1 (by unfold TablesApart; decide)⟩

/-- The port as a text: the targets are accepted and share a table. -/
theorem text_port_shares_table :
    resolveTargets id (twoKeys (some (.text "5432")) none) = .ok (twoTargets "migrations") ∧
      ¬ TablesApart id (twoKeys (some (.text "5432")) none) (twoTargets "migrations") := by
  refine ⟨by decide, ?_⟩
  unfold TablesApart
  decide

end PyAppRunner.Migrations.Targets
