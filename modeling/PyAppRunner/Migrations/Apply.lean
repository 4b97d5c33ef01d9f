import PyAppRunner.Migrations.States

/-! `cmd_apply`: what is pending, in order, one file at a time, until one fails.

What a file's SQL does is not ours to know: `Behaviour` says of each file what it
makes of the data and whether it fails, and of the other statements around it
whether they fail. A file in a transaction leaves everything or nothing; a
no-transaction file that fails leaves what it had done by then. The tracking table
is the tool's own, apart from the data. -/
namespace PyAppRunner.Migrations

/-- The tracking table and everything else in the database. -/
structure Db (σ : Type) where
  rows : List AppliedRow
  data : σ

/-- How the database answers. `exec` gives the data as the file's SQL leaves it and
whether it came to its end; the others say whether the foreign key check, the insert
into the tracking table and the commit go through. -/
structure Behaviour (σ : Type) where
  exec : MigrationFile → σ → σ × Bool
  checked : MigrationFile → σ → Bool
  recorded : MigrationFile → Db σ → Bool
  committed : MigrationFile → Db σ → Bool

/-- The row `record` writes. -/
def rowOf (f : MigrationFile) : AppliedRow := ⟨f.name, f.checksum⟩

/-- What `cmd_apply` tells its caller. -/
inductive Report where
  | notAutocommit
  | loadError (e : String)
  | blocked (state : MigrationState)
  | unknownStamp (upTo : String)
  | upToDate
  | metaCommands (name : String) (lines : List (Nat × String))
  | manyStatements (name : String)
  | foreignKeysOff (name : String)
  | wouldApply (name : String)
  | failed (name : String) (noTransaction : Bool)
  | applied (name : String)
  | total (dryRun : Bool) (n : Nat)

/-- The connection a run is given. -/
structure Connection where
  sqlite : Bool
  autocommit : Bool

/-- What `cmd_apply` leaves behind. -/
structure Outcome (σ : Type) where
  exit : Nat
  db : Db σ
  /-- The files whose SQL was sent, in order. -/
  executed : List MigrationFile
  out : List Report

section
variable {σ : Type}

/-- One file: what the database is afterwards, and whether the file was applied. -/
def applyFile (b : Behaviour σ) (sqlite : Bool) (f : MigrationFile) (db : Db σ) : Db σ × Bool :=
  let ran := b.exec f db.data
  let done : Db σ := {db with data := ran.1}
  let written : Db σ := {done with rows := done.rows ++ [rowOf f]}
  if f.noTransaction then
    if ran.2 && b.recorded f done then (written, true) else (done, false)
  else if ran.2 && (!(f.foreignKeysOff && sqlite) || b.checked f ran.1) && b.recorded f done &&
      b.committed f written then (written, true)
  else (db, false)

/-- The loop over the queue. -/
def applyQueue (b : Behaviour σ) (sqlite : Bool) : List MigrationFile → Db σ → Outcome σ
  | [], db => ⟨0, db, [], []⟩
  | f :: rest, db =>
    match applyFile b sqlite f db with
    | (db, false) => ⟨1, db, [f], [.failed f.name f.noTransaction]⟩
    | (db, true) =>
      let after := applyQueue b sqlite rest db
      ⟨after.exit, after.db, f :: after.executed, .applied f.name :: after.out⟩

/-- What is wrong with a file before anything of the queue is run. -/
def scan (sqlite : Bool) (f : MigrationFile) : Option Report :=
  if findMetaCommands f.sql ≠ [] then some (.metaCommands f.name (findMetaCommands f.sql))
  else if f.noTransaction && decide (1 < countStatements f.sql) then some (.manyStatements f.name)
  else if f.foreignKeysOff && !sqlite then some (.foreignKeysOff f.name)
  else none

/-- The pending files in order, up to the given timestamp. -/
def queueOf (states : List MigrationState) (upTo : Option String) : List MigrationFile :=
  ((pending states).filterMap (·.file)).filter fun f =>
    match upTo with
    | none => true
    | some t => f.stamp ≤ t

/-- The timestamps `--to` may name. -/
def known (states : List MigrationState) : List String := (states.filterMap (·.file)).map (·.stamp)

/-- Nothing was executed. -/
def refused (db : Db σ) (out : List Report) : Outcome σ := ⟨1, db, [], out⟩

/-- From the queue on. -/
def applyStates (b : Behaviour σ) (sqlite dryRun : Bool) (queue : List MigrationFile) (db : Db σ) : Outcome σ :=
  if queue = [] then ⟨0, db, [], [.upToDate]⟩
  else match queue.findSome? (scan sqlite) with
    | some report => refused db [report]
    | none =>
      if dryRun then ⟨0, db, [], queue.map (fun f => .wouldApply f.name) ++ [.total true queue.length]⟩
      else
        let after := applyQueue b sqlite queue db
        if after.exit = 0 then {after with out := after.out ++ [.total false queue.length]} else after

/-- `files` is what `discover` returned or raised. -/
def cmdApply (b : Behaviour σ) (conn : Connection) (files : Except String (List MigrationFile))
    (dryRun : Bool) (upTo : Option String) (db : Db σ) : Outcome σ :=
  if !conn.autocommit then refused db [.notAutocommit]
  else match files with
    | .error e => refused db [.loadError e]
    | .ok files =>
      let states := computeStates files db.rows
      if blocking states ≠ [] then refused db ((blocking states).map .blocked)
      else match upTo with
        | some t =>
          if t ∉ known states then refused db [.unknownStamp t]
          else applyStates b conn.sqlite dryRun (queueOf states upTo) db
        | none => applyStates b conn.sqlite dryRun (queueOf states upTo) db

/-! ### What a run leaves -/

/-- What the SQL of the files makes of the data, one after the other. -/
def effects (b : Behaviour σ) (files : List MigrationFile) (data : σ) : σ :=
  files.foldl (fun d f => (b.exec f d).1) data

/-- The first `k` files of the queue are recorded with their checksums, and the data holds
what they did, with what was done of file `k + 1` if that one is not in a transaction. -/
structure Recorded (b : Behaviour σ) (queue : List MigrationFile) (db : Db σ) (after : Outcome σ) (k : Nat) :
    Prop where
  le : k ≤ queue.length
  rows : after.db.rows = db.rows ++ (queue.take k).map rowOf
  data : after.db.data = effects b (queue.take k) db.data ∨
    ∃ f, queue[k]? = some f ∧ f.noTransaction = true ∧
      after.db.data = (b.exec f (effects b (queue.take k) db.data)).1
  executed : after.executed = queue.take k ∨ after.executed = queue.take (k + 1)

/-- One file is applied and recorded, or it is not recorded and, in a transaction, not applied. -/
theorem applyFile_cases (b : Behaviour σ) (sqlite : Bool) (f : MigrationFile) (db : Db σ) :
    applyFile b sqlite f db = (⟨db.rows ++ [rowOf f], (b.exec f db.data).1⟩, true) ∨
    f.noTransaction = true ∧ applyFile b sqlite f db = (⟨db.rows, (b.exec f db.data).1⟩, false) ∨
    applyFile b sqlite f db = (db, false) := by
  unfold applyFile
  simp only
  split
  · rename_i hno
    split
    · exact .inl rfl
    · exact .inr (.inl ⟨hno, rfl⟩)
  · split
    · exact .inl rfl
    · exact .inr (.inr rfl)

/-- The loop records a first part of the queue, all of it exactly when it returns 0. -/
theorem applyQueue_recorded (b : Behaviour σ) (sqlite : Bool) (queue : List MigrationFile) (db : Db σ) :
    ∃ k, Recorded b queue db (applyQueue b sqlite queue db) k ∧
      ((applyQueue b sqlite queue db).exit = 0 ↔ k = queue.length) := by
  induction queue generalizing db with
  | nil => exact ⟨0, ⟨le_rfl, by simp [applyQueue], .inl rfl, .inl rfl⟩, by simp [applyQueue]⟩
  | cons f rest ih =>
    rcases applyFile_cases b sqlite f db with happly | ⟨hno, happly⟩ | happly
    · obtain ⟨k, hk, hexit⟩ := ih ⟨db.rows ++ [rowOf f], (b.exec f db.data).1⟩
      refine ⟨k + 1, ⟨?_, ?_, ?_, ?_⟩, ?_⟩
      · have := hk.le
        simp only [List.length_cons]
        omega
      · have := hk.rows
        simp only [applyQueue, happly, List.take_succ_cons, List.map_cons]
        rw [this, List.append_assoc]
        rfl
      · simp only [applyQueue, happly, List.take_succ_cons]
        rcases hk.data with hdata | ⟨g, hg, hno, hdata⟩
        · exact .inl hdata
        · exact .inr ⟨g, by simpa using hg, hno, hdata⟩
      · simp only [applyQueue, happly, List.take_succ_cons]
        rcases hk.executed with hexec | hexec
        · exact .inl (congrArg (f :: ·) hexec)
        · exact .inr (congrArg (f :: ·) hexec)
      · simp only [applyQueue, happly, List.length_cons]
        rw [hexit]
        omega
    · refine ⟨0, ⟨Nat.zero_le _, ?_, .inr ⟨f, rfl, hno, ?_⟩, .inr ?_⟩, ?_⟩
      · simp [applyQueue, happly]
      · simp [applyQueue, happly, effects]
      · simp [applyQueue, happly]
      · simp [applyQueue, happly]
    · refine ⟨0, ⟨Nat.zero_le _, ?_, .inl ?_, .inr ?_⟩, ?_⟩
      · simp [applyQueue, happly]
      · simp [applyQueue, happly, effects]
      · simp [applyQueue, happly]
      · simp [applyQueue, happly]

/-- A run that was refused leaves everything as it was. -/
theorem recorded_refused (b : Behaviour σ) (queue : List MigrationFile) (db : Db σ) (out : List Report) :
    Recorded b queue db (refused db out) 0 :=
  ⟨Nat.zero_le _, by simp [refused], .inl rfl, .inl rfl⟩

/-- Some queued file does not pass the scan. -/
def Unscannable (sqlite : Bool) (queue : List MigrationFile) : Prop := ∃ f ∈ queue, scan sqlite f ≠ none

theorem applyStates_recorded (b : Behaviour σ) (sqlite : Bool) (queue : List MigrationFile) (db : Db σ) :
    ∃ k, Recorded b queue db (applyStates b sqlite false queue db) k ∧
      ((applyStates b sqlite false queue db).exit = 0 ↔ k = queue.length) ∧
      (Unscannable sqlite queue → k = 0 ∧ (applyStates b sqlite false queue db).executed = []) := by
  by_cases hempty : queue = []
  · subst hempty
    refine ⟨0, ⟨le_rfl, by simp [applyStates], .inl rfl, .inl rfl⟩, by simp [applyStates], ?_⟩
    intro _
    exact ⟨rfl, rfl⟩
  · rcases hscan : queue.findSome? (scan sqlite) with _ | report
    · obtain ⟨k, hk, hexit⟩ := applyQueue_recorded b sqlite queue db
      have hdb : applyStates b sqlite false queue db =
          if (applyQueue b sqlite queue db).exit = 0 then {applyQueue b sqlite queue db with
            out := (applyQueue b sqlite queue db).out ++ [.total false queue.length]}
          else applyQueue b sqlite queue db := by
        simp [applyStates, hempty, hscan]
      have hsame : (applyStates b sqlite false queue db).exit = (applyQueue b sqlite queue db).exit ∧
          (applyStates b sqlite false queue db).db = (applyQueue b sqlite queue db).db ∧
          (applyStates b sqlite false queue db).executed = (applyQueue b sqlite queue db).executed := by
        rw [hdb]
        split <;> exact ⟨rfl, rfl, rfl⟩
      refine ⟨k, ⟨hk.le, ?_, ?_, ?_⟩, ?_, ?_⟩
      · rw [hsame.2.1]
        exact hk.rows
      · rw [hsame.2.1]
        exact hk.data
      · rw [hsame.2.2]
        exact hk.executed
      · rw [hsame.1]
        exact hexit
      · intro hbad
        obtain ⟨f, hf, hne⟩ := hbad
        exact absurd (List.findSome?_eq_none_iff.mp hscan f hf) hne
    · have hrefused : applyStates b sqlite false queue db = refused db [report] := by
        simp [applyStates, hempty, hscan]
      rw [hrefused]
      refine ⟨0, recorded_refused b queue db _, ?_, fun _ => ⟨rfl, rfl⟩⟩
      have hpos : queue.length ≠ 0 := by simpa using hempty
      constructor
      · intro h
        cases h
      · intro h
        exact absurd h.symm hpos

/-- The queue of a run: empty when the files cannot be loaded. -/
def runQueue (files : Except String (List MigrationFile)) (upTo : Option String) (db : Db σ) :
    List MigrationFile :=
  match files with
  | .error _ => []
  | .ok files => queueOf (computeStates files db.rows) upTo

/-- Some name is DRIFT or MISSING. -/
def Blocked (files : Except String (List MigrationFile)) (db : Db σ) : Prop :=
  ∃ fs, files = .ok fs ∧ blocking (computeStates fs db.rows) ≠ []

/-- The run is refused before there is a queue: a connection that is not in autocommit,
files that cannot be loaded, a blocked name, or a `--to` that names no file. -/
def RefusedUpFront (conn : Connection) (files : Except String (List MigrationFile)) (upTo : Option String)
    (db : Db σ) : Prop :=
  conn.autocommit = false ∨ (∃ e, files = .error e) ∨ Blocked files db ∨
    ∃ fs t, files = .ok fs ∧ upTo = some t ∧ t ∉ known (computeStates fs db.rows)

/-- A refused run, or one that goes on with its queue. -/
theorem cmdApply_cases (b : Behaviour σ) (conn : Connection) (files : Except String (List MigrationFile))
    (upTo : Option String) (db : Db σ) :
    RefusedUpFront conn files upTo db ∧ (∃ out, cmdApply b conn files false upTo db = refused db out) ∨
    ¬ RefusedUpFront conn files upTo db ∧ cmdApply b conn files false upTo db =
      applyStates b conn.sqlite false (runQueue files upTo db) db := by
  unfold cmdApply RefusedUpFront Blocked runQueue
  by_cases hauto : conn.autocommit = true
  · rcases files with e | files
    · refine .inl ⟨.inr (.inl ⟨e, rfl⟩), [.loadError e], ?_⟩
      simp [hauto]
    · by_cases hblocked : blocking (computeStates files db.rows) = []
      · rcases upTo with _ | t
        · refine .inr ⟨?_, by simp [hauto, hblocked]⟩
          simp [hauto, hblocked]
        · by_cases hknown : t ∈ known (computeStates files db.rows)
          · refine .inr ⟨?_, by simp [hauto, hblocked, hknown]⟩
            simp [hauto, hblocked, hknown]
          · refine .inl ⟨.inr (.inr (.inr ⟨files, t, rfl, rfl, hknown⟩)), [.unknownStamp t], ?_⟩
            simp [hauto, hblocked, hknown]
      · refine .inl ⟨.inr (.inr (.inl ⟨files, rfl, hblocked⟩)),
          (blocking (computeStates files db.rows)).map .blocked, ?_⟩
        simp [hauto, hblocked]
  · refine .inl ⟨.inl (by simpa using hauto), [.notAutocommit], ?_⟩
    simp [hauto]

/-- **`cmd_apply` records exactly what ran.** A first part of the queue is recorded and
applied; all of it exactly when the run is not refused up front and returns 0; and a
blocked name or a file that does not pass the scan keeps everything from running. -/
theorem apply_records_what_ran (b : Behaviour σ) (conn : Connection)
    (files : Except String (List MigrationFile)) (upTo : Option String) (db : Db σ) :
    ∃ k, Recorded b (runQueue files upTo db) db (cmdApply b conn files false upTo db) k ∧
      ((cmdApply b conn files false upTo db).exit = 0 ↔
        k = (runQueue files upTo db).length ∧ ¬ RefusedUpFront conn files upTo db) ∧
      (Blocked files db ∨ Unscannable conn.sqlite (runQueue files upTo db) →
        k = 0 ∧ (cmdApply b conn files false upTo db).executed = []) := by
  rcases cmdApply_cases b conn files upTo db with ⟨hrefused, out, heq⟩ | ⟨hgo, heq⟩
  · rw [heq]
    refine ⟨0, recorded_refused b _ db out, ?_, fun _ => ⟨rfl, rfl⟩⟩
    constructor
    · intro h
      cases h
    · intro h
      exact absurd hrefused h.2
  · rw [heq]
    obtain ⟨k, hk, hexit, hscan⟩ := applyStates_recorded b conn.sqlite (runQueue files upTo db) db
    refine ⟨k, hk, ?_, ?_⟩
    · rw [hexit]
      exact ⟨fun h => ⟨h, hgo⟩, fun h => h.1⟩
    · rintro (hblocked | hbad)
      · exact absurd (.inr (.inr (.inl hblocked))) hgo
      · exact hscan hbad

end

/-- A database in which every statement goes through. -/
def obliging : Behaviour Unit := ⟨fun _ d => (d, true), fun _ _ => true, fun _ _ => true, fun _ _ => true⟩

/-- A row whose file is gone. -/
def orphaned : Db Unit := ⟨[⟨"2026-08-04-091530-a.sql", "c0ffee"⟩], ()⟩

/-- With an empty directory the queue is empty, so all of it is recorded, and the run
still returns 1. -/
theorem missing_row_refused_with_empty_queue :
    ¬ ∃ k, Recorded obliging (runQueue (.ok []) none orphaned) orphaned
        (cmdApply obliging ⟨false, true⟩ (.ok []) false none orphaned) k ∧
      ((cmdApply obliging ⟨false, true⟩ (.ok []) false none orphaned).exit = 0 ↔
        k = (runQueue (.ok []) none orphaned).length) := by
  rintro ⟨k, hk, hexit⟩
  have hqueue : runQueue (.ok []) none orphaned = [] := by decide +kernel
  have hk0 : k = 0 := by
    have := hk.le
    rw [hqueue] at this
    simpa using this
  rw [hqueue, hk0] at hexit
  exact absurd (hexit.mpr rfl) (by decide +kernel)

end PyAppRunner.Migrations
