import Mathlib.Data.List.Induction
import PyAppRunner.Base.Run
import PyAppRunner.Migrations.Apply
import PyAppRunner.Migrations.Discovery

/-! `cmd_baseline`, `cmd_repair` and `cmd_status`, and runs of all commands over one directory.

A command changes the state of a name only by writing rows: `apply` and `baseline` add
rows of pending files, and `repair` rewrites one. -/
namespace PyAppRunner.Migrations
open Base

/-! ### `cmd_baseline` -/

/-- Why the prompts came to no decision: a `q`, or an exception from the prompt itself. -/
inductive Stop where
  | aborted
  | interrupted

/-- `.strip().lower()`. Only ASCII letters have `q`, `a` or `y` as their lower case. -/
def answerOf (text : String) : List Char := (Text.strip text.toList).map Char.toLower

/-- The files that are chosen; the flag is `stamp_rest`. -/
def choose (prompt : String → Option String) : Bool → List MigrationFile → Except Stop (List MigrationFile)
  | _, [] => .ok []
  | true, f :: rest => (choose prompt true rest).map (f :: ·)
  | false, f :: rest =>
    match prompt f.name with
    | none => .error .interrupted
    | some text =>
      if answerOf text = ['q'] then .error .aborted
      else if answerOf text = ['a'] then (choose prompt true rest).map (f :: ·)
      else if answerOf text = ['y'] then (choose prompt false rest).map (f :: ·)
      else choose prompt false rest

/-- How the database answers the inserts and the commit. -/
structure Stamping (σ : Type) where
  recorded : MigrationFile → Db σ → Bool
  committed : Db σ → Bool

/-- What the commands print, by what they report. -/
inductive Line where
  | notAutocommit
  | loadError (e : LoadError)
  | unknownStamp (upTo : String)
  | nothingToBaseline
  | aborted
  | writeFailed
  | stamped (chosen left : Nat)
  | notPlain (name : String)
  | noFile (name : String)
  | noRow (name : String)
  | repaired (name : String)
  | noMigrations
  | state (name : String) (state : State)
  | summary (applied pending blocked : Nat)

/-- How a command ended: an exit code, or `none` for an exception it lets through. -/
structure Ran (σ : Type) where
  exit : Option Nat
  db : Db σ
  out : List Line

section
variable {σ : Type}

/-- The inserts, up to the first that fails. -/
def stampAll (s : Stamping σ) : List MigrationFile → Db σ → Option (Db σ)
  | [], db => some db
  | f :: rest, db => if s.recorded f db then stampAll s rest { db with rows := db.rows ++ [rowOf f] } else none

/-- From the candidates on. -/
def baselineStates (s : Stamping σ) (assumeYes : Bool) (prompt : String → Option String)
    (candidates : List MigrationFile) (db : Db σ) : Ran σ :=
  if candidates = [] then ⟨some 0, db, [.nothingToBaseline]⟩
  else match choose prompt assumeYes candidates with
    | .error .aborted => ⟨some 1, db, [.aborted]⟩
    | .error .interrupted => ⟨none, db, []⟩
    | .ok chosen =>
      match stampAll s chosen db with
      | none => ⟨some 1, db, [.writeFailed]⟩
      | some written =>
        if s.committed written then ⟨some 0, written, [.stamped chosen.length (candidates.length - chosen.length)]⟩
        else ⟨some 1, db, [.writeFailed]⟩

/-- `cmd_baseline`: the chosen names are stamped, all of them or none. -/
def cmdBaseline (s : Stamping σ) (conn : Connection) (files : Except LoadError (List MigrationFile))
    (upTo : Option String) (assumeYes : Bool) (prompt : String → Option String) (db : Db σ) : Ran σ :=
  if !conn.autocommit then ⟨some 1, db, [.notAutocommit]⟩
  else match files with
    | .error .unreadable => ⟨none, db, []⟩
    | .error e => ⟨some 1, db, [.loadError e]⟩
    | .ok files =>
      let states := computeStates files db.rows
      match upTo with
      | some t =>
        if t ∉ known states then ⟨some 1, db, [.unknownStamp t]⟩
        else baselineStates s assumeYes prompt (queueOf states upTo) db
      | none => baselineStates s assumeYes prompt (queueOf states upTo) db

/-! ### `cmd_repair` -/

/-- `update_checksum`: the rows, and whether there was one. -/
def updateChecksum (name checksum : String) (rows : List AppliedRow) : List AppliedRow × Bool :=
  (rows.map fun r => if r.name = name then { r with checksum := checksum } else r,
    rows.countP (·.name = name) = 1)

/-- `updated` says whether the update goes through. -/
def cmdRepair (digest : Bytes → String) (conn : Connection) (dir : Directory) (name : String) (updated : Bool)
    (db : Db σ) : Ran σ :=
  if !conn.autocommit then ⟨some 1, db, [.notAutocommit]⟩
  else if '/' ∈ name.toList ∨ name = "." then ⟨some 1, db, [.notPlain name]⟩
  else match dir.entry name with
    | none => ⟨some 1, db, [.noFile name]⟩
    | some .other => ⟨some 1, db, [.noFile name]⟩
    | some (.file raw) =>
      match loadMigration digest name (.file raw) with
      | .error e => ⟨some 1, db, [.loadError e]⟩
      | .ok f =>
        if !updated then ⟨none, db, []⟩
        else
          let (rows, found) := updateChecksum f.name f.checksum db.rows
          if found then ⟨some 0, { db with rows := rows }, [.repaired f.name]⟩
          else ⟨some 1, { db with rows := rows }, [.noRow f.name]⟩

/-! ### `cmd_status` -/

/-- A report, and with `--check` an exit of 1 where something is pending or blocking. -/
def cmdStatus (files : Except LoadError (List MigrationFile)) (check : Bool) (db : Db σ) : Ran σ :=
  match files with
  | .error .unreadable => ⟨none, db, []⟩
  | .error e => ⟨some 1, db, [.loadError e]⟩
  | .ok files =>
    let states := computeStates files db.rows
    if states = [] then ⟨some 0, db, [.noMigrations]⟩
    else
      let blocked := (blocking states).length
      let waiting := (pending states).length
      ⟨some (if check && (waiting ≠ 0 || blocked ≠ 0) then 1 else 0), db,
        states.map (fun s => .state s.name s.state) ++ [.summary (states.length - waiting - blocked) waiting blocked]⟩

/-! ### Runs -/

/-- A command with how its connection, its operator and the database answer. -/
inductive Command (σ : Type) where
  | apply (b : Behaviour σ) (conn : Connection) (dryRun : Bool) (upTo : Option String)
  | baseline (s : Stamping σ) (conn : Connection) (upTo : Option String) (assumeYes : Bool)
    (prompt : String → Option String)
  | repair (conn : Connection) (name : String) (updated : Bool)

/-- The message of the exception. -/
def LoadError.text : LoadError → String
  | .badFilename name => "Bad migration filename '" ++ name ++ "': expected YYYY-MM-DD-HHMMSS-kebab-name.sql"
  | .notUtf8 name => "Migration '" ++ name ++ "' is not valid UTF-8"
  | .noDirectory => "Migrations directory does not exist"
  | .duplicateStamp stamp => "Duplicate migration timestamp " ++ stamp
  | .unreadable => ""

/-- `cmd_apply` on what `discover` does; `none` for an exception it lets through. -/
def applyIn (files : Except LoadError (List MigrationFile)) (b : Behaviour σ) (conn : Connection) (dryRun : Bool)
    (upTo : Option String) (db : Db σ) : Option (Outcome σ) :=
  match files with
  | .ok files => some (cmdApply b conn (.ok files) dryRun upTo db)
  | .error .unreadable => if conn.autocommit then none else some (cmdApply b conn (.error "") dryRun upTo db)
  | .error e => some (cmdApply b conn (.error e.text) dryRun upTo db)

/-- The commands one after another, on one directory and one tracking table. -/
def machine (digest : Bytes → String) (dir : Directory) : Machine (Db σ) (Command σ) where
  step
    | .apply b conn dryRun upTo, db => ((applyIn (discover digest dir) b conn dryRun upTo db).map Outcome.db).getD db
    | .baseline s conn upTo assumeYes prompt, db =>
      (cmdBaseline s conn (discover digest dir) upTo assumeYes prompt db).db
    | .repair conn name updated, db => (cmdRepair digest conn dir name updated db).db

/-- The state `compute_states` gives a name, if it lists it. -/
def stateAt (files : List MigrationFile) (rows : List AppliedRow) (name : String) : Option State :=
  ((computeStates files rows).find? (·.name = name)).map MigrationState.state

/-! ### The states of the names -/

theorem mem_sortedNames {names : List String} {name : String} : name ∈ sortedNames names ↔ name ∈ names := by
  rw [sortedNames, (List.perm_insertionSort _ _).mem_iff, List.mem_dedup]

/-- Each name of the files and the rows is listed once, in order. -/
theorem computeStates_names (files : List MigrationFile) (rows : List AppliedRow) :
    ((computeStates files rows).map MigrationState.name).Pairwise (· < ·) ∧
      ∀ name, name ∈ (computeStates files rows).map MigrationState.name ↔
        name ∈ files.map MigrationFile.name ∨ name ∈ rows.map AppliedRow.name := by
  have hnames : (computeStates files rows).map MigrationState.name =
      sortedNames (files.map MigrationFile.name ++ rows.map AppliedRow.name) := by
    simp [computeStates, Function.comp_def]
  rw [hnames]
  constructor
  · have hle : (sortedNames (files.map MigrationFile.name ++ rows.map AppliedRow.name)).Pairwise (· ≤ ·) :=
      List.pairwise_insertionSort _ _
    have hnodup : (sortedNames (files.map MigrationFile.name ++ rows.map AppliedRow.name)).Nodup := by
      rw [sortedNames, (List.perm_insertionSort _ _).nodup_iff]
      exact List.nodup_dedup _
    refine (hle.and hnodup).imp fun h => ?_
    by_contra hlt
    exact h.2 (String.le_antisymm h.1 (String.not_lt.1 hlt))
  · intro name
    rw [mem_sortedNames, List.mem_append]

/-- Every name of a file or of a row has one state, and no other name has one. -/
theorem stateAt_eq (files : List MigrationFile) (rows : List AppliedRow) (name : String) :
    stateAt files rows name =
      if name ∈ files.map MigrationFile.name ∨ name ∈ rows.map AppliedRow.name then
        some (stateOf (byName files name) (rowsByName rows name))
      else none := by
  unfold stateAt computeStates
  rw [List.find?_map, Option.map_map]
  have hfind : ∀ names : List String, names.find? (fun n => decide (n = name)) = if name ∈ names then some name else none := by
    intro names
    induction names with
    | nil => rfl
    | cons n rest ih =>
      by_cases hn : n = name
      · simp [hn]
      · rw [List.find?_cons_of_neg (by simpa using hn), ih]
        simp [Ne.symm hn]
  have hpred : ((fun s : MigrationState => decide (s.name = name)) ∘ fun name =>
      (⟨name, stateOf (byName files name) (rowsByName rows name), byName files name, rowsByName rows name⟩ :
        MigrationState)) = fun n => decide (n = name) := rfl
  rw [hpred, hfind]
  simp only [mem_sortedNames, List.mem_append]
  split
  · rfl
  · rfl

/-- With distinct names the lookup finds the file itself. -/
theorem byName_eq {files : List MigrationFile} (hdistinct : (files.map MigrationFile.name).Nodup) {f : MigrationFile}
    (hf : f ∈ files) : byName files f.name = some f := by
  unfold byName
  cases hfind : files.reverse.find? (fun g => decide (g.name = f.name)) with
  | none =>
    have := List.find?_eq_none.1 hfind f (List.mem_reverse.2 hf)
    simp at this
  | some g =>
    have hname : g.name = f.name := by simpa using List.find?_some hfind
    have hg : g ∈ files := List.mem_reverse.1 (List.mem_of_find?_eq_some hfind)
    rw [List.inj_on_of_nodup_map hdistinct hg hf hname]

/-- The row that was written last counts. -/
theorem rowsByName_append (rows : List AppliedRow) (r : AppliedRow) (name : String) :
    rowsByName (rows ++ [r]) name = if r.name = name then some r else rowsByName rows name := by
  unfold rowsByName
  rw [List.reverse_append, List.reverse_singleton, List.singleton_append, List.find?_cons]
  by_cases h : r.name = name
  · simp [h]
  · simp [h]

theorem rowsByName_eq_none {rows : List AppliedRow} {name : String} :
    rowsByName rows name = none ↔ name ∉ rows.map AppliedRow.name := by
  simp [rowsByName]

/-! ### What new rows do -/

/-- The files are discovered ones without a row, each once. -/
structure Unrecorded (files : List MigrationFile) (rows : List AppliedRow) (new : List MigrationFile) : Prop where
  mem : ∀ f ∈ new, f ∈ files
  pending : ∀ f ∈ new, f.name ∉ rows.map AppliedRow.name
  distinct : (new.map MigrationFile.name).Nodup

theorem Unrecorded.sublist {files new new' : List MigrationFile} {rows : List AppliedRow}
    (h : Unrecorded files rows new) (hsub : new'.Sublist new) : Unrecorded files rows new' where
  mem f hf := h.mem f (hsub.subset hf)
  pending f hf := h.pending f (hsub.subset hf)
  distinct := h.distinct.sublist (hsub.map _)

/-- The stamped names have the rows of their files, and no other name has a new row. -/
theorem rowsByName_stamped {files new : List MigrationFile} {rows : List AppliedRow} (h : Unrecorded files rows new)
    (name : String) :
    (name ∉ new.map MigrationFile.name → rowsByName (rows ++ new.map rowOf) name = rowsByName rows name) ∧
      ∀ f ∈ new, f.name = name → rowsByName (rows ++ new.map rowOf) name = some (rowOf f) := by
  induction new using List.reverseRecOn with
  | nil => exact ⟨fun _ => by simp, fun f hf => by cases hf⟩
  | append_singleton init last ih =>
    have hinit := ih (h.sublist (List.sublist_append_left ..))
    have hrows : rows ++ (init ++ [last]).map rowOf = (rows ++ init.map rowOf) ++ [rowOf last] := by simp
    rw [hrows, rowsByName_append]
    constructor
    · intro hnot
      simp only [List.map_append, List.mem_append, List.map_cons, List.map_nil, List.mem_singleton, not_or] at hnot
      have hne : ¬ (rowOf last).name = name := Ne.symm hnot.2
      rw [if_neg hne]
      exact hinit.1 hnot.1
    · intro f hf hname
      by_cases hlast : (rowOf last).name = name
      · rw [if_pos hlast]
        have hsame : last = f := by
          apply List.inj_on_of_nodup_map h.distinct (by simp) hf
          rw [hname]
          exact hlast
        rw [hsame]
      · rw [if_neg hlast]
        refine hinit.2 f ?_ hname
        obtain hf | hf := List.mem_append.1 hf
        · exact hf
        · rw [List.mem_singleton.1 hf] at hname
          exact absurd hname hlast

/-- The new rows turn exactly their names from pending to applied. -/
theorem stateAt_stamped {files new : List MigrationFile} {rows : List AppliedRow}
    (hfiles : (files.map MigrationFile.name).Nodup) (h : Unrecorded files rows new) (name : String) :
    (name ∈ new.map MigrationFile.name → stateAt files rows name = some .pending ∧
      stateAt files (rows ++ new.map rowOf) name = some .applied) ∧
    (name ∉ new.map MigrationFile.name → stateAt files (rows ++ new.map rowOf) name = stateAt files rows name ∧
      rowsByName (rows ++ new.map rowOf) name = rowsByName rows name) := by
  constructor
  · intro hmem
    obtain ⟨f, hf, rfl⟩ := List.mem_map.1 hmem
    have hfile := byName_eq hfiles (h.mem f hf)
    have hlisted : f.name ∈ files.map MigrationFile.name := List.mem_map_of_mem (h.mem f hf)
    have hnone : rowsByName rows f.name = none := rowsByName_eq_none.2 (h.pending f hf)
    have hrow := (rowsByName_stamped h f.name).2 f hf rfl
    rw [stateAt_eq, stateAt_eq, if_pos (.inl hlisted), if_pos (.inl hlisted), hfile, hnone, hrow]
    simp [stateOf, rowOf]
  · intro hnot
    have hrow := (rowsByName_stamped h name).1 hnot
    have hnames : name ∈ (rows ++ new.map rowOf).map AppliedRow.name ↔ name ∈ rows.map AppliedRow.name := by
      have hof : ((new.map rowOf).map AppliedRow.name) = new.map MigrationFile.name := by
        simp [rowOf, Function.comp_def]
      rw [List.map_append, List.mem_append, hof]
      exact ⟨fun hor => hor.resolve_right hnot, .inl⟩
    refine ⟨?_, hrow⟩
    rw [stateAt_eq, stateAt_eq, hrow]
    simp only [hnames]

/-- Stamping names without rows keeps the names of the rows distinct. -/
theorem distinct_stamped {files new : List MigrationFile} {rows : List AppliedRow} (h : Unrecorded files rows new)
    (hrows : (rows.map AppliedRow.name).Nodup) : ((rows ++ new.map rowOf).map AppliedRow.name).Nodup := by
  have hof : ((new.map rowOf).map AppliedRow.name) = new.map MigrationFile.name := by simp [rowOf, Function.comp_def]
  rw [List.map_append, hof, List.nodup_append]
  refine ⟨hrows, h.distinct, ?_⟩
  rintro name hname _ hnew rfl
  obtain ⟨f, hf, rfl⟩ := List.mem_map.1 hnew
  exact h.pending f hf hname

/-- A listed state is that of its name. -/
theorem of_mem_computeStates {files : List MigrationFile} {rows : List AppliedRow} {s : MigrationState}
    (hs : s ∈ computeStates files rows) :
    s.file = byName files s.name ∧ s.state = stateOf (byName files s.name) (rowsByName rows s.name) := by
  obtain ⟨name, -, rfl⟩ := List.mem_map.1 hs
  exact ⟨rfl, rfl⟩

theorem of_byName {files : List MigrationFile} {name : String} {f : MigrationFile} (h : byName files name = some f) :
    f ∈ files ∧ f.name = name := by
  refine ⟨List.mem_reverse.1 (List.mem_of_find?_eq_some h), ?_⟩
  simpa using List.find?_some h

/-- The names that are queued are a part of the listed names. -/
theorem names_queueOf (files : List MigrationFile) (rows : List AppliedRow) (upTo : Option String) :
    ((queueOf (computeStates files rows) upTo).map MigrationFile.name).Pairwise (· < ·) := by
  have hsub : ((queueOf (computeStates files rows) upTo).map MigrationFile.name).Sublist
      ((computeStates files rows).map MigrationState.name) := by
    refine (List.filter_sublist.map _).trans ?_
    rw [List.map_filterMap]
    have hpart : ∀ states : List MigrationState, (∀ s ∈ states, s ∈ computeStates files rows) →
        (states.filterMap fun s => s.file.map MigrationFile.name).Sublist (states.map MigrationState.name) := by
      intro states hstates
      induction states with
      | nil => exact List.Sublist.slnil
      | cons s rest ih =>
        have hrest := ih fun s' hs' => hstates s' (List.mem_cons_of_mem _ hs')
        obtain ⟨heq, -⟩ := of_mem_computeStates (hstates s List.mem_cons_self)
        cases hs : s.file with
        | none =>
          rw [List.filterMap_cons_none (by rw [hs]; rfl), List.map_cons]
          exact hrest.cons _
        | some f =>
          rw [List.filterMap_cons_some (by rw [hs]; rfl), List.map_cons]
          rw [hs] at heq
          rw [(of_byName heq.symm).2]
          exact hrest.cons_cons _
    refine (hpart _ fun s hs => (List.mem_filter.1 hs).1).trans ?_
    exact List.filter_sublist.map _
  exact (computeStates_names files rows).1.sublist hsub

/-- What is queued is discovered and has no row. -/
theorem unrecorded_queueOf (files : List MigrationFile) (rows : List AppliedRow) (upTo : Option String) :
    Unrecorded files rows (queueOf (computeStates files rows) upTo) := by
  have hmem : ∀ f ∈ queueOf (computeStates files rows) upTo, f ∈ files ∧ f.name ∉ rows.map AppliedRow.name := by
    intro f hf
    obtain ⟨s, hs, hsf⟩ := List.mem_filterMap.1 (List.mem_of_mem_filter hf)
    obtain ⟨hs, hpending⟩ := List.mem_filter.1 hs
    obtain ⟨heq, hstate⟩ := of_mem_computeStates hs
    rw [heq] at hsf
    obtain ⟨hmem, hname⟩ := of_byName hsf
    refine ⟨hmem, ?_⟩
    rw [decide_eq_true_eq, hstate, hsf] at hpending
    rw [hname, ← rowsByName_eq_none]
    cases hrow : rowsByName rows s.name with
    | none => rfl
    | some r =>
      rw [hrow, stateOf] at hpending
      split at hpending
      · cases hpending
      · cases hpending
  refine ⟨fun f hf => (hmem f hf).1, fun f hf => (hmem f hf).2, ?_⟩
  refine (names_queueOf files rows upTo).imp fun {a b} h (heq : a = b) => ?_
  subst heq
  exact String.lt_irrefl a h

theorem stateAt_of_mem {files : List MigrationFile} {rows : List AppliedRow} {s : MigrationState}
    (hs : s ∈ computeStates files rows) :
    stateAt files rows s.name = some s.state ∧ s.file = byName files s.name := by
  have hlisted := ((computeStates_names files rows).2 s.name).1 (List.mem_map_of_mem hs)
  obtain ⟨name, -, rfl⟩ := List.mem_map.1 hs
  rw [stateAt_eq, if_pos hlisted]
  exact ⟨rfl, rfl⟩

theorem mem_of_stateAt {files : List MigrationFile} {rows : List AppliedRow} {name : String} {state : State}
    (h : stateAt files rows name = some state) : ∃ s ∈ computeStates files rows, s.name = name ∧ s.state = state := by
  unfold stateAt at h
  obtain ⟨s, hs, hstate⟩ := Option.map_eq_some_iff.1 h
  exact ⟨s, List.mem_of_find?_eq_some hs, by simpa using List.find?_some hs, hstate⟩

/-! ### Every command does what it is documented to do -/

/-- Why `cmd_baseline` stamps nothing: the connection is not in autocommit mode, `--to` names no file, the
prompts were left (a `q`, or an exception), or an insert or the commit fails. -/
def Unstamped (s : Stamping σ) (conn : Connection) (files : List MigrationFile) (upTo : Option String)
    (assumeYes : Bool) (prompt : String → Option String) (db : Db σ) : Prop :=
  conn.autocommit = false ∨ (∃ t, upTo = some t ∧ t ∉ known (computeStates files db.rows)) ∨
  (∃ stop, choose prompt assumeYes (queueOf (computeStates files db.rows) upTo) = .error stop) ∨
  ∃ chosen, choose prompt assumeYes (queueOf (computeStates files db.rows) upTo) = .ok chosen ∧
    ∀ written, stampAll s chosen db = some written → s.committed written = false

/-- The new states differ from the old ones as this command makes them differ: `baseline` moves all that was
chosen and exits with 0, or has a reason to move nothing. -/
def Command.Moves (files : List MigrationFile) : Command σ → Db σ → Db σ → Prop
  | .apply _ _ _ _, db, db' => ∀ name, stateAt files db'.rows name = stateAt files db.rows name ∨
    stateAt files db.rows name = some .pending ∧ stateAt files db'.rows name = some .applied
  | .baseline s conn upTo assumeYes prompt, db, db' =>
    (cmdBaseline s conn (.ok files) upTo assumeYes prompt db).exit ≠ some 0 ∧ db' = db ∧
      Unstamped s conn files upTo assumeYes prompt db ∨
    (cmdBaseline s conn (.ok files) upTo assumeYes prompt db).exit = some 0 ∧
      ∃ chosen, choose prompt assumeYes (queueOf (computeStates files db.rows) upTo) = .ok chosen ∧
        ∀ name, (name ∈ chosen.map MigrationFile.name →
            stateAt files db.rows name = some .pending ∧ stateAt files db'.rows name = some .applied) ∧
          (name ∉ chosen.map MigrationFile.name → stateAt files db'.rows name = stateAt files db.rows name)
  | .repair _ named _, db, db' => ∀ name, stateAt files db'.rows name = stateAt files db.rows name ∨
    name = named ∧ stateAt files db.rows name = some .drift ∧ stateAt files db'.rows name = some .applied

/-- One step of a run, over the files that were discovered. -/
structure Documented (files : List MigrationFile) (c : Command σ) (db db' : Db σ) : Prop where
  moves : c.Moves files db db'
  applied : ∀ name, stateAt files db.rows name = some .applied → stateAt files db'.rows name = some .applied
  missing : ∀ name, stateAt files db.rows name = some .missing →
    rowsByName db'.rows name = rowsByName db.rows name
  distinct : (db.rows.map AppliedRow.name).Nodup → (db'.rows.map AppliedRow.name).Nodup

/-- New rows of pending files keep what is applied and what is missing. -/
theorem documented_stamped {files new : List MigrationFile} (hfiles : (files.map MigrationFile.name).Nodup)
    {c : Command σ} {db db' : Db σ} (hnew : Unrecorded files db.rows new)
    (hrows : db'.rows = db.rows ++ new.map rowOf) (hmoves : c.Moves files db db') : Documented files c db db' := by
  refine ⟨hmoves, ?_, ?_, ?_⟩
  · intro name happlied
    rw [hrows]
    by_cases hmem : name ∈ new.map MigrationFile.name
    · exact ((stateAt_stamped hfiles hnew name).1 hmem).2
    · rw [((stateAt_stamped hfiles hnew name).2 hmem).1, happlied]
  · intro name hmissing
    rw [hrows]
    by_cases hmem : name ∈ new.map MigrationFile.name
    · rw [((stateAt_stamped hfiles hnew name).1 hmem).1] at hmissing
      cases hmissing
    · exact ((stateAt_stamped hfiles hnew name).2 hmem).2
  · intro hdistinct
    rw [hrows]
    exact distinct_stamped hnew hdistinct

/-- A dry run writes nothing. -/
theorem cmdApply_dry (b : Behaviour σ) (conn : Connection) (files : Except String (List MigrationFile))
    (upTo : Option String) (db : Db σ) : (cmdApply b conn files true upTo db).db = db := by
  have hstates : ∀ queue, (applyStates b conn.sqlite true queue db).db = db := by
    intro queue
    unfold applyStates
    split
    · rfl
    · split
      · rfl
      · rfl
  unfold cmdApply
  split
  · rfl
  · split
    · rfl
    · dsimp only
      split
      · rfl
      · split
        · split
          · rfl
          · exact hstates _
        · exact hstates _

/-- What is recorded, and when all of the queue is. -/
theorem recorded_cmdApply (b : Behaviour σ) (conn : Connection) (files : Except String (List MigrationFile))
    (upTo : Option String) (db : Db σ) :
    ∃ k, Recorded b (runQueue files upTo db) db (cmdApply b conn files false upTo db) k ∧
      ((cmdApply b conn files false upTo db).exit = 0 ↔
        k = (runQueue files upTo db).length ∧ ¬ RefusedUpFront conn files upTo db) := by
  obtain ⟨hrefused, out, heq⟩ | ⟨hgo, heq⟩ := cmdApply_cases b conn files upTo db
  · rw [heq]
    exact ⟨0, recorded_refused b _ db out, iff_of_false Nat.one_ne_zero fun h => h.2 hrefused⟩
  · rw [heq]
    obtain ⟨k, hk, hexit, -⟩ := applyStates_recorded b conn.sqlite (runQueue files upTo db) db
    exact ⟨k, hk, hexit.trans (and_iff_left hgo).symm⟩

/-- `cmd_apply` adds the rows of a first part of the queue. -/
theorem documented_apply {files : List MigrationFile} (hfiles : (files.map MigrationFile.name).Nodup)
    (b : Behaviour σ) (conn : Connection) (dryRun : Bool) (upTo : Option String) (db : Db σ) :
    Documented files (.apply b conn dryRun upTo) db (cmdApply b conn (.ok files) dryRun upTo db).db := by
  have hqueue := unrecorded_queueOf files db.rows upTo
  obtain ⟨new, hnew, hrows⟩ : ∃ new, Unrecorded files db.rows new ∧
      (cmdApply b conn (.ok files) dryRun upTo db).db.rows = db.rows ++ new.map rowOf := by
    cases dryRun with
    | true =>
      refine ⟨[], hqueue.sublist (List.nil_sublist _), ?_⟩
      rw [cmdApply_dry, List.map_nil, List.append_nil]
    | false =>
      obtain ⟨k, hk, -⟩ := recorded_cmdApply b conn (.ok files) upTo db
      exact ⟨_, hqueue.sublist (List.take_sublist k _), hk.rows⟩
  refine documented_stamped hfiles hnew hrows ?_
  intro name
  rw [hrows]
  by_cases hmem : name ∈ new.map MigrationFile.name
  · exact .inr ((stateAt_stamped hfiles hnew name).1 hmem)
  · exact .inl ((stateAt_stamped hfiles hnew name).2 hmem).1

/-- What is chosen keeps the order of the candidates. -/
theorem choose_sublist {prompt : String → Option String} {stampRest : Bool} {candidates chosen : List MigrationFile}
    (h : choose prompt stampRest candidates = .ok chosen) : chosen.Sublist candidates := by
  have hcons : ∀ {result : Except Stop (List MigrationFile)} {f : MigrationFile} {rest chosen : List MigrationFile},
      (∀ chosen, result = .ok chosen → chosen.Sublist rest) → result.map (f :: ·) = .ok chosen →
        chosen.Sublist (f :: rest) := by
    intro result f rest chosen ih h
    cases result with
    | error e => cases h
    | ok later =>
      cases h
      exact (ih later rfl).cons_cons f
  induction candidates generalizing stampRest chosen with
  | nil =>
    cases stampRest <;> cases h <;> exact List.Sublist.slnil
  | cons f rest ih =>
    cases stampRest with
    | true => exact hcons (fun chosen h => ih h) h
    | false =>
      unfold choose at h
      split at h
      · cases h
      · split at h
        · cases h
        · split at h
          · exact hcons (fun chosen h => ih h) h
          · split at h
            · exact hcons (fun chosen h => ih h) h
            · exact (ih h).cons f

/-- A write that goes through has added the row of every chosen file. -/
theorem rows_stampAll {s : Stamping σ} {chosen : List MigrationFile} {db written : Db σ}
    (h : stampAll s chosen db = some written) : written.rows = db.rows ++ chosen.map rowOf := by
  induction chosen generalizing db with
  | nil =>
    cases h
    simp
  | cons f rest ih =>
    unfold stampAll at h
    split at h
    · rw [ih h]
      simp
    · cases h

/-- `cmd_baseline` adds all rows of what was chosen, or nothing for a reason. -/
theorem baseline_cases (s : Stamping σ) (conn : Connection) (files : List MigrationFile) (upTo : Option String)
    (assumeYes : Bool) (prompt : String → Option String) (db : Db σ) :
    (cmdBaseline s conn (.ok files) upTo assumeYes prompt db).exit ≠ some 0 ∧
      (cmdBaseline s conn (.ok files) upTo assumeYes prompt db).db = db ∧
      Unstamped s conn files upTo assumeYes prompt db ∨
    (cmdBaseline s conn (.ok files) upTo assumeYes prompt db).exit = some 0 ∧
      ∃ chosen, choose prompt assumeYes (queueOf (computeStates files db.rows) upTo) = .ok chosen ∧
        (cmdBaseline s conn (.ok files) upTo assumeYes prompt db).db.rows = db.rows ++ chosen.map rowOf := by
  -- First what happens once `--to` is known to be a migration, or was not given.
  have hstates : (baselineStates s assumeYes prompt (queueOf (computeStates files db.rows) upTo) db).exit ≠ some 0 ∧
      (baselineStates s assumeYes prompt (queueOf (computeStates files db.rows) upTo) db).db = db ∧
      Unstamped s conn files upTo assumeYes prompt db ∨
    (baselineStates s assumeYes prompt (queueOf (computeStates files db.rows) upTo) db).exit = some 0 ∧
      ∃ chosen, choose prompt assumeYes (queueOf (computeStates files db.rows) upTo) = .ok chosen ∧
        (baselineStates s assumeYes prompt (queueOf (computeStates files db.rows) upTo) db).db.rows =
          db.rows ++ chosen.map rowOf := by
    unfold baselineStates
    split
    · next hempty =>
      right
      refine ⟨rfl, [], ?_, ?_⟩
      · rw [hempty, choose]
      · rw [List.map_nil, List.append_nil]
    · split
      · next hstop => exact .inl ⟨by simp, rfl, .inr (.inr (.inl ⟨_, hstop⟩))⟩
      · next hstop => exact .inl ⟨by simp, rfl, .inr (.inr (.inl ⟨_, hstop⟩))⟩
      · next chosen hchosen =>
        split
        · next hnone =>
          refine .inl ⟨by simp, rfl, .inr (.inr (.inr ⟨chosen, hchosen, fun written hwritten => ?_⟩))⟩
          rw [hnone] at hwritten
          cases hwritten
        · next written hwritten =>
          split
          · exact .inr ⟨rfl, chosen, hchosen, rows_stampAll hwritten⟩
          · next hlost =>
            refine .inl ⟨by simp, rfl, .inr (.inr (.inr ⟨chosen, hchosen, fun written' hwritten' => ?_⟩))⟩
            rw [hwritten] at hwritten'
            cases hwritten'
            exact Bool.eq_false_iff.mpr hlost
  -- Then the two refusals in front of it.
  unfold cmdBaseline
  split
  · next hauto => exact .inl ⟨by simp, rfl, .inl (by simpa using hauto)⟩
  · dsimp only
    split
    · next t =>
      split
      · next hunknown => exact .inl ⟨by simp, rfl, .inr (.inl ⟨t, rfl, hunknown⟩)⟩
      · exact hstates
    · exact hstates

theorem documented_baseline {files : List MigrationFile} (hfiles : (files.map MigrationFile.name).Nodup)
    (s : Stamping σ) (conn : Connection) (upTo : Option String) (assumeYes : Bool) (prompt : String → Option String)
    (db : Db σ) :
    Documented files (.baseline s conn upTo assumeYes prompt) db
      (cmdBaseline s conn (.ok files) upTo assumeYes prompt db).db := by
  have hqueue := unrecorded_queueOf files db.rows upTo
  obtain ⟨hexit, hsame, hreason⟩ | ⟨hexit, chosen, hchosen, hrows⟩ :=
    baseline_cases s conn files upTo assumeYes prompt db
  · refine documented_stamped hfiles (hqueue.sublist (List.nil_sublist _)) ?_ (.inl ⟨hexit, hsame, hreason⟩)
    rw [hsame, List.map_nil, List.append_nil]
  · have hnew := hqueue.sublist (choose_sublist hchosen)
    refine documented_stamped hfiles hnew hrows (.inr ⟨hexit, chosen, hchosen, ?_⟩)
    intro name
    rw [hrows]
    have hstate := stateAt_stamped hfiles hnew name
    exact ⟨hstate.1, fun hnot => (hstate.2 hnot).1⟩

/-! ### `repair` -/

/-- The checksum that a repair gives to `update_checksum`, if it comes to that. -/
def restamped (digest : Bytes → String) (conn : Connection) (dir : Directory) (name : String) (updated : Bool) :
    Option String :=
  if !conn.autocommit || decide ('/' ∈ name.toList ∨ name = ".") || !updated then none
  else match dir.entry name with
    | none => none
    | some content => (loadMigration digest name content).toOption.map MigrationFile.checksum

/-- `cmd_repair` rewrites the rows of the name with the checksum of its file, or does nothing. -/
theorem repair_cases (digest : Bytes → String) (conn : Connection) (dir : Directory) (name : String) (updated : Bool)
    (db : Db σ) :
    (cmdRepair digest conn dir name updated db).exit ≠ some 0 ∧ (cmdRepair digest conn dir name updated db).db = db ∨
      ∃ content f, dir.entry name = some content ∧ loadMigration digest name content = .ok f ∧
        restamped digest conn dir name updated = some f.checksum ∧
        (cmdRepair digest conn dir name updated db).db.rows = (updateChecksum name f.checksum db.rows).1 := by
  unfold cmdRepair
  split
  · exact .inl ⟨by simp, rfl⟩
  · next hauto =>
    split
    · exact .inl ⟨by simp, rfl⟩
    · next hplain =>
      split
      · exact .inl ⟨by simp, rfl⟩
      · exact .inl ⟨by simp, rfl⟩
      · next raw hentry =>
        split
        · exact .inl ⟨by simp, rfl⟩
        · next f hload =>
          split
          · exact .inl ⟨by simp, rfl⟩
          · next hupdated =>
            have hrestamped : restamped digest conn dir name updated = some f.checksum := by
              have hgo : (!conn.autocommit || decide ('/' ∈ name.toList ∨ name = ".") || !updated) = false := by
                simp only [Bool.or_eq_false_iff, decide_eq_false_iff_not]
                exact ⟨⟨Bool.eq_false_iff.mpr hauto, hplain⟩, Bool.eq_false_iff.mpr hupdated⟩
              rw [restamped, hgo, hentry]
              dsimp only
              rw [hload]
              rfl
            refine .inr ⟨_, f, hentry, hload, hrestamped, ?_⟩
            rw [name_of_load hload]
            dsimp only
            split
            · rfl
            · rfl

/-- The other rows stay, and the row of the name keeps its name. -/
theorem rowsByName_updateChecksum (name checksum : String) (rows : List AppliedRow) (other : String) :
    rowsByName (updateChecksum name checksum rows).1 other =
      (rowsByName rows other).map fun r => if r.name = name then { r with checksum := checksum } else r := by
  unfold rowsByName updateChecksum
  dsimp only
  rw [← List.map_reverse, List.find?_map]
  congr 1
  apply congrFun
  apply congrArg
  funext r
  show decide ((if r.name = name then { r with checksum := checksum } else r).name = other) = decide (r.name = other)
  split
  · rfl
  · rfl

/-- A repair writes a checksum into rows that are there. -/
theorem names_updateChecksum (name checksum : String) (rows : List AppliedRow) :
    (updateChecksum name checksum rows).1.map AppliedRow.name = rows.map AppliedRow.name := by
  unfold updateChecksum
  rw [List.map_map]
  apply List.map_congr_left
  intro r _
  show (if r.name = name then { r with checksum := checksum } else r).name = r.name
  split
  · rfl
  · rfl

theorem name_of_rowsByName {rows : List AppliedRow} {name : String} {r : AppliedRow}
    (h : rowsByName rows name = some r) : r.name = name := by
  simpa using List.find?_some h

/-- What is not the name has the row it had. -/
theorem rowsByName_updateChecksum_of_ne {name other : String} (hne : other ≠ name) (checksum : String)
    (rows : List AppliedRow) :
    rowsByName (updateChecksum name checksum rows).1 other = rowsByName rows other := by
  rw [rowsByName_updateChecksum]
  cases hrow : rowsByName rows other with
  | none => rfl
  | some r =>
    rw [Option.map_some, if_neg]
    rw [name_of_rowsByName hrow]
    exact hne

/-- A drifted name has a file and a row. -/
theorem row_of_drift {files : List MigrationFile} {rows : List AppliedRow} {name : String}
    (h : stateAt files rows name = some .drift) :
    name ∈ files.map MigrationFile.name ∧ ∃ r, rowsByName rows name = some r := by
  rw [stateAt_eq] at h
  split at h
  · cases hfile : byName files name with
    | none =>
      rw [hfile] at h
      cases h
    | some f =>
      have hname : f.name = name := by simpa using List.find?_some hfile
      have hf : f ∈ files := List.mem_reverse.1 (List.mem_of_find?_eq_some hfile)
      cases hrow : rowsByName rows name with
      | none =>
        rw [hfile, hrow] at h
        cases h
      | some r => exact ⟨hname ▸ List.mem_map_of_mem hf, r, rfl⟩
  · cases h

/-- A row with the checksum of its file is applied. -/
theorem stateAt_restamped {files : List MigrationFile} (hfiles : (files.map MigrationFile.name).Nodup)
    {f : MigrationFile} (hf : f ∈ files) {rows : List AppliedRow} {r : AppliedRow} (hrow : rowsByName rows f.name = some r) :
    stateAt files (updateChecksum f.name f.checksum rows).1 f.name = some .applied := by
  rw [stateAt_eq, if_pos (.inl (List.mem_map_of_mem hf)), byName_eq hfiles hf, rowsByName_updateChecksum, hrow,
    Option.map_some, if_pos (name_of_rowsByName hrow)]
  simp [stateOf]

/-- The repaired name is drifted or applied before, and applied after. -/
theorem stateAt_updateChecksum {files : List MigrationFile} (hfiles : (files.map MigrationFile.name).Nodup)
    {f : MigrationFile} (hf : f ∈ files) (rows : List AppliedRow) :
    stateAt files (updateChecksum f.name f.checksum rows).1 f.name = stateAt files rows f.name ∨
      stateAt files rows f.name = some .drift ∧
        stateAt files (updateChecksum f.name f.checksum rows).1 f.name = some .applied := by
  have hlisted : f.name ∈ files.map MigrationFile.name := List.mem_map_of_mem hf
  cases hrow : rowsByName rows f.name with
  | none =>
    left
    rw [stateAt_eq, stateAt_eq, rowsByName_updateChecksum, hrow, names_updateChecksum]
    rfl
  | some r =>
    rw [stateAt_restamped hfiles hf hrow, stateAt_eq, if_pos (.inl hlisted), byName_eq hfiles hf, hrow]
    by_cases hsum : r.checksum = f.checksum
    · left
      simp [stateOf, hsum]
    · right
      simp [stateOf, hsum]

/-- A repair whose file is one of the discovered ones does what it is documented to do. -/
theorem documented_repair_listed {digest : Bytes → String} {dir : Directory} {files : List MigrationFile}
    (h : discover digest dir = .ok files) {conn : Connection} {name : String} {updated : Bool} {db db' : Db σ}
    {f : MigrationFile} (hf : f ∈ files) (hname : f.name = name)
    (hrows : db'.rows = (updateChecksum name f.checksum db.rows).1) :
    Documented files (.repair conn name updated) db db' := by
  subst hname
  have hfiles := (names_of_discover h).1
  -- Only the rows of the one name are written.
  have hother : ∀ other, other ≠ f.name → stateAt files db'.rows other = stateAt files db.rows other := by
    intro other hne
    rw [stateAt_eq, stateAt_eq, hrows, rowsByName_updateChecksum_of_ne hne, names_updateChecksum]
  have hnamed := stateAt_updateChecksum hfiles hf db.rows
  rw [← hrows] at hnamed
  refine ⟨?_, ?_, ?_, ?_⟩
  · intro other
    by_cases hne : other = f.name
    · subst hne
      obtain hsame | hmoved := hnamed
      · exact .inl hsame
      · exact .inr ⟨rfl, hmoved⟩
    · exact .inl (hother other hne)
  · intro other happlied
    by_cases hne : other = f.name
    · subst hne
      obtain hsame | hmoved := hnamed
      · rw [hsame, happlied]
      · exact hmoved.2
    · rw [hother other hne, happlied]
  · intro other hmissing
    by_cases hne : other = f.name
    · -- A discovered name is not missing.
      subst hne
      rw [stateAt_eq, if_pos (.inl (List.mem_map_of_mem hf)), byName_eq hfiles hf] at hmissing
      cases hrow : rowsByName db.rows f.name with
      | none =>
        rw [hrow] at hmissing
        cases hmissing
      | some r =>
        rw [hrow, stateOf] at hmissing
        split at hmissing
        · cases hmissing
        · cases hmissing
    · rw [hrows, rowsByName_updateChecksum_of_ne hne]
  · intro hdistinct
    rw [hrows, names_updateChecksum]
    exact hdistinct

theorem updateChecksum_same {name checksum : String} {rows : List AppliedRow}
    (hsame : ∀ r ∈ rows, r.name = name → r.checksum = checksum) : (updateChecksum name checksum rows).1 = rows := by
  have hrow : ∀ r ∈ rows, (if r.name = name then { r with checksum := checksum } else r) = id r := by
    intro r hr
    split
    · next hname => rw [← hsame r hr hname, id]
    · rfl
  rw [updateChecksum, List.map_congr_left hrow, List.map_id]

/-- A command that leaves the rows leaves the states. -/
theorem documented_same {files : List MigrationFile} {conn : Connection} {name : String} {updated : Bool}
    {db db' : Db σ} (hrows : db'.rows = db.rows) : Documented files (.repair conn name updated) db db' where
  moves other := by rw [hrows]; exact .inl rfl
  applied other happlied := by rw [hrows, happlied]
  missing other _ := by rw [hrows]
  distinct hdistinct := by rw [hrows]; exact hdistinct

/-- A repair gives no row of a file that is not listed another checksum. -/
def RepairsListed (digest : Bytes → String) (dir : Directory) : Command σ → Db σ → Prop
  | .repair conn name updated, db => listed name = true ∨
    ∀ checksum, restamped digest conn dir name updated = some checksum → ∀ r ∈ db.rows, r.name = name → r.checksum = checksum
  | _, _ => True

instance (digest : Bytes → String) (dir : Directory) (c : Command σ) (db : Db σ) :
    Decidable (RepairsListed digest dir c db) :=
  match c with
  | .repair conn name updated =>
    match h : restamped digest conn dir name updated with
    | none => .isTrue (.inr fun checksum heq => by rw [h] at heq; cases heq)
    | some checksum =>
      decidable_of_iff (listed name = true ∨ ∀ r ∈ db.rows, r.name = name → r.checksum = checksum)
        (or_congr Iff.rfl ⟨fun hall c heq => by rw [h] at heq; cases heq; exact hall, fun hall => hall checksum h⟩)
  | .apply _ _ _ _ => inferInstanceAs (Decidable True)
  | .baseline _ _ _ _ _ => inferInstanceAs (Decidable True)

/-- A repair changes no state but that of its own name. -/
theorem documented_repair {digest : Bytes → String} {dir : Directory} {files : List MigrationFile}
    (h : discover digest dir = .ok files) (conn : Connection) (name : String) (updated : Bool) (db : Db σ)
    (hrule : RepairsListed digest dir (.repair conn name updated) db) :
    Documented files (.repair conn name updated) db (cmdRepair digest conn dir name updated db).db := by
  obtain ⟨-, hsame⟩ | ⟨content, f, hentry, hload, hrestamped, hrows⟩ := repair_cases digest conn dir name updated db
  · exact documented_same (by rw [hsame])
  · cases hlisted : listed name with
    | true => exact documented_repair_listed h (mem_discover h hentry hlisted hload) (name_of_load hload) hrows
    | false =>
      have hsame : ∀ r ∈ db.rows, r.name = name → r.checksum = f.checksum := by
        obtain htrue | hall := hrule
        · rw [hlisted] at htrue
          cases htrue
        · exact hall _ hrestamped
      refine documented_same ?_
      rw [hrows, updateChecksum_same hsame]

/-- A repair of a drifted name that exits with 0 has applied it. -/
def Mends (digest : Bytes → String) (dir : Directory) (files : List MigrationFile) (db : Db σ) : Prop :=
  ∀ conn name updated, (cmdRepair digest conn dir name updated db).exit = some 0 →
    stateAt files db.rows name = some .drift →
    stateAt files (cmdRepair digest conn dir name updated db).db.rows name = some .applied

theorem mends {digest : Bytes → String} {dir : Directory} {files : List MigrationFile}
    (h : discover digest dir = .ok files) (db : Db σ) : Mends digest dir files db := by
  intro conn name updated hexit hdrift
  obtain ⟨hfiles, hnames⟩ := names_of_discover h
  obtain ⟨hfailed, -⟩ | ⟨content, f, hentry, hload, -, hrows⟩ := repair_cases digest conn dir name updated db
  · exact absurd hexit hfailed
  · obtain rfl := name_of_load hload
    obtain ⟨hlisted, r, hrow⟩ := row_of_drift hdrift
    have hf := mem_discover h hentry ((hnames _).mp hlisted).1 hload
    rw [hrows]
    exact stateAt_restamped hfiles hf hrow

/-- **One command.** -/
theorem documented_step {digest : Bytes → String} {dir : Directory} {files : List MigrationFile}
    (h : discover digest dir = .ok files) (c : Command σ) (db : Db σ) (hrule : RepairsListed digest dir c db) :
    Documented files c db ((machine digest dir).step c db) := by
  have hfiles := (names_of_discover h).1
  cases c with
  | apply b conn dryRun upTo =>
    have hstep : (machine digest dir).step (.apply b conn dryRun upTo) db =
        (cmdApply b conn (.ok files) dryRun upTo db).db := by
      simp [machine, h, applyIn]
    rw [hstep]
    exact documented_apply hfiles b conn dryRun upTo db
  | baseline s conn upTo assumeYes prompt =>
    have hstep : (machine digest dir).step (.baseline s conn upTo assumeYes prompt) db =
        (cmdBaseline s conn (.ok files) upTo assumeYes prompt db).db := by
      simp [machine, h]
    rw [hstep]
    exact documented_baseline hfiles s conn upTo assumeYes prompt db
  | repair conn name updated => exact documented_repair h conn name updated db hrule

/-! ### `apply` converges -/

/-- Every name is applied. -/
def UpToDate (files : List MigrationFile) (rows : List AppliedRow) : Prop :=
  ∀ s ∈ computeStates files rows, s.state = .applied

theorem UpToDate.pending {files : List MigrationFile} {rows : List AppliedRow} (h : UpToDate files rows) :
    Migrations.pending (computeStates files rows) = [] := by
  apply List.filter_eq_nil_iff.2
  intro s hs
  rw [h s hs]
  decide

theorem UpToDate.blocking {files : List MigrationFile} {rows : List AppliedRow} (h : UpToDate files rows) :
    Migrations.blocking (computeStates files rows) = [] := by
  apply List.filter_eq_nil_iff.2
  intro s hs
  rw [h s hs]
  decide

/-- On an up-to-date table `status` passes, with or without `--check`. -/
theorem UpToDate.status {files : List MigrationFile} {db : Db σ} (h : UpToDate files db.rows) (check : Bool) :
    (cmdStatus (.ok files) check db).exit = some 0 := by
  unfold cmdStatus
  dsimp only
  rw [h.pending, h.blocking]
  split
  · rfl
  · simp

/-- On an up-to-date table `apply` runs nothing. -/
theorem UpToDate.apply {files : List MigrationFile} {db : Db σ} (h : UpToDate files db.rows) (b : Behaviour σ)
    (conn : Connection) (dryRun : Bool) (upTo : Option String) :
    (cmdApply b conn (.ok files) dryRun upTo db).executed = [] := by
  have hqueue : queueOf (computeStates files db.rows) upTo = [] := by
    rw [queueOf, h.pending]
    rfl
  have hstates : (applyStates b conn.sqlite dryRun (queueOf (computeStates files db.rows) upTo) db).executed = [] := by
    rw [hqueue]
    rfl
  unfold cmdApply
  split
  · rfl
  · dsimp only
    split
    · rfl
    · split
      · split
        · rfl
        · exact hstates
      · exact hstates

/-- A run without `--to` that returns 0 leaves every name applied. -/
theorem upToDate_of_apply {files : List MigrationFile} (hfiles : (files.map MigrationFile.name).Nodup)
    {b : Behaviour σ} {conn : Connection} {db : Db σ} (hexit : (cmdApply b conn (.ok files) false none db).exit = 0) :
    UpToDate files (cmdApply b conn (.ok files) false none db).db.rows := by
  obtain ⟨k, hk, hzero⟩ := recorded_cmdApply b conn (.ok files) none db
  obtain ⟨hlength, hgo⟩ := hzero.1 hexit
  have hunblocked : blocking (computeStates files db.rows) = [] := by
    by_contra hblocked
    exact hgo (.inr (.inr (.inl ⟨files, rfl, hblocked⟩)))
  have hnew := unrecorded_queueOf files db.rows none
  have hrows : (cmdApply b conn (.ok files) false none db).db.rows =
      db.rows ++ (queueOf (computeStates files db.rows) none).map rowOf := by
    rw [hk.rows, hlength, List.take_length]
    rfl
  rw [hrows]
  intro s hs
  obtain ⟨hstate, -⟩ := stateAt_of_mem hs
  by_cases hmem : s.name ∈ (queueOf (computeStates files db.rows) none).map MigrationFile.name
  · rw [((stateAt_stamped hfiles hnew s.name).1 hmem).2] at hstate
    exact (Option.some.inj hstate).symm
  · -- Nothing was done about this name, so it was neither blocked nor pending.
    rw [((stateAt_stamped hfiles hnew s.name).2 hmem).1] at hstate
    obtain ⟨s', hs', hname, hsame⟩ := mem_of_stateAt hstate
    rw [← hsame]
    cases hs'state : s'.state with
    | applied => rfl
    | pending =>
      exfalso
      obtain ⟨-, hfile⟩ := stateAt_of_mem hs'
      have hof : s'.state = stateOf (byName files s'.name) (rowsByName db.rows s'.name) := by
        obtain ⟨name, -, rfl⟩ := List.mem_map.1 hs'
        rfl
      rw [hs'state] at hof
      cases hby : byName files s'.name with
      | none =>
        rw [hby] at hof
        cases hof
      | some f =>
        have hfname : f.name = s'.name := by simpa using List.find?_some hby
        refine hmem (List.mem_map.2 ⟨f, ?_, hfname.trans hname⟩)
        refine List.mem_filter.2 ⟨List.mem_filterMap.2 ⟨s', List.mem_filter.2 ⟨hs', by simpa using hs'state⟩, ?_⟩, rfl⟩
        rw [hfile, hby]
    | drift =>
      have hin : s' ∈ blocking (computeStates files db.rows) := List.mem_filter.2 ⟨hs', by simp [hs'state]⟩
      rw [hunblocked] at hin
      cases hin
    | missing =>
      have hin : s' ∈ blocking (computeStates files db.rows) := List.mem_filter.2 ⟨hs', by simp [hs'state]⟩
      rw [hunblocked] at hin
      cases hin

/-- A run of the commands keeps the names of the rows distinct, and its last command does
what it is documented to do. -/
theorem documented_run {digest : Bytes → String} {dir : Directory} {files : List MigrationFile}
    (h : discover digest dir = .ok files) {db : Db σ} (hrows : (db.rows.map AppliedRow.name).Nodup)
    {before : List (Command σ)} {c : Command σ}
    (hrun : (machine digest dir).Admissible (RepairsListed digest dir) db (before ++ [c])) :
    (((machine digest dir).run db before).rows.map AppliedRow.name).Nodup ∧
      Documented files c ((machine digest dir).run db before) ((machine digest dir).run db (before ++ [c])) := by
  induction before generalizing db with
  | nil => exact ⟨hrows, documented_step h c db hrun.1⟩
  | cons first rest ih => exact ih ((documented_step h first db hrun.1).distinct hrows) hrun.2

/-- A run without `--to` that returns 0 is followed by a clean check and by runs that
execute nothing. -/
def Converges (digest : Bytes → String) (dir : Directory) (db : Db σ) : Prop :=
  ∀ b conn after, applyIn (discover digest dir) b conn false none db = some after → after.exit = 0 →
    (cmdStatus (discover digest dir) true after.db).exit = some 0 ∧
    ∀ b' conn' dryRun upTo, ∃ again,
      applyIn (discover digest dir) b' conn' dryRun upTo after.db = some again ∧ again.executed = []

theorem converges {digest : Bytes → String} {dir : Directory} {files : List MigrationFile}
    (h : discover digest dir = .ok files) (db : Db σ) : Converges digest dir db := by
  intro b conn after happly hexit
  rw [h, applyIn, Option.some.injEq] at happly
  subst happly
  have hdate := upToDate_of_apply (names_of_discover h).1 hexit
  rw [h]
  refine ⟨hdate.status true, ?_⟩
  intro b' conn' dryRun upTo
  exact ⟨_, rfl, hdate.apply b' conn' dryRun upTo⟩

/-- **The commands move states only as documented, and `apply` converges.** Over one
directory and any run of commands, if no repair gives a row of a file that is not listed
another checksum. -/
theorem commands_keep_states (digest : Bytes → String) (dir : Directory) (files : List MigrationFile)
    (h : discover digest dir = .ok files) (db : Db σ) (hrows : (db.rows.map AppliedRow.name).Nodup)
    (before : List (Command σ)) (c : Command σ)
    (hrun : (machine digest dir).Admissible (RepairsListed digest dir) db (before ++ [c])) :
    (∀ files rows, ((computeStates files rows).map MigrationState.name).Pairwise (· < ·) ∧
      ∀ name, name ∈ (computeStates files rows).map MigrationState.name ↔
        name ∈ files.map MigrationFile.name ∨ name ∈ rows.map AppliedRow.name) ∧
    (((machine digest dir).run db before).rows.map AppliedRow.name).Nodup ∧
    Documented files c ((machine digest dir).run db before) ((machine digest dir).run db (before ++ [c])) ∧
    Converges digest dir ((machine digest dir).run db before) ∧
    Mends digest dir files ((machine digest dir).run db before) := by
  obtain ⟨hdistinct, hdocumented⟩ := documented_run h hrows hrun
  exact ⟨computeStates_names, hdistinct, hdocumented, converges h _, mends h _⟩

end

/-- The digest of an empty file. -/
def emptyDigest : Bytes → String := fun _ => "e3b0c44298fc1c149afbf4c8996fb92427ae41e4649b934ca495991b7852b855"

/-- What an empty file is loaded as. -/
def emptyFile (name stamp : String) : MigrationFile := ⟨name, stamp, "", emptyDigest [], false, false⟩

/-- Two empty files. -/
def twoFiles : Directory where
  isDir := true
  entries := [("2026-08-05-101500-b.sql", .file []), ("2026-08-04-091530-a.sql", .file [])]
  distinct := by decide

/-- The first of them was changed after it was applied. -/
def drifted : Db Unit := ⟨[⟨"2026-08-04-091530-a.sql", "c0ffee"⟩], ()⟩

def autocommit : Connection := ⟨false, true⟩

/-- The edit is accepted; then what is left is applied. -/
def repairThenApply : List (Command Unit) :=
  [.repair autocommit "2026-08-04-091530-a.sql" true, .apply obliging autocommit false none]

theorem repairThenApply_documented :
    discover emptyDigest twoFiles = .ok [emptyFile "2026-08-04-091530-a.sql" "2026-08-04-091530",
        emptyFile "2026-08-05-101500-b.sql" "2026-08-05-101500"] ∧
      Documented [emptyFile "2026-08-04-091530-a.sql" "2026-08-04-091530",
          emptyFile "2026-08-05-101500-b.sql" "2026-08-05-101500"]
        (.apply obliging autocommit false none)
        ((machine emptyDigest twoFiles).run drifted [.repair autocommit "2026-08-04-091530-a.sql" true])
        ((machine emptyDigest twoFiles).run drifted repairThenApply) ∧
      ((machine emptyDigest twoFiles).run drifted repairThenApply).rows.map AppliedRow.name =
        ["2026-08-04-091530-a.sql", "2026-08-05-101500-b.sql"] := by
  have hfound : discover emptyDigest twoFiles = .ok [emptyFile "2026-08-04-091530-a.sql" "2026-08-04-091530",
      emptyFile "2026-08-05-101500-b.sql" "2026-08-05-101500"] := by rfl
  refine ⟨hfound, ?_, by decide +kernel⟩
  exact (commands_keep_states emptyDigest twoFiles _ hfound drifted (by decide)
    [.repair autocommit "2026-08-04-091530-a.sql" true] (.apply obliging autocommit false none)
    (by decide +kernel)).2.2.1

/-- An empty file under a name that ends in a line break. -/
def brokenName : Directory where
  isDir := true
  entries := [("2026-08-04-091530-a.sql\n", .file [])]
  distinct := by decide

/-- The row of that name, which is missing. -/
def brokenRow : Db Unit := ⟨[⟨"2026-08-04-091530-a.sql\n", "c0ffee"⟩], ()⟩

/-- The file is not listed, so its row is missing; it is loaded all the same, and a repair
rewrites the row. -/
theorem repair_touches_missing_row :
    discover emptyDigest brokenName = .ok [] ∧ (brokenRow.rows.map AppliedRow.name).Nodup ∧
      stateAt [] brokenRow.rows "2026-08-04-091530-a.sql\n" = some .missing ∧
      (cmdRepair emptyDigest autocommit brokenName "2026-08-04-091530-a.sql\n" true brokenRow).exit = some 0 ∧
      ¬ Documented [] (.repair autocommit "2026-08-04-091530-a.sql\n" true) brokenRow
        ((machine emptyDigest brokenName).step (.repair autocommit "2026-08-04-091530-a.sql\n" true) brokenRow) := by
  have hmissing : stateAt [] brokenRow.rows "2026-08-04-091530-a.sql\n" = some .missing := by decide +kernel
  refine ⟨rfl, by decide, hmissing, by decide +kernel, ?_⟩
  intro hdocumented
  have htouched := hdocumented.missing _ hmissing
  revert htouched
  decide +kernel

end PyAppRunner.Migrations
