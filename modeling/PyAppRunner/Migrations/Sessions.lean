import PyAppRunner.Migrations.Commands

/-! `cmd_apply` and `cmd_baseline` in many sessions at once, an await at a time.

A session runs one command after another over its own connection; what it does next is the
statement it awaits, with everything the command has decided so far. An input lets one
statement be answered, starts a command, or ends a session, so that an interleaving is a
list of inputs. An answer may be an exception: the statement was not done, or it was done
and the answer was lost. A cancelled command takes the same way out as a failed one.

The lock is the session's on Postgres, which may take it again, and the open file's on
SQLite, which may not. It is taken before anything is read and given back after the last
commit, so at most one session is between the two (`Inv.alone`), and what that session
has found pending stays pending until it writes the row itself. -/
namespace PyAppRunner.Migrations.Sessions
open Base

/-- What a session was started for. -/
inductive Task where
  | apply (dryRun : Bool) (upTo : Option String)
  | baseline (upTo : Option String) (assumeYes : Bool) (prompt : String → Option String)

/-- What a session awaits. `f` is the file at hand and `rest` the ones after it; `left` is
how many statements of the file come after this one; `chosen` is all that a baseline stamps. -/
inductive Pc where
  | idle
  | lock (task : Task)
  | ensureTable (task : Task)
  | appliedRows (task : Task)
  | keysOff (f : MigrationFile) (rest : List MigrationFile)
  | begin (f : MigrationFile) (rest : List MigrationFile)
  | execute (f : MigrationFile) (rest : List MigrationFile) (left : Nat)
  | checkKeys (f : MigrationFile) (rest : List MigrationFile)
  | record (f : MigrationFile) (rest : List MigrationFile)
  | commit (f : MigrationFile) (rest : List MigrationFile)
  | rollback (f : MigrationFile)
  | keysOn (rest : List MigrationFile) (ok : Bool)
  | executeAlone (f : MigrationFile) (rest : List MigrationFile) (left : Nat)
  | recordAlone (f : MigrationFile) (rest : List MigrationFile)
  | beginStamps (chosen : List MigrationFile)
  | stamp (chosen : List MigrationFile) (f : MigrationFile) (rest : List MigrationFile)
  | commitStamps (chosen : List MigrationFile)
  | rollbackStamps
  | unlock

/-- The statement went through; or it raised, and was not done, or was done all the same. -/
inductive Answer where
  | fine
  | failed
  | lost
deriving DecidableEq

/-- What happened, in order: a file's SQL was sent, it took effect for good, a file was
stamped by a baseline, a row was sent to the tracking table, and whether there was one of
its name. -/
inductive Event where
  | sent (name : String)
  | landed (name : String)
  | stamped (name : String)
  | inserted (name : String) (clash : Bool)
deriving DecidableEq

/-- `ι` names the sessions. `rows` are committed; the lock has an owner and says how often
it was taken; `log` is history. -/
structure World (ι : Type) where
  rows : List AppliedRow
  uncommitted : List (ι × AppliedRow)
  lock : Option (ι × Nat)
  pc : ι → Pc
  log : List Event

/-- A session starts, goes on, or loses its connection. -/
inductive Input (ι : Type) where
  | start (i : ι) (autocommit : Bool) (task : Task)
  | go (i : ι) (a : Answer)
  | close (i : ι)

/-! ### What a command does next -/

/-- The database, what `discover` makes of the directory, and how many statements a file is
sent as: one on Postgres, on SQLite as many as `split_statements` finds. -/
structure Site where
  sqlite : Bool
  files : Except LoadError (List MigrationFile)
  parts : MigrationFile → Nat

/-- The file takes enforcement of foreign keys off around its transaction. -/
def Site.switchesKeys (s : Site) (f : MigrationFile) : Bool := f.foreignKeysOff && s.sqlite

/-- The next file of the queue, or the way out. -/
def nextFile (s : Site) : List MigrationFile → Pc
  | [] => .unlock
  | f :: rest =>
    if f.noTransaction then
      match s.parts f with
      | 0 => .recordAlone f rest
      | n + 1 => .executeAlone f rest n
    else if s.switchesKeys f then .keysOff f rest
    else .begin f rest

/-- The SQL of a file came to its end. -/
def executed (s : Site) (f : MigrationFile) (rest : List MigrationFile) : Pc :=
  if s.switchesKeys f then .checkKeys f rest else .record f rest

/-- So many statements of a file in a transaction are to be sent. -/
def sending (s : Site) (f : MigrationFile) (rest : List MigrationFile) : Nat → Pc
  | 0 => executed s f rest
  | n + 1 => .execute f rest n

/-- The transaction of a file is over. -/
def afterFile (s : Site) (f : MigrationFile) (rest : List MigrationFile) (ok : Bool) : Pc :=
  if s.switchesKeys f then .keysOn rest ok else if ok then nextFile s rest else .unlock

/-- The statement for the next stamp, or the commit after the last. -/
def nextStamp (chosen : List MigrationFile) : List MigrationFile → Pc
  | [] => .commitStamps chosen
  | f :: rest => .stamp chosen f rest

/-- `--to` names no file. -/
def unknown (states : List MigrationState) : Option String → Bool
  | none => false
  | some t => t ∉ known states

/-- From the rows on. -/
def decided (s : Site) (rows : List AppliedRow) (task : Task) : Pc :=
  match s.files with
  | .error _ => .unlock
  | .ok files =>
    let states := computeStates files rows
    match task with
    | .apply dryRun upTo =>
      if blocking states ≠ [] then .unlock
      else if unknown states upTo then .unlock
      else
        let queue := queueOf states upTo
        if (queue.findSome? (scan s.sqlite)).isSome || dryRun then .unlock else nextFile s queue
    | .baseline upTo assumeYes prompt =>
      if unknown states upTo then .unlock
      else
        let candidates := queueOf states upTo
        if candidates = [] then .unlock
        else match choose prompt assumeYes candidates with
          | .error _ => .unlock
          | .ok chosen => .beginStamps chosen

namespace World
variable {ι : Type} [DecidableEq ι]

/-- A session goes on to a statement. -/
def goto (i : ι) (pc : Pc) (w : World ι) : World ι := { w with pc := Function.update w.pc i pc }

/-- What happened is written down. -/
def note (events : List Event) (w : World ι) : World ι := { w with log := w.log ++ events }

/-- The rows of the transaction the session has open. -/
def mine (i : ι) (w : World ι) : List AppliedRow := (w.uncommitted.filter (·.1 = i)).map Prod.snd

/-- The rows that a session has not committed are gone. -/
def dropMine (i : ι) (w : World ι) : World ι := { w with uncommitted := w.uncommitted.filter (·.1 ≠ i) }

/-- The rows of a session come into the table. -/
def commitMine (i : ι) (w : World ι) : World ι := { w.dropMine i with rows := w.rows ++ w.mine i }

/-- A row of the name is there, committed or not. -/
def clashes (name : String) (w : World ι) : Bool :=
  name ∈ w.rows.map AppliedRow.name || name ∈ w.uncommitted.map fun e => e.2.name

/-- The insert waits for a transaction of another session that has a row of the name. -/
def waits (i : ι) (name : String) (w : World ι) : Bool :=
  name ∉ w.rows.map AppliedRow.name && w.uncommitted.any fun e => e.1 ≠ i && e.2.name = name

/-- An insert in a transaction. -/
def insert (i : ι) (f : MigrationFile) (a : Answer) (ok failed : Pc) (w : World ι) : World ι :=
  let noted := w.note [.inserted f.name (w.clashes f.name)]
  if w.waits i f.name then noted
  else if w.clashes f.name then noted.goto i failed
  else match a with
    | .fine => { noted with uncommitted := w.uncommitted ++ [(i, rowOf f)] }.goto i ok
    | .lost => { noted with uncommitted := w.uncommitted ++ [(i, rowOf f)] }.goto i failed
    | .failed => noted.goto i failed

/-- An insert in no transaction. -/
def insertAlone (i : ι) (f : MigrationFile) (a : Answer) (ok failed : Pc) (w : World ι) : World ι :=
  let noted := w.note [.inserted f.name (w.clashes f.name)]
  if w.waits i f.name then noted
  else if w.clashes f.name then noted.goto i failed
  else match a with
    | .fine => { noted with rows := w.rows ++ [rowOf f] }.goto i ok
    | .lost => { noted with rows := w.rows ++ [rowOf f] }.goto i failed
    | .failed => noted.goto i failed

/-- A commit, with what it means in the history. -/
def commit (i : ι) (events : List Event) (a : Answer) (ok failed : Pc) (w : World ι) : World ι :=
  match a with
  | .fine => ((w.commitMine i).note events).goto i ok
  | .lost => ((w.commitMine i).note events).goto i failed
  | .failed => (w.dropMine i).goto i failed

/-- `pg_advisory_lock`, or `flock` of a file opened for it. An answer that is lost leaves
the lock with the session, and no command that would give it back. -/
def takeLock (sqlite : Bool) (i : ι) (task : Task) (a : Answer) (w : World ι) : World ι :=
  let next : Pc := if a = .fine then .ensureTable task else .idle
  if a = .failed then w.goto i .idle
  else match w.lock with
    | none => { w with lock := some (i, 1) }.goto i next
    | some (j, n) => if j = i ∧ sqlite = false then { w with lock := some (i, n + 1) }.goto i next else w

/-- The lock is held as often as it was taken. -/
def giveLock (i : ι) (w : World ι) : Option (ι × Nat) :=
  match w.lock with
  | none => none
  | some (j, n) => if j = i then if n ≤ 1 then none else some (i, n - 1) else some (j, n)

/-- `_unlock`, or `unlock`, which closes the file whatever comes. -/
def releaseLock (sqlite : Bool) (i : ι) (a : Answer) (w : World ι) : World ι :=
  if a = .failed ∧ sqlite = false then w.goto i .idle else { w with lock := w.giveLock i }.goto i .idle

/-- The process or the connection is gone: what is open is rolled back, what is held is free. -/
def close (i : ι) (w : World ι) : World ι :=
  { w.dropMine i with lock := w.lock.filter (·.1 ≠ i) }.goto i .idle

/-- The next pc, where an answer is all that matters. -/
def answered (i : ι) (a : Answer) (ok failed : Pc) (w : World ι) : World ι :=
  w.goto i (if a = .fine then ok else failed)

/-- A statement of a no-transaction file. With the last one the file has taken effect. -/
def executeAlone (i : ι) (f : MigrationFile) (rest : List MigrationFile) (a : Answer) : Nat → World ι → World ι
  | 0, w =>
    match a with
    | .fine => (w.note [.sent f.name, .landed f.name]).goto i (.recordAlone f rest)
    | .lost => (w.note [.sent f.name, .landed f.name]).goto i .unlock
    | .failed => (w.note [.sent f.name]).goto i .unlock
  | n + 1, w => (w.note [.sent f.name]).answered i a (.executeAlone f rest n) .unlock

/-- What session `i` awaits is answered. -/
def go (s : Site) (i : ι) (a : Answer) (w : World ι) : World ι :=
  match w.pc i with
  | .idle => w
  | .lock task => w.takeLock s.sqlite i task a
  | .ensureTable task => w.answered i a (.appliedRows task) .unlock
  | .appliedRows task => w.answered i a (decided s w.rows task) .unlock
  | .keysOff f rest => w.answered i a (.begin f rest) .unlock
  | .begin f rest => w.answered i a (sending s f rest (s.parts f)) (afterFile s f [] false)
  | .execute f rest left => (w.note [.sent f.name]).answered i a (sending s f rest left) (.rollback f)
  | .checkKeys f rest => w.answered i a (.record f rest) (.rollback f)
  | .record f rest => w.insert i f a (.commit f rest) (.rollback f)
  | .commit f rest => w.commit i [.landed f.name] a (afterFile s f rest true) (afterFile s f [] false)
  | .rollback f => (w.dropMine i).goto i (afterFile s f [] false)
  | .keysOn rest ok => w.answered i a (if ok then nextFile s rest else .unlock) .unlock
  | .executeAlone f rest left => w.executeAlone i f rest a left
  | .recordAlone f rest => w.insertAlone i f a (nextFile s rest) .unlock
  | .beginStamps chosen => w.answered i a (nextStamp chosen chosen) .unlock
  | .stamp chosen f rest => w.insert i f a (nextStamp chosen rest) .rollbackStamps
  | .commitStamps chosen => w.commit i (chosen.map fun f => .stamped f.name) a .unlock .unlock
  | .rollbackStamps => (w.dropMine i).goto i .unlock
  | .unlock => w.releaseLock s.sqlite i a

/-- One step of one session. -/
def step (s : Site) : Input ι → World ι → World ι
  | .start i autocommit task, w =>
    match w.pc i with
    | .idle => if autocommit then w.goto i (.lock task) else w
    | _ => w
  | .go i a, w => w.go s i a
  | .close i, w => w.close i

end World

/-- Any number of sessions on one tracking table. -/
def machine {ι : Type} [DecidableEq ι] (s : Site) : Machine (World ι) (Input ι) := ⟨World.step s⟩

/-- Nobody is at work. -/
def World.start {ι : Type} (rows : List AppliedRow) : World ι := ⟨rows, [], none, fun _ => .idle, []⟩

/-- The answer, or the end of the session, comes between the effect of a no-transaction
file and its row. -/
def Pc.gap : Pc → Option Answer → Bool
  | .executeAlone _ _ 0, some .lost => true
  | .recordAlone _ _, some .failed => true
  | .recordAlone _ _, none => true
  | _, _ => false

/-- Nothing goes wrong there. -/
def NoGap {ι : Type} : Input ι → World ι → Prop
  | .start _ _ _, _ => True
  | .go i a, w => (w.pc i).gap (some a) = false
  | .close i, w => (w.pc i).gap none = false

instance {ι : Type} (input : Input ι) (w : World ι) : Decidable (NoGap input w) :=
  match input with
  | .start _ _ _ => inferInstanceAs (Decidable True)
  | .go _ _ => inferInstanceAs (Decidable (_ = _))
  | .close _ => inferInstanceAs (Decidable (_ = _))

/-! ### What a session has written, and has still to write -/

/-- Past the lock. -/
def Pc.inside : Pc → Prop
  | .idle => False
  | .lock _ => False
  | _ => True

/-- A no-transaction file has taken effect and has no row yet. -/
def Pc.recording : Pc → String → Prop
  | .recordAlone f _, name => f.name = name
  | _, _ => False

/-- The files have different names, and none has a row. -/
structure Fresh (rows : List AppliedRow) (files : List MigrationFile) : Prop where
  distinct : (files.map MigrationFile.name).Nodup
  pending : ∀ f ∈ files, f.name ∉ rows.map AppliedRow.name

/-- `mine` are the rows of the transaction the session has open. -/
def Standing (rows mine : List AppliedRow) : Pc → Prop
  | .keysOff f rest => mine = [] ∧ Fresh rows (f :: rest)
  | .begin f rest => mine = [] ∧ Fresh rows (f :: rest)
  | .execute f rest _ => mine = [] ∧ Fresh rows (f :: rest)
  | .checkKeys f rest => mine = [] ∧ Fresh rows (f :: rest)
  | .record f rest => mine = [] ∧ Fresh rows (f :: rest)
  | .commit f rest => mine = [rowOf f] ∧ Fresh rows (f :: rest)
  | .rollback _ => True
  | .keysOn rest ok => mine = [] ∧ (ok = true → Fresh rows rest)
  | .executeAlone f rest _ => mine = [] ∧ Fresh rows (f :: rest)
  | .recordAlone f rest => mine = [] ∧ Fresh rows (f :: rest)
  | .beginStamps chosen => mine = [] ∧ Fresh rows chosen
  | .stamp chosen f rest => Fresh rows chosen ∧ ∃ before, chosen = before ++ f :: rest ∧ mine = before.map rowOf
  | .commitStamps chosen => Fresh rows chosen ∧ mine = chosen.map rowOf
  | .rollbackStamps => True
  | _ => mine = []

theorem Fresh.tail {rows : List AppliedRow} {f : MigrationFile} {rest : List MigrationFile}
    (h : Fresh rows (f :: rest)) : Fresh (rows ++ [rowOf f]) rest where
  distinct := (List.nodup_cons.1 h.distinct).2
  pending g hg := by
    have hold := h.pending g (List.mem_cons_of_mem _ hg)
    have hne : g.name ≠ f.name := by
      intro heq
      exact (List.nodup_cons.1 h.distinct).1 (heq ▸ List.mem_map_of_mem hg)
    rw [List.map_append, List.mem_append]
    rintro (hmem | hmem)
    · exact hold hmem
    · exact hne (by simpa [rowOf] using hmem)

theorem fresh_queueOf (files : List MigrationFile) (rows : List AppliedRow) (upTo : Option String) :
    Fresh rows (queueOf (computeStates files rows) upTo) :=
  have h := unrecorded_queueOf files rows upTo
  ⟨h.distinct, h.pending⟩

theorem standing_nextFile {s : Site} {rows : List AppliedRow} {queue : List MigrationFile} (h : Fresh rows queue) :
    Standing rows [] (nextFile s queue) := by
  unfold nextFile
  split
  · exact rfl
  · split
    · split
      · exact ⟨rfl, h⟩
      · exact ⟨rfl, h⟩
    · split
      · exact ⟨rfl, h⟩
      · exact ⟨rfl, h⟩

theorem standing_sending {s : Site} {rows : List AppliedRow} {f : MigrationFile} {rest : List MigrationFile}
    (h : Fresh rows (f :: rest)) (n : Nat) : Standing rows [] (sending s f rest n) := by
  cases n with
  | zero =>
    show Standing rows [] (executed s f rest)
    unfold executed
    split
    · exact ⟨rfl, h⟩
    · exact ⟨rfl, h⟩
  | succ n => exact ⟨rfl, h⟩

theorem standing_afterFile {s : Site} {rows : List AppliedRow} (f : MigrationFile) {rest : List MigrationFile}
    {ok : Bool} (h : ok = true → Fresh rows rest) : Standing rows [] (afterFile s f rest ok) := by
  unfold afterFile
  split
  · exact ⟨rfl, h⟩
  · split
    · next hok => exact standing_nextFile (h hok)
    · exact rfl

theorem standing_decided (s : Site) (rows : List AppliedRow) (task : Task) : Standing rows [] (decided s rows task) := by
  unfold decided
  split
  · exact rfl
  · next files _ =>
    dsimp only
    split
    · split
      · exact rfl
      · split
        · exact rfl
        · split
          · exact rfl
          · exact standing_nextFile (fresh_queueOf files rows _)
    · split
      · exact rfl
      · split
        · exact rfl
        · split
          · exact rfl
          · next chosen hchosen =>
            have hqueue := unrecorded_queueOf files rows ‹_›
            have hnew := hqueue.sublist (choose_sublist hchosen)
            exact ⟨rfl, hnew.distinct, hnew.pending⟩

theorem standing_nextStamp {rows : List AppliedRow} {chosen : List MigrationFile} (before rest : List MigrationFile)
    (h : Fresh rows chosen) (heq : chosen = before ++ rest) :
    Standing rows (before.map rowOf) (nextStamp chosen rest) := by
  cases rest with
  | nil =>
    refine ⟨h, ?_⟩
    rw [heq, List.append_nil]
  | cons f rest => exact ⟨h, before, heq, rfl⟩

/-- A session that is not past the lock has written nothing, and one that has is past it. -/
theorem mine_of_outside {rows mine : List AppliedRow} {pc : Pc} (h : ¬ pc.inside) :
    Standing rows mine pc ↔ mine = [] := by
  cases pc with
  | idle => exact Iff.rfl
  | lock task => exact Iff.rfl
  | _ => exact absurd trivial h

/-! ### What the history tells -/

/-- What took effect is recorded or about to be, what was stamped is recorded, and the
three things that must not be there are not. -/
structure Told (rows : List AppliedRow) (recording : String → Prop) (log : List Event) : Prop where
  landed : ∀ name, .landed name ∈ log → name ∈ rows.map AppliedRow.name ∨ recording name
  stamped : ∀ name, .stamped name ∈ log → name ∈ rows.map AppliedRow.name
  once : ∀ name, log.count (.landed name) ≤ 1
  order : log.Pairwise fun a b => ∀ name, a = .stamped name → b ≠ .sent name
  clash : ∀ name, .inserted name true ∉ log

namespace Told
variable {rows rows' : List AppliedRow} {recording recording' : String → Prop} {log : List Event}

theorem mono (h : Told rows recording log) (hrows : ∀ name, name ∈ rows.map AppliedRow.name →
    name ∈ rows'.map AppliedRow.name)
    (hrecording : ∀ name, recording name → name ∈ rows'.map AppliedRow.name ∨ recording' name) :
    Told rows' recording' log where
  landed name hname := (h.landed name hname).elim (fun hmem => .inl (hrows name hmem)) (hrecording name)
  stamped name hname := hrows name (h.stamped name hname)
  once := h.once
  order := h.order
  clash := h.clash

/-- The order is kept by an event that is no sending of a stamped file. -/
theorem order_concat (h : Told rows recording log) {e : Event} (he : ∀ name, .stamped name ∈ log → e ≠ .sent name) :
    (log ++ [e]).Pairwise fun a b => ∀ name, a = .stamped name → b ≠ .sent name := by
  refine List.pairwise_append.2 ⟨h.order, List.pairwise_singleton _ _, ?_⟩
  rintro a ha b hb name rfl
  rw [List.mem_singleton.1 hb]
  exact he name ha

/-- An event that leaves no row. -/
theorem note (h : Told rows recording log) {e : Event} (hlanded : ∀ name, e ≠ .landed name)
    (hstamped : ∀ name, e ≠ .stamped name) (hclash : ∀ name, e ≠ .inserted name true)
    (hsent : ∀ name, .stamped name ∈ log → e ≠ .sent name) : Told rows recording (log ++ [e]) where
  landed name hname := h.landed name (by simpa [(hlanded name).symm] using hname)
  stamped name hname := h.stamped name (by simpa [(hstamped name).symm] using hname)
  once name := by
    have hzero : [e].count (.landed name) = 0 := by
      apply List.count_eq_zero.2
      simpa using (hlanded name).symm
    rw [List.count_append, hzero]
    exact h.once name
  order := h.order_concat hsent
  clash name hname := h.clash name (by simpa [(hclash name).symm] using hname)

theorem sent (h : Told rows recording log) {name : String} (hname : name ∉ rows.map AppliedRow.name) :
    Told rows recording (log ++ [.sent name]) := by
  refine h.note (fun _ => nofun) (fun _ => nofun) (fun _ => nofun) fun other hother heq => ?_
  cases heq
  exact hname (h.stamped name hother)

theorem inserted (h : Told rows recording log) (name : String) :
    Told rows recording (log ++ [.inserted name false]) :=
  h.note (fun _ => nofun) (fun _ => nofun) (fun _ => nofun) fun _ _ => nofun

/-- Before a file takes effect its name is not recorded and not about to be. -/
theorem land (h : Told rows recording log) {name : String} (hname : name ∉ rows.map AppliedRow.name)
    (hnot : ¬ recording name) (hrows : ∀ other, other ∈ rows.map AppliedRow.name → other ∈ rows'.map AppliedRow.name)
    (hrecording : ∀ other, recording other → other ∈ rows'.map AppliedRow.name ∨ recording' other)
    (hnow : name ∈ rows'.map AppliedRow.name ∨ recording' name) :
    Told rows' recording' (log ++ [.landed name]) where
  landed other hother := by
    obtain hold | hnew := List.mem_append.1 hother
    · exact (h.mono hrows hrecording).landed other hold
    · cases List.mem_singleton.1 hnew
      exact hnow
  stamped other hother := hrows other (h.stamped other (by simpa using hother))
  once other := by
    rw [List.count_append]
    by_cases heq : other = name
    · subst heq
      have hnone : log.count (.landed other) = 0 := by
        apply List.count_eq_zero.2
        intro hmem
        exact (h.landed other hmem).elim hname hnot
      simp [hnone]
    · have hzero : [Event.landed name].count (.landed other) = 0 := by
        apply List.count_eq_zero.2
        simpa using heq
      rw [hzero]
      exact h.once other
  order := h.order_concat fun _ _ => nofun
  clash other hother := h.clash other (by simpa using hother)

theorem stamp (h : Told rows recording log) {names : List String}
    (hrows : ∀ other, other ∈ rows.map AppliedRow.name → other ∈ rows'.map AppliedRow.name)
    (hnames : ∀ name ∈ names, name ∈ rows'.map AppliedRow.name) :
    Told rows' recording (log ++ names.map .stamped) where
  landed other hother := by
    have hold : Event.landed other ∈ log := by simpa using hother
    exact (h.landed other hold).imp_left (hrows other)
  stamped other hother := by
    obtain hold | hnew := List.mem_append.1 hother
    · exact hrows other (h.stamped other hold)
    · exact hnames other (by simpa using hnew)
  once other := by
    have hzero : (names.map Event.stamped).count (.landed other) = 0 := by
      apply List.count_eq_zero.2
      simp
    rw [List.count_append, hzero]
    exact h.once other
  order := by
    refine List.pairwise_append.2 ⟨h.order, ?_, ?_⟩
    · refine List.pairwise_of_forall_mem_list ?_
      intro a _ b hb other _ heq
      rw [heq] at hb
      simp at hb
    · intro a _ b hb other _ heq
      rw [heq] at hb
      simp at hb
  clash other hother := h.clash other (by simpa using hother)

end Told

/-! ### The invariant -/

section
variable {ι : Type} [DecidableEq ι]

/-- Whoever is past the lock has it, every session has written what it has written, and
the history is in order. -/
structure Inv (w : World ι) : Prop where
  owner : ∀ i, (w.pc i).inside → ∃ n, w.lock = some (i, n)
  standing : ∀ i, Standing w.rows (w.mine i) (w.pc i)
  told : Told w.rows (fun name => ∃ i, (w.pc i).recording name) w.log

variable {w w' : World ι} {i : ι}

/-- No other session is past the lock. -/
def Alone (w : World ι) (i : ι) : Prop := ∀ j, j ≠ i → ¬ (w.pc j).inside

theorem Inv.alone (h : Inv w) (hi : (w.pc i).inside) : Alone w i := by
  intro j hne hj
  obtain ⟨n, hn⟩ := h.owner i hi
  obtain ⟨m, hm⟩ := h.owner j hj
  rw [hn] at hm
  cases hm
  exact hne rfl

theorem inside_of_recording {pc : Pc} {name : String} (h : pc.recording name) : pc.inside := by
  cases pc with
  | recordAlone f rest => trivial
  | _ => exact h.elim

/-- Only a session that is past the lock is about to record. -/
theorem Inv.told_alone (h : Inv w) (halone : Alone w i) : Told w.rows (w.pc i).recording w.log := by
  refine h.told.mono (fun _ hmem => hmem) ?_
  rintro name ⟨j, hj⟩
  by_cases heq : j = i
  · subst heq
    exact .inr hj
  · exact absurd (inside_of_recording hj) (halone j heq)

/-- Rows that are not committed are those of the session that is past the lock. -/
theorem Inv.uncommitted (h : Inv w) (halone : Alone w i) {e : ι × AppliedRow} (he : e ∈ w.uncommitted) :
    e.1 = i ∧ e.2 ∈ w.mine i := by
  have hmine : e.2 ∈ w.mine e.1 := List.mem_map.2 ⟨e, List.mem_filter.2 ⟨he, by simp⟩, rfl⟩
  by_cases heq : e.1 = i
  · exact ⟨heq, heq ▸ hmine⟩
  · rw [(mine_of_outside (halone e.1 heq)).1 (h.standing e.1)] at hmine
    cases hmine

/-- What a session does while no other is past the lock is nothing to the others. -/
theorem Inv.move (h : Inv w) (halone : Alone w i) (hpc : ∀ j, j ≠ i → w'.pc j = w.pc j)
    (hmine : ∀ j, j ≠ i → w'.mine j = w.mine j) (howner : (w'.pc i).inside → ∃ n, w'.lock = some (i, n))
    (hstanding : Standing w'.rows (w'.mine i) (w'.pc i)) (htold : Told w'.rows (w'.pc i).recording w'.log) :
    Inv w' := by
  refine ⟨?_, ?_, ?_⟩
  · intro j hj
    by_cases heq : j = i
    · subst heq
      exact howner hj
    · rw [hpc j heq] at hj
      exact absurd hj (halone j heq)
  · intro j
    by_cases heq : j = i
    · subst heq
      exact hstanding
    · rw [hpc j heq, hmine j heq, mine_of_outside (halone j heq)]
      exact (mine_of_outside (halone j heq)).1 (h.standing j)
  · exact htold.mono (fun _ hmem => hmem) fun name hname => .inr ⟨i, hname⟩

/-! ### Changes of the world -/

@[simp] theorem pc_goto_self (pc : Pc) : (w.goto i pc).pc i = pc := by
  simp [World.goto]

theorem pc_goto_of_ne {j : ι} (hne : j ≠ i) (pc : Pc) : (w.goto i pc).pc j = w.pc j := by
  simp [World.goto, hne]

theorem mine_append (row : AppliedRow) (j : ι) :
    World.mine j { w with uncommitted := w.uncommitted ++ [(i, row)] } =
      if j = i then w.mine j ++ [row] else w.mine j := by
  unfold World.mine
  by_cases heq : j = i
  · subst heq
    simp
  · have hne : i ≠ j := Ne.symm heq
    simp [heq, hne]

theorem mine_dropMine (j : ι) : (w.dropMine i).mine j = if j = i then [] else w.mine j := by
  unfold World.mine World.dropMine
  rw [List.filter_filter]
  by_cases heq : j = i
  · subst heq
    simp
  · rw [if_neg heq]
    congr 1
    apply List.filter_congr
    intro e _
    by_cases he : e.1 = j
    · simp [he, heq]
    · simp [he]

theorem mem_rows_commitMine {name : String} : name ∈ (w.commitMine i).rows.map AppliedRow.name ↔
    name ∈ w.rows.map AppliedRow.name ∨ name ∈ (w.mine i).map AppliedRow.name := by
  simp [World.commitMine]

/-- The session goes on with what it has. -/
theorem Inv.goto (h : Inv w) (hi : (w.pc i).inside) (hnot : ∀ name, ¬ (w.pc i).recording name) {pc : Pc}
    (hstanding : Standing w.rows (w.mine i) pc) : Inv (w.goto i pc) := by
  refine h.move (h.alone hi) (fun j hne => pc_goto_of_ne hne pc) (fun _ _ => rfl) (fun _ => h.owner i hi) ?_ ?_
  · rw [pc_goto_self]
    exact hstanding
  · exact (h.told_alone (h.alone hi)).mono (fun _ hmem => hmem) fun name hname => absurd hname (hnot name)

theorem Inv.answered (h : Inv w) (hi : (w.pc i).inside) (hnot : ∀ name, ¬ (w.pc i).recording name) {a : Answer}
    {ok failed : Pc} (hok : Standing w.rows (w.mine i) ok) (hfailed : Standing w.rows (w.mine i) failed) :
    Inv (w.answered i a ok failed) := by
  unfold World.answered
  split
  · exact h.goto hi hnot hok
  · exact h.goto hi hnot hfailed

/-- SQL of a file without a row is sent. -/
theorem Inv.sent (h : Inv w) (hi : (w.pc i).inside) {name : String} (hname : name ∉ w.rows.map AppliedRow.name) :
    Inv (w.note [.sent name]) :=
  h.move (h.alone hi) (fun _ _ => rfl) (fun _ _ => rfl) (fun _ => h.owner i hi) (h.standing i)
    ((h.told_alone (h.alone hi)).sent hname)

/-- What is open is rolled back. -/
theorem Inv.dropMine (h : Inv w) (hi : (w.pc i).inside) (hnot : ∀ name, ¬ (w.pc i).recording name) {pc : Pc}
    (hstanding : Standing w.rows [] pc) : Inv ((w.dropMine i).goto i pc) := by
  refine h.move (h.alone hi) (fun j hne => pc_goto_of_ne hne pc) ?_ (fun _ => h.owner i hi) ?_ ?_
  · intro j hne
    show (w.dropMine i).mine j = w.mine j
    rw [mine_dropMine, if_neg hne]
  · rw [pc_goto_self]
    show Standing w.rows ((w.dropMine i).mine i) pc
    rw [mine_dropMine, if_pos rfl]
    exact hstanding
  · exact (h.told_alone (h.alone hi)).mono (fun _ hmem => hmem) fun name hname => absurd hname (hnot name)

/-- A name that is neither recorded nor in the open transaction clashes with nothing. -/
theorem Inv.clashes (h : Inv w) (hi : (w.pc i).inside) {name : String} (hname : name ∉ w.rows.map AppliedRow.name)
    (hmine : name ∉ (w.mine i).map AppliedRow.name) : w.clashes name = false ∧ w.waits i name = false := by
  have huncommitted : ∀ e ∈ w.uncommitted, e.2.name ≠ name := by
    intro e he heq
    exact hmine (heq ▸ List.mem_map_of_mem (h.uncommitted (h.alone hi) he).2)
  constructor
  · simp only [World.clashes, Bool.or_eq_false_iff, decide_eq_false_iff_not]
    refine ⟨hname, ?_⟩
    intro hmem
    obtain ⟨e, he, heq⟩ := List.mem_map.1 hmem
    exact huncommitted e he heq
  · simp only [World.waits, Bool.and_eq_false_iff]
    right
    apply List.any_eq_false.2
    intro e he
    simp [huncommitted e he]

/-- An insert in a transaction goes to its next statement, or to the rollback. -/
theorem Inv.insert (h : Inv w) (hi : (w.pc i).inside) (hnot : ∀ name, ¬ (w.pc i).recording name) {f : MigrationFile}
    (hname : f.name ∉ w.rows.map AppliedRow.name) (hmine : f.name ∉ (w.mine i).map AppliedRow.name) {a : Answer}
    {ok failed : Pc} (hok : Standing w.rows (w.mine i ++ [rowOf f]) ok)
    (hfailed : ∀ mine, Standing w.rows mine failed) : Inv (w.insert i f a ok failed) := by
  obtain ⟨hclash, hwaits⟩ := h.clashes hi hname hmine
  have htold := (h.told_alone (h.alone hi)).inserted f.name
  have hadded : ∀ pc, Standing w.rows (w.mine i ++ [rowOf f]) pc → Inv
      ({ w.note [.inserted f.name false] with uncommitted := w.uncommitted ++ [(i, rowOf f)] }.goto i pc) := by
    intro pc hstanding
    refine h.move (h.alone hi) (fun j hne => pc_goto_of_ne hne pc) ?_ (fun _ => h.owner i hi) ?_ ?_
    · intro j hne
      exact (mine_append (rowOf f) j).trans (if_neg hne)
    · rw [pc_goto_self]
      have hrows := (mine_append (w := w) (i := i) (rowOf f) i).trans (if_pos rfl)
      show Standing w.rows (World.mine i { w with uncommitted := w.uncommitted ++ [(i, rowOf f)] }) pc
      rw [hrows]
      exact hstanding
    · exact htold.mono (fun _ hmem => hmem) fun name hname => absurd hname (hnot name)
  unfold World.insert
  rw [hclash, hwaits]
  cases a with
  | fine => exact hadded ok hok
  | lost => exact hadded failed (hfailed _)
  | failed =>
    show Inv ((w.note [.inserted f.name false]).goto i failed)
    refine h.move (h.alone hi) (fun j hne => pc_goto_of_ne hne failed) (fun _ _ => rfl) (fun _ => h.owner i hi) ?_ ?_
    · rw [pc_goto_self]
      exact hfailed _
    · exact htold.mono (fun _ hmem => hmem) fun name hname => absurd hname (hnot name)

/-- The rows of the open transaction are committed, with what that means in the history. -/
theorem Inv.committed (h : Inv w) (hi : (w.pc i).inside) {events : List Event} {pc : Pc}
    (hstanding : Standing (w.commitMine i).rows [] pc)
    (htold : Told (w.commitMine i).rows pc.recording (w.log ++ events)) :
    Inv (((w.commitMine i).note events).goto i pc) := by
  refine h.move (h.alone hi) (fun j hne => pc_goto_of_ne hne pc) ?_ (fun _ => h.owner i hi) ?_ ?_
  · intro j hne
    show (w.dropMine i).mine j = w.mine j
    rw [mine_dropMine, if_neg hne]
  · rw [pc_goto_self]
    show Standing (w.commitMine i).rows ((w.dropMine i).mine i) pc
    rw [mine_dropMine, if_pos rfl]
    exact hstanding
  · rw [pc_goto_self]
    exact htold

/-- The commit of a file. -/
theorem Inv.commitFile (h : Inv w) {f : MigrationFile} {rest : List MigrationFile} (hpc : w.pc i = .commit f rest)
    {a : Answer} (s : Site) :
    Inv (w.commit i [.landed f.name] a (afterFile s f rest true) (afterFile s f [] false)) := by
  have hi : (w.pc i).inside := by rw [hpc]; trivial
  obtain ⟨hmine, hfresh⟩ : w.mine i = [rowOf f] ∧ Fresh w.rows (f :: rest) := by
    have hst := h.standing i
    rw [hpc] at hst
    exact hst
  have hrows : (w.commitMine i).rows = w.rows ++ [rowOf f] := by
    rw [World.commitMine, hmine]
  have htold : ∀ recording, Told (w.commitMine i).rows recording (w.log ++ [.landed f.name]) := by
    intro recording
    refine (h.told_alone (h.alone hi)).land (hfresh.pending f List.mem_cons_self) (by rw [hpc]; exact id) ?_ ?_ ?_
    · exact fun other hother => mem_rows_commitMine.2 (.inl hother)
    · rw [hpc]
      exact fun other hother => hother.elim
    · refine .inl (mem_rows_commitMine.2 (.inr ?_))
      rw [hmine]
      simp [rowOf]
  unfold World.commit
  cases a with
  | fine =>
    refine h.committed hi ?_ (htold _)
    rw [hrows]
    exact standing_afterFile f fun _ => hfresh.tail
  | lost => exact h.committed hi (standing_afterFile f (by simp)) (htold _)
  | failed => exact h.dropMine hi (by rw [hpc]; exact fun _ => id) (standing_afterFile f (by simp))

/-- The commit of a baseline. -/
theorem Inv.commitStamps (h : Inv w) {chosen : List MigrationFile} (hpc : w.pc i = .commitStamps chosen) {a : Answer} :
    Inv (w.commit i (chosen.map fun f => .stamped f.name) a .unlock .unlock) := by
  have hi : (w.pc i).inside := by rw [hpc]; trivial
  have hmine : w.mine i = chosen.map rowOf := by
    have hst := h.standing i
    rw [hpc] at hst
    exact hst.2
  have htold : Told (w.commitMine i).rows Pc.unlock.recording (w.log ++ chosen.map fun f => .stamped f.name) := by
    have hnames : chosen.map (fun f => Event.stamped f.name) = (chosen.map MigrationFile.name).map .stamped := by
      simp
    have hbefore := h.told_alone (h.alone hi)
    rw [hpc] at hbefore
    rw [hnames]
    refine Told.stamp hbefore ?_ ?_
    · exact fun other hother => mem_rows_commitMine.2 (.inl hother)
    · intro name hname
      refine mem_rows_commitMine.2 (.inr ?_)
      rw [hmine]
      simpa [rowOf] using hname
  unfold World.commit
  cases a with
  | fine => exact h.committed hi rfl htold
  | lost => exact h.committed hi rfl htold
  | failed => exact h.dropMine hi (by rw [hpc]; exact fun _ => id) rfl

/-- The SQL of a no-transaction file, whose last answer is not lost. -/
theorem Inv.executeAlone (h : Inv w) {f : MigrationFile} {rest : List MigrationFile} {left : Nat}
    (hpc : w.pc i = .executeAlone f rest left) {a : Answer} (hgap : (w.pc i).gap (some a) = false) :
    Inv (w.executeAlone i f rest a left) := by
  have hi : (w.pc i).inside := by rw [hpc]; trivial
  have hnot : ∀ name, ¬ (w.pc i).recording name := by rw [hpc]; exact fun _ => id
  obtain ⟨hmine, hfresh⟩ : w.mine i = [] ∧ Fresh w.rows (f :: rest) := by
    have hst := h.standing i
    rw [hpc] at hst
    exact hst
  have hname := hfresh.pending f List.mem_cons_self
  have hsent := h.sent hi hname
  cases left with
  | succ n => exact hsent.answered hi hnot ⟨hmine, hfresh⟩ hmine
  | zero =>
    cases a with
    | fine =>
      show Inv ((w.note [.sent f.name, .landed f.name]).goto i (.recordAlone f rest))
      refine h.move (h.alone hi) (fun j hne => pc_goto_of_ne hne _) (fun _ _ => rfl) (fun _ => h.owner i hi) ?_ ?_
      · rw [pc_goto_self]
        exact ⟨hmine, hfresh⟩
      · rw [pc_goto_self]
        have hland : Told w.rows (Pc.recordAlone f rest).recording ((w.note [.sent f.name]).log ++ [.landed f.name]) :=
          (hsent.told_alone (hsent.alone hi)).land hname (hnot f.name) (fun _ hmem => hmem)
            (fun other hother => absurd hother (hnot other)) (.inr rfl)
        have hlog : (w.note [.sent f.name]).log ++ [.landed f.name] = w.log ++ [.sent f.name, .landed f.name] := by
          simp [World.note]
        rw [hlog] at hland
        exact hland
    | failed => exact hsent.goto hi hnot hmine
    | lost =>
      rw [hpc] at hgap
      cases hgap

/-- The row of a no-transaction file, which does not fail. -/
theorem Inv.recordAlone (h : Inv w) {f : MigrationFile} {rest : List MigrationFile}
    (hpc : w.pc i = .recordAlone f rest) {a : Answer} (hgap : (w.pc i).gap (some a) = false) (s : Site) :
    Inv (w.insertAlone i f a (nextFile s rest) .unlock) := by
  have hi : (w.pc i).inside := by rw [hpc]; trivial
  obtain ⟨hmine, hfresh⟩ : w.mine i = [] ∧ Fresh w.rows (f :: rest) := by
    have hst := h.standing i
    rw [hpc] at hst
    exact hst
  obtain ⟨hclash, hwaits⟩ := h.clashes hi (hfresh.pending f List.mem_cons_self) (by rw [hmine]; simp)
  have hadded : ∀ pc, Standing (w.rows ++ [rowOf f]) [] pc → Inv
      ({ w.note [.inserted f.name false] with rows := w.rows ++ [rowOf f] }.goto i pc) := by
    intro pc hstanding
    refine h.move (h.alone hi) (fun j hne => pc_goto_of_ne hne pc) (fun _ _ => rfl) (fun _ => h.owner i hi) ?_ ?_
    · rw [pc_goto_self]
      show Standing (w.rows ++ [rowOf f]) (w.mine i) pc
      rw [hmine]
      exact hstanding
    · -- The file that was about to be recorded now is.
      refine ((h.told_alone (h.alone hi)).inserted f.name).mono ?_ ?_
      · intro name hname
        rw [World.goto, List.map_append]
        exact List.mem_append_left _ hname
      · rw [hpc]
        rintro name rfl
        left
        simp [World.goto, rowOf]
  unfold World.insertAlone
  rw [hclash, hwaits]
  cases a with
  | fine => exact hadded _ (standing_nextFile hfresh.tail)
  | lost => exact hadded _ rfl
  | failed =>
    rw [hpc] at hgap
    cases hgap

/-! ### Outside -/

/-- A session that is not past the lock stays there; whoever is past it, is. -/
theorem Inv.outside (h : Inv w) (hi : ¬ (w.pc i).inside) {pc : Pc} (hpc : ¬ pc.inside) : Inv (w.goto i pc) := by
  have hmine := (mine_of_outside hi).1 (h.standing i)
  refine ⟨?_, ?_, ?_⟩
  · intro j hj
    by_cases heq : j = i
    · subst heq
      rw [pc_goto_self] at hj
      exact absurd hj hpc
    · rw [pc_goto_of_ne heq] at hj
      exact h.owner j hj
  · intro j
    by_cases heq : j = i
    · subst heq
      rw [pc_goto_self, mine_of_outside hpc]
      exact hmine
    · rw [pc_goto_of_ne heq]
      exact h.standing j
  · refine h.told.mono (fun _ hmem => hmem) ?_
    rintro name ⟨j, hj⟩
    right
    refine ⟨j, ?_⟩
    have hne : j ≠ i := by
      rintro rfl
      exact hi (inside_of_recording hj)
    rw [pc_goto_of_ne hne]
    exact hj

theorem Inv.takeLock (h : Inv w) {task : Task} (hpc : w.pc i = .lock task) {a : Answer} (sqlite : Bool) :
    Inv (w.takeLock sqlite i task a) := by
  have hout : ¬ (w.pc i).inside := by rw [hpc]; exact id
  have hmine := (mine_of_outside hout).1 (h.standing i)
  have hnot : ∀ name, ¬ (w.pc i).recording name := by rw [hpc]; exact fun _ => id
  -- The lock is free, or this session's, so no other session is past it.
  have htaken : ∀ n pc, (∀ j m, w.lock = some (j, m) → j = i) → Standing w.rows [] pc →
      Inv ({ w with lock := some (i, n) }.goto i pc) := by
    intro n pc hlock hstanding
    have halone : Alone w i := by
      intro j hne hj
      obtain ⟨m, hm⟩ := h.owner j hj
      exact hne (hlock j m hm)
    refine h.move halone (fun j hne => pc_goto_of_ne hne pc) (fun _ _ => rfl) (fun _ => ⟨n, rfl⟩) ?_ ?_
    · rw [pc_goto_self]
      show Standing w.rows (w.mine i) pc
      rw [hmine]
      exact hstanding
    · exact (h.told_alone halone).mono (fun _ hmem => hmem) fun name hname => absurd hname (hnot name)
  have hnext : Standing w.rows [] (if a = .fine then .ensureTable task else .idle) := by
    split
    · exact rfl
    · exact rfl
  have hidle : ¬ Pc.idle.inside := id
  unfold World.takeLock
  by_cases hfailed : a = .failed
  · rw [if_pos hfailed]
    exact h.outside hout hidle
  · rw [if_neg hfailed]
    cases hlock : w.lock with
    | none => exact htaken 1 _ (fun j m hm => by rw [hlock] at hm; cases hm) hnext
    | some held =>
      obtain ⟨j, n⟩ := held
      dsimp only
      split
      · next hown =>
        refine htaken (n + 1) _ ?_ hnext
        intro j' m hm
        rw [hlock] at hm
        cases hm
        exact hown.1
      · exact h

theorem Inv.releaseLock (h : Inv w) (hpc : w.pc i = .unlock) {a : Answer} (sqlite : Bool) :
    Inv (w.releaseLock sqlite i a) := by
  have hi : (w.pc i).inside := by rw [hpc]; trivial
  have hnot : ∀ name, ¬ (w.pc i).recording name := by rw [hpc]; exact fun _ => id
  have hmine : w.mine i = [] := by
    have hst := h.standing i
    rw [hpc] at hst
    exact hst
  unfold World.releaseLock
  split
  · exact h.goto hi hnot hmine
  · refine h.move (h.alone hi) (fun j hne => pc_goto_of_ne hne _) (fun _ _ => rfl) ?_ ?_ ?_
    · intro hidle
      rw [pc_goto_self] at hidle
      exact hidle.elim
    · rw [pc_goto_self]
      exact hmine
    · exact (h.told_alone (h.alone hi)).mono (fun _ hmem => hmem) fun name hname => absurd hname (hnot name)

theorem dropMine_of_mine (hmine : w.mine i = []) : w.dropMine i = w := by
  have hnone : ∀ e ∈ w.uncommitted, e.1 ≠ i := by
    intro e he heq
    have hmem : e.2 ∈ w.mine i := List.mem_map.2 ⟨e, List.mem_filter.2 ⟨he, by simpa using heq⟩, rfl⟩
    rw [hmine] at hmem
    cases hmem
  unfold World.dropMine
  rw [List.filter_eq_self.2 (by simpa using hnone)]

theorem Inv.close (h : Inv w) (hgap : (w.pc i).gap none = false) : Inv (w.close i) := by
  have hnot : ∀ name, ¬ (w.pc i).recording name := by
    intro name hname
    cases hpc : w.pc i with
    | recordAlone f rest =>
      rw [hpc] at hgap
      cases hgap
    | _ =>
      rw [hpc] at hname
      exact hname
  by_cases hi : (w.pc i).inside
  · refine h.move (h.alone hi) (fun j hne => pc_goto_of_ne hne _) ?_ ?_ ?_ ?_
    · intro j hne
      show (w.dropMine i).mine j = w.mine j
      rw [mine_dropMine, if_neg hne]
    · intro hidle
      rw [World.close, pc_goto_self] at hidle
      exact hidle.elim
    · rw [World.close, pc_goto_self]
      show (w.dropMine i).mine i = []
      rw [mine_dropMine, if_pos rfl]
    · exact (h.told_alone (h.alone hi)).mono (fun _ hmem => hmem) fun name hname => absurd hname (hnot name)
  · -- It has nothing open; the lock it may have left behind is nobody else's.
    have hclosed : w.close i = { w with lock := w.lock.filter (·.1 ≠ i) }.goto i .idle := by
      rw [World.close, dropMine_of_mine ((mine_of_outside hi).1 (h.standing i))]
    have hlock : Inv { w with lock := w.lock.filter (·.1 ≠ i) } := by
      refine ⟨?_, h.standing, h.told⟩
      intro j hj
      obtain ⟨n, hn⟩ := h.owner j hj
      have hne : j ≠ i := by
        rintro rfl
        exact hi hj
      exact ⟨n, by rw [hn]; simp [hne]⟩
    rw [hclosed]
    exact hlock.outside hi id

/-! ### Every run -/

theorem Inv.here (h : Inv w) {pc : Pc} (hpc : w.pc i = pc) : Standing w.rows (w.mine i) pc := hpc ▸ h.standing i

/-- What a transaction has written so far has the names of its files. -/
theorem not_mem_before {rows : List AppliedRow} {chosen before rest : List MigrationFile} {f : MigrationFile}
    (h : Fresh rows chosen) (heq : chosen = before ++ f :: rest) :
    f.name ∉ (before.map rowOf).map AppliedRow.name := by
  have hnames : (before.map rowOf).map AppliedRow.name = before.map MigrationFile.name := by
    simp [rowOf, Function.comp_def]
  have hdistinct := h.distinct
  rw [heq, List.map_append, List.nodup_append] at hdistinct
  rw [hnames]
  intro hmem
  exact hdistinct.2.2 _ hmem _ (by simp) rfl

theorem Inv.go (h : Inv w) (s : Site) {a : Answer} (hgap : (w.pc i).gap (some a) = false) : Inv (w.go s i a) := by
  have hbusy : ∀ {pc : Pc}, w.pc i = pc → pc.inside → (∀ name, ¬ pc.recording name) →
      (w.pc i).inside ∧ ∀ name, ¬ (w.pc i).recording name := by
    rintro pc rfl hin hnot
    exact ⟨hin, hnot⟩
  unfold World.go
  -- What a session is about to record stands as long as it holds the lock. Each place hands on what it stands
  -- on.
  cases hpc : w.pc i with
  | idle => exact h
  | lock task => exact h.takeLock hpc s.sqlite
  | ensureTable task =>
    obtain ⟨hi, hnot⟩ := hbusy hpc trivial fun _ => id
    have hmine : w.mine i = [] := h.here hpc
    exact h.answered hi hnot hmine hmine
  | appliedRows task =>
    obtain ⟨hi, hnot⟩ := hbusy hpc trivial fun _ => id
    have hmine : w.mine i = [] := h.here hpc
    refine h.answered hi hnot ?_ hmine
    rw [hmine]
    exact standing_decided s w.rows task
  | keysOff f rest =>
    obtain ⟨hi, hnot⟩ := hbusy hpc trivial fun _ => id
    obtain ⟨hmine, hfresh⟩ := h.here hpc
    exact h.answered hi hnot ⟨hmine, hfresh⟩ hmine
  | begin f rest =>
    obtain ⟨hi, hnot⟩ := hbusy hpc trivial fun _ => id
    obtain ⟨hmine, hfresh⟩ := h.here hpc
    refine h.answered hi hnot ?_ ?_
    · rw [hmine]
      exact standing_sending hfresh _
    · rw [hmine]
      exact standing_afterFile f (by simp)
  -- A statement is sent only for a file that the rows did not have when the lock was taken.
  | execute f rest left =>
    obtain ⟨hi, hnot⟩ := hbusy hpc trivial fun _ => id
    obtain ⟨hmine, hfresh⟩ := h.here hpc
    refine (h.sent hi (hfresh.pending f List.mem_cons_self)).answered hi hnot ?_ trivial
    show Standing w.rows (w.mine i) _
    rw [hmine]
    exact standing_sending hfresh left
  | checkKeys f rest =>
    obtain ⟨hi, hnot⟩ := hbusy hpc trivial fun _ => id
    obtain ⟨hmine, hfresh⟩ := h.here hpc
    exact h.answered hi hnot ⟨hmine, hfresh⟩ trivial
  | record f rest =>
    obtain ⟨hi, hnot⟩ := hbusy hpc trivial fun _ => id
    obtain ⟨hmine, hfresh⟩ := h.here hpc
    refine h.insert hi hnot (hfresh.pending f List.mem_cons_self) ?_ ?_ fun _ => trivial
    · rw [hmine]
      simp
    · rw [hmine]
      exact ⟨rfl, hfresh⟩
  | commit f rest => exact h.commitFile hpc s
  | rollback f =>
    obtain ⟨hi, hnot⟩ := hbusy hpc trivial fun _ => id
    exact h.dropMine hi hnot (standing_afterFile f (by simp))
  -- Only after a file that went through are there files to go on with.
  | keysOn rest ok =>
    obtain ⟨hi, hnot⟩ := hbusy hpc trivial fun _ => id
    obtain ⟨hmine, hfresh⟩ := h.here hpc
    refine h.answered hi hnot ?_ hmine
    rw [hmine]
    split
    · next hok => exact standing_nextFile (hfresh hok)
    · exact rfl
  | executeAlone f rest left => exact h.executeAlone hpc hgap
  | recordAlone f rest => exact h.recordAlone hpc hgap s
  | beginStamps chosen =>
    obtain ⟨hi, hnot⟩ := hbusy hpc trivial fun _ => id
    obtain ⟨hmine, hfresh⟩ := h.here hpc
    refine h.answered hi hnot ?_ hmine
    rw [hmine]
    exact standing_nextStamp [] chosen hfresh rfl
  -- The stamps so far are those of the chosen files before this one.
  | stamp chosen f rest =>
    obtain ⟨hi, hnot⟩ := hbusy hpc trivial fun _ => id
    obtain ⟨hfresh, before, heq, hmine⟩ := h.here hpc
    refine h.insert hi hnot (hfresh.pending f (by simp [heq])) ?_ ?_ fun _ => trivial
    · rw [hmine]
      exact not_mem_before hfresh heq
    · have hnext := standing_nextStamp (before ++ [f]) rest hfresh (by simp [heq])
      rw [hmine]
      simpa using hnext
  | commitStamps chosen => exact h.commitStamps hpc
  | rollbackStamps =>
    obtain ⟨hi, hnot⟩ := hbusy hpc trivial fun _ => id
    exact h.dropMine hi hnot rfl
  | unlock => exact h.releaseLock hpc s.sqlite

theorem inv_step (s : Site) (input : Input ι) (w : World ι) (hrule : NoGap input w) (h : Inv w) :
    Inv ((machine s).step input w) := by
  cases input with
  | start i autocommit task =>
    show Inv (match w.pc i with
      | .idle => if autocommit then w.goto i (.lock task) else w
      | _ => w)
    split
    · next hpc =>
      split
      · exact h.outside (by rw [hpc]; exact id) id
      · exact h
    · exact h
  | go i a => exact h.go s hrule
  | close i => exact h.close hrule

theorem inv_start (rows : List AppliedRow) : Inv (World.start rows : World ι) where
  owner _ hin := hin.elim
  standing _ := rfl
  told :=
    { landed := fun _ hmem => by cases hmem
      stamped := fun _ hmem => by cases hmem
      once := fun _ => Nat.zero_le _
      order := List.Pairwise.nil
      clash := fun _ hmem => by cases hmem }

/-- **Runs do not apply a file twice.** Over one database and one directory, however the
awaits of the sessions follow each other and whatever is answered, if nothing goes wrong
between the effect of a no-transaction file and its row: no file takes effect twice, no
SQL is sent of a file that a baseline has stamped, and no row meets one of its name. -/
theorem sessions_apply_once (sqlite : Bool) (digest : Bytes → String) (dir : Directory) (parts : MigrationFile → Nat)
    (rows : List AppliedRow) (inputs : List (Input ι))
    (hrun : (machine ⟨sqlite, discover digest dir, parts⟩).Admissible NoGap (World.start rows) inputs) :
    let log := ((machine ⟨sqlite, discover digest dir, parts⟩).run (World.start rows) inputs).log
    (∀ name, log.count (.landed name) ≤ 1) ∧
    (∀ before after name, log = before ++ .sent name :: after → .stamped name ∉ before) ∧
    ∀ name, .inserted name true ∉ log := by
  intro log
  have htold := (Machine.invariant (inv_step _) (inv_start rows) hrun).told
  refine ⟨htold.once, ?_, htold.clash⟩
  intro before after name hlog hstamped
  have horder := htold.order
  have hsplit : ((machine ⟨sqlite, discover digest dir, parts⟩).run (World.start rows) inputs).log =
      before ++ .sent name :: after := hlog
  rw [hsplit] at horder
  exact (List.pairwise_append.1 horder).2.2 _ hstamped _ List.mem_cons_self name rfl rfl

end

/-- Two sessions start `apply`. The second waits until the first is through, and then finds
nothing to do. -/
def twoApplies : List (Input Bool) :=
  [.start true true (.apply false none), .start false true (.apply false none), .go true .fine, .go false .fine] ++
    List.replicate 11 (.go true .fine) ++ List.replicate 4 (.go false .fine)

theorem twoApplies_once :
    let site : Site := ⟨false, discover emptyDigest twoFiles, fun _ => 1⟩
    let w := (machine site).run (World.start []) twoApplies
    w.log = [.sent "2026-08-04-091530-a.sql", .inserted "2026-08-04-091530-a.sql" false,
        .landed "2026-08-04-091530-a.sql", .sent "2026-08-05-101500-b.sql",
        .inserted "2026-08-05-101500-b.sql" false, .landed "2026-08-05-101500-b.sql"] ∧
      (machine site).Admissible NoGap (World.start []) twoApplies ∧ ∀ name, w.log.count (.landed name) ≤ 1 := by
  refine ⟨by decide +kernel, by decide +kernel, ?_⟩
  exact (sessions_apply_once false emptyDigest twoFiles (fun _ => 1) [] twoApplies (by decide +kernel)).1

end PyAppRunner.Migrations.Sessions
