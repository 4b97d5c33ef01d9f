import PyAppRunner.Audit.Redaction
import PyAppRunner.Base.Run

/-! Many sessions that make audited calls on one table, a statement at a time.

A call that changes rows goes through phases: its read has started and found some rows,
it has them, its write has started, it has written, it has recorded. Between any two of
these, and while a statement waits, the other sessions go on. `alone_eq` takes a call
apart into its phases. A row that an `insert` makes is nobody else's before the commit,
so that call is one step.

What a session records stands in its transaction until it commits. A call that raises
leaves its transaction to be rolled back. -/
namespace PyAppRunner.Audit
open Base Sql

/-- What is written. A `dict` has a key once. -/
structure Data (V : Type) where
  values : Dict V
  nodup : (values.map Prod.fst).Nodup

/-- What a call does to each row that it finds. -/
inductive Change (V : Type) where
  | update (data : Data V)
  | delete

/-- A call of `update` or `delete`. -/
structure Changing (κ V : Type) where
  req : Request V
  change : Change V
  cond : Dict V
  env : Env κ V

/-- Where a session is: in no call, at a point of one, or after one that raised. `ids` are
the rows that a statement found as it started. -/
inductive Phase (κ V : Type) where
  | idle
  | reading (call : Changing κ V) (ids : List Nat)
  | read (call : Changing κ V) (found : List (Nat × Dict V))
  | writing (call : Changing κ V) (found : List (Nat × Dict V)) (ids : List Nat)
  | recording (call : Changing κ V) (found : List (Nat × Dict V)) (affected : Nat)
  | failed

variable {κ V : Type} [DecidableEq κ] (py : Values V) (columns : Columns V) (audit : Settings)

/-! ### A call in phases -/

/-- What the write does to a row. -/
def Change.apply : Change V → Dict V → Option (Dict V)
  | update data, row => some (setColumns columns data.values row)
  | delete, _ => none

/-- The event of a row, if the change shows. -/
def Change.eventOf (req : Request V) : Change V → Dict V → Option (AuditEvent V)
  | update data => updatedEvent py audit req data.values
  | delete => deletedEvent py audit req

/-- The statement goes on, with the rows it found. -/
def finish (c : κ) (p : Nat → Dict V → Bool) (f : Dict V → Option (Dict V)) : Call κ V (List (Nat × Dict V)) := do
  let s ← Program.get
  if s.table.blocked c p then Program.raise .waiting
  else do
    Program.modify fun s => {s with table := s.table.modify c p f}
    pure (s.table.rows c p)

/-- `delete` takes no empty condition. -/
def Changing.assertCondition (call : Changing κ V) : Call κ V Unit :=
  match call.change with
  | .update _ => pure ()
  | .delete => if call.cond.isEmpty then Program.raise .emptyCondition else pure ()

/-- What is refused before the read. -/
def Changing.check (call : Changing κ V) : Call κ V Unit := do
  assertTableName call.req.table
  call.assertCondition
  assertStatement (columns.knows call.cond)

/-- The write parses. -/
def Changing.parses (call : Changing κ V) : Bool :=
  match call.change with
  | .update data => !call.cond.isEmpty && columns.sets data.values
  | .delete => true

/-- What is refused before the write. -/
def Changing.refuse (call : Changing κ V) (matched : Nat) : Call κ V Unit := do
  assertWithinLimit audit matched
  assertStatement (call.parses columns)

/-- The checks of a call, and the ids that its first statement looks at. -/
def begins (c : κ) (call : Changing κ V) : Call κ V (Phase κ V) := do
  call.check columns
  let s ← Program.get
  pure (.reading call (s.table.found c (condition columns call.cond)))

/-- On to the next phase. -/
def next (c : κ) : Phase κ V → Call κ V (Phase κ V)
  | .reading call ids => do
    let found ← finish c (Table.again ids (condition columns call.cond)) some
    call.refuse columns audit found.length
    pure (.read call found)
  | .read call found => do
    let s ← Program.get
    pure (.writing call found (s.table.found c (condition columns call.cond)))
  | .writing call found ids => do
    let changed ← finish c (Table.again ids (condition columns call.cond)) (call.change.apply columns)
    Program.modify fun s => {s with changed := changed}
    pure (.recording call found changed.length)
  | .recording call found _ => do
    recordRows py audit call.env (call.change.eventOf py audit call.req) found
    pure .idle
  | phase => pure phase

/-- The rows that the write counted. -/
def Phase.affected : Phase κ V → Nat
  | recording _ _ affected => affected
  | _ => 0

/-- The call, where the others do what `env` says. -/
def Changing.alone (c : κ) (call : Changing κ V) : Call κ V Nat :=
  match call.change with
  | .update data => update py columns audit c call.env call.req data.values call.cond
  | .delete => delete py columns audit c call.env call.req call.cond

theorem statement_eq (c : κ) (p : Nat → Dict V → Bool) (f : Dict V → Option (Dict V))
    (waiting : List (Statement κ (Dict V))) : statement c p f waiting = (do
      let s ← Program.get
      others c waiting
      finish c (Table.again (s.table.found c p) p) f) := rfl

/-- **A call by itself goes through the phases**, with the others' statements in between. -/
theorem alone_eq (c : κ) (call : Changing κ V) : call.alone py columns audit c = (do
    let phase ← begins columns c call
    others c call.env.whileReading
    let phase ← next py columns audit c phase
    others c call.env.beforeWriting
    let phase ← next py columns audit c phase
    others c call.env.whileWriting
    let phase ← next py columns audit c phase
    let _ ← next py columns audit c phase
    pure phase.affected) := by
  obtain ⟨req, change, cond, env⟩ := call
  cases change with
  | update data =>
    simp only [Changing.alone, update, rows, write, statement_eq, begins, next, Changing.check,
      Changing.assertCondition, Changing.refuse, Changing.parses, bind_assoc, pure_bind, Phase.affected]
    rfl
  | delete =>
    simp only [Changing.alone, delete, rows, write, statement_eq, begins, next, Changing.check,
      Changing.assertCondition, Changing.refuse, Changing.parses, bind_assoc, pure_bind, Phase.affected]
    -- an empty condition is refused before the read
    by_cases hcond : cond.isEmpty = true
    · simp only [hcond, if_true, Program.raise_bind]
    · simp only [hcond, Bool.false_eq_true, if_false]
      rfl

/-! ### The system -/

/-- An `insert`. The database stores the values it is given, as far as it knows the columns. -/
structure Inserting (κ V : Type) (columns : Columns V) where
  req : Request V
  entityId : Option String
  data : Dict V
  create : Dict V → Option (Dict V)
  env : Env κ V
  stores : ∀ row, create data = some row → ∀ k v held, data.lookup k = some v → row.lookup k = some held →
    held = columns.stored k v

/-- `trail` is what is committed of the audit table, each event with the row it is about. -/
structure System (κ V : Type) where
  table : Table κ (Dict V)
  trail : List (Nat × AuditEvent V)
  pending : κ → List (Nat × AuditEvent V)
  phase : κ → Phase κ V

/-- `fails` is whatever else may raise in a call: a statement refused, a lost connection. -/
inductive Action (κ V : Type) (columns : Columns V) where
  | insert (c : κ) (call : Inserting κ V columns)
  | change (c : κ) (call : Changing κ V)
  | proceed (c : κ)
  | fails (c : κ)
  | commit (c : κ)
  | rollback (c : κ)

namespace System

/-- Nobody has done anything yet. -/
def start (t : Table κ (Dict V)) : System κ V := ⟨t, [], fun _ => [], fun _ => .idle⟩

/-- Session `c` does what leads it into its next phase. A statement that has to wait does nothing. -/
def advance (sys : System κ V) (c : κ) (m : Call κ V (Phase κ V)) : System κ V :=
  match m ⟨sys.table, sys.pending c, [], []⟩ with
  | (_, .error .waiting) => sys
  | (s, r) =>
    { sys with
      table := s.table
      pending := Function.update sys.pending c s.log
      phase := Function.update sys.phase c (r.toOption.getD .failed) }

/-- Between two calls. -/
def ready (sys : System κ V) (c : κ) : Bool :=
  match sys.phase c with
  | .idle => true
  | _ => false

omit [DecidableEq κ] in
theorem ready_iff {sys : System κ V} {c : κ} : sys.ready c = true ↔ sys.phase c = .idle := by
  unfold ready
  cases sys.phase c with
  | idle => exact iff_of_true rfl rfl
  | _ => simp

end System

/-- One action of one session. Where the session is not ready for it, nothing happens. -/
def step : Action κ V columns → System κ V → System κ V
  | .insert c call, sys =>
    if sys.ready c then sys.advance c do
      let _ ← insert py audit call.create c call.env call.req call.entityId call.data
      pure .idle
    else sys
  | .change c call, sys => if sys.ready c then sys.advance c (begins columns c call) else sys
  | .proceed c, sys => sys.advance c (next py columns audit c (sys.phase c))
  | .fails c, sys => {sys with phase := Function.update sys.phase c .failed}
  | .commit c, sys =>
    if sys.ready c then
      { sys with
        table := sys.table.commit c
        trail := sys.trail ++ sys.pending c
        pending := Function.update sys.pending c [] }
    else sys
  | .rollback c, sys =>
    { sys with
      table := sys.table.rollback c
      pending := Function.update sys.pending c []
      phase := Function.update sys.phase c .idle }

/-- Any number of sessions on one table. -/
def sessions : Machine (System κ V) (Action κ V columns) := ⟨step py columns audit⟩

/-! ### What a phase does -/

section
variable {py columns audit} {c : κ} {s s' : State κ V} {phase : Phase κ V}

theorem finish_eq_ok {p : Nat → Dict V → Bool} {f : Dict V → Option (Dict V)} {found : List (Nat × Dict V)} :
    finish c p f s = (s', .ok found) ↔
      s.table.blocked c p = false ∧ found = s.table.rows c p ∧ s' = {s with table := s.table.modify c p f} := by
  have hrun : finish c p f s = (if s.table.blocked c p then Program.raise .waiting else do
      Program.modify fun s => {s with table := s.table.modify c p f}
      pure (s.table.rows c p)) s := rfl
  rw [hrun]
  split
  · rename_i hblocked
    simp [hblocked, Program.raise_ne_ok]
  · rename_i hfree
    rw [Program.modify_bind, Program.pure_eq_ok]
    simp only [Bool.not_eq_true] at hfree
    constructor
    · rintro ⟨hs, hfound⟩
      exact ⟨hfree, hfound, hs⟩
    · rintro ⟨-, hfound, hs⟩
      exact ⟨hs, hfound⟩

omit [DecidableEq κ] in
theorem assertTableName_ok {table : String} (h : assertTableName table s = (s', .ok ())) : s' = s := by
  unfold assertTableName at h
  split at h
  · exact (Program.pure_eq_ok.1 h).1
  · exact absurd h Program.raise_ne_ok

omit [DecidableEq κ] in
theorem assertStatement_ok {parses : Bool} (h : assertStatement parses s = (s', .ok ())) : s' = s := by
  unfold assertStatement at h
  split at h
  · exact (Program.pure_eq_ok.1 h).1
  · exact absurd h Program.raise_ne_ok

omit [DecidableEq κ] in
theorem check_ok {call : Changing κ V} (h : call.check columns s = (s', .ok ())) : s' = s := by
  obtain ⟨req, change, cond, env⟩ := call
  obtain ⟨s₁, _, hname, hrest⟩ := Program.bind_eq_ok.1 h
  obtain rfl := assertTableName_ok hname
  obtain ⟨s₂, _, hempty, hparses⟩ := Program.bind_eq_ok.1 hrest
  obtain rfl := assertStatement_ok hparses
  unfold Changing.assertCondition at hempty
  cases change with
  | update data => exact (Program.pure_eq_ok.1 hempty).1
  | delete =>
    dsimp only at hempty
    split at hempty
    · exact absurd hempty Program.raise_ne_ok
    · exact (Program.pure_eq_ok.1 hempty).1

omit [DecidableEq κ] in
/-- The limit may warn. -/
theorem refuse_ok {call : Changing κ V} {matched : Nat} (h : call.refuse columns audit matched s = (s', .ok ())) :
    s'.table = s.table ∧ s'.log = s.log := by
  obtain ⟨s₁, _, hlimit, hrest⟩ := Program.bind_eq_ok.1 h
  have htriple : Triple (fun s' => s' = s) (assertWithinLimit audit matched)
      (fun _ s' => s'.log = s.log ∧ s'.table = s.table) (fun _ => True) := triple_assertWithinLimit matched s
  have hs₁ := (htriple s rfl).1 s₁ () hlimit
  obtain rfl := assertStatement_ok hrest
  exact ⟨hs₁.2, hs₁.1⟩

theorem begins_ok {call : Changing κ V} (h : begins columns c call s = (s', .ok phase)) :
    s' = s ∧ phase = .reading call (s.table.found c (condition columns call.cond)) := by
  obtain ⟨s₁, _, hcheck, hrest⟩ := Program.bind_eq_ok.1 h
  obtain rfl := check_ok hcheck
  rw [Program.get_bind] at hrest
  exact Program.pure_eq_ok.1 hrest

theorem reads_ok {call : Changing κ V} {ids : List Nat} (h : next py columns audit c (.reading call ids) s = (s', .ok phase)) :
    s.table.blocked c (Table.again ids (condition columns call.cond)) = false ∧
    phase = .read call (s.table.rows c (Table.again ids (condition columns call.cond))) ∧
    s'.table = s.table.lock c (Table.again ids (condition columns call.cond)) ∧ s'.log = s.log := by
  obtain ⟨s₁, found, hfinish, hrest⟩ := Program.bind_eq_ok.1 h
  obtain ⟨hfree, rfl, rfl⟩ := finish_eq_ok.1 hfinish
  obtain ⟨s₂, _, hrefuse, hpure⟩ := Program.bind_eq_ok.1 hrest
  obtain ⟨htable, hlog⟩ := refuse_ok hrefuse
  obtain ⟨rfl, rfl⟩ := Program.pure_eq_ok.1 hpure
  exact ⟨hfree, rfl, htable, hlog⟩

theorem starts_ok {call : Changing κ V} {found : List (Nat × Dict V)}
    (h : next py columns audit c (.read call found) s = (s', .ok phase)) :
    s' = s ∧ phase = .writing call found (s.table.found c (condition columns call.cond)) :=
  Program.pure_eq_ok.1 h

theorem writes_ok {call : Changing κ V} {found : List (Nat × Dict V)} {ids : List Nat}
    (h : next py columns audit c (.writing call found ids) s = (s', .ok phase)) :
    s.table.blocked c (Table.again ids (condition columns call.cond)) = false ∧
    (∃ affected, phase = .recording call found affected) ∧
    s'.table = s.table.modify c (Table.again ids (condition columns call.cond)) (call.change.apply columns) ∧
    s'.log = s.log := by
  obtain ⟨s₁, changed, hfinish, hrest⟩ := Program.bind_eq_ok.1 h
  obtain ⟨hfree, rfl, rfl⟩ := finish_eq_ok.1 hfinish
  rw [Program.modify_bind] at hrest
  obtain ⟨rfl, rfl⟩ := Program.pure_eq_ok.1 hrest
  exact ⟨hfree, ⟨_, rfl⟩, rfl, rfl⟩

omit [DecidableEq κ] in
/-- What cannot be recorded raises. -/
theorem record_ok (hstrict : audit.strict = true) {env : Env κ V} {row : Nat} {event : AuditEvent V}
    (h : record py audit env row event s = (s', .ok ())) :
    s' = {s with log := s.log ++ [(row, (redacted py audit event).withResolved env.context)]} := by
  cases hstore : env.storeFails ((redacted py audit event).withResolved env.context) with
  | some error =>
    simp only [record, hstore, fail, hstrict, if_true] at h
    exact absurd h Program.raise_ne_ok
  | none =>
    simp only [record, hstore] at h
    exact Program.modify_eq_ok.1 h

omit [DecidableEq κ] in
theorem recordRows_ok (hstrict : audit.strict = true) {env : Env κ V} {eventOf : Dict V → Option (AuditEvent V)}
    {found : List (Nat × Dict V)} (h : recordRows py audit env eventOf found s = (s', .ok ())) :
    s' = {s with log := s.log ++ found.filterMap (logged py audit env eventOf)} := by
  induction found generalizing s with
  | nil =>
    obtain ⟨rfl, -⟩ := Program.pure_eq_ok.1 h
    simp
  | cons row rest ih =>
    obtain ⟨s₁, _, hrow, hrest⟩ := Program.bind_eq_ok.1 h
    rw [ih hrest]
    unfold recordRow at hrow
    cases he : eventOf row.2 with
    | none =>
      rw [he] at hrow
      obtain ⟨rfl, -⟩ := Program.pure_eq_ok.1 hrow
      rw [List.filterMap_cons_none (by simp [logged, he])]
    | some e =>
      rw [he] at hrow
      obtain rfl := record_ok hstrict hrow
      have hlogged : logged py audit env eventOf row =
          some (row.1, (redacted py audit e).withResolved env.context) := by simp [logged, he]
      rw [List.filterMap_cons_some hlogged]
      simp

theorem records_ok (hstrict : audit.strict = true) {call : Changing κ V} {found : List (Nat × Dict V)} {affected : Nat}
    (h : next py columns audit c (.recording call found affected) s = (s', .ok phase)) :
    phase = .idle ∧ s'.table = s.table ∧
    s'.log = s.log ++ found.filterMap (logged py audit call.env (call.change.eventOf py audit call.req)) := by
  obtain ⟨s₁, _, hrecord, hpure⟩ := Program.bind_eq_ok.1 h
  obtain ⟨rfl, rfl⟩ := Program.pure_eq_ok.1 hpure
  rw [recordRows_ok hstrict hrecord]
  exact ⟨rfl, rfl, rfl⟩

omit [DecidableEq κ] in
theorem insert_ok (hstrict : audit.strict = true) {create : Dict V → Option (Dict V)} {env : Env κ V} {req : Request V}
    {entityId : Option String} {data : Dict V} {id : Option V}
    (h : insert py audit create c env req entityId data s = (s', .ok id)) :
    ∃ row, create data = some row ∧ s'.table = (s.table.insert c row).2 ∧
      s'.log = s.log ++ [(s.table.seq + 1,
        (redacted py audit (insertedEvent py req entityId (row.get audit.idKey) data)).withResolved env.context)] := by
  obtain ⟨s₁, _, hname, hrest⟩ := Program.bind_eq_ok.1 h
  obtain rfl := assertTableName_ok hname
  cases hcreate : create data with
  | none =>
    rw [hcreate] at hrest
    exact absurd hrest Program.raise_ne_ok
  | some row =>
    rw [hcreate] at hrest
    dsimp only at hrest
    rw [Program.get_bind, Program.modify_bind] at hrest
    obtain ⟨s₂, _, hrecord, hpure⟩ := Program.bind_eq_ok.1 hrest
    obtain ⟨rfl, -⟩ := Program.pure_eq_ok.1 hpure
    rw [record_ok hstrict hrecord]
    exact ⟨row, rfl, rfl, rfl⟩

/-! ### What a call leaves alone -/

/-- What `c` has done is its own: no row that others have, and nothing committed. -/
def Private (c : κ) (s s' : State κ V) : Prop :=
  Table.KeepsOthers c s.table s'.table ∧ Table.SameCommitted s.table s'.table

theorem Private.of_eq (h : s'.table = s.table) : Private c s s' := by
  unfold Private
  rw [h]
  exact ⟨Table.KeepsOthers.refl, fun _ => rfl⟩

theorem Private.refl (s : State κ V) : Private c s s := .of_eq rfl

theorem Private.trans {s'' : State κ V} (h : Private c s s') (h' : Private c s' s'') : Private c s s'' :=
  ⟨h.1.trans h'.1, fun i => (h'.2 i).trans (h.2 i)⟩

theorem moves_fail (fault : Fault) : Moves (Private c) (fail audit fault : Call κ V Unit) := by
  unfold fail
  split
  · exact Moves.raise Private.refl
  · exact Moves.modify fun _ => .of_eq rfl

theorem moves_assertTableName (table : String) : Moves (Private c) (assertTableName table : Call κ V Unit) := by
  unfold assertTableName
  split
  · exact Moves.pure Private.refl
  · exact Moves.raise Private.refl

theorem moves_assertStatement (parses : Bool) : Moves (Private c) (assertStatement parses : Call κ V Unit) := by
  unfold assertStatement
  split
  · exact Moves.pure Private.refl
  · exact Moves.raise Private.refl

theorem moves_check (call : Changing κ V) : Moves (Private c) (call.check columns) := by
  refine Moves.bind Private.trans (moves_assertTableName _) fun _ =>
    Moves.bind Private.trans ?_ fun _ => moves_assertStatement _
  unfold Changing.assertCondition
  split
  · exact Moves.pure Private.refl
  · split
    · exact Moves.raise Private.refl
    · exact Moves.pure Private.refl

theorem moves_refuse (call : Changing κ V) (matched : Nat) : Moves (Private c) (call.refuse columns audit matched) := by
  refine Moves.bind Private.trans ?_ fun _ => moves_assertStatement _
  unfold assertWithinLimit
  split
  · exact Moves.pure Private.refl
  · exact moves_fail _

theorem moves_finish (p : Nat → Dict V → Bool) (f : Dict V → Option (Dict V)) : Moves (Private c) (finish c p f) := by
  intro s
  have hrun : finish c p f s = (if s.table.blocked c p then Program.raise .waiting else do
      Program.modify fun s => {s with table := s.table.modify c p f}
      pure (s.table.rows c p)) s := rfl
  rw [hrun]
  split
  · exact Private.refl s
  · rename_i hfree
    simp only [Bool.not_eq_true] at hfree
    exact ⟨Table.keepsOthers_modify hfree, Table.sameCommitted_modify⟩

theorem moves_record (env : Env κ V) (row : Nat) (event : AuditEvent V) :
    Moves (Private c) (record py audit env row event) := by
  cases hstore : env.storeFails ((redacted py audit event).withResolved env.context) with
  | some error =>
    simp only [record, hstore]
    exact moves_fail _
  | none =>
    simp only [record, hstore]
    exact Moves.modify fun _ => .of_eq rfl

theorem moves_recordRows (env : Env κ V) (eventOf : Dict V → Option (AuditEvent V)) (found : List (Nat × Dict V)) :
    Moves (Private c) (recordRows py audit env eventOf found) := by
  induction found with
  | nil => exact Moves.pure Private.refl
  | cons row rest ih =>
    refine Moves.bind Private.trans ?_ fun _ => ih
    unfold recordRow
    split
    · exact Moves.pure Private.refl
    · exact moves_record _ _ _

theorem moves_begins (call : Changing κ V) : Moves (Private c) (begins columns c call) :=
  Moves.bind Private.trans (moves_check call) fun _ =>
    Moves.bind Private.trans (Moves.get Private.refl) fun _ => Moves.pure Private.refl

theorem moves_next (phase : Phase κ V) : Moves (Private c) (next py columns audit c phase) := by
  cases phase with
  | idle => exact Moves.pure Private.refl
  | reading call ids =>
    exact Moves.bind Private.trans (moves_finish _ _) fun _ =>
      Moves.bind Private.trans (moves_refuse _ _) fun _ => Moves.pure Private.refl
  | read call found =>
    exact Moves.bind Private.trans (Moves.get Private.refl) fun _ => Moves.pure Private.refl
  | writing call found ids =>
    exact Moves.bind Private.trans (moves_finish _ _) fun _ =>
      Moves.bind Private.trans (Moves.modify fun _ => .of_eq rfl) fun _ => Moves.pure Private.refl
  | recording call found affected =>
    exact Moves.bind Private.trans (moves_recordRows _ _ _) fun _ => Moves.pure Private.refl
  | failed => exact Moves.pure Private.refl

theorem moves_insert (create : Dict V → Option (Dict V)) (env : Env κ V) (req : Request V) (entityId : Option String)
    (data : Dict V) : Moves (Private c) (insert py audit create c env req entityId data) := by
  refine Moves.bind Private.trans (moves_assertTableName _) fun _ => ?_
  split
  · exact Moves.raise Private.refl
  · refine Moves.bind Private.trans (Moves.get Private.refl) fun _ =>
      Moves.bind Private.trans (Moves.modify fun s => ?_) fun _ =>
        Moves.bind Private.trans (moves_record _ _ _) fun _ => Moves.pure Private.refl
    exact ⟨Table.keepsOthers_insert, Table.sameCommitted_insert⟩

end

end PyAppRunner.Audit
