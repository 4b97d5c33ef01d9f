import PyAppRunner.Base.Log
import PyAppRunner.Base.Run
import PyAppRunner.Queue.Job
import PyAppRunner.Sql.Table

/-! The Postgres driver, a statement at a time.

A client runs one call after another over its own connection. What it does next is
its program counter: the statement it is about to send, or the clock it is about to
read, with everything the call has learned so far. An input of the machine lets one
client take that step, starts a call, lets the clock go on, or breaks a connection;
an interleaving of the clients is a list of inputs. A statement that has to wait for
a row lock leaves everything as it is.

`reserve`, the completions, `retry_failed` and `forget_failed` run on a connection
with no transaction of its caller's, and commit what they do. A push joins the
transaction its caller has open, if there is one. Times are in microseconds. -/
namespace PyAppRunner.Queue.PgQueue
open Sql

/-- A second, in the unit of the clock. -/
def second : Int := 1000000

/-- A row of `queue_jobs`. -/
structure JobRow where
  queue : String
  name : String
  payload : String
  attempts : Nat
  maxAttempts : Nat
  priority : Int
  uniqueKey : Option String
  availableAt : Int
  reservedUntil : Option Int
  reservedBy : Option String
  lastError : String
  createdAt : Int
deriving DecidableEq

/-- A row of `queue_failed_jobs`. -/
structure FailedRow where
  queue : String
  name : String
  payload : String
  attempts : Nat
  error : String
  failedAt : Int
deriving DecidableEq

/-- `reserved_until IS NULL OR reserved_until <= moment`. -/
def lapsed (moment : Int) (r : JobRow) : Bool :=
  match r.reservedUntil with
  | none => true
  | some u => u ≤ moment

/-- `_OWNED` and `_EXHAUSTED`. `reserved_by = %s` is not true of a NULL. -/
inductive Guard where
  | owned (reservedBy : String) (attempts : Nat)
  | exhausted (moment : Int)

/-- The `WHERE` of a statement that is about one row. -/
def Guard.holds : Guard → JobRow → Bool
  | .owned reservedBy attempts, r => r.reservedBy = some reservedBy && r.attempts = attempts
  | .exhausted moment, r => decide (r.maxAttempts ≤ r.attempts) && lapsed moment r

/-! ### Calls -/

/-- What a caller passes to `push`. -/
structure PushRequest where
  name : String
  payload : String
  delay : Int := 0
  queue : String := "default"
  priority : Int := 0
  unique : Option String := none
  maxAttempts : Int := 3

/-- `unique or None`. -/
def pushKey (r : PushRequest) : Option String := r.unique.filter (· ≠ "")

/-- The row that a push inserts. -/
def pushRow (moment : Int) (r : PushRequest) : JobRow where
  queue := if r.queue = "" then "default" else r.queue
  name := r.name
  payload := r.payload
  attempts := 0
  maxAttempts := (max 1 r.maxAttempts).toNat
  priority := r.priority
  uniqueKey := pushKey r
  availableAt := moment + max 0 r.delay * second
  reservedUntil := none
  reservedBy := none
  lastError := ""
  createdAt := moment

/-- The row `retry_failed` makes of a failed one. -/
def retryRow (moment maxAttempts : Int) (f : FailedRow) : JobRow where
  queue := f.queue
  name := f.name
  payload := f.payload
  attempts := 0
  maxAttempts := (max 1 maxAttempts).toNat
  priority := 0
  uniqueKey := none
  availableAt := moment
  reservedUntil := none
  reservedBy := none
  lastError := ""
  createdAt := moment

/-- Where a reserve call stands: the queue it is at, the queues after it, and how many
candidates it may still look at here. -/
structure Asking where
  queue : String
  rest : List String
  rounds : Nat
  timeout : Int
  worker : String

/-- The candidate's `WHERE`. -/
def claimable (queue : String) (moment : Int) (_ : Nat) (r : JobRow) : Bool :=
  decide (r.queue = queue) && decide (r.availableAt ≤ moment) && lapsed moment r

/-- `ORDER BY priority DESC, available_at, id`. -/
def before (a b : Nat × JobRow) : Prop :=
  b.2.priority < a.2.priority ∨ a.2.priority = b.2.priority ∧
    (a.2.availableAt < b.2.availableAt ∨ a.2.availableAt = b.2.availableAt ∧ a.1 ≤ b.1)

instance : DecidableRel before := fun _ _ => inferInstanceAs (Decidable (_ ∨ _))

/-- When a claim made at `moment` with this timeout runs out. -/
def deadline (moment timeout : Int) : Int := moment + max 1 timeout * second

/-- The row once the guarded update has claimed it. -/
def claimRow (a : Asking) (moment : Int) (r : JobRow) : JobRow :=
  {r with
    reservedUntil := some (deadline moment a.timeout), reservedBy := some (reservedName a.worker),
    attempts := r.attempts + 1}

/-- `_to_job`, for a payload that decodes. -/
def toJob (id : Nat) (r : JobRow) (reservedBy : String) : Job Unit where
  id := id
  queue := r.queue
  name := r.name
  payloadJson := r.payload
  attempts := r.attempts
  maxAttempts := r.maxAttempts
  handle := ()
  reservedBy := reservedBy

/-- The row once a release has put it back. -/
def releaseRow (availableAt : Int) (error : String) (r : JobRow) : JobRow :=
  {r with reservedUntil := none, reservedBy := none, availableAt := availableAt, lastError := error}

/-- The row that a job leaves in the failed table. -/
def failedRow (error : String) (failedAt : Int) (r : JobRow) : FailedRow where
  queue := r.queue
  name := r.name
  payload := r.payload
  attempts := r.attempts
  error := error
  failedAt := failedAt

/-- A claim that was committed, by its job handle, and when and for how long it was made. -/
structure Claim where
  job : Job Unit
  moment : Int
  timeout : Int

/-- Why `_move_to_failed` was called: on an exhausted candidate, on a claim whose payload
does not decode, or by `fail`. The last two name their claim by its position. -/
inductive Why where
  | exhausted (a : Asking) (moment : Int) (id : Nat)
  | undecodable (a : Asking) (claim : Nat)
  | failed (claim : Nat) (error : String)

/-- The error text of a move. -/
def Why.error : Why → String
  | .exhausted .. => exhaustedError
  | .undecodable .. => undecodableError
  | .failed _ error => error

/-- Which failed rows `forget_failed` deletes. -/
inductive Selection where
  | id (n : Nat)
  | before (moment : Int)
  | all

/-- The rows that `forget` is about. -/
def Selection.has : Selection → Nat → FailedRow → Bool
  | .id n, i, _ => i = n
  | .before moment, _, f => f.failedAt < moment
  | .all, _, _ => true

/-- The calls of the driver. -/
inductive Op where
  | push (r : PushRequest)
  | reserve (queues : List String) (timeout : Int) (worker : String)
  | delete (claim : Nat)
  | release (claim : Nat) (delay : Int) (error : String)
  | fail (claim : Nat) (error : String)
  | retryFailed (id : Option Nat) (maxAttempts : Int)
  | forgetFailed (which : Selection)

/-- What a call answers its caller. -/
inductive Answer where
  | id (n : Nat)
  | job (claim : Nat)
  | nothing
  | done
  | count (n : Nat)
  | raised

/-- The rest of a `retry_failed`: the rows it read and how many it has put back. -/
structure Retrying where
  maxAttempts : Int
  rows : List (Nat × FailedRow)
  requeued : Nat

/-- The statement that a client sends next, with what it has read so far. -/
inductive Pc where
  | idle
  | pushLookup (row : JobRow) (key : String)
  | pushInsert (row : JobRow)
  | pushAgain (key : String)
  | round (a : Asking)
  | candidate (a : Asking) (moment : Int)
  | claim (a : Asking) (moment : Int) (id : Nat)
  | read (a : Asking) (moment : Int) (id : Nat)
  | claimCommit (a : Asking) (moment : Int) (id : Nat) (row : Option JobRow)
  | lostCommit (a : Asking)
  | delete (claim : Nat)
  | release (claim : Nat) (availableAt : Int) (error : String)
  | moveDelete (why : Why)
  | moveClock (why : Why) (row : JobRow)
  | moveInsert (why : Why) (row : JobRow) (failedAt : Int)
  | moveCommit (why : Why) (row : Option JobRow)
  | retrySelect (id : Option Nat) (maxAttempts : Int)
  | retryNext (t : Retrying)
  | retryInsert (t : Retrying) (id : Nat) (row : JobRow)
  | retryDelete (t : Retrying) (id : Nat)
  | retryCommit (t : Retrying)
  | forget (which : Selection)

/-- A connection in autocommit, in its caller's transaction, or in one that a failed
statement has aborted. -/
inductive Conn where
  | autocommit
  | opened
  | aborted
deriving DecidableEq

/-- A client and its connection. -/
structure Client where
  conn : Conn
  pc : Pc

/-- `κ` names the clients. `claims`, `released` and `ended` are history: every claim that
was committed, which of them were released, and which were released, deleted or failed. -/
structure World (κ : Type) where
  now : Int
  jobs : Table κ JobRow
  failed : Table κ FailedRow
  client : κ → Client
  claims : List Claim
  released : List Nat
  ended : List Nat
  answers : List (κ × Answer)

/-- Empty tables, and nobody in a call. -/
def World.start (κ : Type) : World κ := ⟨0, .empty, .empty, fun _ => ⟨.autocommit, .idle⟩, [], [], [], []⟩

/-- What may happen next. -/
inductive Input (κ : Type) where
  | tick (micros : Nat)
  | begin (c : κ)
  | commit (c : κ)
  | rollback (c : κ)
  | call (c : κ) (op : Op)
  | step (c : κ)
  | abort (c : κ)

namespace World
variable {κ : Type} [DecidableEq κ]

/-- The client goes on to a statement. -/
def goto (c : κ) (pc : Pc) (w : World κ) : World κ :=
  {w with client := Function.update w.client c {w.client c with pc := pc}}

/-- The call of `c` is over. -/
def answer (c : κ) (a : Answer) (w : World κ) : World κ :=
  {w.goto c .idle with answers := w.answers ++ [(c, a)]}

/-- The connection of a client changes its mode. -/
def setConn (c : κ) (conn : Conn) (w : World κ) : World κ :=
  {w with client := Function.update w.client c {w.client c with conn := conn}}

/-- Both tables are committed for a client. -/
def commitAll (c : κ) (w : World κ) : World κ :=
  {w with jobs := w.jobs.commit c, failed := w.failed.commit c}

/-- Both tables are rolled back for a client. -/
def rollbackAll (c : κ) (w : World κ) : World κ :=
  {w with jobs := w.jobs.rollback c, failed := w.failed.rollback c}

/-! ### Push -/

/-- `_id_for_unique`. -/
def idForUnique (c : κ) (key : String) (w : World κ) : Option Nat :=
  ((w.jobs.rows c fun _ r => r.uniqueKey = some key).head?).map Prod.fst

/-- The unique index makes an insert wait for a session that is about to add, or take
away, a row with this key. -/
def waitsForKey (c : κ) (key : String) (w : World κ) : Bool :=
  w.jobs.ids.any fun i =>
    match (w.jobs.slot i).held with
    | some (d, v) => d ≠ c && decide
        ((v.bind JobRow.uniqueKey = some key) ≠ ((w.jobs.slot i).committed.bind JobRow.uniqueKey = some key))
    | none => false

/-- The insert of a push. A key that is taken is a violation. -/
def pushInsert (c : κ) (row : JobRow) (w : World κ) : World κ :=
  let added := w.jobs.insert c row
  let w := {w with jobs := added.2}
  match (w.client c).conn with
  | .autocommit => (w.commitAll c).answer c (.id added.1)
  | _ => w.answer c (.id added.1)

/-- A unique violation aborts the transaction the insert was in, and takes back what it did. -/
def violated (c : κ) (key : String) (w : World κ) : World κ :=
  match (w.client c).conn with
  | .autocommit => w.goto c (.pushAgain key)
  | _ => ((w.rollbackAll c).setConn c .aborted).goto c (.pushAgain key)

/-! ### Reserve -/

/-- `_reserve_from` found nothing here: the next queue, or no job at all. -/
def nextQueue (c : κ) (a : Asking) (w : World κ) : World κ :=
  match a.rest with
  | [] => w.answer c .nothing
  | queue :: rest => w.goto c (.round {a with queue := queue, rest := rest, rounds := claimRounds})

/-- `_candidate`, with the lock its `FOR UPDATE` takes. -/
def candidate (c : κ) (a : Asking) (moment : Int) (w : World κ) : World κ :=
  match w.jobs.candidate c (claimable a.queue moment) before with
  | none => w.nextQueue c a
  | some (id, r) =>
    let w := {w with jobs := w.jobs.lock c fun i _ => i = id}
    if r.maxAttempts ≤ r.attempts then w.goto c (.moveDelete (.exhausted a moment id))
    else w.goto c (.claim a moment id)

/-- `_claim`: the guard in the `WHERE` is what makes the claim safe. -/
def claim (c : κ) (a : Asking) (moment : Int) (id : Nat) (w : World κ) : World κ :=
  let p : Nat → JobRow → Bool := fun i r => decide (i = id) && lapsed moment r
  if w.jobs.blocked c p then w
  else if w.jobs.rows c p = [] then w.goto c (.lostCommit a)
  else {w with jobs := w.jobs.modify c p fun r => some (claimRow a moment r)}.goto c (.read a moment id)

/-- The claim is committed. A payload that does not decode goes straight to failed. -/
def claimCommit (decodes : String → Bool) (c : κ) (a : Asking) (moment : Int) (id : Nat)
    (row : Option JobRow) (w : World κ) : World κ :=
  let w := w.commitAll c
  match row with
  | none => w.goto c (.round a)
  | some r =>
    let n := w.claims.length
    let made : Claim := ⟨toJob id r (reservedName a.worker), moment, a.timeout⟩
    let w := {w with claims := w.claims ++ [made]}
    if decodes r.payload then w.answer c (.job n) else w.goto c (.moveDelete (.undecodable a n))

/-! ### Completion -/

/-- The `WHERE` of a completion: the row of claim `n`, if the pair stored in it is the
claim's. Nothing without such a claim. -/
def ownedBy (n : Nat) (w : World κ) (i : Nat) (r : JobRow) : Bool :=
  match w.claims[n]? with
  | none => false
  | some c => decide (i = c.job.id) && (Guard.owned c.job.reservedBy c.job.attempts).holds r

/-- The row of a claim is deleted, if it is still the claim's. -/
def delete (c : κ) (n : Nat) (w : World κ) : World κ :=
  let p := w.ownedBy n
  if w.jobs.blocked c p then w
  else if w.jobs.rows c p = [] then w.answer c .done
  else ({w with jobs := w.jobs.modify c p fun _ => none, ended := w.ended ++ [n]}.commitAll c).answer c .done

/-- The row of a claim is set free, if it is still the claim's. -/
def release (c : κ) (n : Nat) (availableAt : Int) (error : String) (w : World κ) : World κ :=
  let p := w.ownedBy n
  if w.jobs.blocked c p then w
  else if w.jobs.rows c p = [] then w.answer c .done
  else
    ({w with
      jobs := w.jobs.modify c p fun r => some (releaseRow availableAt error r)
      released := w.released ++ [n], ended := w.ended ++ [n]}.commitAll c).answer c .done

/-- The `WHERE` of the `DELETE … RETURNING` that starts `_move_to_failed`. -/
def moveWhere (why : Why) (w : World κ) (i : Nat) (r : JobRow) : Bool :=
  match why with
  | .exhausted _ moment id => decide (i = id) && (Guard.exhausted moment).holds r
  | .undecodable _ n => w.ownedBy n i r
  | .failed n _ => w.ownedBy n i r

/-- The first statement of a move takes the row out. -/
def moveDelete (c : κ) (why : Why) (w : World κ) : World κ :=
  let p := w.moveWhere why
  if w.jobs.blocked c p then w
  else match w.jobs.rows c p with
    | [] => w.goto c (.moveCommit why none)
    | (_, r) :: _ => {w with jobs := w.jobs.modify c p fun _ => none}.goto c (.moveClock why r)

/-- What the caller of `_move_to_failed` does next. -/
def moved (c : κ) (why : Why) (w : World κ) : World κ :=
  match why with
  | .exhausted a _ _ => w.goto c (.round a)
  | .undecodable a _ => w.goto c (.round a)
  | .failed _ _ => w.answer c .done

/-- The claim a move ends, if it moved a row. -/
def endedBy (why : Why) (row : Option JobRow) : List Nat :=
  match why, row with
  | .undecodable _ n, some _ => [n]
  | .failed n _, some _ => [n]
  | _, _ => []

/-- The commit of a move. -/
def moveCommit (c : κ) (why : Why) (row : Option JobRow) (w : World κ) : World κ :=
  ({w with ended := w.ended ++ endedBy why row}.commitAll c).moved c why

/-! ### Failed jobs -/

/-- The failed rows that are to be retried. -/
def retrySelect (c : κ) (id : Option Nat) (maxAttempts : Int) (w : World κ) : World κ :=
  let p : Nat → FailedRow → Bool := fun i _ => match id with
    | some n => i = n
    | none => true
  w.goto c (.retryNext ⟨maxAttempts, w.failed.rows c p, 0⟩)

/-- The next of them, or the answer. -/
def retryNext (c : κ) (t : Retrying) (w : World κ) : World κ :=
  match t.rows with
  | [] => w.answer c (.count t.requeued)
  | (id, f) :: rest =>
    w.goto c (.retryInsert {t with rows := rest} id (retryRow w.now t.maxAttempts f))

/-- The failed row goes. -/
def retryDelete (c : κ) (t : Retrying) (id : Nat) (w : World κ) : World κ :=
  let p : Nat → FailedRow → Bool := fun i _ => i = id
  if w.failed.blocked c p then w
  else {w with failed := w.failed.modify c p fun _ => none}.goto c (.retryCommit t)

/-- The failed rows of a selection go. -/
def forget (c : κ) (which : Selection) (w : World κ) : World κ :=
  if w.failed.blocked c which.has then w
  else
    ({w with failed := w.failed.modify c which.has fun _ => none}.commitAll c).answer c
      (.count (w.failed.rows c which.has).length)

/-! ### The machine -/

/-- The next step of a client. -/
def exec (decodes : String → Bool) (c : κ) (w : World κ) : World κ :=
  match (w.client c).pc with
  | .idle => w
  | .pushLookup row key =>
    if (w.client c).conn = .aborted then w.answer c .raised
    else match w.idForUnique c key with
      | some id => w.answer c (.id id)
      | none => w.goto c (.pushInsert row)
  | .pushInsert row =>
    if (w.client c).conn = .aborted then w.answer c .raised
    else match row.uniqueKey with
      | none => w.pushInsert c row
      | some key =>
        if w.waitsForKey c key then w
        else if (w.idForUnique c key).isSome then w.violated c key
        else w.pushInsert c row
  | .pushAgain key =>
    if (w.client c).conn = .aborted then w.answer c .raised
    else match w.idForUnique c key with
      | some id => w.answer c (.id id)
      | none => w.answer c .raised
  | .round a =>
    match a.rounds with
    | 0 => w.nextQueue c a
    | n + 1 => w.goto c (.candidate {a with rounds := n} w.now)
  | .candidate a moment => w.candidate c a moment
  | .claim a moment id => w.claim c a moment id
  | .read a moment id => w.goto c (.claimCommit a moment id ((w.jobs.slot id).view c))
  | .claimCommit a moment id row => w.claimCommit decodes c a moment id row
  | .lostCommit a => (w.commitAll c).goto c (.round a)
  | .delete n => w.delete c n
  | .release n availableAt error => w.release c n availableAt error
  | .moveDelete why => w.moveDelete c why
  | .moveClock why row => w.goto c (.moveInsert why row w.now)
  | .moveInsert why row failedAt =>
    {w with failed := (w.failed.insert c (failedRow (fitError why.error) failedAt row)).2}.goto c
      (.moveCommit why (some row))
  | .moveCommit why row => w.moveCommit c why row
  | .retrySelect id maxAttempts => w.retrySelect c id maxAttempts
  | .retryNext t => w.retryNext c t
  | .retryInsert t id row => {w with jobs := (w.jobs.insert c row).2}.goto c (.retryDelete t id)
  | .retryDelete t id => w.retryDelete c t id
  | .retryCommit t => (w.commitAll c).goto c (.retryNext {t with requeued := t.requeued + 1})
  | .forget which => w.forget c which

/-- The first thing a call does. -/
def entry (now : Int) : Op → Pc
  | .push r => match pushKey r with
    | some key => .pushLookup (pushRow now r) key
    | none => .pushInsert (pushRow now r)
  | .reserve queues timeout worker => .round ⟨"", queues, 0, timeout, worker⟩
  | .delete n => .delete n
  | .release n delay error => .release n (now + max 0 delay * second) (fitError error)
  | .fail n error => .moveDelete (.failed n error)
  | .retryFailed id maxAttempts => .retrySelect id maxAttempts
  | .forgetFailed which => .forget which

/-- A push. -/
def isPush : Op → Bool
  | .push _ => true
  | _ => false

/-- A client starts a call when it has none under way. Within a transaction of its own
it only pushes. -/
def call (c : κ) (op : Op) (w : World κ) : World κ :=
  match (w.client c).pc with
  | .idle => if (w.client c).conn = .autocommit || isPush op then w.goto c (entry w.now op) else w
  | _ => w

/-- An input for a client between two calls. -/
def whenIdle (c : κ) (f : World κ → World κ) (w : World κ) : World κ :=
  match (w.client c).pc with
  | .idle => f w
  | _ => w

/-- One step of one client. -/
def step (decodes : String → Bool) : Input κ → World κ → World κ
  | .tick micros, w => {w with now := w.now + micros}
  | .begin c, w => w.whenIdle c fun w =>
    if (w.client c).conn = .autocommit then w.setConn c .opened else w
  | .commit c, w => w.whenIdle c fun w => (w.commitAll c).setConn c .autocommit
  | .rollback c, w => w.whenIdle c fun w => (w.rollbackAll c).setConn c .autocommit
  | .call c op, w => w.call c op
  | .step c, w => w.exec decodes c
  | .abort c, w => ((w.rollbackAll c).setConn c .autocommit).answer c .raised

end World

/-- Any number of clients. -/
def machine {κ : Type} [DecidableEq κ] (decodes : String → Bool) : Base.Machine (World κ) (Input κ) :=
  ⟨World.step decodes⟩

end PyAppRunner.Queue.PgQueue
