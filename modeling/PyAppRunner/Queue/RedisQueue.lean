import PyAppRunner.Base.Run
import PyAppRunner.Queue.Job
import PyAppRunner.Redis.SortedSet

/-! The Redis driver: the seven scripts over one keyspace, and the calls that run
them.

A script runs atomically, so each is a function on the keyspace; `ms` is the
server's clock while it runs, which is what stream ids and idle times are made
of. Everything mutable about a job lives in its hash. A stream entry carries the
job id and nothing else. -/
namespace PyAppRunner.Queue.RedisQueue
open Redis

/-- How many due jobs one reserve call promotes out of the delayed set. -/
def promoteLimit : Nat := 50

/-- `j:{id}`. An `entry` of `''` is `none`; `error` and `failedAt` are `''` until a failure. -/
structure JobHash where
  queue : String
  name : String
  payload : String
  attempts : Nat
  maxAttempts : Nat
  priority : Int
  uniqueKey : String
  availableAt : Int
  reservedUntil : Int
  reservedBy : String
  lastError : String
  createdAt : String
  entry : Option EntryId
  error : String
  failedAt : String

/-- The keys of the queues. -/
structure Keyspace where
  /-- `seq`, the id counter. -/
  seq : Nat
  /-- `j:{id}`. -/
  job : Nat → Option JobHash
  /-- `q:{queue}:s:{level}`: the ids that are ready, one stream per priority. -/
  stream : String × Int → XStream Nat
  /-- `q:{queue}:levels`: the priorities that queue has streams for. -/
  levels : String → SortedSet Int
  /-- `q:{queue}:delayed`: ids scored by the second they become due. -/
  delayed : String → SortedSet Nat
  /-- `failed`: ids scored by when they failed. -/
  failed : SortedSet Nat
  /-- `u:{key}`: the job holding a unique key. -/
  unique : String → Option Nat
  /-- `queues`. -/
  queues : List String

namespace Keyspace

def empty : Keyspace where
  seq := 0
  job := fun _ => none
  stream := fun _ => .empty
  levels := fun _ => .empty
  delayed := fun _ => .empty
  failed := .empty
  unique := fun _ => none
  queues := []

/-- `HSET j:{id}`, with the hash as it is afterwards. -/
def hset (id : Nat) (h : JobHash) (k : Keyspace) : Keyspace :=
  {k with job := Function.update k.job id (some h)}

/-- `DEL j:{id}`. -/
def del (id : Nat) (k : Keyspace) : Keyspace := {k with job := Function.update k.job id none}

/-- `DEL u:{key}` for a key that is not empty. -/
def freeUnique (key : String) (k : Keyspace) : Keyspace :=
  {k with unique := if key = "" then k.unique else Function.update k.unique key none}

/-- `ZADD` to the queue's delayed set. -/
def delay (queue : String) (score : Int) (id : Nat) (k : Keyspace) : Keyspace :=
  {k with delayed := Function.update k.delayed queue ((k.delayed queue).zadd score id)}

/-- `ZREM` from the queue's delayed set. -/
def undelay (queue : String) (id : Nat) (k : Keyspace) : Keyspace :=
  {k with delayed := Function.update k.delayed queue ((k.delayed queue).zrem id)}

/-- `ZREM` from the failed set. -/
def unfail (id : Nat) (k : Keyspace) : Keyspace := {k with failed := k.failed.zrem id}

def saddQueue (queue : String) (k : Keyspace) : Keyspace :=
  {k with queues := if queue ∈ k.queues then k.queues else k.queues ++ [queue]}

/-- A stream as a command left it. -/
def setStream (queue : String) (level : Int) (s : XStream Nat) (k : Keyspace) : Keyspace :=
  {k with stream := Function.update k.stream (queue, level) s}

/-- The three calls that make a job ready: `XADD` its id, `HSET` the entry, `ZADD` the level. -/
def enqueue (ms : Nat) (queue : String) (level : Int) (id : Nat) (h : JobHash) (k : Keyspace) :
    Keyspace :=
  let s := k.stream (queue, level)
  let k := (k.setStream queue level (s.xadd ms id)).hset id {h with entry := some (s.nextId ms)}
  {k with levels := Function.update k.levels queue ((k.levels queue).zadd level level)}

/-- `XACK` and `XDEL` of one entry. -/
def remove (queue : String) (level : Int) (entry : EntryId) (k : Keyspace) : Keyspace :=
  k.setStream queue level (((k.stream (queue, level)).xack entry).xdel entry)

/-- The hash stays where it is, gives up its unique key and its claim, and joins the failed set. -/
def failJob (id : Nat) (h : JobHash) (error failedAt : String) (score : Int) (k : Keyspace) :
    Keyspace :=
  let k := (k.freeUnique h.uniqueKey).hset id {h with
    uniqueKey := "", error := error, failedAt := failedAt,
    reservedUntil := 0, reservedBy := "", entry := none}
  {k with failed := k.failed.zadd score id}

end Keyspace

/-- Members of a sorted set that share a score are ordered as text. -/
def asText {α : Type} [ToString α] (a b : α) : Bool := decide (toString a ≤ toString b)

/-! ### `_PUSH` -/

/-- The arguments of the script of a push. -/
structure PushArgs where
  queue : String
  name : String
  payload : String
  priority : Int
  maxAttempts : Nat
  unique : String
  availableAt : Int
  createdAt : String
  now : Int

/-- The hash of a new job. -/
def newHash (a : PushArgs) : JobHash where
  queue := a.queue
  name := a.name
  payload := a.payload
  attempts := 0
  maxAttempts := a.maxAttempts
  priority := a.priority
  uniqueKey := a.unique
  availableAt := a.availableAt
  reservedUntil := 0
  reservedBy := ""
  lastError := ""
  createdAt := a.createdAt
  entry := none
  error := ""
  failedAt := ""

/-- A new id with its hash, its unique key and its queue's name; not yet in any place. -/
def create (a : PushArgs) (k : Keyspace) : Keyspace :=
  let id := k.seq + 1
  let k := {k.hset id (newHash a) with seq := id}
  {k with
    unique := if a.unique = "" then k.unique else Function.update k.unique a.unique (some id)}.saddQueue a.queue

/-- The job goes into its stream, or waits until it is due. -/
def pushNew (ms : Nat) (a : PushArgs) (k : Keyspace) : Nat × Keyspace :=
  if a.now < a.availableAt then
    (k.seq + 1, (create a k).delay a.queue a.availableAt (k.seq + 1))
  else
    (k.seq + 1, (create a k).enqueue ms a.queue a.priority (k.seq + 1) (newHash a))

/-- A unique key that is held answers with its holder. -/
def push (ms : Nat) (a : PushArgs) (k : Keyspace) : Nat × Keyspace :=
  if a.unique = "" then pushNew ms a k
  else match k.unique a.unique with
    | none => pushNew ms a k
    | some held =>
      if (k.job held).isSome then (held, k)
      else pushNew ms a (k.freeUnique a.unique)

/-! ### `_RESERVE` -/

/-- The arguments of the script of a reserve. -/
structure ReserveArgs where
  queue : String
  now : Int
  timeout : Nat
  worker : String
  failedAt : String

/-- One due id. Only the caller that removed it may add the stream entry. -/
def promote (ms : Nat) (queue : String) (k : Keyspace) (id : Nat) : Keyspace :=
  if id ∈ k.delayed queue then
    match k.job id with
    | none => k.undelay queue id
    | some h => (k.undelay queue id).enqueue ms queue h.priority id h
  else k

/-- The due jobs that come first move to their streams. -/
def promoteDue (ms : Nat) (a : ReserveArgs) (k : Keyspace) : Keyspace :=
  ((k.delayed a.queue).zrangebyscore asText a.now promoteLimit).foldl (promote ms a.queue) k

/-- `XAUTOCLAIM` before `XREADGROUP`, so that a dead worker's job comes before new work. -/
def take (ms : Nat) (a : ReserveArgs) (level : Int) (k : Keyspace) : Option (Entry Nat) × Keyspace :=
  let auto := (k.stream (a.queue, level)).xautoclaim ms (a.timeout * 1000)
  match auto.1 with
  | some e => (some e, k.setStream a.queue level auto.2)
  | none =>
    let read := auto.2.xreadgroup ms
    (read.1, k.setStream a.queue level read.2)

/-- A claim as the script returns it: the id, the entry and the hash after the claim. -/
structure Claimed where
  id : Nat
  entry : EntryId
  hash : JobHash

/-- What a round of the search comes to. -/
inductive Outcome where
  | stop
  | next
  | claimed (c : Claimed)

/-- Parked until the claim runs out: parking is not an attempt. -/
def park (queue : String) (level : Int) (e : Entry Nat) (h : JobHash) (k : Keyspace) : Keyspace :=
  ((k.delay queue h.reservedUntil e.value).hset e.value {h with entry := none}).remove queue level e.id

/-- The hash once `worker` has claimed it. -/
def claimHash (a : ReserveArgs) (entry : EntryId) (h : JobHash) : JobHash :=
  {h with
    attempts := h.attempts + 1, reservedBy := a.worker,
    reservedUntil := a.now + a.timeout, entry := some entry}

/-- What becomes of an entry that was taken. Every outcome short of a claim removes it. -/
def settle (a : ReserveArgs) (level : Int) (e : Entry Nat) (k : Keyspace) : Outcome × Keyspace :=
  match k.job e.value with
  | none => (.next, k.remove a.queue level e.id)
  | some h =>
    if a.now < h.reservedUntil then (.next, park a.queue level e h k)
    else if h.maxAttempts ≤ h.attempts then
      (.next, (k.remove a.queue level e.id).failJob e.value h exhaustedError a.failedAt a.now)
    else
      (.claimed ⟨e.value, e.id, claimHash a e.id h⟩,
        k.hset e.value (claimHash a e.id h))

/-- An entry is taken and settled. -/
def round (ms : Nat) (a : ReserveArgs) (level : Int) (k : Keyspace) : Outcome × Keyspace :=
  match take ms a level k with
  | (none, k) => (.stop, k)
  | (some e, k) => settle a level e k

/-- At most so many rounds on a level. -/
def rounds (ms : Nat) (a : ReserveArgs) (level : Int) : Nat → Keyspace → Option Claimed × Keyspace
  | 0, k => (none, k)
  | n + 1, k =>
    match round ms a level k with
    | (.stop, k) => (none, k)
    | (.next, k) => rounds ms a level n k
    | (.claimed c, k) => (some c, k)

/-- `XGROUP CREATE`, which an existing group survives. -/
def createGroup (queue : String) (level : Int) (k : Keyspace) : Keyspace :=
  k.setStream queue level (k.stream (queue, level)).xgroupCreate

/-- The priority levels, highest first. -/
def walk (ms : Nat) (a : ReserveArgs) : List Int → Keyspace → Option Claimed × Keyspace
  | [], k => (none, k)
  | level :: rest, k =>
    match rounds ms a level claimRounds (createGroup a.queue level k) with
    | (some c, k) => (some c, k)
    | (none, k) => walk ms a rest k

/-- The script: due jobs are promoted, and the levels are searched from the top. -/
def reserve (ms : Nat) (a : ReserveArgs) (k : Keyspace) : Option Claimed × Keyspace :=
  let k := promoteDue ms a k
  walk ms a ((k.levels a.queue).zrevrange asText) k

/-! ### `_HELD`, `_COMPLETE`, `_RELEASE`, `_FAIL` -/

/-- The opening of every script that ends a claim: the hash, if the pair the handle
carries is the one stored in it. -/
def held (j : Job EntryId) (k : Keyspace) : Option JobHash :=
  (k.job j.id).filter (fun h => decide (h.reservedBy = j.reservedBy ∧ h.attempts = j.attempts))

/-- Under the held hash `h`: the entry, the unique key and the job are gone. The
stream addressed is the one the job's priority names now. -/
def completed (j : Job EntryId) (h : JobHash) (k : Keyspace) : Keyspace :=
  ((k.remove j.queue h.priority j.handle).freeUnique h.uniqueKey).del j.id

/-- The script that ends a job, if the claim still holds it. -/
def complete (j : Job EntryId) (k : Keyspace) : Bool × Keyspace :=
  match held j k with
  | none => (false, k)
  | some h => (true, completed j h k)

/-- Back in the delayed set, with the claim given up and the attempts as they were. -/
def released (availableAt : Int) (error : String) (j : Job EntryId) (h : JobHash) (k : Keyspace) :
    Keyspace :=
  ((k.delay j.queue availableAt j.id).hset j.id {h with
    availableAt := availableAt, reservedUntil := 0, reservedBy := "",
    lastError := error, entry := none}).remove j.queue h.priority j.handle

/-- The script that puts a job back, if the claim still holds it. -/
def release (availableAt : Int) (error : String) (j : Job EntryId) (k : Keyspace) : Bool × Keyspace :=
  match held j k with
  | none => (false, k)
  | some h => (true, released availableAt error j h k)

/-- The script that gives a job up, if the claim still holds it. -/
def fail (error : String) (now : Int) (failedAt : String) (j : Job EntryId) (k : Keyspace) :
    Bool × Keyspace :=
  match held j k with
  | none => (false, k)
  | some h => (true, (k.remove j.queue h.priority j.handle).failJob j.id h error failedAt now)

/-! ### `_REQUEUE`, `_FORGET` -/

/-- A failed job's hash as `retry` puts it back: same id, fresh budget, priority 0. -/
def requeueHash (maxAttempts : Nat) (now : Int) (h : JobHash) : JobHash :=
  {h with
    attempts := 0, maxAttempts := maxAttempts, priority := 0, uniqueKey := "",
    availableAt := now, reservedUntil := 0, reservedBy := "", lastError := "",
    error := "", failedAt := ""}

/-- The queue that a retried job goes to. -/
def requeueQueue (h : JobHash) : String := if h.queue = "" then "default" else h.queue

/-- A job that was not in the failed set is not a failed job. -/
def requeue (ms id maxAttempts : Nat) (now : Int) (k : Keyspace) : Bool × Keyspace :=
  if id ∈ k.failed then
    match k.job id with
    | none => (false, k.unfail id)
    | some h =>
      (true, ((k.unfail id).enqueue ms (requeueQueue h) 0 id (requeueHash maxAttempts now h)).saddQueue
        (requeueQueue h))
  else (false, k)

/-- A failed job goes, with its hash. -/
def forget (id : Nat) (k : Keyspace) : Bool × Keyspace :=
  if id ∈ k.failed then (true, (k.unfail id).del id) else (false, k)

/-! ### The driver -/

/-- `_to_job`: the handle a claim gives its worker. -/
def toJob (c : Claimed) : Job EntryId where
  id := c.id
  queue := if c.hash.queue = "" then "default" else c.hash.queue
  name := c.hash.name
  payloadJson := c.hash.payload
  attempts := max 1 c.hash.attempts
  maxAttempts := max 1 c.hash.maxAttempts
  handle := c.entry
  reservedBy := c.hash.reservedBy

/-- What a caller passes to `push`. -/
structure PushRequest where
  name : String
  payload : String
  delay : Int := 0
  queue : String := "default"
  priority : Int := 0
  unique : String := ""
  maxAttempts : Int := 3

def pushArgs (moment : Moment) (r : PushRequest) : PushArgs where
  queue := if r.queue = "" then "default" else r.queue
  name := r.name
  payload := r.payload
  priority := r.priority
  maxAttempts := (max 1 r.maxAttempts).toNat
  unique := r.unique
  availableAt := moment.seconds + max 0 r.delay
  createdAt := moment.stamp
  now := moment.seconds

def reserveArgs (moment : Moment) (queue : String) (timeout : Int) (worker : String) : ReserveArgs where
  queue := queue
  now := moment.seconds
  timeout := (max 1 timeout).toNat
  worker := reservedName worker
  failedAt := moment.stamp

/-- A claim, with how often its job had been retried when it was made. -/
structure Claim where
  job : Job EntryId
  generation : Nat
deriving DecidableEq

/-- The keyspace, every claim made so far in order, and how often each job was
put back by `retry`. The last two are history: no script reads them. -/
structure World where
  keys : Keyspace
  claims : List Claim
  retries : Nat → Nat

/-- No job yet, and no call made. -/
def World.empty : World := ⟨.empty, [], fun _ => 0⟩

/-- One script call, with the clocks its caller and the server read. A completion
names the claim whose handle it is called with. `reserve` over several queues and
`retry_failed` over several ids are several calls; a payload that does not decode
is a `fail` of the claim just made. -/
inductive Call where
  | push (ms : Nat) (moment : Moment) (r : PushRequest)
  | reserve (ms : Nat) (moment : Moment) (queue : String) (timeout : Int) (worker : String)
  | delete (claim : Nat)
  | release (claim : Nat) (moment : Moment) (delay : Int) (error : String)
  | fail (claim : Nat) (moment : Moment) (error : String)
  | retry (ms : Nat) (moment : Moment) (id : Nat) (maxAttempts : Int)
  | forget (id : Nat)

/-- The world after a reserve script: a claim it returned is handed out and remembered. -/
def World.handOut (w : World) : Option Claimed × Keyspace → World
  | (none, k) => {w with keys := k}
  | (some c, k) => {w with keys := k, claims := w.claims ++ [⟨toJob c, w.retries c.id⟩]}

/-- A completion with the handle of claim `n`; nothing without such a claim. -/
def World.complete (n : Nat) (script : Job EntryId → Keyspace → Bool × Keyspace) (w : World) : World :=
  match w.claims[n]? with
  | none => w
  | some c => {w with keys := (script c.job w.keys).2}

/-- One call. -/
def World.step : Call → World → World
  | .push ms moment r, w => {w with keys := (push ms (pushArgs moment r) w.keys).2}
  | .reserve ms moment queue timeout worker, w =>
    w.handOut (RedisQueue.reserve ms (reserveArgs moment queue timeout worker) w.keys)
  | .delete n, w => w.complete n RedisQueue.complete
  | .release n moment delay error, w =>
    w.complete n (RedisQueue.release (moment.seconds + max 0 delay) (fitError error))
  | .fail n moment error, w =>
    w.complete n (RedisQueue.fail (fitError error) moment.seconds moment.stamp)
  | .retry ms moment id maxAttempts, w =>
    match requeue ms id (max 1 maxAttempts).toNat moment.seconds w.keys with
    | (false, k) => {w with keys := k}
    | (true, k) => {w with keys := k, retries := Function.update w.retries id (w.retries id + 1)}
  | .forget id, w => {w with keys := (forget id w.keys).2}

/-- One call after another, each of them a script. -/
def machine : Base.Machine World Call := ⟨World.step⟩

end PyAppRunner.Queue.RedisQueue
