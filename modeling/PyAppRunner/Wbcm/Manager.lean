import PyAppRunner.Base.Run
import PyAppRunner.Redis.Stream

/-! The connection manager's loop over its stream.

Each tick reads the stream from the position it has reached and works what it gets. The
read blocks for a while: with entries to return it returns at once, else it waits for
the next append or for its time to run out. Before the first message the position is
`$`, which a read takes to mean the end of the stream as it is when that read starts. -/
namespace PyAppRunner.Wbcm
open Base Redis

/-- `stream_last_id`. -/
inductive Position where
  | latest
  | at (id : EntryId)
deriving DecidableEq

/-- Where the reader of the stream is. -/
inductive Phase (α : Type) where
  | idle
  /-- Blocked in `XREAD`, for entries after this id. -/
  | waiting (since : EntryId)
  /-- The read has returned, and nothing of it was worked yet. -/
  | replied (batch : List (Entry α))

def Phase.isIdle {α : Type} : Phase α → Bool
  | idle => true
  | _ => false

def Phase.isReplied {α : Type} : Phase α → Bool
  | replied _ => true
  | _ => false

/-- The stream and the manager. `worked` and `began` are history: what was passed to
`work`, and the last id of the stream when the first read began. -/
structure World (α : Type) where
  stream : XStream α
  position : Position
  phase : Phase α
  worked : List (Entry α)
  began : Option EntryId

variable {α : Type}

/-- `count=500`. -/
def readCount : Nat := 500

/-- `read_stream_data`, as it begins. -/
def readStreamData (w : World α) : World α :=
  let began := w.began <|> some w.stream.lastId
  match w.position with
  | .latest => {w with began := began, phase := .waiting w.stream.lastId}
  | .at id =>
    if (w.stream.after id).isEmpty then {w with began := began, phase := .waiting id}
    else {w with began := began, phase := .replied ((w.stream.after id).take readCount)}

/-- What `work` does with a message: it returns whether it found something to do, or raises. -/
abbrev Work (α : Type) := α → Except String Bool

/-- One more message was found to be of use, or not. -/
def counted (work : Work α) (e : Entry α) (itemsFound : Nat) : Nat :=
  match work e.value with
  | .ok true => itemsFound + 1
  | _ => itemsFound

/-- The loop of `process_messages`. A message that raises does not hold up the position. -/
def processMessages (work : Work α) : List (Entry α) → Nat × World α → Nat × World α
  | [], r => r
  | e :: rest, (itemsFound, w) =>
    processMessages work rest
      (counted work e itemsFound, {w with worked := w.worked ++ [e], position := .at e.id})

/-- Values are added in one transaction; a read that waits for them is served. -/
def append (ms : Nat) (values : List α) (w : World α) : World α :=
  let stream := values.foldl (fun s v => s.xadd ms v) w.stream
  match w.phase with
  | .waiting since =>
    if (stream.after since).isEmpty then {w with stream := stream}
    else {w with stream := stream, phase := .replied ((stream.after since).take readCount)}
  | _ => {w with stream := stream}

/-- A read begins, its time runs out, it or its connection fails, what it returned is
worked; or somebody appends to the stream. -/
inductive Input (α : Type) where
  | read
  | timeout
  | fail
  | process
  | append (ms : Nat) (values : List α)

/-- The loop waits for a tick to end before the next, and `tick` only logs what fails. -/
def step (work : Work α) : Input α → World α → World α
  | .read, w =>
    match w.phase with
    | .idle => readStreamData w
    | _ => w
  | .timeout, w =>
    match w.phase with
    | .waiting _ => {w with phase := .idle}
    | _ => w
  | .fail, w => {w with phase := .idle}
  | .process, w =>
    match w.phase with
    | .replied batch => {(processMessages work batch (0, w)).2 with phase := .idle}
    | _ => w
  | .append ms values, w => append ms values w

/-- The manager, whatever is written and read. -/
def machine (work : Work α) : Machine (World α) (Input α) := ⟨step work⟩

/-- A manager that has not read yet, on a stream that may have had messages. -/
def World.start (stream : XStream α) : World α := ⟨stream, .latest, .idle, [], none⟩

end PyAppRunner.Wbcm
