import PyAppRunner.Redis.Stream

/-! The job as a handler sees it, and what both queue drivers share: the clock
readings they bind, the text of an error that has to fit its column, and the
limits of one reserve call. -/
namespace PyAppRunner.Queue

/-- How many candidates one reserve call looks at before it gives up. -/
def claimRounds : Nat := 5

/-- The longest error text that is stored, in bytes. -/
def maxErrorBytes : Nat := 60000

/-- The error of a job that has no attempt left. -/
def exhaustedError : String :=
  "Exceeded max attempts: the last attempt released the job, or its worker died before finishing it."

/-- The error of a job whose payload cannot be read. -/
def undecodableError : String := "Payload is not valid JSON, so no handler could be given it."

/-- One reading of `now_utc()`: whole seconds, and the text `stamp` makes of it. -/
structure Moment where
  seconds : Int
  stamp : String

/-- `bytes.decode("utf-8", errors="ignore")`, from byte `i` on: what does not decode
is skipped a byte at a time. -/
def decodeIgnore (bytes : ByteArray) : (fuel : Nat) → (i : Nat) → List Char
  | 0, _ => []
  | fuel + 1, i =>
    if bytes.size ≤ i then []
    else match bytes.utf8DecodeChar? i with
      | some c => c :: decodeIgnore bytes fuel (i + c.utf8Size)
      | none => decodeIgnore bytes fuel (i + 1)

/-- Errors are cut rather than rejected, and on a character boundary. -/
def fitError (error : String) : String :=
  let raw := error.toUTF8
  if raw.size ≤ maxErrorBytes then error
  else String.ofList (decodeIgnore (raw.extract 0 maxErrorBytes) maxErrorBytes 0) ++ "\n... truncated"

/-- `worker[:64]`, as it is stored in `reserved_by`. -/
def reservedName (worker : String) : String := String.ofList (worker.toList.take 64)

/-- A claimed job. `handle` is the driver's bookmark: the stream entry on Redis,
nothing on Postgres. With `attempts`, `reservedBy` identifies the claim. -/
structure Job (η : Type) where
  id : Nat
  queue : String
  name : String
  payloadJson : String
  attempts : Nat
  maxAttempts : Nat
  handle : η
  reservedBy : String
deriving DecidableEq

end PyAppRunner.Queue
