import PyAppRunner.Queue.PgFence
import PyAppRunner.Queue.RedisQueue

/-! The worker: one job, one completion.

`_run_job` calls the handler and then, once, the queue: `delete` after a plain return,
`release` where the handler asked for it, and after an exception `fail` or `release` with
the error's text. A handler may end in any way and an exception say anything, and not
everything it says can be stored: half of a surrogate pair has no UTF-8, Postgres takes no
NUL in a text, and a day in the far future is no `datetime`. Then the completion raises
out of `_run_job`, the worker stops, and the job stays under its claim until that runs out
(`run_ends_once_iff`). -/
namespace PyAppRunner.Queue

/-! ### What a handler leaves -/

/-- A character of a Python string: a scalar value, or half of a surrogate pair by itself. -/
abbrev PyChar := Char ⊕ Fin 0x800

/-- A Python string, which may hold halves of pairs. -/
abbrev PyText := List PyChar

/-- A text without such halves. -/
def pyText (s : String) : PyText := s.toList.map .inl

/-- `str.encode("utf-8")`, as the text it encodes: half of a surrogate pair raises. -/
def encode (s : PyText) : Option String := (s.mapM Sum.getLeft?).map String.ofList

/-- An exception: its class, its text (none where `__str__` raises), and its formatted traceback. -/
structure PyError where
  typeName : PyText
  text : Option PyText
  trace : PyText
deriving DecidableEq

/-- How the `try` of `_run_job` ends. -/
inductive Ending where
  | returned
  | raised (error : PyError)
  /-- `resolve` raised. -/
  | unresolved (error : PyError)
  /-- `asyncio.timeout` raised. -/
  | timedOut (error : PyError)
deriving DecidableEq

/-- What a handler raised, or what was raised for it. -/
def Ending.error : Ending → Option PyError
  | .returned => none
  | .raised e | .unresolved e | .timedOut e => some e

/-- The handler's calls of `job.release`, and how it ended. -/
structure HandlerRun where
  releases : List Int
  ending : Ending
deriving DecidableEq

/-- `_release_delay`. -/
def HandlerRun.releaseDelay (run : HandlerRun) : Option Int := run.releases.getLast?.map (max 0)

/-! ### The worker -/

/-- `backoff_steps`. -/
inductive BackoffSteps where
  | unset
  | every (delay : Int)
  | list (delays : List Int)
deriving DecidableEq

/-- One delay an attempt, and the last one from then on. -/
def backoffOf (attempt : Nat) (delays : List Int) : Int :=
  if delays = [] then 0 else max 0 (delays.getD (min (attempt - 1) (delays.length - 1)) 0)

/-- The delay before the next attempt. -/
def backoff (attempt : Nat) : BackoffSteps → Int
  | .unset => backoffOf attempt [10, 60, 300]
  | .every delay => max 0 delay
  | .list delays => backoffOf attempt delays

/-- A call of the queue. -/
inductive Completion where
  | delete
  | release (delay : Int) (error : PyText)
  | fail (error : PyText)
deriving DecidableEq

/-- `_job_failed`'s `detail`. -/
def PyError.detail (e : PyError) : Option PyText :=
  e.text.map fun text => e.typeName ++ pyText ": " ++ text ++ pyText "\n" ++ e.trace

/-- `_job_failed`. -/
def jobFailed (steps : BackoffSteps) (attempts maxAttempts : Nat) (e : PyError) : Option Completion :=
  e.detail.map fun detail =>
    if maxAttempts ≤ attempts then .fail detail else .release (backoff attempts steps) detail

/-- `_run_job`, up to its call of the queue; none where it raises before. -/
def runJob (steps : BackoffSteps) (attempts maxAttempts : Nat) (run : HandlerRun) : Option Completion :=
  match run.ending.error with
  | some e => jobFailed steps attempts maxAttempts e
  | none =>
    match run.releaseDelay with
    | some delay => some (.release delay [])
    | none => some .delete

/-! ### What is to become of the job -/

/-- How a job ends. -/
inductive JobEnd where
  | deleted
  | released (delay : Int) (error : String)
  | failed (error : String)
deriving DecidableEq

/-- The end a run is to have: gone after a plain return, back with the delay it asked for, and
after an exception failed or back with the backoff, its text stored as far as it fits. -/
def HandlerRun.Due (steps : BackoffSteps) (attempts maxAttempts : Nat) (run : HandlerRun) (e : JobEnd) : Prop :=
  match run.ending.error with
  | none =>
    match run.releases.getLast? with
    | none => e = .deleted
    | some delay => e = .released (max 0 delay) ""
  | some error => ∃ detail text, error.detail = some detail ∧ encode detail = some text ∧
    e = if maxAttempts ≤ attempts then .failed (fitError text)
      else .released (backoff attempts steps) (fitError text)

/-- The text can be sent and the delay is one, as far as the run needs them. -/
def HandlerRun.fits (sendable : PyText → Bool) (reaches : Int → Bool) (steps : BackoffSteps) (attempts maxAttempts : Nat)
    (run : HandlerRun) : Bool :=
  match run.ending.error with
  | none => run.releaseDelay.all reaches
  | some e => e.detail.any sendable && (decide (maxAttempts ≤ attempts) || reaches (backoff attempts steps))

/-- The same of the call it comes to. -/
def Completion.fits (sendable : PyText → Bool) (reaches : Int → Bool) : Completion → Bool
  | .delete => true
  | .release delay error => reaches delay && sendable error
  | .fail error => sendable error

/-- What the call leaves of the job. -/
def Completion.leaves (e : JobEnd) : Completion → Prop
  | .delete => e = .deleted
  | .release delay error => 0 ≤ delay ∧ ∃ text, encode error = some text ∧ e = .released delay (fitError text)
  | .fail error => ∃ text, encode error = some text ∧ e = .failed (fitError text)

theorem backoff_nonneg (attempt : Nat) (steps : BackoffSteps) : 0 ≤ backoff attempt steps := by
  have hof : ∀ delays, 0 ≤ backoffOf attempt delays := by
    intro delays
    unfold backoffOf
    split <;> omega
  cases steps with
  | unset => exact hof _
  | every delay => exact Int.le_max_left 0 delay
  | list delays => exact hof delays

theorem fitError_nil : fitError "" = "" := rfl

theorem encode_nil : encode [] = some "" := rfl

/-- The call is the one that is due. -/
theorem due_iff (steps : BackoffSteps) (attempts maxAttempts : Nat) (run : HandlerRun) (e : JobEnd) :
    run.Due steps attempts maxAttempts e ↔ ∃ call, runJob steps attempts maxAttempts run = some call ∧ call.leaves e := by
  unfold HandlerRun.Due runJob
  cases run.ending.error with
  | none =>
    unfold HandlerRun.releaseDelay
    cases run.releases.getLast? with
    | none => simp [Completion.leaves]
    | some delay =>
      simp only [Option.map_some, Option.some.injEq, exists_eq_left', Completion.leaves, encode_nil, fitError_nil]
      exact ⟨fun h => ⟨Int.le_max_left 0 delay, h⟩, fun h => h.2⟩
  | some error =>
    unfold jobFailed
    dsimp only
    cases error.detail with
    | none => simp
    | some detail =>
      simp only [Option.some.injEq, exists_eq_left', Option.map_some]
      by_cases hlast : maxAttempts ≤ attempts
      · simp [hlast, Completion.leaves]
      · simp [hlast, Completion.leaves, backoff_nonneg]

/-- The call fits as the run does. -/
theorem fits_iff {sendable : PyText → Bool} (hempty : sendable [] = true) (reaches : Int → Bool) (steps : BackoffSteps)
    (attempts maxAttempts : Nat) (run : HandlerRun) : run.fits sendable reaches steps attempts maxAttempts = true ↔
      ∃ call, runJob steps attempts maxAttempts run = some call ∧ call.fits sendable reaches = true := by
  unfold HandlerRun.fits runJob
  cases run.ending.error with
  | none =>
    cases run.releaseDelay with
    | none => simp [Completion.fits]
    | some delay => simp [Completion.fits, hempty]
  | some error =>
    unfold jobFailed
    dsimp only
    cases error.detail with
    | none => simp
    | some detail =>
      simp only [Option.any_some, Option.map_some, Option.some.injEq, exists_eq_left']
      by_cases hlast : maxAttempts ≤ attempts
      · simp [hlast, Completion.fits]
      · simp [hlast, Completion.fits, Bool.and_comm]

theorem release_nonneg {steps : BackoffSteps} {attempts maxAttempts : Nat} {run : HandlerRun} {delay : Int} {error : PyText}
    (h : runJob steps attempts maxAttempts run = some (.release delay error)) : 0 ≤ delay := by
  unfold runJob at h
  split at h
  · unfold jobFailed at h
    obtain ⟨detail, -, hcall⟩ := Option.map_eq_some_iff.mp h
    split at hcall
    · cases hcall
    · cases hcall
      exact backoff_nonneg attempts steps
  · split at h
    · rename_i d hdelay
      cases h
      obtain ⟨d', -, rfl⟩ := Option.map_eq_some_iff.mp hdelay
      exact Int.le_max_left 0 d'
    · cases h

/-! ### On Redis -/

namespace RedisQueue
open Redis

/-- A number of more than 4300 digits is not turned into text. -/
def hasText (n : Int) : Bool := decide (n.natAbs < Nat.pow 10 4300)

variable (j : Job EntryId) (moment : Moment) (steps : BackoffSteps) (run : HandlerRun) (k : Keyspace)

/-- The driver's `delete`, `release` and `fail`: none where the arguments of the script raise,
and else whether the script found the claim, and the keyspace after it. -/
def perform (k : Keyspace) : Completion → Option (Bool × Keyspace)
  | .delete => some (complete j k)
  | .release delay error =>
    match encode error with
    | none => none
    | some text =>
      if hasText (moment.seconds + max 0 delay) then
        some (release (moment.seconds + max 0 delay) (fitError text) j k)
      else none
  | .fail error => (encode error).map fun text => fail (fitError text) moment.seconds moment.stamp j k

/-- A job is run and its end is carried out. -/
def runOn : Option (Bool × Keyspace) :=
  (runJob steps j.attempts j.maxAttempts run).bind (perform j moment k)

/-- The hash after the job's end. -/
def endHash (h : JobHash) : JobEnd → Option JobHash
  | .deleted => none
  | .released delay error => some {h with
      availableAt := moment.seconds + delay, reservedUntil := 0, reservedBy := "", lastError := error, entry := none}
  | .failed error => some {h with
      uniqueKey := "", error := error, failedAt := moment.stamp, reservedUntil := 0, reservedBy := "", entry := none}

/-- The job, under its claim before, has come to this end; every other hash is as it was. -/
structure Took (h : JobHash) (e : JobEnd) (k' : Keyspace) : Prop where
  jobs : k'.job = Function.update k.job j.id (endHash moment h e)
  delayed : ∀ delay error, e = .released delay error → (j.id, moment.seconds + delay) ∈ (k'.delayed j.queue).items
  failed : ∀ error, e = .failed error → (j.id, moment.seconds) ∈ k'.failed.items

/-- `_run_job` returns, and exactly the completion that is due has taken effect. -/
def EndsOnce : Prop :=
  ∃ h k' e, held j k = some h ∧ runOn j moment steps run k = some (true, k') ∧
    run.Due steps j.attempts j.maxAttempts e ∧ Took j moment k h e k'

/-- What Redis takes: any text that has UTF-8, and a time that has a text. -/
def fits : Bool :=
  run.fits (fun error => (encode error).isSome) (fun delay => hasText (moment.seconds + delay)) steps j.attempts
    j.maxAttempts

variable {j moment steps run k}

theorem took_complete (moment : Moment) {h : JobHash} (hheld : held j k = some h) :
    ∃ k', complete j k = (true, k') ∧ Took j moment k h .deleted k' := by
  refine ⟨completed j h k, by rw [complete, hheld], rfl, ?_, ?_⟩
  · intro delay error he
    cases he
  · intro error he
    cases he

theorem took_release (moment : Moment) {h : JobHash} (hheld : held j k = some h) (delay : Int) (error : String) :
    ∃ k', release (moment.seconds + delay) error j k = (true, k') ∧ Took j moment k h (.released delay error) k' := by
  refine ⟨released (moment.seconds + delay) error j h k, by rw [release, hheld], rfl, ?_, ?_⟩
  · intro delay' error' he
    cases he
    show (j.id, moment.seconds + delay) ∈
      (Function.update k.delayed j.queue ((k.delayed j.queue).zadd (moment.seconds + delay) j.id) j.queue).items
    rw [Function.update_self]
    exact List.mem_cons_self
  · intro error' he
    cases he

theorem took_fail (moment : Moment) {h : JobHash} (hheld : held j k = some h) (error : String) :
    ∃ k', fail error moment.seconds moment.stamp j k = (true, k') ∧ Took j moment k h (.failed error) k' := by
  refine ⟨_, by rw [fail, hheld], rfl, ?_, ?_⟩
  · intro delay error' he
    cases he
  · intro error' he
    exact List.mem_cons_self

theorem endsOnce_iff : EndsOnce j moment steps run k ↔
    (held j k).isSome = true ∧ fits j moment steps run = true := by
  have hempty : (fun error : PyText => (encode error).isSome) [] = true := rfl
  rw [fits, fits_iff hempty]
  constructor
  · intro ⟨h, k', e, hheld, hrun, _⟩
    obtain ⟨call, hcall, hperform⟩ := Option.bind_eq_some_iff.mp hrun
    refine ⟨by rw [hheld]; rfl, call, hcall, ?_⟩
    cases call with
    | delete => rfl
    | release delay error =>
      rw [perform, Int.max_eq_right (release_nonneg hcall)] at hperform
      split at hperform
      · cases hperform
      · rename_i text htext
        split at hperform
        · rename_i hreaches
          simp [Completion.fits, htext, hreaches]
        · cases hperform
    | fail error =>
      obtain ⟨text, htext, -⟩ := Option.map_eq_some_iff.mp hperform
      simp [Completion.fits, htext]
  · intro ⟨hsome, call, hcall, hfits⟩
    obtain ⟨h, hheld⟩ := Option.isSome_iff_exists.mp hsome
    have hrun : runOn j moment steps run k = perform j moment k call := by rw [runOn, hcall]; rfl
    cases call with
    | delete =>
      obtain ⟨k', hk', htook⟩ := took_complete moment hheld
      refine ⟨h, k', .deleted, hheld, ?_, (due_iff _ _ _ _ _).mpr ⟨_, hcall, rfl⟩, htook⟩
      rw [hrun, perform, hk']
    | release delay error =>
      have hnonneg := release_nonneg hcall
      rw [Completion.fits, Bool.and_eq_true] at hfits
      obtain ⟨text, htext⟩ := Option.isSome_iff_exists.mp hfits.2
      obtain ⟨k', hk', htook⟩ := took_release moment hheld delay (fitError text)
      refine ⟨h, k', .released delay (fitError text), hheld, ?_,
        (due_iff _ _ _ _ _).mpr ⟨_, hcall, hnonneg, text, htext, rfl⟩, htook⟩
      rw [hrun, perform, htext, Int.max_eq_right hnonneg]
      exact (if_pos hfits.1).trans (congrArg some hk')
    | fail error =>
      obtain ⟨text, htext⟩ := Option.isSome_iff_exists.mp hfits
      obtain ⟨k', hk', htook⟩ := took_fail moment hheld (fitError text)
      refine ⟨h, k', .failed (fitError text), hheld, ?_, (due_iff _ _ _ _ _).mpr ⟨_, hcall, text, htext, rfl⟩, htook⟩
      rw [hrun, perform, htext, Option.map_some, hk']

end RedisQueue

/-! ### On Postgres -/

namespace PgQueue
open Sql Base
variable {κ : Type} [DecidableEq κ] (decodes : String → Bool) (c : κ) (n : Nat) (steps : BackoffSteps) (run : HandlerRun)

/-- `datetime.max`, in microseconds. -/
def maxMoment : Int := 253402300799999999

/-- A text psycopg sends: one that has UTF-8 and, cut to what fits, no NUL. -/
def sent (error : PyText) : Option String := (encode error).filter fun text => (fitError text).toList.all (· ≠ '\x00')

/-- The driver's `delete`, `release` and `fail` with the handle of claim `n`, and whether they
return. A release raises before its statement is sent, and a `fail` only when it has
deleted the row, which is rolled back then. -/
def perform (w : World κ) : Completion → Bool × World κ
  | .delete => (true, (machine decodes).run w [.call c (.delete n), .step c])
  | .release delay error =>
    match sent error with
    | none => (false, w)
    | some text =>
      if w.now + max 0 delay * second ≤ maxMoment then
        (true, (machine decodes).run w [.call c (.release n delay text), .step c])
      else (false, w)
  | .fail error =>
    match sent error with
    | some text => (true, (machine decodes).run w (.call c (.fail n text) :: List.replicate 4 (.step c)))
    | none =>
      -- The text has not been looked at when the row is deleted.
      let w := (machine decodes).run w [.call c (.fail n ""), .step c]
      match (w.client c).pc with
      | .moveClock _ _ => (false, w.step decodes (.abort c))
      | _ => (true, w.step decodes (.step c))

/-- `_run_job` with claim `n`. -/
def runOn (w : World κ) : Bool × World κ :=
  match w.claims[n]? with
  | none => (false, w)
  | some claim =>
    match runJob steps claim.job.attempts claim.job.maxAttempts run with
    | none => (false, w)
    | some call => perform decodes c n w call

/-- What is left of the row of a job. -/
def endRow (now : Int) (r : JobRow) : JobEnd → Option JobRow
  | .deleted => none
  | .released delay error => some (releaseRow (now + delay * second) error r)
  | .failed _ => none

/-- The failed row of a job. -/
def endFailed (now : Int) (r : JobRow) : JobEnd → Option FailedRow
  | .failed error => some (failedRow error now r)
  | _ => none

/-- The row, under its claim before, has come to this end; every other row is as it was. -/
structure Took (id : Nat) (r : JobRow) (e : JobEnd) (w w' : World κ) : Prop where
  jobs : ∀ i, (w'.jobs.slot i).committed = if i = id then endRow w.now r e else (w.jobs.slot i).committed
  failed : ∀ i, (w'.failed.slot i).committed =
    if i = w.failed.seq + 1 then endFailed w.now r e else (w.failed.slot i).committed

/-- `_run_job` returns, and exactly the completion that is due has taken effect. -/
def EndsOnce (w : World κ) : Prop :=
  ∃ claim r e w', w.claims[n]? = some claim ∧ (w.jobs.slot claim.job.id).committed = some r ∧
    (Guard.owned claim.job.reservedBy claim.job.attempts).holds r = true ∧
    runOn decodes c n steps run w = (true, w') ∧ w'.answers = w.answers ++ [(c, .done)] ∧
    run.Due steps claim.job.attempts claim.job.maxAttempts e ∧ Took claim.job.id r e w w'

/-- The row is the claim's, and nobody else is at it. -/
def Held (claim : Claim) (r : JobRow) (w : World κ) : Prop :=
  w.jobs.slot claim.job.id = ⟨some r, none⟩ ∧ (Guard.owned claim.job.reservedBy claim.job.attempts).holds r = true

/-- What Postgres takes. -/
def fits (claim : Claim) (now : Int) : Bool :=
  run.fits (fun error => (sent error).isSome) (fun delay => decide (now + delay * second ≤ maxMoment)) steps
    claim.job.attempts claim.job.maxAttempts

variable {decodes c n steps run} {w : World κ} {claim : Claim} {r : JobRow}

/-- The worker's connection: between two calls, in no transaction, with no row of its own. -/
structure Ready (c : κ) (w : World κ) : Prop where
  pc : (w.client c).pc = .idle
  conn : (w.client c).conn = .autocommit
  jobs : w.jobs.HoldsNone c
  failed : w.failed.HoldsNone c

theorem call_of_ready (hready : Ready c w) (op : Op) : w.call c op = w.goto c (World.entry w.now op) := by
  rw [World.call, hready.pc]
  simp [hready.conn]

theorem pc_goto (pc : Pc) : ((w.goto c pc).client c).pc = pc := by
  simp [World.goto]

/-- A row someone else has makes a completion wait. -/
theorem blocked_of_taken (hready : Ready c w) (hclaim : w.claims[n]? = some claim)
    (hr : (w.jobs.slot claim.job.id).committed = some r)
    (howned : (Guard.owned claim.job.reservedBy claim.job.attempts).holds r = true)
    (hheld : (w.jobs.slot claim.job.id).held ≠ none) : w.jobs.blocked c (w.ownedBy n) = true := by
  obtain ⟨⟨d, v⟩, hd⟩ := Option.ne_none_iff_exists'.mp hheld
  have hne : d ≠ c := fun heq => hready.jobs _ v (heq ▸ hd)
  exact Table.blocked_iff.mpr ⟨claim.job.id, r, (hready.jobs.view _).trans hr, ownedBy_iff.mpr ⟨claim, hclaim, rfl, howned⟩,
    Slot.taken_iff.mpr ⟨d, v, hd, hne⟩⟩

/-! The statements of a completion, one call at a time. -/

theorem run_delete (hready : Ready c w) : (machine decodes).run w [.call c (.delete n), .step c] =
    (w.goto c (.delete n)).delete c n := by
  show World.exec decodes c (w.call c (.delete n)) = _
  rw [call_of_ready hready, World.exec, show World.entry w.now (.delete n) = .delete n from rfl, pc_goto]

theorem run_release (hready : Ready c w) {delay : Int} (hdelay : 0 ≤ delay) (text : String) :
    (machine decodes).run w [.call c (.release n delay text), .step c] =
      (w.goto c (.release n (w.now + delay * second) (fitError text))).release c n (w.now + delay * second) (fitError text) := by
  have hentry : World.entry w.now (.release n delay text) = .release n (w.now + delay * second) (fitError text) := by
    rw [World.entry, Int.max_eq_right hdelay]
  show World.exec decodes c (w.call c (.release n delay text)) = _
  rw [call_of_ready hready, World.exec, hentry, pc_goto]

theorem run_fail (hready : Ready c w) (text : String) : (machine decodes).run w [.call c (.fail n text), .step c] =
    (w.goto c (.moveDelete (.failed n text))).moveDelete c (.failed n text) := by
  show World.exec decodes c (w.call c (.fail n text)) = _
  rw [call_of_ready hready, World.exec,
    show World.entry w.now (.fail n text) = .moveDelete (.failed n text) from rfl, pc_goto]

/-! A completion that has to wait. -/

theorem delete_blocked (h : w.jobs.blocked c (w.ownedBy n) = true) : w.delete c n = w := by
  unfold World.delete
  exact if_pos h

theorem release_blocked (availableAt : Int) (error : String) (h : w.jobs.blocked c (w.ownedBy n) = true) :
    w.release c n availableAt error = w := by
  unfold World.release
  exact if_pos h

theorem moveDelete_blocked (text : String) (h : w.jobs.blocked c (w.ownedBy n) = true) :
    w.moveDelete c (.failed n text) = w := by
  unfold World.moveDelete
  exact if_pos h

/-! A completion that finds its row, and does not have to wait. -/

theorem delete_eq (hblocked : w.jobs.blocked c (w.ownedBy n) = false) (hrows : w.jobs.rows c (w.ownedBy n) ≠ []) :
    w.delete c n =
      ({w with jobs := w.jobs.modify c (w.ownedBy n) fun _ => none, ended := w.ended ++ [n]}.commitAll c).answer c .done := by
  unfold World.delete
  dsimp only
  rw [if_neg (Bool.eq_false_iff.mp hblocked), if_neg hrows]

theorem release_eq (availableAt : Int) (error : String) (hblocked : w.jobs.blocked c (w.ownedBy n) = false)
    (hrows : w.jobs.rows c (w.ownedBy n) ≠ []) : w.release c n availableAt error =
      ({w with
        jobs := w.jobs.modify c (w.ownedBy n) fun r => some (releaseRow availableAt error r)
        released := w.released ++ [n], ended := w.ended ++ [n]}.commitAll c).answer c .done := by
  unfold World.release
  dsimp only
  rw [if_neg (Bool.eq_false_iff.mp hblocked), if_neg hrows]

theorem moveDelete_eq (text : String) {i : Nat} {rest : List (Nat × JobRow)}
    (hblocked : w.jobs.blocked c (w.ownedBy n) = false) (hrows : w.jobs.rows c (w.ownedBy n) = (i, r) :: rest) :
    w.moveDelete c (.failed n text) =
      {w with jobs := w.jobs.modify c (w.ownedBy n) fun _ => none}.goto c (.moveClock (.failed n text) r) := by
  have hwhere : w.moveWhere (.failed n text) = w.ownedBy n := rfl
  unfold World.moveDelete
  dsimp only
  rw [hwhere, if_neg (Bool.eq_false_iff.mp hblocked), hrows]

/-- The rest of `_move_to_failed`: the clock, the `INSERT` and the commit. -/
theorem exec_moved (text : String) : World.exec decodes c (World.exec decodes c (World.exec decodes c
    (w.goto c (.moveClock (.failed n text) r)))) =
      (({(w.goto c (.moveClock (.failed n text) r)).goto c (.moveInsert (.failed n text) r w.now) with
        failed := (w.failed.insert c (failedRow (fitError text) w.now r)).2}.goto c
          (.moveCommit (.failed n text) (some r))).moveCommit c (.failed n text) (some r)) := by
  have hclock : World.exec decodes c (w.goto c (.moveClock (.failed n text) r)) =
      (w.goto c (.moveClock (.failed n text) r)).goto c (.moveInsert (.failed n text) r w.now) := by
    rw [World.exec, pc_goto]
    rfl
  have hinsert : ∀ w : World κ, World.exec decodes c (w.goto c (.moveInsert (.failed n text) r w.now)) =
      {w.goto c (.moveInsert (.failed n text) r w.now) with
        failed := (w.failed.insert c (failedRow (fitError text) w.now r)).2}.goto c (.moveCommit (.failed n text) (some r)) := by
    intro w
    rw [World.exec, pc_goto]
    rfl
  have hcommit : ∀ w : World κ, World.exec decodes c (w.goto c (.moveCommit (.failed n text) (some r))) =
      (w.goto c (.moveCommit (.failed n text) (some r))).moveCommit c (.failed n text) (some r) := by
    intro w
    rw [World.exec, pc_goto]
  rw [hclock]
  exact (congrArg (World.exec decodes c) (hinsert (w.goto c _))).trans (hcommit _)

theorem committed_insert {t : Table κ FailedRow} (hnone : t.HoldsNone c) (row : FailedRow) (i : Nat) :
    (((t.insert c row).2.commit c).slot i).committed = if i = t.seq + 1 then some row else (t.slot i).committed := by
  show (Slot.commit c (Function.update t.slot (t.seq + 1) _ i)).committed = _
  split
  · rename_i hi
    rw [hi, Function.update_self]
    simp [Slot.commit, Slot.write]
  · rename_i hi
    rw [Function.update_of_ne hi, Table.slot_commit_of_not_held (hnone i)]

section Held
variable (hready : Ready c w) (hclaim : w.claims[n]? = some claim) (hheld : Held claim r w)
include hready hclaim hheld

theorem ownedBy_held (j : Nat) (r' : JobRow) (hview : (w.jobs.slot j).view c = some r') :
    w.ownedBy n j r' = true ↔ j = claim.job.id := by
  rw [ownedBy_iff]
  constructor
  · intro ⟨claim', hclaim', hj, _⟩
    rw [hclaim] at hclaim'
    cases hclaim'
    exact hj
  · intro hj
    subst hj
    rw [hready.jobs.view, hheld.1] at hview
    cases hview
    exact ⟨claim, hclaim, rfl, hheld.2⟩

theorem not_blocked_held : w.jobs.blocked c (w.ownedBy n) = false := by
  rw [← Bool.not_eq_true, Table.blocked_iff]
  intro ⟨i, r', hview, hp, htaken⟩
  rw [(ownedBy_held hready hclaim hheld i r' hview).mp hp, hheld.1] at htaken
  cases htaken

theorem mem_rows_held : (claim.job.id, r) ∈ w.jobs.rows c (w.ownedBy n) := by
  have hview : (w.jobs.slot claim.job.id).view c = some r := by
    rw [hready.jobs.view, hheld.1]
  exact Table.mem_rows.mpr ⟨hview, (ownedBy_held hready hclaim hheld _ _ hview).mpr rfl⟩

theorem holds_modified (f : JobRow → Option JobRow) :
    (w.jobs.modify c (w.ownedBy n) f).Holds c claim.job.id r (f r) :=
  hready.jobs.modify (by rw [hheld.1]) (ownedBy_held hready hclaim hheld)

theorem took_of_modified {f : JobRow → Option JobRow} {e : JobEnd} {w' : World κ}
    (hjobs : w'.jobs = (w.jobs.modify c (w.ownedBy n) f).commit c) (hrow : endRow w.now r e = f r)
    (hfailed : ∀ i, (w'.failed.slot i).committed =
      if i = w.failed.seq + 1 then endFailed w.now r e else (w.failed.slot i).committed) :
    Took claim.job.id r e w w' := by
  refine ⟨?_, hfailed⟩
  intro i
  rw [hjobs, (holds_modified hready hclaim hheld f).committed_commit, hrow]
  split
  · rfl
  · exact Table.sameCommitted_modify i

omit hclaim hheld in
/-- Nothing was failed. -/
theorem failed_unchanged {e : JobEnd} (he : endFailed w.now r e = none) (i : Nat) :
    ((w.failed.commit c).slot i).committed =
      if i = w.failed.seq + 1 then endFailed w.now r e else (w.failed.slot i).committed := by
  rw [hready.failed.commit, he]
  split
  · rename_i hi
    rw [hi, w.failed.fresh _ (Nat.lt_succ_self _)]
    rfl
  · rfl

theorem took_delete (decodes : String → Bool) : ((machine decodes).run w [.call c (.delete n), .step c]).answers = w.answers ++ [(c, .done)] ∧
    Took claim.job.id r .deleted w ((machine decodes).run w [.call c (.delete n), .step c]) := by
  have hblocked := not_blocked_held hready hclaim hheld
  have hrows := List.ne_nil_of_mem (mem_rows_held hready hclaim hheld)
  rw [run_delete hready, delete_eq (w := w.goto c _) hblocked hrows]
  refine ⟨rfl, took_of_modified hready hclaim hheld (f := fun _ => none) rfl rfl ?_⟩
  exact failed_unchanged hready rfl

theorem took_release (decodes : String → Bool) {delay : Int} (hdelay : 0 ≤ delay) (text : String) :
    ((machine decodes).run w [.call c (.release n delay text), .step c]).answers = w.answers ++ [(c, .done)] ∧
      Took claim.job.id r (.released delay (fitError text)) w
        ((machine decodes).run w [.call c (.release n delay text), .step c]) := by
  have hblocked := not_blocked_held hready hclaim hheld
  have hrows := List.ne_nil_of_mem (mem_rows_held hready hclaim hheld)
  rw [run_release hready hdelay, release_eq (w := w.goto c _) _ _ hblocked hrows]
  refine ⟨rfl, took_of_modified hready hclaim hheld
    (f := fun r => some (releaseRow (w.now + delay * second) (fitError text) r)) rfl rfl ?_⟩
  exact failed_unchanged hready rfl

/-- The `DELETE` of `fail` finds the row. -/
theorem moveDelete_held (text : String) : (machine decodes).run w [.call c (.fail n text), .step c] =
    {w.goto c (.moveDelete (.failed n text)) with jobs := w.jobs.modify c (w.ownedBy n) fun _ => none}.goto c
      (.moveClock (.failed n text) r) := by
  have hblocked := not_blocked_held hready hclaim hheld
  have hmem := mem_rows_held hready hclaim hheld
  obtain ⟨⟨i, r'⟩, rest, hrows⟩ := List.exists_cons_of_ne_nil (List.ne_nil_of_mem hmem)
  have hr' : r' = r := by
    have hmem' : (i, r') ∈ w.jobs.rows c (w.ownedBy n) := by rw [hrows]; exact List.mem_cons_self
    obtain ⟨hview, hp⟩ := Table.mem_rows.mp hmem'
    rw [(ownedBy_held hready hclaim hheld i r' hview).mp hp, hready.jobs.view, hheld.1] at hview
    exact (Option.some.inj hview).symm
  rw [hr'] at hrows
  rw [run_fail hready, moveDelete_eq (w := w.goto c _) text hblocked hrows]
  rfl

theorem took_fail (decodes : String → Bool) (text : String) :
    ((machine decodes).run w (.call c (.fail n text) :: List.replicate 4 (.step c))).answers = w.answers ++ [(c, .done)] ∧
      Took claim.job.id r (.failed (fitError text)) w
        ((machine decodes).run w (.call c (.fail n text) :: List.replicate 4 (.step c))) := by
  have hrun : (machine decodes).run w (.call c (.fail n text) :: List.replicate 4 (.step c)) =
      World.exec decodes c (World.exec decodes c (World.exec decodes c
        ((machine decodes).run w [.call c (.fail n text), .step c]))) := rfl
  rw [hrun, moveDelete_held hready hclaim hheld, exec_moved]
  refine ⟨rfl, took_of_modified hready hclaim hheld (f := fun _ => none) rfl rfl ?_⟩
  exact committed_insert hready.failed _

end Held

/-- A completion that waits has not answered. -/
theorem answers_of_blocked (decodes : String → Bool) (hready : Ready c w) (hblocked : w.jobs.blocked c (w.ownedBy n) = true) {call : Completion}
    (hcall : ∀ delay error, call = .release delay error → 0 ≤ delay) :
    (perform decodes c n w call).2.answers = w.answers := by
  cases call with
  | delete =>
    show ((machine decodes).run w [.call c (.delete n), .step c]).answers = w.answers
    rw [run_delete hready, delete_blocked (w := w.goto c _) hblocked]
    rfl
  | release delay error =>
    rw [perform]
    cases sent error with
    | none => rfl
    | some text =>
      dsimp only
      split
      · rw [run_release hready (hcall delay error rfl), release_blocked (w := w.goto c _) _ _ hblocked]
        rfl
      · rfl
  | fail error =>
    have hrun : ∀ text, (machine decodes).run w [.call c (.fail n text), .step c] = w.goto c (.moveDelete (.failed n text)) :=
      fun text => (run_fail hready text).trans (moveDelete_blocked (w := w.goto c _) text hblocked)
    have hwaits : ∀ text, World.exec decodes c (w.goto c (.moveDelete (.failed n text))) =
        w.goto c (.moveDelete (.failed n text)) := by
      intro text
      rw [World.exec, pc_goto]
      exact moveDelete_blocked (w := w.goto c _) text hblocked
    rw [perform]
    cases sent error with
    | some text =>
      show (World.exec decodes c (World.exec decodes c (World.exec decodes c
        ((machine decodes).run w [.call c (.fail n text), .step c])))).answers = w.answers
      rw [hrun, hwaits, hwaits, hwaits]
      rfl
    | none =>
      dsimp only
      rw [hrun, pc_goto]
      show (World.exec decodes c (w.goto c (.moveDelete (.failed n "")))).answers = w.answers
      rw [hwaits]
      rfl

/-- What returns has sent what it was given. -/
theorem fits_of_perform (hready : Ready c w) (hclaim : w.claims[n]? = some claim) (hheld : Held claim r w)
    {call : Completion} (hcall : ∀ delay error, call = .release delay error → 0 ≤ delay)
    (hreturns : (perform decodes c n w call).1 = true) :
    call.fits (fun error => (sent error).isSome) (fun delay => decide (w.now + delay * second ≤ maxMoment)) = true := by
  cases call with
  | delete => rfl
  | release delay error =>
    rw [perform] at hreturns
    cases hsent : sent error with
    | none =>
      rw [hsent] at hreturns
      cases hreturns
    | some text =>
      rw [hsent, Int.max_eq_right (hcall delay error rfl)] at hreturns
      dsimp only at hreturns
      split at hreturns
      · rename_i hmoment
        simp [Completion.fits, hsent, hmoment]
      · cases hreturns
  | fail error =>
    rw [perform] at hreturns
    cases hsent : sent error with
    | none =>
      rw [hsent] at hreturns
      dsimp only at hreturns
      rw [moveDelete_held hready hclaim hheld, pc_goto] at hreturns
      cases hreturns
    | some text => simp [Completion.fits, hsent]

theorem encode_of_sent {error : PyText} {text : String} (h : sent error = some text) : encode error = some text :=
  (Option.filter_eq_some_iff.mp h).1

/-- A completion of a claim that is held, with what can be sent, takes effect. -/
theorem took_perform (decodes : String → Bool) (hready : Ready c w) (hclaim : w.claims[n]? = some claim) (hheld : Held claim r w)
    {call : Completion} (hcall : ∀ delay error, call = .release delay error → 0 ≤ delay)
    (hfits : call.fits (fun error => (sent error).isSome) (fun delay => decide (w.now + delay * second ≤ maxMoment)) = true) :
    ∃ e w', perform decodes c n w call = (true, w') ∧ w'.answers = w.answers ++ [(c, .done)] ∧ call.leaves e ∧
      Took claim.job.id r e w w' := by
  cases call with
  | delete =>
    obtain ⟨hanswers, htook⟩ := took_delete hready hclaim hheld decodes
    exact ⟨.deleted, _, rfl, hanswers, rfl, htook⟩
  | release delay error =>
    have hdelay := hcall delay error rfl
    rw [Completion.fits, Bool.and_eq_true] at hfits
    obtain ⟨text, hsent⟩ := Option.isSome_iff_exists.mp hfits.2
    obtain ⟨hanswers, htook⟩ := took_release hready hclaim hheld decodes hdelay text
    refine ⟨.released delay (fitError text), _, ?_, hanswers, ⟨hdelay, text, encode_of_sent hsent, rfl⟩, htook⟩
    rw [perform, hsent, Int.max_eq_right hdelay]
    exact if_pos (of_decide_eq_true hfits.1)
  | fail error =>
    obtain ⟨text, hsent⟩ := Option.isSome_iff_exists.mp hfits
    obtain ⟨hanswers, htook⟩ := took_fail hready hclaim hheld decodes text
    refine ⟨.failed (fitError text), _, ?_, hanswers, ⟨text, encode_of_sent hsent, rfl⟩, htook⟩
    rw [perform, hsent]

theorem runOn_eq (hclaim : w.claims[n]? = some claim) {call : Completion}
    (hcall : runJob steps claim.job.attempts claim.job.maxAttempts run = some call) :
    runOn decodes c n steps run w = perform decodes c n w call := by
  rw [runOn, hclaim]
  dsimp only
  rw [hcall]

theorem endsOnce_iff (hready : Ready c w) : EndsOnce decodes c n steps run w ↔
    ∃ claim r, w.claims[n]? = some claim ∧ Held claim r w ∧ fits steps run claim w.now = true := by
  have hempty : (fun error : PyText => (sent error).isSome) [] = true := rfl
  constructor
  · intro ⟨claim, r, e, w', hclaim, hr, howned, hrun, hanswers, hdue, _⟩
    obtain ⟨call, hcall, -⟩ := (due_iff _ _ _ _ _).mp hdue
    have hdelay : ∀ delay error, call = .release delay error → 0 ≤ delay :=
      fun delay error heq => release_nonneg (heq ▸ hcall)
    rw [runOn_eq hclaim hcall] at hrun
    have hheld : Held claim r w := by
      refine ⟨?_, howned⟩
      by_cases hslot : (w.jobs.slot claim.job.id).held = none
      · rw [← hr, ← hslot]
      · have hwaits := answers_of_blocked decodes hready (blocked_of_taken hready hclaim hr howned hslot) hdelay
        rw [hrun, hanswers] at hwaits
        have hlength := congrArg List.length hwaits
        simp at hlength
    refine ⟨claim, r, hclaim, hheld, ?_⟩
    rw [fits, fits_iff hempty]
    exact ⟨call, hcall, fits_of_perform hready hclaim hheld hdelay (congrArg Prod.fst hrun)⟩
  · intro ⟨claim, r, hclaim, hheld, hfits⟩
    rw [fits, fits_iff hempty] at hfits
    obtain ⟨call, hcall, hfits⟩ := hfits
    have hdelay : ∀ delay error, call = .release delay error → 0 ≤ delay :=
      fun delay error heq => release_nonneg (heq ▸ hcall)
    obtain ⟨e, w', hrun, hanswers, hleaves, htook⟩ := took_perform decodes hready hclaim hheld hdelay hfits
    refine ⟨claim, r, e, w', hclaim, by rw [hheld.1], hheld.2, (runOn_eq hclaim hcall).trans hrun, hanswers, ?_, htook⟩
    exact (due_iff _ _ _ _ _).mpr ⟨call, hcall, hleaves⟩

/-- A client between two calls, in no transaction, has no row. -/
theorem ready_run (decodes : String → Bool) (inputs : List (Input κ)) (c : κ)
    (hpc : (((machine decodes).run (.start κ) inputs).client c).pc = .idle)
    (hconn : (((machine decodes).run (.start κ) inputs).client c).conn = .autocommit) :
    Ready c ((machine decodes).run (.start κ) inputs) := by
  refine ⟨hpc, hconn, ?_, ?_⟩
  · have hok := (consistent_run decodes inputs).client c
    unfold ClientOk at hok
    rw [hpc] at hok
    unfold PcOk Rests at hok
    rwa [hconn] at hok
  · have hok := failedOk_run decodes inputs c
    unfold FailedOk at hok
    rwa [hpc] at hok

end PgQueue

/-- **A job run ends in the one completion that is due, and the worker goes on, exactly when the
claim is still the job's and what the run leaves can be sent**: a text that has UTF-8, a
delay that is a time, and on Postgres no NUL in what is kept of the text. -/
theorem run_ends_once_iff (steps : BackoffSteps) (run : HandlerRun) :
    (∀ j moment k, RedisQueue.EndsOnce j moment steps run k ↔
      (RedisQueue.held j k).isSome = true ∧ RedisQueue.fits j moment steps run = true) ∧
    ∀ (κ : Type) [DecidableEq κ] (decodes : String → Bool) (inputs : List (PgQueue.Input κ)) (c : κ) n,
      (((PgQueue.machine decodes).run (.start κ) inputs).client c).pc = .idle →
      (((PgQueue.machine decodes).run (.start κ) inputs).client c).conn = .autocommit →
      (PgQueue.EndsOnce decodes c n steps run ((PgQueue.machine decodes).run (.start κ) inputs) ↔
        ∃ claim r, ((PgQueue.machine decodes).run (.start κ) inputs).claims[n]? = some claim ∧
          PgQueue.Held claim r ((PgQueue.machine decodes).run (.start κ) inputs) ∧
          PgQueue.fits steps run claim ((PgQueue.machine decodes).run (.start κ) inputs).now = true) := by
  refine ⟨fun _ _ _ => RedisQueue.endsOnce_iff, ?_⟩
  intro κ _ decodes inputs c n hpc hconn
  exact PgQueue.endsOnce_iff (PgQueue.ready_run decodes inputs c hpc hconn)

/-- A handler that raises, with this text. -/
def raising (text : String) : HandlerRun :=
  ⟨[], .raised ⟨pyText "ValueError", some (pyText text), pyText ("Traceback (most recent call last):\nValueError: " ++ text)⟩⟩

/-- One job, reserved by client 0. -/
def PgQueue.oneReserved : List (PgQueue.Input Nat) :=
  [.call 0 (.push {name := "a", payload := "\x7b\x7d"}), .step 0] ++ PgQueue.reserveSteps 0 300

/-- A text with a NUL stops the worker, and the row stays under its claim. -/
theorem nul_in_error_raises :
    ¬ PgQueue.EndsOnce (fun _ => true) 0 0 .unset (raising "a\x00b")
      ((PgQueue.machine fun _ => true).run (.start Nat) PgQueue.oneReserved) ∧
    ((((PgQueue.runOn (fun _ => true) 0 0 .unset (raising "a\x00b")
      ((PgQueue.machine fun _ => true).run (.start Nat) PgQueue.oneReserved)).2.jobs.slot 1).committed).bind
        PgQueue.JobRow.reservedBy) = some "w" := by
  have hraises : (PgQueue.runOn (fun _ => true) 0 0 .unset (raising "a\x00b")
      ((PgQueue.machine fun _ => true).run (.start Nat) PgQueue.oneReserved)).1 = false := by
    decide +kernel
  refine ⟨?_, by decide +kernel⟩
  intro ⟨claim, r, e, w', _, _, _, hrun, _⟩
  rw [hrun] at hraises
  cases hraises

/-- An ordinary error is put back with the first delay. -/
theorem error_put_back :
    PgQueue.EndsOnce (fun _ => true) 0 0 .unset (raising "no upstream")
      ((PgQueue.machine fun _ => true).run (.start Nat) PgQueue.oneReserved) := by
  refine ((run_ends_once_iff .unset (raising "no upstream")).2 Nat (fun _ => true) PgQueue.oneReserved 0 0 ?_ ?_).mpr
    ⟨⟨⟨1, "default", "a", "\x7b\x7d", 1, 3, (), "w"⟩, 0, 300⟩,
      ⟨"default", "a", "\x7b\x7d", 1, 3, 0, none, 0, some 300000000, some "w", "", 0⟩, ?_, ⟨?_, ?_⟩, ?_⟩
  · rfl
  · rfl
  · rfl
  · rfl
  · decide +kernel
  · decide +kernel

end PyAppRunner.Queue
