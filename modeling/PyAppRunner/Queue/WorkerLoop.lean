import Mathlib.Data.Rat.Defs
import Mathlib.Algebra.Order.Field.Rat
import PyAppRunner.Base.Run
import PyAppRunner.Queue.Worker

/-! The worker: its loop, and how it ends.

`run` reserves a job and runs it, over and over, until it is asked to stop, has run long
enough, finds nothing left, or cannot read the queue five times in a row. What happens
meanwhile is the loop's input: what a reserve call answers, how a handler ends, what the
clock says, and that somebody calls `stop`, which can be whenever the loop waits. The
`events` are the history of a run; nothing in the loop reads them. -/
namespace PyAppRunner.Queue.WorkerLoop
open Base
variable {ε : Type}

/-! ### The loop -/

/-- `MAX_CONSECUTIVE_FAILURES` -/
def maxConsecutiveFailures : Nat := 5

/-- How `reserve` ends. -/
inductive Reserved (ε : Type) where
  | job (j : Job ε)
  | empty
  | raised
deriving DecidableEq

/-- What the loop does, as far as it can be seen from outside. -/
inductive Event (ε : Type) where
  | stop
  /-- A reserve call begins. -/
  | reserve
  | answered (r : Reserved ε)
  /-- A job has been run, and the queue told so. -/
  | completed (j : Job ε) (call : Completion)
  | returned (code : Nat)
deriving DecidableEq

/-- What the loop waits for, or how it has ended. -/
inductive Pc (ε : Type) where
  | reserving
  | running (j : Job ε)
  | resting (remaining : ℚ)
  | returned (code : Nat)
  /-- `_run_job` raised before it got to the queue. -/
  | raised (j : Job ε)
deriving DecidableEq

/-- What `run` is called with, and the clock when it is. -/
structure Options where
  sleep : ℚ
  maxJobs : Int
  maxTime : Int
  stopWhenEmpty : Bool
  backoffSteps : BackoffSteps
  started : ℚ

/-- The loop with its variables, and what it has done so far. -/
structure Loop (ε : Type) where
  pc : Pc ε
  shouldQuit : Bool
  done : Nat
  failures : Nat
  events : List (Event ε)

/-- An event is written down. -/
def log (e : Event ε) (s : Loop ε) : Loop ε := {s with events := s.events ++ [e]}

/-- The loop returns. -/
def finish (code : Nat) (s : Loop ε) : Loop ε := log (.returned code) {s with pc := .returned code}

/-- The head of the loop. -/
def top (s : Loop ε) : Loop ε := if s.shouldQuit then finish 0 s else log .reserve {s with pc := .reserving}

/-- `_rest`, where its loop checks, and what follows it. -/
def rest (remaining : ℚ) (s : Loop ε) : Loop ε :=
  if 0 < remaining ∧ s.shouldQuit = false then {s with pc := .resting remaining} else top s

variable (opts : Options)

/-- `_limit_reached`, with the reading of the clock it makes. -/
def limitReached (done : Nat) (clock : ℚ) : Bool :=
  (0 < opts.maxJobs && opts.maxJobs ≤ done) || (0 < opts.maxTime && (opts.maxTime : ℚ) ≤ clock - opts.started)

/-- The reserve call has ended. -/
def afterReserve (r : Reserved ε) (clock : ℚ) (s : Loop ε) : Loop ε :=
  match r with
  | .raised =>
    let s := {s with failures := s.failures + 1}
    if maxConsecutiveFailures ≤ s.failures then finish 1 s else rest opts.sleep s
  | .empty =>
    let s := {s with failures := 0}
    if opts.stopWhenEmpty then finish 0 s
    else if limitReached opts s.done clock then finish 0 s
    else rest opts.sleep s
  | .job j => {s with failures := 0, pc := .running j}

/-- The handler has ended, and the call of the queue that is due succeeds. -/
def afterHandler (j : Job ε) (run : HandlerRun) (clock : ℚ) (s : Loop ε) : Loop ε :=
  match runJob opts.backoffSteps j.attempts j.maxAttempts run with
  | none => {s with pc := .raised j}
  | some call =>
    let s := log (.completed j call) {s with done := s.done + 1}
    if limitReached opts s.done clock then finish 0 s else top s

/-- What the loop meets at its awaits. -/
inductive Input (ε : Type) where
  /-- `stop` is called. -/
  | stop
  | reserved (r : Reserved ε) (clock : ℚ)
  | handled (run : HandlerRun) (clock : ℚ)
  /-- A slice of `_rest` has passed. -/
  | slept

/-- The coroutine up to its next await. -/
def step (i : Input ε) (s : Loop ε) : Loop ε :=
  match i, s.pc with
  | .stop, _ => log .stop {s with shouldQuit := true}
  | .reserved r clock, .reserving => afterReserve opts r clock (log (.answered r) s)
  | .handled run clock, .running j => afterHandler opts j run clock s
  | .slept, .resting remaining => rest (remaining - min (1 / 4) remaining) s
  | _, _ => s

/-- The loop, whatever it meets. -/
def machine : Machine (Loop ε) (Input ε) := ⟨step opts⟩

/-- `run` is called; `stop` may have been before. -/
def begun (shouldQuit : Bool) : Loop ε := top ⟨.reserving, shouldQuit, 0, 0, []⟩

/-! ### What a step does -/

/-- Going on: the loop ends, reserves again, or rests. -/
inductive Next (shouldQuit : Bool) : Pc ε → List (Event ε) → Prop
  | ends : Next shouldQuit (.returned 0) [.returned 0]
  | reserves (h : shouldQuit = false) : Next shouldQuit .reserving [.reserve]
  | rests (remaining : ℚ) (h : shouldQuit = false) : Next shouldQuit (.resting remaining) []

/-- What one input can make of the loop. -/
inductive Stepped (s : Loop ε) : Loop ε → Prop
  | same : Stepped s s
  | stop : Stepped s ⟨s.pc, true, s.done, s.failures, s.events ++ [.stop]⟩
  | fifth (hpc : s.pc = .reserving) (hfailures : 4 ≤ s.failures) :
    Stepped s ⟨.returned 1, s.shouldQuit, s.done, s.failures + 1, s.events ++ [.answered .raised, .returned 1]⟩
  | failed {pc : Pc ε} {es : List (Event ε)} (hpc : s.pc = .reserving) (hfailures : s.failures < 4)
    (hnext : Next s.shouldQuit pc es) :
    Stepped s ⟨pc, s.shouldQuit, s.done, s.failures + 1, s.events ++ .answered .raised :: es⟩
  | empty {pc : Pc ε} {es : List (Event ε)} (hpc : s.pc = .reserving) (hnext : Next s.shouldQuit pc es)
    (hempty : opts.stopWhenEmpty = true → pc = .returned 0) :
    Stepped s ⟨pc, s.shouldQuit, s.done, 0, s.events ++ .answered .empty :: es⟩
  | job (j : Job ε) (hpc : s.pc = .reserving) :
    Stepped s ⟨.running j, s.shouldQuit, s.done, 0, s.events ++ [.answered (.job j)]⟩
  | completed {pc : Pc ε} {es : List (Event ε)} (j : Job ε) (call : Completion) (hpc : s.pc = .running j)
    (hnext : Next s.shouldQuit pc es)
    (hlimit : 0 < opts.maxJobs → pc ≠ .returned 0 → ((s.done + 1 : Nat) : Int) < opts.maxJobs) :
    Stepped s ⟨pc, s.shouldQuit, s.done + 1, s.failures, s.events ++ .completed j call :: es⟩
  | raised (j : Job ε) (hpc : s.pc = .running j) : Stepped s ⟨.raised j, s.shouldQuit, s.done, s.failures, s.events⟩
  | slept {pc : Pc ε} {es : List (Event ε)} (remaining : ℚ) (hpc : s.pc = .resting remaining)
    (hnext : Next s.shouldQuit pc es) : Stepped s ⟨pc, s.shouldQuit, s.done, s.failures, s.events ++ es⟩

theorem finish_eq (code : Nat) (s : Loop ε) :
    finish code s = ⟨.returned code, s.shouldQuit, s.done, s.failures, s.events ++ [.returned code]⟩ := rfl

/-- The head of the loop: it ends if it was told to stop, and reserves if not. -/
theorem next_top (s : Loop ε) : ∃ pc es, Next s.shouldQuit pc es ∧
    top s = ⟨pc, s.shouldQuit, s.done, s.failures, s.events ++ es⟩ := by
  rw [top]
  split
  · exact ⟨_, _, .ends, rfl⟩
  · next hquit => exact ⟨_, _, .reserves (by simpa using hquit), rfl⟩

theorem next_rest (remaining : ℚ) (s : Loop ε) : ∃ pc es, Next s.shouldQuit pc es ∧
    rest remaining s = ⟨pc, s.shouldQuit, s.done, s.failures, s.events ++ es⟩ := by
  rw [rest]
  split
  · next h => exact ⟨_, _, .rests remaining h.2, by rw [List.append_nil]⟩
  · exact next_top s

/-- Where no limit has been reached, more jobs may be run. -/
theorem lt_maxJobs {done : Nat} {clock : ℚ} (h : limitReached opts done clock = false) (hmax : 0 < opts.maxJobs) :
    (done : Int) < opts.maxJobs := by
  rw [limitReached, Bool.or_eq_false_iff] at h
  simpa [hmax] using h.1

/-- After a reservation. -/
theorem stepped_afterReserve {s : Loop ε} (hpc : s.pc = .reserving) (r : Reserved ε) (clock : ℚ) :
    Stepped opts s (afterReserve opts r clock (log (.answered r) s)) := by
  cases r with
  | job j => exact .job j hpc
  | raised =>
    unfold afterReserve
    dsimp only
    split
    · next hmax =>
      rw [finish_eq]
      simp only [log, List.append_assoc, List.singleton_append]
      exact .fifth hpc (Nat.le_of_succ_le_succ hmax)
    · next hmax =>
      obtain ⟨pc, es, hnext, hrest⟩ := next_rest opts.sleep {log (.answered .raised) s with failures := s.failures + 1}
      have hless : s.failures < 4 := by
        simp only [log, maxConsecutiveFailures] at hmax
        omega
      rw [show (log (.answered .raised) s).failures = s.failures from rfl, hrest]
      simp only [log, List.append_assoc, List.singleton_append]
      exact .failed hpc hless hnext
  | empty =>
    obtain ⟨pc, es, hnext, hrest⟩ := next_rest opts.sleep {log (.answered .empty) s with failures := 0}
    have hends : Stepped opts s (finish 0 {log (.answered .empty) s with failures := 0}) := by
      rw [finish_eq]
      simp only [log, List.append_assoc, List.singleton_append]
      exact .empty hpc .ends fun _ => rfl
    unfold afterReserve
    dsimp only
    split
    · exact hends
    · next hempty =>
      split
      · exact hends
      · rw [hrest]
        simp only [log, List.append_assoc, List.singleton_append]
        exact .empty hpc hnext fun h => absurd h hempty

/-- After a job. -/
theorem stepped_afterHandler {s : Loop ε} {j : Job ε} (hpc : s.pc = .running j) (run : HandlerRun) (clock : ℚ) :
    Stepped opts s (afterHandler opts j run clock s) := by
  unfold afterHandler
  split
  · exact .raised j hpc
  · next call hcall =>
    obtain ⟨pc, es, hnext, htop⟩ := next_top (log (.completed j call) {s with done := s.done + 1})
    dsimp only
    split
    · rw [finish_eq]
      simp only [log, List.append_assoc, List.singleton_append]
      exact .completed j call hpc .ends fun _ h => absurd rfl h
    · next hlimit =>
      rw [htop]
      simp only [log, List.append_assoc, List.singleton_append]
      exact .completed j call hpc hnext fun hmax _ => lt_maxJobs opts (eq_false_of_ne_true hlimit) hmax

/-- Every input does one of these things. -/
theorem stepped (i : Input ε) (s : Loop ε) : Stepped opts s (step opts i s) := by
  unfold step
  split
  · exact .stop
  · next hpc => exact stepped_afterReserve opts hpc _ _
  · next hpc => exact stepped_afterHandler opts hpc _ _
  · next remaining hpc =>
    obtain ⟨pc, es, hnext, hrest⟩ := next_rest (remaining - min (1 / 4) remaining) s
    rw [hrest]
    exact .slept remaining hpc hnext
  · exact .same

/-! ### Histories -/

def Event.answer : Event ε → Option (Reserved ε)
  | .answered r => some r
  | _ => none

/-- The job that was handed out. -/
def Event.given : Event ε → Option (Job ε)
  | .answered (.job j) => some j
  | _ => none

/-- The job that was ended. -/
def Event.finished : Event ε → Option (Job ε)
  | .completed j _ => some j
  | _ => none

/-- What the reserve calls answered. -/
def answers (events : List (Event ε)) : List (Reserved ε) := events.filterMap Event.answer

/-- The jobs they returned, and the ones that were run to their completion. -/
def given (events : List (Event ε)) : List (Job ε) := events.filterMap Event.given

/-- The jobs that were completed, in order. -/
def finished (events : List (Event ε)) : List (Job ε) := events.filterMap Event.finished

/-- A reserve call that raised after four others had, with none between them that did not;
`stop` had not been called when it began. -/
def FifthRaised (events : List (Event ε)) : Prop :=
  ∃ before after, events = before ++ .reserve :: after ∧ .stop ∉ before ∧
    (∃ earlier, answers before = earlier ++ List.replicate 4 .raised) ∧ (answers after).head? = some .raised

/-- The job in hand. -/
def Pc.inHand : Pc ε → List (Job ε)
  | .running j => [j]
  | .raised j => [j]
  | _ => []

theorem Next.answers {quit : Bool} {pc : Pc ε} {es : List (Event ε)} (h : Next quit pc es) :
    WorkerLoop.answers es = [] ∧ given es = [] ∧ finished es = [] ∧ pc.inHand = [] ∧ .stop ∉ es ∧
      (∀ r, .answered r ∉ es) ∧ pc ≠ .returned 1 := by
  cases h with
  | ends => simp [WorkerLoop.answers, given, finished, Event.answer, Event.given, Event.finished, Pc.inHand]
  | reserves h => simp [WorkerLoop.answers, given, finished, Event.answer, Event.given, Event.finished, Pc.inHand]
  | rests r h => simp [WorkerLoop.answers, given, finished, Event.answer, Event.given, Event.finished, Pc.inHand]

theorem answers_append (a b : List (Event ε)) : answers (a ++ b) = answers a ++ answers b := List.filterMap_append

theorem given_append (a b : List (Event ε)) : given (a ++ b) = given a ++ given b := List.filterMap_append

theorem finished_append (a b : List (Event ε)) : finished (a ++ b) = finished a ++ finished b := List.filterMap_append

/-- What has happened stays. -/
theorem FifthRaised.append {events : List (Event ε)} (h : FifthRaised events) (es : List (Event ε)) :
    FifthRaised (events ++ es) := by
  obtain ⟨before, after, rfl, hstop, hfour, hraised⟩ := h
  refine ⟨before, after ++ es, by simp, hstop, hfour, ?_⟩
  rw [answers_append, List.head?_append, hraised]
  rfl

/-- What holds of a loop and its history; `quit` says whether `stop` had been called before. -/
structure Sound (quit : Bool) (s : Loop ε) : Prop where
  stopped : s.shouldQuit = true ↔ quit = true ∨ .stop ∈ s.events
  begins : .reserve ∈ s.events → quit = false
  /-- No reserve call begins after `stop`. -/
  order : s.events.Pairwise fun e e' => e = .stop → e' ≠ .reserve
  /-- The call that is waited for began, and has not answered. -/
  inFlight : s.pc = .reserving → ∃ before after, s.events = before ++ .reserve :: after ∧ answers after = []
  /-- `failures` counts the calls that raised since one that did not. -/
  failures : ∃ earlier, answers s.events = earlier ++ List.replicate s.failures .raised ∧ earlier.getLast? ≠ some .raised
  fifth : s.pc = .returned 1 → FifthRaised s.events
  readable : s.pc ≠ .returned 1 → s.failures < 5 ∧ ¬ (List.replicate 5 Reserved.raised).IsInfix (answers s.events)
  jobs : given s.events = finished s.events ++ s.pc.inHand
  done : s.done = (finished s.events).length
  limit : 0 < opts.maxJobs → ((given s.events).length : Int) ≤ opts.maxJobs ∧
    (s.pc = .reserving ∨ (∃ r, s.pc = .resting r) → (s.done : Int) < opts.maxJobs)
  /-- Nothing but the end follows an empty answer. -/
  empty : opts.stopWhenEmpty = true → (.answered .empty ∈ s.events → s.pc = .returned 0) ∧
    s.events.Pairwise fun e e' => e = .answered .empty → e' = .returned 0 ∨ e' = .stop
  code : ∀ code, s.pc = .returned code → code = 0 ∨ code = 1

variable {opts} {quit : Bool} {s s' : Loop ε}

theorem Sound.stopped_step (h : Sound opts quit s) (hs : Stepped opts s s') :
    s'.shouldQuit = true ↔ quit = true ∨ .stop ∈ s'.events := by
  have hstopped := h.stopped
  cases hs with
  | same => exact hstopped
  | stop => simp
  | fifth hpc hfailures => simpa using hstopped
  | failed hpc hfailures hnext =>
    have hes := hnext.answers
    simpa [hes] using hstopped
  | empty hpc hnext hempty =>
    have hes := hnext.answers
    simpa [hes] using hstopped
  | job j hpc => simpa using hstopped
  | completed j call hpc hnext hlimit =>
    have hes := hnext.answers
    simpa [hes] using hstopped
  | raised j hpc => exact hstopped
  | slept remaining hpc hnext =>
    have hes := hnext.answers
    simpa [hes] using hstopped

theorem Next.begins {shouldQuit : Bool} {pc : Pc ε} {es : List (Event ε)} (h : Next shouldQuit pc es) :
    (.reserve ∈ es → shouldQuit = false) ∧ (pc = .reserving → es = [.reserve]) ∧ es.length ≤ 1 := by
  cases h with
  | ends => simp
  | reserves h => simp [h]
  | rests r h => simp

/-- What a step adds to the history: a reserve call only where nobody has called `stop`. -/
theorem Stepped.added (hs : Stepped opts s s') : ∃ es, s'.events = s.events ++ es ∧
    (.reserve ∈ es → s.shouldQuit = false) ∧ (.stop ∈ es → es = [.stop]) := by
  cases hs with
  | same => exact ⟨[], by simp⟩
  | stop => exact ⟨[.stop], rfl, by simp, fun _ => rfl⟩
  | fifth hpc hfailures => exact ⟨_, rfl, by simp⟩
  | failed hpc hfailures hnext => exact ⟨_, rfl, by simpa using hnext.begins.1, by simp [hnext.answers]⟩
  | empty hpc hnext hempty => exact ⟨_, rfl, by simpa using hnext.begins.1, by simp [hnext.answers]⟩
  | job j hpc => exact ⟨_, rfl, by simp⟩
  | completed j call hpc hnext hlimit => exact ⟨_, rfl, by simpa using hnext.begins.1, by simp [hnext.answers]⟩
  | raised j hpc => exact ⟨[], by simp⟩
  | slept remaining hpc hnext => exact ⟨_, rfl, hnext.begins.1, by simp [hnext.answers]⟩

theorem Sound.not_stopped (h : Sound opts quit s) (hquit : s.shouldQuit = false) : quit = false ∧ .stop ∉ s.events := by
  have hnot : ¬ (quit = true ∨ .stop ∈ s.events) := fun hor => by
    rw [h.stopped.mpr hor] at hquit
    cases hquit
  exact ⟨eq_false_of_ne_true fun hq => hnot (.inl hq), fun hstop => hnot (.inr hstop)⟩

/-- A worker that was stopped before it began reserves nothing. -/
theorem Sound.begins_step (h : Sound opts quit s) (hs : Stepped opts s s') : .reserve ∈ s'.events → quit = false := by
  obtain ⟨es, hes, hreserve, -⟩ := hs.added
  rw [hes, List.mem_append]
  intro hmem
  obtain hold | hnew := hmem
  · exact h.begins hold
  · exact (h.not_stopped (hreserve hnew)).1

/-- Nothing is reserved after the stop. -/
theorem Sound.order_step (h : Sound opts quit s) (hs : Stepped opts s s') :
    s'.events.Pairwise fun e e' => e = .stop → e' ≠ .reserve := by
  obtain ⟨es, hes, hreserve, hstop⟩ := hs.added
  rw [hes, List.pairwise_append]
  refine ⟨h.order, ?_, ?_⟩
  · by_cases hmem : .stop ∈ es
    · rw [hstop hmem]
      exact List.pairwise_singleton _ _
    · exact List.Pairwise.imp_of_mem (fun he _ _ heq => absurd (heq ▸ he) hmem)
        (List.pairwise_of_forall (fun _ _ => trivial))
  · intro e he e' he' hestop hereserve
    exact (h.not_stopped (hreserve (hereserve ▸ he'))).2 (hestop ▸ he)

/-- At most one reservation is under way. -/
theorem Sound.inFlight_step (h : Sound opts quit s) (hs : Stepped opts s s') :
    s'.pc = .reserving → ∃ before after, s'.events = before ++ .reserve :: after ∧ answers after = [] := by
  intro hpc'
  cases hs with
  | same => exact h.inFlight hpc'
  | stop =>
    obtain ⟨before, after, hevents, hanswers⟩ := h.inFlight hpc'
    refine ⟨before, after ++ [.stop], by simp [hevents], ?_⟩
    rw [answers_append, hanswers]
    rfl
  | fifth hpc hfailures => cases hpc'
  | failed hpc hfailures hnext =>
    rw [hnext.begins.2.1 hpc']
    exact ⟨s.events ++ [.answered .raised], [], by simp, rfl⟩
  | empty hpc hnext hempty =>
    rw [hnext.begins.2.1 hpc']
    exact ⟨s.events ++ [.answered .empty], [], by simp, rfl⟩
  | job j hpc => cases hpc'
  | completed j call hpc hnext hlimit =>
    rw [hnext.begins.2.1 hpc']
    exact ⟨s.events ++ [.completed j call], [], by simp, rfl⟩
  | raised j hpc => cases hpc'
  | slept remaining hpc hnext =>
    rw [hnext.begins.2.1 hpc']
    exact ⟨s.events, [], by simp, rfl⟩

/-- What a step adds to the answers. -/
theorem Stepped.answered (hs : Stepped opts s s') :
    (s'.failures = s.failures ∧ answers s'.events = answers s.events) ∨
    (s'.failures = s.failures + 1 ∧ answers s'.events = answers s.events ++ [.raised] ∧
      (s'.pc = .returned 1 ∨ s.failures < 4)) ∨
    (s'.failures = 0 ∧ ∃ r, r ≠ .raised ∧ answers s'.events = answers s.events ++ [r]) := by
  cases hs with
  | same => exact .inl ⟨rfl, rfl⟩
  | stop => exact .inl ⟨rfl, by simp [answers, Event.answer]⟩
  | fifth hpc hfailures => exact .inr (.inl ⟨rfl, by simp [answers, Event.answer], .inl rfl⟩)
  | failed hpc hfailures hnext =>
    refine .inr (.inl ⟨rfl, ?_, .inr hfailures⟩)
    rw [answers_append]
    exact congrArg (answers s.events ++ .raised :: ·) hnext.answers.1
  | empty hpc hnext hempty =>
    refine .inr (.inr ⟨rfl, .empty, by simp, ?_⟩)
    rw [answers_append]
    exact congrArg (answers s.events ++ .empty :: ·) hnext.answers.1
  | job j hpc => exact .inr (.inr ⟨rfl, .job j, by simp, by simp [answers, Event.answer]⟩)
  | completed j call hpc hnext hlimit =>
    refine .inl ⟨rfl, ?_⟩
    rw [answers_append]
    exact (congrArg (answers s.events ++ ·) hnext.answers.1).trans (List.append_nil _)
  | raised j hpc => exact .inl ⟨rfl, rfl⟩
  | slept remaining hpc hnext =>
    refine .inl ⟨rfl, ?_⟩
    rw [answers_append, hnext.answers.1, List.append_nil]

theorem Sound.failures_step (h : Sound opts quit s) (hs : Stepped opts s s') :
    ∃ earlier, answers s'.events = earlier ++ List.replicate s'.failures .raised ∧ earlier.getLast? ≠ some .raised := by
  obtain ⟨earlier, hearlier, hlast⟩ := h.failures
  obtain ⟨hfailures, hanswers⟩ | ⟨hfailures, hanswers, -⟩ | ⟨hfailures, r, hr, hanswers⟩ := hs.answered
  · exact ⟨earlier, by rw [hanswers, hfailures, hearlier], hlast⟩
  · refine ⟨earlier, ?_, hlast⟩
    rw [hanswers, hfailures, hearlier, List.append_assoc, List.replicate_succ']
  · refine ⟨answers s.events ++ [r], by rw [hanswers, hfailures, List.replicate_zero, List.append_nil], ?_⟩
    simpa using hr

/-- **An exit with 1 comes after five failures in a row**, and at once. -/
theorem Sound.fifth_step (h : Sound opts quit s) (hs : Stepped opts s s') :
    s'.pc = .returned 1 → FifthRaised s'.events := by
  intro hpc'
  cases hs with
  | same => exact h.fifth hpc'
  | stop => exact (h.fifth hpc').append [.stop]
  | fifth hpc hfailures =>
    obtain ⟨before, after, hevents, hafter⟩ := h.inFlight hpc
    obtain ⟨earlier, hearlier, -⟩ := h.failures
    have horder := h.order
    rw [hevents, List.pairwise_append] at horder
    have hanswers : answers before = earlier ++ List.replicate s.failures .raised := by
      rw [← hearlier, hevents, answers_append]
      exact (List.append_nil _).symm.trans (congrArg (answers before ++ ·) hafter.symm)
    refine ⟨before, after ++ [.answered .raised, .returned 1], by simp [hevents], ?_, ?_, ?_⟩
    · exact fun hstop => horder.2.2 _ hstop _ List.mem_cons_self rfl rfl
    · refine ⟨earlier ++ List.replicate (s.failures - 4) .raised, ?_⟩
      rw [hanswers, List.append_assoc, List.replicate_append_replicate, Nat.sub_add_cancel hfailures]
    · rw [answers_append, hafter]
      rfl
  | failed hpc hfailures hnext => exact absurd hpc' hnext.answers.2.2.2.2.2.2
  | empty hpc hnext hempty => exact absurd hpc' hnext.answers.2.2.2.2.2.2
  | job j hpc => cases hpc'
  | completed j call hpc hnext hlimit => exact absurd hpc' hnext.answers.2.2.2.2.2.2
  | raised j hpc => cases hpc'
  | slept remaining hpc hnext => exact absurd hpc' hnext.answers.2.2.2.2.2.2

/-- Five in a row are among the first answers, or they are the last ones. -/
theorem infix_of_concat {α : Type} {l as : List α} {a : α} (h : l.IsInfix (as ++ [a])) :
    l.IsInfix as ∨ l.IsSuffix (as ++ [a]) := by
  obtain ⟨left, right, heq⟩ := h
  obtain hnil | ⟨right', b, hright⟩ := List.eq_nil_or_concat' right
  · rw [hnil, List.append_nil] at heq
    exact .inr ⟨left, heq⟩
  · rw [hright, ← List.append_assoc] at heq
    exact .inl ⟨left, right', (List.append_inj' heq rfl).1⟩

/-- As many at the end as are counted. -/
theorem le_of_suffix {α : Type} {earlier as : List α} {a : α} {n m : Nat} (heq : as = earlier ++ List.replicate m a)
    (hlast : earlier.getLast? ≠ some a) (h : (List.replicate n a).IsSuffix as) : n ≤ m := by
  by_contra hlt
  obtain ⟨left, hleft⟩ := h
  obtain ⟨k, rfl⟩ : ∃ k, n = k + 1 + m := ⟨n - 1 - m, by omega⟩
  rw [heq, ← List.replicate_append_replicate, ← List.append_assoc] at hleft
  have hearlier := (List.append_inj' hleft rfl).1
  apply hlast
  rw [← hearlier, List.replicate_succ', ← List.append_assoc, List.getLast?_concat]

theorem Sound.readable_step (h : Sound opts quit s) (hs : Stepped opts s s') :
    s'.pc ≠ .returned 1 → s'.failures < 5 ∧ ¬ (List.replicate 5 Reserved.raised).IsInfix (answers s'.events) := by
  intro hpc'
  have hpc : s.pc ≠ .returned 1 := by
    intro hpc
    cases hs with
    | same => exact hpc' hpc
    | stop => exact hpc' hpc
    | fifth hpc₁ hfailures => exact hpc' rfl
    | failed hpc₁ hfailures hnext => simp [hpc] at hpc₁
    | empty hpc₁ hnext hempty => simp [hpc] at hpc₁
    | job j hpc₁ => simp [hpc] at hpc₁
    | completed j call hpc₁ hnext hlimit => simp [hpc] at hpc₁
    | raised j hpc₁ => simp [hpc] at hpc₁
    | slept remaining hpc₁ hnext => simp [hpc] at hpc₁
  obtain ⟨hless, hnot⟩ := h.readable hpc
  obtain ⟨earlier, hearlier, hlast⟩ := h.failures
  obtain ⟨hfailures, hanswers⟩ | ⟨hfailures, hanswers, hfour⟩ | ⟨hfailures, r, hr, hanswers⟩ := hs.answered
  · rw [hfailures, hanswers]
    exact ⟨hless, hnot⟩
  · have hfour := hfour.resolve_left hpc'
    rw [hfailures, hanswers]
    refine ⟨by omega, fun hinside => ?_⟩
    obtain hold | hsuffix := infix_of_concat hinside
    · exact hnot hold
    · have hfive := le_of_suffix (m := s.failures + 1) (by rw [hearlier, List.replicate_succ', List.append_assoc])
        hlast hsuffix
      omega
  · rw [hfailures, hanswers]
    refine ⟨by omega, fun hinside => ?_⟩
    obtain hold | hsuffix := infix_of_concat hinside
    · exact hnot hold
    · have hfive := le_of_suffix (m := 0) (List.append_nil _).symm (by simpa using hr) hsuffix
      omega

/-- What a step does about jobs: nothing, or one is given, or the one in hand is completed. -/
theorem Stepped.counted (hs : Stepped opts s s') :
    (given s'.events = given s.events ∧ finished s'.events = finished s.events ∧ s'.done = s.done ∧
      s'.pc.inHand = s.pc.inHand) ∨
    (∃ j, s.pc = .reserving ∧ given s'.events = given s.events ++ [j] ∧ finished s'.events = finished s.events ∧
      s'.done = s.done ∧ s'.pc = .running j) ∨
    ∃ j, s.pc = .running j ∧ given s'.events = given s.events ∧ finished s'.events = finished s.events ++ [j] ∧
      s'.done = s.done + 1 ∧ s'.pc.inHand = [] := by
  have hkeep : ∀ (e : Event ε) (es : List (Event ε)), e.given = none → e.finished = none → given es = [] →
      finished es = [] → given (s.events ++ e :: es) = given s.events ∧ finished (s.events ++ e :: es) = finished s.events := by
    intro e es hgiven hfinished hes hes'
    rw [given_append, finished_append, given, given, finished, finished, List.filterMap_cons_none hgiven,
      List.filterMap_cons_none hfinished]
    exact ⟨(congrArg (_ ++ ·) hes).trans (List.append_nil _), (congrArg (_ ++ ·) hes').trans (List.append_nil _)⟩
  cases hs with
  | same => exact .inl ⟨rfl, rfl, rfl, rfl⟩
  | stop =>
    obtain ⟨hgiven, hfinished⟩ := hkeep .stop [] rfl rfl rfl rfl
    exact .inl ⟨hgiven, hfinished, rfl, rfl⟩
  | fifth hpc hfailures =>
    obtain ⟨hgiven, hfinished⟩ := hkeep (.answered .raised) [.returned 1] rfl rfl rfl rfl
    exact .inl ⟨hgiven, hfinished, rfl, by rw [hpc]; rfl⟩
  | failed hpc hfailures hnext =>
    have hes := hnext.answers
    obtain ⟨hgiven, hfinished⟩ := hkeep (.answered .raised) _ rfl rfl hes.2.1 hes.2.2.1
    exact .inl ⟨hgiven, hfinished, rfl, by rw [hpc]; exact hes.2.2.2.1⟩
  | empty hpc hnext hempty =>
    have hes := hnext.answers
    obtain ⟨hgiven, hfinished⟩ := hkeep (.answered .empty) _ rfl rfl hes.2.1 hes.2.2.1
    exact .inl ⟨hgiven, hfinished, rfl, by rw [hpc]; exact hes.2.2.2.1⟩
  | job j hpc => exact .inr (.inl ⟨j, hpc, given_append _ _, (finished_append _ _).trans (List.append_nil _), rfl, rfl⟩)
  | completed j call hpc hnext hlimit =>
    have hes := hnext.answers
    refine .inr (.inr ⟨j, hpc, ?_, ?_, rfl, hes.2.2.2.1⟩)
    · rw [given_append]
      exact (congrArg (given s.events ++ ·) hes.2.1).trans (List.append_nil _)
    · rw [finished_append]
      exact congrArg (finished s.events ++ j :: ·) hes.2.2.1
  | raised j hpc => exact .inl ⟨rfl, rfl, rfl, by rw [hpc]; rfl⟩
  | slept remaining hpc hnext =>
    have hes := hnext.answers
    refine .inl ⟨?_, ?_, rfl, by rw [hpc]; exact hes.2.2.2.1⟩
    · rw [given_append, hes.2.1, List.append_nil]
    · rw [finished_append, hes.2.2.1, List.append_nil]

/-- **Every job that was handed out is completed, or in hand.** -/
theorem Sound.jobs_step (h : Sound opts quit s) (hs : Stepped opts s s') :
    given s'.events = finished s'.events ++ s'.pc.inHand ∧ s'.done = (finished s'.events).length := by
  have hjobs := h.jobs
  obtain ⟨hgiven, hfinished, hdone, hhand⟩ | ⟨j, hpc, hgiven, hfinished, hdone, hpc'⟩ |
    ⟨j, hpc, hgiven, hfinished, hdone, hhand⟩ := hs.counted
  · rw [hgiven, hfinished, hdone, hhand]
    exact ⟨hjobs, h.done⟩
  · rw [hpc] at hjobs
    rw [hgiven, hfinished, hdone, hpc', hjobs, h.done]
    exact ⟨by simp [Pc.inHand], rfl⟩
  · rw [hpc] at hjobs
    rw [hgiven, hfinished, hdone, hhand, hjobs, h.done, List.append_nil, List.length_append]
    exact ⟨rfl, rfl⟩

/-- No more jobs are given than may be run. -/
theorem Sound.limit_step (h : Sound opts quit s) (hs : Stepped opts s s') : 0 < opts.maxJobs →
    ((given s'.events).length : Int) ≤ opts.maxJobs ∧
      (s'.pc = .reserving ∨ (∃ r, s'.pc = .resting r) → (s'.done : Int) < opts.maxJobs) := by
  intro hmax
  have hdone := h.done
  obtain ⟨hless, hwaits⟩ := h.limit hmax
  constructor
  · obtain ⟨hgiven, -⟩ | ⟨j, hpc, hgiven, -⟩ | ⟨j, hpc, hgiven, -⟩ := hs.counted
    · rw [hgiven]
      exact hless
    · have hjobs := h.jobs
      have hroom := hwaits (.inl hpc)
      have hnone : (Pc.reserving : Pc ε).inHand = [] := rfl
      rw [hpc, hnone, List.append_nil] at hjobs
      rw [hgiven, List.length_append, List.length_singleton, hjobs]
      omega
    · rw [hgiven]
      exact hless
  · intro hwaits'
    have hroom : (∃ r, s.pc = .resting r) ∨ s.pc = .reserving → (s.done : Int) < opts.maxJobs :=
      fun hor => hwaits hor.symm
    cases hs with
    | same => exact hwaits hwaits'
    | stop => exact hwaits hwaits'
    | fifth hpc hfailures => simp at hwaits'
    | failed hpc hfailures hnext => exact hroom (.inr hpc)
    | empty hpc hnext hempty => exact hroom (.inr hpc)
    | job j hpc => simp at hwaits'
    | completed j call hpc hnext hlimit =>
      apply hlimit hmax
      intro hended
      simp [hended] at hwaits'
    | raised j hpc => simp at hwaits'
    | slept remaining hpc hnext => exact hroom (.inl ⟨remaining, hpc⟩)

/-- The exit code is 0 or 1. -/
theorem Sound.code_step (h : Sound opts quit s) (hs : Stepped opts s s') :
    ∀ code, s'.pc = .returned code → code = 0 ∨ code = 1 := by
  have hnext : ∀ {shouldQuit : Bool} {pc : Pc ε} {es : List (Event ε)}, Next shouldQuit pc es →
      ∀ code, pc = .returned code → code = 0 ∨ code = 1 := by
    intro shouldQuit pc es hnext code hpc
    cases hnext with
    | ends =>
      cases hpc
      exact .inl rfl
    | reserves h => cases hpc
    | rests r h => cases hpc
  cases hs with
  | same => exact h.code
  | stop => exact h.code
  | fifth hpc hfailures =>
    intro code hcode
    cases hcode
    exact .inr rfl
  | failed hpc hfailures hgo => exact hnext hgo
  | empty hpc hgo hempty => exact hnext hgo
  | job j hpc => intro code hcode; cases hcode
  | completed j call hpc hgo hlimit => exact hnext hgo
  | raised j hpc => intro code hcode; cases hcode
  | slept remaining hpc hgo => exact hnext hgo

/-- Where the loop goes on, no empty answer is before, and none is added that does not end it. -/
theorem empty_append {events es : List (Event ε)} (hevents : .answered .empty ∉ events)
    (hes : .answered .empty ∉ es ∨ es = [.answered .empty, .returned 0]) {ended : Prop}
    (hended : .answered .empty ∈ es → ended) :
    (.answered .empty ∈ events ++ es → ended) ∧
      (events ++ es).Pairwise fun e e' => e = .answered .empty → e' = .returned 0 ∨ e' = .stop := by
  have hnone : ∀ l : List (Event ε), .answered .empty ∉ l →
      l.Pairwise fun e e' => e = .answered .empty → e' = .returned 0 ∨ e' = .stop := by
    intro l hl
    exact List.Pairwise.imp_of_mem (fun he _ _ heq => absurd (heq ▸ he) hl) (List.pairwise_of_forall (fun _ _ => trivial))
  constructor
  · intro hmem
    exact hended ((List.mem_append.mp hmem).resolve_left hevents)
  · rw [List.pairwise_append]
    refine ⟨hnone events hevents, ?_, fun e he e' _ heq => absurd (heq ▸ he) hevents⟩
    obtain hnot | rfl := hes
    · exact hnone es hnot
    · simp

/-- With `stop_when_empty` the first empty answer is the last. -/
theorem Sound.empty_step (h : Sound opts quit s) (hs : Stepped opts s s') : opts.stopWhenEmpty = true →
    (.answered .empty ∈ s'.events → s'.pc = .returned 0) ∧
      s'.events.Pairwise fun e e' => e = .answered .empty → e' = .returned 0 ∨ e' = .stop := by
  intro hstop
  obtain ⟨hends, horder⟩ := h.empty hstop
  have hnot : s.pc ≠ .returned 0 → .answered .empty ∉ s.events := fun hpc hmem => hpc (hends hmem)
  have hnone : ∀ {es : List (Event ε)} {e : Event ε}, e ≠ .answered .empty → (∀ r, .answered r ∉ es) →
      .answered .empty ∉ e :: es := by
    intro es e he hes hmem
    obtain heq | hmem := List.mem_cons.mp hmem
    · exact he heq.symm
    · exact hes _ hmem
  cases hs with
  | same => exact ⟨hends, horder⟩
  | stop =>
    refine ⟨by simpa using hends, ?_⟩
    rw [List.pairwise_append]
    refine ⟨horder, List.pairwise_singleton _ _, ?_⟩
    intro e _ e' he' _
    exact .inr (List.mem_singleton.mp he')
  | fifth hpc hfailures =>
    exact empty_append (hnot (by simp [hpc])) (.inl (by simp)) (by simp)
  | failed hpc hfailures hnext =>
    have hes := hnone (e := .answered .raised) (by simp) hnext.answers.2.2.2.2.2.1
    exact empty_append (hnot (by simp [hpc])) (.inl hes) fun hmem => absurd hmem hes
  | empty hpc hnext hempty =>
    refine empty_append (hnot (by simp [hpc])) (.inr ?_) fun _ => hempty hstop
    rw [hempty hstop] at hnext
    cases hnext
    rfl
  | job j hpc => exact empty_append (hnot (by simp [hpc])) (.inl (by simp)) (by simp)
  | completed j call hpc hnext hlimit =>
    have hes := hnone (e := .completed j call) (by simp) hnext.answers.2.2.2.2.2.1
    exact empty_append (hnot (by simp [hpc])) (.inl hes) fun hmem => absurd hmem hes
  | raised j hpc => exact ⟨fun hmem => absurd hmem (hnot (by simp [hpc])), horder⟩
  | slept remaining hpc hnext =>
    have hes := hnext.answers.2.2.2.2.2.1
    exact empty_append (hnot (by simp [hpc])) (.inl (hes _)) fun hmem => absurd hmem (hes _)

/-- **One step.** -/
theorem Sound.step (h : Sound opts quit s) (i : Input ε) : Sound opts quit (step opts i s) := by
  have hs := stepped opts i s
  exact {
    stopped := h.stopped_step hs
    begins := h.begins_step hs
    order := h.order_step hs
    inFlight := h.inFlight_step hs
    failures := h.failures_step hs
    fifth := h.fifth_step hs
    readable := h.readable_step hs
    jobs := (h.jobs_step hs).1
    done := (h.jobs_step hs).2
    limit := h.limit_step hs
    empty := h.empty_step hs
    code := h.code_step hs }

theorem sound_begun (opts : Options) (quit : Bool) : Sound opts quit (begun quit : Loop ε) := by
  have hinside : ¬ (List.replicate 5 (Reserved.raised : Reserved ε)).IsInfix [] := by
    intro h
    cases List.eq_nil_of_infix_nil h
  unfold begun top
  cases quit with
  | true =>
    exact {
      stopped := by simp [finish, log]
      begins := by simp [finish, log]
      order := by simp [finish, log]
      inFlight := by simp [finish, log]
      failures := ⟨[], rfl, by simp⟩
      fifth := by simp [finish, log]
      readable := fun _ => ⟨Nat.succ_pos 4, hinside⟩
      jobs := rfl
      done := rfl
      limit := fun h => ⟨Int.le_of_lt h, fun _ => h⟩
      empty := by simp [finish, log]
      code := by simp [finish, log] }
  | false =>
    exact {
      stopped := by simp [log]
      begins := by simp
      order := by simp [log]
      inFlight := fun _ => ⟨[], [], rfl, rfl⟩
      failures := ⟨[], rfl, by simp⟩
      fifth := by simp [log]
      readable := fun _ => ⟨Nat.succ_pos 4, hinside⟩
      jobs := rfl
      done := rfl
      limit := fun h => ⟨Int.le_of_lt h, fun _ => h⟩
      empty := by simp [log]
      code := by simp [log] }

/-- **Every run.** -/
theorem sound_run (opts : Options) (quit : Bool) (inputs : List (Input ε)) :
    Sound opts quit ((machine opts).run (begun quit) inputs) :=
  Machine.invariant_all (fun i _ h => h.step i) (sound_begun opts quit) inputs

/-- An error that ends the handler has a text, so that the completion reaches the queue. -/
def Input.completes : Input ε → Prop
  | .handled run _ => ∀ e, run.ending.error = some e → e.text ≠ none
  | _ => True

/-- How a run has gone: `s` is the loop then, and what it has done since it was called. -/
structure Exact (opts : Options) (quit : Bool) (inputs : List (Input ε)) (s : Loop ε) : Prop where
  /-- Only the queue's being unreadable is an error. -/
  one_iff : s.pc = .returned 1 ↔ FifthRaised s.events
  zero_or_one : ∀ code, s.pc = .returned code → code = 0 ∨ code = 1
  max_jobs : 0 < opts.maxJobs → ((given s.events).length : Int) ≤ opts.maxJobs
  first_empty : opts.stopWhenEmpty = true → (.answered .empty ∈ s.events → s.pc = .returned 0) ∧
    s.events.Pairwise fun e e' => e = .answered .empty → e' = .returned 0 ∨ e' = .stop
  no_reserve : (quit = true → .reserve ∉ s.events) ∧ s.events.Pairwise fun e e' => e = .stop → e' ≠ .reserve
  /-- The jobs are run in the order they are given, the one in hand being the last. -/
  once : given s.events = finished s.events ++ s.pc.inHand
  completed : (∃ code, s.pc = .returned code) → given s.events = finished s.events
  in_hand : (∀ i ∈ inputs, i.completes) → ∀ j, s.pc ≠ .raised j

example : ((machine ⟨0, 0, 0, false, .unset, 0⟩).run (begun false : Loop Nat)
    (List.replicate 5 (.reserved .raised 0))).pc = .returned 1 := by decide

end PyAppRunner.Queue.WorkerLoop
