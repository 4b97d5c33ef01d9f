import PyAppRunner.Base.Dict
import PyAppRunner.Base.Run

/-! The scheduler's executor: due jobs as child processes.

`run` gathers one coroutine a job: each takes the job's lock, starts a child, waits for
it and gives the lock back. Between two awaits a coroutine runs alone, so an
interleaving is the order in which the awaits are answered: by the lock, by the event
loop, by the children as they end. `stop` is called by a signal handler of the same loop
and falls between two such steps too. -/
namespace PyAppRunner.Cron
open Base

/-- A job, as it was loaded. -/
structure Job where
  name : String
  command : List String
  timeout : Option Nat
deriving DecidableEq

/-- What is reported of a run. -/
inductive Status where
  | ok
  | failed
  | timeout
  | skipped
deriving DecidableEq

/-- How a job went; `seconds` is left out. -/
structure Outcome where
  job : Job
  status : Status
  returncode : Option Int
deriving DecidableEq

/-- The call whose exception leaves `_run_one`. -/
inductive Failure where
  | acquire
  | launch
  | create
  /-- `ProcessLookupError`, from signalling a process whose transport is closed. -/
  | signal
  | release
deriving DecidableEq

/-- A child process, as far as the event loop has come with it. -/
inductive Process where
  | running
  /-- It has ended, and the loop has not noticed. -/
  | exited (code : Int)
  /-- `returncode` is set. -/
  | reaped (code : Int)
  /-- Its transport is closed as well. -/
  | closed (code : Int)
deriving DecidableEq

namespace Process

def returncode : Process → Option Int
  | running | exited _ => none
  | reaped code | closed code => some code

/-- The transport of the child is closed. -/
def isClosed : Process → Bool
  | closed _ => true
  | _ => false

/-- What becomes of a child. -/
inductive Event where
  | exits (code : Int)
  | reaped
  | closed
deriving DecidableEq

def on : Event → Process → Process
  | .exits code, running => exited code
  | .reaped, exited code => reaped code
  | .closed, reaped code => closed code
  | _, p => p

end Process

/-- Which await the coroutine of a job is in. -/
inductive Phase where
  | acquiring
  /-- In `create_subprocess_exec`, before the process is there. -/
  | starting (argv : List String)
  /-- In the same call: the process runs, and the coroutine does not know it yet. -/
  | created
  | waiting
  /-- In `_kill`, after `terminate`. -/
  | terminating
  /-- In `_kill`, after `kill`. -/
  | killing
  /-- In the `finally` of `_run_one`, with what is to be returned or raised. -/
  | releasing (result : Except Failure Outcome)
  | ended (result : Except Failure Outcome)
deriving DecidableEq

/-- `_run_one` of one job, and the child it has started. -/
structure Task where
  job : Job
  phase : Phase
  child : Option Process
deriving DecidableEq

/-- How `create_subprocess_exec` ends. -/
inductive Creation where
  | started
  | osError
  | raised
deriving DecidableEq

/-- What an await of the coroutine comes back with; `none` is an exception. -/
inductive Event where
  | acquired (answer : Option Bool)
  | created (answer : Creation)
  | resumed
  | waited
  | timedOut
  | released (answer : Option Unit)
deriving DecidableEq

/-- What the coroutine does to the executor on its way to the next await. -/
inductive Effect where
  | nothing
  | started
  | registered
  | terminated
  | popped
deriving DecidableEq

/-- A launch that raises is `none`. -/
abbrev Launch := Job → Option (List String)

namespace Task

/-- A coroutine that has not asked for its lock yet. -/
def start (job : Job) : Task := ⟨job, .acquiring, none⟩

/-- Its child runs. -/
def alive (t : Task) : Bool := t.child = some .running

def returncode (t : Task) : Option Int := t.child.bind Process.returncode

/-- Signalling the child raises. -/
def gone (t : Task) : Bool := t.child.any Process.isClosed

/-- `proc.wait()` has returned. -/
def finished (t : Task) (code : Int) : Outcome := ⟨t.job, if code = 0 then .ok else .failed, some code⟩

/-- The outcome of a child that was told to end for its timeout. -/
def overTimeout (t : Task) (code : Int) : Outcome := ⟨t.job, .timeout, some code⟩

/-- The wait ends only when the exit code is known. -/
def afterWait (t : Task) (outcome : Int → Outcome) : Task × Effect :=
  match t.returncode with
  | none => (t, .nothing)
  | some code => ({t with phase := .releasing (.ok (outcome code))}, .popped)

/-- A signal is sent, or raises and ends the wait for the child. -/
def signalled (t : Task) (next : Phase) (effect : Effect) : Task × Effect :=
  if t.gone then ({t with phase := .releasing (.error .signal)}, .popped)
  else ({t with phase := next}, effect)

variable (launch : Launch)

/-- `_run_one`, `_spawn` and `_kill`, from one await to the next. -/
def on (e : Event) (t : Task) : Task × Effect :=
  match t.phase, e with
  | .acquiring, .acquired none => ({t with phase := .ended (.error .acquire)}, .nothing)
  | .acquiring, .acquired (some false) =>
    ({t with phase := .ended (.ok ⟨t.job, .skipped, none⟩)}, .nothing)
  | .acquiring, .acquired (some true) =>
    match launch t.job with
    | none => ({t with phase := .releasing (.error .launch)}, .nothing)
    | some argv => ({t with phase := .starting argv}, .nothing)
  | .starting _, .created .started => ({t with phase := .created, child := some .running}, .started)
  | .starting _, .created .osError =>
    ({t with phase := .releasing (.ok ⟨t.job, .failed, none⟩)}, .nothing)
  | .starting _, .created .raised => ({t with phase := .releasing (.error .create)}, .nothing)
  | .created, .resumed => ({t with phase := .waiting}, .registered)
  | .waiting, .waited => t.afterWait t.finished
  -- Without a timeout `wait_for` waits for as long as it takes.
  | .waiting, .timedOut =>
    if t.job.timeout.isSome then t.signalled .terminating .terminated else (t, .nothing)
  | .terminating, .waited => t.afterWait t.overTimeout
  | .terminating, .timedOut => t.signalled .killing .nothing
  | .killing, .waited => t.afterWait t.overTimeout
  | .releasing result, .released (some ()) => ({t with phase := .ended result}, .nothing)
  | .releasing _, .released none => ({t with phase := .ended (.error .release)}, .nothing)
  | _, _ => (t, .nothing)

/-- The child of the coroutine meets an event. -/
def onProcess (e : Process.Event) (t : Task) : Task := {t with child := t.child.map (Process.on e)}

/-- What the coroutine raised, if it did. -/
def failure (t : Task) : Option Failure :=
  match t.phase with
  | .ended (.error f) => some f
  | _ => none

/-- What the coroutine returned, if it did. -/
def outcome (t : Task) : Option Outcome :=
  match t.phase with
  | .ended (.ok o) => some o
  | _ => none

end Task

/-- What `gather` has for its caller: the first exception, or all the results. -/
def gathers (tasks : List Task) : Option (Except Failure (List Outcome)) :=
  match tasks.findSome? Task.failure with
  | some f => some (.error f)
  | none => (tasks.mapM Task.outcome).map .ok

/-- The executor during one `run`. A child is named by the position of the job that
started it. `terminated` and `startedLate` are history: who was sent `terminate`, and
whether a child was started after `stop`. -/
structure Executor where
  tasks : List Task
  children : Dict String Nat
  stopping : Bool
  terminated : List Nat
  startedLate : Bool
  gathered : Option (Except Failure (List Outcome))
  /-- `run` has returned or raised. -/
  ended : Bool

namespace Executor
variable (launch : Launch)

/-- `run(jobs)`, as it begins. -/
def start (jobs : List Job) : Executor :=
  ⟨jobs.map Task.start, .empty, false, [], false, gathers (jobs.map Task.start), false⟩

def apply (i : Nat) (name : String) : Effect → Executor → Executor
  | .nothing, s => s
  | .started, s => {s with startedLate := s.startedLate || s.stopping}
  | .registered, s => {s with children := s.children.set name i}
  | .terminated, s => {s with terminated := i :: s.terminated}
  | .popped, s => {s with children := s.children.erase name}

/-- The future of `gather` is done once. -/
def gather (s : Executor) : Executor := {s with gathered := s.gathered <|> gathers s.tasks}

/-- The coroutine at a place goes on to its next await. -/
def resume (i : Nat) (e : Event) (s : Executor) : Executor :=
  match s.tasks[i]? with
  | none => s
  | some t =>
    (apply i t.job.name (t.on launch e).2 {s with tasks := s.tasks.set i (t.on launch e).1}).gather

/-- The child of a coroutine meets an event. -/
def childEvent (i : Nat) (e : Process.Event) (s : Executor) : Executor :=
  {s with tasks := s.tasks.modify i (Task.onProcess e)}

/-- The child has no `returncode` yet. -/
def unfinished (s : Executor) (i : Nat) : Bool :=
  match s.tasks[i]? with
  | none => false
  | some t => t.returncode.isNone

def stop (s : Executor) : Executor :=
  {s with
    stopping := true
    terminated := (s.children.entries.map Prod.snd).filter s.unfinished ++ s.terminated}

inductive Input where
  | task (i : Nat) (e : Event)
  | child (i : Nat) (e : Process.Event)
  | stop
  /-- The caller of `run` gets what was gathered. -/
  | returns
deriving DecidableEq

/-- What the event loop hands to the executor. -/
def step : Input → Executor → Executor
  | .task i e, s => resume launch i e s
  | .child i e, s => childEvent i e s
  | .stop, s => s.stop
  | .returns, s => {s with ended := s.ended || s.gathered.isSome}

/-- The executor, whatever the order of the events. -/
def machine : Machine Executor Input := ⟨step launch⟩

end Executor

def nightly : Job := ⟨"nightly", ["report", "send"], none⟩

def hourly : Job := ⟨"hourly", ["feed", "refresh"], some 600⟩

/-- `_executor`'s launch: the interpreter and script, and the job's arguments. -/
def appLaunch : Launch := fun job => some (["python", "app.py"] ++ job.command)

/-! ### One step of a coroutine -/

namespace Task
variable (launch : Launch) (e : Event) (t : Task)

theorem afterWait_frame (outcome : Int → Outcome) :
    (t.afterWait outcome).1.job = t.job ∧ (t.afterWait outcome).1.child = t.child := by
  unfold afterWait
  split <;> exact ⟨rfl, rfl⟩

theorem signalled_frame (next : Phase) (effect : Effect) :
    (t.signalled next effect).1.job = t.job ∧ (t.signalled next effect).1.child = t.child := by
  unfold signalled
  split <;> exact ⟨rfl, rfl⟩

theorem on_job : (t.on launch e).1.job = t.job := by
  fun_cases on launch e t <;>
    first | rfl | exact (afterWait_frame _ _).1 | exact (signalled_frame _ _ _).1

/-- A child comes from starting one. -/
theorem on_child : (t.on launch e).1.child = t.child ∨
    (t.on launch e).2 = .started ∧ t.phase ≠ .acquiring := by
  fun_cases on launch e t <;>
    first
    | exact .inl rfl
    | exact .inl (afterWait_frame _ _).2
    | exact .inl (signalled_frame _ _ _).2
    | simp_all

/-- No child comes back to life. -/
theorem alive_of_onProcess (e : Process.Event) (h : (t.onProcess e).alive = true) : t.alive = true := by
  simp only [alive, onProcess, decide_eq_true_eq, Option.map_eq_some_iff] at h ⊢
  obtain ⟨p, hp, hrunning⟩ := h
  rw [hp]
  cases p with
  | running => rfl
  | exited code => cases e <;> cases hrunning
  | reaped code => cases e <;> cases hrunning
  | closed code => cases e <;> cases hrunning

end Task

/-! ### One step of the executor -/

namespace Executor
variable {launch : Launch} {s : Executor} {i j : Nat} {t : Task}

@[simp] theorem apply_tasks (name : String) (effect : Effect) : (apply i name effect s).tasks = s.tasks := by
  cases effect <;> rfl

@[simp] theorem apply_stopping (name : String) (effect : Effect) :
    (apply i name effect s).stopping = s.stopping := by
  cases effect <;> rfl

@[simp] theorem apply_gathered (name : String) (effect : Effect) :
    (apply i name effect s).gathered = s.gathered := by
  cases effect <;> rfl

@[simp] theorem apply_ended (name : String) (effect : Effect) :
    (apply i name effect s).ended = s.ended := by
  cases effect <;> rfl

theorem resume_of_none (e : Event) (h : s.tasks[i]? = none) : resume launch i e s = s := by
  rw [resume, h]

theorem resume_of_some (e : Event) (h : s.tasks[i]? = some t) : resume launch i e s =
    (apply i t.job.name (t.on launch e).2 {s with tasks := s.tasks.set i (t.on launch e).1}).gather := by
  rw [resume, h]

/-- The job at `j` takes its own step, and no other job's step concerns it. -/
theorem getElem?_resume (e : Event) : (resume launch i e s).tasks[j]? =
    if i = j then (s.tasks[j]?).map (fun t => (t.on launch e).1) else s.tasks[j]? := by
  cases h : s.tasks[i]? with
  | none =>
    rw [resume_of_none e h]
    split
    · rename_i hij
      rw [← hij, h]
      rfl
    · rfl
  | some t =>
    rw [resume_of_some e h]
    simp only [gather, apply_tasks, List.getElem?_set]
    by_cases hij : i = j
    · rw [if_pos hij, if_pos hij, ← hij, h, if_pos (List.getElem?_eq_some_iff.mp h).1]
      rfl
    · rw [if_neg hij, if_neg hij]

theorem getElem?_childEvent (e : Process.Event) : (childEvent i e s).tasks[j]? =
    if i = j then (s.tasks[j]?).map (Task.onProcess e) else s.tasks[j]? := by
  rw [childEvent, List.getElem?_modify]
  split
  · rfl
  · simp

end Executor

end PyAppRunner.Cron
