import PyAppRunner.Cron.Containment
import PyAppRunner.Cron.Locks

/-! No job overlaps itself.

Every minute, and whenever an operator asks for a job by name, a `cron run` process
starts, opens its own lock and runs what is due: any number of schedulers are at work at
once, each at its own place. They meet in the lock alone. A coroutine has its job's
lock from before the child is there until after it is reaped, on every path; so the jobs
between their acquire and their release are the lock's holders (`Sound`), and a name has
one at most.

A scheduler that goes before its jobs have ended takes the locks with it and leaves the
children behind: that is what "dies" means here, whether the process was killed or ended
by an exception out of one of its jobs. -/
namespace PyAppRunner.Cron
open Base Executor

namespace Task

/-- In the `finally` of `_run_one`. -/
def isReleasing (t : Task) : Bool :=
  match t.phase with
  | .releasing _ => true
  | _ => false

/-- `_run_one` has returned or raised. -/
def hasReturned (t : Task) : Bool :=
  match t.phase with
  | .ended _ => true
  | _ => false

end Task

/-- A `cron run` process. -/
structure Scheduler where
  executor : Executor
  gone : Bool

/-- `run` has ended: it returned the outcomes of its jobs, or raised with none of them underway. -/
def Scheduler.Done (p : Scheduler) : Prop :=
  p.executor.ended = true ∧ ((∃ outcomes, p.executor.gathered = some (.ok outcomes)) ∨
    ∀ (i : Nat) (t : Task), p.executor.tasks[i]? = some t → t.hasReturned = true)

/-- All the schedulers of one deployment that were ever started, and the lock they share. -/
structure Deployment (lock : LockService String) where
  schedulers : List Scheduler
  locks : lock.State

namespace Deployment
variable {lock : LockService String} (launch : Launch)

/-- What may happen next in a deployment. -/
inductive Input where
  /-- A process starts with the jobs that are due, or with the one named. -/
  | tick (jobs : List Job)
  /-- The lock answers the coroutine that is waiting for it. -/
  | acquire (n i : Nat)
  | release (n i : Nat)
  /-- The lock operation the coroutine is in raises. -/
  | raises (n i : Nat)
  /-- Anything else in one process: awaits answered, children that end, `stop`, the return of `run`. -/
  | within (n : Nat) (input : Executor.Input)
  /-- The process is gone. -/
  | gone (n : Nat)
deriving DecidableEq

/-- The lock answers, and nothing else does. -/
def ofLock : Executor.Input → Bool
  | .task _ (.acquired _) | .task _ (.released _) => true
  | _ => false

/-- A child outlives its scheduler, everything else of it does not. -/
def outlives : Executor.Input → Bool
  | .child _ (.exits _) => true
  | _ => false

/-- A process that was never started is not gone. -/
def isGone (s : Deployment lock) (n : Nat) : Bool := (s.schedulers[n]?).any Scheduler.gone

/-- A coroutine of one of the processes. -/
def task (s : Deployment lock) (n i : Nat) : Option Task := (s.schedulers[n]?).bind fun p => p.executor.tasks[i]?

/-- The coroutine, if its process is there. -/
def present (s : Deployment lock) (n i : Nat) : Option Task := if s.isGone n then none else s.task n i

/-- A dead process takes part no more. What its child does goes on. -/
def feedTo (input : Executor.Input) (p : Scheduler) : Scheduler :=
  if p.gone && !outlives input then p else {p with executor := Executor.step launch input p.executor}

/-- One process meets an event. -/
def feed (n : Nat) (input : Executor.Input) (s : Deployment lock) : Deployment lock :=
  {s with schedulers := s.schedulers.modify n (feedTo launch input)}

/-- `lock.acquire`, and the coroutine on to its next await. -/
def acquire (n i : Nat) (t : Task) (s : Deployment lock) : Deployment lock :=
  {feed launch n (.task i (.acquired (some (lock.acquire n t.job.name s.locks).1))) s with
    locks := (lock.acquire n t.job.name s.locks).2}

/-- The lock is given back and the coroutine returns in one step. -/
def release (n i : Nat) (t : Task) (s : Deployment lock) : Deployment lock :=
  {feed launch n (.task i (.released (some ()))) s with locks := lock.release n t.job.name s.locks}

/-- One event anywhere. -/
def step : Input → Deployment lock → Deployment lock
  | .tick jobs, s => {s with schedulers := s.schedulers ++ [⟨.start jobs, false⟩]}
  | .acquire n i, s =>
    match s.present n i with
    | none => s
    | some t => if t.phase = .acquiring then acquire launch n i t s else s
  | .release n i, s =>
    match s.present n i with
    | none => s
    | some t => if t.isReleasing then release launch n i t s else s
  | .raises n i, s => feed launch n (.task i (.released none)) (feed launch n (.task i (.acquired none)) s)
  | .within n input, s => if ofLock input then s else feed launch n input s
  | .gone n, s =>
    { schedulers := s.schedulers.modify n fun p => {p with gone := true}
      locks := lock.close n s.locks }

/-- Any number of schedulers that share a lock. -/
def machine : Machine (Deployment lock) Input := ⟨step launch⟩

/-- No process, and the lock as it begins. -/
def empty : Deployment lock := ⟨[], lock.init⟩

/-- What comes of a run with the configured lock. -/
def after (conf : LockConfig) (inputs : List Input) : Deployment (jobLock conf) := (machine launch).run empty inputs

/-- The jobs of a run have names of their own, no lock operation raises, and no scheduler
dies: one is gone only when its `run` has ended. -/
def Undisturbed (names : Set String) : Input → Deployment lock → Prop
  | .tick jobs, _ => (jobs.map Job.name).Nodup ∧ ∀ job ∈ jobs, job.name ∈ names
  | .raises _ _, _ => False
  | .gone n, s => ∀ p : Scheduler, s.schedulers[n]? = some p → p.Done
  | _, _ => True

/-- A job of that name is between its acquire and its release. -/
def Locked (s : Deployment lock) (name : String) : Prop :=
  ∃ n i t, s.task n i = some t ∧ t.job.name = name ∧ t.holdsLock = true

structure NoOverlap (names : Set String) (s : Deployment lock) : Prop where
  /-- At most one child of a name is alive. -/
  single : ∀ n i m j t u, s.task n i = some t → s.task m j = some u → t.alive = true → u.alive = true →
    t.job.name = u.job.name → n = m ∧ i = j
  /-- No other scheduler gets the lock of a child that is alive. -/
  guarded : ∀ n i t c, s.task n i = some t → t.alive = true → c ≠ n → (lock.acquire c t.job.name s.locks).1 = false
  /-- What has returned left no child. -/
  ended : ∀ n i t, s.task n i = some t → t.hasReturned = true → t.alive = false ∧ t.holdsLock = false
  /-- The lock is free, for whoever asks, when no job of the name is inside. -/
  freed : ∀ name ∈ names, ¬ s.Locked name → ∀ c, (lock.acquire c name s.locks).1 = true

end Deployment

/-! ### One step -/

namespace Task
variable {launch : Launch} {t t' : Task}

/-- What the lock's table sees of a coroutine stays. -/
structure Quiet (t t' : Task) : Prop where
  job : t'.job = t.job
  holdsLock : t'.holdsLock = t.holdsLock
  consistent : t.Consistent → t'.Consistent
  returned : t.hasReturned = true → t'.hasReturned = true

theorem Quiet.refl (t : Task) : t.Quiet t := ⟨rfl, rfl, fun h => h, fun h => h⟩

/-- A coroutine that has returned has ended with some result. -/
theorem phase_of_hasReturned (h : t.hasReturned = true) : ∃ result, t.phase = .ended result := by
  unfold hasReturned at h
  split at h
  · rename_i result hphase
    exact ⟨result, hphase⟩
  · cases h

/-- A coroutine that has returned takes no more steps. -/
theorem on_of_hasReturned (e : Event) (h : t.hasReturned = true) : (t.on launch e).1 = t := by
  obtain ⟨result, hphase⟩ := phase_of_hasReturned h
  unfold on
  rw [hphase]

/-- After its child a coroutine goes on to release what it holds, whatever the child returned. -/
theorem holdsLock_afterWait (outcome : Int → Outcome) (h : t.holdsLock = true) :
    (t.afterWait outcome).1.holdsLock = t.holdsLock := by
  unfold afterWait
  split
  · rfl
  · exact h.symm

theorem holdsLock_signalled {next : Phase} {effect : Effect} (h : t.holdsLock = true)
    (hnext : ({t with phase := next} : Task).holdsLock = true) :
    (t.signalled next effect).1.holdsLock = t.holdsLock := by
  unfold signalled
  split
  · exact h.symm
  · exact hnext.trans h.symm

/-- Only the lock's own answers take or give back a lock. -/
theorem holdsLock_on {i : Nat} {e : Event} (h : Deployment.ofLock (.task i e) = false) :
    (t.on launch e).1.holdsLock = t.holdsLock := by
  fun_cases on launch e t <;>
    first
    | rfl
    | exact Bool.noConfusion h
    | exact holdsLock_afterWait _ (by simp [holdsLock, *])
    | exact holdsLock_signalled (by simp [holdsLock, *]) rfl
    | simp [holdsLock, *]

theorem holdsLock_acquired (h : t.phase = .acquiring) : (t.on launch (.acquired (some true))).1.holdsLock = true := by
  unfold on
  rw [h]
  dsimp only
  split <;> rfl

/-- A coroutine that the lock refuses starts no child. -/
theorem on_refused (h : t.phase = .acquiring) :
    (t.on launch (.acquired (some false))).1 = {t with phase := .ended (.ok ⟨t.job, .skipped, none⟩)} := by
  unfold on
  rw [h]

theorem holdsLock_released (h : t.isReleasing = true) :
    t.holdsLock = true ∧ (t.on launch (.released (some ()))).1.holdsLock = false := by
  unfold isReleasing at h
  split at h
  · rename_i result hphase
    unfold on holdsLock
    rw [hphase]
    exact ⟨rfl, rfl⟩
  · cases h

/-- An event that is not the lock's neither takes nor gives it. -/
theorem quiet_on {i : Nat} {e : Event} (h : Deployment.ofLock (.task i e) = false) : t.Quiet (t.on launch e).1 where
  job := t.on_job launch e
  holdsLock := holdsLock_on h
  consistent hc := consistent_on e hc
  returned hr := by rwa [on_of_hasReturned e hr]

theorem quiet_onProcess (e : Process.Event) : t.Quiet (t.onProcess e) :=
  ⟨rfl, rfl, consistent_onProcess e, fun h => h⟩

/-- Without an answer from the lock, its table sees nothing. -/
theorem quiet_after {input : Executor.Input} (h : Deployment.ofLock input = false) (j : Nat) :
    t.Quiet (t.after launch (own j input).toList) := by
  cases input with
  | task i e =>
    rw [own]
    split
    · exact quiet_on h
    · exact .refl t
  | child i e =>
    rw [own]
    split
    · exact quiet_onProcess e
    · exact .refl t
  | stop => exact .refl t
  | returns => exact .refl t

end Task

namespace Deployment
variable {lock : LockService String} {launch : Launch} {s : Deployment lock} {n i m j : Nat} {t : Task}

theorem getElem?_feedTo (input : Executor.Input) (p : Scheduler) (j : Nat) :
    (feedTo launch input p).executor.tasks[j]? = (p.executor.tasks[j]?).map fun t =>
      t.after launch (if p.gone && !outlives input then [] else (own j input).toList) := by
  unfold feedTo
  split
  · simp [Task.after]
  · exact getElem?_step input p.executor j

theorem feedTo_gone (input : Executor.Input) (p : Scheduler) : (feedTo launch input p).gone = p.gone := by
  unfold feedTo
  split <;> rfl

theorem isGone_feed (n : Nat) (input : Executor.Input) (m : Nat) : (feed launch n input s).isGone m = s.isGone m := by
  unfold isGone feed
  rw [List.getElem?_modify]
  cases s.schedulers[m]? with
  | none => rfl
  | some p =>
    by_cases hnm : n = m
    · simp [hnm, feedTo_gone]
    · simp [hnm]

/-- A process feels only its own events. -/
theorem task_feed_of_ne (input : Executor.Input) (h : n ≠ m) (j : Nat) :
    (feed launch n input s).task m j = s.task m j := by
  unfold task feed
  rw [List.getElem?_modify]
  simp [h]

theorem task_feed (n : Nat) (input : Executor.Input) (j : Nat) : (feed launch n input s).task n j =
    (s.task n j).map fun t => t.after launch (if s.isGone n && !outlives input then [] else (own j input).toList) := by
  unfold task feed isGone
  rw [List.getElem?_modify]
  cases s.schedulers[n]? with
  | none => rfl
  | some p => simp [getElem?_feedTo]

/-- The answer to one await is the business of that coroutine alone. -/
theorem task_feed_task (e : Event) (ht : s.present n i = some t) (m j : Nat) :
    (feed launch n (.task i e) s).task m j = if n = m ∧ i = j then some (t.on launch e).1 else s.task m j := by
  unfold present at ht
  split at ht
  · cases ht
  · rename_i hgone
    by_cases hnm : n = m
    · subst hnm
      rw [task_feed, Bool.eq_false_of_not_eq_true hgone]
      by_cases hij : i = j
      · subst hij
        rw [ht]
        simp [own, Task.after]
      · simp [own, hij, Task.after]
    · rw [task_feed_of_ne _ hnm, if_neg (fun h => hnm h.1)]

/-! ### What has returned -/

/-- Where all outcomes are gathered, every coroutine has returned. -/
def Gathered (s : Executor) : Prop :=
  ∀ outcomes, s.gathered = some (.ok outcomes) → ∀ (i : Nat) (t : Task), s.tasks[i]? = some t → t.hasReturned = true

/-- `gather` has results only when every coroutine has returned. -/
theorem returned_of_gathers {tasks : List Task} {outcomes : List Outcome} (h : gathers tasks = some (.ok outcomes)) {i : Nat}
    {t : Task} (ht : tasks[i]? = some t) : t.hasReturned = true := by
  unfold gathers at h
  split at h
  · cases h
  · obtain ⟨outcomes', hall, -⟩ := Option.map_eq_some_iff.mp h
    obtain ⟨o, ho, -⟩ := getElem?_of_mapM hall ht
    obtain ⟨hphase, -⟩ := Task.not_failing_of_outcome ho
    rw [Task.hasReturned, hphase]

theorem gathered_start (jobs : List Job) : Gathered (.start jobs) := fun _ h _ _ ht => returned_of_gathers h ht

theorem gathered_step (input : Executor.Input) {s : Executor} (h : Gathered s) : Gathered (Executor.step launch input s) := by
  cases input with
  | task i e =>
    show Gathered (resume launch i e s)
    cases ht : s.tasks[i]? with
    | none => rwa [resume_of_none e ht]
    | some t =>
      intro outcomes hdone
      cases hgathered : s.gathered with
      | none =>
        rw [resume_gathered e ht, hgathered] at hdone
        exact fun j u hu => returned_of_gathers hdone hu
      | some result =>
        rw [resume_gathered e ht, hgathered] at hdone
        refine forall_resume (P := fun _ t => t.hasReturned = true) e (h outcomes (hgathered.trans hdone)) fun u _ hu => ?_
        rwa [Task.on_of_hasReturned e hu]
  | child i e =>
    exact fun outcomes hdone => forall_childEvent (P := fun _ t => t.hasReturned = true) e (h outcomes hdone) fun _ _ hu => hu
  | stop => exact h
  | returns => exact h

/-- What every scheduler has gathered, it has seen return. -/
def AllGathered (s : Deployment lock) : Prop := ∀ (n : Nat) (p : Scheduler), s.schedulers[n]? = some p → Gathered p.executor

theorem allGathered_modify (hs : AllGathered s) (n : Nat) {f : Scheduler → Scheduler} {locks : lock.State}
    (hf : ∀ p, Gathered p.executor → Gathered (f p).executor) :
    AllGathered (⟨s.schedulers.modify n f, locks⟩ : Deployment lock) := by
  intro m p hp
  have hmodify : (s.schedulers.modify n f)[m]? = some p := hp
  rw [List.getElem?_modify] at hmodify
  obtain ⟨p₀, hp₀, rfl⟩ := Option.map_eq_some_iff.mp hmodify
  split
  · exact hf p₀ (hs m p₀ hp₀)
  · exact hs m p₀ hp₀

theorem allGathered_feed (hs : AllGathered s) (n : Nat) (input : Executor.Input) : AllGathered (feed launch n input s) := by
  refine allGathered_modify hs n fun p hp => ?_
  unfold feedTo
  split
  · exact hp
  · exact gathered_step input hp

theorem step_allGathered (input : Input) (s : Deployment lock) (hs : AllGathered s) : AllGathered (step launch input s) := by
  cases input with
  | tick jobs =>
    intro n p hp
    have happend : (s.schedulers ++ [⟨.start jobs, false⟩])[n]? = some p := hp
    rw [List.getElem?_append] at happend
    split at happend
    · exact hs n p happend
    · rw [List.getElem?_singleton] at happend
      split at happend
      · cases happend
        exact gathered_start jobs
      · cases happend
  | acquire n i =>
    rw [step]
    split
    · exact hs
    · split
      · exact fun m p hp => allGathered_feed hs n _ m p hp
      · exact hs
  | release n i =>
    rw [step]
    split
    · exact hs
    · split
      · exact fun m p hp => allGathered_feed hs n _ m p hp
      · exact hs
  | raises n i => exact allGathered_feed (allGathered_feed hs n _) n _
  | within n input =>
    rw [step]
    split
    · exact hs
    · exact allGathered_feed hs n _
  | gone n => exact allGathered_modify hs n fun _ hp => hp

/-- A scheduler whose `run` has ended so has no coroutine underway. -/
theorem returned_of_done (hs : AllGathered s) (hdone : ∀ p : Scheduler, s.schedulers[n]? = some p → p.Done)
    (ht : s.task n i = some t) : t.hasReturned = true := by
  obtain ⟨p, hp, htask⟩ := Option.bind_eq_some_iff.mp ht
  obtain ⟨-, ⟨outcomes, hgathered⟩ | hreturned⟩ := hdone p hp
  · exact hs n p hp outcomes hgathered i t htask
  · exact hreturned i t htask

/-! ### The jobs inside are the holders -/

variable {names : Set String} {R : lock.State → Holders String → Prop} {h : Holders String}

/-- The schedulers and the lock's table, at any moment of an undisturbed run. -/
structure Sound (names : Set String) (R : lock.State → Holders String → Prop) (h : Holders String)
    (s : Deployment lock) : Prop where
  locks : R s.locks h
  holders : ∀ x n, h x = some n ↔ ∃ i t, s.task n i = some t ∧ t.job.name = x ∧ t.holdsLock = true
  known : ∀ n i t, s.task n i = some t → t.job.name ∈ names
  distinct : ∀ n i j t u, s.task n i = some t → s.task n j = some u → t.job.name = u.job.name → i = j
  consistent : ∀ n i t, s.task n i = some t → t.Consistent
  left : ∀ n i t, s.isGone n = true → s.task n i = some t → t.hasReturned = true

theorem task_of_present (ht : s.present n i = some t) : s.task n i = some t := by
  unfold present at ht
  split at ht
  · cases ht
  · exact ht

/-- A coroutine that has not returned has its process. -/
theorem Sound.present_of_task (hs : Sound names R h s) (ht : s.task n i = some t) (hreturned : t.hasReturned = false) :
    s.present n i = some t := by
  unfold present
  split
  · rename_i hgone
    exact Bool.noConfusion (hreturned.symm.trans (hs.left n i t hgone ht))
  · exact ht

/-- A step the lock's table does not see. -/
theorem sound_quiet {s' : Deployment lock} {f : Nat → Nat → Task → Task} (hs : Sound names R h s) (hlocks : R s'.locks h)
    (htask : ∀ m j, s'.task m j = (s.task m j).map (f m j))
    (hquiet : ∀ m j t, s.task m j = some t → t.Quiet (f m j t))
    (hleft : ∀ m j t, s'.isGone m = true → s.task m j = some t → t.hasReturned = true) : Sound names R h s' := by
  have hback : ∀ m j u, s'.task m j = some u → ∃ t, s.task m j = some t ∧ t.Quiet u := by
    intro m j u hu
    rw [htask, Option.map_eq_some_iff] at hu
    obtain ⟨t, ht, rfl⟩ := hu
    exact ⟨t, ht, hquiet m j t ht⟩
  refine ⟨hlocks, ?_, ?_, ?_, ?_, ?_⟩
  · intro x n
    rw [hs.holders x n]
    constructor
    · intro ⟨i, t, ht, hname, hholds⟩
      have hq := hquiet n i t ht
      exact ⟨i, f n i t, by rw [htask, ht]; rfl, by rw [hq.job, hname], hq.holdsLock.trans hholds⟩
    · intro ⟨i, u, hu, hname, hholds⟩
      obtain ⟨t, ht, hq⟩ := hback n i u hu
      exact ⟨i, t, ht, by rw [← hq.job, hname], hq.holdsLock.symm.trans hholds⟩
  · intro n i u hu
    obtain ⟨t, ht, hq⟩ := hback n i u hu
    rw [hq.job]
    exact hs.known n i t ht
  · intro n i j u v hu hv hname
    obtain ⟨t, ht, hq⟩ := hback n i u hu
    obtain ⟨w, hw, hq'⟩ := hback n j v hv
    rw [hq.job, hq'.job] at hname
    exact hs.distinct n i j t w ht hw hname
  · intro n i u hu
    obtain ⟨t, ht, hq⟩ := hback n i u hu
    exact hq.consistent (hs.consistent n i t ht)
  · intro n i u hgone hu
    obtain ⟨t, ht, hq⟩ := hback n i u hu
    exact hq.returned (hleft n i t hgone ht)

/-- Events inside a process leave the books of the lock as they are. -/
theorem sound_within (hs : Sound names R h s) (n : Nat) {input : Executor.Input} (hlock : ofLock input = false) :
    Sound names R h (feed launch n input s) := by
  refine sound_quiet (f := fun m j t => if n = m then
    t.after launch (if s.isGone n && !outlives input then [] else (own j input).toList) else t) hs hs.locks ?_ ?_ ?_
  · intro m j
    by_cases hnm : n = m
    · subst hnm
      rw [task_feed]
      simp
    · rw [task_feed_of_ne _ hnm]
      simp [hnm]
  · intro m j t _
    split
    · split
      · exact .refl t
      · exact Task.quiet_after hlock j
    · exact .refl t
  · intro m j t hgone ht
    rw [isGone_feed] at hgone
    exact hs.left m j t hgone ht

/-- The lock answers one coroutine, which takes or gives back its own job's lock. -/
theorem sound_answered {e : Event} {locks : lock.State} {holder : Option Nat} (hs : Sound names R h s)
    (ht : s.present n i = some t) (hlocks : R locks (h.set t.job.name holder))
    (hholder : ∀ m, holder = some m ↔ m = n ∧ (t.on launch e).1.holdsLock = true)
    (hfree : ∀ m, h t.job.name = some m → m = n) :
    Sound names R (h.set t.job.name holder) {feed launch n (.task i e) s with locks := locks} := by
  have htask : ∀ m j, ({feed launch n (.task i e) s with locks := locks} : Deployment lock).task m j =
      if n = m ∧ i = j then some (t.on launch e).1 else s.task m j := task_feed_task e ht
  have hold := task_of_present ht
  have hback : ∀ m j u, ({feed launch n (.task i e) s with locks := locks} : Deployment lock).task m j = some u →
      ∃ t', s.task m j = some t' ∧ u.job = t'.job ∧ (t'.Consistent → u.Consistent) := by
    intro m j u hu
    rw [htask] at hu
    split at hu
    · rename_i hmj
      cases hu
      rw [← hmj.1, ← hmj.2]
      exact ⟨t, hold, t.on_job launch e, Task.consistent_on e⟩
    · exact ⟨u, hu, rfl, fun hc => hc⟩
  refine ⟨hlocks, ?_, ?_, ?_, ?_, ?_⟩
  -- The holder of the name is set as the coroutine now holds it. Other names are not touched.
  · intro x m
    by_cases hx : x = t.job.name
    · subst hx
      rw [Holders.set_self, hholder]
      constructor
      · intro ⟨hm, hholds⟩
        subst hm
        exact ⟨i, _, by rw [htask, if_pos ⟨rfl, rfl⟩], by rw [t.on_job launch e], hholds⟩
      · intro ⟨j, u, hu, hname, hholds⟩
        rw [htask] at hu
        split at hu
        · rename_i hmj
          cases hu
          exact ⟨hmj.1.symm, hholds⟩
        · rename_i hother
          have hm := hfree m ((hs.holders _ m).mpr ⟨j, u, hu, hname, hholds⟩)
          subst hm
          exact absurd ⟨rfl, hs.distinct m i j t u hold hu hname.symm⟩ hother
    · rw [Holders.set_of_ne _ _ _ hx, hs.holders x m]
      constructor
      · intro ⟨j, u, hu, hname, hholds⟩
        refine ⟨j, u, ?_, hname, hholds⟩
        rw [htask, if_neg]
        · exact hu
        · intro hmj
          rw [← hmj.1, ← hmj.2, hold] at hu
          cases hu
          exact hx hname.symm
      · intro ⟨j, u, hu, hname, hholds⟩
        rw [htask] at hu
        split at hu
        · cases hu
          rw [t.on_job launch e] at hname
          exact absurd hname.symm hx
        · exact ⟨j, u, hu, hname, hholds⟩
  · intro m j u hu
    obtain ⟨t', ht', hjob, -⟩ := hback m j u hu
    rw [hjob]
    exact hs.known m j t' ht'
  · intro m j k u v hu hv hname
    obtain ⟨t', ht', hjob, -⟩ := hback m j u hu
    obtain ⟨t'', ht'', hjob', -⟩ := hback m k v hv
    rw [hjob, hjob'] at hname
    exact hs.distinct m j k t' t'' ht' ht'' hname
  · intro m j u hu
    obtain ⟨t', ht', -, hc⟩ := hback m j u hu
    exact hc (hs.consistent m j t' ht')
  · intro m j u hgone hu
    have hgone' : s.isGone m = true := (isGone_feed n (.task i e) m).symm.trans hgone
    rw [htask, if_neg] at hu
    · exact hs.left m j u hgone' hu
    · intro hmj
      unfold present at ht
      rw [hmj.1, if_pos hgone'] at ht
      cases ht

/-- A coroutine that waits for its lock does not find its own scheduler in the table. -/
theorem Sound.other_holder (hs : Sound names R h s) (ht : s.task n i = some t) (hphase : t.phase = .acquiring)
    (hheld : h t.job.name = some m) : m ≠ n := by
  intro hmn
  subst hmn
  obtain ⟨j, u, hu, hname, hholds⟩ := (hs.holders _ m).mp hheld
  have hji := hs.distinct m j i u t hu ht hname
  subst hji
  rw [ht] at hu
  cases hu
  simp [Task.holdsLock, hphase] at hholds

/-- A refusal changes nothing for those that hold the name. -/
theorem sound_refused {locks : lock.State} (hs : Sound names R h s) (ht : s.present n i = some t)
    (hphase : t.phase = .acquiring) (hlocks : R locks h) :
    Sound names R h {feed launch n (.task i (.acquired (some false))) s with locks := locks} := by
  refine sound_quiet (f := fun m j u => if n = m ∧ i = j then (u.on launch (.acquired (some false))).1 else u)
    hs hlocks ?_ ?_ ?_
  · intro m j
    refine (task_feed_task _ ht m j).trans ?_
    split
    · rename_i hmj
      rw [← hmj.1, ← hmj.2, task_of_present ht]
      rfl
    · simp
  · intro m j u hu
    split
    · rename_i hmj
      rw [← hmj.1, ← hmj.2, task_of_present ht] at hu
      cases hu
      refine ⟨t.on_job launch _, ?_, Task.consistent_on _, ?_⟩
      · rw [Task.on_refused hphase]
        simp [Task.holdsLock, hphase]
      · intro _
        rw [Task.on_refused hphase]
        rfl
    · exact .refl u
  · intro m j u hgone hu
    exact hs.left m j u ((isGone_feed n _ m).symm.trans hgone) hu

/-- The lock answers. Where it grants, no other coroutine of the name holds it. -/
theorem sound_acquire (hlock : lock.Keeps names R) (hs : Sound names R h s) (ht : s.present n i = some t)
    (hphase : t.phase = .acquiring) : ∃ h', Sound names R h' (acquire launch n i t s) := by
  have hold := task_of_present ht
  have hname := hs.known n i t hold
  unfold acquire
  cases hheld : h t.job.name with
  | none =>
    obtain ⟨hanswer, hlocks⟩ := hlock.granted n hs.locks hname hheld
    rw [hanswer]
    refine ⟨_, sound_answered hs ht hlocks ?_ ?_⟩
    · intro m
      rw [Task.holdsLock_acquired hphase]
      simp [eq_comm]
    · intro m hm
      rw [hheld] at hm
      cases hm
  | some d =>
    obtain ⟨hanswer, hlocks⟩ := hlock.refused hs.locks hname hheld (hs.other_holder hold hphase hheld)
    rw [hanswer]
    exact ⟨h, sound_refused hs ht hphase hlocks⟩

/-- After a release no child of the coroutine is left, so the name is free for the next. -/
theorem sound_release (hlock : lock.Keeps names R) (hs : Sound names R h s) (ht : s.present n i = some t)
    (hreleasing : t.isReleasing = true) : ∃ h', Sound names R h' (release launch n i t s) := by
  have hold := task_of_present ht
  obtain ⟨hholds, hafter⟩ : t.holdsLock = true ∧ (t.on launch (.released (some ()))).1.holdsLock = false :=
    Task.holdsLock_released hreleasing
  have hheld : h t.job.name = some n := (hs.holders _ n).mpr ⟨i, t, hold, rfl, hholds⟩
  refine ⟨_, sound_answered hs ht (hlock.released hs.locks (hs.known n i t hold) hheld) ?_ ?_⟩
  · intro m
    simp [hafter]
  · intro m hm
    rw [hheld] at hm
    exact (Option.some.inj hm).symm

/-- A new scheduler stands at the end, and its jobs wait for their locks. -/
theorem task_tick {jobs : List Job} (h : (step launch (.tick jobs) s).task n i = some t) :
    s.task n i = some t ∨ n = s.schedulers.length ∧ ∃ job, jobs[i]? = some job ∧ t = .start job := by
  unfold step task at h
  dsimp only at h
  rw [List.getElem?_append] at h
  split at h
  · exact .inl h
  · rename_i hge
    obtain ⟨p, hp, ht⟩ := Option.bind_eq_some_iff.mp h
    rw [List.getElem?_singleton] at hp
    split at hp
    · rename_i hzero
      cases hp
      rw [start, List.getElem?_map, Option.map_eq_some_iff] at ht
      obtain ⟨job, hjob, rfl⟩ := ht
      exact .inr ⟨by omega, job, hjob, rfl⟩
    · cases hp

theorem task_tick_old {jobs : List Job} (h : s.task n i = some t) : (step launch (.tick jobs) s).task n i = some t := by
  obtain ⟨p, hp, ht⟩ := Option.bind_eq_some_iff.mp h
  have hlt := (List.getElem?_eq_some_iff.mp hp).1
  unfold step task
  dsimp only
  rw [List.getElem?_append_left hlt]
  exact h

theorem lt_of_task (h : s.task n i = some t) : n < s.schedulers.length := by
  obtain ⟨p, hp, -⟩ := Option.bind_eq_some_iff.mp h
  exact (List.getElem?_eq_some_iff.mp hp).1

/-- A new process holds nothing. -/
theorem sound_tick (hs : Sound names R h s) {jobs : List Job} (hnodup : (jobs.map Job.name).Nodup)
    (hnames : ∀ job ∈ jobs, job.name ∈ names) : Sound names R h (step launch (.tick jobs) s) := by
  refine ⟨hs.locks, ?_, ?_, ?_, ?_, ?_⟩
  · intro x n
    rw [hs.holders x n]
    constructor
    · intro ⟨i, t, ht, hname, hholds⟩
      exact ⟨i, t, task_tick_old ht, hname, hholds⟩
    · intro ⟨i, t, ht, hname, hholds⟩
      obtain hold | ⟨-, job, -, rfl⟩ := task_tick ht
      · exact ⟨i, t, hold, hname, hholds⟩
      · cases hholds
  · intro n i t ht
    obtain hold | ⟨-, job, hjob, rfl⟩ := task_tick ht
    · exact hs.known n i t hold
    · exact hnames job (List.mem_of_getElem? hjob)
  · intro n i j t u ht hu hname
    obtain hold | ⟨hn, job, hjob, rfl⟩ := task_tick ht
    · obtain hold' | ⟨hn, -⟩ := task_tick hu
      · exact hs.distinct n i j t u hold hold' hname
      · exact absurd (lt_of_task hold) (by omega)
    · obtain hold' | ⟨-, job', hjob', rfl⟩ := task_tick hu
      · exact absurd (lt_of_task hold') (by omega)
      · have hlt : i < (jobs.map Job.name).length := by
          rw [List.length_map]
          exact (List.getElem?_eq_some_iff.mp hjob).1
        apply (List.getElem?_inj hlt hnodup).mp
        rw [List.getElem?_map, List.getElem?_map, hjob, hjob']
        exact congrArg some hname
  · intro n i t ht
    obtain hold | ⟨-, job, -, rfl⟩ := task_tick ht
    · exact hs.consistent n i t hold
    · rfl
  · intro n i t hgone ht
    obtain hold | ⟨hn, -⟩ := task_tick ht
    · refine hs.left n i t ?_ hold
      unfold isGone step at hgone
      dsimp only at hgone
      rwa [List.getElem?_append_left (lt_of_task hold)] at hgone
    · subst hn
      simp [isGone, step] at hgone

theorem task_gone (m n i : Nat) : (step launch (.gone m) s).task n i = s.task n i := by
  unfold step task
  dsimp only
  rw [List.getElem?_modify]
  cases s.schedulers[n]? with
  | none => rfl
  | some p => by_cases hmn : m = n <;> simp [hmn]

/-- A process that ends after its coroutines have returned held nothing. -/
theorem sound_gone (hlock : lock.Keeps names R) (hs : Sound names R h s)
    (hreturned : ∀ i t, s.task n i = some t → t.hasReturned = true) : Sound names R h (step launch (.gone n) s) := by
  have hfree : ∀ x, h x ≠ some n := by
    intro x hx
    obtain ⟨i, t, ht, -, hholds⟩ := (hs.holders x n).mp hx
    obtain ⟨result, hphase⟩ := Task.phase_of_hasReturned (hreturned i t ht)
    simp [Task.holdsLock, hphase] at hholds
  have hlocks : R (lock.close n s.locks) h := by
    have hclosed := hlock.closed n hs.locks
    rwa [Holders.without_of_forall_ne hfree] at hclosed
  refine sound_quiet (f := fun _ _ t => t) hs hlocks ?_ (fun _ _ t _ => .refl t) ?_
  · intro m j
    rw [task_gone, Option.map_id']
  · intro m j t hgone ht
    by_cases hnm : n = m
    · subst hnm
      exact hreturned j t ht
    · refine hs.left m j t ?_ ht
      unfold isGone step at hgone
      dsimp only at hgone
      rw [List.getElem?_modify] at hgone
      simp only [hnm, if_false, Option.map_eq_map, Option.map_id_fun', id_eq] at hgone
      exact hgone

/-- One step keeps the books, one case for each input. -/
theorem step_sound (hlock : lock.Keeps names R) (input : Input) (s : Deployment lock)
    (hrule : Undisturbed names input s) (hs : AllGathered s ∧ ∃ h, Sound names R h s) :
    AllGathered (step launch input s) ∧ ∃ h, Sound names R h (step launch input s) := by
  obtain ⟨hgathered, h, hs⟩ := hs
  refine ⟨step_allGathered input s hgathered, ?_⟩
  cases input with
  | tick jobs => exact ⟨h, sound_tick hs hrule.1 hrule.2⟩
  | acquire n i =>
    rw [step]
    split
    · exact ⟨h, hs⟩
    · rename_i t ht
      split
      · rename_i hphase
        exact sound_acquire hlock hs ht hphase
      · exact ⟨h, hs⟩
  | release n i =>
    rw [step]
    split
    · exact ⟨h, hs⟩
    · rename_i t ht
      split
      · rename_i hreleasing
        exact sound_release hlock hs ht hreleasing
      · exact ⟨h, hs⟩
  | raises n i => exact hrule.elim
  | within n input =>
    rw [step]
    split
    · exact ⟨h, hs⟩
    · rename_i hinput
      exact ⟨h, sound_within hs n (Bool.eq_false_of_not_eq_true hinput)⟩
  | gone n => exact ⟨h, sound_gone hlock hs fun i t ht => returned_of_done hgathered hrule ht⟩

theorem sound_empty (hlock : lock.Keeps names R) : Sound names R .none (empty : Deployment lock) where
  locks := hlock.init
  holders _ _ := ⟨fun hh => absurd hh (Option.some_ne_none _).symm,
    fun ⟨_, _, ht, _⟩ => absurd ht (Option.some_ne_none _).symm⟩
  known _ _ _ ht := absurd ht (Option.some_ne_none _).symm
  distinct _ _ _ _ _ ht := absurd ht (Option.some_ne_none _).symm
  consistent _ _ _ ht := absurd ht (Option.some_ne_none _).symm
  left _ _ _ _ ht := absurd ht (Option.some_ne_none _).symm

/-- Two live children of one name would both hold it. -/
theorem noOverlap_of_sound (hlock : lock.Keeps names R) (hs : Sound names R h s) : NoOverlap names s where
  single n i m j t u ht hu halive halive' hname := by
    have hn := (hs.holders _ n).mpr ⟨i, t, ht, rfl, Task.alive_phase (hs.consistent n i t ht) halive⟩
    have hm := (hs.holders _ m).mpr ⟨j, u, hu, hname.symm, Task.alive_phase (hs.consistent m j u hu) halive'⟩
    have hnm : n = m := Option.some.inj (hn.symm.trans hm)
    subst hnm
    exact ⟨rfl, hs.distinct n i j t u ht hu hname⟩
  guarded n i t c ht halive hc := by
    have hn := (hs.holders _ n).mpr ⟨i, t, ht, rfl, Task.alive_phase (hs.consistent n i t ht) halive⟩
    exact (hlock.refused hs.locks (hs.known n i t ht) hn (Ne.symm hc)).1
  ended n i t ht hreturned := by
    obtain ⟨result, hphase⟩ := Task.phase_of_hasReturned hreturned
    have hc := hs.consistent n i t ht
    unfold Task.Consistent at hc
    rw [hphase] at hc
    exact ⟨hc, by rw [Task.holdsLock, hphase]⟩
  freed name hname hfree c := by
    have hnone : h name = none := by
      rw [← Option.not_isSome_iff_eq_none, Option.isSome_iff_exists]
      intro ⟨n, hn⟩
      obtain ⟨i, t, ht, hjob, hholds⟩ := (hs.holders name n).mp hn
      exact hfree ⟨n, i, t, ht, hjob, hholds⟩
    exact (hlock.granted c hs.locks hname hnone).1

/-! ### A job that is skipped -/

/-- The coroutine stays what it is. -/
def Settled (n i : Nat) (t : Task) (s : Deployment lock) : Prop := s.task n i = some t

theorem settled_feed (hreturned : t.hasReturned = true) (hchild : t.child = none) (m : Nat) (input : Executor.Input)
    (hs : Settled n i t s) : Settled n i t (feed launch m input s) := by
  have hafter : ∀ events : List (Event ⊕ Process.Event), t.after launch events = t := by
    intro events
    induction events with
    | nil => rfl
    | cons e rest ih =>
      cases e with
      | inl e => rw [Task.after, Task.on_of_hasReturned e hreturned, ih]
      | inr e =>
        have hsame : t.onProcess e = t := by
          cases t
          simp_all [Task.onProcess]
        rw [Task.after, hsame, ih]
  unfold Settled at hs ⊢
  by_cases hmn : m = n
  · rw [hmn, task_feed, hs, Option.map_some, hafter]
  · rw [task_feed_of_ne _ hmn, hs]

theorem step_settled (hreturned : t.hasReturned = true) (hchild : t.child = none) (input : Input) (s : Deployment lock)
    (hs : Settled n i t s) : Settled n i t (step launch input s) := by
  cases input with
  | tick jobs => exact task_tick_old hs
  | acquire m j =>
    rw [step]
    split
    · exact hs
    · split
      · exact settled_feed (s := s) hreturned hchild m _ hs
      · exact hs
  | release m j =>
    rw [step]
    split
    · exact hs
    · split
      · exact settled_feed (s := s) hreturned hchild m _ hs
      · exact hs
  | raises m j => exact settled_feed hreturned hchild m _ (settled_feed hreturned hchild m _ hs)
  | within m input =>
    rw [step]
    split
    · exact hs
    · exact settled_feed hreturned hchild m _ hs
  | gone m => exact (task_gone m n i).trans hs

/-- A name that is held is refused, and the job is skipped. -/
theorem task_skipped (hlock : lock.Keeps names R) (hs : Sound names R h s) (ht : s.task n i = some t)
    (hphase : t.phase = .acquiring) (hlocked : s.Locked t.job.name) :
    (step launch (.acquire n i) s).task n i = some ⟨t.job, .ended (.ok ⟨t.job, .skipped, none⟩), none⟩ := by
  have hpresent := hs.present_of_task ht (by rw [Task.hasReturned, hphase])
  obtain ⟨m, j, u, hu, hname, hholds⟩ := hlocked
  have hheld : h t.job.name = some m := (hs.holders _ m).mpr ⟨j, u, hu, hname, hholds⟩
  have hanswer := (hlock.refused hs.locks (hs.known n i t ht) hheld (hs.other_holder ht hphase hheld)).1
  have hchild : t.child = none := by
    have hc := hs.consistent n i t ht
    unfold Task.Consistent at hc
    rwa [hphase] at hc
  rw [step, hpresent]
  dsimp only
  rw [if_pos hphase, acquire, hanswer]
  refine (task_feed_task _ hpresent n i).trans ?_
  rw [if_pos ⟨rfl, rfl⟩, Task.on_refused hphase, hchild]

/-- **No job overlaps itself**: with any number of schedulers, of which none dies, over a lock
that never raises, at most one child of a name is alive, a job that finds its lock taken
is skipped and starts nothing, and the lock is free when no job of the name is inside. -/
theorem no_job_overlaps (conf : LockConfig) (launch : Launch) {names : Set String} (hapart : conf.Apart names)
    {inputs : List Input}
    (hrule : (machine launch).Admissible (Undisturbed names) (empty : Deployment (jobLock conf)) inputs) :
    NoOverlap names (after launch conf inputs) ∧
    ∀ n i t, (after launch conf inputs).task n i = some t → t.phase = .acquiring →
      (after launch conf inputs).Locked t.job.name →
      ∀ rest, (after launch conf (inputs ++ .acquire n i :: rest)).task n i =
        some ⟨t.job, .ended (.ok ⟨t.job, .skipped, none⟩), none⟩ := by
  obtain ⟨R, hlock⟩ := jobLock_keeps hapart
  have hempty : AllGathered (empty : Deployment (jobLock conf)) := fun n p hp => absurd hp (Option.some_ne_none p).symm
  obtain ⟨-, h, hs⟩ := Machine.invariant (step_sound hlock) ⟨hempty, _, sound_empty hlock⟩ hrule
  refine ⟨noOverlap_of_sound hlock hs, ?_⟩
  intro n i t ht hphase hlocked rest
  rw [after, Machine.run_append]
  have hskipped : Settled n i ⟨t.job, .ended (.ok ⟨t.job, .skipped, none⟩), none⟩ (step launch (.acquire n i) _) :=
    task_skipped hlock hs ht hphase hlocked
  exact Machine.invariant_all (step_settled rfl rfl) hskipped rest

/-- SQLite, beside `app.db`. No name below has a character that is replaced, so that no digest is asked for. -/
def besideDatabase : LockConfig := ⟨.sqlite, "app.db", fun _ _ => 0, id⟩

/-- Two ticks, while the child of the first one runs on. -/
def twoTicks : List Input :=
  [.tick [nightly], .acquire 0 0, .within 0 (.task 0 (.created .started)), .within 0 (.task 0 .resumed),
    .tick [nightly, hourly]]

theorem besideDatabase_apart : besideDatabase.Apart {"nightly", "hourly"} := by
  show Set.InjOn _ _
  intro x hx y hy heq
  have hne : FileLocks.path id "app.db" "nightly" ≠ FileLocks.path id "app.db" "hourly" := by decide +kernel
  obtain rfl | rfl := hx <;> obtain rfl | rfl := hy
  · rfl
  · exact absurd heq hne
  · exact absurd heq.symm hne
  · rfl

theorem twoTicks_undisturbed : (machine appLaunch).Admissible (Undisturbed {"nightly", "hourly"})
    (empty : Deployment (jobLock besideDatabase)) twoTicks := by
  refine ⟨⟨?_, ?_⟩, trivial, trivial, trivial, ⟨?_, ?_⟩, trivial⟩
  · decide
  · simp [nightly]
  · decide
  · simp [nightly, hourly]

/-- The second tick skips the job that is still running. -/
theorem second_tick_skips : (after appLaunch besideDatabase (twoTicks ++ [.acquire 1 0])).task 1 0 =
    some ⟨nightly, .ended (.ok ⟨nightly, .skipped, none⟩), none⟩ :=
  (no_job_overlaps besideDatabase appLaunch besideDatabase_apart twoTicks_undisturbed).2 1 0 (.start nightly) rfl rfl
    ⟨0, 0, ⟨nightly, .waiting, some .running⟩, rfl, rfl, rfl⟩ []

end Deployment

end PyAppRunner.Cron
