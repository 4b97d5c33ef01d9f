import PyAppRunner.Cron.Executor

/-! What is left running when a run ends.

`gather` hands the first exception to its caller at once, and the other coroutines go on
without anybody waiting for them: the run ends, the connection that holds the locks is
closed, and their children run on. Nothing else can go wrong. While no exception leaves
`_run_one` the run ends when the last child has, with every job's own outcome; what
one job's steps come to is at no time the business of another job. -/
namespace PyAppRunner.Cron
open Base Executor

variable {launch : Launch} {jobs : List Job} {s : Executor} {i j : Nat} {t : Task}

namespace Task

/-- The child is there when the coroutine waits for it, and gone when it has stopped waiting. -/
def Consistent (t : Task) : Prop :=
  match t.phase with
  | .acquiring | .starting _ => t.child = none
  | .created | .waiting | .terminating | .killing => t.child ≠ none
  | .releasing _ | .ended _ => t.alive = false

/-- The job's lock was taken and not given back. -/
def holdsLock (t : Task) : Bool :=
  match t.phase with
  | .acquiring | .ended _ => false
  | _ => true

/-- An exception is on its way out of `_run_one`, or has left it. -/
def failing (t : Task) : Bool :=
  match t.phase with
  | .releasing (.error _) | .ended (.error _) => true
  | _ => false

/-- What the coroutine and its child come to, by what happens to these two. -/
def after (launch : Launch) (t : Task) : List (Event ⊕ Process.Event) → Task
  | [] => t
  | .inl e :: rest => after launch (t.on launch e).1 rest
  | .inr e :: rest => after launch (t.onProcess e) rest

theorem not_alive_of_returncode {code : Int} (h : t.returncode = some code) : t.alive = false := by
  unfold alive
  rw [decide_eq_false_iff_not]
  intro hchild
  simp [returncode, hchild, Process.returncode] at h

/-- A child that is gone does not run. -/
theorem not_alive_of_gone (h : t.gone = true) : t.alive = false := by
  unfold alive
  rw [decide_eq_false_iff_not]
  intro hchild
  simp [gone, hchild, Process.isClosed] at h

theorem consistent_afterWait (outcome : Int → Outcome) (h : t.Consistent) : (t.afterWait outcome).1.Consistent := by
  unfold afterWait
  split
  · exact h
  · rename_i code hcode
    exact not_alive_of_returncode (t := t) hcode

theorem consistent_signalled {next : Phase} {effect : Effect} (h : ({t with phase := next} : Task).Consistent) :
    (t.signalled next effect).1.Consistent := by
  unfold signalled
  split
  · rename_i hgone
    exact not_alive_of_gone (t := t) hgone
  · exact h

theorem consistent_on (e : Event) (h : t.Consistent) : (t.on launch e).1.Consistent := by
  have hphase := h
  unfold Consistent at hphase
  fun_cases on launch e t <;>
    first
    | exact h
    | exact consistent_afterWait _ h
    | (apply consistent_signalled; simp_all [Consistent])
    | simp_all [Consistent, alive]

theorem child_onProcess_none (e : Process.Event) (t : Task) : (t.onProcess e).child = none ↔ t.child = none := by
  simp [onProcess]

theorem onProcess_not_alive (e : Process.Event) (h : t.alive = false) : (t.onProcess e).alive = false := by
  rw [← Bool.not_eq_true]
  intro halive
  exact Bool.noConfusion (h.symm.trans (t.alive_of_onProcess e halive))

theorem consistent_onProcess (e : Process.Event) (h : t.Consistent) : (t.onProcess e).Consistent := by
  have hphase : (t.onProcess e).phase = t.phase := rfl
  unfold Consistent at h ⊢
  rw [hphase]
  split at h
  · exact (child_onProcess_none e t).mpr h
  · exact (child_onProcess_none e t).mpr h
  all_goals first
    | exact fun hnone => h ((child_onProcess_none e t).mp hnone)
    | exact onProcess_not_alive e h

/-- A task that fails goes on failing. -/
theorem failing_on (e : Event) (h : t.failing = true) : (t.on launch e).1.failing = true := by
  unfold failing at h
  split at h
  · rename_i f hphase
    fun_cases on launch e t <;> simp_all [failing]
  · rename_i f hphase
    fun_cases on launch e t <;> simp_all [failing]
  · cases h

/-- A child runs only while its task holds the lock. -/
theorem alive_phase (h : t.Consistent) (halive : t.alive = true) : t.holdsLock = true := by
  have hchild : t.child = some .running := by simpa [alive] using halive
  unfold Consistent at h
  unfold holdsLock
  split at h <;> simp_all

/-- A task that fails has no child that runs. -/
theorem failing_not_alive (h : t.Consistent) (hfailing : t.failing = true) : t.alive = false := by
  unfold failing at hfailing
  unfold Consistent at h
  split at hfailing <;> simp_all

theorem failing_of_failure {f : Failure} (h : t.failure = some f) : t.failing = true := by
  unfold failure at h
  split at h <;> simp_all [failing]

theorem not_failing_of_outcome {o : Outcome} (h : t.outcome = some o) :
    t.phase = .ended (.ok o) ∧ t.failing = false := by
  unfold outcome at h
  split at h
  · rename_i o' hphase
    cases h
    exact ⟨hphase, by rw [failing, hphase]⟩
  · cases h

end Task

namespace Executor

/-- What happens to one job and its child. -/
def own (j : Nat) : Input → Option (Event ⊕ Process.Event)
  | .task i e => if i = j then some (.inl e) else none
  | .child i e => if i = j then some (.inr e) else none
  | _ => none

/-- A run that has ended left no child and no outcome behind, and a child that lives has
its lock. -/
structure Contained (s : Executor) : Prop where
  last : s.ended = true → ∀ (i : Nat) (t : Task), s.tasks[i]? = some t → t.alive = false
  locked : ∀ (i : Nat) (t : Task), s.tasks[i]? = some t → t.alive = true → t.holdsLock = true
  reported : s.ended = true → ∀ (i : Nat) (t : Task) (o : Outcome), s.tasks[i]? = some t → t.outcome = some o →
    ∃ outcomes, s.gathered = some (.ok outcomes) ∧ outcomes[i]? = some o

/-- The step lets an exception out of `_run_one`, the first of the run. -/
def Raises (launch : Launch) (i : Nat) (e : Event) (s : Executor) : Prop :=
  s.gathered = none ∧ ∃ t, s.tasks[i]? = some t ∧ (t.on launch e).1.failure.isSome = true

/-- Every job but the one at `i` is failing too. -/
def OthersFailing (i : Nat) (s : Executor) : Prop :=
  ∀ (j : Nat) (t : Task), j ≠ i → s.tasks[j]? = some t → t.failing = true

/-- The first exception leaves no job behind that could still have an outcome. -/
def FailsLast (launch : Launch) : Input → Executor → Prop
  | .task i e, s => Raises launch i e s → OthersFailing i s
  | _, _ => True

/-- What was gathered, and where the coroutines are. -/
def Gathering (s : Executor) : Prop :=
  match s.gathered with
  | none => s.ended = false ∧ ∀ (i : Nat) (t : Task), s.tasks[i]? = some t → t.failure = none
  | some (.ok outcomes) => ∀ (i : Nat) (t : Task), s.tasks[i]? = some t → ∃ o, t.outcome = some o ∧ outcomes[i]? = some o
  | some (.error _) => ∀ (i : Nat) (t : Task), s.tasks[i]? = some t → t.failing = true

/-- The tasks are in order, and what was gathered agrees with them. -/
structure Orderly (s : Executor) : Prop where
  consistent : ∀ (i : Nat) (t : Task), s.tasks[i]? = some t → t.Consistent
  gathering : Gathering s

end Executor

/-! ### Every job for itself -/

/-- What an input does to a task: its own events, and nothing else. -/
theorem getElem?_step (input : Input) (s : Executor) (j : Nat) : (step launch input s).tasks[j]? =
    (s.tasks[j]?).map (fun t => t.after launch (own j input).toList) := by
  cases input with
  | task i e =>
    rw [step, getElem?_resume, own]
    split <;> simp [Task.after]
  | child i e =>
    rw [step, getElem?_childEvent, own]
    split <;> simp [Task.after]
  | stop => simp [step, stop, own, Task.after]
  | returns => simp [step, own, Task.after]

theorem after_append (t : Task) (a b : List (Event ⊕ Process.Event)) :
    t.after launch (a ++ b) = (t.after launch a).after launch b := by
  induction a generalizing t with
  | nil => rfl
  | cons x rest ih =>
    cases x with
    | inl e => exact ih _
    | inr e => exact ih _

/-- A job comes to what its own steps make of it, whatever happens to the others. -/
theorem getElem?_run (inputs : List Input) (s : Executor) (j : Nat) :
    ((machine launch).run s inputs).tasks[j]? =
      (s.tasks[j]?).map (fun t => t.after launch (inputs.filterMap (own j))) := by
  induction inputs generalizing s with
  | nil => simp [Machine.run, Task.after]
  | cons input rest ih =>
    have hown : (input :: rest).filterMap (own j) = (own j input).toList ++ rest.filterMap (own j) := by
      rw [List.filterMap_cons]
      cases own j input <;> rfl
    have hstep : ((machine launch).step input s).tasks[j]? = _ := getElem?_step input s j
    rw [Machine.run, ih, hstep, Option.map_map, hown]
    congr 1
    funext t
    exact (after_append t _ _).symm

/-! ### Until the first exception -/

theorem getElem?_of_mapM {outcomes : List Outcome} {tasks : List Task} (h : tasks.mapM Task.outcome = some outcomes)
    (ht : tasks[i]? = some t) : ∃ o, t.outcome = some o ∧ outcomes[i]? = some o := by
  induction tasks generalizing outcomes i with
  | nil => cases ht
  | cons u rest ih =>
    rw [List.mapM_cons] at h
    simp only [Option.pure_def, Option.bind_eq_bind, Option.bind_eq_some_iff, Option.some.injEq] at h
    obtain ⟨o, ho, os, hos, rfl⟩ := h
    cases i with
    | zero =>
      cases ht
      exact ⟨o, ho, rfl⟩
    | succ i =>
      obtain ⟨o', ho', hget⟩ := ih hos ht
      exact ⟨o', ho', hget⟩

/-- With a failed task among them, `gather` raises. -/
theorem gathers_of_failure {f : Failure} {tasks : List Task} (ht : tasks[i]? = some t) (hf : t.failure = some f) :
    ∃ f', gathers tasks = some (.error f') := by
  unfold gathers
  split
  · exact ⟨_, rfl⟩
  · rename_i hnone
    rw [List.findSome?_eq_none_iff] at hnone
    have := hnone t (List.mem_of_getElem? ht)
    rw [hf] at this
    cases this

/-- While nobody has failed, it waits. -/
theorem gathering_of_none (hended : s.ended = false) (h : ∀ (i : Nat) (t : Task), s.tasks[i]? = some t → t.failure = none) :
    Gathering {s with gathered := gathers s.tasks} := by
  have hfind : s.tasks.findSome? Task.failure = none := by
    rw [List.findSome?_eq_none_iff]
    intro t hmem
    obtain ⟨i, ht⟩ := List.mem_iff_getElem?.mp hmem
    exact h i t ht
  have hgathers : gathers s.tasks = (s.tasks.mapM Task.outcome).map .ok := by rw [gathers, hfind]
  unfold Gathering
  cases hall : s.tasks.mapM Task.outcome with
  | none =>
    rw [hgathers, hall]
    exact ⟨hended, h⟩
  | some outcomes =>
    rw [hgathers, hall]
    exact fun i t ht => getElem?_of_mapM hall ht

/-- It raises once. -/
theorem resume_gathered (e : Event) (ht : s.tasks[i]? = some t) : (resume launch i e s).gathered =
    (s.gathered <|> gathers (resume launch i e s).tasks) := by
  rw [resume_of_some e ht]
  simp [gather]

theorem resume_ended (i : Nat) (e : Event) : (resume launch i e s).ended = s.ended := by
  cases ht : s.tasks[i]? with
  | none => rw [resume_of_none e ht]
  | some t =>
    rw [resume_of_some e ht]
    simp [gather]

/-- A job that has ended takes no more steps. -/
theorem on_of_outcome {o : Outcome} (e : Event) (h : t.outcome = some o) : (t.on launch e).1 = t := by
  obtain ⟨hphase, -⟩ := Task.not_failing_of_outcome h
  unfold Task.on
  rw [hphase]

/-- What is known of every job stays known of every job, if the step keeps it for its own. -/
theorem forall_resume {P : Nat → Task → Prop} (e : Event) (h : ∀ (j : Nat) (t : Task), s.tasks[j]? = some t → P j t)
    (hstep : ∀ t, s.tasks[i]? = some t → P i t → P i (t.on launch e).1) :
    ∀ (j : Nat) (t : Task), (resume launch i e s).tasks[j]? = some t → P j t := by
  intro j t ht
  rw [getElem?_resume] at ht
  split at ht
  · rename_i hij
    subst hij
    obtain ⟨u, hu, rfl⟩ := Option.map_eq_some_iff.mp ht
    exact hstep u hu (h i u hu)
  · exact h j t ht

theorem forall_childEvent {P : Nat → Task → Prop} (e : Process.Event)
    (h : ∀ (j : Nat) (t : Task), s.tasks[j]? = some t → P j t)
    (hstep : ∀ t, s.tasks[i]? = some t → P i t → P i (t.onProcess e)) :
    ∀ (j : Nat) (t : Task), (childEvent i e s).tasks[j]? = some t → P j t := by
  intro j t ht
  rw [getElem?_childEvent] at ht
  split at ht
  · rename_i hij
    subst hij
    obtain ⟨u, hu, rfl⟩ := Option.map_eq_some_iff.mp ht
    exact hstep u hu (h i u hu)
  · exact h j t ht

/-- The first exception ends the gathering; up to there, nothing was lost. -/
theorem gathering_first (e : Event) (ht : s.tasks[i]? = some t) (hnone : s.gathered = none)
    (hended : s.ended = false) (h : ∀ (j : Nat) (t : Task), s.tasks[j]? = some t → t.failure = none)
    (hlast : Raises launch i e s → OthersFailing i s) : Gathering (resume launch i e s) := by
  have hgathered : (resume launch i e s).gathered = gathers (resume launch i e s).tasks := by
    rw [resume_gathered e ht, hnone]
    rfl
  have htask : (resume launch i e s).tasks[i]? = some (t.on launch e).1 := by
    rw [getElem?_resume, if_pos rfl, ht]
    rfl
  cases hf : (t.on launch e).1.failure with
  | none =>
    have hkept : ∀ (j : Nat) (t : Task), (resume launch i e s).tasks[j]? = some t → t.failure = none := by
      refine forall_resume (P := fun _ t => t.failure = none) e h ?_
      intro u hu _
      rw [ht] at hu
      cases hu
      exact hf
    have hg := gathering_of_none (s := resume launch i e s) (by rwa [resume_ended]) hkept
    rwa [← hgathered] at hg
  | some f =>
    have hothers := hlast ⟨hnone, t, ht, by rw [hf]; rfl⟩
    obtain ⟨f', hf'⟩ := gathers_of_failure htask hf
    unfold Gathering
    rw [hgathered, hf']
    intro j u hu
    by_cases hji : j = i
    · subst hji
      rw [htask] at hu
      cases hu
      exact Task.failing_of_failure hf
    · rw [getElem?_resume, if_neg (Ne.symm hji)] at hu
      exact hothers j u hji hu

/-- A task that fails last leaves nobody behind. -/
theorem gathering_resume (i : Nat) (e : Event) (h : Gathering s) (hlast : Raises launch i e s → OthersFailing i s) :
    Gathering (resume launch i e s) := by
  cases ht : s.tasks[i]? with
  | none => rwa [resume_of_none e ht]
  | some t =>
    have hgathered : (resume launch i e s).gathered = _ := resume_gathered e ht
    unfold Gathering at h
    split at h
    · rename_i hnone
      exact gathering_first e ht hnone h.1 h.2 hlast
    · rename_i outcomes hsome
      unfold Gathering
      rw [hgathered, hsome]
      refine forall_resume (P := fun j t => ∃ o, t.outcome = some o ∧ outcomes[j]? = some o) e h ?_
      intro u _ ⟨o, ho, hget⟩
      rw [on_of_outcome e ho]
      exact ⟨o, ho, hget⟩
    · rename_i f hsome
      unfold Gathering
      rw [hgathered, hsome]
      exact forall_resume (P := fun _ t => t.failing = true) e h fun u _ hu => Task.failing_on e hu

theorem gathering_childEvent (i : Nat) (e : Process.Event) (h : Gathering s) : Gathering (childEvent i e s) := by
  unfold Gathering at h ⊢
  rw [show (childEvent i e s).gathered = s.gathered from rfl]
  split at h
  · exact ⟨h.1, forall_childEvent (P := fun _ t => t.failure = none) e h.2 fun _ _ hu => hu⟩
  · rename_i outcomes hsome
    exact forall_childEvent (P := fun j t => ∃ o, t.outcome = some o ∧ outcomes[j]? = some o) e h fun _ _ hu => hu
  · exact forall_childEvent (P := fun _ t => t.failing = true) e h fun _ _ hu => hu

/-- **One input**, if a task fails only after the others did. -/
theorem step_orderly (input : Input) (s : Executor) (hlast : FailsLast launch input s) (h : Orderly s) :
    Orderly (step launch input s) := by
  cases input with
  | task i e =>
    refine ⟨?_, gathering_resume i e h.gathering hlast⟩
    exact forall_resume (P := fun _ t => t.Consistent) e h.consistent fun _ _ hu => Task.consistent_on e hu
  | child i e =>
    refine ⟨?_, gathering_childEvent i e h.gathering⟩
    exact forall_childEvent (P := fun _ t => t.Consistent) e h.consistent fun _ _ hu => Task.consistent_onProcess e hu
  | stop => exact ⟨h.consistent, h.gathering⟩
  | returns =>
    refine ⟨h.consistent, ?_⟩
    have hg := h.gathering
    unfold Gathering at hg ⊢
    cases hgathered : s.gathered with
    | none =>
      rw [hgathered] at hg
      simp only [step, hgathered]
      exact ⟨by simp [hg.1], hg.2⟩
    | some result =>
      rw [hgathered] at hg
      simp only [step, hgathered]
      cases result with
      | ok outcomes => exact hg
      | error f => exact hg

theorem orderly_start (jobs : List Job) : Orderly (start jobs) := by
  have htask : ∀ (i : Nat) (t : Task), (start jobs).tasks[i]? = some t → ∃ job, t = Task.start job := by
    intro i t ht
    rw [start, List.getElem?_map, Option.map_eq_some_iff] at ht
    obtain ⟨job, -, rfl⟩ := ht
    exact ⟨job, rfl⟩
  refine ⟨?_, ?_⟩
  · intro i t ht
    obtain ⟨job, rfl⟩ := htask i t ht
    rfl
  · refine gathering_of_none (s := start jobs) rfl ?_
    intro i t ht
    obtain ⟨job, rfl⟩ := htask i t ht
    rfl

/-- An orderly executor has contained every failure. -/
theorem contained_of_orderly (h : Orderly s) : Contained s := by
  have hg := h.gathering
  unfold Gathering at hg
  refine ⟨?_, fun i t ht halive => Task.alive_phase (h.consistent i t ht) halive, ?_⟩
  · intro hended i t ht
    split at hg
    · exact Bool.noConfusion (hended.symm.trans hg.1)
    · obtain ⟨o, ho, -⟩ := hg i t ht
      have hc := h.consistent i t ht
      unfold Task.Consistent at hc
      rwa [(Task.not_failing_of_outcome ho).1] at hc
    · exact Task.failing_not_alive (h.consistent i t ht) (hg i t ht)
  · intro hended i t o ht ho
    split at hg
    · exact Bool.noConfusion (hended.symm.trans hg.1)
    · rename_i outcomes hsome
      obtain ⟨o', ho', hget⟩ := hg i t ht
      rw [ho] at ho'
      cases ho'
      exact ⟨outcomes, hsome, hget⟩
    · exact Bool.noConfusion ((hg i t ht).symm.trans (Task.not_failing_of_outcome ho).2)

/-! ### After the first exception -/

/-- What takes any job that is not failing to an outcome: its child ends, its lock is refused
or given back, and no child is started. -/
def finishing : List (Event ⊕ Process.Event) :=
  [.inr (.exits 0), .inr .reaped, .inl (.acquired (some false)), .inl (.created .osError), .inl .resumed,
    .inl .waited, .inl (.released (some ()))]

/-- The same as inputs of the executor. -/
def finish (j : Nat) : List Input :=
  [.child j (.exits 0), .child j .reaped, .task j (.acquired (some false)), .task j (.created .osError),
    .task j .resumed, .task j .waited, .task j (.released (some ()))]

/-- What a task needs to come to its end, whatever it is waiting for. -/
theorem own_finish (j : Nat) : (finish j).filterMap (own j) = finishing := by
  simp [finish, finishing, own]

theorem returncode_of_exited (h : t.child ≠ none) :
    ∃ code, ((t.onProcess (.exits 0)).onProcess .reaped).returncode = some code := by
  obtain ⟨p, hp⟩ := Option.ne_none_iff_exists'.mp h
  cases p with
  | running => exact ⟨0, by simp [Task.onProcess, Task.returncode, hp, Process.on, Process.returncode]⟩
  | exited code => exact ⟨code, by simp [Task.onProcess, Task.returncode, hp, Process.on, Process.returncode]⟩
  | reaped code => exact ⟨code, by simp [Task.onProcess, Task.returncode, hp, Process.on, Process.returncode]⟩
  | closed code => exact ⟨code, by simp [Task.onProcess, Task.returncode, hp, Process.on, Process.returncode]⟩

/-- With that, it has an outcome. -/
theorem finishing_outcome (h : t.Consistent) (hnot : t.failing = false) :
    ∃ o, (t.after launch finishing).outcome = some o := by
  have hafter : t.after launch finishing = ((t.onProcess (.exits 0)).onProcess .reaped).after launch
      [.inl (.acquired (some false)), .inl (.created .osError), .inl .resumed, .inl .waited,
        .inl (.released (some ()))] := rfl
  have hphase : ((t.onProcess (.exits 0)).onProcess .reaped).phase = t.phase := rfl
  have hcode : t.child ≠ none → ∃ code, ((t.onProcess (.exits 0)).onProcess .reaped).returncode = some code :=
    returncode_of_exited
  rw [hafter]
  generalize (t.onProcess (.exits 0)).onProcess .reaped = u at hphase hcode
  unfold Task.Consistent at h
  unfold Task.failing at hnot
  cases ht : t.phase with
  | acquiring =>
    rw [ht] at hphase
    simp [Task.after, Task.on, hphase, Task.outcome]
  | starting argv =>
    rw [ht] at hphase
    simp [Task.after, Task.on, hphase, Task.outcome]
  | releasing result =>
    rw [ht] at hphase hnot
    cases result with
    | error f => cases hnot
    | ok o => simp [Task.after, Task.on, hphase, Task.outcome]
  | ended result =>
    rw [ht] at hphase hnot
    cases result with
    | error f => cases hnot
    | ok o => simp [Task.after, Task.on, hphase, Task.outcome]
  | _ =>
    rw [ht] at hphase h
    obtain ⟨code, hcode⟩ := hcode h
    have hreturn : ∀ p, Task.returncode {u with phase := p} = some code := fun _ => hcode
    simp [Task.after, Task.on, hphase, Task.afterWait, hreturn, Task.outcome]

/-- Once it is gathered, an exception is what the run ends with. -/
structure Lost (f : Failure) (s : Executor) : Prop where
  ended : s.ended = true
  gathered : s.gathered = some (.error f)

/-- After the exception `run` has returned, and nothing brings it back. -/
theorem step_lost {f : Failure} (input : Input) (s : Executor) (h : Lost f s) : Lost f (step launch input s) := by
  cases input with
  | task i e =>
    rw [step]
    cases ht : s.tasks[i]? with
    | none => rwa [resume_of_none e ht]
    | some t =>
      refine ⟨(resume_ended i e).trans h.ended, ?_⟩
      rw [resume_gathered e ht, h.gathered]
      rfl
  | child i e => exact ⟨h.ended, h.gathered⟩
  | stop => exact ⟨h.ended, h.gathered⟩
  | returns => exact ⟨by simp [step, h.ended], h.gathered⟩

/-- **The first exception ends `run`** with other tasks at work. -/
theorem lost_of_raises {e : Event} (h : Raises launch i e s) :
    ∃ f, Lost f ((machine launch).run s [.task i e, .returns]) := by
  obtain ⟨hnone, t, ht, hsome⟩ := h
  obtain ⟨f, hf⟩ := Option.isSome_iff_exists.mp hsome
  have htask : (resume launch i e s).tasks[i]? = some (t.on launch e).1 := by
    rw [getElem?_resume, if_pos rfl, ht]
    rfl
  obtain ⟨f', hf'⟩ := gathers_of_failure htask hf
  have hgathered : (resume launch i e s).gathered = some (.error f') := by
    rw [resume_gathered e ht, hnone, hf']
    rfl
  refine ⟨f', ?_, hgathered⟩
  show ((resume launch i e s).ended || (resume launch i e s).gathered.isSome) = true
  rw [hgathered]
  simp

/-- A job that is not failing when the first exception is raised comes to an outcome that
nobody gets. -/
theorem othersFailing_of_contained {e : Event} (hc : ∀ (i : Nat) (t : Task), s.tasks[i]? = some t → t.Consistent)
    (hraises : Raises launch i e s) (h : ∀ after, Contained ((machine launch).run s (.task i e :: after))) :
    OthersFailing i s := by
  intro j t hji ht
  rw [← Bool.not_eq_false]
  intro hnot
  obtain ⟨o, ho⟩ : ∃ o, (t.after launch finishing).outcome = some o := finishing_outcome (hc j t ht) hnot
  obtain ⟨f, hlost⟩ := lost_of_raises hraises
  have hrun : (machine launch).run s (.task i e :: (.returns :: finish j)) =
      (machine launch).run ((machine launch).run s [.task i e, .returns]) (finish j) := rfl
  have hend : Lost f ((machine launch).run s (.task i e :: (.returns :: finish j))) := by
    rw [hrun]
    exact Machine.invariant_all step_lost hlost (finish j)
  have htask : ((machine launch).run s (.task i e :: (.returns :: finish j))).tasks[j]? =
      some (t.after launch finishing) := by
    have hown : (.task i e :: (.returns :: finish j)).filterMap (own j) = finishing := by
      rw [List.filterMap_cons_none (by simp [own, Ne.symm hji]), List.filterMap_cons_none rfl, own_finish]
    rw [getElem?_run, ht, hown]
    rfl
  obtain ⟨outcomes, hok, -⟩ := (h (.returns :: finish j)).reported hend.ended j _ o htask ho
  rw [hend.gathered] at hok
  cases hok

/-- While nothing is gathered, no exception has left a job. -/
structure Pending (s : Executor) : Prop where
  consistent : ∀ (i : Nat) (t : Task), s.tasks[i]? = some t → t.Consistent
  unended : s.gathered = none → s.ended = false
  unfailed : s.gathered = none → ∀ (i : Nat) (t : Task), s.tasks[i]? = some t → t.failure = none

theorem unraised_of_resume {e : Event} (ht : s.tasks[i]? = some t) (h : (resume launch i e s).gathered = none) :
    s.gathered = none ∧ gathers (resume launch i e s).tasks = none := by
  rw [resume_gathered e ht] at h
  cases hs : s.gathered with
  | none =>
    rw [hs] at h
    exact ⟨rfl, h⟩
  | some result =>
    rw [hs] at h
    cases h

theorem pending_resume (i : Nat) (e : Event) (h : Pending s) : Pending (resume launch i e s) := by
  cases ht : s.tasks[i]? with
  | none => rwa [resume_of_none e ht]
  | some t =>
    refine ⟨forall_resume (P := fun _ t => t.Consistent) e h.consistent fun _ _ hu => Task.consistent_on e hu, ?_, ?_⟩
    · intro hnone
      exact (resume_ended i e).trans (h.unended (unraised_of_resume ht hnone).1)
    · intro hnone j u hu
      cases hf : u.failure with
      | none => rfl
      | some f =>
        obtain ⟨f', hf'⟩ := gathers_of_failure hu hf
        have hgathers := (unraised_of_resume ht hnone).2
        rw [hf'] at hgathers
        cases hgathers

/-- **One input**, up to the first exception. -/
theorem step_pending (input : Input) (s : Executor) (h : Pending s) : Pending (step launch input s) := by
  cases input with
  | task i e => exact pending_resume i e h
  | child i e =>
    refine ⟨?_, h.unended, ?_⟩
    · exact forall_childEvent (P := fun _ t => t.Consistent) e h.consistent fun _ _ hu => Task.consistent_onProcess e hu
    · intro hnone
      exact forall_childEvent (P := fun _ t => t.failure = none) e (h.unfailed hnone) fun _ _ hu => hu
  | stop => exact ⟨h.consistent, h.unended, h.unfailed⟩
  | returns =>
    refine ⟨h.consistent, ?_, h.unfailed⟩
    intro hnone
    have hold : s.gathered = none := hnone
    simp [step, hold, h.unended hold]

/-- **Every run.** -/
theorem run_pending (inputs : List Input) : Pending ((machine launch).run (start jobs) inputs) := by
  apply Machine.invariant_all step_pending
  refine ⟨(orderly_start jobs).consistent, fun _ => rfl, ?_⟩
  intro _ i t ht
  rw [start, List.getElem?_map, Option.map_eq_some_iff] at ht
  obtain ⟨job, -, rfl⟩ := ht
  rfl

/-- Until then all is in order. -/
theorem orderly_of_pending (h : Pending s) (hnone : s.gathered = none) : Orderly s := by
  refine ⟨h.consistent, ?_⟩
  unfold Gathering
  rw [hnone]
  exact ⟨h.unended hnone, h.unfailed hnone⟩

/-- Nothing is raised for the first time after the first time. -/
theorem failsLast_of_gathered (inputs : List Input) (h : s.gathered ≠ none) :
    (machine launch).Admissible (FailsLast launch) s inputs := by
  induction inputs generalizing s with
  | nil => trivial
  | cons input rest ih =>
    refine ⟨?_, ih ?_⟩
    · cases input with
      | task i e => exact fun hraises => absurd hraises.1 h
      | child i e => trivial
      | stop => trivial
      | returns => trivial
    · cases input with
      | task i e =>
        show (resume launch i e s).gathered ≠ none
        cases ht : s.tasks[i]? with
        | none => rwa [resume_of_none e ht]
        | some t => exact fun hnone => h (unraised_of_resume ht hnone).1
      | child i e => exact h
      | stop => exact h
      | returns => exact h

/-- **While the first exception out of a job comes when every other job is failing too, a run
ends after its children and with every outcome**, and an exception at any other time
breaks that. What a job comes to never depends on the others. -/
theorem run_ends_after_children (launch : Launch) (jobs : List Job) :
    (∀ inputs, (machine launch).Admissible (FailsLast launch) (start jobs) inputs →
      Contained ((machine launch).run (start jobs) inputs)) ∧
    (∀ before i e, Raises launch i e ((machine launch).run (start jobs) before) →
      ((∀ after, Contained ((machine launch).run (start jobs) (before ++ .task i e :: after))) ↔
        OthersFailing i ((machine launch).run (start jobs) before))) ∧
    ∀ inputs j, ((machine launch).run (start jobs) inputs).tasks[j]? =
      (jobs[j]?).map (fun job => (Task.start job).after launch (inputs.filterMap (own j))) := by
  have hrun : ∀ {s : Executor} {inputs : List Input}, Orderly s →
      (machine launch).Admissible (FailsLast launch) s inputs → Contained ((machine launch).run s inputs) :=
    fun h hrule => contained_of_orderly (Machine.invariant step_orderly h hrule)
  refine ⟨fun inputs hrule => hrun (orderly_start jobs) hrule, ?_, ?_⟩
  · intro before i e hraises
    simp only [Machine.run_append]
    have hpending : Pending ((machine launch).run (start jobs) before) := run_pending before
    generalize (machine launch).run (start jobs) before = s at hraises hpending
    constructor
    · exact othersFailing_of_contained hpending.consistent hraises
    · intro hothers after
      refine hrun (orderly_of_pending hpending hraises.1) ⟨fun _ => hothers, ?_⟩
      apply failsLast_of_gathered
      obtain ⟨f, hlost⟩ := lost_of_raises hraises
      have hsome : (resume launch i e s).gathered = some (.error f) := hlost.gathered
      show (resume launch i e s).gathered ≠ none
      rw [hsome]
      exact Option.some_ne_none _
  · intro inputs j
    rw [getElem?_run, start, List.getElem?_map, Option.map_map]
    rfl

/-- One job's child runs when the connection fails the other one's lock. -/
def lockFails : List Input :=
  [.task 0 (.acquired (some true)), .task 0 (.created .started), .task 0 .resumed, .task 1 (.acquired none), .returns]

theorem run_leaves_child_behind :
    ((machine appLaunch).run (start [nightly, hourly]) lockFails).gathered = some (.error .acquire) ∧
    ¬ Contained ((machine appLaunch).run (start [nightly, hourly]) lockFails) := by
  refine ⟨rfl, ?_⟩
  intro h
  exact Bool.noConfusion (h.last rfl 0 ⟨nightly, .waiting, some .running⟩ rfl)

/-- Both children have ended. Signalling the second one has raised, and the first job gives its lock back. -/
def bothFailing : List Input :=
  [.task 0 (.acquired (some true)), .task 0 (.created .started), .task 0 .resumed,
    .task 1 (.acquired (some true)), .task 1 (.created .started), .task 1 .resumed,
    .child 0 (.exits 0), .child 0 .reaped, .child 1 (.exits 0), .child 1 .reaped, .child 1 .closed,
    .task 1 .timedOut, .task 0 .waited]

/-- The first job's release raises while the second is failing too: no child is left behind, whatever follows. -/
theorem two_jobs_contained :
    ((machine appLaunch).run (start [nightly, hourly]) bothFailing).tasks.map Task.child = [some (.reaped 0), some (.closed 0)] ∧
    ∀ after, Contained ((machine appLaunch).run (start [nightly, hourly])
      (bothFailing ++ .task 0 (.released none) :: after)) := by
  have hraises : Raises appLaunch 0 (.released none) ((machine appLaunch).run (start [nightly, hourly]) bothFailing) :=
    ⟨rfl, ⟨nightly, .releasing (.ok ⟨nightly, .ok, some 0⟩), some (.reaped 0)⟩, rfl, rfl⟩
  refine ⟨rfl, ((run_ends_after_children appLaunch [nightly, hourly]).2.1 bothFailing 0 (.released none) hraises).mpr ?_⟩
  intro j t hj ht
  cases j with
  | zero => exact absurd rfl hj
  | succ j =>
    cases j with
    | zero =>
      cases ht
      rfl
    | succ j => cases ht

end PyAppRunner.Cron
