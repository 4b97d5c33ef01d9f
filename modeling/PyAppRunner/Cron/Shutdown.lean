import PyAppRunner.Cron.Executor

/-! Which children a stop reaches.

`stop` signals the children that are registered when it is called. A job that is still on
its way to its child by then, waiting for the lock or in `create_subprocess_exec`,
goes on: nothing it does looks at `_stopping`, and the child it starts is never told to
end. With every job past that point a stop reaches them all, and it stays that way. -/
namespace PyAppRunner.Cron
open Base

variable {launch : Launch} {jobs : List Job} {s : Executor} {i : Nat} {t : Task}

/-- The job can still start a child. -/
def Task.mayStart (launch : Launch) (t : Task) : Bool :=
  match t.phase with
  | .acquiring => (launch t.job).isSome
  | .starting _ => true
  | _ => false

namespace Executor

/-- No child was started after the stop, and those still alive were told to end. -/
structure Reached (s : Executor) : Prop where
  none_late : s.startedLate = false
  signalled : ∀ (i : Nat) (t : Task), s.tasks[i]? = some t → t.alive = true → i ∈ s.terminated

/-- No job can still start a child, and a live child is registered under its job's name or
was told to end before. -/
structure Settled (launch : Launch) (s : Executor) : Prop where
  past : ∀ (i : Nat) (t : Task), s.tasks[i]? = some t → t.mayStart launch = false
  registered : ∀ (i : Nat) (t : Task), s.tasks[i]? = some t → t.alive = true →
    s.children.get t.job.name = some i ∨ i ∈ s.terminated

/-- After a stop that reached every child. -/
structure Quiet (launch : Launch) (s : Executor) : Prop extends Reached s where
  past : ∀ (i : Nat) (t : Task), s.tasks[i]? = some t → t.mayStart launch = false

/-- Every registered child is under the name of the job that started it. -/
def Named (s : Executor) : Prop :=
  ∀ name i, s.children.get name = some i → ∃ t, s.tasks[i]? = some t ∧ t.job.name = name

end Executor

open Executor

/-! ### One step of a coroutine -/

theorem afterWait_not_mayStart (outcome : Int → Outcome) (h : t.mayStart launch = false) :
    (t.afterWait outcome).1.mayStart launch = false ∧ (t.afterWait outcome).2 ≠ .started := by
  unfold Task.afterWait
  split
  · exact ⟨h, Effect.noConfusion⟩
  · exact ⟨rfl, Effect.noConfusion⟩

theorem signalled_not_mayStart {next : Phase} {effect : Effect}
    (hnext : ({t with phase := next} : Task).mayStart launch = false) (heffect : effect ≠ .started) :
    (t.signalled next effect).1.mayStart launch = false ∧ (t.signalled next effect).2 ≠ .started := by
  unfold Task.signalled
  split
  · exact ⟨rfl, Effect.noConfusion⟩
  · exact ⟨hnext, heffect⟩

/-- A job that can start no child any more starts none. -/
theorem on_not_mayStart (e : Event) (h : t.mayStart launch = false) :
    (t.on launch e).1.mayStart launch = false ∧ (t.on launch e).2 ≠ .started := by
  fun_cases Task.on launch e t <;>
    first
    | exact ⟨h, Effect.noConfusion⟩
    | exact ⟨rfl, Effect.noConfusion⟩
    | exact afterWait_not_mayStart _ h
    | (apply signalled_not_mayStart <;> simp [Task.mayStart])
    | simp_all [Task.mayStart]

theorem unfinished_of_alive (h : s.tasks[i]? = some t) (halive : t.alive = true) :
    s.unfinished i = true := by
  have hchild : t.child = some .running := by simpa [Task.alive] using halive
  simp [unfinished, h, Task.returncode, hchild, Process.returncode]

/-! ### One step of the executor -/

theorem exists_resumed (e : Event) (h : s.tasks[i]? = some t) (k : Nat) :
    ∃ t', (resume launch k e s).tasks[i]? = some t' ∧ t'.job = t.job := by
  rw [getElem?_resume, h]
  split
  · exact ⟨_, rfl, t.on_job launch e⟩
  · exact ⟨t, rfl, rfl⟩

theorem named_resume (e : Event) (k : Nat) (h : Named s) : Named (resume launch k e s) := by
  intro name i hget
  have hold : s.children.get name = some i → ∃ t, (resume launch k e s).tasks[i]? = some t ∧ t.job.name = name := by
    intro hold
    obtain ⟨t, ht, hname⟩ := h name i hold
    obtain ⟨t', ht', hjob⟩ := exists_resumed e ht k
    exact ⟨t', ht', by rw [hjob, hname]⟩
  cases hk : s.tasks[k]? with
  | none =>
    rw [resume_of_none e hk] at hget
    exact hold hget
  | some u =>
    rw [resume_of_some e hk] at hget
    cases heffect : (u.on launch e).2 with
    | nothing => exact hold (by simpa [apply, gather, heffect] using hget)
    | started => exact hold (by simpa [apply, gather, heffect] using hget)
    | terminated => exact hold (by simpa [apply, gather, heffect] using hget)
    | registered =>
      simp only [apply, gather, heffect, Dict.get_set] at hget
      split at hget
      · rename_i hname
        obtain ⟨u', hu', hjob⟩ := exists_resumed e hk k
        cases hget
        exact ⟨u', hu', by rw [hjob, hname]⟩
      · exact hold hget
    | popped =>
      simp only [apply, gather, heffect, Dict.get_erase] at hget
      split at hget
      · cases hget
      · exact hold hget

theorem step_named (input : Input) (s : Executor) (h : Named s) : Named (step launch input s) := by
  cases input with
  | task k e => exact named_resume e k h
  | child k e =>
    intro name i hget
    obtain ⟨t, ht, hname⟩ := h name i hget
    rw [step, getElem?_childEvent, ht]
    split
    · exact ⟨_, rfl, hname⟩
    · exact ⟨t, rfl, hname⟩
  | stop => exact h
  | returns => exact h

/-- A child that lives after a step of a job lived before, or the step has started it. -/
theorem alive_resume (e : Event) (k : Nat) (h : (resume launch k e s).tasks[i]? = some t) (halive : t.alive = true) :
    ∃ u, s.tasks[i]? = some u ∧ (u.alive = true ∨ k = i ∧ (u.on launch e).2 = .started) := by
  rw [getElem?_resume] at h
  split at h
  · rename_i hki
    obtain ⟨u, hu, rfl⟩ := Option.map_eq_some_iff.mp h
    refine ⟨u, hu, ?_⟩
    obtain hchild | ⟨hstarted, -⟩ := u.on_child launch e
    · exact .inl (by rwa [Task.alive, hchild] at halive)
    · exact .inr ⟨hki, hstarted⟩
  · exact ⟨t, h, .inl halive⟩

theorem startedLate_resume {e : Event} {k : Nat}
    (h : ∀ u, s.tasks[k]? = some u → (u.on launch e).2 ≠ .started) :
    (resume launch k e s).startedLate = s.startedLate := by
  cases hk : s.tasks[k]? with
  | none => rw [resume_of_none e hk]
  | some u =>
    rw [resume_of_some e hk]
    have hnot := h u hk
    cases heffect : (u.on launch e).2 <;> first | rfl | exact absurd heffect hnot

theorem mem_terminated_resume (e : Event) (k : Nat) (h : i ∈ s.terminated) :
    i ∈ (resume launch k e s).terminated := by
  cases hk : s.tasks[k]? with
  | none => rwa [resume_of_none e hk]
  | some u =>
    rw [resume_of_some e hk]
    cases (u.on launch e).2 with
    | terminated => exact List.mem_cons_of_mem k h
    | nothing => exact h
    | started => exact h
    | registered => exact h
    | popped => exact h

theorem quiet_resume (e : Event) (k : Nat) (h : Quiet launch s) : Quiet launch (resume launch k e s) := by
  have hnot : ∀ u, s.tasks[k]? = some u → (u.on launch e).2 ≠ .started := fun u hu =>
    (on_not_mayStart e (h.past k u hu)).2
  refine ⟨⟨?_, ?_⟩, ?_⟩
  · rw [startedLate_resume hnot]
    exact h.none_late
  · intro i t ht halive
    obtain ⟨u, hu, halive | ⟨rfl, hstarted⟩⟩ := alive_resume e k ht halive
    · exact mem_terminated_resume e k (h.signalled i u hu halive)
    · exact absurd hstarted (hnot u hu)
  · intro i t ht
    rw [getElem?_resume] at ht
    split at ht
    · obtain ⟨u, hu, rfl⟩ := Option.map_eq_some_iff.mp ht
      exact (on_not_mayStart e (h.past i u hu)).1
    · exact h.past i t ht

theorem quiet_childEvent (e : Process.Event) (k : Nat) (h : Quiet launch s) : Quiet launch (childEvent k e s) := by
  refine ⟨⟨h.none_late, ?_⟩, ?_⟩
  · intro i t ht halive
    rw [getElem?_childEvent] at ht
    split at ht
    · obtain ⟨u, hu, rfl⟩ := Option.map_eq_some_iff.mp ht
      exact h.signalled i u hu (u.alive_of_onProcess e halive)
    · exact h.signalled i t ht halive
  · intro i t ht
    rw [getElem?_childEvent] at ht
    split at ht
    · obtain ⟨u, hu, rfl⟩ := Option.map_eq_some_iff.mp ht
      exact h.past i u hu
    · exact h.past i t ht

/-- A stop only adds to those that were told to end. -/
theorem quiet_stop (h : Quiet launch s) : Quiet launch s.stop :=
  ⟨⟨h.none_late, fun i t ht halive => List.mem_append_right _ (h.signalled i t ht halive)⟩, h.past⟩

theorem step_quiet (input : Input) (s : Executor) (h : Quiet launch s) : Quiet launch (step launch input s) := by
  cases input with
  | task k e => exact quiet_resume e k h
  | child k e => exact quiet_childEvent e k h
  | stop => exact quiet_stop h
  | returns => exact ⟨⟨h.none_late, h.signalled⟩, h.past⟩

/-! ### The first stop -/

theorem mem_terminated_stop : i ∈ s.stop.terminated ↔
    (∃ name, s.children.get name = some i) ∧ s.unfinished i = true ∨ i ∈ s.terminated := by
  simp only [stop, List.mem_append, List.mem_filter, List.mem_map, Prod.exists, exists_eq_right,
    Dict.mem_entries]

theorem settled_stop (h : Settled launch s) (hnone : s.startedLate = false) : Quiet launch s.stop := by
  refine ⟨⟨hnone, ?_⟩, h.past⟩
  intro i t ht halive
  rw [mem_terminated_stop]
  obtain hget | hmem := h.registered i t ht halive
  · exact .inl ⟨⟨_, hget⟩, unfinished_of_alive ht halive⟩
  · exact .inr hmem

/-- A job that can still start a child when the stop comes starts one in some run. -/
theorem exists_started_late (hstop : s.stopping = true) (ht : s.tasks[i]? = some t)
    (hmay : t.mayStart launch = true) :
    ∃ after, ((machine launch).run s after).startedLate = true := by
  have hstart : ∀ (s : Executor) (u : Task) (argv : List String), s.stopping = true → s.tasks[i]? = some u →
      u.phase = .starting argv → (resume launch i (.created .started) s).startedLate = true := by
    intro s u argv hstop hu hphase
    rw [resume_of_some _ hu]
    simp [Task.on, hphase, apply, gather, hstop]
  cases hphase : t.phase with
  | acquiring =>
    have hsome : (launch t.job).isSome = true := by simpa [Task.mayStart, hphase] using hmay
    obtain ⟨argv, hargv⟩ := Option.isSome_iff_exists.mp hsome
    have hon : t.on launch (.acquired (some true)) = ({t with phase := .starting argv}, .nothing) := by
      simp [Task.on, hphase, hargv]
    have hnext : (resume launch i (.acquired (some true)) s).tasks[i]? = some {t with phase := .starting argv} := by
      rw [getElem?_resume, if_pos rfl, ht, Option.map_some, hon]
    refine ⟨[.task i (.acquired (some true)), .task i (.created .started)], ?_⟩
    have hstopping : (resume launch i (.acquired (some true)) s).stopping = true := by
      rw [resume_of_some _ ht]
      simp [gather, hstop]
    exact hstart _ _ argv hstopping hnext rfl
  | starting argv => exact ⟨[.task i (.created .started)], hstart s t argv hstop ht hphase⟩
  | _ => simp [Task.mayStart, hphase] at hmay

/-- Before the first stop there is nothing to be late for. -/
structure Unstopped (s : Executor) : Prop where
  stopping : s.stopping = false
  none_late : s.startedLate = false

theorem step_unstopped (input : Input) (s : Executor) (hinput : input ≠ .stop) (h : Unstopped s) :
    Unstopped (step launch input s) := by
  cases input with
  | task k e =>
    rw [step]
    cases hk : s.tasks[k]? with
    | none => rwa [resume_of_none e hk]
    | some u =>
      rw [resume_of_some e hk]
      cases (u.on launch e).2 with
      | started => exact ⟨h.stopping, by simp [apply, gather, h.stopping, h.none_late]⟩
      | nothing => exact ⟨h.stopping, h.none_late⟩
      | registered => exact ⟨h.stopping, h.none_late⟩
      | terminated => exact ⟨h.stopping, h.none_late⟩
      | popped => exact ⟨h.stopping, h.none_late⟩
  | child k e => exact ⟨h.stopping, h.none_late⟩
  | stop => exact absurd rfl hinput
  | returns => exact ⟨h.stopping, h.none_late⟩

theorem run_unstopped {inputs : List Input} (h : .stop ∉ inputs) :
    Unstopped ((machine launch).run (start jobs) inputs) := by
  have hrule : (machine launch).Admissible (fun input _ => input ≠ .stop) (start jobs) inputs := by
    apply Machine.admissible_of_forall
    intro input hmem _ hstop
    exact h (hstop ▸ hmem)
  exact Machine.invariant step_unstopped ⟨rfl, rfl⟩ hrule

theorem run_named (inputs : List Input) : Named ((machine launch).run (start jobs) inputs) := by
  apply Machine.invariant_all step_named
  intro name i hget
  cases hget

/-- **A stop reaches every child, however the run goes on and however often it is called
again, exactly when the first one finds every job past starting its child.** -/
theorem stop_reaches_every_child (launch : Launch) (jobs : List Job) (before : List Input) (h : .stop ∉ before) :
    (∀ after, Reached ((machine launch).run (start jobs) (before ++ .stop :: after))) ↔
      Settled launch ((machine launch).run (start jobs) before) := by
  have hrun : ∀ after, (machine launch).run (start jobs) (before ++ .stop :: after) =
      (machine launch).run ((machine launch).run (start jobs) before).stop after := by
    intro after
    rw [Machine.run_append]
    rfl
  have hunstopped : Unstopped ((machine launch).run (start jobs) before) := run_unstopped h
  have hnamed : Named ((machine launch).run (start jobs) before) := run_named before
  simp only [hrun]
  generalize (machine launch).run (start jobs) before = s at hunstopped hnamed
  constructor
  · intro hreached
    refine ⟨?_, ?_⟩
    · intro i t ht
      rw [← Bool.not_eq_true]
      intro hmay
      obtain ⟨after, hlate⟩ := exists_started_late (s := s.stop) rfl ht hmay
      exact Bool.noConfusion (hlate.symm.trans (hreached after).none_late)
    · intro i t ht halive
      have hmem := (hreached []).signalled i t ht halive
      rw [Machine.run, mem_terminated_stop] at hmem
      obtain ⟨⟨name, hget⟩, -⟩ | hmem := hmem
      · obtain ⟨t', ht', hname⟩ := hnamed name i hget
        rw [ht] at ht'
        cases ht'
        exact .inl (hname ▸ hget)
      · exact .inr hmem
  · intro hsettled after
    exact (Machine.invariant_all step_quiet (settled_stop hsettled hunstopped.none_late) after).toReached

/-- The child is there, and `create_subprocess_exec` has not returned yet. -/
def childCreated : List Input := [.task 0 (.acquired (some true)), .task 0 (.created .started)]

/-- The signal comes between the start of a child and its registration. -/
theorem stop_misses_created_child : .stop ∉ childCreated ∧
    ¬ Reached ((machine appLaunch).run (start [nightly]) (childCreated ++ [.stop, .task 0 .resumed])) := by
  refine ⟨by decide, ?_⟩
  intro h
  have hmem := h.signalled 0 ⟨nightly, .waiting, some .running⟩ rfl rfl
  exact absurd hmem (by decide)

def childRegistered : List Input := childCreated ++ [.task 0 .resumed]

/-- With the child registered, whatever follows. -/
theorem stop_reaches_registered_child : .stop ∉ childRegistered ∧
    ∀ after, Reached ((machine appLaunch).run (start [nightly]) (childRegistered ++ .stop :: after)) := by
  have hfirst : .stop ∉ childRegistered := by decide
  have htask : ∀ i t, ((machine appLaunch).run (start [nightly]) childRegistered).tasks[i]? = some t →
      i = 0 ∧ t = ⟨nightly, .waiting, some .running⟩ := by
    intro i t ht
    match i with
    | 0 => exact ⟨rfl, (Option.some.inj ht).symm⟩
    | i + 1 => cases ht
  refine ⟨hfirst, (stop_reaches_every_child appLaunch [nightly] childRegistered hfirst).mpr ⟨?_, ?_⟩⟩
  · intro i t ht
    obtain ⟨-, rfl⟩ := htask i t ht
    rfl
  · intro i t ht _
    obtain ⟨rfl, rfl⟩ := htask i t ht
    exact .inl rfl

end PyAppRunner.Cron
