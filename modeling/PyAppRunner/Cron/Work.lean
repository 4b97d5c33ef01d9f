import PyAppRunner.Cron.Executor

/-! The scheduler's loop: a child a minute.

`cmd_work` sleeps to the next minute, starts a `cron run` and goes on, without waiting for it. When the event is set it
sends `terminate` to the children that have not ended, and waits for them. The handler that sets the event runs
between two awaits; how long an await takes is nobody's to say. -/
namespace PyAppRunner.Cron.Work
open Base

/-- A child, and how often it was sent `terminate`. -/
structure Tick where
  process : Process
  terminated : Nat
deriving DecidableEq

/-- Which await the coroutine is in. -/
inductive Phase where
  /-- `_wait_for_minute`. -/
  | sleeping
  /-- `create_subprocess_exec`: the process was forked, and the coroutine does not have it yet. -/
  | created
  /-- The `gather` of the waits. -/
  | gathering
  | returned (code : Nat)
  | raised
deriving DecidableEq

/-- The loop was not left. -/
def Phase.inLoop : Phase → Bool
  | .sleeping | .created => true
  | _ => false

/-- The coroutine has ended, and not at the end of its body. -/
def Phase.failed : Phase → Bool
  | .returned code => code != 0
  | .raised => true
  | _ => false

/-- `cmd_work` with the children it has started. -/
structure Worker where
  stop : Bool
  phase : Phase
  /-- Every child that was started, the first one first. -/
  started : List Tick
  /-- Those in `ticks`, by their position. -/
  ticks : List Nat
deriving DecidableEq

/-- A child, once it was sent `terminate` if it has no exit code. -/
def Tick.told (t : Tick) : Tick := if t.process.returncode.isNone then {t with terminated := t.terminated + 1} else t

namespace Worker

/-- `proc.returncode is None`. -/
def unfinished (s : Worker) (i : Nat) : Bool := s.started[i]?.any fun t => t.process.returncode.isNone

/-- A child that is told to end is told once more. -/
def terminate (i : Nat) (t : Tick) (told : List Nat) : Tick :=
  if told.contains i then {t with terminated := t.terminated + 1} else t

/-- Past the loop, up to the `gather`. -/
def finish (s : Worker) : Worker :=
  {s with
    started := s.started.mapIdx fun i t => terminate i t (s.ticks.filter s.unfinished)
    phase := .gathering}

/-- The head of the loop. -/
def loop (s : Worker) : Worker := if s.stop then s.finish else {s with phase := .sleeping}

/-- The child is appended to `ticks`, and those that have ended leave it. -/
def append (s : Worker) : Worker :=
  {s with ticks := (s.ticks ++ [s.started.length - 1]).filter s.unfinished}

/-- `cmd_work`, as it begins. -/
def start (stop : Bool) : Worker := loop ⟨stop, .sleeping, [], []⟩

/-- `create_subprocess_exec`, up to its await. It forks, or fails, before that. -/
def create (creation : Creation) (s : Worker) : Worker :=
  match creation with
  | .started => {s with started := s.started ++ [⟨.running, 0⟩], phase := .created}
  | .osError => {s with phase := .returned 1}
  | .raised => {s with phase := .raised}

/-- The coroutine goes on to its next await. `creation` is what becomes of a child that it creates. -/
def resume (creation : Creation) (s : Worker) : Worker :=
  match s.phase with
  -- nothing is awaited between this look at the event and the fork
  | .sleeping => if s.stop then s.finish else s.create creation
  | .created => s.append.loop
  -- `gather` is done with the last wait.
  | .gathering => if s.ticks.any s.unfinished then s else {s with phase := .returned 0}
  | .returned _ => s
  | .raised => s

end Worker

/-- What the event loop hands to the worker. -/
inductive Input where
  | resume (creation : Creation)
  | child (i : Nat) (e : Process.Event)
  | signal
deriving DecidableEq

/-- The coroutine of the worker goes on. -/
def Input.resumes : Input → Bool
  | .resume _ => true
  | _ => false

/-- A child that the coroutine would create cannot be. -/
def Input.fails : Input → Bool
  | .resume creation => creation != .started
  | _ => false

/-- One event, whoever meets it. -/
def Worker.step : Input → Worker → Worker
  | .resume creation, s => s.resume creation
  | .child i e, s => {s with started := s.started.modify i fun t => {t with process := t.process.on e}}
  | .signal, s => {s with stop := true}

/-- The worker, whatever the order of the events. -/
def machine : Machine Worker Input := ⟨Worker.step⟩

namespace Worker
variable {s : Worker} {i : Nat} {t : Tick}

/-! ### What a step does to a child -/

theorem getElem?_finish : s.finish.started[i]? =
    s.started[i]?.map fun t => terminate i t (s.ticks.filter s.unfinished) := by
  unfold finish
  rw [List.getElem?_mapIdx]

theorem length_finish : s.finish.started.length = s.started.length := by simp [finish]

theorem loop_cases (s : Worker) : s.stop = true ∧ s.loop = s.finish ∨ s.stop = false ∧ s.loop = {s with phase := .sleeping} := by
  unfold loop
  cases h : s.stop with
  | true => exact .inl ⟨rfl, rfl⟩
  | false => exact .inr ⟨rfl, rfl⟩

/-- How far the coroutine comes. -/
inductive Resumed (creation : Creation) (s : Worker) : Worker → Prop where
  | stopped (h : s.phase = .sleeping) (hstop : s.stop = true) : Resumed creation s s.finish
  | started (h : s.phase = .sleeping) (hstop : s.stop = false) (hcreation : creation = .started) :
      Resumed creation s {s with started := s.started ++ [⟨.running, 0⟩], phase := .created}
  | osError (h : s.phase = .sleeping) (hstop : s.stop = false) (hcreation : creation = .osError) :
      Resumed creation s {s with phase := .returned 1}
  | raised (h : s.phase = .sleeping) (hstop : s.stop = false) (hcreation : creation = .raised) :
      Resumed creation s {s with phase := .raised}
  | again (h : s.phase = .created) (hstop : s.stop = false) : Resumed creation s {s.append with phase := .sleeping}
  | last (h : s.phase = .created) (hstop : s.stop = true) : Resumed creation s s.append.finish
  | waits (h : s.phase = .gathering) (hleft : s.ticks.any s.unfinished = true) : Resumed creation s s
  | returns (h : s.phase = .gathering) (hleft : s.ticks.any s.unfinished = false) :
      Resumed creation s {s with phase := .returned 0}
  | ended (h : (∃ code, s.phase = .returned code) ∨ s.phase = .raised) : Resumed creation s s

theorem resume_cases (creation : Creation) (s : Worker) : Resumed creation s (s.resume creation) := by
  unfold resume
  cases h : s.phase with
  | sleeping =>
    dsimp only
    split
    · rename_i hstop
      exact .stopped h hstop
    · rename_i hgo
      have hstop : s.stop = false := Bool.eq_false_iff.2 hgo
      cases creation with
      | started => exact .started h hstop rfl
      | osError => exact .osError h hstop rfl
      | raised => exact .raised h hstop rfl
  | created =>
    have hstop : s.append.stop = s.stop := rfl
    obtain ⟨hset, heq⟩ | ⟨hunset, heq⟩ := loop_cases s.append
    · show Resumed creation s s.append.loop
      rw [heq]
      exact .last h (hstop ▸ hset)
    · show Resumed creation s s.append.loop
      rw [heq]
      exact .again h (hstop ▸ hunset)
  | gathering =>
    dsimp only
    split
    · rename_i hleft
      exact .waits h hleft
    · rename_i hleft
      exact .returns h (Bool.eq_false_iff.2 hleft)
  | returned code => exact .ended (.inl ⟨code, h⟩)
  | raised => exact .ended (.inr h)

/-! ### The children -/

theorem unfinished_iff : s.unfinished i = true ↔ ∃ t, s.started[i]? = some t ∧ t.process.returncode = none := by
  simp [unfinished, Option.any_eq_true]

/-- An exit code that is known stays. -/
theorem returncode_on {p : Process} (e : Process.Event) (h : p.returncode.isSome = true) :
    (p.on e).returncode.isSome = true := by
  cases p with
  | running => cases h
  | exited code => cases h
  | reaped code => cases e <;> rfl
  | closed code => cases e <;> rfl

/-- What the worker knows of its children, and what it has told them. -/
structure Good (s : Worker) : Prop where
  /-- A child without an exit code is one of `ticks`, but for the one that was just created. -/
  known : ∀ i, s.unfinished i = true → i ∈ s.ticks ∨ s.phase = .created ∧ i + 1 = s.started.length
  /-- Nobody is told to end before the loop is left. -/
  untold : s.phase ≠ .gathering → s.phase ≠ .returned 0 → ∀ t ∈ s.started, t.terminated = 0
  once : ∀ t ∈ s.started, t.terminated ≤ 1
  /-- Then all are told that have not ended. -/
  told : s.phase = .gathering → ∀ (i : Nat) (t : Tick), s.started[i]? = some t → t.process.returncode = none → t.terminated = 1
  stopped : s.phase = .gathering ∨ s.phase = .returned 0 → s.stop = true
  ended : s.phase = .returned 0 → ∀ t ∈ s.started, t.process.returncode.isSome = true

theorem good_awake (hphase : s.phase ≠ .gathering) (hreturned : s.phase ≠ .returned 0)
    (hknown : ∀ i, s.unfinished i = true → i ∈ s.ticks ∨ s.phase = .created ∧ i + 1 = s.started.length)
    (huntold : ∀ t ∈ s.started, t.terminated = 0) : s.Good where
  known := hknown
  untold := fun _ _ => huntold
  once := fun t ht => by rw [huntold t ht]; exact Nat.zero_le 1
  told := fun h => absurd h hphase
  stopped := fun h => absurd h (not_or.2 ⟨hphase, hreturned⟩)
  ended := fun h => absurd h hreturned

/-- The end of the loop tells just the children without an exit code. -/
theorem started_finish (hknown : ∀ i, s.unfinished i = true → i ∈ s.ticks) : s.finish.started = s.started.map Tick.told := by
  apply List.ext_getElem?
  intro i
  rw [getElem?_finish, List.getElem?_map]
  cases ht : s.started[i]? with
  | none => rfl
  | some t =>
    have hleft : s.unfinished i = t.process.returncode.isNone := by
      unfold unfinished
      rw [ht]
      rfl
    rw [Option.map_some, Option.map_some]
    unfold terminate Tick.told
    cases hcode : t.process.returncode.isNone with
    | true =>
      have hin : (s.ticks.filter s.unfinished).contains i = true :=
        List.contains_iff_mem.2 (List.mem_filter.2 ⟨hknown i (hleft.trans hcode), hleft.trans hcode⟩)
      rw [if_pos hin, if_pos rfl]
    | false =>
      have hout : ¬ (s.ticks.filter s.unfinished).contains i = true := by
        rw [List.contains_iff_mem, List.mem_filter, hleft, hcode]
        exact fun hin => nomatch hin.2
      rw [if_neg hout, if_neg (by decide)]

theorem process_told (t : Tick) : t.told.process = t.process := by
  unfold Tick.told
  split <;> rfl

theorem terminated_told (t : Tick) : t.told.terminated = t.terminated + if t.process.returncode.isNone then 1 else 0 := by
  unfold Tick.told
  split <;> rfl

/-- The loop is left with every child that has not ended in `ticks`. -/
theorem good_finish (hknown : ∀ i, s.unfinished i = true → i ∈ s.ticks) (huntold : ∀ t ∈ s.started, t.terminated = 0)
    (hstop : s.stop = true) : s.finish.Good := by
  have hchild {i : Nat} {t : Tick} (ht : s.finish.started[i]? = some t) :
      ∃ t₀, s.started[i]? = some t₀ ∧ t.process = t₀.process ∧ t.terminated = if t.process.returncode.isNone then 1 else 0 := by
    rw [started_finish hknown, List.getElem?_map] at ht
    obtain ⟨t₀, ht₀, rfl⟩ := Option.map_eq_some_iff.1 ht
    refine ⟨t₀, ht₀, process_told t₀, ?_⟩
    rw [terminated_told, process_told, huntold t₀ (List.mem_of_getElem? ht₀), Nat.zero_add]
  refine ⟨?_, fun h => absurd rfl h, ?_, ?_, fun _ => hstop, fun h => by cases h⟩
  · intro i hi
    obtain ⟨t, ht, hnone⟩ := unfinished_iff.1 hi
    obtain ⟨t₀, ht₀, hprocess, -⟩ := hchild ht
    exact .inl (hknown i (unfinished_iff.2 ⟨t₀, ht₀, hprocess ▸ hnone⟩))
  · intro t ht
    obtain ⟨i, hi⟩ := List.mem_iff_getElem?.1 ht
    obtain ⟨-, -, -, hcount⟩ := hchild hi
    rw [hcount]
    split <;> omega
  · intro _ i t ht hnone
    obtain ⟨-, -, -, hcount⟩ := hchild ht
    rw [hcount, hnone]
    rfl

theorem unfinished_lt (h : s.unfinished i = true) : i < s.started.length := by
  obtain ⟨t, ht, -⟩ := unfinished_iff.1 h
  exact (List.getElem?_eq_some_iff.1 ht).1

/-- Every child that has not ended is in `ticks` once the new one is. -/
theorem mem_append (h : s.Good) (i : Nat) (hi : s.append.unfinished i = true) : i ∈ s.append.ticks := by
  have hleft : s.unfinished i = true := hi
  refine List.mem_filter.2 ⟨?_, hleft⟩
  rw [List.mem_append, List.mem_singleton]
  obtain hin | ⟨-, hlast⟩ := h.known i hleft
  · exact .inl hin
  · exact .inr (by omega)

theorem good_start (stop : Bool) : (start stop).Good := by
  cases stop with
  | true => exact good_finish (fun i hi => absurd hi (by simp [unfinished])) (fun t ht => absurd ht List.not_mem_nil) rfl
  | false =>
    refine good_awake (s := start false) (by decide) (by decide) ?_ (fun t ht => absurd ht List.not_mem_nil)
    intro i hi
    exact absurd (unfinished_lt hi) (Nat.not_lt_zero i)

theorem Good.known_of_ne (h : s.Good) (hphase : s.phase ≠ .created) (i : Nat) (hi : s.unfinished i = true) : i ∈ s.ticks :=
  (h.known i hi).resolve_right fun hcreated => hphase hcreated.1

/-- The new child is the one that `ticks` does not have yet. -/
theorem good_started (h : s.Good) (hphase : s.phase = .sleeping) :
    Good {s with started := s.started ++ [⟨.running, 0⟩], phase := .created} := by
  apply good_awake
  · simp
  · simp
  · intro i hi
    obtain ⟨t, ht, hnone⟩ := unfinished_iff.1 hi
    by_cases hold : i < s.started.length
    · have ht' : s.started[i]? = some t := by
        rw [← ht]
        exact (List.getElem?_append_left hold).symm
      exact .inl (h.known_of_ne (by simp [hphase]) i (unfinished_iff.2 ⟨t, ht', hnone⟩))
    · have hlt : i < (s.started ++ [(⟨.running, 0⟩ : Tick)]).length := unfinished_lt hi
      have hlength : (s.started ++ [(⟨.running, 0⟩ : Tick)]).length = s.started.length + 1 := by simp
      refine .inr ⟨rfl, ?_⟩
      show i + 1 = (s.started ++ [(⟨.running, 0⟩ : Tick)]).length
      omega
  · intro t ht
    obtain hold | hnew := List.mem_append.1 ht
    · exact h.untold (by simp [hphase]) (by simp [hphase]) t hold
    · rw [List.mem_singleton.1 hnew]

/-- With nobody of `ticks` left, nobody is. -/
theorem good_returned (h : s.Good) (hphase : s.phase = .gathering) (hleft : s.ticks.any s.unfinished = false) :
    Good {s with phase := .returned 0} := by
  have hall (i : Nat) : ¬ s.unfinished i = true := by
    intro hi
    have hany := List.any_eq_true.2 ⟨i, h.known_of_ne (by simp [hphase]) i hi, hi⟩
    rw [hleft] at hany
    cases hany
  refine ⟨fun i hi => absurd hi (hall i), fun _ hne => absurd rfl hne, h.once, fun hne => absurd hne (by simp),
    fun _ => h.stopped (.inl hphase), ?_⟩
  intro _ t ht
  obtain ⟨i, hi⟩ := List.mem_iff_getElem?.1 ht
  cases hcode : t.process.returncode with
  | some code => rfl
  | none => exact absurd (unfinished_iff.2 ⟨t, hi, hcode⟩) (hall i)

theorem resume_good (h : s.Good) (creation : Creation) : (s.resume creation).Good := by
  have hcases := resume_cases creation s
  generalize s.resume creation = s' at hcases ⊢
  cases hcases with
  | stopped hphase hstop =>
    exact good_finish (h.known_of_ne (by simp [hphase])) (h.untold (by simp [hphase]) (by simp [hphase])) hstop
  | started hphase hstop hcreation => exact good_started h hphase
  | osError hphase hstop hcreation =>
    exact good_awake (by simp) (by simp) (fun i hi => .inl (h.known_of_ne (by simp [hphase]) i hi))
      (h.untold (by simp [hphase]) (by simp [hphase]))
  | raised hphase hstop hcreation =>
    exact good_awake (by simp) (by simp) (fun i hi => .inl (h.known_of_ne (by simp [hphase]) i hi))
      (h.untold (by simp [hphase]) (by simp [hphase]))
  | again hphase hstop =>
    exact good_awake (by simp) (by simp) (fun i hi => .inl (mem_append h i hi))
      (h.untold (by simp [hphase]) (by simp [hphase]))
  | last hphase hstop =>
    exact good_finish (mem_append h) (h.untold (by simp [hphase]) (by simp [hphase])) hstop
  | waits hphase hleft => exact h
  | returns hphase hleft => exact good_returned h hphase hleft
  | ended hphase => exact h

/-- An event changes no more than how far a child has come. -/
theorem getElem?_childEvent {k : Nat} {e : Process.Event} (h : (step (.child k e) s).started[i]? = some t) :
    ∃ t₀, s.started[i]? = some t₀ ∧ t.terminated = t₀.terminated ∧ (t.process = t₀.process ∨ t.process = t₀.process.on e) := by
  have hmodify : (s.started.modify k fun t => {t with process := t.process.on e})[i]? = some t := h
  rw [List.getElem?_modify] at hmodify
  obtain ⟨t₀, ht₀, rfl⟩ := Option.map_eq_some_iff.1 hmodify
  refine ⟨t₀, ht₀, ?_⟩
  split
  · exact ⟨rfl, .inr rfl⟩
  · exact ⟨rfl, .inl rfl⟩

theorem returncode_childEvent {e : Process.Event} {t₀ : Tick}
    (h : t.process = t₀.process ∨ t.process = t₀.process.on e) (hcode : t₀.process.returncode.isSome = true) :
    t.process.returncode.isSome = true := by
  obtain heq | heq := h
  · rwa [heq]
  · rw [heq]
    exact returncode_on e hcode

theorem childEvent_good (h : s.Good) (k : Nat) (e : Process.Event) : (step (.child k e) s).Good := by
  have hunfinished (i : Nat) (hi : (step (.child k e) s).unfinished i = true) : s.unfinished i = true := by
    obtain ⟨t, ht, hnone⟩ := unfinished_iff.1 hi
    obtain ⟨t₀, ht₀, -, hprocess⟩ := getElem?_childEvent ht
    refine unfinished_iff.2 ⟨t₀, ht₀, ?_⟩
    rw [← Option.not_isSome_iff_eq_none] at hnone ⊢
    exact fun hcode => hnone (returncode_childEvent hprocess hcode)
  have hmem (t : Tick) (ht : t ∈ (step (.child k e) s).started) : ∃ t₀ ∈ s.started, t.terminated = t₀.terminated ∧
      (t.process = t₀.process ∨ t.process = t₀.process.on e) := by
    obtain ⟨i, hi⟩ := List.mem_iff_getElem?.1 ht
    obtain ⟨t₀, ht₀, hrest⟩ := getElem?_childEvent hi
    exact ⟨t₀, List.mem_of_getElem? ht₀, hrest⟩
  have hlength : (step (.child k e) s).started.length = s.started.length := List.length_modify ..
  refine ⟨?_, ?_, ?_, ?_, h.stopped, ?_⟩
  · intro i hi
    rw [hlength]
    exact h.known i (hunfinished i hi)
  · intro hphase hreturned t ht
    obtain ⟨t₀, ht₀, hcount, -⟩ := hmem t ht
    rw [hcount]
    exact h.untold hphase hreturned t₀ ht₀
  · intro t ht
    obtain ⟨t₀, ht₀, hcount, -⟩ := hmem t ht
    rw [hcount]
    exact h.once t₀ ht₀
  · intro hphase i t ht hnone
    obtain ⟨t₀, ht₀, hnone₀⟩ := unfinished_iff.1 (hunfinished i (unfinished_iff.2 ⟨t, ht, hnone⟩))
    obtain ⟨t₁, ht₁, hcount, -⟩ := getElem?_childEvent ht
    rw [hcount]
    rw [ht₀] at ht₁
    cases ht₁
    exact h.told hphase i t₀ ht₀ hnone₀
  · intro hphase t ht
    obtain ⟨t₀, ht₀, -, hprocess⟩ := hmem t ht
    exact returncode_childEvent hprocess (h.ended hphase t₀ ht₀)

theorem step_good (input : Input) (s : Worker) (h : s.Good) : (step input s).Good := by
  cases input with
  | resume creation => exact resume_good h creation
  | signal => exact ⟨h.known, h.untold, h.once, h.told, fun _ => rfl, h.ended⟩
  | child k e => exact childEvent_good h k e

/-! ### After the stop -/

/-- A child keeps its place, and what it was told if it has ended. -/
def Follows (s s' : Worker) : Prop := ∀ (i : Nat) (t : Tick), s.started[i]? = some t → t.process.returncode.isSome = true →
  ∃ t', s'.started[i]? = some t' ∧ t'.process.returncode.isSome = true ∧ t'.terminated = t.terminated

theorem follows_finish (s : Worker) : Follows s s.finish := by
  intro i t ht hcode
  have hout : ¬ (s.ticks.filter s.unfinished).contains i = true := by
    rw [List.contains_iff_mem, List.mem_filter]
    rintro ⟨-, hleft⟩
    obtain ⟨t₀, ht₀, hnone⟩ := unfinished_iff.1 hleft
    rw [ht] at ht₀
    cases ht₀
    rw [hnone] at hcode
    cases hcode
  refine ⟨t, ?_, hcode, rfl⟩
  rw [getElem?_finish, ht, Option.map_some]
  unfold terminate
  rw [if_neg hout]

theorem follows_refl {s' : Worker} (h : s'.started = s.started) : Follows s s' := by
  intro i t ht hcode
  exact ⟨t, by rw [h, ht], hcode, rfl⟩

theorem step_follows (input : Input) (s : Worker) : Follows s (step input s) := by
  cases input with
  | resume creation =>
    have hcases := resume_cases creation s
    show Follows s (s.resume creation)
    generalize s.resume creation = s' at hcases ⊢
    cases hcases with
    | stopped hphase hstop => exact follows_finish s
    | started hphase hstop hcreation =>
      intro i t ht hcode
      refine ⟨t, ?_, hcode, rfl⟩
      rw [← ht]
      exact List.getElem?_append_left (List.getElem?_eq_some_iff.1 ht).1
    | osError hphase hstop hcreation => exact follows_refl rfl
    | raised hphase hstop hcreation => exact follows_refl rfl
    | again hphase hstop => exact follows_refl rfl
    | last hphase hstop => exact follows_finish s.append
    | waits hphase hleft => exact follows_refl rfl
    | returns hphase hleft => exact follows_refl rfl
    | ended hphase => exact follows_refl rfl
  | signal => exact follows_refl rfl
  | child k e =>
    intro i t ht hcode
    have hmodify : (step (.child k e) s).started[i]? = s.started[i]?.map
        fun t => if k = i then {t with process := t.process.on e} else t := List.getElem?_modify ..
    rw [ht, Option.map_some] at hmodify
    refine ⟨_, hmodify, ?_⟩
    split
    · exact ⟨returncode_on e hcode, rfl⟩
    · exact ⟨hcode, rfl⟩

theorem run_follows (s : Worker) (rest : List Input) : Follows s (machine.run s rest) := by
  induction rest generalizing s with
  | nil => exact follows_refl rfl
  | cons input rest ih =>
    intro i t ht hcode
    obtain ⟨t₁, ht₁, hcode₁, hcount₁⟩ := step_follows input s i t ht hcode
    obtain ⟨t₂, ht₂, hcode₂, hcount₂⟩ := ih (step input s) i t₁ ht₁ hcode₁
    exact ⟨t₂, ht₂, hcode₂, hcount₂.trans hcount₁⟩

/-- The next await finds a worker that was told to stop past its loop, and every child told that runs. -/
theorem resume_leaves (h : s.Good) (hstop : s.stop = true) (hloop : s.phase.inLoop = true) (creation : Creation) :
    (s.resume creation).phase = .gathering ∧ (s.resume creation).started = s.started.map Tick.told := by
  have hcases := resume_cases creation s
  generalize s.resume creation = s' at hcases ⊢
  cases hcases with
  | stopped hphase _ =>
    exact ⟨rfl, started_finish fun i hi => (h.known i hi).resolve_right fun hcreated => by simp [hphase] at hcreated⟩
  | last hphase _ => exact ⟨rfl, started_finish (mem_append h)⟩
  | started hphase hgo hcreation => exact absurd hstop (by rw [hgo]; decide)
  | osError hphase hgo hcreation => exact absurd hstop (by rw [hgo]; decide)
  | raised hphase hgo hcreation => exact absurd hstop (by rw [hgo]; decide)
  | again hphase hgo => exact absurd hstop (by rw [hgo]; decide)
  | waits hphase hleft => rw [hphase] at hloop; cases hloop
  | returns hphase hleft => rw [hphase] at hloop; cases hloop
  | ended hphase =>
    obtain ⟨code, hcode⟩ | hraised := hphase
    · rw [hcode] at hloop
      cases hloop
    · rw [hraised] at hloop
      cases hloop

/-- A worker that was told to stop, with as many children as it will have. -/
structure Stopped (n : Nat) (b : Bool) (s : Worker) : Prop where
  stop : s.stop = true
  children : s.started.length = n
  failed : s.phase.failed = b

/-- One, as long as the worker is in its loop. -/
def waits (s : Worker) : Nat := if s.phase.inLoop then 1 else 0

theorem resume_stopped {n : Nat} {b : Bool} (h : Stopped n b s) (creation : Creation) :
    Stopped n b (s.resume creation) ∧ (s.resume creation).waits = 0 := by
  have hcases := resume_cases creation s
  have hfailed := h.failed
  generalize s.resume creation = s' at hcases ⊢
  cases hcases with
  | stopped hphase _ =>
    rw [hphase] at hfailed
    exact ⟨⟨h.stop, length_finish.trans h.children, hfailed⟩, rfl⟩
  | last hphase _ =>
    rw [hphase] at hfailed
    exact ⟨⟨h.stop, (length_finish (s := s.append)).trans h.children, hfailed⟩, rfl⟩
  | started hphase hgo hcreation => exact absurd h.stop (by rw [hgo]; decide)
  | osError hphase hgo hcreation => exact absurd h.stop (by rw [hgo]; decide)
  | raised hphase hgo hcreation => exact absurd h.stop (by rw [hgo]; decide)
  | again hphase hgo => exact absurd h.stop (by rw [hgo]; decide)
  | waits hphase hleft => exact ⟨h, by simp [waits, hphase, Phase.inLoop]⟩
  | returns hphase hleft =>
    rw [hphase] at hfailed
    exact ⟨⟨h.stop, h.children, hfailed⟩, rfl⟩
  | ended hphase =>
    refine ⟨h, ?_⟩
    obtain ⟨code, hcode⟩ | hraised := hphase
    · simp [waits, hcode, Phase.inLoop]
    · simp [waits, hraised, Phase.inLoop]

theorem step_stopped {n : Nat} {b : Bool} (input : Input) (s : Worker) (h : Stopped n b s) :
    Stopped n b (step input s) ∧ (step input s).waits ≤ s.waits - if input.resumes then 1 else 0 := by
  cases input with
  | resume creation =>
    obtain ⟨hstopped, hwaits⟩ := resume_stopped h creation
    refine ⟨hstopped, ?_⟩
    show (s.resume creation).waits ≤ _
    rw [hwaits]
    exact Nat.zero_le _
  | signal => exact ⟨⟨rfl, h.children, h.failed⟩, Nat.le_refl _⟩
  | child k e => exact ⟨⟨h.stop, (List.length_modify ..).trans h.children, h.failed⟩, Nat.le_refl _⟩

/-! ### Before the stop -/

theorem resume_sound (hsound : s.phase.failed = false) {creation : Creation} (hcreation : creation = .started) :
    (s.resume creation).phase.failed = false := by
  have hcases := resume_cases creation s
  generalize s.resume creation = s' at hcases ⊢
  cases hcases with
  | osError hphase hgo hfails => rw [hcreation] at hfails; cases hfails
  | raised hphase hgo hfails => rw [hcreation] at hfails; cases hfails
  | stopped hphase _ => rfl
  | last hphase _ => rfl
  | started hphase hgo _ => rfl
  | again hphase hgo => rfl
  | returns hphase hleft => rfl
  | waits hphase hleft => exact hsound
  | ended hphase => exact hsound

theorem step_sound (input : Input) (s : Worker) (h : input.fails = false) (hsound : s.phase.failed = false) :
    (step input s).phase.failed = false := by
  cases input with
  | resume creation => exact resume_sound hsound (by simpa [Input.fails] using h)
  | signal => exact hsound
  | child k e => exact hsound

/-- A worker that never fails to create a child does not fail. -/
theorem run_sound {inputs : List Input} (h : ∀ input ∈ inputs, input.fails = false) (hsound : s.phase.failed = false) :
    (machine.run s inputs).phase.failed = false :=
  Machine.invariant (I := fun s => s.phase.failed = false) step_sound hsound (Machine.admissible_of_forall (fun i hi _ => h i hi) s)

theorem resume_stop (creation : Creation) : (s.resume creation).stop = s.stop := by
  have hcases := resume_cases creation s
  generalize s.resume creation = s' at hcases ⊢
  cases hcases <;> rfl

theorem step_keeps_stop (input : Input) (s : Worker) (h : s.stop = true) : (step input s).stop = true := by
  cases input with
  | resume creation => exact (resume_stop creation).trans h
  | signal => rfl
  | child k e => exact h

theorem stop_of_run {inputs : List Input} (h : (machine.run s inputs).stop = false) : s.stop = false := by
  cases hstop : s.stop with
  | false => rfl
  | true =>
    have hkept : (machine.run s inputs).stop = true :=
      Machine.invariant_all (I := fun s : Worker => s.stop = true) step_keeps_stop hstop inputs
    rw [h] at hkept
    cases hkept

/-- One, while a child is being created. -/
def creating (s : Worker) : Nat := if s.phase = .created then 1 else 0

/-- A worker gets on to start a child, and then to go to sleep. -/
theorem resume_counts (hloop : s.phase.inLoop = true) (hstop : s.stop = false) :
    (s.resume .started).phase.inLoop = true ∧
    2 * (s.resume .started).started.length + s.creating = 2 * s.started.length + 1 + (s.resume .started).creating := by
  have hcases := resume_cases .started s
  generalize s.resume .started = s' at hcases ⊢
  cases hcases with
  | started hphase _ _ =>
    refine ⟨rfl, ?_⟩
    simp only [creating, hphase, List.length_append, List.length_singleton, reduceCtorEq, if_false, if_true]
    omega
  | again hphase _ =>
    refine ⟨rfl, ?_⟩
    simp only [creating, append, hphase, reduceCtorEq, if_false, if_true]
  | stopped hphase htold => rw [hstop] at htold; cases htold
  | last hphase htold => rw [hstop] at htold; cases htold
  | osError hphase _ hfails => cases hfails
  | raised hphase _ hfails => cases hfails
  | waits hphase hleft => rw [hphase] at hloop; cases hloop
  | returns hphase hleft => rw [hphase] at hloop; cases hloop
  | ended hphase =>
    obtain ⟨code, hcode⟩ | hraised := hphase
    · rw [hcode] at hloop
      cases hloop
    · rw [hraised] at hloop
      cases hloop

theorem run_counts {inputs : List Input} (hloop : s.phase.inLoop = true) (hfails : ∀ input ∈ inputs, input.fails = false)
    (hstop : (machine.run s inputs).stop = false) :
    2 * (machine.run s inputs).started.length + s.creating =
      2 * s.started.length + inputs.countP Input.resumes + (machine.run s inputs).creating := by
  induction inputs generalizing s with
  | nil => rfl
  | cons input rest ih =>
    rw [List.forall_mem_cons] at hfails
    have hgo : (step input s).stop = false := stop_of_run hstop
    rw [List.countP_cons]
    cases input with
    | resume creation =>
      have hcreation : creation = .started := by simpa [Input.fails] using hfails.1
      subst hcreation
      obtain ⟨hloop', hcount⟩ := resume_counts hloop ((resume_stop .started).symm.trans hgo)
      have hrest := ih (s := s.resume .started) hloop' hfails.2 hstop
      have hone : (if (Input.resume .started).resumes = true then 1 else 0) = 1 := rfl
      rw [hone]
      show 2 * (machine.run (s.resume .started) rest).started.length + _ = _ + (machine.run (s.resume .started) rest).creating
      omega
    | signal => cases hgo
    | child k e =>
      have hrest := ih (s := step (.child k e) s) hloop hfails.2 hstop
      have hlength : (step (.child k e) s).started.length = s.started.length := List.length_modify ..
      rw [hlength] at hrest
      exact hrest

theorem returns_iff (h : s.Good) (hphase : s.phase = .gathering) (creation : Creation) :
    (s.resume creation).phase = .returned 0 ↔ ∀ t ∈ s.started, t.process.returncode.isSome = true := by
  have hnext : (s.resume creation).Good := resume_good h creation
  have hresume : s.resume creation = if s.ticks.any s.unfinished then s else {s with phase := .returned 0} := by
    unfold resume
    rw [hphase]
  rw [hresume] at hnext ⊢
  split
  · rename_i hany
    obtain ⟨i, -, hi⟩ := List.any_eq_true.1 hany
    obtain ⟨t, ht, hcode⟩ := unfinished_iff.1 hi
    constructor
    · intro hreturned
      rw [hphase] at hreturned
      cases hreturned
    · intro hall
      have hsome := hall t (List.mem_of_getElem? ht)
      rw [hcode] at hsome
      cases hsome
  · rename_i hnone
    rw [if_neg hnone] at hnext
    exact ⟨fun _ => hnext.ended rfl, fun _ => rfl⟩

end Worker

open Worker

/-- **A scheduler that is stopped leaves no child behind.** However its awaits, its children and the signals fall:
until the event is set it starts a child each time it wakes, and ends only where a child cannot be created. Nobody is
told to end before the event is set, nobody twice, and nobody who has ended. After that no child is started and the
worker does not fail; at its next await it has told just the children that run and waits for them. It returns 0 when
all have ended, and not before. -/
theorem stopped_worker_leaves_no_child (stop : Bool) (inputs : List Input) :
    let s := machine.run (start stop) inputs
    (s.phase.failed = true → ∃ input ∈ inputs, input.fails = true) ∧
    ((∀ input ∈ inputs, input.fails = false) → s.stop = false →
      2 * s.started.length = inputs.countP Input.resumes + s.creating) ∧
    (∀ t ∈ s.started, t.terminated ≤ 1 ∧ (s.stop = false → t.terminated = 0)) ∧
    (∀ rest, Follows s (machine.run s rest)) ∧
    (s.stop = true → s.phase.inLoop = true → ∀ creation,
      (s.resume creation).phase = .gathering ∧ (s.resume creation).started = s.started.map Tick.told) ∧
    (s.stop = true → ∀ rest, (machine.run s rest).started.length = s.started.length ∧
      (machine.run s rest).phase.failed = s.phase.failed ∧
      (1 ≤ rest.countP Input.resumes → (machine.run s rest).phase.inLoop = false)) ∧
    (s.phase = .gathering →
      (∀ (i : Nat) (t : Tick), s.started[i]? = some t → t.process.returncode = none → t.terminated = 1) ∧
      ∀ creation, (s.resume creation).phase = .returned 0 ↔ ∀ t ∈ s.started, t.process.returncode.isSome = true) ∧
    (s.phase = .returned 0 → ∀ t ∈ s.started, t.process.returncode.isSome = true) := by
  intro s
  have hgood : s.Good := Machine.invariant_all step_good (good_start stop) inputs
  -- The invariant gives what holds at one moment. What holds of the steps after a stop goes by another run.
  refine ⟨?_, ?_, ?_, run_follows s, resume_leaves hgood, ?_, ?_, hgood.ended⟩
  · intro hfailed
    by_contra hnone
    have hsound : s.phase.failed = false := by
      refine run_sound (fun input hin => Bool.eq_false_iff.2 fun hfails => hnone ⟨input, hin, hfails⟩) ?_
      cases stop <;> rfl
    rw [hsound] at hfailed
    cases hfailed
  · intro hfails hstop
    have hgo : (start stop).stop = false := stop_of_run hstop
    cases stop with
    | true => cases hgo
    | false =>
      have hcount := run_counts (s := start false) rfl hfails hstop
      have hnone : (start false).creating = 0 := rfl
      have hempty : (start false).started.length = 0 := rfl
      show 2 * (machine.run (start false) inputs).started.length = _ + (machine.run (start false) inputs).creating
      omega
  · intro t ht
    refine ⟨hgood.once t ht, fun hstop => hgood.untold ?_ ?_ t ht⟩
    · intro hphase
      rw [hgood.stopped (.inl hphase)] at hstop
      cases hstop
    · intro hphase
      rw [hgood.stopped (.inr hphase)] at hstop
      cases hstop
  -- Stopped, it waits at most once more in the loop.
  · intro hstop rest
    have hstart : Stopped s.started.length s.phase.failed s := ⟨hstop, rfl, rfl⟩
    have hend : Stopped s.started.length s.phase.failed (machine.run s rest) :=
      Machine.invariant_all (fun i s h => (step_stopped i s h).1) hstart rest
    have hwaits : (machine.run s rest).waits ≤ s.waits - rest.countP Input.resumes :=
      Machine.countdown (fun i s h => step_stopped i s h) hstart rest
    refine ⟨hend.children, hend.failed, fun honce => Bool.eq_false_iff.2 fun hloop => ?_⟩
    have hone : (machine.run s rest).waits = 1 := if_pos hloop
    have hfew : s.waits ≤ 1 := by
      unfold Worker.waits
      split <;> omega
    omega
  · intro hphase
    exact ⟨hgood.told hphase, returns_iff hgood hphase⟩

end PyAppRunner.Cron.Work
