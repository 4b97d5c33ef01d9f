import Mathlib.Algebra.Order.Field.Rat
import Mathlib.Tactic.Linarith
import Mathlib.Tactic.Ring
import PyAppRunner.Base.Dict
import PyAppRunner.Base.Run

/-! The timer: who has the time that passes.

Blocks are entered and left one inside another. Entering pauses the block around, leaving resumes it, and
each call of `start` or `stop` may make one of the other. What a total ought to be is said by the ledger:
between two readings of the clock passes a stretch of time, and it is the innermost open block's.

Time is exact, in seconds. -/
namespace PyAppRunner.Timing
open Base

/-! ### The timer -/

/-- `TimerProperties`. -/
structure Properties where
  level : Int
  total : ℚ
  runtimes : Dict Int ℚ

/-- A timer: the open blocks, and the totals so far. -/
structure Timer where
  name : String
  startTimes : Dict String ℚ
  totalTimes : Dict String Properties
  /-- The last one first. -/
  timers : List (Int × String)
  level : Int
  runIndex : Int

namespace Timer

/-- `Timer.__init__`. -/
def init (name : String) : Timer := ⟨name, .empty, .empty, [], 0, 0⟩

/-- The entry of a name, a new one if there is none. -/
def properties (s : Timer) (name : String) : Properties := (s.totalTimes.get name).getD ⟨s.level, 0, .empty⟩

/-- The time of this run is set, and added to the total. -/
def add (name : String) (elapsed : ℚ) (s : Timer) : Timer :=
  let p := s.properties name
  let p := {p with runtimes := p.runtimes.set s.runIndex elapsed, total := p.total + elapsed}
  {s with totalTimes := s.totalTimes.set name p}

/-- What `stop` does first: the time since the start is added. Nothing is, and there is a warning, if there
was no start. -/
def record (name : String) (now : ℚ) (s : Timer) : Option Timer :=
  (s.startTimes.get name).map fun begun => s.add name (now - begun)

/-- `stop` with `skip_remove`. -/
def pause (name : String) (now : ℚ) (s : Timer) : Timer := (s.record name now).getD s

/-- A block begins. The one around it pauses if it is on another level. -/
def start (name : String) (skipAppend : Bool) (now : ℚ) (s : Timer) : Timer :=
  let s := match s.timers with
    | (level, prev) :: _ => if prev ≠ name ∧ level ≠ s.level then s.pause prev now else s
    | [] => s
  let s := {s with startTimes := s.startTimes.set name now}
  if skipAppend then s else {s with timers := (s.level, name) :: s.timers}

/-- `stop`; there may be nothing to pop. -/
def stop (name : String) (now : ℚ) (s : Timer) : Option Timer :=
  match s.record name now with
  | none => some s
  | some s =>
    match s.timers with
    | [] => none
    | _ :: timers =>
      let s := {s with timers}
      match timers with
      | (level, prev) :: _ => some (if prev ≠ name ∧ level ≠ s.level then s.start prev true now else s)
      | [] => some s

/-- `enter`, and `aenter`, up to the block. -/
def enter (name : String) (now : ℚ) (s : Timer) : Timer := {s with level := s.level + 1}.start name false now

/-- From the end of the block, also where an exception ended it. -/
def leave (name : String) (now : ℚ) (s : Timer) : Option Timer :=
  (s.stop name now).map fun s => {s with level := s.level - 1}

/-- `reset_timers`. -/
def resetTimers (s : Timer) : Timer := {s with startTimes := .empty, totalTimes := .empty}

end Timer

/-- What is done with a timer; the clock is read once at each entry and each exit. -/
inductive Event where
  | enter (name : String) (now : ℚ)
  | leave (name : String) (now : ℚ)
  | setRunIndex (i : Int)
  | resetTimers

namespace Timer

/-- One event of the timer. A block that is not the open one fails. -/
def on : Event → Timer → Option Timer
  | .enter name now, s => some (s.enter name now)
  | .leave name now, s => s.leave name now
  | .setRunIndex i, s => some {s with runIndex := i}
  | .resetTimers, s => some s.resetTimers

/-- The events in their order, as long as none fails. -/
def run (s : Timer) : List Event → Option Timer
  | [] => some s
  | e :: rest => (s.on e).bind fun s => run s rest

/-- The total of a name, nothing if there is none. -/
def total (s : Timer) (name : String) : ℚ := ((s.totalTimes.get name).map Properties.total).getD 0

/-- `total_time`. -/
def totalTime (s : Timer) : ℚ := (s.totalTimes.entries.map fun e => e.2.total).sum

end Timer

/-! ### The ledger -/

/-- Time between two readings of the clock: the blocks that were open, the innermost first, and the run in
which it ended. -/
structure Stretch where
  opened : List String
  length : ℚ
  runIndex : Int

/-- The open blocks, the last reading and the stretches since the last reset, the last one first. -/
structure Ledger where
  opened : List String
  last : ℚ
  runIndex : Int
  stretches : List Stretch

namespace Ledger

/-- Nothing was timed yet. -/
def init : Ledger := ⟨[], 0, 0, []⟩

/-- The time since the last event, with the blocks that were open. -/
def stretch (l : Ledger) (now : ℚ) : Stretch := ⟨l.opened, now - l.last, l.runIndex⟩

/-- The ledger of all events. -/
def machine : Machine Ledger Event where
  step
    | .enter name now, l => {l with opened := name :: l.opened, last := now, stretches := l.stretch now :: l.stretches}
    | .leave _ now, l => {l with opened := l.opened.tail, last := now, stretches := l.stretch now :: l.stretches}
    | .setRunIndex i, l => {l with runIndex := i}
    | .resetTimers, l => {l with stretches := []}

/-- The time during which the name was innermost. -/
def spent (l : Ledger) (name : String) : ℚ :=
  ((l.stretches.filter fun x => x.opened.head? = some name).map Stretch.length).sum

/-- The time during which any block was open. -/
def busy (l : Ledger) : ℚ := ((l.stretches.filter fun x => !x.opened.isEmpty).map Stretch.length).sum

end Ledger

/-- Blocks are well nested, and none is entered while one of its name is open. The timers are reset
between blocks. -/
def Event.Fits : Event → Ledger → Prop
  | .enter name _, l => name ∉ l.opened
  | .leave name _, l => l.opened.head? = some name
  | .setRunIndex _, _ => True
  | .resetTimers, l => l.opened = []

instance (e : Event) (l : Ledger) : Decidable (e.Fits l) :=
  match e with
  | .enter name _ => inferInstanceAs (Decidable (name ∉ l.opened))
  | .leave name _ => inferInstanceAs (Decidable (l.opened.head? = some name))
  | .setRunIndex _ => inferInstanceAs (Decidable True)
  | .resetTimers => inferInstanceAs (Decidable (l.opened = []))

namespace Ledger

theorem spent_cons (l : Ledger) (opened : List String) (last : ℚ) (x : Stretch) (name : String) :
    Ledger.spent {l with opened, last, stretches := x :: l.stretches} name =
      l.spent name + if x.opened.head? = some name then x.length else 0 := by
  unfold spent
  rw [List.filter_cons]
  by_cases hname : x.opened.head? = some name
  · simp [hname, add_comm]
  · simp [hname]

theorem busy_cons (l : Ledger) (opened : List String) (last : ℚ) (x : Stretch) :
    Ledger.busy {l with opened, last, stretches := x :: l.stretches} =
      l.busy + if x.opened.isEmpty then 0 else x.length := by
  unfold busy
  rw [List.filter_cons]
  cases x.opened.isEmpty
  · simp [add_comm]
  · simp

end Ledger

/-! ### One step -/

/-- The sum over the entries after one is set. -/
theorem sum_putEntry {κ ν : Type} [DecidableEq κ] (f : ν → ℚ) (k : κ) (v : ν) {entries : List (κ × ν)}
    (hnodup : (entries.map Prod.fst).Nodup) :
    ((putEntry k v entries).map fun e => f e.2).sum =
      (entries.map fun e => f e.2).sum - ((entries.lookup k).map f).getD 0 + f v := by
  induction entries with
  | nil => simp [putEntry]
  | cons e rest ih =>
    rw [List.map_cons, List.nodup_cons] at hnodup
    rw [putEntry, lookup_cons_eq]
    by_cases he : e.1 = k
    · rw [if_pos he, if_pos he.symm]
      simp only [List.map_cons, List.sum_cons, Option.map_some, Option.getD_some]
      ring
    · rw [if_neg he, if_neg (Ne.symm he)]
      simp only [List.map_cons, List.sum_cons, ih hnodup.2]
      ring

theorem sum_set {κ ν : Type} [DecidableEq κ] (f : ν → ℚ) (d : Dict κ ν) (k : κ) (v : ν) :
    ((d.set k v).entries.map fun e => f e.2).sum =
      (d.entries.map fun e => f e.2).sum - ((d.get k).map f).getD 0 + f v :=
  sum_putEntry f k v d.nodup

namespace Timer

theorem record_eq {s : Timer} {name : String} {begun : ℚ} (h : s.startTimes.get name = some begun) (now : ℚ) :
    s.record name now = some (s.add name (now - begun)) := by
  rw [record, h, Option.map_some]

/-- The runtimes of a name, none if it has no entry. -/
def runtimes (s : Timer) (name : String) : Dict Int ℚ := ((s.totalTimes.get name).map Properties.runtimes).getD .empty

/-- Time is recorded for a name and for no other. -/
def Adds (name : String) (elapsed : ℚ) (s s' : Timer) : Prop :=
  ∃ level, s'.totalTimes =
    s.totalTimes.set name ⟨level, s.total name + elapsed, (s.runtimes name).set s.runIndex elapsed⟩

theorem adds_add (s : Timer) (name : String) (elapsed : ℚ) : Adds name elapsed s (s.add name elapsed) := by
  refine ⟨(s.properties name).level, ?_⟩
  show s.totalTimes.set name ⟨_, (s.properties name).total + elapsed, (s.properties name).runtimes.set s.runIndex elapsed⟩ = _
  unfold properties total runtimes
  cases s.totalTimes.get name <;> rfl

section
variable {name : String} {elapsed : ℚ} {s s' : Timer}

theorem Adds.total (h : Adds name elapsed s s') (name' : String) :
    s'.total name' = s.total name' + if name' = name then elapsed else 0 := by
  obtain ⟨level, h⟩ := h
  rw [Timer.total, h, Dict.get_set]
  split
  · next heq =>
    rw [heq]
    rfl
  · rw [add_zero]
    rfl

theorem Adds.totalTime (h : Adds name elapsed s s') : s'.totalTime = s.totalTime + elapsed := by
  obtain ⟨level, h⟩ := h
  have hsum := sum_set Properties.total s.totalTimes name
    ⟨level, s.total name + elapsed, (s.runtimes name).set s.runIndex elapsed⟩
  rw [← h] at hsum
  show (s'.totalTimes.entries.map fun e => e.2.total).sum = _
  rw [hsum, Timer.totalTime, ← Timer.total]
  ring

end

/-! ### The stack -/

/-- Open blocks, with their levels. -/
def numbered : List String → List (Int × String)
  | [] => []
  | name :: rest => ((rest.length : Int) + 1, name) :: numbered rest

/-- The stack is that of the ledger, and the innermost block was started at the last reading. -/
structure Stacked (l : Ledger) (s : Timer) : Prop where
  timers : s.timers = numbered l.opened
  level : s.level = l.opened.length
  nodup : l.opened.Nodup
  started : ∀ name, l.opened.head? = some name → s.startTimes.get name = some l.last
  runIndex : s.runIndex = l.runIndex

/-- The stretch up to a reading is recorded for the innermost block. -/
def Records (l : Ledger) (now : ℚ) (s s' : Timer) : Prop :=
  match l.opened.head? with
  | some name => Adds name (now - l.last) s s'
  | none => s'.totalTimes = s.totalTimes

section
variable {l : Ledger} {now : ℚ} {s s' : Timer} {name : String} {rest : List String}

theorem Records.of_closed (h : Records l now s s') (hopened : l.opened = []) : s'.totalTimes = s.totalTimes := by
  unfold Records at h
  rwa [hopened] at h

theorem Records.of_opened (h : Records l now s s') (hopened : l.opened = name :: rest) :
    Adds name (now - l.last) s s' := by
  unfold Records at h
  rwa [hopened] at h

theorem Records.total (h : Records l now s s') (name : String) :
    s'.total name = s.total name + if l.opened.head? = some name then now - l.last else 0 := by
  cases hopened : l.opened with
  | nil => simp [Timer.total, h.of_closed hopened]
  | cons first rest =>
    rw [(h.of_opened hopened).total]
    simp only [List.head?_cons, Option.some_inj, eq_comm]

theorem Records.totalTime (h : Records l now s s') :
    s'.totalTime = s.totalTime + if l.opened.isEmpty then 0 else now - l.last := by
  cases hopened : l.opened with
  | nil => simp [Timer.totalTime, h.of_closed hopened]
  | cons first rest => exact (h.of_opened hopened).totalTime

end

/-- What a reading records. -/
def settle (l : Ledger) (now : ℚ) (s : Timer) : Timer :=
  match l.opened.head? with
  | some name => s.add name (now - l.last)
  | none => s

theorem records_settle (l : Ledger) (now : ℚ) (s : Timer) : Records l now s (s.settle l now) := by
  unfold Records settle
  cases l.opened.head? with
  | none => rfl
  | some name => exact adds_add s name (now - l.last)

@[simp] theorem settle_timers (l : Ledger) (now : ℚ) (s : Timer) : (s.settle l now).timers = s.timers := by
  unfold settle
  cases l.opened.head? <;> rfl

@[simp] theorem settle_level (l : Ledger) (now : ℚ) (s : Timer) : (s.settle l now).level = s.level := by
  unfold settle
  cases l.opened.head? <;> rfl

@[simp] theorem settle_runIndex (l : Ledger) (now : ℚ) (s : Timer) : (s.settle l now).runIndex = s.runIndex := by
  unfold settle
  cases l.opened.head? <;> rfl

/-- Starting a block inside another pauses the one around. -/
theorem start_inside {l : Ledger} {s : Timer} (htimers : s.timers = numbered l.opened)
    (hlevel : s.level = l.opened.length + 1)
    (hstarted : ∀ name, l.opened.head? = some name → s.startTimes.get name = some l.last) {name : String}
    (hname : name ∉ l.opened) (now : ℚ) :
    s.start name false now = {s.settle l now with
      startTimes := s.startTimes.set name now, timers := (s.level, name) :: s.timers} := by
  cases hopened : l.opened with
  | nil => simp [start, settle, htimers, hopened, numbered]
  | cons prev rest =>
    have hne : prev ≠ name := fun heq => hname (by rw [hopened, heq]; exact List.mem_cons_self)
    have hdeeper : ((rest.length : Int) + 1) ≠ s.level := by
      rw [hlevel, hopened, List.length_cons]
      omega
    have hpause : s.pause prev now = s.add prev (now - l.last) := by
      rw [pause, record_eq (hstarted prev (by rw [hopened]; rfl)), Option.getD_some]
    have hpaused : (if prev ≠ name ∧ (rest.length : Int) + 1 ≠ s.level then s.pause prev now else s) =
        s.add prev (now - l.last) := by rw [if_pos ⟨hne, hdeeper⟩, hpause]
    have htop : s.timers = ((rest.length : Int) + 1, prev) :: numbered rest := by rw [htimers, hopened, numbered]
    simp only [start, settle, hopened, List.head?_cons, htop, hpaused]
    rw [← htop]
    rfl

/-- Starting the block that is innermost again starts its clock. -/
theorem start_again {s : Timer} {level : Int} {name : String} {timers : List (Int × String)}
    (h : s.timers = (level, name) :: timers) (now : ℚ) :
    s.start name true now = {s with startTimes := s.startTimes.set name now} := by
  simp [start, h]

/-- Leaving a block resumes the one around. -/
theorem stop_inside {s paused : Timer} {name : String} {now : ℚ} {level : Int} {rest : List String}
    (hrecord : s.record name now = some paused) (htimers : paused.timers = (level, name) :: numbered rest)
    (hlevel : (rest.length : Int) < paused.level) (hname : name ∉ rest) :
    ∃ startTimes, s.stop name now = some {paused with timers := numbered rest, startTimes} ∧
      ∀ prev, rest.head? = some prev → startTimes.get prev = some now := by
  cases rest with
  | nil => exact ⟨paused.startTimes, by simp [stop, hrecord, htimers, numbered], fun _ h => by cases h⟩
  | cons prev outer =>
    have hne : prev ≠ name := fun heq => hname (heq ▸ List.mem_cons_self)
    have hshallower : (outer.length : Int) + 1 ≠ paused.level := by
      rw [List.length_cons] at hlevel
      omega
    refine ⟨paused.startTimes.set prev now, ?_, ?_⟩
    · simp only [stop, hrecord, htimers, numbered]
      rw [if_pos ⟨hne, hshallower⟩, start_again rfl]
    · intro prev' hprev
      cases hprev
      rw [Dict.get_set, if_pos rfl]

theorem enter_steps {l : Ledger} {s : Timer} (h : Stacked l s) {name : String} (hname : name ∉ l.opened) (now : ℚ) :
    Stacked (Ledger.machine.step (.enter name now) l) (s.enter name now) ∧ Records l now s (s.enter name now) := by
  have hlevel : s.level + 1 = (l.opened.length : Int) + 1 := by rw [h.level]
  have hstart := start_inside (s := {s with level := s.level + 1}) h.timers hlevel h.started hname now
  rw [enter, hstart]
  refine ⟨⟨?_, ?_, List.nodup_cons.mpr ⟨hname, h.nodup⟩, ?_, ?_⟩, ?_⟩
  · show (s.level + 1, name) :: s.timers = numbered (name :: l.opened)
    rw [hlevel, h.timers, numbered]
  · show (Timer.settle l now _).level = ((name :: l.opened).length : Int)
    rw [settle_level, List.length_cons]
    exact hlevel
  · intro name' hname'
    cases hname'
    exact (Dict.get_set _ _ _ _).trans (if_pos rfl)
  · exact (settle_runIndex _ _ _).trans h.runIndex
  · exact records_settle l now {s with level := s.level + 1}

theorem leave_steps {l : Ledger} {s : Timer} (h : Stacked l s) {name : String} (hname : l.opened.head? = some name)
    (now : ℚ) : ∃ s', s.leave name now = some s' ∧ Stacked (Ledger.machine.step (.leave name now) l) s' ∧
      Records l now s s' := by
  have hrecord : s.record name now = some (s.settle l now) := by
    rw [record_eq (h.started name hname), settle, hname]
  obtain ⟨rest, hopened⟩ : ∃ rest, l.opened = name :: rest := by
    cases hl : l.opened with
    | nil => simp [hl] at hname
    | cons first rest =>
      rw [hl] at hname
      cases hname
      exact ⟨rest, rfl⟩
  have htimers : (s.settle l now).timers = ((rest.length : Int) + 1, name) :: numbered rest := by
    rw [settle_timers, h.timers, hopened, numbered]
  have hnodup := h.nodup
  rw [hopened, List.nodup_cons] at hnodup
  have hlevel : (s.settle l now).level = (rest.length : Int) + 1 := by
    rw [settle_level, h.level, hopened, List.length_cons]
    omega
  obtain ⟨startTimes, hstop, hstarted⟩ := stop_inside hrecord htimers (by omega) hnodup.1
  refine ⟨{s.settle l now with timers := numbered rest, startTimes, level := (s.settle l now).level - 1}, ?_,
    ⟨?_, ?_, ?_, ?_, ?_⟩, records_settle l now s⟩
  · rw [leave, hstop, Option.map_some]
  · show numbered rest = numbered l.opened.tail
    rw [hopened, List.tail_cons]
  · show (s.settle l now).level - 1 = (l.opened.tail.length : Int)
    rw [hlevel, hopened, List.tail_cons]
    omega
  · show l.opened.tail.Nodup
    rw [hopened, List.tail_cons]
    exact hnodup.2
  · intro prev hprev
    change l.opened.tail.head? = some prev at hprev
    rw [hopened, List.tail_cons] at hprev
    exact hstarted prev hprev
  · exact (settle_runIndex l now s).trans h.runIndex

/-- What every event keeps of timer and ledger, a run keeps. -/
theorem run_follows {rule : Event → Ledger → Prop} {R : Ledger → Timer → Prop}
    (hstep : ∀ e l s, rule e l → R l s → ∃ s', s.on e = some s' ∧ R (Ledger.machine.step e l) s')
    {l : Ledger} {s : Timer} (h : R l s) {events : List Event} (he : Ledger.machine.Admissible rule l events) :
    ∃ s', s.run events = some s' ∧ R (Ledger.machine.run l events) s' := by
  induction events generalizing l s with
  | nil => exact ⟨s, rfl, h⟩
  | cons e rest ih =>
    obtain ⟨s', hs', hnext⟩ := hstep e l s he.1 h
    obtain ⟨s'', hs'', hrest⟩ := ih hnext he.2
    exact ⟨s'', by rw [Timer.run, hs', Option.bind_some, hs''], hrest⟩

/-! ### The totals -/

/-- The totals are those of the ledger. -/
structure Follows (l : Ledger) (s : Timer) : Prop extends Stacked l s where
  total : ∀ name, s.total name = l.spent name
  totalTime : s.totalTime = l.busy

theorem follows_init (name : String) : Follows .init (.init name) where
  timers := rfl
  level := rfl
  nodup := List.nodup_nil
  started := fun _ h => by cases h
  runIndex := rfl
  total := fun _ => rfl
  totalTime := rfl

/-- Both count the stretch up to a reading for the same name. -/
theorem Follows.reading {l : Ledger} {s s' : Timer} (h : Follows l s) {now : ℚ} (hrecords : Records l now s s')
    {opened : List String} (hstacked : Stacked {l with opened, last := now, stretches := l.stretch now :: l.stretches} s') :
    Follows {l with opened, last := now, stretches := l.stretch now :: l.stretches} s' := by
  refine ⟨hstacked, fun name => ?_, ?_⟩
  · rw [Ledger.spent_cons, ← h.total]
    exact hrecords.total name
  · rw [Ledger.busy_cons, ← h.totalTime]
    exact hrecords.totalTime

/-- What one event keeps. -/
theorem Follows.step {l : Ledger} {s : Timer} (h : Follows l s) {e : Event} (he : e.Fits l) :
    ∃ s', s.on e = some s' ∧ Follows (Ledger.machine.step e l) s' := by
  cases e with
  | enter name now =>
    obtain ⟨hstacked, hrecords⟩ := enter_steps h.toStacked he now
    exact ⟨_, rfl, h.reading hrecords hstacked⟩
  | leave name now =>
    obtain ⟨s', hs', hstacked, hrecords⟩ := leave_steps h.toStacked he now
    exact ⟨s', hs', h.reading hrecords hstacked⟩
  | setRunIndex i => exact ⟨_, rfl, ⟨h.timers, h.level, h.nodup, h.started, rfl⟩, h.total, h.totalTime⟩
  | resetTimers =>
    refine ⟨_, rfl, ⟨h.timers, h.level, h.nodup, fun name hname => ?_, h.runIndex⟩, fun _ => rfl, rfl⟩
    have hopened : l.opened = [] := he
    change l.opened.head? = some name at hname
    rw [hopened] at hname
    cases hname

theorem Follows.run {l : Ledger} {s : Timer} (h : Follows l s) {events : List Event}
    (he : Ledger.machine.Admissible Event.Fits l events) :
    ∃ s', s.run events = some s' ∧ Follows (Ledger.machine.run l events) s' :=
  run_follows (fun _ _ _ he h => h.step he) h he

end Timer

/-- **The totals are exclusive and complete**: after any well-nested sequence of entries and exits, the
total of a name is the time during which its block was innermost, and all totals together are the time
during which any block was open. -/
theorem totals_exclusive_complete (timer : String) (events : List Event)
    (h : Ledger.machine.Admissible Event.Fits .init events) :
    ∃ s, (Timer.init timer).run events = some s ∧
      (∀ name, s.total name = (Ledger.machine.run .init events).spent name) ∧
      s.totalTime = (Ledger.machine.run .init events).busy := by
  obtain ⟨s, hs, hfollows⟩ := (Timer.follows_init timer).run h
  exact ⟨s, hs, hfollows.total, hfollows.totalTime⟩

/-- A tick that fetches twice, four seconds long; the second fetch fails. -/
def twoFetches : List Event :=
  [.enter "tick" 10, .enter "fetch" 11, .leave "fetch" 12, .enter "fetch" 12, .leave "fetch" 13, .leave "tick" 14]

theorem tick_half_its_own : ∃ s, (Timer.init "Timer").run twoFetches = some s ∧ s.total "tick" = 2 ∧
    s.total "fetch" = 2 ∧ s.totalTime = 4 := by
  obtain ⟨s, hs, htotal, htime⟩ := totals_exclusive_complete "Timer" twoFetches (by decide)
  refine ⟨s, hs, (htotal "tick").trans ?_, (htotal "fetch").trans ?_, htime.trans ?_⟩
  · decide +kernel
  · decide +kernel
  · decide +kernel

end PyAppRunner.Timing
