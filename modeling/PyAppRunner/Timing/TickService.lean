import PyAppRunner.Timing.Timer

/-! The tick service: a loop that may be told to stop at any time.

The coroutine of `run_loop` and those of `shutdown` are resumed in any order, and at any time the application
adds a callback, changes the interval or the mode, or asks for a shutdown. A function that is no coroutine
returns before anything else is resumed, which is one of these orders. What happens is written to a log, the
last mark first, and what a mark may say is said of the marks before it (`Mark.Fits`).

Each service runs its loop once. Its timer is the application's too, that may leave it in any state. -/
namespace PyAppRunner.Timing
open Base

/-- Where the coroutine of `run_loop` waits: for the callback at a place, in `need_to_shutdown` after it, for
`back_off_callback`, or in `loop_wait`. -/
inductive Loop where
  | idle
  | calling (i : Nat)
  | checking (i : Nat)
  | backingOff
  | waiting
  | finished
deriving DecidableEq

/-- Where that of `shutdown` waits: for its start, for `shut_down_callback`, or for all other tasks, the
shutdowns among them by their places. -/
inductive Shutdown where
  | created
  | calling
  | gathering (others : List Nat)
  | returned
  | cancelled
deriving DecidableEq

/-- How a wait ended, or what was called. -/
inductive Outcome where
  | done
  | raised
  | cancelled
deriving DecidableEq

/-- A tick as its callbacks are told, and its mode. -/
structure Tick where
  count : Nat
  time : ℚ
  backOff : Bool

/-- What the service does, as far as it can be seen from outside. -/
inductive Mark (κ : Type) where
  | added (callback : κ)
  | interval (seconds : ℚ)
  | mode (backOff : Bool)
  | tick (t : Tick)
  | call (callback : κ) (tickCount : Nat) (tickTime : ℚ)
  | backOff (callback : κ) (backOffCount : Nat) (tickTime : ℚ)
  | finished (tickCount : Nat) (tickTotal : ℚ)
  | failed
  | stop
  | cleared

/-- What the application may do to a service. The jitter is drawn. -/
inductive Action (κ : Type) where
  | addCallback (callback : κ)
  | setInterval (interval : ℚ)
  | increaseIntervalBy (amount : ℚ)
  | increaseIntervalExp (factor maxInterval jitter : ℚ)
  | resetInterval
  | setBackoff (start : Bool)
  | useTimer (timer : Timer)

/-- What the event loop hands to the service next. -/
inductive Input (κ : Type) where
  | runLoop (now later : ℚ)
  | resume (o : Outcome) (now later : ℚ)
  | app (a : Action κ)
  | signal
  | stopLoop (closed : Bool)
  | shutdown (j : Nat) (o : Outcome)

/-- The service, with what it has done so far. -/
structure Service (κ : Type) where
  defaultTickInterval : ℚ
  tickInterval : ℚ
  tickCount : Nat
  tickTime : ℚ
  callbacks : List κ
  shutDownCallback : Option κ
  backOffCallback : Option κ
  shutdownEvent : Bool
  backOffMode : Bool
  backOffCount : Nat
  timer : Timer
  loop : Loop
  shutdowns : List Shutdown
  log : List (Mark κ)

/-- The block of the timer that a tick runs in. -/
def tickBlock : String := "TickService.tick"

/-- The loop has begun and not ended. -/
def Loop.live : Loop → Bool
  | .idle | .finished => false
  | _ => true

/-- A shutdown that still runs. -/
def Shutdown.alive : Shutdown → Bool
  | .returned | .cancelled => false
  | _ => true

/-- The shutdown has set the event. -/
def Shutdown.hasAsked : Shutdown → Bool
  | .created | .cancelled => false
  | _ => true

variable {κ : Type}

namespace Service

/-- `TickService.__init__`. -/
def init (tickInterval : ℚ) (callback shutDownCallback backOffCallback : Option κ) : Service κ where
  defaultTickInterval := tickInterval
  tickInterval := tickInterval
  tickCount := 0
  tickTime := 0
  callbacks := callback.toList
  shutDownCallback := shutDownCallback
  backOffCallback := backOffCallback
  shutdownEvent := false
  backOffMode := false
  backOffCount := 0
  timer := .init "TickService"
  loop := .idle
  shutdowns := []
  log := .interval tickInterval :: callback.toList.map .added

/-- It is written down. -/
def mark (m : Mark κ) (s : Service κ) : Service κ := {s with log := m :: s.log}

/-! ### The application -/

/-- The interval is set, and that is written down. -/
def setTickInterval (interval : ℚ) (s : Service κ) : Service κ := {s with tickInterval := interval}.mark (.interval interval)

/-- What the application calls. -/
def act (s : Service κ) : Action κ → Service κ
  | .addCallback c => {s with callbacks := s.callbacks ++ [c]}.mark (.added c)
  | .setInterval interval => s.setTickInterval interval
  | .increaseIntervalBy amount => s.setTickInterval (s.tickInterval + amount)
  | .increaseIntervalExp factor maxInterval jitter => s.setTickInterval (min (s.tickInterval * factor) maxInterval * jitter)
  | .resetInterval => s.setTickInterval s.defaultTickInterval
  | .setBackoff start => {s with backOffMode := start, backOffCount := 0}.mark (.mode start)
  | .useTimer timer => {s with timer}

/-! ### The loop -/

/-- From the end of the tick's block to the next wait. Leaving the block may raise. -/
def endTick (now : ℚ) (s : Service κ) : Service κ :=
  match s.timer.leave tickBlock now with
  | none => {s with loop := .finished}.mark .failed
  | some timer =>
    let s := s.mark (.finished s.tickCount (timer.total tickBlock))
    let s := {s with timer := {timer.resetTimers with runIndex := timer.runIndex + 1}}
    if s.shutdownEvent then {s with loop := .finished} else {s with loop := .waiting}

/-- An exception leaves the tick's block and `run_loop`. -/
def failTick (now : ℚ) (s : Service κ) : Service κ :=
  {s with timer := (s.timer.leave tickBlock now).getD s.timer, loop := .finished}.mark .failed

/-- The `for` loop goes on with the callback at a place. The list it goes through is the service's own: that is
replaced only when no tick is underway. -/
def nextCallback (i : Nat) (now : ℚ) (s : Service κ) : Service κ :=
  match s.callbacks[i]? with
  | some c => {s with loop := .calling i}.mark (.call c s.tickCount s.tickTime)
  | none => s.endTick now

/-- `_tick` up to where it first waits: the counts go up, and the first call is made, if there is
any. -/
def tick (now : ℚ) (s : Service κ) : Service κ :=
  let s := {s with tickCount := s.tickCount + 1, tickTime := s.tickTime + s.tickInterval}
  let s := s.mark (.tick ⟨s.tickCount, s.tickTime, s.backOffMode⟩)
  if s.backOffMode then
    let s := {s with backOffCount := s.backOffCount + 1}
    match s.backOffCallback with
    | some c => {s with loop := .backingOff}.mark (.backOff c s.backOffCount s.tickTime)
    | none => s.endTick now
  else s.nextCallback 0 now

/-- The head of the `while` loop. -/
def turn (now later : ℚ) (s : Service κ) : Service κ :=
  if s.shutdownEvent then {s with loop := .finished}
  else {s with timer := s.timer.enter tickBlock now}.tick later

/-- `run_loop` from one wait to the next. A sleep does not raise, and that it was cancelled is not passed on. -/
def resume (o : Outcome) (now later : ℚ) (s : Service κ) : Service κ :=
  match s.loop with
  | .calling i => if o = .done then {s with loop := .checking i} else s.failTick now
  | .checking i =>
    if o = .raised then s
    else if s.shutdownEvent then s.endTick now
    else s.nextCallback (i + 1) now
  | .backingOff => if o = .done then s.endTick now else s.failTick now
  | .waiting => if o = .raised then s else s.turn now later
  | .idle | .finished => s

/-! ### Shutting down -/

/-- That shutdown still runs. -/
def isAlive (s : Service κ) (k : Nat) : Bool := s.shutdowns[k]?.any Shutdown.alive

/-- All other tasks are cancelled and awaited. -/
def gather (j : Nat) (s : Service κ) : Service κ :=
  let others := (List.range s.shutdowns.length).filter fun k => !(k == j) && s.isAlive k
  {s with shutdowns := s.shutdowns.set j (.gathering others)}

/-- All of them have ended. -/
def gathered (others : List Nat) (s : Service κ) : Bool := !s.loop.live && others.all fun k => !s.isAlive k

/-- The event is set. A loop that waits learns of it where it is resumed. -/
def requestStop (s : Service κ) : Service κ := {s with shutdownEvent := true}.mark .stop

/-- `shutdown` from one wait to the next. What `shut_down_callback` raises is logged. -/
def resumeShutdown (j : Nat) (o : Outcome) (s : Service κ) : Service κ :=
  match s.shutdowns[j]?, o with
  | some .created, .done =>
    let s := s.requestStop
    if s.shutDownCallback.isSome then {s with shutdowns := s.shutdowns.set j .calling} else s.gather j
  | some .calling, .done => s.gather j
  | some .calling, .raised => s.gather j
  | some (.gathering others), .done =>
    if s.gathered others then
      {s with callbacks := [], shutDownCallback := none, shutdowns := s.shutdowns.set j .returned}.mark .cleared
    else s
  | some .created, .cancelled => {s with shutdowns := s.shutdowns.set j .cancelled}
  | some .calling, .cancelled => {s with shutdowns := s.shutdowns.set j .cancelled}
  | some (.gathering _), .cancelled => {s with shutdowns := s.shutdowns.set j .cancelled}
  | _, _ => s

/-- `shutdown_handler`, and what `stop_loop` schedules. -/
def createShutdown (s : Service κ) : Service κ := {s with shutdowns := s.shutdowns ++ [.created]}

/-- One thing that the event loop hands over. -/
def step : Input κ → Service κ → Service κ
  | .runLoop now later, s => if s.loop = .idle then s.turn now later else s
  | .resume o now later, s => s.resume o now later
  | .app a, s => s.act a
  -- `run_loop` attaches the handlers
  | .signal, s => if s.loop = .idle then s else s.createShutdown
  | .stopLoop closed, s => if s.loop = .idle ∨ closed = true then s.requestStop else s.createShutdown
  | .shutdown j o, s => s.resumeShutdown j o

end Service

section
variable (log : List (Mark κ))

/-- A stop was asked for. -/
def stopped : List (Mark κ) → Bool
  | [] => false
  | .stop :: _ => true
  | _ :: earlier => stopped earlier

/-- The callbacks that are to be called. -/
def registered : List (Mark κ) → List κ
  | [] => []
  | .added c :: earlier => registered earlier ++ [c]
  | .cleared :: _ => []
  | _ :: earlier => registered earlier

/-- The interval that is set. -/
def intervalSet : List (Mark κ) → ℚ
  | [] => 0
  | .interval x :: _ => x
  | _ :: earlier => intervalSet earlier

/-- The mode that is set. -/
def modeSet : List (Mark κ) → Bool
  | [] => false
  | .mode b :: _ => b
  | _ :: earlier => modeSet earlier

/-- The tick that began last. -/
def lastTick : List (Mark κ) → Option Tick
  | [] => none
  | .tick t :: _ => some t
  | _ :: earlier => lastTick earlier

/-- The ticks so far. -/
def ticks : List (Mark κ) → Nat
  | [] => 0
  | .tick _ :: earlier => ticks earlier + 1
  | _ :: earlier => ticks earlier

/-- A tick has begun, and neither finished nor failed. -/
def underway : List (Mark κ) → Bool
  | [] => false
  | .tick _ :: _ => true
  | .finished _ _ :: _ => false
  | .failed :: _ => false
  | _ :: earlier => underway earlier

/-- The calls since the last tick began. -/
def calls : List (Mark κ) → Nat
  | [] => 0
  | .tick _ :: _ => 0
  | .call _ _ _ :: earlier => calls earlier + 1
  | _ :: earlier => calls earlier

/-- The calls of the back-off callback since the last tick began. -/
def backOffCalls : List (Mark κ) → Nat
  | [] => 0
  | .tick _ :: _ => 0
  | .backOff _ _ _ :: earlier => backOffCalls earlier + 1
  | _ :: earlier => backOffCalls earlier

/-- The ticks in back-off mode since the mode was set. -/
def backOffs : List (Mark κ) → Nat
  | [] => 0
  | .mode _ :: _ => 0
  | .tick t :: earlier => if t.backOff then backOffs earlier + 1 else backOffs earlier
  | _ :: earlier => backOffs earlier

/-- The time that has been ticked. -/
def tickedTime : ℚ := ((lastTick log).map Tick.time).getD 0

variable (backOffCallback : Option κ)

/-- The tick has called what it calls first: the back-off callback that the service was made with, if any, or
the first of those registered. -/
def Tick.Begun (t : Tick) : Prop :=
  if t.backOff then backOffCalls log = backOffCallback.toList.length
  else 0 < calls log ∨ registered log = []

/-- The tick has called all that it calls. Only a stop that is seen between two callbacks leaves some out. -/
def Tick.Through (t : Tick) : Prop :=
  if t.backOff then backOffCalls log = backOffCallback.toList.length
  else (0 < calls log ∧ stopped log = true) ∨ (registered log).length ≤ calls log

/-- What a mark may say after the marks before it. -/
def Mark.Fits : Mark κ → Prop
  | .tick t => stopped log = false ∧ underway log = false ∧ t.count = ticks log + 1 ∧
      t.time = tickedTime log + intervalSet log ∧ t.backOff = modeSet log
  | .call c n time => stopped log = false ∧ underway log = true ∧ (registered log)[calls log]? = some c ∧
      ∃ t, lastTick log = some t ∧ t.backOff = false ∧ t.count = n ∧ t.time = time
  | .backOff c k time => stopped log = false ∧ backOffCallback = some c ∧ k = backOffs log ∧
      ∃ t, log.head? = some (.tick t) ∧ t.backOff = true ∧ t.time = time
  | .finished n _ => underway log = true ∧ ∃ t, lastTick log = some t ∧ t.count = n ∧ t.Through log backOffCallback
  | .failed => underway log = true ∧ ∃ t, lastTick log = some t ∧ t.Begun log backOffCallback
  | .cleared => stopped log = true ∧ underway log = false
  | _ => True

/-- A tick begins, or a callback is called. -/
def Mark.starts : Mark κ → Bool
  | .tick _ | .call _ _ _ | .backOff _ _ _ => true
  | _ => false

/-- The loop did it. -/
def Mark.byLoop : Mark κ → Bool
  | .tick _ | .call _ _ _ | .backOff _ _ _ | .finished _ _ | .failed => true
  | _ => false

/-- Every mark fits the marks before it. -/
def Orderly : List (Mark κ) → Prop
  | [] => True
  | m :: earlier => m.Fits earlier backOffCallback ∧ Orderly earlier

end

theorem stopped_cons (m : Mark κ) {log : List (Mark κ)} (h : stopped log = true) : stopped (m :: log) = true := by
  cases m with
  | stop => rfl
  | _ => exact h

/-- A tick that has called everything has called what comes first. -/
theorem Tick.Through.begun {log : List (Mark κ)} {backOffCallback : Option κ} {t : Tick}
    (h : t.Through log backOffCallback) : t.Begun log backOffCallback := by
  unfold Tick.Through at h
  unfold Tick.Begun
  split at h
  · rename_i hmode
    rwa [if_pos hmode]
  · rename_i hmode
    rw [if_neg hmode]
    obtain ⟨hcalled, -⟩ | hall := h
    · exact .inl hcalled
    · obtain hnone | hcalled := Nat.eq_zero_or_pos (calls log)
      · rw [hnone] at hall
        exact .inr (List.length_eq_zero_iff.1 (Nat.le_zero.1 hall))
      · exact .inl hcalled

/-! ### What every step keeps -/

namespace Service
variable {s : Service κ} {b : Bool}

/-- The service is as its log says. -/
structure Books (s : Service κ) : Prop where
  orderly : Orderly s.backOffCallback s.log
  stop : stopped s.log = s.shutdownEvent
  count : ticks s.log = s.tickCount
  time : tickedTime s.log = s.tickTime
  interval : intervalSet s.log = s.tickInterval
  mode : modeSet s.log = s.backOffMode
  backOffs : backOffs s.log = s.backOffCount
  callbacks : registered s.log = s.callbacks

/-- A tick is underway, in this mode. -/
def InTick (s : Service κ) (b : Bool) : Prop :=
  underway s.log = true ∧ lastTick s.log = some ⟨s.tickCount, s.tickTime, b⟩

/-- What is known where the loop waits. -/
def Place (s : Service κ) : Prop :=
  match s.loop with
  | .calling i => InTick s false ∧ calls s.log = i + 1
  | .checking i => InTick s false ∧ calls s.log = i + 1
  | .backingOff => InTick s true ∧ backOffCalls s.log = s.backOffCallback.toList.length
  | .idle | .waiting => underway s.log = false
  | .finished => underway s.log = false ∧ (stopped s.log = true ∨ .failed ∈ s.log)

/-- A mark that is not about a tick. -/
def Aside (m : Mark κ) : Prop :=
  ∀ log : List (Mark κ), underway (m :: log) = underway log ∧ lastTick (m :: log) = lastTick log ∧
    calls (m :: log) = calls log ∧ backOffCalls (m :: log) = backOffCalls log

/-- A mark beside the ticks leaves the loop at its place. -/
theorem Place.of_mark {s' : Service κ} {m : Mark κ} (h : Place s) (hm : Aside m) (hlog : s'.log = m :: s.log)
    (hloop : s'.loop = s.loop) (hcount : s'.tickCount = s.tickCount) (htime : s'.tickTime = s.tickTime)
    (hback : s'.backOffCallback = s.backOffCallback) : Place s' := by
  obtain ⟨hunderway, hlast, hcalls, hbacks⟩ := hm s.log
  have hended (hover : stopped s.log = true ∨ .failed ∈ s.log) : stopped (m :: s.log) = true ∨ .failed ∈ m :: s.log :=
    hover.imp (stopped_cons m) (List.mem_cons_of_mem m)
  unfold Place InTick at h ⊢
  rw [hlog, hunderway, hlast, hcalls, hbacks, hloop, hcount, htime, hback]
  split at h
  · exact h
  · exact h
  · exact h
  · exact h
  · exact h
  · exact ⟨h.1, hended h.2⟩

theorem place_act (h : Place s) (a : Action κ) : Place (s.act a) := by
  cases a with
  | useTimer timer => exact h
  | _ => exact h.of_mark (fun _ => ⟨rfl, rfl, rfl, rfl⟩) rfl rfl rfl rfl rfl

/-- What a callback may call keeps the books. Each call writes the one entry that it is about. -/
theorem books_act (h : Books s) (a : Action κ) : Books (s.act a) := by
  cases a with
  | addCallback c =>
    exact ⟨⟨trivial, h.orderly⟩, h.stop, h.count, h.time, h.interval, h.mode, h.backOffs, congrArg (· ++ [c]) h.callbacks⟩
  | setBackoff start =>
    exact ⟨⟨trivial, h.orderly⟩, h.stop, h.count, h.time, h.interval, rfl, rfl, h.callbacks⟩
  | setInterval x => exact ⟨⟨trivial, h.orderly⟩, h.stop, h.count, h.time, rfl, h.mode, h.backOffs, h.callbacks⟩
  | increaseIntervalBy x => exact ⟨⟨trivial, h.orderly⟩, h.stop, h.count, h.time, rfl, h.mode, h.backOffs, h.callbacks⟩
  | increaseIntervalExp x y z => exact ⟨⟨trivial, h.orderly⟩, h.stop, h.count, h.time, rfl, h.mode, h.backOffs, h.callbacks⟩
  | resetInterval => exact ⟨⟨trivial, h.orderly⟩, h.stop, h.count, h.time, rfl, h.mode, h.backOffs, h.callbacks⟩
  | useTimer timer => exact ⟨h.orderly, h.stop, h.count, h.time, h.interval, h.mode, h.backOffs, h.callbacks⟩

/-- The loop's own steps leave the shutdowns alone. -/
structure LoopStep (s s' : Service κ) : Prop where
  books : Books s'
  place : Place s'
  shutdowns : s'.shutdowns = s.shutdowns
  event : s'.shutdownEvent = s.shutdownEvent
  backOffCallback : s'.backOffCallback = s.backOffCallback

/-- A tick that is through ends with its mark, or fails in the timer, and after a stop the loop ends
with it. -/
theorem endTick_step (h : Books s) (htick : InTick s b)
    (hthrough : Tick.Through s.log s.backOffCallback ⟨s.tickCount, s.tickTime, b⟩) (now : ℚ) :
    LoopStep s (s.endTick now) ∧ (s.shutdownEvent = true → (s.endTick now).loop = .finished) := by
  obtain ⟨hunderway, hlast⟩ := htick
  unfold endTick
  split
  · have hfits : Mark.Fits s.log s.backOffCallback .failed := ⟨hunderway, _, hlast, hthrough.begun⟩
    exact ⟨⟨⟨⟨hfits, h.orderly⟩, h.stop, h.count, h.time, h.interval, h.mode, h.backOffs, h.callbacks⟩,
      ⟨rfl, .inr List.mem_cons_self⟩, rfl, rfl, rfl⟩, fun _ => rfl⟩
  rename_i timer hleave
  have hfits : Mark.Fits s.log s.backOffCallback (.finished s.tickCount (timer.total tickBlock)) :=
    ⟨hunderway, _, hlast, rfl, hthrough⟩
  dsimp only
  split
  · rename_i hstop
    exact ⟨⟨⟨⟨hfits, h.orderly⟩, h.stop, h.count, h.time, h.interval, h.mode, h.backOffs, h.callbacks⟩,
      ⟨rfl, .inl (h.stop.trans hstop)⟩, rfl, rfl, rfl⟩, fun _ => rfl⟩
  · rename_i hgo
    exact ⟨⟨⟨⟨hfits, h.orderly⟩, h.stop, h.count, h.time, h.interval, h.mode, h.backOffs, h.callbacks⟩, rfl, rfl, rfl, rfl⟩,
      fun hstop => absurd hstop hgo⟩

/-- A callback that raises ends the loop. Nothing is asked of the tick but that it has begun. -/
theorem failTick_step (h : Books s) (htick : InTick s b)
    (hbegun : Tick.Begun s.log s.backOffCallback ⟨s.tickCount, s.tickTime, b⟩) (now : ℚ) :
    LoopStep s (s.failTick now) ∧ (s.failTick now).loop = .finished :=
  ⟨⟨⟨⟨⟨htick.1, _, htick.2, hbegun⟩, h.orderly⟩, h.stop, h.count, h.time, h.interval, h.mode, h.backOffs, h.callbacks⟩,
    ⟨rfl, .inr List.mem_cons_self⟩, rfl, rfl, rfl⟩, rfl⟩

/-- After a callback the tick has begun. -/
theorem begun_of_calls {i : Nat} (h : calls s.log = i + 1) :
    Tick.Begun s.log s.backOffCallback ⟨s.tickCount, s.tickTime, false⟩ :=
  .inl (h ▸ Nat.succ_pos i)

/-- A tick that sees a stop after a callback is through. -/
theorem stopped_through (h : Books s) {i : Nat} (hcalls : calls s.log = i + 1) (hstop : s.shutdownEvent = true) :
    Tick.Through s.log s.backOffCallback ⟨s.tickCount, s.tickTime, false⟩ :=
  .inl ⟨hcalls ▸ Nat.succ_pos i, h.stop.trans hstop⟩

/-- The next callback is the one at the number of calls, and where there is none the tick is
through. -/
theorem nextCallback_step (h : Books s) (htick : InTick s false) (hstop : s.shutdownEvent = false) {i : Nat}
    (hcalls : calls s.log = i) (now : ℚ) : LoopStep s (s.nextCallback i now) := by
  unfold nextCallback
  split
  · rename_i c hc
    obtain ⟨hunderway, hlast⟩ := htick
    have hfits : Mark.Fits s.log s.backOffCallback (.call c s.tickCount s.tickTime) := by
      refine ⟨h.stop.trans hstop, hunderway, ?_, _, hlast, rfl, rfl, rfl⟩
      rw [hcalls, h.callbacks]
      exact hc
    exact ⟨⟨⟨hfits, h.orderly⟩, h.stop, h.count, h.time, h.interval, h.mode, h.backOffs, h.callbacks⟩,
      ⟨⟨hunderway, hlast⟩, congrArg (· + 1) hcalls⟩, rfl, rfl, rfl⟩
  · rename_i hnone
    have hall : (registered s.log).length ≤ calls s.log := by
      rw [hcalls, h.callbacks]
      exact List.getElem?_eq_none_iff.1 hnone
    exact (endTick_step h htick (.inr hall) now).1

theorem LoopStep.trans_fields {s s₁ s' : Service κ} (h : LoopStep s₁ s') (hshutdowns : s₁.shutdowns = s.shutdowns)
    (hevent : s₁.shutdownEvent = s.shutdownEvent) (hback : s₁.backOffCallback = s.backOffCallback) : LoopStep s s' :=
  ⟨h.books, h.place, h.shutdowns.trans hshutdowns, h.event.trans hevent, h.backOffCallback.trans hback⟩

/-- At the head of the loop either the stop is seen or a tick begins that counts on from the last.
-/
theorem turn_step (h : Books s) (hbetween : underway s.log = false) (now later : ℚ) :
    LoopStep s (s.turn now later) ∧ (s.shutdownEvent = true → (s.turn now later).loop = .finished) := by
  unfold turn
  split
  · rename_i hstop
    exact ⟨⟨⟨h.orderly, h.stop, h.count, h.time, h.interval, h.mode, h.backOffs, h.callbacks⟩,
      ⟨hbetween, .inl (h.stop.trans hstop)⟩, rfl, rfl, rfl⟩, fun _ => rfl⟩
  · rename_i hgo
    refine ⟨?_, fun hstop => absurd hstop hgo⟩
    have hstop : s.shutdownEvent = false := by simpa using hgo
    have hfits : Mark.Fits s.log s.backOffCallback (.tick ⟨s.tickCount + 1, s.tickTime + s.tickInterval, s.backOffMode⟩) := by
      refine ⟨h.stop.trans hstop, hbetween, ?_, ?_, h.mode.symm⟩
      · rw [h.count]
      · rw [h.time, h.interval]
    unfold tick
    dsimp only [mark]
    split
    · rename_i hmode
      have hbacks : backOffs (.tick ⟨s.tickCount + 1, s.tickTime + s.tickInterval, s.backOffMode⟩ :: s.log) =
          s.backOffCount + 1 := by
        unfold backOffs
        rw [if_pos hmode, h.backOffs]
      split
      · rename_i c hc
        refine ⟨⟨⟨⟨h.stop.trans hstop, hc, hbacks.symm, _, rfl, hmode, rfl⟩, hfits, h.orderly⟩, h.stop,
          congrArg (· + 1) h.count, rfl, h.interval, h.mode, hbacks, h.callbacks⟩, ⟨⟨rfl, ?_⟩, ?_⟩, rfl, rfl, rfl⟩
        · exact congrArg some (by rw [hmode])
        -- the one call that the callback asks for
        · exact (congrArg (·.toList.length) hc).symm
      · rename_i hnone
        have hthrough : Tick.Through (.tick ⟨s.tickCount + 1, s.tickTime + s.tickInterval, s.backOffMode⟩ :: s.log)
            s.backOffCallback ⟨s.tickCount + 1, s.tickTime + s.tickInterval, true⟩ :=
          (congrArg (Option.toList · |>.length) hnone).symm
        refine (LoopStep.trans_fields (endTick_step (b := true) ?_ ?_ hthrough later).1 rfl rfl rfl)
        · exact ⟨⟨hfits, h.orderly⟩, h.stop, congrArg (· + 1) h.count, rfl, h.interval, h.mode, hbacks, h.callbacks⟩
        · exact ⟨rfl, congrArg some (by rw [hmode])⟩
    · rename_i hmode
      have hmode : s.backOffMode = false := by simpa using hmode
      have hbacks : backOffs (.tick ⟨s.tickCount + 1, s.tickTime + s.tickInterval, s.backOffMode⟩ :: s.log) =
          s.backOffCount := by
        unfold backOffs
        rw [if_neg (by simp [hmode]), h.backOffs]
      refine LoopStep.trans_fields (nextCallback_step ?_ ?_ ?_ ?_ later) rfl rfl rfl
      · exact ⟨⟨hfits, h.orderly⟩, h.stop, congrArg (· + 1) h.count, rfl, h.interval, h.mode, hbacks, h.callbacks⟩
      · exact ⟨rfl, congrArg some (by rw [hmode])⟩
      · exact hstop
      · rfl

/-- The loop goes on from where it waits, one case for each place. -/
theorem resume_step (h : Books s) (hplace : Place s) (o : Outcome) (now later : ℚ) : LoopStep s (s.resume o now later) := by
  have hsame : LoopStep s s := ⟨h, hplace, rfl, rfl, rfl⟩
  unfold resume
  unfold Place at hplace
  split
  · rename_i i hloop
    rw [hloop] at hplace
    split
    · exact ⟨⟨h.orderly, h.stop, h.count, h.time, h.interval, h.mode, h.backOffs, h.callbacks⟩, hplace, rfl, rfl, rfl⟩
    · exact (failTick_step h hplace.1 (begun_of_calls hplace.2) now).1
  · rename_i i hloop
    rw [hloop] at hplace
    split
    · exact hsame
    split
    · rename_i hstop
      exact (endTick_step h hplace.1 (stopped_through h hplace.2 hstop) now).1
    · rename_i hgo
      exact nextCallback_step h hplace.1 (by simpa using hgo) hplace.2 now
  · rename_i hloop
    rw [hloop] at hplace
    split
    · exact (endTick_step h hplace.1 hplace.2 now).1
    · exact (failTick_step h hplace.1 hplace.2 now).1
  · rename_i hloop
    rw [hloop] at hplace
    split
    · exact hsame
    · exact (turn_step h hplace now later).1
  · exact hsame
  · exact hsame

/-- A loop that does not run is not resumed. -/
theorem resume_of_not_live (h : s.loop.live = false) (o : Outcome) (now later : ℚ) : s.resume o now later = s := by
  unfold resume
  cases hloop : s.loop with
  | idle => rfl
  | finished => rfl
  | calling i => rw [hloop] at h; cases h
  | checking i => rw [hloop] at h; cases h
  | backingOff => rw [hloop] at h; cases h
  | waiting => rw [hloop] at h; cases h

/-! ### Shutting down -/

/-- A shutdown that has asked has set the event, and one that has returned found the loop ended. -/
structure Good (s : Service κ) : Prop extends Books s where
  place : Place s
  asked : ∀ (j : Nat) (p : Shutdown), s.shutdowns[j]? = some p → p.hasAsked = true → s.shutdownEvent = true
  ended : ∀ j : Nat, s.shutdowns[j]? = some .returned → s.loop.live = false

/-- A loop that does not run has no tick open. -/
theorem not_underway (h : Place s) (hlive : s.loop.live = false) : underway s.log = false := by
  unfold Place at h
  cases hloop : s.loop with
  | idle =>
    rw [hloop] at h
    exact h
  | finished =>
    rw [hloop] at h
    exact h.1
  | calling i => rw [hloop] at hlive; cases hlive
  | checking i => rw [hloop] at hlive; cases hlive
  | backingOff => rw [hloop] at hlive; cases hlive
  | waiting => rw [hloop] at hlive; cases hlive

/-- A loop that is told to stop and does not run does not run again. -/
theorem Good.loopStep {s' : Service κ} (h : Good s) (hstep : LoopStep s s')
    (hlive : s.shutdownEvent = true → s.loop.live = false → s'.loop.live = false) : Good s' := by
  refine ⟨hstep.books, hstep.place, ?_, ?_⟩
  · intro j p hp hpasked
    rw [hstep.shutdowns] at hp
    exact hstep.event.trans (h.asked j p hp hpasked)
  · intro j hj
    rw [hstep.shutdowns] at hj
    exact hlive (h.asked j _ hj rfl) (h.ended j hj)

/-- A shutdown goes on to a place. -/
theorem Good.set (h : Good s) {q : Shutdown} (hasked : q.hasAsked = true → s.shutdownEvent = true)
    (hended : q = .returned → s.loop.live = false) (j : Nat) : Good {s with shutdowns := s.shutdowns.set j q} := by
  refine ⟨⟨h.orderly, h.stop, h.count, h.time, h.interval, h.mode, h.backOffs, h.callbacks⟩, h.place, ?_, ?_⟩
  · intro k p hp hpasked
    rw [List.getElem?_set] at hp
    split at hp
    · split at hp
      · cases hp
        exact hasked hpasked
      · cases hp
    · exact h.asked k p hp hpasked
  · intro k hk
    rw [List.getElem?_set] at hk
    split at hk
    · split at hk
      · cases hk
        exact hended rfl
      · cases hk
    · exact h.ended k hk

theorem Good.requestStop (h : Good s) : Good s.requestStop :=
  ⟨⟨⟨trivial, h.orderly⟩, rfl, h.count, h.time, h.interval, h.mode, h.backOffs, h.callbacks⟩,
    h.place.of_mark (fun _ => ⟨rfl, rfl, rfl, rfl⟩) rfl rfl rfl rfl rfl, fun _ _ _ _ => rfl, h.ended⟩

theorem Good.gather (h : Good s) (hstop : s.shutdownEvent = true) (j : Nat) : Good (s.gather j) :=
  h.set (fun _ => hstop) (fun heq => by cases heq) j

/-- The callbacks are dropped by a shutdown only after the loop has ended. -/
theorem Good.clear (h : Good s) (hstop : s.shutdownEvent = true) (hlive : s.loop.live = false) (j : Nat) :
    Good ({s with callbacks := [], shutDownCallback := none, shutdowns := s.shutdowns.set j .returned}.mark .cleared) := by
  have hset : Good {s with shutdowns := s.shutdowns.set j .returned} := h.set (fun _ => hstop) (fun _ => hlive) j
  have hfits : Mark.Fits s.log s.backOffCallback .cleared := ⟨h.stop.trans hstop, not_underway h.place hlive⟩
  exact ⟨⟨⟨hfits, h.orderly⟩, h.stop, h.count, h.time, h.interval, h.mode, h.backOffs, rfl⟩,
    h.place.of_mark (fun _ => ⟨rfl, rfl, rfl, rfl⟩) rfl rfl rfl rfl rfl, hset.asked, hset.ended⟩

/-- A shutdown goes on: it has gathered, it waits on, or it is cancelled. -/
theorem resumeShutdown_good (h : Good s) (j : Nat) (o : Outcome) : Good (s.resumeShutdown j o) := by
  have hcancelled : Good {s with shutdowns := s.shutdowns.set j .cancelled} :=
    h.set (fun heq => by cases heq) (fun heq => by cases heq) j
  unfold resumeShutdown
  split
  · dsimp only
    split
    · exact h.requestStop.set (fun _ => rfl) (fun heq => by cases heq) j
    · exact h.requestStop.gather rfl j
  · rename_i hj
    exact h.gather (h.asked j _ hj rfl) j
  · rename_i hj
    exact h.gather (h.asked j _ hj rfl) j
  · rename_i others hj
    split
    · rename_i hgathered
      have hlive : s.loop.live = false := by
        unfold gathered at hgathered
        simp only [Bool.and_eq_true, Bool.not_eq_true'] at hgathered
        exact hgathered.1
      exact h.clear (h.asked j _ hj rfl) hlive j
    · exact h
  · exact hcancelled
  · exact hcancelled
  · exact hcancelled
  · exact h

theorem Good.createShutdown (h : Good s) : Good s.createShutdown := by
  have hold {k : Nat} {p : Shutdown} (hp : (s.shutdowns ++ [.created])[k]? = some p) (hpasked : p.hasAsked = true) :
      s.shutdowns[k]? = some p := by
    rw [List.getElem?_append] at hp
    split at hp
    · exact hp
    · rw [List.getElem?_singleton] at hp
      split at hp
      · cases hp
        cases hpasked
      · cases hp
  refine ⟨⟨h.orderly, h.stop, h.count, h.time, h.interval, h.mode, h.backOffs, h.callbacks⟩, h.place, ?_, ?_⟩
  · intro k p hp hpasked
    exact h.asked k p (hold hp hpasked) hpasked
  · intro k hk
    exact h.ended k (hold hk rfl)

theorem step_good (i : Input κ) (s : Service κ) (h : Good s) : Good (step i s) := by
  cases i with
  | runLoop now later =>
    dsimp only [step]
    split
    · rename_i hidle
      have hbetween : underway s.log = false := by
        have hplace := h.place
        unfold Place at hplace
        rw [hidle] at hplace
        exact hplace
      obtain ⟨hstep, hover⟩ := turn_step h.toBooks hbetween now later
      refine h.loopStep hstep fun hstop _ => ?_
      rw [hover hstop]
      rfl
    · exact h
  | resume o now later =>
    refine h.loopStep (resume_step h.toBooks h.place o now later) fun _ hlive => ?_
    exact (congrArg (·.loop.live) (resume_of_not_live hlive o now later)).trans hlive
  | app a =>
    refine ⟨books_act h.toBooks a, place_act h.place a, ?_, ?_⟩
    · cases a <;> exact h.asked
    · cases a <;> exact h.ended
  | signal =>
    dsimp only [step]
    split
    · exact h
    · exact h.createShutdown
  | stopLoop closed =>
    dsimp only [step]
    split
    · exact h.requestStop
    · exact h.createShutdown
  | shutdown j o => exact resumeShutdown_good h j o

/-- How often the loop can still be resumed before it ends, once it is told to. -/
def waits (s : Service κ) : Nat :=
  match s.loop with
  | .idle | .finished => 0
  | .calling _ => 2
  | .checking _ | .backingOff | .waiting => 1

end Service

/-- The loop's coroutine gets on: a sleep does not raise. -/
def Input.resumes : Input κ → Bool
  | .resume o _ _ => o != .raised
  | _ => false

namespace Service
variable {s : Service κ}

/-- The service is told to end, and so are the shutdowns. -/
structure Ending (s : Service κ) : Prop extends Good s where
  told : s.shutdownEvent = true

/-- How much the loop has done. -/
def doings (s : Service κ) : Nat := s.log.countP Mark.byLoop

/-- What is not the loop's own leaves what it has done and where it waits. -/
structure Beside (s s' : Service κ) : Prop where
  loop : s'.loop = s.loop
  doings : s'.doings = s.doings

theorem Beside.of_mark {s' : Service κ} {m : Mark κ} (hm : m.byLoop = false) (hlog : s'.log = m :: s.log)
    (hloop : s'.loop = s.loop) : Beside s s' := by
  refine ⟨hloop, ?_⟩
  unfold Service.doings
  rw [hlog, List.countP_cons_of_neg (by rw [hm]; decide)]

/-- The loop has done more than this, or is told to end. -/
def Past (n : Nat) (s : Service κ) : Prop := Good s ∧ (n < s.doings ∨ s.shutdownEvent = true)

end Service

end PyAppRunner.Timing
