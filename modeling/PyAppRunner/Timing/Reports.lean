import Mathlib.Algebra.BigOperators.Ring.List
import PyAppRunner.Timing.Timer

/-! The timer's two reports, and when they agree.

The table shows the total of a name, the last row of the CSV text shows the sum of its runtimes. A total
grows with every stretch of time that is recorded; a runtime is the last stretch of its run, and takes the
place of an earlier one. A block that is paused, or entered twice in one run, has more than one. -/
namespace PyAppRunner.Timing
open Base

/-! ### The table -/

/-- `{:>width}`. -/
def rjust (width : Nat) (s : String) : String := String.ofList (List.replicate (width - s.length) ' ') ++ s

/-- `{:^10}`. -/
def center (s : String) : String :=
  let room := 10 - s.length
  String.ofList (List.replicate (room / 2) ' ') ++ s ++ String.ofList (List.replicate (room - room / 2) ' ')

/-- The cells of a row; times are in milliseconds. -/
structure Row where
  level : Int
  name : String
  total : String
  minimum : String
  maximum : String
  average : String
  count : Nat

/-- The values of a dict, in its order. -/
def values (d : Dict Int ℚ) : List ℚ := d.entries.map Prod.snd

section
variable (fixed : ℚ → String)

/-- The row of a name. -/
def row (name : String) (p : Properties) : Row :=
  let runtimes := values p.runtimes
  { level := p.level
    name
    total := fixed (p.total * 1000)
    minimum := fixed (runtimes.min?.getD 0 * 1000)
    maximum := fixed (runtimes.max?.getD 0 * 1000)
    average := fixed (runtimes.sum / runtimes.length * 1000)
    count := runtimes.length }

/-- The rows of the table, in the order of the timers. -/
def tableRows (s : Timer) : List Row := s.totalTimes.entries.map fun e => row fixed e.1 e.2

/-- A width that is even, no narrower. -/
def even (width : Nat) : Nat := if width % 2 = 1 then width + 1 else width

/-- The width of the first column. -/
def levelWidth (rows : List Row) : Nat := max (even ((rows.map fun r => r.level.toNat).max?.getD 0)) 6

/-- The width of the second. -/
def nameWidth (rows : List Row) : Nat := even (max ((rows.map fun r => r.name.length).max?.getD 0) 4)

/-- The cells of a row, with bars between them. -/
def line (cells : List String) : String := " | ".intercalate cells

/-- `print_timer_stats_table`, of numbers written as `fixed` writes them. -/
def printTimerStatsTable (s : Timer) : Option String :=
  let rows := tableRows fixed s
  if rows.isEmpty then none
  else
    let w := levelWidth rows
    let n := nameWidth rows
    let header := line ([rjust w "Level", rjust n "Name"] ++
      ["Total (ms)", "Min (ms)", "Max (ms)", "Avg (ms)"].map center ++ ["Count"])
    let separator := String.ofList (List.replicate (w + 1) '-') ++ "+" ++
      String.ofList (List.replicate (header.length - (w + 1) - 1) '-')
    let body := rows.map fun r => line ([rjust w (toString r.level), rjust n r.name] ++
      [r.total, r.minimum, r.maximum, r.average].map (rjust 10) ++ [rjust 5 (toString r.count)])
    let last := line ([rjust w "", rjust n "Total"] ++ (fixed (s.totalTime * 1000) :: List.replicate 4 "").map (rjust 10))
    some ("\n\n" ++ "\n".intercalate ([header, separator] ++ body ++ [separator, last]) ++ "\n\n")

/-! ### The CSV text -/

/-- The names, and one column more. -/
def csvHeader (s : Timer) : List String := s.totalTimes.entries.map Prod.fst ++ ["Total"]

/-- The row of a run. -/
def csvRow (s : Timer) (i : Int) : List String :=
  (s.totalTimes.entries.map fun e => ((e.2.runtimes.get i).map fun t => fixed (t * 1000)).getD "") ++
    [fixed (s.totalTimes.entries.map fun e => (e.2.runtimes.get i).getD 0 * 1000).sum]

/-- The totals in milliseconds, and their sum. -/
def csvTotalRow (s : Timer) : List String :=
  let totals := s.totalTimes.entries.map fun e => (values e.2.runtimes).sum * 1000
  totals.map fixed ++ [fixed totals.sum]

/-- The last run that has an entry. -/
def maxIndex (s : Timer) : Int :=
  (s.totalTimes.entries.flatMap fun e => e.2.runtimes.entries.map Prod.fst).max?.getD 0

/-- `print_timer_stats_csv`. -/
def printTimerStatsCsv (s : Timer) : Option String :=
  if s.totalTimes.entries.isEmpty then none
  else
    let runs := (List.range (maxIndex s + 1).toNat).map fun i => csvRow fixed s i
    some ("\n".intercalate (([csvHeader s] ++ runs ++ [csvTotalRow fixed s]).map ",".intercalate))

end

/-! ### What is lost -/

/-- The last stretch of a name in a run. -/
def latest (name : String) (i : Int) : List Stretch → Option ℚ
  | [] => none
  | x :: rest => if x.opened.head? = some name ∧ x.runIndex = i then some x.length else latest name i rest

/-- What the stretches of a name that came later took the place of. -/
def lost (name : String) : List Stretch → ℚ
  | [] => 0
  | x :: rest => lost name rest + if x.opened.head? = some name then (latest name x.runIndex rest).getD 0 else 0

section
variable {name : String} {i : Int} {stretches : List Stretch}

end

/-! ### Runtimes -/

namespace Timer

theorem Adds.runtimes {name : String} {elapsed : ℚ} {s s' : Timer} (h : Adds name elapsed s s') (name' : String) :
    s'.runtimes name' = if name' = name then (s.runtimes name).set s.runIndex elapsed else s.runtimes name' := by
  obtain ⟨level, h⟩ := h
  rw [Timer.runtimes, h, Dict.get_set]
  split <;> rfl

theorem Records.runtimes {l : Ledger} {now : ℚ} {s s' : Timer} (h : Records l now s s') (name : String) :
    s'.runtimes name =
      if l.opened.head? = some name then (s.runtimes name).set s.runIndex (now - l.last) else s.runtimes name := by
  cases hopened : l.opened with
  | nil => simp [Timer.runtimes, h.of_closed hopened]
  | cons first rest =>
    rw [(h.of_opened hopened).runtimes]
    by_cases hname : name = first
    · rw [hname, if_pos rfl, List.head?_cons, if_pos rfl]
    · rw [if_neg hname, List.head?_cons, if_neg fun heq => hname (Option.some.inj heq).symm]

theorem sum_values_set (d : Dict Int ℚ) (i : Int) (t : ℚ) :
    (values (d.set i t)).sum = (values d).sum - (d.get i).getD 0 + t := by
  have hsum := sum_set id d i t
  simpa [values] using hsum

end Timer

/-- The clock does not go back while a block is open. -/
def Event.Forward : Event → Ledger → Prop
  | .enter _ now, l => l.opened ≠ [] → l.last ≤ now
  | .leave _ now, l => l.opened ≠ [] → l.last ≤ now
  | .setRunIndex _, _ => True
  | .resetTimers, _ => True

instance (e : Event) (l : Ledger) : Decidable (e.Forward l) :=
  match e with
  | .enter _ now => inferInstanceAs (Decidable (l.opened ≠ [] → l.last ≤ now))
  | .leave _ now => inferInstanceAs (Decidable (l.opened ≠ [] → l.last ≤ now))
  | .setRunIndex _ => inferInstanceAs (Decidable True)
  | .resetTimers => inferInstanceAs (Decidable True)

namespace Timer

/-- Totals and runtimes, against the ledger. -/
structure Reported (l : Ledger) (s : Timer) : Prop extends Follows l s where
  latest : ∀ name i, (s.runtimes name).get i = latest name i l.stretches
  lost : ∀ name, s.total name = (values (s.runtimes name)).sum + lost name l.stretches
  forward : ∀ x ∈ l.stretches, x.opened ≠ [] → 0 ≤ x.length

/-- A runtime takes the place of the one before, and a total does not lose it. -/
theorem Reported.reading {l : Ledger} {s s' : Timer} (h : Reported l s) {now : ℚ} (hrecords : Records l now s s')
    {opened : List String} (hstacked : Stacked {l with opened, last := now, stretches := l.stretch now :: l.stretches} s')
    (hclock : l.opened ≠ [] → l.last ≤ now) :
    Reported {l with opened, last := now, stretches := l.stretch now :: l.stretches} s' := by
  refine ⟨h.toFollows.reading hrecords hstacked, fun name i => ?_, fun name => ?_, ?_⟩
  · rw [hrecords.runtimes, Timing.latest, ← h.latest, h.runIndex]
    by_cases hname : l.opened.head? = some name
    · rw [if_pos hname, Dict.get_set]
      simp [Ledger.stretch, hname, eq_comm]
    · rw [if_neg hname, if_neg fun hcell => hname hcell.1]
  · have hcell : (l.stretch now).opened = l.opened := rfl
    have hrun : (l.stretch now).runIndex = l.runIndex := rfl
    rw [hrecords.total, hrecords.runtimes, Timing.lost, h.lost, h.runIndex, hcell, hrun]
    by_cases hname : l.opened.head? = some name
    · rw [if_pos hname, if_pos hname, sum_values_set, if_pos hname, h.latest]
      ring
    · rw [if_neg hname, if_neg hname, if_neg hname]
      ring
  · rw [List.forall_mem_cons]
    exact ⟨fun hopened => sub_nonneg.mpr (hclock hopened), h.forward⟩

theorem Reported.step {l : Ledger} {s : Timer} (h : Reported l s) {e : Event} (he : e.Fits l ∧ e.Forward l) :
    ∃ s', s.on e = some s' ∧ Reported (Ledger.machine.step e l) s' := by
  obtain ⟨hfits, hclock⟩ := he
  cases e with
  | enter name now =>
    obtain ⟨hstacked, hrecords⟩ := enter_steps h.toStacked hfits now
    exact ⟨_, rfl, h.reading hrecords hstacked hclock⟩
  | leave name now =>
    obtain ⟨s', hs', hstacked, hrecords⟩ := leave_steps h.toStacked hfits now
    exact ⟨s', hs', h.reading hrecords hstacked hclock⟩
  | setRunIndex i =>
    obtain ⟨s', hs', hfollows⟩ := h.toFollows.step hfits
    cases hs'
    exact ⟨_, rfl, hfollows, h.latest, h.lost, h.forward⟩
  | resetTimers =>
    obtain ⟨s', hs', hfollows⟩ := h.toFollows.step hfits
    cases hs'
    exact ⟨_, rfl, hfollows, fun _ _ => rfl, fun _ => (add_zero 0).symm, fun _ hx => by cases hx⟩

theorem Reported.run {l : Ledger} {s : Timer} (h : Reported l s) {events : List Event}
    (he : Ledger.machine.Admissible (fun e l => e.Fits l ∧ e.Forward l) l events) :
    ∃ s', s.run events = some s' ∧ Reported (Ledger.machine.run l events) s' :=
  run_follows (fun _ _ _ he h => h.step he) h he

end Timer

/-! ### Both reports -/

end PyAppRunner.Timing
