/-! Dates and times of day, and their text.

A datetime is a wall clock reading, with the offset from UTC in seconds if it is aware.
Days are counted from 0001-01-01 as day 1, so that shifting by an offset is arithmetic
on a count of seconds. -/
namespace PyAppRunner.Base

/-- A `datetime.date`. -/
structure Date where
  year : Nat
  month : Nat
  day : Nat
deriving DecidableEq

/-- `n` with `w` decimal digits. -/
def padded : Nat → Nat → List Char
  | 0, _ => []
  | w + 1, n => padded w (n / 10) ++ [Nat.digitChar (n % 10)]

theorem length_padded (w n : Nat) : (padded w n).length = w := by
  induction w generalizing n with
  | zero => rfl
  | succ w ih => simp [padded, ih]

/-- The Gregorian rule. -/
def isLeap (year : Nat) : Bool := year % 4 == 0 && (year % 100 != 0 || year % 400 == 0)

/-- The days of a year before its month `m`. -/
def daysBeforeMonth (year month : Nat) : Nat :=
  ([0, 31, 59, 90, 120, 151, 181, 212, 243, 273, 304, 334].getD (month - 1) 0) +
    if 2 < month && isLeap year then 1 else 0

namespace Date

/-- `date.toordinal`: the first of January of year 1 is day 1. -/
def toOrdinal (d : Date) : Nat :=
  let y := d.year - 1
  y * 365 + y / 4 - y / 100 + y / 400 + daysBeforeMonth d.year d.month + d.day

/-- The last day of year 9999. -/
def maxOrdinal : Nat := 3652059

/-- Cycles of 400, 100 and 4 years and single years; the estimate of the month is one too
high at most. -/
def ofOrdinal (ordinal : Nat) : Date :=
  let n := ordinal - 1
  let n400 := n / 146097
  let n := n % 146097
  let n100 := n / 36524
  let n := n % 36524
  let n4 := n / 1461
  let n := n % 1461
  let n1 := n / 365
  let n := n % 365
  let year := n400 * 400 + 1 + n100 * 100 + n4 * 4 + n1
  if n1 = 4 ∨ n100 = 4 then ⟨year - 1, 12, 31⟩
  else
    let month := (n + 50) / 32
    let month := if n < daysBeforeMonth year month then month - 1 else month
    ⟨year, month, n - daysBeforeMonth year month + 1⟩

/-- `isoformat`. -/
def text (d : Date) : List Char := padded 4 d.year ++ '-' :: padded 2 d.month ++ '-' :: padded 2 d.day

theorem length_text (d : Date) : d.text.length = 10 := by
  simp [text, length_padded]

/-- `strftime` of `%Y-%m-%d`: a year below 1000 is not padded. -/
def strftime (d : Date) : List Char := d.text.dropWhile (· = '0')

/-- The year has four digits without a zero in front of it. -/
def fourDigits (d : Date) : Bool := d.year / 1000 % 10 != 0

theorem text_eq_cons (d : Date) : ∃ rest, d.text = Nat.digitChar (d.year / 1000 % 10) :: rest := by
  rw [show d.year / 1000 = d.year / 10 / 10 / 10 by omega]
  exact ⟨_, rfl⟩

theorem dropWhile_text (d : Date) (rest : List Char) :
    (d.text ++ rest).dropWhile (· = '0') = d.text ++ rest ↔ d.fourDigits = true := by
  obtain ⟨digits, htext⟩ := d.text_eq_cons
  have hdigit : ∀ n < 10, Nat.digitChar n = '0' ↔ n = 0 := by decide
  have hzero := hdigit (d.year / 1000 % 10) (Nat.mod_lt _ (by decide))
  rw [htext, List.cons_append, fourDigits, bne_iff_ne, Ne, ← hzero]
  by_cases hfirst : Nat.digitChar (d.year / 1000 % 10) = '0'
  · rw [List.dropWhile_cons_of_pos (by simpa using hfirst)]
    refine iff_of_false (fun heq => ?_) (fun hne => hne hfirst)
    have hlength := (List.dropWhile_suffix (fun c : Char => decide (c = '0')) (l := digits ++ rest)).length_le
    rw [heq, List.length_cons] at hlength
    omega
  · rw [List.dropWhile_cons_of_neg (by simpa using hfirst)]
    exact iff_of_true rfl hfirst

theorem strftime_eq_text_iff (d : Date) : d.strftime = d.text ↔ d.fourDigits = true := by
  have h := d.dropWhile_text []
  rwa [List.append_nil] at h

end Date

/-- A `datetime.datetime` with an offset or without one. -/
structure DateTime where
  date : Date
  hour : Nat
  minute : Nat
  second : Nat
  microsecond : Nat
  /-- The offset from UTC in seconds, of an aware datetime. -/
  offset : Option Int
deriving DecidableEq

namespace DateTime

/-- `isoformat`, of a whole second and without the offset. -/
def text (t : DateTime) : List Char :=
  t.date.text ++ 'T' :: padded 2 t.hour ++ ':' :: padded 2 t.minute ++ ':' :: padded 2 t.second

theorem length_text (t : DateTime) : t.text.length = 19 := by
  simp [text, Date.length_text, length_padded]

/-- `strftime` of `%Y-%m-%dT%H:%M:%S`. -/
def strftime (t : DateTime) : List Char := t.text.dropWhile (· = '0')

theorem strftime_eq_text_iff (t : DateTime) : t.strftime = t.text ↔ t.date.fourDigits = true := by
  unfold strftime text
  rw [List.append_assoc, List.append_assoc]
  exact t.date.dropWhile_text _

theorem length_strftime_le (t : DateTime) : t.strftime.length ≤ 19 := by
  rw [← t.length_text]
  exact (List.dropWhile_suffix _).length_le

/-- The same instant on the clock of UTC, as a naive datetime: `astimezone(UTC)` without its
`tzinfo`. There is none before year 1 or after year 9999. -/
def utc (offset : Int) (t : DateTime) : Option DateTime :=
  let seconds : Int := t.date.toOrdinal * 86400 + t.hour * 3600 + t.minute * 60 + t.second - offset
  let ordinal := seconds / 86400
  let rest := (seconds % 86400).toNat
  if 1 ≤ ordinal ∧ ordinal ≤ Date.maxOrdinal then
    some ⟨Date.ofOrdinal ordinal.toNat, rest / 3600, rest / 60 % 60, rest % 60, t.microsecond, none⟩
  else none

example : ((DateTime.mk ⟨2026, 7, 27⟩ 12 0 0 0 (some 10800)).utc 10800).map text = some "2026-07-27T09:00:00".toList := by
  decide

example : (DateTime.mk ⟨999, 1, 2⟩ 12 0 0 0 none).strftime = "999-01-02T12:00:00".toList := by
  decide

example : ((DateTime.mk ⟨2024, 2, 29⟩ 23 30 0 0 (some (-3600))).utc (-3600)).map text =
    some "2024-03-01T00:30:00".toList := by
  decide

end DateTime

end PyAppRunner.Base
