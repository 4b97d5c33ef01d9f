import Mathlib.Algebra.Group.Nat.Defs
import PyAppRunner.Base.Calendar
import PyAppRunner.Base.Text

/-! `datetime.fromisoformat`, and instants.

A text is read the way CPython does it, which takes more than ISO 8601 has: any character between date
and time, a fraction after any part of the time, and what is left before an offset. The end of a text
and a NUL are the same to it. What `isoformat` makes is read as what it was made from
(`fromisoformat_naive`, `fromisoformat_aware`), less an offset of a fraction of a second.

A datetime carries the proof that its fields are in range. -/
namespace PyAppRunner.Base

/-! ### Datetimes -/

/-- A datetime without `tzinfo`. -/
structure Naive where
  date : Date
  hour : Nat
  minute : Nat
  second : Nat
  microsecond : Nat
  valid : date.Valid ∧ hour < 24 ∧ minute < 60 ∧ second < 60 ∧ microsecond < 1000000

def microsecondsPerDay : Nat := 86400000000

/-- A datetime with the offset of its `tzinfo`, in microseconds. -/
structure Aware where
  clock : Naive
  offset : Int
  offset_lt : -(microsecondsPerDay : Int) < offset ∧ offset < microsecondsPerDay

/-- A `datetime` as it is stored, with an offset or without one. -/
inductive Stamp where
  | naive (t : Naive)
  | aware (t : Aware)

namespace Naive

/-- The constructor: `none` is a `ValueError`. -/
def of (date : Date) (hour minute second microsecond : Nat) : Option Naive :=
  if h : date.Valid ∧ hour < 24 ∧ minute < 60 ∧ second < 60 ∧ microsecond < 1000000 then
    some ⟨date, hour, minute, second, microsecond, h⟩
  else none

theorem of_eq (t : Naive) : of t.date t.hour t.minute t.second t.microsecond = some t := dif_pos t.valid

/-- Microseconds on its clock, from the day before 0001-01-01. -/
def reading (t : Naive) : Nat :=
  (t.date.toOrdinal * 86400 + t.hour * 3600 + t.minute * 60 + t.second) * 1000000 + t.microsecond

/-- `replace(tzinfo=UTC)`. -/
def utc (t : Naive) : Aware := ⟨t, 0, by decide⟩

/-- Midnight of a day. -/
def midnight (d : Date) (h : d.Valid) : Naive := ⟨d, 0, 0, 0, 0, h, by decide⟩

end Naive

/-- The instant of an aware datetime, in microseconds of UTC. -/
def Aware.instant (t : Aware) : Int := t.clock.reading - t.offset

/-! ### Writing -/

/-- The seconds, with six more digits where there are microseconds. -/
def secondsText (second microsecond : Nat) : List Char :=
  padded 2 second ++ if microsecond = 0 then [] else '.' :: padded 6 microsecond

/-- `time.isoformat`. -/
def Naive.timeText (t : Naive) : List Char :=
  padded 2 t.hour ++ ':' :: (padded 2 t.minute ++ ':' :: secondsText t.second t.microsecond)

/-- The offset after its sign; it is given in microseconds. -/
def zoneText (n : Nat) : List Char :=
  padded 2 (n / 3600000000) ++ ':' :: (padded 2 (n / 60000000 % 60) ++
    if n % 60000000 = 0 then [] else ':' :: secondsText (n / 1000000 % 60) (n % 1000000))

/-- `isoformat` without an offset. -/
def Naive.isoformat (t : Naive) : List Char := t.date.text ++ 'T' :: t.timeText

/-- `isoformat` with the offset behind the time. -/
def Aware.isoformat (t : Aware) : List Char :=
  t.clock.isoformat ++ (if t.offset < 0 then '-' else '+') :: zoneText t.offset.natAbs

/-! ### Reading -/

namespace Iso

def digitValue (c : Char) : Option Nat := if '0' ≤ c ∧ c ≤ '9' then some (c.toNat - 48) else none

def isDigit (c : Char) : Bool := (digitValue c).isSome

/-- What is where the text has ended. -/
def nul : Char := Char.ofNat 0

/-- What stands at a place. Past the end there is a zero, as in C. -/
def charAt (s : List Char) (i : Nat) : Char := s.getD i nul

/-- `parse_digits`: so many digits after those of `n`. -/
def parseDigits (n : Nat) : Nat → List Char → Option (Nat × List Char)
  | 0, s => some (n, s)
  | _ + 1, [] => none
  | k + 1, c :: s =>
    match digitValue c with
    | none => none
    | some d => parseDigits (10 * n + d) k s

/-- `iso_week1_monday`. -/
def week1Monday (year : Nat) : Nat :=
  let firstDay := (Date.mk year 1 1).toOrdinal
  let firstWeekday := (firstDay + 6) % 7
  firstDay - firstWeekday + if 3 < firstWeekday then 7 else 0

/-- `iso_to_ymd`. -/
def isoToYmd (year week day : Nat) : Option Date :=
  let firstWeekday := ((Date.mk year 1 1).toOrdinal + 6) % 7
  let inYear := 1 ≤ week ∧ week ≤ 52 ∨ week = 53 ∧ (firstWeekday = 3 ∨ firstWeekday = 2 ∧ isLeap year)
  if 1 ≤ year ∧ inYear ∧ 1 ≤ day ∧ day ≤ 7 then some (Date.ofOrdinal (week1Monday year + (week - 1) * 7 + (day - 1)))
  else none

/-- Month and day, after the year and its dash if there is one. -/
def parseMonthDay (separated : Bool) (year : Nat) (s : List Char) : Option (Date × List Char) :=
  (parseDigits 0 2 s).bind fun month =>
    if separated ∧ charAt month.2 0 ≠ '-' then none
    else (parseDigits 0 2 (if separated then month.2.tail else month.2)).map fun day => (⟨year, month.1, day.1⟩, day.2)

/-- A week, and its day if there is `more` than the week. -/
def parseWeek (separated : Bool) (year : Nat) (s : List Char) (more : List Char → Bool) : Option Date :=
  (parseDigits 0 2 s).bind fun week =>
    if more week.2 then
      if separated ∧ charAt week.2 0 ≠ '-' then none
      else (parseDigits 0 1 (if separated then week.2.tail else week.2)).bind fun day => isoToYmd year week.1 day.1
    else isoToYmd year week.1 1

/-- `parse_isoformat_date`: the first `len` characters as a date. -/
def parseDate (s : List Char) (len : Nat) : Option Date :=
  (parseDigits 0 4 s).bind fun year =>
    let separated : Bool := charAt year.2 0 == '-'
    let rest := if separated then year.2.tail else year.2
    if charAt rest 0 = 'W' then parseWeek separated year.1 rest.tail fun rest => s.length - rest.length < len
    else (parseMonthDay separated year.1 rest).bind fun p => if s.length - p.2.length = len then some p.1 else none

/-- `_find_isoformat_datetime_separator`: how long the date is. -/
def findSeparator (s : List Char) : Nat :=
  if s.length = 7 then 7
  else if charAt s 4 = '-' then
    if charAt s 5 = 'W' then
      if 8 < s.length ∧ charAt s 8 = '-' then
        if 10 < s.length ∧ isDigit (charAt s 10) then 8 else 10
      else 8
    else 10
  else if charAt s 4 = 'W' then
    let digits := 7 + ((s.drop 7).takeWhile isDigit).length
    if digits < 9 then digits
    else if digits % 2 = 0 then 7
    else 8
  else 8

/-- Hours, minutes, seconds and microseconds, and whether something is left before the end. -/
structure Fields where
  hour : Nat
  minute : Nat
  second : Nat
  microsecond : Nat
  more : Bool

/-- The digits of a fraction, of `left` bytes. -/
def parseFraction (parts : List Nat) (left : Nat) (s : List Char) : Option Fields := do
  let digits := min left 6
  let (fraction, s) ← parseDigits 0 digits s
  let rest := s.dropWhile isDigit
  some ⟨parts.getD 0 0, parts.getD 1 0, parts.getD 2 0, fraction * Nat.pow 10 (6 - digits), charAt rest 0 ≠ nul⟩

/-- Bytes of UTF-8, in which CPython counts. -/
def size : List Char → Nat
  | [] => 0
  | c :: s => c.utf8Size + size s

/-- `parse_hh_mm_ss_ff`, with the parts that were read and those that may still come. Of `s` the first
`left` bytes are for it. -/
def parseTime (separated : Bool) (parts : List Nat) : (todo : Nat) → (left : Nat) → List Char → Option Fields
  | 0, left, s => parseFraction parts left s
  | todo + 1, left, s =>
    match parseDigits 0 2 s with
    | none => none
    | some (part, s) =>
      let parts := parts ++ [part]
      let c := charAt s 0
      let separated : Bool := if parts.length = 1 then c == ':' else separated
      if left ≤ 3 then some ⟨parts.getD 0 0, parts.getD 1 0, parts.getD 2 0, 0, c ≠ nul⟩
      else if separated ∧ c = ':' then parseTime separated parts todo (left - 3) s.tail
      else if c = '.' ∨ c = ',' then parseFraction parts (left - 3) s.tail
      else if separated then none
      else parseTime separated parts todo (left - 2) s

/-- An offset begins here. -/
def startsOffset (c : Char) : Bool := c = '+' || c = '-' || c = 'Z'

/-- `parse_isoformat_time`: the fields of the time, and the offset in microseconds. One of less than a
second is none. -/
def parseTimeOffset (s : List Char) : Option (Fields × Option Int) := do
  let time ← parseTime false [] 3 (size (s.takeWhile (!startsOffset ·))) s
  match s.dropWhile (!startsOffset ·) with
  | [] => if time.more then none else some (time, none)
  | 'Z' :: rest => if charAt rest 0 ≠ nul then none else some (time, some 0)
  | sign :: rest =>
    let zone ← parseTime false [] 3 (size rest) rest
    if zone.more then none
    let seconds : Int := zone.hour * 3600 + zone.minute * 60 + zone.second
    let offset := if seconds = 0 then 0 else seconds * 1000000 + zone.microsecond
    some (time, some (if sign = '-' then -offset else offset))

/-- A clock with its offset, if it has one. -/
def stamp (clock : Naive) : Option Int → Option Stamp
  | none => some (.naive clock)
  | some offset =>
    if h : -(microsecondsPerDay : Int) < offset ∧ offset < microsecondsPerDay then some (.aware ⟨clock, offset, h⟩)
    else none

/-- A datetime of a date that was read and the text after the separator. -/
def timed (date : Date) (s : List Char) : Option Stamp := do
  let (time, offset) ← parseTimeOffset s
  let clock ← Naive.of date time.hour time.minute time.second time.microsecond
  stamp clock offset

/-- `datetime.fromisoformat`. -/
def fromisoformat (s : List Char) : Option Stamp :=
  if s.length < 7 then none
  else
    let len := findSeparator s
    (parseDate s len).bind fun date =>
      if s.length ≤ len then (Naive.of date 0 0 0 0).map .naive else timed date (s.drop (len + 1))

/-! ### What is written is read -/

theorem digitChar_spec {d : Nat} (h : d < 10) : digitValue (Nat.digitChar d) = some d ∧
    startsOffset (Nat.digitChar d) = false ∧ (Nat.digitChar d).utf8Size = 1 ∧ Nat.digitChar d ≠ 'W' := by
  have hall : ∀ d < 10, digitValue (Nat.digitChar d) = some d ∧
    startsOffset (Nat.digitChar d) = false ∧ (Nat.digitChar d).utf8Size = 1 ∧ Nat.digitChar d ≠ 'W' := by decide
  exact hall d h

theorem mem_padded {w n : Nat} {c : Char} (h : c ∈ padded w n) : ∃ d < 10, c = Nat.digitChar d := by
  induction w generalizing n with
  | zero => cases h
  | succ w ih =>
    rw [padded, List.mem_append, List.mem_singleton] at h
    obtain h | rfl := h
    · exact ih h
    · exact ⟨n % 10, Nat.mod_lt n (by decide), rfl⟩

theorem parseDigits_add (n k j : Nat) (s : List Char) :
    parseDigits n (k + j) s = (parseDigits n k s).bind fun p => parseDigits p.1 j p.2 := by
  induction k generalizing n s with
  | zero => rw [Nat.zero_add, parseDigits, Option.bind_some]
  | succ k ih =>
    rw [Nat.succ_add]
    cases s with
    | nil => rfl
    | cons c s =>
      rw [parseDigits, parseDigits]
      cases digitValue c with
      | none => rfl
      | some d => exact ih (10 * n + d) s

/-- Digits are read as the number that they were made of. -/
theorem parseDigits_padded (w : Nat) {n : Nat} (h : n < 10 ^ w) (acc : Nat) (s : List Char) :
    parseDigits acc w (padded w n ++ s) = some (acc * 10 ^ w + n, s) := by
  induction w generalizing n s with
  | zero =>
    obtain rfl : n = 0 := by simpa using h
    simp [padded, parseDigits]
  | succ w ih =>
    rw [Nat.pow_succ] at h
    rw [padded, List.append_assoc, parseDigits_add, ih (by omega), Option.bind_some, List.singleton_append, parseDigits,
      (digitChar_spec (Nat.mod_lt n (by decide))).1]
    dsimp only
    rw [parseDigits, Nat.pow_succ]
    congr 2
    have hmod := Nat.div_add_mod n 10
    rw [Nat.mul_add, ← Nat.mul_assoc, Nat.mul_comm 10 acc, Nat.mul_assoc acc 10, Nat.mul_comm 10 (10 ^ w)]
    omega

theorem parseDigits_two {n : Nat} (h : n < 100) (s : List Char) : parseDigits 0 2 (padded 2 n ++ s) = some (n, s) := by
  rw [parseDigits_padded 2 h, Nat.zero_mul, Nat.zero_add]

/-- The last part: nothing of the time is left. -/
theorem parseTime_last {separated : Bool} {parts : List Nat} {todo n : Nat} (h : n < 100) (s : List Char) :
    parseTime separated parts (todo + 1) 2 (padded 2 n ++ s) =
      some ⟨(parts ++ [n]).getD 0 0, (parts ++ [n]).getD 1 0, (parts ++ [n]).getD 2 0, 0, charAt s 0 ≠ nul⟩ := by
  rw [parseTime, parseDigits_two h]
  rfl

/-- A part with a colon after it. -/
theorem parseTime_colon {separated : Bool} {parts : List Nat} (hseparated : parts = [] ∨ separated = true)
    {todo n left : Nat} (hleft : 3 < left) (h : n < 100) (s : List Char) :
    parseTime separated parts (todo + 1) left (padded 2 n ++ ':' :: s) =
      parseTime true (parts ++ [n]) todo (left - 3) s := by
  have hstill : (if (parts ++ [n]).length = 1 then ':' == ':' else separated) = true := by
    obtain rfl | rfl := hseparated
    · rfl
    · split <;> rfl
  rw [parseTime, parseDigits_two h]
  show (if left ≤ 3 then _ else _) = _
  rw [if_neg (by omega)]
  show (if (if (parts ++ [n]).length = 1 then ':' == ':' else separated) = true ∧ ':' = ':' then
    parseTime (if (parts ++ [n]).length = 1 then ':' == ':' else separated) (parts ++ [n]) todo _ s else _) = _
  rw [hstill, if_pos ⟨rfl, rfl⟩]

/-- The last part, with a fraction after it. -/
theorem parseTime_point {separated : Bool} {parts : List Nat} {todo n fraction : Nat} (h : n < 100)
    (hfraction : fraction < 1000000) (s : List Char) (hs : isDigit (charAt s 0) = false) :
    parseTime separated parts (todo + 1) 9 (padded 2 n ++ '.' :: (padded 6 fraction ++ s)) =
      some ⟨(parts ++ [n]).getD 0 0, (parts ++ [n]).getD 1 0, (parts ++ [n]).getD 2 0, fraction, charAt s 0 ≠ nul⟩ := by
  have hrest : s.dropWhile isDigit = s := by
    cases s with
    | nil => rfl
    | cons c s => exact List.dropWhile_cons_of_neg (by simpa [charAt] using hs)
  have hdigits : parseFraction (parts ++ [n]) 6 (padded 6 fraction ++ s) =
      some ⟨(parts ++ [n]).getD 0 0, (parts ++ [n]).getD 1 0, (parts ++ [n]).getD 2 0, fraction, charAt s 0 ≠ nul⟩ := by
    have hread : parseDigits 0 6 (padded 6 fraction ++ s) = some (fraction, s) := by
      rw [parseDigits_padded 6 hfraction, Nat.zero_mul, Nat.zero_add]
    simp [parseFraction, hread, hrest]
  rw [parseTime, parseDigits_two h]
  show (if 9 ≤ 3 then _ else _) = _
  rw [if_neg (by omega)]
  refine (if_neg ?_).trans ((if_pos (.inl rfl)).trans hdigits)
  intro hcolon
  have hpoint : '.' ≠ ':' := by decide
  exact hpoint hcolon.2

theorem digitChar_of_digitValue {c : Char} {d : Nat} (h : digitValue c = some d) : d < 10 ∧ Nat.digitChar d = c := by
  unfold digitValue at h
  split at h
  · next hdigit =>
    cases h
    have hlow : 48 ≤ c.toNat := hdigit.1
    have hhigh : c.toNat ≤ 57 := hdigit.2
    refine ⟨by omega, Char.toNat_inj.mp ?_⟩
    rw [Nat.toNat_digitChar_of_lt_ten (by omega)]
    omega
  · cases h

/-- Digits that were read are those of the number. -/
theorem padded_of_parseDigits {w n : Nat} {s rest : List Char} (h : parseDigits 0 w s = some (n, rest)) :
    s = padded w n ++ rest := by
  induction w generalizing n rest with
  | zero =>
    cases h
    rfl
  | succ w ih =>
    rw [parseDigits_add] at h
    obtain ⟨⟨m, s'⟩, hm, h⟩ := Option.bind_eq_some_iff.mp h
    cases s' with
    | nil => cases h
    | cons c s' =>
      dsimp only at h
      rw [parseDigits] at h
      cases hc : digitValue c with
      | none =>
        rw [hc] at h
        cases h
      | some d =>
        rw [hc] at h
        cases h
        obtain ⟨hd, rfl⟩ := digitChar_of_digitValue hc
        have hdiv : (10 * m + d) / 10 = m := by omega
        have hmod : (10 * m + d) % 10 = d := by omega
        rw [ih hm, padded, hdiv, hmod, List.append_assoc]
        rfl

/-! ### Times -/

theorem size_append (s t : List Char) : size (s ++ t) = size s + size t := by
  induction s with
  | nil => exact (Nat.zero_add _).symm
  | cons c s ih => rw [List.cons_append, size, size, ih, Nat.add_assoc]

theorem size_padded (w n : Nat) : size (padded w n) = w := by
  induction w generalizing n with
  | zero => rfl
  | succ w ih =>
    have hone : size [Nat.digitChar (n % 10)] = 1 := (digitChar_spec (Nat.mod_lt n (by decide))).2.2.1
    rw [padded, size_append, ih, hone]

theorem size_cons (c : Char) (s : List Char) : size (c :: s) = c.utf8Size + size s := rfl

theorem size_secondsText (second microsecond : Nat) :
    size (secondsText second microsecond) = if microsecond = 0 then 2 else 9 := by
  unfold secondsText
  rw [size_append, size_padded]
  split
  · rfl
  · rw [size_cons, size_padded]
    rfl

theorem parseTime_seconds {parts : List Nat} {second microsecond : Nat} (hsecond : second < 100)
    (hmicro : microsecond < 1000000) (s : List Char) (hs : isDigit (charAt s 0) = false) :
    parseTime true parts 1 (size (secondsText second microsecond)) (secondsText second microsecond ++ s) =
      some ⟨(parts ++ [second]).getD 0 0, (parts ++ [second]).getD 1 0, (parts ++ [second]).getD 2 0, microsecond,
        charAt s 0 ≠ nul⟩ := by
  rw [size_secondsText]
  unfold secondsText
  by_cases hzero : microsecond = 0
  · rw [if_pos hzero, if_pos hzero, List.append_nil, parseTime_last hsecond, hzero]
  · rw [if_neg hzero, if_neg hzero, List.append_assoc, List.cons_append, parseTime_point hsecond hmicro s hs]

/-- A time is read, and whether there is more. -/
theorem parseTime_timeText (t : Naive) (s : List Char) (hs : isDigit (charAt s 0) = false) :
    parseTime false [] 3 (size t.timeText) (t.timeText ++ s) =
      some ⟨t.hour, t.minute, t.second, t.microsecond, charAt s 0 ≠ nul⟩ := by
  obtain ⟨-, hhour, hminute, hsecond, hmicro⟩ := t.valid
  have hlong : 2 ≤ size (secondsText t.second t.microsecond) := by
    rw [size_secondsText]
    split <;> decide
  have hsize : size t.timeText = size (secondsText t.second t.microsecond) + 6 := by
    have hcolon : ':'.utf8Size = 1 := by decide
    rw [Naive.timeText, size_append, size_cons, size_append, size_cons, size_padded, size_padded, hcolon]
    omega
  rw [hsize, Naive.timeText, List.append_assoc, List.cons_append, List.append_assoc, List.cons_append,
    parseTime_colon (.inl rfl) (by omega) (by omega), parseTime_colon (.inr rfl) (by omega) (by omega),
    Nat.sub_sub, Nat.add_sub_cancel, parseTime_seconds (by omega) hmicro s hs]
  rfl

theorem parseTime_zoneText {n : Nat} (h : n < microsecondsPerDay) :
    parseTime false [] 3 (size (zoneText n)) (zoneText n) =
      some ⟨n / 3600000000, n / 60000000 % 60, n / 1000000 % 60, n % 1000000, false⟩ := by
  unfold microsecondsPerDay at h
  have hcolon : ':'.utf8Size = 1 := by decide
  unfold zoneText
  by_cases hzero : n % 60000000 = 0
  · have hleft : 2 + (1 + (2 + size [])) - 3 = 2 := rfl
    rw [if_pos hzero, size_append, size_cons, size_append, size_padded, size_padded, hcolon,
      parseTime_colon (.inl rfl) (by decide) (by omega), hleft, parseTime_last (by omega)]
    have hsecond : n / 1000000 % 60 = 0 := by omega
    have hmicro : n % 1000000 = 0 := by omega
    rw [hsecond, hmicro]
    rfl
  · have hlong : 2 ≤ size (secondsText (n / 1000000 % 60) (n % 1000000)) := by
      rw [size_secondsText]
      split <;> decide
    rw [if_neg hzero, size_append, size_cons, size_append, size_cons, size_padded, size_padded, hcolon,
      parseTime_colon (.inl rfl) (by omega) (by omega), parseTime_colon (.inr rfl) (by omega) (by omega)]
    have hleft : 2 + (1 + (2 + (1 + size (secondsText (n / 1000000 % 60) (n % 1000000))))) - 3 - 3 =
        size (secondsText (n / 1000000 % 60) (n % 1000000)) := by omega
    have hread : parseTime true [n / 3600000000, n / 60000000 % 60] 1 _
        (secondsText (n / 1000000 % 60) (n % 1000000) ++ []) = _ := parseTime_seconds (by omega) (by omega) [] rfl
    rw [List.append_nil] at hread
    rw [hleft]
    exact hread

theorem not_startsOffset {t : Naive} {c : Char} (h : c ∈ t.timeText) : startsOffset c = false := by
  have hdigit : ∀ w n, c ∈ padded w n → startsOffset c = false := by
    intro w n h
    obtain ⟨d, hd, rfl⟩ := mem_padded h
    exact (digitChar_spec hd).2.1
  simp only [Naive.timeText, secondsText, List.mem_append, List.mem_cons] at h
  obtain h | rfl | h | rfl | h | h := h
  · exact hdigit _ _ h
  · rfl
  · exact hdigit _ _ h
  · rfl
  · exact hdigit _ _ h
  · split at h
    · cases h
    · obtain rfl | h := List.mem_cons.mp h
      · rfl
      · exact hdigit _ _ h

/-- What comes before an offset is the time. -/
theorem split_timeText (t : Naive) {s : List Char} (hs : s.head?.all startsOffset = true) :
    (t.timeText ++ s).takeWhile (!startsOffset ·) = t.timeText ∧ (t.timeText ++ s).dropWhile (!startsOffset ·) = s := by
  have hall : ∀ c ∈ t.timeText, (!startsOffset c) = true := fun c hc => by rw [not_startsOffset hc]; rfl
  rw [List.takeWhile_append_of_pos hall, List.dropWhile_append_of_pos hall]
  cases s with
  | nil => exact ⟨List.append_nil _, rfl⟩
  | cons c s =>
    have hc : startsOffset c = true := by simpa using hs
    rw [List.takeWhile_cons_of_neg (by simp [hc]), List.dropWhile_cons_of_neg (by simp [hc]), List.append_nil]
    exact ⟨rfl, rfl⟩

theorem parseTimeOffset_timeText (t : Naive) :
    parseTimeOffset t.timeText = some (⟨t.hour, t.minute, t.second, t.microsecond, false⟩, none) := by
  have hsplit := split_timeText t (s := []) rfl
  have hread := parseTime_timeText t [] rfl
  rw [List.append_nil] at hsplit hread
  unfold parseTimeOffset
  rw [hsplit.1, hsplit.2, hread]
  rfl

/-- What is read of an offset: one of less than a second is none. -/
def readOffset (offset : Int) : Int := if offset.natAbs < 1000000 then 0 else offset

theorem readOffset_eq_iff {offset : Int} : readOffset offset = offset ↔ offset = 0 ∨ 1000000 ≤ offset.natAbs := by
  unfold readOffset
  split <;> omega

/-- Hours, minutes and seconds of an offset, put together again. -/
theorem offset_of_fields (n : Nat) :
    let seconds : Int := (n / 3600000000 : Nat) * 3600 + (n / 60000000 % 60 : Nat) * 60 + (n / 1000000 % 60 : Nat)
    (if seconds = 0 then 0 else seconds * 1000000 + (n % 1000000 : Nat)) = readOffset n := by
  have hseconds : ((n / 3600000000 : Nat) * 3600 + (n / 60000000 % 60 : Nat) * 60 + (n / 1000000 % 60 : Nat) : Int) =
      (n / 1000000 : Nat) := by omega
  dsimp only
  rw [hseconds, readOffset, Int.natAbs_natCast]
  split <;> split <;> omega

theorem parseTimeOffset_zoneText (t : Naive) {offset : Int} (h : offset.natAbs < microsecondsPerDay) :
    ∃ more, parseTimeOffset (t.timeText ++ (if offset < 0 then '-' else '+') :: zoneText offset.natAbs) =
      some (⟨t.hour, t.minute, t.second, t.microsecond, more⟩, some (readOffset offset)) := by
  have hzone := parseTime_zoneText h
  have hfields := offset_of_fields offset.natAbs
  have hread : ∀ sign, sign = '+' ∨ sign = '-' → ∃ more, parseTimeOffset (t.timeText ++ sign :: zoneText offset.natAbs) =
      some (⟨t.hour, t.minute, t.second, t.microsecond, more⟩,
        some (if sign = '-' then -readOffset offset.natAbs else readOffset offset.natAbs)) := by
    intro sign hsign
    have hstarts : startsOffset sign = true := by obtain rfl | rfl := hsign <;> rfl
    have hdigit : isDigit sign = false := by obtain rfl | rfl := hsign <;> rfl
    have hsplit := split_timeText t (s := sign :: zoneText offset.natAbs) (by simpa using hstarts)
    unfold parseTimeOffset
    rw [hsplit.1, hsplit.2, parseTime_timeText t (sign :: zoneText offset.natAbs) hdigit]
    let time : Fields := ⟨t.hour, t.minute, t.second, t.microsecond, charAt (sign :: zoneText offset.natAbs) 0 ≠ nul⟩
    refine ⟨time.more, ?_⟩
    obtain rfl | rfl := hsign
    · show (parseTime false [] 3 (size (zoneText offset.natAbs)) (zoneText offset.natAbs)).bind _ = _
      rw [hzone]
      exact congrArg (fun o : Int => some (time, some o)) hfields
    · show (parseTime false [] 3 (size (zoneText offset.natAbs)) (zoneText offset.natAbs)).bind _ = _
      rw [hzone]
      exact congrArg (fun o : Int => some (time, some (-o))) hfields
  by_cases hneg : offset < 0
  · obtain ⟨more, hread⟩ := hread '-' (.inr rfl)
    have habs : -readOffset offset.natAbs = readOffset offset := by
      rw [readOffset, readOffset, Int.natAbs_natCast]
      split <;> omega
    rw [if_pos rfl, habs] at hread
    rw [if_pos hneg]
    exact ⟨more, hread⟩
  · obtain ⟨more, hread⟩ := hread '+' (.inl rfl)
    have habs : (offset.natAbs : Int) = offset := by omega
    rw [if_neg (by decide), habs] at hread
    rw [if_neg hneg]
    exact ⟨more, hread⟩

/-! ### Dates and datetimes -/

theorem findSeparator_text (d : Date) (s : List Char) : findSeparator (d.text ++ s) = 10 := by
  have hlength : (d.text ++ s).length ≠ 7 := by
    rw [List.length_append, Date.length_text]
    omega
  have hdash : charAt (d.text ++ s) 4 = '-' := rfl
  have hmonth : charAt (d.text ++ s) 5 = Nat.digitChar (d.month / 10 % 10) := rfl
  have hdigit : Nat.digitChar (d.month / 10 % 10) ≠ 'W' := (digitChar_spec (Nat.mod_lt _ (by decide))).2.2.2
  unfold findSeparator
  rw [if_neg hlength, if_pos hdash, hmonth, if_neg hdigit]

theorem parseDate_text {d : Date} (h : d.Valid) (s : List Char) : parseDate (d.text ++ s) 10 = some d := by
  have hday := h.day_le
  obtain ⟨-, hyear, -, hmonth, -, -⟩ := h
  have hyearRead : parseDigits 0 4 (d.text ++ s) = some (d.year, '-' :: (padded 2 d.month ++ '-' :: (padded 2 d.day ++ s))) := by
    rw [Date.text, List.append_assoc, List.append_assoc, parseDigits_padded 4 (by omega)]
    simp
  have hmonthRead := parseDigits_two (n := d.month) (by omega) ('-' :: (padded 2 d.day ++ s))
  have hdayRead := parseDigits_two (n := d.day) (by omega) s
  have hmonthly : charAt (padded 2 d.month ++ '-' :: (padded 2 d.day ++ s)) 0 ≠ 'W' :=
    (digitChar_spec (Nat.mod_lt (d.month / 10) (by decide))).2.2.2
  have hend : (d.text ++ s).length - s.length = 10 := by
    rw [List.length_append, Date.length_text]
    omega
  have hread : parseMonthDay true d.year (padded 2 d.month ++ '-' :: (padded 2 d.day ++ s)) = some (d, s) := by
    rw [parseMonthDay, hmonthRead, Option.bind_some, if_neg fun hdash => hdash.2 rfl]
    show (parseDigits 0 2 (padded 2 d.day ++ s)).map _ = _
    rw [hdayRead, Option.map_some]
  rw [parseDate, hyearRead, Option.bind_some]
  refine (if_neg hmonthly).trans ?_
  show (parseMonthDay true d.year (padded 2 d.month ++ '-' :: (padded 2 d.day ++ s))).bind _ = _
  rw [hread, Option.bind_some, if_pos hend]

/-- `date.fromisoformat`; the length is in bytes. -/
def dateFromisoformat (s : List Char) : Option Date :=
  if size s = 7 ∨ size s = 8 ∨ size s = 10 then (parseDate s (size s)).filter fun d => d.Valid else none

theorem dateFromisoformat_text {d : Date} (h : d.Valid) : dateFromisoformat d.text = some d := by
  have hsize : size d.text = 10 := by
    have hdash : '-'.utf8Size = 1 := by decide
    simp only [Date.text, size_append, size_cons, size_padded, hdash]
  have hread := parseDate_text h []
  rw [List.append_nil] at hread
  rw [dateFromisoformat, hsize, if_pos (.inr (.inr rfl)), hread]
  simp [h]

theorem length_le_size (s : List Char) : s.length ≤ size s := by
  induction s with
  | nil => exact Nat.le_refl 0
  | cons c s ih =>
    have hpos : 0 < c.utf8Size := c.utf8Size_pos
    rw [List.length_cons, size_cons]
    omega

theorem eq_cons_of_charAt {s : List Char} {c : Char} (h : charAt s 0 = c) (hc : c ≠ nul) : s = c :: s.tail := by
  cases s with
  | nil => exact absurd h.symm hc
  | cons a s => rw [← h]; rfl

/-- Month and day are read from their text. -/
theorem text_of_parseMonthDay {year : Nat} {s rest : List Char} {d : Date}
    (h : parseMonthDay true year s = some (d, rest)) :
    d.year = year ∧ s = padded 2 d.month ++ '-' :: (padded 2 d.day ++ rest) := by
  obtain ⟨⟨month, s'⟩, hmonth, h⟩ := Option.bind_eq_some_iff.mp h
  dsimp only at h
  split at h
  · cases h
  · next hdash =>
    obtain ⟨⟨day, s''⟩, hday, h⟩ := Option.map_eq_some_iff.mp h
    cases h
    have hs' : s' = '-' :: s'.tail := eq_cons_of_charAt (by simpa using hdash) (by decide)
    rw [padded_of_parseDigits hmonth, hs', ← padded_of_parseDigits hday]
    exact ⟨rfl, rfl⟩

/-- What is read as a date and has dashes where a bare date has them is that date's text. -/
theorem text_of_dateFromisoformat {s : List Char} {d : Date} (h : dateFromisoformat s = some d) (hlength : s.length = 10)
    (hdash : charAt s 4 = '-') (hweek : charAt s 5 ≠ 'W') : d.Valid ∧ s = d.text := by
  have hsize := length_le_size s
  rw [dateFromisoformat] at h
  split at h
  · next hsizes =>
    have hten : size s = 10 := by omega
    rw [hten, Option.filter_eq_some_iff] at h
    obtain ⟨hread, hvalid⟩ := h
    refine ⟨by simpa using hvalid, ?_⟩
    obtain ⟨⟨year, s'⟩, hyear, hread⟩ := Option.bind_eq_some_iff.mp hread
    have hs := padded_of_parseDigits hyear
    have hs' : s' = '-' :: s'.tail := by
      rw [hs] at hdash
      exact eq_cons_of_charAt hdash (by decide)
    have hseparated : (charAt s' 0 == '-') = true := by rw [hs']; rfl
    have hmonthly : charAt s'.tail 0 ≠ 'W' := by
      rw [hs, hs'] at hweek
      exact hweek
    dsimp only at hread
    rw [hseparated, if_pos rfl, if_neg hmonthly] at hread
    obtain ⟨⟨d', rest⟩, hmonth, hread⟩ := Option.bind_eq_some_iff.mp hread
    dsimp only at hread
    split at hread
    · next hrest =>
      cases hread
      obtain ⟨rfl, htail⟩ := text_of_parseMonthDay hmonth
      have hend : rest = [] := by
        rw [← List.length_eq_zero_iff]
        omega
      rw [hs, hs', htail, hend, List.append_nil]
      simp [Date.text]
    · cases hread
  · cases h

theorem length_isoformat (t : Naive) (s : List Char) : 11 < (t.isoformat ++ s).length := by
  simp only [Naive.isoformat, Naive.timeText, List.length_append, List.length_cons, Date.length_text, length_padded]
  omega

/-- The date is read first, and then what comes after the separator. -/
theorem fromisoformat_eq (t : Naive) (s : List Char) :
    fromisoformat (t.isoformat ++ s) = timed t.date (t.timeText ++ s) := by
  have hlength := length_isoformat t s
  have hshort : ¬ (t.isoformat ++ s).length < 7 := by omega
  have hmore : ¬ (t.isoformat ++ s).length ≤ 10 := by omega
  have hseparator : findSeparator (t.isoformat ++ s) = 10 := by
    rw [Naive.isoformat, List.append_assoc]
    exact findSeparator_text _ _
  have hdate : parseDate (t.isoformat ++ s) 10 = some t.date := by
    rw [Naive.isoformat, List.append_assoc]
    exact parseDate_text t.valid.1 _
  have hrest : (t.isoformat ++ s).drop (10 + 1) = t.timeText ++ s := rfl
  unfold fromisoformat
  dsimp only
  rw [if_neg hshort, hseparator, hdate, Option.bind_some, if_neg hmore, hrest]

theorem timed_eq {t : Naive} {s : List Char} {more : Bool} {offset : Option Int}
    (h : parseTimeOffset s = some (⟨t.hour, t.minute, t.second, t.microsecond, more⟩, offset)) :
    timed t.date s = stamp t offset := by
  simp only [timed, h, Option.bind_eq_bind, Option.bind_some, t.of_eq]

/-- **What `isoformat` makes of a datetime is read as that datetime.** -/
theorem fromisoformat_naive (t : Naive) : fromisoformat t.isoformat = some (.naive t) := by
  have hread := fromisoformat_eq t []
  rw [List.append_nil, List.append_nil, timed_eq (parseTimeOffset_timeText t)] at hread
  exact hread

/-- **The same with an offset**, of which less than a second is not read. -/
theorem fromisoformat_aware (t : Aware) :
    ∃ r : Aware, fromisoformat t.isoformat = some (.aware r) ∧ r.clock = t.clock ∧ r.offset = readOffset t.offset := by
  have hlt := t.offset_lt
  have hread : -(microsecondsPerDay : Int) < readOffset t.offset ∧ readOffset t.offset < microsecondsPerDay := by
    have hday : (0 : Int) < microsecondsPerDay := by decide
    unfold readOffset
    split <;> omega
  have habs : t.offset.natAbs < microsecondsPerDay := by omega
  obtain ⟨more, hzone⟩ := parseTimeOffset_zoneText t.clock habs
  refine ⟨⟨t.clock, readOffset t.offset, hread⟩, ?_, rfl, rfl⟩
  rw [Aware.isoformat, fromisoformat_eq, timed_eq hzone, stamp, dif_pos hread]

end Iso

end PyAppRunner.Base
