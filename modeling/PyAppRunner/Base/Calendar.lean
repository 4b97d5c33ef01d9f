import PyAppRunner.Base.DateTime

/-! The calendar: which dates there are, and that the ordinals count them.

A date is found from its ordinal by cycles of 400, 100 and 4 years and by single years; what is left is a
day of a year, and for that there are only two tables. -/
namespace PyAppRunner.Base

/-- The length of a month in that year. -/
def daysInMonth (year month : Nat) : Nat :=
  if month = 2 then if isLeap year then 29 else 28
  else [31, 28, 31, 30, 31, 30, 31, 31, 30, 31, 30, 31].getD (month - 1) 0

namespace Date

/-- What the constructor of `date` takes. -/
def Valid (d : Date) : Prop :=
  1 ≤ d.year ∧ d.year ≤ 9999 ∧ 1 ≤ d.month ∧ d.month ≤ 12 ∧ 1 ≤ d.day ∧ d.day ≤ daysInMonth d.year d.month

instance (d : Date) : Decidable d.Valid :=
  inferInstanceAs (Decidable (1 ≤ d.year ∧ d.year ≤ 9999 ∧ 1 ≤ d.month ∧ d.month ≤ 12 ∧ 1 ≤ d.day ∧ _))

end Date

/-! ### A year -/

/-- `daysBeforeMonth` and `daysInMonth`, of a leap year or another. -/
def tableBefore (leap : Bool) (month : Nat) : Nat :=
  [0, 31, 59, 90, 120, 151, 181, 212, 243, 273, 304, 334].getD (month - 1) 0 + if 2 < month && leap then 1 else 0

/-- The days before a month, in a year that is or is not a leap year. -/
def tableIn (leap : Bool) (month : Nat) : Nat :=
  if month = 2 then if leap then 29 else 28 else [31, 28, 31, 30, 31, 30, 31, 31, 30, 31, 30, 31].getD (month - 1) 0

theorem daysBeforeMonth_eq (year month : Nat) : daysBeforeMonth year month = tableBefore (isLeap year) month := rfl

theorem daysInMonth_eq (year month : Nat) : daysInMonth year month = tableIn (isLeap year) month := rfl

/-- The month of a day of a year. -/
def monthOf (leap : Bool) (n : Nat) : Nat :=
  let month := (n + 50) / 32
  if n < tableBefore leap month then month - 1 else month

theorem monthOf_spec (leap : Bool) {n : Nat} (hn : n < 365) :
    1 ≤ monthOf leap n ∧ monthOf leap n ≤ 12 ∧ tableBefore leap (monthOf leap n) ≤ n ∧
      n - tableBefore leap (monthOf leap n) < tableIn leap (monthOf leap n) := by
  revert leap n
  decide +kernel

/-- The months of a year end with the year. -/
theorem table_le (leap : Bool) {month : Nat} (h : 1 ≤ month) (h' : month ≤ 12) :
    tableBefore leap month + tableIn leap month ≤ 365 + leap.toNat := by
  have hall : ∀ leap : Bool, ∀ month < 13, 1 ≤ month → tableBefore leap month + tableIn leap month ≤ 365 + leap.toNat := by
    decide
  exact hall leap month (by omega) h

theorem isLeap_iff (year : Nat) : isLeap year = true ↔ year % 4 = 0 ∧ (year % 100 ≠ 0 ∨ year % 400 = 0) := by
  simp [isLeap]

/-! ### Ordinals -/

/-- The days before a year. -/
def daysBefore (year : Nat) : Nat :=
  let y := year - 1
  y * 365 + y / 4 - y / 100 + y / 400

theorem toOrdinal_eq (d : Date) :
    d.toOrdinal = daysBefore d.year + tableBefore (isLeap d.year) d.month + d.day := rfl

/-- Cycles of 400, 100 and 4 years and single years. -/
theorem daysBefore_cycles {a b c d : Nat} (hb : b ≤ 3) (hc : c ≤ 24) (hd : d ≤ 3) :
    daysBefore (a * 400 + 1 + b * 100 + c * 4 + d) = a * 146097 + b * 36524 + c * 1461 + d * 365 := by
  have hy : a * 400 + 1 + b * 100 + c * 4 + d - 1 = a * 400 + b * 100 + c * 4 + d := by omega
  have h4 : (a * 400 + b * 100 + c * 4 + d) / 4 = a * 100 + b * 25 + c := by omega
  have h100 : (a * 400 + b * 100 + c * 4 + d) / 100 = a * 4 + b := by omega
  have h400 : (a * 400 + b * 100 + c * 4 + d) / 400 = a := by omega
  unfold daysBefore
  rw [hy]
  dsimp only
  rw [h4, h100, h400]
  omega

/-- The last day of a cycle, which is the last one of a leap year. -/
theorem lastDay_of_leap {year : Nat} (h : isLeap year = true) :
    (Date.mk year 12 31).toOrdinal = daysBefore year + 366 := by
  rw [toOrdinal_eq, h]
  rfl

theorem isLeap_last {a b c : Nat} (h : c ≤ 23 ∨ b = 3 ∧ c = 24) :
    isLeap (a * 400 + 1 + b * 100 + c * 4 + 3) = true := by
  rw [isLeap_iff]
  omega

namespace Date

/-- A day of a year, counted from none. -/
theorem ofDay_spec (year n : Nat) (hyear : 1 ≤ year) (hyear' : year ≤ 9999) (hn : n < 365) :
    let month := monthOf (isLeap year) n
    let d := Date.mk year month (n - daysBeforeMonth year month + 1)
    d.Valid ∧ d.toOrdinal = daysBefore year + n + 1 := by
  obtain ⟨hmonth, hmonth', hbefore, hin⟩ := monthOf_spec (isLeap year) hn
  refine ⟨⟨hyear, hyear', hmonth, hmonth', Nat.succ_pos _, hin⟩, ?_⟩
  rw [toOrdinal_eq, daysBeforeMonth_eq]
  dsimp only
  omega

theorem lastDay_spec (year : Nat) (hyear : 1 ≤ year) (hyear' : year ≤ 9999) (hleap : isLeap year = true) :
    (Date.mk year 12 31).Valid ∧ (Date.mk year 12 31).toOrdinal = daysBefore year + 366 := by
  refine ⟨⟨hyear, hyear', Nat.succ_pos _, Nat.le_refl _, Nat.succ_pos _, ?_⟩, lastDay_of_leap hleap⟩
  show 31 ≤ tableIn (isLeap year) 12
  rw [hleap]
  exact Nat.le_refl 31

/-- Every number up to the last is the ordinal of the date that is found for it. -/
theorem ofOrdinal_spec {n : Nat} (h : 1 ≤ n) (h' : n ≤ maxOrdinal) :
    (ofOrdinal n).Valid ∧ (ofOrdinal n).toOrdinal = n := by
  unfold maxOrdinal at h'
  unfold ofOrdinal
  dsimp only
  generalize ha : (n - 1) / 146097 = a
  generalize hm : (n - 1) % 146097 = m
  generalize hb : m / 36524 = b
  generalize hm2 : m % 36524 = m2
  generalize hc : m2 / 1461 = c
  generalize hm3 : m2 % 1461 = m3
  generalize hd : m3 / 365 = d
  generalize hr : m3 % 365 = r
  have hn : n = a * 146097 + b * 36524 + c * 1461 + d * 365 + r + 1 := by omega
  split
  · next hlast =>
    obtain hyears | hcenturies := hlast
    · -- The last day of four years, and not of a century.
      have hyear : a * 400 + 1 + b * 100 + c * 4 + d - 1 = a * 400 + 1 + b * 100 + c * 4 + 3 := by omega
      obtain ⟨hvalid, hordinal⟩ := lastDay_spec (a * 400 + 1 + b * 100 + c * 4 + 3) (by omega) (by omega)
        (isLeap_last (.inl (by omega)))
      rw [hyear]
      refine ⟨hvalid, ?_⟩
      rw [hordinal, daysBefore_cycles (by omega) (by omega) (by omega)]
      omega
    · -- The last day of 400 years.
      have hyear : a * 400 + 1 + b * 100 + c * 4 + d - 1 = a * 400 + 1 + 3 * 100 + 24 * 4 + 3 := by omega
      obtain ⟨hvalid, hordinal⟩ := lastDay_spec (a * 400 + 1 + 3 * 100 + 24 * 4 + 3) (by omega) (by omega)
        (isLeap_last (.inr ⟨rfl, rfl⟩))
      rw [hyear]
      refine ⟨hvalid, ?_⟩
      rw [hordinal, daysBefore_cycles (by omega) (by omega) (by omega)]
      omega
  · next hlast =>
    obtain ⟨hvalid, hordinal⟩ := ofDay_spec (a * 400 + 1 + b * 100 + c * 4 + d) r (by omega) (by omega) (by omega)
    refine ⟨hvalid, hordinal.trans ?_⟩
    rw [daysBefore_cycles (by omega) (by omega) (by omega)]
    omega

theorem Valid.day_le {d : Date} (h : d.Valid) : d.day ≤ 31 := by
  obtain ⟨-, -, -, hmonth, -, hday⟩ := h
  have hall : ∀ leap : Bool, ∀ month < 13, tableIn leap month ≤ 31 := by decide
  exact Nat.le_trans hday (hall (isLeap d.year) d.month (by omega))

/-- Every date but the last has one after it. -/
theorem toOrdinal_lt {d : Date} (h : d.Valid) (hlast : d ≠ ⟨9999, 12, 31⟩) : d.toOrdinal < maxOrdinal := by
  obtain ⟨year, month, day⟩ := d
  obtain ⟨hyear, hyear', hmonth, hmonth', hday, hin⟩ := h
  dsimp only at hyear hyear' hmonth hmonth' hday hin
  rw [daysInMonth_eq] at hin
  rw [toOrdinal_eq]
  dsimp only
  by_cases hbefore : year ≤ 9998
  · have hdays : daysBefore year ≤ daysBefore 9998 := by
      have hlast : daysBefore 9998 = 3651329 := by decide
      rw [hlast]
      unfold daysBefore
      dsimp only
      omega
    have hyears := table_le (isLeap year) hmonth hmonth'
    have hleap : (isLeap year).toNat ≤ 1 := Bool.toNat_le _
    have hlast : daysBefore 9998 = 3651329 := by decide
    unfold maxOrdinal
    omega
  · obtain rfl : year = 9999 := by omega
    have hdays : daysBefore 9999 = 3651694 := by decide
    have hleap : isLeap 9999 = false := by decide
    rw [hleap] at hin ⊢
    rw [hdays]
    unfold maxOrdinal
    by_cases hdecember : month = 12
    · subst hdecember
      have hthirty : day ≠ 31 := fun heq => hlast (by rw [heq])
      have hbefore : tableBefore false 12 = 334 := rfl
      have hin' : tableIn false 12 = 31 := rfl
      omega
    · have hall : ∀ month < 12, tableBefore false month + tableIn false month ≤ 334 := by decide
      have hsum := hall month (by omega)
      omega

end Date

end PyAppRunner.Base
