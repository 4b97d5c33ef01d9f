import PyAppRunner.ApiKeys.Keys
import PyAppRunner.Base.IsoTime

/-! When a key expires: what is given on the command line, and what is made of it.

A bare date is a day of UTC through which the key works, so it expires at the midnight after it; anything
else is a timestamp. After the last day there is no midnight, and adding a day to it raises what is not
caught. -/
namespace PyAppRunner.ApiKeys.Expiry
open Base

/-- UTC, unless it has an offset. -/
def inUtc : Stamp → Aware
  | .naive t => t.utc
  | .aware t => t

/-- The moment has come. A stored time without an offset is taken for UTC. -/
def expired (expiresAt : Option Stamp) (now : Aware) : Bool :=
  match expiresAt with
  | none => false
  | some t => (inUtc t).instant ≤ now.instant

/-- `_DATE_RE`, of a text that does not end in a line break. -/
def dateRe (text : List Char) : Bool :=
  match text with
  | [y₁, y₂, y₃, y₄, '-', m₁, m₂, '-', d₁, d₂] => [y₁, y₂, y₃, y₄, m₁, m₂, d₁, d₂].all Text.isDecimal
  | _ => false

/-- What `parse_expires` raises. -/
inductive Raised where
  /-- A `UsageError`. -/
  | usage (message : List Char)
  /-- An `OverflowError`. -/
  | overflow

/-- `day + timedelta(days=1)`. -/
def dayAfter (d : Date) : Except Raised {d : Date // d.Valid} :=
  if h : d.toOrdinal + 1 ≤ Date.maxOrdinal then
    .ok ⟨Date.ofOrdinal (d.toOrdinal + 1), (Date.ofOrdinal_spec (Nat.succ_pos _) h).1⟩
  else .error .overflow

theorem dateRe_spec {text : List Char} (h : dateRe text = true) :
    text.length = 10 ∧ Iso.charAt text 4 = '-' ∧ Iso.charAt text 5 ≠ 'W' := by
  unfold dateRe at h
  split at h
  · next y₁ y₂ y₃ y₄ m₁ m₂ d₁ d₂ =>
    refine ⟨rfl, rfl, fun hweek : m₁ = 'W' => ?_⟩
    have hdigit : Text.isDecimal m₁ = true := List.all_eq_true.mp h m₁ (by simp)
    rw [hweek] at hdigit
    revert hdigit
    decide
  · cases h

theorem dateRe_of_length {text : List Char} (h : text.length ≠ 10) : dateRe text = false := by
  cases hdate : dateRe text with
  | false => rfl
  | true => exact absurd (dateRe_spec hdate).1 h

/-- Every day but the last has one after it. -/
theorem dayAfter_spec {d : Date} (h : d.Valid) (hlast : d ≠ ⟨9999, 12, 31⟩) :
    ∃ d', dayAfter d = .ok d' ∧ d'.1.toOrdinal = d.toOrdinal + 1 := by
  have hlt := Date.toOrdinal_lt h hlast
  exact ⟨_, dif_pos hlt, (Date.ofOrdinal_spec (Nat.succ_pos _) hlt).2⟩

theorem midnight_instant (d : Date) (h : d.Valid) :
    (Naive.midnight d h).utc.instant = d.toOrdinal * (microsecondsPerDay : Int) := by
  show (((d.toOrdinal * 86400 + 0 * 3600 + 0 * 60 + 0) * 1000000 + 0 : Nat) : Int) - 0 = _
  unfold microsecondsPerDay
  omega

/-- The check of a key's expiry is on instants. -/
theorem expired_eq (expiresAt : Option Stamp) (now : Aware) :
    expired expiresAt now = ApiKeys.expired (expiresAt.map fun t => (inUtc t).instant) now.instant := by
  cases expiresAt <;> rfl

section
variable (repr : List Char → List Char)

def malformed (raw : List Char) : Raised :=
  .usage ("--expires=".toList ++ repr raw ++ " must be YYYY-MM-DD or an ISO timestamp".toList)

def past (raw : List Char) : Raised := .usage ("--expires=".toList ++ repr raw ++ " is already in the past".toList)

/-- What the text says. -/
def valueOf (raw : List Char) : Except Raised Aware :=
  let text := Text.strip raw
  if dateRe text then
    match Iso.dateFromisoformat text with
    | none => .error (malformed repr raw)
    | some day => (dayAfter day).map fun d => (Naive.midnight d.1 d.2).utc
  else
    match Iso.fromisoformat text with
    | none => .error (malformed repr raw)
    | some t => .ok (inUtc t)

/-- `parse_expires`: the moment must lie ahead. -/
def parseExpires (raw : List Char) (now : Aware) : Except Raised Aware :=
  match valueOf repr raw with
  | .error e => .error e
  | .ok value => if value.instant ≤ now.instant then .error (past repr raw) else .ok value

/-- The instant at which a day of UTC ends. -/
def endOfDay (d : Date) : Int := (d.toOrdinal + 1 : Nat) * (microsecondsPerDay : Int)

/-- What a user is promised of `--expires`. -/
structure KeepsPromise (raw : List Char) (now : Aware) : Prop where
  /-- Nothing but a `UsageError` is raised, and no key is born expired. -/
  total : (∃ message, parseExpires repr raw now = .error (.usage message)) ∨
    ∃ t, parseExpires repr raw now = .ok t ∧ now.instant < t.instant
  /-- With a bare date the key works through that day, and no longer. -/
  day : ∀ t, dateRe (Text.strip raw) = true → parseExpires repr raw now = .ok t →
    ∃ d : Date, d.Valid ∧ Text.strip raw = d.text ∧
      ∀ moment, expired (some (.aware t)) moment = decide (endOfDay d ≤ moment.instant)
  /-- Anything else is a timestamp, of UTC if it has no offset. -/
  timestamp : ∀ t, dateRe (Text.strip raw) = false → parseExpires repr raw now = .ok t →
    ∃ s, Iso.fromisoformat (Text.strip raw) = some s ∧ t.instant = (inUtc s).instant
  /-- One with an offset denotes its instant. -/
  withOffset : ∀ t a : Aware, Text.strip raw = a.isoformat →
    parseExpires repr raw now = .ok t → t.instant = a.instant
  withoutOffset : ∀ (t : Aware) (c : Naive), Text.strip raw = c.isoformat →
    parseExpires repr raw now = .ok t → t.instant = c.reading

variable {repr} {raw : List Char} {now t : Aware}

theorem parseExpires_ok : parseExpires repr raw now = .ok t ↔ valueOf repr raw = .ok t ∧ now.instant < t.instant := by
  unfold parseExpires
  cases valueOf repr raw with
  | error e => simp
  | ok value =>
    dsimp only
    split
    · next hpast =>
      constructor
      · intro h
        cases h
      · rintro ⟨⟨rfl⟩, hnow⟩
        omega
    · next hfuture =>
      constructor
      · rintro ⟨rfl⟩
        exact ⟨rfl, by omega⟩
      · rintro ⟨h, -⟩
        exact h

/-- What is read as a bare date is one, and its value is the end of it. -/
theorem valueOf_date (hdate : dateRe (Text.strip raw) = true) (h : valueOf repr raw = .ok t) :
    ∃ d : Date, d.Valid ∧ Text.strip raw = d.text ∧ t.instant = endOfDay d := by
  obtain ⟨hlength, hdash, hweek⟩ := dateRe_spec hdate
  unfold valueOf at h
  dsimp only at h
  rw [if_pos hdate] at h
  cases hday : Iso.dateFromisoformat (Text.strip raw) with
  | none =>
    rw [hday] at h
    cases h
  | some d =>
    obtain ⟨hvalid, htext⟩ := Iso.text_of_dateFromisoformat hday hlength hdash hweek
    rw [hday] at h
    dsimp only at h
    unfold dayAfter at h
    split at h
    · next hlt =>
      cases h
      refine ⟨d, hvalid, htext, ?_⟩
      rw [midnight_instant, (Date.ofOrdinal_spec (Nat.succ_pos _) hlt).2]
      rfl
    · cases h

theorem valueOf_timestamp (hdate : dateRe (Text.strip raw) = false) (h : valueOf repr raw = .ok t) :
    ∃ s, Iso.fromisoformat (Text.strip raw) = some s ∧ t = inUtc s := by
  unfold valueOf at h
  dsimp only at h
  rw [if_neg (Bool.eq_false_iff.mp hdate)] at h
  cases hread : Iso.fromisoformat (Text.strip raw) with
  | none =>
    rw [hread] at h
    cases h
  | some s =>
    rw [hread] at h
    cases h
    exact ⟨s, rfl, rfl⟩

/-- Only the last day raises something else than a `UsageError`. -/
theorem valueOf_total (repr : List Char → List Char) (hlast : Text.strip raw ≠ "9999-12-31".toList) :
    valueOf repr raw = .error (malformed repr raw) ∨ ∃ t, valueOf repr raw = .ok t := by
  unfold valueOf
  dsimp only
  split
  · next hdate =>
    obtain ⟨hlength, hdash, hweek⟩ := dateRe_spec hdate
    cases hday : Iso.dateFromisoformat (Text.strip raw) with
    | none => exact .inl rfl
    | some d =>
      obtain ⟨hvalid, htext⟩ := Iso.text_of_dateFromisoformat hday hlength hdash hweek
      have hbefore : d ≠ ⟨9999, 12, 31⟩ := by
        rintro rfl
        exact hlast htext
      obtain ⟨d', hafter, -⟩ := dayAfter_spec hvalid hbefore
      refine .inr ⟨(Naive.midnight d'.1 d'.2).utc, ?_⟩
      dsimp only
      rw [hafter]
      rfl
  · cases Iso.fromisoformat (Text.strip raw) with
    | none => exact .inl rfl
    | some s => exact .inr ⟨_, rfl⟩

theorem valueOf_last (hlast : Text.strip raw = "9999-12-31".toList) : valueOf repr raw = .error .overflow := by
  have hdate : dateRe "9999-12-31".toList = true := by decide
  have htext : (Date.mk 9999 12 31).text = "9999-12-31".toList := by decide
  have hday : Iso.dateFromisoformat "9999-12-31".toList = some ⟨9999, 12, 31⟩ := by
    rw [← htext]
    exact Iso.dateFromisoformat_text (by decide)
  have hafter : dayAfter ⟨9999, 12, 31⟩ = .error .overflow := dif_neg (by decide)
  unfold valueOf
  dsimp only
  rw [hlast, if_pos hdate, hday]
  dsimp only
  rw [hafter]
  rfl

/-- A text of a date and a time is not taken for a bare date. -/
theorem valueOf_isoformat {c : Naive} {zone : List Char} {s : Stamp} (htext : Text.strip raw = c.isoformat ++ zone)
    (hread : Iso.fromisoformat (c.isoformat ++ zone) = some s) : valueOf repr raw = .ok (inUtc s) := by
  have hlength := Iso.length_isoformat c zone
  unfold valueOf
  dsimp only
  rw [htext, if_neg (Bool.eq_false_iff.mp (dateRe_of_length (by omega))), hread]

theorem valueOf_aware (repr : List Char → List Char) {a : Aware} (htext : Text.strip raw = a.isoformat) :
    ∃ r, valueOf repr raw = .ok r ∧ r.instant = a.clock.reading - Iso.readOffset a.offset := by
  obtain ⟨r, hread, hclock, hoffset⟩ := Iso.fromisoformat_aware a
  refine ⟨r, valueOf_isoformat htext hread, ?_⟩
  rw [Aware.instant, hclock, hoffset]

theorem parseExpires_last (hlast : Text.strip raw = "9999-12-31".toList) : parseExpires repr raw now = .error .overflow := by
  unfold parseExpires
  rw [valueOf_last hlast]

theorem parseExpires_total (repr : List Char → List Char) (now : Aware) (hlast : Text.strip raw ≠ "9999-12-31".toList) :
    (∃ message, parseExpires repr raw now = .error (.usage message)) ∨
      ∃ t, parseExpires repr raw now = .ok t ∧ now.instant < t.instant := by
  obtain hvalue | ⟨t, hvalue⟩ := valueOf_total repr hlast
  · have hraised : parseExpires repr raw now = .error (malformed repr raw) := by
      unfold parseExpires
      rw [hvalue]
    exact .inl ⟨_, hraised⟩
  · by_cases hnow : now.instant < t.instant
    · exact .inr ⟨t, parseExpires_ok.mpr ⟨hvalue, hnow⟩, hnow⟩
    · have hraised : parseExpires repr raw now = .error (past repr raw) := by
        unfold parseExpires
        rw [hvalue]
        exact if_pos (by omega)
      exact .inl ⟨_, hraised⟩

/-- The instant is that of the text exactly if the offset is one that is read. -/
theorem instant_eq_iff {a : Aware} (htext : Text.strip raw = a.isoformat) (h : valueOf repr raw = .ok t) :
    t.instant = a.instant ↔ a.offset = 0 ∨ 1000000 ≤ a.offset.natAbs := by
  obtain ⟨r, hvalue, hinstant⟩ := valueOf_aware repr htext
  rw [h] at hvalue
  cases hvalue
  rw [← Iso.readOffset_eq_iff, hinstant, Aware.instant]
  omega

/-- An offset that is not read leaves the time of UTC. -/
theorem instant_of_small {a : Aware} (htext : Text.strip raw = a.isoformat) (h : valueOf repr raw = .ok t)
    (hsmall : ¬ (a.offset = 0 ∨ 1000000 ≤ a.offset.natAbs)) : t.instant = a.clock.reading := by
  obtain ⟨r, hvalue, hinstant⟩ := valueOf_aware repr htext
  rw [h] at hvalue
  cases hvalue
  have hread : Iso.readOffset a.offset = 0 := if_pos (by omega)
  rw [hinstant, hread, Int.sub_zero]

variable (repr raw now)

/-- **An expiry keeps its promise** except on the last day there is, and for an offset of less than a
second: the time is read as that of UTC. A fraction of an hour or of a minute means what `fromisoformat`
reads, though its documentation does not support one. -/
theorem keepsPromise_iff : KeepsPromise repr raw now ↔ Text.strip raw ≠ "9999-12-31".toList ∧
    ∀ a : Aware, Text.strip raw = a.isoformat → now.instant < a.clock.reading →
      a.offset = 0 ∨ 1000000 ≤ a.offset.natAbs := by
  constructor
  · intro h
    constructor
    · intro hlast
      have hraised : parseExpires repr raw now = .error .overflow := parseExpires_last hlast
      obtain ⟨message, htotal⟩ | ⟨t, htotal, -⟩ := h.total <;> rw [hraised] at htotal <;> cases htotal
    · intro a htext hnow
      by_contra hsmall
      obtain ⟨r, hvalue, -⟩ := valueOf_aware repr htext
      have hclock := instant_of_small htext hvalue hsmall
      have hmeant := h.withOffset r a htext (parseExpires_ok.mpr ⟨hvalue, by omega⟩)
      exact hsmall ((instant_eq_iff htext hvalue).mp hmeant)
  · rintro ⟨hlast, hoffsets⟩
    constructor
    case total => exact parseExpires_total repr now hlast
    case day =>
      intro t hdate h
      obtain ⟨d, hvalid, htext, hinstant⟩ := valueOf_date hdate (parseExpires_ok.mp h).1
      refine ⟨d, hvalid, htext, fun moment => ?_⟩
      rw [← hinstant]
      rfl
    case timestamp =>
      intro t hdate h
      obtain ⟨s, hread, rfl⟩ := valueOf_timestamp hdate (parseExpires_ok.mp h).1
      exact ⟨s, hread, rfl⟩
    case withOffset =>
      intro t a htext h
      obtain ⟨hvalue, hnow⟩ := parseExpires_ok.mp h
      rw [instant_eq_iff htext hvalue]
      by_contra hsmall
      rw [instant_of_small htext hvalue hsmall] at hnow
      exact hsmall (hoffsets a htext hnow)
    case withoutOffset =>
      intro t c htext h
      rw [← List.append_nil c.isoformat] at htext
      have hread := Iso.fromisoformat_naive c
      rw [← List.append_nil c.isoformat] at hread
      have hvalue := (parseExpires_ok.mp h).1
      rw [valueOf_isoformat htext hread] at hvalue
      cases hvalue
      exact Int.sub_zero _

end

/-- No `UsageError` is raised for the last day, whatever the time is. -/
theorem last_day_not_caught : ¬ ∀ (repr : List Char → List Char) (raw : List Char) (now : Aware),
    KeepsPromise repr raw now := by
  intro h
  let newYear : Aware := (Naive.midnight ⟨2026, 1, 1⟩ (by decide)).utc
  have hlast : Text.strip "9999-12-31".toList = "9999-12-31".toList := by decide
  have hraised : parseExpires id "9999-12-31".toList newYear = .error .overflow := parseExpires_last hlast
  obtain ⟨message, htotal⟩ | ⟨t, htotal, -⟩ := (h id "9999-12-31".toList newYear).total <;>
    rw [hraised] at htotal <;> cases htotal

end PyAppRunner.ApiKeys.Expiry
