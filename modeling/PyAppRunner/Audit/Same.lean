import PyAppRunner.Audit.Completeness
import PyAppRunner.Base.DateTime
import PyAppRunner.Base.Decimal

/-! `diff.same`: whether two values are the same stored content.

The values come from different places, so each pair is compared in the type that one side
of it suggests: as booleans, as dates, as JSON, as decimals, and as texts only when nothing
else applies. Two texts that both read as decimals are compared as decimals too. -/
namespace PyAppRunner.Audit
open Base Sql

/-- What `str(x)` gives of a `float`, which `Decimal` always reads. -/
structure FloatText where
  text : String
  reads : (Decimal.ofText text).isSome = true

/-- A value other than `None`. Dicts, lists, tuples and sets are `J`. -/
inductive Value (J : Type) where
  | bool (b : Bool)
  | int (n : Int)
  | float (x : FloatText)
  | decimal (d : Decimal)
  | str (s : String)
  | date (d : Date)
  | datetime (t : DateTime)
  | json (j : J)

/-- What a comparison lets through. -/
inductive Raised where
  | invalidOperation
  | tooManyDigits
  | recursion
deriving DecidableEq

/-- What the comparison uses of the standard library: `str.lower`, `str` of the values that
have a text of their own, the `fromisoformat`s, and `json.dumps`. Of what `json.dumps`
raises, `TypeError` and `ValueError` (`none`) are caught. -/
structure Library (J : Type) where
  lower : String → String
  strDecimal : Decimal → String
  strDate : Date → String
  strDateTime : DateTime → String
  strJson : J → Except Raised String
  dateFromIso : String → Option Date
  datetimeFromIso : String → Option DateTime
  dumps : Value J → Except Raised (Option String)

/-- More digits than this are not converted to a text. -/
def maxStrDigits : Nat := 4300

/-- `int` to `str` raises from this length on. -/
def longInt (n : Int) : Bool := maxStrDigits < Decimal.numDigits n.natAbs

/-- `datetime.__eq__`: aware ones by the instant. -/
def sameMoment (t u : DateTime) : Bool :=
  let seconds := fun (t : DateTime) =>
    (t.date.toOrdinal * 86400 + t.hour * 3600 + t.minute * 60 + t.second : Int) - t.offset.getD 0
  t.offset.isSome == u.offset.isSome && seconds t == seconds u && t.microsecond == u.microsecond

section
variable {J : Type} (lib : Library J)

namespace Value

def isBool : Value J → Bool
  | .bool _ => true
  | _ => false

/-- A date or a datetime. -/
def isMoment : Value J → Bool
  | .date _ => true
  | .datetime _ => true
  | _ => false

def isPlainDate : Value J → Bool
  | .date _ => true
  | _ => false

def isJson : Value J → Bool
  | .json _ => true
  | _ => false

end Value

/-- `str(value)`. -/
def str : Value J → Except Raised String
  | .bool b => .ok (if b then "True" else "False")
  | .int n => if longInt n then .error .tooManyDigits else .ok (toString n)
  | .float x => .ok x.text
  | .decimal d => .ok (lib.strDecimal d)
  | .str s => .ok s
  | .date d => .ok (lib.strDate d)
  | .datetime t => .ok (lib.strDateTime t)
  | .json j => lib.strJson j

/-- What is read as true. -/
def trueWords : List String := ["1", "t", "true", "y", "yes", "on"]

/-- What is read as false. -/
def falseWords : List String := ["0", "f", "false", "n", "no", "off", ""]

/-- `_boolish`, of a text. -/
def boolishText (text : String) : String :=
  let word := lib.lower (String.ofList (Text.strip text.toList))
  if word ∈ trueWords then "1" else if word ∈ falseWords then "0" else word

/-- `_boolish`. -/
def boolish : Value J → Except Raised String
  | .bool b => .ok (if b then "1" else "0")
  | .int n => if n = 1 then .ok "1" else if n = 0 then .ok "0" else str lib (.int n)
  | v => (str lib v).map (boolishText lib)

/-- `_as_decimal`. -/
def asDecimal : Value J → Except Raised (Option Decimal)
  | .int n => if longInt n then .error .tooManyDigits else .ok (some (Decimal.ofInt n))
  | .float x => .ok (Decimal.ofText x.text)
  | .decimal d => .ok (some d)
  | .str s => .ok (Decimal.ofText s)
  | _ => .ok none

/-- `_as_datetime`. -/
def asDateTime (asDate : Bool) : Value J → Option (Date ⊕ DateTime)
  | .datetime t => some (if asDate then .inl t.date else .inr t)
  | .date d => some (.inl d)
  | .str s => if asDate then (lib.dateFromIso s).map .inl else (lib.datetimeFromIso s).map .inr
  | _ => none

/-- `_json`. -/
def jsonText (v : Value J) : Except Raised String :=
  match lib.dumps v with
  | .error e => .error e
  | .ok (some text) => .ok text
  | .ok none => str lib v

/-- `f(a) == f(b)`. -/
def alike (f : Value J → Except Raised String) (a b : Value J) : Except Raised Bool :=
  match f a with
  | .error e => .error e
  | .ok left =>
    match f b with
    | .error e => .error e
    | .ok right => .ok (left == right)

/-- The branch of the dates. -/
def sameDates (a b : Value J) : Except Raised Bool :=
  let asDate := a.isPlainDate || b.isPlainDate
  match asDateTime lib asDate a, asDateTime lib asDate b with
  | some (.inr t), some (.inr u) => if t.offset.isSome ≠ u.offset.isSome then alike (str lib) a b else .ok (sameMoment t u)
  | some (.inl d), some (.inl e) => .ok (d = e)
  | some _, some _ => .ok false
  | _, _ => alike (str lib) a b

/-- The branch of the numbers, and of everything else. -/
def sameNumbers (a b : Value J) : Except Raised Bool :=
  match asDecimal a with
  | .error e => .error e
  | .ok left =>
    match asDecimal b with
    | .error e => .error e
    | .ok right =>
      match left, right with
      | some l, some r =>
        match l.equals r with
        | none => .error .invalidOperation
        | some eq => .ok eq
      | _, _ => alike (str lib) a b

/-- `same` of two values other than `None`. -/
def sameValue (a b : Value J) : Except Raised Bool :=
  if a.isBool || b.isBool then alike (boolish lib) a b
  else if a.isMoment || b.isMoment then sameDates lib a b
  else if a.isJson || b.isJson then alike (jsonText lib) a b
  else sameNumbers lib a b

/-- `same`: two values, either of which may be absent. -/
def same : Option (Value J) → Option (Value J) → Except Raised Bool
  | some a, some b => sameValue lib a b
  | a, b => .ok (a.isNone && b.isNone)

/-! ### A value and itself -/

/-- Where a value is read as a NaN, is too long to be read, or has no text, it is not the same
as itself. -/
def SelfSame : Option (Value J) → Prop
  | some (.int n) => longInt n = false
  | some (.float x) => ∀ d, Decimal.ofText x.text = some d → d.isNan = false
  | some (.decimal d) => d.isNan = false
  | some (.str s) => ∀ d, Decimal.ofText s = some d → d.isNan = false
  | some (.json j) => ∃ text, jsonText lib (.json j) = .ok text
  | _ => True

theorem alike_self {f : Value J → Except Raised String} {v : Value J} :
    alike f v v = .ok true ↔ ∃ text, f v = .ok text := by
  unfold alike
  cases f v <;> simp

theorem sameMoment_self (t : DateTime) : sameMoment t t = true := by simp [sameMoment]

/-- As numbers, a value that has a text. -/
theorem sameNumbers_self (v : Value J) (hstr : ∃ text, str lib v = .ok text) {d : Option Decimal}
    (hd : asDecimal v = .ok d) :
    sameNumbers lib v v = .ok true ↔ ∀ x, d = some x → x.isNan = false := by
  unfold sameNumbers
  rw [hd]
  cases d with
  | none => simpa using alike_self.2 hstr
  | some x =>
    simp only [Decimal.equals_self]
    cases x with
    | finite s c e => simp [Decimal.isSnan, Decimal.isNan]
    | infinity s => simp [Decimal.isSnan, Decimal.isNan]
    | nan signaling s p => cases signaling <;> simp [Decimal.isSnan, Decimal.isNan]

variable {lib}

/-- A comparison of a value with itself returns `True` exactly when the value is read as no NaN
and has a text where one is needed. -/
theorem same_self_iff (v : Option (Value J)) : same lib v v = .ok true ↔ SelfSame lib v := by
  rcases v with _ | v
  · simp [same, SelfSame]
  · cases v with
    | bool b =>
      simp only [same, sameValue, Value.isBool, Bool.or_self, if_true, SelfSame, iff_true]
      exact alike_self.2 ⟨_, rfl⟩
    | int n =>
      simp only [same, sameValue, Value.isBool, Value.isMoment, Value.isJson, Bool.or_self, Bool.false_eq_true, if_false,
        SelfSame]
      cases hlong : longInt n with
      | true => simp [sameNumbers, asDecimal, hlong]
      | false =>
        have htext : str lib (.int n) = .ok (toString n) := by simp [str, hlong]
        have hnumber : asDecimal (.int n : Value J) = .ok (some (Decimal.ofInt n)) := by simp [asDecimal, hlong]
        rw [sameNumbers_self lib (.int n) ⟨_, htext⟩ hnumber]
        simp [Decimal.ofInt, Decimal.isNan]
    | float x => exact sameNumbers_self lib (.float x) ⟨_, rfl⟩ rfl
    | decimal d =>
      refine (sameNumbers_self lib (.decimal d) ⟨_, rfl⟩ rfl).trans ?_
      simp [SelfSame]
    | str s => exact sameNumbers_self lib (.str s) ⟨_, rfl⟩ rfl
    | date d => simp [same, sameValue, Value.isBool, Value.isMoment, sameDates, asDateTime, SelfSame]
    | datetime t =>
      simp [same, sameValue, Value.isBool, Value.isMoment, Value.isPlainDate, sameDates, asDateTime, SelfSame,
        sameMoment_self]
    | json j => exact alike_self

/-! ### Two texts -/

/-- Two texts that are read as equal decimals, or as decimals that cannot be compared. -/
def ReadAlike (a b : String) : Prop :=
  ∃ d e, Decimal.ofText a = some d ∧ Decimal.ofText b = some e ∧ d.equals e ≠ some false

theorem same_texts_iff {a b : String} (hne : a ≠ b) :
    same lib (some (.str a)) (some (.str b)) = .ok false ↔ ¬ ReadAlike a b := by
  have htexts : alike (str lib) (.str a) (.str b) = .ok false := by simp [alike, str, hne]
  simp only [same, sameValue, Value.isBool, Value.isMoment, Value.isJson, Bool.or_self, Bool.false_eq_true, if_false,
    sameNumbers, asDecimal]
  unfold ReadAlike
  cases ha : Decimal.ofText a with
  | none => simp [htexts]
  | some d =>
    cases hb : Decimal.ofText b with
    | none => simp [htexts]
    | some e =>
      have hboth : (∃ d' e', some d = some d' ∧ some e = some e' ∧ d'.equals e' ≠ some false) ↔
          d.equals e ≠ some false := by simp
      rw [hboth, not_not]
      cases heq : d.equals e <;> simp [heq]

/-! ### `between`, with what it raises -/

variable (lib) in
/-- The loop: the columns that differ, up to a comparison that raises. -/
def differingOrRaise (before : Dict (Value J)) : Dict (Value J) → Except Raised (Dict (Value J))
  | [] => .ok []
  | kv :: rest =>
    match same lib (before.get kv.1) kv.2 with
    | .error e => .error e
    | .ok true => differingOrRaise before rest
    | .ok false =>
      match differingOrRaise before rest with
      | .error e => .error e
      | .ok changed => .ok (kv :: changed)

variable (lib) in
/-- Every comparison of the update returns. -/
def Returns (before after : Dict (Value J)) : Prop := ∀ kv ∈ after, ∃ b, same lib (before.get kv.1) kv.2 = .ok b

variable (lib) in
/-- The values as `between` sees them where the comparisons return. -/
def values : Values (Value J) where
  same a b := match same lib a b with
    | .ok b => b
    | .error _ => false
  str v := match str lib v with
    | .ok text => text
    | .error _ => ""
  redacted := .str "***"
  lower := lib.lower

variable (lib) in
/-- `between` of a row and an update. -/
def updateBetween (before after : Dict (Value J)) : Except Raised (Option (Dict (Value J)) × Option (Dict (Value J))) :=
  match differingOrRaise lib before after with
  | .error e => .error e
  | .ok changed =>
    if changed.isEmpty then .ok (none, none)
    else .ok (some (changed.map fun kv => (kv.1, before.get kv.1)), some changed)

/-- The loop returns exactly when every comparison does, with the columns that differ. -/
theorem differingOrRaise_eq_ok {before after changed : Dict (Value J)} :
    differingOrRaise lib before after = .ok changed ↔
      Returns lib before after ∧ changed = differing (values lib) before after := by
  induction after generalizing changed with
  | nil =>
    rw [differingOrRaise]
    constructor
    · intro h
      exact ⟨fun kv hkv => (List.not_mem_nil hkv).elim, (Except.ok.inj h).symm⟩
    · rintro ⟨-, rfl⟩
      rfl
  | cons kv rest ih =>
    rw [differingOrRaise, Returns, List.forall_mem_cons, differing]
    cases hsame : same lib (before.get kv.1) kv.2 with
    | error e => simp
    | ok b =>
      have hvalue : (values lib).same (before.get kv.1) kv.2 = b := by simp [values, hsame]
      cases b with
      | true =>
        rw [List.filter_cons_of_neg (by simp [hvalue])]
        simp only [Except.ok.injEq, exists_eq', true_and]
        exact ih
      | false =>
        rw [List.filter_cons_of_pos (by simp [hvalue])]
        simp only [Except.ok.injEq, exists_eq', true_and]
        constructor
        · intro h
          cases hrest : differingOrRaise lib before rest with
          | error e =>
            rw [hrest] at h
            cases h
          | ok later =>
            rw [hrest] at h
            obtain ⟨hreturns, rfl⟩ := ih.1 hrest
            exact ⟨hreturns, (Except.ok.inj h).symm⟩
        · rintro ⟨hreturns, rfl⟩
          rw [ih.2 ⟨hreturns, rfl⟩]
          rfl

/-- Where every comparison returns, this is `between`. -/
theorem updateBetween_eq {before after : Dict (Value J)} (h : Returns lib before after) :
    updateBetween lib before after = .ok (between (values lib) (some before) (some after) []) := by
  rw [updateBetween, differingOrRaise_eq_ok.2 ⟨h, rfl⟩]
  obtain ⟨hnone, hsome⟩ := between_update (values lib) before after
  by_cases hempty : differing (values lib) before after = []
  · rw [hnone hempty]
    simp [hempty]
  · rw [hsome hempty]
    simp [hempty, replaced]

/-- Nothing is shown exactly when every value of the update is the same as the row's. -/
theorem updateBetween_eq_none {before after : Dict (Value J)} :
    updateBetween lib before after = .ok (none, none) ↔ ∀ kv ∈ after, same lib (before.get kv.1) kv.2 = .ok true := by
  constructor
  · intro h
    unfold updateBetween at h
    cases hloop : differingOrRaise lib before after with
    | error e =>
      rw [hloop] at h
      cases h
    | ok changed =>
      obtain ⟨hreturns, rfl⟩ := differingOrRaise_eq_ok.1 hloop
      rw [hloop] at h
      simp only at h
      split_ifs at h with hempty
      · intro kv hkv
        obtain ⟨b, hb⟩ := hreturns kv hkv
        rw [List.isEmpty_iff, differing, List.filter_eq_nil_iff] at hempty
        have hsame := hempty kv hkv
        simp only [values, hb, Bool.not_eq_true, Bool.not_eq_false'] at hsame
        rw [hb, hsame]
      · cases h
  · intro h
    have hreturns : Returns lib before after := fun kv hkv => ⟨true, h kv hkv⟩
    rw [updateBetween_eq hreturns, (between_update (values lib) before after).1]
    rw [differing, List.filter_eq_nil_iff]
    intro kv hkv
    simp [values, h kv hkv]

/-- **When an update that changes nothing shows nothing.** A value is the same as itself
exactly when it is not read as a NaN and has a text; and an update with a row's own values
comes to `(None, None)` exactly when all of them are. -/
theorem unchanged_not_shown_iff (lib : Library J) :
    (∀ v, same lib v v = .ok true ↔ SelfSame lib v) ∧
    ∀ row data : Dict (Value J), (∀ kv ∈ data, row.get kv.1 = kv.2) →
      (updateBetween lib row data = .ok (none, none) ↔ ∀ kv ∈ data, SelfSame lib kv.2) := by
  refine ⟨same_self_iff, ?_⟩
  intro row data hown
  rw [updateBetween_eq_none]
  constructor
  · intro h kv hkv
    rw [← same_self_iff, ← hown kv hkv]
    have := h kv hkv
    rwa [← hown kv hkv] at this
  · intro h kv hkv
    rw [hown kv hkv]
    exact (same_self_iff _).2 (h kv hkv)

/-! ### A changed text -/

theorem mem_of_lookup {d : Dict (Value J)} {key : String} {v : Option (Value J)} (h : d.lookup key = some v) :
    (key, v) ∈ d := by
  obtain ⟨before, after, heq, -⟩ := List.lookup_eq_some_iff.1 h
  simp [heq]

variable (lib) in
theorem mem_differing {row data : Dict (Value J)} {key : String} {a b : String} (hne : a ≠ b)
    (hrow : row.get key = some (.str a)) (hdata : data.lookup key = some (some (.str b))) (h : ¬ ReadAlike a b) :
    (key, some (.str b)) ∈ differing (values lib) row data := by
  have hsame : same lib (some (.str a)) (some (.str b)) = .ok false := (same_texts_iff hne).2 h
  apply List.mem_filter.2 ⟨mem_of_lookup hdata, _⟩
  simp [values, hrow, hsame]

/-- The column is shown with its old and its new value. -/
def Shows (key : String) (old new : Option (Value J))
    (shown : Except Raised (Option (Dict (Value J)) × Option (Dict (Value J)))) : Prop :=
  ∃ before after, shown = .ok (some before, some after) ∧ (key, old) ∈ before ∧ (key, new) ∈ after

theorem shows_iff {row data : Dict (Value J)} {key : String} {a b : String} (hne : a ≠ b)
    (hrow : row.get key = some (.str a)) (hdata : data.lookup key = some (some (.str b))) :
    Shows key (some (.str a)) (some (.str b)) (updateBetween lib row data) ↔ Returns lib row data ∧ ¬ ReadAlike a b := by
  have hmem := mem_of_lookup hdata
  constructor
  · rintro ⟨before, after, hshown, -, hafter⟩
    unfold updateBetween at hshown
    cases hloop : differingOrRaise lib row data with
    | error e =>
      rw [hloop] at hshown
      cases hshown
    | ok changed =>
      obtain ⟨hreturns, rfl⟩ := differingOrRaise_eq_ok.1 hloop
      rw [hloop] at hshown
      simp only at hshown
      split_ifs at hshown
      · cases hshown
      · cases hshown
        refine ⟨hreturns, ?_⟩
        obtain ⟨c, hc⟩ := hreturns _ hmem
        have hdiffers := (List.mem_filter.1 hafter).2
        simp only [values, hc, Bool.not_eq_true'] at hdiffers
        rw [hrow, hdiffers] at hc
        exact (same_texts_iff hne).1 hc
  · rintro ⟨hreturns, halike⟩
    have hdiffers := mem_differing lib hne hrow hdata halike
    have hne' : differing (values lib) row data ≠ [] := List.ne_nil_of_mem hdiffers
    rw [Shows, updateBetween_eq hreturns, (between_update (values lib) row data).2 hne']
    refine ⟨_, _, rfl, ?_, hdiffers⟩
    rw [replaced, ← hrow]
    exact List.mem_map.2 ⟨_, hdiffers, rfl⟩

end

/-- **When a changed text is seen.** Two different texts are different to `same` exactly when
they are not both read as decimals that are equal or cannot be compared. Then, if the other
comparisons return too, `between` shows the column, and an update that returns without a
warning has recorded an event for the row; the calls are those of the model, in which a
comparison does not raise, so all of them have to return. -/
theorem text_change_seen_iff {J κ : Type} [DecidableEq κ] (lib : Library J) (columns : Columns (Value J))
    (audit : Settings) (c : κ) (env : Env κ (Value J)) (req : Request (Value J)) (data cond : Dict (Value J))
    (t : Table κ (Dict (Value J))) (a b : String) (hne : a ≠ b) :
    (same lib (some (.str a)) (some (.str b)) = .ok false ↔ ¬ ReadAlike a b) ∧
    ∀ key, data.lookup key = some (some (.str b)) →
      (∀ row : Dict (Value J), row.get key = some (.str a) →
        (Shows key (some (.str a)) (some (.str b)) (updateBetween lib row data) ↔
          Returns lib row data ∧ ¬ ReadAlike a b)) ∧
      ∀ s affected, update (values lib) columns audit c env req data cond (.start t) = (s, .ok affected) →
        s.warnings = [] → (∀ r ∈ readRows columns c env cond t, Returns lib r.2 data) →
        ∀ i row, (i, row) ∈ readRows columns c env cond t → row.get key = some (.str a) → ¬ ReadAlike a b →
          ∃ e, (i, e) ∈ s.log ∧ e.event = AuditEvent.updated := by
  refine ⟨same_texts_iff hne, ?_⟩
  intro key hdata
  refine ⟨fun row hrow => shows_iff hne hrow hdata, ?_⟩
  intro s affected hreturned hclean _ i row hread hrow halike
  obtain ⟨hlog, -⟩ := (triple_update (values lib) columns audit c env t req data cond _ rfl).1 s affected hreturned hclean
  have hdiffers := List.ne_nil_of_mem (mem_differing lib hne hrow hdata halike)
  have hevent : updatedEvent (values lib) audit req data row =
      some (eventFor (values lib) audit req AuditEvent.updated row (between (values lib) (some row) (some data) [])) := by
    simp [updatedEvent, (between_update (values lib) row data).2 hdiffers]
  refine ⟨(redacted (values lib) audit (eventFor (values lib) audit req AuditEvent.updated row
    (between (values lib) (some row) (some data) []))).withResolved env.context, ?_, rfl⟩
  rw [hlog, List.mem_filterMap]
  refine ⟨(i, row), hread, ?_⟩
  rw [logged, hevent]
  rfl

/-! ### Numbers in texts -/

/-- No structures; the texts below need nothing of the library. -/
def bareLibrary : Library Empty where
  lower s := String.ofList (s.toList.map Char.toLower)
  strDecimal _ := ""
  strDate d := String.ofList d.text
  strDateTime t := String.ofList t.text
  strJson j := nomatch j
  dateFromIso _ := none
  datetimeFromIso _ := none
  dumps _ := .ok none

/-- Columns that keep what they are given and compare it as the audit does. -/
def plainColumns : Columns (Value Empty) := ⟨["id", "phone"], fun _ a b => a.isSome && (values bareLibrary).same a b, fun _ v => v⟩

/-- A person with a phone number. -/
def phoneRow (phone : String) : Dict (Value Empty) := [("id", some (.int 1)), ("phone", some (.str phone))]

/-- One row, committed by session 1. -/
def phones (phone : String) : Table Nat (Dict (Value Empty)) := ((Table.empty.insert 1 (phoneRow phone)).2).commit 1

def undisturbed : Env Nat (Value Empty) := ⟨[], [], [], fun _ => none, ⟨"", "", "", "", "", "", ""⟩⟩

/-- Session 0 writes a phone number. -/
def dial (old new : String) : State Nat (Value Empty) × Except Fault Nat :=
  update (values bareLibrary) plainColumns defaults 0 undisturbed ⟨"people", "hr", [], none⟩
    [("phone", some (.str new))] [("id", some (.int 1))] (.start (phones old))

theorem new_phone_seen :
    ("home" ≠ "work") ∧ same bareLibrary (some (.str "home")) (some (.str "work")) = .ok false ∧
      ∃ e, (1, e) ∈ (dial "home" "work").1.log ∧ e.event = AuditEvent.updated := by
  have halike : ¬ ReadAlike "home" "work" := by
    rintro ⟨d, e, hd, -, -⟩
    have hnone : Decimal.ofText "home" = none := by decide +kernel
    rw [hnone] at hd
    cases hd
  have hread : readRows plainColumns 0 undisturbed [("id", some (.int 1))] (phones "home") = [(1, phoneRow "home")] := by
    rfl
  have hreturns : ∀ r ∈ readRows plainColumns 0 undisturbed [("id", some (.int 1))] (phones "home"),
      Returns bareLibrary r.2 [("phone", some (.str "work"))] := by
    rw [hread]
    simp only [List.mem_singleton, forall_eq]
    intro kv hkv
    obtain rfl := List.mem_singleton.1 hkv
    exact ⟨false, (same_texts_iff (by decide)).2 halike⟩
  obtain ⟨hsame, hkey⟩ := text_change_seen_iff bareLibrary plainColumns defaults 0 undisturbed ⟨"people", "hr", [], none⟩
    [("phone", some (.str "work"))] [("id", some (.int 1))] (phones "home") "home" "work" (by decide)
  refine ⟨by decide, hsame.2 halike, ?_⟩
  exact (hkey "phone" rfl).2 _ 1 (by rfl) (by decide +kernel) hreturns 1 (phoneRow "home")
    (by rw [hread]; exact List.mem_singleton_self _) rfl halike

/-- `1.0` for `1`: no event. -/
theorem trailing_zero_unseen :
    same bareLibrary (some (.str "1")) (some (.str "1.0")) = .ok true ∧
      (dial "1" "1.0").2 = .ok 1 ∧ (dial "1" "1.0").1.warnings = [] ∧ (dial "1" "1.0").1.log.length = 0 := by
  decide +kernel

/-- A text that is read as a NaN is not the same as itself, and one that is read as a signaling
NaN cannot be compared. -/
theorem nan_text_shown :
    same bareLibrary (some (.str "nan")) (some (.str "nan")) = .ok false ∧
      same bareLibrary (some (.str "sNaN")) (some (.str "sNaN")) = .error .invalidOperation := by
  decide +kernel

end PyAppRunner.Audit
