import PyAppRunner.Base.DateTime
import Mathlib.Data.Option.Basic

/-! The two encoders of WebSocket frames, and when they say the same.

Both encoders have the same table of conversions (`convert`), and each hands it to its
library for the values the library has no encoding for. The JSON library has one for
datetimes, dates and decimals, so for these it never asks the table; the msgpack library
asks, and takes an answer once. What arrives is therefore the same only for
values on which the table and the JSON library's own encodings agree. -/
namespace PyAppRunner.Bridge.Encoders
open Base

/-- The values that neither library's plain encoding covers. Of objects of further types each
library has its own choice that it encodes without asking: those are in no message here. -/
inductive Foreign (D : Type) where
  | decimal (d : D)
  | datetime (t : DateTime)
  | date (d : Date)

/-- A message value. An Enum is its member's value. -/
inductive Value (D F : Type) where
  | null
  | bool (b : Bool)
  | int (n : Int)
  | float (f : F)
  | str (s : String)
  | list (items : List (Value D F))
  | dict (entries : List (String × Value D F))
  | enum (value : Value D F)
  | foreign (x : Foreign D)

/-- What a frame can carry. -/
inductive Plain (F : Type) where
  | null
  | bool (b : Bool)
  | int (n : Int)
  | float (f : F)
  | str (s : String)
  | list (items : List (Plain F))
  | dict (entries : List (String × Plain F))

/-- What the values bring with them: whether a float is finite, `float` of a decimal (which
may raise), `str` of a decimal, and the JSON library's text for an offset from UTC, `Z` or
`±hh:mm`. -/
structure Types (D F : Type) where
  isFinite : F → Bool
  decimalFloat : D → Option F
  decimalText : D → String
  offsetText : Int → String
  offset_ne : ∀ offset, offsetText offset ≠ ""

/-- A library's frames for plain values. It may refuse a value (an integer that is too wide,
lists nested too deep), and reads back what it has written. -/
structure Wire (F W : Type) where
  write : Plain F → Option W
  read : W → Option (Plain F)
  read_write : ∀ p w, write p = some w → read w = some p

variable {D F : Type}

namespace Types
variable (ty : Types D F)

/-- `json_encoder` and `_msgpack_default`, on what the libraries may ask them about. -/
def convert : Foreign D → Option (Plain F)
  | .decimal d => (ty.decimalFloat d).map .float
  | .datetime t =>
    match t.offset with
    | some offset => (t.utc offset).map fun t => .str (.ofList t.strftime)
    | none => some (.str (.ofList t.strftime))
  | .date d => some (.str (.ofList d.strftime))

/-- The fraction of a second, if there is one. -/
def fraction (microsecond : Nat) : List Char := if microsecond = 0 then [] else '.' :: padded 6 microsecond

/-- The JSON library's own encodings: for these it does not ask `json_encoder`. -/
def native : Foreign D → Option (Plain F)
  | .decimal d => some (.str (ty.decimalText d))
  | .datetime t => some (.str (.ofList
      (t.text ++ fraction t.microsecond ++ (t.offset.elim "" ty.offsetText).toList)))
  | .date d => some (.str (.ofList d.text))

end Types

/-- msgpack can pack a value of this kind without asking. -/
def Value.isBuiltin : Value D F → Bool
  | .enum _ | .foreign _ => false
  | _ => true

namespace Types
variable (ty : Types D F)

mutual
/-- What the JSON library writes for a value. -/
def json : Value D F → Option (Plain F)
  | .null => some .null
  | .bool b => some (.bool b)
  | .int n => some (.int n)
  | .float f => some (if ty.isFinite f then .float f else .null)
  | .str s => some (.str s)
  | .list items => (jsonItems items).map .list
  | .dict entries => (jsonEntries entries).map .dict
  | .enum value => json value
  | .foreign x => ty.native x

def jsonItems : List (Value D F) → Option (List (Plain F))
  | [] => some []
  | v :: rest => do return (← json v) :: (← jsonItems rest)

def jsonEntries : List (String × Value D F) → Option (List (String × Plain F))
  | [] => some []
  | e :: rest => do return (e.1, ← json e.2) :: (← jsonEntries rest)
end

mutual
/-- What the msgpack library writes for a value. The table's answer is packed as it is: an
answer that would have to be asked about again is refused. -/
def msgpack : Value D F → Option (Plain F)
  | .null => some .null
  | .bool b => some (.bool b)
  | .int n => some (.int n)
  | .float f => some (.float f)
  | .str s => some (.str s)
  | .list items => (msgpackItems items).map .list
  | .dict entries => (msgpackEntries entries).map .dict
  | .enum value => if value.isBuiltin then msgpack value else none
  | .foreign x => ty.convert x

def msgpackItems : List (Value D F) → Option (List (Plain F))
  | [] => some []
  | v :: rest => do return (← msgpack v) :: (← msgpackItems rest)

def msgpackEntries : List (String × Value D F) → Option (List (String × Plain F))
  | [] => some []
  | e :: rest => do return (e.1, ← msgpack e.2) :: (← msgpackEntries rest)
end

end Types

/-- `JsonEncoder.encode`. -/
def jsonEncode {W : Type} (ty : Types D F) (wire : Wire F W) (v : Value D F) : Option W :=
  (ty.json v).bind wire.write

/-- `MsgpackEncoder.encode`. -/
def msgpackEncode {W : Type} (ty : Types D F) (wire : Wire F W) (v : Value D F) : Option W :=
  (ty.msgpack v).bind wire.write

mutual
/-- Both libraries take the value the same way: no decimal, no aware datetime and none with
a fraction of a second, no date or datetime of a year below 1000, no float that is not
finite, and no Enum of a date, a datetime, a decimal or another Enum. -/
def Types.uniform (ty : Types D F) : Value D F → Bool
  | .float f => ty.isFinite f
  | .list items => Types.uniformItems ty items
  | .dict entries => Types.uniformEntries ty entries
  | .enum value => value.isBuiltin && Types.uniform ty value
  | .foreign (.decimal _) => false
  | .foreign (.datetime t) => t.offset.isNone && t.microsecond == 0 && t.date.fourDigits
  | .foreign (.date d) => d.fourDigits
  | _ => true

def Types.uniformItems (ty : Types D F) : List (Value D F) → Bool
  | [] => true
  | v :: rest => Types.uniform ty v && Types.uniformItems ty rest

def Types.uniformEntries (ty : Types D F) : List (String × Value D F) → Bool
  | [] => true
  | e :: rest => Types.uniform ty e.2 && Types.uniformEntries ty rest
end

mutual
/-- The plain value that a uniform one stands for. -/
def Types.plain (ty : Types D F) : Value D F → Plain F
  | .null => .null
  | .bool b => .bool b
  | .int n => .int n
  | .float f => .float f
  | .str s => .str s
  | .list items => .list (Types.plainItems ty items)
  | .dict entries => .dict (Types.plainEntries ty entries)
  | .enum value => Types.plain ty value
  | .foreign (.decimal _) => .null
  | .foreign (.datetime t) => .str (.ofList t.text)
  | .foreign (.date d) => .str (.ofList d.text)

def Types.plainItems (ty : Types D F) : List (Value D F) → List (Plain F)
  | [] => []
  | v :: rest => Types.plain ty v :: Types.plainItems ty rest

def Types.plainEntries (ty : Types D F) : List (String × Value D F) → List (String × Plain F)
  | [] => []
  | e :: rest => (e.1, Types.plain ty e.2) :: Types.plainEntries ty rest
end

variable {ty : Types D F}

/-! ### Uniform values -/

theorem convert_uniform {x : Foreign D} (h : ty.uniform (.foreign x) = true) :
    ty.native x = some (ty.plain (.foreign x)) ∧ ty.convert x = some (ty.plain (.foreign x)) := by
  cases x with
  | decimal d => cases h
  | date d =>
    refine ⟨rfl, ?_⟩
    rw [Types.convert, d.strftime_eq_text_iff.mpr h]
    rfl
  | datetime t =>
    simp only [Types.uniform, Bool.and_eq_true, Option.isNone_iff_eq_none, beq_iff_eq] at h
    obtain ⟨⟨hoffset, hmicrosecond⟩, hyear⟩ := h
    simp [Types.native, Types.convert, Types.plain, Types.fraction, hoffset, hmicrosecond,
      t.strftime_eq_text_iff.mpr hyear]

mutual
theorem plain_of_uniform : ∀ v : Value D F, ty.uniform v = true →
    ty.json v = some (ty.plain v) ∧ ty.msgpack v = some (ty.plain v)
  | .null, _ => ⟨rfl, rfl⟩
  | .bool _, _ => ⟨rfl, rfl⟩
  | .int _, _ => ⟨rfl, rfl⟩
  | .str _, _ => ⟨rfl, rfl⟩
  | .float f, h => by
    have hfinite : ty.isFinite f = true := h
    exact ⟨by simp [Types.json, Types.plain, hfinite], rfl⟩
  | .list items, h => by
    obtain ⟨hjson, hmsgpack⟩ := plain_of_uniformItems items h
    exact ⟨by rw [Types.json, hjson]; rfl, by rw [Types.msgpack, hmsgpack]; rfl⟩
  | .dict entries, h => by
    obtain ⟨hjson, hmsgpack⟩ := plain_of_uniformEntries entries h
    exact ⟨by rw [Types.json, hjson]; rfl, by rw [Types.msgpack, hmsgpack]; rfl⟩
  | .enum value, h => by
    rw [Types.uniform, Bool.and_eq_true] at h
    obtain ⟨hjson, hmsgpack⟩ := plain_of_uniform value h.2
    exact ⟨hjson, by rw [Types.msgpack, if_pos h.1]; exact hmsgpack⟩
  | .foreign _, h => convert_uniform h

theorem plain_of_uniformItems : ∀ items : List (Value D F), ty.uniformItems items = true →
    ty.jsonItems items = some (ty.plainItems items) ∧ ty.msgpackItems items = some (ty.plainItems items)
  | [], _ => ⟨rfl, rfl⟩
  | v :: rest, h => by
    rw [Types.uniformItems, Bool.and_eq_true] at h
    obtain ⟨hjson, hmsgpack⟩ := plain_of_uniform v h.1
    obtain ⟨hjsons, hmsgpacks⟩ := plain_of_uniformItems rest h.2
    exact ⟨by rw [Types.jsonItems, hjson, hjsons]; rfl, by rw [Types.msgpackItems, hmsgpack, hmsgpacks]; rfl⟩

theorem plain_of_uniformEntries : ∀ entries : List (String × Value D F), ty.uniformEntries entries = true →
    ty.jsonEntries entries = some (ty.plainEntries entries) ∧
      ty.msgpackEntries entries = some (ty.plainEntries entries)
  | [], _ => ⟨rfl, rfl⟩
  | e :: rest, h => by
    rw [Types.uniformEntries, Bool.and_eq_true] at h
    obtain ⟨hjson, hmsgpack⟩ := plain_of_uniform e.2 h.1
    obtain ⟨hjsons, hmsgpacks⟩ := plain_of_uniformEntries rest h.2
    exact ⟨by rw [Types.jsonEntries, hjson, hjsons]; rfl, by rw [Types.msgpackEntries, hmsgpack, hmsgpacks]; rfl⟩
end

/-! ### Values on which the encoders agree -/

theorem ofList_inj {a b : List Char} (h : String.ofList a = String.ofList b) : a = b := by
  have hdata := congrArg String.toList h
  simpa using hdata

/-- The JSON library's text for a datetime is longer than the table's unless both are the
plain text. -/
theorem datetime_uniform {t : DateTime} {p : Plain F} (hnative : ty.native (.datetime t : Foreign D) = some p)
    (hconvert : ty.convert (.datetime t : Foreign D) = some p) :
    t.offset = none ∧ t.microsecond = 0 ∧ t.date.fourDigits = true := by
  have htext : ∃ u : DateTime, p = .str (.ofList u.strftime) ∧ (t.offset = none → u = t) := by
    simp only [Types.convert] at hconvert
    split at hconvert
    · next hoffset =>
      obtain ⟨u, -, rfl⟩ := Option.map_eq_some_iff.mp hconvert
      exact ⟨u, rfl, fun hnone => by rw [hoffset] at hnone; cases hnone⟩
    · cases hconvert
      exact ⟨t, rfl, fun _ => rfl⟩
  obtain ⟨u, rfl, hnaive⟩ := htext
  simp only [Types.native, Option.some.injEq, Plain.str.injEq] at hnative
  have heq := ofList_inj hnative
  have hlength := congrArg List.length heq
  have hle := u.length_strftime_le
  simp only [List.length_append, DateTime.length_text] at hlength
  have hoffset : t.offset = none := by
    cases hoffset : t.offset with
    | none => rfl
    | some offset =>
      have hempty : (ty.offsetText offset).toList = [] := by
        apply List.eq_nil_of_length_eq_zero
        simp only [hoffset, Option.elim_some] at hlength
        omega
      exact absurd (by simpa using hempty) (ty.offset_ne offset)
  have hmicrosecond : t.microsecond = 0 := by
    by_contra hne
    have hfraction : (Types.fraction t.microsecond).length = 7 := by
      simp [Types.fraction, hne, length_padded]
    omega
  refine ⟨hoffset, hmicrosecond, t.strftime_eq_text_iff.mp ?_⟩
  rw [hnaive hoffset] at heq
  simpa [hoffset, hmicrosecond, Types.fraction] using heq.symm

theorem foreign_uniform {x : Foreign D} {p : Plain F} (hjson : ty.native x = some p)
    (hmsgpack : ty.convert x = some p) : ty.uniform (.foreign x) = true := by
  cases x with
  | decimal d =>
    cases hjson
    obtain ⟨f, -, hf⟩ := Option.map_eq_some_iff.mp hmsgpack
    cases hf
  | datetime t =>
    obtain ⟨hoffset, hmicrosecond, hyear⟩ := datetime_uniform hjson hmsgpack
    simp [Types.uniform, hoffset, hmicrosecond, hyear]
  | date d =>
    cases hjson
    simp only [Types.convert, Option.some.injEq, Plain.str.injEq] at hmsgpack
    exact d.strftime_eq_text_iff.mp (ofList_inj hmsgpack)

mutual
theorem uniform_of_agree : ∀ (v : Value D F) (p : Plain F), ty.json v = some p → ty.msgpack v = some p →
    ty.uniform v = true
  | .null, _, _, _ => rfl
  | .bool _, _, _, _ => rfl
  | .int _, _, _, _ => rfl
  | .str _, _, _, _ => rfl
  | .float f, p, hjson, hmsgpack => by
    cases hmsgpack
    by_contra hfinite
    have hnot : ty.isFinite f = false := by simpa [Types.uniform] using hfinite
    simp [Types.json, hnot] at hjson
  | .list items, p, hjson, hmsgpack => by
    obtain ⟨a, ha, rfl⟩ := Option.map_eq_some_iff.mp hjson
    obtain ⟨b, hb, heq⟩ := Option.map_eq_some_iff.mp hmsgpack
    cases heq
    exact uniform_of_agreeItems items a ha hb
  | .dict entries, p, hjson, hmsgpack => by
    obtain ⟨a, ha, rfl⟩ := Option.map_eq_some_iff.mp hjson
    obtain ⟨b, hb, heq⟩ := Option.map_eq_some_iff.mp hmsgpack
    cases heq
    exact uniform_of_agreeEntries entries a ha hb
  | .enum value, p, hjson, hmsgpack => by
    rw [Types.msgpack] at hmsgpack
    split at hmsgpack
    · rename_i hbuiltin
      rw [Types.uniform, hbuiltin, Bool.true_and]
      exact uniform_of_agree value p hjson hmsgpack
    · cases hmsgpack
  | .foreign _, _, hjson, hmsgpack => foreign_uniform hjson hmsgpack

theorem uniform_of_agreeItems : ∀ (items : List (Value D F)) (ps : List (Plain F)), ty.jsonItems items = some ps →
    ty.msgpackItems items = some ps → ty.uniformItems items = true
  | [], _, _, _ => rfl
  | v :: rest, ps, hjson, hmsgpack => by
    simp only [Types.jsonItems, Types.msgpackItems, Option.pure_def, Option.bind_eq_bind, Option.bind_eq_some_iff,
      Option.some.injEq] at hjson hmsgpack
    obtain ⟨p, hp, qs, hqs, rfl⟩ := hjson
    obtain ⟨p', hp', qs', hqs', heq⟩ := hmsgpack
    cases heq
    rw [Types.uniformItems, Bool.and_eq_true]
    exact ⟨uniform_of_agree v p hp hp', uniform_of_agreeItems rest qs hqs hqs'⟩

theorem uniform_of_agreeEntries : ∀ (entries : List (String × Value D F)) (ps : List (String × Plain F)),
    ty.jsonEntries entries = some ps → ty.msgpackEntries entries = some ps → ty.uniformEntries entries = true
  | [], _, _, _ => rfl
  | e :: rest, ps, hjson, hmsgpack => by
    simp only [Types.jsonEntries, Types.msgpackEntries, Option.pure_def, Option.bind_eq_bind, Option.bind_eq_some_iff,
      Option.some.injEq] at hjson hmsgpack
    obtain ⟨p, hp, qs, hqs, rfl⟩ := hjson
    obtain ⟨p', hp', qs', hqs', heq⟩ := hmsgpack
    cases heq
    rw [Types.uniformEntries, Bool.and_eq_true]
    exact ⟨uniform_of_agree e.2 p hp hp', uniform_of_agreeEntries rest qs hqs hqs'⟩
end

/-- A library reads back what it has written of a value. -/
theorem read_eq_some {W : Type} (wire : Wire F W) {o : Option (Plain F)} {p : Plain F} :
    (o.bind wire.write).bind wire.read = some p ↔ o = some p ∧ (wire.write p).isSome = true := by
  constructor
  · intro h
    obtain ⟨w, hw, hread⟩ := Option.bind_eq_some_iff.mp h
    obtain ⟨q, hq, hwrite⟩ := Option.bind_eq_some_iff.mp hw
    rw [wire.read_write q w hwrite] at hread
    cases hread
    exact ⟨hq, by rw [hwrite]; rfl⟩
  · intro h
    obtain ⟨w, hw⟩ := Option.isSome_iff_exists.mp h.2
    rw [h.1, Option.bind_some, hw, Option.bind_some, wire.read_write p w hw]

/-- **Both frames of a value decode to the same exactly when the value is uniform and neither
library refuses the plain value it stands for.** -/
theorem encoders_agree_iff {W W' : Type} (ty : Types D F) (jsonWire : Wire F W) (msgpackWire : Wire F W')
    (v : Value D F) :
    (∃ p, (jsonEncode ty jsonWire v).bind jsonWire.read = some p ∧
        (msgpackEncode ty msgpackWire v).bind msgpackWire.read = some p) ↔
      ty.uniform v = true ∧ (jsonWire.write (ty.plain v)).isSome = true ∧
        (msgpackWire.write (ty.plain v)).isSome = true := by
  unfold jsonEncode msgpackEncode
  simp only [read_eq_some]
  constructor
  · intro hex
    obtain ⟨p, ⟨hjson, hwrite⟩, hmsgpack, hwrite'⟩ := hex
    have huniform := uniform_of_agree v p hjson hmsgpack
    have hplain : p = ty.plain v := Option.some.inj (hjson.symm.trans (plain_of_uniform v huniform).1)
    exact ⟨huniform, hplain ▸ hwrite, hplain ▸ hwrite'⟩
  · intro hall
    obtain ⟨huniform, hwrite, hwrite'⟩ := hall
    obtain ⟨hjson, hmsgpack⟩ := plain_of_uniform v huniform
    exact ⟨ty.plain v, ⟨hjson, hwrite⟩, hmsgpack, hwrite'⟩

/-! ### An aware datetime -/

/-- Floats as fractions of hundredths and decimals the same, enough to try a message. -/
def hundredths : Types Int (Option Int) where
  isFinite := Option.isSome
  decimalFloat := fun d => some (some d)
  decimalText := fun d => toString d
  offsetText := fun offset => if offset = 10800 then "+03:00" else "Z"
  offset_ne := by
    intro offset
    split <;> decide

/-- Frames that are the plain values themselves. -/
def direct : Wire (Option Int) (Plain (Option Int)) := ⟨some, some, by
  intro p w h
  exact congrArg some (Option.some.inj h).symm⟩

/-- Noon in a zone three hours ahead. -/
def noon : Value Int (Option Int) :=
  .dict [("at", .foreign (.datetime ⟨⟨2026, 7, 27⟩, 12, 0, 0, 0, some 10800⟩))]

theorem aware_datetime_differs :
    (jsonEncode hundredths direct noon).bind direct.read = some (.dict [("at", .str "2026-07-27T12:00:00+03:00")]) ∧
    (msgpackEncode hundredths direct noon).bind direct.read = some (.dict [("at", .str "2026-07-27T09:00:00")]) ∧
    ¬ ∃ p, (jsonEncode hundredths direct noon).bind direct.read = some p ∧
      (msgpackEncode hundredths direct noon).bind direct.read = some p := by
  have hjson : (jsonEncode hundredths direct noon).bind direct.read =
      some (.dict [("at", .str "2026-07-27T12:00:00+03:00")]) := rfl
  have hmsgpack : (msgpackEncode hundredths direct noon).bind direct.read =
      some (.dict [("at", .str "2026-07-27T09:00:00")]) := rfl
  refine ⟨hjson, hmsgpack, ?_⟩
  intro hex
  obtain ⟨p, hp, hp'⟩ := hex
  have heq := (hjson.symm.trans hp).trans (hp'.symm.trans hmsgpack)
  simp at heq

/-- A naive datetime, a date and an Enum of a text arrive the same. -/
def shift : Value Int (Option Int) :=
  .dict [("start", .foreign (.datetime ⟨⟨2026, 7, 27⟩, 12, 0, 0, 0, none⟩)),
    ("day", .foreign (.date ⟨2026, 7, 27⟩)), ("kinds", .list [.enum (.str "night"), .int 7])]

theorem shift_agrees : ∃ p, (jsonEncode hundredths direct shift).bind direct.read = some p ∧
    (msgpackEncode hundredths direct shift).bind direct.read = some p :=
  (encoders_agree_iff hundredths direct direct shift).mpr ⟨rfl, rfl, rfl⟩

end PyAppRunner.Bridge.Encoders
