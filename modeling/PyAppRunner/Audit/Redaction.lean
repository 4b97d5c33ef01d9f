import PyAppRunner.Audit.Completeness
import PyAppRunner.Base.Dict
import Mathlib.Data.List.TakeWhile

/-! What the audit trail shows of excluded columns: nothing but that they changed.

`record` redacts every event on its way to the store, whichever call it comes from, so two
runs that differ in the values of excluded columns only write the same rows. Which
columns are excluded is looked up by the name of the table in lower case; a name
without its schema matches in every schema. -/
namespace PyAppRunner.Audit
open Base Sql

variable {κ V : Type} (py : Values V)

/-- `_validated_exclude`: the columns to redact, by table, all in lower case. Keys that only
differ in letter case are one. -/
def validatedExclude (exclude : List (String × List String)) : Base.Dict TableKey (List String) :=
  exclude.foldl (fun d entry =>
    d.set (tableKey py entry.1) ((d.get (tableKey py entry.1)).getD [] ++ entry.2.map py.lower)) .empty

/-- `_WIDTHS`, and `_fit`: cut rather than refused. -/
def fit (width : Nat) (value : String) : String := .ofList (value.toList.take width)

/-- A row of the audit table without its `created_at`. -/
structure AuditRow where
  requestId : String
  module : String
  event : String
  entityType : String
  entityId : String
  actorType : String
  actorId : String
  actorName : String
  oldValues : Option String
  newValues : Option String
  url : String
  ipAddress : String
  userAgent : String
  tags : Option String
  context : Option String
deriving DecidableEq

/-- `_json` of a dict and of a list of texts, which may come to nothing. -/
structure Json (V : Type) where
  dict : Dict V → Option String
  texts : List String → Option String

/-- `Store.row`. -/
def storeRow (json : Json V) (e : AuditEvent V) : AuditRow where
  requestId := fit 32 e.origin.requestId
  module := fit 64 e.module
  event := fit 32 e.event
  entityType := fit 128 e.entityType
  entityId := fit 64 e.entityId
  actorType := fit 32 e.origin.actorType
  actorId := fit 64 e.origin.actorId
  actorName := fit 190 e.origin.actorName
  oldValues := e.oldValues.bind json.dict
  newValues := e.newValues.bind json.dict
  url := e.origin.url
  ipAddress := fit 45 e.origin.ipAddress
  userAgent := e.origin.userAgent
  tags := if e.tags.isEmpty then none else json.texts e.tags
  context := e.context.bind json.dict

/-- The rows a call has written. -/
def written (json : Json V) (s : State κ V) : List AuditRow := s.log.map fun entry => storeRow json entry.2

section
variable [DecidableEq κ] (audit : Settings)

/-- The id of an inserted row: the caller's, or the one the database returned. -/
def insertedId (entityId : Option String) (newId : Option V) : String := entityId.getD ((newId.map py.str).getD "")

/-- The event of an insert: everything is new. -/
def insertedEvent (req : Request V) (entityId : Option String) (newId : Option V) (data : Dict V) : AuditEvent V where
  event := AuditEvent.created
  entityType := req.table
  entityId := insertedId py entityId newId
  module := req.module
  oldValues := none
  newValues := (between py none (some data) []).2
  tags := req.tags
  context := req.context
  origin := ⟨"", "", "", "", "", "", ""⟩

/-- `create` says what the database makes of the columns given, with its defaults and keys,
or that it refuses them. -/
def insert (create : Dict V → Option (Dict V)) (c : κ) (env : Env κ V) (req : Request V) (entityId : Option String)
    (data : Dict V) : Call κ V (Option V) := do
  assertTableName req.table
  match create data with
  | none => Program.raise .badStatement
  | some row => do
    let s ← Program.get
    Program.modify fun s => {s with table := (s.table.insert c row).2}
    record py audit env (s.table.seq + 1) (insertedEvent py req entityId (row.get audit.idKey) data)
    pure (row.get audit.idKey)

end

/-! ### Which columns are excluded -/

/-- An exclude key covers a table of the same name, in any schema if either has none. -/
def Covers (key table : TableKey) : Prop := key.2 = table.2 ∧ (key.1 = none ∨ table.1 = none ∨ key.1 = table.1)

variable {py}

theorem getD_validated (key : TableKey) (column : String) (exclude : List (String × List String))
    (d : Base.Dict TableKey (List String)) :
    column ∈ (((exclude.foldl (fun d entry =>
        d.set (tableKey py entry.1) ((d.get (tableKey py entry.1)).getD [] ++ entry.2.map py.lower)) d).get key).getD []) ↔
      column ∈ (d.get key).getD [] ∨
        ∃ entry ∈ exclude, tableKey py entry.1 = key ∧ column ∈ entry.2.map py.lower := by
  induction exclude generalizing d with
  | nil => simp
  | cons entry rest ih =>
    rw [List.foldl_cons, ih, Dict.get_set]
    by_cases hkey : key = tableKey py entry.1
    · simp [hkey, or_assoc]
    · simp [hkey, Ne.symm hkey]

/-- The columns under a key come from the entries of the mapping with that key. -/
theorem mem_validated (exclude : List (String × List String)) (key : TableKey) (column : String) :
    (∃ columns, (key, columns) ∈ (validatedExclude py exclude).entries ∧ column ∈ columns) ↔
      ∃ entry ∈ exclude, tableKey py entry.1 = key ∧ column ∈ entry.2.map py.lower := by
  have hall : column ∈ ((validatedExclude py exclude).get key).getD [] ↔
      ∃ entry ∈ exclude, tableKey py entry.1 = key ∧ column ∈ entry.2.map py.lower := by
    unfold validatedExclude
    rw [getD_validated, Dict.get_empty, Option.getD_none]
    simp
  rw [← hall]
  simp only [Base.Dict.mem_entries]
  cases (validatedExclude py exclude).get key with
  | none => simp
  | some columns => simp

/-- What is excluded for a table is what the keys that cover it list. -/
theorem mem_excluded {audit : Settings} {exclude : List (String × List String)}
    (haudit : audit.exclude = (validatedExclude py exclude).entries) {table column : String} :
    column ∈ excluded py audit table ↔
      ∃ entry ∈ exclude, Covers (tableKey py entry.1) (tableKey py table) ∧ column ∈ entry.2.map py.lower := by
  have hfound : column ∈ excluded py audit table ↔
      ∃ key, Covers key (tableKey py table) ∧ ∃ columns, (key, columns) ∈ audit.exclude ∧ column ∈ columns := by
    simp only [excluded, List.mem_flatMap, List.mem_filter, Bool.and_eq_true, Bool.or_eq_true, decide_eq_true_eq,
      Option.isNone_iff_eq_none, Covers]
    constructor
    · intro hex
      obtain ⟨⟨key, columns⟩, ⟨hin, hname, hschema⟩, hcolumn⟩ := hex
      exact ⟨key, ⟨hname, or_assoc.mp hschema⟩, columns, hin, hcolumn⟩
    · intro hex
      obtain ⟨key, ⟨hname, hschema⟩, columns, hin, hcolumn⟩ := hex
      exact ⟨(key, columns), ⟨hin, hname, or_assoc.mpr hschema⟩, hcolumn⟩
  rw [hfound, haudit]
  simp only [mem_validated]
  constructor
  · intro hex
    obtain ⟨key, hcovers, entry, hentry, hkey, hcolumn⟩ := hex
    exact ⟨entry, hentry, hkey ▸ hcovers, hcolumn⟩
  · intro hex
    obtain ⟨entry, hentry, hcovers, hcolumn⟩ := hex
    exact ⟨_, hcovers, entry, hentry, rfl, hcolumn⟩

/-- What is relied on of `str.lower`. -/
structure Lowers (lower : String → String) : Prop where
  idem : ∀ s, lower (lower s) = lower s
  ascii : ∀ s : String, (∀ c ∈ s.toList, c.toNat < 128) → lower s = .ofList (s.toList.map Char.toLower)

/-- A column of an entry is excluded however its letters are written. -/
theorem isExcluded_of_covers (hlower : Lowers py.lower) {audit : Settings} {exclude : List (String × List String)}
    (haudit : audit.exclude = (validatedExclude py exclude).entries) {entry : String × List String}
    (hentry : entry ∈ exclude) {table column key : String} (hcovers : Covers (tableKey py entry.1) (tableKey py table))
    (hcolumn : column ∈ entry.2) (hkey : py.lower key = py.lower column) :
    isExcluded py (excluded py audit table) key = true := by
  rw [isExcluded, decide_eq_true_eq, List.mem_map]
  refine ⟨py.lower column, (mem_excluded haudit).mpr ⟨entry, hentry, hcovers, List.mem_map_of_mem hcolumn⟩, ?_⟩
  rw [hlower.idem, hkey]

/-! ### Names of tables -/

/-- A name with its schema, if it has one. -/
def qualifiedName : Option String → String → String
  | none, name => name
  | some schema, name => schema ++ "." ++ name

/-- A character of an identifier is an ASCII one, and no dot whatever its case. -/
theorem nameChar_spec {c : Char} (h : (c.isAlphanum || c = '_') = true) : c.toNat < 128 ∧ c.toLower ≠ '.' := by
  have hval : (65 ≤ c.toNat ∧ c.toNat ≤ 90) ∨ (97 ≤ c.toNat ∧ c.toNat ≤ 122) ∨ (48 ≤ c.toNat ∧ c.toNat ≤ 57) ∨
      c.toNat = 95 := by
    delta Char.isAlphanum Char.isAlpha Char.isUpper Char.isLower Char.isDigit at h
    simp only [Bool.or_eq_true, decide_eq_true_eq, Bool.and_eq_true, or_assoc] at h
    rcases h with h | h | h | rfl
    · exact .inl h
    · exact .inr (.inl h)
    · exact .inr (.inr (.inl h))
    · exact .inr (.inr (.inr rfl))
  refine ⟨by omega, ?_⟩
  intro hdot
  have honly : ∀ n < 128, (Char.ofNat n).toLower = '.' → n = 46 := by decide
  have hnat := honly c.toNat (by omega) (by rw [Char.ofNat_toNat]; exact hdot)
  omega

/-- No dot and no blank is in an identifier. -/
theorem nameChar_of_isIdentifier {name : List Char} (h : isIdentifier name = true) :
    ∀ c ∈ name, (c.isAlphanum || c = '_') = true := by
  cases name with
  | nil => cases h
  | cons first rest =>
    rw [isIdentifier, Bool.and_eq_true, List.all_eq_true] at h
    obtain ⟨hfirst, hrest⟩ := h
    intro c hc
    rcases List.mem_cons.mp hc with rfl | hc
    · rw [Bool.or_eq_true] at hfirst ⊢
      rcases hfirst with halpha | hscore
      · exact .inl (by rw [Char.isAlphanum, halpha, Bool.true_or])
      · exact .inr hscore
    · exact hrest c hc

/-- An identifier in lower case is its letters in lower case, and has no dot. -/
theorem lower_identifier (hlower : Lowers py.lower) {name : String} (h : isIdentifier name.toList = true) :
    (py.lower name).toList = name.toList.map Char.toLower ∧ '.' ∉ (py.lower name).toList ∧
      (py.lower name).toList ≠ [] := by
  have hchars := nameChar_of_isIdentifier h
  have heq : (py.lower name).toList = name.toList.map Char.toLower := by
    rw [hlower.ascii name fun c hc => (nameChar_spec (hchars c hc)).1, String.toList_ofList]
  refine ⟨heq, ?_, ?_⟩
  · rw [heq, List.mem_map]
    intro hdot
    obtain ⟨c, hc, hlow⟩ := hdot
    exact (nameChar_spec (hchars c hc)).2 hlow
  · rw [heq]
    intro hnil
    rw [List.map_eq_nil_iff.mp hnil] at h
    cases h

/-- A name with a schema, or without, is taken apart into the two again. -/
theorem tableKey_qualifiedName (hlower : Lowers py.lower) {schema : Option String} {name : String}
    (hschema : ∀ s ∈ schema, isIdentifier s.toList = true) (hname : isIdentifier name.toList = true) :
    tableKey py (qualifiedName schema name) = (schema.map py.lower, py.lower name) := by
  obtain ⟨hnameChars, hnoDot, -⟩ := lower_identifier hlower hname
  have hnoDot' : ∀ c ∈ (py.lower name).toList.reverse, decide (c ≠ '.') = true := by
    intro c hc
    rw [decide_eq_true_eq]
    rintro rfl
    exact hnoDot (List.mem_reverse.mp hc)
  cases schema with
  | none =>
    have hafter : (py.lower name).toList.reverse.takeWhile (· ≠ '.') = (py.lower name).toList.reverse :=
      List.takeWhile_eq_self_iff.mpr hnoDot'
    have hbefore : (py.lower name).toList.reverse.dropWhile (· ≠ '.') = [] := List.dropWhile_eq_nil_iff.mpr hnoDot'
    simp only [tableKey, qualifiedName, hafter, hbefore]
    simp
  | some schema =>
    obtain ⟨hschemaChars, -, hsome⟩ := lower_identifier hlower (hschema schema rfl)
    have hall : (py.lower (schema ++ "." ++ name)).toList =
        (py.lower schema).toList ++ '.' :: (py.lower name).toList := by
      rw [hlower.ascii, hschemaChars, hnameChars]
      · simp
      · intro c hc
        simp only [String.toList_append, List.mem_append] at hc
        rcases hc with (hc | hc) | hc
        · exact (nameChar_spec (nameChar_of_isIdentifier (hschema schema rfl) c hc)).1
        · rw [List.mem_singleton.mp hc]
          decide
        · exact (nameChar_spec (nameChar_of_isIdentifier hname c hc)).1
    have hsplit : (py.lower (schema ++ "." ++ name)).toList.reverse =
        (py.lower name).toList.reverse ++ '.' :: (py.lower schema).toList.reverse := by
      rw [hall]
      simp
    simp only [tableKey, qualifiedName, hsplit]
    rw [List.takeWhile_append_of_pos hnoDot', List.dropWhile_append_of_pos hnoDot']
    simp [hsome]

/-- What the mapping withholds of a table: the columns of the entries for its name, whose
schema is that of the table if both have one, all in any letter case. -/
def Withheld (py : Values V) (exclude : List (String × List String)) (schema : Option String) (name column : String) :
    Prop :=
  ∃ keySchema keyName columns, (qualifiedName keySchema keyName, columns) ∈ exclude ∧
    (∀ s ∈ keySchema, isIdentifier s.toList = true) ∧ isIdentifier keyName.toList = true ∧
    py.lower keyName = py.lower name ∧
    (keySchema = none ∨ schema = none ∨ keySchema.map py.lower = schema.map py.lower) ∧
    ∃ c ∈ columns, py.lower column = py.lower c

/-- **What the mapping withholds is excluded**, in whatever case the table is named. -/
theorem isExcluded_of_withheld (hlower : Lowers py.lower) {audit : Settings} {exclude : List (String × List String)}
    (haudit : audit.exclude = (validatedExclude py exclude).entries) {schema : Option String} {name column : String}
    (hschema : ∀ s ∈ schema, isIdentifier s.toList = true) (hname : isIdentifier name.toList = true)
    (h : Withheld py exclude schema name column) :
    isExcluded py (excluded py audit (qualifiedName schema name)) column = true := by
  obtain ⟨keySchema, keyName, columns, hentry, hkeySchema, hkeyName, hsame, hschemas, c, hc, hcolumn⟩ := h
  apply isExcluded_of_covers hlower haudit hentry _ hc hcolumn
  rw [tableKey_qualifiedName hlower hkeySchema hkeyName, tableKey_qualifiedName hlower hschema hname]
  refine ⟨hsame, ?_⟩
  rcases hschemas with rfl | rfl | hschemas
  · exact .inl rfl
  · exact .inr (.inl rfl)
  · exact .inr (.inr hschemas)

/-! ### Values that differ in hidden columns only -/

section
variable {hidden : String → Prop}

/-- The same columns, with the same values but for the hidden ones. -/
def Alike (hidden : String → Prop) (d₁ d₂ : Dict V) : Prop :=
  List.Forall₂ (fun x y => x.1 = y.1 ∧ (¬ hidden x.1 → x.2 = y.2)) d₁ d₂

/-- Rows that are alike agree outside the hidden columns. -/
theorem Alike.get_eq {d₁ d₂ : Dict V} (h : Alike hidden d₁ d₂) {key : String} (hkey : ¬ hidden key) :
    d₁.get key = d₂.get key := by
  unfold Dict.get
  induction h with
  | nil => rfl
  | @cons x y xs ys hxy _ ih =>
    obtain ⟨k, v⟩ := x
    obtain ⟨k', v'⟩ := y
    obtain ⟨hk, hv⟩ := hxy
    dsimp only at hk hv
    subst hk
    rw [List.lookup_cons, List.lookup_cons]
    by_cases heq : key = k
    · subst heq
      rw [hv hkey]
      simp
    · rw [beq_eq_false_iff_ne.mpr heq]
      exact ih

/-- And they have the same columns, in the same order. -/
theorem Alike.keys_eq {d₁ d₂ : Dict V} (h : Alike hidden d₁ d₂) : d₁.map Prod.fst = d₂.map Prod.fst := by
  induction h with
  | nil => rfl
  | cons hxy _ ih => rw [List.map_cons, List.map_cons, hxy.1, ih]

/-- Which columns can be set is for their names alone to say. -/
theorem Alike.sets_eq (columns : Columns V) {d₁ d₂ : Dict V} (h : Alike hidden d₁ d₂) :
    columns.sets d₁ = columns.sets d₂ := by
  unfold Columns.sets Columns.knows
  rw [h.keys_eq]
  cases h with
  | nil => rfl
  | cons _ _ => rfl

/-- A mask keeps the keys. -/
theorem mask_eq_map (values : Dict V) (exclude : List String) :
    mask py values exclude =
      values.map fun kv => (kv.1, if isExcluded py exclude kv.1 then some py.redacted else kv.2) := by
  unfold mask
  split
  · next hempty =>
    rw [List.isEmpty_iff.mp hempty]
    simp [isExcluded]
  · rfl

/-- **Masked, they are the same.** -/
theorem Alike.mask_eq {exclude : List String} (hhidden : ∀ key, hidden key → isExcluded py exclude key = true)
    {d₁ d₂ : Dict V} (h : Alike hidden d₁ d₂) : mask py d₁ exclude = mask py d₂ exclude := by
  rw [mask_eq_map, mask_eq_map]
  induction h with
  | nil => rfl
  | @cons x y xs ys hxy _ ih =>
    obtain ⟨hk, hv⟩ := hxy
    rw [List.map_cons, List.map_cons, ih, hk]
    by_cases hex : isExcluded py exclude y.1 = true
    · rw [if_pos hex, if_pos hex]
    · rw [if_neg hex, if_neg hex, hv fun hh => hex (hk ▸ hhidden x.1 hh)]

/-- The same hidden columns compare as changed. -/
def ChangeAlike (py : Values V) (hidden : String → Prop) (row₁ data₁ row₂ data₂ : Dict V) : Prop :=
  List.Forall₂ (fun x y => hidden x.1 → py.same (row₁.get x.1) x.2 = py.same (row₂.get y.1) y.2) data₁ data₂

/-- What differs between the old and the new differs in both runs, and is alike. -/
theorem Alike.differing {row₁ data₁ row₂ data₂ : Dict V} (hrow : Alike hidden row₁ row₂)
    (hdata : Alike hidden data₁ data₂) (hchange : ChangeAlike py hidden row₁ data₁ row₂ data₂) :
    Alike hidden (differing py row₁ data₁) (differing py row₂ data₂) := by
  unfold Audit.differing
  induction hdata with
  | nil => exact .nil
  | @cons x y xs ys hxy _ ih =>
    obtain ⟨hcmp, hrest⟩ := List.forall₂_cons.mp hchange
    have hsame : py.same (row₁.get x.1) x.2 = py.same (row₂.get y.1) y.2 := by
      by_cases hh : hidden x.1
      · exact hcmp hh
      · rw [hrow.get_eq hh, hxy.2 hh, hxy.1]
    cases hcase : py.same (row₂.get y.1) y.2 with
    | true =>
      rw [List.filter_cons_of_neg (by simp [hsame, hcase]), List.filter_cons_of_neg (by simp [hcase])]
      exact ih hrest
    | false =>
      rw [List.filter_cons_of_pos (by simp [hsame, hcase]), List.filter_cons_of_pos (by simp [hcase])]
      exact .cons hxy (ih hrest)

/-- What the rows had in these columns. -/
theorem Alike.values {row₁ row₂ d₁ d₂ : Dict V} (hrow : Alike hidden row₁ row₂) (h : Alike hidden d₁ d₂) :
    Alike hidden (d₁.map fun kv => (kv.1, row₁.get kv.1)) (d₂.map fun kv => (kv.1, row₂.get kv.1)) := by
  induction h with
  | nil => exact .nil
  | @cons x y xs ys hxy _ ih =>
    refine .cons ⟨hxy.1, fun hh => ?_⟩ ih
    show row₁.get x.1 = row₂.get y.1
    rw [hrow.get_eq hh, hxy.1]

/-- Events that only differ in what they show of hidden columns. -/
structure EventAlike (hidden : String → Prop) (e₁ e₂ : AuditEvent V) : Prop where
  rest : {e₁ with oldValues := none, newValues := none} = {e₂ with oldValues := none, newValues := none}
  old : Option.Rel (Alike hidden) e₁.oldValues e₂.oldValues
  new : Option.Rel (Alike hidden) e₁.newValues e₂.newValues

theorem map_mask_eq {exclude : List String} (hhidden : ∀ key, hidden key → isExcluded py exclude key = true)
    {v₁ v₂ : Option (Dict V)} (h : Option.Rel (Alike hidden) v₁ v₂) :
    (v₁.map fun values => mask py values exclude) = v₂.map fun values => mask py values exclude := by
  cases h with
  | none => rfl
  | some hab => exact congrArg some (hab.mask_eq hhidden)

/-- So are the events that are recorded of them. -/
theorem EventAlike.redacted_eq {audit : Settings} {e₁ e₂ : AuditEvent V} (h : EventAlike hidden e₁ e₂)
    (hhidden : ∀ key, hidden key → isExcluded py (excluded py audit e₁.entityType) key = true) :
    redacted py audit e₁ = redacted py audit e₂ := by
  obtain ⟨event, entityType, entityId, module, old₁, new₁, tags, context, origin⟩ := e₁
  obtain ⟨event', entityType', entityId', module', old₂, new₂, tags', context', origin'⟩ := e₂
  have hrest := h.rest
  simp only [AuditEvent.mk.injEq] at hrest
  obtain ⟨rfl, rfl, rfl, rfl, -, -, rfl, rfl, rfl⟩ := hrest
  unfold redacted
  dsimp only
  rw [map_mask_eq hhidden h.old, map_mask_eq hhidden h.new]

/-! ### The events of alike rows -/

variable {audit : Settings} {req : Request V}

/-- The id is not hidden, so the row is named alike. -/
theorem Alike.rowId_eq {row₁ row₂ : Dict V} (h : Alike hidden row₁ row₂) (hid : ¬ hidden audit.idKey) :
    rowId py audit row₁ = rowId py audit row₂ := by
  unfold rowId
  rw [h.get_eq hid]

variable (req) in
/-- The events of two inserts. -/
theorem inserted_alike {entityId : Option String} {id₁ id₂ : Option V} {data₁ data₂ : Dict V}
    (hid : insertedId py entityId id₁ = insertedId py entityId id₂) (h : Alike hidden data₁ data₂) :
    EventAlike hidden (insertedEvent py req entityId id₁ data₁) (insertedEvent py req entityId id₂ data₂) where
  rest := by simp [insertedEvent, hid]
  old := .none
  new := .some (by simpa [between, mask] using h)

/-- The events of two deletes. -/
theorem deleted_alike {row₁ row₂ : Dict V} (hid : ¬ hidden audit.idKey) (h : Alike hidden row₁ row₂) :
    Option.Rel (EventAlike hidden) (deletedEvent py audit req row₁) (deletedEvent py audit req row₂) := by
  apply Option.Rel.some
  refine ⟨?_, ?_, .none⟩
  · simp [eventFor, h.rowId_eq hid]
  · simp only [eventFor, between_delete]
    exact .some h

theorem entityType_updated {data row : Dict V} {e : AuditEvent V} (h : updatedEvent py audit req data row = some e) :
    e.entityType = req.table := by
  unfold updatedEvent at h
  dsimp only at h
  split at h
  · cases h
  · cases h
    rfl

/-- The events of two updates: both changed something visible, or the same hidden columns, or
neither. -/
theorem updated_alike {row₁ data₁ row₂ data₂ : Dict V} (hid : ¬ hidden audit.idKey) (hrow : Alike hidden row₁ row₂)
    (hdata : Alike hidden data₁ data₂) (hchange : ChangeAlike py hidden row₁ data₁ row₂ data₂) :
    Option.Rel (EventAlike hidden) (updatedEvent py audit req data₁ row₁) (updatedEvent py audit req data₂ row₂) := by
  have hdiffering := hrow.differing hdata hchange
  obtain ⟨hnone₁, hsome₁⟩ := between_update py row₁ data₁
  obtain ⟨hnone₂, hsome₂⟩ := between_update py row₂ data₂
  by_cases hd : differing py row₁ data₁ = []
  · have hd₂ : differing py row₂ data₂ = [] := by
      rw [hd] at hdiffering
      exact List.forall₂_nil_left_iff.mp hdiffering
    simp only [updatedEvent, hnone₁ hd, hnone₂ hd₂]
    exact .none
  · have hd₂ : differing py row₂ data₂ ≠ [] := by
      intro hnil
      rw [hnil] at hdiffering
      exact hd (List.forall₂_nil_right_iff.mp hdiffering)
    simp only [updatedEvent, hsome₁ hd, hsome₂ hd₂]
    apply Option.Rel.some
    refine ⟨?_, .some (hrow.values hdiffering), .some hdiffering⟩
    simp [eventFor, hrow.rowId_eq hid]

end

/-! ### What a run writes -/

section
variable {audit : Settings}

/-- The events that are written of those recorded in turn: a strict trail stops at the first
that cannot be. -/
def stored (audit : Settings) (storeFails : AuditEvent V → Option String) : List (AuditEvent V) → List (AuditEvent V)
  | [] => []
  | event :: rest =>
    match storeFails event with
    | none => event :: stored audit storeFails rest
    | some _ => if audit.strict then [] else stored audit storeFails rest

/-- The event of a row as it goes to the store. -/
def resolved (py : Values V) (audit : Settings) (context : RequestContext) (e : AuditEvent V) : AuditEvent V :=
  (redacted py audit e).withResolved context

/-- The events that stand in the trail, without the rows they are of. -/
def State.events (s : State κ V) : List (AuditEvent V) := s.log.map Prod.snd

/-- `record`: the event is masked, completed from the context and stored, or it fails. -/
theorem record_eq (env : Env κ V) (row : Nat) (e : AuditEvent V) (s : State κ V) :
    record py audit env row e s =
      match env.storeFails (resolved py audit env.context e) with
      | none => ({s with log := s.log ++ [(row, resolved py audit env.context e)]}, .ok ())
      | some error =>
        if audit.strict then (s, .error (.store error))
        else ({s with warnings := s.warnings ++ [.store error]}, .ok ()) := by
  unfold record resolved fail
  cases env.storeFails ((redacted py audit e).withResolved env.context) with
  | none => rfl
  | some error => cases audit.strict <;> rfl

variable (py audit) in
/-- A record adds its event, if that was stored. -/
theorem events_record (env : Env κ V) (row : Nat) (e : AuditEvent V) (s : State κ V) :
    (record py audit env row e s).1.events =
      s.events ++ stored audit env.storeFails [resolved py audit env.context e] := by
  rw [record_eq]
  cases hfail : env.storeFails (resolved py audit env.context e) with
  | none => simp [stored, hfail, State.events]
  | some error => cases hstrict : audit.strict <;> simp [stored, hfail, State.events]

variable (py audit) in
/-- The rows of a call add theirs in order, up to the first that fails under a strict trail. -/
theorem events_recordRows (env : Env κ V) (eventOf : Dict V → Option (AuditEvent V)) (read : List (Nat × Dict V))
    (s : State κ V) :
    (recordRows py audit env eventOf read s).1.events =
      s.events ++ stored audit env.storeFails
        (read.filterMap fun row => (eventOf row.2).map (resolved py audit env.context)) := by
  induction read generalizing s with
  | nil => exact (List.append_nil _).symm
  | cons row rest ih =>
    rw [recordRows]
    cases he : eventOf row.2 with
    | none =>
      have hrow : recordRow py audit env eventOf row s = (s, .ok ()) := by
        unfold recordRow
        rw [he]
        rfl
      rw [Program.bind_ok hrow, List.filterMap_cons_none (by rw [he]; rfl)]
      exact ih s
    | some e =>
      have hrow : recordRow py audit env eventOf row s = record py audit env row.1 e s := by
        unfold recordRow
        rw [he]
      rw [record_eq] at hrow
      rw [List.filterMap_cons_some (by rw [he]; rfl)]
      cases hfail : env.storeFails (resolved py audit env.context e) with
      | none =>
        rw [hfail] at hrow
        rw [Program.bind_ok hrow, ih]
        simp [stored, hfail, State.events]
      | some error =>
        rw [hfail] at hrow
        cases hstrict : audit.strict with
        | true =>
          dsimp only at hrow
          rw [if_pos hstrict] at hrow
          rw [Program.bind_error hrow]
          simp [stored, hfail, hstrict]
        | false =>
          dsimp only at hrow
          rw [if_neg (by simp [hstrict])] at hrow
          rw [Program.bind_ok hrow, ih]
          simp [stored, hfail, hstrict, State.events]

/-- Events that are the same once redacted are the same in the trail. -/
theorem resolved_filterMap_eq {context : RequestContext} {event₁ event₂ : Dict V → Option (AuditEvent V)}
    {read₁ read₂ : List (Nat × Dict V)}
    (h : List.Forall₂ (fun r₁ r₂ => (event₁ r₁.2).map (redacted py audit) = (event₂ r₂.2).map (redacted py audit))
      read₁ read₂) :
    (read₁.filterMap fun row => (event₁ row.2).map (resolved py audit context)) =
      read₂.filterMap fun row => (event₂ row.2).map (resolved py audit context) := by
  induction h with
  | nil => rfl
  | @cons r₁ r₂ rest₁ rest₂ heq _ ih =>
    have hresolved : (event₁ r₁.2).map (resolved py audit context) = (event₂ r₂.2).map (resolved py audit context) := by
      have hmap := congrArg (Option.map fun e => AuditEvent.withResolved e context) heq
      rw [Option.map_map, Option.map_map] at hmap
      exact hmap
    rw [List.filterMap_cons, List.filterMap_cons, hresolved, ih]

/-- Whether a call goes on with this many rows. -/
def goesOn (audit : Settings) (matched : Nat) : Bool :=
  audit.maxRows < 1 || (matched : Int) ≤ audit.maxRows || !audit.strict

variable (audit) in
theorem assertWithinLimit_run (matched : Nat) (s : State κ V) :
    ∃ s', s'.log = s.log ∧ assertWithinLimit audit matched s =
      (s', if goesOn audit matched then .ok () else .error (.tooManyRows matched)) := by
  unfold assertWithinLimit goesOn fail
  cases hlimit : (decide (audit.maxRows < 1) || decide ((matched : Int) ≤ audit.maxRows)) with
  | true => exact ⟨s, rfl, by rfl⟩
  | false =>
    cases hstrict : audit.strict with
    | true => exact ⟨s, rfl, by simp; rfl⟩
    | false => exact ⟨{s with warnings := s.warnings ++ [.tooManyRows matched]}, rfl, by simp; rfl⟩

theorem named_run {α : Type} (table : String) (next : Call κ V α) (s : State κ V) :
    (do assertTableName table; next : Call κ V α) s =
      if isTableName table then next s else (s, .error .notATableName) := by
  have hassert : assertTableName table s = (s, if isTableName table then .ok () else .error .notATableName) := by
    unfold assertTableName
    split <;> rfl
  split
  · next hname =>
    rw [if_pos hname] at hassert
    exact Program.bind_ok hassert
  · next hname =>
    rw [if_neg hname] at hassert
    exact Program.bind_error hassert

theorem parsed_run {α : Type} (parses : Bool) (next : Call κ V α) (s : State κ V) :
    (do assertStatement parses; next : Call κ V α) s = if parses then next s else (s, .error .badStatement) := by
  cases parses with
  | true => exact Program.bind_ok rfl
  | false => exact Program.bind_error rfl

/-- The events a call writes of the rows it read, if it is let and its statements parse. -/
def eventsOf (py : Values V) (audit : Settings) (env : Env κ V) (table : String) (parses : Bool)
    (eventOf : Dict V → Option (AuditEvent V)) (read : List (Nat × Dict V)) : List (AuditEvent V) :=
  if isTableName table && goesOn audit read.length && parses then
    stored audit env.storeFails (read.filterMap fun row => (eventOf row.2).map (resolved py audit env.context))
  else []

/-- An insert writes one event, or none. -/
theorem events_insert {c : κ} {env : Env κ V} {t : Table κ (Dict V)}
    (create : Dict V → Option (Dict V)) (req : Request V) (entityId : Option String) (data : Dict V) :
    (insert py audit create c env req entityId data (.start t)).1.events =
      if isTableName req.table then
        ((create data).map fun row => stored audit env.storeFails
          [resolved py audit env.context (insertedEvent py req entityId (row.get audit.idKey) data)]).getD []
      else [] := by
  unfold insert
  rw [named_run]
  split
  · cases create data with
    | none => rfl
    | some row =>
      have hget : (Program.get : Call κ V (State κ V)) (.start t) = (.start t, .ok (.start t)) := rfl
      have hmodify : (Program.modify fun s => {s with table := (s.table.insert c row).2} : Call κ V Unit) (.start t) =
          ({State.start t with table := (t.insert c row).2}, .ok ()) := rfl
      change ((Program.get >>= fun s => _) (State.start t)).1.events = _
      rw [Program.bind_ok hget, Program.bind_ok hmodify, Option.map_some, Option.getD_some]
      refine Eq.trans ?_ (events_record py audit env ((State.start t).table.seq + 1)
        (insertedEvent py req entityId (row.get audit.idKey) data) {State.start t with table := (t.insert c row).2})
      rcases hrecord : record py audit env ((State.start t).table.seq + 1)
        (insertedEvent py req entityId (row.get audit.idKey) data)
        {State.start t with table := (t.insert c row).2} with ⟨s', e | a⟩
      · rw [Program.bind_error hrecord]
      · rw [Program.bind_ok hrecord]
        rfl
  · rfl

/-- What is written are the events that stand, as rows. -/
theorem written_eq (json : Json V) (s : State κ V) : written json s = s.events.map (storeRow json) := by
  unfold written State.events
  rw [List.map_map]
  rfl

/-- Alike rows leave the same events. -/
theorem eventsOf_eq {hidden : String → Prop} {env₁ env₂ : Env κ V} (hstore : env₁.storeFails = env₂.storeFails)
    (hcontext : env₁.context = env₂.context) {table : String}
    (hhidden : ∀ key, hidden key → isExcluded py (excluded py audit table) key = true)
    {event₁ event₂ : Dict V → Option (AuditEvent V)} (htable : ∀ row e, event₁ row = some e → e.entityType = table)
    {read₁ read₂ : List (Nat × Dict V)}
    (h : List.Forall₂ (fun r₁ r₂ => Option.Rel (EventAlike hidden) (event₁ r₁.2) (event₂ r₂.2)) read₁ read₂)
    (parses : Bool) :
    eventsOf py audit env₁ table parses event₁ read₁ = eventsOf py audit env₂ table parses event₂ read₂ := by
  have hevents : (read₁.filterMap fun row => (event₁ row.2).map (resolved py audit env₂.context)) =
      read₂.filterMap fun row => (event₂ row.2).map (resolved py audit env₂.context) := by
    apply resolved_filterMap_eq
    refine h.imp fun r₁ r₂ hevent => ?_
    have htable₁ := htable r₁.2
    generalize event₁ r₁.2 = shown₁, event₂ r₂.2 = shown₂ at hevent htable₁
    cases hevent with
    | none => rfl
    | some halike =>
      rw [← htable₁ _ rfl] at hhidden
      exact congrArg some (halike.redacted_eq hhidden)
  unfold eventsOf
  rw [hstore, hcontext, h.length_eq, hevents]

end

section
variable [DecidableEq κ] {columns : Columns V} {audit : Settings} {c : κ} {env : Env κ V} {cond : Dict V}
  {t : Table κ (Dict V)}

/-- A statement waits or gets its rows, and writes nothing to the trail. -/
theorem statement_run (p : Nat → Dict V → Bool) (f : Dict V → Option (Dict V)) (waiting : List (Statement κ (Dict V)))
    (s : State κ V) :
    ∃ s', s'.log = s.log ∧ (statement c p f waiting s = (s', .error .waiting) ∨
      statement c p f waiting s =
        (s', .ok ((s.table.meanwhile c waiting).rows c (Table.again (s.table.found c p) p)))) := by
  have hget (s : State κ V) : (Program.get : Call κ V (State κ V)) s = (s, .ok s) := rfl
  have hothers : others c waiting s = ({s with table := s.table.meanwhile c waiting}, .ok ()) := rfl
  unfold statement
  rw [Program.bind_ok (hget s), Program.bind_ok hothers, Program.bind_ok (hget _)]
  split
  · exact ⟨{s with table := s.table.meanwhile c waiting}, rfl, .inl rfl⟩
  · exact ⟨{s with table := (s.table.meanwhile c waiting).modify c (Table.again (s.table.found c p) p) f}, rfl, .inr rfl⟩

variable (columns c env cond) in
/-- The write itself records nothing. -/
theorem write_run (f : Dict V → Option (Dict V)) (s : State κ V) :
    ∃ s', s'.log = s.log ∧ (write columns c env cond f s = (s', .error .waiting) ∨
      ∃ n, write columns c env cond f s = (s', .ok n)) := by
  have hothers : others c env.beforeWriting s = ({s with table := s.table.meanwhile c env.beforeWriting}, .ok ()) := rfl
  unfold write
  rw [Program.bind_ok hothers]
  obtain ⟨s', hlog, hwaits | hran⟩ := statement_run (c := c) (condition columns cond) f env.whileWriting
    {s with table := s.table.meanwhile c env.beforeWriting}
  · exact ⟨s', hlog, .inl (Program.bind_error hwaits)⟩
  · generalize Table.rows c _ _ = changed at hran
    rw [Program.bind_ok hran]
    exact ⟨{s' with changed := changed}, hlog, .inr ⟨changed.length, rfl⟩⟩

/-- Between the read and the records nothing is added to the trail. -/
theorem events_audited (f : Dict V → Option (Dict V)) (eventOf : Dict V → Option (AuditEvent V))
    (read : List (Nat × Dict V)) (s : State κ V)
    (hnone : s.events = [])
    (hdone : ((do
        let affected ← write columns c env cond f
        recordRows py audit env eventOf read
        pure affected : Call κ V Nat) s).2 ≠ .error .waiting) :
    ((do
        let affected ← write columns c env cond f
        recordRows py audit env eventOf read
        pure affected : Call κ V Nat) s).1.events =
      stored audit env.storeFails (read.filterMap fun row => (eventOf row.2).map (resolved py audit env.context)) := by
  obtain ⟨s', hlog, hwaits | ⟨n, hran⟩⟩ := write_run columns c env cond f s
  · rw [Program.bind_error hwaits] at hdone
    exact absurd rfl hdone
  · have hnone' : s'.events = [] := (congrArg (List.map Prod.snd) hlog).trans hnone
    have hevents := events_recordRows py audit env eventOf read s'
    rw [hnone', List.nil_append] at hevents
    rw [Program.bind_ok hran, ← hevents]
    rcases hrecord : recordRows py audit env eventOf read s' with ⟨s'', e | a⟩
    · rw [Program.bind_error hrecord]
    · rw [Program.bind_ok hrecord]
      rfl

/-- Where the write is refused, nothing is recorded. -/
theorem events_parsed (parses : Bool) (f : Dict V → Option (Dict V)) (eventOf : Dict V → Option (AuditEvent V))
    (read : List (Nat × Dict V)) (s : State κ V) (hnone : s.events = [])
    (hdone : ((do
        assertStatement parses
        let affected ← write columns c env cond f
        recordRows py audit env eventOf read
        pure affected : Call κ V Nat) s).2 ≠ .error .waiting) :
    ((do
        assertStatement parses
        let affected ← write columns c env cond f
        recordRows py audit env eventOf read
        pure affected : Call κ V Nat) s).1.events =
      if parses then
        stored audit env.storeFails (read.filterMap fun row => (eventOf row.2).map (resolved py audit env.context))
      else [] := by
  rw [parsed_run] at hdone ⊢
  cases parses with
  | false => exact hnone
  | true => exact events_audited f eventOf read s hnone hdone

/-- The read and its limit, before what `update` and `delete` do next. -/
theorem events_read {next : List (Nat × Dict V) → Call κ V Nat} {events : List (AuditEvent V)}
    (hnext : ∀ s, s.events = [] → (next (readRows columns c env cond t) s).2 ≠ .error .waiting →
      (next (readRows columns c env cond t) s).1.events = events)
    (hdone : ((do
        let found ← rows columns c env cond
        assertWithinLimit audit found.length
        next found : Call κ V Nat) (.start t)).2 ≠ .error .waiting) :
    ((do
        let found ← rows columns c env cond
        assertWithinLimit audit found.length
        next found : Call κ V Nat) (.start t)).1.events =
      if goesOn audit (readRows columns c env cond t).length then events else [] := by
  obtain ⟨s', hlog, hwaits | hran⟩ := statement_run (c := c) (condition columns cond) some env.whileReading (.start t)
  · rw [Program.bind_error (m := rows columns c env cond) hwaits] at hdone
    exact absurd rfl hdone
  · have hread : rows columns c env cond (.start t) = (s', .ok (readRows columns c env cond t)) := hran
    rw [Program.bind_ok hread] at hdone ⊢
    obtain ⟨s'', hlog', hlimit⟩ := assertWithinLimit_run audit (readRows columns c env cond t).length s'
    have hnone : s''.events = [] := by
      unfold State.events
      rw [hlog', hlog]
      rfl
    cases hgo : goesOn audit (readRows columns c env cond t).length with
    | true =>
      rw [hgo, if_pos rfl] at hlimit
      rw [Program.bind_ok hlimit] at hdone ⊢
      exact hnext s'' hnone hdone
    | false =>
      rw [hgo, if_neg Bool.false_ne_true] at hlimit
      rw [Program.bind_error hlimit]
      exact hnone

/-- An update writes the events of the rows that it read. -/
theorem events_update (req : Request V) (data : Dict V)
    (hdone : (update py columns audit c env req data cond (.start t)).2 ≠ .error .waiting) :
    (update py columns audit c env req data cond (.start t)).1.events =
      eventsOf py audit env req.table (columns.knows cond && (!cond.isEmpty && columns.sets data))
        (updatedEvent py audit req data) (readRows columns c env cond t) := by
  unfold update at hdone ⊢
  rw [named_run] at hdone ⊢
  unfold eventsOf
  split
  · next hname =>
    rw [if_pos hname, parsed_run] at hdone
    rw [hname, Bool.true_and, parsed_run]
    cases hknows : columns.knows cond with
    | false => simp [State.events, State.start]
    | true =>
      simp only [hknows, if_true] at hdone ⊢
      generalize (!cond.isEmpty && columns.sets data) = parses at hdone ⊢
      rw [events_read (fun s hs hwrite => events_parsed parses _ _ _ s hs hwrite) hdone]
      cases parses <;> simp
  · next hname => simp [hname, State.events, State.start]

/-- And so does a delete. -/
theorem events_delete (req : Request V)
    (hdone : (delete py columns audit c env req cond (.start t)).2 ≠ .error .waiting) :
    (delete py columns audit c env req cond (.start t)).1.events =
      eventsOf py audit env req.table (columns.knows cond && !cond.isEmpty) (deletedEvent py audit req)
        (readRows columns c env cond t) := by
  unfold delete at hdone ⊢
  rw [named_run] at hdone ⊢
  unfold eventsOf
  split
  · next hname =>
    rw [if_pos hname] at hdone
    rw [hname, Bool.true_and]
    cases hempty : cond.isEmpty with
    | true => simp [Program.raise, State.events, State.start]
    | false =>
      simp only [hempty, Bool.false_eq_true, if_false] at hdone ⊢
      rw [parsed_run] at hdone ⊢
      cases hknows : columns.knows cond with
      | false => simp [State.events, State.start]
      | true =>
        simp only [hknows, if_true] at hdone ⊢
        rw [events_read (fun s hs hwrite => events_audited _ _ _ s hs hwrite) hdone]
        simp
  · next hname => simp [hname, State.events, State.start]

/-- Whatever the mapping withholds of a table is redacted, and two calls that differ in it
alone write the same rows, or the same rows until a strict trail stops. -/
theorem withheld_not_written (hlower : Lowers py.lower) {exclude : List (String × List String)}
    (haudit : audit.exclude = (validatedExclude py exclude).entries) {schema : Option String} {name : String}
    (hschema : ∀ s ∈ schema, isIdentifier s.toList = true) (hname : isIdentifier name.toList = true)
    (hid : ¬ Withheld py exclude schema name audit.idKey) {req : Request V}
    (htable : req.table = qualifiedName schema name) {env₁ env₂ : Env κ V} (hstore : env₁.storeFails = env₂.storeFails)
    (hcontext : env₁.context = env₂.context) (json : Json V) (t₁ t₂ : Table κ (Dict V)) :
    (∀ column, Withheld py exclude schema name column → isExcluded py (excluded py audit req.table) column = true) ∧
    (∀ row₁ row₂ e₁ e₂, e₁.entityType = req.table → EventAlike (Withheld py exclude schema name) e₁ e₂ →
      written json (record py audit env₁ row₁ e₁ (.start t₁)).1 =
        written json (record py audit env₂ row₂ e₂ (.start t₂)).1) ∧
    (∀ create₁ create₂ entityId data₁ data₂, Alike (Withheld py exclude schema name) data₁ data₂ →
      (create₁ data₁).map (fun row => insertedId py entityId (row.get audit.idKey)) =
        (create₂ data₂).map (fun row => insertedId py entityId (row.get audit.idKey)) →
      written json (insert py audit create₁ c env₁ req entityId data₁ (.start t₁)).1 =
        written json (insert py audit create₂ c env₂ req entityId data₂ (.start t₂)).1) ∧
    (∀ data₁ data₂ cond₁ cond₂, Alike (Withheld py exclude schema name) data₁ data₂ →
      cond₁.isEmpty = cond₂.isEmpty → columns.knows cond₁ = columns.knows cond₂ →
      List.Forall₂ (fun r₁ r₂ => Alike (Withheld py exclude schema name) r₁.2 r₂.2 ∧
          ChangeAlike py (Withheld py exclude schema name) r₁.2 data₁ r₂.2 data₂)
        (readRows columns c env₁ cond₁ t₁) (readRows columns c env₂ cond₂ t₂) →
      (update py columns audit c env₁ req data₁ cond₁ (.start t₁)).2 ≠ .error .waiting →
      (update py columns audit c env₂ req data₂ cond₂ (.start t₂)).2 ≠ .error .waiting →
      written json (update py columns audit c env₁ req data₁ cond₁ (.start t₁)).1 =
        written json (update py columns audit c env₂ req data₂ cond₂ (.start t₂)).1) ∧
    (∀ cond₁ cond₂, cond₁.isEmpty = cond₂.isEmpty → columns.knows cond₁ = columns.knows cond₂ →
      List.Forall₂ (fun r₁ r₂ => Alike (Withheld py exclude schema name) r₁.2 r₂.2)
        (readRows columns c env₁ cond₁ t₁) (readRows columns c env₂ cond₂ t₂) →
      (delete py columns audit c env₁ req cond₁ (.start t₁)).2 ≠ .error .waiting →
      (delete py columns audit c env₂ req cond₂ (.start t₂)).2 ≠ .error .waiting →
      written json (delete py columns audit c env₁ req cond₁ (.start t₁)).1 =
        written json (delete py columns audit c env₂ req cond₂ (.start t₂)).1) := by
  have hhidden : ∀ column, Withheld py exclude schema name column →
      isExcluded py (excluded py audit req.table) column = true := by
    intro column hcolumn
    rw [htable]
    exact isExcluded_of_withheld hlower haudit hschema hname hcolumn
  -- The rows that are written depend on the events only as they are after redaction, and those of two such
  -- runs are alike.
  refine ⟨hhidden, ?_, ?_, ?_, ?_⟩
  · intro row₁ row₂ e₁ e₂ hentity halike
    rw [← hentity] at hhidden
    rw [written_eq, written_eq, events_record, events_record, hstore, hcontext]
    unfold resolved
    rw [halike.redacted_eq hhidden]
    rfl
  · intro create₁ create₂ entityId data₁ data₂ hdata hcreated
    rw [written_eq, written_eq, events_insert, events_insert]
    generalize create₁ data₁ = made₁, create₂ data₂ = made₂ at hcreated
    cases made₁ with
    | none =>
      cases made₂ with
      | none => rfl
      | some _ => cases hcreated
    | some row₁ =>
      cases made₂ with
      | none => cases hcreated
      | some row₂ =>
        have halike := inserted_alike req (Option.some.inj hcreated) hdata
        rw [Option.map_some, Option.map_some, hstore, hcontext]
        unfold resolved
        rw [halike.redacted_eq hhidden]
  · intro data₁ data₂ cond₁ cond₂ hdata hempty hknows hrows hdone₁ hdone₂
    rw [written_eq, written_eq, events_update req data₁ hdone₁, events_update req data₂ hdone₂, hempty, hknows,
      hdata.sets_eq]
    apply congrArg
    apply eventsOf_eq hstore hcontext hhidden
    · exact fun row e he => entityType_updated he
    · exact hrows.imp fun r₁ r₂ hr => updated_alike hid hr.1 hdata hr.2
  · intro cond₁ cond₂ hempty hknows hrows hdone₁ hdone₂
    rw [written_eq, written_eq, events_delete req hdone₁, events_delete req hdone₂, hempty, hknows]
    apply congrArg
    apply eventsOf_eq hstore hcontext hhidden
    · intro row e he
      cases he
      rfl
    · exact hrows.imp fun r₁ r₂ hr => deleted_alike hid hr

end

/-! ### Passwords of users -/

theorem toLower_toLower (c : Char) : c.toLower.toLower = c.toLower := by
  by_cases hascii : c.toNat < 128
  · have hall : ∀ n < 128, (Char.ofNat n).toLower.toLower = (Char.ofNat n).toLower := by decide
    have hc := hall c.toNat hascii
    rwa [Char.ofNat_toNat] at hc
  · have hsame : c.toLower = c := by
      unfold Char.toLower
      refine dif_neg ?_
      intro hupper
      exact hascii (Nat.lt_of_le_of_lt hupper.2 (by decide))
    rw [hsame, hsame]

/-- Texts, with letters of ASCII only in both cases. -/
def lowered : Values String := {texts with lower := fun s => .ofList (s.toList.map Char.toLower)}

theorem lowered_lowers : Lowers lowered.lower where
  idem s := by
    simp only [lowered, String.toList_ofList, List.map_map]
    congr 2
    funext c
    exact toLower_toLower c
  ascii s _ := rfl

/-- Upper case in the mapping, as somebody may have typed it. -/
def noPasswords : List (String × List String) := [("Users", ["Password"])]

/-- The constructor has lowered it. -/
def secretive : Settings := ⟨true, 1000, "id", (validatedExclude lowered noPasswords).entries⟩

def user (password : String) : Dict String := [("id", some "1"), ("password", some password)]

def userColumns : Columns String := {textColumns with names := ["id", "password"]}

def users (password : String) : Table Nat (Dict String) := ((Table.empty.insert 1 (user password)).2).commit 1

/-- Nobody else is there. -/
def alone : Env Nat String := meanwhileOnly []

/-- Session 0 gives user 1 a new password. -/
def newPassword (old new : String) : State Nat String × Except Fault Nat :=
  update lowered userColumns secretive 0 alone ⟨"app.USERS", "hr", [], none⟩ [("password", some new)]
    [("id", some "1")] (.start (users old))

def shownAsText : Json String := ⟨fun d => some (toString (d.map fun kv => (kv.1, kv.2.getD ""))), fun _ => none⟩

/-- Any spelling of the column is withheld. -/
theorem password_withheld {column : String} (h : lowered.lower column = "password") :
    Withheld lowered noPasswords (some "app") "USERS" column :=
  ⟨none, "Users", ["Password"], List.mem_singleton_self _, by simp, rfl, rfl, .inl rfl, "Password",
    List.mem_singleton_self _, h⟩

theorem new_password_not_written :
    written shownAsText (newPassword "tulip" "rose").1 = written shownAsText (newPassword "oak" "elm").1 ∧
      (written shownAsText (newPassword "tulip" "rose").1).length = 1 := by
  have hid : ¬ Withheld lowered noPasswords (some "app") "USERS" secretive.idKey := by
    intro h
    obtain ⟨_, _, columns, hentry, -, -, -, -, c, hc, hlower⟩ := h
    rw [noPasswords, List.mem_singleton, Prod.mk.injEq] at hentry
    rw [hentry.2, List.mem_singleton] at hc
    rw [hc] at hlower
    revert hlower
    decide
  have hrows : List.Forall₂ (fun r₁ r₂ => Alike (Withheld lowered noPasswords (some "app") "USERS") r₁.2 r₂.2 ∧
        ChangeAlike lowered (Withheld lowered noPasswords (some "app") "USERS") r₁.2 [("password", some "rose")] r₂.2
          [("password", some "elm")])
      [(1, user "tulip")] [(1, user "oak")] := by
    refine .cons ⟨.cons ⟨rfl, fun _ => rfl⟩ (.cons ⟨rfl, ?_⟩ .nil), .cons (fun _ => rfl) .nil⟩ .nil
    exact fun hshown => absurd (password_withheld rfl) hshown
  obtain ⟨-, -, -, hupdate, -⟩ := @withheld_not_written _ _ lowered _ userColumns secretive 0 lowered_lowers
    noPasswords rfl (some "app") "USERS" (by simp; decide) rfl hid ⟨"app.USERS", "hr", [], none⟩ rfl alone alone
    rfl rfl shownAsText (users "tulip") (users "oak")
  refine ⟨hupdate _ _ _ _ ?_ rfl rfl hrows ?_ ?_, rfl⟩
  · exact .cons ⟨rfl, fun hshown => absurd (password_withheld rfl) hshown⟩ .nil
  · intro hwaits
    cases hwaits
  · intro hwaits
    cases hwaits

end PyAppRunner.Audit
