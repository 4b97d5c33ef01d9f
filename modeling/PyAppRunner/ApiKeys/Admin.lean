import PyAppRunner.Base.Text
import PyAppRunner.Sql.RowTransactions

/-! Administering the keys: `update`, `revoke`, and the uses that are counted meanwhile.

`update` and `revoke` read their key `FOR UPDATE` and write it back by id; a use is one
`UPDATE`. They find the row by its id or its prefix, which nothing changes, so any
interleaving of them comes to the committed ones in the order of their commits.

What one `update` does by itself is another matter: an ability that is added and not
there yet is appended as often as it was named, because the list is only looked at as
it was before (`granted_applied_iff`). -/
namespace PyAppRunner.ApiKeys
open Base Sql

/-- A row of the key table, less what neither command reads or writes. Times are those of the
transaction (`now()`). -/
structure KeyRow where
  keyPrefix : String
  name : String
  abilities : List String
  allowedIps : Option (List String)
  expiresAt : Option Int
  userId : Option Int
  lastUsedAt : Option Int
  totalUses : Nat
  updatedAt : Int
  disabledAt : Option Int
deriving DecidableEq

/-! ### The commands -/

/-- How a command names its key: by the id, or by the stem. -/
inductive Where where
  | id (n : Nat)
  | keyPrefix (value : String)
deriving DecidableEq

/-- `WHERE id = …` or `WHERE key_prefix = …`. -/
def Where.finds : Where → Nat → String → Bool
  | .id n, i, _ => i = n
  | .keyPrefix value, _, found => found = value

/-- `int` of one decimal digit. -/
def digitValue (c : Char) : Nat :=
  ((Text.decimalZeros.find? fun start => start ≤ c.toNat && c.toNat < start + 10).map (c.toNat - ·)).getD 0

/-- `_where_ref`: of a pasted key only the prefix is used. A digit that is no decimal one makes
`int` raise, before any statement. -/
def whereRef (ref : String) : Where :=
  let ref := (Text.strip ref.toList).takeWhile (· ≠ '.')
  if ref ≠ [] ∧ ref.all Text.isDecimal then .id (ref.foldl (fun n c => 10 * n + digitValue c) 0)
  else .keyPrefix (String.ofList ref)

/-- What `update` changes. `none` leaves a column alone; `anyIp` and `no…` set it to NULL. -/
structure Update where
  name : Option String
  abilities : Option (List String)
  addAbilities : Option (List String)
  removeAbilities : Option (List String)
  allowedIps : Option (List String)
  anyIp : Bool
  expiresAt : Option Int
  noExpiry : Bool
  userId : Option Int
  noUser : Bool
deriving DecidableEq

/-- What the `UPDATE` statement sets. -/
inductive Assignment where
  | updatedAt (value : Int)
  | name (value : String)
  | abilities (value : List String)
  | allowedIps (value : Option (List String))
  | expiresAt (value : Option Int)
  | userId (value : Option Int)
deriving DecidableEq

/-- One `column = value` of an `UPDATE`. -/
def Assignment.set (r : KeyRow) : Assignment → KeyRow
  | .updatedAt value => {r with updatedAt := value}
  | .name value => {r with name := value}
  | .abilities value => {r with abilities := value}
  | .allowedIps value => {r with allowedIps := value}
  | .expiresAt value => {r with expiresAt := value}
  | .userId value => {r with userId := value}

namespace Update
variable (change : Update)

/-- The list that is added to: the one given, or the current one. -/
def base (current : List String) : List String := change.abilities.getD current

/-- `--add-ability`. -/
def added : List String := change.addAbilities.getD []

/-- `--remove-ability`. -/
def removed : List String := change.removeAbilities.getD []

/-- The command says something about the abilities. -/
def asksAbilities : Bool := change.abilities.isSome || !change.added.isEmpty || !change.removed.isEmpty

def newAbilities (current : List String) : List String :=
  (change.base current ++ change.added.filter (· ∉ change.base current)).filter (· ∉ change.removed)

/-- A flag that sets NULL, before a value. -/
def assign {α : Type} (null : Bool) (value : Option α) (column : Option α → Assignment) : List Assignment :=
  if null then [column none] else value.toList.map fun v => column (some v)

/-- The `SET` list of an update, `updated_at` first. -/
def assignments (now : Int) (current : List String) : List Assignment :=
  [.updatedAt now] ++ change.name.toList.map .name ++
    (if change.asksAbilities then [.abilities (change.newAbilities current)] else []) ++
    assign change.anyIp change.allowedIps .allowedIps ++
    assign change.noExpiry change.expiresAt .expiresAt ++
    assign change.noUser change.userId .userId

/-- The row, from the abilities that were read. -/
def applied (now : Int) (current : List String) (r : KeyRow) : KeyRow :=
  (change.assignments now current).foldl Assignment.set r

end Update

theorem keyPrefix_foldl (assignments : List Assignment) (r : KeyRow) :
    (assignments.foldl Assignment.set r).keyPrefix = r.keyPrefix := by
  induction assignments generalizing r with
  | nil => rfl
  | cons a rest ih =>
    rw [List.foldl_cons, ih]
    cases a <;> rfl

/-- The transactions on the table of the keys. -/
inductive KeyTx where
  | update (key : Where) (change : Update) (now : Int)
  | revoke (key : Where) (now : Int)
  | useKey (id : Nat) (now : Int)
deriving DecidableEq

/-- `cmd_update`, `cmd_revoke` and `use_key`. A key that is revoked already is left alone. -/
def KeyTx.prog : KeyTx → RowTx KeyRow.keyPrefix
  | .update key change now =>
    { finds := key.finds
      selects := true
      skips := fun _ => false
      write := fun read r => change.applied now read.abilities r
      keeps := fun _ r => keyPrefix_foldl _ r }
  | .revoke key now =>
    { finds := key.finds
      selects := true
      skips := fun r => r.disabledAt.isSome
      write := fun _ r => {r with disabledAt := some now, updatedAt := now}
      keeps := fun _ _ => rfl }
  | .useKey id now =>
    { finds := (Where.id id).finds
      selects := false
      skips := fun _ => false
      write := fun _ r => {r with lastUsedAt := some now, totalUses := r.totalUses + 1}
      keeps := fun _ _ => rfl }

/-! ### What an update is asked for -/

/-- The row after an update, as it was asked for: what is given or there, and what is added,
less what is removed, nothing of it doubled; no other column touched. -/
structure Update.Granted (change : Update) (now : Int) (r r' : KeyRow) : Prop where
  abilities : ∀ a, a ∈ r'.abilities ↔ (a ∈ change.base r.abilities ∨ a ∈ change.added) ∧ a ∉ change.removed
  undoubled : ∀ a, r'.abilities.count a ≤ max 1 ((change.base r.abilities).count a)
  columns : r' = {r with
    name := change.name.getD r.name
    abilities := r'.abilities
    allowedIps := if change.anyIp then none else change.allowedIps <|> r.allowedIps
    expiresAt := if change.noExpiry then none else change.expiresAt <|> r.expiresAt
    userId := if change.noUser then none else change.userId <|> r.userId
    updatedAt := now}

/-- No ability is named twice to be added that is new and stays. -/
def Update.AddsOnce (change : Update) (current : List String) : Prop :=
  (change.added.filter fun a => a ∉ change.base current ∧ a ∉ change.removed).Nodup

instance (change : Update) (current : List String) : Decidable (change.AddsOnce current) :=
  inferInstanceAs (Decidable (List.Nodup _))

namespace Update
variable (change : Update)

theorem newAbilities_of_unasked (h : change.asksAbilities = false) (current : List String) :
    change.newAbilities current = current := by
  simp only [asksAbilities, Bool.or_eq_false_iff, Bool.not_eq_false', List.isEmpty_iff, Option.isSome_eq_false_iff,
    Option.isNone_iff_eq_none] at h
  obtain ⟨⟨hgiven, hadded⟩, hremoved⟩ := h
  simp [newAbilities, base, hgiven, hadded, hremoved]

theorem foldl_name (r : KeyRow) :
    (change.name.toList.map Assignment.name).foldl Assignment.set r = {r with name := change.name.getD r.name} := by
  cases change.name <;> rfl

theorem foldl_abilities {r : KeyRow} {current : List String} (h : r.abilities = current) :
    (if change.asksAbilities then [.abilities (change.newAbilities current)] else []).foldl Assignment.set r =
      {r with abilities := change.newAbilities current} := by
  split
  · rfl
  · rename_i hasks
    rw [change.newAbilities_of_unasked (Bool.eq_false_of_not_eq_true hasks), ← h]
    rfl

/-- A column is set to NULL, to a value, or not at all. -/
theorem foldl_assign {α : Type} (column : Option α → Assignment) (null : Bool) (value : Option α) {r : KeyRow}
    {old : Option α} (hold : Assignment.set r (column old) = r) :
    (assign null value column).foldl Assignment.set r =
      Assignment.set r (column (if null then none else value <|> old)) := by
  unfold assign
  cases null with
  | true => rfl
  | false =>
    cases value with
    | none => exact hold.symm
    | some v => rfl

theorem applied_eq (now : Int) (r : KeyRow) : change.applied now r.abilities r = {r with
    name := change.name.getD r.name
    abilities := change.newAbilities r.abilities
    allowedIps := if change.anyIp then none else change.allowedIps <|> r.allowedIps
    expiresAt := if change.noExpiry then none else change.expiresAt <|> r.expiresAt
    userId := if change.noUser then none else change.userId <|> r.userId
    updatedAt := now} := by
  have hfirst : [Assignment.updatedAt now].foldl Assignment.set r = {r with updatedAt := now} := rfl
  unfold applied assignments
  simp only [List.foldl_append]
  rw [hfirst, foldl_name, foldl_abilities change rfl, foldl_assign .allowedIps _ _ rfl,
    foldl_assign .expiresAt _ _ rfl, foldl_assign .userId _ _ rfl]
  rfl

theorem mem_newAbilities (current : List String) (a : String) : a ∈ change.newAbilities current ↔
    (a ∈ change.base current ∨ a ∈ change.added) ∧ a ∉ change.removed := by
  simp only [newAbilities, List.mem_filter, List.mem_append, decide_eq_true_eq]
  tauto

theorem count_newAbilities (current : List String) (a : String) : (change.newAbilities current).count a =
    (if a ∈ change.removed then 0 else (change.base current).count a) +
      (change.added.filter fun a => a ∉ change.base current ∧ a ∉ change.removed).count a := by
  have hsplit : (change.added.filter (· ∉ change.base current)).filter (· ∉ change.removed) =
      change.added.filter fun a => a ∉ change.base current ∧ a ∉ change.removed := by
    rw [List.filter_filter]
    congr 1
    funext a
    simp [Bool.and_comm]
  rw [newAbilities, List.filter_append, List.count_append, hsplit]
  congr 1
  split
  · rename_i hremoved
    exact List.count_eq_zero.mpr (by simp [hremoved])
  · rename_i hkept
    exact List.count_filter (by simp [hkept])

/-- An update comes out as it was asked for exactly when nothing new is named twice. -/
theorem granted_applied_iff (now : Int) (r : KeyRow) :
    change.Granted now r (change.applied now r.abilities r) ↔ change.AddsOnce r.abilities := by
  rw [applied_eq]
  constructor
  · intro h
    rw [AddsOnce, List.nodup_iff_count_le_one]
    intro a
    by_cases hnew : a ∉ change.base r.abilities ∧ a ∉ change.removed
    · have hcount := h.undoubled a
      rw [show List.count a _ = _ from change.count_newAbilities r.abilities a, if_neg hnew.2,
        List.count_eq_zero.mpr hnew.1] at hcount
      omega
    · rw [List.count_eq_zero.mpr]
      · exact Nat.zero_le 1
      · intro hmem
        exact hnew (of_decide_eq_true (List.mem_filter.mp hmem).2)
  · intro h
    refine ⟨change.mem_newAbilities r.abilities, ?_, rfl⟩
    intro a
    have honce := List.nodup_iff_count_le_one.mp h a
    rw [show List.count a _ = _ from change.count_newAbilities r.abilities a]
    by_cases hbase : a ∈ change.base r.abilities
    · -- What is there already is not among the new ones.
      rw [List.count_eq_zero.mpr (show a ∉ change.added.filter _ by simp [hbase])]
      split <;> omega
    · rw [List.count_eq_zero.mpr hbase]
      split <;> omega

end Update

/-! ### The committed transactions, one after another -/

section Serial
variable {κ : Type} [DecidableEq κ]

/-- An update gives what it was asked for. -/
def Meets (tx : KeyTx) (r : KeyRow) : Prop :=
  match tx with
  | .update _ change now => change.Granted now r (tx.prog.own r)
  | _ => True

/-- No update adds a new ability twice to the key it has read. -/
def KeyTx.AddsOnce (tx : KeyTx) (r : KeyRow) : Prop :=
  match tx with
  | .update _ change _ => change.AddsOnce r.abilities
  | _ => True

/-- A use of that row. -/
def KeyTx.uses (j : Nat) : KeyTx → Bool
  | .useKey id _ => id = j
  | _ => false

/-- The uses of a key among the committed transactions. -/
def usesOf (j : Nat) (log : List (κ × KeyTx)) : Nat := (log.filter fun entry => entry.2.uses j).length

theorem meets_iff (tx : KeyTx) (r : KeyRow) : Meets tx r ↔ tx.AddsOnce r := by
  cases tx with
  | update key change now => exact change.granted_applied_iff now r
  | _ => exact Iff.rfl

/-- A row after one transaction: a use is counted, and what is revoked stays so. -/
theorem alone_row (tx : KeyTx) (ids : List Nat) {m : Rows KeyRow} {j : Nat} {r : KeyRow} (hr : m j = some r) :
    ∃ r', tx.prog.alone ids m j = some r' ∧ r'.totalUses = r.totalUses + (if tx.uses j then 1 else 0) ∧
      ∀ time, r.disabledAt = some time → r'.disabledAt = some time := by
  unfold RowTx.alone
  rw [hr, Option.map_some]
  cases tx with
  | update key change now =>
    split
    · refine ⟨_, rfl, ?_, ?_⟩
      · show (change.applied now r.abilities r).totalUses = _
        rw [change.applied_eq]
        rfl
      · intro time htime
        show (change.applied now r.abilities r).disabledAt = _
        rw [change.applied_eq]
        exact htime
    · exact ⟨r, rfl, rfl, fun _ htime => htime⟩
  | revoke key now =>
    split
    · by_cases hrevoked : r.disabledAt.isSome = true
      · have hown : (KeyTx.revoke key now).prog.own r = r := if_pos hrevoked
        rw [hown]
        exact ⟨r, rfl, rfl, fun _ htime => htime⟩
      · have hown : (KeyTx.revoke key now).prog.own r = {r with disabledAt := some now, updatedAt := now} := if_neg hrevoked
        rw [hown]
        refine ⟨_, rfl, rfl, ?_⟩
        intro time htime
        rw [htime] at hrevoked
        exact absurd rfl hrevoked
    · exact ⟨r, rfl, rfl, fun _ htime => htime⟩
  | useKey id now =>
    have hconcerns : (KeyTx.useKey id now).prog.concerns ids m j = (KeyTx.useKey id now).uses j := by
      show (m j).any _ = _
      rw [hr]
      exact decide_eq_decide.mpr eq_comm
    rw [hconcerns]
    split
    · exact ⟨_, rfl, rfl, fun _ htime => htime⟩
    · exact ⟨r, rfl, rfl, fun _ htime => htime⟩

omit [DecidableEq κ] in
theorem serially_row (ids : List Nat) (log : List (κ × KeyTx)) {m : Rows KeyRow} {j : Nat} {r : KeyRow} (hr : m j = some r) :
    ∃ r', Server.serially KeyTx.prog ids m log j = some r' ∧ r'.totalUses = r.totalUses + usesOf j log ∧
      ∀ time, r.disabledAt = some time → r'.disabledAt = some time := by
  induction log generalizing m r with
  | nil => exact ⟨r, hr, rfl, fun _ htime => htime⟩
  | cons entry rest ih =>
    obtain ⟨r₁, hr₁, huses₁, hkept₁⟩ := alone_row entry.2 ids hr
    obtain ⟨r₂, hr₂, huses₂, hkept₂⟩ := ih hr₁
    refine ⟨r₂, hr₂, ?_, fun time htime => hkept₂ time (hkept₁ time htime)⟩
    rw [huses₂, huses₁, usesOf, usesOf, List.filter_cons]
    split
    · rw [List.length_cons]
      omega
    · omega

/-- What comes of an interleaving. -/
def keysAfter (t₀ : Table κ KeyRow) (inputs : List (Server.Input κ KeyTx)) : Server κ KeyRow KeyTx :=
  (Server.machine KeyTx.prog).run (.opened t₀) inputs

/-- The rows are those of the committed transactions one after another, in an order in which
every session began them; every use is counted. -/
structure Administered (t₀ : Table κ KeyRow) (s : Server κ KeyRow KeyTx) : Prop where
  serial : s.committed = Server.serially KeyTx.prog t₀.ids t₀.committed s.log
  ordered : ∀ c, (Server.ofSession c s.log).Sublist (Server.ofSession c s.begun)
  counted : ∀ j r, t₀.committed j = some r →
    ∃ r', s.committed j = some r' ∧ r'.totalUses = r.totalUses + usesOf j s.log

/-- **Whatever the interleaving, the keys are as if the committed transactions had run one after
another**, a key once revoked stays revoked as it was, and every update gives what it was
asked for, in every run in which none adds a new ability twice to the list it has read; an
update that does is the only one that does not. -/
theorem administration_serial (t₀ : Table κ KeyRow) (hfree : ∀ i, (t₀.slot i).held = none) :
    (∀ inputs, Administered t₀ (keysAfter t₀ inputs)) ∧
    (∀ inputs rest j r time, (keysAfter t₀ inputs).committed j = some r →
      r.disabledAt = some time → ∃ r', (keysAfter t₀ (inputs ++ rest)).committed j = some r' ∧
        r'.disabledAt = some time) ∧
    (∀ inputs, (Server.machine KeyTx.prog).Admissible (Server.Reads KeyTx.AddsOnce) (.opened t₀) inputs →
      Server.EachMeets KeyTx.prog Meets t₀.ids t₀.committed (keysAfter t₀ inputs).log) ∧
    ∀ tx r, Meets tx r ↔ tx.AddsOnce r := by
  have hserial : ∀ inputs, Server.Serial KeyTx.prog (fun _ _ => True) t₀ (keysAfter t₀ inputs) :=
    fun inputs => (Server.run_serial hfree inputs).1
  refine ⟨?_, ?_, ?_, meets_iff⟩
  · intro inputs
    refine ⟨(hserial inputs).rows, fun c => ((Server.run_serial hfree inputs).2 c).ended, ?_⟩
    intro j r hr
    rw [(hserial inputs).rows]
    obtain ⟨r', hr', huses, -⟩ := serially_row t₀.ids _ hr
    exact ⟨r', hr', huses⟩
  · intro inputs rest j r time hr htime
    obtain ⟨more, hmore⟩ := Server.log_run rest (keysAfter t₀ inputs)
    rw [(hserial inputs).rows] at hr
    rw [(hserial (inputs ++ rest)).rows, keysAfter, Machine.run_append, ← keysAfter, ← hmore, Server.serially, List.foldl_append]
    obtain ⟨r', hr', -, hkept⟩ := serially_row t₀.ids more hr
    exact ⟨r', hr', hkept time htime⟩
  · intro inputs hrule
    have hmeets : (Server.machine KeyTx.prog).Admissible (Server.Reads Meets) (.opened t₀) inputs :=
      hrule.imp (Server.Reads.imp fun tx r h => (meets_iff tx r).mpr h)
    refine (Machine.invariant (Server.step_serial ?_) (Server.serial_opened hfree) hmeets).met
    intro tx r hskip
    cases tx with
    | update key change now => obtain hs | hs := hskip <;> cases hs
    | _ => trivial

end Serial

/-! ### Two runs -/

def reader : KeyRow := ⟨"ak1", "reports", [], none, none, none, none, 7, 0, none⟩

/-- The table with that key, under the id 1. -/
def oneKey : Table Nat KeyRow := (((Table.empty : Table Nat KeyRow).insert 0 reader).2).commit 0

def adding (abilities : List String) : Update := ⟨none, none, some abilities, none, none, false, none, false, none, false⟩

theorem oneKey_free (i : Nat) : (oneKey.slot i).held = none := by
  by_cases hi : i = 1
  · rw [hi]
    rfl
  · have hblank : oneKey.slot i = Slot.blank.commit 0 := congrArg (Slot.commit 0) (Function.update_of_ne hi _ _)
    rw [hblank]
    rfl

/-- An ability that is named twice is granted twice. -/
theorem named_twice_added_twice :
    (keysAfter oneKey [.start 0 (.update (whereRef "1") (adding ["orders:read", "orders:read"]) 5), .next 0, .next 0,
      .commit 0]).committed 1 = some {reader with abilities := ["orders:read", "orders:read"], updatedAt := 5} ∧
    ¬ (adding ["orders:read", "orders:read"]).Granted 5 reader
      {reader with abilities := ["orders:read", "orders:read"], updatedAt := 5} := by
  refine ⟨by decide +kernel, ?_⟩
  intro h
  exact absurd (h.undoubled "orders:read") (by decide)

/-- An update, a revoke and a use meet at one key; the two that come later wait. -/
def raced : List (Server.Input Nat KeyTx) :=
  [.start 0 (.update (whereRef "1") (adding ["orders:read"]) 5), .start 1 (.revoke (whereRef "ak1.secret") 6),
    .start 2 (.useKey 1 7), .next 0, .next 1, .next 2, .next 0, .commit 0, .next 2, .commit 2, .next 1, .next 1, .commit 1]

theorem raced_keys_served :
    (keysAfter oneKey raced).committed 1 = some
      {reader with abilities := ["orders:read"], lastUsedAt := some 7, totalUses := 8, updatedAt := 6, disabledAt := some 6} ∧
    Server.EachMeets KeyTx.prog Meets oneKey.ids oneKey.committed (keysAfter oneKey raced).log := by
  refine ⟨by decide +kernel, (administration_serial oneKey oneKey_free).2.2.1 raced ?_⟩
  refine ⟨trivial, trivial, trivial, trivial, trivial, trivial, ?_, trivial, trivial, trivial, trivial, trivial, trivial, trivial⟩
  show (adding ["orders:read"]).AddsOnce []
  decide

end PyAppRunner.ApiKeys
