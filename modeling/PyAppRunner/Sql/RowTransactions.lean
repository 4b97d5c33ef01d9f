import PyAppRunner.Base.Run
import PyAppRunner.Sql.Table

/-! Transactions that read one row for update and write it.

A transaction finds its row by columns that no transaction changes, reads it with
`SELECT … FOR UPDATE` (or not), writes it back from what it has read, and commits. Sessions
interleave statement by statement, wait for each other's rows, and may abort at any
point. The row is held from the read to the commit, so what is written at the commit
is what the transaction would have written alone, from the rows committed there: the
committed rows are those of the committed transactions, one after another in the order of
their commits (`rows_eq`). -/
namespace PyAppRunner.Sql
open Base

/-- A transaction, as far as the table sees it. `key` is the part of a row that is looked at
to find it. -/
structure RowTx {ρ α : Type} (key : ρ → α) where
  finds : Nat → α → Bool
  /-- The row is read `FOR UPDATE` first, and by its id then. -/
  selects : Bool
  /-- Having read this row, the transaction ends. -/
  skips : ρ → Bool
  /-- The row as it is written, from the row read and the row there. -/
  write : ρ → ρ → ρ
  keeps : ∀ read r, key (write read r) = key r

/-- What is committed, by id. -/
abbrev Rows (ρ : Type) := Nat → Option ρ

/-- The rows as others see them. -/
def Table.committed {κ ρ : Type} (t : Table κ ρ) : Rows ρ := fun j => (t.slot j).committed

namespace RowTx
variable {ρ α : Type} {key : ρ → α} (tx : RowTx key) (ids : List Nat) (m : Rows ρ)

/-- The row that a transaction is about. -/
def found (i : Nat) (r : ρ) : Bool := tx.finds i (key r)

/-- The rows it is about: the first one found where it reads first, and all of them else. -/
def concerns (j : Nat) : Bool :=
  if tx.selects then ids.find? (fun i => (m i).any (tx.found i)) = some j else (m j).any (tx.found j)

/-- What it makes of such a row. -/
def own (r : ρ) : ρ := if tx.selects && tx.skips r then r else tx.write r r

/-- The transaction by itself. -/
def alone : Rows ρ := fun j => if tx.concerns ids m j then (m j).map tx.own else m j

theorem key_own (r : ρ) : key (tx.own r) = key r := by
  unfold own
  split
  · rfl
  · exact tx.keeps r r

/-- The same keys under the same ids. -/
def SameKeys (key : ρ → α) (m m' : Rows ρ) : Prop := ∀ j, (m' j).map key = (m j).map key

variable {tx ids m} {m' : Rows ρ}

theorem any_found (h : SameKeys key m m') (j : Nat) : (m' j).any (tx.found j) = (m j).any (tx.found j) := by
  have hj := h j
  cases hm : m j with
  | none =>
    rw [hm] at hj
    rw [Option.map_eq_none_iff.mp hj]
  | some r =>
    rw [hm] at hj
    obtain ⟨r', hr', hkey⟩ := Option.map_eq_some_iff.mp hj
    rw [hr']
    show tx.finds j (key r') = tx.finds j (key r)
    rw [hkey]

/-- Which rows it is about depends on the keys alone. -/
theorem concerns_congr (h : SameKeys key m m') (j : Nat) : tx.concerns ids m' j = tx.concerns ids m j := by
  unfold concerns
  rw [any_found h j]
  simp only [any_found h]

theorem sameKeys_alone : SameKeys key m (tx.alone ids m) := by
  intro j
  unfold alone
  split
  · rw [Option.map_map]
    congr 1
    funext r
    exact tx.key_own r
  · rfl

theorem SameKeys.refl : SameKeys key m m := fun _ => rfl

end RowTx

/-! ### Sessions -/

/-- How far a session has come with its transaction. -/
inductive Session (ρ τ : Type) where
  | idle
  | begun (tx : τ)
  /-- The row was read, under this id. -/
  | read (tx : τ) (i : Nat) (r : ρ)
  /-- Only the commit is left. -/
  | done (tx : τ)

/-- The transaction a session is in. -/
def Session.current {ρ τ : Type} : Session ρ τ → Option τ
  | .idle => none
  | .begun tx | .read tx _ _ | .done tx => some tx

/-- The table with its sessions. `begun` and `log` are history: the transactions begun, and
those committed, in order. -/
structure Server (κ ρ τ : Type) where
  table : Table κ ρ
  session : κ → Session ρ τ
  begun : List (κ × τ)
  log : List (κ × τ)

namespace Server
variable {κ ρ α τ : Type} [DecidableEq κ] {key : ρ → α} (prog : τ → RowTx key)

/-- A session starts a transaction, goes on with it, or ends it. -/
inductive Input (κ τ : Type) where
  | start (c : κ) (tx : τ)
  /-- The session's next statement. One that has to wait leaves everything as it is. -/
  | next (c : κ)
  | commit (c : κ)
  | abort (c : κ)

/-- The rows as others see them. -/
def committed (s : Server κ ρ τ) : Rows ρ := s.table.committed

/-- A session goes on, and the table with it. -/
def put (c : κ) (ses : Session ρ τ) (table : Table κ ρ) (s : Server κ ρ τ) : Server κ ρ τ :=
  {s with table := table, session := fun d => if d = c then ses else s.session d}

/-- After `SELECT … FOR UPDATE`. -/
def afterRead (tx : τ) : Option (Nat × ρ) → Session ρ τ
  | none => .done tx
  | some (i, r) => if (prog tx).skips r then .done tx else .read tx i r

/-- The first statement of a transaction. -/
def first (c : κ) (tx : τ) (s : Server κ ρ τ) : Server κ ρ τ :=
  if s.table.blocked c (prog tx).found then s
  else if (prog tx).selects then
    s.put c (afterRead prog tx (s.table.rows c (prog tx).found).head?) (s.table.lock c (prog tx).found)
  else s.put c (.done tx) (s.table.modify c (prog tx).found fun r => some ((prog tx).write r r))

/-- `UPDATE … WHERE id = i`. -/
def second (c : κ) (tx : τ) (i : Nat) (read : ρ) (s : Server κ ρ τ) : Server κ ρ τ :=
  if s.table.blocked c (fun j _ => j = i) then s
  else s.put c (.done tx) (s.table.modify c (fun j _ => j = i) fun r => some ((prog tx).write read r))

/-- One statement of one session. -/
def step : Input κ τ → Server κ ρ τ → Server κ ρ τ
  | .start c tx, s =>
    match s.session c with
    | .idle => {s.put c (.begun tx) s.table with begun := s.begun ++ [(c, tx)]}
    | _ => s
  | .next c, s =>
    match s.session c with
    | .begun tx => first prog c tx s
    | .read tx i r => second prog c tx i r s
    | _ => s
  | .commit c, s =>
    match s.session c with
    | .done tx => {s.put c .idle (s.table.commit c) with log := s.log ++ [(c, tx)]}
    | _ => s
  | .abort c, s => s.put c .idle (s.table.rollback c)

/-- Any number of sessions on one table. -/
def machine : Machine (Server κ ρ τ) (Input κ τ) := ⟨step prog⟩

/-- Nobody has begun anything. -/
def opened (table : Table κ ρ) : Server κ ρ τ := ⟨table, fun _ => .idle, [], []⟩

/-- The transactions one after another. -/
def serially (ids : List Nat) (m : Rows ρ) (log : List (κ × τ)) : Rows ρ :=
  log.foldl (fun m entry => (prog entry.2).alone ids m) m

/-- In that order, every transaction meets `P` at the rows it is about. -/
def EachMeets (P : τ → ρ → Prop) (ids : List Nat) : Rows ρ → List (κ × τ) → Prop
  | _, [] => True
  | m, (_, tx) :: rest =>
    (∀ j r, (prog tx).concerns ids m j = true → m j = some r → P tx r) ∧ EachMeets P ids ((prog tx).alone ids m) rest

/-! ### What a session has -/

variable {P : τ → ρ → Prop} {c d : κ} {t t' : Table κ ρ} {tx : τ} {i j : Nat} {r : ρ}

/-- The row was read and is held, with any other row found, as it is committed. -/
structure Reading (c : κ) (tx : τ) (i : Nat) (r : ρ) (t : Table κ ρ) : Prop where
  selects : (prog tx).selects = true
  writes : (prog tx).skips r = false
  concerned : (prog tx).concerns t.ids t.committed i = true
  held : (t.slot i).held = some (c, some r)
  same : ∀ j v, (t.slot j).held = some (c, v) → v = t.committed j

/-- Every row the transaction is about is held, in the version it would make of it alone. -/
structure Written (P : τ → ρ → Prop) (c : κ) (tx : τ) (t : Table κ ρ) : Prop where
  versions : ∀ j v, (t.slot j).held = some (c, v) → v = (prog tx).alone t.ids t.committed j
  covered : ∀ j, (prog tx).concerns t.ids t.committed j = true → ∃ v, (t.slot j).held = some (c, v)
  met : ∀ j r, (prog tx).concerns t.ids t.committed j = true → t.committed j = some r → P tx r

/-- What a session holds at each of its statements. -/
def Has (P : τ → ρ → Prop) (c : κ) (t : Table κ ρ) : Session ρ τ → Prop
  | .idle | .begun _ => t.HoldsNone c
  | .read tx i r => Reading prog c tx i r t
  | .done tx => Written prog P c tx t

variable {prog}

/-- What another session does to its own rows takes nothing away. -/
theorem has_of_keepsOthers {ses : Session ρ τ} (hcd : c ≠ d) (hkeeps : t.KeepsOthers d t') (hseq : t'.seq = t.seq)
    (hkeys : RowTx.SameKeys key t.committed t'.committed) (h : Has prog P c t ses) : Has prog P c t' ses := by
  have hids : t'.ids = t.ids := by rw [Table.ids, Table.ids, hseq]
  have hback : ∀ j v, (t'.slot j).held = some (c, v) → t'.slot j = t.slot j :=
    fun j v hheld => hkeeps.held hcd (.inr hheld)
  have hforth : ∀ j v, (t.slot j).held = some (c, v) → t'.slot j = t.slot j :=
    fun j v hheld => hkeeps.held hcd (.inl hheld)
  have hrow : ∀ j, t'.slot j = t.slot j → t'.committed j = t.committed j := fun j hslot => congrArg Slot.committed hslot
  cases ses with
  | idle => exact hkeeps.holdsNone hcd h
  | begun tx => exact hkeeps.holdsNone hcd h
  | read tx i r =>
    refine ⟨h.selects, h.writes, ?_, ?_, ?_⟩
    · rw [hids, RowTx.concerns_congr hkeys]
      exact h.concerned
    · rw [hforth i _ h.held]
      exact h.held
    · intro j v hheld
      have hslot := hback j v hheld
      rw [hrow j hslot]
      rw [hslot] at hheld
      exact h.same j v hheld
  | done tx =>
    refine ⟨?_, ?_, ?_⟩
    · intro j v hheld
      have hslot := hback j v hheld
      rw [hslot] at hheld
      rw [h.versions j v hheld, RowTx.alone, RowTx.alone, hids, RowTx.concerns_congr hkeys, hrow j hslot]
    · intro j hj
      rw [hids, RowTx.concerns_congr hkeys] at hj
      obtain ⟨v, hheld⟩ := h.covered j hj
      exact ⟨v, by rw [hforth j v hheld, hheld]⟩
    · intro j r hj hr
      rw [hids, RowTx.concerns_congr hkeys] at hj
      obtain ⟨v, hheld⟩ := h.covered j hj
      rw [hrow j (hforth j v hheld)] at hr
      exact h.met j r hj hr

/-! ### One statement -/

theorem committed_modify (p : Nat → ρ → Bool) (f : ρ → Option ρ) : (t.modify c p f).committed = t.committed := by
  funext j
  exact Table.sameCommitted_modify j

/-- What a session that had nothing has after a statement. -/
theorem held_modify {p : Nat → ρ → Bool} {f : ρ → Option ρ} {v : Option ρ} (hnone : t.HoldsNone c)
    (hheld : ((t.modify c p f).slot j).held = some (c, v)) : ∃ r, t.committed j = some r ∧ p j r = true ∧ v = f r := by
  rw [Table.slot_modify, hnone.view j] at hheld
  split at hheld
  · rename_i r hr
    split at hheld
    · rename_i hp
      cases hheld
      exact ⟨r, hr, hp, rfl⟩
    · exact absurd hheld (hnone j v)
  · exact absurd hheld (hnone j v)

theorem held_modify_of {p : Nat → ρ → Bool} {f : ρ → Option ρ} (hnone : t.HoldsNone c) (hr : t.committed j = some r)
    (hp : p j r = true) : ((t.modify c p f).slot j).held = some (c, f r) := by
  rw [Table.slot_modify_of ((hnone.view j).trans hr) hp]
  rfl

/-- Without anything of its own, a session finds what is committed. -/
theorem head?_rows (hnone : t.HoldsNone c) (p : Nat → ρ → Bool) : (t.rows c p).head? =
    (t.ids.find? fun i => (t.committed i).any (p i)).bind fun i => (t.committed i).map fun r => (i, r) := by
  unfold Table.rows
  induction t.ids with
  | nil => rfl
  | cons i rest ih =>
    have hview : (t.slot i).view c = t.committed i := hnone.view i
    rw [List.filterMap_cons, List.find?_cons, hview]
    cases hi : t.committed i with
    | none => simpa [hi] using ih
    | some r =>
      by_cases hp : p i r = true
      · simp [hp, hi]
      · simpa [hp] using ih

omit [DecidableEq κ] in
theorem mem_ids (hr : t.committed j = some r) : j ∈ t.ids := by
  rw [Table.ids, List.mem_range]
  by_contra hj
  have hblank : t.committed j = none := by rw [Table.committed, t.fresh j (by omega)]; rfl
  rw [hblank] at hr
  cases hr

theorem concerns_select (hselects : (prog tx).selects = true) (ids : List Nat) (m : Rows ρ) (j : Nat) :
    (prog tx).concerns ids m j = true ↔ ids.find? (fun i => (m i).any ((prog tx).found i)) = some j := by
  rw [RowTx.concerns, if_pos hselects, decide_eq_true_iff]

/-- The lock keeps every row found as it is. -/
theorem held_lock {v : Option ρ} {p : Nat → ρ → Bool} (hnone : t.HoldsNone c)
    (hheld : ((t.lock c p).slot j).held = some (c, v)) : v = t.committed j ∧ (t.committed j).any (p j) = true := by
  obtain ⟨r, hr, hp, rfl⟩ := held_modify hnone hheld
  rw [hr]
  exact ⟨rfl, hp⟩

theorem has_read (hnone : t.HoldsNone c) (hselects : (prog tx).selects = true)
    (hfree : ∀ r, (prog tx).skips r = true → P tx r) :
    Has prog P c (t.lock c (prog tx).found) (afterRead prog tx (t.rows c (prog tx).found).head?) := by
  have hrows : (t.lock c (prog tx).found).committed = t.committed := committed_modify _ _
  have hids : (t.lock c (prog tx).found).ids = t.ids := rfl
  have hconcerns := concerns_select hselects t.ids t.committed
  rw [head?_rows hnone]
  cases hfind : t.ids.find? fun i => (t.committed i).any ((prog tx).found i) with
  | none =>
    -- No row was found, and so none is held.
    rw [hfind] at hconcerns
    have hnot : ∀ j, (prog tx).concerns t.ids t.committed j ≠ true := 
      fun j hj => absurd ((hconcerns j).mp hj).symm (Option.some_ne_none j)
    refine ⟨?_, ?_, ?_⟩
    · intro j v hheld
      obtain ⟨-, hany⟩ := held_lock hnone hheld
      obtain ⟨r, hr, -⟩ := (Option.any_eq_true _ _).mp hany
      exact absurd hany (List.find?_eq_none.mp hfind j (mem_ids hr))
    · intro j hj
      rw [hrows, hids] at hj
      exact absurd hj (hnot j)
    · intro j r hj _
      rw [hrows, hids] at hj
      exact absurd hj (hnot j)
  | some i =>
    rw [hfind] at hconcerns
    have hany := List.find?_some hfind
    obtain ⟨r, hr, hp⟩ := (Option.any_eq_true _ _).mp hany
    have hheld : ((t.lock c (prog tx).found).slot i).held = some (c, some r) := held_modify_of hnone hr hp
    have hi := (hconcerns i).mpr rfl
    rw [Option.bind_some, hr, Option.map_some, afterRead]
    split
    · rename_i hskips
      refine ⟨?_, ?_, ?_⟩
      · intro j v hv
        rw [(held_lock hnone hv).1, hrows, hids, RowTx.alone]
        split
        · rename_i hj
          have hij : i = j := Option.some.inj ((hconcerns j).mp hj)
          rw [← hij, hr, Option.map_some, RowTx.own, hselects, hskips]
          rfl
        · rfl
      · intro j hj
        rw [hrows, hids, hconcerns] at hj
        cases hj
        exact ⟨_, hheld⟩
      · intro j r' hj hr'
        rw [hrows, hids, hconcerns] at hj
        cases hj
        rw [hrows, hr] at hr'
        cases hr'
        exact hfree r hskips
    · rename_i hskips
      refine ⟨hselects, Bool.eq_false_of_not_eq_true hskips, ?_, hheld, ?_⟩
      · rw [hrows, hids]
        exact hi
      · intro j v hv
        rw [hrows]
        exact (held_lock hnone hv).1

theorem has_updated (hnone : t.HoldsNone c) (hselects : (prog tx).selects = false) (hfree : ∀ r, P tx r) :
    Has prog P c (t.modify c (prog tx).found fun r => some ((prog tx).write r r)) (.done tx) := by
  have hrows : (t.modify c (prog tx).found fun r => some ((prog tx).write r r)).committed = t.committed := committed_modify _ _
  have hconcerns : ∀ ids j, (prog tx).concerns ids t.committed j = (t.committed j).any ((prog tx).found j) := by
    intro ids j
    rw [RowTx.concerns, hselects]
    rfl
  refine ⟨?_, ?_, fun _ r _ _ => hfree r⟩
  · intro j v hheld
    obtain ⟨r, hr, hp, rfl⟩ := held_modify hnone hheld
    rw [hrows, RowTx.alone, hconcerns, hr, Option.any_some, hp, if_pos rfl, Option.map_some, RowTx.own, hselects]
    rfl
  · intro j hj
    rw [hrows, hconcerns] at hj
    obtain ⟨r, hr, hp⟩ := (Option.any_eq_true _ _).mp hj
    exact ⟨_, held_modify_of hnone hr hp⟩

theorem has_written (h : Reading prog c tx i r t) (hP : P tx r) :
    Has prog P c (t.modify c (fun j _ => j = i) fun r' => some ((prog tx).write r r')) (.done tx) := by
  have hrows : (t.modify c (fun j _ => j = i) fun r' => some ((prog tx).write r r')).committed = t.committed :=
    committed_modify _ _
  have hids : (t.modify c (fun j _ => j = i) fun r' => some ((prog tx).write r r')).ids = t.ids := rfl
  have hconcerns : ∀ j, (prog tx).concerns t.ids t.committed j = true ↔ j = i := by
    intro j
    have hi := (concerns_select h.selects _ _ i).mp h.concerned
    rw [concerns_select h.selects, hi, Option.some_inj, eq_comm]
  have hr : t.committed i = some r := (h.same i _ h.held).symm
  have hview : (t.slot i).view c = some r := by
    rw [Slot.view, h.held]
    exact if_pos rfl
  have hheld : ((t.modify c (fun j _ => j = i) fun r' => some ((prog tx).write r r')).slot i).held =
      some (c, some ((prog tx).write r r)) := by
    rw [Table.slot_modify_of hview (decide_eq_true rfl)]
    rfl
  refine ⟨?_, ?_, ?_⟩
  · intro j v hv
    rw [hrows, hids, RowTx.alone]
    by_cases hj : j = i
    · subst hj
      rw [hheld] at hv
      cases hv
      rw [if_pos ((hconcerns j).mpr rfl), hr, Option.map_some, RowTx.own, h.writes, Bool.and_false]
      rfl
    · rw [if_neg (fun hc => hj ((hconcerns j).mp hc))]
      rw [Table.slot_modify_of_not fun _ _ => decide_eq_false hj] at hv
      exact h.same j v hv
  · intro j hj
    rw [hrows, hids, hconcerns] at hj
    subst hj
    exact ⟨_, hheld⟩
  · intro j r' hj hr'
    rw [hrows, hids, hconcerns] at hj
    subst hj
    rw [hrows, hr] at hr'
    cases hr'
    exact hP

/-! ### One after another -/

/-- Committing makes the rows what the transaction alone makes of them. -/
theorem committed_commit (h : Written prog P c tx t) : (t.commit c).committed = (prog tx).alone t.ids t.committed := by
  funext j
  show ((t.slot j).commit c).committed = _
  by_cases hheld : ∃ v, (t.slot j).held = some (c, v)
  · obtain ⟨v, hv⟩ := hheld
    rw [Slot.commit, hv, ← h.versions j v hv]
    exact congrArg Slot.committed (if_pos rfl)
  · rw [Table.slot_commit_of_not_held fun v hv => hheld ⟨v, hv⟩, RowTx.alone, if_neg]
    · rfl
    · exact fun hj => hheld (h.covered j hj)

omit [DecidableEq κ] in
theorem eachMeets_append (ids : List Nat) (m : Rows ρ) (log log' : List (κ × τ)) :
    EachMeets prog P ids m (log ++ log') ↔
      EachMeets prog P ids m log ∧ EachMeets prog P ids (serially prog ids m log) log' := by
  induction log generalizing m with
  | nil => simp [EachMeets, serially]
  | cons entry rest ih =>
    rw [List.cons_append, EachMeets, EachMeets, ih, and_assoc]
    rfl

/-- The state of a run, against the rows it began with. -/
structure Serial (prog : τ → RowTx key) (P : τ → ρ → Prop) (t₀ : Table κ ρ) (s : Server κ ρ τ) : Prop where
  seq : s.table.seq = t₀.seq
  rows : s.committed = serially prog t₀.ids t₀.committed s.log
  met : EachMeets prog P t₀.ids t₀.committed s.log
  sessions : ∀ c, Has prog P c s.table (s.session c)

variable {t₀ : Table κ ρ} {s : Server κ ρ τ}

omit [DecidableEq κ] in
theorem Serial.ids (h : Serial prog P t₀ s) : s.table.ids = t₀.ids := by rw [Table.ids, Table.ids, h.seq]

/-- A session takes a step that commits nothing. -/
theorem serial_put {ses : Session ρ τ} (h : Serial prog P t₀ s) (hkeeps : s.table.KeepsOthers c t')
    (hseq : t'.seq = s.table.seq) (hrows : t'.committed = s.table.committed) (hown : Has prog P c t' ses) :
    Serial prog P t₀ (s.put c ses t') := by
  refine ⟨hseq.trans h.seq, hrows.trans h.rows, h.met, ?_⟩
  intro d
  show Has prog P d t' (if d = c then ses else s.session d)
  split
  · rename_i hdc
    rw [hdc]
    exact hown
  · rename_i hdc
    refine has_of_keepsOthers hdc hkeeps hseq ?_ (h.sessions d)
    rw [hrows]
    exact .refl

theorem serial_commit (h : Serial prog P t₀ s) (hwritten : Written prog P c tx s.table) :
    Serial prog P t₀ {s.put c .idle (s.table.commit c) with log := s.log ++ [(c, tx)]} := by
  have hcommit := committed_commit hwritten
  rw [h.ids] at hcommit
  refine ⟨h.seq, ?_, ?_, ?_⟩
  · show (s.table.commit c).committed = _
    rw [hcommit, serially, List.foldl_append, show s.table.committed = _ from h.rows]
    rfl
  · rw [eachMeets_append, ← h.rows]
    refine ⟨h.met, ?_, trivial⟩
    rw [← h.ids]
    exact hwritten.met
  · intro d
    show Has prog P d (s.table.commit c) (if d = c then .idle else s.session d)
    split
    · rename_i hdc
      rw [hdc]
      exact Table.holdsNone_commit
    · rename_i hdc
      refine has_of_keepsOthers hdc Table.keepsOthers_commit rfl ?_ (h.sessions d)
      rw [hcommit]
      exact RowTx.sameKeys_alone

/-- The rule: what is read and then written meets `P`. -/
def Reads (P : τ → ρ → Prop) : Input κ τ → Server κ ρ τ → Prop
  | .next c, s =>
    match s.session c with
    | .read tx _ r => P tx r
    | _ => True
  | _, _ => True

omit [DecidableEq κ] in
theorem Reads.imp {Q : τ → ρ → Prop} (hPQ : ∀ tx r, P tx r → Q tx r) (input : Input κ τ) (s : Server κ ρ τ)
    (h : Reads P input s) : Reads Q input s := by
  cases input with
  | next c =>
    rw [Reads] at h ⊢
    cases hses : s.session c with
    | read tx i r =>
      rw [hses] at h
      exact hPQ tx r h
    | _ => trivial
  | _ => trivial

theorem step_serial (hfree : ∀ tx r, (prog tx).selects = false ∨ (prog tx).skips r = true → P tx r)
    (input : Input κ τ) (s : Server κ ρ τ) (hrule : Reads P input s) (h : Serial prog P t₀ s) :
    Serial prog P t₀ (step prog input s) := by
  -- Only a commit adds to the order of the transactions. The other inputs change one session and what it
  -- holds.
  cases input with
  | start c tx =>
    rw [step]
    cases hses : s.session c with
    | idle =>
      have hnone := h.sessions c
      rw [hses] at hnone
      have hput : Serial prog P t₀ (s.put c (.begun tx) s.table) := serial_put h .refl rfl rfl hnone
      exact ⟨h.seq, h.rows, h.met, hput.sessions⟩
    | _ => exact h
  | next c =>
    have hown := h.sessions c
    rw [step]
    cases hses : s.session c with
    | begun tx =>
      rw [hses] at hown
      show Serial prog P t₀ (first prog c tx s)
      unfold first
      split
      · exact h
      · rename_i hblocked
        have hkeeps := fun f => Table.keepsOthers_modify (f := f) (Bool.eq_false_of_not_eq_true hblocked)
        split
        · rename_i hselects
          exact serial_put h (hkeeps _) rfl (committed_modify _ _) (has_read hown hselects fun r hr => hfree tx r (.inr hr))
        · rename_i hselects
          have hselects := Bool.eq_false_of_not_eq_true hselects
          exact serial_put h (hkeeps _) rfl (committed_modify _ _) (has_updated hown hselects fun r => hfree tx r (.inl hselects))
    | read tx i r =>
      rw [hses] at hown
      rw [Reads, hses] at hrule
      show Serial prog P t₀ (second prog c tx i r s)
      unfold second
      split
      · exact h
      · rename_i hblocked
        exact serial_put h (Table.keepsOthers_modify (Bool.eq_false_of_not_eq_true hblocked)) rfl (committed_modify _ _)
          (has_written hown hrule)
    | idle => exact h
    | done tx => exact h
  | commit c =>
    rw [step]
    cases hses : s.session c with
    | done tx =>
      have hown := h.sessions c
      rw [hses] at hown
      exact serial_commit h hown
    | _ => exact h
  | abort c =>
    refine serial_put h Table.keepsOthers_rollback rfl ?_ Table.holdsNone_rollback
    funext j
    exact Table.sameCommitted_rollback j

omit [DecidableEq κ] in
theorem serial_opened (hfree : ∀ i, (t₀.slot i).held = none) : Serial prog P t₀ (opened t₀) where
  seq := rfl
  rows := rfl
  met := trivial
  sessions c := by
    intro i v hheld
    rw [show (opened t₀ : Server κ ρ τ).table.slot i = t₀.slot i from rfl, hfree i] at hheld
    cases hheld

/-! ### In every session's own order -/

/-- The transactions of one session. -/
def ofSession (c : κ) (entries : List (κ × τ)) : List (κ × τ) := entries.filter fun entry => entry.1 = c

theorem ofSession_append_self (entries : List (κ × τ)) : ofSession c (entries ++ [(c, tx)]) = ofSession c entries ++ [(c, tx)] := by
  simp [ofSession]

theorem ofSession_append_other (hcd : c ≠ d) (entries : List (κ × τ)) :
    ofSession d (entries ++ [(c, tx)]) = ofSession d entries := by
  simp [ofSession, hcd]

/-- What a session has committed it has begun in that order, before the one it is in. -/
structure Ordered (c : κ) (s : Server κ ρ τ) : Prop where
  ended : (ofSession c s.log).Sublist (ofSession c s.begun)
  within : ∀ tx, Session.current (s.session c) = some tx →
    ∃ before, ofSession c s.begun = before ++ [(c, tx)] ∧ (ofSession c s.log).Sublist before

/-- A session goes on with the transaction it is in, or ends it. -/
theorem ordered_put {ses : Session ρ τ} (hses : ∀ tx, Session.current ses = some tx → Session.current (s.session c) = some tx)
    (t' : Table κ ρ) (h : ∀ d, Ordered d s) (d : κ) : Ordered d (s.put c ses t') := by
  refine ⟨(h d).ended, ?_⟩
  intro tx htx
  replace htx : Session.current (if d = c then ses else s.session d) = some tx := htx
  split at htx
  · rename_i hdc
    rw [hdc]
    exact (h c).within tx (hses tx htx)
  · exact (h d).within tx htx

theorem current_afterRead (found : Option (Nat × ρ)) : Session.current (afterRead prog tx found) = some tx := by
  cases found with
  | none => rfl
  | some row =>
    rw [afterRead]
    split <;> rfl

theorem ordered_start (h : ∀ d, Ordered d s) (d : κ) :
    Ordered d {s.put c (.begun tx) s.table with begun := s.begun ++ [(c, tx)]} := by
  by_cases hcd : c = d
  · subst hcd
    refine ⟨?_, ?_⟩
    · show (ofSession c s.log).Sublist (ofSession c (s.begun ++ [(c, tx)]))
      rw [ofSession_append_self]
      exact (h c).ended.trans (List.sublist_append_left _ _)
    · intro tx' htx
      replace htx : Session.current (if c = c then .begun tx else s.session c) = some tx' := htx
      rw [if_pos rfl] at htx
      cases htx
      exact ⟨_, ofSession_append_self s.begun, (h c).ended⟩
  · refine ⟨?_, ?_⟩
    · show (ofSession d s.log).Sublist (ofSession d (s.begun ++ [(c, tx)]))
      rw [ofSession_append_other hcd]
      exact (h d).ended
    · intro tx' htx
      replace htx : Session.current (if d = c then .begun tx else s.session d) = some tx' := htx
      rw [if_neg (Ne.symm hcd)] at htx
      obtain ⟨before, hbegun, hlog⟩ := (h d).within tx' htx
      exact ⟨before, (ofSession_append_other hcd s.begun).trans hbegun, hlog⟩

theorem ordered_commit (hses : s.session c = .done tx) (h : ∀ d, Ordered d s) (d : κ) :
    Ordered d {s.put c .idle (s.table.commit c) with log := s.log ++ [(c, tx)]} := by
  by_cases hcd : c = d
  · subst hcd
    obtain ⟨before, hbegun, hlog⟩ := (h c).within tx (by rw [hses]; rfl)
    refine ⟨?_, ?_⟩
    · show (ofSession c (s.log ++ [(c, tx)])).Sublist (ofSession c s.begun)
      rw [ofSession_append_self, hbegun]
      exact hlog.append (List.Sublist.refl _)
    · intro tx' htx
      replace htx : Session.current (if c = c then .idle else s.session c) = some tx' := htx
      rw [if_pos rfl] at htx
      cases htx
  · refine ⟨?_, ?_⟩
    · show (ofSession d (s.log ++ [(c, tx)])).Sublist (ofSession d s.begun)
      rw [ofSession_append_other hcd]
      exact (h d).ended
    · intro tx' htx
      replace htx : Session.current (if d = c then .idle else s.session d) = some tx' := htx
      rw [if_neg (Ne.symm hcd)] at htx
      obtain ⟨before, hbegun, hlog⟩ := (h d).within tx' htx
      refine ⟨before, hbegun, ?_⟩
      show (ofSession d (s.log ++ [(c, tx)])).Sublist before
      rw [ofSession_append_other hcd]
      exact hlog

theorem step_ordered (input : Input κ τ) (s : Server κ ρ τ) (h : ∀ d, Ordered d s) : ∀ d, Ordered d (step prog input s) := by
  -- A transaction enters the log when it commits, and that is when it leaves its session.
  cases input with
  | start c tx =>
    rw [step]
    cases hses : s.session c with
    | idle => exact ordered_start h
    | _ => exact h
  | next c =>
    rw [step]
    cases hses : s.session c with
    | begun tx =>
      show ∀ d, Ordered d (first prog c tx s)
      unfold first
      split
      · exact h
      · split
        · refine ordered_put ?_ _ h
          intro tx' htx
          rw [current_afterRead] at htx
          rw [hses]
          exact htx
        · refine ordered_put ?_ _ h
          intro tx' htx
          rw [hses]
          exact htx
    | read tx i r =>
      show ∀ d, Ordered d (second prog c tx i r s)
      unfold second
      split
      · exact h
      · refine ordered_put ?_ _ h
        intro tx' htx
        rw [hses]
        exact htx
    | idle => exact h
    | done tx => exact h
  | commit c =>
    rw [step]
    cases hses : s.session c with
    | done tx => exact ordered_commit hses h
    | _ => exact h
  | abort c =>
    refine ordered_put ?_ _ h
    intro tx htx
    cases htx

omit [DecidableEq κ] in
theorem reads_true (input : Input κ τ) (s : Server κ ρ τ) : Reads (fun _ _ => True) input s := by
  cases input with
  | next c =>
    rw [Reads]
    cases s.session c <;> trivial
  | _ => trivial

/-- Without a rule, the rows are serial and every session's transactions are in its own order. -/
theorem run_serial (hfree : ∀ i, (t₀.slot i).held = none) (inputs : List (Input κ τ)) :
    Serial prog (fun _ _ => True) t₀ ((machine prog).run (opened t₀) inputs) ∧
      ∀ c, Ordered c ((machine prog).run (opened t₀) inputs) := by
  constructor
  · apply Machine.invariant (step_serial fun _ _ _ => trivial) (serial_opened hfree)
    exact Machine.admissible_of_forall (fun input _ s => reads_true input s) _
  · refine Machine.invariant_all (I := fun s => ∀ c, Ordered c s) step_ordered ?_ inputs
    intro c
    exact ⟨List.Sublist.refl _, fun _ htx => absurd htx (Option.some_ne_none _).symm⟩

/-- What is committed stays in the log. -/
theorem log_step (input : Input κ τ) (s : Server κ ρ τ) : s.log.IsPrefix (step prog input s).log := by
  cases input with
  | start c tx =>
    rw [step]
    split <;> exact List.prefix_refl _
  | next c =>
    rw [step]
    split
    · unfold first
      split
      · exact List.prefix_refl _
      · split <;> exact List.prefix_refl _
    · unfold second
      split <;> exact List.prefix_refl _
    · exact List.prefix_refl _
  | commit c =>
    rw [step]
    split
    · exact List.prefix_append _ _
    · exact List.prefix_refl _
  | abort c => exact List.prefix_refl _

theorem log_run (inputs : List (Input κ τ)) (s : Server κ ρ τ) : s.log.IsPrefix ((machine prog).run s inputs).log := by
  induction inputs generalizing s with
  | nil => exact List.prefix_refl _
  | cons input rest ih => exact (log_step input s).trans (ih _)

end Server

end PyAppRunner.Sql
