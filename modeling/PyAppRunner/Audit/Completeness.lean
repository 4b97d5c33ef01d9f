import PyAppRunner.Audit.Writes

/-! When an audited write is audited in full.

The rows that the read locks are the caller's until its transaction ends, so the write
finds all of them, as they were read. It also finds the rows that came to match in
between, inserted or changed by others: nothing locks what does not match yet. For
those there is no event. -/
namespace PyAppRunner.Audit
open Base Sql

variable {κ V : Type} (py : Values V) (columns : Columns V) (audit : Settings)

/-! ### The rows read and the rows written -/

section
variable [DecidableEq κ] (c : κ) (env : Env κ V) (cond : Dict V) (t : Table κ (Dict V))

/-- What the read asks of a row once it gets it. -/
def readCondition : Nat → Dict V → Bool := Table.again (t.found c (condition columns cond)) (condition columns cond)

/-- The rows the read locks. -/
def readRows : List (Nat × Dict V) :=
  (t.meanwhile c env.whileReading).rows c (readCondition columns c cond t)

/-- The table when the write starts. -/
def atWrite : Table κ (Dict V) :=
  ((t.meanwhile c env.whileReading).lock c (readCondition columns c cond t)).meanwhile c env.beforeWriting

/-- The rows that match when the write gets them. -/
def writeRows : List (Nat × Dict V) :=
  let start := atWrite columns c env cond t
  (start.meanwhile c env.whileWriting).rows c (Table.again (start.found c (condition columns cond)) (condition columns cond))

variable {columns c env cond t}

/-- What was read is written, as it was read. -/
theorem mem_writeRows_of_read {row : Nat × Dict V} (h : row ∈ readRows columns c env cond t) :
    row ∈ writeRows columns c env cond t := by
  obtain ⟨i, r⟩ := row
  have hmatch : condition columns cond i r = true := by
    have hagain := (Table.mem_rows.mp h).2
    simp only [readCondition, Table.again, Bool.and_eq_true] at hagain
    exact hagain.2
  have hstart : ((atWrite columns c env cond t).slot i).view c = some r := Table.view_meanwhile_lock h _
  have hlater : (((atWrite columns c env cond t).meanwhile c env.whileWriting).slot i).view c = some r := by
    unfold atWrite
    rw [← Table.meanwhile_append]
    exact Table.view_meanwhile_lock h _
  refine Table.mem_rows.mpr ⟨hlater, ?_⟩
  simp only [Table.again, Bool.and_eq_true, decide_eq_true_eq]
  exact ⟨Table.mem_found.mpr ⟨r, hstart, hmatch⟩, hmatch⟩

end

/-! ### What was recorded -/

/-- The changed rows that differ have one event each and no other row has one, and an event
shows what the statement replaced. -/
structure Complete (differs : Dict V → Bool) (old : Dict V → Dict V) (s : State κ V) : Prop where
  once : (s.log.map Prod.fst).Nodup
  rows : ∀ i, i ∈ s.log.map Prod.fst ↔ ∃ r, (i, r) ∈ s.changed ∧ differs r = true
  old : ∀ i e r, (i, e) ∈ s.log → (i, r) ∈ s.changed → e.oldValues = some (old r)

/-- The event of a row as it is stored. -/
def logged (env : Env κ V) (eventOf : Dict V → Option (AuditEvent V)) (row : Nat × Dict V) :
    Option (Nat × AuditEvent V) :=
  (eventOf row.2).map fun e => (row.1, (redacted py audit e).withResolved env.context)

variable {py columns audit}

theorem eq_of_fst_eq {rows : List (Nat × Dict V)} (h : (rows.map Prod.fst).Nodup) {i : Nat} {r r' : Dict V}
    (hr : (i, r) ∈ rows) (hr' : (i, r') ∈ rows) : r = r' := by
  have heq := List.inj_on_of_nodup_map h hr hr' rfl
  exact congrArg Prod.snd heq

theorem sublist_logged (env : Env κ V) (eventOf : Dict V → Option (AuditEvent V)) (read : List (Nat × Dict V)) :
    ((read.filterMap (logged py audit env eventOf)).map Prod.fst).Sublist (read.map Prod.fst) := by
  induction read with
  | nil => exact List.Sublist.slnil
  | cons row rest ih =>
    cases he : eventOf row.2 with
    | none =>
      rw [List.filterMap_cons_none (by simp [logged, he])]
      exact ih.cons _
    | some e =>
      have hlogged : logged py audit env eventOf row =
          some (row.1, (redacted py audit e).withResolved env.context) := by simp [logged, he]
      rw [List.filterMap_cons_some hlogged]
      exact ih.cons_cons _

/-- Events of all that was read, where all of it was written, are complete if nothing else
that was written differs. -/
theorem complete_iff {env : Env κ V} {read : List (Nat × Dict V)} {s : State κ V}
    {eventOf : Dict V → Option (AuditEvent V)} {differs : Dict V → Bool} {old : Dict V → Dict V}
    (hlog : s.log = read.filterMap (logged py audit env eventOf)) (hread : (read.map Prod.fst).Nodup)
    (hchanged : (s.changed.map Prod.fst).Nodup) (hsub : ∀ row ∈ read, row ∈ s.changed)
    (hevent : ∀ r, (eventOf r).isSome = differs r)
    (hold : ∀ r e, eventOf r = some e → (redacted py audit e).oldValues = some (old r)) :
    Complete differs old s ↔ ∀ row ∈ s.changed, row ∉ read → differs row.2 = false := by
  -- An entry of the log comes from a row that was read.
  have hmem (i : Nat) (e : AuditEvent V) : (i, e) ∈ s.log ↔ ∃ r e', (i, r) ∈ read ∧ eventOf r = some e' ∧
      (redacted py audit e').withResolved env.context = e := by
    simp only [hlog, List.mem_filterMap, logged, Option.map_eq_some_iff, Prod.exists, Prod.mk.injEq]
    constructor
    · rintro ⟨i', r, hr, e', he', rfl, rfl⟩
      exact ⟨r, e', hr, he', rfl⟩
    · rintro ⟨r, e', hr, he', rfl⟩
      exact ⟨i, r, hr, e', he', rfl, rfl⟩
  constructor
  · intro h row hrow hnot
    obtain ⟨i, r⟩ := row
    by_contra hdiffers
    have hin := (h.rows i).mpr ⟨r, hrow, by simpa using hdiffers⟩
    obtain ⟨⟨i', e⟩, he, rfl⟩ := List.mem_map.mp hin
    obtain ⟨r', e', hr', -, -⟩ := (hmem i' e).mp he
    rw [eq_of_fst_eq hchanged hrow (hsub _ hr')] at hnot
    exact hnot hr'
  · intro h
    refine ⟨?_, ?_, ?_⟩
    · rw [hlog]
      exact (sublist_logged env eventOf read).nodup hread
    · intro i
      constructor
      · intro hin
        obtain ⟨⟨i', e⟩, he, rfl⟩ := List.mem_map.mp hin
        obtain ⟨r, e', hr, he', -⟩ := (hmem i' e).mp he
        exact ⟨r, hsub _ hr, by simp [← hevent, he']⟩
      · rintro ⟨r, hr, hdiffers⟩
        have hin : (i, r) ∈ read := by
          by_contra hnot
          rw [h _ hr hnot] at hdiffers
          cases hdiffers
        obtain ⟨e, he⟩ := Option.isSome_iff_exists.mp ((hevent r).trans hdiffers)
        exact List.mem_map.mpr ⟨(i, _), (hmem i _).mpr ⟨r, e, hin, he, rfl⟩, rfl⟩
    · intro i e r he hr
      obtain ⟨r', e', hr', he', rfl⟩ := (hmem i e).mp he
      rw [eq_of_fst_eq hchanged hr (hsub _ hr')]
      exact hold r' e' he'

/-- A call that returns without a warning has recorded every event of the rows. -/
theorem triple_recordRows (env : Env κ V) (eventOf : Dict V → Option (AuditEvent V))
    (read : List (Nat × Dict V)) (log : List (Nat × AuditEvent V)) (changed : List (Nat × Dict V)) :
    Triple (fun s => s.warnings = [] → s.log = log ∧ s.changed = changed) (recordRows py audit env eventOf read)
      (fun _ s => s.warnings = [] →
        s.log = log ++ read.filterMap (logged py audit env eventOf) ∧ s.changed = changed)
      (fun _ => True) := by
  induction read generalizing log with
  | nil => exact Triple.pure fun s hs => by simpa using hs
  | cons row rest ih =>
    unfold recordRows
    cases he : eventOf row.2 with
    | none =>
      rw [List.filterMap_cons_none (by simp [logged, he])]
      refine Triple.bind ?_ fun _ => ih log
      unfold recordRow
      rw [he]
      exact Triple.pure fun _ hs => hs
    | some e =>
      have hlogged : logged py audit env eventOf row =
          some (row.1, (redacted py audit e).withResolved env.context) := by simp [logged, he]
      rw [List.filterMap_cons_some hlogged]
      refine Triple.bind (Q := fun _ s => s.warnings = [] →
        s.log = log ++ [(row.1, (redacted py audit e).withResolved env.context)] ∧ s.changed = changed) ?_ fun _ => ?_
      · unfold recordRow record
        rw [he]
        dsimp only
        split
        · unfold fail
          split
          · exact Triple.raise fun _ _ => trivial
          · exact Triple.modify fun s hs hnone => by simp at hnone
        · exact Triple.modify fun s hs hnone => ⟨by simp [(hs hnone).1], (hs hnone).2⟩
      · refine (ih _).weaken (fun _ hs => hs) ?_ fun _ hs => hs
        intro _ s hs hnone
        obtain ⟨hlog, hchanged⟩ := hs hnone
        exact ⟨by rw [hlog]; simp, hchanged⟩

theorem keeps_assertTableName {I : State κ V → Prop} (table : String) : Keeps I (assertTableName table) := by
  unfold assertTableName
  split
  · exact Keeps.pure
  · exact Keeps.raise

theorem keeps_assertStatement {I : State κ V → Prop} (parses : Bool) : Keeps I (assertStatement parses) := by
  unfold assertStatement
  split
  · exact Keeps.pure
  · exact Keeps.raise

/-- The limit may warn, and does nothing else. -/
theorem triple_assertWithinLimit (matched : Nat) (s₀ : State κ V) :
    Triple (fun s => s = s₀) (assertWithinLimit audit matched)
      (fun _ s => s.log = s₀.log ∧ s.table = s₀.table) (fun _ => True) := by
  unfold assertWithinLimit
  split
  · exact Triple.pure fun s hs => by rw [hs]; exact ⟨rfl, rfl⟩
  · unfold fail
    split
    · exact Triple.raise fun _ _ => trivial
    · exact Triple.modify fun s hs => by rw [hs]; exact ⟨rfl, rfl⟩

/-! ### The calls -/

section
variable [DecidableEq κ] {c : κ} {env : Env κ V} {cond : Dict V} {t : Table κ (Dict V)}

/-- A statement that returns got the rows it found that still matched. -/
theorem triple_statement {p : Nat → Dict V → Bool} {f : Dict V → Option (Dict V)}
    {waiting : List (Statement κ (Dict V))} (s₀ : State κ V) :
    Triple (fun s => s = s₀) (statement c p f waiting)
      (fun found s =>
        found = (s₀.table.meanwhile c waiting).rows c (Table.again (s₀.table.found c p) p) ∧
        s = {s₀ with
          table := (s₀.table.meanwhile c waiting).modify c (Table.again (s₀.table.found c p) p) f})
      (fun _ => True) := by
  refine Triple.get fun s₁ h₁ => ?_
  subst h₁
  refine Triple.bind (Triple.modify (Q := fun _ s => s = {s₁ with table := s₁.table.meanwhile c waiting}) ?_) fun _ => ?_
  · intro s hs
    rw [hs]
  refine Triple.get fun s₂ h₂ => ?_
  subst h₂
  split
  · exact Triple.raise fun _ _ => trivial
  · refine Triple.bind (Triple.modify (Q := fun _ s => s = {s₁ with
      table := (s₁.table.meanwhile c waiting).modify c (Table.again (s₁.table.found c p) p) f}) ?_)
      fun _ => Triple.pure fun s hs => ⟨rfl, hs⟩
    intro s hs
    rw [hs]

theorem triple_write (f : Dict V → Option (Dict V)) (s₀ : State κ V) :
    Triple (fun s => s = s₀) (write columns c env cond f)
      (fun _ s => s.warnings = s₀.warnings ∧ s.log = s₀.log ∧
        s.changed = ((s₀.table.meanwhile c env.beforeWriting).meanwhile c env.whileWriting).rows c
          (Table.again ((s₀.table.meanwhile c env.beforeWriting).found c (condition columns cond)) (condition columns cond)))
      (fun _ => True) := by
  refine Triple.bind (Triple.modify (Q := fun _ s => s = {s₀ with table := s₀.table.meanwhile c env.beforeWriting}) ?_)
    fun _ => Triple.bind (triple_statement _) fun changed => ?_
  · intro s hs
    rw [hs]
  · refine Triple.bind (Triple.modify ?_) fun _ => Triple.pure fun s hs => hs
    intro s hs
    obtain ⟨rfl, rfl⟩ := hs
    exact ⟨rfl, rfl, rfl⟩

variable (py columns audit c env cond t) in
/-- The part `update` and `delete` share: the read is done, and the write and the events follow. -/
theorem triple_audited (f : Dict V → Option (Dict V)) (eventOf : Dict V → Option (AuditEvent V)) :
    Triple (fun s => s.log = [] ∧ s.table = (t.meanwhile c env.whileReading).lock c (readCondition columns c cond t))
      (do
        let affected ← write columns c env cond f
        recordRows py audit env eventOf (readRows columns c env cond t)
        pure affected)
      (fun _ s => s.warnings = [] →
        s.log = (readRows columns c env cond t).filterMap (logged py audit env eventOf) ∧
        s.changed = writeRows columns c env cond t)
      (fun _ => True) := by
  refine Triple.bind (Q := fun _ s => s.warnings = [] → s.log = [] ∧ s.changed = writeRows columns c env cond t) ?_
    fun affected => ?_
  · intro s₀ h₀
    refine (triple_write f s₀).weaken (fun _ hs => hs) ?_ (fun _ hs => hs) s₀ rfl
    intro _ s hs _
    exact ⟨hs.2.1.trans h₀.1, by rw [hs.2.2, h₀.2]; rfl⟩
  · refine Triple.bind (triple_recordRows env eventOf _ [] _) fun _ => Triple.pure fun s hs hnone => ?_
    simpa using hs hnone

/-- The read and its limit, before what `update` and `delete` do next. -/
theorem triple_read {α : Type} {Q : α → State κ V → Prop} {next : List (Nat × Dict V) → Call κ V α}
    (hnext : Triple (fun s => s.log = [] ∧ s.table = (t.meanwhile c env.whileReading).lock c (readCondition columns c cond t))
      (next (readRows columns c env cond t)) Q fun _ => True) :
    Triple (fun s => s = .start t)
      (do
        let found ← rows columns c env cond
        assertWithinLimit audit found.length
        next found) Q (fun _ => True) := by
  refine Triple.bind (triple_statement (.start t)) fun found => ?_
  intro s hs
  obtain ⟨rfl, rfl⟩ := hs
  refine Triple.bind (triple_assertWithinLimit _ _) (fun _ => ?_) _ rfl
  exact hnext.weaken (fun s hs => hs) (fun _ _ hs => hs) fun _ hs => hs

variable (py columns audit c env t) in
theorem triple_update (req : Request V) (data cond : Dict V) :
    Triple (fun s => s = .start t) (update py columns audit c env req data cond)
      (fun _ s => s.warnings = [] →
        s.log = (readRows columns c env cond t).filterMap (logged py audit env (updatedEvent py audit req data)) ∧
        s.changed = writeRows columns c env cond t)
      (fun _ => True) := by
  refine Triple.bind ((keeps_assertTableName req.table).weaken (fun _ hs => hs) (fun _ _ hs => hs) fun _ _ => trivial)
    fun _ => Triple.bind ((keeps_assertStatement _).weaken (fun _ hs => hs) (fun _ _ hs => hs) fun _ _ => trivial)
      fun _ => triple_read ?_
  exact Triple.bind ((keeps_assertStatement _).weaken (fun _ hs => hs) (fun _ _ hs => hs) fun _ _ => trivial)
    fun _ => triple_audited py columns audit c env cond t _ _

variable (py columns audit c env t) in
theorem triple_delete (req : Request V) (cond : Dict V) :
    Triple (fun s => s = .start t) (delete py columns audit c env req cond)
      (fun _ s => s.warnings = [] →
        s.log = (readRows columns c env cond t).filterMap (logged py audit env (deletedEvent py audit req)) ∧
        s.changed = writeRows columns c env cond t)
      (fun _ => True) := by
  refine Triple.bind ((keeps_assertTableName req.table).weaken (fun _ hs => hs) (fun _ _ hs => hs) fun _ _ => trivial)
    fun _ => ?_
  split
  · exact Triple.raise fun _ _ => trivial
  · exact Triple.bind ((keeps_assertStatement _).weaken (fun _ hs => hs) (fun _ _ hs => hs) fun _ _ => trivial)
      fun _ => triple_read (triple_audited py columns audit c env cond t _ _)

/-- An update has an event for a row exactly if its values differ, and it shows the old ones. -/
theorem updatedEvent_spec (req : Request V) (data row : Dict V) :
    (updatedEvent py audit req data row).isSome = !(differing py row data).isEmpty ∧
    ∀ e, updatedEvent py audit req data row = some e →
      (redacted py audit e).oldValues = some (mask py (replaced py row data) (excluded py audit req.table)) := by
  obtain ⟨hnone, hsome⟩ := between_update py row data
  by_cases hd : differing py row data = []
  · simp [updatedEvent, hnone hd, hd]
  · refine ⟨by simp [updatedEvent, hsome hd, hd], ?_⟩
    intro e he
    simp only [updatedEvent, hsome hd, Option.some.injEq] at he
    subst he
    rfl

theorem deletedEvent_spec (req : Request V) (row : Dict V) :
    (deletedEvent py audit req row).isSome = true ∧ ∀ e, deletedEvent py audit req row = some e →
      (redacted py audit e).oldValues = some (mask py row (excluded py audit req.table)) := by
  refine ⟨rfl, ?_⟩
  intro e he
  simp only [deletedEvent, between_delete, Option.some.injEq] at he
  subst he
  rfl

end

/-- **A write is audited in full exactly if nothing comes to match unread.** A call that
returned without a warning has an event for each row its statement changed, and shows
what the statement replaced (with the excluded columns redacted), if and only if
every row the statement matches, and the read did not lock, already has the values
that `update` writes; for `delete`, if and only if there is no such row. -/
theorem audited_iff_nothing_unread [DecidableEq κ] (c : κ) (env : Env κ V) (req : Request V) (data cond : Dict V)
    (t : Table κ (Dict V)) :
    (∀ s affected, update py columns audit c env req data cond (.start t) = (s, .ok affected) → s.warnings = [] →
      (Complete (fun row => !(differing py row data).isEmpty)
          (fun row => mask py (replaced py row data) (excluded py audit req.table)) s ↔
        ∀ row ∈ writeRows columns c env cond t, row ∉ readRows columns c env cond t → differing py row.2 data = [])) ∧
    (∀ s affected, delete py columns audit c env req cond (.start t) = (s, .ok affected) → s.warnings = [] →
      (Complete (fun _ => true) (fun row => mask py row (excluded py audit req.table)) s ↔
        ∀ row ∈ writeRows columns c env cond t, row ∈ readRows columns c env cond t)) := by
  refine ⟨?_, ?_⟩
  · intro s affected hreturned hclean
    obtain ⟨hlog, hchanged⟩ := (triple_update py columns audit c env t req data cond _ rfl).1 s affected hreturned hclean
    rw [complete_iff hlog Table.nodup_found (hchanged ▸ Table.nodup_found) (hchanged ▸ fun _ => mem_writeRows_of_read)
      (fun r => (updatedEvent_spec req data r).1) fun r => (updatedEvent_spec req data r).2, hchanged]
    simp
  · intro s affected hreturned hclean
    obtain ⟨hlog, hchanged⟩ := (triple_delete py columns audit c env t req cond _ rfl).1 s affected hreturned hclean
    rw [complete_iff hlog Table.nodup_found (hchanged ▸ Table.nodup_found) (hchanged ▸ fun _ => mem_writeRows_of_read)
      (fun r => (deletedEvent_spec req r).1) fun r => (deletedEvent_spec req r).2, hchanged]
    simp

/-! ### A table of people -/

/-- Texts, compared as they are; the column names are in lower case. -/
def texts : Values String where
  same a b := a = b
  str v := v
  redacted := "***"
  lower s := s

def textColumns : Columns String where
  names := ["id", "status"]
  equals _ a b := a.isSome && a = b
  stored _ v := v

def defaults : Settings := ⟨true, 1000, "id", []⟩

def person (id status : String) : Dict String := [("id", some id), ("status", some status)]

/-- One active person, committed by session 1. -/
def people : Table Nat (Dict String) := ((Table.empty.insert 1 (person "1" "active")).2).commit 1

/-- Nobody waits, every event can be written, and session 1 does this between read and write. -/
def meanwhileOnly (stmts : List (Statement Nat (Dict String))) : Env Nat String :=
  ⟨[], stmts, [], fun _ => none, ⟨"", "", "", "", "", "", ""⟩⟩

def aboutPeople : Request String := ⟨"people", "hr", [], none⟩

/-- Session 0 lets everyone active go. -/
def letGo (env : Env Nat String) : State Nat String × Except Fault Nat :=
  update texts textColumns defaults 0 env aboutPeople [("status", some "left")] [("status", some "active")] (.start people)

def removeActive (env : Env Nat String) : State Nat String × Except Fault Nat :=
  delete texts textColumns defaults 0 env aboutPeople [("status", some "active")] (.start people)

/-- Somebody else is hired in between. -/
def hired : Env Nat String := meanwhileOnly [.insert 1 (person "2" "active"), .commit 1]

/-- Somebody else is hired in between, but is away. -/
def hiredAway : Env Nat String := meanwhileOnly [.insert 1 (person "2" "away"), .commit 1]

/-- What counts as a change of status to `left`, and what is shown of it. -/
def leaves (row : Dict String) : Bool := !(differing texts row [("status", some "left")]).isEmpty

def statusBefore (row : Dict String) : Dict String :=
  mask texts (replaced texts row [("status", some "left")]) (excluded texts defaults "people")

theorem unmatched_hire_audited :
    Complete leaves statusBefore (letGo hiredAway).1 ∧
      Complete (fun _ => true) (fun row => mask texts row (excluded texts defaults "people")) (removeActive hiredAway).1 := by
  obtain ⟨hupdate, hdelete⟩ := @audited_iff_nothing_unread _ _ texts textColumns defaults _
    0 hiredAway aboutPeople [("status", some "left")] [("status", some "active")] people
  exact ⟨(hupdate _ 1 rfl rfl).mpr (by decide), (hdelete _ 1 rfl rfl).mpr (by decide)⟩

/-- Whoever is hired between the read and the write leaves, or is removed, without an event. -/
theorem hire_not_recorded :
    (letGo hired).2 = .ok 2 ∧ (letGo hired).1.warnings = [] ∧ ¬ Complete leaves statusBefore (letGo hired).1 ∧
    (removeActive hired).2 = .ok 2 ∧ (removeActive hired).1.warnings = [] ∧
    ¬ Complete (fun _ => true) (fun row => mask texts row (excluded texts defaults "people")) (removeActive hired).1 := by
  refine ⟨rfl, rfl, ?_, rfl, rfl, ?_⟩
  · intro h
    have hrecorded := (h.rows 2).mpr ⟨person "2" "active", by decide, by decide⟩
    revert hrecorded
    decide
  · intro h
    have hrecorded := (h.rows 2).mpr ⟨person "2" "active", by decide, rfl⟩
    revert hrecorded
    decide

end PyAppRunner.Audit
