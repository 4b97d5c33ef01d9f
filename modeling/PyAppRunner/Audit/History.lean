import PyAppRunner.Audit.Interleaved

/-! The trail explains the table.

Read in order, the events of a row say whether it is there and which values its columns
were given. That is what the table holds, except where an update wrote a value that says
the same as the one it replaced: no event is made for those. -/
namespace PyAppRunner.Audit
open Base Sql

variable {κ V : Type} (py : Values V) (columns : Columns V) (audit : Settings)

/-! ### What the trail says -/

/-- The events of a row. -/
def history (trail : List (Nat × AuditEvent V)) (i : Nat) : List (AuditEvent V) :=
  trail.filterMap fun entry => if entry.1 = i then some entry.2 else none

/-- The new values in place of the old ones. -/
def overlay (old new : Dict V) : Dict V := new ++ old.filter fun kv => (new.lookup kv.1).isNone

/-- What is known of a row once an event of it is read. An event of another name says nothing of it. -/
def tell (told : Option (Dict V)) (e : AuditEvent V) : Option (Dict V) :=
  if e.event = AuditEvent.created then some (e.newValues.getD [])
  else if e.event = AuditEvent.updated then told.map fun old => overlay old (e.newValues.getD [])
  else if e.event = AuditEvent.deleted then none
  else told

/-- What is known of it after all of its events. -/
def replay (start : Option (Dict V)) (events : List (AuditEvent V)) : Option (Dict V) := events.foldl tell start

/-- What a column may hold that was last recorded with `value`: what the database makes of
it, or of what was written over that and says the same. -/
inductive Reached (k : String) (value : Option V) : Option V → Prop where
  | recorded : Reached k value (columns.stored k value)
  | rewritten {held value' : Option V} (h : Reached k value held) (hsame : py.same held value' = true) :
      Reached k value (columns.stored k value')

/-- No event of these redacts the column. -/
def Shown (events : List (AuditEvent V)) (k : String) : Prop :=
  ∀ e ∈ events, isExcluded py (excluded py audit e.entityType) k = false

/-- The events account for the row: whether it is there, and what it holds in the columns
they speak of. -/
structure Explains (start : Option (Dict V)) (events : List (AuditEvent V)) (row : Option (Dict V)) : Prop where
  there : (replay start events).isSome = row.isSome
  column : ∀ told r, replay start events = some told → row = some r → ∀ k, Shown py audit events k →
    ∀ value held, told.lookup k = some value → r.lookup k = some held → Reached py columns k value held

variable {py columns audit}

/-- If what says the same is stored the same, the column holds what was recorded. -/
theorem Reached.eq_stored {k : String} {value held : Option V} (h : Reached py columns k value held)
    (hsame : ∀ u v, py.same (columns.stored k u) v = true → columns.stored k v = columns.stored k u) :
    held = columns.stored k value := by
  induction h with
  | recorded => rfl
  | rewritten _ hsame' ih =>
    rw [ih] at hsame'
    exact hsame _ _ hsame'

theorem history_append (a b : List (Nat × AuditEvent V)) (i : Nat) : history (a ++ b) i = history a i ++ history b i :=
  List.filterMap_append

theorem replay_append (start : Option (Dict V)) (events : List (AuditEvent V)) (e : AuditEvent V) :
    replay start (events ++ [e]) = tell (replay start events) e := by
  simp [replay]

/-! ### Lookups -/

/-- The new value where there is one, and else the old. -/
theorem lookup_overlay (old new : Dict V) (k : String) : (overlay old new).lookup k = (new.lookup k).or (old.lookup k) := by
  rw [overlay, List.lookup_append, lookup_filter_keys (fun key => (new.lookup key).isNone)]
  cases new.lookup k with
  | none => simp
  | some v => simp

/-- A column that the row lacks is not added. -/
theorem lookup_setColumns (data row : Dict V) (k : String) : (setColumns columns data row).lookup k =
    (row.lookup k).map fun held => ((data.lookup k).map (columns.stored k)).getD held :=
  lookup_map_values (fun key held => ((data.lookup key).map (columns.stored key)).getD held) row k

/-- A name that is not excluded shows its value. -/
theorem lookup_mask {exclude : List String} {k : String} (h : isExcluded py exclude k = false) (values : Dict V) :
    (mask py values exclude).lookup k = values.lookup k := by
  rw [mask_eq_map, lookup_map_values fun key value => if isExcluded py exclude key then some py.redacted else value]
  simp [h]

theorem lookup_differing (data : Data V) (row : Dict V) (k : String) : (differing py row data.values).lookup k =
    (data.values.lookup k).filter fun value => !py.same (row.get k) value :=
  lookup_filter_entries (fun kv => !py.same (row.get kv.1) kv.2) data.nodup k

/-! ### What an event adds -/

section
variable {start : Option (Dict V)} {events : List (AuditEvent V)} {e : AuditEvent V} {row : Dict V} {k : String}

/-- A column that an update does not show as changed holds what it did, or the same again. -/
theorem Reached.unchanged {data : Data V} {value held : Option V}
    (h : ∀ held, row.lookup k = some held → Reached py columns k value held)
    (hsame : (differing py row data.values).lookup k = none)
    (hheld : (setColumns columns data.values row).lookup k = some held) : Reached py columns k value held := by
  rw [lookup_setColumns, Option.map_eq_some_iff] at hheld
  obtain ⟨held₀, hrow, rfl⟩ := hheld
  rw [lookup_differing] at hsame
  cases hdata : data.values.lookup k with
  | none => exact h held₀ hrow
  | some value' =>
    have hget : row.get k = held₀ := by simp [Dict.get, hrow]
    have hsame' : py.same held₀ value' = true := by simpa [hdata, hget, Option.filter] using hsame
    exact .rewritten (h held₀ hrow) hsame'

/-- What is shown over all events is shown over those of either part. -/
theorem Shown.append {a b : List (AuditEvent V)} (h : Shown py audit (a ++ b) k) :
    Shown py audit a k ∧ Shown py audit b k := by
  refine ⟨?_, ?_⟩
  · intro e he
    exact h e (List.mem_append_left _ he)
  · intro e he
    exact h e (List.mem_append_right _ he)

theorem Shown.lookup_mask (h : Shown py audit (events ++ [e]) k) (values : Dict V) :
    (mask py values (excluded py audit e.entityType)).lookup k = values.lookup k :=
  Audit.lookup_mask (h.append.2 e (List.mem_singleton_self e)) values

/-- The event of an insert lists every column of the row. -/
theorem Explains.created {data : Dict V} (hkind : e.event = AuditEvent.created)
    (hnew : e.newValues = some (mask py data (excluded py audit e.entityType)))
    (hstores : ∀ k value held, data.lookup k = some value → row.lookup k = some held → held = columns.stored k value) :
    Explains py columns audit start (events ++ [e]) (some row) := by
  have htold : replay start (events ++ [e]) = some (mask py data (excluded py audit e.entityType)) := by
    rw [replay_append, tell, if_pos hkind, hnew]
    rfl
  constructor
  · rw [htold]
    rfl
  · intro told r heq hr k hshown value held hvalue hheld
    rw [htold] at heq
    cases heq
    cases hr
    rw [hshown.lookup_mask] at hvalue
    rw [hstores k value held hvalue hheld]
    exact .recorded

/-- The event of an update lists the columns that differ, and the others are as the history has
them. -/
theorem Explains.updated {data : Data V} (h : Explains py columns audit start events (some row))
    (hkind : e.event = AuditEvent.updated)
    (hnew : e.newValues = some (mask py (differing py row data.values) (excluded py audit e.entityType))) :
    Explains py columns audit start (events ++ [e]) (some (setColumns columns data.values row)) := by
  have htold : replay start (events ++ [e]) = (replay start events).map fun old =>
      overlay old (mask py (differing py row data.values) (excluded py audit e.entityType)) := by
    rw [replay_append, tell, hkind, if_neg (by decide), if_pos rfl, hnew]
    rfl
  constructor
  · rw [htold, Option.isSome_map, h.there]
    rfl
  · intro told r heq hr k hshown value held hvalue hheld
    cases hr
    rw [htold, Option.map_eq_some_iff] at heq
    obtain ⟨old, hold, rfl⟩ := heq
    rw [lookup_overlay, hshown.lookup_mask] at hvalue
    cases hchanged : (differing py row data.values).lookup k with
    | none =>
      rw [hchanged, Option.none_or] at hvalue
      exact Reached.unchanged (h.column old row hold rfl k hshown.append.1 value · hvalue) hchanged hheld
    | some value' =>
      -- the value recorded is the one written
      rw [hchanged, Option.some_or, Option.some.injEq] at hvalue
      subst hvalue
      rw [lookup_differing, Option.filter_eq_some_iff] at hchanged
      rw [lookup_setColumns, hchanged.1, Option.map_eq_some_iff] at hheld
      obtain ⟨held₀, -, rfl⟩ := hheld
      exact .recorded

/-- An update that shows no change of the row has no event for it. -/
theorem Explains.unchanged {data : Data V} (h : Explains py columns audit start events (some row))
    (hsame : differing py row data.values = []) :
    Explains py columns audit start events (some (setColumns columns data.values row)) := by
  constructor
  · exact h.there
  · intro told r htold hr k hshown value held hvalue hheld
    cases hr
    refine Reached.unchanged (h.column told row htold rfl k hshown value · hvalue) ?_ hheld
    rw [hsame]
    rfl

/-- After a delete there is no row to explain. -/
theorem Explains.deleted (hkind : e.event = AuditEvent.deleted) : Explains py columns audit start (events ++ [e]) none := by
  have htold : replay start (events ++ [e]) = none := by
    rw [replay_append, tell, hkind, if_neg (by decide), if_neg (by decide), if_pos rfl]
  constructor
  · rw [htold]
  · intro told r heq hr
    cases hr

/-- Before any event a row is as it was. -/
theorem Explains.nil (hstored : ∀ r, start = some r → ∀ k value, r.lookup k = some value → columns.stored k value = value) :
    Explains py columns audit start [] start := by
  constructor
  · rfl
  · intro told r htold hr k hshown value held hvalue hheld
    obtain rfl : told = r := Option.some.inj (htold.symm.trans hr)
    obtain rfl : value = held := Option.some.inj (hvalue.symm.trans hheld)
    have hreached : Reached py columns k value (columns.stored k value) := .recorded
    rw [hstored told hr k value hvalue] at hreached
    exact hreached

end

/-! ### The events of a row in what a call records -/

theorem history_logged_of_not_mem {env : Env κ V} {eventOf : Dict V → Option (AuditEvent V)} {found : List (Nat × Dict V)}
    {i : Nat} (h : i ∉ found.map Prod.fst) : history (found.filterMap (logged py audit env eventOf)) i = [] := by
  unfold history
  rw [List.filterMap_eq_nil_iff]
  intro entry hentry
  rw [if_neg]
  intro heq
  have hmem := (sublist_logged env eventOf found).subset (List.mem_map_of_mem hentry)
  exact h (heq ▸ hmem)

/-- A row that was found has the one event that was made of it. -/
theorem history_logged {env : Env κ V} {eventOf : Dict V → Option (AuditEvent V)} {found : List (Nat × Dict V)}
    (hnodup : (found.map Prod.fst).Nodup) {i : Nat} {row : Dict V} (hmem : (i, row) ∈ found) :
    history (found.filterMap (logged py audit env eventOf)) i =
      ((eventOf row).map fun e => (redacted py audit e).withResolved env.context).toList := by
  induction found with
  | nil => cases hmem
  | cons x rest ih =>
    rw [List.map_cons, List.nodup_cons] at hnodup
    have hcons : history ((x :: rest).filterMap (logged py audit env eventOf)) i =
        history ([x].filterMap (logged py audit env eventOf)) i ++
          history (rest.filterMap (logged py audit env eventOf)) i := by
      rw [← history_append, ← List.filterMap_append, List.singleton_append]
    rw [hcons]
    rw [List.mem_cons] at hmem
    obtain rfl | hrest := hmem
    · rw [history_logged_of_not_mem hnodup.1, List.append_nil]
      cases he : eventOf row with
      | none => simp [history, logged, he]
      | some e => simp [history, logged, he]
    · have hne : i ∉ [x].map Prod.fst := by
        rw [List.map_singleton, List.mem_singleton]
        rintro rfl
        exact hnodup.1 (List.mem_map.2 ⟨_, hrest, rfl⟩)
      rw [history_logged_of_not_mem hne, List.nil_append]
      exact ih hnodup.2 hrest

/-! ### The invariant -/

section
variable [DecidableEq κ]

variable (py audit) in
/-- What a session has yet to record. -/
def due : Phase κ V → List (Nat × AuditEvent V)
  | .recording call found _ => found.filterMap (logged py audit call.env (call.change.eventOf py audit call.req))
  | _ => []

variable (columns) in
/-- What was read is the session's, as it was read. -/
def Locked (t : Table κ (Dict V)) (c : κ) (call : Changing κ V) (found : List (Nat × Dict V)) : Prop :=
  (found.map Prod.fst).Nodup ∧ ∀ x ∈ found,
    (t.slot x.1).held = some (c, some x.2) ∧ condition columns call.cond x.1 x.2 = true

variable (columns) in
/-- What holds in a phase. A write that starts finds all that was read. -/
def InPhase (t : Table κ (Dict V)) (c : κ) : Phase κ V → Prop
  | .read call found => Locked columns t c call found
  | .writing call found ids => Locked columns t c call found ∧ ∀ x ∈ found, x.1 ∈ ids
  | _ => True

variable (py columns audit) in
/-- What a session has written is explained by the trail and what it records, and it
records nothing of other rows. -/
structure Own (before : Nat → Option (Dict V)) (sys : System κ V) (c : κ) : Prop where
  held : ∀ i v, (sys.table.slot i).held = some (c, v) →
    Explains py columns audit (before i) (history (sys.trail ++ sys.pending c ++ due py audit (sys.phase c)) i) v
  free : ∀ i, (∀ v, (sys.table.slot i).held ≠ some (c, v)) →
    history (sys.pending c ++ due py audit (sys.phase c)) i = []
  phase : InPhase columns sys.table c (sys.phase c)

variable (py columns audit) in
/-- The trail explains what is committed, and with what it has still to record a session explains
what it sees. -/
structure Invariant (before : Nat → Option (Dict V)) (sys : System κ V) : Prop where
  committed : ∀ i, Explains py columns audit (before i) (history sys.trail i) (sys.table.slot i).committed
  own : ∀ c, sys.phase c ≠ .failed → Own py columns audit before sys c

variable {before : Nat → Option (Dict V)} {sys sys' : System κ V} {c d : κ}

/-- What a session sees is explained by the trail and what it records. -/
theorem Own.view (h : Own py columns audit before sys c)
    (hcommitted : ∀ i, Explains py columns audit (before i) (history sys.trail i) (sys.table.slot i).committed) (i : Nat) :
    Explains py columns audit (before i) (history (sys.trail ++ sys.pending c ++ due py audit (sys.phase c)) i)
      ((sys.table.slot i).view c) := by
  by_cases hheld : ∃ v, (sys.table.slot i).held = some (c, v)
  · obtain ⟨v, hv⟩ := hheld
    have hview : (sys.table.slot i).view c = v := by simp [Slot.view, hv]
    rw [hview]
    exact h.held i v hv
  · have hfree : ∀ v, (sys.table.slot i).held ≠ some (c, v) := fun v hv => hheld ⟨v, hv⟩
    rw [Table.view_of_not_held hfree, List.append_assoc, history_append, h.free i hfree, List.append_nil]
    exact hcommitted i

/-- What the others do leaves alone what a session has. -/
theorem Own.of_others (h : Own py columns audit before sys d) (hne : d ≠ c)
    (htable : Table.KeepsOthers c sys.table sys'.table) (hpending : sys'.pending d = sys.pending d)
    (hphase : sys'.phase d = sys.phase d)
    (htrail : ∀ i v, (sys.table.slot i).held = some (d, v) → history sys'.trail i = history sys.trail i) :
    Own py columns audit before sys' d := by
  have hlocked {call : Changing κ V} {found : List (Nat × Dict V)} (hl : Locked columns sys.table d call found) :
      Locked columns sys'.table d call found := by
    refine ⟨hl.1, fun x hx => ?_⟩
    obtain ⟨hheld, hcond⟩ := hl.2 x hx
    rw [htable.held hne (.inl hheld)]
    exact ⟨hheld, hcond⟩
  constructor
  · intro i v hheld
    rw [htable.held hne (.inr hheld)] at hheld
    rw [hpending, hphase, history_append, history_append, htrail i v hheld, ← history_append, ← history_append]
    exact h.held i v hheld
  · intro i hfree
    rw [hpending, hphase]
    apply h.free i
    intro v hheld
    apply hfree v
    rw [htable.held hne (.inl hheld)]
    exact hheld
  · have hphase₀ := h.phase
    rw [hphase]
    revert hphase₀
    cases sys.phase d with
    | read call found => exact hlocked
    | writing call found ids => exact fun hp => ⟨hlocked hp.1, hp.2⟩
    | _ => exact id

/-! ### What each phase keeps -/

variable {call : Changing κ V} {found : List (Nat × Dict V)} {ids : List Nat}

omit [DecidableEq κ] in
/-- A statement that writes and locks nothing. -/
theorem Own.of_phase (h : Own py columns audit before sys c) (htable : sys'.table = sys.table)
    (htrail : sys'.trail = sys.trail)
    (hrecords : sys'.pending c ++ due py audit (sys'.phase c) = sys.pending c ++ due py audit (sys.phase c))
    (hphase : InPhase columns sys.table c (sys'.phase c)) : Own py columns audit before sys' c := by
  constructor
  · intro i v hheld
    rw [htable] at hheld
    rw [htrail, List.append_assoc, hrecords, ← List.append_assoc]
    exact h.held i v hheld
  · intro i hfree
    rw [htable] at hfree
    rw [hrecords]
    exact h.free i hfree
  · rw [htable]
    exact hphase

/-- The read locks what it finds. -/
theorem Own.reads (h : Own py columns audit before sys c)
    (hcommitted : ∀ i, Explains py columns audit (before i) (history sys.trail i) (sys.table.slot i).committed)
    (hphase : sys.phase c = .reading call ids)
    (htable : sys'.table = sys.table.lock c (Table.again ids (condition columns call.cond)))
    (htrail : sys'.trail = sys.trail) (hpending : sys'.pending c = sys.pending c)
    (hphase' : sys'.phase c = .read call (sys.table.rows c (Table.again ids (condition columns call.cond)))) :
    Own py columns audit before sys' c := by
  have hrecords : sys'.pending c ++ due py audit (sys'.phase c) = sys.pending c ++ due py audit (sys.phase c) := by
    rw [hpending, hphase, hphase']
    rfl
  -- A lock writes to a row what is seen of it.
  have hslot (i : Nat) : (∃ r, (sys.table.slot i).view c = some r ∧
        sys'.table.slot i = (sys.table.slot i).write c (some r)) ∨ sys'.table.slot i = sys.table.slot i := by
    rw [htable]
    by_cases hmatch : ∃ r, (sys.table.slot i).view c = some r ∧ Table.again ids (condition columns call.cond) i r = true
    · obtain ⟨r, hview, hp⟩ := hmatch
      exact .inl ⟨r, hview, Table.slot_modify_of hview hp⟩
    · refine .inr (Table.slot_modify_of_not fun r hview => ?_)
      by_contra hp
      exact hmatch ⟨r, hview, by simpa using hp⟩
  constructor
  · intro i v hheld
    rw [htrail, List.append_assoc, hrecords, ← List.append_assoc]
    obtain ⟨r, hview, hwrite⟩ | hkept := hslot i
    · rw [hwrite] at hheld
      obtain rfl : some r = v := by simpa [Slot.write] using hheld
      rw [← hview]
      exact h.view hcommitted i
    · rw [hkept] at hheld
      exact h.held i v hheld
  · intro i hfree
    rw [hrecords]
    obtain ⟨r, -, hwrite⟩ | hkept := hslot i
    · exact absurd (by rw [hwrite]; rfl) (hfree (some r))
    · rw [hkept] at hfree
      exact h.free i hfree
  · rw [hphase']
    refine ⟨Table.nodup_found, ?_⟩
    rintro ⟨i, r⟩ hx
    obtain ⟨hview, hp⟩ := Table.mem_rows.1 hx
    rw [htable]
    refine ⟨?_, ?_⟩
    · show ((sys.table.modify c _ some).slot i).held = _
      rw [Table.slot_modify_of hview hp]
      rfl
    · simp only [Table.again, Bool.and_eq_true] at hp
      exact hp.2

variable (py) in
/-- The write shows a change of the row. -/
def Change.shows : Change V → Dict V → Bool
  | .update data, row => !(differing py row data.values).isEmpty
  | .delete, _ => true

omit [DecidableEq κ] in
/-- What is recorded of a row that was read explains what the write makes of it. -/
theorem Explains.recorded {start : Option (Dict V)} {events : List (AuditEvent V)} {row : Dict V}
    (h : Explains py columns audit start events (some row)) (call : Changing κ V) :
    Explains py columns audit start
      (events ++ ((call.change.eventOf py audit call.req row).map fun e =>
        (redacted py audit e).withResolved call.env.context).toList)
      (call.change.apply columns row) := by
  obtain ⟨req, change, cond, env⟩ := call
  cases change with
  | update data =>
    obtain ⟨hnone, hsome⟩ := between_update py row data.values
    by_cases hsame : differing py row data.values = []
    · have hevent : updatedEvent py audit req data.values row = none := by simp [updatedEvent, hnone hsame]
      simp only [Change.eventOf, hevent, Option.map_none, Option.toList_none, List.append_nil]
      exact h.unchanged hsame
    · have hevent : updatedEvent py audit req data.values row = some (eventFor py audit req AuditEvent.updated row
          (some (replaced py row data.values), some (differing py row data.values))) := by
        simp [updatedEvent, hsome hsame]
      simp only [Change.eventOf, hevent, Option.map_some, Option.toList_some]
      exact h.updated rfl rfl
  | delete => exact Explains.deleted rfl

/-- And of a row that the write shows no change of, without an event. -/
theorem Explains.silent {start : Option (Dict V)} {events : List (AuditEvent V)} {row : Dict V}
    (h : Explains py columns audit start events (some row)) {change : Change V} (hshows : change.shows py row = false) :
    Explains py columns audit start events (change.apply columns row) := by
  cases change with
  | update data =>
    refine h.unchanged ?_
    simpa [Change.shows] using hshows
  | delete => cases hshows

/-- The write finds what was read, and shows no change of what else it finds. -/
theorem Own.writes (h : Own py columns audit before sys c)
    (hcommitted : ∀ i, Explains py columns audit (before i) (history sys.trail i) (sys.table.slot i).committed)
    (hphase : sys.phase c = .writing call found ids)
    (hseen : ∀ row ∈ sys.table.rows c (Table.again ids (condition columns call.cond)), row ∉ found →
      call.change.shows py row.2 = false)
    (htable : sys'.table =
      sys.table.modify c (Table.again ids (condition columns call.cond)) (call.change.apply columns))
    (htrail : sys'.trail = sys.trail) (hpending : sys'.pending c = sys.pending c) {affected : Nat}
    (hphase' : sys'.phase c = .recording call found affected) : Own py columns audit before sys' c := by
  obtain ⟨hlocked, hids⟩ : Locked columns sys.table c call found ∧ ∀ x ∈ found, x.1 ∈ ids := by
    have hin := h.phase
    rw [hphase] at hin
    exact hin
  -- What was read is locked, so the write finds it as it was.
  have hread {i : Nat} {r : Dict V} (hmem : (i, r) ∈ found) : (sys.table.slot i).view c = some r ∧
      Table.again ids (condition columns call.cond) i r = true := by
    obtain ⟨hheld, hcond⟩ := hlocked.2 _ hmem
    refine ⟨by simp [Slot.view, hheld], ?_⟩
    rw [Table.again, decide_eq_true (hids _ hmem), hcond]
    rfl
  have hview (i : Nat) : Explains py columns audit (before i) (history (sys.trail ++ sys.pending c) i)
      ((sys.table.slot i).view c) := by
    have hdue : due py audit (sys.phase c) = [] := by rw [hphase]; rfl
    have hv := h.view hcommitted i
    rw [hdue, List.append_nil] at hv
    exact hv
  have hrecords : due py audit (sys'.phase c) =
      found.filterMap (logged py audit call.env (call.change.eventOf py audit call.req)) := by
    rw [hphase']
    rfl
  -- Each slot is either written, and its event or its silence explains the new value, or left, and it has no
  -- event.
  have hslot (i : Nat) : (∃ v, sys'.table.slot i = (sys.table.slot i).write c v ∧ Explains py columns audit (before i)
        (history (sys.trail ++ sys.pending c) i ++ history (due py audit (sys'.phase c)) i) v) ∨
      (sys'.table.slot i = sys.table.slot i ∧ history (due py audit (sys'.phase c)) i = []) := by
    rw [htable, hrecords]
    by_cases hmatch : ∃ r, (sys.table.slot i).view c = some r ∧ Table.again ids (condition columns call.cond) i r = true
    · obtain ⟨r, hr, hp⟩ := hmatch
      refine .inl ⟨call.change.apply columns r, Table.slot_modify_of hr hp, ?_⟩
      have hexplains := hview i
      rw [hr] at hexplains
      by_cases hmem : (i, r) ∈ found
      · rw [history_logged hlocked.1 hmem]
        exact hexplains.recorded call
      · have hnone : i ∉ found.map Prod.fst := by
          intro hin
          obtain ⟨⟨j, r'⟩, hmem', rfl⟩ := List.mem_map.1 hin
          rw [(hread hmem').1, Option.some.injEq] at hr
          exact hmem (hr ▸ hmem')
        rw [history_logged_of_not_mem hnone, List.append_nil]
        exact hexplains.silent (hseen (i, r) (Table.mem_rows.2 ⟨hr, hp⟩) hmem)
    · refine .inr ⟨Table.slot_modify_of_not fun r hr => ?_, history_logged_of_not_mem ?_⟩
      · by_contra hp
        exact hmatch ⟨r, hr, by simpa using hp⟩
      · intro hin
        obtain ⟨⟨j, r⟩, hmem, rfl⟩ := List.mem_map.1 hin
        exact hmatch ⟨r, hread hmem⟩
  have hdue : due py audit (sys.phase c) = [] := by rw [hphase]; rfl
  constructor
  · intro i v hheld
    rw [htrail, hpending, history_append]
    obtain ⟨v', hwrite, hexplains⟩ | ⟨hkept, hnone⟩ := hslot i
    · rw [hwrite] at hheld
      obtain rfl : v' = v := by simpa [Slot.write] using hheld
      exact hexplains
    · rw [hkept] at hheld
      have hexplains := h.held i v hheld
      rw [hdue, List.append_nil] at hexplains
      rw [hnone, List.append_nil]
      exact hexplains
  · intro i hfree
    rw [hpending, history_append]
    obtain ⟨v, hwrite, -⟩ | ⟨hkept, hnone⟩ := hslot i
    · exact absurd (by rw [hwrite]; rfl) (hfree v)
    · rw [hkept] at hfree
      have hrest := h.free i hfree
      rw [hdue, List.append_nil] at hrest
      rw [hrest, hnone]
      rfl
  · rw [hphase']
    trivial

omit [DecidableEq κ] in
/-- The row that an `insert` makes is the session's. -/
theorem Own.inserts (h : Own py columns audit before sys c) (hphase : sys.phase c = .idle) {row data : Dict V}
    {e : AuditEvent V} (hkind : e.event = AuditEvent.created)
    (hnew : e.newValues = some (mask py data (excluded py audit e.entityType)))
    (hstores : ∀ k value held, data.lookup k = some value → row.lookup k = some held → held = columns.stored k value)
    (htable : sys'.table = (sys.table.insert c row).2) (htrail : sys'.trail = sys.trail)
    (hpending : sys'.pending c = sys.pending c ++ [(sys.table.seq + 1, e)]) (hphase' : sys'.phase c = .idle) :
    Own py columns audit before sys' c := by
  -- Only the new row has a new event.
  have hrecords (i : Nat) : history (sys'.pending c ++ due py audit (sys'.phase c)) i =
      history (sys.pending c ++ due py audit (sys.phase c)) i ++ if sys.table.seq + 1 = i then [e] else [] := by
    have hdue : due py audit (sys.phase c) = [] := by rw [hphase]; rfl
    have hdue' : due py audit (sys'.phase c) = [] := by rw [hphase']; rfl
    rw [hdue, hdue', hpending, List.append_nil, List.append_nil, history_append]
    congr 1
    by_cases hi : sys.table.seq + 1 = i
    · simp [history, hi]
    · simp [history, hi]
  have hslot (i : Nat) : sys'.table.slot i =
      if sys.table.seq + 1 = i then Slot.blank.write c (some row) else sys.table.slot i := by
    rw [htable]
    by_cases hi : sys.table.seq + 1 = i
    · subst hi
      simp [Table.insert]
    · rw [if_neg hi]
      exact Function.update_of_ne (Ne.symm hi) _ _
  constructor
  · intro i v hheld
    rw [hslot] at hheld
    rw [htrail, List.append_assoc, history_append, hrecords, ← List.append_assoc, ← history_append, ← List.append_assoc]
    split at hheld
    · rename_i hi
      obtain rfl : some row = v := by simpa [Slot.write] using hheld
      rw [if_pos hi]
      exact Explains.created hkind hnew hstores
    · rename_i hi
      rw [if_neg hi, List.append_nil]
      exact h.held i v hheld
  · intro i hfree
    rw [hslot] at hfree
    rw [hrecords]
    split at hfree
    · exact absurd rfl (hfree (some row))
    · rename_i hi
      rw [if_neg hi, List.append_nil]
      exact h.free i hfree
  · rw [hphase']
    trivial

omit [DecidableEq κ] in
/-- After the commit or the rollback the session has nothing, and records nothing. -/
theorem Own.of_none (hholds : sys'.table.HoldsNone c) (hpending : sys'.pending c = []) (hphase : sys'.phase c = .idle) :
    Own py columns audit before sys' c := by
  constructor
  · intro i v hheld
    exact absurd hheld (hholds i v)
  · intro i _
    rw [hpending, hphase]
    rfl
  · rw [hphase]
    trivial

/-! ### Every run -/

variable (py columns) in
/-- A write that goes on now finds nothing unread, unless it shows no change of it. -/
def SeenIn (t : Table κ (Dict V)) (c : κ) : Phase κ V → Prop
  | .writing call found ids => t.blocked c (Table.again ids (condition columns call.cond)) = false →
    ∀ row ∈ t.rows c (Table.again ids (condition columns call.cond)), row ∉ found → call.change.shows py row.2 = false
  | _ => True

variable (py columns) in
/-- Nothing comes to match unread. -/
def Seen : Action κ V columns → System κ V → Prop
  | .proceed c, sys => SeenIn py columns sys.table c (sys.phase c)
  | _, _ => True

instance decidableSeenIn [DecidableEq V] (t : Table κ (Dict V)) (c : κ) :
    (phase : Phase κ V) → Decidable (SeenIn py columns t c phase)
  | .writing _ found _ => inferInstanceAs (Decidable (_ = false → ∀ row ∈ t.rows c _, row ∉ found → _ = false))
  | .idle | .reading .. | .read .. | .recording .. | .failed => .isTrue trivial

instance decidableSeen [DecidableEq V] : (action : Action κ V columns) → (sys : System κ V) →
    Decidable (Seen py columns action sys)
  | .proceed c, sys => decidableSeenIn sys.table c (sys.phase c)
  | .insert .., _ | .change .., _ | .fails _, _ | .commit _, _ | .rollback _, _ => .isTrue trivial

/-- The session after a call got on: in its next phase, or as it was if a statement has
to wait, or failed. -/
theorem advance_cases {m : Call κ V (Phase κ V)} {s : State κ V} {r : Except Fault (Phase κ V)}
    (h : m ⟨sys.table, sys.pending c, [], []⟩ = (s, r)) : sys.advance c m = sys ∨ sys.advance c m =
      { sys with
        table := s.table
        pending := Function.update sys.pending c s.log
        phase := Function.update sys.phase c (r.toOption.getD .failed) } := by
  unfold System.advance
  rw [h]
  cases r with
  | ok phase => exact .inr rfl
  | error e =>
    cases e with
    | waiting => exact .inl rfl
    | _ => exact .inr rfl

/-- A call that gets on leaves alone what others have, and what it has is explained if it
is where it got to. -/
theorem Invariant.advance (h : Invariant py columns audit before sys) {m : Call κ V (Phase κ V)}
    (hmoves : Moves (Private c) m)
    (hown : ∀ s phase, m ⟨sys.table, sys.pending c, [], []⟩ = (s, .ok phase) → phase ≠ .failed →
      Own py columns audit before
        { sys with
          table := s.table
          pending := Function.update sys.pending c s.log
          phase := Function.update sys.phase c phase } c) :
    Invariant py columns audit before (sys.advance c m) := by
  have hprivate := hmoves ⟨sys.table, sys.pending c, [], []⟩
  rcases hrun : m ⟨sys.table, sys.pending c, [], []⟩ with ⟨s, r⟩
  rw [hrun] at hprivate
  obtain ⟨hkeeps, hsame⟩ := hprivate
  obtain heq | heq := advance_cases hrun
  · rw [heq]
    exact h
  · rw [heq]
    constructor
    · intro i
      rw [hsame i]
      exact h.committed i
    · intro d hd
      by_cases hdc : d = c
      · subst hdc
        cases r with
        | error e => exact absurd (Function.update_self ..) hd
        | ok phase =>
          apply hown s phase hrun
          rintro rfl
          exact hd (Function.update_self ..)
      · dsimp only at hd
        rw [Function.update_of_ne hdc] at hd
        exact (h.own d hd).of_others hdc hkeeps (Function.update_of_ne hdc ..) (Function.update_of_ne hdc ..) fun _ _ _ => rfl

/-- On to the next phase. -/
theorem Invariant.proceed (hstrict : audit.strict = true) (h : Invariant py columns audit before sys)
    (hseen : Seen py columns (.proceed c) sys) :
    Invariant py columns audit before (sys.advance c (next py columns audit c (sys.phase c))) := by
  refine h.advance (moves_next _) ?_
  intro s phase hrun hphase
  have hpending : (Function.update sys.pending c s.log) c = s.log := Function.update_self ..
  have hnext : (Function.update sys.phase c phase) c = phase := Function.update_self ..
  -- A call reads, writes and records. Only the write changes the table, and only the record adds to what is
  -- pending.
  cases hp : sys.phase c with
  | idle =>
    rw [hp] at hrun
    obtain ⟨rfl, rfl⟩ := Program.pure_eq_ok.1 hrun
    refine (h.own c (by simp [hp])).of_phase rfl rfl ?_ ?_
    · dsimp only
      rw [hpending, hnext, hp]
    · dsimp only
      rw [hnext]
      trivial
  | reading call ids =>
    rw [hp] at hrun
    obtain ⟨-, rfl, htable, hlog⟩ := reads_ok hrun
    exact (h.own c (by simp [hp])).reads h.committed hp htable rfl (hpending.trans hlog) hnext
  | read call found =>
    rw [hp] at hrun
    obtain ⟨rfl, rfl⟩ := starts_ok hrun
    have hown := h.own c (by simp [hp])
    refine hown.of_phase rfl rfl ?_ ?_
    · dsimp only
      rw [hpending, hnext, hp]
      rfl
    · have hlocked := hown.phase
      rw [hp] at hlocked
      dsimp only
      rw [hnext]
      refine ⟨hlocked, fun x hx => ?_⟩
      obtain ⟨hheld, hcond⟩ := hlocked.2 x hx
      exact Table.mem_found.2 ⟨x.2, by simp [Slot.view, hheld], hcond⟩
  | writing call found ids =>
    rw [hp] at hrun
    obtain ⟨hfree, ⟨affected, rfl⟩, htable, hlog⟩ := writes_ok hrun
    rw [Seen, hp] at hseen
    exact (h.own c (by simp [hp])).writes h.committed hp (hseen hfree) htable rfl (hpending.trans hlog) hnext
  | recording call found affected =>
    rw [hp] at hrun
    obtain ⟨rfl, htable, hlog⟩ := records_ok hstrict hrun
    refine (h.own c (by simp [hp])).of_phase htable rfl ?_ ?_
    · dsimp only
      rw [hpending, hnext, hlog, hp]
      exact List.append_nil _
    · dsimp only
      rw [hnext]
      trivial
  | failed =>
    rw [hp] at hrun
    obtain ⟨-, rfl⟩ := Program.pure_eq_ok.1 hrun
    exact absurd rfl hphase

/-- What a session committed is explained by the trail with what it recorded. -/
theorem Invariant.commit (h : Invariant py columns audit before sys) (hready : sys.phase c = .idle) :
    Invariant py columns audit before
      { sys with
        table := sys.table.commit c
        trail := sys.trail ++ sys.pending c
        pending := Function.update sys.pending c [] } := by
  have hown := h.own c (by simp [hready])
  have hdue : due py audit (sys.phase c) = [] := by rw [hready]; rfl
  have hnone (i : Nat) (hfree : ∀ v, (sys.table.slot i).held ≠ some (c, v)) :
      history (sys.trail ++ sys.pending c) i = history sys.trail i := by
    have hrest := hown.free i hfree
    rw [hdue, List.append_nil] at hrest
    rw [history_append, hrest, List.append_nil]
  constructor
  · intro i
    show Explains py columns audit (before i) (history (sys.trail ++ sys.pending c) i) ((sys.table.slot i).commit c).committed
    by_cases hheld : ∃ v, (sys.table.slot i).held = some (c, v)
    · obtain ⟨v, hv⟩ := hheld
      have hexplains := hown.held i v hv
      rw [hdue, List.append_nil] at hexplains
      have hcommit : ((sys.table.slot i).commit c).committed = v := by simp [Slot.commit, hv]
      rw [hcommit]
      exact hexplains
    · have hfree : ∀ v, (sys.table.slot i).held ≠ some (c, v) := fun v hv => hheld ⟨v, hv⟩
      rw [Table.slot_commit_of_not_held hfree, hnone i hfree]
      exact h.committed i
  · intro d hd
    by_cases hdc : d = c
    · subst hdc
      exact Own.of_none Table.holdsNone_commit (Function.update_self ..) hready
    · refine (h.own d hd).of_others hdc Table.keepsOthers_commit (Function.update_of_ne hdc ..) rfl ?_
      intro i v hheld
      apply hnone i
      intro v' hheld'
      rw [hheld] at hheld'
      exact hdc (congrArg Prod.fst (Option.some.inj hheld'))

theorem Invariant.rollback (h : Invariant py columns audit before sys) :
    Invariant py columns audit before
      { sys with
        table := sys.table.rollback c
        pending := Function.update sys.pending c []
        phase := Function.update sys.phase c .idle } := by
  constructor
  · intro i
    rw [Table.sameCommitted_rollback i]
    exact h.committed i
  · intro d hd
    by_cases hdc : d = c
    · subst hdc
      exact Own.of_none Table.holdsNone_rollback (Function.update_self ..) (Function.update_self ..)
    · have hphase : (Function.update sys.phase c Phase.idle) d = sys.phase d := Function.update_of_ne hdc ..
      exact (h.own d (hphase ▸ hd)).of_others hdc Table.keepsOthers_rollback (Function.update_of_ne hdc ..) hphase
        fun _ _ _ => rfl

/-- One action of one session, one case for each. -/
theorem Invariant.step (hstrict : audit.strict = true) (h : Invariant py columns audit before sys)
    (action : Action κ V columns) (hseen : Seen py columns action sys) :
    Invariant py columns audit before (step py columns audit action sys) := by
  cases action with
  | insert c call =>
    rw [Audit.step]
    split
    · rename_i hready
      rw [System.ready_iff] at hready
      refine h.advance (Moves.bind Private.trans (moves_insert _ _ _ _ _) fun _ => Moves.pure Private.refl) ?_
      intro s phase hrun _
      obtain ⟨s₁, id, hinsert, hpure⟩ := Program.bind_eq_ok.1 hrun
      obtain ⟨rfl, rfl⟩ := Program.pure_eq_ok.1 hpure
      obtain ⟨row, hcreate, htable, hlog⟩ := insert_ok hstrict hinsert
      exact (h.own c (by simp [hready])).inserts hready rfl rfl (call.stores row hcreate) htable rfl
        ((Function.update_self ..).trans hlog) (Function.update_self ..)
    · exact h
  | change c call =>
    rw [Audit.step]
    split
    · rename_i hready
      rw [System.ready_iff] at hready
      refine h.advance (moves_begins call) ?_
      intro s phase hrun _
      obtain ⟨rfl, rfl⟩ := begins_ok hrun
      refine (h.own c (by simp [hready])).of_phase rfl rfl ?_ ?_
      · dsimp only
        rw [Function.update_self, Function.update_self, hready]
        rfl
      · dsimp only
        rw [Function.update_self]
        trivial
    · exact h
  | proceed c => exact h.proceed hstrict hseen
  | fails c =>
    constructor
    · exact h.committed
    · intro d hd
      have hdc : d ≠ c := by
        rintro rfl
        exact hd (Function.update_self ..)
      have hphase : (Function.update sys.phase c Phase.failed) d = sys.phase d := Function.update_of_ne hdc ..
      exact (h.own d (hphase ▸ hd)).of_others hdc Table.KeepsOthers.refl rfl hphase fun _ _ _ => rfl
  | commit c =>
    rw [Audit.step]
    split
    · rename_i hready
      rw [System.ready_iff] at hready
      exact h.commit hready
    · exact h
  | rollback c => exact h.rollback

omit [DecidableEq κ] in
/-- A table on which nothing is open explains itself. The trail may then begin. -/
theorem Invariant.start {t : Table κ (Dict V)} (hquiet : ∀ c, t.HoldsNone c)
    (hstored : ∀ i r, (t.slot i).committed = some r → ∀ k value, r.lookup k = some value → columns.stored k value = value) :
    Invariant py columns audit (fun i => (t.slot i).committed) (.start t) := by
  constructor
  · intro i
    exact Explains.nil (hstored i)
  · intro c _
    exact Own.of_none (hquiet c) rfl rfl

variable (py columns audit) in
/-- **The trail explains the table.** With strict auditing, however the calls of any number of sessions interleave,
with transactions that commit and others that do not: if no write meets a row that
came to match unread, replaying the committed events of a row tells whether it is
there, and a column that they speak of and do not redact holds what was last recorded
of it, or what an update made of it that says the same; where what says the same is
stored the same, it is exactly what was recorded. -/
theorem trail_explains_table (hstrict : audit.strict = true) (t : Table κ (Dict V)) (hquiet : ∀ c, t.HoldsNone c)
    (hstored : ∀ i r, (t.slot i).committed = some r → ∀ k value, r.lookup k = some value → columns.stored k value = value)
    (actions : List (Action κ V columns))
    (hseen : (sessions py columns audit).Admissible (Seen py columns) (.start t) actions) (i : Nat) :
    let sys := (sessions py columns audit).run (.start t) actions
    let told := replay (t.slot i).committed (history sys.trail i)
    let row := (sys.table.slot i).committed
    told.isSome = row.isSome ∧
    ∀ d r, told = some d → row = some r → ∀ k, Shown py audit (history sys.trail i) k →
      ∀ value held, d.lookup k = some value → r.lookup k = some held →
        Reached py columns k value held ∧
        ((∀ u v, py.same (columns.stored k u) v = true → columns.stored k v = columns.stored k u) →
          held = columns.stored k value) := by
  dsimp only
  have hinv := Machine.invariant (m := sessions py columns audit) (fun action _ hseen h => h.step hstrict action hseen)
    (Invariant.start hquiet hstored) hseen
  refine ⟨(hinv.committed i).there, ?_⟩
  intro d r htold hrow k hshown value held hvalue hheld
  have hreached := (hinv.committed i).column d r htold hrow k hshown value held hvalue hheld
  exact ⟨hreached, hreached.eq_stored⟩

end

/-! ### Two sessions -/

def hire (c : Nat) (id status : String) : Action Nat String textColumns :=
  .insert c ⟨aboutPeople, none, person id status, some, meanwhileOnly [], by
    intro row hrow k value held hvalue hheld
    cases hrow
    exact Option.some.inj (hheld.symm.trans hvalue)⟩

/-- Session 0 lets everyone active go while session 1 hires somebody who is away. -/
def staff : List (Action Nat String textColumns) :=
  [hire 1 "1" "active", .commit 1,
    .change 0 ⟨aboutPeople, .update ⟨[("status", some "left")], by decide⟩, [("status", some "active")], meanwhileOnly []⟩,
    .proceed 0, hire 1 "2" "away", .proceed 0, .commit 1, .proceed 0, .proceed 0, .commit 0]

theorem staff_explained :
    let sys := (sessions texts textColumns defaults).run (.start .empty) staff
    replay none (history sys.trail 1) = some [("status", some "left"), ("id", some "1")] ∧
    (sys.table.slot 1).committed.isSome = true ∧
    ∀ r held, (sys.table.slot 1).committed = some r → r.lookup "status" = some held → held = some "left" := by
  have htold : replay none (history ((sessions texts textColumns defaults).run (.start .empty) staff).trail 1) =
      some [("status", some "left"), ("id", some "1")] := by decide
  obtain ⟨hthere, hcolumns⟩ := trail_explains_table texts textColumns defaults rfl .empty (fun _ _ _ h => by cases h)
    (fun _ _ h => by cases h) staff (by decide) 1
  refine ⟨htold, hthere.symm.trans (by decide), ?_⟩
  intro r held hrow hheld
  refine (hcolumns _ r htold hrow "status" (by unfold Shown; decide) (some "left") held (by decide) hheld).2 ?_
  intro u v hsame
  simpa [texts, textColumns, eq_comm] using hsame

end PyAppRunner.Audit
