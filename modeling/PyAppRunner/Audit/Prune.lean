import PyAppRunner.Audit.Writes
import PyAppRunner.Base.Text

/-! `audit prune`: what is older than a date goes, in batches.

Each batch is a statement and a transaction of its own: it finds the first rows that are old enough, by id, and
deletes what is under these ids when it has got them. It does not look at the date again: a row that another session
has renewed while the statement waited goes as well. What other sessions do meanwhile is given with the statement. A
prune that is interrupted has met fewer statements. -/
namespace PyAppRunner.Audit.Prune
open Base Sql

variable {κ ρ : Type} [DecidableEq κ]

/-- `_BEFORE_RE`. -/
def beforeRe (text : List Char) : Bool :=
  match Text.beforeLastBreak text with
  | [y₁, y₂, y₃, y₄, '-', m₁, m₂, '-', d₁, d₂] => [y₁, y₂, y₃, y₄, m₁, m₂, d₁, d₂].all Text.isDecimal
  | [y₁, y₂, y₃, y₄, '-', m₁, m₂, '-', d₁, d₂, ' ', h₁, h₂, ':', n₁, n₂, ':', s₁, s₂] =>
    [y₁, y₂, y₃, y₄, m₁, m₂, d₁, d₂, h₁, h₂, n₁, n₂, s₁, s₂].all Text.isDecimal
  | _ => false

/-- A statement as it meets the database: what others do before it starts, and while it waits; and whether it is
answered by an error. -/
structure Meets (κ ρ : Type) where
  before : List (Statement κ ρ)
  waiting : List (Statement κ ρ)
  error : Option String

/-- How far a prune has come. -/
inductive Ending where
  | returned (code : Nat)
  /-- A row that it is to delete is another session's. -/
  | waiting
  /-- The next statement has not been met. -/
  | running
deriving DecidableEq

/-- How far a prune has come. `removed` is history: the rows it has deleted, the first one first. -/
structure Result (κ ρ : Type) where
  table : Table κ ρ
  out : List String
  removed : List (Nat × ρ)
  ending : Ending

/-- The arguments of the command line. -/
structure Args where
  /-- The name of the trail's table. -/
  relation : String
  before : String
  batch : Int
  dryRun : Bool

/-- The arguments pass the checks that `cmd_prune` makes first. -/
def Args.accepted (args : Args) : Bool := isTableName args.relation && beforeRe args.before.toList && decide (1 ≤ args.batch)

/-- `WHERE created_at < %s`. -/
abbrev Older (ρ : Type) := ρ → Bool

/-- The age alone decides, not the id. -/
def matching (older : Older ρ) (_ : Nat) (r : ρ) : Bool := older r

/-- `SELECT id … ORDER BY id LIMIT %s`. -/
def oldest (c : κ) (older : Older ρ) (batch : Nat) (t : Table κ ρ) : List Nat :=
  (t.found c (matching older)).take batch

/-- `WHERE id IN (…)`, with the ids that the `SELECT` has found. -/
def oneOf (ids : List Nat) : Nat → ρ → Bool := Table.again ids fun _ _ => true

section
variable (c : κ) (older : Older ρ) (args : Args)

end

/-! ### One statement -/

section
variable {c : κ} {older : Older ρ} {args : Args} {batch total deleted : Nat} {m : Meets κ ρ} {rest meets : List (Meets κ ρ)}
  {t : Table κ ρ} {i : Nat} {r : ρ}

/-- What is older, as the session sees it. -/
abbrev olds (c : κ) (older : Older ρ) (t : Table κ ρ) : List (Nat × ρ) := t.rows c (matching older)

/-- The rows that a statement gets, after it has found them. -/
def gone (c : κ) (older : Older ρ) (batch : Nat) (m : Meets κ ρ) (t : Table κ ρ) : List (Nat × ρ) :=
  ((t.meanwhile c m.before).meanwhile c m.waiting).rows c (oneOf (oldest c older batch (t.meanwhile c m.before)))

/-- The table after a round that was not in the way of another session. -/
def after (c : κ) (older : Older ρ) (batch : Nat) (m : Meets κ ρ) (t : Table κ ρ) : Table κ ρ :=
  (((t.meanwhile c m.before).meanwhile c m.waiting).modify c
    (oneOf (oldest c older batch (t.meanwhile c m.before))) fun _ => none).commit c

/-- One of the rows to delete is held by another session. -/
def blocked (c : κ) (older : Older ρ) (batch : Nat) (m : Meets κ ρ) (t : Table κ ρ) : Bool :=
  ((t.meanwhile c m.before).meanwhile c m.waiting).blocked c (oneOf (oldest c older batch (t.meanwhile c m.before)))

/-- One of the statements has found the row to be older. -/
def FoundOlder (c : κ) (older : Older ρ) (batch : Nat) : List (Meets κ ρ) → Table κ ρ → Nat → Prop
  | [], _, _ => False
  | m :: rest, t, i =>
    (∃ r, (i, r) ∈ olds c older (t.meanwhile c m.before)) ∨ FoundOlder c older batch rest (after c older batch m t) i

/-- What comes of the loop. -/
inductive Swept (c : κ) (older : Older ρ) (args : Args) (batch total : Nat) :
    List (Meets κ ρ) → Nat → Table κ ρ → Result κ ρ → Prop where
  | enough {meets : List (Meets κ ρ)} {deleted : Nat} {t : Table κ ρ} (h : total ≤ deleted) :
      Swept c older args batch total meets deleted t ⟨t, ["Done. " ++ toString deleted ++ " rows removed."], [], .returned 0⟩
  | running {deleted : Nat} {t : Table κ ρ} (h : deleted < total) :
      Swept c older args batch total [] deleted t ⟨t, [], [], .running⟩
  | fails {m : Meets κ ρ} {rest : List (Meets κ ρ)} {deleted : Nat} {t : Table κ ρ} {e : String} (h : deleted < total)
      (herror : m.error = some e) : Swept c older args batch total (m :: rest) deleted t
        ⟨t.meanwhile c m.before, ["error: cannot delete from " ++ args.relation ++ ": " ++ e], [], .returned 1⟩
  | waiting {m : Meets κ ρ} {rest : List (Meets κ ρ)} {deleted : Nat} {t : Table κ ρ} (h : deleted < total)
      (herror : m.error = none) (hblocked : blocked c older batch m t = true) :
      Swept c older args batch total (m :: rest) deleted t
        ⟨(t.meanwhile c m.before).meanwhile c m.waiting, [], [], .waiting⟩
  | nothing {m : Meets κ ρ} {rest : List (Meets κ ρ)} {deleted : Nat} {t : Table κ ρ} (h : deleted < total)
      (herror : m.error = none) (hfree : blocked c older batch m t = false) (hgone : gone c older batch m t = []) :
      Swept c older args batch total (m :: rest) deleted t
        ⟨after c older batch m t, ["Done. " ++ toString deleted ++ " rows removed."], [], .returned 0⟩
  | more {m : Meets κ ρ} {rest : List (Meets κ ρ)} {deleted : Nat} {t : Table κ ρ} {next : Result κ ρ} (h : deleted < total)
      (herror : m.error = none) (hfree : blocked c older batch m t = false) (hgone : gone c older batch m t ≠ [])
      (hnext : Swept c older args batch total rest (deleted + (gone c older batch m t).length) (after c older batch m t) next) :
      Swept c older args batch total (m :: rest) deleted t {next with
        out := ("Deleted " ++ toString (deleted + (gone c older batch m t).length) ++ "/" ++ toString total) :: next.out
        removed := gone c older batch m t ++ next.removed}

theorem oneOf_iff {ids : List Nat} : oneOf ids i r = true ↔ i ∈ ids := by
  rw [oneOf, Table.again, Bool.and_true, decide_eq_true_eq]

theorem mem_oldest (h : i ∈ oldest c older batch t) : ∃ r, (i, r) ∈ olds c older t := by
  obtain ⟨⟨j, r⟩, hmem, rfl⟩ := List.mem_map.1 (List.mem_of_mem_take h)
  exact ⟨r, hmem⟩

/-- A row that is removed was among the ids that the round selected. -/
theorem mem_gone (h : (i, r) ∈ gone c older batch m t) : i ∈ oldest c older batch (t.meanwhile c m.before) :=
  oneOf_iff.1 (Table.mem_rows.1 h).2

/-- A round removes no more than a batch. -/
theorem length_gone_le : (gone c older batch m t).length ≤ batch := by
  have hsubset : ∀ i ∈ (gone c older batch m t).map Prod.fst, i ∈ oldest c older batch (t.meanwhile c m.before) := by
    intro i hi
    obtain ⟨⟨j, r⟩, hmem, rfl⟩ := List.mem_map.1 hi
    exact mem_gone hmem
  have hlength : ((gone c older batch m t).map Prod.fst).length ≤ (oldest c older batch (t.meanwhile c m.before)).length :=
    (List.subperm_of_subset Table.nodup_found hsubset).length_le
  rw [List.length_map] at hlength
  exact Nat.le_trans hlength (List.length_take_le _ _)

/-- A prune removes nothing that was not found to be older, in batches of the size it was given, and says how many. -/
theorem Swept.spec {result : Result κ ρ} (h : Swept c older args batch total meets deleted t result) :
    (∀ i r, (i, r) ∈ result.removed → FoundOlder c older batch meets t i) ∧
    (result.ending = .running → meets.length < total - deleted ∧ result.removed.length ≤ meets.length * batch) ∧
    (∀ code, result.ending = .returned code → code ≠ 0 → ∃ m ∈ meets, m.error.isSome = true) ∧
    (result.ending = .returned 0 →
      "Done. " ++ toString (deleted + result.removed.length) ++ " rows removed." ∈ result.out) := by
  induction h with
  | enough h =>
    refine ⟨fun i r hin => absurd hin List.not_mem_nil, fun h => (by cases h), fun code h hcode => ?_, fun _ => List.mem_singleton.2 rfl⟩
    cases h
    exact absurd rfl hcode
  | running h =>
    exact ⟨fun i r hin => absurd hin List.not_mem_nil, fun _ => ⟨Nat.sub_pos_of_lt h, Nat.zero_le _⟩, fun code h => (by cases h),
      fun h => by cases h⟩
  | @fails m rest deleted t e h herror =>
    refine ⟨fun i r hin => absurd hin List.not_mem_nil, fun h => (by cases h), fun code _ _ => ?_, fun h => by cases h⟩
    exact ⟨m, List.mem_cons_self, by rw [herror]; rfl⟩
  | waiting h herror hblocked =>
    exact ⟨fun i r hin => absurd hin List.not_mem_nil, fun h => (by cases h), fun code h => (by cases h), fun h => by cases h⟩
  | nothing h herror hfree hgone =>
    refine ⟨fun i r hin => absurd hin List.not_mem_nil, fun h => (by cases h), fun code h hcode => ?_, fun _ => List.mem_singleton.2 rfl⟩
    cases h
    exact absurd rfl hcode
  | @more m rest deleted t next h herror hfree hgone hnext ih =>
    obtain ⟨holder, hrunning, herrors, hdone⟩ := ih
    have hpos := List.length_pos_iff.2 hgone
    have hfew : (gone c older batch m t).length ≤ batch := length_gone_le
    refine ⟨?_, ?_, ?_, ?_⟩
    · intro i r hin
      obtain hin | hin := List.mem_append.1 hin
      · exact .inl (mem_oldest (mem_gone hin))
      · exact .inr (holder i r hin)
    · intro hend
      obtain ⟨hlength, hremoved⟩ := hrunning hend
      rw [List.length_cons, List.length_append, Nat.succ_mul]
      omega
    · intro code hend hcode
      obtain ⟨m', hin, herror'⟩ := herrors code hend hcode
      exact ⟨m', List.mem_cons_of_mem _ hin, herror'⟩
    · intro hend
      have hin := hdone hend
      rw [Nat.add_assoc, ← List.length_append] at hin
      exact List.mem_cons_of_mem _ hin

/-! ### Nobody else touches what is older -/

/-- The statement adds no old row, and neither changes nor deletes one. -/
def Aside (older : Older ρ) : Statement κ ρ → Prop
  | .insert _ r => older r = false
  | .modify _ p f => (∀ i r, older r = true → p i r = false) ∧ ∀ r r', older r = false → f r = some r' → older r' = false
  | .commit _ => True
  | .rollback _ => True

/-- Nobody has an old row, or is about to make one. -/
def CalmSlot (older : Older ρ) (s : Slot κ ρ) : Prop := ∀ d v, s.held = some (d, v) →
  (∀ r, s.committed = some r → older r = false) ∧ ∀ r, v = some r → older r = false

/-- No session has a change under way on an old row, or makes a row old. -/
def Calm (older : Older ρ) (t : Table κ ρ) : Prop := ∀ i, CalmSlot older (t.slot i)

/-- The old rows are the same. Younger ones may come and go. -/
def SameOld (older : Older ρ) (t t' : Table κ ρ) : Prop := ∀ i r, older r = true →
  ((t'.slot i).committed = some r ↔ (t.slot i).committed = some r)

omit [DecidableEq κ] in
theorem sameOld_of_sameCommitted {t' : Table κ ρ} (h : Table.SameCommitted t t') : SameOld older t t' := by
  intro i r _
  rw [h i]

/-- What a session sees is young where a row is held. -/
theorem CalmSlot.view {s : Slot κ ρ} (h : CalmSlot older s) {d e : κ} {v : Option ρ} (hheld : s.held = some (e, v))
    (hview : s.view d = some r) : older r = false := by
  obtain ⟨hcommitted, hwritten⟩ := h e v hheld
  unfold Slot.view at hview
  rw [hheld] at hview
  dsimp only at hview
  split at hview
  · exact hwritten r hview
  · exact hcommitted r hview

theorem CalmSlot.write {s : Slot κ ρ} (h : CalmSlot older s) {d : κ} (hview : s.view d = some r) (hyoung : older r = false)
    {v : Option ρ} (hv : ∀ r, v = some r → older r = false) : CalmSlot older (s.write d v) := by
  intro e w hheld
  cases hheld
  refine ⟨fun r' hr' => ?_, hv⟩
  have hcommitted : s.committed = some r' := hr'
  cases hold : s.held with
  | none =>
    unfold Slot.view at hview
    rw [hold] at hview
    have heq : s.committed = some r := hview
    rw [hcommitted] at heq
    cases heq
    exact hyoung
  | some entry => exact (h entry.1 entry.2 hold).1 r' hcommitted

theorem CalmSlot.commit {s : Slot κ ρ} (h : CalmSlot older s) (d : κ) : CalmSlot older (s.commit d) ∧
    ∀ r, older r = true → ((s.commit d).committed = some r ↔ s.committed = some r) := by
  unfold Slot.commit
  cases hheld : s.held with
  | none => exact ⟨h, fun r _ => Iff.rfl⟩
  | some entry =>
    obtain ⟨hcommitted, hwritten⟩ := h entry.1 entry.2 hheld
    dsimp only
    split
    · refine ⟨fun e v hnone => (by cases hnone), fun r hr => ⟨fun hv => ?_, fun hc => ?_⟩⟩
      · rw [hwritten r hv] at hr
        cases hr
      · rw [hcommitted r hc] at hr
        cases hr
    · exact ⟨h, fun r _ => Iff.rfl⟩

theorem CalmSlot.rollback {s : Slot κ ρ} (h : CalmSlot older s) (d : κ) : CalmSlot older (s.rollback d) := by
  unfold Slot.rollback
  split
  · split
    · intro e v hnone
      cases hnone
    · exact h
  · exact h

/-- Other sessions that leave the old rows alone keep the table calm. -/
theorem calm_exec {s : Statement κ ρ} (hs : Aside older s) (h : Calm older t) :
    Calm older (s.exec t) ∧ SameOld older t (s.exec t) := by
  cases s with
  | insert d r =>
    refine ⟨fun i => ?_, sameOld_of_sameCommitted Table.sameCommitted_insert⟩
    show CalmSlot older (Function.update t.slot (t.seq + 1) (Slot.blank.write d (some r)) i)
    by_cases hi : i = t.seq + 1
    · rw [hi, Function.update_self]
      intro e v hheld
      cases hheld
      refine ⟨fun r' hnone => (by cases hnone), fun r' hr' => ?_⟩
      cases hr'
      exact hs
    · rw [Function.update_of_ne hi]
      exact h i
  | modify d p f =>
    obtain ⟨hspares, hyoung⟩ := hs
    have hexec : (Statement.modify d p f).exec t = if t.blocked d p then t else t.modify d p f := rfl
    rw [hexec]
    split
    · exact ⟨h, fun _ _ _ => Iff.rfl⟩
    · refine ⟨fun i => ?_, sameOld_of_sameCommitted Table.sameCommitted_modify⟩
      rw [Table.slot_modify]
      split
      · rename_i r hview
        split
        · rename_i hp
          have hr : older r = false := by
            rw [Bool.eq_false_iff]
            intro hr
            rw [hspares i r hr] at hp
            cases hp
          exact (h i).write hview hr fun r' => hyoung r r' hr
        · exact h i
      · exact h i
  | commit d => exact ⟨fun i => ((h i).commit d).1, fun i => ((h i).commit d).2⟩
  | rollback d => exact ⟨fun i => (h i).rollback d, sameOld_of_sameCommitted Table.sameCommitted_rollback⟩

theorem calm_meanwhile {stmts : List (Statement κ ρ)} (hstmts : ∀ s ∈ stmts, Aside older s) (h : Calm older t) :
    Calm older (t.meanwhile c stmts) ∧ SameOld older t (t.meanwhile c stmts) := by
  refine Table.meanwhile_invariant (I := fun t' => Calm older t' ∧ SameOld older t t') ?_ ⟨h, fun _ _ _ => Iff.rfl⟩
  intro s hs _ t' ht'
  obtain ⟨hcalm, hsame⟩ := calm_exec (hstmts s hs) ht'.1
  exact ⟨hcalm, fun i r hr => (hsame i r hr).trans (ht'.2 i r hr)⟩

/-- The pruning session between its statements, with nobody in its way. -/
structure Alone (c : κ) (older : Older ρ) (t : Table κ ρ) : Prop where
  none : t.HoldsNone c
  calm : Calm older t

theorem Alone.meanwhile (h : Alone c older t) {stmts : List (Statement κ ρ)} (hstmts : ∀ s ∈ stmts, Aside older s) :
    Alone c older (t.meanwhile c stmts) ∧ olds c older (t.meanwhile c stmts) = olds c older t := by
  obtain ⟨hcalm, hsame⟩ := calm_meanwhile (c := c) hstmts h.calm
  have hnone := h.none.meanwhile stmts
  refine ⟨⟨hnone, hcalm⟩, Table.rows_congr fun i r => ?_⟩
  rw [hnone.view, h.none.view]
  exact and_congr_left fun hr => hsame i r hr

/-- A list with distinct keys is cut where its keys are. -/
theorem filter_take {α β : Type} [DecidableEq α] {l : List (α × β)} (h : (l.map Prod.fst).Nodup) (n : Nat) :
    l.filter (fun x => decide (x.1 ∈ (l.map Prod.fst).take n)) = l.take n ∧
      l.filter (fun x => !decide (x.1 ∈ (l.map Prod.fst).take n)) = l.drop n := by
  have hsplit : ∀ x ∈ l.take n, x.1 ∈ (l.map Prod.fst).take n := by
    intro x hx
    rw [← List.map_take]
    exact List.mem_map_of_mem hx
  have hlater : ∀ x ∈ l.drop n, x.1 ∉ (l.map Prod.fst).take n := by
    intro x hx hin
    rw [← List.take_append_drop n l, List.map_append, List.nodup_append] at h
    rw [← List.map_take] at hin
    exact h.2.2 x.1 hin x.1 (List.mem_map_of_mem hx) rfl
  constructor
  · calc
      l.filter _ = (l.take n ++ l.drop n).filter _ := by rw [List.take_append_drop]
      _ = l.take n ++ [] := by
        rw [List.filter_append, List.filter_eq_self.2 fun x hx => decide_eq_true (hsplit x hx),
          List.filter_eq_nil_iff.2 fun x hx => by simpa using hlater x hx]
      _ = l.take n := List.append_nil _
  · calc
      l.filter _ = (l.take n ++ l.drop n).filter _ := by rw [List.take_append_drop]
      _ = [] ++ l.drop n := by
        rw [List.filter_append, List.filter_eq_nil_iff.2 fun x hx => by simpa using hsplit x hx,
          List.filter_eq_self.2 fun x hx => by simpa using hlater x hx]
      _ = l.drop n := List.nil_append _

/-- A row under the condition is gone after the commit. -/
theorem slot_delete_of {p : Nat → ρ → Bool} (hview : (t.slot i).view c = some r) (hp : p i r = true) :
    ((t.modify c p fun _ => none).commit c).slot i = .blank := by
  show ((t.modify c p fun _ => none).slot i).commit c = .blank
  rw [Table.slot_modify_of hview hp]
  simp [Slot.write, Slot.commit, Slot.blank]

/-- Other rows stay as they are. -/
theorem slot_delete_of_not {p : Nat → ρ → Bool} (hnone : t.HoldsNone c) (h : ∀ r, (t.slot i).view c = some r → p i r = false) :
    ((t.modify c p fun _ => none).commit c).slot i = t.slot i := by
  show ((t.modify c p fun _ => none).slot i).commit c = t.slot i
  rw [Table.slot_modify_of_not h]
  exact Table.slot_commit_of_not_held fun v => hnone i v

/-- Of what is found all matching rows go, and nothing else. -/
theorem olds_delete (h : Alone c older t) (p : Nat → ρ → Bool) :
    Alone c older ((t.modify c p fun _ => none).commit c) ∧
      olds c older ((t.modify c p fun _ => none).commit c) = t.rows c fun i r => matching older i r && !p i r := by
  have hnone : ((t.modify c p fun _ => none).commit c).HoldsNone c := Table.holdsNone_commit
  have hslot (i : Nat) : (((t.modify c p fun _ => none).commit c).slot i = .blank ∧
        ∃ r, (t.slot i).committed = some r ∧ p i r = true) ∨
      ((t.modify c p fun _ => none).commit c).slot i = t.slot i ∧ ∀ r, (t.slot i).committed = some r → p i r = false := by
    by_cases hmatch : ∃ r, (t.slot i).committed = some r ∧ p i r = true
    · obtain ⟨r, hr, hpr⟩ := hmatch
      exact .inl ⟨slot_delete_of ((h.none.view i).trans hr) hpr, r, hr, hpr⟩
    · have hnot (r : ρ) (hr : (t.slot i).committed = some r) : p i r = false :=
        Bool.eq_false_iff.2 fun hpr => hmatch ⟨r, hr, hpr⟩
      exact .inr ⟨slot_delete_of_not h.none fun r hr => hnot r ((h.none.view i).symm.trans hr), hnot⟩
  refine ⟨⟨hnone, fun i => ?_⟩, Table.rows_congr fun i r => ?_⟩
  · obtain ⟨hblank, -⟩ | ⟨hsame, -⟩ := hslot i
    · rw [hblank]
      intro d v hheld
      cases hheld
    · rw [hsame]
      exact h.calm i
  · rw [hnone.view, h.none.view]
    obtain ⟨hblank, r', hr', hpr'⟩ | ⟨hsame, hnot⟩ := hslot i
    · rw [hblank]
      constructor
      · rintro ⟨hr, -⟩
        cases hr
      · rintro ⟨hr, hspared⟩
        rw [hr'] at hr
        cases hr
        rw [hpr'] at hspared
        simp at hspared
    · rw [hsame]
      refine and_congr_right fun hr => ?_
      rw [hnot r hr, Bool.not_false, Bool.and_true]

/-- What was found to be older still is, where the others leave the older rows alone. -/
theorem older_of_oldest {t' : Table κ ρ} (holds : olds c older t' = olds c older t) (hi : i ∈ oldest c older batch t)
    (hview : (t'.slot i).view c = some r) : older r = true := by
  obtain ⟨r', hmem⟩ := mem_oldest hi
  rw [← holds] at hmem
  obtain ⟨hview', hold⟩ := Table.mem_rows.1 hmem
  rw [hview] at hview'
  cases hview'
  exact hold

/-- Left alone, a round waits for nobody and removes the oldest that are there. -/
theorem Alone.round (h : Alone c older t) (batch : Nat) (hbefore : ∀ s ∈ m.before, Aside older s) (hwaiting : ∀ s ∈ m.waiting, Aside older s) :
    blocked c older batch m t = false ∧ gone c older batch m t = (olds c older t).take batch ∧
      Alone c older (after c older batch m t) ∧ olds c older (after c older batch m t) = (olds c older t).drop batch := by
  obtain ⟨halone₁, holds₁⟩ := h.meanwhile hbefore
  obtain ⟨halone₂, holds₂⟩ := halone₁.meanwhile hwaiting
  have hchosen : oldest c older batch (t.meanwhile c m.before) = ((olds c older t).map Prod.fst).take batch := by
    rw [← holds₁]
    rfl
  have hnodup : ((olds c older t).map Prod.fst).Nodup := Table.nodup_found
  obtain ⟨htake, hdrop⟩ := filter_take hnodup batch
  have holder (i : Nat) (r : ρ) (hview : (((t.meanwhile c m.before).meanwhile c m.waiting).slot i).view c = some r)
      (hp : oneOf (oldest c older batch (t.meanwhile c m.before)) i r = true) : older r = true :=
    older_of_oldest holds₂ (oneOf_iff.1 hp) hview
  have hids (i : Nat) (r : ρ) : oneOf (oldest c older batch (t.meanwhile c m.before)) i r =
      decide (i ∈ ((olds c older t).map Prod.fst).take batch) := by
    rw [hchosen, oneOf, Table.again, Bool.and_true]
  obtain ⟨hafter, hrest⟩ := olds_delete halone₂ (oneOf (oldest c older batch (t.meanwhile c m.before)))
  refine ⟨?_, ?_, hafter, ?_⟩
  · rw [Bool.eq_false_iff]
    intro hblocked
    obtain ⟨i, r, hview, hp, htaken⟩ := Table.blocked_iff.1 hblocked
    obtain ⟨d, v, hheld, -⟩ := Slot.taken_iff.1 htaken
    have hyoung := (halone₂.calm i).view hheld hview
    rw [holder i r hview hp] at hyoung
    cases hyoung
  · have hgone : gone c older batch m t = ((t.meanwhile c m.before).meanwhile c m.waiting).rows c fun i r =>
        matching older i r && decide (i ∈ ((olds c older t).map Prod.fst).take batch) := by
      refine Table.rows_congr fun i r => and_congr_right fun hview => ?_
      rw [Bool.and_eq_true, ← hids i r]
      exact ⟨fun hp => ⟨holder i r hview hp, hp⟩, And.right⟩
    rw [hgone, ← Table.filter_rows (p := matching older) fun i _ => decide (i ∈ ((olds c older t).map Prod.fst).take batch)]
    show (olds c older _).filter _ = _
    rw [holds₂, holds₁]
    exact htake
  · unfold after
    have hspared : (fun i r => matching older i r && !oneOf (oldest c older batch (t.meanwhile c m.before)) i r) =
        fun i r => matching older i r && !decide (i ∈ ((olds c older t).map Prod.fst).take batch) := by
      funext i r
      rw [hids]
    rw [hrest, hspared, ← Table.filter_rows (p := matching older) fun i _ => !decide (i ∈ ((olds c older t).map Prod.fst).take batch)]
    show (olds c older _).filter _ = _
    rw [holds₂, holds₁]
    exact hdrop

/-- Left alone, the rounds remove all old rows, and the count is theirs. -/
theorem Swept.alone {result : Result κ ρ} (h : Swept c older args batch total meets deleted t result) (hbatch : 1 ≤ batch)
    (halone : Alone c older t) (htotal : deleted + (olds c older t).length = total)
    (hmeets : ∀ m ∈ meets, (∀ s ∈ m.before, Aside older s) ∧ ∀ s ∈ m.waiting, Aside older s) :
    result.removed ++ olds c older result.table = olds c older t ∧ result.ending ≠ .waiting ∧
      (result.ending = .running → result.removed.length = meets.length * batch) ∧
      (result.ending = .returned 0 → olds c older result.table = []) := by
  induction h with
  | @enough meets deleted t h =>
    have hnil : olds c older t = [] := List.eq_nil_of_length_eq_zero (by omega)
    exact ⟨rfl, fun h => (by cases h), fun h => (by cases h), fun _ => hnil⟩
  | running h => exact ⟨rfl, fun h => (by cases h), fun _ => (Nat.zero_mul batch).symm, fun h => by cases h⟩
  | @fails m rest deleted t e h herror =>
    rw [List.forall_mem_cons] at hmeets
    exact ⟨(halone.meanwhile hmeets.1.1).2, fun h => (by cases h), fun h => (by cases h), fun h => by cases h⟩
  | @waiting m rest deleted t h herror hblocked =>
    rw [List.forall_mem_cons] at hmeets
    rw [(halone.round batch hmeets.1.1 hmeets.1.2).1] at hblocked
    cases hblocked
  | @nothing m rest deleted t h herror hfree hgone =>
    rw [List.forall_mem_cons] at hmeets
    obtain ⟨-, htake, -, hdrop⟩ := halone.round batch hmeets.1.1 hmeets.1.2
    have hnil : olds c older t = [] := by
      rw [hgone] at htake
      have hlength := congrArg List.length htake
      rw [List.length_take, List.length_nil] at hlength
      exact List.eq_nil_of_length_eq_zero (by omega)
    rw [hnil, List.drop_nil] at hdrop
    exact ⟨by rw [hdrop, hnil]; rfl, fun h => (by cases h), fun h => (by cases h), fun _ => hdrop⟩
  | @more m rest deleted t next h herror hfree hgone hnext ih =>
    rw [List.forall_mem_cons] at hmeets
    obtain ⟨-, htake, hafter, hdrop⟩ := halone.round batch hmeets.1.1 hmeets.1.2
    have hcount : (gone c older batch m t).length + (olds c older (after c older batch m t)).length = (olds c older t).length := by
      rw [htake, hdrop, ← List.length_append, List.take_append_drop]
    obtain ⟨hwhole, hwait, hmidway, hdone⟩ := ih hafter (by omega) hmeets.2
    refine ⟨?_, hwait, fun hend => ?_, hdone⟩
    · show gone c older batch m t ++ next.removed ++ olds c older next.table = _
      rw [List.append_assoc, hwhole, htake, hdrop, List.take_append_drop]
    · -- the batch was full, or there were no more rows to be deleted
      have hmore := (hnext.spec.2.1 hend).1
      have hfull : (gone c older batch m t).length = min batch (olds c older t).length := by rw [htake, List.length_take]
      show (gone c older batch m t ++ next.removed).length = _
      rw [List.length_append, List.length_cons, Nat.succ_mul, hmidway hend]
      omega

end

/-- Three rows by the day they were written. -/
def trail : Table Nat Nat := ((((Table.empty : Table Nat Nat).insert 0 3).2.insert 0 20).2.insert 0 5).2.commit 0

/-- The application goes on writing. -/
def writing : Meets Nat Nat := ⟨[.insert 1 30, .commit 1], [], none⟩

end PyAppRunner.Audit.Prune
