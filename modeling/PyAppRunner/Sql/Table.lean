import Mathlib.Data.List.Sort
import Mathlib.Data.Option.Basic

/-! One table under READ COMMITTED with row locks, a statement at a time.

A slot holds what is committed under an id and, while some session has written or
locked the row in its open transaction, that session with the version it has made.
A session sees its own version where it has one and the committed row elsewhere. A
statement that would write a row another session holds waits for it: it is `blocked`
until that session ends its transaction. Ids come from a sequence and are never
given out twice, also when the insert is rolled back.

`κ` names the sessions, `ρ` is the type of the rows. -/
namespace PyAppRunner.Sql

/-- What is stored under one id. A version of `none` is a row that is not there. -/
structure Slot (κ ρ : Type) where
  committed : Option ρ
  held : Option (κ × Option ρ)

/-- The slot of an id that was never used. -/
def Slot.blank {κ ρ : Type} : Slot κ ρ := ⟨none, none⟩

/-- A table: its sequence, and a slot for each id. -/
structure Table (κ ρ : Type) where
  /-- The last id the sequence has given out. -/
  seq : Nat
  slot : Nat → Slot κ ρ
  fresh : ∀ i, seq < i → slot i = .blank

namespace Slot
variable {κ ρ : Type} [DecidableEq κ]

/-- The version session `c` sees. -/
def view (c : κ) (s : Slot κ ρ) : Option ρ :=
  match s.held with
  | some (d, v) => if d = c then v else s.committed
  | none => s.committed

/-- Another session has the row. -/
def taken (c : κ) (s : Slot κ ρ) : Bool :=
  match s.held with
  | some (d, _) => d ≠ c
  | none => false

/-- `c` has the row, with version `v` of it. -/
def write (c : κ) (v : Option ρ) (s : Slot κ ρ) : Slot κ ρ := {s with held := some (c, v)}

/-- What `c` wrote is committed. -/
def commit (c : κ) (s : Slot κ ρ) : Slot κ ρ :=
  match s.held with
  | some (d, v) => if d = c then ⟨v, none⟩ else s
  | none => s

/-- What `c` wrote is gone. -/
def rollback (c : κ) (s : Slot κ ρ) : Slot κ ρ :=
  match s.held with
  | some (d, _) => if d = c then {s with held := none} else s
  | none => s

theorem taken_iff {c : κ} {s : Slot κ ρ} : s.taken c = true ↔ ∃ d v, s.held = some (d, v) ∧ d ≠ c := by
  unfold taken
  split
  · rename_i d v hheld
    simp [hheld]
  · rename_i hheld
    simp [hheld]

end Slot

namespace Table
variable {κ ρ : Type} [DecidableEq κ]

/-- No row, and no id given out. -/
def empty : Table κ ρ := ⟨0, fun _ => .blank, fun _ _ => rfl⟩

/-- The ids up to the last one the sequence has given out. -/
def ids (t : Table κ ρ) : List Nat := List.range (t.seq + 1)

/-- The rows a statement of `c` with this `WHERE` finds. -/
def rows (c : κ) (p : Nat → ρ → Bool) (t : Table κ ρ) : List (Nat × ρ) :=
  t.ids.filterMap fun i => ((t.slot i).view c).bind fun r => if p i r then some (i, r) else none

/-- The statement would write a row that another session has. -/
def blocked (c : κ) (p : Nat → ρ → Bool) (t : Table κ ρ) : Bool :=
  (t.rows c p).any fun found => (t.slot found.1).taken c

/-- `UPDATE … WHERE` and, where `f` gives `none`, `DELETE … WHERE`. -/
def modify (c : κ) (p : Nat → ρ → Bool) (f : ρ → Option ρ) (t : Table κ ρ) : Table κ ρ where
  seq := t.seq
  slot := fun i =>
    match (t.slot i).view c with
    | some r => if p i r then (t.slot i).write c (f r) else t.slot i
    | none => t.slot i
  fresh := by
    intro i hi
    rw [t.fresh i hi]
    rfl

/-- `SELECT … FOR UPDATE`: the rows found are held as they are. -/
def lock (c : κ) (p : Nat → ρ → Bool) (t : Table κ ρ) : Table κ ρ := t.modify c p some

/-- `INSERT … RETURNING id`. -/
def insert (c : κ) (r : ρ) (t : Table κ ρ) : Nat × Table κ ρ where
  fst := t.seq + 1
  snd :=
    { seq := t.seq + 1
      slot := Function.update t.slot (t.seq + 1) (Slot.blank.write c (some r))
      fresh := by
        intro i hi
        rw [Function.update_of_ne (by omega)]
        exact t.fresh i (by omega) }

/-- What the session holds is what others see from now on. -/
def commit (c : κ) (t : Table κ ρ) : Table κ ρ where
  seq := t.seq
  slot := fun i => (t.slot i).commit c
  fresh := by
    intro i hi
    rw [t.fresh i hi]
    rfl

/-- What the session holds is forgotten. -/
def rollback (c : κ) (t : Table κ ρ) : Table κ ρ where
  seq := t.seq
  slot := fun i => (t.slot i).rollback c
  fresh := by
    intro i hi
    rw [t.fresh i hi]
    rfl

/-- `SELECT … ORDER BY … LIMIT 1 FOR UPDATE SKIP LOCKED`, without the lock: the first
row in the given order among those found that nobody else has. -/
def candidate (c : κ) (p : Nat → ρ → Bool) (le : Nat × ρ → Nat × ρ → Prop) [DecidableRel le]
    (t : Table κ ρ) : Option (Nat × ρ) :=
  (((t.rows c p).filter fun found => !(t.slot found.1).taken c).insertionSort le).head?

/-! ### What a statement finds -/

variable {c : κ} {t t' : Table κ ρ} {p : Nat → ρ → Bool} {f : ρ → Option ρ} {i : Nat} {r : ρ}

theorem mem_rows : (i, r) ∈ t.rows c p ↔ (t.slot i).view c = some r ∧ p i r = true := by
  simp only [rows, ids, List.mem_filterMap, List.mem_range, Option.bind_eq_some_iff]
  constructor
  · rintro ⟨j, _, r', hview, hp⟩
    split at hp
    · cases hp
      exact ⟨hview, ‹_›⟩
    · cases hp
  · rintro ⟨hview, hp⟩
    refine ⟨i, ?_, r, hview, by simp [hp]⟩
    by_contra hi
    rw [t.fresh i (by omega)] at hview
    cases hview

theorem rows_eq_nil : t.rows c p = [] ↔ ∀ i r, (t.slot i).view c = some r → p i r = false := by
  rw [List.eq_nil_iff_forall_not_mem]
  constructor
  · intro h i r hview
    have := h (i, r)
    rw [mem_rows] at this
    simpa [hview] using this
  · rintro h ⟨i, r⟩ hmem
    rw [mem_rows] at hmem
    rw [h i r hmem.1] at hmem
    exact absurd hmem.2 (by decide)

theorem blocked_iff : t.blocked c p = true ↔
    ∃ i r, (t.slot i).view c = some r ∧ p i r = true ∧ (t.slot i).taken c = true := by
  simp only [blocked, List.any_eq_true, Prod.exists, mem_rows, and_assoc]

theorem candidate_eq_some {le : Nat × ρ → Nat × ρ → Prop} [DecidableRel le]
    (h : t.candidate c p le = some (i, r)) :
    (t.slot i).view c = some r ∧ p i r = true ∧ (t.slot i).taken c = false := by
  have hmem := (List.perm_insertionSort le _).mem_iff.mp (List.mem_of_mem_head? h)
  rw [List.mem_filter, mem_rows] at hmem
  exact ⟨hmem.1.1, hmem.1.2, by simpa using hmem.2⟩

/-! ### What a statement leaves as it was -/

/-- Nothing that belongs to another session than `c` has changed. -/
def KeepsOthers (c : κ) (t t' : Table κ ρ) : Prop :=
  ∀ i, (t.slot i).taken c = true ∨ (t'.slot i).taken c = true → t'.slot i = t.slot i

/-- No row was committed or taken away for good. -/
def SameCommitted (t t' : Table κ ρ) : Prop := ∀ i, (t'.slot i).committed = (t.slot i).committed

theorem KeepsOthers.refl : KeepsOthers c t t := fun _ _ => rfl

theorem KeepsOthers.trans {t'' : Table κ ρ} (h : KeepsOthers c t t') (h' : KeepsOthers c t' t'') :
    KeepsOthers c t t'' := by
  intro i hi
  rcases hi with hi | hi
  · have heq := h i (.inl hi)
    rw [h' i (.inl (by rw [heq]; exact hi)), heq]
  · have heq := h' i (.inr hi)
    rw [heq, h i (.inr (by rw [← heq]; exact hi))]

theorem slot_modify : (t.modify c p f).slot i =
    match (t.slot i).view c with
    | some r => if p i r then (t.slot i).write c (f r) else t.slot i
    | none => t.slot i := rfl

theorem slot_modify_of (hview : (t.slot i).view c = some r) (hp : p i r = true) :
    (t.modify c p f).slot i = (t.slot i).write c (f r) := by
  simp [slot_modify, hview, hp]

theorem slot_modify_of_not (h : ∀ r, (t.slot i).view c = some r → p i r = false) :
    (t.modify c p f).slot i = t.slot i := by
  rw [slot_modify]
  split
  · rename_i r hview
    simp [h r hview]
  · rfl

theorem keepsOthers_modify (h : t.blocked c p = false) : KeepsOthers c t (t.modify c p f) := by
  intro i hi
  rcases hview : (t.slot i).view c with _ | r
  · exact slot_modify_of_not (by simp [hview])
  · by_cases hp : p i r = true
    · rcases hi with hi | hi
      · exact absurd (blocked_iff.mpr ⟨i, r, hview, hp, hi⟩) (by simp [h])
      · rw [slot_modify_of hview hp] at hi
        simp [Slot.write, Slot.taken] at hi
    · refine slot_modify_of_not fun r' hr' => ?_
      rw [hview] at hr'
      cases hr'
      simpa using hp

theorem sameCommitted_modify : SameCommitted t (t.modify c p f) := by
  intro i
  rw [slot_modify]
  split
  · split <;> rfl
  · rfl

theorem keepsOthers_insert : KeepsOthers c t (t.insert c r).2 := by
  intro i hi
  by_cases h : i = t.seq + 1
  · subst h
    rcases hi with hi | hi
    · rw [t.fresh _ (Nat.lt_succ_self _)] at hi
      cases hi
    · simp [insert, Slot.write, Slot.taken] at hi
  · simp [insert, h]

omit [DecidableEq κ] in
theorem sameCommitted_insert : SameCommitted t (t.insert c r).2 := by
  intro i
  by_cases h : i = t.seq + 1
  · subst h
    rw [t.fresh _ (Nat.lt_succ_self _)]
    simp [insert, Slot.write, Slot.blank]
  · simp [insert, h]

theorem keepsOthers_commit : KeepsOthers c t (t.commit c) := by
  intro i hi
  show (t.slot i).commit c = t.slot i
  replace hi : (t.slot i).taken c = true ∨ ((t.slot i).commit c).taken c = true := hi
  unfold Slot.commit Slot.taken at *
  split <;> grind

theorem keepsOthers_rollback : KeepsOthers c t (t.rollback c) := by
  intro i hi
  show (t.slot i).rollback c = t.slot i
  replace hi : (t.slot i).taken c = true ∨ ((t.slot i).rollback c).taken c = true := hi
  unfold Slot.rollback Slot.taken at *
  split <;> grind

theorem sameCommitted_rollback : SameCommitted t (t.rollback c) := by
  intro i
  show ((t.slot i).rollback c).committed = _
  unfold Slot.rollback
  split
  · split <;> rfl
  · rfl

/-! ### What a session has -/

/-- Session `c` has nothing. -/
def HoldsNone (c : κ) (t : Table κ ρ) : Prop := ∀ i v, (t.slot i).held ≠ some (c, v)

/-- Session `c` has one row, committed as `r`, in version `v`. -/
structure Holds (c : κ) (t : Table κ ρ) (i : Nat) (r : ρ) (v : Option ρ) : Prop where
  slot : t.slot i = ⟨some r, some (c, v)⟩
  only : ∀ j v', (t.slot j).held = some (c, v') → j = i

theorem view_of_not_held {s : Slot κ ρ} (h : ∀ v, s.held ≠ some (c, v)) : s.view c = s.committed := by
  unfold Slot.view
  split
  · rename_i d v hheld
    rw [if_neg]
    rintro rfl
    exact h v hheld
  · rfl

theorem HoldsNone.view (h : HoldsNone c t) (i : Nat) : (t.slot i).view c = (t.slot i).committed :=
  view_of_not_held (h i)

theorem Holds.view {v : Option ρ} (h : Holds c t i r v) : (t.slot i).view c = v := by
  simp [h.slot, Slot.view]

theorem Holds.taken {v : Option ρ} (h : Holds c t i r v) : (t.slot i).taken c = false := by
  simp [h.slot, Slot.taken]

theorem slot_commit_of_not_held {s : Slot κ ρ} (h : ∀ v, s.held ≠ some (c, v)) : s.commit c = s := by
  unfold Slot.commit
  split
  · rename_i d v hheld
    rw [if_neg]
    rintro rfl
    exact h v hheld
  · rfl

theorem holdsNone_commit : HoldsNone c (t.commit c) := by
  intro i v hheld
  replace hheld : ((t.slot i).commit c).held = some (c, v) := hheld
  unfold Slot.commit at hheld
  split at hheld <;> grind

theorem holdsNone_rollback : HoldsNone c (t.rollback c) := by
  intro i v hheld
  replace hheld : ((t.slot i).rollback c).held = some (c, v) := hheld
  unfold Slot.rollback at hheld
  split at hheld <;> grind

/-- Committing nothing changes nothing. -/
theorem HoldsNone.commit_eq (h : HoldsNone c t) (i : Nat) : (t.commit c).slot i = t.slot i :=
  slot_commit_of_not_held (h i)

theorem HoldsNone.sameCommitted_commit (h : HoldsNone c t) : SameCommitted t (t.commit c) :=
  fun i => congrArg Slot.committed (h.commit_eq i)

/-- Committing one row replaces what is committed there. -/
theorem Holds.committed_commit {v : Option ρ} (h : Holds c t i r v) (j : Nat) :
    ((t.commit c).slot j).committed = if j = i then v else (t.slot j).committed := by
  split
  · rename_i hj
    subst hj
    show ((t.slot j).commit c).committed = v
    simp [h.slot, Slot.commit]
  · rename_i hj
    show ((t.slot j).commit c).committed = _
    rw [slot_commit_of_not_held fun v' hv' => hj (h.only j v' hv')]

/-- A statement of session `d` leaves alone what session `c` has, and gives it nothing. -/
theorem KeepsOthers.held {d : κ} (hne : c ≠ d) (h : KeepsOthers d t t') {v : Option ρ}
    (hheld : (t.slot i).held = some (c, v) ∨ (t'.slot i).held = some (c, v)) : t'.slot i = t.slot i := by
  refine h i (hheld.imp ?_ ?_)
  · exact fun hh => Slot.taken_iff.mpr ⟨c, v, hh, hne⟩
  · exact fun hh => Slot.taken_iff.mpr ⟨c, v, hh, hne⟩

theorem KeepsOthers.holdsNone {d : κ} (hne : c ≠ d) (h : KeepsOthers d t t') (hn : HoldsNone c t) :
    HoldsNone c t' := by
  intro i v hheld
  rw [h.held hne (.inr hheld)] at hheld
  exact hn i v hheld

theorem KeepsOthers.holds {d : κ} (hne : c ≠ d) (h : KeepsOthers d t t') {v : Option ρ}
    (hh : Holds c t i r v) : Holds c t' i r v := by
  constructor
  · rw [h.held hne (.inl (by rw [hh.slot])), hh.slot]
  · intro j v' hheld
    rw [h.held hne (.inr hheld)] at hheld
    exact hh.only j v' hheld

omit [DecidableEq κ] in
@[ext] theorem ext_slot (hseq : t.seq = t'.seq) (hslot : ∀ i, t.slot i = t'.slot i) : t = t' := by
  cases t
  cases t'
  obtain rfl := hseq
  obtain rfl := funext hslot
  rfl

theorem HoldsNone.commit (h : HoldsNone c t) : t.commit c = t := ext_slot rfl h.commit_eq

theorem HoldsNone.rollback (h : HoldsNone c t) : t.rollback c = t := by
  refine ext_slot rfl fun i => ?_
  show (t.slot i).rollback c = t.slot i
  unfold Slot.rollback
  split
  · rename_i d v hheld
    rw [if_neg]
    rintro rfl
    exact h i v hheld
  · rfl

/-- A statement on one row that nobody else has leaves the session with that row. -/
theorem HoldsNone.modify (h : HoldsNone c t) (hview : (t.slot i).committed = some r)
    (hp : ∀ j r', (t.slot j).view c = some r' → (p j r' = true ↔ j = i)) : Holds c (t.modify c p f) i r (f r) := by
  have hvi : (t.slot i).view c = some r := (h.view i).trans hview
  constructor
  · rw [slot_modify_of hvi ((hp i r hvi).mpr rfl)]
    simp [Slot.write, hview]
  · intro j v' hheld
    by_contra hj
    rw [slot_modify_of_not] at hheld
    · exact h j v' hheld
    · intro r' hr'
      by_contra hpj
      exact hj ((hp j r' hr').mp (by simpa using hpj))

/-- A statement on the row a session has changes its version of it. -/
theorem Holds.modify {v : ρ} (h : Holds c t i r (some v))
    (hp : ∀ j r', (t.slot j).view c = some r' → (p j r' = true ↔ j = i)) :
    Holds c (t.modify c p f) i r (f v) := by
  constructor
  · rw [slot_modify_of h.view ((hp i v h.view).mpr rfl), h.slot]
    rfl
  · intro j v' hheld
    by_contra hj
    rw [slot_modify_of_not] at hheld
    · exact hj (h.only j v' hheld)
    · intro r' hr'
      by_contra hpj
      exact hj ((hp j r' hr').mp (by simpa using hpj))

/-! ### What holds of every version -/

/-- Every version of every row, committed or not. -/
structure Every (P : ρ → Prop) (t : Table κ ρ) : Prop where
  committed : ∀ i r, (t.slot i).committed = some r → P r
  held : ∀ i d r, (t.slot i).held = some (d, some r) → P r

variable {P Q : ρ → Prop}

omit [DecidableEq κ] in
theorem Every.empty : Every P (.empty : Table κ ρ) :=
  ⟨fun _ _ h => absurd h (by simp [Table.empty, Slot.blank]), fun _ _ _ h => absurd h (by simp [Table.empty, Slot.blank])⟩

omit [DecidableEq κ] in
theorem Every.imp (h : Every P t) (hpq : ∀ r, P r → Q r) : Every Q t :=
  ⟨fun i r hr => hpq r (h.committed i r hr), fun i d r hr => hpq r (h.held i d r hr)⟩

theorem Every.view (h : Every P t) (hview : (t.slot i).view c = some r) : P r := by
  unfold Slot.view at hview
  split at hview
  · next d v hheld =>
    split at hview
    · rw [hview] at hheld
      exact h.held i d r hheld
    · exact h.committed i r hview
  · exact h.committed i r hview

/-- A statement writes what its function makes of the rows it finds. -/
theorem Every.modify (h : Every P t)
    (hf : ∀ i r r', (t.slot i).view c = some r → p i r = true → f r = some r' → P r') : Every P (t.modify c p f) := by
  constructor
  · intro i r hr
    rw [sameCommitted_modify i] at hr
    exact h.committed i r hr
  · intro i d r hr
    rw [slot_modify] at hr
    split at hr
    · next r' hview =>
      split at hr
      · next hp =>
        simp only [Slot.write, Option.some.injEq, Prod.mk.injEq] at hr
        exact hf i r' r hview hp hr.2
      · exact h.held i d r hr
    · exact h.held i d r hr

theorem Every.delete (h : Every P t) : Every P (t.modify c p fun _ => none) :=
  h.modify fun _ _ _ _ _ heq => absurd heq (by simp)

theorem Every.lock (h : Every P t) : Every P (t.lock c p) := by
  apply h.modify
  intro i r r' hview _ heq
  cases heq
  exact h.view hview

omit [DecidableEq κ] in
theorem Every.insert (h : Every P t) (hr : P r) : Every P (t.insert c r).2 := by
  constructor
  · intro i r' hr'
    rw [sameCommitted_insert i] at hr'
    exact h.committed i r' hr'
  · intro i d r' hr'
    by_cases hi : i = t.seq + 1
    · simp only [Table.insert, hi, Function.update_self, Slot.write, Option.some.injEq, Prod.mk.injEq] at hr'
      exact hr'.2 ▸ hr
    · simp only [Table.insert, Function.update_of_ne hi] at hr'
      exact h.held i d r' hr'

theorem Every.commit (h : Every P t) (c : κ) : Every P (t.commit c) := by
  have hslot : ∀ i, (t.commit c).slot i = (t.slot i).commit c := fun _ => rfl
  constructor
  · intro i r hr
    rw [hslot, Slot.commit] at hr
    split at hr
    · next d v hheld =>
      split at hr
      · exact h.held i d r (hheld.trans (congrArg (fun v => some (d, v)) hr))
      · exact h.committed i r hr
    · exact h.committed i r hr
  · intro i d r hr
    rw [hslot, Slot.commit] at hr
    split at hr
    · split at hr
      · cases hr
      · exact h.held i d r hr
    · exact h.held i d r hr

theorem Every.rollback (h : Every P t) (c : κ) : Every P (t.rollback c) := by
  have hslot : ∀ i, (t.rollback c).slot i = (t.slot i).rollback c := fun _ => rfl
  constructor
  · intro i r hr
    rw [sameCommitted_rollback i] at hr
    exact h.committed i r hr
  · intro i d r hr
    rw [hslot, Slot.rollback] at hr
    split at hr
    · split at hr
      · cases hr
      · exact h.held i d r hr
    · exact h.held i d r hr

end Table

end PyAppRunner.Sql
