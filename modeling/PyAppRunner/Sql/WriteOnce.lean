import PyAppRunner.Sql.Table

/-! Tables whose rows are inserted, later perhaps deleted, and never changed.

In such a table what a session holds is a new row or the end of a committed one
(`WriteOnce`), so a row that was once read under an id is still there or gone for good
(`Known`). An `Edit` is what one session does to the table in one step; edits keep both. -/
namespace PyAppRunner.Sql.Table
variable {κ ρ : Type} [DecidableEq κ]

/-- What is held of a committed row is its end, and of any other a row. -/
def WriteOnce (t : Table κ ρ) : Prop :=
  ∀ i d v, (t.slot i).held = some (d, v) → (v = none ↔ (t.slot i).committed ≠ none)

/-- The id was given out, and nothing will ever be under it again. -/
structure Gone (t : Table κ ρ) (i : Nat) : Prop where
  le : i ≤ t.seq
  slot : t.slot i = .blank

/-- Row `r` is committed under the id, or was. -/
def Known (t : Table κ ρ) (i : Nat) (r : ρ) : Prop := (t.slot i).committed = some r ∨ t.Gone i

/-- A delete of rows that nobody holds. -/
structure Deletes (c : κ) (t : Table κ ρ) (p : Nat → ρ → Bool) : Prop where
  holdsNone : t.HoldsNone c
  free : t.blocked c p = false

/-- What session `c` does to the table in one step. -/
inductive Edit (c : κ) (t : Table κ ρ) : Table κ ρ → Prop where
  | same : Edit c t t
  | insert (r : ρ) : Edit c t (t.insert c r).2
  | delete (p : Nat → ρ → Bool) (h : t.Deletes c p) : Edit c t (t.modify c p fun _ => none)
  | deleteNow (p : Nat → ρ → Bool) (h : t.Deletes c p) : Edit c t ((t.modify c p fun _ => none).commit c)
  | commit : Edit c t (t.commit c)
  | rollback : Edit c t (t.rollback c)

variable {c : κ} {t t' : Table κ ρ} {p : Nat → ρ → Bool} {i : Nat} {r : ρ}

omit [DecidableEq κ] in
/-- Ids are handed out in order, so a row has one that was. -/
theorem le_of_committed (h : (t.slot i).committed = some r) : i ≤ t.seq := by
  by_contra hi
  rw [t.fresh i (by omega)] at h
  cases h

/-- A row that is deleted is committed, and nobody holds it. -/
theorem Deletes.slot (h : t.Deletes c p) (hview : (t.slot i).view c = some r) (hp : p i r = true) :
    t.slot i = ⟨some r, none⟩ := by
  have hcommitted : (t.slot i).committed = some r := (h.holdsNone.view i).symm.trans hview
  cases hheld : (t.slot i).held with
  | none =>
    rw [← hcommitted, ← hheld]
  | some version =>
    obtain ⟨d, v⟩ := version
    exfalso
    by_cases hd : d = c
    · subst hd
      exact h.holdsNone i v hheld
    · have hblocked := blocked_iff.2 ⟨i, r, hview, hp, Slot.taken_iff.2 ⟨d, v, hheld, hd⟩⟩
      rw [h.free] at hblocked
      cases hblocked

theorem Deletes.slot_modify (h : t.Deletes c p) (i : Nat) :
    (t.modify c p fun _ => none).slot i = t.slot i ∧ (∀ r, (t.slot i).view c = some r → p i r = false) ∨
      ∃ r, t.slot i = ⟨some r, none⟩ ∧ p i r = true ∧
        (t.modify c p fun _ => none).slot i = ⟨some r, some (c, none)⟩ := by
  cases hview : (t.slot i).view c with
  | none =>
    left
    refine ⟨slot_modify_of_not ?_, fun r hr => by cases hr⟩
    intro r hr
    rw [hview] at hr
    cases hr
  | some r =>
    by_cases hp : p i r = true
    · right
      have hslot := h.slot hview hp
      refine ⟨r, hslot, hp, ?_⟩
      rw [slot_modify_of hview hp, hslot]
      rfl
    · left
      have hnot : ∀ r', some r = some r' → p i r' = false := by
        intro r' hr'
        cases hr'
        simpa using hp
      exact ⟨slot_modify_of_not (by rw [hview]; exact hnot), hnot⟩

/-! ### What edits keep -/

/-- An edit by one session leaves the rows of the others. -/
theorem Edit.keepsOthers (h : Edit c t t') : KeepsOthers c t t' := by
  cases h with
  | same => exact .refl
  | insert r => exact keepsOthers_insert
  | delete p h => exact keepsOthers_modify h.free
  | deleteNow p h => exact (keepsOthers_modify h.free).trans keepsOthers_commit
  | commit => exact keepsOthers_commit
  | rollback => exact keepsOthers_rollback

/-- To delete is not to update. -/
theorem WriteOnce.delete (hw : t.WriteOnce) (h : t.Deletes c p) : (t.modify c p fun _ => none).WriteOnce := by
  intro i d v hheld
  obtain ⟨hsame, -⟩ | ⟨r, -, -, hnew⟩ := h.slot_modify i
  · rw [hsame] at hheld ⊢
    exact hw i d v hheld
  · rw [hnew] at hheld ⊢
    cases hheld
    simp

theorem WriteOnce.commit (hw : t.WriteOnce) : (t.commit c).WriteOnce := by
  intro i d v hheld
  replace hheld : ((t.slot i).commit c).held = some (d, v) := hheld
  have hne : d ≠ c := by
    rintro rfl
    exact holdsNone_commit i v hheld
  have hslot : (t.commit c).slot i = t.slot i :=
    keepsOthers_commit i (.inr (Slot.taken_iff.2 ⟨d, v, hheld, hne⟩))
  rw [hslot]
  exact hw i d v (hslot ▸ hheld)

/-- A row that comes back is the one that was there. -/
theorem WriteOnce.rollback (hw : t.WriteOnce) : (t.rollback c).WriteOnce := by
  intro i d v hheld
  replace hheld : ((t.slot i).rollback c).held = some (d, v) := hheld
  have hne : d ≠ c := by
    rintro rfl
    exact holdsNone_rollback i v hheld
  have hslot : (t.rollback c).slot i = t.slot i :=
    keepsOthers_rollback i (.inr (Slot.taken_iff.2 ⟨d, v, hheld, hne⟩))
  rw [hslot]
  exact hw i d v (hslot ▸ hheld)

/-- **No edit updates a row.** -/
theorem WriteOnce.edit (hw : t.WriteOnce) (h : Edit c t t') : t'.WriteOnce := by
  cases h with
  | same => exact hw
  | insert r =>
    intro i d v hheld
    by_cases hi : i = t.seq + 1
    · subst hi
      simp only [Table.insert, Function.update_self] at hheld ⊢
      cases hheld
      simp [Slot.write, Slot.blank]
    · simp only [Table.insert, Function.update_of_ne hi] at hheld ⊢
      exact hw i d v hheld
  | delete p h => exact hw.delete h
  | deleteNow p h => exact (hw.delete h).commit
  | commit => exact hw.commit
  | rollback => exact hw.rollback

/-- A blank slot stays blank. -/
theorem Gone.edit (hi : t.Gone i) (h : Edit c t t') : t'.Gone i := by
  have hblank := hi.slot
  have hdelete : ∀ p, (t.modify c p fun _ => none).slot i = .blank := by
    intro p
    rw [Table.slot_modify, hblank]
    rfl
  cases h with
  | same => exact hi
  | insert r =>
    refine ⟨Nat.le_succ_of_le hi.le, ?_⟩
    have hne : i ≠ t.seq + 1 := by
      have := hi.le
      omega
    simp only [Table.insert, Function.update_of_ne hne]
    exact hblank
  | delete p h => exact ⟨hi.le, hdelete p⟩
  | deleteNow p h =>
    refine ⟨hi.le, ?_⟩
    show ((t.modify c p fun _ => none).slot i).commit c = .blank
    rw [hdelete p]
    rfl
  | commit =>
    refine ⟨hi.le, ?_⟩
    show (t.slot i).commit c = .blank
    rw [hblank]
    rfl
  | rollback =>
    refine ⟨hi.le, ?_⟩
    show (t.slot i).rollback c = .blank
    rw [hblank]
    rfl

/-- Committing takes a row away, or leaves it as it is. -/
theorem known_commit (hw : t.WriteOnce) (h : (t.slot i).committed = some r) : (t.commit c).Known i r := by
  cases hheld : (t.slot i).held with
  | none =>
    left
    show ((t.slot i).commit c).committed = some r
    rw [Slot.commit, hheld]
    exact h
  | some version =>
    obtain ⟨d, v⟩ := version
    by_cases hd : d = c
    · right
      have hv : v = none := (hw i d v hheld).2 (by rw [h]; simp)
      have hle : i ≤ t.seq := le_of_committed h
      refine ⟨hle, ?_⟩
      show (t.slot i).commit c = .blank
      rw [Slot.commit, hheld]
      simp [hd, hv, Slot.blank]
    · left
      show ((t.slot i).commit c).committed = some r
      rw [Slot.commit, hheld]
      simp [hd, h]

/-- So what is known of a row stays true, while the row is there and after. -/
theorem Known.edit (hk : t.Known i r) (hw : t.WriteOnce) (h : Edit c t t') : t'.Known i r := by
  obtain hcommitted | hgone := hk
  · cases h with
    | same => exact .inl hcommitted
    | insert r' => exact .inl ((sameCommitted_insert i).trans hcommitted)
    | delete p h => exact .inl ((sameCommitted_modify i).trans hcommitted)
    | deleteNow p h => exact known_commit (hw.delete h) ((sameCommitted_modify i).trans hcommitted)
    | commit => exact known_commit hw hcommitted
    | rollback => exact .inl ((sameCommitted_rollback i).trans hcommitted)
  · exact .inr (hgone.edit h)

/-- A delete that is committed at once leaves nothing of its rows, and all others. -/
theorem Deletes.committed (h : t.Deletes c p) (i : Nat) :
    ((t.modify c p fun _ => none).commit c).slot i = t.slot i ∧ (∀ r, (t.slot i).view c = some r → p i r = false) ∨
      ∃ r, (i, r) ∈ t.rows c p ∧ ((t.modify c p fun _ => none).commit c).Gone i := by
  obtain ⟨hsame, hnot⟩ | ⟨r, hslot, hp, hnew⟩ := h.slot_modify i
  · left
    refine ⟨?_, hnot⟩
    show ((t.modify c p fun _ => none).slot i).commit c = t.slot i
    rw [hsame, slot_commit_of_not_held (h.holdsNone i)]
  · right
    have hcommitted : (t.slot i).committed = some r := by rw [hslot]
    have hle : i ≤ t.seq := le_of_committed hcommitted
    refine ⟨r, mem_rows.2 ⟨(h.holdsNone.view i).trans hcommitted, hp⟩, hle, ?_⟩
    show ((t.modify c p fun _ => none).slot i).commit c = .blank
    rw [hnew]
    simp [Slot.commit, Slot.blank]

/-- A select finds a row once. -/
theorem nodup_rows (t : Table κ ρ) (c : κ) (p : Nat → ρ → Bool) : ((t.rows c p).map Prod.fst).Nodup := by
  have hids : t.ids.Nodup := List.nodup_range
  refine hids.sublist ?_
  unfold rows
  induction t.ids with
  | nil => exact List.Sublist.slnil
  | cons i rest ih =>
    rw [List.filterMap_cons]
    split
    · exact ih.cons i
    · next found hfound =>
      have hfst : found.1 = i := by
        obtain ⟨r, -, hr⟩ := Option.bind_eq_some_iff.1 hfound
        split at hr
        · cases hr
          rfl
        · cases hr
      rw [List.map_cons, hfst]
      exact ih.cons_cons i

end PyAppRunner.Sql.Table
