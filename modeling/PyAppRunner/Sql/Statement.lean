import PyAppRunner.Sql.Table

/-! Statements of several sessions, and a statement that waits.

A statement with a `WHERE` finds its rows as it starts. While another session has one of
them it waits, and as it goes on it looks again at each row it found, as it is by
then, and takes those that still match. A row that comes to match while the
statement waits is not among those it found. -/
namespace PyAppRunner.Sql
variable {κ ρ : Type} [DecidableEq κ]

/-- A statement of session `d`. With `f` giving `none` a `modify` deletes, with `f` giving
the row itself it locks. -/
inductive Statement (κ ρ : Type) where
  | insert (d : κ) (r : ρ)
  | modify (d : κ) (p : Nat → ρ → Bool) (f : ρ → Option ρ)
  | commit (d : κ)
  | rollback (d : κ)

namespace Statement

/-- The session that sends it. -/
def session : Statement κ ρ → κ
  | insert d _ => d
  | modify d _ _ => d
  | commit d => d
  | rollback d => d

/-- A statement that has to wait does nothing yet. -/
def exec : Statement κ ρ → Table κ ρ → Table κ ρ
  | insert d r, t => (t.insert d r).2
  | modify d p f, t => if t.blocked d p then t else t.modify d p f
  | commit d, t => t.commit d
  | rollback d, t => t.rollback d

theorem keepsOthers_exec (s : Statement κ ρ) (t : Table κ ρ) : Table.KeepsOthers s.session t (s.exec t) := by
  cases s with
  | insert d r => exact Table.keepsOthers_insert
  | modify d p f =>
    simp only [exec]
    split
    · exact Table.KeepsOthers.refl
    · rename_i hfree
      have hfree : t.blocked d p = false := by simpa using hfree
      exact Table.keepsOthers_modify hfree
  | commit d => exact Table.keepsOthers_commit
  | rollback d => exact Table.keepsOthers_rollback

end Statement

namespace Table
variable {c : κ} {t : Table κ ρ} {p : Nat → ρ → Bool} {i : Nat} {r : ρ}

/-- What the sessions other than `c` do, in this order. -/
def meanwhile (c : κ) (t : Table κ ρ) : List (Statement κ ρ) → Table κ ρ
  | [] => t
  | s :: rest => meanwhile c (if s.session = c then t else s.exec t) rest

/-- The ids a statement finds as it starts. -/
def found (c : κ) (p : Nat → ρ → Bool) (t : Table κ ρ) : List Nat := (t.rows c p).map Prod.fst

/-- A row that was found, and matches still. -/
def again (ids : List Nat) (p : Nat → ρ → Bool) (i : Nat) (r : ρ) : Bool := decide (i ∈ ids) && p i r

theorem mem_found : i ∈ t.found c p ↔ ∃ r, (t.slot i).view c = some r ∧ p i r = true := by
  simp [found, mem_rows]

/-- A row is found once. -/
theorem nodup_found : (t.found c p).Nodup := by
  have hnodup : (t.rows c p).Nodup := by
    refine List.Nodup.filterMap ?_ List.nodup_range
    intro j j' b hb hb'
    simp only [Option.mem_def, Option.bind_eq_some_iff] at hb hb'
    obtain ⟨r, -, hr⟩ := hb
    obtain ⟨r', -, hr'⟩ := hb'
    split at hr <;> split at hr' <;> grind
  refine List.Nodup.map_on ?_ hnodup
  rintro ⟨j, r⟩ hr ⟨j', r'⟩ hr' hj
  obtain rfl : j = j' := hj
  have heq := (mem_rows.mp hr).1.symm.trans (mem_rows.mp hr').1
  rw [Option.some.inj heq]

/-- What a session has, nobody else changes. -/
theorem slot_meanwhile {v : Option ρ} (h : (t.slot i).held = some (c, v)) (stmts : List (Statement κ ρ)) :
    (t.meanwhile c stmts).slot i = t.slot i := by
  induction stmts generalizing t with
  | nil => rfl
  | cons s rest ih =>
    unfold meanwhile
    split
    · exact ih h
    · rename_i hne
      have hkept := (s.keepsOthers_exec t).held (Ne.symm hne) (.inl h)
      exact (ih (hkept ▸ h)).trans hkept

/-- The rows a statement locks are still there, as they were, whatever others do. -/
theorem view_meanwhile_lock (h : (i, r) ∈ t.rows c p) (stmts : List (Statement κ ρ)) :
    (((t.lock c p).meanwhile c stmts).slot i).view c = some r := by
  obtain ⟨hview, hp⟩ := mem_rows.mp h
  have hslot : (t.lock c p).slot i = (t.slot i).write c (some r) := slot_modify_of hview hp
  rw [slot_meanwhile (v := some r) (by rw [hslot]; rfl), hslot]
  simp [Slot.view, Slot.write]

theorem meanwhile_append (t : Table κ ρ) (a b : List (Statement κ ρ)) :
    t.meanwhile c (a ++ b) = (t.meanwhile c a).meanwhile c b := by
  induction a generalizing t with
  | nil => rfl
  | cons s rest ih => exact ih _

/-- What each of the others' statements preserves holds after all of them. -/
theorem meanwhile_invariant {I : Table κ ρ → Prop} {stmts : List (Statement κ ρ)}
    (hstep : ∀ s ∈ stmts, s.session ≠ c → ∀ t, I t → I (s.exec t)) (h : I t) : I (t.meanwhile c stmts) := by
  induction stmts generalizing t with
  | nil => exact h
  | cons s rest ih =>
    rw [List.forall_mem_cons] at hstep
    unfold meanwhile
    split
    · exact ih hstep.2 h
    · rename_i hne
      exact ih hstep.2 (hstep.1 hne t h)

theorem HoldsNone.meanwhile (h : t.HoldsNone c) (stmts : List (Statement κ ρ)) : (t.meanwhile c stmts).HoldsNone c :=
  meanwhile_invariant (fun s _ hne t hn => (s.keepsOthers_exec t).holdsNone (Ne.symm hne) hn) h

/-! ### What is found, as a list -/

/-- Beyond the last id there is nothing to find. -/
theorem rows_eq_filterMap {n : Nat} (h : t.seq ≤ n) : t.rows c p = (List.range (n + 1)).filterMap
    fun i => ((t.slot i).view c).bind fun r => if p i r then some (i, r) else none := by
  obtain ⟨k, rfl⟩ := Nat.le.dest h
  have hrange : List.range (t.seq + k + 1) = List.range (t.seq + 1) ++ (List.range k).map (t.seq + 1 + ·) := by
    rw [← List.range_add, Nat.add_right_comm]
  rw [hrange, List.filterMap_append]
  have hnone : ((List.range k).map (t.seq + 1 + ·)).filterMap
      (fun i => ((t.slot i).view c).bind fun r => if p i r then some (i, r) else none) = [] := by
    rw [List.filterMap_eq_nil_iff]
    intro i hi
    obtain ⟨j, -, rfl⟩ := List.mem_map.1 hi
    rw [t.fresh (t.seq + 1 + j) (by omega)]
    rfl
  rw [hnone, List.append_nil]
  rfl

/-- Two statements that find the same rows find them in the same order. -/
theorem rows_congr {t' : Table κ ρ} {c' : κ} {p' : Nat → ρ → Bool} (h : ∀ i r, (t'.slot i).view c' = some r ∧ p' i r = true ↔
    (t.slot i).view c = some r ∧ p i r = true) : t'.rows c' p' = t.rows c p := by
  rw [rows_eq_filterMap (Nat.le_max_left t'.seq t.seq), rows_eq_filterMap (t := t) (Nat.le_max_right t'.seq t.seq)]
  apply List.filterMap_congr
  intro i _
  have hbind (view : Option ρ) (q : ρ → Bool) (x : Nat × ρ) :
      (view.bind fun r => if q r then some (i, r) else none) = some x ↔ view = some x.2 ∧ q x.2 = true ∧ x.1 = i := by
    obtain ⟨j, r⟩ := x
    cases view with
    | none => simp
    | some r' =>
      simp only [Option.bind_some]
      split
      · rename_i hq
        simp only [Option.some.injEq, Prod.mk.injEq]
        constructor
        · rintro ⟨rfl, rfl⟩
          exact ⟨rfl, hq, rfl⟩
        · rintro ⟨rfl, -, rfl⟩
          exact ⟨rfl, rfl⟩
      · rename_i hq
        simp only [Option.some.injEq, reduceCtorEq, false_iff]
        rintro ⟨rfl, hq', -⟩
        exact hq hq'
  ext x
  rw [hbind, hbind]
  constructor
  · rintro ⟨hview, hp, hi⟩
    obtain ⟨hview', hp'⟩ := (h i x.2).1 ⟨hview, hp⟩
    exact ⟨hview', hp', hi⟩
  · rintro ⟨hview, hp, hi⟩
    obtain ⟨hview', hp'⟩ := (h i x.2).2 ⟨hview, hp⟩
    exact ⟨hview', hp', hi⟩

theorem filter_rows (q : Nat → ρ → Bool) : (t.rows c p).filter (fun x => q x.1 x.2) = t.rows c fun i r => p i r && q i r := by
  unfold rows
  rw [List.filter_filterMap]
  apply List.filterMap_congr
  intro i _
  cases (t.slot i).view c with
  | none => rfl
  | some r =>
    simp only [Option.bind_some]
    by_cases hp : p i r = true
    · by_cases hq : q i r = true
      · simp [hp, hq]
      · simp [hp, hq]
    · simp [hp]

end Table

end PyAppRunner.Sql
