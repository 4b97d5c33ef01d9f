import PyAppRunner.Sql.Table

/-! A unique index over a table.

A row may have a key. What has to be kept is more than that no two committed rows share
one: two sessions must not hold versions that would clash once both are committed, and a
session may hold a key that is committed elsewhere only if it holds the end of that row
too (`Distinct`). The index makes an insert wait for, or fail on, any row that could
clash with it; whatever keeps the key of the rows it changes keeps the rest. -/
namespace PyAppRunner.Sql.Table
variable {κ ρ K : Type} [DecidableEq κ]

/-- The version is a row with key `k`. -/
def HasKey (key : ρ → Option K) (k : K) (v : Option ρ) : Prop := v.bind key = some k

/-- No two rows have, or could come to have, the same key. -/
structure Distinct (key : ρ → Option K) (t : Table κ ρ) : Prop where
  committed : ∀ i j k, HasKey key k (t.slot i).committed → HasKey key k (t.slot j).committed → i = j
  held : ∀ i j k c d v v', (t.slot i).held = some (c, v) → HasKey key k v →
    (t.slot j).held = some (d, v') → HasKey key k v' → i = j
  above : ∀ i j k c v, i ≠ j → (t.slot i).held = some (c, v) → HasKey key k v →
    HasKey key k (t.slot j).committed → ∃ v', (t.slot j).held = some (c, v') ∧ ¬ HasKey key k v'

/-- No row that session `c` sees has key `k`, and no other session is about to add such a
row or to take it away. -/
structure Free (key : ρ → Option K) (c : κ) (k : K) (t : Table κ ρ) : Prop where
  unseen : ∀ i, ¬ HasKey key k ((t.slot i).view c)
  settled : ∀ i d v, (t.slot i).held = some (d, v) → d ≠ c →
    (HasKey key k v ↔ HasKey key k (t.slot i).committed)

variable {key : ρ → Option K} {c : κ} {t : Table κ ρ}

omit [DecidableEq κ] in
theorem distinct_empty : Distinct key (empty : Table κ ρ) where
  committed := by
    intro i j k hi
    cases hi
  held := by
    intro i j k c d v v' hi
    cases hi
  above := by
    intro i j k c v hij hi
    cases hi

/-! ### Changing rows -/

/-- What a statement that keeps keys makes of a slot. -/
theorem slot_modify_cases {p : Nat → ρ → Bool} {f : ρ → Option ρ} (hfree : t.blocked c p = false) (i : Nat) :
    (t.modify c p f).slot i = t.slot i ∨
      ∃ r, (t.slot i).view c = some r ∧ (t.slot i).taken c = false ∧
        (t.modify c p f).slot i = ⟨(t.slot i).committed, some (c, f r)⟩ := by
  cases hview : (t.slot i).view c with
  | none =>
    left
    apply slot_modify_of_not
    intro r hr
    rw [hview] at hr
    cases hr
  | some r =>
    by_cases hp : p i r = true
    · right
      refine ⟨r, rfl, ?_, slot_modify_of hview hp⟩
      rw [← Bool.not_eq_true]
      intro htaken
      rw [blocked_iff.mpr ⟨i, r, hview, hp, htaken⟩] at hfree
      cases hfree
    · left
      apply slot_modify_of_not
      intro r' hr'
      rw [hview] at hr'
      cases hr'
      simpa using hp

/-- The version `c` sees of a row that nobody else has is its own, or is committed. -/
theorem view_cases {i : Nat} (htaken : (t.slot i).taken c = false) :
    (t.slot i).held = some (c, (t.slot i).view c) ∨
      (t.slot i).held = none ∧ (t.slot i).view c = (t.slot i).committed := by
  cases hheld : (t.slot i).held with
  | none =>
    right
    exact ⟨rfl, by simp [Slot.view, hheld]⟩
  | some version =>
    obtain ⟨d, v⟩ := version
    left
    have hd : d = c := by
      by_contra hne
      rw [Slot.taken_iff.mpr ⟨d, v, hheld, hne⟩] at htaken
      cases htaken
    subst hd
    simp [Slot.view, hheld]

section Modify
variable {p : Nat → ρ → Bool} {f : ρ → Option ρ} (hkeeps : ∀ r r', f r = some r' → key r' = key r)
include hkeeps

omit [DecidableEq κ] in
theorem hasKey_of_kept {r : ρ} {k : K} (h : HasKey key k (f r)) : HasKey key k (some r) := by
  unfold HasKey at h ⊢
  obtain ⟨r', hr', hk⟩ := Option.bind_eq_some_iff.mp h
  rw [Option.bind_some, ← hkeeps r r' hr', hk]

/-- A key that is held after the statement was held before, or the row was committed with it. -/
theorem held_modify (hfree : t.blocked c p = false) {i : Nat} {k : K} {d : κ} {v : Option ρ}
    (hheld : ((t.modify c p f).slot i).held = some (d, v)) (hk : HasKey key k v) :
    (∃ v', (t.slot i).held = some (d, v') ∧ HasKey key k v') ∨
      d = c ∧ (t.slot i).held = none ∧ HasKey key k (t.slot i).committed := by
  obtain hsame | ⟨r, hview, htaken, hnew⟩ := slot_modify_cases (f := f) hfree i
  · rw [hsame] at hheld
    exact .inl ⟨v, hheld, hk⟩
  · rw [hnew] at hheld
    cases hheld
    have hr : HasKey key k (some r) := hasKey_of_kept hkeeps hk
    obtain hown | ⟨hnone, hcommitted⟩ := view_cases htaken
    · exact .inl ⟨some r, hview ▸ hown, hr⟩
    · exact .inr ⟨rfl, hnone, hcommitted ▸ hview ▸ hr⟩

theorem Distinct.modify (h : Distinct key t) (hfree : t.blocked c p = false) : Distinct key (t.modify c p f) where
  committed := by
    intro i j k hi hj
    rw [sameCommitted_modify i] at hi
    rw [sameCommitted_modify j] at hj
    exact h.committed i j k hi hj
  held := by
    intro i j k d e v v' hi hki hj hkj
    obtain ⟨u, hu, hku⟩ | ⟨-, hnone, hcommitted⟩ := held_modify hkeeps hfree hi hki
    · obtain ⟨u', hu', hku'⟩ | ⟨-, hnone', hcommitted'⟩ := held_modify hkeeps hfree hj hkj
      · exact h.held i j k d e u u' hu hku hu' hku'
      · by_contra hij
        obtain ⟨v', hv', -⟩ := h.above i j k d u hij hu hku hcommitted'
        rw [hnone'] at hv'
        cases hv'
    · obtain ⟨u', hu', hku'⟩ | ⟨-, hnone', hcommitted'⟩ := held_modify hkeeps hfree hj hkj
      · by_contra hij
        obtain ⟨v', hv', -⟩ := h.above j i k e u' (Ne.symm hij) hu' hku' hcommitted
        rw [hnone] at hv'
        cases hv'
      · exact h.committed i j k hcommitted hcommitted'
  above := by
    intro i j k d v hij hi hki hj
    rw [sameCommitted_modify j] at hj
    obtain ⟨u, hu, hku⟩ | ⟨-, -, hcommitted⟩ := held_modify hkeeps hfree hi hki
    · obtain ⟨v', hv', hnot⟩ := h.above i j k d u hij hu hku hj
      obtain hsame | ⟨r, hview, htaken, hnew⟩ := slot_modify_cases (f := f) hfree j
      · exact ⟨v', by rw [hsame, hv'], hnot⟩
      · obtain hown | ⟨hnone, -⟩ := view_cases htaken
        · rw [hv'] at hown
          cases hown
          exact ⟨f r, by rw [hnew], fun hk => hnot (hview ▸ hasKey_of_kept hkeeps hk)⟩
        · rw [hnone] at hv'
          cases hv'
    · exact absurd (h.committed i j k hcommitted hj) hij

end Modify

/-! ### Adding a row -/

omit [DecidableEq κ] in
theorem slot_insert (r : ρ) (i : Nat) : ((t.insert c r).2).slot i =
    if i = t.seq + 1 then ⟨none, some (c, some r)⟩ else t.slot i := by
  by_cases hi : i = t.seq + 1
  · rw [if_pos hi, hi]
    simp [insert, Slot.write, Slot.blank]
  · rw [if_neg hi]
    simp [insert, hi]

/-- Nobody holds the key. -/
theorem Free.not_held {k : K} (hf : Free key c k t) {i : Nat} {d : κ} {v : Option ρ}
    (hheld : (t.slot i).held = some (d, v)) : ¬ HasKey key k v := by
  have hunseen := hf.unseen i
  by_cases hd : d = c
  · rwa [show (t.slot i).view c = v by simp [Slot.view, hheld, hd]] at hunseen
  · rw [hf.settled i d v hheld hd]
    rwa [show (t.slot i).view c = (t.slot i).committed by simp [Slot.view, hheld, hd]] at hunseen

/-- A committed row with the key is one that `c` itself is about to take away. -/
theorem Free.ending {k : K} (hf : Free key c k t) {i : Nat} (hk : HasKey key k (t.slot i).committed) :
    ∃ v, (t.slot i).held = some (c, v) ∧ ¬ HasKey key k v := by
  have hunseen := hf.unseen i
  cases hheld : (t.slot i).held with
  | none =>
    rw [show (t.slot i).view c = (t.slot i).committed by simp [Slot.view, hheld]] at hunseen
    exact absurd hk hunseen
  | some version =>
    obtain ⟨d, v⟩ := version
    have hnot := hf.not_held hheld
    by_cases hd : d = c
    · subst hd
      exact ⟨v, rfl, hnot⟩
    · rw [hf.settled i d v hheld hd] at hnot
      exact absurd hk hnot

theorem Distinct.insert (h : Distinct key t) {r : ρ} (hfree : ∀ k, key r = some k → Free key c k t) :
    Distinct key (t.insert c r).2 where
  committed := by
    intro i j k hi hj
    rw [sameCommitted_insert i] at hi
    rw [sameCommitted_insert j] at hj
    exact h.committed i j k hi hj
  held := by
    intro i j k d e v v' hi hki hj hkj
    rw [slot_insert] at hi hj
    split at hi
    · rename_i hin
      cases hi
      split at hj
      · rename_i hjn
        rw [hin, hjn]
      · exact absurd hkj ((hfree k hki).not_held hj)
    · split at hj
      · cases hj
        exact absurd hki ((hfree k hkj).not_held hi)
      · exact h.held i j k d e v v' hi hki hj hkj
  above := by
    intro i j k d v hij hi hki hj
    rw [sameCommitted_insert j] at hj
    have hjn : j ≠ t.seq + 1 := by
      intro hjn
      rw [hjn, t.fresh _ (Nat.lt_succ_self _)] at hj
      cases hj
    rw [slot_insert, if_neg hjn]
    rw [slot_insert] at hi
    split at hi
    · cases hi
      exact (hfree k hki).ending hj
    · exact h.above i j k d v hij hi hki hj

/-! ### Ending a transaction -/

/-- What is committed after a commit was committed before, or `c` held it. -/
theorem committed_commit_cases {k : K} {i : Nat} (h : HasKey key k ((t.commit c).slot i).committed) :
    (∃ v, (t.slot i).held = some (c, v) ∧ HasKey key k v) ∨
      (∀ v, (t.slot i).held ≠ some (c, v)) ∧ HasKey key k (t.slot i).committed := by
  by_cases hheld : ∃ v, (t.slot i).held = some (c, v)
  · obtain ⟨v, hv⟩ := hheld
    left
    replace h : HasKey key k ((t.slot i).commit c).committed := h
    simp only [Slot.commit, hv, if_true] at h
    exact ⟨v, hv, h⟩
  · right
    have hnot : ∀ v, (t.slot i).held ≠ some (c, v) := fun v hv => hheld ⟨v, hv⟩
    replace h : HasKey key k ((t.slot i).commit c).committed := h
    rw [slot_commit_of_not_held hnot] at h
    exact ⟨hnot, h⟩

theorem held_commit {i : Nat} {d : κ} {v : Option ρ} :
    ((t.commit c).slot i).held = some (d, v) ↔ d ≠ c ∧ (t.slot i).held = some (d, v) := by
  show ((t.slot i).commit c).held = some (d, v) ↔ _
  unfold Slot.commit
  split <;> grind

theorem held_rollback {i : Nat} {d : κ} {v : Option ρ} :
    ((t.rollback c).slot i).held = some (d, v) ↔ d ≠ c ∧ (t.slot i).held = some (d, v) := by
  show ((t.slot i).rollback c).held = some (d, v) ↔ _
  unfold Slot.rollback
  split <;> grind

theorem Distinct.commit (h : Distinct key t) (c : κ) : Distinct key (t.commit c) where
  committed := by
    intro i j k hi hj
    by_contra hij
    obtain ⟨v, hv, hk⟩ | ⟨hnot, hk⟩ := committed_commit_cases hi
    · obtain ⟨v', hv', hk'⟩ | ⟨hnot', hk'⟩ := committed_commit_cases hj
      · exact hij (h.held i j k c c v v' hv hk hv' hk')
      · obtain ⟨v', hv', -⟩ := h.above i j k c v hij hv hk hk'
        exact hnot' v' hv'
    · obtain ⟨v', hv', hk'⟩ | ⟨hnot', hk'⟩ := committed_commit_cases hj
      · obtain ⟨v, hv, -⟩ := h.above j i k c v' (Ne.symm hij) hv' hk' hk
        exact hnot v hv
      · exact hij (h.committed i j k hk hk')
  held := by
    intro i j k d e v v' hi hki hj hkj
    rw [held_commit] at hi hj
    exact h.held i j k d e v v' hi.2 hki hj.2 hkj
  above := by
    intro i j k d v hij hi hki hj
    rw [held_commit] at hi
    obtain ⟨v', hv', hk'⟩ | ⟨-, hk'⟩ := committed_commit_cases hj
    · exact absurd (h.held i j k d c v v' hi.2 hki hv' hk') hij
    · obtain ⟨v', hv', hnot⟩ := h.above i j k d v hij hi.2 hki hk'
      exact ⟨v', held_commit.mpr ⟨hi.1, hv'⟩, hnot⟩

theorem Distinct.rollback (h : Distinct key t) (c : κ) : Distinct key (t.rollback c) where
  committed := by
    intro i j k hi hj
    rw [sameCommitted_rollback i] at hi
    rw [sameCommitted_rollback j] at hj
    exact h.committed i j k hi hj
  held := by
    intro i j k d e v v' hi hki hj hkj
    rw [held_rollback] at hi hj
    exact h.held i j k d e v v' hi.2 hki hj.2 hkj
  above := by
    intro i j k d v hij hi hki hj
    rw [held_rollback] at hi
    rw [sameCommitted_rollback j] at hj
    obtain ⟨v', hv', hnot⟩ := h.above i j k d v hij hi.2 hki hj
    exact ⟨v', held_rollback.mpr ⟨hi.1, hv'⟩, hnot⟩

end PyAppRunner.Sql.Table
