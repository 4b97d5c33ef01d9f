import PyAppRunner.Redis.Stream

/-! What a consumer group has delivered.

A group goes through the entries in their order, so what it has delivered is what is not past its last
id. In a `Tidy` stream its pending list is exactly that; every command keeps a stream tidy, and a command
that only tells the group something leaves the entries as they were (`Follows`). -/
namespace PyAppRunner.Redis.XStream
variable {α : Type}

/-- The group has got to the entry. -/
def delivered (s : XStream α) (e : Entry α) : Bool := s.group.any fun g => decide (e.id ≤ g.lastDelivered)

/-- The pending list has the entries that were delivered, in their order, and nothing else. -/
def Tidy (s : XStream α) : Prop :=
  ∀ g ∈ s.group, g.pending.map Pending.id = (s.entries.map Entry.id).filter fun i => decide (i ≤ g.lastDelivered)

/-- How many entries `XINFO GROUPS` says are pending; none without the group. -/
def pendingCount (s : XStream α) : Nat := (s.group.map fun g => g.pending.length).getD 0

theorem tidy_empty : (empty : XStream α).Tidy := by
  intro g hg
  cases hg

/-- `XPENDING` counts the entries that were delivered and are still there. -/
theorem Tidy.pendingCount {s : XStream α} (h : s.Tidy) : s.pendingCount = s.entries.countP s.delivered := by
  unfold XStream.pendingCount delivered
  cases hg : s.group with
  | none => simp
  | some g =>
    have hlength := congrArg List.length (h g hg)
    rw [List.length_map, List.filter_map, List.length_map, ← List.countP_eq_length_filter] at hlength
    exact hlength

/-- A new entry gets an id behind all the others. -/
theorem Tidy.xadd {s : XStream α} (h : s.Tidy) (ms : Nat) (v : α) : (s.xadd ms v).Tidy := by
  intro g hg
  have hlt : g.lastDelivered < s.nextId ms := (s.reached g hg).trans_lt (s.lastId_lt_nextId ms)
  rw [entries_xadd, List.map_append, List.filter_append, h g hg]
  simp [hlt]

theorem Tidy.xgroupCreate {s : XStream α} (h : s.Tidy) : s.xgroupCreate.Tidy := by
  unfold XStream.xgroupCreate
  split
  · exact h
  · intro g hg
    rw [Option.mem_some_iff] at hg
    subst hg
    symm
    rw [List.map_nil, List.filter_eq_nil_iff]
    intro i hi
    obtain ⟨e, he, rfl⟩ := List.mem_map.mp hi
    simpa using s.positive e he

/-- The entries up to the first unread one, and those up to where the group was. -/
theorem filter_nextUnread {s : XStream α} {g : Group} {e : Entry α} (h : s.nextUnread g = some e) :
    (s.entries.map Entry.id).filter (fun i => decide (i ≤ e.id)) =
      (s.entries.map Entry.id).filter (fun i => decide (i ≤ g.lastDelivered)) ++ [e.id] := by
  obtain ⟨hunread, before, after, hsplit, hbefore⟩ := List.find?_eq_some_iff_append.mp h
  have hlt : g.lastDelivered < e.id := by simpa using hunread
  have hsorted := s.sorted
  rw [hsplit, List.pairwise_append, List.pairwise_cons] at hsorted
  obtain ⟨-, ⟨hafter, -⟩, hacross⟩ := hsorted
  have hupto : ∀ b ∈ before, b.id ≤ g.lastDelivered := by
    intro b hb
    simpa using hbefore b hb
  have hbeforeIds : ∀ i ∈ before.map Entry.id, i ≤ e.id ∧ i ≤ g.lastDelivered := by
    intro i hi
    obtain ⟨b, hb, rfl⟩ := List.mem_map.mp hi
    exact ⟨(hupto b hb).trans hlt.le, hupto b hb⟩
  have hafterIds : ∀ i ∈ after.map Entry.id, ¬ i ≤ e.id ∧ ¬ i ≤ g.lastDelivered := by
    intro i hi
    obtain ⟨b, hb, rfl⟩ := List.mem_map.mp hi
    exact ⟨(hafter b hb).not_ge, (hlt.trans (hafter b hb)).not_ge⟩
  rw [hsplit, List.map_append, List.map_cons, List.filter_append, List.filter_append,
    List.filter_cons_of_pos (by simp), List.filter_cons_of_neg (by simpa using hlt),
    List.filter_eq_self.mpr fun i hi => decide_eq_true (hbeforeIds i hi).1,
    List.filter_eq_self.mpr fun i hi => decide_eq_true (hbeforeIds i hi).2,
    List.filter_eq_nil_iff.mpr fun i hi => by simpa using (hafterIds i hi).1,
    List.filter_eq_nil_iff.mpr fun i hi => by simpa using (hafterIds i hi).2, List.append_nil]

/-- What is delivered gets a claim. -/
theorem Tidy.xreadgroup {s : XStream α} (h : s.Tidy) (ms : Nat) : (s.xreadgroup ms).2.Tidy := by
  unfold XStream.xreadgroup
  split
  · exact h
  · rename_i g hg
    split
    · exact h
    · rename_i e hnext
      intro g' hg'
      rw [Option.mem_some_iff] at hg'
      subst hg'
      show (g.pending ++ [(⟨e.id, ms⟩ : Pending)]).map Pending.id = _
      rw [List.map_append, h g hg]
      exact (filter_nextUnread hnext).symm

theorem map_id_redeliver (ms : Nat) (id : EntryId) (ps : List Pending) :
    (redeliver ms id ps).map Pending.id = ps.map Pending.id := by
  rw [redeliver, List.map_map]
  apply List.map_congr_left
  intro p _
  show (if p.id = id then {p with delivered := ms} else p).id = p.id
  split <;> rfl

/-- To drop a claim is to drop its id. -/
theorem map_id_filter (id : EntryId) (ps : List Pending) :
    (ps.filter fun p => decide (p.id ≠ id)).map Pending.id = (ps.map Pending.id).filter fun i => decide (i ≠ id) := by
  rw [List.filter_map]
  rfl

/-- In a tidy stream nothing is pending that was deleted. -/
theorem Tidy.xautoclaim {s : XStream α} (h : s.Tidy) (ms minIdle : Nat) : (s.xautoclaim ms minIdle).2.Tidy := by
  unfold XStream.xautoclaim
  split
  · exact h
  · rename_i g hg
    have hpending := h g hg
    split
    · exact h
    · rename_i id hscan
      intro g' hg'
      simp only [withPending, Option.mem_some_iff] at hg'
      subst hg'
      show (g.pending.filter fun p => decide (p.id ≠ id)).map Pending.id = _
      rw [map_id_filter, hpending]
      apply List.filter_eq_self.mpr
      intro i hi
      obtain ⟨e, he, rfl⟩ := List.mem_map.mp (List.mem_filter.mp hi).1
      simpa using scan_deleted hscan e he
    · rename_i e hscan
      intro g' hg'
      simp only [withPending, Option.mem_some_iff] at hg'
      subst hg'
      show (redeliver ms e.id g.pending).map Pending.id = _
      rw [map_id_redeliver]
      exact hpending

/-- `XACK` and `XDEL` of one entry. -/
theorem Tidy.remove {s : XStream α} (h : s.Tidy) (id : EntryId) : ((s.xack id).xdel id).Tidy := by
  have hids : ((s.xack id).xdel id).entries.map Entry.id = (s.entries.map Entry.id).filter fun i => decide (i ≠ id) := by
    show ((s.xack id).entries.filter fun e => decide (e.id ≠ id)).map Entry.id = _
    rw [entries_xack, List.filter_map]
    rfl
  intro g' hg'
  rw [hids]
  change g' ∈ (s.xack id).group at hg'
  unfold xack at hg'
  split at hg'
  · rename_i hnone
    rw [hnone] at hg'
    cases hg'
  · rename_i g hg
    simp only [withPending, Option.mem_some_iff] at hg'
    subst hg'
    rw [map_id_filter, h g hg, List.filter_filter, List.filter_filter]
    apply List.filter_congr
    intro i _
    exact Bool.and_comm ..

/-- A group is given entries in order, so one id says which. -/
theorem delivered_iff {s : XStream α} {e : Entry α} :
    s.delivered e = true ↔ ∃ g ∈ s.group, e.id ≤ g.lastDelivered := by
  cases hg : s.group <;> simp [delivered, hg]

@[simp] theorem delivered_remove (id : EntryId) (s : XStream α) (e : Entry α) :
    ((s.xack id).xdel id).delivered e = s.delivered e := by
  show (s.xack id).delivered e = _
  unfold xack
  split
  · rfl
  · rename_i g hg
    simp [delivered, withPending, hg]

/-- The same entries, with the group further on. -/
structure Follows (s s' : XStream α) : Prop where
  entries : s'.entries = s.entries
  deliverable : ∀ e, s.Deliverable e → s'.Deliverable e
  tidy : s.Tidy → s'.Tidy
  delivered : ∀ e, s.delivered e = true → s'.delivered e = true

/-- What follows goes on following. -/
theorem Follows.trans {s s' s'' : XStream α} (h : s.Follows s') (h' : s'.Follows s'') : s.Follows s'' where
  entries := h'.entries.trans h.entries
  deliverable := fun e he => h'.deliverable e (h.deliverable e he)
  tidy := fun ht => h'.tidy (h.tidy ht)
  delivered := fun e he => h'.delivered e (h.delivered e he)

theorem follows_xgroupCreate (s : XStream α) : s.Follows s.xgroupCreate where
  entries := entries_xgroupCreate s
  deliverable := fun _ he => he.xgroupCreate
  tidy := Tidy.xgroupCreate
  delivered := by
    intro e he
    obtain ⟨g, hg, hle⟩ := delivered_iff.mp he
    unfold xgroupCreate
    split
    · exact he
    · rename_i hnone
      rw [hnone] at hg
      cases hg

theorem follows_xreadgroup (ms : Nat) (s : XStream α) : s.Follows (s.xreadgroup ms).2 where
  entries := entries_xreadgroup ms s
  deliverable := fun _ he => he.xreadgroup ms
  tidy := fun h => h.xreadgroup ms
  delivered := by
    intro e he
    obtain ⟨g, hg, hle⟩ := delivered_iff.mp he
    unfold xreadgroup
    split
    · exact he
    · rename_i g' hg'
      split
      · exact he
      · rename_i next hnext
        rw [Option.mem_def, hg', Option.some.injEq] at hg
        subst hg
        have hlt : g'.lastDelivered < next.id := by simpa using List.find?_some hnext
        exact delivered_iff.mpr ⟨_, rfl, hle.trans hlt.le⟩

theorem follows_xautoclaim (ms minIdle : Nat) (s : XStream α) : s.Follows (s.xautoclaim ms minIdle).2 where
  entries := entries_xautoclaim ms minIdle s
  deliverable := fun _ he => he.xautoclaim ms minIdle
  tidy := fun h => h.xautoclaim ms minIdle
  delivered := by
    intro e he
    obtain ⟨g, hg, hle⟩ := delivered_iff.mp he
    unfold xautoclaim
    split
    · exact he
    · rename_i g' hg'
      rw [Option.mem_def, hg', Option.some.injEq] at hg
      subst hg
      split
      · exact he
      · exact delivered_iff.mpr ⟨_, rfl, hle⟩
      · exact delivered_iff.mpr ⟨_, rfl, hle⟩

/-- What is handed out has been delivered. -/
theorem xreadgroup_delivered {ms : Nat} {s : XStream α} {e : Entry α} (h : (s.xreadgroup ms).1 = some e) :
    (s.xreadgroup ms).2.delivered e = true := by
  unfold xreadgroup at h ⊢
  split at h
  · cases h
  · split at h
    · cases h
    · rename_i hnext
      cases h
      simp [delivered]

/-- The scan takes the first entry that is idle. -/
theorem scan_idle {ms minIdle : Nat} {entries : List (Entry α)} {ps : List Pending} {e : Entry α}
    (h : scan ms minIdle entries ps = .claimed e) : ∃ p ∈ ps, p.id = e.id ∧ p.delivered + minIdle ≤ ms := by
  induction ps with
  | nil => cases h
  | cons p rest ih =>
    unfold scan at h
    split at h
    · cases h
    · rename_i hfind
      split at h
      · rename_i hidle
        cases h
        have hid := List.find?_some hfind
        exact ⟨p, List.mem_cons_self, (of_decide_eq_true hid).symm, hidle⟩
      · obtain ⟨p', hp', hid⟩ := ih h
        exact ⟨p', List.mem_cons_of_mem _ hp', hid⟩

/-- What is pending in a tidy stream is one of its entries, and was delivered. -/
theorem Tidy.pending {s : XStream α} (h : s.Tidy) {g : Group} (hg : g ∈ s.group) {p : Pending} (hp : p ∈ g.pending) :
    (∃ e ∈ s.entries, e.id = p.id) ∧ p.id ≤ g.lastDelivered := by
  have hmem : p.id ∈ g.pending.map Pending.id := List.mem_map_of_mem hp
  rw [h g hg, List.mem_filter, List.mem_map, decide_eq_true_eq] at hmem
  exact hmem

/-- What is taken over was pending, and in a tidy stream what is pending was delivered. -/
theorem xautoclaim_delivered {ms minIdle : Nat} {s : XStream α} {e : Entry α} (ht : s.Tidy)
    (h : (s.xautoclaim ms minIdle).1 = some e) : (s.xautoclaim ms minIdle).2.delivered e = true := by
  apply (follows_xautoclaim ms minIdle s).delivered
  unfold xautoclaim at h
  split at h
  · cases h
  · rename_i g hg
    split at h
    · cases h
    · cases h
    · rename_i hscan
      cases h
      obtain ⟨p, hp, hid, -⟩ := scan_idle hscan
      have hle := (ht.pending hg (List.mem_of_mem_take hp)).2
      rw [hid] at hle
      exact delivered_iff.mpr ⟨g, hg, hle⟩

end PyAppRunner.Redis.XStream
