import PyAppRunner.Redis.Group

/-! One look at the group: `XAUTOCLAIM` and, if it has nothing, `XREADGROUP`.

In a tidy stream a look comes upon the entries in their order, those that are pending and idle before
those that are unread. `XAUTOCLAIM` looks no further than ten pending entries, so an entry can be offered
and yet out of reach. If an entry is in reach, a look finds one, and not a later one; once that is
removed, the others are in reach as before and one fewer is in front (`Without.inFront_lt`). -/
namespace PyAppRunner.Redis.XStream
variable {α : Type}

/-- One look of the script: a lapsed claim that `XAUTOCLAIM` finds, or else the next unread entry.
-/
def takeNext (ms minIdle : Nat) (s : XStream α) : Option (Entry α) × XStream α :=
  match (s.xautoclaim ms minIdle).1 with
  | some e => (some e, (s.xautoclaim ms minIdle).2)
  | none => (s.xautoclaim ms minIdle).2.xreadgroup ms

theorem follows_takeNext (ms minIdle : Nat) (s : XStream α) : s.Follows (s.takeNext ms minIdle).2 := by
  unfold takeNext
  split
  · exact follows_xautoclaim ms minIdle s
  · exact (follows_xautoclaim ms minIdle s).trans (follows_xreadgroup ms _)

/-- What a look finds has been delivered by then. -/
theorem takeNext_delivered {ms minIdle : Nat} {s : XStream α} {e : Entry α} (h : s.Tidy)
    (htaken : (s.takeNext ms minIdle).1 = some e) : (s.takeNext ms minIdle).2.delivered e = true := by
  unfold takeNext at htaken ⊢
  split at htaken
  · rename_i f hf
    cases htaken
    exact xautoclaim_delivered h hf
  · exact xreadgroup_delivered htaken

/-- A look can come upon the entry: it is unread, or has been pending for long enough. -/
def offered (ms minIdle : Nat) (s : XStream α) (e : Entry α) : Bool :=
  !s.delivered e || s.group.any fun g => g.pending.any fun p => decide (p.id = e.id ∧ p.delivered + minIdle ≤ ms)

/-- The same, but for what is pending only as far as `XAUTOCLAIM` looks. -/
def InReach (ms minIdle : Nat) (s : XStream α) (e : Entry α) : Prop :=
  s.delivered e = false ∨ ∃ g ∈ s.group, ∃ p ∈ g.pending.take 10, p.id = e.id ∧ p.delivered + minIdle ≤ ms

instance (ms minIdle : Nat) (s : XStream α) (e : Entry α) : Decidable (s.InReach ms minIdle e) :=
  inferInstanceAs (Decidable (_ ∨ _))

/-- Unread is what lies behind the last entry that the group was given. -/
theorem delivered_eq_false {s : XStream α} {g : Group} (hg : s.group = some g) {e : Entry α} :
    s.delivered e = false ↔ g.lastDelivered < e.id := by
  simp [delivered, hg]

/-- A scan that finds nothing has seen no claim that lapsed. -/
theorem scan_nothing {ms minIdle : Nat} {entries : List (Entry α)} {ps : List Pending}
    (h : scan ms minIdle entries ps = .nothing) : ∀ p ∈ ps, ¬ p.delivered + minIdle ≤ ms := by
  induction ps with
  | nil => simp
  | cons p rest ih =>
    unfold scan at h
    split at h
    · cases h
    · split at h
      · cases h
      · rename_i hidle
        rw [List.forall_mem_cons]
        exact ⟨hidle, ih h⟩

/-- A scan may meet a claim whose entry is gone. -/
theorem scan_deleted_pending {ms minIdle : Nat} {entries : List (Entry α)} {ps : List Pending} {id : EntryId}
    (h : scan ms minIdle entries ps = .deleted id) : ∃ p ∈ ps, p.id = id := by
  induction ps with
  | nil => cases h
  | cons p rest ih =>
    unfold scan at h
    split at h
    · cases h
      exact ⟨p, List.mem_cons_self, rfl⟩
    · split at h
      · cases h
      · obtain ⟨p', hp', hid⟩ := ih h
        exact ⟨p', List.mem_cons_of_mem _ hp', hid⟩

/-- No idle entry comes before the one the scan takes. -/
theorem scan_le {ms minIdle : Nat} {entries : List (Entry α)} {ps : List Pending} {e : Entry α}
    (hsorted : (ps.map Pending.id).Pairwise (· < ·)) (h : scan ms minIdle entries ps = .claimed e) :
    ∀ p ∈ ps, p.delivered + minIdle ≤ ms → e.id ≤ p.id := by
  induction ps with
  | nil => cases h
  | cons p rest ih =>
    rw [List.map_cons, List.pairwise_cons] at hsorted
    unfold scan at h
    split at h
    · cases h
    · rename_i hfind
      rw [List.forall_mem_cons]
      split at h
      · cases h
        have hid := List.find?_some hfind
        rw [of_decide_eq_true hid]
        exact ⟨fun _ => le_rfl, fun p' hp' _ => (hsorted.1 p'.id (List.mem_map_of_mem hp')).le⟩
      · rename_i hbusy
        exact ⟨fun hidle => absurd hidle hbusy, ih hsorted.2 h⟩

/-- Claims are kept in the order of their entries. -/
theorem Tidy.sorted_pending {s : XStream α} (h : s.Tidy) {g : Group} (hg : g ∈ s.group) :
    (g.pending.map Pending.id).Pairwise (· < ·) := by
  rw [h g hg]
  exact (List.pairwise_map.mpr s.sorted).filter _

/-- In a tidy stream `XAUTOCLAIM` takes over the first entry in reach that was idle, or leaves everything as it
was, and then none in reach was idle. -/
theorem Tidy.xautoclaim_cases {s : XStream α} (h : s.Tidy) (ms minIdle : Nat) {g : Group} (hg : s.group = some g) :
    (∃ f ∈ s.entries, (s.xautoclaim ms minIdle).1 = some f ∧
      (∃ p ∈ g.pending, p.id = f.id ∧ p.delivered + minIdle ≤ ms) ∧
      (∀ p ∈ g.pending.take 10, p.delivered + minIdle ≤ ms → f.id ≤ p.id) ∧
      (s.xautoclaim ms minIdle).2.group = some {g with pending := redeliver ms f.id g.pending}) ∨
    s.xautoclaim ms minIdle = (none, s) ∧ ∀ p ∈ g.pending.take 10, ¬ p.delivered + minIdle ≤ ms := by
  unfold XStream.xautoclaim
  split
  · rename_i hnone
    rw [hg] at hnone
    cases hnone
  · rename_i g' hg'
    rw [hg, Option.some.injEq] at hg'
    subst hg'
    split
    · rename_i hscan
      exact .inr ⟨rfl, scan_nothing hscan⟩
    · rename_i id hscan
      exfalso
      obtain ⟨p, hp, hid⟩ := scan_deleted_pending hscan
      obtain ⟨⟨e, he, heq⟩, -⟩ := h.pending hg (List.mem_of_mem_take hp)
      exact scan_deleted hscan e he (heq.trans hid)
    · rename_i f hscan
      obtain ⟨p, hp, hidle⟩ := scan_idle hscan
      have hsorted : ((g.pending.take 10).map Pending.id).Pairwise (· < ·) :=
        (h.sorted_pending hg).sublist ((List.take_sublist 10 _).map _)
      exact .inl ⟨f, scan_mem hscan, rfl, ⟨p, List.mem_of_mem_take hp, hidle⟩, scan_le hsorted hscan, rfl⟩

/-- A claim that is taken over is the only one that changes. -/
theorem filter_redeliver (ms : Nat) (id : EntryId) (ps : List Pending) :
    (redeliver ms id ps).filter (fun p => decide (p.id ≠ id)) = ps.filter fun p => decide (p.id ≠ id) := by
  induction ps with
  | nil => rfl
  | cons p rest ih =>
    show List.filter _ ((if p.id = id then {p with delivered := ms} else p) :: redeliver ms id rest) = _
    by_cases hp : p.id = id
    · rw [if_pos hp, List.filter_cons_of_neg (by simpa using hp), List.filter_cons_of_neg (by simpa using hp), ih]
    · rw [if_neg hp, List.filter_cons_of_pos (by simpa using hp), List.filter_cons_of_pos (by simpa using hp), ih]

/-- The group after an entry is acknowledged and deleted. -/
theorem group_remove {s : XStream α} {g : Group} (hg : s.group = some g) (id : EntryId) :
    ((s.xack id).xdel id).group = some {g with pending := g.pending.filter fun p => decide (p.id ≠ id)} := by
  show (s.xack id).group = _
  unfold xack
  split
  · rename_i hnone
    rw [hg] at hnone
    cases hnone
  · rename_i g' hg'
    rw [hg, Option.some.injEq] at hg'
    subst hg'
    rfl

theorem lt_nextUnread {s : XStream α} {g : Group} {f : Entry α} (h : s.nextUnread g = some f) :
    g.lastDelivered < f.id := by
  have hunread := List.find?_some h
  exact of_decide_eq_true hunread

/-- The next unread entry, with a claim on it from now on. -/
theorem xreadgroup_next {s : XStream α} {g : Group} (hg : s.group = some g) {f : Entry α} (h : s.nextUnread g = some f)
    (ms : Nat) : (s.xreadgroup ms).1 = some f ∧ (s.xreadgroup ms).2.group = some ⟨f.id, g.pending ++ [⟨f.id, ms⟩]⟩ := by
  unfold xreadgroup
  split
  · rename_i hnone
    rw [hg] at hnone
    cases hnone
  · rename_i g' hg'
    rw [hg, Option.some.injEq] at hg'
    subst hg'
    split
    · rename_i hnone
      rw [h] at hnone
      cases hnone
    · rename_i f' hf'
      rw [h, Option.some.injEq] at hf'
      subst hf'
      exact ⟨rfl, rfl⟩

/-- On offer is what nobody has read, and what was claimed too long ago. -/
theorem offered_iff {s : XStream α} {g : Group} (hg : s.group = some g) {ms minIdle : Nat} {e : Entry α} :
    s.offered ms minIdle e = true ↔
      s.delivered e = false ∨ ∃ p ∈ g.pending, p.id = e.id ∧ p.delivered + minIdle ≤ ms := by
  simp [offered, hg]

/-- `s'` is `s` without the entry `f`, to anyone who goes on looking. -/
structure Without (ms minIdle : Nat) (f : Entry α) (s s' : XStream α) : Prop where
  entries : s'.entries = s.entries.filter fun e => decide (e.id ≠ f.id)
  tidy : s'.Tidy
  group : ∃ g g', s.group = some g ∧ s'.group = some g' ∧
    g'.pending = g.pending.filter (fun p => decide (p.id ≠ f.id)) ∧
    ∀ e ∈ s.entries, e.id ≠ f.id → (e.id ≤ g'.lastDelivered ↔ e.id ≤ g.lastDelivered)

/-- **A look finds an entry** if one is in reach, the first that is; without it, the group goes on as before. -/
theorem Tidy.takeNext {s : XStream α} (h : s.Tidy) (ms minIdle : Nat) {g : Group} (hg : s.group = some g) {e : Entry α}
    (he : e ∈ s.entries) (hreach : s.InReach ms minIdle e) :
    ∃ f ∈ s.entries, (s.takeNext ms minIdle).1 = some f ∧ s.offered ms minIdle f = true ∧ f.id ≤ e.id ∧
      s.Without ms minIdle f (((s.takeNext ms minIdle).2.xack f.id).xdel f.id) := by
  have hunread : s.delivered e = false ↔ g.lastDelivered < e.id := delivered_eq_false hg
  unfold XStream.takeNext
  -- A lapsed entry is taken first, and it comes before all that are unread. With none the first unread one
  -- is.
  obtain ⟨f, hf, htaken, ⟨p, hp, hid, hidle⟩, hfirst, hgroup⟩ | ⟨hauto, hbusy⟩ := h.xautoclaim_cases ms minIdle hg
  · rw [htaken]
    have hle : f.id ≤ g.lastDelivered := by
      rw [← hid]
      exact (h.pending hg hp).2
    refine ⟨f, hf, rfl, ?_, ?_, ?_, (h.xautoclaim ms minIdle).remove f.id, g, _, hg, group_remove hgroup f.id, ?_, ?_⟩
    · exact (offered_iff hg).mpr (.inr ⟨p, hp, hid, hidle⟩)
    · rcases hreach with hnew | ⟨g', hg', p', hp', hid', hidle'⟩
      · exact hle.trans (hunread.mp hnew).le
      · rw [Option.mem_def, hg, Option.some.injEq] at hg'
        subst hg'
        rw [← hid']
        exact hfirst p' hp' hidle'
    · simp [xdel]
    · exact filter_redeliver ms f.id g.pending
    · exact fun _ _ _ => Iff.rfl
  · rw [hauto]
    have hnew : g.lastDelivered < e.id := by
      rcases hreach with hnew | ⟨g', hg', p', hp', -, hidle'⟩
      · exact hunread.mp hnew
      · rw [Option.mem_def, hg, Option.some.injEq] at hg'
        subst hg'
        exact absurd hidle' (hbusy p' hp')
    obtain ⟨f, hnext⟩ : ∃ f, s.nextUnread g = some f := by
      rw [← Option.isSome_iff_exists, nextUnread, List.find?_isSome]
      exact ⟨e, he, decide_eq_true hnew⟩
    have hlt := lt_nextUnread hnext
    have hread := xreadgroup_next hg hnext ms
    refine ⟨f, nextUnread_mem hnext, hread.1, ?_, nextUnread_le hnext he hnew, ?_, (h.xreadgroup ms).remove f.id, g, _,
      hg, group_remove hread.2 f.id, ?_, ?_⟩
    · exact (offered_iff hg).mpr (.inl ((delivered_eq_false hg).mpr hlt))
    · simp [xdel]
    · simp
    · intro e' he' hne
      constructor
      · intro hle
        rw [← not_lt]
        intro hnew'
        exact hne (le_antisymm hle (nextUnread_le hnext he' hnew'))
      · exact fun hle => hle.trans hlt.le

theorem mem_take_filter {β : Type} {p : β → Bool} {x : β} (hp : p x = true) {l : List β} {n : Nat} (h : x ∈ l.take n) :
    x ∈ (l.filter p).take n := by
  induction l generalizing n with
  | nil => simp at h
  | cons y rest ih =>
    cases n with
    | zero => simp at h
    | succ n =>
      rw [List.take_succ_cons, List.mem_cons] at h
      rcases h with rfl | h
      · rw [List.filter_cons_of_pos hp, List.take_succ_cons]
        exact List.mem_cons_self
      · have hrest := ih h
        by_cases hy : p y = true
        · rw [List.filter_cons_of_pos hy, List.take_succ_cons]
          exact List.mem_cons_of_mem _ hrest
        · rw [List.filter_cons_of_neg hy]
          exact List.take_subset_take_left _ n.le_succ hrest

namespace Without
variable {ms minIdle : Nat} {s s' : XStream α} {e f : Entry α} (h : s.Without ms minIdle f s')

include h

theorem mem (he : e ∈ s.entries) (hne : e.id ≠ f.id) : e ∈ s'.entries := by
  rw [h.entries, List.mem_filter]
  exact ⟨he, decide_eq_true hne⟩

theorem delivered (he : e ∈ s.entries) (hne : e.id ≠ f.id) : s'.delivered e = s.delivered e := by
  obtain ⟨g, g', hg, hg', -, hlast⟩ := h.group
  rw [Bool.eq_iff_iff, XStream.delivered, XStream.delivered, hg, hg']
  simpa using hlast e he hne

theorem inReach (he : e ∈ s.entries) (hne : e.id ≠ f.id) (hreach : s.InReach ms minIdle e) :
    s'.InReach ms minIdle e := by
  rcases hreach with hnew | ⟨g₀, hg₀, p, hp, hid, hidle⟩
  · exact .inl ((h.delivered he hne).trans hnew)
  · obtain ⟨g, g', hg, hg', hpending, -⟩ := h.group
    rw [Option.mem_def, hg, Option.some.injEq] at hg₀
    subst hg₀
    refine .inr ⟨g', hg', p, ?_, hid, hidle⟩
    rw [hpending]
    apply mem_take_filter _ hp
    rw [hid]
    exact decide_eq_true hne

theorem offered (he : e ∈ s.entries) (hne : e.id ≠ f.id) : s'.offered ms minIdle e = s.offered ms minIdle e := by
  obtain ⟨g, g', hg, hg', hpending, -⟩ := h.group
  rw [Bool.eq_iff_iff, offered_iff hg', offered_iff hg, h.delivered he hne, hpending]
  apply or_congr_right
  constructor
  · rintro ⟨p, hp, hidle⟩
    exact ⟨p, (List.mem_filter.mp hp).1, hidle⟩
  · rintro ⟨p, hp, hid, hidle⟩
    refine ⟨p, List.mem_filter.mpr ⟨hp, ?_⟩, hid, hidle⟩
    rw [hid]
    exact decide_eq_true hne

end Without

/-- How many entries that a look can come upon before `e` are of values like this. -/
def inFront (ms minIdle : Nat) (like : α → Bool) (s : XStream α) (e : Entry α) : Nat :=
  s.entries.countP fun f => decide (f.id < e.id) && like f.value && s.offered ms minIdle f

/-- Of the entries in front of another, the look has taken one. -/
theorem Without.inFront_lt {ms minIdle : Nat} {s s' : XStream α} {f : Entry α} (h : s.Without ms minIdle f s')
    (hf : f ∈ s.entries) (hoffered : s.offered ms minIdle f = true) (like : α → Bool) (hlike : like f.value = true)
    {e : Entry α} (hlt : f.id < e.id) : s'.inFront ms minIdle like e < s.inFront ms minIdle like e := by
  have hsame : s'.inFront ms minIdle like e = (s.entries.filter fun e => decide (e.id ≠ f.id)).countP
      fun f => decide (f.id < e.id) && like f.value && s.offered ms minIdle f := by
    rw [inFront, h.entries]
    apply List.countP_congr
    intro e' he'
    rw [List.mem_filter, decide_eq_true_eq] at he'
    rw [h.offered he'.1 he'.2]
  rw [hsame, inFront, List.countP_eq_countP_filter_add s.entries _ fun e => decide (e.id ≠ f.id), Nat.lt_add_right_iff_pos,
    List.countP_pos_iff]
  refine ⟨f, List.mem_filter.mpr ⟨hf, by simp⟩, ?_⟩
  simp [hlt, hlike, hoffered]

/-! ### A group that was only created -/

theorem group_xgroupCreate (s : XStream α) : ∃ g, s.xgroupCreate.group = some g := by
  unfold xgroupCreate
  split
  · rename_i g hg
    exact ⟨g, hg⟩
  · exact ⟨_, rfl⟩

/-- A group that is made now starts at the beginning: nothing of the stream counts as delivered. -/
theorem delivered_xgroupCreate {s : XStream α} {e : Entry α} (he : e ∈ s.entries) :
    s.xgroupCreate.delivered e = s.delivered e := by
  unfold xgroupCreate
  split
  · rfl
  · rename_i hnone
    have hpositive := s.positive e he
    simp [delivered, hnone, hpositive]

theorem inReach_xgroupCreate {ms minIdle : Nat} {s : XStream α} {e : Entry α} (he : e ∈ s.entries)
    (hreach : s.InReach ms minIdle e) : s.xgroupCreate.InReach ms minIdle e := by
  rcases hreach with hnew | ⟨g, hg, hpending⟩
  · exact .inl ((delivered_xgroupCreate he).trans hnew)
  · refine .inr ⟨g, ?_, hpending⟩
    unfold xgroupCreate
    split
    · exact hg
    · rename_i hnone
      rw [hnone] at hg
      cases hg

theorem offered_xgroupCreate (ms minIdle : Nat) {s : XStream α} {e : Entry α} (he : e ∈ s.entries) :
    s.xgroupCreate.offered ms minIdle e = s.offered ms minIdle e := by
  rw [offered, offered, delivered_xgroupCreate he]
  unfold xgroupCreate
  split
  · rfl
  · rename_i hnone
    simp [hnone]

theorem inFront_xgroupCreate (ms minIdle : Nat) (like : α → Bool) (s : XStream α) (e : Entry α) :
    s.xgroupCreate.inFront ms minIdle like e = s.inFront ms minIdle like e := by
  rw [inFront, inFront, entries_xgroupCreate]
  apply List.countP_congr
  intro f hf
  rw [offered_xgroupCreate ms minIdle hf]

end PyAppRunner.Redis.XStream
