import Mathlib.Data.Prod.Lex
import Mathlib.Data.List.Nodup

/-! Streams with one consumer group.

A stream is a list of entries in the order of their ids, and ids only grow: a new
entry's id is larger than every id the stream has ever given out. The group
remembers the last id it delivered and, in its pending list, every entry that was
delivered and not acknowledged. An entry is `Deliverable` when the group has not
reached it or still has it pending; what each command does to that is the content
of this file. Ids are unique within a stream and say nothing across streams: two
streams written in one millisecond give out the same id. -/
namespace PyAppRunner.Redis

/-- An id: a time, and a number for those of the same time. -/
structure EntryId where
  ms : Nat
  seq : Nat
deriving Repr

namespace EntryId

instance : LinearOrder EntryId :=
  LinearOrder.lift' (fun i => toLex (i.ms, i.seq)) (by
    rintro ⟨a, b⟩ ⟨c, d⟩ h
    simpa using h)

theorem lt_def (a b : EntryId) : a < b ↔ a.ms < b.ms ∨ a.ms = b.ms ∧ a.seq < b.seq :=
  Prod.Lex.toLex_lt_toLex

/-- The id of an entry added at `ms` to a stream whose last id was `last`. -/
def next (ms : Nat) (last : EntryId) : EntryId :=
  if last.ms < ms then ⟨ms, 0⟩ else ⟨last.ms, last.seq + 1⟩

theorem lt_next (ms : Nat) (last : EntryId) : last < next ms last := by
  rw [lt_def]
  unfold next
  split
  · exact .inl ‹_›
  · exact .inr ⟨rfl, Nat.lt_succ_self _⟩

/-- The id before every entry, `0-0`. -/
def zero : EntryId := ⟨0, 0⟩

theorem zero_le (i : EntryId) : zero ≤ i := by
  rw [← not_lt, lt_def]
  simp [zero]

end EntryId

/-- An entry of a stream. -/
structure Entry (α : Type) where
  id : EntryId
  value : α

/-- A delivered entry nobody has acknowledged, and when it was last delivered. -/
structure Pending where
  id : EntryId
  delivered : Nat

/-- A consumer group: how far it has read, and what was not acknowledged. -/
structure Group where
  lastDelivered : EntryId
  pending : List Pending

/-- A stream, with its group if it has one. -/
structure XStream (α : Type) where
  entries : List (Entry α)
  lastId : EntryId
  group : Option Group
  sorted : entries.Pairwise (fun a b => a.id < b.id)
  bounded : ∀ e ∈ entries, e.id ≤ lastId
  positive : ∀ e ∈ entries, EntryId.zero < e.id
  reached : ∀ g ∈ group, g.lastDelivered ≤ lastId

namespace XStream
variable {α : Type}

/-- A stream that was never written to. -/
def empty : XStream α where
  entries := []
  lastId := .zero
  group := none
  sorted := .nil
  bounded := by simp
  positive := by simp
  reached := by simp

/-- The id `XADD *` gives at `ms`. -/
def nextId (ms : Nat) (s : XStream α) : EntryId := .next ms s.lastId

theorem lastId_lt_nextId (ms : Nat) (s : XStream α) : s.lastId < s.nextId ms :=
  EntryId.lt_next ms s.lastId

/-- `XADD` with an id that the server makes. -/
def xadd (ms : Nat) (v : α) (s : XStream α) : XStream α where
  entries := s.entries ++ [⟨s.nextId ms, v⟩]
  lastId := s.nextId ms
  group := s.group
  sorted := by
    rw [List.pairwise_append]
    refine ⟨s.sorted, List.pairwise_singleton .., fun a ha b hb => ?_⟩
    rw [List.mem_singleton] at hb
    subst hb
    exact (s.bounded a ha).trans_lt (s.lastId_lt_nextId ms)
  bounded := by
    intro e he
    rcases List.mem_append.mp he with he | he
    · exact (s.bounded e he).trans (s.lastId_lt_nextId ms).le
    · rw [List.mem_singleton] at he
      subst he
      exact le_rfl
  positive := by
    intro e he
    rcases List.mem_append.mp he with he | he
    · exact s.positive e he
    · rw [List.mem_singleton] at he
      subst he
      exact (EntryId.zero_le _).trans_lt (s.lastId_lt_nextId ms)
  reached := fun g hg => (s.reached g hg).trans (s.lastId_lt_nextId ms).le

/-- `XGROUP CREATE key group 0 MKSTREAM`; an error, here ignored, if the group exists. -/
def xgroupCreate (s : XStream α) : XStream α :=
  match s.group with
  | some _ => s
  | none => {s with
      group := some ⟨.zero, []⟩
      reached := by
        intro g hg
        rw [Option.mem_some_iff] at hg
        subst hg
        exact EntryId.zero_le _ }

/-- The next entry the group has not reached. -/
def nextUnread (s : XStream α) (g : Group) : Option (Entry α) :=
  s.entries.find? (fun e => decide (g.lastDelivered < e.id))

theorem nextUnread_mem {s : XStream α} {g : Group} {e : Entry α} (h : s.nextUnread g = some e) :
    e ∈ s.entries := List.mem_of_find?_eq_some h

/-- `XREADGROUP … COUNT 1 … >`: deliver the next entry and keep it pending. -/
def xreadgroup (ms : Nat) (s : XStream α) : Option (Entry α) × XStream α :=
  match s.group with
  | none => (none, s)
  | some g =>
    match h : s.nextUnread g with
    | none => (none, s)
    | some e => (some e, {s with
        group := some ⟨e.id, g.pending ++ [⟨e.id, ms⟩]⟩
        reached := by
          intro g' hg'
          rw [Option.mem_some_iff] at hg'
          subst hg'
          exact s.bounded e (nextUnread_mem h) })

/-- What a scan of the pending list comes to: an entry idle long enough, or one
that is pending although the stream no longer has it. -/
inductive Scan (α : Type) where
  | nothing
  | deleted (id : EntryId)
  | claimed (e : Entry α)

/-- What `XAUTOCLAIM` finds on its way through the pending entries. -/
def scan (ms minIdle : Nat) (entries : List (Entry α)) : List Pending → Scan α
  | [] => .nothing
  | p :: rest =>
    match entries.find? (fun e => decide (e.id = p.id)) with
    | none => .deleted p.id
    | some e => if p.delivered + minIdle ≤ ms then .claimed e else scan ms minIdle entries rest

/-- The pending list with a new delivery time for `id`. -/
def redeliver (ms : Nat) (id : EntryId) (ps : List Pending) : List Pending :=
  ps.map (fun p => if p.id = id then {p with delivered := ms} else p)

/-- The group with other pending entries, all of them read. -/
def withPending (s : XStream α) (g : Group) (hg : g ∈ s.group) (ps : List Pending) : XStream α :=
  {s with
    group := some {g with pending := ps}
    reached := by
      intro g' hg'
      rw [Option.mem_some_iff] at hg'
      subst hg'
      exact s.reached g hg }

/-- `XAUTOCLAIM … minIdle 0-0 COUNT 1`: take over the first pending entry that has
been idle long enough, looking at ten of them. An entry deleted from the stream
uses up the count and leaves the pending list. -/
def xautoclaim (ms minIdle : Nat) (s : XStream α) : Option (Entry α) × XStream α :=
  match h : s.group with
  | none => (none, s)
  | some g =>
    match scan ms minIdle s.entries (g.pending.take 10) with
    | .nothing => (none, s)
    | .deleted id => (none, s.withPending g h (g.pending.filter (fun p => decide (p.id ≠ id))))
    | .claimed e => (some e, s.withPending g h (redeliver ms e.id g.pending))

/-- `XACK`. -/
def xack (id : EntryId) (s : XStream α) : XStream α :=
  match h : s.group with
  | none => s
  | some g => s.withPending g h (g.pending.filter (fun p => decide (p.id ≠ id)))

/-- `XDEL`. The group does not learn of it. -/
def xdel (id : EntryId) (s : XStream α) : XStream α where
  entries := s.entries.filter (fun e => decide (e.id ≠ id))
  lastId := s.lastId
  group := s.group
  sorted := s.sorted.sublist List.filter_sublist
  bounded := fun e he => s.bounded e (List.mem_filter.mp he).1
  positive := fun e he => s.positive e (List.mem_filter.mp he).1
  reached := s.reached

/-! ### The entries -/

@[simp] theorem entries_empty : (empty : XStream α).entries = [] := rfl

@[simp] theorem entries_xadd (ms : Nat) (v : α) (s : XStream α) :
    (s.xadd ms v).entries = s.entries ++ [⟨s.nextId ms, v⟩] := rfl

@[simp] theorem entries_xgroupCreate (s : XStream α) : s.xgroupCreate.entries = s.entries := by
  unfold xgroupCreate
  split <;> rfl

@[simp] theorem entries_xreadgroup (ms : Nat) (s : XStream α) :
    (s.xreadgroup ms).2.entries = s.entries := by
  unfold xreadgroup
  split
  · rfl
  · split <;> rfl

@[simp] theorem entries_xautoclaim (ms minIdle : Nat) (s : XStream α) :
    (s.xautoclaim ms minIdle).2.entries = s.entries := by
  unfold xautoclaim
  split
  · rfl
  · split <;> rfl

@[simp] theorem entries_xack (id : EntryId) (s : XStream α) : (s.xack id).entries = s.entries := by
  unfold xack
  split <;> rfl

theorem mem_entries_xdel {id : EntryId} {s : XStream α} {e : Entry α} :
    e ∈ (s.xdel id).entries ↔ e ∈ s.entries ∧ e.id ≠ id := by
  simp [xdel]

/-- One entry per id. -/
theorem entry_unique {s : XStream α} {a b : Entry α} (ha : a ∈ s.entries) (hb : b ∈ s.entries)
    (h : a.id = b.id) : a = b := by
  have hids : (s.entries.map Entry.id).Nodup := List.pairwise_map.mpr (s.sorted.imp fun hlt => hlt.ne)
  exact List.inj_on_of_nodup_map hids ha hb h

/-! ### What the group hands out -/

theorem xreadgroup_mem {ms : Nat} {s : XStream α} {e : Entry α} (h : (s.xreadgroup ms).1 = some e) :
    e ∈ s.entries := by
  unfold xreadgroup at h
  split at h
  · cases h
  · split at h
    · cases h
    · rename_i hnext
      cases h
      exact nextUnread_mem hnext

theorem scan_mem {ms minIdle : Nat} {entries : List (Entry α)} {ps : List Pending} {e : Entry α}
    (h : scan ms minIdle entries ps = .claimed e) : e ∈ entries := by
  induction ps with
  | nil => cases h
  | cons p rest ih =>
    unfold scan at h
    split at h
    · cases h
    · rename_i hfind
      split at h
      · cases h
        exact List.mem_of_find?_eq_some hfind
      · exact ih h

theorem scan_deleted {ms minIdle : Nat} {entries : List (Entry α)} {ps : List Pending} {id : EntryId}
    (h : scan ms minIdle entries ps = .deleted id) : ∀ e ∈ entries, e.id ≠ id := by
  induction ps with
  | nil => cases h
  | cons p rest ih =>
    unfold scan at h
    split at h
    · rename_i hfind
      cases h
      intro e he
      simpa using List.find?_eq_none.mp hfind e he
    · split at h
      · cases h
      · exact ih h

theorem xautoclaim_mem {ms minIdle : Nat} {s : XStream α} {e : Entry α}
    (h : (s.xautoclaim ms minIdle).1 = some e) : e ∈ s.entries := by
  unfold xautoclaim at h
  split at h
  · cases h
  · split at h
    · cases h
    · cases h
    · rename_i hscan
      cases h
      exact scan_mem hscan

/-! ### Deliverable entries -/

/-- In the stream, and either not yet delivered to the group or pending. -/
def Deliverable (s : XStream α) (e : Entry α) : Prop :=
  e ∈ s.entries ∧
    ∀ g ∈ s.group, g.lastDelivered < e.id ∨ ∃ p ∈ g.pending, p.id = e.id

theorem deliverable_xadd_self (ms : Nat) (v : α) (s : XStream α) :
    (s.xadd ms v).Deliverable ⟨s.nextId ms, v⟩ := by
  refine ⟨by simp, fun g hg => .inl ?_⟩
  exact (s.reached g hg).trans_lt (s.lastId_lt_nextId ms)

theorem Deliverable.xadd {s : XStream α} {e : Entry α} (h : s.Deliverable e) (ms : Nat) (v : α) :
    (s.xadd ms v).Deliverable e := ⟨by simp [h.1], h.2⟩

theorem Deliverable.xgroupCreate {s : XStream α} {e : Entry α} (h : s.Deliverable e) :
    s.xgroupCreate.Deliverable e := by
  refine ⟨by simpa using h.1, ?_⟩
  unfold XStream.xgroupCreate
  split
  · exact h.2
  · intro g hg
    rw [Option.mem_some_iff] at hg
    subst hg
    exact .inl (s.positive e h.1)

theorem nextUnread_le {s : XStream α} {g : Group} {f e : Entry α} (h : s.nextUnread g = some f) (he : e ∈ s.entries)
    (hunread : g.lastDelivered < e.id) : f.id ≤ e.id := by
  obtain ⟨_, before, after, hsplit, hbefore⟩ := List.find?_eq_some_iff_append.mp h
  have hsorted := s.sorted
  rw [hsplit, List.pairwise_append, List.pairwise_cons] at hsorted
  rw [hsplit, List.mem_append, List.mem_cons] at he
  rcases he with hb | rfl | hb
  · have hread := hbefore e hb
    simp [hunread] at hread
  · exact le_rfl
  · exact (hsorted.2.1.1 e hb).le

/-- Reading delivers one entry; the ones before it were delivered already, the ones
after it are still unread. -/
theorem Deliverable.xreadgroup {s : XStream α} {e : Entry α} (h : s.Deliverable e) (ms : Nat) :
    (s.xreadgroup ms).2.Deliverable e := by
  refine ⟨by simpa using h.1, ?_⟩
  unfold XStream.xreadgroup
  split
  · exact h.2
  · rename_i g hg
    split
    · exact h.2
    · rename_i next hnext
      intro g' hg'
      simp only [Option.mem_some_iff] at hg'
      subst hg'
      rcases h.2 g hg with hlt | ⟨p, hp, hid⟩
      · rcases (nextUnread_le hnext h.1 hlt).lt_or_eq with hne | heq
        · exact .inl hne
        · exact .inr ⟨⟨next.id, ms⟩, by simp, heq⟩
      · exact .inr ⟨p, by simp [hp], hid⟩

theorem exists_redeliver {ms : Nat} {id i : EntryId} {ps : List Pending}
    (h : ∃ p ∈ ps, p.id = i) : ∃ p ∈ redeliver ms id ps, p.id = i := by
  obtain ⟨p, hp, rfl⟩ := h
  refine ⟨_, List.mem_map_of_mem hp, ?_⟩
  split <;> rfl

/-- A claim only renews a delivery time; what leaves the pending list is no longer
in the stream. -/
theorem Deliverable.xautoclaim {s : XStream α} {e : Entry α} (h : s.Deliverable e)
    (ms minIdle : Nat) : (s.xautoclaim ms minIdle).2.Deliverable e := by
  refine ⟨by simpa using h.1, ?_⟩
  unfold XStream.xautoclaim
  split
  · exact h.2
  · rename_i g hg
    split
    · exact h.2
    · rename_i id hscan
      have hgone : e.id ≠ id := scan_deleted hscan e h.1
      intro g' hg'
      simp only [withPending, Option.mem_some_iff] at hg'
      subst hg'
      refine (h.2 g hg).imp (fun hlt => hlt) ?_
      rintro ⟨p, hp, hid⟩
      exact ⟨p, by simp [hp, hid, hgone], hid⟩
    · intro g' hg'
      simp only [withPending, Option.mem_some_iff] at hg'
      subst hg'
      exact (h.2 g hg).imp (fun hlt => hlt) exists_redeliver

/-- Acknowledging and deleting one entry leaves the others as they were. -/
theorem Deliverable.remove {s : XStream α} {e : Entry α} (h : s.Deliverable e) {id : EntryId}
    (hne : e.id ≠ id) : ((s.xack id).xdel id).Deliverable e := by
  refine ⟨mem_entries_xdel.mpr ⟨by simpa using h.1, hne⟩, ?_⟩
  show ∀ g ∈ (s.xack id).group, _
  unfold xack
  split
  · exact h.2
  · rename_i g hg
    intro g' hg'
    simp only [withPending, Option.mem_some_iff] at hg'
    subst hg'
    refine (h.2 g hg).imp (fun hlt => hlt) ?_
    rintro ⟨p, hp, hid⟩
    exact ⟨p, by simp [hp, hid, hne], hid⟩

/-! ### Reading without a group -/

/-- What `XREAD` from a concrete id may return: the entries after it. -/
def after (id : EntryId) (s : XStream α) : List (Entry α) := s.entries.filter fun e => decide (id < e.id)

theorem after_lastId (s : XStream α) : s.after s.lastId = [] := by
  rw [after, List.filter_eq_nil_iff]
  intro e he
  simpa using s.bounded e he

/-- A new entry is after every id the stream has reached. -/
theorem after_xadd {id : EntryId} {s : XStream α} (h : id ≤ s.lastId) (ms : Nat) (v : α) :
    (s.xadd ms v).after id = s.after id ++ [⟨s.nextId ms, v⟩] := by
  have hlt : id < s.nextId ms := h.trans_lt (s.lastId_lt_nextId ms)
  simp [after, xadd, hlt]

/-- Past its first entry, the rest is left. -/
theorem after_head {id : EntryId} {s : XStream α} {e : Entry α} {rest : List (Entry α)}
    (h : s.after id = e :: rest) : s.after e.id = rest := by
  have hsorted : (s.after id).Pairwise fun a b => a.id < b.id := s.sorted.filter _
  have hlt : id < e.id := by
    have he : e ∈ s.after id := by simp [h]
    simpa [after] using (List.mem_filter.mp he).2
  have hsame : s.after e.id = (s.after id).filter fun a => decide (e.id < a.id) := by
    rw [after, after, List.filter_filter]
    refine List.filter_congr fun a _ => ?_
    by_cases ha : e.id < a.id
    · simp [ha, hlt.trans ha]
    · simp [ha]
  rw [hsame, h]
  rw [h, List.pairwise_cons] at hsorted
  rw [List.filter_cons_of_neg (by simp), List.filter_eq_self]
  intro a ha
  simpa using hsorted.1 a ha

end XStream

end PyAppRunner.Redis
