import Mathlib.Data.List.Sort
import Mathlib.Data.List.Nodup

/-! Sorted sets: distinct members, each with a score.

Ranges come out in score order. Members with equal scores are ordered among
themselves by the server (lexicographically, as text); that order is the
parameter `lex` of the ranges, and nothing proved here depends on it. -/
namespace PyAppRunner.Redis

/-- Members with their scores, each member once. -/
structure SortedSet (α : Type) where
  items : List (α × Int)
  nodup : (items.map Prod.fst).Nodup

namespace SortedSet
variable {α : Type}

/-- A key that is not there. -/
def empty : SortedSet α := ⟨[], List.nodup_nil⟩

instance : Membership α (SortedSet α) := ⟨fun z m => m ∈ z.items.map Prod.fst⟩

theorem mem_def (m : α) (z : SortedSet α) : m ∈ z ↔ m ∈ z.items.map Prod.fst := Iff.rfl

theorem mem_of_item {m : α} {score : Int} {z : SortedSet α} (h : (m, score) ∈ z.items) : m ∈ z :=
  List.mem_map_of_mem (f := Prod.fst) h

@[simp] theorem not_mem_empty (m : α) : m ∉ (empty : SortedSet α) := by
  simp [mem_def, empty]

/-- Score order, ties by `lex`. -/
def before (lex : α → α → Bool) (a b : α × Int) : Prop :=
  a.2 < b.2 ∨ a.2 = b.2 ∧ lex a.1 b.1 = true

instance (lex : α → α → Bool) : DecidableRel (before lex) :=
  fun _ _ => inferInstanceAs (Decidable (_ ∨ _))

/-- All members, lowest score first. -/
def zrange (lex : α → α → Bool) (z : SortedSet α) : List α :=
  (z.items.insertionSort (before lex)).map Prod.fst

/-- All members, highest score first. -/
def zrevrange (lex : α → α → Bool) (z : SortedSet α) : List α := (z.zrange lex).reverse

/-- The first `limit` members scored at most `max`. -/
def zrangebyscore (lex : α → α → Bool) (max : Int) (limit : Nat) (z : SortedSet α) : List α :=
  (((z.items.insertionSort (before lex)).filter (fun i => decide (i.2 ≤ max))).map Prod.fst).take limit

@[simp] theorem mem_zrevrange {lex : α → α → Bool} {m : α} {z : SortedSet α} : m ∈ z.zrevrange lex ↔ m ∈ z := by
  rw [zrevrange, List.mem_reverse, zrange, mem_def, ((z.items.perm_insertionSort (before lex)).map Prod.fst).mem_iff]

theorem nodup_zrevrange (lex : α → α → Bool) (z : SortedSet α) : (z.zrevrange lex).Nodup := by
  rw [zrevrange, List.nodup_reverse, zrange, ((z.items.perm_insertionSort (before lex)).map Prod.fst).nodup_iff]
  exact z.nodup

/-- Scores only grow along a range, whatever the order of members with equal scores. -/
theorem pairwise_score (lex : α → α → Bool) (items : List (α × Int)) :
    (items.insertionSort (before lex)).Pairwise fun a b => a.2 ≤ b.2 := by
  induction items with
  | nil => exact .nil
  | cons a rest ih =>
    rw [List.insertionSort_cons]
    generalize rest.insertionSort (before lex) = sorted at ih
    induction sorted with
    | nil => exact List.pairwise_singleton ..
    | cons b tail ih' =>
      rw [List.pairwise_cons] at ih
      rw [List.orderedInsert_cons]
      split
      · rename_i hbefore
        have hle : a.2 ≤ b.2 := by
          rcases hbefore with hlt | ⟨heq, -⟩
          · exact hlt.le
          · exact heq.le
        rw [List.pairwise_cons, List.forall_mem_cons, List.pairwise_cons]
        exact ⟨⟨hle, fun x hx => hle.trans (ih.1 x hx)⟩, ih⟩
      · rename_i hbefore
        have hle : b.2 ≤ a.2 := not_lt.mp fun hlt => hbefore (.inl hlt)
        rw [List.pairwise_cons]
        refine ⟨?_, ih' ih.2⟩
        intro x hx
        rcases (List.mem_orderedInsert _).mp hx with rfl | hx
        · exact hle
        · exact ih.1 x hx

/-- Of members that are their own scores, those in front of one are higher. -/
theorem zrevrange_split (lex : Int → Int → Bool) {z : SortedSet Int} (hself : ∀ i ∈ z.items, i.2 = i.1) {m : Int}
    (h : m ∈ z) : ∃ above below, z.zrevrange lex = above ++ m :: below ∧ ∀ x ∈ above, m < x := by
  have hsorted : (z.zrange lex).Pairwise (· ≤ ·) := by
    rw [zrange, List.pairwise_map]
    apply (pairwise_score lex z.items).imp_of_mem
    intro a b ha hb hle
    rw [List.mem_insertionSort] at ha hb
    rwa [hself a ha, hself b hb] at hle
  have hdown : (z.zrevrange lex).Pairwise (fun a b => b ≤ a) := List.pairwise_reverse.mpr hsorted
  have hnodup := z.nodup_zrevrange lex
  obtain ⟨above, below, hsplit⟩ := List.append_of_mem (mem_zrevrange.mpr h)
  refine ⟨above, below, hsplit, ?_⟩
  rw [hsplit, List.pairwise_append] at hdown
  rw [hsplit, List.nodup_append] at hnodup
  intro x hx
  exact lt_of_le_of_ne (hdown.2.2 x hx m List.mem_cons_self) (hnodup.2.2 x hx m List.mem_cons_self).symm

/-- How many members are scored at most `max`. -/
def zcount (max : Int) (z : SortedSet α) : Nat := z.items.countP fun i => decide (i.2 ≤ max)

/-- `ZCARD`. -/
def zcard (z : SortedSet α) : Nat := z.items.length

variable [DecidableEq α]

instance (m : α) (z : SortedSet α) : Decidable (m ∈ z) :=
  inferInstanceAs (Decidable (m ∈ z.items.map Prod.fst))

/-- `ZREM`. -/
def zrem (m : α) (z : SortedSet α) : SortedSet α where
  items := z.items.filter (fun i => decide (i.1 ≠ m))
  nodup := z.nodup.sublist (List.filter_sublist.map _)

/-- A member already there takes the new score. -/
def zadd (score : Int) (m : α) (z : SortedSet α) : SortedSet α where
  items := (m, score) :: (z.zrem m).items
  nodup := by
    rw [List.map_cons, List.nodup_cons]
    refine ⟨?_, (z.zrem m).nodup⟩
    simp [zrem]

@[simp] theorem mem_zrem {m x : α} {z : SortedSet α} : x ∈ z.zrem m ↔ x ≠ m ∧ x ∈ z := by
  simp only [mem_def, zrem, List.mem_map, List.mem_filter, decide_eq_true_eq]
  constructor
  · rintro ⟨i, ⟨hi, hne⟩, rfl⟩
    exact ⟨hne, i, hi, rfl⟩
  · rintro ⟨hne, i, hi, rfl⟩
    exact ⟨i, ⟨hi, hne⟩, rfl⟩

@[simp] theorem mem_zadd {m x : α} {s : Int} {z : SortedSet α} : x ∈ z.zadd s m ↔ x = m ∨ x ∈ z := by
  have h : x ∈ z.zadd s m ↔ x = m ∨ x ∈ z.zrem m := by
    simp only [mem_def, zadd, List.map_cons, List.mem_cons]
  rw [h, mem_zrem]
  by_cases hx : x = m <;> simp [hx]

/-- A member with fewer than `limit` in front of it is among the first `limit`. -/
theorem mem_zrangebyscore_of_idxOf {lex : α → α → Bool} {max s : Int} {limit : Nat} {m : α} {z : SortedSet α}
    (h : (m, s) ∈ z.items) (hs : s ≤ max) (hfront : (z.zrangebyscore lex max z.zcard).idxOf m < limit) :
    m ∈ z.zrangebyscore lex max limit := by
  have hmem : m ∈ ((z.items.insertionSort (before lex)).filter fun i => decide (i.2 ≤ max)).map Prod.fst := by
    rw [List.mem_map]
    exact ⟨(m, s), List.mem_filter.mpr ⟨(List.mem_insertionSort _).mpr h, decide_eq_true hs⟩, rfl⟩
  have hlength : (((z.items.insertionSort (before lex)).filter fun i => decide (i.2 ≤ max)).map Prod.fst).length ≤ z.zcard := by
    rw [List.length_map, zcard, ← List.length_insertionSort (before lex) z.items]
    exact List.length_filter_le ..
  rw [zrangebyscore, List.take_of_length_le hlength] at hfront
  exact (List.mem_take_iff_idxOf_lt hmem).mpr hfront

end SortedSet

end PyAppRunner.Redis
