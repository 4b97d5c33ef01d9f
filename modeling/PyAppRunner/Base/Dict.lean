import Mathlib.Data.List.Basic
import Mathlib.Data.List.Forall2
import Mathlib.Data.List.Nodup

/-! Dicts, with their keys in the order of insertion.

Setting a key that is there keeps its place, and setting a new one adds it at the end.
No key is there twice: a dict carries the proof, so an entry and what a lookup
finds are the same thing (`mem_entries`). -/
namespace PyAppRunner.Base

/-- The entries with `v` under `k`. -/
def putEntry {κ ν : Type} [DecidableEq κ] (k : κ) (v : ν) : List (κ × ν) → List (κ × ν)
  | [] => [(k, v)]
  | e :: rest => if e.1 = k then (k, v) :: rest else e :: putEntry k v rest

/-- A `dict`: each key once, in the order in which they came. -/
structure Dict (κ ν : Type) where
  entries : List (κ × ν)
  nodup : (entries.map Prod.fst).Nodup

variable {κ ν : Type} [DecidableEq κ]

theorem keys_putEntry (k : κ) (v : ν) (entries : List (κ × ν)) :
    (putEntry k v entries).map Prod.fst =
      if k ∈ entries.map Prod.fst then entries.map Prod.fst else entries.map Prod.fst ++ [k] := by
  induction entries with
  | nil => rfl
  | cons e rest ih =>
    rw [putEntry]
    by_cases he : e.1 = k
    · simp [he]
    · have hne : k ≠ e.1 := fun heq => he heq.symm
      rw [if_neg he, List.map_cons, ih]
      simp only [List.map_cons, List.mem_cons, hne, false_or]
      split <;> rfl

theorem nodup_putEntry (k : κ) (v : ν) {entries : List (κ × ν)} (h : (entries.map Prod.fst).Nodup) :
    ((putEntry k v entries).map Prod.fst).Nodup := by
  rw [keys_putEntry]
  split
  · exact h
  · rename_i hnew
    exact List.nodup_append.mpr ⟨h, List.nodup_singleton k, by
      intro a ha b hb heq
      rw [List.mem_singleton] at hb
      exact hnew (hb ▸ heq ▸ ha)⟩

theorem lookup_cons_eq (k : κ) (e : κ × ν) (rest : List (κ × ν)) :
    (e :: rest).lookup k = if k = e.1 then some e.2 else rest.lookup k := by
  rw [List.lookup_cons]
  by_cases hk : k = e.1
  · rw [if_pos hk, beq_iff_eq.mpr hk]
  · rw [if_neg hk, beq_eq_false_iff_ne.mpr hk]

theorem lookup_putEntry (k k' : κ) (v : ν) (entries : List (κ × ν)) :
    (putEntry k v entries).lookup k' = if k' = k then some v else entries.lookup k' := by
  induction entries with
  | nil => exact lookup_cons_eq k' (k, v) []
  | cons e rest ih =>
    rw [putEntry]
    by_cases he : e.1 = k
    · rw [if_pos he, lookup_cons_eq, lookup_cons_eq, he]
      split <;> rfl
    · rw [if_neg he, lookup_cons_eq, lookup_cons_eq, ih]
      by_cases hk : k' = k
      · have hne : k' ≠ e.1 := fun heq => he (heq.symm.trans hk)
        rw [if_neg hne, if_pos hk, if_pos hk]
      · rw [if_neg hk, if_neg hk]

/-- A key that is there keeps its place. -/
theorem putEntry_append {k : κ} {done : List (κ × ν)} (h : k ∉ done.map Prod.fst) (v x : ν) (rest : List (κ × ν)) :
    putEntry k v (done ++ (k, x) :: rest) = done ++ (k, v) :: rest := by
  induction done with
  | nil => exact if_pos rfl
  | cons e done ih =>
    rw [List.map_cons, List.mem_cons, not_or] at h
    rw [List.cons_append, putEntry, if_neg (Ne.symm h.1), ih h.2]
    rfl

theorem lookup_filter_ne (k k' : κ) (entries : List (κ × ν)) :
    (entries.filter (fun e => e.1 ≠ k)).lookup k' = if k' = k then none else entries.lookup k' := by
  induction entries with
  | nil => simp
  | cons e rest ih =>
    by_cases he : e.1 = k
    · rw [List.filter_cons_of_neg (by simp [he]), ih, lookup_cons_eq, he]
      split <;> rfl
    · rw [List.filter_cons_of_pos (by simp [he]), lookup_cons_eq, ih, lookup_cons_eq]
      by_cases hk : k' = k
      · have hne : k' ≠ e.1 := fun heq => he (heq.symm.trans hk)
        rw [if_neg hne, if_pos hk, if_pos hk]
      · rw [if_neg hk, if_neg hk]

theorem mem_iff_lookup {entries : List (κ × ν)} (h : (entries.map Prod.fst).Nodup) {k : κ} {v : ν} :
    (k, v) ∈ entries ↔ entries.lookup k = some v := by
  induction entries with
  | nil => simp
  | cons e rest ih =>
    rw [List.map_cons, List.nodup_cons] at h
    rw [List.mem_cons, ih h.2, lookup_cons_eq]
    by_cases hk : k = e.1
    · have hrest : rest.lookup k ≠ some v := by
        intro hfound
        rw [← ih h.2] at hfound
        exact h.1 (hk ▸ List.mem_map_of_mem hfound)
      rw [if_pos hk]
      constructor
      · intro hor
        obtain heq | hfound := hor
        · rw [← heq]
        · exact absurd hfound hrest
      · intro hsome
        exact .inl (Prod.ext hk (Option.some.inj hsome).symm)
    · rw [if_neg hk]
      constructor
      · intro hor
        obtain heq | hfound := hor
        · exact absurd (congrArg Prod.fst heq) hk
        · exact hfound
      · exact .inr

theorem lookup_map_values {ν' : Type} (f : κ → ν → ν') (entries : List (κ × ν)) (k : κ) :
    (entries.map fun e => (e.1, f e.1 e.2)).lookup k = (entries.lookup k).map (f k) := by
  induction entries with
  | nil => rfl
  | cons e rest ih =>
    rw [List.map_cons, lookup_cons_eq, lookup_cons_eq, ih]
    by_cases hk : k = e.1
    · rw [if_pos hk, if_pos hk, hk]
      rfl
    · rw [if_neg hk, if_neg hk]

theorem lookup_filter_keys (p : κ → Bool) (entries : List (κ × ν)) (k : κ) :
    (entries.filter fun e => p e.1).lookup k = if p k then entries.lookup k else none := by
  induction entries with
  | nil => simp
  | cons e rest ih =>
    rw [List.filter_cons, lookup_cons_eq]
    by_cases hk : k = e.1
    · subst hk
      by_cases hp : p e.1 = true
      · simp [hp, lookup_cons_eq]
      · simp [hp, ih]
    · rw [if_neg hk]
      split
      · rw [lookup_cons_eq, if_neg hk, ih]
      · exact ih

/-- Without a second entry of a key, the one entry is kept or is not. -/
theorem lookup_filter_entries (p : κ × ν → Bool) {entries : List (κ × ν)} (h : (entries.map Prod.fst).Nodup) (k : κ) :
    (entries.filter p).lookup k = (entries.lookup k).filter fun v => p (k, v) := by
  ext v
  rw [← mem_iff_lookup ((List.filter_sublist.map Prod.fst).nodup h), List.mem_filter, mem_iff_lookup h, Option.filter_eq_some_iff]

/-- Related entries with the same keys stay related when related entries are put in. -/
theorem forall₂_putEntry {ν' : Type} {R : κ × ν → κ × ν' → Prop} (hkey : ∀ e e', R e e' → e.1 = e'.1) {e : κ × ν}
    {e' : κ × ν'} (he : R e e') {entries : List (κ × ν)} {entries' : List (κ × ν')} (h : List.Forall₂ R entries entries') :
    List.Forall₂ R (putEntry e.1 e.2 entries) (putEntry e'.1 e'.2 entries') := by
  induction h with
  | nil => exact .cons he .nil
  | @cons a b rest rest' hab hrest ih =>
    rw [putEntry, putEntry, ← hkey e e' he, ← hkey a b hab]
    by_cases ha : a.1 = e.1
    · rw [if_pos ha, if_pos ha]
      refine .cons ?_ hrest
      have heq : (e.1, e'.2) = e' := Prod.ext (hkey e e' he) rfl
      rw [heq]
      exact he
    · rw [if_neg ha, if_neg ha]
      rw [← hkey e e' he] at ih
      exact .cons hab ih

theorem forall₂_foldl_putEntry {ν' : Type} {R : κ × ν → κ × ν' → Prop} (hkey : ∀ e e', R e e' → e.1 = e'.1)
    {new : List (κ × ν)} {new' : List (κ × ν')} (hnew : List.Forall₂ R new new') {entries : List (κ × ν)}
    {entries' : List (κ × ν')} (h : List.Forall₂ R entries entries') :
    List.Forall₂ R (new.foldl (fun d e => putEntry e.1 e.2 d) entries)
      (new'.foldl (fun d e => putEntry e.1 e.2 d) entries') := by
  induction hnew generalizing entries entries' with
  | nil => exact h
  | cons he _ ih => exact ih (forall₂_putEntry hkey he h)

namespace Dict

def empty : Dict κ ν := ⟨[], List.nodup_nil⟩

/-- `d.get(k)`. -/
def get (d : Dict κ ν) (k : κ) : Option ν := d.entries.lookup k

/-- `k in d`. -/
def has (d : Dict κ ν) (k : κ) : Bool := (d.get k).isSome

/-- `d[k] = v`. -/
def set (d : Dict κ ν) (k : κ) (v : ν) : Dict κ ν := ⟨putEntry k v d.entries, nodup_putEntry k v d.nodup⟩

/-- `d.pop(k, None)`. -/
def erase (d : Dict κ ν) (k : κ) : Dict κ ν :=
  ⟨d.entries.filter (fun e => e.1 ≠ k), d.nodup.sublist (List.Sublist.map _ List.filter_sublist)⟩

@[simp] theorem get_empty (k : κ) : (empty : Dict κ ν).get k = none := rfl

@[simp] theorem get_set (d : Dict κ ν) (k k' : κ) (v : ν) :
    (d.set k v).get k' = if k' = k then some v else d.get k' :=
  lookup_putEntry k k' v d.entries

@[simp] theorem get_erase (d : Dict κ ν) (k k' : κ) :
    (d.erase k).get k' = if k' = k then none else d.get k' :=
  lookup_filter_ne k k' d.entries

theorem mem_entries {d : Dict κ ν} {k : κ} {v : ν} : (k, v) ∈ d.entries ↔ d.get k = some v :=
  mem_iff_lookup d.nodup

/-- A loop over some entries, each step of which concerns the key of its entry only. -/
theorem get_foldl {step : Dict κ ν → κ × ν → Dict κ ν} {g : κ → ν → Option ν}
    (hself : ∀ d e, d.get e.1 = some e.2 → (step d e).get e.1 = g e.1 e.2)
    (hother : ∀ d e k, k ≠ e.1 → (step d e).get k = d.get k) (k : κ) {entries : List (κ × ν)}
    (hnodup : (entries.map Prod.fst).Nodup) {d : Dict κ ν} (hd : ∀ e ∈ entries, d.get e.1 = some e.2) :
    (entries.foldl step d).get k = match entries.lookup k with
      | some v => g k v
      | none => d.get k := by
  induction entries generalizing d with
  | nil => rfl
  | cons e rest ih =>
    rw [List.map_cons, List.nodup_cons] at hnodup
    rw [List.forall_mem_cons] at hd
    have hrest : ∀ e' ∈ rest, (step d e).get e'.1 = some e'.2 := by
      intro e' he'
      rw [hother d e e'.1, hd.2 e' he']
      intro heq
      exact hnodup.1 (heq ▸ List.mem_map_of_mem he')
    rw [List.foldl_cons, ih hnodup.2 hrest, lookup_cons_eq]
    by_cases hk : k = e.1
    · have hnone : rest.lookup k = none := by
        rw [List.lookup_eq_none_iff]
        intro p hp
        rw [bne_iff_ne]
        intro heq
        exact hnodup.1 (hk ▸ heq ▸ List.mem_map_of_mem hp)
      rw [hnone, if_pos hk, hk]
      exact hself d e hd.1
    · rw [if_neg hk, hother d e k hk]

/-- The same for a loop over all the entries. -/
theorem get_foldl_entries {step : Dict κ ν → κ × ν → Dict κ ν} {g : κ → ν → Option ν}
    (hself : ∀ d e, d.get e.1 = some e.2 → (step d e).get e.1 = g e.1 e.2)
    (hother : ∀ d e k, k ≠ e.1 → (step d e).get k = d.get k) (d : Dict κ ν) (k : κ) :
    (d.entries.foldl step d).get k = (d.get k).bind (g k) := by
  have hd : ∀ e ∈ d.entries, d.get e.1 = some e.2 := fun e he => mem_entries.mp he
  rw [get_foldl hself hother k d.nodup hd]
  show (match d.get k with
    | some v => g k v
    | none => d.get k) = _
  cases hget : d.get k with
  | none => rfl
  | some v => rfl

end Dict

end PyAppRunner.Base
