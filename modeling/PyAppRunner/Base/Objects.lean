import PyAppRunner.Base.Dict

/-! Values with dicts that can be written to.

A dict is an object: it has an identity, and it may be in several places, each of which then shows
the same entries. Setting a key is seen in all of them (`Value.write`). A copy has dicts of its own,
shared the way those of the original are. What is written to a dict that is in one place only is
seen along its path, and nowhere else (`look_write`). -/
namespace PyAppRunner.Base.Objects

/-- A value: an atom, a list, or a dict with its identity. -/
inductive Value (κ α : Type) where
  | atom (a : α)
  | list (items : List (Value κ α))
  /-- Dicts of one identity have the same entries. -/
  | dict (id : Nat) (entries : List (κ × Value κ α))

/-- What a value is, without what is in it. -/
inductive Mark (α : Type) where
  | atom (a : α)
  | list (length : Nat)
  | dict (id : Nat)
deriving DecidableEq

/-- From a value to one in it. -/
inductive Step (κ : Type) where
  | key (k : κ)
  | item (i : Nat)
deriving DecidableEq

variable {κ α : Type}

/-- The same mark under other identities. -/
def Mark.relabel (name : Nat → Nat) : Mark α → Mark α
  | .atom a => .atom a
  | .list length => .list length
  | .dict id => .dict (name id)

/-- What is seen of a value from outside. -/
def Value.mark : Value κ α → Mark α
  | .atom a => .atom a
  | .list items => .list items.length
  | .dict id _ => .dict id

section
variable (name : Nat → Nat) (edit : Nat → List (κ × Value κ α) → List (κ × Value κ α))

mutual
/-- The value with other identities and other entries for its dicts, the inner ones first. -/
def Value.rebuild : Value κ α → Value κ α
  | .atom a => .atom a
  | .list items => .list (rebuildItems items)
  | .dict id entries => .dict (name id) (edit id (rebuildEntries entries))

def rebuildItems : List (Value κ α) → List (Value κ α)
  | [] => []
  | v :: rest => v.rebuild :: rebuildItems rest

def rebuildEntries : List (κ × Value κ α) → List (κ × Value κ α)
  | [] => []
  | (k, v) :: rest => (k, v.rebuild) :: rebuildEntries rest
end

end

/-- The value with other identities for its dicts: those that were one stay one. -/
def Value.relabel (name : Nat → Nat) (v : Value κ α) : Value κ α := v.rebuild name fun _ entries => entries

mutual
/-- A number above the identities of all dicts in the value. -/
def Value.fresh : Value κ α → Nat
  | .atom _ => 0
  | .list items => freshItems items
  | .dict id entries => max (id + 1) (freshEntries entries)

def freshItems : List (Value κ α) → Nat
  | [] => 0
  | v :: rest => max v.fresh (freshItems rest)

def freshEntries : List (κ × Value κ α) → Nat
  | [] => 0
  | (_, v) :: rest => max v.fresh (freshEntries rest)
end

variable [DecidableEq κ]

/-- The entries of the dict `d` after its key `k` was set. -/
def setKey (d : Nat) (k : κ) (x : Value κ α) (id : Nat) (entries : List (κ × Value κ α)) : List (κ × Value κ α) :=
  if id = d then putEntry k x entries else entries

/-- The value after the key `k` of the dict `d` was set, wherever in the value that dict is. -/
def Value.write (v : Value κ α) (d : Nat) (k : κ) (x : Value κ α) : Value κ α :=
  v.rebuild (fun id => id) (setKey d k x)

/-- The value right in this one. -/
def Value.child : Value κ α → Step κ → Option (Value κ α)
  | .dict _ entries, .key k => entries.lookup k
  | .list items, .item i => items[i]?
  | _, _ => none

/-- What is at the end of a path. -/
def Value.look : List (Step κ) → Value κ α → Option (Mark α)
  | [], v => some v.mark
  | s :: path, v => (v.child s).bind (Value.look path)

/-- The dict is at no place of the value but this one. -/
def Value.OnlyAt (v : Value κ α) (d : Nat) (path : List (Step κ)) : Prop :=
  ∀ path', v.look path' = some (.dict d) → path' = path

/-- No dict is in two places of the value. -/
def Value.Unshared (v : Value κ α) : Prop := ∀ d path, v.look path = some (.dict d) → v.OnlyAt d path

namespace Value

/-! ### Looking into a rebuilt value -/

section
variable (name : Nat → Nat) (edit : Nat → List (κ × Value κ α) → List (κ × Value κ α))

omit [DecidableEq κ] in
theorem rebuildItems_eq_map (items : List (Value κ α)) :
    rebuildItems name edit items = items.map (rebuild name edit) := by
  induction items with
  | nil => rfl
  | cons v rest ih => rw [rebuildItems, ih, List.map_cons]

theorem lookup_rebuildEntries (entries : List (κ × Value κ α)) (k : κ) :
    (rebuildEntries name edit entries).lookup k = (entries.lookup k).map (rebuild name edit) := by
  induction entries with
  | nil => rfl
  | cons e rest ih =>
    rw [rebuildEntries, lookup_cons_eq, lookup_cons_eq, ih]
    split <;> rfl

omit [DecidableEq κ] in
theorem mark_rebuild (v : Value κ α) : (v.rebuild name edit).mark = v.mark.relabel name := by
  cases v with
  | atom a => rfl
  | list items => simp only [rebuild, mark, Mark.relabel, rebuildItems_eq_map, List.length_map]
  | dict id entries => rfl

theorem child_rebuild_item (items : List (Value κ α)) (i : Nat) :
    ((list items).rebuild name edit).child (.item i) = ((list items).child (.item i)).map (rebuild name edit) := by
  simp only [rebuild, child, rebuildItems_eq_map, List.getElem?_map]

end

theorem child_relabel (name : Nat → Nat) (v : Value κ α) (s : Step κ) :
    (v.relabel name).child s = (v.child s).map (relabel name) := by
  cases v with
  | atom a => rfl
  | list items =>
    cases s with
    | key k => rfl
    | item i => exact child_rebuild_item name _ items i
  | dict id entries =>
    cases s with
    | key k => exact lookup_rebuildEntries name _ entries k
    | item i => rfl

theorem child_write_here {d : Nat} {v : Value κ α} (h : v.mark = .dict d) (k : κ) (x : Value κ α) :
    (v.write d k x).child (.key k) = some x := by
  cases v with
  | atom a => cases h
  | list items => cases h
  | dict id entries =>
    cases h
    rw [write, rebuild, child, setKey, if_pos rfl, lookup_putEntry, if_pos rfl]

/-- Setting a key goes on into all else that is in the value. -/
theorem child_write_else {d : Nat} {k : κ} {v : Value κ α} {s : Step κ} (h : v.mark = .dict d → s ≠ .key k)
    (x : Value κ α) : (v.write d k x).child s = (v.child s).map fun u => u.write d k x := by
  cases v with
  | atom a => rfl
  | list items =>
    cases s with
    | key k' => rfl
    | item i => exact child_rebuild_item _ _ items i
  | dict id entries =>
    cases s with
    | item i => rfl
    | key k' =>
      have hrest := lookup_rebuildEntries (fun id => id) (setKey d k x) entries k'
      rw [write, rebuild, child, setKey]
      by_cases hd : id = d
      · have hk : k' ≠ k := fun heq => h (congrArg Mark.dict hd) (congrArg Step.key heq)
        rw [if_pos hd, lookup_putEntry, if_neg hk]
        exact hrest
      · rw [if_neg hd]
        exact hrest

theorem mark_write (v : Value κ α) (d : Nat) (k : κ) (x : Value κ α) : (v.write d k x).mark = v.mark := by
  rw [write, mark_rebuild]
  cases v <;> rfl

theorem look_cons (v : Value κ α) (s : Step κ) (path : List (Step κ)) :
    v.look (s :: path) = (v.child s).bind (look path) := rfl

/-- Nothing is under what is not there. -/
theorem look_append_none {v : Value κ α} {path : List (Step κ)} (h : v.look path = none) (rest : List (Step κ)) :
    v.look (path ++ rest) = none := by
  induction path generalizing v with
  | nil => cases h
  | cons s path ih =>
    rw [look_cons] at h
    rw [List.cons_append, look_cons]
    cases hchild : v.child s with
    | none => rfl
    | some u =>
      rw [hchild] at h
      exact ih h

theorem look_relabel (name : Nat → Nat) (v : Value κ α) (path : List (Step κ)) :
    (v.relabel name).look path = (v.look path).map (Mark.relabel name) := by
  induction path generalizing v with
  | nil => exact congrArg some (mark_rebuild name _ v)
  | cons s path ih =>
    rw [look_cons, look_cons, child_relabel]
    cases v.child s with
    | none => rfl
    | some u => exact ih u

/-! ### Looking into a value after a write -/

/-- A dict that is not in the value is not written to there. -/
theorem look_write_absent {d : Nat} {v : Value κ α} (h : ∀ path, v.look path ≠ some (.dict d)) (k : κ) (x : Value κ α)
    (path : List (Step κ)) : (v.write d k x).look path = v.look path := by
  induction path generalizing v with
  | nil => exact congrArg some (mark_write v d k x)
  | cons s path ih =>
    have hmark : v.mark ≠ .dict d := fun heq => h [] (congrArg some heq)
    rw [look_cons, look_cons, child_write_else fun heq => absurd heq hmark]
    cases hs : v.child s with
    | none => rfl
    | some u =>
      refine ih fun path' hpath' => h (s :: path') ?_
      rw [look_cons, hs]
      exact hpath'

/-- A dict that is in one place only: its new entry is there, and all else is as before. -/
theorem look_write {d : Nat} {v : Value κ α} {path : List (Step κ)} (h : v.look path = some (.dict d))
    (honly : v.OnlyAt d path) (k : κ) (x : Value κ α) :
    (∀ rest, (v.write d k x).look (path ++ .key k :: rest) = x.look rest) ∧
      ∀ path', ¬ (path ++ [Step.key k]).IsPrefix path' → (v.write d k x).look path' = v.look path' := by
  -- Along the path to the dict. Everywhere else the dict does not occur, so nothing is written there.
  induction path generalizing v with
  | nil =>
    have hmark : v.mark = .dict d := Option.some.inj h
    constructor
    · intro rest
      rw [List.nil_append, look_cons, child_write_here hmark]
      rfl
    · intro path' hpath'
      cases path' with
      | nil => exact congrArg some (mark_write v d k x)
      | cons s path' =>
        have hs : s ≠ .key k := fun heq => hpath' (heq ▸ List.cons_prefix_cons.mpr ⟨rfl, List.nil_prefix⟩)
        rw [look_cons, look_cons, child_write_else fun _ => hs]
        cases hchild : v.child s with
        | none => rfl
        | some u =>
          refine look_write_absent (fun path'' hpath'' => ?_) k x path'
          have := honly (s :: path'') (by rw [look_cons, hchild]; exact hpath'')
          cases this
  -- The dict is further down, so this node stays and its children are written one by one.
  | cons s path ih =>
    have hmark : v.mark ≠ .dict d := by
      intro heq
      have := honly [] (congrArg some heq)
      cases this
    have hwrite : ∀ s', (v.write d k x).child s' = (v.child s').map fun u => u.write d k x := by
      intro s'
      rw [child_write_else fun heq => absurd heq hmark]
    rw [look_cons] at h
    cases hchild : v.child s with
    | none =>
      rw [hchild] at h
      cases h
    | some u =>
      rw [hchild] at h
      have hin : ∀ path', u.look path' = some (.dict d) → path' = path := by
        intro path' hpath'
        have := honly (s :: path') (by rw [look_cons, hchild]; exact hpath')
        exact List.tail_eq_of_cons_eq this
      obtain ⟨hhere, helse⟩ := ih h hin
      constructor
      · intro rest
        rw [List.cons_append, look_cons, hwrite, hchild]
        exact hhere rest
      · intro path' hpath'
        cases path' with
        | nil => exact congrArg some (mark_write v d k x)
        | cons s' path' =>
          rw [look_cons, look_cons, hwrite]
          by_cases hs : s' = s
          · rw [hs, hchild]
            exact helse path' fun hpre => hpath' (hs ▸ List.cons_prefix_cons.mpr ⟨rfl, hpre⟩)
          · cases hchild' : v.child s' with
            | none => rfl
            | some u' =>
              refine look_write_absent (fun path'' hpath'' => ?_) k x path'
              have := honly (s' :: path'') (by rw [look_cons, hchild']; exact hpath'')
              exact hs (List.head_eq_of_cons_eq this)

/-- The dicts after a write were there before, or are in what was written. -/
theorem look_write_dict {d : Nat} {k : κ} {x v : Value κ α} {path : List (Step κ)} {d' : Nat}
    (h : (v.write d k x).look path = some (.dict d')) :
    (∃ path', v.look path' = some (.dict d')) ∨ ∃ path', x.look path' = some (.dict d') := by
  induction path generalizing v with
  | nil => exact .inl ⟨[], (congrArg some (mark_write v d k x)).symm.trans h⟩
  | cons s path ih =>
    rw [look_cons] at h
    by_cases hset : v.mark = .dict d ∧ s = .key k
    · obtain ⟨hmark, rfl⟩ := hset
      rw [child_write_here hmark] at h
      exact .inr ⟨path, h⟩
    · rw [child_write_else fun hmark hs => hset ⟨hmark, hs⟩] at h
      cases hchild : v.child s with
      | none =>
        rw [hchild] at h
        cases h
      | some u =>
        rw [hchild] at h
        obtain ⟨path', hpath'⟩ | hx := ih h
        · left
          refine ⟨s :: path', ?_⟩
          rw [look_cons, hchild]
          exact hpath'
        · exact .inr hx

/-- Dicts stay in one place each when what is written has no dict of the value. -/
theorem Unshared.write {v : Value κ α} (hv : v.Unshared) {d : Nat} {path : List (Step κ)}
    (h : v.look path = some (.dict d)) (k : κ) {x : Value κ α} (hx : x.Unshared)
    (hnew : ∀ path' d', x.look path' = some (.dict d') → ∀ path'', v.look path'' ≠ some (.dict d')) :
    (v.write d k x).Unshared := by
  obtain ⟨hhere, helse⟩ := look_write h (hv d path h) k x
  have hcases : ∀ {q : List (Step κ)} {d' : Nat}, (v.write d k x).look q = some (.dict d') →
      (∃ rest, q = path ++ .key k :: rest ∧ x.look rest = some (.dict d')) ∨ v.look q = some (.dict d') := by
    intro q d' hq
    by_cases hpre : (path ++ [Step.key k]).IsPrefix q
    · obtain ⟨rest, rfl⟩ := hpre
      rw [List.append_assoc, List.singleton_append, hhere] at hq
      exact .inl ⟨rest, by simp, hq⟩
    · rw [helse q hpre] at hq
      exact .inr hq
  intro d' q hq q' hq'
  obtain ⟨rest, rfl, hrest⟩ | hold := hcases hq
  · obtain ⟨rest', rfl, hrest'⟩ | hold' := hcases hq'
    · rw [hx d' rest hrest rest' hrest']
    · exact absurd hold' (hnew rest d' hrest q')
  · obtain ⟨rest', rfl, hrest'⟩ | hold' := hcases hq'
    · exact absurd hold (hnew rest' d' hrest' q)
    · exact hv d' q hold q' hold'

/-! ### Identities -/

mutual
theorem write_of_fresh_le {d : Nat} (k : κ) (x : Value κ α) : (v : Value κ α) → v.fresh ≤ d → v.write d k x = v
  | .atom a, _ => rfl
  | .list items, h => congrArg list (rebuildItems_of_fresh_le k x items h)
  | .dict id entries, h => by
    have hid : id ≠ d := by
      have : id + 1 ≤ d := (Nat.max_le.mp h).1
      omega
    rw [write, rebuild, setKey, if_neg hid, rebuildEntries_of_fresh_le k x entries (Nat.max_le.mp h).2]

theorem rebuildItems_of_fresh_le {d : Nat} (k : κ) (x : Value κ α) : (items : List (Value κ α)) → freshItems items ≤ d →
    rebuildItems (fun id => id) (setKey d k x) items = items
  | [], _ => rfl
  | v :: rest, h => by
    have hv : v.rebuild (fun id => id) (setKey d k x) = v := write_of_fresh_le k x v (Nat.max_le.mp h).1
    rw [rebuildItems, hv, rebuildItems_of_fresh_le k x rest (Nat.max_le.mp h).2]

theorem rebuildEntries_of_fresh_le {d : Nat} (k : κ) (x : Value κ α) : (entries : List (κ × Value κ α)) →
    freshEntries entries ≤ d → rebuildEntries (fun id => id) (setKey d k x) entries = entries
  | [], _ => rfl
  | (k', v) :: rest, h => by
    have hv : v.rebuild (fun id => id) (setKey d k x) = v := write_of_fresh_le k x v (Nat.max_le.mp h).1
    rw [rebuildEntries, hv, rebuildEntries_of_fresh_le k x rest (Nat.max_le.mp h).2]
end

omit [DecidableEq κ] in
theorem fresh_item {items : List (Value κ α)} {i : Nat} {u : Value κ α} (h : items[i]? = some u) :
    u.fresh ≤ freshItems items := by
  induction items generalizing i with
  | nil => cases h
  | cons v rest ih =>
    cases i with
    | zero =>
      rw [← Option.some.inj h]
      exact Nat.le_max_left _ _
    | succ i => exact Nat.le_trans (ih h) (Nat.le_max_right _ _)

theorem fresh_entry {entries : List (κ × Value κ α)} {k : κ} {u : Value κ α} (h : entries.lookup k = some u) :
    u.fresh ≤ freshEntries entries := by
  induction entries with
  | nil => cases h
  | cons e rest ih =>
    rw [lookup_cons_eq] at h
    split at h
    · rw [← Option.some.inj h]
      exact Nat.le_max_left _ _
    · exact Nat.le_trans (ih h) (Nat.le_max_right _ _)

theorem fresh_child {v u : Value κ α} {s : Step κ} (h : v.child s = some u) : u.fresh ≤ v.fresh := by
  cases v with
  | atom a => cases h
  | list items =>
    cases s with
    | key k => cases h
    | item i => exact fresh_item h
  | dict id entries =>
    cases s with
    | item i => cases h
    | key k => exact Nat.le_trans (fresh_entry h) (Nat.le_max_right _ _)

theorem lt_fresh {v : Value κ α} {path : List (Step κ)} {d : Nat} (h : v.look path = some (.dict d)) : d < v.fresh := by
  induction path generalizing v with
  | nil =>
    cases v with
    | atom a => cases h
    | list items => cases h
    | dict id entries =>
      cases h
      exact Nat.le_max_left (d + 1) (freshEntries entries)
  | cons s path ih =>
    rw [look_cons] at h
    cases hchild : v.child s with
    | none =>
      rw [hchild] at h
      cases h
    | some u =>
      rw [hchild] at h
      exact Nat.lt_of_lt_of_le (ih h) (fresh_child hchild)

end Value

/-! ### A dict and what it holds -/

/-- A dict at the top. -/
structure Object (κ α : Type) where
  id : Nat
  entries : List (κ × Value κ α)

namespace Object

def value (o : Object κ α) : Value κ α := .dict o.id o.entries

/-- `o.get(k)` -/
def get (o : Object κ α) (k : κ) : Option (Value κ α) := o.entries.lookup k

def relabel (o : Object κ α) (name : Nat → Nat) : Object κ α :=
  ⟨name o.id, rebuildEntries name (fun _ entries => entries) o.entries⟩

def write (o : Object κ α) (d : Nat) (k : κ) (x : Value κ α) : Object κ α :=
  ⟨o.id, setKey d k x o.id (rebuildEntries (fun id => id) (setKey d k x) o.entries)⟩

/-- What is under a key of the dict. -/
theorem look_key (o : Object κ α) (k : κ) (path : List (Step κ)) :
    o.value.look (.key k :: path) = (o.get k).bind (Value.look path) := rfl

omit [DecidableEq κ] in
@[simp] theorem relabel_value (o : Object κ α) (name : Nat → Nat) : (o.relabel name).value = o.value.relabel name := rfl

@[simp] theorem write_value (o : Object κ α) (d : Nat) (k : κ) (x : Value κ α) :
    (o.write d k x).value = o.value.write d k x := rfl

omit [DecidableEq κ] in
theorem ext_value {o o' : Object κ α} (h : o.value = o'.value) : o = o' := by
  cases o
  cases o'
  cases h
  rfl

end Object

end PyAppRunner.Base.Objects
