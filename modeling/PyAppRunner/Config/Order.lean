import PyAppRunner.Base.Placing
import PyAppRunner.Config.Load

/-! The config does not depend on the order of the environment.

One variable is one placing in the tree the config shows (`visit_view`), and placings along different
paths commute. That takes a dict in one place: a variable that is written into a dict of the defaults
is seen wherever they have that dict. -/
namespace PyAppRunner.Config
open Base Base.Objects Base.Placing

variable {α : Type}

/-- A place in a config: a dict, or something that no variable descends into. -/
def shape : Mark (Atom α) → Shape (Mark (Atom α))
  | .dict _ => .level
  | m => .leaf m

/-- What a value shows, whatever its dicts are. Two configs are equal when they show the same. -/
def view (v : Value Key (Atom α)) : View (Step Key) (Mark (Atom α)) := fun path => (v.look path).map shape

/-- What the config shows. -/
def World.view (w : World α) : View (Step Key) (Mark (Atom α)) := Config.view w.config.value

theorem grown_view (v : Value Key (Atom α)) : Grown (view v) := by
  intro path rest h
  have hnone : v.look path = none := Option.map_eq_none_iff.mp h
  rw [view, Value.look_append_none hnone]
  rfl

/-- What objects the dicts are does not show. -/
theorem view_relabel (name : Nat → Nat) (v : Value Key (Atom α)) : view (v.relabel name) = view v := by
  funext path
  rw [view, view, Value.look_relabel, Option.map_map]
  congr 1
  funext m
  cases m <;> rfl

/-! ### The caller's dicts -/

/-- The dicts of the config are not the caller's, and those to come are neither. -/
structure Kept (before : Object Key (Atom α)) (w : World α) : Prop where
  defaults : w.defaults = before
  next : before.value.fresh ≤ w.next
  own : ∀ path d, w.config.value.look path = some (.dict d) → before.value.fresh ≤ d ∧ d < w.next

/-- `deepcopy` makes new objects, so that none of the defaults is reached. -/
theorem kept_copied (before : Object Key (Atom α)) : Kept before (copied before) := by
  refine ⟨rfl, Nat.le_add_left _ _, ?_⟩
  intro path d h
  rw [copied, Object.relabel_value, Value.look_relabel] at h
  cases hlook : before.value.look path with
  | none =>
    rw [hlook] at h
    cases h
  | some m =>
    rw [hlook] at h
    cases m with
    | atom a => cases h
    | list length => cases h
    | dict d' =>
      cases h
      have := Value.lt_fresh hlook
      simp only [copied]
      omega

variable {before : Object Key (Atom α)} {w : World α}

/-- A write to a dict of the config leaves the defaults alone. -/
theorem Kept.set (h : Kept before w) {d : Nat} (hd : before.value.fresh ≤ d) (key : Key) {x : Value Key (Atom α)}
    (hx : ∀ path d', x.look path = some (.dict d') → before.value.fresh ≤ d' ∧ d' < w.next) :
    Kept before (w.set d key x) := by
  refine ⟨?_, h.next, ?_⟩
  · have hsame : before.write d key x = before := Object.ext_value (Value.write_of_fresh_le key x before.value hd)
    rw [World.set, h.defaults, hsame]
  · intro path d' hlook
    rw [World.set, Object.write_value] at hlook
    obtain ⟨path', hold⟩ | ⟨path', hnew⟩ := Value.look_write_dict hlook
    · exact h.own path' d' hold
    · exact hx path' d' hnew

/-- All there is in an empty dict is the dict. -/
theorem look_bare {id d : Nat} {path : List (Step Key)} (h : (Value.dict id [] : Value Key (Atom α)).look path = some (.dict d)) :
    path = [] ∧ d = id := by
  cases path with
  | nil =>
    cases h
    exact ⟨rfl, rfl⟩
  | cons s path =>
    cases s with
    | key k => cases h
    | item i => cases h

/-- And so does a new dict. -/
theorem Kept.create (h : Kept before w) {d : Nat} (hd : before.value.fresh ≤ d) (key : Key) :
    Kept before (w.create d key) := by
  have hnext : Kept before { w with next := w.next + 1 } :=
    ⟨h.defaults, Nat.le_succ_of_le h.next, fun path d' hlook => ⟨(h.own path d' hlook).1, Nat.lt_succ_of_lt (h.own path d' hlook).2⟩⟩
  refine hnext.set hd key fun path d' hlook => ?_
  rw [(look_bare hlook).2]
  exact ⟨h.next, Nat.lt_succ_self w.next⟩

/-! ### What is written -/

/-- A value without a dict in it. -/
def Plain (v : Value Key (Atom α)) : Prop := ∀ path d, v.look path ≠ some (.dict d)

theorem plain_atom (a : Atom α) : Plain (.atom a) := by
  intro path d h
  cases path with
  | nil => cases h
  | cons s path => cases s <;> cases h

theorem coerceValue_newValue {splitValueKeys : List Key} {name : Key} {value : List Char} {v : Value Key (Atom α)}
    (h : coerceValue (newValue splitValueKeys name value) = .ok v) :
    (∃ a : Atom α, a ≠ .none ∧ v = .atom a) ∨ ∃ items : List (List Char), v = .list (items.map fun s => .atom (.str s)) := by
  rw [newValue] at h
  split at h
  · cases h
    exact .inr ⟨_, rfl⟩
  · left
    simp only [coerceValue] at h
    split at h
    · split at h
      · cases h
      · split at h
        · cases h
          exact ⟨.int _, by simp, rfl⟩
        · cases h
          exact ⟨.str _, by simp, rfl⟩
    · cases h
      exact ⟨.str _, by simp, rfl⟩

/-- What comes from the environment has no dicts in it. -/
theorem plain_newValue (splitValueKeys : List Key) (name : Key) (value : List Char) (v : Value Key (Atom α))
    (h : coerceValue (newValue splitValueKeys name value) = .ok v) : Plain v := by
  obtain ⟨a, -, rfl⟩ | ⟨items, rfl⟩ := coerceValue_newValue h
  · exact plain_atom a
  · intro path d hlook
    cases path with
    | nil => cases hlook
    | cons s path =>
      cases s with
      | key k => cases hlook
      | item i =>
        rw [Value.look_cons, Value.child, List.getElem?_map] at hlook
        cases hitem : items[i]? with
        | none =>
          rw [hitem] at hlook
          cases hlook
        | some s =>
          rw [hitem] at hlook
          exact plain_atom (.str s) path d hlook

/-- `None` at the first step of a path counts as not there. -/
def missing : Mark (Atom α) → Bool
  | .atom .none => true
  | _ => false

/-- A value counts for what it is coerced to. -/
theorem counts_coerced {splitValueKeys : List Key} {name : Key} {value : List Char} {v : Value Key (Atom α)}
    (h : coerceValue (newValue splitValueKeys name value) = .ok v) : Counts missing (view v) := by
  obtain ⟨a, ha, rfl⟩ | ⟨items, rfl⟩ := coerceValue_newValue h
  · refine ⟨.atom a, rfl, ?_⟩
    cases a with
    | none => exact absurd rfl ha
    | _ => rfl
  · exact ⟨_, rfl, rfl⟩

/-! ### Writing into the config -/

/-- What is placed at the end of the path. -/
def coerced (finalValue : Value Key (Atom α)) : Option (View (Step Key) (Mark (Atom α))) :=
  match coerceValue finalValue with
  | .ok v => some (view v)
  | .error _ => none

variable {finalValue : Value Key (Atom α)}

/-- **One variable writes to dicts of the config only.** -/
theorem replaceRec_kept (hplain : ∀ v, coerceValue finalValue = .ok v → Plain v) (keys : List Key)
    {finalDict : Object Key (Atom α)} (h : Kept before w)
    (hown : ∀ path d, finalDict.value.look path = some (.dict d) → before.value.fresh ≤ d) :
    Kept before (replaceRec keys finalDict finalValue w).1 := by
  induction keys generalizing finalDict w with
  | nil => exact h
  | cons key rest ih =>
    have hid : before.value.fresh ≤ finalDict.id := hown [] finalDict.id rfl
    cases rest with
    | nil =>
      rw [replaceRec]
      cases hv : coerceValue finalValue with
      | error e => exact h
      | ok v => exact h.set hid key fun path d hlook => absurd hlook (hplain v hv path d)
    | cons key' keys =>
      rw [replaceRec]
      split
      · refine ih (h.create hid key) fun path d hlook => ?_
        rw [(look_bare hlook).2]
        exact h.next
      · rename_i id entries hentry
        refine ih h fun path d hlook => hown (.key key :: path) d ?_
        rw [Object.look_key, hentry]
        exact hlook
      · exact h
      · exact h

section
variable {letters : Casing} {splitValueKeys : List Key} {entry : Key × List Char} {key : Key} {keys : List Key}

/-- A variable that names nothing of the config does nothing. -/
theorem visit_skipped (hkeys : keysOf letters entry.1 = key :: keys)
    (hget : ∀ v, w.config.get key = some v → v = .atom .none) : visit letters splitValueKeys w entry = w := by
  rw [visit, hkeys]
  cases hv : w.config.get key with
  | none => simp only [hv]
  | some v =>
    rw [hget v hv] at hv
    simp only [hv]

/-- One that does is written at the end of its path. -/
theorem visit_taken {v : Value Key (Atom α)} (hkeys : keysOf letters entry.1 = key :: keys)
    (hget : w.config.get key = some v) (hv : v ≠ .atom .none) :
    ∃ ignored, visit letters splitValueKeys w entry =
      { (replaceRec (key :: keys) w.config (newValue splitValueKeys entry.1 entry.2) w).1 with ignored := ignored } := by
  rw [visit, hkeys]
  simp only [hget]
  split
  · rename_i w' heq
    rw [heq]
    exact ⟨w'.ignored, rfl⟩
  · rename_i w' e heq
    rw [heq]
    exact ⟨_, rfl⟩

end

theorem visit_kept (letters : Casing) (splitValueKeys : List Key) (entry : Key × List Char) (h : Kept before w) :
    Kept before (visit letters splitValueKeys w entry) := by
  cases hkeys : keysOf letters entry.1 with
  | nil =>
    rw [visit, hkeys]
    exact h
  | cons key keys =>
    by_cases hskip : ∀ v, w.config.get key = some v → v = .atom .none
    · rw [visit_skipped hkeys hskip]
      exact h
    · push Not at hskip
      obtain ⟨v, hget, hv⟩ := hskip
      have hreplace := replaceRec_kept (plain_newValue splitValueKeys entry.1 entry.2) (key :: keys) h
        fun path d hlook => (h.own path d hlook).1
      obtain ⟨ignored, hvisit⟩ := visit_taken hkeys hget hv
      rw [hvisit]
      exact ⟨hreplace.defaults, hreplace.next, hreplace.own⟩

/-- A key that is set is seen under its dict, which is in one place, and nowhere else. -/
theorem set_view {path : List (Step Key)} {d : Nat} (hw : w.config.value.Unshared)
    (hd : w.config.value.look path = some (.dict d)) (key : Key) (x : Value Key (Atom α)) :
    (w.set d key x).view.under (path ++ [.key key]) = Config.view x ∧
      ∀ q, ¬ (path ++ [Step.key key]).IsPrefix q → (w.set d key x).view q = w.view q := by
  obtain ⟨hhere, helse⟩ := Value.look_write hd (hw d path hd) key x
  constructor
  · funext rest
    have := congrArg (Option.map shape) (hhere rest)
    rw [View.under, List.append_assoc]
    exact this
  · exact fun q hq => congrArg (Option.map shape) (helse q hq)

/-- A plain value under a key makes no dict shared. -/
theorem set_unshared {path : List (Step Key)} {d : Nat} (hw : w.config.value.Unshared)
    (hd : w.config.value.look path = some (.dict d)) (key : Key) {x : Value Key (Atom α)} (hx : Plain x) :
    (w.set d key x).config.value.Unshared :=
  Value.Unshared.write hw hd key (fun d' q hq => absurd hq (hx q d')) fun q d' hq => absurd hq (hx q d')

/-- Nor does a new dict. -/
theorem create_unshared {path : List (Step Key)} {d : Nat} (h : Kept before w) (hw : w.config.value.Unshared)
    (hd : w.config.value.look path = some (.dict d)) (key : Key) : (w.create d key).config.value.Unshared := by
  refine Value.Unshared.write hw hd key ?_ ?_
  · intro d' q hq q' hq'
    rw [(look_bare hq).1, (look_bare hq').1]
  · intro q d' hq q' hq'
    have hlt := (h.own q' d' hq').2
    rw [(look_bare hq).2] at hlt
    exact Nat.lt_irrefl w.next hlt

theorem view_bare (id : Nat) : view (.dict id [] : Value Key (Atom α)) = View.bare := by
  funext path
  cases path with
  | nil => rfl
  | cons s path => cases s <;> rfl

/-- What `replaceRec` writes is a placing under the dict it was called for. -/
theorem replaceRec_view (hplain : ∀ v, coerceValue finalValue = .ok v → Plain v) (keys : List Key)
    {finalDict : Object Key (Atom α)} {path : List (Step Key)} (h : Kept before w) (hw : w.config.value.Unshared)
    (hhere : ∀ rest, w.config.value.look (path ++ rest) = finalDict.value.look rest) :
    (replaceRec keys finalDict finalValue w).1.config.value.Unshared ∧
      (replaceRec keys finalDict finalValue w).1.view.under path =
        place (coerced finalValue) (keys.map Step.key) (w.view.under path) ∧
      ∀ q, ¬ path.IsPrefix q → (replaceRec keys finalDict finalValue w).1.view q = w.view q := by
  induction keys generalizing finalDict path w with
  | nil => exact ⟨hw, rfl, fun _ _ => rfl⟩
  | cons key rest ih =>
    have hd : w.config.value.look path = some (.dict finalDict.id) := by
      have := hhere []
      rwa [List.append_nil] at this
    have hunder : w.view.under path [.key key] = (finalDict.get key).map fun v => shape v.mark := by
      rw [View.under, World.view, view, hhere, Object.look_key]
      cases finalDict.get key <;> rfl
    cases rest with
    | nil =>
      rw [replaceRec, coerced]
      cases hv : coerceValue finalValue with
      | error e => exact ⟨hw, rfl, fun _ _ => rfl⟩
      | ok v =>
        obtain ⟨hset, helse⟩ := set_view hw hd key v
        exact ⟨set_unshared hw hd key (hplain v hv), View.under_of_step hset helse⟩
    | cons key' keys =>
      rw [replaceRec, List.map_cons, List.map_cons]
      cases hentry : finalDict.get key with
      | none =>
        -- The level is made, and the rest is placed in it.
        rw [hentry] at hunder
        obtain ⟨hset, helse⟩ := set_view hw hd key (.dict w.next [])
        have hcreated : ∀ rest, (w.create finalDict.id key).config.value.look (path ++ [.key key] ++ rest) =
            (Object.mk w.next []).value.look rest := by
          intro rest
          rw [List.append_assoc]
          exact (Value.look_write hd (hw _ path hd) key (.dict w.next [])).1 rest
        obtain ⟨hunshared, hplaced, hother⟩ := ih (h.create (h.own path _ hd).1 key) (create_unshared h hw hd key) hcreated
        refine ⟨hunshared, ?_⟩
        rw [place_made hunder]
        have hbare : (w.create finalDict.id key).view.under (path ++ [.key key]) = View.bare := hset.trans (view_bare _)
        rw [hbare] at hplaced
        exact View.under_of_step hplaced fun q hq => (hother q hq).trans (helse q hq)
      | some v =>
        rw [hentry] at hunder
        cases v with
        | dict id entries =>
          have hinner : ∀ rest, w.config.value.look (path ++ [.key key] ++ rest) =
              (Object.mk id entries).value.look rest := by
            intro rest
            rw [List.append_assoc, List.singleton_append, hhere, Object.look_key, hentry]
            rfl
          obtain ⟨hunshared, hplaced, hother⟩ := ih h hw hinner
          refine ⟨hunshared, ?_⟩
          rw [place_through hunder, ← View.under_append]
          exact View.under_of_step hplaced hother
        | atom a => exact ⟨hw, (place_stopped hunder).symm, fun _ _ => rfl⟩
        | list items => exact ⟨hw, (place_stopped hunder).symm, fun _ _ => rfl⟩

/-! ### One variable, and all of them -/

/-- The placing a variable asks for. -/
def asked (letters : Casing) (splitValueKeys : List Key) (V : View (Step Key) (Mark (Atom α))) (entry : Key × List Char) :
    View (Step Key) (Mark (Atom α)) :=
  offer missing (coerced (newValue splitValueKeys entry.1 entry.2)) ((keysOf letters entry.1).map Step.key) V

/-- The variable is skipped where the config has nothing, or `None`. -/
theorem present_iff (w : World α) (key : Key) :
    Present missing w.view (.key key) ↔ ∃ v, w.config.get key = some v ∧ v ≠ .atom .none := by
  have hat : w.view [.key key] = (w.config.get key).map fun v => shape v.mark := by
    rw [World.view, view, Object.look_key]
    cases w.config.get key <;> rfl
  rw [Present, hat]
  cases w.config.get key with
  | none => simp
  | some v =>
    cases v with
    | atom a => cases a <;> simp [Value.mark, shape, missing]
    | list items => simp [Value.mark, shape, missing]
    | dict id entries => simp [Value.mark, shape]

/-- What one variable changes, in terms of what is shown. -/
theorem visit_view (letters : Casing) (splitValueKeys : List Key) (entry : Key × List Char) (h : Kept before w)
    (hw : w.config.value.Unshared) :
    (visit letters splitValueKeys w entry).config.value.Unshared ∧
      (visit letters splitValueKeys w entry).view = asked letters splitValueKeys w.view entry := by
  rw [asked]
  cases hkeys : keysOf letters entry.1 with
  | nil =>
    rw [visit, hkeys]
    exact ⟨hw, rfl⟩
  | cons key keys =>
    rw [List.map_cons]
    by_cases hpresent : Present missing w.view (.key key)
    · obtain ⟨v, hget, hv⟩ := (present_iff w key).mp hpresent
      have hroot : ∀ rest, w.config.value.look ([] ++ rest) = w.config.value.look rest := fun _ => rfl
      obtain ⟨hunshared, hplaced, -⟩ :=
        replaceRec_view (plain_newValue splitValueKeys entry.1 entry.2) (key :: keys) h hw hroot
      obtain ⟨ignored, hvisit⟩ := visit_taken hkeys hget hv
      rw [hvisit, offer_present _ hpresent]
      exact ⟨hunshared, hplaced⟩
    · have hskip : ∀ v, w.config.get key = some v → v = .atom .none := fun v hget =>
        Classical.byContradiction fun hv => hpresent ((present_iff w key).mpr ⟨v, hget, hv⟩)
      rw [visit_skipped hkeys hskip, offer_absent _ hpresent]
      exact ⟨hw, rfl⟩

/-- The variables one after the other. -/
theorem visits_kept (letters : Casing) (splitValueKeys : List Key) (entries : List (Key × List Char)) (h : Kept before w) :
    Kept before (entries.foldl (visit letters splitValueKeys) w) := by
  induction entries generalizing w with
  | nil => exact h
  | cons entry rest ih => exact ih (visit_kept letters splitValueKeys entry h)

/-- The loop shows the placings that are asked for, one after another. -/
theorem visits_view (letters : Casing) (splitValueKeys : List Key) (entries : List (Key × List Char)) (h : Kept before w)
    (hw : w.config.value.Unshared) :
    (entries.foldl (visit letters splitValueKeys) w).view = entries.foldl (asked letters splitValueKeys) w.view := by
  induction entries generalizing w with
  | nil => rfl
  | cons entry rest ih =>
    obtain ⟨hunshared, hview⟩ := visit_view letters splitValueKeys entry h hw
    rw [List.foldl_cons, List.foldl_cons, ← hview]
    exact ih (visit_kept letters splitValueKeys entry h) hunshared

/-- A path a variable leads along, or that leads on from where it ends. -/
def OnPath (keys : List Key) (path : List (Step Key)) : Prop :=
  (keys.map Step.key).IsPrefix path ∨ path.IsPrefix (keys.map Step.key)

instance (keys : List Key) (path : List (Step Key)) : Decidable (OnPath keys path) :=
  inferInstanceAs (Decidable ((keys.map Step.key).IsPrefix path ∨ path.IsPrefix (keys.map Step.key)))

/-- A place that no variable leads to, or through, shows what it did. -/
theorem visits_off_path (letters : Casing) (splitValueKeys : List Key) {entries : List (Key × List Char)} (h : Kept before w)
    (hw : w.config.value.Unshared) {path : List (Step Key)}
    (hpath : ∀ entry ∈ entries, ¬ OnPath (keysOf letters entry.1) path) :
    (entries.foldl (visit letters splitValueKeys) w).view path = w.view path := by
  induction entries generalizing w with
  | nil => rfl
  | cons entry rest ih =>
    obtain ⟨hunshared, hview⟩ := visit_view letters splitValueKeys entry h hw
    obtain ⟨hentry, hrest⟩ := List.forall_mem_cons.mp hpath
    rw [List.foldl_cons, ih (visit_kept letters splitValueKeys entry h) hunshared hrest, hview]
    exact offer_off_path _ path (grown_view w.config.value) (fun hpre => hentry (.inl hpre)) fun hpre => hentry (.inr hpre)

/-- Variables along different paths may come in either order. -/
theorem asked_comm (letters : Casing) (splitValueKeys : List Key) {entry entry' : Key × List Char}
    (hne : keysOf letters entry.1 ≠ keysOf letters entry'.1) (V : View (Step Key) (Mark (Atom α))) :
    asked letters splitValueKeys (asked letters splitValueKeys V entry) entry' =
      asked letters splitValueKeys (asked letters splitValueKeys V entry') entry := by
  have hcounts : ∀ (e : Key × List Char) x, coerced (newValue (α := α) splitValueKeys e.1 e.2) = some x → Counts missing x := by
    intro e x hx
    rw [coerced] at hx
    cases hv : coerceValue (newValue (α := α) splitValueKeys e.1 e.2) with
    | error err =>
      rw [hv] at hx
      cases hx
    | ok v =>
      rw [hv] at hx
      cases hx
      exact counts_coerced hv
  have hpaths : (keysOf letters entry'.1).map Step.key ≠ (keysOf letters entry.1).map Step.key := by
    intro heq
    have hinj : Function.Injective (Step.key : Key → Step Key) := fun a b h => by cases h; rfl
    exact hne (hinj.list_map heq).symm
  exact offer_comm (hcounts entry') (hcounts entry) hpaths V

/-! ### Loading -/

/-- The config before the loop: the copy, with the environment's name. -/
def started (defaults : Object Key (Atom α)) (appEnv : List Char) : World α :=
  (copied defaults).set (copied defaults).config.id "environment".toList (.atom (.str appEnv))

theorem started_kept (defaults : Object Key (Atom α)) (appEnv : List Char) : Kept defaults (started defaults appEnv) := by
  have hroot := (kept_copied defaults).own [] (copied defaults).config.id rfl
  exact (kept_copied defaults).set hroot.1 _ fun path d h => absurd h (plain_atom (.str appEnv) path d)

theorem unshared_copied {defaults : Object Key (Atom α)} (h : defaults.value.Unshared) :
    (copied defaults).config.value.Unshared := by
  have hback : ∀ {path : List (Step Key)} {d : Nat}, (copied defaults).config.value.look path = some (.dict d) →
      defaults.value.look path = some (.dict (d - defaults.value.fresh)) := by
    intro path d hlook
    rw [copied, Object.relabel_value, Value.look_relabel] at hlook
    cases hdefault : defaults.value.look path with
    | none =>
      rw [hdefault] at hlook
      cases hlook
    | some m =>
      rw [hdefault] at hlook
      cases m with
      | atom a => cases hlook
      | list length => cases hlook
      | dict d' =>
        cases hlook
        rw [Nat.add_sub_cancel]
  exact fun d path hpath path' hpath' => h _ path (hback hpath) path' (hback hpath')

/-- The copy is as unshared as the defaults. -/
theorem started_unshared {defaults : Object Key (Atom α)} (h : defaults.value.Unshared) (appEnv : List Char) :
    (started defaults appEnv).config.value.Unshared := by
  have hroot : (copied defaults).config.value.look [] = some (.dict (copied defaults).config.id) := rfl
  exact set_unshared (unshared_copied h) hroot _ (plain_atom (.str appEnv))

theorem started_view {defaults : Object Key (Atom α)} (h : defaults.value.Unshared) (appEnv : List Char)
    {path : List (Step Key)} (hpath : path.head? ≠ some (.key "environment".toList)) :
    (started defaults appEnv).view path = view defaults.value path := by
  have hroot : (copied defaults).config.value.look [] = some (.dict (copied defaults).config.id) := rfl
  have hcopied : (copied defaults).view = view defaults.value := view_relabel (· + defaults.value.fresh) defaults.value
  rw [started, (set_view (unshared_copied h) hroot _ _).2 path, hcopied]
  intro hpre
  obtain ⟨rest, rfl⟩ := hpre
  exact hpath rfl

/-- `load_config` visits the variables of the environment in their order. -/
theorem loadConfig_eq {letters : Casing} {defaults : Option (Object Key (Atom α))} {splitValueKeys : Option (List Key)}
    {environ : List (Key × List Char)} {w : World α} (h : loadConfig letters defaults splitValueKeys environ = some w) :
    ∃ appEnv, environ.lookup "APP_ENV".toList = some appEnv ∧
      w = environ.foldl (visit letters (splitValueKeys.getD [])) (started (defaults.getD ⟨0, []⟩) appEnv) := by
  rw [loadConfig] at h
  split at h
  · cases h
  · cases h
  · rename_i c appEnv hlookup
    exact ⟨c :: appEnv, hlookup, (Option.some.inj h).symm⟩

/-- Looking a name up does not depend on the order of the names. -/
theorem lookup_perm {entries entries' : List (Key × List Char)} (hperm : entries.Perm entries')
    (hnodup : (entries.map Prod.fst).Nodup) (name : Key) : entries.lookup name = entries'.lookup name := by
  induction hperm with
  | nil => rfl
  | cons e _ ih =>
    rw [List.lookup_cons, List.lookup_cons, ih (List.nodup_cons.mp hnodup).2]
  | swap e e' rest =>
    have hne : e'.1 ≠ e.1 := fun heq => (List.nodup_cons.mp hnodup).1 (heq ▸ List.mem_cons_self)
    rw [List.lookup_cons, List.lookup_cons, List.lookup_cons, List.lookup_cons]
    by_cases he : name = e.1
    · have he' : (name == e'.1) = false := beq_eq_false_iff_ne.mpr fun heq => hne (heq.symm.trans he)
      rw [he', beq_iff_eq.mpr he]
    · rw [beq_eq_false_iff_ne.mpr he]
  | trans hperm _ ih ih' =>
    rw [ih hnodup, ih' ((hperm.map Prod.fst).nodup hnodup)]

/-- The caller's defaults are as they were. With no dict of theirs in two places and no two names the same when
lowered, the config is the same for every order of the environment, and every value that is on the path of no
variable is as in the defaults. -/
theorem config_of_any_order (letters : Casing) (defaults : Option (Object Key (Atom α)))
    (splitValueKeys : Option (List Key)) {environ environ' : List (Key × List Char)}
    (hnames : (environ.map fun e => letters.lower e.1).Nodup) (hperm : environ.Perm environ') :
    (∀ w, loadConfig letters defaults splitValueKeys environ = some w → w.defaults = defaults.getD ⟨0, []⟩) ∧
    ((defaults.getD ⟨0, []⟩).value.Unshared →
      (loadConfig letters defaults splitValueKeys environ').map World.view =
        (loadConfig letters defaults splitValueKeys environ).map World.view ∧
      ∀ w, loadConfig letters defaults splitValueKeys environ = some w →
        ∀ path, path.head? ≠ some (.key "environment".toList) →
          (∀ entry ∈ environ, ¬ OnPath (keysOf letters entry.1) path) →
          w.view path = view (defaults.getD ⟨0, []⟩).value path) := by
  have hkeys : (environ.map Prod.fst).Nodup := by
    refine List.Nodup.of_map letters.lower ?_
    rwa [List.map_map]
  refine ⟨?_, fun hdefaults => ⟨?_, ?_⟩⟩
  · intro w hw
    obtain ⟨appEnv, -, rfl⟩ := loadConfig_eq hw
    exact (visits_kept letters _ environ (started_kept _ appEnv)).defaults
  · have hlookup := lookup_perm hperm hkeys "APP_ENV".toList
    -- Two variables of different paths may be set in either order.
    have hcomm : ∀ e ∈ environ, ∀ e' ∈ environ, ∀ V : View (Step Key) (Mark (Atom α)),
        asked letters (splitValueKeys.getD []) (asked letters (splitValueKeys.getD []) V e) e' =
          asked letters (splitValueKeys.getD []) (asked letters (splitValueKeys.getD []) V e') e := by
      intro e he e' he' V
      by_cases heq : e = e'
      · rw [heq]
      · refine asked_comm letters _ (fun hpath => heq ?_) V
        exact List.inj_on_of_nodup_map hnames he he' (letters.lower_eq_of_split hpath)
    rw [loadConfig, loadConfig, ← hlookup]
    cases environ.lookup "APP_ENV".toList with
    | none => rfl
    | some appEnv =>
      cases appEnv with
      | nil => rfl
      | cons c appEnv =>
        have hkept := started_kept (defaults.getD ⟨0, []⟩) (c :: appEnv)
        have hunshared := started_unshared hdefaults (c :: appEnv)
        have hfold := hperm.foldl_eq' hcomm (started (defaults.getD ⟨0, []⟩) (c :: appEnv)).view
        rw [← visits_view letters _ environ hkept hunshared, ← visits_view letters _ environ' hkept hunshared] at hfold
        exact congrArg some hfold.symm
  · intro w hw
    obtain ⟨appEnv, -, rfl⟩ := loadConfig_eq hw
    have hkept := started_kept (defaults.getD ⟨0, []⟩) appEnv
    intro path hpath hoff
    rw [visits_off_path letters _ hkept (started_unshared hdefaults appEnv) hoff, started_view hdefaults appEnv hpath]

/-- `{"db": {"host": "h"}}` -/
def oneDatabase : Object Key (Atom Empty) :=
  ⟨0, [("db".toList, .dict 1 [("host".toList, .atom (.str ['h']))])]⟩

/-- An atom has nothing in it. -/
theorem plain_entry {k : Key} {a : Atom α} {id d : Nat} {path : List (Step Key)}
    (h : (Object.mk id [(k, .atom a)]).value.look path = some (.dict d)) : path = [] ∧ d = id := by
  cases path with
  | nil =>
    cases h
    exact ⟨rfl, rfl⟩
  | cons s path =>
    cases s with
    | item i => cases h
    | key k' =>
      rw [Object.look_key, Object.get, lookup_cons_eq] at h
      split at h
      · exact absurd h (plain_atom a path d)
      · cases h

theorem oneDatabase_unshared : oneDatabase.value.Unshared := by
  have hplace : ∀ {path : List (Step Key)} {d : Nat}, oneDatabase.value.look path = some (.dict d) →
      (path = [] ∧ d = 0) ∨ (path = [.key "db".toList] ∧ d = 1) := by
    intro path d h
    cases path with
    | nil =>
      cases h
      exact .inl ⟨rfl, rfl⟩
    | cons s path =>
      cases s with
      | item i => cases h
      | key k =>
        rw [Object.look_key, Object.get, oneDatabase, lookup_cons_eq] at h
        split at h
        · rename_i hk
          obtain ⟨hpath, hd⟩ := plain_entry h
          exact .inr ⟨by rw [hk, hpath], hd⟩
        · cases h
  intro d path hpath path' hpath'
  obtain ⟨rfl, rfl⟩ | ⟨rfl, rfl⟩ := hplace hpath
  · obtain ⟨rfl, -⟩ | ⟨-, h⟩ := hplace hpath'
    · rfl
    · cases h
  · obtain ⟨-, h⟩ | ⟨rfl, -⟩ := hplace hpath'
    · cases h
    · rfl

/-- The same variables, in the two orders. -/
def hostAndPort : List (Key × List Char) :=
  [("APP_ENV".toList, ['t']), ("DB_HOST".toList, ['a']), ("DB_PORT".toList, ['5'])]

def portAndHost : List (Key × List Char) :=
  [("DB_PORT".toList, ['5']), ("APP_ENV".toList, ['t']), ("DB_HOST".toList, ['a'])]

/-- A port the defaults do not have, before and after the host. -/
theorem one_database_filled :
    (loadConfig Casing.ascii (some oneDatabase) none portAndHost).map World.view =
        (loadConfig Casing.ascii (some oneDatabase) none hostAndPort).map World.view ∧
      (loadConfig Casing.ascii (some oneDatabase) none hostAndPort).map
          (fun w => w.view [.key "db".toList, .key "port".toList]) = some (some (.leaf (.atom (.int 5)))) ∧
      ∀ w, loadConfig Casing.ascii (some oneDatabase) none hostAndPort = some w →
        w.defaults = oneDatabase ∧ w.view [.key "db".toList, .key "name".toList] = none := by
  have hnames : (hostAndPort.map fun e => Casing.ascii.lower e.1).Nodup := by decide +kernel
  have hperm : hostAndPort.Perm portAndHost := by decide +kernel
  obtain ⟨hkept, hunshared⟩ := config_of_any_order Casing.ascii (some oneDatabase) none hnames hperm
  obtain ⟨hsame, hoff⟩ := hunshared oneDatabase_unshared
  refine ⟨hsame, by decide +kernel, fun w hw => ⟨hkept w hw, ?_⟩⟩
  rw [hoff w hw _ (by decide +kernel) (by decide +kernel)]
  rfl

/-- `{"db": pg, "replica": pg}`, one dict under two keys. -/
def oneDictTwice : Object Key (Atom Empty) :=
  ⟨0, [("db".toList, .dict 1 [("host".toList, .atom (.str ['h']))]),
    ("replica".toList, .dict 1 [("host".toList, .atom (.str ['h']))])]⟩

/-- Two variables that lead into one dict, by different paths. -/
def dbFirst : List (Key × List Char) :=
  [("APP_ENV".toList, ['t']), ("DB_HOST".toList, ['a']), ("REPLICA_HOST".toList, ['b'])]

def replicaFirst : List (Key × List Char) :=
  [("APP_ENV".toList, ['t']), ("REPLICA_HOST".toList, ['b']), ("DB_HOST".toList, ['a'])]

/-- One dict in two places takes the value that comes last, in both. -/
theorem shared_dict_takes_last :
    dbFirst.Perm replicaFirst ∧ (dbFirst.map fun e => Casing.ascii.lower e.1).Nodup ∧
      (loadConfig Casing.ascii (some oneDictTwice) none dbFirst).map
          (fun w => w.view [.key "db".toList, .key "host".toList]) = some (some (.leaf (.atom (.str ['b'])))) ∧
      (loadConfig Casing.ascii (some oneDictTwice) none replicaFirst).map
          (fun w => w.view [.key "db".toList, .key "host".toList]) = some (some (.leaf (.atom (.str ['a'])))) := by
  decide +kernel

end PyAppRunner.Config
