import Mathlib.Data.List.Basic
import Mathlib.Data.List.Perm.Basic

/-! Values that are placed in a tree, one after another, each along a path of its own.

Levels that are missing are made, what is at the end of the path is replaced, and a leaf on the way
stops the placing. Two placings along different paths commute (`place_comm`), whatever the tree: a
path that runs through the end of another one finds a leaf there, or has it replaced afterwards. -/
namespace PyAppRunner.Base.Placing

/-- What may be at a path. -/
inductive Shape (ν : Type) where
  | level
  | leaf (v : ν)
deriving DecidableEq

/-- A tree, as what is at each path. -/
abbrev View (σ ν : Type) := List σ → Option (Shape ν)

variable {σ ν : Type}

namespace View

/-- What is under one step. -/
def sub (V : View σ ν) (s : σ) : View σ ν := fun q => V (s :: q)

/-- What is under a path. -/
def under (V : View σ ν) (p : List σ) : View σ ν := fun q => V (p ++ q)

theorem under_append (V : View σ ν) (p : List σ) (s : σ) : V.under (p ++ [s]) = (V.under p).sub s := by
  funext q
  exact congrArg V (List.append_assoc p [s] q)

/-- A level with nothing in it. -/
def bare : View σ ν
  | [] => some .level
  | _ :: _ => none

variable [DecidableEq σ]

/-- The tree with `U` under one step. -/
def graft (V : View σ ν) (s : σ) (U : View σ ν) : View σ ν
  | [] => V []
  | s' :: q => if s' = s then U q else V (s' :: q)

@[simp] theorem graft_nil (V : View σ ν) (s : σ) (U : View σ ν) : V.graft s U [] = V [] := rfl

@[simp] theorem graft_here (V : View σ ν) (s : σ) (U : View σ ν) (q : List σ) : V.graft s U (s :: q) = U q :=
  if_pos rfl

theorem graft_other (V : View σ ν) {s s' : σ} (h : s' ≠ s) (U : View σ ν) (q : List σ) :
    V.graft s U (s' :: q) = V (s' :: q) := if_neg h

@[simp] theorem sub_graft (V : View σ ν) (s : σ) (U : View σ ν) : (V.graft s U).sub s = U := by
  funext q
  exact graft_here V s U q

theorem sub_graft_other (V : View σ ν) {s s' : σ} (h : s' ≠ s) (U : View σ ν) : (V.graft s U).sub s' = V.sub s' := by
  funext q
  exact graft_other V h U q

@[simp] theorem graft_graft (V : View σ ν) (s : σ) (U U' : View σ ν) : (V.graft s U).graft s U' = V.graft s U' := by
  funext q
  cases q with
  | nil => rfl
  | cons s' q =>
    by_cases h : s' = s
    · rw [h, graft_here, graft_here]
    · rw [graft_other _ h, graft_other _ h, graft_other _ h]

theorem graft_comm (V : View σ ν) {s s' : σ} (h : s ≠ s') (U U' : View σ ν) :
    (V.graft s U).graft s' U' = (V.graft s' U').graft s U := by
  funext q
  cases q with
  | nil => rfl
  | cons t q =>
    by_cases hs : t = s
    · rw [hs, graft_here, graft_other _ h, graft_here]
    · by_cases hs' : t = s'
      · rw [hs', graft_here, graft_other _ h.symm, graft_here]
      · rw [graft_other _ hs', graft_other _ hs, graft_other _ hs, graft_other _ hs']

/-- A tree that differs under one place only, seen from above that place. -/
theorem under_of_step {V V' : View σ ν} {p : List σ} {s : σ} {U : View σ ν} (hhere : V'.under (p ++ [s]) = U)
    (helse : ∀ q, ¬ (p ++ [s]).IsPrefix q → V' q = V q) :
    V'.under p = (V.under p).graft s U ∧ ∀ q, ¬ p.IsPrefix q → V' q = V q := by
  constructor
  · funext q
    cases q with
    | nil =>
      refine helse (p ++ []) fun hpre => ?_
      have := hpre.length_le
      rw [List.append_nil, List.length_append, List.length_singleton] at this
      omega
    | cons t q =>
      by_cases h : t = s
      · rw [h, graft_here, ← hhere, under_append]
        rfl
      · rw [graft_other _ h]
        refine helse (p ++ t :: q) fun hpre => h ?_
        exact (List.cons_prefix_cons.mp ((List.prefix_append_right_inj p).mp hpre)).1.symm
  · exact fun q hq => helse q fun hpre => hq ((List.prefix_append p [s]).trans hpre)

end View

/-- Under what is not there, there is nothing. -/
def Grown (V : View σ ν) : Prop := ∀ p q, V p = none → V (p ++ q) = none

theorem Grown.sub {V : View σ ν} (h : Grown V) (s : σ) : Grown (V.sub s) := fun p q => h (s :: p) q

theorem grown_bare : Grown (View.bare : View σ ν) := by
  intro p q hp
  cases p with
  | nil => cases hp
  | cons s p => rfl

/-- A view of what is placed: a leaf, with what may be in it. -/
def Whole (X : View σ ν) : Prop := ∃ v, X [] = some (.leaf v)

/-- What is placed counts as there. -/
def Counts (missing : ν → Bool) (X : View σ ν) : Prop := ∃ v, X [] = some (.leaf v) ∧ missing v = false

theorem Counts.whole {missing : ν → Bool} {x : View σ ν} (h : Counts missing x) : Whole x := ⟨h.choose, h.choose_spec.1⟩

section Place

variable [DecidableEq σ]

/-- Without a value to place the levels on the way are made all the same. -/
def place (X : Option (View σ ν)) : List σ → View σ ν → View σ ν
  | [], V => V
  | [s], V =>
    match X with
    | some x => V.graft s x
    | none => V
  | s :: s' :: rest, V =>
    match V [s] with
    | none => V.graft s (place X (s' :: rest) View.bare)
    | some .level => V.graft s (place X (s' :: rest) (V.sub s))
    | some (.leaf _) => V

variable {X Y : Option (View σ ν)}

theorem place_through {V : View σ ν} {s s' : σ} {rest : List σ} (h : V [s] = some .level) :
    place X (s :: s' :: rest) V = V.graft s (place X (s' :: rest) (V.sub s)) := by
  rw [place, h]

theorem place_made {V : View σ ν} {s s' : σ} {rest : List σ} (h : V [s] = none) :
    place X (s :: s' :: rest) V = V.graft s (place X (s' :: rest) View.bare) := by
  rw [place, h]

theorem place_stopped {V : View σ ν} {s s' : σ} {rest : List σ} {v : ν} (h : V [s] = some (.leaf v)) :
    place X (s :: s' :: rest) V = V := by
  rw [place, h]

/-- The other tree of a placing through a step is under that step. -/
theorem place_cases (V : View σ ν) (s s' : σ) (rest : List σ) :
    (∃ U, place X (s :: s' :: rest) V = V.graft s U) ∨ place X (s :: s' :: rest) V = V := by
  cases hs : V [s] with
  | none => exact .inl ⟨_, place_made hs⟩
  | some shape =>
    cases shape with
    | level => exact .inl ⟨_, place_through hs⟩
    | leaf v => exact .inr (place_stopped hs)

@[simp] theorem place_root (p : List σ) (V : View σ ν) : place X p V [] = V [] := by
  match p with
  | [] => rfl
  | [s] => cases X <;> rfl
  | s :: s' :: rest =>
    obtain ⟨U, h⟩ | h := place_cases (X := X) V s s' rest
    · rw [h, View.graft_nil]
    · rw [h]

/-- Only what is under the first step of the path changes. -/
theorem place_other {V : View σ ν} {s t : σ} (p q : List σ) (h : t ≠ s) : place X (s :: p) V (t :: q) = V (t :: q) := by
  cases p with
  | nil =>
    cases X with
    | none => rfl
    | some x => exact View.graft_other V h x q
  | cons s' rest =>
    obtain ⟨U, hU⟩ | hU := place_cases (X := X) V s s' rest
    · rw [hU, View.graft_other V h]
    · rw [hU]

/-- How a placing goes does not depend on what is under the other steps. -/
theorem place_graft_comm {V U : View σ ν} {s t : σ} (p : List σ) (h : t ≠ s) :
    place X (s :: p) (V.graft t U) = (place X (s :: p) V).graft t U := by
  cases p with
  | nil =>
    cases X with
    | none => rfl
    | some x => exact View.graft_comm V h U x
  | cons s' rest =>
    have hat : V.graft t U [s] = V [s] := View.graft_other V h.symm U []
    have hsub : (V.graft t U).sub s = V.sub s := View.sub_graft_other V h.symm U
    cases hs : V [s] with
    | none => rw [place_made (hat.trans hs), place_made hs, View.graft_comm V h]
    | some shape =>
      cases shape with
      | level => rw [place_through (hat.trans hs), place_through hs, hsub, View.graft_comm V h]
      | leaf v => rw [place_stopped (hat.trans hs), place_stopped hs]

/-- A placing is the other tree under the first step of its path. -/
theorem place_eq_graft (s : σ) (p : List σ) (V : View σ ν) :
    place X (s :: p) V = V.graft s ((place X (s :: p) V).sub s) := by
  funext q
  cases q with
  | nil => exact place_root (s :: p) V
  | cons t q =>
    by_cases h : t = s
    · rw [h, View.graft_here]
      rfl
    · rw [place_other p q h, View.graft_other _ h]

/-- The end of one path lies on the other. -/
theorem place_end_comm {V : View σ ν} (hX : ∀ x, X = some x → Whole x) (s s' : σ) (rest : List σ) :
    place X [s] (place Y (s :: s' :: rest) V) = place Y (s :: s' :: rest) (place X [s] V) := by
  cases X with
  | none => rfl
  | some x =>
    obtain ⟨v, hv⟩ := hX x rfl
    have hat : V.graft s x [s] = some (.leaf v) := (View.graft_here V s x []).trans hv
    have hleft : place (some x) [s] (place Y (s :: s' :: rest) V) = V.graft s x := by
      rw [place_eq_graft s (s' :: rest) V]
      exact View.graft_graft V s _ x
    exact hleft.trans (place_stopped hat).symm

theorem place_comm (hX : ∀ x, X = some x → Whole x) (hY : ∀ y, Y = some y → Whole y) {p p' : List σ} (hne : p ≠ p')
    (V : View σ ν) : place X p (place Y p' V) = place Y p' (place X p V) := by
  induction p generalizing p' V with
  | nil => rfl
  | cons s rest ih =>
    cases p' with
    | nil => rfl
    | cons t rest' =>
      by_cases h : t = s
      · subst h
        cases rest with
        | nil =>
          cases rest' with
          | nil => exact absurd rfl hne
          | cons u rest' => exact place_end_comm hX t u rest'
        | cons u rest =>
          cases rest' with
          | nil => exact (place_end_comm hY t u rest).symm
          | cons u' rest' =>
            have hrest : u :: rest ≠ u' :: rest' := fun heq => hne (congrArg (t :: ·) heq)
            cases ht : V [t] with
            | none =>
              -- Whichever comes first makes the level, and the other one finds it.
              have hmade : ∀ (Z : Option (View σ ν)) (r : List σ), V.graft t (place Z r View.bare) [t] = some .level := by
                intro Z r
                rw [View.graft_here, place_root]
                rfl
              rw [place_made ht, place_made ht, place_through (hmade Y _), place_through (hmade X _), View.sub_graft,
                View.sub_graft, View.graft_graft, View.graft_graft, ih hrest]
            | some shape =>
              cases shape with
              | level =>
                have hkept : ∀ (Z : Option (View σ ν)) (r : List σ), V.graft t (place Z r (V.sub t)) [t] = some .level := by
                  intro Z r
                  rw [View.graft_here, place_root]
                  exact ht
                rw [place_through ht, place_through ht, place_through (hkept Y _), place_through (hkept X _),
                  View.sub_graft, View.sub_graft, View.graft_graft, View.graft_graft, ih hrest]
              | leaf v => rw [place_stopped ht, place_stopped ht, place_stopped ht]
      · rw [place_eq_graft t rest' V, place_graft_comm rest h, place_eq_graft t rest' (place X (s :: rest) V)]
        congr 1
        -- What is under the other first step is the same before and after.
        have hrestrict : place X (s :: rest) V = V.graft s ((place X (s :: rest) V).sub s) := place_eq_graft s rest V
        rw [hrestrict, place_graft_comm rest' (Ne.symm h), View.sub_graft_other _ h]

/-- A placing leaves what is neither on its path nor under its end. -/
theorem place_off_path (p q : List σ) {V : View σ ν} (hV : Grown V) (hp : ¬ p.IsPrefix q) (hq : ¬ q.IsPrefix p) :
    place X p V q = V q := by
  induction p generalizing q V with
  | nil => exact absurd List.nil_prefix hp
  | cons s rest ih =>
    cases q with
    | nil => exact absurd List.nil_prefix hq
    | cons t q =>
      by_cases h : t = s
      · subst h
        have hp' : ¬ rest.IsPrefix q := fun hpre => hp (List.cons_prefix_cons.mpr ⟨rfl, hpre⟩)
        have hq' : ¬ q.IsPrefix rest := fun hpre => hq (List.cons_prefix_cons.mpr ⟨rfl, hpre⟩)
        cases rest with
        | nil => exact absurd List.nil_prefix hp'
        | cons s' rest =>
          cases ht : V [t] with
          | none =>
            have hbare : View.bare q = (none : Option (Shape ν)) := by
              cases q with
              | nil => exact absurd List.nil_prefix hq'
              | cons u q => rfl
            rw [place_made ht, View.graft_here, ih q grown_bare hp' hq', hbare]
            exact (hV [t] q ht).symm
          | some shape =>
            cases shape with
            | level => rw [place_through ht, View.graft_here, ih q (hV.sub t) hp' hq', View.sub]
            | leaf v => rw [place_stopped ht]
      · exact place_other rest q h

/-! ### Placings that need a first step -/

/-- The placing is made only where there is something at the first step that counts as there. -/
def offer (missing : ν → Bool) (X : Option (View σ ν)) : List σ → View σ ν → View σ ν
  | [], V => V
  | s :: rest, V =>
    match V [s] with
    | none => V
    | some .level => place X (s :: rest) V
    | some (.leaf v) => if missing v then V else place X (s :: rest) V

/-- What is there at a step counts as there. -/
def Present (missing : ν → Bool) (V : View σ ν) (s : σ) : Prop :=
  V [s] = some .level ∨ ∃ v, V [s] = some (.leaf v) ∧ missing v = false

variable {missing : ν → Bool}

theorem offer_present {V : View σ ν} {s : σ} (rest : List σ) (h : Present missing V s) :
    offer missing X (s :: rest) V = place X (s :: rest) V := by
  obtain h | ⟨v, h, hv⟩ := h
  · simp only [offer, h]
  · simp only [offer, h, hv, Bool.false_eq_true, if_false]

theorem offer_absent {V : View σ ν} {s : σ} (rest : List σ) (h : ¬ Present missing V s) :
    offer missing X (s :: rest) V = V := by
  cases hs : V [s] with
  | none => simp only [offer, hs]
  | some shape =>
    cases shape with
    | level => exact absurd (.inl hs) h
    | leaf v =>
      cases hv : missing v with
      | true => simp only [offer, hs, hv, if_true]
      | false => exact absurd (.inr ⟨v, hs, hv⟩) h

theorem offer_off_path (p q : List σ) {V : View σ ν} (hV : Grown V) (hp : ¬ p.IsPrefix q) (hq : ¬ q.IsPrefix p) :
    offer missing X p V q = V q := by
  cases p with
  | nil => rfl
  | cons s rest =>
    by_cases h : Present missing V s
    · rw [offer_present rest h, place_off_path (s :: rest) q hV hp hq]
    · rw [offer_absent rest h]

/-- A placing neither brings a first step nor takes one away. -/
theorem present_place {V : View σ ν} {s t : σ} (hX : ∀ x, X = some x → Counts missing x) (rest : List σ)
    (hs : Present missing V s) : Present missing (place X (s :: rest) V) t ↔ Present missing V t := by
  by_cases h : t = s
  · subst h
    refine iff_of_true ?_ hs
    cases rest with
    | nil =>
      cases X with
      | none => exact hs
      | some x =>
        obtain ⟨v, hv, hmissing⟩ := hX x rfl
        exact .inr ⟨v, (View.graft_here V t x []).trans hv, hmissing⟩
    | cons s' rest =>
      obtain hlevel | ⟨v, hleaf, hmissing⟩ := hs
      · left
        rw [place_through hlevel, View.graft_here, place_root]
        exact hlevel
      · rw [place_stopped hleaf]
        exact .inr ⟨v, hleaf, hmissing⟩
  · rw [Present, Present, place_other rest [] h]

theorem offer_comm (hX : ∀ x, X = some x → Counts missing x) (hY : ∀ y, Y = some y → Counts missing y) {p p' : List σ}
    (hne : p ≠ p') (V : View σ ν) :
    offer missing X p (offer missing Y p' V) = offer missing Y p' (offer missing X p V) := by
  cases p with
  | nil => rfl
  | cons s rest =>
    cases p' with
    | nil => rfl
    | cons t rest' =>
      by_cases hs : Present missing V s
      · by_cases ht : Present missing V t
        · rw [offer_present rest' ht, offer_present rest hs, offer_present rest ((present_place hY rest' ht).mpr hs),
            offer_present rest' ((present_place hX rest hs).mpr ht)]
          exact place_comm (fun x hx => (hX x hx).whole) (fun y hy => (hY y hy).whole) hne V
        · rw [offer_absent rest' ht, offer_present rest hs,
            offer_absent rest' (fun h => ht ((present_place hX rest hs).mp h))]
      · rw [offer_absent rest hs]
        by_cases ht : Present missing V t
        · rw [offer_present rest' ht, offer_absent rest (fun h => hs ((present_place hY rest' ht).mp h))]
        · rw [offer_absent rest' ht, offer_absent rest hs]

end Place

end PyAppRunner.Base.Placing
