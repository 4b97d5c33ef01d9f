import PyAppRunner.Requests.Actions
import Mathlib.Data.List.Induction

/-! When no action of a guarded class runs without a user.

A guarded function is one whose marker says so (`unauthorized_of_authWrapped`). Guarding a
class leaves no action of it unguarded, and every class derived from a decorated one is
guarded when it is made: the hook of the decorated class is on the way through its
bases. Classes do not change afterwards, so what was found when a class was first asked for
its actions stays what there is, if it was asked after it was guarded. A hook that asks
before that has the actions found as they were, and found for good: whether they run
without a user is then for the functions themselves to say (`guarded_iff`). -/
namespace PyAppRunner.Requests
open Base

theorem findSome?_eq_of_forall {α β : Type} {f g : α → Option β} {as : List α} (h : ∀ a ∈ as, f a = g a) :
    as.findSome? f = as.findSome? g := by
  induction as with
  | nil => rfl
  | cons a rest ih =>
    rw [List.forall_mem_cons] at h
    rw [List.findSome?_cons, List.findSome?_cons, h.1, ih h.2]

/-! ### Functions -/

/-- An attribute that is no unguarded action. -/
def Attr.Safe (a : Attr) : Prop := ∀ f, a = .function f → f.actionName.isSome → f.authWrapped = true

/-- What is found under the name is safe, if anything is. -/
def SafeAt (classes : Classes) (c : Nat) (name : String) : Prop := ∀ a, getattr classes c name = some a → a.Safe

/-- A class of that place, which comes first in its own order, and only there. -/
def Own (classes : Classes) (c : Nat) : Prop := ∃ rest, mroOf classes c = c :: rest ∧ c ∉ rest ∧ c < classes.length

section
variable {classes : Classes} {c : Nat}

/-- Setting an attribute leaves the order of every class. -/
theorem mroOf_setattr (k : Nat) (name : String) (value : Attr) :
    mroOf (setattr classes c name value) k = mroOf classes k := by
  unfold mroOf setattr
  rw [List.getElem?_modify]
  cases classes[k]? with
  | none => rfl
  | some o =>
    simp only [Option.map_eq_map, Option.map_some]
    split <;> rfl

theorem Own.setattr (h : Own classes c) (name : String) (value : Attr) : Own (setattr classes c name value) c := by
  obtain ⟨rest, hmro, hnot, hlt⟩ := h
  refine ⟨rest, ?_, hnot, ?_⟩
  · rw [mroOf_setattr, hmro]
  · unfold Requests.setattr
    rw [List.length_modify]
    exact hlt

/-- What the guard puts in place is safe, whatever it wraps. -/
theorem safe_authenticated (name : String) (f : Fn) : (Attr.function (.tagged name (.authenticated f))).Safe := by
  intro g hg _
  cases hg
  rfl

/-- For a name, guarding either finds nothing to guard or sets a guarded function. -/
theorem guardAction_cases (classes : Classes) (c : Nat) (name : String) :
    (guardAction c classes name = classes ∧ SafeAt classes c name) ∨
      ∃ value : Attr, value.Safe ∧ guardAction c classes name = setattr classes c name value := by
  unfold guardAction SafeAt
  cases hget : getattr classes c name with
  | none => exact .inl ⟨rfl, fun a ha => by cases ha⟩
  | some a =>
    cases a with
    | other =>
      refine .inl ⟨rfl, ?_⟩
      intro a ha f hf
      cases ha
      cases hf
    | function f =>
      dsimp only
      cases haction : f.actionName with
      | none =>
        refine .inl ⟨rfl, ?_⟩
        intro a ha g hg hsome
        cases ha
        cases hg
        rw [haction] at hsome
        cases hsome
      | some actionName =>
        dsimp only
        split
        · next hguarded =>
          refine .inl ⟨rfl, ?_⟩
          intro a ha g hg _
          cases ha
          cases hg
          exact hguarded
        · exact .inr ⟨_, safe_authenticated actionName f, rfl⟩

theorem Own.guardAction (h : Own classes c) (name : String) : Own (guardAction c classes name) c := by
  obtain ⟨heq, -⟩ | ⟨value, -, heq⟩ := guardAction_cases classes c name
  · rw [heq]
    exact h
  · rw [heq]
    exact h.setattr name value

/-- A class without an unguarded action. -/
def Safe (classes : Classes) (c : Nat) : Prop := ∀ name, SafeAt classes c name

/-- Nothing but the attributes of the class at that place is another. -/
structure Touched (c : Nat) (before after : Classes) : Prop where
  length : after.length = before.length
  others : ∀ k, k ≠ c → after[k]? = before[k]?
  own : ∀ o, before[c]? = some o → ∃ attrs, after[c]? = some {o with attrs}

theorem Touched.refl (c : Nat) (classes : Classes) : Touched c classes classes :=
  ⟨rfl, fun _ _ => rfl, fun o ho => ⟨o.attrs, ho⟩⟩

theorem Touched.trans {c : Nat} {a b d : Classes} (h : Touched c a b) (h' : Touched c b d) : Touched c a d where
  length := h'.length.trans h.length
  others k hk := (h'.others k hk).trans (h.others k hk)
  own o ho := by
    obtain ⟨attrs, hb⟩ := h.own o ho
    obtain ⟨attrs', hd⟩ := h'.own _ hb
    exact ⟨attrs', hd⟩

/-- `require_auth_for_actions` was applied to the class. -/
def Decorated (classes : Classes) (d : Nat) : Prop := ∃ own, (classes[d]?).bind ClassObj.hook = some (.guarding own)

/-- The hook of the class guards what is derived from it. -/
def guardsAt (classes : Classes) (k : Nat) : Bool := ((classes[k]?).bind ClassObj.hook).any Hook.guards

/-- What lookups read of a class. -/
def view (classes : Classes) (k : Nat) : Option (List Nat × Dict String Attr) :=
  (classes[k]?).map fun o => (o.mro, o.attrs)

/-- The class and those it is derived from read the same. -/
def SameView (classes classes' : Classes) (c : Nat) : Prop :=
  view classes' c = view classes c ∧ ∀ k ∈ mroOf classes c, view classes' k = view classes k

/-- The order of a class is read off its view. -/
theorem mroOf_eq (classes : Classes) (c : Nat) : mroOf classes c = ((view classes c).map Prod.fst).getD [] := by
  unfold mroOf view
  cases classes[c]? <;> rfl

theorem SameView.mroOf {classes' : Classes} (h : SameView classes classes' c) : mroOf classes' c = mroOf classes c := by
  rw [mroOf_eq, h.1, ← mroOf_eq]

theorem SameView.getattr {classes' : Classes} (h : SameView classes classes' c) (name : String) :
    getattr classes' c name = getattr classes c name := by
  have hview (classes : Classes) (k : Nat) :
      ((classes[k]?).bind fun o => o.attrs.get name) = (view classes k).bind fun v => v.2.get name := by
    unfold view
    cases classes[k]? <;> rfl
  unfold Requests.getattr
  rw [h.mroOf]
  apply findSome?_eq_of_forall
  intro k hk
  rw [hview, hview, h.2 k hk]

theorem SameView.dir {classes' : Classes} (h : SameView classes classes' c) : dir classes' c = dir classes c := by
  have hview (classes : Classes) (k : Nat) :
      namesOf classes k = ((view classes k).map fun v => v.2.entries.map Prod.fst).getD [] := by
    unfold namesOf view
    cases classes[k]? <;> rfl
  have hnames : (Requests.mroOf classes c).flatMap (namesOf classes') =
      (Requests.mroOf classes c).flatMap (namesOf classes) := by
    apply List.flatMap_congr
    intro k hk
    rw [hview, hview, h.2 k hk]
  unfold Requests.dir
  rw [h.mroOf, hnames]

theorem SameView.safe {classes' : Classes} (h : SameView classes classes' c) (hsafe : Safe classes c) :
    Safe classes' c := by
  intro name a ha
  rw [h.getattr] at ha
  exact hsafe name a ha

theorem SameView.scanActions {classes' : Classes} (h : SameView classes classes' c) :
    scanActions classes' c = scanActions classes c := by
  unfold Requests.scanActions
  rw [h.dir]
  congr 1
  funext registry name
  unfold scanName
  rw [h.getattr]

end

/-! ### Reachable classes -/

/-- Bases come before what is derived from them and are in its order, and who is derived from a
decorated class has no unguarded action. -/
structure Sound (classes : Classes) : Prop where
  order : ∀ c o, classes[c]? = some o → ∃ rest, o.mro = c :: rest ∧ (∀ k ∈ rest, k < c) ∧
    ∀ b ∈ o.bases, b < c ∧ ∀ k ∈ mroOf classes b, k ∈ o.mro
  safe : ∀ c, (∃ d ∈ mroOf classes c, Decorated classes d) → Safe classes c

section
variable {before after : Classes}

/-- The order of a new class. -/
structure Placed (before : Classes) (o : ClassObj) (rest : List Nat) : Prop where
  mro : o.mro = before.length :: rest
  earlier : ∀ k ∈ rest, k < before.length
  bases : ∀ b ∈ o.bases, b < before.length ∧ ∀ k ∈ mroOf before b, k ∈ o.mro
  hook : ∀ own, o.hook ≠ some (.guarding own)

theorem Placed.own {o : ClassObj} {rest : List Nat} (h : Placed before o rest) : Own (before ++ [o]) before.length := by
  refine ⟨rest, ?_, fun hmem => Nat.lt_irrefl _ (h.earlier _ hmem), by simp⟩
  unfold mroOf
  rw [List.getElem?_concat_length]
  exact h.mro

end

/-! ### What the hooks find -/

section
variable {s : State} {c : Nat}

/-- When the class's own hook reads. -/
def readsAt (classes : Classes) (k : Nat) : Reads :=
  (((classes[k]?).bind ClassObj.hook).bind Hook.reads).getD ⟨false, false⟩

/-- A hook on the way reads the actions of the new class before anything has guarded it. -/
def readsEarly (classes : Classes) : List Nat → Bool
  | [] => false
  | k :: rest => (readsAt classes k).before || readsEarly classes rest ||
    (readsAt classes k).after && !rest.any (guardsAt classes)

/-- What the hooks have found of the new class: what there was before the guards, if one read so
early, and else what there is now, behind them. -/
structure Found (c : Nat) (rest : List Nat) (s s' : State) : Prop where
  early : readsEarly s.classes rest = true → s'.actionRegistry.get c = some (scanActions s.classes c)
  late : readsEarly s.classes rest = false → ∀ r, s'.actionRegistry.get c = some r →
    r = scanActions s'.classes c ∧ Safe s'.classes c

end

/-! ### What is found under a name -/

/-- The name and the body of an action. -/
def Attr.action : Attr → Option (String × Nat)
  | .function f => f.actionName.map fun name => (name, f.body)
  | .other => none

section
variable {classes classes' : Classes} {c : Nat}

end

/-! ### Requests -/

/-- What was found of the class, if it was asked for, is what there is. -/
def Current (c : Nat) (s : State) : Prop :=
  c < s.classes.length ∧ ∀ r, s.actionRegistry.get c = some r → r = scanActions s.classes c

section
variable {s : State} {c : Nat}

/-- What `require_auth_for_actions` promises of a request, where this action is the one: its body runs
for a user, and for nobody else. -/
def answer (user : Bool) : Option Fn → Outcome
  | none => .unknownAction
  | some f => if user then .ran f.body else .unauthorized

/-- The run comes to a statement that makes this class, with these classes there. -/
def Makes (inputs : List Input) (classes : Classes) (o : ClassObj) (c : Nat) : Prop :=
  ∃ before stmt after, inputs = before ++ .define stmt :: after ∧ (handlers.run start before).classes = classes ∧
    classOf stmt classes = some o ∧ classes.length = c

end

end PyAppRunner.Requests
