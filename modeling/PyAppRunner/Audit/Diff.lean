import Mathlib.Data.List.Basic

/-! What an audit event shows of a change: a row before and after, and redaction.

Values are whatever the database driver returns and callers pass; when two of them are
the same stored content (`same`) is given with them. `none` is `None`. -/
namespace PyAppRunner.Audit

/-- A `dict` from column names, in order. No key occurs twice. -/
abbrev Dict (V : Type) := List (String × Option V)

/-- What is known of the values: `diff.same`, `str`, `REDACTED`, and `str.lower`. -/
structure Values (V : Type) where
  same : Option V → Option V → Bool
  str : V → String
  redacted : V
  lower : String → String

variable {V : Type}

/-- `dict.get`: `None` for a key that is not there. -/
def Dict.get (d : Dict V) (key : String) : Option V := (d.lookup key).join

variable (py : Values V)

/-- A column is matched in any letter case. -/
def isExcluded (exclude : List String) (key : String) : Bool := decide (py.lower key ∈ exclude.map py.lower)

/-- `mask`: the key stays, the value is withheld. -/
def mask (values : Dict V) (exclude : List String) : Dict V :=
  if exclude.isEmpty then values
  else values.map fun kv => (kv.1, if isExcluded py exclude kv.1 then some py.redacted else kv.2)

/-- The columns of `after` that say something else than `before` does. -/
def differing (before after : Dict V) : Dict V := after.filter fun kv => !py.same (before.get kv.1) kv.2

/-- `between`: old and new values, only of what changed. -/
def between (before after : Option (Dict V)) (exclude : List String) : Option (Dict V) × Option (Dict V) :=
  let exclude := exclude.map py.lower
  match before, after with
  | none, none => (none, none)
  | none, some after => (none, some (mask py after exclude))
  | some before, none => (some (mask py before exclude), none)
  | some before, some after =>
    let changed := differing py before after
    if changed.isEmpty then (none, none)
    else
      (some (changed.map fun kv => (kv.1, if isExcluded py exclude kv.1 then some py.redacted else before.get kv.1)),
        some (changed.map fun kv => (kv.1, if isExcluded py exclude kv.1 then some py.redacted else kv.2)))

/-- What an update shows of the row it replaces: the old values of the columns that change. -/
def replaced (before after : Dict V) : Dict V := (differing py before after).map fun kv => (kv.1, before.get kv.1)

/-- An update that changes nothing has nothing to show, any other has the old values. -/
theorem between_update (before after : Dict V) :
    (differing py before after = [] → between py (some before) (some after) [] = (none, none)) ∧
    (differing py before after ≠ [] → between py (some before) (some after) [] =
      (some (replaced py before after), some (differing py before after))) := by
  refine ⟨?_, ?_⟩
  · intro hnone
    simp [between, hnone]
  · intro hsome
    simp [between, hsome, replaced, isExcluded]

theorem between_delete (before : Dict V) : between py (some before) none [] = (some before, none) := by
  simp [between, mask]

end PyAppRunner.Audit
