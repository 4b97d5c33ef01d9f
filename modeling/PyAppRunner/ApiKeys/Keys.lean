import PyAppRunner.Base.Text

/-! API keys: the parts of a key, its record, and what it may be used for. -/
namespace PyAppRunner.ApiKeys
open Base

/-- A row of the key table. `disabled` is whether `disabled_at` is set. -/
structure KeyRecord where
  id : Nat
  keyStem : String
  secretHash : String
  abilities : List String
  userId : Option Nat
  disabled : Bool
  expiresAt : Option Int
  allowedIps : Option (List String)
deriving DecidableEq

/-- The user the key acts as: no id is `0`. -/
def KeyRecord.actsAs (r : KeyRecord) : Option Nat := r.userId.filter (· ≠ 0)

/-- `split_key`: what is before and after the first dot, both not empty. -/
def splitKey (key : String) : Option (String × String) :=
  let before := key.toList.takeWhile (· ≠ '.')
  match key.toList.dropWhile (· ≠ '.') with
  | [] => none
  | _ :: secret =>
    if before = [] || secret = [] then none else some (String.ofList before, String.ofList secret)

/-- Without a date a key never expires. -/
def expired (expiresAt : Option Int) (now : Int) : Bool :=
  match expiresAt with
  | none => false
  | some t => t ≤ now

/-- `str.replace('-', '_')`. -/
def underscored (s : List Char) : List Char := s.map fun c => if c = '-' then '_' else c

/-- The service and the action of `service:action`. -/
def partition (ability : String) : List Char × List Char :=
  (ability.toList.takeWhile (· ≠ ':'), (ability.toList.dropWhile (· ≠ ':')).drop 1)

/-- Whether what is granted covers the ability. -/
def abilityAllows (granted : List String) (ability : String) : Bool :=
  let service := underscored (partition ability).1
  let action := (partition ability).2
  granted.any fun item => item = "*" || item = String.ofList (service ++ ':' :: action) ||
    item = String.ofList (service ++ [':', '*'])

end PyAppRunner.ApiKeys
