import Mathlib.Data.Set.Function

/-! Locks by name.

Clients take and give back locks they know by name; a service answers them. What is
owed is small: a free lock is granted, one that another client holds is refused, and the
holder's release, or its end, frees it. That is said against the plainest service there
is, a table of holders, and a real one *keeps* the table when its state stands for one
(`Keeps`). What a service does when the holder asks again is left open: some count, some
refuse. -/
namespace PyAppRunner.Base

/-- A service that lends names to clients. -/
structure LockService (ν : Type) where
  State : Type
  init : State
  acquire : Nat → ν → State → Bool × State
  release : Nat → ν → State → State
  /-- The client is gone, with all that it held. -/
  close : Nat → State → State

/-- Who holds what. -/
abbrev Holders (ν : Type) := ν → Option Nat

namespace Holders
variable {ν : Type}

/-- Nobody holds anything. -/
def none : Holders ν := fun _ => Option.none

/-- One name gets a holder or loses it. -/
def set [DecidableEq ν] (h : Holders ν) (x : ν) (c : Option Nat) : Holders ν := fun y => if y = x then c else h y

/-- A client gives up all that it holds. -/
def without (h : Holders ν) (c : Nat) : Holders ν := fun y => if h y = some c then Option.none else h y

theorem without_of_forall_ne {h : Holders ν} {c : Nat} (hne : ∀ y, h y ≠ some c) : h.without c = h := by
  funext y
  exact if_neg (hne y)

variable [DecidableEq ν] (h : Holders ν) (x : ν)

@[simp] theorem set_self (c : Option Nat) : h.set x c x = c := if_pos rfl

theorem set_of_ne {y : ν} (c : Option Nat) (hne : y ≠ x) : h.set x c y = h y := if_neg hne

end Holders

/-- The service is a table of holders, for these names. -/
structure LockService.Keeps {ν : Type} [DecidableEq ν] (lock : LockService ν) (names : Set ν)
    (R : lock.State → Holders ν → Prop) : Prop where
  init : R lock.init .none
  granted : ∀ {s h x} (c : Nat), R s h → x ∈ names → h x = none →
    (lock.acquire c x s).1 = true ∧ R (lock.acquire c x s).2 (h.set x (some c))
  refused : ∀ {s h x} {c d : Nat}, R s h → x ∈ names → h x = some d → d ≠ c →
    (lock.acquire c x s).1 = false ∧ R (lock.acquire c x s).2 h
  released : ∀ {s h x} {c : Nat}, R s h → x ∈ names → h x = some c → R (lock.release c x s) (h.set x none)
  closed : ∀ {s h} (c : Nat), R s h → R (lock.close c s) (h.without c)

end PyAppRunner.Base
