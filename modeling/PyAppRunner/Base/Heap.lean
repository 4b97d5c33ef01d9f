import Mathlib.Logic.Function.Basic

/-! Objects under addresses that are never given out twice.

What a piece of code does to objects is said by what it leaves alone: `Grown free h h'`
says that everything in `h` is in `h'` as it was, except perhaps where `free` holds,
and that all else in `h'` is new. -/
namespace PyAppRunner.Base

/-- Objects by their identity. Identities are given out in order and never used again. -/
structure Heap (ω : Type) where
  /-- The next address to be given out. -/
  next : Nat
  obj : Nat → Option ω
  fresh : ∀ a, next ≤ a → obj a = none

namespace Heap
variable {ω : Type} {h h' h'' : Heap ω} {free free' : Nat → Prop}

/-- The first objects, one after the other. -/
def ofList (objs : List ω) : Heap ω where
  next := objs.length
  obj a := objs[a]?
  fresh _ ha := List.getElem?_eq_none ha

/-- A new object, with the next identity. -/
def alloc (o : ω) (h : Heap ω) : Heap ω where
  next := h.next + 1
  obj := Function.update h.obj h.next (some o)
  fresh := by
    intro a ha
    rw [Function.update_of_ne (by omega)]
    exact h.fresh a (by omega)

/-- Where there is no object nothing is written. -/
def write (a : Nat) (o : ω) (h : Heap ω) : Heap ω where
  next := h.next
  obj := fun b => if b = a ∧ b < h.next then some o else h.obj b
  fresh := by
    intro b hb
    rw [if_neg (by omega)]
    exact h.fresh b hb

theorem lt_next {a : Nat} {o : ω} (hobj : h.obj a = some o) : a < h.next := by
  by_contra hle
  rw [h.fresh a (by omega)] at hobj
  cases hobj

/-- From `h` to `h'` only what is `free` has changed. -/
structure Grown (free : Nat → Prop) (h h' : Heap ω) : Prop where
  next : h.next ≤ h'.next
  kept : ∀ a, a < h.next → ¬ free a → h'.obj a = h.obj a

theorem Grown.refl : Grown free h h := ⟨Nat.le_refl _, fun _ _ _ => rfl⟩

theorem Grown.trans (hg : Grown free h h') (hg' : Grown free h' h'') : Grown free h h'' := by
  refine ⟨Nat.le_trans hg.next hg'.next, ?_⟩
  intro a ha hfree
  rw [hg'.kept a (Nat.lt_of_lt_of_le ha hg.next) hfree]
  exact hg.kept a ha hfree

theorem Grown.imp (hg : Grown free h h') (himp : ∀ b, b < h.next → free b → free' b) : Grown free' h h' :=
  ⟨hg.next, fun b hb hfree => hg.kept b hb fun hf => hfree (himp b hb hf)⟩

theorem obj_alloc_of_lt {a : Nat} (ha : a < h.next) (o : ω) : (h.alloc o).obj a = h.obj a :=
  Function.update_of_ne (Nat.ne_of_lt ha) _ _

theorem grown_alloc (o : ω) : Grown free h (h.alloc o) :=
  ⟨Nat.le_succ _, fun _ ha _ => obj_alloc_of_lt ha o⟩

theorem obj_alloc (o : ω) : (h.alloc o).obj h.next = some o := Function.update_self ..

theorem grown_write {a : Nat} (o : ω) (hfree : free a) : Grown free h (h.write a o) := by
  refine ⟨Nat.le_refl _, ?_⟩
  intro b _ hb
  show (if b = a ∧ b < h.next then some o else h.obj b) = h.obj b
  rw [if_neg]
  rintro ⟨rfl, -⟩
  exact hb hfree

theorem obj_write {a : Nat} {o o' : ω} (hobj : h.obj a = some o') : (h.write a o).obj a = some o := by
  show (if a = a ∧ a < h.next then some o else h.obj a) = some o
  rw [if_pos ⟨rfl, lt_next hobj⟩]

end Heap

end PyAppRunner.Base
