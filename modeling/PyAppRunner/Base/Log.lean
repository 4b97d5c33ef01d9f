import Mathlib.Data.List.Basic

/-! Logs that only grow, and the most recent record under a key.

A record is named by its position in the log, so two records with the same
contents are still two. -/
namespace PyAppRunner.Base
variable {α κ : Type} {key : α → κ} {log : List α} {k : κ} {n m : Nat} {x y : α}

/-- Position `n` holds `x`, which is under `k`, and no later record is. -/
structure Latest (key : α → κ) (log : List α) (k : κ) (n : Nat) (x : α) : Prop where
  get : log[n]? = some x
  under : key x = k
  last : ∀ m y, n < m → log[m]? = some y → key y ≠ k

theorem getElem?_append_singleton : (log ++ [x])[n]? = some y ↔
    log[n]? = some y ∨ n = log.length ∧ x = y := by
  rw [List.getElem?_append]
  split
  · rename_i hlt
    simp [Nat.ne_of_lt hlt]
  · rename_i hge
    rw [List.getElem?_singleton, List.getElem?_eq_none (by omega)]
    simp only [reduceCtorEq, false_or]
    by_cases hn : n = log.length
    · simp [hn]
    · simp [hn, show n - log.length ≠ 0 by omega]

/-- A record just added is the most recent under its key. -/
theorem Latest.append_self (key : α → κ) (log : List α) (x : α) :
    Latest key (log ++ [x]) (key x) log.length x := by
  refine ⟨getElem?_append_singleton.mpr (.inr ⟨rfl, rfl⟩), rfl, ?_⟩
  intro m y hm hy
  rcases getElem?_append_singleton.mp hy with hy | ⟨rfl, _⟩
  · have := (List.getElem?_eq_some_iff.mp hy).1
    omega
  · omega

/-- A record under another key changes nothing for `k`. -/
theorem Latest.append_other (h : Latest key log k n x) (hne : key y ≠ k) :
    Latest key (log ++ [y]) k n x := by
  refine ⟨getElem?_append_singleton.mpr (.inl h.get), h.under, ?_⟩
  intro m z hm hz
  rcases getElem?_append_singleton.mp hz with hz | ⟨_, rfl⟩
  · exact h.last m z hm hz
  · exact hne

theorem Latest.unique (h : Latest key log k n x) (h' : Latest key log k m y) : n = m ∧ x = y := by
  rcases Nat.lt_trichotomy n m with hlt | rfl | hlt
  · exact absurd h'.under (h.last m y hlt h'.get)
  · exact ⟨rfl, Option.some.inj (h.get.symm.trans h'.get)⟩
  · exact absurd h.under (h'.last n x hlt h.get)

end PyAppRunner.Base
