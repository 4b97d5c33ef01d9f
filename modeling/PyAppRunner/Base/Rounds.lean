import Mathlib.Data.List.Count
import Mathlib.Data.Nat.Find
import Mathlib.Logic.Function.Basic
import Mathlib.Order.Basic

/-! Looking for something in several lines, a few rounds at a time.

Whoever looks goes through a list of lines, in which a line may come up again. At each it
looks at the first `n` items, and throws away those that are no good; the first good one
ends the search. What should be found is the first good item of the first listed line that
has one. It is found if and only if the items in front of it run out soon enough (`InRounds`). -/
namespace PyAppRunner.Base.Rounds
variable {α κ : Type} [DecidableEq κ] (good : α → Bool) (n : Nat)

/-- What the search finds. -/
def pick (line : κ → List α) : List κ → Option α
  | [] => none
  | q :: rest =>
    match ((line q).take n).find? good with
    | some x => some x
    | none => pick (Function.update line q ((line q).drop n)) rest

/-- What it should find. -/
def first (line : κ → List α) (queues : List κ) : Option α := queues.findSome? fun q => (line q).find? good

/-- How many items stand in front of the first good one. -/
def ahead (line : κ → List α) (q : κ) : Option Nat := (line q).findIdx? good

/-- Of the first listed line with a good item, the items in front of that one are fewer than the rounds
it gets before another line's are: `n` each time it is listed. -/
def InRounds (ahead : κ → Option Nat) (queues : List κ) : Prop :=
  ∀ q m, queues.find? (fun q => (ahead q).isSome) = some q → ahead q = some m →
    ∃ i, queues[i]? = some q ∧ m < n * (queues.take (i + 1)).count q ∧
      ∀ j < i, ∀ q' m', queues[j]? = some q' → ahead q' = some m' → q' ≠ q → n * (queues.take (j + 1)).count q' ≤ m'

/-- The line the search ends at, after it has been at the lines `seen`. -/
def endsAt (ahead : κ → Option Nat) (seen : List κ) : List κ → Option κ
  | [] => none
  | q :: rest =>
    if ∃ m ∈ ahead q, m < n * (seen.count q + 1) then some q else endsAt ahead (q :: seen) rest

variable {good n}

theorem mem_of_pick {line : κ → List α} {queues : List κ} {x : α} (h : pick good n line queues = some x) :
    ∃ q, x ∈ line q := by
  induction queues generalizing line with
  | nil => cases h
  | cons q rest ih =>
    unfold pick at h
    split at h
    · rename_i y hy
      cases h
      exact ⟨q, List.mem_of_mem_take (List.mem_of_find?_eq_some hy)⟩
    · obtain ⟨q', hq'⟩ := ih h
      rw [Function.update_apply] at hq'
      split at hq'
      · exact ⟨q, List.mem_of_mem_drop hq'⟩
      · exact ⟨q', hq'⟩

omit [DecidableEq κ] in
theorem mem_of_first {line : κ → List α} {queues : List κ} {x : α} (h : first good line queues = some x) :
    ∃ q, x ∈ line q := by
  obtain ⟨q, -, hq⟩ := List.exists_of_findSome?_eq_some h
  exact ⟨q, List.mem_of_find?_eq_some hq⟩

/-! ### Where the search ends -/

theorem endsAt_eq_some {ahead : κ → Option Nat} {seen queues : List κ} {q : κ} : endsAt n ahead seen queues = some q ↔
    ∃ i m, queues[i]? = some q ∧ ahead q = some m ∧ m < n * (seen.count q + (queues.take (i + 1)).count q) ∧
      ∀ j < i, ∀ q' m', queues[j]? = some q' → ahead q' = some m' →
        n * (seen.count q' + (queues.take (j + 1)).count q') ≤ m' := by
  induction queues generalizing seen with
  | nil => simp [endsAt]
  | cons q₀ rest ih =>
    unfold endsAt
    split
    · rename_i hin
      obtain ⟨m₀, hm₀, hlt⟩ := hin
      constructor
      · intro heq
        cases heq
        refine ⟨0, m₀, rfl, hm₀, by simpa using hlt, ?_⟩
        intro j hj
        omega
      · rintro ⟨i, m, hi, hm, hlt', hbefore⟩
        cases i with
        | zero => simpa using hi
        | succ i =>
          have hle := hbefore 0 (Nat.succ_pos i) q₀ m₀ rfl hm₀
          simp at hle
          omega
    · rename_i hout
      -- The counts over the rest of the list are those over the whole list.
      have hcount : ∀ i q', (q₀ :: seen).count q' + (rest.take (i + 1)).count q' =
          seen.count q' + ((q₀ :: rest).take (i + 1 + 1)).count q' := by
        intro i q'
        rw [List.take_succ_cons, List.count_cons, List.count_cons]
        omega
      rw [ih]
      constructor
      · rintro ⟨i, m, hi, hm, hlt, hbefore⟩
        refine ⟨i + 1, m, hi, hm, by rw [← hcount]; exact hlt, ?_⟩
        intro j hj q' m' hq' hm'
        cases j with
        | zero =>
          cases hq'
          have hle : ¬ m' < n * (seen.count q₀ + 1) := fun hlt' => hout ⟨m', hm', hlt'⟩
          simpa using hle
        | succ j =>
          rw [← hcount]
          exact hbefore j (by omega) q' m' hq' hm'
      · rintro ⟨i, m, hi, hm, hlt, hbefore⟩
        cases i with
        | zero =>
          cases hi
          exact absurd ⟨m, hm, by simpa using hlt⟩ hout
        | succ i =>
          refine ⟨i, m, hi, hm, by rw [hcount]; exact hlt, ?_⟩
          intro j hj q' m' hq' hm'
          rw [hcount]
          exact hbefore (j + 1) (by omega) q' m' hq' hm'

/-- It ends at the first listed line that has something good, or at none if none has. -/
theorem inRounds_iff {ahead : κ → Option Nat} {queues : List κ} :
    InRounds n ahead queues ↔ endsAt n ahead [] queues = queues.find? fun q => (ahead q).isSome := by
  constructor
  · intro hin
    cases hfind : queues.find? fun q => (ahead q).isSome with
    | none =>
      rw [Option.eq_none_iff_forall_ne_some]
      intro q hq
      obtain ⟨i, m, hi, hm, -⟩ := endsAt_eq_some.mp hq
      have hnone := List.find?_eq_none.mp hfind q (List.mem_of_getElem? hi)
      rw [hm] at hnone
      exact hnone rfl
    | some q =>
      have hsome := List.find?_some hfind
      obtain ⟨m, hm⟩ := Option.isSome_iff_exists.mp hsome
      -- The first time the line is listed with enough rounds.
      obtain ⟨i, hi, hlt, hother⟩ := hin q m hfind hm
      have hex : ∃ i, queues[i]? = some q ∧ m < n * (queues.take (i + 1)).count q := ⟨i, hi, hlt⟩
      have hleast := Nat.find_spec hex
      refine endsAt_eq_some.mpr ⟨Nat.find hex, m, hleast.1, hm, by simpa using hleast.2, ?_⟩
      intro j hj q' m' hq' hm'
      rw [List.count_nil, Nat.zero_add]
      by_cases hq : q' = q
      · subst hq
        rw [hm] at hm'
        cases hm'
        have hnot := Nat.find_min hex hj
        rw [not_and, not_lt] at hnot
        exact hnot hq'
      · have hle : Nat.find hex ≤ i := Nat.find_min' hex ⟨hi, hlt⟩
        exact hother j (by omega) q' m' hq' hm' hq
  · intro hends q m hfind hm
    rw [hfind] at hends
    obtain ⟨i, m', hi, hm', hlt, hbefore⟩ := endsAt_eq_some.mp hends
    rw [hm] at hm'
    cases hm'
    rw [List.count_nil, Nat.zero_add] at hlt
    refine ⟨i, hi, hlt, ?_⟩
    intro j hj q' m' hq' hm' _
    have hle := hbefore j hj q' m' hq' hm'
    rwa [List.count_nil, Nat.zero_add] at hle

/-! ### What it finds there -/

/-- A look at a piece of the line behind items that are no good. -/
theorem find?_piece {l : List α} {d : Nat} (h : ∀ m ∈ l.findIdx? good, d ≤ m) :
    ((l.drop d).take n).find? good = if ∃ m ∈ l.findIdx? good, m < d + n then l.find? good else none := by
  split
  · rename_i hin
    obtain ⟨m, hm, hlt⟩ := hin
    have hle := h m hm
    obtain ⟨hlength, hgood, hbefore⟩ := List.findIdx?_eq_some_iff_getElem.mp hm
    have hfind : l.find? good = some l[m] :=
      List.find?_eq_some_iff_getElem.mpr ⟨hgood, m, hlength, rfl, fun j hj => by simpa using hbefore j hj⟩
    rw [hfind, List.find?_eq_some_iff_getElem]
    refine ⟨hgood, m - d, by simp; omega, by simp [Nat.add_sub_cancel' hle], ?_⟩
    intro j hj
    have hnot := hbefore (d + j) (by omega)
    simpa using hnot
  · rename_i hout
    rw [List.find?_eq_none]
    intro x hx hgood
    obtain ⟨i, hi, rfl⟩ := List.mem_iff_getElem.mp hx
    rw [List.length_take, List.length_drop] at hi
    rw [List.getElem_take, List.getElem_drop] at hgood
    cases hidx : l.findIdx? good with
    | none =>
      have hall := List.findIdx?_eq_none_iff.mp hidx
      have hno := hall _ (List.getElem_mem (by omega : d + i < l.length))
      rw [hgood] at hno
      cases hno
    | some m =>
      obtain ⟨_, _, hbefore⟩ := List.findIdx?_eq_some_iff_getElem.mp hidx
      have hfar : ¬ m < d + n := fun hlt => hout ⟨m, hidx, hlt⟩
      have hno := hbefore (d + i) (by omega)
      exact hno hgood

/-- The search finds the first good item of the line it ends at. -/
theorem pick_eq {line : κ → List α} (seen queues : List κ)
    (hseen : ∀ q, ∀ m ∈ ahead good line q, n * seen.count q ≤ m) :
    pick good n (fun q => (line q).drop (n * seen.count q)) queues =
      (endsAt n (ahead good line) seen queues).bind fun q => (line q).find? good := by
  induction queues generalizing seen with
  | nil => rfl
  | cons q rest ih =>
    have hpiece := find?_piece (n := n) (hseen q)
    unfold pick endsAt
    rw [hpiece]
    by_cases hin : ∃ m ∈ ahead good line q, m < n * (seen.count q + 1)
    · rw [if_pos hin]
      obtain ⟨m, hm, hlt⟩ := hin
      rw [if_pos ⟨m, hm, by rw [← Nat.mul_succ]; exact hlt⟩]
      have hsome : ((line q).find? good).isSome := by
        rw [List.find?_isSome]
        obtain ⟨hlength, hgood, -⟩ := List.findIdx?_eq_some_iff_getElem.mp hm
        exact ⟨_, List.getElem_mem hlength, hgood⟩
      obtain ⟨x, hx⟩ := Option.isSome_iff_exists.mp hsome
      rw [Option.bind_some, hx]
    · rw [if_neg hin, if_neg (by rw [← Nat.mul_succ]; exact hin)]
      have hline : Function.update (fun q => (line q).drop (n * seen.count q)) q
          (((line q).drop (n * seen.count q)).drop n) = fun q' => (line q').drop (n * (q :: seen).count q') := by
        funext q'
        rw [Function.update_apply, List.count_cons]
        split
        · rename_i heq
          subst heq
          rw [List.drop_drop]
          simp [Nat.mul_succ]
        · rename_i hne
          simp [Ne.symm hne]
      dsimp only
      rw [hline]
      apply ih
      intro q' m hm
      rw [List.count_cons]
      by_cases hq : q = q'
      · subst hq
        have hfar : ¬ m < n * (seen.count q + 1) := fun hlt => hin ⟨m, hm, hlt⟩
        simpa using hfar
      · simpa [hq] using hseen q' m hm

omit [DecidableEq κ] in
theorem isSome_ahead (line : κ → List α) (q : κ) : (ahead good line q).isSome = ((line q).find? good).isSome := by
  rw [Bool.eq_iff_iff, ahead, List.findIdx?_isSome, List.find?_isSome, List.any_eq_true]

omit [DecidableEq κ] in
theorem first_eq (line : κ → List α) (queues : List κ) : first good line queues =
    (queues.find? fun q => (ahead good line q).isSome).bind fun q => (line q).find? good := by
  induction queues with
  | nil => rfl
  | cons q rest ih =>
    rw [first, List.findSome?_cons, List.find?_cons, isSome_ahead]
    cases hfind : (line q).find? good with
    | none => exact ih
    | some x => exact hfind.symm

/-- **The search finds what it should** if and only if the items in front run out soon enough. -/
theorem pick_eq_first_iff {line : κ → List α} (hline : ∀ q q' x, x ∈ line q → x ∈ line q' → q = q') (queues : List κ) :
    pick good n line queues = first good line queues ↔ InRounds n (ahead good line) queues := by
  have hfresh : ∀ q, ∀ m ∈ ahead good line q, n * [].count q ≤ m := by simp
  have hpick := pick_eq [] queues hfresh
  simp only [List.count_nil, Nat.mul_zero, List.drop_zero] at hpick
  rw [inRounds_iff, hpick, first_eq]
  constructor
  · intro heq
    have hends : ∀ q, endsAt n (ahead good line) [] queues = some q → ((line q).find? good).isSome := by
      intro q hq
      obtain ⟨i, m, -, hm, -⟩ := endsAt_eq_some.mp hq
      rw [← isSome_ahead, hm]
      rfl
    have hfirst : ∀ q, queues.find? (fun q => (ahead good line q).isSome) = some q → ((line q).find? good).isSome := by
      intro q hq
      have hsome := List.find?_some hq
      rwa [isSome_ahead] at hsome
    cases he : endsAt n (ahead good line) [] queues with
    | none =>
      cases hf : queues.find? fun q => (ahead good line q).isSome with
      | none => rfl
      | some q =>
        rw [he, hf, Option.bind_none, Option.bind_some] at heq
        have hsome := hfirst q hf
        rw [← heq] at hsome
        cases hsome
    | some q =>
      obtain ⟨x, hx⟩ := Option.isSome_iff_exists.mp (hends q he)
      rw [he, Option.bind_some, hx] at heq
      obtain ⟨q', hf, hx'⟩ := Option.bind_eq_some_iff.mp heq.symm
      rw [hf, hline q q' x (List.mem_of_find?_eq_some hx) (List.mem_of_find?_eq_some hx')]
  · intro heq
    rw [heq]

end PyAppRunner.Base.Rounds
