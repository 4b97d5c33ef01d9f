import PyAppRunner.Base.Text

/-! Counting the pieces of a list that hold something.

Separators cut a list into pieces, and a piece counts when it holds a mark. With fewer
separators there are fewer pieces, unless between two marks that a separator parts one of
the fewer always stands too (`Parted`). -/
namespace PyAppRunner.Base

section
variable {α : Type} {sep mark coarse : α → Bool}

/-- How many of the pieces hold a mark; the flag says whether the piece the list starts in
already does. -/
def pieces (sep mark : α → Bool) : Bool → List α → Nat
  | seen, [] => seen.toNat
  | seen, x :: rest => if sep x then seen.toNat + pieces sep mark false rest else pieces sep mark (seen || mark x) rest

theorem pieces_sep {x : α} (hx : sep x = true) (seen : Bool) (rest : List α) :
    pieces sep mark seen (x :: rest) = seen.toNat + pieces sep mark false rest := by
  rw [pieces, if_pos hx]

theorem pieces_other {x : α} (hx : sep x = false) (seen : Bool) (rest : List α) :
    pieces sep mark seen (x :: rest) = pieces sep mark (seen || mark x) rest := by
  rw [pieces, if_neg (by simp [hx])]

/-- A separator parts the count. -/
theorem pieces_append_sep {x : α} (hx : sep x = true) (seen : Bool) (left right : List α) :
    pieces sep mark seen (left ++ x :: right) = pieces sep mark seen left + pieces sep mark false right := by
  induction left generalizing seen with
  | nil => rw [List.nil_append, pieces_sep hx, pieces]
  | cons y rest ih =>
    rw [List.cons_append]
    cases hy : sep y with
    | true =>
      rw [pieces_sep hy, pieces_sep hy, ih]
      omega
    | false => rw [pieces_other hy, pieces_other hy, ih]

theorem pieces_pos_of_seen (l : List α) : 1 ≤ pieces sep mark true l := by
  induction l with
  | nil => exact Nat.le_refl 1
  | cons x rest ih =>
    cases hx : sep x with
    | true =>
      rw [pieces_sep hx, Bool.toNat_true]
      omega
    | false =>
      rw [pieces_other hx, Bool.true_or]
      exact ih

theorem pieces_pos_of_mark {x : α} (hx : sep x = false) (hmark : mark x = true) (seen : Bool) (left right : List α) :
    1 ≤ pieces sep mark seen (left ++ x :: right) := by
  induction left generalizing seen with
  | nil =>
    rw [List.nil_append, pieces_other hx, hmark, Bool.or_true]
    exact pieces_pos_of_seen right
  | cons y rest ih =>
    rw [List.cons_append]
    cases hy : sep y with
    | true =>
      rw [pieces_sep hy]
      have := ih false
      omega
    | false =>
      rw [pieces_other hy]
      exact ih _

theorem pieces_map {β : Type} (f : β → α) (seen : Bool) (l : List β) :
    pieces sep mark seen (l.map f) = pieces (sep ∘ f) (mark ∘ f) seen l := by
  induction l generalizing seen with
  | nil => rfl
  | cons x rest ih =>
    rw [List.map_cons, pieces, pieces, ih, ih]
    rfl

/-! ### Fewer separators -/

/-- Between two marks that a separator parts there is one of the coarse separators. -/
def Parted (sep coarse mark : α → Bool) (l : List α) : Prop :=
  ∀ before one between two after, l = before ++ one :: (between ++ two :: after) →
    mark one = true → mark two = true → (∃ x ∈ between, sep x = true) → ∃ x ∈ between, coarse x = true

/-- From here to the next mark there is a coarse separator, if `always` or if there is a separator. -/
def Ahead (sep coarse mark : α → Bool) (always : Bool) (l : List α) : Prop :=
  ∀ between two after, l = between ++ two :: after → mark two = true →
    (always = true ∨ ∃ x ∈ between, sep x = true) → ∃ x ∈ between, coarse x = true

theorem Parted.tail {x : α} {rest : List α} (h : Parted sep coarse mark (x :: rest)) : Parted sep coarse mark rest := by
  intro before one between two after heq
  exact h (x :: before) one between two after (by rw [heq, List.cons_append])

theorem Parted.ahead {x : α} {rest : List α} (h : Parted sep coarse mark (x :: rest)) (hx : mark x = true) :
    Ahead sep coarse mark false rest := by
  intro between two after heq htwo hsep
  obtain hfalse | hsep := hsep
  · cases hfalse
  · exact h [] x between two after (by rw [heq]; rfl) hx htwo hsep

theorem Ahead.tail {x : α} {always later : Bool} {rest : List α} (h : Ahead sep coarse mark always (x :: rest))
    (hx : coarse x = false) (hlater : later = true → always = true ∨ sep x = true) :
    Ahead sep coarse mark later rest := by
  intro between two after heq htwo hsep
  have hcons : always = true ∨ ∃ y ∈ x :: between, sep y = true := by
    obtain hl | ⟨y, hy, hsepy⟩ := hsep
    · obtain ha | hsepx := hlater hl
      · exact .inl ha
      · exact .inr ⟨x, List.mem_cons_self, hsepx⟩
    · exact .inr ⟨y, List.mem_cons_of_mem _ hy, hsepy⟩
  obtain ⟨y, hy, hcoarse⟩ := h (x :: between) two after (by rw [heq]; rfl) htwo hcons
  obtain rfl | hy := List.mem_cons.1 hy
  · rw [hx] at hcoarse
    cases hcoarse
  · exact ⟨y, hy, hcoarse⟩

/-- With a coarse separator always ahead of the next mark, the next thing is not a mark. -/
theorem Ahead.not_mark {x : α} {rest : List α} (h : Ahead sep coarse mark true (x :: rest)) : mark x = false := by
  cases hx : mark x with
  | false => rfl
  | true =>
    obtain ⟨y, hy, -⟩ := h [] x rest rfl hx (.inl rfl)
    cases hy

/-- Two statements on the same run: before the first hidden separator after a mark the two
counts go along; after it the coarse one is owed one piece, which it counts at its next
separator or at the end. -/
theorem pieces_le_and_owed (hsub : ∀ x, coarse x = true → sep x = true) (hmark : ∀ x, mark x = true → sep x = false)
    (l : List α) (h : Parted sep coarse mark l) :
    (∀ seen, (seen = true → Ahead sep coarse mark false l) →
      pieces sep mark seen l ≤ pieces coarse mark seen l) ∧
    (Ahead sep coarse mark true l → pieces sep mark false l + 1 ≤ pieces coarse mark true l) := by
  induction l with
  | nil => exact ⟨fun seen _ => Nat.le_refl _, fun _ => Nat.le_refl _⟩
  | cons x rest ih =>
    obtain ⟨ihSeen, ihOwed⟩ := ih h.tail
    have hfresh := ihSeen false (fun hf => by cases hf)
    cases hc : coarse x with
    -- Both count here, and both start afresh.
    | true =>
      have hs := hsub x hc
      constructor
      · intro seen _
        rw [pieces_sep hs, pieces_sep hc]
        omega
      · intro _
        rw [pieces_sep hs, pieces_sep hc, Bool.toNat_true, Bool.toNat_false]
        omega
    -- The fine count alone may end a piece here, and the coarse one is owed it if a mark was seen.
    | false =>
      cases hs : sep x with
      | true =>
        have hm : mark x = false := by
          cases hm : mark x with
          | false => rfl
          | true => rw [hmark x hm] at hs; cases hs
        constructor
        · intro seen hseen
          rw [pieces_sep hs, pieces_other hc, hm, Bool.or_false]
          cases seen with
          | false =>
            rw [Bool.toNat_false, Nat.zero_add]
            exact hfresh
          | true =>
            have := ihOwed ((hseen rfl).tail hc (fun _ => .inr hs))
            rw [Bool.toNat_true]
            omega
        · intro howed
          rw [pieces_sep hs, pieces_other hc, hm, Bool.or_false, Bool.toNat_false, Nat.zero_add]
          exact ihOwed (howed.tail hc (fun _ => .inl rfl))
      | false =>
        constructor
        · intro seen hseen
          rw [pieces_other hs, pieces_other hc]
          apply ihSeen
          intro hnow
          cases hm : mark x with
          | true => exact h.ahead hm
          | false =>
            rw [hm, Bool.or_false] at hnow
            exact (hseen hnow).tail hc (fun hl => by cases hl)
        · intro howed
          rw [pieces_other hs, pieces_other hc, howed.not_mark, Bool.or_false, Bool.or_false]
          exact ihOwed (howed.tail hc (fun _ => .inl rfl))

theorem pieces_le_coarse (hsub : ∀ x, coarse x = true → sep x = true) (hmark : ∀ x, mark x = true → sep x = false)
    {l : List α} (h : Parted sep coarse mark l) : pieces sep mark false l ≤ pieces coarse mark false l :=
  (pieces_le_and_owed hsub hmark l h).1 false (fun hf => by cases hf)

/-- Where only one piece holds a mark, no separator parts two marks. -/
theorem parted_of_pieces_le_one (hmark : ∀ x, mark x = true → sep x = false) {l : List α}
    (h : pieces sep mark false l ≤ 1) : Parted sep coarse mark l := by
  rintro before one between two after rfl hone htwo ⟨x, hx, hsep⟩
  obtain ⟨left, right, rfl⟩ := List.append_of_mem hx
  have hcut : before ++ one :: (left ++ x :: right ++ two :: after) =
      (before ++ one :: left) ++ x :: (right ++ two :: after) := by simp
  rw [hcut, pieces_append_sep hsep] at h
  have hleft := pieces_pos_of_mark (hmark one hone) hone false before left
  have hright := pieces_pos_of_mark (hmark two htwo) htwo false right after
  omega

end

/-! ### Texts -/

/-- How many parts are more than white space; the flag says it of the first already. -/
def filled : Bool → List (List Char) → Nat
  | seen, [] => seen.toNat
  | seen, part :: parts => (seen || !part.all Text.isSpace).toNat + filled false parts

theorem filled_split (c : Char) (seen : Bool) (s : List Char) :
    filled seen (Text.split c s) = pieces (fun x => decide (x = c)) (fun x => !Text.isSpace x) seen s := by
  induction s generalizing seen with
  | nil => simp [Text.split, filled, pieces]
  | cons x rest ih =>
    rw [Text.split]
    by_cases hx : x = c
    · rw [if_pos hx, filled, ih, pieces_sep (by simpa using hx)]
      simp
    · rw [if_neg hx, pieces_other (by simpa using hx), ← ih]
      cases hsplit : Text.split c rest with
      | nil => exact absurd hsplit (Text.split_ne_nil c rest)
      | cons part parts =>
        simp only [filled, List.all_cons, Bool.not_and, Bool.or_assoc]

/-- The pieces of a text that are more than white space. -/
theorem length_filter_split (c : Char) (s : List Char) :
    ((Text.split c s).filter fun part => Text.strip part ≠ []).length =
      pieces (fun x => decide (x = c)) (fun x => !Text.isSpace x) false s := by
  rw [← filled_split]
  induction Text.split c s with
  | nil => rfl
  | cons part parts ih =>
    rw [filled, ← ih, List.filter_cons]
    by_cases hpart : Text.strip part = []
    · simp [hpart, Text.strip_eq_nil.1 hpart]
    · have hall : part.all Text.isSpace = false := by
        rw [Bool.eq_false_iff]
        exact fun h => hpart (Text.strip_eq_nil.2 h)
      simp only [hpart, ne_eq, not_false_eq_true, decide_true, if_true, List.length_cons, hall]
      simp
      omega

end PyAppRunner.Base
