import PyAppRunner.Base.Text

/-! `str.lower()`.

A letter is lowered by itself, into one character or several, but for the capital sigma: its lower
form depends on the letters around it. No word reaches across an underscore, so a text is lowered
part by part (`lower_split`). -/
namespace PyAppRunner.Base

/-- What the character tables of Unicode tell. -/
structure Casing where
  lowerOne : Char → List Char
  cased : Char → Bool
  ignorable : Char → Bool
  underscore : lowerOne '_' = ['_'] ∧ cased '_' = false ∧ ignorable '_' = false

namespace Casing

variable (letters : Casing)

/-- Whether the next character, those that do not count left aside, is a letter with a case. -/
def meetsCased (s : List Char) : Bool :=
  match s.dropWhile letters.ignorable with
  | [] => false
  | c :: _ => letters.cased c

/-- A capital sigma ends a word after a letter, and with no letter to follow. What is before it comes
backwards. -/
def sigma (before after : List Char) : Char :=
  if letters.meetsCased before && !letters.meetsCased after then 'ς' else 'σ'

/-- The text in lower case. What stands before a letter may matter. -/
def lowerFrom (before : List Char) : List Char → List Char
  | [] => []
  | c :: rest =>
    (if c = 'Σ' then [letters.sigma before rest] else letters.lowerOne c) ++ lowerFrom (c :: before) rest

/-- `str.lower`. -/
def lower (s : List Char) : List Char := letters.lowerFrom [] s

/-- What is beyond an underscore is not met. -/
theorem meetsCased_append (s far : List Char) : letters.meetsCased (s ++ '_' :: far) = letters.meetsCased s := by
  obtain ⟨-, hcased, hcounts⟩ := letters.underscore
  induction s with
  | nil =>
    have hstop : ('_' :: far).dropWhile letters.ignorable = '_' :: far :=
      List.dropWhile_cons_of_neg (by rw [hcounts]; exact Bool.false_ne_true)
    rw [List.nil_append, meetsCased, hstop]
    exact hcased
  | cons c rest ih =>
    cases hc : letters.ignorable c with
    | true =>
      rw [meetsCased, meetsCased, List.cons_append, List.dropWhile_cons_of_pos hc, List.dropWhile_cons_of_pos hc]
      exact ih
    | false =>
      have hneg : ¬ letters.ignorable c = true := by rw [hc]; exact Bool.false_ne_true
      rw [meetsCased, meetsCased, List.cons_append, List.dropWhile_cons_of_neg hneg, List.dropWhile_cons_of_neg hneg]

theorem lowerFrom_far (before far s : List Char) :
    letters.lowerFrom (before ++ '_' :: far) s = letters.lowerFrom before s := by
  induction s generalizing before with
  | nil => rfl
  | cons c rest ih =>
    have hsigma : letters.sigma (before ++ '_' :: far) rest = letters.sigma before rest := by
      rw [sigma, sigma, meetsCased_append]
    rw [lowerFrom, lowerFrom, hsigma]
    exact congrArg _ (ih (c :: before))

theorem lowerFrom_append (before left right : List Char) :
    letters.lowerFrom before (left ++ '_' :: right) = letters.lowerFrom before left ++ '_' :: letters.lower right := by
  induction left generalizing before with
  | nil =>
    have hright : letters.lowerFrom ('_' :: before) right = letters.lower right := letters.lowerFrom_far [] before right
    have hmark : letters.lowerFrom before ('_' :: right) = letters.lowerOne '_' ++ letters.lowerFrom ('_' :: before) right :=
      rfl
    rw [List.nil_append, hmark, letters.underscore.1, hright]
    rfl
  | cons c rest ih =>
    have hsigma : letters.sigma before (rest ++ '_' :: right) = letters.sigma before rest := by
      rw [sigma, sigma, meetsCased_append]
    rw [List.cons_append, lowerFrom, lowerFrom, hsigma, ih, List.append_assoc]

/-- The parts between the underscores are lowered one by one. -/
theorem lower_split (s : List Char) :
    letters.lower s ++ ['_'] = ((Text.split '_' s).map fun part => letters.lower part ++ ['_']).flatten := by
  have hparts : ∀ parts : List (List Char), letters.lower (parts.map (· ++ ['_'])).flatten =
      (parts.map fun part => letters.lower part ++ ['_']).flatten := by
    intro parts
    induction parts with
    | nil => rfl
    | cons part parts ih =>
      rw [List.map_cons, List.flatten_cons, List.append_assoc, List.singleton_append, lower, lowerFrom_append, ih]
      simp [lower]
  rw [← hparts, Text.flatten_split]
  exact (letters.lowerFrom_append [] s []).symm

/-- Texts whose parts are the same when lowered are the same when lowered. -/
theorem lower_eq_of_split {s t : List Char}
    (h : (Text.split '_' s).map letters.lower = (Text.split '_' t).map letters.lower) :
    letters.lower s = letters.lower t := by
  have hmarked : ((Text.split '_' s).map fun part => letters.lower part ++ ['_']) =
      (Text.split '_' t).map fun part => letters.lower part ++ ['_'] := by
    have := congrArg (List.map (· ++ ['_'])) h
    rwa [List.map_map, List.map_map] at this
  have hsame : letters.lower s ++ ['_'] = letters.lower t ++ ['_'] := by
    rw [lower_split, lower_split, hmarked]
  exact List.append_cancel_right hsame

/-- The tables as far as ASCII goes. -/
def ascii : Casing where
  lowerOne c := [c.toLower]
  cased c := c.isAlpha
  ignorable c := [39, 46, 58, 94, 96].contains c.toNat
  underscore := by decide

end Casing

end PyAppRunner.Base
