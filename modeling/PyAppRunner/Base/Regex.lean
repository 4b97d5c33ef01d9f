import Mathlib.Data.List.TakeWhile

/-! Regular expressions as they are searched for: the leftmost match, and of the matches
there the first one that backtracking comes to.

A pattern is tried at a place in the text, which knows the character before it, and says
what goes on from where it ends. A repetition of a class takes all it can and gives back
one character at a time. -/
namespace PyAppRunner.Base.Regex

/-- The patterns that are used, as syntax. -/
inductive Pattern where
  /-- `^` -/
  | start
  /-- `(?<=c)` -/
  | behind (c : Char)
  /-- One character of a class. -/
  | one (p : Char → Bool)
  /-- A greedy `*` of a class. -/
  | many (p : Char → Bool)
  /-- A group that is kept. -/
  | group (r : Pattern)
  | alt (a b : Pattern)
  | seq (a b : Pattern)

/-- A place in the text, and the groups so far. -/
structure Cursor where
  before : Option Char
  rest : List Char
  groups : List (List Char)
deriving DecidableEq

variable {α : Type}

/-- Greedy: all that is of the class, or else a character less. -/
def runMany (p : Char → Bool) (groups : List (List Char)) (k : Cursor → Option α) :
    Option Char → List Char → Option α
  | before, [] => k ⟨before, [], groups⟩
  | before, c :: rest =>
    if p c then (runMany p groups k (some c) rest).orElse fun _ => k ⟨before, c :: rest, groups⟩
    else k ⟨before, c :: rest, groups⟩

/-- Backtracking, with what is to match afterwards handed in. -/
def Pattern.run : Pattern → Cursor → (Cursor → Option α) → Option α
  | .start, s, k => if s.before = none then k s else none
  | .behind c, s, k => if s.before = some c then k s else none
  | .one p, s, k =>
    match s.rest with
    | [] => none
    | c :: rest => if p c then k {s with before := some c, rest := rest} else none
  | .many p, s, k => runMany p s.groups k s.before s.rest
  | .group r, s, k =>
    r.run s fun t => k {t with groups := t.groups ++ [s.rest.take (s.rest.length - t.rest.length)]}
  | .alt a b, s, k => (a.run s k).orElse fun _ => b.run s k
  | .seq a b, s, k => a.run s fun t => b.run t k

/-- A match: its length, and its groups. -/
abbrev Match := Nat × List (List Char)

/-- `re.match` at one place of a text. -/
def Pattern.matchAt (r : Pattern) (before : Option Char) (rest : List Char) : Option Match :=
  r.run ⟨before, rest, []⟩ fun t => some (rest.length - t.rest.length, t.groups)

/-- `re.sub`, with what a match's text and groups become; the number counts the characters
of a match that are still to be passed. -/
def sub (r : Pattern) (become : List Char → List (List Char) → List Char) : Nat → Option Char → List Char → List Char
  | 0, before, [] =>
    match r.matchAt before [] with
    | none => []
    | some found => become [] found.2
  | _ + 1, _, [] => []
  | n + 1, _, c :: rest => sub r become n (some c) rest
  | 0, before, c :: rest =>
    match r.matchAt before (c :: rest) with
    | none => c :: sub r become 0 (some c) rest
    | some (0, groups) => become [] groups ++ c :: sub r become 0 (some c) rest
    | some (length + 1, groups) =>
      become ((c :: rest).take (length + 1)) groups ++ sub r become length (some c) rest

/-! ### Repetition of a class -/

variable {p : Char → Bool} {groups : List (List Char)} {k : Cursor → Option α}

/-- The place after some characters. -/
def placeAfter (before : Option Char) (s : List Char) : Option Char := s.getLast?.or before

theorem placeAfter_cons (before : Option Char) (c : Char) (s : List Char) :
    placeAfter before (c :: s) = placeAfter (some c) s := by
  cases s with
  | nil => rfl
  | cons d s =>
    simp only [placeAfter, List.getLast?_cons_cons]
    cases hlast : (d :: s).getLast? with
    | none => simp at hlast
    | some e => rfl

/-- All that is of the class, if what follows goes on from there. -/
theorem runMany_all {a : α} {run rest : List Char} (before : Option Char) (hrun : ∀ c ∈ run, p c = true)
    (hrest : ∀ c ∈ rest.head?, p c = false) (hk : k ⟨placeAfter before run, rest, groups⟩ = some a) :
    runMany p groups k before (run ++ rest) = some a := by
  induction run generalizing before with
  | nil =>
    cases rest with
    | nil => exact hk
    | cons c rest =>
      rw [List.nil_append, runMany, hrest c rfl]
      exact hk
  | cons c run ih =>
    rw [List.cons_append, runMany, if_pos (hrun c List.mem_cons_self)]
    rw [placeAfter_cons] at hk
    rw [ih (some c) (fun d hd => hrun d (List.mem_cons_of_mem c hd)) hk]
    rfl

/-- Nothing, if what follows goes on from nowhere. -/
theorem runMany_none (before : Option Char) (s : List Char)
    (hk : ∀ run rest, s = run ++ rest → (∀ c ∈ run, p c = true) → k ⟨placeAfter before run, rest, groups⟩ = none) :
    runMany p groups k before s = none := by
  induction s generalizing before with
  | nil => exact hk [] [] rfl (by simp)
  | cons c rest ih =>
    have hhere := hk [] (c :: rest) rfl (by simp)
    rw [runMany]
    split
    · next hc =>
      rw [ih (some c)]
      · exact hhere
      · intro run rest' heq hrun
        have hlater := hk (c :: run) rest' (by rw [heq]; rfl) (by simpa [hc] using hrun)
        rwa [placeAfter_cons] at hlater
    · exact hhere

/-! ### Substitution -/

variable {r : Pattern} {become : List Char → List (List Char) → List Char}

/-- What a match has taken is passed. -/
theorem sub_pass (before : Option Char) (taken rest : List Char) :
    sub r become taken.length before (taken ++ rest) = sub r become 0 (placeAfter before taken) rest := by
  induction taken generalizing before with
  | nil => rfl
  | cons c taken ih =>
    rw [placeAfter_cons, ← ih]
    rfl

/-- A match is put in place of what it has taken. -/
theorem sub_match {before : Option Char} {taken rest : List Char} {found : List (List Char)} (hne : taken ≠ [])
    (h : r.matchAt before (taken ++ rest) = some (taken.length, found)) :
    sub r become 0 before (taken ++ rest) = become taken found ++ sub r become 0 (placeAfter before taken) rest := by
  cases taken with
  | nil => exact absurd rfl hne
  | cons c taken =>
    rw [List.cons_append] at h ⊢
    rw [sub, h]
    dsimp only [List.length_cons]
    rw [placeAfter_cons, ← sub_pass]
    simp

/-- Where there is no match, a character stays. -/
theorem sub_none {before : Option Char} {c : Char} {rest : List Char} (h : r.matchAt before (c :: rest) = none) :
    sub r become 0 before (c :: rest) = c :: sub r become 0 (some c) rest := by
  rw [sub, h]

end PyAppRunner.Base.Regex
