import PyAppRunner.Base.Pieces

/-! Where the statements of an SQL text end.

One character at a time: literals with doubled quotes, quoted identifiers, `--` comments to
the end of the line, block comments (nested, as in the standard), dollar quotes. A quote
that is doubled closes the literal and opens it again, which is the same to a reader who
only asks where the literal is. -/
namespace PyAppRunner.Sql.Lexing
open Base

/-- What a character is part of. A semicolon is one only at the top level. -/
inductive CharClass where
  | code
  | space
  | comment
  | semicolon
deriving DecidableEq

/-- Where the text so far ends. -/
inductive Mode where
  /-- At the top level; the flag says whether the last character was part of an identifier. -/
  | normal (ident : Bool)
  /-- In a `--` comment. -/
  | line
  /-- After the first character of what opens a block comment, inside it, and after the first
  character of what closes it; the number counts the comments around it. -/
  | blockOpen (depth : Nat)
  | block (depth : Nat)
  | blockClose (depth : Nat)
  | literal
  | quotedIdent
  /-- In what opens a dollar quote, inside it, and in what closes it; the number counts the
  characters that are left before the last one. -/
  | dollarOpen (left : Nat) (tag : List Char)
  | dollar (tag : List Char)
  | dollarClose (left : Nat)
deriving DecidableEq

/-- A character that a name without quotes may begin with. -/
def identStart (c : Char) : Bool := ('a' ≤ c && c ≤ 'z') || ('A' ≤ c && c ≤ 'Z') || c = '_' || 128 ≤ c.toNat

def isDigit (c : Char) : Bool := '0' ≤ c && c ≤ '9'

/-- The tag of the dollar quote that a `$` before `rest` opens. -/
def dollarTag (rest : List Char) : Option (List Char) :=
  let tag := rest.takeWhile fun c => identStart c || isDigit c
  if (rest.drop tag.length).head? = some '$' ∧ tag.head?.all identStart then some tag else none

def nextIs (c : Char) (rest : List Char) : Bool := rest.head? == some c

/-- A `$` at the top level: in an identifier it is part of it. -/
def stepDollar (ident : Bool) (rest : List Char) : Mode :=
  if ident then .normal true
  else match dollarTag rest with
    | none => .normal false
    | some tag => .dollarOpen tag.length tag

/-- The first character of a literal, a quoted identifier or a dollar quote, or a character
of anything else that is code. -/
def stepCode (ident : Bool) (c : Char) (rest : List Char) : Mode :=
  if c = '\'' then .literal
  else if c = '"' then .quotedIdent
  else if c = '$' then stepDollar ident rest
  else .normal (identStart c || (ident && isDigit c))

/-- At the top level. -/
def stepNormal (ident : Bool) (c : Char) (rest : List Char) : CharClass × Mode :=
  if c = ';' then (.semicolon, .normal false)
  else if c = '-' ∧ nextIs '-' rest then (.comment, .line)
  else if Text.isSpace c then (.space, .normal false)
  else if c = '/' ∧ nextIs '*' rest then (.comment, .blockOpen 0)
  else (.code, stepCode ident c rest)

/-- One character, with what follows it. -/
def step : Mode → Char → List Char → CharClass × Mode
  | .normal ident, c, rest => stepNormal ident c rest
  | .line, c, _ => (.comment, if c = '\n' then .normal false else .line)
  | .blockOpen depth, _, _ => (.comment, .block depth)
  | .block depth, c, rest =>
    (.comment, if c = '*' ∧ nextIs '/' rest then .blockClose depth
      else if c = '/' ∧ nextIs '*' rest then .blockOpen (depth + 1)
      else .block depth)
  | .blockClose 0, _, _ => (.comment, .normal false)
  | .blockClose (depth + 1), _, _ => (.comment, .block depth)
  | .literal, c, _ => (.code, if c = '\'' then .normal false else .literal)
  | .quotedIdent, c, _ => (.code, if c = '"' then .normal false else .quotedIdent)
  | .dollarOpen 0 tag, _, _ => (.code, .dollar tag)
  | .dollarOpen (left + 1) tag, _, _ => (.code, .dollarOpen left tag)
  | .dollar tag, c, rest =>
    (.code, if c = '$' ∧ (tag ++ ['$']).isPrefixOf rest then .dollarClose tag.length else .dollar tag)
  | .dollarClose 0, _, _ => (.code, .normal false)
  | .dollarClose (left + 1), _, _ => (.code, .dollarClose left)

/-- What each character is part of. -/
def classes : Mode → List Char → List CharClass
  | _, [] => []
  | m, c :: rest => (step m c rest).1 :: classes (step m c rest).2 rest

/-- The number of statements that are more than white space and comments. -/
def statements (s : List Char) : Nat := pieces (· == .semicolon) (· == .code) false (classes (.normal false) s)

/-- Neither at the top level nor in a `--` comment. -/
def Mode.inside : Mode → Bool
  | .normal _ => false
  | .line => false
  | _ => true

theorem step_inside {m : Mode} (h : m.inside = true) (c : Char) (rest : List Char) :
    (step m c rest).1 ≠ .semicolon ∧ (step m c rest).2 ≠ .line := by
  cases m with
  | normal ident => cases h
  | line => cases h
  | blockOpen depth => simp [step]
  | block depth =>
    rw [step]
    split
    · simp
    · split <;> simp
  | blockClose depth => cases depth <;> simp [step]
  | literal =>
    rw [step]
    split <;> simp
  | quotedIdent =>
    rw [step]
    split <;> simp
  | dollarOpen left tag => cases left <;> simp [step]
  | dollar tag =>
    rw [step]
    split <;> simp
  | dollarClose left => cases left <;> simp [step]

theorem stepCode_ne_line (ident : Bool) (c : Char) (rest : List Char) : stepCode ident c rest ≠ .line := by
  unfold stepCode stepDollar
  split_ifs <;> simp
  split <;> simp

/-- At the top level: a semicolon, the start of a `--` comment, white space, or the first
character of anything else. -/
theorem stepNormal_cases (ident : Bool) (c : Char) (rest : List Char) :
    (c = ';' ∧ stepNormal ident c rest = (.semicolon, .normal false)) ∨
    (c = '-' ∧ nextIs '-' rest = true ∧ stepNormal ident c rest = (.comment, .line)) ∨
    (c ≠ ';' ∧ ¬ (c = '-' ∧ nextIs '-' rest = true) ∧ (stepNormal ident c rest).1 ≠ .semicolon ∧
      (stepNormal ident c rest).2 ≠ .line ∧
      (Text.isSpace c = true → stepNormal ident c rest = (.space, .normal false))) := by
  by_cases hsemi : c = ';'
  · exact .inl ⟨hsemi, by rw [stepNormal, if_pos hsemi]⟩
  · by_cases hline : c = '-' ∧ nextIs '-' rest = true
    · exact .inr (.inl ⟨hline.1, hline.2, by rw [stepNormal, if_neg hsemi, if_pos hline]⟩)
    · refine .inr (.inr ⟨hsemi, hline, ?_⟩)
      rw [stepNormal, if_neg hsemi, if_neg hline]
      by_cases hspace : Text.isSpace c = true
      · rw [if_pos hspace]
        exact ⟨by simp, by simp, fun _ => rfl⟩
      · rw [if_neg hspace]
        split_ifs with hblock
        · exact ⟨by simp, by simp, fun h => absurd h hspace⟩
        · exact ⟨by simp, stepCode_ne_line ident c rest, fun h => absurd h hspace⟩

end PyAppRunner.Sql.Lexing
