import Mathlib.Data.List.Basic
import Mathlib.Data.List.TakeWhile

/-! What the programs use of Python's `str`, on lists of characters. -/
namespace PyAppRunner.Base.Text

/-- `str.isspace` of one character, which is also what `\s` matches. -/
def isSpace (c : Char) : Bool :=
  let n := c.toNat
  (9 ≤ n && n ≤ 13) || (28 ≤ n && n ≤ 32) || n == 0x85 || n == 0xA0 || n == 0x1680 ||
    (0x2000 ≤ n && n ≤ 0x200A) || n == 0x2028 || n == 0x2029 || n == 0x202F || n == 0x205F || n == 0x3000

/-- The zeros of the decimal digits of Unicode 15; nine more digits follow each. -/
def decimalZeros : List Nat :=
  [0x30, 0x660, 0x6F0, 0x7C0, 0x966, 0x9E6, 0xA66, 0xAE6, 0xB66, 0xBE6, 0xC66, 0xCE6, 0xD66, 0xDE6, 0xE50, 0xED0,
    0xF20, 0x1040, 0x1090, 0x17E0, 0x1810, 0x1946, 0x19D0, 0x1A80, 0x1A90, 0x1B50, 0x1BB0, 0x1C40, 0x1C50, 0xA620,
    0xA8D0, 0xA900, 0xA9D0, 0xA9F0, 0xAA50, 0xABF0, 0xFF10, 0x104A0, 0x10D30, 0x11066, 0x110F0, 0x11136, 0x111D0,
    0x112F0, 0x11450, 0x114D0, 0x11650, 0x116C0, 0x11730, 0x118E0, 0x11950, 0x11C50, 0x11D50, 0x11DA0, 0x11F50,
    0x16A60, 0x16AC0, 0x16B50, 0x1D7CE, 0x1D7D8, 0x1D7E2, 0x1D7EC, 0x1D7F6, 0x1E140, 0x1E2F0, 0x1E4F0, 0x1E950,
    0x1FBF0]

/-- `str.isdecimal` of one character, which is also what `\d` matches. -/
def isDecimal (c : Char) : Bool := decimalZeros.any fun start => start ≤ c.toNat && c.toNat < start + 10

/-- A line break that ends a text does not keep the `$` of a pattern from matching before it. -/
def beforeLastBreak (s : List Char) : List Char := if s.getLast? = some '\n' then s.dropLast else s

/-- `str.rstrip()`. -/
def rstrip (s : List Char) : List Char := (s.reverse.dropWhile isSpace).reverse

/-- `str.strip()`. -/
def strip (s : List Char) : List Char := rstrip (s.dropWhile isSpace)

/-- `s[:i]`, also of a list. -/
def sliceTo {α : Type} (s : List α) (i : Int) : List α :=
  if 0 ≤ i then s.take i.toNat else s.take (s.length - (-i).toNat)

/-- `s[i:]`. -/
def sliceFrom {α : Type} (s : List α) (i : Int) : List α :=
  if 0 ≤ i then s.drop i.toNat else s.drop (s.length - (-i).toNat)

/-- `str.split(sep)` for a separator of one character: never an empty list. -/
def split (sep : Char) : List Char → List (List Char)
  | [] => [[]]
  | c :: rest =>
    if c = sep then [] :: split sep rest
    else match split sep rest with
      | [] => [[c]]
      | part :: parts => (c :: part) :: parts

/-- `str.split(sep, n)`: `n` cuts at most. -/
def splitMax (sep : Char) : Nat → List Char → List (List Char)
  | 0, s => [s]
  | n + 1, s =>
    if sep ∈ s then s.takeWhile (· ≠ sep) :: splitMax sep n (s.dropWhile (· ≠ sep)).tail
    else [s]

/-- What ends a line for `str.splitlines`. -/
def isLineBreak (c : Char) : Bool :=
  let n := c.toNat
  (10 ≤ n && n ≤ 13) || (28 ≤ n && n ≤ 30) || n == 0x85 || n == 0x2028 || n == 0x2029

/-- `str.splitlines()`: a break at the end opens no line. -/
def splitlines : List Char → List (List Char)
  | [] => []
  | '\r' :: '\n' :: rest => [] :: splitlines rest
  | c :: rest =>
    if isLineBreak c then [] :: splitlines rest
    else match splitlines rest with
      | [] => [[c]]
      | line :: lines => (c :: line) :: lines

theorem mem_rstrip {s : List Char} {c : Char} (hc : c ∈ s) (hspace : isSpace c = false) : c ∈ rstrip s := by
  rw [rstrip, List.mem_reverse]
  have hmem : c ∈ s.reverse.takeWhile isSpace ++ s.reverse.dropWhile isSpace := by
    rw [List.takeWhile_append_dropWhile]
    exact List.mem_reverse.2 hc
  obtain h | h := List.mem_append.1 hmem
  · rw [List.mem_takeWhile_imp h] at hspace
    cases hspace
  · exact h

/-- What is no white space stays. -/
theorem mem_strip {s : List Char} {c : Char} (hc : c ∈ s) (hspace : isSpace c = false) : c ∈ strip s := by
  apply mem_rstrip _ hspace
  have hmem : c ∈ s.takeWhile isSpace ++ s.dropWhile isSpace := by rwa [List.takeWhile_append_dropWhile]
  obtain h | h := List.mem_append.1 hmem
  · rw [List.mem_takeWhile_imp h] at hspace
    cases hspace
  · exact h

/-- Only white space strips to nothing. -/
theorem strip_eq_nil {s : List Char} : strip s = [] ↔ s.all isSpace = true := by
  constructor
  · intro h
    rw [List.all_eq_true]
    intro c hc
    cases hspace : isSpace c with
    | true => rfl
    | false =>
      have := mem_strip hc hspace
      rw [h] at this
      cases this
  · intro h
    have hdrop : s.dropWhile isSpace = [] := List.dropWhile_eq_nil_iff.2 (List.all_eq_true.1 h)
    rw [strip, hdrop]
    rfl

/-- Around what is left there was only white space. -/
theorem strip_around (s : List Char) :
    ∃ left right, s = left ++ strip s ++ right ∧ (∀ c ∈ left, isSpace c = true) ∧ ∀ c ∈ right, isSpace c = true := by
  refine ⟨s.takeWhile isSpace, ((s.dropWhile isSpace).reverse.takeWhile isSpace).reverse, ?_, ?_, ?_⟩
  · rw [strip, rstrip, List.append_assoc, ← List.reverse_append, List.takeWhile_append_dropWhile,
      List.reverse_reverse, List.takeWhile_append_dropWhile]
  · exact fun c => List.mem_takeWhile_imp
  · exact fun c hc => List.mem_takeWhile_imp (List.mem_reverse.1 hc)

/-- A text without white space is not stripped of anything. -/
theorem strip_eq_self {s : List Char} (h : ∀ c ∈ s, isSpace c = false) : strip s = s := by
  have hdrop : ∀ t : List Char, (∀ c ∈ t, isSpace c = false) → t.dropWhile isSpace = t := by
    intro t ht
    cases t with
    | nil => rfl
    | cons c t => rw [List.dropWhile_cons_of_neg (by simp [ht c List.mem_cons_self])]
  rw [strip, rstrip, hdrop s h, hdrop s.reverse (fun c hc => h c (List.mem_reverse.mp hc)), List.reverse_reverse]

theorem splitMax_cons {sep : Char} {part : List Char} (n : Nat) (rest : List Char) (h : sep ∉ part) :
    splitMax sep (n + 1) (part ++ sep :: rest) = part :: splitMax sep n rest := by
  have hpass : ∀ c ∈ part, decide (c ≠ sep) = true := by
    intro c hc
    exact decide_eq_true fun heq => h (heq ▸ hc)
  rw [splitMax, if_pos (by simp), List.takeWhile_append_of_pos hpass, List.dropWhile_append_of_pos hpass]
  simp

/-- What one cut gives is what it was cut from. -/
theorem of_splitMax_one {sep : Char} {s left right : List Char} (h : splitMax sep 1 s = [left, right]) :
    s = left ++ sep :: right := by
  by_cases hs : sep ∈ s
  · obtain ⟨part, rest, rfl, hpart⟩ := List.eq_append_cons_of_mem hs
    rw [splitMax_cons 0 rest hpart, splitMax] at h
    obtain ⟨rfl, rfl⟩ : part = left ∧ rest = right := by simpa using h
    rfl
  · rw [splitMax, if_neg hs] at h
    simp at h

theorem split_ne_nil (sep : Char) (s : List Char) : split sep s ≠ [] := by
  cases s with
  | nil => simp [split]
  | cons c rest =>
    rw [split]
    split
    · simp
    · split <;> simp

/-- A separator parts what is before it from what is after it. -/
theorem split_append (sep : Char) (left right : List Char) :
    split sep (left ++ sep :: right) = split sep left ++ split sep right := by
  induction left with
  | nil => simp [split]
  | cons c rest ih =>
    rw [List.cons_append, split, split, ih]
    by_cases hc : c = sep
    · rw [if_pos hc, if_pos hc, List.cons_append]
    · rw [if_neg hc, if_neg hc]
      cases hsplit : split sep rest with
      | nil => exact absurd hsplit (split_ne_nil sep rest)
      | cons part parts => rfl

/-- Every part with its separator, and one more at the end. -/
theorem flatten_split (sep : Char) (s : List Char) :
    ((split sep s).map (· ++ [sep])).flatten = s ++ [sep] := by
  induction s with
  | nil => rfl
  | cons c rest ih =>
    rw [split]
    by_cases hc : c = sep
    · rw [if_pos hc, List.map_cons, List.flatten_cons, ih, hc]
      rfl
    · rw [if_neg hc]
      cases hsplit : split sep rest with
      | nil => exact absurd hsplit (split_ne_nil sep rest)
      | cons part parts =>
        rw [hsplit] at ih
        simpa using ih

theorem not_mem_of_mem_split {sep : Char} {s part : List Char} (h : part ∈ split sep s) : sep ∉ part := by
  induction s generalizing part with
  | nil =>
    obtain rfl : part = [] := by simpa [split] using h
    simp
  | cons c rest ih =>
    rw [split] at h
    by_cases hc : c = sep
    · rw [if_pos hc] at h
      obtain rfl | h := List.mem_cons.1 h
      · simp
      · exact ih h
    · rw [if_neg hc] at h
      cases hsplit : split sep rest with
      | nil => exact absurd hsplit (split_ne_nil sep rest)
      | cons first parts =>
        rw [hsplit] at h ih
        obtain rfl | h := List.mem_cons.1 h
        · have := ih List.mem_cons_self
          simp [this, Ne.symm hc]
        · exact ih (List.mem_cons_of_mem _ h)

end PyAppRunner.Base.Text
