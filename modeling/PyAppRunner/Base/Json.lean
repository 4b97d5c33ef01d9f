import PyAppRunner.Base.Dict

/-! JSON texts, as RFC 8259 has them, and their values.

A document keeps what its value does not: blanks, escapes, the digits of a number, a key
that occurs twice. Two documents that only differ in what is under some keys are the
same document with that left out (`blanked`). -/
namespace PyAppRunner.Base.Json

/-- A parsed value. -/
inductive Value where
  | null
  | bool (b : Bool)
  /-- A number, as it is written. -/
  | number (literal : List Char)
  | string (s : List Char)
  | array (items : List Value)
  | object (entries : List (List Char × Value))

/-! ### Tokens -/

/-- White space between tokens. -/
abbrev Blank := {s : List Char // ∀ c ∈ s, c = ' ' ∨ c = '\t' ∨ c = '\n' ∨ c = '\r'}

/-- One digit at least. -/
def isDigits (s : List Char) : Bool := !s.isEmpty && s.all Char.isDigit

/-- `e` or `E`, a sign if any, and digits. It may be left out. -/
def isExponent : List Char → Bool
  | [] => true
  | e :: '+' :: digits => (e = 'e' || e = 'E') && isDigits digits
  | e :: '-' :: digits => (e = 'e' || e = 'E') && isDigits digits
  | e :: digits => (e = 'e' || e = 'E') && isDigits digits

def isFraction : List Char → Bool
  | '.' :: rest => isDigits (rest.takeWhile Char.isDigit) && isExponent (rest.dropWhile Char.isDigit)
  | rest => isExponent rest

def isUnsigned (s : List Char) : Bool :=
  let whole := s.takeWhile Char.isDigit
  (whole = ['0'] || (isDigits whole && whole.head? ≠ some '0')) && isFraction (s.dropWhile Char.isDigit)

/-- A number as JSON has it. -/
def isNumber : List Char → Bool
  | '-' :: rest => isUnsigned rest
  | rest => isUnsigned rest

/-- The text of a number. -/
abbrev Number := {s : List Char // isNumber s = true}

def hexValue (digits : List Char) : Nat :=
  digits.foldl (fun n c => 16 * n + (if c.isDigit then c.toNat - 48 else if c.isUpper then c.toNat - 55 else c.toNat - 87)) 0

def isHex (digits : List Char) : Bool :=
  digits.length = 4 && digits.all fun c => c.isDigit || ('a' ≤ c && c ≤ 'f') || ('A' ≤ c && c ≤ 'F')

/-- What the escapes of a backslash and a letter stand for. -/
def shortEscapes : List (Char × Char) :=
  [('"', '"'), ('\\', '\\'), ('/', '/'), ('b', Char.ofNat 8), ('f', Char.ofNat 12), ('n', '\n'), ('r', '\r'), ('t', '\t')]

/-- A character in a string, as it is, or escaped in one of three ways. Half a pair is no
character. -/
inductive CharText where
  | plain (c : Char) (h : 0x20 ≤ c.toNat ∧ c ≠ '"' ∧ c ≠ '\\')
  | short (letter c : Char) (h : (letter, c) ∈ shortEscapes)
  | unicode (digits : List Char) (c : Char) (h : isHex digits = true ∧ hexValue digits = c.toNat)
  | pair (high low : List Char) (c : Char)
      (h : isHex high = true ∧ isHex low = true ∧ 0xD800 ≤ hexValue high ∧ hexValue high < 0xDC00 ∧
        0xDC00 ≤ hexValue low ∧ hexValue low < 0xE000 ∧
        c.toNat = 0x10000 + 0x400 * (hexValue high - 0xD800) + (hexValue low - 0xDC00))

namespace CharText

def char : CharText → Char
  | plain c _ => c
  | short _ c _ => c
  | unicode _ c _ => c
  | pair _ _ c _ => c

def text : CharText → List Char
  | plain c _ => [c]
  | short letter _ _ => ['\\', letter]
  | unicode digits _ _ => '\\' :: 'u' :: digits
  | pair high low _ _ => '\\' :: 'u' :: high ++ '\\' :: 'u' :: low

end CharText

/-- What stands between the quotes, escapes as they are written. -/
abbrev StringText := List CharText

/-- The characters that it stands for. -/
def StringText.chars (s : StringText) : List Char := s.map CharText.char

/-- The text with its quotes. -/
def StringText.text (s : StringText) : List Char := '"' :: s.flatMap CharText.text ++ ['"']

/-! ### Documents -/

/-- A key, and the blanks around it, after the colon and after the value. -/
structure Label where
  before : Blank
  key : StringText
  beforeColon : Blank
  afterColon : Blank
  after : Blank

/-- The key that a label stands for. -/
def Label.name (l : Label) : List Char := l.key.chars

mutual
/-- A value as it is written, with the blanks in it. -/
inductive Doc where
  | null
  | bool (b : Bool)
  | number (n : Number)
  | string (s : StringText)
  | array (inner : Blank) (items : Items)
  | object (inner : Blank) (members : Members)

inductive Items where
  | nil
  | cons (before : Blank) (item : Doc) (after : Blank) (rest : Items)

inductive Members where
  | nil
  | cons (label : Label) (value : Doc) (rest : Members)
end

/-- What follows an item or a member. -/
def separated (last : Bool) (text : List Char) : List Char := if last then [] else ',' :: text

def Items.isNil : Items → Bool
  | .nil => true
  | .cons .. => false

def Members.isNil : Members → Bool
  | .nil => true
  | .cons .. => false

mutual
/-- The text of a document. -/
def Doc.text : Doc → List Char
  | .null => "null".toList
  | .bool true => "true".toList
  | .bool false => "false".toList
  | .number n => n.1
  | .string s => s.text
  | .array inner items => '[' :: (inner.1 ++ items.text ++ [']'])
  | .object inner members => '\x7b' :: (inner.1 ++ members.text ++ ['\x7d'])

def Items.text : Items → List Char
  | .nil => []
  | .cons before item after rest => before.1 ++ item.text ++ after.1 ++ separated rest.isNil rest.text

def Members.text : Members → List Char
  | .nil => []
  | .cons label value rest =>
    label.before.1 ++ label.key.text ++ label.beforeColon.1 ++ [':'] ++ label.afterColon.1 ++ value.text ++
      label.after.1 ++ separated rest.isNil rest.text
end

mutual
/-- Of the members with one key the last counts. -/
def Doc.value : Doc → Value
  | .null => .null
  | .bool b => .bool b
  | .number n => .number n.1
  | .string s => .string s.chars
  | .array _ items => .array items.values
  | .object _ members => .object (members.entries.foldl (fun d e => putEntry e.1 e.2 d) [])

def Items.values : Items → List Value
  | .nil => []
  | .cons _ item _ rest => item.value :: rest.values

def Members.entries : Members → List (List Char × Value)
  | .nil => []
  | .cons label value rest => (label.name, value.value) :: rest.entries
end

/-- A document with the blanks around it. -/
structure Document where
  before : Blank
  doc : Doc
  after : Blank

/-- The whole text, with the blanks around it. -/
def Document.text (t : Document) : List Char := t.before.1 ++ t.doc.text ++ t.after.1

/-! ### What is under some keys -/

section
variable (hidden : List Char → Bool)

mutual
/-- The document without the values under hidden keys. -/
def Doc.blanked : Doc → Doc
  | .array inner items => .array inner items.blanked
  | .object inner members => .object inner members.blanked
  | .null => .null
  | .bool b => .bool b
  | .number n => .number n
  | .string s => .string s

def Items.blanked : Items → Items
  | .nil => .nil
  | .cons before item after rest => .cons before item.blanked after rest.blanked

def Members.blanked : Members → Members
  | .nil => .nil
  | .cons label value rest => .cons label (if hidden label.name then .null else value.blanked) rest.blanked
end

mutual
/-- Whether there is a hidden key. -/
def Doc.holds : Doc → Bool
  | .array _ items => items.holds
  | .object _ members => members.holds
  | .null => false
  | .bool _ => false
  | .number _ => false
  | .string _ => false

def Items.holds : Items → Bool
  | .nil => false
  | .cons _ item _ rest => item.holds || rest.holds

def Members.holds : Members → Bool
  | .nil => false
  | .cons label value rest => hidden label.name || value.holds || rest.holds
end

def Document.blanked (t : Document) : Document := {t with doc := t.doc.blanked hidden}

variable {hidden}

mutual
theorem Doc.blanked_of_holds_eq_false : (d : Doc) → d.holds hidden = false → d.blanked hidden = d
  | .array inner items, h => congrArg (Doc.array inner) (items.blanked_of_holds_eq_false h)
  | .object inner members, h => congrArg (Doc.object inner) (members.blanked_of_holds_eq_false h)
  | .null, _ => rfl
  | .bool _, _ => rfl
  | .number _, _ => rfl
  | .string _, _ => rfl

theorem Items.blanked_of_holds_eq_false : (items : Items) → items.holds hidden = false → items.blanked hidden = items
  | .nil, _ => rfl
  | .cons before item after rest, h => by
    rw [Items.holds, Bool.or_eq_false_iff] at h
    rw [Items.blanked, item.blanked_of_holds_eq_false h.1, rest.blanked_of_holds_eq_false h.2]

theorem Members.blanked_of_holds_eq_false :
    (members : Members) → members.holds hidden = false → members.blanked hidden = members
  | .nil, _ => rfl
  | .cons label value rest, h => by
    rw [Members.holds, Bool.or_eq_false_iff, Bool.or_eq_false_iff] at h
    rw [Members.blanked, h.1.1, value.blanked_of_holds_eq_false h.1.2, rest.blanked_of_holds_eq_false h.2]
    rfl
end

mutual
theorem Doc.holds_blanked : (d : Doc) → (d.blanked hidden).holds hidden = d.holds hidden
  | .array _ items => items.holds_blanked
  | .object _ members => members.holds_blanked
  | .null => rfl
  | .bool _ => rfl
  | .number _ => rfl
  | .string _ => rfl

theorem Items.holds_blanked : (items : Items) → (items.blanked hidden).holds hidden = items.holds hidden
  | .nil => rfl
  | .cons before item after rest => by
    rw [Items.blanked, Items.holds, Items.holds, item.holds_blanked, rest.holds_blanked]

theorem Members.holds_blanked : (members : Members) → (members.blanked hidden).holds hidden = members.holds hidden
  | .nil => rfl
  | .cons label value rest => by
    rw [Members.blanked, Members.holds, Members.holds, rest.holds_blanked]
    cases hkey : hidden label.name with
    | true => rfl
    | false =>
      rw [if_neg Bool.false_ne_true, value.holds_blanked]
end

/-- Without hidden keys nothing is left out. -/
theorem Doc.eq_of_blanked_eq {d d' : Doc} (h : d'.blanked hidden = d.blanked hidden) (hnone : d.holds hidden = false) :
    d' = d := by
  have hnone' : d'.holds hidden = false := by rw [← d'.holds_blanked, h, d.holds_blanked, hnone]
  rw [d.blanked_of_holds_eq_false hnone, d'.blanked_of_holds_eq_false hnone'] at h
  exact h

theorem Document.eq_of_blanked_eq {t t' : Document} (h : t'.blanked hidden = t.blanked hidden)
    (hnone : t.doc.holds hidden = false) : t' = t := by
  obtain ⟨before, doc, after⟩ := t
  obtain ⟨before', doc', after'⟩ := t'
  simp only [Document.blanked, Document.mk.injEq] at h
  obtain ⟨rfl, hdoc, rfl⟩ := h
  rw [Doc.eq_of_blanked_eq hdoc hnone]

theorem Items.isNil_eq {items items' : Items} (h : items'.blanked hidden = items.blanked hidden) :
    items'.isNil = items.isNil := by
  have hkeep : ∀ items : Items, (items.blanked hidden).isNil = items.isNil := by
    intro items
    cases items <;> rfl
  rw [← hkeep items', h, hkeep items]

theorem Members.isNil_eq {members members' : Members} (h : members'.blanked hidden = members.blanked hidden) :
    members'.isNil = members.isNil := by
  have hkeep : ∀ members : Members, (members.blanked hidden).isNil = members.isNil := by
    intro members
    cases members <;> rfl
  rw [← hkeep members', h, hkeep members]

mutual
/-- A document with a hidden key has a place where anything can be put without a change to the
rest of it. -/
theorem Doc.exists_place : (d : Doc) → d.holds hidden = true →
    ∃ left right : List Char, ∀ v : Doc, ∃ d' : Doc, d'.blanked hidden = d.blanked hidden ∧ d'.text = left ++ v.text ++ right
  | .array inner items, h => by
    obtain ⟨left, right, hplace⟩ := items.exists_place h
    refine ⟨'[' :: inner.1 ++ left, right ++ [']'], fun v => ?_⟩
    obtain ⟨items', hblanked, htext⟩ := hplace v
    exact ⟨.array inner items', congrArg (Doc.array inner) hblanked, by simp [Doc.text, htext]⟩
  | .object inner members, h => by
    obtain ⟨left, right, hplace⟩ := members.exists_place h
    refine ⟨'\x7b' :: inner.1 ++ left, right ++ ['\x7d'], fun v => ?_⟩
    obtain ⟨members', hblanked, htext⟩ := hplace v
    exact ⟨.object inner members', congrArg (Doc.object inner) hblanked, by simp [Doc.text, htext]⟩
  | .null, h => by cases h
  | .bool _, h => by cases h
  | .number _, h => by cases h
  | .string _, h => by cases h

theorem Items.exists_place : (items : Items) → items.holds hidden = true →
    ∃ left right : List Char, ∀ v : Doc, ∃ items' : Items, items'.blanked hidden = items.blanked hidden ∧
      items'.text = left ++ v.text ++ right
  | .nil, h => by cases h
  | .cons before item after rest, h => by
    rw [Items.holds, Bool.or_eq_true] at h
    by_cases hitem : item.holds hidden = true
    · obtain ⟨left, right, hplace⟩ := item.exists_place hitem
      refine ⟨before.1 ++ left, right ++ after.1 ++ separated rest.isNil rest.text, fun v => ?_⟩
      obtain ⟨item', hblanked, htext⟩ := hplace v
      refine ⟨.cons before item' after rest, ?_, by simp [Items.text, htext]⟩
      rw [Items.blanked, Items.blanked, hblanked]
    · obtain ⟨left, right, hplace⟩ := rest.exists_place (h.resolve_left hitem)
      refine ⟨before.1 ++ item.text ++ after.1 ++ ',' :: left, right, fun v => ?_⟩
      obtain ⟨rest', hblanked, htext⟩ := hplace v
      have hmore : rest'.isNil = false := by
        rw [Items.isNil_eq hblanked]
        cases rest with
        | nil => exact absurd (h.resolve_left hitem) Bool.false_ne_true
        | cons => rfl
      refine ⟨.cons before item after rest', ?_, by simp [Items.text, separated, hmore, htext]⟩
      rw [Items.blanked, Items.blanked, hblanked]

theorem Members.exists_place : (members : Members) → members.holds hidden = true →
    ∃ left right : List Char, ∀ v : Doc, ∃ members' : Members, members'.blanked hidden = members.blanked hidden ∧
      members'.text = left ++ v.text ++ right
  | .nil, h => by cases h
  | .cons label value rest, h => by
    rw [Members.holds, Bool.or_eq_true, Bool.or_eq_true] at h
    by_cases hkey : hidden label.name = true
    · refine ⟨label.before.1 ++ label.key.text ++ label.beforeColon.1 ++ [':'] ++ label.afterColon.1,
        label.after.1 ++ separated rest.isNil rest.text, fun v => ?_⟩
      refine ⟨.cons label v rest, ?_, by simp [Members.text]⟩
      rw [Members.blanked, Members.blanked, if_pos hkey, if_pos hkey]
    by_cases hvalue : value.holds hidden = true
    · obtain ⟨left, right, hplace⟩ := value.exists_place hvalue
      refine ⟨label.before.1 ++ label.key.text ++ label.beforeColon.1 ++ [':'] ++ label.afterColon.1 ++ left,
        right ++ label.after.1 ++ separated rest.isNil rest.text, fun v => ?_⟩
      obtain ⟨value', hblanked, htext⟩ := hplace v
      refine ⟨.cons label value' rest, ?_, by simp [Members.text, htext]⟩
      rw [Members.blanked, Members.blanked, hblanked]
    · have hrest : rest.holds hidden = true := (h.resolve_left fun hor => hor.elim hkey hvalue)
      obtain ⟨left, right, hplace⟩ := rest.exists_place hrest
      refine ⟨label.before.1 ++ label.key.text ++ label.beforeColon.1 ++ [':'] ++ label.afterColon.1 ++ value.text ++
        label.after.1 ++ ',' :: left, right, fun v => ?_⟩
      obtain ⟨rest', hblanked, htext⟩ := hplace v
      have hmore : rest'.isNil = false := by
        rw [Members.isNil_eq hblanked]
        cases rest with
        | nil => exact absurd hrest Bool.false_ne_true
        | cons => rfl
      refine ⟨.cons label value rest', ?_, by simp [Members.text, separated, hmore, htext]⟩
      rw [Members.blanked, Members.blanked, hblanked]
end

/-! ### Values -/

/-- Values of one document, before and after the hidden ones are left out. -/
def ValueBlanked (hidden : List Char → Bool) (v v' : Value) : Prop :=
  ∃ d : Doc, v = d.value ∧ v' = (d.blanked hidden).value

/-- The same key, and the same value unless that is hidden. -/
def EntryBlanked (hidden : List Char → Bool) (e e' : List Char × Value) : Prop :=
  e.1 = e'.1 ∧ (hidden e.1 = true ∨ ValueBlanked hidden e.2 e'.2)

theorem Items.values_blanked : (items : Items) →
    List.Forall₂ (ValueBlanked hidden) items.values (items.blanked hidden).values
  | .nil => .nil
  | .cons _ item _ rest => .cons ⟨item, rfl, rfl⟩ rest.values_blanked

theorem Members.entries_blanked : (members : Members) →
    List.Forall₂ (EntryBlanked hidden) members.entries (members.blanked hidden).entries
  | .nil => .nil
  | .cons label value rest => by
    rw [Members.entries, Members.blanked, Members.entries]
    refine .cons ⟨rfl, ?_⟩ rest.entries_blanked
    by_cases hkey : hidden label.name = true
    · exact .inl hkey
    · exact .inr ⟨value, rfl, by rw [if_neg hkey]⟩

/-- The entries of an object, duplicates aside. -/
theorem Members.dict_blanked (members : Members) :
    List.Forall₂ (EntryBlanked hidden) (members.entries.foldl (fun d e => putEntry e.1 e.2 d) [])
      ((members.blanked hidden).entries.foldl (fun d e => putEntry e.1 e.2 d) []) :=
  forall₂_foldl_putEntry (fun _ _ h => h.1) members.entries_blanked .nil

end

/-! ### Parts of a value -/

section
variable (hidden : List Char → Bool)

mutual
/-- The value without the values under hidden keys. -/
def Value.blanked : Value → Value
  | .array items => .array (blankedItems items)
  | .object entries => .object (blankedEntries entries)
  | .null => .null
  | .bool b => .bool b
  | .number literal => .number literal
  | .string s => .string s

def blankedItems : List Value → List Value
  | [] => []
  | v :: rest => v.blanked :: blankedItems rest

def blankedEntries : List (List Char × Value) → List (List Char × Value)
  | [] => []
  | (key, v) :: rest => (key, if hidden key then .null else v.blanked) :: blankedEntries rest
end

mutual
/-- Whether there is a hidden key. -/
def Value.holds : Value → Bool
  | .array items => holdsItems items
  | .object entries => holdsEntries entries
  | .null => false
  | .bool _ => false
  | .number _ => false
  | .string _ => false

def holdsItems : List Value → Bool
  | [] => false
  | v :: rest => v.holds || holdsItems rest

def holdsEntries : List (List Char × Value) → Bool
  | [] => false
  | (key, v) :: rest => hidden key || v.holds || holdsEntries rest
end

/-- From a value to one in it. -/
inductive Step where
  | key (name : List Char)
  | item (i : Nat)
deriving DecidableEq

/-- The value at a path through no hidden key, and through no items but those that are kept. -/
def Value.look (kept : List Value → List Value) : List Step → Value → Option Value
  | [], v => some v
  | .key name :: path, .object entries =>
    if hidden name then none else (entries.lookup name).bind (Value.look kept path)
  | .item i :: path, .array items => (kept items)[i]?.bind (Value.look kept path)
  | _ :: _, _ => none

end

mutual
/-- How deep containers are nested. -/
def Value.depth : Value → Nat
  | .array items => depthItems items + 1
  | .object entries => depthEntries entries + 1
  | .null => 1
  | .bool _ => 1
  | .number _ => 1
  | .string _ => 1

def depthItems : List Value → Nat
  | [] => 0
  | v :: rest => max v.depth (depthItems rest)

def depthEntries : List (List Char × Value) → Nat
  | [] => 0
  | (_, v) :: rest => max v.depth (depthEntries rest)
end

mutual
/-- The value and all that is in it, at any depth. -/
def Value.parts : Value → List Value
  | .array items => .array items :: partsItems items
  | .object entries => .object entries :: partsEntries entries
  | .null => [.null]
  | .bool b => [.bool b]
  | .number literal => [.number literal]
  | .string s => [.string s]

def partsItems : List Value → List Value
  | [] => []
  | v :: rest => v.parts ++ partsItems rest

def partsEntries : List (List Char × Value) → List Value
  | [] => []
  | (_, v) :: rest => v.parts ++ partsEntries rest
end

/-- The keys of an object. -/
def Value.keys : Value → List (List Char)
  | .object entries => entries.map Prod.fst
  | _ => []

/-- It is a dict. -/
def Value.isObject : Value → Bool
  | .object _ => true
  | _ => false

/-- It is a list or a dict. -/
def Value.isContainer : Value → Bool
  | .object _ => true
  | .array _ => true
  | _ => false

/-- How many values there are right in it. -/
def Value.width : Value → Nat
  | .object entries => entries.length
  | .array items => items.length
  | _ => 0

/-- Null, a boolean or a number. -/
def Value.isAtom : Value → Bool
  | .null => true
  | .bool _ => true
  | .number _ => true
  | _ => false

section
variable {hidden : List Char → Bool}

theorem items_blanked (items : List Value) :
    List.Forall₂ (fun v v' => v' = v.blanked hidden) items (blankedItems hidden items) := by
  induction items with
  | nil => exact .nil
  | cons v rest ih => exact .cons rfl ih

/-- An entry keeps its key, and its value where the key is not hidden. -/
theorem value_entries_blanked (entries : List (List Char × Value)) :
    List.Forall₂ (fun e e' => e'.1 = e.1 ∧ (hidden e.1 = true ∨ e'.2 = e.2.blanked hidden)) entries
      (blankedEntries hidden entries) := by
  induction entries with
  | nil => exact .nil
  | cons e rest ih =>
    refine .cons ⟨rfl, ?_⟩ ih
    by_cases hkey : hidden e.1 = true
    · exact .inl hkey
    · exact .inr (if_neg hkey)

theorem isContainer_blanked (v : Value) : (v.blanked hidden).isContainer = v.isContainer := by
  cases v <;> rfl

theorem isObject_blanked (v : Value) : (v.blanked hidden).isObject = v.isObject := by
  cases v <;> rfl

theorem blanked_of_not_container {v : Value} (h : v.isContainer = false) : v.blanked hidden = v := by
  cases v with
  | array items => cases h
  | object entries => cases h
  | _ => rfl

theorem holdsItems_eq_false {items : List Value} :
    holdsItems hidden items = false ↔ ∀ v ∈ items, v.holds hidden = false := by
  induction items with
  | nil => simp [holdsItems]
  | cons v rest ih => rw [holdsItems, Bool.or_eq_false_iff, ih, List.forall_mem_cons]

theorem holdsEntries_eq_false {entries : List (List Char × Value)} : holdsEntries hidden entries = false ↔
    ∀ e ∈ entries, hidden e.1 = false ∧ e.2.holds hidden = false := by
  induction entries with
  | nil => simp [holdsEntries]
  | cons e rest ih => rw [holdsEntries, Bool.or_eq_false_iff, Bool.or_eq_false_iff, ih, List.forall_mem_cons]

theorem depth_pos (v : Value) : 0 < v.depth := by
  cases v <;> exact Nat.succ_pos _

theorem depthItems_le_iff {items : List Value} {n : Nat} : depthItems items ≤ n ↔ ∀ v ∈ items, v.depth ≤ n := by
  induction items with
  | nil => simp [depthItems]
  | cons v rest ih => rw [depthItems, Nat.max_le, ih, List.forall_mem_cons]

theorem depthEntries_le_iff {entries : List (List Char × Value)} {n : Nat} :
    depthEntries entries ≤ n ↔ ∀ e ∈ entries, e.2.depth ≤ n := by
  induction entries with
  | nil => simp [depthEntries]
  | cons e rest ih => rw [depthEntries, Nat.max_le, ih, List.forall_mem_cons]

theorem partsItems_eq (items : List Value) : partsItems items = items.flatMap Value.parts := by
  induction items with
  | nil => rfl
  | cons v rest ih => rw [partsItems, List.flatMap_cons, ih]

theorem partsEntries_eq (entries : List (List Char × Value)) :
    partsEntries entries = entries.flatMap fun e => e.2.parts := by
  induction entries with
  | nil => rfl
  | cons e rest ih => rw [partsEntries, List.flatMap_cons, ih]

/-- A value is a part of itself. -/
theorem mem_parts_self (v : Value) : v ∈ v.parts := by
  cases v <;> exact List.mem_cons_self

theorem mem_parts_array {x : Value} {items : List Value} :
    x ∈ (Value.array items).parts ↔ x = .array items ∨ ∃ v ∈ items, x ∈ v.parts := by
  rw [Value.parts, List.mem_cons, partsItems_eq, List.mem_flatMap]

theorem mem_parts_object {x : Value} {entries : List (List Char × Value)} :
    x ∈ (Value.object entries).parts ↔ x = .object entries ∨ ∃ e ∈ entries, x ∈ e.2.parts := by
  rw [Value.parts, List.mem_cons, partsEntries_eq, List.mem_flatMap]

theorem depth_le_items {v : Value} {items : List Value} (h : v ∈ items) : v.depth ≤ depthItems items :=
  depthItems_le_iff.mp (Nat.le_refl _) v h

theorem depth_le_entries {e : List Char × Value} {entries : List (List Char × Value)} (h : e ∈ entries) :
    e.2.depth ≤ depthEntries entries :=
  depthEntries_le_iff.mp (Nat.le_refl _) e h

end

end PyAppRunner.Base.Json
