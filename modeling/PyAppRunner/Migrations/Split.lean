import PyAppRunner.Migrations.States
import PyAppRunner.Sql.Lexing

/-! `split_statements`: a script cut into single statements, for SQLite.

Nothing is assumed of `sqlite3.complete_statement`: the cut is the same text in any case,
and what is left out of the result is no code to SQL either (`classes_of_not_hasCode`),
although `_has_code` looks at one line after the other and knows no literals. -/
namespace PyAppRunner.Migrations
open Base Sql.Lexing

/-- `line.split("--", 1)[0]`. -/
def beforeDashes : List Char → List Char
  | [] => []
  | c :: rest => if c = '-' ∧ nextIs '-' rest then [] else c :: beforeDashes rest

/-- `_has_code`. -/
def hasCode (statement : List Char) : Bool :=
  ((Text.splitlines statement).map fun line => Text.strip (beforeDashes line)).any fun line =>
    line ≠ [] && line ≠ [';']

section
variable (complete : List Char → Bool)

/-- The loop over the parts: what is cut off, and the buffer after the last part. -/
def splitLoop : List Char → List (List Char) → List (List Char) × List Char
  | buffer, [] => ([], buffer)
  | buffer, part :: parts =>
    if complete (buffer ++ part ++ [';']) then
      ((buffer ++ part ++ [';']) :: (splitLoop [] parts).1, (splitLoop [] parts).2)
    else splitLoop (buffer ++ part ++ [';']) parts

/-- The pieces and the remainder, before they are stripped. -/
def cuts (script : List Char) : List (List Char) × List Char := splitLoop complete [] (Text.split ';' script)

/-- `split_statements`; `complete` is `sqlite3.complete_statement`. -/
def splitStatements (script : List Char) : List (List Char) :=
  let (statements, buffer) := cuts complete script
  (statements.map Text.strip ++ [Text.strip buffer.dropLast]).filter hasCode

/-! ### The cut -/

/-- No beginning of the text that ends in a semicolon is complete. -/
def Unfinished (s : List Char) : Prop := ∀ q, q <+: s → q.getLast? = some ';' → complete q = false

/-- Consecutive pieces of a text, each complete and not before its end. -/
structure IsCut (text : List Char) (pieces : List (List Char)) (remainder : List Char) : Prop where
  joined : pieces.flatten ++ remainder = text
  accepted : ∀ p ∈ pieces, complete p = true ∧ p.getLast? = some ';'
  shortest : ∀ p ∈ pieces, ∀ q, q <+: p → q ≠ p → q.getLast? = some ';' → complete q = false
  unfinished : Unfinished complete remainder

variable {complete}

/-- One part more adds one semicolon, at its end. -/
theorem prefix_of_buffer {buffer part q : List Char} (hpart : ';' ∉ part) (hq : q <+: buffer ++ part ++ [';'])
    (hlast : q.getLast? = some ';') : q <+: buffer ∨ q = buffer ++ part ++ [';'] := by
  obtain hall | hq := List.prefix_concat_iff.1 hq
  · exact .inr hall
  · obtain hlt | hle := Nat.lt_or_ge buffer.length q.length
    · obtain ⟨t, rfl⟩ := List.prefix_of_prefix_length_le (List.prefix_append buffer part) hq hlt.le
      have ht : t ≠ [] := by
        rintro rfl
        simp at hlt
      rw [List.getLast?_append_of_ne_nil _ ht] at hlast
      exact absurd ((List.prefix_append_right_inj _).1 hq |>.subset (List.mem_of_getLast? hlast)) hpart
    · exact .inl (List.prefix_of_prefix_length_le hq (List.prefix_append _ _) hle)

/-- A buffer that is not complete with one part more stays unfinished. -/
theorem Unfinished.append {buffer part : List Char} (h : Unfinished complete buffer) (hpart : ';' ∉ part)
    (hmore : complete (buffer ++ part ++ [';']) = false) : Unfinished complete (buffer ++ part ++ [';']) := by
  intro q hq hlast
  obtain hq | rfl := prefix_of_buffer hpart hq hlast
  · exact h q hq hlast
  · exact hmore

theorem unfinished_nil : Unfinished complete [] := by
  intro q hq hlast
  obtain rfl := List.prefix_nil.1 hq
  cases hlast

theorem isCut_splitLoop {buffer : List Char} {parts : List (List Char)} (hbuffer : Unfinished complete buffer)
    (hparts : ∀ part ∈ parts, ';' ∉ part) :
    IsCut complete (buffer ++ (parts.map (· ++ [';'])).flatten) (splitLoop complete buffer parts).1
      (splitLoop complete buffer parts).2 := by
  induction parts generalizing buffer with
  | nil => exact ⟨by simp [splitLoop], by simp [splitLoop], by simp [splitLoop], hbuffer⟩
  | cons part parts ih =>
    have hpart := hparts part List.mem_cons_self
    have hrest : ∀ p ∈ parts, ';' ∉ p := fun p hp => hparts p (List.mem_cons_of_mem _ hp)
    have htext : buffer ++ ((part :: parts).map (· ++ [';'])).flatten =
        buffer ++ part ++ [';'] ++ (parts.map (· ++ [';'])).flatten := by simp
    rw [htext, splitLoop]
    cases hdone : complete (buffer ++ part ++ [';']) with
    | false =>
      rw [if_neg (by simp)]
      exact ih (hbuffer.append hpart hdone) hrest
    | true =>
      rw [if_pos rfl]
      have hcut := ih unfinished_nil hrest
      refine ⟨?_, ?_, ?_, hcut.unfinished⟩
      · rw [List.flatten_cons, List.append_assoc, hcut.joined, List.nil_append]
      · intro p hp
        obtain rfl | hp := List.mem_cons.1 hp
        · exact ⟨hdone, by simp⟩
        · exact hcut.accepted p hp
      · intro p hp q hq hne hlast
        obtain rfl | hp := List.mem_cons.1 hp
        · obtain hq | rfl := prefix_of_buffer hpart hq hlast
          · exact hbuffer q hq hlast
          · exact absurd rfl hne
        · exact hcut.shortest p hp q hq hne hlast

theorem isCut_cuts (script : List Char) :
    IsCut complete (script ++ [';']) (cuts complete script).1 (cuts complete script).2 := by
  have h : IsCut complete ([] ++ ((Text.split ';' script).map (· ++ [';'])).flatten) (cuts complete script).1
      (cuts complete script).2 := isCut_splitLoop unfinished_nil fun _ => Text.not_mem_of_mem_split
  rwa [List.nil_append, Text.flatten_split] at h

end

/-! ### What is left out -/

/-- Nothing but white space, or one semicolon, before the first `--` of the line. -/
def BareLine (line : List Char) : Prop :=
  Text.strip (beforeDashes line) = [] ∨ Text.strip (beforeDashes line) = [';']

theorem hasCode_eq_false_iff {statement : List Char} :
    hasCode statement = false ↔ ∀ line ∈ Text.splitlines statement, BareLine line := by
  simp [hasCode, BareLine, or_iff_not_imp_left]

/-- A character of a statement that is left out, outside the comments. -/
def isBare (c : Char) : Bool := Text.isSpace c || c = ';'

/-- Up to the first `--` of each line. -/
def BareLines (lines : List (List Char)) : Prop := ∀ line ∈ lines, ∀ c ∈ beforeDashes line, isBare c = true

/-- The same of the characters; the flag says whether there was a `--` on the line the text
starts in. -/
def Bare : Bool → List Char → Prop
  | _, [] => True
  | true, c :: rest => Bare (!Text.isLineBreak c) rest
  | false, c :: rest => if c = '-' ∧ nextIs '-' rest then Bare true rest else isBare c = true ∧ Bare false rest

theorem BareLine.chars {line : List Char} (h : BareLine line) : ∀ c ∈ beforeDashes line, isBare c = true := by
  intro c hc
  cases hspace : Text.isSpace c with
  | true => rw [isBare, hspace, Bool.true_or]
  | false =>
    have hmem := Text.mem_strip hc hspace
    obtain hnil | hsemi := h
    · rw [hnil] at hmem
      cases hmem
    · rw [hsemi] at hmem
      simp [isBare, List.mem_singleton.1 hmem]

theorem isBare_of_isLineBreak {c : Char} (h : Text.isLineBreak c = true) : isBare c = true := by
  simp only [Text.isLineBreak, isBare, Text.isSpace, Bool.or_eq_true, Bool.and_eq_true, decide_eq_true_eq,
    beq_iff_eq] at *
  omega

/-- A line break is not a dash. -/
theorem bare_break {c : Char} {rest : List Char} (hc : Text.isLineBreak c = true) (b : Bool) (h : Bare false rest) :
    Bare b (c :: rest) := by
  cases b with
  | true =>
    rw [Bare, hc]
    exact h
  | false =>
    rw [Bare, if_neg]
    · exact ⟨isBare_of_isLineBreak hc, h⟩
    · rintro ⟨rfl, -⟩
      cases hc

/-- The first line starts as the text does. -/
theorem nextIs_of_line {s line : List Char} {lines : List (List Char)} (h : Text.splitlines s = line :: lines)
    {c : Char} (hc : nextIs c line = true) : nextIs c s = true := by
  fun_cases Text.splitlines s with
  | case1 => simp [Text.splitlines] at h
  | case2 rest =>
    rw [Text.splitlines] at h
    cases h
    cases hc
  | case3 d rest hne hbreak =>
    rw [Text.splitlines.eq_3 _ _ hne, if_pos hbreak] at h
    cases h
    cases hc
  | case4 d rest hne hbreak hnil =>
    rw [Text.splitlines.eq_3 _ _ hne, if_neg hbreak, hnil] at h
    cases h
    exact hc
  | case5 d rest hne hbreak first others hsome =>
    rw [Text.splitlines.eq_3 _ _ hne, if_neg hbreak, hsome] at h
    cases h
    exact hc

/-- From the lines to the characters. -/
theorem bare_of_lines (s : List Char) :
    (BareLines (Text.splitlines s) → Bare false s) ∧ (BareLines (Text.splitlines s).tail → Bare true s) := by
  -- The cases of `splitlines`: the end, the two breaks, and a character before or on a line.
  fun_induction Text.splitlines s with
  | case1 => exact ⟨fun _ => trivial, fun _ => trivial⟩
  | case2 rest ih =>
    have hrest (h : BareLines (Text.splitlines rest)) (b : Bool) : Bare b ('\r' :: '\n' :: rest) :=
      bare_break rfl b (bare_break rfl false (ih.1 h))
    exact ⟨fun h => hrest (fun line hline => h line (List.mem_cons_of_mem _ hline)) false, fun h => hrest h true⟩
  | case3 c rest hne hbreak ih =>
    exact ⟨fun h => bare_break hbreak false (ih.1 fun line hline => h line (List.mem_cons_of_mem _ hline)),
      fun h => bare_break hbreak true (ih.1 h)⟩
  | case4 c rest hne hbreak hnil ih =>
    rw [hnil] at ih
    have hbare : Bare false rest := ih.1 fun line hline => by cases hline
    have hafter : Bare true rest := ih.2 fun line hline => by cases hline
    constructor
    · intro h
      rw [Bare]
      split_ifs with hdash
      · exact hafter
      · exact ⟨h [c] List.mem_cons_self c (by simp [beforeDashes, nextIs]), hbare⟩
    · intro _
      rw [Bare, Bool.eq_false_of_not_eq_true hbreak]
      exact hafter
  | case5 c rest hne hbreak line lines hsome ih =>
    rw [hsome] at ih
    constructor
    · intro h
      have hlines : BareLines lines := fun l hl => h l (List.mem_cons_of_mem _ hl)
      rw [Bare]
      split_ifs with hdash
      · exact ih.2 hlines
      · have hkept : beforeDashes (c :: line) = c :: beforeDashes line := by
          rw [beforeDashes, if_neg]
          rintro ⟨hc, hnext⟩
          exact hdash ⟨hc, nextIs_of_line hsome hnext⟩
        have hfirst := h (c :: line) List.mem_cons_self
        rw [hkept] at hfirst
        refine ⟨hfirst c List.mem_cons_self, ih.1 ?_⟩
        intro l hl
        obtain rfl | hl := List.mem_cons.1 hl
        · exact fun d hd => hfirst d (List.mem_cons_of_mem _ hd)
        · exact hlines l hl
    · intro h
      rw [Bare, Bool.eq_false_of_not_eq_true hbreak]
      exact ih.2 h

theorem bare_spaces {spaces : List Char} (h : ∀ c ∈ spaces, Text.isSpace c = true) (b : Bool) : Bare b spaces := by
  induction spaces generalizing b with
  | nil => trivial
  | cons c rest ih =>
    have hrest := ih fun d hd => h d (List.mem_cons_of_mem _ hd)
    have hc := h c List.mem_cons_self
    cases b with
    | true => exact hrest _
    | false =>
      rw [Bare, if_neg]
      · exact ⟨by rw [isBare, hc, Bool.true_or], hrest false⟩
      · rintro ⟨rfl, -⟩
        cases hc

theorem bare_spaces_append {left s : List Char} (h : ∀ c ∈ left, Text.isSpace c = true) (hs : Bare false s) :
    Bare false (left ++ s) := by
  induction left with
  | nil => exact hs
  | cons c rest ih =>
    have hc := h c List.mem_cons_self
    rw [List.cons_append, Bare, if_neg]
    · exact ⟨by rw [isBare, hc, Bool.true_or], ih fun d hd => h d (List.mem_cons_of_mem _ hd)⟩
    · rintro ⟨rfl, -⟩
      cases hc

/-- White space at the end makes no dash the first of two. -/
theorem nextIs_dash_append {s right : List Char} (h : ∀ c ∈ right, Text.isSpace c = true) :
    nextIs '-' (s ++ right) = nextIs '-' s := by
  cases s with
  | cons c rest => rfl
  | nil =>
    cases right with
    | nil => rfl
    | cons c rest =>
      have hc := h c List.mem_cons_self
      rw [List.nil_append]
      simp only [nextIs, List.head?_cons, List.head?_nil]
      rw [beq_eq_false_iff_ne.2, beq_eq_false_iff_ne.2]
      · simp
      · rintro ⟨⟩
        cases hc

theorem Bare.append {b : Bool} {s right : List Char} (hs : Bare b s) (h : ∀ c ∈ right, Text.isSpace c = true) :
    Bare b (s ++ right) := by
  induction s generalizing b with
  | nil => exact bare_spaces h b
  | cons c rest ih =>
    cases b with
    | true => exact ih hs
    | false =>
      rw [List.cons_append, Bare, nextIs_dash_append h]
      rw [Bare] at hs
      split_ifs at hs ⊢ with hdash
      · exact ih hs
      · exact ⟨hs.1, ih hs.2⟩

/-- One character on, and past the end of the line the flag is false. -/
theorem Bare.tail {b : Bool} {c : Char} {rest : List Char} (h : Bare b (c :: rest)) :
    (∃ b', Bare b' rest) ∧ (c = '\n' → Bare false rest) := by
  cases b with
  | true =>
    rw [Bare] at h
    refine ⟨⟨_, h⟩, ?_⟩
    rintro rfl
    exact h
  | false =>
    rw [Bare] at h
    split_ifs at h with hdash
    · refine ⟨⟨true, h⟩, ?_⟩
      rintro rfl
      cases hdash.1
    · exact ⟨⟨false, h.2⟩, fun _ => h.2⟩

/-- At the top level the flag is false; in a `--` comment of SQL it may be either, as there
are more line breaks to Python than to SQL. -/
theorem classes_of_bare (s : List Char) :
    (∀ ident, Bare false s → .code ∉ classes (.normal ident) s) ∧ (∀ b, Bare b s → .code ∉ classes .line s) := by
  induction s with
  | nil => simp [classes]
  | cons c rest ih =>
    obtain ⟨ihNormal, ihLine⟩ := ih
    constructor
    · intro ident h
      rw [classes, step]
      obtain ⟨rfl, hstep⟩ | ⟨rfl, hnext, hstep⟩ | ⟨hsemi, hdash, -, -, hspace⟩ := stepNormal_cases ident c rest
      · rw [Bare, if_neg (by simp)] at h
        rw [hstep]
        simpa using ihNormal false h.2
      · rw [Bare, if_pos ⟨rfl, hnext⟩] at h
        rw [hstep]
        simpa using ihLine true h
      · rw [Bare, if_neg hdash] at h
        have hblank : Text.isSpace c = true := by simpa [isBare, hsemi] using h.1
        rw [hspace hblank]
        simpa using ihNormal false h.2
    · intro b h
      obtain ⟨⟨b', hrest⟩, hbreak⟩ := h.tail
      rw [classes, step]
      split_ifs with hc
      · simpa using ihNormal false (hbreak hc)
      · simpa using ihLine b' hrest

/-- What is left out had no code to SQL before it was stripped. -/
theorem classes_of_not_hasCode {piece : List Char} (h : hasCode (Text.strip piece) = false) :
    .code ∉ classes (.normal false) piece := by
  have hlines : BareLines (Text.splitlines (Text.strip piece)) := fun line hline =>
    (hasCode_eq_false_iff.1 h line hline).chars
  obtain ⟨left, right, heq, hleft, hright⟩ := Text.strip_around piece
  apply (classes_of_bare piece).1
  rw [heq]
  exact (bare_spaces_append hleft ((bare_of_lines _).1 hlines)).append hright

/-- **`split_statements` loses and invents nothing.** The pieces and the remainder are the
script with one semicolon at its end, each piece is the shortest that is complete, and the
result is those pieces stripped, with the remainder without that semicolon; left out is
only what has nothing but white space, one semicolon or a comment on each of its lines,
and so nothing that has code to SQL. -/
theorem split_statements_exact (complete : List Char → Bool) (script : List Char) :
    IsCut complete (script ++ [';']) (cuts complete script).1 (cuts complete script).2 ∧
    splitStatements complete script =
      ((cuts complete script).1.map Text.strip ++ [Text.strip (cuts complete script).2.dropLast]).filter hasCode ∧
    (∀ statement, hasCode statement = false ↔ ∀ line ∈ Text.splitlines statement, BareLine line) ∧
    ∀ piece ∈ (cuts complete script).1 ++ [(cuts complete script).2.dropLast],
      .code ∈ classes (.normal false) piece → Text.strip piece ∈ splitStatements complete script := by
  refine ⟨isCut_cuts script, rfl, fun _ => hasCode_eq_false_iff, ?_⟩
  intro piece hpiece hcode
  have hkept : hasCode (Text.strip piece) = true := by
    cases h : hasCode (Text.strip piece) with
    | true => rfl
    | false => exact absurd hcode (classes_of_not_hasCode h)
  apply List.mem_filter.2 ⟨_, hkept⟩
  have hmap := List.mem_map_of_mem (f := Text.strip) hpiece
  rwa [List.map_append] at hmap

example : splitStatements (fun _ => true) "SELECT 1;\n-- trailing comment\n".toList = ["SELECT 1;".toList] := by decide

end PyAppRunner.Migrations
