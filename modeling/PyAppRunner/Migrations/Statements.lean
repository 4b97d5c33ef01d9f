import PyAppRunner.Migrations.Apply
import PyAppRunner.Sql.Lexing

/-! `count_statements` against the statements a file holds.

The count takes every `--` for a comment, also one in a literal, and so can lose the
semicolons after it on the line. A text is counted short only where all the semicolons
between two of its statements are lost in this way. -/
namespace PyAppRunner.Migrations
open Base Sql.Lexing

/-- Which characters `stripLineComments` leaves. -/
def keeps : Bool → List Char → List Bool
  | _, [] => []
  | true, c :: rest => if c = '\n' then true :: keeps false rest else false :: keeps true rest
  | false, c :: rest => if c = '-' ∧ nextIs '-' rest then false :: keeps true rest else true :: keeps false rest

/-- What each character is part of in SQL, and whether the count sees it. -/
def marks (m : Mode) (b : Bool) (s : List Char) : List (CharClass × Bool) := (classes m s).zip (keeps b s)

def isSemicolon (x : CharClass × Bool) : Bool := x.1 == .semicolon

/-- A semicolon between statements that the count sees. -/
def isCounted (x : CharClass × Bool) : Bool := x.1 == .semicolon && x.2

def isCode (x : CharClass × Bool) : Bool := x.1 == .code

/-- Of the semicolons between two statements of the text, at least one does not stand behind
a `--` on its line. -/
def Unhidden (sql : String) : Prop := Parted isSemicolon isCounted isCode (marks (.normal false) false sql.toList)

/-- The number of statements in a text, as SQL reads it. -/
def statementsIn (sql : String) : Nat := statements sql.toList

/-! ### What the strip leaves -/

theorem length_classes (m : Mode) (s : List Char) : (classes m s).length = s.length := by
  induction s generalizing m with
  | nil => rfl
  | cons c rest ih => rw [classes, List.length_cons, ih, List.length_cons]

/-- Inside a comment of the strip, one character on. -/
theorem strip_hidden (c : Char) (rest : List Char) :
    (c = '\n' ∧ stripLineComments true (c :: rest) = c :: stripLineComments false rest ∧
      keeps true (c :: rest) = true :: keeps false rest) ∨
    (c ≠ '\n' ∧ stripLineComments true (c :: rest) = stripLineComments true rest ∧
      keeps true (c :: rest) = false :: keeps true rest) := by
  by_cases hc : c = '\n'
  · exact .inl ⟨hc, by rw [stripLineComments, if_pos hc], by rw [keeps, if_pos hc]⟩
  · exact .inr ⟨hc, by rw [stripLineComments, if_neg hc], by rw [keeps, if_neg hc]⟩

/-- Outside, one character on: the second dash of a `--` is inside already. -/
theorem strip_seen (c : Char) (rest : List Char) :
    (c = '-' ∧ nextIs '-' rest = true ∧ stripLineComments false (c :: rest) = stripLineComments true rest ∧
      keeps false (c :: rest) = false :: keeps true rest) ∨
    (¬ (c = '-' ∧ nextIs '-' rest = true) ∧ stripLineComments false (c :: rest) = c :: stripLineComments false rest ∧
      keeps false (c :: rest) = true :: keeps false rest) := by
  by_cases hdash : c = '-' ∧ nextIs '-' rest = true
  · refine .inl ⟨hdash.1, hdash.2, ?_, by rw [keeps, if_pos hdash]⟩
    obtain ⟨rfl, hnext⟩ := hdash
    cases rest with
    | nil => simp [nextIs] at hnext
    | cons d rest =>
      obtain rfl : d = '-' := by simpa [nextIs] using hnext
      rfl
  · refine .inr ⟨hdash, ?_, by rw [keeps, if_neg hdash]⟩
    rw [stripLineComments.eq_4]
    rintro tail rfl rfl
    exact hdash ⟨rfl, rfl⟩

/-! ### The count -/

/-- What holds while the text is read by SQL and by the strip: `part` says whether the part
the strip is in has something but white space, `credit` whether a part since the last
counted semicolon had, `code` whether there was code since then. -/
structure Aligned (m : Mode) (b part credit code : Bool) : Prop where
  inside : m.inside = true → part = true ∨ credit = true
  hidden : b = true → m = .line ∨ part = true ∨ credit = true
  line : m = .line → b = true
  code : code = true → part = true ∨ credit = true

/-- With something to show for the statement it is in, only the line comments are left to check. -/
theorem aligned_of_filled {m : Mode} {b part credit code : Bool} (h : part = true ∨ credit = true)
    (hline : m = .line → b = true) : Aligned m b part credit code :=
  ⟨fun _ => h, fun _ => .inr h, hline, fun _ => h⟩

theorem aligned_line {part credit code : Bool} (h : code = true → part = true ∨ credit = true) :
    Aligned .line true part credit code :=
  ⟨Bool.noConfusion, fun _ => .inl rfl, fun _ => rfl, h⟩

theorem aligned_normal {ident part credit code : Bool} (h : code = true → part = true ∨ credit = true) :
    Aligned (.normal ident) false part credit code :=
  ⟨Bool.noConfusion, Bool.noConfusion, Mode.noConfusion, h⟩

/-- The counts after a character that the strip leaves, and that is no counted semicolon. -/
theorem count_kept {c : Char} {part credit : Bool} {n : Nat} (rest : List Char)
    (h : ∀ part' credit', (part' || credit') = (part || credit || (c != ';' && !Text.isSpace c)) →
      n ≤ pieces (fun x => decide (x = ';')) (fun x => !Text.isSpace x) part' rest + credit'.toNat) :
    n ≤ pieces (fun x => decide (x = ';')) (fun x => !Text.isSpace x) part (c :: rest) + credit.toNat := by
  by_cases hc : c = ';'
  · rw [pieces_sep (by simpa using hc)]
    have := h false (part || credit) (by simp [hc])
    have hor : (part || credit).toNat ≤ part.toNat + credit.toNat := by cases part <;> cases credit <;> decide
    omega
  · rw [pieces_other (by simpa using hc)]
    apply h
    simp [Bool.or_right_comm, bne_iff_ne.2 hc]

/-- In a comment of the strip, before the end of the line. -/
theorem Aligned.hide {m : Mode} {part credit code : Bool} (h : Aligned m true part credit code) {c : Char}
    (hc : c ≠ '\n') (rest : List Char) :
    Aligned (step m c rest).2 true part credit (code || (step m c rest).1 == .code) := by
  obtain rfl | hfilled := h.hidden rfl
  · rw [step, if_neg hc]
    exact aligned_line (by simpa using h.code)
  · exact aligned_of_filled hfilled (fun _ => rfl)

/-- At the two dashes that begin a comment of the strip. -/
theorem Aligned.dash {m : Mode} {part credit code : Bool} (h : Aligned m false part credit code) {rest : List Char}
    (hnext : nextIs '-' rest = true) :
    Aligned (step m '-' rest).2 true part credit (code || (step m '-' rest).1 == .code) := by
  cases hin : m.inside with
  | true => exact aligned_of_filled (h.inside hin) (fun _ => rfl)
  | false =>
    cases m with
    | normal ident =>
      have hstep : step (.normal ident) '-' rest = (.comment, .line) := by
        rw [step, stepNormal, if_neg (by decide), if_pos ⟨rfl, hnext⟩]
      rw [hstep]
      exact aligned_line (by simpa using h.code)
    | line => cases h.line rfl
    | _ => cases hin

/-- A character that the strip leaves is a counted semicolon, or the two readings stay
aligned however the parts are cut. -/
theorem Aligned.keep {m : Mode} {b part credit code : Bool} (h : Aligned m b part credit code) {c : Char}
    {rest : List Char} (hkept : b = true ∧ c = '\n' ∨ b = false ∧ ¬ (c = '-' ∧ nextIs '-' rest = true)) :
    (c = ';' ∧ step m c rest = (.semicolon, .normal false)) ∨
    ((step m c rest).1 ≠ .semicolon ∧
      ∀ part' credit', (part' || credit') = (part || credit || (c != ';' && !Text.isSpace c)) →
        Aligned (step m c rest).2 false part' credit' (code || (step m c rest).1 == .code)) := by
  -- Inside a literal or comment nothing separates, whatever the character.
  by_cases hin : m.inside = true
  · obtain ⟨hclass, hmode⟩ := step_inside hin c rest
    refine .inr ⟨hclass, ?_⟩
    intro part' credit' hparts
    apply aligned_of_filled _ (fun hl => absurd hl hmode)
    rw [← Bool.or_eq_true, hparts]
    have := h.inside hin
    simp [this]
  cases m with
  | normal ident =>
    obtain ⟨rfl, heq⟩ | ⟨rfl, hnext, -⟩ | ⟨hsemi, -, hclass, hmode, hspace⟩ := stepNormal_cases ident c rest
    · exact .inl ⟨rfl, heq⟩
    · obtain ⟨-, hbreak⟩ | ⟨-, hdash⟩ := hkept
      · cases hbreak
      · exact absurd ⟨rfl, hnext⟩ hdash
    · refine .inr ⟨hclass, ?_⟩
      intro part' credit' hparts
      by_cases hblank : Text.isSpace c = true
      · rw [step, hspace hblank]
        rw [hblank, Bool.not_true, Bool.and_false, Bool.or_false] at hparts
        apply aligned_normal
        intro hcode
        rw [← Bool.or_eq_true, hparts, Bool.or_eq_true]
        exact h.code (by simpa using hcode)
      · apply aligned_of_filled _ (fun hl => absurd hl hmode)
        rw [← Bool.or_eq_true, hparts]
        simp [hsemi, hblank]
  -- A comment to the end of the line is stripped, but for its line break.
  | line =>
    obtain ⟨hb, rfl⟩ | ⟨hb, -⟩ := hkept
    · refine .inr ⟨by simp [step], ?_⟩
      intro part' credit' hparts
      have hblank : Text.isSpace '\n' = true := by decide
      rw [hblank, Bool.not_true, Bool.and_false, Bool.or_false] at hparts
      apply aligned_normal
      intro hcode
      rw [← Bool.or_eq_true, hparts, Bool.or_eq_true]
      exact h.code (by simpa [step] using hcode)
    · rw [h.line rfl] at hb
      cases hb
  | _ => exact absurd rfl hin

theorem counted_le (m : Mode) (b part credit code : Bool) (s : List Char) (h : Aligned m b part credit code) :
    pieces isCounted isCode code (marks m b s) ≤
      pieces (fun x => decide (x = ';')) (fun x => !Text.isSpace x) part (stripLineComments b s) + credit.toNat := by
  induction s generalizing m b part credit code with
  | nil =>
    have hcode := h.code
    cases code <;> cases part <;> cases credit <;> simp_all [marks, classes, stripLineComments, pieces]
  | cons c rest ih =>
    have hkeep (hkept : b = true ∧ c = '\n' ∨ b = false ∧ ¬ (c = '-' ∧ nextIs '-' rest = true)) :
        pieces isCounted isCode code (((step m c rest).1, true) :: marks (step m c rest).2 false rest) ≤
          pieces (fun x => decide (x = ';')) (fun x => !Text.isSpace x) part
            (c :: stripLineComments false rest) + credit.toNat := by
      obtain ⟨rfl, hstep⟩ | ⟨hclass, halign⟩ := h.keep hkept
      · rw [hstep, pieces_sep rfl, pieces_sep (by simp)]
        have := ih (.normal false) false false false false (aligned_normal Bool.noConfusion)
        have hcode := h.code
        rw [Bool.toNat_false] at this
        cases code <;> cases part <;> cases credit <;> simp_all
        all_goals omega
      · rw [pieces_other (by simp [isCounted, hclass])]
        apply count_kept
        intro part' credit' hparts
        exact ih _ _ _ _ _ (halign part' credit' hparts)
    cases b with
    | true =>
      obtain ⟨rfl, hstrip, hkeeps⟩ | ⟨hc, hstrip, hkeeps⟩ := strip_hidden c rest
      · rw [marks, classes, hkeeps, hstrip]
        exact hkeep (.inl ⟨rfl, rfl⟩)
      · rw [marks, classes, hkeeps, hstrip, List.zip_cons_cons, pieces_other (by simp [isCounted])]
        exact ih _ _ _ _ _ (h.hide hc rest)
    | false =>
      obtain ⟨rfl, hnext, hstrip, hkeeps⟩ | ⟨hdash, hstrip, hkeeps⟩ := strip_seen c rest
      · rw [marks, classes, hkeeps, hstrip, List.zip_cons_cons, pieces_other (by simp [isCounted])]
        exact ih _ _ _ _ _ (h.dash hnext)
      · rw [marks, classes, hkeeps, hstrip]
        exact hkeep (.inr ⟨rfl, hdash⟩)

theorem length_keeps (b : Bool) (s : List Char) : (keeps b s).length = s.length := by
  induction s generalizing b with
  | nil => cases b <;> rfl
  | cons c rest ih => cases b <;> rw [keeps] <;> split <;> rw [List.length_cons, ih, List.length_cons]

theorem statements_eq_pieces (sql : String) :
    statementsIn sql = pieces isSemicolon isCode false (marks (.normal false) false sql.toList) := by
  have hfst : (marks (.normal false) false sql.toList).map Prod.fst = classes (.normal false) sql.toList := by
    apply List.map_fst_zip
    rw [length_classes, length_keeps]
  rw [statementsIn, statements, ← hfst, pieces_map]
  rfl

theorem isSemicolon_of_isCounted (x : CharClass × Bool) (h : isCounted x = true) : isSemicolon x = true :=
  (Bool.and_eq_true_iff.1 h).1

theorem not_isSemicolon_of_isCode (x : CharClass × Bool) (h : isCode x = true) : isSemicolon x = false := by
  have hcode : x.1 = .code := by simpa [isCode] using h
  simp [isSemicolon, hcode]

/-- Where no semicolon that matters is hidden, the count is not short. -/
theorem statements_le_count {sql : String} (h : Unhidden sql) : statementsIn sql ≤ countStatements sql := by
  have hcounted := counted_le (.normal false) false false false false sql.toList (aligned_normal Bool.noConfusion)
  rw [Bool.toNat_false, Nat.add_zero, ← length_filter_split] at hcounted
  rw [statements_eq_pieces]
  exact (pieces_le_coarse isSemicolon_of_isCounted not_isSemicolon_of_isCode h).trans hcounted

/-- Of the texts that are counted as one statement, those are one where none is hidden. -/
theorem statements_le_one_iff {sql : String} (h : countStatements sql ≤ 1) : statementsIn sql ≤ 1 ↔ Unhidden sql := by
  constructor
  · intro hone
    rw [statements_eq_pieces] at hone
    exact parted_of_pieces_le_one not_isSemicolon_of_isCode hone
  · intro hshown
    exact (statements_le_count hshown).trans h

/-! ### What is sent outside a transaction -/

section
variable {σ : Type}

theorem executed_subset (b : Behaviour σ) (sqlite : Bool) (queue : List MigrationFile) (db : Db σ) :
    (applyQueue b sqlite queue db).executed ⊆ queue := by
  obtain ⟨k, hk, -⟩ := applyQueue_recorded b sqlite queue db
  rcases hk.executed with hexec | hexec
  · rw [hexec]
    exact List.take_subset k queue
  · rw [hexec]
    exact List.take_subset (k + 1) queue

/-- Whatever is sent has passed the scan. -/
theorem scan_of_mem_applyStates {b : Behaviour σ} {sqlite dryRun : Bool} {queue : List MigrationFile} {db : Db σ}
    {f : MigrationFile} (h : f ∈ (applyStates b sqlite dryRun queue db).executed) : scan sqlite f = none := by
  unfold applyStates at h
  split at h
  · cases h
  · split at h
    · cases h
    · next hscan =>
      split at h
      · cases h
      · have hmem : f ∈ (applyQueue b sqlite queue db).executed := by
          simp only at h
          split at h <;> exact h
        exact List.findSome?_eq_none_iff.1 hscan f (executed_subset b sqlite queue db hmem)

theorem scan_of_mem_executed {b : Behaviour σ} {conn : Connection} {files : Except String (List MigrationFile)}
    {dryRun : Bool} {upTo : Option String} {db : Db σ} {f : MigrationFile}
    (h : f ∈ (cmdApply b conn files dryRun upTo db).executed) : scan conn.sqlite f = none := by
  unfold cmdApply at h
  split at h
  · cases h
  · split at h
    · cases h
    · simp only at h
      split at h
      · cases h
      · split at h
        · split at h
          · cases h
          · exact scan_of_mem_applyStates h
        · exact scan_of_mem_applyStates h

/-- A no-transaction file that passes the scan is counted as one statement at most. -/
theorem count_le_one_of_scan {sqlite : Bool} {f : MigrationFile} (h : scan sqlite f = none)
    (hno : f.noTransaction = true) : countStatements f.sql ≤ 1 := by
  unfold scan at h
  split at h
  · cases h
  · split at h
    · cases h
    · next hcount =>
      rw [hno, Bool.true_and, decide_eq_true_eq] at hcount
      omega

/-- **How far the count can be trusted.** It is not below the number of statements unless all
the semicolons between two statements are hidden behind a `--` on their lines; and what
`cmd_apply` sends outside a transaction is more than one statement exactly when they are. -/
theorem sent_alone_iff_unhidden (b : Behaviour σ) (conn : Connection) (files : Except String (List MigrationFile))
    (dryRun : Bool) (upTo : Option String) (db : Db σ) :
    (∀ sql, Unhidden sql → statementsIn sql ≤ countStatements sql) ∧
    (∀ sql, countStatements sql ≤ 1 → (statementsIn sql ≤ 1 ↔ Unhidden sql)) ∧
    ∀ f ∈ (cmdApply b conn files dryRun upTo db).executed, f.noTransaction = true →
      (statementsIn f.sql ≤ 1 ↔ Unhidden f.sql) := by
  refine ⟨fun sql => statements_le_count, fun sql => statements_le_one_iff, ?_⟩
  intro f hf hno
  exact statements_le_one_iff (count_le_one_of_scan (scan_of_mem_executed hf) hno)

end

/-- A semicolon in a comment hides nothing: there is only one statement. -/
theorem commented_semicolon_unhidden :
    statementsIn "CREATE INDEX CONCURRENTLY i ON t (x); -- then; later" = 1 ∧
      Unhidden "CREATE INDEX CONCURRENTLY i ON t (x); -- then; later" :=
  have hone : statementsIn "CREATE INDEX CONCURRENTLY i ON t (x); -- then; later" = 1 := by decide +kernel
  ⟨hone, ((sent_alone_iff_unhidden obliging ⟨false, true⟩ (.ok []) false none ⟨[], ()⟩).2.1 _
    (by decide +kernel)).1 hone.le⟩

/-- Two statements; the semicolon between them stands behind the dashes of a literal. -/
def dashedFile : MigrationFile :=
  { name := "2026-08-04-091530-drop-drafts.sql"
    stamp := "2026-08-04-091530"
    sql := "-- migrations:no-transaction\nUPDATE notes SET body = 'a -- b'; DROP TABLE drafts;"
    checksum := "c0ffee"
    noTransaction := true
    foreignKeysOff := false }

/-- It is counted as one statement and sent whole. -/
theorem dashed_file_sent :
    statementsIn dashedFile.sql = 2 ∧ countStatements dashedFile.sql = 1 ∧
      ¬ statementsIn dashedFile.sql ≤ countStatements dashedFile.sql ∧
      dashedFile ∈ (cmdApply obliging ⟨false, true⟩ (.ok [dashedFile]) false none ⟨[], ()⟩).executed := by
  decide +kernel

end PyAppRunner.Migrations
