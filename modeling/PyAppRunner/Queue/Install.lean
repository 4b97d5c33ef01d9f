import Mathlib.Data.List.Infix
import PyAppRunner.Migrations.New

/-! `queue install`: the schema under the names it was asked for.

The template is shipped with the two names of its tables in it, in the statements, in the
names of the indexes and in a comment, and `cmd_install` puts the other names in their
place, first the one, then the other. The second replacement goes over what the first has
written: a name for the failed table that has `queue_jobs` in it is rewritten itself
(`failed_table_rewritten`).

The names are written without quotes, and `PgQueue` quotes them. So the server makes the
tables that `PgQueue` asks for only where a name is a plain word in lower case. It cuts a
name after 63 bytes, and tables, indexes and sequences share one space of names: the file
runs to its end only if none of its relations gets the name of one that is there
(`runs_installs_iff`, `runs_installs_of_long`). -/
namespace PyAppRunner.Queue.Install
open Base Migrations

/-! ### Replacing -/

/-- No occurrence of `old` begins in the one text and ends in the other. -/
def NoCross (old a b : List Char) : Prop :=
  ∀ u v, old = u ++ v → u ≠ [] → v ≠ [] → u.IsSuffix a → ¬ v.IsPrefix b

section
variable {old new a b s : List Char}

theorem NoCross.tail {c : Char} (h : NoCross old (c :: a) b) : NoCross old a b :=
  fun u v heq hu hv hsuffix => h u v heq hu hv (hsuffix.trans (List.suffix_cons c a))

/-- Passing the rest of an occurrence. -/
theorem replaceFrom_length (old new a b : List Char) :
    replaceFrom old new a.length (a ++ b) = replaceFrom old new 0 b := by
  induction a with
  | nil => rfl
  | cons c a ih =>
    rw [List.length_cons, List.cons_append, replaceFrom, ih]

theorem replaceFrom_append_from {n : Nat} (hn : n ≤ a.length) (h : NoCross old a b) :
    replaceFrom old new n (a ++ b) = replaceFrom old new n a ++ replaceFrom old new 0 b := by
  induction a generalizing n with
  | nil =>
    obtain rfl : n = 0 := by simpa using hn
    cases b <;> simp [replaceFrom]
  | cons c a ih =>
    cases n with
    | succ n =>
      rw [List.cons_append, replaceFrom, replaceFrom, ih (by simpa using hn) h.tail]
    | zero =>
      rw [List.cons_append, replaceFrom, replaceFrom]
      by_cases hwhole : old.IsPrefix (c :: (a ++ b))
      · have hshort : old.length ≤ a.length + 1 := by
          -- Else the occurrence ends in `b`.
          by_contra hlong
          obtain ⟨v, hv⟩ : ∃ v, old = (c :: a) ++ v := by
            obtain ⟨v, hv⟩ := List.prefix_of_prefix_length_le (List.prefix_append (c :: a) b) hwhole (by simp; omega)
            exact ⟨v, hv.symm⟩
          have hne : v ≠ [] := by
            rintro rfl
            simp [hv] at hlong
          refine h (c :: a) v hv (by simp) hne (List.suffix_refl _) ?_
          rw [hv, ← List.cons_append] at hwhole
          exact (List.prefix_append_right_inj (c :: a)).mp hwhole
        have hleft : old.IsPrefix (c :: a) :=
          List.prefix_of_prefix_length_le hwhole (List.prefix_append (c :: a) b) (by simpa using hshort)
        rw [if_pos (List.isPrefixOf_iff_prefix.mpr hwhole), if_pos (List.isPrefixOf_iff_prefix.mpr hleft),
          ih (by omega) h.tail, List.append_assoc]
      · have hleft : ¬ old.IsPrefix (c :: a) := fun hleft => hwhole (hleft.trans (List.prefix_append (c :: a) b))
        rw [if_neg (fun hp => hwhole (List.isPrefixOf_iff_prefix.mp hp)),
          if_neg (fun hp => hleft (List.isPrefixOf_iff_prefix.mp hp)), ih (Nat.zero_le _) h.tail, List.cons_append]

theorem replaceFrom_append (h : NoCross old a b) :
    replaceFrom old new 0 (a ++ b) = replaceFrom old new 0 a ++ replaceFrom old new 0 b :=
  replaceFrom_append_from (Nat.zero_le _) h

theorem replaceFrom_prefix (hold : old ≠ []) : replaceFrom old new 0 (old ++ b) = new ++ replaceFrom old new 0 b := by
  cases old with
  | nil => exact absurd rfl hold
  | cons c rest =>
    have hstarts : (c :: rest).isPrefixOf (c :: (rest ++ b)) = true :=
      List.isPrefixOf_iff_prefix.mpr (List.prefix_append (c :: rest) b)
    rw [List.cons_append, replaceFrom, if_pos hstarts]
    exact congrArg (new ++ ·) (replaceFrom_length (c :: rest) new rest b)

theorem replaceFrom_self (hold : old ≠ []) : replaceFrom old new 0 old = new := by
  have h : replaceFrom old new 0 (old ++ []) = new ++ replaceFrom old new 0 [] := replaceFrom_prefix hold
  simpa [replaceFrom] using h

/-- What is not there is not replaced. -/
theorem replaceFrom_of_not_infix (h : ¬ old.IsInfix s) : replaceFrom old new 0 s = s := by
  induction s with
  | nil => rfl
  | cons c rest ih =>
    have hstarts : ¬ old.IsPrefix (c :: rest) := fun hp => h hp.isInfix
    have hrest : ¬ old.IsInfix rest := fun hi => h (hi.trans (List.infix_cons (List.infix_refl rest)))
    rw [replaceFrom, if_neg (fun hp => hstarts (List.isPrefixOf_iff_prefix.mp hp)), ih hrest]

theorem length_replaceFrom_le (hold : old ≠ []) (hle : new.length ≤ old.length) (n : Nat) (s : List Char) :
    (replaceFrom old new n s).length ≤ s.length - n := by
  have hpos := List.length_pos_iff.mpr hold
  induction s generalizing n with
  | nil => simp [replaceFrom]
  | cons c rest ih =>
    cases n with
    | succ n =>
      have hrest := ih n
      rw [replaceFrom, List.length_cons]
      omega
    | zero =>
      rw [replaceFrom]
      split
      · next hstarts =>
        have hrest := ih (old.length - 1)
        have hfits : old.length ≤ rest.length + 1 := (List.isPrefixOf_iff_prefix.mp hstarts).length_le
        rw [List.length_append, List.length_cons]
        omega
      · have hrest := ih 0
        rw [List.length_cons, List.length_cons]
        omega

theorem le_length_replaceFrom (hold : old ≠ []) (hle : old.length ≤ new.length) (n : Nat) (s : List Char) :
    s.length - n ≤ (replaceFrom old new n s).length := by
  have hpos := List.length_pos_iff.mpr hold
  induction s generalizing n with
  | nil => simp [replaceFrom]
  | cons c rest ih =>
    cases n with
    | succ n =>
      have hrest := ih n
      rw [replaceFrom, List.length_cons]
      omega
    | zero =>
      rw [replaceFrom]
      split
      · have hrest := ih (old.length - 1)
        rw [List.length_append, List.length_cons]
        omega
      · have hrest := ih 0
        rw [List.length_cons, List.length_cons]
        omega

theorem replaceFrom_old (hold : old ≠ []) (n : Nat) (s : List Char) : replaceFrom old old n s = s.drop n := by
  induction s generalizing n with
  | nil => simp [replaceFrom]
  | cons c rest ih =>
    cases n with
    | succ n => rw [replaceFrom, ih, List.drop_succ_cons]
    | zero =>
      rw [replaceFrom, List.drop_zero]
      split
      · next hstarts =>
        obtain ⟨b, hb⟩ := List.isPrefixOf_iff_prefix.mp hstarts
        have hpos := List.length_pos_iff.mpr hold
        have hdrop : rest.drop (old.length - 1) = b := by
          have htail : (old ++ b).drop old.length = (c :: rest).drop old.length := congrArg _ hb
          rw [List.drop_left] at htail
          obtain ⟨k, hk⟩ : ∃ k, old.length = k + 1 := ⟨old.length - 1, by omega⟩
          rw [hk, List.drop_succ_cons] at htail
          rw [hk, htail]
          rfl
        rw [ih, hdrop, hb]
      · rw [ih, List.drop_zero]

/-- The replacement of an occurrence is seen, by its length or by itself. -/
theorem eq_old_of_self (hold : old ≠ []) (h : replaceFrom old new 0 s = s) (hinside : old.IsInfix s) : new = old := by
  induction s with
  | nil => exact absurd (List.eq_nil_of_infix_nil hinside) hold
  | cons c rest ih =>
    by_cases hstarts : old.IsPrefix (c :: rest)
    · obtain ⟨b, hb⟩ := hstarts
      rw [← hb, replaceFrom_prefix hold] at h
      have hlength := congrArg List.length h
      rw [List.length_append, List.length_append] at hlength
      apply (List.append_inj h ?_).1
      obtain hless | hmore := Nat.lt_or_ge old.length new.length
      · have hle := le_length_replaceFrom hold (Nat.le_of_lt hless) 0 b
        omega
      · have hle := length_replaceFrom_le hold hmore 0 b
        omega
    · rw [replaceFrom, if_neg (fun hp => hstarts (List.isPrefixOf_iff_prefix.mp hp))] at h
      apply ih (List.cons.inj h).2
      obtain ⟨left, right, hparts⟩ := hinside
      cases left with
      | nil => exact absurd ⟨right, hparts⟩ hstarts
      | cons d left => exact ⟨left, right, (List.cons.inj hparts).2⟩

theorem replaceFrom_eq_self_iff (hold : old ≠ []) : replaceFrom old new 0 s = s ↔ new = old ∨ ¬ old.IsInfix s := by
  constructor
  · intro h
    by_cases hinside : old.IsInfix s
    · exact .inl (eq_old_of_self hold h hinside)
    · exact .inr hinside
  · intro h
    obtain rfl | hinside := h
    · exact replaceFrom_old hold 0 s
    · exact replaceFrom_of_not_infix hinside

end

/-- Replacing a name by itself is the same as leaving it. -/
theorem toList_renamed {shipped : String} (hshipped : shipped.toList ≠ []) (table schema : String) :
    (renamed shipped table schema).toList = replaceFrom shipped.toList table.toList 0 schema.toList := by
  unfold renamed
  split
  · exact String.toList_ofList
  · next hsame =>
    rw [ne_eq, not_not] at hsame
    rw [hsame, replaceFrom_old hshipped, List.drop_zero]

/-! ### The template -/

/-- A piece of a line of the template. -/
inductive Piece where
  | text (s : String)
  | jobs
  | failed
deriving DecidableEq

/-- A line of the template. -/
abbrev Line := List Piece

/-- `install.pgsql.sql`, line by line. -/
def template : List Line := [
  [.text "-- Job queue schema."],
  [.text "--"],
  [.text "-- Two tables rather than one status column, so ", .jobs, .text " stays the size of the backlog"],
  [.text "-- rather than the size of everything that has ever run."],
  [],
  [.text "CREATE TABLE ", .jobs, .text " ("],
  [.text "    id             bigserial PRIMARY KEY,"],
  [.text "    queue          varchar(64) NOT NULL DEFAULT 'default',"],
  [.text "    name           varchar(190) NOT NULL,"],
  [],
  [.text "    -- JSON rather than pickle: payloads survive a deploy that changes the class, they can"],
  [.text "    -- be read in a SELECT while somebody is asking why a job did not run, and they cannot"],
  [.text "    -- become a deserialisation gadget. That last point is the decisive one - an unpickle on"],
  [.text "    -- this column would be remote code execution sitting in a table, reachable by anything"],
  [.text "    -- that can write a row."],
  [.text "    payload        text NOT NULL,"],
  [],
  [.text "    attempts       integer NOT NULL DEFAULT 0,"],
  [.text "    max_attempts   integer NOT NULL DEFAULT 3,"],
  [.text "    priority       integer NOT NULL DEFAULT 0,"],
  [.text "    unique_key     varchar(190),"],
  [],
  [.text "    available_at   timestamptz NOT NULL,"],
  [],
  [.text "    -- A deadline, not a flag. NULL means nobody holds it, a future value means a worker"],
  [.text "    -- does, and a past value means a worker did and died - so it is claimable again with"],
  [.text "    -- its attempt already spent. That is what makes a killed worker self-healing without a"],
  [.text "    -- heartbeat, a lease renewal or an unlock path."],
  [.text "    reserved_until timestamptz,"],
  [.text "    reserved_by    varchar(64),"],
  [],
  [.text "    last_error     text NOT NULL DEFAULT '',"],
  [.text "    created_at     timestamptz NOT NULL"],
  [.text ");"],
  [],
  [.text "-- The reserve query's index. reserved_until is deliberately left out: it discards very few"],
  [.text "-- rows, and a nullable column here would only stop the index serving the sort."],
  [.text "CREATE INDEX idx_", .jobs, .text "_reserve ON ", .jobs, .text " (queue, priority DESC, available_at, id);"],
  [],
  [.text "-- Repeated NULLs are allowed in a unique index, which is what lets one index cover both"],
  [.text "-- \"at most one pending job per key\" and \"most jobs have no key at all\"."],
  [.text "CREATE UNIQUE INDEX idx_", .jobs, .text "_unique_key ON ", .jobs, .text " (unique_key);"],
  [],
  [.text "CREATE TABLE ", .failed, .text " ("],
  [.text "    id        bigserial PRIMARY KEY,"],
  [.text "    queue     varchar(64) NOT NULL DEFAULT '',"],
  [.text "    name      varchar(190) NOT NULL,"],
  [.text "    payload   text NOT NULL,"],
  [.text "    attempts  integer NOT NULL DEFAULT 0,"],
  [.text "    error     text NOT NULL DEFAULT '',"],
  [.text "    failed_at timestamptz NOT NULL"],
  [.text ");"],
  [],
  [.text "CREATE INDEX idx_", .failed, .text "_failed_at ON ", .failed, .text " (failed_at DESC);"],
  [],
  [.text "-- Retention on the failed table is the application's decision. `queue forget --before` is"],
  [.text "-- the batched delete; nothing prunes it automatically, because a failed job nobody looked"],
  [.text "-- at is exactly the thing that should still be there tomorrow."]]

section
variable (jobs failed : List Char)

/-- A piece with the two names in their places. -/
def Piece.chars : Piece → List Char
  | .text s => s.toList
  | .jobs => jobs
  | .failed => failed

/-- A line with the names in their places. -/
def lineText (l : Line) : List Char := l.flatMap (Piece.chars jobs failed)

/-- The lines, each with its line break. -/
def linesText (lines : List Line) : List Char := lines.flatMap fun l => lineText jobs failed l ++ ['\n']

/-- The template with names in the places of its own. -/
def schema : List Char := linesText jobs failed template

end

def shippedJobs : String := "queue_jobs"

def shippedFailed : String := "queue_failed_jobs"

/-- The template, as it is shipped. -/
def shipped : String := String.ofList (schema shippedJobs.toList shippedFailed.toList)

/-! ### What is written -/

/-- The two differ at a place that both have. -/
def apart : List Char → List Char → Bool
  | c :: a, d :: b => c ≠ d || apart a b
  | _, _ => false

/-- No occurrence of `old` begins in the text. -/
def opensNone (old : List Char) : List Char → Bool
  | [] => true
  | c :: rest => apart old (c :: rest) && opensNone old rest

/-- No occurrence of `old` that began before the text goes on in it. -/
def closesNone (old text : List Char) : Bool := old.tail.tails.all fun rest => rest = [] || apart rest text

/-- The text has to do with `old` neither by itself nor with what is around it, and is in one line. -/
def fits (afterName : Bool) (old text : List Char) : Bool :=
  opensNone old text && (!afterName || closesNone old text) && decide ('\n' ∉ text)

/-- Every text fits where it is, and no name follows another. -/
def cleanLine (old : List Char) : Bool → Line → Bool
  | _, [] => true
  | afterName, .text s :: rest => fits afterName old s.toList && cleanLine old false rest
  | false, .jobs :: rest => cleanLine old true rest
  | false, .failed :: rest => cleanLine old true rest
  | true, .jobs :: _ => false
  | true, .failed :: _ => false

section
variable {old new a b s : List Char}

theorem not_prefix_of_apart (h : apart a b = true) : ¬ a.IsPrefix b ∧ ¬ b.IsPrefix a := by
  induction a generalizing b with
  | nil => cases h
  | cons c a ih =>
    cases b with
    | nil => cases h
    | cons d b =>
      rw [apart, Bool.or_eq_true, decide_eq_true_eq] at h
      rw [List.cons_prefix_cons, List.cons_prefix_cons]
      obtain hne | hrest := h
      · exact ⟨fun hp => hne hp.1, fun hp => hne hp.1.symm⟩
      · exact ⟨fun hp => (ih hrest).1 hp.2, fun hp => (ih hrest).2 hp.2⟩

theorem apart_of_opensNone (h : opensNone old s = true) {rest : List Char} (hne : rest ≠ []) (hsuffix : rest.IsSuffix s) :
    apart old rest = true := by
  induction s with
  | nil => exact absurd (List.suffix_nil.mp hsuffix) hne
  | cons c s ih =>
    rw [opensNone, Bool.and_eq_true] at h
    obtain rfl | hsuffix := List.suffix_cons_iff.mp hsuffix
    · exact h.1
    · exact ih h.2 hsuffix

theorem noCross_of_opensNone (h : opensNone old a = true) : NoCross old a b := by
  intro u v heq hu _ hsuffix _
  exact (not_prefix_of_apart (apart_of_opensNone h hu hsuffix)).2 ⟨v, heq.symm⟩

theorem not_infix_of_opensNone (hold : old ≠ []) (h : opensNone old s = true) : ¬ old.IsInfix s := by
  intro hinside
  obtain ⟨rest, hstarts, hsuffix⟩ := List.infix_iff_prefix_suffix.mp hinside
  have hne : rest ≠ [] := by
    rintro rfl
    exact hold (List.prefix_nil.mp hstarts)
  exact (not_prefix_of_apart (apart_of_opensNone h hne hsuffix)).1 hstarts

theorem noCross_of_closesNone (h : closesNone old s = true) (rest : List Char) : NoCross old a (s ++ rest) := by
  intro u v heq hu hv _ hstarts
  rw [closesNone, List.all_eq_true] at h
  have htail : v.IsSuffix old.tail := by
    cases u with
    | nil => exact absurd rfl hu
    | cons c u =>
      rw [heq]
      exact List.suffix_append u v
  have happart := h v ((List.mem_tails _ _).mpr htail)
  rw [Bool.or_eq_true, decide_eq_true_eq] at happart
  have hnot := not_prefix_of_apart (happart.resolve_left hv)
  obtain hshort | hlong := List.prefix_or_prefix_of_prefix hstarts (List.prefix_append s rest)
  · exact hnot.1 hshort
  · exact hnot.2 hlong

end

section
variable {old new jobs failed : List Char}

theorem lineText_cons (jobs failed : List Char) (p : Piece) (l : Line) :
    lineText jobs failed (p :: l) = p.chars jobs failed ++ lineText jobs failed l := List.flatMap_cons

/-- No occurrence goes on from a name into the rest of the line. -/
theorem noCross_line {a : List Char} {l : Line} (h : cleanLine old true l = true) :
    NoCross old a (lineText jobs failed l) := by
  cases l with
  | nil =>
    intro u v _ _ hv _ hstarts
    exact hv (List.prefix_nil.mp hstarts)
  | cons p l =>
    cases p with
    | text s =>
      rw [cleanLine, fits, Bool.and_eq_true, Bool.and_eq_true, Bool.and_eq_true] at h
      exact noCross_of_closesNone h.1.1.2 (lineText jobs failed l)
    | jobs => cases h
    | failed => cases h

/-- In a line the names are replaced, and nothing else. -/
theorem replaceFrom_line {afterName : Bool} {l : Line} (hold : old ≠ []) (h : cleanLine old afterName l = true) :
    replaceFrom old new 0 (lineText jobs failed l) =
      lineText (replaceFrom old new 0 jobs) (replaceFrom old new 0 failed) l := by
  induction l generalizing afterName with
  | nil => rfl
  | cons p l ih =>
    rw [lineText_cons, lineText_cons]
    cases p with
    | text s =>
      rw [cleanLine, fits, Bool.and_eq_true, Bool.and_eq_true, Bool.and_eq_true] at h
      rw [Piece.chars, replaceFrom_append (noCross_of_opensNone h.1.1.1),
        replaceFrom_of_not_infix (not_infix_of_opensNone hold h.1.1.1), ih h.2]
      rfl
    | jobs | failed =>
      cases afterName with
      | true => cases h
      | false =>
        rw [cleanLine] at h
        rw [← ih h]
        exact replaceFrom_append (noCross_line h)

theorem replaceFrom_lines {lines : List Line} (hbreak : '\n' ∉ old) (hold : old ≠ [])
    (h : ∀ l ∈ lines, cleanLine old false l = true) : replaceFrom old new 0 (linesText jobs failed lines) =
      linesText (replaceFrom old new 0 jobs) (replaceFrom old new 0 failed) lines := by
  induction lines with
  | nil => rfl
  | cons l lines ih =>
    rw [List.forall_mem_cons] at h
    have hnext : replaceFrom old new 0 ('\n' :: linesText jobs failed lines) =
        '\n' :: replaceFrom old new 0 (linesText jobs failed lines) := by
      rw [replaceFrom, if_neg]
      intro hstarts
      obtain ⟨rest, hrest⟩ := List.isPrefixOf_iff_prefix.mp hstarts
      cases old with
      | nil => exact hold rfl
      | cons c old =>
        rw [(List.cons.inj hrest).1] at hbreak
        exact hbreak List.mem_cons_self
    have hcross : NoCross old (lineText jobs failed l) ('\n' :: linesText jobs failed lines) := by
      rintro u v heq - hv - ⟨rest, hrest⟩
      cases v with
      | nil => exact hv rfl
      | cons c v =>
        rw [heq, (List.cons.inj hrest).1] at hbreak
        exact hbreak (List.mem_append_right u List.mem_cons_self)
    have hlines : ∀ jobs failed, linesText jobs failed (l :: lines) =
        lineText jobs failed l ++ '\n' :: linesText jobs failed lines := by
      intro jobs failed
      simp [linesText]
    rw [hlines, hlines, replaceFrom_append hcross, replaceFrom_line hold h.1, hnext, ih h.2]

end

theorem fits_of_toList {afterName : Bool} {old s : List Char} {text : String} (htext : text.toList = s)
    (h : fits afterName old s = true) : fits afterName old text.toList = true := by
  rw [htext, h]

def shippedJobsChars : List Char := ['q', 'u', 'e', 'u', 'e', '_', 'j', 'o', 'b', 's']

def shippedFailedChars : List Char :=
  ['q', 'u', 'e', 'u', 'e', '_', 'f', 'a', 'i', 'l', 'e', 'd', '_', 'j', 'o', 'b', 's']

/-- The texts of the template, one by one. -/
theorem clean_template : ∀ l ∈ template, cleanLine shippedFailedChars false l = true ∧
    cleanLine shippedJobsChars false l = true := by
  simp only [template, List.forall_mem_cons, cleanLine, Bool.and_eq_true]
  and_intros
  all_goals first
    | exact fits_of_toList String.toList_ofList (by decide +kernel)
    | simp

/-- What `cmd_install` writes. -/
def written (table failedTable : String) : String :=
  renamed shippedJobs table (renamed shippedFailed failedTable shipped)

/-- The first replacement gives what is asked for, and the second one goes over the name that
was put there. -/
theorem toList_written (table failedTable : String) : (written table failedTable).toList =
    schema table.toList (replaceFrom shippedJobs.toList table.toList 0 failedTable.toList) := by
  have hjobs : shippedJobs.toList ≠ [] := by decide
  have hfailed : shippedFailed.toList ≠ [] := by decide
  have hother : ¬ shippedFailed.toList.IsInfix shippedJobs.toList := by decide
  rw [written, toList_renamed hjobs, toList_renamed hfailed, shipped, String.toList_ofList, schema,
    replaceFrom_lines (by decide) hfailed (fun l hl => (clean_template l hl).1), replaceFrom_self hfailed,
    replaceFrom_of_not_infix hother, replaceFrom_lines (by decide) hjobs (fun l hl => (clean_template l hl).2),
    replaceFrom_self hjobs]
  rfl

/-! ### The names in it -/

/-- The name of the failed table can be read off the text, whatever else is in it. -/
theorem eq_of_flatMap_eq {jobs failed failed' : List Char} {l : Line} (hfailed : .failed ∈ l)
    (h : l.flatMap (Piece.chars jobs failed) = l.flatMap (Piece.chars jobs failed')) : failed = failed' := by
  have hlength : ∀ l : Line, (l.flatMap (Piece.chars jobs failed)).length + l.count .failed * failed'.length =
      (l.flatMap (Piece.chars jobs failed')).length + l.count .failed * failed.length := by
    intro l
    induction l with
    | nil => simp
    | cons p l ih =>
      rw [List.flatMap_cons, List.flatMap_cons, List.length_append, List.length_append]
      cases p with
      | text s =>
        rw [List.count_cons_of_ne (by simp)]
        simp only [Piece.chars]
        omega
      | jobs =>
        rw [List.count_cons_of_ne (by simp)]
        simp only [Piece.chars]
        omega
      | failed =>
        rw [List.count_cons_self, Nat.succ_mul, Nat.succ_mul]
        simp only [Piece.chars]
        omega
  have hsame : failed.length = failed'.length := by
    have hwhole := hlength l
    have hpos : 0 < l.count .failed := List.count_pos_iff.mpr hfailed
    rw [h] at hwhole
    exact (Nat.eq_of_mul_eq_mul_left hpos (Nat.add_left_cancel hwhole)).symm
  induction l with
  | nil => cases hfailed
  | cons p l ih =>
    rw [List.flatMap_cons, List.flatMap_cons] at h
    have hchars : (p.chars jobs failed).length = (p.chars jobs failed').length := by
      cases p with
      | failed => exact hsame
      | _ => rfl
    obtain ⟨hhead, htail⟩ := List.append_inj h hchars
    obtain rfl | hrest := List.mem_cons.mp hfailed
    · exact hhead
    · exact ih hrest htail

theorem schema_eq_flatMap (jobs failed : List Char) :
    schema jobs failed = (template.flatMap fun l => l ++ [.text "\n"]).flatMap (Piece.chars jobs failed) := by
  rw [schema, linesText, List.flatMap_assoc]
  congr 1
  funext l
  rw [List.flatMap_append]
  rfl

theorem schema_injective {jobs failed failed' : List Char} (h : schema jobs failed = schema jobs failed') :
    failed = failed' := by
  rw [schema_eq_flatMap, schema_eq_flatMap] at h
  exact eq_of_flatMap_eq (by decide) h

/-- The text is the one asked for, if and only if the second replacement leaves the failed
table's name alone. -/
theorem written_eq_iff (table failedTable : String) :
    (written table failedTable).toList = schema table.toList failedTable.toList ↔
      table = shippedJobs ∨ ¬ shippedJobs.toList.IsInfix failedTable.toList := by
  rw [toList_written]
  constructor
  · intro h
    obtain hsame | hnot := (replaceFrom_eq_self_iff (by decide)).mp (schema_injective h)
    · exact .inl (String.toList_inj.mp hsame)
    · exact .inr hnot
  · intro h
    rw [(replaceFrom_eq_self_iff (by decide)).mpr (h.imp_left fun heq => congrArg String.toList heq)]

/-! ### What the server makes of it -/

/-- The name that follows the keywords a line begins with. -/
def nameAfter (keywords line : List Char) : Option (List Char) :=
  if keywords.isPrefixOf line then some ((line.drop keywords.length).takeWhile (· ≠ ' ')) else none

def createTable : List Char := "CREATE TABLE ".toList

def createIndex : List Char := "CREATE INDEX ".toList

def createUniqueIndex : List Char := "CREATE UNIQUE INDEX ".toList

/-- The names after `CREATE TABLE`, as they are written. -/
def tableNames (sql : List Char) : List (List Char) := (Text.split '\n' sql).filterMap (nameAfter createTable)

/-- The name of the index that a line creates. -/
def indexAfter (line : List Char) : Option (List Char) := (nameAfter createIndex line).or (nameAfter createUniqueIndex line)

/-- The names of the indexes, as they are written. -/
def indexNames (sql : List Char) : List (List Char) := (Text.split '\n' sql).filterMap indexAfter

/-- What a line makes: a table, or an index. -/
inductive Create where
  | table (name : List Char)
  | index (name : List Char)

/-- What a line creates. -/
def createAfter (line : List Char) : Option Create :=
  ((nameAfter createTable line).map .table).or ((indexAfter line).map .index)

/-- What the lines create, in their order. -/
def creates (sql : List Char) : List Create := (Text.split '\n' sql).filterMap createAfter

/-! The names of relations are those of tables, indexes and sequences together. -/

/-- `NAMEDATALEN`, without the byte that ends a name. -/
def nameLength : Nat := 63

/-- The relation that a name without quotes is read as. -/
def relation (name : List Char) : List Char := (name.map Char.toLower).take nameLength

/-- What follows the name of a table in that of the sequence of its `id`. -/
def sequenceEnding : List Char := ['_', 'i', 'd', '_', 's', 'e', 'q']

/-- And in that of the index of its primary key. -/
def keyEnding : List Char := ['_', 'p', 'k', 'e', 'y']

/-- `makeObjectName`: it is the name of the table that is cut, not what follows it. -/
def objectName (table suffix : List Char) : List Char := table.take (nameLength - suffix.length) ++ suffix

/-- The names that the server tries for a sequence or the index of a primary key. -/
def attempt (table suffix : List Char) (n : Nat) : List Char :=
  objectName table (if n = 0 then suffix else suffix ++ Nat.toDigits 10 n)

/-- `ChooseRelationName`: the first of them that is free. -/
def choose (taken : List (List Char)) (table suffix : List Char) : List Char :=
  (((List.range (taken.length + 1)).map (attempt table suffix)).find? fun name => !taken.contains name).getD []

/-- A name that is free is taken. -/
def takeName (name : List Char) (taken : List (List Char)) : Option (List (List Char)) :=
  if taken.contains name then none else some (name :: taken)

/-- A table comes after the sequence of its `bigserial` and before the index of its primary key, for
which the server chooses names that are free. -/
def Create.run : Create → List (List Char) → Option (List (List Char))
  | .table name, taken =>
    (takeName (relation name) (choose taken (relation name) sequenceEnding :: taken)).map fun taken =>
      choose taken (relation name) keyEnding :: taken
  | .index name, taken => takeName (relation name) taken

/-- The names that are taken when the file has run; none where a statement is refused. -/
def runs (taken : List (List Char)) : List Create → Option (List (List Char))
  | [] => some taken
  | c :: rest => (c.run taken).bind fun taken => runs taken rest

/-- A name without quotes: in lower case, and in parts. -/
def readName (name : List Char) : List (List Char) := Text.split '.' (name.map Char.toLower)

/-- `_qualified`: the parts that `PgQueue` quotes. -/
def qualified (table : String) : List (List Char) := Text.split '.' table.toList

/-- The name of an index. -/
def indexName (table suffix : List Char) : List Char := ['i', 'd', 'x', '_'] ++ table ++ suffix

/-- What the schema creates, in its order. -/
def installs (jobs failed : List Char) : List Create :=
  [.table jobs, .index (indexName jobs "_reserve".toList), .index (indexName jobs "_unique_key".toList),
    .table failed, .index (indexName failed "_failed_at".toList)]

/-- The file makes these tables, where these relations are there: they are the ones it names, each part cut
to its length, none by a word that is reserved; no index has a name in parts; and it runs to its end. -/
structure Makes (reserved : List Char → Bool) (taken : List (List Char)) (sql : List Char)
    (tables : List (List (List Char))) : Prop where
  names : (tableNames sql).map (fun name => (readName name).map (List.take nameLength)) = tables
  free : ∀ name ∈ tableNames sql, ∀ part, (readName name).head? = some part → reserved part = false
  indexes : ∀ name ∈ indexNames sql, '.' ∉ name
  runs : (runs taken (creates sql)).isSome = true

/-- The file is the template with the two names in their places, and makes the two tables. -/
structure AsAsked (reserved : List Char → Bool) (taken : List (List Char)) (table failedTable : String)
    (sql : String) : Prop where
  text : sql.toList = schema table.toList failedTable.toList
  makes : Makes reserved taken sql.toList [qualified table, qualified failedTable]

/-- One word in lower case, not too long, and not a reserved one. -/
structure PlainName (reserved : List Char → Bool) (table : String) : Prop where
  part : isTablePart table.toList = true
  lower : ∀ c ∈ table.toList, c.toLower = c
  length : table.toList.length ≤ nameLength
  free : reserved table.toList = false

theorem lower_of_all {name : List Char} (h : (name.all fun c => c.toLower == c) = true) : ∀ c ∈ name, c.toLower = c := by
  intro c hc
  exact beq_iff_eq.mp (List.all_eq_true.mp h c hc)

/-! ### Reading it -/

section
variable {jobs failed : List Char}

theorem break_not_mem_line (hjobs : '\n' ∉ jobs) (hfailed : '\n' ∉ failed) {old : List Char} {afterName : Bool} {l : Line}
    (h : cleanLine old afterName l = true) : '\n' ∉ lineText jobs failed l := by
  induction l generalizing afterName with
  | nil => simp [lineText]
  | cons p l ih =>
    rw [lineText_cons, List.mem_append, not_or]
    cases p with
    | text s =>
      rw [cleanLine, fits, Bool.and_eq_true, Bool.and_eq_true, decide_eq_true_eq] at h
      exact ⟨h.1.2, ih h.2⟩
    | jobs =>
      cases afterName with
      | true => cases h
      | false => exact ⟨hjobs, ih h⟩
    | failed =>
      cases afterName with
      | true => cases h
      | false => exact ⟨hfailed, ih h⟩

theorem split_of_not_mem {sep : Char} {s : List Char} (h : sep ∉ s) : Text.split sep s = [s] := by
  induction s with
  | nil => rfl
  | cons c rest ih =>
    rw [List.mem_cons, not_or] at h
    rw [Text.split, if_neg (fun heq => h.1 heq.symm), ih h.2]

/-- The lines of the text are the lines of the template. -/
theorem split_linesText (hjobs : '\n' ∉ jobs) (hfailed : '\n' ∉ failed) {old : List Char} {lines : List Line}
    (h : ∀ l ∈ lines, cleanLine old false l = true) :
    Text.split '\n' (linesText jobs failed lines) = lines.map (lineText jobs failed) ++ [[]] := by
  induction lines with
  | nil => rfl
  | cons l lines ih =>
    rw [List.forall_mem_cons] at h
    have hline : linesText jobs failed (l :: lines) = lineText jobs failed l ++ '\n' :: linesText jobs failed lines := by
      simp [linesText]
    rw [hline, Text.split_append, split_of_not_mem (break_not_mem_line hjobs hfailed h.1), ih h.2]
    rfl

/-- The line begins with a text that does not begin with this character. -/
def beginsOther (c : Char) : Line → Bool
  | .text s :: _ => s.toList.head?.any (· ≠ c)
  | [] => true
  | _ => false

/-- The lines that begin in capitals. -/
def statements : List Line :=
  [[.text "CREATE TABLE ", .jobs, .text " ("],
  [.text "CREATE INDEX idx_", .jobs, .text "_reserve ON ", .jobs, .text " (queue, priority DESC, available_at, id);"],
  [.text "CREATE UNIQUE INDEX idx_", .jobs, .text "_unique_key ON ", .jobs, .text " (unique_key);"],
  [.text "CREATE TABLE ", .failed, .text " ("],
  [.text "CREATE INDEX idx_", .failed, .text "_failed_at ON ", .failed, .text " (failed_at DESC);"]]

theorem nameAfter_other {c : Char} {keywords : List Char} {l : Line} (h : beginsOther c l = true) :
    nameAfter (c :: keywords) (lineText jobs failed l) = none := by
  rw [nameAfter, if_neg]
  intro hstarts
  cases l with
  | nil => simp [lineText] at hstarts
  | cons p l =>
    cases p with
    | text s =>
      rw [beginsOther] at h
      rw [lineText_cons, Piece.chars] at hstarts
      cases hs : s.toList with
      | nil => simp [hs] at h
      | cons d rest =>
        rw [hs, List.cons_append, List.isPrefixOf_iff_prefix, List.cons_prefix_cons] at hstarts
        rw [hs] at h
        simp [hstarts.1] at h
    | jobs => cases h
    | failed => cases h

/-- Every other line of the template begins with something else. -/
theorem filterMap_template {α : Type} {f : Line → Option α} (h : ∀ l, beginsOther 'C' l = true → f l = none) :
    template.filterMap f = statements.filterMap f := by
  have hblank : ∀ {lines right : List Line}, lines.filterMap f = right.filterMap f →
      ([] :: lines).filterMap f = right.filterMap f :=
    fun hlines => (List.filterMap_cons_none (h [] rfl)).trans hlines
  have hskip : ∀ {text : String} {s : List Char} {rest : Line} {lines right : List Line}, text.toList = s →
      s.head?.any (· ≠ 'C') = true → lines.filterMap f = right.filterMap f →
      ((.text text :: rest) :: lines).filterMap f = right.filterMap f := by
    intro text s rest lines right htext hs hlines
    have hother : beginsOther 'C' (.text text :: rest) = true := by rw [beginsOther, htext, hs]
    exact (List.filterMap_cons_none (h _ hother)).trans hlines
  have hkeep : ∀ {l : Line} {lines right : List Line}, lines.filterMap f = right.filterMap f →
      (l :: lines).filterMap f = (l :: right).filterMap f := by
    intro l lines right hlines
    rw [List.filterMap_cons, List.filterMap_cons, hlines]
  unfold template statements
  repeat' first
    | refine hblank ?_
    | refine hskip String.toList_ofList (by decide) ?_
    | refine hkeep ?_
    | exact rfl

theorem nameAfter_append {keywords name rest : List Char} (h : ' ' ∉ name) :
    nameAfter keywords (keywords ++ (name ++ ' ' :: rest)) = some name := by
  have hpass : ∀ c ∈ name, decide (c ≠ ' ') = true := by
    intro c hc
    exact decide_eq_true fun heq => h (heq ▸ hc)
  rw [nameAfter, if_pos (List.isPrefixOf_iff_prefix.mpr (List.prefix_append _ _)), List.drop_left,
    List.takeWhile_append_of_pos hpass, List.takeWhile_cons_of_neg (by simp), List.append_nil]

theorem createTable_eq : createTable = ['C', 'R', 'E', 'A', 'T', 'E', ' ', 'T', 'A', 'B', 'L', 'E', ' '] :=
  String.toList_ofList

theorem createIndex_eq : createIndex = ['C', 'R', 'E', 'A', 'T', 'E', ' ', 'I', 'N', 'D', 'E', 'X', ' '] :=
  String.toList_ofList

theorem createUniqueIndex_eq : createUniqueIndex =
    ['C', 'R', 'E', 'A', 'T', 'E', ' ', 'U', 'N', 'I', 'Q', 'U', 'E', ' ', 'I', 'N', 'D', 'E', 'X', ' '] :=
  String.toList_ofList

theorem lineText_table (p : Piece) : ∃ rest, lineText jobs failed [.text "CREATE TABLE ", p, .text " ("] =
    createTable ++ (p.chars jobs failed ++ ' ' :: rest) := by
  have hopen : " (".toList = [' ', '('] := String.toList_ofList
  refine ⟨['('], ?_⟩
  rw [lineText_cons, lineText_cons, lineText_cons]
  exact congrArg (fun s => createTable ++ (p.chars jobs failed ++ (s ++ []))) hopen

theorem lineText_index {keywords head suffix : List Char} {before after last : String} (p : Piece)
    (hbefore : before.toList = keywords ++ ['i', 'd', 'x', '_']) (hafter : after.toList = suffix ++ ' ' :: head) :
    ∃ rest, lineText jobs failed [.text before, p, .text after, p, .text last] =
      keywords ++ (indexName (p.chars jobs failed) suffix ++ ' ' :: rest) := by
  refine ⟨head ++ (p.chars jobs failed ++ last.toList), ?_⟩
  simp [lineText, Piece.chars, hbefore, hafter, indexName]

/-- What the lines that begin in capitals are. -/
theorem statements_eq : ∃ r₁ r₂ r₃ r₄ r₅, statements.map (lineText jobs failed) =
    [createTable ++ (jobs ++ ' ' :: r₁),
    createIndex ++ (indexName jobs "_reserve".toList ++ ' ' :: r₂),
    createUniqueIndex ++ (indexName jobs "_unique_key".toList ++ ' ' :: r₃),
    createTable ++ (failed ++ ' ' :: r₄),
    createIndex ++ (indexName failed "_failed_at".toList ++ ' ' :: r₅)] := by
  obtain ⟨r₁, h₁⟩ := @lineText_table jobs failed .jobs
  obtain ⟨r₄, h₄⟩ := @lineText_table jobs failed .failed
  have hindex : "CREATE INDEX idx_".toList = createIndex ++ ['i', 'd', 'x', '_'] := by
    rw [createIndex_eq]
    exact String.toList_ofList
  have hunique : "CREATE UNIQUE INDEX idx_".toList = createUniqueIndex ++ ['i', 'd', 'x', '_'] := by
    rw [createUniqueIndex_eq]
    exact String.toList_ofList
  have hreserve : "_reserve ON ".toList = "_reserve".toList ++ ' ' :: ['O', 'N', ' '] := by decide
  have hkey : "_unique_key ON ".toList = "_unique_key".toList ++ ' ' :: ['O', 'N', ' '] := by decide
  have hat : "_failed_at ON ".toList = "_failed_at".toList ++ ' ' :: ['O', 'N', ' '] := by decide
  obtain ⟨r₂, h₂⟩ := @lineText_index jobs failed _ _ _ _ _ " (queue, priority DESC, available_at, id);" .jobs hindex hreserve
  obtain ⟨r₃, h₃⟩ := @lineText_index jobs failed _ _ _ _ _ " (unique_key);" .jobs hunique hkey
  obtain ⟨r₅, h₅⟩ := @lineText_index jobs failed _ _ _ _ _ " (failed_at DESC);" .failed hindex hat
  refine ⟨r₁, r₂, r₃, r₄, r₅, ?_⟩
  rw [statements, List.map_cons, List.map_cons, List.map_cons, List.map_cons, List.map_cons, h₁, h₂, h₃, h₄, h₅]
  rfl

theorem nameAfter_apart {keywords s : List Char} (h : apart keywords s = true) (rest : List Char) :
    nameAfter keywords (s ++ rest) = none := by
  rw [nameAfter, if_neg]
  intro hstarts
  have hnot := not_prefix_of_apart h
  obtain hshort | hlong :=
    List.prefix_or_prefix_of_prefix (List.isPrefixOf_iff_prefix.mp hstarts) (List.prefix_append s rest)
  · exact hnot.1 hshort
  · exact hnot.2 hlong

/-- Only the lines that begin in capitals name anything. -/
theorem filterMap_schema {α : Type} {f : List Char → Option α} (hjobs : '\n' ∉ jobs) (hfailed : '\n' ∉ failed)
    (h : ∀ l, beginsOther 'C' l = true → f (lineText jobs failed l) = none) :
    (Text.split '\n' (schema jobs failed)).filterMap f = (statements.map (lineText jobs failed)).filterMap f := by
  have hblank : f [] = none := h [] rfl
  have htemplate : template.filterMap (f ∘ lineText jobs failed) = statements.filterMap (f ∘ lineText jobs failed) :=
    filterMap_template h
  rw [schema, split_linesText hjobs hfailed fun l hl => (clean_template l hl).1, List.filterMap_append, List.filterMap_map,
    List.filterMap_map, htemplate, List.filterMap_cons_none hblank, List.filterMap_nil, List.append_nil]

theorem tableNames_schema (hjobs : '\n' ∉ jobs) (hfailed : '\n' ∉ failed) (hjobs' : ' ' ∉ jobs) (hfailed' : ' ' ∉ failed) :
    tableNames (schema jobs failed) = [jobs, failed] := by
  have hindex : apart createTable createIndex = true := by
    rw [createTable_eq, createIndex_eq]
    decide
  have hunique : apart createTable createUniqueIndex = true := by
    rw [createTable_eq, createUniqueIndex_eq]
    decide
  have hother : ∀ l, beginsOther 'C' l = true → nameAfter createTable (lineText jobs failed l) = none := by
    intro l hl
    rw [createTable_eq]
    exact nameAfter_other hl
  obtain ⟨r₁, r₂, r₃, r₄, r₅, hstatements⟩ := @statements_eq jobs failed
  rw [tableNames, filterMap_schema hjobs hfailed hother, hstatements,
    List.filterMap_cons_some (nameAfter_append hjobs'), List.filterMap_cons_none (nameAfter_apart hindex _),
    List.filterMap_cons_none (nameAfter_apart hunique _), List.filterMap_cons_some (nameAfter_append hfailed'),
    List.filterMap_cons_none (nameAfter_apart hindex _), List.filterMap_nil]

theorem indexNames_schema (hjobs : '\n' ∉ jobs) (hfailed : '\n' ∉ failed) (hjobs' : ' ' ∉ jobs) (hfailed' : ' ' ∉ failed) :
    indexNames (schema jobs failed) = [indexName jobs "_reserve".toList, indexName jobs "_unique_key".toList,
      indexName failed "_failed_at".toList] := by
  have htable : apart createIndex createTable = true ∧ apart createUniqueIndex createTable = true ∧
      apart createIndex createUniqueIndex = true := by
    rw [createTable_eq, createIndex_eq, createUniqueIndex_eq]
    decide
  have hother : ∀ l, beginsOther 'C' l = true → indexAfter (lineText jobs failed l) = none := by
    intro l hl
    rw [indexAfter, createIndex_eq, createUniqueIndex_eq, nameAfter_other hl, nameAfter_other hl]
    rfl
  have hname : ∀ {table suffix : List Char}, ' ' ∉ table → ' ' ∉ suffix → ' ' ∉ indexName table suffix := by
    intro table suffix htable hsuffix
    simp [indexName, htable, hsuffix]
  have htables : ∀ rest, indexAfter (createTable ++ rest) = none := by
    intro rest
    rw [indexAfter, nameAfter_apart htable.1, nameAfter_apart htable.2.1]
    rfl
  have hindexes : ∀ {name rest : List Char}, ' ' ∉ name → indexAfter (createIndex ++ (name ++ ' ' :: rest)) = some name := by
    intro name rest hblank
    rw [indexAfter, nameAfter_append hblank, Option.some_or]
  have huniques : ∀ {name rest : List Char}, ' ' ∉ name →
      indexAfter (createUniqueIndex ++ (name ++ ' ' :: rest)) = some name := by
    intro name rest hblank
    rw [indexAfter, nameAfter_apart htable.2.2, Option.none_or, nameAfter_append hblank]
  obtain ⟨r₁, r₂, r₃, r₄, r₅, hstatements⟩ := @statements_eq jobs failed
  rw [indexNames, filterMap_schema hjobs hfailed hother, hstatements, List.filterMap_cons_none (htables _),
    List.filterMap_cons_some (hindexes (hname hjobs' (by decide))), List.filterMap_cons_some (huniques (hname hjobs' (by decide))),
    List.filterMap_cons_none (htables _), List.filterMap_cons_some (hindexes (hname hfailed' (by decide))), List.filterMap_nil]

theorem creates_schema (hjobs : '\n' ∉ jobs) (hfailed : '\n' ∉ failed) (hjobs' : ' ' ∉ jobs) (hfailed' : ' ' ∉ failed) :
    creates (schema jobs failed) = installs jobs failed := by
  have hother : ∀ l, beginsOther 'C' l = true → createAfter (lineText jobs failed l) = none := by
    intro l hl
    rw [createAfter, indexAfter, createTable_eq, createIndex_eq, createUniqueIndex_eq, nameAfter_other hl,
      nameAfter_other hl, nameAfter_other hl]
    rfl
  have htable : apart createTable createIndex = true ∧ apart createTable createUniqueIndex = true ∧
      apart createIndex createUniqueIndex = true := by
    rw [createTable_eq, createIndex_eq, createUniqueIndex_eq]
    decide
  have hname : ∀ {table suffix : List Char}, ' ' ∉ table → ' ' ∉ suffix → ' ' ∉ indexName table suffix := by
    intro table suffix htable hsuffix
    simp [indexName, htable, hsuffix]
  have htables : ∀ {name rest : List Char}, ' ' ∉ name →
      createAfter (createTable ++ (name ++ ' ' :: rest)) = some (.table name) := by
    intro name rest hblank
    rw [createAfter, nameAfter_append hblank, Option.map_some, Option.some_or]
  have hindexes : ∀ {name rest : List Char}, ' ' ∉ name →
      createAfter (createIndex ++ (name ++ ' ' :: rest)) = some (.index name) := by
    intro name rest hblank
    rw [createAfter, nameAfter_apart htable.1, Option.map_none, Option.none_or, indexAfter, nameAfter_append hblank,
      Option.some_or, Option.map_some]
  have huniques : ∀ {name rest : List Char}, ' ' ∉ name →
      createAfter (createUniqueIndex ++ (name ++ ' ' :: rest)) = some (.index name) := by
    intro name rest hblank
    rw [createAfter, nameAfter_apart htable.2.1, Option.map_none, Option.none_or, indexAfter, nameAfter_apart htable.2.2,
      Option.none_or, nameAfter_append hblank, Option.map_some]
  obtain ⟨r₁, r₂, r₃, r₄, r₅, hstatements⟩ := @statements_eq jobs failed
  rw [creates, filterMap_schema hjobs hfailed hother, hstatements, List.filterMap_cons_some (htables hjobs'),
    List.filterMap_cons_some (hindexes (hname hjobs' (by decide))),
    List.filterMap_cons_some (huniques (hname hjobs' (by decide))), List.filterMap_cons_some (htables hfailed'),
    List.filterMap_cons_some (hindexes (hname hfailed' (by decide))), List.filterMap_nil]
  rfl

end

/-! ### Names -/

theorem toLower_spec (c : Char) : c.toLower.toLower = c.toLower ∧ (c.toLower = '\n' → c = '\n') := by
  by_cases hascii : c.toNat < 128
  · have hall : ∀ n < 128, (Char.ofNat n).toLower.toLower = (Char.ofNat n).toLower ∧
        ((Char.ofNat n).toLower = '\n' → Char.ofNat n = '\n') := by decide
    have hc := hall c.toNat hascii
    rwa [Char.ofNat_toNat] at hc
  · have hsame : c.toLower = c := by
      unfold Char.toLower
      refine dif_neg ?_
      intro hupper
      exact hascii (Nat.lt_of_le_of_lt hupper.2 (by decide))
    rw [hsame]
    exact ⟨hsame, id⟩

theorem exists_part {sep c : Char} {s : List Char} (hc : c ∈ s) (hne : c ≠ sep) : ∃ part ∈ Text.split sep s, c ∈ part := by
  have hmem : c ∈ ((Text.split sep s).map (· ++ [sep])).flatten := by
    rw [Text.flatten_split]
    exact List.mem_append_left _ hc
  obtain ⟨ended, hended, hc'⟩ := List.mem_flatten.mp hmem
  obtain ⟨part, hpart, rfl⟩ := List.mem_map.mp hended
  exact ⟨part, hpart, (List.mem_append.mp hc').resolve_right (by simpa using hne)⟩

theorem mem_of_mem_part {sep c : Char} {s part : List Char} (hpart : part ∈ Text.split sep s) (hc : c ∈ part) : c ∈ s := by
  have hne : c ≠ sep := fun heq => Text.not_mem_of_mem_split hpart (heq ▸ hc)
  have hmem : c ∈ ((Text.split sep s).map (· ++ [sep])).flatten :=
    List.mem_flatten.mpr ⟨_, List.mem_map_of_mem hpart, List.mem_append_left _ hc⟩
  rw [Text.flatten_split] at hmem
  exact (List.mem_append.mp hmem).resolve_right (by simpa using hne)

/-- A name the server reads is in lower case, and in one line. -/
theorem read_spec {sql name : List Char} {table : String} (hname : name ∈ tableNames sql)
    (hread : (readName name).map (List.take nameLength) = qualified table) :
    '\n' ∉ table.toList ∧ ∀ c ∈ table.toList, c.toLower = c := by
  have hline : '\n' ∉ name := by
    obtain ⟨line, hline, hafter⟩ := List.mem_filterMap.mp hname
    have hbreak := Text.not_mem_of_mem_split hline
    unfold nameAfter at hafter
    split at hafter
    · cases hafter
      intro hmem
      exact hbreak (List.mem_of_mem_drop ((List.takeWhile_prefix _).mem hmem))
    · cases hafter
  -- a character of the table is a dot, or comes from the name
  have hfrom : ∀ c ∈ table.toList, c = '.' ∨ ∃ d ∈ name, d.toLower = c := by
    intro c hc
    by_cases hdot : c = '.'
    · exact .inl hdot
    · obtain ⟨part, hpart, hcpart⟩ := exists_part hc hdot
      rw [← qualified, ← hread] at hpart
      obtain ⟨whole, hwhole, rfl⟩ := List.mem_map.mp hpart
      exact .inr (List.mem_map.mp (mem_of_mem_part hwhole (List.mem_of_mem_take hcpart)))
  constructor
  · intro hbreak
    obtain hdot | ⟨d, hd, hlow⟩ := hfrom _ hbreak
    · cases hdot
    · exact hline ((toLower_spec d).2 hlow ▸ hd)
  · intro c hc
    obtain rfl | ⟨d, -, rfl⟩ := hfrom c hc
    · decide
    · exact (toLower_spec d).1

/-- What is in a name: no blank, no dot and no line break. -/
theorem ne_of_mem_part {s : List Char} (h : isTablePart s = true) {c : Char} (hc : c ∈ s) : c ≠ ' ' ∧ c ≠ '.' ∧ c ≠ '\n' := by
  have hkinds : tableStart c = true ∨ ('0' ≤ c ∧ c ≤ '9') := by
    cases s with
    | nil => cases h
    | cons d rest =>
      rw [isTablePart, Bool.and_eq_true, List.all_eq_true] at h
      obtain rfl | hrest := List.mem_cons.mp hc
      · exact .inl h.1
      · simpa using h.2 c hrest
  refine ⟨?_, ?_, ?_⟩
  all_goals
    rintro rfl
    revert hkinds
    decide

/-- The parts of an accepted name in one line. -/
theorem parts_of_isTableName {table : String} (h : isTableName table = true) (hbreak : '\n' ∉ table.toList) :
    ∀ part ∈ Text.split '.' table.toList, isTablePart part = true := by
  have hwhole : Text.beforeLastBreak table.toList = table.toList := by
    rw [Text.beforeLastBreak, if_neg]
    intro hlast
    exact hbreak (List.mem_of_getLast? hlast)
  rw [isTableName, hwhole] at h
  split at h
  · next name hsplit =>
    rw [hsplit]
    simpa using h
  · next schema name hsplit =>
    rw [hsplit]
    simpa using h
  · cases h

theorem not_blank_of_isTableName {table : String} (h : isTableName table = true) (hbreak : '\n' ∉ table.toList) :
    ' ' ∉ table.toList := by
  intro hmem
  obtain ⟨part, hpart, hc⟩ := @exists_part '.' ' ' _ hmem (by decide)
  exact (ne_of_mem_part (parts_of_isTableName h hbreak part hpart) hc).1 rfl

/-- An index has a name in the schema of its own table just when that table has. -/
theorem dot_mem_indexName {table suffix : List Char} (hsuffix : '.' ∉ suffix) : '.' ∈ indexName table suffix ↔ '.' ∈ table := by
  simp [indexName, hsuffix]

/-- An accepted name that is read as one word, in lower case and as it is configured, is a plain one. -/
theorem PlainName.of_read {reserved : List Char → Bool} {table : String} (htable : isTableName table = true)
    (hbreak : '\n' ∉ table.toList) (hlower : ∀ c ∈ table.toList, c.toLower = c) (hdot : '.' ∉ table.toList)
    (hread : (readName table.toList).map (List.take nameLength) = qualified table)
    (hfree : ∀ part, (readName table.toList).head? = some part → reserved part = false) : PlainName reserved table := by
  have hsplit := split_of_not_mem hdot
  have hparts := parts_of_isTableName htable hbreak
  have hone : readName table.toList = [table.toList] := by
    rw [readName, List.map_congr_left hlower, List.map_id', hsplit]
  rw [hsplit] at hparts
  rw [hone, qualified, hsplit, List.map_singleton] at hread
  refine ⟨hparts _ List.mem_cons_self, hlower, ?_, hfree _ (by rw [hone]; rfl)⟩
  exact List.take_eq_self_iff _ |>.mp (List.cons.inj hread).1

theorem PlainName.clean {reserved : List Char → Bool} {table : String} (h : PlainName reserved table) :
    ' ' ∉ table.toList ∧ '.' ∉ table.toList ∧ '\n' ∉ table.toList :=
  ⟨fun hc => (ne_of_mem_part h.part hc).1 rfl, fun hc => (ne_of_mem_part h.part hc).2.1 rfl,
    fun hc => (ne_of_mem_part h.part hc).2.2 rfl⟩

/-- A plain name is read as it is written, and so configured. -/
theorem PlainName.read {reserved : List Char → Bool} {table : String} (h : PlainName reserved table) :
    readName table.toList = [table.toList] ∧ qualified table = [table.toList] := by
  have hsplit := split_of_not_mem h.clean.2.1
  exact ⟨by rw [readName, List.map_congr_left h.lower, List.map_id', hsplit], hsplit⟩

/-- What the server makes of the schema for two names. -/
theorem makes_schema_iff (reserved : List Char → Bool) (taken : List (List Char)) {table failedTable : String}
    (htable : isTableName table = true) (hfailed : isTableName failedTable = true) :
    Makes reserved taken (schema table.toList failedTable.toList) [qualified table, qualified failedTable] ↔
      PlainName reserved table ∧ PlainName reserved failedTable ∧
        (runs taken (installs table.toList failedTable.toList)).isSome = true := by
  have hreserve : '.' ∉ "_reserve".toList := by decide
  have hkey : '.' ∉ "_unique_key".toList := by decide
  have hat : '.' ∉ "_failed_at".toList := by decide
  -- The tables that the server reads are the two names just where both are plain, and a plain name is read as
  -- it is.
  constructor
  · intro h
    obtain ⟨first, rest, hnames, hread, hrest⟩ := List.map_eq_cons_iff.mp h.names
    obtain ⟨second, rest', rfl, hread', -⟩ := List.map_eq_cons_iff.mp hrest
    obtain ⟨hbreak, hlower⟩ := @read_spec (schema table.toList failedTable.toList) first table (by simp [hnames]) hread
    obtain ⟨hbreak', hlower'⟩ := @read_spec (schema table.toList failedTable.toList) second failedTable (by simp [hnames]) hread'
    have hblank := not_blank_of_isTableName htable hbreak
    have hblank' := not_blank_of_isTableName hfailed hbreak'
    have hfree := h.free
    have hindexes := h.indexes
    have hruns := h.runs
    rw [tableNames_schema hbreak hbreak' hblank hblank'] at hfree hnames
    obtain ⟨rfl, hsecond⟩ := List.cons.inj hnames
    obtain ⟨rfl, -⟩ := List.cons.inj hsecond
    rw [indexNames_schema hbreak hbreak' hblank hblank'] at hindexes
    rw [creates_schema hbreak hbreak' hblank hblank'] at hruns
    have hdot : '.' ∉ table.toList := (dot_mem_indexName hreserve).not.mp (hindexes _ (by simp))
    have hdot' : '.' ∉ failedTable.toList := (dot_mem_indexName hat).not.mp (hindexes _ (by simp))
    exact ⟨.of_read htable hbreak hlower hdot hread (hfree _ (by simp)),
      .of_read hfailed hbreak' hlower' hdot' hread' (hfree _ (by simp)), hruns⟩
  · rintro ⟨hplain, hplain', hruns⟩
    obtain ⟨hblank, hdot, hbreak⟩ := hplain.clean
    obtain ⟨hblank', hdot', hbreak'⟩ := hplain'.clean
    obtain ⟨hread, hparts⟩ := hplain.read
    obtain ⟨hread', hparts'⟩ := hplain'.read
    have htables := tableNames_schema hbreak hbreak' hblank hblank'
    constructor
    · rw [htables, hparts, hparts', List.map_cons, List.map_cons, hread, hread', List.map_singleton, List.map_singleton,
        List.take_of_length_le hplain.length, List.take_of_length_le hplain'.length]
      rfl
    · rw [htables]
      intro name hname part hpart
      simp only [List.mem_cons, List.not_mem_nil, or_false] at hname
      obtain rfl | rfl := hname
      · rw [hread] at hpart
        cases hpart
        exact hplain.free
      · rw [hread'] at hpart
        cases hpart
        exact hplain'.free
    · rw [indexNames_schema hbreak hbreak' hblank hblank']
      intro name hname
      simp only [List.mem_cons, List.not_mem_nil, or_false] at hname
      obtain rfl | rfl | rfl := hname
      · exact (dot_mem_indexName hreserve).not.mpr hdot
      · exact (dot_mem_indexName hkey).not.mpr hdot
      · exact (dot_mem_indexName hat).not.mpr hdot'
    · rw [creates_schema hbreak hbreak' hblank hblank']
      exact hruns

/-! ### Which names are taken -/

section
variable {jobs failed : List Char} {taken : List (List Char)}

theorem runs_index_iff {name : List Char} {rest : List Create} : (runs taken (.index name :: rest)).isSome = true ↔
    relation name ∉ taken ∧ (runs (relation name :: taken) rest).isSome = true := by
  rw [runs, Create.run, takeName]
  by_cases hmem : relation name ∈ taken
  · rw [if_pos (List.contains_iff_mem.mpr hmem)]
    exact ⟨fun h => (by cases h), fun h => absurd hmem h.1⟩
  · rw [if_neg (fun h => hmem (List.contains_iff_mem.mp h))]
    exact ⟨fun h => ⟨hmem, h⟩, fun h => h.2⟩

theorem runs_table_iff {name sequence key : List Char} {rest : List Create}
    (hsequence : choose taken (relation name) sequenceEnding = sequence)
    (hkey : choose (relation name :: sequence :: taken) (relation name) keyEnding = key) :
    (runs taken (.table name :: rest)).isSome = true ↔
      relation name ∉ sequence :: taken ∧ (runs (key :: relation name :: sequence :: taken) rest).isSome = true := by
  subst hsequence hkey
  rw [runs, Create.run, takeName]
  by_cases hmem : relation name ∈ choose taken (relation name) sequenceEnding :: taken
  · rw [if_pos (List.contains_iff_mem.mpr hmem)]
    exact ⟨fun h => (by cases h), fun h => absurd hmem h.1⟩
  · rw [if_neg (fun h => hmem (List.contains_iff_mem.mp h))]
    exact ⟨fun h => ⟨hmem, h⟩, fun h => h.2⟩

/-- The names of both indexes are cut before they differ. -/
theorem runs_installs_of_long (taken : List (List Char)) (hlong : 58 ≤ jobs.length) : runs taken (installs jobs failed) = none := by
  have hsame : relation (indexName jobs "_unique_key".toList) = relation (indexName jobs "_reserve".toList) := by
    have hcut : ∀ suffix, relation (indexName jobs ('_' :: suffix)) =
        (['i', 'd', 'x', '_'] ++ jobs.map Char.toLower ++ ['_']).take nameLength := by
      intro suffix
      have hname : (indexName jobs ('_' :: suffix)).map Char.toLower =
          (['i', 'd', 'x', '_'] ++ jobs.map Char.toLower ++ ['_']) ++ suffix.map Char.toLower := by
        rw [indexName, List.map_append, List.map_append, List.map_cons]
        simp only [List.append_assoc, List.cons_append, List.nil_append]
        rfl
      rw [relation, hname]
      refine List.take_append_of_le_length ?_
      simp only [List.length_append, List.length_map, List.length_cons, List.length_nil, nameLength]
      omega
    have hkey : "_unique_key".toList = '_' :: "unique_key".toList := by decide
    have hreserve : "_reserve".toList = '_' :: "reserve".toList := by decide
    rw [hkey, hreserve, hcut, hcut]
  rw [← Option.not_isSome_iff_eq_none, installs, runs_table_iff rfl rfl, runs_index_iff, runs_index_iff, hsame]
  rintro ⟨-, -, hfree, -⟩
  exact hfree List.mem_cons_self

theorem relation_of_lower {name : List Char} (hlower : name.map Char.toLower = name) (hlength : name.length ≤ nameLength) :
    relation name = name := by
  rw [relation, hlower, List.take_of_length_le hlength]

/-- A chosen name goes on from that of the table, and does not end like that of an index. -/
theorem choose_spec {table suffix : List Char} (hlength : table.length ≤ 48) (htaken : taken.length < 9)
    (hsuffix : suffix = sequenceEnding ∨ suffix = keyEnding) :
    choose taken table suffix = [] ∨ ∃ added, choose taken table suffix = table ++ added ∧ added ≠ [] ∧
      added.getLast? ≠ some 't' := by
  unfold choose
  cases hfind : ((List.range (taken.length + 1)).map (attempt table suffix)).find? fun name => !taken.contains name with
  | none => exact .inl rfl
  | some name =>
    right
    obtain ⟨n, hn, rfl⟩ := List.mem_map.mp (List.mem_of_find?_eq_some hfind)
    rw [List.mem_range] at hn
    obtain ⟨added, hadded, hne, hlast, hadds⟩ : ∃ added, (if n = 0 then suffix else suffix ++ Nat.toDigits 10 n) = added ∧
        added ≠ [] ∧ added.getLast? ≠ some 't' ∧ added.length ≤ 8 := by
      have hall : ∀ n < 10, ∀ suffix ∈ [sequenceEnding, keyEnding],
          (if n = 0 then suffix else suffix ++ Nat.toDigits 10 n) ≠ [] ∧
          (if n = 0 then suffix else suffix ++ Nat.toDigits 10 n).getLast? ≠ some 't' ∧
          (if n = 0 then suffix else suffix ++ Nat.toDigits 10 n).length ≤ 8 := by decide +kernel
      exact ⟨_, rfl, hall n (by omega) suffix (by simpa using hsuffix)⟩
    refine ⟨added, ?_, hne, hlast⟩
    rw [Option.getD_some, attempt, hadded, objectName, List.take_of_length_le]
    rw [nameLength]
    omega

/-- The first attempt, if it is free. -/
theorem choose_first {table suffix : List Char} (hlength : table.length + suffix.length ≤ nameLength)
    (hfree : table ++ suffix ∉ taken) : choose taken table suffix = table ++ suffix := by
  have hattempt : attempt table suffix 0 = table ++ suffix := by
    rw [attempt, if_pos rfl, objectName, List.take_of_length_le (by omega)]
  unfold choose
  rw [List.range_succ_eq_map, List.map_cons, hattempt, List.find?_cons_of_pos (by simpa using hfree)]
  rfl

/-- Short names in lower case are taken as they are written. -/
theorem relation_short {table suffix : List Char} (htable : table.map Char.toLower = table) (hlength : table.length ≤ 48)
    (hsuffix : suffix.map Char.toLower = suffix) (hshort : suffix.length ≤ 11) :
    relation table = table ∧ relation (indexName table suffix) = indexName table suffix := by
  refine ⟨relation_of_lower htable (by rw [nameLength]; omega), relation_of_lower ?_ ?_⟩
  · rw [indexName, List.map_append, List.map_append, htable, hsuffix]
    rfl
  · simp only [indexName, nameLength, List.length_append, List.length_cons, List.length_nil]
    omega

theorem ne_of_length_ne {a b : List Char} (h : a.length ≠ b.length) : a ≠ b := fun heq => h (congrArg List.length heq)

theorem length_indexName (table suffix : List Char) : (indexName table suffix).length = table.length + suffix.length + 4 := by
  simp only [indexName, List.length_append, List.length_cons, List.length_nil]
  omega

theorem getLast?_failedIndex (table : List Char) : (indexName table "_failed_at".toList).getLast? = some 't' := by
  rw [indexName, List.getLast?_append]
  rfl

/-- The index of the failed table has a last letter that nothing around another table has. -/
theorem failedIndex_ne_append (failed table : List Char) {ending : List Char} {c : Char} (hending : ending.getLast? = some c)
    (hc : c ≠ 't') : indexName failed "_failed_at".toList ≠ table ++ ending := by
  intro heq
  have hlast := getLast?_failedIndex failed
  rw [heq, List.getLast?_append, hending] at hlast
  exact hc (Option.some.inj hlast)

/-- A name chosen for the failed table is neither the table's nor its index's. -/
theorem choose_apart {table suffix : List Char} (hne : table ≠ []) (hlength : table.length ≤ 48) (htaken : taken.length < 9)
    (hsuffix : suffix = sequenceEnding ∨ suffix = keyEnding) :
    table ≠ choose taken table suffix ∧ indexName table "_failed_at".toList ≠ choose taken table suffix := by
  have hlast := getLast?_failedIndex table
  obtain hnone | ⟨added, hchosen, hadded, hend⟩ := choose_spec hlength htaken hsuffix
  · rw [hnone]
    refine ⟨hne, fun heq => ?_⟩
    rw [heq] at hlast
    cases hlast
  · rw [hchosen]
    refine ⟨fun heq => hadded (List.self_eq_append_right.mp heq), fun heq => hend ?_⟩
    rw [heq, List.getLast?_append_of_ne_nil _ hadded] at hlast
    exact hlast

/-- The names around the jobs table differ in their lengths. -/
theorem jobs_names_apart (jobs : List Char) : jobs ∉ [jobs ++ sequenceEnding] ∧
    indexName jobs "_reserve".toList ∉ [jobs ++ keyEnding, jobs, jobs ++ sequenceEnding] ∧
    indexName jobs "_unique_key".toList ∉
      [indexName jobs "_reserve".toList, jobs ++ keyEnding, jobs, jobs ++ sequenceEnding] := by
  have hreserve : "_reserve".toList.length = 8 := by decide
  have hunique : "_unique_key".toList.length = 11 := by decide
  simp only [List.mem_cons, not_or, List.not_mem_nil, not_false_eq_true, and_true]
  and_intros
  all_goals
    refine ne_of_length_ne ?_
    simp only [length_indexName, hreserve, hunique, List.length_append, sequenceEnding, keyEnding, List.length_cons,
      List.length_nil]
    omega

/-- **Which short names do not collide.** The failed table is neither the sequence nor an index of the
other one, which in turn is not its index. -/
theorem runs_installs_iff (hjobs : jobs.map Char.toLower = jobs) (hfailed : failed.map Char.toLower = failed)
    (hjobsLength : jobs.length ≤ 48) (hfailedLength : failed.length ≤ 48) (hne : failed ≠ []) :
    (runs [] (installs jobs failed)).isSome = true ↔
      failed ≠ jobs ∧ failed ≠ jobs ++ sequenceEnding ∧ failed ≠ jobs ++ keyEnding ∧
      failed ≠ indexName jobs "_reserve".toList ∧ failed ≠ indexName jobs "_unique_key".toList ∧
      jobs ≠ indexName failed "_failed_at".toList := by
  obtain ⟨hrelJobs, hrelReserve⟩ := relation_short hjobs hjobsLength
    (show "_reserve".toList.map Char.toLower = _ by decide) (by decide)
  obtain ⟨-, hrelKey⟩ := relation_short hjobs hjobsLength (show "_unique_key".toList.map Char.toLower = _ by decide) (by decide)
  obtain ⟨hrelFailed, hrelAt⟩ := relation_short hfailed hfailedLength
    (show "_failed_at".toList.map Char.toLower = _ by decide) (by decide)
  -- the sequence and the primary key of the first table get the names they are first tried with
  have hsequence : choose [] (relation jobs) sequenceEnding = jobs ++ sequenceEnding := by
    rw [hrelJobs]
    exact choose_first (by simp only [nameLength, sequenceEnding, List.length_cons, List.length_nil]; omega) List.not_mem_nil
  have hkey : choose [relation jobs, jobs ++ sequenceEnding] (relation jobs) keyEnding = jobs ++ keyEnding := by
    rw [hrelJobs]
    refine choose_first (by simp only [nameLength, keyEnding, List.length_cons, List.length_nil]; omega) ?_
    simp [keyEnding, sequenceEnding]
  rw [installs, runs_table_iff hsequence hkey, runs_index_iff, runs_index_iff, runs_table_iff rfl rfl, runs_index_iff,
    hrelJobs, hrelReserve, hrelKey, hrelFailed, hrelAt]
  generalize hsequence' : choose _ failed sequenceEnding = sequence
  generalize hkey' : choose _ failed keyEnding = key
  obtain ⟨hfailedSequence, hatSequence⟩ : failed ≠ sequence ∧ indexName failed "_failed_at".toList ≠ sequence := by
    rw [← hsequence']
    exact choose_apart hne hfailedLength (by simp) (.inl rfl)
  obtain ⟨-, hatKey⟩ : failed ≠ key ∧ indexName failed "_failed_at".toList ≠ key := by
    rw [← hkey']
    exact choose_apart hne hfailedLength (by simp) (.inr rfl)
  have hatFailed : indexName failed "_failed_at".toList ≠ failed :=
    ne_of_length_ne (by rw [length_indexName]; omega)
  have hat {table ending : List Char} {c : Char} := @failedIndex_ne_append failed table ending c
  obtain ⟨hbefore, hreserveFree, huniqueFree⟩ := jobs_names_apart jobs
  simp only [List.mem_cons, not_or, List.not_mem_nil, not_false_eq_true, and_true] at hbefore hreserveFree huniqueFree ⊢
  constructor
  · rintro ⟨-, -, -, ⟨-, hkey, hreserve, hprimary, hjobs, hid⟩, ⟨-, -, -, -, -, -, hindex, -⟩, -⟩
    exact ⟨hjobs, hid, hprimary, hreserve, hkey, Ne.symm hindex⟩
  · rintro ⟨hjobs, hid, hprimary, hreserve, hkey, hindex⟩
    exact ⟨hbefore, hreserveFree, huniqueFree, ⟨hfailedSequence, hkey, hreserve, hprimary, hjobs, hid⟩,
      ⟨hatKey, hatFailed, hatSequence, hat (c := 'y') (by decide) (by decide), hat (c := 'e') (by decide) (by decide),
        hat (c := 'y') (by decide) (by decide), hindex.symm, hat (c := 'q') (by decide) (by decide)⟩, rfl⟩

/-- A failed table by the name of the primary key of the other one. -/
example : runs [] (installs "jobs".toList "jobs_pkey".toList) = none := by decide +kernel

end

/-! ### The command -/

theorem dir_install {disk : Disk} {dir : Directory} {rename : String → String} {name schema : String} {now : DateTime}
    (htemplate : disk.template = some schema) (hexit : (install disk dir rename name now).exit = some 0) :
    ∃ filename free, (install disk dir rename name now).dir = dir.create filename (.file (utf8 (rename schema))) free := by
  unfold install at hexit ⊢
  rw [htemplate] at hexit ⊢
  dsimp only at hexit ⊢
  split at hexit
  · cases hexit
  · next hdir =>
    rw [if_neg hdir]
    split at hexit
    · cases hexit
    · next filename hfilename =>
      split at hexit
      · cases hexit
      · next hfree =>
        split at hexit
        · cases hexit
        · next hwritable => exact ⟨filename, hfree, by rw [dif_neg hfree, if_neg hwritable]⟩

theorem asAsked_iff (reserved : List Char → Bool) (taken : List (List Char)) {table failedTable : String}
    (htable : isTableName table = true) (hfailed : isTableName failedTable = true) :
    AsAsked reserved taken table failedTable (written table failedTable) ↔
      (table = shippedJobs ∨ ¬ shippedJobs.toList.IsInfix failedTable.toList) ∧
        PlainName reserved table ∧ PlainName reserved failedTable ∧
        (runs taken (installs table.toList failedTable.toList)).isSome = true := by
  rw [← written_eq_iff, ← makes_schema_iff reserved taken htable hfailed]
  constructor
  · intro h
    have hmakes := h.makes
    rw [h.text] at hmakes
    exact ⟨h.text, hmakes⟩
  · intro ⟨htext, hmakes⟩
    refine ⟨htext, ?_⟩
    rw [htext]
    exact hmakes

/-- **The file that `cmd_install` writes is the one asked for if and only if** the failed table's name
does not have `queue_jobs` in it, or that is the name of the other table, both are plain, and
no relation of the file gets the name of one that is there by then. -/
theorem install_as_asked_iff (reserved : List Char → Bool) (taken : List (List Char)) (disk : Disk) (dir : Directory)
    (now : DateTime) (table failedTable : String) (htemplate : disk.template = some shipped)
    (hexit : (queueInstall disk dir table failedTable now).exit = some 0) :
    ∃ filename free, (queueInstall disk dir table failedTable now).dir =
        dir.create filename (.file (utf8 (written table failedTable))) free ∧
      (AsAsked reserved taken table failedTable (written table failedTable) ↔
        (table = shippedJobs ∨ ¬ shippedJobs.toList.IsInfix failedTable.toList) ∧
          PlainName reserved table ∧ PlainName reserved failedTable ∧
          (runs taken (installs table.toList failedTable.toList)).isSome = true) := by
  by_cases htable : isTableName table = true
  · by_cases hfailed : isTableName failedTable = true
    · rw [queueInstall, if_neg (by simp [htable]), if_neg (by simp [hfailed])] at hexit ⊢
      obtain ⟨filename, free, hdir⟩ := dir_install htemplate hexit
      exact ⟨filename, free, hdir, asAsked_iff reserved taken htable hfailed⟩
    · rw [queueInstall, if_neg (by simp [htable]), if_pos (by simpa using hfailed)] at hexit
      cases hexit
  · rw [queueInstall, if_pos (by simpa using htable)] at hexit
    cases hexit

def shippedDisk : Disk := {utf8Disk with template := some shipped}

theorem install_other_names : ∃ filename free,
    (queueInstall shippedDisk oneFile "jobs" "jobs_failed" {morning with second := 31}).dir =
        oneFile.create filename (.file (utf8 (written "jobs" "jobs_failed"))) free ∧
      AsAsked (fun _ => false) ["users".toList] "jobs" "jobs_failed" (written "jobs" "jobs_failed") := by
  obtain ⟨filename, free, hdir, hiff⟩ := install_as_asked_iff (fun _ => false) ["users".toList] shippedDisk oneFile
    {morning with second := 31} "jobs" "jobs_failed" rfl (by decide +kernel)
  refine ⟨filename, free, hdir, hiff.mpr ⟨.inr (by decide), ?_, ?_, by decide +kernel⟩⟩
  · exact ⟨by decide, lower_of_all (by decide), by decide, rfl⟩
  · exact ⟨by decide, lower_of_all (by decide), by decide, rfl⟩

/-- The name of the failed table has the other one's shipped name in it: the file makes a table
that nobody asked for, and `PgQueue` looks for one that is not there. -/
theorem failed_table_rewritten :
    (queueInstall shippedDisk oneFile "jobs" "queue_jobs_failed" {morning with second := 31}).exit = some 0 ∧
    tableNames (written "jobs" "queue_jobs_failed").toList = ["jobs".toList, "jobs_failed".toList] ∧
    ¬ AsAsked (fun _ => false) [] "jobs" "queue_jobs_failed" (written "jobs" "queue_jobs_failed") := by
  refine ⟨by decide +kernel, ?_, ?_⟩
  · have hreplaced : replaceFrom shippedJobs.toList "jobs".toList 0 "queue_jobs_failed".toList = "jobs_failed".toList := by
      decide
    rw [toList_written, hreplaced, tableNames_schema (by decide) (by decide) (by decide) (by decide)]
  · rw [asAsked_iff (fun _ => false) [] (by decide) (by decide)]
    intro h
    exact h.1.elim (by decide) fun hnot => hnot (by decide)

end PyAppRunner.Queue.Install
