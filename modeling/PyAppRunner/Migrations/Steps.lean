import PyAppRunner.Migrations.Commands

/-! `cmd_apply --to`, several times over, and once without.

The queue is in the order of the file names and `--to` cuts it by timestamp, so that each
run takes a first part of what is pending and leaves the rest to the next. A run checks all
of its own queue before it executes any of it, so a file that does not pass stops a plain
run before the files in front of it and a `--to` run only when it is reached. -/
namespace PyAppRunner.Migrations
open Base

/-- The files without a row, in order. -/
def waiting (files : List MigrationFile) (rows : List AppliedRow) : List MigrationFile :=
  files.filter fun f => f.name ∉ rows.map AppliedRow.name

/-! ### The queue -/

theorem queueOf_upTo (states : List MigrationState) (t : String) :
    queueOf states (some t) = (queueOf states none).filter fun f => f.stamp ≤ t := by
  simp [queueOf]

theorem mem_queueOf {files : List MigrationFile} {rows : List AppliedRow}
    (hdistinct : (files.map MigrationFile.name).Nodup) {f : MigrationFile} :
    f ∈ queueOf (computeStates files rows) none ↔ f ∈ waiting files rows := by
  have hqueue := unrecorded_queueOf files rows none
  simp only [waiting, List.mem_filter, decide_eq_true_eq]
  constructor
  · intro hf
    exact ⟨hqueue.mem f hf, hqueue.pending f hf⟩
  · rintro ⟨hf, hrow⟩
    have hlisted := ((computeStates_names files rows).2 f.name).2 (.inl (List.mem_map_of_mem hf))
    obtain ⟨s, hs, hname⟩ := List.mem_map.1 hlisted
    obtain ⟨hfile, hstate⟩ := of_mem_computeStates hs
    rw [hname, byName_eq hdistinct hf] at hfile hstate
    rw [rowsByName_eq_none.2 hrow] at hstate
    simp only [queueOf, pending, List.filter_true, List.mem_filterMap, List.mem_filter, decide_eq_true_eq]
    exact ⟨s, ⟨hs, hstate⟩, hfile⟩

theorem nodup_of_lt {l : List MigrationFile} (h : l.Pairwise fun f g => f.name < g.name) :
    (l.map MigrationFile.name).Nodup := by
  refine List.pairwise_map.2 (h.imp fun {f g} hlt heq => ?_)
  rw [heq] at hlt
  exact String.lt_irrefl _ hlt

theorem queueOf_eq_waiting {files : List MigrationFile} (hsorted : files.Pairwise fun f g => f.name < g.name)
    (rows : List AppliedRow) : queueOf (computeStates files rows) none = waiting files rows := by
  have hqueue := List.pairwise_map.1 (names_queueOf files rows none)
  have hwaiting : (waiting files rows).Pairwise fun f g => f.name < g.name := hsorted.filter _
  have hperm : (queueOf (computeStates files rows) none).Perm (waiting files rows) := by
    rw [List.perm_ext_iff_of_nodup (nodup_of_lt hqueue).of_map (nodup_of_lt hwaiting).of_map]
    intro f
    exact mem_queueOf (nodup_of_lt hsorted)
  apply hperm.eq_of_pairwise _ hqueue hwaiting
  intro f g _ _ hfg hgf
  exact absurd (String.lt_trans hfg hgf) (String.lt_irrefl _)

/-- A list in which nothing that is in comes after something that is out. -/
theorem filter_append_filter {α : Type} {p : α → Bool} {l : List α} (h : l.Pairwise fun a b => p b = true → p a = true) :
    l.filter p ++ l.filter (fun a => !p a) = l := by
  induction l with
  | nil => rfl
  | cons a rest ih =>
    obtain ⟨ha, hrest⟩ := List.pairwise_cons.1 h
    cases hp : p a with
    | true => rw [List.filter_cons_of_pos hp, List.filter_cons_of_neg (by simp [hp]), List.cons_append, ih hrest]
    | false =>
      have hout : ∀ b ∈ a :: rest, p b = false := by
        intro b hb
        obtain rfl | hb := List.mem_cons.1 hb
        · exact hp
        · cases hpb : p b with
          | false => rfl
          | true => rw [ha b hb hpb] at hp; cases hp
      rw [List.filter_eq_nil_iff.2 fun b hb => by simp [hout b hb], List.filter_eq_self.2 fun b hb => by simp [hout b hb],
        List.nil_append]

/-- A list in the order of its timestamps is cut in two at any timestamp. -/
theorem filter_stamp_append {l : List MigrationFile} (h : l.Pairwise fun f g => f.stamp < g.stamp) (t : String) :
    l.filter (fun f => f.stamp ≤ t) ++ l.filter (fun f => ¬ f.stamp ≤ t) = l := by
  have hcut := filter_append_filter (l := l) (p := fun f => decide (f.stamp ≤ t)) (h.imp fun {f g} hfg hg => ?_)
  · simpa only [decide_not] using hcut
  · have hle : f.stamp ≤ g.stamp := String.not_lt.1 fun hgf => String.lt_irrefl _ (String.lt_trans hfg hgf)
    exact decide_eq_true (String.le_trans hle (of_decide_eq_true hg))

/-- The first part of the queue, up to the timestamp. -/
def cutAt (t : String) (queue : List MigrationFile) : List MigrationFile := queue.filter fun f => f.stamp ≤ t

theorem waiting_append (files new : List MigrationFile) (rows : List AppliedRow) :
    waiting files (rows ++ new.map rowOf) = (waiting files rows).filter fun f => f.name ∉ new.map MigrationFile.name := by
  have hnames : (new.map rowOf).map AppliedRow.name = new.map MigrationFile.name := by simp [rowOf, Function.comp_def]
  rw [waiting, waiting, List.filter_filter]
  apply List.filter_congr
  intro f _
  rw [List.map_append, hnames, ← Bool.decide_and, decide_eq_decide, List.mem_append, not_or]
  exact and_comm

/-- What a run leaves waiting after it has recorded the first part. -/
theorem waiting_recorded {files : List MigrationFile} (rows : List AppliedRow)
    (hdistinct : (files.map MigrationFile.name).Nodup) (t : String) :
    waiting files (rows ++ (cutAt t (waiting files rows)).map rowOf) =
      (waiting files rows).filter fun f => ¬ f.stamp ≤ t := by
  have hwaiting : ((waiting files rows).map MigrationFile.name).Nodup := hdistinct.sublist (List.filter_sublist.map _)
  rw [waiting_append]
  apply List.filter_congr
  intro f hf
  rw [decide_eq_decide, not_iff_not, List.mem_map]
  constructor
  · rintro ⟨g, hg, hname⟩
    obtain ⟨hg, hle⟩ := List.mem_filter.1 hg
    obtain rfl := List.inj_on_of_nodup_map hwaiting hg hf hname
    exact of_decide_eq_true hle
  · intro hle
    exact ⟨f, List.mem_filter.2 ⟨hf, decide_eq_true hle⟩, rfl⟩

/-! ### Runs in which all SQL succeeds -/

section
variable {σ : Type}

/-- The database refuses nothing. -/
structure Succeeds (b : Behaviour σ) : Prop where
  exec : ∀ f data, (b.exec f data).2 = true
  checked : ∀ f data, b.checked f data = true
  recorded : ∀ f db, b.recorded f db = true
  committed : ∀ f db, b.committed f db = true

theorem applyFile_succeeds {b : Behaviour σ} (hb : Succeeds b) (sqlite : Bool) (f : MigrationFile) (db : Db σ) :
    applyFile b sqlite f db = (⟨db.rows ++ [rowOf f], (b.exec f db.data).1⟩, true) := by
  simp [applyFile, hb.exec, hb.checked, hb.recorded, hb.committed]

theorem applyQueue_succeeds {b : Behaviour σ} (hb : Succeeds b) (sqlite : Bool) (queue : List MigrationFile)
    (db : Db σ) :
    (applyQueue b sqlite queue db).exit = 0 ∧ (applyQueue b sqlite queue db).executed = queue ∧
      (applyQueue b sqlite queue db).db.rows = db.rows ++ queue.map rowOf := by
  induction queue generalizing db with
  | nil => simp [applyQueue]
  | cons f rest ih =>
    obtain ⟨hexit, hexecuted, hrows⟩ := ih ⟨db.rows ++ [rowOf f], (b.exec f db.data).1⟩
    rw [applyQueue, applyFile_succeeds hb]
    refine ⟨hexit, congrArg (f :: ·) hexecuted, ?_⟩
    rw [List.map_cons]
    simpa using hrows

theorem applyStates_succeeds {b : Behaviour σ} (hb : Succeeds b) {sqlite : Bool} {queue : List MigrationFile}
    (hscan : ∀ f ∈ queue, scan sqlite f = none) (db : Db σ) :
    (applyStates b sqlite false queue db).executed = queue ∧
      (applyStates b sqlite false queue db).db.rows = db.rows ++ queue.map rowOf := by
  by_cases hempty : queue = []
  · simp [applyStates, hempty]
  · obtain ⟨hexit, hexecuted, hrows⟩ := applyQueue_succeeds hb sqlite queue db
    rw [applyStates, if_neg hempty, List.findSome?_eq_none_iff.2 hscan]
    simp [hexit, hexecuted, hrows]

/-- No name is DRIFT or MISSING. -/
def Clear (files : List MigrationFile) (rows : List AppliedRow) : Prop := blocking (computeStates files rows) = []

theorem clear_iff {files : List MigrationFile} {rows : List AppliedRow} :
    Clear files rows ↔ ∀ name, stateAt files rows name ≠ some .drift ∧ stateAt files rows name ≠ some .missing := by
  rw [Clear, blocking, List.filter_eq_nil_iff]
  constructor
  · intro h name
    constructor
    · intro hdrift
      obtain ⟨s, hs, -, hstate⟩ := mem_of_stateAt hdrift
      exact h s hs (by simp [hstate])
    · intro hmissing
      obtain ⟨s, hs, -, hstate⟩ := mem_of_stateAt hmissing
      exact h s hs (by simp [hstate])
  · intro h s hs
    obtain ⟨hdrift, hmissing⟩ := h s.name
    rw [(stateAt_of_mem hs).1] at hdrift hmissing
    simp only [Bool.or_eq_true, decide_eq_true_eq, not_or]
    exact ⟨fun heq => hdrift (by rw [heq]), fun heq => hmissing (by rw [heq])⟩

/-- New rows of pending files block nothing. -/
theorem Clear.append {files new : List MigrationFile} {rows : List AppliedRow} (h : Clear files rows)
    (hdistinct : (files.map MigrationFile.name).Nodup) (hnew : Unrecorded files rows new) :
    Clear files (rows ++ new.map rowOf) := by
  rw [clear_iff] at h ⊢
  intro name
  by_cases hmem : name ∈ new.map MigrationFile.name
  · rw [((stateAt_stamped hdistinct hnew name).1 hmem).2]
    simp
  · rw [((stateAt_stamped hdistinct hnew name).2 hmem).1]
    exact h name

/-- A run that is not refused, with all of its queue in order. -/
theorem cmdApply_succeeds {b : Behaviour σ} (hb : Succeeds b) {conn : Connection} (hauto : conn.autocommit = true)
    {files : List MigrationFile} {db : Db σ} (hclear : Clear files db.rows) {upTo : Option String}
    (hknown : ∀ t, upTo = some t → t ∈ known (computeStates files db.rows))
    (hscan : ∀ f ∈ queueOf (computeStates files db.rows) upTo, scan conn.sqlite f = none) :
    (cmdApply b conn (.ok files) false upTo db).executed = queueOf (computeStates files db.rows) upTo ∧
      (cmdApply b conn (.ok files) false upTo db).db.rows =
        db.rows ++ (queueOf (computeStates files db.rows) upTo).map rowOf := by
  obtain ⟨hrefused, -⟩ | ⟨-, heq⟩ := cmdApply_cases b conn (.ok files) upTo db
  · obtain hnot | ⟨e, he⟩ | ⟨fs, hfs, hblocked⟩ | ⟨fs, t, hfs, hto, hunknown⟩ := hrefused
    · rw [hauto] at hnot
      cases hnot
    · cases he
    · cases hfs
      exact absurd hclear hblocked
    · cases hfs
      exact absurd (hknown t hto) hunknown
  · rw [heq]
    exact applyStates_succeeds hb hscan db

/-! ### Several runs -/

/-- `cmd_apply` time after time over one directory: what each run executed. -/
def applyEach (digest : Bytes → String) (dir : Directory) (b : Behaviour σ) (conn : Connection) :
    List (Option String) → Db σ → List (List MigrationFile)
  | [], _ => []
  | upTo :: rest, db =>
    match applyIn (discover digest dir) b conn false upTo db with
    | none => [] :: applyEach digest dir b conn rest db
    | some ran => ran.executed :: applyEach digest dir b conn rest ran.db

variable {digest : Bytes → String} {dir : Directory} {files : List MigrationFile} {b : Behaviour σ} {conn : Connection}

theorem applyEach_cons (hdir : discover digest dir = .ok files) (upTo : Option String) (rest : List (Option String))
    (db : Db σ) :
    applyEach digest dir b conn (upTo :: rest) db =
      (cmdApply b conn (.ok files) false upTo db).executed ::
        applyEach digest dir b conn rest (cmdApply b conn (.ok files) false upTo db).db := by
  rw [applyEach, hdir]
  rfl

/-- What may stand before a run: nothing is blocked, and all that is waiting passes the scan. -/
structure Ready (files : List MigrationFile) (sqlite : Bool) (rows : List AppliedRow) : Prop where
  clear : Clear files rows
  scanned : ∀ f ∈ waiting files rows, scan sqlite f = none

/-- A `--to` run executes a first part of what is waiting, and the rest is as ready as before. -/
theorem run_upTo (hdir : discover digest dir = .ok files) (hb : Succeeds b) (hauto : conn.autocommit = true)
    {db : Db σ} (h : Ready files conn.sqlite db.rows) (t : String) :
    Ready files conn.sqlite (cmdApply b conn (.ok files) false (some t) db).db.rows ∧
      (cmdApply b conn (.ok files) false (some t) db).executed ++
        waiting files (cmdApply b conn (.ok files) false (some t) db).db.rows = waiting files db.rows := by
  obtain ⟨hnames, hstamps⟩ := sorted_of_discover hdir
  have hdistinct := nodup_of_lt hnames
  have hqueue : queueOf (computeStates files db.rows) (some t) = cutAt t (waiting files db.rows) := by
    rw [queueOf_upTo, queueOf_eq_waiting hnames]
    rfl
  by_cases hknown : t ∈ known (computeStates files db.rows)
  · have hscan : ∀ f ∈ queueOf (computeStates files db.rows) (some t), scan conn.sqlite f = none := by
      intro f hf
      rw [hqueue] at hf
      exact h.scanned f (List.mem_filter.1 hf).1
    obtain ⟨hexecuted, hrows⟩ := cmdApply_succeeds hb hauto h.clear (fun _ ht => Option.some.inj ht ▸ hknown) hscan
    have hleft := waiting_recorded db.rows hdistinct t
    rw [hexecuted, hrows, hqueue, hleft]
    refine ⟨⟨h.clear.append hdistinct ?_, ?_⟩, filter_stamp_append (hstamps.filter _) t⟩
    · rw [← hqueue]
      exact unrecorded_queueOf files db.rows (some t)
    · intro f hf
      rw [hleft] at hf
      exact h.scanned f (List.mem_filter.1 hf).1
  · have hrefused : cmdApply b conn (.ok files) false (some t) db = refused db [.unknownStamp t] := by
      have hblocking : blocking (computeStates files db.rows) = [] := h.clear
      simp [cmdApply, hauto, hblocking, hknown]
    rw [hrefused]
    exact ⟨h, rfl⟩

/-- A plain run executes all that is waiting. -/
theorem run_plain (hdir : discover digest dir = .ok files) (hb : Succeeds b) (hauto : conn.autocommit = true)
    {db : Db σ} (h : Ready files conn.sqlite db.rows) :
    (cmdApply b conn (.ok files) false none db).executed = waiting files db.rows := by
  have hqueue := queueOf_eq_waiting (sorted_of_discover hdir).1 db.rows
  rw [← hqueue]
  refine (cmdApply_succeeds hb hauto h.clear (fun t ht => ?_) ?_).1
  · cases ht
  · rw [hqueue]
    exact h.scanned

theorem flatten_applyEach (hdir : discover digest dir = .ok files) (hb : Succeeds b) (hauto : conn.autocommit = true)
    {db : Db σ} (h : Ready files conn.sqlite db.rows) (targets : List String) :
    (applyEach digest dir b conn (targets.map some ++ [none]) db).flatten = waiting files db.rows := by
  induction targets generalizing db with
  | nil =>
    rw [List.map_nil, List.nil_append, applyEach_cons hdir, run_plain hdir hb hauto h]
    simp [applyEach]
  | cons t rest ih =>
    obtain ⟨hready, hparts⟩ := run_upTo hdir hb hauto h t
    rw [List.map_cons, List.cons_append, applyEach_cons hdir, List.flatten_cons, ih hready, hparts]

/-- Outside autocommit every run is refused. -/
theorem flatten_applyEach_refused (hdir : discover digest dir = .ok files) (hauto : conn.autocommit = false)
    (db : Db σ) (upTos : List (Option String)) : (applyEach digest dir b conn upTos db).flatten = [] := by
  induction upTos with
  | nil => rfl
  | cons upTo rest ih =>
    have hrefused : cmdApply b conn (.ok files) false upTo db = refused db [.notAutocommit] := by
      simp [cmdApply, hauto]
    rw [applyEach_cons hdir, hrefused, List.flatten_cons]
    exact ih

/-- However the SQL fares, a `--to` run executes a first part of what is pending. -/
theorem executed_prefix (hdir : discover digest dir = .ok files) (b : Behaviour σ) (conn : Connection) (t : String)
    (db : Db σ) :
    (cmdApply b conn (.ok files) false (some t) db).executed <+: queueOf (computeStates files db.rows) none ∧
      ∀ f ∈ (cmdApply b conn (.ok files) false (some t) db).executed, f.stamp ≤ t := by
  obtain ⟨hnames, hstamps⟩ := sorted_of_discover hdir
  have hqueue : queueOf (computeStates files db.rows) (some t) <+: queueOf (computeStates files db.rows) none := by
    rw [queueOf_upTo]
    refine ⟨(queueOf (computeStates files db.rows) none).filter fun f => ¬ f.stamp ≤ t, filter_stamp_append ?_ t⟩
    rw [queueOf_eq_waiting hnames]
    exact hstamps.filter _
  have hpart : (cmdApply b conn (.ok files) false (some t) db).executed <+:
      queueOf (computeStates files db.rows) (some t) := by
    obtain ⟨-, out, heq⟩ | ⟨-, heq⟩ := cmdApply_cases b conn (.ok files) (some t) db
    · rw [heq]
      exact List.nil_prefix
    · obtain ⟨k, hk, -⟩ := applyStates_recorded b conn.sqlite (runQueue (.ok files) (some t) db) db
      rw [heq]
      obtain hexecuted | hexecuted := hk.executed
      · rw [hexecuted]
        exact List.take_prefix _ _
      · rw [hexecuted]
        exact List.take_prefix _ _
  refine ⟨hpart.trans hqueue, fun f hf => ?_⟩
  have hmem := hpart.subset hf
  rw [queueOf_upTo] at hmem
  exact of_decide_eq_true (List.mem_filter.1 hmem).2

/-- **Applying in steps.** Where all that is pending passes the scan, `--to` runs in any order
and a plain run after them execute what one plain run does, in the same order. Each `--to`
run executes a first part of what is pending then, and no file with a later timestamp. -/
theorem apply_in_steps (digest : Bytes → String) (dir : Directory) (files : List MigrationFile) (b : Behaviour σ)
    (conn : Connection) (db : Db σ) (targets : List String) (hdir : discover digest dir = .ok files)
    (hclear : blocking (computeStates files db.rows) = []) (hsucceeds : Succeeds b) :
    ((∀ f ∈ queueOf (computeStates files db.rows) none, scan conn.sqlite f = none) →
      (applyEach digest dir b conn (targets.map some ++ [none]) db).flatten =
        (applyEach digest dir b conn [none] db).flatten) ∧
    ∀ t later, (cmdApply b conn (.ok files) false (some t) later).executed <+:
        queueOf (computeStates files later.rows) none ∧
      ∀ f ∈ (cmdApply b conn (.ok files) false (some t) later).executed, f.stamp ≤ t := by
  refine ⟨?_, executed_prefix hdir b conn⟩
  intro hscan
  cases hauto : conn.autocommit with
  | false => rw [flatten_applyEach_refused hdir hauto, flatten_applyEach_refused hdir hauto]
  | true =>
    have hready : Ready files conn.sqlite db.rows := by
      refine ⟨hclear, ?_⟩
      rw [← queueOf_eq_waiting (sorted_of_discover hdir).1]
      exact hscan
    rw [flatten_applyEach hdir hsucceeds hauto hready targets]
    exact (flatten_applyEach hdir hsucceeds hauto hready []).symm

end

theorem succeeds_obliging : Succeeds obliging := ⟨fun _ _ => rfl, fun _ _ => rfl, fun _ _ => rfl, fun _ _ => rfl⟩

/-- The later of the two files first, then the earlier. -/
theorem twoFiles_in_steps :
    discover emptyDigest twoFiles = .ok [emptyFile "2026-08-04-091530-a.sql" "2026-08-04-091530",
        emptyFile "2026-08-05-101500-b.sql" "2026-08-05-101500"] ∧
      (applyEach emptyDigest twoFiles obliging autocommit
        [some "2026-08-05-101500", some "2026-08-04-091530", none] ⟨[], ()⟩).flatten =
      (applyEach emptyDigest twoFiles obliging autocommit [none] ⟨[], ()⟩).flatten := by
  have hfound : discover emptyDigest twoFiles = .ok [emptyFile "2026-08-04-091530-a.sql" "2026-08-04-091530",
      emptyFile "2026-08-05-101500-b.sql" "2026-08-05-101500"] := by rfl
  exact ⟨hfound, (apply_in_steps emptyDigest twoFiles _ obliging autocommit ⟨[], ()⟩
    ["2026-08-05-101500", "2026-08-04-091530"] hfound (by rfl) succeeds_obliging).1 (by decide +kernel)⟩

/-- An empty file, and after it one that holds a backslash. -/
def backslashSecond : Directory where
  isDir := true
  entries := [("2026-08-04-091530-a.sql", .file []), ("2026-08-05-101500-b.sql", .file [92])]
  distinct := by decide

def backslashFile : MigrationFile :=
  ⟨"2026-08-05-101500-b.sql", "2026-08-05-101500", "\\", emptyDigest [], false, false⟩

/-- A plain run stops at the second file before it runs the first; in steps the first is run. -/
theorem backslash_stops_plain_run :
    discover emptyDigest backslashSecond =
        .ok [emptyFile "2026-08-04-091530-a.sql" "2026-08-04-091530", backslashFile] ∧
      blocking (computeStates [emptyFile "2026-08-04-091530-a.sql" "2026-08-04-091530", backslashFile] []) = [] ∧
      Succeeds obliging ∧
      "2026-08-04-091530" ∈
        known (computeStates [emptyFile "2026-08-04-091530-a.sql" "2026-08-04-091530", backslashFile] []) ∧
      (applyEach emptyDigest backslashSecond obliging autocommit
        [some "2026-08-04-091530", none] ⟨[], ()⟩).flatten ≠
      (applyEach emptyDigest backslashSecond obliging autocommit [none] ⟨[], ()⟩).flatten := by
  refine ⟨by rfl, by rfl, succeeds_obliging, by decide +kernel, by decide +kernel⟩

end PyAppRunner.Migrations
