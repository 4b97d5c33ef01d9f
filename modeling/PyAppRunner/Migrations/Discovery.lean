import PyAppRunner.Base.Base64
import PyAppRunner.Migrations.States

/-! The migrations directory: which of its entries are listed, and how one is loaded.

`discover` lists what the pattern `*.sql` matches and loads all of it; `cmd_repair` loads
the one entry it is given the name of. Both go through `load_migration`, whose own pattern
ends in `$` and so lets through one kind of name more than the listing does: a name that
ends in a line break (`listed_of_load`). -/
namespace PyAppRunner.Migrations
open Base

/-- What an entry of the directory is. -/
inductive Content where
  | file (raw : Bytes)
  | other

/-- The entries of the directory by name, if it is one. -/
structure Directory where
  isDir : Bool
  entries : List (String × Content)
  distinct : (entries.map Prod.fst).Nodup

/-- `MigrationError`, in its four cases, and what `read_bytes` raises. -/
inductive LoadError where
  | badFilename (name : String)
  | notUtf8 (name : String)
  | noDirectory
  | duplicateStamp (stamp : String)
  | unreadable

/-- `\d{4}-\d{2}-\d{2}-\d{6}`, character by character. -/
def stampShape : List (Char → Bool) :=
  let d := Text.isDecimal
  let dash := fun c => decide (c = '-')
  [d, d, d, d, dash, d, d, dash, d, d, dash, d, d, d, d, d, d]

/-- A time stamp as the pattern has it. -/
def isStamp (s : List Char) : Bool := s.length = stampShape.length && (s.zip stampShape).all fun cp => cp.2 cp.1

def slugChar (c : Char) : Bool := ('a' ≤ c && c ≤ 'z') || ('0' ≤ c && c ≤ '9') || c = '-'

def sqlEnding : List Char := ['.', 's', 'q', 'l']

/-- `MIGRATION_FILENAME_RE.match`: the timestamp, if the name has the form. -/
def filenameStamp (name : List Char) : Option String :=
  let body := Text.beforeLastBreak name
  let stamp := body.take stampShape.length
  let rest := body.drop stampShape.length
  let slug := (rest.drop 1).take (rest.length - 1 - sqlEnding.length)
  if isStamp stamp ∧ slug ≠ [] ∧ slug.all slugChar ∧ rest = '-' :: (slug ++ sqlEnding) then some (String.ofList stamp)
  else none

/-- The file is run outside of a transaction. -/
def noTransactionDirective : List Char := "-- migrations:no-transaction".toList

/-- The file is run with the foreign keys switched off. -/
def foreignKeysOffDirective : List Char := "-- migrations:foreign-keys-off".toList

/-- `sql.split("\n", 1)[0].strip()`. -/
def firstLine (sql : String) : List Char := Text.strip (sql.toList.takeWhile (· ≠ '\n'))

section
variable (digest : Bytes → String)

/-- `load_migration`; `digest` is the hex digest of SHA-256. -/
def loadMigration (name : String) (content : Content) : Except LoadError MigrationFile :=
  match filenameStamp name.toList with
  | none => .error (.badFilename name)
  | some stamp =>
    match content with
    | .other => .error .unreadable
    | .file raw =>
      match fromUtf8 raw with
      | none => .error (.notUtf8 name)
      | some sql => .ok
        { name := name
          stamp := stamp
          sql := sql
          checksum := digest raw
          noTransaction := firstLine sql = noTransactionDirective
          foreignKeysOff := firstLine sql = foreignKeysOffDirective }

/-- `glob("*.sql")`. -/
def listed (name : String) : Bool := sqlEnding.isSuffixOf name.toList

/-- The entries that are listed, in the order of their names. -/
def Directory.sqlEntries (dir : Directory) : List (String × Content) :=
  (dir.entries.filter fun e => listed e.1).insertionSort fun a b => a.1 ≤ b.1

/-- Loads one after the other, up to the first that cannot be loaded. -/
def loadAll : List (String × Content) → Except LoadError (List MigrationFile)
  | [] => .ok []
  | e :: rest =>
    match loadMigration digest e.1 e.2 with
    | .error err => .error err
    | .ok f =>
      match loadAll rest with
      | .error err => .error err
      | .ok files => .ok (f :: files)

/-- The first timestamp that a file before it has too. -/
def duplicateStamp : List String → List MigrationFile → Option String
  | _, [] => none
  | seen, f :: rest => if f.stamp ∈ seen then some f.stamp else duplicateStamp (f.stamp :: seen) rest

/-- `discover`. -/
def discover (dir : Directory) : Except LoadError (List MigrationFile) :=
  if !dir.isDir then .error .noDirectory
  else match loadAll digest dir.sqlEntries with
    | .error e => .error e
    | .ok files =>
      match duplicateStamp [] files with
      | some stamp => .error (.duplicateStamp stamp)
      | none => .ok files

/-- The entry of a name. -/
def Directory.entry (dir : Directory) (name : String) : Option Content := dir.entries.lookup name

/-! ### What is discovered -/

variable {digest}

theorem name_of_load {name : String} {content : Content} {f : MigrationFile}
    (h : loadMigration digest name content = .ok f) : f.name = name := by
  unfold loadMigration at h
  split at h
  · cases h
  · split at h
    · cases h
    · split at h
      · cases h
      · cases h
        rfl

/-- A name that is loaded is listed, unless it ends in a line break. -/
theorem listed_of_load {name : String} {content : Content} {f : MigrationFile}
    (h : loadMigration digest name content = .ok f) (hbreak : name.toList.getLast? ≠ some '\n') :
    listed name = true := by
  cases hstamp : filenameStamp name.toList with
  | none => simp [loadMigration, hstamp] at h
  | some stamp =>
    have hbody : Text.beforeLastBreak name.toList = name.toList := by rw [Text.beforeLastBreak, if_neg hbreak]
    simp only [filenameStamp, hbody] at hstamp
    split at hstamp
    · next hform =>
      obtain ⟨-, -, -, hrest⟩ := hform
      rw [listed, List.isSuffixOf_iff_suffix]
      refine ⟨name.toList.take stampShape.length ++ '-' :: (((name.toList.drop stampShape.length).drop 1).take
        ((name.toList.drop stampShape.length).length - 1 - sqlEnding.length)), ?_⟩
      rw [List.append_assoc, List.cons_append, ← hrest, List.take_append_drop]
    · cases hstamp

theorem mem_loadAll {entries : List (String × Content)} {files : List MigrationFile}
    (h : loadAll digest entries = .ok files) :
    files.map MigrationFile.name = entries.map Prod.fst ∧
      ∀ e ∈ entries, ∃ f ∈ files, loadMigration digest e.1 e.2 = .ok f := by
  induction entries generalizing files with
  | nil =>
    cases h
    exact ⟨rfl, fun e he => by cases he⟩
  | cons e rest ih =>
    unfold loadAll at h
    split at h
    · cases h
    · next f hload =>
      split at h
      · cases h
      · next later hlater =>
        cases h
        obtain ⟨hnames, hall⟩ := ih hlater
        refine ⟨by simp [hnames, name_of_load hload], ?_⟩
        intro e' he'
        obtain rfl | he' := List.mem_cons.1 he'
        · exact ⟨f, List.mem_cons_self, hload⟩
        · obtain ⟨f', hf', hload'⟩ := hall e' he'
          exact ⟨f', List.mem_cons_of_mem _ hf', hload'⟩

theorem loadAll_of_discover {dir : Directory} {files : List MigrationFile} (h : discover digest dir = .ok files) :
    loadAll digest dir.sqlEntries = .ok files := by
  unfold discover at h
  split at h
  · cases h
  · split at h
    · cases h
    · next found hload =>
      split at h
      · cases h
      · cases h
        exact hload

/-- Discovered files have distinct names, and are the listed entries. -/
theorem names_of_discover {dir : Directory} {files : List MigrationFile} (h : discover digest dir = .ok files) :
    (files.map MigrationFile.name).Nodup ∧
      ∀ name, name ∈ files.map MigrationFile.name ↔ listed name = true ∧ name ∈ dir.entries.map Prod.fst := by
  obtain ⟨hnames, -⟩ := mem_loadAll (loadAll_of_discover h)
  have hperm : dir.sqlEntries.Perm (dir.entries.filter fun e => listed e.1) := List.perm_insertionSort _ _
  constructor
  · rw [hnames, (hperm.map Prod.fst).nodup_iff]
    exact dir.distinct.sublist (List.filter_sublist.map _)
  · intro name
    rw [hnames, (hperm.map Prod.fst).mem_iff]
    simp only [List.mem_map, List.mem_filter]
    constructor
    · rintro ⟨e, ⟨he, hlisted⟩, rfl⟩
      exact ⟨hlisted, e, he, rfl⟩
    · rintro ⟨hlisted, e, he, rfl⟩
      exact ⟨e, ⟨he, hlisted⟩, rfl⟩

/-- What a listed entry loads as is among the discovered files. -/
theorem mem_discover {dir : Directory} {files : List MigrationFile} (h : discover digest dir = .ok files)
    {name : String} {content : Content} (hentry : dir.entry name = some content) (hlisted : listed name = true)
    {f : MigrationFile} (hload : loadMigration digest name content = .ok f) : f ∈ files := by
  have hmem : (name, content) ∈ dir.entries := by
    obtain ⟨before, after, heq, -⟩ := List.lookup_eq_some_iff.1 hentry
    simp [heq]
  have hsql : (name, content) ∈ dir.sqlEntries :=
    (List.perm_insertionSort _ _).mem_iff.2 (List.mem_filter.2 ⟨hmem, hlisted⟩)
  obtain ⟨f', hf', hload'⟩ := (mem_loadAll (loadAll_of_discover h)).2 _ hsql
  obtain rfl : f = f' := Except.ok.inj (hload.symm.trans hload')
  exact hf'

/-! ### The order of the files

Files are listed in the order of their names and cut by their timestamps. Both orders are
one: the timestamps stand first in the names, have one length, and are distinct. -/

theorem lt_append_of_lt {a b : List Char} (hlen : a.length = b.length) (h : a < b) (x y : List Char) :
    a ++ x < b ++ y := by
  induction a generalizing b with
  | nil =>
    obtain rfl := List.eq_nil_of_length_eq_zero hlen.symm
    exact absurd h (List.lt_irrefl [])
  | cons c a ih =>
    cases b with
    | nil => cases hlen
    | cons d b =>
      rw [List.cons_append, List.cons_append, List.cons_lt_cons_iff]
      obtain hlt | ⟨rfl, hlt⟩ := List.cons_lt_cons_iff.1 h
      · exact .inl hlt
      · exact .inr ⟨rfl, ih (by simpa using hlen) hlt⟩

theorem not_lt_of_prefix_lt {a b s t : List Char} (hlen : a.length = b.length) (ha : a <+: s) (hb : b <+: t)
    (h : s < t) : ¬ b < a := by
  obtain ⟨x, rfl⟩ := ha
  obtain ⟨y, rfl⟩ := hb
  intro hlt
  exact List.lt_asymm (lt_append_of_lt hlen.symm hlt y x) h

theorem stamp_prefix {name : List Char} {stamp : String} (h : filenameStamp name = some stamp) :
    isStamp stamp.toList = true ∧ stamp.toList <+: name := by
  simp only [filenameStamp] at h
  split at h
  · next hform =>
    obtain rfl := Option.some.inj h
    rw [String.toList_ofList]
    refine ⟨hform.1, (List.take_prefix _ _).trans ?_⟩
    unfold Text.beforeLastBreak
    split
    · exact List.dropLast_prefix name
    · exact List.prefix_refl name
  · cases h

theorem length_of_isStamp {stamp : List Char} (h : isStamp stamp = true) : stamp.length = stampShape.length := by
  simp only [isStamp, Bool.and_eq_true, decide_eq_true_eq] at h
  exact h.1

theorem stamp_of_load {name : String} {content : Content} {f : MigrationFile}
    (h : loadMigration digest name content = .ok f) : filenameStamp f.name.toList = some f.stamp := by
  rw [name_of_load h]
  unfold loadMigration at h
  split at h
  · cases h
  · next stamp hstamp =>
    split at h
    · cases h
    · split at h
      · cases h
      · cases h
        exact hstamp

theorem duplicateStamp_eq_none {seen : List String} {files : List MigrationFile} :
    duplicateStamp seen files = none ↔
      (files.map MigrationFile.stamp).Nodup ∧ ∀ f ∈ files, f.stamp ∉ seen := by
  induction files generalizing seen with
  | nil => simp [duplicateStamp]
  | cons f rest ih =>
    rw [duplicateStamp]
    by_cases hf : f.stamp ∈ seen
    · simp [hf]
    · rw [if_neg hf, ih]
      simp only [List.map_cons, List.nodup_cons, List.mem_map, List.mem_cons, not_or, forall_eq_or_imp]
      constructor
      · rintro ⟨hnodup, hnew⟩
        refine ⟨⟨?_, hnodup⟩, hf, fun g hg => (hnew g hg).2⟩
        rintro ⟨g, hg, heq⟩
        exact (hnew g hg).1 heq
      · rintro ⟨⟨hnot, hnodup⟩, -, hrest⟩
        refine ⟨hnodup, fun g hg => ⟨?_, hrest g hg⟩⟩
        intro heq
        exact hnot ⟨g, hg, heq⟩

theorem stamps_of_discover {dir : Directory} {files : List MigrationFile} (h : discover digest dir = .ok files) :
    (files.map MigrationFile.stamp).Nodup := by
  unfold discover at h
  split at h
  · cases h
  · split at h
    · cases h
    · split at h
      · cases h
      · next hnone =>
        cases h
        exact (duplicateStamp_eq_none.1 hnone).1

theorem sorted_sqlEntries (dir : Directory) : (dir.sqlEntries.map Prod.fst).Pairwise (· < ·) := by
  have hle : dir.sqlEntries.Pairwise fun a b => a.1 ≤ b.1 := by
    have : Std.Total fun a b : String × Content => a.1 ≤ b.1 := ⟨fun a b => String.le_total a.1 b.1⟩
    have : IsTrans (String × Content) fun a b => a.1 ≤ b.1 := ⟨fun a b c => String.le_trans⟩
    exact List.pairwise_insertionSort _ _
  have hnodup : (dir.sqlEntries.map Prod.fst).Nodup := by
    rw [Directory.sqlEntries, ((List.perm_insertionSort _ _).map Prod.fst).nodup_iff]
    exact dir.distinct.sublist (List.filter_sublist.map _)
  refine ((List.pairwise_map.2 hle).and hnodup).imp fun h => ?_
  by_contra hlt
  exact h.2 (String.le_antisymm h.1 (String.not_lt.1 hlt))

/-- Everything is loaded, one file for each entry. -/
theorem loadAll_eq_ok {entries : List (String × Content)} {files : List MigrationFile} :
    loadAll digest entries = .ok files ↔
      List.Forall₂ (fun e f => loadMigration digest e.1 e.2 = .ok f) entries files := by
  induction entries generalizing files with
  | nil =>
    rw [List.forall₂_nil_left_iff]
    exact ⟨fun h => (Except.ok.inj h).symm, fun h => h ▸ rfl⟩
  | cons e rest ih =>
    rw [List.forall₂_cons_left_iff]
    constructor
    · intro h
      unfold loadAll at h
      split at h
      · cases h
      · next f hload =>
        split at h
        · cases h
        · next later hlater =>
          cases h
          exact ⟨f, later, hload, ih.1 hlater, rfl⟩
    · rintro ⟨f, later, hload, hrest, rfl⟩
      unfold loadAll
      rw [hload, ih.2 hrest]

theorem load_of_mem {entries : List (String × Content)} {files : List MigrationFile}
    (h : loadAll digest entries = .ok files) {f : MigrationFile} (hf : f ∈ files) :
    ∃ e ∈ entries, loadMigration digest e.1 e.2 = .ok f := by
  have hall := loadAll_eq_ok.1 h
  induction hall with
  | nil => cases hf
  | cons hload hrest ih =>
    obtain rfl | hf := List.mem_cons.1 hf
    · exact ⟨_, List.mem_cons_self, hload⟩
    · obtain ⟨e, he, hload⟩ := ih (loadAll_eq_ok.2 hrest) hf
      exact ⟨e, List.mem_cons_of_mem _ he, hload⟩

theorem stamp_le_of_name_lt {f g : MigrationFile} (hf : filenameStamp f.name.toList = some f.stamp)
    (hg : filenameStamp g.name.toList = some g.stamp) (h : f.name < g.name) : f.stamp ≤ g.stamp := by
  obtain ⟨hfstamp, hfprefix⟩ := stamp_prefix hf
  obtain ⟨hgstamp, hgprefix⟩ := stamp_prefix hg
  have hlen : f.stamp.toList.length = g.stamp.toList.length := by
    rw [length_of_isStamp hfstamp, length_of_isStamp hgstamp]
  exact String.not_lt.1 fun hlt => not_lt_of_prefix_lt hlen hfprefix hgprefix (String.lt_iff.1 h) (String.lt_iff.1 hlt)

/-- What is discovered is in the order of its names and of its timestamps. -/
theorem sorted_of_discover {dir : Directory} {files : List MigrationFile} (h : discover digest dir = .ok files) :
    files.Pairwise (fun f g => f.name < g.name) ∧ files.Pairwise fun f g => f.stamp < g.stamp := by
  have hload := loadAll_of_discover h
  have hnames : files.Pairwise fun f g => f.name < g.name := by
    have := sorted_sqlEntries dir
    rwa [← (mem_loadAll hload).1, List.pairwise_map] at this
  refine ⟨hnames, ?_⟩
  have hnodup := stamps_of_discover h
  refine (hnames.and (List.pairwise_map.1 hnodup)).imp_of_mem fun {f g} hf hg hfg => ?_
  obtain ⟨e, -, he⟩ := load_of_mem hload hf
  obtain ⟨e', -, he'⟩ := load_of_mem hload hg
  have hle := stamp_le_of_name_lt (stamp_of_load he) (stamp_of_load he') hfg.1
  by_contra hlt
  exact hfg.2 (String.le_antisymm hle (String.not_lt.1 hlt))

end

end PyAppRunner.Migrations
