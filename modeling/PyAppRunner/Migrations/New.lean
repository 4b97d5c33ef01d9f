import PyAppRunner.Base.DateTime
import PyAppRunner.Migrations.Discovery

/-! The commands that write a migration file: `cmd_new`, and `cmd_install` of the queue, of
the audit trail and of the API keys.

Each of them checks that no entry has the name it is about to write. `discover` asks more:
that no two files have one timestamp, and that every file is UTF-8. -/
namespace PyAppRunner.Migrations
open Base

/-! ### The name -/

/-- `str.lower` of a character, in so far as it has ASCII in it: of the characters outside
ASCII only these two become ASCII letters, and the rest are all one to `new_filename`. -/
def lower (c : Char) : List Char :=
  if 'A' ≤ c ∧ c ≤ 'Z' then [c.toLower]
  else if c = '\u0130' then ['i', '\u0307']
  else if c = '\u212A' then ['k']
  else [c]

def isSlugLetter (c : Char) : Bool := ('a' ≤ c && c ≤ 'z') || ('0' ≤ c && c ≤ '9')

/-- `re.sub(r"[^a-z0-9]+", "-", s)`; the flag says whether the text starts inside a run that
has been replaced. -/
def dashed : Bool → List Char → List Char
  | _, [] => []
  | inRun, c :: rest =>
    if isSlugLetter c then c :: dashed false rest
    else if inRun then dashed true rest
    else '-' :: dashed true rest

/-- `str.strip("-")`. -/
def stripDashes (s : List Char) : List Char :=
  ((s.dropWhile (· = '-')).reverse.dropWhile (· = '-')).reverse

/-- The name in lower case, with dashes for all that may not stand in a file name. -/
def slugOf (name : String) : List Char := stripDashes (dashed false (name.toList.flatMap lower))

/-- `strftime` of `%Y-%m-%d-%H%M%S`. -/
def stampText (now : DateTime) : List Char :=
  now.date.strftime ++ '-' :: (padded 2 now.hour ++ padded 2 now.minute ++ padded 2 now.second)

/-- `new_filename`; `none` for a name without a usable character. -/
def newFilename (name : String) (now : DateTime) : Option String :=
  if slugOf name = [] then none
  else some (String.ofList (stampText now ++ '-' :: (slugOf name ++ sqlEnding)))

example : newFilename "Add_Widgets  Table!" ⟨⟨2026, 8, 4⟩, 9, 15, 30, 0, some 0⟩ =
    some "2026-08-04-091530-add-widgets-table.sql" := by
  decide +kernel

/-! ### The commands -/

/-- What a command tells its caller. -/
inductive Notice where
  | unusableName (name : String)
  | badTable (table : String)
  | noDirectory
  | templateUnreadable
  | nameTaken (filename : String)
  | writeFailed (filename : String)
  | created (filename : String)
deriving DecidableEq

/-- How a command ended, with `none` for an exception it lets through, and the directory
after it. -/
structure Created where
  exit : Option Nat
  dir : Directory
  out : List Notice

/-- What the commands find outside the directory: the encoding of the locale (`none` where it
cannot encode a text), the schema that an install command ships, if it can be read, and
whether the file can be written. -/
structure Disk where
  locale : String → Option Bytes
  template : Option String
  writable : Bool

/-- The names of all entries. -/
def Directory.names (dir : Directory) : List String := dir.entries.map Prod.fst

/-- The directory with one entry more. -/
def Directory.create (dir : Directory) (name : String) (content : Content) (h : name ∉ dir.names) : Directory where
  isDir := dir.isDir
  entries := dir.entries ++ [(name, content)]
  distinct := by
    rw [List.map_append]
    exact List.nodup_append'.2 ⟨dir.distinct, List.nodup_singleton _, List.disjoint_singleton.2 h⟩

/-- `_NEW_FILE_TEMPLATE`, filled in. -/
def newFileText (name : String) : String :=
  "-- " ++ name ++ "\n--\n-- Runs in a transaction. Add `-- migrations:no-transaction` as the very first line if this\n" ++
    "-- file needs CREATE INDEX CONCURRENTLY or anything else Postgres refuses inside one.\n--\n" ++
    "-- A no-transaction file must contain exactly ONE statement. Postgres wraps a\n" ++
    "-- multi-statement send in an implicit transaction, which would defeat the directive, so\n" ++
    "-- `apply` refuses such a file. Split it into one file per statement.\n"

/-- `cmd_new`. The file is opened before its text is encoded, so one that cannot be encoded
is left empty. -/
def cmdNew (disk : Disk) (dir : Directory) (name : String) (now : DateTime) : Created :=
  match newFilename name now with
  | none => ⟨some 1, dir, [.unusableName name]⟩
  | some filename =>
    if !dir.isDir then ⟨some 1, dir, [.noDirectory]⟩
    else if h : filename ∈ dir.names then ⟨some 1, dir, [.nameTaken filename]⟩
    else if !disk.writable then ⟨none, dir, []⟩
    else match disk.locale (newFileText name) with
      | none => ⟨none, dir.create filename (.file []) h, []⟩
      | some raw => ⟨some 0, dir.create filename (.file raw) h, [.created filename]⟩

/-- `str.replace(old, new)` for an `old` that is not empty; the number counts the characters
of an occurrence that are still to be passed. -/
def replaceFrom (old new : List Char) : Nat → List Char → List Char
  | _, [] => []
  | n + 1, _ :: rest => replaceFrom old new n rest
  | 0, c :: rest =>
    if old.isPrefixOf (c :: rest) then new ++ replaceFrom old new (old.length - 1) rest
    else c :: replaceFrom old new 0 rest

/-- The schema under another table name. -/
def renamed (shipped table schema : String) : String :=
  if table ≠ shipped then String.ofList (replaceFrom shipped.toList table.toList 0 schema.toList) else schema

/-- What the install commands share, from the check of the directory on. -/
def install (disk : Disk) (dir : Directory) (rename : String → String) (name : String) (now : DateTime) :
    Created :=
  if !dir.isDir then ⟨some 2, dir, [.noDirectory]⟩
  else match disk.template with
    | none => ⟨some 1, dir, [.templateUnreadable]⟩
    | some schema =>
      match newFilename name now with
      | none => ⟨some 2, dir, [.unusableName name]⟩
      | some filename =>
        if h : filename ∈ dir.names then ⟨some 1, dir, [.nameTaken filename]⟩
        else if !disk.writable then ⟨some 1, dir, [.writeFailed filename]⟩
        else ⟨some 0, dir.create filename (.file (utf8 (rename schema))) h, [.created filename]⟩

def tableStart (c : Char) : Bool := ('A' ≤ c && c ≤ 'Z') || ('a' ≤ c && c ≤ 'z') || c = '_'

/-- One part of a table name. -/
def isTablePart : List Char → Bool
  | [] => false
  | c :: rest => tableStart c && rest.all fun d => tableStart d || ('0' ≤ d && d ≤ '9')

/-- `_TABLE_RE.match`: one identifier, or two with a dot between them. -/
def isTableName (table : String) : Bool :=
  match Text.split '.' (Text.beforeLastBreak table.toList) with
  | [name] => isTablePart name
  | [schema, name] => isTablePart schema && isTablePart name
  | _ => false

/-- `cmd_install` of the queue. The longer name is replaced first. -/
def queueInstall (disk : Disk) (dir : Directory) (table failedTable : String) (now : DateTime) : Created :=
  if !isTableName table then ⟨some 2, dir, [.badTable table]⟩
  else if !isTableName failedTable then ⟨some 2, dir, [.badTable failedTable]⟩
  else install disk dir (fun schema => renamed "queue_jobs" table (renamed "queue_failed_jobs" failedTable schema))
    "create queue tables" now

/-- `cmd_install` of the audit trail. -/
def auditInstall (disk : Disk) (dir : Directory) (table : String) (now : DateTime) : Created :=
  if !isTableName table then ⟨some 2, dir, [.badTable table]⟩
  else install disk dir (renamed "audit_log" table) ("create " ++ table) now

/-- `cmd_install` of the API keys, which does not look at the name of the table. -/
def apiKeysInstall (disk : Disk) (dir : Directory) (table : String) (now : DateTime) : Created :=
  install disk dir (renamed "api_keys" table) ("create " ++ table) now

/-- The commands that write a file. -/
inductive Writer where
  | new (name : String)
  | queueInstall (table failedTable : String)
  | auditInstall (table : String)
  | apiKeysInstall (table : String)

/-- One command that writes a file. -/
def Writer.run (disk : Disk) (dir : Directory) (now : DateTime) : Writer → Created
  | .new name => cmdNew disk dir name now
  | .queueInstall table failedTable => Migrations.queueInstall disk dir table failedTable now
  | .auditInstall table => Migrations.auditInstall disk dir table now
  | .apiKeysInstall table => Migrations.apiKeysInstall disk dir table now

/-! ### The name has the form -/

theorem isDecimal_digitChar (n : Nat) : Text.isDecimal (Nat.digitChar (n % 10)) = true := by
  have hdigits : ∀ d < 10, Text.isDecimal (Nat.digitChar d) = true := by decide
  exact hdigits _ (Nat.mod_lt _ (by decide))

theorem isStamp_stampText {now : DateTime} (hyear : now.date.fourDigits = true) : isStamp (stampText now) = true := by
  rw [stampText, now.date.strftime_eq_text_iff.2 hyear]
  simp [isStamp, Date.text, padded, stampShape, isDecimal_digitChar]

/-- A year that is written with fewer digits has its dash where a digit has to be. -/
theorem dash_of_year {d : Date} (hyear : d.fourDigits = false) (rest : List Char) : '-' ∈ (d.strftime ++ rest).take 4 := by
  obtain ⟨shorter, after, heq, hlength⟩ : ∃ shorter after, d.strftime = shorter ++ '-' :: after ∧ shorter.length < 4 := by
    obtain ⟨digits, hdigits⟩ : ∃ digits, padded 4 d.year = '0' :: digits := by
      refine ⟨_, congrArg (· :: _) ?_⟩
      rw [Date.fourDigits, bne_eq_false_iff_eq] at hyear
      rw [show d.year / 10 / 10 / 10 = d.year / 1000 by omega, hyear]
      rfl
    have hlength : digits.length = 3 := by
      have hfour := length_padded 4 d.year
      rw [hdigits] at hfour
      simpa using hfour
    unfold Date.strftime Date.text
    rw [hdigits, List.cons_append, List.cons_append, List.dropWhile_cons_of_pos (by decide), List.append_assoc,
      List.cons_append, List.dropWhile_append]
    split
    · exact ⟨[], _, rfl, by decide⟩
    · have hle := (List.dropWhile_suffix (fun c : Char => decide (c = '0')) (l := digits)).length_le
      exact ⟨_, _, rfl, by omega⟩
  rw [heq, List.append_assoc, List.take_append]
  refine List.mem_append_right _ ?_
  rw [show 4 - shorter.length = (3 - shorter.length) + 1 by omega, List.cons_append, List.take_succ_cons]
  exact List.mem_cons_self

theorem isDecimal_of_isStamp {stamp : List Char} (h : isStamp stamp = true) : ∀ c ∈ stamp.take 4, Text.isDecimal c = true := by
  obtain ⟨a, b, c, d, rest, rfl⟩ : ∃ a b c d rest, stamp = a :: b :: c :: d :: rest := by
    have hlength := length_of_isStamp h
    match stamp, hlength with
    | a :: b :: c :: d :: rest, _ => exact ⟨a, b, c, d, rest, rfl⟩
  simp only [isStamp, stampShape, List.zip_cons_cons, List.all_cons, Bool.and_eq_true] at h
  obtain ⟨-, ha, hb, hc, hd, -⟩ := h
  simp [ha, hb, hc, hd]

theorem slugChar_of_mem_dashed {inRun : Bool} {s : List Char} {c : Char} (h : c ∈ dashed inRun s) :
    slugChar c = true := by
  induction s generalizing inRun with
  | nil => cases h
  | cons d rest ih =>
    rw [dashed] at h
    split_ifs at h with hd hrun
    · obtain rfl | h := List.mem_cons.1 h
      · rw [slugChar]
        rw [isSlugLetter] at hd
        rw [hd, Bool.true_or]
      · exact ih h
    · exact ih h
    · obtain rfl | h := List.mem_cons.1 h
      · rfl
      · exact ih h

theorem all_slugOf (name : String) : (slugOf name).all slugChar = true := by
  rw [List.all_eq_true]
  intro c hc
  have hrest := List.mem_reverse.1 ((List.dropWhile_sublist _).subset (List.mem_reverse.1 hc))
  exact slugChar_of_mem_dashed ((List.dropWhile_sublist _).subset hrest)

theorem filenameStamp_of_form {stamp slug : List Char} (hstamp : isStamp stamp = true) (hslug : slug ≠ [])
    (hall : slug.all slugChar = true) :
    filenameStamp (stamp ++ '-' :: (slug ++ sqlEnding)) = some (String.ofList stamp) := by
  have hlen := length_of_isStamp hstamp
  have hlast : (stamp ++ '-' :: (slug ++ sqlEnding)).getLast? ≠ some '\n' := by
    have hl : stamp ++ '-' :: (slug ++ sqlEnding) = (stamp ++ '-' :: (slug ++ ['.', 's', 'q'])) ++ ['l'] := by
      simp [sqlEnding]
    rw [hl, List.getLast?_concat]
    decide
  have htake : (stamp ++ '-' :: (slug ++ sqlEnding)).take stampShape.length = stamp := List.take_left' hlen
  have hdrop : (stamp ++ '-' :: (slug ++ sqlEnding)).drop stampShape.length = '-' :: (slug ++ sqlEnding) :=
    List.drop_left' hlen
  have hmiddle : (('-' :: (slug ++ sqlEnding)).drop 1).take
      (('-' :: (slug ++ sqlEnding)).length - 1 - sqlEnding.length) = slug := by
    simp
  rw [filenameStamp, Text.beforeLastBreak, if_neg hlast]
  simp only [htake, hdrop, hmiddle]
  rw [if_pos ⟨hstamp, hslug, hall, trivial⟩]

/-- The new name is one that `discover` lists, and reads the timestamp of if the year has four digits. -/
theorem filenameStamp_new {name filename : String} {now : DateTime} (h : newFilename name now = some filename) :
    listed filename = true ∧ filenameStamp filename.toList =
      if now.date.fourDigits then some (String.ofList (stampText now)) else none := by
  unfold newFilename at h
  split_ifs at h with hslug
  obtain rfl := Option.some.inj h
  rw [listed, String.toList_ofList, List.isSuffixOf_iff_suffix]
  refine ⟨⟨stampText now ++ '-' :: slugOf name, by simp⟩, ?_⟩
  cases hyear : now.date.fourDigits with
  | true => exact filenameStamp_of_form (isStamp_stampText hyear) hslug (all_slugOf name)
  | false =>
    rw [if_neg Bool.false_ne_true, ← Option.not_isSome_iff_eq_none, Option.isSome_iff_exists]
    rintro ⟨stamp, hstamp⟩
    obtain ⟨hform, suffix, hsuffix⟩ := stamp_prefix hstamp
    -- the first four characters of the name are those of the timestamp
    have hdash : '-' ∈ stamp.toList.take 4 := by
      have htake : (stamp.toList ++ suffix).take 4 = stamp.toList.take 4 :=
        List.take_append_of_le_length (by rw [length_of_isStamp hform]; decide)
      rw [← htake, hsuffix, stampText, List.append_assoc]
      exact dash_of_year hyear _
    exact absurd (isDecimal_of_isStamp hform '-' hdash) (by decide)

/-! ### What `discover` makes of one file more -/

section
variable {digest : Bytes → String}

/-- A file for every entry, by what it is loaded as. -/
theorem loadAll_eq_filterMap {entries : List (String × Content)} {files : List MigrationFile} :
    loadAll digest entries = .ok files ↔
      (∀ e ∈ entries, ∃ f, loadMigration digest e.1 e.2 = .ok f) ∧
        files = entries.filterMap fun e => (loadMigration digest e.1 e.2).toOption := by
  induction entries generalizing files with
  | nil =>
    constructor
    · intro h
      exact ⟨fun e he => (List.not_mem_nil he).elim, (Except.ok.inj h).symm⟩
    · rintro ⟨-, rfl⟩
      rfl
  | cons e rest ih =>
    rw [loadAll_eq_ok, List.forall₂_cons_left_iff]
    constructor
    · rintro ⟨f, later, hload, hrest, rfl⟩
      obtain ⟨hall, rfl⟩ := ih.1 (loadAll_eq_ok.2 hrest)
      refine ⟨List.forall_mem_cons.2 ⟨⟨f, hload⟩, hall⟩, ?_⟩
      rw [List.filterMap_cons_some (by rw [hload]; rfl)]
    · rintro ⟨hall, rfl⟩
      obtain ⟨⟨f, hload⟩, hrest⟩ := List.forall_mem_cons.1 hall
      rw [List.filterMap_cons_some (by rw [hload]; rfl)]
      exact ⟨f, _, hload, loadAll_eq_ok.1 (ih.2 ⟨hrest, rfl⟩), rfl⟩

theorem discover_eq_ok {dir : Directory} {files : List MigrationFile} :
    discover digest dir = .ok files ↔
      dir.isDir = true ∧ loadAll digest dir.sqlEntries = .ok files ∧ (files.map MigrationFile.stamp).Nodup := by
  constructor
  · intro h
    refine ⟨?_, loadAll_of_discover h, stamps_of_discover h⟩
    unfold discover at h
    split at h
    · cases h
    · next hdir => simpa using hdir
  · rintro ⟨hdir, hload, hstamps⟩
    have hnone : duplicateStamp [] files = none := duplicateStamp_eq_none.2 ⟨hstamps, fun _ _ => List.not_mem_nil⟩
    simp [discover, hdir, hload, hnone]

theorem sqlEntries_create (dir : Directory) {name : String} (content : Content) (h : name ∉ dir.names)
    (hlisted : listed name = true) : (dir.create name content h).sqlEntries.Perm ((name, content) :: dir.sqlEntries) := by
  have hfilter : (dir.create name content h).entries.filter (fun e => listed e.1) =
      dir.entries.filter (fun e => listed e.1) ++ [(name, content)] := by
    rw [Directory.create, List.filter_append, List.filter_cons_of_pos (by simpa using hlisted), List.filter_nil]
  rw [Directory.sqlEntries, hfilter]
  refine (List.perm_insertionSort _ _).trans ((List.perm_append_singleton _ _).trans ?_)
  exact ((List.perm_insertionSort _ _).symm).cons _

/-- With a listed entry more, `discover` accepts the directory when the entry loads and its
timestamp is new. -/
theorem discover_create {dir : Directory} {files : List MigrationFile} (hdir : discover digest dir = .ok files)
    {name : String} (content : Content) (h : name ∉ dir.names) (hlisted : listed name = true) :
    (∃ after f, discover digest (dir.create name content h) = .ok after ∧ after.Perm (f :: files)) ↔
      ∃ f, loadMigration digest name content = .ok f ∧ f.stamp ∉ files.map MigrationFile.stamp := by
  have hperm := sqlEntries_create dir content h hlisted
  obtain ⟨hisDir, hload, hstamps⟩ := discover_eq_ok.1 hdir
  obtain ⟨hall, hfiles⟩ := loadAll_eq_filterMap.1 hload
  -- Whatever is found then is what was found before and the new file.
  have hafter : ∀ {after f}, loadAll digest (dir.create name content h).sqlEntries = .ok after →
      loadMigration digest name content = .ok f → after.Perm (f :: files) := by
    intro after f hok hf
    rw [(loadAll_eq_filterMap.1 hok).2, hfiles]
    refine (hperm.filterMap _).trans ?_
    rw [List.filterMap_cons_some (by rw [hf]; rfl)]
  constructor
  · rintro ⟨after, -, hok, -⟩
    obtain ⟨-, hok, hnodup⟩ := discover_eq_ok.1 hok
    obtain ⟨f, hf⟩ := (loadAll_eq_filterMap.1 hok).1 (name, content) (hperm.mem_iff.2 List.mem_cons_self)
    refine ⟨f, hf, ?_⟩
    have hcons := ((hafter hok hf).map MigrationFile.stamp).nodup_iff.1 hnodup
    rw [List.map_cons] at hcons
    exact (List.nodup_cons.1 hcons).1
  · rintro ⟨f, hf, hfresh⟩
    have hloads : ∀ e ∈ (dir.create name content h).sqlEntries, ∃ f, loadMigration digest e.1 e.2 = .ok f := by
      intro e he
      obtain rfl | he := List.mem_cons.1 (hperm.mem_iff.1 he)
      · exact ⟨f, hf⟩
      · exact hall e he
    have hok := loadAll_eq_filterMap.2 ⟨hloads, rfl⟩
    have hsame := hafter hok hf
    refine ⟨_, f, discover_eq_ok.2 ⟨hisDir, hok, ?_⟩, hsame⟩
    rw [(hsame.map MigrationFile.stamp).nodup_iff, List.map_cons]
    exact List.nodup_cons.2 ⟨hfresh, hstamps⟩

/-! ### What a command leaves -/

/-- What is written is UTF-8: `cmd_new` leaves the encoding to the locale. -/
def Writer.Storable (disk : Disk) : Writer → Prop
  | .new name => ∀ raw, disk.locale (newFileText name) = some raw → fromUtf8 raw ≠ none
  | _ => True

/-- One file more, under a new name that has the form. -/
def Adds (dir : Directory) (now : DateTime) (storable : Prop) (after : Directory) : Prop :=
  ∃ name filename raw, ∃ h : filename ∉ dir.names, newFilename name now = some filename ∧
    after = dir.create filename (.file raw) h ∧ (fromUtf8 raw ≠ none ↔ storable)

theorem adds_cmdNew {disk : Disk} {dir : Directory} {name : String} {now : DateTime}
    (h : (cmdNew disk dir name now).exit = some 0) :
    Adds dir now ((Writer.new name).Storable disk) (cmdNew disk dir name now).dir := by
  cases hname : newFilename name now with
  | none => simp [cmdNew, hname] at h
  | some filename =>
    cases hisDir : dir.isDir with
    | false => simp [cmdNew, hname, hisDir] at h
    | true =>
      by_cases htaken : filename ∈ dir.names
      · simp [cmdNew, hname, hisDir, htaken] at h
      · cases hwritable : disk.writable with
        | false => simp [cmdNew, hname, hisDir, htaken, hwritable] at h
        | true =>
          cases hraw : disk.locale (newFileText name) with
          | none => simp [cmdNew, hname, hisDir, htaken, hwritable, hraw] at h
          | some raw =>
            refine ⟨name, filename, raw, htaken, hname, ?_, ?_⟩
            · simp [cmdNew, hname, hisDir, htaken, hwritable, hraw]
            · simp [Writer.Storable, hraw]

theorem adds_install {disk : Disk} {dir : Directory} {rename : String → String} {name : String} {now : DateTime}
    (h : (install disk dir rename name now).exit = some 0) : Adds dir now True (install disk dir rename name now).dir := by
  cases hisDir : dir.isDir with
  | false => simp [install, hisDir] at h
  | true =>
    cases hschema : disk.template with
    | none => simp [install, hisDir, hschema] at h
    | some schema =>
      cases hname : newFilename name now with
      | none => simp [install, hisDir, hschema, hname] at h
      | some filename =>
        by_cases htaken : filename ∈ dir.names
        · simp [install, hisDir, hschema, hname, htaken] at h
        · cases hwritable : disk.writable with
          | false => simp [install, hisDir, hschema, hname, htaken, hwritable] at h
          | true =>
            refine ⟨name, filename, utf8 (rename schema), htaken, hname, ?_, ?_⟩
            · simp [install, hisDir, hschema, hname, htaken, hwritable]
            · simp [fromUtf8_utf8]

theorem adds_run {disk : Disk} {dir : Directory} {now : DateTime} {w : Writer} (h : (w.run disk dir now).exit = some 0) :
    Adds dir now (w.Storable disk) (w.run disk dir now).dir := by
  cases w with
  | new name => exact adds_cmdNew h
  | queueInstall table failedTable =>
    rw [Writer.run, queueInstall] at h ⊢
    by_cases htable : isTableName table = true
    · by_cases hfailed : isTableName failedTable = true
      · rw [if_neg (by simp [htable]), if_neg (by simp [hfailed])] at h ⊢
        exact adds_install h
      · rw [if_neg (by simp [htable]), if_pos (by simpa using hfailed)] at h
        cases h
    · rw [if_pos (by simpa using htable)] at h
      cases h
  | auditInstall table =>
    rw [Writer.run, auditInstall] at h ⊢
    by_cases htable : isTableName table = true
    · rw [if_neg (by simp [htable])] at h ⊢
      exact adds_install h
    · rw [if_pos (by simpa using htable)] at h
      cases h
  | apiKeysInstall table => exact adds_install h

theorem load_new {name : String} {stamp : String} {reads : Bool}
    (h : filenameStamp name.toList = if reads then some stamp else none) (raw : Bytes) (stamps : List String) :
    (∃ f, loadMigration digest name (.file raw) = .ok f ∧ f.stamp ∉ stamps) ↔
      reads = true ∧ stamp ∉ stamps ∧ fromUtf8 raw ≠ none := by
  rw [loadMigration, h]
  cases reads with
  | false => simp
  | true =>
    simp only [if_true]
    cases fromUtf8 raw with
    | none => simp
    | some sql =>
      constructor
      · rintro ⟨f, hf, hfresh⟩
        cases hf
        exact ⟨trivial, hfresh, by simp⟩
      · rintro ⟨-, hfresh, -⟩
        exact ⟨_, rfl, hfresh⟩

/-- **When a new file leaves the directory in order.** `discover` accepts the directory that a
command returns 0 on, with one file more than before, exactly when the year takes four
digits, no file had the timestamp of the moment and what was written is UTF-8. -/
theorem writer_keeps_directory_iff (digest : Bytes → String) (disk : Disk) (dir : Directory)
    (files : List MigrationFile) (now : DateTime) (w : Writer) (hdir : discover digest dir = .ok files)
    (hexit : (w.run disk dir now).exit = some 0) :
    (∃ after f, discover digest (w.run disk dir now).dir = .ok after ∧ after.Perm (f :: files)) ↔
      now.date.fourDigits = true ∧ String.ofList (stampText now) ∉ files.map MigrationFile.stamp ∧ w.Storable disk := by
  obtain ⟨name, filename, raw, hfree, hname, heq, hstorable⟩ := adds_run hexit
  obtain ⟨hlisted, hstamp⟩ := filenameStamp_new hname
  rw [heq, discover_create hdir (.file raw) hfree hlisted, load_new hstamp, hstorable]

end

/-- UTF-8 everywhere, and a schema of one table. -/
def utf8Disk : Disk := ⟨fun s => some (utf8 s), some "CREATE TABLE queue_jobs (id int);", true⟩

/-- 2026-08-04 09:15:30, in UTC. -/
def morning : DateTime := ⟨⟨2026, 8, 4⟩, 9, 15, 30, 0, some 0⟩

/-- The file of that very second. -/
def oneFile : Directory := ⟨true, [("2026-08-04-091530-add-a.sql", .file [])], List.nodup_singleton _⟩

theorem discover_oneFile : discover (fun _ => "") oneFile =
    .ok [⟨"2026-08-04-091530-add-a.sql", "2026-08-04-091530", "", "", false, false⟩] := rfl

/-- The tables of the queue, a second later. -/
theorem install_beside_oneFile :
    ∃ after f, discover (fun _ => "") ((Writer.queueInstall "jobs" "failed_jobs").run utf8Disk oneFile
      {morning with second := 31}).dir = .ok after ∧
      after.Perm [f, ⟨"2026-08-04-091530-add-a.sql", "2026-08-04-091530", "", "", false, false⟩] :=
  (writer_keeps_directory_iff (fun _ => "") utf8Disk oneFile _ {morning with second := 31}
    (.queueInstall "jobs" "failed_jobs") discover_oneFile (by decide +kernel)).2
      ⟨rfl, by decide +kernel, trivial⟩

/-- A second file in one second: the command returns 0, and the directory is refused. -/
theorem two_in_one_second :
    (cmdNew utf8Disk oneFile "add b" morning).exit = some 0 ∧
      ∃ files, discover (fun _ => "") oneFile = .ok files ∧
        ¬ ∃ after f, discover (fun _ => "") (cmdNew utf8Disk oneFile "add b" morning).dir = .ok after ∧
          after.Perm (f :: files) := by
  have hexit : (cmdNew utf8Disk oneFile "add b" morning).exit = some 0 := by decide +kernel
  refine ⟨hexit, _, discover_oneFile, ?_⟩
  obtain ⟨name, filename, raw, hfree, hname, heq, -⟩ := adds_cmdNew hexit
  obtain ⟨hlisted, hstamp⟩ := filenameStamp_new hname
  rw [heq, discover_create discover_oneFile (.file raw) hfree hlisted, load_new hstamp]
  rintro ⟨-, hfresh, -⟩
  exact hfresh (by decide +kernel)

end PyAppRunner.Migrations
