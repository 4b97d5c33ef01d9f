import PyAppRunner.Base.Text
import PyAppRunner.Cron.Executor
import PyAppRunner.Cron.Locks

/-! The jobs that a config declares, and the lock file of each.

A job may have any name that is not blank. In the name of its lock file a character that is not a letter,
a digit, a dot, a dash or an underscore is replaced, and only then is a part of a digest appended. So a
name that looks like another one with its digest has no digest of its own, and the file is the same. -/
namespace PyAppRunner.Cron
open Base

namespace Schedule

/-! ### Loading -/

/-- A value of a config; a key that is no string is `none`. -/
inductive Conf where
  | none
  | bool (b : Bool)
  | int (n : Int)
  | str (s : String)
  | dict (entries : List (Option String × Conf))
  /-- Anything else. -/
  | other (truthy : Bool)

namespace Conf

/-- `bool` of a value of the configuration. -/
def truthy : Conf → Bool
  | .none => false
  | .bool b => b
  | .int n => n ≠ 0
  | .str s => s ≠ ""
  | .dict entries => !entries.isEmpty
  | .other truthy => truthy

end Conf

/-- What loading raises. -/
inductive Raised where
  /-- A `CronError`. -/
  | cron (message : String)
  | typeError
  | valueError
  /-- What else a library raises. -/
  | other

/-- How `ZoneInfo` refuses a name. -/
inductive ZoneError where
  /-- `ZoneInfoNotFoundError`, or a `ValueError`. -/
  | unknown
  | other

/-- `repr` of a text, `zoneinfo.ZoneInfo`, the error that `CronSim` raises, `shlex.split`. -/
structure Library (Zone : Type) where
  repr : String → String
  zoneInfo : String → Except ZoneError Zone
  cronSim : String → Zone → Option String
  split : String → Option (List String)

/-- A job with when it is due. -/
structure Scheduled (Zone : Type) extends Job where
  schedule : String
  timezone : Zone

/-- `str.strip`. -/
def strip (s : String) : String := String.ofList (Text.strip s.toList)

/-- The keys that a job may have. -/
def jobKeys : List String := ["schedule", "command", "timeout", "timezone"]

/-- The settings where the configuration says nothing. -/
def defaults : List (Option String × Conf) := [(some "db", .str "main"), (some "timezone", .str "UTC"), (some "jobs", .dict [])]

/-- `settings`; of two entries with one key the first counts. -/
def settings (config : List (Option String × Conf)) : Except Raised (List (Option String × Conf)) :=
  match config.lookup (some "cron") with
  | some (.dict entries) => .ok (entries ++ defaults)
  | some v => if v.truthy then .error .typeError else .ok defaults
  | none => .ok defaults

section
variable {Zone : Type} (lib : Library Zone)

/-- An error about a job, under its name. -/
def refused (job rest : String) : Raised := .cron ("Job " ++ lib.repr job ++ ": " ++ rest)

/-- `_zone`. -/
def zone (name : Conf) (job : String) : Except Raised Zone :=
  match name with
  | .str s =>
    if s = "" then .error (refused lib job "timezone must be a non-empty string.")
    else match lib.zoneInfo s with
      | .ok z => .ok z
      | .error .unknown => .error (refused lib job ("unknown timezone " ++ lib.repr s ++ "."))
      | .error .other => .error .other
  | _ => .error (refused lib job "timezone must be a non-empty string.")

/-- `sorted` and `join` take texts only. -/
def checkKeys (name : String) (raw : List (Option String × Conf)) : Except Raised Unit :=
  let unknown := (raw.map Prod.fst).filter fun key => !(jobKeys.map some).contains key
  if unknown.isEmpty then .ok ()
  else match unknown.mapM id with
    | some keys =>
      .error (refused lib name ("unknown key(s) " ++ ", ".intercalate (keys.mergeSort fun a b => !(b < a)) ++ "."))
    | none => .error .typeError

/-- The schedule of a job must be a text that is not blank. -/
def scheduleOf (name : String) (raw : List (Option String × Conf)) : Except Raised String :=
  match raw.lookup (some "schedule") with
  | some (.str s) => if strip s = "" then .error (refused lib name "schedule must be a cron expression string.") else .ok s
  | _ => .error (refused lib name "schedule must be a cron expression string.")

def commandOf (name : String) (raw : List (Option String × Conf)) : Except Raised String :=
  match raw.lookup (some "command") with
  | some (.str s) =>
    if strip s = "" then .error (refused lib name "command must be a non-empty string of app.py arguments.") else .ok s
  | _ => .error (refused lib name "command must be a non-empty string of app.py arguments.")

/-- The timeout of a job, if it has one. -/
def timeoutOf (name : String) (raw : List (Option String × Conf)) : Except Raised (Option Nat) :=
  match raw.lookup (some "timeout") with
  | none => .ok none
  | some .none => .ok none
  | some (.int n) =>
    if n < 1 then .error (refused lib name "timeout must be a positive number of seconds.") else .ok (some n.toNat)
  | some _ => .error (refused lib name "timeout must be a positive number of seconds.")

/-- `_job`. -/
def job (name : String) (raw defaultZone : Conf) : Except Raised (Scheduled Zone) :=
  match raw with
  | .dict entries => do
    checkKeys lib name entries
    let schedule ← scheduleOf lib name entries
    let command ← commandOf lib name entries
    let timeout ← timeoutOf lib name entries
    let timezone ← zone lib ((entries.lookup (some "timezone")).getD defaultZone) name
    match lib.cronSim schedule timezone with
    | some e => .error (refused lib name ("bad schedule " ++ lib.repr schedule ++ ": " ++ e))
    | none =>
      match lib.split command with
      | none => .error .valueError
      | some arguments => .ok ⟨⟨name, arguments, timeout⟩, strip schedule, timezone⟩
  | _ => .error (refused lib name "expected a dict with schedule and command.")

/-- The job of an entry. -/
def entryJob (defaultZone : Conf) (e : Option String × Conf) : Except Raised (Scheduled Zone) :=
  match e.1 with
  | some name => if strip name = "" then .error (.cron "Every job needs a non-empty name.") else job lib name e.2 defaultZone
  | none => .error (.cron "Every job needs a non-empty name.")

/-- `load_jobs`. -/
def loadJobs (config : List (Option String × Conf)) : Except Raised (List (Scheduled Zone)) := do
  let conf ← settings config
  match conf.lookup (some "jobs") with
  | some (.dict jobs) =>
    let defaultZone := (conf.lookup (some "timezone")).getD .none
    let _ ← zone lib defaultZone "<default>"
    jobs.mapM (entryJob lib defaultZone)
  | _ => .error (.cron "config[\"cron\"][\"jobs\"] must be a dict of name -> job.")

/-- A name that some config gives a job. -/
def Accepted (name : String) : Prop := ∃ config jobs, loadJobs lib config = .ok jobs ∧ ∃ j ∈ jobs, j.name = name

/-- A name that some configuration can give to a job. -/
abbrev JobName := {name : String // Accepted lib name}

end

/-! ### What is loaded -/

section
variable {Zone : Type} {lib : Library Zone}

theorem bind_eq_ok {ε α β : Type} {x : Except ε α} {f : α → Except ε β} {b : β} :
    (x >>= f) = .ok b ↔ ∃ a, x = .ok a ∧ f a = .ok b := by
  cases x with
  | error e => simp [bind, Except.bind]
  | ok a => simp [bind, Except.bind]

theorem job_name {name : String} {raw defaultZone : Conf} {j : Scheduled Zone}
    (h : job lib name raw defaultZone = .ok j) : j.name = name := by
  unfold job at h
  split at h
  · simp only [bind_eq_ok] at h
    obtain ⟨_, -, schedule, -, command, -, timeout, -, timezone, -, h⟩ := h
    split at h
    · cases h
    · split at h
      · cases h
      · cases h
        rfl
  · cases h

theorem entryJob_key {defaultZone : Conf} {e : Option String × Conf} {j : Scheduled Zone}
    (h : entryJob lib defaultZone e = .ok j) : e.1 = some j.name ∧ strip j.name ≠ "" := by
  unfold entryJob at h
  split at h
  · next name hname =>
    split at h
    · cases h
    · next hblank =>
      rw [job_name h]
      exact ⟨hname, hblank⟩
  · cases h

theorem mapM_ok_mem {ε α β : Type} {f : α → Except ε β} {as : List α} {bs : List β} (h : as.mapM f = .ok bs) {b : β}
    (hb : b ∈ bs) : ∃ a ∈ as, f a = .ok b := by
  induction as generalizing bs with
  | nil =>
    cases h
    cases hb
  | cons a rest ih =>
    rw [List.mapM_cons, bind_eq_ok] at h
    obtain ⟨b', hb', h⟩ := h
    rw [bind_eq_ok] at h
    obtain ⟨bs', hbs', h⟩ := h
    cases h
    obtain rfl | hrest := List.mem_cons.mp hb
    · exact ⟨a, List.mem_cons_self, hb'⟩
    · obtain ⟨a', ha', heq⟩ := ih hbs' hrest
      exact ⟨a', List.mem_cons_of_mem _ ha', heq⟩

/-- A loaded job has the name that it has in the config, and it is not blank. -/
theorem loadJobs_names {config : List (Option String × Conf)} {jobs : List (Scheduled Zone)}
    (h : loadJobs lib config = .ok jobs) : ∃ conf entries, settings config = .ok conf ∧
      conf.lookup (some "jobs") = some (.dict entries) ∧
      ∀ j ∈ jobs, some j.name ∈ entries.map Prod.fst ∧ strip j.name ≠ "" := by
  rw [loadJobs, bind_eq_ok] at h
  obtain ⟨conf, hconf, h⟩ := h
  split at h
  · next entries hentries =>
    rw [bind_eq_ok] at h
    obtain ⟨_, -, h⟩ := h
    refine ⟨conf, entries, hconf, hentries, fun j hj => ?_⟩
    obtain ⟨e, he, hjob⟩ := mapM_ok_mem h hj
    obtain ⟨hkey, hblank⟩ := entryJob_key hjob
    exact ⟨hkey ▸ List.mem_map_of_mem he, hblank⟩
  · cases h

end

end Schedule

/-! ### Lock files -/

/-- `hexdigest` of a SHA-256. -/
structure Hexdigest (sha256 : String → String) : Prop where
  length : ∀ s, (sha256 s).toList.length = 64
  digits : ∀ s, ∀ c ∈ (sha256 s).toList, ('0' ≤ c ∧ c ≤ '9') ∨ ('a' ≤ c ∧ c ≤ 'f')

namespace FileLocks
variable {sha256 : String → String} {database a b : String}

/-- The first eight digits of the hash of a name. -/
def suffix (sha256 : String → String) (name : String) : String := String.ofList ((sha256 name).toList.take 8)

/-- `b` is what the file of `a` is named after. -/
def Mimics (sha256 : String → String) (a b : String) : Prop :=
  safe a ≠ a ∧ b = safe a ++ "-" ++ suffix sha256 a

/-- What a path has of a name. -/
def tag (sha256 : String → String) (name : String) : String :=
  if safe name ≠ name then safe name ++ "-" ++ suffix sha256 name else safe name

theorem path_eq_iff : path sha256 database a = path sha256 database b ↔ tag sha256 a = tag sha256 b := by
  unfold path
  rw [String.append_left_inj, String.append_right_inj]
  rfl

theorem safe_eq_self_iff {s : String} : safe s = s ↔ ∀ c ∈ s.toList, safeChar c = true := by
  have hchars : safe s = s ↔ s.toList.map (fun c => if safeChar c then c else '_') = s.toList.map id := by
    rw [List.map_id, ← String.toList_inj, safe, String.toList_ofList]
  rw [hchars, List.map_inj_left]
  refine forall₂_congr fun c _ => ?_
  by_cases hc : safeChar c = true
  · simp [hc]
  · rw [if_neg hc]
    exact iff_of_false (fun heq => hc (by rw [show c = '_' from heq.symm]; rfl)) hc

theorem safe_safe (s : String) : safe (safe s) = safe s := by
  rw [safe_eq_self_iff]
  intro c hc
  rw [safe, String.toList_ofList, List.mem_map] at hc
  obtain ⟨c, -, rfl⟩ := hc
  split
  · assumption
  · rfl

/-- What a file is named after has nothing left to replace. -/
theorem safe_suffixed (h : Hexdigest sha256) (a : String) :
    safe (safe a ++ "-" ++ suffix sha256 a) = safe a ++ "-" ++ suffix sha256 a := by
  rw [safe_eq_self_iff]
  intro c hc
  rw [String.toList_append, String.toList_append, List.mem_append, List.mem_append] at hc
  obtain (hname | hdash) | hdigit := hc
  · exact safe_eq_self_iff.mp (safe_safe a) c hname
  · obtain rfl : c = '-' := by simpa using hdash
    rfl
  · rw [suffix, String.toList_ofList] at hdigit
    have hhex := h.digits a c (List.mem_of_mem_take hdigit)
    unfold safeChar
    simp only [Bool.or_eq_true, Bool.and_eq_true, decide_eq_true_eq]
    obtain hhex | hhex := hhex
    · exact .inl (.inl (.inl (.inr hhex)))
    · exact .inl (.inl (.inl (.inl (.inr ⟨hhex.1, Char.le_trans hhex.2 (by decide)⟩))))

theorem length_suffix (h : Hexdigest sha256) (name : String) : (suffix sha256 name).toList.length = 8 := by
  rw [suffix, String.toList_ofList, List.length_take, h.length]
  rfl

/-- Names with different digests share a tag only if one looks like the other with its digest. -/
theorem tag_eq_iff (h : Hexdigest sha256) (hne : a ≠ b) (hsuffix : suffix sha256 a ≠ suffix sha256 b) :
    tag sha256 a = tag sha256 b ↔ Mimics sha256 a b ∨ Mimics sha256 b a := by
  unfold tag Mimics
  by_cases ha : safe a = a <;> by_cases hb : safe b = b
  · simp [ha, hb, hne]
  · rw [if_neg (not_not.mpr ha), if_pos hb, ha]
    simp [hb]
  · rw [if_pos ha, if_neg (not_not.mpr hb), hb]
    simp [ha, eq_comm]
  · rw [if_pos ha, if_pos hb]
    refine iff_of_false ?_ ?_
    · intro heq
      have hlist := congrArg String.toList heq
      simp only [String.toList_append] at hlist
      have hlast := (List.append_inj' hlist (by rw [length_suffix h, length_suffix h])).2
      exact hsuffix (String.toList_inj.mp hlast)
    · rintro (⟨-, rfl⟩ | ⟨-, rfl⟩)
      · exact hb (safe_suffixed h a)
      · exact ha (safe_suffixed h b)

end FileLocks

/-- **Two jobs' lock files differ exactly if neither's name is what the file of the other is named after**,
if the digests of the two names start differently. -/
theorem lock_paths_differ_iff {Zone : Type} (lib : Schedule.Library Zone) (sha256 : String → String)
    (hdigest : Hexdigest sha256) (database : String) (a b : Schedule.JobName lib) (hne : a ≠ b)
    (hsuffix : FileLocks.suffix sha256 a.1 ≠ FileLocks.suffix sha256 b.1) :
    FileLocks.path sha256 database a.1 ≠ FileLocks.path sha256 database b.1 ↔
      ¬ FileLocks.Mimics sha256 a.1 b.1 ∧ ¬ FileLocks.Mimics sha256 b.1 a.1 := by
  have hnames : a.1 ≠ b.1 := fun heq => hne (Subtype.ext heq)
  rw [ne_eq, FileLocks.path_eq_iff, FileLocks.tag_eq_iff hdigest hnames hsuffix, not_or]

/-- Names of which none is what another's file is named after have a lock each, as `Deployment` wants it. -/
theorem apart_of_not_mimics {conf : LockConfig} (hdriver : conf.driver = .sqlite) (hdigest : Hexdigest conf.sha256)
    {names : Set String}
    (hsuffix : ∀ a ∈ names, ∀ b ∈ names, a ≠ b → FileLocks.suffix conf.sha256 a ≠ FileLocks.suffix conf.sha256 b)
    (hnot : ∀ a ∈ names, ∀ b ∈ names, ¬ FileLocks.Mimics conf.sha256 a b) : conf.Apart names := by
  unfold LockConfig.Apart
  rw [hdriver]
  intro a ha b hb hpath
  by_contra hne
  have hmimics := (FileLocks.tag_eq_iff hdigest hne (hsuffix a ha b hb hne)).mp (FileLocks.path_eq_iff.mp hpath)
  obtain hmimics | hmimics := hmimics
  · exact hnot a ha b hb hmimics
  · exact hnot b hb a ha hmimics

/-! ### Two jobs -/

section
open Schedule

/-- Takes every zone and every expression, and splits at blanks. -/
def anyZone : Library Unit where
  repr := fun s => "'" ++ s ++ "'"
  zoneInfo := fun _ => .ok ()
  cronSim := fun _ _ => none
  split := fun s => some ((Text.split ' ' s.toList).map String.ofList)

def everyNight : Conf := .dict [(some "schedule", .str "0 4 * * *"), (some "command", .str "report send")]

def nightJob (name : String) : Scheduled Unit := ⟨⟨name, ["report", "send"], none⟩, "0 4 * * *", ()⟩

theorem everyNight_job {name : String} (h : strip name ≠ "") :
    entryJob anyZone (.str "UTC") (some name, everyNight) = .ok (nightJob name) := by
  unfold entryJob
  dsimp only
  rw [if_neg h]
  rfl

theorem twoJobs_loaded {a b : String} (h : strip a ≠ "" ∧ strip b ≠ "") :
    loadJobs anyZone [(some "cron", .dict [(some "jobs", .dict [(some a, everyNight), (some b, everyNight)])])] =
      .ok [nightJob a, nightJob b] := by
  have hjobs : [(some a, everyNight), (some b, everyNight)].mapM (entryJob anyZone (.str "UTC")) =
      .ok [nightJob a, nightJob b] := by
    rw [List.mapM_cons, List.mapM_cons, everyNight_job h.1, everyNight_job h.2]
    rfl
  simpa [loadJobs, settings, defaults, zone, anyZone, bind, Except.bind, List.lookup_cons] using hjobs

def firstJob {a b : String} (h : strip a ≠ "" ∧ strip b ≠ "") : JobName anyZone :=
  ⟨a, _, _, twoJobs_loaded h, nightJob a, List.mem_cons_self, rfl⟩

def secondJob {a b : String} (h : strip a ≠ "" ∧ strip b ≠ "") : JobName anyZone :=
  ⟨b, _, _, twoJobs_loaded h, nightJob b, List.mem_cons_of_mem _ List.mem_cons_self, rfl⟩

/-- The digests of three names. -/
def someDigests (name : String) : String :=
  if name = "a/b" then "c14cddc033f64b9dea80ea675cf280a015e672516090a5626781153dc68fea11"
  else if name = "a_b-c14cddc0" then "10ed7bd6600057d22831b23ed87456cc4d4da495676f88cb126e9d9598c56e96"
  else "648fa9b31bc7ff7eb914e7a7180f07e0df0f8467839b1af8902da1d0bead03a2"

theorem digits_of_all {s : String} (h : (s.toList.all fun c => ('0' ≤ c ∧ c ≤ '9') ∨ ('a' ≤ c ∧ c ≤ 'f')) = true) :
    ∀ c ∈ s.toList, ('0' ≤ c ∧ c ≤ '9') ∨ ('a' ≤ c ∧ c ≤ 'f') := by
  intro c hc
  exact of_decide_eq_true (List.all_eq_true.mp h c hc)

theorem someDigests_hex : Hexdigest someDigests where
  length := by
    intro s
    unfold someDigests
    split
    · decide +kernel
    · split <;> decide +kernel
  digits := by
    intro s
    apply digits_of_all
    unfold someDigests
    split
    · decide +kernel
    · split <;> decide +kernel

theorem slash_named : strip "a/b" ≠ "" ∧ strip "a_b" ≠ "" := by decide +kernel

/-- Names that differ in a replaced character only. -/
theorem slash_and_underscore_apart : FileLocks.path someDigests "app.sqlite3" "a/b" ≠
    FileLocks.path someDigests "app.sqlite3" "a_b" :=
  (lock_paths_differ_iff anyZone someDigests someDigests_hex "app.sqlite3" (firstJob slash_named)
    (secondJob slash_named) (fun heq => absurd (congrArg Subtype.val heq) (by decide)) (by decide +kernel)).mpr
    ⟨fun h => absurd h.2 (by decide +kernel), fun h => absurd h.1 (by decide +kernel)⟩

theorem suffixed_named : strip "a/b" ≠ "" ∧ strip "a_b-c14cddc0" ≠ "" := by decide +kernel

/-- `a/b` gets the file that is named after the other job. -/
theorem suffixed_name_shares : ¬ ∀ a b : JobName anyZone, a ≠ b →
    FileLocks.suffix someDigests a.1 ≠ FileLocks.suffix someDigests b.1 →
    FileLocks.path someDigests "app.sqlite3" a.1 ≠ FileLocks.path someDigests "app.sqlite3" b.1 := by
  intro h
  have hdiffer := h (firstJob suffixed_named) (secondJob suffixed_named)
    (fun heq => absurd (congrArg Subtype.val heq) (by decide)) (by decide +kernel)
  exact hdiffer (by decide +kernel)

end

end PyAppRunner.Cron
