import PyAppRunner.Base.Lock
import PyAppRunner.Base.Dict

/-! The overlap locks of the scheduler.

On Postgres a job's lock is a session-level advisory lock, keyed by a 64-bit hash of the
job's name; on SQLite it is a `flock` on a file named after the job, beside the database.
An advisory lock counts how often its session took it, a `flock` belongs to one open
file and is refused to any other, of the same process too. While the names in use do not
collide, both are a table of holders (`jobLock_keeps`).

A client is a scheduler: its connection, or its process with the files it has open. -/
namespace PyAppRunner.Cron
open Base

/-! ### Advisory locks -/

/-- The server's advisory locks: the session that holds a key, and how often. -/
abbrev AdvisoryLocks := Int → Option (Nat × Nat)

namespace AdvisoryLocks

/-- A key gets a holder or loses it. -/
def put (locks : AdvisoryLocks) (key : Int) (holder : Option (Nat × Nat)) : AdvisoryLocks :=
  fun k => if k = key then holder else locks k

/-- `pg_try_advisory_lock`. -/
def tryLock (session : Nat) (key : Int) (locks : AdvisoryLocks) : Bool × AdvisoryLocks :=
  match locks key with
  | none => (true, locks.put key (some (session, 1)))
  | some (holder, count) =>
    if holder = session then (true, locks.put key (some (session, count + 1))) else (false, locks)

/-- `pg_advisory_unlock`; what the session does not hold stays as it is, with a warning. -/
def unlock (session : Nat) (key : Int) (locks : AdvisoryLocks) : AdvisoryLocks :=
  match locks key with
  | none => locks
  | some (holder, count) =>
    if holder = session then locks.put key (if count ≤ 1 then none else some (session, count - 1)) else locks

/-- The session has ended. -/
def endSession (session : Nat) (locks : AdvisoryLocks) : AdvisoryLocks :=
  fun key => (locks key).filter fun holder => holder.1 ≠ session

end AdvisoryLocks

/-- `ADVISORY_NAMESPACE`. -/
def advisoryNamespace : Int := 0x4A0B

/-- `PgLock`. -/
def pgLock (hashtextextended : String → Int → Int) : LockService String where
  State := AdvisoryLocks
  init := fun _ => none
  acquire c name := AdvisoryLocks.tryLock c (hashtextextended name advisoryNamespace)
  release c name := AdvisoryLocks.unlock c (hashtextextended name advisoryNamespace)
  close := AdvisoryLocks.endSession

/-! ### Lock files -/

/-- The files' locks, each held by an open file of a process, and what every `FileLock` has
in `_held`. Open files are numbered as they are opened. -/
structure FileLocks where
  locked : String → Option (Nat × Nat)
  opened : Nat
  held : Nat → Dict String Nat

namespace FileLocks

/-- A character that may stand in the name of a file. -/
def safeChar (c : Char) : Bool :=
  ('A' ≤ c && c ≤ 'Z') || ('a' ≤ c && c ≤ 'z') || ('0' ≤ c && c ≤ '9') || c == '_' || c == '.' || c == '-'

/-- `re.sub(r"[^A-Za-z0-9_.-]", "_", name)`. -/
def safe (name : String) : String :=
  String.ofList (name.toList.map fun c => if safeChar c then c else '_')

/-- `FileLock.path`, given the digest of a name in hexadecimal. -/
def path (sha256 : String → String) (database name : String) : String :=
  database ++ ".cron-" ++
    (if safe name ≠ name then safe name ++ "-" ++ String.ofList ((sha256 name).toList.take 8) else safe name) ++
    ".lock"

variable (path : String → String)

/-- `FileLock.acquire`. `try_lock` opens the file anew, and closes it when it is locked. -/
def acquire (c : Nat) (name : String) (s : FileLocks) : Bool × FileLocks :=
  match s.locked (path name) with
  | some _ => (false, {s with opened := s.opened + 1})
  | none =>
    (true,
      { locked := fun p => if p = path name then some (c, s.opened) else s.locked p
        opened := s.opened + 1
        held := fun d => if d = c then (s.held c).set name s.opened else s.held d })

/-- `FileLock.release`: whatever file that descriptor is open on. -/
def release (c : Nat) (name : String) (s : FileLocks) : FileLocks :=
  match (s.held c).get name with
  | none => s
  | some fd =>
    {s with
      locked := fun p => (s.locked p).filter fun holder => holder ≠ (c, fd)
      held := fun d => if d = c then (s.held c).erase name else s.held d}

/-- The process is gone, and its open files are closed. -/
def exit (c : Nat) (s : FileLocks) : FileLocks :=
  {s with locked := fun p => (s.locked p).filter fun holder => holder.1 ≠ c}

end FileLocks

/-- `FileLock`. -/
def fileLock (path : String → String) : LockService String where
  State := FileLocks
  init := ⟨fun _ => none, 0, fun _ => .empty⟩
  acquire := FileLocks.acquire path
  release := FileLocks.release
  close := FileLocks.exit

/-! ### The lock of a run -/

/-- The two kinds of databases. -/
inductive Driver where
  | postgres
  | sqlite
deriving DecidableEq

/-- What is not computed here: the server's hash, a digest in hexadecimal, and the name of
the database. -/
structure LockConfig where
  driver : Driver
  database : String
  hashtextextended : String → Int → Int
  sha256 : String → String

/-- `_job_lock`. -/
def jobLock (conf : LockConfig) : LockService String :=
  match conf.driver with
  | .sqlite => fileLock (FileLocks.path conf.sha256 conf.database)
  | .postgres => pgLock conf.hashtextextended

/-- No two of the names share a lock. -/
def LockConfig.Apart (conf : LockConfig) (names : Set String) : Prop :=
  match conf.driver with
  | .sqlite => Set.InjOn (FileLocks.path conf.sha256 conf.database) names
  | .postgres => Set.InjOn (fun name => conf.hashtextextended name advisoryNamespace) names

/-! ### Both are a table of holders -/

section Keeps
variable {names : Set String} {h : Holders String} {x : String} {c d : Nat}

/-- An advisory lock is held once, by the session the table names. -/
def AdvisoryLocks.Stands (key : String → Int) (names : Set String) (s : AdvisoryLocks) (h : Holders String) : Prop :=
  ∀ y ∈ names, s (key y) = (h y).map fun holder => (holder, 1)

theorem AdvisoryLocks.stands_put {key : String → Int} (hkey : Set.InjOn key names) {s : AdvisoryLocks}
    (hs : s.Stands key names h) (hx : x ∈ names) (holder : Option Nat) :
    (s.put (key x) (holder.map fun holder => (holder, 1))).Stands key names (h.set x holder) := by
  intro y hy
  by_cases hyx : y = x
  · rw [hyx, put, if_pos rfl, Holders.set_self]
  · have hne : key y ≠ key x := fun heq => hyx (hkey hy hx heq)
    rw [put, if_neg hne, Holders.set_of_ne _ _ _ hyx]
    exact hs y hy

theorem AdvisoryLocks.tryLock_free {s : AdvisoryLocks} {key : Int} (hs : s key = none) :
    s.tryLock c key = (true, s.put key (some (c, 1))) := by
  rw [tryLock, hs]

theorem AdvisoryLocks.tryLock_other {s : AdvisoryLocks} {key : Int} {count : Nat} (hs : s key = some (d, count))
    (hne : d ≠ c) : s.tryLock c key = (false, s) := by
  rw [tryLock, hs]
  exact if_neg hne

theorem AdvisoryLocks.unlock_once {s : AdvisoryLocks} {key : Int} (hs : s key = some (c, 1)) :
    s.unlock c key = s.put key none := by
  rw [unlock, hs]
  exact if_pos rfl

theorem pgLock_keeps {hashtextextended : String → Int → Int}
    (hkey : Set.InjOn (fun name => hashtextextended name advisoryNamespace) names) :
    (pgLock hashtextextended).Keeps names
      (AdvisoryLocks.Stands (fun name => hashtextextended name advisoryNamespace) names) := by
  refine ⟨fun y _ => rfl, ?_, ?_, ?_, ?_⟩
  · intro s h x c hs hx hfree
    have hnone : s (hashtextextended x advisoryNamespace) = none := by
      rw [hs x hx, hfree]
      rfl
    rw [show (pgLock hashtextextended).acquire c x s = _ from AdvisoryLocks.tryLock_free hnone]
    exact ⟨rfl, AdvisoryLocks.stands_put hkey hs hx (some c)⟩
  · intro s h x c d hs hx hheld hne
    have hsome : s (hashtextextended x advisoryNamespace) = some (d, 1) := by
      rw [hs x hx, hheld]
      rfl
    rw [show (pgLock hashtextextended).acquire c x s = _ from AdvisoryLocks.tryLock_other hsome hne]
    exact ⟨rfl, hs⟩
  · intro s h x c hs hx hheld
    have hsome : s (hashtextextended x advisoryNamespace) = some (c, 1) := by
      rw [hs x hx, hheld]
      rfl
    rw [show (pgLock hashtextextended).release c x s = _ from AdvisoryLocks.unlock_once hsome]
    exact AdvisoryLocks.stands_put hkey hs hx none
  · intro s h c hs y hy
    show (s _).filter _ = _
    rw [hs y hy, Holders.without]
    cases hheld : h y with
    | none => rfl
    | some d => by_cases hd : d = c <;> simp [hd]

/-- A file's lock belongs to the open file that the holder has under the job's name, and
open files are told apart. -/
structure FileLocks.Stands (path : String → String) (names : Set String) (s : FileLocks) (h : Holders String) : Prop where
  free : ∀ y ∈ names, h y = none → s.locked (path y) = none
  taken : ∀ y ∈ names, ∀ c, h y = some c → ∃ fd, s.locked (path y) = some (c, fd) ∧ (s.held c).get y = some fd
  fresh : ∀ p c fd, s.locked p = some (c, fd) → fd < s.opened
  single : ∀ p q c d fd, s.locked p = some (c, fd) → s.locked q = some (d, fd) → p = q

namespace FileLocks
variable {path : String → String} {s : FileLocks}

theorem stands_acquire (hpath : Set.InjOn path names) (hs : s.Stands path names h) (hx : x ∈ names) (hfree : h x = none) :
    (s.acquire path c x).1 = true ∧ (s.acquire path c x).2.Stands path names (h.set x (some c)) := by
  have hne : ∀ y ∈ names, y ≠ x → path y ≠ path x := fun y hy hyx heq => hyx (hpath hy hx heq)
  rw [acquire, hs.free x hx hfree]
  refine ⟨rfl, ?_, ?_, ?_, ?_⟩
  · intro y hy hnone
    by_cases hyx : y = x
    · rw [hyx, Holders.set_self] at hnone
      cases hnone
    · rw [Holders.set_of_ne _ _ _ hyx] at hnone
      exact (if_neg (hne y hy hyx)).trans (hs.free y hy hnone)
  · intro y hy d hd
    by_cases hyx : y = x
    · rw [hyx, Holders.set_self] at hd
      cases hd
      exact ⟨s.opened, by simp [hyx], by simp [hyx]⟩
    · rw [Holders.set_of_ne _ _ _ hyx] at hd
      obtain ⟨fd, hfd, hheld⟩ := hs.taken y hy d hd
      refine ⟨fd, (if_neg (hne y hy hyx)).trans hfd, ?_⟩
      by_cases hdc : d = c
      · rw [hdc] at hheld
        simp [hdc, hyx, hheld]
      · simp [hdc, hheld]
  · intro p d fd hfd
    dsimp only at hfd ⊢
    split at hfd
    · cases hfd
      omega
    · have := hs.fresh p d fd hfd
      omega
  · intro p q d e fd hp hq
    -- The file opened last is not the one of any lock that was there before.
    dsimp only at hp hq
    split at hp
    · split at hq
      · simp_all
      · cases hp
        exact absurd (hs.fresh q e _ hq) (Nat.lt_irrefl _)
    · split at hq
      · cases hq
        exact absurd (hs.fresh p d _ hp) (Nat.lt_irrefl _)
      · exact hs.single p q d e fd hp hq

theorem stands_refused (hs : s.Stands path names h) (hx : x ∈ names) (hheld : h x = some d) :
    (s.acquire path c x).1 = false ∧ (s.acquire path c x).2.Stands path names h := by
  obtain ⟨fd, hfd, -⟩ := hs.taken x hx d hheld
  rw [acquire, hfd]
  exact ⟨rfl, hs.free, hs.taken, fun p c fd hp => Nat.lt_succ_of_lt (hs.fresh p c fd hp), hs.single⟩

/-- A lock that is kept is the same lock. -/
theorem of_filter {p : Nat × Nat → Bool} {holder : Option (Nat × Nat)} {v : Nat × Nat} (hv : holder.filter p = some v) :
    holder = some v :=
  (Option.filter_eq_some_iff.mp hv).1

theorem stands_release (hpath : Set.InjOn path names) (hs : s.Stands path names h) (hx : x ∈ names) (hheld : h x = some c) :
    (s.release c x).Stands path names (h.set x none) := by
  obtain ⟨fd, hfd, hget⟩ := hs.taken x hx c hheld
  rw [release, hget]
  refine ⟨?_, ?_, fun p c fd hp => hs.fresh p c fd (of_filter hp),
    fun p q c d fd hp hq => hs.single p q c d fd (of_filter hp) (of_filter hq)⟩
  · intro y hy hnone
    by_cases hyx : y = x
    · simp [hyx, hfd]
    · rw [Holders.set_of_ne _ _ _ hyx] at hnone
      simp [hs.free y hy hnone]
  · intro y hy d hd
    by_cases hyx : y = x
    · rw [hyx, Holders.set_self] at hd
      cases hd
    · rw [Holders.set_of_ne _ _ _ hyx] at hd
      obtain ⟨fd', hfd', hget'⟩ := hs.taken y hy d hd
      have hother : (d, fd') ≠ (c, fd) := by
        intro heq
        cases heq
        exact hyx (hpath hy hx (hs.single _ _ _ _ _ hfd' hfd))
      refine ⟨fd', by simp [hfd', hother], ?_⟩
      by_cases hdc : d = c
      · rw [hdc] at hget'
        simp [hdc, hyx, hget']
      · simp [hdc, hget']

theorem stands_exit (hs : s.Stands path names h) (c : Nat) : (s.exit c).Stands path names (h.without c) := by
  refine ⟨?_, ?_, fun p c fd hp => hs.fresh p c fd (of_filter hp),
    fun p q c d fd hp hq => hs.single p q c d fd (of_filter hp) (of_filter hq)⟩
  · intro y hy hnone
    show (s.locked (path y)).filter _ = none
    cases hheld : h y with
    | none => rw [hs.free y hy hheld]; rfl
    | some d =>
      obtain ⟨fd, hfd, -⟩ := hs.taken y hy d hheld
      have hd : d = c := by
        by_contra hdc
        simp [Holders.without, hheld, hdc] at hnone
      simp [hfd, hd]
  · intro y hy d hd
    have hne : h y ≠ some c := by
      intro heq
      rw [Holders.without, if_pos heq] at hd
      cases hd
    rw [Holders.without, if_neg hne] at hd
    obtain ⟨fd, hfd, hget⟩ := hs.taken y hy d hd
    have hdc : d ≠ c := fun heq => hne (heq ▸ hd)
    exact ⟨fd, by simp [exit, hfd, hdc], hget⟩

end FileLocks

theorem fileLock_keeps {path : String → String} (hpath : Set.InjOn path names) :
    (fileLock path).Keeps names (FileLocks.Stands path names) where
  init :=
    { free := fun _ _ _ => rfl
      taken := fun _ _ _ hc => absurd hc (Option.some_ne_none _).symm
      fresh := fun _ _ _ hp => absurd hp (Option.some_ne_none _).symm
      single := fun _ _ _ _ _ hp _ => absurd hp (Option.some_ne_none _).symm }
  granted _ hs hx hfree := FileLocks.stands_acquire hpath hs hx hfree
  refused hs hx hheld _ := FileLocks.stands_refused hs hx hheld
  released hs hx hheld := FileLocks.stands_release hpath hs hx hheld
  closed c hs := FileLocks.stands_exit hs c

/-- While no two names in use collide, a run's lock is a table of holders. -/
theorem jobLock_keeps {conf : LockConfig} (hapart : conf.Apart names) :
    ∃ R, (jobLock conf).Keeps names R := by
  unfold LockConfig.Apart at hapart
  unfold jobLock
  cases hdriver : conf.driver with
  | postgres =>
    rw [hdriver] at hapart
    exact ⟨_, pgLock_keeps hapart⟩
  | sqlite =>
    rw [hdriver] at hapart
    exact ⟨_, fileLock_keeps hapart⟩

end Keeps

end PyAppRunner.Cron
