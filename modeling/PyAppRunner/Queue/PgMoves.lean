import PyAppRunner.Queue.PgAtomic

/-! What a statement can do, said once.

A statement that does not wait is three things: an edit of the jobs, an edit of the failed jobs and a
step to the next statement of the program (`exec_moves`). Each carries the guard under which the statement
takes it. An invariant of the driver is then one case per edit or per step, and never opens the program. -/
namespace PyAppRunner.Queue.PgQueue
open Sql

/-- Statements that write failed jobs and do not commit. -/
def Pc.shelving : Pc → Bool
  | .moveInsert .. => true
  | .retryDelete .. => true
  | _ => false

/-- What comes after them. -/
def Pc.shelved : Pc → Bool
  | .moveCommit _ (some _) => true
  | .retryCommit .. => true
  | _ => false

/-- Statements after which a call may return a count. -/
def Pc.counting : Pc → Bool
  | .retryNext .. => true
  | .forget .. => true
  | _ => false

section
variable {κ : Type} [DecidableEq κ]

/-! ### Edits -/

/-- What a statement does to the jobs. -/
inductive JobsEdit (c : κ) (w : World κ) : Pc → Table κ JobRow → Prop where
  | same {pc : Pc} : JobsEdit c w pc w.jobs
  | commit {pc : Pc} : JobsEdit c w pc (w.jobs.commit c)
  | rollback {pc : Pc} : JobsEdit c w pc (w.jobs.rollback c)
  | push {row : JobRow}
      (hfree : ∀ key, row.uniqueKey = some key → w.waitsForKey c key = false ∧ w.idForUnique c key = none) :
      JobsEdit c w (.pushInsert row) (w.jobs.insert c row).2
  | pushNow {row : JobRow}
      (hfree : ∀ key, row.uniqueKey = some key → w.waitsForKey c key = false ∧ w.idForUnique c key = none) :
      JobsEdit c w (.pushInsert row) ((w.jobs.insert c row).2.commit c)
  | lock {a : Asking} {moment : Int} {id : Nat} {r : JobRow}
      (h : w.jobs.candidate c (claimable a.queue moment) before = some (id, r)) :
      JobsEdit c w (.candidate a moment) (w.jobs.lock c fun i _ => i = id)
  | claim {a : Asking} {moment : Int} {id : Nat}
      (hfree : ¬ w.jobs.blocked c (fun i r => decide (i = id) && lapsed moment r) = true) :
      JobsEdit c w (.claim a moment id)
        (w.jobs.modify c (fun i r => decide (i = id) && lapsed moment r) fun r => some (claimRow a moment r))
  | delete {n : Nat} (hfree : ¬ w.jobs.blocked c (w.ownedBy n) = true) :
      JobsEdit c w (.delete n) ((w.jobs.modify c (w.ownedBy n) fun _ => none).commit c)
  | release {n : Nat} {availableAt : Int} {error : String} (hfree : ¬ w.jobs.blocked c (w.ownedBy n) = true) :
      JobsEdit c w (.release n availableAt error)
        ((w.jobs.modify c (w.ownedBy n) fun r => some (releaseRow availableAt error r)).commit c)
  | move {why : Why} (hfree : ¬ w.jobs.blocked c (w.moveWhere why) = true) :
      JobsEdit c w (.moveDelete why) (w.jobs.modify c (w.moveWhere why) fun _ => none)
  | retry {t : Retrying} {id : Nat} {row : JobRow} : JobsEdit c w (.retryInsert t id row) (w.jobs.insert c row).2

/-- What a statement does to the failed jobs. -/
inductive FailedEdit (c : κ) (w : World κ) : Pc → Table κ FailedRow → Prop where
  | same {pc : Pc} (h : pc.shelved = false) : FailedEdit c w pc w.failed
  | commit {pc : Pc} : FailedEdit c w pc (w.failed.commit c)
  | rollback {pc : Pc} : FailedEdit c w pc (w.failed.rollback c)
  | move {why : Why} {row : JobRow} {failedAt : Int} (r : FailedRow) :
      FailedEdit c w (.moveInsert why row failedAt) (w.failed.insert c r).2
  | retry {t : Retrying} {id : Nat} (hfree : ¬ w.failed.blocked c (fun i _ => i = id) = true) :
      FailedEdit c w (.retryDelete t id) (w.failed.modify c (fun i _ => i = id) fun _ => none)
  | forget {which : Selection} (hfree : ¬ w.failed.blocked c which.has = true) :
      FailedEdit c w (.forget which) ((w.failed.modify c which.has fun _ => none).commit c)

/-- From statement to statement; `jobs` is the table that the first one leaves. -/
inductive Next (c : κ) (w : World κ) (jobs : Table κ JobRow) : Pc → Pc → Prop where
  | done {pc : Pc} (h : pc.shelving = false) : Next c w jobs pc .idle
  | entry (op : Op) : Next c w jobs .idle (World.entry w.now op)
  | insert {row : JobRow} {key : String} : Next c w jobs (.pushLookup row key) (.pushInsert row)
  | again {row : JobRow} {key : String} : Next c w jobs (.pushInsert row) (.pushAgain key)
  | queue {a a' : Asking} : Next c w jobs (.round a) (.round a')
  | look {a a' : Asking} : Next c w jobs (.round a) (.candidate a' w.now)
  | nothing {a a' : Asking} {moment : Int} : Next c w jobs (.candidate a moment) (.round a')
  | exhausted {a : Asking} {moment : Int} {id : Nat} :
      Next c w jobs (.candidate a moment) (.moveDelete (.exhausted a moment id))
  | claim {a : Asking} {moment : Int} {id : Nat} {r : JobRow}
      (h : w.jobs.candidate c (claimable a.queue moment) before = some (id, r))
      (hjobs : jobs = w.jobs.lock c fun i _ => i = id) :
      Next c w jobs (.candidate a moment) (.claim a moment id)
  | lost {a : Asking} {moment : Int} {id : Nat} : Next c w jobs (.claim a moment id) (.lostCommit a)
  | read {a : Asking} {moment : Int} {id : Nat} : Next c w jobs (.claim a moment id) (.read a moment id)
  | commit {a : Asking} {moment : Int} {id : Nat} {row : Option JobRow} :
      Next c w jobs (.read a moment id) (.claimCommit a moment id row)
  | gone {a : Asking} {moment : Int} {id : Nat} {row : Option JobRow} :
      Next c w jobs (.claimCommit a moment id row) (.round a)
  | undecodable {a : Asking} {moment : Int} {id n : Nat} {row : Option JobRow} :
      Next c w jobs (.claimCommit a moment id row) (.moveDelete (.undecodable a n))
  | retake {a : Asking} : Next c w jobs (.lostCommit a) (.round a)
  | clock {why : Why} {row : JobRow} : Next c w jobs (.moveDelete why) (.moveClock why row)
  | unmoved {why : Why} : Next c w jobs (.moveDelete why) (.moveCommit why none)
  | shelve {why : Why} {row : JobRow} : Next c w jobs (.moveClock why row) (.moveInsert why row w.now)
  | shelved {why : Why} {row : JobRow} {failedAt : Int} :
      Next c w jobs (.moveInsert why row failedAt) (.moveCommit why (some row))
  | moved {why : Why} {row : Option JobRow} {a : Asking} : Next c w jobs (.moveCommit why row) (.round a)
  | select {id : Option Nat} {maxAttempts : Int} {t : Retrying} :
      Next c w jobs (.retrySelect id maxAttempts) (.retryNext t)
  | retry {t t' : Retrying} {id : Nat} {maxAttempts : Int} {f : FailedRow} :
      Next c w jobs (.retryNext t) (.retryInsert t' id (retryRow w.now maxAttempts f))
  | retried {t : Retrying} {id : Nat} {row : JobRow} : Next c w jobs (.retryInsert t id row) (.retryDelete t id)
  | taken {t : Retrying} {id : Nat} : Next c w jobs (.retryDelete t id) (.retryCommit t)
  | counted {t t' : Retrying} : Next c w jobs (.retryCommit t) (.retryNext t')

/-- All that a statement does to the tables and to its client. -/
structure Moves (c : κ) (w : World κ) (pc : Pc) (w' : World κ) : Prop where
  jobs : JobsEdit c w pc w'.jobs
  failed : FailedEdit c w pc w'.failed
  next : Next c w w'.jobs pc (w'.client c).pc
  now : w'.now = w.now
  answers : w'.answers = w.answers ∨
    ∃ a, w'.answers = w.answers ++ [(c, a)] ∧ ∀ n, a = .count n → pc.counting = true

/-! ### Statements -/

section
variable {c : κ} {w w' : World κ} {pc pc' : Pc} {a : Answer}

/-- A statement after which the call goes on. -/
theorem Moves.goto (hjobs : JobsEdit c w pc w'.jobs) (hfailed : FailedEdit c w pc w'.failed)
    (hnext : Next c w w'.jobs pc pc') (hnow : w'.now = w.now) (hanswers : w'.answers = w.answers) :
    Moves c w pc (w'.goto c pc') := by
  refine ⟨hjobs, hfailed, ?_, hnow, .inl hanswers⟩
  rw [client_goto]
  exact hnext

/-- A statement with which the call returns. -/
theorem Moves.answer (hjobs : JobsEdit c w pc w'.jobs) (hfailed : FailedEdit c w pc w'.failed)
    (hshelving : pc.shelving = false) (hcount : ∀ n, a = .count n → pc.counting = true)
    (hnow : w'.now = w.now) (hanswers : w'.answers = w.answers) : Moves c w pc (w'.answer c a) := by
  refine ⟨hjobs, hfailed, ?_, hnow, .inr ⟨a, congrArg (· ++ [(c, a)]) hanswers, hcount⟩⟩
  show Next c w w'.jobs pc ((w'.goto c .idle).client c).pc
  rw [client_goto]
  exact .done hshelving

/-- The statement reads only. -/
theorem Moves.goes (hnext : Next c w w.jobs pc pc') (h : pc.shelved = false) : Moves c w pc (w.goto c pc') :=
  .goto .same (.same h) hnext rfl rfl

theorem Moves.answers_only (h : pc.shelved = false) (hshelving : pc.shelving = false)
    (hcount : ∀ n, a = .count n → pc.counting = true) : Moves c w pc (w.answer c a) :=
  .answer .same (.same h) hshelving hcount rfl rfl

/-- The insert of a push: its key is free, so that it is the only row to have it. -/
theorem moves_pushInsert {row : JobRow}
    (hfree : ∀ key, row.uniqueKey = some key → w.waitsForKey c key = false ∧ w.idForUnique c key = none) :
    Moves c w (.pushInsert row) (w.pushInsert c row) := by
  unfold World.pushInsert
  dsimp only
  split
  · exact .answer (.pushNow hfree) .commit rfl (by simp) rfl rfl
  · exact .answer (.push hfree) (.same rfl) rfl (by simp) rfl rfl

/-- The key was taken meanwhile: the row that holds it is looked up. -/
theorem moves_violated (row : JobRow) (key : String) : Moves c w (.pushInsert row) (w.violated c key) := by
  unfold World.violated
  split
  · exact .goes .again rfl
  · exact .goto .rollback .rollback .again rfl rfl

/-- On to the next queue of the list, or back with nothing. -/
theorem moves_nextQueue (a : Asking) (h : pc.shelved = false) (hshelving : pc.shelving = false)
    (hnext : ∀ a', Next c w w.jobs pc (.round a')) : Moves c w pc (w.nextQueue c a) := by
  unfold World.nextQueue
  split
  · exact .answers_only h hshelving (by simp)
  · exact .goes (hnext _) h

/-- The look for a row that can be claimed. -/
theorem moves_candidate (a : Asking) (moment : Int) : Moves c w (.candidate a moment) (w.candidate c a moment) := by
  unfold World.candidate
  split
  · exact moves_nextQueue a rfl rfl fun _ => .nothing
  · next id r hcandidate =>
    dsimp only
    split
    · exact .goto (.lock hcandidate) (.same rfl) .exhausted rfl rfl
    · exact .goto (.lock hcandidate) (.same rfl) (.claim hcandidate rfl) rfl rfl

/-- The claim stands once it is committed. -/
theorem moves_claimCommit (decodes : String → Bool) (a : Asking) (moment : Int) (id : Nat) (row : Option JobRow) :
    Moves c w (.claimCommit a moment id row) (w.claimCommit decodes c a moment id row) := by
  unfold World.claimCommit
  dsimp only
  split
  · exact .goto .commit .commit .gone rfl rfl
  · split
    · exact .answer .commit .commit rfl (by simp) rfl rfl
    · exact .goto .commit .commit .undecodable rfl rfl

/-- The job is in the failed table once that is committed, and not before. -/
theorem moves_moveCommit (why : Why) (row : Option JobRow) :
    Moves c w (.moveCommit why row) (w.moveCommit c why row) := by
  unfold World.moveCommit
  cases why with
  | exhausted a moment id => exact .goto .commit .commit .moved rfl rfl
  | undecodable a n => exact .goto .commit .commit .moved rfl rfl
  | failed n error => exact .answer .commit .commit rfl (by simp) rfl rfl

/-- **A statement waits, or it is one of the moves.** -/
theorem exec_moves (decodes : String → Bool) (c : κ) (w : World κ) :
    w.exec decodes c = w ∨ Moves c w (w.client c).pc (w.exec decodes c) := by
  unfold World.exec
  generalize (w.client c).pc = pc
  -- One case for each statement that a client can be at. A statement that waits leaves the world as it is.
  cases pc with
  | idle => exact .inl rfl
  | pushLookup row key =>
    right
    dsimp only
    split
    · exact .answers_only rfl rfl (by simp)
    · split
      · exact .answers_only rfl rfl (by simp)
      · exact .goes .insert rfl
  | pushInsert row =>
    dsimp only
    split
    · exact .inr (.answers_only rfl rfl (by simp))
    · split
      · next hnone =>
        right
        apply moves_pushInsert
        intro key hkey
        rw [hnone] at hkey
        cases hkey
      · next key hkey =>
        split
        · exact .inl rfl
        · next hwait =>
          right
          split
          · exact moves_violated row key
          · next hfound =>
            apply moves_pushInsert
            intro key' hkey'
            rw [hkey] at hkey'
            cases hkey'
            exact ⟨by simpa using hwait, by simpa using hfound⟩
  | pushAgain key =>
    right
    dsimp only
    split
    · exact .answers_only rfl rfl (by simp)
    · split
      · exact .answers_only rfl rfl (by simp)
      · exact .answers_only rfl rfl (by simp)
  | round a =>
    right
    dsimp only
    split
    · exact moves_nextQueue a rfl rfl fun _ => .queue
    · exact .goes .look rfl
  | candidate a moment => exact .inr (moves_candidate a moment)
  | claim a moment id =>
    dsimp only
    unfold World.claim
    dsimp only
    split
    · exact .inl rfl
    · next hfree =>
      right
      split
      · exact .goes .lost rfl
      · exact .goto (.claim hfree) (.same rfl) .read rfl rfl
  | read a moment id => exact .inr (.goes .commit rfl)
  | claimCommit a moment id row => exact .inr (moves_claimCommit decodes a moment id row)
  | lostCommit a => exact .inr (.goto .commit .commit .retake rfl rfl)
  | delete n =>
    dsimp only
    unfold World.delete
    dsimp only
    split
    · exact .inl rfl
    · next hfree =>
      right
      split
      · exact .answers_only rfl rfl (by simp)
      · exact .answer (.delete hfree) .commit rfl (by simp) rfl rfl
  | release n availableAt error =>
    dsimp only
    unfold World.release
    dsimp only
    split
    · exact .inl rfl
    · next hfree =>
      right
      split
      · exact .answers_only rfl rfl (by simp)
      · exact .answer (.release hfree) .commit rfl (by simp) rfl rfl
  | moveDelete why =>
    dsimp only
    unfold World.moveDelete
    dsimp only
    split
    · exact .inl rfl
    · next hfree =>
      right
      split
      · exact .goes .unmoved rfl
      · exact .goto (.move hfree) (.same rfl) .clock rfl rfl
  | moveClock why row => exact .inr (.goes .shelve rfl)
  | moveInsert why row failedAt => exact .inr (.goto .same (.move _) .shelved rfl rfl)
  | moveCommit why row => exact .inr (moves_moveCommit why row)
  | retrySelect id maxAttempts => exact .inr (.goes .select rfl)
  | retryNext t =>
    right
    dsimp only
    unfold World.retryNext
    split
    · exact .answers_only rfl rfl fun _ _ => rfl
    · exact .goes .retry rfl
  | retryInsert t id row => exact .inr (.goto .retry (.same rfl) .retried rfl rfl)
  | retryDelete t id =>
    dsimp only
    unfold World.retryDelete
    dsimp only
    split
    · exact .inl rfl
    · next hfree => exact .inr (.goto .same (.retry hfree) .taken rfl rfl)
  | retryCommit t => exact .inr (.goto .commit .commit .counted rfl rfl)
  | forget which =>
    dsimp only
    unfold World.forget
    split
    · exact .inl rfl
    · next hfree => exact .inr (.answer .commit (.forget hfree) rfl (fun _ _ => rfl) rfl rfl)

/-! ### Every input of a client -/

/-- Between two calls. -/
theorem moves_setConn {conn : Conn} (hidle : (w.client c).pc = .idle) (hclient : w'.client = w.client)
    (hjobs : JobsEdit c w .idle w'.jobs) (hfailed : FailedEdit c w .idle w'.failed) (hnow : w'.now = w.now)
    (hanswers : w'.answers = w.answers) : Moves c w .idle (w'.setConn c conn) := by
  refine ⟨hjobs, hfailed, ?_, hnow, .inl hanswers⟩
  have hpc : ((w'.setConn c conn).client c).pc = .idle := by simp [World.setConn, hclient, hidle]
  rw [hpc]
  exact .done rfl

/-- An input changes nothing, is one of the moves, or breaks the connection. -/
theorem step_moves (decodes : String → Bool) {input : Input κ} (hc : input.client = some c) :
    w.step decodes input = w ∨ Moves c w (w.client c).pc (w.step decodes input) ∨
      w.step decodes input = ((w.rollbackAll c).setConn c .autocommit).answer c .raised := by
  -- Only a client that is between calls may begin, commit, roll back or call.
  cases input with
  | tick micros => cases hc
  | begin d =>
    cases hc
    simp only [World.step, World.whenIdle]
    split
    · next hidle =>
      rw [hidle]
      split
      · exact .inr (.inl (moves_setConn hidle rfl .same (.same rfl) rfl rfl))
      · exact .inl rfl
    · exact .inl rfl
  | commit d =>
    cases hc
    simp only [World.step, World.whenIdle]
    split
    · next hidle =>
      rw [hidle]
      exact .inr (.inl (moves_setConn hidle rfl .commit .commit rfl rfl))
    · exact .inl rfl
  | rollback d =>
    cases hc
    simp only [World.step, World.whenIdle]
    split
    · next hidle =>
      rw [hidle]
      exact .inr (.inl (moves_setConn hidle rfl .rollback .rollback rfl rfl))
    · exact .inl rfl
  | call d op =>
    cases hc
    simp only [World.step, World.call]
    split
    · next hidle =>
      rw [hidle]
      split
      · exact .inr (.inl (.goes (.entry op) rfl))
      · exact .inl rfl
    · exact .inl rfl
  | step d =>
    cases hc
    exact (exec_moves decodes c w).imp_right .inl
  | abort d =>
    cases hc
    exact .inr (.inr rfl)

end

end

end PyAppRunner.Queue.PgQueue
