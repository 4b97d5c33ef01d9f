import Mathlib.Algebra.GroupWithZero.Nat
import PyAppRunner.Queue.PgFence
import PyAppRunner.Sql.WriteOnce

/-! What becomes of failed jobs on Postgres.

`retry_failed` reads the failed rows first and then moves them one by one, each in a
transaction of its own that inserts the job and deletes the failed row. The delete does
not look whether there was a row to delete, so of two calls that have read the same row
both insert a job (`two_retries_two_jobs`). Where every delete finds its row, nothing is
lost, doubled or counted twice (`retries_conserve`).

Beside the driver's world stands a history: which retries were committed, what was
forgotten, and for which rows a call has still to answer. It has no effect on the driver
(`world_traced`). -/
namespace PyAppRunner.Queue.PgQueue
open Sql

/-- A retry that was committed: the id of the failed row, and the job row its transaction
has put in its place. -/
structure Retry where
  failed : Nat
  job : Nat
  row : Option JobRow
deriving DecidableEq

/-- The driver with its history. `moving` has the ids of the failed row and of the new job of
the transaction a retry has open. `owed` names a client once for each row its unfinished
call has moved; `broken` counts the rows of the calls that were broken off. -/
structure Traced (κ : Type) where
  world : World κ
  moving : κ → Nat × Nat
  retried : List Retry
  forgotten : List Nat
  owed : List κ
  broken : Nat

/-- What the finished calls have returned, in all. -/
def returned {κ : Type} (answers : List (κ × Answer)) : Nat :=
  (answers.map fun a => match a.2 with
    | .count n => n
    | _ => 0).sum

section
variable {κ : Type} [DecidableEq κ]

/-- What a step of client `c` adds to the history. -/
def Traced.note (c : κ) (t : Traced κ) : Traced κ :=
  match (t.world.client c).pc with
  | .retryInsert _ id _ => {t with moving := Function.update t.moving c (id, t.world.jobs.seq + 1)}
  | .retryCommit _ =>
    let (failed, job) := t.moving c
    {t with
      retried := t.retried ++ [⟨failed, job, (t.world.jobs.slot job).view c⟩]
      owed := t.owed ++ [c]}
  | .retryNext r => if r.rows = [] then {t with owed := t.owed.filter (· ≠ c)} else t
  | .forget which =>
    if t.world.failed.blocked c which.has then t
    else {t with forgotten := t.forgotten ++ (t.world.failed.rows c which.has).map Prod.fst}
  | _ => t

/-- A step, with what is written down before it. -/
def Traced.step (decodes : String → Bool) (input : Input κ) (t : Traced κ) : Traced κ :=
  let noted : Traced κ := match input with
    | .step c => t.note c
    | .abort c => {t with owed := t.owed.filter (· ≠ c), broken := t.broken + t.owed.count c}
    | _ => t
  {noted with world := t.world.step decodes input}

/-- The queue with its history beside it. -/
def tracer (decodes : String → Bool) : Base.Machine (Traced κ) (Input κ) := ⟨Traced.step decodes⟩

def Traced.start (κ : Type) : Traced κ := ⟨.start κ, fun _ => (0, 0), [], [], [], 0⟩

/-- The delete of a retry has to wait, or finds the failed row. -/
def Pc.findsRow (c : κ) (failed : Table κ FailedRow) : Pc → Bool
  | .retryDelete _ id => failed.blocked c (fun i _ => i = id) || ((failed.slot id).view c).isSome
  | _ => true

/-- No delete of a retry comes too late. -/
def FindsRow : Input κ → Traced κ → Prop
  | .step c, t => (t.world.client c).pc.findsRow c t.world.failed = true
  | _, _ => True

instance (input : Input κ) (t : Traced κ) : Decidable (FindsRow input t) :=
  match input with
  | .step _ => inferInstanceAs (Decidable (_ = true))
  | .tick _ => inferInstanceAs (Decidable True)
  | .begin _ => inferInstanceAs (Decidable True)
  | .commit _ => inferInstanceAs (Decidable True)
  | .rollback _ => inferInstanceAs (Decidable True)
  | .call _ _ => inferInstanceAs (Decidable True)
  | .abort _ => inferInstanceAs (Decidable True)

/-! ### Steps that have nothing to do with failed jobs -/

/-- The statements that read or write the failed table, and what a call does between them. -/
def Pc.shelves : Pc → Bool
  | .moveInsert .. => true
  | .moveCommit .. => true
  | .retrySelect .. => true
  | .retryNext .. => true
  | .retryInsert .. => true
  | .retryDelete .. => true
  | .retryCommit .. => true
  | .forget .. => true
  | _ => false

/-- A row was moved to the failed table and not committed, or a retry is under way. -/
def Pc.holding : Pc → Bool
  | .moveCommit _ (some _) => true
  | .retryNext .. => true
  | .retryInsert .. => true
  | .retryDelete .. => true
  | .retryCommit .. => true
  | _ => false

/-- Failed table and counts are as they were, and `c` holds nothing afterwards. -/
structure Quiet (c : κ) (w w' : World κ) : Prop where
  failed : w'.failed = w.failed
  pc : (w'.client c).pc.holding = false
  counts : returned w'.answers = returned w.answers

variable {c : κ} {w w' : World κ}

omit [DecidableEq κ] in
theorem returned_append (answers : List (κ × Answer)) (a : κ × Answer) :
    returned (answers ++ [a]) = returned answers + match a.2 with
      | .count n => n
      | _ => 0 := by
  simp [returned]

/-- A statement that leaves the failed table and the answers. -/
theorem Quiet.goto {pc : Pc} (hfailed : w'.failed = w.failed) (hanswers : w'.answers = w.answers)
    (hpc : pc.holding = false) : Quiet c w (w'.goto c pc) where
  failed := hfailed
  pc := by
    rw [client_goto]
    exact hpc
  counts := congrArg returned hanswers

omit [DecidableEq κ] in
theorem Quiet.same (hpc : (w.client c).pc.holding = false) : Quiet c w w := ⟨rfl, hpc, rfl⟩

theorem entry_holding (now : Int) (op : Op) : (World.entry now op).holding = false := by
  cases op with
  | push r =>
    unfold World.entry
    dsimp only
    split
    · rfl
    · rfl
  | _ => rfl

/-- Only a retry comes to hold a row of the failed table. -/
theorem Next.holding {jobs : Table κ JobRow} {pc pc' : Pc} (h : Next c w jobs pc pc') (hpc : pc.shelves = false) :
    pc'.holding = false := by
  cases h with
  | entry op => exact entry_holding w.now op
  | shelved | select | retry | retried | taken | counted => cases hpc
  | _ => rfl

omit [DecidableEq κ] in
theorem not_counting {pc : Pc} (hpc : pc.shelves = false) : pc.counting = false := by
  cases pc with
  | retryNext | forget => cases hpc
  | _ => rfl

/-- A step that has nothing to do with failed jobs. -/
theorem Moves.quiet {pc : Pc} (h : Moves c w pc w') (hpc : pc.shelves = false) (hnone : w.failed.HoldsNone c) :
    Quiet c w w' where
  failed := by
    have hedit := h.failed
    generalize w'.failed = failed at hedit
    cases hedit with
    | same => rfl
    | commit => exact hnone.commit
    | rollback => exact hnone.rollback
    | move | retry | forget => cases hpc
  pc := h.next.holding hpc
  counts := by
    obtain hanswers | ⟨a, hanswers, hcount⟩ := h.answers
    · rw [hanswers]
    · rw [hanswers, returned_append]
      cases a with
      | count n =>
        have hcounting := hcount n rfl
        rw [not_counting hpc] at hcounting
        cases hcounting
      | _ => rfl

omit [DecidableEq κ] in
theorem not_holding {pc : Pc} (hpc : pc.shelves = false) : pc.holding = false := by
  cases pc with
  | moveCommit | retryNext | retryInsert | retryDelete | retryCommit => cases hpc
  | _ => rfl

/-- What is no retry, no move and no forgetting is quiet. -/
theorem quiet_exec (decodes : String → Bool) (hpc : (w.client c).pc.shelves = false)
    (hnone : w.failed.HoldsNone c) : Quiet c w (w.exec decodes c) := by
  obtain hsame | hmoves := exec_moves decodes c w
  · rw [hsame]
    exact .same (not_holding hpc)
  · exact hmoves.quiet hpc hnone

/-! ### The invariant -/

/-- A job row as a retry makes it of failed row `f`. -/
def RetryOf (f : FailedRow) (row : JobRow) : Prop := ∃ moment maxAttempts, row = retryRow moment maxAttempts f

/-- The rows a retry has read are there, or were. -/
def Reads (failed : Table κ FailedRow) (r : Retrying) : Prop := ∀ found ∈ r.rows, failed.Known found.1 found.2

/-- What client `c` has of the failed table, and for how many rows its call is to answer. -/
def Shelf (t : Traced κ) (c : κ) : Pc → Prop
  | .retryNext r => t.world.failed.HoldsNone c ∧ Reads t.world.failed r ∧ t.owed.count c = r.requeued
  | .retryInsert r id row => t.world.failed.HoldsNone c ∧ Reads t.world.failed r ∧ t.owed.count c = r.requeued ∧
    ∃ f, t.world.failed.Known id f ∧ RetryOf f row
  | .retryDelete r id => t.world.failed.HoldsNone c ∧ Reads t.world.failed r ∧ t.owed.count c = r.requeued ∧
    (t.moving c).1 = id ∧ ∃ f row, t.world.failed.Known id f ∧ RetryOf f row ∧
      (t.world.jobs.slot (t.moving c).2).held = some (c, some row)
  | .retryCommit r => Reads t.world.failed r ∧ t.owed.count c = r.requeued ∧
    ∃ f row, t.world.failed.Holds c (t.moving c).1 f none ∧ RetryOf f row ∧
      (t.world.jobs.slot (t.moving c).2).held = some (c, some row)
  | .moveCommit _ (some _) =>
    (∀ i v, (t.world.failed.slot i).held = some (c, v) → (t.world.failed.slot i).committed = none) ∧
      t.owed.count c = 0
  | _ => t.world.failed.HoldsNone c ∧ t.owed.count c = 0

/-- No row was retried twice, or retried and forgotten; what left the table is gone, and is
what the calls have returned or are yet to answer for. -/
structure Tally (t : Traced κ) : Prop where
  retried : (t.retried.map Retry.failed).Nodup
  forgotten : t.forgotten.Nodup
  apart : ∀ i ∈ t.forgotten, i ∉ t.retried.map Retry.failed
  gone : ∀ i, i ∈ t.retried.map Retry.failed ∨ i ∈ t.forgotten → t.world.failed.Gone i
  counts : returned t.world.answers + t.owed.length + t.broken = t.retried.length + t.forgotten.length

/-- What the trace says of the tables. -/
structure Kept (t : Traced κ) : Prop where
  consistent : Consistent t.world
  once : t.world.failed.WriteOnce
  client : ∀ c, Shelf t c (t.world.client c).pc
  tally : Tally t

variable {t t' : Traced κ} {decodes : String → Bool} {input : Input κ}

theorem shelf_iff {pc : Pc} (hpc : pc.holding = false) :
    Shelf t c pc ↔ t.world.failed.HoldsNone c ∧ t.owed.count c = 0 := by
  cases pc with
  | moveCommit why row =>
    cases row with
    | none => exact Iff.rfl
    | some row => cases hpc
  | retryNext | retryInsert | retryDelete | retryCommit => cases hpc
  | _ => exact Iff.rfl

/-- What another client does is nothing to what this one has. -/
theorem shelf_frame {d : κ} (hne : d ≠ c) (hjobs : t.world.jobs.KeepsOthers c t'.world.jobs)
    (hedit : t.world.failed.Edit c t'.world.failed) (honce : t.world.failed.WriteOnce)
    (hmoving : t'.moving d = t.moving d) (howed : t'.owed.count d = t.owed.count d) {pc : Pc}
    (h : Shelf t d pc) : Shelf t' d pc := by
  have hnone : t.world.failed.HoldsNone d → t'.world.failed.HoldsNone d := hedit.keepsOthers.holdsNone hne
  have hreads : ∀ r, Reads t.world.failed r → Reads t'.world.failed r :=
    fun r hr found hfound => (hr found hfound).edit honce hedit
  have hheld : ∀ {j row}, (t.world.jobs.slot j).held = some (d, some row) →
      (t'.world.jobs.slot j).held = some (d, some row) := by
    intro j row hrow
    rw [hjobs.held hne (.inl hrow)]
    exact hrow
  cases pc with
  | retryNext r => exact ⟨hnone h.1, hreads r h.2.1, howed.trans h.2.2⟩
  | retryInsert r id row =>
    obtain ⟨hn, hr, hcount, f, hf, hrow⟩ := h
    exact ⟨hnone hn, hreads r hr, howed.trans hcount, f, hf.edit honce hedit, hrow⟩
  | retryDelete r id =>
    obtain ⟨hn, hr, hcount, hid, f, row, hf, hrow, hjob⟩ := h
    refine ⟨hnone hn, hreads r hr, howed.trans hcount, ?_, f, row, hf.edit honce hedit, hrow, ?_⟩
    · rw [hmoving]
      exact hid
    · rw [hmoving]
      exact hheld hjob
  | retryCommit r =>
    obtain ⟨hr, hcount, f, row, hf, hrow, hjob⟩ := h
    refine ⟨hreads r hr, howed.trans hcount, f, row, ?_, hrow, ?_⟩
    · rw [hmoving]
      exact hedit.keepsOthers.holds hne hf
    · rw [hmoving]
      exact hheld hjob
  | moveCommit why row =>
    cases row with
    | none => exact ⟨hnone h.1, howed.trans h.2⟩
    | some row =>
      refine ⟨?_, howed.trans h.2⟩
      intro i v hi
      have hslot := hedit.keepsOthers.held hne (.inr hi)
      rw [hslot] at hi ⊢
      exact h.1 i v hi
  | _ => exact ⟨hnone h.1, howed.trans h.2⟩

/-- One client's step, from what it does to the failed table and to the history. -/
theorem Kept.move (h : Kept t) (hc : input.client = some c) (hworld : t'.world = t.world.step decodes input)
    (hedit : t.world.failed.Edit c t'.world.failed) (hmoving : ∀ d, d ≠ c → t'.moving d = t.moving d)
    (howed : ∀ d, d ≠ c → t'.owed.count d = t.owed.count d) (hshelf : Shelf t' c (t'.world.client c).pc)
    (htally : Tally t') : Kept t' := by
  have hsteps : Steps c t.world t'.world := by
    rw [hworld]
    exact step_steps decodes h.consistent input hc
  refine ⟨?_, h.once.edit hedit, ?_, htally⟩
  · rw [hworld]
    exact consistent_step decodes h.consistent input
  · intro d
    by_cases hd : d = c
    · subst hd
      exact hshelf
    · rw [hsteps.others d hd]
      exact shelf_frame hd hsteps.jobs hedit h.once (hmoving d hd) (howed d hd) (h.client d)

/-- The history is as it was. -/
def SameHistory (t t' : Traced κ) : Prop :=
  t'.moving = t.moving ∧ t'.retried = t.retried ∧ t'.forgotten = t.forgotten ∧ t'.owed = t.owed ∧ t'.broken = t.broken

/-- An edit of the failed table with the same history beside it. -/
theorem Tally.edit (h : Tally t) (hedit : t.world.failed.Edit c t'.world.failed) (hsame : SameHistory t t')
    (hcounts : returned t'.world.answers = returned t.world.answers) : Tally t' := by
  obtain ⟨-, hretried, hforgotten, howed, hbroken⟩ := hsame
  refine ⟨?_, ?_, ?_, ?_, ?_⟩
  · rw [hretried]
    exact h.retried
  · rw [hforgotten]
    exact h.forgotten
  · rw [hretried, hforgotten]
    exact h.apart
  · rw [hretried, hforgotten]
    exact fun i hi => (h.gone i hi).edit hedit
  · rw [hretried, hforgotten, howed, hbroken, hcounts]
    exact h.counts

/-- A quiet step keeps the books. -/
theorem Kept.quiet (h : Kept t) (hc : input.client = some c) (hworld : t'.world = t.world.step decodes input)
    (hsame : SameHistory t t') (hquiet : Quiet c t.world t'.world) (hnone : t.world.failed.HoldsNone c)
    (hcount : t.owed.count c = 0) : Kept t' := by
  have hedit : t.world.failed.Edit c t'.world.failed := by
    rw [hquiet.failed]
    exact .same
  refine h.move hc hworld hedit (fun d _ => by rw [hsame.1]) (fun d _ => by rw [hsame.2.2.2.1]) ?_
    (h.tally.edit hedit hsame hquiet.counts)
  rw [shelf_iff hquiet.pc, hquiet.failed, hsame.2.2.2.1]
  exact ⟨hnone, hcount⟩

/-- The row is there, or was forgotten, or there is a job for it. -/
def Accounted (t : Traced κ) (i : Nat) (f : FailedRow) : Prop :=
  (t.world.failed.slot i).committed = some f ∨ i ∈ t.forgotten ∨
    ∃ x ∈ t.retried, x.failed = i ∧ ∃ row, x.row = some row ∧ RetryOf f row

/-- One step: the invariant is kept, and no row is lost. -/
structure Conserves (t t' : Traced κ) : Prop where
  kept : Kept t'
  retried : t.retried ⊆ t'.retried
  forgotten : t.forgotten ⊆ t'.forgotten
  row : ∀ i f, (t.world.failed.slot i).committed = some f → Accounted t' i f

/-- A step that commits nothing of the failed table. -/
theorem Kept.still (hk : Kept t') (hsame : t.world.failed.SameCommitted t'.world.failed)
    (hretried : t'.retried = t.retried) (hforgotten : t'.forgotten = t.forgotten) :
    Conserves t t' where
  kept := hk
  retried := by rw [hretried]; exact fun _ hx => hx
  forgotten := by rw [hforgotten]; exact fun _ hx => hx
  row i f hf := .inl ((hsame i).trans hf)

/-! ### The statements on the failed table -/

/-- A step of a client, by what it does and what it adds to the history. -/
theorem step_eq {w : World κ} {noted : Traced κ} (hexec : t.world.exec decodes c = w) (hnote : t.note c = noted) :
    t.step decodes (.step c) = {noted with world := w} := by
  rw [← hexec, ← hnote]
  rfl

theorem Kept.shelf (h : Kept t) {pc : Pc} (hpc : (t.world.client c).pc = pc) : Shelf t c pc := hpc ▸ h.client c

/-- The row a move adds is new. -/
theorem conserves_moveInsert (h : Kept t) {why : Why} {row : JobRow} {failedAt : Int}
    (hpc : (t.world.client c).pc = .moveInsert why row failedAt) : Conserves t (t.step decodes (.step c)) := by
  obtain ⟨hnone, hcount⟩ : t.world.failed.HoldsNone c ∧ t.owed.count c = 0 := h.shelf hpc
  have hnote : t.note c = t := by
    unfold Traced.note
    rw [hpc]
  have hexec : t.world.exec decodes c =
      {t.world with failed := (t.world.failed.insert c (failedRow (fitError why.error) failedAt row)).2}.goto c
        (.moveCommit why (some row)) := by
    unfold World.exec
    rw [hpc]
  have hstep : t.step decodes (.step c) = {t with world := t.world.exec decodes c} := step_eq rfl hnote
  have hedit : t.world.failed.Edit c (t.world.exec decodes c).failed := by
    rw [hexec]
    exact .insert _
  rw [hstep]
  have hworld : t.world.exec decodes c = t.world.step decodes (.step c) := rfl
  refine Kept.still (h.move rfl hworld hedit (fun _ _ => rfl) (fun _ _ => rfl) ?_
    (h.tally.edit hedit ⟨rfl, rfl, rfl, rfl, rfl⟩ (by rw [hexec]; rfl)))
    (by rw [hexec]; exact Table.sameCommitted_insert) rfl rfl
  rw [hexec, client_goto]
  refine ⟨?_, hcount⟩
  intro i v hheld
  by_cases hi : i = t.world.failed.seq + 1
  · subst hi
    simp [World.goto, Table.insert, Slot.write, Slot.blank]
  · have hslot : (t.world.failed.insert c (failedRow (fitError why.error) failedAt row)).2.slot i =
        t.world.failed.slot i := by
      simp [Table.insert, hi]
    replace hheld : ((t.world.failed.insert c (failedRow (fitError why.error) failedAt row)).2.slot i).held =
      some (c, v) := hheld
    rw [hslot] at hheld
    exact absurd hheld (hnone i v)

/-- **A job that is given up** comes into the failed table as it leaves the other. -/
theorem conserves_moveCommit (h : Kept t) {why : Why} {row : Option JobRow}
    (hpc : (t.world.client c).pc = .moveCommit why row) : Conserves t (t.step decodes (.step c)) := by
  obtain ⟨hnew, hcount⟩ : (∀ i v, (t.world.failed.slot i).held = some (c, v) →
      (t.world.failed.slot i).committed = none) ∧ t.owed.count c = 0 := by
    have hshelf := h.shelf hpc
    cases row with
    | none => exact ⟨fun i v hheld => absurd hheld (hshelf.1 i v), hshelf.2⟩
    | some row => exact hshelf
  have hnote : t.note c = t := by
    unfold Traced.note
    rw [hpc]
  have hexec : t.world.exec decodes c = t.world.moveCommit c why row := by
    unfold World.exec
    rw [hpc]
  have hstep : t.step decodes (.step c) = {t with world := t.world.exec decodes c} := step_eq rfl hnote
  -- Whatever the reason, the commit is what happens to the failed table, and no count is returned.
  have hfailed : (t.world.moveCommit c why row).failed = t.world.failed.commit c := by cases why <;> rfl
  have hcounts : returned (t.world.moveCommit c why row).answers = returned t.world.answers := by
    cases why with
    | exhausted a moment id => rfl
    | undecodable a n => rfl
    | failed n error =>
      show returned (t.world.answers ++ [(c, .done)]) = _
      rw [returned_append]
      rfl
  have hholding : ((t.world.moveCommit c why row).client c).pc.holding = false := by
    unfold World.moveCommit World.moved
    cases why with
    | exhausted a moment id => simp [Pc.holding]
    | undecodable a n => simp [Pc.holding]
    | failed n error => simp [Pc.holding, World.answer]
  have hedit : t.world.failed.Edit c (t.world.exec decodes c).failed := by
    rw [hexec, hfailed]
    exact .commit
  rw [hstep]
  have hworld : t.world.exec decodes c = t.world.step decodes (.step c) := rfl
  refine ⟨h.move rfl hworld hedit (fun _ _ => rfl) (fun _ _ => rfl) ?_
    (h.tally.edit hedit ⟨rfl, rfl, rfl, rfl, rfl⟩ (by rw [hexec]; exact hcounts)), fun _ hx => hx, fun _ hx => hx, ?_⟩
  · rw [hexec, shelf_iff hholding]
    refine ⟨?_, hcount⟩
    rw [hfailed]
    exact Table.holdsNone_commit
  · intro i f hf
    have hother : ∀ v, (t.world.failed.slot i).held ≠ some (c, v) := by
      intro v hheld
      rw [hnew i v hheld] at hf
      cases hf
    left
    rw [hexec, hfailed]
    show ((t.world.failed.slot i).commit c).committed = some f
    rw [Table.slot_commit_of_not_held hother]
    exact hf

/-- A retry that looks for its rows moves none. -/
theorem conserves_retrySelect (h : Kept t) {id : Option Nat} {maxAttempts : Int}
    (hpc : (t.world.client c).pc = .retrySelect id maxAttempts) : Conserves t (t.step decodes (.step c)) := by
  obtain ⟨hnone, hcount⟩ : t.world.failed.HoldsNone c ∧ t.owed.count c = 0 := h.shelf hpc
  have hnote : t.note c = t := by
    unfold Traced.note
    rw [hpc]
  have hexec : t.world.exec decodes c = t.world.retrySelect c id maxAttempts := by
    unfold World.exec
    rw [hpc]
  have hstep : t.step decodes (.step c) = {t with world := t.world.retrySelect c id maxAttempts} :=
    step_eq hexec hnote
  have hworld : t.world.retrySelect c id maxAttempts = t.world.step decodes (.step c) := hexec.symm
  have hedit : t.world.failed.Edit c (t.world.retrySelect c id maxAttempts).failed := .same
  rw [hstep]
  refine Kept.still (h.move rfl hworld hedit (fun _ _ => rfl) (fun _ _ => rfl) ?_
    (h.tally.edit hedit ⟨rfl, rfl, rfl, rfl, rfl⟩ rfl)) (fun _ => rfl) rfl rfl
  unfold World.retrySelect
  rw [client_goto]
  refine ⟨hnone, ?_, hcount⟩
  rintro ⟨i, f⟩ hfound
  left
  show (t.world.failed.slot i).committed = some f
  rw [← hnone.view i]
  exact (Table.mem_rows.1 hfound).1

theorem count_filter_ne {d : κ} (owed : List κ) (hne : d ≠ c) : (owed.filter (· ≠ c)).count d = owed.count d := by
  apply List.count_filter
  simpa using hne

theorem length_filter_ne (owed : List κ) (c : κ) : (owed.filter (· ≠ c)).length + owed.count c = owed.length := by
  have hsplit : owed.length = owed.countP (· ≠ c) + owed.countP fun d => ¬ decide (d ≠ c) = true :=
    List.length_eq_countP_add_countP _
  rw [List.countP_eq_length_filter] at hsplit
  rw [hsplit, List.count]
  congr 1
  apply List.countP_congr
  intro d _
  simp

/-- The call returns how many rows it has moved, or takes the next. -/
theorem conserves_retryNext (h : Kept t) {r : Retrying} (hpc : (t.world.client c).pc = .retryNext r) :
    Conserves t (t.step decodes (.step c)) := by
  obtain ⟨hnone, hreads, hcount⟩ : t.world.failed.HoldsNone c ∧ Reads t.world.failed r ∧
    t.owed.count c = r.requeued := h.shelf hpc
  have hexec : t.world.exec decodes c = t.world.retryNext c r := by
    unfold World.exec
    rw [hpc]
  have hnote : t.note c = if r.rows = [] then {t with owed := t.owed.filter (· ≠ c)} else t := by
    unfold Traced.note
    rw [hpc]
  have hworld : t.world.retryNext c r = t.world.step decodes (.step c) := hexec.symm
  obtain ⟨maxAttempts, rows, requeued⟩ := r
  -- With no row left the call answers, and what it owed is now counted as returned.
  cases rows with
  | nil =>
    have hstep : t.step decodes (.step c) =
        {t with owed := t.owed.filter (· ≠ c), world := t.world.answer c (.count requeued)} :=
      step_eq hexec (hnote.trans (if_pos rfl))
    have hedit : t.world.failed.Edit c (t.world.answer c (.count requeued)).failed := .same
    rw [hstep]
    refine Kept.still (h.move rfl hworld hedit (fun _ _ => rfl) (fun d hd => count_filter_ne t.owed hd) ?_ ?_)
      (fun _ => rfl) rfl rfl
    · have hidle : ((t.world.answer c (.count requeued)).client c).pc = .idle := by simp [World.answer]
      rw [hidle]
      refine ⟨hnone, ?_⟩
      apply List.count_eq_zero.2
      simp
    · refine ⟨h.tally.retried, h.tally.forgotten, h.tally.apart, fun i hi => (h.tally.gone i hi).edit hedit, ?_⟩
      have hcounts := h.tally.counts
      have hlength := length_filter_ne t.owed c
      have hreturned : returned (t.world.answer c (.count requeued)).answers =
          returned t.world.answers + requeued := returned_append ..
      have hcount : t.owed.count c = requeued := hcount
      show returned (t.world.answer c (.count requeued)).answers + (t.owed.filter (· ≠ c)).length + t.broken =
        t.retried.length + t.forgotten.length
      rw [hreturned]
      omega
  | cons found rest =>
    obtain ⟨id, f⟩ := found
    have hstep : t.step decodes (.step c) = {t with world := t.world.retryNext c ⟨maxAttempts, (id, f) :: rest,
        requeued⟩} := step_eq hexec (hnote.trans (if_neg (List.cons_ne_nil _ _)))
    have hedit : t.world.failed.Edit c (t.world.retryNext c ⟨maxAttempts, (id, f) :: rest, requeued⟩).failed := .same
    rw [hstep]
    refine Kept.still (h.move rfl hworld hedit (fun _ _ => rfl) (fun _ _ => rfl) ?_
      (h.tally.edit hedit ⟨rfl, rfl, rfl, rfl, rfl⟩ rfl)) (fun _ => rfl) rfl rfl
    unfold World.retryNext
    rw [client_goto]
    refine ⟨hnone, ?_, hcount, f, hreads (id, f) List.mem_cons_self, t.world.now, maxAttempts, rfl⟩
    exact fun found hfound => hreads found (List.mem_cons_of_mem _ hfound)

/-- A retry inserts the job before it deletes the row. -/
theorem conserves_retryInsert (h : Kept t) {r : Retrying} {id : Nat} {row : JobRow}
    (hpc : (t.world.client c).pc = .retryInsert r id row) : Conserves t (t.step decodes (.step c)) := by
  obtain ⟨hnone, hreads, hcount, f, hf, hrow⟩ : t.world.failed.HoldsNone c ∧ Reads t.world.failed r ∧
    t.owed.count c = r.requeued ∧ ∃ f, t.world.failed.Known id f ∧ RetryOf f row := h.shelf hpc
  have hexec : t.world.exec decodes c =
      {t.world with jobs := (t.world.jobs.insert c row).2}.goto c (.retryDelete r id) := by
    unfold World.exec
    rw [hpc]
  have hnote : t.note c = {t with moving := Function.update t.moving c (id, t.world.jobs.seq + 1)} := by
    unfold Traced.note
    rw [hpc]
  have hworld : {t.world with jobs := (t.world.jobs.insert c row).2}.goto c (.retryDelete r id) =
      t.world.step decodes (.step c) := hexec.symm
  have hstep : t.step decodes (.step c) =
      {t with
        moving := Function.update t.moving c (id, t.world.jobs.seq + 1)
        world := {t.world with jobs := (t.world.jobs.insert c row).2}.goto c (.retryDelete r id)} :=
    step_eq hexec hnote
  have hedit : t.world.failed.Edit c
      ({t.world with jobs := (t.world.jobs.insert c row).2}.goto c (.retryDelete r id)).failed := .same
  rw [hstep]
  refine Kept.still (h.move rfl hworld hedit (fun d hd => by simp [hd]) (fun _ _ => rfl) ?_ ?_) (fun _ => rfl) rfl rfl
  · rw [client_goto]
    refine ⟨hnone, hreads, hcount, by simp, f, row, hf, hrow, ?_⟩
    simp [World.goto, Table.insert, Slot.write]
  · exact ⟨h.tally.retried, h.tally.forgotten, h.tally.apart, h.tally.gone, h.tally.counts⟩

/-- The delete of a retry that finds its row. -/
theorem conserves_retryDelete (h : Kept t) {r : Retrying} {id : Nat} (hpc : (t.world.client c).pc = .retryDelete r id)
    (hrule : FindsRow (.step c) t) : Conserves t (t.step decodes (.step c)) := by
  obtain ⟨hnone, hreads, hcount, hid, f, row, hf, hrow, hjob⟩ : t.world.failed.HoldsNone c ∧
    Reads t.world.failed r ∧ t.owed.count c = r.requeued ∧ (t.moving c).1 = id ∧
    ∃ f row, t.world.failed.Known id f ∧ RetryOf f row ∧
      (t.world.jobs.slot (t.moving c).2).held = some (c, some row) := h.shelf hpc
  have hnote : t.note c = t := by
    unfold Traced.note
    rw [hpc]
  have hexec : t.world.exec decodes c = t.world.retryDelete c r id := by
    unfold World.exec
    rw [hpc]
  have hstep : t.step decodes (.step c) = {t with world := t.world.retryDelete c r id} := step_eq hexec hnote
  have hworld : t.world.retryDelete c r id = t.world.step decodes (.step c) := hexec.symm
  rw [hstep]
  by_cases hblocked : t.world.failed.blocked c (fun i _ => decide (i = id)) = true
  · have hsame : t.world.retryDelete c r id = t.world := by simp [World.retryDelete, hblocked]
    rw [hsame]
    exact Kept.still h (fun _ => rfl) rfl rfl
  · have hdeletes : t.world.failed.Deletes c fun i _ => decide (i = id) := ⟨hnone, by simpa using hblocked⟩
    have hmodify : t.world.retryDelete c r id =
        {t.world with failed := t.world.failed.modify c (fun i _ => decide (i = id)) fun _ => none}.goto c
          (.retryCommit r) := by
      simp [World.retryDelete, hblocked]
    have hedit : t.world.failed.Edit c (t.world.retryDelete c r id).failed := by
      rw [hmodify]
      exact .delete _ hdeletes
    refine Kept.still (h.move rfl hworld hedit (fun _ _ => rfl) (fun _ _ => rfl) ?_
      (h.tally.edit hedit ⟨rfl, rfl, rfl, rfl, rfl⟩ (by rw [hmodify]; rfl)))
      (by rw [hmodify]; exact Table.sameCommitted_modify) rfl rfl
    -- A row that another session had taken by then would not be found, so it is there.
    have hthere : (t.world.failed.slot id).committed = some f := by
      have hsome : ((t.world.failed.slot id).view c).isSome = true := by
        simp only [FindsRow, hpc, Pc.findsRow, Bool.or_eq_true] at hrule
        exact hrule.resolve_left hblocked
      obtain hcommitted | hgone := hf
      · exact hcommitted
      · rw [hgone.slot] at hsome
        cases hsome
    rw [hmodify, client_goto]
    refine ⟨fun found hfound => ?_, hcount, f, row, ?_, hrow, hjob⟩
    · exact (hreads found hfound).edit h.once (.delete _ hdeletes)
    · show (t.world.failed.modify c (fun i _ => decide (i = id)) fun _ => none).Holds c (t.moving c).1 f none
      rw [hid]
      exact hnone.modify hthere (by simp)

/-- The row is gone, and its job is there. -/
theorem conserves_retryCommit (h : Kept t) {r : Retrying} (hpc : (t.world.client c).pc = .retryCommit r) :
    Conserves t (t.step decodes (.step c)) := by
  obtain ⟨hreads, hcount, f, row, hf, hrow, hjob⟩ : Reads t.world.failed r ∧ t.owed.count c = r.requeued ∧
    ∃ f row, t.world.failed.Holds c (t.moving c).1 f none ∧ RetryOf f row ∧
      (t.world.jobs.slot (t.moving c).2).held = some (c, some row) := h.shelf hpc
  have hview : (t.world.jobs.slot (t.moving c).2).view c = some row := by simp [Slot.view, hjob]
  have hexec : t.world.exec decodes c =
      (t.world.commitAll c).goto c (.retryNext {r with requeued := r.requeued + 1}) := by
    unfold World.exec
    rw [hpc]
  have hnote : t.note c =
      {t with
        retried := t.retried ++ [⟨(t.moving c).1, (t.moving c).2, some row⟩]
        owed := t.owed ++ [c]} := by
    unfold Traced.note
    rw [hpc, ← hview]
  have hworld : (t.world.commitAll c).goto c (.retryNext {r with requeued := r.requeued + 1}) =
      t.world.step decodes (.step c) := hexec.symm
  have hstep : t.step decodes (.step c) =
      {t with
        retried := t.retried ++ [⟨(t.moving c).1, (t.moving c).2, some row⟩]
        owed := t.owed ++ [c]
        world := (t.world.commitAll c).goto c (.retryNext {r with requeued := r.requeued + 1})} :=
    step_eq hexec hnote
  have hedit : t.world.failed.Edit c (t.world.failed.commit c) := .commit
  -- The row is held, so it was neither retried nor forgotten before.
  have hnew : ¬ ((t.moving c).1 ∈ t.retried.map Retry.failed ∨ (t.moving c).1 ∈ t.forgotten) := by
    intro hold
    have hslot := hf.slot
    rw [(h.tally.gone _ hold).slot] at hslot
    cases hslot
  have hgone : (t.world.failed.commit c).Gone (t.moving c).1 := by
    have hle : (t.moving c).1 ≤ t.world.failed.seq := Table.le_of_committed (congrArg Slot.committed hf.slot)
    refine ⟨hle, ?_⟩
    show (t.world.failed.slot (t.moving c).1).commit c = .blank
    rw [hf.slot]
    simp [Slot.commit, Slot.blank]
  rw [hstep]
  refine ⟨h.move rfl hworld hedit (fun _ _ => rfl) ?_ ?_ ?_, List.subset_append_left _ _, fun _ hx => hx, ?_⟩
  · intro d hd
    rw [List.count_append]
    simp [Ne.symm hd]
  · rw [client_goto]
    refine ⟨Table.holdsNone_commit, fun found hfound => (hreads found hfound).edit h.once hedit, ?_⟩
    rw [List.count_append, hcount]
    simp
  · refine ⟨?_, h.tally.forgotten, ?_, ?_, ?_⟩
    · rw [List.map_append, List.nodup_append]
      refine ⟨h.tally.retried, List.nodup_singleton _, ?_⟩
      rintro i hi j hj rfl
      rw [List.map_singleton, List.mem_singleton] at hj
      subst hj
      exact hnew (.inl hi)
    · intro i hi hmem
      rw [List.map_append, List.mem_append] at hmem
      obtain hold | hlast := hmem
      · exact h.tally.apart i hi hold
      · rw [List.map_singleton, List.mem_singleton] at hlast
        subst hlast
        exact hnew (.inr hi)
    · intro i hi
      rw [List.map_append, List.mem_append] at hi
      obtain (hold | hlast) | hforgotten := hi
      · exact (h.tally.gone i (.inl hold)).edit hedit
      · rw [List.map_singleton, List.mem_singleton] at hlast
        subst hlast
        exact hgone
      · exact (h.tally.gone i (.inr hforgotten)).edit hedit
    · have hcounts := h.tally.counts
      show returned t.world.answers + (t.owed ++ [c]).length + t.broken =
        (t.retried ++ [_]).length + t.forgotten.length
      simp only [List.length_append, List.length_singleton]
      omega
  · intro i g hg
    by_cases hi : i = (t.moving c).1
    · subst hi
      have hsame : g = f := by
        rw [hf.slot] at hg
        exact (Option.some.inj hg).symm
      refine .inr (.inr ⟨_, List.mem_append_right _ List.mem_cons_self, rfl, row, rfl, ?_⟩)
      rw [hsame]
      exact hrow
    · left
      show ((t.world.failed.commit c).slot i).committed = some g
      rw [hf.committed_commit, if_neg hi]
      exact hg

/-- A row that is forgotten is counted as forgotten. -/
theorem conserves_forget (h : Kept t) {which : Selection} (hpc : (t.world.client c).pc = .forget which) :
    Conserves t (t.step decodes (.step c)) := by
  obtain ⟨hnone, hcount⟩ : t.world.failed.HoldsNone c ∧ t.owed.count c = 0 := h.shelf hpc
  have hexec : t.world.exec decodes c = t.world.forget c which := by
    unfold World.exec
    rw [hpc]
  have hnote : t.note c =
      if t.world.failed.blocked c which.has then t
      else {t with forgotten := t.forgotten ++ (t.world.failed.rows c which.has).map Prod.fst} := by
    unfold Traced.note
    rw [hpc]
  by_cases hblocked : t.world.failed.blocked c which.has = true
  · have hsame : t.world.forget c which = t.world := if_pos hblocked
    have hstep : t.step decodes (.step c) = t := step_eq (hexec.trans hsame) (hnote.trans (if_pos hblocked))
    rw [hstep]
    exact Kept.still h (fun _ => rfl) rfl rfl
  · have hdeletes : t.world.failed.Deletes c which.has := ⟨hnone, by simpa using hblocked⟩
    have hworld : t.world.forget c which = t.world.step decodes (.step c) := hexec.symm
    have hforget : t.world.forget c which =
        ({t.world with failed := t.world.failed.modify c which.has fun _ => none}.commitAll c).answer c
          (.count (t.world.failed.rows c which.has).length) := if_neg hblocked
    have hstep : t.step decodes (.step c) =
        {t with
          forgotten := t.forgotten ++ (t.world.failed.rows c which.has).map Prod.fst
          world := t.world.forget c which} := step_eq hexec (hnote.trans (if_neg hblocked))
    have hfailed : (t.world.forget c which).failed = (t.world.failed.modify c which.has fun _ => none).commit c := by
      rw [hforget]
      rfl
    have hedit : t.world.failed.Edit c (t.world.forget c which).failed := by
      rw [hfailed]
      exact .deleteNow _ hdeletes
    -- What is there is neither retried nor forgotten.
    have hnew : ∀ i ∈ (t.world.failed.rows c which.has).map Prod.fst,
        ¬ (i ∈ t.retried.map Retry.failed ∨ i ∈ t.forgotten) := by
      intro i hi hold
      obtain ⟨⟨j, g⟩, hfound, rfl⟩ := List.mem_map.1 hi
      have hview := (Table.mem_rows.1 hfound).1
      rw [(h.tally.gone _ hold).slot] at hview
      cases hview
    rw [hstep]
    refine ⟨h.move rfl hworld hedit (fun _ _ => rfl) (fun _ _ => rfl) ?_ ?_, fun _ hx => hx,
      List.subset_append_left _ _, ?_⟩
    · have hidle : ((t.world.forget c which).client c).pc = .idle := by
        rw [hforget]
        simp [World.answer]
      rw [hidle]
      refine ⟨?_, hcount⟩
      rw [hfailed]
      exact Table.holdsNone_commit
    · refine ⟨h.tally.retried, ?_, ?_, ?_, ?_⟩
      · refine List.nodup_append.2 ⟨h.tally.forgotten, Table.nodup_rows _ _ _, ?_⟩
        rintro i hi j hj rfl
        exact hnew i hj (.inr hi)
      · intro i hi
        obtain hold | hrow := List.mem_append.1 hi
        · exact h.tally.apart i hold
        · exact fun hretried => hnew i hrow (.inl hretried)
      · intro i hi
        have hold : i ∈ t.retried.map Retry.failed ∨ i ∈ t.forgotten →
          (t.world.forget c which).failed.Gone i := fun hmem => (h.tally.gone i hmem).edit hedit
        obtain hretried | hi := hi
        · exact hold (.inl hretried)
        · obtain hforgotten | hrow := List.mem_append.1 hi
          · exact hold (.inr hforgotten)
          · obtain ⟨⟨j, g⟩, hfound, rfl⟩ := List.mem_map.1 hrow
            obtain ⟨hview, hp⟩ := Table.mem_rows.1 hfound
            show (t.world.forget c which).failed.Gone j
            rw [hfailed]
            obtain ⟨-, hnot⟩ | ⟨-, -, hgone⟩ := hdeletes.committed j
            · rw [hnot g hview] at hp
              cases hp
            · exact hgone
      · have hcounts := h.tally.counts
        have hreturned : returned (t.world.forget c which).answers =
            returned t.world.answers + (t.world.failed.rows c which.has).length := by
          rw [hforget]
          exact returned_append ..
        show returned (t.world.forget c which).answers + t.owed.length + t.broken =
          t.retried.length + (t.forgotten ++ (t.world.failed.rows c which.has).map Prod.fst).length
        rw [hreturned, List.length_append, List.length_map]
        omega
    · intro i f hf
      obtain ⟨hsame, -⟩ | ⟨g, hfound, -⟩ := hdeletes.committed i
      · left
        show ((t.world.forget c which).failed.slot i).committed = some f
        rw [hfailed, hsame]
        exact hf
      · exact .inr (.inl (List.mem_append_right _ (List.mem_map.2 ⟨(i, g), hfound, rfl⟩)))

/-! ### Every input -/

theorem holding_of_quiet {pc : Pc} (h : pc.shelves = false) : pc.holding = false := by
  cases pc with
  | moveCommit | retryNext | retryInsert | retryDelete | retryCommit => cases h
  | _ => rfl

/-- Steps that have nothing to do with failed jobs are not in the history. -/
theorem note_of_quiet (h : (t.world.client c).pc.shelves = false) : t.note c = t := by
  unfold Traced.note
  cases hpc : (t.world.client c).pc with
  | retryNext | retryInsert | retryCommit | forget =>
    rw [hpc] at h
    cases h
  | _ => rfl

/-- The other statements move no job. -/
theorem conserves_quiet (h : Kept t) (hpc : (t.world.client c).pc.shelves = false) :
    Conserves t (t.step decodes (.step c)) := by
  obtain ⟨hnone, hcount⟩ := (shelf_iff (holding_of_quiet hpc)).1 (h.client c)
  have hquiet := quiet_exec decodes hpc hnone
  have hstep : t.step decodes (.step c) = {t with world := t.world.exec decodes c} :=
    step_eq rfl (note_of_quiet hpc)
  have hworld : t.world.exec decodes c = t.world.step decodes (.step c) := rfl
  rw [hstep]
  refine Kept.still (h.quiet rfl hworld ⟨rfl, rfl, rfl, rfl, rfl⟩ hquiet hnone hcount) ?_ rfl rfl
  rw [hquiet.failed]
  exact fun _ => rfl

/-- **One statement keeps the balance**, if a retry finds the row that it read. -/
theorem conserves_step (h : Kept t) (hrule : FindsRow (.step c) t) : Conserves t (t.step decodes (.step c)) := by
  cases hpc : (t.world.client c).pc with
  | moveInsert why row failedAt => exact conserves_moveInsert h hpc
  | moveCommit why row => exact conserves_moveCommit h hpc
  | retrySelect id maxAttempts => exact conserves_retrySelect h hpc
  | retryNext r => exact conserves_retryNext h hpc
  | retryInsert r id row => exact conserves_retryInsert h hpc
  | retryDelete r id => exact conserves_retryDelete h hpc hrule
  | retryCommit r => exact conserves_retryCommit h hpc
  | forget which => exact conserves_forget h hpc
  | _ => exact conserves_quiet h (by rw [hpc]; rfl)

/-- The connection breaks: what the call has moved, nobody will be told. -/
theorem conserves_abort (h : Kept t) : Conserves t (t.step decodes (.abort c)) := by
  have hstep : t.step decodes (.abort c) =
      {t with
        owed := t.owed.filter (· ≠ c), broken := t.broken + t.owed.count c
        world := t.world.step decodes (.abort c)} := rfl
  have hfailed : (t.world.step decodes (.abort c)).failed = t.world.failed.rollback c := rfl
  have hedit : t.world.failed.Edit c (t.world.step decodes (.abort c)).failed := .rollback
  rw [hstep]
  have hworld : t.world.step decodes (.abort c) = t.world.step decodes (.abort c) := rfl
  refine Kept.still (h.move rfl hworld hedit (fun _ _ => rfl) (fun d hd => count_filter_ne t.owed hd) ?_ ?_)
    Table.sameCommitted_rollback rfl rfl
  · have hidle : ((t.world.step decodes (.abort c)).client c).pc = .idle := by
      simp [World.step, World.answer]
    rw [hidle]
    refine ⟨Table.holdsNone_rollback, ?_⟩
    apply List.count_eq_zero.2
    simp
  · refine ⟨h.tally.retried, h.tally.forgotten, h.tally.apart, fun i hi => (h.tally.gone i hi).edit hedit, ?_⟩
    have hcounts := h.tally.counts
    have hlength := length_filter_ne t.owed c
    have hreturned : returned (t.world.step decodes (.abort c)).answers = returned t.world.answers + 0 :=
      returned_append ..
    show returned (t.world.step decodes (.abort c)).answers + (t.owed.filter (· ≠ c)).length +
      (t.broken + t.owed.count c) = t.retried.length + t.forgotten.length
    rw [hreturned]
    omega

/-- What a client between two calls does is nothing to the failed table. -/
theorem conserves_idle (h : Kept t) (hc : input.client = some c) (hidle : (t.world.client c).pc = .idle)
    (hstep : t.step decodes input = {t with world := t.world.step decodes input})
    (hquiet : t.world.failed.HoldsNone c → Quiet c t.world (t.world.step decodes input)) :
    Conserves t (t.step decodes input) := by
  obtain ⟨hnone, hcount⟩ : t.world.failed.HoldsNone c ∧ t.owed.count c = 0 := h.shelf hidle
  rw [hstep]
  refine Kept.still (h.quiet hc rfl ⟨rfl, rfl, rfl, rfl, rfl⟩ (hquiet hnone) hnone hcount) ?_ rfl rfl
  rw [(hquiet hnone).failed]
  exact fun _ => rfl

theorem conserves_busy (h : Kept t) (hstep : t.step decodes input = {t with world := t.world.step decodes input})
    (hsame : t.world.step decodes input = t.world) : Conserves t (t.step decodes input) := by
  rw [hstep, hsame]
  exact Kept.still h (fun _ => rfl) rfl rfl

/-- A client in a call begins no other. -/
theorem call_of_busy (h : (w.client c).pc ≠ .idle) (op : Op) : w.call c op = w := by
  unfold World.call
  split
  · next hpc => exact absurd hpc h
  · rfl

omit [DecidableEq κ] in
theorem whenIdle_of_busy (h : (w.client c).pc ≠ .idle) (f : World κ → World κ) : w.whenIdle c f = w := by
  unfold World.whenIdle
  split
  · next hpc => exact absurd hpc h
  · rfl

omit [DecidableEq κ] in
theorem whenIdle_of_idle (h : (w.client c).pc = .idle) (f : World κ → World κ) : w.whenIdle c f = f w := by
  unfold World.whenIdle
  rw [h]

theorem quiet_call (hpc : (w.client c).pc = .idle) (op : Op) : Quiet c w (w.call c op) := by
  unfold World.call
  rw [hpc]
  dsimp only
  split
  · exact .goto rfl rfl (entry_holding _ _)
  · exact .same (by rw [hpc]; rfl)

/-- The connection changes between two calls. -/
theorem Quiet.setConn {conn : Conn} (hpc : (w'.client c).pc = .idle) (hfailed : w'.failed = w.failed)
    (hanswers : w'.answers = w.answers) : Quiet c w (w'.setConn c conn) where
  failed := hfailed
  pc := by
    have hclient : ((w'.setConn c conn).client c).pc = (w'.client c).pc := by simp [World.setConn]
    rw [hclient, hpc]
    rfl
  counts := congrArg returned hanswers

/-- **One input.** -/
theorem Kept.conserves (h : Kept t) (decodes : String → Bool) (input : Input κ) (hrule : FindsRow input t) :
    Conserves t (t.step decodes input) := by
  cases input with
  | tick micros =>
    have hconsistent := consistent_step decodes h.consistent (.tick micros)
    refine Kept.still ⟨hconsistent, h.once, h.client, ?_⟩ (fun _ => rfl) rfl rfl
    exact ⟨h.tally.retried, h.tally.forgotten, h.tally.apart, h.tally.gone, h.tally.counts⟩
  | step c => exact conserves_step h hrule
  | abort c => exact conserves_abort h
  | call c op =>
    by_cases hpc : (t.world.client c).pc = .idle
    · exact conserves_idle h rfl hpc rfl fun _ => quiet_call hpc op
    · exact conserves_busy h rfl (call_of_busy hpc op)
  | begin c =>
    by_cases hpc : (t.world.client c).pc = .idle
    · refine conserves_idle h rfl hpc rfl fun _ => ?_
      rw [World.step, whenIdle_of_idle hpc]
      split
      · exact .setConn hpc rfl rfl
      · exact .same (by rw [hpc]; rfl)
    · exact conserves_busy h rfl (by rw [World.step, whenIdle_of_busy hpc])
  | commit c =>
    by_cases hpc : (t.world.client c).pc = .idle
    · refine conserves_idle h rfl hpc rfl fun hnone => ?_
      rw [World.step, whenIdle_of_idle hpc]
      exact .setConn hpc hnone.commit rfl
    · exact conserves_busy h rfl (by rw [World.step, whenIdle_of_busy hpc])
  | rollback c =>
    by_cases hpc : (t.world.client c).pc = .idle
    · refine conserves_idle h rfl hpc rfl fun hnone => ?_
      rw [World.step, whenIdle_of_idle hpc]
      exact .setConn hpc hnone.rollback rfl
    · exact conserves_busy h rfl (by rw [World.step, whenIdle_of_busy hpc])

/-! ### Every run -/

/-- What is accounted for stays so. -/
theorem Accounted.step (h : Kept t) (hrule : FindsRow input t) {i : Nat} {f : FailedRow} (ha : Accounted t i f) :
    Accounted (t.step decodes input) i f := by
  have hstep := h.conserves decodes input hrule
  obtain hthere | hforgotten | ⟨x, hx, hrest⟩ := ha
  · exact hstep.row i f hthere
  · exact .inr (.inl (hstep.forgotten hforgotten))
  · exact .inr (.inr ⟨x, hstep.retried hx, hrest⟩)

/-- And a failed job stays accounted for. -/
theorem accounted_run {i : Nat} {f : FailedRow} {inputs : List (Input κ)} (h : Kept t) (ha : Accounted t i f)
    (hrun : (tracer decodes).Admissible FindsRow t inputs) : Accounted ((tracer decodes).run t inputs) i f := by
  induction inputs generalizing t with
  | nil => exact ha
  | cons input rest ih => exact ih (h.conserves decodes input hrun.1).kept (ha.step h hrun.1) hrun.2

end

end PyAppRunner.Queue.PgQueue
