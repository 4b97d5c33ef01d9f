import PyAppRunner.Queue.PgQueue

/-! The Postgres driver as a queue whose operations are atomic.

`Ledger` is what is committed: the jobs, and the claims made and ended so far. Its
transitions are those of a queue that does everything at once: new rows appear, a
row that nobody holds is claimed, an exhausted row goes, a claim is ended by the
pair that names it. Every statement of every client, in any order, is one of these
transitions or leaves the ledger alone (`step_atomic`). What has to be true of the
clients for that is `ClientOk`: which rows each has locked at each point of its
program, and in which version. -/
namespace PyAppRunner.Queue.PgQueue
open Sql

/-- What a queue is about: the time, the jobs, who was given one, and which were released or ended.
-/
structure Ledger where
  now : Int
  jobs : Nat → Option JobRow
  claims : List Claim
  released : List Nat
  ended : List Nat

/-- A row as `push` and `retry_failed` make it. -/
structure JobRow.New (r : JobRow) : Prop where
  attempts : r.attempts = 0
  max : 1 ≤ r.maxAttempts
  unclaimed : r.reservedBy = none

/-- No claim of the row was ever made. -/
def Unclaimed (claims : List Claim) (i : Nat) : Prop := ∀ d ∈ claims, d.job.id ≠ i

/-- The claim that a client makes of row `i`. -/
def claimOf (a : Asking) (moment : Int) (i : Nat) (r : JobRow) : Claim :=
  ⟨toJob i (claimRow a moment r) (reservedName a.worker), moment, a.timeout⟩

/-- **The calls of a queue, one action each.** -/
inductive Atomic : Ledger → Ledger → Prop where
  | wait (l : Ledger) (micros : Nat) : Atomic l {l with now := l.now + micros}
  | insert (l : Ledger) (jobs' : Nat → Option JobRow)
      (hnew : ∀ i, jobs' i = l.jobs i ∨
        l.jobs i = none ∧ Unclaimed l.claims i ∧ ∃ r, jobs' i = some r ∧ r.New) :
      Atomic l {l with jobs := jobs'}
  | claim (l : Ledger) (a : Asking) (moment : Int) (i : Nat) (r : JobRow)
      (hrow : l.jobs i = some r) (hlapsed : lapsed moment r = true)
      (hleft : r.attempts < r.maxAttempts) (hnow : moment ≤ l.now) :
      Atomic l {l with
        jobs := Function.update l.jobs i (some (claimRow a moment r))
        claims := l.claims ++ [claimOf a moment i r]}
  | exhaust (l : Ledger) (moment : Int) (i : Nat) (r : JobRow) (hrow : l.jobs i = some r)
      (hspent : (Guard.exhausted moment).holds r = true) :
      Atomic l {l with jobs := Function.update l.jobs i none}
  | finish (l : Ledger) (n : Nat) (c : Claim) (r : JobRow) (hclaim : l.claims[n]? = some c)
      (hrow : l.jobs c.job.id = some r)
      (howned : (Guard.owned c.job.reservedBy c.job.attempts).holds r = true) :
      Atomic l {l with jobs := Function.update l.jobs c.job.id none, ended := l.ended ++ [n]}
  | release (l : Ledger) (n : Nat) (c : Claim) (r : JobRow) (availableAt : Int) (error : String)
      (hclaim : l.claims[n]? = some c) (hrow : l.jobs c.job.id = some r)
      (howned : (Guard.owned c.job.reservedBy c.job.attempts).holds r = true) :
      Atomic l {l with
        jobs := Function.update l.jobs c.job.id (some (releaseRow availableAt error r))
        released := l.released ++ [n], ended := l.ended ++ [n]}

/-- Nothing happens, as seen from here. -/
theorem Atomic.stutter (l : Ledger) : Atomic l l := by
  have h := Atomic.wait l 0
  simpa using h

section
variable {κ : Type} [DecidableEq κ]

/-- What is committed. -/
def World.ledger (w : World κ) : Ledger where
  now := w.now
  jobs := fun i => (w.jobs.slot i).committed
  claims := w.claims
  released := w.released
  ended := w.ended

/-! ### What a client has, at each point of its program -/

/-- The client has only rows it has added itself. -/
def HoldsNew (c : κ) (w : World κ) : Prop := ∀ i v, (w.jobs.slot i).held = some (c, v) →
  (w.jobs.slot i).committed = none ∧ Unclaimed w.claims i ∧ ∃ r, v = some r ∧ r.New

/-- Between statements of no transaction of its own: nothing, or what its caller's
transaction has added. -/
def Rests (c : κ) (w : World κ) : Prop :=
  match (w.client c).conn with
  | .opened => HoldsNew c w
  | _ => w.jobs.HoldsNone c

/-- The client may claim row `r` at `moment`. -/
def Open (moment : Int) (r : JobRow) : Prop := lapsed moment r = true ∧ r.attempts < r.maxAttempts

/-- What client `c` has when it stands at `pc`. -/
def PcOk (c : κ) (w : World κ) : Pc → Prop
  | .idle => Rests c w
  | .pushLookup row _ => Rests c w ∧ row.New
  | .pushInsert row => Rests c w ∧ row.New
  | .pushAgain _ => Rests c w
  | .candidate _ moment => w.jobs.HoldsNone c ∧ moment ≤ w.now
  | .claim _ moment id => moment ≤ w.now ∧ ∃ r, w.jobs.Holds c id r (some r) ∧ Open moment r
  | .read a moment id => moment ≤ w.now ∧
    ∃ r, w.jobs.Holds c id r (some (claimRow a moment r)) ∧ Open moment r
  | .claimCommit a moment id row => moment ≤ w.now ∧
    ∃ r, w.jobs.Holds c id r (some (claimRow a moment r)) ∧ Open moment r ∧
      row = some (claimRow a moment r)
  | .lostCommit _ => w.jobs.HoldsNone c
  | .moveDelete (.exhausted _ moment id) =>
    ∃ r, w.jobs.Holds c id r (some r) ∧ (Guard.exhausted moment).holds r = true
  | .moveClock why row => ∃ i, w.jobs.Holds c i row none ∧ w.moveWhere why i row = true
  | .moveInsert why row _ => ∃ i, w.jobs.Holds c i row none ∧ w.moveWhere why i row = true
  | .moveCommit why (some row) => ∃ i, w.jobs.Holds c i row none ∧ w.moveWhere why i row = true
  | .retryInsert _ _ row => w.jobs.HoldsNone c ∧ row.New
  | .retryDelete _ _ => HoldsNew c w
  | .retryCommit _ => HoldsNew c w
  | _ => w.jobs.HoldsNone c

/-- What a client has in hand, by where its call has come to. -/
def ClientOk (c : κ) (w : World κ) : Prop := PcOk c w (w.client c).pc

/-- Every client is where its program says, and no claim is ahead of the sequence. -/
structure Consistent (w : World κ) : Prop where
  client : ∀ c, ClientOk c w
  claim_le : ∀ d ∈ w.claims, d.job.id ≤ w.jobs.seq

/-! ### What one client does is nothing to the others -/

/-- One client's step, as the others and the ledger see it. -/
structure Steps (d : κ) (w w' : World κ) : Prop where
  others : ∀ c, c ≠ d → w'.client c = w.client c
  jobs : w.jobs.KeepsOthers d w'.jobs
  seq : w.jobs.seq ≤ w'.jobs.seq
  atomic : Atomic w.ledger w'.ledger
  ok : ClientOk d w'

/-- Time does not go back. -/
theorem Atomic.now_le {l l' : Ledger} (h : Atomic l l') : l.now ≤ l'.now := by
  cases h with
  | wait micros =>
    show l.now ≤ l.now + micros
    omega
  | insert | claim | exhaust | finish | release => exact le_refl _

/-- The claims are as they were, or there is one more, of a row that was there. -/
theorem Atomic.claims {l l' : Ledger} (h : Atomic l l') :
    l'.claims = l.claims ∨ ∃ d, l'.claims = l.claims ++ [d] ∧ (l.jobs d.job.id).isSome := by
  cases h with
  | claim a moment i r hrow hlapsed hleft hnow =>
    refine .inr ⟨claimOf a moment i r, rfl, ?_⟩
    show (l.jobs i).isSome
    rw [hrow]
    rfl
  | wait | insert | exhaust | finish | release => exact .inl rfl

/-- A row that is not committed is nobody else's. -/
theorem holdsNew_frame {c d : κ} {w w' : World κ} (hne : c ≠ d) (h : Steps d w w')
    (hn : HoldsNew c w) : HoldsNew c w' := by
  intro i v hheld
  have hslot := h.jobs.held hne (.inr hheld)
  rw [hslot] at hheld ⊢
  obtain ⟨hcommitted, hunclaimed, hnew⟩ := hn i v hheld
  refine ⟨hcommitted, ?_, hnew⟩
  intro e he heq
  rcases h.atomic.claims with hsame | ⟨e', hmore, hsome⟩
  · rw [show w'.claims = w.claims from hsame] at he
    exact hunclaimed e he heq
  · rw [show w'.claims = w.claims ++ [e'] from hmore] at he
    rcases List.mem_append.mp he with he | he
    · exact hunclaimed e he heq
    · rw [List.mem_singleton.mp he] at heq
      have hrow : ((w.jobs.slot e'.job.id).committed).isSome := hsome
      rw [heq, hcommitted] at hrow
      cases hrow

omit [DecidableEq κ] in
/-- A completion finds the row of its claim, as long as that is the latest one. -/
theorem ownedBy_iff {w : World κ} {n i : Nat} {r : JobRow} : w.ownedBy n i r = true ↔
    ∃ c, w.claims[n]? = some c ∧ i = c.job.id ∧
      (Guard.owned c.job.reservedBy c.job.attempts).holds r = true := by
  unfold World.ownedBy
  split
  · rename_i hc
    simp [hc]
  · rename_i c hc
    simp [hc]

/-- A claim once made is not forgotten. -/
theorem Steps.ownedBy {d : κ} {w w' : World κ} (h : Steps d w w') {n i : Nat} {r : JobRow}
    (hr : w.ownedBy n i r = true) : w'.ownedBy n i r = true := by
  obtain ⟨c, hc, hrest⟩ := ownedBy_iff.mp hr
  refine ownedBy_iff.mpr ⟨c, ?_, hrest⟩
  rcases h.atomic.claims with hsame | ⟨e', hmore, _⟩
  · rw [show w'.claims = w.claims from hsame]
    exact hc
  · rw [show w'.claims = w.claims ++ [e'] from hmore]
    exact Base.getElem?_append_singleton.mpr (.inl hc)

theorem Steps.moveWhere {d : κ} {w w' : World κ} (h : Steps d w w') {why : Why} {i : Nat} {r : JobRow}
    (hr : w.moveWhere why i r = true) : w'.moveWhere why i r = true := by
  cases why with
  | exhausted a moment id => exact hr
  | undecodable a n => exact h.ownedBy hr
  | failed n error => exact h.ownedBy hr

theorem rests_frame {c d : κ} {w w' : World κ} (hne : c ≠ d) (h : Steps d w w') (hr : Rests c w) :
    Rests c w' := by
  unfold Rests at hr ⊢
  rw [h.others c hne]
  split
  · rename_i hconn
    simp only [hconn] at hr
    exact holdsNew_frame hne h hr
  · rename_i hconn
    split at hr
    · exact absurd ‹_› hconn
    · exact h.jobs.holdsNone hne hr

/-- What the others do leaves a client where it is. -/
theorem clientOk_frame {c d : κ} {w w' : World κ} (hne : c ≠ d) (h : Steps d w w') (hok : ClientOk c w) :
    ClientOk c w' := by
  have hnow : w.now ≤ w'.now := h.atomic.now_le
  have hnone : w.jobs.HoldsNone c → w'.jobs.HoldsNone c := h.jobs.holdsNone hne
  have hholds : ∀ i r v, w.jobs.Holds c i r v → w'.jobs.Holds c i r v := fun _ _ _ => h.jobs.holds hne
  have hnew := holdsNew_frame hne h
  have hrests := rests_frame hne h
  have hwhere := @Steps.moveWhere κ _ d w w' h
  unfold ClientOk at hok ⊢
  rw [h.others c hne]
  unfold PcOk at hok ⊢
  split <;> grind

/-! ### What each statement of a client does -/

section
variable {c d : κ} {w w' : World κ}

@[simp] theorem client_goto (pc : Pc) : (w.goto c pc).client c = {w.client c with pc := pc} :=
  Function.update_self ..

theorem client_goto_of_ne (pc : Pc) (h : d ≠ c) : (w.goto c pc).client d = w.client d :=
  Function.update_of_ne h ..

theorem clientOk_goto {pc : Pc} : ClientOk c (w.goto c pc) ↔ PcOk c w pc := by
  unfold ClientOk PcOk Rests HoldsNew
  simp only [client_goto]
  rfl

theorem clientOk_answer {a : Answer} : ClientOk c (w.answer c a) ↔ Rests c w :=
  clientOk_goto.trans (iff_of_eq rfl : PcOk c w .idle ↔ Rests c w)

omit [DecidableEq κ] in
/-- A client with no row locked rests. -/
theorem rests_of_holdsNone (h : w.jobs.HoldsNone c) : Rests c w := by
  unfold Rests
  split
  · exact fun i v hheld => absurd hheld (h i v)
  · exact h

/-- A step the ledger does not see. -/
theorem Steps.quiet (hothers : ∀ d, d ≠ c → w'.client d = w.client d)
    (hjobs : w.jobs.KeepsOthers c w'.jobs) (hseq : w.jobs.seq ≤ w'.jobs.seq)
    (hsame : w.jobs.SameCommitted w'.jobs) (hnow : w'.now = w.now) (hclaims : w'.claims = w.claims)
    (hreleased : w'.released = w.released) (hended : w'.ended = w.ended) (hok : ClientOk c w') :
    Steps c w w' := by
  have hledger : w'.ledger = w.ledger := by
    simp [World.ledger, hnow, hclaims, hreleased, hended, funext hsame]
  exact ⟨hothers, hjobs, hseq, hledger ▸ Atomic.stutter _, hok⟩

/-- A step that only goes on to another statement. -/
theorem Steps.goto {pc : Pc} (h : PcOk c w pc) : Steps c w (w.goto c pc) :=
  .quiet (fun _ hd => client_goto_of_ne pc hd) .refl le_rfl (fun _ => rfl) rfl rfl rfl rfl
    (clientOk_goto.mpr h)

theorem Steps.answer {a : Answer} (h : Rests c w) : Steps c w (w.answer c a) :=
  .quiet (fun _ hd => client_goto_of_ne .idle hd) .refl le_rfl (fun _ => rfl) rfl rfl rfl rfl
    (clientOk_answer.mpr h)

theorem Steps.stay (h : ClientOk c w) : Steps c w w :=
  .quiet (fun _ _ => rfl) .refl le_rfl (fun _ => rfl) rfl rfl rfl rfl h

/-- A statement whose rows nobody else has, in a transaction that goes on. -/
theorem Steps.modify {p : Nat → JobRow → Bool} {f : JobRow → Option JobRow} {pc : Pc}
    (hfree : w.jobs.blocked c p = false) (hok : PcOk c {w with jobs := w.jobs.modify c p f} pc) :
    Steps c w ({w with jobs := w.jobs.modify c p f}.goto c pc) :=
  .quiet (fun _ hd => client_goto_of_ne pc hd) (Table.keepsOthers_modify hfree) le_rfl
    Table.sameCommitted_modify rfl rfl rfl rfl (clientOk_goto.mpr hok)

/-- One row was changed and the change committed. -/
theorem ledger_commit {t : Table κ JobRow} {i : Nat} {r : JobRow} {v : Option JobRow}
    (h : t.Holds c i r v) : (fun j => ((t.commit c).slot j).committed) =
      Function.update (fun j => (t.slot j).committed) i v := by
  funext j
  rw [h.committed_commit, Function.update_apply]

theorem moveWhere_unique (why : Why) {i : Nat} {r : JobRow} (hview : (w.jobs.slot i).view c = some r)
    (hp : w.moveWhere why i r = true) (j : Nat) (r' : JobRow) (hj : (w.jobs.slot j).view c = some r') :
    w.moveWhere why j r' = true ↔ j = i := by
  have hsame : j = i → r' = r := by
    rintro rfl
    exact Option.some.inj (hj.symm.trans hview)
  cases why with
  | exhausted a moment id =>
    simp only [World.moveWhere, Bool.and_eq_true, decide_eq_true_eq] at hp ⊢
    grind
  | undecodable a n | failed n error =>
    simp only [World.moveWhere, ownedBy_iff] at hp ⊢
    grind

omit [DecidableEq κ] in
/-- A row another session has is not one this session has. -/
theorem not_blocked_of_holds {t : Table κ JobRow} {c : κ} [DecidableEq κ] {i : Nat} {r : JobRow}
    {v : Option JobRow} {p : Nat → JobRow → Bool} (h : t.Holds c i r v)
    (hp : ∀ j r', p j r' = true → j = i) : t.blocked c p = false := by
  by_contra hb
  obtain ⟨j, r', _, hpj, htaken⟩ := Table.blocked_iff.mp (by simpa using hb)
  rw [hp j r' hpj, h.taken] at htaken
  cases htaken

theorem steps_nextQueue (a : Asking) (h : w.jobs.HoldsNone c) : Steps c w (w.nextQueue c a) := by
  unfold World.nextQueue
  split
  · exact .answer (rests_of_holdsNone h)
  · exact .goto h

/-- A row is chosen, and locked. -/
theorem steps_candidate (a : Asking) (moment : Int) (h : w.jobs.HoldsNone c) (hnow : moment ≤ w.now) :
    Steps c w (w.candidate c a moment) := by
  unfold World.candidate
  split
  · exact steps_nextQueue a h
  · rename_i id r hfound
    obtain ⟨hview, hclaimable, hfree⟩ := Table.candidate_eq_some hfound
    simp only [claimable, Bool.and_eq_true] at hclaimable
    have hcommitted : (w.jobs.slot id).committed = some r := (h.view id).symm.trans hview
    have hholds : (w.jobs.lock c fun i _ => decide (i = id)).Holds c id r (some r) :=
      h.modify hcommitted (by simp)
    have hblocked : w.jobs.blocked c (fun i _ => decide (i = id)) = false := by
      by_contra hb
      obtain ⟨j, r', _, hj, htaken⟩ := Table.blocked_iff.mp (by simpa using hb)
      rw [of_decide_eq_true hj, hfree] at htaken
      cases htaken
    show Steps c w (if _ then _ else _)
    split
    · rename_i hspent
      exact Steps.modify hblocked ⟨r, hholds, by simp [Guard.holds, hspent, hclaimable.2]⟩
    · rename_i hspent
      exact Steps.modify hblocked ⟨hnow, r, hholds, hclaimable.2, by omega⟩

/-- The claim is written. -/
theorem steps_claim (a : Asking) (moment : Int) (id : Nat) (r : JobRow) (hnow : moment ≤ w.now)
    (h : w.jobs.Holds c id r (some r)) (hopen : Open moment r) : Steps c w (w.claim c a moment id) := by
  have hblocked : w.jobs.blocked c (fun i r => decide (i = id) && lapsed moment r) = false :=
    not_blocked_of_holds h (by simp +contextual)
  have hrows : w.jobs.rows c (fun i r => decide (i = id) && lapsed moment r) ≠ [] := by
    intro hnil
    have := Table.rows_eq_nil.mp hnil id r h.view
    simp [hopen.1] at this
  unfold World.claim
  simp only [hblocked, hrows, Bool.false_eq_true, if_false]
  refine Steps.modify hblocked ⟨hnow, r, h.modify ?_, hopen⟩
  intro j r' hj
  simp only [Bool.and_eq_true, decide_eq_true_eq, and_iff_left_iff_imp]
  rintro rfl
  rw [Option.some.inj (hj.symm.trans h.view)]
  exact hopen.1

/-- The row is committed as claimed, and the claim is remembered, in one step. -/
theorem steps_claimCommit (decodes : String → Bool) (a : Asking) (moment : Int) (id : Nat) (r : JobRow)
    (hnow : moment ≤ w.now) (h : w.jobs.Holds c id r (some (claimRow a moment r)))
    (hopen : Open moment r) :
    Steps c w (w.claimCommit decodes c a moment id (some (claimRow a moment r))) := by
  have hrow : (w.jobs.slot id).committed = some r := by rw [h.slot]
  have hatomic : Atomic w.ledger {w.ledger with
      jobs := fun j => ((w.jobs.commit c).slot j).committed
      claims := w.claims ++ [claimOf a moment id r]} := by
    rw [ledger_commit h]
    exact Atomic.claim w.ledger a moment id r hrow hopen.1 hopen.2 hnow
  have hnone : (w.jobs.commit c).HoldsNone c := Table.holdsNone_commit
  unfold World.claimCommit
  simp only
  split
  · exact ⟨fun _ hd => client_goto_of_ne .idle hd, Table.keepsOthers_commit, le_rfl, hatomic,
      clientOk_answer.mpr (rests_of_holdsNone hnone)⟩
  · exact ⟨fun _ hd => client_goto_of_ne _ hd, Table.keepsOthers_commit, le_rfl, hatomic,
      clientOk_goto.mpr hnone⟩

/-- A completion of one statement: nothing, or the one row of its claim, changed and committed. -/
theorem steps_complete {n : Nat} {f : JobRow → Option JobRow} (released : List Nat)
    (hok : ClientOk c w) (h : w.jobs.HoldsNone c)
    (hatomic : ∀ d r, w.claims[n]? = some d → (w.jobs.slot d.job.id).committed = some r →
      (Guard.owned d.job.reservedBy d.job.attempts).holds r = true →
      Atomic w.ledger {w.ledger with
        jobs := Function.update w.ledger.jobs d.job.id (f r)
        released := released, ended := w.ended ++ [n]}) :
    Steps c w (if w.jobs.blocked c (w.ownedBy n) then w
      else if w.jobs.rows c (w.ownedBy n) = [] then w.answer c .done
      else ({w with
        jobs := w.jobs.modify c (w.ownedBy n) f
        released := released, ended := w.ended ++ [n]}.commitAll c).answer c .done) := by
  split
  · exact .stay hok
  split
  · exact .answer (rests_of_holdsNone h)
  rename_i hblocked hrows
  obtain ⟨⟨i, r⟩, hmem⟩ := List.exists_mem_of_ne_nil _ hrows
  obtain ⟨hview, howned⟩ := Table.mem_rows.mp hmem
  obtain ⟨d, hd, rfl, hguard⟩ := ownedBy_iff.mp howned
  have hcommitted := (h.view d.job.id).symm.trans hview
  have hholds : (w.jobs.modify c (w.ownedBy n) f).Holds c d.job.id r (f r) :=
    h.modify hcommitted (moveWhere_unique (.failed n "") hview howned)
  have hkeep : w.jobs.KeepsOthers c ((w.jobs.modify c (w.ownedBy n) f).commit c) :=
    (Table.keepsOthers_modify (by simpa using hblocked)).trans Table.keepsOthers_commit
  refine ⟨fun _ he => client_goto_of_ne .idle he, hkeep, le_rfl, ?_,
    clientOk_answer.mpr (rests_of_holdsNone Table.holdsNone_commit)⟩
  have hledger : (fun j => (((w.jobs.modify c (w.ownedBy n) f).commit c).slot j).committed) =
      Function.update w.ledger.jobs d.job.id (f r) := by
    rw [ledger_commit hholds]
    exact congrArg (Function.update · _ _) (funext Table.sameCommitted_modify)
  have hgoal := hatomic d r hd hcommitted hguard
  rw [← hledger] at hgoal
  exact hgoal

/-- **A job is done.** -/
theorem steps_delete (n : Nat) (hok : ClientOk c w) (h : w.jobs.HoldsNone c) :
    Steps c w (w.delete c n) :=
  steps_complete w.released hok h fun d r hd hrow howned =>
    Atomic.finish w.ledger n d r hd hrow howned

/-- **A job goes back.** -/
theorem steps_release (n : Nat) (availableAt : Int) (error : String) (hok : ClientOk c w)
    (h : w.jobs.HoldsNone c) : Steps c w (w.release c n availableAt error) :=
  steps_complete (w.released ++ [n]) hok h fun d r hd hrow howned =>
    Atomic.release w.ledger n d r availableAt error hd hrow howned

/-- The row is gone for the client, and stays its own until the move is committed. -/
theorem steps_moveDelete (why : Why) (hok : PcOk c w (.moveDelete why))
    (hpc : (w.client c).pc = .moveDelete why) : Steps c w (w.moveDelete c why) := by
  unfold World.moveDelete
  simp only
  split
  · exact .stay (by rw [ClientOk, hpc]; exact hok)
  rename_i hblocked
  simp only [Bool.not_eq_true] at hblocked
  have hfound : ∀ i r, (w.jobs.slot i).view c = some r → w.moveWhere why i r = true →
      (w.jobs.modify c (w.moveWhere why) fun _ => none).Holds c i r none := by
    intro i r hview hp
    have hunique := moveWhere_unique why hview hp
    cases why with
    | exhausted a moment id =>
      obtain ⟨r', hholds, _⟩ := hok
      simp only [World.moveWhere, Bool.and_eq_true, decide_eq_true_eq] at hp
      obtain ⟨rfl, _⟩ := hp
      rw [hholds.view] at hview
      cases hview
      exact hholds.modify hunique
    | undecodable a n | failed n error =>
      have hnone : w.jobs.HoldsNone c := hok
      exact hnone.modify ((hnone.view i).symm.trans hview) hunique
  split
  · rename_i hrows
    refine .goto ?_
    cases why with
    | exhausted a moment id =>
      obtain ⟨r, hholds, hspent⟩ := hok
      have := Table.rows_eq_nil.mp hrows id r hholds.view
      simp [World.moveWhere, hspent] at this
    | undecodable a n | failed n error => exact hok
  · rename_i i r rest hrows
    obtain ⟨hview, hp⟩ := Table.mem_rows.mp (hrows ▸ List.mem_cons_self (a := (i, r)) (l := rest))
    exact Steps.modify hblocked ⟨i, hfound i r hview hp, hp⟩

/-- What is left to do after a move does not touch the tables. -/
theorem ledger_moved (why : Why) : (w.moved c why).ledger = w.ledger ∧
    (w.moved c why).jobs = w.jobs ∧ (∀ d, d ≠ c → (w.moved c why).client d = w.client d) := by
  cases why <;> exact ⟨rfl, rfl, fun _ hd => client_goto_of_ne _ hd⟩

theorem clientOk_moved (why : Why) (h : w.jobs.HoldsNone c) : ClientOk c (w.moved c why) := by
  cases why with
  | exhausted | undecodable => exact clientOk_goto.mpr h
  | failed => exact clientOk_answer.mpr (rests_of_holdsNone h)

/-- **A job is given up.** -/
theorem steps_moveCommit (why : Why) (row : Option JobRow) (hok : PcOk c w (.moveCommit why row)) :
    Steps c w (w.moveCommit c why row) := by
  unfold World.moveCommit
  obtain ⟨hledger, hjobs, hothers⟩ := ledger_moved (c := c)
    (w := ({w with ended := w.ended ++ World.endedBy why row} : World κ).commitAll c) why
  have hkeep : w.jobs.KeepsOthers c (w.jobs.commit c) := Table.keepsOthers_commit
  have hclient := clientOk_moved (c := c)
    (w := ({w with ended := w.ended ++ World.endedBy why row} : World κ).commitAll c) why
    Table.holdsNone_commit
  refine ⟨hothers, by rw [hjobs]; exact hkeep, by rw [hjobs]; exact le_rfl, ?_, hclient⟩
  rw [hledger]
  cases row with
  | none =>
    have hnone : w.jobs.HoldsNone c := hok
    have hsame : (fun j => ((w.jobs.commit c).slot j).committed) = fun j => (w.jobs.slot j).committed := by
      funext j
      rw [hnone.commit_eq]
    have hended : World.endedBy why none = [] := by cases why <;> rfl
    simp only [World.ledger, World.commitAll, hsame, hended, List.append_nil]
    exact .stutter w.ledger
  | some r =>
    obtain ⟨i, hholds, hp⟩ := hok
    have hrow : w.ledger.jobs i = some r := by simp [World.ledger, hholds.slot]
    simp only [World.ledger, World.commitAll, ledger_commit hholds]
    cases why with
    | exhausted a moment id =>
      simp only [World.moveWhere, Bool.and_eq_true] at hp
      simp only [World.endedBy, List.append_nil]
      exact Atomic.exhaust w.ledger moment i r hrow hp.2
    | undecodable a n | failed n error =>
      obtain ⟨d, hd, rfl, hguard⟩ := ownedBy_iff.mp hp
      exact Atomic.finish w.ledger n d r hd hrow hguard

/-! ### Rows that are added -/

/-- What was added is committed. -/
theorem atomic_insert (h : HoldsNew c w) :
    Atomic w.ledger {w.ledger with jobs := fun j => ((w.jobs.commit c).slot j).committed} := by
  refine Atomic.insert w.ledger _ fun i => ?_
  by_cases hheld : ∃ v, (w.jobs.slot i).held = some (c, v)
  · obtain ⟨v, hv⟩ := hheld
    obtain ⟨hcommitted, hunclaimed, r, rfl, hnew⟩ := h i v hv
    refine .inr ⟨hcommitted, hunclaimed, r, ?_, hnew⟩
    show ((w.jobs.slot i).commit c).committed = some r
    simp [Slot.commit, hv]
  · refine .inl (congrArg Slot.committed (Table.slot_commit_of_not_held fun v hv => hheld ⟨v, hv⟩))

omit [DecidableEq κ] in
/-- One more row, under an id that no claim can have. -/
theorem holdsNew_insert (hle : ∀ d ∈ w.claims, d.job.id ≤ w.jobs.seq) (h : HoldsNew c w) {row : JobRow}
    (hnew : row.New) : HoldsNew c {w with jobs := (w.jobs.insert c row).2} := by
  intro i v hheld
  by_cases hi : i = w.jobs.seq + 1
  · subst hi
    have hv : v = some row := by
      simp only [Table.insert, Function.update_self, Slot.write, Option.some.injEq, Prod.mk.injEq] at hheld
      exact hheld.2.symm
    refine ⟨by simp [Table.insert, Slot.write, Slot.blank], ?_, row, hv, hnew⟩
    intro d hd heq
    have := hle d hd
    omega
  · have hslot : ((w.jobs.insert c row).2).slot i = w.jobs.slot i := by simp [Table.insert, hi]
    simp only [hslot] at hheld ⊢
    exact h i v hheld

omit [DecidableEq κ] in
theorem holdsNew_of_holdsNone (h : w.jobs.HoldsNone c) : HoldsNew c w :=
  fun i v hheld => absurd hheld (h i v)

/-- **A job is pushed.** -/
theorem steps_pushInsert (hle : ∀ d ∈ w.claims, d.job.id ≤ w.jobs.seq) (row : JobRow)
    (hrests : Rests c w) (hconn : (w.client c).conn ≠ .aborted) (hnew : row.New) :
    Steps c w (w.pushInsert c row) := by
  unfold World.pushInsert
  simp only
  split
  · rename_i hauto
    have hauto' : (w.client c).conn = .autocommit := hauto
    have hnone : w.jobs.HoldsNone c := by simpa [Rests, hauto'] using hrests
    have hadded := holdsNew_insert hle (holdsNew_of_holdsNone hnone) hnew
    have hatomic := atomic_insert hadded
    have hledger : ({w with jobs := (w.jobs.insert c row).2} : World κ).ledger = w.ledger := by
      simp [World.ledger, funext (Table.sameCommitted_insert (t := w.jobs) (c := c) (r := row))]
    rw [hledger] at hatomic
    exact ⟨fun _ hd => client_goto_of_ne .idle hd,
      Table.keepsOthers_insert.trans Table.keepsOthers_commit, Nat.le_succ _, hatomic,
      clientOk_answer.mpr (rests_of_holdsNone Table.holdsNone_commit)⟩
  · rename_i hauto
    have hopened : (w.client c).conn = .opened := by
      rcases h : (w.client c).conn with _ | _ | _
      · exact absurd h hauto
      · rfl
      · exact absurd h hconn
    have hheld : HoldsNew c w := by simpa [Rests, hopened] using hrests
    refine .quiet (fun _ hd => client_goto_of_ne .idle hd) Table.keepsOthers_insert (Nat.le_succ _)
      Table.sameCommitted_insert rfl rfl rfl rfl (clientOk_answer.mpr ?_)
    unfold Rests
    rw [show ({w with jobs := (w.jobs.insert c row).2} : World κ).client c = w.client c from rfl, hopened]
    exact holdsNew_insert hle hheld hnew

/-- A rolled back client has nothing, and nothing else has changed. -/
theorem Steps.rollback (conn : Conn) (pc : Pc) (h : ∀ w : World κ, w.jobs.HoldsNone c → PcOk c w pc) :
    Steps c w (((w.rollbackAll c).setConn c conn).goto c pc) := by
  refine .quiet ?_ Table.keepsOthers_rollback le_rfl Table.sameCommitted_rollback rfl rfl rfl rfl
    (clientOk_goto.mpr (h _ Table.holdsNone_rollback))
  intro d hd
  rw [client_goto_of_ne pc hd]
  exact Function.update_of_ne hd ..

theorem steps_violated (key : String) (hrests : Rests c w) : Steps c w (w.violated c key) := by
  unfold World.violated
  split
  · exact .goto hrests
  · exact .rollback .aborted (.pushAgain key) fun _ h => rests_of_holdsNone h

/-- The statement touches the failed table only. -/
theorem Steps.failed {t : Table κ FailedRow} {pc : Pc} (h : PcOk c w pc) :
    Steps c w ({w with failed := t}.goto c pc) :=
  .quiet (fun _ hd => client_goto_of_ne pc hd) .refl le_rfl (fun _ => rfl) rfl rfl rfl rfl
    (clientOk_goto.mpr h)

/-- A pushed row has no claim on it. -/
theorem pushRow_new (moment : Int) (r : PushRequest) : (pushRow moment r).New :=
  ⟨rfl, by simp only [pushRow]; omega, rfl⟩

/-- Nor has one that is retried. -/
theorem retryRow_new (moment maxAttempts : Int) (f : FailedRow) : (retryRow moment maxAttempts f).New :=
  ⟨rfl, by simp only [retryRow]; omega, rfl⟩

/-- **One statement is one action, or none.** -/
theorem steps_exec (decodes : String → Bool) (hw : Consistent w) : Steps c w (w.exec decodes c) := by
  have hok := hw.client c
  have hpcok : PcOk c w (w.client c).pc := hok
  unfold World.exec
  -- One case for each statement, in the order of the definition.
  split <;> rename_i hpc <;> rw [hpc] at hpcok
  · exact .stay hok
  · split
    · exact .answer hpcok.1
    · split
      · exact .answer hpcok.1
      · exact .goto hpcok
  · split
    · exact .answer hpcok.1
    · rename_i hconn
      split
      · exact steps_pushInsert hw.claim_le _ hpcok.1 hconn hpcok.2
      · split
        · exact .stay hok
        split
        · exact steps_violated _ hpcok.1
        · exact steps_pushInsert hw.claim_le _ hpcok.1 hconn hpcok.2
  · split
    · exact .answer hpcok
    · split <;> exact .answer hpcok
  · split
    · exact steps_nextQueue _ hpcok
    · exact .goto ⟨hpcok, le_rfl⟩
  · exact steps_candidate _ _ hpcok.1 hpcok.2
  · obtain ⟨hnow, r, hholds, hopen⟩ := hpcok
    exact steps_claim _ _ _ r hnow hholds hopen
  · obtain ⟨hnow, r, hholds, hopen⟩ := hpcok
    exact .goto ⟨hnow, r, hholds, hopen, hholds.view⟩
  · obtain ⟨hnow, r, hholds, hopen, rfl⟩ := hpcok
    exact steps_claimCommit decodes _ _ _ r hnow hholds hopen
  · have hnone : w.jobs.HoldsNone c := hpcok
    exact .quiet (fun _ hd => client_goto_of_ne _ hd) Table.keepsOthers_commit le_rfl
      hnone.sameCommitted_commit rfl rfl rfl rfl (clientOk_goto.mpr Table.holdsNone_commit)
  · exact steps_delete _ hok hpcok
  · exact steps_release _ _ _ hok hpcok
  · exact steps_moveDelete _ hpcok hpc
  · exact .goto hpcok
  · exact .failed hpcok
  · exact steps_moveCommit _ _ hpcok
  · exact .goto hpcok
  · unfold World.retryNext
    split
    · exact .answer (rests_of_holdsNone hpcok)
    · exact .goto ⟨hpcok, retryRow_new ..⟩
  · exact .quiet (fun _ hd => client_goto_of_ne _ hd) Table.keepsOthers_insert (Nat.le_succ _)
      Table.sameCommitted_insert rfl rfl rfl rfl
      (clientOk_goto.mpr (holdsNew_insert hw.claim_le (holdsNew_of_holdsNone hpcok.1) hpcok.2))
  · unfold World.retryDelete
    simp only
    split
    · exact .stay hok
    · exact .failed hpcok
  · exact ⟨fun _ hd => client_goto_of_ne _ hd, Table.keepsOthers_commit, le_rfl, atomic_insert hpcok,
      clientOk_goto.mpr Table.holdsNone_commit⟩
  · unfold World.forget
    split
    · exact .stay hok
    · have hnone : w.jobs.HoldsNone c := hpcok
      exact .quiet (fun _ hd => client_goto_of_ne _ hd) Table.keepsOthers_commit le_rfl
        hnone.sameCommitted_commit rfl rfl rfl rfl
        (clientOk_answer.mpr (rests_of_holdsNone Table.holdsNone_commit))

/-! ### The other inputs -/

theorem clientOk_setConn {conn : Conn} (h : (w.client c).pc = .idle)
    (hok : Rests c (w.setConn c conn)) : ClientOk c (w.setConn c conn) := by
  have hpc : ((w.setConn c conn).client c).pc = .idle := by simp [World.setConn, h]
  rw [ClientOk, hpc]
  exact hok

theorem client_setConn_of_ne {conn : Conn} (h : d ≠ c) : (w.setConn c conn).client d = w.client d :=
  Function.update_of_ne h ..

/-- At the end of its own transaction, what the client has added is committed. -/
theorem Rests.atomic_commit (h : Rests c w) :
    Atomic w.ledger {w.ledger with jobs := fun j => ((w.jobs.commit c).slot j).committed} := by
  refine atomic_insert ?_
  unfold Rests at h
  split at h
  · exact h
  · exact holdsNew_of_holdsNone h

omit [DecidableEq κ] in
theorem clientOk_entry (hrests : Rests c w) (op : Op)
    (hop : (w.client c).conn = .autocommit ∨ World.isPush op = true) :
    PcOk c w (World.entry w.now op) := by
  have hnone : World.isPush op = false → w.jobs.HoldsNone c := by
    intro hpush
    have hauto := hop.resolve_right (by simp [hpush])
    simpa [Rests, hauto] using hrests
  cases op with
  | push r =>
    simp only [World.entry]
    split
    · exact ⟨hrests, pushRow_new ..⟩
    · exact ⟨hrests, pushRow_new ..⟩
  | reserve | delete | release | fail | retryFailed | forgetFailed => exact hnone rfl

theorem steps_call (hok : ClientOk c w) (op : Op) : Steps c w (w.call c op) := by
  unfold World.call
  split
  · rename_i hpc
    rw [ClientOk, hpc] at hok
    split
    · rename_i hop
      exact .goto (clientOk_entry hok op (by simpa using hop))
    · exact .stay (by rw [ClientOk, hpc]; exact hok)
  · exact .stay hok

theorem steps_begin (hok : ClientOk c w) (decodes : String → Bool) : Steps c w (w.step decodes (.begin c)) := by
  simp only [World.step, World.whenIdle]
  split
  · rename_i hpc
    rw [ClientOk, hpc] at hok
    split
    · rename_i hauto
      have hnone : w.jobs.HoldsNone c := by simpa [PcOk, Rests, hauto] using hok
      exact .quiet (fun _ hd => client_setConn_of_ne hd) .refl le_rfl (fun _ => rfl) rfl rfl rfl rfl
        (clientOk_setConn hpc (rests_of_holdsNone hnone))
    · exact .stay (by rw [ClientOk, hpc]; exact hok)
  · exact .stay hok

theorem steps_commit (hok : ClientOk c w) (decodes : String → Bool) : Steps c w (w.step decodes (.commit c)) := by
  simp only [World.step, World.whenIdle]
  split
  · rename_i hpc
    rw [ClientOk, hpc] at hok
    have hrests : Rests c w := hok
    exact ⟨fun _ hd => client_setConn_of_ne hd, Table.keepsOthers_commit, le_rfl, hrests.atomic_commit,
      clientOk_setConn hpc (rests_of_holdsNone Table.holdsNone_commit)⟩
  · exact .stay hok

theorem steps_rollback (hok : ClientOk c w) (decodes : String → Bool) :
    Steps c w (w.step decodes (.rollback c)) := by
  simp only [World.step, World.whenIdle]
  split
  · rename_i hpc
    exact .quiet (fun _ hd => client_setConn_of_ne hd) Table.keepsOthers_rollback le_rfl
      Table.sameCommitted_rollback rfl rfl rfl rfl
      (clientOk_setConn hpc (rests_of_holdsNone Table.holdsNone_rollback))
  · exact .stay hok

theorem steps_abort : Steps c w (((w.rollbackAll c).setConn c .autocommit).answer c .raised) := by
  refine .quiet ?_ Table.keepsOthers_rollback le_rfl Table.sameCommitted_rollback rfl rfl rfl rfl
    (clientOk_answer.mpr (rests_of_holdsNone Table.holdsNone_rollback))
  intro d hd
  exact (client_goto_of_ne .idle hd).trans (client_setConn_of_ne hd)

end

/-! ### The driver refines the atomic queue -/

/-- The client an input is for. -/
def Input.client : Input κ → Option κ
  | .tick _ => none
  | .begin c => some c
  | .commit c => some c
  | .rollback c => some c
  | .call c _ => some c
  | .step c => some c
  | .abort c => some c

/-- **One input.** -/
theorem step_steps (decodes : String → Bool) {w : World κ} (hw : Consistent w) (input : Input κ) {c : κ}
    (hc : input.client = some c) : Steps c w (w.step decodes input) := by
  cases input <;> simp only [Input.client, Option.some.injEq, reduceCtorEq] at hc <;> subst hc
  · exact steps_begin (hw.client _) decodes
  · exact steps_commit (hw.client _) decodes
  · exact steps_rollback (hw.client _) decodes
  · exact steps_call (hw.client _) _
  · exact steps_exec decodes hw
  · exact steps_abort

/-- **Every step of the driver is a step of the atomic queue.** -/
theorem step_atomic (decodes : String → Bool) {w : World κ} (hw : Consistent w) (input : Input κ) :
    Atomic w.ledger (w.step decodes input).ledger := by
  rcases hc : input.client with _ | c
  · cases input <;> cases hc
    exact Atomic.wait w.ledger _
  · exact (step_steps decodes hw input hc).atomic

omit [DecidableEq κ] in
/-- A row that was committed once has an id the sequence has given out. -/
theorem committed_le {t : Table κ JobRow} {i : Nat} (h : ((t.slot i).committed).isSome) : i ≤ t.seq := by
  by_contra hi
  rw [t.fresh i (by omega)] at h
  cases h

omit [DecidableEq κ] in
/-- A clock reading stays in the past. -/
theorem PcOk.later {c : κ} {w : World κ} {pc : Pc} (h : PcOk c w pc) (micros : Nat) :
    PcOk c {w with now := w.now + micros} pc := by
  have hnow : ∀ {moment : Int}, moment ≤ w.now → moment ≤ w.now + micros := by omega
  cases pc with
  | candidate a moment => exact ⟨h.1, hnow h.2⟩
  | claim a moment id => exact ⟨hnow h.1, h.2⟩
  | read a moment id => exact ⟨hnow h.1, h.2⟩
  | claimCommit a moment id row => exact ⟨hnow h.1, h.2⟩
  | moveDelete why => cases why <;> exact h
  | moveCommit why row => cases row <;> exact h
  | _ => exact h

/-- What the clients have in hand stays right. -/
theorem consistent_step (decodes : String → Bool) {w : World κ} (hw : Consistent w) (input : Input κ) :
    Consistent (w.step decodes input) := by
  rcases hc : input.client with _ | d
  · cases input <;> cases hc
    exact ⟨fun c => PcOk.later (hw.client c) _, hw.claim_le⟩
  · have hs := step_steps decodes hw input hc
    constructor
    · intro c
      by_cases hcd : c = d
      · subst hcd
        exact hs.ok
      · exact clientOk_frame hcd hs (hw.client c)
    · intro e he
      rcases hs.atomic.claims with hsame | ⟨e', hmore, hsome⟩
      · rw [show (w.step decodes input).claims = w.claims from hsame] at he
        exact (hw.claim_le e he).trans hs.seq
      · rw [show (w.step decodes input).claims = w.claims ++ [e'] from hmore] at he
        rcases List.mem_append.mp he with he | he
        · exact (hw.claim_le e he).trans hs.seq
        · rw [List.mem_singleton.mp he]
          exact (committed_le hsome).trans hs.seq

omit [DecidableEq κ] in
theorem consistent_start : Consistent (World.start κ) := by
  constructor
  · intro c i v hheld
    cases hheld
  · intro d hd
    cases hd

/-- In every run. -/
theorem consistent_run (decodes : String → Bool) (inputs : List (Input κ)) :
    Consistent ((machine decodes).run (.start κ) inputs) :=
  Base.Machine.invariant_all (m := machine decodes) (I := Consistent) (fun i _ hw => consistent_step decodes hw i)
    consistent_start inputs

/-- What every transition of the atomic queue preserves holds of every state the driver
reaches. -/
theorem ledger_invariant {I : Ledger → Prop} (h : ∀ l l', Atomic l l' → I l → I l')
    (hstart : I (World.start κ).ledger) (decodes : String → Bool) (inputs : List (Input κ)) :
    I ((machine decodes).run (.start κ) inputs).ledger :=
  (Base.Machine.invariant_all (m := machine decodes) (I := fun w => Consistent w ∧ I w.ledger)
    (fun i _ hw => ⟨consistent_step decodes hw.1 i, h _ _ (step_atomic decodes hw.1 i) hw.2⟩)
    ⟨consistent_start, hstart⟩ inputs).2

end

end PyAppRunner.Queue.PgQueue
