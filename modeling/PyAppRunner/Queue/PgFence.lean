import PyAppRunner.Queue.PgMoves

/-! Claims of the Postgres driver are exclusive and fenced.

A row keeps its id for one budget only (`retry_failed` makes a new row), and every
claim of it raises `attempts`, so the pair in a row names one claim: the row's most
recent one, and only while that claim is neither completed nor released. The
deadline of a claim stays in its row until the claim is released or the row goes.
Both follow over the atomic queue (`Tracked`), and hold of the driver because it
refines that queue. -/
namespace PyAppRunner.Queue.PgQueue
open Sql Base

/-- When the claim runs out. -/
def Claim.deadline (c : Claim) : Int := PgQueue.deadline c.moment c.timeout

/-- What the rows say about the claims. -/
structure Tracked (l : Ledger) : Prop where
  ended_lt : ∀ n ∈ l.ended, n < l.claims.length
  released_lt : ∀ n ∈ l.released, n < l.claims.length
  attempts_le : ∀ i r, l.jobs i = some r → ∀ c ∈ l.claims, c.job.id = i → c.job.attempts ≤ r.attempts
  attempts_lt : ∀ (n m : Nat) (c d : Claim), n < m → l.claims[n]? = some c → l.claims[m]? = some d →
    c.job.id = d.job.id → c.job.attempts < d.job.attempts
  latest : ∀ i r name, l.jobs i = some r → r.reservedBy = some name →
    ∃ n c, Latest (·.job.id) l.claims i n c ∧ c.job.reservedBy = name ∧
      c.job.attempts = r.attempts ∧ n ∉ l.ended
  deadline : ∀ i r n c, l.jobs i = some r → Latest (·.job.id) l.claims i n c → n ∉ l.released →
    r.reservedUntil = some c.deadline
  lapsed : ∀ (n m : Nat) (c d : Claim), n < m → l.claims[n]? = some c → l.claims[m]? = some d →
    c.job.id = d.job.id → n ∉ l.released → c.deadline ≤ l.now

/-- The pair in a row is its most recent claim's, and that claim is open. -/
theorem Tracked.owned {l : Ledger} (h : Tracked l) {n : Nat} {c : Claim} {r : JobRow}
    (hc : l.claims[n]? = some c) (hrow : l.jobs c.job.id = some r)
    (howned : (Guard.owned c.job.reservedBy c.job.attempts).holds r = true) :
    Latest (·.job.id) l.claims c.job.id n c ∧ n ∉ l.ended := by
  simp only [Guard.holds, Bool.and_eq_true, decide_eq_true_eq] at howned
  obtain ⟨m, d, hlatest, -, hattempts, hopen⟩ := h.latest _ r _ hrow howned.1
  have hunder : d.job.id = c.job.id := hlatest.under
  rcases Nat.lt_trichotomy n m with hlt | rfl | hlt
  · have := h.attempts_lt n m c d hlt hc hlatest.get hunder.symm
    omega
  · rw [hlatest.get] at hc
    cases hc
    exact ⟨hlatest, hopen⟩
  · exact absurd rfl (hlatest.last n c hlt hc)

theorem tracked_start {κ : Type} : Tracked (World.start κ).ledger := by
  constructor <;> simp [World.ledger, World.start, Table.empty, Slot.blank]

/-- A claim is the most recent of its row, or an old one. -/
theorem latest_or_later {claims : List Claim} {n : Nat} {c : Claim} (hc : claims[n]? = some c) :
    Latest (·.job.id) claims c.job.id n c ∨
      ∃ m d, n < m ∧ claims[m]? = some d ∧ c.job.id = d.job.id := by
  by_cases h : ∃ m d, n < m ∧ claims[m]? = some d ∧ c.job.id = d.job.id
  · exact .inr h
  · refine .inl ⟨hc, rfl, ?_⟩
    intro m d hm hd heq
    exact h ⟨m, d, hm, hd, heq.symm⟩

theorem lapsed_of_some {moment u : Int} {r : JobRow} (h : PgQueue.lapsed moment r = true)
    (hu : r.reservedUntil = some u) : u ≤ moment := by
  simpa [PgQueue.lapsed, hu] using h

/-- Removing a row, or adding rows without a claim, leaves every claim as it was. -/
theorem Tracked.rows {l : Ledger} (h : Tracked l) {jobs' : Nat → Option JobRow}
    (hrows : ∀ i r, jobs' i = some r → l.jobs i = some r ∨
      Unclaimed l.claims i ∧ r.reservedBy = none) : Tracked {l with jobs := jobs'} := by
  obtain ⟨hend, hrel, hle, hlt, hlatest, hdeadline, hlapsed⟩ := h
  refine ⟨hend, hrel, ?_, hlt, ?_, ?_, hlapsed⟩
  · intro i r hr c hc hid
    rcases hrows i r hr with hr | ⟨hun, _⟩
    · exact hle i r hr c hc hid
    · exact absurd hid (hun c hc)
  · intro i r name hr hname
    rcases hrows i r hr with hr | ⟨_, hnone⟩
    · exact hlatest i r name hr hname
    · rw [hnone] at hname
      cases hname
  · intro i r n c hr hl hn
    rcases hrows i r hr with hr | ⟨hun, _⟩
    · exact hdeadline i r n c hr hl hn
    · exact absurd hl.under (hun c (List.mem_of_getElem? hl.get))

theorem Tracked.claim {l : Ledger} (h : Tracked l) {a : Asking} {moment : Int} {i : Nat} {r : JobRow}
    (hrow : l.jobs i = some r) (hlap : PgQueue.lapsed moment r = true) (hnow : moment ≤ l.now) :
    Tracked {l with
      jobs := Function.update l.jobs i (some (claimRow a moment r))
      claims := l.claims ++ [claimOf a moment i r]} := by
  have hid : (claimOf a moment i r).job.id = i := rfl
  have hgrow : ∀ {n}, n < l.claims.length → n < (l.claims ++ [claimOf a moment i r]).length := by
    intro n hn
    rw [List.length_append]
    omega
  constructor
  · exact fun n hn => hgrow (h.ended_lt n hn)
  · exact fun n hn => hgrow (h.released_lt n hn)
  -- The new claim has one attempt more than any before it.
  · intro j r' hr' c hc hcj
    simp only [Function.update_apply] at hr'
    rcases List.mem_append.mp hc with hc | hc
    · split at hr'
      · rename_i hj
        cases hr'
        exact (h.attempts_le i r hrow c hc (hcj.trans hj)).trans (Nat.le_succ _)
      · exact h.attempts_le j r' hr' c hc hcj
    · obtain rfl := List.mem_singleton.mp hc
      have hj : j = i := hcj.symm.trans hid
      rw [if_pos hj] at hr'
      cases hr'
      exact le_rfl
  · intro n m c d hnm hc hd hcd
    rcases getElem?_append_singleton.mp hd with hd | ⟨hm, rfl⟩
    · rcases getElem?_append_singleton.mp hc with hc | ⟨hn, _⟩
      · exact h.attempts_lt n m c d hnm hc hd hcd
      · have := (List.getElem?_eq_some_iff.mp hd).1
        omega
    · rcases getElem?_append_singleton.mp hc with hc | ⟨hn, _⟩
      · have := h.attempts_le i r hrow c (List.mem_of_getElem? hc) hcd
        show c.job.attempts < r.attempts + 1
        omega
      · omega
  -- The row now names the new claim, which is the latest under its id.
  · intro j r' name hr' hname
    simp only [Function.update_apply] at hr'
    split at hr'
    · subst j
      cases hr'
      cases hname
      refine ⟨l.claims.length, _, Latest.append_self (fun c : Claim => c.job.id) l.claims
        (claimOf a moment i r), rfl, rfl, ?_⟩
      exact fun hended => absurd (h.ended_lt _ hended) (Nat.lt_irrefl _)
    · rename_i hj
      obtain ⟨n, c, hlatest, hrest⟩ := h.latest j r' name hr' hname
      exact ⟨n, c, hlatest.append_other fun heq => hj heq.symm, hrest⟩
  · intro j r' n c hr' hlatest hn
    simp only [Function.update_apply] at hr'
    split at hr'
    · subst j
      cases hr'
      have hself := Latest.append_self (fun c : Claim => c.job.id) l.claims (claimOf a moment i r)
      obtain ⟨_, rfl⟩ := hlatest.unique hself
      rfl
    · rename_i hj
      rcases getElem?_append_singleton.mp hlatest.get with hget | ⟨_, rfl⟩
      · refine h.deadline j r' n c hr' ⟨hget, hlatest.under, ?_⟩ hn
        exact fun m y hm hy => hlatest.last m y hm (getElem?_append_singleton.mpr (.inl hy))
      · exact absurd hlatest.under.symm hj
  -- The row was free to claim, so the deadline of the latest claim before has passed.
  · intro n m c d hnm hc hd hcd hn
    rcases getElem?_append_singleton.mp hd with hd | ⟨hm, rfl⟩
    · rcases getElem?_append_singleton.mp hc with hc | ⟨hn', _⟩
      · exact h.lapsed n m c d hnm hc hd hcd hn
      · have := (List.getElem?_eq_some_iff.mp hd).1
        omega
    · rcases getElem?_append_singleton.mp hc with hc | ⟨hn', _⟩
      · have hci : c.job.id = i := hcd
        rcases latest_or_later hc with hlatest | ⟨m', d', hm', hd', hid'⟩
        · rw [hci] at hlatest
          exact (lapsed_of_some hlap (h.deadline i r n c hrow hlatest hn)).trans hnow
        · exact h.lapsed n m' c d' hm' hc hd' hid' hn
      · omega

/-- Ending claim `n` of row `i` says nothing about the claims of other rows. -/
theorem Tracked.finish {l : Ledger} (h : Tracked l) {n : Nat} {c : Claim} (hc : l.claims[n]? = some c) :
    Tracked {l with jobs := Function.update l.jobs c.job.id none, ended := l.ended ++ [n]} := by
  have hlt := (List.getElem?_eq_some_iff.mp hc).1
  have hrows : ∀ i r, Function.update l.jobs c.job.id none i = some r → i ≠ c.job.id ∧ l.jobs i = some r := by
    intro i r hr
    rw [Function.update_apply] at hr
    split at hr
    · cases hr
    · exact ⟨‹_›, hr⟩
  have hgone : Tracked {l with jobs := Function.update l.jobs c.job.id none} :=
    h.rows fun i r hr => .inl (hrows i r hr).2
  refine ⟨?_, hgone.released_lt, hgone.attempts_le, hgone.attempts_lt, ?_, hgone.deadline, hgone.lapsed⟩
  · intro m hm
    rcases List.mem_append.mp hm with hm | hm
    · exact h.ended_lt m hm
    · rw [List.mem_singleton.mp hm]
      exact hlt
  · intro i r name hr hname
    obtain ⟨m, d, hlatest, hby, hattempts, hopen⟩ := h.latest i r name (hrows i r hr).2 hname
    refine ⟨m, d, hlatest, hby, hattempts, ?_⟩
    intro hm
    rcases List.mem_append.mp hm with hm | hm
    · exact hopen hm
    · rw [List.mem_singleton.mp hm] at hlatest
      have hd := hlatest.get
      rw [hc] at hd
      cases hd
      exact (hrows i r hr).1 hlatest.under.symm

theorem Tracked.release {l : Ledger} (h : Tracked l) {n : Nat} {c : Claim} {r : JobRow} {availableAt : Int}
    {error : String} (hc : l.claims[n]? = some c) (hrow : l.jobs c.job.id = some r)
    (howned : (Guard.owned c.job.reservedBy c.job.attempts).holds r = true) :
    Tracked {l with
      jobs := Function.update l.jobs c.job.id (some (releaseRow availableAt error r))
      released := l.released ++ [n], ended := l.ended ++ [n]} := by
  obtain ⟨hlatest, _⟩ := h.owned hc hrow howned
  have hfin := h.finish hc
  have hlt := (List.getElem?_eq_some_iff.mp hc).1
  have hrows : ∀ i r', Function.update l.jobs c.job.id (some (releaseRow availableAt error r)) i = some r' →
      i = c.job.id ∧ r' = releaseRow availableAt error r ∨
        Function.update l.jobs c.job.id none i = some r' ∧ l.jobs i = some r' := by
    intro i r' hr'
    rw [Function.update_apply] at hr' ⊢
    split at hr'
    · exact .inl ⟨‹_›, (Option.some.inj hr').symm⟩
    · rename_i hi
      exact .inr ⟨by rw [if_neg hi]; exact hr', hr'⟩
  refine ⟨hfin.ended_lt, ?_, ?_, h.attempts_lt, ?_, ?_, ?_⟩
  · intro m hm
    rcases List.mem_append.mp hm with hm | hm
    · exact h.released_lt m hm
    · rw [List.mem_singleton.mp hm]
      exact hlt
  · intro i r' hr' d hd hid
    rcases hrows i r' hr' with ⟨rfl, rfl⟩ | ⟨_, hr'⟩
    · exact h.attempts_le _ r hrow d hd hid
    · exact h.attempts_le i r' hr' d hd hid
  · intro i r' name hr' hname
    rcases hrows i r' hr' with ⟨rfl, rfl⟩ | ⟨hr', _⟩
    · cases hname
    · exact hfin.latest i r' name hr' hname
  · intro i r' m d hr' hl hm
    simp only [List.mem_append, List.mem_singleton, not_or] at hm
    rcases hrows i r' hr' with ⟨rfl, _⟩ | ⟨_, hr'⟩
    · exact absurd (hl.unique hlatest).1 hm.2
    · exact h.deadline i r' m d hr' hl hm.1
  · intro m m' d d' hmm hd hd' hdd hm
    simp only [List.mem_append, not_or] at hm
    exact h.lapsed m m' d d' hmm hd hd' hdd hm.1

theorem Tracked.step {l l' : Ledger} (hs : Atomic l l') (h : Tracked l) : Tracked l' := by
  cases hs with
  | wait micros =>
    refine ⟨h.ended_lt, h.released_lt, h.attempts_le, h.attempts_lt, h.latest, h.deadline, ?_⟩
    intro n m c d hnm hc hd hcd hn
    have := h.lapsed n m c d hnm hc hd hcd hn
    show c.deadline ≤ l.now + micros
    omega
  | insert jobs' hnew =>
    refine h.rows fun i r hr => ?_
    rcases hnew i with hsame | ⟨_, hun, r', hr', hfresh⟩
    · exact .inl (hsame ▸ hr)
    · rw [hr'] at hr
      cases hr
      exact .inr ⟨hun, hfresh.unclaimed⟩
  | claim a moment i r hrow hlapsed hleft hnow => exact h.claim hrow hlapsed hnow
  | exhaust moment i r hrow hspent =>
    refine h.rows fun j r' hr' => .inl ?_
    rw [Function.update_apply] at hr'
    split at hr'
    · cases hr'
    · exact hr'
  | finish n c r hclaim hrow howned => exact h.finish hclaim
  | release n c r availableAt error hclaim hrow howned => exact h.release hclaim hrow howned

theorem tracked_run {κ : Type} [DecidableEq κ] (decodes : String → Bool) (inputs : List (Input κ)) :
    Tracked ((machine decodes).run (.start κ) inputs).ledger :=
  ledger_invariant (fun _ _ hs h => h.step hs) tracked_start decodes inputs

/-! ### What a client has of the failed table -/

section
variable {κ : Type} [DecidableEq κ] {c : κ} {w w' : World κ}

/-- A client has failed rows only between the statement that touched them and its commit. -/
def FailedPcOk (c : κ) (w : World κ) : Pc → Prop
  | .moveCommit _ (some _) => True
  | .retryCommit _ => True
  | _ => w.failed.HoldsNone c

def FailedOk (c : κ) (w : World κ) : Prop := FailedPcOk c w (w.client c).pc

structure FailedSteps (c : κ) (w w' : World κ) : Prop where
  keeps : w.failed.KeepsOthers c w'.failed
  ok : FailedOk c w'

omit [DecidableEq κ] in
theorem failedOk_of_holdsNone (h : w.failed.HoldsNone c) : FailedOk c w := by
  unfold FailedOk FailedPcOk
  split
  · trivial
  · trivial
  · exact h

omit [DecidableEq κ] in
theorem holdsNone_of_failedPcOk {pc : Pc} (h : FailedPcOk c w pc) (hpc : pc.shelved = false) : w.failed.HoldsNone c := by
  unfold FailedPcOk at h
  split at h
  · cases hpc
  · cases hpc
  · exact h

theorem FailedEdit.keepsOthers {pc : Pc} {failed : Table κ FailedRow} (h : FailedEdit c w pc failed) :
    w.failed.KeepsOthers c failed := by
  cases h with
  | same => exact .refl
  | commit => exact Table.keepsOthers_commit
  | rollback => exact Table.keepsOthers_rollback
  | move => exact Table.keepsOthers_insert
  | retry hfree => exact Table.keepsOthers_modify (by simpa using hfree)
  | forget hfree => exact (Table.keepsOthers_modify (by simpa using hfree)).trans Table.keepsOthers_commit

/-- A statement that writes failed rows and does not commit goes on to one that knows of them. -/
theorem FailedEdit.ok {pc pc' : Pc} {jobs : Table κ JobRow} (h : FailedEdit c w pc w'.failed)
    (hnext : Next c w jobs pc pc') (hok : FailedPcOk c w pc) : FailedPcOk c w' pc' := by
  have hof : w'.failed.HoldsNone c → FailedPcOk c w' pc' := by
    intro hnone
    unfold FailedPcOk
    split
    · trivial
    · trivial
    · exact hnone
  generalize hfailed : w'.failed = failed at h hof
  cases h with
  | same hpc => exact hof (holdsNone_of_failedPcOk hok hpc)
  | commit => exact hof Table.holdsNone_commit
  | rollback => exact hof Table.holdsNone_rollback
  | move =>
    cases hnext with
    | done hshelving => cases hshelving
    | shelved => trivial
  | retry =>
    cases hnext with
    | done hshelving => cases hshelving
    | taken => trivial
  | forget => exact hof Table.holdsNone_commit

theorem failedSteps_step (decodes : String → Bool) (hok : FailedOk c w) (input : Input κ)
    (hc : input.client = some c) : FailedSteps c w (w.step decodes input) := by
  obtain hsame | hmoves | hbroken := step_moves decodes hc
  · rw [hsame]
    exact ⟨.refl, hok⟩
  · exact ⟨hmoves.failed.keepsOthers, hmoves.failed.ok hmoves.next hok⟩
  · rw [hbroken]
    exact ⟨Table.keepsOthers_rollback, failedOk_of_holdsNone Table.holdsNone_rollback⟩

theorem failedOk_step (decodes : String → Bool) (hw : Consistent w) (hok : ∀ c, FailedOk c w)
    (input : Input κ) (c : κ) : FailedOk c (w.step decodes input) := by
  rcases hd : input.client with _ | d
  · cases input <;> cases hd
    exact hok c
  · by_cases hcd : c = d
    · subst hcd
      exact (failedSteps_step decodes (hok c) input hd).ok
    · have hclient := (step_steps decodes hw input hd).others c hcd
      have hkeeps := (failedSteps_step decodes (hok d) input hd).keeps
      have := hok c
      unfold FailedOk FailedPcOk at this ⊢
      rw [hclient]
      split at this
      · trivial
      · trivial
      · exact hkeeps.holdsNone hcd this

theorem failedOk_run (decodes : String → Bool) (inputs : List (Input κ)) (c : κ) :
    FailedOk c ((machine decodes).run (.start κ) inputs) :=
  (Base.Machine.invariant_all (m := machine decodes)
    (I := fun w => Consistent w ∧ ∀ c, FailedOk c w)
    (fun i _ hw => ⟨consistent_step decodes hw.1 i, failedOk_step decodes hw.1 hw.2 i⟩)
    ⟨consistent_start, fun _ _ _ hheld => by cases hheld⟩ inputs).2 c

end

/-! ### The fence -/

/-- The claim that a move ends, if it ends one. -/
def Why.handle : Why → Option Nat
  | .exhausted .. => none
  | .undecodable _ n => some n
  | .failed n _ => some n

/-- The claim whose handle a completion under way was called with. -/
def Pc.handle : Pc → Option Nat
  | .delete n => some n
  | .release n _ _ => some n
  | .moveDelete why => why.handle
  | .moveClock why _ => why.handle
  | .moveInsert why _ _ => why.handle
  | .moveCommit why _ => why.handle
  | _ => none

section
variable {κ : Type} [DecidableEq κ] {c : κ} {w : World κ} {n : Nat}

/-- Claim `n` is its row's most recent, and has been neither completed nor released. -/
def OpenClaim (w : World κ) (n : Nat) : Prop :=
  ∃ d, w.claims[n]? = some d ∧ Latest (·.job.id) w.claims d.job.id n d ∧ n ∉ w.ended

omit [DecidableEq κ] in
/-- A committed row that a handle matches is the row of an open claim. -/
theorem openClaim_of_owned (h : Tracked w.ledger) {i : Nat} {r : JobRow}
    (hrow : (w.jobs.slot i).committed = some r) (howned : w.ownedBy n i r = true) : OpenClaim w n := by
  obtain ⟨d, hd, rfl, hguard⟩ := ownedBy_iff.mp howned
  exact ⟨d, hd, h.owned hd hrow hguard⟩

theorem rows_of_closed (h : Tracked w.ledger) (hnone : w.jobs.HoldsNone c) (hn : ¬ OpenClaim w n) :
    w.jobs.rows c (w.ownedBy n) = [] := by
  refine Table.rows_eq_nil.mpr fun i r hview => ?_
  by_contra howned
  exact hn (openClaim_of_owned h ((hnone.view i).symm.trans hview) (by simpa using howned))

theorem not_blocked_of_rows {t : Table κ JobRow} {p : Nat → JobRow → Bool} (h : t.rows c p = []) :
    t.blocked c p = false := by
  simp [Table.blocked, h]

omit [DecidableEq κ] in
theorem moveWhere_handle {why : Why} (h : why.handle = some n) {i : Nat} {r : JobRow} :
    w.moveWhere why i r = w.ownedBy n i r := by
  cases why <;> cases h <;> rfl

omit [DecidableEq κ] in
/-- A client that has deleted the row on its way to the failed table has an open claim. -/
theorem openClaim_of_moving (h : Tracked w.ledger) {why : Why} (hwhy : why.handle = some n) {row : JobRow}
    (hmoving : ∃ i, w.jobs.Holds c i row none ∧ w.moveWhere why i row = true) : OpenClaim w n := by
  obtain ⟨i, hholds, hp⟩ := hmoving
  rw [moveWhere_handle hwhy] at hp
  exact openClaim_of_owned h (by rw [hholds.slot]) hp

/-- The tables, as everybody sees them and with every lock. -/
def SameTables (w w' : World κ) : Prop := w'.jobs = w.jobs ∧ w'.failed = w.failed

omit [DecidableEq κ] in
/-- A completion whose handle is not an open claim has no row of either table. -/
theorem holdsNone_of_closed (ht : Tracked w.ledger) (hok : ClientOk c w) (hfailed : FailedOk c w)
    (hhandle : (w.client c).pc.handle = some n) (hn : ¬ OpenClaim w n) : w.jobs.HoldsNone c ∧ w.failed.HoldsNone c := by
  unfold ClientOk at hok
  unfold FailedOk at hfailed
  rcases hpc : (w.client c).pc <;> rw [hpc] at hok hfailed hhandle <;>
    simp only [Pc.handle, reduceCtorEq, Option.some.injEq] at hhandle
  · exact ⟨hok, hfailed⟩
  · exact ⟨hok, hfailed⟩
  · rename_i why
    cases why with
    | exhausted => cases hhandle
    | undecodable | failed => exact ⟨hok, hfailed⟩
  · exact absurd (openClaim_of_moving ht hhandle hok) hn
  · exact absurd (openClaim_of_moving ht hhandle hok) hn
  · rename_i why row
    cases row with
    | some r => exact absurd (openClaim_of_moving ht hhandle hok) hn
    | none => exact ⟨hok, hfailed⟩

/-- A statement of a completion whose handle is not an open claim changes nothing. -/
theorem exec_sameTables (decodes : String → Bool) (ht : Tracked w.ledger) (hok : ClientOk c w)
    (hfailed : FailedOk c w) (hhandle : (w.client c).pc.handle = some n) (hn : ¬ OpenClaim w n) :
    SameTables w (w.exec decodes c) := by
  obtain ⟨hnone, hnone'⟩ := holdsNone_of_closed ht hok hfailed hhandle hn
  have hrows := rows_of_closed ht hnone hn
  unfold ClientOk at hok
  unfold World.exec
  split <;> rename_i hpc <;> rw [hpc] at hok hhandle <;>
    simp only [Pc.handle, reduceCtorEq, Option.some.injEq] at hhandle
  · subst hhandle
    simp only [World.delete, not_blocked_of_rows hrows, hrows]
    exact ⟨rfl, rfl⟩
  · subst hhandle
    simp only [World.release, not_blocked_of_rows hrows, hrows]
    exact ⟨rfl, rfl⟩
  · rename_i why
    have hwhere : w.moveWhere why = w.ownedBy n := by
      funext i r
      exact moveWhere_handle hhandle
    simp only [World.moveDelete, hwhere, not_blocked_of_rows hrows, hrows]
    exact ⟨rfl, rfl⟩
  · exact absurd (openClaim_of_moving ht hhandle hok) hn
  · exact absurd (openClaim_of_moving ht hhandle hok) hn
  · rename_i why row
    cases row with
    | some r => exact absurd (openClaim_of_moving ht hhandle hok) hn
    | none =>
      have hjobs : (w.moveCommit c why none).jobs = w.jobs.commit c := (ledger_moved why).2.1
      have hf : (w.moveCommit c why none).failed = w.failed.commit c := by cases why <;> rfl
      exact ⟨hjobs.trans hnone.commit, hf.trans hnone'.commit⟩

/-- So does every other input of the client: a completion under way can be broken off,
and takes back nothing. -/
theorem step_sameTables (decodes : String → Bool) (ht : Tracked w.ledger) (hok : ClientOk c w)
    (hfailed : FailedOk c w) (hhandle : (w.client c).pc.handle = some n) (hn : ¬ OpenClaim w n)
    (input : Input κ) (hc : input.client = some c) : SameTables w (w.step decodes input) := by
  have hbusy : (w.client c).pc ≠ .idle := by
    intro hpc
    rw [hpc] at hhandle
    cases hhandle
  cases input <;> simp only [Input.client, Option.some.injEq, reduceCtorEq] at hc <;> subst hc
  · simp only [World.step, World.whenIdle]
    exact ⟨rfl, rfl⟩
  · simp only [World.step, World.whenIdle]
    exact ⟨rfl, rfl⟩
  · simp only [World.step, World.whenIdle]
    exact ⟨rfl, rfl⟩
  · simp only [World.step, World.call]
    exact ⟨rfl, rfl⟩
  · exact exec_sameTables decodes ht hok hfailed hhandle hn
  · obtain ⟨hnone, hnone'⟩ := holdsNone_of_closed ht hok hfailed hhandle hn
    exact ⟨hnone.rollback, hnone'.rollback⟩

/-- **Claims are exclusive and fenced.** When a claim of a row is made, every earlier
claim of it that was not released has run out; and a completion under way with a handle
that is not its row's most recent claim, or was completed or released already, leaves
both tables exactly as they are, whatever its client does. -/
theorem claims_exclusive_and_fenced (decodes : String → Bool) (inputs : List (Input κ)) :
    (∀ input d, (((machine decodes).run (.start κ) inputs).step decodes input).claims =
        ((machine decodes).run (.start κ) inputs).claims ++ [d] →
      ∀ (n : Nat) c, ((machine decodes).run (.start κ) inputs).claims[n]? = some c →
        c.job.id = d.job.id → n ∉ ((machine decodes).run (.start κ) inputs).released →
        c.moment + max 1 c.timeout * second ≤ ((machine decodes).run (.start κ) inputs).now) ∧
    (∀ x n, (((machine decodes).run (.start κ) inputs).client x).pc.handle = some n →
      ¬ OpenClaim ((machine decodes).run (.start κ) inputs) n →
      ∀ input, input.client = some x → SameTables ((machine decodes).run (.start κ) inputs)
        (((machine decodes).run (.start κ) inputs).step decodes input)) := by
  have hw := consistent_run decodes inputs
  have ht := tracked_run decodes inputs
  have hf := failedOk_run decodes inputs
  generalize (machine decodes).run (.start κ) inputs = w at hw ht hf ⊢
  constructor
  · intro input d hd n c hc hid hn
    have hs := step_atomic decodes hw input
    generalize hw' : w.step decodes input = w' at hd hs
    -- the step that adds a claim is the atomic queue's: it neither waits nor releases
    have hkeep : w'.now = w.now ∧ w'.released = w.released := by
      generalize hl : w.ledger = l at hs
      generalize hl' : w'.ledger = l' at hs
      have hlen : l'.claims.length = l.claims.length + 1 := by
        rw [← hl, ← hl']
        show w'.claims.length = w.claims.length + 1
        rw [hd, List.length_append]
        rfl
      have hnow : w'.now = l'.now ∧ w.now = l.now := by rw [← hl, ← hl']; exact ⟨rfl, rfl⟩
      have hrel : w'.released = l'.released ∧ w.released = l.released := by
        rw [← hl, ← hl']
        exact ⟨rfl, rfl⟩
      cases hs with
      | claim a moment i r hrow hlapsed hleft hle => exact ⟨hnow.1.trans hnow.2.symm, hrel.1.trans hrel.2.symm⟩
      | wait | insert | exhaust | finish | release => exact absurd hlen (Nat.ne_of_lt (Nat.lt_succ_self _))
    have hlt := (List.getElem?_eq_some_iff.mp hc).1
    have hold := (ht.step hs).lapsed n w.claims.length c d hlt
      (by show w'.claims[n]? = some c; rw [hd]; exact getElem?_append_singleton.mpr (.inl hc))
      (by show w'.claims[w.claims.length]? = some d; rw [hd]; exact getElem?_append_singleton.mpr (.inr ⟨rfl, rfl⟩))
      hid (by show n ∉ w'.released; rw [hkeep.2]; exact hn)
    have hle : c.deadline ≤ w'.now := hold
    rw [hkeep.1] at hle
    exact hle
  · intro x n hhandle hn input hc
    exact step_sameTables decodes ht (hw.client x) (hf x) hhandle hn input hc

end

/-- Client `c` reserves from the default queue: a call and its six steps. -/
def reserveSteps (c : Nat) (timeout : Int) : List (Input Nat) :=
  .call c (.reserve ["default"] timeout "w") :: List.replicate 6 (.step c)

/-- Client 0 overruns its claim, client 1 (under the same name) takes the job over, and
client 0 goes on to delete the job. -/
def takenOverRun : List (Input Nat) :=
  [.call 0 (.push {name := "a", payload := "\x7b\x7d"}), .step 0] ++ reserveSteps 0 1 ++
    [.tick 1000000] ++ reserveSteps 1 300 ++ [.call 0 (.delete 0)]

/-- Client 0's handle is fenced off. -/
theorem overrun_handle_fenced :
    (((machine fun _ => true).run (.start Nat) takenOverRun).client 0).pc.handle = some 0 ∧
    ¬ OpenClaim ((machine fun _ => true).run (.start Nat) takenOverRun) 0 ∧
    SameTables ((machine fun _ => true).run (.start Nat) takenOverRun)
      (((machine fun _ => true).run (.start Nat) takenOverRun).step (fun _ => true) (.step 0)) := by
  have hhandle : (((machine fun _ => true).run (.start Nat) takenOverRun).client 0).pc.handle = some 0 := by
    decide +kernel
  have hclosed : ¬ OpenClaim ((machine fun _ => true).run (.start Nat) takenOverRun) 0 := by
    rintro ⟨d, hd, hlatest, -⟩
    have hids : ((machine fun _ => true).run (.start Nat) takenOverRun).claims.map (·.job.id) = [1, 1] := by
      decide +kernel
    have hfirst := congrArg (·[0]?) hids
    have hsecond := congrArg (·[1]?) hids
    simp only [List.getElem?_map, hd, Option.map_some, List.getElem?_cons_zero, Option.some.injEq] at hfirst
    simp only [List.getElem?_map, List.getElem?_cons_succ, List.getElem?_cons_zero,
      Option.map_eq_some_iff] at hsecond
    obtain ⟨c', hc', hid⟩ := hsecond
    exact hlatest.last 1 c' Nat.one_pos hc' (hid.trans hfirst.symm)
  exact ⟨hhandle, hclosed,
    (claims_exclusive_and_fenced (fun _ => true) takenOverRun).2 0 0 hhandle hclosed (.step 0) rfl⟩

end PyAppRunner.Queue.PgQueue
