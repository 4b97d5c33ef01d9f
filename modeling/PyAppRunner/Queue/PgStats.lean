import Mathlib.Data.List.Dedup
import PyAppRunner.Queue.PgMoves
import PyAppRunner.Queue.RedisCounts

/-! The status table adds up.

`stats` counts a row by its two times: it is pending, delayed or reserved. The three filters
are about times that nothing in the table ties together, and a row that is claimed before
it is due would be counted twice. There is none: only the candidate's row is claimed, in
the transaction that found it due, and every other statement that writes one of the times
writes a row that nobody has. So it is counted once by whoever reads the clock after the
statements that made the row did. -/
namespace PyAppRunner.Queue.PgQueue
open Sql
open RedisQueue (Status pgStats countP_eq_add)
variable {κ : Type} [DecidableEq κ]

/-! ### The reports -/

/-- `available_at` and `reserved_until`. -/
def JobRow.times (r : JobRow) : Int × Option Int := (r.availableAt, r.reservedUntil)

/-- Due and not claimed. -/
def isPending (moment : Int) (r : JobRow) : Bool := decide (r.availableAt ≤ moment) && lapsed moment r

/-- Not due yet. -/
def isDelayed (moment : Int) (r : JobRow) : Bool := decide (moment < r.availableAt)

/-- `reserved_until > moment` is not true of a NULL. -/
def isReserved (moment : Int) (r : JobRow) : Bool := r.reservedUntil.any fun u => decide (moment < u)

/-- `pending`, of one queue or of all. -/
def pending (c : κ) (moment : Int) (queue : Option String) (w : World κ) : Nat :=
  (w.jobs.rows c fun _ r => queue.all (fun q => decide (r.queue = q)) && isPending moment r).length

/-- Nobody has the row, or it was due by `now`. -/
def JobRow.Ordered (now : Int) (r : JobRow) : Prop := r.reservedUntil = none ∨ r.availableAt ≤ now

/-- A row that is about to be written has no claim, and one that is about to be claimed is due. -/
def Pc.ordered (c : κ) (w : World κ) : Pc → Prop
  | .pushLookup row _ => row.reservedUntil = none
  | .pushInsert row => row.reservedUntil = none
  | .retryInsert _ _ row => row.reservedUntil = none
  | .candidate _ moment => moment ≤ w.now
  | .claim _ moment id => moment ≤ w.now ∧ ∀ r, (w.jobs.slot id).view c = some r → r.availableAt ≤ moment
  | _ => True

structure Ordered (c : κ) (w : World κ) : Prop where
  rows : w.jobs.Every (JobRow.Ordered w.now)
  pc : (w.client c).pc.ordered c w

section
variable {c : κ} {w : World κ}

/-- Every edit keeps the order: the row that is claimed is due at the moment of the claim. -/
theorem JobsEdit.ordered {pc : Pc} {jobs : Table κ JobRow} (h : JobsEdit c w pc jobs)
    (hr : w.jobs.Every (JobRow.Ordered w.now)) (hpc : pc.ordered c w) : jobs.Every (JobRow.Ordered w.now) := by
  cases h with
  | same => exact hr
  | commit => exact hr.commit c
  | rollback => exact hr.rollback c
  | push => exact hr.insert (.inl hpc)
  | pushNow =>
    have hinsert := hr.insert (c := c) (.inl hpc)
    exact hinsert.commit c
  | lock => exact hr.lock
  | claim =>
    apply hr.modify
    intro i r r' hview hp heq
    cases heq
    rw [Bool.and_eq_true, decide_eq_true_eq] at hp
    rw [hp.1] at hview
    have hat := hpc.2 r hview
    exact .inr (le_trans hat hpc.1)
  | delete => exact hr.delete.commit c
  | @release n availableAt error hfree =>
    have hreleased : (w.jobs.modify c (w.ownedBy n) fun r => some (releaseRow availableAt error r)).Every
        (JobRow.Ordered w.now) := by
      apply hr.modify
      intro i r r' _ _ heq
      cases heq
      exact .inl rfl
    exact hreleased.commit c
  | move => exact hr.delete
  | retry => exact hr.insert (.inl hpc)

/-- The row that is locked to be claimed is due at the moment of the query. -/
theorem due_of_locked {a : Asking} {moment : Int} {id : Nat} {r : JobRow}
    (hcandidate : w.jobs.candidate c (claimable a.queue moment) before = some (id, r)) {r' : JobRow}
    (hr' : ((w.jobs.lock c fun i _ => i = id).slot id).view c = some r') : r'.availableAt ≤ moment := by
  obtain ⟨hview, hclaimable, -⟩ := Table.candidate_eq_some hcandidate
  have hlocked : ((w.jobs.lock c fun i _ => i = id).slot id).view c = some r := by
    rw [Table.lock, Table.slot_modify_of hview (by simp)]
    simp [Slot.view, Slot.write]
  have heq : r' = r := Option.some.inj (hr'.symm.trans hlocked)
  rw [claimable, Bool.and_eq_true, Bool.and_eq_true] at hclaimable
  rw [heq]
  exact of_decide_eq_true hclaimable.1.2

theorem Next.ordered {pc pc' : Pc} {w' : World κ} (h : Next c w w'.jobs pc pc') (hpc : pc.ordered c w)
    (hnow : w'.now = w.now) : pc'.ordered c w' := by
  have hle : w.now ≤ w'.now := hnow.ge
  cases h with
  | entry op =>
    cases op with
    | push r =>
      dsimp only [World.entry]
      split <;> rfl
    | _ => trivial
  | insert => exact hpc
  | look => exact hle
  | claim hcandidate hjobs =>
    refine ⟨le_trans hpc hle, fun r' hr' => ?_⟩
    rw [hjobs] at hr'
    exact due_of_locked hcandidate hr'
  | retry => rfl
  | _ => trivial

theorem ordered_step (decodes : String → Bool) (input : Input κ) (hc : input.client = some c) (h : Ordered c w) :
    Ordered c (w.step decodes input) := by
  obtain hsame | hmoves | hbroken := step_moves decodes hc
  · rw [hsame]
    exact h
  · refine ⟨?_, hmoves.next.ordered h.pc hmoves.now⟩
    rw [hmoves.now]
    exact hmoves.jobs.ordered h.rows h.pc
  · rw [hbroken]
    refine ⟨h.rows.rollback c, ?_⟩
    simp [World.answer, World.goto, Pc.ordered]

/-- What another client does leaves a client's row, and its moment in the past. -/
theorem Pc.ordered_frame {d : κ} {w' : World κ} (hw : Consistent w) (hne : d ≠ c) (h : Steps c w w')
    (hpc : (w.client d).pc.ordered d w) : (w'.client d).pc.ordered d w' := by
  have hnow : w.now ≤ w'.now := h.atomic.now_le
  have hok := hw.client d
  rw [h.others d hne]
  unfold ClientOk at hok
  cases hat : (w.client d).pc with
  | candidate a moment =>
    rw [hat] at hpc
    exact le_trans hpc hnow
  | claim a moment id =>
    rw [hat] at hpc hok
    obtain ⟨-, r, hholds, -⟩ := hok
    have hview : (w'.jobs.slot id).view d = (w.jobs.slot id).view d := by
      rw [(h.jobs.holds hne hholds).view, hholds.view]
    refine ⟨le_trans hpc.1 hnow, ?_⟩
    rw [hview]
    exact hpc.2
  | pushLookup row key | pushInsert row | retryInsert t id row =>
    rw [hat] at hpc
    exact hpc
  | _ => trivial

theorem Pc.ordered_later (micros : Nat) {pc : Pc} (h : pc.ordered c w) : pc.ordered c {w with now := w.now + micros} := by
  have hnow : w.now ≤ w.now + micros := by omega
  cases pc with
  | candidate a moment => exact le_trans h hnow
  | claim a moment id => exact ⟨le_trans h.1 hnow, h.2⟩
  | pushLookup row key | pushInsert row | retryInsert t id row => exact h
  | _ => trivial

end

theorem JobRow.Ordered.later {now now' : Int} {r : JobRow} (h : r.Ordered now) (hle : now ≤ now') : r.Ordered now' :=
  h.imp_right fun hdue => le_trans hdue hle

structure AllOrdered (w : World κ) : Prop where
  consistent : Consistent w
  rows : w.jobs.Every (JobRow.Ordered w.now)
  pc : ∀ c, (w.client c).pc.ordered c w

theorem step_ordered (decodes : String → Bool) (input : Input κ) (w : World κ) (h : AllOrdered w) :
    AllOrdered (w.step decodes input) := by
  have hconsistent := consistent_step decodes h.consistent input
  cases hc : input.client with
  | none =>
    cases input <;> cases hc
    next micros =>
    have hnow : w.now ≤ w.now + micros := by omega
    exact ⟨hconsistent, h.rows.imp fun r hr => hr.later hnow, fun c => Pc.ordered_later micros (h.pc c)⟩
  | some c =>
    have hstep := ordered_step decodes input hc ⟨h.rows, h.pc c⟩
    refine ⟨hconsistent, hstep.rows, ?_⟩
    intro d
    by_cases hd : d = c
    · rw [hd]
      exact hstep.pc
    · exact Pc.ordered_frame h.consistent hd (step_steps decodes h.consistent input hc) (h.pc d)

/-- A row is in one class. -/
theorem JobRow.Ordered.one {moment : Int} {r : JobRow} (h : r.Ordered moment) :
    (isPending moment r).toNat + (isDelayed moment r).toNat + (isReserved moment r).toNat = 1 := by
  unfold isPending isDelayed isReserved lapsed
  cases hu : r.reservedUntil with
  | none =>
    by_cases hat : r.availableAt ≤ moment
    · simp [hat, not_lt.mpr hat]
    · simp [hat, not_le.mp hat]
  | some u =>
    have hat : r.availableAt ≤ moment := h.resolve_left (by simp [hu])
    by_cases hlapsed : u ≤ moment
    · simp [hat, hlapsed, not_lt.mpr]
    · simp [hat, hlapsed, not_le.mp hlapsed, not_lt.mpr]

end PyAppRunner.Queue.PgQueue
