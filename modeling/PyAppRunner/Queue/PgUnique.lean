import PyAppRunner.Queue.PgMoves
import PyAppRunner.Sql.UniqueKey

/-! Unique keys: at most one job for each, and what a push that loses the race answers.

The index on `unique_key` keeps a second job with the same key out, whatever the clients do
at the same time. A push whose insert it refuses asks once more for the job that holds
the key, over the same connection. In autocommit that finds the winner. In the caller's
transaction it finds nothing out: the refused insert has aborted the transaction, and the
second lookup is refused as well. -/
namespace PyAppRunner.Queue.PgQueue
open Sql

section
variable {κ : Type} [DecidableEq κ] {w w' : World κ} {c : κ}

/-- What `retry_failed` puts back has no key. -/
def Pc.keyless : Pc → Prop
  | .retryInsert _ _ row => row.uniqueKey = none
  | _ => True

/-- No two jobs share a key, and `c` is not about to insert one the index was not asked about. -/
structure Indexed (c : κ) (w : World κ) : Prop where
  distinct : w.jobs.Distinct JobRow.uniqueKey
  keyless : (w.client c).pc.keyless

/-- The job under `id` holds `key`. -/
def Queued (key : String) (id : Nat) (w : World κ) : Prop :=
  Table.HasKey JobRow.uniqueKey key (w.jobs.slot id).committed

theorem idForUnique_eq_none {key : String} : w.idForUnique c key = none ↔
    ∀ i, ¬ Table.HasKey JobRow.uniqueKey key ((w.jobs.slot i).view c) := by
  unfold World.idForUnique
  rw [Option.map_eq_none_iff, List.head?_eq_none_iff, Table.rows_eq_nil]
  constructor
  · intro h i hkey
    obtain ⟨r, hr, hk⟩ := Option.bind_eq_some_iff.mp hkey
    simpa [hk] using h i r hr
  · intro h i r hview
    rw [decide_eq_false_iff_not]
    intro hk
    exact h i (Option.bind_eq_some_iff.mpr ⟨r, hview, hk⟩)

theorem idForUnique_eq_some {key : String} {id : Nat} (h : w.idForUnique c key = some id) :
    Table.HasKey JobRow.uniqueKey key ((w.jobs.slot id).view c) := by
  unfold World.idForUnique at h
  obtain ⟨⟨i, r⟩, hhead, rfl⟩ := Option.map_eq_some_iff.mp h
  have hmem := Table.mem_rows.mp (List.mem_of_mem_head? hhead)
  exact Option.bind_eq_some_iff.mpr ⟨r, hmem.1, by simpa using hmem.2⟩

theorem settled_of_not_waiting {key : String} (h : w.waitsForKey c key = false) {i : Nat} {d : κ} {v : Option JobRow}
    (hheld : (w.jobs.slot i).held = some (d, v)) (hd : d ≠ c) :
    Table.HasKey JobRow.uniqueKey key v ↔ Table.HasKey JobRow.uniqueKey key (w.jobs.slot i).committed := by
  have hi : i ∈ w.jobs.ids := by
    rw [Table.ids, List.mem_range]
    by_contra hgt
    rw [w.jobs.fresh i (by omega)] at hheld
    cases hheld
  unfold World.waitsForKey at h
  rw [List.any_eq_false] at h
  have hslot := h i hi
  simp only [hheld, Bool.and_eq_true, decide_eq_true_eq, not_and, ne_eq, not_not] at hslot
  unfold Table.HasKey
  simpa [hd] using hslot

/-- An insert that neither waits nor finds the key used may go ahead. -/
theorem free_of_insert {key : String} (hwait : w.waitsForKey c key = false) (hnone : w.idForUnique c key = none) :
    Table.Free JobRow.uniqueKey c key w.jobs where
  unseen := idForUnique_eq_none.mp hnone
  settled := fun _ _ _ hheld hd => settled_of_not_waiting hwait hheld hd

theorem distinct_lock {p : Nat → JobRow → Bool} {id : Nat} {r : JobRow} (h : w.jobs.Distinct JobRow.uniqueKey)
    (hcandidate : w.jobs.candidate c p before = some (id, r)) :
    (w.jobs.lock c fun i _ => i = id).Distinct JobRow.uniqueKey := by
  apply h.modify
  · intro r r' heq
    cases heq
    rfl
  · rw [← Bool.not_eq_true]
    intro hblocked
    obtain ⟨i, r', -, hi, htaken⟩ := Table.blocked_iff.mp hblocked
    have hid : i = id := by simpa using hi
    rw [hid, (Table.candidate_eq_some hcandidate).2.2] at htaken
    cases htaken

theorem distinct_delete {p : Nat → JobRow → Bool} (h : w.jobs.Distinct JobRow.uniqueKey)
    (hfree : ¬ w.jobs.blocked c p = true) : (w.jobs.modify c p fun _ => none).Distinct JobRow.uniqueKey := by
  apply h.modify
  · intro r r' heq
    cases heq
  · simpa using hfree

theorem distinct_update {p : Nat → JobRow → Bool} {f : JobRow → JobRow} (h : w.jobs.Distinct JobRow.uniqueKey)
    (hfree : ¬ w.jobs.blocked c p = true) (hkey : ∀ r, (f r).uniqueKey = r.uniqueKey) :
    (w.jobs.modify c p fun r => some (f r)).Distinct JobRow.uniqueKey := by
  apply h.modify
  · intro r r' heq
    cases heq
    exact hkey r
  · simpa using hfree

/-- Every edit keeps the index, also that of a retry: its row has no key. -/
theorem JobsEdit.distinct {pc : Pc} {jobs : Table κ JobRow} (h : JobsEdit c w pc jobs)
    (hd : w.jobs.Distinct JobRow.uniqueKey) (hpc : pc.keyless) : jobs.Distinct JobRow.uniqueKey := by
  cases h with
  | same => exact hd
  | commit => exact hd.commit c
  | rollback => exact hd.rollback c
  | push hfree => exact hd.insert fun key hkey => free_of_insert (hfree key hkey).1 (hfree key hkey).2
  | pushNow hfree => exact (hd.insert fun key hkey => free_of_insert (hfree key hkey).1 (hfree key hkey).2).commit c
  | lock hcandidate => exact distinct_lock hd hcandidate
  | claim hfree => exact distinct_update hd hfree fun _ => rfl
  | delete hfree => exact (distinct_delete hd hfree).commit c
  | release hfree =>
    exact Table.Distinct.commit (distinct_update (f := releaseRow _ _) hd hfree fun _ => rfl) c
  | move hfree => exact distinct_delete hd hfree
  | retry =>
    apply hd.insert
    intro key hkey
    rw [hpc] at hkey
    cases hkey

theorem Next.keyless {jobs : Table κ JobRow} {pc pc' : Pc} (h : Next c w jobs pc pc') : pc'.keyless := by
  cases h with
  | entry op =>
    cases op with
    | push r =>
      dsimp only [World.entry]
      split <;> trivial
    | _ => trivial
  | retry => rfl
  | _ => trivial

theorem indexed_step (decodes : String → Bool) (input : Input κ) (hc : input.client = some c) (h : Indexed c w) :
    Indexed c (w.step decodes input) := by
  obtain hsame | hmoves | hbroken := step_moves decodes hc
  · rw [hsame]
    exact h
  · exact ⟨hmoves.jobs.distinct h.distinct h.keyless, hmoves.next.keyless⟩
  · rw [hbroken]
    refine ⟨h.distinct.rollback c, ?_⟩
    simp [World.answer, World.goto, Pc.keyless]

/-- The index is kept for every client, and every client is where its program says. -/
structure Guarded (w : World κ) : Prop where
  consistent : Consistent w
  distinct : w.jobs.Distinct JobRow.uniqueKey
  keyless : ∀ c, (w.client c).pc.keyless

theorem step_guarded (decodes : String → Bool) (input : Input κ) (w : World κ) (h : Guarded w) :
    Guarded (w.step decodes input) := by
  have hconsistent := consistent_step decodes h.consistent input
  cases hc : input.client with
  | none =>
    cases input <;> cases hc
    exact ⟨hconsistent, h.distinct, h.keyless⟩
  | some c =>
    have hstep := indexed_step decodes input hc ⟨h.distinct, h.keyless c⟩
    refine ⟨hconsistent, hstep.distinct, ?_⟩
    intro d
    by_cases hd : d = c
    · rw [hd]
      exact hstep.keyless
    · rw [(step_steps decodes h.consistent input hc).others d hd]
      exact h.keyless d

theorem run_guarded (decodes : String → Bool) (inputs : List (Input κ)) :
    Guarded ((machine decodes).run (.start κ) inputs) := by
  apply Base.Machine.invariant_all (m := machine decodes) (step_guarded decodes)
  exact ⟨consistent_start, Table.distinct_empty, fun _ => trivial⟩

/-! ### Losing the race -/

/-- The insert of `c` is refused: job `id` is committed with its key. -/
structure Loses (c : κ) (key : String) (id : Nat) (w : World κ) : Prop where
  insert : ∃ row, (w.client c).pc = .pushInsert row ∧ row.uniqueKey = some key
  connected : (w.client c).conn ≠ .aborted
  ready : w.waitsForKey c key = false
  winner : Queued key id w

omit [DecidableEq κ] in
/-- A client that rests has no committed job. -/
theorem not_held_of_rests {i : Nat} {r : JobRow} (h : Rests c w) (hr : (w.jobs.slot i).committed = some r)
    (v : Option JobRow) : (w.jobs.slot i).held ≠ some (c, v) := by
  intro hheld
  unfold Rests at h
  split at h
  · have hnone := (h i v hheld).1
    rw [hr] at hnone
    cases hnone
  · exact h i v hheld

theorem found_of_queued {key : String} {id : Nat} (hrests : Rests c w) (hq : Queued key id w) :
    ∃ id', w.idForUnique c key = some id' := by
  cases hfound : w.idForUnique c key with
  | some id' => exact ⟨id', rfl⟩
  | none =>
    obtain ⟨r, hr, hk⟩ := Option.bind_eq_some_iff.mp hq
    have hview : (w.jobs.slot id).view c = some r := by
      rw [Table.view_of_not_held (not_held_of_rests hrests hr), hr]
    exact absurd (Option.bind_eq_some_iff.mpr ⟨r, hview, hk⟩) (idForUnique_eq_none.mp hfound id)

/-- What a client that rests finds under a key is the committed job that holds it. -/
theorem found_eq {key : String} {id id' : Nat} (hrests : Rests c w) (hd : w.jobs.Distinct JobRow.uniqueKey)
    (hq : Queued key id w) (hfound : w.idForUnique c key = some id') : id' = id := by
  have hkey := idForUnique_eq_some hfound
  by_contra hne
  by_cases hheld : ∃ v, (w.jobs.slot id').held = some (c, v)
  · obtain ⟨v, hv⟩ := hheld
    rw [show (w.jobs.slot id').view c = v by simp [Slot.view, hv]] at hkey
    obtain ⟨v', hv', -⟩ := hd.above id' id key c v hne hv hkey hq
    obtain ⟨r, hr, -⟩ := Option.bind_eq_some_iff.mp hq
    exact not_held_of_rests hrests hr v' hv'
  · rw [Table.view_of_not_held fun v hv => hheld ⟨v, hv⟩] at hkey
    exact hne (hd.committed id' id key hkey hq)

/-- The refused insert leaves the client before its second lookup, in autocommit or with its
transaction aborted. -/
theorem client_of_loses {key : String} {id : Nat} (decodes : String → Bool) (hw : Consistent w) (h : Loses c key id w) :
    (w.exec decodes c).client c =
      ⟨if (w.client c).conn = .autocommit then .autocommit else .aborted, .pushAgain key⟩ := by
  obtain ⟨row, hpc, hkey⟩ := h.insert
  have hrests : Rests c w := by
    have hok := hw.client c
    rw [ClientOk, hpc] at hok
    exact hok.1
  obtain ⟨id', hfound⟩ := found_of_queued hrests h.winner
  have hexec : w.exec decodes c = w.violated c key := by
    simp [World.exec, hpc, h.connected, hkey, h.ready, hfound]
  rw [hexec]
  unfold World.violated
  split
  · rename_i hconn
    simp [World.goto, hconn]
  · rename_i hconn
    have hopen : ¬ (w.client c).conn = .autocommit := hconn
    simp [World.goto, World.setConn, hopen]

theorem client_of_others (decodes : String → Bool) {others : List (Input κ)} (hw : Guarded w)
    (h : ∀ input ∈ others, input.client ≠ some c) : ((machine decodes).run w others).client c = w.client c := by
  induction others generalizing w with
  | nil => rfl
  | cons input rest ih =>
    rw [List.forall_mem_cons] at h
    have hone : (w.step decodes input).client c = w.client c := by
      cases hd : input.client with
      | none =>
        cases input <;> cases hd
        rfl
      | some d =>
        apply (step_steps decodes hw.consistent input hd).others
        intro hcd
        exact h.1 (hcd ▸ hd)
    exact (ih (step_guarded decodes input w hw) h.2).trans hone

theorem answers_answer (a : Answer) : (w.answer c a).answers = w.answers ++ [(c, a)] := rfl

/-- The second lookup answers the job that holds the key, unless it is refused. -/
theorem again_answers {key : String} {id : Nat} (decodes : String → Bool) (hw : Guarded w)
    (hpc : (w.client c).pc = .pushAgain key) (hq : Queued key id w) :
    (w.exec decodes c).answers = w.answers ++ [(c, if (w.client c).conn = .aborted then .raised else .id id)] := by
  by_cases hconn : (w.client c).conn = .aborted
  · simp [World.exec, hpc, hconn, answers_answer]
  · have hrests : Rests c w := by
      have hok := hw.consistent.client c
      rwa [ClientOk, hpc] at hok
    obtain ⟨id', hfound⟩ := found_of_queued hrests hq
    have hid : id' = id := found_eq hrests hw.distinct hq hfound
    simp [World.exec, hpc, hconn, hfound, answers_answer, hid]

/-- **No two jobs are ever queued under one key, and a push that loses the race for a key to a
job that is still there by its second lookup answers that job's id exactly when it was
made in autocommit.** -/
theorem lost_race_answers (decodes : String → Bool) :
    (∀ inputs key i j, Queued key i ((machine decodes).run (.start κ) inputs) →
      Queued key j ((machine decodes).run (.start κ) inputs) → i = j) ∧
    ∀ before c key id others, Loses c key id ((machine decodes).run (.start κ) before) →
      (∀ input ∈ others, input.client ≠ some c) →
      Queued key id ((machine decodes).run (.start κ) (before ++ .step c :: others)) →
      (((machine decodes).run (.start κ) (before ++ .step c :: others ++ [.step c])).answers =
          ((machine decodes).run (.start κ) (before ++ .step c :: others)).answers ++ [(c, .id id)] ↔
        (((machine decodes).run (.start κ) before).client c).conn = .autocommit) := by
  refine ⟨?_, ?_⟩
  · intro inputs key i j hi hj
    exact (run_guarded decodes inputs).distinct.committed i j key hi hj
  · intro before c key id others hloses hothers hq
    have hw : Guarded ((machine decodes).run (.start κ) before) := run_guarded decodes before
    have hw' : Guarded ((machine decodes).run (.start κ) (before ++ .step c :: others)) := run_guarded decodes _
    have hclient : ((machine decodes).run (.start κ) (before ++ .step c :: others)).client c =
        ⟨if (((machine decodes).run (.start κ) before).client c).conn = .autocommit then .autocommit else .aborted,
          .pushAgain key⟩ := by
      rw [Base.Machine.run_append, ← client_of_loses decodes hw.consistent hloses]
      exact client_of_others decodes (step_guarded decodes (.step c) _ hw) hothers
    have hanswers := again_answers decodes hw' (by rw [hclient]) hq
    have hlast : ∀ w : World κ, (machine decodes).run w [.step c] = w.exec decodes c := fun _ => rfl
    rw [Base.Machine.run_append, hlast, hanswers, hclient, List.append_cancel_left_eq]
    by_cases hconn : (((machine decodes).run (.start κ) before).client c).conn = .autocommit
    · simp [hconn]
    · simp [hconn]

end

/-! ### The race inside a transaction -/

def invoice : PushRequest where
  name := "invoice"
  payload := "\x7b\x7d"
  unique := some "invoice:7"

/-- Both look the key up and find it free; client 1 inserts first. -/
def raceRun (conn : List (Input Nat)) : List (Input Nat) :=
  conn ++ [.call 0 (.push invoice), .call 1 (.push invoice), .step 0, .step 1, .step 1]

theorem push_in_transaction_raises :
    Loses 0 "invoice:7" 1 ((machine fun _ => true).run (.start Nat) (raceRun [.begin 0])) ∧
    Queued "invoice:7" 1 ((machine fun _ => true).run (.start Nat) (raceRun [.begin 0] ++ .step 0 :: [])) ∧
    ((machine fun _ => true).run (.start Nat) (raceRun [.begin 0] ++ .step 0 :: [] ++ [.step 0])).answers =
      [(1, .id 1), (0, .raised)] := by
  exact ⟨⟨⟨pushRow 0 invoice, rfl, rfl⟩, by decide, rfl, rfl⟩, rfl, rfl⟩

theorem push_in_autocommit_answers :
    ((machine fun _ => true).run (.start Nat) (raceRun [] ++ .step 0 :: [] ++ [.step 0])).answers =
      ((machine fun _ => true).run (.start Nat) (raceRun [] ++ .step 0 :: [])).answers ++ [(0, .id 1)] := by
  refine ((lost_race_answers fun _ => true).2 (raceRun []) 0 "invoice:7" 1 [] ?_ ?_ ?_).mpr rfl
  · exact ⟨⟨pushRow 0 invoice, rfl, rfl⟩, by decide, rfl, rfl⟩
  · intro input hmem
    cases hmem
  · rfl

end PyAppRunner.Queue.PgQueue
