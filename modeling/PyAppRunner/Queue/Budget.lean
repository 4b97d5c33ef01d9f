import PyAppRunner.Queue.PgFence
import PyAppRunner.Queue.RedisMoves

/-! The attempt budget, on both drivers.

Claiming a job is the attempt, so `attempts` of a job is how often it was handed out
since it was pushed, or put back by `retry`. On Redis a job keeps its id when it is
put back, and the claims counted are those of its present generation; on Postgres
it comes back as another row. Neither driver claims a job whose budget is spent: it
goes to the failed jobs as it is. -/
namespace PyAppRunner.Queue
open Base

/-! ### Redis -/

namespace RedisQueue
open Redis

/-- How often the job was handed out since it was pushed or last put back. -/
def handouts (w : World) (id : Nat) : Nat :=
  w.claims.countP fun c => decide (c.job.id = id) && decide (c.generation = w.retries id)

structure Budget (w : World) : Prop where
  max : ∀ id h, w.keys.job id = some h → 1 ≤ h.maxAttempts
  attempts_le : ∀ id h, w.keys.job id = some h → h.attempts ≤ h.maxAttempts
  counted : ∀ id h, w.keys.job id = some h → handouts w id = h.attempts
  generation_le : ∀ c ∈ w.claims, c.generation ≤ w.retries c.job.id

theorem budget_empty : Budget World.empty := by
  constructor <;> simp [World.empty, Keyspace.empty]

theorem handouts_eq_zero {w : World} {id : Nat} (h : ∀ c ∈ w.claims, c.job.id = id →
    c.generation ≠ w.retries id) : handouts w id = 0 := by
  rw [handouts, List.countP_eq_zero]
  intro c hc
  by_cases hid : c.job.id = id
  · simp [hid, h c hc hid]
  · simp [hid]

/-- A move that makes no claim and puts nothing back, and after which every hash either
has the budget it had or is new. -/
theorem Budget.keep {w w' : World} (hb : Budget w) (hclaims : w'.claims = w.claims)
    (hretries : w'.retries = w.retries) (hjob : ∀ id h, w'.keys.job id = some h →
      (∃ h₀, w.keys.job id = some h₀ ∧ h₀.attempts = h.attempts ∧ h₀.maxAttempts = h.maxAttempts) ∨
      1 ≤ h.maxAttempts ∧ h.attempts = 0 ∧ ∀ c ∈ w.claims, c.job.id ≠ id) : Budget w' := by
  have hcount : ∀ id, handouts w' id = handouts w id := by
    intro id
    rw [handouts, handouts, hclaims, hretries]
  constructor
  · intro id h hid
    rcases hjob id h hid with ⟨h₀, hid₀, -, hmax⟩ | ⟨hmax, -⟩
    · rw [← hmax]
      exact hb.max id h₀ hid₀
    · exact hmax
  · intro id h hid
    rcases hjob id h hid with ⟨h₀, hid₀, hattempts, hmax⟩ | ⟨_, hzero, _⟩
    · rw [← hmax, ← hattempts]
      exact hb.attempts_le id h₀ hid₀
    · omega
  · intro id h hid
    rw [hcount]
    rcases hjob id h hid with ⟨h₀, hid₀, hattempts, -⟩ | ⟨_, hzero, hnone⟩
    · rw [← hattempts]
      exact hb.counted id h₀ hid₀
    · rw [hzero]
      exact handouts_eq_zero fun c hc hid => absurd hid (hnone c hc)
  · rw [hclaims, hretries]
    exact hb.generation_le

theorem Budget.claim {w : World} (hb : Budget w) {a : ReserveArgs} {e : Entry Nat} {h : JobHash}
    (hjob : w.keys.job e.value = some h) (hleft : h.attempts < h.maxAttempts) :
    Budget (w.handOut (some ⟨e.value, e.id, claimHash a e.id h⟩,
      w.keys.hset e.value (claimHash a e.id h))) := by
  have hcount : ∀ id, handouts (w.handOut (some ⟨e.value, e.id, claimHash a e.id h⟩,
      w.keys.hset e.value (claimHash a e.id h))) id = handouts w id + if id = e.value then 1 else 0 := by
    intro id
    rw [handouts, World.handOut, List.countP_append, List.countP_singleton]
    congr 1
    by_cases hid : id = e.value
    · subst hid
      simp [toJob]
    · simp [toJob, hid, Ne.symm hid]
  constructor
  · intro id h' hid
    simp only [World.handOut, Keyspace.job_hset] at hid
    split at hid
    · cases hid
      exact hb.max e.value h hjob
    · exact hb.max id h' hid
  · intro id h' hid
    simp only [World.handOut, Keyspace.job_hset] at hid
    split at hid
    · cases hid
      exact hleft
    · exact hb.attempts_le id h' hid
  · intro id h' hid
    rw [hcount]
    simp only [World.handOut, Keyspace.job_hset] at hid
    split at hid
    · rename_i heq
      cases hid
      subst id
      rw [if_pos rfl, hb.counted e.value h hjob]
      rfl
    · rename_i hne
      rw [if_neg hne, hb.counted id h' hid]
      rfl
  · intro c hc
    rcases List.mem_append.mp hc with hc | hc
    · exact hb.generation_le c hc
    · rw [List.mem_singleton.mp hc]
      exact le_refl (w.retries e.value)

/-- A job that is put back starts a generation of which no claim was made. -/
theorem Budget.requeue {w : World} (hb : Budget w) {ms id maxAttempts : Nat} {now : Int} {h : JobHash}
    (hmax : 1 ≤ maxAttempts) :
    Budget { w with
      keys := ((w.keys.unfail id).enqueue ms (requeueQueue h) 0 id
        (requeueHash maxAttempts now h)).saddQueue (requeueQueue h)
      retries := Function.update w.retries id (w.retries id + 1) } := by
  have hcount : ∀ id', id' ≠ id → handouts {w with
      retries := Function.update w.retries id (w.retries id + 1)} id' = handouts w id' := by
    intro id' hne
    simp [handouts, Function.update_of_ne hne]
  constructor
  · intro id' h' hid
    simp only [Keyspace.frame_saddQueue, Keyspace.job_enqueue, Keyspace.frame_unfail] at hid
    split at hid
    · cases hid
      exact hmax
    · exact hb.max id' h' hid
  · intro id' h' hid
    simp only [Keyspace.frame_saddQueue, Keyspace.job_enqueue, Keyspace.frame_unfail] at hid
    split at hid
    · cases hid
      exact Nat.zero_le _
    · exact hb.attempts_le id' h' hid
  · intro id' h' hid
    simp only [Keyspace.frame_saddQueue, Keyspace.job_enqueue, Keyspace.frame_unfail] at hid
    split at hid
    · rename_i heq
      cases hid
      subst id'
      -- The new generation is above that of every claim so far.
      refine handouts_eq_zero fun c hc hcid => ?_
      have := hb.generation_le c hc
      rw [hcid] at this
      simp only [Function.update_self]
      omega
    · rename_i hne
      rw [← hb.counted id' h' hid]
      exact hcount id' hne
  · intro c hc
    have := hb.generation_le c hc
    by_cases hid : c.job.id = id
    · simp only [hid, Function.update_self] at this ⊢
      omega
    · simp only [Function.update_of_ne hid]
      exact this

theorem Budget.move {w w' : World} (hm : Move anyCall w w') (hw : Wf w) (hb : Budget w) : Budget w' := by
  have hnew : ∀ c ∈ w.claims, c.job.id ≠ w.keys.seq + 1 := by
    intro c hc
    have := hw.claim_le c hc
    omega
  cases hm with
  | claim a l e h hok hentry hjob hlapsed hleft => exact hb.claim hjob hleft
  | requeue ms id maxAttempts now h hfailed hjob hmax => exact hb.requeue hmax
  | pushDelayed a hqueue hmax hfree hlate =>
    exact hb.keep rfl rfl (by simp only [World.put, newHash, Keyspace.frame_delay, job_create]; grind)
  | pushReady ms a hqueue hmax hfree hdue =>
    exact hb.keep rfl rfl (by simp only [World.put, newHash, Keyspace.job_enqueue, job_create]; grind)
  | promote ms q id h hdelayed hjob =>
    exact hb.keep rfl rfl (by simp only [World.put, Keyspace.job_enqueue, Keyspace.frame_undelay]; grind)
  | park q l e h now hentry hjob hheld =>
    refine hb.keep rfl rfl ?_
    simp only [World.put, park, Keyspace.frame_remove, Keyspace.job_hset, Keyspace.frame_delay]
    grind
  | exhaust q l e h now failedAt hentry hjob hlapsed hspent =>
    exact hb.keep rfl rfl (by simp only [World.put, Keyspace.job_failJob, Keyspace.frame_remove]; grind)
  | complete n c h hok hclaim hheld =>
    refine hb.keep rfl rfl ?_
    simp only [World.put, completed, Keyspace.frame_remove, Keyspace.frame_freeUnique, Keyspace.job_del]
    grind
  | release n c h moment delay error hok hclaim hheld =>
    obtain ⟨hjob, -⟩ := held_eq_some.mp hheld
    refine hb.keep rfl rfl ?_
    simp only [World.put, released, Keyspace.frame_remove, Keyspace.frame_delay, Keyspace.job_hset]
    grind
  | fail n c h moment error hok hclaim hheld =>
    obtain ⟨hjob, -⟩ := held_eq_some.mp hheld
    exact hb.keep rfl rfl (by simp only [World.put, Keyspace.job_failJob, Keyspace.frame_remove]; grind)
  | forget id hfailed =>
    exact hb.keep rfl rfl (by simp only [World.put, Keyspace.job_del, Keyspace.frame_unfail]; grind)
  | freeUnique | dropDelayed | regroup | dropTombstone | dropFailed =>
    exact hb.keep rfl rfl fun _ h hid => .inl ⟨h, hid, rfl, rfl⟩

theorem budget_run (calls : List Call) : Budget (machine.run .empty calls) :=
  (Machine.invariant_all (m := machine) (I := fun w => Wf w ∧ Budget w)
    (fun c w hw => (any_moves c w).invariant (I := fun w => Wf w ∧ Budget w)
      (fun _ _ hm hi => ⟨hi.1.move hm, hi.2.move hm hi.1⟩) hw)
    ⟨wf_empty, budget_empty⟩ calls).2

/-- A job whose budget is spent, found by a round of the reserve script and not held any
more, is failed with its hash kept, and nothing is handed out. -/
theorem round_exhausted {ms : Nat} {a : ReserveArgs} {level : Int} {k k' : Keyspace} {e : Entry Nat}
    {h : JobHash} (htake : take ms a level k = (some e, k')) (hjob : k.job e.value = some h)
    (hlapsed : h.reservedUntil ≤ a.now) (hspent : h.maxAttempts ≤ h.attempts) :
    ∃ k'', round ms a level k = (.next, k'') ∧ e.value ∈ k''.failed ∧
      ∃ h', k''.job e.value = some h' ∧ h'.payload = h.payload ∧ h'.attempts = h.attempts := by
  have hk' : k'.job = k.job := by
    have := congrArg Prod.snd htake
    simp only [take] at this
    split at this <;> rw [← this] <;> rfl
  have hround : round ms a level k = settle a level e k' := by simp only [round, htake]
  have hlate : ¬ a.now < h.reservedUntil := by omega
  refine ⟨(k'.remove a.queue level e.id).failJob e.value h exhaustedError a.failedAt a.now, ?_, ?_, ?_⟩
  · rw [hround, settle, hk', hjob]
    simp only [if_neg hlate, if_pos hspent]
  · rw [Keyspace.mem_failJob]
    exact .inl rfl
  · refine ⟨{h with
      uniqueKey := "", error := exhaustedError, failedAt := a.failedAt,
      reservedUntil := 0, reservedBy := "", entry := none}, ?_, rfl, rfl⟩
    rw [Keyspace.job_failJob, if_pos rfl]

end RedisQueue

/-! ### Postgres -/

namespace PgQueue
open Sql

/-- How often the row was handed out. -/
def handouts (claims : List Claim) (i : Nat) : Nat := claims.countP fun c => c.job.id = i

structure Budget (l : Ledger) : Prop where
  max : ∀ i r, l.jobs i = some r → 1 ≤ r.maxAttempts
  attempts_le : ∀ i r, l.jobs i = some r → r.attempts ≤ r.maxAttempts
  counted : ∀ i r, l.jobs i = some r → handouts l.claims i = r.attempts

/-- Every row is one that was there, with its budget, or a new one. -/
theorem Budget.rows {l l' : Ledger} (hb : Budget l) (hclaims : l'.claims = l.claims)
    (hrows : ∀ i r, l'.jobs i = some r →
      (∃ r₀, l.jobs i = some r₀ ∧ r₀.attempts = r.attempts ∧ r₀.maxAttempts = r.maxAttempts) ∨
      r.New ∧ Unclaimed l.claims i) : Budget l' := by
  constructor
  · intro i r hr
    rcases hrows i r hr with ⟨r₀, hr₀, -, hmax⟩ | ⟨hnew, -⟩
    · rw [← hmax]
      exact hb.max i r₀ hr₀
    · exact hnew.max
  · intro i r hr
    rcases hrows i r hr with ⟨r₀, hr₀, hattempts, hmax⟩ | ⟨hnew, -⟩
    · rw [← hmax, ← hattempts]
      exact hb.attempts_le i r₀ hr₀
    · rw [hnew.attempts]
      exact Nat.zero_le _
  · intro i r hr
    rw [hclaims]
    rcases hrows i r hr with ⟨r₀, hr₀, hattempts, -⟩ | ⟨hnew, hun⟩
    · rw [← hattempts]
      exact hb.counted i r₀ hr₀
    · rw [hnew.attempts, handouts, List.countP_eq_zero]
      intro c hc
      simp [hun c hc]

theorem Budget.claim {l : Ledger} (hb : Budget l) {a : Asking} {moment : Int} {i : Nat} {r : JobRow}
    (hrow : l.jobs i = some r) (hleft : r.attempts < r.maxAttempts) :
    Budget {l with
      jobs := Function.update l.jobs i (some (claimRow a moment r))
      claims := l.claims ++ [claimOf a moment i r]} := by
  constructor
  · intro j r' hr'
    simp only [Function.update_apply] at hr'
    split at hr'
    · cases hr'
      exact hb.max i r hrow
    · exact hb.max j r' hr'
  · intro j r' hr'
    simp only [Function.update_apply] at hr'
    split at hr'
    · cases hr'
      exact hleft
    · exact hb.attempts_le j r' hr'
  · intro j r' hr'
    simp only [Function.update_apply] at hr'
    simp only [handouts, List.countP_append, List.countP_singleton, claimOf, toJob]
    split at hr'
    · rename_i hj
      cases hr'
      subst hj
      have := hb.counted j r hrow
      simp only [handouts] at this
      simp [this, claimRow]
    · rename_i hj
      have := hb.counted j r' hr'
      simp only [handouts] at this
      simp [this, Ne.symm hj]

theorem update_none_eq_some {f : Nat → Option JobRow} {i j : Nat} {r : JobRow}
    (h : Function.update f i none j = some r) : f j = some r := by
  rw [Function.update_apply] at h
  split at h
  · cases h
  · exact h

theorem Budget.step {l l' : Ledger} (hs : Atomic l l') (hb : Budget l) : Budget l' := by
  cases hs with
  | wait micros => exact hb.rows rfl fun i r hr => .inl ⟨r, hr, rfl, rfl⟩
  | insert jobs' hnew =>
    refine hb.rows rfl fun i r hr => ?_
    rcases hnew i with hsame | ⟨_, hun, r', hr', hfresh⟩
    · exact .inl ⟨r, hsame ▸ hr, rfl, rfl⟩
    · obtain rfl := Option.some.inj (hr'.symm.trans hr)
      exact .inr ⟨hfresh, hun⟩
  | claim a moment i r hrow hlapsed hleft hnow => exact hb.claim hrow hleft
  | exhaust moment i r hrow hspent =>
    exact hb.rows rfl fun j r' hr' => .inl ⟨r', update_none_eq_some hr', rfl, rfl⟩
  | finish n c r hclaim hrow howned =>
    exact hb.rows rfl fun j r' hr' => .inl ⟨r', update_none_eq_some hr', rfl, rfl⟩
  | release n c r availableAt error hclaim hrow howned =>
    refine hb.rows rfl fun j r' hr' => .inl ?_
    simp only [Function.update_apply] at hr'
    split at hr'
    · rename_i hj
      cases hr'
      exact ⟨r, hj ▸ hrow, rfl, rfl⟩
    · exact ⟨r', hr', rfl, rfl⟩

theorem budget_run {κ : Type} [DecidableEq κ] (decodes : String → Bool) (inputs : List (Input κ)) :
    Budget ((machine decodes).run (.start κ) inputs).ledger :=
  ledger_invariant (fun _ _ hs h => h.step hs)
    (by constructor <;> simp [World.ledger, World.start, Table.empty, Slot.blank]) decodes inputs

/-! An exhausted candidate is on its way to the failed table in four more steps of its
client, whatever the other clients do meanwhile. -/

section
variable {κ : Type} [DecidableEq κ] {x : κ} {w : World κ}

/-- Client `x` has found row `id` exhausted, as `r`, and has this many statements to go
before the row is in the failed table. -/
def Exhausting (x : κ) (a : Asking) (moment : Int) (id : Nat) (r : JobRow) (w : World κ) : Nat → Prop
  | 4 => (w.client x).pc = .moveDelete (.exhausted a moment id) ∧ w.jobs.Holds x id r (some r)
  | 3 => (w.client x).pc = .moveClock (.exhausted a moment id) r ∧ w.jobs.Holds x id r none
  | 2 => ∃ failedAt, (w.client x).pc = .moveInsert (.exhausted a moment id) r failedAt ∧
    w.jobs.Holds x id r none
  | 1 => (w.client x).pc = .moveCommit (.exhausted a moment id) (some r) ∧ w.jobs.Holds x id r none ∧
    ∃ j failedAt, (w.failed.slot j).held = some (x, some (failedRow (fitError exhaustedError) failedAt r))
  | 0 => (w.jobs.slot id).committed = none ∧
    ∃ j failedAt, (w.failed.slot j).committed = some (failedRow (fitError exhaustedError) failedAt r)
  | _ => False

omit [DecidableEq κ] in
/-- The row is there and the client has it, until the last statement. -/
theorem Exhausting.holds {a : Asking} {moment : Int} {id : Nat} {r : JobRow} {k : Nat}
    (h : Exhausting x a moment id r w (k + 1)) : ∃ v, w.jobs.Holds x id r v := by
  match k, h with
  | 3, ⟨_, hholds⟩ => exact ⟨_, hholds⟩
  | 2, ⟨_, hholds⟩ => exact ⟨_, hholds⟩
  | 1, ⟨_, _, hholds⟩ => exact ⟨_, hholds⟩
  | 0, ⟨_, hholds, _⟩ => exact ⟨_, hholds⟩

/-- Other clients change nothing about it. -/
theorem Exhausting.other (decodes : String → Bool) (hw : Consistent w) (hf : ∀ c, FailedOk c w)
    {a : Asking} {moment : Int} {id : Nat} {r : JobRow} {k : Nat}
    (h : Exhausting x a moment id r w (k + 1)) (input : Input κ) (hne : input.client ≠ some x) :
    Exhausting x a moment id r (w.step decodes input) (k + 1) := by
  rcases hc : input.client with _ | d
  · cases input <;> cases hc
    exact h
  · have hxd : x ≠ d := by
      rintro rfl
      exact hne hc
    have hs := step_steps decodes hw input hc
    have hfs := failedSteps_step decodes (hf d) input hc
    match k, h with
    | 3, ⟨hpc, hholds⟩ => exact ⟨by rw [hs.others x hxd]; exact hpc, hs.jobs.holds hxd hholds⟩
    | 2, ⟨hpc, hholds⟩ => exact ⟨by rw [hs.others x hxd]; exact hpc, hs.jobs.holds hxd hholds⟩
    | 1, ⟨failedAt, hpc, hholds⟩ =>
      exact ⟨failedAt, by rw [hs.others x hxd]; exact hpc, hs.jobs.holds hxd hholds⟩
    | 0, ⟨hpc, hholds, j, failedAt, hheld⟩ =>
      refine ⟨by rw [hs.others x hxd]; exact hpc, hs.jobs.holds hxd hholds, j, failedAt, ?_⟩
      rw [hfs.keeps.held hxd (.inl hheld)]
      exact hheld

/-- Each statement of the client itself is one of those to go. -/
theorem Exhausting.own (decodes : String → Bool) (hw : Consistent w) {a : Asking} {moment : Int}
    {id : Nat} {r : JobRow} {k : Nat} (h : Exhausting x a moment id r w (k + 1)) :
    Exhausting x a moment id r (w.step decodes (.step x)) k := by
  have hok := hw.client x
  unfold ClientOk at hok
  show Exhausting x a moment id r (w.exec decodes x) k
  -- The four statements that move an exhausted row: the delete, the clock, the insert and the commit.
  match k, h with
  | 3, ⟨hpc, hholds⟩ =>
    rw [hpc] at hok
    obtain ⟨r', hholds', hspent⟩ := hok
    obtain rfl : r' = r := by
      have := hholds.slot.symm.trans hholds'.slot
      simpa using this.symm
    have hp : w.moveWhere (.exhausted a moment id) id r' = true := by
      simp only [World.moveWhere, hspent, decide_true, Bool.and_self]
    have hunique := moveWhere_unique _ hholds.view hp
    have hblocked : w.jobs.blocked x (w.moveWhere (.exhausted a moment id)) = false :=
      not_blocked_of_holds hholds fun j r'' hj => by
        simp only [World.moveWhere, Bool.and_eq_true, decide_eq_true_eq] at hj
        exact hj.1
    have hmem : (id, r') ∈ w.jobs.rows x (w.moveWhere (.exhausted a moment id)) :=
      Table.mem_rows.mpr ⟨hholds.view, hp⟩
    have hexec : w.exec decodes x = w.moveDelete x (.exhausted a moment id) := by
      simp only [World.exec, hpc]
    rw [hexec, World.moveDelete]
    simp only [hblocked, Bool.false_eq_true, if_false]
    split
    · rename_i hnil
      rw [hnil] at hmem
      cases hmem
    · rename_i j r'' rest hrows
      obtain ⟨hview, hpj⟩ := Table.mem_rows.mp (hrows ▸ List.mem_cons_self (a := (j, r'')) (l := rest))
      obtain rfl := (hunique j r'' hview).mp hpj
      obtain rfl := Option.some.inj (hview.symm.trans hholds.view)
      exact ⟨by rw [client_goto], hholds.modify hunique⟩
  | 2, ⟨hpc, hholds⟩ =>
    have hexec : w.exec decodes x = w.goto x (.moveInsert (.exhausted a moment id) r w.now) := by
      simp only [World.exec, hpc]
    rw [hexec]
    exact ⟨w.now, by rw [client_goto], hholds⟩
  | 1, ⟨failedAt, hpc, hholds⟩ =>
    have hexec : w.exec decodes x = {w with
        failed := (w.failed.insert x (failedRow (fitError exhaustedError) failedAt r)).2}.goto x
          (.moveCommit (.exhausted a moment id) (some r)) := by
      simp only [World.exec, hpc]
      rfl
    rw [hexec]
    refine ⟨by rw [client_goto], hholds, w.failed.seq + 1, failedAt, ?_⟩
    simp [World.goto, Table.insert, Slot.write]
  | 0, ⟨hpc, hholds, j, failedAt, hheld⟩ =>
    have hexec : w.exec decodes x = w.moveCommit x (.exhausted a moment id) (some r) := by
      simp only [World.exec, hpc]
    rw [hexec]
    refine ⟨?_, j, failedAt, ?_⟩
    · show ((w.jobs.commit x).slot id).committed = none
      rw [hholds.committed_commit, if_pos rfl]
    · show ((w.failed.slot j).commit x).committed = _
      simp [Slot.commit, hheld]

/-- Client `x` takes `n` steps in these inputs, and does nothing else. -/
def OwnSteps (x : κ) (inputs : List (Input κ)) (n : Nat) : Prop :=
  (∀ i ∈ inputs, i.client = some x → i = .step x) ∧ inputs.countP (fun i => i.client = some x) = n

/-- A row whose budget is spent is not claimed. -/
theorem Atomic.handouts_eq {l l' : Ledger} (hs : Atomic l l') {id : Nat} {r : JobRow}
    (hrow : l.jobs id = some r) (hspent : r.maxAttempts ≤ r.attempts) :
    handouts l'.claims id = handouts l.claims id := by
  cases hs with
  | claim a moment i r' hrow' hlapsed hleft hnow =>
    have hne : i ≠ id := by
      rintro rfl
      obtain rfl := Option.some.inj (hrow.symm.trans hrow')
      omega
    simp [handouts, List.countP_append, claimOf, toJob, hne]
  | wait | insert | exhaust | finish | release => rfl

/-- The row is not claimed by anyone on the way, and each step of the client counts. -/
theorem Exhausting.run (decodes : String → Bool) {a : Asking} {moment : Int} {id : Nat} {r : JobRow}
    (hspent : r.maxAttempts ≤ r.attempts) {n : Nat} {inputs : List (Input κ)} {w : World κ} {k : Nat}
    (hw : Consistent w) (hf : ∀ c, FailedOk c w) (hown : OwnSteps x inputs k)
    (h : Exhausting x a moment id r w (n + 1 + k)) :
    Exhausting x a moment id r ((machine decodes).run w inputs) (n + 1) ∧
      Consistent ((machine decodes).run w inputs) ∧
      handouts ((machine decodes).run w inputs).claims id = handouts w.claims id := by
  induction inputs generalizing w k with
  | nil =>
    obtain rfl : k = 0 := hown.2.symm
    exact ⟨h, hw, rfl⟩
  | cons input rest ih =>
    have hstep : Exhausting x a moment id r w (n + k + 1) := by
      rw [show n + k + 1 = n + 1 + k by omega]
      exact h
    have hw' := consistent_step decodes hw input
    have hf' := failedOk_step decodes hw hf input
    have hsame : handouts (w.step decodes input).claims id = handouts w.claims id := by
      obtain ⟨v, hholds⟩ := hstep.holds
      exact (step_atomic decodes hw input).handouts_eq (by simp [World.ledger, hholds.slot]) hspent
    have hrest : ∀ i ∈ rest, i.client = some x → i = .step x :=
      fun i hi => hown.1 i (List.mem_cons_of_mem _ hi)
    by_cases hx : input.client = some x
    · obtain rfl := hown.1 input List.mem_cons_self hx
      have hcount := hown.2
      rw [List.countP_cons, if_pos (by simpa using hx)] at hcount
      obtain ⟨hrun, hcons, hhand⟩ := ih (k := k - 1) hw' hf' ⟨hrest, by omega⟩ (by
        rw [show n + 1 + (k - 1) = n + k by omega]
        exact hstep.own decodes hw)
      exact ⟨hrun, hcons, hhand.trans hsame⟩
    · have hcount := hown.2
      rw [List.countP_cons, if_neg (by simpa using hx)] at hcount
      obtain ⟨hrun, hcons, hhand⟩ := ih (k := k) hw' hf' ⟨hrest, hcount⟩ (by
        rw [show n + 1 + k = n + k + 1 by omega]
        exact hstep.other decodes hw hf input hx)
      exact ⟨hrun, hcons, hhand.trans hsame⟩

/-- A candidate found exhausted is in the failed table after five statements of its client,
with its payload as it was, and is handed out to nobody meanwhile. -/
theorem candidate_exhausted (decodes : String → Bool) (hw : Consistent w) (hf : ∀ c, FailedOk c w)
    {a : Asking} {moment : Int} {id : Nat} {r : JobRow} (hpc : (w.client x).pc = .candidate a moment)
    (hfound : w.jobs.candidate x (claimable a.queue moment) before = some (id, r))
    (hspent : r.maxAttempts ≤ r.attempts) {rest : List (Input κ)} (hown : OwnSteps x rest 3) :
    let w' := (machine decodes).run w (.step x :: rest ++ [.step x])
    (w'.jobs.slot id).committed = none ∧
      (∃ j failedAt, (w'.failed.slot j).committed = some (failedRow (fitError exhaustedError) failedAt r)) ∧
      handouts w'.claims id = handouts w.claims id := by
  have hnone : w.jobs.HoldsNone x := by
    have hok := hw.client x
    unfold ClientOk at hok
    rw [hpc] at hok
    exact hok.1
  obtain ⟨hview, -, -⟩ := Table.candidate_eq_some hfound
  have hcommitted : (w.jobs.slot id).committed = some r := (hnone.view id).symm.trans hview
  have hexec : w.step decodes (.step x) = ({w with jobs := w.jobs.lock x fun i _ => i = id} : World κ).goto x
      (.moveDelete (.exhausted a moment id)) := by
    simp only [World.step, World.exec, hpc, World.candidate, hfound, if_pos hspent]
  have hfirst : Exhausting x a moment id r (w.step decodes (.step x)) 4 := by
    rw [hexec]
    exact ⟨by rw [client_goto], hnone.modify hcommitted (by simp)⟩
  have hsame : handouts (w.step decodes (.step x)).claims id = handouts w.claims id := by rw [hexec]; rfl
  obtain ⟨hrun, hcons, hhand⟩ := Exhausting.run decodes hspent (n := 0)
    (consistent_step decodes hw (.step x)) (failedOk_step decodes hw hf (.step x)) hown hfirst
  have hlast := hrun.own decodes hcons
  obtain ⟨v, hholds⟩ := hrun.holds
  have hrow : ((machine decodes).run (w.step decodes (.step x)) rest).ledger.jobs id = some r := by
    simp [World.ledger, hholds.slot]
  have hlastHand := (step_atomic decodes hcons (.step x)).handouts_eq hrow hspent
  have hall : (machine decodes).run w (.step x :: rest ++ [.step x]) =
      ((machine decodes).run (w.step decodes (.step x)) rest).step decodes (.step x) := by
    rw [List.cons_append, Machine.run, Machine.run_append]
    rfl
  simp only [hall]
  exact ⟨hlast.1, hlast.2, hlastHand.trans (hhand.trans hsame)⟩

end

end PgQueue

/-- **The attempt budget holds on both drivers.** In every state, every job that exists has
a budget of at least one attempt, has used no more than that, and was handed out exactly as
often as its attempts say; one that is found with its budget spent goes to the failed jobs
with its payload unchanged, and is not handed out. -/
theorem attempt_budget :
    (∀ calls id h, (RedisQueue.machine.run .empty calls).keys.job id = some h →
      1 ≤ h.maxAttempts ∧ h.attempts ≤ h.maxAttempts ∧
        RedisQueue.handouts (RedisQueue.machine.run .empty calls) id = h.attempts) ∧
    (∀ ms a level k k' e h, RedisQueue.take ms a level k = (some e, k') → k.job e.value = some h →
      h.reservedUntil ≤ a.now → h.maxAttempts ≤ h.attempts →
      ∃ k'', RedisQueue.round ms a level k = (.next, k'') ∧ e.value ∈ k''.failed ∧
        ∃ h', k''.job e.value = some h' ∧ h'.payload = h.payload ∧ h'.attempts = h.attempts) ∧
    (∀ (κ : Type) [DecidableEq κ] (decodes : String → Bool) (inputs : List (PgQueue.Input κ)) i r,
      (((PgQueue.machine decodes).run (.start κ) inputs).jobs.slot i).committed = some r →
      1 ≤ r.maxAttempts ∧ r.attempts ≤ r.maxAttempts ∧
        PgQueue.handouts ((PgQueue.machine decodes).run (.start κ) inputs).claims i = r.attempts) ∧
    (∀ (κ : Type) [DecidableEq κ] (decodes : String → Bool) (inputs : List (PgQueue.Input κ)) x a moment id r,
      (((PgQueue.machine decodes).run (.start κ) inputs).client x).pc = .candidate a moment →
      ((PgQueue.machine decodes).run (.start κ) inputs).jobs.candidate x
        (PgQueue.claimable a.queue moment) PgQueue.before = some (id, r) →
      r.maxAttempts ≤ r.attempts → ∀ rest, PgQueue.OwnSteps x rest 3 →
      let w' := (PgQueue.machine decodes).run (.start κ) (inputs ++ (.step x :: rest ++ [.step x]))
      (w'.jobs.slot id).committed = none ∧
        (∃ j f, (w'.failed.slot j).committed = some f ∧ f.payload = r.payload ∧ f.attempts = r.attempts) ∧
        PgQueue.handouts w'.claims id =
          PgQueue.handouts ((PgQueue.machine decodes).run (.start κ) inputs).claims id) := by
  refine ⟨?_, ?_, ?_, ?_⟩
  · intro calls id h hjob
    have hb := RedisQueue.budget_run calls
    exact ⟨hb.max id h hjob, hb.attempts_le id h hjob, hb.counted id h hjob⟩
  · intro ms a level k k' e h htake hjob hlapsed hspent
    exact RedisQueue.round_exhausted htake hjob hlapsed hspent
  · intro κ _ decodes inputs i r hrow
    have hb := PgQueue.budget_run decodes inputs
    exact ⟨hb.max i r hrow, hb.attempts_le i r hrow, hb.counted i r hrow⟩
  · intro κ _ decodes inputs x a moment id r hpc hfound hspent rest hown
    rw [Machine.run_append]
    obtain ⟨hgone, ⟨j, failedAt, hfailed⟩, hhand⟩ := PgQueue.candidate_exhausted decodes
      (PgQueue.consistent_run decodes inputs) (PgQueue.failedOk_run decodes inputs) hpc hfound hspent hown
    exact ⟨hgone, ⟨j, _, hfailed, rfl, rfl⟩, hhand⟩

/-- On Redis: a job with a budget of one attempt is claimed for a second. -/
def RedisQueue.spentRun : List RedisQueue.Call :=
  [.push 1000 ⟨1, ""⟩ {name := "a", payload := "\x7b\x7d", maxAttempts := 1},
    .reserve 1000 ⟨1, ""⟩ "default" 1 "w"]

/-- On Postgres: the same, and a second later client 1 looks for a candidate. -/
def PgQueue.spentRun : List (PgQueue.Input Nat) :=
  [.call 0 (.push {name := "a", payload := "\x7b\x7d", maxAttempts := 1}), .step 0] ++
    PgQueue.reserveSteps 0 1 ++
    [.tick 1000000, .call 1 (.reserve ["default"] 300 "w"), .step 1, .step 1]

/-- A second later the next round on Redis fails the job, and client 1's steps on
Postgres move it to the failed rows; on neither is it handed out again. -/
theorem spent_job_failed :
    (∃ k, RedisQueue.round 2000 (RedisQueue.reserveArgs ⟨2, ""⟩ "default" 1 "v") 0
        (RedisQueue.machine.run .empty RedisQueue.spentRun).keys = (.next, k) ∧ 1 ∈ k.failed) ∧
    ((((PgQueue.machine fun _ => true).run (.start Nat)
        (PgQueue.spentRun ++ List.replicate 5 (.step 1))).jobs.slot 1).committed = none ∧
      ∃ j f, (((PgQueue.machine fun _ => true).run (.start Nat)
        (PgQueue.spentRun ++ List.replicate 5 (.step 1))).failed.slot j).committed = some f ∧
        f.payload = "\x7b\x7d") := by
  constructor
  · have htake : (RedisQueue.take 2000 (RedisQueue.reserveArgs ⟨2, ""⟩ "default" 1 "v") 0
        (RedisQueue.machine.run .empty RedisQueue.spentRun).keys).1 = some ⟨⟨1000, 0⟩, 1⟩ := rfl
    have hjob : ((RedisQueue.machine.run .empty RedisQueue.spentRun).keys.job 1).map
        (fun h => (h.reservedUntil, h.maxAttempts, h.attempts)) = some (2, 1, 1) := by
      decide +kernel
    obtain ⟨h, hh, hfields⟩ := Option.map_eq_some_iff.mp hjob
    simp only [Prod.mk.injEq] at hfields
    obtain ⟨huntil, hmax, hattempts⟩ := hfields
    obtain ⟨k, hround, hfailed, -⟩ := attempt_budget.2.1 _ _ _ _ _ _ h (Prod.ext htake rfl) hh
      (by rw [huntil]; decide) (by rw [hmax, hattempts])
    exact ⟨k, hround, hfailed⟩
  · have hpc : (((PgQueue.machine fun _ => true).run (.start Nat) PgQueue.spentRun).client 1).pc =
        .candidate ⟨"default", [], 4, 300, "w"⟩ 1000000 := rfl
    have hfound : ((PgQueue.machine fun _ => true).run (.start Nat) PgQueue.spentRun).jobs.candidate 1
        (PgQueue.claimable "default" 1000000) PgQueue.before =
        some (1, ⟨"default", "a", "\x7b\x7d", 1, 1, 0, none, 0, some 1000000, some "w", "", 0⟩) := by
      decide +kernel
    obtain ⟨hgone, ⟨j, f, hfailed, hpayload, -⟩, -⟩ := attempt_budget.2.2.2 Nat (fun _ => true)
      PgQueue.spentRun 1 _ _ 1 _ hpc hfound (by decide) [.step 1, .step 1, .step 1]
      ⟨by simp, by decide⟩
    exact ⟨hgone, j, f, hfailed, hpayload⟩

end PyAppRunner.Queue
