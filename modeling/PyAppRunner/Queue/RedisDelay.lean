import PyAppRunner.Queue.RedisMoves

/-! No job is handed out before it is due, as long as a release takes the job's last entry.

When a job becomes due is written in its hash. Who reserves does not look there: a job in a
stream is ready, and one in a delayed set will be at its score. A delayed push and a
release write the two together. But a release only takes the entry of its own claim out of
the stream: if the job was parked meanwhile, and promoted again, another entry of it stays
there, and the job is handed out at once. -/
namespace PyAppRunner.Queue.RedisQueue
open Redis

/-! ### When a job is due -/

/-- A job is due by `now`, or it has no entry and no score that would say so earlier. -/
def Timely (now : Int) (k : Keyspace) : Prop :=
  ∀ id h, k.job id = some h → h.availableAt ≤ now ∨
    (∀ q l e, e ∈ (k.stream (q, l)).entries → e.value ≠ id) ∧
      ∀ q score, (id, score) ∈ (k.delayed q).items → h.availableAt ≤ score

theorem timely_empty (now : Int) : Timely now .empty := by
  intro id h hjob
  cases hjob

/-- What is due stays due. -/
theorem Timely.mono {now now' : Int} (hle : now ≤ now') {k : Keyspace} (h : Timely now k) : Timely now' k := by
  intro id hash hjob
  exact (h id hash hjob).imp_left fun hdue => Int.le_trans hdue hle

/-- A job with an entry is due. -/
theorem Timely.due {now : Int} {k : Keyspace} (h : Timely now k) {q : String} {l : Int} {e : Entry Nat}
    (he : e ∈ (k.stream (q, l)).entries) {hash : JobHash} (hjob : k.job e.value = some hash) :
    hash.availableAt ≤ now := by
  rcases h e.value hash hjob with hdue | ⟨hnone, -⟩
  · exact hdue
  · exact absurd rfl (hnone q l e he)

/-- A job is delayed once, by its last score. -/
theorem mem_items_delay {k : Keyspace} {q q' : String} {i id : Nat} {s score : Int} :
    (i, s) ∈ ((k.delay q' score id).delayed q).items ↔
      q = q' ∧ i = id ∧ s = score ∨ ¬ (q = q' ∧ i = id) ∧ (i, s) ∈ (k.delayed q).items := by
  simp only [Keyspace.delay, Function.update_apply]
  split
  · rename_i hq
    subst hq
    simp [SortedSet.zadd, SortedSet.zrem, and_comm]
  · rename_i hq
    simp [hq]

theorem mem_items_undelay {k : Keyspace} {q q' : String} {i id : Nat} {s : Int} :
    (i, s) ∈ ((k.undelay q' id).delayed q).items ↔ ¬ (q = q' ∧ i = id) ∧ (i, s) ∈ (k.delayed q).items := by
  simp only [Keyspace.undelay, Function.update_apply]
  split
  · rename_i hq
    subst hq
    simp [SortedSet.zrem, and_comm]
  · rename_i hq
    simp [hq]

/-- What is in range has a score that has come. -/
theorem mem_zrangebyscore {z : SortedSet Nat} {now : Int} {limit id : Nat}
    (h : id ∈ z.zrangebyscore asText now limit) : ∃ score ≤ now, (id, score) ∈ z.items := by
  have hmem := List.mem_of_mem_take h
  obtain ⟨⟨i, score⟩, hitem, rfl⟩ := List.mem_map.mp hmem
  rw [List.mem_filter, List.mem_insertionSort, decide_eq_true_eq] at hitem
  exact ⟨score, hitem.2, hitem.1⟩

/-! ### The scripts -/

section
variable {now : Int} {k : Keyspace}

/-- A job that is due may go on its stream. -/
theorem Timely.promote (h : Timely now k) (ms : Nat) (q : String) {id : Nat}
    (hdue : ∀ hash, k.job id = some hash → hash.availableAt ≤ now) : Timely now (promote ms q k id) := by
  unfold RedisQueue.promote
  split
  · split
    · rename_i hgone
      intro i hash hjob
      have hold := h i hash hjob
      simp only [Keyspace.frame_undelay, mem_items_undelay]
      grind
    · rename_i hash hjob
      intro i hash' hjob'
      simp only [Keyspace.frame_undelay, Keyspace.frame_enqueue, Keyspace.job_enqueue, Keyspace.mem_enqueue,
        mem_items_undelay] at hjob' ⊢
      have hold := h i
      grind
  · exact h

/-- Promotion changes when no job is due. -/
theorem availableAt_promote (ms : Nat) (q : String) (id i : Nat) :
    ((RedisQueue.promote ms q k id).job i).map JobHash.availableAt = (k.job i).map JobHash.availableAt := by
  unfold RedisQueue.promote
  split
  · split
    · rfl
    · rename_i hash hjob
      simp only [Keyspace.job_enqueue, Keyspace.frame_undelay]
      split
      · rename_i heq
        rw [heq, hjob]
        rfl
      · rfl
  · rfl

theorem Timely.promoteAll (ms : Nat) (q : String) (ids : List Nat) (h : Timely now k)
    (hdue : ∀ id ∈ ids, ∀ at_ ∈ (k.job id).map JobHash.availableAt, at_ ≤ now) :
    Timely now (ids.foldl (RedisQueue.promote ms q) k) := by
  induction ids generalizing k with
  | nil => exact h
  | cons id rest ih =>
    rw [List.forall_mem_cons] at hdue
    apply ih
    · apply h.promote ms q
      intro hash hjob
      exact hdue.1 _ (by rw [hjob]; rfl)
    · intro i hi
      rw [availableAt_promote]
      exact hdue.2 i hi

theorem Timely.promoteDue (h : Timely now k) (ms : Nat) (a : ReserveArgs) (hnow : a.now = now) :
    Timely now (RedisQueue.promoteDue ms a k) := by
  refine h.promoteAll ms a.queue _ ?_
  intro id hid at_ hat
  obtain ⟨score, hscore, hitem⟩ := mem_zrangebyscore hid
  obtain ⟨hash, hjob, rfl⟩ := Option.map_eq_some_iff.mp hat
  rcases h id hash hjob with hdue | ⟨-, hscores⟩
  · exact hdue
  · exact Int.le_trans (hscores a.queue score hitem) (hnow ▸ hscore)

/-- What a group was given says nothing of when a job is due. -/
theorem Timely.regroup (h : Timely now k) {q : String} {l : Int} {s : XStream Nat}
    (hentries : s.entries = (k.stream (q, l)).entries) : Timely now (k.setStream q l s) := by
  intro i hash hjob
  have hold := h i hash hjob
  simp only [Keyspace.frame_setStream, Keyspace.stream_setStream]
  grind

/-- An entry that is taken is of a job that is due, whatever becomes of it. -/
theorem Timely.settle {a : ReserveArgs} (h : Timely a.now k) {l : Int} {e : Entry Nat}
    (he : e ∈ (k.stream (a.queue, l)).entries) :
    RoundKeeps (Timely a.now) (fun c k' => c.hash.availableAt ≤ a.now ∧ k'.job c.id = some c.hash ∧ Timely a.now k')
      (settle a l e k) := by
  unfold RedisQueue.settle
  split
  · show Timely a.now (k.remove a.queue l e.id)
    intro i hash hjob
    have hold := h i hash hjob
    simp only [Keyspace.frame_remove, Keyspace.mem_remove]
    grind
  · rename_i hash hjob
    have hdue := h.due he hjob
    split
    · show Timely a.now (park a.queue l e hash k)
      intro i hash' hjob'
      have hold := h i
      simp only [park, Keyspace.frame_remove, Keyspace.frame_hset, Keyspace.frame_delay, Keyspace.job_hset,
        Keyspace.mem_remove, mem_items_delay] at hjob' ⊢
      grind
    · split
      · show Timely a.now ((k.remove a.queue l e.id).failJob e.value hash exhaustedError a.failedAt a.now)
        intro i hash' hjob'
        have hold := h i
        simp only [Keyspace.frame_remove, Keyspace.frame_failJob, Keyspace.job_failJob, Keyspace.mem_remove] at hjob' ⊢
        grind
      · refine ⟨hdue, by simp, ?_⟩
        intro i hash' hjob'
        have hold := h i
        simp only [claimHash, Keyspace.frame_hset, Keyspace.job_hset] at hjob' ⊢
        grind

/-- A job that is handed out is due, and its hash says so. -/
theorem Timely.reserve {a : ReserveArgs} (h : Timely a.now k) (ms : Nat) :
    WalkKeeps (Timely a.now) (fun c k' => c.hash.availableAt ≤ a.now ∧ k'.job c.id = some c.hash ∧ Timely a.now k')
      (RedisQueue.reserve ms a k) := by
  apply walk_keeps
  · intro k l s hfollows hk
    exact hk.regroup hfollows.entries
  · intro k l s e hfollows he _ hk
    apply (hk.regroup hfollows.entries).settle
    rwa [Keyspace.stream_setStream, if_pos ⟨rfl, rfl⟩]
  · exact h.promoteDue ms a rfl

/-- A new job goes on its stream only if it is not delayed. -/
theorem Timely.pushNew {w : World} (hw : Wf w) {a : PushArgs} (h : Timely a.now w.keys) (ms : Nat) :
    Timely a.now (pushNew ms a w.keys).2 := by
  have hentry_le := hw.entry_le
  have hdelayed_le : ∀ q id score, (id, score) ∈ (w.keys.delayed q).items → id ≤ w.keys.seq := by
    intro q id score hitem
    exact hw.delayed_le q id (SortedSet.mem_of_item hitem)
  unfold RedisQueue.pushNew
  split
  · intro i hash hjob
    have hold := h i
    simp only [newHash, frame_create, job_create, Keyspace.frame_delay, mem_items_delay] at hjob ⊢
    grind
  · rename_i hdue
    intro i hash hjob
    have hold := h i
    simp only [newHash, frame_create, Keyspace.frame_enqueue, Keyspace.job_enqueue, Keyspace.mem_enqueue,
      job_create] at hjob ⊢
    grind

end

/-! ### The calls -/

/-- The second a call reads from the clock, if it does. -/
def Call.second : Call → Option Int
  | .push _ moment _ => some moment.seconds
  | .reserve _ moment _ _ _ => some moment.seconds
  | .delete _ => none
  | .release _ moment _ _ => some moment.seconds
  | .fail _ moment _ => some moment.seconds
  | .retry _ moment _ _ => some moment.seconds
  | .forget _ => none

/-- The job has no entry but the one of this claim. -/
def LastEntry (j : Job EntryId) (k : Keyspace) : Prop :=
  ∀ h ∈ held j k, ∀ l ∈ (k.levels j.queue).items.map Prod.fst, ∀ e ∈ (k.stream (j.queue, l)).entries,
    e.value = j.id → l = h.priority ∧ e.id = j.handle

instance (j : Job EntryId) (k : Keyspace) : Decidable (LastEntry j k) :=
  inferInstanceAs (Decidable (∀ h ∈ held j k, _))

/-- A release with a delay takes the last entry of its job. -/
def takesLastEntry : Call → World → Prop
  | .release n _ delay _, w => 0 < delay → ∀ c ∈ w.claims[n]?, LastEntry c.job w.keys
  | _, _ => True

instance : (c : Call) → (w : World) → Decidable (takesLastEntry c w)
  | .release n _ delay _, w => inferInstanceAs (Decidable (0 < delay → ∀ c ∈ w.claims[n]?, LastEntry c.job w.keys))
  | .fail .., _ => .isTrue trivial
  | .delete _, _ => .isTrue trivial
  | .push .., _ => .isTrue trivial
  | .reserve .., _ => .isTrue trivial
  | .retry .., _ => .isTrue trivial
  | .forget _, _ => .isTrue trivial

section
variable {now : Int} {w : World}

/-- The holder of a key is not touched. -/
theorem Timely.push (hw : Wf w) {a : PushArgs} (h : Timely a.now w.keys) (ms : Nat) :
    Timely a.now (RedisQueue.push ms a w.keys).2 := by
  unfold RedisQueue.push
  split
  · exact h.pushNew hw ms
  · split
    · exact h.pushNew hw ms
    · split
      · exact h
      · have hfreed : Wf (w.put (w.keys.freeUnique a.unique)) := by
          obtain ⟨hjob, hdelayed, hentry, hfailed, hclaim, hqueue, hdq, heq, hcq, hlevel⟩ := hw
          exact ⟨hjob, hdelayed, hentry, hfailed, hclaim, hqueue, hdq, heq, hcq, hlevel⟩
        have hkeys : Timely a.now (w.put (w.keys.freeUnique a.unique)).keys := h
        exact hkeys.pushNew hfreed ms

/-- A release writes the second into the hash and the score, and leaves no entry. -/
theorem Timely.release (hw : Wf w) (h : Timely now w.keys) {c : Claim} (hmem : c ∈ w.claims) {hash : JobHash}
    (hheld : held c.job w.keys = some hash) {at_ : Int} (error : String)
    (hlast : at_ ≤ now ∨ LastEntry c.job w.keys) : Timely now (released at_ error c.job hash w.keys) := by
  obtain ⟨hjob, -⟩ := held_eq_some.mp hheld
  have hqueue : hash.queue = c.job.queue := hw.claim_queue c hmem hash hjob
  -- Entries and scores of the job are under the queue of the claim.
  have hentries : ∀ q l e, e ∈ (w.keys.stream (q, l)).entries → e.value = c.job.id →
      q = c.job.queue ∧ l ∈ (w.keys.levels c.job.queue).items.map Prod.fst := by
    intro q l e he hvalue
    have hq := hw.entry_queue q l e hash he (hvalue ▸ hjob)
    have hlevel := hw.entry_level q l e he
    rw [← hq, hqueue] at hlevel
    exact ⟨hq.symm.trans hqueue, hlevel⟩
  have hscores : ∀ q score, (c.job.id, score) ∈ (w.keys.delayed q).items → q = c.job.queue := by
    intro q score hitem
    have hq := hw.delayed_queue q c.job.id hash (SortedSet.mem_of_item hitem) hjob
    exact hq.symm.trans hqueue
  intro i hash' hjob'
  have hold := h i
  simp only [released, Keyspace.frame_remove, Keyspace.frame_hset, Keyspace.frame_delay, Keyspace.job_hset,
    Keyspace.mem_remove, mem_items_delay] at hjob' ⊢
  by_cases hi : i = c.job.id
  · subst hi
    rw [if_pos rfl] at hjob'
    cases hjob'
    rcases hlast with hdue | hlast
    · exact .inl hdue
    · refine .inr ⟨?_, ?_⟩
      · intro q l e he hvalue
        obtain ⟨hq, hl⟩ := hentries q l e he.2 hvalue
        subst hq
        obtain ⟨hpriority, hid⟩ := hlast hash hheld l hl e he.2 hvalue
        exact he.1 ⟨rfl, hpriority, hid⟩
      · intro q score hitem
        rcases hitem with ⟨-, -, rfl⟩ | ⟨hnot, hitem⟩
        · exact Int.le_refl _
        · exact absurd ⟨hscores q score hitem, rfl⟩ hnot
  · rw [if_neg hi] at hjob'
    rcases hold hash' hjob' with hdue | ⟨hnone, hscore⟩
    · exact .inl hdue
    · refine .inr ⟨fun q l e he => hnone q l e he.2, ?_⟩
      intro q score hitem
      rcases hitem with ⟨-, rfl, -⟩ | ⟨-, hitem⟩
      · exact absurd rfl hi
      · exact hscore q score hitem

/-- The scripts that end a claim, all but the release, leave a job's second as it is or take the job away. -/
theorem Timely.complete (h : Timely now w.keys) {j : Job EntryId} {hash : JobHash} :
    Timely now (completed j hash w.keys) := by
  intro i hash' hjob'
  have hold := h i
  simp only [completed, Keyspace.frame_remove, Keyspace.frame_freeUnique, Keyspace.frame_del, Keyspace.job_del,
    Keyspace.mem_remove] at hjob' ⊢
  grind

/-- A job that fails for good leaves its stream. -/
theorem Timely.fail (h : Timely now w.keys) {j : Job EntryId} {hash : JobHash} (hjob : w.keys.job j.id = some hash)
    (error failedAt : String) (score : Int) :
    Timely now ((w.keys.remove j.queue hash.priority j.handle).failJob j.id hash error failedAt score) := by
  intro i hash' hjob'
  have hold := h i
  simp only [Keyspace.frame_remove, Keyspace.frame_failJob, Keyspace.job_failJob, Keyspace.mem_remove] at hjob' ⊢
  grind

/-- A failed job is due when it goes back. -/
theorem Timely.requeue (h : Timely now w.keys) (ms id maxAttempts : Nat) :
    Timely now (RedisQueue.requeue ms id maxAttempts now w.keys).2 := by
  unfold RedisQueue.requeue
  split
  · split
    · exact h
    · intro i hash' hjob'
      have hold := h i
      simp only [requeueHash, Keyspace.frame_saddQueue, Keyspace.frame_enqueue, Keyspace.frame_unfail,
        Keyspace.job_enqueue, Keyspace.mem_enqueue] at hjob' ⊢
      grind
  · exact h

theorem Timely.forget (h : Timely now w.keys) (id : Nat) : Timely now (RedisQueue.forget id w.keys).2 := by
  unfold RedisQueue.forget
  split
  · intro i hash' hjob'
    have hold := h i
    simp only [Keyspace.frame_del, Keyspace.frame_unfail, Keyspace.job_del] at hjob' ⊢
    grind
  · exact h

/-- A completion is what its script does, or nothing. -/
theorem keys_complete {n : Nat} {script : Job EntryId → Keyspace → Bool × Keyspace} {P : Keyspace → Prop}
    (hnone : P w.keys) (hsome : ∀ c, w.claims[n]? = some c → P (script c.job w.keys).2) :
    P (w.complete n script).keys := by
  unfold World.complete
  split
  · exact hnone
  · exact hsome _ ‹_›

theorem keys_handOut {result : Option Claimed × Keyspace} : (w.handOut result).keys = result.2 := by
  obtain ⟨_ | c, k⟩ := result <;> rfl

theorem keys_retry (ms : Nat) (moment : Moment) (id : Nat) (maxAttempts : Int) :
    (World.step (.retry ms moment id maxAttempts) w).keys =
      (RedisQueue.requeue ms id (max 1 maxAttempts).toNat moment.seconds w.keys).2 := by
  rw [World.step]
  rcases RedisQueue.requeue ms id (max 1 maxAttempts).toNat moment.seconds w.keys with ⟨_ | _, k⟩ <;> rfl

/-- One call, at a second not before that of the calls so far. -/
theorem timely_step (c : Call) (hw : Wf w) (hok : takesLastEntry c w) (h : Timely now w.keys)
    (hclock : ∀ second ∈ c.second, now ≤ second) : Timely (c.second.getD now) (World.step c w).keys := by
  cases c with
  | push ms moment r => exact (h.mono (hclock _ rfl)).push (a := pushArgs moment r) hw ms
  | reserve ms moment queue timeout worker =>
    have hreserve := Timely.reserve (a := reserveArgs moment queue timeout worker) (h.mono (hclock _ rfl)) ms
    show Timely moment.seconds (w.handOut _).keys
    rw [keys_handOut]
    rcases hr : RedisQueue.reserve ms (reserveArgs moment queue timeout worker) w.keys with ⟨_ | c, k⟩
    · rw [hr] at hreserve
      exact hreserve
    · rw [hr] at hreserve
      exact hreserve.2.2
  | delete n =>
    refine keys_complete (P := Timely now) h fun c hclaim => ?_
    unfold RedisQueue.complete
    split
    · exact h
    · exact h.complete
  | release n moment delay error =>
    have hlater : Timely moment.seconds w.keys := h.mono (hclock _ rfl)
    refine keys_complete (P := Timely moment.seconds) hlater fun c hclaim => ?_
    unfold RedisQueue.release
    split
    · exact hlater
    · apply hlater.release hw (List.mem_of_getElem? hclaim) ‹_›
      by_cases hdelay : 0 < delay
      · exact .inr (hok hdelay c hclaim)
      · exact .inl (by omega)
  | fail n moment error =>
    have hlater : Timely moment.seconds w.keys := h.mono (hclock _ rfl)
    refine keys_complete (P := Timely moment.seconds) hlater fun c hclaim => ?_
    unfold RedisQueue.fail
    split
    · exact hlater
    · exact hlater.fail (held_eq_some.mp ‹_›).1 _ _ _
  | retry ms moment id maxAttempts =>
    have hlater : Timely moment.seconds w.keys := h.mono (hclock _ rfl)
    rw [keys_retry]
    exact hlater.requeue ms id _
  | forget id => exact h.forget id

/-- **Every run**, by a clock that does not go back. -/
theorem timely_run (calls : List Call) (hw : Wf w) (hr : machine.Admissible takesLastEntry w calls)
    {last : Int} (hle : now ≤ last) (h : Timely now w.keys) (hclock : (calls.filterMap Call.second).Pairwise (· ≤ ·))
    (hfirst : ∀ second ∈ calls.filterMap Call.second, now ≤ second)
    (hlast : ∀ second ∈ calls.filterMap Call.second, second ≤ last) : Timely last (machine.run w calls).keys := by
  induction calls generalizing w now with
  | nil => exact h.mono hle
  | cons c rest ih =>
    have hwf : Wf (World.step c w) := (any_moves c w).invariant (fun _ _ hm => Wf.move hm) hw
    have hstep := timely_step c hw hr.1 h
    cases hsecond : c.second with
    | none =>
      rw [List.filterMap_cons_none hsecond] at hclock hfirst hlast
      rw [hsecond] at hstep
      exact ih hwf hr.2 hle (hstep (by simp)) hclock hfirst hlast
    | some second =>
      rw [List.filterMap_cons_some hsecond] at hclock hfirst hlast
      rw [List.pairwise_cons] at hclock
      rw [List.forall_mem_cons] at hfirst hlast
      rw [hsecond] at hstep
      exact ih hwf hr.2 hlast.1 (hstep (by simpa using hfirst.1)) hclock.2 hclock.1 hlast.2

end

/-! ### Until it is released or retried again -/

/-- The job, as long as there is one, is due at that second. -/
def DueAt (id : Nat) (at_ : Int) (k : Keyspace) : Prop :=
  id ≤ k.seq ∧ ∀ h, k.job id = some h → h.availableAt = at_

/-- The call neither releases the job nor retries it. -/
def sparesJob (id : Nat) : Call → World → Prop
  | .release n _ _ _, w => ∀ c ∈ w.claims[n]?, c.job.id ≠ id
  | .retry _ _ retried _, _ => retried ≠ id
  | _, _ => True

section
variable {id : Nat} {at_ : Int} {k : Keyspace} {w : World}

theorem DueAt.promoteAll (ms : Nat) (q : String) (ids : List Nat) (h : DueAt id at_ k) :
    DueAt id at_ (ids.foldl (promote ms q) k) := by
  induction ids generalizing k with
  | nil => exact h
  | cons i rest ih =>
    apply ih
    refine ⟨?_, ?_⟩
    · have hseq : (promote ms q k i).seq = k.seq := by
        unfold promote
        split
        · split <;> rfl
        · rfl
      rw [hseq]
      exact h.1
    · intro hash hjob
      have hmap := availableAt_promote (k := k) ms q i id
      rw [hjob, Option.map_some] at hmap
      obtain ⟨hash', hjob', heq⟩ := Option.map_eq_some_iff.mp hmap.symm
      rw [← heq]
      exact h.2 hash' hjob'

/-- What a round does to other jobs does not move this one. -/
theorem DueAt.settle (h : DueAt id at_ k) (a : ReserveArgs) (l : Int) (e : Entry Nat) :
    RoundKeeps (DueAt id at_) (fun c k' => (c.id = id → c.hash.availableAt = at_) ∧ DueAt id at_ k') (settle a l e k) := by
  obtain ⟨hle, hat⟩ := h
  unfold RedisQueue.settle
  split
  · exact ⟨hle, hat⟩
  · rename_i hash hjob
    split
    · refine ⟨hle, ?_⟩
      intro hash' hjob'
      simp only [park, Keyspace.frame_remove, Keyspace.job_hset, Keyspace.frame_delay] at hjob'
      grind
    · split
      · refine ⟨hle, ?_⟩
        intro hash' hjob'
        simp only [Keyspace.frame_remove, Keyspace.job_failJob] at hjob'
        grind
      · refine ⟨?_, hle, ?_⟩
        · intro hid
          exact hat hash (hid ▸ hjob)
        · intro hash' hjob'
          simp only [claimHash, Keyspace.job_hset] at hjob'
          grind

/-- A reservation hands the job out with the second it was due. -/
theorem DueAt.reserve (h : DueAt id at_ k) (ms : Nat) (a : ReserveArgs) :
    WalkKeeps (DueAt id at_) (fun c k' => (c.id = id → c.hash.availableAt = at_) ∧ DueAt id at_ k')
      (RedisQueue.reserve ms a k) := by
  apply walk_keeps
  · exact fun k l s _ hk => hk
  · intro k l s e _ _ _ hk
    have hset : DueAt id at_ (k.setStream a.queue l s) := hk
    exact hset.settle a l e
  · exact h.promoteAll ms a.queue _

/-- A push makes another job. -/
theorem DueAt.push (h : DueAt id at_ k) (ms : Nat) (a : PushArgs) : DueAt id at_ (RedisQueue.push ms a k).2 := by
  have hnew : ∀ k, DueAt id at_ k → DueAt id at_ (pushNew ms a k).2 := by
    intro k hk
    obtain ⟨hle, hat⟩ := hk
    unfold pushNew
    split
    · refine ⟨Nat.le_succ_of_le hle, ?_⟩
      intro hash hjob
      simp only [Keyspace.frame_delay, job_create] at hjob
      grind
    · refine ⟨Nat.le_succ_of_le hle, ?_⟩
      intro hash hjob
      simp only [Keyspace.job_enqueue, job_create] at hjob
      grind
  unfold RedisQueue.push
  split
  · exact hnew k h
  · split
    · exact hnew k h
    · split
      · exact h
      · exact hnew (k.freeUnique a.unique) h

/-- **Every call** but those that release or retry the job. -/
theorem dueAt_step (c : Call) (hok : sparesJob id c w) (h : DueAt id at_ w.keys) :
    DueAt id at_ (World.step c w).keys := by
  -- A call may move the job's due time only where it writes the job's hash.
  obtain ⟨hle, hat⟩ := h
  cases c with
  | push ms moment r => exact DueAt.push ⟨hle, hat⟩ ms _
  | reserve ms moment queue timeout worker =>
    have hreserve := DueAt.reserve ⟨hle, hat⟩ ms (reserveArgs moment queue timeout worker)
    show DueAt id at_ (w.handOut _).keys
    rw [keys_handOut]
    rcases hr : RedisQueue.reserve ms (reserveArgs moment queue timeout worker) w.keys with ⟨_ | c, k⟩
    · rw [hr] at hreserve
      exact hreserve
    · rw [hr] at hreserve
      exact hreserve.2
  | delete n =>
    refine keys_complete (P := DueAt id at_) ⟨hle, hat⟩ fun c hclaim => ?_
    unfold RedisQueue.complete
    split
    · exact ⟨hle, hat⟩
    · refine ⟨hle, ?_⟩
      intro hash hjob
      simp only [completed, Keyspace.job_del, Keyspace.frame_freeUnique, Keyspace.frame_remove] at hjob
      grind
  | release n moment delay error =>
    refine keys_complete (P := DueAt id at_) ⟨hle, hat⟩ fun c hclaim => ?_
    have hne := hok c hclaim
    unfold RedisQueue.release
    split
    · exact ⟨hle, hat⟩
    · refine ⟨hle, ?_⟩
      intro hash hjob
      simp only [released, Keyspace.frame_remove, Keyspace.job_hset, Keyspace.frame_delay] at hjob
      grind
  | fail n moment error =>
    refine keys_complete (P := DueAt id at_) ⟨hle, hat⟩ fun c hclaim => ?_
    unfold RedisQueue.fail
    split
    · exact ⟨hle, hat⟩
    · rename_i hash hheld
      have hjob := (held_eq_some.mp hheld).1
      refine ⟨hle, ?_⟩
      intro hash' hjob'
      simp only [Keyspace.frame_remove, Keyspace.job_failJob] at hjob'
      grind
  | retry ms moment retried maxAttempts =>
    have hne : retried ≠ id := hok
    rw [keys_retry]
    unfold RedisQueue.requeue
    split
    · split
      · exact ⟨hle, hat⟩
      · refine ⟨hle, ?_⟩
        intro hash hjob
        simp only [Keyspace.frame_saddQueue, Keyspace.job_enqueue, Keyspace.frame_unfail] at hjob
        grind
    · exact ⟨hle, hat⟩
  | forget forgotten =>
    show DueAt id at_ (RedisQueue.forget forgotten w.keys).2
    unfold RedisQueue.forget
    split
    · refine ⟨hle, ?_⟩
      intro hash hjob
      simp only [Keyspace.job_del, Keyspace.frame_unfail] at hjob
      grind
    · exact ⟨hle, hat⟩

end

/-- What was handed out after these calls, and the keyspace then. -/
def handedOut (calls : List Call) (ms : Nat) (moment : Moment) (queue : String) (timeout : Int) (worker : String) :
    Option Claimed × Keyspace :=
  reserve ms (reserveArgs moment queue timeout worker) (machine.run .empty calls).keys

/-- **A job is handed out when it is due**, in a run whose releases with a delay take the last
entry of their job. One that was released is not handed out again before its delay is
over, unless it is released or retried again. -/
theorem handed_out_when_due (calls : List Call) (ms : Nat) (moment : Moment) (queue : String) (timeout : Int)
    (worker : String)
    (hclock : ((calls ++ [Call.reserve ms moment queue timeout worker]).filterMap Call.second).Pairwise (· ≤ ·))
    (hr : machine.Admissible takesLastEntry .empty calls) {c : Claimed} {k : Keyspace}
    (hc : handedOut calls ms moment queue timeout worker = (some c, k)) :
    c.hash.availableAt ≤ moment.seconds ∧ k.job c.id = some c.hash ∧
    ∀ before n (released : Moment) delay error after, calls = before ++ .release n released delay error :: after →
      (∃ claim ∈ (machine.run .empty before).claims[n]?, claim.job.id = c.id ∧
        (held claim.job (machine.run .empty before).keys).isSome) →
      machine.Admissible (sparesJob c.id) (machine.run .empty (before ++ [.release n released delay error])) after →
      released.seconds + max 0 delay ≤ moment.seconds := by
  rw [List.filterMap_append, List.pairwise_append] at hclock
  obtain ⟨hsorted, -, hlast⟩ := hclock
  have hbefore : ∀ second ∈ calls.filterMap Call.second, second ≤ moment.seconds :=
    fun second hsecond => hlast second hsecond moment.seconds (List.mem_singleton_self _)
  have htimely : Timely moment.seconds (machine.run .empty calls).keys := by
    -- The first second that is read is before all others.
    cases hseconds : calls.filterMap Call.second with
    | nil =>
      refine timely_run calls wf_empty hr (Int.le_refl _) (timely_empty _) hsorted ?_ hbefore
      rw [hseconds]
      simp
    | cons first rest =>
      rw [hseconds] at hsorted hbefore
      have hle := hbefore first List.mem_cons_self
      refine timely_run calls wf_empty hr hle (timely_empty first) ?_ ?_ ?_
      · rw [hseconds]
        exact hsorted
      · rw [hseconds, List.forall_mem_cons]
        exact ⟨Int.le_refl _, (List.pairwise_cons.mp hsorted).1⟩
      · rw [hseconds]
        exact hbefore
  have hreserve := Timely.reserve (a := reserveArgs moment queue timeout worker) htimely ms
  rw [show reserve ms _ _ = (some c, k) from hc] at hreserve
  refine ⟨hreserve.1, hreserve.2.1, ?_⟩
  intro before n released delay error after hcalls hheld hspares
  obtain ⟨claim, hclaim, hid, hsome⟩ := hheld
  obtain ⟨hash, hhash⟩ := Option.isSome_iff_exists.mp hsome
  have hreleased : DueAt c.id (released.seconds + max 0 delay)
      (machine.run .empty (before ++ [.release n released delay error])).keys := by
    rw [Base.Machine.run_append]
    show DueAt _ _ (World.step (.release n released delay error) (machine.run .empty before)).keys
    have hwf := wf_run before
    rw [World.step, World.complete, hclaim]
    dsimp only
    rw [RedisQueue.release, hhash]
    refine ⟨?_, ?_⟩
    · exact hid ▸ hwf.job_le _ _ (held_eq_some.mp hhash).1
    · intro hash' hjob'
      simp only [RedisQueue.released, Keyspace.frame_remove, Keyspace.job_hset, hid, if_true, Option.some.injEq] at hjob'
      rw [← hjob']
  have hdue : DueAt c.id (released.seconds + max 0 delay) (machine.run .empty calls).keys := by
    have hsplit : before ++ .release n released delay error :: after =
        (before ++ [.release n released delay error]) ++ after := by simp
    rw [hcalls, hsplit, Base.Machine.run_append]
    exact Base.Machine.invariant (m := machine) (I := fun w => DueAt c.id (released.seconds + max 0 delay) w.keys)
      (fun _ _ hok hi => dueAt_step _ hok hi) hreleased hspares
  have hkept := hdue.reserve ms (reserveArgs moment queue timeout worker)
  rw [show reserve ms _ _ = (some c, k) from hc] at hkept
  rw [← hkept.1 rfl]
  exact hreserve.1

/-- A job is released for a while, and handed out when that is over. -/
def releasedRun : List Call :=
  [.push 1000 ⟨1, ""⟩ {name := "a", payload := "\x7b\x7d"}, .reserve 1000 ⟨1, ""⟩ "default" 300 "w",
    .release 0 ⟨4, ""⟩ 10 "not yet", .reserve 5000 ⟨5, ""⟩ "default" 300 "v"]

theorem releasedRun_waits : ∃ c k, handedOut releasedRun 14000 ⟨14, ""⟩ "default" 300 "v" = (some c, k) ∧
    c.hash.availableAt ≤ 14 ∧ (handedOut releasedRun 13000 ⟨13, ""⟩ "default" 300 "v").1.isNone := by
  have hsome : (handedOut releasedRun 14000 ⟨14, ""⟩ "default" 300 "v").1.isSome := by decide +kernel
  obtain ⟨c, hc⟩ := Option.isSome_iff_exists.mp hsome
  have hpair : handedOut releasedRun 14000 ⟨14, ""⟩ "default" 300 "v" =
      (some c, (handedOut releasedRun 14000 ⟨14, ""⟩ "default" 300 "v").2) := Prod.ext hc rfl
  exact ⟨c, _, hpair, (handed_out_when_due releasedRun 14000 ⟨14, ""⟩ "default" 300 "v" (by decide) (by decide +kernel)
    hpair).1, by decide +kernel⟩

/-- `a` holds the job; `b`, whose timeout is shorter, parks it; past `a`'s claim it is promoted again
beside a job that comes first; and `a` releases it for 100 seconds. -/
def lateReleaseRun : List Call :=
  [.push 1000 ⟨1, ""⟩ {name := "a", payload := "\x7b\x7d"}, .reserve 1000 ⟨1, ""⟩ "default" 10 "a",
    .reserve 3000 ⟨3, ""⟩ "default" 1 "b", .push 12000 ⟨12, ""⟩ {name := "b", payload := "\x7b\x7d", priority := 5},
    .reserve 12000 ⟨12, ""⟩ "default" 60 "c", .release 0 ⟨12, ""⟩ 100 "not yet"]

/-- A second later it is handed out. -/
theorem released_job_handed_out :
    ((lateReleaseRun ++ [Call.reserve 13000 ⟨13, ""⟩ "default" 60 "d"]).filterMap Call.second).Pairwise (· ≤ ·) ∧
    ((handedOut lateReleaseRun 13000 ⟨13, ""⟩ "default" 60 "d").1.map fun c => (c.id, c.hash.availableAt)) =
      some (1, 112) ∧
    ¬ machine.Admissible takesLastEntry .empty lateReleaseRun := by
  refine ⟨by decide, by decide +kernel, by decide +kernel⟩

end PyAppRunner.Queue.RedisQueue
