import Mathlib.Algebra.GroupWithZero.Nat
import PyAppRunner.Queue.RedisDelivery
import PyAppRunner.Queue.RedisKept

/-! The status table: what the Redis driver reports, and what the Postgres driver would
make of the same jobs.

Postgres counts rows by their fields. Redis counts places: the entries of the streams, how
many of them the group has pending, the delayed set and how much of it is due. The two
agree on a job as long as its place says what its fields say. Two kinds of job are
counted differently: one whose claim has run out is pending work to Postgres, and stays
reserved on Redis until somebody takes its entry over; and a held job that was parked is
reserved to Postgres and delayed on Redis. A run that completes no job away from its entry
has a place for every job and no other places, and there these two are the only difference. -/
namespace PyAppRunner.Queue.RedisQueue
open Redis

/-- A row of the status table. -/
structure Status where
  pending : Nat
  delayed : Nat
  reserved : Nat
  total : Nat
deriving DecidableEq

/-- The four counts of `PgQueue.stats`, over `available_at` and `reserved_until` of one queue's rows. -/
def pgStats (moment : Int) (rows : List (Int × Option Int)) : Status where
  pending := rows.countP fun r => decide (r.1 ≤ moment) && r.2.all fun u => decide (u ≤ moment)
  delayed := rows.countP fun r => decide (moment < r.1)
  reserved := rows.countP fun r => r.2.any fun u => decide (moment < u)
  total := rows.length

/-- `_counts`. A stream without entries is not asked for its groups. -/
def counts (queue : String) (now : Int) (k : Keyspace) : Status :=
  let levels := (k.levels queue).zrevrange asText
  let ready := (levels.map fun l => (k.stream (queue, l)).entries.length).sum
  let held := (levels.map fun l =>
    if (k.stream (queue, l)).entries.length = 0 then 0 else (k.stream (queue, l)).pendingCount).sum
  let due := (k.delayed queue).zcount now
  let scheduled := (k.delayed queue).zcard
  let pending := ready - held + due
  let delayed := scheduled - due
  ⟨pending, delayed, held, pending + delayed + held⟩

/-- The jobs of the queue that exist and have not failed. -/
def liveIds (queue : String) (k : Keyspace) : List Nat :=
  (List.range (k.seq + 1)).filter fun id =>
    decide (id ∉ k.failed) && (k.job id).any fun h => decide (h.queue = queue)

/-- What a row has of a job: `0` is no claim. -/
def fields (h : JobHash) : Int × Option Int :=
  (h.availableAt, if h.reservedUntil = 0 then none else some h.reservedUntil)

/-- The times of the jobs of a queue that are alive. -/
def liveRows (queue : String) (k : Keyspace) : List (Int × Option Int) :=
  ((liveIds queue k).filterMap k.job).map fields

/-! ### Every place is of a job -/

/-- Whatever a completion leaves of its job is in the place the job's fields name: a job that is released
has nothing but this claim's entry or the place it was parked in, and one that is completed or fails
nothing but the entry. And the entry is the job's own. -/
def leavesNothing : Call → World → Prop
  | .delete n, w => ∀ c ∈ w.claims[n]?, OwnEntry c.job w.keys ∧ FailSettled c.job w.keys
  | .release n _ _ _, w => ∀ c ∈ w.claims[n]?, OwnEntry c.job w.keys ∧ ReleaseSettled c.job w.keys
  | .fail n _ _, w => ∀ c ∈ w.claims[n]?, OwnEntry c.job w.keys ∧ FailSettled c.job w.keys
  | _, _ => True

instance : (c : Call) → (w : World) → Decidable (leavesNothing c w)
  | .delete n, w => inferInstanceAs (Decidable (∀ c ∈ w.claims[n]?, OwnEntry c.job w.keys ∧ FailSettled c.job w.keys))
  | .release n _ _ _, w =>
    inferInstanceAs (Decidable (∀ c ∈ w.claims[n]?, OwnEntry c.job w.keys ∧ ReleaseSettled c.job w.keys))
  | .fail n _ _, w => inferInstanceAs (Decidable (∀ c ∈ w.claims[n]?, OwnEntry c.job w.keys ∧ FailSettled c.job w.keys))
  | .push .., _ => .isTrue trivial
  | .reserve .., _ => .isTrue trivial
  | .retry .., _ => .isTrue trivial
  | .forget _, _ => .isTrue trivial

theorem leavesNothing.addresses {c : Call} {w : World} (h : leavesNothing c w) : addressesOwn c w := by
  cases c with
  | delete n => exact fun cl hcl => (h cl hcl).1
  | release n moment delay error => exact fun cl hcl => (h cl hcl).1
  | fail n moment error => exact fun cl hcl => (h cl hcl).1
  | push ms moment r => trivial
  | reserve ms moment queue timeout worker => trivial
  | retry ms moment id maxAttempts => trivial
  | forget id => trivial

theorem leavesNothing.settled {c : Call} {w : World} (h : leavesNothing c w) : settledEntry c w := by
  cases c with
  | release n moment delay error => exact fun cl hcl => (h cl hcl).2
  | fail n moment error => exact fun cl hcl => (h cl hcl).2
  | delete n => trivial
  | push ms moment r => trivial
  | reserve ms moment queue timeout worker => trivial
  | retry ms moment id maxAttempts => trivial
  | forget id => trivial

/-- Every entry and every delayed id is of a job that exists. -/
structure Present (k : Keyspace) : Prop where
  entry_job : ∀ q l e, e ∈ (k.stream (q, l)).entries → k.job e.value ≠ none
  delayed_job : ∀ q id, id ∈ k.delayed q → k.job id ≠ none

theorem present_empty : Present Keyspace.empty := by
  constructor <;> simp [Keyspace.empty]

theorem Present.move {w w' : World} (hm : Move leavesNothing w w') (hw : Wf w) (hp : Placed w.keys)
    (h : Present w.keys) : Present w'.keys := by
  obtain ⟨hentry, hdelayed⟩ := h
  have hfd := hp.failed_delayed
  have hfs := hp.failed_stream
  -- No move removes a job that is still in one of the places, and a move that would find it gone does not
  -- occur.
  cases hm with
  | freeUnique key holder hkey hgone => exact ⟨hentry, hdelayed⟩
  | pushDelayed a hqueue hmax hfree hlate =>
    constructor <;> simp only [World.put, frame_create, job_create, Keyspace.frame_delay, Keyspace.mem_delay] <;> grind
  | pushReady ms a hqueue hmax hfree hdue =>
    constructor <;> simp only [World.put, frame_create, job_create, Keyspace.frame_enqueue, Keyspace.job_enqueue,
      Keyspace.mem_enqueue] <;> grind
  | promote ms q id hash hin hjob =>
    constructor <;> simp only [World.put, Keyspace.frame_enqueue, Keyspace.frame_undelay, Keyspace.job_enqueue,
      Keyspace.mem_enqueue, Keyspace.mem_undelay] <;> grind
  | dropDelayed q id hin hgone => exact absurd hgone (hdelayed q id hin)
  | regroup q l s hentries hdeliverable =>
    constructor <;> simp only [World.put, Keyspace.frame_setStream, Keyspace.stream_setStream] <;> grind
  | dropTombstone q l e he hgone => exact absurd hgone (hentry q l e he)
  | park q l e hash now he hjob hheld =>
    constructor <;> simp only [World.put, park, Keyspace.frame_remove, Keyspace.frame_hset, Keyspace.frame_delay,
      Keyspace.job_hset, Keyspace.mem_remove, Keyspace.mem_delay] <;> grind
  | exhaust q l e hash now failedAt he hjob hlapsed hspent =>
    constructor <;> simp only [World.put, Keyspace.frame_remove, Keyspace.frame_failJob, Keyspace.job_failJob,
      Keyspace.mem_remove] <;> grind
  | claim a l e hash hok he hjob hlapsed hleft =>
    constructor <;> simp only [World.handOut, Keyspace.frame_hset, Keyspace.job_hset] <;> grind
  | complete n c hash hok hclaim hheld =>
    have hplaces := settled_places hw hp hheld (List.mem_of_getElem? hclaim) (hok c hclaim).2
    have hnot : ∀ q, c.job.id ∉ w.keys.delayed q := by
      intro q hin
      obtain ⟨⟨i, s⟩, hitem, rfl⟩ := List.mem_map.mp hin
      exact hplaces.2 q s hitem
    have honly := hplaces.1
    constructor <;> simp only [World.put, completed, Keyspace.frame_remove, Keyspace.frame_freeUnique,
      Keyspace.frame_del, Keyspace.job_del, Keyspace.mem_remove] <;> grind
  | release n c hash moment delay error hok hclaim hheld =>
    constructor <;> simp only [World.put, released, Keyspace.frame_remove, Keyspace.frame_hset, Keyspace.frame_delay,
      Keyspace.job_hset, Keyspace.mem_remove, Keyspace.mem_delay] <;> grind
  | fail n c hash moment error hok hclaim hheld =>
    constructor <;> simp only [World.put, Keyspace.frame_remove, Keyspace.frame_failJob, Keyspace.job_failJob,
      Keyspace.mem_remove] <;> grind
  | requeue ms id maxAttempts now hash hfailed hjob hmax =>
    constructor <;> simp only [Keyspace.frame_saddQueue, Keyspace.frame_enqueue, Keyspace.frame_unfail,
      Keyspace.job_enqueue, Keyspace.mem_enqueue] <;> grind
  | dropFailed id hfailed hgone => exact ⟨hentry, hdelayed⟩
  | forget id hfailed =>
    constructor <;> simp only [World.put, Keyspace.frame_del, Keyspace.frame_unfail, Keyspace.job_del] <;> grind

/-- What a run leaves in which no completion leaves anything of its job elsewhere: every job has its place, every
place is of a job, and says when the job is due. -/
structure Accounted (now : Int) (w : World) : Prop extends Sound now w where
  present : Present w.keys
  delivers : Delivers w.keys

theorem accounted_run {now : Int} (hnow : 0 ≤ now) {calls : List Call} (hr : machine.Admissible leavesNothing .empty calls)
    (hclock : ∀ t ∈ calls.filterMap Call.second, t ≤ now) : Accounted now (machine.run .empty calls) where
  toSound := sound_run hnow (hr.imp fun _ _ h => h.settled) hclock
  present :=
    (run_invariant (I := fun w => Wf w ∧ Placed w.keys ∧ Present w.keys)
      (fun _ _ hm hi => ⟨hi.1.move hm, hi.2.1.move (hm.imp fun _ _ h => h.settled) hi.1, hi.2.2.move hm hi.1 hi.2.1⟩)
      ⟨wf_empty, placed_empty, present_empty⟩ hr).2.2
  delivers :=
    (run_invariant (I := fun w => Wf w ∧ Delivers w.keys)
      (fun _ _ hm hi => ⟨hi.1.move hm, delivers_move hm hi.1 hi.2⟩)
      ⟨wf_empty, by intro id h hjob; cases hjob⟩ (hr.imp fun _ _ h => h.addresses)).2

/-! ### Counting the places -/

/-- The queue's entries: the job of each, and whether the group has got to it. -/
def ready (queue : String) (k : Keyspace) : List (Nat × Bool) :=
  ((k.levels queue).zrevrange asText).flatMap fun l =>
    (k.stream (queue, l)).entries.map fun e => (e.value, (k.stream (queue, l)).delivered e)

theorem mem_ready {queue : String} {k : Keyspace} {id : Nat} {d : Bool} : (id, d) ∈ ready queue k ↔
    ∃ l ∈ k.levels queue, ∃ e ∈ (k.stream (queue, l)).entries,
      e.value = id ∧ (k.stream (queue, l)).delivered e = d := by
  simp only [ready, List.mem_flatMap, SortedSet.mem_zrevrange, List.mem_map, Prod.mk.injEq]

theorem length_ready (queue : String) (k : Keyspace) :
    (((k.levels queue).zrevrange asText).map fun l => (k.stream (queue, l)).entries.length).sum =
      (ready queue k).length := by
  simp only [ready, List.length_flatMap, List.length_map]

/-- Of a tidy stream, what is pending is what was delivered. -/
theorem countP_ready {k : Keyspace} (h : ∀ q l, (k.stream (q, l)).Tidy) (queue : String) :
    (((k.levels queue).zrevrange asText).map fun l =>
      if (k.stream (queue, l)).entries.length = 0 then 0 else (k.stream (queue, l)).pendingCount).sum =
      (ready queue k).countP Prod.snd := by
  rw [ready, List.countP_flatMap]
  congr 1
  apply List.map_congr_left
  intro l _
  rw [Function.comp_apply, List.countP_map, (h queue l).pendingCount]
  split
  · rename_i hnone
    rw [List.eq_nil_of_length_eq_zero hnone]
    rfl
  · rfl

/-- `_counts` as a count of places. -/
theorem counts_eq {k : Keyspace} (h : ∀ q l, (k.stream (q, l)).Tidy) (queue : String) (now : Int) :
    counts queue now k =
      ⟨(ready queue k).countP (fun e => !e.2) + (k.delayed queue).items.countP (fun i => decide (i.2 ≤ now)),
        (k.delayed queue).items.countP (fun i => decide (now < i.2)), (ready queue k).countP Prod.snd,
        (ready queue k).length + (k.delayed queue).items.length⟩ := by
  have hready := List.length_eq_countP_add_countP Prod.snd (l := ready queue k)
  have hdelayed := List.length_eq_countP_add_countP (fun i : Nat × Int => decide (i.2 ≤ now))
    (l := (k.delayed queue).items)
  simp only [Bool.not_eq_true, Bool.decide_eq_false, decide_eq_true_eq, not_le] at hready hdelayed
  simp only [counts, length_ready, countP_ready h, SortedSet.zcount, SortedSet.zcard, Status.mk.injEq, true_and]
  omega

section
variable {now : Int} {w : World} (h : Accounted now w) (queue : String)

include h

theorem nodup_ready : ((ready queue w.keys).map Prod.fst).Nodup := by
  have hone : ∀ l e l' e', e ∈ (w.keys.stream (queue, l)).entries → e' ∈ (w.keys.stream (queue, l')).entries →
      e.value = e'.value → l = l' ∧ e = e' := by
    intro l e l' e' he he' hvalue
    have hsome : (w.keys.job e.value).isSome := by
      rw [Option.isSome_iff_ne_none]
      exact h.present.entry_job queue l e he
    exact ((h.placed.onePlace h.wf).one_entry queue l e queue l' e' he he' hvalue hsome).2
  rw [ready, List.map_flatMap, List.nodup_flatMap]
  constructor
  · intro l _
    rw [List.map_map]
    apply List.Nodup.map_on
    · exact fun e he e' he' hvalue => (hone l e l e' he he' hvalue).2
    · exact (w.keys.stream (queue, l)).sorted.imp fun hlt heq => hlt.ne (congrArg Entry.id heq)
  · apply (SortedSet.nodup_zrevrange asText (w.keys.levels queue)).imp
    intro l l' hne id hid hid'
    dsimp only at hid hid'
    rw [List.map_map, List.mem_map] at hid hid'
    obtain ⟨e, he, rfl⟩ := hid
    obtain ⟨e', he', hvalue⟩ := hid'
    exact hne (hone l e l' e' he he' hvalue.symm).1

/-- **A job is live if and only if it has a place**, and it has one place. -/
theorem live_perm_places :
    (liveIds queue w.keys).Perm ((ready queue w.keys).map Prod.fst ++ (w.keys.delayed queue).items.map Prod.fst) := by
  have hlive : (liveIds queue w.keys).Nodup := List.nodup_range.filter _
  have hplaces : ((ready queue w.keys).map Prod.fst ++ (w.keys.delayed queue).items.map Prod.fst).Nodup := by
    apply (nodup_ready h queue).append (w.keys.delayed queue).nodup
    intro id hid hdelayed
    obtain ⟨⟨i, d⟩, hmem, rfl⟩ := List.mem_map.mp hid
    obtain ⟨l, -, e, he, rfl, -⟩ := mem_ready.mp hmem
    exact h.placed.delayed_stream queue l e queue he hdelayed
  rw [List.perm_ext_iff_of_nodup hlive hplaces]
  intro id
  rw [liveIds, List.mem_filter, List.mem_range, Bool.and_eq_true, decide_eq_true_eq, Option.any_eq_true, List.mem_append]
  constructor
  · rintro ⟨-, hfailed, hash, hjob, hqueue⟩
    rw [decide_eq_true_eq] at hqueue
    subst hqueue
    rcases h.delivers id hash hjob hfailed with hdelayed | ⟨l, hl, e, rfl, he, -⟩
    · exact .inr hdelayed
    · exact .inl (List.mem_map.mpr ⟨_, mem_ready.mpr ⟨l, hl, e, he, rfl, rfl⟩, rfl⟩)
  · have hback : ∀ hash, w.keys.job id = some hash → id ∉ w.keys.failed → hash.queue = queue →
        id < w.keys.seq + 1 ∧ id ∉ w.keys.failed ∧ ∃ h, w.keys.job id = some h ∧ decide (h.queue = queue) = true := by
      intro hash hjob hfailed hqueue
      exact ⟨Nat.lt_succ_of_le (h.wf.job_le id hash hjob), hfailed, hash, hjob, decide_eq_true hqueue⟩
    rintro (hid | hid)
    · obtain ⟨⟨i, d⟩, hmem, rfl⟩ := List.mem_map.mp hid
      obtain ⟨l, -, e, he, rfl, -⟩ := mem_ready.mp hmem
      obtain ⟨hash, hjob⟩ := Option.ne_none_iff_exists'.mp (h.present.entry_job queue l e he)
      exact hback hash hjob (h.placed.failed_stream queue l e he) (h.wf.entry_queue queue l e hash he hjob)
    · obtain ⟨⟨i, s⟩, hitem, rfl⟩ := List.mem_map.mp hid
      obtain ⟨hash, hjob⟩ := Option.ne_none_iff_exists'.mp (h.present.delayed_job queue i hid)
      apply hback hash hjob _ (h.wf.delayed_queue queue i hash hid hjob)
      exact fun hfailed => h.placed.failed_delayed i queue hfailed hid

/-- A count of live jobs by their hashes is a count of entries and a count of delayed ids. -/
theorem countP_liveRows (p : Int × Option Int → Bool) : (liveRows queue w.keys).countP p =
    (ready queue w.keys).countP (fun e => (w.keys.job e.1).any fun hash => p (fields hash)) +
      (w.keys.delayed queue).items.countP (fun i => (w.keys.job i.1).any fun hash => p (fields hash)) := by
  rw [liveRows, List.countP_map, List.countP_filterMap, (live_perm_places h queue).countP_eq, List.countP_append,
    List.countP_map, List.countP_map]
  congr 2
  · funext e
    cases hjob : w.keys.job e.1 <;> simp [hjob]
  · funext i
    cases hjob : w.keys.job i.1 <;> simp [hjob]

end

/-- What counts under `p` counts under one of two others. -/
theorem countP_eq_add {α : Type} {p q r : α → Bool} {l : List α}
    (h : ∀ x ∈ l, (p x).toNat = (q x).toNat + (r x).toNat) : l.countP p = l.countP q + l.countP r := by
  induction l with
  | nil => rfl
  | cons x rest ih =>
    rw [List.forall_mem_cons] at h
    have hrest := ih h.2
    have hx := h.1
    have hone : ∀ b : Bool, (if b = true then 1 else 0) = b.toNat := by decide
    rw [List.countP_cons, List.countP_cons, List.countP_cons, hone, hone, hone]
    omega

/-- The claims on the queue are where their jobs are counted: no claim on an entry that was delivered
has run out, and no job is parked under a claim that has not. -/
structure ClaimsInPlace (queue : String) (now : Int) (k : Keyspace) : Prop where
  delivered : ∀ l ∈ (k.levels queue).items.map Prod.fst, ∀ e ∈ (k.stream (queue, l)).entries,
    (k.stream (queue, l)).delivered e = true → ∀ h ∈ k.job e.value, now < h.reservedUntil
  parked : ∀ i ∈ (k.delayed queue).items, now < i.2 → ∀ h ∈ k.job i.1, h.reservedUntil ≤ now

/-- An entry that was delivered, and whose claim has run out. -/
def lapsedEntry (now : Int) (k : Keyspace) (e : Nat × Bool) : Bool :=
  e.2 && (k.job e.1).any fun h => decide (h.reservedUntil ≤ now)

/-- A delayed id, not yet due, of a job that is held. -/
def parkedHeld (now : Int) (k : Keyspace) (i : Nat × Int) : Bool :=
  decide (now < i.2) && (k.job i.1).any fun h => decide (now < h.reservedUntil)

theorem claimsInPlace_iff {queue : String} {now : Int} {k : Keyspace} : ClaimsInPlace queue now k ↔
    (ready queue k).countP (lapsedEntry now k) = 0 ∧
      (k.delayed queue).items.countP (parkedHeld now k) = 0 := by
  rw [List.countP_eq_zero, List.countP_eq_zero]
  constructor
  · rintro ⟨hdelivered, hparked⟩
    refine ⟨?_, ?_⟩
    · rintro ⟨id, d⟩ hmem
      obtain ⟨l, hl, e, he, rfl, hd⟩ := mem_ready.mp hmem
      have hall := hdelivered l hl e he
      simp only [lapsedEntry, ← hd, Bool.and_eq_true, Option.any_eq_true, decide_eq_true_eq, not_and]
      rintro hdel ⟨hash, hjob, hle⟩
      exact absurd hle (hall hdel hash hjob).not_ge
    · intro i hi
      simp only [parkedHeld, Bool.and_eq_true, Option.any_eq_true, decide_eq_true_eq, not_and]
      rintro hlate ⟨hash, hjob, hlt⟩
      exact absurd hlt (hparked i hi hlate hash hjob).not_gt
  · rintro ⟨hdelivered, hparked⟩
    refine ⟨?_, ?_⟩
    · intro l hl e he hdel hash hjob
      have hnot := hdelivered _ (mem_ready.mpr ⟨l, hl, e, he, rfl, hdel⟩)
      simp only [lapsedEntry, Bool.true_and, Option.any_eq_true, decide_eq_true_eq, not_exists, not_and, not_le] at hnot
      exact hnot hash hjob
    · intro i hi hlate hash hjob
      have hnot := hparked i hi
      simp only [parkedHeld, decide_eq_true hlate, Bool.true_and, Option.any_eq_true, decide_eq_true_eq, not_exists,
        not_and, not_lt] at hnot
      exact hnot hash hjob

theorem fields_pending {now : Int} (hnow : 0 ≤ now) (h : JobHash) :
    (decide ((fields h).1 ≤ now) && (fields h).2.all fun u => decide (u ≤ now)) =
      (decide (h.availableAt ≤ now) && decide (h.reservedUntil ≤ now)) := by
  unfold fields
  dsimp only
  congr 1
  split
  · rename_i hzero
    rw [hzero]
    exact (decide_eq_true hnow).symm
  · rfl

theorem fields_delayed (now : Int) (h : JobHash) : decide (now < (fields h).1) = decide (now < h.availableAt) := rfl

theorem fields_held {now : Int} (hnow : 0 ≤ now) (h : JobHash) :
    ((fields h).2.any fun u => decide (now < u)) = decide (now < h.reservedUntil) := by
  unfold fields
  dsimp only
  split
  · rename_i hzero
    rw [hzero]
    exact (decide_eq_false hnow.not_gt).symm
  · rfl

section
variable {now : Int} {w : World} (h : Accounted now w) (hnow : 0 ≤ now) (queue : String)

include h

/-- A job with an entry is due; the group has got to the entry unless the claim has run out. -/
theorem ready_job {e : Nat × Bool} (he : e ∈ ready queue w.keys) :
    ∃ hash, w.keys.job e.1 = some hash ∧ hash.availableAt ≤ now ∧ (e.2 = false → hash.reservedUntil ≤ now) := by
  obtain ⟨id, d⟩ := e
  obtain ⟨l, -, e, hmem, rfl, rfl⟩ := mem_ready.mp he
  obtain ⟨hash, hjob⟩ := Option.ne_none_iff_exists'.mp (h.present.entry_job queue l e hmem)
  exact ⟨hash, hjob, h.kept.entry_due queue l e hash hmem hjob, fun hd => h.kept.unread queue l e hash hmem hd hjob⟩

theorem delayed_hash {i : Nat × Int} (hi : i ∈ (w.keys.delayed queue).items) :
    ∃ hash, w.keys.job i.1 = some hash ∧
      (i.2 = hash.availableAt ∧ hash.reservedUntil ≤ now ∨ i.2 = hash.reservedUntil ∧ hash.availableAt ≤ now) := by
  obtain ⟨id, s⟩ := i
  obtain ⟨hash, hjob⟩ := Option.ne_none_iff_exists'.mp (h.present.delayed_job queue id (SortedSet.mem_of_item hi))
  exact ⟨hash, hjob, h.kept.delayed_at queue id s hash hi hjob⟩

theorem ready_pending : (ready queue w.keys).countP (fun e => (w.keys.job e.1).any fun hash =>
      decide (hash.availableAt ≤ now) && decide (hash.reservedUntil ≤ now)) =
    (ready queue w.keys).countP (fun e => !e.2) + (ready queue w.keys).countP (lapsedEntry now w.keys) := by
  apply countP_eq_add
  intro e he
  obtain ⟨hash, hjob, hdue, hunread⟩ := ready_job h queue he
  cases hd : e.2 with
  | false => simp [lapsedEntry, hjob, hdue, hd, hunread hd]
  | true => simp [lapsedEntry, hjob, hdue, hd]

theorem ready_reserved : (ready queue w.keys).countP Prod.snd =
    (ready queue w.keys).countP (fun e => (w.keys.job e.1).any fun hash => decide (now < hash.reservedUntil)) +
      (ready queue w.keys).countP (lapsedEntry now w.keys) := by
  apply countP_eq_add
  intro e he
  obtain ⟨hash, hjob, -, hunread⟩ := ready_job h queue he
  cases hd : e.2 with
  | false => simp [lapsedEntry, hjob, hd, (hunread hd).not_gt]
  | true =>
    by_cases hlapsed : hash.reservedUntil ≤ now
    · simp [lapsedEntry, hjob, hd, hlapsed, hlapsed.not_gt]
    · simp [lapsedEntry, hjob, hd, hlapsed, not_le.mp hlapsed]

theorem ready_delayed :
    (ready queue w.keys).countP (fun e => (w.keys.job e.1).any fun hash => decide (now < hash.availableAt)) = 0 := by
  rw [List.countP_eq_zero]
  intro e he
  obtain ⟨hash, hjob, hdue, -⟩ := ready_job h queue he
  simp [hjob, hdue]

theorem delayed_pending : (w.keys.delayed queue).items.countP (fun i => (w.keys.job i.1).any fun hash =>
      decide (hash.availableAt ≤ now) && decide (hash.reservedUntil ≤ now)) =
    (w.keys.delayed queue).items.countP fun i => decide (i.2 ≤ now) := by
  apply List.countP_congr
  intro i hi
  obtain ⟨hash, hjob, hat⟩ := delayed_hash h queue hi
  rw [hjob, Option.any_some, Bool.and_eq_true, decide_eq_true_eq, decide_eq_true_eq, decide_eq_true_eq]
  omega

theorem delayed_reserved : (w.keys.delayed queue).items.countP (fun i => (w.keys.job i.1).any fun hash =>
      decide (now < hash.reservedUntil)) =
    (w.keys.delayed queue).items.countP (parkedHeld now w.keys) := by
  apply List.countP_congr
  intro i hi
  obtain ⟨hash, hjob, hat⟩ := delayed_hash h queue hi
  rw [parkedHeld, hjob, Option.any_some, Bool.and_eq_true, decide_eq_true_eq, decide_eq_true_eq]
  omega

theorem delayed_delayed : (w.keys.delayed queue).items.countP (fun i => decide (now < i.2)) =
    (w.keys.delayed queue).items.countP (fun i => (w.keys.job i.1).any fun hash => decide (now < hash.availableAt)) +
      (w.keys.delayed queue).items.countP (parkedHeld now w.keys) := by
  apply countP_eq_add
  intro i hi
  obtain ⟨hash, hjob, hat⟩ := delayed_hash h queue hi
  rw [parkedHeld, hjob, Option.any_some, Option.any_some]
  rcases hat with ⟨hscore, hlapsed⟩ | ⟨hscore, hdue⟩
  · simp [hscore, hlapsed.not_gt]
  · simp [hscore, hdue.not_gt]

include hnow

/-- **What Postgres would count**: the jobs whose claim has run out are pending instead of reserved, and
the parked ones are reserved instead of delayed. -/
theorem pgStats_eq :
    (pgStats now (liveRows queue w.keys)).pending =
      (counts queue now w.keys).pending + (ready queue w.keys).countP (lapsedEntry now w.keys) ∧
    (counts queue now w.keys).delayed =
      (pgStats now (liveRows queue w.keys)).delayed + (w.keys.delayed queue).items.countP (parkedHeld now w.keys) ∧
    (counts queue now w.keys).reserved + (w.keys.delayed queue).items.countP (parkedHeld now w.keys) =
      (pgStats now (liveRows queue w.keys)).reserved + (ready queue w.keys).countP (lapsedEntry now w.keys) ∧
    (pgStats now (liveRows queue w.keys)).total = (counts queue now w.keys).total := by
  have htotal : (liveRows queue w.keys).length = (ready queue w.keys).length + (w.keys.delayed queue).items.length := by
    have hall := countP_liveRows h queue fun _ => true
    rw [List.countP_true, List.countP_eq_length.mpr, List.countP_eq_length.mpr] at hall
    · exact hall
    · intro i hi
      obtain ⟨hash, hjob, -⟩ := delayed_hash h queue hi
      rw [hjob]
      rfl
    · intro e he
      obtain ⟨hash, hjob, -⟩ := ready_job h queue he
      rw [hjob]
      rfl
  have hrp := ready_pending h queue
  have hrr := ready_reserved h queue
  have hrd := ready_delayed h queue
  have hdp := delayed_pending h queue
  have hdr := delayed_reserved h queue
  have hdd := delayed_delayed h queue
  rw [counts_eq h.kept.tidy]
  simp only [pgStats, countP_liveRows h, fields_pending hnow, fields_delayed, fields_held hnow]
  omega

end

/-- **Redis reports what Postgres would**, of a run in which no completion leaves anything of its job
elsewhere, if and only if no claim of the queue has run out on an entry and none is parked. -/
theorem counts_eq_pgStats_iff (calls : List Call) (hr : machine.Admissible leavesNothing .empty calls) (queue : String)
    (now : Int) (hnow : 0 ≤ now) (hclock : ∀ t ∈ calls.filterMap Call.second, t ≤ now) :
    counts queue now (machine.run .empty calls).keys = pgStats now (liveRows queue (machine.run .empty calls).keys) ↔
      ClaimsInPlace queue now (machine.run .empty calls).keys := by
  obtain ⟨hpending, hdelayed, hreserved, htotal⟩ := pgStats_eq (accounted_run hnow hr hclock) hnow queue
  rw [claimsInPlace_iff]
  constructor
  · intro heq
    rw [heq] at hpending hdelayed
    omega
  · rintro ⟨hlapsed, hparked⟩
    rw [hlapsed] at hpending hreserved
    rw [hparked] at hdelayed hreserved
    have hext : ∀ s t : Status, s.pending = t.pending → s.delayed = t.delayed → s.reserved = t.reserved →
        s.total = t.total → s = t := by
      rintro ⟨_, _, _, _⟩ ⟨_, _, _, _⟩ rfl rfl rfl rfl
      rfl
    exact hext _ _ hpending.symm hdelayed hreserved htotal.symm

/-- One job is held, one is due, one is not, and one is put back for later. -/
def mixedRun : List Call :=
  [.push 1000 ⟨1, ""⟩ {name := "a", payload := "\x7b\x7d"}, .push 1000 ⟨1, ""⟩ {name := "b", payload := "\x7b\x7d"},
    .push 1000 ⟨1, ""⟩ {name := "c", payload := "\x7b\x7d", delay := 5},
    .push 1000 ⟨1, ""⟩ {name := "d", payload := "\x7b\x7d", delay := 60}, .reserve 2000 ⟨2, ""⟩ "default" 300 "w",
    .release 0 ⟨3, ""⟩ 30 "not yet", .reserve 4000 ⟨4, ""⟩ "default" 300 "w"]

theorem mixedRun_counts : machine.Admissible leavesNothing .empty mixedRun ∧
    counts "default" 7 (machine.run .empty mixedRun).keys = ⟨1, 2, 1, 4⟩ ∧
    counts "default" 7 (machine.run .empty mixedRun).keys =
      pgStats 7 (liveRows "default" (machine.run .empty mixedRun).keys) := by
  refine ⟨by decide +kernel, by decide +kernel, ?_⟩
  apply (counts_eq_pgStats_iff mixedRun (by decide +kernel) "default" 7 (by decide) (by decide)).mpr
  exact ⟨by decide +kernel, by decide +kernel⟩

/-- A worker claims the only job for ten seconds, and dies. -/
def lapsedRun : List Call :=
  [.push 1000 ⟨1, ""⟩ {name := "a", payload := "\x7b\x7d"}, .reserve 1000 ⟨1, ""⟩ "default" 10 "w"]

/-- Eleven seconds later the job is free to be picked up, and Redis says that nothing is pending. -/
theorem lapsed_claim_reserved : machine.Admissible leavesNothing .empty lapsedRun ∧
    counts "default" 12 (machine.run .empty lapsedRun).keys = ⟨0, 0, 1, 1⟩ ∧
    pgStats 12 (liveRows "default" (machine.run .empty lapsedRun).keys) = ⟨1, 0, 0, 1⟩ ∧
    counts "default" 12 (machine.run .empty lapsedRun).keys ≠
      pgStats 12 (liveRows "default" (machine.run .empty lapsedRun).keys) := by
  refine ⟨by decide +kernel, by decide +kernel, by decide +kernel, by decide +kernel⟩

end PyAppRunner.Queue.RedisQueue
