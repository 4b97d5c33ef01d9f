import PyAppRunner.Queue.RedisMoves

/-! A job is in one place, as long as no parked claim is ended as if it were not.

The places are the failed set, a delayed set and the streams. Parking moves a job
that is still held into the delayed set; its holder may go on to release or fail
it, and the fence lets it, because the pair in the hash is still the holder's. What
tells the two situations apart is the `entry` field: parking and failing clear it,
promoting and putting back set a new one. A release is safe when the field is the
handle's entry, or is empty and the job has not failed; a failure is safe when the
field is the handle's entry, or the job is in the failed set already. In runs that
keep to that, every job is in one place (`one_place`). -/
namespace PyAppRunner.Queue.RedisQueue
open Redis

/-- At most one of the failed set, the delayed sets and the streams names a job, and
at most one entry of all streams names a job that exists. -/
structure OnePlace (k : Keyspace) : Prop where
  failed_delayed : ∀ id q, id ∈ k.failed → id ∉ k.delayed q
  failed_stream : ∀ q l e, e ∈ (k.stream (q, l)).entries → e.value ∉ k.failed
  delayed_stream : ∀ q l e q', e ∈ (k.stream (q, l)).entries → e.value ∉ k.delayed q'
  one_entry : ∀ q l e q' l' e', e ∈ (k.stream (q, l)).entries → e' ∈ (k.stream (q', l')).entries →
    e.value = e'.value → (k.job e.value).isSome → q = q' ∧ l = l' ∧ e = e'

/-- The job's `entry` field allows a release with this handle. -/
def ReleaseSettled (j : Job EntryId) (k : Keyspace) : Prop :=
  ∀ h ∈ held j k, h.entry = some j.handle ∨ h.entry = none ∧ j.id ∉ k.failed

/-- The job's `entry` field allows a failure with this handle. -/
def FailSettled (j : Job EntryId) (k : Keyspace) : Prop :=
  ∀ h ∈ held j k, h.entry = some j.handle ∨ j.id ∈ k.failed

instance (j : Job EntryId) (k : Keyspace) : Decidable (ReleaseSettled j k) :=
  inferInstanceAs (Decidable (∀ h ∈ held j k, _))

instance (j : Job EntryId) (k : Keyspace) : Decidable (FailSettled j k) :=
  inferInstanceAs (Decidable (∀ h ∈ held j k, _))

/-- No claim is released or failed while its job is somewhere else. -/
def settledEntry : Call → World → Prop
  | .release n _ _ _, w => ∀ c ∈ w.claims[n]?, ReleaseSettled c.job w.keys
  | .fail n _ _, w => ∀ c ∈ w.claims[n]?, FailSettled c.job w.keys
  | _, _ => True

instance : (c : Call) → (w : World) → Decidable (settledEntry c w)
  | .release n _ _ _, w => inferInstanceAs (Decidable (∀ c ∈ w.claims[n]?, ReleaseSettled c.job w.keys))
  | .fail n _ _, w => inferInstanceAs (Decidable (∀ c ∈ w.claims[n]?, FailSettled c.job w.keys))
  | .delete _, _ => .isTrue trivial
  | .push .., _ => .isTrue trivial
  | .reserve .., _ => .isTrue trivial
  | .retry .., _ => .isTrue trivial
  | .forget _, _ => .isTrue trivial

/-- The `entry` field of a job that exists says where its only entry can be: none
while the job is delayed or failed. -/
structure Placed (k : Keyspace) : Prop where
  failed_delayed : ∀ id q, id ∈ k.failed → id ∉ k.delayed q
  failed_stream : ∀ q l e, e ∈ (k.stream (q, l)).entries → e.value ∉ k.failed
  delayed_stream : ∀ q l e q', e ∈ (k.stream (q, l)).entries → e.value ∉ k.delayed q'
  entry_at : ∀ q l e h, e ∈ (k.stream (q, l)).entries → k.job e.value = some h →
    h.entry = some e.id ∧ l = h.priority
  failed_entry : ∀ id h, id ∈ k.failed → k.job id = some h → h.entry = none
  delayed_entry : ∀ id q h, id ∈ k.delayed q → k.job id = some h → h.entry = none

theorem placed_empty : Placed Keyspace.empty := by
  constructor <;> simp [Keyspace.empty]

/-- Two entries of one existing job would be in the same stream under the same id. -/
theorem Placed.onePlace {w : World} (hw : Wf w) (hp : Placed w.keys) : OnePlace w.keys := by
  refine ⟨hp.failed_delayed, hp.failed_stream, hp.delayed_stream, ?_⟩
  intro q l e q' l' e' he he' hvalue hsome
  obtain ⟨h, hjob⟩ := Option.isSome_iff_exists.mp hsome
  have hjob' : w.keys.job e'.value = some h := by rw [← hvalue]; exact hjob
  obtain ⟨hid, hl⟩ := hp.entry_at q l e h he hjob
  obtain ⟨hid', hl'⟩ := hp.entry_at q' l' e' h he' hjob'
  have hq : q = q' :=
    (hw.entry_queue q l e h he hjob).symm.trans (hw.entry_queue q' l' e' h he' hjob')
  have hll : l = l' := hl.trans hl'.symm
  subst hq hll
  refine ⟨rfl, rfl, XStream.entry_unique he he' ?_⟩
  rw [hid] at hid'
  exact Option.some.inj hid'

/-- A job whose `entry` field is `n`, or is empty, has no entry but `n`, in the stream
its hash names. -/
theorem Placed.entry_eq {w : World} (hw : Wf w) (hp : Placed w.keys) {id : Nat} {h : JobHash}
    {n : EntryId} (hjob : w.keys.job id = some h) (hn : h.entry = some n ∨ h.entry = none) :
    ∀ q l e, e ∈ (w.keys.stream (q, l)).entries → e.value = id →
      q = h.queue ∧ l = h.priority ∧ e.id = n := by
  intro q l e he hvalue
  rw [← hvalue] at hjob
  obtain ⟨hentry, hl⟩ := hp.entry_at q l e h he hjob
  refine ⟨(hw.entry_queue q l e h he hjob).symm, hl, ?_⟩
  rcases hn with hn | hn
  · rw [hn] at hentry
    exact (Option.some.inj hentry).symm
  · rw [hn] at hentry
    cases hentry

theorem Placed.move {w w' : World} (hm : Move settledEntry w w') (hw : Wf w) (hp : Placed w.keys) :
    Placed w'.keys := by
  have ⟨hfd, hfs, hds, hat, hfe, hde⟩ := hp
  have hjob_le := hw.job_le
  have hdelayed_le := hw.delayed_le
  have hentry_le := hw.entry_le
  have hfailed_le := hw.failed_le
  have hdelayed_queue := hw.delayed_queue
  have hentry_queue := hw.entry_queue
  cases hm with
  | freeUnique key holder hkey hgone => constructor <;> simpa [World.put]
  | pushDelayed a hqueue hmax hfree hlate =>
    constructor <;> simp only [World.put, newHash, frame_create, job_create, Keyspace.frame_delay,
      Keyspace.mem_delay] <;> grind
  | pushReady ms a hqueue hmax hfree hdue =>
    constructor <;> simp only [World.put, newHash, frame_create, job_create, Keyspace.frame_enqueue,
      Keyspace.job_enqueue, Keyspace.mem_enqueue] <;> grind
  | promote ms q id h hdelayed hjob =>
    constructor <;> simp only [World.put, Keyspace.frame_enqueue, Keyspace.frame_undelay,
      Keyspace.job_enqueue, Keyspace.mem_enqueue, Keyspace.mem_undelay] <;> grind
  | dropDelayed q id hdelayed hgone =>
    constructor <;> simp only [World.put, Keyspace.frame_undelay, Keyspace.mem_undelay] <;> grind
  | regroup q l s hentries hdeliverable =>
    constructor <;> simp only [World.put, Keyspace.frame_setStream, Keyspace.stream_setStream] <;> grind
  | dropTombstone q l e hentry hgone =>
    constructor <;> simp only [World.put, Keyspace.frame_remove, Keyspace.mem_remove] <;> grind
  | park q l e h now hentry hjob hheld =>
    constructor <;> simp only [World.put, park, Keyspace.frame_remove, Keyspace.frame_hset,
      Keyspace.frame_delay, Keyspace.job_hset, Keyspace.mem_remove, Keyspace.mem_delay] <;> grind
  | exhaust q l e h now failedAt hentry hjob hlapsed hspent =>
    constructor <;> simp only [World.put, Keyspace.frame_remove, Keyspace.frame_failJob,
      Keyspace.job_failJob, Keyspace.mem_failJob, Keyspace.mem_remove] <;> grind
  | claim a l e h hok hentry hjob hlapsed hleft =>
    constructor <;> simp only [World.handOut, claimHash, Keyspace.frame_hset,
      Keyspace.job_hset] <;> grind
  | complete n c h hok hclaim hheld =>
    constructor <;> simp only [World.put, completed, Keyspace.frame_remove, Keyspace.frame_freeUnique,
      Keyspace.frame_del, Keyspace.job_del, Keyspace.mem_remove] <;> grind
  | release n c h moment delay error hok hclaim hheld =>
    obtain ⟨hjob, -⟩ := held_eq_some.mp hheld
    have hq : h.queue = c.job.queue := hw.claim_queue c (List.mem_of_getElem? hclaim) h hjob
    have hsettled := hok c hclaim h hheld
    -- The removal takes the job's last entry, and a job that has failed has none to give.
    have honly := hp.entry_eq hw hjob (hsettled.imp_right And.left)
    have hnot : c.job.id ∉ w.keys.failed := by
      rcases hsettled with hentry | ⟨-, hnot⟩
      · intro hfailed
        rw [hp.failed_entry _ h hfailed hjob] at hentry
        cases hentry
      · exact hnot
    constructor <;> simp only [World.put, released, Keyspace.frame_remove, Keyspace.frame_hset,
      Keyspace.frame_delay, Keyspace.job_hset, Keyspace.mem_remove, Keyspace.mem_delay] <;> grind
  | fail n c h moment error hok hclaim hheld =>
    obtain ⟨hjob, -⟩ := held_eq_some.mp hheld
    have hq : h.queue = c.job.queue := hw.claim_queue c (List.mem_of_getElem? hclaim) h hjob
    have hsettled := hok c hclaim h hheld
    -- As for a release; and a job whose entry is in a stream is in no delayed set.
    have honly := hp.entry_eq hw hjob (hsettled.imp_right fun hfailed => hp.failed_entry _ h hfailed hjob)
    have hnot : ∀ q, c.job.id ∉ w.keys.delayed q := by
      intro q hdelayed
      rcases hsettled with hentry | hfailed
      · rw [hp.delayed_entry _ q h hdelayed hjob] at hentry
        cases hentry
      · exact hp.failed_delayed _ q hfailed hdelayed
    constructor <;> simp only [World.put, Keyspace.frame_remove, Keyspace.frame_failJob,
      Keyspace.job_failJob, Keyspace.mem_failJob, Keyspace.mem_remove] <;> grind
  | requeue ms id maxAttempts now h hfailed hjob hmax =>
    constructor <;> simp only [requeueHash, Keyspace.frame_saddQueue,
      Keyspace.frame_enqueue, Keyspace.frame_unfail, Keyspace.job_enqueue, Keyspace.mem_enqueue,
      Keyspace.mem_unfail] <;> grind
  | dropFailed id hfailed hgone =>
    constructor <;> simp only [World.put, Keyspace.frame_unfail, Keyspace.mem_unfail] <;> grind
  | forget id hfailed =>
    constructor <;> simp only [World.put, Keyspace.frame_del, Keyspace.frame_unfail,
      Keyspace.job_del, Keyspace.mem_unfail] <;> grind

/-- **Every job is in one place** in a run that never ends a claim whose job is elsewhere. -/
theorem one_place (calls : List Call) (hr : machine.Admissible settledEntry .empty calls) :
    OnePlace (machine.run .empty calls).keys :=
  have hinv := run_invariant (I := fun w => Wf w ∧ Placed w.keys)
    (fun _ _ hm hi => ⟨hi.1.move hm, hi.2.move hm hi.1⟩) ⟨wf_empty, placed_empty⟩ hr
  hinv.2.onePlace hinv.1

/-- A held job is parked by a worker with a shorter timeout, and its holder releases it. -/
def parkedRun : List Call :=
  [.push 1000 ⟨1, ""⟩ {name := "a", payload := "{}"},
    .reserve 1000 ⟨1, ""⟩ "default" 3600 "w", .reserve 3000 ⟨3, ""⟩ "default" 1 "v",
    .release 0 ⟨4, ""⟩ 0 "not yet", .reserve 5000 ⟨5, ""⟩ "default" 300 "v"]

theorem parkedRun_one_place : machine.Admissible settledEntry .empty parkedRun ∧
    OnePlace (machine.run .empty parkedRun).keys :=
  ⟨by decide +kernel, one_place parkedRun (by decide +kernel)⟩

/-- The same, but the holder of the parked job fails it. -/
def parkedFailRun : List Call :=
  [.push 1000 ⟨1, ""⟩ {name := "a", payload := "{}"},
    .reserve 1000 ⟨1, ""⟩ "default" 3600 "w", .reserve 3000 ⟨3, ""⟩ "default" 1 "v",
    .fail 0 ⟨4, ""⟩ "boom"]

/-- The job is in the failed set and in the delayed set. -/
theorem parked_job_failed : ¬ OnePlace (machine.run .empty parkedFailRun).keys := fun h =>
  h.failed_delayed 1 "default" (by decide +kernel) (by decide +kernel)

end PyAppRunner.Queue.RedisQueue
