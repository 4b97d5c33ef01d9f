import PyAppRunner.Queue.RedisDelay
import PyAppRunner.Queue.RedisPlaces

/-! Every place says when its job is due.

A stream has the entries of jobs that are due, and its group has pending what it has delivered
and nothing else. A delayed job is scored by the second it is due or, if it was parked, by the
second its claim runs out. So in a run that releases and fails no job away from its entry
(`settledEntry`) and reads no clock past `now`, a job that is due by `now` and held by nobody is in a
stream, or delayed with a score that has come. -/
namespace PyAppRunner.Queue.RedisQueue
open Redis

/-- By `now`, a job with an entry is due, and its claim has run out unless the group has got to the entry;
a delayed job is scored by the second it is due, or by the end of its claim. -/
structure Kept (now : Int) (k : Keyspace) : Prop where
  tidy : ∀ q l, (k.stream (q, l)).Tidy
  entry_due : ∀ q l e h, e ∈ (k.stream (q, l)).entries → k.job e.value = some h → h.availableAt ≤ now
  unread : ∀ q l e h, e ∈ (k.stream (q, l)).entries → (k.stream (q, l)).delivered e = false →
    k.job e.value = some h → h.reservedUntil ≤ now
  delayed_at : ∀ q id s h, (id, s) ∈ (k.delayed q).items → k.job id = some h →
    s = h.availableAt ∧ h.reservedUntil ≤ now ∨ s = h.reservedUntil ∧ h.availableAt ≤ now

theorem kept_empty (now : Int) : Kept now Keyspace.empty := by
  constructor <;> simp [Keyspace.empty, SortedSet.empty, XStream.tidy_empty]

namespace Keyspace
variable (k : Keyspace) (q q' : String) (l l' : Int) (e : Entry Nat)

/-- What a group was given is not forgotten with the entry. -/
@[simp] theorem delivered_remove (n : EntryId) :
    ((k.remove q' l' n).stream (q, l)).delivered e = (k.stream (q, l)).delivered e := by
  rw [remove, stream_setStream]
  split
  · rename_i hkey
    obtain ⟨rfl, rfl⟩ := hkey
    exact XStream.delivered_remove n _ e
  · rfl

@[simp] theorem delivered_enqueue (ms id : Nat) (h : JobHash) :
    ((k.enqueue ms q' l' id h).stream (q, l)).delivered e = (k.stream (q, l)).delivered e := by
  rw [stream_enqueue]
  split
  · rename_i hkey
    obtain ⟨rfl, rfl⟩ := hkey
    rfl
  · rfl

variable {k}

/-- Removing an entry takes it from the group and the stream together. -/
theorem tidy_remove (h : ∀ q l, (k.stream (q, l)).Tidy) (n : EntryId) :
    ((k.remove q' l' n).stream (q, l)).Tidy := by
  rw [remove, stream_setStream]
  split
  · exact (h q' l').remove n
  · exact h q l

/-- A new entry is behind all that was delivered. -/
theorem tidy_enqueue (h : ∀ q l, (k.stream (q, l)).Tidy) (ms id : Nat) (hash : JobHash) :
    ((k.enqueue ms q' l' id hash).stream (q, l)).Tidy := by
  rw [stream_enqueue]
  split
  · exact (h q' l').xadd ms id
  · exact h q l

end Keyspace

section
variable {now : Int} {k : Keyspace}

/-- A group that was given more keeps every job where it is. -/
theorem Kept.regroup (h : Kept now k) {q : String} {l : Int} {s : XStream Nat}
    (hfollows : (k.stream (q, l)).Follows s) : Kept now (k.setStream q l s) := by
  obtain ⟨htidy, hdue, hunread, hat⟩ := h
  obtain ⟨hentries, -, hkeeps, hdelivered⟩ := hfollows
  have hs := hkeeps (htidy q l)
  constructor <;> simp only [Keyspace.frame_setStream, Keyspace.stream_setStream] <;> grind

/-- A delayed job that is due by its score is due by its fields, and held by nobody. -/
theorem Kept.promote (h : Kept now k) (ms : Nat) (q : String) {id : Nat}
    (hscore : ∀ s, (id, s) ∈ (k.delayed q).items → s ≤ now) : Kept now (promote ms q k id) := by
  obtain ⟨htidy, hdue, hunread, hat⟩ := h
  unfold RedisQueue.promote
  split
  · rename_i hdelayed
    obtain ⟨⟨i, s⟩, hitem, rfl⟩ := List.mem_map.mp hdelayed
    have hs := hscore s hitem
    split
    · constructor
      · exact htidy
      all_goals
        simp only [Keyspace.frame_undelay, mem_items_undelay]
        grind
    · rename_i hash hhash
      have hfields := hat q i s hash hitem hhash
      constructor
      · exact fun q' l' => Keyspace.tidy_enqueue q' q l' hash.priority htidy ms i hash
      all_goals
        simp only [Keyspace.frame_undelay, Keyspace.frame_enqueue, Keyspace.job_enqueue, Keyspace.mem_enqueue,
          Keyspace.delivered_enqueue, mem_items_undelay]
        grind
  · exact ⟨htidy, hdue, hunread, hat⟩

/-- Promotion takes from the delayed set and puts nothing there. -/
theorem items_promote (ms : Nat) (q : String) (id : Nat) {i : Nat} {s : Int}
    (h : (i, s) ∈ ((RedisQueue.promote ms q k id).delayed q).items) : (i, s) ∈ (k.delayed q).items := by
  unfold RedisQueue.promote at h
  split at h
  · split at h
    · exact (mem_items_undelay.mp h).2
    · exact (mem_items_undelay.mp h).2
  · exact h

/-- An entry that is taken has been delivered; whatever becomes of its job, the job is in no other place. -/
theorem Kept.settle (h : Kept now k) (hnow : 0 ≤ now) {w : World} (hw : Wf (w.put k)) (hp : Placed k) {a : ReserveArgs}
    {l : Int} {e : Entry Nat} (he : e ∈ (k.stream (a.queue, l)).entries)
    (hdelivered : (k.stream (a.queue, l)).delivered e = true) : Kept now (settle a l e k).2 := by
  have hnot : ∀ q s, (e.value, s) ∉ (k.delayed q).items := by
    intro q s hitem
    exact hp.delayed_stream a.queue l e q he (SortedSet.mem_of_item hitem)
  have hone := (Placed.onePlace hw hp).one_entry a.queue l e
  obtain ⟨htidy, hdue, hunread, hat⟩ := h
  unfold RedisQueue.settle
  split
  · constructor
    · exact fun q' l' => Keyspace.tidy_remove q' a.queue l' l htidy e.id
    all_goals
      simp only [Keyspace.frame_remove, Keyspace.mem_remove, Keyspace.delivered_remove]
      grind
  · rename_i hash hhash
    have honly : ∀ q' l' e', e' ∈ (k.stream (q', l')).entries → e'.value = e.value →
        a.queue = q' ∧ l = l' ∧ e = e' := by
      intro q' l' e' he' hvalue
      exact hone q' l' e' he he' hvalue.symm (Option.isSome_iff_exists.mpr ⟨hash, hhash⟩)
    split
    · constructor
      · exact fun q' l' => Keyspace.tidy_remove q' a.queue l' l htidy e.id
      all_goals
        simp only [park, Keyspace.frame_remove, Keyspace.frame_hset, Keyspace.frame_delay, Keyspace.job_hset,
          Keyspace.mem_remove, Keyspace.delivered_remove, mem_items_delay]
        grind
    · split
      · constructor
        · exact fun q' l' => Keyspace.tidy_remove q' a.queue l' l htidy e.id
        all_goals
          simp only [Keyspace.frame_remove, Keyspace.frame_failJob, Keyspace.job_failJob, Keyspace.mem_remove,
            Keyspace.delivered_remove]
          grind
      · constructor
        · exact htidy
        all_goals
          simp only [claimHash, Keyspace.frame_hset, Keyspace.job_hset]
          grind

/-- A new job is on its stream if it is due, and else delayed until it is. -/
theorem Kept.pushNew {w : World} (hw : Wf w) (h : Kept now w.keys) (hnow : 0 ≤ now) {a : PushArgs} (ha : a.now ≤ now)
    (ms : Nat) : Kept now (pushNew ms a w.keys).2 := by
  have hentry_le := hw.entry_le
  have hdelayed_le : ∀ q id score, (id, score) ∈ (w.keys.delayed q).items → id ≤ w.keys.seq := by
    intro q id score hitem
    exact hw.delayed_le q id (SortedSet.mem_of_item hitem)
  obtain ⟨htidy, hdue, hunread, hat⟩ := h
  unfold RedisQueue.pushNew
  split
  · constructor
    · exact htidy
    all_goals
      simp only [newHash, frame_create, job_create, Keyspace.frame_delay, mem_items_delay]
      grind
  · constructor
    · exact fun q' l' => Keyspace.tidy_enqueue (k := create a w.keys) q' a.queue l' a.priority htidy ms _ _
    all_goals
      simp only [newHash, frame_create, Keyspace.frame_enqueue, Keyspace.job_enqueue, Keyspace.mem_enqueue,
        Keyspace.delivered_enqueue, job_create]
      grind

/-- A push with a key that is held makes no job. -/
theorem Kept.push {w : World} (hw : Wf w) (h : Kept now w.keys) (hnow : 0 ≤ now) {a : PushArgs} (ha : a.now ≤ now)
    (ms : Nat) : Kept now (RedisQueue.push ms a w.keys).2 := by
  unfold RedisQueue.push
  split
  · exact h.pushNew hw hnow ha ms
  · split
    · exact h.pushNew hw hnow ha ms
    · split
      · exact h
      · rename_i holder hholder hgone
        rw [Bool.not_eq_true, Option.isSome_eq_false_iff, Option.isNone_iff_eq_none] at hgone
        have hfreed : Wf (w.put (w.keys.freeUnique a.unique)) :=
          Wf.move (show Move anyCall w _ from .freeUnique w a.unique holder hholder hgone) hw
        have hkeys : Kept now (w.put (w.keys.freeUnique a.unique)).keys :=
          ⟨h.tidy, h.entry_due, h.unread, h.delayed_at⟩
        exact hkeys.pushNew hfreed hnow ha ms

/-- A job that is done leaves the places of the others. -/
theorem Kept.completed (h : Kept now k) (j : Job EntryId) (hash : JobHash) : Kept now (completed j hash k) := by
  obtain ⟨htidy, hdue, hunread, hat⟩ := h
  constructor
  · exact fun q' l' => Keyspace.tidy_remove q' j.queue l' hash.priority htidy j.handle
  all_goals
    simp only [RedisQueue.completed, Keyspace.frame_remove, Keyspace.frame_freeUnique, Keyspace.frame_del,
      Keyspace.job_del, Keyspace.mem_remove, Keyspace.delivered_remove]
    grind

/-- The job has nothing but the entry of this claim: no other entry and no place in a delayed set. -/
theorem settled_places {w : World} (hw : Wf w) (hp : Placed w.keys) {c : Claim} {hash : JobHash}
    (hheld : held c.job w.keys = some hash) (hmem : c ∈ w.claims) (hsettled : FailSettled c.job w.keys) :
    (∀ q l e, e ∈ (w.keys.stream (q, l)).entries → e.value = c.job.id →
      q = c.job.queue ∧ l = hash.priority ∧ e.id = c.job.handle) ∧
    ∀ q s, (c.job.id, s) ∉ (w.keys.delayed q).items := by
  obtain ⟨hjob, -⟩ := held_eq_some.mp hheld
  have hqueue : hash.queue = c.job.queue := hw.claim_queue c hmem hash hjob
  rw [← hqueue]
  rcases hsettled hash hheld with hentry | hfailed
  · refine ⟨hp.entry_eq hw hjob (.inl hentry), ?_⟩
    intro q s hitem
    rw [hp.delayed_entry _ q hash (SortedSet.mem_of_item hitem) hjob] at hentry
    cases hentry
  · refine ⟨hp.entry_eq hw hjob (.inr (hp.failed_entry _ hash hfailed hjob)), ?_⟩
    intro q s hitem
    exact hp.failed_delayed _ q hfailed (SortedSet.mem_of_item hitem)

section
variable {w : World} (hw : Wf w) (hp : Placed w.keys) (h : Kept now w.keys)

include hw hp h

/-- A job that failed for good waits nowhere any more. -/
theorem Kept.failed (hnow : 0 ≤ now) {c : Claim} {hash : JobHash} (hheld : held c.job w.keys = some hash)
    (hmem : c ∈ w.claims) (hsettled : FailSettled c.job w.keys) (error failedAt : String) (score : Int) :
    Kept now ((w.keys.remove c.job.queue hash.priority c.job.handle).failJob c.job.id hash error failedAt score) := by
  obtain ⟨honly, hnot⟩ := settled_places hw hp hheld hmem hsettled
  obtain ⟨htidy, hdue, hunread, hat⟩ := h
  constructor
  · exact fun q' l' => Keyspace.tidy_remove q' c.job.queue l' hash.priority htidy c.job.handle
  all_goals
    simp only [Keyspace.frame_remove, Keyspace.frame_failJob, Keyspace.job_failJob, Keyspace.mem_remove,
      Keyspace.delivered_remove]
    grind

/-- A release scores the job by the second it writes into it; if the job was parked, it takes that place over. -/
theorem Kept.released (hnow : 0 ≤ now) {c : Claim} {hash : JobHash} (hheld : held c.job w.keys = some hash)
    (hmem : c ∈ w.claims) (hsettled : ReleaseSettled c.job w.keys) (availableAt : Int) (error : String) :
    Kept now (released availableAt error c.job hash w.keys) := by
  obtain ⟨hjob', -⟩ := held_eq_some.mp hheld
  have hqueue : hash.queue = c.job.queue := hw.claim_queue c hmem hash hjob'
  have honly := hp.entry_eq hw hjob' ((hsettled hash hheld).imp_right And.left)
  have hthere : ∀ q s, (c.job.id, s) ∈ (w.keys.delayed q).items → q = c.job.queue := by
    intro q s hitem
    exact (hw.delayed_queue q _ hash (SortedSet.mem_of_item hitem) hjob').symm.trans hqueue
  obtain ⟨htidy, hdue, hunread, hat⟩ := h
  constructor
  · exact fun q' l' => Keyspace.tidy_remove q' c.job.queue l' hash.priority htidy c.job.handle
  all_goals
    simp only [RedisQueue.released, Keyspace.frame_remove, Keyspace.frame_hset, Keyspace.frame_delay,
      Keyspace.job_hset, Keyspace.mem_remove, Keyspace.delivered_remove, mem_items_delay]
    grind

end

/-- A failed job waits in no delayed set. -/
theorem Placed.not_item_of_failed (hp : Placed k) {id : Nat} (hfailed : id ∈ k.failed) :
    ∀ q s, (id, s) ∉ (k.delayed q).items := by
  intro q s hitem
  exact hp.failed_delayed id q hfailed (SortedSet.mem_of_item hitem)

/-- A failed job that goes back on its stream is due at once. -/
theorem Kept.requeue (hp : Placed k) (h : Kept now k) (hnow : 0 ≤ now) {at_ : Int} (hat_ : at_ ≤ now)
    (ms id maxAttempts : Nat) : Kept now (requeue ms id maxAttempts at_ k).2 := by
  have hnot := fun hfailed : id ∈ k.failed => hp.not_item_of_failed hfailed
  have hnone := hp.failed_stream
  obtain ⟨htidy, hdue, hunread, hat⟩ := h
  unfold RedisQueue.requeue
  split
  · rename_i hfailed
    split
    · exact ⟨htidy, hdue, hunread, hat⟩
    · rename_i hash hhash
      constructor
      · exact fun q' l' => Keyspace.tidy_enqueue (k := k.unfail id) q' (requeueQueue hash) l' 0 htidy ms id
          (requeueHash maxAttempts at_ hash)
      all_goals
        simp only [requeueHash, Keyspace.frame_saddQueue, Keyspace.frame_enqueue, Keyspace.frame_unfail,
          Keyspace.job_enqueue, Keyspace.mem_enqueue, Keyspace.delivered_enqueue]
        grind
  · exact ⟨htidy, hdue, hunread, hat⟩

/-- A failed job that is put away was in no place that says anything. -/
theorem Kept.forget (hp : Placed k) (h : Kept now k) (id : Nat) : Kept now (forget id k).2 := by
  have hnot := fun hfailed : id ∈ k.failed => hp.not_item_of_failed hfailed
  have hnone := hp.failed_stream
  obtain ⟨htidy, hdue, hunread, hat⟩ := h
  unfold RedisQueue.forget
  split
  · constructor
    · exact htidy
    all_goals
      simp only [Keyspace.frame_del, Keyspace.frame_unfail, Keyspace.job_del]
      grind
  · exact ⟨htidy, hdue, hunread, hat⟩

end

/-! ### The calls -/

/-- What a run keeps while it reads no clock past `now`. -/
structure Sound (now : Int) (w : World) : Prop where
  wf : Wf w
  placed : Placed w.keys
  kept : Kept now w.keys

theorem sound_empty (now : Int) : Sound now .empty := ⟨wf_empty, placed_empty, kept_empty now⟩

section
variable {now : Int} {w : World}

/-- The references and the places follow the moves; what is left is `Kept`. -/
theorem Sound.of_moves {w' : World} (h : Sound now w) (hm : Moves settledEntry w w') (hkept : Kept now w'.keys) :
    Sound now w' := by
  have hplaced := hm.invariant (I := fun w => Wf w ∧ Placed w.keys)
    (fun _ _ hm hi => ⟨hi.1.move hm, hi.2.move hm hi.1⟩) ⟨h.wf, h.placed⟩
  exact ⟨hplaced.1, hplaced.2, hkept⟩

/-- All that are due, one after the other. -/
theorem Sound.promoteAll (ms : Nat) (q : String) {ids : List Nat} {k : Keyspace} (h : Sound now (w.put k))
    (hscore : ∀ id ∈ ids, ∀ s, (id, s) ∈ (k.delayed q).items → s ≤ now) :
    Sound now (w.put (ids.foldl (promote ms q) k)) := by
  induction ids generalizing k with
  | nil => exact h
  | cons id rest ih =>
    rw [List.forall_mem_cons] at hscore
    apply ih
    · exact h.of_moves (promote_moves (w.put k) ms q id) (h.kept.promote ms q hscore.1)
    · intro i hi s hitem
      exact hscore.2 i hi s (items_promote ms q id hitem)

/-- The batch that `reserve` promotes before it looks. -/
theorem Sound.promoteDue (h : Sound now w) (ms : Nat) {a : ReserveArgs} (ha : a.now ≤ now) :
    Sound now (w.put (promoteDue ms a w.keys)) := by
  apply Sound.promoteAll ms a.queue h
  intro id hid s hitem
  obtain ⟨score, hscore, hitem'⟩ := mem_zrangebyscore hid
  have hsame := List.inj_on_of_nodup_map (w.keys.delayed a.queue).nodup hitem hitem' rfl
  rw [Prod.mk.injEq] at hsame
  rw [hsame.2]
  exact hscore.trans ha

theorem Sound.regroup {k : Keyspace} (h : Sound now (w.put k)) {q : String} {l : Int} {s : XStream Nat}
    (hfollows : (k.stream (q, l)).Follows s) : Sound now (w.put (k.setStream q l s)) :=
  h.of_moves (.single (.regroup (w.put k) q l s hfollows.entries hfollows.deliverable)) (h.kept.regroup hfollows)

/-- One round on a level: the entry is taken and settled. -/
theorem Sound.settle (hnow : 0 ≤ now) {a : ReserveArgs} (hok : Admitted settledEntry a) {k : Keyspace}
    (h : Sound now (w.put k)) {l : Int} {e : Entry Nat} (he : e ∈ (k.stream (a.queue, l)).entries)
    (hdelivered : (k.stream (a.queue, l)).delivered e = true) :
    RoundKeeps (fun k => Sound now (w.put k)) (fun c k => Sound now (w.handOut (some c, k))) (settle a l e k) := by
  have hkept : Kept now (RedisQueue.settle a l e k).2 := h.kept.settle hnow h.wf h.placed he hdelivered
  have hmove := Moves.single (settle_moves (w.put k) a l e hok he)
  change Moves settledEntry (w.put k) ((w.put k).afterRound (RedisQueue.settle a l e k)) at hmove
  generalize RedisQueue.settle a l e k = result at hkept hmove
  obtain ⟨outcome, k'⟩ := result
  cases outcome with
  | stop => exact h.of_moves hmove hkept
  | next => exact h.of_moves hmove hkept
  | claimed c => exact h.of_moves hmove hkept

/-- **A reservation**: promotion, the rounds over the levels, and the claim it hands out. -/
theorem Sound.reserve (hnow : 0 ≤ now) {a : ReserveArgs} (hok : Admitted settledEntry a) (ha : a.now ≤ now)
    (h : Sound now w) (ms : Nat) : Sound now (w.handOut (RedisQueue.reserve ms a w.keys)) := by
  have hwalk : WalkKeeps (fun k => Sound now (w.put k)) (fun c k => Sound now (w.handOut (some c, k)))
      (RedisQueue.reserve ms a w.keys) := by
    apply walk_keeps
    · exact fun k l s hfollows hk => hk.regroup hfollows
    · intro k l s e hfollows he hdelivered hk
      apply (hk.regroup hfollows).settle hnow hok
      · rwa [Keyspace.stream_setStream, if_pos ⟨rfl, rfl⟩]
      · rw [Keyspace.stream_setStream, if_pos ⟨rfl, rfl⟩]
        exact hdelivered (hk.kept.tidy a.queue l)
    · exact h.promoteDue ms ha
  generalize RedisQueue.reserve ms a w.keys = result at hwalk
  obtain ⟨claimed, k⟩ := result
  cases claimed with
  | none => exact hwalk
  | some c => exact hwalk

/-- **A completion**, if its script keeps the places for the claim that it is given. -/
theorem Sound.complete {c : Call} (h : Sound now w) (n : Nat) {script : Job EntryId → Keyspace → Bool × Keyspace}
    (hstep : World.step c w = w.complete n script) (hok : settledEntry c w)
    (hscript : ∀ cl, w.claims[n]? = some cl → Kept now (script cl.job w.keys).2) : Sound now (World.step c w) := by
  apply h.of_moves (step_moves c w hok)
  rw [hstep]
  unfold World.complete
  split
  · exact h.kept
  · exact hscript _ ‹_›

/-- **Every call keeps every place.** -/
theorem sound_step (hnow : 0 ≤ now) {c : Call} (hok : settledEntry c w) (hclock : ∀ t ∈ c.second, t ≤ now)
    (h : Sound now w) : Sound now (World.step c w) := by
  -- The moves of a call keep the keyspace well formed, so for each call only its places are left to show.
  cases c with
  | push ms moment r =>
    apply h.of_moves (step_moves _ w hok)
    exact h.kept.push h.wf hnow (hclock _ rfl) ms
  | reserve ms moment queue timeout worker =>
    exact h.reserve hnow ⟨ms, moment, queue, timeout, worker, w, hok, rfl⟩ (hclock _ rfl) ms
  | delete n =>
    apply h.complete n rfl hok
    intro cl hcl
    unfold RedisQueue.complete
    split
    · exact h.kept
    · exact h.kept.completed cl.job _
  | release n moment delay error =>
    apply h.complete n rfl hok
    intro cl hcl
    unfold RedisQueue.release
    split
    · exact h.kept
    · exact h.kept.released h.wf h.placed hnow ‹_› (List.mem_of_getElem? hcl) (hok cl hcl) _ _
  | fail n moment error =>
    apply h.complete n rfl hok
    intro cl hcl
    unfold RedisQueue.fail
    split
    · exact h.kept
    · exact h.kept.failed h.wf h.placed hnow ‹_› (List.mem_of_getElem? hcl) (hok cl hcl) _ _ _
  | retry ms moment id maxAttempts =>
    apply h.of_moves (step_moves _ w hok)
    have hkept := h.kept.requeue h.placed hnow (hclock _ rfl) ms id (max 1 maxAttempts).toNat
    unfold World.step
    dsimp only
    split
    · rename_i k heq
      rw [heq] at hkept
      exact hkept
    · rename_i k heq
      rw [heq] at hkept
      exact hkept
  | forget id =>
    apply h.of_moves (step_moves _ w hok)
    exact h.kept.forget h.placed id

/-- **Every run.** -/
theorem sound_run (hnow : 0 ≤ now) {calls : List Call} (hr : machine.Admissible settledEntry .empty calls)
    (hclock : ∀ t ∈ calls.filterMap Call.second, t ≤ now) : Sound now (machine.run .empty calls) := by
  have hreads : ∀ c ∈ calls, ∀ t ∈ c.second, t ≤ now :=
    fun c hc t ht => hclock t (List.mem_filterMap.mpr ⟨c, hc, ht⟩)
  exact Base.Machine.invariant (m := machine) (fun c w hok hi => sound_step hnow hok.1 hok.2 hi) (sound_empty now)
    (hr.and_forall hreads)

end

end PyAppRunner.Queue.RedisQueue
