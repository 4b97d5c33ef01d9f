import PyAppRunner.Queue.RedisMoves

/-! No job is lost, as long as a completion finds no other job's entry in its way.

A job that exists and has not failed must stay where some later reserve can find
it: in its queue's delayed set, or in a listed stream of its queue as an entry the
group has still to deliver or has pending (`Waiting`). Every move keeps that for
every job, with one exception. A completion acknowledges and deletes *its handle's
entry id* in the stream that *the job's priority names now*. Ids are unique only
within a stream, and `retry` moves a job to priority 0, so the id may belong to
another job there; that job then loses its only entry (`foreign_entry_removed`).
Runs in which no completion meets a foreign entry lose nothing (`never_lost`). -/
namespace PyAppRunner.Queue.RedisQueue
open Redis

/-- Some later reserve on that queue can find the job. -/
def Keyspace.Waiting (k : Keyspace) (queue : String) (id : Nat) : Prop :=
  id ∈ k.delayed queue ∨
    ∃ l ∈ k.levels queue, ∃ e : Entry Nat, e.value = id ∧ (k.stream (queue, l)).Deliverable e

/-- Every job that exists and is not in the failed set is waiting in its own queue. -/
def Delivers (k : Keyspace) : Prop :=
  ∀ id h, k.job id = some h → id ∉ k.failed → k.Waiting h.queue id

/-- The entry under the handle's id, in the stream the job's priority names now, is
the job's own. -/
def OwnEntry (j : Job EntryId) (k : Keyspace) : Prop :=
  ∀ h, held j k = some h →
    ∀ e ∈ (k.stream (j.queue, h.priority)).entries, e.id = j.handle → e.value = j.id

instance (j : Job EntryId) (k : Keyspace) : Decidable (OwnEntry j k) :=
  decidable_of_iff (∀ h ∈ held j k,
    ∀ e ∈ (k.stream (j.queue, h.priority)).entries, e.id = j.handle → e.value = j.id) Iff.rfl

/-- No completion meets an entry of another job. -/
def addressesOwn : Call → World → Prop
  | .delete n, w => ∀ c ∈ w.claims[n]?, OwnEntry c.job w.keys
  | .release n _ _ _, w => ∀ c ∈ w.claims[n]?, OwnEntry c.job w.keys
  | .fail n _ _, w => ∀ c ∈ w.claims[n]?, OwnEntry c.job w.keys
  | _, _ => True

instance : (c : Call) → (w : World) → Decidable (addressesOwn c w)
  | .delete n, w => inferInstanceAs (Decidable (∀ c ∈ w.claims[n]?, OwnEntry c.job w.keys))
  | .release n _ _ _, w => inferInstanceAs (Decidable (∀ c ∈ w.claims[n]?, OwnEntry c.job w.keys))
  | .fail n _ _, w => inferInstanceAs (Decidable (∀ c ∈ w.claims[n]?, OwnEntry c.job w.keys))
  | .push .., _ => .isTrue trivial
  | .reserve .., _ => .isTrue trivial
  | .retry .., _ => .isTrue trivial
  | .forget _, _ => .isTrue trivial

/-! ### What each command does to a waiting job -/

namespace Keyspace
variable {k : Keyspace} {q : String} {i : Nat}

/-- Nothing but the delayed sets, the levels and the streams decides whether a job waits. -/
theorem Waiting.congr {m : Keyspace} (h : k.Waiting q i) (hdelayed : m.delayed = k.delayed)
    (hlevels : m.levels = k.levels) (hstream : m.stream = k.stream) : m.Waiting q i := by
  unfold Waiting
  rw [hdelayed, hlevels, hstream]
  exact h

theorem Waiting.hset (h : k.Waiting q i) (id : Nat) (hash : JobHash) : (k.hset id hash).Waiting q i :=
  h.congr rfl rfl rfl

theorem Waiting.failJob (h : k.Waiting q i) (id : Nat) (hash : JobHash) (error failedAt : String)
    (s : Int) : (k.failJob id hash error failedAt s).Waiting q i := h.congr rfl rfl rfl

theorem waiting_delay (k : Keyspace) (q : String) (s : Int) (id : Nat) : (k.delay q s id).Waiting q id :=
  .inl (by simp)

theorem Waiting.delay (h : k.Waiting q i) (q' : String) (s : Int) (id : Nat) :
    (k.delay q' s id).Waiting q i := by
  rcases h with hd | hs
  · exact .inl (by simp [hd])
  · exact .inr hs

theorem Waiting.undelay (h : k.Waiting q i) (q' : String) {id : Nat} (hne : i ≠ id) :
    (k.undelay q' id).Waiting q i := by
  rcases h with hd | hs
  · exact .inl (by simp [hd, hne])
  · exact .inr hs

theorem waiting_enqueue (k : Keyspace) (ms : Nat) (q : String) (l : Int) (id : Nat) (h : JobHash) :
    (k.enqueue ms q l id h).Waiting q id := by
  refine .inr ⟨l, by simp, ⟨(k.stream (q, l)).nextId ms, id⟩, rfl, ?_⟩
  rw [stream_enqueue, if_pos ⟨rfl, rfl⟩]
  exact XStream.deliverable_xadd_self ..

theorem Waiting.enqueue (hw : k.Waiting q i) (ms : Nat) (q' : String) (l' : Int) (id : Nat)
    (h : JobHash) : (k.enqueue ms q' l' id h).Waiting q i := by
  rcases hw with hd | ⟨l, hl, e, he, hdel⟩
  · exact .inl (by simpa using hd)
  · refine .inr ⟨l, by simp [hl], e, he, ?_⟩
    rw [stream_enqueue]
    split
    · rename_i hkey
      obtain ⟨rfl, rfl⟩ := hkey
      exact hdel.xadd ..
    · exact hdel

theorem Waiting.setStream (hw : k.Waiting q i) (q' : String) (l' : Int) {s : XStream Nat}
    (hs : ∀ e : Entry Nat, e.value = i → (k.stream (q', l')).Deliverable e → s.Deliverable e) :
    (k.setStream q' l' s).Waiting q i := by
  rcases hw with hd | ⟨l, hl, e, he, hdel⟩
  · exact .inl hd
  · refine .inr ⟨l, hl, e, he, ?_⟩
    rw [stream_setStream]
    split
    · rename_i hkey
      obtain ⟨rfl, rfl⟩ := hkey
      exact hs e he hdel
    · exact hdel

/-- Removing an entry that names another job. -/
theorem Waiting.remove (hw : k.Waiting q i) (q' : String) (l' : Int) {n : EntryId}
    (hother : ∀ e ∈ (k.stream (q', l')).entries, e.id = n → e.value ≠ i) :
    (k.remove q' l' n).Waiting q i :=
  hw.setStream q' l' fun _ he hdel => hdel.remove fun hid => hother _ hdel.1 hid he

end Keyspace

theorem ne_of_gone {k : Keyspace} {i id : Nat} {h : JobHash} (hjob : k.job i = some h)
    (hgone : k.job id = none) : i ≠ id := by
  rintro rfl
  rw [hgone] at hjob
  cases hjob

/-- An entry that was taken is the only one under its id. -/
theorem other_entry {s : XStream Nat} {e : Entry Nat} (he : e ∈ s.entries) {i : Nat}
    (hne : i ≠ e.value) : ∀ e' ∈ s.entries, e'.id = e.id → e'.value ≠ i := by
  intro e' he' hid
  rw [XStream.entry_unique he' he hid]
  exact hne.symm

/-- A completion that meets only its own entry leaves every other job waiting. -/
theorem OwnEntry.remove {j : Job EntryId} {k : Keyspace} {h : JobHash} (hown : OwnEntry j k)
    (hheld : held j k = some h) {q : String} {i : Nat} (hw : k.Waiting q i) (hne : i ≠ j.id) :
    (k.remove j.queue h.priority j.handle).Waiting q i :=
  hw.remove _ _ fun e he hid hvalue => hne (hvalue.symm.trans (hown h hheld e he hid))

/-! ### Every move keeps every job waiting -/

theorem delivers_move {w w' : World} (hm : Move addressesOwn w w') (hw : Wf w)
    (hd : Delivers w.keys) : Delivers w'.keys := by
  intro i h' hjob' hfailed'
  -- In each case either the job is the one that the move is about, which is then in a place where it is
  -- looked for, or it is another, whose place the move leaves.
  cases hm with
  | freeUnique key holder hkey hgone => exact (hd i h' hjob' hfailed').congr rfl rfl rfl
  | pushDelayed a hqueue hmax hfree hlate =>
    simp only [World.put, Keyspace.frame_delay, job_create] at hjob'
    split at hjob'
    · subst i
      cases hjob'
      exact Keyspace.waiting_delay ..
    · exact ((hd i h' hjob' hfailed').congr (m := create a w.keys) rfl rfl rfl).delay ..
  | pushReady ms a hqueue hmax hfree hdue =>
    simp only [World.put, Keyspace.job_enqueue, job_create] at hjob'
    split at hjob'
    · subst i
      cases hjob'
      exact Keyspace.waiting_enqueue ..
    · exact ((hd i h' hjob' hfailed').congr (m := create a w.keys) rfl rfl rfl).enqueue ..
  | promote ms q id h hdelayed hjob =>
    simp only [World.put, Keyspace.job_enqueue, Keyspace.frame_undelay] at hjob'
    split at hjob'
    · subst i
      cases hjob'
      have hq : h.queue = q := hw.delayed_queue q id h hdelayed hjob
      rw [← hq]
      exact Keyspace.waiting_enqueue ..
    · exact ((hd i h' hjob' hfailed').undelay q ‹_›).enqueue ..
  | dropDelayed q id hdelayed hgone =>
    have hne : i ≠ id := ne_of_gone hjob' hgone
    exact (hd i h' hjob' hfailed').undelay q hne
  | regroup q l s hentries hdeliverable =>
    exact (hd i h' hjob' hfailed').setStream q l fun e _ he => hdeliverable e he
  | dropTombstone q l e hentry hgone =>
    have hne : i ≠ e.value := ne_of_gone hjob' hgone
    exact (hd i h' hjob' hfailed').remove q l (other_entry hentry hne)
  -- A parked job waits in the delayed set, not behind its entry.
  | park q l e h now hentry hjob hheld =>
    simp only [World.put, park, Keyspace.frame_remove, Keyspace.job_hset, Keyspace.frame_delay] at hjob'
    split at hjob'
    · subst i
      cases hjob'
      have hq : h.queue = q := hw.entry_queue q l e h hentry hjob
      subst hq
      exact .inl (by simp [World.put, park])
    · rename_i hne
      exact (((hd i h' hjob' hfailed').delay q _ _).hset _ _).remove q l (other_entry hentry hne)
  | exhaust q l e h now failedAt hentry hjob hlapsed hspent =>
    simp only [World.put, Keyspace.mem_failJob, not_or] at hfailed'
    simp only [World.put, Keyspace.job_failJob, if_neg hfailed'.1] at hjob'
    exact ((hd i h' hjob' hfailed'.2).remove q l (other_entry hentry hfailed'.1)).failJob ..
  | claim a l e h hok hentry hjob hlapsed hleft =>
    simp only [World.handOut, Keyspace.job_hset] at hjob'
    split at hjob'
    · subst i
      cases hjob'
      exact (hd _ h hjob hfailed').hset ..
    · exact (hd i h' hjob' hfailed').hset ..
  | complete n c h hok hclaim hheld =>
    simp only [World.put, completed, Keyspace.job_del, Keyspace.frame_freeUnique] at hjob'
    split at hjob'
    · cases hjob'
    · exact ((hok c hclaim).remove hheld (hd i h' hjob' hfailed') ‹_›).congr rfl rfl rfl
  | release n c h moment delay error hok hclaim hheld =>
    simp only [World.put, released, Keyspace.frame_remove, Keyspace.job_hset, Keyspace.frame_delay] at hjob'
    split at hjob'
    · subst i
      cases hjob'
      have hq : h.queue = c.job.queue :=
        hw.claim_queue c (List.mem_of_getElem? hclaim) h (held_eq_some.mp hheld).1
      exact .inl (by simp [World.put, released, hq])
    · rename_i hne
      exact (((hd i h' hjob' hfailed').delay _ _ _).hset _ _).remove _ _
        fun e he hid hvalue => hne (hvalue.symm.trans (hok c hclaim h hheld e he hid))
  | fail n c h moment error hok hclaim hheld =>
    simp only [World.put, Keyspace.mem_failJob, not_or] at hfailed'
    simp only [World.put, Keyspace.job_failJob, if_neg hfailed'.1] at hjob'
    exact ((hok c hclaim).remove hheld (hd i h' hjob' hfailed'.2) hfailed'.1).failJob ..
  -- The queue of a retried job is the one it had, so it waits where its hash says.
  | requeue ms id maxAttempts now h hfailed hjob hmax =>
    have hq : requeueQueue h = h.queue := if_neg (hw.queue_ne id h hjob)
    simp only [Keyspace.frame_saddQueue, Keyspace.job_enqueue, Keyspace.frame_unfail] at hjob'
    split at hjob'
    · subst i
      cases hjob'
      have hwait := Keyspace.waiting_enqueue (w.keys.unfail id) ms (requeueQueue h) 0 id
        (requeueHash maxAttempts now h)
      show Keyspace.Waiting _ h.queue id
      rw [← hq]
      exact hwait.congr rfl rfl rfl
    · rename_i hne
      simp only [Keyspace.frame_saddQueue, Keyspace.frame_enqueue, Keyspace.mem_unfail, not_and] at hfailed'
      exact (((hd i h' hjob' (hfailed' hne)).congr (m := w.keys.unfail id) rfl rfl rfl).enqueue
        ms (requeueQueue h) 0 id _).congr rfl rfl rfl
  | dropFailed id hfailed hgone =>
    have hne : i ≠ id := ne_of_gone hjob' hgone
    simp only [World.put, Keyspace.mem_unfail, not_and] at hfailed'
    exact (hd i h' hjob' (hfailed' hne)).congr rfl rfl rfl
  | forget id hfailed =>
    simp only [World.put, Keyspace.job_del, Keyspace.frame_unfail] at hjob'
    split at hjob'
    · cases hjob'
    · rename_i hne
      simp only [World.put, Keyspace.frame_del, Keyspace.mem_unfail, not_and] at hfailed'
      exact (hd i h' hjob' (hfailed' hne)).congr rfl rfl rfl

/-- **No job is lost** in a run whose completions meet only their own entries. -/
theorem never_lost (calls : List Call) (hr : machine.Admissible addressesOwn .empty calls) :
    Delivers (machine.run .empty calls).keys :=
  (run_invariant (I := fun w => Wf w ∧ Delivers w.keys)
    (fun _ _ hm hi => ⟨hi.1.move hm, delivers_move hm hi.1 hi.2⟩)
    ⟨wf_empty, by intro id h hjob; cases hjob⟩ hr).2

/-- A job is pushed, claimed, released, claimed again, and completed beside another. -/
def ordinaryRun : List Call :=
  [.push 1000 ⟨1, ""⟩ {name := "a", payload := "{}"},
    .push 1000 ⟨1, ""⟩ {name := "b", payload := "{}", delay := 60},
    .reserve 1500 ⟨1, ""⟩ "default" 300 "w", .release 0 ⟨2, ""⟩ 0 "not yet",
    .reserve 2500 ⟨2, ""⟩ "default" 300 "w", .delete 1]

theorem ordinaryRun_delivers : machine.Admissible addressesOwn .empty ordinaryRun ∧
    Delivers (machine.run .empty ordinaryRun).keys :=
  ⟨by decide +kernel, never_lost ordinaryRun (by decide +kernel)⟩

/-- Jobs 1 (priority 5) and 2 (priority 0) are pushed in one millisecond, so their
entries in the two streams share an id. Worker `w` claims job 1 and overruns; job 1
is found exhausted and fails, `v` claims job 2, and job 1 is retried (priority 0)
and claimed by `w` again. Then the first claim is completed. -/
def foreignRun : List Call :=
  [.push 1000 ⟨1, ""⟩ {name := "a", payload := "{}", priority := 5, maxAttempts := 1},
    .push 1000 ⟨1, ""⟩ {name := "b", payload := "{}"},
    .reserve 1000 ⟨1, ""⟩ "default" 1 "w", .reserve 2000 ⟨2, ""⟩ "default" 1 "v",
    .retry 3000 ⟨3, ""⟩ 1 1, .reserve 3000 ⟨3, ""⟩ "default" 300 "w", .delete 0]

/-- Job 2 exists, has not failed, and is nowhere a reserve could find it. -/
theorem foreign_entry_removed : ¬ Delivers (machine.run .empty foreignRun).keys := by
  intro hd
  have hjob : ((machine.run .empty foreignRun).keys.job 2).map JobHash.queue = some "default" := by
    decide +kernel
  obtain ⟨h, hh, hq⟩ := Option.map_eq_some_iff.mp hjob
  rcases hd 2 h hh (by decide +kernel) with hdelayed | ⟨l, hl, e, he, hdel, _⟩
  · rw [hq] at hdelayed
    exact absurd hdelayed (by decide +kernel)
  · rw [hq] at hl hdel
    have hnone : ∀ l ∈ ((machine.run .empty foreignRun).keys.levels "default").items.map Prod.fst,
        ∀ e ∈ ((machine.run .empty foreignRun).keys.stream ("default", l)).entries, e.value ≠ 2 := by
      decide +kernel
    exact hnone l hl e hdel he

end PyAppRunner.Queue.RedisQueue
