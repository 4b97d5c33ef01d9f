import PyAppRunner.Base.Log
import PyAppRunner.Queue.RedisMoves

/-! When a handle that was taken over is kept from touching the job.

A completion is let through when the pair its handle carries, the worker's name and
the attempt number, is the one in the hash. Within one budget the attempt numbers
grow, so the pair names one claim. `retry` starts them again from 0 under the same
id: a worker of the same name then makes a claim with the same pair, and for as long
as that claim holds the job the old handle passes for it (`stale_handle_deletes`).
That is the only way through (`stale_handle_fenced_iff`). -/
namespace PyAppRunner.Queue.RedisQueue
open Redis Base

/-- Workers have a name. -/
def namedWorker : Call → World → Prop
  | .reserve _ _ _ _ worker, _ => worker ≠ ""
  | _, _ => True

instance : (c : Call) → (w : World) → Decidable (namedWorker c w)
  | .reserve _ _ _ _ worker, _ => inferInstanceAs (Decidable (worker ≠ ""))
  | .delete _, _ => .isTrue trivial
  | .release .., _ => .isTrue trivial
  | .fail .., _ => .isTrue trivial
  | .push .., _ => .isTrue trivial
  | .retry .., _ => .isTrue trivial
  | .forget _, _ => .isTrue trivial

/-- The calls that end claim `n`. -/
inductive Ends (n : Nat) : Call → Prop
  | delete : Ends n (.delete n)
  | release (moment : Moment) (delay : Int) (error : String) : Ends n (.release n moment delay error)
  | fail (moment : Moment) (error : String) : Ends n (.fail n moment error)

/-- `c'` is the job's most recent claim, and was made after claim `n`, which is `c`. -/
def Superseded (w : World) (n : Nat) (c c' : Claim) : Prop :=
  w.claims[n]? = some c ∧ ∃ m, n < m ∧ Latest (·.job.id) w.claims c.job.id m c'

/-- The two claims carry the same pair. -/
def SamePair (c c' : Claim) : Prop :=
  c.job.reservedBy = c'.job.reservedBy ∧ c.job.attempts = c'.job.attempts

theorem reservedName_ne_empty {worker : String} (h : worker ≠ "") : reservedName worker ≠ "" := by
  intro hname
  have hnil : worker.toList.take 64 = [] := by
    have := congrArg String.toList hname
    simpa [reservedName] using this
  rw [List.take_eq_nil_iff] at hnil
  rcases hnil with h64 | hnil
  · cases h64
  · exact h (String.toList_eq_nil_iff.mp hnil)

/-- Claims have a name, and a named hash names its job's most recent claim. -/
structure NamesLatest (w : World) : Prop where
  named : ∀ c ∈ w.claims, c.job.reservedBy ≠ ""
  latest : ∀ id h, w.keys.job id = some h → h.reservedBy ≠ "" →
    ∃ m c, Latest (·.job.id) w.claims id m c ∧ c.job.reservedBy = h.reservedBy ∧
      c.job.attempts = h.attempts

theorem namesLatest_empty : NamesLatest World.empty := by
  constructor <;> simp [World.empty, Keyspace.empty]

/-- A move that makes no claim and names no worker keeps what the hashes say. -/
theorem NamesLatest.keep {w w' : World} (hn : NamesLatest w) (hclaims : w'.claims = w.claims)
    (hjob : ∀ id h, w'.keys.job id = some h → h.reservedBy ≠ "" →
      ∃ h₀, w.keys.job id = some h₀ ∧ h₀.reservedBy = h.reservedBy ∧ h₀.attempts = h.attempts) :
    NamesLatest w' := by
  constructor
  · rw [hclaims]
    exact hn.named
  · intro id h hid hne
    obtain ⟨h₀, hid₀, hby, hattempts⟩ := hjob id h hid hne
    obtain ⟨m, c, hlatest, hc⟩ := hn.latest id h₀ hid₀ (by rw [hby]; exact hne)
    rw [hclaims, ← hby, ← hattempts]
    exact ⟨m, c, hlatest, hc⟩

theorem NamesLatest.claim {w : World} (hn : NamesLatest w) {a : ReserveArgs} {e : Entry Nat}
    {h : JobHash} (hname : a.worker ≠ "") :
    NamesLatest (w.handOut (some ⟨e.value, e.id, claimHash a e.id h⟩,
      w.keys.hset e.value (claimHash a e.id h))) := by
  constructor
  · intro c hc
    rcases List.mem_append.mp hc with hc | hc
    · exact hn.named c hc
    · rw [List.mem_singleton.mp hc]
      exact hname
  · intro id h' hjob hne
    simp only [World.handOut, Keyspace.job_hset] at hjob
    split at hjob
    · subst id
      cases hjob
      refine ⟨w.claims.length, _, Latest.append_self (fun c : Claim => c.job.id) w.claims _, rfl, ?_⟩
      show max 1 (h.attempts + 1) = h.attempts + 1
      omega
    · rename_i hid
      obtain ⟨m, c, hlatest, hc⟩ := hn.latest id h' hjob hne
      exact ⟨m, c, hlatest.append_other fun heq => hid heq.symm, hc⟩

theorem NamesLatest.move {w w' : World} (hm : Move namedWorker w w') (hn : NamesLatest w) :
    NamesLatest w' := by
  cases hm with
  | claim a l e h hok hentry hjob hlapsed hleft =>
    obtain ⟨ms, moment, queue, timeout, worker, w₀, hworker, rfl⟩ := hok
    exact hn.claim (reservedName_ne_empty hworker)
  | complete n c h hok hclaim hheld =>
    exact hn.keep rfl (by simp only [World.put, completed, Keyspace.frame_remove,
      Keyspace.frame_freeUnique, Keyspace.job_del]; grind)
  | release n c h moment delay error hok hclaim hheld =>
    exact hn.keep rfl (by simp only [World.put, released, Keyspace.frame_remove,
      Keyspace.frame_delay, Keyspace.job_hset]; grind)
  | pushDelayed a hqueue hmax hfree hlate =>
    exact hn.keep rfl (by simp only [World.put, newHash, Keyspace.frame_delay, job_create]; grind)
  | pushReady ms a hqueue hmax hfree hdue =>
    exact hn.keep rfl (by simp only [World.put, newHash, Keyspace.job_enqueue, job_create]; grind)
  | promote ms q id h hdelayed hjob =>
    exact hn.keep rfl (by simp only [World.put, Keyspace.job_enqueue, Keyspace.frame_undelay]; grind)
  | park q l e h now hentry hjob hheld =>
    exact hn.keep rfl (by simp only [World.put, park, Keyspace.frame_remove, Keyspace.job_hset,
      Keyspace.frame_delay]; grind)
  | exhaust q l e h now failedAt hentry hjob hlapsed hspent =>
    exact hn.keep rfl (by simp only [World.put, Keyspace.job_failJob, Keyspace.frame_remove]; grind)
  | fail n c h moment error hok hclaim hheld =>
    exact hn.keep rfl (by simp only [World.put, Keyspace.job_failJob, Keyspace.frame_remove]; grind)
  | requeue ms id maxAttempts now h hfailed hjob hmax =>
    exact hn.keep rfl (by simp only [requeueHash, Keyspace.frame_saddQueue, Keyspace.job_enqueue,
      Keyspace.frame_unfail]; grind)
  | forget id hfailed =>
    exact hn.keep rfl (by simp only [World.put, Keyspace.job_del, Keyspace.frame_unfail]; grind)
  | freeUnique key holder hkey hgone => exact hn.keep rfl fun _ h hid _ => ⟨h, hid, rfl, rfl⟩
  | dropDelayed q id hdelayed hgone => exact hn.keep rfl fun _ h hid _ => ⟨h, hid, rfl, rfl⟩
  | regroup q l s hentries hdeliverable => exact hn.keep rfl fun _ h hid _ => ⟨h, hid, rfl, rfl⟩
  | dropTombstone q l e hentry hgone => exact hn.keep rfl fun _ h hid _ => ⟨h, hid, rfl, rfl⟩
  | dropFailed id hfailed hgone => exact hn.keep rfl fun _ h hid _ => ⟨h, hid, rfl, rfl⟩

theorem namesLatest_run {calls : List Call} (hr : machine.Admissible namedWorker .empty calls) :
    NamesLatest (machine.run .empty calls) :=
  run_invariant (fun _ _ hm hn => hn.move hm) namesLatest_empty hr

/-! ### The fence -/

/-- A completion whose handle does not hold the job does nothing. -/
theorem step_of_not_held {w : World} {n : Nat} {c : Claim} (hc : w.claims[n]? = some c)
    (hheld : held c.job w.keys = none) {call : Call} (hcall : Ends n call) : w.step call = w := by
  cases hcall <;>
    simp [World.step, World.complete, hc, RedisQueue.complete, RedisQueue.release, RedisQueue.fail,
      hheld]

/-- A delete whose handle holds the job takes the job's hash away. -/
theorem delete_of_held {w : World} {n : Nat} {c : Claim} {h : JobHash} (hc : w.claims[n]? = some c)
    (hheld : held c.job w.keys = some h) : (w.step (.delete n)).keys.job c.job.id = none := by
  simp [World.step, World.complete, hc, RedisQueue.complete, hheld, completed]

/-- **A superseded handle changes nothing, unless the claim that superseded it carries
the same pair and still holds the job.** -/
theorem stale_handle_fenced_iff (calls : List Call)
    (hr : machine.Admissible namedWorker .empty calls) (n : Nat) (c c' : Claim)
    (hs : Superseded (machine.run .empty calls) n c c') :
    (∀ call, Ends n call → ((machine.run .empty calls).step call).keys = (machine.run .empty calls).keys) ↔
      ¬ SamePair c c' ∨ held c'.job (machine.run .empty calls).keys = none := by
  have hn := namesLatest_run hr
  generalize machine.run .empty calls = w at hn hs ⊢
  obtain ⟨hc, m, hnm, hlatest⟩ := hs
  constructor
  · intro hsame
    by_contra hcon
    simp only [not_or, not_not] at hcon
    obtain ⟨⟨hby, hattempts⟩, hsome⟩ := hcon
    obtain ⟨h, hheld⟩ := Option.ne_none_iff_exists'.mp hsome
    obtain ⟨hjob, hhby, hhat⟩ := held_eq_some.mp hheld
    have hid : c'.job.id = c.job.id := hlatest.under
    rw [hid] at hjob
    have hheld' : held c.job w.keys = some h :=
      held_eq_some.mpr ⟨hjob, hhby.trans hby.symm, hhat.trans hattempts.symm⟩
    have hgone := delete_of_held hc hheld'
    rw [hsame _ .delete, hjob] at hgone
    cases hgone
  · intro hcond call hcall
    rcases hheld : held c.job w.keys with _ | h
    · rw [step_of_not_held hc hheld hcall]
    · exfalso
      obtain ⟨hjob, hhby, hhat⟩ := held_eq_some.mp hheld
      have hne : h.reservedBy ≠ "" := by
        rw [hhby]
        exact hn.named c (List.mem_of_getElem? hc)
      obtain ⟨m', d, hd, hdby, hdat⟩ := hn.latest _ h hjob hne
      obtain ⟨rfl, rfl⟩ := hlatest.unique hd
      rcases hcond with hpair | hnone
      · exact hpair ⟨by rw [hdby, hhby], by rw [hdat, hhat]⟩
      · have hid : c'.job.id = c.job.id := hlatest.under
        rw [held_eq_some.mpr ⟨by rw [hid]; exact hjob, hdby.symm, hdat.symm⟩] at hnone
        cases hnone

/-- `w` overruns its claim and `v` takes the job over. -/
def takenOverRun : List Call :=
  [.push 1000 ⟨1, ""⟩ {name := "a", payload := "{}"},
    .reserve 1000 ⟨1, ""⟩ "default" 1 "w", .reserve 3000 ⟨3, ""⟩ "default" 1 "v"]

/-- The two claims a run of two claims of one job has made. -/
theorem superseded_of_two {w : World} {c c' : Claim} (hc : w.claims[0]? = some c)
    (hc' : w.claims[1]? = some c') (hlen : w.claims.length = 2) (hid : c'.job.id = c.job.id) :
    Superseded w 0 c c' := by
  refine ⟨hc, 1, Nat.one_pos, hc', hid, ?_⟩
  intro m y hm hy
  have := (List.getElem?_eq_some_iff.mp hy).1
  omega

/-- The claims of the run, in order: the second is `v`'s, so `w`'s handle is fenced off. -/
theorem takenOverRun_fenced : ∃ c c', Superseded (machine.run .empty takenOverRun) 0 c c' ∧
    ∀ call, Ends 0 call →
      ((machine.run .empty takenOverRun).step call).keys = (machine.run .empty takenOverRun).keys := by
  have hs : Superseded (machine.run .empty takenOverRun) 0
      ⟨⟨1, "default", "a", "{}", 1, 3, ⟨1000, 0⟩, "w"⟩, 0⟩
      ⟨⟨1, "default", "a", "{}", 2, 3, ⟨1000, 0⟩, "v"⟩, 0⟩ :=
    superseded_of_two (by decide +kernel) (by decide +kernel) (by decide +kernel) rfl
  refine ⟨_, _, hs, (stale_handle_fenced_iff takenOverRun (by decide +kernel) 0 _ _ hs).mpr (.inl ?_)⟩
  exact fun hpair => absurd hpair.2 (by decide)

/-- `w` fails its job, an operator retries it, and `w` claims it again. -/
def retriedRun : List Call :=
  [.push 1000 ⟨1, ""⟩ {name := "a", payload := "{}"},
    .reserve 1000 ⟨1, ""⟩ "default" 300 "w", .fail 0 ⟨2, ""⟩ "boom",
    .retry 3000 ⟨3, ""⟩ 1 3, .reserve 3000 ⟨3, ""⟩ "default" 300 "w"]

/-- The handle of the failed claim deletes the job that the second claim holds. -/
theorem stale_handle_deletes : machine.Admissible namedWorker .empty retriedRun ∧
    (∃ c c', Superseded (machine.run .empty retriedRun) 0 c c') ∧
    ¬ ∀ call, Ends 0 call →
      ((machine.run .empty retriedRun).step call).keys = (machine.run .empty retriedRun).keys := by
  refine ⟨by decide +kernel, ⟨⟨⟨1, "default", "a", "{}", 1, 3, ⟨1000, 0⟩, "w"⟩, 0⟩,
    ⟨⟨1, "default", "a", "{}", 1, 3, ⟨3000, 0⟩, "w"⟩, 1⟩, ?_⟩, ?_⟩
  · exact superseded_of_two (by decide +kernel) (by decide +kernel) (by decide +kernel) rfl
  · intro hsame
    have hgone : ((machine.run .empty retriedRun).keys.job 1).isSome = false := by
      rw [← hsame _ .delete]
      decide +kernel
    exact absurd hgone (by decide +kernel)

end PyAppRunner.Queue.RedisQueue
