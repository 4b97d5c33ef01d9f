import PyAppRunner.Queue.RedisMoves

/-! Unique keys: `u:{key}` names a job exactly if that job is live and carries the key.

A job carries its key from the push that created it until it is completed or fails; a
failed job carries none, also when it is put back. So the index and the hashes can be
compared by the key alone (`KeysExact`), and the failed set comes in only through the
keys of its members. A push is the only script that writes to the index, and every
other script at most takes a key out of it (`Shrinks`). -/
namespace PyAppRunner.Queue.RedisQueue
open Redis

/-- The hash of the job exists and the job has not failed. -/
def Live (k : Keyspace) (id : Nat) : Prop := (k.job id).isSome ∧ id ∉ k.failed

/-- A live job that carries the key. -/
def Holds (k : Keyspace) (key : String) (id : Nat) : Prop :=
  ∃ h, k.job id = some h ∧ id ∉ k.failed ∧ h.uniqueKey = key

/-! ### What each command does to the index -/

namespace Keyspace
variable (k : Keyspace) (key : String)

theorem unique_freeUnique (freed : String) :
    (k.freeUnique freed).unique key = if freed ≠ "" ∧ key = freed then none else k.unique key := by
  by_cases hfreed : freed = ""
  · simp [freeUnique, hfreed]
  · simp [freeUnique, hfreed, Function.update_apply]

theorem unique_failJob (id : Nat) (h : JobHash) (error failedAt : String) (s : Int) :
    (k.failJob id h error failedAt s).unique key =
      if h.uniqueKey ≠ "" ∧ key = h.uniqueKey then none else k.unique key :=
  unique_freeUnique k key h.uniqueKey

theorem unique_create (a : PushArgs) :
    (create a k).unique key =
      if a.unique ≠ "" ∧ key = a.unique then some (k.seq + 1) else k.unique key := by
  by_cases hunique : a.unique = ""
  · simp [create, hunique, saddQueue, hset]
  · simp [create, hunique, saddQueue, hset, Function.update_apply]

end Keyspace

/-! ### The index is exact -/

/-- A key is in the index exactly with the job that carries it. -/
structure KeysExact (k : Keyspace) : Prop where
  exact : ∀ key id, key ≠ "" → (k.unique key = some id ↔ ∃ h, k.job id = some h ∧ h.uniqueKey = key)
  failed_key : ∀ id h, id ∈ k.failed → k.job id = some h → h.uniqueKey = ""

theorem keysExact_empty : KeysExact Keyspace.empty := by
  constructor <;> simp [Keyspace.empty]

theorem KeysExact.holds_iff {k : Keyspace} (hk : KeysExact k) {key : String} (hkey : key ≠ "") (id : Nat) :
    k.unique key = some id ↔ Holds k key id := by
  rw [hk.exact key id hkey]
  constructor
  · rintro ⟨h, hjob, rfl⟩
    exact ⟨h, hjob, fun hfailed => hkey (hk.failed_key id h hfailed hjob), rfl⟩
  · rintro ⟨h, hjob, -, heq⟩
    exact ⟨h, hjob, heq⟩

/-- No key changes hands, and nothing fails. -/
theorem KeysExact.same {k k' : Keyspace} (hk : KeysExact k) (hunique : k'.unique = k.unique)
    (hjob : ∀ id, (k'.job id).map JobHash.uniqueKey = (k.job id).map JobHash.uniqueKey)
    (hfailed : ∀ id, id ∈ k'.failed → id ∈ k.failed) : KeysExact k' := by
  have hcarries : ∀ id key, (∃ h, k'.job id = some h ∧ h.uniqueKey = key) ↔
      ∃ h, k.job id = some h ∧ h.uniqueKey = key := by
    intro id key
    rw [← Option.map_eq_some_iff, ← Option.map_eq_some_iff, hjob]
  constructor
  · intro key id hkey
    rw [hunique, hcarries]
    exact hk.exact key id hkey
  · intro id h hmem hh
    obtain ⟨h₀, hh₀, heq⟩ := (hcarries id h.uniqueKey).mp ⟨h, hh, rfl⟩
    rw [← heq]
    exact hk.failed_key id h₀ (hfailed id hmem) hh₀

/-- One job's hash is rewritten under the same key. -/
theorem map_uniqueKey_eq {k k' : Keyspace} {id : Nat} {h h' : JobHash} (hjob : k.job id = some h)
    (hkey : h'.uniqueKey = h.uniqueKey) (hset : ∀ i, k'.job i = if i = id then some h' else k.job i) (i : Nat) :
    (k'.job i).map JobHash.uniqueKey = (k.job i).map JobHash.uniqueKey := by
  rw [hset]
  split
  · next heq => rw [heq, hjob, Option.map_some, Option.map_some, hkey]
  · rfl

/-- A new job takes its key, if it has one. -/
theorem KeysExact.create {k : Keyspace} (hk : KeysExact k) (hfresh : k.job (k.seq + 1) = none)
    (hnot : k.seq + 1 ∉ k.failed) {a : PushArgs} (hfree : a.unique = "" ∨ k.unique a.unique = none)
    {k' : Keyspace} {h : JobHash} (hkey : h.uniqueKey = a.unique) (hunique : k'.unique = (create a k).unique)
    (hjob : ∀ i, k'.job i = if i = k.seq + 1 then some h else k.job i) (hfailed : k'.failed = k.failed) :
    KeysExact k' := by
  constructor
  · intro key id hne
    rw [hunique, Keyspace.unique_create, hjob]
    by_cases hid : id = k.seq + 1
    · subst hid
      have hothers : k.unique key ≠ some (k.seq + 1) := by
        intro hheld
        obtain ⟨h, hh, -⟩ := (hk.exact key _ hne).mp hheld
        rw [hfresh] at hh
        cases hh
      by_cases hmine : a.unique ≠ "" ∧ key = a.unique
      · simp [hmine.1, hmine.2, hkey]
      · rw [if_neg hmine]
        simp only [hothers, if_true, Option.some.injEq, exists_eq_left', hkey, false_iff]
        rintro rfl
        exact hmine ⟨hne, rfl⟩
    · simp only [if_neg hid]
      by_cases hmine : a.unique ≠ "" ∧ key = a.unique
      · have hnone : k.unique key = none := hmine.2 ▸ hfree.resolve_left hmine.1
        rw [if_pos hmine, ← hk.exact key id hne, hnone]
        simp [Ne.symm hid]
      · rw [if_neg hmine]
        exact hk.exact key id hne
  · intro id h' hmem hh'
    rw [hfailed] at hmem
    rw [hjob, if_neg (by rintro rfl; exact hnot hmem)] at hh'
    exact hk.failed_key id h' hmem hh'

/-- A job gives up its key: it is completed (`x` is `none`) or fails. -/
theorem KeysExact.giveUp {k : Keyspace} (hk : KeysExact k) {id : Nat} {h : JobHash} (hjob : k.job id = some h)
    {k' : Keyspace} {x : Option JobHash} (hrest : ∀ h' ∈ x, h'.uniqueKey = "")
    (hunique : ∀ key, k'.unique key = if h.uniqueKey ≠ "" ∧ key = h.uniqueKey then none else k.unique key)
    (hset : ∀ i, k'.job i = if i = id then x else k.job i)
    (hfailed : ∀ i, i ∈ k'.failed → i = id ∨ i ∈ k.failed) : KeysExact k' := by
  constructor
  · intro key i hne
    rw [hunique, hset]
    by_cases hi : i = id
    · subst hi
      have hnot : ¬ ∃ h', x = some h' ∧ h'.uniqueKey = key := by
        rintro ⟨h', hh', rfl⟩
        exact hne (hrest h' hh')
      simp only [if_true, hnot, iff_false]
      split
      · simp
      · next hmine =>
        intro hheld
        obtain ⟨h', hh', rfl⟩ := (hk.exact key i hne).mp hheld
        rw [hjob, Option.some.injEq] at hh'
        subst hh'
        exact hmine ⟨hne, rfl⟩
    · simp only [if_neg hi]
      split
      · next hmine =>
        have hheld : k.unique key = some id := (hk.exact key id hne).mpr ⟨h, hjob, hmine.2.symm⟩
        rw [← hk.exact key i hne, hheld]
        simp [Ne.symm hi]
      · exact hk.exact key i hne
  · intro i h' hmem hh'
    rw [hset] at hh'
    by_cases hi : i = id
    · rw [if_pos hi] at hh'
      exact hrest h' hh'
    · rw [if_neg hi] at hh'
      exact hk.failed_key i h' ((hfailed i hmem).resolve_left hi) hh'

theorem KeysExact.move {ok : Call → World → Prop} {w w' : World} (hm : Move ok w w') (hw : Wf w)
    (hk : KeysExact w.keys) : KeysExact w'.keys := by
  have hfresh : w.keys.job (w.keys.seq + 1) = none := by
    cases hjob : w.keys.job (w.keys.seq + 1) with
    | none => rfl
    | some h => exact absurd (hw.job_le _ h hjob) (by omega)
  have hnot : w.keys.seq + 1 ∉ w.keys.failed := by
    intro hfailed
    have := hw.failed_le _ hfailed
    omega
  -- The index changes where a job is made and where one is given up. Elsewhere no key of a hash changes.
  cases hm with
  | freeUnique key holder hkey hgone =>
    constructor
    · intro key' id hne
      rw [World.put, Keyspace.unique_freeUnique]
      split
      · -- The key would be in the index with a job that is gone.
        next heq =>
        obtain ⟨h, hjob, -⟩ := (hk.exact key holder heq.1).mp hkey
        rw [hgone] at hjob
        cases hjob
      · exact hk.exact key' id hne
    · exact hk.failed_key
  | pushDelayed a hqueue hmax hfree hlate =>
    exact hk.create hfresh hnot hfree (h := newHash a) rfl rfl (job_create a w.keys) rfl
  | pushReady ms a hqueue hmax hfree hdue =>
    refine hk.create hfresh hnot hfree
      (h := { newHash a with entry := some ((w.keys.stream (a.queue, a.priority)).nextId ms) }) rfl rfl ?_ rfl
    intro i
    simp only [World.put, Keyspace.job_enqueue, job_create, frame_create]
    split
    · rfl
    · rfl
  | promote ms q id h hdelayed hjob =>
    refine hk.same rfl (map_uniqueKey_eq hjob ?_ fun i => Keyspace.job_enqueue ..) (fun _ hmem => hmem)
    rfl
  | dropDelayed q id hdelayed hgone => exact hk.same rfl (fun _ => rfl) (fun _ hmem => hmem)
  | regroup q l s hentries hdeliverable => exact hk.same rfl (fun _ => rfl) (fun _ hmem => hmem)
  | dropTombstone q l e hentry hgone => exact hk.same rfl (fun _ => rfl) (fun _ hmem => hmem)
  | park q l e h now hentry hjob hheld =>
    refine hk.same rfl (map_uniqueKey_eq hjob ?_ fun i => Keyspace.job_hset ..) (fun _ hmem => hmem)
    rfl
  | exhaust q l e h now failedAt hentry hjob hlapsed hspent =>
    refine hk.giveUp (x := some _) hjob ?_ (fun key => Keyspace.unique_failJob ..)
      (fun i => Keyspace.job_failJob ..) (fun i => (Keyspace.mem_failJob ..).mp)
    intro h' hh'
    obtain rfl := Option.mem_some.mp hh'
    rfl
  | claim a l e h hok hentry hjob hlapsed hleft =>
    refine hk.same rfl (map_uniqueKey_eq hjob ?_ fun i => Keyspace.job_hset ..) (fun _ hmem => hmem)
    rfl
  | complete n c h hok hclaim hheld =>
    refine hk.giveUp (x := none) (held_eq_some.mp hheld).1 (fun h' hh' => by cases hh') ?_ ?_ ?_
    · exact fun key => Keyspace.unique_freeUnique ..
    · exact fun i => Keyspace.job_del ..
    · exact fun i hmem => .inr hmem
  | release n c h moment delay error hok hclaim hheld =>
    refine hk.same rfl (map_uniqueKey_eq (held_eq_some.mp hheld).1 ?_ fun i => Keyspace.job_hset ..)
      (fun _ hmem => hmem)
    rfl
  | fail n c h moment error hok hclaim hheld =>
    refine hk.giveUp (x := some _) (held_eq_some.mp hheld).1 ?_ (fun key => Keyspace.unique_failJob ..)
      (fun i => Keyspace.job_failJob ..) (fun i => (Keyspace.mem_failJob ..).mp)
    intro h' hh'
    obtain rfl := Option.mem_some.mp hh'
    rfl
  -- A retried job has no key: it lost it when it failed.
  | requeue ms id maxAttempts now h hfailed hjob hmax =>
    refine hk.same rfl (map_uniqueKey_eq hjob ?_ fun i => Keyspace.job_enqueue ..)
      fun i hmem => (Keyspace.mem_unfail ..).mp hmem |>.2
    exact (hk.failed_key id h hfailed hjob).symm
  | dropFailed id hfailed hgone =>
    exact hk.same rfl (fun _ => rfl) fun i hmem => (Keyspace.mem_unfail ..).mp hmem |>.2
  | forget id hfailed =>
    constructor
    · intro key i hne
      simp only [World.put, Keyspace.frame_del, Keyspace.frame_unfail, Keyspace.job_del]
      rw [hk.exact key i hne]
      split
      · next heq =>
        subst heq
        constructor
        · rintro ⟨h, hjob, rfl⟩
          exact absurd (hk.failed_key i h hfailed hjob) hne
        · rintro ⟨h, hnone, -⟩
          cases hnone
      · rfl
    · intro i h hmem hjob
      simp only [World.put, Keyspace.frame_del, Keyspace.frame_unfail, Keyspace.job_del] at hjob hmem
      split at hjob
      · cases hjob
      · exact hk.failed_key i h ((Keyspace.mem_unfail ..).mp hmem).2 hjob

/-- Every world a run reaches has an exact index. -/
theorem keysExact_run (calls : List Call) :
    Wf (machine.run .empty calls) ∧ KeysExact (machine.run .empty calls).keys := by
  apply Base.Machine.invariant_all (m := machine) (I := fun w => Wf w ∧ KeysExact w.keys)
  · intro c w hi
    exact (any_moves c w).invariant (I := fun w => Wf w ∧ KeysExact w.keys)
      (fun _ _ hm hi => ⟨hi.1.move hm, hi.2.move hm hi.1⟩) hi
  · exact ⟨wf_empty, keysExact_empty⟩

/-! ### A key that is free stays free -/

/-- What is in the index was there before. -/
def Shrinks (k k' : Keyspace) : Prop := ∀ key id, k'.unique key = some id → k.unique key = some id

theorem Shrinks.refl (k : Keyspace) : Shrinks k k := fun _ _ h => h

theorem Shrinks.of_eq {k k' : Keyspace} (h : k'.unique = k.unique) : Shrinks k k' := by
  intro key id hsome
  rw [← h]
  exact hsome

theorem Shrinks.trans {k₁ k₂ k₃ : Keyspace} (h₁ : Shrinks k₁ k₂) (h₂ : Shrinks k₂ k₃) : Shrinks k₁ k₃ :=
  fun key id hsome => h₁ key id (h₂ key id hsome)

theorem shrinks_freeUnique (k : Keyspace) (freed : String) : Shrinks k (k.freeUnique freed) := by
  intro key id hsome
  rw [Keyspace.unique_freeUnique] at hsome
  split at hsome
  · cases hsome
  · exact hsome

theorem shrinks_failJob (k : Keyspace) (id : Nat) (h : JobHash) (error failedAt : String) (s : Int) :
    Shrinks k (k.failJob id h error failedAt s) := shrinks_freeUnique k h.uniqueKey

theorem shrinks_promoteDue (ms : Nat) (a : ReserveArgs) (k : Keyspace) : Shrinks k (promoteDue ms a k) := by
  have hone : ∀ (k : Keyspace) (id : Nat), Shrinks k (promote ms a.queue k id) := by
    intro k id
    unfold promote
    split
    · split
      · exact .of_eq rfl
      · exact .of_eq rfl
    · exact .refl k
  unfold promoteDue
  generalize (k.delayed a.queue).zrangebyscore asText a.now promoteLimit = ids
  induction ids generalizing k with
  | nil => exact .refl k
  | cons id rest ih => exact (hone k id).trans (ih _)

theorem Shrinks.settle {k₀ k : Keyspace} (h : Shrinks k₀ k) (a : ReserveArgs) (l : Int) (e : Entry Nat) :
    RoundKeeps (Shrinks k₀) (fun _ => Shrinks k₀) (settle a l e k) := by
  unfold RedisQueue.settle
  split
  · exact h
  · split
    · exact h
    · split
      · exact h.trans (shrinks_failJob (k.remove a.queue l e.id) _ _ _ _ _)
      · exact h

theorem shrinks_reserve (ms : Nat) (a : ReserveArgs) (k : Keyspace) : Shrinks k (reserve ms a k).2 := by
  have hwalk : WalkKeeps (Shrinks k) (fun _ => Shrinks k) (reserve ms a k) := by
    apply walk_keeps
    · exact fun _ _ _ _ hk => hk
    · intro k' l s e _ _ _ hk
      have hset : Shrinks k (k'.setStream a.queue l s) := hk
      exact hset.settle a l e
    · exact shrinks_promoteDue ms a k
  generalize reserve ms a k = result at hwalk
  obtain ⟨claimed, k'⟩ := result
  cases claimed with
  | none => exact hwalk
  | some c => exact hwalk

/-- The call is not a push with this key. -/
def Call.leaves (key : String) : Call → Prop
  | .push _ _ r => r.unique ≠ key
  | _ => True

theorem complete_shrinks {w : World} {n : Nat} {script : Job EntryId → Keyspace → Bool × Keyspace}
    (hscript : ∀ j, Shrinks w.keys (script j w.keys).2) : Shrinks w.keys (w.complete n script).keys := by
  unfold World.complete
  split
  · exact .refl _
  · exact hscript _

theorem shrinks_handOut {w : World} {result : Option Claimed × Keyspace} (h : Shrinks w.keys result.2) :
    Shrinks w.keys (w.handOut result).keys := by
  obtain ⟨claimed, k⟩ := result
  cases claimed with
  | none => exact h
  | some c => exact h

/-- A push puts no key but its own into the index. -/
theorem push_leaves {ms : Nat} {a : PushArgs} {k : Keyspace} {key : String} {id : Nat} (hne : a.unique ≠ key)
    (hsome : (push ms a k).2.unique key = some id) : k.unique key = some id := by
  have hnew : ∀ k : Keyspace, (pushNew ms a k).2.unique key = some id → k.unique key = some id := by
    intro k hsome
    have hcreate : (create a k).unique key = some id := by
      unfold pushNew at hsome
      split at hsome
      · exact hsome
      · exact hsome
    rwa [Keyspace.unique_create, if_neg (by rintro ⟨-, rfl⟩; exact hne rfl)] at hcreate
  unfold push at hsome
  split at hsome
  · exact hnew k hsome
  · split at hsome
    · exact hnew k hsome
    · split at hsome
      · exact hsome
      · exact shrinks_freeUnique k a.unique key id (hnew _ hsome)

/-- Only a push with the key puts it into the index. -/
theorem index_step {c : Call} {w : World} {key : String} {id : Nat} (hleaves : c.leaves key)
    (hsome : (World.step c w).keys.unique key = some id) : w.keys.unique key = some id := by
  have hshrinks : Shrinks w.keys (World.step c w).keys → w.keys.unique key = some id := fun h => h key id hsome
  cases c with
  | push ms moment r => exact push_leaves (a := pushArgs moment r) hleaves hsome
  | reserve ms moment queue timeout worker => exact hshrinks (shrinks_handOut (shrinks_reserve ms _ w.keys))
  | delete n =>
    refine hshrinks (complete_shrinks fun j => ?_)
    unfold RedisQueue.complete
    split
    · exact .refl _
    · next h _ => exact shrinks_freeUnique (w.keys.remove j.queue h.priority j.handle) _
  | release n moment delay error =>
    refine hshrinks (complete_shrinks fun j => ?_)
    unfold RedisQueue.release
    split
    · exact .refl _
    · exact .of_eq rfl
  | fail n moment error =>
    refine hshrinks (complete_shrinks fun j => ?_)
    unfold RedisQueue.fail
    split
    · exact .refl _
    · next h _ => exact shrinks_failJob (w.keys.remove j.queue h.priority j.handle) _ _ _ _ _
  | retry ms moment id maxAttempts =>
    apply hshrinks
    unfold World.step RedisQueue.requeue
    dsimp only
    by_cases hfailed : id ∈ w.keys.failed
    · rw [if_pos hfailed]
      cases w.keys.job id with
      | none => exact .of_eq rfl
      | some h => exact .of_eq rfl
    · rw [if_neg hfailed]
      exact .refl _
  | forget id =>
    apply hshrinks
    unfold World.step RedisQueue.forget
    dsimp only
    split
    · exact .of_eq rfl
    · exact .refl _

theorem free_step {c : Call} {w : World} {key : String} (hleaves : c.leaves key)
    (hnone : w.keys.unique key = none) : (World.step c w).keys.unique key = none := by
  cases hafter : (World.step c w).keys.unique key with
  | none => rfl
  | some id =>
    rw [index_step hleaves hafter] at hnone
    cases hnone

theorem free_run {calls : List Call} {w : World} {key : String} (hleaves : ∀ c ∈ calls, c.leaves key)
    (hnone : w.keys.unique key = none) : (machine.run w calls).keys.unique key = none := by
  induction calls generalizing w with
  | nil => exact hnone
  | cons c rest ih =>
    exact ih (fun c hc => hleaves c (List.mem_cons_of_mem _ hc)) (free_step (hleaves c List.mem_cons_self) hnone)

/-! ### What a push finds -/

theorem push_held {k : Keyspace} (hk : KeysExact k) {ms : Nat} {a : PushArgs} {id : Nat} (hkey : a.unique ≠ "")
    (hholds : Holds k a.unique id) : push ms a k = (id, k) := by
  have hindex := (hk.holds_iff hkey id).mpr hholds
  obtain ⟨h, hjob, -⟩ := hholds
  rw [push, if_neg hkey, hindex]
  simp [hjob]

/-- With its key free, a push makes a new job that holds it. -/
theorem push_free {w : World} (hw : Wf w) {ms : Nat} {a : PushArgs} (hkey : a.unique ≠ "")
    (hnone : w.keys.unique a.unique = none) :
    (push ms a w.keys).1 = w.keys.seq + 1 ∧ w.keys.job (w.keys.seq + 1) = none ∧
      Holds (push ms a w.keys).2 a.unique (w.keys.seq + 1) := by
  have hnew : push ms a w.keys = pushNew ms a w.keys := by rw [push, if_neg hkey, hnone]
  have hnot : w.keys.seq + 1 ∉ w.keys.failed := by
    intro hfailed
    have := hw.failed_le _ hfailed
    omega
  have hfresh : w.keys.job (w.keys.seq + 1) = none := by
    cases hjob : w.keys.job (w.keys.seq + 1) with
    | none => rfl
    | some h => exact absurd (hw.job_le _ h hjob) (by omega)
  refine ⟨?_, hfresh, ?_⟩
  · rw [hnew, pushNew]
    split
    · rfl
    · rfl
  · rw [hnew, pushNew]
    split
    · exact ⟨newHash a, by simp, hnot, rfl⟩
    · exact ⟨_, (Keyspace.job_enqueue ..).trans (if_pos rfl), hnot, rfl⟩

/-- A job that was live and is not any more has left its key free. -/
theorem free_of_not_live {w : World} {key : String} {id : Nat} {c : Call} (hkey : key ≠ "")
    (hk : KeysExact w.keys) (hk' : KeysExact (World.step c w).keys) (hholds : Holds w.keys key id)
    (hdead : ¬ Live (World.step c w).keys id) : (World.step c w).keys.unique key = none := by
  have hindex := (hk.holds_iff hkey id).mpr hholds
  by_cases hleaves : c.leaves key
  · cases hafter : (World.step c w).keys.unique key with
    | none => rfl
    | some holder =>
      have hsame : holder = id := Option.some.inj ((index_step hleaves hafter).symm.trans hindex)
      obtain ⟨h, hjob, hnot, -⟩ := (hk'.holds_iff hkey holder).mp hafter
      rw [hsame] at hjob hnot
      exact absurd ⟨by rw [hjob]; rfl, hnot⟩ hdead
  · -- A push with the key finds the job and changes nothing.
    exfalso
    cases c with
    | push ms moment r =>
      simp only [Call.leaves, ne_eq, not_not] at hleaves
      subst hleaves
      have hpush : push ms (pushArgs moment r) w.keys = (id, w.keys) :=
        push_held (a := pushArgs moment r) hk hkey hholds
      obtain ⟨h, hjob, hnot, -⟩ := hholds
      apply hdead
      simp only [World.step, hpush]
      exact ⟨by rw [hjob]; rfl, hnot⟩
    | _ => exact hleaves trivial

/-- A completion with the claim's pair ends the job. -/
theorem not_live_delete {w : World} {n : Nat} {c : Claim} {h : JobHash} (hclaim : w.claims[n]? = some c)
    (hheld : held c.job w.keys = some h) : ¬ Live (World.step (.delete n) w).keys c.job.id := by
  simp [World.step, World.complete, hclaim, RedisQueue.complete, hheld, Live, completed]

/-- So does a failure. -/
theorem not_live_fail {w : World} {n : Nat} {c : Claim} {h : JobHash} (moment : Moment) (error : String)
    (hclaim : w.claims[n]? = some c) (hheld : held c.job w.keys = some h) :
    ¬ Live (World.step (.fail n moment error) w).keys c.job.id := by
  simp [World.step, World.complete, hclaim, RedisQueue.fail, hheld, Live]

/-- **Unique keys are exact.** The key names the live job that carries it; a push finds that
job; and once the job is gone or has failed, the next push with the key makes a new one. -/
theorem unique_keys_exact (calls : List Call) (key : String) (hkey : key ≠ "") (w : World)
    (hrun : w = machine.run .empty calls) :
    (∀ id, w.keys.unique key = some id ↔ Holds w.keys key id) ∧
    (∀ id id', Holds w.keys key id → Holds w.keys key id' → id = id') ∧
    (∀ ms moment (r : PushRequest) id, r.unique = key → Holds w.keys key id →
      push ms (pushArgs moment r) w.keys = (id, w.keys)) ∧
    (∀ n c h, w.claims[n]? = some c → held c.job w.keys = some h →
      ¬ Live (World.step (.delete n) w).keys c.job.id ∧
        ∀ moment error, ¬ Live (World.step (.fail n moment error) w).keys c.job.id) ∧
    ∀ id c later, Holds w.keys key id → ¬ Live (World.step c w).keys id → (∀ c ∈ later, Call.leaves key c) →
      ∀ ms moment (r : PushRequest) (w' : World), r.unique = key →
        w' = machine.run (World.step c w) later →
        (push ms (pushArgs moment r) w'.keys).1 = w'.keys.seq + 1 ∧ w'.keys.job (w'.keys.seq + 1) = none ∧
          Holds (push ms (pushArgs moment r) w'.keys).2 key (w'.keys.seq + 1) := by
  subst hrun
  obtain ⟨hw, hk⟩ := keysExact_run calls
  refine ⟨hk.holds_iff hkey, ?_, ?_, ?_, ?_⟩
  · intro id id' hid hid'
    have h := (hk.holds_iff hkey id).mpr hid
    have h' := (hk.holds_iff hkey id').mpr hid'
    exact Option.some.inj (h.symm.trans h')
  · rintro ms moment r id rfl hholds
    exact push_held (a := pushArgs moment r) hk hkey hholds
  · intro n c h hclaim hheld
    exact ⟨not_live_delete hclaim hheld, fun moment error => not_live_fail moment error hclaim hheld⟩
  · rintro id c later hholds hdead hleaves ms moment r w' rfl rfl
    have hrun : machine.run (World.step c (machine.run .empty calls)) later =
        machine.run .empty (calls ++ c :: later) := by rw [Base.Machine.run_append]; rfl
    have hafter : World.step c (machine.run .empty calls) = machine.run .empty (calls ++ [c]) := by
      rw [Base.Machine.run_append]
      rfl
    have hk' := (keysExact_run (calls ++ [c])).2
    rw [← hafter] at hk'
    have hfree := free_run hleaves (free_of_not_live hkey hk hk' hholds hdead)
    have hw' := (keysExact_run (calls ++ c :: later)).1
    rw [← hrun] at hw'
    exact push_free (a := pushArgs moment r) hw' hkey hfree

instance (k : Keyspace) (id : Nat) : Decidable (Live k id) :=
  inferInstanceAs (Decidable ((k.job id).isSome ∧ id ∉ k.failed))

/-- A job with a key is pushed and reserved. -/
def keyedRun : List Call :=
  [.push 1000 ⟨1, ""⟩ {name := "a", payload := "{}", unique := "k"},
    .reserve 1000 ⟨1, ""⟩ "default" 60 "w"]

/-- While it is live a push with its key finds it; after its completion one makes job 2. -/
theorem keyedRun_exact :
    push 2000 (pushArgs ⟨2, ""⟩ {name := "b", payload := "{}", unique := "k"}) (machine.run .empty keyedRun).keys =
      (1, (machine.run .empty keyedRun).keys) ∧
    (push 3000 (pushArgs ⟨3, ""⟩ {name := "c", payload := "{}", unique := "k"})
      (World.step (.delete 0) (machine.run .empty keyedRun)).keys).1 = 2 := by
  have h := unique_keys_exact keyedRun "k" (by decide) _ rfl
  have hholds : Holds (machine.run .empty keyedRun).keys "k" 1 := (h.1 1).mp (by decide +kernel)
  refine ⟨h.2.2.1 2000 ⟨2, ""⟩ _ 1 rfl hholds, ?_⟩
  have hdead : ¬ Live (World.step (.delete 0) (machine.run .empty keyedRun)).keys 1 := by decide +kernel
  obtain ⟨hid, -⟩ := h.2.2.2.2 1 (.delete 0) [] hholds hdead (fun c hc => by cases hc) 3000 ⟨3, ""⟩
    {name := "c", payload := "{}", unique := "k"} _ rfl rfl
  exact hid

end PyAppRunner.Queue.RedisQueue
