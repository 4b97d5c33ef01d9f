import PyAppRunner.Queue.RedisQueue
import PyAppRunner.Redis.Group

/-! What a call can do to the keyspace, said once.

Every call of the Redis driver is a sequence of *moves*: a job is created, goes
from the delayed set to a stream, is parked, exhausted, claimed, completed,
released, failed, put back or forgotten, or a consumer group takes note of a
delivery (`step_moves`). A move carries the guards under which the script takes
it and the keyspace it leaves. An invariant of the driver is then one case per
move, and never opens a script.

A move that ends a claim also carries the rule `ok` its call was admitted under,
so that invariants which hold only of some runs use the same moves. -/
namespace PyAppRunner.Queue.RedisQueue
open Redis

/-! ### What each command changes, and that it changes nothing else -/

namespace Keyspace
variable (k : Keyspace) (q q' : String) (l l' : Int) (i id : Nat) (h : JobHash) (e : Entry Nat)

@[simp] theorem frame_hset : (k.hset id h).seq = k.seq ∧ (k.hset id h).stream = k.stream ∧
    (k.hset id h).levels = k.levels ∧ (k.hset id h).delayed = k.delayed ∧
    (k.hset id h).failed = k.failed ∧ (k.hset id h).unique = k.unique := ⟨rfl, rfl, rfl, rfl, rfl, rfl⟩

@[simp] theorem job_hset : (k.hset id h).job i = if i = id then some h else k.job i :=
  Function.update_apply ..

@[simp] theorem frame_del : (k.del id).seq = k.seq ∧ (k.del id).stream = k.stream ∧
    (k.del id).levels = k.levels ∧ (k.del id).delayed = k.delayed ∧
    (k.del id).failed = k.failed ∧ (k.del id).unique = k.unique := ⟨rfl, rfl, rfl, rfl, rfl, rfl⟩

@[simp] theorem job_del : (k.del id).job i = if i = id then none else k.job i :=
  Function.update_apply ..

@[simp] theorem frame_freeUnique (key : String) : (k.freeUnique key).seq = k.seq ∧
    (k.freeUnique key).job = k.job ∧ (k.freeUnique key).stream = k.stream ∧
    (k.freeUnique key).levels = k.levels ∧ (k.freeUnique key).delayed = k.delayed ∧
    (k.freeUnique key).failed = k.failed := ⟨rfl, rfl, rfl, rfl, rfl, rfl⟩

@[simp] theorem frame_delay (s : Int) : (k.delay q s id).seq = k.seq ∧
    (k.delay q s id).job = k.job ∧ (k.delay q s id).stream = k.stream ∧
    (k.delay q s id).levels = k.levels ∧ (k.delay q s id).failed = k.failed ∧
    (k.delay q s id).unique = k.unique := ⟨rfl, rfl, rfl, rfl, rfl, rfl⟩

@[simp] theorem mem_delay (s : Int) :
    i ∈ (k.delay q' s id).delayed q ↔ q = q' ∧ i = id ∨ i ∈ k.delayed q := by
  simp only [delay, Function.update_apply]
  split
  · rename_i hq
    subst hq
    simp
  · rename_i hq
    simp [hq]

@[simp] theorem frame_undelay : (k.undelay q id).seq = k.seq ∧ (k.undelay q id).job = k.job ∧
    (k.undelay q id).stream = k.stream ∧ (k.undelay q id).levels = k.levels ∧
    (k.undelay q id).failed = k.failed ∧ (k.undelay q id).unique = k.unique :=
  ⟨rfl, rfl, rfl, rfl, rfl, rfl⟩

@[simp] theorem mem_undelay :
    i ∈ (k.undelay q' id).delayed q ↔ ¬ (q = q' ∧ i = id) ∧ i ∈ k.delayed q := by
  simp only [undelay, Function.update_apply]
  split
  · rename_i hq
    subst hq
    simp
  · rename_i hq
    simp [hq]

@[simp] theorem frame_unfail : (k.unfail id).seq = k.seq ∧ (k.unfail id).job = k.job ∧
    (k.unfail id).stream = k.stream ∧ (k.unfail id).levels = k.levels ∧
    (k.unfail id).delayed = k.delayed ∧ (k.unfail id).unique = k.unique :=
  ⟨rfl, rfl, rfl, rfl, rfl, rfl⟩

@[simp] theorem mem_unfail : i ∈ (k.unfail id).failed ↔ i ≠ id ∧ i ∈ k.failed := SortedSet.mem_zrem

@[simp] theorem frame_saddQueue : (k.saddQueue q).seq = k.seq ∧ (k.saddQueue q).job = k.job ∧
    (k.saddQueue q).stream = k.stream ∧ (k.saddQueue q).levels = k.levels ∧
    (k.saddQueue q).delayed = k.delayed ∧ (k.saddQueue q).failed = k.failed ∧
    (k.saddQueue q).unique = k.unique := ⟨rfl, rfl, rfl, rfl, rfl, rfl, rfl⟩

@[simp] theorem frame_setStream (s : XStream Nat) : (k.setStream q l s).seq = k.seq ∧
    (k.setStream q l s).job = k.job ∧ (k.setStream q l s).levels = k.levels ∧
    (k.setStream q l s).delayed = k.delayed ∧ (k.setStream q l s).failed = k.failed ∧
    (k.setStream q l s).unique = k.unique := ⟨rfl, rfl, rfl, rfl, rfl, rfl⟩

/-- One stream at a time. -/
theorem stream_setStream (s : XStream Nat) : (k.setStream q' l' s).stream (q, l) =
    if q = q' ∧ l = l' then s else k.stream (q, l) := by
  simp [setStream, Function.update_apply]

@[simp] theorem frame_remove (n : EntryId) : (k.remove q l n).seq = k.seq ∧
    (k.remove q l n).job = k.job ∧ (k.remove q l n).levels = k.levels ∧
    (k.remove q l n).delayed = k.delayed ∧ (k.remove q l n).failed = k.failed ∧
    (k.remove q l n).unique = k.unique := ⟨rfl, rfl, rfl, rfl, rfl, rfl⟩

@[simp] theorem mem_remove (n : EntryId) : e ∈ ((k.remove q' l' n).stream (q, l)).entries ↔
    ¬ (q = q' ∧ l = l' ∧ e.id = n) ∧ e ∈ (k.stream (q, l)).entries := by
  rw [remove, stream_setStream]
  split
  · rename_i hkey
    obtain ⟨rfl, rfl⟩ := hkey
    simp [XStream.mem_entries_xdel, and_comm]
  · rename_i hkey
    simp only [iff_and_self]
    intro _ hall
    exact hkey ⟨hall.1, hall.2.1⟩

@[simp] theorem frame_enqueue (ms : Nat) : (k.enqueue ms q l id h).seq = k.seq ∧
    (k.enqueue ms q l id h).delayed = k.delayed ∧ (k.enqueue ms q l id h).failed = k.failed ∧
    (k.enqueue ms q l id h).unique = k.unique := ⟨rfl, rfl, rfl, rfl⟩

@[simp] theorem job_enqueue (ms : Nat) : (k.enqueue ms q l id h).job i =
    if i = id then some {h with entry := some ((k.stream (q, l)).nextId ms)} else k.job i :=
  Function.update_apply ..

/-- The new entry is on the stream of its queue and level. -/
theorem stream_enqueue (ms : Nat) : (k.enqueue ms q' l' id h).stream (q, l) =
    if q = q' ∧ l = l' then (k.stream (q', l')).xadd ms id else k.stream (q, l) :=
  stream_setStream ..

@[simp] theorem mem_enqueue (ms : Nat) : e ∈ ((k.enqueue ms q' l' id h).stream (q, l)).entries ↔
    q = q' ∧ l = l' ∧ e = ⟨(k.stream (q', l')).nextId ms, id⟩ ∨ e ∈ (k.stream (q, l)).entries := by
  rw [stream_enqueue]
  split
  · rename_i hkey
    obtain ⟨rfl, rfl⟩ := hkey
    simp [or_comm]
  · rename_i hkey
    constructor
    · exact .inr
    · rintro (⟨hq, hl, _⟩ | he)
      · exact absurd ⟨hq, hl⟩ hkey
      · exact he

@[simp] theorem mem_levels_enqueue (ms : Nat) : l ∈ (k.enqueue ms q' l' id h).levels q ↔
    q = q' ∧ l = l' ∨ l ∈ k.levels q := by
  show l ∈ Function.update k.levels q' ((k.levels q').zadd l' l') q ↔ _
  rw [Function.update_apply]
  split
  · rename_i hq
    subst hq
    simp
  · rename_i hq
    simp [hq]

@[simp] theorem frame_failJob (error failedAt : String) (s : Int) :
    (k.failJob id h error failedAt s).seq = k.seq ∧
    (k.failJob id h error failedAt s).stream = k.stream ∧
    (k.failJob id h error failedAt s).levels = k.levels ∧
    (k.failJob id h error failedAt s).delayed = k.delayed := ⟨rfl, rfl, rfl, rfl⟩

@[simp] theorem job_failJob (error failedAt : String) (s : Int) :
    (k.failJob id h error failedAt s).job i = if i = id then some {h with
      uniqueKey := "", error := error, failedAt := failedAt,
      reservedUntil := 0, reservedBy := "", entry := none} else k.job i :=
  Function.update_apply ..

@[simp] theorem mem_failJob (error failedAt : String) (s : Int) :
    i ∈ (k.failJob id h error failedAt s).failed ↔ i = id ∨ i ∈ k.failed := SortedSet.mem_zadd

end Keyspace

@[simp] theorem frame_create (a : PushArgs) (k : Keyspace) : (create a k).seq = k.seq + 1 ∧
    (create a k).stream = k.stream ∧ (create a k).levels = k.levels ∧
    (create a k).delayed = k.delayed ∧ (create a k).failed = k.failed := ⟨rfl, rfl, rfl, rfl, rfl⟩

@[simp] theorem job_create (a : PushArgs) (k : Keyspace) (i : Nat) :
    (create a k).job i = if i = k.seq + 1 then some (newHash a) else k.job i :=
  Function.update_apply ..

/-! ### What a reserve script keeps -/

/-- Taking an entry only tells the group about it. -/
theorem take_eq (ms : Nat) (a : ReserveArgs) (l : Int) (k : Keyspace) :
    ∃ s, (take ms a l k).2 = k.setStream a.queue l s ∧ (k.stream (a.queue, l)).Follows s ∧
      ∀ e, (take ms a l k).1 = some e →
        e ∈ s.entries ∧ ((k.stream (a.queue, l)).Tidy → s.delivered e = true) := by
  have hauto := XStream.follows_xautoclaim ms (a.timeout * 1000) (k.stream (a.queue, l))
  unfold take
  dsimp only
  split
  · rename_i e he
    refine ⟨_, rfl, hauto, ?_⟩
    intro e' he'
    cases he'
    refine ⟨?_, fun ht => XStream.xautoclaim_delivered ht he⟩
    rw [hauto.entries]
    exact XStream.xautoclaim_mem he
  · have hread := XStream.follows_xreadgroup ms ((k.stream (a.queue, l)).xautoclaim ms (a.timeout * 1000)).2
    refine ⟨_, rfl, hauto.trans hread, ?_⟩
    intro e he
    refine ⟨?_, fun _ => XStream.xreadgroup_delivered he⟩
    rw [hread.entries]
    exact XStream.xreadgroup_mem he

/-- `I` of the keyspace that a round leaves, or `Q` of a claim. -/
def RoundKeeps (I : Keyspace → Prop) (Q : Claimed → Keyspace → Prop) : Outcome × Keyspace → Prop
  | (.claimed c, k) => Q c k
  | (_, k) => I k

/-- The levels were walked to a claim, or to the end of the list. -/
def WalkKeeps (I : Keyspace → Prop) (Q : Claimed → Keyspace → Prop) : Option Claimed × Keyspace → Prop
  | (some c, k) => Q c k
  | (none, k) => I k

section Walk
variable {I : Keyspace → Prop} {Q : Claimed → Keyspace → Prop} {a : ReserveArgs}

section Level
variable {l : Int} (hregroup : ∀ k s, (k.stream (a.queue, l)).Follows s → I k → I (k.setStream a.queue l s))
  (hsettle : ∀ k s e, (k.stream (a.queue, l)).Follows s → e ∈ s.entries →
    ((k.stream (a.queue, l)).Tidy → s.delivered e = true) → I k →
      RoundKeeps I Q (settle a l e (k.setStream a.queue l s)))

include hregroup hsettle

/-- One round: a look, and what the script makes of the entry it finds. -/
theorem round_keeps (ms : Nat) {k : Keyspace} (h : I k) : RoundKeeps I Q (round ms a l k) := by
  obtain ⟨s, htake, hfollows, htaken⟩ := take_eq ms a l k
  unfold round
  split
  · rename_i k' heq
    rw [heq] at htake
    rw [show k' = k.setStream a.queue l s from htake]
    exact hregroup k s hfollows h
  · rename_i e k' heq
    rw [heq] at htake htaken
    rw [show k' = k.setStream a.queue l s from htake]
    obtain ⟨hmem, hdelivered⟩ := htaken e rfl
    exact hsettle k s e hfollows hmem hdelivered h

/-- The rounds on one level. -/
theorem rounds_keep (ms n : Nat) {k : Keyspace} (h : I k) : WalkKeeps I Q (rounds ms a l n k) := by
  induction n generalizing k with
  | zero => exact h
  | succ n ih =>
    have hround := round_keeps hregroup hsettle ms h
    unfold rounds
    split
    · rename_i hr
      rw [hr] at hround
      exact hround
    · rename_i hr
      rw [hr] at hround
      exact ih hround
    · rename_i hr
      rw [hr] at hround
      exact hround

end Level

theorem walk_keeps (hregroup : ∀ k l s, (k.stream (a.queue, l)).Follows s → I k → I (k.setStream a.queue l s))
    (hsettle : ∀ k l s e, (k.stream (a.queue, l)).Follows s → e ∈ s.entries →
      ((k.stream (a.queue, l)).Tidy → s.delivered e = true) → I k →
        RoundKeeps I Q (settle a l e (k.setStream a.queue l s)))
    (ms : Nat) {k : Keyspace} (levels : List Int) (h : I k) : WalkKeeps I Q (walk ms a levels k) := by
  induction levels generalizing k with
  | nil => exact h
  | cons l rest ih =>
    have hgroup : I (createGroup a.queue l k) := hregroup k l _ (XStream.follows_xgroupCreate _) h
    have hrounds := rounds_keep (fun k => hregroup k l) (fun k => hsettle k l) ms claimRounds hgroup
    unfold walk
    split
    · rename_i hr
      rw [hr] at hrounds
      exact hrounds
    · rename_i hr
      rw [hr] at hrounds
      exact ih hrounds

end Walk

/-! ### The moves -/

/-- The rule that admits every call. -/
def anyCall : Call → World → Prop := fun _ _ => True

/-- The world with another keyspace. -/
def World.put (w : World) (k : Keyspace) : World := {w with keys := k}

/-- The arguments come from a reserve call the rule admitted. -/
def Admitted (ok : Call → World → Prop) (a : ReserveArgs) : Prop :=
  ∃ ms moment queue timeout worker w₀, ok (.reserve ms moment queue timeout worker) w₀ ∧
    a = reserveArgs moment queue timeout worker

inductive Move (ok : Call → World → Prop) : World → World → Prop where
  /-- A push finds its key held by a job that is gone. -/
  | freeUnique (w : World) (key : String) (holder : Nat) (hkey : w.keys.unique key = some holder)
      (hgone : w.keys.job holder = none) : Move ok w (w.put (w.keys.freeUnique key))
  | pushDelayed (w : World) (a : PushArgs) (hqueue : a.queue ≠ "") (hmax : 1 ≤ a.maxAttempts)
      (hfree : a.unique = "" ∨ w.keys.unique a.unique = none) (hlate : a.now < a.availableAt) :
      Move ok w (w.put ((create a w.keys).delay a.queue a.availableAt (w.keys.seq + 1)))
  | pushReady (w : World) (ms : Nat) (a : PushArgs) (hqueue : a.queue ≠ "") (hmax : 1 ≤ a.maxAttempts)
      (hfree : a.unique = "" ∨ w.keys.unique a.unique = none) (hdue : a.availableAt ≤ a.now) :
      Move ok w (w.put
        ((create a w.keys).enqueue ms a.queue a.priority (w.keys.seq + 1) (newHash a)))
  | promote (w : World) (ms : Nat) (q : String) (id : Nat) (h : JobHash)
      (hdelayed : id ∈ w.keys.delayed q) (hjob : w.keys.job id = some h) :
      Move ok w (w.put ((w.keys.undelay q id).enqueue ms q h.priority id h))
  | dropDelayed (w : World) (q : String) (id : Nat) (hdelayed : id ∈ w.keys.delayed q)
      (hgone : w.keys.job id = none) : Move ok w (w.put (w.keys.undelay q id))
  /-- The group is created, or takes note of a delivery: the entries are as they were. -/
  | regroup (w : World) (q : String) (l : Int) (s : XStream Nat)
      (hentries : s.entries = (w.keys.stream (q, l)).entries)
      (hdeliverable : ∀ e, (w.keys.stream (q, l)).Deliverable e → s.Deliverable e) :
      Move ok w (w.put (w.keys.setStream q l s))
  | dropTombstone (w : World) (q : String) (l : Int) (e : Entry Nat)
      (hentry : e ∈ (w.keys.stream (q, l)).entries) (hgone : w.keys.job e.value = none) :
      Move ok w (w.put (w.keys.remove q l e.id))
  | park (w : World) (q : String) (l : Int) (e : Entry Nat) (h : JobHash) (now : Int)
      (hentry : e ∈ (w.keys.stream (q, l)).entries) (hjob : w.keys.job e.value = some h)
      (hheld : now < h.reservedUntil) : Move ok w (w.put (park q l e h w.keys))
  | exhaust (w : World) (q : String) (l : Int) (e : Entry Nat) (h : JobHash) (now : Int)
      (failedAt : String) (hentry : e ∈ (w.keys.stream (q, l)).entries)
      (hjob : w.keys.job e.value = some h) (hlapsed : h.reservedUntil ≤ now)
      (hspent : h.maxAttempts ≤ h.attempts) :
      Move ok w (w.put
        ((w.keys.remove q l e.id).failJob e.value h exhaustedError failedAt now))
  | claim (w : World) (a : ReserveArgs) (l : Int) (e : Entry Nat) (h : JobHash)
      (hok : Admitted ok a)
      (hentry : e ∈ (w.keys.stream (a.queue, l)).entries) (hjob : w.keys.job e.value = some h)
      (hlapsed : h.reservedUntil ≤ a.now) (hleft : h.attempts < h.maxAttempts) :
      Move ok w (w.handOut (some ⟨e.value, e.id, claimHash a e.id h⟩,
        w.keys.hset e.value (claimHash a e.id h)))
  | complete (w : World) (n : Nat) (c : Claim) (h : JobHash) (hok : ok (.delete n) w)
      (hclaim : w.claims[n]? = some c) (hheld : held c.job w.keys = some h) :
      Move ok w (w.put (completed c.job h w.keys))
  | release (w : World) (n : Nat) (c : Claim) (h : JobHash) (moment : Moment) (delay : Int)
      (error : String) (hok : ok (.release n moment delay error) w) (hclaim : w.claims[n]? = some c)
      (hheld : held c.job w.keys = some h) :
      Move ok w (w.put
        (released (moment.seconds + max 0 delay) (fitError error) c.job h w.keys))
  | fail (w : World) (n : Nat) (c : Claim) (h : JobHash) (moment : Moment) (error : String)
      (hok : ok (.fail n moment error) w) (hclaim : w.claims[n]? = some c)
      (hheld : held c.job w.keys = some h) :
      Move ok w (w.put ((w.keys.remove c.job.queue h.priority c.job.handle).failJob c.job.id h
        (fitError error) moment.stamp moment.seconds))
  | requeue (w : World) (ms id maxAttempts : Nat) (now : Int) (h : JobHash)
      (hfailed : id ∈ w.keys.failed) (hjob : w.keys.job id = some h) (hmax : 1 ≤ maxAttempts) :
      Move ok w
        { w with
          keys := ((w.keys.unfail id).enqueue ms (requeueQueue h) 0 id
            (requeueHash maxAttempts now h)).saddQueue (requeueQueue h)
          retries := Function.update w.retries id (w.retries id + 1) }
  | dropFailed (w : World) (id : Nat) (hfailed : id ∈ w.keys.failed)
      (hgone : w.keys.job id = none) : Move ok w (w.put (w.keys.unfail id))
  | forget (w : World) (id : Nat) (hfailed : id ∈ w.keys.failed) :
      Move ok w (w.put ((w.keys.unfail id).del id))

/-- A move under a rule is one under any weaker rule. -/
theorem Move.imp {ok ok' : Call → World → Prop} (h : ∀ c w, ok c w → ok' c w) {w w' : World} (hm : Move ok w w') :
    Move ok' w w' := by
  cases hm with
  | freeUnique key holder hkey hgone => exact .freeUnique w key holder hkey hgone
  | pushDelayed a hqueue hmax hfree hlate => exact .pushDelayed w a hqueue hmax hfree hlate
  | pushReady ms a hqueue hmax hfree hdue => exact .pushReady w ms a hqueue hmax hfree hdue
  | promote ms q id hash hdelayed hjob => exact .promote w ms q id hash hdelayed hjob
  | dropDelayed q id hdelayed hgone => exact .dropDelayed w q id hdelayed hgone
  | regroup q l s hentries hdeliverable => exact .regroup w q l s hentries hdeliverable
  | dropTombstone q l e hentry hgone => exact .dropTombstone w q l e hentry hgone
  | park q l e hash now hentry hjob hheld => exact .park w q l e hash now hentry hjob hheld
  | exhaust q l e hash now failedAt hentry hjob hlapsed hspent =>
    exact .exhaust w q l e hash now failedAt hentry hjob hlapsed hspent
  | claim a l e hash hok hentry hjob hlapsed hleft =>
    obtain ⟨ms, moment, queue, timeout, worker, w₀, hcall, ha⟩ := hok
    exact .claim w a l e hash ⟨ms, moment, queue, timeout, worker, w₀, h _ _ hcall, ha⟩ hentry hjob hlapsed hleft
  | complete n c hash hok hclaim hheld => exact .complete w n c hash (h _ _ hok) hclaim hheld
  | release n c hash moment delay error hok hclaim hheld =>
    exact .release w n c hash moment delay error (h _ _ hok) hclaim hheld
  | fail n c hash moment error hok hclaim hheld => exact .fail w n c hash moment error (h _ _ hok) hclaim hheld
  | requeue ms id maxAttempts now hash hfailed hjob hmax => exact .requeue w ms id maxAttempts now hash hfailed hjob hmax
  | dropFailed id hfailed hgone => exact .dropFailed w id hfailed hgone
  | forget id hfailed => exact .forget w id hfailed

/-- A script is one step for the others, made of several moves. -/
def Moves (ok : Call → World → Prop) : World → World → Prop := Relation.ReflTransGen (Move ok)

theorem Moves.single {ok : Call → World → Prop} {w w' : World} (h : Move ok w w') : Moves ok w w' :=
  Relation.ReflTransGen.single h

/-- What every move preserves, a sequence of moves preserves. -/
theorem Moves.invariant {ok : Call → World → Prop} {I : World → Prop}
    (hmove : ∀ w w', Move ok w w' → I w → I w') {w w' : World} (h : Moves ok w w') (hi : I w) : I w' := by
  induction h with
  | refl => exact hi
  | tail _ hlast ih => exact hmove _ _ hlast ih

/-! ### Every call is a sequence of moves -/

section Calls
variable {ok : Call → World → Prop}

theorem promote_moves (w : World) (ms : Nat) (q : String) (id : Nat) :
    Moves ok w (w.put (promote ms q w.keys id)) := by
  unfold promote
  split
  · rename_i hdelayed
    split
    · exact .single (.dropDelayed w q id hdelayed ‹_›)
    · exact .single (.promote w ms q id _ hdelayed ‹_›)
  · exact .refl

theorem promoteAll_moves (w : World) (ms : Nat) (q : String) (ids : List Nat) (k : Keyspace) :
    Moves ok (w.put k) (w.put (ids.foldl (promote ms q) k)) := by
  induction ids generalizing k with
  | nil => exact .refl
  | cons id rest ih => exact (promote_moves (w.put k) ms q id).trans (ih _)

/-- A look changes what its group was given, and finds an entry of the stream. -/
theorem take_moves (ok : Call → World → Prop) (w : World) (ms : Nat) (a : ReserveArgs) (l : Int) :
    Moves ok w (w.put (take ms a l w.keys).2) ∧
      ∀ e, (take ms a l w.keys).1 = some e → e ∈ ((take ms a l w.keys).2.stream (a.queue, l)).entries := by
  obtain ⟨s, htake, hfollows, htaken⟩ := take_eq ms a l w.keys
  rw [htake]
  refine ⟨.single (.regroup w a.queue l s hfollows.entries hfollows.deliverable), ?_⟩
  intro e he
  rw [Keyspace.stream_setStream, if_pos ⟨rfl, rfl⟩]
  exact (htaken e he).1

/-- The round as a world: a claim is handed out, anything else only changes keys. -/
def World.afterRound (w : World) : Outcome × Keyspace → World
  | (.claimed c, k) => w.handOut (some c, k)
  | (_, k) => w.put k

/-- What the script makes of the entry: it is dropped, parked, failed or claimed. -/
theorem settle_moves (w : World) (a : ReserveArgs) (l : Int) (e : Entry Nat)
    (hok : Admitted ok a) (hentry : e ∈ (w.keys.stream (a.queue, l)).entries) :
    Move ok w (w.afterRound (settle a l e w.keys)) := by
  unfold settle
  split
  · exact .dropTombstone w a.queue l e hentry ‹_›
  · rename_i h hjob
    split
    · exact .park w a.queue l e h a.now hentry hjob ‹_›
    · rename_i hlapsed
      rw [not_lt] at hlapsed
      split
      · exact .exhaust w a.queue l e h a.now a.failedAt hentry hjob hlapsed ‹_›
      · rename_i hleft
        rw [not_le] at hleft
        exact .claim w a l e h hok hentry hjob hlapsed hleft

theorem round_moves (w : World) (ms : Nat) (a : ReserveArgs) (l : Int)
    (hok : Admitted ok a) : Moves ok w (w.afterRound (round ms a l w.keys)) := by
  obtain ⟨htake, hmem⟩ := take_moves ok w ms a l
  unfold round
  split
  · rename_i k htaken
    rw [htaken] at htake
    exact htake
  · rename_i e k htaken
    rw [htaken] at htake hmem
    exact htake.tail (settle_moves (w.put k) a l e hok (hmem e rfl))

theorem rounds_moves (w : World) (ms : Nat) (a : ReserveArgs) (l : Int) (n : Nat) (k : Keyspace)
    (hok : Admitted ok a) :
    Moves ok (w.put k) (w.handOut (rounds ms a l n k)) := by
  induction n generalizing k with
  | zero => exact .refl
  | succ n ih =>
    have hround := round_moves (w.put k) ms a l hok
    unfold rounds
    split
    · rename_i hr
      rw [show (w.put k).keys = k from rfl, hr] at hround
      exact hround
    · rename_i hr
      rw [show (w.put k).keys = k from rfl, hr] at hround
      exact hround.trans (ih _)
    · rename_i hr
      rw [show (w.put k).keys = k from rfl, hr] at hround
      exact hround

theorem walk_moves (w : World) (ms : Nat) (a : ReserveArgs) (levels : List Int) (k : Keyspace)
    (hok : Admitted ok a) :
    Moves ok (w.put k) (w.handOut (walk ms a levels k)) := by
  induction levels generalizing k with
  | nil => exact .refl
  | cons l rest ih =>
    have hgroup : Moves ok (w.put k) (w.put (createGroup a.queue l k)) :=
      .single (.regroup (w.put k) a.queue l _ (by simp [World.put]) fun e he => he.xgroupCreate)
    have hrounds := hgroup.trans
      (rounds_moves w ms a l claimRounds (createGroup a.queue l k) hok)
    unfold walk
    split
    · rename_i hr
      rw [hr] at hrounds
      exact hrounds
    · rename_i hr
      rw [hr] at hrounds
      exact hrounds.trans (ih _)

/-- A push whose key is free. -/
theorem pushNew_moves (w : World) (ms : Nat) (a : PushArgs) (hqueue : a.queue ≠ "")
    (hmax : 1 ≤ a.maxAttempts) (hfree : a.unique = "" ∨ w.keys.unique a.unique = none) :
    Move ok w (w.put (pushNew ms a w.keys).2) := by
  unfold pushNew
  split
  · exact .pushDelayed w a hqueue hmax hfree ‹_›
  · rename_i hdue
    rw [not_lt] at hdue
    exact .pushReady w ms a hqueue hmax hfree hdue

/-- `push`: the key of a job that is gone is freed first. -/
theorem push_moves (w : World) (ms : Nat) (a : PushArgs) (hqueue : a.queue ≠ "")
    (hmax : 1 ≤ a.maxAttempts) : Moves ok w (w.put (push ms a w.keys).2) := by
  unfold push
  split
  · exact .single (pushNew_moves w ms a hqueue hmax (.inl ‹_›))
  · rename_i hne
    split
    · exact .single (pushNew_moves w ms a hqueue hmax (.inr ‹_›))
    · rename_i holder hholder
      split
      · exact .refl
      · rename_i hgone
        rw [Bool.not_eq_true, Option.isSome_eq_false_iff, Option.isNone_iff_eq_none] at hgone
        refine (Moves.single (.freeUnique w a.unique holder hholder hgone)).tail
          (pushNew_moves (w.put (w.keys.freeUnique a.unique)) ms a hqueue hmax (.inr ?_))
        simp [World.put, Keyspace.freeUnique, hne]

/-- The queue of a push has a name. -/
theorem pushArgs_queue (moment : Moment) (r : PushRequest) : (pushArgs moment r).queue ≠ "" := by
  unfold pushArgs
  dsimp only
  split
  · decide
  · assumption

/-- A completion makes the moves of its script. -/
theorem complete_moves (w : World) (n : Nat) (script : Job EntryId → Keyspace → Bool × Keyspace)
    (hscript : ∀ c, w.claims[n]? = some c → Moves ok w (w.put (script c.job w.keys).2)) :
    Moves ok w (w.complete n script) := by
  unfold World.complete
  split
  · exact .refl
  · exact hscript _ ‹_›

/-- A budget is one attempt at least. -/
theorem one_le_clamped (m : Int) : 1 ≤ (max 1 m).toNat := by omega

/-- **Every call is a sequence of moves.** -/
theorem step_moves (c : Call) (w : World) (hok : ok c w) : Moves ok w (World.step c w) := by
  cases c with
  | push ms moment r =>
    exact push_moves w ms (pushArgs moment r) (pushArgs_queue moment r) (one_le_clamped _)
  | reserve ms moment queue timeout worker =>
    exact (promoteAll_moves w ms queue _ w.keys).trans
      (walk_moves w ms _ _ _ ⟨ms, moment, queue, timeout, worker, w, hok, rfl⟩)
  | delete n =>
    refine complete_moves w n _ fun c hclaim => ?_
    unfold RedisQueue.complete
    split
    · exact .refl
    · exact .single (.complete w n c _ hok hclaim ‹_›)
  | release n moment delay error =>
    refine complete_moves w n _ fun c hclaim => ?_
    unfold RedisQueue.release
    split
    · exact .refl
    · exact .single (.release w n c _ moment delay error hok hclaim ‹_›)
  | fail n moment error =>
    refine complete_moves w n _ fun c hclaim => ?_
    unfold RedisQueue.fail
    split
    · exact .refl
    · exact .single (.fail w n c _ moment error hok hclaim ‹_›)
  | retry ms moment id maxAttempts =>
    unfold World.step RedisQueue.requeue
    dsimp only
    by_cases hfailed : id ∈ w.keys.failed
    · rw [if_pos hfailed]
      cases hjob : w.keys.job id with
      | none => exact .single (.dropFailed w id hfailed hjob)
      | some h => exact .single (.requeue w ms id _ moment.seconds h hfailed hjob (one_le_clamped _))
    · rw [if_neg hfailed]
      exact .refl
  | forget id =>
    unfold World.step RedisQueue.forget
    dsimp only
    split
    · exact .single (.forget w id ‹_›)
    · exact .refl

/-- A call that needs no rule. -/
theorem any_moves (c : Call) (w : World) : Moves anyCall w (World.step c w) := step_moves c w trivial

/-- An invariant of the moves is an invariant of every admitted run. -/
theorem run_invariant {I : World → Prop} (hmove : ∀ w w', Move ok w w' → I w → I w')
    {w : World} (h : I w) {calls : List Call} (hr : machine.Admissible ok w calls) :
    I (machine.run w calls) :=
  Base.Machine.invariant (m := machine)
    (fun c w hok hi => (step_moves c w hok).invariant hmove hi) h hr

end Calls

/-! ### References stay within the queue they were made in -/

/-- A claim is held while the hash names its worker and its attempt. -/
theorem held_eq_some {j : Job EntryId} {k : Keyspace} {h : JobHash} :
    held j k = some h ↔ k.job j.id = some h ∧ h.reservedBy = j.reservedBy ∧ h.attempts = j.attempts := by
  simp [held, Option.filter_eq_some_iff]

/-- No reference to a job is ahead of the id counter, and every reference to a job
that exists — in a delayed set, a stream or a claim — is under that job's queue. -/
structure Wf (w : World) : Prop where
  job_le : ∀ id h, w.keys.job id = some h → id ≤ w.keys.seq
  delayed_le : ∀ q id, id ∈ w.keys.delayed q → id ≤ w.keys.seq
  entry_le : ∀ q l e, e ∈ (w.keys.stream (q, l)).entries → e.value ≤ w.keys.seq
  failed_le : ∀ id, id ∈ w.keys.failed → id ≤ w.keys.seq
  claim_le : ∀ c ∈ w.claims, c.job.id ≤ w.keys.seq
  queue_ne : ∀ id h, w.keys.job id = some h → h.queue ≠ ""
  delayed_queue : ∀ q id h, id ∈ w.keys.delayed q → w.keys.job id = some h → h.queue = q
  entry_queue : ∀ q l e h, e ∈ (w.keys.stream (q, l)).entries → w.keys.job e.value = some h →
    h.queue = q
  claim_queue : ∀ c ∈ w.claims, ∀ h, w.keys.job c.job.id = some h → h.queue = c.job.queue
  entry_level : ∀ q l e, e ∈ (w.keys.stream (q, l)).entries → l ∈ w.keys.levels q

/-- Nothing is wrong with an empty keyspace. -/
theorem wf_empty : Wf World.empty := by
  constructor <;> simp [World.empty, Keyspace.empty]

/-- **One move keeps the keyspace well formed.** -/
theorem Wf.move {ok : Call → World → Prop} {w w' : World} (hm : Move ok w w') (hw : Wf w) : Wf w' := by
  obtain ⟨hjob_le, hdelayed_le, hentry_le, hfailed_le, hclaim_le, hqueue_ne, hdelayed_queue,
    hentry_queue, hclaim_queue, hentry_level⟩ := hw
  -- Each move is written out by the lemmas about what it writes. The ten fields then follow from the ten
  -- before.
  cases hm with
  | freeUnique key holder hkey hgone => constructor <;> simpa [World.put]
  | pushDelayed a hqueue hmax hfree hlate =>
    constructor <;> simp only [World.put, newHash, frame_create, job_create, Keyspace.frame_delay,
      Keyspace.mem_delay] <;> grind
  | pushReady ms a hqueue hmax hfree hdue =>
    constructor <;> simp only [World.put, newHash, frame_create, job_create, Keyspace.frame_enqueue,
      Keyspace.job_enqueue, Keyspace.mem_enqueue, Keyspace.mem_levels_enqueue] <;> grind
  | promote ms q id h hdelayed hjob =>
    constructor <;> simp only [World.put, Keyspace.frame_enqueue, Keyspace.frame_undelay,
      Keyspace.job_enqueue, Keyspace.mem_enqueue, Keyspace.mem_undelay,
      Keyspace.mem_levels_enqueue] <;> grind
  | dropDelayed q id hdelayed hgone =>
    constructor <;> simp only [World.put, Keyspace.frame_undelay, Keyspace.mem_undelay] <;> grind
  | regroup q l s hentries hdeliverable =>
    constructor <;> simp only [World.put, Keyspace.frame_setStream, Keyspace.stream_setStream] <;> grind
  | dropTombstone q l e hentry hgone =>
    constructor <;> simp only [World.put, Keyspace.frame_remove, Keyspace.mem_remove] <;> grind
  | park q l e h now hentry hjob hheld =>
    constructor <;> simp only [World.put, park, Keyspace.frame_remove, Keyspace.frame_hset,
      Keyspace.frame_delay, Keyspace.job_hset, Keyspace.mem_remove, Keyspace.mem_delay] <;> grind
  | exhaust q l e h now failedAt hentry hjob hlapsed hspent =>
    constructor <;> simp only [World.put, Keyspace.frame_remove, Keyspace.frame_failJob,
      Keyspace.job_failJob, Keyspace.mem_failJob, Keyspace.mem_remove] <;> grind
  | claim a l e h hok hentry hjob hlapsed hleft =>
    constructor <;> simp only [World.handOut, claimHash, toJob, Keyspace.frame_hset,
      Keyspace.job_hset] <;> grind
  | complete n c h hok hclaim hheld =>
    constructor <;> simp only [World.put, completed, Keyspace.frame_remove, Keyspace.frame_freeUnique,
      Keyspace.frame_del, Keyspace.job_del, Keyspace.mem_remove] <;> grind
  | release n c h moment delay error hok hclaim hheld =>
    have hmem := List.mem_of_getElem? hclaim
    rw [held_eq_some] at hheld
    constructor <;> simp only [World.put, released, Keyspace.frame_remove, Keyspace.frame_hset,
      Keyspace.frame_delay, Keyspace.job_hset, Keyspace.mem_remove, Keyspace.mem_delay] <;> grind
  | fail n c h moment error hok hclaim hheld =>
    have hmem := List.mem_of_getElem? hclaim
    rw [held_eq_some] at hheld
    constructor <;> simp only [World.put, Keyspace.frame_remove, Keyspace.frame_failJob,
      Keyspace.job_failJob, Keyspace.mem_failJob, Keyspace.mem_remove] <;> grind
  | requeue ms id maxAttempts now h hfailed hjob hmax =>
    constructor <;> simp only [requeueQueue, requeueHash, Keyspace.frame_saddQueue,
      Keyspace.frame_enqueue, Keyspace.frame_unfail, Keyspace.job_enqueue, Keyspace.mem_enqueue,
      Keyspace.mem_unfail, Keyspace.mem_levels_enqueue] <;> grind
  | dropFailed id hfailed hgone =>
    constructor <;> simp only [World.put, Keyspace.frame_unfail, Keyspace.mem_unfail] <;> grind
  | forget id hfailed =>
    constructor <;> simp only [World.put, Keyspace.frame_del, Keyspace.frame_unfail,
      Keyspace.job_del, Keyspace.mem_unfail] <;> grind

/-- Every world a run reaches is well formed. -/
theorem wf_run (calls : List Call) : Wf (machine.run .empty calls) :=
  Base.Machine.invariant_all (m := machine)
    (fun c w hw => (any_moves c w).invariant (fun _ _ hm => Wf.move hm) hw)
    wf_empty calls

end PyAppRunner.Queue.RedisQueue
