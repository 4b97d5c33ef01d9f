import PyAppRunner.Queue.RedisDelivery
import PyAppRunner.Queue.RedisKept
import PyAppRunner.Redis.Look

/-! What `reserve` finds while nobody else uses the keyspace.

A reserve goes through its queues in their order and through the levels of a queue from the highest. On a
level it has five looks, and an entry of a job that is gone, held or out of attempts costs one. So it finds
a job of the highest priority there is, if that job is among the delayed ones that are promoted, its entry is
in reach, and fewer than five such entries are in front of it (`WithinBounds`); and whatever it finds is open
and due, because every place says when its job is due (`Sound`). -/
namespace PyAppRunner.Queue.RedisQueue
open Redis

/-! ### `reserve` -/

section
variable (decodes : String → Bool) (ms : Nat) (moment : Moment) (timeout : Int) (worker : String)

/-- `_reserve_from`. A job whose payload does not decode is failed at once, and the queue is left at that. -/
def World.reserveFrom (queue : String) (w : World) : Option (Job EntryId) × World :=
  match RedisQueue.reserve ms (reserveArgs moment queue timeout worker) w.keys with
  | (none, k) => (none, w.handOut (none, k))
  | (some c, k) =>
    if decodes c.hash.payload then (some (toJob c), w.handOut (some c, k))
    else (none, World.step (.fail w.claims.length moment undecodableError) (w.handOut (some c, k)))

/-- `reserve`: the first queue that gives a job. -/
def World.reserve : List String → World → Option (Job EntryId) × World
  | [], w => (none, w)
  | queue :: rest, w =>
    match w.reserveFrom decodes ms moment timeout worker queue with
    | (some j, w) => (some j, w)
    | (none, w) => w.reserve rest

end

/-! ### Open jobs -/

/-- A job of the queue that nobody holds at `now` and that has attempts left. -/
def canClaim (now : Int) (q : String) (h : JobHash) : Bool :=
  decide (h.queue = q ∧ h.reservedUntil ≤ now ∧ h.attempts < h.maxAttempts)

/-- The job under `id` if it can be claimed from the queue, whichever entry it has. -/
def openJob (now : Int) (q : String) (k : Keyspace) (id : Nat) : Option JobHash :=
  if id ∈ k.failed then none else ((k.job id).filter (canClaim now q)).map fun h => {h with entry := none}

/-- The job can be handed out from the queue: it is open and due, and its payload decodes. -/
structure Claimable (decodes : String → Bool) (now : Int) (k : Keyspace) (q : String) (id : Nat) (h : JobHash) : Prop where
  opened : openJob now q k id = some h
  due : h.availableAt ≤ now
  decoded : decodes h.payload = true

/-- The queue holds a job that can be handed out. -/
def HoldsJob (decodes : String → Bool) (now : Int) (k : Keyspace) (q : String) : Prop :=
  ∃ id h, Claimable decodes now k q id h

/-- A job that can be handed out, and of the highest priority among those of its queue. -/
def Best (decodes : String → Bool) (now : Int) (k : Keyspace) (q : String) (id : Nat) (h : JobHash) : Prop :=
  Claimable decodes now k q id h ∧ ∀ id' h', Claimable decodes now k q id' h' → h'.priority ≤ h.priority

/-- The result is a job of the first queue that holds one, and none there is of a higher priority. -/
structure Finds (decodes : String → Bool) (now : Int) (k : Keyspace) (queues : List String)
    (result : Option (Job EntryId)) : Prop where
  first : ∀ before q after, queues = before ++ q :: after → (∀ q' ∈ before, ¬ HoldsJob decodes now k q') →
    HoldsJob decodes now k q → ∃ j h, result = some j ∧ j.queue = q ∧ Best decodes now k q j.id h
  none_only : result = none → ∀ q ∈ queues, ¬ HoldsJob decodes now k q

/-- The script gets to the job. If it is delayed, fewer than fifty that are due come before it. Once they are
promoted, its entry is unread, or pending for the timeout and among the first ten; fewer than five entries that are
offered before it are of jobs that are not open. And no job of that priority or a higher one is there that is open
and due and does not decode. -/
structure WithinBounds (decodes : String → Bool) (ms : Nat) (a : ReserveArgs) (k : Keyspace) (id : Nat) (h : JobHash) :
    Prop where
  promoted : id ∈ k.delayed a.queue →
    ((k.delayed a.queue).zrangebyscore asText a.now (k.delayed a.queue).zcard).idxOf id < promoteLimit
  reach : ∀ e ∈ ((promoteDue ms a k).stream (a.queue, h.priority)).entries, e.value = id →
    ((promoteDue ms a k).stream (a.queue, h.priority)).InReach ms (a.timeout * 1000) e
  front : ∀ e ∈ ((promoteDue ms a k).stream (a.queue, h.priority)).entries, e.value = id →
    ((promoteDue ms a k).stream (a.queue, h.priority)).inFront ms (a.timeout * 1000)
      (fun v => (openJob a.now a.queue k v).isNone) e < claimRounds
  decoded : ∀ id' h', openJob a.now a.queue k id' = some h' → h'.availableAt ≤ a.now → h.priority ≤ h'.priority →
    decodes h'.payload = true

section
variable {now : Int} {q : String} {k k' : Keyspace} {i : Nat} {h : JobHash}

theorem openJob_congr (hjob : k'.job i = k.job i) (hfailed : i ∈ k'.failed ↔ i ∈ k.failed) :
    openJob now q k' i = openJob now q k i := by
  unfold openJob
  rw [hjob]
  simp only [hfailed]

/-- Another entry makes no difference. -/
theorem openJob_entry (hjob : k.job i = some h) (n : EntryId) (hjob' : k'.job i = some {h with entry := some n})
    (hfailed : i ∈ k'.failed ↔ i ∈ k.failed) : openJob now q k' i = openJob now q k i := by
  unfold openJob
  rw [hjob, hjob', Option.filter_some, Option.filter_some,
    show canClaim now q {h with entry := some n} = canClaim now q h from rfl]
  simp only [hfailed]
  cases canClaim now q h <;> rfl

theorem openJob_eq_none (hjob : k.job i = some h) (hclosed : canClaim now q h = false) : openJob now q k i = none := by
  unfold openJob
  rw [hjob, Option.filter_some_neg (by simp [hclosed])]
  exact ite_self _

theorem openJob_of_failed (hfailed : i ∈ k.failed) : openJob now q k i = none := if_pos hfailed

theorem openJob_of_gone (hgone : k.job i = none) : openJob now q k i = none := by
  unfold openJob
  rw [hgone]
  exact ite_self _

theorem openJob_eq_some : openJob now q k i = some h ↔
    i ∉ k.failed ∧ ∃ h', k.job i = some h' ∧ canClaim now q h' = true ∧ {h' with entry := none} = h := by
  unfold openJob
  split
  · simp [*]
  · simp [*, Option.filter_eq_some_iff, and_assoc]

end

/-- A delayed job is as open once it has an entry. -/
theorem openJob_promote (now : Int) (q : String) (ms : Nat) (q' : String) (k : Keyspace) (id : Nat) :
    openJob now q (promote ms q' k id) = openJob now q k := by
  funext i
  unfold promote
  split
  · split
    · rfl
    · rename_i h hjob
      by_cases hi : i = id
      · subst hi
        apply openJob_entry hjob ((k.stream (q', h.priority)).nextId ms)
        · simp
        · simp
      · apply openJob_congr
        · simp [hi]
        · simp
  · rfl

theorem openJob_promoteDue (now : Int) (q : String) (ms : Nat) (a : ReserveArgs) (k : Keyspace) :
    openJob now q (promoteDue ms a k) = openJob now q k := by
  unfold promoteDue
  generalize (k.delayed a.queue).zrangebyscore asText a.now promoteLimit = ids
  induction ids generalizing k with
  | nil => rfl
  | cons id rest ih => exact (ih _).trans (openJob_promote now q ms a.queue k id)

/-! ### One round -/

/-- An entry whose job is not open is removed, and no job opens or closes by that. -/
structure Passed (a : ReserveArgs) (l : Int) (e : Entry Nat) (k k' : Keyspace) : Prop where
  closed : ∀ q, openJob a.now q k e.value = none
  opened : ∀ q, openJob a.now q k' = openJob a.now q k
  stream : k'.stream = (k.remove a.queue l e.id).stream
  levels : k'.levels = k.levels
  delayed : ∀ q, q ≠ a.queue → k'.delayed q = k.delayed q
  job : ∀ i, i ≠ e.value → k'.job i = k.job i

/-- The job is claimed through its entry. -/
structure Takes (a : ReserveArgs) (e : Entry Nat) (k : Keyspace) (c : Claimed) (k' : Keyspace) : Prop where
  hash : ∃ h, k.job e.value = some h ∧ canClaim a.now h.queue h = true ∧ c = ⟨e.value, e.id, claimHash a e.id h⟩
  keys : k' = k.hset e.value c.hash

/-- What becomes of an entry: its job is claimed, or it was not open and the entry is gone. -/
theorem settle_cases (a : ReserveArgs) (l : Int) (e : Entry Nat) (k : Keyspace) :
    (∃ c k', settle a l e k = (.claimed c, k') ∧ Takes a e k c k') ∨
      ∃ k', settle a l e k = (.next, k') ∧ Passed a l e k k' := by
  unfold settle
  -- In the order of the script: a job that is gone, held, or out of attempts is passed, and the rest is
  -- claimed.
  split
  · rename_i hgone
    exact .inr ⟨_, rfl, fun q => openJob_of_gone hgone, fun q => rfl, rfl, rfl, fun q _ => rfl, fun i _ => rfl⟩
  · rename_i h hjob
    split
    · rename_i hheld
      refine .inr ⟨_, rfl, ?_, ?_, rfl, rfl, ?_, ?_⟩
      · intro q
        apply openJob_eq_none hjob
        simp [canClaim, hheld]
      · intro q
        funext i
        by_cases hi : i = e.value
        · subst hi
          rw [openJob_eq_none hjob (by simp [canClaim, hheld]), openJob_eq_none (h := {h with entry := none})]
          · simp [park]
          · simp [canClaim, hheld]
        · apply openJob_congr
          · simp [park, hi]
          · simp [park]
      · intro q hq
        simp [park, Keyspace.delay, hq]
      · intro i hi
        simp [park, hi]
    · rename_i hlapsed
      rw [not_lt] at hlapsed
      split
      · rename_i hspent
        have hclosed : ∀ q, openJob a.now q k e.value = none := by
          intro q
          apply openJob_eq_none hjob
          simp [canClaim, hspent]
        refine .inr ⟨_, rfl, hclosed, ?_, rfl, rfl, ?_, ?_⟩
        · intro q
          funext i
          by_cases hi : i = e.value
          · subst hi
            rw [hclosed, openJob_of_failed]
            simp
          · apply openJob_congr
            · simp [hi]
            · simp [hi]
        · intro q _
          rfl
        · intro i hi
          simp [hi]
      · rename_i hleft
        rw [not_le] at hleft
        exact .inl ⟨_, _, rfl, ⟨h, hjob, by simp [canClaim, hlapsed, hleft], rfl⟩, rfl⟩

/-! ### The rounds on a level -/

theorem take_eq_takeNext (ms : Nat) (a : ReserveArgs) (l : Int) (k : Keyspace) :
    take ms a l k = (((k.stream (a.queue, l)).takeNext ms (a.timeout * 1000)).1,
      k.setStream a.queue l ((k.stream (a.queue, l)).takeNext ms (a.timeout * 1000)).2) := by
  unfold take XStream.takeNext
  dsimp only
  cases ((k.stream (a.queue, l)).xautoclaim ms (a.timeout * 1000)).1 <;> rfl

section
variable {a : ReserveArgs} (hnow : 0 ≤ a.now) (hok : Admitted settledEntry a) {w : World}

include hnow hok

/-- **The rounds find a job** if an open one is in reach and fewer entries are in front of it than there are rounds. -/
theorem rounds_claims (ms n : Nat) {k : Keyspace} (hs : Sound a.now (w.put k)) {l : Int} {g : Group}
    (hg : (k.stream (a.queue, l)).group = some g) {e : Entry Nat} (he : e ∈ (k.stream (a.queue, l)).entries)
    (hopen : (openJob a.now a.queue k e.value).isSome) (hreach : (k.stream (a.queue, l)).InReach ms (a.timeout * 1000) e)
    (hfront : (k.stream (a.queue, l)).inFront ms (a.timeout * 1000) (fun v => (openJob a.now a.queue k v).isNone) e < n) :
    ∃ c k', rounds ms a l n k = (some c, k') := by
  induction n generalizing k g with
  | zero => exact absurd hfront (Nat.not_lt_zero _)
  | succ n ih =>
    have htidy : (k.stream (a.queue, l)).Tidy := hs.kept.tidy a.queue l
    obtain ⟨f, hf, htaken, hoffered, hle, hwithout⟩ := htidy.takeNext ms (a.timeout * 1000) hg he hreach
    have hfollows := (k.stream (a.queue, l)).follows_takeNext ms (a.timeout * 1000)
    have hdelivered := XStream.takeNext_delivered htidy htaken
    have hround : round ms a l k =
        settle a l f (k.setStream a.queue l ((k.stream (a.queue, l)).takeNext ms (a.timeout * 1000)).2) := by
      rw [round, take_eq_takeNext, htaken]
    generalize ((k.stream (a.queue, l)).takeNext ms (a.timeout * 1000)).2 = s at hwithout hfollows hdelivered hround
    have hstream : (k.setStream a.queue l s).stream (a.queue, l) = s := by
      rw [Keyspace.stream_setStream, if_pos ⟨rfl, rfl⟩]
    have hkeep := (hs.regroup hfollows).settle hnow hok (l := l) (e := f) (by rwa [hstream, hfollows.entries])
      (by rwa [hstream])
    unfold rounds
    rw [hround]
    obtain ⟨c, k', hsettle, -⟩ | ⟨k', hsettle, hpassed⟩ := settle_cases a l f (k.setStream a.queue l s)
    · rw [hsettle]
      exact ⟨c, k', rfl⟩
    · rw [hsettle] at hkeep ⊢
      have hclosed : openJob a.now a.queue k f.value = none := hpassed.closed a.queue
      have hopened : openJob a.now a.queue k' = openJob a.now a.queue k := hpassed.opened a.queue
      have hrest : k'.stream (a.queue, l) = ((s.xack f.id).xdel f.id) := by
        rw [hpassed.stream, Keyspace.remove, Keyspace.stream_setStream, if_pos ⟨rfl, rfl⟩, hstream]
      have hne : e.id ≠ f.id := by
        intro hid
        rw [XStream.entry_unique he hf hid, hclosed] at hopen
        cases hopen
      rw [← hrest] at hwithout
      obtain ⟨-, g', -, hg', -⟩ := hwithout.group
      apply ih hkeep hg' (hwithout.mem he hne)
      · rwa [hopened]
      · exact hwithout.inReach he hne hreach
      · rw [hopened]
        have hless := hwithout.inFront_lt hf hoffered (fun v => (openJob a.now a.queue k v).isNone)
          (by rw [hclosed]; rfl) (lt_of_le_of_ne hle (Ne.symm hne))
        omega

end

/-! ### What a search leaves -/

/-- A queue is as it was: its places, and its open jobs. -/
structure Same (now : Int) (q : String) (k k' : Keyspace) : Prop where
  stream : ∀ l, k'.stream (q, l) = k.stream (q, l)
  levels : k'.levels q = k.levels q
  delayed : k'.delayed q = k.delayed q
  job : ∀ id ∈ k.delayed q, k'.job id = k.job id
  opened : openJob now q k' = openJob now q k

theorem Same.refl (now : Int) (q : String) (k : Keyspace) : Same now q k k :=
  ⟨fun _ => rfl, rfl, rfl, fun _ _ => rfl, rfl⟩

theorem Same.trans {now : Int} {q : String} {k k' k'' : Keyspace} (h : Same now q k k') (h' : Same now q k' k'') :
    Same now q k k'' where
  stream := fun l => (h'.stream l).trans (h.stream l)
  levels := h'.levels.trans h.levels
  delayed := h'.delayed.trans h.delayed
  job := by
    intro id hid
    rw [h'.job id (by rwa [h.delayed]), h.job id hid]
  opened := h'.opened.trans h.opened

/-- A search of the queue that found no job. -/
structure Searched (a : ReserveArgs) (k k' : Keyspace) : Prop where
  opened : ∀ q, openJob a.now q k' = openJob a.now q k
  entries : ∀ l e, e ∈ (k'.stream (a.queue, l)).entries → e ∈ (k.stream (a.queue, l)).entries
  others : ∀ q, q ≠ a.queue → Same a.now q k k'

/-- A search of the queue that found an open job on this level. -/
structure Found (a : ReserveArgs) (l : Int) (k : Keyspace) (c : Claimed) (k' : Keyspace) : Prop where
  entry : ∃ e ∈ (k.stream (a.queue, l)).entries, e.value = c.id
  hash : ∃ h, openJob a.now a.queue k c.id = some h ∧ c.hash = claimHash a c.entry h
  job : k'.job c.id = some c.hash
  opened : ∀ q i, i ≠ c.id → openJob a.now q k' i = openJob a.now q k i
  others : ∀ q, q ≠ a.queue → Same a.now q k k'

theorem Searched.refl (a : ReserveArgs) (k : Keyspace) : Searched a k k :=
  ⟨fun _ => rfl, fun _ _ he => he, fun q _ => .refl a.now q k⟩

theorem Searched.regroup {a : ReserveArgs} {k k' : Keyspace} (h : Searched a k k') {l : Int} {s : XStream Nat}
    (hfollows : (k'.stream (a.queue, l)).Follows s) : Searched a k (k'.setStream a.queue l s) where
  opened := h.opened
  entries := by
    intro l' e he
    rw [Keyspace.stream_setStream] at he
    split at he
    · rename_i hl
      rw [hfollows.entries, ← hl.2] at he
      exact h.entries l' e he
    · exact h.entries l' e he
  others := by
    intro q hq
    apply (h.others q hq).trans
    refine ⟨?_, rfl, rfl, fun _ _ => rfl, rfl⟩
    intro l'
    rw [Keyspace.stream_setStream, if_neg fun hkey => hq hkey.1]

section
variable {a : ReserveArgs} {w : World} {k k' : Keyspace} {l : Int} {e : Entry Nat}

theorem Searched.passed {k'' : Keyspace} (h : Searched a k k') (hs : Sound a.now (w.put k'))
    (he : e ∈ (k'.stream (a.queue, l)).entries) (hpassed : Passed a l e k' k'') : Searched a k k'' where
  opened := fun q => (hpassed.opened q).trans (h.opened q)
  entries := by
    intro l' e' he'
    rw [hpassed.stream, Keyspace.mem_remove] at he'
    exact h.entries l' e' he'.2
  others := by
    intro q hq
    apply (h.others q hq).trans
    refine ⟨?_, by rw [hpassed.levels], hpassed.delayed q hq, ?_, hpassed.opened q⟩
    · intro l'
      rw [hpassed.stream, Keyspace.remove, Keyspace.stream_setStream, if_neg fun hkey => hq hkey.1]
    · intro id hid
      apply hpassed.job
      rintro rfl
      exact hs.placed.delayed_stream a.queue l e q he hid

theorem Searched.takes {c : Claimed} {k'' : Keyspace} (h : Searched a k k') (hs : Sound a.now (w.put k'))
    (he : e ∈ (k'.stream (a.queue, l)).entries) (htakes : Takes a e k' c k'') : Found a l k c k'' := by
  obtain ⟨⟨hash, hjob, hcan, rfl⟩, rfl⟩ := htakes
  have hq : hash.queue = a.queue := hs.wf.entry_queue a.queue l e hash he hjob
  have hfailed : e.value ∉ k'.failed := hs.placed.failed_stream a.queue l e he
  refine ⟨⟨e, h.entries l e he, rfl⟩, ⟨{hash with entry := none}, ?_, rfl⟩, by simp, ?_, ?_⟩
  · rw [← h.opened a.queue, openJob_eq_some]
    exact ⟨hfailed, hash, hjob, hq ▸ hcan, rfl⟩
  · intro q i hi
    rw [← h.opened q]
    apply openJob_congr
    · simp [hi]
    · simp
  · intro q hne
    apply (h.others q hne).trans
    refine ⟨fun _ => rfl, rfl, rfl, ?_, ?_⟩
    · intro id hid
      have hother : id ≠ e.value := by
        rintro rfl
        exact hs.placed.delayed_stream a.queue l e q he hid
      simp [hother]
    · funext i
      by_cases hi : i = e.value
      · subst hi
        rw [openJob_eq_none hjob, openJob_eq_none (h := claimHash a e.id hash)]
        · simp
        · simp [canClaim, claimHash, hq, hne.symm]
        · simp [canClaim, hq, hne.symm]
      · apply openJob_congr
        · simp [hi]
        · simp

end

section
variable {a : ReserveArgs} (hnow : 0 ≤ a.now) (hok : Admitted settledEntry a) {w : World}

include hnow hok

/-- One round of a search. -/
theorem Searched.settle {k k' : Keyspace} (hs : Sound a.now (w.put k')) (h : Searched a k k') {l : Int} {s : XStream Nat}
    {e : Entry Nat} (hfollows : (k'.stream (a.queue, l)).Follows s) (he : e ∈ s.entries)
    (hdelivered : (k'.stream (a.queue, l)).Tidy → s.delivered e = true) :
    RoundKeeps (fun k' => Sound a.now (w.put k') ∧ Searched a k k')
      (fun c k' => Sound a.now (w.handOut (some c, k')) ∧ Found a l k c k') (settle a l e (k'.setStream a.queue l s)) := by
  have hregroup := hs.regroup hfollows
  have hstream : (k'.setStream a.queue l s).stream (a.queue, l) = s := by
    rw [Keyspace.stream_setStream, if_pos ⟨rfl, rfl⟩]
  have hkeep := hregroup.settle hnow hok (l := l) (e := e) (by rwa [hstream])
    (by rw [hstream]; exact hdelivered (hs.kept.tidy a.queue l))
  obtain ⟨c, k'', hsettle, htakes⟩ | ⟨k'', hsettle, hpassed⟩ := settle_cases a l e (k'.setStream a.queue l s)
  · rw [hsettle] at hkeep ⊢
    exact ⟨hkeep, (h.regroup hfollows).takes hregroup (by rwa [hstream]) htakes⟩
  · rw [hsettle] at hkeep ⊢
    exact ⟨hkeep, (h.regroup hfollows).passed hregroup (by rwa [hstream]) hpassed⟩

theorem rounds_search (ms n : Nat) {k k' : Keyspace} (hs : Sound a.now (w.put k')) (h : Searched a k k') (l : Int) :
    WalkKeeps (fun k' => Sound a.now (w.put k') ∧ Searched a k k')
      (fun c k' => Sound a.now (w.handOut (some c, k')) ∧ Found a l k c k') (rounds ms a l n k') := by
  apply rounds_keep
  · exact fun k' s hfollows h => ⟨h.1.regroup hfollows, h.2.regroup hfollows⟩
  · exact fun k' s e hfollows he hdelivered h => h.2.settle hnow hok h.1 hfollows he hdelivered
  · exact ⟨hs, h⟩

theorem walk_search (ms : Nat) {k : Keyspace} (hs : Sound a.now (w.put k)) (levels : List Int) :
    WalkKeeps (fun k' => Sound a.now (w.put k') ∧ Searched a k k')
      (fun c k' => Sound a.now (w.handOut (some c, k')) ∧ ∃ l, Found a l k c k') (walk ms a levels k) := by
  apply walk_keeps
  · exact fun k' l s hfollows h => ⟨h.1.regroup hfollows, h.2.regroup hfollows⟩
  · intro k' l s e hfollows he hdelivered h
    have hround := h.2.settle hnow hok h.1 hfollows he hdelivered
    generalize RedisQueue.settle a l e (k'.setStream a.queue l s) = result at hround
    obtain ⟨outcome, k''⟩ := result
    cases outcome with
    | stop => exact hround
    | next => exact hround
    | claimed c => exact ⟨hround.1, l, hround.2⟩
  · exact ⟨hs, .refl a k⟩

omit hnow hok in
/-- The rounds on one level leave the others. -/
theorem rounds_stream (ms n : Nat) (k : Keyspace) {l l' : Int} (hne : l' ≠ l) :
    (rounds ms a l n k).2.stream (a.queue, l') = k.stream (a.queue, l') := by
  have hkeep : WalkKeeps (fun k' => k'.stream (a.queue, l') = k.stream (a.queue, l'))
      (fun _ k' => k'.stream (a.queue, l') = k.stream (a.queue, l')) (rounds ms a l n k) := by
    apply rounds_keep
    · intro k' s _ h
      rw [Keyspace.stream_setStream, if_neg fun hkey => hne hkey.2, h]
    · intro k' s e _ _ _ h
      have hstream : (k'.setStream a.queue l s).stream (a.queue, l') = k.stream (a.queue, l') := by
        rw [Keyspace.stream_setStream, if_neg fun hkey => hne hkey.2, h]
      obtain ⟨c, k'', hsettle, htakes⟩ | ⟨k'', hsettle, hpassed⟩ := settle_cases a l e (k'.setStream a.queue l s)
      · rw [hsettle]
        show k''.stream (a.queue, l') = _
        rw [htakes.keys]
        exact hstream
      · rw [hsettle]
        show k''.stream (a.queue, l') = _
        rw [hpassed.stream, Keyspace.remove, Keyspace.stream_setStream, if_neg fun hkey => hne hkey.2, hstream]
    · rfl
  generalize rounds ms a l n k = result at hkeep
  obtain ⟨claimed, k'⟩ := result
  cases claimed <;> exact hkeep

/-- **The walk finds a job on a level** that has an open one in sight, if no level before it has an open job. -/
theorem walk_claims (ms : Nat) {above below : List Int} {l : Int} (habove : l ∉ above) {k₀ k : Keyspace}
    (hs : Sound a.now (w.put k)) (hsearched : Searched a k₀ k)
    (hclosed : ∀ l' ∈ above, ∀ e ∈ (k₀.stream (a.queue, l')).entries, openJob a.now a.queue k₀ e.value = none)
    {e : Entry Nat} (he : e ∈ (k.stream (a.queue, l)).entries) (hopen : (openJob a.now a.queue k₀ e.value).isSome)
    (hreach : (k.stream (a.queue, l)).InReach ms (a.timeout * 1000) e)
    (hfront : (k.stream (a.queue, l)).inFront ms (a.timeout * 1000) (fun v => (openJob a.now a.queue k₀ v).isNone) e <
      claimRounds) : ∃ c k', walk ms a (above ++ l :: below) k = (some c, k') ∧ Found a l k₀ c k' := by
  induction above generalizing k with
  | nil =>
    have hfollows := XStream.follows_xgroupCreate (k.stream (a.queue, l))
    have hgroup : (createGroup a.queue l k).stream (a.queue, l) = (k.stream (a.queue, l)).xgroupCreate := by
      rw [createGroup, Keyspace.stream_setStream, if_pos ⟨rfl, rfl⟩]
    have hopened : openJob a.now a.queue (createGroup a.queue l k) = openJob a.now a.queue k₀ := hsearched.opened a.queue
    obtain ⟨g, hg⟩ := XStream.group_xgroupCreate (k.stream (a.queue, l))
    obtain ⟨c, k', hrounds⟩ := rounds_claims hnow hok ms claimRounds (hs.regroup hfollows) (l := l) (e := e) (g := g)
      (by rw [← createGroup, hgroup, hg])
      (by rw [← createGroup, hgroup]; simpa using he)
      (by rw [← createGroup, hopened]; exact hopen)
      (by rw [← createGroup, hgroup]; exact XStream.inReach_xgroupCreate he hreach)
      (by rw [← createGroup, hgroup, hopened, XStream.inFront_xgroupCreate]; exact hfront)
    have hfound := rounds_search hnow hok ms claimRounds (hs.regroup hfollows) (hsearched.regroup hfollows) l
    rw [hrounds] at hfound
    refine ⟨c, k', ?_, hfound.2⟩
    rw [List.nil_append, walk, createGroup, hrounds]
  | cons l' rest ih =>
    rw [List.mem_cons, not_or] at habove
    rw [List.forall_mem_cons] at hclosed
    have hfollows := XStream.follows_xgroupCreate (k.stream (a.queue, l'))
    have hsearch := rounds_search hnow hok ms claimRounds (hs.regroup hfollows) (hsearched.regroup hfollows) l'
    have hstream : (rounds ms a l' claimRounds (createGroup a.queue l' k)).2.stream (a.queue, l) =
        k.stream (a.queue, l) := by
      rw [rounds_stream ms claimRounds _ habove.1, createGroup, Keyspace.stream_setStream,
        if_neg fun hkey => habove.1 hkey.2]
    rw [← createGroup] at hsearch
    rw [List.cons_append, walk]
    generalize rounds ms a l' claimRounds (createGroup a.queue l' k) = result at hsearch hstream
    obtain ⟨claimed, k'⟩ := result
    cases claimed with
    | some c =>
      -- A claim on this level would be of a job that is open there.
      exfalso
      obtain ⟨e', he', hvalue⟩ := hsearch.2.entry
      obtain ⟨h, hjob, -⟩ := hsearch.2.hash
      rw [← hvalue, hclosed.1 e' he'] at hjob
      cases hjob
    | none =>
      rw [← hstream] at he hreach hfront
      exact ih habove.2 hsearch.1 hsearch.2 hclosed.2 he hreach hfront

end

/-! ### Promotion -/

section
variable {now : Int} {q : String} {k : Keyspace}

theorem not_delayed_promote (ms id : Nat) {i : Nat} (h : i ∉ k.delayed q ∨ i = id) :
    i ∉ (promote ms q k id).delayed q := by
  intro hmem
  obtain ⟨⟨_, s⟩, hitem, rfl⟩ := List.mem_map.mp hmem
  have hbefore := SortedSet.mem_of_item (items_promote ms q id hitem)
  rcases h with hnot | rfl
  · exact hnot hbefore
  · unfold promote at hitem
    rw [if_pos hbefore] at hitem
    split at hitem
    · exact (mem_items_undelay.mp hitem).1 ⟨rfl, rfl⟩
    · exact (mem_items_undelay.mp hitem).1 ⟨rfl, rfl⟩

theorem not_delayed_promoteAll (ms : Nat) {ids : List Nat} {i : Nat} (h : i ∉ k.delayed q ∨ i ∈ ids) :
    i ∉ (ids.foldl (promote ms q) k).delayed q := by
  induction ids generalizing k with
  | nil => simpa using h
  | cons id rest ih =>
    apply ih
    rw [List.mem_cons, ← or_assoc] at h
    rcases h with h | h
    · exact .inl (not_delayed_promote ms id h)
    · exact .inr h

/-- A job that waits in its queue still does after a promotion. -/
theorem Keyspace.Waiting.promoteAll (ms : Nat) (ids : List Nat) {i : Nat} (h : k.Waiting q i)
    (hopen : (openJob now q k i).isSome) : (ids.foldl (promote ms q) k).Waiting q i := by
  induction ids generalizing k with
  | nil => exact h
  | cons id rest ih =>
    apply ih
    · unfold promote
      split
      · split
        · rename_i hgone
          have hi : i ≠ id := by
            rintro rfl
            rw [openJob_of_gone hgone] at hopen
            cases hopen
          exact h.undelay q hi
        · by_cases hi : i = id
          · subst hi
            exact waiting_enqueue ..
          · exact (h.undelay q hi).enqueue ..
      · exact h
    · rwa [openJob_promote]

/-- Promoting in one queue leaves another. -/
theorem Same.promote {w : World} (hw : Wf (w.put k)) {q' : String} (hne : q ≠ q') (ms id : Nat) :
    Same now q k (promote ms q' k id) := by
  have hopened := openJob_promote now q ms q' k id
  unfold RedisQueue.promote at hopened ⊢
  split
  · rename_i hdelayed
    split
    · rename_i hgone
      refine ⟨fun _ => rfl, rfl, ?_, fun _ _ => rfl, rfl⟩
      simp [Keyspace.undelay, hne]
    · rename_i h hjob
      rw [if_pos hdelayed, hjob] at hopened
      refine ⟨?_, ?_, ?_, ?_, hopened⟩
      · intro l
        rw [Keyspace.stream_enqueue, if_neg fun hkey => hne hkey.1]
        rfl
      · simp [Keyspace.enqueue, Keyspace.hset, Keyspace.setStream, Keyspace.undelay, hne]
      · simp [Keyspace.undelay, hne]
      · intro i hi
        have hother : i ≠ id := by
          rintro rfl
          exact hne ((hw.delayed_queue q i h hi hjob).symm.trans (hw.delayed_queue q' i h hdelayed hjob))
        simp [hother]
  · exact .refl now q k

theorem Same.promoteDue {w : World} (hw : Wf (w.put k)) (ms : Nat) {a : ReserveArgs} (hne : q ≠ a.queue) :
    Same now q k (promoteDue ms a k) := by
  unfold RedisQueue.promoteDue
  generalize (k.delayed a.queue).zrangebyscore asText a.now promoteLimit = ids
  induction ids generalizing k with
  | nil => exact .refl now q k
  | cons id rest ih =>
    have hmoves : Moves anyCall (w.put k) (w.put (RedisQueue.promote ms a.queue k id)) :=
      promote_moves (w.put k) ms a.queue id
    exact (Same.promote hw hne ms id).trans (ih (hmoves.invariant (fun _ _ hm => Wf.move hm) hw))

/-- The same promotions in a queue that is as it was. -/
theorem Same.promoteAll {k' : Keyspace} (h : Same now q k k') (ms : Nat) (ids : List Nat) :
    Same now q (ids.foldl (RedisQueue.promote ms q) k) (ids.foldl (RedisQueue.promote ms q) k') := by
  induction ids generalizing k k' with
  | nil => exact h
  | cons id rest ih =>
    apply ih
    have hopened : openJob now q (RedisQueue.promote ms q k' id) = openJob now q (RedisQueue.promote ms q k id) := by
      rw [openJob_promote, openJob_promote, h.opened]
    unfold RedisQueue.promote at hopened ⊢
    rw [h.delayed] at hopened ⊢
    by_cases hdelayed : id ∈ k.delayed q
    · rw [if_pos hdelayed, if_pos hdelayed] at hopened ⊢
      rw [h.job id hdelayed] at hopened ⊢
      have hkept : ∀ i, i ∈ (k.undelay q id).delayed q → k'.job i = k.job i :=
        fun i hi => h.job i (Keyspace.mem_undelay .. |>.mp hi).2
      have hdelayeds : (k'.undelay q id).delayed q = (k.undelay q id).delayed q := by
        simp [Keyspace.undelay, h.delayed]
      cases hjob : k.job id with
      | none => exact ⟨h.stream, h.levels, hdelayeds, hkept, h.opened⟩
      | some hash =>
        rw [hjob] at hopened
        refine ⟨?_, ?_, hdelayeds, ?_, hopened⟩
        · intro l
          rw [Keyspace.stream_enqueue, Keyspace.stream_enqueue]
          show (if _ then (k'.stream (q, hash.priority)).xadd ms id else k'.stream (q, l)) = _
          rw [h.stream, h.stream]
          rfl
        · simp [Keyspace.enqueue, Keyspace.hset, Keyspace.setStream, Keyspace.undelay, h.levels]
        · intro i hi
          rw [Keyspace.job_enqueue, Keyspace.job_enqueue]
          show (if i = id then some {hash with entry := some ((k'.stream (q, hash.priority)).nextId ms)} else k'.job i) = _
          rw [h.stream, hkept i hi]
          rfl
    · rw [if_neg hdelayed, if_neg hdelayed]
      exact h

end

/-! ### One queue -/

/-- Each level is its own score. -/
def Scored (k : Keyspace) (q : String) : Prop := ∀ i ∈ (k.levels q).items, i.2 = i.1

/-- An open job with an entry is due, and of the entry's level. -/
theorem Sound.open_entry {now : Int} {w : World} {k : Keyspace} (hs : Sound now (w.put k)) {q : String} {l : Int}
    {e : Entry Nat} (he : e ∈ (k.stream (q, l)).entries) {h : JobHash} (hopen : openJob now q k e.value = some h) :
    h.priority = l ∧ h.availableAt ≤ now ∧ h.queue = q := by
  obtain ⟨-, h', hjob, -, rfl⟩ := openJob_eq_some.mp hopen
  exact ⟨(hs.placed.entry_at q l e h' he hjob).2.symm, hs.kept.entry_due q l e h' he hjob,
    hs.wf.entry_queue q l e h' he hjob⟩

section
variable {decodes : String → Bool} {ms : Nat} {a : ReserveArgs} {w : World} {id : Nat} {h : JobHash}

/-- A job that is due and that nobody holds has a score that has come. -/
theorem Claimable.promoted (hs : Sound a.now w) (hclaimable : Claimable decodes a.now w.keys a.queue id h)
    (hbounds : WithinBounds decodes ms a w.keys id h) : id ∉ (promoteDue ms a w.keys).delayed a.queue := by
  apply not_delayed_promoteAll
  by_cases hdelayed : id ∈ w.keys.delayed a.queue
  · right
    obtain ⟨⟨_, s⟩, hitem, rfl⟩ := List.mem_map.mp hdelayed
    obtain ⟨-, h', hjob, hcan, rfl⟩ := openJob_eq_some.mp hclaimable.opened
    have hlapsed : h'.reservedUntil ≤ a.now := (of_decide_eq_true hcan).2.1
    have hdue : s ≤ a.now := by
      rcases hs.kept.delayed_at a.queue _ s h' hitem hjob with ⟨rfl, -⟩ | ⟨rfl, -⟩
      · exact hclaimable.due
      · exact hlapsed
    exact SortedSet.mem_zrangebyscore_of_idxOf hitem hdue (hbounds.promoted hdelayed)
  · exact .inl hdelayed

/-- **The script finds a job of the highest priority.** -/
theorem reserve_best (hnow : 0 ≤ a.now) (hok : Admitted settledEntry a) (hs : Sound a.now w)
    (hscored : Scored (promoteDue ms a w.keys) a.queue) (hbest : Best decodes a.now w.keys a.queue id h)
    (hwait : w.keys.Waiting a.queue id) (hbounds : WithinBounds decodes ms a w.keys id h) :
    ∃ c k', reserve ms a w.keys = (some c, k') ∧ decodes c.hash.payload = true ∧ c.hash.queue = a.queue ∧
      ∃ h', Best decodes a.now w.keys a.queue c.id h' := by
  have hs' := hs.promoteDue ms (le_refl a.now)
  have hopened := openJob_promoteDue a.now a.queue ms a w.keys
  have hsome : (openJob a.now a.queue w.keys id).isSome := by rw [hbest.1.opened]; rfl
  have hwait' : (promoteDue ms a w.keys).Waiting a.queue id := hwait.promoteAll ms _ hsome
  rcases hwait' with hdelayed | ⟨l, hl, e, rfl, hdeliverable⟩
  · exact absurd hdelayed (hbest.1.promoted hs hbounds)
  have he := hdeliverable.1
  obtain ⟨rfl, -, -⟩ := hs'.open_entry he (hopened ▸ hbest.1.opened)
  obtain ⟨above, below, hlevels, habove⟩ := SortedSet.zrevrange_split asText hscored hl
  have hnone : ∀ l' ∈ above, ∀ e' ∈ ((promoteDue ms a w.keys).stream (a.queue, l')).entries,
      openJob a.now a.queue (promoteDue ms a w.keys) e'.value = none := by
    intro l' hl' e' he'
    rw [Option.eq_none_iff_forall_ne_some]
    intro h' hopen
    obtain ⟨hpriority, hdue, -⟩ := hs'.open_entry he' hopen
    rw [hopened] at hopen
    have hlt := habove l' hl'
    have hdecoded := hbounds.decoded _ h' hopen hdue (by omega)
    have hle := hbest.2 _ h' ⟨hopen, hdue, hdecoded⟩
    omega
  obtain ⟨c, k', hwalk, hfound⟩ := walk_claims hnow hok ms (fun hmem => lt_irrefl _ (habove _ hmem)) hs' (.refl a _) hnone he
    (by rw [hopened]; exact hsome) (hbounds.reach e he rfl) (by rw [hopened]; exact hbounds.front e he rfl)
  obtain ⟨e', he', hvalue⟩ := hfound.entry
  obtain ⟨h', hopen, hhash⟩ := hfound.hash
  obtain ⟨hpriority, hdue, hqueue⟩ := hs'.open_entry he' (hvalue ▸ hopen)
  rw [hopened] at hopen
  have hdecoded := hbounds.decoded _ h' hopen hdue hpriority.ge
  refine ⟨c, k', ?_, ?_, ?_, h', ⟨hopen, hdue, hdecoded⟩, ?_⟩
  · rw [reserve, hlevels]
    exact hwalk
  · rw [hhash]
    exact hdecoded
  · rw [hhash]
    exact hqueue
  · intro id' h'' hclaimable
    rw [hpriority]
    exact hbest.2 id' h'' hclaimable

end

theorem scored_enqueue {k : Keyspace} {q : String} (h : Scored k q) (ms : Nat) (q' : String) (l : Int) (id : Nat)
    (hash : JobHash) : Scored (k.enqueue ms q' l id hash) q := by
  intro i hi
  change i ∈ (Function.update k.levels q' ((k.levels q').zadd l l) q).items at hi
  rw [Function.update_apply] at hi
  split at hi
  · rename_i hq
    subst hq
    rcases List.mem_cons.mp hi with rfl | hi
    · rfl
    · exact h i (List.mem_filter.mp hi).1
  · exact h i hi

theorem scored_move {ok : Call → World → Prop} {w w' : World} (hm : Move ok w w') {q : String} (h : Scored w.keys q) :
    Scored w'.keys q := by
  cases hm with
  | pushReady ms a => exact scored_enqueue (k := create a w.keys) h ms a.queue a.priority _ _
  | promote ms q' id hash => exact scored_enqueue (k := w.keys.undelay q' id) h ms q' hash.priority id hash
  | requeue ms id maxAttempts now hash => exact scored_enqueue (k := w.keys.unfail id) h ms (requeueQueue hash) 0 id _
  | freeUnique | pushDelayed | dropDelayed | regroup | dropTombstone | park | exhaust | claim | complete | release
  | fail | dropFailed | forget => exact h

/-! ### A search and what follows it -/

/-- No job opens, and the other queues are as they were. -/
structure Left (now : Int) (q : String) (k k' : Keyspace) : Prop where
  opened : ∀ q' i h, openJob now q' k' i = some h → openJob now q' k i = some h
  others : ∀ q', q' ≠ q → Same now q' k k'

/-- The result of a reserve script, seen from before it. -/
theorem reserve_search {a : ReserveArgs} (hnow : 0 ≤ a.now) (hok : Admitted settledEntry a) {w : World}
    (hs : Sound a.now w) (ms : Nat) :
    WalkKeeps (fun k' => Sound a.now (w.put k') ∧ Left a.now a.queue w.keys k')
      (fun c k' => Sound a.now (w.handOut (some c, k')) ∧ ∃ l, Found a l (promoteDue ms a w.keys) c k')
      (reserve ms a w.keys) := by
  have hwalk := walk_search hnow hok ms (hs.promoteDue ms (le_refl a.now))
    (((promoteDue ms a w.keys).levels a.queue).zrevrange asText)
  change WalkKeeps _ _ (reserve ms a w.keys) at hwalk
  generalize reserve ms a w.keys = result at hwalk
  obtain ⟨claimed, k'⟩ := result
  cases claimed with
  | some c => exact hwalk
  | none =>
    obtain ⟨hs', hsearched⟩ := hwalk
    refine ⟨hs', ?_, ?_⟩
    · intro q' i h hopen
      rwa [hsearched.opened, openJob_promoteDue] at hopen
    · exact fun q' hq' => (Same.promoteDue hs.wf ms hq').trans (hsearched.others q' hq')

section
variable {decodes : String → Bool} {ms : Nat} {moment : Moment} {timeout : Int} {worker : String} {w : World} {q : String}
  (hnow : 0 ≤ moment.seconds) (hs : Sound moment.seconds w)

/-- The claim that was just made is the job's, and its entry is where the job's is. -/
theorem held_of_found {a : ReserveArgs} {l : Int} {k k' : Keyspace} {c : Claimed} (hfound : Found a l k c k') :
    held (toJob c) k' = some c.hash ∧ c.hash.entry = some c.entry := by
  obtain ⟨h, -, hhash⟩ := hfound.hash
  refine ⟨held_eq_some.mpr ⟨hfound.job, rfl, ?_⟩, by rw [hhash]; rfl⟩
  have hattempts : c.hash.attempts = h.attempts + 1 := by rw [hhash]; rfl
  show c.hash.attempts = max 1 c.hash.attempts
  omega

theorem queue_of_found {now : Int} {a : ReserveArgs} {l : Int} {k k' : Keyspace} {c : Claimed}
    (hs' : Sound now (w.handOut (some c, k'))) (hfound : Found a l k c k') :
    c.hash.queue = a.queue ∧ (toJob c).queue = a.queue := by
  obtain ⟨h, hopen, hhash⟩ := hfound.hash
  obtain ⟨-, h', -, hcan, rfl⟩ := openJob_eq_some.mp hopen
  have hqueue : c.hash.queue = a.queue := by
    rw [hhash]
    exact (of_decide_eq_true hcan).1
  refine ⟨hqueue, ?_⟩
  show (if c.hash.queue = "" then "default" else c.hash.queue) = a.queue
  rw [if_neg (hs'.wf.queue_ne c.id c.hash hfound.job), hqueue]

/-- A failed job is in no place of another queue. -/
theorem Same.failed {now : Int} {k : Keyspace} (hw : Wf (w.put k)) {c : Claimed} (hjob : k.job c.id = some c.hash)
    (hqueue : c.hash.queue = q) {q' : String} (hne : q' ≠ q) (n : EntryId) (error failedAt : String) (score : Int) :
    Same now q' k ((k.remove q c.hash.priority n).failJob c.id c.hash error failedAt score) := by
  refine ⟨?_, rfl, rfl, ?_, ?_⟩
  · intro l
    rw [Keyspace.frame_failJob _ _ _ _ _ _ |>.2.1, Keyspace.remove, Keyspace.stream_setStream,
      if_neg fun hkey => hne hkey.1]
  · intro i hi
    have hother : i ≠ c.id := by
      rintro rfl
      exact hne ((hw.delayed_queue q' _ c.hash hi hjob).symm.trans hqueue)
    simp [hother]
  · funext i
    by_cases hi : i = c.id
    · subst hi
      rw [openJob_of_failed (by simp), openJob_eq_none hjob]
      simp [canClaim, hqueue, hne.symm]
    · apply openJob_congr
      · simp [hi]
      · simp [hi]

include hnow hs

/-- A job that does not decode is failed, and then it is as if it had been passed over. -/
theorem left_failed {l : Int} {c : Claimed} {k' : Keyspace}
    (hs' : Sound moment.seconds (w.handOut (some c, k')))
    (hfound : Found (reserveArgs moment q timeout worker) l (promoteDue ms (reserveArgs moment q timeout worker) w.keys) c k') :
    Sound moment.seconds (World.step (.fail w.claims.length moment undecodableError) (w.handOut (some c, k'))) ∧
      Left moment.seconds q w.keys (World.step (.fail w.claims.length moment undecodableError) (w.handOut (some c, k'))).keys := by
  obtain ⟨hheld, hentry⟩ := held_of_found hfound
  obtain ⟨hqueue, hjobQueue⟩ := queue_of_found hs' hfound
  have hclaim : (w.handOut (some c, k')).claims[w.claims.length]? = some ⟨toJob c, w.retries c.id⟩ :=
    List.getElem?_concat_length
  have hkeys : (World.step (.fail w.claims.length moment undecodableError) (w.handOut (some c, k'))).keys =
      (k'.remove q c.hash.priority c.entry).failJob c.id c.hash (fitError undecodableError) moment.stamp moment.seconds := by
    rw [World.step, World.complete, hclaim]
    show (fail _ _ _ (toJob c) k').2 = _
    rw [fail, hheld, hjobQueue]
    rfl
  constructor
  · apply sound_step hnow _ _ hs'
    · intro cl hcl h hh
      rw [Option.mem_def, hclaim, Option.some.injEq] at hcl
      subst hcl
      rw [Option.mem_def, show (w.handOut (some c, k')).keys = k' from rfl, hheld, Option.some.injEq] at hh
      subst hh
      exact .inl hentry
    · intro t ht
      cases ht
      exact le_rfl
  · rw [hkeys]
    constructor
    · intro q' i h hopen
      have hi : i ≠ c.id := by
        rintro rfl
        rw [openJob_of_failed (by simp)] at hopen
        cases hopen
      rw [openJob_congr (k := k') (by simp [hi]) (by simp [hi])] at hopen
      have hbefore := (hfound.opened q' i hi).symm.trans hopen
      rwa [openJob_promoteDue] at hbefore
    · intro q' hne
      apply (Same.promoteDue (a := reserveArgs moment q timeout worker) hs.wf ms hne).trans
      apply (hfound.others q' hne).trans
      exact Same.failed (w := w.handOut (some c, k')) hs'.wf hfound.job hqueue hne _ _ _ _

/-- A queue that holds nothing gives nothing. -/
theorem reserveFrom_nothing (hnone : ¬ HoldsJob decodes moment.seconds w.keys q) :
    ∃ w', w.reserveFrom decodes ms moment timeout worker q = (none, w') ∧ Sound moment.seconds w' ∧
      Left moment.seconds q w.keys w'.keys := by
  have hok : Admitted settledEntry (reserveArgs moment q timeout worker) :=
    ⟨ms, moment, q, timeout, worker, w, trivial, rfl⟩
  have hsearch := reserve_search hnow hok hs ms
  unfold World.reserveFrom
  generalize RedisQueue.reserve ms (reserveArgs moment q timeout worker) w.keys = result at hsearch
  obtain ⟨claimed, k'⟩ := result
  cases claimed with
  | none => exact ⟨_, rfl, hsearch⟩
  | some c =>
    obtain ⟨hs', l, hfound⟩ := hsearch
    obtain ⟨e, he, hvalue⟩ := hfound.entry
    obtain ⟨h, hopen, hhash⟩ := hfound.hash
    obtain ⟨-, hdue, -⟩ := (hs.promoteDue ms (le_refl _)).open_entry he (hvalue ▸ hopen)
    rw [openJob_promoteDue] at hopen
    have hpayload : c.hash.payload = h.payload := by rw [hhash]; rfl
    have hbad : ¬ decodes c.hash.payload = true := by
      rw [hpayload]
      exact fun hdecoded => hnone ⟨c.id, h, hopen, hdue, hdecoded⟩
    refine ⟨_, ?_, left_failed hnow hs hs' hfound⟩
    dsimp only
    rw [if_neg hbad]

/-- A queue gives a job of its highest priority, if the script gets to one. -/
theorem reserveFrom_best {id : Nat} {h : JobHash} (hscored : Scored w.keys q)
    (hbest : Best decodes moment.seconds w.keys q id h) (hwait : w.keys.Waiting q id)
    (hbounds : WithinBounds decodes ms (reserveArgs moment q timeout worker) w.keys id h) :
    ∃ j w', w.reserveFrom decodes ms moment timeout worker q = (some j, w') ∧ j.queue = q ∧
      ∃ h', Best decodes moment.seconds w.keys q j.id h' := by
  have hok : Admitted settledEntry (reserveArgs moment q timeout worker) :=
    ⟨ms, moment, q, timeout, worker, w, trivial, rfl⟩
  have hscored' : Scored (promoteDue ms (reserveArgs moment q timeout worker) w.keys) q := by
    have hmoves : Moves anyCall w (w.put (promoteDue ms (reserveArgs moment q timeout worker) w.keys)) :=
      promoteAll_moves w ms q _ w.keys
    exact hmoves.invariant (I := fun w => Scored w.keys q) (fun _ _ hm => scored_move hm) hscored
  obtain ⟨c, k', hreserve, hdecoded, hqueue, hfinds⟩ := reserve_best hnow hok hs hscored' hbest hwait hbounds
  refine ⟨toJob c, w.handOut (some c, k'), ?_, ?_, hfinds⟩
  · rw [World.reserveFrom, hreserve]
    exact if_pos hdecoded
  · obtain ⟨id', hclaimable, -⟩ := hfinds
    obtain ⟨-, h', hjob, hcan, -⟩ := openJob_eq_some.mp hclaimable.opened
    have hne : c.hash.queue ≠ "" := by
      rw [hqueue, ← (of_decide_eq_true hcan).1]
      exact hs.wf.queue_ne c.id h' hjob
    show (if c.hash.queue = "" then "default" else c.hash.queue) = q
    rw [if_neg hne]
    exact hqueue

omit hnow hs in
/-- What the search of a queue depends on is as it was. -/
theorem Same.bounds {a : ReserveArgs} {k k' : Keyspace} (hsame : Same a.now a.queue k k') {id : Nat} {h : JobHash}
    (hbounds : WithinBounds decodes ms a k id h) : WithinBounds decodes ms a k' id h := by
  have hpromoted := hsame.promoteAll ms ((k.delayed a.queue).zrangebyscore asText a.now promoteLimit)
  have hstream : ∀ l, (RedisQueue.promoteDue ms a k').stream (a.queue, l) =
      (RedisQueue.promoteDue ms a k).stream (a.queue, l) := by
    intro l
    rw [RedisQueue.promoteDue, hsame.delayed]
    exact hpromoted.stream l
  obtain ⟨hfifty, hreach, hfront, hdecoded⟩ := hbounds
  constructor
  · rwa [hsame.delayed]
  · rwa [hstream]
  · rwa [hstream, hsame.opened]
  · rwa [hsame.opened]

omit hnow hs in
theorem Same.claimable {k k' : Keyspace} (hsame : Same moment.seconds q k k') {id : Nat} {h : JobHash} :
    Claimable decodes moment.seconds k' q id h ↔ Claimable decodes moment.seconds k q id h := by
  constructor
  · intro ⟨hopen, hdue, hdecoded⟩
    exact ⟨hsame.opened ▸ hopen, hdue, hdecoded⟩
  · intro ⟨hopen, hdue, hdecoded⟩
    exact ⟨hsame.opened.symm ▸ hopen, hdue, hdecoded⟩

omit hnow hs in
theorem Same.best {k k' : Keyspace} (hsame : Same moment.seconds q k k') {id : Nat} {h : JobHash} :
    Best decodes moment.seconds k' q id h ↔ Best decodes moment.seconds k q id h := by
  simp only [Best, hsame.claimable]

omit hnow hs in
theorem Same.waiting {k k' : Keyspace} (hsame : Same moment.seconds q k k') {id : Nat} (h : k.Waiting q id) :
    k'.Waiting q id := by
  rcases h with hdelayed | ⟨l, hl, e, he, hdeliverable⟩
  · exact .inl (hsame.delayed.symm ▸ hdelayed)
  · exact .inr ⟨l, hsame.levels.symm ▸ hl, e, he, hsame.stream l ▸ hdeliverable⟩

omit hnow hs in
theorem Left.not_holds {k k' : Keyspace} (h : Left moment.seconds q k k') {q' : String}
    (hnone : ¬ HoldsJob decodes moment.seconds k q') : ¬ HoldsJob decodes moment.seconds k' q' := by
  rintro ⟨id, hash, hopen, hdue, hdecoded⟩
  exact hnone ⟨id, hash, h.opened q' id hash hopen, hdue, hdecoded⟩

/-- Queues that hold nothing are passed, and another is as it was. -/
theorem reserve_passes {before : List String} (hbefore : ∀ q' ∈ before, ¬ HoldsJob decodes moment.seconds w.keys q')
    (hq : q ∉ before) (after : List String) :
    ∃ w', w.reserve decodes ms moment timeout worker (before ++ after) = w'.reserve decodes ms moment timeout worker after ∧
      Sound moment.seconds w' ∧ Same moment.seconds q w.keys w'.keys := by
  induction before generalizing w with
  | nil => exact ⟨w, rfl, hs, .refl _ _ _⟩
  | cons q' rest ih =>
    rw [List.forall_mem_cons] at hbefore
    rw [List.mem_cons, not_or] at hq
    obtain ⟨w₁, hfrom, hs₁, hleft⟩ : ∃ w₁, w.reserveFrom decodes ms moment timeout worker q' = (none, w₁) ∧
        Sound moment.seconds w₁ ∧ Left moment.seconds q' w.keys w₁.keys := reserveFrom_nothing hnow hs hbefore.1
    obtain ⟨w', hrest, hs', hsame⟩ := ih hs₁ (fun q'' hq'' => hleft.not_holds (hbefore.2 q'' hq'')) hq.2
    refine ⟨w', ?_, hs', (hleft.others q hq.1).trans hsame⟩
    rw [List.cons_append, World.reserve, hfrom]
    exact hrest

end

/-! ### Every run -/

/-- A call that ends a claim meets only entries of its own job, and the job where its claim left it. -/
def inOrder (c : Call) (w : World) : Prop := addressesOwn c w ∧ settledEntry c w

instance (c : Call) (w : World) : Decidable (inOrder c w) := inferInstanceAs (Decidable (_ ∧ _))

/-- What a run in order keeps, for a reserve at `now`. -/
theorem inOrder_run {now : Int} (hnow : 0 ≤ now) {calls : List Call} (hr : machine.Admissible inOrder .empty calls)
    (hclock : ∀ t ∈ calls.filterMap Call.second, t ≤ now) :
    Sound now (machine.run .empty calls) ∧ Delivers (machine.run .empty calls).keys ∧
      ∀ q, Scored (machine.run .empty calls).keys q := by
  have hown : machine.Admissible addressesOwn .empty calls := hr.imp fun _ _ h => h.1
  refine ⟨sound_run hnow (hr.imp fun _ _ h => h.2) hclock, ?_, ?_⟩
  · exact (run_invariant (I := fun w => Wf w ∧ Delivers w.keys)
      (fun _ _ hm hi => ⟨hi.1.move hm, delivers_move hm hi.1 hi.2⟩)
      ⟨wf_empty, by intro id h hjob; cases hjob⟩ hown).2
  · intro q
    exact run_invariant (I := fun w => Scored w.keys q) (fun _ _ hm => scored_move hm) (by intro i hi; cases hi) hown

/-- Where some queue holds a job, there is a first. -/
theorem exists_first {p : String → Prop} {queues : List String} {q : String} (hq : q ∈ queues) (h : p q) :
    ∃ before q' after, queues = before ++ q' :: after ∧ (∀ q'' ∈ before, ¬ p q'') ∧ p q' := by
  induction queues with
  | nil => cases hq
  | cons q' rest ih =>
    by_cases hp : p q'
    · exact ⟨[], q', rest, rfl, by simp, hp⟩
    · rcases List.mem_cons.mp hq with rfl | hq
      · exact absurd h hp
      · obtain ⟨before, first, after, hsplit, hbefore, hfirst⟩ := ih hq
        refine ⟨q' :: before, first, after, by rw [hsplit, List.cons_append], ?_, hfirst⟩
        rw [List.forall_mem_cons]
        exact ⟨hp, hbefore⟩

/-- **`reserve` finds work when there is work**: after a run in order, a job of the first queue that holds one and of
its highest priority, if the script gets to such a job within its bounds; and nothing only if no queue holds one. -/
theorem reserve_finds (decodes : String → Bool) (calls : List Call) (hr : machine.Admissible inOrder .empty calls)
    (ms : Nat) (moment : Moment) (hnow : 0 ≤ moment.seconds)
    (hclock : ∀ t ∈ calls.filterMap Call.second, t ≤ moment.seconds) (queues : List String) (timeout : Int)
    (worker : String)
    (hbounds : ∀ before q after, queues = before ++ q :: after →
      (∀ q' ∈ before, ¬ HoldsJob decodes moment.seconds (machine.run .empty calls).keys q') →
      HoldsJob decodes moment.seconds (machine.run .empty calls).keys q →
      ∃ id h, Best decodes moment.seconds (machine.run .empty calls).keys q id h ∧
        WithinBounds decodes ms (reserveArgs moment q timeout worker) (machine.run .empty calls).keys id h) :
    Finds decodes moment.seconds (machine.run .empty calls).keys queues
      ((machine.run .empty calls).reserve decodes ms moment timeout worker queues).1 := by
  obtain ⟨hs, hdelivers, hscored⟩ := inOrder_run hnow hr hclock
  generalize machine.run .empty calls = w at *
  have hfirst : ∀ before q after, queues = before ++ q :: after → (∀ q' ∈ before, ¬ HoldsJob decodes moment.seconds w.keys q') →
      HoldsJob decodes moment.seconds w.keys q → ∃ j h, (w.reserve decodes ms moment timeout worker queues).1 = some j ∧
        j.queue = q ∧ Best decodes moment.seconds w.keys q j.id h := by
    intro before q after hsplit hbefore hholds
    obtain ⟨id, h, hbest, hwithin⟩ := hbounds before q after hsplit hbefore hholds
    have hwait : w.keys.Waiting q id := by
      obtain ⟨hfailed, h', hjob, hcan, -⟩ := openJob_eq_some.mp hbest.1.opened
      rw [← (of_decide_eq_true hcan).1]
      exact hdelivers id h' hjob hfailed
    obtain ⟨w', hpassed, hs', hsame⟩ : ∃ w', w.reserve decodes ms moment timeout worker (before ++ q :: after) =
        w'.reserve decodes ms moment timeout worker (q :: after) ∧ Sound moment.seconds w' ∧
          Same moment.seconds q w.keys w'.keys :=
      reserve_passes hnow hs hbefore (fun hmem => hbefore q hmem hholds) _
    have hscored' : Scored w'.keys q := by
      intro i hi
      rw [hsame.levels] at hi
      exact hscored q i hi
    obtain ⟨j, w'', hfrom, hqueue, h', hbest'⟩ := reserveFrom_best hnow hs' hscored' (hsame.best.mpr hbest)
      (hsame.waiting hwait) (hsame.bounds hwithin)
    refine ⟨j, h', ?_, hqueue, hsame.best.mp hbest'⟩
    rw [hsplit, hpassed, World.reserve, hfrom]
  refine ⟨hfirst, ?_⟩
  intro hnone q hq hholds
  obtain ⟨before, q', after, hsplit, hbefore, hholds'⟩ := exists_first hq hholds
  obtain ⟨j, -, hsome, -⟩ := hfirst before q' after hsplit hbefore hholds'
  rw [hnone] at hsome
  cases hsome

/-- A payload that decodes. -/
def isEmptyObject (text : String) : Bool := decide (text = "\x7b\x7d")

/-- Job 1 is claimed once too often and its worker dies; job 2 is ready; job 3 is delayed, of job 1's priority. -/
def mixedLevelRun : List Call :=
  [.push 1000 ⟨1, ""⟩ {name := "a", payload := "\x7b\x7d", priority := 5, maxAttempts := 1},
    .reserve 1000 ⟨1, ""⟩ "default" 1 "w", .push 2000 ⟨2, ""⟩ {name := "b", payload := "\x7b\x7d"},
    .push 2000 ⟨2, ""⟩ {name := "c", payload := "\x7b\x7d", priority := 5, delay := 2}]

theorem Claimable.le {decodes : String → Bool} {now : Int} {w : World} (hw : Wf w) {q : String} {id : Nat} {h : JobHash}
    (hclaimable : Claimable decodes now w.keys q id h) : id ∈ List.range (w.keys.seq + 1) := by
  obtain ⟨-, h', hjob, -⟩ := openJob_eq_some.mp hclaimable.opened
  rw [List.mem_range]
  exact Nat.lt_succ_of_le (hw.job_le id h' hjob)

/-- Job 3 is found behind the spent entry of job 1, and before job 2. -/
theorem mixedLevelRun_finds : machine.Admissible inOrder .empty mixedLevelRun ∧
    Finds isEmptyObject 5 (machine.run .empty mixedLevelRun).keys ["mail", "default"]
      ((machine.run .empty mixedLevelRun).reserve isEmptyObject 5000 ⟨5, ""⟩ 1 "v" ["mail", "default"]).1 := by
  refine ⟨by decide +kernel, ?_⟩
  apply reserve_finds isEmptyObject mixedLevelRun (by decide +kernel) 5000 ⟨5, ""⟩ (by decide) (by decide +kernel)
  have hw := wf_run mixedLevelRun
  have hmail : ∀ id ∈ List.range ((machine.run .empty mixedLevelRun).keys.seq + 1),
      (openJob 5 "mail" (machine.run .empty mixedLevelRun).keys id).isNone = true := by decide +kernel
  have hpriorities : ∀ id ∈ List.range ((machine.run .empty mixedLevelRun).keys.seq + 1),
      ∀ p ∈ (openJob 5 "default" (machine.run .empty mixedLevelRun).keys id).map (fun h => (h.priority, h.payload)),
        p.1 ≤ 5 ∧ p.2 = "\x7b\x7d" := by decide +kernel
  have hthird : (openJob 5 "default" (machine.run .empty mixedLevelRun).keys 3).map
      (fun h => (h.priority, h.availableAt, h.payload)) = some (5, 4, "\x7b\x7d") := by decide +kernel
  obtain ⟨h, hopen, hfields⟩ := Option.map_eq_some_iff.mp hthird
  simp only [Prod.mk.injEq] at hfields
  obtain ⟨hpriority, hdue, hpayload⟩ := hfields
  intro before q after hsplit _ hholds
  obtain ⟨id, h', hclaimable⟩ := hholds
  have hid := hclaimable.le hw
  have hq : q = "default" := by
    have hmem : q ∈ ["mail", "default"] := by
      rw [hsplit]
      simp
    rcases List.mem_cons.mp hmem with rfl | hmem
    · have hnone := hmail id hid
      rw [hclaimable.opened] at hnone
      cases hnone
    · exact List.mem_singleton.mp hmem
  subst hq
  refine ⟨3, h, ⟨⟨hopen, by rw [hdue]; decide, by rw [hpayload]; rfl⟩, ?_⟩, ?_, ?_, ?_, ?_⟩
  · intro id' h'' hother
    have hle := hpriorities id' (hother.le hw) (h''.priority, h''.payload) (by rw [hother.opened]; rfl)
    rw [hpriority]
    exact hle.1
  · intro _
    decide +kernel
  · rw [hpriority]
    decide +kernel
  · rw [hpriority]
    decide +kernel
  · intro id' h'' hother _ _
    obtain ⟨-, h₀, hjob, -⟩ := openJob_eq_some.mp hother
    have hle := hpriorities id' (List.mem_range.mpr (Nat.lt_succ_of_le (hw.job_le id' h₀ hjob)))
      (h''.priority, h''.payload) (by rw [show openJob 5 "default" _ id' = some h'' from hother]; rfl)
    exact decide_eq_true hle.2

/-- Five jobs of one attempt each, whose workers die; then a sixth job. -/
def fullLevelRun : List Call :=
  List.replicate 5 (.push 1000 ⟨1, ""⟩ {name := "a", payload := "\x7b\x7d", maxAttempts := 1}) ++
    List.replicate 5 (.reserve 1000 ⟨1, ""⟩ "default" 1 "w") ++
      [.push 5000 ⟨5, ""⟩ {name := "f", payload := "\x7b\x7d"}]

/-- The timeout a call works with, if it does. -/
def Call.timeout : Call → Option Int
  | .reserve _ _ _ timeout _ => some timeout
  | _ => none

/-- All workers use one timeout, and the call comes back without the sixth job. -/
theorem full_level_hides_job : (∀ t ∈ fullLevelRun.filterMap Call.timeout, t = 1) ∧
    ¬ Finds isEmptyObject 5 (machine.run .empty fullLevelRun).keys ["default"]
      ((machine.run .empty fullLevelRun).reserve isEmptyObject 5000 ⟨5, ""⟩ 1 "w" ["default"]).1 := by
  refine ⟨by decide +kernel, ?_⟩
  intro hfinds
  have hnone : ((machine.run .empty fullLevelRun).reserve isEmptyObject 5000 ⟨5, ""⟩ 1 "w" ["default"]).1.isNone = true := by
    decide +kernel
  have hsixth : (openJob 5 "default" (machine.run .empty fullLevelRun).keys 6).map
      (fun h => (h.availableAt, h.payload)) = some (5, "\x7b\x7d") := by decide +kernel
  obtain ⟨h, hopen, hfields⟩ := Option.map_eq_some_iff.mp hsixth
  rw [Prod.mk.injEq] at hfields
  apply hfinds.none_only (Option.isNone_iff_eq_none.mp hnone) "default" (by decide)
  exact ⟨6, h, hopen, hfields.1.le, by rw [hfields.2]; rfl⟩

end PyAppRunner.Queue.RedisQueue
