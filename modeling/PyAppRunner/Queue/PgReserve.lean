import PyAppRunner.Base.Rounds
import PyAppRunner.Queue.PgAtomic

/-! What `reserve` finds in a database that nobody else is using.

A call looks at the due rows of a queue in their order, five of them at a visit. A row that
is out of attempts is moved to the failed ones; one whose payload does not decode is claimed
first, and moved then; either way it is gone and has cost a round. So the call does what
`Rounds.pick` does over the due rows of its queues, and five rows of that kind hide
a job behind them: the call goes on to the next queue, or comes back without a job. -/
namespace PyAppRunner.Queue.PgQueue
open Sql Base

/-! ### The rows in their order -/

theorem before_total (a b : Nat × JobRow) : before a b ∨ before b a := by
  unfold before
  omega

theorem before_trans {a b d : Nat × JobRow} (h : before a b) (h' : before b d) : before a d := by
  unfold before at *
  omega

theorem before_antisymm {a b : Nat × JobRow} (h : before a b) (h' : before b a) : a.1 = b.1 := by
  unfold before at *
  omega

instance : Std.Total before := ⟨before_total⟩

instance : IsTrans (Nat × JobRow) before := ⟨fun _ _ _ => before_trans⟩

section Rows
variable {κ : Type} [DecidableEq κ] (c : κ)

/-- Nobody has a row. -/
def Still {ρ : Type} (t : Table κ ρ) : Prop := ∀ i, (t.slot i).held = none

/-- The rows of a queue that are due and held by nobody, in the order they are looked at. -/
def due (t : Table κ JobRow) (moment : Int) (queue : String) : List (Nat × JobRow) :=
  (t.rows c (claimable queue moment)).insertionSort before

/-- The row is a job that can be handed out: it has attempts left, and its payload decodes. -/
def takes (decodes : String → Bool) (x : Nat × JobRow) : Bool :=
  decide (x.2.attempts < x.2.maxAttempts) && decodes x.2.payload

variable {c} {t t' : Table κ JobRow} {moment : Int} {queue : String}

omit [DecidableEq κ] in
theorem Still.holdsNone (h : Still t) : t.HoldsNone c := by
  intro i v hheld
  rw [h i] at hheld
  cases hheld

theorem Still.taken (h : Still t) (i : Nat) : (t.slot i).taken c = false := by
  rw [Slot.taken, h i]

theorem Still.view (h : Still t) (i : Nat) : (t.slot i).view c = (t.slot i).committed := h.holdsNone.view i

theorem mem_due {x : Nat × JobRow} : x ∈ due c t moment queue ↔
    (t.slot x.1).view c = some x.2 ∧ claimable queue moment x.1 x.2 = true := by
  obtain ⟨i, r⟩ := x
  rw [due, List.mem_insertionSort, Table.mem_rows]

theorem queue_of_due {x : Nat × JobRow} (h : x ∈ due c t moment queue) : x.2.queue = queue := by
  have hclaimable := (mem_due.mp h).2
  simp only [claimable, Bool.and_eq_true, decide_eq_true_eq] at hclaimable
  exact hclaimable.1.1

/-- An id is of one row. -/
theorem due_inj {queue' : String} {x y : Nat × JobRow} (hx : x ∈ due c t moment queue) (hy : y ∈ due c t moment queue')
    (hid : x.1 = y.1) : x = y := by
  obtain ⟨i, r⟩ := x
  obtain ⟨j, r'⟩ := y
  obtain rfl : i = j := hid
  have hview := (mem_due.mp hx).1
  rw [(mem_due.mp hy).1] at hview
  cases hview
  rfl

theorem nodup_due : (due c t moment queue).Nodup := by
  rw [due, (List.perm_insertionSort before _).nodup_iff, Table.rows]
  apply List.nodup_range.filterMap
  intro i j x hi hj
  simp only [Option.mem_def, Option.bind_eq_some_iff, Option.ite_none_right_eq_some, Option.some.injEq] at hi hj
  obtain ⟨r, -, -, rfl⟩ := hi
  obtain ⟨r', -, -, heq⟩ := hj
  exact (congrArg Prod.fst heq).symm

/-- With nobody about, the candidate is the first of the due rows. -/
theorem candidate_eq (h : Still t) : t.candidate c (claimable queue moment) before = (due c t moment queue).head? := by
  rw [Table.candidate, List.filter_eq_self.mpr]
  · rfl
  · intro x _
    rw [h.taken]
    rfl

/-- Without one row, the rest stay in their order. -/
theorem due_remove (h : Still t) (h' : Still t') (hseq : t'.seq = t.seq) {id : Nat}
    (hgone : ∀ j, (t'.slot j).committed = if j = id then none else (t.slot j).committed) :
    due c t' moment queue = (due c t moment queue).filter fun x => decide (x.1 ≠ id) := by
  have hrows : t'.rows c (claimable queue moment) =
      (t.rows c (claimable queue moment)).filter fun x => decide (x.1 ≠ id) := by
    rw [Table.rows, Table.rows, Table.ids, hseq, ← Table.ids, List.filter_filterMap]
    apply List.filterMap_congr
    intro i _
    rw [h'.view, h.view, hgone]
    by_cases hi : i = id
    · subst hi
      rw [if_pos rfl, Option.bind_none]
      cases (t.slot i).committed with
      | none => rfl
      | some r => by_cases hp : claimable queue moment i r = true <;> simp [hp, Option.filter]
    · rw [if_neg hi]
      cases (t.slot i).committed with
      | none => rfl
      | some r => by_cases hp : claimable queue moment i r = true <;> simp [hp, hi, Option.filter]
  rw [due, hrows]
  apply @List.Perm.eq_of_pairwise _ before
  · intro a b ha hb hab hba
    have hid := before_antisymm hab hba
    rw [List.mem_insertionSort, List.mem_filter] at ha
    rw [List.mem_filter, mem_due] at hb
    obtain ⟨i, r⟩ := a
    obtain ⟨j, r'⟩ := b
    obtain rfl : i = j := hid
    have hview := (Table.mem_rows.mp ha.1).1
    rw [hb.1.1] at hview
    cases hview
    rfl
  · exact List.pairwise_insertionSort ..
  · exact (List.pairwise_insertionSort before _).filter _
  · exact (List.perm_insertionSort before _).trans ((List.perm_insertionSort before _).symm.filter _)

end Rows

/-! ### One row at a time -/

section Row
variable {κ : Type} [DecidableEq κ] {c : κ} {t t' : Table κ JobRow} {id : Nat} {r : JobRow} {v : Option JobRow}

/-- Since `t`, session `c` alone has written, and only the row `id`. -/
structure Written (c : κ) (t : Table κ JobRow) (id : Nat) (r : JobRow) (v : Option JobRow) (t' : Table κ JobRow) :
    Prop where
  holds : t'.Holds c id r v
  alone : ∀ i d v, (t'.slot i).held = some (d, v) → d = c
  same : Table.SameCommitted t t'
  seq : t'.seq = t.seq

theorem alone_modify (h : ∀ i d v, (t.slot i).held = some (d, v) → d = c) (p : Nat → JobRow → Bool)
    (f : JobRow → Option JobRow) : ∀ i d v, ((t.modify c p f).slot i).held = some (d, v) → d = c := by
  intro i d v hheld
  rw [Table.slot_modify] at hheld
  split at hheld
  · split at hheld
    · cases hheld
      rfl
    · exact h i d v hheld
  · exact h i d v hheld

theorem Still.write (h : Still t) (hrow : (t.slot id).committed = some r) {p : Nat → JobRow → Bool}
    (hp : ∀ j r', (t.slot j).view c = some r' → (p j r' = true ↔ j = id)) (f : JobRow → Option JobRow) :
    Written c t id r (f r) (t.modify c p f) where
  holds := h.holdsNone.modify hrow hp
  alone := alone_modify (fun i d v hheld => by rw [h i] at hheld; cases hheld) p f
  same := Table.sameCommitted_modify
  seq := rfl

theorem Still.lock (h : Still t) (hrow : (t.slot id).committed = some r) :
    Written c t id r (some r) (t.lock c fun i _ => i = id) :=
  h.write hrow (fun _ _ _ => decide_eq_true_iff) some

/-- A statement about the row under `id` is about this row. -/
theorem only_row {u : JobRow} (hview : (t.slot id).view c = some u) {g : JobRow → Bool} (hg : g u = true) :
    ∀ j r', (t.slot j).view c = some r' → ((decide (j = id) && g r') = true ↔ j = id) := by
  intro j r' hr'
  rw [Bool.and_eq_true, decide_eq_true_eq]
  constructor
  · exact And.left
  · rintro rfl
    rw [hview] at hr'
    cases hr'
    exact ⟨rfl, hg⟩

theorem Written.modify {u : JobRow} (h : Written c t id r (some u) t') {p : Nat → JobRow → Bool}
    (hp : ∀ j r', (t'.slot j).view c = some r' → (p j r' = true ↔ j = id)) (f : JobRow → Option JobRow) :
    Written c t id r (f u) (t'.modify c p f) where
  holds := h.holds.modify hp
  alone := alone_modify h.alone p f
  same := fun i => (Table.sameCommitted_modify i).trans (h.same i)
  seq := h.seq

theorem Written.taken (h : Written c t id r v t') (i : Nat) : (t'.slot i).taken c = false := by
  rw [← Bool.not_eq_true, Slot.taken_iff]
  rintro ⟨d, u, hheld, hne⟩
  exact hne (h.alone i d u hheld)

/-- Once it has committed, nobody has a row, and the row is what it wrote. -/
theorem Written.commit (h : Written c t id r v t') : Still (t'.commit c) ∧
    ∀ j, ((t'.commit c).slot j).committed = if j = id then v else (t.slot j).committed := by
  constructor
  · intro i
    cases hheld : ((t'.commit c).slot i).held with
    | none => rfl
    | some held =>
      obtain ⟨d, u⟩ := held
      exfalso
      have hold : (t'.slot i).held = some (d, u) := by
        change ((t'.slot i).commit c).held = some (d, u) at hheld
        unfold Slot.commit at hheld
        split at hheld
        · split at hheld
          · cases hheld
          · exact hheld
        · exact hheld
      obtain rfl := h.alone i d u hold
      exact Table.holdsNone_commit i u hheld
  · intro j
    rw [h.holds.committed_commit, h.same j]

end Row

/-! ### The steps of a round -/

section Round
variable {κ : Type} [DecidableEq κ] {decodes : String → Bool} {c : κ} {w v : World κ} {id : Nat}

/-- The client takes some steps, one after the other. -/
def Runs (decodes : String → Bool) (c : κ) (w v : World κ) : Prop :=
  ∃ n, (machine decodes).run w (List.replicate n (.step c)) = v

theorem Runs.refl : Runs decodes c w w := ⟨0, rfl⟩

theorem Runs.head {u : World κ} (hstep : w.exec decodes c = v) (h : Runs decodes c v u) : Runs decodes c w u := by
  obtain ⟨n, hn⟩ := h
  refine ⟨n + 1, ?_⟩
  rw [List.replicate_succ, ← hn, ← hstep]
  rfl

theorem Runs.trans {u : World κ} (h : Runs decodes c w v) (h' : Runs decodes c v u) : Runs decodes c w u := by
  obtain ⟨m, rfl⟩ := h
  obtain ⟨n, rfl⟩ := h'
  refine ⟨m + n, ?_⟩
  rw [List.replicate_add, Machine.run_append]

theorem goto_goto (pc pc' : Pc) : (w.goto c pc).goto c pc' = w.goto c pc' := by
  simp [World.goto, Function.update_idem]

theorem answer_goto (pc : Pc) (a : Answer) : (w.goto c pc).answer c a = w.answer c a := by
  rw [World.answer, goto_goto]
  rfl

theorem nextQueue_goto (pc : Pc) (a : Asking) : (w.goto c pc).nextQueue c a = w.nextQueue c a := by
  unfold World.nextQueue
  split
  · exact answer_goto pc .nothing
  · exact goto_goto pc _

theorem exec_round {a : Asking} {n : Nat} (h : a.rounds = n + 1) :
    (w.goto c (.round a)).exec decodes c = w.goto c (.candidate {a with rounds := n} w.now) := by
  rw [World.exec, client_goto]
  dsimp only
  rw [h]
  exact goto_goto ..

theorem exec_round_zero {a : Asking} (h : a.rounds = 0) :
    (w.goto c (.round a)).exec decodes c = w.nextQueue c a := by
  rw [World.exec, client_goto]
  dsimp only
  rw [h]
  exact nextQueue_goto ..

theorem exec_candidate (decodes : String → Bool) (h : Still w.jobs) (a : Asking) (moment : Int) :
    (w.goto c (.candidate a moment)).exec decodes c =
      match (due c w.jobs moment a.queue).head? with
      | none => w.nextQueue c a
      | some (id, r) =>
        {w with jobs := w.jobs.lock c fun i _ => i = id}.goto c
          (if r.maxAttempts ≤ r.attempts then .moveDelete (.exhausted a moment id) else .claim a moment id) := by
  rw [World.exec, client_goto]
  dsimp only
  rw [World.candidate, ← candidate_eq h]
  split
  · rename_i hnone
    rw [show (w.goto c (.candidate a moment)).jobs = w.jobs from rfl] at hnone
    rw [hnone]
    exact nextQueue_goto ..
  · rename_i id r hsome
    rw [show (w.goto c (.candidate a moment)).jobs = w.jobs from rfl] at hsome
    rw [hsome]
    dsimp only
    split
    · exact goto_goto (w := {w with jobs := w.jobs.lock c fun i _ => i = id}) ..
    · exact goto_goto (w := {w with jobs := w.jobs.lock c fun i _ => i = id}) ..

theorem not_blocked {t : Table κ JobRow} (h : ∀ i, (t.slot i).taken c = false) (p : Nat → JobRow → Bool) :
    t.blocked c p = false := by
  rw [← Bool.not_eq_true, Table.blocked_iff]
  rintro ⟨i, r, -, -, htaken⟩
  rw [h i] at htaken
  cases htaken

/-- `_move_to_failed`, from its `DELETE` to its commit, of a row that is there. -/
theorem runs_move (decodes : String → Bool) (why : Why) {a : Asking} (hmoved : ∀ w : World κ, w.moved c why = w.goto c (.round a)) {id : Nat}
    {u : JobRow} (hview : (w.jobs.slot id).view c = some u) (htaken : ∀ i, (w.jobs.slot i).taken c = false)
    (hwhere : ∀ j r', (w.jobs.slot j).view c = some r' → (w.moveWhere why j r' = true ↔ j = id)) :
    ∃ v : World κ, Runs decodes c (w.goto c (.moveDelete why)) (v.goto c (.round a)) ∧ v.now = w.now ∧ v.answers = w.answers ∧
      v.jobs = (w.jobs.modify c (w.moveWhere why) fun _ => none).commit c := by
  have hsame : (w.goto c (.moveDelete why)).moveWhere why = w.moveWhere why := by cases why <;> rfl
  have hrow : (id, u) ∈ w.jobs.rows c (w.moveWhere why) := Table.mem_rows.mpr ⟨hview, (hwhere id u hview).mpr rfl⟩
  obtain ⟨found, rest, hrows⟩ := List.exists_cons_of_ne_nil (List.ne_nil_of_mem hrow)
  let deleted : World κ := {w with jobs := w.jobs.modify c (w.moveWhere why) fun _ => none}
  let added : World κ :=
    {deleted with failed := (w.failed.insert c (failedRow (fitError why.error) w.now found.2)).2}
  have hdelete : (w.goto c (.moveDelete why)).exec decodes c = deleted.goto c (.moveClock why found.2) := by
    rw [World.exec, client_goto]
    dsimp only
    rw [World.moveDelete, hsame, show (w.goto c (.moveDelete why)).jobs = w.jobs from rfl, not_blocked htaken, hrows]
    exact goto_goto (w := deleted) ..
  have hclock : (deleted.goto c (.moveClock why found.2)).exec decodes c =
      deleted.goto c (.moveInsert why found.2 w.now) := by
    rw [World.exec, client_goto]
    exact goto_goto ..
  have hinsert : (deleted.goto c (.moveInsert why found.2 w.now)).exec decodes c =
      added.goto c (.moveCommit why (some found.2)) := by
    rw [World.exec, client_goto]
    exact goto_goto (w := added) ..
  have hcommit : (added.goto c (.moveCommit why (some found.2))).exec decodes c =
      ({added with ended := w.ended ++ World.endedBy why (some found.2)}.commitAll c).goto c (.round a) := by
    rw [World.exec, client_goto]
    dsimp only
    rw [World.moveCommit, hmoved]
    exact goto_goto (w := {added with ended := w.ended ++ World.endedBy why (some found.2)}.commitAll c) ..
  exact ⟨_, .head hdelete (.head hclock (.head hinsert (.head hcommit .refl))), rfl, rfl, rfl⟩

/-- The claim, from its `UPDATE` to its commit, of a row that was locked for it. -/
theorem runs_claim (decodes : String → Bool) {t : Table κ JobRow} {a : Asking} {moment : Int} {id : Nat} {r : JobRow}
    (h : Written c t id r (some r) w.jobs) (hlapsed : lapsed moment r = true) :
    ∃ v : World κ, Runs decodes c (w.goto c (.claim a moment id))
        (if decodes r.payload then v.answer c (.job w.claims.length)
          else v.goto c (.moveDelete (.undecodable a w.claims.length))) ∧
      v.now = w.now ∧ v.answers = w.answers ∧ v.claims = w.claims ++ [claimOf a moment id r] ∧ v.jobs.seq = t.seq ∧
      Still v.jobs ∧ ∀ j, (v.jobs.slot j).committed = if j = id then some (claimRow a moment r) else (t.slot j).committed := by
  let p : Nat → JobRow → Bool := fun i r => decide (i = id) && lapsed moment r
  have honly := only_row (t := w.jobs) h.holds.view hlapsed
  have hrows : w.jobs.rows c p ≠ [] := by
    have hmem : (id, r) ∈ w.jobs.rows c p := Table.mem_rows.mpr ⟨h.holds.view, by simp [p, hlapsed]⟩
    exact List.ne_nil_of_mem hmem
  have hwritten := h.modify honly fun r => some (claimRow a moment r)
  let claimed : World κ := {w with jobs := w.jobs.modify c p fun r => some (claimRow a moment r)}
  let made : World κ := {claimed.commitAll c with claims := w.claims ++ [claimOf a moment id r]}
  have hclaim : (w.goto c (.claim a moment id)).exec decodes c = claimed.goto c (.read a moment id) := by
    rw [World.exec, client_goto]
    dsimp only
    rw [World.claim, show (w.goto c (.claim a moment id)).jobs = w.jobs from rfl, not_blocked h.taken, if_neg hrows]
    exact goto_goto (w := claimed) ..
  have hread : (claimed.goto c (.read a moment id)).exec decodes c =
      claimed.goto c (.claimCommit a moment id (some (claimRow a moment r))) := by
    rw [World.exec, client_goto]
    dsimp only
    rw [show ((claimed.goto c (.read a moment id)).jobs.slot id).view c = some (claimRow a moment r) from hwritten.holds.view]
    exact goto_goto ..
  have hcommit : (claimed.goto c (.claimCommit a moment id (some (claimRow a moment r)))).exec decodes c =
      if decodes r.payload then made.answer c (.job w.claims.length)
        else made.goto c (.moveDelete (.undecodable a w.claims.length)) := by
    rw [World.exec, client_goto]
    dsimp only
    rw [World.claimCommit, show (claimRow a moment r).payload = r.payload from rfl]
    split
    · exact answer_goto (w := made) ..
    · exact goto_goto (w := made) ..
  refine ⟨made, .head hclaim (.head hread (.head hcommit .refl)), rfl, rfl, rfl, h.seq, ?_⟩
  exact hwritten.commit

/-- What the steps of a round leave as it was: the clock, the answers, and every row but one. -/
structure Cleared (w v : World κ) (id : Nat) : Prop where
  now : v.now = w.now
  answers : v.answers = w.answers
  still : Still v.jobs
  seq : v.jobs.seq = w.jobs.seq
  gone : ∀ j, (v.jobs.slot j).committed = if j = id then none else (w.jobs.slot j).committed

theorem round_none (h : Still w.jobs) {a : Asking} {n : Nat} (hrounds : a.rounds = n + 1)
    (hdue : due c w.jobs w.now a.queue = []) : Runs decodes c (w.goto c (.round a)) (w.nextQueue c a) := by
  have hcandidate := exec_candidate (c := c) decodes h {a with rounds := n} w.now
  rw [hdue] at hcandidate
  exact .head (exec_round hrounds) (.head hcandidate .refl)

/-- What a due row is: committed, and not held. -/
theorem due_head (h : Still w.jobs) {queue : String} {id : Nat} {r : JobRow} {rest : List (Nat × JobRow)}
    (hdue : due c w.jobs w.now queue = (id, r) :: rest) :
    (w.jobs.slot id).committed = some r ∧ lapsed w.now r = true := by
  have hfirst : (id, r) ∈ due c w.jobs w.now queue := by
    rw [hdue]
    exact List.mem_cons_self
  obtain ⟨hview, hclaimable⟩ := mem_due.mp hfirst
  rw [h.view] at hview
  simp only [claimable, Bool.and_eq_true] at hclaimable
  exact ⟨hview, hclaimable.2⟩

/-- A round on a row that is out of attempts. -/
theorem round_exhausted (h : Still w.jobs) {a : Asking} {n : Nat} (hrounds : a.rounds = n + 1) {id : Nat} {r : JobRow}
    {rest : List (Nat × JobRow)} (hdue : due c w.jobs w.now a.queue = (id, r) :: rest) (hspent : r.maxAttempts ≤ r.attempts) :
    ∃ v : World κ, Runs decodes c (w.goto c (.round a)) (v.goto c (.round {a with rounds := n})) ∧ Cleared w v id := by
  obtain ⟨hrow, hlapsed⟩ := due_head h hdue
  have hlock : Written c w.jobs id r (some r) (w.jobs.lock c fun i _ => i = id) := h.lock hrow
  have hcandidate := exec_candidate (c := c) decodes h {a with rounds := n} w.now
  rw [hdue, List.head?_cons] at hcandidate
  dsimp only at hcandidate
  rw [if_pos hspent] at hcandidate
  have hguard : (Guard.exhausted w.now).holds r = true := by simp [Guard.holds, hspent, hlapsed]
  have honly := only_row hlock.holds.view hguard
  have hcommit := (hlock.modify honly fun _ => none).commit
  obtain ⟨v, hruns, hnow, hanswers, hjobs⟩ := runs_move
    (w := {w with jobs := w.jobs.lock c fun i _ => i = id}) decodes (.exhausted {a with rounds := n} w.now id)
    (fun _ => rfl) hlock.holds.view hlock.taken honly
  refine ⟨v, .head (exec_round hrounds) (.head hcandidate hruns), hnow, hanswers, ?_, ?_, ?_⟩
  · rw [hjobs]
    exact hcommit.1
  · rw [hjobs]
    rfl
  · rw [hjobs]
    exact hcommit.2

/-- A round on a row with attempts left: its job is handed out, or goes on to be failed. -/
theorem round_claimed (decodes : String → Bool) (h : Still w.jobs) {a : Asking} {n : Nat} (hrounds : a.rounds = n + 1) {id : Nat} {r : JobRow}
    {rest : List (Nat × JobRow)} (hdue : due c w.jobs w.now a.queue = (id, r) :: rest) (hleft : r.attempts < r.maxAttempts) :
    ∃ v : World κ, Runs decodes c (w.goto c (.round a))
        (if decodes r.payload then v.answer c (.job w.claims.length)
          else v.goto c (.moveDelete (.undecodable {a with rounds := n} w.claims.length))) ∧
      v.now = w.now ∧ v.answers = w.answers ∧ v.claims = w.claims ++ [claimOf a w.now id r] ∧
      v.jobs.seq = w.jobs.seq ∧ Still v.jobs ∧
      ∀ j, (v.jobs.slot j).committed = if j = id then some (claimRow a w.now r) else (w.jobs.slot j).committed := by
  obtain ⟨hrow, hlapsed⟩ := due_head h hdue
  have hlock : Written c w.jobs id r (some r) (w.jobs.lock c fun i _ => i = id) := h.lock hrow
  have hcandidate := exec_candidate (c := c) decodes h {a with rounds := n} w.now
  rw [hdue, List.head?_cons] at hcandidate
  dsimp only at hcandidate
  rw [if_neg (Nat.not_le_of_lt hleft)] at hcandidate
  obtain ⟨v, hruns, hrest⟩ := runs_claim
    (w := {w with jobs := w.jobs.lock c fun i _ => i = id}) (a := {a with rounds := n}) decodes hlock hlapsed
  exact ⟨v, .head (exec_round hrounds) (.head hcandidate hruns), hrest⟩

/-- A round on a row whose payload does not decode. -/
theorem round_undecodable (h : Still w.jobs) {a : Asking} {n : Nat} (hrounds : a.rounds = n + 1) {id : Nat} {r : JobRow}
    {rest : List (Nat × JobRow)} (hdue : due c w.jobs w.now a.queue = (id, r) :: rest) (hleft : r.attempts < r.maxAttempts)
    (hpayload : decodes r.payload = false) :
    ∃ v : World κ, Runs decodes c (w.goto c (.round a)) (v.goto c (.round {a with rounds := n})) ∧ Cleared w v id := by
  obtain ⟨u, hruns, hnow, hanswers, hclaims, hseq, hstill, hcommitted⟩ :=
    round_claimed decodes h hrounds hdue hleft
  rw [hpayload] at hruns
  have hrow : (u.jobs.slot id).committed = some (claimRow a w.now r) := by rw [hcommitted, if_pos rfl]
  have hview := (hstill.view (c := c) id).trans hrow
  -- The claim that was just made owns the row.
  have hclaim : u.claims[w.claims.length]? = some (claimOf a w.now id r) := by rw [hclaims, List.getElem?_concat_length]
  have hwhere : u.moveWhere (.undecodable {a with rounds := n} w.claims.length) = fun i r' =>
      decide (i = id) && (Guard.owned (reservedName a.worker) (r.attempts + 1)).holds r' := by
    funext i r'
    show u.ownedBy w.claims.length i r' = _
    rw [World.ownedBy, hclaim]
    rfl
  have honly := only_row (g := (Guard.owned (reservedName a.worker) (r.attempts + 1)).holds) hview
    (by simp [Guard.holds, claimRow])
  have hcommit := (hstill.write hrow honly fun _ => none).commit
  obtain ⟨v, hmoved, hnow', hanswers', hjobs⟩ := runs_move (w := u) decodes
    (.undecodable {a with rounds := n} w.claims.length) (fun _ => rfl) hview hstill.taken (by rw [hwhere]; exact honly)
  rw [hwhere] at hjobs
  refine ⟨v, hruns.trans hmoved, hnow'.trans hnow, hanswers'.trans hanswers, ?_, ?_, ?_⟩
  · rw [hjobs]
    exact hcommit.1
  · rw [hjobs]
    exact hseq
  · intro j
    rw [hjobs, hcommit.2, hcommitted]
    by_cases hj : j = id <;> simp [hj]

/-- A due row that cannot be handed out is gone after its round. -/
theorem round_bad (h : Still w.jobs) {a : Asking} {n : Nat} (hrounds : a.rounds = n + 1) {r : JobRow}
    {rest : List (Nat × JobRow)} (hdue : due c w.jobs w.now a.queue = (id, r) :: rest)
    (hbad : takes decodes (id, r) = false) :
    ∃ v : World κ, Runs decodes c (w.goto c (.round a)) (v.goto c (.round {a with rounds := n})) ∧ Cleared w v id := by
  by_cases hleft : r.attempts < r.maxAttempts
  · have hpayload : decodes r.payload = false := by simpa [takes, hleft] using hbad
    exact round_undecodable h hrounds hdue hleft hpayload
  · exact round_exhausted h hrounds hdue (Nat.le_of_not_lt hleft)

theorem Cleared.due (h : Cleared w v id) (hw : Still w.jobs) (queue : String) :
    due c v.jobs v.now queue = (due c w.jobs w.now queue).filter fun x => decide (x.1 ≠ id) := by
  rw [h.now]
  exact due_remove hw h.still h.seq h.gone

/-- The first due row of a queue is gone; the other queues are as they were. -/
theorem Cleared.due_eq {queue : String} {r : JobRow} {rest : List (Nat × JobRow)} (h : Cleared w v id) (hw : Still w.jobs)
    (hdue : PgQueue.due c w.jobs w.now queue = (id, r) :: rest) (q : String) :
    PgQueue.due c v.jobs v.now q = if q = queue then rest else PgQueue.due c w.jobs w.now q := by
  have hfirst : (id, r) ∈ PgQueue.due c w.jobs w.now queue := by
    rw [hdue]
    exact List.mem_cons_self
  rw [h.due hw]
  split
  · rename_i hq
    subst hq
    have hnodup : (PgQueue.due c w.jobs w.now q).Nodup := nodup_due
    rw [hdue, List.nodup_cons] at hnodup
    rw [hdue, List.filter_cons_of_neg (by simp), List.filter_eq_self]
    intro x hx
    rw [decide_eq_true_eq]
    intro hid
    have hmem : x ∈ PgQueue.due c w.jobs w.now q := by
      rw [hdue]
      exact List.mem_cons_of_mem _ hx
    rw [due_inj hmem hfirst hid] at hx
    exact hnodup.1 hx
  · rename_i hq
    rw [List.filter_eq_self]
    intro x hx
    rw [decide_eq_true_eq]
    intro hid
    have hqueue := queue_of_due hx
    rw [due_inj hx hfirst hid, queue_of_due hfirst] at hqueue
    exact hq hqueue.symm

/-! ### The call -/

/-- From here the call ends with this job, or without one. -/
def Ends (decodes : String → Bool) (c : κ) (w : World κ) (answers : List (κ × Answer)) : Option (Job Unit) → Prop
  | none => ∃ v : World κ, Runs decodes c w (v.answer c .nothing) ∧ v.answers = answers
  | some j => ∃ (v : World κ) (m : Nat) (claim : Claim),
      Runs decodes c w (v.answer c (.job m)) ∧ v.answers = answers ∧ v.claims[m]? = some claim ∧ claim.job = j

theorem Ends.head {answers : List (κ × Answer)} {result : Option (Job Unit)} (h : Runs decodes c w v)
    (hends : Ends decodes c v answers result) : Ends decodes c w answers result := by
  cases result with
  | none =>
    obtain ⟨u, hruns, hanswers⟩ := hends
    exact ⟨u, h.trans hruns, hanswers⟩
  | some j =>
    obtain ⟨u, m, claim, hruns, hrest⟩ := hends
    exact ⟨u, m, claim, h.trans hruns, hrest⟩

/-- The job that is handed out for a row. -/
def handed (timeout : Int) (worker : String) (moment : Int) (x : Nat × JobRow) : Job Unit :=
  toJob x.1 (claimRow ⟨"", [], 0, timeout, worker⟩ moment x.2) (reservedName worker)

/-- A visit to a queue finds a job among as many due rows as it has rounds. -/
theorem visit_found (h : Still w.jobs) {a : Asking} {x : Nat × JobRow}
    (hfind : ((due c w.jobs w.now a.queue).take a.rounds).find? (takes decodes) = some x) :
    Ends decodes c (w.goto c (.round a)) w.answers (some (handed a.timeout a.worker w.now x)) := by
  obtain ⟨n, hn⟩ : ∃ n, n = a.rounds := ⟨_, rfl⟩
  induction n generalizing w a with
  | zero =>
    rw [← hn, List.take_zero] at hfind
    cases hfind
  | succ n ih =>
    rw [← hn] at hfind
    cases hdue : due c w.jobs w.now a.queue with
    | nil =>
      rw [hdue, List.take_nil] at hfind
      cases hfind
    | cons y rest =>
      obtain ⟨id, r⟩ := y
      rw [hdue, List.take_succ_cons, List.find?_cons] at hfind
      cases htakes : takes decodes (id, r) with
      | true =>
        rw [htakes] at hfind
        cases hfind
        simp only [takes, Bool.and_eq_true, decide_eq_true_eq] at htakes
        obtain ⟨v, hruns, -, hanswers, hclaims, -⟩ := round_claimed decodes h hn.symm hdue htakes.1
        rw [if_pos htakes.2] at hruns
        exact ⟨v, w.claims.length, claimOf a w.now id r, hruns, hanswers, by rw [hclaims, List.getElem?_concat_length], rfl⟩
      | false =>
        rw [htakes] at hfind
        obtain ⟨v, hruns, hcleared⟩ := round_bad h hn.symm hdue htakes
        apply Ends.head hruns
        have hends := ih (w := v) (a := {a with rounds := n}) hcleared.still (by
          rw [hcleared.due_eq h hdue, if_pos rfl]
          exact hfind) rfl
        rw [hcleared.now, hcleared.answers] at hends
        exact hends

/-- A visit without a job among these rows leaves the rows behind them. -/
theorem visit_nothing (h : Still w.jobs) {a : Asking}
    (hfind : ((due c w.jobs w.now a.queue).take a.rounds).find? (takes decodes) = none) :
    ∃ v : World κ, Runs decodes c (w.goto c (.round a)) (v.nextQueue c a) ∧ v.now = w.now ∧ v.answers = w.answers ∧
      Still v.jobs ∧ due c v.jobs v.now =
        Function.update (due c w.jobs w.now) a.queue ((due c w.jobs w.now a.queue).drop a.rounds) := by
  obtain ⟨n, hn⟩ : ∃ n, n = a.rounds := ⟨_, rfl⟩
  induction n generalizing w a with
  | zero =>
    refine ⟨w, .head (exec_round_zero hn.symm) .refl, rfl, rfl, h, ?_⟩
    rw [← hn, List.drop_zero, Function.update_eq_self]
  | succ n ih =>
    rw [← hn] at hfind ⊢
    cases hdue : due c w.jobs w.now a.queue with
    | nil =>
      refine ⟨w, round_none h hn.symm hdue, rfl, rfl, h, ?_⟩
      rw [List.drop_nil, ← hdue, Function.update_eq_self]
    | cons y rest =>
      obtain ⟨id, r⟩ := y
      rw [hdue, List.take_succ_cons, List.find?_cons] at hfind
      cases htakes : takes decodes (id, r) with
      | true =>
        rw [htakes] at hfind
        cases hfind
      | false =>
        rw [htakes] at hfind
        obtain ⟨v, hruns, hcleared⟩ := round_bad h hn.symm hdue htakes
        have hrest : due c v.jobs v.now a.queue = rest := by rw [hcleared.due_eq h hdue, if_pos rfl]
        obtain ⟨u, hruns', hnow, hanswers, hstill, hline⟩ := ih (w := v) (a := {a with rounds := n}) hcleared.still
          (by rw [hrest]; exact hfind) rfl
        refine ⟨u, hruns.trans hruns', hnow.trans hcleared.now, hanswers.trans hcleared.answers, hstill, ?_⟩
        rw [hline]
        dsimp only
        rw [hrest, List.drop_succ_cons]
        funext q
        rw [Function.update_apply, Function.update_apply, hcleared.due_eq h hdue]
        split <;> rfl

/-- **The call does what `Rounds.pick` does**, over the due rows of the queues it still has to visit. -/
theorem nextQueue_ends (h : Still w.jobs) (a : Asking) : Ends decodes c (w.nextQueue c a) w.answers
    ((Rounds.pick (takes decodes) claimRounds (due c w.jobs w.now) a.rest).map (handed a.timeout a.worker w.now)) := by
  obtain ⟨queues, hqueues⟩ : ∃ queues, queues = a.rest := ⟨_, rfl⟩
  induction queues generalizing w a with
  | nil =>
    unfold World.nextQueue
    rw [← hqueues]
    exact ⟨w, .refl, rfl⟩
  | cons queue rest ih =>
    unfold World.nextQueue
    rw [← hqueues]
    dsimp only
    unfold Rounds.pick
    cases hfind : ((due c w.jobs w.now queue).take claimRounds).find? (takes decodes) with
    | some x => exact visit_found (a := {a with queue := queue, rest := rest, rounds := claimRounds}) h hfind
    | none =>
      obtain ⟨v, hruns, hnow, hanswers, hstill, hline⟩ :=
        visit_nothing (a := {a with queue := queue, rest := rest, rounds := claimRounds}) h hfind
      apply Ends.head hruns
      have hends := ih (w := v) hstill {a with queue := queue, rest := rest, rounds := claimRounds} rfl
      rw [hline, hnow, hanswers] at hends
      exact hends

/-- Called in `w`, while nobody else does anything and the clock stands still, the call comes to an end and
answers with this job, or without one. -/
def Returns (decodes : String → Bool) (c : κ) (w : World κ) (op : Op) (result : Option (Job Unit)) : Prop :=
  ∃ enough, ∀ n, enough ≤ n → ∃ (v : World κ) (a : Answer),
    (machine decodes).run w (.call c op :: List.replicate n (.step c)) = v ∧ (v.client c).pc = .idle ∧
      v.answers = w.answers ++ [(c, a)] ∧
      match result with
      | none => a = .nothing
      | some j => ∃ m claim, a = .job m ∧ v.claims[m]? = some claim ∧ claim.job = j

/-- A client without a call stays as it is. -/
theorem run_idle (h : (w.client c).pc = .idle) (n : Nat) :
    (machine decodes).run w (List.replicate n (.step c)) = w := by
  induction n with
  | zero => rfl
  | succ n ih =>
    have hstep : w.exec decodes c = w := by rw [World.exec, h]
    rw [List.replicate_succ]
    show (machine decodes).run (w.exec decodes c) _ = w
    rw [hstep, ih]

theorem client_answer (a : Answer) : ((w.answer c a).client c).pc = .idle := by
  show ((w.goto c .idle).client c).pc = .idle
  rw [client_goto]

/-- Once the answer is there, further steps change nothing. -/
theorem runs_answer {u : World κ} {a : Answer} (h : Runs decodes c w (u.answer c a)) :
    ∃ enough, ∀ n, enough ≤ n → (machine decodes).run w (List.replicate n (.step c)) = u.answer c a := by
  obtain ⟨m, hm⟩ := h
  refine ⟨m, ?_⟩
  intro n hle
  obtain ⟨k, rfl⟩ := Nat.exists_eq_add_of_le hle
  rw [List.replicate_add, Machine.run_append, hm, run_idle (client_answer a)]

theorem Ends.returns {op : Op} {result : Option (Job Unit)}
    (h : Ends decodes c (w.call c op) w.answers result) : Returns decodes c w op result := by
  cases result with
  | none =>
    obtain ⟨u, hruns, hanswers⟩ := h
    obtain ⟨enough, hrun⟩ := runs_answer hruns
    refine ⟨enough, ?_⟩
    intro n hle
    exact ⟨_, .nothing, hrun n hle, client_answer _, by rw [← hanswers]; rfl, rfl⟩
  | some j =>
    obtain ⟨u, m, claim, hruns, hanswers, hclaim, hjob⟩ := h
    obtain ⟨enough, hrun⟩ := runs_answer hruns
    refine ⟨enough, ?_⟩
    intro n hle
    exact ⟨_, .job m, hrun n hle, client_answer _, by rw [← hanswers]; rfl, m, claim, rfl, hclaim, hjob⟩

/-- **`reserve` refines `Rounds.pick`.** -/
theorem reserve_returns (decodes : String → Bool) (h : Still w.jobs) (hclient : w.client c = ⟨.autocommit, .idle⟩)
    (queues : List String) (timeout : Int) (worker : String) : Returns decodes c w (.reserve queues timeout worker)
      ((Rounds.pick (takes decodes) claimRounds (due c w.jobs w.now) queues).map (handed timeout worker w.now)) := by
  apply Ends.returns
  have hcall : w.call c (.reserve queues timeout worker) = w.goto c (.round ⟨"", queues, 0, timeout, worker⟩) := by
    rw [World.call, hclient]
    rfl
  rw [hcall]
  apply Ends.head (.head (exec_round_zero rfl) .refl)
  exact nextQueue_ends h ⟨"", queues, 0, timeout, worker⟩

/-- **`reserve` hands out the first claimable job of the first listed queue that has one**, and comes back without
a job if none has, if and only if the rows in front of that job are fewer than the rounds its queue gets. -/
theorem reserve_first_iff (decodes : String → Bool) (c : κ) (w : World κ) (h : Still w.jobs)
    (hclient : w.client c = ⟨.autocommit, .idle⟩) (queues : List String) (timeout : Int) (worker : String) :
    ∃ result, Returns decodes c w (.reserve queues timeout worker) result ∧
      (result = (Rounds.first (takes decodes) (due c w.jobs w.now) queues).map (handed timeout worker w.now) ↔
        Rounds.InRounds claimRounds (Rounds.ahead (takes decodes) (due c w.jobs w.now)) queues) := by
  refine ⟨_, reserve_returns decodes h hclient queues timeout worker, ?_⟩
  have hline : ∀ q q' x, x ∈ due c w.jobs w.now q → x ∈ due c w.jobs w.now q' → q = q' :=
    fun q q' x hq hq' => (queue_of_due hq).symm.trans (queue_of_due hq')
  rw [← Rounds.pick_eq_first_iff hline]
  constructor
  · intro heq
    cases hpick : Rounds.pick (takes decodes) claimRounds (due c w.jobs w.now) queues with
    | none =>
      rw [hpick, Option.map_none] at heq
      exact (Option.map_eq_none_iff.mp heq.symm).symm
    | some x =>
      rw [hpick, Option.map_some] at heq
      obtain ⟨y, hfirst, hhanded⟩ := Option.map_eq_some_iff.mp heq.symm
      obtain ⟨q, hx⟩ := Rounds.mem_of_pick hpick
      obtain ⟨q', hy⟩ := Rounds.mem_of_first hfirst
      rw [hfirst, due_inj hx hy (congrArg Job.id hhanded).symm]
  · intro heq
    rw [heq]

end Round

/-! ### Tables with a few rows -/

/-- The rows, under the ids from 1 on. -/
def tableOf (rows : List JobRow) : Table Unit JobRow := rows.foldl (fun t r => (t.insert () r).2.commit ()) .empty

theorem still_tableOf (rows : List JobRow) : Still (tableOf rows) := by
  refine List.foldlRecOn (motive := fun t : Table Unit JobRow => Still t) rows _ (fun _ => rfl) ?_
  intro t ht r _ i
  show (((t.insert () r).2.slot i).commit ()).held = none
  by_cases hi : i = t.seq + 1
  · subst hi
    simp [Table.insert, Slot.write, Slot.commit]
  · simp [Table.insert, hi, Slot.commit, ht i]

/-- The one client there is has no call under way, in a table with these rows. -/
def restingWorld (now : Int) (rows : List JobRow) : World Unit := {World.start Unit with now := now, jobs := tableOf rows}

/-- A job that was pushed at the start and attempted this often. -/
def attemptedRow (name : String) (attempts : Nat) : JobRow :=
  {pushRow 0 {name := name, payload := "\x7b\x7d"} with attempts := attempts}

/-- One row out of attempts is in front of the job, and there are five rounds. -/
theorem spent_row_passed :
    ∃ result, Returns (fun _ => true) () (restingWorld second [attemptedRow "a" 3, attemptedRow "b" 0])
        (.reserve ["mail", "default"] 300 "w") result ∧ result.map (fun j => (j.id, j.name, j.queue)) = some (2, "b", "default") := by
  obtain ⟨result, hreturns, hiff⟩ := reserve_first_iff (fun _ => true) ()
    (restingWorld second [attemptedRow "a" 3, attemptedRow "b" 0]) (still_tableOf _) rfl ["mail", "default"] 300 "w"
  refine ⟨result, hreturns, ?_⟩
  rw [hiff.mpr]
  · decide +kernel
  · intro q m hfind hm
    have hq : some q = some "default" := by
      rw [← hfind]
      decide +kernel
    cases hq
    have hone : some m = some 1 := by
      rw [← hm]
      decide +kernel
    cases hone
    refine ⟨1, rfl, by decide, ?_⟩
    intro j hj q' m' hq' hm' _
    obtain rfl : j = 0 := by omega
    cases hq'
    have hnone : some m' = none := by
      rw [← hm']
      decide +kernel
    cases hnone

/-- Five jobs that were released on their last attempt, and one behind them. -/
def spentRows : List JobRow :=
  [attemptedRow "a" 3, attemptedRow "b" 3, attemptedRow "c" 3, attemptedRow "d" 3, attemptedRow "e" 3, attemptedRow "f" 0]

/-- The job can be claimed, and the call comes back without it. -/
theorem spent_rows_hide_job : Still (restingWorld second spentRows).jobs ∧
    (Rounds.first (takes fun _ => true) (due () (restingWorld second spentRows).jobs second) ["default"]).map Prod.fst =
      some 6 ∧
    Returns (fun _ => true) () (restingWorld second spentRows) (.reserve ["default"] 300 "w") none := by
  refine ⟨still_tableOf _, by decide +kernel, ?_⟩
  have hreturns := reserve_returns (c := ()) (w := restingWorld second spentRows) (fun _ => true) (still_tableOf _) rfl
    ["default"] 300 "w"
  have hnone : Rounds.pick (takes fun _ => true) claimRounds
      (due () (restingWorld second spentRows).jobs (restingWorld second spentRows).now) ["default"] = none := by
    decide +kernel
  rwa [hnone] at hreturns

end PyAppRunner.Queue.PgQueue
