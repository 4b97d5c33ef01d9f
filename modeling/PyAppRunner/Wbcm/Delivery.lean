import PyAppRunner.Wbcm.Manager

/-! Which messages the manager works.

Once a message was worked the position is an id, and every read goes on where the last
one ended. While it is still `$`, each read starts at whatever is the end of the stream
by then, so what is appended between two reads is skipped. Without such an append the
messages worked are, in order and once each, those appended since the first read
began, as far as the manager has come. -/
namespace PyAppRunner.Wbcm
open Base Redis

variable {α : Type} {work : Work α} {w : World α}

/-- The id that reading has come to: `$` stands for the end of the stream as the first
read found it. -/
def World.reached (w : World α) (began : EntryId) : EntryId :=
  match w.position with
  | .latest => began
  | .at id => id

/-- The messages not worked yet. -/
def World.unread (w : World α) (began : EntryId) : List (Entry α) := w.stream.after (w.reached began)

/-- What the read under way has to do with the messages not worked yet. -/
def InPhase (phase : Phase α) (position : Position) (s : XStream α) (unread : List (Entry α)) : Prop :=
  match phase with
  | .idle => position = .latest → unread = []
  | .waiting since => since ≤ s.lastId ∧ s.after since = [] ∧ unread = []
  | .replied batch => batch ≠ [] ∧ ∃ rest, unread = batch ++ rest

/-- All that was appended since the first read began was worked or can still be read. -/
structure Following (began : EntryId) (w : World α) : Prop where
  first : w.began = some began
  inStream : began ≤ w.stream.lastId
  reached : w.reached began ≤ w.stream.lastId
  all : w.stream.after began = w.worked ++ w.unread began
  phase : InPhase w.phase w.position w.stream (w.unread began)

/-- A manager that has not read yet, or one that has lost nothing. -/
def Ordered (w : World α) : Prop :=
  w = .start w.stream ∨ ∃ began, Following began w

/-- The step loses a message: one is appended between two reads while the position is
`$`, or a read from `$` fails with messages in it. -/
def misses : Input α → World α → Bool
  | .append _ values, w => w.began.isSome && w.position = .latest && w.phase.isIdle && !values.isEmpty
  | .fail, w => w.position = .latest && w.phase.isReplied
  | _, _ => false

/-! ### Each step -/

theorem exists_appended (ms : Nat) (values : List α) (s : XStream α) :
    ∃ new, (new = [] ↔ values = []) ∧ s.lastId ≤ (values.foldl (fun s v => s.xadd ms v) s).lastId ∧
      ∀ id ≤ s.lastId, (values.foldl (fun s v => s.xadd ms v) s).after id = s.after id ++ new := by
  induction values generalizing s with
  | nil => exact ⟨[], by simp, le_refl _, by simp⟩
  | cons v rest ih =>
    obtain ⟨new, -, hle, hafter⟩ := ih (s.xadd ms v)
    have hgrow : s.lastId ≤ (s.xadd ms v).lastId := (s.lastId_lt_nextId ms).le
    refine ⟨⟨s.nextId ms, v⟩ :: new, by simp, hgrow.trans hle, ?_⟩
    intro id hid
    rw [List.foldl_cons, hafter id (hid.trans hgrow), XStream.after_xadd hid]
    simp

/-- The read moves on, and the stream may have grown. -/
theorem Following.of_grown {began : EntryId} (h : Following began w) {s : XStream α} {new : List (Entry α)}
    {phase : Phase α} (hle : w.stream.lastId ≤ s.lastId)
    (hafter : ∀ id ≤ w.stream.lastId, s.after id = w.stream.after id ++ new)
    (hphase : InPhase phase w.position s (w.unread began ++ new)) :
    Following began {w with stream := s, phase := phase} := by
  have hunread : s.after (w.reached began) = w.unread began ++ new := hafter _ h.reached
  refine ⟨h.first, h.inStream.trans hle, h.reached.trans hle, ?_, ?_⟩
  · show s.after began = w.worked ++ s.after (w.reached began)
    rw [hafter began h.inStream, h.all, hunread, List.append_assoc]
  · show InPhase phase w.position s (s.after (w.reached began))
    rw [hunread]
    exact hphase

theorem Following.of_phase {began : EntryId} (h : Following began w) {phase : Phase α}
    (hphase : InPhase phase w.position w.stream (w.unread began)) : Following began {w with phase := phase} := by
  rw [← List.append_nil (w.unread began)] at hphase
  exact h.of_grown (le_refl _) (by simp) hphase

/-- A read returns no more than fits in one reply. -/
theorem inPhase_replied {unread : List (Entry α)} (h : unread ≠ []) (position : Position) (s : XStream α) :
    InPhase (.replied (unread.take readCount)) position s unread := by
  refine ⟨?_, unread.drop readCount, (List.take_append_drop ..).symm⟩
  intro hnil
  rcases List.take_eq_nil_iff.mp hnil with hcount | hunread
  · cases hcount
  · exact h hunread

theorem following_append {began : EntryId} (h : Following began w) {ms : Nat} {values : List α}
    (hkept : misses (.append ms values) w = false) : Following began (append ms values w) := by
  obtain ⟨new, hnew, hle, hafter⟩ := exists_appended ms values w.stream
  obtain ⟨stream, position, phase, worked, first⟩ := w
  have hphase := h.phase
  cases phase with
  | idle =>
    refine h.of_grown hle hafter (?_ : InPhase .idle _ _ _)
    intro hlatest
    have hfirst : first = some began := h.first
    replace hlatest : position = .latest := hlatest
    have hnone : values = [] := by simpa [misses, hfirst, hlatest, Phase.isIdle] using hkept
    rw [hphase hlatest, hnew.mpr hnone]
    rfl
  | waiting since =>
    obtain ⟨hsince, hnone, hempty⟩ := hphase
    have hserved := hafter since hsince
    rw [hnone, List.nil_append] at hserved
    simp only [append, hserved]
    split
    · rename_i hnothing
      have hnil : new = [] := by simpa using hnothing
      refine h.of_grown hle hafter (?_ : InPhase (.waiting since) _ _ _)
      exact ⟨hsince.trans hle, hserved.trans hnil, by rw [hempty, hnil]; rfl⟩
    · rename_i hsome
      refine h.of_grown hle hafter (?_ : InPhase (.replied _) _ _ _)
      rw [hempty, List.nil_append]
      exact inPhase_replied (by simpa using hsome) _ _
  | replied batch =>
    obtain ⟨hne, rest, hrest⟩ := hphase
    refine h.of_grown hle hafter (?_ : InPhase (.replied batch) _ _ _)
    exact ⟨hne, rest ++ new, by rw [hrest, List.append_assoc]⟩

theorem following_read {began : EntryId} (h : Following began w) (hidle : w.phase = .idle) :
    Following began (readStreamData w) := by
  have hbegan : (w.began <|> some w.stream.lastId) = w.began := by rw [h.first]; rfl
  have hphase := h.phase
  rw [hidle] at hphase
  unfold readStreamData
  rw [hbegan]
  split
  · rename_i hlatest
    refine h.of_phase (?_ : InPhase (.waiting w.stream.lastId) _ _ _)
    exact ⟨le_refl _, w.stream.after_lastId, hphase hlatest⟩
  · rename_i id hid
    have hreached : w.reached began = id := by simp [World.reached, hid]
    have hunread : w.unread began = w.stream.after id := by rw [World.unread, hreached]
    split
    · rename_i hnone
      have hnil : w.stream.after id = [] := by simpa using hnone
      refine h.of_phase (?_ : InPhase (.waiting id) _ _ _)
      exact ⟨hreached ▸ h.reached, hnil, hunread.trans hnil⟩
    · rename_i hsome
      refine h.of_phase ?_
      rw [hunread]
      exact inPhase_replied (by simpa using hsome) _ _

/-- The first read begins at the end of the stream. -/
theorem following_first_read (s : XStream α) : Following s.lastId (readStreamData (.start s)) := by
  have hnone : s.after s.lastId = [] := s.after_lastId
  exact ⟨rfl, le_refl _, le_refl _, by simp [readStreamData, World.unread, World.reached, World.start],
    le_refl _, hnone, hnone⟩

/-- What is worked is what comes next in the stream, one message at a time. -/
theorem processMessages_spec (work : Work α) (n : Nat) {began : EntryId} {batch rest : List (Entry α)}
    (hunread : w.unread began = batch ++ rest) (hreached : w.reached began ≤ w.stream.lastId) (hne : batch ≠ []) :
    ∃ id, (processMessages work batch (n, w)).2 =
        {w with worked := w.worked ++ batch, position := .at id} ∧
      w.stream.after id = rest ∧ id ≤ w.stream.lastId := by
  induction batch generalizing w n with
  | nil => exact absurd rfl hne
  | cons e batch ih =>
    have hnext : w.stream.after e.id = batch ++ rest := XStream.after_head hunread
    have hin : e ∈ w.stream.entries := by
      have he : e ∈ w.unread began := by simp [hunread]
      exact (List.mem_filter.mp he).1
    have hle : e.id ≤ w.stream.lastId := w.stream.bounded e hin
    unfold processMessages
    cases batch with
    | nil => exact ⟨e.id, rfl, hnext, hle⟩
    | cons e' batch =>
      obtain ⟨id, hstate, hafter, hid⟩ := ih (w := {w with worked := w.worked ++ [e], position := .at e.id})
        (counted work e n) hnext hle (by simp)
      refine ⟨id, hstate.trans ?_, hafter, hid⟩
      simp

theorem following_process {began : EntryId} (h : Following began w) {batch : List (Entry α)}
    (hreplied : w.phase = .replied batch) :
    Following began {(processMessages work batch (0, w)).2 with phase := .idle} := by
  have hphase := h.phase
  rw [hreplied] at hphase
  obtain ⟨hne, rest, hrest⟩ := hphase
  obtain ⟨id, hstate, hafter, hid⟩ := processMessages_spec work 0 hrest h.reached hne
  rw [hstate]
  refine ⟨h.first, h.inStream, hid, ?_, ?_⟩
  · show w.stream.after began = (w.worked ++ batch) ++ w.stream.after id
    rw [h.all, hrest, hafter, List.append_assoc]
  · intro hlatest
    cases hlatest

/-! ### Whole runs -/

theorem step_following {began : EntryId} (i : Input α) (h : Following began w) (hkept : misses i w = false) :
    Following began (step work i w) := by
  have hphase := h.phase
  cases i with
  | read =>
    simp only [step]
    split
    · rename_i hidle
      exact following_read h hidle
    · exact h
  | timeout =>
    simp only [step]
    split
    · rename_i since hwaiting
      rw [hwaiting] at hphase
      exact h.of_phase (fun _ => hphase.2.2 : InPhase .idle _ _ _)
    · exact h
  | fail =>
    refine h.of_phase (?_ : InPhase .idle _ _ _)
    intro hlatest
    cases hph : w.phase with
    | idle =>
      rw [hph] at hphase
      exact hphase hlatest
    | waiting since =>
      rw [hph] at hphase
      exact hphase.2.2
    | replied batch => simp [misses, hlatest, hph, Phase.isReplied] at hkept
  | process =>
    simp only [step]
    split
    · rename_i batch hreplied
      exact following_process h hreplied
    · exact h
  | append ms values => exact following_append h hkept

theorem step_ordered (i : Input α) (w : World α) (hkept : misses i w = false) (h : Ordered w) :
    Ordered ((machine work).step i w) := by
  rcases h with hstart | ⟨began, h⟩
  · rw [hstart]
    cases i with
    | read => exact .inr ⟨_, following_first_read _⟩
    | timeout => exact .inl rfl
    | fail => exact .inl rfl
    | process => exact .inl rfl
    | append ms values => exact .inl rfl
  · exact .inr ⟨began, step_following i h hkept⟩

/-! ### The rest of the stream -/

/-- A tick that gets what there is: a read and its processing. -/
def tick : List (Input α) := [.read, .process]

/-- What was read is worked, then `n` ticks. -/
def catchUp (n : Nat) : List (Input α) := .process :: (List.replicate n tick).flatten

/-- A read waits if there is nothing to read, and else gets what fits in one reply. -/
theorem read_spec (work : Work α) {began : EntryId} (h : Following began w) (hfree : w.phase.isReplied = false) :
    (step work .read w).stream = w.stream ∧ (step work .read w).position = w.position ∧
    ((∃ since, (step work .read w).phase = .waiting since) ∧ w.unread began = [] ∨
      (step work .read w).phase = .replied ((w.unread began).take readCount) ∧ w.unread began ≠ []) := by
  have hphase := h.phase
  cases hph : w.phase with
  | idle =>
    rw [hph] at hphase
    simp only [step, hph, readStreamData]
    split
    · rename_i hlatest
      exact ⟨rfl, rfl, .inl ⟨⟨_, rfl⟩, hphase hlatest⟩⟩
    · rename_i id hid
      have hunread : w.unread began = w.stream.after id := by simp [World.unread, World.reached, hid]
      rw [hunread]
      split
      · rename_i hnone
        exact ⟨rfl, rfl, .inl ⟨⟨_, rfl⟩, by simpa using hnone⟩⟩
      · rename_i hsome
        exact ⟨rfl, rfl, .inr ⟨rfl, by simpa using hsome⟩⟩
  | waiting since =>
    rw [hph] at hphase
    simp only [step, hph]
    exact ⟨trivial, trivial, .inl ⟨⟨since, rfl⟩, hphase.2.2⟩⟩
  | replied batch => simp [hph, Phase.isReplied] at hfree

/-- Processing works what was read and leaves the rest. -/
theorem process_spec (work : Work α) {began : EntryId} (h : Following began w) :
    (step work .process w).phase.isReplied = false ∧ (step work .process w).stream = w.stream ∧
    (∀ batch rest, w.phase = .replied batch → w.unread began = batch ++ rest →
      (step work .process w).unread began = rest) ∧
    (w.phase.isReplied = false → step work .process w = w) := by
  have hphase := h.phase
  cases hph : w.phase with
  | idle => simp [step, hph, Phase.isReplied]
  | waiting since => simp [step, hph, Phase.isReplied]
  | replied batch =>
    rw [hph] at hphase
    obtain ⟨hne, rest, hrest⟩ := hphase
    obtain ⟨id, hstate, hafter, -⟩ := processMessages_spec work 0 hrest h.reached hne
    simp only [step, hph, hstate]
    refine ⟨rfl, trivial, ?_, by simp [Phase.isReplied]⟩
    intro batch' rest' hbatch hrest'
    cases hbatch
    have hsame : rest = rest' := List.append_cancel_left (hrest.symm.trans hrest')
    exact hafter.trans hsame

/-- A tick works what fits in one reply. -/
theorem tick_spec (work : Work α) {began : EntryId} (h : Following began w) (hfree : w.phase.isReplied = false) :
    Following began ((machine work).run w tick) ∧ ((machine work).run w tick).phase.isReplied = false ∧
    ((machine work).run w tick).stream = w.stream ∧
    ((machine work).run w tick).unread began = (w.unread began).drop readCount := by
  obtain ⟨hstream, hposition, hphase⟩ := read_spec work h hfree
  have hread : Following began (step work .read w) := step_following .read h rfl
  have hunread : (step work .read w).unread began = w.unread began := by
    simp only [World.unread, World.reached, hstream, hposition]
  obtain ⟨hfree', hstream', hworked, hkept⟩ := process_spec work hread
  refine ⟨step_following .process hread rfl, hfree', hstream'.trans hstream, ?_⟩
  show (step work .process (step work .read w)).unread began = _
  rcases hphase with ⟨⟨since, hwaiting⟩, hnone⟩ | ⟨hreplied, -⟩
  · rw [hkept (by simp [hwaiting, Phase.isReplied]), hunread, hnone]
    rfl
  · exact hworked _ _ hreplied (hunread.trans (List.take_append_drop ..).symm)

theorem ticks_spec (work : Work α) {began : EntryId} (n : Nat) (h : Following began w)
    (hfree : w.phase.isReplied = false) :
    Following began ((machine work).run w (List.replicate n tick).flatten) ∧
    ((machine work).run w (List.replicate n tick).flatten).stream = w.stream ∧
    ((machine work).run w (List.replicate n tick).flatten).unread began = (w.unread began).drop (readCount * n) := by
  induction n generalizing w with
  | zero => exact ⟨h, rfl, by simp [Machine.run]⟩
  | succ n ih =>
    obtain ⟨htick, hfree', hstream, hunread⟩ := tick_spec work h hfree
    obtain ⟨hrest, hstream', hunread'⟩ := ih htick hfree'
    rw [List.replicate_succ, List.flatten_cons, Machine.run_append]
    refine ⟨hrest, hstream'.trans hstream, ?_⟩
    rw [hunread', hunread, List.drop_drop, Nat.mul_succ, Nat.add_comm]

theorem catchUp_spec (work : Work α) {began : EntryId} (h : Following began w) {n : Nat}
    (hn : (w.unread began).length ≤ readCount * n) :
    ((machine work).run w (catchUp n)).worked = w.stream.after began := by
  obtain ⟨hfree, hstream, hworked, hkept⟩ := process_spec work h
  have hfirst : Following began (step work .process w) := step_following .process h rfl
  have hfewer : ((step work .process w).unread began).length ≤ (w.unread began).length := by
    cases hrep : w.phase.isReplied with
    | false => rw [hkept hrep]
    | true =>
      have hphase := h.phase
      cases hph : w.phase with
      | idle => simp [hph, Phase.isReplied] at hrep
      | waiting since => simp [hph, Phase.isReplied] at hrep
      | replied batch =>
        rw [hph] at hphase
        obtain ⟨-, rest, hrest⟩ := hphase
        rw [hworked batch rest hph hrest, hrest, List.length_append]
        exact Nat.le_add_left _ _
  obtain ⟨hrest, hstream', hunread⟩ := ticks_spec work n hfirst hfree
  have hall := hrest.all
  rw [hunread, List.drop_eq_nil_of_le (hfewer.trans hn), List.append_nil, hstream', hstream] at hall
  exact hall.symm

/-- **Nothing is skipped or worked twice unless it comes between two reads from `$`.** In
every run in which, while the position is still `$`, nothing is appended between two
reads and no read fails with messages in it, what was worked is, in stream order and
once each, the first of the messages appended since the first read began, whatever
`work` makes of them; and the manager has worked them all once it has had a tick for
each five hundred of them. -/
theorem worked_in_stream_order (work : Work α) (stream : XStream α) (inputs : List (Input α))
    (hkept : (machine work).Admissible (fun i w => misses i w = false) (.start stream) inputs) :
    ∀ began, ((machine work).run (.start stream) inputs).began = some began →
      let w := (machine work).run (.start stream) inputs
      w.worked <+: w.stream.after began ∧
      ∀ n, (w.stream.after began).length ≤ w.worked.length + readCount * n →
        ((machine work).run w (catchUp n)).worked = w.stream.after began := by
  intro began hbegan
  have hordered := Machine.invariant step_ordered (.inl rfl) hkept
  rcases hordered with hstart | ⟨began', h⟩
  · rw [hstart] at hbegan
    cases hbegan
  · rw [h.first] at hbegan
    cases hbegan
    refine ⟨⟨_, h.all.symm⟩, ?_⟩
    intro n hn
    rw [h.all, List.length_append] at hn
    exact catchUp_spec work h (by omega)

/-- Messages with a text, of which an empty one makes `work` raise. -/
def workTexts : Work String := fun text => if text = "" then .error "no service" else .ok true

/-- The first read gets a message that makes `work` raise, and another that came with it; the
next read gets what was appended meanwhile. -/
def orderlyRun : List (Input String) :=
  [.append 1 ["old"], .read, .timeout, .read, .append 2 ["", "b"], .append 3 ["c"], .process, .read, .process]

theorem orderlyRun_worked :
    ((machine workTexts).run (.start .empty) orderlyRun).began = some ⟨1, 0⟩ ∧
    ((machine workTexts).run (.start .empty) orderlyRun).worked.map Entry.value <+:
      (((machine workTexts).run (.start .empty) orderlyRun).stream.after ⟨1, 0⟩).map Entry.value ∧
    ((machine workTexts).run (.start .empty) orderlyRun).worked.map Entry.value = ["", "b", "c"] := by
  have hbegan : ((machine workTexts).run (.start .empty) orderlyRun).began = some ⟨1, 0⟩ := rfl
  have hall := worked_in_stream_order workTexts .empty orderlyRun (by decide) ⟨1, 0⟩ hbegan
  exact ⟨hbegan, hall.1.map _, by decide⟩

/-- The first read times out, a message is appended before the second, and the second gets
the next message only. -/
def skippingRun : List (Input String) :=
  [.read, .timeout, .append 1 ["lost"], .read, .append 2 ["next"], .process, .read, .timeout]

theorem message_between_reads_skipped :
    ((machine workTexts).run (.start .empty) skippingRun).began = some .zero ∧
    (((machine workTexts).run (.start .empty) skippingRun).stream.after .zero).map Entry.value = ["lost", "next"] ∧
    ((machine workTexts).run (.start .empty) skippingRun).worked.map Entry.value = ["next"] ∧
    ¬ ((machine workTexts).run (.start .empty) skippingRun).worked.map Entry.value <+:
      (((machine workTexts).run (.start .empty) skippingRun).stream.after .zero).map Entry.value := by
  refine ⟨rfl, ?_, ?_, ?_⟩ <;> decide

end PyAppRunner.Wbcm
