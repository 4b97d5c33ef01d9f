import PyAppRunner.Base.Base64

/-! The decoder that skips: `base64.b64decode` without `validate`.

A character outside the alphabet is passed over, and so is a `=` where no group of four
can end. A group that ends in enough of them ends the text. So there is one way only to be
refused, and `isSome_a2b_iff` says when it is: no `=` ends a group, and the last group is
not full. -/
namespace PyAppRunner.Base.Lenient

/-! ### The decoder -/

/-- Where in a group of four the text is, the bits of its last character that no byte has
had yet, and the `=` after that. -/
structure Quad where
  pos : Nat
  left : Nat
  pads : Nat

def start : Quad := ⟨0, 0, 0⟩

/-- Six bits more. -/
def feed (x : Nat) (q : Quad) : Option UInt8 × Quad :=
  match q.pos with
  | 0 => (none, ⟨1, x, 0⟩)
  | 1 => (some (joined q.left x 16 4), ⟨2, x % 16, 0⟩)
  | 2 => (some (joined q.left x 4 16), ⟨3, x % 4, 0⟩)
  | _ => (some (joined q.left x 1 64), start)

/-- `binascii.a2b_base64`; `none` is `binascii.Error`. -/
def a2b : Quad → List Char → Option Bytes
  | q, [] => if q.pos = 0 then some [] else none
  | q, c :: rest =>
    if c = '=' then
      if 2 ≤ q.pos then
        if 4 ≤ q.pos + (q.pads + 1) then some [] else a2b {q with pads := q.pads + 1} rest
      else a2b q rest
    else match sextet c with
      | none => a2b q rest
      | some x => (a2b (feed x q).2 rest).map ((feed x q).1.toList ++ ·)

/-! ### What is refused -/

/-- The characters that are of the alphabet. -/
def data (s : List Char) : Nat := s.countP fun c => (sextet c).isSome

/-- A `=` stands before the next character of the alphabet. -/
def PadNext (s : List Char) : Prop := ∃ mid post, s = mid ++ '=' :: post ∧ data mid = 0

/-- After `n` characters: a `=` ends a group of three. -/
def EndsThree (n : Nat) (s : List Char) : Prop := ∃ pre post, s = pre ++ '=' :: post ∧ (n + data pre) % 4 = 3

/-- After `n` characters: two `=` end a group of two. -/
def EndsTwo (n : Nat) (s : List Char) : Prop :=
  ∃ pre post, s = pre ++ '=' :: post ∧ (n + data pre) % 4 = 2 ∧ PadNext post

/-- The groups are full, or one of them is ended. -/
def Padded (s : List Char) : Prop := data s % 4 = 0 ∨ EndsThree 0 s ∨ EndsTwo 0 s

theorem sextet_pad : sextet '=' = none := by decide

@[simp] theorem data_nil : data [] = 0 := rfl

theorem data_cons (c : Char) (s : List Char) : data (c :: s) = data s + if (sextet c).isSome then 1 else 0 :=
  List.countP_cons

theorem split_cons {P : List Char → List Char → Prop} (c : Char) (s : List Char) :
    (∃ pre post, c :: s = pre ++ '=' :: post ∧ P pre post) ↔
      c = '=' ∧ P [] s ∨ ∃ pre post, s = pre ++ '=' :: post ∧ P (c :: pre) post := by
  constructor
  · intro ⟨pre, post, heq, hp⟩
    cases pre with
    | nil =>
      cases heq
      exact .inl ⟨rfl, hp⟩
    | cons d pre =>
      cases heq
      exact .inr ⟨pre, post, rfl, hp⟩
  · intro h
    obtain ⟨rfl, hp⟩ | ⟨pre, post, rfl, hp⟩ := h
    · exact ⟨[], s, rfl, hp⟩
    · exact ⟨c :: pre, post, rfl, hp⟩

theorem padNext_cons (c : Char) (s : List Char) :
    PadNext (c :: s) ↔ c = '=' ∨ sextet c = none ∧ PadNext s := by
  unfold PadNext
  rw [split_cons (P := fun mid _ => data mid = 0)]
  cases hc : sextet c with
  | none => simp [data_cons, hc]
  | some x => simp [data_cons, hc]

/-- One character more is counted before or after. -/
theorem add_data_cons (n : Nat) (c : Char) (pre : List Char) :
    n + data (c :: pre) = n + (if (sextet c).isSome then 1 else 0) + data pre := by
  rw [data_cons]
  omega

theorem endsThree_cons (n : Nat) (c : Char) (s : List Char) : EndsThree n (c :: s) ↔
    c = '=' ∧ n % 4 = 3 ∨ EndsThree (n + if (sextet c).isSome then 1 else 0) s := by
  unfold EndsThree
  rw [split_cons (P := fun pre _ => (n + data pre) % 4 = 3)]
  simp only [add_data_cons, data_nil, Nat.add_zero]

theorem endsTwo_cons (n : Nat) (c : Char) (s : List Char) : EndsTwo n (c :: s) ↔
    (c = '=' ∧ n % 4 = 2 ∧ PadNext s) ∨ EndsTwo (n + if (sextet c).isSome then 1 else 0) s := by
  unfold EndsTwo
  rw [split_cons (P := fun pre post => (n + data pre) % 4 = 2 ∧ PadNext post)]
  simp only [add_data_cons, data_nil, Nat.add_zero]

/-- Only what is left of the last group counts. -/
theorem ends_mod (n : Nat) (s : List Char) :
    (EndsThree (n % 4) s ↔ EndsThree n s) ∧ (EndsTwo (n % 4) s ↔ EndsTwo n s) := by
  unfold EndsThree EndsTwo
  simp only [Nat.mod_add_mod, and_self]

theorem feed_pos (x : Nat) {q : Quad} (h : q.pos < 4) : (feed x q).2.pos = (q.pos + 1) % 4 ∧ (feed x q).2.pads = 0 := by
  obtain ⟨pos, left, pads⟩ := q
  dsimp only at h
  match pos, h with
  | 0, _ => exact ⟨rfl, rfl⟩
  | 1, _ => exact ⟨rfl, rfl⟩
  | 2, _ => exact ⟨rfl, rfl⟩
  | 3, _ => simp [feed, start]

/-- A text is refused where its last group is not full and none is ended. -/
theorem isSome_a2b {q : Quad} (s : List Char) (hpos : q.pos < 4) (hpads : q.pads = 0 ∨ q.pads = 1 ∧ q.pos = 2) :
    (a2b q s).isSome = true ↔ (q.pos + data s) % 4 = 0 ∨ EndsThree q.pos s ∨ EndsTwo q.pos s ∨
      q.pads = 1 ∧ PadNext s := by
  -- Along the text, for every state of the group that is being filled.
  induction s generalizing q with
  | nil =>
    have hthree : ¬ EndsThree q.pos [] := by simp [EndsThree]
    have htwo : ¬ EndsTwo q.pos [] := by simp [EndsTwo]
    have hnext : ¬ PadNext [] := by simp [PadNext]
    by_cases hzero : q.pos = 0
    · simp [a2b, data, hzero]
    · have hmod : q.pos % 4 ≠ 0 := by omega
      simp [a2b, data, hzero, hthree, htwo, hnext, hmod]
  | cons c rest ih =>
    rw [endsThree_cons, endsTwo_cons, padNext_cons, data_cons]
    by_cases hc : c = '='
    · subst hc
      have hpad := sextet_pad
      rw [a2b, if_pos rfl]
      simp only [hpad, Option.isSome_none, Bool.false_eq_true, if_false, Nat.add_zero, true_and, true_or, and_true]
      -- A `=` counts only where two digits of the group are there, and may then end the text.
      by_cases htwo : 2 ≤ q.pos
      · rw [if_pos htwo]
        by_cases hstop : 4 ≤ q.pos + (q.pads + 1)
        · rw [if_pos hstop]
          have : q.pos % 4 = 3 ∨ q.pads = 1 := by omega
          simp only [Option.isSome_some, true_iff]
          tauto
        · rw [if_neg hstop]
          have hq : q.pos = 2 ∧ q.pads = 0 := by omega
          rw [ih (q := {q with pads := q.pads + 1}) hpos (.inr ⟨by simp [hq.2], hq.1⟩)]
          simp only [hq]
          simp
          tauto
      · rw [if_neg htwo, ih hpos hpads]
        have hthree : ¬ q.pos % 4 = 3 := by omega
        have htwo' : ¬ q.pos % 4 = 2 := by omega
        have hone : ¬ q.pads = 1 := by omega
        simp [hthree, htwo', hone]
    · rw [a2b, if_neg hc]
      cases hx : sextet c with
      -- Any other character is skipped.
      | none =>
        dsimp only
        rw [ih hpos hpads]
        simp [hc]
      | some x =>
        have hfed := feed_pos x hpos
        dsimp only
        rw [Option.isSome_map, ih (q := (feed x q).2) (by omega) (.inl hfed.2), hfed.1, hfed.2, (ends_mod _ _).1,
          (ends_mod _ _).2, Nat.mod_add_mod]
        simp [hc, Nat.add_assoc, Nat.add_comm 1]

theorem isSome_a2b_iff (s : List Char) : (a2b start s).isSome = true ↔ Padded s := by
  rw [isSome_a2b s (by decide) (.inl rfl)]
  simp [start, Padded]

end PyAppRunner.Base.Lenient
