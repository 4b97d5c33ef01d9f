import PyAppRunner.Requests.BodyLog

/-! What `shrink_json` leaves alone.

Its rule is about length: a string over the limit is cut, a list over the limit is capped. But a string
goes to the base64 summary first, whatever its length, and what looks like base64 there is any text whose
characters are letters, digits, `+`, `/` or `=`, blanks apart, if their number is a multiple of four:
`"name"` and a commit hash do. Of a small value only such strings are changed. -/
namespace PyAppRunner.Requests
open Base Base.Json Base.Text

/-- A string that is summarized and not cut. -/
def LooksBase64 (s : List Char) : Prop :=
  let compact := s.filter fun c => !isSpace c
  compact ≠ [] ∧ compact.length % 4 = 0 ∧ ∀ c ∈ compact, isBase64 c = true

/-- The three tests as the code makes them. -/
theorem looks_iff {s : List Char} : LooksBase64 s ↔
    (!(s.filter fun c => !isSpace c).isEmpty && (s.filter fun c => !isSpace c).length % 4 = 0 &&
      (s.filter fun c => !isSpace c).all isBase64) = true := by
  simp only [LooksBase64, Bool.and_eq_true, Bool.not_eq_true', List.isEmpty_eq_false_iff, decide_eq_true_eq,
    List.all_eq_true, and_assoc]

/-- A summary starts with a character that no base64 text has. -/
theorem summarize_looking {s : List Char} (h : LooksBase64 s) (hardCap : Int) :
    ∃ rest, summarizeMaybeBase64 s hardCap = '<' :: rest := by
  unfold summarizeMaybeBase64
  rw [if_pos (looks_iff.mp h)]
  exact ⟨_, rfl⟩

theorem summarize_other {s : List Char} (h : ¬ LooksBase64 s) (hardCap : Int) :
    summarizeMaybeBase64 s hardCap = truncateMiddle s hardCap := by
  unfold summarizeMaybeBase64
  rw [if_neg (mt looks_iff.mpr h)]

/-- A string within the limit is kept exactly if it does not look like base64. -/
theorem summarize_eq_self_iff {s : List Char} {hardCap : Int} (hs : (s.length : Int) ≤ hardCap) :
    summarizeMaybeBase64 s hardCap = s ↔ ¬ LooksBase64 s := by
  constructor
  · intro hsame hlooks
    obtain ⟨rest, hrest⟩ := summarize_looking hlooks hardCap
    rw [hsame] at hrest
    have hbracket : isBase64 '<' = true :=
      hlooks.2.2 '<' (List.mem_filter.mpr ⟨hrest ▸ List.mem_cons_self, by decide⟩)
    exact absurd hbracket (by decide)
  · intro hnot
    rw [summarize_other hnot]
    exact if_pos hs

/-! ### Values -/

theorem mapM_eq_self_iff {α : Type} {f : α → Option α} {as : List α} :
    as.mapM f = some as ↔ ∀ a ∈ as, f a = some a := by
  induction as with
  | nil => simp
  | cons a rest ih =>
    rw [List.mapM_cons, List.forall_mem_cons, ← ih]
    cases f a with
    | none => simp
    | some b => cases rest.mapM f <;> simp

section
variable {sensitive : List Char → Bool} {maxString maxItems : Int}

/-- A list that is not capped is kept exactly if all its items are. -/
theorem shrinkJson_array_eq_iff {calls : Nat} {items : List Value} (h : (items.length : Int) ≤ maxItems) :
    shrinkJson sensitive maxString maxItems (calls + 1) (.array items) = some (.array items) ↔
      ∀ v ∈ items, shrinkJson sensitive maxString maxItems calls v = some v := by
  have hwhole : sliceTo items maxItems = items := by
    unfold sliceTo
    rw [if_pos (by omega)]
    exact List.take_of_length_le (by omega)
  have hcap : ¬ (items.length : Int) > maxItems := by omega
  simp only [shrinkJson, hwhole, if_neg hcap, Option.map_eq_some_iff, Value.array.injEq, exists_eq_right,
    mapM_eq_self_iff]

/-- An object without sensitive keys is kept exactly if its values are. -/
theorem shrinkJson_object_eq_iff {calls : Nat} {entries : List (List Char × Value)}
    (h : ∀ e ∈ entries, sensitive e.1 = false) :
    shrinkJson sensitive maxString maxItems (calls + 1) (.object entries) = some (.object entries) ↔
      ∀ e ∈ entries, shrinkJson sensitive maxString maxItems calls e.2 = some e.2 := by
  rw [shrinkJson, Option.map_eq_some_iff]
  simp only [Value.object.injEq, exists_eq_right, mapM_eq_self_iff]
  refine forall₂_congr fun e he => ?_
  rw [h e he, if_neg Bool.false_ne_true, Option.map_eq_some_iff]
  simp [Prod.ext_iff]

/-- What the limits allow: short strings, short lists and no key that is redacted, at any depth. -/
structure Small (sensitive : List Char → Bool) (maxString maxItems : Int) (v : Value) : Prop where
  strings : ∀ s, .string s ∈ v.parts → (s.length : Int) ≤ maxString
  lists : ∀ items, .array items ∈ v.parts → (items.length : Int) ≤ maxItems
  keys : v.holds sensitive = false

theorem Small.item {items : List Value} (h : Small sensitive maxString maxItems (.array items)) {v : Value}
    (hv : v ∈ items) : Small sensitive maxString maxItems v where
  strings := fun s hs => h.strings s (mem_parts_array.mpr (.inr ⟨v, hv, hs⟩))
  lists := fun inner hinner => h.lists inner (mem_parts_array.mpr (.inr ⟨v, hv, hinner⟩))
  keys := holdsItems_eq_false.mp h.keys v hv

theorem Small.entry {entries : List (List Char × Value)} (h : Small sensitive maxString maxItems (.object entries))
    {e : List Char × Value} (he : e ∈ entries) : Small sensitive maxString maxItems e.2 where
  strings := fun s hs => h.strings s (mem_parts_object.mpr (.inr ⟨e, he, hs⟩))
  lists := fun inner hinner => h.lists inner (mem_parts_object.mpr (.inr ⟨e, he, hinner⟩))
  keys := (holdsEntries_eq_false.mp h.keys e he).2

/-- What is in the way of a small value's being kept: it is nested too deep, or one of its strings looks
like base64. -/
theorem small_kept_iff {calls : Nat} {v : Value} (h : Small sensitive maxString maxItems v) :
    shrinkJson sensitive maxString maxItems calls v = some v ↔
      v.depth ≤ calls ∧ ∀ s, .string s ∈ v.parts → ¬ LooksBase64 s := by
  induction calls generalizing v with
  | zero =>
    have hdepth : 0 < v.depth := depth_pos v
    exact iff_of_false (by simp [shrinkJson]) (by omega)
  | succ calls ih =>
    cases v with
    | array items =>
      rw [shrinkJson_array_eq_iff (h.lists items (mem_parts_self _)), Value.depth, Nat.succ_le_succ_iff,
        depthItems_le_iff]
      constructor
      · intro hkept
        have hitems := fun v hv => (ih (h.item hv)).mp (hkept v hv)
        refine ⟨fun v hv => (hitems v hv).1, fun s hs => ?_⟩
        obtain hself | ⟨v, hv, hs⟩ := mem_parts_array.mp hs
        · cases hself
        · exact (hitems v hv).2 s hs
      · rintro ⟨hdepth, hstrings⟩ v hv
        exact (ih (h.item hv)).mpr ⟨hdepth v hv, fun s hs => hstrings s (mem_parts_array.mpr (.inr ⟨v, hv, hs⟩))⟩
    | object entries =>
      rw [shrinkJson_object_eq_iff fun e he => (holdsEntries_eq_false.mp h.keys e he).1, Value.depth,
        Nat.succ_le_succ_iff, depthEntries_le_iff]
      constructor
      · intro hkept
        have hentries := fun e he => (ih (h.entry he)).mp (hkept e he)
        refine ⟨fun e he => (hentries e he).1, fun s hs => ?_⟩
        obtain hself | ⟨e, he, hs⟩ := mem_parts_object.mp hs
        · cases hself
        · exact (hentries e he).2 s hs
      · rintro ⟨hdepth, hstrings⟩ e he
        exact (ih (h.entry he)).mpr ⟨hdepth e he, fun s hs => hstrings s (mem_parts_object.mpr (.inr ⟨e, he, hs⟩))⟩
    | string s =>
      have hlimit : (s.length : Int) ≤ maxString := h.strings s (mem_parts_self _)
      simp [shrinkJson, summarize_eq_self_iff hlimit, Value.depth, Value.parts]
    | null | bool b | number literal => simp [shrinkJson, Value.depth, Value.parts]

end

/-- **A small value is left alone exactly if none of its strings looks like base64**, and if it is not
nested deeper than calls may be. -/
theorem shrinkJson_small_iff (lower : List Char → List Char) (maxString maxItems : Int) (calls : Nat) (v : Value)
    (h : Small (isSensitiveKey lower) maxString maxItems v) :
    shrinkJson (isSensitiveKey lower) maxString maxItems calls v = some v ↔
      v.depth ≤ calls ∧ ∀ s, .string s ∈ v.parts → ¬ LooksBase64 s :=
  small_kept_iff h

/-- A list of a word of five letters. -/
theorem five_letters_kept : shrinkJson (isSensitiveKey id) 256 10 2 (.array [.string "hello".toList]) =
    some (.array [.string "hello".toList]) := by
  have hparts : ∀ x ∈ (Value.array [.string "hello".toList]).parts,
      x = .array [.string "hello".toList] ∨ x = .string "hello".toList := by
    intro x hx
    simpa [Value.parts, partsItems] using hx
  refine (shrinkJson_small_iff id 256 10 2 _ ⟨fun s hs => ?_, fun items hitems => ?_, rfl⟩).mpr ⟨by decide, fun s hs => ?_⟩
  · obtain h | h := hparts _ hs
    · cases h
    · cases h
      decide
  · obtain h | h := hparts _ hitems
    · cases h
      decide
    · cases h
  · obtain h | h := hparts _ hs
    · cases h
    · cases h
      exact fun hlooks => absurd hlooks.2.1 (by decide)

/-- A word of four letters is shown as base64 of three bytes. -/
theorem four_letters_summarized : ¬ ∀ v, Small (isSensitiveKey id) 256 10 v →
    shrinkJson (isSensitiveKey id) 256 10 v.depth v = some v := by
  intro h
  have hkept := h (.string "name".toList) ⟨fun s hs => ?_, fun items hitems => ?_, rfl⟩
  · have hsame : summarizeMaybeBase64 "name".toList 256 = "name".toList := Value.string.inj (Option.some.inj hkept)
    revert hsame
    decide
  · obtain rfl : s = "name".toList := by simpa [Value.parts] using hs
    decide
  · simp [Value.parts] at hitems

end PyAppRunner.Requests
