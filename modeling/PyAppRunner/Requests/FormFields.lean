import PyAppRunner.Base.Regex
import PyAppRunner.Requests.BodyLog

/-! Form redaction, as the regular expression does it.

`FORM_FIELD_RX.sub` scans the text once. A match can only start where a field does, and
there is one exactly if the field has a `=`; it then takes the whole field. So the scan
redacts field by field (`form_redacted_by_field`), which is how `redactFormFields` has it. -/
namespace PyAppRunner.Requests
open Base Base.Regex

def notKeyEnd (c : Char) : Bool := c ≠ '&' && c ≠ '='

def notFieldEnd (c : Char) : Bool := c ≠ '&'

/-- `(?:^|(?<=&))([^&=]*)=([^&]*)`. -/
def formFieldRx : Pattern :=
  .seq (.alt .start (.behind '&'))
    (.seq (.group (.many notKeyEnd)) (.seq (.one (· == '=')) (.group (.many notFieldEnd))))

variable (sensitive : List Char → Bool)

/-- What becomes of a match: its first group is the key. -/
def redactMatch (whole : List Char) (groups : List (List Char)) : List Char :=
  let key := groups.getD 0 []
  if sensitive (Url.unquotePlus key) then key ++ "=<redacted>".toList else whole

/-- `redact_form_fields`. -/
def redactFormFieldsRx (text : List Char) : List Char := sub formFieldRx (redactMatch sensitive) 0 none text

/-! ### One match -/

/-- Where a field starts. -/
abbrev AtField (before : Option Char) : Prop := before = none ∨ before = some '&'

/-- What follows a field. -/
def EndsField (rest : List Char) : Prop := ∀ c ∈ rest.head?, c = '&'

/-- What is tried where a field starts. -/
def keyAndValue : Pattern :=
  .seq (.group (.many notKeyEnd)) (.seq (.one (· == '=')) (.group (.many notFieldEnd)))

theorem run_formFieldRx (before : Option Char) (rest : List Char) (k : Cursor → Option Match) :
    formFieldRx.run ⟨before, rest, []⟩ k =
      if AtField before then keyAndValue.run ⟨before, rest, []⟩ k else none := by
  show ((if before = none then keyAndValue.run ⟨before, rest, []⟩ k else none).orElse fun _ =>
    if before = some '&' then keyAndValue.run ⟨before, rest, []⟩ k else none) = _
  by_cases hstart : before = none
  · have hat : AtField before := .inl hstart
    rw [if_pos hstart, if_pos hat, if_neg (by simp [hstart])]
    cases keyAndValue.run ⟨before, rest, []⟩ k with
    | none => rfl
    | some found => rfl
  · rw [if_neg hstart]
    by_cases hamp : before = some '&'
    · have hat : AtField before := .inr hamp
      rw [if_pos hamp, if_pos hat]
      rfl
    · have hat : ¬ AtField before := fun h => h.elim hstart hamp
      rw [if_neg hamp, if_neg hat]
      rfl

theorem matchAt_inside {before : Option Char} (h : ¬ AtField before) (rest : List Char) :
    formFieldRx.matchAt before rest = none := by
  rw [Pattern.matchAt, run_formFieldRx, if_neg h]

/-- A field with a `=` is one match, whose first group is its key. -/
theorem matchAt_field {before : Option Char} (h : AtField before) {key value rest : List Char}
    (hkey : ∀ c ∈ key, notKeyEnd c = true) (hvalue : ∀ c ∈ value, notFieldEnd c = true) (hrest : EndsField rest) :
    formFieldRx.matchAt before (key ++ '=' :: value ++ rest) = some ((key ++ '=' :: value).length, [key, value]) := by
  rw [Pattern.matchAt, run_formFieldRx, if_pos h, List.append_assoc, List.cons_append]
  apply runMany_all before hkey
  · intro c hc
    cases hc
    rfl
  · simp only [Pattern.run]
    rw [if_pos (by rfl)]
    apply runMany_all _ hvalue
    · intro c hc
      rw [hrest c hc]
      rfl
    · simp
      omega

/-- After characters of a key there is no `=`, in a field that has none. -/
theorem head_ne_equals {field rest run rest' : List Char} (hfield : ∀ c ∈ field, notKeyEnd c = true)
    (hrest : EndsField rest) (heq : field ++ rest = run ++ rest') (hrun : ∀ c ∈ run, notKeyEnd c = true) :
    ∀ c ∈ rest'.head?, c ≠ '=' := by
  intro c hc hequals
  subst hequals
  obtain ⟨tail, rfl⟩ : ∃ tail, rest' = '=' :: tail := by
    cases rest' with
    | nil => cases hc
    | cons d tail =>
      cases hc
      exact ⟨tail, rfl⟩
  obtain ⟨a, rfl, ha⟩ | ⟨a, rfl, ha⟩ := List.append_eq_append_iff.mp heq
  · -- The field ends first, and what ends it is not of a key.
    cases a with
    | nil =>
      have := hrest '=' (by rw [ha]; rfl)
      cases this
    | cons d a =>
      have hd := hrest d (by rw [ha]; rfl)
      have := hrun d (by simp)
      rw [hd] at this
      cases this
  · cases a with
    | nil =>
      have := hrest '=' (by rw [← List.nil_append rest, ← ha]; rfl)
      cases this
    | cons d a =>
      cases ha
      have := hfield '=' (by simp)
      cases this

/-- A field without a `=` is no match. -/
theorem matchAt_plain (before : Option Char) {field rest : List Char} (hfield : ∀ c ∈ field, notKeyEnd c = true)
    (hrest : EndsField rest) : formFieldRx.matchAt before (field ++ rest) = none := by
  rw [Pattern.matchAt, run_formFieldRx]
  split
  · apply runMany_none
    intro run rest' heq hrun
    have hhead := head_ne_equals hfield hrest heq hrun
    simp only [Pattern.run]
    cases rest' with
    | nil => rfl
    | cons c rest' => simp [hhead c rfl]
  · rfl

/-! ### One field -/

/-- No field starts after another character than an ampersand. -/
theorem not_atField {c : Char} (h : c ≠ '&') : ¬ AtField (some c) := by
  intro hat
  obtain hnone | hamp := hat
  · cases hnone
  · exact h (Option.some.inj hamp)

/-- Where no field starts, characters stay as they are. -/
theorem sub_inside {become : List Char → List (List Char) → List Char} {before : Option Char} (h : ¬ AtField before)
    {s : List Char} (hs : '&' ∉ s) (rest : List Char) :
    sub formFieldRx become 0 before (s ++ rest) = s ++ sub formFieldRx become 0 (placeAfter before s) rest := by
  induction s generalizing before with
  | nil => rfl
  | cons c s ih =>
    have hc : c ≠ '&' := fun hamp => hs (hamp ▸ List.mem_cons_self)
    rw [List.cons_append, sub_none (matchAt_inside h _),
      ih (not_atField hc) (fun hmem => hs (List.mem_cons_of_mem c hmem)), placeAfter_cons]
    rfl

/-- The key of a field with a `=`. -/
theorem takeWhile_key {key : List Char} (hkey : '=' ∉ key) (value : List Char) :
    (key ++ '=' :: value).takeWhile (· ≠ '=') = key := by
  have hall : ∀ c ∈ key, decide (c ≠ '=') = true := by
    intro c hc
    have heq : c ≠ '=' := fun heq => hkey (heq ▸ hc)
    exact decide_eq_true heq
  rw [List.takeWhile_append_of_pos hall]
  simp

theorem redactField_equals {key : List Char} (hkey : '=' ∉ key) (value : List Char) :
    redactField sensitive (key ++ '=' :: value) =
      if sensitive (Url.unquotePlus key) then key ++ "=<redacted>".toList else key ++ '=' :: value := by
  rw [redactField, if_pos (by simp)]
  dsimp only
  rw [takeWhile_key hkey]

/-- A field is redacted, whatever is around it. -/
theorem sub_field {before : Option Char} (h : AtField before) {field rest : List Char} (hfield : '&' ∉ field)
    (hrest : EndsField rest) :
    sub formFieldRx (redactMatch sensitive) 0 before (field ++ rest) =
      redactField sensitive field ++ sub formFieldRx (redactMatch sensitive) 0 (placeAfter before field) rest := by
  by_cases hequals : '=' ∈ field
  · obtain ⟨key, value, rfl, hkey⟩ := List.eq_append_cons_of_mem hequals
    have hkey' : ∀ c ∈ key, notKeyEnd c = true := by
      intro c hc
      have hamp : c ≠ '&' := fun heq => hfield (heq ▸ List.mem_append_left _ hc)
      have heq : c ≠ '=' := fun heq => hkey (heq ▸ hc)
      simp [notKeyEnd, hamp, heq]
    have hvalue : ∀ c ∈ value, notFieldEnd c = true := by
      intro c hc
      have hamp : c ≠ '&' := fun heq => hfield (heq ▸ List.mem_append_right _ (List.mem_cons_of_mem _ hc))
      simp [notFieldEnd, hamp]
    rw [sub_match (by simp) (matchAt_field h hkey' hvalue hrest), redactField_equals sensitive hkey]
    rfl
  · cases field with
    | nil =>
      rw [redactField, if_neg hequals]
      rfl
    | cons c field =>
      have hkey : ∀ d ∈ c :: field, notKeyEnd d = true := by
        intro d hd
        have hamp : d ≠ '&' := fun heq => hfield (heq ▸ hd)
        have heq : d ≠ '=' := fun heq => hequals (heq ▸ hd)
        simp [notKeyEnd, hamp, heq]
      have hc : c ≠ '&' := fun heq => hfield (heq ▸ List.mem_cons_self)
      have hnone := matchAt_plain before hkey hrest
      rw [List.cons_append] at hnone ⊢
      rw [redactField, if_neg hequals, sub_none hnone,
        sub_inside (not_atField hc) (fun hmem => hfield (List.mem_cons_of_mem c hmem)), placeAfter_cons]
      rfl

/-! ### All fields -/

/-- A text is the parts it is split into, joined. -/
theorem intercalate_split (sep : Char) (s : List Char) : [sep].intercalate (Text.split sep s) = s := by
  have hflatten := Text.flatten_split sep s
  have hjoin : ∀ parts : List (List Char), parts ≠ [] →
      (parts.map (· ++ [sep])).flatten = [sep].intercalate parts ++ [sep] := by
    intro parts hparts
    induction parts with
    | nil => exact absurd rfl hparts
    | cons part parts ih =>
      by_cases hnil : parts = []
      · simp [hnil]
      · rw [List.map_cons, List.flatten_cons, ih hnil, List.intercalate_cons_of_ne_nil hnil]
        simp
  rw [hjoin _ (Text.split_ne_nil sep s)] at hflatten
  exact List.append_cancel_right hflatten

/-- Between two fields, and at the end, there is no match. -/
theorem matchAt_end {before : Option Char} {rest : List Char} (h : EndsField rest) :
    formFieldRx.matchAt before rest = none := by
  have hnil : ∀ c ∈ ([] : List Char), notKeyEnd c = true := by simp
  rw [← List.nil_append rest]
  exact matchAt_plain before hnil h

theorem sub_fields {before : Option Char} (h : AtField before) {fields : List (List Char)}
    (hfields : ∀ field ∈ fields, '&' ∉ field) :
    sub formFieldRx (redactMatch sensitive) 0 before (['&'].intercalate fields) =
      ['&'].intercalate (fields.map (redactField sensitive)) := by
  induction fields generalizing before with
  | nil =>
    rw [List.intercalate_nil, sub, matchAt_end (by simp [EndsField])]
    rfl
  | cons field fields ih =>
    have hfield := hfields field List.mem_cons_self
    have hrest : ∀ f ∈ fields, '&' ∉ f := fun f hf => hfields f (List.mem_cons_of_mem field hf)
    by_cases hnil : fields = []
    · have hend : EndsField [] := by simp [EndsField]
      have hlast := sub_field sensitive h hfield hend
      rw [sub, matchAt_end hend, List.append_nil] at hlast
      rw [hnil, List.map_singleton, List.intercalate_singleton, List.intercalate_singleton, hlast]
      exact List.append_nil _
    · have hend : EndsField ('&' :: ['&'].intercalate fields) := by
        intro c hc
        cases hc
        rfl
      have htail : fields.map (redactField sensitive) ≠ [] := by simpa using hnil
      rw [List.map_cons, List.intercalate_cons_of_ne_nil hnil, List.intercalate_cons_of_ne_nil htail]
      simp only [List.append_assoc, List.singleton_append]
      rw [sub_field sensitive h hfield hend, sub_none (matchAt_end hend), ih (.inr rfl) hrest]

/-- The scan is the redaction field by field. -/
theorem redactFormFieldsRx_eq (text : List Char) :
    redactFormFieldsRx sensitive text = redactFormFields sensitive text := by
  have hsplit := sub_fields sensitive (.inl rfl) fun field hfield => Text.not_mem_of_mem_split hfield (s := text)
  rwa [intercalate_split] at hsplit

/-- **Form redaction works field by field.** Fields joined by ampersands become their own
redactions, so joined. A field with a `=` whose key, decoded, is sensitive is left as
the key and the mark, whatever its value; every other field stays as it is. -/
theorem form_redacted_by_field (lower : List Char → List Char) {fields : List (List Char)}
    (hfields : ∀ field ∈ fields, '&' ∉ field) :
    redactFormFieldsRx (isSensitiveKey lower) (['&'].intercalate fields) =
      ['&'].intercalate (fields.map (redactField (isSensitiveKey lower))) ∧
    ∀ field ∈ fields,
      (∀ key value, '=' ∉ key → field = key ++ '=' :: value → redactField (isSensitiveKey lower) field =
        if isSensitiveKey lower (Url.unquotePlus key) then key ++ "=<redacted>".toList else field) ∧
      ('=' ∉ field → redactField (isSensitiveKey lower) field = field) := by
  refine ⟨sub_fields _ (.inl rfl) hfields, ?_⟩
  intro field _
  constructor
  · intro key value hkey heq
    rw [heq, redactField_equals _ hkey]
  · intro hequals
    rw [redactField, if_neg hequals]

/-- A key that is only sensitive when it is decoded, a value with a `=`, and an empty key. -/
theorem login_form_redacted :
    redactFormFieldsRx (isSensitiveKey (·.map Char.toLower)) "name=a&pass%77ord=hunter=2&remember&=1".toList =
      "name=a&pass%77ord=<redacted>&remember&=1".toList := by
  have hsplit : ∀ field ∈ ["name=a".toList, "pass%77ord=hunter=2".toList, "remember".toList, "=1".toList], '&' ∉ field := by
    decide
  have hfields := (form_redacted_by_field (·.map Char.toLower) hsplit).1
  have hshown : ["name=a".toList, "pass%77ord=hunter=2".toList, "remember".toList, "=1".toList].map
      (redactField (isSensitiveKey (·.map Char.toLower))) =
        ["name=a".toList, "pass%77ord=<redacted>".toList, "remember".toList, "=1".toList] := by
    decide +kernel
  have hjoined : ['&'].intercalate ["name=a".toList, "pass%77ord=hunter=2".toList, "remember".toList, "=1".toList] =
      "name=a&pass%77ord=hunter=2&remember&=1".toList := by
    decide +kernel
  have hredacted : ['&'].intercalate ["name=a".toList, "pass%77ord=<redacted>".toList, "remember".toList, "=1".toList] =
      "name=a&pass%77ord=<redacted>&remember&=1".toList := by
    decide +kernel
  rw [hshown, hjoined, hredacted] at hfields
  exact hfields

end PyAppRunner.Requests
