import Mathlib.Data.List.Infix
import PyAppRunner.Base.Json
import PyAppRunner.Base.Text
import PyAppRunner.Base.Url

/-! How a request body is shown in the log, and when that keeps its credentials back.

A body that can be read as JSON is redacted by key, at any depth. One that cannot is taken
for a form, and of a form only `key=value` fields are redacted. A JSON document that
the library does not read, because a number is out of range or because it is nested
too deep, ends up there too, and then it is shown as it came. -/
namespace PyAppRunner.Requests
open Base Base.Json Base.Text

/-! ### Cutting short -/

/-- A long text keeps its two ends. -/
def truncateMiddle (s : List Char) (maxLen : Int) : List Char :=
  if (s.length : Int) ≤ maxLen then s
  else
    let head := maxLen / 2
    let tail := maxLen - head - 1
    sliceTo s head ++ '…' :: sliceFrom s (-tail)

/-- `[A-Za-z0-9+/=\s]`. -/
def isBase64 (c : Char) : Bool := c.isAlphanum || c = '+' || c = '/' || c = '=' || isSpace c

/-- With a `preview` of 32, as all callers have it. -/
def summarizeMaybeBase64 (s : List Char) (hardCap : Int) : List Char :=
  let compact := s.filter fun c => !isSpace c
  if !compact.isEmpty && compact.length % 4 = 0 && compact.all isBase64 then
    let approx : Int := (compact.length * 3 / 4 : Nat) - (compact.count '=' : Nat)
    let tail := if compact.length > 64 then compact.drop (compact.length - 32) else []
    "<base64 ".toList ++ (toString compact.length).toList ++ " chars (~".toList ++ (toString approx).toList ++
      " bytes) ".toList ++ compact.take 32 ++ '…' :: tail ++ ['>']
  else truncateMiddle s hardCap

/-! ### Redaction -/

/-- `SENSITIVE_KEY_MARKERS`. -/
def sensitiveKeyMarkers : List String :=
  ["authorization", "cookie", "pass", "pwd", "secret", "token", "api-key", "api_key", "apikey", "private_key",
    "private-key", "privatekey", "account_key", "accountkey", "access_key", "access-key", "accesskey",
    "encryption_key", "signing_key", "hmac", "jwt", "bearer", "totp", "otp_code", "otp-code", "one_time_code",
    "mfa_code", "pin_code", "pincode", "credential", "connection_string", "connectionstring", "conn_str", "dsn",
    "salt", "signature", "session", "username", "user_name", "login"]

/-- `lower` is `str.lower`. -/
def isSensitiveKey (lower : List Char → List Char) (name : List Char) : Bool :=
  sensitiveKeyMarkers.any fun marker => decide (marker.toList <:+: lower name)

section
variable (sensitive : List Char → Bool)

/-- What `FORM_FIELD_RX` makes of the text from its start, or from an ampersand, up to the next. -/
def redactField (field : List Char) : List Char :=
  if '=' ∈ field then
    let key := field.takeWhile (· ≠ '=')
    if sensitive (Url.unquotePlus key) then key ++ "=<redacted>".toList else field
  else field

/-- The values of sensitive fields are replaced. -/
def redactFormFields (text : List Char) : List Char :=
  ['&'].intercalate ((Text.split '&' text).map (redactField sensitive))

def shownRedacted : List Char := "<redacted>".toList

/-- `shrink_json`. The number is of the calls that may still be nested; with none left,
`RecursionError` is raised. -/
def shrinkJson (maxString maxItems : Int) : Nat → Value → Option Value
  | 0, _ => none
  | calls + 1, .object entries =>
    (entries.mapM fun e =>
      if sensitive e.1 then some (e.1, .string shownRedacted)
      else (shrinkJson maxString maxItems calls e.2).map fun v => (e.1, v)).map .object
  | calls + 1, .array items =>
    ((sliceTo items maxItems).mapM (shrinkJson maxString maxItems calls)).map fun trimmed =>
      .array (if (items.length : Int) > maxItems then
        trimmed ++ [.string ("<… ".toList ++ (toString ((items.length : Int) - maxItems)).toList ++ " more items>".toList)]
      else trimmed)
  | _ + 1, .string s => some (.string (summarizeMaybeBase64 s maxString))
  | _ + 1, .null => some .null
  | _ + 1, .bool b => some (.bool b)
  | _ + 1, .number literal => some (.number literal)

/-- The JSON library, and how deep calls may be nested. `json_decode` returns the value of a
document or raises, whatever is under sensitive keys; what `shrink_json` has
gone through is not too deep for `json_encode`. -/
structure Library where
  decode : List Char → Option Value
  encode : Value → Option (List Char)
  calls : Nat
  decode_value : ∀ (t : Document) (v : Value), decode t.text = some v → v = t.doc.value
  decode_blanked : ∀ t t' : Document, t'.blanked sensitive = t.blanked sensitive →
    (decode t'.text).isSome = (decode t.text).isSome
  encodes : ∀ maxString maxItems v w, shrinkJson sensitive maxString maxItems calls v = some w → (encode w).isSome

variable {sensitive}

/-- What is tried first; any of the three may raise. -/
def jsonForLog (lib : Library sensitive) (shrinkStringsTo capListItems : Int) (text : List Char) : Option (List Char) := do
  let js ← lib.decode text
  let js ← shrinkJson sensitive shrinkStringsTo capListItems lib.calls js
  lib.encode js

/-- `format_body_for_log` of a text. -/
def formatBodyForLog (lib : Library sensitive) (maxChars shrinkStringsTo capListItems : Int) (text : List Char) :
    List Char :=
  match jsonForLog lib shrinkStringsTo capListItems text with
  | some shown => truncateMiddle shown maxChars
  | none => truncateMiddle (summarizeMaybeBase64 (redactFormFields sensitive text) shrinkStringsTo) maxChars

/-! ### Documents that are read -/

theorem mapM_congr {α α' β : Type} {R : α → α' → Prop} {f : α → Option β} {g : α' → Option β}
    (hfg : ∀ a a', R a a' → f a = g a') {as : List α} {as' : List α'} (h : List.Forall₂ R as as') :
    as.mapM f = as'.mapM g := by
  induction h with
  | nil => rfl
  | cons ha _ ih => rw [List.mapM_cons, List.mapM_cons, hfg _ _ ha, ih]

theorem forall₂_sliceTo {α α' : Type} {R : α → α' → Prop} {as : List α} {as' : List α'} (h : List.Forall₂ R as as')
    (i : Int) : List.Forall₂ R (sliceTo as i) (sliceTo as' i) := by
  unfold sliceTo
  rw [h.length_eq]
  split
  · exact List.forall₂_take _ h
  · exact List.forall₂_take _ h

/-- What is under sensitive keys makes no difference. -/
theorem shrinkJson_blanked (maxString maxItems : Int) (calls : Nat) (d : Doc) :
    shrinkJson sensitive maxString maxItems calls d.value =
      shrinkJson sensitive maxString maxItems calls (d.blanked sensitive).value := by
  induction calls generalizing d with
  | zero => rfl
  | succ calls ih =>
    have hvalue : ∀ v v', ValueBlanked sensitive v v' →
        shrinkJson sensitive maxString maxItems calls v = shrinkJson sensitive maxString maxItems calls v' := by
      intro v v' h
      obtain ⟨d, rfl, rfl⟩ := h
      exact ih d
    cases d with
    | null => rfl
    | bool b => rfl
    | number n => rfl
    | string s => rfl
    | array inner items =>
      have hitems : List.Forall₂ (ValueBlanked sensitive) _ _ := items.values_blanked
      simp only [Doc.blanked, Doc.value, shrinkJson]
      rw [mapM_congr hvalue (forall₂_sliceTo hitems maxItems), hitems.length_eq]
    | object inner members =>
      simp only [Doc.blanked, Doc.value, shrinkJson]
      rw [mapM_congr _ members.dict_blanked]
      intro e e' he
      obtain ⟨hkey, hsensitive | hblanked⟩ := he
      · rw [← hkey, if_pos hsensitive, if_pos hsensitive]
      · rw [← hkey, hvalue _ _ hblanked]

theorem isSome_mapM {α β : Type} (f : α → Option β) (as : List α) :
    (as.mapM f).isSome = as.all fun a => (f a).isSome := by
  induction as with
  | nil => rfl
  | cons a rest ih =>
    rw [List.mapM_cons, List.all_cons, ← ih]
    cases f a with
    | none => rfl
    | some b =>
      cases rest.mapM f with
      | none => rfl
      | some bs => rfl

/-- Whether the calls are nested too deep does not depend on where strings are cut. -/
theorem isSome_shrinkJson (maxString maxString' maxItems : Int) (calls : Nat) (v : Value) :
    (shrinkJson sensitive maxString maxItems calls v).isSome =
      (shrinkJson sensitive maxString' maxItems calls v).isSome := by
  induction calls generalizing v with
  | zero => rfl
  | succ calls ih =>
    cases v with
    | null => rfl
    | bool b => rfl
    | number n => rfl
    | string s => rfl
    | array items => simp only [shrinkJson, Option.isSome_map, isSome_mapM, ih]
    | object entries =>
      simp only [shrinkJson, Option.isSome_map, isSome_mapM]
      congr 1
      funext e
      split
      · rfl
      · rw [Option.isSome_map, Option.isSome_map, ih]

/-- Documents that only differ under sensitive keys are both read or neither is, and what is
then shown is the same. -/
theorem jsonForLog_blanked (lib : Library sensitive) (maxString maxItems : Int) {t t' : Document}
    (h : t'.blanked sensitive = t.blanked sensitive) :
    jsonForLog lib maxString maxItems t'.text = jsonForLog lib maxString maxItems t.text := by
  have hraises := lib.decode_blanked t t' h
  unfold jsonForLog
  cases hdecode : lib.decode t.text with
  | none =>
    rw [hdecode, Option.isSome_none, Option.isSome_eq_false_iff, Option.isNone_iff_eq_none] at hraises
    rw [hraises]
  | some v =>
    rw [hdecode] at hraises
    obtain ⟨v', hdecode'⟩ := Option.isSome_iff_exists.mp hraises
    have hdoc : t'.doc.blanked sensitive = t.doc.blanked sensitive := congrArg Document.doc h
    have hshrink : shrinkJson sensitive maxString maxItems lib.calls v' =
        shrinkJson sensitive maxString maxItems lib.calls v := by
      rw [lib.decode_value t v hdecode, lib.decode_value t' v' hdecode', shrinkJson_blanked, hdoc, ← shrinkJson_blanked]
    rw [hdecode']
    simp only [Option.bind_eq_bind, Option.bind_some, hshrink]

/-- The library reads the document, and it is not nested too deep for `shrink_json`. -/
def IsRead (lib : Library sensitive) (text : List Char) : Prop :=
  ∃ v, lib.decode text = some v ∧ ∀ maxString maxItems, (shrinkJson sensitive maxString maxItems lib.calls v).isSome

theorem isSome_jsonForLog_iff {lib : Library sensitive} {maxString maxItems : Int} {text : List Char} :
    (jsonForLog lib maxString maxItems text).isSome ↔
      ∃ v, lib.decode text = some v ∧ (shrinkJson sensitive maxString maxItems lib.calls v).isSome := by
  unfold jsonForLog
  cases lib.decode text with
  | none => simp
  | some v =>
    cases hshrink : shrinkJson sensitive maxString maxItems lib.calls v with
    | none => simp [hshrink]
    | some w => simp [hshrink, lib.encodes maxString maxItems v w hshrink]

/-- What is not read is not read wherever strings are cut. -/
theorem jsonForLog_eq_none {lib : Library sensitive} {text : List Char} (h : ¬ IsRead lib text) :
    ∃ maxItems, ∀ maxString, jsonForLog lib maxString maxItems text = none := by
  have hsome : ∀ maxString maxItems, jsonForLog lib maxString maxItems text ≠ none ↔ ∃ v, lib.decode text = some v ∧
      (shrinkJson sensitive maxString maxItems lib.calls v).isSome := by
    intro maxString maxItems
    rw [← isSome_jsonForLog_iff, Option.isSome_iff_ne_none]
  by_contra hnot
  push Not at hnot
  apply h
  obtain ⟨maxString, hread⟩ := hnot 0
  obtain ⟨v, hdecode, -⟩ := (hsome _ _).mp hread
  refine ⟨v, hdecode, fun maxString maxItems => ?_⟩
  obtain ⟨maxString', hread'⟩ := hnot maxItems
  obtain ⟨v', hdecode', hshrink⟩ := (hsome _ _).mp hread'
  rw [hdecode] at hdecode'
  cases hdecode'
  rw [isSome_shrinkJson maxString maxString']
  exact hshrink

/-! ### Documents that are not -/

theorem intercalate_append {sep : Char} {left right : List (List Char)} (hleft : left ≠ []) (hright : right ≠ []) :
    [sep].intercalate (left ++ right) = [sep].intercalate left ++ sep :: [sep].intercalate right := by
  induction left with
  | nil => exact absurd rfl hleft
  | cons part parts ih =>
    by_cases hparts : parts = []
    · rw [hparts, List.singleton_append, List.intercalate_cons_of_ne_nil hright, List.intercalate_singleton]
      simp
    · rw [List.cons_append, List.intercalate_cons_of_ne_nil (by simp [hparts]), ih hparts,
        List.intercalate_cons_of_ne_nil hparts]
      simp

theorem redactFormFields_append (left right : List Char) :
    redactFormFields sensitive (left ++ '&' :: right) =
      redactFormFields sensitive left ++ '&' :: redactFormFields sensitive right := by
  unfold redactFormFields
  rw [split_append, List.map_append]
  apply intercalate_append
  · exact fun hnil => split_ne_nil '&' left (List.map_eq_nil_iff.mp hnil)
  · exact fun hnil => split_ne_nil '&' right (List.map_eq_nil_iff.mp hnil)

theorem head_redactField {c : Char} (heq : c ≠ '=') (rest : List Char) :
    (redactField sensitive (c :: rest)).head? = some c := by
  unfold redactField
  dsimp only
  rw [List.takeWhile_cons_of_pos (by simpa using heq)]
  split
  · split <;> rfl
  · rfl

/-- A field shows how it starts. -/
theorem head_redactFormFields {c : Char} (hamp : c ≠ '&') (heq : c ≠ '=') (rest : List Char) :
    (redactFormFields sensitive (c :: rest)).head? = some c := by
  unfold redactFormFields
  rw [Text.split, if_neg hamp]
  cases hsplit : Text.split '&' rest with
  | nil => exact absurd hsplit (split_ne_nil '&' rest)
  | cons part parts =>
    have hhead : (redactField sensitive (c :: part)).head? = some c := head_redactField heq part
    dsimp only
    rw [List.map_cons]
    cases parts with
    | nil => rwa [List.map_nil, List.intercalate_singleton]
    | cons more parts =>
      rw [List.map_cons, List.intercalate_cons_cons, List.append_assoc, List.head?_append, hhead]
      rfl

/-- A text that is neither JSON nor too long is shown with its fields redacted. -/
theorem formatBodyForLog_eq {lib : Library sensitive} {maxItems limit : Int} {text : List Char}
    (hnone : jsonForLog lib limit maxItems text = none) (hamp : '&' ∈ redactFormFields sensitive text)
    (hlimit : ((redactFormFields sensitive text).length : Int) ≤ limit) :
    formatBodyForLog lib limit limit maxItems text = redactFormFields sensitive text := by
  have hnot : ((redactFormFields sensitive text).filter fun c => !isSpace c).all isBase64 = false := by
    rw [List.all_eq_false]
    exact ⟨'&', List.mem_filter.mpr ⟨hamp, by decide⟩, by decide⟩
  have hwhole : truncateMiddle (redactFormFields sensitive text) limit = redactFormFields sensitive text := by
    unfold truncateMiddle
    exact if_pos hlimit
  unfold formatBodyForLog summarizeMaybeBase64
  rw [hnone]
  dsimp only
  rw [hnot, Bool.and_false, if_neg Bool.false_ne_true, hwhole, hwhole]

/-- An ampersand and a character more. -/
def ampersand (c : Char) (h : 0x20 ≤ c.toNat ∧ c ≠ '"' ∧ c ≠ '\\') : Doc := .string [.plain '&' (by decide), .plain c h]

/-- A document with a sensitive key that is not read shows some of what is under it. -/
theorem shown_of_not_read {lib : Library sensitive} {t : Document} (hread : ¬ IsRead lib t.text)
    (hholds : t.doc.holds sensitive = true) :
    ∃ (maxChars maxString maxItems : Int) (t' : Document), t'.blanked sensitive = t.blanked sensitive ∧
      formatBodyForLog lib maxChars maxString maxItems t'.text ≠ formatBodyForLog lib maxChars maxString maxItems t.text := by
  obtain ⟨maxItems, hnone⟩ := jsonForLog_eq_none hread
  obtain ⟨left, right, hplace⟩ := t.doc.exists_place hholds
  -- An ampersand ends any field, redacted or not, and a digit starts one.
  have hshown : ∀ c (h : 0x20 ≤ c.toNat ∧ c ≠ '"' ∧ c ≠ '\\'), c ≠ '&' → c ≠ '=' → ∃ t' : Document, ∃ shown,
      t'.blanked sensitive = t.blanked sensitive ∧
      redactFormFields sensitive t'.text = redactFormFields sensitive (t.before.1 ++ left ++ ['"']) ++ '&' :: shown ∧
      shown.head? = some c := by
    intro c h hamp heq
    obtain ⟨d, hblanked, htext⟩ := hplace (ampersand c h)
    have hparts : (Document.mk t.before d t.after).text =
        (t.before.1 ++ left ++ ['"']) ++ '&' :: c :: ('"' :: right ++ t.after.1) := by
      simp [Document.text, htext, ampersand, Doc.text, StringText.text, CharText.text]
    refine ⟨⟨t.before, d, t.after⟩, redactFormFields sensitive (c :: ('"' :: right ++ t.after.1)), ?_, ?_, ?_⟩
    · simp [Document.blanked, hblanked]
    · rw [hparts, redactFormFields_append]
    · exact head_redactFormFields hamp heq _
  obtain ⟨t₁, shown₁, hblanked₁, hredacted₁, hhead₁⟩ := hshown '1' (by decide) (by decide) (by decide)
  obtain ⟨t₂, shown₂, hblanked₂, hredacted₂, hhead₂⟩ := hshown '2' (by decide) (by decide) (by decide)
  let limit : Int := (redactFormFields sensitive t₁.text).length + (redactFormFields sensitive t₂.text).length
  have hformat₁ : formatBodyForLog lib limit limit maxItems t₁.text = redactFormFields sensitive t₁.text := by
    apply formatBodyForLog_eq
    · rw [jsonForLog_blanked lib limit maxItems hblanked₁, hnone]
    · simp [hredacted₁]
    · exact Int.le_add_of_nonneg_right (Int.natCast_nonneg _)
  have hformat₂ : formatBodyForLog lib limit limit maxItems t₂.text = redactFormFields sensitive t₂.text := by
    apply formatBodyForLog_eq
    · rw [jsonForLog_blanked lib limit maxItems hblanked₂, hnone]
    · simp [hredacted₂]
    · exact Int.le_add_of_nonneg_left (Int.natCast_nonneg _)
  by_contra hsame
  push Not at hsame
  have heq := (hsame limit limit maxItems t₁ hblanked₁).trans (hsame limit limit maxItems t₂ hblanked₂).symm
  rw [hformat₁, hformat₂, hredacted₁, hredacted₂] at heq
  have hshown₁₂ : shown₁ = shown₂ := (List.cons.inj (List.append_cancel_left heq)).2
  rw [hshown₁₂, hhead₂] at hhead₁
  cases hhead₁

/-- No body that differs from this one under sensitive keys alone is shown as anything else. -/
def KeptBack (lib : Library sensitive) (t : Document) : Prop :=
  ∀ (maxChars shrinkStringsTo capListItems : Int) (t' : Document), t'.blanked sensitive = t.blanked sensitive →
    formatBodyForLog lib maxChars shrinkStringsTo capListItems t'.text =
      formatBodyForLog lib maxChars shrinkStringsTo capListItems t.text

theorem keptBack_iff (lib : Library sensitive) (t : Document) :
    KeptBack lib t ↔ IsRead lib t.text ∨ t.doc.holds sensitive = false := by
  constructor
  · intro h
    by_contra hnot
    rw [not_or, Bool.not_eq_false] at hnot
    obtain ⟨maxChars, maxString, maxItems, t', hblanked, hne⟩ := shown_of_not_read hnot.1 hnot.2
    exact hne (h maxChars maxString maxItems t' hblanked)
  · intro h maxChars maxString maxItems t' hblanked
    rcases h with ⟨v, hdecode, hshrink⟩ | hnone
    · have hread : (jsonForLog lib maxString maxItems t.text).isSome :=
        isSome_jsonForLog_iff.mpr ⟨v, hdecode, hshrink maxString maxItems⟩
      obtain ⟨shown, hshown⟩ := Option.isSome_iff_exists.mp hread
      unfold formatBodyForLog
      rw [jsonForLog_blanked lib maxString maxItems hblanked, hshown]
    · rw [Document.eq_of_blanked_eq hblanked hnone]

end

/-! ### A number out of range -/

/-- `lower`, of ASCII letters only. -/
def asciiLower (s : List Char) : List Char := s.map Char.toLower

/-- A library that raises, as the real one does on a number out of range. -/
def outOfRange : Library (isSensitiveKey asciiLower) where
  decode _ := none
  encode _ := some []
  calls := 1000
  decode_value _ _ h := by cases h
  decode_blanked _ _ _ := rfl
  encodes _ _ _ _ _ := rfl

def unblank : Blank := ⟨[], by simp⟩

def label (key : StringText) : Label := ⟨unblank, key, unblank, unblank, unblank⟩

def letter (c : Char) (h : 0x20 ≤ c.toNat ∧ c ≠ '"' ∧ c ≠ '\\') : CharText := .plain c h

/-- A password, and a number that is out of range. -/
def signIn (password : StringText) : Document :=
  ⟨unblank, .object unblank
    (.cons (label [letter 'p' (by decide), letter 'w' (by decide), letter 'd' (by decide)]) (.string password)
      (.cons (label [letter 'n' (by decide)]) (.number ⟨"1e400".toList, by decide⟩) .nil)), unblank⟩

def rose : StringText := [letter 'r' (by decide), letter 'o' (by decide), letter 's' (by decide), letter 'e' (by decide)]

def elm : StringText := [letter 'e' (by decide), letter 'l' (by decide), letter 'm' (by decide)]

/-- The two passwords are shown. -/
theorem password_shown :
    (signIn elm).blanked (isSensitiveKey asciiLower) = (signIn rose).blanked (isSensitiveKey asciiLower) ∧
    String.ofList (formatBodyForLog outOfRange 4000 256 50 (signIn rose).text) = "\x7b\"pwd\":\"rose\",\"n\":1e400\x7d" ∧
    String.ofList (formatBodyForLog outOfRange 4000 256 50 (signIn elm).text) = "\x7b\"pwd\":\"elm\",\"n\":1e400\x7d" ∧
    ¬ KeptBack outOfRange (signIn rose) := by
  have hrose : String.ofList (formatBodyForLog outOfRange 4000 256 50 (signIn rose).text) =
      "\x7b\"pwd\":\"rose\",\"n\":1e400\x7d" := by decide
  have helm : String.ofList (formatBodyForLog outOfRange 4000 256 50 (signIn elm).text) =
      "\x7b\"pwd\":\"elm\",\"n\":1e400\x7d" := by decide
  have hblanked : (signIn elm).blanked (isSensitiveKey asciiLower) = (signIn rose).blanked (isSensitiveKey asciiLower) := rfl
  refine ⟨hblanked, hrose, helm, ?_⟩
  intro hkept
  rw [← hkept 4000 256 50 (signIn elm) hblanked, helm] at hrose
  revert hrose
  decide

end PyAppRunner.Requests
