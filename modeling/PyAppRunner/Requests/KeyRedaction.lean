import PyAppRunner.Requests.BodyLog

/-! Redaction by key: what the log and Sentry are given of a structured value.

`shrink_json` builds a new value, and so does `_scrubbed_copy`; `scrub_dict` masks the top
level in place and puts copies below. All three decide by the key alone, and go no further
where it is sensitive, so what is stored there makes no difference to them. Of the rest
`shrink_json` shortens strings and lists, and the scrubber changes nothing.

A list is nothing to `scrub_dict`: it is left as it is (`list_not_scrubbed`), and
`scrub_request` gives a list body to `_scrubbed_copy` for that reason. -/
namespace PyAppRunner.Requests
open Base Base.Json Base.Text

/-! ### The log -/

/-- `safe_decode` of a decoded value. -/
def safeDecode (repr : Value → List Char) : Value → List Char
  | .string s => s
  | v => repr v

/-- `format_response_for_log`; where a call raises it does too. -/
def formatResponseForLog (sensitive : List Char → Bool) (encode : Value → Option (List Char)) (repr : Value → List Char)
    (calls : Nat) (maxChars shrinkStringsTo capListItems : Int) (response : Value) : Option (List Char) :=
  match response with
  | .object _ | .array _ =>
    ((shrinkJson sensitive shrinkStringsTo capListItems calls response).bind encode).map fun text =>
      truncateMiddle text maxChars
  | _ => some (truncateMiddle (safeDecode repr response) maxChars)

/-! ### Sentry -/

/-- A value with some of it masked. -/
inductive Scrubbed where
  | null
  | bool (b : Bool)
  | number (literal : List Char)
  | string (s : List Char)
  | array (items : List Scrubbed)
  | object (entries : List (List Char × Scrubbed))
  /-- `AnnotatedValue.substituted_because_contains_sensitive_data`. -/
  | filtered

mutual
/-- Nothing of it masked. -/
def plain : Value → Scrubbed
  | .array items => .array (plainItems items)
  | .object entries => .object (plainEntries entries)
  | .null => .null
  | .bool b => .bool b
  | .number literal => .number literal
  | .string s => .string s

def plainItems : List Value → List Scrubbed
  | [] => []
  | v :: rest => plain v :: plainItems rest

def plainEntries : List (List Char × Value) → List (List Char × Scrubbed)
  | [] => []
  | (key, v) :: rest => (key, plain v) :: plainEntries rest
end

/-- The settings of the scrubber. -/
structure SensitiveKeyScrubber where
  /-- In lower case. -/
  denylist : List (List Char)
  recursive : Bool

/-- The keys whose values are masked. -/
def SensitiveKeyScrubber.masks (lower : List Char → List Char) (scrubber : SensitiveKeyScrubber) (key : List Char) : Bool :=
  scrubber.denylist.contains (lower key) || isSensitiveKey lower key

section
variable (lower : List Char → List Char) (scrubber : SensitiveKeyScrubber)

mutual
/-- `scrub_dict`: what it leaves of its argument. The number is of the calls that may still be
nested; with none left, `RecursionError` is raised. -/
def scrubDict : Nat → Value → Option Scrubbed
  | 0, _ => none
  | calls + 1, .object entries =>
    (entries.mapM fun e =>
      if scrubber.masks lower e.1 then some (e.1, .filtered)
      else if scrubber.recursive && e.2.isContainer then (scrubbedCopy calls e.2).map fun v => (e.1, v)
      else some (e.1, plain e.2)).map .object
  | _ + 1, v => some (plain v)

/-- `_scrubbed_copy`. -/
def scrubbedCopy : Nat → Value → Option Scrubbed
  | 0, _ => none
  | calls + 1, .object entries => scrubDict calls (.object entries)
  | calls + 1, .array items => (items.mapM (scrubbedCopy calls)).map .array
  | _ + 1, v => some (plain v)
end

end
/-! ### Under sensitive keys -/

section
variable {sensitive : List Char → Bool}

/-- **Shortening sees nothing of what is under a sensitive key.** -/
theorem shrinkJson_eq_blanked (maxString maxItems : Int) (calls : Nat) (v : Value) :
    shrinkJson sensitive maxString maxItems calls v = shrinkJson sensitive maxString maxItems calls (v.blanked sensitive) := by
  induction calls generalizing v with
  | zero => rfl
  | succ calls ih =>
    cases v with
    | null => rfl
    | bool b => rfl
    | number literal => rfl
    | string s => rfl
    | array items =>
      have hitems : List.Forall₂ _ items (blankedItems sensitive items) := items_blanked items
      simp only [Value.blanked, shrinkJson]
      rw [hitems.length_eq, mapM_congr _ (forall₂_sliceTo hitems maxItems)]
      intro v v' hv
      rw [hv, ← ih]
    | object entries =>
      simp only [Value.blanked, shrinkJson]
      rw [mapM_congr _ (value_entries_blanked entries)]
      intro e e' he
      obtain ⟨hkey, hsensitive | hvalue⟩ := he
      · rw [hkey, if_pos hsensitive, if_pos hsensitive]
      · rw [hkey, hvalue, ← ih]

/-- So neither does the log line of a response. -/
theorem formatResponseForLog_eq_blanked (encode : Value → Option (List Char)) (repr : Value → List Char) (calls : Nat)
    (maxChars maxString maxItems : Int) (v : Value) :
    formatResponseForLog sensitive encode repr calls maxChars maxString maxItems v =
      formatResponseForLog sensitive encode repr calls maxChars maxString maxItems (v.blanked sensitive) := by
  have hshrink : shrinkJson sensitive maxString maxItems calls v = _ := shrinkJson_eq_blanked maxString maxItems calls v
  cases v with
  | array items =>
    unfold formatResponseForLog
    dsimp only
    rw [hshrink]
    rfl
  | object entries =>
    unfold formatResponseForLog
    dsimp only
    rw [hshrink]
    rfl
  | _ => rfl

end

section
variable {lower : List Char → List Char} {denylist : List (List Char)}

/-- What is sensitive is masked, whatever the denylist adds. -/
theorem masks_of_sensitive {scrubber : SensitiveKeyScrubber} {key : List Char} (h : isSensitiveKey lower key = true) :
    scrubber.masks lower key = true := by
  rw [SensitiveKeyScrubber.masks, h, Bool.or_true]

/-- What a scrubber that goes below makes of an entry. -/
theorem scrubDict_object (calls : Nat) (entries : List (List Char × Value)) :
    scrubDict lower ⟨denylist, true⟩ (calls + 1) (.object entries) =
      (entries.mapM fun e =>
        if SensitiveKeyScrubber.masks lower ⟨denylist, true⟩ e.1 then some (e.1, .filtered)
        else if e.2.isContainer then (scrubbedCopy lower ⟨denylist, true⟩ calls e.2).map fun v => (e.1, v)
        else some (e.1, plain e.2)).map .object := by
  rw [scrubDict]
  simp only [Bool.true_and]

/-- **Scrubbing sees nothing of it either.** -/
theorem scrubbed_eq_blanked (calls : Nat) :
    (∀ entries, scrubDict lower ⟨denylist, true⟩ calls (.object entries) =
      scrubDict lower ⟨denylist, true⟩ calls ((Value.object entries).blanked (isSensitiveKey lower))) ∧
    ∀ v, scrubbedCopy lower ⟨denylist, true⟩ calls v =
      scrubbedCopy lower ⟨denylist, true⟩ calls (v.blanked (isSensitiveKey lower)) := by
  induction calls with
  | zero => exact ⟨fun _ => rfl, fun _ => rfl⟩
  | succ calls ih =>
    constructor
    · intro entries
      rw [Value.blanked, scrubDict_object, scrubDict_object, mapM_congr _ (value_entries_blanked entries)]
      intro e e' he
      obtain ⟨hkey, hvalue⟩ := he
      rw [hkey]
      by_cases hmasks : SensitiveKeyScrubber.masks lower ⟨denylist, true⟩ e.1 = true
      · rw [if_pos hmasks, if_pos hmasks]
      · have hsame := hvalue.resolve_left fun hsensitive => hmasks (masks_of_sensitive hsensitive)
        rw [if_neg hmasks, if_neg hmasks, hsame, isContainer_blanked]
        cases hcontainer : e.2.isContainer with
        | true => rw [if_pos rfl, if_pos rfl, ← ih.2]
        | false => rw [blanked_of_not_container hcontainer]
    · intro v
      cases v with
      | array items =>
        have hitems : List.Forall₂ _ items (blankedItems (isSensitiveKey lower) items) := items_blanked items
        rw [Value.blanked, scrubbedCopy, scrubbedCopy, mapM_congr _ hitems]
        intro v v' hv
        rw [hv, ← ih.2]
      | object entries =>
        have hdict := ih.1 entries
        rw [Value.blanked] at hdict ⊢
        rw [scrubbedCopy, scrubbedCopy, hdict]
      | _ => rfl

end

/-! ### Elsewhere -/

/-- The same steps into a value with some of it masked. -/
def Scrubbed.look : List Step → Scrubbed → Option Scrubbed
  | [], v => some v
  | .key name :: path, .object entries => (entries.lookup name).bind (Scrubbed.look path)
  | .item i :: path, .array items => items[i]?.bind (Scrubbed.look path)
  | _ :: _, _ => none

/-- The keys of a dict. -/
def Scrubbed.keys : Scrubbed → List (List Char)
  | .object entries => entries.map Prod.fst
  | _ => []

/-- The length of a list. -/
def Scrubbed.width : Scrubbed → Nat
  | .object entries => entries.length
  | .array items => items.length
  | _ => 0

theorem forall₂_mapM {α β : Type} {f : α → Option β} {as : List α} {bs : List β} (h : as.mapM f = some bs) :
    List.Forall₂ (fun a b => f a = some b) as bs := by
  induction as generalizing bs with
  | nil =>
    cases h
    exact .nil
  | cons a rest ih =>
    rw [List.mapM_cons] at h
    cases ha : f a with
    | none =>
      rw [ha] at h
      cases h
    | some b =>
      cases hrest : rest.mapM f with
      | none =>
        rw [ha, hrest] at h
        cases h
      | some more =>
        rw [ha, hrest] at h
        cases h
        exact .cons ha (ih hrest)

theorem forall₂_getElem? {α β : Type} {R : α → β → Prop} {as : List α} {bs : List β} (h : List.Forall₂ R as bs) {i : Nat}
    {a : α} (ha : as[i]? = some a) : ∃ b, bs[i]? = some b ∧ R a b := by
  induction h generalizing i with
  | nil => cases ha
  | cons hab hrest ih =>
    cases i with
    | zero =>
      cases ha
      exact ⟨_, rfl, hab⟩
    | succ i => exact ih ha

theorem forall₂_lookup {α β : Type} {R : List Char × α → List Char × β → Prop} {entries : List (List Char × α)}
    {entries' : List (List Char × β)} (h : List.Forall₂ R entries entries') (hkey : ∀ e e', R e e' → e'.1 = e.1)
    {key : List Char} {a : α} (ha : entries.lookup key = some a) :
    ∃ b, entries'.lookup key = some b ∧ R (key, a) (key, b) := by
  induction h with
  | nil => cases ha
  | @cons e e' rest rest' he hrest ih =>
    rw [List.lookup_cons] at ha ⊢
    rw [hkey e e' he]
    cases hfound : key == e.1 with
    | true =>
      rw [hfound] at ha
      cases ha
      have hname : e = (key, e.2) ∧ e' = (key, e'.2) := by
        rw [beq_iff_eq.mp hfound]
        exact ⟨rfl, Prod.ext (hkey e e' he) rfl⟩
      exact ⟨e'.2, rfl, hname.1 ▸ hname.2 ▸ he⟩
    | false =>
      rw [hfound] at ha
      exact ih ha

theorem map_fst_eq {α β : Type} {R : List Char × α → List Char × β → Prop} {entries : List (List Char × α)}
    {entries' : List (List Char × β)} (h : List.Forall₂ R entries entries') (hkey : ∀ e e', R e e' → e'.1 = e.1) :
    entries'.map Prod.fst = entries.map Prod.fst := by
  induction h with
  | nil => rfl
  | cons he _ ih => rw [List.map_cons, List.map_cons, ih, hkey _ _ he]

section
variable {sensitive : List Char → Bool} {maxString maxItems : Int}

/-- A shortened object keeps its keys, and the values under the others are shortened. -/
theorem shrinkJson_entries {calls : Nat} {entries : List (List Char × Value)} {w : Value}
    (h : shrinkJson sensitive maxString maxItems (calls + 1) (.object entries) = some w) :
    ∃ entries', w = .object entries' ∧ List.Forall₂ (fun e e' => e'.1 = e.1 ∧ (sensitive e.1 = false →
      shrinkJson sensitive maxString maxItems calls e.2 = some e'.2)) entries entries' := by
  obtain ⟨entries', hentries, rfl⟩ := Option.map_eq_some_iff.mp h
  refine ⟨entries', rfl, (forall₂_mapM hentries).imp ?_⟩
  intro e e' he
  split at he
  · next hsensitive =>
    cases he
    exact ⟨rfl, fun hnot => absurd hsensitive (by simp [hnot])⟩
  · obtain ⟨v, hv, rfl⟩ := Option.map_eq_some_iff.mp he
    exact ⟨rfl, fun _ => hv⟩

/-- A shortened list keeps its first items, and says how many are gone. -/
theorem shrinkJson_items {calls : Nat} {items : List Value} {w : Value}
    (h : shrinkJson sensitive maxString maxItems (calls + 1) (.array items) = some w) :
    ∃ trimmed marker, w = .array (trimmed ++ marker) ∧ List.Forall₂ (fun v v' =>
      shrinkJson sensitive maxString maxItems calls v = some v') (sliceTo items maxItems) trimmed := by
  obtain ⟨trimmed, htrimmed, rfl⟩ := Option.map_eq_some_iff.mp h
  by_cases hmore : (items.length : Int) > maxItems
  · exact ⟨trimmed, _, by rw [if_pos hmore], forall₂_mapM htrimmed⟩
  · exact ⟨trimmed, [], by rw [if_neg hmore, List.append_nil], forall₂_mapM htrimmed⟩

/-- A value that is reached is shrunk where it was. -/
theorem shrinkJson_look {calls : Nat} {v w x : Value} {path : List Step}
    (h : shrinkJson sensitive maxString maxItems calls v = some w)
    (hx : v.look sensitive (fun items => sliceTo items maxItems) path = some x) :
    ∃ calls' y, w.look (fun _ => false) id path = some y ∧ shrinkJson sensitive maxString maxItems calls' x = some y := by
  induction path generalizing calls v w with
  | nil =>
    cases hx
    exact ⟨calls, w, rfl, h⟩
  | cons s path ih =>
    cases calls with
    | zero => cases h
    | succ calls =>
      cases v with
      | object entries =>
        cases s with
        | item i => cases hx
        | key name =>
          obtain ⟨entries', rfl, hentries⟩ := shrinkJson_entries h
          rw [Value.look] at hx ⊢
          split at hx
          · cases hx
          · next hname =>
            obtain ⟨u, hu, hx⟩ := Option.bind_eq_some_iff.mp hx
            obtain ⟨u', hu', -, hshrink⟩ := forall₂_lookup hentries (fun _ _ he => he.1) hu
            rw [if_neg Bool.false_ne_true, hu']
            exact ih (hshrink (by simpa using hname)) hx
      | array items =>
        cases s with
        | key name => cases hx
        | item i =>
          obtain ⟨trimmed, marker, rfl, hitems⟩ := shrinkJson_items h
          rw [Value.look] at hx ⊢
          obtain ⟨u, hu, hx⟩ := Option.bind_eq_some_iff.mp hx
          obtain ⟨u', hu', hshrink⟩ := forall₂_getElem? hitems hu
          have hmarked : (trimmed ++ marker)[i]? = some u' := by
            rw [List.getElem?_append_left (List.getElem?_eq_some_iff.mp hu').1, hu']
          rw [id, hmarked]
          exact ih hshrink hx
      | _ => cases s <;> cases hx

/-- An object keeps its keys, and what is no string, list or object is kept. -/
theorem shrinkJson_keeps {calls : Nat} {v w : Value} (h : shrinkJson sensitive maxString maxItems calls v = some w) :
    w.keys = v.keys ∧ (v.isAtom = true → w = v) := by
  cases calls with
  | zero => cases h
  | succ calls =>
    cases v with
    | object entries =>
      obtain ⟨entries', rfl, hentries⟩ := shrinkJson_entries h
      exact ⟨map_fst_eq hentries fun _ _ he => he.1, fun hatom => by cases hatom⟩
    | array items =>
      obtain ⟨trimmed, marker, rfl, -⟩ := shrinkJson_items h
      exact ⟨rfl, fun hatom => by cases hatom⟩
    | string s =>
      cases h
      exact ⟨rfl, fun hatom => by cases hatom⟩
    | null | bool b | number literal =>
      cases h
      exact ⟨rfl, fun _ => rfl⟩

end

section
variable {lower : List Char → List Char} {denylist : List (List Char)}

/-- A scrubbed dict keeps its keys. -/
theorem scrubDict_entries {calls : Nat} {entries : List (List Char × Value)} {w : Scrubbed}
    (h : scrubDict lower ⟨denylist, true⟩ (calls + 1) (.object entries) = some w) :
    ∃ entries', w = .object entries' ∧ List.Forall₂ (fun e e' => e'.1 = e.1 ∧
      (SensitiveKeyScrubber.masks lower ⟨denylist, true⟩ e.1 = false →
        ∃ calls', scrubbedCopy lower ⟨denylist, true⟩ calls' e.2 = some e'.2)) entries entries' := by
  rw [scrubDict_object] at h
  obtain ⟨entries', hentries, rfl⟩ := Option.map_eq_some_iff.mp h
  refine ⟨entries', rfl, (forall₂_mapM hentries).imp ?_⟩
  intro e e' he
  split at he
  · next hmasks =>
    cases he
    exact ⟨rfl, fun hnot => absurd hmasks (by simp [hnot])⟩
  · split at he
    · obtain ⟨v, hv, rfl⟩ := Option.map_eq_some_iff.mp he
      exact ⟨rfl, fun _ => ⟨calls, hv⟩⟩
    · next hcontainer =>
      cases he
      refine ⟨rfl, fun _ => ⟨1, ?_⟩⟩
      cases hv : e.2 with
      | array items => simp [hv, Value.isContainer] at hcontainer
      | object entries => simp [hv, Value.isContainer] at hcontainer
      | _ => rfl

/-- What a copy of an object is, with the calls it takes. -/
theorem scrubbedCopy_entries {calls : Nat} {entries : List (List Char × Value)} {w : Scrubbed}
    (h : scrubbedCopy lower ⟨denylist, true⟩ calls (.object entries) = some w) :
    ∃ entries', w = .object entries' ∧ List.Forall₂ (fun e e' => e'.1 = e.1 ∧
      (SensitiveKeyScrubber.masks lower ⟨denylist, true⟩ e.1 = false →
        ∃ calls', scrubbedCopy lower ⟨denylist, true⟩ calls' e.2 = some e'.2)) entries entries' := by
  match calls with
  | 0 => cases h
  | 1 => cases h
  | calls + 2 => exact scrubDict_entries h

/-- A scrubbed list keeps its length. -/
theorem scrubbedCopy_items {calls : Nat} {items : List Value} {w : Scrubbed}
    (h : scrubbedCopy lower ⟨denylist, true⟩ calls (.array items) = some w) :
    ∃ items', w = .array items' ∧ List.Forall₂ (fun v v' =>
      ∃ calls', scrubbedCopy lower ⟨denylist, true⟩ calls' v = some v') items items' := by
  cases calls with
  | zero => cases h
  | succ calls =>
    obtain ⟨items', hitems, rfl⟩ := Option.map_eq_some_iff.mp h
    exact ⟨items', rfl, (forall₂_mapM hitems).imp fun _ _ hv => ⟨calls, hv⟩⟩

/-- What is seen along a path past no masked key is the copy of what was there. -/
theorem scrubbedCopy_look {calls : Nat} {v x : Value} {w : Scrubbed} {path : List Step}
    (h : scrubbedCopy lower ⟨denylist, true⟩ calls v = some w)
    (hx : v.look (SensitiveKeyScrubber.masks lower ⟨denylist, true⟩) id path = some x) :
    ∃ calls' y, w.look path = some y ∧ scrubbedCopy lower ⟨denylist, true⟩ calls' x = some y := by
  induction path generalizing calls v w with
  | nil =>
    cases hx
    exact ⟨calls, w, rfl, h⟩
  | cons s path ih =>
    cases v with
    | object entries =>
      cases s with
      | item i => cases hx
      | key name =>
        obtain ⟨entries', rfl, hentries⟩ := scrubbedCopy_entries h
        rw [Value.look] at hx
        rw [Scrubbed.look]
        split at hx
        · cases hx
        · next hname =>
          obtain ⟨u, hu, hx⟩ := Option.bind_eq_some_iff.mp hx
          obtain ⟨u', hu', -, hscrub⟩ := forall₂_lookup hentries (fun _ _ he => he.1) hu
          obtain ⟨calls', hcopy⟩ := hscrub (by simpa using hname)
          rw [hu']
          exact ih hcopy hx
    | array items =>
      cases s with
      | key name => cases hx
      | item i =>
        obtain ⟨items', rfl, hitems⟩ := scrubbedCopy_items h
        rw [Value.look] at hx
        rw [Scrubbed.look]
        obtain ⟨u, hu, hx⟩ := Option.bind_eq_some_iff.mp hx
        obtain ⟨u', hu', calls', hcopy⟩ := forall₂_getElem? hitems hu
        rw [hu']
        exact ih hcopy hx
    | _ => cases s <;> cases hx

theorem eq_map_of_forall₂ {α β : Type} {R : α → β → Prop} {f : α → β} {as : List α} {bs : List β} (h : List.Forall₂ R as bs)
    (hf : ∀ a ∈ as, ∀ b, R a b → b = f a) : bs = as.map f := by
  induction h with
  | nil => rfl
  | cons hab _ ih =>
    rw [List.forall_mem_cons] at hf
    rw [List.map_cons, ← hf.1 _ hab, ← ih hf.2]

theorem plainItems_eq (items : List Value) : plainItems items = items.map plain := by
  induction items with
  | nil => rfl
  | cons v rest ih => rw [plainItems, ih, List.map_cons]

theorem plainEntries_eq (entries : List (List Char × Value)) :
    plainEntries entries = entries.map fun e => (e.1, plain e.2) := by
  induction entries with
  | nil => rfl
  | cons e rest ih => rw [plainEntries, ih, List.map_cons]

/-- Without a key that is masked nothing is. -/
theorem scrubbedCopy_plain {calls : Nat} {v : Value} {w : Scrubbed}
    (hnone : v.holds (SensitiveKeyScrubber.masks lower ⟨denylist, true⟩) = false)
    (h : scrubbedCopy lower ⟨denylist, true⟩ calls v = some w) : w = plain v := by
  -- On how deep the value is nested, whatever the calls.
  obtain ⟨n, hn⟩ : ∃ n, v.depth ≤ n := ⟨_, Nat.le_refl _⟩
  induction n generalizing calls v w with
  | zero => cases v <;> simp [Value.depth] at hn
  | succ n ih =>
    cases v with
    | object entries =>
      obtain ⟨entries', rfl, hentries⟩ := scrubbedCopy_entries h
      rw [Value.holds, holdsEntries_eq_false] at hnone
      rw [Value.depth] at hn
      rw [plain, plainEntries_eq]
      congr 1
      apply eq_map_of_forall₂ hentries
      rintro e he e' ⟨hkey, hcopy⟩
      obtain ⟨calls', hcopy⟩ := hcopy (hnone e he).1
      have hdepth := depth_le_entries he
      have hvalue : e'.2 = plain e.2 := ih (hnone e he).2 hcopy (by omega)
      exact Prod.ext hkey hvalue
    | array items =>
      obtain ⟨items', rfl, hitems⟩ := scrubbedCopy_items h
      rw [Value.holds, holdsItems_eq_false] at hnone
      rw [Value.depth] at hn
      rw [plain, plainItems_eq]
      congr 1
      apply eq_map_of_forall₂ hitems
      rintro u hu u' ⟨calls', hcopy⟩
      have hdepth := depth_le_items hu
      exact ih (hnone u hu) hcopy (by omega)
    | _ =>
      cases calls with
      | zero => cases h
      | succ calls =>
        cases h
        rfl

/-- Nothing is left out, and nothing comes in. -/
theorem scrubbedCopy_keeps {calls : Nat} {v : Value} {w : Scrubbed}
    (h : scrubbedCopy lower ⟨denylist, true⟩ calls v = some w) : w.keys = v.keys ∧ w.width = v.width := by
  cases v with
  | object entries =>
    obtain ⟨entries', rfl, hentries⟩ := scrubbedCopy_entries h
    exact ⟨map_fst_eq hentries fun _ _ he => he.1, hentries.length_eq.symm⟩
  | array items =>
    obtain ⟨items', rfl, hitems⟩ := scrubbedCopy_items h
    exact ⟨rfl, hitems.length_eq.symm⟩
  | _ =>
    cases calls with
    | zero => cases h
    | succ calls =>
      cases h
      exact ⟨rfl, rfl⟩

end

/-! ### With enough calls -/

/-- A value that is nested no deeper than the calls that are left comes out. -/
theorem isSome_shrinkJson_of_depth {sensitive : List Char → Bool} (maxString maxItems : Int) {calls : Nat} {v : Value}
    (h : v.depth ≤ calls) : (shrinkJson sensitive maxString maxItems calls v).isSome := by
  induction calls generalizing v with
  | zero => cases v <;> simp [Value.depth] at h
  | succ calls ih =>
    cases v with
    | array items =>
      rw [Value.depth] at h
      rw [shrinkJson, Option.isSome_map, isSome_mapM, List.all_eq_true]
      intro u hu
      have hmem : u ∈ items := by
        unfold sliceTo at hu
        split at hu <;> exact List.mem_of_mem_take hu
      have hdepth := depth_le_items hmem
      exact ih (by omega)
    | object entries =>
      rw [Value.depth] at h
      rw [shrinkJson, Option.isSome_map, isSome_mapM, List.all_eq_true]
      intro e he
      have hdepth := depth_le_entries he
      split
      · rfl
      · rw [Option.isSome_map]
        exact ih (by omega)
    | _ => rfl

section
variable {lower : List Char → List Char} {denylist : List (List Char)}

/-- A dict takes two calls, one of each function. -/
theorem isSome_scrubbed {n : Nat} {v : Value} (h : v.depth ≤ n) :
    (∀ calls, 2 * n ≤ calls + 1 → (scrubDict lower ⟨denylist, true⟩ calls v).isSome) ∧
    ∀ calls, 2 * n ≤ calls → (scrubbedCopy lower ⟨denylist, true⟩ calls v).isSome := by
  induction n generalizing v with
  | zero => cases v <;> simp [Value.depth] at h
  | succ n ih =>
    have hdict : ∀ calls, 2 * (n + 1) ≤ calls + 1 → (scrubDict lower ⟨denylist, true⟩ calls v).isSome := by
      intro calls hcalls
      obtain ⟨calls, rfl⟩ : ∃ c, calls = c + 1 := ⟨calls - 1, by omega⟩
      cases v with
      | object entries =>
        rw [Value.depth] at h
        rw [scrubDict_object, Option.isSome_map, isSome_mapM, List.all_eq_true]
        intro e he
        have hdepth := depth_le_entries he
        split
        · rfl
        · split
          · rw [Option.isSome_map]
            have hentry : e.2.depth ≤ n := by omega
            exact (ih hentry).2 calls (by omega)
          · rfl
      | _ => rfl
    refine ⟨hdict, fun calls hcalls => ?_⟩
    obtain ⟨calls, rfl⟩ : ∃ c, calls = c + 1 := ⟨calls - 1, by omega⟩
    cases v with
    | object entries => exact hdict calls (by omega)
    | array items =>
      rw [Value.depth] at h
      rw [scrubbedCopy, Option.isSome_map, isSome_mapM, List.all_eq_true]
      intro u hu
      have hdepth := depth_le_items hu
      have hitem : u.depth ≤ n := by omega
      exact (ih hitem).2 calls (by omega)
    | _ => rfl

end

/-! ### The two together -/

/-- What is left of an object, by `scrub_dict` or in a copy, and of any value in a copy. -/
def ScrubsTo (lower : List Char → List Char) (scrubber : SensitiveKeyScrubber) (calls : Nat) (v : Value) (w : Scrubbed) :
    Prop :=
  scrubbedCopy lower scrubber calls v = some w ∨ v.isObject = true ∧ scrubDict lower scrubber calls v = some w

/-- **Redaction hides what is under sensitive keys, and nothing else is changed** but by the limits
of the log. -/
theorem redacted_by_key (lower : List Char → List Char) (denylist : List (List Char))
    (encode : Value → Option (List Char)) (repr : Value → List Char) :
    (∀ v v' : Value, v.blanked (isSensitiveKey lower) = v'.blanked (isSensitiveKey lower) → ∀ calls,
      (∀ maxString maxItems, shrinkJson (isSensitiveKey lower) maxString maxItems calls v =
        shrinkJson (isSensitiveKey lower) maxString maxItems calls v') ∧
      (∀ maxChars maxString maxItems,
        formatResponseForLog (isSensitiveKey lower) encode repr calls maxChars maxString maxItems v =
          formatResponseForLog (isSensitiveKey lower) encode repr calls maxChars maxString maxItems v') ∧
      (v.isObject = true →
        scrubDict lower ⟨denylist, true⟩ calls v = scrubDict lower ⟨denylist, true⟩ calls v') ∧
      scrubbedCopy lower ⟨denylist, true⟩ calls v = scrubbedCopy lower ⟨denylist, true⟩ calls v') ∧
    (∀ calls v w, ScrubsTo lower ⟨denylist, true⟩ calls v w → ∀ path x,
      v.look (SensitiveKeyScrubber.masks lower ⟨denylist, true⟩) id path = some x →
      ∃ y, w.look path = some y ∧ y.keys = x.keys ∧ y.width = x.width ∧
        (x.holds (SensitiveKeyScrubber.masks lower ⟨denylist, true⟩) = false → y = plain x)) ∧
    (∀ calls maxString maxItems v w, shrinkJson (isSensitiveKey lower) maxString maxItems calls v = some w → ∀ path x,
      v.look (isSensitiveKey lower) (fun items => sliceTo items maxItems) path = some x →
      ∃ y, w.look (fun _ => false) id path = some y ∧ y.keys = x.keys ∧ (x.isAtom = true → y = x)) ∧
    ∀ calls (v : Value), 2 * v.depth ≤ calls →
      (∀ maxString maxItems, (shrinkJson (isSensitiveKey lower) maxString maxItems calls v).isSome) ∧
      (scrubDict lower ⟨denylist, true⟩ calls v).isSome ∧ (scrubbedCopy lower ⟨denylist, true⟩ calls v).isSome := by
  -- What is hidden, what is kept by either way of redacting, and that enough calls give a result.
  refine ⟨?_, ?_, ?_, ?_⟩
  · intro v v' hblanked calls
    refine ⟨fun maxString maxItems => ?_, fun maxChars maxString maxItems => ?_, fun hobject => ?_, ?_⟩
    · rw [shrinkJson_eq_blanked, hblanked, ← shrinkJson_eq_blanked]
    · rw [formatResponseForLog_eq_blanked, hblanked, ← formatResponseForLog_eq_blanked]
    · have hobject' : v'.isObject = true := by
        rw [← isObject_blanked v', ← hblanked, isObject_blanked, hobject]
      cases v with
      | object entries =>
        cases v' with
        | object entries' =>
          rw [(scrubbed_eq_blanked calls).1, hblanked, ← (scrubbed_eq_blanked calls).1]
        | _ => cases hobject'
      | _ => cases hobject
    · rw [(scrubbed_eq_blanked calls).2, hblanked, ← (scrubbed_eq_blanked calls).2]
  · intro calls v w hscrubs path x hx
    have hcopy : ∃ calls', scrubbedCopy lower ⟨denylist, true⟩ calls' v = some w := by
      obtain hcopy | ⟨hobject, hdict⟩ := hscrubs
      · exact ⟨calls, hcopy⟩
      · cases v with
        | object entries => exact ⟨calls + 1, hdict⟩
        | _ => cases hobject
    obtain ⟨calls', hcopy⟩ := hcopy
    obtain ⟨calls'', y, hy, hcopied⟩ := scrubbedCopy_look hcopy hx
    exact ⟨y, hy, (scrubbedCopy_keeps hcopied).1, (scrubbedCopy_keeps hcopied).2, fun hnone => scrubbedCopy_plain hnone hcopied⟩
  · intro calls maxString maxItems v w hshrink path x hx
    obtain ⟨calls', y, hy, hshrunk⟩ := shrinkJson_look hshrink hx
    exact ⟨y, hy, shrinkJson_keeps hshrunk⟩
  · intro calls v hcalls
    have hscrubbed := @isSome_scrubbed lower denylist v.depth v (Nat.le_refl v.depth)
    exact ⟨fun maxString maxItems => isSome_shrinkJson_of_depth maxString maxItems (by omega),
      hscrubbed.1 calls (by omega), hscrubbed.2 calls hcalls⟩

/-! ### A list at the top -/

def signIns (password : String) : Value := .array [.object [("password".toList, .string password.toList)]]

/-- `scrub_dict` leaves a list as it is, passwords in it included. -/
theorem list_not_scrubbed :
    (signIns "rose").blanked (isSensitiveKey asciiLower) = (signIns "elm").blanked (isSensitiveKey asciiLower) ∧
    scrubDict asciiLower ⟨["password".toList], true⟩ 1000 (signIns "rose") = some (plain (signIns "rose")) ∧
    scrubDict asciiLower ⟨["password".toList], true⟩ 1000 (signIns "rose") ≠
      scrubDict asciiLower ⟨["password".toList], true⟩ 1000 (signIns "elm") := by
  refine ⟨rfl, rfl, ?_⟩
  intro hsame
  have hlook : ∀ w : String, ((plain (signIns w)).look [.item 0, .key "password".toList]) = some (.string w.toList) :=
    fun _ => rfl
  have hplain : plain (signIns "rose") = plain (signIns "elm") := Option.some.inj hsame
  have hpassword := (hlook "rose").symm.trans ((congrArg (Scrubbed.look _) hplain).trans (hlook "elm"))
  cases hpassword

end PyAppRunner.Requests
