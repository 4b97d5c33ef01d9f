import PyAppRunner.Base.Heap
import PyAppRunner.Base.Program
import PyAppRunner.Requests.KeyRedaction

/-! The Sentry scrubber on the objects themselves.

An event holds live references into the application's own objects, and the same object may
be in many places of it. `scrub_dict` writes to the dict it is given and to no other: what
is below is replaced by copies. `KeyRedaction` says what becomes of a value; here it is
what becomes of every object there is. -/
namespace PyAppRunner.Requests
open Base

/-- A value that is not a container. -/
inductive Leaf where
  | null
  | bool (b : Bool)
  | number (literal : List Char)
  | string (s : List Char)
  | filtered

/-- A value in an object: an atom, or the address of another object. -/
inductive Ref where
  | leaf (l : Leaf)
  | object (a : Nat)

/-- What is at an address. -/
inductive Obj where
  | dict (d : Dict (List Char) Ref)
  | list (items : List Ref)
  | tuple (items : List Ref)

/-- The objects of the process. -/
abbrev Objects := Heap Obj

/-- With no call left that may be nested, `RecursionError` is raised. -/
abbrev Scrub (α : Type) := Program Objects Unit α

namespace Objects

/-- The object behind a reference. -/
def look (h : Objects) : Ref → Option Obj
  | .object a => h.obj a
  | .leaf _ => none

/-- `isinstance(v, (dict, list, tuple))`. -/
def isContainer (h : Objects) (r : Ref) : Bool := (h.look r).isSome

/-- The entries of a dict. -/
def entries (h : Objects) (a : Nat) : List (List Char × Ref) :=
  match h.obj a with
  | some (.dict d) => d.entries
  | _ => []

/-- `d.get(k)`. -/
def getItem (h : Objects) (a : Nat) (k : List Char) : Option Ref :=
  match h.obj a with
  | some (.dict d) => d.get k
  | _ => none

/-- `d[k] = v`. -/
def setItem (a : Nat) (k : List Char) (v : Ref) (h : Objects) : Objects :=
  match h.obj a with
  | some (.dict d) => h.write a (.dict (d.set k v))
  | _ => h

end Objects

section
variable (lower : List Char → List Char) (scrubber : SensitiveKeyScrubber)

/-- What `scrub_dict` does to an entry of the dict at `a`. -/
def scrubEntry (copy : Ref → Scrub Ref) (a : Nat) (e : List Char × Ref) : Scrub Unit := do
  let h ← Program.get
  if scrubber.masks lower e.1 then Program.modify (Objects.setItem a e.1 (.leaf .filtered))
  else if scrubber.recursive && Objects.isContainer h e.2 then do
    let v ← copy e.2
    Program.modify (Objects.setItem a e.1 v)
  else pure ()

/-- The loop over `d.items()` from its `i`th entry on, which reads the dict as it goes. -/
def scrubFrom (copy : Ref → Scrub Ref) (a : Nat) : Nat → Nat → Scrub Unit
  | _, 0 => pure ()
  | i, todo + 1 => do
    let h ← Program.get
    match (Objects.entries h a)[i]? with
    | none => pure ()
    | some e => do
      scrubEntry lower scrubber copy a e
      scrubFrom copy a (i + 1) todo

mutual
/-- `scrub_dict`. -/
def scrubDictAt : Nat → Ref → Scrub Unit
  | 0, _ => Program.raise ()
  | calls + 1, .object a => do
    let h ← Program.get
    scrubFrom lower scrubber (copyAt calls) a 0 (Objects.entries h a).length
  | _ + 1, .leaf _ => pure ()

/-- `_scrubbed_copy`. -/
def copyAt : Nat → Ref → Scrub Ref
  | 0, _ => Program.raise ()
  | calls + 1, r => do
    let h ← Program.get
    match Objects.look h r with
    | none => pure r
    | some (.dict d) => do
      Program.modify fun h => h.alloc (.dict d)
      scrubDictAt calls (.object h.next)
      pure (.object h.next)
    | some (.list items) | some (.tuple items) => do
      let items ← items.mapM (copyAt calls)
      let h ← Program.get
      Program.modify fun h => h.alloc (.list items)
      pure (.object h.next)
end

/-- One call after the other. -/
def scrubEach (calls : Nat) : List Ref → Scrub Unit
  | [] => pure ()
  | r :: rest => do
    scrubDictAt lower scrubber calls r
    scrubEach calls rest

/-- `scrub_request` past its call of the stock scrubber, which gives a list body to `scrub_dict` in vain. -/
def scrubBody (calls : Nat) (request : Nat) : Scrub Unit := do
  let h ← Program.get
  match Objects.getItem h request "data".toList with
  | none => pure ()
  | some data =>
    match Objects.look h data with
    | some (.list _) => do
      let v ← copyAt lower scrubber calls data
      Program.modify (Objects.setItem request "data".toList v)
    | _ => pure ()

/-- An event. Which objects of it are given to `scrub_dict`, before the body and after it, is for
the stock scrubber to say. -/
def scrubEvent (calls : Nat) (before : List Ref) (request : Nat) (after : List Ref) : Scrub Unit := do
  scrubEach lower scrubber calls before
  scrubBody lower scrubber calls request
  scrubEach lower scrubber calls after

end

/-! ### What is seen of an object -/

mutual
/-- From `r` the value is seen, on objects at addresses with `on`. -/
def Shows (h : Objects) (on : Nat → Prop) : Scrubbed → Ref → Prop
  | .array vs, r => ∃ a items, r = .object a ∧ on a ∧ (h.obj a = some (.list items) ∨ h.obj a = some (.tuple items)) ∧
    ShowsItems h on vs items
  | .object es, r => ∃ a d, r = .object a ∧ on a ∧ h.obj a = some (.dict d) ∧ ShowsEntries h on es d.entries
  | .null, r => r = .leaf .null
  | .bool b, r => r = .leaf (.bool b)
  | .number literal, r => r = .leaf (.number literal)
  | .string s, r => r = .leaf (.string s)
  | .filtered, r => r = .leaf .filtered

def ShowsItems (h : Objects) (on : Nat → Prop) : List Scrubbed → List Ref → Prop
  | [], items => items = []
  | v :: vs, items => ∃ r rest, items = r :: rest ∧ Shows h on v r ∧ ShowsItems h on vs rest

def ShowsEntries (h : Objects) (on : Nat → Prop) : List (List Char × Scrubbed) → List (List Char × Ref) → Prop
  | [], entries => entries = []
  | (k, v) :: es, entries => ∃ r rest, entries = (k, r) :: rest ∧ Shows h on v r ∧ ShowsEntries h on es rest
end

mutual
/-- The value with everything under a masked key masked. -/
def Scrubbed.scrub (masks : List Char → Bool) : Scrubbed → Scrubbed
  | .array vs => .array (scrubItems masks vs)
  | .object es => .object (scrubEntries masks es)
  | .null => .null
  | .bool b => .bool b
  | .number literal => .number literal
  | .string s => .string s
  | .filtered => .filtered

def scrubItems (masks : List Char → Bool) : List Scrubbed → List Scrubbed
  | [] => []
  | v :: vs => v.scrub masks :: scrubItems masks vs

def scrubEntries (masks : List Char → Bool) : List (List Char × Scrubbed) → List (List Char × Scrubbed)
  | [] => []
  | (k, v) :: es => (k, if masks k then .filtered else v.scrub masks) :: scrubEntries masks es
end

mutual
/-- How many calls are nested in a copy of the value. -/
def Scrubbed.calls : Scrubbed → Nat
  | .array vs => callsItems vs + 1
  | .object es => callsEntries es + 2
  | .null | .bool _ | .number _ | .string _ | .filtered => 1

def callsItems : List Scrubbed → Nat
  | [] => 0
  | v :: vs => max v.calls (callsItems vs)

def callsEntries : List (List Char × Scrubbed) → Nat
  | [] => 0
  | (_, v) :: es => max v.calls (callsEntries es)
end

/-! ### Seeing the same -/

variable {h h' : Objects} {on on' : Nat → Prop}

mutual
/-- What is seen is seen still where the objects it is seen on are. -/
theorem Shows.imp (himp : ∀ a o, on a → h.obj a = some o → on' a ∧ h'.obj a = some o) :
    (v : Scrubbed) → {r : Ref} → Shows h on v r → Shows h' on' v r
  | .array vs, r, hv => by
    obtain ⟨a, items, rfl, ha, hobj, hitems⟩ := hv
    obtain hobj | hobj := hobj
    · exact ⟨a, items, rfl, (himp a _ ha hobj).1, .inl (himp a _ ha hobj).2, ShowsItems.imp himp vs hitems⟩
    · exact ⟨a, items, rfl, (himp a _ ha hobj).1, .inr (himp a _ ha hobj).2, ShowsItems.imp himp vs hitems⟩
  | .object es, r, hv => by
    obtain ⟨a, d, rfl, ha, hobj, hentries⟩ := hv
    exact ⟨a, d, rfl, (himp a _ ha hobj).1, (himp a _ ha hobj).2, ShowsEntries.imp himp es hentries⟩
  | .null, _, hv => hv
  | .bool _, _, hv => hv
  | .number _, _, hv => hv
  | .string _, _, hv => hv
  | .filtered, _, hv => hv

theorem ShowsItems.imp (himp : ∀ a o, on a → h.obj a = some o → on' a ∧ h'.obj a = some o) :
    (vs : List Scrubbed) → {items : List Ref} → ShowsItems h on vs items → ShowsItems h' on' vs items
  | [], _, hvs => hvs
  | v :: vs, items, hvs => by
    obtain ⟨r, rest, rfl, hv, hrest⟩ := hvs
    exact ⟨r, rest, rfl, Shows.imp himp v hv, ShowsItems.imp himp vs hrest⟩

theorem ShowsEntries.imp (himp : ∀ a o, on a → h.obj a = some o → on' a ∧ h'.obj a = some o) :
    (es : List (List Char × Scrubbed)) → {entries : List (List Char × Ref)} → ShowsEntries h on es entries →
      ShowsEntries h' on' es entries
  | [], _, hes => hes
  | (k, v) :: es, entries, hes => by
    obtain ⟨r, rest, rfl, hv, hrest⟩ := hes
    exact ⟨r, rest, rfl, Shows.imp himp v hv, ShowsEntries.imp himp es hrest⟩
end

mutual
/-- One reference shows one value. -/
theorem Shows.unique : (v : Scrubbed) → {w : Scrubbed} → {r : Ref} → Shows h on v r → Shows h on' w r → v = w
  -- The object behind a reference is a list or a dict, and its items show one value each.
  | .array vs, w, r, hv, hw => by
    obtain ⟨a, items, rfl, -, hobj, hitems⟩ := hv
    cases w with
    | array ws =>
      obtain ⟨a', items', heq, -, hobj', hitems'⟩ := hw
      cases heq
      obtain rfl : items = items' := by
        obtain hobj | hobj := hobj <;> obtain hobj' | hobj' := hobj' <;> rw [hobj] at hobj' <;> cases hobj'
        · rfl
        · rfl
      rw [ShowsItems.unique vs hitems hitems']
    | object es =>
      obtain ⟨a', d, heq, -, hobj', -⟩ := hw
      cases heq
      obtain hobj | hobj := hobj <;> rw [hobj] at hobj' <;> cases hobj'
    | _ => cases hw
  | .object es, w, r, hv, hw => by
    obtain ⟨a, d, rfl, -, hobj, hentries⟩ := hv
    cases w with
    | array ws =>
      obtain ⟨a', items', heq, -, hobj', -⟩ := hw
      cases heq
      obtain hobj' | hobj' := hobj' <;> rw [hobj] at hobj' <;> cases hobj'
    | object es' =>
      obtain ⟨a', d', heq, -, hobj', hentries'⟩ := hw
      cases heq
      rw [hobj] at hobj'
      cases hobj'
      rw [ShowsEntries.unique es hentries hentries']
    | _ => cases hw
  | .null, w, r, hv, hw => by
    cases hv
    cases w <;> simp_all [Shows]
  | .bool b, w, r, hv, hw => by
    cases hv
    cases w <;> simp_all [Shows]
  | .number l, w, r, hv, hw => by
    cases hv
    cases w <;> simp_all [Shows]
  | .string l, w, r, hv, hw => by
    cases hv
    cases w <;> simp_all [Shows]
  | .filtered, w, r, hv, hw => by
    cases hv
    cases w <;> simp_all [Shows]

theorem ShowsItems.unique : (vs : List Scrubbed) → {ws : List Scrubbed} → {items : List Ref} →
    ShowsItems h on vs items → ShowsItems h on' ws items → vs = ws
  | [], ws, items, hvs, hws => by
    cases hvs
    cases ws with
    | nil => rfl
    | cons w ws =>
      obtain ⟨r, rest, heq, -⟩ := hws
      cases heq
  | v :: vs, ws, items, hvs, hws => by
    obtain ⟨r, rest, rfl, hv, hrest⟩ := hvs
    cases ws with
    | nil => cases hws
    | cons w ws =>
      obtain ⟨r', rest', heq, hw, hrest'⟩ := hws
      cases heq
      rw [Shows.unique v hv hw, ShowsItems.unique vs hrest hrest']

theorem ShowsEntries.unique : (es : List (List Char × Scrubbed)) → {es' : List (List Char × Scrubbed)} →
    {entries : List (List Char × Ref)} → ShowsEntries h on es entries → ShowsEntries h on' es' entries → es = es'
  | [], es', entries, hes, hes' => by
    cases hes
    cases es' with
    | nil => rfl
    | cons e es' =>
      obtain ⟨r, rest, heq, -⟩ := hes'
      cases heq
  | (k, v) :: es, es', entries, hes, hes' => by
    obtain ⟨r, rest, rfl, hv, hrest⟩ := hes
    cases es' with
    | nil => cases hes'
    | cons e es' =>
      obtain ⟨r', rest', heq, hw, hrest'⟩ := hes'
      cases heq
      rw [Shows.unique v hv hw, ShowsEntries.unique es hrest hrest']
end

mutual
/-- What is seen on an object is not seen in itself. -/
theorem Shows.avoids {a : Nat} {es : List (List Char × Scrubbed)} (ha : Shows h on' (.object es) (.object a)) :
    (v : Scrubbed) → {r : Ref} → sizeOf v < sizeOf (Scrubbed.object es) → Shows h on v r → Shows h (fun b => on b ∧ b ≠ a) v r
  | .array vs, r, hsize, hv => by
    obtain ⟨b, items, rfl, hb, hobj, hitems⟩ := hv
    have hne : b ≠ a := by
      rintro rfl
      obtain ⟨a', d, heq, -, hobj', -⟩ := ha
      cases heq
      obtain hobj | hobj := hobj <;> rw [hobj] at hobj' <;> cases hobj'
    refine ⟨b, items, rfl, ⟨hb, hne⟩, hobj, ShowsItems.avoids ha vs ?_ hitems⟩
    simp only [Scrubbed.array.sizeOf_spec] at hsize
    omega
  | .object es', r, hsize, hv => by
    have hne : r ≠ .object a := by
      rintro rfl
      rw [Shows.unique _ hv ha] at hsize
      exact Nat.lt_irrefl _ hsize
    obtain ⟨b, d, rfl, hb, hobj, hentries⟩ := hv
    refine ⟨b, d, rfl, ⟨hb, fun heq => hne (by rw [heq])⟩, hobj, ShowsEntries.avoids ha es' ?_ hentries⟩
    simp only [Scrubbed.object.sizeOf_spec] at hsize ⊢
    omega
  | .null, _, _, hv => hv
  | .bool _, _, _, hv => hv
  | .number _, _, _, hv => hv
  | .string _, _, _, hv => hv
  | .filtered, _, _, hv => hv

theorem ShowsItems.avoids {a : Nat} {es : List (List Char × Scrubbed)} (ha : Shows h on' (.object es) (.object a)) :
    (vs : List Scrubbed) → {items : List Ref} → sizeOf vs < sizeOf (Scrubbed.object es) → ShowsItems h on vs items →
      ShowsItems h (fun b => on b ∧ b ≠ a) vs items
  | [], _, _, hvs => hvs
  | v :: vs, items, hsize, hvs => by
    obtain ⟨r, rest, rfl, hv, hrest⟩ := hvs
    simp only [List.cons.sizeOf_spec] at hsize
    exact ⟨r, rest, rfl, Shows.avoids ha v (by omega) hv, ShowsItems.avoids ha vs (by omega) hrest⟩

theorem ShowsEntries.avoids {a : Nat} {es : List (List Char × Scrubbed)} (ha : Shows h on' (.object es) (.object a)) :
    (es' : List (List Char × Scrubbed)) → {entries : List (List Char × Ref)} → sizeOf es' < sizeOf (Scrubbed.object es) →
      ShowsEntries h on es' entries → ShowsEntries h (fun b => on b ∧ b ≠ a) es' entries
  | [], _, _, hes => hes
  | (k, v) :: es', entries, hsize, hes => by
    obtain ⟨r, rest, rfl, hv, hrest⟩ := hes
    simp only [List.cons.sizeOf_spec, Prod.mk.sizeOf_spec] at hsize
    exact ⟨r, rest, rfl, Shows.avoids ha v (by omega) hv, ShowsEntries.avoids ha es' (by omega) hrest⟩
end

/-! ### What the scrubber does -/

/-- What is seen where nothing has changed. -/
theorem Shows.of_grown {free : Nat → Prop} {v : Scrubbed} {r : Ref} (hv : Shows h on v r) (hg : Heap.Grown free h h')
    (hon : ∀ a, on a → ¬ free a) : Shows h' on v r :=
  hv.imp (fun a _ ha hobj => ⟨ha, (hg.kept a (Heap.lt_next hobj) (hon a ha)).trans hobj⟩) v

theorem ShowsEntries.of_grown {free : Nat → Prop} {es : List (List Char × Scrubbed)} {entries : List (List Char × Ref)}
    (hes : ShowsEntries h on es entries) (hg : Heap.Grown free h h') (hon : ∀ a, on a → ¬ free a) :
    ShowsEntries h' on es entries :=
  hes.imp (fun a _ ha hobj => ⟨ha, (hg.kept a (Heap.lt_next hobj) (hon a ha)).trans hobj⟩) es

/-- A leaf shows itself, and there is nothing in it to mask. -/
theorem Shows.leaf {masks : List Char → Bool} {l : Leaf} : (v : Scrubbed) → Shows h on v (.leaf l) →
    Shows h' on' (v.scrub masks) (.leaf l)
  | .array _, hv => by
    obtain ⟨a, items, heq, -⟩ := hv
    cases heq
  | .object _, hv => by
    obtain ⟨a, d, heq, -⟩ := hv
    cases heq
  | .null, hv => hv
  | .bool _, hv => hv
  | .number _, hv => hv
  | .string _, hv => hv
  | .filtered, hv => hv

/-- An object that shows a value is a container. -/
theorem Shows.isContainer {a : Nat} : (v : Scrubbed) → Shows h on v (.object a) → Objects.isContainer h (.object a) = true
  | .array _, hv => by
    obtain ⟨b, items, heq, -, hobj, -⟩ := hv
    cases heq
    obtain hobj | hobj := hobj
    · simp [Objects.isContainer, Objects.look, hobj]
    · simp [Objects.isContainer, Objects.look, hobj]
  | .object _, hv => by
    obtain ⟨b, d, heq, -, hobj, -⟩ := hv
    cases heq
    simp [Objects.isContainer, Objects.look, hobj]
  | .null, hv => nomatch hv
  | .bool _, hv => nomatch hv
  | .number _, hv => nomatch hv
  | .string _, hv => nomatch hv
  | .filtered, hv => nomatch hv

/-- Only the dict that is written changes, and only under the key. -/
theorem setItem_spec {a : Nat} {d : Dict (List Char) Ref} (hobj : h.obj a = some (.dict d)) (k : List Char) (v : Ref) :
    (Objects.setItem a k v h).obj a = some (.dict (d.set k v)) ∧ Heap.Grown (· = a) h (Objects.setItem a k v h) := by
  have heq : Objects.setItem a k v h = h.write a (.dict (d.set k v)) := by
    unfold Objects.setItem
    rw [hobj]
  rw [heq]
  exact ⟨Heap.obj_write hobj, Heap.grown_write _ rfl⟩

theorem entries_eq {a : Nat} {d : Dict (List Char) Ref} (hobj : h.obj a = some (.dict d)) :
    Objects.entries h a = d.entries := by
  unfold Objects.entries
  rw [hobj]

/-- The copy shows the value masked, on objects of its own, and nothing else has changed. -/
def Copies (masks : List Char → Bool) (copy : Ref → Scrub Ref) (v : Scrubbed) : Prop :=
  ∀ h r, Shows h (fun _ => True) v r → ∃ h' r', copy r h = (h', .ok r') ∧ Heap.Grown (fun _ => False) h h' ∧
    Shows h' (h.next ≤ ·) (v.scrub masks) r'

/-- The dict shows its entries masked, below it on objects of its own, and no other object has changed. -/
def Scrubs (masks : List Char → Bool) (scrub : Ref → Scrub Unit) (es : List (List Char × Scrubbed)) : Prop :=
  ∀ h a, Shows h (fun _ => True) (.object es) (.object a) → ∃ h' d, scrub (.object a) h = (h', .ok ()) ∧
    Heap.Grown (· = a) h h' ∧ h'.obj a = some (.dict d) ∧ ShowsEntries h' (h.next ≤ ·) (scrubEntries masks es) d.entries

section
variable {lower : List Char → List Char} {scrubber : SensitiveKeyScrubber} {copy : Ref → Scrub Ref} {a : Nat}

/-- **One entry.** -/
theorem scrubEntry_spec (hrec : scrubber.recursive = true) {k : List Char} {v : Scrubbed} {r : Ref}
    (hcopy : Copies (scrubber.masks lower) copy v) {d : Dict (List Char) Ref} (hobj : h.obj a = some (.dict d))
    {done rest : List (List Char × Ref)} (hentries : d.entries = done ++ (k, r) :: rest) (hv : Shows h (· ≠ a) v r) :
    ∃ h' d' r', scrubEntry lower scrubber copy a (k, r) h = (h', .ok ()) ∧ Heap.Grown (· = a) h h' ∧
      h'.obj a = some (.dict d') ∧ d'.entries = done ++ (k, r') :: rest ∧
      Shows h' (h.next ≤ ·) (if scrubber.masks lower k then .filtered else v.scrub (scrubber.masks lower)) r' := by
  have hlt : a < h.next := Heap.lt_next hobj
  have hnew : k ∉ done.map Prod.fst := by
    have hnodup := d.nodup
    rw [hentries, List.map_append, List.map_cons] at hnodup
    exact fun hmem => (List.nodup_append.1 hnodup).2.2 k hmem k (List.mem_cons_self ..) rfl
  have hset (r' : Ref) : (d.set k r').entries = done ++ (k, r') :: rest := by
    show putEntry k r' d.entries = _
    rw [hentries, putEntry_append hnew]
  have hrun : scrubEntry lower scrubber copy a (k, r) h =
      (if scrubber.masks lower k then Program.modify (Objects.setItem a k (.leaf .filtered))
        else if scrubber.recursive && Objects.isContainer h r then do
          let v ← copy r
          Program.modify (Objects.setItem a k v)
        else pure ()) h := rfl
  rw [hrun, hrec, Bool.true_and]
  by_cases hmasks : scrubber.masks lower k = true
  · rw [if_pos hmasks, if_pos hmasks]
    obtain ⟨hobj', hgrown⟩ := setItem_spec hobj k (.leaf .filtered)
    exact ⟨_, _, _, rfl, hgrown, hobj', hset _, rfl⟩
  · rw [if_neg hmasks, if_neg hmasks]
    by_cases hcontainer : Objects.isContainer h r = true
    · rw [if_pos hcontainer]
      obtain ⟨h₁, r', hcopied, hgrown₁, hshows⟩ := hcopy h r (hv.imp (fun _ _ _ ho => ⟨trivial, ho⟩) v)
      have hobj₁ : h₁.obj a = some (.dict d) := (hgrown₁.kept a hlt id).trans hobj
      obtain ⟨hobj', hgrown⟩ := setItem_spec hobj₁ k r'
      refine ⟨_, _, r', ?_, (hgrown₁.imp fun _ _ => False.elim).trans hgrown, hobj', hset r', ?_⟩
      · rw [Program.bind_ok hcopied]
        rfl
      · exact hshows.of_grown hgrown fun b hb heq => Nat.not_le_of_lt hlt (heq ▸ hb)
    · rw [if_neg hcontainer]
      refine ⟨h, d, r, rfl, Heap.Grown.refl, hobj, hentries, ?_⟩
      cases r with
      | leaf l => exact hv.leaf v
      | object b =>
        exact absurd (hv.isContainer v) hcontainer

/-- **The loop over the entries.** -/
theorem scrubFrom_spec (hrec : scrubber.recursive = true) {es : List (List Char × Scrubbed)}
    (hcopy : ∀ e ∈ es, Copies (scrubber.masks lower) copy e.2) {d : Dict (List Char) Ref} (hobj : h.obj a = some (.dict d))
    {done rest : List (List Char × Ref)} (hentries : d.entries = done ++ rest) (hes : ShowsEntries h (· ≠ a) es rest) :
    ∃ h' d' new, scrubFrom lower scrubber copy a done.length rest.length h = (h', .ok ()) ∧ Heap.Grown (· = a) h h' ∧
      h'.obj a = some (.dict d') ∧ d'.entries = done ++ new ∧
      ShowsEntries h' (h.next ≤ ·) (scrubEntries (scrubber.masks lower) es) new := by
  induction es generalizing h d done rest with
  | nil =>
    cases hes
    exact ⟨h, d, [], rfl, Heap.Grown.refl, hobj, hentries, rfl⟩
  | cons e es ih =>
    obtain ⟨k, v⟩ := e
    obtain ⟨r, more, rfl, hv, hmore⟩ := hes
    have hfirst : (Objects.entries h a)[done.length]? = some (k, r) := by simp [entries_eq hobj, hentries]
    have hrun : scrubFrom lower scrubber copy a done.length ((k, r) :: more).length h = (do
        scrubEntry lower scrubber copy a (k, r)
        scrubFrom lower scrubber copy a (done.length + 1) more.length) h := by
      show (match (Objects.entries h a)[done.length]? with
        | none => pure ()
        | some e => do
          scrubEntry lower scrubber copy a e
          scrubFrom lower scrubber copy a (done.length + 1) more.length : Scrub Unit) h = _
      rw [hfirst]
    obtain ⟨h₁, d₁, r', hentry, hgrown₁, hobj₁, hentries₁, hshows⟩ :=
      scrubEntry_spec hrec (hcopy _ (List.mem_cons_self ..)) hobj hentries hv
    have hnext : ShowsEntries h₁ (· ≠ a) es more := hmore.of_grown hgrown₁ fun _ hb => hb
    have hmore₁ : d₁.entries = (done ++ [(k, r')]) ++ more := by
      rw [hentries₁, List.append_assoc]
      rfl
    obtain ⟨h₂, d₂, new, hloop, hgrown₂, hobj₂, hentries₂, hnew⟩ :=
      ih (fun e he => hcopy e (List.mem_cons_of_mem _ he)) hobj₁ hmore₁ hnext
    refine ⟨h₂, d₂, (k, r') :: new, ?_, hgrown₁.trans hgrown₂, hobj₂, ?_, ⟨r', new, rfl, ?_, ?_⟩⟩
    · rw [hrun, Program.bind_ok hentry]
      rw [List.length_append] at hloop
      exact hloop
    · rw [hentries₂, List.append_assoc]
      rfl
    · exact hshows.of_grown hgrown₂ fun b hb heq => Nat.not_le_of_lt (Heap.lt_next hobj) (heq ▸ hb)
    · exact hnew.imp (fun b _ hb ho => ⟨Nat.le_trans hgrown₁.next hb, ho⟩) _

/-- The copies of a sequence are made one after the other, each on what those before it have left. -/
theorem mapM_spec {masks : List Char → Bool} {vs : List Scrubbed} (hcopy : ∀ v ∈ vs, Copies masks copy v) {items : List Ref}
    (hvs : ShowsItems h (fun _ => True) vs items) : ∃ h' items', items.mapM copy h = (h', .ok items') ∧
      Heap.Grown (fun _ => False) h h' ∧ ShowsItems h' (h.next ≤ ·) (scrubItems masks vs) items' := by
  induction vs generalizing h items with
  | nil =>
    cases hvs
    exact ⟨h, [], rfl, Heap.Grown.refl, rfl⟩
  | cons v vs ih =>
    obtain ⟨r, rest, rfl, hv, hrest⟩ := hvs
    obtain ⟨h₁, r', hcopied, hgrown₁, hshows⟩ := hcopy v (List.mem_cons_self ..) h r hv
    have hnext : ShowsItems h₁ (fun _ => True) vs rest :=
      hrest.imp (fun b _ _ ho => ⟨trivial, (hgrown₁.kept b (Heap.lt_next ho) id).trans ho⟩) vs
    obtain ⟨h₂, rest', hmap, hgrown₂, hshows'⟩ := ih (fun v hv => hcopy v (List.mem_cons_of_mem _ hv)) hnext
    refine ⟨h₂, r' :: rest', ?_, hgrown₁.trans hgrown₂, ⟨r', rest', rfl, hshows.of_grown hgrown₂ fun _ _ => id, ?_⟩⟩
    · rw [List.mapM_cons, Program.bind_ok hcopied, Program.bind_ok hmap]
      rfl
    · exact hshows'.imp (fun b _ hb ho => ⟨Nat.le_trans hgrown₁.next hb, ho⟩) _

/-- A sequence takes as many calls as its deepest item. -/
theorem calls_le_items {vs : List Scrubbed} {v : Scrubbed} (hv : v ∈ vs) : v.calls ≤ callsItems vs := by
  induction vs with
  | nil => cases hv
  | cons w vs ih =>
    rw [callsItems]
    obtain rfl | hv := List.mem_cons.1 hv
    · exact Nat.le_max_left ..
    · exact Nat.le_trans (ih hv) (Nat.le_max_right ..)

theorem calls_le_entries {es : List (List Char × Scrubbed)} {e : List Char × Scrubbed} (he : e ∈ es) :
    e.2.calls ≤ callsEntries es := by
  induction es with
  | nil => cases he
  | cons e' es ih =>
    rw [callsEntries]
    obtain rfl | he := List.mem_cons.1 he
    · exact Nat.le_max_left ..
    · exact Nat.le_trans (ih he) (Nat.le_max_right ..)

/-- A list, or a tuple, is copied item by item. -/
theorem copyAt_sequence {calls : Nat} {items : List Ref}
    (hobj : h.obj a = some (.list items) ∨ h.obj a = some (.tuple items)) :
    copyAt lower scrubber (calls + 1) (.object a) h = (do
      let items ← items.mapM (copyAt lower scrubber calls)
      let h ← Program.get
      Program.modify fun h => h.alloc (.list items)
      pure (Ref.object h.next) : Scrub Ref) h := by
  rw [copyAt, Program.get_bind, Objects.look]
  obtain hobj | hobj := hobj
  · rw [hobj]
  · rw [hobj]

/-- A dict is copied shallowly, and the copy is scrubbed in place. -/
theorem copyAt_dict {calls : Nat} {d : Dict (List Char) Ref} (hobj : h.obj a = some (.dict d)) :
    copyAt lower scrubber (calls + 1) (.object a) h = (do
      Program.modify fun h => h.alloc (.dict d)
      scrubDictAt lower scrubber calls (.object h.next)
      pure (Ref.object h.next) : Scrub Ref) h := by
  rw [copyAt, Program.get_bind, Objects.look, hobj]

variable (lower) in
/-- **With enough calls left**, a dict is scrubbed and a value is copied. -/
theorem calls_spec (hrec : scrubber.recursive = true) (calls : Nat) :
    (∀ es, callsEntries es + 1 ≤ calls → Scrubs (scrubber.masks lower) (scrubDictAt lower scrubber calls) es) ∧
    ∀ v, v.calls ≤ calls → Copies (scrubber.masks lower) (copyAt lower scrubber calls) v := by
  -- A dict uses up one call for its entries, and a value one for what it holds, so both go together.
  induction calls with
  | zero =>
    refine ⟨fun es hle => absurd hle (Nat.not_succ_le_zero _), fun v hle => ?_⟩
    cases v <;> simp [Scrubbed.calls] at hle
  | succ calls ih =>
    constructor
    · intro es hle h a hes
      obtain ⟨a', d, heq, -, hobj, hentries⟩ := hes
      cases heq
      -- No entry of a dict shows the dict itself, since values are finite. Its entries are as they were while
      -- it is changed.
      have havoid : ShowsEntries h (fun b => True ∧ b ≠ a) es d.entries := by
        refine ShowsEntries.avoids ⟨a, d, rfl, trivial, hobj, hentries⟩ es ?_ hentries
        rw [Scrubbed.object.sizeOf_spec]
        omega
      obtain ⟨h', d', new, hloop, hgrown, hobj', hentries', hnew⟩ :=
        scrubFrom_spec hrec (fun e he => ih.2 e.2 (Nat.le_trans (calls_le_entries he) (Nat.le_of_succ_le_succ hle)))
          hobj (List.nil_append _).symm (havoid.imp (fun _ _ hb ho => ⟨hb.2, ho⟩) es)
      refine ⟨h', d', ?_, hgrown, hobj', hentries' ▸ hnew⟩
      rw [← hloop, ← entries_eq hobj]
      rfl
    · intro v hle h r hv
      cases r with
      | leaf l => exact ⟨h, .leaf l, rfl, Heap.Grown.refl, hv.leaf v⟩
      | object a =>
        cases v with
        | array vs =>
          obtain ⟨a', items, heq, -, hobj, hitems⟩ := hv
          cases heq
          obtain ⟨h₁, items', hmap, hgrown, hshows⟩ :=
            mapM_spec (fun v hv => ih.2 v (Nat.le_trans (calls_le_items hv) (Nat.le_of_succ_le_succ hle))) hitems
          refine ⟨h₁.alloc (.list items'), .object h₁.next, ?_, hgrown.trans (Heap.grown_alloc _), ?_⟩
          · rw [copyAt_sequence hobj, Program.bind_ok hmap]
            rfl
          · refine ⟨h₁.next, items', rfl, hgrown.next, .inl (Heap.obj_alloc _), ?_⟩
            exact hshows.imp (fun b _ hb ho =>
              ⟨hb, (Heap.obj_alloc_of_lt (Heap.lt_next ho) _).trans ho⟩) _
        | object es =>
          obtain ⟨a', d, heq, -, hobj, hentries⟩ := hv
          cases heq
          have hcopy : Shows (h.alloc (.dict d)) (fun _ => True) (.object es) (.object h.next) := by
            refine ⟨h.next, d, rfl, trivial, Heap.obj_alloc _, hentries.imp (fun b _ _ ho => ⟨trivial, ?_⟩) es⟩
            exact (Heap.obj_alloc_of_lt (Heap.lt_next ho) _).trans ho
          obtain ⟨h', d', hscrub, hgrown, hobj', hshows⟩ := ih.1 es (Nat.le_of_succ_le_succ hle) _ h.next hcopy
          refine ⟨h', .object h.next, ?_, ?_, ⟨h.next, d', rfl, Nat.le_refl _, hobj', ?_⟩⟩
          · rw [copyAt_dict hobj, Program.modify_bind, Program.bind_ok hscrub]
            rfl
          · refine ⟨Nat.le_trans (Nat.le_succ _) hgrown.next, fun b hb _ => ?_⟩
            rw [hgrown.kept b (Nat.lt_succ_of_lt hb) (Nat.ne_of_lt hb)]
            exact Heap.obj_alloc_of_lt hb _
          · exact hshows.imp (fun b _ hb ho => ⟨Nat.le_trans (Nat.le_succ _) hb, ho⟩) _
        | _ => cases hv

end

/-! ### One call after the other -/

section
variable {masks : List Char → Bool}

/-- Whatever it is, it takes a call. -/
theorem one_le_calls (v : Scrubbed) : 1 ≤ v.calls := by
  cases v with
  | array vs => exact Nat.le_add_left ..
  | object es => exact Nat.le_trans (by decide) (Nat.le_add_left 2 _)
  | _ => exact Nat.le_refl _

mutual
/-- Scrubbing twice is scrubbing once, and takes no more calls. -/
theorem scrub_scrub : (v : Scrubbed) → (v.scrub masks).scrub masks = v.scrub masks ∧ (v.scrub masks).calls ≤ v.calls
  | .array vs => by
    obtain ⟨hitems, hcalls⟩ := scrubItems_scrubItems vs
    simp only [Scrubbed.scrub, Scrubbed.calls, hitems, true_and]
    omega
  | .object es => by
    obtain ⟨hentries, hcalls⟩ := scrubEntries_scrubEntries es
    simp only [Scrubbed.scrub, Scrubbed.calls, hentries, true_and]
    omega
  | .null => ⟨rfl, Nat.le_refl _⟩
  | .bool _ => ⟨rfl, Nat.le_refl _⟩
  | .number _ => ⟨rfl, Nat.le_refl _⟩
  | .string _ => ⟨rfl, Nat.le_refl _⟩
  | .filtered => ⟨rfl, Nat.le_refl _⟩

theorem scrubItems_scrubItems : (vs : List Scrubbed) →
    scrubItems masks (scrubItems masks vs) = scrubItems masks vs ∧ callsItems (scrubItems masks vs) ≤ callsItems vs
  | [] => ⟨rfl, Nat.le_refl _⟩
  | v :: vs => by
    obtain ⟨hv, hcalls⟩ := scrub_scrub v
    obtain ⟨hvs, hcallsItems⟩ := scrubItems_scrubItems vs
    simp only [scrubItems, callsItems, hv, hvs, true_and]
    omega

theorem scrubEntries_scrubEntries : (es : List (List Char × Scrubbed)) →
    scrubEntries masks (scrubEntries masks es) = scrubEntries masks es ∧ callsEntries (scrubEntries masks es) ≤ callsEntries es
  | [] => ⟨rfl, Nat.le_refl _⟩
  | (k, v) :: es => by
    obtain ⟨hv, hcalls⟩ := scrub_scrub v
    obtain ⟨hes, hcallsEntries⟩ := scrubEntries_scrubEntries es
    have hone := one_le_calls v
    by_cases hk : masks k = true
    · simp only [scrubEntries, callsEntries, hk, if_true, Scrubbed.calls, hes, true_and]
      omega
    · simp only [scrubEntries, callsEntries, hk, Bool.false_eq_true, if_false, hv, hes, true_and]
      omega
end

/-- The dict at `a` may have been masked in part, and no other object has changed. -/
structure PartlyMasked (masks : List Char → Bool) (a : Nat) (es : List (List Char × Scrubbed)) (h h' : Objects) : Prop where
  seen : Shows h (fun _ => True) (.object es) (.object a)
  grown : Heap.Grown (· = a) h h'
  after : ∃ v, Shows h' (fun _ => True) v (.object a) ∧ v.scrub masks = (Scrubbed.object es).scrub masks ∧
    v.calls ≤ (Scrubbed.object es).calls

section
variable {a : Nat} {es : List (List Char × Scrubbed)}

mutual
/-- What is seen through the dict elsewhere is masked in part too: masking the rest comes to the same. -/
theorem Shows.settled (ht : PartlyMasked masks a es h h') : (v : Scrubbed) → {r : Ref} → Shows h (fun _ => True) v r →
    ∃ v', Shows h' (fun _ => True) v' r ∧ v'.scrub masks = v.scrub masks ∧ v'.calls ≤ v.calls
  | .array vs, r, hv => by
    obtain ⟨b, items, rfl, -, hb, hitems⟩ := hv
    have hne : b ≠ a := by
      rintro rfl
      obtain ⟨a', d', heq, -, hobj', -⟩ := ht.seen
      cases heq
      obtain hb | hb := hb <;> rw [hb] at hobj' <;> cases hobj'
    obtain ⟨vs', hvs, hscrub, hcalls⟩ := ShowsItems.settled ht vs hitems
    have hkept : h'.obj b = some (.list items) ∨ h'.obj b = some (.tuple items) := by
      obtain hb | hb := hb
      · exact .inl ((ht.grown.kept b (Heap.lt_next hb) hne).trans hb)
      · exact .inr ((ht.grown.kept b (Heap.lt_next hb) hne).trans hb)
    refine ⟨.array vs', ⟨b, items, rfl, trivial, hkept, hvs⟩, ?_, ?_⟩
    · simp only [Scrubbed.scrub, hscrub]
    · simp only [Scrubbed.calls]
      omega
  | .object es', r, hv => by
    by_cases hr : r = .object a
    · subst hr
      rw [Shows.unique _ hv ht.seen]
      exact ht.after
    · obtain ⟨b, d', rfl, -, hb, hentries⟩ := hv
      have hne : b ≠ a := fun heq => hr (by rw [heq])
      obtain ⟨es'', hes, hscrub, hcalls⟩ := ShowsEntries.settled ht es' hentries
      refine ⟨.object es'', ⟨b, d', rfl, trivial, (ht.grown.kept b (Heap.lt_next hb) hne).trans hb, hes⟩, ?_, ?_⟩
      · simp only [Scrubbed.scrub, hscrub]
      · simp only [Scrubbed.calls]
        omega
  | .null, _, hv => ⟨.null, hv, rfl, Nat.le_refl _⟩
  | .bool b, _, hv => ⟨.bool b, hv, rfl, Nat.le_refl _⟩
  | .number l, _, hv => ⟨.number l, hv, rfl, Nat.le_refl _⟩
  | .string s, _, hv => ⟨.string s, hv, rfl, Nat.le_refl _⟩
  | .filtered, _, hv => ⟨.filtered, hv, rfl, Nat.le_refl _⟩

theorem ShowsItems.settled (ht : PartlyMasked masks a es h h') : (vs : List Scrubbed) → {items : List Ref} →
    ShowsItems h (fun _ => True) vs items → ∃ vs', ShowsItems h' (fun _ => True) vs' items ∧
      scrubItems masks vs' = scrubItems masks vs ∧ callsItems vs' ≤ callsItems vs
  | [], _, hvs => ⟨[], hvs, rfl, Nat.le_refl _⟩
  | v :: vs, items, hvs => by
    obtain ⟨r, rest, rfl, hv, hrest⟩ := hvs
    obtain ⟨v', hv', hscrub, hcalls⟩ := Shows.settled ht v hv
    obtain ⟨vs', hvs', hscrubs, hcallsItems⟩ := ShowsItems.settled ht vs hrest
    refine ⟨v' :: vs', ⟨r, rest, rfl, hv', hvs'⟩, ?_, ?_⟩
    · simp only [scrubItems, hscrub, hscrubs]
    · simp only [callsItems]
      omega

theorem ShowsEntries.settled (ht : PartlyMasked masks a es h h') : (es' : List (List Char × Scrubbed)) →
    {entries : List (List Char × Ref)} → ShowsEntries h (fun _ => True) es' entries → ∃ es'',
      ShowsEntries h' (fun _ => True) es'' entries ∧ scrubEntries masks es'' = scrubEntries masks es' ∧
        callsEntries es'' ≤ callsEntries es'
  | [], _, hes => ⟨[], hes, rfl, Nat.le_refl _⟩
  | (k, v) :: es', entries, hes => by
    obtain ⟨r, rest, rfl, hv, hrest⟩ := hes
    obtain ⟨v', hv', hscrub, hcalls⟩ := Shows.settled ht v hv
    obtain ⟨es'', hes', hscrubs, hcallsEntries⟩ := ShowsEntries.settled ht es' hrest
    refine ⟨(k, v') :: es'', ⟨r, rest, rfl, hv', hes'⟩, ?_, ?_⟩
    · simp only [scrubEntries, hscrub, hscrubs]
    · simp only [callsEntries]
      omega
end

end

/-- Whatever is seen, masking it comes to the same as before. -/
def Settled (masks : List Char → Bool) (h h' : Objects) : Prop :=
  ∀ v r, Shows h (fun _ => True) v r →
    ∃ v', Shows h' (fun _ => True) v' r ∧ v'.scrub masks = v.scrub masks ∧ v'.calls ≤ v.calls

/-- Nothing is done yet. -/
theorem Settled.refl : Settled masks h h := fun v _ hv => ⟨v, hv, rfl, Nat.le_refl _⟩

/-- Scrubbing goes on from what is scrubbed. -/
theorem Settled.trans {h'' : Objects} (hs : Settled masks h h') (hs' : Settled masks h' h'') : Settled masks h h'' := by
  intro v r hv
  obtain ⟨v₁, hv₁, hscrub₁, hcalls₁⟩ := hs v r hv
  obtain ⟨v₂, hv₂, hscrub₂, hcalls₂⟩ := hs' v₁ r hv₁
  exact ⟨v₂, hv₂, hscrub₂.trans hscrub₁, Nat.le_trans hcalls₂ hcalls₁⟩

/-- A dict that is scrubbed on the way is the one that would be, or was. -/
theorem Settled.entries (hs : Settled masks h h') {r : Ref} {es : List (List Char × Scrubbed)}
    (hes : Shows h (fun _ => True) (.object es) r) : ∃ es', Shows h' (fun _ => True) (.object es') r ∧
      scrubEntries masks es' = scrubEntries masks es ∧ (Scrubbed.object es').calls ≤ (Scrubbed.object es).calls := by
  obtain ⟨v', hv', hscrub, hless⟩ := hs _ _ hes
  cases v' with
  | object es' =>
    simp only [Scrubbed.scrub, Scrubbed.object.injEq] at hscrub
    exact ⟨es', hv', hscrub, hless⟩
  | _ => simp [Scrubbed.scrub] at hscrub

/-- The dict at `a` shows its entries masked, below it on objects that were not there. -/
def MaskedAt (masks : List Char → Bool) (a : Nat) (h h' : Objects) : Prop :=
  ∀ es, Shows h (fun _ => True) (.object es) (.object a) →
    ∃ d, h'.obj a = some (.dict d) ∧ ShowsEntries h' (h.next ≤ ·) (scrubEntries masks es) d.entries

/-- What was masked before does not hinder. -/
theorem MaskedAt.of_settled {a : Nat} {h₁ : Objects} (hm : MaskedAt masks a h₁ h') (hs : Settled masks h h₁)
    (hnext : h.next ≤ h₁.next) : MaskedAt masks a h h' := by
  intro es hes
  obtain ⟨es', hes', hscrub, -⟩ := hs.entries hes
  obtain ⟨d, hobj, hd⟩ := hm es' hes'
  rw [hscrub] at hd
  exact ⟨d, hobj, hd.imp (fun b _ hb ho => ⟨Nat.le_trans hnext hb, ho⟩) _⟩

/-- It stays masked while only what was there is changed, and not the dict itself. -/
theorem MaskedAt.of_grown {a : Nat} {h₁ : Objects} {free : Nat → Prop} (hm : MaskedAt masks a h h₁)
    (hg : Heap.Grown free h₁ h') (ha : ¬ free a) (hfree : ∀ b, free b → b < h.next) : MaskedAt masks a h h' := by
  intro es hes
  obtain ⟨d, hobj, hd⟩ := hm es hes
  refine ⟨d, (hg.kept a (Heap.lt_next hobj) ha).trans hobj, hd.of_grown hg ?_⟩
  exact fun b hb hin => Nat.not_le_of_lt (hfree b hin) hb

/-- At the address is a dict. -/
def Objects.isDict (h : Objects) (a : Nat) : Prop := ∃ d, h.obj a = some (.dict d)

/-- What is seen has been allocated. -/
theorem Shows.lt_next {a : Nat} {v : Scrubbed} (hv : Shows h on v (.object a)) : a < h.next := by
  have hobj := hv.isContainer v
  unfold Objects.isContainer Objects.look at hobj
  obtain ⟨o, ho⟩ := Option.isSome_iff_exists.mp hobj
  exact Heap.lt_next ho

/-- A dict that is given another value for a key it has, where masking the two comes to the same. -/
theorem ShowsEntries.put {k : List Char} {r r' : Ref} {v v' : Scrubbed} (hr : Shows h (fun _ => True) v r)
    (hr' : Shows h' (fun _ => True) v' r') (hscrub : v'.scrub masks = v.scrub masks) (hcalls : v'.calls ≤ v.calls) :
    (es : List (List Char × Scrubbed)) → {entries : List (List Char × Ref)} → (entries.map Prod.fst).Nodup →
      (k, r) ∈ entries → ShowsEntries h (fun _ => True) es entries → ShowsEntries h' (fun _ => True) es entries →
      ∃ es', ShowsEntries h' (fun _ => True) es' (putEntry k r' entries) ∧
        scrubEntries masks es' = scrubEntries masks es ∧ callsEntries es' ≤ callsEntries es
  | [], entries, _, hmem, hes, _ => by
    cases hes
    cases hmem
  | (k', u) :: es, entries, hnodup, hmem, hes, hes' => by
    obtain ⟨x, rest, rfl, hu, hrest⟩ := hes
    obtain ⟨x', rest', heq, hu', hrest'⟩ := hes'
    cases heq
    rw [List.map_cons, List.nodup_cons] at hnodup
    unfold putEntry
    by_cases hk : k' = k
    · rw [if_pos hk]
      obtain heq | hlater := List.mem_cons.1 hmem
      · cases heq
        cases hu.unique _ hr
        refine ⟨(k, v') :: es, ⟨r', rest, rfl, hr', hrest'⟩, ?_, ?_⟩
        · simp only [scrubEntries, hscrub]
        · simp only [callsEntries]
          omega
      · exact absurd (List.mem_map_of_mem (f := Prod.fst) hlater) (hk ▸ hnodup.1)
    · rw [if_neg hk]
      have hlater : (k, r) ∈ rest := by
        obtain heq | hlater := List.mem_cons.1 hmem
        · cases heq
          exact absurd rfl hk
        · exact hlater
      obtain ⟨es', hput, hscrubs, hcallsEntries⟩ := ShowsEntries.put hr hr' hscrub hcalls es hnodup.2 hlater hrest hrest'
      refine ⟨(k', u) :: es', ⟨x, _, rfl, hu', hput⟩, ?_, ?_⟩
      · simp only [scrubEntries, hscrubs]
      · simp only [callsEntries]
        omega

theorem ShowsEntries.of_mem {k : List Char} {r : Ref} : (es : List (List Char × Scrubbed)) →
    {entries : List (List Char × Ref)} → (k, r) ∈ entries → ShowsEntries h on es entries →
      ∃ v, Shows h on v r ∧ v.calls ≤ callsEntries es
  | [], entries, hmem, hes => by
    cases hes
    cases hmem
  | (k', u) :: es, entries, hmem, hes => by
    obtain ⟨x, rest, rfl, hu, hrest⟩ := hes
    rw [callsEntries]
    obtain heq | hlater := List.mem_cons.1 hmem
    · cases heq
      exact ⟨u, hu, Nat.le_max_left ..⟩
    · obtain ⟨v, hv, hle⟩ := ShowsEntries.of_mem es hlater hrest
      exact ⟨v, hv, Nat.le_trans hle (Nat.le_max_right ..)⟩

end

section
variable {lower : List Char → List Char} {scrubber : SensitiveKeyScrubber} {calls : Nat}

variable (lower) in
/-- **One call**, of anything that is seen. -/
theorem scrubDictAt_spec (hrec : scrubber.recursive = true) {v : Scrubbed} {r : Ref} (hv : Shows h (fun _ => True) v r)
    (hcalls : v.calls ≤ calls) : ∃ h', scrubDictAt lower scrubber calls r h = (h', .ok ()) ∧
      Heap.Grown (fun b => .object b = r ∧ h.isDict b) h h' ∧ Settled (scrubber.masks lower) h h' ∧
      ∀ a, r = .object a → MaskedAt (scrubber.masks lower) a h h' := by
  obtain ⟨calls, rfl⟩ : ∃ c, calls = c + 1 := ⟨calls - 1, by have := one_le_calls v; omega⟩
  cases r with
  | leaf l => exact ⟨h, rfl, Heap.Grown.refl, Settled.refl, fun a heq => nomatch heq⟩
  | object a =>
    cases v with
    | object es =>
      obtain ⟨h', d, hrun, hgrown, hobj, hd⟩ :=
        (calls_spec lower hrec (calls + 1)).1 es (by simp only [Scrubbed.calls] at hcalls; omega) h a hv
      have hdict : h.isDict a := by
        obtain ⟨a', d, heq, -, hobj, -⟩ := hv
        cases heq
        exact ⟨d, hobj⟩
      have hpartly : PartlyMasked (scrubber.masks lower) a es h h' := by
        refine ⟨hv, hgrown, (Scrubbed.object es).scrub (scrubber.masks lower), ?_, scrub_scrub _⟩
        exact ⟨a, d, rfl, trivial, hobj, hd.imp (fun _ _ _ ho => ⟨trivial, ho⟩) _⟩
      refine ⟨h', hrun, hgrown.imp ?_, fun v r hv => hv.settled hpartly v, ?_⟩
      · rintro b - rfl
        exact ⟨rfl, hdict⟩
      · intro a' heq es' hes'
        cases heq
        cases hes'.unique _ hv
        exact ⟨d, hobj, hd⟩
    | array vs =>
      -- a list is nothing to it
      obtain ⟨a', items, heq, -, hobj, -⟩ := hv
      cases heq
      have hentries : Objects.entries h a = [] := by
        unfold Objects.entries
        obtain hobj | hobj := hobj <;> rw [hobj]
      refine ⟨h, ?_, Heap.Grown.refl, Settled.refl, ?_⟩
      · rw [scrubDictAt, Program.get_bind, hentries]
        rfl
      · intro a' heq es hes
        cases heq
        obtain ⟨b, d, heq, -, hobj', -⟩ := hes
        cases heq
        obtain hobj | hobj := hobj <;> rw [hobj] at hobj' <;> cases hobj'
    | _ => cases hv

variable (lower) in
/-- **Call after call**, whatever the objects share. -/
theorem scrubEach_spec (hrec : scrubber.recursive = true) {targets : List Ref}
    (htargets : ∀ r ∈ targets, ∃ v, Shows h (fun _ => True) v r ∧ v.calls ≤ calls) :
    ∃ h', scrubEach lower scrubber calls targets h = (h', .ok ()) ∧
      Heap.Grown (fun b => .object b ∈ targets ∧ h.isDict b) h h' ∧ Settled (scrubber.masks lower) h h' ∧
      ∀ a, .object a ∈ targets → MaskedAt (scrubber.masks lower) a h h' := by
  induction targets generalizing h with
  | nil => exact ⟨h, rfl, Heap.Grown.refl, Settled.refl, fun a hmem => nomatch hmem⟩
  | cons r rest ih =>
    rw [List.forall_mem_cons] at htargets
    obtain ⟨⟨v₁, hv₁, hcalls₁⟩, hrest⟩ := htargets
    obtain ⟨h₁, hrun₁, hgrown₁, hsettled₁, hmasked₁⟩ := scrubDictAt_spec lower hrec hv₁ hcalls₁
    obtain ⟨h', hrun, hgrown, hsettled, hmasked⟩ := ih (h := h₁) (by
      intro r hr
      obtain ⟨v, hv, hle⟩ := hrest r hr
      obtain ⟨v', hv', -, hless⟩ := hsettled₁ v r hv
      exact ⟨v', hv', Nat.le_trans hless hle⟩)
    have hold (b : Nat) (hb : .object b ∈ rest) : b < h.next := by
      obtain ⟨v, hv, -⟩ := hrest _ hb
      exact hv.lt_next
    refine ⟨h', ?_, ?_, hsettled₁.trans hsettled, ?_⟩
    · rw [scrubEach, Program.bind_ok hrun₁, hrun]
    · refine ⟨Nat.le_trans hgrown₁.next hgrown.next, fun b hb hfree => ?_⟩
      rw [List.mem_cons] at hfree
      have hfirst : ¬ (.object b = r ∧ h.isDict b) := fun ⟨hr, hdict⟩ => hfree ⟨.inl hr, hdict⟩
      have hsame := hgrown₁.kept b hb hfirst
      rw [← hsame]
      apply hgrown.kept b (Nat.lt_of_lt_of_le hb hgrown₁.next)
      rintro ⟨hmem, d, hobj⟩
      exact hfree ⟨.inr hmem, d, hsame ▸ hobj⟩
    · intro a hmem
      by_cases hlater : .object a ∈ rest
      · exact (hmasked a hlater).of_settled hsettled₁ hgrown₁.next
      · obtain rfl | hin := List.mem_cons.1 hmem
        · exact (hmasked₁ a rfl).of_grown hgrown (fun hfree => hlater hfree.1) fun b hfree => hold b hfree.1
        · exact absurd hin hlater

/-- The request once its body has been seen to: a list body is a copy, and the rest is as it was. -/
def BodyMasked (masks : List Char → Bool) (request : Nat) (h h' : Objects) : Prop :=
  ∀ rq, h.obj request = some (.dict rq) → ∃ rq', h'.obj request = some (.dict rq') ∧
    (∀ k, k ≠ "data".toList → rq'.get k = rq.get k) ∧
    ∀ data, rq.get "data".toList = some data → ∃ data', rq'.get "data".toList = some data' ∧
      ((∃ items, Objects.look h data = some (.list items)) → ∀ v, Shows h (fun _ => True) v data →
        Shows h' (h.next ≤ ·) (v.scrub masks) data') ∧
      ((¬ ∃ items, Objects.look h data = some (.list items)) → data' = data)

variable (lower) in
/-- **The body.** -/
theorem scrubBody_spec (hrec : scrubber.recursive = true) {request : Nat} {es : List (List Char × Scrubbed)}
    (hes : Shows h (fun _ => True) (.object es) (.object request)) (hcalls : (Scrubbed.object es).calls ≤ calls) :
    ∃ h', scrubBody lower scrubber calls request h = (h', .ok ()) ∧ Heap.Grown (· = request) h h' ∧
      Settled (scrubber.masks lower) h h' ∧ BodyMasked (scrubber.masks lower) request h h' := by
  obtain ⟨a, rq, heq, -, hobj, hentries⟩ := id hes
  cases heq
  have hget : Objects.getItem h request "data".toList = rq.get "data".toList := by
    unfold Objects.getItem
    rw [hobj]
  -- Only a list body is copied and masked. Any other is left as it is.
  by_cases hlist : ∃ data items, rq.get "data".toList = some data ∧ Objects.look h data = some (.list items)
  · obtain ⟨data, items, hdata, hlook⟩ := hlist
    have hmem : ("data".toList, data) ∈ rq.entries := Dict.mem_entries.2 hdata
    obtain ⟨v, hv, hle⟩ := ShowsEntries.of_mem es hmem hentries
    simp only [Scrubbed.calls] at hcalls
    obtain ⟨h₁, copy, hcopied, hgrown₁, hcopy⟩ := (calls_spec lower hrec calls).2 v (by omega) h data hv
    have hlt : request < h.next := Heap.lt_next hobj
    have hobj₁ : h₁.obj request = some (.dict rq) := (hgrown₁.kept request hlt id).trans hobj
    obtain ⟨hobj', hgrown'⟩ := setItem_spec hobj₁ "data".toList copy
    -- The copy is made first, on new objects, and then put into the request, which is the one object that
    -- changes.
    have hgrown : Heap.Grown (· = request) h (Objects.setItem request "data".toList copy h₁) :=
      (hgrown₁.imp fun _ _ => False.elim).trans hgrown'
    have hshown := hcopy.of_grown hgrown' fun b hb heq => Nat.not_le_of_lt hlt (heq ▸ hb)
    have hbelow : ShowsEntries (Objects.setItem request "data".toList copy h₁) (fun _ => True) es rq.entries := by
      have havoid : ShowsEntries h (fun b => True ∧ b ≠ request) es rq.entries := by
        refine ShowsEntries.avoids hes es ?_ hentries
        rw [Scrubbed.object.sizeOf_spec]
        omega
      exact (havoid.of_grown hgrown fun _ hb => hb.2).imp (fun _ _ _ ho => ⟨trivial, ho⟩) es
    obtain ⟨es', hes', hscrub, hless⟩ := ShowsEntries.put hv (hshown.imp (fun _ _ _ ho => ⟨trivial, ho⟩) _)
      (scrub_scrub v).1 (scrub_scrub v).2 es rq.nodup hmem hentries hbelow
    have hpartly : PartlyMasked (scrubber.masks lower) request es h (Objects.setItem request "data".toList copy h₁) := by
      refine ⟨hes, hgrown, .object es', ⟨request, _, rfl, trivial, hobj', hes'⟩, ?_, ?_⟩
      · simp only [Scrubbed.scrub, hscrub]
      · simp only [Scrubbed.calls]
        omega
    refine ⟨_, ?_, hgrown, fun v r hv => hv.settled hpartly v, ?_⟩
    · rw [scrubBody, Program.get_bind, hget, hdata]
      dsimp only
      rw [hlook]
      dsimp only
      rw [Program.bind_ok hcopied]
      rfl
    · intro rq' hrq'
      rw [hobj] at hrq'
      cases hrq'
      refine ⟨_, hobj', fun k hk => by rw [Dict.get_set, if_neg hk], ?_⟩
      intro data' hdata'
      rw [hdata] at hdata'
      cases hdata'
      refine ⟨copy, by rw [Dict.get_set, if_pos rfl], fun _ v' hv' => ?_, fun hnot => absurd ⟨items, hlook⟩ hnot⟩
      rw [hv'.unique _ hv]
      exact hshown
  · have hrun : scrubBody lower scrubber calls request h = (h, .ok ()) := by
      rw [scrubBody, Program.get_bind, hget]
      cases hdata : rq.get "data".toList with
      | none => rfl
      | some data =>
        dsimp only
        cases hlook : Objects.look h data with
        | none => rfl
        | some o =>
          cases o with
          | list items => exact absurd ⟨data, items, hdata, hlook⟩ hlist
          | _ => rfl
    refine ⟨h, hrun, Heap.Grown.refl, Settled.refl, ?_⟩
    intro rq' hrq'
    rw [hobj] at hrq'
    cases hrq'
    refine ⟨rq, hobj, fun k _ => rfl, fun data hdata => ⟨data, hdata, fun ⟨items, hlook⟩ => ?_, fun _ => rfl⟩⟩
    exact absurd ⟨data, items, hdata, hlook⟩ hlist

end

/-! ### As values -/

section
variable {lower : List Char → List Char} {scrubber : SensitiveKeyScrubber}

theorem scrubItems_eq (masks : List Char → Bool) (vs : List Scrubbed) : scrubItems masks vs = vs.map (·.scrub masks) := by
  induction vs with
  | nil => rfl
  | cons v vs ih => rw [scrubItems, ih, List.map_cons]

theorem scrubEntries_eq (masks : List Char → Bool) (es : List (List Char × Scrubbed)) :
    scrubEntries masks es = es.map fun e => (e.1, if masks e.1 then .filtered else e.2.scrub masks) := by
  induction es with
  | nil => rfl
  | cons e es ih => rw [scrubEntries, ih, List.map_cons]

/-- What the scrubber makes of a value is the value masked. -/
theorem scrubbed_eq (hrec : scrubber.recursive = true) (calls : Nat) :
    (∀ entries w, scrubDict lower scrubber calls (.object entries) = some w →
      w = (plain (.object entries)).scrub (scrubber.masks lower)) ∧
    ∀ v w, scrubbedCopy lower scrubber calls v = some w → w = (plain v).scrub (scrubber.masks lower) := by
  induction calls with
  | zero => exact ⟨fun _ _ hw => (by cases hw), fun _ _ hw => (by cases hw)⟩
  | succ calls ih =>
    constructor
    · intro entries w hw
      obtain ⟨entries', hentries, rfl⟩ := Option.map_eq_some_iff.mp hw
      rw [plain, Scrubbed.scrub, scrubEntries_eq, plainEntries_eq, List.map_map]
      congr 1
      refine eq_map_of_forall₂ (forall₂_mapM hentries) fun e _ e' he => ?_
      dsimp only [Function.comp]
      split at he
      · next hmasks =>
        cases he
        rw [if_pos hmasks]
      · next hmasks =>
        rw [if_neg hmasks]
        split at he
        · obtain ⟨v, hv, rfl⟩ := Option.map_eq_some_iff.mp he
          rw [ih.2 _ _ hv]
        · next hcontainer =>
          cases he
          rw [hrec, Bool.true_and] at hcontainer
          cases hvalue : e.2 with
          | array items => simp [hvalue, Json.Value.isContainer] at hcontainer
          | object entries => simp [hvalue, Json.Value.isContainer] at hcontainer
          | _ => rfl
    · intro v w hw
      cases v with
      | object entries => exact ih.1 entries w hw
      | array items =>
        obtain ⟨items', hitems, rfl⟩ := Option.map_eq_some_iff.mp hw
        rw [plain, Scrubbed.scrub, scrubItems_eq, plainItems_eq, List.map_map]
        congr 1
        exact eq_map_of_forall₂ (forall₂_mapM hitems) fun u _ u' hu => ih.2 u u' hu
      | _ =>
        cases hw
        rfl

end

/-! ### An event -/

/-- A dict stays a dict. -/
theorem Settled.isDict {masks : List Char → Bool} (hs : Settled masks h h') {v : Scrubbed} {b : Nat}
    (hv : Shows h (fun _ => True) v (.object b)) (hdict : h.isDict b) : h'.isDict b := by
  obtain ⟨d, hobj⟩ := hdict
  cases v with
  | object es =>
    obtain ⟨es', ⟨b', d', heq, -, hobj', -⟩, -⟩ := hs.entries hv
    cases heq
    exact ⟨d', hobj'⟩
  | array vs =>
    obtain ⟨b', items, heq, -, hobj', -⟩ := hv
    cases heq
    obtain hobj' | hobj' := hobj' <;> rw [hobj'] at hobj <;> cases hobj
  | _ => cases hv

/-- What is a list stays one, and nothing becomes one, while only dicts are changed. -/
theorem look_list {masks : List Char → Bool} {free : Nat → Prop} (hs : Settled masks h h')
    (hg : Heap.Grown (fun b => free b ∧ h.isDict b) h h') {v : Scrubbed} {r : Ref} (hv : Shows h (fun _ => True) v r)
    (items : List Ref) : Objects.look h' r = some (.list items) ↔ Objects.look h r = some (.list items) := by
  cases r with
  | leaf l => rfl
  | object b =>
    by_cases hdict : h.isDict b
    · obtain ⟨d', hobj'⟩ := hs.isDict hv hdict
      obtain ⟨d, hobj⟩ := hdict
      simp [Objects.look, hobj, hobj']
    · have hsame := hg.kept b hv.lt_next fun hfree => hdict hfree.2
      rw [Objects.look, Objects.look, hsame]

/-- **An event is masked in place.** The dicts given to the scrubber end with their entries
masked and the request with a masked copy of a list body, all on new objects, whatever the
application shares between them; any other object that was there is left as it was. -/
theorem scrubbed_in_place {lower : List Char → List Char} {scrubber : SensitiveKeyScrubber} {calls : Nat}
    (hrec : scrubber.recursive = true) {h : Objects} {before after : List Ref} {request : Nat}
    (htargets : ∀ r ∈ before ++ after, ∃ v, Shows h (fun _ => True) v r ∧ v.calls ≤ calls)
    (hrequest : ∃ es, Shows h (fun _ => True) (.object es) (.object request) ∧ (Scrubbed.object es).calls ≤ calls)
    (hnot : .object request ∉ before ++ after) :
    ∃ h', scrubEvent lower scrubber calls before request after h = (h', .ok ()) ∧
      (∀ a o, h.obj a = some o →
        h'.obj a = some o ∨ (∃ d, o = .dict d) ∧ (.object a ∈ before ++ after ∨ a = request)) ∧
      (∀ a, .object a ∈ before ++ after → MaskedAt (scrubber.masks lower) a h h') ∧
      BodyMasked (scrubber.masks lower) request h h' ∧
      ∀ v w, scrubbedCopy lower scrubber calls v = some w → w = (plain v).scrub (scrubber.masks lower) := by
  rw [List.mem_append, not_or] at hnot
  have hold (b : Nat) (hb : .object b ∈ before ++ after) : b < h.next := by
    obtain ⟨v, hv, -⟩ := htargets _ hb
    exact hv.lt_next
  rw [List.forall_mem_append] at htargets
  obtain ⟨es, hes, hcalls⟩ := hrequest
  have hrequest : request < h.next := hes.lt_next
  -- The three parts run one after the other: the dicts before the request, its body, the dicts after it.
  obtain ⟨h₁, hrun₁, hgrown₁, hsettled₁, hmasked₁⟩ := scrubEach_spec lower hrec htargets.1
  obtain ⟨es₁, hes₁, -, hless₁⟩ := hsettled₁.entries hes
  obtain ⟨h₂, hrun₂, hgrown₂, hsettled₂, hbody⟩ := scrubBody_spec lower hrec hes₁ (Nat.le_trans hless₁ hcalls)
  have hafter : ∀ r ∈ after, ∃ v, Shows h₂ (fun _ => True) v r ∧ v.calls ≤ calls := by
    intro r hr
    obtain ⟨v, hv, hle⟩ := htargets.2 r hr
    obtain ⟨v', hv', -, hless⟩ := hsettled₁.trans hsettled₂ v r hv
    exact ⟨v', hv', Nat.le_trans hless hle⟩
  obtain ⟨h', hrun, hgrown, hsettled, hmasked⟩ := scrubEach_spec lower hrec hafter
  refine ⟨h', ?_, ?_, ?_, ?_, (scrubbed_eq hrec calls).2⟩
  · rw [scrubEvent, Program.bind_ok hrun₁, Program.bind_ok hrun₂, hrun]
  -- An object that is not given is kept by each of the three.
  · intro a o hobj
    have ha : a < h.next := Heap.lt_next hobj
    by_cases hgiven : (∃ d, o = .dict d) ∧ (.object a ∈ before ++ after ∨ a = request)
    · exact .inr hgiven
    · have hsame₁ : h₁.obj a = some o := by
        rw [hgrown₁.kept a ha, hobj]
        rintro ⟨hmem, d, hdict⟩
        rw [hobj] at hdict
        exact hgiven ⟨⟨d, Option.some.inj hdict⟩, .inl (List.mem_append_left _ hmem)⟩
      have hsame₂ : h₂.obj a = some o := by
        rw [hgrown₂.kept a (Heap.lt_next hsame₁), hsame₁]
        rintro rfl
        obtain ⟨b, d, heq, -, hdict, -⟩ := hes
        cases heq
        rw [hobj] at hdict
        exact hgiven ⟨⟨d, Option.some.inj hdict⟩, .inr rfl⟩
      refine .inl ((hgrown.kept a (Heap.lt_next hsame₂) ?_).trans hsame₂)
      rintro ⟨hmem, d, hdict⟩
      rw [hsame₂] at hdict
      exact hgiven ⟨⟨d, Option.some.inj hdict⟩, .inl (List.mem_append_right _ hmem)⟩
  -- A dict is masked by the part it is given to, and what comes after settles on the same.
  · intro a hmem
    by_cases hlater : .object a ∈ after
    · exact (hmasked a hlater).of_settled (hsettled₁.trans hsettled₂) (Nat.le_trans hgrown₁.next hgrown₂.next)
    · have hin : .object a ∈ before := (List.mem_append.1 hmem).resolve_right hlater
      have hbody : MaskedAt (scrubber.masks lower) a h h₂ := by
        apply (hmasked₁ a hin).of_grown hgrown₂
        · rintro rfl
          exact hnot.1 hin
        · rintro b rfl
          exact hrequest
      exact hbody.of_grown hgrown (fun hfree => hlater hfree.1) fun b hfree =>
        hold b (List.mem_append_right _ hfree.1)
  -- The body is masked in between. Its copy is new, so the last part leaves it.
  · intro rq hrq
    have hrq₁ : h₁.obj request = some (.dict rq) := (hgrown₁.kept request hrequest fun hfree => hnot.1 hfree.1).trans hrq
    obtain ⟨rq', hrq', hkeys, hdata'⟩ := hbody rq hrq₁
    refine ⟨rq', (hgrown.kept request (Heap.lt_next hrq') fun hfree => hnot.2 hfree.1).trans hrq', hkeys, ?_⟩
    intro data hdata
    obtain ⟨data', hget, hlist, hother⟩ := hdata' data hdata
    obtain ⟨v, hv⟩ : ∃ v, Shows h (fun _ => True) v data := by
      obtain ⟨b, d, heq, -, hobj, hentries⟩ := hes
      cases heq
      rw [hrq] at hobj
      cases hobj
      obtain ⟨v, hv, -⟩ := ShowsEntries.of_mem es (Dict.mem_entries.2 hdata) hentries
      exact ⟨v, hv⟩
    refine ⟨data', hget, fun ⟨items, hlook⟩ w hw => ?_, fun hnone => hother fun ⟨items, hlook⟩ => ?_⟩
    · obtain ⟨w₁, hw₁, hscrub, -⟩ := hsettled₁ w data hw
      have hshown := hlist ⟨items, (look_list hsettled₁ hgrown₁ hv items).2 hlook⟩ w₁ hw₁
      rw [hscrub] at hshown
      refine Shows.imp (fun b o hb ho => ⟨Nat.le_trans hgrown₁.next hb, ?_⟩) _ hshown
      refine (hgrown.kept b (Heap.lt_next ho) fun hfree => ?_).trans ho
      have hlt := hold b (List.mem_append_right _ hfree.1)
      exact Nat.not_lt_of_le (Nat.le_trans hgrown₁.next hb) hlt
    · exact hnone ⟨items, (look_list hsettled₁ hgrown₁ hv items).1 hlook⟩

/-- At 0 the extra data with the password of the database, at 1 the settings of the application, which are
in the extra data and in the body both, at 2 the request and at 3 its body. -/
def shared : Objects := .ofList [
  .dict ⟨[("db_password".toList, .leaf (.string "elm".toList)), ("settings".toList, .object 1)], by decide⟩,
  .dict ⟨[("token".toList, .leaf (.string "oak".toList)), ("retries".toList, .leaf (.number "3".toList))], by decide⟩,
  .dict ⟨[("method".toList, .leaf (.string "POST".toList)), ("data".toList, .object 3)], by decide⟩,
  .list [.object 1, .leaf .null]]

/-- The settings are masked in the event, twice, and nowhere else. -/
theorem scrubbed_in_place_shared :
    ∃ h', scrubEvent asciiLower ⟨["password".toList], true⟩ 9 [.object 3] 2 [.object 0] shared = (h', .ok ()) ∧
      h'.obj 1 = shared.obj 1 ∧ h'.obj 3 = shared.obj 3 ∧
      (∃ d, h'.obj 0 = some (.dict d) ∧ ShowsEntries h' (4 ≤ ·)
        [("db_password".toList, .filtered),
          ("settings".toList, .object [("token".toList, .filtered), ("retries".toList, .number "3".toList)])] d.entries) ∧
      ∃ d data, h'.obj 2 = some (.dict d) ∧ d.get "data".toList = some data ∧
        Shows h' (4 ≤ ·) (.array [.object [("token".toList, .filtered), ("retries".toList, .number "3".toList)], .null]) data := by
  have hsettings : Shows shared (fun _ => True)
      (.object [("token".toList, .string "oak".toList), ("retries".toList, .number "3".toList)]) (.object 1) :=
    ⟨1, _, rfl, trivial, rfl, _, _, rfl, rfl, _, _, rfl, rfl, rfl⟩
  have hextra : Shows shared (fun _ => True) (.object [("db_password".toList, .string "elm".toList), ("settings".toList,
      .object [("token".toList, .string "oak".toList), ("retries".toList, .number "3".toList)])]) (.object 0) :=
    ⟨0, _, rfl, trivial, rfl, _, _, rfl, rfl, _, _, rfl, hsettings, rfl⟩
  have hbody : Shows shared (fun _ => True) (.array [.object
      [("token".toList, .string "oak".toList), ("retries".toList, .number "3".toList)], .null]) (.object 3) :=
    ⟨3, _, rfl, trivial, .inl rfl, _, _, rfl, hsettings, _, _, rfl, rfl, rfl⟩
  have hrequest : Shows shared (fun _ => True) (.object [("method".toList, .string "POST".toList), ("data".toList,
      .array [.object [("token".toList, .string "oak".toList), ("retries".toList, .number "3".toList)], .null])]) (.object 2) :=
    ⟨2, _, rfl, trivial, rfl, _, _, rfl, rfl, _, _, rfl, hbody, rfl⟩
  obtain ⟨h', hrun, hkept, hmasked, hmaskedBody, -⟩ :=
    @scrubbed_in_place asciiLower ⟨["password".toList], true⟩ 9 rfl shared [.object 3] [.object 0] 2
      (by
        intro r hr
        obtain rfl | rfl : r = .object 3 ∨ r = .object 0 := by simpa using hr
        · exact ⟨_, hbody, by decide⟩
        · exact ⟨_, hextra, by decide⟩)
      ⟨_, hrequest, by decide⟩ (by simp)
  obtain ⟨rq, hobj, -, hdata⟩ := hmaskedBody _ rfl
  obtain ⟨data, hget, hlist, -⟩ := hdata (.object 3) rfl
  refine ⟨h', hrun, ?_, ?_, hmasked 0 (by simp) _ hextra, rq, data, hobj, hget, hlist ⟨_, rfl⟩ _ hbody⟩
  · exact (hkept 1 _ rfl).resolve_right fun hgiven => by simp at hgiven
  · exact (hkept 3 _ rfl).resolve_right fun hgiven => by simp at hgiven

end PyAppRunner.Requests
