import Mathlib.Data.List.Sort
import PyAppRunner.Base.Run
import PyAppRunner.Crypto.Fields

/-! `cmd_rotate`: re-encrypt a column onto the current key, with an application that goes on
writing to it.

The command reads the table page by page and updates row by row, each statement on its
own. An input is one step of the command or one write of the application, so that an
interleaving is a list of inputs. Beside the table stands what the application last
wrote to each row (`said`): every row says that in every state (`kept_inv`), because
the update lets go of a value that is no longer the one it read. -/
namespace PyAppRunner.Crypto
open Base FieldCrypto

/-! ### The table -/

/-- The rows of a table, in the order of the id column, and the column to rotate. -/
structure Table (ι : Type) [LinearOrder ι] where
  ids : List ι
  sorted : ids.Pairwise (· < ·)
  value : ι → Option String

namespace Table
variable {ι : Type} [LinearOrder ι]

/-- The ids of `WHERE id > cursor`, or of all rows before the first page. -/
def after (t : Table ι) : Option ι → List ι
  | none => t.ids
  | some cursor => t.ids.filter (cursor < ·)

/-- `SELECT id, value … ORDER BY id LIMIT batch`. -/
def page (t : Table ι) (cursor : Option ι) (batch : Nat) : List (ι × Option String) :=
  ((t.after cursor).take batch).map fun i => (i, t.value i)

/-- A column gets a value. -/
def set (t : Table ι) (i : ι) (v : Option String) : Table ι := { t with value := Function.update t.value i v }

/-- A new row. One with that id must not be there yet. -/
def insert (t : Table ι) (i : ι) (v : Option String) : Table ι :=
  if h : i ∈ t.ids then t
  else
    { ids := t.ids.orderedInsert (· ≤ ·) i
      sorted := by
        have hle := List.Pairwise.orderedInsert i t.ids (t.sorted.imp fun h => le_of_lt h)
        have hnodup : (t.ids.orderedInsert (· ≤ ·) i).Nodup :=
          (List.perm_orderedInsert (· ≤ ·) i t.ids).nodup_iff.2
            (List.nodup_cons.2 ⟨h, t.sorted.imp fun h => ne_of_lt h⟩)
        exact (hle.and hnodup).imp fun h => lt_of_le_of_ne h.1 h.2
      value := Function.update t.value i v }

/-- A row goes. -/
def delete (t : Table ι) (i : ι) : Table ι where
  ids := t.ids.filter (· ≠ i)
  sorted := t.sorted.filter _
  value := t.value

end Table

/-! ### The command -/

/-- What `cmd_rotate` is called with. -/
structure Params where
  aead : Aead
  crypto : FieldCrypto
  table : String
  column : String
  idColumn : String
  batch : Int
  dryRun : Bool

/-- What is reported, in the order of the source. -/
inductive Line (ι : Type) where
  | notPlainTable (table : String)
  | notPlainColumn (column : String)
  | notPlainId (idColumn : String)
  | badBatch
  | noKey (e : CryptoError)
  | rotating (current : String) (dryRun : Bool)
  | cannotRead
  | rowRefused (id : ι) (e : CryptoError)
  | rowFailed (id : ι)
  | read (seen : Nat)
  | notEncrypted (plaintext : Nat)
  | wouldBeReencrypted (rotated : Nat)
  | reencrypted (rotated : Nat)
  | writtenByOthers (changed : Nat)
  deriving DecidableEq

/-- An exit code, or an exception that is not caught. -/
inductive Exit where
  | code (n : Nat)
  | raised
  deriving DecidableEq

/-- Where the command is. `short` says that the page had fewer rows than asked for. -/
inductive Pc (ι : Type) where
  | read
  | scan (rows : List (ι × Option String)) (short : Bool)
  | write (id : ι) (value fresh : String) (rows : List (ι × Option String)) (short : Bool)
  | done (exit : Exit)
  deriving DecidableEq

/-- The variables of the command. `visited` are the rows it is through with. -/
structure Rotation (ι : Type) where
  current : String
  cursor : Option ι
  seen : Nat
  rotated : Nat
  changed : Nat
  plaintext : Nat
  lines : List (Line ι)
  visited : List ι
  pc : Pc ι

/-- A name that is written without quotes. -/
def isName (word : List Char) : Bool :=
  let letter (c : Char) := ('A' ≤ c && c ≤ 'Z') || ('a' ≤ c && c ≤ 'z') || c = '_'
  match word with
  | [] => false
  | c :: rest => letter c && rest.all fun c => letter c || ('0' ≤ c && c ≤ '9')

/-- `_TABLE_RE.match`. -/
def isTableName (s : List Char) : Bool :=
  let parts := Text.split '.' (Text.beforeLastBreak s)
  parts.length ≤ 2 && parts.all isName

/-- `_COLUMN_RE.match`. -/
def isColumnName (s : List Char) : Bool := isName (Text.beforeLastBreak s)

section
variable {ι : Type}

/-- A rotation before its first statement. -/
def Rotation.new (current : String) (lines : List (Line ι)) (pc : Pc ι) : Rotation ι where
  current := current
  cursor := none
  seen := 0
  rotated := 0
  changed := 0
  plaintext := 0
  lines := lines
  visited := []
  pc := pc

/-- The command up to its loop. -/
def Params.begin (p : Params) : Rotation ι :=
  if ¬ isTableName p.table.toList then .new "" [.notPlainTable p.table] (.done (.code 2))
  else if ¬ isColumnName p.column.toList then .new "" [.notPlainColumn p.column] (.done (.code 2))
  else if ¬ isColumnName p.idColumn.toList then .new "" [.notPlainId p.idColumn] (.done (.code 2))
  else if p.batch < 1 then .new "" [.badBatch] (.done (.code 2))
  else match p.crypto.currentKeyId with
    | .error e => .new "" [.noKey e] (.done (.code 1))
    | .ok current => .new current [.rotating current p.dryRun] .read

theorem begin_cases (p : Params) :
    (∃ exit, (p.begin : Rotation ι).pc = .done exit ∧ exit ≠ .code 0) ∨
      ∃ current, p.crypto.currentKeyId = .ok current ∧ isKeyId current.toList ∧ 1 ≤ p.batch ∧
        ∀ dryRun, Params.begin { p with dryRun := dryRun } =
          Rotation.new (ι := ι) current [.rotating current dryRun] .read := by
  unfold Params.begin
  by_cases htable : isTableName p.table.toList
  · by_cases hcolumn : isColumnName p.column.toList
    · by_cases hid : isColumnName p.idColumn.toList
      · by_cases hbatch : p.batch < 1
        · simp [htable, hcolumn, hid, hbatch, Rotation.new]
        · cases hcurrent : p.crypto.currentKeyId with
          | error e => simp [htable, hcolumn, hid, hbatch, Rotation.new]
          | ok current =>
            right
            refine ⟨current, rfl, ?_, by omega, by simp [htable, hcolumn, hid, hbatch, hcurrent]⟩
            unfold FieldCrypto.currentKeyId assertKeyId at hcurrent
            split at hcurrent
            · cases hcurrent
            · split at hcurrent
              · next hgood => exact Except.ok.inj hcurrent ▸ hgood
              · cases hcurrent
      · simp [htable, hcolumn, hid, Rotation.new]
    · simp [htable, hcolumn, Rotation.new]
  · simp [htable, Rotation.new]

namespace Rotation

/-- A line of error, and the exit code 1. -/
def fail (r : Rotation ι) (line : Line ι) : Rotation ι :=
  { r with lines := r.lines ++ [line], pc := .done (.code 1) }

/-- The report at the end. -/
def finish (p : Params) (r : Rotation ι) : Rotation ι :=
  { r with
    lines := r.lines ++ [.read r.seen] ++ (if r.plaintext > 0 then [.notEncrypted r.plaintext] else []) ++
      [if p.dryRun then .wouldBeReencrypted r.rotated else .reencrypted r.rotated] ++
      (if r.changed > 0 then [.writtenByOthers r.changed] else [])
    pc := .done (.code 0) }

/-- On to the rows that are left of the page. -/
def next (r : Rotation ι) (i : ι) (rows : List (ι × Option String)) (short : Bool) : Rotation ι :=
  { r with visited := r.visited ++ [i], pc := .scan rows short }

/-- The body of the loop over a page, up to the update. -/
def row (p : Params) (nonce : Nonce) (r : Rotation ι) (i : ι) (value : Option String)
    (rows : List (ι × Option String)) (short : Bool) : Rotation ι :=
  let r := { r with seen := r.seen + 1, cursor := some i }
  match value with
  | none => r.next i rows short
  | some text =>
    if text = "" then r.next i rows short
    else match keyIdOf (some text) with
      | .error e => r.fail (.rowRefused i e)
      | .ok none => { r with plaintext := r.plaintext + 1 }.next i rows short
      | .ok (some found) =>
        if found = r.current then r.next i rows short
        else if p.dryRun then { r with rotated := r.rotated + 1 }.next i rows short
        else match p.crypto.decrypt p.aead (some text) with
          | .error (.crypto e) => r.fail (.rowRefused i e)
          | .error .unicodeDecode => { r with pc := .done .raised }
          | .ok said =>
            match p.crypto.encrypt p.aead nonce (said.getD "None") (some r.current) with
            | .error e => r.fail (.rowRefused i e)
            | .ok fresh => { r with pc := .write i text fresh rows short }

end Rotation

/-- How a statement ends: with its result, with `psycopg.Error`, or with `psycopg.Error` after
it has taken effect. -/
inductive Answer where
  | result
  | failed
  | lost
  deriving DecidableEq

/-- The table, what the application last wrote to each row, and the command. -/
structure World (ι : Type) [LinearOrder ι] where
  table : Table ι
  said : ι → Option String
  rotation : Rotation ι

/-- A statement of the rotation, or a write of somebody else. -/
inductive Input (ι : Type) where
  | step (answer : Answer) (nonce : Nonce)
  | write (i : ι) (value : Option String)
  | insert (i : ι) (value : Option String)
  | delete (i : ι)

variable [LinearOrder ι]

/-- The update found the value it had read. -/
def World.matching (w : World ι) (i : ι) (value : String) : Bool :=
  decide (i ∈ w.table.ids ∧ w.table.value i = some value)

/-- `UPDATE … SET value = fresh WHERE id = i AND value = value`. -/
def World.update (w : World ι) (i : ι) (value fresh : String) : World ι :=
  if w.matching i value then { w with table := w.table.set i (some fresh) } else w

/-- One step of the command. -/
def World.step (p : Params) (answer : Answer) (nonce : Nonce) (w : World ι) : World ι :=
  let r := w.rotation
  match r.pc with
  | .read =>
    match answer with
    | .result =>
      let rows := w.table.page r.cursor p.batch.toNat
      if rows = [] then { w with rotation := r.finish p }
      else { w with rotation := { r with pc := .scan rows (decide (rows.length < p.batch.toNat)) } }
    | _ => { w with rotation := r.fail .cannotRead }
  | .scan [] short =>
    if short then { w with rotation := r.finish p } else { w with rotation := { r with pc := .read } }
  | .scan ((i, value) :: rows) short => { w with rotation := r.row p nonce i value rows short }
  | .write i value fresh rows short =>
    match answer with
    | .result =>
      let r :=
        if w.matching i value then { r with rotated := r.rotated + 1 } else { r with changed := r.changed + 1 }
      { w.update i value fresh with rotation := r.next i rows short }
    | .failed => { w with rotation := r.fail (.rowFailed i) }
    | .lost => { w.update i value fresh with rotation := r.fail (.rowFailed i) }
  | .done _ => w

/-- The command and the application. -/
def machine (p : Params) : Machine (World ι) (Input ι) where
  step
    | .step answer nonce, w => w.step p answer nonce
    | .write i v, w =>
      if i ∈ w.table.ids then { w with table := w.table.set i v, said := Function.update w.said i v } else w
    | .insert i v, w =>
      if i ∈ w.table.ids then w
      else { w with table := w.table.insert i v, said := Function.update w.said i v }
    | .delete i, w => { w with table := w.table.delete i }

/-- The command is about to start on a table. -/
def start (p : Params) (t : Table ι) : World ι := ⟨t, t.value, p.begin⟩

end

/-! ### One row -/

/-- The value is encrypted, under another key than the current one. -/
def stale (current : String) (value : Option String) : Bool :=
  match keyIdOf value with
  | .ok (some found) => found ≠ current
  | _ => false

section
variable {ι : Type}

/-- How the body of the loop can end. -/
inductive RowEnds (p : Params) (nonce : Nonce) (r : Rotation ι) (i : ι) (value : Option String)
    (rows : List (ι × Option String)) (short : Bool) : Rotation ι → Prop where
  /-- There is nothing to do. -/
  | skip (plaintext : Nat) (h : keyIdOf value = .ok none ∨ keyIdOf value = .ok (some r.current)) :
    RowEnds p nonce r i value rows short
      ({ r with seen := r.seen + 1, cursor := some i, plaintext := plaintext }.next i rows short)
  /-- It is counted, and left alone. -/
  | count (hdry : p.dryRun = true) (hstale : stale r.current value = true) :
    RowEnds p nonce r i value rows short
      ({ r with seen := r.seen + 1, cursor := some i, rotated := r.rotated + 1 }.next i rows short)
  /-- The command ends. -/
  | stop (lines : List (Line ι)) (exit : Exit) (hexit : exit ≠ .code 0)
    (h : (∃ e, keyIdOf value = .error e) ∨ p.dryRun = false) :
    RowEnds p nonce r i value rows short
      { r with seen := r.seen + 1, cursor := some i, lines := lines, pc := .done exit }
  /-- It is to be updated. -/
  | write (text fresh : String) (said : Option String) (hdry : p.dryRun = false) (hvalue : value = some text)
    (hstale : stale r.current value = true) (hdecrypt : p.crypto.decrypt p.aead (some text) = .ok said)
    (hencrypt : p.crypto.encrypt p.aead nonce (said.getD "None") (some r.current) = .ok fresh) :
    RowEnds p nonce r i value rows short
      { r with seen := r.seen + 1, cursor := some i, pc := .write i text fresh rows short }

theorem row_ends (p : Params) (nonce : Nonce) (r : Rotation ι) (i : ι) (value : Option String)
    (rows : List (ι × Option String)) (short : Bool) :
    RowEnds p nonce r i value rows short (r.row p nonce i value rows short) := by
  cases value with
  | none => exact .skip r.plaintext (.inl rfl)
  | some text =>
    by_cases hempty : text = ""
    · subst hempty
      exact .skip r.plaintext (.inl rfl)
    · simp only [Rotation.row, if_neg hempty]
      cases hkey : keyIdOf (some text) with
      | error e => exact .stop _ _ (by decide) (.inl ⟨e, hkey⟩)
      | ok found =>
        cases found with
        | none => exact .skip _ (.inl hkey)
        | some found =>
          by_cases hfound : found = r.current
          · simp only [if_pos hfound]
            exact .skip r.plaintext (.inr (hfound ▸ hkey))
          · have hstale : stale r.current (some text) = true := by simp [stale, hkey, hfound]
            simp only [if_neg hfound]
            cases hdry : p.dryRun with
            | true => exact .count hdry hstale
            | false =>
              simp only [Bool.false_eq_true, if_false]
              cases hdecrypt : p.crypto.decrypt p.aead (some text) with
              | error e =>
                cases e with
                | crypto e => exact .stop _ _ (by decide) (.inr hdry)
                | unicodeDecode => exact .stop r.lines _ (by decide) (.inr hdry)
              | ok said =>
                cases hencrypt : p.crypto.encrypt p.aead nonce (said.getD "None") (some r.current) with
                | error e =>
                  simp only [hencrypt]
                  exact .stop _ _ (by decide) (.inr hdry)
                | ok fresh =>
                  simp only [hencrypt]
                  exact .write text fresh said hdry rfl hstale hdecrypt hencrypt

end

/-! ### What a row says -/

/-- The new value says what the old one said, and is the old one unless that was encrypted. -/
def Kept (p : Params) (said now : Option String) : Prop :=
  p.crypto.decrypt p.aead now = p.crypto.decrypt p.aead said ∧ (isEncrypted said = false → now = said)

theorem Kept.refl (p : Params) (value : Option String) : Kept p value value := ⟨rfl, fun _ => rfl⟩

/-- The update says what the value it replaces says. -/
structure Rewrites (p : Params) (value fresh : String) : Prop where
  encrypted : isEncrypted (some value) = true
  decrypt_eq : p.crypto.decrypt p.aead (some fresh) = p.crypto.decrypt p.aead (some value)

theorem keyIdOf_plain {value : String} (h : isEncrypted (some value) = false) :
    keyIdOf (some value) = .ok none := by
  rw [keyIdOf]
  split
  · rfl
  · simp only [split_eq_none.2 h]

theorem isEncrypted_of_keyIdOf {value : String} {k : String} (h : keyIdOf (some value) = .ok (some k)) :
    isEncrypted (some value) = true := by
  apply Bool.eq_true_of_not_eq_false
  intro hplain
  rw [keyIdOf_plain hplain] at h
  cases h

theorem keyIdOf_encrypted_ne_none {value : String} (h : isEncrypted (some value) = true) :
    keyIdOf (some value) ≠ .ok none := by
  intro hnone
  rw [keyIdOf, if_neg (tagged_ne_empty h)] at hnone
  split at hnone
  · cases hnone
  · next hsplit =>
    rw [split_eq_none] at hsplit
    rw [isEncrypted, hsplit] at h
    cases h
  · cases hnone

theorem isEncrypted_of_stale {current : String} {value : String} (h : stale current (some value) = true) :
    isEncrypted (some value) = true := by
  unfold stale at h
  split at h
  · next hkey => exact isEncrypted_of_keyIdOf hkey
  · cases h

/-- A value of the format decrypts to a text. -/
theorem isSome_of_decrypt {aead : Aead} {c : FieldCrypto} {value : String} {said : Option String}
    (henc : isEncrypted (some value) = true) (h : c.decrypt aead (some value) = .ok said) :
    ∃ text, said = some text := by
  obtain hbad | ⟨k, payload, -, -, -, hdecrypt⟩ := decrypt_own aead c henc
  · rw [hbad] at h
    cases h
  · rw [hdecrypt] at h
    cases hopened : c.opened aead k payload with
    | error e =>
      rw [hopened] at h
      cases h
    | ok text =>
      rw [hopened] at h
      exact ⟨text, (Except.ok.inj h).symm⟩

/-- Encrypted under the current key, what a value says is the same. -/
theorem rewrites {p : Params} (inverts : p.aead.Inverts) {nonce : Nonce} {current text fresh : String}
    {said : Option String} (hstale : stale current (some text) = true)
    (hdecrypt : p.crypto.decrypt p.aead (some text) = .ok said)
    (hencrypt : p.crypto.encrypt p.aead nonce (said.getD "None") (some current) = .ok fresh) :
    Rewrites p text fresh := by
  have henc := isEncrypted_of_stale hstale
  refine ⟨henc, ?_⟩
  obtain ⟨plain, rfl⟩ := isSome_of_decrypt henc hdecrypt
  obtain ⟨k, key, hk, hkey, -⟩ := of_encrypt hencrypt
  obtain ⟨v, hv, hback, -⟩ := decrypt_encrypt hk hkey (inverts key nonce.val (utf8 plain) (aad k))
  obtain rfl : v = fresh := Except.ok.inj (hv.symm.trans hencrypt)
  rw [hback, hdecrypt]

section
variable {ι : Type} [LinearOrder ι]

/-- Everything one step of the command can do. -/
inductive StepEnds (p : Params) (answer : Answer) (nonce : Nonce) (w : World ι) : World ι → Prop where
  | stay {exit : Exit} (hpc : w.rotation.pc = .done exit) : StepEnds p answer nonce w w
  | finish
    (h : w.rotation.pc = .read ∧ w.table.page w.rotation.cursor p.batch.toNat = [] ∨
      w.rotation.pc = .scan [] true) :
    StepEnds p answer nonce w { w with rotation := w.rotation.finish p }
  | unread (hanswer : answer ≠ .result) (hpc : w.rotation.pc = .read) :
    StepEnds p answer nonce w { w with rotation := w.rotation.fail .cannotRead }
  | load (hpc : w.rotation.pc = .read) {rows : List (ι × Option String)}
    (hrows : rows = w.table.page w.rotation.cursor p.batch.toNat) (hne : rows ≠ []) :
    StepEnds p answer nonce w
      { w with rotation := { w.rotation with pc := .scan rows (decide (rows.length < p.batch.toNat)) } }
  | turn (hpc : w.rotation.pc = .scan [] false) :
    StepEnds p answer nonce w { w with rotation := { w.rotation with pc := .read } }
  | row {i : ι} {value : Option String} {rows : List (ι × Option String)} {short : Bool} {r : Rotation ι}
    (hpc : w.rotation.pc = .scan ((i, value) :: rows) short)
    (hends : RowEnds p nonce w.rotation i value rows short r) :
    StepEnds p answer nonce w { w with rotation := r }
  | updated {i : ι} {value fresh : String} {rows : List (ι × Option String)} {short : Bool}
    (hpc : w.rotation.pc = .write i value fresh rows short) (hmatch : w.matching i value = true) :
    StepEnds p answer nonce w
      { w with
        table := w.table.set i (some fresh)
        rotation := { w.rotation with rotated := w.rotation.rotated + 1 }.next i rows short }
  | passed {i : ι} {value fresh : String} {rows : List (ι × Option String)} {short : Bool}
    (hpc : w.rotation.pc = .write i value fresh rows short) (hmatch : w.matching i value = false) :
    StepEnds p answer nonce w
      { w with rotation := { w.rotation with changed := w.rotation.changed + 1 }.next i rows short }
  | failed (hanswer : answer ≠ .result) {i : ι} {value fresh : String} {rows : List (ι × Option String)}
    {short : Bool} (hpc : w.rotation.pc = .write i value fresh rows short) :
    StepEnds p answer nonce w { w with rotation := w.rotation.fail (.rowFailed i) }
  | lost (hanswer : answer ≠ .result) {i : ι} {value fresh : String} {rows : List (ι × Option String)}
    {short : Bool} (hpc : w.rotation.pc = .write i value fresh rows short) :
    StepEnds p answer nonce w { w.update i value fresh with rotation := w.rotation.fail (.rowFailed i) }

theorem step_ends (p : Params) (answer : Answer) (nonce : Nonce) (w : World ι) :
    StepEnds p answer nonce w (w.step p answer nonce) := by
  unfold World.step
  dsimp only
  split
  · next hpc =>
    split
    · by_cases hrows : w.table.page w.rotation.cursor p.batch.toNat = []
      · rw [if_pos hrows]
        exact .finish (.inl ⟨hpc, hrows⟩)
      · rw [if_neg hrows]
        exact .load hpc rfl hrows
    · next hanswer => exact .unread hanswer hpc
  · next short hpc =>
    cases short with
    | true => exact .finish (.inr hpc)
    | false => exact .turn hpc
  · next hpc => exact .row hpc (row_ends ..)
  · next i value fresh rows short hpc =>
    cases answer with
    | result =>
      cases hmatch : w.matching i value with
      | true =>
        simp only [World.update, hmatch, if_true]
        exact .updated hpc hmatch
      | false =>
        simp only [World.update, hmatch, Bool.false_eq_true, if_false]
        exact .passed hpc hmatch
    | failed => exact .failed (by decide) hpc
    | lost => exact .lost (by decide) hpc
  · next hpc => exact .stay hpc

/-- Every row says what the application last wrote, and an update under way says it too. -/
structure Faithful (p : Params) (w : World ι) : Prop where
  rows : ∀ i ∈ w.table.ids, Kept p (w.said i) (w.table.value i)
  pending : ∀ {i value fresh rows short}, w.rotation.pc = .write i value fresh rows short →
    Rewrites p value fresh

theorem Faithful.update {p : Params} {w : World ι} (h : Faithful p w) {i : ι} {value fresh : String}
    (hrewrites : Rewrites p value fresh) :
    ∀ j ∈ (w.update i value fresh).table.ids,
      Kept p ((w.update i value fresh).said j) ((w.update i value fresh).table.value j) := by
  unfold World.update
  split
  · next hmatch =>
    simp only [World.matching, decide_eq_true_eq] at hmatch
    intro j hj
    have hrow := h.rows j hj
    by_cases hji : j = i
    · subst hji
      rw [hmatch.2] at hrow
      refine ⟨?_, ?_⟩
      · simp only [Table.set, Function.update_self]
        rw [hrewrites.decrypt_eq, hrow.1]
      · -- What the application wrote is encrypted: else the row still held it, and it is not.
        intro hplain
        have := hrow.2 hplain
        rw [← this, hrewrites.encrypted] at hplain
        cases hplain
    · simpa [Table.set, Function.update_of_ne hji] using hrow
  · exact h.rows

theorem faithful_worldStep {p : Params} (inverts : p.aead.Inverts) (answer : Answer) (nonce : Nonce)
    {w : World ι} (h : Faithful p w) : Faithful p (w.step p answer nonce) := by
  have hends := step_ends p answer nonce w
  generalize w.step p answer nonce = w' at hends
  cases hends with
  | stay hpc => exact h
  | finish hend => exact ⟨h.rows, fun hpc => by cases hpc⟩
  | unread hanswer hpc => exact ⟨h.rows, fun hpc => by cases hpc⟩
  | load hpc hrows => exact ⟨h.rows, fun hpc => by cases hpc⟩
  | turn hpc => exact ⟨h.rows, fun hpc => by cases hpc⟩
  | row hpc hends =>
    refine ⟨h.rows, ?_⟩
    intro j value fresh rows short hpc'
    cases hends with
    | skip => cases hpc'
    | count => cases hpc'
    | stop => cases hpc'
    | write text fresh said hdry hvalue hstale hdecrypt hencrypt =>
      cases hpc'
      subst hvalue
      exact rewrites inverts hstale hdecrypt hencrypt
  | @updated i value fresh rows short hpc hmatch =>
    have hupdate := h.update (i := i) (h.pending hpc)
    rw [World.update, if_pos hmatch] at hupdate
    exact ⟨hupdate, fun hpc => by cases hpc⟩
  | passed hpc hmatch => exact ⟨h.rows, fun hpc => by cases hpc⟩
  | failed hanswer hpc => exact ⟨h.rows, fun hpc => by cases hpc⟩
  | lost hanswer hpc => exact ⟨h.update (h.pending hpc), fun hpc => by cases hpc⟩

/-- The row the application writes says what it wrote; the others are not concerned. -/
theorem kept_update {p : Params} {said now : ι → Option String} {i j : ι} (v : Option String)
    (h : j ≠ i → Kept p (said j) (now j)) :
    Kept p (Function.update said i v j) (Function.update now i v j) := by
  by_cases hji : j = i
  · subst hji
    simpa only [Function.update_self] using Kept.refl p v
  · simpa only [Function.update_of_ne hji] using h hji

theorem faithful_step {p : Params} (inverts : p.aead.Inverts) (input : Input ι) (w : World ι)
    (h : Faithful p w) : Faithful p ((machine p).step input w) := by
  cases input with
  | step answer nonce => exact faithful_worldStep inverts answer nonce h
  | write i v =>
    simp only [machine]
    split
    · refine ⟨?_, h.pending⟩
      intro j hj
      exact kept_update v fun _ => h.rows j hj
    · exact h
  | insert i v =>
    simp only [machine]
    split
    · exact h
    · next hi =>
      refine ⟨?_, h.pending⟩
      intro j hj
      rw [Table.insert, dif_neg hi] at hj ⊢
      apply kept_update
      intro hne
      exact h.rows j (((List.mem_orderedInsert (· ≤ ·)).1 hj).resolve_left hne)
  | delete i =>
    refine ⟨?_, h.pending⟩
    intro j hj
    exact h.rows j (List.mem_filter.1 hj).1

/-- Whatever the application does meanwhile, every row says what the application last wrote. -/
theorem kept_inv {p : Params} (inverts : p.aead.Inverts) (t : Table ι) (inputs : List (Input ι)) :
    Faithful p ((machine p).run (start p t) inputs) := by
  apply Machine.invariant_all (faithful_step inverts)
  refine ⟨fun i _ => Kept.refl p _, ?_⟩
  intro i value fresh rows short hpc
  simp only [start, Params.begin] at hpc
  repeat' split at hpc
  all_goals cases hpc

end

end PyAppRunner.Crypto
