import Mathlib.Data.List.Nodup
import PyAppRunner.Crypto.Fields

/-! No value of a column is taken for one of another class.

The cipher is seen after any number of calls of `encrypt`, by any objects and under any
keys: it opens what these calls sealed and nothing else. A text is then read back as
itself exactly if it carries neither tag; one of the other format is refused; and one of
this format is refused or comes out as a plaintext that one of the calls encrypted under
the key id the text names. -/
namespace PyAppRunner.Crypto
open Base FieldCrypto

/-- A call of `encrypt`, with the nonce it draws. -/
structure Call where
  crypto : FieldCrypto
  nonce : Nonce
  plaintext : String
  keyId : Option String

namespace Call

/-- The key id a call encrypts under. -/
def under (call : Call) : Except CryptoError String := call.crypto.chosen call.keyId

/-- What the column holds after a call. -/
def stores (aead : Aead) (call : Call) : Except CryptoError String :=
  call.crypto.encrypt aead call.nonce call.plaintext call.keyId

/-- The use a call makes of the cipher, if it comes that far. -/
def sealing (call : Call) : Option Sealing :=
  match call.under with
  | .error _ => none
  | .ok k =>
    match call.crypto.key k with
    | .error _ => none
    | .ok key => some ⟨key, call.nonce.val, utf8 call.plaintext, aad k⟩

end Call

/-- What the calls have given to the cipher. -/
def sealings (calls : List Call) : List Sealing := calls.filterMap Call.sealing

theorem mem_sealings {calls : List Call} {s : Sealing} :
    s ∈ sealings calls ↔
      ∃ call ∈ calls, ∃ k key, call.under = .ok k ∧ call.crypto.key k = .ok key ∧
        s = ⟨key, call.nonce.val, utf8 call.plaintext, aad k⟩ := by
  rw [sealings, List.mem_filterMap]
  apply exists_congr
  intro call
  apply and_congr_right
  intro _
  unfold Call.sealing
  cases call.under with
  | error e => simp
  | ok k =>
    cases hkey : call.crypto.key k with
    | error e => simp [hkey]
    | ok key => simp [hkey, eq_comm]

section
variable {aead : Aead} {calls : List Call}

/-- What a call stored is read back. -/
theorem decrypt_stores (ideal : aead.Ideal (sealings calls)) {call : Call} (hcall : call ∈ calls)
    {k : String} {key : Bytes} (hk : call.under = .ok k) (hkey : call.crypto.key k = .ok key) :
    ∃ v, call.stores aead = .ok v ∧ call.crypto.decrypt aead (some v) = .ok (some call.plaintext) ∧
      keyIdOf (some v) = .ok (some k) := by
  have hopens := ideal.opens _ (mem_sealings.2 ⟨call, hcall, k, key, hk, hkey, rfl⟩)
  exact decrypt_encrypt hk hkey hopens

/-- A payload is refused, or holds a plaintext that was encrypted under its key id and is shorter. -/
theorem opened_or_refused (ideal : aead.Ideal (sealings calls)) (c : FieldCrypto) (k : String)
    (payload : List Char) :
    (∃ e, c.opened aead k payload = .error (.crypto e)) ∨
      ∃ call ∈ calls, call.under = .ok k ∧ c.opened aead k payload = .ok call.plaintext ∧
        (∀ raw, b64decode payload = some raw → raw.take nonceBytes = call.nonce.val) ∧
        call.plaintext.toList.length < payload.length := by
  obtain hrefused | ⟨raw, key, plaintext, hraw, hlong, -, hopen, htext⟩ := of_opened aead c k payload
  · exact .inl hrefused
  · right
    obtain ⟨s, hs, -, hnonce, had, rfl, hlen⟩ := ideal.of_decrypt hopen
    obtain ⟨call, hcall, k', key', hk', -, rfl⟩ := mem_sealings.1 hs
    obtain rfl := aad_inj had
    refine ⟨call, hcall, hk', by simpa using htext, ?_, ?_⟩
    · intro raw' hraw'
      rw [hraw, Option.some.injEq] at hraw'
      rw [← hraw', ← hnonce]
    · have hutf8 := length_le_utf8 call.plaintext
      have hb64 := length_b64decode hraw
      rw [List.length_drop] at hlen
      simp only [nonceBytes, tagBytes] at hlong hlen
      omega

/-- `decrypt` of a value of the format, in one line for each way it can end. -/
theorem decrypt_own_or_refused (ideal : aead.Ideal (sealings calls)) (c : FieldCrypto) {v : String}
    (h : tagged version v = true) :
    (∃ e, c.decrypt aead (some v) = .error (.crypto e)) ∨
      ∃ call ∈ calls, ∃ k, call.under = .ok k ∧ keyIdOf (some v) = .ok (some k) ∧
        c.decrypt aead (some v) = .ok (some call.plaintext) ∧ call.plaintext ≠ v := by
  obtain hbad | ⟨k, payload, rfl, hid, hpayload, hdecrypt⟩ := decrypt_own aead c h
  · exact .inl ⟨_, hbad⟩
  · obtain ⟨e, he⟩ | ⟨call, hcall, hk, hopened, -, hshort⟩ := opened_or_refused ideal c k payload
    · rw [hdecrypt, he]
      exact .inl ⟨e, rfl⟩
    · right
      refine ⟨call, hcall, k, hk, ?_, by rw [hdecrypt, hopened]; rfl, ?_⟩
      · rw [keyIdOf, if_neg (tagged_ne_empty h), split_stored hid hpayload]
      · intro heq
        rw [heq, stored, String.toList_ofList] at hshort
        simp only [List.length_append, List.length_cons] at hshort
        omega

/-- A text is read back as itself exactly if it carries neither tag. -/
theorem decrypt_eq_self_iff (ideal : aead.Ideal (sealings calls)) (c : FieldCrypto) (v : String) :
    c.decrypt aead (some v) = .ok (some v) ↔
      v = "" ∨ (tagged version v = false ∧ tagged foreignVersion v = false) := by
  cases hown : tagged version v with
  | true =>
    have hne := tagged_ne_empty hown
    obtain ⟨e, he⟩ | ⟨call, -, k, -, -, hdecrypt, hdiff⟩ := decrypt_own_or_refused ideal c hown
    · simp [he, hne]
    · simp [hdecrypt, hdiff, hne]
  | false =>
    cases hforeign : tagged foreignVersion v with
    | true => simp [decrypt_foreign hforeign, tagged_ne_empty hforeign]
    | false => simp [decrypt_plain hown hforeign]

/-- Under another key id a stored value does not open: its nonce was drawn for one call only. -/
theorem relabelled_refused (ideal : aead.Ideal (sealings calls)) (fresh : (calls.map Call.nonce).Nodup)
    {call : Call} (hcall : call ∈ calls) {k : String} {payload : List Char} (hk : call.under = .ok k)
    (hstored : call.stores aead = .ok (stored k payload)) (c : FieldCrypto) {k' : String}
    (hk' : isKeyId k'.toList) (hne : k' ≠ k) :
    ∃ e, c.decrypt aead (some (stored k' payload)) = .error (.crypto e) := by
  obtain ⟨chosen, key, hchosen, hkey, hv⟩ := of_encrypt hstored
  obtain rfl : k = chosen := Except.ok.inj (hk.symm.trans hchosen)
  obtain rfl := payload_of_stored hv
  rw [decrypt_stored hk' (payload_ne_nil call.nonce _)]
  obtain ⟨e, he⟩ | ⟨other, hother, hunder, -, hnonce, -⟩ := opened_or_refused ideal c k' _
  · exact ⟨e, by rw [he]; rfl⟩
  · exfalso
    have hsame : other.nonce = call.nonce := by
      apply Subtype.ext
      rw [← hnonce _ (b64decode_b64encode _)]
      exact List.take_left' call.nonce.property
    obtain rfl := List.inj_on_of_nodup_map fresh hother hcall hsame
    exact hne (Except.ok.inj (hunder.symm.trans hk))

end

/-- Field encryption round-trips and takes no value for one of another class. -/
theorem values_kept_apart (aead : Aead) (calls : List Call) (ideal : aead.Ideal (sealings calls)) :
    (∀ (c : FieldCrypto) nonce p k key, ⟨c, nonce, p, some k⟩ ∈ calls → c.key k = .ok key →
      ∃ v, c.encrypt aead nonce p (some k) = .ok v ∧ c.decrypt aead (some v) = .ok (some p) ∧
        keyIdOf (some v) = .ok (some k)) ∧
    (∀ (c : FieldCrypto) (v : String), c.decrypt aead (some v) = .ok (some v) ↔
      v = "" ∨ (tagged version v = false ∧ tagged foreignVersion v = false)) ∧
    (∀ (c : FieldCrypto) (v : String), tagged foreignVersion v = true → ∃ e, c.decrypt aead (some v) = .error (.crypto e)) ∧
    (∀ (c : FieldCrypto) (v : String), tagged version v = true →
      (∃ e, c.decrypt aead (some v) = .error (.crypto e)) ∨
        ∃ call ∈ calls, ∃ k, call.under = .ok k ∧ keyIdOf (some v) = .ok (some k) ∧
          c.decrypt aead (some v) = .ok (some call.plaintext)) ∧
    ((calls.map Call.nonce).Nodup →
      ∀ call ∈ calls, ∀ k payload, call.under = .ok k → call.stores aead = .ok (stored k payload) →
        ∀ (c : FieldCrypto) k' key', k' ≠ k → c.key k' = .ok key' →
          ∃ e, c.decrypt aead (some (stored k' payload)) = .error (.crypto e)) := by
  refine ⟨?_, decrypt_eq_self_iff ideal, ?_, ?_, ?_⟩
  · intro c nonce p k key hcall hkey
    exact decrypt_stores ideal hcall (chosen_some (of_key hkey).1) hkey
  · intro c v h
    exact ⟨_, decrypt_foreign h⟩
  · intro c v h
    obtain hrefused | ⟨call, hcall, k, hk, hid, hdecrypt, -⟩ := decrypt_own_or_refused ideal c h
    · exact .inl hrefused
    · exact .inr ⟨call, hcall, k, hk, hid, hdecrypt⟩
  · intro fresh call hcall k payload hk hstored c k' key' hne hkey'
    exact relabelled_refused ideal fresh hcall hk hstored c (of_key hkey').1 hne

/-- Two keys: 32 bytes of zero, and 32 of one. -/
def twoKeys : FieldCrypto :=
  .new "k1" (fun id => if id = "k1" then some "KEY_1" else if id = "k2" then some "KEY_2" else none)
    fun name =>
      if name = "KEY_1" then some "AAAAAAAAAAAAAAAAAAAAAAAAAAAAAAAAAAAAAAAAAAA="
      else if name = "KEY_2" then some "AQEBAQEBAQEBAQEBAQEBAQEBAQEBAQEBAQEBAQEBAQE="
      else none

def annaCall : Call := ⟨twoKeys, ⟨List.replicate 12 0, rfl⟩, "Anna", some "k1"⟩

/-- What AES-256-GCM makes of `Anna` under the first key and a nonce of zeros. -/
def annaBody : Bytes :=
  [143, 201, 46, 92, 4, 23, 78, 19, 149, 151, 233, 211, 111, 206, 44, 240, 145, 12, 66, 170]

/-- AES-256-GCM as it stands after that one call. -/
def gcmAfterAnna : Aead where
  encrypt key nonce data ad :=
    if key = List.replicate 32 0 ∧ nonce = List.replicate 12 0 ∧ data = utf8 "Anna" ∧ ad = aad "k1" then annaBody
    else data ++ List.replicate 16 0
  decrypt key nonce body ad :=
    if key = List.replicate 32 0 ∧ nonce = List.replicate 12 0 ∧ body = annaBody ∧ ad = aad "k1"
    then some (utf8 "Anna") else none
  length_encrypt := by
    intro key nonce data ad
    split
    · next h =>
      rw [h.2.2.1]
      decide
    · simp

theorem twoKeys_key : twoKeys.key "k1" = .ok (List.replicate 32 0) := by decide +kernel

theorem sealings_anna :
    sealings [annaCall] = [⟨List.replicate 32 0, List.replicate 12 0, utf8 "Anna", aad "k1"⟩] := by
  have hunder : annaCall.under = .ok "k1" := by decide +kernel
  rw [sealings, List.filterMap_cons, List.filterMap_nil, Call.sealing, hunder]
  simp only [show annaCall.crypto.key "k1" = .ok (List.replicate 32 0) from twoKeys_key]
  rfl

theorem gcmAfterAnna_ideal : gcmAfterAnna.Ideal (sealings [annaCall]) := by
  rw [sealings_anna]
  constructor
  · intro s hs
    obtain rfl := List.mem_singleton.1 hs
    simp [gcmAfterAnna]
  · intro key nonce body ad data h
    simp only [gcmAfterAnna] at h
    split at h
    · next heq =>
      obtain ⟨rfl, rfl, rfl, rfl⟩ := heq
      exact ⟨_, List.mem_singleton_self _, rfl, rfl, rfl, by simp [gcmAfterAnna]⟩
    · cases h

theorem anna_kept_apart :
    gcmAfterAnna.Ideal (sealings [annaCall]) ∧
    (∃ v, twoKeys.encrypt gcmAfterAnna annaCall.nonce "Anna" (some "k1") = .ok v ∧
      twoKeys.decrypt gcmAfterAnna (some v) = .ok (some "Anna") ∧ keyIdOf (some v) = .ok (some "k1")) ∧
    ∃ e, twoKeys.decrypt gcmAfterAnna
      (some (stored "k2" (b64encode (List.replicate 12 0 ++ annaBody)))) = .error (.crypto e) := by
  have h := values_kept_apart gcmAfterAnna [annaCall] gcmAfterAnna_ideal
  refine ⟨gcmAfterAnna_ideal, ?_, ?_⟩
  · exact h.1 twoKeys annaCall.nonce "Anna" "k1" _ (List.mem_singleton_self _) twoKeys_key
  · have hstored : annaCall.stores gcmAfterAnna =
        .ok (stored "k1" (b64encode (List.replicate 12 0 ++ annaBody))) := by decide +kernel
    have hother : twoKeys.key "k2" = .ok (List.replicate 32 1) := by decide +kernel
    exact h.2.2.2.2 (List.nodup_singleton _) annaCall (List.mem_singleton_self _) "k1" _ (by decide +kernel)
      hstored twoKeys "k2" _ (by decide) hother

end PyAppRunner.Crypto
