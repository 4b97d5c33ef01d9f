import PyAppRunner.Base.Base64

/-! Authenticated encryption with associated data, and what is assumed of it. -/
namespace PyAppRunner.Base

/-- A cipher: key, nonce, data and associated data, in this order. What it makes is the
ciphertext followed by its tag. -/
structure Aead where
  encrypt : Bytes → Bytes → Bytes → Bytes → Bytes
  decrypt : Bytes → Bytes → Bytes → Bytes → Option Bytes
  length_encrypt : ∀ key nonce data ad, (encrypt key nonce data ad).length = data.length + 16

/-- One use of a cipher. -/
structure Sealing where
  key : Bytes
  nonce : Bytes
  data : Bytes
  ad : Bytes

namespace Aead

/-- What is sealed opens again. -/
def Inverts (aead : Aead) : Prop :=
  ∀ key nonce data ad, aead.decrypt key nonce (aead.encrypt key nonce data ad) ad = some data

/-- The cipher as one sees it after the uses `made`: it opens what they made, and nothing
that none of them made under the same key. -/
structure Ideal (aead : Aead) (made : List Sealing) : Prop where
  opens : ∀ s ∈ made, aead.decrypt s.key s.nonce (aead.encrypt s.key s.nonce s.data s.ad) s.ad = some s.data
  authentic : ∀ {key nonce body ad data}, aead.decrypt key nonce body ad = some data →
    ∃ s ∈ made, s.key = key ∧ s.nonce = nonce ∧ s.ad = ad ∧ aead.encrypt key nonce s.data ad = body

/-- What opens is the data of a use of the same key, nonce and associated data. -/
theorem Ideal.of_decrypt {aead : Aead} {made : List Sealing} (ideal : aead.Ideal made)
    {key nonce body ad data : Bytes} (h : aead.decrypt key nonce body ad = some data) :
    ∃ s ∈ made, s.key = key ∧ s.nonce = nonce ∧ s.ad = ad ∧ s.data = data ∧
      body.length = data.length + 16 := by
  obtain ⟨s, hs, rfl, rfl, rfl, rfl⟩ := ideal.authentic h
  rw [ideal.opens s hs, Option.some.injEq] at h
  exact ⟨s, hs, rfl, rfl, rfl, h, h ▸ aead.length_encrypt ..⟩

end Aead

end PyAppRunner.Base
