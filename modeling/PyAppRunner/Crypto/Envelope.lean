import PyAppRunner.Base.Aead

/-! The binary envelope: `magic(3) | version(1) | nonce(12) | ciphertext(n) | tag(16)`.

`pack` puts the parts together and `parse` cuts them out again, each with its own
arithmetic. `parse_eq_ok_iff` says which blobs are cut and into what; everything else
about the two follows from it. -/
namespace PyAppRunner.Crypto.Envelope
open Base

/-! ### The format -/

def magicBytes : Nat := 3
def nonceBytes : Nat := 12
def tagBytes : Nat := 16
def keyBytes : Nat := 32

/-- The length of an envelope around no text at all. -/
def minEnvelopeBytes : Nat := magicBytes + 1 + nonceBytes + tagBytes

/-- `Envelope`. The body is the ciphertext with its tag. -/
structure Parts where
  magic : Bytes
  version : Int
  nonce : Bytes
  body : Bytes
deriving DecidableEq

/-- `CryptoError`, by what its text says. -/
inductive EnvelopeError where
  | tooShort (length : Nat)
  | badMagic (magic : Bytes)
  | otherMagic (found magic : Bytes)
  | otherVersion (found version : Int)
  | badNonce (length : Nat)
  | badVersion (version : Int)
  | badKey (length : Nat)
  | invalidTag
deriving DecidableEq

/-- The parts of an envelope, with the errors in the order of the checks. -/
def parse (blob magic : Bytes) (version : Int) : Except EnvelopeError Parts :=
  if blob.length < minEnvelopeBytes then .error (.tooShort blob.length)
  else if magic.length ≠ magicBytes then .error (.badMagic magic)
  else
    let foundMagic := blob.take magicBytes
    if foundMagic ≠ magic then .error (.otherMagic foundMagic magic)
    else
      let foundVersion : Int := (blob.getD magicBytes 0).toNat
      if foundVersion ≠ version then .error (.otherVersion foundVersion version)
      else .ok {
        magic := foundMagic
        version := foundVersion
        nonce := (blob.drop (magicBytes + 1)).take nonceBytes
        body := blob.drop (magicBytes + 1 + nonceBytes) }

/-- The checks alone. -/
def validate (blob magic : Bytes) (version : Int) : Except EnvelopeError Unit :=
  (parse blob magic version).map fun _ => ()

/-- An envelope from its parts. -/
def pack (nonce body magic : Bytes) (version : Int) : Except EnvelopeError Bytes :=
  if nonce.length ≠ nonceBytes then .error (.badNonce nonce.length)
  else if magic.length ≠ magicBytes then .error (.badMagic magic)
  else if ¬ (0 ≤ version ∧ version ≤ 255) then .error (.badVersion version)
  else .ok (magic ++ [UInt8.ofNat version.toNat] ++ nonce ++ body)

/-- What `os.urandom(NONCE_BYTES)` gives. -/
abbrev Drawn := {n : Bytes // n.length = nonceBytes}

/-- `encrypt`, on the nonce it draws. -/
def encrypt (aead : Aead) (drawn : Drawn) (key plaintext magic : Bytes) (version : Int) : Except EnvelopeError Bytes :=
  if key.length ≠ keyBytes then .error (.badKey key.length)
  else pack drawn.1 (aead.encrypt key drawn.1 plaintext []) magic version

/-- The envelope is taken apart and its text opened. -/
def decrypt (aead : Aead) (key blob magic : Bytes) (version : Int) : Except EnvelopeError Bytes :=
  if key.length ≠ keyBytes then .error (.badKey key.length)
  else match parse blob magic version with
    | .error e => .error e
    | .ok parsed =>
      match aead.decrypt key parsed.nonce parsed.body [] with
      | none => .error .invalidTag
      | some plaintext => .ok plaintext

/-! ### Writer and reader -/

/-- The parts that a blob is made of. -/
structure Parts.Fits (e : Parts) (magic : Bytes) (version : Int) : Prop where
  magic : e.magic = magic
  version : e.version = version
  nonce : e.nonce.length = nonceBytes
  body : tagBytes ≤ e.body.length

/-- The blob of four parts. -/
def Parts.blob (e : Parts) : Bytes := e.magic ++ [UInt8.ofNat e.version.toNat] ++ e.nonce ++ e.body

variable {magic : Bytes} {version : Int}

theorem toNat_version (h : 0 ≤ version ∧ version ≤ 255) : ((UInt8.ofNat version.toNat).toNat : Int) = version := by
  rw [UInt8.toNat_ofNat', Nat.mod_eq_of_lt (by omega)]
  omega

/-- A byte is a version that can be written, and is the byte it is written as. -/
theorem ofNat_version (b : UInt8) : UInt8.ofNat ((b.toNat : Int)).toNat = b := by
  rw [Int.toNat_natCast, UInt8.ofNat_toNat]

theorem pack_eq_ok (e : Parts) (hmagic : magic.length = magicBytes) (hversion : 0 ≤ version ∧ version ≤ 255)
    (hfits : e.Fits magic version) : pack e.nonce e.body e.magic e.version = .ok e.blob := by
  obtain ⟨rfl, rfl, hnonce, _⟩ := hfits
  rw [pack, if_neg (not_not_intro hnonce), if_neg (not_not_intro hmagic), if_neg (not_not_intro hversion)]
  rfl

/-- The parts a blob is cut into. -/
def cut (blob : Bytes) : Parts where
  magic := blob.take magicBytes
  version := (blob.getD magicBytes 0).toNat
  nonce := (blob.drop (magicBytes + 1)).take nonceBytes
  body := blob.drop (magicBytes + 1 + nonceBytes)

/-- A blob that is long enough is the four parts it is cut into. -/
theorem blob_cut {blob : Bytes} (h : minEnvelopeBytes ≤ blob.length) : (cut blob).blob = blob := by
  have hlt : magicBytes < blob.length := Nat.lt_of_lt_of_le (by decide) h
  have hversion : blob.take magicBytes ++ [blob.getD magicBytes 0] = blob.take (magicBytes + 1) := by
    rw [List.take_succ_eq_append_getElem hlt, List.getD_eq_getElem?_getD, List.getElem?_eq_getElem hlt,
      Option.getD_some]
  rw [Parts.blob, cut, ofNat_version, hversion, List.append_assoc, ← List.drop_drop (i := nonceBytes)]
  rw [List.take_append_drop, List.take_append_drop]

/-- The header of a blob, as `parse` asks for it. -/
structure Headed (magic : Bytes) (version : Int) (blob : Bytes) : Prop where
  length : minEnvelopeBytes ≤ blob.length
  magic : blob.take magicBytes = magic
  version : ((blob.getD magicBytes 0).toNat : Int) = version

/-- What is accepted, and what is made of it. -/
theorem parse_eq_ok_iff (hmagic : magic.length = magicBytes) {blob : Bytes} {e : Parts} :
    parse blob magic version = .ok e ↔ Headed magic version blob ∧ e = cut blob := by
  unfold parse
  constructor
  · intro h
    split at h
    · cases h
    · next hlength =>
      rw [if_neg (not_not_intro hmagic)] at h
      dsimp only at h
      split at h
      · cases h
      · next hfound =>
        split at h
        · cases h
        · next hversion =>
          cases h
          exact ⟨⟨Nat.le_of_not_lt hlength, not_not.mp hfound, not_not.mp hversion⟩, rfl⟩
  · intro ⟨hheaded, he⟩
    rw [if_neg (Nat.not_lt_of_le hheaded.length), if_neg (not_not_intro hmagic)]
    dsimp only
    rw [if_neg (not_not_intro hheaded.magic), if_neg (not_not_intro hheaded.version), he]
    rfl

theorem headed_iff (hmagic : magic.length = magicBytes) (blob : Bytes) : Headed magic version blob ↔
    minEnvelopeBytes ≤ blob.length ∧ magic.IsPrefix blob ∧
      blob[magicBytes]?.map (fun b => (b.toNat : Int)) = some version := by
  constructor
  · intro ⟨hlength, htake, hversion⟩
    have hlt : magicBytes < blob.length := Nat.lt_of_lt_of_le (by decide) hlength
    refine ⟨hlength, htake ▸ List.take_prefix _ _, ?_⟩
    rw [List.getD_eq_getElem?_getD, List.getElem?_eq_getElem hlt, Option.getD_some] at hversion
    rw [List.getElem?_eq_getElem hlt, Option.map_some, hversion]
  · intro ⟨hlength, hstarts, hversion⟩
    have hlt : magicBytes < blob.length := Nat.lt_of_lt_of_le (by decide) hlength
    rw [List.getElem?_eq_getElem hlt, Option.map_some, Option.some.injEq] at hversion
    refine ⟨hlength, ?_, ?_⟩
    · rw [← hmagic]
      exact (List.prefix_iff_eq_take.mp hstarts).symm
    · rw [List.getD_eq_getElem?_getD, List.getElem?_eq_getElem hlt, Option.getD_some, hversion]

/-- The parts a blob of this header is made of. -/
theorem Headed.fits {blob : Bytes} (h : Headed magic version blob) : (cut blob).Fits magic version := by
  obtain ⟨hlength, hmagic, hversion⟩ := h
  have hmin : minEnvelopeBytes = 32 := rfl
  have hthree : magicBytes = 3 := rfl
  have htwelve : nonceBytes = 12 := rfl
  have htag : tagBytes = 16 := rfl
  refine ⟨hmagic, hversion, ?_, ?_⟩
  · rw [cut, List.length_take, List.length_drop]
    omega
  · rw [cut, List.length_drop]
    omega

/-- The version of a header is a byte. -/
theorem Headed.version_byte {blob : Bytes} (h : Headed magic version blob) : 0 ≤ version ∧ version ≤ 255 := by
  have hbyte := UInt8.toNat_lt (blob.getD magicBytes 0)
  have hversion := h.version
  omega

/-- Where the writer put the parts, the reader finds them. -/
theorem cut_blob {e : Parts} (hmagic : magic.length = magicBytes) (hversion : 0 ≤ version ∧ version ≤ 255)
    (hfits : e.Fits magic version) : Headed magic version e.blob ∧ cut e.blob = e := by
  obtain ⟨m, v, n, b⟩ := e
  obtain ⟨rfl, rfl, hnonce, hbody⟩ := hfits
  dsimp only at hmagic hversion hnonce hbody
  have hblob : Parts.blob ⟨m, v, n, b⟩ = m ++ (UInt8.ofNat v.toNat :: (n ++ b)) := by
    simp [Parts.blob]
  have hthree : m.length + 1 = (m ++ [UInt8.ofNat v.toNat]).length := by simp
  have htake : (Parts.blob ⟨m, v, n, b⟩).take magicBytes = m := by
    rw [hblob, ← hmagic, List.take_left]
  have hget : (((Parts.blob ⟨m, v, n, b⟩).getD magicBytes 0).toNat : Int) = v := by
    rw [hblob, ← hmagic, List.getD_eq_getElem?_getD, List.getElem?_append_right (Nat.le_refl _), Nat.sub_self,
      List.getElem?_cons_zero, Option.getD_some, toNat_version hversion]
  have hdrop : (Parts.blob ⟨m, v, n, b⟩).drop (magicBytes + 1) = n ++ b := by
    rw [Parts.blob, List.append_assoc, ← hmagic, hthree, List.drop_left]
  refine ⟨⟨?_, htake, hget⟩, ?_⟩
  · have hmin : minEnvelopeBytes = magicBytes + 1 + nonceBytes + tagBytes := rfl
    rw [hblob, List.length_append, List.length_cons, List.length_append]
    omega
  · rw [cut, htake, hget, hdrop, ← List.drop_drop (i := nonceBytes), hdrop, ← hnonce, List.take_left, List.drop_left]

theorem parse_pack {e : Parts} (hmagic : magic.length = magicBytes) (hversion : 0 ≤ version ∧ version ≤ 255)
    (hfits : e.Fits magic version) : parse e.blob magic version = .ok e := by
  obtain ⟨hheaded, hcut⟩ := cut_blob hmagic hversion hfits
  exact (parse_eq_ok_iff hmagic).mpr ⟨hheaded, hcut.symm⟩

theorem pack_of_parse (hmagic : magic.length = magicBytes) {blob : Bytes} {e : Parts}
    (h : parse blob magic version = .ok e) : pack e.nonce e.body e.magic e.version = .ok blob := by
  obtain ⟨hheaded, rfl⟩ := (parse_eq_ok_iff hmagic).mp h
  rw [pack_eq_ok _ hmagic hheaded.version_byte hheaded.fits, blob_cut hheaded.length]

theorem validate_eq_ok_iff (blob : Bytes) : validate blob magic version = .ok () ↔
    ∃ e, parse blob magic version = .ok e := by
  unfold validate
  cases parse blob magic version with
  | error e => simp [Except.map]
  | ok e => simp [Except.map]

/-- What is sealed is opened. -/
theorem decrypt_encrypt {aead : Aead} (hinverts : aead.Inverts) (hmagic : magic.length = magicBytes)
    (hversion : 0 ≤ version ∧ version ≤ 255) (drawn : Drawn) {key : Bytes} (hkey : key.length = keyBytes)
    (plaintext : Bytes) : ∃ blob, encrypt aead drawn key plaintext magic version = .ok blob ∧
      decrypt aead key blob magic version = .ok plaintext := by
  have hfits : Parts.Fits ⟨magic, version, drawn.1, aead.encrypt key drawn.1 plaintext []⟩ magic version := by
    refine ⟨rfl, rfl, drawn.2, ?_⟩
    rw [aead.length_encrypt]
    exact Nat.le_add_left _ _
  refine ⟨Parts.blob ⟨magic, version, drawn.1, aead.encrypt key drawn.1 plaintext []⟩, ?_, ?_⟩
  · rw [encrypt, if_neg (not_not_intro hkey)]
    exact pack_eq_ok _ hmagic hversion hfits
  · rw [decrypt, if_neg (not_not_intro hkey), parse_pack hmagic hversion hfits]
    dsimp only
    rw [hinverts]

/-- **The format is exact.** What is packed is parsed, exactly the blobs of the right length,
magic and version are, each of them is its parts packed again, and what is encrypted is decrypted. -/
theorem envelope_exact {aead : Aead} (hinverts : aead.Inverts) (hmagic : magic.length = magicBytes) :
    (∀ version nonce body, 0 ≤ version ∧ version ≤ 255 → nonce.length = nonceBytes → tagBytes ≤ body.length →
      ∃ blob, pack nonce body magic version = .ok blob ∧
        parse blob magic version = .ok ⟨magic, version, nonce, body⟩) ∧
    (∀ version blob,
      ((∃ e, parse blob magic version = .ok e) ↔ minEnvelopeBytes ≤ blob.length ∧ magic.IsPrefix blob ∧
        blob[magicBytes]?.map (fun b => (b.toNat : Int)) = some version) ∧
      (∀ e, parse blob magic version = .ok e → pack e.nonce e.body e.magic e.version = .ok blob) ∧
      (validate blob magic version = .ok () ↔ ∃ e, parse blob magic version = .ok e)) ∧
    ∀ version drawn key plaintext, 0 ≤ version ∧ version ≤ 255 → key.length = keyBytes →
      ∃ blob, encrypt aead drawn key plaintext magic version = .ok blob ∧
        decrypt aead key blob magic version = .ok plaintext := by
  refine ⟨?_, ?_, ?_⟩
  · intro version nonce body hversion hnonce hbody
    have hfits : Parts.Fits ⟨magic, version, nonce, body⟩ magic version := ⟨rfl, rfl, hnonce, hbody⟩
    exact ⟨_, pack_eq_ok _ hmagic hversion hfits, parse_pack hmagic hversion hfits⟩
  · intro version blob
    refine ⟨?_, fun e he => pack_of_parse hmagic he, validate_eq_ok_iff blob⟩
    rw [← headed_iff hmagic]
    constructor
    · intro ⟨e, he⟩
      exact ((parse_eq_ok_iff hmagic).mp he).1
    · exact fun hheaded => ⟨_, (parse_eq_ok_iff hmagic).mpr ⟨hheaded, rfl⟩⟩
  · intro version drawn key plaintext hversion hkey
    exact decrypt_encrypt hinverts hmagic hversion drawn hkey plaintext

/-- The tag of AES-256-GCM under the key of zeros and the nonce of zeros, of no data. -/
def emptyTag : Bytes :=
  [0x53, 0x0F, 0x8A, 0xFB, 0xC7, 0x45, 0x36, 0xB9, 0xA9, 0x63, 0xB4, 0xF1, 0xC4, 0xCB, 0x73, 0x8B]

/-- A cipher that seals that one message as AES-256-GCM does. -/
def emptyGcm : Aead where
  encrypt key nonce data ad :=
    if key = List.replicate 32 0 ∧ nonce = List.replicate 12 0 ∧ data = [] ∧ ad = [] then emptyTag
    else data ++ List.replicate 16 0
  decrypt _ _ body _ := some (body.take (body.length - 16))
  length_encrypt := by
    intro key nonce data ad
    split
    · next h =>
      rw [h.2.2.1]
      rfl
    · rw [List.length_append, List.length_replicate]

theorem emptyGcm_inverts : emptyGcm.Inverts := by
  intro key nonce data ad
  unfold emptyGcm
  dsimp only
  split
  · next h =>
    rw [h.2.2.1]
    rfl
  · rw [List.length_append, List.length_replicate, Nat.add_sub_cancel, List.take_left]

/-- The magic of Copasty. -/
def cpe : Bytes := [0x43, 0x50, 0x45]

/-- The empty text is sealed and opened; a blob that is a byte too short is refused, and one
of the next version. -/
theorem shortest_envelope :
    (∃ blob, encrypt emptyGcm ⟨List.replicate 12 0, rfl⟩ (List.replicate 32 0) [] cpe 1 = .ok blob ∧
      decrypt emptyGcm (List.replicate 32 0) blob cpe 1 = .ok []) ∧
    (¬ ∃ e, parse (cpe ++ 1 :: List.replicate 27 0) cpe 1 = .ok e) ∧
    ¬ ∃ e, parse (cpe ++ 2 :: List.replicate 28 0) cpe 1 = .ok e := by
  have hexact := envelope_exact emptyGcm_inverts (show cpe.length = magicBytes from rfl)
  refine ⟨hexact.2.2 1 _ _ [] ⟨by decide, by decide⟩ rfl, ?_, ?_⟩
  · exact fun h => absurd ((hexact.2.1 1 _).1.mp h) (by decide)
  · exact fun h => absurd ((hexact.2.1 1 _).1.mp h) (by decide)

end PyAppRunner.Crypto.Envelope
