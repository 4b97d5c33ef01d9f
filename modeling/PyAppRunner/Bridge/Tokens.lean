import PyAppRunner.Bridge.Identity

/-! Access tokens: `AuthService`.

The token library signs claims with a secret, and opens a token that was signed with it;
it is a parameter. What it checks of the claims on the way (that the required ones are
there, and the two times, with ten seconds of leeway) is written out, as is everything
`verify_access_jwt` checks afterwards. Clock readings are in microseconds, the times in a
token in seconds. -/
namespace PyAppRunner.Bridge

/-- The types of tokens. -/
inductive JwtType where
  | user
  | device
  | impersonation
deriving DecidableEq

/-- The claim `typ`. -/
def JwtType.text : JwtType → String
  | .user => "user"
  | .device => "device"
  | .impersonation => "impersonation"

/-- The claims of a token. A missing one is `none`. -/
structure Claims where
  sub : Option String
  typ : Option String
  iat : Option Int
  exp : Option Int
  jti : Option String
  imp : Option String
deriving DecidableEq

/-- The library: `encode claims secret` and, for a token that was signed with the secret,
`decode token secret`. -/
structure Jwt where
  encode : Claims → String → String
  decode : String → String → Option Claims

/-- A microsecond reading as a whole number of seconds. -/
def wholeSeconds (reading : Int) : Int := reading.tdiv 1000000

/-- The clock skew that is tolerated. -/
def leeway : Int := 10

/-- The claims `create_access_jwt` signs. -/
def accessClaims (now : Int) (jti subjectPublicId : String) (tokenType : JwtType) (ttlSeconds : Int) : Claims where
  sub := some subjectPublicId
  typ := some tokenType.text
  iat := some (wholeSeconds now)
  exp := some (wholeSeconds (now + ttlSeconds * 1000000))
  jti := some jti
  imp := none

/-- The claims `create_impersonation_jwt` signs. -/
def impersonationClaims (now : Int) (jti targetPublicId impersonatorPublicId : String) (ttlSeconds : Int) : Claims where
  sub := some targetPublicId
  typ := some JwtType.impersonation.text
  iat := some (wholeSeconds now)
  exp := some (wholeSeconds (now + ttlSeconds * 1000000))
  jti := some jti
  imp := some impersonatorPublicId

section
variable (jwt : Jwt) (secret : String) (isUuid : String → Bool)

/-- `create_access_jwt`. -/
def createAccessJwt (now : Int) (jti subjectPublicId : String) (tokenType : JwtType) (ttlSeconds : Int) : String :=
  jwt.encode (accessClaims now jti subjectPublicId tokenType ttlSeconds) secret

/-- `create_impersonation_jwt`. -/
def createImpersonationJwt (now : Int) (jti targetPublicId impersonatorPublicId : String) (ttlSeconds : Int) : String :=
  jwt.encode (impersonationClaims now jti targetPublicId impersonatorPublicId ttlSeconds) secret

/-- What the library checks of the claims: all four are there, the token was not issued
after now, and has not expired. -/
def timely (now : Int) (c : Claims) : Bool :=
  match c.exp, c.iat, c.sub, c.typ with
  | some exp, some iat, some _, some _ =>
    !decide (now + leeway * 1000000 < iat * 1000000) && !decide (exp * 1000000 ≤ now - leeway * 1000000)
  | _, _, _, _ => false

/-- `verify_access_jwt`, at a reading of the clock. -/
def verifyAccessJwt (token : String) (expectedType : JwtType) (now : Int) : Option Claims :=
  match jwt.decode token secret with
  | none => none
  | some c =>
    if !timely now c then none
    else if c.typ ≠ some expectedType.text then none
    else if !(c.sub.any isUuid && c.jti.any isUuid) then none
    else if c.typ = some JwtType.impersonation.text then
      match c.imp with
      | none => none
      | some imp => if imp = "" then none else if isUuid imp then some c else none
    else some c

/-- The type that a lookup asks for. -/
def TokenKind.type : TokenKind → JwtType
  | .user => .user
  | .impersonation => .impersonation

/-- What a request handler takes from the claims. -/
def Claims.payload (c : Claims) : Payload := ⟨c.sub.getD "", c.imp.getD "", c.exp.getD 0 * 1000000⟩

/-- `verify_access_jwt` as request handlers call it. -/
def verifier (token : String) (kind : TokenKind) (now : Int) : Option Payload :=
  (verifyAccessJwt jwt secret isUuid token kind.type now).map Claims.payload

/-! ### What is verified -/

/-- The claims pass as those of a token of this type. -/
structure Claims.Valid (now : Int) (type : JwtType) (c : Claims) : Prop where
  typ : c.typ = some type.text
  subject : ∃ sub, c.sub = some sub ∧ isUuid sub = true
  id : ∃ jti, c.jti = some jti ∧ isUuid jti = true
  issued : ∃ iat, c.iat = some iat ∧ iat * 1000000 ≤ now + leeway * 1000000
  live : ∃ exp, c.exp = some exp ∧ now < (exp + leeway) * 1000000
  behind : type = .impersonation → ∃ imp, c.imp = some imp ∧ imp ≠ "" ∧ isUuid imp = true

theorem timely_iff (now : Int) (c : Claims) : timely now c = true ↔ c.sub.isSome = true ∧ c.typ.isSome = true ∧
    (∃ iat, c.iat = some iat ∧ iat * 1000000 ≤ now + leeway * 1000000) ∧
    ∃ exp, c.exp = some exp ∧ now < (exp + leeway) * 1000000 := by
  unfold timely
  constructor
  · intro h
    split at h
    · rename_i exp iat sub typ hexp hiat hsub htyp
      simp only [Bool.and_eq_true, Bool.not_eq_true', decide_eq_false_iff_not] at h
      refine ⟨by rw [hsub]; rfl, by rw [htyp]; rfl, ⟨iat, hiat, by omega⟩, exp, hexp, by omega⟩
    · cases h
  · rintro ⟨hsub, htyp, ⟨iat, hiat, hissued⟩, exp, hexp, hlive⟩
    obtain ⟨sub, hsub⟩ := Option.isSome_iff_exists.1 hsub
    obtain ⟨typ, htyp⟩ := Option.isSome_iff_exists.1 htyp
    rw [hexp, hiat, hsub, htyp]
    simp only [Bool.and_eq_true, Bool.not_eq_true', decide_eq_false_iff_not]
    omega

theorem JwtType.text_injective : Function.Injective JwtType.text := by
  intro a b h
  cases a <;> cases b <;> first | rfl | exact absurd h (by decide)

theorem verifyAccessJwt_eq_some {token : String} {type : JwtType} {now : Int} {c : Claims} :
    verifyAccessJwt jwt secret isUuid token type now = some c ↔
      jwt.decode token secret = some c ∧ c.Valid isUuid now type := by
  unfold verifyAccessJwt
  cases hdecode : jwt.decode token secret with
  | none => simp
  | some c' =>
    dsimp only
    -- The checks in the order in which they are made, and back.
    constructor
    · intro h
      split at h
      · cases h
      rename_i htimely
      split at h
      · cases h
      rename_i htype
      split at h
      · cases h
      rename_i huuids
      simp only [Bool.not_eq_true', Bool.not_eq_false] at htimely
      simp only [Bool.not_eq_true', Bool.not_eq_false, Bool.and_eq_true, Option.any_eq_true] at huuids
      obtain ⟨hsubject, hid⟩ := huuids
      obtain ⟨-, -, hissued, hlive⟩ := (timely_iff now c').1 htimely
      have htyp : c'.typ = some type.text := not_not.1 htype
      split at h
      · rename_i himp
        split at h
        · cases h
        rename_i imp hbehind
        split at h
        · cases h
        rename_i hne
        split at h
        · rename_i huuid
          cases h
          exact ⟨rfl, htyp, hsubject, hid, hissued, hlive, fun _ => ⟨imp, hbehind, hne, huuid⟩⟩
        · cases h
      · rename_i hnot
        cases h
        refine ⟨rfl, htyp, hsubject, hid, hissued, hlive, ?_⟩
        intro heq
        rw [heq] at htyp
        exact absurd htyp hnot
    · rintro ⟨hsome, hvalid⟩
      cases hsome
      obtain ⟨sub, hsub, hsubject⟩ := hvalid.subject
      obtain ⟨jti, hjti, hid⟩ := hvalid.id
      have htimely : timely now c = true :=
        (timely_iff now c).2 ⟨by rw [hsub]; rfl, by rw [hvalid.typ]; rfl, hvalid.issued, hvalid.live⟩
      rw [if_neg (by simp [htimely]), if_neg (by simp [hvalid.typ]), if_neg (by simp [hsub, hsubject, hjti, hid])]
      split
      · rename_i himp
        have htype : type = .impersonation := by
          rw [hvalid.typ] at himp
          exact JwtType.text_injective (Option.some.inj himp)
        obtain ⟨imp, hbehind, hne, huuid⟩ := hvalid.behind htype
        rw [hbehind]
        simp [hne, huuid]
      · rfl

/-! ### What is issued -/

/-- The library opens what it signed, with the secret it was signed with. -/
def Jwt.Opens (c : Claims) : Prop := jwt.decode (jwt.encode c secret) secret = some c

/-- The readings at which a token issued at `now` for so long passes: from its issue, the
skew before it included, until the skew after its expiry. -/
def During (now ttlSeconds reading : Int) : Prop :=
  wholeSeconds now * 1000000 ≤ reading + leeway * 1000000 ∧
    reading < (wholeSeconds (now + ttlSeconds * 1000000) + leeway) * 1000000

instance (now ttlSeconds reading : Int) : Decidable (During now ttlSeconds reading) :=
  inferInstanceAs (Decidable (_ ∧ _))

variable {isUuid}

theorem accessClaims_valid {now ttl reading : Int} {jti sub : String} {type expected : JwtType}
    (hid : isUuid jti = true) : (accessClaims now jti sub type ttl).Valid isUuid reading expected ↔
      type = expected ∧ type ≠ .impersonation ∧ isUuid sub = true ∧ During now ttl reading := by
  constructor
  · intro hvalid
    have htype : type = expected := JwtType.text_injective (Option.some.inj hvalid.typ)
    obtain ⟨sub', hsub, hsubject⟩ := hvalid.subject
    obtain ⟨iat, hiat, hissued⟩ := hvalid.issued
    obtain ⟨exp, hexp, hlive⟩ := hvalid.live
    cases hsub
    cases hiat
    cases hexp
    refine ⟨htype, ?_, hsubject, hissued, hlive⟩
    intro heq
    obtain ⟨imp, himp, -⟩ := hvalid.behind (htype ▸ heq)
    cases himp
  · rintro ⟨rfl, htype, hsubject, hissued, hlive⟩
    exact ⟨rfl, ⟨sub, rfl, hsubject⟩, ⟨jti, rfl, hid⟩, ⟨_, rfl, hissued⟩, ⟨_, rfl, hlive⟩,
      fun heq => absurd heq htype⟩

theorem impersonationClaims_valid {now ttl reading : Int} {jti target behind : String} {expected : JwtType}
    (hid : isUuid jti = true) : (impersonationClaims now jti target behind ttl).Valid isUuid reading expected ↔
      expected = .impersonation ∧ isUuid target = true ∧ behind ≠ "" ∧ isUuid behind = true ∧ During now ttl reading := by
  constructor
  · intro hvalid
    have htype : JwtType.impersonation = expected := JwtType.text_injective (Option.some.inj hvalid.typ)
    obtain ⟨sub', hsub, hsubject⟩ := hvalid.subject
    obtain ⟨iat, hiat, hissued⟩ := hvalid.issued
    obtain ⟨exp, hexp, hlive⟩ := hvalid.live
    obtain ⟨imp, himp, hne, huuid⟩ := hvalid.behind htype.symm
    cases hsub
    cases hiat
    cases hexp
    cases himp
    exact ⟨htype.symm, hsubject, hne, huuid, hissued, hlive⟩
  · rintro ⟨rfl, hsubject, hne, huuid, hissued, hlive⟩
    exact ⟨rfl, ⟨target, rfl, hsubject⟩, ⟨jti, rfl, hid⟩, ⟨_, rfl, hissued⟩, ⟨_, rfl, hlive⟩,
      fun _ => ⟨behind, rfl, hne, huuid⟩⟩

/-- A signed token is verified if its claims pass. -/
theorem verifier_encode {c : Claims} (hopens : jwt.Opens secret c) (kind : TokenKind) (reading : Int) :
    verifier jwt secret isUuid (jwt.encode c secret) kind reading = some c.payload ∧
        c.Valid isUuid reading kind.type ∨
      verifier jwt secret isUuid (jwt.encode c secret) kind reading = none ∧ ¬ c.Valid isUuid reading kind.type := by
  unfold verifier
  by_cases hvalid : c.Valid isUuid reading kind.type
  · refine .inl ⟨?_, hvalid⟩
    rw [(verifyAccessJwt_eq_some jwt secret isUuid).2 ⟨hopens, hvalid⟩]
    rfl
  · refine .inr ⟨?_, hvalid⟩
    cases h : verifyAccessJwt jwt secret isUuid (jwt.encode c secret) kind.type reading with
    | none => rfl
    | some c' =>
      obtain ⟨hdecode, hvalid'⟩ := (verifyAccessJwt_eq_some jwt secret isUuid).1 h
      cases hopens.symm.trans hdecode
      exact absurd hvalid' hvalid

/-! ### Whom an issued token stands for -/

variable {cfg : Config}

/-- The active user with this id, if the database answered. -/
def Lookup.active (look : Lookup) (publicId : String) : Option User :=
  match look.db with
  | .failed _ => none
  | .ok db => db.activeUser publicId

theorem subject_user (look : Lookup) {payload : Payload} (huuid : cfg.isUuid payload.sub = true) :
    subject cfg look payload false = look.active payload.sub := by
  unfold subject Lookup.active
  cases look.db with
  | failed f => rfl
  | ok db => simp [huuid]

theorem subject_impersonation (look : Lookup) {payload : Payload} (huuid : cfg.isUuid payload.sub = true) :
    subject cfg look payload true =
      if (look.active payload.imp).isSome = true then look.active payload.sub else none := by
  unfold subject Lookup.active
  cases look.db with
  | failed f => rfl
  | ok db => simp [huuid]

/-- **An issued token stands for its subject while it lives.** A token made by `create_access_jwt` for a user stands for
the active user with that id, at every lookup from its issue to its expiry, with ten seconds of leeway on either side,
and for nobody before, after, or when it was made for a device. A token made by `create_impersonation_jwt` stands for
its target in the same way, as long as the one behind it is active too. -/
theorem issued_token_stands_for (hverify : cfg.verify = verifier jwt secret cfg.isUuid) {now ttl : Int} {jti : String}
    (hid : cfg.isUuid jti = true) (look : Lookup) :
    (∀ sub type, jwt.Opens secret (accessClaims now jti sub type ttl) →
      confirmed cfg (createAccessJwt jwt secret now jti sub type ttl) look =
      if type = .user ∧ cfg.isUuid sub = true ∧ During now ttl look.wall then look.active sub else none) ∧
    ∀ target behind, jwt.Opens secret (impersonationClaims now jti target behind ttl) →
      confirmed cfg (createImpersonationJwt jwt secret now jti target behind ttl) look =
      if cfg.isUuid target = true ∧ behind ≠ "" ∧ cfg.isUuid behind = true ∧ During now ttl look.wall ∧
        (look.active behind).isSome = true then look.active target else none := by
  constructor
  · intro sub type hopens
    -- As an impersonation the token is refused, since its type is another.
    have hdevice : ¬ (accessClaims now jti sub type ttl).Valid cfg.isUuid look.wall .impersonation := by
      rw [accessClaims_valid hid]
      rintro ⟨heq, hne, -⟩
      exact hne heq
    have himp := (verifier_encode jwt secret hopens .impersonation look.wall).resolve_left fun h => hdevice h.2
    unfold confirmed createAccessJwt
    rw [hverify, himp.1]
    obtain ⟨hsome, hvalid⟩ | ⟨hnone, hinvalid⟩ := verifier_encode jwt secret hopens .user look.wall
    · obtain ⟨htype, -, huuid, hduring⟩ := (accessClaims_valid hid).1 hvalid
      rw [hsome, if_pos ⟨htype, huuid, hduring⟩]
      exact subject_user look huuid
    · rw [hnone, if_neg]
      rintro ⟨rfl, huuid, hduring⟩
      exact hinvalid ((accessClaims_valid hid).2 ⟨rfl, by decide, huuid, hduring⟩)
  · intro target behind hopens
    -- And as a plain token this one is.
    have hother : ¬ (impersonationClaims now jti target behind ttl).Valid cfg.isUuid look.wall .user := by
      rw [impersonationClaims_valid hid]
      rintro ⟨heq, -⟩
      cases heq
    have huser := (verifier_encode jwt secret hopens .user look.wall).resolve_left fun h => hother h.2
    unfold confirmed createImpersonationJwt
    rw [hverify, huser.1]
    obtain ⟨hsome, hvalid⟩ | ⟨hnone, hinvalid⟩ := verifier_encode jwt secret hopens .impersonation look.wall
    · obtain ⟨-, huuid, hne, hbehind, hduring⟩ := (impersonationClaims_valid hid).1 hvalid
      rw [hsome]
      refine (subject_impersonation look huuid).trans ?_
      show (if (look.active behind).isSome = true then look.active target else none) = _
      by_cases hactive : (look.active behind).isSome = true
      · rw [if_pos hactive, if_pos ⟨huuid, hne, hbehind, hduring, hactive⟩]
      · rw [if_neg hactive, if_neg fun h => hactive h.2.2.2.2]
    · rw [hnone, if_neg]
      rintro ⟨huuid, hne, hbehind, hduring, -⟩
      exact hinvalid ((impersonationClaims_valid hid).2 ⟨rfl, huuid, hne, hbehind, hduring⟩)

end

/-- A library that has signed one token, Ann's for fifteen minutes. -/
def annClaims : Claims := accessClaims 5000000 "j" "ann" .user 900

def oneToken : Jwt where
  encode c _ := if c = annClaims then "e30.ann.sig" else ""
  decode token secret := if token = "e30.ann.sig" ∧ secret = "s" then some annClaims else none

def tokenShop : Config := {shop with verify := verifier oneToken "s" shop.isUuid}

theorem ann_token_stands_for_ann :
    confirmed tokenShop (createAccessJwt oneToken "s" 5000000 "j" "ann" .user 900) ⟨6000000, .ok ⟨[ann, bob], []⟩, 0⟩ =
      some ann := by
  have hverify : tokenShop.verify = verifier oneToken "s" tokenShop.isUuid := rfl
  have hsigned : oneToken.Opens "s" (accessClaims 5000000 "j" "ann" .user 900) := by
    unfold Jwt.Opens
    decide
  have h := (issued_token_stands_for oneToken "s" hverify rfl ⟨6000000, .ok ⟨[ann, bob], []⟩, 0⟩).1 "ann" .user hsigned
  exact h.trans (by decide)

end PyAppRunner.Bridge
