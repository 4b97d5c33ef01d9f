import PyAppRunner.Bridge.Api
import PyAppRunner.Bridge.Tokens

/-! A connection's session ends with its token.

The expiry that a connection keeps is that of the token it last looked up. A message is
passed as that token's user only if the clock had not reached the expiry when the message
asked whether to look the token up again, or if it was looked up again and verified. -/
namespace PyAppRunner.Bridge
open Base ApiKeys Conn

section
variable (cfg : Config)

/-- What is verified of a token, as a user's or as an impersonation. -/
def payloadOf (token : String) (look : Lookup) : Option Payload :=
  cfg.verify token .user look.wall <|> cfg.verify token .impersonation look.wall

/-- The expiry that is kept is that of the token that was looked up. -/
def Timed (s : Conn) : Prop :=
  ∀ token look u, s.authToken = some token → s.lastLookup = some (token, look) → confirmed cfg token look = some u →
    s.authLookupFailed = false → s.tokenExpiresAt = (payloadOf cfg token look).map Payload.exp

/-- The token had not expired when this message asked, or it was looked up for it. -/
def InTime (env : Env) (s : Conn) : Prop :=
  ∀ token look u, s.authToken = some token → s.lastLookup = some (token, look) → confirmed cfg token look = some u →
    look = env.lookup ∨ ∃ payload, payloadOf cfg token look = some payload ∧ env.authWall < payload.exp

/-- The part of a connection that its session is read off. -/
structure SessionPart where
  token : Option String
  lookup : Option (String × Lookup)
  expiresAt : Option Int
  failed : Bool

end

/-- What a connection remembers of its token. -/
def Conn.sessionPart (s : Conn) : SessionPart := ⟨s.authToken, s.lastLookup, s.tokenExpiresAt, s.authLookupFailed⟩

section
variable {cfg : Config} {env : Env} {s s' : Conn} {k : SessionPart}

theorem Timed.of_part (h : Timed cfg s) (hpart : s'.sessionPart = s.sessionPart) : Timed cfg s' := by
  obtain ⟨htoken, hlookup, hexpires, hfailed⟩ := SessionPart.mk.inj hpart
  unfold Timed
  rw [htoken, hlookup, hexpires, hfailed]
  exact h

theorem InTime.of_part (h : InTime cfg env s) (hpart : s'.sessionPart = s.sessionPart) : InTime cfg env s' := by
  obtain ⟨htoken, hlookup, -, -⟩ := SessionPart.mk.inj hpart
  unfold InTime
  rw [htoken, hlookup]
  exact h

/-! ### What leaves the session alone -/

theorem keepsSession_hasValidApiKey (check : KeyCheck) (key : Option String) :
    Keeps (fun s => s.sessionPart = k) (hasValidApiKey cfg check key) := by
  intro s hs
  refine (triple_hasValidApiKey check key s).weaken (fun _ h => h) ?_ (fun _ heq => heq ▸ hs) s rfl
  intro status s' h
  obtain ⟨-, rfl⟩ | ⟨-, r, -, -, -, rfl⟩ := h
  · exact hs
  · exact hs

theorem sessionPart_loseKey : (loseKey s).sessionPart = s.sessionPart := by
  simp only [loseKey]
  split <;> rfl

theorem keepsSession_recheckApiKey (env : Env) : Keeps (fun s => s.sessionPart = k) (recheckApiKey cfg env) := by
  refine Keeps.get fun s => ?_
  split
  · exact Keeps.pure
  split
  · exact Keeps.pure
  refine Keeps.bind ?_ fun refusal => ?_
  · unfold keyRefusal
    split
    · refine Keeps.bind (keeps_read _) fun db => Keeps.bind (Keeps.modify fun s hs => hs) fun _ => ?_
      split
      · exact Keeps.pure
      · exact Keeps.bind (Keeps.modify fun s hs => hs) fun _ => Keeps.pure
    · exact Keeps.pure
  · split
    · exact Keeps.pure
    · exact Keeps.bind (Keeps.modify fun s hs => sessionPart_loseKey.trans hs) fun _ => Keeps.pure

theorem keepsSession_requireKey (env : Env) (msg : Message) (refusal : Option String) :
    Keeps (fun s => s.sessionPart = k) (requireKey cfg env msg refusal) := by
  unfold requireKey
  split
  · exact Keeps.raise
  refine Keeps.bind (Keeps.get fun s => ?_) fun _ => Keeps.get fun s => ?_
  · split
    · split
      · exact Keeps.pure
      · refine Keeps.bind (keepsSession_hasValidApiKey _ _) fun status => ?_
        split
        · exact Keeps.modify fun s hs => hs
        · exact Keeps.modify fun s hs => hs
    · exact Keeps.pure
  · split
    · exact Keeps.pure
    · exact Keeps.raise

theorem keepsSession_beforeToken (env : Env) (msg : Message) :
    Keeps (fun s => s.sessionPart = k) (beforeToken cfg env msg) := by
  refine Keeps.bind (Keeps.modify fun s hs => ?_) fun _ => ?_
  · unfold Conn.dropApiKeyUser
    split <;> exact hs
  refine Keeps.bind (keeps_addressed msg) fun target => Keeps.bind (keepsSession_recheckApiKey env) fun refusal => ?_
  exact Keeps.bind (Keeps.when (keepsSession_requireKey env msg refusal)) fun _ => Keeps.pure

theorem keepsSession_enforceApiKey (env : Env) (service action : String) :
    Keeps (fun s => s.sessionPart = k) (enforceApiKey env service action) := by
  refine Keeps.get fun s => ?_
  split
  · exact Keeps.raise
  refine Keeps.get fun s => ?_
  split
  · refine Keeps.bind (Keeps.get fun s => ?_) fun user => ?_
    · split
      · exact Keeps.pure
      · exact Keeps.bind (keeps_read _) fun db => Keeps.bind (Keeps.modify fun s hs => hs) fun _ => Keeps.pure
    · split
      · exact Keeps.bind (Keeps.modify fun s hs => hs) fun _ => Keeps.raise
      · exact Keeps.modify fun s hs => hs
  · exact Keeps.pure

/-! ### A lookup -/

/-- The expiry kept after a lookup that found the token's user. -/
theorem triple_resolveUser_expiry (look : Lookup) (payload : Payload) (imp : Bool) :
    Triple (fun _ => True) (resolveUser cfg look payload imp)
      (fun _ s => ∀ u, s.currentUserObj = some u → s.tokenExpiresAt = some payload.exp) (fun _ => True) := by
  have hcleared (s : Conn) (_ : True) (u : User) (h : s.clearCurrentUser.currentUserObj = some u) :
      s.clearCurrentUser.tokenExpiresAt = some payload.exp := by cases h
  unfold resolveUser
  split
  · exact Triple.modify hcleared
  refine Triple.bind (Q := fun _ _ => True) ?_ fun db => ?_
  · intro s _
    exact ⟨fun _ _ _ => trivial, fun _ _ _ => trivial⟩
  dsimp only
  generalize (if imp = true then _ else none : Option User) = behind
  split
  · exact Triple.modify hcleared
  split
  · exact Triple.modify hcleared
  split
  · exact Triple.modify fun s _ u _ => rfl
  · exact Triple.modify hcleared

theorem payload_of_confirmed {token : String} {look : Lookup} {u : User} (h : confirmed cfg token look = some u) :
    (∃ payload, cfg.verify token .user look.wall = some payload ∧ payloadOf cfg token look = some payload) ∨
      ∃ payload, cfg.verify token .user look.wall = none ∧ cfg.verify token .impersonation look.wall = some payload ∧
        payloadOf cfg token look = some payload := by
  unfold confirmed at h
  unfold payloadOf
  cases huser : cfg.verify token .user look.wall with
  | some payload => exact .inl ⟨payload, rfl, rfl⟩
  | none =>
    rw [huser] at h
    cases himp : cfg.verify token .impersonation look.wall with
    | some payload => exact .inr ⟨payload, rfl, rfl, rfl⟩
    | none =>
      rw [himp] at h
      cases h

/-- A lookup leaves the connection with its token, and the token's expiry if it found
somebody. -/
theorem triple_ensureUser_timed (look : Lookup) {s₀ : Conn} {token : String}
    (htoken : (s₀.authToken <|> bearer s₀.authorization) = some token) :
    Triple (fun s => s = s₀) (ensureUser cfg look)
      (fun _ s => s.authToken = some token ∧ s.lastLookup = some (token, look) ∧
        ∀ u, confirmed cfg token look = some u → s.tokenExpiresAt = (payloadOf cfg token look).map Payload.exp)
      (fun _ => True) := by
  intro s hs
  subst hs
  refine ⟨?_, fun _ _ _ => trivial⟩
  intro s' u heq
  have hstate := (triple_ensureUser cfg look s htoken _ rfl).1 s' u heq
  have hsame : s'.authToken = some token ∧ s'.lastLookup = some (token, look) ∧
      ∀ v, confirmed cfg token look = some v → s'.currentUserObj = some v := by
    obtain ⟨hnone, rfl⟩ | ⟨v, i, e, hsome, rfl⟩ := hstate
    · exact ⟨rfl, rfl, fun v hv => by rw [hnone] at hv; cases hv⟩
    · exact ⟨rfl, rfl, fun v' hv => by rw [hsome] at hv; exact hv⟩
  refine ⟨hsame.1, hsame.2.1, ?_⟩
  intro v hv
  have hobj := hsame.2.2 v hv
  -- the state is what `resolveUser` left, for the payload that was verified
  unfold ensureUser at heq
  rw [Program.modify_bind, Program.get_bind] at heq
  dsimp only at heq
  rw [htoken] at heq
  dsimp only at heq
  rw [Program.modify_bind] at heq
  obtain ⟨payload, huser, hpayload⟩ | ⟨payload, huser, himp, hpayload⟩ := payload_of_confirmed hv
  · rw [huser] at heq
    rw [hpayload]
    exact (triple_resolveUser_expiry look payload false _ trivial).1 s' u heq v hobj
  · rw [huser, himp] at heq
    rw [hpayload]
    exact (triple_resolveUser_expiry look payload true _ trivial).1 s' u heq v hobj

theorem triple_ensureCurrentUser_timed (look : Lookup) {s₀ : Conn} {token : String}
    (htoken : (s₀.authToken <|> bearer s₀.authorization) = some token) :
    Triple (fun s => s = s₀) (ensureCurrentUser cfg look)
      (fun _ s => s.authToken = some token ∧ s.lastLookup = some (token, look) ∧
        ∀ u, confirmed cfg token look = some u → s.tokenExpiresAt = (payloadOf cfg token look).map Payload.exp)
      (fun _ => True) :=
  Triple.bind (triple_ensureUser_timed look htoken) fun _ => Triple.modify fun _ hs => hs

/-! ### A message -/

theorem triple_reloadToken_timed (env : Env) (token : String) :
    Triple (Timed cfg) (reloadToken cfg env token) (fun _ s => Timed cfg s ∧ InTime cfg env s) (Timed cfg) := by
  refine Triple.get fun s₀ h => ?_
  split
  · rename_i hkept
    simp only [Bool.and_eq_true, decide_eq_true_eq, Bool.not_eq_true', authStale, Bool.or_eq_false_iff] at hkept
    obtain ⟨-, ⟨hfailed, hlive⟩, -⟩ := hkept
    refine Triple.pure fun s hs => ?_
    subst hs
    refine ⟨h, ?_⟩
    intro token' look u htoken hlook hu
    have hexpires := h token' look u htoken hlook hu hfailed
    obtain ⟨payload, -, hpayload⟩ | ⟨payload, -, -, hpayload⟩ := payload_of_confirmed hu
    all_goals
      rw [hexpires, hpayload] at hlive
      simp only [Option.map_some, Option.any_some, decide_eq_false_iff_not, Int.not_le] at hlive
      exact .inr ⟨payload, hpayload, hlive⟩
  · refine Triple.bind (Triple.modify (Q := fun _ s => s = {s₀ with authToken := some token}) ?_) fun _ => ?_
    · intro s hs
      rw [hs]
    refine Triple.bind (Q := fun _ s => s.authToken = some token ∧ s.lastLookup = some (token, env.lookup) ∧
      ∀ u, confirmed cfg token env.lookup = some u →
        s.tokenExpiresAt = (payloadOf cfg token env.lookup).map Payload.exp) ?_ fun _ => ?_
    · refine Triple.onRaise (triple_ensureCurrentUser_timed env.lookup rfl) ?_
      intro s _ token' look u _ _ _ hfailed
      cases hfailed
    · refine Triple.modify fun s hs => ?_
      obtain ⟨htoken, hlookup, hexpires⟩ := hs
      refine ⟨?_, ?_⟩
      · intro token' look u htoken' hlook hu _
        cases htoken.symm.trans htoken'
        cases hlookup.symm.trans hlook
        exact hexpires u hu
      · intro token' look u htoken' hlook _
        cases htoken.symm.trans htoken'
        cases hlookup.symm.trans hlook
        exact .inl rfl

theorem triple_reloadStanding_timed (env : Env) (msg : Message) :
    Triple (Timed cfg) (reloadStanding cfg env msg) (fun _ s => Timed cfg s ∧ InTime cfg env s) (Timed cfg) := by
  refine Triple.get fun s₀ h => ?_
  split
  · rename_i hnone
    refine Triple.pure fun s hs => ?_
    subst hs
    refine ⟨h, ?_⟩
    intro token look u htoken
    cases hm : msg.presents with
    | none => simp [hm, htoken] at hnone
    | some presented => simp [hm] at hnone
  · exact (triple_reloadToken_timed env _).weaken (fun s hs => hs ▸ h) (fun _ _ hs => hs) fun _ hs => hs

theorem triple_onMessage_timed (env : Env) (msg : Message) :
    Triple (Timed cfg) (onMessage cfg env msg) (fun _ s => Timed cfg s ∧ InTime cfg env s) (Timed cfg) := by
  intro s₀ h
  have hframe {m : Method Unit} (hm : ∀ k, Keeps (fun s => s.sessionPart = k) m) :
      Triple (fun s => Timed cfg s ∧ InTime cfg env s) m (fun _ s => Timed cfg s ∧ InTime cfg env s) (Timed cfg) := by
    intro s hs
    obtain ⟨hok, herr⟩ := hm s.sessionPart s rfl
    exact ⟨fun s' a heq => ⟨hs.1.of_part (hok s' a heq), hs.2.of_part (hok s' a heq)⟩,
      fun s' e heq => hs.1.of_part (herr s' e heq)⟩
  have hbefore : Triple (fun s => s = s₀) (beforeToken cfg env msg) (fun _ => Timed cfg) (Timed cfg) :=
    (keepsSession_beforeToken env msg).weaken (fun s hs => by rw [hs]) (fun _ _ hs => h.of_part hs) fun _ hs => h.of_part hs
  refine Triple.bind hbefore (fun target => ?_) s₀ rfl
  refine Triple.bind (triple_reloadStanding_timed env msg) fun _ => ?_
  refine Triple.bind ((keeps_requestedAction msg).weaken (fun _ hs => hs) (fun _ _ hs => hs) fun _ hs => hs.1)
    fun action => ?_
  refine Triple.bind (Triple.when (fun _ => hframe fun k => keepsSession_enforceApiKey env target.1 action)
    fun _ _ hs => hs) fun _ => Triple.pure fun _ hs => hs

theorem triple_handle_timed (env : Env) (frame : Option Message) :
    Triple (Timed cfg) (handle cfg env frame) (fun _ s => Timed cfg s ∧ InTime cfg env s) (Timed cfg) :=
  triple_handle env frame (fun _ _ hs => hs) (fun msg _ => triple_onMessage_timed env msg)
    fun _ _ hs => ⟨hs.1.of_part rfl, hs.2.of_part rfl⟩

theorem step_timed (i : Input) (s : Conn) (h : Timed cfg s) : Timed cfg ((machine cfg).step i s) := by
  cases i with
  | frame env frame => exact (triple_handle_timed env frame).state (fun _ _ hs => hs.1) h
  | otherAssigned conn user =>
    simp only [machine, step]
    split <;> exact h
  | removed conn => exact h
  | reset => exact h

theorem connect_timed {uid : String} {hs : Handshake} {m : String → List String} (h : connect cfg uid hs m = some s) :
    Timed cfg s := by
  unfold connect at h
  rcases heq : ensureCurrentUser cfg hs.lookup (.initial hs.authorization m) with ⟨s₁, f | u⟩
  · simp [heq] at h
  have hfirst : Timed cfg s₁ := by
    cases htoken : bearer hs.authorization with
    | none =>
      have hstands : ((Conn.initial hs.authorization m).authToken <|>
          bearer (Conn.initial hs.authorization m).authorization) = none := htoken
      have hnobody := ensureUser_nobody cfg hs.lookup hstands
      unfold ensureCurrentUser at heq
      rw [Program.bind_ok hnobody] at heq
      cases heq
      intro token look v hauth
      cases hauth
    | some token =>
      have hstands : ((Conn.initial hs.authorization m).authToken <|>
          bearer (Conn.initial hs.authorization m).authorization) = some token := htoken
      obtain ⟨htok, hlook, hexpires⟩ := (triple_ensureCurrentUser_timed hs.lookup hstands _ rfl).1 s₁ u heq
      intro token' look v hauth hlook' hv _
      cases htok.symm.trans hauth
      cases hlook.symm.trans hlook'
      exact hexpires v hv
  rw [heq] at h
  dsimp only at h
  have hkey : Keeps (fun s => s.sessionPart = s₁.sessionPart) (hasValidApiKey cfg hs.check hs.apiKey) :=
    keepsSession_hasValidApiKey hs.check hs.apiKey
  rcases heq' : hasValidApiKey cfg hs.check hs.apiKey {s₁ with uid := some uid} with ⟨s₂, f | status⟩
  · simp [heq'] at h
  have hpart := (hkey {s₁ with uid := some uid} rfl).1 s₂ status heq'
  rw [heq'] at h
  cases status with
  | none =>
    cases h
    exact hfirst.of_part hpart
  | some refusal =>
    dsimp only at h
    split at h
    · cases h
      exact hfirst.of_part hpart
    · cases h
      exact hfirst.of_part hpart

/-! ### Every message -/

/-- The token was signed with the secret, is a user's or an impersonation, names the user,
and had not expired at a reading, but for the skew that is tolerated. -/
def Session (jwt : Jwt) (secret token : String) (u : User) (reading : Int) : Prop :=
  ∃ c, jwt.decode token secret = some c ∧
    (c.typ = some JwtType.user.text ∨ c.typ = some JwtType.impersonation.text) ∧ c.sub = some u.publicId ∧
    ∃ exp, c.exp = some exp ∧ reading < (exp + leeway) * 1000000

section
variable {jwt : Jwt} {secret token : String} {look : Lookup} {u : User}

theorem claims_of_verified (hverify : cfg.verify = verifier jwt secret cfg.isUuid) {kind : TokenKind} {wall : Int}
    {payload : Payload} (h : cfg.verify token kind wall = some payload) :
    ∃ c, jwt.decode token secret = some c ∧ c.Valid cfg.isUuid wall kind.type ∧ payload = c.payload := by
  rw [hverify] at h
  obtain ⟨c, hc, rfl⟩ := Option.map_eq_some_iff.1 h
  obtain ⟨hdecode, hvalid⟩ := (verifyAccessJwt_eq_some jwt secret cfg.isUuid).1 hc
  exact ⟨c, hdecode, hvalid, rfl⟩

theorem session_of_claims {c : Claims} {kind : TokenKind} {wall : Int} (hdecode : jwt.decode token secret = some c)
    (hvalid : c.Valid cfg.isUuid wall kind.type) (hsub : c.payload.sub = u.publicId) :
    Session jwt secret token u wall ∧ ∀ reading, reading < c.payload.exp → Session jwt secret token u reading := by
  obtain ⟨sub, hsome, -⟩ := hvalid.subject
  obtain ⟨exp, hexp, hlive⟩ := hvalid.live
  have hpayload : c.payload.exp = exp * 1000000 := by simp [Claims.payload, hexp]
  have htyp : c.typ = some JwtType.user.text ∨ c.typ = some JwtType.impersonation.text := by
    cases kind with
    | user => exact .inl hvalid.typ
    | impersonation => exact .inr hvalid.typ
  have hname : c.sub = some u.publicId := by
    rw [← hsub]
    simp [Claims.payload, hsome]
  refine ⟨⟨c, hdecode, htyp, hname, exp, hexp, hlive⟩, ?_⟩
  intro reading hreading
  refine ⟨c, hdecode, htyp, hname, exp, hexp, ?_⟩
  rw [hpayload] at hreading
  unfold leeway
  omega

/-- Whoever a lookup confirms holds a session at the time of the lookup, and at any
reading before the expiry that is kept. -/
theorem session_of_confirmed (hverify : cfg.verify = verifier jwt secret cfg.isUuid)
    (h : confirmed cfg token look = some u) :
    Session jwt secret token u look.wall ∧
      ∀ payload reading, payloadOf cfg token look = some payload → reading < payload.exp →
        Session jwt secret token u reading := by
  have hwhole {kind : TokenKind} {payload : Payload} (hkind : cfg.verify token kind look.wall = some payload)
      (hpayload : payloadOf cfg token look = some payload) (hsub : u.publicId = payload.sub) :
      Session jwt secret token u look.wall ∧ ∀ payload reading, payloadOf cfg token look = some payload →
        reading < payload.exp → Session jwt secret token u reading := by
    obtain ⟨c, hdecode, hvalid, rfl⟩ := claims_of_verified hverify hkind
    obtain ⟨hnow, hlater⟩ := session_of_claims hdecode hvalid hsub.symm
    refine ⟨hnow, ?_⟩
    intro payload reading hsome hreading
    rw [hpayload] at hsome
    cases hsome
    exact hlater reading hreading
  obtain ⟨payload, huser, hpayload⟩ | ⟨payload, huser, himp, hpayload⟩ := payload_of_confirmed h
  · have hsubject : subject cfg look payload false = some u := by
      unfold confirmed at h
      rwa [huser] at h
    obtain ⟨-, -, -, hsub, -, -⟩ := subject_spec hsubject
    exact hwhole huser hpayload hsub
  · have hsubject : subject cfg look payload true = some u := by
      unfold confirmed at h
      rwa [huser, himp] at h
    obtain ⟨-, -, -, hsub, -, -⟩ := subject_spec hsubject
    exact hwhole himp hpayload hsub

end

/-- **A session ends with its token.** Whenever a connection that stands on a token passes
a message as a user, the token was signed with the secret for that user and had not
expired, but for ten seconds, at a reading of the clock taken for this message: the one
for the staleness check or the one of the lookup. The same holds of a request. -/
theorem session_ends_with_token {uid : String} {hs : Handshake} {m : String → List String} {s₀ : Conn} {jwt : Jwt}
    {secret : String} (hverify : cfg.verify = verifier jwt secret cfg.isUuid) (hfresh : ∀ user, uid ∉ m user)
    (hopen : connect cfg uid hs m = some s₀) (inputs : List Input) :
    (∀ env frame s passed token u, handle cfg env frame ((machine cfg).run s₀ inputs) = (s, .ok passed) →
      lastToken cfg (bearer hs.authorization) s₀ (inputs ++ [.frame env frame]) = some token →
      s.currentUser = some u →
      Session jwt secret token u env.authWall ∨ Session jwt secret token u env.lookup.wall) ∧
    ∀ store met req p s token u, Called cfg store met req p s → bearer req.authorization = some token →
      s.currentUser = some u → Session jwt secret token u met.lookup.wall := by
  constructor
  · intro env frame s passed token u hpass htoken hu
    have hidentified := run_identified (connect_identified hfresh hopen) inputs
    have htimed : Timed cfg ((machine cfg).run s₀ inputs) := Machine.invariant_all step_timed (connect_timed hopen) inputs
    obtain ⟨hid, hacts⟩ := (triple_handle_identified env frame hidentified _ rfl).1 s passed hpass
    have hintime := ((triple_handle_timed env frame _ htimed).1 s passed hpass).2
    rw [← lastToken_append, htoken] at hid hacts
    obtain ⟨look, hlook, huser, -, -⟩ := hacts
    have hconfirmed := huser.symm.trans hu
    obtain ⟨hnow, hlater⟩ := session_of_confirmed hverify hconfirmed
    obtain rfl | ⟨payload, hpayload, hwall⟩ := hintime token look u hid.token hlook hconfirmed
    · exact .inr hnow
    · exact .inl (hlater payload env.authWall hpayload hwall)
  · intro store met req p s token u hcalled htoken hu
    have hacts := acts_for_called cfg store hcalled
    unfold ActsFor at hacts
    rw [htoken] at hacts
    exact (session_of_confirmed hverify (hacts.symm.trans hu)).1

end

/-- A chat whose tokens are signed. -/
def signedChat : Config := {tokenShop with services := chat.services}

/-- Ann's first message, with her token, is from her while the token lives. -/
theorem ann_session_ends_with_token :
    ∃ s₀ s passed, connect signedChat "c" (upgrade none []) (fun _ => []) = some s₀ ∧
      handle signedChat (finds 6000000 [ann, bob]) (some (say "chat" (some "e30.ann.sig"))) s₀ = (s, .ok passed) ∧
      s.currentUser = some ann ∧ Session oneToken "s" "e30.ann.sig" ann 6000000 := by
  have hopen : connect signedChat "c" (upgrade none []) (fun _ => []) = some joined := rfl
  have hfresh (user : String) : "c" ∉ (fun _ => [] : String → List String) user := List.not_mem_nil
  refine ⟨joined, _, _, hopen, rfl, rfl, ?_⟩
  have hverify : signedChat.verify = verifier oneToken "s" signedChat.isUuid := rfl
  have h := (session_ends_with_token hverify hfresh hopen []).1
    (finds 6000000 [ann, bob]) (some (say "chat" (some "e30.ann.sig"))) _ _ "e30.ann.sig" ann rfl rfl rfl
  exact h.elim id id

end PyAppRunner.Bridge
