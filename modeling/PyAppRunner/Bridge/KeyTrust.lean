import PyAppRunner.Bridge.Socket

/-! When a connection lets a call through on its API key.

The connection trusts the record it has while the reading kept of when it was read is
recent, and reads it again after that. A key that the handshake or a reread refused is
lost for good. A key that a message brought and that was refused is not: it may be
tried again, and another may be tried, which is what the connection remembers only
the last refused key for. -/
namespace PyAppRunner.Bridge
open Base ApiKeys

section
variable (cfg : Config)

/-- The record may be used: not disabled, and from this address. -/
def Usable (r : KeyRecord) : Prop :=
  r.disabled = false ∧ ∀ ips, r.allowedIps = some ips → cfg.addressAllowed ips = true

/-- The read answered with this record. -/
def KeyCheck.Gave (check : KeyCheck) (r : KeyRecord) : Prop := ∃ db, check.db = .ok db ∧ r ∈ db.keys

/-- What the connection knows about its key between two messages. -/
structure Keyed (s : Conn) : Prop where
  valid : s.keyValid = some true → s.keyVerified = true ∧ ∃ r check, s.currentKey = some r ∧
    s.keyRead = some check ∧ check.Gave r ∧ check.stamp = s.keyCheckedAt ∧ Usable cfg r
  invalid : s.keyValid ≠ some true → s.keyVerified = false ∧ s.currentKey = none
  refused : s.keyRefused = true → s.keyValid = some false

variable {cfg}

/-- A key that is not refused is neither disabled nor expired, and its address is allowed. -/
theorem usable_of_refusal {r : KeyRecord} {wall : Int} (h : apiKeyRefusal cfg r wall = none) :
    Usable cfg r ∧ expired r.expiresAt wall = false := by
  unfold apiKeyRefusal at h
  split at h
  · cases h
  split at h
  · cases h
  rename_i hdisabled hexpired
  refine ⟨⟨by simpa using hdisabled, ?_⟩, by simpa using hexpired⟩
  intro ips hips
  rw [hips] at h
  simp only at h
  split at h
  · assumption
  · cases h

/-- The database answers or the program raises; the state is as it was. -/
theorem triple_read {α : Type} (r : Read α) (s₀ : Conn) :
    Triple (fun s => s = s₀) r.get (fun a s => s = s₀ ∧ r = .ok a) (fun s => s = s₀) := by
  cases r with
  | failed f => exact Triple.raise fun s hs => hs
  | ok a => exact Triple.pure fun s hs => ⟨hs, rfl⟩

theorem triple_hasValidKeyDb (check : KeyCheck) (key : String) (s₀ : Conn) :
    Triple (fun s => s = s₀) (hasValidKeyDb cfg check key)
      (fun found s => s = s₀ ∧ ∀ r, found = .ok r →
        check.Gave r ∧ Usable cfg r ∧ expired r.expiresAt check.wall = false)
      (fun s => s = s₀) := by
  unfold hasValidKeyDb
  split
  · exact Triple.pure fun s hs => ⟨hs, by simp⟩
  · rename_i stem secret hkey
    refine Triple.bind (triple_read check.db s₀) fun db => ?_
    split
    · exact Triple.pure fun s hs => ⟨hs.1, by simp⟩
    · rename_i record hfound
      split
      · exact Triple.pure fun s hs => ⟨hs.1, by simp⟩
      split
      · exact Triple.pure fun s hs => ⟨hs.1, by simp⟩
      rename_i hrefusal
      intro s hs
      obtain ⟨rfl, hdb⟩ := hs
      refine Triple.bind (triple_read check.useKey s) (fun _ => Triple.pure ?_) s rfl
      intro s' hs'
      refine ⟨hs'.1, ?_⟩
      intro r hr
      cases hr
      exact ⟨⟨db, hdb, List.mem_of_find?_eq_some hfound⟩, usable_of_refusal hrefusal⟩

/-- A key that may be used becomes the connection's; any other leaves it as it was. -/
theorem triple_hasValidApiKey (check : KeyCheck) (key : Option String) (s₀ : Conn) :
    Triple (fun s => s = s₀) (hasValidApiKey cfg check key)
      (fun status s => status ≠ none ∧ s = s₀ ∨ status = none ∧ ∃ r,
        check.Gave r ∧ Usable cfg r ∧ expired r.expiresAt check.wall = false ∧
        s = {s₀ with
          keyVerified := true, currentKey := some r, keyRead := some check
          keyCheckedAt := check.stamp, keyUserCache := none})
      (fun s => s = s₀) := by
  unfold hasValidApiKey
  split
  · exact Triple.pure fun s hs => .inl ⟨by simp, hs⟩
  · refine Triple.bind (triple_hasValidKeyDb check _ s₀) fun found => ?_
    split
    · exact Triple.pure fun s hs => .inl ⟨by simp, hs.1⟩
    · rename_i record
      refine Triple.bind (Triple.modify (Q := fun _ s => ∃ r, check.Gave r ∧ Usable cfg r ∧
        expired r.expiresAt check.wall = false ∧ s = {s₀ with
          keyVerified := true, currentKey := some r, keyRead := some check
          keyCheckedAt := check.stamp, keyUserCache := none}) ?_) fun _ => ?_
      · intro s hs
        obtain ⟨rfl, hgood⟩ := hs
        obtain ⟨hgave, husable, hfresh⟩ := hgood record rfl
        exact ⟨record, hgave, husable, hfresh, rfl⟩
      · exact Triple.pure fun s hs => .inr ⟨rfl, hs⟩

/-! ### What a message may do to the key -/

/-- The part of a connection that is about its key. -/
structure KeyPart where
  valid : Option Bool
  verified : Bool
  record : Option KeyRecord
  checkedAt : Int
  read : Option KeyCheck
  refused : Bool

/-- What a connection knows of its key. -/
def Conn.keyPart (s : Conn) : KeyPart :=
  ⟨s.keyValid, s.keyVerified, s.currentKey, s.keyCheckedAt, s.keyRead, s.keyRefused⟩

/-- The record in use was read during this message, or the reading kept of when it was
read is recent enough, and it has not expired by then. -/
def Fresh (cfg : Config) (env : Env) (s : Conn) : Prop :=
  ∀ r check, s.currentKey = some r → s.keyRead = some check → r.id ≠ 0 →
    (check = env.recheck ∨ check = env.verify) ∧ expired r.expiresAt check.wall = false ∨
    env.recheckNow - check.stamp < cfg.recheckSeconds ∧ expired r.expiresAt env.recheckWall = false

/-- It is all that matters here. -/
theorem Keyed.of_keyPart {s s' : Conn} (h : Keyed cfg s) (hpart : s'.keyPart = s.keyPart) : Keyed cfg s' := by
  obtain ⟨hvalid, hverified, hrecord, hat, hread, hrefused⟩ := KeyPart.mk.inj hpart
  refine ⟨?_, ?_, ?_⟩
  · rw [hvalid, hverified, hrecord, hread, hat]
    exact h.valid
  · rw [hvalid, hverified, hrecord]
    exact h.invalid
  · rw [hvalid, hrefused]
    exact h.refused

theorem Fresh.of_keyPart {env : Env} {s s' : Conn} (h : Fresh cfg env s) (hpart : s'.keyPart = s.keyPart) :
    Fresh cfg env s' := by
  obtain ⟨-, -, hrecord, -, hread, -⟩ := KeyPart.mk.inj hpart
  intro r check hr hcheck
  exact h r check (hrecord ▸ hr) (hread ▸ hcheck)

/-- A lost key is remembered as refused. -/
theorem keyPart_loseKey (s : Conn) :
    (loseKey s).keyPart = ⟨some false, false, none, s.keyCheckedAt, s.keyRead, true⟩ := by
  simp only [loseKey]
  split <;> rfl

theorem keyed_loseKey (s : Conn) : Keyed cfg (loseKey s) := by
  obtain ⟨hvalid, hverified, hrecord, -, -, -⟩ := KeyPart.mk.inj (keyPart_loseKey s)
  refine ⟨by simp [hvalid], ?_, fun _ => hvalid⟩
  intro _
  exact ⟨hverified, hrecord⟩

theorem fresh_loseKey (env : Env) (s : Conn) : Fresh cfg env (loseKey s) := by
  intro r check hr
  obtain ⟨-, -, hrecord, -, -, -⟩ := KeyPart.mk.inj (keyPart_loseKey s)
  rw [hrecord] at hr
  cases hr

/-- A key that is held is valid. -/
theorem Keyed.valid_of_record {s : Conn} {r : KeyRecord} (h : Keyed cfg s) (hr : s.currentKey = some r) :
    s.keyValid = some true := by
  by_contra hne
  rw [(h.invalid hne).2] at hr
  cases hr

/-- A record that is read again, and then kept, is the connection's and may be used. -/
theorem triple_rereadKey (check : KeyCheck) {record : KeyRecord} {s₀ : Conn} (h : Keyed cfg s₀)
    (hrecord : s₀.currentKey = some record) :
    Triple (fun s => s = s₀) (rereadKey cfg check record)
      (fun refusal s => refusal = none → Keyed cfg s ∧ s.keyRead = some check ∧
        ∀ r, s.currentKey = some r → expired r.expiresAt check.wall = false)
      (Keyed cfg) := by
  have hvalid : s₀.keyValid = some true := h.valid_of_record hrecord
  unfold rereadKey
  refine Triple.bind ((triple_read check.db s₀).weaken (fun s hs => hs) (fun _ _ hs => hs)
    (fun s hs => hs ▸ h)) fun db => ?_
  refine Triple.bind (Triple.modify (Q := fun _ s =>
    s = {s₀ with keyCheckedAt := check.stamp, keyUserCache := none} ∧ check.db = .ok db) ?_) fun _ => ?_
  · intro s hs
    exact ⟨by rw [hs.1], hs.2⟩
  split
  · exact Triple.pure fun s _ hnone => by cases hnone
  · rename_i fresh hfound
    refine Triple.bind (Triple.modify (Q := fun _ s => check.db = .ok db ∧
      s = {s₀ with
        keyCheckedAt := check.stamp, keyUserCache := none
        currentKey := some fresh, keyRead := some check}) ?_) fun _ => ?_
    · intro s hs
      exact ⟨hs.2, by rw [hs.1]⟩
    · refine Triple.pure fun s hs hkept => ?_
      obtain ⟨hdb, rfl⟩ := hs
      obtain ⟨husable, hlive⟩ := usable_of_refusal hkept
      have hgave : check.Gave fresh := ⟨db, hdb, List.mem_of_find?_eq_some hfound⟩
      refine ⟨⟨?_, ?_, h.refused⟩, rfl, ?_⟩
      · intro _
        exact ⟨(h.valid hvalid).1, fresh, check, rfl, rfl, hgave, rfl, husable⟩
      · intro hne
        exact absurd hvalid hne
      · intro r hr
        cases hr
        exact hlive

/-- After the recheck the connection has a fresh key or none. -/
theorem triple_recheckApiKey (env : Env) :
    Triple (Keyed cfg) (recheckApiKey cfg env) (fun _ s => Keyed cfg s ∧ Fresh cfg env s) (Keyed cfg) := by
  unfold recheckApiKey
  refine Triple.get fun s₀ h => ?_
  -- Without a record there is nothing to recheck, and neither is there for a key of the configuration.
  split
  · rename_i hnone
    refine Triple.pure fun s hs => ?_
    subst hs
    refine ⟨h, ?_⟩
    intro r check hr
    rw [hnone] at hr
    cases hr
  rename_i record hrecord
  split
  · rename_i hid
    refine Triple.pure fun s hs => ?_
    subst hs
    refine ⟨h, ?_⟩
    intro r check hr _ hne
    rw [hrecord] at hr
    cases hr
    exact absurd hid hne
  -- The key is read again after the interval, and before that its expiry alone is looked at.
  · have hkept : Triple (fun s => s = s₀) (keyRefusal cfg env record s₀.keyCheckedAt)
        (fun refusal s => refusal = none → Keyed cfg s ∧ Fresh cfg env s) (Keyed cfg) := by
      unfold keyRefusal
      split
      · refine (triple_rereadKey env.recheck h hrecord).weaken (fun s hs => hs) ?_ fun s hs => hs
        intro refusal s hs hnone
        obtain ⟨hkeyed, hread, hlive⟩ := hs hnone
        refine ⟨hkeyed, ?_⟩
        intro r check hr hcheck _
        rw [hread] at hcheck
        cases hcheck
        exact .inl ⟨.inl rfl, hlive r hr⟩
      · rename_i hrecent
        refine Triple.pure fun s hs hnone => ?_
        subst hs
        refine ⟨h, ?_⟩
        intro r check hr hcheck _
        rw [hrecord] at hr
        cases hr
        obtain ⟨-, r', check', -, hcheck', -, hstamp, -⟩ := h.valid (h.valid_of_record hrecord)
        rw [hcheck] at hcheck'
        cases hcheck'
        refine .inr ⟨by omega, ?_⟩
        cases hexp : expired record.expiresAt env.recheckWall with
        | false => rfl
        | true => simp [hexp] at hnone
    refine Triple.bind hkept fun refusal => ?_
    split
    · exact Triple.pure fun s hs => hs rfl
    · refine Triple.bind (Triple.modify (Q := fun _ s => Keyed cfg s ∧ Fresh cfg env s) ?_) fun _ => ?_
      · intro s _
        exact ⟨keyed_loseKey s, fresh_loseKey env s⟩
      · exact Triple.pure fun s hs => hs

/-- A key that a message brings is taken only where there was none, and read for it. -/
theorem triple_tryKey (env : Env) (msg : Message) :
    Triple (fun s => Keyed cfg s ∧ Fresh cfg env s) (tryKey cfg env msg)
      (fun _ s => Keyed cfg s ∧ Fresh cfg env s) (Keyed cfg) := by
  unfold tryKey
  refine Triple.get fun s₀ h => ?_
  split
  · rename_i key hnone _
    split
    · exact Triple.pure fun s hs => hs ▸ h
    · refine Triple.bind ((triple_hasValidApiKey env.verify (some key.text) s₀).weaken (fun s hs => hs)
        (fun _ _ hs => hs) (fun s hs => hs ▸ h.1)) fun status => ?_
      have hrefused : s₀.keyRefused ≠ true := by
        intro hr
        rw [h.1.refused hr] at hnone
        cases hnone
      split
      · refine Triple.modify fun s hs => ?_
        obtain ⟨hne, -⟩ | ⟨-, r, hgave, husable, hlive, rfl⟩ := hs
        · exact absurd rfl hne
        · refine ⟨⟨?_, ?_, ?_⟩, ?_⟩
          · intro _
            exact ⟨rfl, r, env.verify, rfl, rfl, hgave, rfl, husable⟩
          · intro hne
            exact absurd rfl hne
          · intro hr
            exact absurd hr hrefused
          · intro r' check hr hcheck _
            cases hr
            cases hcheck
            exact .inl ⟨.inr rfl, hlive⟩
      · refine Triple.modify fun s hs => ?_
        obtain ⟨-, rfl⟩ | ⟨hnone, -⟩ := hs
        · exact ⟨h.1.of_keyPart rfl, h.2.of_keyPart rfl⟩
        · cases hnone
  · exact Triple.pure fun s hs => hs ▸ h

/-- A service that asks for a key gets one, or the message is refused. -/
theorem triple_requireKey (env : Env) (msg : Message) (refusal : Option String) :
    Triple (fun s => Keyed cfg s ∧ Fresh cfg env s) (requireKey cfg env msg refusal)
      (fun _ s => Keyed cfg s ∧ Fresh cfg env s ∧ s.keyValid = some true) (Keyed cfg) := by
  unfold requireKey
  split
  · exact Triple.raise fun s hs => hs.1
  · refine Triple.bind (triple_tryKey env msg) fun _ => Triple.get fun s₀ h => ?_
    split
    · rename_i hvalid
      exact Triple.pure fun s hs => hs ▸ ⟨h.1, h.2, hvalid⟩
    · exact Triple.raise fun s hs => hs ▸ h.1

/-! ### What leaves the key alone -/

section
variable {k : KeyPart}

theorem keeps_read {I : Conn → Prop} {α : Type} (r : Read α) : Keeps I r.get := by
  cases r with
  | failed f => exact Keeps.raise
  | ok a => exact Keeps.pure

theorem keeps_addressed {I : Conn → Prop} (msg : Message) : Keeps I (addressed cfg msg) := by
  unfold addressed
  repeat' split
  all_goals first | exact Keeps.raise | exact Keeps.pure

theorem keeps_requestedAction {I : Conn → Prop} (msg : Message) : Keeps I (requestedAction msg) := by
  unfold requestedAction
  split
  · exact Keeps.raise
  · exact Keeps.raise
  · exact Keeps.pure

/-- The lookup of a user says nothing of the key. -/
theorem keepsKey_resolveUser (look : Lookup) (payload : Payload) (imp : Bool) :
    Keeps (fun s => s.keyPart = k) (resolveUser cfg look payload imp) := by
  unfold resolveUser
  split
  · exact Keeps.modify fun s hs => hs
  refine Keeps.bind (keeps_read look.db) fun db => ?_
  dsimp only
  generalize (if imp = true then _ else none : Option User) = impersonator
  split
  · exact Keeps.modify fun s hs => hs
  split
  · exact Keeps.modify fun s hs => hs
  split
  · exact Keeps.modify fun s hs => hs
  · exact Keeps.modify fun s hs => hs

theorem keepsKey_ensureCurrentUser (look : Lookup) :
    Keeps (fun s => s.keyPart = k) (ensureCurrentUser cfg look) := by
  refine Keeps.bind (Keeps.bind (Keeps.modify fun s hs => hs) fun _ => Keeps.get fun s => ?_)
    fun _ => Keeps.modify fun s hs => hs
  split
  · exact Keeps.modify fun s hs => hs
  refine Keeps.bind (Keeps.modify fun s hs => hs) fun _ => ?_
  split
  · exact keepsKey_resolveUser look _ false
  split
  · exact keepsKey_resolveUser look _ true
  · exact Keeps.modify fun s hs => hs

theorem keepsKey_reloadStanding (env : Env) (msg : Message) :
    Keeps (fun s => s.keyPart = k) (reloadStanding cfg env msg) := by
  refine Keeps.get fun s => ?_
  split
  · exact Keeps.pure
  · refine Keeps.get fun s => ?_
    split
    · exact Keeps.pure
    · refine Keeps.bind (Keeps.modify fun s hs => hs) fun _ => ?_
      refine Keeps.bind (Keeps.onRaise (keepsKey_ensureCurrentUser env.lookup) fun s hs => hs) fun _ => ?_
      exact Keeps.modify fun s hs => hs

theorem keepsKey_applyApiKeyUser (env : Env) : Keeps (fun s => s.keyPart = k) (applyApiKeyUser env) := by
  refine Keeps.get fun s => ?_
  split
  · refine Keeps.bind (Keeps.get fun s => ?_) fun user => ?_
    · split
      · exact Keeps.pure
      · exact Keeps.bind (keeps_read env.keyUser) fun db => Keeps.bind (Keeps.modify fun s hs => hs) fun _ => Keeps.pure
    · split
      · exact Keeps.bind (Keeps.modify fun s hs => hs) fun _ => Keeps.raise
      · exact Keeps.modify fun s hs => hs
  · exact Keeps.pure

end

/-! ### Whole messages -/

/-- What holds of the key when a message is passed on. -/
def Trusted (cfg : Config) (env : Env) (passed : Passed) (s : Conn) : Prop :=
  Keyed cfg s ∧ Fresh cfg env s ∧ (passed.requiresKey = true → s.keyValid = some true ∧
    ∀ r, s.currentKey = some r → abilityAllows r.abilities (abilityOf passed.service passed.action) = true)

/-- Up to the token: the key is fresh, and valid where it is asked for. -/
theorem triple_beforeToken (env : Env) (msg : Message) :
    Triple (Keyed cfg) (beforeToken cfg env msg)
      (fun target s => Keyed cfg s ∧ Fresh cfg env s ∧ (target.2 = true → s.keyValid = some true)) (Keyed cfg) := by
  unfold beforeToken
  refine Triple.bind (Triple.modify (Q := fun _ => Keyed cfg) ?_) fun _ => ?_
  · intro s hs
    refine hs.of_keyPart ?_
    unfold Conn.dropApiKeyUser
    split <;> rfl
  refine Triple.bind (keeps_addressed msg) fun target => ?_
  obtain ⟨service, requiresKey⟩ := target
  refine Triple.bind (triple_recheckApiKey env) fun refusal => ?_
  refine Triple.bind (Q := fun _ s => Keyed cfg s ∧ Fresh cfg env s ∧ (requiresKey = true → s.keyValid = some true))
    (Triple.when (fun _ => ?_) ?_) fun _ => Triple.pure fun _ hs => hs
  · refine (triple_requireKey env msg refusal).weaken (fun _ hs => hs) ?_ fun _ hs => hs
    intro _ s hs
    exact ⟨hs.1, hs.2.1, fun _ => hs.2.2⟩
  · intro hno s hs
    exact ⟨hs.1, hs.2, by simp [hno]⟩

/-- **One message.** -/
theorem triple_onMessage (env : Env) (msg : Message) :
    Triple (Keyed cfg) (onMessage cfg env msg) (Trusted cfg env) (Keyed cfg) := by
  unfold onMessage
  refine Triple.bind (triple_beforeToken env msg) fun target => ?_
  obtain ⟨service, requiresKey⟩ := target
  -- from here on the key is only looked at
  intro s₁ h₁
  have hkeep {s : Conn} (hs : s.keyPart = s₁.keyPart) : Keyed cfg s := h₁.1.of_keyPart hs
  refine Triple.bind ((keepsKey_reloadStanding env msg).weaken (fun _ hs => hs) (fun _ _ hs => hs)
    fun _ hs => hkeep hs) (fun _ => ?_) s₁ rfl
  refine Triple.bind ((keeps_requestedAction msg).weaken (fun _ hs => hs) (fun _ _ hs => hs)
    fun _ hs => hkeep hs) fun action => ?_
  refine Triple.bind (Q := fun _ s => s.keyPart = s₁.keyPart ∧ (requiresKey = true → ∀ r, s.currentKey = some r →
    abilityAllows r.abilities (abilityOf service action) = true)) ?_ fun _ => ?_
  · refine Triple.when (fun _ => Triple.get fun s₂ h₂ => ?_) fun hno s hs => ⟨hs, by simp [hno]⟩
    split
    · exact Triple.raise fun s hs => hkeep (hs ▸ h₂)
    · rename_i hable
      refine (keepsKey_applyApiKeyUser (k := s₁.keyPart) env).weaken (fun s hs => hs ▸ h₂) ?_ fun s hs => hkeep hs
      intro _ s hs
      refine ⟨hs, ?_⟩
      intro _ r hr
      obtain ⟨-, -, hrecord, -, -, -⟩ := KeyPart.mk.inj (hs.trans h₂.symm)
      rw [hrecord] at hr
      simpa [hr] using hable
  · refine Triple.pure fun s hs => ?_
    refine ⟨hkeep hs.1, h₁.2.1.of_keyPart hs.1, ?_⟩
    intro hreq
    obtain ⟨hvalid, -, -, -, -, -⟩ := KeyPart.mk.inj hs.1
    exact ⟨hvalid.trans (h₁.2.2 hreq), hs.2 hreq⟩

/-- What a message does, and then the code that may look at the user. -/
theorem triple_handle {P : Conn → Prop} {Q : Passed → Conn → Prop} {E : Conn → Prop} (env : Env)
    (frame : Option Message) (hbad : frame = none → ∀ s, P s → E s)
    (hmsg : ∀ msg, frame = some msg → Triple P (onMessage cfg env msg) Q E)
    (hcache : ∀ s passed, Q passed s → Q passed s.cacheUser) : Triple P (handle cfg env frame) Q E := by
  intro s hs
  unfold handle
  cases frame with
  | none => exact ⟨by simp, fun s' f heq => by cases heq; exact hbad rfl s hs⟩
  | some msg =>
    obtain ⟨hok, herr⟩ := hmsg msg rfl s hs
    rcases heq : onMessage cfg env msg s with ⟨s₁, f | passed⟩
    · simp only [heq]
      exact ⟨by simp, fun s' f' heq' => by cases heq'; exact herr s₁ f heq⟩
    · simp only [heq]
      refine ⟨?_, by simp⟩
      intro s' passed' heq'
      cases heq'
      split
      · exact hcache s₁ passed (hok s₁ passed heq)
      · exact hok s₁ passed heq

theorem triple_handle_trusted (env : Env) (frame : Option Message) :
    Triple (Keyed cfg) (handle cfg env frame) (Trusted cfg env) (Keyed cfg) := by
  refine triple_handle env frame (fun _ _ hs => hs) (fun msg _ => triple_onMessage env msg) ?_
  intro s passed h
  exact ⟨h.1.of_keyPart rfl, h.2.1.of_keyPart rfl, h.2.2⟩

/-- **One input.** -/
theorem step_keyed (i : Input) (s : Conn) (h : Keyed cfg s) : Keyed cfg ((machine cfg).step i s) := by
  cases i with
  | frame env frame => exact (triple_handle_trusted env frame).state (fun _ _ hs => hs.1) h
  | otherAssigned conn user =>
    simp only [machine, step]
    split
    · exact h
    · exact h.of_keyPart rfl
  | removed conn => exact h.of_keyPart rfl
  | reset => exact h.of_keyPart rfl

/-- What the handshake leaves. -/
theorem connect_keyed {uid : String} {hs : Handshake} {m : String → List String} {s : Conn}
    (h : connect cfg uid hs m = some s) : Keyed cfg s := by
  unfold connect at h
  have hfirst : Keeps (fun s => s.keyPart = ⟨none, false, none, 0, none, false⟩) (ensureCurrentUser cfg hs.lookup) :=
    keepsKey_ensureCurrentUser hs.lookup
  rcases heq : ensureCurrentUser cfg hs.lookup (.initial hs.authorization m) with ⟨s₁, f | u⟩
  · simp [heq] at h
  obtain ⟨hvalid, hverified, hrecord, -, -, hrefused⟩ := KeyPart.mk.inj ((hfirst _ rfl).1 s₁ u heq)
  simp only [heq] at h
  rcases heq' : hasValidApiKey cfg hs.check hs.apiKey {s₁ with uid := some uid} with ⟨s₂, f | status⟩
  · simp [heq'] at h
  obtain ⟨hne, rfl⟩ | ⟨rfl, r, hgave, husable, -, rfl⟩ := (triple_hasValidApiKey _ _ _ _ rfl).1 s₂ status heq'
  · obtain ⟨refusal, rfl⟩ := Option.ne_none_iff_exists'.mp hne
    simp only [heq'] at h
    split at h
    · cases h
      exact ⟨by simp, fun _ => ⟨hverified, hrecord⟩, by simp [hrefused]⟩
    · cases h
      exact ⟨by simp, fun _ => ⟨hverified, hrecord⟩, fun _ => rfl⟩
  · simp only [heq'] at h
    cases h
    refine ⟨?_, by simp, by simp [hrefused]⟩
    intro _
    exact ⟨rfl, r, hs.check, rfl, rfl, hgave, rfl, husable⟩

/-! ### A key that was lost -/

theorem keepsRefused_recheckApiKey (env : Env) :
    Keeps (fun s => s.keyRefused = true) (recheckApiKey cfg env) := by
  refine Keeps.get fun s => ?_
  split
  · exact Keeps.pure
  split
  · exact Keeps.pure
  refine Keeps.bind ?_ fun refusal => ?_
  · unfold keyRefusal
    split
    · refine Keeps.bind (keeps_read _) fun db => Keeps.bind (Keeps.modify fun s hs => hs) fun _ => ?_
      split
      · exact Keeps.pure
      · exact Keeps.bind (Keeps.modify fun s hs => hs) fun _ => Keeps.pure
    · exact Keeps.pure
  · split
    · exact Keeps.pure
    · refine Keeps.bind (Keeps.modify fun s _ => ?_) fun _ => Keeps.pure
      exact congrArg KeyPart.refused (keyPart_loseKey s)

theorem keepsRefused_tryKey (env : Env) (msg : Message) :
    Keeps (fun s => s.keyRefused = true) (tryKey cfg env msg) := by
  refine Keeps.get fun s => ?_
  split
  · split
    · exact Keeps.pure
    · refine Keeps.bind ?_ fun status => ?_
      · intro s hs
        refine (triple_hasValidApiKey env.verify _ s).weaken (fun _ hs => hs) ?_ (fun _ heq => heq ▸ hs) s rfl
        intro status s' h
        obtain ⟨-, rfl⟩ | ⟨-, r, -, -, -, rfl⟩ := h
        · exact hs
        · exact hs
      · split
        · exact Keeps.modify fun s hs => hs
        · exact Keeps.modify fun s hs => hs
  · exact Keeps.pure

/-- A connection that was refused once is not let off by a message. -/
theorem keepsRefused_onMessage (env : Env) (msg : Message) :
    Keeps (fun s => s.keyRefused = true) (onMessage cfg env msg) := by
  have hframe {α : Type} {m : Method α} (h : ∀ k, Keeps (fun s => s.keyPart = k) m) :
      Keeps (fun s => s.keyRefused = true) m := Keeps.of_frame (P := fun k => k.refused = true) h
  have hbefore : Keeps (fun s => s.keyRefused = true) (beforeToken cfg env msg) := by
    refine Keeps.bind (Keeps.modify fun s hs => ?_) fun _ => Keeps.bind (keeps_addressed msg) fun target => ?_
    · unfold Conn.dropApiKeyUser
      split <;> exact hs
    refine Keeps.bind (keepsRefused_recheckApiKey env) fun refusal => Keeps.bind (Keeps.when ?_) fun _ => Keeps.pure
    unfold requireKey
    split
    · exact Keeps.raise
    · refine Keeps.bind (keepsRefused_tryKey env msg) fun _ => Keeps.get fun s => ?_
      split
      · exact Keeps.pure
      · exact Keeps.raise
  refine Keeps.bind hbefore fun target => Keeps.bind (hframe fun k => keepsKey_reloadStanding env msg) fun _ => ?_
  refine Keeps.bind (keeps_requestedAction msg) fun action => ?_
  refine Keeps.bind (Keeps.when (Keeps.get fun s => ?_)) fun _ => Keeps.pure
  split
  · exact Keeps.raise
  · exact hframe fun k => keepsKey_applyApiKeyUser env

theorem keepsRefused_handle (env : Env) (frame : Option Message) :
    Keeps (fun s => s.keyRefused = true) (handle cfg env frame) :=
  triple_handle env frame (fun _ _ hs => hs) (fun msg _ => keepsRefused_onMessage env msg) fun _ _ hs => hs

/-- Nor by anything else. -/
theorem step_refused (i : Input) (s : Conn) (h : s.keyRefused = true) :
    ((machine cfg).step i s).keyRefused = true := by
  cases i with
  | frame env frame =>
    exact (keepsRefused_handle env frame).state (fun _ _ hs => hs) h
  | otherAssigned conn user =>
    simp only [machine, step]
    split <;> exact h
  | removed conn => exact h
  | reset => exact h

/-! ### Whole runs -/

/-- The record and its read stand behind a call: it was read during this message or the
reading kept of when it was read is recent, it may be used and covers the call, and it
had not expired when this message rechecked or read it. -/
structure Authorised (cfg : Config) (env : Env) (passed : Passed) (s : Conn) (r : KeyRecord)
    (check : KeyCheck) : Prop where
  record : s.currentKey = some r
  read : s.keyRead = some check
  gave : check.Gave r
  usable : Usable cfg r
  able : abilityAllows r.abilities (abilityOf passed.service passed.action) = true
  fresh : r.id ≠ 0 →
    (check = env.recheck ∨ check = env.verify) ∧ expired r.expiresAt check.wall = false ∨
    env.recheckNow - check.stamp < cfg.recheckSeconds ∧ expired r.expiresAt env.recheckWall = false

/-- Without a valid key nothing can be done with one. -/
theorem Keyed.keyCan_eq_false {s : Conn} (h : Keyed cfg s) (hinvalid : s.keyValid ≠ some true)
    (ability : String) : s.keyCan ability = false := by
  simp [Conn.keyCan, (h.invalid hinvalid).1]

theorem Trusted.authorised {env : Env} {passed : Passed} {s : Conn} (h : Trusted cfg env passed s)
    (hreq : passed.requiresKey = true) : ∃ r check, Authorised cfg env passed s r check := by
  obtain ⟨hkeyed, hfresh, hcall⟩ := h
  obtain ⟨hvalid, hable⟩ := hcall hreq
  obtain ⟨-, r, check, hrecord, hread, hgave, -, husable⟩ := hkeyed.valid hvalid
  exact ⟨r, check, hrecord, hread, hgave, husable, hable r hrecord, hfresh r check hrecord hread⟩

/-- **A call that needs a key goes through on a fresh record only.** A connection whose
key was refused at the handshake or by a recheck never gets a call through again, and
`key_can` says no to everything from then on, as it does while no key was accepted. -/
theorem calls_on_fresh_key {uid : String} {hs : Handshake} {m : String → List String} {s₀ : Conn}
    (hopen : connect cfg uid hs m = some s₀) (inputs : List Input) :
    (∀ env frame s passed, handle cfg env frame ((machine cfg).run s₀ inputs) = (s, .ok passed) →
      passed.requiresKey = true → ∃ r check, Authorised cfg env passed s r check) ∧
    (((machine cfg).run s₀ inputs).keyRefused = true → ∀ more,
      (∀ ability, ((machine cfg).run s₀ (inputs ++ more)).keyCan ability = false) ∧
      ∀ env frame s passed, handle cfg env frame ((machine cfg).run s₀ (inputs ++ more)) = (s, .ok passed) →
        passed.requiresKey = false) ∧
    (((machine cfg).run s₀ inputs).keyValid ≠ some true →
      ∀ ability, ((machine cfg).run s₀ inputs).keyCan ability = false) := by
  have hkeyed (is : List Input) : Keyed cfg ((machine cfg).run s₀ is) :=
    Machine.invariant_all step_keyed (connect_keyed hopen) is
  refine ⟨?_, ?_, (hkeyed inputs).keyCan_eq_false⟩
  · intro env frame s passed hpass hreq
    exact ((triple_handle_trusted env frame _ (hkeyed inputs)).1 s passed hpass).authorised hreq
  · intro hrefused more
    have hstill : ((machine cfg).run s₀ (inputs ++ more)).keyRefused = true := by
      rw [Machine.run_append]
      exact Machine.invariant_all (I := fun s : Conn => s.keyRefused = true) step_refused hrefused more
    have hinvalid := (hkeyed (inputs ++ more)).refused hstill
    refine ⟨(hkeyed (inputs ++ more)).keyCan_eq_false (by simp [hinvalid]), ?_⟩
    intro env frame s passed hpass
    cases hreq : passed.requiresKey with
    | false => rfl
    | true =>
      -- the call would leave the connection with a key, and its state says it has none
      have htrust := (triple_handle_trusted env frame _ (hkeyed (inputs ++ more))).1 s passed hpass
      have hlost : s.keyRefused = true :=
        (keepsRefused_handle env frame _ hstill).1 s passed hpass
      have hvalid := (htrust.2.2 hreq).1
      rw [htrust.1.refused hlost] at hvalid
      cases hvalid

end

/-! ### Runs of a connection to a small shop -/

/-- One service, that requires a key; secrets are compared as they are. -/
def shop : Config where
  recheckSeconds := 60
  services service := if service = "orders" then some true else none
  secretMatches secret stored := secret = stored
  addressAllowed _ := true
  verify _ _ _ := none
  isUuid _ := true

def orderKey (expiresAt : Option Int) (disabled : Bool) : KeyRecord where
  id := 7
  keyStem := "k"
  secretHash := "s"
  abilities := ["orders:*"]
  userId := none
  disabled := disabled
  expiresAt := expiresAt
  allowedIps := none

/-- All clocks say `now`, and every read finds these keys. -/
def meets (now : Int) (keys : List KeyRecord) : Env :=
  let check : KeyCheck := ⟨.ok ⟨[], keys⟩, now, now, .ok (), now⟩
  { recheckNow := now, recheckWall := now, recheck := check, verify := check, authNow := now, authWall := now
    lookup := ⟨now, .ok ⟨[], []⟩, now⟩, keyUser := .ok ⟨[], []⟩, handledNow := now, handledWall := now, readsUser := false }

/-- A call of `orders:list`, with a key in the message or not. -/
def listOrders (key : Option String) : Message where
  msgId := .given 1
  service := .given "orders"
  apiKey := key.map fun k => ⟨k, k⟩
  authToken := none
  action := .given "list"

/-- A handshake without a user token, with a key or not, that finds these keys. -/
def upgrade (key : Option String) (keys : List KeyRecord) : Handshake where
  authorization := ""
  apiKey := key
  lookup := ⟨0, .ok ⟨[], []⟩, 0⟩
  check := ⟨.ok ⟨[], keys⟩, 0, 0, .ok (), 0⟩

/-- The connection that the handshake opens, or one that no handshake opened. -/
def opened (hs : Handshake) : Conn := (connect shop "c" hs fun _ => []).getD (.initial "" fun _ => [])

def accepted (env : Env) (msg : Message) (s : Conn) : Bool := (handle shop env (some msg) s).2.toBool

/-- The handshake brought a usable key; a minute has not passed, and the call goes through. -/
theorem recent_key_call_authorised :
    ∃ s r check, handle shop (meets 20 []) (some (listOrders none)) (opened (upgrade (some "k.s") [orderKey none false])) =
        (s, .ok ⟨"orders", "list", true⟩) ∧
      Authorised shop (meets 20 []) ⟨"orders", "list", true⟩ s r check := by
  have hopen : connect shop "c" (upgrade (some "k.s") [orderKey none false]) (fun _ => []) =
      some (opened (upgrade (some "k.s") [orderKey none false])) := rfl
  obtain ⟨r, check, h⟩ := (calls_on_fresh_key hopen []).1 (meets 20 []) (some (listOrders none)) _ _ rfl rfl
  exact ⟨_, r, check, rfl, h⟩

/-- A key is refused, then another, then the first again, which by now is enabled, goes
through. A record whose read took long is trusted for longer than a minute from when
the database answered. A key that expires during the message does not stop it. -/
theorem refused_key_accepted_later :
    (let s₀ := opened (upgrade none [])
     let s₁ := step shop (.frame (meets 1 [orderKey none true]) (some (listOrders (some "k.s")))) s₀
     let s₂ := step shop (.frame (meets 2 [orderKey none true]) (some (listOrders (some "l.s")))) s₁
     connect shop "c" (upgrade none []) (fun _ => []) = some s₀ ∧
      s₁.rejectedKey = some ⟨"k.s", "k.s"⟩ ∧ s₂.rejectedKey = some ⟨"l.s", "l.s"⟩ ∧
      accepted (meets 3 [orderKey none false]) (listOrders (some "k.s")) s₂ = true) ∧
    (let hs := {upgrade (some "k.s") [orderKey none false] with
        check := ⟨.ok ⟨[], [orderKey none false]⟩, 0, 0, .ok (), 100⟩}
     connect shop "c" hs (fun _ => []) = some (opened hs) ∧
      (opened hs).keyRead.map KeyCheck.readAt = some 0 ∧ shop.recheckSeconds ≤ (meets 110 []).recheckNow - 0 ∧
      accepted (meets 110 []) (listOrders none) (opened hs) = true) ∧
    (let hs := upgrade (some "k.s") [orderKey (some 10) false]
     connect shop "c" hs (fun _ => []) = some (opened hs) ∧
      (opened hs).currentKey.any (fun r => expired r.expiresAt 20) = true ∧
      accepted {meets 5 [] with handledWall := 20} (listOrders none) (opened hs) = true) := by
  refine ⟨⟨rfl, ?_, ?_, ?_⟩, ⟨rfl, ?_, ?_, ?_⟩, rfl, ?_, ?_⟩ <;> decide

end PyAppRunner.Bridge
