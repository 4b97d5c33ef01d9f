import PyAppRunner.Bridge.Identity

/-! An HTTP request: what `prepare` makes of its headers, and `ApiHandler.get`.

A request has a handler of its own, with the fields of a connection that has no uid, so
nothing it does touches the fan-out lists. What the outside gives it while it is handled
comes with it (`Met`): the lookup of its token, the read of its key, and the read of the
key's user. The service is any function of the call and of the handler it is given. -/
namespace PyAppRunner.Bridge
open Base ApiKeys Conn

/-- What handling a request raises: an `HTTPException` with its status and code, or
anything else. -/
inductive Problem where
  | http (status : Nat) (code : Int)
  | unexpected
deriving DecidableEq

/-- The same as a connection knows it, where no status is kept. -/
def Problem.fault : Problem → Fault
  | .http _ code => .http code
  | .unexpected => .unexpected

/-- A handler of a request: it may raise, and what it has set by then stays. -/
abbrev Handling (α : Type) := Program Conn Problem α

/-- An `HTTPException` that is raised with this status. -/
def Fault.at (status : Nat) : Fault → Problem
  | .http code => .http status code
  | .unexpected => .unexpected

/-- A method that raises on the socket raises with a status over HTTP. -/
def Method.at {α : Type} (status : Nat) (m : Method α) : Handling α := fun s =>
  match m s with
  | (s, .ok a) => (s, .ok a)
  | (s, .error f) => (s, .error (f.at status))

/-- A body that says it is JSON and is not, one that is not a dict, and one that is, or
that is no JSON and counts as an empty dict. -/
inductive Body where
  | unparsable
  | noDict
  | dict (action : Option String)

/-- What a request says. -/
structure Request where
  authorization : String
  apiKey : Option String
  service : Option String
  urlAction : Option String
  queryAction : Option String
  body : Body

/-- What the stores answer while the request is handled. -/
structure Met where
  lookup : Lookup
  check : KeyCheck
  keyUser : Read Db

/-- Whether keys are checked against the database, or against those in the config. -/
inductive KeyStore where
  | database
  | configured (keys : List String)

/-- An empty text counts as none. -/
def nonempty (text : Option String) : Option String := text.filter (· ≠ "")

/-- `get_request_data`, and what `get_v1` takes from it. An action of the path comes
before the one of the body, and that before the one of the query. -/
def Request.action (req : Request) : Field String :=
  match req.body with
  | .noDict => .bad
  | .unparsable => ((nonempty req.urlAction <|> nonempty req.queryAction).elim .missing .given)
  | .dict action => ((nonempty req.urlAction <|> nonempty action <|> nonempty req.queryAction).elim .missing .given)

/-- `has_valid_key`: `none` for one of the keys of the config. -/
def hasValidKey (configured : List String) (key : String) : Option String :=
  if configured.isEmpty then some "API key not configured"
  else if configured.contains key then none
  else some "Invalid API key"

section
variable (cfg : Config) (store : KeyStore)

/-- `find_service`, and what `get_v1` raises without one. -/
def findService (service : Option String) : Handling (String × Bool) :=
  match service with
  | none => Program.raise (.http 400 1002)
  | some service =>
    match cfg.services (String.ofList (underscored service.toList)) with
    | none => Program.raise (.http 400 1002)
    | some requires => pure (service, requires)

/-- `has_valid_api_key` of the request handler. -/
def checkApiKey (check : KeyCheck) (key : Option String) : Handling (Option String) :=
  match key with
  | none => pure (some "API key is missing")
  | some key =>
    match store with
    | .configured keys =>
      match hasValidKey keys key with
      | some refusal => pure (some refusal)
      | none => do
        Program.modify fun s => {s with keyVerified := true, currentKey := none}
        pure none
    | .database => do
      match ← (hasValidKeyDb cfg check key).at 400 with
      | .error refusal => pure (some refusal)
      | .ok record => do
        Program.modify fun s => {s with keyVerified := true, currentKey := some record}
        pure none

/-- What `get_v1` asks of a request for a service that requires a key. -/
def requireApiKey (check : KeyCheck) (key : Option String) : Handling Unit := do
  match ← checkApiKey cfg store check key with
  | none => pure ()
  | some _ => Program.raise (.http 401 1401)

/-- The action must be named. -/
def requireAction (req : Request) : Handling String :=
  match req.action with
  | .missing => Program.raise (.http 400 1005)
  | .bad => Program.raise .unexpected
  | .given action => pure action

/-- `_apply_api_key_user` of the request handler, which keeps no user from one call to
the next. -/
def applyKeyUser (keyUser : Read Db) : Handling Unit := do
  let s ← Program.get
  match s.currentKey.bind KeyRecord.actsAs, s.authToken with
  | some userId, none => do
    let db ← keyUser.get.at 500
    match loadUserById userId db with
    | none => do
      Program.modify clearCurrentUser
      Program.raise (.http 401 1401)
    | some user =>
      Program.modify fun s => ({s with
        currentUserObj := some user, currentUserCache := none, keyUserApplied := true} : Conn).assignUser user
  | _, _ => pure ()

/-- `enforce_api_key`. -/
def enforceKey (keyUser : Read Db) (service action : String) : Handling Unit := do
  let s ← Program.get
  if s.currentKey.any (fun r => !abilityAllows r.abilities (abilityOf service action)) then
    Program.raise (.http 403 1403)
  else applyKeyUser keyUser

/-- `get_v1`, up to the call of `bridge_request`. -/
def toCall (met : Met) (req : Request) : Handling Passed := do
  let (service, requiresKey) ← findService cfg req.service
  Program.when requiresKey (requireApiKey cfg store met.check req.apiKey)
  let action ← requireAction req
  Program.when requiresKey (enforceKey met.keyUser service action)
  pure ⟨service, action, requiresKey⟩

/-- `prepare`, as far as the user: no handler when it raises. -/
def prepared (met : Met) (req : Request) : Option Conn :=
  match ensureUser cfg met.lookup (.initial req.authorization fun _ => []) with
  | (s, .ok _) => some s
  | (_, .error _) => none

/-- What `bridge_request` does: it returns data, an `HTTPException`, or nothing, or raises. -/
inductive Served where
  | data
  | nothing
  | refusal (status : Nat) (code : Int)
  | raised (p : Problem)

/-- What a service makes of a call that is passed on. -/
abbrev Service := Passed → Conn → Served

/-- The reply to a request. `broken` is Tornado's own page, with status 500. -/
inductive Reply where
  | data
  | noContent
  | error (status : Nat) (code : Int)
  | broken
deriving DecidableEq

/-- `get_v1`: the call is passed on, and the answer of the service is the reply. -/
def getV1 (service : Service) (met : Met) (req : Request) : Handling Reply := do
  let passed ← toCall cfg store met req
  let s ← Program.get
  match service passed s with
  | .data => pure .data
  | .nothing => pure .noContent
  | .refusal status code => pure (.error status code)
  | .raised p => Program.raise p

/-- `get`: whatever is raised is answered, and the token is forgotten. -/
def get (service : Service) (met : Met) (req : Request) (s : Conn) : Conn × Reply :=
  match getV1 cfg store service met req s with
  | (s, .ok reply) => ({s with authToken := none}, reply)
  | (s, .error (.http status code)) => ({s with authToken := none}, .error status code)
  | (s, .error .unexpected) => ({s with authToken := none}, .error 500 (-1))

/-- A request, from `prepare` to its reply. A body that cannot be parsed is answered in
`prepare`, and what `prepare` raises afterwards changes nothing about that. -/
def respond (service : Service) (met : Met) (req : Request) : Reply :=
  match req.body with
  | .unparsable => .error 400 400
  | .noDict | .dict _ =>
    match prepared cfg met req with
    | none => .broken
    | some s => (get cfg store service met req s).2

/-! ### What the key check says -/

/-- `has_valid_key_db` without the state, which it leaves alone. -/
def keyVerdict (check : KeyCheck) (key : String) : Except Fault (Except String KeyRecord) :=
  match splitKey key with
  | none => .ok (.error "Invalid API key")
  | some (stem, secret) =>
    match check.db with
    | .failed f => .error f
    | .ok db =>
      match db.keys.find? (fun r => r.keyStem = stem) with
      | none => .ok (.error "Invalid API key")
      | some record =>
        if cfg.secretMatches secret record.secretHash then
          match apiKeyRefusal cfg record check.wall with
          | some refusal => .ok (.error refusal)
          | none =>
            match check.useKey with
            | .failed f => .error f
            | .ok _ => .ok (.ok record)
        else .ok (.error "Invalid API key")

/-- The database answered with this record for the key, its secret matches, it may be
used, has not expired, and the use was written down. -/
structure GoodKey (check : KeyCheck) (key : String) (r : KeyRecord) : Prop where
  found : ∃ stem secret db, splitKey key = some (stem, secret) ∧ check.db = .ok db ∧
    db.keys.find? (fun r => r.keyStem = stem) = some r ∧ cfg.secretMatches secret r.secretHash = true
  usable : Usable cfg r
  current : expired r.expiresAt check.wall = false
  counted : ∃ u, check.useKey = .ok u

theorem Read.ok_bind {α β : Type} (a : α) (f : α → Method β) (s : Conn) : ((Read.ok a).get >>= f) s = f a s := rfl

theorem hasValidKeyDb_eq (check : KeyCheck) (key : String) (s : Conn) :
    hasValidKeyDb cfg check key s = (s, keyVerdict cfg check key) := by
  unfold hasValidKeyDb keyVerdict
  cases splitKey key with
  | none => rfl
  | some parts =>
    obtain ⟨stem, secret⟩ := parts
    dsimp only
    cases check.db with
    | failed f => rfl
    | ok db =>
      refine (Read.ok_bind db _ s).trans ?_
      dsimp only
      cases db.keys.find? (fun r => r.keyStem = stem) with
      | none => rfl
      | some record =>
        dsimp only
        cases cfg.secretMatches secret record.secretHash with
        | false => rfl
        | true =>
          simp only [Bool.not_true, Bool.false_eq_true, if_false, if_true]
          cases apiKeyRefusal cfg record check.wall with
          | some refusal => rfl
          | none => cases check.useKey <;> rfl

theorem apiKeyRefusal_eq_none (r : KeyRecord) (wall : Int) :
    apiKeyRefusal cfg r wall = none ↔ Usable cfg r ∧ expired r.expiresAt wall = false := by
  constructor
  · exact usable_of_refusal
  · rintro ⟨⟨hdisabled, hallowed⟩, hexpired⟩
    unfold apiKeyRefusal
    rw [hdisabled, hexpired]
    cases hips : r.allowedIps with
    | none => rfl
    | some ips => simp [hallowed ips hips]

theorem keyVerdict_eq_ok (check : KeyCheck) (key : String) (r : KeyRecord) :
    keyVerdict cfg check key = .ok (.ok r) ↔ GoodKey cfg check key r := by
  constructor
  · intro h
    unfold keyVerdict at h
    split at h
    · cases h
    rename_i stem secret hkey
    split at h
    · cases h
    rename_i db hdb
    split at h
    · cases h
    rename_i record hfind
    split at h
    · rename_i hsecret
      split at h
      · cases h
      rename_i hrefusal
      split at h
      · cases h
      rename_i u huse
      cases h
      obtain ⟨husable, hcurrent⟩ := usable_of_refusal hrefusal
      exact ⟨⟨stem, secret, db, hkey, hdb, hfind, hsecret⟩, husable, hcurrent, ⟨u, huse⟩⟩
    · cases h
  · rintro ⟨⟨stem, secret, db, hkey, hdb, hfind, hsecret⟩, husable, hcurrent, u, huse⟩
    have hrefusal := (apiKeyRefusal_eq_none cfg r check.wall).2 ⟨husable, hcurrent⟩
    simp [keyVerdict, hkey, hdb, hfind, hsecret, hrefusal, huse]

/-! ### What lets a call through -/

/-- The key of the request is good: one of the config, or that of a record. -/
def KeyGiven (check : KeyCheck) (key : Option String) (r : Option KeyRecord) : Prop :=
  ∃ k, key = some k ∧
    match store with
    | .configured keys => k ∈ keys ∧ r = none
    | .database => ∃ record, r = some record ∧ GoodKey cfg check k record

/-- The key of the request lets the call through: it covers it, and the user it acts as
is an active one, if it is to act as one. -/
structure KeyAdmits (met : Met) (req : Request) (p : Passed) (r : Option KeyRecord) : Prop where
  given : KeyGiven cfg store met.check req.apiKey r
  covers : ∀ record, r = some record → abilityAllows record.abilities (abilityOf p.service p.action) = true
  user : bearer req.authorization = none → ∀ id, r.bind KeyRecord.actsAs = some id →
    ∃ db u, met.keyUser = .ok db ∧ loadUserById id db = some u

/-- Everything that must hold for a request to reach its service. -/
structure Admitted (met : Met) (req : Request) (p : Passed) : Prop where
  parsed : req.body ≠ .unparsable
  looked : (prepared cfg met req).isSome = true
  service : req.service = some p.service
  known : cfg.services (String.ofList (underscored p.service.toList)) = some p.requiresKey
  action : req.action = .given p.action
  key : p.requiresKey = true → ∃ r, KeyAdmits cfg store met req p r

/-- The user a record acts as. -/
def keyActor (r : Option KeyRecord) (keyUser : Read Db) : Option User :=
  match r.bind KeyRecord.actsAs, keyUser with
  | some id, .ok db => loadUserById id db
  | _, _ => none

/-- Who a call is made as: the user its token was confirmed to name, and without a token
the user of the key it needed. -/
def ActsFor (met : Met) (req : Request) (requiresKey : Bool) (user : Option User) : Prop :=
  match bearer req.authorization with
  | some token => user = confirmed cfg token met.lookup
  | none =>
    if requiresKey then ∃ r, KeyGiven cfg store met.check req.apiKey r ∧ user = keyActor r met.keyUser
    else user = none

theorem findService_ok {service : Option String} {s s' : Conn} {name : String} {requires : Bool} :
    findService cfg service s = (s', .ok (name, requires)) ↔
      s' = s ∧ service = some name ∧ cfg.services (String.ofList (underscored name.toList)) = some requires := by
  unfold findService
  cases service with
  | none => simp [Program.raise_ne_ok]
  | some service =>
    dsimp only
    cases hservice : cfg.services (String.ofList (underscored service.toList)) with
    | none =>
      refine ⟨fun h => absurd h Program.raise_ne_ok, ?_⟩
      rintro ⟨-, heq, hknown⟩
      cases heq
      rw [hservice] at hknown
      cases hknown
    | some r =>
      rw [Program.pure_eq_ok]
      constructor
      · rintro ⟨rfl, heq⟩
        cases heq
        exact ⟨rfl, rfl, hservice⟩
      · rintro ⟨rfl, heq, hknown⟩
        cases heq
        rw [hservice] at hknown
        cases hknown
        exact ⟨rfl, rfl⟩

theorem Read.ok_at_bind {α β : Type} (a : α) (status : Nat) (f : α → Handling β) (s : Conn) :
    ((Read.ok a).get.at status >>= f) s = f a s := rfl

theorem checkApiKey_database (check : KeyCheck) (key : String) (s : Conn) :
    checkApiKey cfg .database check (some key) s = match keyVerdict cfg check key with
      | .error f => (s, .error (f.at 400))
      | .ok (.error refusal) => (s, .ok (some refusal))
      | .ok (.ok record) => ({s with keyVerified := true, currentKey := some record}, .ok none) := by
  have hkey : (hasValidKeyDb cfg check key).at 400 s = match keyVerdict cfg check key with
      | .error f => (s, .error (f.at 400))
      | .ok found => (s, .ok found) := by
    unfold Method.at
    rw [hasValidKeyDb_eq]
    cases keyVerdict cfg check key <;> rfl
  unfold checkApiKey
  dsimp only
  cases hverdict : keyVerdict cfg check key with
  | error f =>
    rw [hverdict] at hkey
    exact Program.bind_error hkey
  | ok found =>
    rw [hverdict] at hkey
    refine (Program.bind_ok hkey).trans ?_
    cases found <;> rfl

theorem checkApiKey_ok {check : KeyCheck} {key : Option String} {s s' : Conn} :
    checkApiKey cfg store check key s = (s', .ok none) ↔
      ∃ r, KeyGiven cfg store check key r ∧ s' = {s with keyVerified := true, currentKey := r} := by
  unfold KeyGiven
  cases key with
  | none => simp [checkApiKey, Program.pure_eq_ok]
  | some key =>
    simp only [Option.some.injEq, exists_eq_left']
    cases store with
    | configured keys =>
      unfold checkApiKey
      dsimp only
      by_cases hkey : key ∈ keys
      · have hvalid : hasValidKey keys key = none := by
          have hne : keys ≠ [] := List.ne_nil_of_mem hkey
          simp [hasValidKey, hne, hkey]
        rw [hvalid]
        simp [Program.modify_bind, Program.pure_eq_ok, hkey]
      · obtain ⟨refusal, hrefused⟩ : ∃ refusal, hasValidKey keys key = some refusal := by
          unfold hasValidKey
          split
          · exact ⟨_, rfl⟩
          · exact ⟨"Invalid API key", by simp [hkey]⟩
        rw [hrefused]
        simp [Program.pure_eq_ok, hkey]
    | database =>
      rw [checkApiKey_database]
      constructor
      · intro h
        split at h
        · cases h
        · cases h
        · rename_i record hverdict
          cases h
          exact ⟨some record, ⟨record, rfl, (keyVerdict_eq_ok cfg check key record).1 hverdict⟩, rfl⟩
      · rintro ⟨r, ⟨record, rfl, hgood⟩, rfl⟩
        rw [(keyVerdict_eq_ok cfg check key record).2 hgood]

theorem requireApiKey_ok {check : KeyCheck} {key : Option String} {s s' : Conn} :
    requireApiKey cfg store check key s = (s', .ok ()) ↔
      ∃ r, KeyGiven cfg store check key r ∧ s' = {s with keyVerified := true, currentKey := r} := by
  unfold requireApiKey
  rw [Program.bind_eq_ok, ← checkApiKey_ok]
  constructor
  · rintro ⟨s₁, status, hcheck, hrest⟩
    cases status with
    | none =>
      cases hrest
      exact hcheck
    | some refusal => cases hrest
  · intro hcheck
    exact ⟨s', none, hcheck, rfl⟩

theorem requireAction_ok {req : Request} {s s' : Conn} {action : String} :
    requireAction req s = (s', .ok action) ↔ s' = s ∧ req.action = .given action := by
  unfold requireAction
  cases req.action with
  | missing => simp [Program.raise_ne_ok]
  | bad => simp [Program.raise_ne_ok]
  | given a =>
    rw [Program.pure_eq_ok]
    simp [eq_comm]

/-- The handler once the key's user is applied. -/
def withKeyUser (u : User) (s : Conn) : Conn :=
  ({s with currentUserObj := some u, currentUserCache := none, keyUserApplied := true} : Conn).assignUser u

theorem applyKeyUser_ok {keyUser : Read Db} {s s' : Conn} :
    applyKeyUser keyUser s = (s', .ok ()) ↔
      ((s.currentKey.bind KeyRecord.actsAs = none ∨ s.authToken ≠ none) ∧ s' = s) ∨
      ∃ id db u, s.currentKey.bind KeyRecord.actsAs = some id ∧ s.authToken = none ∧ keyUser = .ok db ∧
        loadUserById id db = some u ∧ s' = withKeyUser u s := by
  unfold applyKeyUser
  rw [Program.get_bind]
  cases hid : s.currentKey.bind KeyRecord.actsAs with
  | none => simp [Program.pure_eq_ok]
  | some id =>
    cases htoken : s.authToken with
    | some token => simp [Program.pure_eq_ok]
    | none =>
      simp only [reduceCtorEq, ne_eq, not_true_eq_false, or_self, false_and, false_or, Option.some.injEq, true_and]
      cases keyUser with
      | failed f =>
        refine ⟨fun h => ?_, ?_⟩
        · cases h
        · rintro ⟨_, _, _, _, hdb, _⟩
          cases hdb
      | ok db =>
        rw [Read.ok_at_bind]
        cases hload : loadUserById id db with
        | none =>
          refine ⟨fun h => ?_, ?_⟩
          · cases h
          · rintro ⟨id', db', u, rfl, hdb, hu, -⟩
            cases hdb
            rw [hload] at hu
            cases hu
        | some u =>
          rw [Program.modify_eq_ok]
          constructor
          · intro h
            exact ⟨id, db, u, rfl, rfl, hload, h⟩
          · rintro ⟨id', db', u', rfl, hdb, hu, h⟩
            cases hdb
            rw [hload] at hu
            cases hu
            exact h

theorem enforceKey_ok {keyUser : Read Db} {service action : String} {s s' : Conn} :
    enforceKey keyUser service action s = (s', .ok ()) ↔
      (∀ r, s.currentKey = some r → abilityAllows r.abilities (abilityOf service action) = true) ∧
        applyKeyUser keyUser s = (s', .ok ()) := by
  unfold enforceKey
  rw [Program.get_bind]
  cases hkey : s.currentKey with
  | none => simp
  | some r => cases h : abilityAllows r.abilities (abilityOf service action) <;> simp [h, Program.raise_ne_ok]

/-! ### A request -/

/-- What `prepare` leaves. -/
structure Prepared (met : Met) (req : Request) (s : Conn) : Prop where
  uid : s.uid = none
  token : s.authToken = bearer req.authorization
  key : s.currentKey = none
  verified : s.keyVerified = false
  cached : s.currentUserCache = none
  user : s.currentUserObj = (bearer req.authorization).bind fun token => confirmed cfg token met.lookup

theorem ensureUser_nobody (look : Lookup) {s : Conn} (h : (s.authToken <|> bearer s.authorization) = none) :
    ensureUser cfg look s = (({s with
      impersonator := none, tokenExpiresAt := none, currentUserCache := none} : Conn).clearCurrentUser, .ok ()) := by
  unfold ensureUser
  rw [Program.modify_bind, Program.get_bind]
  dsimp only
  rw [h]
  rfl

theorem prepared_spec {met : Met} {req : Request} {s : Conn} (h : prepared cfg met req = some s) :
    Prepared cfg met req s := by
  unfold prepared at h
  split at h
  · rename_i s₁ u heq
    cases h
    cases htoken : bearer req.authorization with
    | none =>
      rw [ensureUser_nobody cfg _ (by exact htoken)] at heq
      cases heq
      exact ⟨rfl, htoken.symm, rfl, rfl, rfl, by rw [htoken]; rfl⟩
    | some token =>
      obtain ⟨hnone, rfl⟩ | ⟨v, i, e, hsome, rfl⟩ :=
        (triple_ensureUser cfg met.lookup (.initial req.authorization fun _ => []) htoken _ rfl).1 s u heq
      · exact ⟨rfl, htoken.symm, rfl, rfl, rfl, by rw [htoken]; exact hnone.symm⟩
      · exact ⟨rfl, htoken.symm, rfl, rfl, rfl, by rw [htoken]; exact hsome.symm⟩
  · cases h

theorem toCall_ok {met : Met} {req : Request} {s s' : Conn} {p : Passed} :
    toCall cfg store met req s = (s', .ok p) ↔
      req.service = some p.service ∧ cfg.services (String.ofList (underscored p.service.toList)) = some p.requiresKey ∧
      req.action = .given p.action ∧
      ∃ s₁, (p.requiresKey = true → ∃ r, KeyGiven cfg store met.check req.apiKey r ∧
          s₁ = {s with keyVerified := true, currentKey := r}) ∧ (p.requiresKey = false → s₁ = s) ∧
        (p.requiresKey = true → enforceKey met.keyUser p.service p.action s₁ = (s', .ok ())) ∧
        (p.requiresKey = false → s' = s₁) := by
  unfold toCall
  simp only [Program.bind_eq_ok, Program.pure_eq_ok]
  constructor
  · rintro ⟨s₀, ⟨service, requires⟩, hservice, s₁, ⟨⟩, hkey, s₂, action, hasked, s₃, ⟨⟩, henforce, rfl, rfl⟩
    obtain ⟨rfl, hgiven, hknown⟩ := (findService_ok cfg).1 hservice
    obtain ⟨rfl, haction⟩ := requireAction_ok.1 hasked
    rw [Program.when_eq_ok] at hkey henforce
    refine ⟨hgiven, hknown, haction, s₂, ?_, hkey.2, henforce.1, henforce.2⟩
    intro hrequires
    exact (requireApiKey_ok cfg store).1 (hkey.1 hrequires)
  · rintro ⟨hgiven, hknown, haction, s₁, hkey, hnokey, henforce, hfree⟩
    refine ⟨s, (p.service, p.requiresKey), (findService_ok cfg).2 ⟨rfl, hgiven, hknown⟩, s₁, (), ?_, s₁, p.action,
      requireAction_ok.2 ⟨rfl, haction⟩, s', (), Program.when_eq_ok.2 ⟨henforce, hfree⟩, rfl, rfl⟩
    refine Program.when_eq_ok.2 ⟨fun hrequires => ?_, hnokey⟩
    exact (requireApiKey_ok cfg store).2 (hkey hrequires)

/-- A handler that was prepared and given its key lets the call through if the key does. -/
theorem enforce_given {met : Met} {req : Request} {p : Passed} {s s' : Conn} {r : Option KeyRecord}
    (hs : Prepared cfg met req s) (hgiven : KeyGiven cfg store met.check req.apiKey r) :
    enforceKey met.keyUser p.service p.action {s with keyVerified := true, currentKey := r} = (s', .ok ()) ↔
      KeyAdmits cfg store met req p r ∧ s' = (if bearer req.authorization = none then
          (keyActor r met.keyUser).elim {s with keyVerified := true, currentKey := r} fun u =>
            withKeyUser u {s with keyVerified := true, currentKey := r}
        else {s with keyVerified := true, currentKey := r}) := by
  rw [enforceKey_ok, applyKeyUser_ok, hs.token]
  dsimp only
  constructor
  · rintro ⟨hcovers, ⟨hfree, rfl⟩ | ⟨id, db, u, hid, htoken, hdb, hload, rfl⟩⟩
    · refine ⟨⟨hgiven, hcovers, ?_⟩, ?_⟩
      · intro htoken id hid
        obtain hnone | hsome := hfree
        · rw [hnone] at hid
          cases hid
        · exact absurd htoken hsome
      · split
        · rename_i htoken
          have hnone : r.bind KeyRecord.actsAs = none := hfree.resolve_right fun h => h htoken
          simp [keyActor, hnone]
        · rfl
    · refine ⟨⟨hgiven, hcovers, ?_⟩, ?_⟩
      · intro _ id' hid'
        rw [hid] at hid'
        cases hid'
        exact ⟨db, u, hdb, hload⟩
      · simp [htoken, keyActor, hid, hdb, hload]
  · rintro ⟨⟨-, hcovers, huser⟩, rfl⟩
    refine ⟨hcovers, ?_⟩
    cases htoken : bearer req.authorization with
    | some token => exact .inl ⟨.inr (by simp), by simp⟩
    | none =>
      cases hid : r.bind KeyRecord.actsAs with
      | none => exact .inl ⟨.inl rfl, by simp [keyActor, hid]⟩
      | some id =>
        obtain ⟨db, u, hdb, hload⟩ := huser htoken id hid
        exact .inr ⟨id, db, u, rfl, rfl, hdb, hload, by simp [keyActor, hid, hdb, hload]⟩

/-- The call is passed to its service, with the handler in this state. -/
def Called (met : Met) (req : Request) (p : Passed) (s : Conn) : Prop :=
  req.body ≠ .unparsable ∧ ∃ s₀, prepared cfg met req = some s₀ ∧ toCall cfg store met req s₀ = (s, .ok p)

theorem called_iff (met : Met) (req : Request) (p : Passed) :
    (∃ s, Called cfg store met req p s) ↔ Admitted cfg store met req p := by
  constructor
  · rintro ⟨s, hbody, s₀, hprepared, hcall⟩
    have hs := prepared_spec cfg hprepared
    obtain ⟨hgiven, hknown, haction, s₁, hkey, -, henforce, -⟩ := (toCall_ok cfg store).1 hcall
    refine ⟨hbody, by rw [hprepared]; rfl, hgiven, hknown, haction, fun hrequires => ?_⟩
    obtain ⟨r, hr, rfl⟩ := hkey hrequires
    exact ⟨r, ((enforce_given cfg store hs hr).1 (henforce hrequires)).1⟩
  · rintro ⟨hbody, hlooked, hgiven, hknown, haction, hkey⟩
    obtain ⟨s₀, hprepared⟩ := Option.isSome_iff_exists.1 hlooked
    have hs := prepared_spec cfg hprepared
    cases hrequires : p.requiresKey with
    | false =>
      refine ⟨s₀, hbody, s₀, hprepared, (toCall_ok cfg store).2 ⟨hgiven, hknown, haction, s₀, ?_⟩⟩
      simp [hrequires]
    | true =>
      obtain ⟨r, hadmits⟩ := hkey hrequires
      refine ⟨_, hbody, s₀, hprepared, (toCall_ok cfg store).2 ⟨hgiven, hknown, haction, _, fun _ => ⟨r, hadmits.given, rfl⟩,
        ?_, fun _ => (enforce_given cfg store hs hadmits.given).2 ⟨hadmits, rfl⟩, ?_⟩⟩
      · simp [hrequires]
      · simp [hrequires]

theorem acts_for_called {met : Met} {req : Request} {p : Passed} {s : Conn} (h : Called cfg store met req p s) :
    ActsFor cfg store met req p.requiresKey s.currentUser := by
  obtain ⟨-, s₀, hprepared, hcall⟩ := h
  have hs := prepared_spec cfg hprepared
  have huser : s₀.currentUser = (bearer req.authorization).bind fun token => confirmed cfg token met.lookup := by
    rw [Conn.currentUser, hs.cached, hs.user]
    rfl
  obtain ⟨-, -, -, s₁, hkey, hnokey, henforce, hfree⟩ := (toCall_ok cfg store).1 hcall
  unfold ActsFor
  cases hrequires : p.requiresKey with
  | false =>
    rw [hfree hrequires, hnokey hrequires, huser]
    cases bearer req.authorization <;> simp
  | true =>
    obtain ⟨r, hr, rfl⟩ := hkey hrequires
    obtain ⟨hadmits, rfl⟩ := (enforce_given cfg store hs hr).1 (henforce hrequires)
    cases htoken : bearer req.authorization with
    | some token =>
      rw [htoken] at huser
      exact huser
    | none =>
      refine ⟨r, hr, ?_⟩
      rw [htoken] at huser
      cases hactor : keyActor r met.keyUser with
      | none =>
        rw [if_pos rfl]
        exact huser
      | some u => simp [withKeyUser, Conn.currentUser, Conn.assignUser]

/-- The reply to a call, as its service answers. -/
def answer : Served → Reply
  | .data => .data
  | .nothing => .noContent
  | .refusal status code => .error status code
  | .raised (.http status code) => .error status code
  | .raised .unexpected => .error 500 (-1)

/-- A reply of the bridge itself to a request that it passes to no service. -/
def Refuses : Reply → Prop
  | .data => False
  | .noContent => False
  | .error status _ => status ∈ [400, 401, 403, 500]
  | .broken => True

/-- The codes that the gate answers with. -/
def Own (p : Problem) : Prop := ∀ status code, p = .http status code → status ∈ [400, 401, 403, 500]

theorem own_at {α : Type} {m : Method α} {status : Nat} (h : status ∈ [400, 401, 403, 500]) :
    Raises Own (m.at status) := by
  intro s s' p heq status' code hp
  subst hp
  unfold Method.at at heq
  split at heq
  · cases heq
  · rename_i s₁ f _
    cases f with
    | http c =>
      cases heq
      exact h
    | unexpected => cases heq

theorem own_raise {α : Type} {status : Nat} {code : Int} (h : status ∈ [400, 401, 403, 500]) :
    Raises Own (Program.raise (.http status code) : Handling α) :=
  Raises.raise fun _ _ heq => by cases heq; exact h

theorem own_toCall (met : Met) (req : Request) : Raises Own (toCall cfg store met req) := by
  have hfind : Raises Own (findService cfg req.service) := by
    unfold findService
    split
    · exact own_raise (by decide)
    · split
      · exact own_raise (by decide)
      · exact Raises.pure
  have hcheck : Raises Own (checkApiKey cfg store met.check req.apiKey) := by
    unfold checkApiKey
    split
    · exact Raises.pure
    split
    · split
      · exact Raises.pure
      · exact Raises.bind Raises.modify fun _ => Raises.pure
    · refine Raises.bind (own_at (by decide)) fun found => ?_
      split
      · exact Raises.pure
      · exact Raises.bind Raises.modify fun _ => Raises.pure
  have hrequire : Raises Own (requireApiKey cfg store met.check req.apiKey) := by
    refine Raises.bind hcheck fun status => ?_
    split
    · exact Raises.pure
    · exact own_raise (by decide)
  have haction : Raises Own (requireAction req) := by
    unfold requireAction
    split
    · exact own_raise (by decide)
    · exact Raises.raise fun _ _ heq => by cases heq
    · exact Raises.pure
  have happly : Raises Own (applyKeyUser met.keyUser) := by
    refine Raises.get fun s => ?_
    split
    · refine Raises.bind (own_at (by decide)) fun db => ?_
      split
      · exact Raises.bind Raises.modify fun _ => own_raise (by decide)
      · exact Raises.modify
    · exact Raises.pure
  refine Raises.bind hfind fun target => Raises.bind (Raises.when hrequire) fun _ => Raises.bind haction fun action => ?_
  refine Raises.bind (Raises.when (Raises.get fun s => ?_)) fun _ => Raises.pure
  split
  · exact own_raise (by decide)
  · exact happly

theorem respond_parsed {req : Request} (hbody : req.body ≠ .unparsable) (service : Service) (met : Met) :
    respond cfg store service met req =
      (prepared cfg met req).elim .broken fun s => (get cfg store service met req s).2 := by
  unfold respond
  split
  · rename_i heq
    exact absurd heq hbody
  · cases prepared cfg met req <;> rfl
  · cases prepared cfg met req <;> rfl

theorem respond_called {met : Met} {req : Request} {p : Passed} {s : Conn} (h : Called cfg store met req p s)
    (service : Service) : respond cfg store service met req = answer (service p s) := by
  obtain ⟨hbody, s₀, hprepared, hcall⟩ := h
  rw [respond_parsed cfg store hbody, hprepared, Option.elim_some]
  unfold get getV1
  rw [Program.bind_ok hcall, Program.get_bind]
  cases service p s with
  | data => rfl
  | nothing => rfl
  | refusal status code => rfl
  | raised p => cases p <;> rfl

theorem respond_uncalled {met : Met} {req : Request} (h : ∀ p s, ¬ Called cfg store met req p s) (service : Service) :
    Refuses (respond cfg store service met req) := by
  by_cases hbody : req.body = .unparsable
  · unfold respond
    rw [hbody]
    exact List.mem_cons_self
  · rw [respond_parsed cfg store hbody]
    cases hprepared : prepared cfg met req with
    | none => trivial
    | some s₀ =>
      rcases hcall : toCall cfg store met req s₀ with ⟨s, problem | p⟩
      · rw [Option.elim_some]
        unfold get getV1
        rw [Program.bind_error hcall]
        cases problem with
        | http status code => exact own_toCall cfg store met req s₀ s _ hcall status code rfl
        | unexpected => exact List.mem_cons_of_mem _ (by decide)
      · exact absurd ⟨hbody, s₀, hprepared, hcall⟩ (h p s)

/-- **The gate of an HTTP request is exact.** A call reaches its service if and only if the
body parses, the lookup of its token came back, the service is known, an action is named,
and the key the service requires is good, covers the call and stands for no user or an
active one. It is made as the user of its token, or
without a token as the key's. The reply is the service's answer, or an error when there
was no call. -/
theorem request_gate (met : Met) (req : Request) :
    (∀ p, (∃ s, Called cfg store met req p s) ↔ Admitted cfg store met req p) ∧
    (∀ p s, Called cfg store met req p s → ActsFor cfg store met req p.requiresKey s.currentUser) ∧
    (∀ service p s, Called cfg store met req p s → respond cfg store service met req = answer (service p s)) ∧
    ∀ service, (∀ p, ¬ Admitted cfg store met req p) → Refuses (respond cfg store service met req) := by
  refine ⟨called_iff cfg store met req, fun p s => acts_for_called cfg store, ?_, ?_⟩
  · intro service p s hcalled
    exact respond_called cfg store hcalled service
  · intro service hnone
    refine respond_uncalled cfg store (fun p s hcalled => ?_) service
    exact hnone p ((called_iff cfg store met req p).1 ⟨s, hcalled⟩)

end

end PyAppRunner.Bridge
