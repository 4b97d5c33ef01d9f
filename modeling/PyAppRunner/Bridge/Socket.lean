import PyAppRunner.ApiKeys.Keys
import PyAppRunner.Base.Program
import PyAppRunner.Base.Run

/-! A WebSocket connection: its key, its user, and what it does with a message.

A connection handles one message at a time, and keeps what it learns from one to the
next. Whatever the outside gives it while it handles a message (what the database
answers, or that it fails, and what the two clocks say at each reading) is given with
the message, so a run is a list of messages with what they met, and covers every
change to the rows in between and any passage of time. `recheckNow`, `stamp`, `readAt`,
`authNow` and `handledNow` are readings of the monotonic clock, the others of the wall
clock. -/
namespace PyAppRunner.Bridge
open Base ApiKeys

/-- A row of the users, as the bridge reads it. -/
structure User where
  id : Nat
  publicId : String
  disabled : Bool
  deleted : Bool
deriving DecidableEq

/-- Neither disabled nor deleted. -/
def User.active (u : User) : Bool := !u.disabled && !u.deleted

/-- The rows a read can see. -/
structure Db where
  users : List User
  keys : List KeyRecord

/-- An error reply with a code, or anything else that was raised. -/
inductive Fault where
  | http (code : Int)
  | unexpected
deriving DecidableEq

/-- A trip to the database that answers or fails. -/
inductive Read (α : Type) where
  | failed (f : Fault)
  | ok (a : α)

/-- The two kinds of tokens that stand for somebody. -/
inductive TokenKind where
  | user
  | impersonation

/-- What a verified token says: its user, the one behind it, and when it expires. -/
structure Payload where
  sub : String
  imp : String
  exp : Int

/-- What is the same for a connection's whole life. `verify` is `verify_access_jwt` at a
wall clock reading, `addressAllowed` is `ip_allowed` for this client's address, and
`services` gives, for a known service, whether its `requires_api_key` is not `False`. -/
structure Config where
  recheckSeconds : Int
  services : String → Option Bool
  secretMatches : String → String → Bool
  addressAllowed : List String → Bool
  verify : String → TokenKind → Int → Option Payload
  isUuid : String → Bool

/-- A user lookup: when the token is verified, what the database answers, and the reading
that is kept of when. -/
structure Lookup where
  wall : Int
  db : Read Db
  stamp : Int

/-- A read of a key row: when the database answered, the wall clock its state is checked
against, whether the key could be marked as used, and the reading that is kept. -/
structure KeyCheck where
  db : Read Db
  readAt : Int
  wall : Int
  useKey : Read Unit
  stamp : Int

/-- What one message meets. -/
structure Env where
  recheckNow : Int
  recheckWall : Int
  recheck : KeyCheck
  verify : KeyCheck
  authNow : Int
  authWall : Int
  lookup : Lookup
  keyUser : Read Db
  handledNow : Int
  handledWall : Int
  /-- The service looks at `current_user`. -/
  readsUser : Bool

/-- A field of a message: not there or empty, of no use, or given. -/
inductive Field (α : Type) where
  | missing
  | bad
  | given (a : α)

/-- A value that is not falsy, as it compares and as `str` writes it. -/
structure Given where
  raw : String
  text : String
deriving DecidableEq

/-- A message on the socket, field by field. -/
structure Message where
  msgId : Field Int
  service : Field String
  apiKey : Option Given
  authToken : Option String
  /-- `bad` when `data` is not an object. -/
  action : Field String

/-- The connection. `lastLookup`, `keyRead`, `resolved` and `keyRefused` are history:
no code reads them. -/
structure Conn where
  uid : Option String
  authorization : String
  keyValid : Option Bool
  keyVerified : Bool
  currentKey : Option KeyRecord
  keyCheckedAt : Int
  rejectedKey : Option Given
  /-- `none` is `_UNSET`. -/
  keyUserCache : Option (Option User)
  keyUserApplied : Bool
  authToken : Option String
  currentUserObj : Option User
  /-- Tornado's `_current_user`, which is there or not. -/
  currentUserCache : Option (Option User)
  impersonator : Option User
  tokenExpiresAt : Option Int
  authLookupFailed : Bool
  authCheckedAt : Int
  /-- `user_id_map`, shared with every other connection. -/
  userIdMap : String → List String
  lastLookup : Option (String × Lookup)
  keyRead : Option KeyCheck
  resolved : Option String
  keyRefused : Bool

/-- A method of the handler: it may raise, and what it has set by then stays. -/
abbrev Method (α : Type) := Program Conn Fault α

/-- The answer of a store, or its error raised. -/
def Read.get {α : Type} : Read α → Method α
  | .failed f => Program.raise f
  | .ok a => pure a

/-! ### Fan-out lists -/

/-- `unassign_connection`: out of every list but one. -/
def unassign (conn : String) (keep : Option String) (m : String → List String) : String → List String :=
  fun user => if keep = some user then m user else (m user).erase conn

/-- `assign_user_id`: a connection belongs to one user at a time. -/
def assign (conn user : String) (m : String → List String) : String → List String :=
  let m := unassign conn (some user) m
  fun u => if u = user then (if conn ∈ m u then m u else m u ++ [conn]) else m u

namespace Conn

/-- The `current_user` property. -/
def currentUser (s : Conn) : Option User := s.currentUserCache.getD s.currentUserObj

/-- The service's code has looked at `current_user`. -/
def cacheUser (s : Conn) : Conn := {s with currentUserCache := some s.currentUser}

/-- `key_can`: a key of the configuration has no record and may do everything. -/
def keyCan (ability : String) (s : Conn) : Bool :=
  if !s.keyVerified then false
  else match s.currentKey with
    | none => true
    | some record => abilityAllows record.abilities ability

/-- The connection has no user any more. -/
def clearCurrentUser (s : Conn) : Conn :=
  {s with
    currentUserObj := none
    userIdMap := match s.uid with
      | none => s.userIdMap
      | some uid => unassign uid none s.userIdMap}

/-- The user is this connection's: it joins the user's fan-out list, once it has a uid. -/
def assignUser (user : User) (s : Conn) : Conn :=
  {s with
    resolved := some (toString user.id)
    userIdMap := match s.uid with
      | none => s.userIdMap
      | some uid => assign uid (toString user.id) s.userIdMap}

/-- `_drop_api_key_user`: the fan-out assignment stays. -/
def dropApiKeyUser (s : Conn) : Conn :=
  if s.keyUserApplied then {s with keyUserApplied := false, currentUserObj := none, currentUserCache := none}
  else s

end Conn

open Conn

section
variable (cfg : Config)

/-! ### The key -/

/-- `api_key_refusal`: why a key whose secret matched may not be used now. -/
def apiKeyRefusal (record : KeyRecord) (wall : Int) : Option String :=
  if record.disabled then some "API key is disabled"
  else if expired record.expiresAt wall then some "API key has expired"
  else match record.allowedIps with
    | none => none
    | some ips => if cfg.addressAllowed ips then none else some "API key is not allowed from this address"

/-- `has_valid_key_db`: the record, or why it was refused. -/
def hasValidKeyDb (check : KeyCheck) (key : String) : Method (Except String KeyRecord) :=
  match splitKey key with
  | none => pure (.error "Invalid API key")
  | some (stem, secret) => do
    let db ← check.db.get
    match db.keys.find? (fun r => r.keyStem = stem) with
    | none => pure (.error "Invalid API key")
    | some record =>
      if !cfg.secretMatches secret record.secretHash then pure (.error "Invalid API key")
      else match apiKeyRefusal cfg record check.wall with
        | some refusal => pure (.error refusal)
        | none => do
          check.useKey.get
          pure (.ok record)

/-- `has_valid_api_key`: `none` for a key that may be used. -/
def hasValidApiKey (check : KeyCheck) (key : Option String) : Method (Option String) :=
  match key with
  | none => pure (some "API key is missing")
  | some key => do
    match ← hasValidKeyDb cfg check key with
    | .error refusal => pure (some refusal)
    | .ok record => do
      Program.modify fun s => {s with
        keyVerified := true, currentKey := some record, keyRead := some check
        keyCheckedAt := check.stamp, keyUserCache := none}
      pure none

/-- The part of `_recheck_api_key` that reads the record again. -/
def rereadKey (check : KeyCheck) (record : KeyRecord) : Method (Option String) := do
  let db ← check.db.get
  let fresh := db.keys.find? (fun r => r.id = record.id)
  Program.modify fun s => {s with keyCheckedAt := check.stamp, keyUserCache := none}
  match fresh with
  | none => pure (some "API key no longer exists")
  | some fresh => do
    Program.modify fun s => {s with currentKey := some fresh, keyRead := some check}
    pure (apiKeyRefusal cfg fresh check.wall)

/-- The key is dropped for good. -/
def loseKey (s : Conn) : Conn :=
  let s := {s with keyValid := some false, keyVerified := false, currentKey := none, keyRefused := true}
  if s.authToken.isNone then s.clearCurrentUser else s

/-- The record is read again once it is old enough; until then only its expiry is checked. -/
def keyRefusal (env : Env) (record : KeyRecord) (checkedAt : Int) : Method (Option String) :=
  if cfg.recheckSeconds ≤ env.recheckNow - checkedAt then rereadKey cfg env.recheck record
  else pure (if expired record.expiresAt env.recheckWall then some "API key has expired" else none)

/-- `_recheck_api_key`: why the key was dropped, or `none`. -/
def recheckApiKey (env : Env) : Method (Option String) := do
  let s ← Program.get
  match s.currentKey with
  | none => pure none
  | some record =>
    if record.id = 0 then pure none
    else do
      match ← keyRefusal cfg env record s.keyCheckedAt with
      | none => pure none
      | some refusal => do
        Program.modify loseKey
        pure (some refusal)

/-- The in-message key, tried when the handshake brought none and it is not the one that
was refused last. -/
def tryKey (env : Env) (msg : Message) : Method Unit := do
  let s ← Program.get
  match s.keyValid, msg.apiKey with
  | none, some key =>
    if some key = s.rejectedKey then pure ()
    else do
      match ← hasValidApiKey cfg env.verify (some key.text) with
      | none => Program.modify fun s => {s with keyValid := some true}
      | some _ => Program.modify fun s => {s with rejectedKey := some key}
  | _, _ => pure ()

/-- What a service that requires a key asks of the connection. -/
def requireKey (env : Env) (msg : Message) (refusal : Option String) : Method Unit := do
  match refusal with
  | some _ => Program.raise (.http 1401)
  | none => do
    tryKey cfg env msg
    let s ← Program.get
    if s.keyValid = some true then pure () else Program.raise (.http 1401)

/-! ### The user -/

/-- A token in an `Authorization` header. -/
def bearer (authorization : String) : Option String :=
  if "Bearer ".toList.isPrefixOf authorization.toList then
    let token := Text.strip (authorization.toList.drop 7)
    if token = [] then none else some (String.ofList token)
  else none

/-- What `_ensure_current_user` does with a verified token. -/
def resolveUser (look : Lookup) (payload : Payload) (isImpersonation : Bool) : Method Unit :=
  if !cfg.isUuid payload.sub then Program.modify clearCurrentUser
  else do
    let db ← look.db.get
    let user := db.users.find? (fun u => u.publicId = payload.sub)
    let impersonator := if isImpersonation then db.users.find? (fun u => u.publicId = payload.imp) else none
    if isImpersonation && !(impersonator.any User.active) then Program.modify clearCurrentUser
    else match user with
      | none => Program.modify clearCurrentUser
      | some user =>
        if user.active then
          Program.modify fun s => ({s with
            currentUserObj := some user, impersonator := impersonator
            tokenExpiresAt := some payload.exp} : Conn).assignUser user
        else Program.modify clearCurrentUser

/-- `_ensure_current_user` of the request handler. -/
def ensureUser (look : Lookup) : Method Unit := do
  Program.modify fun s => {s with impersonator := none, tokenExpiresAt := none, currentUserCache := none}
  let s ← Program.get
  match s.authToken <|> bearer s.authorization with
  | none => Program.modify clearCurrentUser
  | some token => do
    Program.modify fun s => {s with authToken := some token, lastLookup := some (token, look)}
    match cfg.verify token .user look.wall with
    | some payload => resolveUser cfg look payload false
    | none =>
      match cfg.verify token .impersonation look.wall with
      | some payload => resolveUser cfg look payload true
      | none => Program.modify clearCurrentUser

/-- `_ensure_current_user` of the socket. -/
def ensureCurrentUser (look : Lookup) : Method Unit := do
  ensureUser cfg look
  Program.modify fun s => {s with authCheckedAt := look.stamp}

/-- The token is to be looked up again. -/
def authStale (env : Env) (s : Conn) : Bool :=
  s.authLookupFailed || (s.tokenExpiresAt.any fun t => decide (t ≤ env.authWall)) ||
    decide (cfg.recheckSeconds ≤ env.authNow - s.authCheckedAt)

/-- A lookup that failed is retried on the next message; until then the socket is nobody. -/
def lookupFailed (s : Conn) : Conn := {s.clearCurrentUser with authLookupFailed := true}

/-- The token of a message: kept as it stands, or looked up. -/
def reloadToken (env : Env) (token : String) : Method Unit := do
  let s ← Program.get
  if some token = s.authToken && !authStale cfg env s then pure ()
  else do
    Program.modify fun s => {s with authToken := some token}
    (ensureCurrentUser cfg env.lookup).onRaise lookupFailed
    Program.modify fun s => {s with authLookupFailed := false}

/-- `load_user_by_id`: the user a key acts as, or `none` if it must not. -/
def loadUserById (userId : Nat) (db : Db) : Option User :=
  (db.users.find? fun u => u.id = userId).filter User.active

/-- `_api_key_user`, with its cache. -/
def apiKeyUser (env : Env) (userId : Nat) : Method (Option User) := do
  let s ← Program.get
  match s.keyUserCache with
  | some user => pure user
  | none => do
    let db ← env.keyUser.get
    Program.modify fun s => {s with keyUserCache := some (loadUserById userId db)}
    pure (loadUserById userId db)

/-- `_apply_api_key_user`: any token presented wins, valid or not. -/
def applyApiKeyUser (env : Env) : Method Unit := do
  let s ← Program.get
  match s.currentKey.bind KeyRecord.actsAs, s.authToken with
  | some userId, none => do
    match ← apiKeyUser env userId with
    | none => do
      Program.modify clearCurrentUser
      Program.raise (.http 1401)
    | some user =>
      Program.modify fun s => ({s with
        currentUserObj := some user, currentUserCache := none, keyUserApplied := true} : Conn).assignUser user
  | _, _ => pure ()

/-- The ability a call needs. -/
def abilityOf (service action : String) : String :=
  String.ofList (underscored service.toList ++ ':' :: action.toList)

/-- The key must cover the action. -/
def enforceApiKey (env : Env) (service action : String) : Method Unit := do
  let s ← Program.get
  if s.currentKey.any (fun r => !abilityAllows r.abilities (abilityOf service action)) then
    Program.raise (.http 1403)
  else applyApiKeyUser env

/-! ### Messages -/

/-- A message that is passed to its service's `bridge_request`. -/
structure Passed where
  service : String
  action : String
  requiresKey : Bool
deriving DecidableEq

/-- The message's id and service, and whether that service requires a key. -/
def addressed (msg : Message) : Method (String × Bool) :=
  match msg.msgId, msg.service with
  | .missing, _ => Program.raise (.http 1001)
  | _, .missing => Program.raise (.http 1001)
  | .bad, _ => Program.raise .unexpected
  | .given _, .bad => Program.raise .unexpected
  | .given _, .given service =>
    match cfg.services (String.ofList (underscored service.toList)) with
    | none => Program.raise (.http 1002)
    | some requires => pure (service, requires)

/-- An empty token is none. -/
def Message.presents (msg : Message) : Option String := msg.authToken.filter (· ≠ "")

/-- The token of the message, or the one the connection stands on. -/
def reloadStanding (env : Env) (msg : Message) : Method Unit := do
  let s ← Program.get
  match msg.presents <|> s.authToken with
  | none => pure ()
  | some token => reloadToken cfg env token

/-- The action must be named. -/
def requestedAction (msg : Message) : Method String :=
  match msg.action with
  | .missing => Program.raise (.http 1005)
  | .bad => Program.raise .unexpected
  | .given action => pure action

/-- `on_message`, as far as the key: what comes before the message's token is looked at. -/
def beforeToken (env : Env) (msg : Message) : Method (String × Bool) := do
  Program.modify dropApiKeyUser
  let (service, requiresKey) ← addressed cfg msg
  let refusal ← recheckApiKey cfg env
  Program.when requiresKey (requireKey cfg env msg refusal)
  pure (service, requiresKey)

/-- `on_message`, up to the call of `bridge_request`. -/
def onMessage (env : Env) (msg : Message) : Method Passed := do
  let (service, requiresKey) ← beforeToken cfg env msg
  reloadStanding cfg env msg
  let action ← requestedAction msg
  Program.when requiresKey (enforceApiKey env service action)
  pure ⟨service, action, requiresKey⟩

/-- A frame that cannot be parsed is answered and nothing else; a message that is passed
reaches code that may look at `current_user`. -/
def handle (env : Env) (frame : Option Message) (s : Conn) : Conn × Except Fault Passed :=
  match frame with
  | none => (s, .error (.http 1000))
  | some msg =>
    match onMessage cfg env msg s with
    | (s, .error f) => (s, .error f)
    | (s, .ok passed) => (if env.readsUser then s.cacheUser else s, .ok passed)

/-! ### The connection -/

/-- The upgrade request: its headers, and what handling it meets. -/
structure Handshake where
  authorization : String
  apiKey : Option String
  lookup : Lookup
  check : KeyCheck

/-- A connection before the handshake. -/
def Conn.initial (authorization : String) (userIdMap : String → List String) : Conn where
  uid := none
  authorization := authorization
  keyValid := none
  keyVerified := false
  currentKey := none
  keyCheckedAt := 0
  rejectedKey := none
  keyUserCache := none
  keyUserApplied := false
  authToken := none
  currentUserObj := none
  currentUserCache := none
  impersonator := none
  tokenExpiresAt := none
  authLookupFailed := false
  authCheckedAt := 0
  userIdMap := userIdMap
  lastLookup := none
  keyRead := none
  resolved := none
  keyRefused := false

/-- `prepare` and `open`. No connection when either raises. A key that was refused closes
the connection, but messages already under way still arrive. -/
def connect (uid : String) (hs : Handshake) (userIdMap : String → List String) : Option Conn :=
  match ensureCurrentUser cfg hs.lookup (.initial hs.authorization userIdMap) with
  | (_, .error _) => none
  | (s, .ok _) =>
    match hasValidApiKey cfg hs.check hs.apiKey {s with uid := some uid} with
    | (_, .error _) => none
    | (s, .ok none) => some {s with keyValid := some true}
    | (s, .ok (some refusal)) =>
      if refusal = "API key is missing" then some {s with keyValid := none}
      else some {s with keyValid := some false, keyRefused := true}

/-- A frame arrives, another connection is listed under a user, a connection (this one
too: the manager drops those it cannot write to) is removed, or all of them are. -/
inductive Input where
  | frame (env : Env) (frame : Option Message)
  | otherAssigned (conn user : String)
  | removed (conn : String)
  | reset

/-- Uids are random: another connection's is never this one's. -/
def step : Input → Conn → Conn
  | .frame env frame, s => (handle cfg env frame s).1
  | .otherAssigned conn user, s =>
    if s.uid = some conn then s else {s with userIdMap := assign conn user s.userIdMap}
  | .removed conn, s => {s with userIdMap := unassign conn none s.userIdMap}
  | .reset, s => {s with userIdMap := fun _ => []}

/-- A connection, one message after another. -/
def machine : Machine Conn Input := ⟨step cfg⟩

end

end PyAppRunner.Bridge
