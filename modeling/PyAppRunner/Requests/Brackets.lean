import PyAppRunner.Base.Program
import PyAppRunner.Throttle.Windows

/-! The decorators of a handler's methods that give it a connection, a transaction or a limit.

A method under `@with_db` or `@with_cache` finds connections on its handler, which are taken
from the pools before it runs and given back after it, however it ends. What the pools, the
databases and the cache answer is given by `Env`, at each moment of the log: any of them may
refuse, fail or be interrupted. A method's own code is any program that uses what is attached,
looks at the handler, and calls other methods under decorators of their own (`Code`). -/
namespace PyAppRunner.Requests.Brackets
open Base Throttling

/-! ### The handler -/

/-- What may be raised inside a handler. -/
inductive Fault where
  /-- `HTTPException`. -/
  | http (message : String) (code : Int) (status : Int)
  | runtime (message : String)
  | noAttribute (name : String)
  | other (text : String)
  /-- Not an `Exception`, so that nothing but a `finally` sees it. -/
  | cancelled
deriving DecidableEq

/-- An `Exception`, which `except Exception` catches. -/
def Fault.isException : Fault → Bool
  | .cancelled => false
  | _ => true

/-- The two pools. -/
inductive Pool where
  | main
  | cache
deriving DecidableEq

/-- A connection, numbered as it was handed out. -/
structure Conn where
  pool : Pool
  id : Nat
deriving DecidableEq

/-- The attributes that the decorators set on the handler. -/
inductive Handle where
  | dbConn
  | dbCur
  | pgConn
  | pgCur
  | dbWrapper
  | redisCon
deriving DecidableEq

/-- The attribute of the handler. -/
def Handle.name : Handle → String
  | .dbConn => "db_conn"
  | .dbCur => "db_cur"
  | .pgConn => "pg_conn"
  | .pgCur => "pg_cur"
  | .dbWrapper => "db_wrapper"
  | .redisCon => "redis_con"

/-- `_DB_ATTRS`. -/
def dbAttrs : Handle → Bool
  | .redisCon => false
  | _ => true

/-- What a record of an action says. -/
structure Record (V : Type) where
  eventType : String
  userId : Option Int
  details : List (String × V)
  ip : Option String
  userAgent : Option String

/-- What is sent over a connection. -/
inductive Sent (V : Type) where
  | statement (text : String)
  | hit (key : String) (maxRequests windowSeconds : Int)
  | audit (record : Record V)

/-- What happens to a connection. -/
inductive Event (V : Type) where
  | opened (c : Conn)
  | closed (c : Conn)
  | begun (c : Conn)
  | ended (c : Conn) (committed : Bool)
  | sent (c : Conn) (what : Sent V)
  | logged (record : Record V)
  | warned (text : String)

/-- The handler's attributes, and the log of what was asked of the outside. -/
structure State (V : Type) where
  attrs : Handle → Option Conn
  next : Nat
  log : List (Event V)

/-- `bridge_handler`: whether the cache has a pool, who calls, and from where. -/
structure Bridge where
  cachePool : Bool
  /-- A user may lack an id. -/
  currentUser : Option (Option Int)
  clientIp : Option String
  userAgent : Option String

/-- The answers of the outside, by the length of the log: of a pool whether the connection and
the cursor it gives are there, or that it raises; of giving back, beginning and ending a
transaction what is raised, if anything; and of what is sent. -/
structure Env (V : Type) where
  openPool : Nat → Except Fault (Bool × Bool)
  closePool : Nat → Option Fault
  begin : Nat → Option Fault
  finish : Nat → Option Fault
  reply : Nat → Except Fault V
  hit : Nat → Except Fault Attempt

/-- What is the same for all of a handler's calls. `fields` gives the fields of a dict. -/
structure Site (V : Type) where
  bridge : Option Bridge
  sqlite : Bool
  /-- `type(self).__module__` and `__qualname__`. -/
  scope : String × String
  fields : V → Option (List (String × V))
  masked : V

variable {V α : Type}

/-- A method of a handler: it may raise, and what it did by then stays done. -/
abbrev Method (V α : Type) := Program (State V) Fault α

section
variable (env : Env V) (site : Site V)

/-- It is written down. -/
def note (e : Event V) : Method V Unit := Program.modify fun s => {s with log := s.log ++ [e]}

/-- The environment may raise here. -/
def raiseIf (answer : Nat → Option Fault) : Method V Unit := do
  let s ← Program.get
  match answer s.log.length with
  | some e => Program.raise e
  | none => pure ()

/-- Something is sent on a connection, and answered. -/
def send (c : Conn) (what : Sent V) (answer : Nat → Except Fault α) : Method V α := do
  note (.sent c what)
  let s ← Program.get
  match answer s.log.length with
  | .error e => Program.raise e
  | .ok a => pure a

/-- `self.<name>`. -/
def attr (h : Handle) : Method V Conn := do
  let s ← Program.get
  match s.attrs h with
  | none => Program.raise (.noAttribute h.name)
  | some c => pure c

/-- A statement on what an attribute holds. -/
def use (h : Handle) (text : String) : Method V V := do
  let c ← attr h
  send c (.statement text) env.reply

/-! ### `async with` -/

/-- `__aenter__` of a pool: the connection, and whether it and its cursor are there. -/
def enter (pool : Pool) : Method V (Conn × Bool × Bool) := do
  let s ← Program.get
  match env.openPool s.log.length with
  | .error e => Program.raise e
  | .ok got => do
    Program.modify fun s => {s with next := s.next + 1}
    note (.opened ⟨pool, s.next⟩)
    pure (⟨pool, s.next⟩, got)

/-- `__aexit__` of a pool. -/
def leave (c : Conn) : Method V Unit := do
  note (.closed c)
  raiseIf env.closePool

/-- `async with pool.connection()`. -/
def onPool (pool : Pool) (body : Conn → Bool × Bool → Method V α) : Method V α := do
  let (c, got) ← enter env pool
  (body c got).ensuring (leave env c)

/-- The end of a transaction, by how its body ended. -/
def finish (c : Conn) (committed : Bool) : Method V Unit := do
  note (.ended c committed)
  raiseIf env.finish

/-- `async with conn.transaction()`. -/
def inTransaction (c : Conn) (body : Method V α) : Method V α := do
  raiseIf env.begin
  note (.begun c)
  body.settled (finish env c)

/-! ### Attributes -/

/-- The handler gets its connection. -/
def attach (handles : Handle → Bool) (c : Conn) : Method V Unit :=
  Program.modify fun s => {s with attrs := fun h => if handles h then some c else s.attrs h}

/-- The handler loses it again. -/
def detach (handles : Handle → Bool) : Method V Unit :=
  Program.modify fun s => {s with attrs := fun h => if handles h then none else s.attrs h}

/-- What `_attach_db` sets. -/
def attachedDb : Handle → Bool
  | .redisCon => false
  | .pgConn => !site.sqlite
  | .pgCur => !site.sqlite
  | _ => true

/-- The handles that are about the cache. -/
def redisAttr : Handle → Bool
  | .redisCon => true
  | _ => false

/-- `try` with the attributes set, which are deleted `finally`. -/
def whileAttached (attached detached : Handle → Bool) (c : Conn) (body : Method V α) : Method V α := do
  attach attached c
  body.ensuring (detach detached)

/-! ### The decorators -/

/-- A function as the decorators see it. -/
structure Fn (V : Type) where
  name : String
  actionName : Option String
  authWrapped : Bool
  call : V → Method V V

/-- `getattr(func, "_action_name", func.__name__)`. -/
def Fn.event (f : Fn V) : String := f.actionName.getD f.name

/-- `@action`. -/
def action (name : String) (f : Fn V) : Fn V := {f with actionName := some name}

/-- `@authenticated`. -/
def authenticated (f : Fn V) : Fn V :=
  {f with
    authWrapped := true
    call := fun input =>
      if (site.bridge.bind Bridge.currentUser).isNone then Program.raise (.http "Not authorized" 4010 401)
      else f.call input}

def linked : Method V Bridge :=
  match site.bridge with
  | none => Program.raise (.http "Bridge handler not linked" 5000 400)
  | some bh => pure bh

/-- `_cache_pool`. -/
def cachePool (bh : Bridge) : Method V Unit :=
  if bh.cachePool then pure ()
  else Program.raise (.http "Cache is not configured: config[\"db\"][\"redis\"] has no hostname" 5000 400)

/-- The body with a connection of the main pool. -/
def mainPool (body : Method V α) : Method V α :=
  onPool env .main fun c got =>
    if !got.1 || !got.2 then Program.raise (.http "Failed to connect to database server" 5000 400)
    else whileAttached (attachedDb site) dbAttrs c body

/-- The body with a connection to the cache. -/
def cacheOpen (body : Method V α) : Method V α :=
  onPool env .cache fun c got =>
    if !got.1 then Program.raise (.http "Failed to connect to cache server" 5000 400)
    else whileAttached redisAttr redisAttr c body

/-- `@with_tx`. -/
def withTx (f : Fn V) : Fn V :=
  {f with call := fun input => do
    let s ← Program.get
    match (s.attrs .dbConn).or (s.attrs .pgConn) with
    | none => Program.raise (.http "Database connection not linked (db_conn missing)" 5000 400)
    | some c => inTransaction env c (f.call input)}

/-- `@with_db`. -/
def withDb (f : Fn V) : Fn V :=
  {f with call := fun input => do
    let _ ← linked site
    mainPool env site (f.call input)}

/-- `@with_cache`. -/
def withCache (f : Fn V) : Fn V :=
  {f with call := fun input => do
    let bh ← linked site
    cachePool bh
    cacheOpen env (f.call input)}

/-- `@with_cache_and_db`. -/
def withCacheAndDb (f : Fn V) : Fn V :=
  {f with call := fun input => do
    let bh ← linked site
    cachePool bh
    cacheOpen env (mainPool env site (f.call input))}

/-- Who is counted: the user, or else the address. -/
def identity : String :=
  match site.bridge with
  | none => "unknown"
  | some bh =>
    match bh.currentUser.join with
    | some id => if id = 0 then "ip:" ++ bh.clientIp.getD "None" else "user:" ++ toString id
    | none => "ip:" ++ bh.clientIp.getD "None"

/-- `@rate_limit`. -/
def rateLimit (maxRequests windowSeconds : Int) (f : Fn V) : Fn V :=
  {f with call := fun input => do
    let s ← Program.get
    match s.attrs .redisCon with
    | none => Program.raise (.runtime "@rate_limit must be applied after @with_cache or @with_cache_and_db")
    | some c => do
      let key := "rl:" ++ site.scope.1 ++ "." ++ site.scope.2 ++ ":" ++ f.event ++ ":" ++ identity site
      let attempt ← send c (.hit key maxRequests windowSeconds) env.hit
      if !attempt.allowed then
        Program.raise (.http ("Rate limit exceeded. Try again in " ++ toString attempt.retryAfter ++ " seconds.") 4029 429)
      else f.call input}

/-- `_sanitize_input`. -/
def sanitizeInput (sensitive : List String) (input : V) : List (String × V) :=
  ((site.fields input).getD []).map fun kv => (kv.1, if sensitive.contains kv.1 then site.masked else kv.2)

/-- What is written of a call. -/
def auditRecord (eventType : Option String) (sensitive : List String) (f : Fn V) (input : V) : Record V where
  -- An empty event type counts as none.
  eventType := (eventType.filter (· ≠ "")).getD f.event
  userId := site.bridge.bind fun bh => bh.currentUser.join
  details := sanitizeInput site sensitive input
  ip := site.bridge.bind Bridge.clientIp
  userAgent := site.bridge.bind Bridge.userAgent

/-- What follows the action; `sink` says whether there is one. -/
def writeAudit (sink : Bool) (record : Record V) : Method V Unit := do
  let s ← Program.get
  if !sink then note (.logged record)
  else match s.attrs .dbWrapper with
    | none => note (.warned "@audited with a sink requires @with_db; skipping audit")
    | some c => do
      let _ ← send c (.audit record) env.reply
      pure ()

/-- `except Exception`: the failure is only logged. -/
def bestEffort (eventType : Option String) (e : Fault) : Method V Unit :=
  if e.isException then note (.warned ("@audited failed for event_type=" ++ eventType.getD "None")) else Program.raise e

/-- `@audited`. -/
def audited (eventType : Option String) (sensitive : List String) (sink : Bool) (f : Fn V) : Fn V :=
  {f with call := fun input => do
    let result ← f.call input
    (writeAudit env sink (auditRecord site eventType sensitive f input)).attempt (bestEffort eventType)
    pure result}

/-- The decorators, with their arguments. -/
inductive Decorator where
  | action (name : String)
  | authenticated
  | withTx
  | withDb
  | withCache
  | withCacheAndDb
  | rateLimit (maxRequests windowSeconds : Int)
  | audited (eventType : Option String) (sensitive : List String) (sink : Bool)

/-- A decorator around a function. -/
def Decorator.wrap : Decorator → Fn V → Fn V
  | .action name => Brackets.action name
  | .authenticated => Brackets.authenticated site
  | .withTx => Brackets.withTx env
  | .withDb => Brackets.withDb env site
  | .withCache => Brackets.withCache env site
  | .withCacheAndDb => Brackets.withCacheAndDb env site
  | .rateLimit maxRequests windowSeconds => Brackets.rateLimit env site maxRequests windowSeconds
  | .audited eventType sensitive sink => Brackets.audited env site eventType sensitive sink

end

/-- A method's code: it uses what is attached and looks at the handler, may catch what is raised,
and calls methods under decorators. It sets no attribute itself. -/
inductive Code {W : Type} (env : Env W) (site : Site W) : {β : Type} → Method W β → Prop
  | done {β : Type} (b : β) : Code env site (pure b : Method W β)
  | raise {β : Type} (e : Fault) : Code env site (Program.raise e : Method W β)
  | look : Code env site (Program.get : Method W (State W))
  | use (h : Handle) (text : String) : Code env site (use env h text)
  | bind {β γ : Type} {m : Method W β} {f : β → Method W γ} (hm : Code env site m) (hf : ∀ b, Code env site (f b)) :
    Code env site (m >>= f)
  | attempt {β : Type} {m : Method W β} {f : Fault → Method W β} (hm : Code env site m) (hf : ∀ e, Code env site (f e)) :
    Code env site (m.attempt f)
  | call (decorators : List Decorator) {f : Fn W} (hf : ∀ input, Code env site (f.call input)) (input : W) :
    Code env site ((decorators.foldr (Decorator.wrap env site) f).call input)

/-! ### What is held -/

/-- What a method may have open. -/
inductive Item where
  | conn (c : Conn)
  | tx (c : Conn)
deriving DecidableEq

/-- What is open, the last opened first, and the number of the next connection. -/
structure Held where
  stack : List Item
  next : Nat

/-- Who watches the log: a connection is opened once and under a number of its own, and what was
opened last is closed first; a transaction begins on an open connection, and ends before
anything else that was open; and nothing is sent on a connection that is not open. -/
def watch (e : Event V) (h : Held) : Option Held :=
  match e with
  | .opened c => if c.id = h.next then some ⟨.conn c :: h.stack, h.next + 1⟩ else none
  | .closed c => if h.stack.head? = some (.conn c) then some ⟨h.stack.tail, h.next⟩ else none
  | .begun c => if h.stack.contains (.conn c) then some ⟨.tx c :: h.stack, h.next⟩ else none
  | .ended c _ => if h.stack.head? = some (.tx c) then some ⟨h.stack.tail, h.next⟩ else none
  | .sent c _ => if h.stack.contains (.conn c) then some h else none
  | .logged _ => some h
  | .warned _ => some h

/-- The connections that are open after a log. -/
def watchAll : List (Event V) → Held → Option Held
  | [], h => some h
  | e :: rest, h => (watch e h).bind (watchAll rest)

/-- What is attached is open. -/
def Attached (stack : List Item) (s : State V) : Prop := ∀ h c, s.attrs h = some c → .conn c ∈ stack

/-- A part of a call: whoever watches the log from what is open accepts what is new in it, and
nothing more is open or attached than before. `must` is open for sure. -/
structure Moved (must : List Item) (s s' : State V) : Prop where
  log : ∃ new, s'.log = s.log ++ new ∧ ∀ stack, (∀ i ∈ must, i ∈ stack) → Attached stack s →
    watchAll new ⟨stack, s.next⟩ = some ⟨stack, s'.next⟩
  attrs : ∀ h, s'.attrs h = s.attrs h ∨ s'.attrs h = none

section
variable {env : Env V} {site : Site V} {must : List Item} {s s' s'' : State V} {c : Conn}

theorem watchAll_append (a b : List (Event V)) (h : Held) : watchAll (a ++ b) h = (watchAll a h).bind (watchAll b) := by
  induction a generalizing h with
  | nil => rfl
  | cons e rest ih =>
    show (watch e h).bind (watchAll (rest ++ b)) = _
    rw [watchAll, Option.bind_assoc]
    exact congrArg _ (funext ih)

theorem Attached.of_attrs {stack : List Item} (h : Attached stack s) (hattrs : ∀ h, s'.attrs h = s.attrs h ∨ s'.attrs h = none) :
    Attached stack s' := by
  intro handle c hc
  obtain heq | hnone := hattrs handle
  · exact h handle c (heq ▸ hc)
  · rw [hnone] at hc
    cases hc

theorem Moved.refl : Moved must s s :=
  ⟨⟨[], (List.append_nil _).symm, fun _ _ _ => rfl⟩, fun _ => .inl rfl⟩

theorem Moved.trans (h : Moved must s s') (h' : Moved must s' s'') : Moved must s s'' := by
  obtain ⟨⟨new, hlog, hwatch⟩, hattrs⟩ := h
  obtain ⟨⟨new', hlog', hwatch'⟩, hattrs'⟩ := h'
  refine ⟨⟨new ++ new', by rw [hlog', hlog, List.append_assoc], fun stack hmust hstack => ?_⟩, fun handle => ?_⟩
  · rw [watchAll_append, hwatch stack hmust hstack]
    exact hwatch' stack hmust (hstack.of_attrs hattrs)
  · obtain heq | hnone := hattrs' handle
    · rw [heq]
      exact hattrs handle
    · exact .inr hnone

theorem Moved.more (h : Moved [] s s') : Moved must s s' :=
  ⟨h.log.imp fun _ hnew => ⟨hnew.1, fun stack _ hstack => hnew.2 stack (fun _ hi => absurd hi List.not_mem_nil) hstack⟩,
    h.attrs⟩

theorem moved_pure (a : α) : Moves (Moved must) (pure a : Method V α) := .pure fun _ => .refl

theorem moved_raise (e : Fault) : Moves (Moved must) (Program.raise e : Method V α) := .raise fun _ => .refl

theorem moved_bind {β : Type} {m : Method V α} {f : α → Method V β} (hm : Moves (Moved must) m)
    (hf : ∀ a, Moves (Moved must) (f a)) : Moves (Moved must) (m >>= f) :=
  .bind (fun h h' => h.trans h') hm hf

theorem moved_attempt {m : Method V α} {f : Fault → Method V α} (hm : Moves (Moved must) m)
    (hf : ∀ e, Moves (Moved must) (f e)) : Moves (Moved must) (m.attempt f) :=
  .attempt (fun h h' => h.trans h') hm hf

/-- An event that needs nothing but what is open leaves it so. -/
theorem moved_note {e : Event V} (h : ∀ stack next, (∀ i ∈ must, i ∈ stack) → watch e ⟨stack, next⟩ = some ⟨stack, next⟩) :
    Moves (Moved must) (note e) := by
  intro s
  refine ⟨⟨[e], rfl, fun stack hmust _ => ?_⟩, fun _ => .inl rfl⟩
  show (watch e ⟨stack, s.next⟩).bind (watchAll []) = _
  rw [h stack s.next hmust]
  rfl

theorem moved_raiseIf (answer : Nat → Option Fault) : Moves (Moved (V := V) must) (raiseIf answer) := by
  refine moved_bind (.get fun _ => .refl) fun s => ?_
  split
  · exact moved_raise _
  · exact moved_pure _

/-- Something may be sent on what is sure to be open. -/
theorem moved_send (what : Sent V) (answer : Nat → Except Fault α) :
    Moves (Moved [.conn c]) (send c what answer) := by
  refine moved_bind (moved_note fun stack next hmust => ?_) fun _ =>
    moved_bind (.get fun _ => .refl) fun s => ?_
  · have hopen : stack.contains (.conn c) = true := List.contains_iff_mem.2 (hmust _ (List.mem_singleton.2 rfl))
    show (if stack.contains (.conn c) then _ else _) = _
    rw [hopen]
    rfl
  · split
    · exact moved_raise _
    · exact moved_pure _

/-- What is attached is open. -/
theorem Moved.of_attached {h : Handle} (hc : s.attrs h = some c) (hmoved : Moved [.conn c] s s') : Moved [] s s' := by
  obtain ⟨new, hlog, hwatch⟩ := hmoved.log
  refine ⟨⟨new, hlog, fun stack _ hstack => hwatch stack (fun i hi => ?_) hstack⟩, hmoved.attrs⟩
  obtain rfl := List.mem_singleton.1 hi
  exact hstack h c hc

/-! ### The brackets -/

theorem raiseIf_state {answer : Nat → Option Fault} : (raiseIf answer s).1 = s := by
  unfold raiseIf
  rw [Program.get_bind]
  cases answer s.log.length <;> rfl

theorem leave_state : (leave env c s).1 = {s with log := s.log ++ [.closed c]} := by
  unfold leave note
  rw [Program.modify_bind, raiseIf_state]

theorem finish_state {committed : Bool} : (finish env c committed s).1 = {s with log := s.log ++ [.ended c committed]} := by
  unfold finish note
  rw [Program.modify_bind, raiseIf_state]

theorem enter_cases (env : Env V) (pool : Pool) (s : State V) :
    (∃ e, enter env pool s = (s, .error e)) ∨ ∃ got, enter env pool s =
      ({s with next := s.next + 1, log := s.log ++ [.opened ⟨pool, s.next⟩]}, .ok (⟨pool, s.next⟩, got)) := by
  unfold enter note
  rw [Program.get_bind]
  cases env.openPool s.log.length with
  | error e => exact .inl ⟨e, rfl⟩
  | ok got => exact .inr ⟨got, rfl⟩

/-- What is attached for a while is gone afterwards. -/
theorem moved_whileAttached {attached detached : Handle → Bool} (hsub : ∀ h, attached h = true → detached h = true)
    {m : Method V α} (hm : Moves (Moved []) m) : Moves (Moved [.conn c]) (whileAttached attached detached c m) := by
  intro s
  have hrun : (whileAttached attached detached c m s).1 =
      (detach detached (m {s with attrs := fun h => if attached h then some c else s.attrs h}).1).1 := by
    unfold whileAttached attach
    rw [Program.modify_bind, Program.ensuring, Program.settled_state]
  rw [hrun]
  obtain ⟨⟨new, hlog, hwatch⟩, hattrs⟩ := hm {s with attrs := fun h => if attached h then some c else s.attrs h}
  refine ⟨⟨new, hlog, fun stack hmust hstack => ?_⟩, fun h => ?_⟩
  · refine hwatch stack (fun i hi => absurd hi List.not_mem_nil) fun h d hd => ?_
    dsimp only at hd
    split_ifs at hd
    · cases hd
      exact hmust _ (List.mem_singleton.2 rfl)
    · exact hstack h d hd
  · show (if detached h then none else _) = _ ∨ (if detached h then none else _) = _
    by_cases hdetached : detached h = true
    · rw [if_pos hdetached]
      exact .inr rfl
    · have hattached : attached h ≠ true := fun h' => hdetached (hsub h h')
      rw [if_neg hdetached]
      have hsame := hattrs h
      dsimp only at hsame
      rw [if_neg hattached] at hsame
      exact hsame

theorem moved_onPool (pool : Pool) {body : Conn → Bool × Bool → Method V α}
    (hbody : ∀ c got, Moves (Moved [.conn c]) (body c got)) : Moves (Moved []) (onPool env pool body) := by
  intro s
  unfold onPool
  obtain ⟨e, hraised⟩ | ⟨got, hentered⟩ := enter_cases env pool s
  · rw [Program.bind_error hraised]
    exact .refl
  · rw [Program.bind_ok hentered]
    dsimp only
    rw [Program.ensuring, Program.settled_state, leave_state]
    obtain ⟨⟨new, hlog, hwatch⟩, hattrs⟩ := hbody ⟨pool, s.next⟩ got
      {s with next := s.next + 1, log := s.log ++ [.opened ⟨pool, s.next⟩]}
    refine ⟨⟨.opened ⟨pool, s.next⟩ :: (new ++ [.closed ⟨pool, s.next⟩]), ?_, fun stack _ hstack => ?_⟩, hattrs⟩
    · dsimp only
      rw [hlog]
      simp
    · have hinside := hwatch (.conn ⟨pool, s.next⟩ :: stack) (fun i hi => by simp_all) fun h d hd =>
        List.mem_cons_of_mem _ (hstack h d hd)
      dsimp only at hinside ⊢
      rw [watchAll, watch, if_pos rfl, Option.bind_some, watchAll_append, hinside]
      simp [watchAll, watch]

/-- A transaction on an open connection. -/
theorem moved_inTransaction {m : Method V α} (hm : Moves (Moved []) m) : Moves (Moved [.conn c]) (inTransaction env c m) := by
  refine moved_bind (moved_raiseIf env.begin) fun _ s => ?_
  unfold note
  rw [Program.modify_bind, Program.settled_state, finish_state]
  obtain ⟨⟨new, hlog, hwatch⟩, hattrs⟩ := hm {s with log := s.log ++ [.begun c]}
  refine ⟨⟨.begun c :: (new ++ [.ended c (m {s with log := s.log ++ [.begun c]}).2.isOk]), ?_, fun stack hmust hstack => ?_⟩, hattrs⟩
  · dsimp only
    rw [hlog]
    simp
  · have hopen : stack.contains (.conn c) = true := List.contains_iff_mem.2 (hmust _ (List.mem_singleton.2 rfl))
    have hinside := hwatch (.tx c :: stack) (fun i hi => absurd hi List.not_mem_nil) fun h d hd =>
      List.mem_cons_of_mem _ (hstack h d hd)
    dsimp only at hinside ⊢
    rw [watchAll, watch, if_pos hopen, Option.bind_some, watchAll_append, hinside]
    simp [watchAll, watch]

/-! ### The decorators keep to it -/

/-- Whatever it is called with, it closes what it opens. -/
def Orderly (f : Fn V) : Prop := ∀ input, Moves (Moved []) (f.call input)

theorem attachedDb_sub : ∀ h, attachedDb site h = true → dbAttrs h = true := by
  intro h hattached
  cases h with
  | redisCon => cases hattached
  | _ => rfl

theorem moved_mainPool {m : Method V α} (hm : Moves (Moved []) m) : Moves (Moved []) (mainPool env site m) := by
  refine moved_onPool .main fun c got => ?_
  split_ifs
  · exact moved_raise _
  · exact moved_whileAttached attachedDb_sub hm

theorem moved_cacheOpen {m : Method V α} (hm : Moves (Moved []) m) : Moves (Moved []) (cacheOpen env m) := by
  refine moved_onPool .cache fun c got => ?_
  split_ifs
  · exact moved_raise _
  · exact moved_whileAttached (fun h hattached => hattached) hm

theorem moved_linked : Moves (Moved (V := V) []) (linked site) := by
  unfold linked
  cases site.bridge with
  | none => exact moved_raise _
  | some bh => exact moved_pure _

theorem moved_cachePool (bh : Bridge) : Moves (Moved (V := V) []) (cachePool bh) := by
  unfold cachePool
  split_ifs
  · exact moved_pure _
  · exact moved_raise _

theorem moved_writeAudit (sink : Bool) (record : Record V) : Moves (Moved []) (writeAudit env sink record) := by
  intro s
  unfold writeAudit
  rw [Program.get_bind]
  split_ifs
  · exact moved_note (fun _ _ _ => rfl) s
  · cases hc : s.attrs .dbWrapper with
    | none => exact moved_note (fun _ _ _ => rfl) s
    | some c =>
      have hsent : Moves (Moved [.conn c]) (do let _ ← send c (.audit record) env.reply; pure () : Method V Unit) :=
        moved_bind (moved_send _ _) fun _ => moved_pure _
      exact (hsent s).of_attached hc

theorem moved_bestEffort (eventType : Option String) (e : Fault) : Moves (Moved (V := V) []) (bestEffort eventType e) := by
  unfold bestEffort
  split_ifs
  · exact moved_note fun _ _ _ => rfl
  · exact moved_raise _

theorem orderly_wrap (d : Decorator) {f : Fn V} (hf : Orderly f) : Orderly (d.wrap env site f) := by
  intro input
  cases d with
  | action name => exact hf input
  | authenticated =>
    show Moves _ (if (site.bridge.bind Bridge.currentUser).isNone then _ else _)
    split_ifs
    · exact moved_raise _
    · exact hf input
  | withTx =>
    intro s
    show Moved [] s ((Program.get >>= fun s => _) s).1
    rw [Program.get_bind]
    cases hconn : s.attrs .dbConn with
    | some c => exact (moved_inTransaction (hf input) s).of_attached hconn
    | none =>
      cases hpg : s.attrs .pgConn with
      | some c => exact (moved_inTransaction (hf input) s).of_attached hpg
      | none => exact .refl
  | withDb => exact moved_bind moved_linked fun _ => moved_mainPool (hf input)
  | withCache =>
    exact moved_bind moved_linked fun bh => moved_bind (moved_cachePool bh) fun _ => moved_cacheOpen (hf input)
  | withCacheAndDb =>
    exact moved_bind moved_linked fun bh => moved_bind (moved_cachePool bh) fun _ =>
      moved_cacheOpen (moved_mainPool (hf input))
  | rateLimit maxRequests windowSeconds =>
    intro s
    show Moved [] s ((Program.get >>= fun s => _) s).1
    rw [Program.get_bind]
    cases hc : s.attrs .redisCon with
    | none => exact .refl
    | some c =>
      refine Moved.of_attached hc (moved_bind (moved_send _ _) (fun attempt => ?_) s)
      split_ifs
      · exact moved_raise _
      · exact fun s => (hf input s).more
  | audited eventType sensitive sink =>
    exact moved_bind (hf input) fun _ =>
      moved_bind (moved_attempt (moved_writeAudit sink _) fun e => moved_bestEffort eventType e) fun _ => moved_pure _

theorem moved_code {m : Method V α} (h : Code env site m) : Moves (Moved []) m := by
  induction h with
  | done a => exact moved_pure _
  | raise e => exact moved_raise _
  | look => exact .get fun _ => .refl
  | use handle text =>
    intro s
    show Moved [] s ((attr handle >>= fun c => send c (.statement text) env.reply) s).1
    cases hc : s.attrs handle with
    | none =>
      have hattr : attr handle s = (s, .error (.noAttribute handle.name)) := by
        unfold attr
        rw [Program.get_bind, hc]
        rfl
      rw [Program.bind_error hattr]
      exact .refl
    | some c =>
      have hattr : attr handle s = (s, .ok c) := by
        unfold attr
        rw [Program.get_bind, hc]
        rfl
      rw [Program.bind_ok hattr]
      exact (moved_send (.statement text) env.reply s).of_attached hc
  | bind hm hf ihm ihf => exact moved_bind ihm ihf
  | attempt hm hf ihm ihf => exact moved_attempt ihm ihf
  | @call decorators f hf input ih =>
    have horderly : Orderly (decorators.foldr (Decorator.wrap env site) f) := by
      clear input
      induction decorators with
      | nil => exact ih
      | cons d rest ihd => exact orderly_wrap d ihd
    exact horderly input

/-! ### What the watcher's acceptance says -/

/-- The connection is taken from its pool. -/
@[simp]
def Event.opens (c : Conn) : Event V → Bool
  | .opened d => d = c
  | _ => false

/-- The connection goes back. -/
@[simp]
def Event.closes (c : Conn) : Event V → Bool
  | .closed d => d = c
  | _ => false

/-- A transaction begins on the connection. -/
@[simp]
def Event.begins (c : Conn) : Event V → Bool
  | .begun d => d = c
  | _ => false

/-- The transaction ends. -/
@[simp]
def Event.ends (c : Conn) : Event V → Bool
  | .ended d _ => d = c
  | _ => false

/-- Of one connection: what is open of it was opened and not closed, its transactions likewise, and
it is opened once at most, under a number that was free. -/
structure Counted (c : Conn) (events : List (Event V)) (h h' : Held) : Prop where
  conn : events.countP (Event.opens c) + h.stack.count (.conn c) = events.countP (Event.closes c) + h'.stack.count (.conn c)
  tx : events.countP (Event.begins c) + h.stack.count (.tx c) = events.countP (Event.ends c) + h'.stack.count (.tx c)
  next : h.next ≤ h'.next
  once : events.countP (Event.opens c) ≤ 1
  fresh : 0 < events.countP (Event.opens c) → h.next ≤ c.id ∧ c.id < h'.next

theorem Counted.append {events events' : List (Event V)} {h h' h'' : Held} (first : Counted c events h h')
    (rest : Counted c events' h' h'') : Counted c (events ++ events') h h'' := by
  have hconn := first.conn
  have hconn' := rest.conn
  have htx := first.tx
  have htx' := rest.tx
  have hnext := first.next
  have hnext' := rest.next
  have honce := first.once
  have honce' := rest.once
  -- Its number is not free any more once it was opened.
  have hnot : events.countP (Event.opens c) = 0 ∨ events'.countP (Event.opens c) = 0 := by
    by_contra hboth
    have hlow := (first.fresh (by omega)).2
    have hhigh := (rest.fresh (by omega)).1
    omega
  refine ⟨?_, ?_, by omega, ?_, fun hpos => ?_⟩ <;> rw [List.countP_append] at *
  · rw [List.countP_append]
    omega
  · rw [List.countP_append]
    omega
  · omega
  · rcases hnot with hzero | hzero
    · have hfresh := rest.fresh (by omega)
      omega
    · have hfresh := first.fresh (by omega)
      omega

theorem counted_watch {e : Event V} {h h' : Held} (hwatch : watch e h = some h') (c : Conn) : Counted c [e] h h' := by
  obtain ⟨stack, next⟩ := h
  have htop {i : Item} (hhead : stack.head? = some i) : ∃ rest, stack = i :: rest := by
    cases stack with
    | nil => cases hhead
    | cons j rest =>
      cases hhead
      exact ⟨rest, rfl⟩
  cases e with simp only [watch, Option.ite_none_right_eq_some, Option.some.injEq] at hwatch
  | opened d =>
    obtain ⟨hid, rfl⟩ := hwatch
    by_cases hd : d = c
    · subst hd
      constructor <;> simp [hid]
      omega
    · constructor <;> simp [hd]
  | closed d =>
    obtain ⟨hhead, rfl⟩ := hwatch
    obtain ⟨rest, rfl⟩ := htop hhead
    constructor <;> simp [List.count_cons, List.countP_cons, Nat.add_comm]
  | begun d =>
    obtain ⟨-, rfl⟩ := hwatch
    constructor <;> simp [List.count_cons, List.countP_cons, Nat.add_comm]
  | ended d committed =>
    obtain ⟨hhead, rfl⟩ := hwatch
    obtain ⟨rest, rfl⟩ := htop hhead
    constructor <;> simp [List.count_cons, List.countP_cons, Nat.add_comm]
  | sent d what =>
    obtain ⟨-, rfl⟩ := hwatch
    constructor <;> simp
  | logged record =>
    subst hwatch
    constructor <;> simp
  | warned text =>
    subst hwatch
    constructor <;> simp

theorem counted_watchAll {events : List (Event V)} {h h' : Held} (hwatch : watchAll events h = some h') (c : Conn) :
    Counted c events h h' := by
  induction events generalizing h with
  | nil =>
    cases hwatch
    constructor <;> simp
  | cons e rest ih =>
    obtain ⟨h₁, hfirst, hrest⟩ := Option.bind_eq_some_iff.1 hwatch
    exact (counted_watch hfirst c).append (ih hrest)

end

/-- **What a method was given it gives back.** Whatever the code of a handler does, under whatever
decorators and however deep, and whatever fails or is interrupted: every connection it is
given is opened once and given back once, the last one first, and its transactions are ended
before; nothing is sent on a connection that is not open; and the handler keeps none. -/
theorem connections_given_back {env : Env V} {site : Site V} {m : Method V α} (h : Code env site m) {s : State V}
    (hbare : ∀ handle, s.attrs handle = none) :
    let after := (m s).1
    ∃ new, after.log = s.log ++ new ∧ watchAll new ⟨[], s.next⟩ = some ⟨[], after.next⟩ ∧
      (∀ c, new.countP (Event.opens c) ≤ 1 ∧ new.countP (Event.closes c) = new.countP (Event.opens c) ∧
        new.countP (Event.ends c) = new.countP (Event.begins c)) ∧
      (∀ before c what rest, new = before ++ .sent c what :: rest →
        before.countP (Event.opens c) = 1 ∧ before.countP (Event.closes c) = 0) ∧
      ∀ handle, after.attrs handle = none := by
  obtain ⟨⟨new, hlog, hwatch⟩, hattrs⟩ := moved_code h s
  have hstack := hwatch [] (fun i hi => absurd hi List.not_mem_nil) fun handle c hc => by
    rw [hbare] at hc
    cases hc
  refine ⟨new, hlog, hstack, fun c => ?_, fun before c what rest hnew => ?_, fun handle => ?_⟩
  · have hcounted := counted_watchAll hstack c
    have hconn := hcounted.conn
    have htx := hcounted.tx
    simp only [List.count_nil, Nat.add_zero] at hconn htx
    exact ⟨hcounted.once, hconn.symm, htx.symm⟩
  · rw [hnew, watchAll_append] at hstack
    obtain ⟨held, hbefore, hrest⟩ := Option.bind_eq_some_iff.1 hstack
    obtain ⟨held', hsent, -⟩ := Option.bind_eq_some_iff.1 hrest
    simp only [watch, Option.ite_none_right_eq_some] at hsent
    have hopen : 0 < held.stack.count (.conn c) := List.count_pos_iff.2 (List.contains_iff_mem.1 hsent.1)
    have hcounted := counted_watchAll hbefore c
    have hconn := hcounted.conn
    have honce := hcounted.once
    rw [List.count_nil] at hconn
    omega
  · obtain heq | hnone := hattrs handle
    · rw [heq, hbare]
    · exact hnone

/-! ### A note is added -/

def calm : Env String where
  openPool := fun _ => .ok (true, true)
  closePool := fun _ => none
  begin := fun _ => none
  finish := fun _ => none
  reply := fun _ => .ok "1 row"
  hit := fun _ => .error .cancelled

def notes : Site String := ⟨some ⟨false, none, none, none⟩, false, ("services.notes", "Notes"), fun _ => none, "***"⟩

def add : Fn String := ⟨"add", none, false, fun _ => use calm .dbWrapper "INSERT INTO notes"⟩

def bare : State String := ⟨fun _ => none, 0, []⟩

def added : Method String String := ([Decorator.withDb, .withTx].foldr (Decorator.wrap calm notes) add).call ""

theorem add_gives_back : (∀ handle, (added bare).1.attrs handle = none) ∧
    (added bare).1.log.countP (Event.closes ⟨.main, 0⟩) = 1 := by
  have hcode : Code calm notes added := .call _ (fun _ => .use .dbWrapper "INSERT INTO notes") ""
  obtain ⟨new, hlog, -, honce, -, hnone⟩ := connections_given_back hcode (s := bare) fun _ => rfl
  have hopened : (added bare).1.log.countP (Event.opens ⟨.main, 0⟩) = 1 := rfl
  rw [hlog] at hopened ⊢
  exact ⟨hnone, (honce ⟨.main, 0⟩).2.1.trans hopened⟩

end PyAppRunner.Requests.Brackets
