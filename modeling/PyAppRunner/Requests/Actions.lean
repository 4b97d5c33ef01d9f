import PyAppRunner.Base.Dict
import PyAppRunner.Base.Mro
import PyAppRunner.Base.Run
import Mathlib.Data.List.Dedup
import Mathlib.Data.List.Sort

/-! Classes of request handlers, their actions, and who may call them.

An action is found by the marker on the function that the class has under a name, in its
own attributes or in those of its bases. `require_auth_for_actions` replaces the
actions of a class by guarded ones, and does so again for every class derived from it,
as soon as there is one.

What a class is found to have is remembered for good, whoever asks first: a request, or a
hook that runs while the class is being made. -/
namespace PyAppRunner.Requests
open Base

/-! ### Functions -/

/-- A function, and how it was made: a plain one, one that was given an action name, a guarded
one, and one made by any other decorator, with `functools.wraps` or without. -/
inductive Fn where
  | plain (body : Nat)
  | tagged (name : String) (inner : Fn)
  | authenticated (inner : Fn)
  | wrapper (wraps : Bool) (inner : Fn)

namespace Fn

/-- `_action_name`. What makes a function with `wraps` copies the attributes of the other. -/
def actionName : Fn → Option String
  | plain _ => none
  | tagged name _ => some name
  | authenticated inner => inner.actionName
  | wrapper wraps inner => if wraps then inner.actionName else none

/-- `_auth_wrapped`. -/
def authWrapped : Fn → Bool
  | plain _ => false
  | tagged _ inner => inner.authWrapped
  | authenticated _ => true
  | wrapper wraps inner => wraps && inner.authWrapped

/-- The body that is under all the decorators. -/
def body : Fn → Nat
  | plain body => body
  | tagged _ inner => inner.body
  | authenticated inner => inner.body
  | wrapper _ inner => inner.body

/-- `action`: both the function and what is made of it get the name. -/
def action (name : String) (func : Fn) : Fn := .tagged name (.wrapper true (.tagged name func))

end Fn

/-- What comes of a request. -/
inductive Outcome where
  | ran (body : Nat)
  /-- The `HTTPException` with status 401. -/
  | unauthorized
  | unknownAction
deriving DecidableEq

/-- A call on an instance whose bridge handler has a current user, or has none. -/
def Fn.call (user : Bool) : Fn → Outcome
  | plain body => .ran body
  | tagged _ inner => inner.call user
  | authenticated inner => if user then inner.call user else .unauthorized
  | wrapper _ inner => inner.call user

/-! ### Classes -/

/-- What an attribute of a class may be. -/
inductive Attr where
  | function (f : Fn)
  /-- Anything without an action name. -/
  | other

/-- When a class's own `__init_subclass__` reads the actions of the new class: before it calls the
next, after, or never. -/
structure Reads where
  before : Bool
  after : Bool
deriving DecidableEq

/-- A class's own `__init_subclass__`, which calls the next, or that of `require_auth_for_actions`,
which calls the one that was there, or else the next, and then guards. -/
inductive Hook where
  | own (reads : Reads)
  | guarding (own : Option Reads)
deriving DecidableEq

/-- The `__init_subclass__` that the class had by itself. -/
def Hook.reads : Hook → Option Reads
  | .own reads => some reads
  | .guarding reads => reads

/-- The hook was put there by `require_auth_for_actions`. -/
def Hook.guards : Hook → Bool
  | .own _ => false
  | .guarding _ => true

/-- A class object. -/
structure ClassObj where
  bases : List Nat
  mro : List Nat
  attrs : Dict String Attr
  hook : Option Hook

/-- The classes so far; a class is named by its place. -/
abbrev Classes := List ClassObj

/-- `__mro__`. -/
def mroOf (classes : Classes) (c : Nat) : List Nat :=
  match classes[c]? with
  | none => []
  | some o => o.mro

/-- `getattr(cls, name, None)`. -/
def getattr (classes : Classes) (c : Nat) (name : String) : Option Attr :=
  (mroOf classes c).findSome? fun k => (classes[k]?).bind fun o => o.attrs.get name

/-- The names that a class has itself. -/
def namesOf (classes : Classes) (k : Nat) : List String :=
  match classes[k]? with
  | none => []
  | some o => o.attrs.entries.map Prod.fst

/-- `dir(cls)`. -/
def dir (classes : Classes) (c : Nat) : List String :=
  ((mroOf classes c).flatMap (namesOf classes)).dedup.insertionSort (· ≤ ·)

/-- `setattr` on a class. -/
def setattr (classes : Classes) (c : Nat) (name : String) (value : Attr) : Classes :=
  classes.modify c fun o => {o with attrs := o.attrs.set name value}

/-- `_guard_actions`, for one name. -/
def guardAction (c : Nat) (classes : Classes) (name : String) : Classes :=
  match getattr classes c name with
  | some (.function f) =>
    match f.actionName with
    | none => classes
    | some actionName =>
      if f.authWrapped then classes else setattr classes c name (.function (.tagged actionName (.authenticated f)))
  | _ => classes

/-- `_guard_actions`. -/
def guardActions (classes : Classes) (c : Nat) : Classes := (dir classes c).foldl (guardAction c) classes

/-! ### What is found of a class -/

/-- The actions of a class under their names. -/
abbrev Registry := Dict String Fn

/-- One name of `dir(cls)`. -/
def scanName (classes : Classes) (c : Nat) (registry : Registry) (name : String) : Registry :=
  match getattr classes c name with
  | some (.function f) =>
    match f.actionName with
    | none => registry
    | some actionName => registry.set actionName f
  | _ => registry

/-- The actions of a class, by name. -/
def scanActions (classes : Classes) (c : Nat) : Registry := (dir classes c).foldl (scanName classes c) Dict.empty

/-- `actionRegistry` has the actions of the classes that were asked for. -/
structure State where
  classes : Classes
  actionRegistry : Dict Nat Registry

/-- `_get_actions`: a class is looked through once. -/
def getActions (s : State) (c : Nat) : State × Registry :=
  match s.actionRegistry.get c with
  | some registry => (s, registry)
  | none =>
    let registry := scanActions s.classes c
    ({s with actionRegistry := s.actionRegistry.set c registry}, registry)

/-! ### Class statements -/

/-- A class's own hook, if it reads at that moment. -/
def readIf (reads : Bool) (c : Nat) (s : State) : State := if reads then (getActions s c).1 else s

/-- The end of a guarding hook. -/
def guardIf (guards : Bool) (c : Nat) (s : State) : State :=
  if guards then {s with classes := guardActions s.classes c} else s

/-- `super().__init_subclass__()` for a new class, with these classes still to come. -/
def initSubclass (c : Nat) : List Nat → State → State
  | [], s => s
  | k :: rest, s =>
    match (s.classes[k]?).bind ClassObj.hook with
    | none => initSubclass c rest s
    | some hook =>
      let reads := hook.reads.getD ⟨false, false⟩
      guardIf hook.guards c (readIf reads.after c (initSubclass c rest (readIf reads.before c s)))

/-- `require_auth_for_actions`. -/
def requireAuthForActions (classes : Classes) (c : Nat) : Classes :=
  (guardActions classes c).modify c fun o => {o with hook := some (.guarding (o.hook.bind Hook.reads))}

/-- A class statement. -/
structure ClassStmt where
  bases : List Nat
  body : List (String × Attr)
  ownHook : Option Reads
  requireAuth : Bool

/-- The class of a statement, before any hook. The statement raises, and makes none, if a base is not
there or if there is no order. -/
def classOf (stmt : ClassStmt) (classes : Classes) : Option ClassObj :=
  if stmt.bases.all (· < classes.length) then
    (Mro.linearize classes.length (stmt.bases.map (mroOf classes)) stmt.bases).map fun mro =>
      ⟨stmt.bases, mro, stmt.body.foldl (fun d e => d.set e.1 e.2) Dict.empty, stmt.ownHook.map .own⟩
  else none

/-- The hooks run before the decorator. -/
def define (stmt : ClassStmt) (s : State) : State :=
  match classOf stmt s.classes with
  | none => s
  | some o =>
    let c := s.classes.length
    let s := initSubclass c o.mro.tail {s with classes := s.classes ++ [o]}
    if stmt.requireAuth then {s with classes := requireAuthForActions s.classes c} else s

/-! ### Requests -/

/-- The function for an action: that of its name, or the default. -/
def findAction (registry : Registry) (action : String) : Option Fn :=
  match registry.get action with
  | some f => some f
  | none => registry.get "default"

/-- `handle_request`, on an instance of the class. -/
def handleRequest (user : Bool) (c : Nat) (action : String) (s : State) : State × Outcome :=
  let (s, registry) := getActions s c
  match findAction registry action with
  | none => (s, .unknownAction)
  | some f => (s, f.call user)

/-- A class statement is run, or a request comes. -/
inductive Input where
  | define (stmt : ClassStmt)
  | request (user : Bool) (c : Nat) (action : String)

/-- One of them. -/
def step : Input → State → State
  | .define stmt, s => define stmt s
  | .request user c action, s => if c < s.classes.length then (handleRequest user c action s).1 else s

/-- Any number of them, in any order. -/
def handlers : Machine State Input := ⟨step⟩

/-- No class was made yet. -/
def start : State := ⟨[], Dict.empty⟩

end PyAppRunner.Requests
