import PyAppRunner.Base.Dict
import PyAppRunner.Base.Run

/-! The live sockets of users and devices, and who gets a message.

`UserConnections` and `DeviceConnections` are the same two maps under two names: the
registered sockets by their uid, and for each user (or device) the uids of the sockets
assigned to it, in order. A message for a user is scheduled on the loop of each of these
sockets; a socket whose loop refuses is dropped from both maps while the others are
still being served. -/
namespace PyAppRunner.Wbcm
open Base

variable {C : Type}

/-- `connections` and `idMap`: `user_connections` and `user_id_map`, or `device_connections`
and `device_id_map`. -/
structure Registry (C : Type) where
  connections : Dict String C
  idMap : Dict String (List String)

/-- The text of the assertion in `add_connection` and `remove_connection`. -/
def uidMissing : String := "Connection must have a uid"

namespace Registry

/-- No connection. -/
def empty : Registry C := ⟨.empty, .empty⟩

variable (uid : C → Option String)

/-- `conn.uid`, if the assertion passes. -/
def assertUid (conn : C) : Except String String :=
  match uid conn with
  | some k => if k = "" then .error uidMissing else .ok k
  | none => .error uidMissing

/-- `add_connection`. -/
def addConnection (conn : C) (r : Registry C) : Except String (Registry C) := do
  let k ← assertUid uid conn
  return {r with connections := r.connections.set k conn}

/-- One pass of the loop of `unassign_connection`. -/
def unassignFrom (connId : String) (keep : Option String) (m : Dict String (List String))
    (e : String × List String) : Dict String (List String) :=
  if keep = some e.1 then m
  else if connId ∈ e.2 then
    if e.2.erase connId = [] then m.erase e.1 else m.set e.1 (e.2.erase connId)
  else m

/-- `unassign_connection`: the id is taken from every user but one. -/
def unassignConnection (connId : String) (keep : Option String) (r : Registry C) : Registry C :=
  {r with idMap := r.idMap.entries.foldl (unassignFrom connId keep) r.idMap}

/-- `remove_connection`. -/
def removeConnection (conn : C) (r : Registry C) : Except String (Registry C) := do
  let k ← assertUid uid conn
  return unassignConnection k none {r with connections := r.connections.erase k}

/-- `assign_user_id` and `assign_device_id`. -/
def assign (connId owner : String) (r : Registry C) : Registry C :=
  let r := unassignConnection connId (some owner) r
  let idMap := if r.idMap.has owner then r.idMap else r.idMap.set owner []
  let connIds := (idMap.get owner).getD []
  {r with idMap := if connId ∈ connIds then idMap else idMap.set owner (connIds ++ [connId])}

/-- `remove_user_id` and `remove_device_id`. -/
def removeOwner (owner : String) (r : Registry C) : Registry C := {r with idMap := r.idMap.erase owner}

/-- `get_connections_by_user_id` and `get_connections_by_device_id`. -/
def connectionsOf (owner : String) (r : Registry C) : List C :=
  match r.idMap.get owner with
  | none => []
  | some connIds => connIds.filterMap r.connections.get

variable (raises : C → Bool)

/-- The loop of `send_message`: the sockets whose loop was asked, and the registry after it.
`raises` says whose loop refuses. -/
def sendEach (source : String) : List C → Registry C → Except String (List C × Registry C)
  | [], r => .ok ([], r)
  | conn :: rest, r =>
    if uid conn = some source then sendEach source rest r
    else do
      let r ← if raises conn then removeConnection uid conn r else pure r
      let (asked, r) ← sendEach source rest r
      return (conn :: asked, r)

/-- `send_message` and `send_message_to_device`. -/
def send (owner source : String) (r : Registry C) : Except String (List C × Registry C) :=
  sendEach uid raises source (r.connectionsOf owner) r

end Registry

/-- The connection manager's two registries. -/
structure Sockets (C : Type) where
  userConnections : Registry C
  deviceConnections : Registry C

namespace Sockets
variable (uid : C → Option String) (raises : C → Bool)

/-- `send_message`. -/
def sendMessage (userId source : String) (g : Sockets C) : Except String (List C × Sockets C) := do
  let (asked, users) ← g.userConnections.send uid raises userId source
  return (asked, {g with userConnections := users})

/-- `send_message_to_device`. -/
def sendMessageToDevice (deviceId source : String) (g : Sockets C) : Except String (List C × Sockets C) := do
  let (asked, devices) ← g.deviceConnections.send uid raises deviceId source
  return (asked, {g with deviceConnections := devices})

end Sockets

/-- A call on a registry. -/
inductive Call (C : Type) where
  | addConnection (conn : C)
  | removeConnection (conn : C)
  | assign (connId owner : String)
  | unassignConnection (connId : String) (keep : Option String)
  | removeOwner (owner : String)
  | reset
  | send (raises : C → Bool) (owner source : String)

namespace Registry
variable (uid : C → Option String)

/-- A call that raises leaves the registry alone. -/
def made (r : Registry C) : Except String (Registry C) → Registry C
  | .ok r' => r'
  | .error _ => r

/-- One call. -/
def call : Call C → Registry C → Registry C
  | .addConnection conn, r => r.made (r.addConnection uid conn)
  | .removeConnection conn, r => r.made (r.removeConnection uid conn)
  | .assign connId owner, r => r.assign connId owner
  | .unassignConnection connId keep, r => r.unassignConnection connId keep
  | .removeOwner owner, r => r.removeOwner owner
  | .reset, _ => .empty
  | .send raises owner source, r => r.made ((r.send uid raises owner source).map Prod.snd)

/-- One call after another. -/
def machine : Machine (Registry C) (Call C) := ⟨call uid⟩

end Registry

end PyAppRunner.Wbcm
