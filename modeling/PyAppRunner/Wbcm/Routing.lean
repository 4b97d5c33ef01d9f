import Mathlib.Data.List.Basic

/-! What `work` does with a message of the stream, and what each connection it is routed to
sends.

`work` tells connections to write the message; each does so later, on the loop of the
web server, in whatever order their callbacks run. All of them are handed the same
`dict`, and `write_custom_message` fills fields of its own connection into it. A frame
is therefore what the connections that wrote before have left, and the message comes
out as it was routed for every one of them exactly if there is nothing to fill in, or
nobody is left to send it afterwards (`uncoloured_iff`). -/
namespace PyAppRunner.Wbcm

/-- A value of a message: `None`, a text, a number, or what a JSON text decodes to. -/
inductive Value (J : Type) where
  | none
  | text (s : String)
  | int (n : Int)
  | json (j : J)

/-- A `dict`, in order. No key occurs twice. -/
abbrev Message (J : Type) := List (String × Value J)

section
variable {J : Type}

def Value.isText (s : String) : Value J → Bool
  | .text t => t = s
  | _ => false

def Value.isNone : Value J → Bool
  | .none => true
  | _ => false

/-- `key in message`. -/
def Message.has (m : Message J) (key : String) : Bool := (m.lookup key).isSome

/-- `message.get(key, None)`. -/
def Message.get (m : Message J) (key : String) : Value J := (m.lookup key).getD .none

/-- `message[key] = value` for a key that is there. -/
def Message.set (m : Message J) (key : String) (v : Value J) : Message J :=
  m.map fun kv => if kv.1 = key then (key, v) else kv

/-! ### The connections of a user or a device -/

/-- The uids that are connected, in order, and those listed for each user (device). -/
structure Connections where
  uids : List String
  idMap : String → List String

namespace Connections

/-- `get_connections_by_user_id` and `get_connections_by_device_id`. -/
def get (c : Connections) : Value J → List String
  | .text id => (c.idMap id).filter fun uid => decide (uid ∈ c.uids)
  | _ => []

/-- `remove_connection`. -/
def remove (uid : String) (c : Connections) : Connections :=
  ⟨c.uids.erase uid, fun id => (c.idMap id).erase uid⟩

end Connections

/-- `user_connections` and `device_connections`. -/
structure Manager where
  users : Connections
  devices : Connections

/-- What else `work` reads: how a JSON text decodes, whose loop refuses a callback, and the
session of each connection. -/
structure Surroundings (J : Type) where
  jsonDecode : String → Option J
  loopClosed : String → Bool
  sid : String → Option String

/-- What a message came to: who was told to close, who was told to write it, and the message
as they were handed it. -/
structure Routed (J : Type) where
  manager : Manager
  closing : List String
  writing : List String
  message : Message J

variable (env : Surroundings J)

/-- The loop of the send methods. The source is skipped, and a connection whose loop does
not take the callback is removed. -/
def sendEach (source : Value J) : List String → Connections → List String × Connections
  | [], c => ([], c)
  | uid :: rest, c =>
    if source.isText uid then sendEach source rest c
    else if env.loopClosed uid then sendEach source rest (c.remove uid)
    else
      let sent := sendEach source rest c
      (uid :: sent.1, sent.2)

/-- To the sockets of a user. -/
def sendMessage (userId source : Value J) (m : Message J) (g : Manager) : Routed J :=
  let sent := sendEach env source (g.users.get userId) g.users
  ⟨{g with users := sent.2}, [], sent.1, m⟩

/-- To the sockets of a device. -/
def sendMessageToDevice (deviceId source : Value J) (m : Message J) (g : Manager) : Routed J :=
  let sent := sendEach env source (g.devices.get deviceId) g.devices
  ⟨{g with devices := sent.2}, [], sent.1, m⟩

/-- To every user. -/
def sendMessageToAll (source : Value J) (m : Message J) (g : Manager) : Routed J :=
  let sent := sendEach env source g.users.uids g.users
  ⟨{g with users := sent.2}, [], sent.1, m⟩

/-- `close_sessions`: with a target, only the connection of that session. -/
def closeSessions (userId source : Value J) (target : Option String) (m : Message J) (g : Manager) : Routed J :=
  ⟨g, (g.users.get userId).filter fun uid => !source.isText uid && !env.loopClosed uid &&
    (match target with
      | none => true
      | some sid => env.sid uid = some sid), [], m⟩

/-- `message_data.get("target_sid", None) or None`. -/
def targetSid (m : Message J) : Option String :=
  match m.get "target_sid" with
  | .text s => if s = "" then none else some s
  | _ => none

/-- From the message's type on, its `data` decoded. -/
def route (m : Message J) (g : Manager) : Option (Routed J) :=
  let source := m.get "source_uid"
  if (m.get "type").isText "session_revoked" then
    if (m.get "user_id").isNone then none
    else some (closeSessions env (m.get "user_id") source (targetSid m) m g)
  else if (m.get "type").isText "session_relay" then
    if (m.get "target_type").isText "device" then some (sendMessageToDevice env (m.get "target_id") source m g)
    else if (m.get "target_type").isText "user" then some (sendMessage env (m.get "target_id") source m g)
    else none
  else if !m.has "user_id" then none
  else if (m.get "user_id").isNone then some (sendMessageToAll env source m g)
  else some (sendMessage env (m.get "user_id") source m g)

/-- `work`: nothing for a message it returns `False` for. -/
def work (m : Message J) (g : Manager) : Option (Routed J) :=
  if !m.has "service" || !m.has "type" || !m.has "data" || !m.has "source_uid" then none
  else match m.get "data" with
    | .text data => match env.jsonDecode data with
      | some j => route env (m.set "data" (.json j)) g
      | none => none
    | _ => route env m g

end

/-! ### What a connection sends -/

/-- The wire format of a connection. -/
structure Encoder (J F : Type) where
  encode : Message J → F
  decode : F → Option (Message J)
  decode_encode : ∀ m, decode (encode m) = some m

/-- A connection as its callback finds it, with the request it has in flight. -/
structure Socket (J F : Type) where
  uid : String
  service : Option String
  msgId : Option Int
  isOpen : Bool
  encoder : Encoder J F

section
variable {J F : Type}

/-- `self.service`, if it is not empty. -/
def Socket.serviceField (c : Socket J F) : Message J :=
  match c.service with
  | some s => if s = "" then [] else [("service", .text s)]
  | none => []

/-- A frame that answers a message has its id. -/
def Socket.msgIdField (c : Socket J F) : Message J :=
  match c.msgId with
  | some n => [("msg_id", .int n)]
  | none => []

/-- A field is added if the message has no such key. -/
def addMissing (key : String) (field m : Message J) : Message J := if m.has key then m else m ++ field

/-- `write_custom_message(message, False)` of a `dict`: what it leaves in the `dict`, and the
frame, if the connection is still open. -/
def writeCustomMessage (m : Message J) (c : Socket J F) : Message J × Option F :=
  let m := addMissing "service" c.serviceField m
  let m := addMissing "msg_id" c.msgIdField m
  (m, if c.isOpen then some (c.encoder.encode m) else none)

/-- The callbacks in the order in which they run, over the one `dict`. -/
def frames : List (Socket J F) → Message J → List (Option F)
  | [], _ => []
  | c :: rest, m => (writeCustomMessage m c).2 :: frames rest (writeCustomMessage m c).1

/-! ### Whose fields a frame has -/

/-- What a connection may add to a message. -/
def Socket.own (c : Socket J F) : Message J := c.serviceField ++ c.msgIdField

/-- The same connections in the same order, where every one but the `j`th may be at another
request. -/
structure OtherRequests (j : Nat) (cs cs' : List (Socket J F)) : Prop where
  length : cs'.length = cs.length
  same : ∀ i c c', cs[i]? = some c → cs'[i]? = some c' →
    c' = {c with service := c'.service, msgId := c'.msgId} ∧ (i = j → c' = c)

/-- Every frame is the message with at most fields of the connection that sends it, and is
the same whatever the other connections are at. -/
structure Uncoloured (m : Message J) (cs : List (Socket J F)) : Prop where
  own : ∀ (j : Nat) c f, cs[j]? = some c → (frames cs m)[j]? = some (some f) →
    ∃ added : Message J, added.Sublist c.own ∧ c.encoder.decode f = some (m ++ added)
  independent : ∀ j cs', OtherRequests j cs cs' → (frames cs' m)[j]? = (frames cs m)[j]?

theorem has_append (m field : Message J) (key : String) :
    (m ++ field).has key = (m.has key || Message.has field key) := by
  simp [Message.has, List.lookup_append]

theorem addMissing_of_has {m field : Message J} {key : String} (h : m.has key = true) :
    addMissing key field m = m := if_pos h

theorem addMissing_of_not_has {m field : Message J} {key : String} (h : m.has key = false) :
    addMissing key field m = m ++ field := if_neg (by simp [h])

/-- A message that has both fields is left as it is. -/
theorem writeCustomMessage_full {m : Message J} (hservice : m.has "service" = true)
    (hmsgId : m.has "msg_id" = true) (c : Socket J F) :
    writeCustomMessage m c = (m, if c.isOpen then some (c.encoder.encode m) else none) := by
  simp only [writeCustomMessage, addMissing_of_has hservice, addMissing_of_has hmsgId]

/-- One that has only its service gets the connection's `msg_id`, if it is at a request. -/
theorem writeCustomMessage_routed {m : Message J} (hservice : m.has "service" = true)
    (hmsgId : m.has "msg_id" = false) (c : Socket J F) :
    writeCustomMessage m c =
      (m ++ c.msgIdField, if c.isOpen then some (c.encoder.encode (m ++ c.msgIdField)) else none) := by
  simp only [writeCustomMessage, addMissing_of_has hservice, addMissing_of_not_has hmsgId]

theorem frames_full {m : Message J} (hservice : m.has "service" = true) (hmsgId : m.has "msg_id" = true)
    (cs : List (Socket J F)) :
    frames cs m = cs.map fun c => if c.isOpen then some (c.encoder.encode m) else none := by
  induction cs with
  | nil => rfl
  | cons c rest ih => simp only [frames, writeCustomMessage_full hservice hmsgId, List.map_cons, ih]

theorem length_frames (cs : List (Socket J F)) (m : Message J) : (frames cs m).length = cs.length := by
  induction cs generalizing m with
  | nil => rfl
  | cons c rest ih => simp [frames, ih]

/-- A connection that is closed sends nothing. -/
theorem frames_closed {cs : List (Socket J F)} {m : Message J} {j : Nat} {c : Socket J F}
    (hc : cs[j]? = some c) (hclosed : c.isOpen = false) : (frames cs m)[j]? = some none := by
  induction cs generalizing m j with
  | nil => cases hc
  | cons d rest ih =>
    cases j with
    | zero =>
      cases hc
      simp [frames, writeCustomMessage, hclosed]
    | succ j => exact ih hc

/-- Behind a connection that is at a request, an open connection sends that request's id. -/
theorem frames_behind {m : Message J} (hservice : m.has "service" = true) (hmsgId : m.has "msg_id" = false)
    {d c : Socket J F} {rest : List (Socket J F)} {j : Nat} {n : Int} (hbusy : d.msgId = some n)
    (hc : rest[j]? = some c) (hopen : c.isOpen = true) :
    (frames (d :: rest) m)[j + 1]? = some (some (c.encoder.encode (m ++ [("msg_id", .int n)]))) := by
  have hfield : d.msgIdField = [("msg_id", .int n)] := by simp [Socket.msgIdField, hbusy]
  have hfull : frames rest (m ++ d.msgIdField) = rest.map fun c =>
      if c.isOpen then some (c.encoder.encode (m ++ d.msgIdField)) else none := by
    refine frames_full ?_ ?_ rest
    · rw [has_append, hservice, Bool.true_or]
    · rw [has_append, hfield]
      simp [Message.has]
  rw [hfield] at hfull
  simp [frames, writeCustomMessage_routed hservice hmsgId, hfield, hfull, hc, hopen]

/-! ### Routed messages -/

theorem has_iff {m : Message J} {key : String} : m.has key = true ↔ key ∈ m.map Prod.fst := by
  induction m with
  | nil => simp [Message.has]
  | cons kv rest ih =>
    obtain ⟨a, v⟩ := kv
    simp only [Message.has, List.lookup_cons, List.map_cons, List.mem_cons] at ih ⊢
    by_cases hk : key = a
    · simp [hk]
    · simp only [beq_eq_false_iff_ne.mpr hk, hk, false_or]
      exact ih

theorem has_set (m : Message J) (key k : String) (v : Value J) : (m.set k v).has key = m.has key := by
  have hkeys : (m.set k v).map Prod.fst = m.map Prod.fst := by
    rw [Message.set, List.map_map]
    refine List.map_congr_left fun kv _ => ?_
    by_cases hk : kv.1 = k <;> simp [hk]
  rw [Bool.eq_iff_iff, has_iff, has_iff, hkeys]

/-- What the connections are handed is the message `route` was given. -/
theorem route_message {env : Surroundings J} {m : Message J} {g : Manager} {r : Routed J}
    (h : route env m g = some r) : r.message = m := by
  unfold route at h
  dsimp only at h
  repeat' split at h
  all_goals cases h
  all_goals rfl

/-- A message without a service is not routed. -/
theorem work_service {env : Surroundings J} {m : Message J} {g : Manager} {r : Routed J}
    (h : work env m g = some r) : r.message.has "service" = true := by
  unfold work at h
  split at h
  · cases h
  · rename_i hkeys
    simp only [Bool.or_eq_true, Bool.not_eq_true', not_or, Bool.not_eq_false] at hkeys
    obtain ⟨⟨⟨hservice, -⟩, -⟩, -⟩ := hkeys
    split at h
    · split at h
      · rw [route_message h, has_set]
        exact hservice
      · cases h
    · rw [route_message h]
      exact hservice

/-- A connection at another request. -/
def Socket.at (c : Socket J F) (n : Int) : Socket J F := {c with msgId := some n}

theorem otherRequests_head (d : Socket J F) (rest : List (Socket J F)) (j : Nat) (n : Int) :
    OtherRequests (j + 1) (d :: rest) (d.at n :: rest) := by
  refine ⟨rfl, ?_⟩
  intro i c c' hc hc'
  cases i with
  | zero =>
    cases hc
    cases hc'
    exact ⟨rfl, fun h => absurd h (Nat.succ_ne_zero j).symm⟩
  | succ i =>
    obtain rfl : c = c' := Option.some.inj (hc.symm.trans hc')
    exact ⟨rfl, fun _ => rfl⟩

/-- Nothing is filled into a message that has all fields. -/
theorem uncoloured_full {m : Message J} (hservice : m.has "service" = true) (hmsgId : m.has "msg_id" = true)
    (cs : List (Socket J F)) : Uncoloured m cs := by
  constructor
  · intro j c f hc hf
    refine ⟨[], List.nil_sublist _, ?_⟩
    rw [frames_full hservice hmsgId, List.getElem?_map, hc, Option.map_some, Option.some.injEq] at hf
    split at hf
    · cases hf
      rw [List.append_nil]
      exact c.encoder.decode_encode m
    · cases hf
  · intro j cs' hother
    rw [frames_full hservice hmsgId, frames_full hservice hmsgId, List.getElem?_map, List.getElem?_map]
    rcases hc : cs[j]? with _ | c
    · have hlen := List.getElem?_eq_none_iff.mp hc
      rw [List.getElem?_eq_none (by rw [hother.length]; exact hlen)]
    · have hlt : j < cs'.length := by
        rw [hother.length]
        exact (List.getElem?_eq_some_iff.mp hc).1
      have hc' := List.getElem?_eq_getElem hlt
      rw [hc', (hother.same j c _ hc hc').2 rfl]

/-- The first to write has the message as it was routed; a frame after it is never sent. -/
theorem uncoloured_first {m : Message J} (hservice : m.has "service" = true) (hmsgId : m.has "msg_id" = false)
    {cs : List (Socket J F)} (hclosed : ∀ (j : Nat) c, 0 < j → cs[j]? = some c → c.isOpen = false) :
    Uncoloured m cs := by
  constructor
  · intro j c f hc hf
    -- The socket at the front is written to before any other, so it gets the message as it came.
    cases j with
    | zero =>
      cases cs with
      | nil => cases hc
      | cons d rest =>
        cases hc
        simp only [frames, writeCustomMessage_routed hservice hmsgId, List.getElem?_cons_zero,
          Option.some.injEq] at hf
        split at hf
        · cases hf
          exact ⟨c.msgIdField, List.sublist_append_right .., c.encoder.decode_encode _⟩
        · cases hf
    | succ j =>
      rw [frames_closed hc (hclosed _ c (Nat.succ_pos j) hc)] at hf
      cases hf
  · intro j cs' hother
    rcases hc : cs[j]? with _ | c
    · have hlen := List.getElem?_eq_none_iff.mp hc
      rw [List.getElem?_eq_none (by rw [length_frames, hother.length]; exact hlen),
        List.getElem?_eq_none (by rw [length_frames]; exact hlen)]
    · have hlt : j < cs'.length := by
        rw [hother.length]
        exact (List.getElem?_eq_some_iff.mp hc).1
      have hc' : cs'[j]? = some c := by
        have hget := List.getElem?_eq_getElem hlt
        rw [hget, (hother.same j c _ hc hget).2 rfl]
      cases j with
      | zero =>
        cases cs with
        | nil => cases hc
        | cons d rest =>
          cases cs' with
          | nil => cases hc'
          | cons d' rest' =>
            cases hc
            cases hc'
            rfl
      | succ j =>
        have hshut := hclosed _ c (Nat.succ_pos j) hc
        rw [frames_closed hc hshut, frames_closed hc' hshut]

/-- **A routed message keeps to its connections' own fields exactly if it has a `msg_id` or
nobody sends it after the first who writes it.** -/
theorem uncoloured_iff {env : Surroundings J} {received : Message J} {g : Manager} {r : Routed J}
    (hrouted : work env received g = some r) (cs : List (Socket J F)) :
    Uncoloured r.message cs ↔
      r.message.has "msg_id" = true ∨ ∀ (j : Nat) c, 0 < j → cs[j]? = some c → c.isOpen = false := by
  have hservice := work_service hrouted
  constructor
  · intro h
    rcases hmsgId : r.message.has "msg_id" with _ | _
    · refine .inr fun j c hj hc => ?_
      by_contra hopen
      obtain ⟨j, rfl⟩ := Nat.exists_eq_succ_of_ne_zero (Nat.ne_of_gt hj)
      cases cs with
      | nil => cases hc
      | cons d rest =>
        -- The frame at `j + 1` would be the same with the first connection at two requests.
        have hsent : ∀ n, (frames (d :: rest) r.message)[j + 1]? =
            some (some (c.encoder.encode (r.message ++ [("msg_id", .int n)]))) := by
          intro n
          rw [← h.independent _ _ (otherRequests_head d rest j n)]
          exact frames_behind hservice hmsgId rfl hc (by simpa using hopen)
        have hsame := Option.some.inj (Option.some.inj ((hsent 0).symm.trans (hsent 1)))
        have hdecoded := congrArg c.encoder.decode hsame
        rw [c.encoder.decode_encode, c.encoder.decode_encode] at hdecoded
        simp at hdecoded
    · exact .inl rfl
  · rintro (hmsgId | hclosed)
    · exact uncoloured_full hservice hmsgId cs
    · rcases hmsgId : r.message.has "msg_id" with _ | _
      · exact uncoloured_first hservice hmsgId hclosed
      · exact uncoloured_full hservice hmsgId cs

end

/-! ### Two connections of one user -/

/-- A wire format for messages without JSON in them: the message itself. -/
def plain : Encoder Unit (Message Unit) := ⟨id, some, fun _ => rfl⟩

/-- Every text decodes, every loop takes its callback. -/
def obliging : Surroundings Unit := ⟨fun _ => some (), fun _ => false, fun _ => none⟩

/-- A tab and a phone of user 5. -/
def twoSockets : Manager := ⟨⟨["tab", "phone"], fun id => if id = "5" then ["tab", "phone"] else []⟩, ⟨[], fun _ => []⟩⟩

def note : Message Unit :=
  [("service", .text "chat"), ("type", .text "note"), ("data", .text "1"), ("source_uid", .text ""),
    ("user_id", .text "5")]

/-- The note with its data decoded, as both are handed it. -/
def routedNote : Message Unit := note.set "data" (.json ())

theorem work_note : work obliging note twoSockets = some ⟨twoSockets, [], ["tab", "phone"], routedNote⟩ := by
  rfl

/-- The tab waits for the answer to its request 7, the phone for nothing. -/
def tabThenPhone : List (Socket Unit (Message Unit)) :=
  [⟨"tab", some "chat", some 7, true, plain⟩, ⟨"phone", none, none, true, plain⟩]

/-- The phone's frame carries the tab's `msg_id`. -/
theorem phone_gets_msg_id_of_tab : work obliging note twoSockets =
      some ⟨twoSockets, [], tabThenPhone.map Socket.uid, routedNote⟩ ∧
    (frames tabThenPhone routedNote)[1]? = some (some (routedNote ++ [("msg_id", .int 7)])) ∧
    ¬ Uncoloured routedNote tabThenPhone := by
  have hsent : (frames tabThenPhone routedNote)[1]? = some (some (routedNote ++ [("msg_id", .int 7)])) := rfl
  refine ⟨work_note, hsent, fun h => ?_⟩
  obtain ⟨added, hadded, hdecoded⟩ := h.own 1 _ _ rfl hsent
  have hown : added = [] := List.sublist_nil.mp hadded
  subst hown
  cases hdecoded

/-- With the phone gone, the tab is sent the note with at most its own request's id. -/
theorem tab_alone_uncoloured :
    Uncoloured routedNote [⟨"tab", some "chat", some 7, true, plain⟩, ⟨"phone", none, none, false, plain⟩] := by
  refine (uncoloured_iff work_note _).mpr (.inr ?_)
  intro j c hj hc
  obtain rfl : j = 1 := by
    have hlt := (List.getElem?_eq_some_iff.mp hc).1
    rw [List.length_cons, List.length_singleton] at hlt
    omega
  cases hc
  rfl

end PyAppRunner.Wbcm
