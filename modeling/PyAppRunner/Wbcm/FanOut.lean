import PyAppRunner.Wbcm.Registry

/-! Each message goes to the sockets of its user, and to those once.

What a history of calls leaves in force is said without any lists: which socket is
registered under a uid, and to whom the uid was last assigned (`Presence`). The two maps
say the same, with every uid in one list at most and there once (`Reflects`), and so a
message is scheduled exactly where it should be. -/
namespace PyAppRunner.Wbcm
open Base

variable {C : Type}

/-- Who is connected, and as whom. -/
structure Presence (C : Type) where
  registered : String → Option C
  owner : String → Option String

namespace Presence

/-- Nobody is there. -/
def empty : Presence C := ⟨fun _ => none, fun _ => none⟩

/-- Some uids are gone, with what was assigned to them. -/
def drop (gone : String → Bool) (p : Presence C) : Presence C where
  registered := fun k => if gone k then none else p.registered k
  owner := fun k => if gone k then none else p.owner k

/-- A connection gets an owner or loses it. -/
def assign (k : String) (owner : Option String) (p : Presence C) : Presence C :=
  {p with owner := Function.update p.owner k owner}

/-- The socket under `k` is to get a message for `owner` that came from `source`. -/
def receives (owner source : String) (k : String) (p : Presence C) : Bool :=
  (p.registered k).isSome && p.owner k = some owner && k ≠ source

/-- The same, and its loop refuses. -/
def refuses (raises : C → Bool) (owner source : String) (k : String) (p : Presence C) : Bool :=
  p.receives owner source k && (p.registered k).any raises

variable (uid : C → Option String)

/-- The uid of a socket that has one. -/
def named (conn : C) : Option String := (uid conn).filter (· ≠ "")

/-- The calls, by what they say of connections and owners. -/
def call : Call C → Presence C → Presence C
  | .addConnection conn, p =>
    match named uid conn with
    | some k => {p with registered := Function.update p.registered k (some conn)}
    | none => p
  | .removeConnection conn, p =>
    match named uid conn with
    | some k => p.drop fun k' => k' = k
    | none => p
  | .assign k owner, p => p.assign k (some owner)
  | .unassignConnection k keep, p => if p.owner k = keep then p else p.assign k none
  | .removeOwner owner, p => {p with owner := fun k => if p.owner k = some owner then none else p.owner k}
  | .reset, _ => .empty
  | .send raises owner source, p => p.drop fun k => p.refuses raises owner source k

/-- One call after another. -/
def machine : Machine (Presence C) (Call C) := ⟨call uid⟩

end Presence

/-- A list, unless it is empty. -/
def ofList {α : Type} : List α → Option (List α)
  | [] => none
  | a :: rest => some (a :: rest)

/-- The maps say who is connected, and as whom. -/
structure Reflects (uid : C → Option String) (p : Presence C) (r : Registry C) : Prop where
  registered : ∀ k, r.connections.get k = p.registered k
  named : ∀ k conn, p.registered k = some conn → Presence.named uid conn = some k
  owner : ∀ k o, p.owner k = some o ↔ ∃ l, r.idMap.get o = some l ∧ k ∈ l
  nodup : ∀ o l, r.idMap.get o = some l → l.Nodup
  nonempty : ∀ o l, r.idMap.get o = some l → l ≠ []

open Registry

variable {uid : C → Option String} {p : Presence C} {r : Registry C}

/-- No owner has an empty list: the entry goes with its last connection. -/
theorem ofList_eq_some {α : Type} {l l' : List α} : ofList l = some l' ↔ l = l' ∧ l' ≠ [] := by
  cases l with
  | nil => simp [ofList]
  | cons a rest =>
    simp only [ofList, Option.some.injEq]
    constructor
    · intro h
      exact ⟨h, h ▸ List.cons_ne_nil a rest⟩
    · exact fun h => h.1

/-! ### Taking a uid out of the lists -/

/-- What `unassign_connection` makes of one list. -/
def without (connId : String) (keep : Option String) (o : String) (l : List String) : Option (List String) :=
  if keep = some o then some l else if connId ∈ l then ofList (l.erase connId) else some l

/-- Every owner's list loses the connection, but for the one that is to keep it. -/
theorem get_unassign (connId : String) (keep : Option String) (r : Registry C) (o : String) :
    (r.unassignConnection connId keep).idMap.get o = (r.idMap.get o).bind (without connId keep o) := by
  apply Dict.get_foldl_entries
  · intro d e hget
    unfold unassignFrom without
    split
    · exact hget
    · split
      · split
        · rename_i hnil
          rw [Dict.get_erase, if_pos rfl, hnil]
          rfl
        · rename_i hne
          rw [Dict.get_set, if_pos rfl, ofList_eq_some.mpr ⟨rfl, hne⟩]
      · exact hget
  · intro d e k hk
    unfold unassignFrom
    split
    · rfl
    · split
      · split
        · rw [Dict.get_erase, if_neg hk]
        · rw [Dict.get_set, if_neg hk]
      · rfl

/-- Each list has a connection once, so `remove` takes all there is of it. -/
theorem without_eq {connId o : String} {keep : Option String} {l : List String} (hnodup : l.Nodup) (hne : l ≠ []) :
    without connId keep o l = if keep = some o then some l else ofList (l.filter (· ≠ connId)) := by
  unfold without
  split
  · rfl
  · split
    · rw [hnodup.erase_eq_filter]
      congr 1
      apply List.filter_congr
      intro k _
      rw [bne, beq_eq_decide, ← decide_not]
    · rename_i hnot
      have hall : l.filter (· ≠ connId) = l := by
        rw [List.filter_eq_self]
        intro k hk
        rw [decide_eq_true_eq]
        exact fun heq => hnot (heq ▸ hk)
      rw [hall]
      exact (ofList_eq_some.mpr ⟨rfl, hne⟩).symm

/-- The lists without a uid, except in the list of `keep`. -/
theorem get_unassign_iff (h : Reflects uid p r) {connId o : String} {keep : Option String} {l' : List String} :
    (r.unassignConnection connId keep).idMap.get o = some l' ↔
      ∃ l, r.idMap.get o = some l ∧ l' ≠ [] ∧
        l' = if keep = some o then l else l.filter (· ≠ connId) := by
  rw [get_unassign, Option.bind_eq_some_iff]
  constructor
  · intro hex
    obtain ⟨l, hl, hl'⟩ := hex
    rw [without_eq (h.nodup o l hl) (h.nonempty o l hl)] at hl'
    refine ⟨l, hl, ?_⟩
    by_cases hkeep : keep = some o
    · rw [if_pos hkeep] at hl' ⊢
      have heq : l = l' := Option.some.inj hl'
      exact ⟨heq ▸ h.nonempty o l hl, heq.symm⟩
    · rw [if_neg hkeep] at hl' ⊢
      obtain ⟨heq, hne⟩ := ofList_eq_some.mp hl'
      exact ⟨hne, heq.symm⟩
  · intro hex
    obtain ⟨l, hl, hne, heq⟩ := hex
    refine ⟨l, hl, ?_⟩
    rw [without_eq (h.nodup o l hl) (h.nonempty o l hl)]
    by_cases hkeep : keep = some o
    · rw [if_pos hkeep] at heq ⊢
      rw [heq]
    · rw [if_neg hkeep] at heq ⊢
      exact ofList_eq_some.mpr ⟨heq.symm, hne⟩

/-- To unassign a connection is to take its owner from it. -/
theorem mem_unassign (h : Reflects uid p r) {connId o k : String} {keep : Option String} :
    (∃ l, (r.unassignConnection connId keep).idMap.get o = some l ∧ k ∈ l) ↔
      p.owner k = some o ∧ (k = connId → keep = some o) := by
  rw [h.owner]
  constructor
  · intro hex
    obtain ⟨l', hl', hk⟩ := hex
    obtain ⟨l, hl, -, rfl⟩ := (get_unassign_iff h).mp hl'
    split at hk
    · rename_i hkeep
      exact ⟨⟨l, hl, hk⟩, fun _ => hkeep⟩
    · rw [List.mem_filter, decide_eq_true_eq] at hk
      exact ⟨⟨l, hl, hk.1⟩, fun heq => absurd heq hk.2⟩
  · intro hand
    obtain ⟨⟨l, hl, hk⟩, himp⟩ := hand
    have hmem : k ∈ if keep = some o then l else l.filter (· ≠ connId) := by
      split
      · exact hk
      · rename_i hkeep
        rw [List.mem_filter, decide_eq_true_eq]
        exact ⟨hk, fun heq => hkeep (himp heq)⟩
    exact ⟨_, (get_unassign_iff h).mpr ⟨l, hl, List.ne_nil_of_mem hmem, rfl⟩, hmem⟩

/-- `unassign_connection`. -/
theorem reflects_unassign (h : Reflects uid p r) (connId : String) (keep : Option String) :
    Reflects uid (p.call uid (.unassignConnection connId keep)) (r.unassignConnection connId keep) where
  registered := by
    intro k
    rw [show (r.unassignConnection connId keep).connections = r.connections from rfl, h.registered]
    simp only [Presence.call]
    split <;> rfl
  named := by
    intro k conn hk
    simp only [Presence.call] at hk
    split at hk <;> exact h.named k conn hk
  -- The connection loses its user unless that is the one to keep. No other connection does.
  owner := by
    intro k o
    rw [mem_unassign h]
    simp only [Presence.call]
    split
    · rename_i hkeep
      constructor
      · intro hk
        refine ⟨hk, ?_⟩
        intro heq
        rw [← hkeep, ← heq, hk]
      · exact fun hk => hk.1
    · rename_i hkeep
      simp only [Presence.assign, Function.update_apply]
      split
      · rename_i heq
        constructor
        · intro hk
          cases hk
        · intro hk
          exact absurd (heq ▸ hk.1.trans (hk.2 heq).symm) hkeep
      · rename_i hne
        constructor
        · exact fun hk => ⟨hk, fun heq => absurd heq hne⟩
        · exact fun hk => hk.1
  nodup := by
    intro o l' hl'
    obtain ⟨l, hl, -, rfl⟩ := (get_unassign_iff h).mp hl'
    split
    · exact h.nodup o l hl
    · exact (h.nodup o l hl).filter _
  nonempty := by
    intro o l' hl'
    obtain ⟨l, hl, hne, -⟩ := (get_unassign_iff h).mp hl'
    exact hne

/-! ### The other calls -/

/-- The uid check lets through what has a name. -/
theorem assertUid_ok {conn : C} {k : String} : assertUid uid conn = .ok k ↔ Presence.named uid conn = some k := by
  unfold assertUid Presence.named
  cases uid conn with
  | none => simp
  | some k' =>
    by_cases hempty : k' = ""
    · simp [hempty]
    · simp [Option.filter, hempty]

/-- And raises for what has none. -/
theorem assertUid_error {conn : C} (h : Presence.named uid conn = none) : ∃ e, assertUid uid conn = .error e := by
  cases hassert : assertUid uid conn with
  | error e => exact ⟨e, rfl⟩
  | ok k =>
    rw [assertUid_ok.mp hassert] at h
    cases h

/-- `add_connection` registers, and assigns nobody. -/
theorem reflects_add (h : Reflects uid p r) {conn : C} {k : String} (hk : Presence.named uid conn = some k) :
    Reflects uid {p with registered := Function.update p.registered k (some conn)}
      {r with connections := r.connections.set k conn} where
  registered := by
    intro k'
    simp only [Dict.get_set, Function.update_apply]
    split
    · rfl
    · exact h.registered k'
  named := by
    intro k' conn' hk'
    simp only [Function.update_apply] at hk'
    split at hk'
    · rename_i heq
      cases hk'
      rw [hk, heq]
    · exact h.named k' conn' hk'
  owner := h.owner
  nodup := h.nodup
  nonempty := h.nonempty

/-- A socket that is removed is out of both maps. -/
theorem reflects_drop (h : Reflects uid p r) (k : String) :
    Reflects uid (p.drop fun k' => k' = k)
      (unassignConnection k none {r with connections := r.connections.erase k}) := by
  have hlists : ∀ o, (unassignConnection k none {r with connections := r.connections.erase k}).idMap.get o =
      (r.unassignConnection k none).idMap.get o := fun _ => rfl
  have hun := reflects_unassign h k none
  constructor
  · intro k'
    rw [show (unassignConnection k none {r with connections := r.connections.erase k}).connections =
      r.connections.erase k from rfl, Dict.get_erase, h.registered]
    simp [Presence.drop]
  · intro k' conn hk'
    simp only [Presence.drop, decide_eq_true_eq] at hk'
    split at hk'
    · cases hk'
    · exact h.named k' conn hk'
  · intro k' o
    simp only [hlists, mem_unassign h, Presence.drop, decide_eq_true_eq]
    split
    · rename_i heq
      simp [heq]
    · rename_i hne
      simp [hne]
  · exact hun.nodup
  · exact hun.nonempty

/-- The list of the owner, with the uid at its end if it was not there. -/
def joined (k : String) (l : List String) : List String := if k ∈ l then l else l ++ [k]

theorem get_unassign_keep (k o : String) (r : Registry C) :
    (r.unassignConnection k (some o)).idMap.get o = r.idMap.get o := by
  rw [get_unassign]
  cases r.idMap.get o with
  | none => rfl
  | some l => simp [without]

theorem get_assign (k o o' : String) (r : Registry C) : (r.assign k o).idMap.get o' =
    if o' = o then some (joined k ((r.idMap.get o).getD []))
    else (r.unassignConnection k (some o)).idMap.get o' := by
  have hkeep := get_unassign_keep k o r
  simp only [Registry.assign]
  generalize (r.unassignConnection k (some o)).idMap = m at hkeep
  have hhas : m.has o = (r.idMap.get o).isSome := by rw [Dict.has, hkeep]
  cases hget : r.idMap.get o with
  | none =>
    rw [hget] at hkeep hhas
    by_cases ho : o' = o
    · simp [hhas, ho, joined]
    · simp [hhas, ho]
  | some l =>
    rw [hget] at hkeep hhas
    by_cases hk : k ∈ l
    · by_cases ho : o' = o
      · simp [hhas, hkeep, hk, ho, joined]
      · simp [hhas, hkeep, hk, ho]
    · by_cases ho : o' = o
      · simp [hhas, hkeep, hk, ho, joined]
      · simp [hhas, hkeep, hk, ho]

/-- An assigned connection is in the list once, at its end if it is new. -/
theorem mem_joined {k k' : String} {l : List String} : k' ∈ joined k l ↔ k' ∈ l ∨ k' = k := by
  unfold joined
  split
  · rename_i hk
    constructor
    · exact .inl
    · intro hor
      obtain hk' | heq := hor
      · exact hk'
      · exact heq ▸ hk
  · simp

theorem nodup_joined {k : String} {l : List String} (h : l.Nodup) : (joined k l).Nodup := by
  unfold joined
  split
  · exact h
  · rename_i hk
    rw [List.nodup_append]
    refine ⟨h, List.nodup_singleton k, ?_⟩
    intro a ha b hb heq
    rw [List.mem_singleton] at hb
    exact hk (hb ▸ heq ▸ ha)

/-- **`assign_user_id`, `assign_device_id`.** The connection leaves the list it was in. -/
theorem reflects_assign (h : Reflects uid p r) (k o : String) : Reflects uid (p.assign k (some o)) (r.assign k o) where
  registered := h.registered
  named := h.named
  owner := by
    intro k' o'
    simp only [get_assign, Presence.assign, Function.update_apply]
    by_cases ho : o' = o
    · subst ho
      simp only [if_true, Option.some.injEq, exists_eq_left', mem_joined]
      by_cases hk : k' = k
      · simp [hk]
      · rw [if_neg hk, h.owner]
        simp only [hk, or_false]
        cases r.idMap.get o' with
        | none => simp
        | some l => simp
    · simp only [ho, if_false, mem_unassign h]
      by_cases hk : k' = k
      · simp [hk, Ne.symm ho]
      · simp [hk]
  nodup := by
    intro o' l hl
    rw [get_assign] at hl
    split at hl
    · cases hl
      apply nodup_joined
      cases hget : r.idMap.get o with
      | none => exact List.nodup_nil
      | some l => exact h.nodup o l hget
    · exact (reflects_unassign h k (some o)).nodup o' l hl
  nonempty := by
    intro o' l hl
    rw [get_assign] at hl
    split at hl
    · cases hl
      exact List.ne_nil_of_mem (mem_joined.mpr (.inr rfl))
    · exact (reflects_unassign h k (some o)).nonempty o' l hl

/-- `remove_user_id`, `remove_device_id`. -/
theorem reflects_removeOwner (h : Reflects uid p r) (o : String) :
    Reflects uid (p.call uid (.removeOwner o)) (r.removeOwner o) where
  registered := h.registered
  named := h.named
  owner := by
    intro k o'
    simp only [Presence.call, removeOwner, Dict.get_erase]
    by_cases ho : o' = o
    · subst ho
      simp
    · simp only [ho, if_false, ← h.owner]
      by_cases hk : p.owner k = some o
      · simp [hk, Ne.symm ho]
      · simp [hk]
  nodup := by
    intro o' l hl
    simp only [removeOwner, Dict.get_erase] at hl
    split at hl
    · cases hl
    · exact h.nodup o' l hl
  nonempty := by
    intro o' l hl
    simp only [removeOwner, Dict.get_erase] at hl
    split at hl
    · cases hl
    · exact h.nonempty o' l hl

/-- At the start nobody is there. -/
theorem reflects_empty : Reflects uid .empty (.empty : Registry C) where
  registered := fun _ => rfl
  named := by
    intro k conn hk
    cases hk
  owner := by
    intro k o
    simp [Presence.empty, Registry.empty]
  nodup := by
    intro o l hl
    cases hl
  nonempty := by
    intro o l hl
    cases hl

/-! ### Sending -/

/-- The sockets under these uids are removed, one after the other. -/
def dropAll (ks : List String) (r : Registry C) : Registry C :=
  ks.foldl (fun r k => unassignConnection k none {r with connections := r.connections.erase k}) r

/-- Connections that drop out one by one drop out together. -/
theorem drop_drop (p : Presence C) (a b : String → Bool) : (p.drop a).drop b = p.drop fun k => a k || b k := by
  simp only [Presence.drop, Presence.mk.injEq]
  constructor
  · funext k
    by_cases ha : a k = true <;> by_cases hb : b k = true <;> simp [ha, hb]
  · funext k
    by_cases ha : a k = true <;> by_cases hb : b k = true <;> simp [ha, hb]

/-- The connections that refused a message leave the registry. -/
theorem reflects_dropAll (ks : List String) (h : Reflects uid p r) :
    Reflects uid (p.drop fun k => k ∈ ks) (dropAll ks r) := by
  induction ks generalizing p r with
  | nil =>
    have hnone : (p.drop fun k => k ∈ ([] : List String)) = p := by simp [Presence.drop]
    rw [hnone]
    exact h
  | cons k rest ih =>
    have hstep := ih (reflects_drop h k)
    rw [drop_drop] at hstep
    have hsame : (fun k' => decide (k' = k) || decide (k' ∈ rest)) = fun k' => decide (k' ∈ k :: rest) := by
      funext k'
      simp [List.mem_cons]
    rwa [hsame] at hstep

/-- The lists without the dropped uids; a list with nothing left is gone. -/
theorem get_dropAll (ks : List String) (h : Reflects uid p r) (o : String) :
    (dropAll ks r).idMap.get o = (r.idMap.get o).bind fun l => ofList (l.filter (· ∉ ks)) := by
  induction ks generalizing p r with
  | nil =>
    cases hget : r.idMap.get o with
    | none => exact hget
    | some l =>
      simp only [Option.bind_some, List.not_mem_nil, not_false_eq_true, decide_true, List.filter_true]
      rw [ofList_eq_some.mpr ⟨rfl, h.nonempty o l hget⟩]
      exact hget
  | cons k rest ih =>
    have hone : (unassignConnection k none {r with connections := r.connections.erase k}).idMap.get o =
        (r.unassignConnection k none).idMap.get o := rfl
    rw [show dropAll (k :: rest) r = dropAll rest _ from rfl, ih (reflects_drop h k), hone, get_unassign]
    cases hget : r.idMap.get o with
    | none => rfl
    | some l =>
      have hsplit : l.filter (· ∉ k :: rest) = (l.filter (· ≠ k)).filter (· ∉ rest) := by
        rw [List.filter_filter]
        apply List.filter_congr
        intro k' _
        simp [Bool.and_comm]
      rw [Option.bind_some, without_eq (h.nodup o l hget) (h.nonempty o l hget), if_neg (by simp),
        Option.bind_some, hsplit]
      cases l.filter (· ≠ k) with
      | nil => rfl
      | cons a rest' => rfl

/-- The uids of the sockets that are asked and refuse. -/
def refusing (uid : C → Option String) (raises : C → Bool) (source : String) (conns : List C) : List String :=
  (conns.filter fun conn => decide (uid conn ≠ some source) && raises conn).filterMap (Presence.named uid)

/-- To remove a connection is to drop it, from the registry and from its owner. -/
theorem removeConnection_ok {conn : C} {k : String} (hk : Presence.named uid conn = some k) (r : Registry C) :
    removeConnection uid conn r = .ok (dropAll [k] r) := by
  rw [removeConnection, assertUid_ok.mpr hk]
  rfl

/-- The loop asks every socket but the source, and drops those that refuse. -/
theorem sendEach_eq (raises : C → Bool) (source : String) {conns : List C}
    (hnamed : ∀ conn ∈ conns, ∃ k, Presence.named uid conn = some k) (r : Registry C) :
    sendEach uid raises source conns r = .ok
      (conns.filter fun conn => uid conn ≠ some source, dropAll (refusing uid raises source conns) r) := by
  induction conns generalizing r with
  | nil => rfl
  | cons conn rest ih =>
    rw [List.forall_mem_cons] at hnamed
    rw [sendEach]
    by_cases hsource : uid conn = some source
    · rw [if_pos hsource, ih hnamed.2]
      simp [refusing, hsource]
    · rw [if_neg hsource]
      obtain ⟨k, hk⟩ := hnamed.1
      by_cases hraises : raises conn = true
      · rw [if_pos hraises, removeConnection_ok hk]
        dsimp only [bind, Except.bind]
        rw [ih hnamed.2]
        show Except.ok _ = _
        simp [refusing, hsource, hraises, hk, dropAll]
      · rw [if_neg hraises, pure_bind]
        dsimp only
        rw [ih hnamed.2]
        simp [refusing, hsource, hraises]

theorem uid_of_named {conn : C} {k : String} (h : Presence.named uid conn = some k) : uid conn = some k := by
  unfold Presence.named at h
  exact (Option.filter_eq_some_iff.mp h).1

/-- The sockets of an owner are those registered under the uids assigned to it. -/
theorem mem_connectionsOf (h : Reflects uid p r) {owner : String} {conn : C} :
    conn ∈ r.connectionsOf owner ↔ ∃ k, p.owner k = some owner ∧ p.registered k = some conn := by
  unfold connectionsOf
  split
  · rename_i hnone
    simp [h.owner, hnone]
  · rename_i l hl
    simp [h.owner, hl, h.registered]

/-- Of an owner's connections no two have one uid. -/
theorem uids_connectionsOf (h : Reflects uid p r) (owner : String) : ((r.connectionsOf owner).map uid).Nodup := by
  unfold connectionsOf
  split
  · exact List.nodup_nil
  · rename_i l hl
    have huids : (l.filterMap r.connections.get).map uid =
        (l.filter fun k => (r.connections.get k).isSome).map some := by
      rw [List.map_filterMap, ← List.filterMap_eq_map, List.filterMap_filter]
      apply List.filterMap_congr
      intro k _
      rw [h.registered]
      cases hk : p.registered k with
      | none => simp
      | some conn => simp [uid_of_named (h.named k conn hk)]
    rw [huids]
    exact ((h.nodup owner l hl).filter _).map fun _ _ heq => Option.some.inj heq

theorem named_of_mem (h : Reflects uid p r) {owner : String} {conn : C} (hmem : conn ∈ r.connectionsOf owner) :
    ∃ k, Presence.named uid conn = some k := by
  obtain ⟨k, -, hk⟩ := (mem_connectionsOf h).mp hmem
  exact ⟨k, h.named k conn hk⟩

/-- Those that refuse get the message, and their loop raises. -/
theorem mem_refusing (h : Reflects uid p r) (raises : C → Bool) (owner source k : String) :
    k ∈ refusing uid raises source (r.connectionsOf owner) ↔ p.refuses raises owner source k = true := by
  simp only [refusing, List.mem_filterMap, List.mem_filter, mem_connectionsOf h, Bool.and_eq_true, decide_eq_true_eq,
    Presence.refuses, Presence.receives, Option.any_eq_true, Option.isSome_iff_exists]
  constructor
  · intro hex
    obtain ⟨conn, ⟨⟨k', howner, hreg⟩, hsource, hraises⟩, hname⟩ := hex
    rw [h.named k' conn hreg] at hname
    cases hname
    rw [uid_of_named (h.named k conn hreg)] at hsource
    exact ⟨⟨⟨⟨conn, hreg⟩, howner⟩, fun heq => hsource (heq ▸ rfl)⟩, conn, hreg, hraises⟩
  · intro hall
    obtain ⟨⟨⟨-, howner⟩, hsource⟩, conn, hreg, hraises⟩ := hall
    have hname := h.named k conn hreg
    refine ⟨conn, ⟨⟨k, howner, hreg⟩, ?_, hraises⟩, hname⟩
    rw [uid_of_named hname]
    exact fun heq => hsource (Option.some.inj heq)

/-- What a send does: it asks the sockets of its owner and drops those that refuse. -/
theorem send_eq (h : Reflects uid p r) (raises : C → Bool) (owner source : String) :
    r.send uid raises owner source = .ok
      ((r.connectionsOf owner).filter fun conn => uid conn ≠ some source,
        dropAll (refusing uid raises source (r.connectionsOf owner)) r) :=
  sendEach_eq raises source (fun _ hmem => named_of_mem h hmem) r

theorem drop_refusing (h : Reflects uid p r) (raises : C → Bool) (owner source : String) :
    (p.drop fun k => k ∈ refusing uid raises source (r.connectionsOf owner)) =
      p.drop fun k => p.refuses raises owner source k := by
  congr 1
  funext k
  rw [Bool.eq_iff_iff, decide_eq_true_eq]
  exact mem_refusing h raises owner source k

/-- Every call keeps the maps in step with what is in force. -/
theorem reflects_call (c : Call C) (h : Reflects uid p r) : Reflects uid (p.call uid c) (r.call uid c) := by
  cases c with
  | addConnection conn =>
    rw [Registry.call, addConnection, Presence.call]
    cases hk : Presence.named uid conn with
    | none =>
      obtain ⟨e, he⟩ := assertUid_error hk
      rw [he]
      exact h
    | some k =>
      rw [assertUid_ok.mpr hk]
      exact reflects_add h hk
  | removeConnection conn =>
    rw [Registry.call, removeConnection, Presence.call]
    cases hk : Presence.named uid conn with
    | none =>
      obtain ⟨e, he⟩ := assertUid_error hk
      rw [he]
      exact h
    | some k =>
      rw [assertUid_ok.mpr hk]
      exact reflects_drop h k
  | assign k o => exact reflects_assign h k o
  | unassignConnection k keep => exact reflects_unassign h k keep
  | removeOwner o => exact reflects_removeOwner h o
  | reset => exact reflects_empty
  | send raises owner source =>
    rw [Registry.call, send_eq h, Presence.call, ← drop_refusing h]
    exact reflects_dropAll _ h

/-- **Every run.** The registry says who is present. -/
theorem reflects_run (uid : C → Option String) (history : List (Call C)) :
    Reflects uid ((Presence.machine uid).run .empty history) ((Registry.machine uid).run .empty history) := by
  have hrun : ∀ {p : Presence C} {r : Registry C}, Reflects uid p r →
      Reflects uid ((Presence.machine uid).run p history) ((Registry.machine uid).run r history) := by
    induction history with
    | nil => exact fun h => h
    | cons c rest ih => exact fun h => ih (reflects_call c h)
  exact hrun reflects_empty

/-- Every uid is in one list at most and there once, and no list is empty. -/
structure OnceEach (r : Registry C) : Prop where
  nonempty : ∀ o l, r.idMap.get o = some l → l ≠ []
  once : ∀ o l, r.idMap.get o = some l → l.Nodup
  apart : ∀ o o' l l' k, r.idMap.get o = some l → r.idMap.get o' = some l' → k ∈ l → k ∈ l' → o = o'

/-- A send asks each socket it should once and no other, and leaves both maps as they were
but for the sockets that refused. -/
structure Exact (uid : C → Option String) (p : Presence C) (r : Registry C) (raises : C → Bool)
    (owner source : String) (asked : List C) (r' : Registry C) : Prop where
  once : (asked.map uid).Nodup
  those : ∀ conn, conn ∈ asked ↔ ∃ k, p.registered k = some conn ∧ p.receives owner source k = true
  connections : ∀ k, r'.connections.get k =
    if p.refuses raises owner source k then none else r.connections.get k
  lists : ∀ o, r'.idMap.get o =
    (r.idMap.get o).bind fun l => ofList (l.filter fun k => !p.refuses raises owner source k)

/-- So each connection has one owner and stands once in its list. -/
theorem onceEach_of_reflects (h : Reflects uid p r) : OnceEach r where
  nonempty := h.nonempty
  once := h.nodup
  apart := by
    intro o o' l l' k hl hl' hk hk'
    have hfirst : p.owner k = some o := (h.owner k o).mpr ⟨l, hl, hk⟩
    have hsecond : p.owner k = some o' := (h.owner k o').mpr ⟨l', hl', hk'⟩
    exact Option.some.inj (hfirst.symm.trans hsecond)

theorem exact_send (h : Reflects uid p r) (raises : C → Bool) (owner source : String) :
    ∃ asked r', r.send uid raises owner source = .ok (asked, r') ∧ Exact uid p r raises owner source asked r' := by
  refine ⟨_, _, send_eq h raises owner source, ?_⟩
  have hrefusing : ∀ k, decide (k ∈ refusing uid raises source (r.connectionsOf owner)) =
      p.refuses raises owner source k := by
    intro k
    rw [Bool.eq_iff_iff, decide_eq_true_eq]
    exact mem_refusing h raises owner source k
  constructor
  · exact (uids_connectionsOf h owner).sublist (List.Sublist.map uid List.filter_sublist)
  · intro conn
    rw [List.mem_filter, mem_connectionsOf h]
    constructor
    · intro hand
      obtain ⟨⟨k, howner, hreg⟩, hsource⟩ := hand
      rw [uid_of_named (h.named k conn hreg), decide_eq_true_eq] at hsource
      refine ⟨k, hreg, ?_⟩
      simp [Presence.receives, hreg, howner, show k ≠ source from fun heq => hsource (heq ▸ rfl)]
    · intro hex
      obtain ⟨k, hreg, hreceives⟩ := hex
      simp only [Presence.receives, Bool.and_eq_true, decide_eq_true_eq] at hreceives
      refine ⟨⟨k, hreceives.1.2, hreg⟩, ?_⟩
      rw [uid_of_named (h.named k conn hreg), decide_eq_true_eq]
      exact fun heq => hreceives.2 (Option.some.inj heq)
  · intro k
    have hdrop := (reflects_dropAll (refusing uid raises source (r.connectionsOf owner)) h).registered k
    rw [hdrop, h.registered]
    simp only [Presence.drop, hrefusing]
  · intro o
    rw [get_dropAll _ h]
    congr 1
    funext l
    congr 1
    apply List.filter_congr
    intro k _
    rw [decide_not, hrefusing]

/-- **After any calls on the two registries the lists are disjoint and none is empty, and a
message for a user, or for a device, is scheduled once on each of the sockets that are
registered and assigned to it, except its source, and on no other; the sockets whose
loop refuses are dropped from that registry, and nothing else changes.** -/
theorem messages_reach_their_owner (uid : C → Option String) (users devices : List (Call C)) :
    let p := (Presence.machine uid).run .empty users
    let q := (Presence.machine uid).run .empty devices
    let g : Sockets C := ⟨(Registry.machine uid).run .empty users, (Registry.machine uid).run .empty devices⟩
    OnceEach g.userConnections ∧ OnceEach g.deviceConnections ∧
    (∀ raises userId source, ∃ asked r', g.sendMessage uid raises userId source = .ok (asked, {g with userConnections := r'}) ∧
      Exact uid p g.userConnections raises userId source asked r') ∧
    ∀ raises deviceId source, ∃ asked r',
      g.sendMessageToDevice uid raises deviceId source = .ok (asked, {g with deviceConnections := r'}) ∧
      Exact uid q g.deviceConnections raises deviceId source asked r' := by
  intro p q g
  have husers : Reflects uid p g.userConnections := reflects_run uid users
  have hdevices : Reflects uid q g.deviceConnections := reflects_run uid devices
  refine ⟨onceEach_of_reflects husers, onceEach_of_reflects hdevices, ?_, ?_⟩
  · intro raises userId source
    obtain ⟨asked, r', hsend, hexact⟩ := exact_send husers raises userId source
    refine ⟨asked, r', ?_, hexact⟩
    rw [Sockets.sendMessage, hsend]
    rfl
  · intro raises deviceId source
    obtain ⟨asked, r', hsend, hexact⟩ := exact_send hdevices raises deviceId source
    refine ⟨asked, r', ?_, hexact⟩
    rw [Sockets.sendMessageToDevice, hsend]
    rfl

/-- A socket that was assigned again gets the messages of its new user only. -/
example :
    let r := (Registry.machine (C := String) some).run .empty
      [.addConnection "tab", .addConnection "phone", .assign "tab" "5", .assign "phone" "5", .assign "tab" "6"]
    (r.send some (fun _ => false) "5" "").map Prod.fst = .ok ["phone"] ∧
      (r.send some (fun _ => false) "6" "").map Prod.fst = .ok ["tab"] := by
  decide

end PyAppRunner.Wbcm
