import PyAppRunner.Bridge.KeyTrust

/-! Whom a connection acts as.

A token names a user, and what a lookup of it confirms is a function of the two
(`confirmed`). Between two messages the connection's user is what the last lookup of
the last token it looked at confirmed; a key's user stands for one message only. The
token of a message that fails before its token is looked at counts for nothing. -/
namespace PyAppRunner.Bridge
open Base ApiKeys

/-! ### Fan-out lists -/

section
variable {conn uid user : String} {m : String → List String}

/-- To unassign a connection adds it nowhere. -/
theorem count_unassign_le (keep : Option String) : (unassign conn keep m user).count uid ≤ (m user).count uid := by
  unfold unassign
  split
  · exact Nat.le_refl _
  · exact List.erase_sublist.count_le uid

/-- Once at most in each list, then in none but the one that is kept. -/
theorem not_mem_unassign {keep : Option String} (honce : (m user).count uid ≤ 1) (hkeep : keep ≠ some user) :
    uid ∉ unassign uid keep m user := by
  unfold unassign
  rw [if_neg hkeep, ← List.count_pos_iff, List.count_erase_self]
  omega

/-- Assigned to a user, a connection is nobody else's. -/
theorem eq_of_mem_assign {user' : String} (honce : (m user').count uid ≤ 1) (h : uid ∈ assign uid user m user') :
    user' = user := by
  by_contra hne
  unfold assign at h
  rw [if_neg hne] at h
  exact not_mem_unassign honce (by simpa using Ne.symm hne) h

/-- And it is in the list once. -/
theorem count_assign_le {user' : String} (honce : (m user').count uid ≤ 1) :
    (assign uid user m user').count uid ≤ 1 := by
  have hle : (unassign uid (some user) m user').count uid ≤ 1 := Nat.le_trans (count_unassign_le _) honce
  unfold assign
  split
  · split
    · exact hle
    · rename_i hnot
      rw [List.count_append, List.count_eq_zero_of_not_mem hnot]
      simp
  · exact hle

/-- What is done for another connection changes nothing for this one. -/
theorem count_assign_of_ne {user' : String} (hne : conn ≠ uid) :
    (assign conn user m user').count uid = (m user').count uid := by
  have hkeep : (unassign conn (some user) m user').count uid = (m user').count uid := by
    unfold unassign
    split
    · rfl
    · exact List.count_erase_of_ne (Ne.symm hne)
  unfold assign
  split
  · split
    · exact hkeep
    · rw [List.count_append, hkeep]
      simp [hne]
  · exact hkeep

end

/-! ### What a lookup confirms -/

/-- The active user with this public id. -/
def Db.activeUser (db : Db) (publicId : String) : Option User :=
  (db.users.find? fun u => u.publicId = publicId).filter User.active

section
variable (cfg : Config)

/-- The active user a verified token is for, when the lookup answered. An impersonation
token needs an active user behind it too. -/
def subject (look : Lookup) (payload : Payload) (isImpersonation : Bool) : Option User :=
  match look.db with
  | .failed _ => none
  | .ok db =>
    if cfg.isUuid payload.sub && (!isImpersonation || (db.activeUser payload.imp).isSome) then db.activeUser payload.sub
    else none

/-- The active user a token names, confirmed by a lookup. -/
def confirmed (token : String) (look : Lookup) : Option User :=
  match cfg.verify token .user look.wall with
  | some payload => subject cfg look payload false
  | none =>
    match cfg.verify token .impersonation look.wall with
    | some payload => subject cfg look payload true
    | none => none

/-- The user is active, the token is a valid one for them, and the lookup found them, and
whoever is behind an impersonation token, among the rows. -/
def Names (token : String) (look : Lookup) (u : User) : Prop :=
  u.active = true ∧ ∃ db payload, look.db = .ok db ∧ u ∈ db.users ∧ u.publicId = payload.sub ∧
    (cfg.verify token .user look.wall = some payload ∨ cfg.verify token .impersonation look.wall = some payload ∧
      ∃ behind ∈ db.users, behind.publicId = payload.imp ∧ behind.active = true)

variable {cfg}

/-- Who is looked up is in the table, by that public id, and active. -/
theorem Db.activeUser_spec {db : Db} {publicId : String} {u : User} (h : db.activeUser publicId = some u) :
    u ∈ db.users ∧ u.publicId = publicId ∧ u.active = true := by
  obtain ⟨hfound, hactive⟩ := Option.filter_eq_some_iff.mp h
  exact ⟨List.mem_of_find?_eq_some hfound, by simpa using List.find?_some hfound, hactive⟩

theorem subject_spec {look : Lookup} {payload : Payload} {imp : Bool} {u : User}
    (h : subject cfg look payload imp = some u) : ∃ db, look.db = .ok db ∧ u ∈ db.users ∧
      u.publicId = payload.sub ∧ u.active = true ∧
      (imp = true → ∃ behind ∈ db.users, behind.publicId = payload.imp ∧ behind.active = true) := by
  unfold subject at h
  split at h
  · cases h
  rename_i db hdb
  split at h
  · rename_i hcond
    obtain ⟨hin, hid, hactive⟩ := Db.activeUser_spec h
    refine ⟨db, hdb, hin, hid, hactive, ?_⟩
    intro himp
    simp only [himp, Bool.not_true, Bool.false_or, Bool.and_eq_true] at hcond
    obtain ⟨behind, hbehind⟩ := Option.isSome_iff_exists.mp hcond.2
    exact ⟨behind, Db.activeUser_spec hbehind⟩
  · cases h

/-- A token that is confirmed names its user. -/
theorem names_of_confirmed {token : String} {look : Lookup} {u : User} (h : confirmed cfg token look = some u) :
    Names cfg token look u := by
  unfold confirmed at h
  split at h
  · rename_i payload hverify
    obtain ⟨db, hdb, hin, hid, hactive, -⟩ := subject_spec h
    exact ⟨hactive, db, payload, hdb, hin, hid, .inl hverify⟩
  split at h
  · rename_i payload hverify
    obtain ⟨db, hdb, hin, hid, hactive, hbehind⟩ := subject_spec h
    exact ⟨hactive, db, payload, hdb, hin, hid, .inr ⟨hverify, hbehind rfl⟩⟩
  · cases h

/-- A lookup finds the token's user, or clears it, or fails and leaves it. -/
theorem triple_resolveUser (look : Lookup) (payload : Payload) (imp : Bool) (s₀ : Conn) :
    Triple (fun s => s = s₀) (resolveUser cfg look payload imp)
      (fun _ s => subject cfg look payload imp = none ∧ s = s₀.clearCurrentUser ∨
        ∃ u i e, subject cfg look payload imp = some u ∧
          s = ({s₀ with currentUserObj := some u, impersonator := i, tokenExpiresAt := e} : Conn).assignUser u)
      (fun s => subject cfg look payload imp = none ∧ s = s₀) := by
  unfold resolveUser
  cases huuid : cfg.isUuid payload.sub with
  | false =>
    refine Triple.modify fun s hs => .inl ⟨?_, by rw [hs]⟩
    unfold subject
    cases look.db <;> simp [huuid]
  | true =>
    simp only [Bool.not_true, Bool.false_eq_true, if_false]
    cases hdb : look.db with
    | failed f =>
      refine Triple.bind (Triple.raise (Q := fun _ _ => False) fun s hs => ?_) fun _ s hs => hs.elim
      exact ⟨by simp [subject, hdb], hs⟩
    | ok db =>
      refine Triple.bind (Triple.pure (Q := fun db' s => s = s₀ ∧ db' = db) fun s hs => ⟨hs, rfl⟩) fun db' => ?_
      intro s hs
      obtain ⟨rfl, rfl⟩ := hs
      dsimp only
      generalize hbehind : (if imp = true then _ else none : Option User) = behind
      have hsubject : subject cfg look payload imp = if imp && !(behind.any User.active) then none else
          (db'.users.find? fun u => u.publicId = payload.sub).filter User.active := by
        subst hbehind
        simp only [subject, hdb, huuid, Db.activeUser]
        cases imp with
        | false => simp
        | true => cases h : (db'.users.find? fun u => u.publicId = payload.imp).any User.active <;> simp [h]
      rw [hsubject]
      refine (?_ : Triple (fun s' => s' = s) _ _ _) s rfl
      split
      · exact Triple.modify fun s' hs => .inl ⟨rfl, by rw [hs]⟩
      split
      · rename_i hnone
        exact Triple.modify fun s' hs => .inl ⟨by rw [hnone]; rfl, by rw [hs]⟩
      rename_i user hsome
      split
      · rename_i hactive
        exact Triple.modify fun s' hs => .inr ⟨user, behind, some payload.exp, by simp [hsome, hactive], by rw [hs]⟩
      · rename_i hinactive
        exact Triple.modify fun s' hs => .inl ⟨by simp [hsome, hinactive], by rw [hs]⟩

/-- The connection with a token, about to look its user up. -/
def looking (token : String) (look : Lookup) (s : Conn) : Conn :=
  {s with
    impersonator := none, tokenExpiresAt := none, currentUserCache := none
    authToken := some token, lastLookup := some (token, look)}

variable (cfg) in
theorem triple_ensureUser (look : Lookup) (s₀ : Conn) {token : String}
    (htoken : (s₀.authToken <|> bearer s₀.authorization) = some token) :
    Triple (fun s => s = s₀) (ensureUser cfg look)
      (fun _ s => confirmed cfg token look = none ∧ s = (looking token look s₀).clearCurrentUser ∨
        ∃ u i e, confirmed cfg token look = some u ∧
          s = ({looking token look s₀ with
            currentUserObj := some u, impersonator := i, tokenExpiresAt := e} : Conn).assignUser u)
      (fun s => confirmed cfg token look = none ∧ s = looking token look s₀) := by
  refine Triple.bind (Triple.modify (Q := fun _ s =>
    s = {s₀ with impersonator := none, tokenExpiresAt := none, currentUserCache := none}) ?_) fun _ => ?_
  · intro s hs
    rw [hs]
  refine Triple.get fun s₁ h₁ => ?_
  subst h₁
  dsimp only
  rw [htoken]
  refine Triple.bind (Triple.modify (Q := fun _ s => s = looking token look s₀) ?_) fun _ => ?_
  · intro s hs
    rw [hs]
    rfl
  cases huser : cfg.verify token .user look.wall with
  | some payload =>
    have hconfirmed : confirmed cfg token look = subject cfg look payload false := by simp [confirmed, huser]
    rw [hconfirmed]
    exact triple_resolveUser look payload false _
  | none =>
    cases himp : cfg.verify token .impersonation look.wall with
    | some payload =>
      have hconfirmed : confirmed cfg token look = subject cfg look payload true := by simp [confirmed, huser, himp]
      rw [hconfirmed]
      exact triple_resolveUser look payload true _
    | none => exact Triple.modify fun s hs => .inl ⟨by simp [confirmed, huser, himp], by rw [hs]⟩

/-! ### What the connection knows about its user -/

/-- The user kept for the key is the one it acts as, and active. -/
def KeyUserRight (s : Conn) : Prop :=
  ∀ u r id, s.keyUserCache = some (some u) → s.currentKey = some r → r.actsAs = some id → u.id = id ∧ u.active = true

variable (cfg) in
/-- The connection, between two steps of a message, when `t` is the last token that was
looked at. -/
structure Identified (uid : String) (t : Option String) (s : Conn) : Prop where
  own : s.uid = some uid
  token : s.authToken = t
  cached : ∀ c, s.currentUserCache = some c → c = s.currentUserObj
  applied : s.keyUserApplied = true → t = none
  nobody : t = none → s.keyUserApplied = false → s.currentUserObj = none
  stands : ∀ token, t = some token → ∃ look, s.lastLookup = some (token, look) ∧
    s.currentUserObj = confirmed cfg token look ∧ (s.authLookupFailed = false → s.authCheckedAt = look.stamp)
  keyUser : KeyUserRight s
  once : ∀ user, (s.userIdMap user).count uid ≤ 1
  listed : ∀ user, uid ∈ s.userIdMap user → s.resolved = some user
  tokenListed : t ≠ none → ∀ user, uid ∈ s.userIdMap user → ∃ u, s.currentUserObj = some u ∧ toString u.id = user

variable {uid : String} {t : Option String} {s s' : Conn}

/-- Nothing was cached, so nothing wrong was. -/
theorem keyUserRight_of_none (h : s.keyUserCache = none) : KeyUserRight s := by
  intro u r id hcache
  rw [h] at hcache
  cases hcache

/-- Fewer lists, nothing else. -/
theorem Identified.of_fewer (h : Identified cfg uid t s) {m : String → List String}
    (hfewer : ∀ user, (m user).count uid ≤ (s.userIdMap user).count uid) :
    Identified cfg uid t {s with userIdMap := m} := by
  have hmem (user : String) (hin : uid ∈ m user) : uid ∈ s.userIdMap user := by
    rw [← List.count_pos_iff] at hin ⊢
    exact Nat.lt_of_lt_of_le hin (hfewer user)
  exact {h with
    once := fun user => Nat.le_trans (hfewer user) (h.once user)
    listed := fun user hin => h.listed user (hmem user hin)
    tokenListed := fun ht user hin => h.tokenListed ht user (hmem user hin)}

/-- The part of a connection that is about its user, but for the key's. -/
structure UserPart where
  uid : Option String
  applied : Bool
  token : Option String
  user : Option User
  cache : Option (Option User)
  failed : Bool
  checkedAt : Int
  lists : String → List String
  lookup : Option (String × Lookup)
  resolved : Option String

/-- What a connection knows of its user. -/
def Conn.userPart (s : Conn) : UserPart :=
  ⟨s.uid, s.keyUserApplied, s.authToken, s.currentUserObj, s.currentUserCache, s.authLookupFailed, s.authCheckedAt,
    s.userIdMap, s.lastLookup, s.resolved⟩

/-- It is all that matters here. -/
theorem Identified.of_userPart (h : Identified cfg uid t s) (hpart : s'.userPart = s.userPart)
    (hkey : KeyUserRight s') : Identified cfg uid t s' := by
  obtain ⟨huid, happlied, htoken, huser, hcache, hfailed, hat, hlists, hlookup, hresolved⟩ := UserPart.mk.inj hpart
  refine ⟨huid ▸ h.own, htoken ▸ h.token, ?_, happlied ▸ h.applied, ?_, ?_, hkey, hlists ▸ h.once, ?_, ?_⟩
  · rw [hcache, huser]
    exact h.cached
  · rw [happlied, huser]
    exact h.nobody
  · rw [hlookup, huser, hfailed, hat]
    exact h.stands
  · rw [hlists, hresolved]
    exact h.listed
  · rw [hlists, huser]
    exact h.tokenListed

/-! ### Before the token -/

/-- No key's user is applied. -/
def Plain (cfg : Config) (uid : String) (t : Option String) (s : Conn) : Prop :=
  Identified cfg uid t s ∧ s.keyUserApplied = false

theorem Plain.of_userPart (h : Plain cfg uid t s) (hpart : s'.userPart = s.userPart) (hkey : KeyUserRight s') :
    Plain cfg uid t s' :=
  ⟨h.1.of_userPart hpart hkey, (congrArg UserPart.applied hpart).trans h.2⟩

/-- At the start of a message the user of the key is dropped. -/
theorem plain_dropApiKeyUser (h : Identified cfg uid t s) : Plain cfg uid t s.dropApiKeyUser := by
  unfold Conn.dropApiKeyUser
  split
  · rename_i happlied
    have ht := h.applied happlied
    refine ⟨{h with
      cached := fun c hc => by cases hc
      applied := fun hf => by cases hf
      nobody := fun _ _ => rfl
      stands := fun token htoken => by rw [ht] at htoken; cases htoken
      tokenListed := fun hne => absurd ht hne
      keyUser := h.keyUser}, rfl⟩
  · rename_i hnot
    exact ⟨h, by simpa using hnot⟩

/-- A connection that is nobody's and is made nobody's leaves the lists it is in. -/
theorem plain_clearCurrentUser (h : Plain cfg uid none s) : Plain cfg uid none s.clearCurrentUser := by
  have hfewer := h.1.of_fewer (m := unassign uid none s.userIdMap) fun user => count_unassign_le none
  refine Plain.of_userPart (s := {s with userIdMap := unassign uid none s.userIdMap}) ⟨hfewer, h.2⟩ ?_ h.1.keyUser
  simp [Conn.userPart, Conn.clearCurrentUser, h.1.own, h.1.nobody rfl h.2]

/-- A key that is lost takes its user with it. -/
theorem plain_loseKey (h : Plain cfg uid t s) : Plain cfg uid t (loseKey s) := by
  have hkeyless : Plain cfg uid t
      {s with keyValid := some false, keyVerified := false, currentKey := none, keyRefused := true} :=
    h.of_userPart rfl fun u r id _ hr => by cases hr
  simp only [loseKey]
  split
  · rename_i htoken
    have ht : t = none := h.1.token ▸ (by simpa using htoken)
    subst ht
    exact plain_clearCurrentUser hkeyless
  · exact hkeyless

theorem keepsPlain_hasValidApiKey (check : KeyCheck) (key : Option String) :
    Keeps (Plain cfg uid t) (hasValidApiKey cfg check key) := by
  intro s hs
  refine (triple_hasValidApiKey check key s).weaken (fun _ h => h) ?_ (fun _ heq => heq ▸ hs) s rfl
  intro status s' h
  obtain ⟨-, rfl⟩ | ⟨-, r, -, -, -, rfl⟩ := h
  · exact hs
  · exact hs.of_userPart rfl (keyUserRight_of_none rfl)

/-- The recheck of the key does not touch the user of the token. -/
theorem keepsPlain_recheckApiKey (env : Env) : Keeps (Plain cfg uid t) (recheckApiKey cfg env) := by
  refine Keeps.get fun s => ?_
  split
  · exact Keeps.pure
  split
  · exact Keeps.pure
  refine Keeps.bind ?_ fun refusal => ?_
  · unfold keyRefusal
    split
    · refine Keeps.bind (keeps_read _) fun db => ?_
      refine Triple.bind (Q := fun _ s => Plain cfg uid t s ∧ s.keyUserCache = none)
        (Triple.modify fun s hs => ⟨hs.of_userPart rfl (keyUserRight_of_none rfl), rfl⟩) fun _ => ?_
      split
      · exact Triple.pure fun s hs => hs.1
      · refine Triple.bind (Triple.modify fun s hs => ?_) fun _ => Keeps.pure
        exact hs.1.of_userPart rfl (keyUserRight_of_none hs.2)
    · exact Keeps.pure
  · split
    · exact Keeps.pure
    · exact Keeps.bind (Keeps.modify fun s hs => plain_loseKey hs) fun _ => Keeps.pure

theorem keepsPlain_requireKey (env : Env) (msg : Message) (refusal : Option String) :
    Keeps (Plain cfg uid t) (requireKey cfg env msg refusal) := by
  unfold requireKey
  split
  · exact Keeps.raise
  refine Keeps.bind (Keeps.get fun s => ?_) fun _ => Keeps.get fun s => ?_
  · split
    · split
      · exact Keeps.pure
      · refine Keeps.bind (keepsPlain_hasValidApiKey _ _) fun status => ?_
        split
        · exact Keeps.modify fun s hs => hs.of_userPart rfl hs.1.keyUser
        · exact Keeps.modify fun s hs => hs.of_userPart rfl hs.1.keyUser
    · exact Keeps.pure
  · split
    · exact Keeps.pure
    · exact Keeps.raise

/-- Up to its token, a message changes nothing about the user but to drop the key's. -/
theorem triple_beforeToken_plain (env : Env) (msg : Message) :
    Triple (Identified cfg uid t) (beforeToken cfg env msg) (fun _ => Plain cfg uid t) (Identified cfg uid t) := by
  have hrest {α : Type} {m : Method α} (h : Keeps (Plain cfg uid t) m) :
      Triple (Plain cfg uid t) m (fun _ => Plain cfg uid t) (Identified cfg uid t) :=
    h.weaken (fun _ hs => hs) (fun _ _ hs => hs) fun _ hs => hs.1
  refine Triple.bind (Q := fun _ => Plain cfg uid t) (Triple.modify fun s hs => plain_dropApiKeyUser hs) fun _ => ?_
  refine Triple.bind (hrest (keeps_addressed msg)) fun target => ?_
  refine Triple.bind (hrest (keepsPlain_recheckApiKey env)) fun refusal => ?_
  exact Triple.bind (hrest (Keeps.when (keepsPlain_requireKey env msg refusal))) fun _ => hrest Keeps.pure

/-! ### The token -/

/-- The token's last lookup was made during this message, or the reading kept of when it
was made is recent. -/
def Settled (cfg : Config) (env : Env) (t : Option String) (s : Conn) : Prop :=
  ∀ token look, t = some token → s.lastLookup = some (token, look) →
    look = env.lookup ∨ env.authNow - look.stamp < cfg.recheckSeconds

/-- Nobody was confirmed: the connection is nobody's, and in no list. -/
theorem plain_refused {token : String} {look : Lookup} (h : Plain cfg uid t s)
    (hnone : confirmed cfg token look = none) (at' : Int) (failed : Bool) (hat : failed = false → at' = look.stamp) :
    Plain cfg uid (some token)
      {(looking token look s).clearCurrentUser with authCheckedAt := at', authLookupFailed := failed} := by
  have hlists : ((looking token look s).clearCurrentUser).userIdMap = unassign uid none s.userIdMap := by
    simp [Conn.clearCurrentUser, looking, h.1.own]
  have hout (user : String) : uid ∉ unassign uid none s.userIdMap user := not_mem_unassign (h.1.once user) (by simp)
  refine ⟨⟨h.1.own, rfl, ?_, ?_, ?_, ?_, h.1.keyUser, ?_, ?_, ?_⟩, h.2⟩
  · intro c hc
    cases hc
  · intro happlied
    exact absurd (h.2.symm.trans happlied) (by simp)
  · intro hnone
    cases hnone
  · intro token' htoken
    cases htoken
    exact ⟨look, rfl, hnone.symm, hat⟩
  · intro user
    rw [hlists]
    exact Nat.le_trans (count_unassign_le none) (h.1.once user)
  · intro user hin
    rw [hlists] at hin
    exact absurd hin (hout user)
  · intro _ user hin
    rw [hlists] at hin
    exact absurd hin (hout user)

/-- A user was confirmed: the connection is theirs, and in no list but theirs. -/
theorem plain_confirmed {token : String} {look : Lookup} {u : User} (h : Plain cfg uid t s)
    (hsome : confirmed cfg token look = some u) (i : Option User) (e : Option Int) :
    Plain cfg uid (some token)
      {({looking token look s with currentUserObj := some u, impersonator := i, tokenExpiresAt := e} :
        Conn).assignUser u with authCheckedAt := look.stamp, authLookupFailed := false} := by
  have hlists : (({looking token look s with currentUserObj := some u, impersonator := i, tokenExpiresAt := e} :
      Conn).assignUser u).userIdMap = assign uid (toString u.id) s.userIdMap := by
    simp [Conn.assignUser, looking, h.1.own]
  have hin' (user : String) (hin : uid ∈ assign uid (toString u.id) s.userIdMap user) : user = toString u.id :=
    eq_of_mem_assign (h.1.once user) hin
  refine ⟨⟨h.1.own, rfl, ?_, ?_, ?_, ?_, h.1.keyUser, ?_, ?_, ?_⟩, h.2⟩
  · intro c hc
    cases hc
  · intro happlied
    exact absurd (h.2.symm.trans happlied) (by simp)
  · intro hnone
    cases hnone
  · intro token' htoken
    cases htoken
    exact ⟨look, rfl, hsome.symm, fun _ => rfl⟩
  · intro user
    rw [hlists]
    exact count_assign_le (h.1.once user)
  · intro user hin
    rw [hlists] at hin
    rw [hin' user hin]
    rfl
  · intro _ user hin
    rw [hlists] at hin
    exact ⟨u, rfl, (hin' user hin).symm⟩

/-- **A new token**: its user is looked up, or the message is refused. -/
theorem triple_reloadToken (env : Env) (token : String) :
    Triple (Plain cfg uid t) (reloadToken cfg env token)
      (fun _ s => Plain cfg uid (some token) s ∧ Settled cfg env (some token) s)
      (Plain cfg uid (some token)) := by
  refine Triple.get fun s₀ h => ?_
  split
  · rename_i hkept
    simp only [Bool.and_eq_true, decide_eq_true_eq, Bool.not_eq_true', authStale, Bool.or_eq_false_iff] at hkept
    -- The same token, looked up a short while ago: what stands is kept.
    obtain ⟨htoken, ⟨hfailed, -⟩, hrecent⟩ := hkept
    have ht : t = some token := h.1.token.symm.trans htoken.symm
    subst ht
    refine Triple.pure fun s hs => ?_
    subst hs
    refine ⟨h, ?_⟩
    intro token' look htoken' hlook
    cases htoken'
    obtain ⟨look', hlook', -, hat⟩ := h.1.stands token rfl
    rw [hlook] at hlook'
    cases hlook'
    rw [hat hfailed] at hrecent
    exact .inr (by simpa using hrecent)
  -- Otherwise the lookup decides, and where it fails the connection has no user.
  · refine Triple.bind (Triple.modify (Q := fun _ s => s = {s₀ with authToken := some token}) ?_) fun _ => ?_
    · intro s hs
      rw [hs]
    have hlookup := triple_ensureUser cfg env.lookup {s₀ with authToken := some token} rfl
    have hplain (s : Conn) (hs : confirmed cfg token env.lookup = none ∧
        s = (looking token env.lookup s₀).clearCurrentUser ∨ ∃ u i e, confirmed cfg token env.lookup = some u ∧
          s = ({looking token env.lookup s₀ with
            currentUserObj := some u, impersonator := i, tokenExpiresAt := e} : Conn).assignUser u) :
        Plain cfg uid (some token) {s with authCheckedAt := env.lookup.stamp, authLookupFailed := false} ∧
        s.lastLookup = some (token, env.lookup) := by
      obtain ⟨hnone, rfl⟩ | ⟨u, i, e, hsome, rfl⟩ := hs
      · exact ⟨plain_refused h hnone _ _ fun _ => rfl, rfl⟩
      · exact ⟨plain_confirmed h hsome i e, rfl⟩
    refine Triple.bind (Q := fun _ s => Plain cfg uid (some token) {s with authLookupFailed := false} ∧
      s.lastLookup = some (token, env.lookup)) ?_ fun _ => ?_
    · refine Triple.onRaise (Triple.bind hlookup fun _ => Triple.modify hplain) ?_
      intro s hs
      obtain ⟨hnone, rfl⟩ := hs
      exact plain_refused h hnone s₀.authCheckedAt true (by simp)
    · refine Triple.modify fun s hs => ⟨hs.1, ?_⟩
      intro token' look htoken hlook
      cases htoken
      have heq := hs.2.symm.trans hlook
      cases heq
      exact .inl rfl

/-- **The token that stands** is looked up again when it is due. -/
theorem triple_reloadStanding (env : Env) (msg : Message) :
    Triple (Plain cfg uid t) (reloadStanding cfg env msg)
      (fun _ s => Plain cfg uid (msg.presents <|> t) s ∧ Settled cfg env (msg.presents <|> t) s)
      (Plain cfg uid (msg.presents <|> t)) := by
  refine Triple.get fun s₀ h => ?_
  rw [h.1.token]
  cases htoken : (msg.presents <|> t) with
  | none =>
    have ht : t = none := by
      cases hm : msg.presents with
      | none => simpa [hm] using htoken
      | some token => simp [hm] at htoken
    subst ht
    exact Triple.pure fun s hs => ⟨hs ▸ h, fun token look hnone => by cases hnone⟩
  | some token => exact (triple_reloadToken env token).weaken (fun s hs => hs ▸ h) (fun _ _ hs => hs) fun _ hs => hs

/-! ### The key's user -/

/-- The current user is the one that was looked up. -/
theorem Identified.currentUser_eq (h : Identified cfg uid t s) : s.currentUser = s.currentUserObj := by
  unfold Conn.currentUser
  cases hc : s.currentUserCache with
  | none => rfl
  | some c => exact h.cached c hc

/-- Who is to act on a call: with a token, whoever its recent lookup confirmed; without
one, the user of the key that the call needed, or nobody. -/
def ActsAs (cfg : Config) (env : Env) (t : Option String) (requiresKey : Bool) (s : Conn) : Prop :=
  match t with
  | some token => ∃ look, s.lastLookup = some (token, look) ∧ s.currentUser = confirmed cfg token look ∧
    (∀ u, s.currentUser = some u → Names cfg token look u) ∧
    (look = env.lookup ∨ env.authNow - look.stamp < cfg.recheckSeconds)
  | none =>
    match if requiresKey then s.currentKey.bind KeyRecord.actsAs else none with
    | some id => ∃ u, s.currentUser = some u ∧ u.id = id ∧ u.active = true
    | none => s.currentUser = none

/-- Past the token, the connection acts as its user, or as nobody yet. -/
theorem Plain.actsAs {env : Env} {requiresKey : Bool} (h : Plain cfg uid t s) (hsettled : Settled cfg env t s)
    (hkeyless : t = none → (if requiresKey then s.currentKey.bind KeyRecord.actsAs else none) = none) :
    ActsAs cfg env t requiresKey s := by
  unfold ActsAs
  rw [h.1.currentUser_eq]
  cases t with
  | some token =>
    obtain ⟨look, hlook, huser, -⟩ := h.1.stands token rfl
    refine ⟨look, hlook, huser, ?_, hsettled token look rfl hlook⟩
    intro u hu
    exact names_of_confirmed (huser.symm.trans hu)
  | none =>
    rw [hkeyless rfl]
    exact h.1.nobody rfl h.2

/-- The user of a key is active, and the one whose id the key has. -/
theorem loadUserById_spec {id : Nat} {db : Db} {u : User} (h : loadUserById id db = some u) :
    u.id = id ∧ u.active = true := by
  obtain ⟨hfound, hactive⟩ := Option.filter_eq_some_iff.mp h
  exact ⟨by simpa using List.find?_some hfound, hactive⟩

theorem triple_apiKeyUser (env : Env) {s₀ : Conn} {r : KeyRecord} {id : Nat} (h : Plain cfg uid none s₀)
    (hr : s₀.currentKey = some r) (hid : r.actsAs = some id) :
    Triple (fun s => s = s₀) (apiKeyUser env id)
      (fun user s => Plain cfg uid none s ∧ s.currentKey = some r ∧ ∀ u, user = some u → u.id = id ∧ u.active = true)
      (Plain cfg uid none) := by
  refine Triple.get fun s₁ h₁ => ?_
  subst h₁
  split
  · rename_i user hcache
    refine Triple.pure fun s hs => ?_
    subst hs
    refine ⟨h, hr, ?_⟩
    intro u hu
    exact h.1.keyUser u r id (hu ▸ hcache) hr hid
  · refine Triple.bind ((triple_read env.keyUser s₁).weaken (fun _ hs => hs) (fun _ _ hs => hs)
      fun _ hs => hs ▸ h) fun db => ?_
    refine Triple.bind (Triple.modify (Q := fun _ s => Plain cfg uid none s ∧ s.currentKey = some r) ?_)
      fun _ => Triple.pure fun s hs => ⟨hs.1, hs.2, fun u hu => loadUserById_spec hu⟩
    intro s hs
    obtain ⟨rfl, -⟩ := hs
    refine ⟨h.of_userPart rfl ?_, hr⟩
    intro u r' id' hu hr' hid'
    rw [hr] at hr'
    cases hr'
    rw [hid] at hid'
    cases hid'
    exact loadUserById_spec (Option.some.inj hu)

/-- The key's user stands for this message, and its list is the connection's. -/
theorem identified_applied {u : User} (h : Plain cfg uid none s) :
    Identified cfg uid none
      (({s with currentUserObj := some u, currentUserCache := none, keyUserApplied := true} : Conn).assignUser u) := by
  have hlists : (({s with currentUserObj := some u, currentUserCache := none, keyUserApplied := true} :
      Conn).assignUser u).userIdMap = assign uid (toString u.id) s.userIdMap := by
    simp [Conn.assignUser, h.1.own]
  refine ⟨h.1.own, h.1.token, ?_, fun _ => rfl, ?_, ?_, h.1.keyUser, ?_, ?_, fun hne => absurd rfl hne⟩
  · intro c hc
    cases hc
  · intro _ happlied
    cases happlied
  · intro token htoken
    cases htoken
  · intro user
    rw [hlists]
    exact count_assign_le (h.1.once user)
  · intro user hin
    rw [hlists] at hin
    rw [eq_of_mem_assign (h.1.once user) hin]
    rfl

/-- **The user of the key** is taken where no token names one. -/
theorem triple_applyApiKeyUser (env : Env) :
    Triple (fun s => Plain cfg uid t s ∧ Settled cfg env t s) (applyApiKeyUser env)
      (fun _ s => Identified cfg uid t s ∧ ActsAs cfg env t true s) (Identified cfg uid t) := by
  refine Triple.get fun s₀ h => ?_
  split
  · rename_i id hid htoken
    have ht : t = none := h.1.1.token.symm.trans htoken
    subst ht
    obtain ⟨r, hr, hacts⟩ := Option.bind_eq_some_iff.mp hid
    refine Triple.bind ((triple_apiKeyUser env h.1 hr hacts).weaken (fun _ hs => hs) (fun _ _ hs => hs)
      fun _ hs => hs.1) fun user => ?_
    split
    · refine Triple.bind (Triple.modify (Q := fun _ => Identified cfg uid none) fun s hs => ?_)
        fun _ => Triple.raise fun _ hs => hs
      exact (plain_clearCurrentUser hs.1).1
    · rename_i u
      refine Triple.modify fun s hs => ?_
      obtain ⟨hplain, hkey, huser⟩ := hs
      have happlied := identified_applied (u := u) hplain
      refine ⟨happlied, ?_⟩
      have hbind : s.currentKey.bind KeyRecord.actsAs = some id := by simp [hkey, hacts]
      unfold ActsAs
      rw [happlied.currentUser_eq]
      simp only [Conn.assignUser, if_true, hbind]
      exact ⟨u, rfl, huser u rfl⟩
  · rename_i hnone
    refine Triple.pure fun s hs => ?_
    subst hs
    refine ⟨h.1.1, h.1.actsAs h.2 ?_⟩
    intro ht
    cases hid : s.currentKey.bind KeyRecord.actsAs with
    | none => rfl
    | some id => exact (hnone id hid (h.1.1.token.trans ht)).elim

/-! ### Whole messages -/

/-- A token counts once the message that brought it came as far as looking at it. -/
def tokenAfter (cfg : Config) (t : Option String) : Input → Conn → Option String
  | .frame env (some msg), s => if (beforeToken cfg env msg s).2.toBool then msg.presents <|> t else t
  | _, _ => t

/-- What follows once its token is reached. -/
theorem triple_onMessage_rest (env : Env) (msg : Message) (service : String) (requiresKey : Bool) :
    Triple (Plain cfg uid t) (do
        reloadStanding cfg env msg
        let action ← requestedAction msg
        Program.when requiresKey (enforceApiKey env service action)
        pure (⟨service, action, requiresKey⟩ : Passed))
      (fun passed s => Identified cfg uid (msg.presents <|> t) s ∧
        ActsAs cfg env (msg.presents <|> t) passed.requiresKey s)
      (Identified cfg uid (msg.presents <|> t)) := by
  refine Triple.bind ((triple_reloadStanding env msg).weaken (fun _ hs => hs) (fun _ _ hs => hs) fun _ hs => hs.1)
    fun _ => ?_
  refine Triple.bind ((keeps_requestedAction msg).weaken (fun _ hs => hs) (fun _ _ hs => hs) fun _ hs => hs.1.1)
    fun action => ?_
  refine Triple.bind (Q := fun _ s => Identified cfg uid (msg.presents <|> t) s ∧
    ActsAs cfg env (msg.presents <|> t) requiresKey s) (Triple.when ?_ ?_) fun _ => Triple.pure fun _ hs => hs
  · intro hreq
    subst hreq
    refine Triple.get fun s₀ h => ?_
    split
    · exact Triple.raise fun s hs => hs ▸ h.1.1
    · exact (triple_applyApiKeyUser env).weaken (fun s hs => hs ▸ h) (fun _ _ hs => hs) fun _ hs => hs
  · intro hno s hs
    exact ⟨hs.1.1, hs.1.actsAs hs.2 fun _ => by simp [hno]⟩

theorem Identified.cacheUser (h : Identified cfg uid t s) : Identified cfg uid t s.cacheUser :=
  {h with cached := fun _ hc => (Option.some.inj hc).symm.trans h.currentUser_eq}

theorem triple_handle_identified (env : Env) (frame : Option Message) (h : Identified cfg uid t s) :
    Triple (fun s' => s' = s) (handle cfg env frame)
      (fun passed s' => Identified cfg uid (tokenAfter cfg t (.frame env frame) s) s' ∧
        ActsAs cfg env (tokenAfter cfg t (.frame env frame) s) passed.requiresKey s')
      (Identified cfg uid (tokenAfter cfg t (.frame env frame) s)) := by
  refine triple_handle env frame ?_ ?_ ?_
  · intro hnone s' hs
    subst hnone hs
    exact h
  · intro msg hmsg
    subst hmsg
    obtain ⟨hok, herr⟩ := triple_beforeToken_plain env msg s h
    refine Triple.bind_run ?_ ?_
    · -- what is refused before its token is looked at leaves the token as it was
      intro s' f heq
      have ht : tokenAfter cfg t (.frame env (some msg)) s = t := by simp [tokenAfter, heq, Except.toBool]
      rw [ht]
      exact herr s' f heq
    · intro s' target heq
      have ht : tokenAfter cfg t (.frame env (some msg)) s = (msg.presents <|> t) := by
        simp [tokenAfter, heq, Except.toBool]
      rw [ht]
      exact (triple_onMessage_rest env msg target.1 target.2).weaken (fun _ hs => hs ▸ hok s' target heq)
        (fun _ _ hs => hs) fun _ hs => hs
  · intro s' passed hs
    have hcache := hs.1.cacheUser
    refine ⟨hcache, ?_⟩
    have hsame : s'.cacheUser.currentUser = s'.currentUser := rfl
    unfold ActsAs
    rw [hsame]
    exact hs.2

/-- **One input.** -/
theorem step_identified (i : Input) (h : Identified cfg uid t s) :
    Identified cfg uid (tokenAfter cfg t i s) ((machine cfg).step i s) := by
  cases i with
  | frame env frame => exact (triple_handle_identified env frame h).state (fun _ _ hs => hs.1) rfl
  | otherAssigned conn user =>
    simp only [machine, step, tokenAfter]
    split
    · exact h
    · rename_i hne
      refine h.of_fewer fun user' => Nat.le_of_eq (count_assign_of_ne ?_)
      intro hconn
      exact hne (h.own.trans (congrArg some hconn.symm))
  | removed conn => exact h.of_fewer fun user => count_unassign_le none
  | reset => exact h.of_fewer fun user => Nat.zero_le _

/-- The last token that was looked at, in a run from a handshake that brought `t`. -/
def lastToken (cfg : Config) (t : Option String) (s : Conn) : List Input → Option String
  | [] => t
  | i :: rest => lastToken cfg (tokenAfter cfg t i s) ((machine cfg).step i s) rest

/-- **Every run.** -/
theorem run_identified (h : Identified cfg uid t s) (inputs : List Input) :
    Identified cfg uid (lastToken cfg t s inputs) ((machine cfg).run s inputs) := by
  induction inputs generalizing s t with
  | nil => exact h
  | cons i rest ih => exact ih (step_identified i h)

/-! ### Whole runs -/

/-- Nothing was looked up for anybody yet, and the connection is in no list. -/
theorem plain_opened {token : Option String} {m : String → List String} (hfresh : ∀ user, uid ∉ m user)
    (hown : s.uid = some uid) (htoken : s.authToken = token) (hcache : s.currentUserCache = none)
    (happlied : s.keyUserApplied = false) (hkey : s.keyUserCache = none) (hlists : s.userIdMap = m)
    (hnobody : token = none → s.currentUserObj = none)
    (hstands : ∀ tok, token = some tok → ∃ look, s.lastLookup = some (tok, look) ∧
      s.currentUserObj = confirmed cfg tok look ∧ s.authCheckedAt = look.stamp) : Plain cfg uid token s := by
  subst hlists
  refine ⟨⟨hown, htoken, ?_, ?_, fun ht _ => hnobody ht, ?_, keyUserRight_of_none hkey, ?_, ?_, ?_⟩, happlied⟩
  · intro c hc
    rw [hcache] at hc
    cases hc
  · intro h
    rw [happlied] at h
    cases h
  · intro tok htok
    obtain ⟨look, hlook, huser, hat⟩ := hstands tok htok
    exact ⟨look, hlook, huser, fun _ => hat⟩
  · intro user
    rw [List.count_eq_zero_of_not_mem (hfresh user)]
    exact Nat.zero_le 1
  · intro user hin
    exact absurd hin (hfresh user)
  · intro _ user hin
    exact absurd hin (hfresh user)

variable (cfg) in
theorem triple_opened {m : String → List String} (hfresh : ∀ user, uid ∉ m user) (authorization : String)
    (look : Lookup) :
    Triple (fun s => s = .initial authorization m) (ensureCurrentUser cfg look)
      (fun _ s => Plain cfg uid (bearer authorization) {s with uid := some uid}) (fun _ => True) := by
  cases htoken : bearer authorization with
  | none =>
    have hnobody : Triple (fun s => s = .initial authorization m) (ensureUser cfg look)
        (fun _ s => s = .initial authorization m) (fun _ => True) := by
      refine Triple.bind (Q := fun _ s => s = .initial authorization m)
        (Triple.modify fun s hs => by rw [hs]; rfl) fun _ => Triple.get fun s hs => ?_
      subst hs
      have hnone : ((Conn.initial authorization m).authToken <|> bearer authorization) = none := htoken
      simp only [Conn.initial] at hnone ⊢
      rw [hnone]
      exact Triple.modify fun s hs => by rw [hs]; rfl
    refine Triple.bind hnobody fun _ => ?_
    refine Triple.modify fun s hs => ?_
    subst hs
    exact plain_opened hfresh rfl rfl rfl rfl rfl rfl (fun _ => rfl) fun tok htok => by cases htok
  | some token =>
    have hlookup := triple_ensureUser cfg look (.initial authorization m) htoken
    refine Triple.bind (hlookup.weaken (fun _ hs => hs) (fun _ _ hs => hs) fun _ _ => trivial)
      fun _ => Triple.modify fun s hs => ?_
    obtain ⟨hnone, rfl⟩ | ⟨u, i, e, hsome, rfl⟩ := hs
    · refine plain_opened hfresh rfl rfl rfl rfl rfl rfl (fun ht => by cases ht) ?_
      intro tok htok
      cases htok
      exact ⟨look, rfl, hnone.symm, rfl⟩
    · refine plain_opened hfresh rfl rfl rfl rfl rfl rfl (fun ht => by cases ht) ?_
      intro tok htok
      cases htok
      exact ⟨look, rfl, hsome.symm, rfl⟩

theorem connect_identified {hs : Handshake} {m : String → List String} (hfresh : ∀ user, uid ∉ m user)
    (h : connect cfg uid hs m = some s) : Identified cfg uid (bearer hs.authorization) s := by
  unfold connect at h
  rcases heq : ensureCurrentUser cfg hs.lookup (.initial hs.authorization m) with ⟨s₁, f | u⟩
  · simp [heq] at h
  have hfirst := (triple_opened cfg hfresh hs.authorization hs.lookup _ rfl).1 s₁ u heq
  simp only [heq] at h
  rcases heq' : hasValidApiKey cfg hs.check hs.apiKey {s₁ with uid := some uid} with ⟨s₂, f | status⟩
  · simp [heq'] at h
  have hsecond := (keepsPlain_hasValidApiKey hs.check hs.apiKey _ hfirst).1 s₂ status heq'
  simp only [heq'] at h
  cases status with
  | none =>
    cases h
    exact hsecond.1.of_userPart rfl hsecond.1.keyUser
  | some refusal =>
    dsimp only at h
    split at h
    · cases h
      exact hsecond.1.of_userPart rfl hsecond.1.keyUser
    · cases h
      exact hsecond.1.of_userPart rfl hsecond.1.keyUser

/-- The token that counts is the last that was presented. -/
theorem lastToken_append (cfg : Config) (t : Option String) (s : Conn) (inputs : List Input) (i : Input) :
    lastToken cfg t s (inputs ++ [i]) =
      tokenAfter cfg (lastToken cfg t s inputs) i ((machine cfg).run s inputs) := by
  induction inputs generalizing s t with
  | nil => rfl
  | cons j rest ih => exact ih _ _

/-- **A connection acts as its last token's user or nobody.** Without a token it acts as
the user of the key that the call needed. It is never listed under a user other than
the last one it resolved, and is in no list when the last lookup of its token
confirmed nobody. -/
theorem acts_as_last_token {hs : Handshake} {m : String → List String} {s₀ : Conn} (hfresh : ∀ user, uid ∉ m user)
    (hopen : connect cfg uid hs m = some s₀) (inputs : List Input) :
    (∀ env frame s passed, handle cfg env frame ((machine cfg).run s₀ inputs) = (s, .ok passed) →
      ActsAs cfg env (lastToken cfg (bearer hs.authorization) s₀ (inputs ++ [.frame env frame])) passed.requiresKey s) ∧
    (∀ user, uid ∈ ((machine cfg).run s₀ inputs).userIdMap user →
      ((machine cfg).run s₀ inputs).resolved = some user) ∧
    (∀ token, lastToken cfg (bearer hs.authorization) s₀ inputs = some token →
      ∃ look, ((machine cfg).run s₀ inputs).lastLookup = some (token, look) ∧
        (confirmed cfg token look = none → ∀ user, uid ∉ ((machine cfg).run s₀ inputs).userIdMap user)) := by
  have h := run_identified (connect_identified hfresh hopen) inputs
  refine ⟨?_, h.listed, ?_⟩
  · intro env frame s passed hpass
    rw [lastToken_append]
    exact ((triple_handle_identified env frame h _ rfl).1 s passed hpass).2
  · intro token htoken
    obtain ⟨look, hlook, huser, -⟩ := h.stands token htoken
    refine ⟨look, hlook, ?_⟩
    intro hnone user hin
    obtain ⟨u, hu, -⟩ := h.tokenListed (by simp [htoken]) user hin
    rw [huser, hnone] at hu
    cases hu

end

/-! ### Runs of a connection to a chat -/

/-- One service, that requires no key; a token is its user's public id. -/
def chat : Config := {shop with
  services := fun service => if service = "chat" then some false else none
  verify := fun token kind _ => match kind with
    | .user => some ⟨token, "", 1000⟩
    | .impersonation => none}

def ann : User := ⟨1, "ann", false, false⟩

def bob : User := ⟨2, "bob", false, false⟩

/-- All clocks say `now`, and every lookup finds these users. -/
def finds (now : Int) (users : List User) : Env :=
  {meets now [] with lookup := ⟨now, .ok ⟨users, []⟩, now⟩}

def say (service : String) (token : Option String) : Message where
  msgId := .given 1
  service := .given service
  apiKey := none
  authToken := token
  action := .given "say"

def joined : Conn := (connect chat "c" (upgrade none []) fun _ => []).getD (.initial "" fun _ => [])

/-- A message with a token, then one without: it is from the same user. -/
theorem second_message_from_same_user :
    ∃ look, (handle chat (finds 2 []) (some (say "chat" none))
        (step chat (.frame (finds 1 [ann, bob]) (some (say "chat" (some "ann")))) joined)).1.lastLookup =
          some ("ann", look) ∧ confirmed chat "ann" look = some ann := by
  have hopen : connect chat "c" (upgrade none []) (fun _ => []) = some joined := rfl
  have hfresh (user : String) : "c" ∉ (fun _ => [] : String → List String) user := List.not_mem_nil
  have hrun := (acts_as_last_token hfresh hopen
    [.frame (finds 1 [ann, bob]) (some (say "chat" (some "ann")))]).1 (finds 2 []) (some (say "chat" none)) _ _ rfl
  obtain ⟨look, hlook, huser, -⟩ := hrun
  exact ⟨look, hlook, huser.symm⟩

/-- Ann's token, then Bob's in a message that fails before it is looked at: the next
message, without a token, is from Ann. And it may be handled a minute and more after
the lookup, if it was not a minute yet when the message checked. -/
theorem earlier_token_user_acts :
    (let s₁ := step chat (.frame (finds 1 [ann, bob]) (some (say "chat" (some "ann")))) joined
     let s₂ := step chat (.frame (finds 2 [ann, bob]) (some (say "nowhere" (some "bob")))) s₁
     let (s₃, outcome) := handle chat {finds 3 [ann, bob] with handledNow := 99} (some (say "chat" none)) s₂
     connect chat "c" (upgrade none []) (fun _ => []) = some joined ∧ outcome.toBool = true ∧
      s₃.currentUser = some ann ∧ s₃.authCheckedAt = 1 ∧ chat.recheckSeconds ≤ 99 - s₃.authCheckedAt) := by
  refine ⟨rfl, ?_, ?_, ?_, ?_⟩ <;> decide

end PyAppRunner.Bridge
