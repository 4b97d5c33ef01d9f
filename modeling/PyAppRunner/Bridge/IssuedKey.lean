import PyAppRunner.ApiKeys.Abilities
import PyAppRunner.ApiKeys.Admin
import PyAppRunner.ApiKeys.Expiry
import PyAppRunner.ApiKeys.Networks
import PyAppRunner.Bridge.Api

/-! The life of a key, from the command line to the gate.

`api_keys create` writes a row of what it was told and prints the key once. From then on sessions update, revoke
and use the rows, statement by statement in any order, and requests look them up. Postgres gives a `cidr` back as
it was written, and every user's id is positive. -/
namespace PyAppRunner.Bridge
open Base Sql ApiKeys ApiKeys.Networks

/-! ### The service that is asked for -/

/-- What the gate knows of the services: of one that takes requests, whether its `requires_api_key` is not `False`. -/
def knownServices {ρ κ : Type} (services : String → Option (ApiKeys.Service ρ κ)) (notFalse : Option κ → Bool) (name : String) :
    Option Bool :=
  (services name).bind fun service => service.bridgeRequest.map fun _ => notFalse service.requiresApiKey

/-- The gate finds a service where `find_service` finds one, and raises the same for all of its errors. -/
theorem findService_as_found {ρ κ : Type} {services : String → Option (ApiKeys.Service ρ κ)} {notFalse : Option κ → Bool}
    {cfg : Config} (hcfg : cfg.services = knownServices services notFalse) (service : Option String) (s : Conn) :
    Bridge.findService cfg service s =
      (s, ((ApiKeys.findService services service).map fun found => (service.getD "", notFalse found.2)).mapError
        fun _ => .http 400 1002) := by
  unfold Bridge.findService ApiKeys.findService serviceName
  cases service with
  | none => rfl
  | some name =>
    dsimp only
    rw [hcfg, knownServices]
    cases services (String.ofList (underscored name.toList)) with
    | none => rfl
    | some found =>
      cases hrequest : found.bridgeRequest with
      | none => simp [hrequest, Program.raise, Except.map, Except.mapError]
      | some request => simp [hrequest, Except.map, Except.mapError, pure]

/-! ### Creating -/

/-- Each ability once, in the order in which they were given. -/
def addAbility (result : List String) (ability : String) : List String :=
  if result.contains ability then result else result ++ [ability]

/-- `parse_abilities`: none of them twice. -/
def parseAbilities (raws : List String) : Except AbilityError (List String) :=
  raws.foldlM (fun result item => (normalizeAbility item).map (addAbility result)) []

/-- What is drawn for a key. The first part has no dot, the second is not empty. -/
structure Drawn where
  hex : String
  secret : String
  dotless : '.' ∉ hex.toList
  filled : secret.toList ≠ []

/-- `generate_key`: what the row is found by. -/
def Drawn.stem (drawn : Drawn) : String := "ak" ++ drawn.hex

/-- The line that is printed once. -/
def Drawn.key (drawn : Drawn) : String := drawn.stem ++ "." ++ drawn.secret

/-- The arguments of `create`. -/
structure CreateArgs where
  name : String
  ability : List String
  allowedIp : List (List Char)
  expires : Option (List Char)
  userId : Option Int

/-- Why nothing is created. -/
inductive CreateError where
  | ability (e : AbilityError)
  | network (message : List Char)
  | expires (e : Expiry.Raised)

/-- When the key expires. An empty text counts as none. -/
def CreateArgs.expiresAt (repr : List Char → List Char) (args : CreateArgs) (now : Aware) :
    Except Expiry.Raised (Option Aware) :=
  match args.expires.filter (· ≠ []) with
  | none => .ok none
  | some raw => (Expiry.parseExpires repr raw now).map some

/-- What `_run` makes of the arguments of `create`, and the row `cmd_create` inserts. -/
def createRow (repr : List Char → List Char) (args : CreateArgs) (now : Aware) (drawn : Drawn) : Except CreateError KeyRow :=
  match parseAbilities args.ability with
  | .error e => .error (.ability e)
  | .ok abilities =>
    match parseNetworks repr args.allowedIp with
    | .error message => .error (.network message)
    | .ok networks =>
      match args.expiresAt repr now with
      | .error e => .error (.expires e)
      | .ok expires => .ok {
          keyPrefix := drawn.stem
          name := args.name
          abilities := abilities
          allowedIps := if args.allowedIp.isEmpty then none else some (networks.map String.ofList)
          expiresAt := expires.map Aware.instant
          userId := args.userId
          lastUsedAt := none
          totalUses := 0
          updatedAt := now.instant
          disabledAt := none }

/-! ### What a request reads -/

/-- The row as the gate knows it. -/
def keyRecord (hashes : Nat → String) (id : Nat) (r : KeyRow) : KeyRecord where
  id := id
  keyStem := r.keyPrefix
  secretHash := hashes id
  abilities := r.abilities
  userId := r.userId.map Int.toNat
  disabled := r.disabledAt.isSome
  expiresAt := r.expiresAt
  allowedIps := r.allowedIps

/-- The committed rows. No transaction changes a hash. -/
def keysOf (hashes : Nat → String) (ids : List Nat) (m : Rows KeyRow) : List KeyRecord :=
  ids.filterMap fun i => (m i).map (keyRecord hashes i)

/-! ### The row that is created -/

theorem mem_addAbility {result : List String} {ability a : String} :
    a ∈ addAbility result ability ↔ a ∈ result ∨ a = ability := by
  unfold addAbility
  split
  · rename_i hin
    have hin := List.contains_iff_mem.1 hin
    constructor
    · exact .inl
    · rintro (hold | rfl)
      · exact hold
      · exact hin
  · simp

theorem mem_foldlM_abilities {raws result abilities : List String}
    (h : raws.foldlM (fun result item => (normalizeAbility item).map (addAbility result)) result = .ok abilities) :
    ∃ normal, raws.mapM normalizeAbility = .ok normal ∧ ∀ a, a ∈ abilities ↔ a ∈ result ∨ a ∈ normal := by
  induction raws generalizing result with
  | nil =>
    cases h
    exact ⟨[], rfl, fun a => by simp⟩
  | cons raw rest ih =>
    rw [List.foldlM_cons] at h
    cases hraw : normalizeAbility raw with
    | error e =>
      rw [hraw] at h
      cases h
    | ok ability =>
      rw [hraw] at h
      obtain ⟨normal, hnormal, hmem⟩ := ih h
      refine ⟨ability :: normal, ?_, ?_⟩
      · rw [List.mapM_cons, hraw, hnormal]
        rfl
      · intro a
        rw [hmem, mem_addAbility, List.mem_cons, or_assoc]

/-- The abilities of the row are those that were given, normalised. -/
theorem mem_parseAbilities {raws abilities : List String} (h : parseAbilities raws = .ok abilities) :
    ∃ normal, raws.mapM normalizeAbility = .ok normal ∧ ∀ a, a ∈ abilities ↔ a ∈ normal := by
  obtain ⟨normal, hnormal, hmem⟩ := mem_foldlM_abilities h
  exact ⟨normal, hnormal, fun a => by simpa using hmem a⟩

theorem abilityAllows_congr {granted granted' : List String} (h : ∀ a, a ∈ granted ↔ a ∈ granted') (ability : String) :
    abilityAllows granted ability = true ↔ abilityAllows granted' ability = true := by
  unfold abilityAllows
  simp only [List.any_eq_true, h]

theorem dotless_stem (drawn : Drawn) : '.' ∉ drawn.stem.toList := by
  unfold Drawn.stem
  rw [String.toList_append, List.mem_append]
  rintro (h | h)
  · exact absurd h (by decide)
  · exact drawn.dotless h

theorem splitKey_key (drawn : Drawn) : splitKey drawn.key = some (drawn.stem, drawn.secret) := by
  have hpass : ∀ c ∈ drawn.stem.toList, decide (c ≠ '.') = true := by
    intro c hc
    exact decide_eq_true fun heq => dotless_stem drawn (heq ▸ hc)
  have htext : drawn.key.toList = drawn.stem.toList ++ '.' :: drawn.secret.toList := by
    simp [Drawn.key]
  have hstem : drawn.stem.toList ≠ [] := by simp [Drawn.stem]
  unfold splitKey
  rw [htext, List.takeWhile_append_of_pos hpass, List.dropWhile_append_of_pos hpass]
  simp [hstem, drawn.filled, String.ofList_toList]

/-- The service's action is covered by one of the abilities that were given. -/
theorem parseAbilities_allows {raws abilities : List String} (h : parseAbilities raws = .ok abilities) {service : String}
    (hservice : ':' ∉ service.toList) (action : String) : abilityAllows abilities (abilityOf service action) = true ↔
      ∃ g ∈ raws, Covers (Text.strip g.toList) service.toList action.toList := by
  obtain ⟨normal, hnormal, hmem⟩ := mem_parseAbilities h
  have hspelled : ':' ∉ (String.ofList (underscored service.toList)).toList := by
    rw [String.toList_ofList]
    intro hin
    exact (mem_underscored hin).elim (by decide) hservice
  have hability : abilityOf service action = String.ofList (underscored service.toList) ++ ":" ++ action := by
    apply String.toList_inj.1
    simp [abilityOf]
  have hcovers (g : List Char) : Covers g (String.ofList (underscored service.toList)).toList action.toList ↔
      Covers g service.toList action.toList := by
    unfold Covers
    rw [String.toList_ofList, underscored_underscored]
  rw [abilityAllows_congr hmem, hability, allows_iff hnormal hspelled]
  simp only [hcovers]

theorem createRow_ok {repr : List Char → List Char} {args : CreateArgs} {now : Aware} {drawn : Drawn} {row : KeyRow}
    (h : createRow repr args now drawn = .ok row) : ∃ abilities networks expires,
      parseAbilities args.ability = .ok abilities ∧ parseNetworks repr args.allowedIp = .ok networks ∧
      args.expiresAt repr now = .ok expires ∧ row.keyPrefix = drawn.stem ∧ row.abilities = abilities ∧
      row.allowedIps = (if args.allowedIp.isEmpty then none else some (networks.map String.ofList)) ∧
      row.expiresAt = expires.map Aware.instant ∧ row.disabledAt = none := by
  unfold createRow at h
  split at h
  · cases h
  rename_i abilities habilities
  split at h
  · cases h
  rename_i networks hnetworks
  split at h
  · cases h
  rename_i expires hexpires
  cases h
  exact ⟨abilities, networks, expires, habilities, hnetworks, hexpires, rfl, rfl, rfl, rfl, rfl⟩

/-! ### The row meanwhile -/

/-- The transaction is told to change this key, or to revoke it. -/
def names (j : Nat) (stem : String) : KeyTx → Bool
  | .update key _ _ => key.finds j stem
  | .revoke key _ => key.finds j stem
  | .useKey _ _ => false

/-- A revocation of that key. -/
def revokes (j : Nat) (stem : String) : KeyTx → Bool
  | .revoke key _ => key.finds j stem
  | _ => false

/-- What the gate looks at is as it was. -/
structure SameKey (r r' : KeyRow) : Prop where
  abilities : r'.abilities = r.abilities
  allowedIps : r'.allowedIps = r.allowedIps
  expiresAt : r'.expiresAt = r.expiresAt
  disabledAt : r'.disabledAt = r.disabledAt

/-- No other row has the key's stem. -/
def Unique (m : Rows KeyRow) (j : Nat) (stem : String) : Prop := ∀ i r, m i = some r → r.keyPrefix = stem → i = j

section
variable {m : Rows KeyRow} {j : Nat} {r : KeyRow} {ids : List Nat}

theorem Unique.alone (h : Unique m j stem) (tx : KeyTx) (ids : List Nat) : Unique (tx.prog.alone ids m) j stem := by
  intro i r' hr' hstem
  have hsame : (tx.prog.alone ids m i).map KeyRow.keyPrefix = (m i).map KeyRow.keyPrefix := RowTx.sameKeys_alone i
  rw [hr'] at hsame
  obtain ⟨r, hr, hkey⟩ := Option.map_eq_some_iff.1 hsame.symm
  exact h i r hr (hkey.trans hstem)

theorem find?_eq_some_of_only {p : Nat → Bool} (hin : j ∈ ids) (hp : p j = true) (honly : ∀ i, p i = true → i = j) :
    ids.find? p = some j := by
  cases hfind : ids.find? p with
  | none => exact absurd hp (List.find?_eq_none.1 hfind j hin)
  | some i => rw [honly i (List.find?_some hfind)]

/-- What is found by the key's id or its stem is the key. -/
theorem concerns_of_finds (hr : m j = some r) (hin : j ∈ ids) (hunique : Unique m j r.keyPrefix) {key : Where} {now : Int}
    (hfinds : key.finds j r.keyPrefix = true) : (KeyTx.revoke key now).prog.concerns ids m j = true := by
  have honly (i : Nat) (r' : KeyRow) (hr' : m i = some r') (hfound : key.finds i r'.keyPrefix = true) : i = j := by
    cases key with
    | id n => exact (of_decide_eq_true hfound).trans (of_decide_eq_true hfinds).symm
    | keyPrefix value => exact hunique i r' hr' ((of_decide_eq_true hfound).trans (of_decide_eq_true hfinds).symm)
  have hfirst : ids.find? (fun i => (m i).any ((KeyTx.revoke key now).prog.found i)) = some j := by
    apply find?_eq_some_of_only hin
    · rw [hr]
      exact hfinds
    · intro i hfound
      cases hi : m i with
      | none =>
        rw [hi] at hfound
        cases hfound
      | some r' =>
        rw [hi] at hfound
        exact honly i r' hi hfound
  show decide (ids.find? (fun i => (m i).any ((KeyTx.revoke key now).prog.found i)) = some j) = true
  exact decide_eq_true hfirst

theorem finds_of_concerns {tx : KeyTx} (hr : m j = some r) (h : tx.prog.concerns ids m j = true) :
    tx.prog.finds j r.keyPrefix = true := by
  unfold RowTx.concerns at h
  split at h
  · have hfound := List.find?_some (of_decide_eq_true h)
    rw [hr] at hfound
    exact hfound
  · rw [hr] at h
    exact h

theorem alone_life (tx : KeyTx) (hr : m j = some r) (hin : j ∈ ids) (hunique : Unique m j r.keyPrefix) :
    ∃ r', tx.prog.alone ids m j = some r' ∧ r'.keyPrefix = r.keyPrefix ∧
      (names j r.keyPrefix tx = false → SameKey r r') ∧
      (r.disabledAt.isSome = true ∨ revokes j r.keyPrefix tx = true → r'.disabledAt.isSome = true) := by
  unfold RowTx.alone
  rw [hr, Option.map_some]
  split
  · rename_i hconcerns
    have hfinds := finds_of_concerns hr hconcerns
    refine ⟨_, rfl, tx.prog.key_own r, ?_⟩
    cases tx with
    | update key change now =>
      have hown : (KeyTx.update key change now).prog.own r = change.applied now r.abilities r := rfl
      rw [hown, change.applied_eq]
      refine ⟨fun hnot => absurd hfinds ?_, fun h => h.resolve_right (by simp [revokes])⟩
      rw [show (KeyTx.update key change now).prog.finds j r.keyPrefix = false from hnot]
      decide
    | revoke key now =>
      refine ⟨fun hnot => absurd hfinds ?_, fun _ => ?_⟩
      · rw [show (KeyTx.revoke key now).prog.finds j r.keyPrefix = false from hnot]
        decide
      · by_cases hdisabled : r.disabledAt.isSome = true
        · have hown : (KeyTx.revoke key now).prog.own r = r := if_pos hdisabled
          rw [hown]
          exact hdisabled
        · have hown : (KeyTx.revoke key now).prog.own r = {r with disabledAt := some now, updatedAt := now} := if_neg hdisabled
          rw [hown]
          rfl
    | useKey id now => exact ⟨fun _ => ⟨rfl, rfl, rfl, rfl⟩, fun h => h.resolve_right (by simp [revokes])⟩
  · rename_i hconcerns
    refine ⟨r, rfl, rfl, fun _ => ⟨rfl, rfl, rfl, rfl⟩, ?_⟩
    rintro (hdisabled | hrevokes)
    · exact hdisabled
    · cases tx with
      | revoke key now => exact absurd (concerns_of_finds hr hin hunique hrevokes) hconcerns
      | update key change now => cases hrevokes
      | useKey id now => cases hrevokes

theorem serially_life {κ : Type} (log : List (κ × KeyTx)) (hr : m j = some r) (hin : j ∈ ids)
    (hunique : Unique m j r.keyPrefix) :
    ∃ r', Server.serially KeyTx.prog ids m log j = some r' ∧ r'.keyPrefix = r.keyPrefix ∧
      Unique (Server.serially KeyTx.prog ids m log) j r.keyPrefix ∧
      ((∀ entry ∈ log, names j r.keyPrefix entry.2 = false) → SameKey r r') ∧
      (r.disabledAt.isSome = true ∨ (∃ entry ∈ log, revokes j r.keyPrefix entry.2 = true) → r'.disabledAt.isSome = true) := by
  induction log generalizing m r with
  | nil =>
    refine ⟨r, hr, rfl, hunique, fun _ => ⟨rfl, rfl, rfl, rfl⟩, ?_⟩
    rintro (hdisabled | ⟨entry, hentry, -⟩)
    · exact hdisabled
    · exact absurd hentry List.not_mem_nil
  | cons entry rest ih =>
    obtain ⟨r₁, hr₁, hstem, hsame, hdisabled⟩ := alone_life entry.2 hr hin hunique
    have hunique₁ : Unique (entry.2.prog.alone ids m) j r₁.keyPrefix := hstem ▸ hunique.alone entry.2 ids
    obtain ⟨r₂, hr₂, hstem₂, hunique₂, hsame₂, hdisabled₂⟩ := ih hr₁ hunique₁
    rw [hstem] at hstem₂ hunique₂ hsame₂ hdisabled₂
    refine ⟨r₂, hr₂, hstem₂, hunique₂, ?_, ?_⟩
    · intro hnone
      rw [List.forall_mem_cons] at hnone
      have h₁ := hsame hnone.1
      have h₂ := hsame₂ hnone.2
      exact ⟨h₂.abilities.trans h₁.abilities, h₂.allowedIps.trans h₁.allowedIps, h₂.expiresAt.trans h₁.expiresAt,
        h₂.disabledAt.trans h₁.disabledAt⟩
    · rw [List.exists_mem_cons_iff]
      rintro (hbefore | hnow | hlater)
      · exact hdisabled₂ (.inl (hdisabled (.inl hbefore)))
      · exact hdisabled₂ (.inl (hdisabled (.inr hnow)))
      · exact hdisabled₂ (.inr hlater)

/-- The gate finds the key's row by its stem. -/
theorem find?_keysOf (hr : m j = some r) (hin : j ∈ ids) (hunique : Unique m j r.keyPrefix) (hashes : Nat → String) :
    (keysOf hashes ids m).find? (fun k => k.keyStem = r.keyPrefix) = some (keyRecord hashes j r) := by
  unfold keysOf
  rw [List.find?_filterMap, find?_eq_some_of_only hin]
  · rw [Option.bind_some, hr]
    rfl
  · rw [hr]
    exact decide_eq_true rfl
  · intro i hfound
    cases hi : m i with
    | none =>
      rw [hi] at hfound
      cases hfound
    | some r' =>
      rw [hi] at hfound
      exact hunique i r' hi (of_decide_eq_true hfound)

end

/-! ### The gate -/

section
variable {cfg : Config} {hash : String → String} {client : Option String} {repr : List Char → List Char} {args : CreateArgs}
  {now : Aware} {drawn : Drawn}

/-- The client's address is in a network of the command line, if there is any. -/
def AddressGranted (client : Option String) (args : CreateArgs) : Prop :=
  args.allowedIp = [] ∨ ∃ raw ∈ args.allowedIp, ∃ n, Ip.Names (Text.strip raw) n ∧
    ∃ text a, client = some text ∧ Ip.ipAddress text.toList = some a ∧ a.unmapped.Shares n.prefixlen n.address

/-- The moment is before the one that was given. -/
def Current (repr : List Char → List Char) (args : CreateArgs) (now : Aware) (wall : Int) : Prop :=
  ∀ t, args.expiresAt repr now = .ok (some t) → wall < t.instant

theorem mem_nets_iff {raws : List (List Char)} {nets : List Ip.IpNetwork}
    (h : List.Forall₂ (fun raw n => Ip.Names (Text.strip raw) n) raws nets) {a : Ip.Address} :
    Granted nets a ↔ ∃ raw ∈ raws, ∃ n, Ip.Names (Text.strip raw) n ∧ a.Shares n.prefixlen n.address := by
  unfold Granted
  induction h with
  | nil => simp
  | @cons raw n raws nets hn _ ih =>
    rw [List.exists_mem_cons_iff, List.exists_mem_cons_iff, ih]
    apply or_congr_left
    constructor
    · intro hshares
      exact ⟨n, hn, hshares⟩
    · rintro ⟨n', hn', hshares⟩
      have hread := (Ip.ipNetwork_strict_iff.2 hn).symm.trans (Ip.ipNetwork_strict_iff.2 hn')
      rwa [Except.ok.inj hread]

theorem addressGranted_iff (haddress : ∀ ips, cfg.addressAllowed ips = ipAllowed client (ips.map String.toList))
    {networks : List (List Char)} (h : parseNetworks repr args.allowedIp = .ok networks) :
    (∀ ips, (if args.allowedIp.isEmpty then none else some (networks.map String.ofList)) = some ips →
      cfg.addressAllowed ips = true) ↔ AddressGranted client args := by
  unfold AddressGranted
  split
  · rename_i hempty
    simp [List.isEmpty_iff.1 hempty]
  · rename_i hsome
    have hne : args.allowedIp ≠ [] := fun hnil => hsome (List.isEmpty_iff.2 hnil)
    obtain ⟨nets, hnets, rfl⟩ := parseNetworks_ok_iff.1 h
    have htexts : ((nets.map Ip.IpNetwork.text).map String.ofList).map String.toList = nets.map Ip.IpNetwork.text := by
      simp [Function.comp_def]
    simp only [Option.some.injEq, forall_eq', haddress, htexts, ipAllowed_iff (wellFormed_of_forall₂ hnets),
      mem_nets_iff hnets, hne, false_or]
    constructor
    · rintro ⟨text, a, htext, ha, raw, hraw, n, hn, hshares⟩
      exact ⟨raw, hraw, n, hn, text, a, htext, ha, hshares⟩
    · rintro ⟨raw, hraw, n, hn, text, a, htext, ha, hshares⟩
      exact ⟨text, a, htext, ha, raw, hraw, n, hn, hshares⟩

theorem current_iff {expires : Option Aware} (h : args.expiresAt repr now = .ok expires) (wall : Int) :
    expired (expires.map Aware.instant) wall = false ↔ Current repr args now wall := by
  unfold Current expired
  rw [h]
  cases expires with
  | none => simp
  | some t => simp

/-- What is known of the row in every state. -/
theorem row_life {row : KeyRow} {κ : Type} [DecidableEq κ] {t₀ : Table κ KeyRow} (hfree : ∀ i, (t₀.slot i).held = none)
    {j : Nat} (hrow : t₀.committed j = some row) (hunique : Unique t₀.committed j row.keyPrefix) (hashes : Nat → String)
    (inputs : List (Server.Input κ KeyTx)) :
    ∃ r, (keysOf hashes t₀.ids (keysAfter t₀ inputs).committed).find? (fun k => k.keyStem = row.keyPrefix) =
        some (keyRecord hashes j r) ∧
      ((∀ entry ∈ (keysAfter t₀ inputs).log, names j row.keyPrefix entry.2 = false) → SameKey row r) ∧
      ((∃ entry ∈ (keysAfter t₀ inputs).log, revokes j row.keyPrefix entry.2 = true) → r.disabledAt.isSome = true) := by
  have hserial : Server.Serial KeyTx.prog (fun _ _ => True) t₀ (keysAfter t₀ inputs) := (Server.run_serial hfree inputs).1
  have hin : j ∈ t₀.ids := Server.mem_ids hrow
  obtain ⟨r, hr, hstem, hunique', hsame, hdisabled⟩ := serially_life (keysAfter t₀ inputs).log hrow hin hunique
  rw [← hserial.rows] at hr hunique'
  refine ⟨r, ?_, hsame, fun h => hdisabled (.inr h)⟩
  rw [← hstem]
  exact find?_keysOf hr hin (hstem ▸ hunique') hashes

/-- **A key is what it was created as until it is changed, and nothing once it is revoked.** Take the key that
`create` printed, and any interleaving of updates, revocations and uses. As long as no transaction that names the
key has committed, it is good from the addresses, up to the moment and for the actions that were given on the
command line, and for no others. Once a revocation of it has committed, by its id, its stem or the key itself, it is
refused whatever comes after. -/
theorem issued_key_until_revoked (hsecret : ∀ secret stored, cfg.secretMatches secret stored = decide (hash secret = stored))
    (haddress : ∀ ips, cfg.addressAllowed ips = ipAllowed client (ips.map String.toList)) {row : KeyRow}
    (hcreate : createRow repr args now drawn = .ok row) {κ : Type} [DecidableEq κ] {t₀ : Table κ KeyRow}
    (hfree : ∀ i, (t₀.slot i).held = none) {j : Nat} (hrow : t₀.committed j = some row)
    (hunique : Unique t₀.committed j row.keyPrefix) {hashes : Nat → String} (hhash : hashes j = hash drawn.secret)
    (inputs : List (Server.Input κ KeyTx)) :
    ((∀ entry ∈ (keysAfter t₀ inputs).log, names j drawn.stem entry.2 = false) → ∃ record,
      (∀ check users, check.db = .ok ⟨users, keysOf hashes t₀.ids (keysAfter t₀ inputs).committed⟩ →
        (GoodKey cfg check drawn.key record ↔
          AddressGranted client args ∧ Current repr args now check.wall ∧ ∃ u, check.useKey = .ok u)) ∧
      ∀ service action : String, ':' ∉ service.toList → (abilityAllows record.abilities (abilityOf service action) = true ↔
        ∃ g ∈ args.ability, Covers (Text.strip g.toList) service.toList action.toList)) ∧
    ((∃ entry ∈ (keysAfter t₀ inputs).log, revokes j drawn.stem entry.2 = true) → ∀ rest check users,
      check.db = .ok ⟨users, keysOf hashes t₀.ids (keysAfter t₀ (inputs ++ rest)).committed⟩ →
        keyVerdict cfg check drawn.key = .ok (.error "API key is disabled")) := by
  -- The row says what the command line said.
  obtain ⟨abilities, networks, expires, habilities, hnetworks, hexpires, hstem, hrowAbilities, hrowIps, hrowExpires,
    hrowDisabled⟩ := createRow_ok hcreate
  have hmatches : cfg.secretMatches drawn.secret (hashes j) = true := by
    rw [hsecret, hhash]
    exact decide_eq_true rfl
  constructor
  -- No transaction that names the key has committed, so its row is the one that was created.
  · intro huntouched
    obtain ⟨r, hfind, hsame, -⟩ := row_life hfree hrow hunique hashes inputs
    rw [hstem] at hfind hsame
    have hsame := hsame huntouched
    refine ⟨keyRecord hashes j r, ?_, ?_⟩
    · intro check users hdb
      have haddresses : Usable cfg (keyRecord hashes j r) ↔ AddressGranted client args := by
        rw [← addressGranted_iff haddress hnetworks, ← hrowIps, ← hsame.allowedIps]
        refine ⟨fun h => h.2, fun h => ⟨?_, h⟩⟩
        show r.disabledAt.isSome = false
        rw [hsame.disabledAt, hrowDisabled]
        rfl
      have hmoment : expired (keyRecord hashes j r).expiresAt check.wall = false ↔ Current repr args now check.wall := by
        rw [← current_iff hexpires, ← hrowExpires, ← hsame.expiresAt]
        rfl
      constructor
      · rintro ⟨-, husable, hcurrent, hused⟩
        exact ⟨haddresses.1 husable, hmoment.1 hcurrent, hused⟩
      · rintro ⟨hgranted, hcurrent, hused⟩
        exact ⟨⟨_, _, _, splitKey_key drawn, hdb, hfind, hmatches⟩, haddresses.2 hgranted, hmoment.2 hcurrent, hused⟩
    · intro service action hservice
      show abilityAllows r.abilities _ = true ↔ _
      rw [hsame.abilities, hrowAbilities]
      exact parseAbilities_allows habilities hservice action
  -- What was committed stays in the log, so the row has been disabled ever since.
  · rintro ⟨entry, hentry, hrevokes⟩ rest check users hdb
    obtain ⟨r, hfind, -, hdisabled⟩ := row_life hfree hrow hunique hashes (inputs ++ rest)
    rw [hstem] at hfind hdisabled
    have hlog : entry ∈ (keysAfter t₀ (inputs ++ rest)).log := by
      rw [keysAfter, Machine.run_append]
      exact (Server.log_run rest (keysAfter t₀ inputs)).subset hentry
    have hrefusal : apiKeyRefusal cfg (keyRecord hashes j r) check.wall = some "API key is disabled" :=
      if_pos (hdisabled ⟨entry, hlog, hrevokes⟩)
    have hsecretRow : cfg.secretMatches drawn.secret (keyRecord hashes j r).secretHash = true := hmatches
    simp only [keyVerdict, splitKey_key, hdb, hfind, hsecretRow, hrefusal, if_true]

end

/-! ### A key for one network -/

/-- A client at `10.1.2.3`; a secret is its own hash. -/
def office : Config := {shop with
  secretMatches := fun secret stored => decide (secret = stored)
  addressAllowed := fun ips => ipAllowed (some "10.1.2.3") (ips.map String.toList)}

def officeArgs : CreateArgs := ⟨"office", [" orders:* "], [" 10.0.0.0/255.0.0.0".toList], none, none⟩

def officeDrawn : Drawn := ⟨"1f", "s", by decide, by decide⟩

def newYear : Aware := (Naive.midnight ⟨2026, 1, 1⟩ (by decide)).utc

def officeRow : KeyRow :=
  ⟨"ak1f", "office", ["orders:*"], some ["10.0.0.0/8"], none, none, none, 0, newYear.instant, none⟩

/-- The table with the key, under the id 1. -/
def officeTable : Table Nat KeyRow := (((Table.empty : Table Nat KeyRow).insert 0 officeRow).2).commit 0

def officeHashes (_ : Nat) : String := "s"

def officeCheck (inputs : List (Server.Input Nat KeyTx)) : KeyCheck where
  db := .ok ⟨[], keysOf officeHashes officeTable.ids (keysAfter officeTable inputs).committed⟩
  readAt := 0
  wall := 0
  useKey := .ok ()
  stamp := 0

/-- The key is pasted to `revoke`. -/
def pasted : List (Server.Input Nat KeyTx) := [.start 0 (.revoke (whereRef "ak1f.s") 6), .next 0, .next 0, .commit 0]

/-- The key is good, and refused once it was revoked. -/
theorem office_key_until_revoked :
    (∃ record, GoodKey office (officeCheck []) "ak1f.s" record) ∧
      keyVerdict office (officeCheck pasted) "ak1f.s" = .ok (.error "API key is disabled") := by
  have hcreate : createRow id officeArgs newYear officeDrawn = .ok officeRow := by
    have hoption : (createRow id officeArgs newYear officeDrawn).toOption = some officeRow := by decide +kernel
    cases hrow : createRow id officeArgs newYear officeDrawn with
    | error e =>
      rw [hrow] at hoption
      cases hoption
    | ok row =>
      rw [hrow] at hoption
      rw [Option.some.inj hoption]
  have hfree (i : Nat) : (officeTable.slot i).held = none := by
    by_cases hi : i = 1
    · rw [hi]
      rfl
    · have hblank : officeTable.slot i = Slot.blank.commit 0 := congrArg (Slot.commit 0) (Function.update_of_ne hi _ _)
      rw [hblank]
      rfl
  have hunique : Unique officeTable.committed 1 "ak1f" := by
    intro i r hr _
    by_contra hi
    have hblank : officeTable.slot i = Slot.blank.commit 0 := congrArg (Slot.commit 0) (Function.update_of_ne hi _ _)
    have hnone : officeTable.committed i = none := congrArg Slot.committed hblank
    rw [hnone] at hr
    cases hr
  have hsecret (secret stored : String) : office.secretMatches secret stored = decide (id secret = stored) := rfl
  have haddress (ips : List String) : office.addressAllowed ips = ipAllowed (some "10.1.2.3") (ips.map String.toList) := rfl
  have hrow : officeTable.committed 1 = some officeRow := rfl
  have hhash : officeHashes 1 = id officeDrawn.secret := rfl
  have hread : Ip.ipNetwork true (Text.strip " 10.0.0.0/255.0.0.0".toList) = .ok ⟨.v4 0x0a000000, 8⟩ := by decide +kernel
  have hclient : Ip.ipAddress "10.1.2.3".toList = some (.v4 0x0a010203) := by decide +kernel
  have hgranted : AddressGranted (some "10.1.2.3") officeArgs := by
    have hshares : (0x0a010203 : BitVec 32) &&& Ip.netmask 32 8 = 0x0a000000 := by decide
    exact .inr ⟨_, List.mem_cons_self, _, Ip.ipNetwork_strict_iff.1 hread, _, _, rfl, hclient,
      (Ip.and_netmask_eq 8 (by decide)).1 hshares⟩
  constructor
  · obtain ⟨record, hgood, -⟩ := (issued_key_until_revoked hsecret haddress hcreate hfree hrow hunique hhash []).1
      (fun entry hentry => absurd hentry List.not_mem_nil)
    refine ⟨record, (hgood (officeCheck []) [] rfl).2 ⟨hgranted, ?_, (), rfl⟩⟩
    intro t ht
    cases ht
  · exact (issued_key_until_revoked hsecret haddress hcreate hfree hrow hunique hhash pasted).2
      ⟨_, List.mem_cons_self, by decide⟩ [] (officeCheck pasted) [] rfl

end PyAppRunner.Bridge
