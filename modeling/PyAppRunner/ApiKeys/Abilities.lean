import PyAppRunner.Bridge.Socket

/-! Abilities: how one is normalised, what it grants, and which service a request means.

The service of an ability and the service of a request are spelled the same way before
they are compared, with `_` for `-`, and so is the name a service is looked up under. An
ability is normalised once, when it is granted; a request's is put together each time. -/
namespace PyAppRunner.ApiKeys
open Base Bridge

/-! ### Normalising -/

/-- `ValueError`, by what its text says. -/
inductive AbilityError where
  | badForm (raw : String)
  | badWildcard (raw : String)
  | whitespace (raw : String)
deriving DecidableEq

/-- `normalize_ability`: `*` alone, or one colon with something on both sides of it. -/
def normalizeAbility (raw : String) : Except AbilityError String :=
  let ability := Text.strip raw.toList
  if ability = ['*'] then .ok "*"
  else
    let service := ability.takeWhile (· ≠ ':')
    let action := (ability.dropWhile (· ≠ ':')).drop 1
    if ':' ∉ ability ∨ service = [] ∨ action = [] ∨ ':' ∈ action then .error (.badForm raw)
    else if '*' ∈ service ∨ ('*' ∈ action ∧ action ≠ ['*']) then .error (.badWildcard raw)
    else if ability.any Text.isSpace then .error (.whitespace raw)
    else .ok (String.ofList (underscored service ++ ':' :: action))

/-- What `service:action` must be made of. -/
structure WellFormed (service action : List Char) : Prop where
  service_ne : service ≠ []
  action_ne : action ≠ []
  colon : ':' ∉ service ∧ ':' ∉ action
  star : '*' ∉ service ∧ ('*' ∈ action → action = ['*'])
  space : ∀ c ∈ service ++ action, Text.isSpace c = false

/-- An ability is everything, or a service and an action of it. -/
inductive Form : List Char → List Char → Prop
  | everything : Form ['*'] ['*']
  | some {service action : List Char} (h : WellFormed service action) :
    Form (service ++ ':' :: action) (underscored service ++ ':' :: action)

theorem takeWhile_colon {left : List Char} (h : ':' ∉ left) (right : List Char) :
    (left ++ ':' :: right).takeWhile (· ≠ ':') = left ∧
      ((left ++ ':' :: right).dropWhile (· ≠ ':')).drop 1 = right := by
  have hall : ∀ c ∈ left, decide (c ≠ ':') = true := by
    intro c hc
    have hne : c ≠ ':' := fun heq => h (heq ▸ hc)
    exact decide_eq_true hne
  rw [List.takeWhile_append_of_pos hall, List.dropWhile_append_of_pos hall]
  simp

theorem normalizeAbility_eq_ok_iff {raw n : String} :
    normalizeAbility raw = .ok n ↔ Form (Text.strip raw.toList) n.toList := by
  unfold normalizeAbility
  dsimp only
  constructor
  -- The checks in their order. What passes all of them is split at its first colon.
  · intro h
    split at h
    · next hstar =>
      cases h
      rw [hstar]
      exact .everything
    · split at h
      · cases h
      · next hform =>
        split at h
        · cases h
        · next hstars =>
          split at h
          · cases h
          · next hspace =>
            simp only [not_or, not_not] at hform hstars
            obtain ⟨service, action, hability, hcolon⟩ := List.eq_append_cons_of_mem hform.1
            have hparts := takeWhile_colon hcolon action
            rw [hability, hparts.1, hparts.2] at hform hstars h
            rw [hability] at hspace ⊢
            cases h
            rw [String.toList_ofList]
            refine .some ⟨hform.2.1, hform.2.2.1, ⟨hcolon, hform.2.2.2⟩, ⟨hstars.1, ?_⟩, ?_⟩
            · intro hmem
              by_contra hne
              exact hstars.2 ⟨hmem, hne⟩
            · simp only [List.any_append, List.any_cons, Bool.not_eq_true, Bool.or_eq_false_iff, List.any_eq_false] at hspace
              intro c hc
              obtain hservice | haction := List.mem_append.mp hc
              · simpa using hspace.1 c hservice
              · simpa using hspace.2.2 c haction
  · intro h
    -- Back: an ability of the form passes each check.
    obtain ⟨ability, hability⟩ : ∃ ability, Text.strip raw.toList = ability := ⟨_, rfl⟩
    obtain ⟨text, htext⟩ : ∃ text, n.toList = text := ⟨_, rfl⟩
    rw [hability, htext] at h
    rw [hability, ← String.ofList_toList (s := n), htext]
    cases h with
    | everything => rfl
    | @some service action h =>
      have hparts := takeWhile_colon h.colon.1 action
      have hne : service ++ ':' :: action ≠ ['*'] := by
        intro heq
        have hmem : ':' ∈ service ++ ':' :: action := by simp
        rw [heq] at hmem
        exact absurd hmem (by decide)
      rw [if_neg hne, hparts.1, hparts.2, if_neg (by simp [h.service_ne, h.action_ne, h.colon.2]),
        if_neg (by simpa [h.star.1] using h.star.2), if_neg]
      have hspace := h.space
      simpa [or_imp, forall_and, show Text.isSpace ':' = false by decide] using hspace

theorem mem_underscored {c : Char} {s : List Char} (h : c ∈ underscored s) : c = '_' ∨ c ∈ s := by
  obtain ⟨d, hd, rfl⟩ := List.mem_map.mp h
  by_cases hdash : d = '-'
  · exact .inl (if_pos hdash)
  · rw [if_neg hdash]
    exact .inr hd

theorem underscored_underscored (s : List Char) : underscored (underscored s) = underscored s := by
  have hpoint : ∀ c : Char, (if (if c = '-' then '_' else c) = '-' then '_' else if c = '-' then '_' else c) =
      if c = '-' then '_' else c := by
    intro c
    by_cases hdash : c = '-'
    · rw [if_pos hdash, if_neg (by decide)]
    · rw [if_neg hdash, if_neg hdash]
  unfold underscored
  rw [List.map_map]
  apply List.map_congr_left
  intro c _
  exact hpoint c

/-- The normalised spelling is well formed too. -/
theorem WellFormed.underscored {service action : List Char} (h : WellFormed service action) :
    WellFormed (underscored service) action := by
  have hmem : ∀ {c : Char}, c ≠ '_' → c ∉ service → c ∉ ApiKeys.underscored service := by
    intro c hc hnot hmem
    exact (mem_underscored hmem).elim hc hnot
  refine ⟨by simpa [ApiKeys.underscored] using h.service_ne, h.action_ne, ⟨hmem (by decide) h.colon.1, h.colon.2⟩,
    ⟨hmem (by decide) h.star.1, h.star.2⟩, ?_⟩
  intro c hc
  obtain hservice | haction := List.mem_append.mp hc
  · obtain rfl | hservice := mem_underscored hservice
    · decide
    · exact h.space c (List.mem_append_left _ hservice)
  · exact h.space c (List.mem_append_right _ haction)

theorem normalizeAbility_idem {raw n : String} (h : normalizeAbility raw = .ok n) : normalizeAbility n = .ok n := by
  rw [normalizeAbility_eq_ok_iff] at h ⊢
  obtain ⟨ability, hability⟩ : ∃ ability, Text.strip raw.toList = ability := ⟨_, rfl⟩
  obtain ⟨text, htext⟩ : ∃ text, n.toList = text := ⟨_, rfl⟩
  rw [hability, htext] at h
  rw [htext]
  cases h with
  | everything => exact .everything
  | @some service action h =>
    have hspace : ∀ c ∈ underscored service ++ ':' :: action, Text.isSpace c = false := by
      have hparts := h.underscored.space
      intro c hc
      obtain hservice | haction := List.mem_append.mp hc
      · exact hparts c (List.mem_append_left _ hservice)
      · obtain rfl | haction := List.mem_cons.mp haction
        · decide
        · exact hparts c (List.mem_append_right _ haction)
    have hform := Form.some h.underscored
    rwa [Text.strip_eq_self hspace, underscored_underscored] at *

/-! ### Granting -/

/-- The ability covers the action of the service. -/
def Covers (ability service action : List Char) : Prop :=
  ability = ['*'] ∨ ∃ t b, ability = t ++ ':' :: b ∧ underscored t = underscored service ∧ (b = action ∨ b = ['*'])

/-- A service and an action are put together one way. -/
theorem parts_inj {service service' action action' : List Char} (h : ':' ∉ service) (h' : ':' ∉ service') :
    service ++ ':' :: action = service' ++ ':' :: action' ↔ service = service' ∧ action = action' := by
  constructor
  · intro heq
    have hparts := takeWhile_colon h action
    rw [heq, (takeWhile_colon h' action').1, (takeWhile_colon h' action').2] at hparts
    exact ⟨hparts.1.symm, hparts.2.symm⟩
  · intro ⟨hs, ha⟩
    rw [hs, ha]

/-- One ability that is granted covers what it says. -/
theorem covers_of_form {ability normal service action : List Char} (h : Form ability normal) (hservice : ':' ∉ service) :
    (normal = ['*'] ∨ normal = underscored service ++ ':' :: action ∨ normal = underscored service ++ [':', '*']) ↔
      Covers ability service action := by
  have hcolon : ':' ∉ underscored service := fun hmem => (mem_underscored hmem).elim (by decide) hservice
  cases h with
  | everything => simp [Covers]
  | @some t b h =>
    have hne : ∀ s a : List Char, s ++ ':' :: a ≠ ['*'] := by
      intro s a heq
      have hmem : ':' ∈ s ++ ':' :: a := by simp
      rw [heq] at hmem
      exact absurd hmem (by decide)
    rw [parts_inj h.underscored.colon.1 hcolon, parts_inj h.underscored.colon.1 hcolon]
    constructor
    · intro hmatch
      obtain hstar | ⟨hs, hb⟩ | ⟨hs, hb⟩ := hmatch
      · exact absurd hstar (hne _ _)
      · exact .inr ⟨t, b, rfl, hs, .inl hb⟩
      · exact .inr ⟨t, b, rfl, hs, .inr hb⟩
    · intro hcovers
      obtain hstar | ⟨t', b', heq, hs, hb⟩ := hcovers
      · exact absurd hstar (hne _ _)
      · have hcolons : ':' ∉ t' := by
          intro hmem
          obtain ⟨left, right, rfl, hleft⟩ := List.eq_append_cons_of_mem hmem
          rw [List.append_assoc, List.cons_append] at heq
          have hb' := ((parts_inj h.colon.1 hleft).mp heq).2
          have : ':' ∈ b := by rw [hb']; simp
          exact h.colon.2 this
        obtain ⟨rfl, rfl⟩ := (parts_inj h.colon.1 hcolons).mp heq
        obtain hb | hb := hb
        · exact .inr (.inl ⟨hs, hb⟩)
        · exact .inr (.inr ⟨hs, hb⟩)

theorem partition_append {service : String} (h : ':' ∉ service.toList) (action : String) :
    partition (service ++ ":" ++ action) = (service.toList, action.toList) := by
  have htext : (service ++ ":" ++ action).toList = service.toList ++ ':' :: action.toList := by
    simp
  have hparts := takeWhile_colon h action.toList
  rw [partition, htext, hparts.1, hparts.2]

theorem abilityAllows_append {service : String} (h : ':' ∉ service.toList) (granted : List String) (action : String) :
    abilityAllows granted (service ++ ":" ++ action) = true ↔ ∃ item ∈ granted, item.toList = ['*'] ∨
      item.toList = underscored service.toList ++ ':' :: action.toList ∨
      item.toList = underscored service.toList ++ [':', '*'] := by
  have htext : ∀ (item : String) (s : List Char), item = String.ofList s ↔ item.toList = s := by
    intro item s
    rw [← String.toList_inj, String.toList_ofList]
  rw [abilityAllows, partition_append h]
  simp only [List.any_eq_true, Bool.or_eq_true, decide_eq_true_eq, htext, or_assoc]

/-- What is granted, normalised, allows what it covers. -/
theorem allows_iff {granted normal : List String} (h : granted.mapM normalizeAbility = .ok normal) {service : String}
    (hservice : ':' ∉ service.toList) (action : String) :
    abilityAllows normal (service ++ ":" ++ action) = true ↔
      ∃ g ∈ granted, Covers (Text.strip g.toList) service.toList action.toList := by
  rw [abilityAllows_append hservice]
  induction granted generalizing normal with
  | nil =>
    cases h
    simp
  | cons g rest ih =>
    rw [List.mapM_cons] at h
    cases hg : normalizeAbility g with
    | error e =>
      rw [hg] at h
      cases h
    | ok n =>
      cases hrest : rest.mapM normalizeAbility with
      | error e =>
        rw [hg, hrest] at h
        cases h
      | ok normals =>
        rw [hg, hrest] at h
        cases h
        rw [List.exists_mem_cons_iff, List.exists_mem_cons_iff, ih hrest]
        apply or_congr_left
        exact covers_of_form (normalizeAbility_eq_ok_iff.mp hg) hservice

/-! ### Services -/

/-- The name a service is looked up under. -/
def serviceName (name : String) : String := String.ofList (underscored name.toList)

/-- What `find_service` asks of a module. -/
structure Service (ρ κ : Type) where
  bridgeRequest : Option ρ
  requiresApiKey : Option κ

/-- What `find_service` answers instead of a service. -/
inductive ServiceError where
  | notProvided
  | notFound (name : String)
  | unsupported (name : String)
deriving DecidableEq

/-- `find_service`. -/
def findService {ρ κ : Type} (services : String → Option (Service ρ κ)) :
    Option String → Except ServiceError (ρ × Option κ)
  | none => .error .notProvided
  | some name =>
    match services (serviceName name) with
    | none => .error (.notFound (serviceName name))
    | some service =>
      match service.bridgeRequest with
      | none => .error (.unsupported (serviceName name))
      | some bridgeRequest => .ok (bridgeRequest, service.requiresApiKey)

/-- Two spellings of one name find the same service, and are one ability. -/
theorem same_name {ρ κ : Type} (services : String → Option (Service ρ κ)) {x y : String}
    (h : serviceName x = serviceName y) :
    findService services (some x) = findService services (some y) ∧ ∀ action, abilityOf x action = abilityOf y action := by
  have hspelled : underscored x.toList = underscored y.toList := String.ofList_injective h
  refine ⟨?_, ?_⟩
  · rw [findService, findService, h]
  · intro action
    rw [abilityOf, abilityOf, hspelled]

/-- **Abilities grant what they say.** Without the white space around it, an ability that is
granted is everything or an action of a service, spelled with `-` or `_`; normalising twice
is normalising once; and the spellings under which one name is looked up are granted
the same. -/
theorem abilities_exact {ρ κ : Type} (services : String → Option (Service ρ κ)) {granted normal : List String}
    (h : granted.mapM normalizeAbility = .ok normal) :
    (∀ service action : String, ':' ∉ service.toList →
      (abilityAllows normal (service ++ ":" ++ action) = true ↔
        ∃ g ∈ granted, Covers (Text.strip g.toList) service.toList action.toList)) ∧
    (∀ raw n, normalizeAbility raw = .ok n → normalizeAbility n = .ok n) ∧
    ∀ x y, serviceName x = serviceName y → findService services (some x) = findService services (some y) ∧
      ∀ action, abilityAllows normal (abilityOf x action) = abilityAllows normal (abilityOf y action) := by
  refine ⟨fun service action hservice => allows_iff h hservice action, fun raw n => normalizeAbility_idem, ?_⟩
  intro x y hname
  obtain ⟨hfound, hability⟩ := same_name services hname
  exact ⟨hfound, fun action => by rw [hability action]⟩

/-- Both spellings of a service, granted with white space around it. -/
theorem spaced_grant :
    (abilityAllows ["sudat_reports:report"] "sudat-reports:report" = true ↔
      ∃ g ∈ [" sudat-reports:report "], Covers (Text.strip g.toList) "sudat-reports".toList "report".toList) ∧
    normalizeAbility "sudat_reports:report" = .ok "sudat_reports:report" := by
  have hnormal : [" sudat-reports:report "].mapM normalizeAbility = .ok ["sudat_reports:report"] := by decide +kernel
  have hexact := abilities_exact (fun _ => (none : Option (Service Unit Unit))) hnormal
  refine ⟨hexact.1 "sudat-reports" "report" (by decide), ?_⟩
  exact hexact.2.1 " sudat-reports:report " _ (by decide +kernel)

/-- An ability with white space around it grants, though it is no `service:action` as it
stands; and of two names of one service, only the one that is granted is. -/
theorem spaced_and_aliased :
    ([" reports:run"].mapM normalizeAbility = .ok ["reports:run"] ∧
      abilityAllows ["reports:run"] "reports:run" = true ∧ ¬ Covers " reports:run".toList "reports".toList "run".toList) ∧
    (findService (fun name => if name ∈ ["reports", "berichte"] then some (⟨some (), some ()⟩ : Service Unit Unit) else none)
        (some "reports") =
      findService (fun name => if name ∈ ["reports", "berichte"] then some (⟨some (), some ()⟩ : Service Unit Unit) else none)
        (some "berichte") ∧
      abilityAllows ["reports:run"] (abilityOf "reports" "run") = true ∧
      abilityAllows ["reports:run"] (abilityOf "berichte" "run") = false) := by
  refine ⟨⟨by decide +kernel, by decide +kernel, ?_⟩, by decide +kernel, by decide +kernel, by decide +kernel⟩
  intro h
  obtain hstar | ⟨t, b, heq, hs, _⟩ := h
  · exact absurd hstar (by decide)
  · have hfirst := congrArg List.head? heq
    cases t with
    | nil => cases hs
    | cons c t =>
      obtain rfl : ' ' = c := Option.some.inj hfirst
      have hletter : some ' ' = some 'r' := congrArg List.head? hs
      exact absurd hletter (by decide)

end PyAppRunner.ApiKeys
