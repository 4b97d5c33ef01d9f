import PyAppRunner.Base.IpNetwork
import PyAppRunner.Requests.ClientIp

/-! Where a key may be used from: the networks it is given, and the address that is held against them.

The networks are written into the key's row as they were read, and read again at each use; the client's address
is resolved, written, and read again. Nothing is lost on either way: a key is good exactly at the addresses of
the networks named on the command line. -/
namespace PyAppRunner.ApiKeys.Networks
open Base Base.Ip Requests

/-! ### The command line -/

section
variable (repr : List Char → List Char)

/-- The text of the `ValueError`. -/
def complaint (text : List Char) : NetworkError → List Char
  | .notANetwork => repr text ++ " does not appear to be an IPv4 or IPv6 network".toList
  | .hostBits network => network.text ++ " has host bits set".toList

/-- `parse_network`. -/
def parseNetwork (raw : List Char) : Except (List Char) (List Char) :=
  match ipNetwork true (Text.strip raw) with
  | .ok network => .ok network.text
  | .error e => .error ("allowed IP ".toList ++ repr raw ++ ": ".toList ++ complaint repr (Text.strip raw) e)

/-- `parse_networks`; the first one that is none is a `UsageError`. -/
def parseNetworks (raws : List (List Char)) : Except (List Char) (List (List Char)) := raws.mapM (parseNetwork repr)

end

/-! ### The check -/

/-- `ip_allowed`. What is stored and cannot be read is passed over. -/
def ipAllowed (ip : Option String) (networks : List (List Char)) : Bool :=
  match ip with
  | none => false
  | some ip =>
    if ip = "" then false
    else match ipAddress ip.toList with
      | none => false
      | some address => networks.any fun text =>
        match ipNetwork false text with
        | .ok network => network.network.contains address.unmapped
        | .error _ => false

/-- `config["trusted_proxies"]`. -/
inductive Configured where
  | absent
  | text (value : List Char)
  | items (values : List (List Char))

/-- The entries, with the environment's where nothing is configured. -/
def Configured.entries (environ : List Char) : Configured → List (List Char)
  | .absent => Text.split ',' environ
  | .text value => Text.split ',' value
  | .items values => values

/-- `trusted_proxies`. What is no network is logged and left out. -/
def trustedProxies (configured : Configured) (environ : List Char) : List IpNetwork :=
  (configured.entries environ).filterMap fun item =>
    if Text.strip item = [] then none else (ipNetwork true (Text.strip item)).toOption

/-! ### What is stored -/

theorem strip_of_ends {c d : Char} (hc : Text.isSpace c = false) (hd : Text.isSpace d = false) (mid : List Char) :
    Text.strip (c :: (mid ++ [d])) = c :: (mid ++ [d]) := by
  have hreverse : (c :: (mid ++ [d])).reverse = d :: (c :: mid).reverse := by simp
  unfold Text.strip Text.rstrip
  rw [List.dropWhile_cons_of_neg (by simp [hc]), hreverse, List.dropWhile_cons_of_neg (by simp [hd]), ← hreverse,
    List.reverse_reverse]

theorem digit_not_space {d : Nat} (h : d < 16) : Text.isSpace (Nat.digitChar d) = false := by
  have hall : ∀ d : Fin 16, Text.isSpace (Nat.digitChar d) = false := by decide
  exact hall ⟨d, h⟩

theorem v4Text_not_space {ip : BitVec 32} {c : Char} (h : c ∈ v4Text ip) : Text.isSpace c = false := by
  by_contra hspace
  refine not_mem_intercalate ?_ ?_ h
  · rintro rfl
    exact hspace (by decide)
  · intro p hp hmem
    obtain ⟨n, -, rfl⟩ := List.mem_map.1 hp
    obtain ⟨d, hd, rfl⟩ := mem_toDigits (by decide) hmem
    exact hspace (digit_not_space (Nat.lt_trans hd (by decide)))

theorem v6Text_not_space {ip : BitVec 128} {c : Char} (h : c ∈ v6Text ip) : Text.isSpace c = false := by
  by_contra hspace
  refine not_mem_v6Text ?_ ?_ ip h
  · rintro d hd rfl
    exact hspace (digit_not_space hd)
  · rintro rfl
    exact hspace (by decide)

theorem v6Text_ne_nil (ip : BitVec 128) : v6Text ip ≠ [] := fun hnil => by
  have hcolon := colon_mem_v6Text ip
  rw [hnil] at hcolon
  exact List.not_mem_nil hcolon

/-- The text of a network has no white space at its ends. -/
theorem strip_text (n : IpNetwork) : Text.strip n.text = n.text := by
  obtain ⟨init, d, hdigits, hd⟩ : ∃ init d, Nat.toDigits 10 n.prefixlen = init ++ [d] ∧ Text.isSpace d = false := by
    cases hdigits : Nat.toDigits 10 n.prefixlen using List.reverseRecOn with
    | nil => exact absurd hdigits Nat.toDigits_ne_nil
    | append_singleton init d =>
      obtain ⟨e, he, rfl⟩ := mem_toDigits (show 1 < 10 by decide) (hdigits ▸ List.mem_append_right init List.mem_cons_self)
      exact ⟨init, _, rfl, digit_not_space (Nat.lt_trans he (by decide))⟩
  obtain ⟨c, rest, haddress, hc⟩ : ∃ c rest, n.address.text = c :: rest ∧ Text.isSpace c = false := by
    cases n.address with
    | v4 ip =>
      cases htext : v4Text ip with
      | nil =>
        have hread := parseV4_text ip
        have hempty : parseV4 [] = none := by decide
        rw [htext, hempty] at hread
        cases hread
      | cons c rest => exact ⟨c, rest, htext, v4Text_not_space (htext ▸ List.mem_cons_self : c ∈ v4Text ip)⟩
    | v6 ip scope =>
      cases htext : v6Text ip with
      | nil => exact absurd htext (v6Text_ne_nil ip)
      | cons c rest =>
        have hc := v6Text_not_space (htext ▸ List.mem_cons_self : c ∈ v6Text ip)
        cases scope with
        | none => exact ⟨c, rest, htext, hc⟩
        | some zone => exact ⟨c, rest ++ '%' :: zone, congrArg (· ++ '%' :: zone) htext, hc⟩
  unfold IpNetwork.text
  rw [haddress, hdigits]
  simpa using strip_of_ends hc hd (rest ++ '/' :: init)

section
variable {repr : List Char → List Char} {raws stored : List (List Char)}

theorem parseNetwork_ok_iff {raw text : List Char} :
    parseNetwork repr raw = .ok text ↔ ∃ n, Names (Text.strip raw) n ∧ text = n.text := by
  unfold parseNetwork
  cases hread : ipNetwork true (Text.strip raw) with
  | ok n =>
    constructor
    · intro h
      cases h
      exact ⟨n, ipNetwork_strict_iff.1 hread, rfl⟩
    · rintro ⟨n', hnames, rfl⟩
      cases hread.symm.trans (ipNetwork_strict_iff.2 hnames)
      rfl
  | error e =>
    constructor
    · intro h
      cases h
    · rintro ⟨n', hnames, -⟩
      cases hread.symm.trans (ipNetwork_strict_iff.2 hnames)

/-- What is stored names the network it is the text of. -/
theorem names_text {n : IpNetwork} (h : n.WellFormed) : Names (Text.strip n.text) n := by
  rw [strip_text]
  exact ipNetwork_strict_iff.1 (ipNetwork_text true h)

theorem wellFormed_of_names {s : List Char} {n : IpNetwork} (h : Names s n) : n.WellFormed :=
  wellFormed_of_ipNetwork (ipNetwork_strict_iff.2 h)

theorem mapM_ok_iff {α β ε : Type} {f : α → Except ε β} {l : List α} {l' : List β} :
    l.mapM f = .ok l' ↔ List.Forall₂ (fun a b => f a = .ok b) l l' := by
  induction l generalizing l' with
  | nil =>
    constructor
    · intro h
      cases h
      exact .nil
    · intro h
      cases h
      rfl
  | cons a rest ih =>
    rw [List.mapM_cons]
    constructor
    · intro h
      cases ha : f a with
      | error e =>
        rw [ha] at h
        cases h
      | ok b =>
        rw [ha] at h
        cases hrest : rest.mapM f with
        | error e =>
          rw [hrest] at h
          cases h
        | ok bs =>
          rw [hrest] at h
          cases h
          exact .cons ha (ih.1 hrest)
    · intro h
      cases h with
      | cons ha hrest =>
        rw [ha, ih.2 hrest]
        rfl

/-- Each is stored as the text of the network it names. -/
theorem parseNetworks_ok_iff : parseNetworks repr raws = .ok stored ↔
    ∃ nets, List.Forall₂ (fun raw n => Names (Text.strip raw) n) raws nets ∧ stored = nets.map IpNetwork.text := by
  unfold parseNetworks
  rw [mapM_ok_iff]
  constructor
  · intro h
    induction h with
    | nil => exact ⟨[], .nil, rfl⟩
    | cons hraw _ ih =>
      obtain ⟨n, hn, rfl⟩ := parseNetwork_ok_iff.1 hraw
      obtain ⟨nets, hnets, rfl⟩ := ih
      exact ⟨n :: nets, .cons hn hnets, rfl⟩
  · rintro ⟨nets, hnets, rfl⟩
    induction hnets with
    | nil => exact .nil
    | cons hn _ ih => exact .cons (parseNetwork_ok_iff.2 ⟨_, hn, rfl⟩) ih

theorem wellFormed_of_forall₂ {nets : List IpNetwork} (h : List.Forall₂ (fun raw n => Names (Text.strip raw) n) raws nets) :
    ∀ n ∈ nets, n.WellFormed := by
  induction h with
  | nil => exact fun n hn => absurd hn List.not_mem_nil
  | cons hn _ ih => exact List.forall_mem_cons.2 ⟨wellFormed_of_names hn, ih⟩

theorem parseNetworks_stored {nets : List IpNetwork} (h : ∀ n ∈ nets, n.WellFormed) :
    parseNetworks repr (nets.map IpNetwork.text) = .ok (nets.map IpNetwork.text) := by
  refine parseNetworks_ok_iff.2 ⟨nets, ?_, rfl⟩
  induction nets with
  | nil => exact .nil
  | cons n rest ih =>
    rw [List.forall_mem_cons] at h
    exact .cons (names_text h.1) (ih h.2)

theorem taken_iff : (∃ stored, parseNetworks repr raws = .ok stored) ↔ ∀ raw ∈ raws, ∃ n, Names (Text.strip raw) n := by
  simp only [parseNetworks_ok_iff]
  induction raws with
  | nil => exact ⟨fun _ raw hraw => absurd hraw List.not_mem_nil, fun _ => ⟨[], [], .nil, rfl⟩⟩
  | cons raw rest ih =>
    rw [List.forall_mem_cons, ← ih]
    constructor
    · rintro ⟨_, nets, hnets, -⟩
      cases hnets with
      | cons hn hrest => exact ⟨⟨_, hn⟩, _, _, hrest, rfl⟩
    · rintro ⟨⟨n, hn⟩, _, nets, hrest, -⟩
      exact ⟨_, n :: nets, .cons hn hrest, rfl⟩

end

/-! ### The address that is held against it -/

/-- The address is in one of the networks. -/
def Granted (nets : List IpNetwork) (a : Address) : Prop := ∃ n ∈ nets, a.Shares n.prefixlen n.address

theorem ipAllowed_iff {nets : List IpNetwork} (h : ∀ n ∈ nets, n.WellFormed) (ip : Option String) :
    ipAllowed ip (nets.map IpNetwork.text) = true ↔
      ∃ text a, ip = some text ∧ ipAddress text.toList = some a ∧ Granted nets a.unmapped := by
  cases ip with
  | none => simp [ipAllowed]
  | some text =>
    have hlist (a : Address) : ((nets.map IpNetwork.text).any fun text =>
        match ipNetwork false text with
        | .ok network => network.network.contains a.unmapped
        | .error _ => false) = true ↔ Granted nets a.unmapped := by
      rw [List.any_map, List.any_eq_true]
      constructor
      · rintro ⟨n, hn, hin⟩
        rw [Function.comp_apply, ipNetwork_text false (h n hn)] at hin
        exact ⟨n, hn, (contains_iff (h n hn) a.unmapped).1 hin⟩
      · rintro ⟨n, hn, hshares⟩
        refine ⟨n, hn, ?_⟩
        rw [Function.comp_apply, ipNetwork_text false (h n hn)]
        exact (contains_iff (h n hn) a.unmapped).2 hshares
    unfold ipAllowed
    dsimp only
    by_cases hempty : text = ""
    · rw [if_pos hempty, hempty]
      have hnone : ipAddress [] = none := by decide
      simp [hnone]
    · rw [if_neg hempty]
      cases haddress : ipAddress text.toList with
      | none => simp [haddress]
      | some a =>
        dsimp only
        rw [hlist a]
        simp [haddress]

/-- `resolve_client_ip`, before the address is written. -/
def resolveAddress (peer forwardedFor realIp : Option String) (trusted : List Network) : Option Address :=
  match parseAddress peer with
  | none => none
  | some peerAddress =>
    if !isTrusted peerAddress trusted then some peerAddress
    else match forwardedFor.filter (· ≠ "") with
      | some forwarded => walk trusted (hopsOf forwarded).reverse none
      | none =>
        match realIp.filter (· ≠ "") with
        | some realIp => parseAddress (some realIp)
        | none => some peerAddress

theorem resolveClientIp_eq (peer forwardedFor realIp : Option String) (trusted : List Network) :
    resolveClientIp peer forwardedFor realIp trusted = (resolveAddress peer forwardedFor realIp trusted).map shown := by
  unfold resolveClientIp resolveAddress
  cases parseAddress peer with
  | none => rfl
  | some peerAddress =>
    dsimp only
    split
    · rfl
    · cases forwardedFor.filter (· ≠ "") with
      | some forwarded => rfl
      | none => cases realIp.filter (· ≠ "") <;> rfl

/-- An address that a header or a peer was read as. -/
def Resolved (a : Address) : Prop := a.WellFormed ∧ a.unmapped = a

theorem resolved_of_parse {raw : Option String} {a : Address} (h : parseAddress raw = some a) : Resolved a := by
  unfold parseAddress at h
  cases raw with
  | none => cases h
  | some raw =>
    rw [Option.bind_some] at h
    split at h
    · cases h
    obtain ⟨b, hb, rfl⟩ := Option.map_eq_some_iff.1 h
    refine ⟨?_, unmapped_unmapped b⟩
    have hb := wellFormed_of_ipAddress hb
    cases b with
    | v4 ip => trivial
    | v6 ip scope =>
      unfold Address.unmapped
      dsimp only
      split
      · trivial
      · exact hb

theorem resolved_of_walk {trusted : List Network} {hops : List String} {last : Option Address}
    (hlast : ∀ a, last = some a → Resolved a) {a : Address} (h : walk trusted hops last = some a) : Resolved a := by
  induction hops generalizing last with
  | nil => exact hlast a h
  | cons hop rest ih =>
    rw [walk] at h
    cases hparse : parseAddress (some hop) with
    | none =>
      rw [hparse] at h
      cases h
    | some b =>
      rw [hparse] at h
      dsimp only at h
      have hb : ∀ c, some b = some c → Resolved c := by
        intro c hc
        cases hc
        exact resolved_of_parse hparse
      split at h
      · exact ih hb h
      · exact hb a h

theorem resolved_of_resolve {peer forwardedFor realIp : Option String} {trusted : List Network} {a : Address}
    (h : resolveAddress peer forwardedFor realIp trusted = some a) : Resolved a := by
  unfold resolveAddress at h
  cases hpeer : parseAddress peer with
  | none =>
    rw [hpeer] at h
    cases h
  | some b =>
    rw [hpeer] at h
    dsimp only at h
    split at h
    · cases h
      exact resolved_of_parse hpeer
    · split at h
      · exact resolved_of_walk (fun _ hnone => by cases hnone) h
      · split at h
        · exact resolved_of_parse h
        · cases h
          exact resolved_of_parse hpeer

/-- Nothing of the address is lost where it is written and read again. -/
theorem ipAddress_shown {a : Address} (h : Resolved a) : ipAddress (shown a).toList = some a := by
  unfold shown
  rw [String.toList_ofList]
  exact ipAddress_text h.1

theorem isTrusted_iff (configured : Configured) (environ : List Char) (a : Address) :
    isTrusted a ((trustedProxies configured environ).map IpNetwork.network) = true ↔
      ∃ item ∈ configured.entries environ, ∃ n, Names (Text.strip item) n ∧ a.Shares n.prefixlen n.address := by
  have hentry (item : List Char) (n : IpNetwork) :
      (if Text.strip item = [] then none else (ipNetwork true (Text.strip item)).toOption) = some n ↔
        Names (Text.strip item) n := by
    rw [← ipNetwork_strict_iff]
    split
    · rename_i hempty
      have herror : ipNetwork true [] = .error .notANetwork := by decide
      simp [hempty, herror]
    · cases ipNetwork true (Text.strip item) <;> simp [Except.toOption]
  unfold isTrusted trustedProxies
  rw [List.any_map, List.any_eq_true]
  constructor
  · rintro ⟨n, hn, hin⟩
    obtain ⟨item, hitem, hread⟩ := List.mem_filterMap.1 hn
    have hnames := (hentry item n).1 hread
    exact ⟨item, hitem, n, hnames, (contains_iff (wellFormed_of_names hnames) a).1 hin⟩
  · rintro ⟨item, hitem, n, hnames, hshares⟩
    exact ⟨n, List.mem_filterMap.2 ⟨item, hitem, (hentry item n).2 hnames⟩,
      (contains_iff (wellFormed_of_names hnames) a).2 hshares⟩

/-- **A key is good at the addresses of the networks it was given.** A list on the command line is taken if every
entry names a network: an address, and how many bits of it count, with no others set. What is stored of it is taken
again for the same networks. A key with the list is good at an address if and only if it is in one of them; the
address is the one that was resolved past the proxies, and a proxy is what is in a network of the configuration. -/
theorem allow_list_exact (repr : List Char → List Char) (raws : List (List Char)) :
    ((∃ stored, parseNetworks repr raws = .ok stored) ↔ ∀ raw ∈ raws, ∃ n, Names (Text.strip raw) n) ∧
    (∀ stored, parseNetworks repr raws = .ok stored → parseNetworks repr stored = .ok stored ∧
      ∃ nets, List.Forall₂ (fun raw n => Names (Text.strip raw) n) raws nets ∧
        (∀ ip, ipAllowed ip stored = true ↔
          ∃ text a, ip = some text ∧ ipAddress text.toList = some a ∧ Granted nets a.unmapped) ∧
        ∀ peer forwardedFor realIp trusted, ipAllowed (resolveClientIp peer forwardedFor realIp trusted) stored = true ↔
          ∃ a, resolveAddress peer forwardedFor realIp trusted = some a ∧ Granted nets a) ∧
    ∀ configured environ a, isTrusted a ((trustedProxies configured environ).map IpNetwork.network) = true ↔
      ∃ item ∈ configured.entries environ, ∃ n, Names (Text.strip item) n ∧ a.Shares n.prefixlen n.address := by
  refine ⟨taken_iff, ?_, isTrusted_iff⟩
  · intro stored h
    obtain ⟨nets, hnets, rfl⟩ := parseNetworks_ok_iff.1 h
    have hgood := wellFormed_of_forall₂ hnets
    refine ⟨parseNetworks_stored hgood, nets, hnets, ipAllowed_iff hgood, ?_⟩
    intro peer forwardedFor realIp trusted
    rw [ipAllowed_iff hgood, resolveClientIp_eq]
    constructor
    · rintro ⟨text, a, htext, ha, hgranted⟩
      obtain ⟨b, hb, rfl⟩ := Option.map_eq_some_iff.1 htext
      have hresolved := resolved_of_resolve hb
      have hsame : b = a := Option.some.inj ((ipAddress_shown hresolved).symm.trans ha)
      subst hsame
      rw [hresolved.2] at hgranted
      exact ⟨b, hb, hgranted⟩
    · rintro ⟨a, ha, hgranted⟩
      have hresolved := resolved_of_resolve ha
      refine ⟨shown a, a, by rw [ha]; rfl, ipAddress_shown hresolved, ?_⟩
      rw [hresolved.2]
      exact hgranted

end PyAppRunner.ApiKeys.Networks
