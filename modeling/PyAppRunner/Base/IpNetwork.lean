import PyAppRunner.Base.IpText

/-! IP networks: the part of `ipaddress` that reads a network and writes it.

A network is its first address and a number of leading bits; with `strict` nothing else may be set in what is
read. The bits may be given as a number, for IPv4 also as a netmask or as a hostmask. -/
namespace PyAppRunner.Base.Ip

/-- `IPv4Network`, `IPv6Network`: the address as it was given, and how many of its bits count. -/
structure IpNetwork where
  address : Address
  prefixlen : Nat
deriving DecidableEq

/-- Why a text is no network: as a text, or for `strict` bits of the host. -/
inductive NetworkError where
  | notANetwork
  | hostBits (network : IpNetwork)
deriving DecidableEq

/-- The leading bits set: `_ip_int_from_prefix`. -/
def netmask (w prefixlen : Nat) : BitVec w := BitVec.allOnes w ^^^ (BitVec.allOnes w >>> prefixlen)

/-- `hostmask`: the bits that the prefix leaves. -/
def hostmask (w prefixlen : Nat) : BitVec w := BitVec.allOnes w >>> prefixlen

/-- As what an address is looked for in: its mask in the place of the length. -/
def IpNetwork.network (n : IpNetwork) : Network :=
  match n.address with
  | .v4 ip => .v4 ip (netmask 32 n.prefixlen)
  | .v6 ip _ => .v6 ip (netmask 128 n.prefixlen)

/-- `str(network)`. -/
def IpNetwork.text (n : IpNetwork) : List Char := n.address.text ++ '/' :: Nat.toDigits 10 n.prefixlen

/-! ### The mask -/

/-- `_prefix_from_prefix_string`: ASCII digits only. -/
def prefixFromPrefixString (maxPrefixlen : Nat) (s : List Char) : Option Nat :=
  if s = [] ∨ !s.all isDigit then none
  else
    let prefixlen := number 10 (s.map fun c => c.toNat - '0'.toNat)
    if prefixlen ≤ maxPrefixlen then some prefixlen else none

/-- `_count_righthand_zero_bits`: so many at most. -/
def countRighthandZeroBits (n : Nat) : Nat → Nat
  | 0 => 0
  | bits + 1 => if n % 2 = 1 then 0 else countRighthandZeroBits (n / 2) bits + 1

/-- `_prefix_from_ip_int`, for IPv4. -/
def prefixFromIpInt (n : Nat) : Option Nat :=
  let trailing := countRighthandZeroBits n 32
  let prefixlen := 32 - trailing
  if n >>> trailing = 1 <<< prefixlen - 1 then some prefixlen else none

/-- `_prefix_from_ip_string`: a netmask before a hostmask. -/
def prefixFromIpString (s : List Char) : Option Nat :=
  match parseV4 s with
  | none => none
  | some ip => prefixFromIpInt ip.toNat <|> prefixFromIpInt (ip.toNat ^^^ 4294967295)

/-! ### The network -/

/-- An address and a mask; nothing else is split off at `/`. -/
def splitAddrPrefix (s : List Char) : Option (List Char × Option (List Char)) :=
  match Text.split '/' s with
  | [address] => some (address, none)
  | [address, mask] => some (address, some mask)
  | _ => none

section
variable (strict : Bool)

/-- `IPv4Network(s, strict)`. -/
def ipv4Network (s : List Char) : Except NetworkError IpNetwork :=
  match splitAddrPrefix s with
  | none => .error .notANetwork
  | some (address, mask) =>
    match parseV4 address, mask.elim (some 32) fun m => prefixFromPrefixString 32 m <|> prefixFromIpString m with
    | some ip, some prefixlen =>
      if ip &&& netmask 32 prefixlen ≠ ip then
        if strict then .error (.hostBits ⟨.v4 ip, prefixlen⟩)
        else .ok ⟨.v4 (ip &&& netmask 32 prefixlen), prefixlen⟩
      else .ok ⟨.v4 ip, prefixlen⟩
    | _, _ => .error .notANetwork

/-- `IPv6Network(s, strict)`. -/
def ipv6Network (s : List Char) : Except NetworkError IpNetwork :=
  match splitAddrPrefix s with
  | none => .error .notANetwork
  | some (address, mask) =>
    match parseV6 address, mask.elim (some 128) (prefixFromPrefixString 128) with
    | some (.v6 ip scope), some prefixlen =>
      if ip &&& netmask 128 prefixlen ≠ ip then
        if strict then .error (.hostBits ⟨.v6 ip scope, prefixlen⟩)
        else .ok ⟨.v6 (ip &&& netmask 128 prefixlen) none, prefixlen⟩
      else .ok ⟨.v6 ip scope, prefixlen⟩
    | _, _ => .error .notANetwork

/-- `ipaddress.ip_network(s, strict)`: that bits of the host are set is raised at once. -/
def ipNetwork (s : List Char) : Except NetworkError IpNetwork :=
  match ipv4Network strict s with
  | .error .notANetwork => ipv6Network strict s
  | r => r

end

example : (ipNetwork true "10.0.0.0/255.0.0.0".toList).map IpNetwork.text = .ok "10.0.0.0/8".toList := by decide +kernel

/-! ### Masks as bits -/

section
variable {w : Nat}

/-- The mask has its first bits set, as many as the prefix is long. -/
theorem getLsbD_netmask (p i : Nat) : (netmask w p).getLsbD i = decide (i < w ∧ w ≤ i + p) := by
  unfold netmask
  rw [BitVec.getLsbD_xor, BitVec.getLsbD_ushiftRight, BitVec.getLsbD_allOnes, BitVec.getLsbD_allOnes]
  by_cases hi : i < w
  · by_cases hp : p + i < w
    · simp [hi, hp]
      omega
    · simp [hi, hp]
      omega
  · have hp : ¬ p + i < w := by omega
    simp [hi, hp]

/-- The first bits are the same. -/
def SameNetwork (p : Nat) (a b : BitVec w) : Prop := ∀ i, w ≤ i + p → a.getLsbD i = b.getLsbD i

theorem and_netmask_eq (p : Nat) {a n : BitVec w} (hn : n &&& netmask w p = n) :
    a &&& netmask w p = n ↔ SameNetwork p a n := by
  constructor
  · intro h i hi
    have hbit := congrArg (BitVec.getLsbD · i) h
    simp only [BitVec.getLsbD_and, getLsbD_netmask] at hbit
    by_cases hlt : i < w
    · simpa [hlt, hi] using hbit
    · rw [BitVec.getLsbD_of_ge _ _ (Nat.le_of_not_lt hlt), BitVec.getLsbD_of_ge _ _ (Nat.le_of_not_lt hlt)]
  · intro h
    rw [← hn]
    apply BitVec.eq_of_getLsbD_eq
    intro i hi
    rw [BitVec.getLsbD_and, BitVec.getLsbD_and, getLsbD_netmask]
    by_cases hp : w ≤ i + p
    · rw [h i hp]
    · simp [hp]

end

/-! ### What a mask says -/

/-- The lowest bits that are zero, up to `bits` of them. -/
theorem countRighthandZeroBits_spec (n bits : Nat) :
    countRighthandZeroBits n bits ≤ bits ∧
      n = n / 2 ^ countRighthandZeroBits n bits * 2 ^ countRighthandZeroBits n bits := by
  induction bits generalizing n with
  | zero => simp [countRighthandZeroBits]
  | succ bits ih =>
    unfold countRighthandZeroBits
    split
    · simp
    · rename_i hodd
      obtain ⟨hle, hshift⟩ := ih (n / 2)
      refine ⟨Nat.succ_le_succ hle, ?_⟩
      rw [pow_succ', ← Nat.div_div_eq_div_mul]
      generalize n / 2 / 2 ^ countRighthandZeroBits (n / 2) bits = high at hshift
      calc n = 2 * (n / 2) := by omega
        _ = 2 * (high * 2 ^ countRighthandZeroBits (n / 2) bits) := by rw [← hshift]
        _ = high * (2 * 2 ^ countRighthandZeroBits (n / 2) bits) := by ring

/-- The mask as a number. -/
theorem toNat_netmask {p : Nat} (h : p ≤ 32) : (netmask 32 p).toNat = (2 ^ p - 1) * 2 ^ (32 - p) := by
  have hall : ∀ p : Fin 33, (netmask 32 p).toNat = (2 ^ p.val - 1) * 2 ^ (32 - p.val) := by decide
  exact hall ⟨p, Nat.lt_succ_of_le h⟩

/-- A number is read as a mask just when it is one. -/
theorem prefixFromIpInt_iff {n p : Nat} : prefixFromIpInt n = some p ↔ p ≤ 32 ∧ n = (netmask 32 p).toNat := by
  constructor
  · intro h
    unfold prefixFromIpInt at h
    obtain ⟨hle, hshift⟩ := countRighthandZeroBits_spec n 32
    generalize countRighthandZeroBits n 32 = trailing at h hle hshift
    dsimp only at h
    split at h
    · rename_i hones
      cases h
      rw [Nat.shiftRight_eq_div_pow, Nat.one_shiftLeft] at hones
      refine ⟨Nat.sub_le 32 trailing, ?_⟩
      rw [toNat_netmask (Nat.sub_le 32 trailing), ← hones, Nat.sub_sub_self hle]
      exact hshift
    · cases h
  · rintro ⟨hp, rfl⟩
    have hall : ∀ p : Fin 33, prefixFromIpInt (netmask 32 p).toNat = some p.val := by decide
    exact hall ⟨p, Nat.lt_succ_of_le hp⟩

/-- The dotted forms. What is both a netmask and a hostmask is a netmask. -/
theorem prefixFromIpString_iff {s : List Char} {p : Nat} : prefixFromIpString s = some p ↔
    ∃ ip, parseV4 s = some ip ∧ p ≤ 32 ∧
      (ip = netmask 32 p ∨ ip = hostmask 32 p ∧ ∀ q, q ≤ 32 → ip ≠ netmask 32 q) := by
  -- The source turns the bits around and asks again whether they are a netmask.
  have hflip (ip : BitVec 32) (p : Nat) : ip.toNat ^^^ 4294967295 = (netmask 32 p).toNat ↔ ip = hostmask 32 p := by
    have hones : (4294967295 : Nat) = (BitVec.allOnes 32).toNat := rfl
    rw [hones, ← BitVec.toNat_xor, BitVec.toNat_inj]
    unfold netmask hostmask
    constructor
    · intro h
      have hboth := congrArg (BitVec.allOnes 32 ^^^ ·) h
      simpa [← BitVec.xor_assoc, BitVec.xor_comm ip] using hboth
    · rintro rfl
      exact BitVec.xor_comm _ _
  unfold prefixFromIpString
  cases parseV4 s with
  | none => simp
  | some ip =>
    dsimp only
    cases hmask : prefixFromIpInt ip.toNat with
    | some q =>
      obtain ⟨hq, heq⟩ := prefixFromIpInt_iff.1 hmask
      have heq := BitVec.toNat_inj.1 heq
      constructor
      · intro h
        cases h
        exact ⟨ip, rfl, hq, .inl heq⟩
      · rintro ⟨ip', hip, hp, hnet | ⟨-, hno⟩⟩
        · cases hip
          exact hmask.symm.trans (prefixFromIpInt_iff.2 ⟨hp, congrArg BitVec.toNat hnet⟩)
        · cases hip
          exact absurd heq (hno q hq)
    | none =>
      have hno : ∀ q, q ≤ 32 → ip ≠ netmask 32 q := by
        intro q hq heq
        have hsome := prefixFromIpInt_iff.2 ⟨hq, congrArg BitVec.toNat heq⟩
        rw [hmask] at hsome
        cases hsome
      show prefixFromIpInt (ip.toNat ^^^ 4294967295) = some p ↔ _
      rw [prefixFromIpInt_iff, hflip]
      constructor
      · rintro ⟨hp, heq⟩
        exact ⟨ip, rfl, hp, .inr ⟨heq, hno⟩⟩
      · rintro ⟨ip', hip, hp, hnet | ⟨hhost, -⟩⟩
        · cases hip
          exact absurd hnet (hno p hp)
        · cases hip
          exact ⟨hp, hhost⟩

/-! ### What is read -/

/-- The bits a mask leaves to the network; without a mask, all of them. -/
def prefixOf (a : Address) (mask : Option (List Char)) : Option Nat :=
  match a with
  | .v4 _ => mask.elim (some 32) fun m => prefixFromPrefixString 32 m <|> prefixFromIpString m
  | .v6 _ _ => mask.elim (some 128) (prefixFromPrefixString 128)

/-- How many bits it has. -/
def Address.width : Address → Nat
  | .v4 _ => 32
  | .v6 _ _ => 128

/-- The host's bits cleared, and the zone if any of them was set. -/
def Address.masked (p : Nat) : Address → Address
  | .v4 ip => .v4 (ip &&& netmask 32 p)
  | .v6 ip scope => if ip &&& netmask 128 p = ip then .v6 ip scope else .v6 (ip &&& netmask 128 p) none

/-- Addresses of one family whose first bits are the same. -/
def Address.Shares (p : Nat) : Address → Address → Prop
  | .v4 a, .v4 b => SameNetwork p a b
  | .v6 a _, .v6 b _ => SameNetwork p a b
  | _, _ => False

/-- No bits of the host are set, and there are so many of the network. -/
structure IpNetwork.WellFormed (n : IpNetwork) : Prop where
  address : n.address.WellFormed
  fits : n.prefixlen ≤ n.address.width
  clean : n.address.masked n.prefixlen = n.address

theorem masked_v4_eq {ip : BitVec 32} {p : Nat} :
    (Address.v4 ip).masked p = .v4 ip ↔ ip &&& netmask 32 p = ip := Address.v4.injEq _ _ ▸ Iff.rfl

theorem masked_v6_eq {ip : BitVec 128} {scope : Option (List Char)} {p : Nat} :
    (Address.v6 ip scope).masked p = .v6 ip scope ↔ ip &&& netmask 128 p = ip := by
  simp only [Address.masked]
  split
  · rename_i hclean
    exact ⟨fun _ => hclean, fun _ => rfl⟩
  · rename_i hdirty
    exact ⟨fun h => (Address.v6.inj h).1, fun h => absurd h hdirty⟩

/-- What is masked has no host bits left. -/
theorem masked_masked (a : Address) (p : Nat) : (a.masked p).masked p = a.masked p := by
  cases a with
  | v4 ip => simp [Address.masked, BitVec.and_assoc]
  | v6 ip scope =>
    by_cases hclean : ip &&& netmask 128 p = ip
    · rw [masked_v6_eq.2 hclean, masked_v6_eq.2 hclean]
    · rw [show (Address.v6 ip scope).masked p = .v6 (ip &&& netmask 128 p) none from if_neg hclean, masked_v6_eq,
        BitVec.and_assoc, BitVec.and_self]

/-- An address is in a network just when it shares the prefix, and the version. -/
theorem contains_iff {n : IpNetwork} (h : n.WellFormed) (a : Address) :
    n.network.contains a = true ↔ a.Shares n.prefixlen n.address := by
  obtain ⟨address, prefixlen⟩ := n
  have hclean : address.masked prefixlen = address := h.clean
  cases address with
  | v4 ip =>
    cases a with
    | v4 b => exact beq_iff_eq.trans (and_netmask_eq prefixlen (masked_v4_eq.1 hclean))
    | v6 b scope => simp [IpNetwork.network, Network.contains, Address.Shares]
  | v6 ip zone =>
    cases a with
    | v4 b => simp [IpNetwork.network, Network.contains, Address.Shares]
    | v6 b scope => exact beq_iff_eq.trans (and_netmask_eq prefixlen (masked_v6_eq.1 hclean))

theorem exists_of_mapM {α β : Type} {f : α → Option β} {l : List α} {l' : List β} (h : l.mapM f = some l') :
    ∀ a ∈ l, ∃ b, f a = some b := by
  induction l generalizing l' with
  | nil => exact fun a ha => absurd ha List.not_mem_nil
  | cons a rest ih =>
    rw [List.mapM_cons] at h
    obtain ⟨b, hb, h⟩ := Option.bind_eq_some_iff.1 h
    obtain ⟨bs, hbs, -⟩ := Option.bind_eq_some_iff.1 h
    rw [List.forall_mem_cons]
    exact ⟨⟨b, hb⟩, ih hbs⟩

/-- No text is an address of both families. -/
theorem parseV6_of_parseV4 {s : List Char} {ip : BitVec 32} (h : parseV4 s = some ip) : parseV6 s = none := by
  have hcolon : ':' ∉ s := by
    intro hmem
    unfold parseV4 at h
    split at h
    · rename_i hread
      have hjoined : ':' ∈ ((Text.split '.' s).map (· ++ ['.'])).flatten := by
        rw [Text.flatten_split]
        exact List.mem_append_left _ hmem
      obtain ⟨_, hpart, hin⟩ := List.mem_flatten.1 hjoined
      obtain ⟨part, hmem, rfl⟩ := List.mem_map.1 hpart
      have hin : ':' ∈ part := by simpa using hin
      obtain ⟨octet, hoctet⟩ := exists_of_mapM hread part hmem
      unfold parseOctet at hoctet
      split at hoctet
      · cases hoctet
      · rename_i hgood
        rw [not_or, not_or] at hgood
        have hdigit := List.all_eq_true.1 (by simpa using hgood.2.1) ':' hin
        exact absurd hdigit (by decide)
    · cases h
  unfold parseV6
  split
  · rfl
  cases hscope : splitScope s with
  | none => rfl
  | some parts =>
    obtain ⟨address, scope⟩ := parts
    have haddress : ':' ∉ address := by
      intro hmem
      unfold splitScope at hscope
      split at hscope
      · cases hscope
        exact hcolon hmem
      · dsimp only at hscope
        split at hscope
        · cases hscope
        · cases hscope
          exact hcolon ((List.takeWhile_sublist _).subset hmem)
    simp only [Option.bind_eq_bind, Option.bind_some, split_of_not_mem haddress]
    rfl

/-- What is read as IPv6 is IPv6. -/
theorem parseV6_isV6 {s : List Char} {a : Address} (h : parseV6 s = some a) : ∃ ip scope, a = .v6 ip scope := by
  unfold parseV6 at h
  split at h
  · cases h
  obtain ⟨⟨address, scope⟩, -, h⟩ := Option.bind_eq_some_iff.1 h
  dsimp only at h
  split at h
  · cases h
  obtain ⟨parts, -, h⟩ := Option.bind_eq_some_iff.1 h
  split at h
  · cases h
  obtain ⟨groups, -, h⟩ := Option.bind_eq_some_iff.1 h
  cases h
  exact ⟨_, _, rfl⟩

/-- Past its address, an IPv4 network is refused for its mask or its host bits only. -/
theorem ipv4Network_of_address {strict : Bool} {s address : List Char} {mask : Option (List Char)} {ip : BitVec 32}
    (hsplit : splitAddrPrefix s = some (address, mask)) (hv4 : parseV4 address = some ip) {n : IpNetwork} :
    ipv4Network strict s = .ok n ↔ ∃ p, prefixOf (.v4 ip) mask = some p ∧ n = ⟨(Address.v4 ip).masked p, p⟩ ∧
      (strict = true → (Address.v4 ip).masked p = .v4 ip) := by
  unfold ipv4Network
  simp only [hsplit, hv4, masked_v4_eq]
  show (match some ip, prefixOf (.v4 ip) mask with
    | some ip, some p => _
    | _, _ => _) = _ ↔ _
  cases prefixOf (.v4 ip) mask with
  | none => simp
  | some p =>
    dsimp only
    by_cases hclean : ip &&& netmask 32 p = ip
    · rw [if_neg (not_not.2 hclean)]
      simp [Address.masked, hclean, eq_comm]
    · rw [if_pos hclean]
      cases strict with
      | true => simp [hclean]
      | false => simp [Address.masked, eq_comm]

/-- The same of IPv6, which has no masks but lengths. -/
theorem ipv6Network_of_address {strict : Bool} {s address : List Char} {mask : Option (List Char)} {ip : BitVec 128}
    {scope : Option (List Char)} (hsplit : splitAddrPrefix s = some (address, mask))
    (hv6 : parseV6 address = some (.v6 ip scope)) {n : IpNetwork} :
    ipv6Network strict s = .ok n ↔ ∃ p, prefixOf (.v6 ip scope) mask = some p ∧
      n = ⟨(Address.v6 ip scope).masked p, p⟩ ∧ (strict = true → (Address.v6 ip scope).masked p = .v6 ip scope) := by
  unfold ipv6Network
  simp only [hsplit, hv6, masked_v6_eq]
  show (match some (Address.v6 ip scope), prefixOf (.v6 ip scope) mask with
    | some (.v6 ip scope), some p => _
    | _, _ => _) = _ ↔ _
  cases prefixOf (.v6 ip scope) mask with
  | none => simp
  | some p =>
    dsimp only
    by_cases hclean : ip &&& netmask 128 p = ip
    · rw [if_neg (not_not.2 hclean)]
      simp [Address.masked, hclean, eq_comm]
    · rw [if_pos hclean]
      cases strict with
      | true => simp [hclean]
      | false =>
        have hmasked : (Address.v6 ip scope).masked p = .v6 (ip &&& netmask 128 p) none := if_neg hclean
        simp [hmasked, eq_comm]

/-- **What is a network.** An address and a mask of its family, and with `strict` no bits of the host. -/
theorem ipNetwork_ok_iff {strict : Bool} {s : List Char} {n : IpNetwork} : ipNetwork strict s = .ok n ↔
    ∃ address mask a p, splitAddrPrefix s = some (address, mask) ∧ ipAddress address = some a ∧
      prefixOf a mask = some p ∧ n = ⟨a.masked p, p⟩ ∧ (strict = true → a.masked p = a) := by
  unfold ipNetwork
  -- Both families split the text alike, and an address is read by one of them only.
  cases hsplit : splitAddrPrefix s with
  | none =>
    have hv4 : ipv4Network strict s = .error .notANetwork := by simp [ipv4Network, hsplit]
    have hv6 : ipv6Network strict s = .error .notANetwork := by simp [ipv6Network, hsplit]
    rw [hv4]
    simp [hv6]
  | some parts =>
    obtain ⟨address, mask⟩ := parts
    cases haddress : ipAddress address with
    | none =>
      have hfailed := haddress
      unfold ipAddress at hfailed
      cases hparse4 : parseV4 address with
      | some ip =>
        rw [hparse4] at hfailed
        cases hfailed
      | none =>
        rw [hparse4] at hfailed
        have hparse6 : parseV6 address = none := hfailed
        have hv4 : ipv4Network strict s = .error .notANetwork := by simp [ipv4Network, hsplit, hparse4]
        have hv6 : ipv6Network strict s = .error .notANetwork := by simp [ipv6Network, hsplit, hparse6]
        rw [hv4]
        simp [hv6, haddress]
    | some a =>
      have hsame : (∃ address' mask' a' p, some (address, mask) = some (address', mask') ∧ ipAddress address' = some a' ∧
          prefixOf a' mask' = some p ∧ n = ⟨a'.masked p, p⟩ ∧ (strict = true → a'.masked p = a')) ↔
          ∃ p, prefixOf a mask = some p ∧ n = ⟨a.masked p, p⟩ ∧ (strict = true → a.masked p = a) := by
        constructor
        · rintro ⟨_, _, a', p, heq, ha', hrest⟩
          cases heq
          cases haddress.symm.trans ha'
          exact ⟨p, hrest⟩
        · rintro ⟨p, hrest⟩
          exact ⟨address, mask, a, p, rfl, haddress, hrest⟩
      rw [hsame]
      unfold ipAddress at haddress
      cases hparse4 : parseV4 address with
      | some ip =>
        rw [hparse4] at haddress
        cases haddress
        rw [← ipv4Network_of_address hsplit hparse4]
        have hv6 : ipv6Network strict s = .error .notANetwork := by simp [ipv6Network, hsplit, parseV6_of_parseV4 hparse4]
        split
        · rename_i hv4
          rw [hv4, hv6]
        · rfl
      | none =>
        rw [hparse4] at haddress
        have hparse6 : parseV6 address = some a := haddress
        obtain ⟨ip, scope, rfl⟩ := parseV6_isV6 hparse6
        have hv4 : ipv4Network strict s = .error .notANetwork := by simp [ipv4Network, hsplit, hparse4]
        rw [hv4, ← ipv6Network_of_address hsplit hparse6]

/-- A mask says that so many bits of an address count. -/
inductive MaskSays : Address → Option (List Char) → Nat → Prop where
  | absent (a : Address) : MaskSays a none a.width
  | number {a : Address} {m : List Char} {p : Nat} : m ≠ [] → (∀ c ∈ m, isDigit c = true) →
      Ip.number 10 (m.map fun c => c.toNat - '0'.toNat) = p → p ≤ a.width → MaskSays a (some m) p
  | netmask {ip : BitVec 32} {m : List Char} {p : Nat} : parseV4 m = some (Ip.netmask 32 p) → p ≤ 32 →
      MaskSays (.v4 ip) (some m) p
  | hostmask {ip : BitVec 32} {m : List Char} {p : Nat} : parseV4 m = some (Ip.hostmask 32 p) → p ≤ 32 →
      (∀ q, q ≤ 32 → Ip.hostmask 32 p ≠ Ip.netmask 32 q) → MaskSays (.v4 ip) (some m) p

/-- A text is that of a network: an address and a mask, and no bits of the host. -/
structure Names (s : List Char) (n : IpNetwork) : Prop where
  parts : ∃ address mask, splitAddrPrefix s = some (address, mask) ∧ ipAddress address = some n.address ∧
    MaskSays n.address mask n.prefixlen
  clean : n.address.masked n.prefixlen = n.address

/-- A length is read from digits, and is not longer than the address. -/
theorem prefixFromPrefixString_iff {w p : Nat} {m : List Char} : prefixFromPrefixString w m = some p ↔
    m ≠ [] ∧ (∀ c ∈ m, isDigit c = true) ∧ number 10 (m.map fun c => c.toNat - '0'.toNat) = p ∧ p ≤ w := by
  unfold prefixFromPrefixString
  rw [← List.all_eq_true]
  split
  · rename_i hbad
    constructor
    · intro h
      cases h
    · rintro ⟨hne, hall, -⟩
      simp [hne, hall] at hbad
  · rename_i hgood
    rw [not_or, Bool.not_eq_true', Bool.not_eq_false] at hgood
    dsimp only
    split
    · rename_i hle
      constructor
      · intro h
        cases h
        exact ⟨hgood.1, hgood.2, rfl, hle⟩
      · rintro ⟨-, -, heq, -⟩
        rw [heq]
    · rename_i hlarge
      constructor
      · intro h
        cases h
      · rintro ⟨-, -, rfl, hle⟩
        exact absurd hle hlarge

/-- Digits alone are no address. -/
theorem parseV4_of_digits {m : List Char} (h : ∀ c ∈ m, isDigit c = true) : parseV4 m = none := by
  have hdot : '.' ∉ m := by
    intro hmem
    exact absurd (h '.' hmem) (by decide)
  unfold parseV4
  rw [split_of_not_mem hdot, List.mapM_cons]
  cases parseOctet m <;> rfl

/-- What is read behind the slash is what the mask says. -/
theorem prefixOf_iff {a : Address} {mask : Option (List Char)} {p : Nat} : prefixOf a mask = some p ↔ MaskSays a mask p := by
  cases mask with
  | none =>
    constructor
    · intro h
      have hwidth : a.width = p := by cases a <;> exact Option.some.inj h
      rw [← hwidth]
      exact .absent a
    · intro h
      cases h
      cases a <;> rfl
  | some m =>
    cases a with
    | v4 ip =>
      show (prefixFromPrefixString 32 m <|> prefixFromIpString m) = some p ↔ _
      -- A number is tried first. No mask in dotted form is one, so the three ways exclude each other.
      cases hnumber : prefixFromPrefixString 32 m with
      | some q =>
        obtain ⟨hne, hdigits, hvalue, hle⟩ := prefixFromPrefixString_iff.1 hnumber
        constructor
        · intro h
          cases h
          exact .number hne hdigits hvalue hle
        · intro h
          cases h with
          | number _ _ hvalue' _ => exact congrArg some (hvalue.symm.trans hvalue')
          | netmask hparse => simp [parseV4_of_digits hdigits] at hparse
          | hostmask hparse => simp [parseV4_of_digits hdigits] at hparse
      | none =>
        show prefixFromIpString m = some p ↔ _
        rw [prefixFromIpString_iff]
        constructor
        · rintro ⟨ip', hparse, hle, rfl | ⟨rfl, hno⟩⟩
          · exact .netmask hparse hle
          · exact .hostmask hparse hle hno
        · intro h
          cases h with
          | number hne hdigits hvalue hle =>
            exact absurd (prefixFromPrefixString_iff.2 ⟨hne, hdigits, hvalue, hle⟩) (by simp [hnumber, Address.width])
          | netmask hparse hle => exact ⟨_, hparse, hle, .inl rfl⟩
          | hostmask hparse hle hno => exact ⟨_, hparse, hle, .inr ⟨rfl, hno⟩⟩
    | v6 ip scope =>
      show prefixFromPrefixString 128 m = some p ↔ _
      rw [prefixFromPrefixString_iff]
      constructor
      · rintro ⟨hne, hdigits, hvalue, hle⟩
        exact .number hne hdigits hvalue hle
      · intro h
        cases h with
        | number hne hdigits hvalue hle => exact ⟨hne, hdigits, hvalue, hle⟩

/-- With `strict` a text is read as the network it names. -/
theorem ipNetwork_strict_iff {s : List Char} {n : IpNetwork} : ipNetwork true s = .ok n ↔ Names s n := by
  rw [ipNetwork_ok_iff]
  constructor
  · rintro ⟨address, mask, a, p, hsplit, haddress, hmask, rfl, hclean⟩
    have hclean := hclean rfl
    refine ⟨⟨address, mask, hsplit, ?_, ?_⟩, masked_masked a p⟩
    · exact haddress.trans (congrArg some hclean.symm)
    · show MaskSays (a.masked p) mask p
      rw [hclean]
      exact prefixOf_iff.1 hmask
  · rintro ⟨⟨address, mask, hsplit, haddress, hmask⟩, hclean⟩
    refine ⟨address, mask, n.address, n.prefixlen, hsplit, haddress, prefixOf_iff.2 hmask, ?_, fun _ => hclean⟩
    rw [hclean]

/-! ### What is written is read back -/

/-- A length is read as it was written. -/
theorem prefixFromPrefixString_toDigits {w p : Nat} (h : p ≤ w) : prefixFromPrefixString w (Nat.toDigits 10 p) = some p := by
  have hdigits : ∀ c ∈ Nat.toDigits 10 p, isDigit c = true := by
    intro c hc
    obtain ⟨d, hd, rfl⟩ := mem_toDigits (by decide) hc
    have hall : ∀ d : Fin 10, isDigit (Nat.digitChar d) = true := by decide
    exact hall ⟨d, hd⟩
  obtain ⟨digits, hread, hnumber⟩ : ∃ digits, (Nat.toDigits 10 p).mapM (fun c => some (c.toNat - '0'.toNat)) = some digits ∧
      number 10 digits = p :=
    mapM_toDigits (by decide) (fun d hd => congrArg some (Nat.toNat_digitChar_sub_48_of_lt_ten hd)) p
  have hmap : (Nat.toDigits 10 p).map (fun c => c.toNat - '0'.toNat) = digits := by
    have hpure : (Nat.toDigits 10 p).mapM (fun c => (pure (c.toNat - '0'.toNat) : Option Nat)) =
        pure ((Nat.toDigits 10 p).map fun c => c.toNat - '0'.toNat) := List.mapM_pure
    exact Option.some.inj (hpure.symm.trans hread)
  unfold prefixFromPrefixString
  rw [if_neg]
  · dsimp only
    rw [hmap, hnumber, if_pos h]
  · rintro (hnil | hother)
    · exact Nat.toDigits_ne_nil hnil
    · rw [List.all_eq_true.2 hdigits] at hother
      cases hother

theorem prefixOf_le {a : Address} {mask : Option (List Char)} {p : Nat} (h : prefixOf a mask = some p) : p ≤ a.width := by
  have hnumber {w : Nat} {m : List Char} {p : Nat} (h : prefixFromPrefixString w m = some p) : p ≤ w := by
    unfold prefixFromPrefixString at h
    split at h
    · cases h
    · dsimp only at h
      split at h
      · rename_i hle
        cases h
        exact hle
      · cases h
  cases mask with
  | none => cases a <;> cases h <;> exact Nat.le_refl _
  | some m =>
    cases a with
    | v4 ip =>
      cases hm : prefixFromPrefixString 32 m with
      | some q =>
        have heq : (prefixFromPrefixString 32 m <|> prefixFromIpString m) = some p := h
        rw [hm] at heq
        cases heq
        exact hnumber hm
      | none =>
        have heq : (prefixFromPrefixString 32 m <|> prefixFromIpString m) = some p := h
        rw [hm] at heq
        obtain ⟨-, -, hle, -⟩ := prefixFromIpString_iff.1 heq
        exact hle
    | v6 ip scope => exact hnumber h

theorem wellFormed_masked {a : Address} (h : a.WellFormed) (p : Nat) : (a.masked p).WellFormed := by
  cases a with
  | v4 ip => trivial
  | v6 ip scope =>
    unfold Address.masked
    dsimp only
    split
    · exact h
    · intro s hs
      cases hs

theorem width_masked (a : Address) (p : Nat) : (a.masked p).width = a.width := by
  cases a with
  | v4 ip => rfl
  | v6 ip scope =>
    unfold Address.masked
    dsimp only
    split <;> rfl

/-- **What is accepted is well formed.** -/
theorem wellFormed_of_ipNetwork {strict : Bool} {s : List Char} {n : IpNetwork} (h : ipNetwork strict s = .ok n) :
    n.WellFormed := by
  obtain ⟨address, mask, a, p, -, haddress, hmask, rfl, -⟩ := ipNetwork_ok_iff.1 h
  refine ⟨wellFormed_masked (wellFormed_of_ipAddress haddress) p, ?_, masked_masked a p⟩
  exact (prefixOf_le hmask).trans_eq (width_masked a p).symm

/-- **A network is read back from its text**, with `strict` or without. -/
theorem ipNetwork_text (strict : Bool) {n : IpNetwork} (h : n.WellFormed) : ipNetwork strict n.text = .ok n := by
  obtain ⟨address, prefixlen⟩ := n
  have hslash : '/' ∉ address.text := slash_not_mem_text h.address
  have hdigits : '/' ∉ Nat.toDigits 10 prefixlen := not_mem_toDigits (by decide) (by decide) prefixlen
  have hsplit : splitAddrPrefix (IpNetwork.mk address prefixlen).text = some (address.text, some (Nat.toDigits 10 prefixlen)) := by
    unfold splitAddrPrefix IpNetwork.text
    rw [Text.split_append, split_of_not_mem hslash, split_of_not_mem hdigits]
    rfl
  have hmask : prefixOf address (some (Nat.toDigits 10 prefixlen)) = some prefixlen := by
    cases address with
    | v4 ip =>
      have hfits : prefixlen ≤ 32 := h.fits
      show (prefixFromPrefixString 32 (Nat.toDigits 10 prefixlen) <|> _) = some prefixlen
      rw [prefixFromPrefixString_toDigits hfits]
      rfl
    | v6 ip scope => exact prefixFromPrefixString_toDigits h.fits
  refine ipNetwork_ok_iff.2 ⟨_, _, address, prefixlen, hsplit, ipAddress_text h.address, hmask, ?_, fun _ => h.clean⟩
  rw [show address.masked prefixlen = address from h.clean]

end PyAppRunner.Base.Ip
